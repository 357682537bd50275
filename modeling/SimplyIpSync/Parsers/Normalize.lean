import SimplyIpSync.Lib.Prefix
import SimplyIpSync.Net.Network

/-!
# `normalize_ip_or_cidr` (`src/parsers/mod.rs`)

The one reader of addresses that every parser goes through.  It writes a network the way
`ipnetwork` prints it, and one of a single address without its prefix.  The text it returns reads
as the network it came from, with the host bits it came with.

A vault stores an address under the network it denotes, host bits cleared: `vaultKey`.
-/

namespace SimplyIpSync.Parsers

open SimplyIpSync.Text SimplyIpSync.Net SimplyIpSync.Bogon SimplyIpSync.Prefix

/-- `ParseError`. -/
inductive ParseError
  | invalidConfig (detail : String)
  | malformedBody (detail : String)
  deriving DecidableEq, Repr

/-- The text of a parse error. -/
def ParseError.text : ParseError → String
  | .invalidConfig detail => "invalid parser configuration: " ++ detail
  | .malformedBody detail => "malformed feed body: " ++ detail

/-- `max_prefixlen`. -/
def maxPrefixlen : IpAddr → ℕ
  | .v4 _ => 32
  | .v6 _ => 128

/-- The text of a network: of a single address, the address alone. -/
def showNormalized (net : IpNetwork) : List Char :=
  if networkPrefix net = maxPrefixlen (networkIp net) then showIpAddr (networkIp net)
  else showIpNetwork net

/-- `normalize_ip_or_cidr`. -/
def normalizeIpOrCidr (input : List Char) : Option (List Char) :=
  let trimmed := trimText input
  match parseIpNetwork trimmed with
  | some net => some (showNormalized net)
  | none => (parseIpAddr (utf8 trimmed)).map showIpAddr

/-- Host bits stay, a full prefix goes, and spellings of one address agree. -/
example : normalizeIpOrCidr " 8.8.8.8/24 ".toList = some "8.8.8.8/24".toList ∧
    normalizeIpOrCidr "8.8.8.8/255.255.255.255".toList = some "8.8.8.8".toList ∧
    normalizeIpOrCidr "2606:4700:4700:0000::0001/128".toList = some "2606:4700:4700::1".toList ∧
    normalizeIpOrCidr "8.8.8".toList = none := by
  decide +kernel

/-! ### What a text denotes -/

/-- The network a text denotes. -/
def denotes (input : List Char) : Option IpNetwork :=
  (parseIpNetwork (trimText input)).or ((parseIpAddr (utf8 (trimText input))).map hostNetwork)

theorem showNormalized_hostNetwork (ip : IpAddr) : showNormalized (hostNetwork ip) = showIpAddr ip := by
  cases ip with
  | v4 bits => exact if_pos rfl
  | v6 bits => exact if_pos rfl

theorem normalizeIpOrCidr_eq (input : List Char) :
    normalizeIpOrCidr input = (denotes input).map showNormalized := by
  rw [normalizeIpOrCidr, denotes]
  cases parseIpNetwork (trimText input) with
  | some net => rfl
  | none =>
      rw [Option.none_or, Option.map_map]
      exact congrArg (fun f => Option.map f _)
        (funext fun ip => (showNormalized_hostNetwork ip).symm)

theorem trimText_of_all {text : List Char} (h : ∀ c ∈ text, isWhiteSpace c = false) :
    trimText text = text := Trim.trimBy_of_none h

theorem isWhiteSpace_of_isAddressChar {c : Char} (h : isAddressChar c = true) :
    isWhiteSpace c = false := by
  have hrange : 46 ≤ c.toNat ∧ c.toNat ≤ 102 := by
    simp only [isAddressChar, Bool.or_eq_true, Bool.and_eq_true, decide_eq_true_eq,
      beq_iff_eq] at h
    rcases h with (((⟨hlow, hhigh⟩ | ⟨hlow, hhigh⟩) | ⟨hlow, hhigh⟩) | rfl) | rfl
    · exact ⟨Nat.le_trans (by decide) hlow, Nat.le_trans hhigh (by decide)⟩
    · exact ⟨Nat.le_trans (by decide) hlow, Nat.le_trans hhigh (by decide)⟩
    · exact ⟨Nat.le_trans (by decide) hlow, Nat.le_trans hhigh (by decide)⟩
    · decide
    · decide
  simp [isWhiteSpace]
  omega

theorem trimText_showNormalized (net : IpNetwork) :
    trimText (showNormalized net) = showNormalized net := by
  refine trimText_of_all fun c hc => ?_
  have haddr : ∀ c ∈ showIpAddr (networkIp net), isWhiteSpace c = false := fun c hc =>
    isWhiteSpace_of_isAddressChar (List.all_eq_true.mp (all_showIpAddr _) c hc)
  rw [showNormalized] at hc
  split at hc
  · exact haddr c hc
  · rcases List.mem_append.mp hc with hc | hc
    · exact haddr c hc
    · rcases List.mem_cons.mp hc with rfl | hc
      · decide
      · exact isWhiteSpace_of_isAddressChar (List.all_eq_true.mp (all_showDec _) c hc)

theorem hostNetwork_networkIp {net : IpNetwork}
    (h : networkPrefix net = maxPrefixlen (networkIp net)) : hostNetwork (networkIp net) = net := by
  cases net with
  | v4 ip len => exact congrArg (IpNetwork.v4 ip) (Fin.ext h.symm)
  | v6 ip len => exact congrArg (IpNetwork.v6 ip) (Fin.ext h.symm)

/-- **The normalized text reads as the network it came from.** -/
theorem denotes_showNormalized (net : IpNetwork) : denotes (showNormalized net) = some net := by
  have hparse : parseIpNetwork (showNormalized net) = some net := by
    rw [showNormalized]
    split
    case isTrue hfull => rw [parseIpNetwork_showIpAddr, hostNetwork_networkIp hfull]
    case isFalse => exact parseIpNetwork_show net
  rw [denotes, trimText_showNormalized, hparse, Option.some_or]

theorem showNormalized_injective {a b : IpNetwork} (h : showNormalized a = showNormalized b) :
    a = b := by
  have hdenotes := congrArg denotes h
  rw [denotes_showNormalized, denotes_showNormalized] at hdenotes
  exact Option.some.inj hdenotes

/-- **Normalizing twice is normalizing once.** -/
theorem normalizeIpOrCidr_idem {input text : List Char} (h : normalizeIpOrCidr input = some text) :
    normalizeIpOrCidr text = some text := by
  rw [normalizeIpOrCidr_eq] at h
  obtain ⟨net, -, rfl⟩ := Option.map_eq_some_iff.mp h
  rw [normalizeIpOrCidr_eq, denotes_showNormalized, Option.map_some]

/-! ### Vault keys -/

/-- The network with its host bits cleared. -/
def masked : IpNetwork → IpNetwork
  | .v4 ip len => .v4 (mask len ip) len
  | .v6 ip len => .v6 (mask len ip) len

/-- What a vault stores an address under. -/
def vaultKey (input : List Char) : Option IpNetwork := (denotes input).map masked

/-- A text `normalize_ip_or_cidr` accepts, with the network it denotes. -/
structure Address where
  text : List Char
  net : IpNetwork
  reads : denotes text = some net

/-- The normalized text of an address. -/
def Address.normalized (a : Address) : List Char := showNormalized a.net

theorem Address.normalize_text (a : Address) : normalizeIpOrCidr a.text = some a.normalized := by
  rw [normalizeIpOrCidr_eq, a.reads]
  rfl

/-- One network, written with different host bits. -/
def HostBitsDiffer (a b : IpNetwork) : Prop := masked a = masked b ∧ a ≠ b

/-- The normalized texts are equal exactly when the networks are, host bits included. -/
theorem normalize_eq_iff (a b : Address) :
    normalizeIpOrCidr a.text = normalizeIpOrCidr b.text ↔ a.net = b.net := by
  rw [a.normalize_text, b.normalize_text, Option.some.injEq]
  exact ⟨showNormalized_injective, fun h => congrArg showNormalized h⟩

theorem vaultKey_eq_iff (a b : Address) :
    vaultKey a.text = vaultKey b.text ↔ masked a.net = masked b.net := by
  rw [vaultKey, vaultKey, a.reads, b.reads, Option.map_some, Option.map_some, Option.some.injEq]

/-- **Where the normalized text is the vault key.** -/
theorem normalize_agrees_iff (a b : Address) :
    ((normalizeIpOrCidr a.text = normalizeIpOrCidr b.text ↔ vaultKey a.text = vaultKey b.text) ↔
      ¬ HostBitsDiffer a.net b.net) := by
  rw [normalize_eq_iff, vaultKey_eq_iff, HostBitsDiffer]
  have hmask : a.net = b.net → masked a.net = masked b.net := congrArg masked
  tauto

end SimplyIpSync.Parsers
