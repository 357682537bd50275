import Mathlib.Data.List.TakeWhile
import SimplyIpSync.Net.Display

/-!
# Networks and their texts

`FromStr` and `Display` of the `ipnetwork` crate's `IpNetwork`.  The address stands alone or before
a slash; behind the slash stands a prefix length, read by `u8::from_str`, or for IPv4 a netmask.
`Display` writes the address as it was given, host bits included.
-/

namespace SimplyIpSync.Net

open SimplyIpSync.Crypto SimplyIpSync.Text SimplyIpSync.Bogon

/-! ### Reading -/

/-- `str::parse::<Ipv4Addr>`. -/
def parseIpv4Addr (text : List Char) : Option (BitVec 32) :=
  (readIpv4Addr (utf8 text)).bind fun out => if out.2 = [] then some out.1 else none

/-- `str::parse::<Ipv6Addr>`. -/
def parseIpv6Addr (text : List Char) : Option (BitVec 128) :=
  (readIpv6Addr (utf8 text)).bind fun out => if out.2 = [] then some out.1 else none

def notSlash (c : Char) : Bool := c != '/'

/-- `cidr_parts`: the address, and what stands behind the only slash. -/
def cidrParts (cidr : List Char) : Option (List Char × Option (List Char)) :=
  match cidr.dropWhile notSlash with
  | [] => some (cidr, none)
  | _ :: suffix => if '/' ∈ suffix then none else some (cidr.takeWhile notSlash, some suffix)

/-- `char::to_digit(10)`. -/
def decDigit (c : Char) : Option ℕ := if '0' ≤ c ∧ c ≤ '9' then some (c.toNat - 48) else none

/-- The digits of a number: a plus sign may stand before them. -/
def unsignedDigits : List Char → List Char
  | '+' :: digits => digits
  | digits => digits

/-- `str::parse::<u8>`: leading zeros are allowed. -/
def parseU8 (text : List Char) : Option ℕ :=
  if unsignedDigits text = [] then none
  else (((unsignedDigits text).mapM decDigit).map (ofDigits 10)).filter (· < 256)

/-- `parse_prefix`. -/
def parsePrefix (text : List Char) (max : ℕ) : Option ℕ := (parseU8 text).filter (· ≤ max)

/-- `ipv4_mask_to_prefix`: the ones in front, with nothing but zeros behind them. -/
def ipv4MaskToPrefix (mask : BitVec 32) : Option ℕ :=
  let len := (~~~mask).clz.toNat
  if (mask.toNat * 2 ^ len) % 2 ^ 32 = 0 then some len else none

/-- The prefix length of an IPv4 network, from what stands behind the slash. -/
def ipv4Prefix : Option (List Char) → Option ℕ
  | none => some 32
  | some text =>
      match parseIpv4Addr text with
      | some netmask => ipv4MaskToPrefix netmask
      | none => parsePrefix text 32

/-- The prefix length of an IPv6 network. -/
def ipv6Prefix : Option (List Char) → Option ℕ
  | none => some 128
  | some text => parsePrefix text 128

/-- `Ipv4Network::from_str`. -/
def parseIpv4Network (text : List Char) : Option IpNetwork := do
  let (addr, suffix) ← cidrParts text
  let bits ← parseIpv4Addr addr
  let len ← ipv4Prefix suffix
  if h : len < 33 then some (.v4 bits ⟨len, h⟩) else none

/-- `Ipv6Network::from_str`. -/
def parseIpv6Network (text : List Char) : Option IpNetwork := do
  let (addr, suffix) ← cidrParts text
  let bits ← parseIpv6Addr addr
  let len ← ipv6Prefix suffix
  if h : len < 129 then some (.v6 bits ⟨len, h⟩) else none

/-- `str::parse::<IpNetwork>`. -/
def parseIpNetwork (text : List Char) : Option IpNetwork :=
  (parseIpv4Network text).or (parseIpv6Network text)

/-! ### Printing -/

/-- `IpNetwork::ip`. -/
def networkIp : IpNetwork → IpAddr
  | .v4 ip _ => .v4 ip
  | .v6 ip _ => .v6 ip

/-- `IpNetwork::prefix`. -/
def networkPrefix : IpNetwork → ℕ
  | .v4 _ len => len
  | .v6 _ len => len

/-- `Display` of `IpNetwork`. -/
def showIpNetwork (net : IpNetwork) : List Char :=
  showIpAddr (networkIp net) ++ '/' :: showDec (networkPrefix net)

/-- The network of one address. -/
def hostNetwork : IpAddr → IpNetwork
  | .v4 bits => .v4 bits 32
  | .v6 bits => .v6 bits 128

/-- Host bits, a netmask, a prefix with a sign and zeros, and texts that are refused. -/
example : parseIpNetwork "10.1.2.3/8".toList = some (.v4 0x0A010203 8) ∧
    parseIpNetwork "10.1.2.3/255.255.240.0".toList = some (.v4 0x0A010203 20) ∧
    parseIpNetwork "::1/+0064".toList = some (.v6 1 64) ∧
    parseIpNetwork "10.1.2.3/33".toList = none ∧ parseIpNetwork "::1/255.0.0.0".toList = none ∧
    parseIpNetwork "10.1.2.3/8/8".toList = none ∧
    parseIpNetwork "10.1.2.3/255.0.255.0".toList = none := by
  decide +kernel

/-! ### The parts of a network's text -/

theorem notSlash_of_notMem {text : List Char} (h : '/' ∉ text) :
    ∀ c ∈ text, notSlash c = true := fun _ hc => bne_iff_ne.mpr fun heq => h (heq ▸ hc)

theorem cidrParts_of_notMem {addr : List Char} (h : '/' ∉ addr) :
    cidrParts addr = some (addr, none) := by
  rw [cidrParts, List.dropWhile_eq_nil_iff.mpr (notSlash_of_notMem h)]

theorem cidrParts_slash {addr suffix : List Char} (haddr : '/' ∉ addr) (hsuffix : '/' ∉ suffix) :
    cidrParts (addr ++ '/' :: suffix) = some (addr, some suffix) := by
  have hall := notSlash_of_notMem haddr
  have hslash : ¬ notSlash '/' = true := by decide
  have hdrop : (addr ++ '/' :: suffix).dropWhile notSlash = '/' :: suffix := by
    rw [List.dropWhile_append_of_pos hall, List.dropWhile_cons_of_neg hslash]
  have htake : (addr ++ '/' :: suffix).takeWhile notSlash = addr := by
    rw [List.takeWhile_append_of_pos hall, List.takeWhile_cons_of_neg hslash, List.append_nil]
  rw [cidrParts, hdrop]
  simp only [if_neg hsuffix, htake]

/-- What stands behind the address, with its slash. -/
def slashed : Option (List Char) → List Char
  | none => []
  | some suffix => '/' :: suffix

theorem cidrParts_slashed {addr : List Char} {suffix : Option (List Char)} (haddr : '/' ∉ addr)
    (hsuffix : ∀ text ∈ suffix, '/' ∉ text) :
    cidrParts (addr ++ slashed suffix) = some (addr, suffix) := by
  cases suffix with
  | none => rw [slashed, List.append_nil, cidrParts_of_notMem haddr]
  | some suffix => exact cidrParts_slash haddr (hsuffix suffix rfl)

/-- What the parts say about the text. -/
theorem cidrParts_spec {cidr addr : List Char} {suffix : Option (List Char)}
    (h : cidrParts cidr = some (addr, suffix)) :
    '/' ∉ addr ∧ (∀ text ∈ suffix, '/' ∉ text) ∧ cidr = addr ++ slashed suffix := by
  have hnot : '/' ∉ cidr.takeWhile notSlash := fun hmem =>
    absurd (List.mem_takeWhile_imp hmem) (by decide)
  have hsplit := List.takeWhile_append_dropWhile (p := notSlash) (l := cidr)
  rw [cidrParts] at h
  cases hdrop : cidr.dropWhile notSlash with
  | nil =>
      rw [hdrop] at h hsplit
      obtain ⟨rfl, rfl⟩ := Prod.mk.inj (Option.some.inj h)
      rw [List.append_nil] at hsplit
      exact ⟨hsplit ▸ hnot, by simp, (List.append_nil cidr).symm⟩
  | cons c rest =>
      rw [hdrop] at h hsplit
      have hc : c = '/' := by
        have hhead := List.head?_dropWhile_not notSlash cidr
        rw [hdrop] at hhead
        simpa [notSlash] using hhead
      by_cases hslash : '/' ∈ rest
      · simp [hslash] at h
      · simp only [if_neg hslash] at h
        obtain ⟨haddr, rfl⟩ := Prod.mk.inj (Option.some.inj h)
        rw [← haddr]
        refine ⟨hnot, ?_, ?_⟩
        · intro text htext
          rwa [← Option.some.inj htext]
        · rw [slashed, ← hc, hsplit]

/-! ### Round trips -/

theorem slash_notMem {text : List Char} (h : text.all isAddressChar = true) : '/' ∉ text :=
  fun hmem => by
    have hslash := List.all_eq_true.mp h _ hmem
    exact absurd hslash (by decide)

theorem parseIpv4Addr_show (bits : BitVec 32) : parseIpv4Addr (showIpv4Addr bits) = some bits := by
  have hread := readIpv4Addr_show bits (noDigit_nil 10)
  rw [List.append_nil] at hread
  rw [parseIpv4Addr, hread, Option.bind_some, if_pos rfl]

theorem parseIpv6Addr_show (bits : BitVec 128) : parseIpv6Addr (showIpv6Addr bits) = some bits := by
  rw [parseIpv6Addr, readIpv6Addr_show, Option.bind_some, if_pos rfl]

/-- **A quad is read only as it is printed.** -/
theorem parseIpv4Addr_eq_some {text : List Char} {bits : BitVec 32} :
    parseIpv4Addr text = some bits ↔ text = showIpv4Addr bits := by
  constructor
  · intro h
    obtain ⟨⟨bits', rest⟩, hread, hrest⟩ := Option.bind_eq_some_iff.mp h
    obtain ⟨rfl, hbits⟩ := (Option.ite_none_right_eq_some).mp hrest
    obtain rfl := Option.some.inj hbits
    have htext := (readIpv4Addr_spec hread).1
    rw [List.append_nil] at htext
    exact utf8_injective htext
  · rintro rfl
    exact parseIpv4Addr_show bits

theorem parseIpv4Addr_showIpv6Addr (bits : BitVec 128) :
    parseIpv4Addr (showIpv6Addr bits) = none := by
  rw [parseIpv4Addr, readIpv4Addr_showIpv6Addr]
  rfl

theorem parseIpv4Addr_showDec (n : ℕ) : parseIpv4Addr (showDec n) = none := by
  have hdot : 46 ∉ utf8 (showDec n) := fun hmem => by
    obtain ⟨digits, hdigits, hshow⟩ := exists_isDigits (show 1 < 10 by decide) n
    rw [showDec, hshow] at hmem
    obtain ⟨v, hv⟩ := hexValue_of_mem_digitChars
      (fun d hd => Nat.lt_trans (hdigits.lt d hd) (by decide)) hmem
    cases (show hexValue 46 = none by decide).symm.trans hv
  rw [parseIpv4Addr, readIpv4Addr_eq_none hdot]
  rfl

theorem parseU8_showDec {n : ℕ} (h : n < 256) : parseU8 (showDec n) = some n := by
  have hall : ∀ n : Fin 256, parseU8 (showDec n) = some n.val := by decide +kernel
  exact hall ⟨n, h⟩

theorem parsePrefix_showDec {n max : ℕ} (hmax : max < 256) (h : n ≤ max) :
    parsePrefix (showDec n) max = some n := by
  rw [parsePrefix, parseU8_showDec (Nat.lt_of_le_of_lt h hmax)]
  exact Option.filter_some_pos (decide_eq_true h)

/-- A printed IPv4 address, with a prefix length that is read. -/
theorem parseIpNetwork_v4 (ip : BitVec 32) {suffix : Option (List Char)} {n : ℕ}
    (hsuffix : ∀ text ∈ suffix, '/' ∉ text) (hlen : ipv4Prefix suffix = some n) (hn : n < 33) :
    parseIpNetwork (showIpv4Addr ip ++ slashed suffix) = some (.v4 ip ⟨n, hn⟩) := by
  have hparts := cidrParts_slashed (slash_notMem (all_showIpv4Addr ip)) hsuffix
  have hv4 : parseIpv4Network (showIpv4Addr ip ++ slashed suffix) = some (.v4 ip ⟨n, hn⟩) := by
    simp only [parseIpv4Network, hparts, parseIpv4Addr_show, hlen, Option.bind_eq_bind,
      Option.bind_some, hn, dite_true]
  rw [parseIpNetwork, hv4, Option.some_or]

/-- An IPv6 address, with a prefix length that is read. -/
theorem parseIpNetwork_v6 {addr : List Char} {bits : BitVec 128} {suffix : Option (List Char)}
    {n : ℕ} (hslash : '/' ∉ addr) (hv4 : parseIpv4Addr addr = none)
    (haddr : parseIpv6Addr addr = some bits) (hsuffix : ∀ text ∈ suffix, '/' ∉ text)
    (hlen : ipv6Prefix suffix = some n) (hn : n < 129) :
    parseIpNetwork (addr ++ slashed suffix) = some (.v6 bits ⟨n, hn⟩) := by
  have hparts := cidrParts_slashed hslash hsuffix
  have hnone : parseIpv4Network (addr ++ slashed suffix) = none := by
    simp only [parseIpv4Network, hparts, hv4, Option.bind_eq_bind, Option.bind_some,
      Option.bind_none]
  have hv6 : parseIpv6Network (addr ++ slashed suffix) = some (.v6 bits ⟨n, hn⟩) := by
    simp only [parseIpv6Network, hparts, haddr, hlen, Option.bind_eq_bind, Option.bind_some, hn,
      dite_true]
  rw [parseIpNetwork, hnone, Option.none_or, hv6]

theorem notMem_showDec {n : ℕ} : ∀ text ∈ some (showDec n), '/' ∉ text := fun _ htext =>
  Option.some.inj htext ▸ slash_notMem (all_showDec n)

/-- **Reading a printed network gives it back.** -/
theorem parseIpNetwork_show (net : IpNetwork) : parseIpNetwork (showIpNetwork net) = some net := by
  cases net with
  | v4 ip len =>
      have hlen : ipv4Prefix (some (showDec len)) = some len.val := by
        rw [ipv4Prefix, parseIpv4Addr_showDec]
        exact parsePrefix_showDec (by decide) (Nat.le_of_lt_succ len.isLt)
      exact parseIpNetwork_v4 ip notMem_showDec hlen len.isLt
  | v6 ip len =>
      have hlen : ipv6Prefix (some (showDec len)) = some len.val :=
        parsePrefix_showDec (by decide) (Nat.le_of_lt_succ len.isLt)
      exact parseIpNetwork_v6 (slash_notMem (all_showIpAddr (.v6 ip)))
        (parseIpv4Addr_showIpv6Addr ip) (parseIpv6Addr_show ip) notMem_showDec hlen len.isLt

/-- A printed address is the network of that address. -/
theorem parseIpNetwork_showIpAddr (ip : IpAddr) :
    parseIpNetwork (showIpAddr ip) = some (hostNetwork ip) := by
  have hnone : ∀ text ∈ (none : Option (List Char)), '/' ∉ text := by simp
  have hslashed : showIpAddr ip ++ slashed none = showIpAddr ip := List.append_nil (showIpAddr ip)
  rw [← hslashed]
  cases ip with
  | v4 bits => exact parseIpNetwork_v4 bits hnone rfl (by decide)
  | v6 bits =>
      exact parseIpNetwork_v6 (slash_notMem (all_showIpAddr (.v6 bits)))
        (parseIpv4Addr_showIpv6Addr bits) (parseIpv6Addr_show bits) hnone rfl (by decide)

end SimplyIpSync.Net
