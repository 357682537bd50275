import SimplyIpSync.Net.Grammar
import SimplyIpSync.ProxyCache

/-!
# The list of trusted proxies (`parse_trusted_proxies` in `src/config.rs`)

A list of networks, addresses and host names, separated by commas.  An entry that is none of these
is an error, and all of them are reported.

The three spellings do not overlap: a host name is never an address (`parseIpNetwork_of_hostname`).
So a list that was read, printed entry by entry, is read as the same list.
-/

namespace SimplyIpSync.Proxies

open SimplyIpSync.Crypto SimplyIpSync.Text SimplyIpSync.Bogon SimplyIpSync.Net
open SimplyIpSync.ProxyCache

/-- `InvalidProxyEntry`. -/
structure InvalidProxyEntry where
  entry : String
  reason : String
  deriving DecidableEq, Repr

/-- `char::is_ascii_alphanumeric`. -/
def isAlphanumeric (c : Char) : Bool :=
  ('0' ≤ c && c ≤ '9') || ('a' ≤ c && c ≤ 'z') || ('A' ≤ c && c ≤ 'Z')

/-- A character of a malformed IPv4 literal. -/
def isDigitOrDot (c : Char) : Bool := ('0' ≤ c && c ≤ '9') || c == '.'

/-- A character of a DNS name. -/
def isNameChar (c : Char) : Bool := isAlphanumeric c || c == '-' || c == '.' || c == '_'

/-- `u8::is_ascii_alphanumeric`. -/
def isAlphanumericByte (b : UInt8) : Bool :=
  (48 ≤ b && b ≤ 57) || (97 ≤ b && b ≤ 122) || (65 ≤ b && b ≤ 90)

/-- The first and the last byte are letters or digits. -/
def edgesAreAlphanumeric (entry : List Char) : Bool :=
  match (utf8 entry).head?, (utf8 entry).getLast? with
  | some first, some last => isAlphanumericByte first && isAlphanumericByte last
  | _, _ => false

/-- `hostname_rejection`. -/
def hostnameRejection (entry : List Char) : Option String :=
  if entry = [] then some "empty"
  else if 253 < (utf8 entry).length then
    some "longer than the 253-character limit on a DNS name"
  else if '/' ∈ entry ∨ ':' ∈ entry then
    some ("contains '/' or ':', which appear only in CIDR and IPv6 syntax, so this is a " ++
      "malformed address rather than a hostname")
  else if !edgesAreAlphanumeric entry then
    some "a hostname must begin and end with a letter or a digit"
  else if entry.all isDigitOrDot then
    some "made only of digits and dots, so this is a malformed IPv4 literal"
  else if !entry.all isNameChar then
    some "contains characters that cannot appear in a DNS name"
  else none

/-- The entries of a value. -/
def entries (raw : List Char) : List (List Char) :=
  ((raw.splitOn ',').map trimText).filter fun entry => entry ≠ []

/-- What an entry is: a matcher, or an error. -/
def parseEntry (entry : List Char) : Except InvalidProxyEntry ProxyMatcher :=
  match parseIpNetwork entry with
  | some net => .ok (.network net)
  | none =>
      match parseIpAddr (utf8 entry) with
      | some addr => .ok (.network (hostNetwork addr))
      | none =>
          match hostnameRejection entry with
          | none => .ok (.hostname (String.ofList entry))
          | some reason => .error ⟨String.ofList entry, reason⟩

/-- The loop over the entries, with what it has collected. -/
def collect : List (List Char) → List ProxyMatcher → List InvalidProxyEntry →
    List ProxyMatcher × List InvalidProxyEntry
  | [], matchers, invalid => (matchers, invalid)
  | entry :: rest, matchers, invalid =>
      match parseEntry entry with
      | .ok m => collect rest (matchers ++ [m]) invalid
      | .error e => collect rest matchers (invalid ++ [e])

/-- `parse_trusted_proxies`. -/
def parseTrustedProxies (raw : List Char) : Except (List InvalidProxyEntry) (List ProxyMatcher) :=
  let out := collect (entries raw) [] []
  if out.2 = [] then .ok out.1 else .error out.2

/-- `TrustedProxies::from_env` on the value of the variable. -/
def fromEnv (raw : Option (List Char)) : Except (List InvalidProxyEntry) TrustedProxies :=
  match raw with
  | none => .ok ⟨[], [], 0, 0⟩
  | some raw =>
      if trimText raw = [] then .ok ⟨[], [], 0, 0⟩
      else (parseTrustedProxies raw).map TrustedProxies.new

/-- `Display` of `ProxyMatcher`. -/
def showMatcher : ProxyMatcher → List Char
  | .network net => showIpNetwork net
  | .hostname name => name.toList

/-! ### Characters -/

/-- A printing ASCII character other than the comma. -/
def IsPlain (c : Char) : Prop := 33 ≤ c.toNat ∧ c.toNat ≤ 126 ∧ c ≠ ','

theorem IsPlain.not_whiteSpace {c : Char} (h : IsPlain c) : isWhiteSpace c = false := by
  obtain ⟨hlow, hhigh, -⟩ := h
  simp only [isWhiteSpace, Bool.or_eq_false_iff, Bool.and_eq_false_iff, decide_eq_false_iff_not,
    beq_eq_false_iff_ne]
  omega

/-- The characters of a range. -/
theorem isPlain_of_range {c lo hi : Char} (hlo : ',' < lo) (hhi : hi.toNat ≤ 126)
    (h : (lo ≤ c && c ≤ hi) = true) : IsPlain c := by
  obtain ⟨hlow, hhigh⟩ := Bool.and_eq_true_iff.mp h
  have hlow : lo.toNat ≤ c.toNat := of_decide_eq_true hlow
  have hhigh : c.toNat ≤ hi.toNat := of_decide_eq_true hhigh
  have hlo : (',' : Char).toNat < lo.toNat := hlo
  have hcomma : (',' : Char).toNat = 44 := rfl
  refine ⟨by omega, by omega, ?_⟩
  rintro rfl
  omega

theorem isPlain_of_isAlphanumeric {c : Char} (h : isAlphanumeric c = true) : IsPlain c := by
  rw [isAlphanumeric, Bool.or_eq_true, Bool.or_eq_true] at h
  rcases h with (h | h) | h
  · exact isPlain_of_range (by decide) (by decide) h
  · exact isPlain_of_range (by decide) (by decide) h
  · exact isPlain_of_range (by decide) (by decide) h

theorem isPlain_of_isNameChar {c : Char} (h : isNameChar c = true) : IsPlain c := by
  simp only [isNameChar, Bool.or_eq_true, beq_iff_eq] at h
  rcases h with ((h | rfl) | rfl) | rfl
  · exact isPlain_of_isAlphanumeric h
  · exact ⟨by decide, by decide, by decide⟩
  · exact ⟨by decide, by decide, by decide⟩
  · exact ⟨by decide, by decide, by decide⟩

theorem isPlain_of_isAddressChar {c : Char} (h : isAddressChar c = true) : IsPlain c := by
  simp only [isAddressChar, Bool.or_eq_true, beq_iff_eq] at h
  rcases h with (((h | h) | h) | rfl) | rfl
  · exact isPlain_of_range (by decide) (by decide) h
  · exact isPlain_of_range (by decide) (by decide) h
  · exact isPlain_of_range (by decide) (by decide) h
  · exact ⟨by decide, by decide, by decide⟩
  · exact ⟨by decide, by decide, by decide⟩

/-! ### Host names -/

/-- A DNS name: at most 253 letters, digits, hyphens, dots and underscores, not only digits and
dots, with a letter or a digit at either end. -/
structure IsHostname (entry : List Char) : Prop where
  ne_nil : entry ≠ []
  short : entry.length ≤ 253
  chars : ∀ c ∈ entry, isNameChar c = true
  first : ∀ c ∈ entry.head?, isAlphanumeric c = true
  last : ∀ c ∈ entry.getLast?, isAlphanumeric c = true
  not_literal : ∃ c ∈ entry, isDigitOrDot c = false

theorem isAlphanumericByte_ofNat {c : Char} (h : c.toNat < 128) :
    isAlphanumericByte (UInt8.ofNat c.toNat) = isAlphanumeric c := by
  have hall : ∀ n : Fin 128, isAlphanumericByte (UInt8.ofNat n) =
      isAlphanumeric (Char.ofNat n) := by decide +kernel
  have hc := hall ⟨c.toNat, h⟩
  rwa [Char.ofNat_toNat] at hc

/-- For ASCII characters, the edges are the first and the last of them. -/
theorem edgesAreAlphanumeric_iff {entry : List Char} (h : ∀ c ∈ entry, c.toNat < 128)
    (hne : entry ≠ []) :
    edgesAreAlphanumeric entry = true ↔
      (∀ c ∈ entry.head?, isAlphanumeric c = true) ∧
        ∀ c ∈ entry.getLast?, isAlphanumeric c = true := by
  obtain ⟨first, hfirst⟩ := Option.isSome_iff_exists.mp (List.isSome_head?.mpr hne)
  have hlast := List.getLast?_eq_some_getLast hne
  generalize entry.getLast hne = last at hlast
  have hfirst128 := h first (List.mem_of_head? hfirst)
  have hlast128 := h last (List.mem_of_getLast? hlast)
  rw [edgesAreAlphanumeric, utf8_eq_map h, List.head?_map, List.getLast?_map, hfirst, hlast]
  simp only [Option.map_some, Option.mem_def, Option.some.injEq, forall_eq', Bool.and_eq_true,
    isAlphanumericByte_ofNat hfirst128, isAlphanumericByte_ofNat hlast128]

/-- **What is not rejected is a DNS name.** -/
theorem hostnameRejection_eq_none_iff {entry : List Char} :
    hostnameRejection entry = none ↔ IsHostname entry := by
  have hascii : (∀ c ∈ entry, isNameChar c = true) → ∀ c ∈ entry, c.toNat < 128 := by
    intro hchars c hc
    have hplain := (isPlain_of_isNameChar (hchars c hc)).2.1
    omega
  have hlength : (∀ c ∈ entry, isNameChar c = true) → (utf8 entry).length = entry.length := by
    intro hchars
    rw [utf8_eq_map (hascii hchars), List.length_map]
  rw [hostnameRejection]
  constructor
  · intro h
    split at h
    · cases h
    rename_i hne
    split at h
    · cases h
    rename_i hlong
    split at h
    · cases h
    split at h
    · cases h
    rename_i hedges
    split at h
    · cases h
    rename_i hliteral
    split at h
    · cases h
    rename_i hchars
    rw [Bool.not_eq_true', Bool.not_eq_false] at hedges hchars
    have hchars := List.all_eq_true.mp hchars
    obtain ⟨hfirst, hlast⟩ := (edgesAreAlphanumeric_iff (hascii hchars) hne).mp hedges
    rw [hlength hchars] at hlong
    refine ⟨hne, Nat.not_lt.mp hlong, hchars, hfirst, hlast, ?_⟩
    rw [List.all_eq_true] at hliteral
    push Not at hliteral
    simpa using hliteral
  · intro h
    have hslash : ¬('/' ∈ entry ∨ ':' ∈ entry) := by
      rintro (hmem | hmem)
      · exact absurd (h.chars _ hmem) (by decide)
      · exact absurd (h.chars _ hmem) (by decide)
    have hedges : edgesAreAlphanumeric entry = true :=
      (edgesAreAlphanumeric_iff (hascii h.chars) h.ne_nil).mpr ⟨h.first, h.last⟩
    have hliteral : ¬entry.all isDigitOrDot = true := by
      obtain ⟨c, hc, hno⟩ := h.not_literal
      intro hall
      rw [List.all_eq_true.mp hall c hc] at hno
      cases hno
    rw [if_neg h.ne_nil, if_neg (by rw [hlength h.chars]; exact Nat.not_lt.mpr h.short),
      if_neg hslash, hedges, Bool.not_true, if_neg Bool.false_ne_true, if_neg hliteral,
      List.all_eq_true.mpr h.chars, Bool.not_true, if_neg Bool.false_ne_true]

theorem isDigitOrDot_of_mem_showIpv4Addr {bits : BitVec 32} {c : Char}
    (h : c ∈ showIpv4Addr bits) : isDigitOrDot c = true := by
  have hdec : ∀ n, ∀ d ∈ showDec n, isDigitOrDot d = true := by
    intro n d hd
    have hdigit : d.isDigit = true := Nat.isDigit_of_mem_toDigits (by decide) le_rfl hd
    rw [Char.isDigit, Bool.and_eq_true, decide_eq_true_eq, decide_eq_true_eq] at hdigit
    show (decide ('0' ≤ d) && decide (d ≤ '9') || d == '.') = true
    rw [decide_eq_true (show '0' ≤ d from hdigit.1), decide_eq_true (show d ≤ '9' from hdigit.2)]
    rfl
  simp only [showIpv4Addr, List.mem_append, List.mem_cons] at h
  rcases h with h | rfl | h | rfl | h | rfl | h
  · exact hdec _ c h
  · rfl
  · exact hdec _ c h
  · rfl
  · exact hdec _ c h
  · rfl
  · exact hdec _ c h

/-- **A host name is never an address or a network.** -/
theorem parseIpNetwork_of_hostname {entry : List Char} (h : IsHostname entry) :
    parseIpNetwork entry = none := by
  rw [Option.eq_none_iff_forall_ne_some]
  intro net hnet
  cases spelled_of_parseIpNetwork hnet with
  | v4 ip len suffix _ _ =>
      cases suffix with
      | none =>
          obtain ⟨c, hc, hno⟩ := h.not_literal
          rw [slashed, List.append_nil] at hc
          rw [isDigitOrDot_of_mem_showIpv4Addr hc] at hno
          cases hno
      | some text =>
          exact absurd (h.chars '/' (List.mem_append_right _ List.mem_cons_self)) (by decide)
  | v6 addr bits len suffix _ haddr _ =>
      obtain ⟨front, -, hcolon, hsplit⟩ := parseIpv6Addr_spec haddr
      have hmem : ':' ∈ addr := by
        rcases hsplit with rfl | ⟨quad, rfl⟩
        · exact hcolon
        · exact List.mem_append_left _ hcolon
      exact absurd (h.chars ':' (List.mem_append_left _ hmem)) (by decide)

/-! ### What an entry denotes -/

/-- A network or an address, or a host name. -/
inductive Denotes (entry : List Char) : ProxyMatcher → Prop
  | network {net : IpNetwork} : parseIpNetwork entry = some net → Denotes entry (.network net)
  | hostname : IsHostname entry → Denotes entry (.hostname (String.ofList entry))

/-- The address that is no network is a case that does not arise. -/
theorem parseEntry_of_none {entry : List Char} (h : parseIpNetwork entry = none) :
    parseEntry entry =
      match hostnameRejection entry with
      | none => .ok (.hostname (String.ofList entry))
      | some reason => .error ⟨String.ofList entry, reason⟩ := by
  have haddr : parseIpAddr (utf8 entry) = none := by
    cases haddr : parseIpAddr (utf8 entry) with
    | none => rfl
    | some ip =>
        rw [parseIpNetwork_of_parseIpAddr haddr] at h
        cases h
  simp only [parseEntry, h, haddr]

theorem parseEntry_of_some {entry : List Char} {net : IpNetwork}
    (h : parseIpNetwork entry = some net) : parseEntry entry = .ok (.network net) := by
  simp only [parseEntry, h]

theorem parseEntry_eq_ok_iff {entry : List Char} {m : ProxyMatcher} :
    parseEntry entry = .ok m ↔ Denotes entry m := by
  constructor
  · intro h
    cases hnet : parseIpNetwork entry with
    | some net =>
        rw [parseEntry_of_some hnet] at h
        obtain rfl := Except.ok.inj h
        exact .network hnet
    | none =>
        rw [parseEntry_of_none hnet] at h
        cases hreason : hostnameRejection entry with
        | some reason =>
            rw [hreason] at h
            cases h
        | none =>
            rw [hreason] at h
            obtain rfl := Except.ok.inj h
            exact .hostname (hostnameRejection_eq_none_iff.mp hreason)
  · intro h
    cases h with
    | network hnet => exact parseEntry_of_some hnet
    | hostname hname =>
        rw [parseEntry_of_none (parseIpNetwork_of_hostname hname),
          hostnameRejection_eq_none_iff.mpr hname]

/-- An entry that denotes nothing, with the reason given for it. -/
structure Refused (entry : List Char) (e : InvalidProxyEntry) : Prop where
  denotes_none : ∀ m, ¬Denotes entry m
  entry_eq : e.entry = String.ofList entry
  reason_eq : hostnameRejection entry = some e.reason

theorem parseEntry_eq_error_iff {entry : List Char} {e : InvalidProxyEntry} :
    parseEntry entry = .error e ↔ Refused entry e := by
  constructor
  · intro h
    have hno : ∀ m, ¬Denotes entry m := by
      intro m hm
      rw [parseEntry_eq_ok_iff.mpr hm] at h
      cases h
    cases hnet : parseIpNetwork entry with
    | some net => exact absurd (.network hnet) (hno (.network net))
    | none =>
        rw [parseEntry_of_none hnet] at h
        cases hreason : hostnameRejection entry with
        | none =>
            rw [hreason] at h
            cases h
        | some reason =>
            rw [hreason] at h
            obtain rfl := Except.error.inj h
            exact ⟨hno, rfl, hreason⟩
  · intro h
    cases hnet : parseIpNetwork entry with
    | some net => exact absurd (.network hnet) (h.denotes_none (.network net))
    | none =>
        rw [parseEntry_of_none hnet, h.reason_eq, ← h.entry_eq]

/-! ### The list -/

/-- The entries of a list, each either read or refused. -/
inductive Sorted : List (List Char) → List ProxyMatcher → List InvalidProxyEntry → Prop
  | nil : Sorted [] [] []
  | read {entry : List Char} {m : ProxyMatcher} {items matchers invalid} :
      Denotes entry m → Sorted items matchers invalid →
        Sorted (entry :: items) (m :: matchers) invalid
  | refused {entry : List Char} {e : InvalidProxyEntry} {items matchers invalid} :
      Refused entry e → Sorted items matchers invalid →
        Sorted (entry :: items) matchers (e :: invalid)

theorem collect_cons_ok {entry : List Char} {m : ProxyMatcher} (h : parseEntry entry = .ok m)
    (rest : List (List Char)) (matchers : List ProxyMatcher) (invalid : List InvalidProxyEntry) :
    collect (entry :: rest) matchers invalid = collect rest (matchers ++ [m]) invalid := by
  rw [collect, h]

theorem collect_cons_error {entry : List Char} {e : InvalidProxyEntry}
    (h : parseEntry entry = .error e) (rest : List (List Char)) (matchers : List ProxyMatcher)
    (invalid : List InvalidProxyEntry) :
    collect (entry :: rest) matchers invalid = collect rest matchers (invalid ++ [e]) := by
  rw [collect, h]

/-- The loop appends what it sorts to what it has. -/
theorem collect_of_sorted {items : List (List Char)} {ms : List ProxyMatcher}
    {bad : List InvalidProxyEntry} (h : Sorted items ms bad) (matchers : List ProxyMatcher)
    (invalid : List InvalidProxyEntry) :
    collect items matchers invalid = (matchers ++ ms, invalid ++ bad) := by
  induction h generalizing matchers invalid with
  | nil => rw [collect, List.append_nil, List.append_nil]
  | read hm _ ih =>
      rw [collect_cons_ok (parseEntry_eq_ok_iff.mpr hm), ih, List.append_assoc,
        List.singleton_append]
  | refused he _ ih =>
      rw [collect_cons_error (parseEntry_eq_error_iff.mpr he), ih, List.append_assoc,
        List.singleton_append]

theorem exists_sorted (items : List (List Char)) : ∃ ms bad, Sorted items ms bad := by
  induction items with
  | nil => exact ⟨[], [], .nil⟩
  | cons entry items ih =>
      obtain ⟨ms, bad, hsorted⟩ := ih
      cases hparse : parseEntry entry with
      | ok m => exact ⟨m :: ms, bad, .read (parseEntry_eq_ok_iff.mp hparse) hsorted⟩
      | error e => exact ⟨ms, e :: bad, .refused (parseEntry_eq_error_iff.mp hparse) hsorted⟩

/-- So there is one way to sort a list, the one of the loop. -/
theorem sorted_iff_collect {items : List (List Char)} {ms : List ProxyMatcher}
    {bad : List InvalidProxyEntry} : Sorted items ms bad ↔ collect items [] [] = (ms, bad) := by
  constructor
  · exact fun h => collect_of_sorted h [] []
  · intro h
    obtain ⟨ms', bad', hsorted⟩ := exists_sorted items
    rw [collect_of_sorted hsorted [] []] at h
    obtain ⟨rfl, rfl⟩ := Prod.mk.inj h
    exact hsorted

theorem sorted_nil_iff {items : List (List Char)} {ms : List ProxyMatcher} :
    Sorted items ms [] ↔ List.Forall₂ Denotes items ms := by
  constructor
  · generalize hbad : ([] : List InvalidProxyEntry) = bad
    intro h
    induction h with
    | nil => exact .nil
    | read hm _ ih => exact .cons hm (ih hbad)
    | refused _ _ _ => cases hbad
  · intro h
    induction h with
    | nil => exact .nil
    | cons hm _ ih => exact .read hm ih

theorem parseTrustedProxies_eq_ok_iff {raw : List Char} {ms : List ProxyMatcher} :
    parseTrustedProxies raw = .ok ms ↔ List.Forall₂ Denotes (entries raw) ms := by
  rw [← sorted_nil_iff, sorted_iff_collect, parseTrustedProxies]
  cases hout : collect (entries raw) [] [] with
  | mk matchers invalid =>
      by_cases hinvalid : invalid = []
      · simp only [hinvalid, if_true, Except.ok.injEq, Prod.mk.injEq, and_true]
      · simp only [hinvalid, if_false, reduceCtorEq, Prod.mk.injEq, and_false]

theorem parseTrustedProxies_eq_error_iff {raw : List Char} {bad : List InvalidProxyEntry} :
    parseTrustedProxies raw = .error bad ↔ bad ≠ [] ∧ ∃ ms, Sorted (entries raw) ms bad := by
  have hsorted : (∃ ms, Sorted (entries raw) ms bad) ↔ (collect (entries raw) [] []).2 = bad := by
    constructor
    · rintro ⟨ms, h⟩
      rw [sorted_iff_collect.mp h]
    · intro h
      exact ⟨(collect (entries raw) [] []).1, sorted_iff_collect.mpr (Prod.ext rfl h)⟩
  rw [hsorted, parseTrustedProxies]
  cases hout : collect (entries raw) [] [] with
  | mk matchers invalid =>
      by_cases hinvalid : invalid = []
      · simp only [hinvalid, if_true, reduceCtorEq, false_iff, not_and]
        intro hne heq
        exact hne heq.symm
      · simp only [hinvalid, if_false, Except.error.injEq]
        constructor
        · rintro rfl
          exact ⟨hinvalid, rfl⟩
        · exact fun h => h.2

/-! ### Printing and reading back -/

theorem isPlain_of_mem_showMatcher {entry : List Char} {m : ProxyMatcher} (h : Denotes entry m) :
    ∀ c ∈ showMatcher m, IsPlain c := by
  intro c hc
  cases h with
  | @network net _ =>
      rw [showMatcher, showIpNetwork] at hc
      rcases List.mem_append.mp hc with hc | hc
      · exact isPlain_of_isAddressChar (List.all_eq_true.mp (all_showIpAddr _) c hc)
      · rcases List.mem_cons.mp hc with rfl | hc
        · exact ⟨by decide, by decide, by decide⟩
        · exact isPlain_of_isAddressChar (List.all_eq_true.mp (all_showDec _) c hc)
  | hostname hname =>
      rw [showMatcher, String.toList_ofList] at hc
      exact isPlain_of_isNameChar (hname.chars c hc)

theorem showMatcher_ne_nil {entry : List Char} {m : ProxyMatcher} (h : Denotes entry m) :
    showMatcher m ≠ [] := by
  cases h with
  | network _ => exact List.append_ne_nil_of_right_ne_nil _ (List.cons_ne_nil _ _)
  | hostname hname =>
      rw [showMatcher, String.toList_ofList]
      exact hname.ne_nil

theorem denotes_showMatcher {entry : List Char} {m : ProxyMatcher} (h : Denotes entry m) :
    Denotes (showMatcher m) m := by
  cases h with
  | @network net _ => exact .network (parseIpNetwork_show net)
  | hostname hname =>
      rw [showMatcher, String.toList_ofList]
      exact .hostname hname

/-- Entries of plain characters, joined by commas, are the entries of the value. -/
theorem entries_intercalate {items : List (List Char)}
    (hplain : ∀ item ∈ items, ∀ c ∈ item, IsPlain c) (hne : ∀ item ∈ items, item ≠ []) :
    entries ([','].intercalate items) = items := by
  rcases eq_or_ne items [] with rfl | hitems
  · decide
  · have hcomma : ∀ item ∈ items, ',' ∉ item := fun item hitem hmem =>
      (hplain item hitem ',' hmem).2.2 rfl
    have htrim : items.map trimText = items := by
      rw [List.map_congr_left (g := id), List.map_id]
      intro item hitem
      exact Trim.trimBy_of_none fun c hc => (hplain item hitem c hc).not_whiteSpace
    rw [entries, List.splitOn_intercalate _ hcomma hitems, htrim, List.filter_eq_self]
    intro item hitem
    exact decide_eq_true (hne item hitem)

theorem denotes_showMatcher_of_mem {items : List (List Char)} {ms : List ProxyMatcher}
    (h : List.Forall₂ Denotes items ms) : ∀ m ∈ ms, Denotes (showMatcher m) m := by
  induction h with
  | nil => exact fun _ hm => absurd hm List.not_mem_nil
  | cons hentry _ ih =>
      intro m hm
      rcases List.mem_cons.mp hm with rfl | hm
      · exact denotes_showMatcher hentry
      · exact ih m hm

theorem parseTrustedProxies_show {raw : List Char} {ms : List ProxyMatcher}
    (h : parseTrustedProxies raw = .ok ms) :
    parseTrustedProxies ([','].intercalate (ms.map showMatcher)) = .ok ms := by
  have hdenotes := denotes_showMatcher_of_mem (parseTrustedProxies_eq_ok_iff.mp h)
  have hentries : entries ([','].intercalate (ms.map showMatcher)) = ms.map showMatcher := by
    refine entries_intercalate ?_ ?_
    · intro item hitem
      obtain ⟨m, hm, rfl⟩ := List.mem_map.mp hitem
      exact isPlain_of_mem_showMatcher (hdenotes m hm)
    · intro item hitem
      obtain ⟨m, hm, rfl⟩ := List.mem_map.mp hitem
      exact showMatcher_ne_nil (hdenotes m hm)
  rw [parseTrustedProxies_eq_ok_iff, hentries, List.forall₂_map_left_iff, List.forall₂_same]
  exact hdenotes

/-! ### The configuration -/

/-- The parts of a value have no character that the value does not have. -/
theorem mem_of_mem_splitOn {raw item : List Char} (h : item ∈ raw.splitOn ',') {c : Char}
    (hc : c ∈ item) : c ∈ raw := by
  have hpart : ∀ (items : List (List Char)), item ∈ items → c ∈ [','].intercalate items := by
    intro items hmem
    induction items with
    | nil => exact absurd hmem List.not_mem_nil
    | cons head tail ih =>
        rcases List.mem_cons.mp hmem with rfl | hmem
        · cases tail with
          | nil => simpa using hc
          | cons next tail => exact List.intercalate_cons_cons ▸ by simp [hc]
        · cases tail with
          | nil => exact absurd hmem List.not_mem_nil
          | cons next tail => exact List.intercalate_cons_cons ▸ by simp [ih hmem]
  have hjoin : [','].intercalate (raw.splitOn ',') = raw := List.intercalate_splitOn ','
  rw [← hjoin]
  exact hpart _ h

/-- A blank value has no entries. -/
theorem entries_of_blank {raw : List Char} (h : trimText raw = []) : entries raw = [] := by
  have hblank := Trim.blank_of_trimBy_eq_nil h
  rw [entries, List.filter_eq_nil_iff]
  intro item hitem
  obtain ⟨part, hpart, rfl⟩ := List.mem_map.mp hitem
  have htrim : trimText part = [] :=
    Trim.trimBy_of_blank fun c hc => hblank c (mem_of_mem_splitOn hpart hc)
  simp [htrim]

/-- **The configured proxies are exactly the entries of the value.**  The value is read if and only
if every entry is a network, an address or a host name, and gives the matchers of its entries, in
their order; the service refuses to start if and only if an entry is none of these, and then reports
all of them; and what was read, printed, is read as the same matchers. -/
theorem trusted_proxies_exact (raw : List Char) :
    (∀ ms, parseTrustedProxies raw = .ok ms ↔ List.Forall₂ Denotes (entries raw) ms) ∧
      (∀ bad, fromEnv (some raw) = .error bad ↔
        bad ≠ [] ∧ ∃ ms, Sorted (entries raw) ms bad) ∧
      ∀ ms, parseTrustedProxies raw = .ok ms →
        parseTrustedProxies ([','].intercalate (ms.map showMatcher)) = .ok ms := by
  refine ⟨fun ms => parseTrustedProxies_eq_ok_iff, fun bad => ?_,
    fun ms => parseTrustedProxies_show⟩
  rw [← parseTrustedProxies_eq_error_iff, fromEnv]
  by_cases hblank : trimText raw = []
  · have hok : parseTrustedProxies raw = .ok [] := by
      rw [parseTrustedProxies_eq_ok_iff, entries_of_blank hblank]
      exact .nil
    simp only [if_pos hblank, hok, reduceCtorEq]
  · rw [if_neg hblank]
    cases parseTrustedProxies raw with
    | ok ms => simp only [Except.map, reduceCtorEq]
    | error bad' => simp only [Except.map, Except.error.injEq]

end SimplyIpSync.Proxies
