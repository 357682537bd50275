import SimplyIpSync.Net.Grammar
import SimplyIpSync.Parsers.RegexLine

/-!
# Which spellings the pattern recognises

One address on a line, as a feed lists it.  The pattern knows a prefix of at most two digits for
IPv4 and three for IPv6, no sign, no netmask and no dotted quad in an IPv6 address.  Where a
spelling the normalizer accepts needs more, the match stops short and is emitted as another network.
-/

namespace SimplyIpSync.Parsers.RegexLine

open SimplyIpSync.Crypto SimplyIpSync.Text SimplyIpSync.Net SimplyIpSync.Bogon
open SimplyIpSync.Regex

/-! ### The match at the front -/

/-- How much of what stands behind an address `prefixPattern n` takes. -/
def suffixLength (n : ℕ) (suffix : Option (List Char)) : ℕ :=
  match suffix with
  | none => 0
  | some text =>
      let k := min (text.takeWhile isDigit).length n
      if k = 0 then 0 else 1 + k

theorem first_digits (n : ℕ) (text : List Char) :
    first (digits n) text =
      if 1 ≤ min (text.takeWhile isDigit).length n then
        some (min (text.takeWhile isDigit).length n)
      else none :=
  first_rep isDigit 1 (some n) text

/-- A given character, and the rest of the pattern behind it. -/
theorem first_one_seq (c : Char) (b : Pattern Char) (text : List Char) :
    first (.seq (one c) b) (c :: text) = (first b text).map (1 + ·) := by
  have hends : ends (one c) (c :: text) = [1] := by
    have hc : isOne c c = true := beq_self_eq_true c
    have hrun : runLength (isOne c) (some 1) (c :: text) = 1 := by
      rw [runLength, List.takeWhile_cons_of_pos hc, Option.elim_some, List.length_cons]
      omega
    rw [one, ends, hrun]
    rfl
  rw [first_seq, hends, List.findSome?_singleton, List.drop_one, List.tail_cons]

theorem first_one_seq_none {c x : Char} (hx : x ≠ c) (b : Pattern Char) (text : List Char) :
    first (.seq (one c) b) (x :: text) = none := by
  have hcls : ¬ isOne c x = true := fun h => hx (beq_iff_eq.mp h)
  exact first_seq_rep_none Nat.one_pos hcls text

/-- The prefix length behind an address, as far as the pattern goes. -/
theorem first_prefixPattern (n : ℕ) (suffix : Option (List Char)) :
    first (prefixPattern n) (slashed suffix) = some (suffixLength n suffix) := by
  rw [prefixPattern, first_opt]
  cases suffix with
  | none => rfl
  | some text =>
      rw [slashed, first_one_seq, first_digits, suffixLength]
      generalize min (text.takeWhile isDigit).length n = k
      by_cases hk : k = 0
      · rw [if_pos hk, if_neg (by omega), Option.map_none, Option.getD_none]
      · rw [if_neg hk, if_pos (Nat.one_le_iff_ne_zero.mpr hk), Option.map_some, Option.getD_some]

/-- One number of a dotted quad with its dot. -/
theorem first_octet_dot {front : List Char} (hdigit : ∀ c ∈ front, isDigit c = true)
    (hlength : 1 ≤ front.length ∧ front.length ≤ 3) (b : Pattern Char) (text : List Char) :
    first (.seq (digits 3) (.seq (one '.') b)) (front ++ '.' :: text) =
      (first b text).map (front.length + 1 + ·) := by
  have hstop : ∀ c ∈ ('.' :: text).head?, ¬ isDigit c = true := fun c hc => by
    rw [← Option.some.inj hc]
    decide
  have hdot : ∀ c text, isDigit c = true → first (.seq (one '.') b) (c :: text) = none :=
    fun c text hc => first_one_seq_none (fun heq => absurd (heq ▸ hc) (by decide)) b text
  rw [digits, first_seq_rep hdigit hstop hdot, if_pos ⟨hlength.1, fun h hh =>
    Option.some.inj hh ▸ hlength.2⟩, first_one_seq, Option.map_map]
  congr 1
  funext k
  exact (Nat.add_assoc front.length 1 k).symm

/-- Where the first digits are not followed by a dot, there is no dotted quad. -/
theorem first_ipv4Pattern_none {front rest : List Char} {x : Char}
    (hdigit : ∀ c ∈ front, isDigit c = true) (hx : ¬ isDigit x = true) (hdot : x ≠ '.') :
    first ipv4Pattern (front ++ x :: rest) = none := by
  have hstop : ∀ c ∈ (x :: rest).head?, ¬ isDigit c = true := fun c hc => by
    rwa [← Option.some.inj hc]
  have hcut : ∀ (b : Pattern Char) c text, isDigit c = true →
      first (.seq (one '.') b) (c :: text) = none :=
    fun b c text hc => first_one_seq_none (fun heq => absurd (heq ▸ hc) (by decide)) b text
  rw [ipv4Pattern, digits, first_seq_rep hdigit hstop (hcut _), first_one_seq_none hdot,
    Option.map_none, ite_self]

theorem showDec_octet {n : ℕ} (h : n < 256) :
    (∀ c ∈ showDec n, isDigit c = true) ∧ 1 ≤ (showDec n).length ∧ (showDec n).length ≤ 3 := by
  have hall : ∀ n : Fin 256, (showDec n).all isDigit = true ∧ 1 ≤ (showDec n).length ∧
      (showDec n).length ≤ 3 := by decide +kernel
  obtain ⟨hdigit, hlength⟩ := hall ⟨n, h⟩
  exact ⟨List.all_eq_true.mp hdigit, hlength⟩

theorem slashed_head (suffix : Option (List Char)) :
    ∀ c ∈ (slashed suffix).head?, c = '/' := by
  cases suffix with
  | none => simp [slashed]
  | some text => simp [slashed]

/-- **A printed IPv4 address is matched**, with as much of its prefix as the pattern takes. -/
theorem first_ipv4Pattern (ip : BitVec 32) (suffix : Option (List Char)) :
    first ipv4Pattern (showIpv4Addr ip ++ slashed suffix) =
      some ((showIpv4Addr ip).length + suffixLength 2 suffix) := by
  obtain ⟨ha, hb, hc, hd⟩ := octets_lt ip
  obtain ⟨hda, hla⟩ := showDec_octet ha
  obtain ⟨hdb, hlb⟩ := showDec_octet hb
  obtain ⟨hdc, hlc⟩ := showDec_octet hc
  obtain ⟨hdd, hld⟩ := showDec_octet hd
  have hlast : first (.seq (digits 3) (prefixPattern 2))
      (showDec (octets ip).2.2.2 ++ slashed suffix) =
        some ((showDec (octets ip).2.2.2).length + suffixLength 2 suffix) := by
    have hstop : ∀ c ∈ (slashed suffix).head?, ¬ isDigit c = true := fun c hc => by
      rw [slashed_head suffix c hc]
      decide
    have hrun : first (digits 3) (showDec (octets ip).2.2.2 ++ slashed suffix) =
        some (showDec (octets ip).2.2.2).length := by
      rw [first_digits, takeWhile_run hdd hstop, min_eq_left hld.2, if_pos hld.1]
    refine first_seq_of_first hrun ?_
    rw [List.drop_left, first_prefixPattern]
  have hshow : showIpv4Addr ip = showDec (octets ip).1 ++ '.' :: (showDec (octets ip).2.1 ++
      '.' :: (showDec (octets ip).2.2.1 ++ '.' :: showDec (octets ip).2.2.2)) := rfl
  simp only [hshow, ipv4Pattern, List.append_assoc, List.cons_append, first_octet_dot hda hla,
    first_octet_dot hdb hlb, first_octet_dot hdc hlc, hlast, Option.map_some, List.length_append,
    List.length_cons]
  congr 1
  omega

/-- Hexadecimal digits and colons are matched, with as much of a prefix as the pattern takes. -/
theorem first_ipv6Pattern {front : List Char} (hfront : ∀ c ∈ front, isHexColon c = true)
    (hlength : 2 ≤ front.length) {rest : List Char} (hrest : ∀ c ∈ rest.head?, ¬ isHexColon c = true)
    {k : ℕ} (hk : first (prefixPattern 3) rest = some k) :
    first ipv6Pattern (front ++ rest) = some (front.length + k) := by
  have hrun : first (.rep isHexColon 2 none) (front ++ rest) = some front.length := by
    rw [first_rep_of_run hfront hrest]
    exact if_pos hlength
  exact first_seq_of_first hrun (by rw [List.drop_left, hk])

/-! ### What the scan emits -/

/-- The networks whose texts the scan of a line emits. -/
def networks (trimmed : List Char) : List IpNetwork :=
  (findIter ipTokenPattern trimmed).filterMap fun m => denotes m.text

theorem candidates_eq (trimmed : List Char) :
    candidates trimmed = (networks trimmed).map showNormalized := by
  rw [candidates, networks, List.map_filterMap]
  exact List.filterMap_congr fun m _ => normalizeIpOrCidr_eq m.text

theorem networks_of_first {text : List Char} {n : ℕ} (hn : 0 < n)
    (h : first ipTokenPattern text = some n) (hle : n ≤ text.length) :
    networks text = (denotes (text.take n)).toList ++ networks (text.drop n) := by
  have hshift : ∀ ms : List (Match Char),
      (ms.map (Match.shift n)).filterMap (fun m => denotes m.text) =
        ms.filterMap fun m => denotes m.text := fun ms => List.filterMap_map ..
  rw [networks, findIter_of_first hn h hle, List.filterMap_cons, hshift, networks]
  cases denotes (text.take n) with
  | none => rfl
  | some net => rfl

/-- A dot begins no match. -/
theorem networks_dot (text : List Char) : networks ('.' :: text) = networks text := by
  have hquad : first ipv4Pattern ('.' :: text) = none :=
    first_seq_rep_none Nat.one_pos (by decide) text
  have hhex : first ipv6Pattern ('.' :: text) = none :=
    first_seq_rep_none (by decide) (by decide) text
  have hnone : first ipTokenPattern ('.' :: text) = none := by
    rw [ipTokenPattern, first_alt, hquad, hhex, Option.none_or]
  rw [networks, findIter_of_first_none hnone, List.filterMap_map, networks]
  rfl

/-- The denoted network is the parsed one. -/
theorem denotes_eq (text : List Char) : denotes text = parseIpNetwork (trimText text) := by
  rw [denotes]
  cases hparse : parseIpNetwork (trimText text) with
  | some net => rfl
  | none =>
      rw [Option.none_or, Option.map_eq_none_iff, Option.eq_none_iff_forall_ne_some]
      intro ip hip
      rw [parseIpNetwork_of_parseIpAddr hip] at hparse
      cases hparse

theorem trimText_sublist (text : List Char) : List.Sublist (trimText text) text := by
  rw [trimText]
  have hback := ((List.dropWhile_sublist isWhiteSpace
    (l := (text.dropWhile isWhiteSpace).reverse)).reverse)
  rw [List.reverse_reverse] at hback
  exact hback.trans (List.dropWhile_sublist isWhiteSpace)

theorem count_dot_showIpv4Addr (ip : BitVec 32) : 3 ≤ (showIpv4Addr ip).count '.' := by
  have hshow : showIpv4Addr ip = showDec (octets ip).1 ++ '.' :: (showDec (octets ip).2.1 ++
      '.' :: (showDec (octets ip).2.2.1 ++ '.' :: showDec (octets ip).2.2.2)) := rfl
  simp only [hshow, List.count_append, List.count_cons_self]
  omega

theorem colon_mem_of_parseIpv6Addr {addr : List Char} {bits : BitVec 128}
    (h : parseIpv6Addr addr = some bits) : ':' ∈ addr := by
  obtain ⟨front, -, hcolon, hsplit⟩ := parseIpv6Addr_spec h
  rcases hsplit with rfl | ⟨quad, rfl⟩
  · exact hcolon
  · exact List.mem_append_left _ hcolon

/-- An accepted text has a colon or three dots. -/
theorem denotes_eq_none {text : List Char} (hcolon : ':' ∉ text) (hdots : text.count '.' ≤ 2) :
    denotes text = none := by
  rw [denotes_eq, Option.eq_none_iff_forall_ne_some]
  intro net hnet
  have hsub := trimText_sublist text
  have hcount := hsub.count_le '.'
  have hmem : ':' ∈ trimText text → ':' ∈ text := hsub.subset (a := ':')
  generalize trimText text = trimmed at hnet hcount hmem
  cases spelled_of_parseIpNetwork hnet with
  | v4 ip len suffix hslash hlen =>
      have hthree := count_dot_showIpv4Addr ip
      rw [List.count_append] at hcount
      omega
  | v6 addr bits len suffix hslash haddr hlen =>
      exact hcolon (hmem (List.mem_append_left _ (colon_mem_of_parseIpv6Addr haddr)))

theorem networks_eq_nil {text : List Char} (hcolon : ':' ∉ text) (hdots : text.count '.' ≤ 2) :
    networks text = [] := by
  rw [networks, List.filterMap_eq_nil_iff]
  intro m hm
  obtain ⟨-, -, front, back, rfl, -⟩ := findIter_spec (within_true ipTokenPattern) hm
  refine denotes_eq_none (fun hmem => hcolon ?_) (Nat.le_trans ?_ hdots)
  · exact List.mem_append_left _ (List.mem_append_right _ hmem)
  · rw [List.count_append, List.count_append]
    omega

/-! ### Prefix lengths -/

/-- The prefix length is what the pattern reads of it: it is short enough, or zero; one with a sign
is read as none. -/
def PrefixTaken (n max len : ℕ) : Option (List Char) → Prop
  | none => True
  | some text => if text.head? = some '+' then len = max else text.length ≤ n ∨ len = 0

theorem isDigit_digitChar {d : ℕ} (h : d < 10) : isDigit d.digitChar = true := by
  have hall : ∀ d : Fin 10, isDigit (Nat.digitChar d) = true := by decide
  exact hall ⟨d, h⟩

theorem isDigit_of_mem_digitChars {digits : List ℕ} (h : ∀ d ∈ digits, d < 10) :
    ∀ c ∈ digitChars digits, isDigit c = true := fun c hc => by
  obtain ⟨d, hd, rfl⟩ := List.mem_map.mp hc
  exact isDigit_digitChar (h d hd)

theorem takeWhile_digitChars {digits : List ℕ} (h : ∀ d ∈ digits, d < 10) :
    (digitChars digits).takeWhile isDigit = digitChars digits :=
  List.takeWhile_eq_self_iff.mpr (isDigit_of_mem_digitChars h)

theorem notMem_digitChars {digits : List ℕ} (h : ∀ d ∈ digits, d < 10) {c : Char}
    (hc : ¬ isDigit c = true) : c ∉ digitChars digits :=
  fun hmem => hc (isDigit_of_mem_digitChars h c hmem)

/-- What the pattern sees of a prefix length: a prefix of its own, its value, and what is left. -/
structure Seen (n max len : ℕ) (text : List Char) (suffix : Option (List Char)) (seen : ℕ)
    (rest : List Char) : Prop where
  take : (slashed (some text)).take (suffixLength n (some text)) = slashed suffix
  drop : (slashed (some text)).drop (suffixLength n (some text)) = rest
  digit : ∀ text ∈ suffix, ∀ c ∈ text, isDigit c = true
  read : suffix.elim (some max) (parsePrefix · max) = some seen
  le : seen ≤ max
  colon : ':' ∉ rest
  dots : rest.count '.' = 0
  exact : seen = len ↔ PrefixTaken n max len (some text)

/-- Of digits, the first `n` are taken for the prefix length. -/
theorem seen_digits {n max len : ℕ} (hn : 0 < n) (hmax : max < 256) {digits : List ℕ}
    (hdigits : Numeral digits len) (hle : len ≤ max) :
    Seen n max len (digitChars digits) (some (digitChars (digits.take n)))
      (ofDigits 10 (digits.take n)) (digitChars (digits.drop n)) := by
  obtain ⟨htake, hsame⟩ := ofDigits_take digits n
  rw [hdigits.value] at htake hsame
  have hlt : ∀ d ∈ digits.take n, d < 10 := fun d hd => hdigits.lt d (List.mem_of_mem_take hd)
  have hltDrop : ∀ d ∈ digits.drop n, d < 10 := fun d hd =>
    hdigits.lt d (List.mem_of_mem_drop hd)
  have hpos : 0 < digits.length := List.length_pos_iff.mpr hdigits.ne_nil
  have hlength : suffixLength n (some (digitChars digits)) = 1 + min digits.length n := by
    rw [suffixLength, takeWhile_digitChars hdigits.lt, digitChars, List.length_map]
    exact if_neg (by omega)
  have hhead : ¬ (digitChars digits).head? = some '+' := fun hplus =>
    notMem_digitChars hdigits.lt (show ¬ isDigit '+' = true by decide)
      (List.mem_of_head? hplus)
  have hnumeral : Numeral (digits.take n) (ofDigits 10 (digits.take n)) :=
    { ne_nil := fun hnil => by
        have hzero := congrArg List.length hnil
        rw [List.length_take, List.length_nil] at hzero
        omega
      lt := hlt
      value := rfl }
  refine
    { take := ?_
      drop := ?_
      digit := fun text htext => Option.some.inj htext ▸ isDigit_of_mem_digitChars hlt
      read := parsePrefix_digitChars hnumeral hmax (Nat.le_trans htake hle)
      le := Nat.le_trans htake hle
      colon := notMem_digitChars hltDrop (by decide)
      dots := List.count_eq_zero.mpr (notMem_digitChars hltDrop (by decide))
      exact := ?_ }
  · have hcut : digits.take (min digits.length n) = digits.take n :=
      List.take_eq_take_iff.mpr (by omega)
    rw [hlength, slashed, Nat.add_comm, List.take_succ_cons, slashed, digitChars, digitChars,
      ← List.map_take, hcut]
  · rw [hlength, slashed, Nat.add_comm, List.drop_succ_cons, digitChars, digitChars,
      ← List.map_drop]
    rcases Nat.le_total n digits.length with hle' | hle'
    · rw [Nat.min_eq_right hle']
    · rw [Nat.min_eq_left hle', List.drop_eq_nil_of_le le_rfl, List.drop_eq_nil_of_le hle']
  · rw [PrefixTaken, if_neg hhead, hsame, digitChars, List.length_map]

/-- A sign ends the match: the pattern sees no prefix length. -/
theorem seen_sign {n max len : ℕ} {digits : List ℕ} (hlt : ∀ d ∈ digits, d < 10) :
    Seen n max len ('+' :: digitChars digits) none max
      (slashed (some ('+' :: digitChars digits))) := by
  have hcolon := notMem_digitChars hlt (show ¬ isDigit ':' = true by decide)
  have hdot := notMem_digitChars hlt (show ¬ isDigit '.' = true by decide)
  have hlength : suffixLength n (some ('+' :: digitChars digits)) = 0 := by
    rw [suffixLength, List.takeWhile_cons_of_neg (by decide), List.length_nil, Nat.zero_min]
    rfl
  refine
    { take := by rw [hlength]; rfl
      drop := by rw [hlength, List.drop_zero]
      digit := by simp
      read := rfl
      le := le_rfl
      colon := by simp [slashed, hcolon]
      dots := by simp [slashed, List.count_eq_zero.mpr hdot]
      exact := ?_ }
  rw [PrefixTaken, List.head?_cons, if_pos rfl, eq_comm]

theorem exists_seen {n max len : ℕ} (hn : 0 < n) (hmax : max < 256) {text : List Char}
    (h : parsePrefix text max = some len) :
    ∃ suffix seen rest, Seen n max len text suffix seen rest := by
  obtain ⟨hle, digits, hdigits, hsplit⟩ := parsePrefix_spec h
  rcases hsplit with rfl | rfl
  · exact ⟨_, _, _, seen_digits hn hmax hdigits hle⟩
  · exact ⟨_, _, _, seen_sign hdigits.lt⟩

/-! ### One token -/

theorem parseIpv4Addr_eq_none {text : List Char} (h : '.' ∉ text) : parseIpv4Addr text = none := by
  rw [Option.eq_none_iff_forall_ne_some]
  intro bits hbits
  obtain rfl := parseIpv4Addr_eq_some.mp hbits
  have hcount := count_dot_showIpv4Addr bits
  rw [List.count_eq_zero.mpr h] at hcount
  omega

section

variable {n max len seen : ℕ} {text rest : List Char} {suffix : Option (List Char)}

theorem Seen.notMem (h : Seen n max len text suffix seen rest) {c : Char}
    (hc : ¬ isDigit c = true) : ∀ text ∈ suffix, c ∉ text :=
  fun text htext hmem => hc (h.digit text htext c hmem)

theorem Seen.ipv4Prefix (h : Seen n 32 len text suffix seen rest) :
    ipv4Prefix suffix = some seen := by
  have hread := h.read
  cases suffix with
  | none => exact hread
  | some text =>
      rw [Net.ipv4Prefix, parseIpv4Addr_eq_none (h.notMem (by decide) text rfl)]
      exact hread

theorem Seen.ipv6Prefix (h : Seen n 128 len text suffix seen rest) :
    ipv6Prefix suffix = some seen := by
  have hread := h.read
  cases suffix with
  | none => exact hread
  | some text => exact hread

end

theorem isAddressChar_of_isDigit {c : Char} (h : isDigit c = true) : isAddressChar c = true := by
  have hdigit : ('0' ≤ c && c ≤ '9') = true := h
  simp only [isAddressChar, hdigit, Bool.true_or]

/-- An address with digits behind its slash has no blanks to trim. -/
theorem denotes_slashed {addr : List Char} {suffix : Option (List Char)}
    (haddr : addr.all isAddressChar = true)
    (hsuffix : ∀ text ∈ suffix, ∀ c ∈ text, isDigit c = true) :
    denotes (addr ++ slashed suffix) = parseIpNetwork (addr ++ slashed suffix) := by
  rw [denotes_eq, trimText_of_all]
  intro c hc
  rcases List.mem_append.mp hc with hc | hc
  · exact isWhiteSpace_of_isAddressChar (List.all_eq_true.mp haddr c hc)
  · cases suffix with
    | none => cases hc
    | some text =>
        rcases List.mem_cons.mp hc with rfl | hc
        · decide
        · exact isWhiteSpace_of_isAddressChar (isAddressChar_of_isDigit (hsuffix text rfl c hc))

theorem suffixLength_le (n : ℕ) (suffix : Option (List Char)) :
    suffixLength n suffix ≤ (slashed suffix).length := by
  cases suffix with
  | none => exact Nat.zero_le _
  | some text =>
      have hle := (List.takeWhile_prefix isDigit (l := text)).length_le
      rw [suffixLength, slashed, List.length_cons]
      split
      · exact Nat.zero_le _
      · omega

/-- **The scan of an IPv4 token**: the address with the prefix the pattern takes, and what the scan
of the remainder gives. -/
theorem networks_ipv4 (ip : BitVec 32) (suffix : Option (List Char)) :
    networks (showIpv4Addr ip ++ slashed suffix) =
      (denotes (showIpv4Addr ip ++ (slashed suffix).take (suffixLength 2 suffix))).toList ++
        networks ((slashed suffix).drop (suffixLength 2 suffix)) := by
  have hfirst : first ipTokenPattern (showIpv4Addr ip ++ slashed suffix) =
      some ((showIpv4Addr ip).length + suffixLength 2 suffix) := by
    rw [ipTokenPattern, first_alt, first_ipv4Pattern, Option.some_or]
  have hdots : 0 < (showIpv4Addr ip).length :=
    Nat.lt_of_lt_of_le (Nat.lt_of_lt_of_le (by decide) (count_dot_showIpv4Addr ip))
      List.count_le_length
  rw [networks_of_first (Nat.add_pos_left hdots _) hfirst
    (by rw [List.length_append]; exact Nat.add_le_add_left (suffixLength_le 2 suffix) _),
    List.take_length_add_append, List.drop_length_add_append]

theorem networks_showIpv4Addr (ip : BitVec 32) : networks (showIpv4Addr ip) = [.v4 ip 32] := by
  have hnone : ∀ text ∈ (none : Option (List Char)), '/' ∉ text := by simp
  have hdigit : ∀ text ∈ (none : Option (List Char)), ∀ c ∈ text, isDigit c = true := by simp
  have hscan := networks_ipv4 ip none
  have hparse := parseIpNetwork_v4 ip hnone rfl (show 32 < 33 by decide)
  have hdenotes := denotes_slashed (all_showIpv4Addr ip) hdigit
  rw [slashed, List.append_nil] at hscan hparse hdenotes
  rw [hscan, List.take_nil, List.append_nil, hdenotes, hparse]
  rfl

/-- A netmask is all zeros, or begins with a one. -/
theorem netmask_cases {mask : BitVec 32} {len : ℕ} (h : ipv4MaskToPrefix mask = some len) :
    mask = 0 ∧ len = 0 ∨ 128 ≤ (octets mask).1 ∧ len ≠ 0 := by
  rw [ipv4MaskToPrefix] at h
  obtain ⟨hzeros, hlen⟩ := Option.ite_none_right_eq_some.mp h
  obtain rfl := Option.some.inj hlen
  have hlt := mask.isLt
  by_cases hclz : (~~~mask).clz.toNat = 0
  · rw [hclz, pow_zero, Nat.mul_one, Nat.mod_eq_of_lt hlt] at hzeros
    exact .inl ⟨BitVec.eq_of_toNat_eq hzeros, hclz⟩
  · have hhigh := (BitVec.clz_eq_zero_iff (x := ~~~mask) (by decide)).not.mp hclz
    rw [BitVec.toNat_not] at hhigh
    refine .inr ⟨?_, hclz⟩
    simp only [octets]
    omega

/-- An octet of three digits: two of them are a prefix length, and the third is an octet. -/
theorem showDec_three {n : ℕ} (hlow : 128 ≤ n) (hhigh : n < 256) :
    ∃ x y z k, showDec n = [x, y, z] ∧ isDigit x = true ∧ isDigit y = true ∧ k ≤ 32 ∧
      parsePrefix [x, y] 32 = some k ∧ ∃ d, d < 256 ∧ [z] = showDec d := by
  have hall : ∀ n : Fin 256, 128 ≤ n.val →
      showDec n = digitChars [n / 100, n / 10 % 10, n % 10] ∧
        parsePrefix (digitChars [n.val / 100, n / 10 % 10]) 32 = some (n / 10) ∧
          n.val / 10 ≤ 32 ∧ digitChars [n % 10] = showDec (n % 10) := by decide +kernel
  obtain ⟨hshow, hparse, hle, hlast⟩ := hall ⟨n, hhigh⟩ hlow
  have hdigits : ∀ c ∈ digitChars [n / 100, n / 10 % 10], isDigit c = true :=
    isDigit_of_mem_digitChars (by simp; omega)
  exact ⟨_, _, _, n / 10, hshow, hdigits _ (by simp [digitChars]), hdigits _ (by simp [digitChars]),
    hle, hparse, n % 10, by omega, hlast⟩

/-- What an IPv4 token gives: IPv4 networks, at least one, and exactly the one that is meant where
the pattern takes the prefix. -/
def Ipv4Found (ip : BitVec 32) (len : Fin 33) (suffix : Option (List Char))
    (found : List IpNetwork) : Prop :=
  found ≠ [] ∧ (∀ net ∈ found, family net = .v4) ∧
    (found = [.v4 ip len] ↔ PrefixTaken 2 32 len suffix)

/-- The netmask of all zeros: its first zero is the prefix length. -/
theorem networks_zero_netmask (ip : BitVec 32) {len : Fin 33} (hlen : len.val = 0) :
    Ipv4Found ip len (some (showIpv4Addr 0)) (networks (showIpv4Addr ip ++
      slashed (some (showIpv4Addr 0)))) := by
  have hshow : showIpv4Addr 0 = "0.0.0.0".toList := by decide +kernel
  have hlength : suffixLength 2 (some "0.0.0.0".toList) = 2 := by decide
  have htake : (slashed (some "0.0.0.0".toList)).take 2 = slashed (some ['0']) := by decide
  have hdrop : (slashed (some "0.0.0.0".toList)).drop 2 = '.' :: "0.0.0".toList := by decide
  have hdigit : ∀ text ∈ some ['0'], ∀ c ∈ text, isDigit c = true := by
    intro text htext c hc
    rw [← Option.some.inj htext, List.mem_singleton] at hc
    rw [hc]
    decide
  have hslash : ∀ text ∈ some ['0'], '/' ∉ text := fun text htext hmem =>
    absurd (hdigit text htext '/' hmem) (by decide)
  have hprefix : ipv4Prefix (some ['0']) = some 0 := by decide
  rw [hshow, networks_ipv4, hlength, htake, hdrop, denotes_slashed (all_showIpv4Addr ip) hdigit,
    parseIpNetwork_v4 ip hslash hprefix (by decide), networks_dot,
    networks_eq_nil (by decide) (by decide), Option.toList_some, List.append_nil]
  have hzero : (⟨0, by decide⟩ : Fin 33) = len := Fin.ext hlen.symm
  rw [hzero]
  exact ⟨by simp, by simp [family], iff_of_true rfl (by simp [PrefixTaken, hlen])⟩

/-- Any other netmask: two of its digits are taken for a prefix length, and what is left of it is
found as an address of its own. -/
theorem networks_netmask (ip : BitVec 32) {mask : BitVec 32} {len : Fin 33}
    (hhigh : 128 ≤ (octets mask).1) (hlen : len.val ≠ 0) :
    Ipv4Found ip len (some (showIpv4Addr mask)) (networks (showIpv4Addr ip ++
      slashed (some (showIpv4Addr mask)))) := by
  obtain ⟨ha, hb, hc, hd⟩ := octets_lt mask
  obtain ⟨x, y, z, k, hshow, hx, hy, hk, hparse, e, he, hlast⟩ := showDec_three hhigh ha
  have hmask : showIpv4Addr mask = x :: y :: showIpv4Addr (BitVec.ofNat 32
      (((e * 256 + (octets mask).2.1) * 256 + (octets mask).2.2.1) * 256 +
        (octets mask).2.2.2)) := by
    rw [showIpv4Addr, showIpv4Addr, octets_ofNat he hb hc hd]
    simp only [hshow, ← hlast, List.cons_append, List.nil_append]
  rw [hmask]
  generalize BitVec.ofNat 32 (((e * 256 + (octets mask).2.1) * 256 + (octets mask).2.2.1) * 256 +
    (octets mask).2.2.2) = rest
  have hlength : suffixLength 2 (some (x :: y :: showIpv4Addr rest)) = 3 := by
    rw [suffixLength, List.takeWhile_cons_of_pos hx, List.takeWhile_cons_of_pos hy,
      List.length_cons, List.length_cons, Nat.min_eq_right (Nat.le_add_left 2 _)]
    rfl
  have hdigit : ∀ text ∈ some [x, y], ∀ c ∈ text, isDigit c = true := by
    intro text htext c hc
    rw [← Option.some.inj htext, List.mem_cons, List.mem_singleton] at hc
    rcases hc with rfl | rfl
    · exact hx
    · exact hy
  have hslash : ∀ text ∈ some [x, y], '/' ∉ text := fun text htext hmem =>
    absurd (hdigit text htext '/' hmem) (by decide)
  have hdot : '.' ∉ [x, y] := fun hmem => absurd (hdigit _ rfl '.' hmem) (by decide)
  have hplus : x ≠ '+' := fun heq => absurd (heq ▸ hx) (by decide)
  have hprefix : ipv4Prefix (some [x, y]) = some k := by
    rw [ipv4Prefix, parseIpv4Addr_eq_none hdot]
    exact hparse
  have htake : (slashed (some (x :: y :: showIpv4Addr rest))).take 3 = slashed (some [x, y]) := rfl
  have hdrop : (slashed (some (x :: y :: showIpv4Addr rest))).drop 3 = showIpv4Addr rest := rfl
  rw [networks_ipv4, hlength, htake, hdrop, denotes_slashed (all_showIpv4Addr ip) hdigit,
    parseIpNetwork_v4 ip hslash hprefix (Nat.lt_succ_of_le hk), networks_showIpv4Addr,
    Option.toList_some]
  refine ⟨by simp, by simp [family], iff_of_false (by simp) ?_⟩
  have hlong : ¬ (x :: y :: showIpv4Addr rest).length ≤ 2 := by
    have hdots := Nat.le_trans (count_dot_showIpv4Addr rest) List.count_le_length
    simp only [List.length_cons]
    omega
  rw [PrefixTaken, List.head?_cons, if_neg fun heq => hplus (Option.some.inj heq)]
  exact fun h => h.elim hlong hlen

/-- **One IPv4 token.** -/
theorem networks_ipv4_token {ip : BitVec 32} {len : Fin 33} {suffix : Option (List Char)}
    (hlen : ipv4Prefix suffix = some len.val) :
    Ipv4Found ip len suffix (networks (showIpv4Addr ip ++ slashed suffix)) := by
  cases suffix with
  | none =>
      obtain rfl : len = 32 := Fin.ext (Option.some.inj hlen).symm
      rw [slashed, List.append_nil, networks_showIpv4Addr]
      exact ⟨by simp, by simp [family], by simp [PrefixTaken]⟩
  | some text =>
      rw [ipv4Prefix] at hlen
      cases hmask : parseIpv4Addr text with
      | none =>
          rw [hmask] at hlen
          rw [networks_ipv4]
          obtain ⟨suffix', seen, rest, hseen⟩ := exists_seen Nat.two_pos (by decide) hlen
          have hparse := parseIpNetwork_v4 ip (hseen.notMem (show ¬ isDigit '/' = true by decide))
            hseen.ipv4Prefix (Nat.lt_succ_of_le hseen.le)
          rw [hseen.take, hseen.drop, denotes_slashed (all_showIpv4Addr ip) hseen.digit, hparse,
            networks_eq_nil hseen.colon (by rw [hseen.dots]; decide), Option.toList_some,
            List.append_nil]
          refine ⟨by simp, by simp [family], ?_⟩
          rw [← hseen.exact]
          simp [Fin.ext_iff]
      | some mask =>
          rw [hmask] at hlen
          obtain rfl := parseIpv4Addr_eq_some.mp hmask
          rcases netmask_cases hlen with ⟨rfl, hzero⟩ | ⟨hhigh, hne⟩
          · exact networks_zero_netmask ip hzero
          · exact networks_netmask ip hhigh hne

/-- With a colon among the groups, no dotted quad begins the text. -/
theorem first_ipTokenPattern_ipv6 {front rest : List Char}
    (hfront : ∀ c ∈ front, isGroupChar c = true) (hcolon : ':' ∈ front) :
    first ipTokenPattern (front ++ rest) = first ipv6Pattern (front ++ rest) := by
  have hsplit := List.takeWhile_append_dropWhile (p := isDigit) (l := front)
  cases hdrop : front.dropWhile isDigit with
  | nil => exact absurd (List.dropWhile_eq_nil_iff.mp hdrop ':' hcolon) (by decide)
  | cons x back =>
      rw [hdrop] at hsplit
      have hx : ¬ isDigit x = true := by
        have hhead := List.head?_dropWhile_not isDigit front
        rw [hdrop] at hhead
        simpa using hhead
      have hmem : x ∈ front := by
        rw [← hsplit]
        exact List.mem_append_right _ List.mem_cons_self
      have hdot : x ≠ '.' := fun heq => absurd (heq ▸ hfront x hmem) (by decide)
      have hdigits : ∀ c ∈ front.takeWhile isDigit, isDigit c = true := fun c hc =>
        List.mem_takeWhile_imp hc
      have hnone : first ipv4Pattern (front ++ rest) = none := by
        rw [← hsplit, List.append_assoc, List.cons_append]
        exact first_ipv4Pattern_none hdigits hx hdot
      rw [ipTokenPattern, first_alt, hnone, Option.none_or]

/-- The scan of groups: all of them, the prefix the pattern takes, and what is left. -/
theorem networks_groups {front rest : List Char} (hfront : ∀ c ∈ front, isGroupChar c = true)
    (hcolon : ':' ∈ front) (hlength : 2 ≤ front.length)
    (hrest : ∀ c ∈ rest.head?, ¬ isHexColon c = true) {k : ℕ}
    (hk : first (prefixPattern 3) rest = some k) (hle : k ≤ rest.length) :
    networks (front ++ rest) =
      (denotes (front ++ rest.take k)).toList ++ networks (rest.drop k) := by
  have hfirst : first ipTokenPattern (front ++ rest) = some (front.length + k) := by
    rw [first_ipTokenPattern_ipv6 hfront hcolon]
    exact first_ipv6Pattern hfront hlength hrest hk
  rw [networks_of_first (by omega) hfirst
    (by rw [List.length_append]; exact Nat.add_le_add_left hle _),
    List.take_length_add_append, List.drop_length_add_append]

theorem two_le_length {addr : List Char} {bits : BitVec 128} (h : parseIpv6Addr addr = some bits)
    (hcolon : ':' ∈ addr) : 2 ≤ addr.length := by
  have hpos : 0 < addr.length := List.length_pos_of_mem hcolon
  by_contra hshort
  obtain ⟨c, rfl⟩ := List.length_eq_one_iff.mp (show addr.length = 1 by omega)
  rw [List.mem_singleton] at hcolon
  rw [← hcolon, show parseIpv6Addr [':'] = none by decide +kernel] at h
  cases h

/-- The groups in front of a dotted quad, with its first number. -/
def beforeDot (addr : List Char) : List Char := addr.takeWhile (· != '.')

/-- What the pattern takes of an IPv6 token is what is meant: the prefix length, and where a dotted
quad ends the address, what stands before its first dot. -/
def Ipv6Taken (addr : List Char) (bits : BitVec 128) (len : ℕ) (suffix : Option (List Char)) : Prop :=
  if '.' ∈ addr then parseIpv6Addr (beforeDot addr) = some bits ∧ len = 128
  else PrefixTaken 3 128 len suffix

/-- What an IPv6 token gives: at most one network, of IPv6, and exactly the one that is meant where
the pattern takes it. -/
def Ipv6Found (addr : List Char) (bits : BitVec 128) (len : Fin 129) (suffix : Option (List Char))
    (found : List IpNetwork) : Prop :=
  found.length ≤ 1 ∧ (∀ net ∈ found, family net = .v6) ∧
    (found = [.v6 bits len] ↔ Ipv6Taken addr bits len suffix)

/-- Groups alone, with or without a prefix length. -/
theorem networks_ipv6_groups {addr : List Char} {bits : BitVec 128} {len : Fin 129}
    {suffix : Option (List Char)} (haddr : parseIpv6Addr addr = some bits)
    (hgroups : ∀ c ∈ addr, isGroupChar c = true) (hlen : ipv6Prefix suffix = some len.val) :
    Ipv6Found addr bits len suffix (networks (addr ++ slashed suffix)) := by
  have hcolon := colon_mem_of_parseIpv6Addr haddr
  have hdot : '.' ∉ addr := fun hmem => absurd (hgroups '.' hmem) (by decide)
  have hslash : ∀ c ∈ (slashed suffix).head?, ¬ isHexColon c = true := fun c hc => by
    rw [slashed_head suffix c hc]
    decide
  have hall := all_of_parseIpv6Addr haddr
  have hscan := networks_groups hgroups hcolon (two_le_length haddr hcolon) hslash
    (first_prefixPattern 3 suffix) (suffixLength_le 3 suffix)
  rw [Ipv6Found, Ipv6Taken, if_neg hdot, hscan]
  cases suffix with
  | none =>
      have hdigit : ∀ text ∈ (none : Option (List Char)), ∀ c ∈ text, isDigit c = true := by simp
      obtain rfl : len = 128 := Fin.ext (Option.some.inj hlen).symm
      have hslash : ∀ text ∈ (none : Option (List Char)), '/' ∉ text := by simp
      have hparse := parseIpNetwork_v6 (slash_notMem hall) (parseIpv4Addr_of_parseIpv6Addr haddr)
        haddr hslash rfl (show 128 < 129 by decide)
      have hdenotes : denotes (addr ++ slashed none) = some (.v6 bits 128) :=
        (denotes_slashed hall hdigit).trans hparse
      have htake : (slashed none).take (suffixLength 3 none) = slashed none := rfl
      have hdrop : networks ((slashed none).drop (suffixLength 3 none)) = [] := rfl
      rw [htake, hdrop, hdenotes, Option.toList_some, List.append_nil]
      exact ⟨by simp, by simp [family], iff_of_true rfl trivial⟩
  | some text =>
      obtain ⟨suffix', seen, rest, hseen⟩ := exists_seen (by decide : 0 < 3) (by decide) hlen
      have hparse := parseIpNetwork_v6 (slash_notMem hall) (parseIpv4Addr_of_parseIpv6Addr haddr)
        haddr (hseen.notMem (show ¬ isDigit '/' = true by decide)) hseen.ipv6Prefix
        (Nat.lt_succ_of_le hseen.le)
      rw [hseen.take, hseen.drop, denotes_slashed hall hseen.digit, hparse,
        networks_eq_nil hseen.colon (by rw [hseen.dots]; decide), Option.toList_some,
        List.append_nil]
      refine ⟨by simp, by simp [family], ?_⟩
      rw [← hseen.exact]
      simp [Fin.ext_iff]

/-- Behind an IPv6 address stand neither dots nor colons. -/
theorem notMem_slashed {suffix : Option (List Char)} {len : ℕ} (hlen : ipv6Prefix suffix = some len)
    {c : Char} (hdigit : ¬ isDigit c = true) (hslash : c ≠ '/') (hplus : c ≠ '+') :
    c ∉ slashed suffix := by
  cases suffix with
  | none => exact List.not_mem_nil
  | some text =>
      obtain ⟨-, digits, hdigits, hsplit⟩ := parsePrefix_spec hlen
      have hnot := notMem_digitChars hdigits.lt hdigit
      rcases hsplit with rfl | rfl
      · simp [slashed, hslash, hnot]
      · simp [slashed, hslash, hplus, hnot]

/-- What the groups in front of a dot denote: themselves, if they are an address. -/
theorem denotes_groups {head : List Char} (hhead : ∀ c ∈ head, isGroupChar c = true) :
    denotes head = (parseIpv6Addr head).map fun bits => .v6 bits 128 := by
  have hall : head.all isAddressChar = true := List.all_eq_true.mpr fun c hc =>
    isAddressChar_of_isGroupChar (hhead c hc)
  have hdot : '.' ∉ head := fun hmem => absurd (hhead '.' hmem) (by decide)
  have hdigit : ∀ text ∈ (none : Option (List Char)), ∀ c ∈ text, isDigit c = true := by simp
  have hslash : ∀ text ∈ (none : Option (List Char)), '/' ∉ text := by simp
  have hdenotes := denotes_slashed hall hdigit
  rw [slashed, List.append_nil] at hdenotes
  rw [hdenotes]
  cases hparse : parseIpv6Addr head with
  | some bits =>
      have hnet := parseIpNetwork_v6 (slash_notMem hall) (parseIpv4Addr_eq_none hdot) hparse hslash
        rfl (show 128 < 129 by decide)
      rw [slashed, List.append_nil] at hnet
      rw [hnet]
      rfl
  | none =>
      rw [Option.map_none, Option.eq_none_iff_forall_ne_some]
      intro net hnet
      generalize htext : head = text at hnet
      cases spelled_of_parseIpNetwork hnet with
      | v4 ip len suffix _ _ =>
          refine hdot (htext ▸ List.mem_append_left _ ?_)
          exact List.count_pos_iff.mp (Nat.lt_of_lt_of_le (by decide) (count_dot_showIpv4Addr ip))
      | v6 addr bits len suffix _ haddr _ =>
          cases suffix with
          | none =>
              rw [slashed, List.append_nil] at htext
              rw [htext, haddr] at hparse
              cases hparse
          | some text =>
              refine slash_notMem hall (htext ▸ ?_)
              exact List.mem_append_right _ List.mem_cons_self

theorem beforeDot_append {head rest : List Char} (h : '.' ∉ head) :
    beforeDot (head ++ '.' :: rest) = head := by
  have hall : ∀ c ∈ head, (c != '.') = true := fun c hc => bne_iff_ne.mpr fun heq => h (heq ▸ hc)
  rw [beforeDot, List.takeWhile_append_of_pos hall, List.takeWhile_cons_of_neg (by decide),
    List.append_nil]

/-- Behind the first dot of a quad there is nothing to find. -/
theorem networks_quad_tail (quad : BitVec 32) {suffix : Option (List Char)} {len : ℕ}
    (hlen : ipv6Prefix suffix = some len) :
    networks (showDec (octets quad).2.1 ++ '.' :: (showDec (octets quad).2.2.1 ++
      '.' :: showDec (octets quad).2.2.2) ++ slashed suffix) = [] := by
  obtain ⟨-, hb, hc, hd⟩ := octets_lt quad
  have hnot : ∀ n, n < 256 → ∀ c, ¬ isDigit c = true → c ∉ showDec n := fun n hn c hc hmem =>
    hc ((showDec_octet hn).1 c hmem)
  have hcolon : ':' ∉ slashed suffix :=
    notMem_slashed hlen (by decide) (by decide) (by decide)
  have hdot : '.' ∉ slashed suffix :=
    notMem_slashed hlen (by decide) (by decide) (by decide)
  refine networks_eq_nil ?_ ?_
  · simp [hnot _ hb ':' (by decide), hnot _ hc ':' (by decide), hnot _ hd ':' (by decide), hcolon]
  · simp [List.count_eq_zero.mpr (hnot _ hb '.' (by decide)),
      List.count_eq_zero.mpr (hnot _ hc '.' (by decide)),
      List.count_eq_zero.mpr (hnot _ hd '.' (by decide)), List.count_eq_zero.mpr hdot]

/-- Groups that a dotted quad ends. -/
theorem networks_ipv6_quad {front : List Char} {quad : BitVec 32} {bits : BitVec 128}
    {len : Fin 129} {suffix : Option (List Char)} (hfront : ∀ c ∈ front, isGroupChar c = true)
    (hcolon : ':' ∈ front) (hlen : ipv6Prefix suffix = some len.val) :
    Ipv6Found (front ++ showIpv4Addr quad) bits len suffix
      (networks (front ++ showIpv4Addr quad ++ slashed suffix)) := by
  obtain ⟨ha, -, -, -⟩ := octets_lt quad
  -- the groups end with the first number of the quad
  have hhead : ∀ c ∈ front ++ showDec (octets quad).1, isGroupChar c = true := by
    intro c hmem
    rcases List.mem_append.mp hmem with hmem | hmem
    · exact hfront c hmem
    · have hdigit : ('0' ≤ c && c ≤ '9') = true := (showDec_octet ha).1 c hmem
      simp only [isGroupChar, hdigit, Bool.true_or]
  have hdot : '.' ∉ front ++ showDec (octets quad).1 := fun hmem =>
    absurd (hhead '.' hmem) (by decide)
  have hsplit : front ++ showIpv4Addr quad = (front ++ showDec (octets quad).1) ++
      '.' :: (showDec (octets quad).2.1 ++ '.' :: (showDec (octets quad).2.2.1 ++
        '.' :: showDec (octets quad).2.2.2)) := by
    rw [List.append_assoc]
    rfl
  have hlength : 2 ≤ (front ++ showDec (octets quad).1).length := by
    have hone := List.length_pos_of_mem hcolon
    have htwo := (showDec_octet ha).2.1
    rw [List.length_append]
    omega
  rw [hsplit, Ipv6Found, Ipv6Taken, if_pos (by simp), beforeDot_append hdot, List.append_assoc,
    List.cons_append]
  have hnone := networks_quad_tail quad hlen
  generalize showDec (octets quad).2.1 ++ '.' :: (showDec (octets quad).2.2.1 ++
    '.' :: showDec (octets quad).2.2.2) ++ slashed suffix = tail at hnone ⊢
  have hstop : ∀ c ∈ ('.' :: tail).head?, ¬ isHexColon c = true := fun c hc => by
    rw [← Option.some.inj hc]
    decide
  have hprefix : first (prefixPattern 3) ('.' :: tail) = some 0 := by
    rw [prefixPattern, first_opt, first_one_seq_none (by decide)]
    rfl
  rw [networks_groups hhead (List.mem_append_left _ hcolon) hlength hstop hprefix (Nat.zero_le _),
    List.take_zero, List.append_nil, List.drop_zero, networks_dot, hnone, List.append_nil,
    denotes_groups hhead]
  cases parseIpv6Addr (front ++ showDec (octets quad).1) with
  | none => exact ⟨by simp, by simp, by simp⟩
  | some bits' =>
      refine ⟨by simp, by simp [family], ?_⟩
      simp [Fin.ext_iff, eq_comm]

/-- **One IPv6 token.** -/
theorem networks_ipv6_token {addr : List Char} {bits : BitVec 128} {len : Fin 129}
    {suffix : Option (List Char)} (haddr : parseIpv6Addr addr = some bits)
    (hlen : ipv6Prefix suffix = some len.val) :
    Ipv6Found addr bits len suffix (networks (addr ++ slashed suffix)) := by
  obtain ⟨front, hfront, hcolon, hsplit⟩ := parseIpv6Addr_spec haddr
  rcases hsplit with rfl | ⟨quad, rfl⟩
  · exact networks_ipv6_groups haddr hfront hlen
  · exact networks_ipv6_quad hfront hcolon hlen

end SimplyIpSync.Parsers.RegexLine
