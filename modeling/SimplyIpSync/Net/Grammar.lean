import SimplyIpSync.Net.Network

/-!
# What an accepted address looks like

The texts the readers accept, taken apart.  An IPv4 address is its printed form.  An IPv6 address is
hexadecimal digits and colons, of which a dotted quad may be the end.  Behind the slash stand
digits, which a plus sign may precede, or a netmask.
-/

namespace SimplyIpSync.Net

open SimplyIpSync.Crypto SimplyIpSync.Text SimplyIpSync.Bogon

/-! ### IPv6 -/

/-- A hexadecimal digit or a colon. -/
def IsGroupByte (b : UInt8) : Prop := b = 58 ∨ ∃ v, hexValue b = some v

theorem takeDigits_append {radix : ℕ} {text rest : Bytes} {digits : List ℕ}
    (h : takeDigits radix text = (digits, rest)) :
    ∃ front, text = front ++ rest ∧ (∀ b ∈ front, ∃ v, hexValue b = some v) ∧
      front.length = digits.length := by
  induction text generalizing digits with
  | nil =>
      obtain ⟨rfl, rfl⟩ := Prod.mk.inj h
      exact ⟨[], rfl, by simp, rfl⟩
  | cons b text ih =>
      by_cases hdigit : ∃ v, hexValue b = some v ∧ v.toNat < radix
      · obtain ⟨v, hvalue, hv⟩ := hdigit
        rw [takeDigits_cons hvalue hv] at h
        obtain ⟨rfl, hrest⟩ := Prod.mk.inj h
        obtain ⟨front, htext, hfront, hlength⟩ := ih (Prod.ext rfl hrest)
        refine ⟨b :: front, by rw [htext, List.cons_append], ?_, congrArg (· + 1) hlength⟩
        intro x hx
        rcases List.mem_cons.mp hx with rfl | hx
        · exact ⟨v, hvalue⟩
        · exact hfront x hx
      · have hno : NoDigit radix (b :: text) := noDigit_cons fun v hvalue =>
          Nat.not_lt.mp fun hv => hdigit ⟨v, hvalue, hv⟩
        rw [hno] at h
        obtain ⟨rfl, rfl⟩ := Prod.mk.inj h
        exact ⟨[], rfl, by simp, rfl⟩

theorem readNumber_append {radix maxDigits : ℕ} {allowZeroPrefix : Bool} {text rest : Bytes}
    {n : ℕ} (h : readNumber radix maxDigits allowZeroPrefix text = some (n, rest)) :
    ∃ front, text = front ++ rest ∧ ∀ b ∈ front, IsGroupByte b := by
  rw [readNumber] at h
  cases htake : takeDigits radix text with
  | mk digits rest' =>
      rw [htake] at h
      obtain ⟨front, htext, hfront, -⟩ := takeDigits_append htake
      simp only at h
      split at h
      · cases h
      · split at h
        · cases h
        · obtain ⟨-, rfl⟩ := Prod.mk.inj (Option.some.inj h)
          exact ⟨front, htext, fun b hb => .inr (hfront b hb)⟩

/-- What one round of `readGroups` does: it ends with a quad, reads a group, or stops. -/
theorem readGroups_cases (limit : ℕ) (isFirst : Bool) (text : Bytes) :
    (∃ bits rest, readSeparated isFirst readIpv4Addr text = some (bits, rest) ∧
      readGroups (limit + 1) isFirst text =
        ([bits.toNat / 65536, bits.toNat % 65536], true, rest)) ∨
    (∃ group rest, readSeparated isFirst (readNumber 16 4 true) text = some (group, rest) ∧
      readGroups (limit + 1) isFirst text =
        (group :: (readGroups limit false rest).1, (readGroups limit false rest).2)) ∨
    readGroups (limit + 1) isFirst text = ([], false, text) := by
  rw [readGroups]
  cases hquad : (if 1 ≤ limit then readSeparated isFirst readIpv4Addr text else none) with
  | some out =>
      refine .inl ⟨out.1, out.2, ?_, rfl⟩
      exact (Option.ite_none_right_eq_some.mp hquad).2
  | none =>
      cases hgroup : readSeparated isFirst (readNumber 16 4 true) text with
      | some out => exact .inr (.inl ⟨out.1, out.2, rfl, rfl⟩)
      | none => exact .inr (.inr rfl)

/-- Groups as they were read: digits and colons, and the quad that ended them, if one did. -/
structure GroupsText (text front rest : Bytes) (quad : Bool) : Prop where
  group : ∀ b ∈ front, IsGroupByte b
  split : if quad then ∃ bits, text = front ++ (utf8 (showIpv4Addr bits) ++ rest)
    else text = front ++ rest

theorem GroupsText.cons {text front rest : Bytes} {quad : Bool} {extra : Bytes}
    (hextra : ∀ b ∈ extra, IsGroupByte b) (h : GroupsText text front rest quad) :
    GroupsText (extra ++ text) (extra ++ front) rest quad where
  group b hb := (List.mem_append.mp hb).elim (hextra b) (h.group b)
  split := by
    have hsplit := h.split
    cases quad with
    | true =>
        obtain ⟨bits, htext⟩ := hsplit
        exact ⟨bits, by rw [htext, List.append_assoc]⟩
    | false => exact (congrArg (extra ++ ·) hsplit).trans (List.append_assoc extra front rest).symm

theorem isGroupByte_colon : ∀ b ∈ ([58] : Bytes), IsGroupByte b := fun _ hb =>
  .inl (List.mem_singleton.mp hb)

/-- Behind the first group, every group and the quad have their colon. -/
theorem readGroups_false_spec {limit : ℕ} {text rest : Bytes} {groups : List ℕ} {quad : Bool}
    (h : readGroups limit false text = (groups, quad, rest)) :
    ∃ front, GroupsText text front rest quad ∧ (groups ≠ [] → 58 ∈ front) := by
  induction limit generalizing text groups with
  | zero =>
      obtain ⟨rfl, hrest⟩ := Prod.mk.inj h
      obtain ⟨rfl, rfl⟩ := Prod.mk.inj hrest
      exact ⟨[], ⟨by simp, rfl⟩, fun hne => absurd rfl hne⟩
  | succ limit ih =>
      rcases readGroups_cases limit false text with
        ⟨bits, rest', hread, hout⟩ | ⟨group, rest', hread, hout⟩ | hout
      · obtain ⟨rfl, hrest⟩ := Prod.mk.inj (hout.symm.trans h)
        obtain ⟨rfl, rfl⟩ := Prod.mk.inj hrest
        obtain ⟨text', hcolon, hquad⟩ := Option.bind_eq_some_iff.mp hread
        obtain rfl := readGivenChar_eq_some.mp hcolon
        obtain ⟨rfl, -⟩ := readIpv4Addr_spec hquad
        exact ⟨[58], ⟨isGroupByte_colon, bits, rfl⟩, fun _ => List.mem_cons_self⟩
      · obtain ⟨-, hrest⟩ := Prod.mk.inj (hout.symm.trans h)
        obtain ⟨text', hcolon, hnumber⟩ := Option.bind_eq_some_iff.mp hread
        obtain rfl := readGivenChar_eq_some.mp hcolon
        obtain ⟨digits, rfl, hdigits⟩ := readNumber_append hnumber
        obtain ⟨front, hfront, -⟩ := ih (Prod.ext rfl hrest)
        refine ⟨58 :: (digits ++ front), ?_, fun _ => List.mem_cons_self⟩
        exact (hfront.cons hdigits).cons isGroupByte_colon
      · obtain ⟨rfl, hrest⟩ := Prod.mk.inj (hout.symm.trans h)
        obtain ⟨rfl, rfl⟩ := Prod.mk.inj hrest
        exact ⟨[], ⟨by simp, rfl⟩, fun hne => absurd rfl hne⟩

/-- From the first group on, three groups have a colon between them. -/
theorem readGroups_true_spec {limit : ℕ} {text rest : Bytes} {groups : List ℕ} {quad : Bool}
    (h : readGroups limit true text = (groups, quad, rest)) :
    ∃ front, GroupsText text front rest quad ∧ (3 ≤ groups.length → 58 ∈ front) := by
  cases limit with
  | zero =>
      obtain ⟨rfl, hrest⟩ := Prod.mk.inj h
      obtain ⟨rfl, rfl⟩ := Prod.mk.inj hrest
      exact ⟨[], ⟨by simp, rfl⟩, fun hlen => absurd hlen (by simp)⟩
  | succ limit =>
      rcases readGroups_cases limit true text with
        ⟨bits, rest', hread, hout⟩ | ⟨group, rest', hread, hout⟩ | hout
      · obtain ⟨rfl, hrest⟩ := Prod.mk.inj (hout.symm.trans h)
        obtain ⟨rfl, rfl⟩ := Prod.mk.inj hrest
        obtain ⟨rfl, -⟩ := readIpv4Addr_spec hread
        exact ⟨[], ⟨by simp, bits, rfl⟩, fun hlen => absurd hlen (by simp)⟩
      · obtain ⟨rfl, hrest⟩ := Prod.mk.inj (hout.symm.trans h)
        obtain ⟨digits, rfl, hdigits⟩ := readNumber_append hread
        have hgroups : readGroups limit false rest' =
            ((readGroups limit false rest').1, quad, rest) := Prod.ext rfl hrest
        obtain ⟨front, hfront, hcolon⟩ := readGroups_false_spec hgroups
        refine ⟨digits ++ front, hfront.cons hdigits, fun hlen => ?_⟩
        refine List.mem_append_right digits (hcolon fun hnil => ?_)
        rw [hnil] at hlen
        simp at hlen
      · obtain ⟨rfl, hrest⟩ := Prod.mk.inj (hout.symm.trans h)
        obtain ⟨rfl, rfl⟩ := Prod.mk.inj hrest
        exact ⟨[], ⟨by simp, rfl⟩, fun hlen => absurd hlen (by simp)⟩

/-- **The text of an IPv6 address**: digits and colons, at least one colon among them, and a quad
at the end where there is one. -/
theorem readIpv6Addr_spec {text rest : Bytes} {bits : BitVec 128}
    (h : readIpv6Addr text = some (bits, rest)) :
    ∃ front quad, GroupsText text front rest quad ∧ 58 ∈ front := by
  rw [readIpv6Addr] at h
  cases hhead : readGroups 8 true text with
  | mk head out =>
      obtain ⟨quad, text'⟩ := out
      rw [hhead] at h
      obtain ⟨front, hfront, hcolon⟩ := readGroups_true_spec hhead
      simp only at h
      split at h
      case isTrue hlen =>
        obtain ⟨-, rfl⟩ := Prod.mk.inj (Option.some.inj h)
        exact ⟨front, quad, hfront, hcolon (by omega)⟩
      case isFalse =>
        split at h
        · cases h
        case isFalse hquad =>
          simp only [Option.bind_eq_bind, Option.bind_eq_some_iff] at h
          obtain ⟨second, hfirst, after, hsecond, h⟩ := h
          obtain rfl := readGivenChar_eq_some.mp hfirst
          obtain rfl := readGivenChar_eq_some.mp hsecond
          cases htail : readGroups (7 - head.length) true after with
          | mk tail out =>
              obtain ⟨quad', rest'⟩ := out
              rw [htail] at h
              obtain ⟨-, rfl⟩ := Prod.mk.inj (Option.some.inj h)
              obtain ⟨back, hback, -⟩ := readGroups_true_spec htail
              have hsplit := hfront.split
              rw [if_neg hquad] at hsplit
              refine ⟨front ++ 58 :: 58 :: back, quad', ?_, by simp⟩
              rw [hsplit]
              exact ((hback.cons isGroupByte_colon).cons isGroupByte_colon).cons hfront.group

/-- A hexadecimal digit or a colon, as a character. -/
def isGroupChar (c : Char) : Bool :=
  ('0' ≤ c && c ≤ '9') || ('a' ≤ c && c ≤ 'f') || ('A' ≤ c && c ≤ 'F') || c == ':'

theorem isGroupChar_ofNat {b : UInt8} (h : IsGroupByte b) :
    b < 128 ∧ isGroupChar (Char.ofNat b.toNat) = true := by
  have hall : ∀ n : Fin 256, ((UInt8.ofFin n = 58 ∨ (hexValue (UInt8.ofFin n)).isSome = true) →
      UInt8.ofFin n < 128 ∧ isGroupChar (Char.ofNat (UInt8.ofFin n).toNat) = true) := by
    decide +kernel
  refine hall b.toFin (h.imp id fun hv => ?_)
  exact Option.isSome_iff_exists.mpr hv

/-- The characters of an accepted IPv6 address. -/
theorem parseIpv6Addr_spec {addr : List Char} {bits : BitVec 128}
    (h : parseIpv6Addr addr = some bits) :
    ∃ front, (∀ c ∈ front, isGroupChar c = true) ∧ ':' ∈ front ∧
      (addr = front ∨ ∃ quad, addr = front ++ showIpv4Addr quad) := by
  obtain ⟨⟨bits', rest⟩, hread, hrest⟩ := Option.bind_eq_some_iff.mp h
  obtain ⟨rfl, -⟩ := Option.ite_none_right_eq_some.mp hrest
  obtain ⟨front, quad, ⟨hgroup, hsplit⟩, hcolon⟩ := readIpv6Addr_spec hread
  have hbytes : utf8 (ofAscii front) = front := utf8_ofAscii fun b hb =>
    (isGroupChar_ofNat (hgroup b hb)).1
  refine ⟨ofAscii front, ?_, List.mem_map_of_mem hcolon, ?_⟩
  · intro c hc
    obtain ⟨b, hb, rfl⟩ := List.mem_map.mp hc
    exact (isGroupChar_ofNat (hgroup b hb)).2
  · cases quad with
    | false =>
        refine .inl (utf8_injective ?_)
        rw [hbytes]
        exact hsplit.trans (List.append_nil front)
    | true =>
        obtain ⟨bits, htext⟩ := hsplit
        refine .inr ⟨bits, utf8_injective ?_⟩
        rw [utf8_append, hbytes, htext, List.append_nil]

/-! ### Prefix lengths -/

theorem decDigit_eq_some {c : Char} {d : ℕ} (h : decDigit c = some d) :
    d < 10 ∧ c = d.digitChar := by
  obtain ⟨⟨hlow, hhigh⟩, hd⟩ := Option.ite_none_right_eq_some.mp h
  obtain rfl := Option.some.inj hd
  have hl : 48 ≤ c.toNat := hlow
  have hh : c.toNat ≤ 57 := hhigh
  refine ⟨by omega, ?_⟩
  have hall : ∀ n : Fin 10, Char.ofNat (48 + n) = (n : ℕ).digitChar := by decide
  have hc := hall ⟨c.toNat - 48, by omega⟩
  simp only at hc
  rw [← hc, Nat.add_sub_cancel' hl, Char.ofNat_toNat]

theorem decDigit_digitChar {d : ℕ} (h : d < 10) : decDigit d.digitChar = some d := by
  have hall : ∀ n : Fin 10, decDigit (n : ℕ).digitChar = some n.val := by decide
  exact hall ⟨d, h⟩

theorem mapM_decDigit_eq_some {text : List Char} {digits : List ℕ}
    (h : text.mapM decDigit = some digits) :
    (∀ d ∈ digits, d < 10) ∧ text = digitChars digits := by
  induction text generalizing digits with
  | nil =>
      obtain rfl := Option.some.inj h
      exact ⟨by simp, rfl⟩
  | cons c text ih =>
      simp only [List.mapM_cons, Option.bind_eq_bind, Option.bind_eq_some_iff] at h
      obtain ⟨d, hd, digits', hdigits, hout⟩ := h
      obtain rfl := Option.some.inj hout
      obtain ⟨hlt, rfl⟩ := decDigit_eq_some hd
      obtain ⟨hall, rfl⟩ := ih hdigits
      refine ⟨fun x hx => ?_, rfl⟩
      rcases List.mem_cons.mp hx with rfl | hx
      · exact hlt
      · exact hall x hx

theorem mapM_decDigit_digitChars {digits : List ℕ} (h : ∀ d ∈ digits, d < 10) :
    (digitChars digits).mapM decDigit = some digits := by
  induction digits with
  | nil => rfl
  | cons d digits ih =>
      have htail := ih fun x hx => h x (List.mem_cons_of_mem d hx)
      rw [digitChars, List.map_cons, List.mapM_cons, decDigit_digitChar (h d List.mem_cons_self),
        ← digitChars, htail]
      rfl

/-- The digits of a number that was read: any number of them, with a value below 256. -/
structure Numeral (digits : List ℕ) (n : ℕ) : Prop where
  ne_nil : digits ≠ []
  lt : ∀ d ∈ digits, d < 10
  value : ofDigits 10 digits = n

theorem unsignedDigits_digitChars {digits : List ℕ} (h : ∀ d ∈ digits, d < 10) :
    unsignedDigits (digitChars digits) = digitChars digits := by
  cases digits with
  | nil => rfl
  | cons d digits =>
      have hplus : d.digitChar ≠ '+' := by
        have hall : ∀ n : Fin 10, (n : ℕ).digitChar ≠ '+' := by decide
        exact hall ⟨d, h d List.mem_cons_self⟩
      rw [digitChars, List.map_cons]
      rw [unsignedDigits]
      rintro rest heq
      exact hplus (List.cons.inj heq).1

/-- **The text of a prefix length**: digits, with or without a plus sign. -/
theorem parsePrefix_spec {text : List Char} {max n : ℕ} (h : parsePrefix text max = some n) :
    n ≤ max ∧ ∃ digits, Numeral digits n ∧
      (text = digitChars digits ∨ text = '+' :: digitChars digits) := by
  obtain ⟨hparse, hmax⟩ := Option.filter_eq_some_iff.mp h
  rw [parseU8] at hparse
  split at hparse
  · cases hparse
  case isFalse hne =>
    obtain ⟨hmap, -⟩ := Option.filter_eq_some_iff.mp hparse
    obtain ⟨digits, hdigits, hvalue⟩ := Option.map_eq_some_iff.mp hmap
    obtain ⟨hlt, htext⟩ := mapM_decDigit_eq_some hdigits
    refine ⟨of_decide_eq_true hmax, digits, ⟨?_, hlt, hvalue⟩, ?_⟩
    · rintro rfl
      exact hne htext
    · rw [unsignedDigits.eq_def] at htext
      split at htext
      · exact .inr (by rw [htext])
      · exact .inl htext

/-- Digits are read as their value. -/
theorem parsePrefix_digitChars {digits : List ℕ} {max n : ℕ} (h : Numeral digits n)
    (hmax : max < 256) (hn : n ≤ max) : parsePrefix (digitChars digits) max = some n := by
  have hne : digitChars digits ≠ [] := fun hnil => h.ne_nil (List.map_eq_nil_iff.mp hnil)
  have hbyte : (some n).filter (fun n => decide (n < 256)) = some n :=
    Option.filter_some_pos (decide_eq_true (Nat.lt_of_le_of_lt hn hmax))
  have hfits : (some n).filter (fun n => decide (n ≤ max)) = some n :=
    Option.filter_some_pos (decide_eq_true hn)
  rw [parsePrefix, parseU8, unsignedDigits_digitChars h.lt, if_neg hne,
    mapM_decDigit_digitChars h.lt, Option.map_some, h.value, hbyte, hfits]

/-- The value of digits is that of those in front, and of those behind. -/
theorem ofDigits_append (a b : List ℕ) :
    ofDigits 10 (a ++ b) = ofDigits 10 a * 10 ^ b.length + ofDigits 10 b := by
  induction b using List.reverseRecOn with
  | nil => simp [ofDigits]
  | append_singleton b d ih =>
      rw [← List.append_assoc, ofDigits_append_singleton, ih, ofDigits_append_singleton,
        List.length_append, List.length_singleton, pow_succ]
      ring

/-- The first digits alone: never a greater value, and the same one only where no digit is left
out or all are zero. -/
theorem ofDigits_take (digits : List ℕ) (k : ℕ) :
    ofDigits 10 (digits.take k) ≤ ofDigits 10 digits ∧
      (ofDigits 10 (digits.take k) = ofDigits 10 digits ↔
        digits.length ≤ k ∨ ofDigits 10 digits = 0) := by
  have hsplit := ofDigits_append (digits.take k) (digits.drop k)
  rw [List.take_append_drop] at hsplit
  rcases Nat.lt_or_ge k digits.length with hlong | hshort
  · have hpow : 10 ≤ 10 ^ (digits.drop k).length := by
      rw [List.length_drop]
      calc 10 = 10 ^ 1 := (pow_one 10).symm
        _ ≤ 10 ^ (digits.length - k) := Nat.pow_le_pow_right (by decide) (by omega)
    have hmul : ofDigits 10 (digits.take k) * 10 ≤
        ofDigits 10 (digits.take k) * 10 ^ (digits.drop k).length := Nat.mul_le_mul_left _ hpow
    have hzero : ofDigits 10 (digits.take k) = 0 →
        ofDigits 10 digits = ofDigits 10 (digits.drop k) := fun h => by
      rw [hsplit, h, Nat.zero_mul, Nat.zero_add]
    refine ⟨by omega, ?_⟩
    constructor
    · intro heq
      omega
    · rintro (hle | hvalue)
      · omega
      · omega
  · rw [List.take_of_length_le hshort]
    exact ⟨le_rfl, iff_of_true rfl (.inl hshort)⟩

/-! ### Networks -/

/-- The spellings of a network. -/
inductive Spelled : List Char → IpNetwork → Prop
  | v4 (ip : BitVec 32) (len : Fin 33) (suffix : Option (List Char))
      (hslash : ∀ text ∈ suffix, '/' ∉ text) (hlen : ipv4Prefix suffix = some len.val) :
      Spelled (showIpv4Addr ip ++ slashed suffix) (.v4 ip len)
  | v6 (addr : List Char) (bits : BitVec 128) (len : Fin 129) (suffix : Option (List Char))
      (hslash : ∀ text ∈ suffix, '/' ∉ text) (haddr : parseIpv6Addr addr = some bits)
      (hlen : ipv6Prefix suffix = some len.val) :
      Spelled (addr ++ slashed suffix) (.v6 bits len)

/-- **What is accepted is spelled so.** -/
theorem spelled_of_parseIpNetwork {text : List Char} {net : IpNetwork}
    (h : parseIpNetwork text = some net) : Spelled text net := by
  rcases Option.or_eq_some_iff.mp h with hv4 | ⟨-, hv6⟩
  · simp only [parseIpv4Network, Option.bind_eq_bind, Option.bind_eq_some_iff] at hv4
    obtain ⟨⟨addr, suffix⟩, hparts, bits, haddr, len, hlen, hnet⟩ := hv4
    obtain ⟨-, hslash, rfl⟩ := cidrParts_spec hparts
    obtain rfl := parseIpv4Addr_eq_some.mp haddr
    split at hnet
    case isTrue hlt =>
      obtain rfl := Option.some.inj hnet
      exact .v4 bits ⟨len, hlt⟩ suffix hslash hlen
    case isFalse => cases hnet
  · simp only [parseIpv6Network, Option.bind_eq_bind, Option.bind_eq_some_iff] at hv6
    obtain ⟨⟨addr, suffix⟩, hparts, bits, haddr, len, hlen, hnet⟩ := hv6
    obtain ⟨-, hslash, rfl⟩ := cidrParts_spec hparts
    split at hnet
    case isTrue hlt =>
      obtain rfl := Option.some.inj hnet
      exact .v6 addr bits ⟨len, hlt⟩ suffix hslash haddr hlen
    case isFalse => cases hnet

theorem isAddressChar_of_isGroupChar {c : Char} (h : isGroupChar c = true) :
    isAddressChar c = true := by
  simp only [isGroupChar, isAddressChar, Bool.or_eq_true] at h ⊢
  rcases h with (h | h) | h
  · exact .inl (.inl (.inl h))
  · exact .inl (.inl (.inr h))
  · exact .inr h

theorem all_of_parseIpv6Addr {addr : List Char} {bits : BitVec 128}
    (h : parseIpv6Addr addr = some bits) : addr.all isAddressChar = true := by
  obtain ⟨front, hfront, -, hsplit⟩ := parseIpv6Addr_spec h
  have hgroups : front.all isAddressChar = true := List.all_eq_true.mpr fun c hc =>
    isAddressChar_of_isGroupChar (hfront c hc)
  rcases hsplit with rfl | ⟨quad, rfl⟩
  · exact hgroups
  · rw [List.all_append, hgroups, all_showIpv4Addr, Bool.and_self]

theorem colon_notMem_showIpv4Addr (bits : BitVec 32) : ':' ∉ showIpv4Addr bits := by
  have hdec : ∀ n, ':' ∉ showDec n := fun n hmem => by
    have hdigit := Nat.isDigit_of_mem_toDigits (show 0 < 10 by decide) le_rfl hmem
    exact absurd hdigit (by decide)
  simp [showIpv4Addr, hdec]

/-- An IPv6 address is no IPv4 address. -/
theorem parseIpv4Addr_of_parseIpv6Addr {addr : List Char} {bits : BitVec 128}
    (h : parseIpv6Addr addr = some bits) : parseIpv4Addr addr = none := by
  rw [Option.eq_none_iff_forall_ne_some]
  intro quad hquad
  obtain rfl := parseIpv4Addr_eq_some.mp hquad
  obtain ⟨front, -, hcolon, hsplit⟩ := parseIpv6Addr_spec h
  refine colon_notMem_showIpv4Addr quad ?_
  rcases hsplit with heq | ⟨quad', heq⟩
  · rw [heq]
    exact hcolon
  · rw [heq]
    exact List.mem_append_left _ hcolon

/-- An address alone is a network already, so the fallback of the normalizer is never taken. -/
theorem parseIpNetwork_of_parseIpAddr {text : List Char} {ip : IpAddr}
    (h : parseIpAddr (utf8 text) = some ip) : parseIpNetwork text = some (hostNetwork ip) := by
  have hnone : ∀ text ∈ (none : Option (List Char)), '/' ∉ text := by simp
  rw [parseIpAddr] at h
  cases hquad : readIpv4Addr (utf8 text) with
  | some out =>
      obtain ⟨bits, rest⟩ := out
      rw [hquad] at h
      obtain ⟨rfl, hip⟩ := Option.ite_none_right_eq_some.mp h
      obtain rfl := Option.some.inj hip
      have haddr : parseIpv4Addr text = some bits := by
        rw [parseIpv4Addr, hquad, Option.bind_some, if_pos rfl]
      obtain rfl := parseIpv4Addr_eq_some.mp haddr
      have hparse := parseIpNetwork_v4 bits hnone rfl (show 32 < 33 by decide)
      rwa [slashed, List.append_nil] at hparse
  | none =>
      rw [hquad] at h
      simp only at h
      cases hread : readIpv6Addr (utf8 text) with
      | none =>
          rw [hread] at h
          cases h
      | some out =>
          obtain ⟨bits, rest⟩ := out
          rw [hread] at h
          obtain ⟨rfl, hip⟩ := Option.ite_none_right_eq_some.mp h
          obtain rfl := Option.some.inj hip
          have haddr : parseIpv6Addr text = some bits := by
            rw [parseIpv6Addr, hread, Option.bind_some, if_pos rfl]
          have hparse := parseIpNetwork_v6 (slash_notMem (all_of_parseIpv6Addr haddr))
            (parseIpv4Addr_of_parseIpv6Addr haddr) haddr hnone rfl (show 128 < 129 by decide)
          rwa [slashed, List.append_nil] at hparse

end SimplyIpSync.Net
