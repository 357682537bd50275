import SimplyIpSync.Net
import SimplyIpSync.Text

/-!
# Addresses as they are printed

`Display` of `std::net::IpAddr`, and what the readers of `Net` make of it: reading a printed address
gives the address back.  A dotted quad has no second spelling, so the quad that was read is the
printed one; an IPv6 address has many.
-/

namespace SimplyIpSync.Net

open SimplyIpSync.Crypto SimplyIpSync.Text

/-! ### Printing -/

/-- `{}` of an unsigned number. -/
def showDec (n : ℕ) : List Char := Nat.toDigits 10 n

/-- `{:x}` of an unsigned number. -/
def showHex (n : ℕ) : List Char := Nat.toDigits 16 n

/-- `Ipv4Addr::octets`. -/
def octets (bits : BitVec 32) : ℕ × ℕ × ℕ × ℕ :=
  (bits.toNat / 16777216, bits.toNat / 65536 % 256, bits.toNat / 256 % 256, bits.toNat % 256)

/-- `Display` of `Ipv4Addr`. -/
def showIpv4Addr (bits : BitVec 32) : List Char :=
  let (a, b, c, d) := octets bits
  showDec a ++ '.' :: (showDec b ++ '.' :: (showDec c ++ '.' :: showDec d))

/-- `Ipv6Addr::segments`. -/
def segments (bits : BitVec 128) : List ℕ :=
  (List.range 8).map fun i => bits.toNat / 65536 ^ (7 - i) % 65536

/-- A run of zero segments: where it starts, and its length. -/
structure Span where
  start : ℕ
  len : ℕ
  deriving DecidableEq, Repr

/-- The loop for the first of the longest runs: `i` is the index of the next segment. -/
def zeroesFrom : ℕ → List ℕ → Span → Span → Span
  | _, [], _, longest => longest
  | i, segment :: rest, current, longest =>
      if segment = 0 then
        let current : Span := ⟨if current.len = 0 then i else current.start, current.len + 1⟩
        zeroesFrom (i + 1) rest current (if longest.len < current.len then current else longest)
      else zeroesFrom (i + 1) rest ⟨0, 0⟩ longest

/-- `zeroes`. -/
def zeroes (segs : List ℕ) : Span := zeroesFrom 0 segs ⟨0, 0⟩ ⟨0, 0⟩

/-- `fmt_subslice`. -/
def fmtSubslice : List ℕ → List Char
  | [] => []
  | first :: tail => showHex first ++ tail.flatMap fun segment => ':' :: showHex segment

/-- `Display` of `Ipv6Addr`: a mapped address keeps its dotted quad, the first longest run of two or
more zero segments is compressed. -/
def showIpv6Addr (bits : BitVec 128) : List Char :=
  if bits >>> 32 = 0xFFFF then "::ffff:".toList ++ showIpv4Addr (bits.setWidth 32)
  else
    let segs := segments bits
    let run := zeroes segs
    if 1 < run.len then
      fmtSubslice (segs.take run.start) ++
        ("::".toList ++ fmtSubslice (segs.drop (run.start + run.len)))
    else fmtSubslice segs

/-- `Display` of `IpAddr`. -/
def showIpAddr : IpAddr → List Char
  | .v4 bits => showIpv4Addr bits
  | .v6 bits => showIpv6Addr bits

/-- Both families, the run that is compressed, and a mapped address. -/
example : showIpAddr (.v4 0xCB007109) = "203.0.113.9".toList ∧
    showIpAddr (.v6 0x20010DB8000000010000000000000001) = "2001:db8:0:1::1".toList ∧
    showIpAddr (.v6 0xFFFF01020304) = "::ffff:1.2.3.4".toList ∧
    showIpAddr (.v6 0) = "::".toList := by
  decide +kernel

/-! ### Digits -/

/-- The value of a list of digits, the first one most significant. -/
def ofDigits (radix : ℕ) (digits : List ℕ) : ℕ := digits.foldl (fun n d => n * radix + d) 0

/-- No digit below `radix` comes first. -/
def NoDigit (radix : ℕ) (text : Bytes) : Prop := takeDigits radix text = ([], text)

theorem noDigit_nil (radix : ℕ) : NoDigit radix [] := rfl

theorem noDigit_cons {radix : ℕ} {b : UInt8} {text : Bytes}
    (h : ∀ v, hexValue b = some v → radix ≤ v.toNat) : NoDigit radix (b :: text) := by
  rw [NoDigit, takeDigits]
  cases hvalue : hexValue b with
  | none => rfl
  | some v => exact if_neg (Nat.not_lt.mpr (h v hvalue))

theorem noDigit_of_none {radix : ℕ} {b : UInt8} (h : hexValue b = none) (text : Bytes) :
    NoDigit radix (b :: text) := by
  rw [NoDigit, takeDigits, h]

/-- What a digit in front adds. -/
theorem takeDigits_cons {radix : ℕ} {b v : UInt8} {text : Bytes} (hvalue : hexValue b = some v)
    (hv : v.toNat < radix) :
    takeDigits radix (b :: text) =
      (v.toNat :: (takeDigits radix text).1, (takeDigits radix text).2) := by
  rw [takeDigits, hvalue]
  exact if_pos hv

theorem hexValue_digitChar {d : ℕ} (h : d < 16) :
    hexValue (UInt8.ofNat d.digitChar.toNat) = some (UInt8.ofNat d) := by
  have hall : ∀ d : Fin 16,
      hexValue (UInt8.ofNat (Nat.digitChar d).toNat) = some (UInt8.ofNat d) := by decide
  exact hall ⟨d, h⟩

theorem digitChar_lt {d : ℕ} (h : d < 16) : d.digitChar.toNat < 128 := by
  have hall : ∀ d : Fin 16, (Nat.digitChar d).toNat < 128 := by decide
  exact hall ⟨d, h⟩

/-- The characters of digits below a radix of at most sixteen. -/
def digitChars (digits : List ℕ) : List Char := digits.map Nat.digitChar

theorem utf8_digitChars_cons {d : ℕ} (h : d < 16) (digits : List ℕ) :
    utf8 (digitChars (d :: digits)) =
      UInt8.ofNat d.digitChar.toNat :: utf8 (digitChars digits) := by
  have hd : utf8 [d.digitChar] = [UInt8.ofNat d.digitChar.toNat] :=
    utf8_eq_map fun c hc => by rw [List.mem_singleton.mp hc]; exact digitChar_lt h
  rw [digitChars, List.map_cons, ← List.singleton_append, utf8_append, hd]
  rfl

/-- Digits in front are taken, up to what is no digit. -/
theorem takeDigits_digitChars {radix : ℕ} (hradix : radix ≤ 16) {digits : List ℕ}
    (hdigits : ∀ d ∈ digits, d < radix) {rest : Bytes} (hrest : NoDigit radix rest) :
    takeDigits radix (utf8 (digitChars digits) ++ rest) = (digits, rest) := by
  induction digits with
  | nil => exact hrest
  | cons d digits ih =>
      have hd : d < radix := hdigits d List.mem_cons_self
      have hsmall : d < 16 := Nat.lt_of_lt_of_le hd hradix
      have hnat : (UInt8.ofNat d).toNat = d :=
        UInt8.toNat_ofNat_of_lt' (Nat.lt_trans hsmall (by decide))
      rw [utf8_digitChars_cons hsmall, List.cons_append,
        takeDigits_cons (hexValue_digitChar hsmall) (hnat.symm ▸ hd),
        ih fun x hx => hdigits x (List.mem_cons_of_mem d hx), hnat]

/-- The digits of a printed number: below the radix, of its value, and with no zero in front of
others. -/
structure IsDigits (radix n : ℕ) (digits : List ℕ) : Prop where
  lt : ∀ d ∈ digits, d < radix
  ne_nil : digits ≠ []
  value : ofDigits radix digits = n
  canonical : digits.head? = some 0 → digits.length = 1

theorem ofDigits_append_singleton (radix : ℕ) (digits : List ℕ) (d : ℕ) :
    ofDigits radix (digits ++ [d]) = ofDigits radix digits * radix + d := by
  rw [ofDigits, List.foldl_append]
  rfl

theorem digitChars_append (a b : List ℕ) : digitChars (a ++ b) = digitChars a ++ digitChars b :=
  List.map_append

/-- Every number has such digits, and they are printed. -/
theorem exists_isDigits {radix : ℕ} (hradix : 1 < radix) (n : ℕ) :
    ∃ digits, IsDigits radix n digits ∧ Nat.toDigits radix n = digitChars digits := by
  induction n using Nat.strong_induction_on with
  | _ n ih =>
      by_cases hn : n < radix
      · refine ⟨[n], ⟨?_, List.cons_ne_nil n [], by simp [ofDigits], fun _ => rfl⟩, ?_⟩
        · intro d hd
          rw [List.mem_singleton.mp hd]
          exact hn
        · exact Nat.toDigits_of_lt_base hn
      · have hle : radix ≤ n := Nat.not_lt.mp hn
        have hpos : 0 < n := Nat.lt_of_lt_of_le (Nat.zero_lt_of_lt hradix) hle
        obtain ⟨digits, hdigits, hshow⟩ := ih (n / radix) (Nat.div_lt_self hpos hradix)
        refine ⟨digits ++ [n % radix], ⟨?_, by simp, ?_, ?_⟩, ?_⟩
        · intro d hd
          rcases List.mem_append.mp hd with hd | hd
          · exact hdigits.lt d hd
          · rw [List.mem_singleton.mp hd]
            exact Nat.mod_lt n (Nat.zero_lt_of_lt hradix)
        · rw [ofDigits_append_singleton, hdigits.value, Nat.mul_comm, Nat.div_add_mod]
        · intro hzero
          rw [List.head?_append_of_ne_nil digits hdigits.ne_nil] at hzero
          -- a single zero is the digit of zero, and the quotient is positive
          obtain ⟨d, rfl⟩ := List.length_eq_one_iff.mp (hdigits.canonical hzero)
          have hvalue := hdigits.value
          obtain rfl := Option.some.inj hzero
          have hquot : 0 < n / radix := Nat.div_pos hle (Nat.zero_lt_of_lt hradix)
          simp [ofDigits] at hvalue
          omega
        · rw [Nat.toDigits_of_base_le hradix hle, hshow, digitChars_append]
          rfl

theorem ofDigits_pos {radix : ℕ} (hradix : 1 < radix) {digits : List ℕ} {d : ℕ}
    (hd : digits.head? = some d) (hpos : 0 < d) : 0 < ofDigits radix digits := by
  induction digits using List.reverseRecOn with
  | nil => cases hd
  | append_singleton digits last ih =>
      rw [ofDigits_append_singleton]
      cases digits with
      | nil =>
          obtain rfl := Option.some.inj hd
          omega
      | cons x digits =>
          have hprefix : 0 < ofDigits radix (x :: digits) := ih hd
          exact Nat.add_pos_left (Nat.mul_pos hprefix (Nat.zero_lt_of_lt hradix)) last

/-- Such digits are the printed ones. -/
theorem IsDigits.toDigits_eq {radix n : ℕ} (hradix : 1 < radix) {digits : List ℕ}
    (h : IsDigits radix n digits) : Nat.toDigits radix n = digitChars digits := by
  induction digits using List.reverseRecOn generalizing n with
  | nil => exact absurd rfl h.ne_nil
  | append_singleton digits last ih =>
      have hlast : last < radix := h.lt last (by simp)
      have hvalue : ofDigits radix digits * radix + last = n := by
        rw [← ofDigits_append_singleton, h.value]
      cases digits with
      | nil =>
          obtain rfl : last = n := by simpa [ofDigits] using hvalue
          exact Nat.toDigits_of_lt_base hlast
      | cons x digits =>
          have hx : x ≠ 0 := fun hzero => by
            have hone := h.canonical (by rw [hzero]; rfl)
            simp at hone
          have hquot : IsDigits radix (ofDigits radix (x :: digits)) (x :: digits) :=
            { lt := fun d hd => h.lt d (List.mem_append_left [last] hd)
              ne_nil := List.cons_ne_nil x digits
              value := rfl
              canonical := fun hzero => absurd (Option.some.inj hzero) hx }
          have hpos : 0 < ofDigits radix (x :: digits) :=
            ofDigits_pos hradix rfl (Nat.pos_of_ne_zero hx)
          rw [← hvalue, Nat.mul_comm, ← Nat.toDigits_append_toDigits hradix hpos hlast, ih hquot,
            Nat.toDigits_of_lt_base hlast, digitChars_append]
          rfl

/-! ### Reading numbers -/

/-- A printed number is read up to what is no digit. -/
theorem readNumber_toDigits {radix maxDigits : ℕ} (hradix : 1 < radix) (hsmall : radix ≤ 16)
    (hmax : 0 < maxDigits) (allowZeroPrefix : Bool) {n : ℕ} (hn : n < radix ^ maxDigits)
    {rest : Bytes} (hrest : NoDigit radix rest) :
    readNumber radix maxDigits allowZeroPrefix (utf8 (Nat.toDigits radix n) ++ rest) =
      some (n, rest) := by
  obtain ⟨digits, hdigits, hshow⟩ := exists_isDigits hradix n
  have hlength : digits.length ≤ maxDigits := by
    have hle := (Nat.length_toDigits_le_iff hradix hmax).mpr hn
    rwa [hshow, digitChars, List.length_map] at hle
  have hfew : ¬ (digits = [] ∨ maxDigits < digits.length) := by
    rintro (hnil | hmany)
    · exact hdigits.ne_nil hnil
    · omega
  have hzero : (!allowZeroPrefix && digits.head? == some 0 && decide (1 < digits.length)) = false := by
    by_cases hhead : digits.head? = some 0
    · simp [hdigits.canonical hhead]
    · simp [hhead]
  rw [readNumber, hshow, takeDigits_digitChars hsmall hdigits.lt hrest]
  simp only [if_neg hfew, hzero, Bool.false_eq_true, if_false]
  exact congrArg (fun n => some (n, rest)) hdigits.value

/-- What `takeDigits` takes and leaves, below radix ten. -/
theorem takeDigits_spec {text rest : Bytes} {digits : List ℕ}
    (h : takeDigits 10 text = (digits, rest)) :
    text = utf8 (digitChars digits) ++ rest ∧ (∀ d ∈ digits, d < 10) ∧ NoDigit 10 rest := by
  induction text generalizing digits with
  | nil =>
      obtain ⟨rfl, rfl⟩ := Prod.mk.inj h
      exact ⟨rfl, by simp, rfl⟩
  | cons b text ih =>
      by_cases hdigit : ∃ v, hexValue b = some v ∧ v.toNat < 10
      · obtain ⟨v, hvalue, hv⟩ := hdigit
        rw [takeDigits_cons hvalue hv] at h
        obtain ⟨rfl, hrest⟩ := Prod.mk.inj h
        obtain ⟨htext, hlt, hno⟩ := ih (Prod.ext rfl hrest)
        have hb : UInt8.ofNat v.toNat.digitChar.toNat = b := by
          have hall : ∀ b : Fin 256, ∀ v, hexValue (UInt8.ofFin b) = some v → v.toNat < 10 →
              UInt8.ofNat (Nat.digitChar v.toNat).toNat = UInt8.ofFin b := by
            intro b
            revert b
            decide +kernel
          exact hall b.toFin v hvalue hv
        refine ⟨?_, ?_, hno⟩
        · rw [utf8_digitChars_cons (Nat.lt_trans hv (by decide)), List.cons_append, hb, ← htext]
        · intro d hd
          rcases List.mem_cons.mp hd with rfl | hd
          · exact hv
          · exact hlt d hd
      · have hno : NoDigit 10 (b :: text) := noDigit_cons fun v hvalue =>
          Nat.not_lt.mp fun hv => hdigit ⟨v, hvalue, hv⟩
        rw [hno] at h
        obtain ⟨rfl, rfl⟩ := Prod.mk.inj h
        exact ⟨rfl, by simp, hno⟩

theorem readGivenChar_eq_some {c : UInt8} {text rest : Bytes} :
    readGivenChar c text = some rest ↔ text = c :: rest := by
  cases text with
  | nil => simp [readGivenChar]
  | cons b text =>
      rw [readGivenChar]
      by_cases hb : b = c
      · rw [if_pos hb, hb, Option.some.injEq, List.cons.injEq, eq_self, true_and]
      · rw [if_neg hb, List.cons.injEq]
        simp [hb]

theorem utf8_cons {c : Char} (h : c.toNat < 128) (text : List Char) :
    utf8 (c :: text) = UInt8.ofNat c.toNat :: utf8 text := by
  have hc : utf8 [c] = [UInt8.ofNat c.toNat] :=
    utf8_eq_map fun x hx => by rw [List.mem_singleton.mp hx]; exact h
  rw [← List.singleton_append, utf8_append, hc]
  rfl

/-! ### Dotted quads -/

theorem readOctet_showDec {n : ℕ} (hn : n < 256) {rest : Bytes} (hrest : NoDigit 10 rest) :
    readOctet (utf8 (showDec n) ++ rest) = some (n, rest) := by
  rw [readOctet, showDec, readNumber_toDigits (by decide) (by decide) (by decide) false
    (Nat.lt_trans hn (by decide)) hrest]
  exact Option.filter_some_pos (decide_eq_true hn)

/-- The octet that was read is the printed one. -/
theorem readOctet_spec {text rest : Bytes} {n : ℕ} (h : readOctet text = some (n, rest)) :
    text = utf8 (showDec n) ++ rest ∧ n < 256 ∧ NoDigit 10 rest := by
  obtain ⟨hread, hn⟩ := Option.filter_eq_some_iff.mp h
  rw [readNumber] at hread
  cases htake : takeDigits 10 text with
  | mk digits rest' =>
      rw [htake] at hread
      obtain ⟨htext, hlt, hno⟩ := takeDigits_spec htake
      by_cases hfew : digits = [] ∨ 3 < digits.length
      · simp [hfew] at hread
      · simp only [if_neg hfew, Bool.not_false, Bool.true_and] at hread
        by_cases hzero : (digits.head? == some 0 && decide (1 < digits.length)) = true
        · simp [hzero] at hread
        · simp only [if_neg hzero, Option.some.injEq, Prod.mk.injEq] at hread
          obtain ⟨hvalue, rfl⟩ := hread
          have hdigits : IsDigits 10 n digits :=
            { lt := hlt
              ne_nil := fun hnil => hfew (.inl hnil)
              value := hvalue
              canonical := by
                intro hhead
                have hpos : 0 < digits.length :=
                  List.length_pos_iff.mpr fun hnil => hfew (.inl hnil)
                simp [hhead] at hzero
                omega }
          rw [showDec, hdigits.toDigits_eq (by decide)]
          exact ⟨htext, of_decide_eq_true hn, hno⟩

theorem octets_lt (bits : BitVec 32) :
    (octets bits).1 < 256 ∧ (octets bits).2.1 < 256 ∧ (octets bits).2.2.1 < 256 ∧
      (octets bits).2.2.2 < 256 := by
  have hlt := bits.isLt
  simp only [octets]
  omega

theorem noDigit_dot (rest : Bytes) : NoDigit 10 (46 :: rest) := noDigit_of_none (by decide) rest

theorem utf8_showIpv4Addr (bits : BitVec 32) :
    utf8 (showIpv4Addr bits) =
      utf8 (showDec (octets bits).1) ++ 46 :: (utf8 (showDec (octets bits).2.1) ++
        46 :: (utf8 (showDec (octets bits).2.2.1) ++ 46 :: utf8 (showDec (octets bits).2.2.2))) := by
  have hdot : ∀ text, utf8 ('.' :: text) = 46 :: utf8 text := utf8_cons (by decide)
  simp only [showIpv4Addr, utf8_append, hdot]

/-- **Reading a printed quad gives it back.** -/
theorem readIpv4Addr_show (bits : BitVec 32) {rest : Bytes} (hrest : NoDigit 10 rest) :
    readIpv4Addr (utf8 (showIpv4Addr bits) ++ rest) = some (bits, rest) := by
  obtain ⟨ha, hb, hc, hd⟩ := octets_lt bits
  have hgiven : ∀ rest : Bytes, readGivenChar 46 (46 :: rest) = some rest := fun rest =>
    readGivenChar_eq_some.mpr rfl
  have hbits : BitVec.ofNat 32 ((((octets bits).1 * 256 + (octets bits).2.1) * 256 +
      (octets bits).2.2.1) * 256 + (octets bits).2.2.2) = bits := by
    refine BitVec.eq_of_toNat_eq ?_
    have hlt := bits.isLt
    simp only [octets, BitVec.toNat_ofNat]
    omega
  simp only [utf8_showIpv4Addr, List.append_assoc, List.cons_append, readIpv4Addr]
  simp only [readOctet_showDec ha (noDigit_dot _), readOctet_showDec hb (noDigit_dot _),
    readOctet_showDec hc (noDigit_dot _), readOctet_showDec hd hrest, hgiven, Option.bind_eq_bind,
    Option.bind_some, hbits]

theorem octets_ofNat {a b c d : ℕ} (ha : a < 256) (hb : b < 256) (hc : c < 256) (hd : d < 256) :
    octets (BitVec.ofNat 32 (((a * 256 + b) * 256 + c) * 256 + d)) = (a, b, c, d) := by
  have hmod : (((a * 256 + b) * 256 + c) * 256 + d) % 2 ^ 32 =
      ((a * 256 + b) * 256 + c) * 256 + d := Nat.mod_eq_of_lt (by omega)
  simp only [octets, BitVec.toNat_ofNat, hmod, Prod.mk.injEq]
  omega

/-- **A quad has one spelling.** -/
theorem readIpv4Addr_spec {text rest : Bytes} {bits : BitVec 32}
    (h : readIpv4Addr text = some (bits, rest)) :
    text = utf8 (showIpv4Addr bits) ++ rest ∧ NoDigit 10 rest := by
  simp only [readIpv4Addr, Option.bind_eq_bind, Option.bind_eq_some_iff] at h
  obtain ⟨⟨a, ra⟩, ha, ⟨sb, hsb, ⟨b, rb⟩, hb, ⟨sc, hsc, ⟨c, rc⟩, hc, ⟨sd, hsd, ⟨d, rd⟩, hd, hout⟩⟩⟩⟩ :=
    h
  obtain ⟨rfl, rfl⟩ := Prod.mk.inj (Option.some.inj hout)
  obtain ⟨rfl, ha', -⟩ := readOctet_spec ha
  obtain rfl := readGivenChar_eq_some.mp hsb
  obtain ⟨rfl, hb', -⟩ := readOctet_spec hb
  obtain rfl := readGivenChar_eq_some.mp hsc
  obtain ⟨rfl, hc', -⟩ := readOctet_spec hc
  obtain rfl := readGivenChar_eq_some.mp hsd
  obtain ⟨rfl, hd', hno⟩ := readOctet_spec hd
  refine ⟨?_, hno⟩
  rw [utf8_showIpv4Addr, octets_ofNat ha' hb' hc' hd']
  simp only [List.append_assoc, List.cons_append]

/-- There is no quad without a dot. -/
theorem readIpv4Addr_eq_none {text : Bytes} (h : 46 ∉ text) : readIpv4Addr text = none := by
  rw [Option.eq_none_iff_forall_ne_some]
  rintro ⟨bits, rest⟩ hread
  obtain ⟨rfl, -⟩ := readIpv4Addr_spec hread
  rw [utf8_showIpv4Addr] at h
  simp at h

/-! ### Groups -/

theorem hexValue_of_mem_digitChars {digits : List ℕ} (h : ∀ d ∈ digits, d < 16) {b : UInt8}
    (hb : b ∈ utf8 (digitChars digits)) : ∃ v, hexValue b = some v := by
  induction digits with
  | nil => cases hb
  | cons d digits ih =>
      have hd : d < 16 := h d List.mem_cons_self
      rw [utf8_digitChars_cons hd] at hb
      rcases List.mem_cons.mp hb with rfl | hb
      · exact ⟨_, hexValue_digitChar hd⟩
      · exact ih (fun x hx => h x (List.mem_cons_of_mem d hx)) hb

theorem hexValue_of_mem_showHex {n : ℕ} {b : UInt8} (hb : b ∈ utf8 (showHex n)) :
    ∃ v, hexValue b = some v := by
  obtain ⟨digits, hdigits, hshow⟩ := exists_isDigits (show 1 < 16 by decide) n
  rw [showHex, hshow] at hb
  exact hexValue_of_mem_digitChars hdigits.lt hb

theorem readNumber_showHex {n : ℕ} (hn : n < 65536) {rest : Bytes} (hrest : NoDigit 16 rest) :
    readNumber 16 4 true (utf8 (showHex n) ++ rest) = some (n, rest) :=
  readNumber_toDigits (by decide) (by decide) (by decide) true hn hrest

theorem readNumber_eq_none {radix maxDigits : ℕ} {allowZeroPrefix : Bool} {text : Bytes}
    (h : NoDigit radix text) : readNumber radix maxDigits allowZeroPrefix text = none := by
  rw [readNumber, h]
  simp

/-- Where groups end: with the text, or at two colons. -/
def GroupsEnd (rest : Bytes) : Prop := rest = [] ∨ ∃ tail, rest = 58 :: 58 :: tail

theorem noDigit_colon (rest : Bytes) : NoDigit 16 (58 :: rest) := noDigit_of_none (by decide) rest

theorem GroupsEnd.noDigit {rest : Bytes} (h : GroupsEnd rest) : NoDigit 16 rest := by
  rcases h with rfl | ⟨tail, rfl⟩
  · rfl
  · exact noDigit_colon _

theorem readSeparated_true {α : Type} (inner : Bytes → Option (α × Bytes)) (text : Bytes) :
    readSeparated true inner text = inner text := rfl

/-- No further group is read there. -/
theorem GroupsEnd.readGroups {rest : Bytes} (h : GroupsEnd rest) (hdot : 46 ∉ rest) (limit : ℕ)
    (first : Bool) : readGroups limit first rest = ([], false, rest) := by
  have hquad : readSeparated first readIpv4Addr rest = none := by
    rcases h with rfl | ⟨tail, rfl⟩
    · cases first <;> rfl
    · have htail : 46 ∉ (58 :: tail : Bytes) := fun hmem => hdot (List.mem_cons_of_mem 58 hmem)
      cases first
      · exact readIpv4Addr_eq_none htail
      · exact readIpv4Addr_eq_none hdot
  have hnumber : readSeparated first (readNumber 16 4 true) rest = none := by
    rcases h with rfl | ⟨tail, rfl⟩
    · cases first <;> rfl
    · cases first
      · show readNumber 16 4 true (58 :: tail) = none
        exact readNumber_eq_none (noDigit_colon tail)
      · show readNumber 16 4 true (58 :: 58 :: tail) = none
        exact readNumber_eq_none (noDigit_colon _)
  cases limit with
  | zero => rfl
  | succ limit =>
      rw [Net.readGroups, hquad, hnumber, ite_self]

/-- The groups behind the first one, each after its colon. -/
def colonGroups (groups : List ℕ) : List Char := groups.flatMap fun g => ':' :: showHex g

theorem utf8_colonGroups_cons (g : ℕ) (groups : List ℕ) :
    utf8 (colonGroups (g :: groups)) =
      58 :: (utf8 (showHex g) ++ utf8 (colonGroups groups)) := by
  have hcolon : ∀ text, utf8 (':' :: text) = 58 :: utf8 text := utf8_cons (by decide)
  rw [colonGroups, List.flatMap_cons, List.cons_append, hcolon, utf8_append, ← colonGroups]

theorem noDigit_colonGroups (groups : List ℕ) {rest : Bytes} (hrest : NoDigit 16 rest) :
    NoDigit 16 (utf8 (colonGroups groups) ++ rest) := by
  cases groups with
  | nil => exact hrest
  | cons g groups =>
      rw [utf8_colonGroups_cons]
      exact noDigit_colon _

theorem dot_notMem_showHex (n : ℕ) : 46 ∉ utf8 (showHex n) := fun hmem => by
  obtain ⟨v, hv⟩ := hexValue_of_mem_showHex hmem
  cases (show hexValue 46 = none by decide).symm.trans hv

theorem dot_notMem_colonGroups (groups : List ℕ) : 46 ∉ utf8 (colonGroups groups) := by
  induction groups with
  | nil => exact List.not_mem_nil
  | cons g groups ih =>
      rw [utf8_colonGroups_cons]
      simp [dot_notMem_showHex, ih]

/-- Printed groups are read back, up to where they end. -/
theorem readGroups_colonGroups {limit : ℕ} {groups : List ℕ} (hlimit : groups.length ≤ limit)
    (hgroups : ∀ g ∈ groups, g < 65536) {rest : Bytes} (hend : GroupsEnd rest)
    (hdot : 46 ∉ rest) :
    readGroups limit false (utf8 (colonGroups groups) ++ rest) = (groups, false, rest) := by
  induction groups generalizing limit with
  | nil => exact hend.readGroups hdot limit false
  | cons g groups ih =>
      obtain ⟨limit, rfl⟩ : ∃ l, limit = l + 1 := Nat.exists_eq_add_one.mpr (by
        rw [List.length_cons] at hlimit
        omega)
      have hnodot : 46 ∉ utf8 (showHex g) ++ (utf8 (colonGroups groups) ++ rest) := by
        simp [dot_notMem_showHex, dot_notMem_colonGroups, hdot]
      rw [utf8_colonGroups_cons, List.cons_append, List.append_assoc, Net.readGroups]
      have hquad : readSeparated false readIpv4Addr
          (58 :: (utf8 (showHex g) ++ (utf8 (colonGroups groups) ++ rest))) = none :=
        readIpv4Addr_eq_none hnodot
      have hnumber : readSeparated false (readNumber 16 4 true)
          (58 :: (utf8 (showHex g) ++ (utf8 (colonGroups groups) ++ rest))) =
            some (g, utf8 (colonGroups groups) ++ rest) :=
        readNumber_showHex (hgroups g List.mem_cons_self) (noDigit_colonGroups groups hend.noDigit)
      rw [hquad, hnumber, ite_self]
      simp only [ih (Nat.le_of_succ_le_succ hlimit) fun x hx =>
        hgroups x (List.mem_cons_of_mem g hx)]

theorem fmtSubslice_cons (g : ℕ) (groups : List ℕ) :
    fmtSubslice (g :: groups) = showHex g ++ colonGroups groups := rfl

theorem dot_notMem_fmtSubslice (groups : List ℕ) : 46 ∉ utf8 (fmtSubslice groups) := by
  cases groups with
  | nil => exact List.not_mem_nil
  | cons g groups =>
      rw [fmtSubslice_cons, utf8_append, List.mem_append]
      exact fun h => h.elim (dot_notMem_showHex g) (dot_notMem_colonGroups groups)

theorem readGroups_fmtSubslice (limit : ℕ) {groups : List ℕ} (hlimit : groups.length ≤ limit)
    (hgroups : ∀ g ∈ groups, g < 65536) {rest : Bytes} (hend : GroupsEnd rest)
    (hdot : 46 ∉ rest) :
    readGroups limit true (utf8 (fmtSubslice groups) ++ rest) = (groups, false, rest) := by
  cases groups with
  | nil => exact hend.readGroups hdot limit true
  | cons g groups =>
      obtain ⟨limit, rfl⟩ : ∃ l, limit = l + 1 := Nat.exists_eq_add_one.mpr (by
        rw [List.length_cons] at hlimit
        omega)
      have hnodot : 46 ∉ utf8 (showHex g) ++ (utf8 (colonGroups groups) ++ rest) := by
        simp [dot_notMem_showHex, dot_notMem_colonGroups, hdot]
      rw [fmtSubslice_cons, utf8_append, List.append_assoc, Net.readGroups]
      have hquad : readSeparated true readIpv4Addr
          (utf8 (showHex g) ++ (utf8 (colonGroups groups) ++ rest)) = none :=
        readIpv4Addr_eq_none hnodot
      have hnumber : readSeparated true (readNumber 16 4 true)
          (utf8 (showHex g) ++ (utf8 (colonGroups groups) ++ rest)) =
            some (g, utf8 (colonGroups groups) ++ rest) :=
        readNumber_showHex (hgroups g List.mem_cons_self) (noDigit_colonGroups groups hend.noDigit)
      rw [hquad, hnumber, ite_self]
      simp only [readGroups_colonGroups (Nat.le_of_succ_le_succ hlimit)
        (fun x hx => hgroups x (List.mem_cons_of_mem g hx)) hend hdot]

/-- Groups that end the text. -/
theorem readGroups_fmtSubslice_nil (limit : ℕ) {groups : List ℕ} (hlimit : groups.length ≤ limit)
    (hgroups : ∀ g ∈ groups, g < 65536) :
    readGroups limit true (utf8 (fmtSubslice groups)) = (groups, false, []) := by
  have hread := readGroups_fmtSubslice limit hlimit hgroups (.inl rfl) List.not_mem_nil
  rwa [List.append_nil] at hread

/-! ### The compressed run -/

/-- Every segment of the run is there and zero. -/
def ZeroRun (segs : List ℕ) (run : Span) : Prop :=
  ∀ i, run.start ≤ i → i < run.start + run.len → segs[i]? = some 0

/-- The loop keeps two runs: `longest`, and `current`, which ends at the next segment. -/
theorem zeroRun_zeroesFrom {segs front rest : List ℕ} (hsegs : segs = front ++ rest)
    {current longest : Span} (hcurrent : ZeroRun segs current)
    (hends : 0 < current.len → current.start + current.len = front.length)
    (hlongest : ZeroRun segs longest) :
    ZeroRun segs (zeroesFrom front.length rest current longest) := by
  induction rest generalizing front current longest with
  | nil => exact hlongest
  | cons segment rest ih =>
      have hnext : segs = (front ++ [segment]) ++ rest := by rw [hsegs]; simp
      have hlength : front.length + 1 = (front ++ [segment]).length := by simp
      rw [zeroesFrom, hlength]
      by_cases hzero : segment = 0
      · simp only [if_pos hzero]
        have hhere : segs[front.length]? = some 0 := by rw [hsegs, hzero]; simp
        -- the run so far, with this segment
        have hgrown : ZeroRun segs
            ⟨if current.len = 0 then front.length else current.start, current.len + 1⟩ := by
          intro i hstart hend
          by_cases hempty : current.len = 0
          · simp only [hempty, if_true] at hstart hend
            obtain rfl : i = front.length := by omega
            exact hhere
          · have hends := hends (Nat.pos_of_ne_zero hempty)
            simp only [if_neg hempty] at hstart hend
            rcases Nat.lt_or_ge i front.length with hi | hi
            · exact hcurrent i hstart (by omega)
            · obtain rfl : i = front.length := by omega
              exact hhere
        refine ih hnext hgrown ?_ ?_
        · intro _
          by_cases hempty : current.len = 0
          · simp [hempty]
          · have hends := hends (Nat.pos_of_ne_zero hempty)
            simp only [if_neg hempty, ← hlength]
            omega
        · split
          · exact hgrown
          · exact hlongest
      · simp only [if_neg hzero]
        exact ih hnext (fun i _ hend => absurd hend (by simp)) (fun h => absurd h (by simp))
          hlongest

theorem zeroRun_zeroes (segs : List ℕ) : ZeroRun segs (zeroes segs) :=
  zeroRun_zeroesFrom (List.nil_append segs).symm (fun _ _ hend => absurd hend (by simp))
    (fun h => absurd h (by simp)) fun _ _ hend => absurd hend (by simp)

/-- The segments before the run, the zeros, and the segments behind it. -/
theorem ZeroRun.eq_append {segs : List ℕ} {run : Span} (h : ZeroRun segs run)
    (hpos : 0 < run.len) :
    run.start + run.len ≤ segs.length ∧
    segs.take run.start ++ List.replicate run.len 0 ++ segs.drop (run.start + run.len) = segs := by
  have hlast : run.start + run.len - 1 < segs.length := by
    have hsome := h (run.start + run.len - 1) (by omega) (by omega)
    exact (List.getElem?_eq_some_iff.mp hsome).1
  have hle : run.start + run.len ≤ segs.length := by omega
  refine ⟨hle, List.ext_getElem? fun i => ?_⟩
  have htake : (segs.take run.start).length = run.start := List.length_take_of_le (by omega)
  rcases Nat.lt_or_ge i run.start with hi | hi
  · rw [List.append_assoc, List.getElem?_append_left (by omega), List.getElem?_take_of_lt hi]
  · rcases Nat.lt_or_ge i (run.start + run.len) with hi' | hi'
    · rw [List.append_assoc, List.getElem?_append_right (by omega), htake,
        List.getElem?_append_left (by rw [List.length_replicate]; omega),
        List.getElem?_replicate_of_lt (by omega), h i hi hi']
    · rw [List.getElem?_append_right (by simp [htake]; omega), List.getElem?_drop]
      congr 1
      simp [htake]
      omega

/-! ### IPv6 -/

theorem length_segments (bits : BitVec 128) : (segments bits).length = 8 := by
  rw [segments, List.length_map, List.length_range]

theorem segments_lt (bits : BitVec 128) : ∀ g ∈ segments bits, g < 65536 := by
  intro g hg
  obtain ⟨i, -, rfl⟩ := List.mem_map.mp hg
  exact Nat.mod_lt _ (by decide)

theorem ofGroups_segments (bits : BitVec 128) : ofGroups (segments bits) = bits := by
  refine BitVec.eq_of_toNat_eq ?_
  have hlt := bits.isLt
  simp only [ofGroups, segments, List.range, List.range.loop, List.map_cons, List.map_nil,
    List.foldl_cons, List.foldl_nil, BitVec.toNat_ofNat]
  omega

theorem utf8_doubleColon (text : List Char) :
    utf8 ("::".toList ++ text) = 58 :: 58 :: utf8 text := by
  rw [utf8_append]
  rfl

/-- Groups on both sides of two colons. -/
theorem readIpv6Addr_compressed {front back : List ℕ} (hlength : front.length + back.length ≤ 7)
    (hfront : ∀ g ∈ front, g < 65536) (hback : ∀ g ∈ back, g < 65536) :
    readIpv6Addr (utf8 (fmtSubslice front ++ ("::".toList ++ fmtSubslice back))) =
      some (ofGroups (front ++ List.replicate (8 - front.length - back.length) 0 ++ back), []) := by
  have hcolons : 46 ∉ 58 :: 58 :: utf8 (fmtSubslice back) := by simp [dot_notMem_fmtSubslice]
  have hreadFront := readGroups_fmtSubslice 8 (by omega) hfront (.inr ⟨_, rfl⟩) hcolons
  have hreadBack := readGroups_fmtSubslice_nil (7 - front.length) (by omega) hback
  have hshort : ¬ front.length = 8 := by omega
  have hgiven : ∀ rest : Bytes, readGivenChar 58 (58 :: rest) = some rest := fun rest =>
    readGivenChar_eq_some.mpr rfl
  simp only [utf8_append _ ("::".toList ++ _), utf8_doubleColon, readIpv6Addr, hreadFront,
    if_neg hshort, Bool.false_eq_true, if_false, hgiven, Option.bind_eq_bind, Option.bind_some,
    hreadBack]

/-- A quad behind `::ffff:`. -/
theorem readIpv6Addr_mapped (quad : BitVec 32) :
    readIpv6Addr (utf8 ("::ffff:".toList ++ showIpv4Addr quad)) =
      some (ofGroups [0, 0, 0, 0, 0, 0xffff, quad.toNat / 65536, quad.toNat % 65536], []) := by
  have hquad : readIpv4Addr (utf8 (showIpv4Addr quad)) = some (quad, []) := by
    have hread := readIpv4Addr_show quad (noDigit_nil 10)
    rwa [List.append_nil] at hread
  have htext : utf8 ("::ffff:".toList ++ showIpv4Addr quad) =
      58 :: 58 :: 102 :: 102 :: 102 :: 102 :: 58 :: utf8 (showIpv4Addr quad) := by
    rw [utf8_append]
    rfl
  have hgroups : readGroups 7 true (102 :: 102 :: 102 :: 102 :: 58 :: utf8 (showIpv4Addr quad)) =
      ([0xffff, quad.toNat / 65536, quad.toNat % 65536], true, []) := by
    have hnone : readIpv4Addr (102 :: 102 :: 102 :: 102 :: 58 :: utf8 (showIpv4Addr quad)) = none :=
      rfl
    have hffff : readNumber 16 4 true
        (102 :: 102 :: 102 :: 102 :: 58 :: utf8 (showIpv4Addr quad)) =
          some (0xffff, 58 :: utf8 (showIpv4Addr quad)) :=
      readNumber_showHex (n := 0xffff) (by decide) (noDigit_colon _)
    have hrest : readSeparated false readIpv4Addr (58 :: utf8 (showIpv4Addr quad)) =
        some (quad, []) := hquad
    have hsecond : readGroups 6 false (58 :: utf8 (showIpv4Addr quad)) =
        ([quad.toNat / 65536, quad.toNat % 65536], true, []) := by
      rw [readGroups, hrest]
      rfl
    rw [readGroups, readSeparated_true, readSeparated_true, hnone, ite_self, hffff]
    simp only [hsecond]
  rw [htext]
  have hstart : readGroups 8 true
      (58 :: 58 :: 102 :: 102 :: 102 :: 102 :: 58 :: utf8 (showIpv4Addr quad)) =
        ([], false, 58 :: 58 :: 102 :: 102 :: 102 :: 102 :: 58 :: utf8 (showIpv4Addr quad)) := rfl
  have hgiven : ∀ rest : Bytes, readGivenChar 58 (58 :: rest) = some rest := fun rest =>
    readGivenChar_eq_some.mpr rfl
  simp only [readIpv6Addr, hstart, hgiven, Option.bind_eq_bind, Option.bind_some, hgroups,
    List.length_nil, List.length_cons]
  rfl

/-- **Reading a printed IPv6 address gives it back.** -/
theorem readIpv6Addr_show (bits : BitVec 128) :
    readIpv6Addr (utf8 (showIpv6Addr bits)) = some (bits, []) := by
  rw [showIpv6Addr]
  by_cases hmapped : bits >>> 32 = 0xFFFF
  · rw [if_pos hmapped, readIpv6Addr_mapped]
    have hbits : bits.toNat / 4294967296 = 65535 := by
      have hnat := congrArg BitVec.toNat hmapped
      simpa [Nat.shiftRight_eq_div_pow] using hnat
    refine congrArg (fun bits => some (bits, [])) (BitVec.eq_of_toNat_eq ?_)
    have hlt := bits.isLt
    simp only [ofGroups, List.foldl_cons, List.foldl_nil, BitVec.toNat_ofNat, BitVec.toNat_setWidth]
    omega
  · rw [if_neg hmapped]
    by_cases hrun : 1 < (zeroes (segments bits)).len
    · obtain ⟨hle, heq⟩ := (zeroRun_zeroes (segments bits)).eq_append (by omega)
      simp only [if_pos hrun]
      generalize zeroes (segments bits) = run at hrun hle heq
      rw [length_segments] at hle
      have hfront : ((segments bits).take run.start).length = run.start :=
        List.length_take_of_le (by rw [length_segments]; omega)
      have hback : ((segments bits).drop (run.start + run.len)).length =
          8 - (run.start + run.len) := by
        rw [List.length_drop, length_segments]
      have hzeros : 8 - run.start - (8 - (run.start + run.len)) = run.len := by omega
      rw [readIpv6Addr_compressed (by omega)
        (fun g hg => segments_lt bits g (List.mem_of_mem_take hg))
        (fun g hg => segments_lt bits g (List.mem_of_mem_drop hg)), hfront, hback, hzeros, heq,
        ofGroups_segments]
    · simp only [if_neg hrun]
      have hread := readGroups_fmtSubslice_nil 8 (length_segments bits).le (segments_lt bits)
      simp only [readIpv6Addr, hread, if_pos (length_segments bits), ofGroups_segments]

/-- A printed IPv6 address does not begin with a quad. -/
theorem readIpv4Addr_showIpv6Addr (bits : BitVec 128) :
    readIpv4Addr (utf8 (showIpv6Addr bits)) = none := by
  rw [showIpv6Addr]
  by_cases hmapped : bits >>> 32 = 0xFFFF
  · rw [if_pos hmapped, utf8_append]
    rfl
  · rw [if_neg hmapped]
    refine readIpv4Addr_eq_none ?_
    simp only
    split
    · rw [utf8_append, utf8_doubleColon]
      simp [dot_notMem_fmtSubslice]
    · exact dot_notMem_fmtSubslice (segments bits)

/-! ### The characters of a printed address -/

/-- A digit of either case, a dot, or a colon. -/
def isAddressChar (c : Char) : Bool :=
  ('0' ≤ c && c ≤ '9') || ('a' ≤ c && c ≤ 'f') || ('A' ≤ c && c ≤ 'F') || c == '.' || c == ':'

theorem isAddressChar_digitChar {d : ℕ} (h : d < 16) : isAddressChar d.digitChar = true := by
  have hall : ∀ d : Fin 16, isAddressChar (Nat.digitChar d) = true := by decide
  exact hall ⟨d, h⟩

theorem all_toDigits {radix : ℕ} (hradix : 1 < radix) (hsmall : radix ≤ 16) (n : ℕ) :
    (Nat.toDigits radix n).all isAddressChar = true := by
  obtain ⟨digits, hdigits, hshow⟩ := exists_isDigits hradix n
  rw [hshow, digitChars, List.all_map, List.all_eq_true]
  intro d hd
  exact isAddressChar_digitChar (Nat.lt_of_lt_of_le (hdigits.lt d hd) hsmall)

theorem all_showDec (n : ℕ) : (showDec n).all isAddressChar = true :=
  all_toDigits (by decide) (by decide) n

theorem all_showHex (n : ℕ) : (showHex n).all isAddressChar = true :=
  all_toDigits (by decide) (by decide) n

theorem all_showIpv4Addr (bits : BitVec 32) : (showIpv4Addr bits).all isAddressChar = true := by
  have hdot : isAddressChar '.' = true := by decide
  simp only [showIpv4Addr, List.all_append, List.all_cons, all_showDec, hdot, Bool.and_self]

theorem all_fmtSubslice (groups : List ℕ) : (fmtSubslice groups).all isAddressChar = true := by
  have hcolon : isAddressChar ':' = true := by decide
  have htail : ∀ groups : List ℕ, (colonGroups groups).all isAddressChar = true := by
    intro groups
    rw [colonGroups, List.all_flatMap, List.all_eq_true]
    intro g _
    rw [List.all_cons, hcolon, all_showHex, Bool.and_self]
  cases groups with
  | nil => rfl
  | cons g groups =>
      rw [fmtSubslice_cons, List.all_append, all_showHex, htail, Bool.and_self]

theorem all_showIpAddr (ip : IpAddr) : (showIpAddr ip).all isAddressChar = true := by
  cases ip with
  | v4 bits => exact all_showIpv4Addr bits
  | v6 bits =>
      have hmapped : ("::ffff:".toList).all isAddressChar = true := by decide
      have hcolons : ("::".toList).all isAddressChar = true := by decide
      rw [showIpAddr, showIpv6Addr]
      split
      · rw [List.all_append, hmapped, all_showIpv4Addr, Bool.and_self]
      · simp only
        split
        · rw [List.all_append, List.all_append, all_fmtSubslice, hcolons, all_fmtSubslice,
            Bool.and_self, Bool.and_self]
        · exact all_fmtSubslice (segments bits)

end SimplyIpSync.Net
