import SimplyIpSync.Lib.Trim
import SimplyIpSync.Text

/-!
# What the inputs of a form hold (`static/app.js`)

A single-line input holds a text without line breaks, and a number input one that spells a number.
The dashboard reads the latter by `parseInt`, which stops at the first character that is no digit:
what the element takes for a thousand, `1e3`, is a 1 to the dashboard.
-/

namespace SimplyIpSync.Dashboard

open SimplyIpSync.Trim

/-! ### Texts -/

/-- White space to `String.prototype.trim`. -/
def isJsSpace (c : Char) : Bool :=
  (Text.isWhiteSpace c && c.toNat != 0x85) || c.toNat == 0xFEFF

/-- `trim`. -/
def jsTrim (s : String) : String := String.ofList (trimBy isJsSpace s.toList)

/-- A text that an input element can hold. -/
def IsLine (s : String) : Prop :=
  ∀ c ∈ s.toList, c ≠ '\n' ∧ c ≠ '\r' ∧ c ≠ Char.ofNat 0

instance (s : String) : Decidable (IsLine s) := List.decidableBAll _ s.toList

/-- What an input element makes of its `value` attribute: line breaks go, and a zero is replaced. -/
def inputValue (s : String) : String :=
  String.ofList (s.toList.filterMap fun c =>
    if c = '\n' ∨ c = '\r' then none
    else if c = Char.ofNat 0 then some (Char.ofNat 0xFFFD)
    else some c)

theorem toList_jsTrim (s : String) : (jsTrim s).toList = trimBy isJsSpace s.toList :=
  String.toList_ofList

theorem jsTrim_jsTrim (s : String) : jsTrim (jsTrim s) = jsTrim s := by
  rw [jsTrim, toList_jsTrim]
  obtain ⟨before, after, hbefore, hafter, htext⟩ := exists_blanks isJsSpace s.toList
  have hagain := trimBy_append hbefore hafter (trimBy isJsSpace s.toList)
  rw [← htext] at hagain
  rw [← hagain]
  rfl

theorem isLine_jsTrim {s : String} (h : IsLine s) : IsLine (jsTrim s) := by
  intro c hc
  rw [toList_jsTrim] at hc
  obtain ⟨before, after, -, -, htext⟩ := exists_blanks isJsSpace s.toList
  refine h c ?_
  rw [htext]
  exact List.mem_append_left _ (List.mem_append_right _ hc)

theorem isLine_inputValue (s : String) : IsLine (inputValue s) := by
  intro c hc
  rw [inputValue, String.toList_ofList] at hc
  obtain ⟨d, -, hd⟩ := List.mem_filterMap.mp hc
  split at hd
  · cases hd
  · rename_i hbreak
    split at hd
    · obtain rfl := Option.some.inj hd
      decide
    · rename_i hzero
      obtain rfl := Option.some.inj hd
      exact ⟨fun h => hbreak (.inl h), fun h => hbreak (.inr h), hzero⟩

theorem inputValue_of_isLine {s : String} (h : IsLine s) : inputValue s = s := by
  have hkept : s.toList.filterMap (fun c =>
      if c = '\n' ∨ c = '\r' then none
      else if c = Char.ofNat 0 then some (Char.ofNat 0xFFFD)
      else some c) = s.toList.filterMap some := by
    refine List.filterMap_congr fun c hc => ?_
    obtain ⟨hn, hr, hzero⟩ := h c hc
    rw [if_neg (not_or.mpr ⟨hn, hr⟩), if_neg hzero]
  rw [inputValue, hkept, List.filterMap_some, String.ofList_toList]

/-! ### Numbers -/

/-- The sign in front of a text, and the rest of it. -/
def signOf : List Char → ℤ × List Char
  | '-' :: rest => (-1, rest)
  | '+' :: rest => (1, rest)
  | text => (1, text)

/-- `parseInt(text, 10)`; `none` is `NaN`. -/
def parseInt (text : String) : Option ℤ :=
  let signed := signOf (text.toList.dropWhile isJsSpace)
  let digits := signed.2.takeWhile Char.isDigit
  if digits = [] then none else some (signed.1 * Nat.ofDigitChars 10 digits 0)

/-- The exponent behind the digits of a number. -/
def exponentOf : List Char → Option ℤ
  | [] => some 0
  | e :: rest =>
      let signed := signOf rest
      if (e = 'e' ∨ e = 'E') ∧ signed.2 ≠ [] ∧ signed.2.all Char.isDigit then
        some (signed.1 * Nat.ofDigitChars 10 signed.2 0)
      else none

/-- The fraction of a number with the text behind it; `none` is a number without a point. -/
def fractionOf : List Char → Option (List Char) × List Char
  | '.' :: rest => (some (rest.takeWhile Char.isDigit), rest.dropWhile Char.isDigit)
  | text => (none, text)

/-- The number that a text without its sign spells. -/
def unsignedValue (text : List Char) : Option ℚ :=
  let whole := text.takeWhile Char.isDigit
  let fraction := fractionOf (text.dropWhile Char.isDigit)
  let digits := fraction.1.getD []
  if (whole ≠ [] ∨ fraction.1.isSome) ∧ fraction.1 ≠ some [] then
    (exponentOf fraction.2).map fun e =>
      (Nat.ofDigitChars 10 whole 0 + Nat.ofDigitChars 10 digits 0 / 10 ^ digits.length) * 10 ^ e
  else none

/-- The number that a number input shows; `none` where the text is no valid number of HTML. -/
def numberValue (text : String) : Option ℚ :=
  match text.toList with
  | '-' :: rest => (unsignedValue rest).map fun x => -x
  | rest => unsignedValue rest

section Decimals

variable {digits : List Char}

theorem isJsSpace_of_isDigit {c : Char} (h : c.isDigit = true) : isJsSpace c = false := by
  have hdigit : 48 ≤ c.toNat ∧ c.toNat ≤ 57 := by
    simpa [Char.isDigit, UInt32.le_iff_toNat_le] using h
  rw [← Bool.not_eq_true]
  simp only [isJsSpace, Text.isWhiteSpace, Bool.or_eq_true, Bool.and_eq_true, decide_eq_true_eq,
    beq_iff_eq, bne_iff_ne]
  omega

theorem signOf_of_isDigit (h : ∀ c ∈ digits, c.isDigit = true) : signOf digits = (1, digits) := by
  cases digits with
  | nil => rfl
  | cons c rest =>
      have hc := h c List.mem_cons_self
      rw [signOf.eq_def]
      split
      · rename_i heq
        obtain ⟨rfl, -⟩ := List.cons.inj heq
        exact absurd hc (by decide)
      · rename_i heq
        obtain ⟨rfl, -⟩ := List.cons.inj heq
        exact absurd hc (by decide)
      · rfl

theorem takeWhile_digits (h : ∀ c ∈ digits, c.isDigit = true) :
    digits.takeWhile Char.isDigit = digits := List.takeWhile_eq_self_iff.mpr h

theorem dropWhile_digits (h : ∀ c ∈ digits, c.isDigit = true) :
    digits.dropWhile Char.isDigit = [] := List.dropWhile_eq_nil_iff.mpr h

end Decimals

theorem toList_toString (d : ℤ) : (toString d).toList =
    if 0 ≤ d then Nat.toDigits 10 d.natAbs else '-' :: Nat.toDigits 10 d.natAbs := by
  rw [Int.toString_eq_repr, Int.repr_eq_if]
  by_cases hd : 0 ≤ d
  · have habs : d.toNat = d.natAbs := by omega
    rw [if_pos hd, if_pos hd, Nat.toList_repr, habs]
  · have habs : (-d).toNat = d.natAbs := by omega
    rw [if_neg hd, if_neg hd, String.toList_append, Nat.toList_repr, habs]
    rfl

theorem isDigit_of_mem_toDigits (n : ℕ) : ∀ c ∈ Nat.toDigits 10 n, c.isDigit = true :=
  fun _ hc => Nat.isDigit_of_mem_toDigits (by decide) le_rfl hc

theorem unsignedValue_toDigits (n : ℕ) : unsignedValue (Nat.toDigits 10 n) = some (n : ℚ) := by
  have hdigits := isDigit_of_mem_toDigits n
  have hne : Nat.toDigits 10 n ≠ [] := by
    rw [← List.length_pos_iff]
    exact Nat.length_toDigits_pos
  simp [unsignedValue, takeWhile_digits hdigits, dropWhile_digits hdigits, fractionOf, exponentOf,
    hne, Nat.ofDigitChars_ten_toDigits]

/-- A printed integer is read as itself. -/
theorem parseInt_toString (d : ℤ) : parseInt (toString d) = some d := by
  have hdigits := isDigit_of_mem_toDigits d.natAbs
  have hne : Nat.toDigits 10 d.natAbs ≠ [] := by
    rw [← List.length_pos_iff]
    exact Nat.length_toDigits_pos
  have hsigned : signOf ((toString d).toList.dropWhile isJsSpace) =
      (if 0 ≤ d then 1 else -1, Nat.toDigits 10 d.natAbs) := by
    rw [toList_toString]
    split
    · have hstart : (Nat.toDigits 10 d.natAbs).dropWhile isJsSpace = Nat.toDigits 10 d.natAbs := by
        rw [List.dropWhile_eq_self_iff]
        intro hpos
        rw [isJsSpace_of_isDigit (hdigits _ (List.getElem_mem hpos))]
        decide
      rw [hstart, signOf_of_isDigit hdigits]
    · rw [List.dropWhile_cons_of_neg (by decide)]
      rfl
  simp only [parseInt, hsigned, takeWhile_digits hdigits, if_neg hne,
    Nat.ofDigitChars_ten_toDigits, Option.some.injEq]
  split <;> omega

theorem numberValue_toString (d : ℤ) : numberValue (toString d) = some (d : ℚ) := by
  have hdigits := isDigit_of_mem_toDigits d.natAbs
  rw [numberValue, toList_toString]
  by_cases hd : 0 ≤ d
  · have habs : ((d.natAbs : ℕ) : ℚ) = (d : ℚ) := by
      rw [← Int.cast_natCast, Int.natAbs_of_nonneg hd]
    rw [if_pos hd]
    split
    · rename_i rest hlist
      exact absurd (hdigits '-' (hlist ▸ List.mem_cons_self)) (by decide)
    · rw [unsignedValue_toDigits, habs]
  · have habs : -((d.natAbs : ℕ) : ℚ) = (d : ℚ) := by
      rw [← Int.cast_natCast, Int.ofNat_natAbs_of_nonpos (by omega), Int.cast_neg, neg_neg]
    rw [if_neg hd]
    show (unsignedValue _).map _ = _
    rw [unsignedValue_toDigits, Option.map_some, habs]

end SimplyIpSync.Dashboard
