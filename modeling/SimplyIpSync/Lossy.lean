import SimplyIpSync.Text

/-!
# Lossy decoding and line breaks

`from_utf8_lossy` has one rule for all bytes: it takes off a character, or the part of one that must
be replaced, and goes on behind it.  A line break is neither a continuation byte nor part of a
longer character, so it cuts every text in two that are decoded apart; and for a reader that trims
its lines `lines` cuts there too.
-/

namespace SimplyIpSync.Text

open SimplyIpSync.Crypto

/-! ### Bytes -/

theorem between_iff (low high b : UInt8) :
    (decide (low ≤ b) && decide (b < high)) = true ↔
      low.toNat ≤ b.toNat ∧ b.toNat < high.toNat := by
  rw [Bool.and_eq_true, decide_eq_true_eq, decide_eq_true_eq, UInt8.le_iff_toNat_le,
    UInt8.lt_iff_toNat_lt]

/-- A byte past a range. -/
theorem not_between {low high b : UInt8} (h : high.toNat ≤ b.toNat) :
    ¬ (decide (low ≤ b) && decide (b < high)) = true := by
  rw [between_iff]
  exact fun hb => absurd hb.2 (not_lt.mpr h)

theorem not_isAscii {b : UInt8} (h : 0x80 ≤ b.toNat) : ¬ b < 0x80 := by
  rw [UInt8.lt_iff_toNat_lt]
  exact not_lt.mpr h

theorem isContinuation_iff (b : UInt8) :
    isContinuation b = true ↔ 0x80 ≤ b.toNat ∧ b.toNat < 0xC0 := between_iff 0x80 0xC0 b

/-- A second byte is a continuation byte, from `low` on after the first byte `x` and below `high`
after the first byte `y`. -/
theorem second_iff {x y low high : UInt8} (hxy : x ≠ y) (hlow : 0x80 ≤ low.toNat)
    (hhigh : high.toNat ≤ 0xC0) (first second : UInt8) :
    (if first = x then decide (low ≤ second) && decide (second < 0xC0)
      else if first = y then decide (0x80 ≤ second) && decide (second < high)
      else isContinuation second) = true ↔
    (0x80 ≤ second.toNat ∧ second.toNat < 0xC0) ∧
      (first.toNat = x.toNat → low.toNat ≤ second.toNat) ∧
      (first.toNat = y.toNat → second.toNat < high.toNat) := by
  rw [UInt8.toNat_inj, UInt8.toNat_inj]
  by_cases hx : first = x
  · subst hx
    rw [if_pos rfl, between_iff]
    simp only [true_implies, hxy, false_implies, and_true]
    show low.toNat ≤ second.toNat ∧ second.toNat < 0xC0 ↔ _
    omega
  · rw [if_neg hx]
    by_cases hy : first = y
    · subst hy
      rw [if_pos rfl, between_iff]
      simp only [hx, true_implies, false_implies, true_and]
      show 0x80 ≤ second.toNat ∧ second.toNat < high.toNat ↔ _
      omega
    · rw [if_neg hy, isContinuation_iff]
      simp only [hx, hy, false_implies, and_true]

theorem isSecondOfThree_iff (first second : UInt8) : isSecondOfThree first second = true ↔
    (0x80 ≤ second.toNat ∧ second.toNat < 0xC0) ∧ (first.toNat = 0xE0 → 0xA0 ≤ second.toNat) ∧
      (first.toNat = 0xED → second.toNat < 0xA0) :=
  second_iff (x := 0xE0) (y := 0xED) (by decide) (by decide) (by decide) first second

theorem isSecondOfFour_iff (first second : UInt8) : isSecondOfFour first second = true ↔
    (0x80 ≤ second.toNat ∧ second.toNat < 0xC0) ∧ (first.toNat = 0xF0 → 0x90 ≤ second.toNat) ∧
      (first.toNat = 0xF4 → second.toNat < 0x90) :=
  second_iff (x := 0xF0) (y := 0xF4) (by decide) (by decide) (by decide) first second

/-! ### One character -/

section

variable {first : UInt8} (rest : Bytes)

theorem lossyStep_one (h : first.toNat < 0x80) :
    lossyStep first rest = (Char.ofNat first.toNat, rest) := by
  unfold lossyStep
  rw [if_pos (UInt8.lt_iff_toNat_lt.mpr h)]

theorem lossyStep_two (hlow : 0xC2 ≤ first.toNat) (hhigh : first.toNat < 0xE0) {b : UInt8}
    (hb : isContinuation b = true) :
    lossyStep first (b :: rest) = (Char.ofNat (first.toNat % 32 * 64 + low6 b), rest) := by
  rw [lossyStep, if_neg (not_isAscii (by omega)),
    if_pos ((between_iff 0xC2 0xE0 first).mpr ⟨hlow, hhigh⟩)]
  simp only [hb, if_true]

theorem lossyStep_three (hlow : 0xE0 ≤ first.toNat) (hhigh : first.toNat < 0xF0) {b c : UInt8}
    (hb : isSecondOfThree first b = true) (hc : isContinuation c = true) :
    lossyStep first (b :: c :: rest) =
      (Char.ofNat ((first.toNat % 16 * 64 + low6 b) * 64 + low6 c), rest) := by
  have htwo : ¬ (decide (0xC2 ≤ first) && decide (first < 0xE0)) = true := not_between hlow
  rw [lossyStep, if_neg (not_isAscii (by omega)), if_neg htwo,
    if_pos ((between_iff 0xE0 0xF0 first).mpr ⟨hlow, hhigh⟩)]
  simp only [hb, hc, if_true]

theorem lossyStep_four (hlow : 0xF0 ≤ first.toNat) (hhigh : first.toNat < 0xF5) {b c d : UInt8}
    (hb : isSecondOfFour first b = true) (hc : isContinuation c = true)
    (hd : isContinuation d = true) :
    lossyStep first (b :: c :: d :: rest) =
      (Char.ofNat (((first.toNat % 8 * 64 + low6 b) * 64 + low6 c) * 64 + low6 d), rest) := by
  have htwo : ¬ (decide (0xC2 ≤ first) && decide (first < 0xE0)) = true :=
    not_between (le_trans (by decide) hlow)
  have hthree : ¬ (decide (0xE0 ≤ first) && decide (first < 0xF0)) = true := not_between hlow
  rw [lossyStep, if_neg (not_isAscii (by omega)), if_neg htwo, if_neg hthree,
    if_pos ((between_iff 0xF0 0xF5 first).mpr ⟨hlow, hhigh⟩)]
  simp only [hb, hc, hd, if_true]

end

theorem toNat_ofNat {n : ℕ} (h : n < 256) : (UInt8.ofNat n).toNat = n := by
  rw [UInt8.toNat_ofNat']
  omega

/-- **The decoder takes off an encoded character.** -/
theorem lossyStep_utf8EncodeChar (c : Char) (tail : Bytes) :
    ∃ first rest, String.utf8EncodeChar c = first :: rest ∧
      lossyStep first (rest ++ tail) = (c, tail) := by
  have hvalid : c.toNat < 0xD800 ∨ (0xDFFF < c.toNat ∧ c.toNat < 0x110000) := c.valid
  have hback : ∀ n, n = c.toNat → Char.ofNat n = c := by
    rintro n rfl
    exact Char.ofNat_toNat c
  have hv : c.val.toNat = c.toNat := rfl
  rw [String.utf8EncodeChar]
  simp only [hv]
  by_cases hone : c.toNat ≤ 0x7f
  · rw [if_pos hone]
    refine ⟨_, _, rfl, ?_⟩
    have hfirst := toNat_ofNat (n := c.toNat) (by omega)
    rw [List.nil_append, lossyStep_one tail (by omega), hback _ hfirst]
  rw [if_neg hone]
  by_cases htwo : c.toNat ≤ 0x7ff
  · rw [if_pos htwo]
    refine ⟨_, _, rfl, ?_⟩
    have hfirst := toNat_ofNat (n := c.toNat / 64 % 0x20 + 0xc0) (by omega)
    have hb := toNat_ofNat (n := c.toNat % 0x40 + 0x80) (by omega)
    rw [List.cons_append, List.nil_append, lossyStep_two tail (by omega) (by omega)
      ((isContinuation_iff _).mpr (by omega)), hback]
    rw [low6, hfirst, hb]
    omega
  rw [if_neg htwo]
  by_cases hthree : c.toNat ≤ 0xffff
  · rw [if_pos hthree]
    refine ⟨_, _, rfl, ?_⟩
    have hfirst := toNat_ofNat (n := c.toNat / 4096 % 0x10 + 0xe0) (by omega)
    have hb := toNat_ofNat (n := c.toNat / 64 % 0x40 + 0x80) (by omega)
    have hc := toNat_ofNat (n := c.toNat % 0x40 + 0x80) (by omega)
    rw [List.cons_append, List.cons_append, List.nil_append, lossyStep_three tail (by omega)
      (by omega) ((isSecondOfThree_iff _ _).mpr (by omega)) ((isContinuation_iff _).mpr (by omega)),
      hback]
    rw [low6, low6, hfirst, hb, hc]
    omega
  · rw [if_neg hthree]
    refine ⟨_, _, rfl, ?_⟩
    have hfirst := toNat_ofNat (n := c.toNat / 262144 % 0x08 + 0xf0) (by omega)
    have hb := toNat_ofNat (n := c.toNat / 4096 % 0x40 + 0x80) (by omega)
    have hc := toNat_ofNat (n := c.toNat / 64 % 0x40 + 0x80) (by omega)
    have hd := toNat_ofNat (n := c.toNat % 0x40 + 0x80) (by omega)
    rw [List.cons_append, List.cons_append, List.cons_append, List.nil_append,
      lossyStep_four tail (by omega) (by omega) ((isSecondOfFour_iff _ _).mpr (by omega))
        ((isContinuation_iff _).mpr (by omega)) ((isContinuation_iff _).mpr (by omega)), hback]
    rw [low6, low6, low6, hfirst, hb, hc, hd]
    omega

/-! ### All bytes -/

/-- A step leaves no more than it was given. -/
theorem length_lossyStep (first : UInt8) (rest : Bytes) :
    (lossyStep first rest).2.length ≤ rest.length := by
  unfold lossyStep
  split
  · exact le_rfl
  split
  · -- two bytes
    split
    · split <;> simp
    · simp
  split
  · -- three bytes
    split
    · split
      · split
        · simp only [List.length_cons]
          omega
        · simp
      · simp
    · split <;> simp
    · simp
  split
  · -- four bytes
    split
    · split
      · split
        · split
          · simp only [List.length_cons]
            omega
          · simp only [List.length_cons]
            omega
        · simp
      · simp
    · split
      · split <;> simp
      · simp
    · split <;> simp
    · simp
  · exact le_rfl

/-- **A break is never taken off with what comes before it:** it follows no first byte. -/
theorem lossyStep_append {b : UInt8} (hb : b.toNat < 0x80) (first : UInt8) (rest tail : Bytes) :
    lossyStep first (rest ++ b :: tail) =
      ((lossyStep first rest).1, (lossyStep first rest).2 ++ b :: tail) := by
  have hcontinuation : isContinuation b = false := by
    rw [← Bool.not_eq_true, isContinuation_iff]
    omega
  have hthree : isSecondOfThree first b = false := by
    rw [← Bool.not_eq_true, isSecondOfThree_iff]
    omega
  have hfour : isSecondOfFour first b = false := by
    rw [← Bool.not_eq_true, isSecondOfFour_iff]
    omega
  unfold lossyStep
  split
  · rfl
  split
  · cases rest with
    | nil => simp only [List.nil_append, hcontinuation, Bool.false_eq_true, if_false]
    | cons x rest =>
        rw [List.cons_append]
        simp only
        split <;> rfl
  split
  · match rest with
    | [] => cases tail <;> simp [hthree]
    | [x] =>
        simp only [List.cons_append, List.nil_append, hcontinuation, Bool.false_eq_true, if_false]
        split <;> rfl
    | x :: y :: rest =>
        simp only [List.cons_append]
        split
        · split <;> rfl
        · rfl
  split
  · match rest with
    | [] =>
        match tail with
        | [] => simp [hfour]
        | [u] => simp [hfour]
        | u :: v :: tail => simp [hfour]
    | [x] =>
        cases tail with
        | nil =>
            simp only [List.cons_append, List.nil_append, hcontinuation, Bool.false_eq_true,
              if_false]
            split <;> rfl
        | cons u tail =>
            simp only [List.cons_append, List.nil_append, hcontinuation, Bool.false_eq_true,
              if_false]
            split <;> rfl
    | [x, y] =>
        simp only [List.cons_append, List.nil_append, hcontinuation, Bool.false_eq_true, if_false]
        split
        · split <;> rfl
        · rfl
    | x :: y :: z :: rest =>
        simp only [List.cons_append]
        split
        · split
          · split <;> rfl
          · rfl
        · rfl
  · rfl

theorem lossyFrom_cons (fuel : ℕ) (first : UInt8) (rest : Bytes) :
    lossyFrom (fuel + 1) (first :: rest) =
      (lossyStep first rest).1 :: lossyFrom fuel (lossyStep first rest).2 := rfl

/-- The decoder, with as much fuel as there are bytes. -/
def lossy (bytes : Bytes) : List Char := lossyFrom bytes.length bytes

theorem lossyFrom_of_le {fuel fuel' : ℕ} {bytes : Bytes} (h : bytes.length ≤ fuel)
    (h' : bytes.length ≤ fuel') : lossyFrom fuel bytes = lossyFrom fuel' bytes := by
  induction fuel generalizing fuel' bytes with
  | zero =>
      obtain rfl := List.eq_nil_of_length_eq_zero (Nat.le_zero.mp h)
      rw [lossyFrom, lossyFrom]
  | succ fuel ih =>
      cases bytes with
      | nil => rw [lossyFrom, lossyFrom]
      | cons first rest =>
          obtain ⟨fuel', rfl⟩ := Nat.exists_eq_succ_of_ne_zero (Nat.ne_zero_of_lt h')
          have hlength := length_lossyStep first rest
          rw [List.length_cons] at h h'
          have hrest : lossyFrom fuel (lossyStep first rest).2 =
              lossyFrom fuel' (lossyStep first rest).2 := ih (by omega) (by omega)
          rw [lossyFrom_cons, lossyFrom_cons, hrest]

theorem lossy_nil : lossy [] = [] := rfl

theorem lossy_cons (first : UInt8) (rest : Bytes) :
    lossy (first :: rest) = (lossyStep first rest).1 :: lossy (lossyStep first rest).2 := by
  rw [lossy, List.length_cons, lossyFrom_cons, lossy,
    lossyFrom_of_le (length_lossyStep first rest) le_rfl]

/-- Decoding goes on behind a break as if it began there. -/
theorem lossy_append {b : UInt8} (hb : b.toNat < 0x80) (front tail : Bytes) :
    lossy (front ++ b :: tail) = lossy front ++ Char.ofNat b.toNat :: lossy tail := by
  induction hn : front.length using Nat.strong_induction_on generalizing front with
  | _ n ih =>
      cases front with
      | nil => rw [List.nil_append, lossy_cons, lossyStep_one tail hb, lossy_nil, List.nil_append]
      | cons first rest =>
          have hlength := length_lossyStep first rest
          rw [List.length_cons] at hn
          rw [List.cons_append, lossy_cons, lossyStep_append hb, lossy_cons, List.cons_append,
            ih _ (by omega) _ rfl]

theorem lossy_utf8 (text : List Char) : lossy (utf8 text) = text := by
  induction text with
  | nil => rfl
  | cons c text ih =>
      obtain ⟨first, rest, hencode, hstep⟩ := lossyStep_utf8EncodeChar c (utf8 text)
      rw [utf8, List.flatMap_cons, hencode, ← utf8, List.cons_append, lossy_cons, hstep, ih]

/-- **One rule for all bytes:** where the bytes are valid the decoder finds their characters. -/
theorem fromUtf8Lossy_eq (bytes : Bytes) : fromUtf8Lossy bytes = lossy bytes := by
  rw [fromUtf8Lossy]
  cases hdecode : (ByteArray.mk bytes.toArray).utf8Decode? with
  | none => rfl
  | some chars =>
      have hsome : (ByteArray.mk bytes.toArray).utf8Decode?.isSome := by rw [hdecode]; rfl
      obtain ⟨text, htext⟩ := ByteArray.isSome_utf8Decode?_iff.mp hsome
      have hbytes : bytes = utf8 text := by
        rw [← byteArray_utf8] at htext
        exact congrArg (fun b => b.data.toList) htext
      rw [htext, List.utf8Decode?_utf8Encode] at hdecode
      obtain rfl := Option.some.inj hdecode
      rw [hbytes, lossy_utf8]

/-- **A line break cuts the decoding in two.** -/
theorem fromUtf8Lossy_lineBreak (a b : Bytes) :
    fromUtf8Lossy (a ++ 10 :: b) = fromUtf8Lossy a ++ '\n' :: fromUtf8Lossy b := by
  rw [fromUtf8Lossy_eq, fromUtf8Lossy_eq, fromUtf8Lossy_eq, lossy_append (by decide)]
  rfl

/-! ### Lines -/

/-- A reader of lines to which a carriage return at the end means nothing, and an empty line
either, reads the lines on both sides of a line break. -/
theorem flatMap_lines_append {α : Type*} {read : List Char → List α}
    (hcr : ∀ line, read (stripCr line) = read line) (hempty : read [] = [])
    (front back : List Char) : (lines (front ++ '\n' :: back)).flatMap read =
      (lines front).flatMap read ++ (lines back).flatMap read := by
  have hfrom : ∀ line, (linesFrom line (front ++ '\n' :: back)).flatMap read =
      (linesFrom line front).flatMap read ++ (lines back).flatMap read := by
    induction front with
    | nil =>
        intro line
        have hstep : linesFrom line ('\n' :: back) = stripCr line :: lines back := by
          rw [linesFrom, if_pos rfl, lines]
        rw [List.nil_append, hstep, List.flatMap_cons, hcr, linesFrom]
        congr 1
        split
        case isTrue hline => rw [hline, hempty, List.flatMap_nil]
        case isFalse => rw [List.flatMap_singleton]
    | cons c front ih =>
        intro line
        rw [List.cons_append, linesFrom, linesFrom]
        split
        case isTrue => rw [List.flatMap_cons, List.flatMap_cons, ih, List.append_assoc]
        case isFalse => exact ih (line ++ [c])
  exact hfrom []

end SimplyIpSync.Text
