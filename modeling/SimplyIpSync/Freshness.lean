import SimplyIpSync.Middleware

/-!
# The freshness window (`validate_timestamp` in `src/middleware.rs`)

The skew of a request is computed in `i64` arithmetic from a header that nobody has authenticated.
Where the clock and the timestamp are `2 ^ 63` seconds apart or more, the arithmetic overflows: a
build with overflow checks panics, and a release build wraps around.

The module ends with the exact condition under which both builds accept what the window admits.
-/

namespace SimplyIpSync.Middleware

open SimplyIpSync.Entities SimplyIpSync.Crypto

/-! ### Two builds -/

/-- What an overflow does: it panics, or the value wraps around. -/
inductive Build
  | checked
  | release
  deriving DecidableEq, Repr

/-- The value fits in an `i64`. -/
def InI64 (x : ℤ) : Prop := -2 ^ 63 ≤ x ∧ x < 2 ^ 63

instance (x : ℤ) : Decidable (InI64 x) := inferInstanceAs (Decidable (_ ∧ _))

/-- `(Utc::now().timestamp() - supplied).abs()`; `none` where it panics. -/
def skew (build : Build) (nowSecs supplied : ℤ) : Option ℤ :=
  match build with
  | .release => some (wrappingAbs (wrapI64 (nowSecs - supplied)))
  | .checked =>
      if InI64 (nowSecs - supplied) ∧ InI64 |nowSecs - supplied| then some |nowSecs - supplied|
      else none

/-- `validate_timestamp` in either build; `none` where it panics. -/
def validateTimestampIn (build : Build) (now : ℤ) (header : Option Bytes) :
    Option (Except AppError Bytes) :=
  match header.filter fun value => value.all isVisible with
  | none => some (.error (.unauthorized "Missing X-Timestamp header"))
  | some value =>
      match parseI64 (trim value) with
      | none => some (.error (.unauthorized "Malformed X-Timestamp header"))
      | some supplied =>
          (skew build (timestamp now) supplied).map fun skew =>
            if skew > maxTimestampSkewSecs then
              .error (.unauthorized "Request timestamp outside the permitted 300s window")
            else .ok (trim value)

/-- In a release build this is `validateTimestamp`. -/
theorem validateTimestampIn_release (now : ℤ) (header : Option Bytes) :
    validateTimestampIn .release now header = some (validateTimestamp now header) := by
  rw [validateTimestampIn, validateTimestamp]
  cases header.filter fun value => value.all isVisible with
  | none => rfl
  | some value =>
      simp only
      cases parseI64 (trim value) with
      | none => rfl
      | some supplied =>
          simp only [skew, Option.map_some, inWindow, decide_eq_true_eq]
          by_cases hskew : wrappingAbs (wrapI64 (timestamp now - supplied)) ≤ maxTimestampSkewSecs
          · rw [if_neg (not_lt.mpr hskew), if_pos hskew]
          · rw [if_pos (not_le.mp hskew), if_neg hskew]

/-! ### The timestamps that are well formed -/

/-- The text is a decimal numeral with an optional sign, of this value. -/
def SignedNumeral (text : Bytes) (value : ℤ) : Prop :=
  ∃ digits : Bytes, digits ≠ [] ∧ (∀ b ∈ digits, isDigit b) ∧
    ((text = digits ∨ text = 43 :: digits) ∧ value = digitsValue digits ∨
      text = 45 :: digits ∧ value = -digitsValue digits)

/-- The header is a string that is, without the blanks around it, a numeral of this `i64`. -/
def Stamped (header : Option Bytes) (ts : ℤ) : Prop :=
  ∃ value, header = some value ∧ value.all isVisible ∧ SignedNumeral (trim value) ts ∧ InI64 ts

theorem parseDigits_eq_some {negative : Bool} {digits : Bytes} {ts : ℤ} :
    parseDigits negative digits = some ts ↔
      digits ≠ [] ∧ (∀ b ∈ digits, isDigit b) ∧
        ts = (if negative then -(digitsValue digits : ℤ) else digitsValue digits) ∧ InI64 ts := by
  simp only [parseDigits, InI64, Option.ite_none_right_eq_some, Option.some.injEq,
    List.all_eq_true]
  constructor
  · rintro ⟨⟨hne, hdigits, hrange⟩, rfl⟩
    exact ⟨hne, hdigits, rfl, hrange⟩
  · rintro ⟨hne, hdigits, rfl, hrange⟩
    exact ⟨⟨hne, hdigits, hrange⟩, rfl⟩

/-- **What `str::parse::<i64>` reads** are the numerals of an `i64`. -/
theorem parseI64_eq_some {text : Bytes} {ts : ℤ} :
    parseI64 text = some ts ↔ SignedNumeral text ts ∧ InI64 ts := by
  have hminus : ¬ isDigit 45 := by decide
  have hplus : ¬ isDigit 43 := by decide
  cases text with
  | nil =>
      refine iff_of_false (by simp [parseI64]) ?_
      rintro ⟨⟨digits, hne, -, (⟨rfl | h, -⟩ | ⟨h, -⟩)⟩, -⟩
      · exact hne rfl
      · cases h
      · cases h
  | cons b rest =>
      rw [parseI64]
      by_cases hb : b = 45
      · subst hb
        rw [if_pos rfl, parseDigits_eq_some, if_pos rfl]
        constructor
        · rintro ⟨hne, hdigits, hts, hrange⟩
          exact ⟨⟨rest, hne, hdigits, .inr ⟨rfl, hts⟩⟩, hrange⟩
        · rintro ⟨⟨digits, hne, hdigits, (⟨rfl | h, -⟩ | ⟨h, hts⟩)⟩, hrange⟩
          · exact absurd (hdigits 45 List.mem_cons_self) hminus
          · exact absurd (List.cons.inj h).1 (by decide)
          · obtain rfl := (List.cons.inj h).2
            exact ⟨hne, hdigits, hts, hrange⟩
      · rw [if_neg hb]
        by_cases hb' : b = 43
        · subst hb'
          rw [if_pos rfl, parseDigits_eq_some]
          constructor
          · rintro ⟨hne, hdigits, hts, hrange⟩
            exact ⟨⟨rest, hne, hdigits, .inl ⟨.inr rfl, hts⟩⟩, hrange⟩
          · rintro ⟨⟨digits, hne, hdigits, (⟨rfl | h, hts⟩ | ⟨h, -⟩)⟩, hrange⟩
            · exact absurd (hdigits 43 List.mem_cons_self) hplus
            · obtain rfl := (List.cons.inj h).2
              exact ⟨hne, hdigits, hts, hrange⟩
            · exact absurd (List.cons.inj h).1 (by decide)
        · rw [if_neg hb', parseDigits_eq_some]
          constructor
          · rintro ⟨hne, hdigits, hts, hrange⟩
            exact ⟨⟨b :: rest, hne, hdigits, .inl ⟨.inl rfl, hts⟩⟩, hrange⟩
          · rintro ⟨⟨digits, hne, hdigits, (⟨rfl | h, hts⟩ | ⟨h, -⟩)⟩, hrange⟩
            · exact ⟨hne, hdigits, hts, hrange⟩
            · exact absurd (List.cons.inj h).1 hb'
            · exact absurd (List.cons.inj h).1 hb

theorem stamped_iff {header : Option Bytes} {ts : ℤ} :
    Stamped header ts ↔ ∃ raw, Supplies header raw ts := by
  constructor
  · rintro ⟨value, hheader, hvisible, hnumeral, hrange⟩
    exact ⟨trim value, value, hheader, hvisible, rfl, parseI64_eq_some.mpr ⟨hnumeral, hrange⟩⟩
  · rintro ⟨raw, value, hheader, hvisible, rfl, hparse⟩
    obtain ⟨hnumeral, hrange⟩ := parseI64_eq_some.mp hparse
    exact ⟨value, hheader, hvisible, hnumeral, hrange⟩

/-- A header has one timestamp. -/
theorem Stamped.unique {header : Option Bytes} {ts ts' : ℤ} (h : Stamped header ts)
    (h' : Stamped header ts') : ts = ts' := by
  obtain ⟨raw, hsupplies⟩ := stamped_iff.mp h
  obtain ⟨raw', hsupplies'⟩ := stamped_iff.mp h'
  exact (hsupplies'.unique hsupplies).2

/-! ### Where the arithmetic is exact -/

/-- The clock and the timestamp are less than `2 ^ 63` seconds apart. -/
def Near (nowSecs ts : ℤ) : Prop := |nowSecs - ts| < 2 ^ 63

theorem inI64_of_near {nowSecs ts : ℤ} :
    Near nowSecs ts ↔ InI64 (nowSecs - ts) ∧ InI64 |nowSecs - ts| := by
  rw [Near, InI64, InI64]
  rcases abs_cases (nowSecs - ts) with ⟨habs, hsign⟩ | ⟨habs, hsign⟩ <;> rw [habs] <;> omega

theorem wrapI64_of_inI64 {x : ℤ} (h : InI64 x) : wrapI64 x = x := by
  obtain ⟨hlow, hhigh⟩ := h
  simp only [wrapI64, Int.bmod]
  omega

/-- Close by, neither build overflows, and both compute the distance. -/
theorem skew_of_near {nowSecs ts : ℤ} (h : Near nowSecs ts) (build : Build) :
    skew build nowSecs ts = some |nowSecs - ts| := by
  obtain ⟨hsub, habs⟩ := inI64_of_near.mp h
  cases build with
  | checked => exact if_pos ⟨hsub, habs⟩
  | release => rw [skew, wrapI64_of_inI64 hsub, wrappingAbs, wrapI64_of_inI64 habs]

/-- Further off, the build with checks panics. -/
theorem skew_of_not_near {nowSecs ts : ℤ} (h : ¬ Near nowSecs ts) :
    skew .checked nowSecs ts = none := by
  rw [inI64_of_near] at h
  exact if_neg h

/-- What the build answers to a header that carries a timestamp. -/
theorem validateTimestampIn_of_stamped {header : Option Bytes} {ts : ℤ} (h : Stamped header ts)
    (build : Build) (now : ℤ) :
    ∃ raw, validateTimestampIn build now header =
      (skew build (timestamp now) ts).map fun skew =>
        if skew > maxTimestampSkewSecs then
          .error (.unauthorized "Request timestamp outside the permitted 300s window")
        else .ok raw := by
  obtain ⟨value, hheader, hvisible, hnumeral, hrange⟩ := h
  have hfilter : (header.filter fun value => value.all isVisible) = some value :=
    Option.filter_eq_some_iff.mpr ⟨hheader, hvisible⟩
  refine ⟨trim value, ?_⟩
  rw [validateTimestampIn, hfilter]
  simp only [parseI64_eq_some.mpr ⟨hnumeral, hrange⟩]

/-- A header without a timestamp is refused in every build. -/
theorem validateTimestampIn_of_not_stamped {header : Option Bytes} (h : ¬ ∃ ts, Stamped header ts)
    (build : Build) (now : ℤ) :
    ∃ e, validateTimestampIn build now header = some (.error e) := by
  rw [validateTimestampIn]
  cases hfilter : header.filter fun value => value.all isVisible with
  | none => exact ⟨_, rfl⟩
  | some value =>
      obtain ⟨hheader, hvisible⟩ := Option.filter_eq_some_iff.mp hfilter
      cases hparse : parseI64 (trim value) with
      | none =>
          simp only [hparse]
          exact ⟨_, rfl⟩
      | some ts =>
          obtain ⟨hnumeral, hrange⟩ := parseI64_eq_some.mp hparse
          exact absurd ⟨ts, value, hheader, hvisible, hnumeral, hrange⟩ h

/-- The header carries a timestamp of the window around the clock. -/
def Fresh (nowSecs : ℤ) (header : Option Bytes) : Prop :=
  ∃ ts, Stamped header ts ∧ |nowSecs - ts| ≤ maxTimestampSkewSecs

/-- Every build answers, and accepts exactly the fresh headers. -/
def ValidatesExactly (now : ℤ) (header : Option Bytes) : Prop :=
  ∀ build, ∃ answer, validateTimestampIn build now header = some answer ∧
    (answer.isOk = true ↔ Fresh (timestamp now) header)

/-- **Exactly when the window is exact:** the timestamp, if the header carries one, is less than
`2 ^ 63` seconds from the clock. -/
theorem validates_exactly_iff (now : ℤ) (header : Option Bytes) :
    ValidatesExactly now header ↔ ∀ ts, Stamped header ts → Near (timestamp now) ts := by
  constructor
  · intro h ts hstamped
    by_contra hfar
    obtain ⟨raw, hraw⟩ := validateTimestampIn_of_stamped hstamped .checked now
    rw [skew_of_not_near hfar, Option.map_none] at hraw
    obtain ⟨answer, hanswer, -⟩ := h .checked
    rw [hraw] at hanswer
    cases hanswer
  · intro h build
    by_cases hsome : ∃ ts, Stamped header ts
    · obtain ⟨ts, hstamped⟩ := hsome
      obtain ⟨raw, hraw⟩ := validateTimestampIn_of_stamped hstamped build now
      rw [skew_of_near (h ts hstamped), Option.map_some] at hraw
      refine ⟨_, hraw, ?_⟩
      have hfresh : Fresh (timestamp now) header ↔ |timestamp now - ts| ≤ maxTimestampSkewSecs := by
        constructor
        · rintro ⟨ts', hstamped', hle⟩
          rwa [hstamped.unique hstamped']
        · exact fun hle => ⟨ts, hstamped, hle⟩
      rw [hfresh]
      by_cases hle : |timestamp now - ts| ≤ maxTimestampSkewSecs
      · rw [if_neg (not_lt.mpr hle)]
        exact iff_of_true rfl hle
      · rw [if_pos (not_le.mp hle)]
        exact iff_of_false (by simp [Except.isOk, Except.toBool]) hle
    · obtain ⟨e, he⟩ := validateTimestampIn_of_not_stamped hsome build now
      refine ⟨_, he, iff_of_false (by simp [Except.isOk, Except.toBool]) ?_⟩
      rintro ⟨ts, hstamped, -⟩
      exact hsome ⟨ts, hstamped⟩

/-- In the year 2027, a timestamp `2 ^ 63` seconds back: a build with overflow checks panics, and a
release build accepts it. -/
theorem ancient_timestamp_accepted :
    validateTimestampIn .checked (1800000000 * nanosPerSec)
        (some (ascii "-9223372035054775808")) = none ∧
      validateTimestampIn .release (1800000000 * nanosPerSec)
        (some (ascii "-9223372035054775808")) = some (.ok (ascii "-9223372035054775808")) ∧
      ¬ Fresh 1800000000 (some (ascii "-9223372035054775808")) ∧
      ¬ ValidatesExactly (1800000000 * nanosPerSec) (some (ascii "-9223372035054775808")) := by
  have hchecked : validateTimestampIn .checked (1800000000 * nanosPerSec)
      (some (ascii "-9223372035054775808")) = none := by
    decide +kernel
  have hstamped : Stamped (some (ascii "-9223372035054775808")) (-9223372035054775808) :=
    stamped_iff.mpr ⟨_, _, rfl, by decide +kernel, rfl, by decide +kernel⟩
  refine ⟨hchecked, ?_, ?_, ?_⟩
  · rw [validateTimestampIn_release]
    decide +kernel
  · rintro ⟨ts, hstamped', hle⟩
    obtain rfl := hstamped.unique hstamped'
    exact absurd hle (by decide)
  · intro h
    obtain ⟨answer, hanswer, -⟩ := h .checked
    rw [hchecked] at hanswer
    cases hanswer

end SimplyIpSync.Middleware
