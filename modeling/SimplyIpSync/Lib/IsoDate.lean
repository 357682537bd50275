import Mathlib.Data.List.Lex
import Mathlib.Tactic

/-!
# Dates as text

The proleptic Gregorian date of a day, and its ISO 8601 text.  Years of four digits are written as
they are, all others with a sign.  Among the former the texts are ordered as the days
(`dateText_lt_iff`); and as no text of a date begins that of another, what is written behind two
different dates does not matter when they are compared (`dateText_append_lt_iff`).

A day is the number of days since 0000-01-01.
-/

namespace SimplyIpSync.IsoDate

/-! ### Texts in order -/

/-- Texts of one length, with something behind them. -/
theorem append_lt_append_iff {a b : List Char} (hlength : a.length = b.length) (s t : List Char) :
    a ++ s < b ++ t ↔ a < b ∨ a = b ∧ s < t := by
  induction a generalizing b with
  | nil =>
      obtain rfl := List.length_eq_zero_iff.mp hlength.symm
      simp
  | cons c a ih =>
      cases b with
      | nil => cases hlength
      | cons d b =>
          have hrest := ih (Nat.succ.inj hlength)
          simp only [List.cons_append, List.cons_lt_cons_iff, hrest, List.cons.injEq]
          tauto

/-- Texts of which neither begins the other, with something behind them. -/
theorem append_lt_append_iff_of_apart {a b : List Char} (hab : ¬a <+: b) (hba : ¬b <+: a)
    (s t : List Char) : a ++ s < b ++ t ↔ a < b := by
  induction a generalizing b with
  | nil => exact absurd List.nil_prefix hab
  | cons c a ih =>
      cases b with
      | nil => exact absurd List.nil_prefix hba
      | cons d b =>
          simp only [List.cons_append, List.cons_lt_cons_iff]
          by_cases hsame : c = d
          · subst hsame
            rw [ih (fun h => hab ((List.prefix_cons_inj c).mpr h))
              fun h => hba ((List.prefix_cons_inj c).mpr h)]
          · simp [hsame]

/-- **A mark in a text that stands behind nothing but other letters** tells where the rest begins:
of two such texts with rests of one length, neither begins the other unless they are the same. -/
theorem eq_of_marked_prefix {mark : Char} {a b s t : List Char} (ha : mark ∉ a) (hb : mark ∉ b)
    (hlength : s.length = t.length) (h : a ++ mark :: s <+: b ++ mark :: t) :
    a ++ mark :: s = b ++ mark :: t := by
  refine h.eq_of_length ?_
  induction a generalizing b with
  | nil =>
      cases b with
      | nil => simp [hlength]
      | cons d b =>
          obtain ⟨hmark, -⟩ := List.cons_prefix_cons.mp h
          exact absurd (hmark ▸ List.mem_cons_self) hb
  | cons c a ih =>
      cases b with
      | nil =>
          obtain ⟨hmark, -⟩ := List.cons_prefix_cons.mp h
          exact absurd (hmark ▸ List.mem_cons_self) ha
      | cons d b =>
          have hrest := ih (fun hm => ha (List.mem_cons_of_mem c hm))
            (fun hm => hb (List.mem_cons_of_mem d hm)) (List.cons_prefix_cons.mp h).2
          simpa using hrest

/-! ### Digits -/

/-- The last `w` decimal digits of a number. -/
def fixedDigits : ℕ → ℕ → List Char
  | 0, _ => []
  | w + 1, n => fixedDigits w (n / 10) ++ [Nat.digitChar (n % 10)]

@[simp] theorem length_fixedDigits (w n : ℕ) : (fixedDigits w n).length = w := by
  induction w generalizing n with
  | zero => rfl
  | succ w ih => rw [fixedDigits, List.length_append, ih, List.length_singleton]

theorem digitChar_lt_iff : ∀ m < 10, ∀ n < 10, (Nat.digitChar m < Nat.digitChar n ↔ m < n) := by
  decide

/-- **Numbers written with the same number of digits** are ordered as their texts. -/
theorem fixedDigits_lt_iff {w m n : ℕ} (hm : m < 10 ^ w) (hn : n < 10 ^ w) :
    fixedDigits w m < fixedDigits w n ↔ m < n := by
  induction w generalizing m n with
  | zero =>
      have hzero : m = 0 ∧ n = 0 := by omega
      simp [hzero.1, hzero.2, fixedDigits]
  | succ w ih =>
      have hm' : m / 10 < 10 ^ w := Nat.div_lt_of_lt_mul (by rwa [Nat.mul_comm, ← Nat.pow_succ])
      have hn' : n / 10 < 10 ^ w := Nat.div_lt_of_lt_mul (by rwa [Nat.mul_comm, ← Nat.pow_succ])
      have hsame : fixedDigits w (m / 10) = fixedDigits w (n / 10) ↔ m / 10 = n / 10 := by
        refine ⟨fun h => ?_, fun h => by rw [h]⟩
        have hle := mt (ih hm' hn').mpr (by rw [h]; exact List.lt_irrefl _)
        have hge := mt (ih hn' hm').mpr (by rw [h]; exact List.lt_irrefl _)
        omega
      have hlast := digitChar_lt_iff (m % 10) (by omega) (n % 10) (by omega)
      rw [fixedDigits, fixedDigits, append_lt_append_iff (by simp), ih hm' hn', hsame,
        List.cons_lt_cons_iff, hlast]
      simp only [List.not_lt_nil, and_false, or_false]
      omega

theorem fixedDigits_inj {w m n : ℕ} (hm : m < 10 ^ w) (hn : n < 10 ^ w) :
    fixedDigits w m = fixedDigits w n ↔ m = n := by
  refine ⟨fun h => ?_, fun h => by rw [h]⟩
  have hle := mt (fixedDigits_lt_iff hm hn).mpr (by rw [h]; exact List.lt_irrefl _)
  have hge := mt (fixedDigits_lt_iff hn hm).mpr (by rw [h]; exact List.lt_irrefl _)
  omega

/-! ### Years -/

/-- The leap days of the years from 0 to before `y`. -/
def leapDays (y : ℤ) : ℤ := (y + 3) / 4 - (y + 99) / 100 + (y + 399) / 400

/-- The first day of a year. -/
def yearStart (y : ℤ) : ℤ := 365 * y + leapDays y

def IsLeap (y : ℤ) : Prop := y % 4 = 0 ∧ (y % 100 ≠ 0 ∨ y % 400 = 0)

instance (y : ℤ) : Decidable (IsLeap y) := inferInstanceAs (Decidable (_ ∧ _))

theorem yearStart_succ (y : ℤ) :
    yearStart (y + 1) = yearStart y + if IsLeap y then 366 else 365 := by
  by_cases hleap : IsLeap y
  · rw [if_pos hleap]
    simp only [IsLeap] at hleap
    simp only [yearStart, leapDays]
    omega
  · rw [if_neg hleap]
    simp only [IsLeap] at hleap
    simp only [yearStart, leapDays]
    omega

/-- Four centuries have 146 097 days. -/
theorem yearStart_add_cycle (c y : ℤ) : yearStart (c * 400 + y) = c * 146097 + yearStart y := by
  simp only [yearStart, leapDays]
  omega

theorem yearStart_strictMono : StrictMono yearStart := by
  refine strictMono_int_of_lt_succ fun y => ?_
  rw [yearStart_succ]
  split <;> omega

/-- The year of a day in its four centuries: there are 365 days in a year, and one more in some. -/
def yearInCycle (cycle : ℤ) : ℤ :=
  let y := cycle / 365
  if cycle % 365 < leapDays y then y - 1 else y

theorem yearInCycle_spec {cycle : ℤ} (hfirst : 0 ≤ cycle) (hlast : cycle < 146097) :
    yearStart (yearInCycle cycle) ≤ cycle ∧ cycle < yearStart (yearInCycle cycle + 1) := by
  rw [yearInCycle]
  by_cases hshort : cycle % 365 < leapDays (cycle / 365)
  · rw [if_pos hshort, sub_add_cancel]
    simp only [yearStart, leapDays] at hshort ⊢
    omega
  · rw [if_neg hshort]
    simp only [yearStart, leapDays] at hshort ⊢
    omega

/-- The year of a day. -/
def yearOf (n : ℤ) : ℤ := n / 146097 * 400 + yearInCycle (n % 146097)

/-- **A day lies in its year.** -/
theorem yearOf_spec (n : ℤ) : yearStart (yearOf n) ≤ n ∧ n < yearStart (yearOf n + 1) := by
  have hcycle := yearInCycle_spec (Int.emod_nonneg n (by decide))
    (Int.emod_lt_of_pos n (show (0 : ℤ) < 146097 by decide))
  have hsplit := Int.mul_ediv_add_emod n 146097
  rw [yearOf, add_assoc, yearStart_add_cycle, yearStart_add_cycle]
  omega

theorem yearOf_mono : Monotone yearOf := by
  intro m n hle
  by_contra hlt
  have hyears : yearStart (yearOf n + 1) ≤ yearStart (yearOf m) :=
    yearStart_strictMono.monotone (by omega)
  have hm := (yearOf_spec m).1
  have hn := (yearOf_spec n).2
  omega

/-! ### Months and days -/

/-- The day of the year, from 0 on. -/
def ordinal (n : ℤ) : ℕ := (n - yearStart (yearOf n)).toNat

theorem ordinal_lt (n : ℤ) : ordinal n < 366 := by
  have hspec := yearOf_spec n
  rw [yearStart_succ] at hspec
  rw [ordinal]
  split at hspec <;> omega

theorem ordinal_lt_ordinal {m n : ℤ} (hlt : m < n) (hyear : yearOf m = yearOf n) :
    ordinal m < ordinal n := by
  have hm := (yearOf_spec m).1
  rw [ordinal, ordinal, ← hyear]
  omega

/-- The first days of the months in a year, the last entry being the end of it. -/
def monthStarts (leap : Bool) : List ℕ :=
  [0, 31, 59, 90, 120, 151, 181, 212, 243, 273, 304, 334].map fun start =>
    if leap ∧ 31 < start then start + 1 else start

/-- The month of a day of the year: how many months have begun. -/
def monthOf (leap : Bool) (ordinal : ℕ) : ℕ :=
  (monthStarts leap).countP fun start => decide (start ≤ ordinal)

/-- The day of the month of a day of the year. -/
def dayOf (leap : Bool) (ordinal : ℕ) : ℕ :=
  ordinal - (monthStarts leap).getD (monthOf leap ordinal - 1) 0 + 1

theorem monthOf_mono (leap : Bool) : Monotone (monthOf leap) := by
  intro m n hle
  refine List.countP_mono_left fun start _ hstart => ?_
  exact decide_eq_true ((of_decide_eq_true hstart).trans hle)

/-- The month has begun, and has fewer than a hundred days. -/
theorem month_spec : ∀ leap, ∀ o < 366,
    monthOf leap o < 100 ∧ (monthStarts leap).getD (monthOf leap o - 1) 0 ≤ o ∧
      dayOf leap o < 100 := by
  decide +kernel

theorem dayOf_lt_dayOf {leap : Bool} {m n : ℕ} (hlt : m < n) (hn : n < 366)
    (hmonth : monthOf leap m = monthOf leap n) : dayOf leap m < dayOf leap n := by
  have hm := (month_spec leap m (by omega)).2.1
  rw [dayOf, dayOf, ← hmonth]
  omega

/-! ### Dates -/

structure Date where
  year : ℤ
  month : ℕ
  day : ℕ
  deriving DecidableEq, Repr

/-- The date of a day. -/
def dateOf (n : ℤ) : Date where
  year := yearOf n
  month := monthOf (IsLeap (yearOf n)) (ordinal n)
  day := dayOf (IsLeap (yearOf n)) (ordinal n)

theorem dateOf_month_lt (n : ℤ) : (dateOf n).month < 10 ^ 2 := (month_spec _ _ (ordinal_lt n)).1

theorem dateOf_day_lt (n : ℤ) : (dateOf n).day < 10 ^ 2 := (month_spec _ _ (ordinal_lt n)).2.2

/-- Before another date: by the year, in a year by the month, in a month by the day. -/
def Date.Before (a b : Date) : Prop :=
  a.year < b.year ∨ a.year = b.year ∧ (a.month < b.month ∨ a.month = b.month ∧ a.day < b.day)

/-- **Dates come in the order of their days.** -/
theorem dateOf_before_of_lt {m n : ℤ} (hlt : m < n) : (dateOf m).Before (dateOf n) := by
  rcases (yearOf_mono hlt.le).lt_or_eq with hyear | hyear
  · exact .inl hyear
  · have hordinal := ordinal_lt_ordinal hlt hyear
    refine .inr ⟨hyear, ?_⟩
    simp only [dateOf, ← hyear]
    rcases (monthOf_mono (IsLeap (yearOf m)) hordinal.le).lt_or_eq with hmonth | hmonth
    · exact .inl hmonth
    · exact .inr ⟨hmonth, dayOf_lt_dayOf hordinal (ordinal_lt n) hmonth⟩

theorem Date.Before.asymm {a b : Date} (hab : a.Before b) (hba : b.Before a) : False := by
  simp only [Date.Before] at hab hba
  omega

theorem dateOf_before_iff {m n : ℤ} : (dateOf m).Before (dateOf n) ↔ m < n := by
  refine ⟨fun h => ?_, dateOf_before_of_lt⟩
  by_contra hle
  rcases (Int.not_lt.mp hle).lt_or_eq with hlt | rfl
  · exact (dateOf_before_of_lt hlt).asymm h
  · exact h.asymm h

/-! ### The text of a date -/

/-- The year is written without a sign. -/
def FourDigits (y : ℤ) : Prop := 0 ≤ y ∧ y ≤ 9999

instance (y : ℤ) : Decidable (FourDigits y) := inferInstanceAs (Decidable (_ ∧ _))

def yearText (y : ℤ) : List Char :=
  if FourDigits y then fixedDigits 4 y.toNat
  else (if y < 0 then '-' else '+') :: (Nat.toDigits 10 y.natAbs).leftpad 4 '0'

def dateText (date : Date) : List Char :=
  yearText date.year ++ '-' :: (fixedDigits 2 date.month ++ '-' :: fixedDigits 2 date.day)

theorem zero_le_of_mem_fixedDigits {w n : ℕ} {c : Char} (h : c ∈ fixedDigits w n) : '0' ≤ c := by
  have hdigit : ∀ d < 10, '0' ≤ Nat.digitChar d := by decide
  induction w generalizing n with
  | zero => cases h
  | succ w ih =>
      rw [fixedDigits, List.mem_append, List.mem_singleton] at h
      rcases h with hmem | rfl
      · exact ih hmem
      · exact hdigit _ (Nat.mod_lt n (by decide))

/-- A year of four digits begins with a digit. -/
theorem yearText_of_fourDigits {y : ℤ} (hy : FourDigits y) :
    ∃ c rest, yearText y = c :: rest ∧ '0' ≤ c ∧ '-' ∉ rest := by
  rw [yearText, if_pos hy]
  obtain ⟨c, rest, htext⟩ := List.exists_cons_of_length_pos
    (show 0 < (fixedDigits 4 y.toNat).length by simp)
  have hdigits : ∀ d ∈ c :: rest, '0' ≤ d := fun d hd => zero_le_of_mem_fixedDigits (htext ▸ hd)
  refine ⟨c, rest, htext, hdigits c List.mem_cons_self, fun hmem => ?_⟩
  exact absurd (hdigits '-' (List.mem_cons_of_mem c hmem)) (by decide)

/-- A year has no mark behind its first letter. -/
theorem yearText_cases (y : ℤ) : ∃ c rest, yearText y = c :: rest ∧ '-' ∉ rest := by
  by_cases hy : FourDigits y
  · obtain ⟨c, rest, htext, -, hmark⟩ := yearText_of_fourDigits hy
    exact ⟨c, rest, htext, hmark⟩
  · rw [yearText, if_neg hy]
    refine ⟨_, _, rfl, ?_⟩
    rw [List.leftpad, List.mem_append, List.mem_replicate]
    rintro (⟨-, h⟩ | h)
    · exact absurd h (by decide)
    · exact absurd (Nat.isDigit_of_mem_toDigits (by decide) le_rfl h) (by decide)

/-- No text of a date begins that of another. -/
theorem dateText_eq_of_begins {a b : Date} (h : dateText a <+: dateText b) :
    dateText a = dateText b := by
  obtain ⟨c, rest, hyear, hmark⟩ := yearText_cases a.year
  obtain ⟨c', rest', hyear', hmark'⟩ := yearText_cases b.year
  simp only [dateText, hyear, hyear', List.cons_append] at h ⊢
  obtain ⟨hfirst, hrest⟩ := List.cons_prefix_cons.mp h
  rw [hfirst, eq_of_marked_prefix hmark hmark' (by simp) hrest]

/-- The text of a date before the year 0 is the smaller. -/
theorem not_dateText_lt_of_neg {a b : Date} (ha : FourDigits a.year) (hb : b.year < 0) :
    ¬dateText a < dateText b := by
  obtain ⟨c, rest, htext, hdigit, -⟩ := yearText_of_fourDigits ha
  have hsign : ¬FourDigits b.year := fun h => absurd h.1 (by omega)
  rw [dateText, htext, dateText, yearText, if_neg hsign, if_pos hb, List.cons_append,
    List.cons_append, List.cons_lt_cons_iff]
  rintro (hlt | ⟨rfl, -⟩)
  · exact Char.not_lt.mpr (Char.le_trans (by decide) hdigit) hlt
  · exact absurd hdigit (by decide)

/-- **What stands behind two dates** matters only where they are the same. -/
theorem dateText_append_lt_iff (a b : Date) (s t : List Char) :
    dateText a ++ s < dateText b ++ t ↔
      dateText a < dateText b ∨ dateText a = dateText b ∧ s < t := by
  by_cases hsame : dateText a = dateText b
  · rw [append_lt_append_iff (congrArg List.length hsame)]
  · rw [append_lt_append_iff_of_apart (mt dateText_eq_of_begins hsame)
      fun h => hsame (dateText_eq_of_begins h).symm]
    simp [hsame]

theorem yearText_lt_iff {y z : ℤ} (hy : FourDigits y) (hz : FourDigits z) :
    yearText y < yearText z ↔ y < z := by
  obtain ⟨hfirst, hlast⟩ := hy
  obtain ⟨hfirst', hlast'⟩ := hz
  rw [yearText, if_pos ⟨hfirst, hlast⟩, yearText, if_pos ⟨hfirst', hlast'⟩,
    fixedDigits_lt_iff (by omega) (by omega)]
  omega

theorem yearText_inj {y z : ℤ} (hy : FourDigits y) (hz : FourDigits z) :
    yearText y = yearText z ↔ y = z := by
  obtain ⟨hfirst, hlast⟩ := hy
  obtain ⟨hfirst', hlast'⟩ := hz
  rw [yearText, if_pos ⟨hfirst, hlast⟩, yearText, if_pos ⟨hfirst', hlast'⟩,
    fixedDigits_inj (by omega) (by omega)]
  omega

theorem length_yearText {y : ℤ} (hy : FourDigits y) : (yearText y).length = 4 := by
  rw [yearText, if_pos hy, length_fixedDigits]

/-- **Dates of four-digit years** are ordered as their texts. -/
theorem dateText_lt_iff {m n : ℤ} (hm : FourDigits (dateOf m).year)
    (hn : FourDigits (dateOf n).year) :
    dateText (dateOf m) < dateText (dateOf n) ↔ m < n := by
  have hlength : (yearText (dateOf m).year).length = (yearText (dateOf n).year).length :=
    (length_yearText hm).trans (length_yearText hn).symm
  rw [dateText, dateText, append_lt_append_iff hlength, yearText_lt_iff hm hn, yearText_inj hm hn,
    List.cons_lt_cons_self, append_lt_append_iff (by simp),
    fixedDigits_lt_iff (dateOf_month_lt m) (dateOf_month_lt n),
    fixedDigits_inj (dateOf_month_lt m) (dateOf_month_lt n), List.cons_lt_cons_self,
    fixedDigits_lt_iff (dateOf_day_lt m) (dateOf_day_lt n)]
  exact dateOf_before_iff

end SimplyIpSync.IsoDate
