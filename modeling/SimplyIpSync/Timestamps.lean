import SimplyIpSync.Jobs.ExternalIngestion
import SimplyIpSync.Lib.IsoDate

/-!
# A stored time against a bound one (`Column::Timestamp.lt(threshold)`)

The rows hold a `DateTime<Utc>`, the threshold is bound as a `NaiveDateTime`.  SQLite stores both as
text, the one in the form of RFC 3339 and the other with a space for the `T` and without an offset,
and compares the texts.  The other two compare times; there the threshold arrives in microseconds.

`columnLt_iff` says where this differs from the order of the times.
-/

namespace SimplyIpSync.Timestamps

open SimplyIpSync.Entities SimplyIpSync.IsoDate SimplyIpSync.Jobs.ExternalIngestion

/-! ### The texts on SQLite -/

/-- The UTC day of a time. -/
def utcDay (t : ℤ) : ℤ := t / nanosPerDay + 719528

/-- The date of a time. -/
def utcDate (t : ℤ) : Date := dateOf (utcDay t)

/-- The fraction of a second, in as many digits as it takes: none, three, six or nine. -/
def fractionText (nanos : ℕ) : List Char :=
  if nanos = 0 then []
  else if nanos % 1000000 = 0 then '.' :: fixedDigits 3 (nanos / 1000000)
  else if nanos % 1000 = 0 then '.' :: fixedDigits 6 (nanos / 1000)
  else '.' :: fixedDigits 9 nanos

/-- The time of day. -/
def timeText (t : ℤ) : List Char :=
  let nanos := (t % nanosPerDay).toNat
  let seconds := nanos / 1000000000
  fixedDigits 2 (seconds / 3600) ++ ':' :: fixedDigits 2 (seconds / 60 % 60) ++
    ':' :: fixedDigits 2 (seconds % 60) ++ fractionText (nanos % 1000000000)

/-- What is stored of a `DateTime<Utc>`. -/
def storedText (t : ℤ) : List Char :=
  dateText (utcDate t) ++ 'T' :: (timeText t ++ ['+', '0', '0', ':', '0', '0'])

/-- What is bound for a `NaiveDateTime`. -/
def boundText (t : ℤ) : List Char := dateText (utcDate t) ++ ' ' :: timeText t

/-- **On SQLite only the dates are compared**: on one day the stored text is the greater. -/
theorem storedText_lt_boundText_iff (stamp limit : ℤ) :
    storedText stamp < boundText limit ↔
      dateText (utcDate stamp) < dateText (utcDate limit) := by
  have hmark : ¬ 'T' < ' ' := by decide
  rw [storedText, boundText, dateText_append_lt_iff, List.cons_lt_cons_iff]
  simp [hmark]

/-! ### The comparison -/

/-- 2000-01-01T00:00:00Z, from where PostgreSQL counts. -/
def postgresEpoch : ℤ := 946684800 * nanosPerSec

/-- The microseconds PostgreSQL is sent, cut off towards its epoch. -/
def postgresMicros (t : ℤ) : ℤ := postgresEpoch + (t - postgresEpoch).tdiv 1000 * 1000

/-- The microseconds MySQL is sent. -/
def mySqlMicros (t : ℤ) : ℤ := t / 1000 * 1000

/-- `Column::Timestamp.lt(threshold)`, of a row. -/
def columnLt : DatabaseBackend → ℤ → ℤ → Bool
  | .mySql, stamp, limit => decide (stamp < mySqlMicros limit)
  | .postgres, stamp, limit => decide (stamp < postgresMicros limit)
  | .sqlite, stamp, limit => decide (storedText stamp < boundText limit)

/-- The year of a time is written without a sign. -/
def PlainYear (t : ℤ) : Prop := FourDigits (utcDate t).year

instance (t : ℤ) : Decidable (PlainYear t) := inferInstanceAs (Decidable (FourDigits _))

/-- The comparison goes wrong.  With microseconds it does for a row within the microsecond of the
threshold; on SQLite for one that is older but of the same day, and outside the years of four digits
where the texts of the dates stand in another order than the times. -/
def Misread : DatabaseBackend → ℤ → ℤ → Prop
  | .mySql, stamp, limit => mySqlMicros limit ≤ stamp ∧ stamp < limit
  | .postgres, stamp, limit =>
      postgresMicros limit ≤ stamp ∧ stamp < limit ∨ limit ≤ stamp ∧ stamp < postgresMicros limit
  | .sqlite, stamp, limit =>
      if PlainYear stamp ∧ PlainYear limit then stamp < limit ∧ utcDay stamp = utcDay limit
      else ¬(dateText (utcDate stamp) < dateText (utcDate limit) ↔ stamp < limit)

instance (backend : DatabaseBackend) (stamp limit : ℤ) : Decidable (Misread backend stamp limit) :=
  match backend with
  | .mySql => inferInstanceAs (Decidable (_ ∧ _))
  | .postgres => inferInstanceAs (Decidable (_ ∨ _))
  | .sqlite =>
      inferInstanceAs (Decidable (if PlainYear stamp ∧ PlainYear limit then
        stamp < limit ∧ utcDay stamp = utcDay limit
      else ¬(dateText (utcDate stamp) < dateText (utcDate limit) ↔ stamp < limit)))

theorem mySqlMicros_le (t : ℤ) : mySqlMicros t ≤ t := by
  rw [mySqlMicros]
  omega

theorem utcDay_mono : Monotone utcDay := by
  intro s t hle
  simp only [utcDay, nanosPerDay, nanosPerSec]
  omega

/-- **When the comparison is that of the times.** -/
theorem columnLt_iff {backend : DatabaseBackend} {stamp limit : ℤ} :
    (columnLt backend stamp limit = decide (stamp < limit)) ↔ ¬Misread backend stamp limit := by
  rw [Bool.eq_iff_iff, decide_eq_true_iff]
  cases backend with
  | mySql =>
      have hle := mySqlMicros_le limit
      simp only [columnLt, Misread, decide_eq_true_iff]
      omega
  | postgres =>
      simp only [columnLt, Misread, decide_eq_true_iff]
      omega
  | sqlite =>
      simp only [columnLt, Misread, decide_eq_true_iff, storedText_lt_boundText_iff]
      split
      · rename_i hplain
        rw [utcDate, utcDate, dateText_lt_iff hplain.1 hplain.2]
        have hmono : limit ≤ stamp → utcDay limit ≤ utcDay stamp := fun h => utcDay_mono h
        have hmono' : stamp ≤ limit → utcDay stamp ≤ utcDay limit := fun h => utcDay_mono h
        omega
      · exact not_not.symm

theorem postgresMicros_le {t : ℤ} : postgresMicros t ≤ max t postgresEpoch := by
  rw [postgresMicros]
  rcases le_total postgresEpoch t with hle | hle
  · have hcut := Int.mul_tdiv_self_le (k := 1000) (show 0 ≤ t - postgresEpoch by omega)
    omega
  · have hcut := Int.tdiv_nonneg (show 0 ≤ postgresEpoch - t by omega) (show (0 : ℤ) ≤ 1000 by decide)
    have hneg : (t - postgresEpoch).tdiv 1000 = -(postgresEpoch - t).tdiv 1000 := by
      rw [← Int.neg_tdiv, neg_sub]
    omega

/-- **No backend finds a time of 2000 to 9999 older than it is.** -/
theorem not_misread_of_le {backend : DatabaseBackend} {stamp limit : ℤ}
    (hfirst : 2000 ≤ (utcDate stamp).year) (hlast : (utcDate stamp).year ≤ 9999)
    (hle : limit ≤ stamp) : ¬Misread backend stamp limit := by
  have hepoch : postgresEpoch ≤ stamp := by
    by_contra hlt
    have hday : utcDay stamp ≤ utcDay (postgresEpoch - 1) := utcDay_mono (by omega)
    have hyear : (utcDate stamp).year ≤ yearOf (utcDay (postgresEpoch - 1)) := yearOf_mono hday
    have hbefore : yearOf (utcDay (postgresEpoch - 1)) = 1999 := by decide +kernel
    omega
  have hplain : PlainYear stamp := ⟨by omega, hlast⟩
  cases backend with
  | mySql =>
      simp only [Misread]
      omega
  | postgres =>
      have hsent := @postgresMicros_le limit
      simp only [Misread]
      omega
  | sqlite =>
      simp only [Misread]
      split
      · omega
      · rename_i hodd
        have hyear : (utcDate limit).year ≤ (utcDate stamp).year := yearOf_mono (utcDay_mono hle)
        have hneg : (utcDate limit).year < 0 := by
          by_contra hpos
          exact hodd ⟨hplain, by omega, by omega⟩
        have hsmaller := not_dateText_lt_of_neg hplain hneg
        exact not_not.mpr (iff_of_false hsmaller (by omega))

end SimplyIpSync.Timestamps
