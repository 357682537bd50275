import SimplyIpSync.Jobs.Aggregation
import SimplyIpSync.Jobs.FullReplace
import SimplyIpSync.Api.Resources

/-!
# The age limits the API accepts

The API takes any positive `max_age_days` of 32 bits; the temporal filter subtracts that many days
from the clock, and the range of dates ends about 264 000 years before our time.  A limit beyond
that panics in every run whose feed gives records, before the run writes its log row.
-/

namespace SimplyIpSync.Jobs.AgeLimit

open SimplyIpSync.Entities SimplyIpSync.Storage SimplyIpSync.Store SimplyIpSync.Client
open SimplyIpSync.Bogon SimplyIpSync.Api SimplyIpSync.Jobs.ExternalIngestion
open SimplyIpSync.Jobs.Aggregation

variable {W : Type*}

/-- The days from the first date to the clock, in full. -/
def daysOfDates (now : ℤ) : ℤ := (timestamp now - minDateTimeSecs) / 86400

/-- The limit does not reach back before the first date. -/
def Reachable (now : ℤ) (maxAgeDays : Option ℤ) : Prop :=
  ∀ days ∈ maxAgeDays, days ≤ daysOfDates now

instance reachableDecidable (now : ℤ) (maxAgeDays : Option ℤ) :
    Decidable (Reachable now maxAgeDays) :=
  inferInstanceAs (Decidable (∀ days ∈ maxAgeDays, _))

theorem validateMaxAgeDays_eq_ok {maxAgeDays : Option ℤ} :
    validateMaxAgeDays maxAgeDays = .ok () ↔ ∀ days ∈ maxAgeDays, 0 < days := by
  cases maxAgeDays with
  | none => simp [validateMaxAgeDays, require]
  | some days => simp [validateMaxAgeDays, require]

/-- Going back whole days takes that many days off the seconds. -/
theorem timestamp_sub_days (now days : ℤ) :
    timestamp (now - days * nanosPerDay) = timestamp now - days * 86400 := by
  have hsplit : now - days * nanosPerDay = now + -(days * 86400) * nanosPerSec := by
    rw [nanosPerDay]
    ring
  rw [timestamp, hsplit, Int.add_mul_ediv_right _ _ (by decide), timestamp]
  ring

/-- **When an accepted limit stays within the dates.** -/
theorem withinDates_iff {now : ℤ} (hnow : IsDateTimeSec (timestamp now)) {maxAgeDays : Option ℤ}
    (hvalid : validateMaxAgeDays maxAgeDays = .ok ()) :
    WithinDates now maxAgeDays ↔ Reachable now maxAgeDays := by
  rw [validateMaxAgeDays_eq_ok] at hvalid
  refine forall₂_congr fun days hdays => ?_
  have hpos : 0 < days := hvalid days hdays
  have hlast : timestamp now ≤ maxDateTimeSecs := hnow.2
  rw [timestamp_sub_days, IsDateTimeSec, daysOfDates, Int.le_ediv_iff_mul_le (by decide)]
  omega

/-- The filter ends, and keeps in order the records that have no date or one within the limit. -/
def FiltersExactly (now : ℤ) (records : List ParsedRecord) (maxAgeDays : Option ℤ) : Prop :=
  applyTemporalFilter now records maxAgeDays =
    some (records.filter fun r => decide (Current now maxAgeDays r))

theorem filtersExactly_iff {now : ℤ} {records : List ParsedRecord} {maxAgeDays : Option ℤ} :
    FiltersExactly now records maxAgeDays ↔ WithinDates now maxAgeDays := by
  rw [FiltersExactly, applyTemporalFilter_eq]
  by_cases hwithin : WithinDates now maxAgeDays
  · rw [if_pos hwithin]
    exact iff_of_true rfl hwithin
  · rw [if_neg hwithin]
    exact iff_of_false (fun h => by cases h) hwithin

/-! ### The run -/

/-- The run ends with a summary, and its log row is the last one of the table. -/
def ReachesLogRow (http : Http W) (parse : String → Option IpNetwork) (maxRetries : ℕ)
    (fetch : ExternalSource → FetchOutcome) (clock : ℕ → ℤ) (startedAt : ℤ)
    (group : DestinationGroup) (db : Db) (w : W) : Prop :=
  ∃ summary db' w',
    run http parse maxRetries fetch clock startedAt group.id db w = some (.ok summary, db', w') ∧
      db'.syncLogs =
        (writeSyncLog db "EXTERNAL_FEED" group.id group.name summary startedAt).syncLogs

theorem reachesLogRow_iff (http : Http W) (parse : String → Option IpNetwork) (maxRetries : ℕ)
    (fetch : ExternalSource → FetchOutcome) (clock : ℕ → ℤ) (startedAt : ℤ)
    {group : DestinationGroup} {db : Db} (hgroup : db.destinationGroups.find? group.id = some group)
    (w : W) :
    ReachesLogRow http parse maxRetries fetch clock startedAt group db w ↔
      (aggregate parse group (feedsOf db group.id) fetch clock).isSome := by
  rw [ReachesLogRow, run]
  simp only [hgroup, execute]
  cases aggregate parse group (feedsOf db group.id) fetch clock with
  | none => exact iff_of_false (by simp) (by simp)
  | some agg => exact iff_of_true ⟨_, _, _, rfl, rfl⟩ rfl

/-- **Exactly when an accepted age limit works.**  The filter is exact if and only if the limit
does not reach back before the first date, and a run writes its log row if and only if this holds
for every feed that gave records. -/
theorem age_limit_works_iff (http : Http W) (parse : String → Option IpNetwork) (maxRetries : ℕ)
    (fetch : ExternalSource → FetchOutcome) (clock : ℕ → ℤ)
    (hclock : ∀ i, IsDateTimeSec (timestamp (clock i))) (startedAt : ℤ) (group : DestinationGroup)
    (db : Db) (hgroup : db.destinationGroups.find? group.id = some group)
    (hnames : ((feedsOf db group.id).map ExternalSource.name).Nodup)
    (hvalid : ∀ feed ∈ feedsOf db group.id, validateMaxAgeDays feed.maxAgeDays = .ok ()) (w : W) :
    (∀ now records maxAgeDays, IsDateTimeSec (timestamp now) →
      validateMaxAgeDays maxAgeDays = .ok () →
        (FiltersExactly now records maxAgeDays ↔ Reachable now maxAgeDays)) ∧
    (ReachesLogRow http parse maxRetries fetch clock startedAt group db w ↔
      ∀ feed ∈ feedsOf db group.id, (recordsOf fetch feed).isSome →
        Reachable (readingOf (feedsOf db group.id) clock feed) feed.maxAgeDays) := by
  constructor
  · intro now records maxAgeDays hnow haccepted
    rw [filtersExactly_iff, withinDates_iff hnow haccepted]
  · have hwithin : AllWithinDates fetch (readingOf (feedsOf db group.id) clock)
        (feedsOf db group.id) ↔ ∀ feed ∈ feedsOf db group.id, (recordsOf fetch feed).isSome →
          Reachable (readingOf (feedsOf db group.id) clock feed) feed.maxAgeDays :=
      forall₂_congr fun feed hfeed =>
        imp_congr_right fun _ => withinDates_iff (hclock _) (hvalid feed hfeed)
    rw [reachesLogRow_iff http parse maxRetries fetch clock startedAt hgroup, ← hwithin]
    exact aggregate_isSome_iff parse group fetch hnames clock

/-- A group with one feed under this age limit. -/
def datedDb (days : ℤ) : Db where
  vaultEndpoints := .empty
  vaultSyncTasks := .empty
  vaultSyncTaskTargets := .empty
  destinationGroups := ⟨[perimeterGroup], List.nodup_singleton _⟩
  destinationGroupVaultTargets := .empty
  externalSources :=
    ⟨[⟨11, 5, "A", "https://a", "REGEX_LINE", none, some days, none⟩], List.nodup_singleton _⟩
  syncLogs := []

/-- In the year 2027, with a limit of thirty days. -/
theorem age_limit_works_of_thirty :
    ReachesLogRow oneAtATime parsePublic 3 fetchBoth (fun _ => 1800000000 * nanosPerSec) 1000
        perimeterGroup (datedDb 30) 0 ∧
      FiltersExactly (1800000000 * nanosPerSec) [⟨"8.8.8.8/32", some 0⟩] (some 30) := by
  obtain ⟨hfilter, hrun⟩ := age_limit_works_iff oneAtATime parsePublic 3 fetchBoth
    (fun _ => 1800000000 * nanosPerSec) (fun _ => by decide) 1000 perimeterGroup (datedDb 30)
    (by decide) (by decide) (by decide) 0
  exact ⟨hrun.mpr (by decide), (hfilter _ _ _ (by decide) (by decide)).mpr (by decide)⟩

/-- The largest limit the API accepts panics in the year 2027, and the run leaves no log row. -/
theorem largest_limit_panics :
    validateMaxAgeDays (some 2147483647) = .ok () ∧
      IsDateTimeSec (timestamp (1800000000 * nanosPerSec)) ∧
      applyTemporalFilter (1800000000 * nanosPerSec) [] (some 2147483647) = none ∧
      ¬ FiltersExactly (1800000000 * nanosPerSec) [] (some 2147483647) ∧
      ¬ ReachesLogRow oneAtATime parsePublic 3 fetchBoth (fun _ => 1800000000 * nanosPerSec) 1000
        perimeterGroup (datedDb 2147483647) 0 := by
  have hnone : applyTemporalFilter (1800000000 * nanosPerSec) [] (some 2147483647) = none := by
    decide
  refine ⟨by decide, by decide, hnone, ?_, ?_⟩
  · rw [FiltersExactly, hnone]
    exact fun h => by cases h
  · rw [reachesLogRow_iff oneAtATime parsePublic 3 fetchBoth _ 1000 (by decide)]
    decide

end SimplyIpSync.Jobs.AgeLimit
