import SimplyIpSync.Client.Types
import SimplyIpSync.Lib.Table

/-!
# What a source vault answers

A group of a vault is a table of records by address.  For `since` a vault answers with the records
seen at or after it and the tombstones deleted at or after it; `since` travels in whole seconds, so
the cut-off lies up to a second before it.
-/

namespace SimplyIpSync.Replication

open SimplyIpSync.Entities SimplyIpSync.Storage SimplyIpSync.Client

/-- The records of one group, by address. -/
abbrev Records := Table IpRecordResponse.targetAddress

/-- The moment a vault reads from `since`. -/
def cutoff (since : ℤ) : ℤ := timestamp since * nanosPerSec

theorem cutoff_le (since : ℤ) : cutoff since ≤ since := timestamp_mul_le since

/-- The moment is there and not before `cut`. -/
def atOrAfter (cut : ℤ) (moment : Option ℤ) : Bool := moment.any fun t => decide (cut ≤ t)

/-- The record is in the window of `since`, tombstones included. -/
def inDelta (since : Option ℤ) (r : IpRecordResponse) : Bool :=
  match since with
  | none => true
  | some since =>
      atOrAfter (cutoff since) r.lastSeenAt ||
        (r.isDeleted && atOrAfter (cutoff since) r.deletedAt)

/-- The answer to `since`, from one state of the group. -/
def snapshot (records : Records) (since : Option ℤ) : List IpRecordResponse :=
  records.rows.filter (inDelta since)

/-- When the record got the state it is in: its last sighting, for a tombstone its deletion. -/
def stamp (r : IpRecordResponse) : Option ℤ := if r.isDeleted then r.deletedAt else r.lastSeenAt

/-- The record got its state before `t`. -/
def Before (t : ℤ) (r : IpRecordResponse) : Prop := ∃ moment ∈ stamp r, moment < t

instance (t : ℤ) (r : IpRecordResponse) : Decidable (Before t r) :=
  inferInstanceAs (Decidable (∃ moment ∈ stamp r, moment < t))

theorem Before.mono {t u : ℤ} {r : IpRecordResponse} (h : Before t r) (htu : t ≤ u) :
    Before u r := by
  obtain ⟨moment, hstamp, hlt⟩ := h
  exact ⟨moment, hstamp, lt_of_lt_of_le hlt htu⟩

theorem not_before_of_stamp {t moment : ℤ} {r : IpRecordResponse} (hstamp : stamp r = some moment)
    (hle : t ≤ moment) : ¬Before t r := by
  intro ⟨moment', hstamp', hlt⟩
  obtain rfl := Option.some.inj (hstamp.symm.trans hstamp')
  omega

/-- **What a snapshot leaves out** got its state before the cut-off. -/
theorem mem_snapshot_or_before {records : Records} {since : Option ℤ} {t : ℤ} {r : IpRecordResponse}
    (hr : r ∈ records.rows) (hbefore : Before t r) :
    r ∈ snapshot records since ∨ ∃ since', since = some since' ∧ Before (cutoff since') r := by
  obtain ⟨moment, hstamp : stamp r = some moment, -⟩ := hbefore
  cases since with
  | none => exact Or.inl (List.mem_filter.mpr ⟨hr, rfl⟩)
  | some since =>
      by_cases hin : cutoff since ≤ moment
      · left
        refine List.mem_filter.mpr ⟨hr, ?_⟩
        have hafter : atOrAfter (cutoff since) (some moment) = true := by simpa [atOrAfter] using hin
        rw [stamp] at hstamp
        split at hstamp
        · rename_i hdeleted
          simp [inDelta, hdeleted, hstamp, hafter]
        · simp [inDelta, hstamp, hafter]
      · exact Or.inr ⟨since, rfl, moment, hstamp, by omega⟩

end SimplyIpSync.Replication
