import SimplyIpSync.Crypto
import SimplyIpSync.Entities
import SimplyIpSync.Lib.Table

/-!
# The replay guard (`src/replay.rs`)

A table of accepted signatures, each with the moment its entry expires, swept from time to time.
A sweep removes expired entries only, so it is invisible: `checkAndRecord_spec` describes a call
by what the guard still remembers, and later proofs never look at the table.

Neither lock of the guard can be poisoned: no code panics while it holds one.
-/

namespace SimplyIpSync.Replay

open SimplyIpSync.Entities SimplyIpSync.Storage SimplyIpSync.Crypto

/-- `SignatureId`. -/
structure SignatureId where
  keyId : Uuid
  digest : Bytes
  deriving DecidableEq, Repr

/-- An entry of `seen`. -/
structure SeenEntry where
  id : SignatureId
  expiresAt : ℤ

/-- `ReplayGuard`; times and the window are in nanoseconds. -/
structure ReplayGuard where
  seen : Table SeenEntry.id
  window : ℤ
  lastSweep : ℤ

/-- `MAX_TRACKED_SIGNATURES`. -/
def maxTrackedSignatures : ℕ := 100000

namespace ReplayGuard

/-- `ReplayGuard::new`, at the moment `now`. -/
def new (windowSecs now : ℤ) : ReplayGuard where
  seen := .empty
  window := max 1 (min windowSecs 3600) * nanosPerSec
  lastSweep := now

/-- `prune_if_due`. -/
def pruneIfDue (g : ReplayGuard) (now : ℤ) : ReplayGuard :=
  let due := decide (g.window / 4 ≤ now - g.lastSweep)
  let overCapacity := decide (maxTrackedSignatures ≤ g.seen.rows.length)
  { seen := if due || overCapacity then g.seen.deleteWhere fun e => decide (e.expiresAt ≤ now)
      else g.seen
    window := g.window
    lastSweep := if due then now else g.lastSweep }

/-- `check_and_record`: whether this is the first use, and the guard afterwards. -/
def checkAndRecord (g : ReplayGuard) (now : ℤ) (keyId : Uuid) (digest : Bytes) :
    Bool × ReplayGuard :=
  let g := g.pruneIfDue now
  let id : SignatureId := ⟨keyId, digest⟩
  let record := { g with seen := g.seen.upsert ⟨id, now + g.window⟩ }
  match g.seen.find? id with
  | some entry => if now < entry.expiresAt then (false, g) else (true, record)
  | none => (true, record)

/-- The guard has an entry for `id` that is alive at `t`. -/
def Remembers (g : ReplayGuard) (t : ℤ) (id : SignatureId) : Prop :=
  ∃ entry, g.seen.find? id = some entry ∧ t < entry.expiresAt

/-- A sweep forgets nothing that is still alive. -/
theorem pruneIfDue_remembers (g : ReplayGuard) {now t : ℤ} (ht : now ≤ t) (id : SignatureId) :
    (g.pruneIfDue now).Remembers t id ↔ g.Remembers t id := by
  simp only [Remembers, pruneIfDue]
  split
  · rw [Table.find?_deleteWhere]
    constructor
    · rintro ⟨entry, hentry, halive⟩
      exact ⟨entry, (Option.filter_eq_some_iff.mp hentry).1, halive⟩
    · rintro ⟨entry, hentry, halive⟩
      refine ⟨entry, Option.filter_eq_some_iff.mpr ⟨hentry, ?_⟩, halive⟩
      simp only [Bool.not_eq_true', decide_eq_false_iff_not, not_le]
      omega
  · rfl

@[simp] theorem pruneIfDue_window (g : ReplayGuard) (now : ℤ) :
    (g.pruneIfDue now).window = g.window := rfl

/-- **One call.**  It answers `true` exactly when the guard does not remember the signature; then
the signature is remembered for one window from now, and nothing else changes. -/
theorem checkAndRecord_spec (g : ReplayGuard) (now : ℤ) (keyId : Uuid) (digest : Bytes) :
    let out := g.checkAndRecord now keyId digest
    (out.1 = true ↔ ¬g.Remembers now ⟨keyId, digest⟩) ∧ out.2.window = g.window ∧
      ∀ t id, now ≤ t → (out.2.Remembers t id ↔
        if out.1 = true ∧ id = ⟨keyId, digest⟩ then t < now + g.window else g.Remembers t id) := by
  have hnow : (g.pruneIfDue now).Remembers now ⟨keyId, digest⟩ ↔ g.Remembers now ⟨keyId, digest⟩ :=
    g.pruneIfDue_remembers le_rfl ⟨keyId, digest⟩
  have hlater : ∀ {t} id, now ≤ t → ((g.pruneIfDue now).Remembers t id ↔ g.Remembers t id) :=
    fun id ht => g.pruneIfDue_remembers ht id
  -- what the guard remembers once the entry is written
  have hrecord : ∀ {t} id, now ≤ t →
      ((∃ entry, ((g.pruneIfDue now).seen.upsert ⟨⟨keyId, digest⟩, now + g.window⟩).find? id =
        some entry ∧ t < entry.expiresAt) ↔
        if id = ⟨keyId, digest⟩ then t < now + g.window else g.Remembers t id) := by
    intro t id ht
    rw [Table.find?_upsert]
    by_cases hid : id = ⟨keyId, digest⟩
    · simp [hid]
    · simp only [if_neg hid]
      exact hlater id ht
  intro out
  have hout : out = g.checkAndRecord now keyId digest := rfl
  simp only [checkAndRecord] at hout
  cases hfind : (g.pruneIfDue now).seen.find? ⟨keyId, digest⟩ with
  | none =>
      have hnot : ¬g.Remembers now ⟨keyId, digest⟩ := by
        rw [← hnow]
        rintro ⟨entry, hentry, _⟩
        rw [hfind] at hentry
        cases hentry
      rw [hfind] at hout
      rw [hout]
      refine ⟨by simp [hnot], rfl, ?_⟩
      intro t id ht
      simpa [Remembers] using hrecord id ht
  | some entry =>
      rw [hfind] at hout
      by_cases halive : now < entry.expiresAt
      · have hyes : g.Remembers now ⟨keyId, digest⟩ := hnow.mp ⟨entry, hfind, halive⟩
        rw [hout]
        simp only [if_pos halive]
        refine ⟨by simp [hyes], rfl, ?_⟩
        intro t id ht
        simpa using hlater id ht
      · have hnot : ¬g.Remembers now ⟨keyId, digest⟩ := by
          rw [← hnow]
          rintro ⟨entry', hentry', halive'⟩
          rw [hfind] at hentry'
          obtain rfl := Option.some.inj hentry'
          exact halive halive'
        rw [hout]
        simp only [if_neg halive]
        refine ⟨by simp [hnot], rfl, ?_⟩
        intro t id ht
        simpa [Remembers] using hrecord id ht

end ReplayGuard

end SimplyIpSync.Replay
