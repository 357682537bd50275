import SimplyIpSync.Api.Statements
import SimplyIpSync.Jobs.AgeLimit
import SimplyIpSync.Text
import SimplyIpSync.Timestamps

/-!
# The retention worker (`src/retention.rs`)

At every tick the worker purges the two log tables, each with its own window in days.  The windows
are read once and may be any number of days that fits an `i64`; the date arithmetic of a purge takes
less, and where it panics the task ends: the other table is not purged, and no later tick comes.
What is older than the threshold is for the database to say, and SQLite compares dates, not times.

When the ticks fall is left open: a run is a list of sweeps, each with its clock, what the database
holds at that time, and what else happens to it between the two purges.
-/

namespace SimplyIpSync.Retention

open SimplyIpSync.Entities SimplyIpSync.Text SimplyIpSync.Middleware SimplyIpSync.Api
open SimplyIpSync.Jobs.ExternalIngestion SimplyIpSync.Jobs.AgeLimit SimplyIpSync.Timestamps

/-! ### The windows -/

/-- `DEFAULT_SYNC_LOG_RETENTION_DAYS`. -/
def defaultSyncLogRetentionDays : ℤ := 92

/-- `DEFAULT_AUDIT_LOG_RETENTION_DAYS`. -/
def defaultAuditLogRetentionDays : ℤ := 365

/-- `retention_days_from_env`, on the text of the variable if it has one. -/
def retentionDaysFromEnv (raw : Option (List Char)) (defaultDays : ℤ) : ℤ :=
  match raw with
  | some raw =>
      match parseI64 (utf8 (trimText raw)) with
      | some days => if 0 ≤ days then days else defaultDays
      | none => defaultDays
  | none => defaultDays

theorem retentionDaysFromEnv_nonneg (raw : Option (List Char)) {defaultDays : ℤ}
    (h : 0 ≤ defaultDays) : 0 ≤ retentionDaysFromEnv raw defaultDays := by
  cases raw with
  | none => exact h
  | some raw =>
      simp only [retentionDaysFromEnv]
      cases parseI64 (utf8 (trimText raw)) with
      | none => exact h
      | some days =>
          simp only
          split
          · assumption
          · exact h

/-! ### The purge -/

/-- `Duration::days`; `none` where its milliseconds leave an `i64` and it panics. -/
def durationDays (days : ℤ) : Option ℤ :=
  if |days * 86400 * 1000| < 2 ^ 63 then some (days * nanosPerDay) else none

/-- `Utc::now() - Duration::days(days)`; `none` where it panics. -/
def threshold (now days : ℤ) : Option ℤ :=
  (durationDays days).bind fun duration =>
    if IsDateTimeSec (timestamp (now - duration)) then some (now - duration) else none

/-- The purge of a table: its answer and the rows it leaves, or `none` where it panics.  `fault` is
the error the database gives, if it gives one; the statement then changes nothing. -/
def purgeExpired {Row : Type} (backend : DatabaseBackend) (stamp : Row → ℤ)
    (retentionDays now : ℤ) (fault : Option DbErr) (rows : List Row) :
    Option (Except DbErr ℕ × List Row) :=
  if retentionDays ≤ 0 then some (.ok 0, rows)
  else
    (threshold now retentionDays).map fun limit =>
      match fault with
      | some e => (.error e, rows)
      | none =>
          (.ok (rows.countP fun r => columnLt backend (stamp r) limit),
            rows.filter fun r => !columnLt backend (stamp r) limit)

/-- `purge_expired_sync_logs`. -/
def purgeExpiredSyncLogs (backend : DatabaseBackend) (retentionDays now : ℤ) (fault : Option DbErr)
    (rows : List SyncLog) : Option (Except DbErr ℕ × List SyncLog) :=
  purgeExpired backend SyncLog.timestamp retentionDays now fault rows

/-- `purge_expired_audit_logs`. -/
def purgeExpiredAuditLogs (backend : DatabaseBackend) (retentionDays now : ℤ)
    (fault : Option DbErr) (rows : List AuditLog) : Option (Except DbErr ℕ × List AuditLog) :=
  purgeExpired backend AuditLog.timestamp retentionDays now fault rows

/-! ### The worker -/

/-- One tick of the worker: what the database holds, the two readings of the clock, whether the
database fails, and what the rest of the program does between the purges. -/
structure Sweep where
  before : Database
  syncNow : ℤ
  syncFault : Option DbErr
  meanwhile : Database → Database
  auditNow : ℤ
  auditFault : Option DbErr
  sync_clock : IsDateTimeSec (timestamp syncNow)
  audit_clock : IsDateTimeSec (timestamp auditNow)

/-- What came of a tick. -/
inductive Outcome
  /-- Both purges have ended, each with the database as it left it. -/
  | completed (afterSync afterAudit : Database)
  /-- The task ended in a panic, with the database as it then was. -/
  | panicked (db : Database)
  /-- The task had ended before. -/
  | absent

section Worker

variable (backend : DatabaseBackend)

/-- The body of the loop. -/
def sweep (syncLogDays auditLogDays : ℤ) (w : Sweep) : Outcome :=
  match purgeExpiredSyncLogs backend syncLogDays w.syncNow w.syncFault w.before.syncLogs with
  | none => .panicked w.before
  | some (_, syncLogs) =>
      let db := w.meanwhile { w.before with syncLogs }
      match purgeExpiredAuditLogs backend auditLogDays w.auditNow w.auditFault db.auditLogs with
      | none => .panicked db
      | some (_, auditLogs) => .completed { w.before with syncLogs } { db with auditLogs }

/-- The loop. -/
def sweepLoop (syncLogDays auditLogDays : ℤ) : List Sweep → List Outcome
  | [] => []
  | w :: ws =>
      match sweep backend syncLogDays auditLogDays w with
      | .completed afterSync afterAudit =>
          .completed afterSync afterAudit :: sweepLoop syncLogDays auditLogDays ws
      | ended => ended :: ws.map fun _ => .absent

/-- `run_retention_worker`; `none` where it returns before its first tick. -/
def runRetentionWorker (syncRaw auditRaw : Option (List Char)) (ws : List Sweep) :
    Option (List Outcome) :=
  let syncLogDays := retentionDaysFromEnv syncRaw defaultSyncLogRetentionDays
  let auditLogDays := retentionDaysFromEnv auditRaw defaultAuditLogRetentionDays
  if syncLogDays ≤ 0 ∧ auditLogDays ≤ 0 then none
  else some (sweepLoop backend syncLogDays auditLogDays ws)

end Worker

/-! ### What a sweep owes -/

/-- The row is older than the window; nothing is when the window is zero. -/
def Expired (days now stamp : ℤ) : Prop := 0 < days ∧ stamp < now - days * nanosPerDay

instance (days now stamp : ℤ) : Decidable (Expired days now stamp) :=
  inferInstanceAs (Decidable (_ ∧ _))

/-- The rows a purge should leave: all of them where the database fails. -/
def kept {Row : Type} (stamp : Row → ℤ) (days now : ℤ) (fault : Option DbErr) (rows : List Row) :
    List Row :=
  if fault.isSome then rows else rows.filter fun r => decide (¬Expired days now (stamp r))

/-- What the first purge of a sweep should leave. -/
def Sweep.afterSync (syncLogDays : ℤ) (w : Sweep) : Database :=
  { w.before with
    syncLogs := kept SyncLog.timestamp syncLogDays w.syncNow w.syncFault w.before.syncLogs }

/-- What the second purge of a sweep should leave, where the first has done its work. -/
def Sweep.afterAudit (syncLogDays auditLogDays : ℤ) (w : Sweep) : Database :=
  let db := w.meanwhile (w.afterSync syncLogDays)
  { db with auditLogs := kept AuditLog.timestamp auditLogDays w.auditNow w.auditFault db.auditLogs }

/-- The sweep ends, and removes the expired rows of both tables and nothing else. -/
def Exact (syncLogDays auditLogDays : ℤ) (w : Sweep) (outcome : Outcome) : Prop :=
  outcome = .completed (w.afterSync syncLogDays) (w.afterAudit syncLogDays auditLogDays)

/-- No row is on the wrong side of the threshold, if there is one and the database gets it. -/
def ReadsRight {Row : Type} (backend : DatabaseBackend) (stamp : Row → ℤ) (days now : ℤ)
    (fault : Option DbErr) (rows : List Row) : Prop :=
  0 < days → fault = none → ∀ r ∈ rows, ¬Misread backend (stamp r) (now - days * nanosPerDay)

/-- Both windows are within the dates, and both tables are read right. -/
structure Meets (backend : DatabaseBackend) (syncLogDays auditLogDays : ℤ) (w : Sweep) : Prop where
  syncDays : syncLogDays ≤ daysOfDates w.syncNow
  syncRows : ReadsRight backend SyncLog.timestamp syncLogDays w.syncNow w.syncFault
    w.before.syncLogs
  auditDays : auditLogDays ≤ daysOfDates w.auditNow
  auditRows : ReadsRight backend AuditLog.timestamp auditLogDays w.auditNow w.auditFault
    (w.meanwhile (w.afterSync syncLogDays)).auditLogs

theorem daysOfDates_bounds {now : ℤ} (hnow : IsDateTimeSec (timestamp now)) :
    0 ≤ daysOfDates now ∧ daysOfDates now < 2 ^ 28 := by
  obtain ⟨hfirst, hlast⟩ := hnow
  simp only [minDateTimeSecs, maxDateTimeSecs] at hfirst hlast
  simp only [daysOfDates, minDateTimeSecs]
  omega

/-- A threshold is as many days back. -/
theorem eq_of_threshold {now days limit : ℤ} (h : threshold now days = some limit) :
    limit = now - days * nanosPerDay := by
  obtain ⟨duration, hduration, hdate⟩ := Option.bind_eq_some_iff.mp h
  obtain ⟨-, hvalue⟩ := Option.ite_none_right_eq_some.mp hduration
  obtain ⟨-, hlimit⟩ := Option.ite_none_right_eq_some.mp hdate
  rw [← Option.some.inj hlimit, ← Option.some.inj hvalue]

/-- **When the threshold is a date**: the window does not reach back before the first one. -/
theorem threshold_eq {now days : ℤ} (hnow : IsDateTimeSec (timestamp now)) (hdays : 0 ≤ days) :
    threshold now days =
      if days ≤ daysOfDates now then some (now - days * nanosPerDay) else none := by
  obtain ⟨-, hbound⟩ := daysOfDates_bounds hnow
  have hdate : IsDateTimeSec (timestamp (now - days * nanosPerDay)) ↔ days ≤ daysOfDates now := by
    obtain ⟨-, hlast⟩ := hnow
    rw [timestamp_sub_days, IsDateTimeSec, daysOfDates, Int.le_ediv_iff_mul_le (by decide)]
    omega
  rw [threshold, durationDays]
  by_cases hreach : days ≤ daysOfDates now
  · have hduration : |days * 86400 * 1000| < 2 ^ 63 := by
      rw [abs_of_nonneg (by omega)]
      omega
    rw [if_pos hduration, if_pos hreach, Option.bind_some, if_pos (hdate.mpr hreach)]
  · rw [if_neg hreach]
    split
    · rw [Option.bind_some, if_neg (mt hdate.mp hreach)]
    · rfl

theorem filter_eq_filter_iff {Row : Type} {p q : Row → Bool} {rows : List Row} :
    rows.filter p = rows.filter q ↔ ∀ r ∈ rows, p r = q r := by
  refine ⟨fun h r hr => ?_, List.filter_congr⟩
  have hmem : r ∈ rows.filter p ↔ r ∈ rows.filter q := by rw [h]
  rw [List.mem_filter, List.mem_filter, and_iff_right hr, and_iff_right hr] at hmem
  exact Bool.eq_iff_iff.mpr hmem

variable {Row : Type} {backend : DatabaseBackend} {stamp : Row → ℤ} {days now : ℤ}
  {fault : Option DbErr} {rows : List Row}

/-- **What a purge leaves** is what it should leave when the rows are read right. -/
theorem remaining_eq_kept_iff (hdays : 0 < days) :
    (rows.filter fun r => !columnLt backend (stamp r) (now - days * nanosPerDay)) =
        kept stamp days now none rows ↔
      ReadsRight backend stamp days now none rows := by
  have hexpired : ∀ r, Expired days now (stamp r) ↔ stamp r < now - days * nanosPerDay :=
    fun r => and_iff_right hdays
  have hread : ReadsRight backend stamp days now none rows ↔
      ∀ r ∈ rows, ¬Misread backend (stamp r) (now - days * nanosPerDay) :=
    ⟨fun h => h hdays rfl, fun h _ _ => h⟩
  rw [hread, kept, Option.isSome_none, if_neg Bool.false_ne_true, filter_eq_filter_iff]
  refine forall₂_congr fun r _ => ?_
  rw [← columnLt_iff, decide_not, Bool.not_inj_iff, decide_eq_decide.mpr (hexpired r)]

/-- **One purge** ends with what it should leave exactly when the window is within the dates and the
rows are read right. -/
theorem purgeExpired_exact_iff (hnow : IsDateTimeSec (timestamp now)) (hdays : 0 ≤ days) :
    (purgeExpired backend stamp days now fault rows).map Prod.snd =
        some (kept stamp days now fault rows) ↔
      days ≤ daysOfDates now ∧ ReadsRight backend stamp days now fault rows := by
  rw [purgeExpired]
  by_cases hzero : days ≤ 0
  · have hnone : ∀ r, ¬Expired days now (stamp r) := fun r h => absurd h.1 (by omega)
    have hkept : kept stamp days now fault rows = rows := by
      rw [kept]
      split
      · rfl
      · exact List.filter_eq_self.mpr fun r _ => decide_eq_true (hnone r)
    rw [if_pos hzero, hkept]
    exact iff_of_true rfl
      ⟨hzero.trans (daysOfDates_bounds hnow).1, fun hpos => absurd hpos (by omega)⟩
  · rw [if_neg hzero, threshold_eq hnow hdays]
    by_cases hreach : days ≤ daysOfDates now
    · rw [if_pos hreach, and_iff_right hreach]
      cases fault with
      | some e => exact iff_of_true rfl fun _ h => by cases h
      | none =>
          rw [← remaining_eq_kept_iff (by omega)]
          exact Option.some_inj
    · rw [if_neg hreach]
      exact iff_of_false (fun h => by cases h) fun h => hreach h.1

/-- A purge only removes rows. -/
theorem purgeExpired_sublist {out : Except DbErr ℕ × List Row}
    (h : purgeExpired backend stamp days now fault rows = some out) : out.2.Sublist rows := by
  rw [purgeExpired] at h
  split at h
  · obtain rfl := Option.some.inj h
    exact List.Sublist.refl _
  · obtain ⟨limit, -, rfl⟩ := Option.map_eq_some_iff.mp h
    cases fault with
    | some e => exact List.Sublist.refl _
    | none => exact List.filter_sublist

/-- **One sweep** is exact when both windows are within the dates and both tables are read right. -/
theorem sweep_exact_iff {syncLogDays auditLogDays : ℤ} (hsync : 0 ≤ syncLogDays)
    (haudit : 0 ≤ auditLogDays) (w : Sweep) :
    Exact syncLogDays auditLogDays w (sweep backend syncLogDays auditLogDays w) ↔
      Meets backend syncLogDays auditLogDays w := by
  have hmeets : Meets backend syncLogDays auditLogDays w ↔
      (purgeExpiredSyncLogs backend syncLogDays w.syncNow w.syncFault w.before.syncLogs).map
          Prod.snd = some (w.afterSync syncLogDays).syncLogs ∧
        (purgeExpiredAuditLogs backend auditLogDays w.auditNow w.auditFault
            (w.meanwhile (w.afterSync syncLogDays)).auditLogs).map
          Prod.snd = some (w.afterAudit syncLogDays auditLogDays).auditLogs := by
    refine Iff.trans ?_ (and_congr (purgeExpired_exact_iff w.sync_clock hsync)
      (purgeExpired_exact_iff w.audit_clock haudit)).symm
    exact ⟨fun h => ⟨⟨h.syncDays, h.syncRows⟩, h.auditDays, h.auditRows⟩,
      fun h => ⟨h.1.1, h.1.2, h.2.1, h.2.2⟩⟩
  rw [hmeets, Exact, sweep]
  constructor
  · intro hexact
    split at hexact
    · cases hexact
    · rename_i answer syncLogs hpurge
      simp only at hexact
      split at hexact
      · cases hexact
      · rename_i answer' auditLogs hpurge'
        obtain ⟨hafterSync, hafterAudit⟩ := Outcome.completed.inj hexact
        rw [hafterSync] at hpurge'
        rw [hpurge, hpurge', ← hafterAudit, ← hafterSync]
        exact ⟨rfl, rfl⟩
  · rintro ⟨hsyncKept, hauditKept⟩
    obtain ⟨⟨answer, syncLogs⟩, hpurge, hsyncLogs⟩ := Option.map_eq_some_iff.mp hsyncKept
    obtain ⟨⟨answer', auditLogs⟩, hpurge', hauditLogs⟩ := Option.map_eq_some_iff.mp hauditKept
    obtain rfl : syncLogs = _ := hsyncLogs
    obtain rfl : auditLogs = _ := hauditLogs
    have hdb : ({ w.before with syncLogs := (w.afterSync syncLogDays).syncLogs } : Database) =
      w.afterSync syncLogDays := rfl
    simp only [hpurge, hdb, hpurge']
    rfl

/-- The loop, sweep by sweep. -/
theorem sweepLoop_exact_iff {syncLogDays auditLogDays : ℤ} (hsync : 0 ≤ syncLogDays)
    (haudit : 0 ≤ auditLogDays) (ws : List Sweep) :
    List.Forall₂ (Exact syncLogDays auditLogDays) ws
        (sweepLoop backend syncLogDays auditLogDays ws) ↔
      ∀ w ∈ ws, Meets backend syncLogDays auditLogDays w := by
  induction ws with
  | nil => exact iff_of_true .nil (List.forall_mem_nil _)
  | cons w ws ih =>
      rw [List.forall_mem_cons, ← ih, ← sweep_exact_iff hsync haudit w, sweepLoop]
      cases hsweep : sweep backend syncLogDays auditLogDays w with
      | completed afterSync afterAudit => exact List.forall₂_cons
      | panicked db =>
          rw [List.forall₂_cons]
          have hnot : ¬Exact syncLogDays auditLogDays w (.panicked db) := fun h => by cases h
          exact iff_of_false (fun h => hnot h.1) fun h => hnot h.1
      | absent =>
          rw [List.forall₂_cons]
          have hnot : ¬Exact syncLogDays auditLogDays w .absent := fun h => by cases h
          exact iff_of_false (fun h => hnot h.1) fun h => hnot h.1

theorem Meets.of_disabled {syncLogDays auditLogDays : ℤ} (hsync : syncLogDays ≤ 0)
    (haudit : auditLogDays ≤ 0) (w : Sweep) : Meets backend syncLogDays auditLogDays w where
  syncDays := hsync.trans (daysOfDates_bounds w.sync_clock).1
  syncRows := fun hpos => absurd hpos (by omega)
  auditDays := haudit.trans (daysOfDates_bounds w.audit_clock).1
  auditRows := fun hpos => absurd hpos (by omega)

/-- **Exactly when the worker does its work.**  Every sweep of a run ends and is exact if and only
if, at each of its two purges, the window as read does not reach back before the first date, and no
row of the table is on the wrong side of the threshold. -/
theorem sweeps_exact_iff (backend : DatabaseBackend) (syncRaw auditRaw : Option (List Char))
    (ws : List Sweep) :
    (∀ outcomes, runRetentionWorker backend syncRaw auditRaw ws = some outcomes →
      List.Forall₂ (Exact (retentionDaysFromEnv syncRaw defaultSyncLogRetentionDays)
        (retentionDaysFromEnv auditRaw defaultAuditLogRetentionDays)) ws outcomes) ↔
      ∀ w ∈ ws, Meets backend (retentionDaysFromEnv syncRaw defaultSyncLogRetentionDays)
        (retentionDaysFromEnv auditRaw defaultAuditLogRetentionDays) w := by
  have hsync : 0 ≤ retentionDaysFromEnv syncRaw defaultSyncLogRetentionDays :=
    retentionDaysFromEnv_nonneg syncRaw (by decide)
  have haudit : 0 ≤ retentionDaysFromEnv auditRaw defaultAuditLogRetentionDays :=
    retentionDaysFromEnv_nonneg auditRaw (by decide)
  rw [← sweepLoop_exact_iff hsync haudit ws]
  simp only [runRetentionWorker]
  split
  · rename_i hdisabled
    refine iff_of_true (fun outcomes h => by cases h) ?_
    rw [sweepLoop_exact_iff hsync haudit ws]
    exact fun w _ => .of_disabled hdisabled.1 hdisabled.2 w
  · simp only [Option.some.injEq, forall_eq']

/-! ### A window that is too long, and a row of the last day -/

/-- On SQLite a row of the day of the threshold is never removed, whatever its time. -/
theorem sqlite_spares_day {stamp limit : ℤ} (hday : utcDay stamp = utcDay limit) :
    columnLt .sqlite stamp limit = false := by
  refine decide_eq_false ?_
  rw [storedText_lt_boundText_iff, utcDate, hday]
  exact List.lt_irrefl _

/-- Two runs of a job were logged in October 2026, and an audit row is from 1970. -/
def agedDb : Database where
  apiKeys := .empty
  permissions := .empty
  vaultEndpoints := .empty
  destinationGroups := .empty
  groupTargets := .empty
  externalSources := .empty
  vaultSyncTasks := .empty
  taskTargets := .empty
  syncLogs :=
    [⟨"EXTERNAL_FEED", 1, "feed", .success, 0, 0, none, 1791979200 * nanosPerSec⟩,
      ⟨"EXTERNAL_FEED", 1, "feed", .success, 0, 0, none, 1792022400 * nanosPerSec⟩]
  auditLogs := [⟨none, "root", [], .v4 0, "KEY_CREATE", none, 0⟩]

/-- A tick on 2027-01-15 at 8 o'clock. -/
def agedSweep : Sweep where
  before := agedDb
  syncNow := 1800000000 * nanosPerSec
  syncFault := none
  meanwhile := id
  auditNow := 1800000000 * nanosPerSec
  auditFault := none
  sync_clock := by decide
  audit_clock := by decide

/-- **The largest window that is accepted ends the worker** at its first tick: the audit row is far
older than its own window of a year, and it stays. -/
theorem largest_window_panics :
    retentionDaysFromEnv (some "9223372036854775807".toList) defaultSyncLogRetentionDays =
        9223372036854775807 ∧
      runRetentionWorker .postgres (some "9223372036854775807".toList) none
          [agedSweep, agedSweep] = some [.panicked agedDb, .absent] ∧
      Expired defaultAuditLogRetentionDays agedSweep.auditNow 0 := by
  have hdays : retentionDaysFromEnv (some "9223372036854775807".toList)
      defaultSyncLogRetentionDays = 9223372036854775807 := by
    decide +kernel
  have hnone : purgeExpiredSyncLogs .postgres 9223372036854775807 agedSweep.syncNow
      agedSweep.syncFault agedSweep.before.syncLogs = none := by
    decide +kernel
  refine ⟨hdays, ?_, by decide⟩
  have hsweep : sweep .postgres 9223372036854775807 defaultAuditLogRetentionDays agedSweep =
      .panicked agedDb := by
    rw [sweep, hnone]
    rfl
  have hloop : sweepLoop .postgres 9223372036854775807 defaultAuditLogRetentionDays
      [agedSweep, agedSweep] = [.panicked agedDb, .absent] := by
    rw [sweepLoop, hsweep]
    rfl
  rw [runRetentionWorker, hdays]
  show (if _ ∧ _ then _ else some (sweepLoop _ _ defaultAuditLogRetentionDays _)) = _
  rw [if_neg (by decide), hloop]

/-- **On SQLite a row of the threshold's day stays** although it is older: with the window of 92
days, the row of 2026-10-15 at 0 o'clock, at 8 o'clock of 2027-01-15. -/
theorem day_of_threshold_stays :
    Expired defaultSyncLogRetentionDays agedSweep.syncNow (1792022400 * nanosPerSec) ∧
      (runRetentionWorker .sqlite none none [agedSweep]).map (List.map fun
        | .completed afterSync _ => afterSync.syncLogs.map SyncLog.timestamp
        | _ => []) = some [[1792022400 * nanosPerSec]] ∧
      (agedSweep.afterSync defaultSyncLogRetentionDays).syncLogs = [] := by
  refine ⟨by decide, ?_, by decide⟩
  decide +kernel

/-- **Neither run is exact.** -/
theorem retention_not_exact :
    (¬∀ outcomes, runRetentionWorker .postgres (some "9223372036854775807".toList) none
        [agedSweep, agedSweep] = some outcomes →
      List.Forall₂ (Exact
        (retentionDaysFromEnv (some "9223372036854775807".toList) defaultSyncLogRetentionDays)
        (retentionDaysFromEnv none defaultAuditLogRetentionDays)) [agedSweep, agedSweep]
        outcomes) ∧
      ¬∀ outcomes, runRetentionWorker .sqlite none none [agedSweep] = some outcomes →
        List.Forall₂ (Exact (retentionDaysFromEnv none defaultSyncLogRetentionDays)
          (retentionDaysFromEnv none defaultAuditLogRetentionDays)) [agedSweep] outcomes := by
  constructor
  · intro hall
    have hfirst := (List.forall₂_cons.mp (hall _ largest_window_panics.2.1)).1
    cases hfirst
  · intro hall
    obtain ⟨-, hrun, hkept⟩ := day_of_threshold_stays
    obtain ⟨outcomes, houtcomes, hlogs⟩ := Option.map_eq_some_iff.mp hrun
    obtain ⟨outcome, rest, hfirst, -, rfl⟩ := List.forall₂_cons_left_iff.mp (hall _ houtcomes)
    obtain rfl : outcome = _ := hfirst
    have hnone := (List.cons.inj hlogs).1
    simp only at hnone
    rw [show retentionDaysFromEnv none defaultSyncLogRetentionDays =
      defaultSyncLogRetentionDays from rfl, hkept] at hnone
    cases hnone

end SimplyIpSync.Retention
