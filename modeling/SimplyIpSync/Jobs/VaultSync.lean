import SimplyIpSync.Bogon
import SimplyIpSync.Client.Delta
import SimplyIpSync.Jobs.PushOutcome
import SimplyIpSync.Store

/-!
# Inter-vault replication (`src/jobs/vault_sync.rs`)

One run of a vault-sync task: read the task, its source vault and its targets, fetch the delta
since the cursor, filter it, push it to every target in `upsert` mode, log the outcome, and
advance the cursor if every target took everything.
-/

namespace SimplyIpSync.Jobs.VaultSync

open SimplyIpSync.Entities SimplyIpSync.Storage SimplyIpSync.Store SimplyIpSync.Client
open SimplyIpSync.Bogon SimplyIpSync.Jobs

variable {W : Type*}

/-! ### The steps of a run -/

/-- A fetched record as it is pushed on. -/
def toBatchRecordInput (record : IpRecordResponse) : BatchRecordInput where
  targetAddress := record.targetAddress
  cause := record.cause
  isDeleted := some record.isDeleted
  createdAt := record.createdAt
  updatedAt := record.updatedAt
  lastSeenAt := record.lastSeenAt
  deletedAt := record.deletedAt

/-- The filter before the push: the records whose address `sanitize` keeps, and the number of
addresses it removed. -/
def filterBogons (parse : String → Option IpNetwork) (task : VaultSyncTask)
    (mapped : List BatchRecordInput) : List BatchRecordInput × ℕ :=
  if task.skipBogonFiltering then (mapped, 0)
  else
    let sanitized := sanitize parse (mapped.map BatchRecordInput.targetAddress)
    (mapped.filter fun r => r.targetAddress ∈ sanitized.1, sanitized.2)

/-- The summary of a run that ends before the push. -/
def failedSummary (message : String) : JobSummary where
  status := .failed
  itemsProcessed := 0
  chunksSent := 0
  errorMessage := some message

/-- `status` at the end of `execute`. -/
def statusOf (totals : PushTotals) (anomalousEmptyFirstSync : Bool) : JobStatus :=
  if totals.errors ≠ [] then
    if totals.anySuccess then .partialSuccess else .failed
  else if anomalousEmptyFirstSync then .partialSuccess
  else .success

/-- The warning of a first sync that fetched nothing. -/
def emptyFirstSyncMessage (task : VaultSyncTask) (sourceVault : VaultEndpoint) : String :=
  "first sync fetched 0 records from group '" ++ task.sourceGroupName ++ "' on vault '" ++
    sourceVault.name ++ "' — check that the group name is spelled exactly as it appears on the " ++
    "source vault (matched case-sensitively) and that the group actually has records"

/-- `message_parts`. -/
def messageParts (task : VaultSyncTask) (sourceVault : VaultEndpoint)
    (anomalousEmptyFirstSync : Bool) (bogonsRemoved : ℕ) (errors : List String) : List String :=
  (if anomalousEmptyFirstSync then [emptyFirstSyncMessage task sourceVault] else []) ++
    (if 0 < bogonsRemoved then
      [toString bogonsRemoved ++ " bogon/private/reserved address(es) sanitized before push"]
    else []) ++ errors

/-- The counters at the start of the target loop. -/
def initialTotals (targets : List PushTarget) : PushTotals where
  chunksSent := 0
  errors := []
  anySuccess := targets.isEmpty
  allSucceeded := true

/-- `execute` from the fetched delta on. -/
def pushDelta (http : Http W) (parse : String → Option IpNetwork) (maxRetries : ℕ)
    (task : VaultSyncTask) (sourceVault : VaultEndpoint) (targets : List PushTarget)
    (delta : List IpRecordResponse) (w : W) : (JobSummary × Bool) × W :=
  let mapped := delta.map toBatchRecordInput
  -- looked at before the filter: a delta that the filter empties is not anomalous
  let anomalousEmptyFirstSync := task.lastSyncAt.isNone && mapped.isEmpty
  let filtered := filterBogons parse task mapped
  let chunks := chunkRecords filtered.1 maxBatchSize
  let out := pushTargets http maxRetries (fun _ => .upsert) chunks targets
    (initialTotals targets) w
  (({ status := statusOf out.1 anomalousEmptyFirstSync
      itemsProcessed := filtered.1.length
      chunksSent := out.1.chunksSent
      errorMessage := joinMessage
        (messageParts task sourceVault anomalousEmptyFirstSync filtered.2 out.1.errors) },
    out.1.allSucceeded), out.2)

/-- `execute`: the summary, and whether every target succeeded. -/
def execute (http : Http W) (parse : String → Option IpNetwork) (maxRetries fuel : ℕ)
    (task : VaultSyncTask) (sourceVault : Option VaultEndpoint) (targets : List PushTarget)
    (w : W) : Option ((JobSummary × Bool) × W) :=
  match sourceVault with
  | none => some ((failedSummary "source vault endpoint no longer exists", false), w)
  | some sourceVault =>
      match getIpsDelta http maxRetries fuel sourceVault task.sourceGroupName task.lastSyncAt true
        w with
      | none => none
      | some (.error e, w) =>
          some ((failedSummary ("delta fetch from '" ++ sourceVault.name ++ "' failed: " ++
            e.display), false), w)
      | some (.ok delta, w) => some (pushDelta http parse maxRetries task sourceVault targets delta w)

/-- The configured targets of a task, each with its vault if that still exists. -/
def targetsOf (db : Db) (task : VaultSyncTask) : List PushTarget :=
  (db.vaultSyncTaskTargets.rows.filter fun r => r.vaultSyncTaskId = task.id).map fun r =>
    { vaultId := r.targetVaultId
      groupName := r.targetGroupName.getD task.targetGroupName
      vault := db.vaultEndpoints.find? r.targetVaultId }

/-- What a run writes: the log row, and the cursor if every target succeeded. -/
def recordRun (db : Db) (task : VaultSyncTask) (startedAt : ℤ) (summary : JobSummary)
    (allTargetsSucceeded : Bool) : Db :=
  let db := writeSyncLog db "VAULT_SYNC" task.id task.name summary startedAt
  if allTargetsSucceeded then db.setLastSyncAt task.id startedAt else db

/-- `run`, started at `startedAt`; `none` when the fetch outlives its fuel. -/
def run (http : Http W) (parse : String → Option IpNetwork) (maxRetries fuel : ℕ)
    (startedAt : ℤ) (taskId : Uuid) (db : Db) (w : W) :
    Option (Except AppError JobSummary × Db × W) :=
  match db.vaultSyncTasks.find? taskId with
  | none => some (.error .notFound, db, w)
  | some task =>
      let sourceVault := db.vaultEndpoints.find? task.sourceVaultId
      match execute http parse maxRetries fuel task sourceVault (targetsOf db task) w with
      | none => none
      | some ((summary, allTargetsSucceeded), w) =>
          some (.ok summary, recordRun db task startedAt summary allTargetsSucceeded, w)

/-! ### What the filter lets through -/

/-- The fetched records that the task's filter keeps. -/
def keptRecords (parse : String → Option IpNetwork) (task : VaultSyncTask)
    (delta : List IpRecordResponse) : List IpRecordResponse :=
  if task.skipBogonFiltering then delta
  else delta.filter fun r => isKept parse r.targetAddress

theorem mem_of_mem_keptRecords {parse : String → Option IpNetwork} {task : VaultSyncTask}
    {delta : List IpRecordResponse} {r : IpRecordResponse} (h : r ∈ keptRecords parse task delta) :
    r ∈ delta := by
  rw [keptRecords] at h
  by_cases hskip : task.skipBogonFiltering
  · rwa [if_pos hskip] at h
  · rw [if_neg hskip] at h
    exact (List.mem_filter.mp h).1

/-- Filtering by the set of kept addresses keeps exactly the records whose own address is kept,
each as often as it was fetched. -/
theorem filterBogons_fst (parse : String → Option IpNetwork) (task : VaultSyncTask)
    (delta : List IpRecordResponse) :
    (filterBogons parse task (delta.map toBatchRecordInput)).1 =
      (keptRecords parse task delta).map toBatchRecordInput := by
  by_cases hskip : task.skipBogonFiltering
  · simp only [filterBogons, keptRecords, if_pos hskip]
  · simp only [filterBogons, keptRecords, if_neg hskip, List.filter_map]
    congr 1
    apply List.filter_congr
    intro r hr
    have hmem : (toBatchRecordInput r).targetAddress ∈
        (delta.map toBatchRecordInput).map BatchRecordInput.targetAddress :=
      List.mem_map_of_mem (List.mem_map_of_mem hr)
    simp only [Function.comp_apply, mem_sanitize, hmem, true_and]
    exact Bool.decide_coe _

/-- The chunks a run pushes to every target. -/
def pushedChunks (parse : String → Option IpNetwork) (task : VaultSyncTask)
    (delta : List IpRecordResponse) : List (List BatchRecordInput) :=
  chunkRecords ((keptRecords parse task delta).map toBatchRecordInput) maxBatchSize

theorem flatten_pushedChunks (parse : String → Option IpNetwork) (task : VaultSyncTask)
    (delta : List IpRecordResponse) :
    (pushedChunks parse task delta).flatten =
      (keptRecords parse task delta).map toBatchRecordInput :=
  flatten_chunkRecords (by decide) _

theorem targetsOf_distinct (db : Db) (task : VaultSyncTask) :
    DistinctTargets (targetsOf db task) where
  nodup := by
    have hkeys := db.vaultSyncTaskTargets.nodup
    have hrows : ((db.vaultSyncTaskTargets.rows.filter fun r => r.vaultSyncTaskId = task.id).map
        fun r => (r.vaultSyncTaskId, r.targetVaultId)).Nodup :=
      hkeys.sublist (List.filter_sublist.map _)
    rw [targetsOf, List.map_map]
    refine List.Nodup.map_on ?_ (List.Nodup.of_map _ hrows)
    intro r hr s hs hsame
    have hr' : r.vaultSyncTaskId = task.id := by simpa using (List.mem_filter.mp hr).2
    have hs' : s.vaultSyncTaskId = task.id := by simpa using (List.mem_filter.mp hs).2
    have hpair : (r.vaultSyncTaskId, r.targetVaultId) = (s.vaultSyncTaskId, s.targetVaultId) :=
      Prod.ext (hr'.trans hs'.symm) hsame
    exact List.inj_on_of_nodup_map hrows hr hs hpair
  vault_id := by
    intro target htarget vault hvault
    obtain ⟨r, -, rfl⟩ := List.mem_map.mp htarget
    exact Table.key_of_find? hvault

/-! ### One run is exact -/

section

variable (http : Http W) (parse : String → Option IpNetwork) (maxRetries : ℕ)

/-- **The push and its summary.**  The flag that advances the cursor and the status of the
summary say precisely which targets took every chunk. -/
theorem pushDelta_exact (task : VaultSyncTask) (sourceVault : VaultEndpoint)
    (targets : List PushTarget) (hdistinct : DistinctTargets targets)
    (delta : List IpRecordResponse) (w : W) :
    let out := pushDelta (journaled http) parse maxRetries task sourceVault targets delta (w, [])
    let took := TookEverything (pushedChunks parse task delta) out.2.2
    (out.1.2 ↔ ∀ target ∈ targets, took target) ∧
      (out.1.1.status = .success ↔
        (∀ target ∈ targets, took target) ∧ ¬(task.lastSyncAt = none ∧ delta = [])) ∧
      (out.1.1.status = .failed ↔
        (∃ target ∈ targets, ¬took target) ∧ ∀ target ∈ targets, ¬took target) ∧
      (∀ a ∈ accepted out.2.2, a.mode = .upsert) ∧
      (∀ a ∈ out.2.2, ∃ target ∈ targets,
        target.vault = some a.endpoint ∧ a.groupName = target.groupName) := by
  intro out took
  have hne : ∀ chunk ∈ pushedChunks parse task delta, chunk ≠ [] :=
    fun _ => ne_nil_of_mem_chunkRecords
  have hpush := pushTargets_exact http maxRetries (fun _ => .upsert)
    (pushedChunks parse task delta) hne targets hdistinct (initialTotals targets) w
  have hout : out = pushDelta (journaled http) parse maxRetries task sourceVault targets delta
      (w, []) := rfl
  simp only [pushDelta, filterBogons_fst] at hout
  rw [← pushedChunks] at hout
  generalize hpushed : pushTargets (journaled http) maxRetries (fun _ => .upsert)
    (pushedChunks parse task delta) targets (initialTotals targets) (w, []) = pushed at hpush hout
  have hattempts : out.2.2 = pushed.2.2 := by rw [hout]
  rw [← hattempts] at hpush
  have hempty : (task.lastSyncAt.isNone && (delta.map toBatchRecordInput).isEmpty) = true ↔
      task.lastSyncAt = none ∧ delta = [] := by
    simp
  generalize (task.lastSyncAt.isNone && (delta.map toBatchRecordInput).isEmpty) = first
    at hout hempty
  have hflag : out.1.2 = pushed.1.allSucceeded := by rw [hout]
  have hstatus : out.1.1.status = statusOf pushed.1 first := by rw [hout]
  have herrors : pushed.1.errors = [] ↔ ∀ target ∈ targets, took target := by
    simpa [initialTotals] using hpush.errors_iff
  have hany : pushed.1.anySuccess ↔ targets = [] ∨ ∃ target ∈ targets, took target := by
    simpa [initialTotals] using hpush.anySuccess_iff
  refine ⟨?_, ?_, ?_, hpush.upserts fun _ => rfl, hpush.sentTo⟩
  · rw [hflag]
    simpa [initialTotals] using hpush.allSucceeded_iff
  · rw [hstatus, statusOf, ← herrors, ← hempty]
    by_cases herr : pushed.1.errors = []
    · cases first <;> simp [herr]
    · cases pushed.1.anySuccess <;> simp [herr]
  · rw [hstatus, statusOf]
    by_cases herr : pushed.1.errors = []
    · have hall := herrors.mp herr
      have hright : ¬((∃ target ∈ targets, ¬took target) ∧ ∀ target ∈ targets, ¬took target) := by
        intro ⟨⟨target, ht, hno⟩, _⟩
        exact hno (hall target ht)
      rw [iff_false_right hright]
      cases first <;> simp [herr]
    · have hsome : ∃ target ∈ targets, ¬took target := by
        by_contra hno
        apply herr
        rw [herrors]
        intro target ht
        by_contra hbad
        exact hno ⟨target, ht, hbad⟩
      have hnonempty : targets ≠ [] := by
        obtain ⟨target, ht, -⟩ := hsome
        exact List.ne_nil_of_mem ht
      have hnone : pushed.1.anySuccess = false ↔ ∀ target ∈ targets, ¬took target := by
        rw [← Bool.not_eq_true, hany]
        simp [hnonempty]
      rw [← hnone]
      cases pushed.1.anySuccess <;> simp [herr, hsome]

/-- Every attempt of a run, accepted or not, upserts kept records of the delta. -/
theorem pushDelta_carries (task : VaultSyncTask) (sourceVault : VaultEndpoint)
    (targets : List PushTarget) (delta : List IpRecordResponse) (w : W) :
    ∀ a ∈ (pushDelta (journaled http) parse maxRetries task sourceVault targets delta
        (w, [])).2.2,
      a.mode = .upsert ∧
        ∀ r ∈ a.records, r ∈ (keptRecords parse task delta).map toBatchRecordInput := by
  have hcarries := pushTargets_carries http maxRetries (fun _ => .upsert) (fun _ => rfl)
    (pushedChunks parse task delta) targets (initialTotals targets) w
  rw [flatten_pushedChunks] at hcarries
  simp only [pushDelta, filterBogons_fst]
  exact hcarries

variable (db : Db) (task : VaultSyncTask) (w : W)

/-- The source vault exists and answered the fetch with `delta`. -/
def Fetched (delta : List IpRecordResponse) : Prop :=
  ∃ source fuel w₁, db.vaultEndpoints.find? task.sourceVaultId = some source ∧
    getIpsDelta http maxRetries fuel source task.sourceGroupName task.lastSyncAt true w =
      some (.ok delta, w₁)

/-- The source vault exists and the fetch from it failed. -/
def FetchFailed : Prop :=
  ∃ source fuel e w₁, db.vaultEndpoints.find? task.sourceVaultId = some source ∧
    getIpsDelta http maxRetries fuel source task.sourceGroupName task.lastSyncAt true w =
      some (.error e, w₁)

/-- The source vault exists, the fetch succeeded, every configured target vault exists, and every
chunk was accepted by every target. -/
def FullyDelivered (attempts : List Attempt) : Prop :=
  ∃ delta, Fetched http maxRetries db task w delta ∧
    ∀ target ∈ targetsOf db task, TookEverything (pushedChunks parse task delta) attempts target

/-- Some configured target failed or is missing, and none accepted everything. -/
def NothingDelivered (attempts : List Attempt) : Prop :=
  ∃ delta, Fetched http maxRetries db task w delta ∧
    (∃ target ∈ targetsOf db task,
      ¬TookEverything (pushedChunks parse task delta) attempts target) ∧
    ∀ target ∈ targetsOf db task, ¬TookEverything (pushedChunks parse task delta) attempts target

variable {http parse maxRetries db task w} {fuel : ℕ}

theorem Fetched.unique {delta delta' : List IpRecordResponse}
    (h : Fetched http maxRetries db task w delta)
    (h' : Fetched http maxRetries db task w delta') : delta = delta' := by
  obtain ⟨source, fuel, w₁, hsource, hfetch⟩ := h
  obtain ⟨source', fuel', w₁', hsource', hfetch'⟩ := h'
  obtain rfl := Option.some.inj (hsource.symm.trans hsource')
  have hsame := getIpsDelta_unique hfetch hfetch'
  exact Except.ok.inj (Prod.mk.inj hsame).1

theorem Fetched.not_failed {delta : List IpRecordResponse}
    (h : Fetched http maxRetries db task w delta) :
    ¬FetchFailed http maxRetries db task w := by
  intro ⟨source', fuel', e, w₁', hsource', hfetch'⟩
  obtain ⟨source, fuel, w₁, hsource, hfetch⟩ := h
  obtain rfl := Option.some.inj (hsource.symm.trans hsource')
  have hsame := getIpsDelta_unique hfetch hfetch'
  cases (Prod.mk.inj hsame).1

/-- How `execute` can end: without a source, with a failed fetch, or with a push. -/
theorem execute_journaled_cases {out : (JobSummary × Bool) × W × List Attempt}
    (h : execute (journaled http) parse maxRetries fuel task
      (db.vaultEndpoints.find? task.sourceVaultId) (targetsOf db task) (w, []) = some out) :
    (db.vaultEndpoints.find? task.sourceVaultId = none ∧ out.1.1.status = .failed ∧
        out.1.2 = false ∧ out.2.2 = []) ∨
      (FetchFailed http maxRetries db task w ∧ out.1.1.status = .failed ∧
        out.1.2 = false ∧ out.2.2 = []) ∨
      ∃ delta source w₁, Fetched http maxRetries db task w delta ∧
        out = pushDelta (journaled http) parse maxRetries task source (targetsOf db task) delta
          (w₁, []) := by
  cases hsource : db.vaultEndpoints.find? task.sourceVaultId with
  | none =>
      rw [hsource, execute] at h
      obtain rfl := Option.some.inj h
      exact Or.inl ⟨rfl, rfl, rfl, rfl⟩
  | some source =>
      rw [hsource, execute, getIpsDelta_journaled] at h
      cases hfetch : getIpsDelta http maxRetries fuel source task.sourceGroupName task.lastSyncAt
        true w with
      | none =>
          rw [hfetch] at h
          simp at h
      | some fetched =>
          obtain ⟨result, w₁⟩ := fetched
          rw [hfetch] at h
          cases result with
          | error e =>
              obtain rfl := Option.some.inj h
              exact Or.inr (Or.inl ⟨⟨source, fuel, e, w₁, hsource, hfetch⟩, rfl, rfl, rfl⟩)
          | ok delta =>
              obtain rfl := Option.some.inj h
              exact Or.inr (Or.inr ⟨delta, source, w₁, ⟨source, fuel, w₁, hsource, hfetch⟩, rfl⟩)

end

/-- The row of the task after a run, and the log the run leaves. -/
theorem recordRun_spec {db : Db} {task : VaultSyncTask}
    (htask : db.vaultSyncTasks.find? task.id = some task) (startedAt : ℤ) (summary : JobSummary)
    (allTargetsSucceeded : Bool) :
    (recordRun db task startedAt summary allTargetsSucceeded).vaultSyncTasks.find? task.id =
        some { task with
          lastSyncAt := if allTargetsSucceeded then some startedAt else task.lastSyncAt } ∧
      ∃ row, (recordRun db task startedAt summary allTargetsSucceeded).syncLogs =
          db.syncLogs ++ [row] ∧ row.jobId = task.id ∧ row.status = summary.status := by
  cases allTargetsSucceeded with
  | false => exact ⟨htask, ⟨_, rfl, rfl, rfl⟩⟩
  | true =>
      refine ⟨?_, ⟨_, rfl, rfl, rfl⟩⟩
      simp only [recordRun, if_true, Db.setLastSyncAt, Table.find?_modify_self]
      rw [show (writeSyncLog db "VAULT_SYNC" task.id task.name summary startedAt).vaultSyncTasks =
        db.vaultSyncTasks from rfl, htask, Option.map_some]

/-- The record sent has the address, the cause, the deletion flag and the times of the record
fetched. -/
structure Carries (sent : BatchRecordInput) (fetched : IpRecordResponse) : Prop where
  targetAddress : sent.targetAddress = fetched.targetAddress
  cause : sent.cause = fetched.cause
  isDeleted : sent.isDeleted = some fetched.isDeleted
  createdAt : sent.createdAt = fetched.createdAt
  updatedAt : sent.updatedAt = fetched.updatedAt
  lastSeenAt : sent.lastSeenAt = fetched.lastSeenAt
  deletedAt : sent.deletedAt = fetched.deletedAt

theorem carries_toBatchRecordInput (records : List IpRecordResponse) :
    List.Forall₂ Carries (records.map toBatchRecordInput) records := by
  rw [List.forall₂_map_left_iff, List.forall₂_same]
  exact fun r _ => ⟨rfl, rfl, rfl, rfl, rfl, rfl, rfl⟩

/-- What one run of a task leaves behind, in terms of the journal of its attempts. -/
structure RunExact (http : Http W) (parse : String → Option IpNetwork) (maxRetries : ℕ)
    (startedAt : ℤ) (db : Db) (task : VaultSyncTask) (w : W) (db' : Db)
    (attempts : List Attempt) : Prop where
  /-- A full delivery sets the cursor to the start of the run. -/
  cursor_set : FullyDelivered http parse maxRetries db task w attempts →
    db'.vaultSyncTasks.find? task.id = some { task with lastSyncAt := some startedAt }
  /-- Without one the task's row is as it was. -/
  cursor_kept : ¬FullyDelivered http parse maxRetries db task w attempts →
    db'.vaultSyncTasks.find? task.id = some task
  /-- A full delivery gives each target exactly the kept records, in order, field by field. -/
  accepted_carries : FullyDelivered http parse maxRetries db task w attempts →
    ∀ delta, Fetched http maxRetries db task w delta → ∀ target ∈ targetsOf db task,
      List.Forall₂ Carries (acceptedRecords (attemptsToVault target.vaultId attempts))
        (keptRecords parse task delta)
  /-- Everything accepted is an upsert. -/
  upserts : ∀ a ∈ accepted attempts, a.mode = .upsert
  /-- Every attempt goes to a configured target, under the group name that applies to it. -/
  sentTo : ∀ a ∈ attempts, ∃ target ∈ targetsOf db task,
    target.vault = some a.endpoint ∧ a.groupName = target.groupName
  /-- One log row, whose status tells which case it was. -/
  logged : ∃ row, db'.syncLogs = db.syncLogs ++ [row] ∧ row.jobId = task.id ∧
    (row.status = .success ↔ FullyDelivered http parse maxRetries db task w attempts ∧
      ¬(task.lastSyncAt = none ∧ Fetched http maxRetries db task w [])) ∧
    (row.status = .failed ↔ db.vaultEndpoints.find? task.sourceVaultId = none ∨
      FetchFailed http maxRetries db task w ∨
      NothingDelivered http parse maxRetries db task w attempts)

section

variable {http : Http W} {parse : String → Option IpNetwork} {maxRetries : ℕ}
  {startedAt : ℤ} {db : Db} {task : VaultSyncTask} {w : W}

/-- A run that ends before the push sends nothing, delivers nothing and logs a failure. -/
theorem RunExact.of_not_pushed (htask : db.vaultSyncTasks.find? task.id = some task)
    (summary : JobSummary) (hfailed : summary.status = .failed)
    (hnone : ∀ delta, ¬Fetched http maxRetries db task w delta)
    (hwhy : db.vaultEndpoints.find? task.sourceVaultId = none ∨
      FetchFailed http maxRetries db task w) :
    RunExact http parse maxRetries startedAt db task w
      (recordRun db task startedAt summary false) [] := by
  obtain ⟨hrow, row, hlog, hid, hstatus⟩ := recordRun_spec htask startedAt summary false
  have hno : ¬FullyDelivered http parse maxRetries db task w [] :=
    fun ⟨delta, hdelta, _⟩ => hnone delta hdelta
  refine ⟨fun h => absurd h hno, fun _ => hrow, fun h => absurd h hno, by simp [accepted],
    by simp, row, hlog, hid, ?_, ?_⟩
  · rw [hstatus, hfailed]
    simp [hno]
  · rw [hstatus, hfailed, ← or_assoc]
    simp only [hwhy, true_or]

/-- A run that fetched a delta, from the push of that delta. -/
theorem RunExact.of_pushed (htask : db.vaultSyncTasks.find? task.id = some task)
    {delta : List IpRecordResponse} (hfetched : Fetched http maxRetries db task w delta)
    {source : VaultEndpoint} {w₁ : W} {out : (JobSummary × Bool) × W × List Attempt}
    (hout : out = pushDelta (journaled http) parse maxRetries task source (targetsOf db task)
      delta (w₁, [])) :
    RunExact http parse maxRetries startedAt db task w
      (recordRun db task startedAt out.1.1 out.1.2) out.2.2 := by
  obtain ⟨hrow, row, hlog, hid, hstatus⟩ := recordRun_spec htask startedAt out.1.1 out.1.2
  have hpush := pushDelta_exact http parse maxRetries task source (targetsOf db task)
    (targetsOf_distinct db task) delta w₁
  rw [← hout] at hpush
  obtain ⟨hadvanced, hsuccess, hfailed, hupserts, hsent⟩ := hpush
  have hdelivered : FullyDelivered http parse maxRetries db task w out.2.2 ↔
      ∀ target ∈ targetsOf db task,
        TookEverything (pushedChunks parse task delta) out.2.2 target := by
    constructor
    · intro ⟨delta', hdelta', htook⟩
      exact hfetched.unique hdelta' ▸ htook
    · intro htook
      exact ⟨delta, hfetched, htook⟩
  have hnothing : NothingDelivered http parse maxRetries db task w out.2.2 ↔
      (∃ target ∈ targetsOf db task,
        ¬TookEverything (pushedChunks parse task delta) out.2.2 target) ∧
      ∀ target ∈ targetsOf db task,
        ¬TookEverything (pushedChunks parse task delta) out.2.2 target := by
    constructor
    · intro ⟨delta', hdelta', htook⟩
      exact hfetched.unique hdelta' ▸ htook
    · intro htook
      exact ⟨delta, hfetched, htook⟩
  have hsourceThere : db.vaultEndpoints.find? task.sourceVaultId ≠ none := by
    obtain ⟨source', _, _, hsource', _⟩ := hfetched
    simp [hsource']
  have hfirst : Fetched http maxRetries db task w [] ↔ delta = [] :=
    ⟨fun h => hfetched.unique h, fun h => h ▸ hfetched⟩
  refine ⟨?_, ?_, ?_, hupserts, hsent, row, hlog, hid, ?_, ?_⟩
  · intro hall
    rw [hrow, if_pos (hadvanced.mpr (hdelivered.mp hall))]
  · intro hnot
    rw [hrow, if_neg (fun hadv => hnot (hdelivered.mpr (hadvanced.mp hadv)))]
  · intro hall delta' hdelta' target ht
    have hrecords := (hdelivered.mp hall target ht).2.records
    rw [flatten_pushedChunks] at hrecords
    rw [← hfetched.unique hdelta', acceptedRecords, hrecords]
    exact carries_toBatchRecordInput _
  · rw [hstatus, hsuccess, hdelivered, hfirst]
  · rw [hstatus, hfailed, hnothing]
    simp only [hsourceThere, hfetched.not_failed, false_or]

end

/-- A run that ends, with any fuel, is exact. -/
theorem runExact_of_run {http : Http W} {parse : String → Option IpNetwork} {maxRetries fuel : ℕ}
    {startedAt : ℤ} {db : Db} {task : VaultSyncTask}
    (htask : db.vaultSyncTasks.find? task.id = some task) {w : W}
    {result : Except AppError JobSummary} {db' : Db} {w' : W} {attempts : List Attempt}
    (hrun : run (journaled http) parse maxRetries fuel startedAt task.id db (w, []) =
      some (result, db', w', attempts)) :
    RunExact http parse maxRetries startedAt db task w db' attempts := by
  simp only [run, htask] at hrun
  cases hexec : execute (journaled http) parse maxRetries fuel task
    (db.vaultEndpoints.find? task.sourceVaultId) (targetsOf db task) (w, []) with
  | none =>
      rw [hexec] at hrun
      cases hrun
  | some out =>
      rw [hexec] at hrun
      simp only [Option.some.injEq, Prod.mk.injEq] at hrun
      obtain ⟨-, rfl, hworld⟩ := hrun
      have hattempts : out.2.2 = attempts := by rw [hworld]
      rw [← hattempts]
      rcases execute_journaled_cases hexec with
        ⟨hmissing, hfailed, hnot, hempty⟩ | ⟨hfetch, hfailed, hnot, hempty⟩ |
        ⟨delta, source, w₁, hfetched, hout⟩
      · rw [hnot, hempty]
        refine RunExact.of_not_pushed htask out.1.1 hfailed ?_ (Or.inl hmissing)
        rintro delta ⟨source, fuel, w₁, hsource, _⟩
        rw [hmissing] at hsource
        cases hsource
      · rw [hnot, hempty]
        exact RunExact.of_not_pushed htask out.1.1 hfailed
          (fun delta hdelta => hdelta.not_failed hfetch) (Or.inr hfetch)
      · exact RunExact.of_pushed htask hfetched hout

/-- The source, if it is there, never answers with a full page of this number. -/
def SourceEnds (http : Http W) (db : Db) (task : VaultSyncTask) (k : ℕ) : Prop :=
  ∀ source, db.vaultEndpoints.find? task.sourceVaultId = some source →
    NeverFull http source task.sourceGroupName task.lastSyncAt true (k * deltaPageSize)

/-- **The run ends.**  It needs no more fuel than there are pages, and more does not change it. -/
theorem exists_run {http : Http W} (parse : String → Option IpNetwork) (maxRetries : ℕ)
    (startedAt : ℤ) {db : Db} {task : VaultSyncTask}
    (htask : db.vaultSyncTasks.find? task.id = some task) (w : W) {k : ℕ}
    (hends : SourceEnds http db task k) :
    ∃ summary db' w' attempts, ∀ fuel, k < fuel →
      run (journaled http) parse maxRetries fuel startedAt task.id db (w, []) =
        some (.ok summary, db', w', attempts) := by
  suffices ∃ out, ∀ fuel, k < fuel → execute (journaled http) parse maxRetries fuel task
      (db.vaultEndpoints.find? task.sourceVaultId) (targetsOf db task) (w, []) = some out by
    obtain ⟨⟨⟨summary, allTargetsSucceeded⟩, w', attempts⟩, hout⟩ := this
    refine ⟨summary, recordRun db task startedAt summary allTargetsSucceeded, w', attempts, ?_⟩
    intro fuel hfuel
    simp only [run, htask, hout fuel hfuel]
  cases hsource : db.vaultEndpoints.find? task.sourceVaultId with
  | none => exact ⟨_, fun fuel _ => rfl⟩
  | some source =>
      have hfull := hends source hsource
      rw [← Nat.zero_add (k * deltaPageSize)] at hfull
      have hfetch : (getIpsDelta http maxRetries (k + 1) source task.sourceGroupName
          task.lastSyncAt true w).isSome := getIpsDeltaFrom_isSome k hfull (Nat.lt_succ_self k)
      obtain ⟨⟨result, w₁⟩, hfetched⟩ := Option.isSome_iff_exists.mp hfetch
      have hall : ∀ fuel, k < fuel → getIpsDelta http maxRetries fuel source task.sourceGroupName
          task.lastSyncAt true w = some (result, w₁) :=
        fun fuel hfuel => getIpsDelta_mono hfuel hfetched
      cases result with
      | error e =>
          refine ⟨((failedSummary ("delta fetch from '" ++ source.name ++ "' failed: " ++
            e.display), false), w₁, []), fun fuel hfuel => ?_⟩
          rw [execute, getIpsDelta_journaled, hall fuel hfuel]
          rfl
      | ok delta =>
          refine ⟨pushDelta (journaled http) parse maxRetries task source (targetsOf db task) delta
            (w₁, []), fun fuel hfuel => ?_⟩
          rw [execute, getIpsDelta_journaled, hall fuel hfuel]
          rfl

/-- **One vault-sync run is exact.**  For every task, every delta and every pattern of missing
vaults, fetch failures and push failures: the cursor is set to the start of the run precisely when
the run is fully delivered, and stays where it was otherwise; a full delivery gives each target
exactly the kept records, in order, as upserts; and the logged status tells which case it was.
This holds of every run that ends, and a run ends, whatever else happens, unless the source answers
with one full page after the other for ever. -/
theorem run_exact (http : Http W) (parse : String → Option IpNetwork) (maxRetries : ℕ)
    (startedAt : ℤ) (db : Db) (task : VaultSyncTask)
    (htask : db.vaultSyncTasks.find? task.id = some task) (w : W) :
    (∀ fuel result db' w' attempts,
      run (journaled http) parse maxRetries fuel startedAt task.id db (w, []) =
          some (result, db', w', attempts) →
        RunExact http parse maxRetries startedAt db task w db' attempts) ∧
      ∀ k, SourceEnds http db task k → ∃ summary db' w' attempts,
        (∀ fuel, k < fuel →
          run (journaled http) parse maxRetries fuel startedAt task.id db (w, []) =
            some (.ok summary, db', w', attempts)) ∧
        RunExact http parse maxRetries startedAt db task w db' attempts := by
  refine ⟨fun fuel result db' w' attempts hrun => runExact_of_run htask hrun, ?_⟩
  intro k hends
  obtain ⟨summary, db', w', attempts, hrun⟩ :=
    exists_run parse maxRetries startedAt htask w hends
  exact ⟨summary, db', w', attempts, hrun, runExact_of_run htask (hrun (k + 1) (Nat.lt_succ_self k))⟩

/-- A source that serves one public and one private address, and targets that take everything. -/
def twoRecordVault : Http Unit where
  postBatchOnce _ _ _ _ w := (.ok .default, w)
  getIpsPage _ groupName _ _ _ w :=
    (.ok [⟨"8.8.8.8/32", groupName, none, false, none, none, none, some 5⟩,
      ⟨"10.0.0.1/32", groupName, none, false, none, none, none, some 5⟩], w)
  backoff _ w := w

theorem run_exact_of_two_records :
    let parse : String → Option IpNetwork := fun s =>
      if s = "8.8.8.8/32" then some (v4Literal 8 8 8 8 32)
      else if s = "10.0.0.1/32" then some (v4Literal 10 0 0 1 32)
      else none
    let vault (id : Uuid) : VaultEndpoint := ⟨id, "edge", "https://edge", "key", "secret"⟩
    let task : VaultSyncTask := ⟨7, "mirror", 1, "ban", "ban", "0 * * * * *", none, true, false⟩
    let db : Db :=
      { vaultEndpoints := ⟨[vault 1, vault 2], by decide⟩
        vaultSyncTasks := ⟨[task], by decide⟩
        vaultSyncTaskTargets := ⟨[⟨7, 2, none⟩], by decide⟩
        destinationGroups := .empty
        destinationGroupVaultTargets := .empty
        externalSources := .empty
        syncLogs := [] }
    ∃ summary db' attempts,
      run (journaled twoRecordVault) parse 3 1 1000 7 db ((), []) =
        some (.ok summary, db', (), attempts) ∧
      RunExact twoRecordVault parse 3 1000 db task () db' attempts ∧
      acceptedRecords attempts =
        [⟨"8.8.8.8/32", none, some false, none, none, some 5, none⟩] := by
  intro parse vault task db
  have hends : SourceEnds twoRecordVault db task 0 := by
    intro source _ w page w' hpage
    obtain ⟨hrecords, -⟩ := Prod.mk.inj hpage
    rw [← Except.ok.inj hrecords]
    decide
  obtain ⟨summary, db', w', attempts, hrun, hexact⟩ :=
    (run_exact twoRecordVault parse 3 1000 db task (by decide) ()).2 0 hends
  have hone := hrun 1 Nat.one_pos
  have haccepted : ((run (journaled twoRecordVault) parse 3 1 1000 7 db ((), [])).map fun out =>
      acceptedRecords out.2.2.2) =
        some [⟨"8.8.8.8/32", none, some false, none, none, some 5, none⟩] := by
    decide +kernel
  rw [hone] at haccepted
  exact ⟨summary, db', attempts, hone, hexact, Option.some.inj haccepted⟩

end SimplyIpSync.Jobs.VaultSync
