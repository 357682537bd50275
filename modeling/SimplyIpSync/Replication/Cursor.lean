import SimplyIpSync.Api.Transactions
import SimplyIpSync.Jobs.VaultSync
import SimplyIpSync.Lib.Reach
import SimplyIpSync.Replication.Snapshot

/-!
# What the cursor of a task stands for

One vault-sync task, its source vaults and its targets, as a system: the steps of a run are taken one
at a time, and between any two of them the source may change and the task may be edited.  The cursor
is one moment, but it stands for a source, a group, a filter and a list of targets: those the run
that set it had read.  `Coverage` keeps them for the account; no code sees it.

As long as the task stays within its coverage, no record is lost (`nothing_lost`).
-/

namespace SimplyIpSync.Replication

open SimplyIpSync.Entities SimplyIpSync.Storage SimplyIpSync.Store SimplyIpSync.Client
open SimplyIpSync.Bogon SimplyIpSync.Jobs SimplyIpSync.Jobs.VaultSync SimplyIpSync.Api
open SimplyIpSync.Reach

variable {W : Type*}

/-! ### The system -/

/-- A run in progress, with what it has read and done so far. -/
inductive Run
  | started (startedAt : ℤ)
  | readTask (startedAt : ℤ) (task : VaultSyncTask)
  | readSource (startedAt : ℤ) (task : VaultSyncTask) (sourceVault : Option VaultEndpoint)
  | readTargets (startedAt : ℤ) (task : VaultSyncTask) (sourceVault : Option VaultEndpoint)
      (targets : List PushTarget)
  | fetched (startedAt : ℤ) (task : VaultSyncTask) (sourceVault : VaultEndpoint)
      (targets : List PushTarget) (delta : List IpRecordResponse)
  | executed (startedAt : ℤ) (task : VaultSyncTask) (targets : List PushTarget)
      (summary : JobSummary) (allTargetsSucceeded : Bool)

/-- What the run that set the cursor had read. -/
structure Coverage where
  startedAt : ℤ
  task : VaultSyncTask
  vaultIds : List Uuid

/-- The state: the clock, the database, the groups of the source vaults, the run in progress, the
world of the outbound calls, and which vault has accepted which record. -/
structure CursorSystem (W : Type*) where
  now : ℤ
  db : Db
  sources : Uuid → String → Records
  run : Option Run
  world : W
  ledger : List (Uuid × BatchRecordInput)
  coverage : Option Coverage

/-- What happens next: the clock moves, a source record changes, the task is edited, or the run takes
a step.  A fetch leaves some world behind, and may fail. -/
inductive CursorEvent (W : Type*)
  | tick (now : ℤ)
  | change (vaultId : Uuid) (groupName : String) (record : IpRecordResponse)
  | patch (payload : UpdateVaultSyncTaskPayload)
  | start
  | read
  | fetch (failure : Option ClientError) (world : W)
  | push
  | record
  | abandon

/-- The records accepted in a journal, each with the vault that accepted it. -/
def deliveries (attempts : List Attempt) : List (Uuid × BatchRecordInput) :=
  (accepted attempts).flatMap fun a => a.records.map fun r => (a.endpoint.id, r)

section

variable (http : Http W) (parse : String → Option IpNetwork) (maxRetries : ℕ) (taskId : Uuid)

/-- The next read of a run. -/
def readNext (db : Db) : Run → Option (Option Run)
  | .started startedAt => some ((db.vaultSyncTasks.find? taskId).map (.readTask startedAt))
  | .readTask startedAt task =>
      some (some (.readSource startedAt task (db.vaultEndpoints.find? task.sourceVaultId)))
  | .readSource startedAt task sourceVault =>
      some (some (.readTargets startedAt task sourceVault (targetsOf db task)))
  | _ => none

/-- The fetch of a run: it fails, or it answers from one snapshot of the source. -/
def fetchNext (sources : Uuid → String → Records) (failure : Option ClientError) :
    Run → Option Run
  | .readTargets startedAt task none targets =>
      some (.executed startedAt task targets
        (failedSummary "source vault endpoint no longer exists") false)
  | .readTargets startedAt task (some sourceVault) targets =>
      match failure with
      | some e =>
          some (.executed startedAt task targets (failedSummary
            ("delta fetch from '" ++ sourceVault.name ++ "' failed: " ++ e.display)) false)
      | none =>
          some (.fetched startedAt task sourceVault targets
            (snapshot (sources task.sourceVaultId task.sourceGroupName) task.lastSyncAt))
  | _ => none

/-- One event. -/
def CursorSystem.step (s : CursorSystem W) : CursorEvent W → Option (CursorSystem W)
  | .tick now => if s.now ≤ now then some { s with now := now } else none
  | .change vaultId groupName record =>
      if stamp record = some s.now then
        some { s with
          sources := fun v g =>
            if v = vaultId ∧ g = groupName then (s.sources v g).upsert record else s.sources v g }
      else none
  | .patch payload =>
      (updateVaultSyncTask s.db taskId payload).map fun out => { s with db := out.1 }
  | .start =>
      match s.run with
      | none => some { s with run := some (.started s.now) }
      | some _ => none
  | .read =>
      (s.run.bind (readNext taskId s.db)).map fun run => { s with run := run }
  | .fetch failure world =>
      (s.run.bind (fetchNext s.sources failure)).map fun run =>
        { s with run := some run, world := world }
  | .push =>
      match s.run with
      | some (.fetched startedAt task sourceVault targets delta) =>
          let out := pushDelta (journaled http) parse maxRetries task sourceVault targets delta
            (s.world, [])
          some { s with
            run := some (.executed startedAt task targets out.1.1 out.1.2)
            world := out.2.1
            ledger := s.ledger ++ deliveries out.2.2 }
      | _ => none
  | .record =>
      match s.run with
      | some (.executed startedAt task targets summary allTargetsSucceeded) =>
          some { s with
            db := recordRun s.db task startedAt summary allTargetsSucceeded
            run := none
            coverage := if allTargetsSucceeded then
                some ⟨startedAt, task, targets.map PushTarget.vaultId⟩
              else s.coverage }
      | _ => none
  | .abandon => if s.run.isSome then some { s with run := none } else none

/-- The start: nothing has run and nothing has been accepted. -/
def CursorSystem.start (now : ℤ) (db : Db) (sources : Uuid → String → Records) (world : W) :
    CursorSystem W where
  now := now
  db := db
  sources := sources
  run := none
  world := world
  ledger := []
  coverage := none

end

/-! ### What is claimed, and when it holds -/

section

variable (http : Http W) (parse : String → Option IpNetwork) (maxRetries : ℕ) (taskId : Uuid)

/-- The record passes the bogon filter of the task. -/
def Passes (task : VaultSyncTask) (r : IpRecordResponse) : Prop :=
  task.skipBogonFiltering ∨ isKept parse r.targetAddress

/-- Every vault of the list has accepted every record of the group, in its present version, that
passes the filter and got its state before `t`. -/
def Delivered (s : CursorSystem W) (task : VaultSyncTask) (t : ℤ) (vaultIds : List Uuid) : Prop :=
  ∀ r ∈ (s.sources task.sourceVaultId task.sourceGroupName).rows, Passes parse task r →
    Before t r → ∀ v ∈ vaultIds, (v, toBatchRecordInput r) ∈ s.ledger

instance (task : VaultSyncTask) (r : IpRecordResponse) : Decidable (Passes parse task r) :=
  inferInstanceAs (Decidable (_ ∨ _))

instance (s : CursorSystem W) (task : VaultSyncTask) (t : ℤ) (vaultIds : List Uuid) :
    Decidable (Delivered parse s task t vaultIds) :=
  inferInstanceAs (Decidable (∀ r ∈ (s.sources _ _).rows, _))

/-- **No record is lost:** what got its state before the cursor has been accepted, as the task is
configured now. -/
def NothingLost (s : CursorSystem W) : Prop :=
  ∀ task ∈ s.db.vaultSyncTasks.find? taskId, ∀ t ∈ task.lastSyncAt,
    Delivered parse s task t ((targetsOf s.db task).map PushTarget.vaultId)

instance (s : CursorSystem W) : Decidable (NothingLost parse taskId s) :=
  inferInstanceAs (Decidable (∀ task ∈ s.db.vaultSyncTasks.find? taskId, _))

/-- The task reads from the group that was read, and its filter is no looser. -/
def SameSource (c : Coverage) (task : VaultSyncTask) : Prop :=
  task.sourceVaultId = c.task.sourceVaultId ∧ task.sourceGroupName = c.task.sourceGroupName ∧
    (task.skipBogonFiltering → c.task.skipBogonFiltering)

instance (c : Coverage) (task : VaultSyncTask) : Decidable (SameSource c task) :=
  inferInstanceAs (Decidable (_ ∧ _))

/-- The task, with its targets, is within what was read. -/
def Within (c : Coverage) (db : Db) (task : VaultSyncTask) : Prop :=
  SameSource c task ∧ ∀ target ∈ targetsOf db task, target.vaultId ∈ c.vaultIds

instance (c : Coverage) (db : Db) (task : VaultSyncTask) : Decidable (Within c db task) :=
  inferInstanceAs (Decidable (_ ∧ _))

/-- A run that is about to set the cursor finds the task within what it has read. -/
def RecordsWithin (db : Db) : Run → Prop
  | .executed startedAt read targets _ allTargetsSucceeded =>
      allTargetsSucceeded = true → ∀ task ∈ db.vaultSyncTasks.find? taskId,
        Within ⟨startedAt, read, targets.map PushTarget.vaultId⟩ db task
  | _ => True

instance (db : Db) (run : Run) : Decidable (RecordsWithin taskId db run) := by
  cases run with
  | executed startedAt read targets summary allTargetsSucceeded =>
      exact inferInstanceAs (Decidable (allTargetsSucceeded = true → _))
  | _ => exact isTrue trivial

/-- Once the cursor is set, an edit keeps the task within what the run that set it had read; and a run
that sets the cursor finds the task within what it has read itself. -/
def StaysWithin (s : CursorSystem W) : CursorEvent W → Prop
  | .patch payload =>
      ∀ c ∈ s.coverage, ∀ task ∈ s.db.vaultSyncTasks.find? taskId,
        SameSource c (payload.apply task) ∧
          ∀ targets ∈ payload.targets, ∀ t ∈ targets, t.vaultEndpointId ∈ c.vaultIds
  | .record => ∀ run ∈ s.run, RecordsWithin taskId s.db run
  | _ => True

instance (s : CursorSystem W) (e : CursorEvent W) : Decidable (StaysWithin taskId s e) := by
  cases e with
  | patch payload => exact inferInstanceAs (Decidable (∀ c ∈ s.coverage, _))
  | record => exact inferInstanceAs (Decidable (∀ run ∈ s.run, _))
  | _ => exact isTrue trivial

/-! ### The account -/

/-- The run has read a cursor that the current coverage stands for. -/
def CursorRead (s : CursorSystem W) (task : VaultSyncTask) : Prop :=
  task.id = taskId ∧ (∃ row, s.db.vaultSyncTasks.find? taskId = some row ∧
      row.lastSyncAt = task.lastSyncAt) ∧
    ∀ t, task.lastSyncAt = some t → ∃ c ∈ s.coverage, c.startedAt = t ∧ SameSource c task

/-- The targets of a run that starts from a cursor are among those the cursor stands for. -/
def TargetsRead (s : CursorSystem W) (task : VaultSyncTask) (targets : List PushTarget) : Prop :=
  DistinctTargets targets ∧ (task.lastSyncAt ≠ none →
    ∀ c ∈ s.coverage, ∀ target ∈ targets, target.vaultId ∈ c.vaultIds)

/-- What the run in progress has established. -/
def RunInv (s : CursorSystem W) : Run → Prop
  | .started startedAt => startedAt ≤ s.now
  | .readTask startedAt task => startedAt ≤ s.now ∧ CursorRead taskId s task
  | .readSource startedAt task _ => startedAt ≤ s.now ∧ CursorRead taskId s task
  | .readTargets startedAt task _ targets =>
      startedAt ≤ s.now ∧ CursorRead taskId s task ∧ TargetsRead s task targets
  | .fetched startedAt task _ targets delta =>
      startedAt ≤ s.now ∧ CursorRead taskId s task ∧ TargetsRead s task targets ∧
        ∀ r ∈ (s.sources task.sourceVaultId task.sourceGroupName).rows, Before startedAt r →
          r ∈ delta ∨ ∃ since, task.lastSyncAt = some since ∧ Before (cutoff since) r
  | .executed startedAt task targets _ allTargetsSucceeded =>
      startedAt ≤ s.now ∧ task.id = taskId ∧ (allTargetsSucceeded →
        Delivered parse s task startedAt (targets.map PushTarget.vaultId))

/-- The account of a state. -/
structure Accounted (s : CursorSystem W) : Prop where
  exists_task : ∃ task, s.db.vaultSyncTasks.find? taskId = some task
  delivered : ∀ c ∈ s.coverage, c.startedAt ≤ s.now ∧ Delivered parse s c.task c.startedAt c.vaultIds
  cursor : ∀ task, s.db.vaultSyncTasks.find? taskId = some task → ∀ t, task.lastSyncAt = some t →
    ∃ c ∈ s.coverage, c.startedAt = t ∧ Within c s.db task
  run : ∀ run ∈ s.run, RunInv parse taskId s run

variable {http parse maxRetries taskId}

/-- Within the coverage, what the coverage stands for is enough. -/
theorem Delivered.of_sameSource {s : CursorSystem W} {c : Coverage} {task : VaultSyncTask} {t : ℤ}
    {vaultIds : List Uuid} (h : Delivered parse s c.task t c.vaultIds) (hsame : SameSource c task)
    (hsub : ∀ v ∈ vaultIds, v ∈ c.vaultIds) : Delivered parse s task t vaultIds := by
  obtain ⟨hvault, hgroup, hskip⟩ := hsame
  intro r hr hpasses hbefore v hv
  rw [hvault, hgroup] at hr
  refine h r hr ?_ hbefore v (hsub v hv)
  rcases hpasses with hpasses | hkept
  · exact Or.inl (hskip hpasses)
  · exact Or.inr hkept

/-- **The account says that nothing is lost.** -/
theorem Accounted.nothingLost {s : CursorSystem W} (h : Accounted parse taskId s) :
    NothingLost parse taskId s := by
  intro task htask t ht
  obtain ⟨c, hc, rfl, hsame, htargets⟩ := h.cursor task htask t ht
  refine (h.delivered c hc).2.of_sameSource hsame ?_
  intro v hv
  obtain ⟨target, htarget, rfl⟩ := List.mem_map.mp hv
  exact htargets target htarget

/-- The targets of a task, by vault. -/
theorem mem_targetsOf_vaultId {db : Db} {task : VaultSyncTask} {v : Uuid} :
    (∃ target ∈ targetsOf db task, target.vaultId = v) ↔
      ∃ r ∈ db.vaultSyncTaskTargets.rows, r.vaultSyncTaskId = task.id ∧ r.targetVaultId = v := by
  constructor
  · intro ⟨target, htarget, hv⟩
    obtain ⟨r, hr, rfl⟩ := List.mem_map.mp htarget
    obtain ⟨hr, htask⟩ := List.mem_filter.mp hr
    exact ⟨r, hr, by simpa using htask, hv⟩
  · intro ⟨r, hr, htask, hv⟩
    exact ⟨_, List.mem_map_of_mem (List.mem_filter.mpr ⟨hr, by simpa using htask⟩), hv⟩

/-! ### What the account survives -/

/-- Everything but setting the cursor: time passes, sources change in the present, vaults accept
more, and the task keeps its cursor. -/
structure Advances (taskId : Uuid) (s s' : CursorSystem W) : Prop where
  now : s.now ≤ s'.now
  coverage : s'.coverage = s.coverage
  sources : ∀ v g, ∀ r ∈ (s'.sources v g).rows, r ∈ (s.sources v g).rows ∨ stamp r = some s.now
  ledger : ∀ x ∈ s.ledger, x ∈ s'.ledger
  row : ∀ row, s.db.vaultSyncTasks.find? taskId = some row →
    ∃ row', s'.db.vaultSyncTasks.find? taskId = some row' ∧ row'.lastSyncAt = row.lastSyncAt

section

variable {s s' : CursorSystem W} {task : VaultSyncTask} {t : ℤ}

/-- A record that is there afterwards and got its state before the past was there before. -/
theorem Advances.mem_of_before (hadv : Advances taskId s s') (ht : t ≤ s.now) {v : Uuid} {g : String}
    {r : IpRecordResponse} (hr : r ∈ (s'.sources v g).rows) (hbefore : Before t r) :
    r ∈ (s.sources v g).rows := by
  rcases hadv.sources v g r hr with hold | hstamp
  · exact hold
  · exact absurd hbefore (not_before_of_stamp hstamp ht)

theorem Delivered.advance {vaultIds : List Uuid} (h : Delivered parse s task t vaultIds)
    (ht : t ≤ s.now) (hadv : Advances taskId s s') : Delivered parse s' task t vaultIds := by
  intro r hr hpasses hbefore v hv
  exact hadv.ledger _ (h r (hadv.mem_of_before ht hr hbefore) hpasses hbefore v hv)

theorem CursorRead.advance (h : CursorRead taskId s task) (hadv : Advances taskId s s') :
    CursorRead taskId s' task := by
  obtain ⟨hid, ⟨row, hrow, hcursor⟩, hcoverage⟩ := h
  obtain ⟨row', hrow', hcursor'⟩ := hadv.row row hrow
  refine ⟨hid, ⟨row', hrow', hcursor'.trans hcursor⟩, ?_⟩
  rw [hadv.coverage]
  exact hcoverage

theorem TargetsRead.advance {targets : List PushTarget} (h : TargetsRead s task targets)
    (hadv : Advances taskId s s') : TargetsRead s' task targets := by
  refine ⟨h.1, ?_⟩
  rw [hadv.coverage]
  exact h.2

theorem RunInv.advance {run : Run} (h : RunInv parse taskId s run) (hadv : Advances taskId s s') :
    RunInv parse taskId s' run := by
  cases run with
  | started startedAt => exact h.trans hadv.now
  | readTask startedAt task => exact ⟨h.1.trans hadv.now, h.2.advance hadv⟩
  | readSource startedAt task sourceVault => exact ⟨h.1.trans hadv.now, h.2.advance hadv⟩
  | readTargets startedAt task sourceVault targets =>
      exact ⟨h.1.trans hadv.now, h.2.1.advance hadv, h.2.2.advance hadv⟩
  | fetched startedAt task sourceVault targets delta =>
      obtain ⟨hnow, hread, htargets, hdelta⟩ := h
      refine ⟨hnow.trans hadv.now, hread.advance hadv, htargets.advance hadv, ?_⟩
      intro r hr hbefore
      exact hdelta r (hadv.mem_of_before hnow hr hbefore) hbefore
  | executed startedAt task targets summary allTargetsSucceeded =>
      obtain ⟨hnow, hid, hdelivered⟩ := h
      exact ⟨hnow.trans hadv.now, hid, fun hall => (hdelivered hall).advance hnow hadv⟩

/-- The account survives if the edited task stays covered and the run's next step is accounted for. -/
theorem Accounted.advance (h : Accounted parse taskId s) (hadv : Advances taskId s s')
    (hcursor : ∀ row, s'.db.vaultSyncTasks.find? taskId = some row → ∀ t, row.lastSyncAt = some t →
      ∃ c ∈ s.coverage, c.startedAt = t ∧ Within c s'.db row)
    (hrun : ∀ run ∈ s'.run, RunInv parse taskId s' run) : Accounted parse taskId s' where
  exists_task := by
    obtain ⟨row, hrow⟩ := h.exists_task
    obtain ⟨row', hrow', -⟩ := hadv.row row hrow
    exact ⟨row', hrow'⟩
  delivered := by
    rw [hadv.coverage]
    intro c hc
    obtain ⟨hnow, hdelivered⟩ := h.delivered c hc
    exact ⟨hnow.trans hadv.now, hdelivered.advance hnow hadv⟩
  cursor := by
    rw [hadv.coverage]
    exact hcursor
  run := hrun

/-- A step that leaves the database alone. -/
theorem Accounted.advance_of_db (h : Accounted parse taskId s) (hadv : Advances taskId s s')
    (hdb : s'.db = s.db) (hrun : ∀ run ∈ s'.run, RunInv parse taskId s' run) :
    Accounted parse taskId s' := by
  refine h.advance hadv ?_ hrun
  rw [hdb]
  exact h.cursor

/-- Nothing but the run, the world and the ledger moved. -/
theorem advances_of_run {run : Option Run} {world : W} {ledger : List (Uuid × BatchRecordInput)} :
    Advances taskId s { s with run := run, world := world, ledger := s.ledger ++ ledger } where
  now := le_rfl
  coverage := rfl
  sources := fun _ _ _ hr => Or.inl hr
  ledger := fun _ hx => List.mem_append_left _ hx
  row := fun row hrow => ⟨row, hrow, rfl⟩

end

/-! ### The events -/

section

variable {s s' : CursorSystem W}

theorem Accounted.tick {now : ℤ} (h : Accounted parse taskId s) (hnow : s.now ≤ now) :
    Accounted parse taskId { s with now := now } := by
  have hadv : Advances taskId s { s with now := now } :=
    ⟨hnow, rfl, fun _ _ _ hr => Or.inl hr, fun _ hx => hx, fun row hrow => ⟨row, hrow, rfl⟩⟩
  exact h.advance_of_db hadv rfl fun run hrun => (h.run run hrun).advance hadv

theorem Accounted.change {vaultId : Uuid} {groupName : String} {record : IpRecordResponse}
    (h : Accounted parse taskId s) (hstamp : stamp record = some s.now) :
    Accounted parse taskId { s with
      sources := fun v g =>
        if v = vaultId ∧ g = groupName then (s.sources v g).upsert record else s.sources v g } := by
  have hadv : Advances taskId s { s with
      sources := fun v g =>
        if v = vaultId ∧ g = groupName then (s.sources v g).upsert record else s.sources v g } := by
    refine ⟨le_rfl, rfl, ?_, fun _ hx => hx, fun row hrow => ⟨row, hrow, rfl⟩⟩
    intro v g r hr
    simp only at hr
    split at hr
    · rcases List.mem_append.mp hr with hr | hr
      · exact Or.inl (List.mem_filter.mp hr).1
      · exact Or.inr (List.mem_singleton.mp hr ▸ hstamp)
    · exact Or.inl hr
  exact h.advance_of_db hadv rfl fun run hrun => (h.run run hrun).advance hadv

/-- An edit that stays within the coverage. -/
theorem Accounted.patch {payload : UpdateVaultSyncTaskPayload} {db' : Db} {updated : VaultSyncTask}
    (h : Accounted parse taskId s)
    (hgood : StaysWithin taskId s (.patch payload : CursorEvent W))
    (hpatch : updateVaultSyncTask s.db taskId payload = some (db', updated)) :
    Accounted parse taskId { s with db := db' } := by
  obtain ⟨existing, hexisting, hupdated, htasks, -, -, htargets⟩ := updateVaultSyncTask_spec hpatch
  have hrow : db'.vaultSyncTasks.find? taskId = some (payload.apply existing) := by
    rw [htasks, Table.find?_modify_self, hexisting, Option.map_some]
  have hadv : Advances taskId s { s with db := db' } := by
    refine ⟨le_rfl, rfl, fun _ _ _ hr => Or.inl hr, fun _ hx => hx, ?_⟩
    intro row hold
    obtain rfl := Option.some.inj (hold.symm.trans hexisting)
    exact ⟨payload.apply row, hrow, rfl⟩
  refine h.advance hadv ?_ fun run hrun => (h.run run hrun).advance hadv
  intro row hrow' t ht
  obtain rfl := Option.some.inj (hrow'.symm.trans hrow)
  obtain ⟨c, hc, hstart, -, hcovered⟩ := h.cursor existing hexisting t ht
  obtain ⟨hsame, hnew⟩ := hgood c hc existing hexisting
  refine ⟨c, hc, hstart, hsame, ?_⟩
  intro target htarget
  have hid : existing.id = taskId := Table.key_of_find? hexisting
  obtain ⟨r, hr, hrTask, hrVault⟩ := mem_targetsOf_vaultId.mp ⟨target, htarget, rfl⟩
  rw [← hrVault]
  rw [UpdateVaultSyncTaskPayload.apply_id, hid] at hrTask
  have hkept : r ∈ s.db.vaultSyncTaskTargets.rows → r.targetVaultId ∈ c.vaultIds := by
    intro hr
    obtain ⟨old, hold, hvault⟩ := mem_targetsOf_vaultId.mpr ⟨r, hr, hrTask.trans hid.symm, rfl⟩
    exact hvault ▸ hcovered old hold
  have hrow := (htargets r).mp hr
  cases hspecs : payload.targets with
  | none =>
      rw [hspecs] at hrow
      exact hkept hrow
  | some specs =>
      rw [hspecs] at hrow
      rcases hrow with ⟨hold, -⟩ | ⟨spec, hspec, rfl⟩
      · exact hkept hold
      · exact hnew specs hspecs spec hspec

theorem Accounted.start (h : Accounted parse taskId s) :
    Accounted parse taskId { s with run := some (.started s.now) } := by
  have hadv : Advances taskId s { s with run := some (.started s.now) } :=
    ⟨le_rfl, rfl, fun _ _ _ hr => Or.inl hr, fun _ hx => hx, fun row hrow => ⟨row, hrow, rfl⟩⟩
  refine h.advance_of_db hadv rfl ?_
  intro run hrun
  obtain rfl := Option.some.inj hrun
  exact le_refl s.now

/-- A run reads the task, its source and its targets. -/
theorem Accounted.read {run : Run} {next : Option Run} (h : Accounted parse taskId s)
    (hrun : s.run = some run) (hread : readNext taskId s.db run = some next) :
    Accounted parse taskId { s with run := next } := by
  have hadv : Advances taskId s { s with run := next } :=
    ⟨le_rfl, rfl, fun _ _ _ hr => Or.inl hr, fun _ hx => hx, fun row hrow => ⟨row, hrow, rfl⟩⟩
  refine h.advance_of_db hadv rfl ?_
  intro run' hrun'
  have hinv := h.run run hrun
  cases run with
  | started startedAt =>
      simp only [readNext, Option.some.injEq] at hread
      rw [← hread] at hrun'
      obtain ⟨task, htask, rfl⟩ := Option.map_eq_some_iff.mp hrun'
      refine ⟨hinv, Table.key_of_find? htask, ⟨task, htask, rfl⟩, ?_⟩
      intro t ht
      obtain ⟨c, hc, hstart, hwithin⟩ := h.cursor task htask t ht
      exact ⟨c, hc, hstart, hwithin.1⟩
  | readTask startedAt task =>
      simp only [readNext, Option.some.injEq] at hread
      rw [← hread] at hrun'
      obtain rfl := Option.some.inj hrun'
      exact ⟨hinv.1, hinv.2.advance hadv⟩
  | readSource startedAt task sourceVault =>
      simp only [readNext, Option.some.injEq] at hread
      rw [← hread] at hrun'
      obtain rfl := Option.some.inj hrun'
      obtain ⟨hnow, hcursor⟩ := hinv
      refine ⟨hnow, hcursor.advance hadv, targetsOf_distinct s.db task, ?_⟩
      intro hset c hc target htarget
      -- the targets are read later than the task, but the cursor is still the same
      obtain ⟨hid, ⟨row, hrow, hsame⟩, -⟩ := hcursor
      obtain ⟨t, ht⟩ := Option.ne_none_iff_exists'.mp (hsame ▸ hset)
      obtain ⟨c', hc', -, hwithin⟩ := h.cursor row hrow t ht
      obtain rfl := Option.some.inj (hc'.symm.trans hc)
      have hrowId : row.id = task.id := (Table.key_of_find? hrow).trans hid.symm
      obtain ⟨r, hr, hrTask, hrVault⟩ := mem_targetsOf_vaultId.mp ⟨target, htarget, rfl⟩
      obtain ⟨covered, hcovered, hvault⟩ :=
        mem_targetsOf_vaultId.mpr ⟨r, hr, hrTask.trans hrowId.symm, hrVault⟩
      exact hvault ▸ hwithin.2 covered hcovered
  | _ => simp [readNext] at hread

/-- The fetch answers from the present state of the source. -/
theorem Accounted.fetch {run next : Run} {failure : Option ClientError} {world : W}
    (h : Accounted parse taskId s) (hrun : s.run = some run)
    (hfetch : fetchNext s.sources failure run = some next) :
    Accounted parse taskId { s with run := some next, world := world } := by
  have hadv : Advances taskId s { s with run := some next, world := world } :=
    ⟨le_rfl, rfl, fun _ _ _ hr => Or.inl hr, fun _ hx => hx, fun row hrow => ⟨row, hrow, rfl⟩⟩
  refine h.advance_of_db hadv rfl ?_
  intro run' hrun'
  obtain rfl := Option.some.inj hrun'
  have hinv := h.run run hrun
  cases run with
  | readTargets startedAt task sourceVault targets =>
      obtain ⟨hnow, hcursor, htargets⟩ := hinv
      cases sourceVault with
      | none =>
          obtain rfl := Option.some.inj hfetch
          exact ⟨hnow, hcursor.1, fun hno => by cases hno⟩
      | some sourceVault =>
          cases failure with
          | some e =>
              obtain rfl := Option.some.inj hfetch
              exact ⟨hnow, hcursor.1, fun hno => by cases hno⟩
          | none =>
              obtain rfl := Option.some.inj hfetch
              refine ⟨hnow, hcursor.advance hadv, htargets.advance hadv, ?_⟩
              exact fun r hr hbefore => mem_snapshot_or_before hr hbefore
  | _ => simp [fetchNext] at hfetch

/-- What a vault accepted is delivered to it. -/
theorem mem_deliveries {attempts : List Attempt} {v : Uuid} {record : BatchRecordInput}
    (h : record ∈ acceptedRecords (attemptsToVault v attempts)) :
    (v, record) ∈ deliveries attempts := by
  obtain ⟨a, ha, hrecord⟩ := List.mem_flatMap.mp h
  obtain ⟨ha, haccepted⟩ := List.mem_filter.mp ha
  obtain ⟨ha, hvault⟩ := List.mem_filter.mp ha
  rw [decide_eq_true_eq] at hvault
  refine List.mem_flatMap.mpr ⟨a, List.mem_filter.mpr ⟨ha, haccepted⟩, ?_⟩
  exact List.mem_map.mpr ⟨record, hrecord, by rw [hvault]⟩

/-- A record that passes the filter is among the kept ones. -/
theorem mem_keptRecords {task : VaultSyncTask} {delta : List IpRecordResponse} {r : IpRecordResponse}
    (hr : r ∈ delta) (hpasses : Passes parse task r) : r ∈ keptRecords parse task delta := by
  rw [keptRecords]
  by_cases hskip : task.skipBogonFiltering
  · rw [if_pos hskip]
    exact hr
  · rw [if_neg hskip]
    exact List.mem_filter.mpr ⟨hr, hpasses.resolve_left hskip⟩

/-- **The push.**  If every target took everything, every record from before the run is delivered:
the fetched ones by this run, the others by the runs that the cursor stands for. -/
theorem Accounted.push {startedAt : ℤ} {task : VaultSyncTask} {sourceVault : VaultEndpoint}
    {targets : List PushTarget} {delta : List IpRecordResponse} (h : Accounted parse taskId s)
    (hrun : s.run = some (.fetched startedAt task sourceVault targets delta)) :
    let out := pushDelta (journaled http) parse maxRetries task sourceVault targets delta
      (s.world, [])
    Accounted parse taskId { s with
      run := some (.executed startedAt task targets out.1.1 out.1.2)
      world := out.2.1
      ledger := s.ledger ++ deliveries out.2.2 } := by
  intro out
  have hadv : Advances taskId s { s with
      run := some (.executed startedAt task targets out.1.1 out.1.2)
      world := out.2.1
      ledger := s.ledger ++ deliveries out.2.2 } := advances_of_run
  obtain ⟨hnow, hcursor, htargets, hdelta⟩ := h.run _ hrun
  refine h.advance_of_db hadv rfl ?_
  intro run' hrun'
  obtain rfl := Option.some.inj hrun'
  refine ⟨hnow, hcursor.1, ?_⟩
  intro hall r hr hpasses hbefore v hv
  obtain ⟨target, htarget, rfl⟩ := List.mem_map.mp hv
  rcases hdelta r hr hbefore with hfetched | ⟨since, hsince, hearlier⟩
  · have hexact := (pushDelta_exact http parse maxRetries task sourceVault targets htargets.1 delta
      s.world).1
    have htook := (hexact.mp hall target htarget).2.records
    rw [flatten_pushedChunks] at htook
    refine List.mem_append_right _ (mem_deliveries ?_)
    show toBatchRecordInput r ∈ (accepted (attemptsToVault target.vaultId out.2.2)).flatMap _
    rw [htook]
    exact List.mem_map_of_mem (mem_keptRecords hfetched hpasses)
  · obtain ⟨c, hc, hstart, hsame⟩ := hcursor.2.2 since hsince
    have hcovered := htargets.2 (by simp [hsince]) c hc
    have hbeforeCursor : Before c.startedAt r := hstart ▸ hearlier.mono (cutoff_le since)
    refine List.mem_append_left _ ?_
    refine ((h.delivered c hc).2.of_sameSource hsame ?_) r hr hpasses hbeforeCursor _ hv
    intro u hu
    obtain ⟨other, hother, rfl⟩ := List.mem_map.mp hu
    exact hcovered other hother

/-- **Setting the cursor** to the start of a run whose targets took everything. -/
theorem Accounted.record {startedAt : ℤ} {task : VaultSyncTask} {targets : List PushTarget}
    {summary : JobSummary} {allTargetsSucceeded : Bool} (h : Accounted parse taskId s)
    (hrun : s.run = some (.executed startedAt task targets summary allTargetsSucceeded))
    (hgood : StaysWithin taskId s (.record : CursorEvent W)) :
    Accounted parse taskId { s with
      db := recordRun s.db task startedAt summary allTargetsSucceeded
      run := none
      coverage := if allTargetsSucceeded then
          some ⟨startedAt, task, targets.map PushTarget.vaultId⟩
        else s.coverage } := by
  obtain ⟨hnow, hid, hdelivered⟩ := h.run _ hrun
  obtain ⟨row, hrow⟩ := h.exists_task
  cases allTargetsSucceeded with
  | false =>
      exact ⟨⟨row, hrow⟩, h.delivered, h.cursor, by simp⟩
  | true =>
      have hset : (recordRun s.db task startedAt summary true).vaultSyncTasks.find? taskId =
          some { row with lastSyncAt := some startedAt } := by
        rw [← hid]
        simp only [recordRun, if_true, Db.setLastSyncAt, Table.find?_modify_self]
        rw [show (writeSyncLog s.db "VAULT_SYNC" task.id task.name summary
          startedAt).vaultSyncTasks = s.db.vaultSyncTasks from rfl, hid, hrow, Option.map_some]
      refine ⟨⟨_, hset⟩, ?_, ?_, by simp⟩
      · intro c hc
        obtain rfl := Option.some.inj hc
        exact ⟨hnow, hdelivered rfl⟩
      · intro row' hrow' t ht
        obtain rfl := Option.some.inj (hrow'.symm.trans hset)
        obtain rfl := Option.some.inj ht
        exact ⟨_, rfl, rfl, hgood _ hrun rfl row hrow⟩

theorem Accounted.abandon (h : Accounted parse taskId s) :
    Accounted parse taskId { s with run := none } :=
  ⟨h.exists_task, h.delivered, h.cursor, by simp⟩

/-- **Every step** that stays within the coverage keeps the account. -/
theorem Accounted.step {e : CursorEvent W} (h : Accounted parse taskId s)
    (hgood : StaysWithin taskId s e)
    (hstep : s.step http parse maxRetries taskId e = some s') : Accounted parse taskId s' := by
  cases e with
  | tick now =>
      simp only [CursorSystem.step] at hstep
      split at hstep
      · obtain rfl := Option.some.inj hstep
        exact h.tick ‹_›
      · cases hstep
  | change vaultId groupName record =>
      simp only [CursorSystem.step] at hstep
      split at hstep
      · obtain rfl := Option.some.inj hstep
        exact h.change ‹_›
      · cases hstep
  | patch payload =>
      obtain ⟨⟨db', updated⟩, hpatch, rfl⟩ := Option.map_eq_some_iff.mp hstep
      exact h.patch hgood hpatch
  | start =>
      simp only [CursorSystem.step] at hstep
      split at hstep
      · obtain rfl := Option.some.inj hstep
        exact h.start
      · cases hstep
  | read =>
      obtain ⟨next, hnext, rfl⟩ := Option.map_eq_some_iff.mp hstep
      obtain ⟨run, hrun, hread⟩ := Option.bind_eq_some_iff.mp hnext
      exact h.read hrun hread
  | fetch failure world =>
      obtain ⟨next, hnext, rfl⟩ := Option.map_eq_some_iff.mp hstep
      obtain ⟨run, hrun, hfetch⟩ := Option.bind_eq_some_iff.mp hnext
      exact h.fetch hrun hfetch
  | push =>
      simp only [CursorSystem.step] at hstep
      split at hstep
      · obtain rfl := Option.some.inj hstep
        exact h.push ‹_›
      · cases hstep
  | record =>
      simp only [CursorSystem.step] at hstep
      split at hstep
      · obtain rfl := Option.some.inj hstep
        exact h.record ‹_› hgood
      · cases hstep
  | abandon =>
      simp only [CursorSystem.step] at hstep
      split at hstep
      · obtain rfl := Option.some.inj hstep
        exact h.abandon
      · cases hstep

end

end

/-! ### Whole runs -/

/-- **No record is lost by the cursor.**  Start with a task that has never synced.  In every run of
clock, sources, edits and task runs in which the task stays within what its cursor stands for: in
every state with a cursor, every record of the task's source group that passes its filter and got
its state before the cursor has been accepted, in that version, by every target of the task. -/
theorem nothing_lost (http : Http W) (parse : String → Option IpNetwork) (maxRetries : ℕ)
    (taskId : Uuid) (now : ℤ) (db : Db) (sources : Uuid → String → Records) (world : W)
    (task : VaultSyncTask) (htask : db.vaultSyncTasks.find? taskId = some task)
    (hnew : task.lastSyncAt = none) (s : CursorSystem W)
    (h : Reaches (CursorSystem.step http parse maxRetries taskId) (StaysWithin taskId)
      (.start now db sources world) s) : NothingLost parse taskId s := by
  have hstart : Accounted parse taskId (.start now db sources world : CursorSystem W) := by
    refine ⟨⟨task, htask⟩, by simp [CursorSystem.start], ?_, by simp [CursorSystem.start]⟩
    intro row hrow t ht
    obtain rfl := Option.some.inj (hrow.symm.trans htask)
    rw [hnew] at ht
    cases ht
  have haccounted : Accounted parse taskId s :=
    h.invariant hstart fun s e s' hs hgood hstep => hs.step hgood hstep
  exact haccounted.nothingLost

/-! ### An undisturbed run -/

/-- Without anything in between, the steps of a run are `vault_sync::run`. -/
theorem run_undisturbed (http : Http W) (parse : String → Option IpNetwork)
    (maxRetries fuel : ℕ) (taskId : Uuid) (s : CursorSystem W) (hidle : s.run = none)
    (task : VaultSyncTask) (htask : s.db.vaultSyncTasks.find? taskId = some task)
    (source : VaultEndpoint) (hsource : s.db.vaultEndpoints.find? task.sourceVaultId = some source)
    (w : W) (hfetch : getIpsDelta http maxRetries fuel source task.sourceGroupName task.lastSyncAt
      true s.world = some
        (.ok (snapshot (s.sources task.sourceVaultId task.sourceGroupName) task.lastSyncAt), w)) :
    ∃ s' summary attempts,
      runEvents (CursorSystem.step http parse maxRetries taskId) anyStep s
        [.start, .read, .read, .read, .fetch none w, .push, .record] = some s' ∧
      VaultSync.run (journaled http) parse maxRetries fuel s.now taskId s.db (s.world, []) =
        some (.ok summary, s'.db, s'.world, attempts) ∧
      s'.ledger = s.ledger ++ deliveries attempts := by
  generalize hdelta : snapshot (s.sources task.sourceVaultId task.sourceGroupName) task.lastSyncAt =
    delta at hfetch
  generalize hout : pushDelta (journaled http) parse maxRetries task source (targetsOf s.db task)
    delta (w, []) = out
  let after : CursorSystem W :=
    { s with
      db := recordRun s.db task s.now out.1.1 out.1.2
      run := none
      world := out.2.1
      ledger := s.ledger ++ deliveries out.2.2
      coverage := if out.1.2 then
          some ⟨s.now, task, (targetsOf s.db task).map PushTarget.vaultId⟩
        else s.coverage }
  refine ⟨after, out.1.1, out.2.2, ?_, ?_, rfl⟩
  · simp [runEvents, anyStep, CursorSystem.step, readNext, fetchNext, hidle, htask, hsource, hdelta,
      hout, after]
  · simp only [VaultSync.run, htask, execute, hsource, getIpsDelta_journaled, hfetch,
      Option.map_some, hout, after]

/-! ### Edits that lose records -/

/-- A source vault, two targets, and a task that copies the first to the second. -/
def mirrorDb : Db where
  vaultEndpoints :=
    { rows := [⟨1, "core", "https://core.example", "key", "secret"⟩,
        ⟨2, "edge", "https://edge.example", "key", "secret"⟩,
        ⟨3, "spare", "https://spare.example", "key", "secret"⟩]
      nodup := by decide }
  vaultSyncTasks :=
    { rows := [⟨7, "mirror", 1, "ban", "ban", "0 * * * *", none, true, true⟩]
      nodup := by decide }
  vaultSyncTaskTargets := ⟨[⟨7, 2, none⟩], by decide⟩
  destinationGroups := .empty
  destinationGroupVaultTargets := .empty
  externalSources := .empty
  syncLogs := []

/-- One record in each of two groups of the source, both seen five seconds ago. -/
def mirrorSources (_ : Uuid) (groupName : String) : Records where
  rows := [⟨if groupName = "ban" then "8.8.8.8/32" else "9.9.9.9/32", groupName, none, false, none,
    none, none, some (5 * nanosPerSec)⟩]
  nodup := List.nodup_singleton _

/-- Every vault takes every batch. -/
def willingVaults : Http Unit where
  postBatchOnce _ _ _ _ w := (.ok .default, w)
  getIpsPage _ _ _ _ _ w := (.ok [], w)
  backoff _ w := w

/-- The mirror task, ten seconds into the day. -/
def mirrorStart : CursorSystem Unit := .start (10 * nanosPerSec) mirrorDb mirrorSources ()

/-- A run without incident. -/
def smoothRun : List (CursorEvent Unit) :=
  [.start, .read, .read, .read, .fetch none (), .push, .record]

/-- A `PATCH` of the task that sets its source group or its targets. -/
def patchMirror (sourceGroupName : Option String) (targets : Option (List TargetSpec)) :
    CursorEvent Unit :=
  .patch ⟨none, none, sourceGroupName, none, none, none, none, targets⟩

/-- The step function of the example. -/
def mirrorStep : CursorSystem Unit → CursorEvent Unit → Option (CursorSystem Unit) :=
  CursorSystem.step willingVaults (fun _ => none) 0 7

/-- Dropping the only target after a run loses nothing. -/
theorem nothing_lost_when_narrowed :
    ∃ s, runEvents mirrorStep (StaysWithin 7) mirrorStart
        (smoothRun ++ [.tick (20 * nanosPerSec)] ++ smoothRun ++ [patchMirror none (some [])]) =
          some s ∧
      s.ledger.map Prod.fst = [2] ∧ NothingLost (fun _ => none) 7 s := by
  have hrun : ((runEvents mirrorStep (StaysWithin 7) mirrorStart
      (smoothRun ++ [.tick (20 * nanosPerSec)] ++ smoothRun ++
        [patchMirror none (some [])])).map fun s => s.ledger.map Prod.fst) = some [2] := by
    decide +kernel
  obtain ⟨s, hs, hledger⟩ := Option.map_eq_some_iff.mp hrun
  exact ⟨s, hs, hledger, nothing_lost willingVaults (fun _ => none) 0 7 (10 * nanosPerSec) mirrorDb
    mirrorSources () _ rfl rfl s (reaches_of_runEvents hs)⟩

/-- **Two edits that lose a record.**  A target added after a successful run never gets the records
from before the cursor; and a source group changed during a run leaves the cursor standing for a
group that was never read. -/
theorem edits_lose_records :
    (∃ s, Reaches mirrorStep anyStep mirrorStart s ∧ s.ledger.map Prod.fst = [2] ∧
      ¬NothingLost (fun _ => none) 7 s) ∧
    ∃ s, Reaches mirrorStep anyStep mirrorStart s ∧
      s.ledger.map (fun d => d.2.targetAddress) = ["8.8.8.8/32"] ∧
      ¬NothingLost (fun _ => none) 7 s := by
  constructor
  · have hrun : ((runEvents mirrorStep anyStep mirrorStart
        (smoothRun ++ [patchMirror none (some [⟨2, none⟩, ⟨3, none⟩])])).map fun s =>
          (s.ledger.map Prod.fst, decide (NothingLost (fun _ => none) 7 s))) =
        some ([2], false) := by
      decide +kernel
    obtain ⟨s, hs, hout⟩ := Option.map_eq_some_iff.mp hrun
    obtain ⟨hledger, hlost⟩ := Prod.mk.inj hout
    exact ⟨s, reaches_of_runEvents hs, hledger, of_decide_eq_false hlost⟩
  · have hrun : ((runEvents mirrorStep anyStep mirrorStart
        [.start, .read, .read, .read, .fetch none (), patchMirror (some "spam") none, .push,
          .record]).map fun s =>
            (s.ledger.map fun d => d.2.targetAddress,
              decide (NothingLost (fun _ => none) 7 s))) = some (["8.8.8.8/32"], false) := by
      decide +kernel
    obtain ⟨s, hs, hout⟩ := Option.map_eq_some_iff.mp hrun
    obtain ⟨hledger, hlost⟩ := Prod.mk.inj hout
    exact ⟨s, reaches_of_runEvents hs, hledger, of_decide_eq_false hlost⟩

end SimplyIpSync.Replication
