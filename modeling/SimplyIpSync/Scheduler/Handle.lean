import SimplyIpSync.Api.Transactions

/-!
# The scheduler and its callers (`src/scheduler.rs`)

`SchedulerHandle` holds the live cron jobs and, for each kind of resource, a map from resource to
job.  `upsert_source`, `upsert_task`, `remove_source` and `remove_task` differ in the map and in
whether they end with a new job; each is a `Call` that takes its steps one at a time, because every
`await` between them lets another call go on.

A handler commits its transaction and then makes its call; a refused transaction makes none.
Registering a job is taken to succeed: the handlers validate the expression before they write it.
-/

namespace SimplyIpSync.Scheduler

open SimplyIpSync.Entities SimplyIpSync.Storage SimplyIpSync.Store SimplyIpSync.Api

/-! ### Cron expressions -/

/-- `char::is_whitespace`. -/
def isWhitespace (c : Char) : Bool :=
  (9 ≤ c.toNat && c.toNat ≤ 13) || (0x2000 ≤ c.toNat && c.toNat ≤ 0x200a) ||
    [0x20, 0x85, 0xa0, 0x1680, 0x2028, 0x2029, 0x202f, 0x205f, 0x3000].contains c.toNat

/-- `split_whitespace().count()`. -/
def fieldCount (expr : String) : ℕ :=
  ((expr.toList.splitOnP isWhitespace).filter fun field => !field.isEmpty).length

/-- `normalize_cron`: a five-field expression runs at second zero. -/
def normalizeCron (expr : String) : String := if fieldCount expr = 5 then "0 " ++ expr else expr

/-! ### The handle -/

/-- What a cron job is for: a destination group or a vault-sync task. -/
inductive Kind
  | source
  | task
  deriving DecidableEq, Repr

/-- A scheduled resource. -/
structure Resource where
  kind : Kind
  id : Uuid
  deriving DecidableEq, Repr

/-- A live job of the `JobScheduler`, which runs its resource at `cron`. -/
structure Job where
  id : ℕ
  resource : Resource
  cron : String
  deriving DecidableEq, Repr

/-- An entry of `source_jobs` or `task_jobs`. -/
structure MapEntry where
  resourceId : Uuid
  jobId : ℕ
  deriving DecidableEq, Repr

/-- `SchedulerHandle`.  Job ids are minted fresh, so they are numbered. -/
structure SchedulerHandle where
  scheduler : List Job
  sourceJobs : Table MapEntry.resourceId
  taskJobs : Table MapEntry.resourceId
  nextJobId : ℕ

namespace SchedulerHandle

/-- `SchedulerHandle::new`. -/
def new : SchedulerHandle where
  scheduler := []
  sourceJobs := .empty
  taskJobs := .empty
  nextJobId := 0

/-- The map of a kind. -/
def jobs (h : SchedulerHandle) : Kind → Table MapEntry.resourceId
  | .source => h.sourceJobs
  | .task => h.taskJobs

/-- Replace the map of a kind. -/
def withJobs (h : SchedulerHandle) (kind : Kind) (map : Table MapEntry.resourceId) :
    SchedulerHandle :=
  match kind with
  | .source => { h with sourceJobs := map }
  | .task => { h with taskJobs := map }

/-- The job id the map has for a resource. -/
def mapGet (h : SchedulerHandle) (r : Resource) : Option ℕ :=
  ((h.jobs r.kind).find? r.id).map MapEntry.jobId

/-- `map.remove(&id)`. -/
def mapRemove (h : SchedulerHandle) (r : Resource) : SchedulerHandle :=
  h.withJobs r.kind ((h.jobs r.kind).deleteWhere fun entry => entry.resourceId = r.id)

/-- `map.insert(id, job_id)`: an entry with this id is overwritten. -/
def mapInsert (h : SchedulerHandle) (r : Resource) (jobId : ℕ) : SchedulerHandle :=
  h.withJobs r.kind ((h.jobs r.kind).upsert ⟨r.id, jobId⟩)

/-- `scheduler.remove(&job_id)`, if there was one. -/
def schedulerRemove (h : SchedulerHandle) (existing : Option ℕ) : SchedulerHandle :=
  { h with scheduler := h.scheduler.filter fun job => some job.id ≠ existing }

/-- `scheduler.add(job)`. -/
def schedulerAdd (h : SchedulerHandle) (r : Resource) (cron : String) : SchedulerHandle :=
  { h with
    scheduler := h.scheduler ++ [⟨h.nextJobId, r, cron⟩]
    nextJobId := h.nextJobId + 1 }

variable (h : SchedulerHandle)

@[simp] theorem jobs_withJobs (kind kind' : Kind) (map : Table MapEntry.resourceId) :
    (h.withJobs kind map).jobs kind' = if kind' = kind then map else h.jobs kind' := by
  cases kind <;> cases kind' <;> rfl

@[simp] theorem scheduler_withJobs (kind : Kind) (map : Table MapEntry.resourceId) :
    (h.withJobs kind map).scheduler = h.scheduler := by
  cases kind <;> rfl

@[simp] theorem nextJobId_withJobs (kind : Kind) (map : Table MapEntry.resourceId) :
    (h.withJobs kind map).nextJobId = h.nextJobId := by
  cases kind <;> rfl

theorem mapGet_mapRemove (r r' : Resource) :
    (h.mapRemove r).mapGet r' = if r' = r then none else h.mapGet r' := by
  simp only [mapGet, mapRemove, jobs_withJobs]
  by_cases hkind : r'.kind = r.kind
  · rw [if_pos hkind, Table.find?_deleteKey, hkind]
    by_cases hid : r'.id = r.id
    · have hr : r' = r := by
        cases r
        cases r'
        simp_all
      rw [if_pos hid, if_pos hr]
      rfl
    · have hr : r' ≠ r := fun hr => hid (congrArg Resource.id hr)
      rw [if_neg hid, if_neg hr]
  · have hr : r' ≠ r := fun hr => hkind (congrArg Resource.kind hr)
    rw [if_neg hkind, if_neg hr]

theorem mapGet_mapInsert (r r' : Resource) (jobId : ℕ) :
    (h.mapInsert r jobId).mapGet r' = if r' = r then some jobId else h.mapGet r' := by
  simp only [mapGet, mapInsert, jobs_withJobs]
  by_cases hkind : r'.kind = r.kind
  · rw [if_pos hkind, Table.find?_upsert, hkind]
    by_cases hid : r'.id = r.id
    · have hr : r' = r := by
        cases r
        cases r'
        simp_all
      rw [if_pos hid, if_pos hr]
      rfl
    · have hr : r' ≠ r := fun hr => hid (congrArg Resource.id hr)
      rw [if_neg hid, if_neg hr]
  · have hr : r' ≠ r := fun hr => hkind (congrArg Resource.kind hr)
    rw [if_neg hkind, if_neg hr]

/-- The cron expression of the job that the map has for a resource. -/
def mappedCron (r : Resource) : Option String :=
  (h.mapGet r).bind fun jobId => (h.scheduler.find? fun job => job.id = jobId).map Job.cron

end SchedulerHandle

/-! ### Calls -/

/-- The step a call takes next. -/
inductive Stage
  | mapRemove
  | schedulerRemove (existing : Option ℕ)
  | schedulerAdd
  | mapInsert (jobId : ℕ)
  deriving DecidableEq, Repr

/-- A scheduler call in flight; `cron` is the expression of the job it ends with, if any. -/
structure Call where
  resource : Resource
  cron : Option String
  stage : Stage
  deriving DecidableEq, Repr

/-- The expression a row is to be scheduled with. -/
def activeCron (isActive : Bool) (cronSchedule : String) : Option String :=
  if isActive then some (normalizeCron cronSchedule) else none

/-- `upsert_source`. -/
def upsertSource (group : DestinationGroup) : Call where
  resource := ⟨.source, group.id⟩
  cron := activeCron group.isActive group.cronSchedule
  stage := .mapRemove

/-- `remove_source`. -/
def removeSource (id : Uuid) : Call where
  resource := ⟨.source, id⟩
  cron := none
  stage := .mapRemove

/-- `upsert_task`. -/
def upsertTask (task : VaultSyncTask) : Call where
  resource := ⟨.task, task.id⟩
  cron := activeCron task.isActive task.cronSchedule
  stage := .mapRemove

/-- `remove_task`. -/
def removeTask (id : Uuid) : Call where
  resource := ⟨.task, id⟩
  cron := none
  stage := .mapRemove

/-- The next step of a call; `none` when that was its last. -/
def Call.advance (h : SchedulerHandle) (c : Call) : SchedulerHandle × Option Call :=
  match c.stage with
  | .mapRemove =>
      (h.mapRemove c.resource, some { c with stage := .schedulerRemove (h.mapGet c.resource) })
  | .schedulerRemove existing =>
      (h.schedulerRemove existing, some { c with stage := .schedulerAdd })
  | .schedulerAdd =>
      match c.cron with
      | none => (h, none)
      | some cron =>
          (h.schedulerAdd c.resource cron, some { c with stage := .mapInsert h.nextJobId })
  | .mapInsert jobId => (h.mapInsert c.resource jobId, none)

/-! ### Requests -/

/-- An accepted request of a handler that changes rows. -/
inductive Request
  | createDestinationGroup (id : Uuid) (payload : CreateDestinationGroupPayload)
  | updateDestinationGroup (id : Uuid) (payload : UpdateDestinationGroupPayload)
  | deleteDestinationGroup (id : Uuid)
  | createVaultSyncTask (id : Uuid) (payload : CreateVaultSyncTaskPayload)
  | updateVaultSyncTask (id : Uuid) (payload : UpdateVaultSyncTaskPayload)
  | deleteVaultSyncTask (id : Uuid)
  | createVaultEndpoint (model : VaultEndpoint)
  | updateVaultEndpoint (id : Uuid) (payload : UpdateVaultEndpointPayload)
  | deleteVaultEndpoint (id : Uuid)
  deriving DecidableEq, Repr

/-- The commit of a request, and the scheduler call its handler then makes.  The handlers of vault
endpoints make none. -/
def commit (db : Db) : Request → Option (Db × Option Call)
  | .createDestinationGroup id payload =>
      (createDestinationGroup db id payload).map fun out => (out.1, some (upsertSource out.2))
  | .updateDestinationGroup id payload =>
      (updateDestinationGroup db id payload).map fun out => (out.1, some (upsertSource out.2))
  | .deleteDestinationGroup id =>
      (deleteDestinationGroup db id).map fun db => (db, some (removeSource id))
  | .createVaultSyncTask id payload =>
      (createVaultSyncTask db id payload).map fun out => (out.1, some (upsertTask out.2))
  | .updateVaultSyncTask id payload =>
      (updateVaultSyncTask db id payload).map fun out => (out.1, some (upsertTask out.2))
  | .deleteVaultSyncTask id =>
      (deleteVaultSyncTask db id).map fun db => (db, some (removeTask id))
  | .createVaultEndpoint model => (createVaultEndpoint db model).map fun db => (db, none)
  | .updateVaultEndpoint id payload => (updateVaultEndpoint db id payload).map fun db => (db, none)
  | .deleteVaultEndpoint id => (deleteVaultEndpoint db id).map fun db => (db, none)

/-- The expression the stored row of a resource is to be scheduled with; `none` for an inactive
row and for a row that does not exist. -/
def storedCron (db : Db) (r : Resource) : Option String :=
  match r.kind with
  | .source =>
      (db.destinationGroups.find? r.id).bind fun group =>
        activeCron group.isActive group.cronSchedule
  | .task =>
      (db.vaultSyncTasks.find? r.id).bind fun task => activeCron task.isActive task.cronSchedule

/-! ### The system -/

/-- The database, the scheduler, and the calls in flight in the order of their commits. -/
structure System where
  db : Db
  handle : SchedulerHandle
  calls : List Call

/-- `boot`: one call for each active group and task. -/
def System.boot (db : Db) : System where
  db := db
  handle := .new
  calls := (db.destinationGroups.rows.filter DestinationGroup.isActive).map upsertSource ++
    (db.vaultSyncTasks.rows.filter VaultSyncTask.isActive).map upsertTask

/-- A handler commits, or the `n`-th call in flight takes its next step. -/
inductive Event
  | request (request : Request)
  | advance (n : ℕ)
  deriving DecidableEq, Repr

/-- One event; `none` when the transaction is refused or there is no such call. -/
def System.step (s : System) : Event → Option System
  | .request request =>
      (commit s.db request).map fun out =>
        { s with db := out.1, calls := s.calls ++ out.2.toList }
  | .advance n =>
      match s.calls[n]? with
      | none => none
      | some c =>
          let out := c.advance s.handle
          some
            { s with
              handle := out.1
              calls := match out.2 with
                | none => s.calls.eraseIdx n
                | some c => s.calls.set n c }

/-- The scheduler holds exactly one job, with the stored expression, for each active row, and none
for anything else. -/
def System.Agrees (s : System) : Prop :=
  ∀ r, (s.handle.scheduler.filter fun job => job.resource = r).map Job.cron =
    (storedCron s.db r).toList

/-! ### What a commit changes -/

/-- A change to one task's row is seen by that task only. -/
theorem storedCron_of_task {db db' : Db} {id : Uuid}
    (hgroups : db'.destinationGroups = db.destinationGroups)
    (htasks : ∀ j, j ≠ id → db'.vaultSyncTasks.find? j = db.vaultSyncTasks.find? j) (r : Resource) :
    storedCron db' r = storedCron db r ∨ (⟨.task, id⟩ : Resource) = r := by
  obtain ⟨kind, j⟩ := r
  cases kind with
  | source => exact Or.inl (by simp only [storedCron, hgroups])
  | task =>
      by_cases hj : j = id
      · exact Or.inr (by rw [hj])
      · exact Or.inl (by simp only [storedCron, htasks j hj])

/-- A change to one group's row is seen by that group only. -/
theorem storedCron_of_source {db db' : Db} {id : Uuid}
    (htasks : db'.vaultSyncTasks = db.vaultSyncTasks)
    (hgroups : ∀ j, j ≠ id → db'.destinationGroups.find? j = db.destinationGroups.find? j)
    (r : Resource) :
    storedCron db' r = storedCron db r ∨ (⟨.source, id⟩ : Resource) = r := by
  obtain ⟨kind, j⟩ := r
  cases kind with
  | source =>
      by_cases hj : j = id
      · exact Or.inr (by rw [hj])
      · exact Or.inl (by simp only [storedCron, hgroups j hj])
  | task => exact Or.inl (by simp only [storedCron, htasks])

/-- The call of an upserted task carries the expression of its row. -/
theorem upsertTask_cron {db : Db} {task : VaultSyncTask}
    (h : db.vaultSyncTasks.find? task.id = some task) :
    (upsertTask task).cron = storedCron db (upsertTask task).resource := by
  simp only [upsertTask, storedCron, h, Option.bind_some]

theorem upsertSource_cron {db : Db} {group : DestinationGroup}
    (h : db.destinationGroups.find? group.id = some group) :
    (upsertSource group).cron = storedCron db (upsertSource group).resource := by
  simp only [upsertSource, storedCron, h, Option.bind_some]

/-- What a commit may change: the resource of the call that carries its new expression. -/
def Announces (db db' : Db) (c : Call) : Prop :=
  c.stage = .mapRemove ∧ c.cron = storedCron db' c.resource ∧
    ∀ r, storedCron db' r = storedCron db r ∨ c.resource = r

theorem createVaultSyncTask_announces {db db' : Db} {id : Uuid} {model : VaultSyncTask}
    {payload : CreateVaultSyncTaskPayload}
    (h : createVaultSyncTask db id payload = some (db', model)) :
    Announces db db' (upsertTask model) := by
  obtain ⟨hid, hinsert, -, hgroups⟩ := createVaultSyncTask_spec h
  have hfind := Table.find?_insert? hinsert
  refine ⟨rfl, upsertTask_cron (by rw [hfind, if_pos rfl]), ?_⟩
  exact storedCron_of_task hgroups fun j hj => by rw [hfind, if_neg hj]

theorem updateVaultSyncTask_announces {db db' : Db} {id : Uuid} {updated : VaultSyncTask}
    {payload : UpdateVaultSyncTaskPayload}
    (h : updateVaultSyncTask db id payload = some (db', updated)) :
    Announces db db' (upsertTask updated) := by
  obtain ⟨existing, hexisting, hupdated, htasks, -, hgroups, -⟩ := updateVaultSyncTask_spec h
  have hid : updated.id = id := by
    rw [hupdated, UpdateVaultSyncTaskPayload.apply_id]
    exact Table.key_of_find? hexisting
  refine ⟨rfl, upsertTask_cron ?_, ?_⟩
  · rw [htasks, hid, Table.find?_modify_self, hexisting, hupdated]
    rfl
  · refine storedCron_of_task hgroups ?_
    intro j hj
    rw [hid] at hj
    rw [htasks, Table.find?_modify_of_ne _ _ _ hj]

theorem deleteVaultSyncTask_announces {db db' : Db} {id : Uuid}
    (h : deleteVaultSyncTask db id = some db') : Announces db db' (removeTask id) := by
  obtain ⟨-, htasks, -, hgroups⟩ := deleteVaultSyncTask_spec h
  have hfind : ∀ j, db'.vaultSyncTasks.find? j =
      if j = id then none else db.vaultSyncTasks.find? j := by
    intro j
    rw [htasks, Table.find?_deleteKey]
  refine ⟨rfl, ?_, ?_⟩
  · show none = (db'.vaultSyncTasks.find? id).bind _
    rw [hfind, if_pos rfl, Option.bind_none]
  · exact storedCron_of_task hgroups fun j hj => by rw [hfind, if_neg hj]

theorem createDestinationGroup_announces {db db' : Db} {id : Uuid} {model : DestinationGroup}
    {payload : CreateDestinationGroupPayload}
    (h : createDestinationGroup db id payload = some (db', model)) :
    Announces db db' (upsertSource model) := by
  obtain ⟨hid, hinsert, htasks⟩ := createDestinationGroup_spec h
  have hfind := Table.find?_insert? hinsert
  refine ⟨rfl, upsertSource_cron (by rw [hfind, if_pos rfl]), ?_⟩
  exact storedCron_of_source htasks fun j hj => by rw [hfind, if_neg hj]

theorem updateDestinationGroup_announces {db db' : Db} {id : Uuid} {updated : DestinationGroup}
    {payload : UpdateDestinationGroupPayload}
    (h : updateDestinationGroup db id payload = some (db', updated)) :
    Announces db db' (upsertSource updated) := by
  obtain ⟨existing, hexisting, hupdated, hgroups, htasks⟩ := updateDestinationGroup_spec h
  have hid : updated.id = id := by
    rw [hupdated, UpdateDestinationGroupPayload.apply_id]
    exact Table.key_of_find? hexisting
  refine ⟨rfl, upsertSource_cron ?_, ?_⟩
  · rw [hgroups, hid, Table.find?_modify_self, hexisting, hupdated]
    rfl
  · refine storedCron_of_source htasks ?_
    intro j hj
    rw [hid] at hj
    rw [hgroups, Table.find?_modify_of_ne _ _ _ hj]

theorem deleteDestinationGroup_announces {db db' : Db} {id : Uuid}
    (h : deleteDestinationGroup db id = some db') : Announces db db' (removeSource id) := by
  obtain ⟨hgroups, htasks⟩ := deleteDestinationGroup_spec h
  have hfind : ∀ j, db'.destinationGroups.find? j =
      if j = id then none else db.destinationGroups.find? j := by
    intro j
    rw [hgroups, Table.find?_deleteKey]
  refine ⟨rfl, ?_, ?_⟩
  · show none = (db'.destinationGroups.find? id).bind _
    rw [hfind, if_pos rfl, Option.bind_none]
  · exact storedCron_of_source htasks fun j hj => by rw [hfind, if_neg hj]

/-- Deleting an endpoint unschedules the rows of the tasks that read from it, and nothing else. -/
theorem deleteVaultEndpoint_storedCron {db db' : Db} {id : Uuid}
    (h : deleteVaultEndpoint db id = some db') (r : Resource) :
    storedCron db' r = storedCron db r ∨ ∃ task ∈ db.vaultSyncTasks.rows,
      task.sourceVaultId = id ∧ r = ⟨.task, task.id⟩ ∧ storedCron db' r = none := by
  obtain ⟨htasks, hgroups⟩ := deleteVaultEndpoint_spec h
  obtain ⟨kind, j⟩ := r
  cases kind with
  | source => exact Or.inl (by simp only [storedCron, hgroups])
  | task =>
      have hfind : db'.vaultSyncTasks.find? j =
          (db.vaultSyncTasks.find? j).filter fun task => !decide (task.sourceVaultId = id) := by
        rw [htasks, Table.find?_deleteWhere]
      cases htask : db.vaultSyncTasks.find? j with
      | none => exact Or.inl (by simp only [storedCron, hfind, htask, Option.filter_none])
      | some task =>
          obtain ⟨hmem, hid⟩ := Table.find?_eq_some_iff.mp htask
          by_cases hsource : task.sourceVaultId = id
          · refine Or.inr ⟨task, hmem, hsource, by rw [← hid], ?_⟩
            simp [storedCron, hfind, htask, Option.filter, hsource]
          · exact Or.inl (by simp [storedCron, hfind, htask, Option.filter, hsource])

/-- **One commit.**  The scheduled expression of a resource changes only through the call the
handler goes on to make, which carries the new one, or because an endpoint takes its task away. -/
theorem commit_spec {db db' : Db} {request : Request} {call : Option Call}
    (h : commit db request = some (db', call)) :
    (∃ c, call = some c ∧ Announces db db' c) ∨
      (call = none ∧ ∀ r, storedCron db' r = storedCron db r ∨ ∃ task ∈ db.vaultSyncTasks.rows,
        request = .deleteVaultEndpoint task.sourceVaultId ∧ r = ⟨.task, task.id⟩ ∧
          storedCron db' r = none) := by
  cases request with
  | createDestinationGroup id payload =>
      obtain ⟨⟨db₁, model⟩, hcommit, hout⟩ := Option.map_eq_some_iff.mp h
      obtain ⟨rfl, rfl⟩ := Prod.mk.inj hout
      exact Or.inl ⟨_, rfl, createDestinationGroup_announces hcommit⟩
  | updateDestinationGroup id payload =>
      obtain ⟨⟨db₁, updated⟩, hcommit, hout⟩ := Option.map_eq_some_iff.mp h
      obtain ⟨rfl, rfl⟩ := Prod.mk.inj hout
      exact Or.inl ⟨_, rfl, updateDestinationGroup_announces hcommit⟩
  | deleteDestinationGroup id =>
      obtain ⟨db₁, hcommit, hout⟩ := Option.map_eq_some_iff.mp h
      obtain ⟨rfl, rfl⟩ := Prod.mk.inj hout
      exact Or.inl ⟨_, rfl, deleteDestinationGroup_announces hcommit⟩
  | createVaultSyncTask id payload =>
      obtain ⟨⟨db₁, model⟩, hcommit, hout⟩ := Option.map_eq_some_iff.mp h
      obtain ⟨rfl, rfl⟩ := Prod.mk.inj hout
      exact Or.inl ⟨_, rfl, createVaultSyncTask_announces hcommit⟩
  | updateVaultSyncTask id payload =>
      obtain ⟨⟨db₁, updated⟩, hcommit, hout⟩ := Option.map_eq_some_iff.mp h
      obtain ⟨rfl, rfl⟩ := Prod.mk.inj hout
      exact Or.inl ⟨_, rfl, updateVaultSyncTask_announces hcommit⟩
  | deleteVaultSyncTask id =>
      obtain ⟨db₁, hcommit, hout⟩ := Option.map_eq_some_iff.mp h
      obtain ⟨rfl, rfl⟩ := Prod.mk.inj hout
      exact Or.inl ⟨_, rfl, deleteVaultSyncTask_announces hcommit⟩
  | createVaultEndpoint model =>
      obtain ⟨db₁, hcommit, hout⟩ := Option.map_eq_some_iff.mp h
      obtain ⟨rfl, rfl⟩ := Prod.mk.inj hout
      obtain ⟨htasks, hgroups⟩ := createVaultEndpoint_spec hcommit
      exact Or.inr ⟨rfl, fun r => Or.inl (by simp only [storedCron, htasks, hgroups])⟩
  | updateVaultEndpoint id payload =>
      obtain ⟨db₁, hcommit, hout⟩ := Option.map_eq_some_iff.mp h
      obtain ⟨rfl, rfl⟩ := Prod.mk.inj hout
      obtain ⟨htasks, hgroups⟩ := updateVaultEndpoint_spec hcommit
      exact Or.inr ⟨rfl, fun r => Or.inl (by simp only [storedCron, htasks, hgroups])⟩
  | deleteVaultEndpoint id =>
      obtain ⟨db₁, hcommit, hout⟩ := Option.map_eq_some_iff.mp h
      obtain ⟨rfl, rfl⟩ := Prod.mk.inj hout
      refine Or.inr ⟨rfl, ?_⟩
      intro r
      rcases deleteVaultEndpoint_storedCron hcommit r with hsame | ⟨task, hmem, rfl, hr, hgone⟩
      · exact Or.inl hsame
      · exact Or.inr ⟨task, hmem, rfl, hr, hgone⟩

end SimplyIpSync.Scheduler
