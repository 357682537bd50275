import SimplyIpSync.Store

/-!
# The rows a handler writes (`src/api/`)

What the accepted create, `PATCH` and `DELETE` requests for destination groups, vault-sync tasks and
vault endpoints do to the database, each as the one transaction it commits.  A refused transaction
is `none`: the row does not exist, its name or a key is taken, or a foreign key names no row.
Deletions cascade as the schema's foreign keys say.

Authentication, permissions and the checks on the payload come before the transaction.
-/

namespace SimplyIpSync.Api

open SimplyIpSync.Entities SimplyIpSync.Storage SimplyIpSync.Store

/-- `TargetSpec`: a target vault and the group it overrides. -/
structure TargetSpec where
  vaultEndpointId : Uuid
  targetGroupName : Option String
  deriving DecidableEq, Repr

/-- The foreign key of a column that names a vault endpoint. -/
def isVault (db : Db) (id : Uuid) : Bool := (db.vaultEndpoints.find? id).isSome

/-! ### Vault-sync tasks -/

/-- `CreateVaultSyncTaskPayload`. -/
structure CreateVaultSyncTaskPayload where
  name : String
  sourceVaultId : Uuid
  sourceGroupName : String
  targetGroupName : String
  cronSchedule : String
  isActive : Bool
  skipBogonFiltering : Bool
  targets : List TargetSpec
  deriving DecidableEq, Repr

/-- `UpdateVaultSyncTaskPayload`: a missing field is left as it is. -/
structure UpdateVaultSyncTaskPayload where
  name : Option String
  sourceVaultId : Option Uuid
  sourceGroupName : Option String
  targetGroupName : Option String
  cronSchedule : Option String
  isActive : Option Bool
  skipBogonFiltering : Option Bool
  targets : Option (List TargetSpec)
  deriving DecidableEq, Repr

/-- The columns that a `PATCH` of a task sets; the cursor is never one of them. -/
def UpdateVaultSyncTaskPayload.apply (payload : UpdateVaultSyncTaskPayload)
    (task : VaultSyncTask) : VaultSyncTask where
  id := task.id
  name := payload.name.getD task.name
  sourceVaultId := payload.sourceVaultId.getD task.sourceVaultId
  sourceGroupName := payload.sourceGroupName.getD task.sourceGroupName
  targetGroupName := payload.targetGroupName.getD task.targetGroupName
  cronSchedule := payload.cronSchedule.getD task.cronSchedule
  lastSyncAt := task.lastSyncAt
  isActive := payload.isActive.getD task.isActive
  skipBogonFiltering := payload.skipBogonFiltering.getD task.skipBogonFiltering

@[simp] theorem UpdateVaultSyncTaskPayload.apply_id (payload : UpdateVaultSyncTaskPayload)
    (task : VaultSyncTask) : (payload.apply task).id = task.id := rfl

/-- Insert the target rows of a task. -/
def insertTaskTargets (db : Db) (id : Uuid) (targets : List TargetSpec) : Option Db :=
  if targets.all fun t => isVault db t.vaultEndpointId then
    (db.vaultSyncTaskTargets.insertAll? (targets.map fun t =>
      ⟨id, t.vaultEndpointId, t.targetGroupName⟩)).map fun rows =>
        { db with vaultSyncTaskTargets := rows }
  else none

/-- No other task has this name. -/
def isTaskNameFree (db : Db) (id : Uuid) (name : String) : Bool :=
  db.vaultSyncTasks.rows.all fun r => r.name ≠ name ∨ r.id = id

/-- The transaction of `create_vault_sync_task`, and the inserted row. -/
def createVaultSyncTask (db : Db) (id : Uuid) (payload : CreateVaultSyncTaskPayload) :
    Option (Db × VaultSyncTask) :=
  let model : VaultSyncTask :=
    { id := id
      name := payload.name
      sourceVaultId := payload.sourceVaultId
      sourceGroupName := payload.sourceGroupName
      targetGroupName := payload.targetGroupName
      cronSchedule := payload.cronSchedule
      lastSyncAt := none
      isActive := payload.isActive
      skipBogonFiltering := payload.skipBogonFiltering }
  if isTaskNameFree db id payload.name && isVault db payload.sourceVaultId then
    match db.vaultSyncTasks.insert? model with
    | none => none
    | some rows =>
        (insertTaskTargets { db with vaultSyncTasks := rows } id payload.targets).map
          fun db => (db, model)
  else none

/-- The transaction of `update_vault_sync_task`, and the row it returns. -/
def updateVaultSyncTask (db : Db) (id : Uuid) (payload : UpdateVaultSyncTaskPayload) :
    Option (Db × VaultSyncTask) :=
  match db.vaultSyncTasks.find? id with
  | none => none
  | some existing =>
      let updated := payload.apply existing
      if isTaskNameFree db id updated.name && isVault db updated.sourceVaultId then
        let rows := db.vaultSyncTasks.modify id payload.apply payload.apply_id
        match payload.targets with
        | none => some ({ db with vaultSyncTasks := rows }, updated)
        | some targets =>
            let cleared := db.vaultSyncTaskTargets.deleteWhere fun r => r.vaultSyncTaskId = id
            (insertTaskTargets
              { db with vaultSyncTasks := rows, vaultSyncTaskTargets := cleared } id targets).map
                fun db => (db, updated)
      else none

/-- Delete the selected tasks; their targets go with them. -/
def deleteTasksWhere (db : Db) (p : VaultSyncTask → Bool) : Db :=
  { db with
    vaultSyncTasks := db.vaultSyncTasks.deleteWhere p
    vaultSyncTaskTargets := db.vaultSyncTaskTargets.deleteWhere fun r =>
      ((db.vaultSyncTasks.find? r.vaultSyncTaskId).filter p).isSome }

/-- The deletion of `delete_vault_sync_task`. -/
def deleteVaultSyncTask (db : Db) (id : Uuid) : Option Db :=
  if (db.vaultSyncTasks.find? id).isSome then some (deleteTasksWhere db fun r => r.id = id)
  else none

/-! ### Destination groups -/

/-- `CreateDestinationGroupPayload`. -/
structure CreateDestinationGroupPayload where
  name : String
  targetGroupName : String
  cronSchedule : String
  mode : String
  isActive : Bool
  skipBogonFiltering : Bool
  targets : List TargetSpec
  deriving DecidableEq, Repr

/-- `UpdateDestinationGroupPayload`. -/
structure UpdateDestinationGroupPayload where
  name : Option String
  targetGroupName : Option String
  cronSchedule : Option String
  mode : Option String
  isActive : Option Bool
  skipBogonFiltering : Option Bool
  targets : Option (List TargetSpec)
  deriving DecidableEq, Repr

/-- The columns that a `PATCH` of a group sets. -/
def UpdateDestinationGroupPayload.apply (payload : UpdateDestinationGroupPayload)
    (group : DestinationGroup) : DestinationGroup where
  id := group.id
  name := payload.name.getD group.name
  targetGroupName := payload.targetGroupName.getD group.targetGroupName
  cronSchedule := payload.cronSchedule.getD group.cronSchedule
  mode := payload.mode.getD group.mode
  isActive := payload.isActive.getD group.isActive
  skipBogonFiltering := payload.skipBogonFiltering.getD group.skipBogonFiltering
  lastRunAt := group.lastRunAt

@[simp] theorem UpdateDestinationGroupPayload.apply_id (payload : UpdateDestinationGroupPayload)
    (group : DestinationGroup) : (payload.apply group).id = group.id := rfl

/-- Insert the target rows of a group. -/
def insertGroupTargets (db : Db) (id : Uuid) (targets : List TargetSpec) : Option Db :=
  if targets.all fun t => isVault db t.vaultEndpointId then
    (db.destinationGroupVaultTargets.insertAll? (targets.map fun t =>
      ⟨id, t.vaultEndpointId, t.targetGroupName⟩)).map fun rows =>
        { db with destinationGroupVaultTargets := rows }
  else none

/-- No other group has this name. -/
def isGroupNameFree (db : Db) (id : Uuid) (name : String) : Bool :=
  db.destinationGroups.rows.all fun r => r.name ≠ name ∨ r.id = id

/-- The transaction of `create_destination_group`, and the inserted row. -/
def createDestinationGroup (db : Db) (id : Uuid) (payload : CreateDestinationGroupPayload) :
    Option (Db × DestinationGroup) :=
  let model : DestinationGroup :=
    { id := id
      name := payload.name
      targetGroupName := payload.targetGroupName
      cronSchedule := payload.cronSchedule
      mode := payload.mode
      isActive := payload.isActive
      skipBogonFiltering := payload.skipBogonFiltering
      lastRunAt := none }
  if isGroupNameFree db id payload.name then
    match db.destinationGroups.insert? model with
    | none => none
    | some rows =>
        (insertGroupTargets { db with destinationGroups := rows } id payload.targets).map
          fun db => (db, model)
  else none

/-- The transaction of `update_destination_group`, and the row it returns. -/
def updateDestinationGroup (db : Db) (id : Uuid) (payload : UpdateDestinationGroupPayload) :
    Option (Db × DestinationGroup) :=
  match db.destinationGroups.find? id with
  | none => none
  | some existing =>
      let updated := payload.apply existing
      if isGroupNameFree db id updated.name then
        let rows := db.destinationGroups.modify id payload.apply payload.apply_id
        match payload.targets with
        | none => some ({ db with destinationGroups := rows }, updated)
        | some targets =>
            let cleared := db.destinationGroupVaultTargets.deleteWhere fun r =>
              r.destinationGroupId = id
            (insertGroupTargets
              { db with destinationGroups := rows, destinationGroupVaultTargets := cleared } id
              targets).map fun db => (db, updated)
      else none

/-- The deletion of `delete_destination_group`; targets and feeds go with the group. -/
def deleteDestinationGroup (db : Db) (id : Uuid) : Option Db :=
  if (db.destinationGroups.find? id).isSome then
    some
      { db with
        destinationGroups := db.destinationGroups.deleteWhere fun r => r.id = id
        destinationGroupVaultTargets :=
          db.destinationGroupVaultTargets.deleteWhere fun r => r.destinationGroupId = id
        externalSources := db.externalSources.deleteWhere fun r => r.destinationGroupId = id }
  else none

/-! ### Vault endpoints -/

/-- `UpdateVaultEndpointPayload`, with the signing secret already sealed. -/
structure UpdateVaultEndpointPayload where
  name : Option String
  targetUrl : Option String
  apiKey : Option String
  signingSecret : Option String
  deriving DecidableEq, Repr

/-- The columns that a `PATCH` of an endpoint sets. -/
def UpdateVaultEndpointPayload.apply (payload : UpdateVaultEndpointPayload)
    (endpoint : VaultEndpoint) : VaultEndpoint where
  id := endpoint.id
  name := payload.name.getD endpoint.name
  targetUrl := payload.targetUrl.getD endpoint.targetUrl
  apiKey := payload.apiKey.getD endpoint.apiKey
  signingSecret := payload.signingSecret.getD endpoint.signingSecret

@[simp] theorem UpdateVaultEndpointPayload.apply_id (payload : UpdateVaultEndpointPayload)
    (endpoint : VaultEndpoint) : (payload.apply endpoint).id = endpoint.id := rfl

/-- No other endpoint has this name. -/
def isVaultNameFree (db : Db) (id : Uuid) (name : String) : Bool :=
  db.vaultEndpoints.rows.all fun r => r.name ≠ name ∨ r.id = id

/-- The insertion of `create_vault_endpoint`. -/
def createVaultEndpoint (db : Db) (model : VaultEndpoint) : Option Db :=
  if isVaultNameFree db model.id model.name then
    (db.vaultEndpoints.insert? model).map fun rows => { db with vaultEndpoints := rows }
  else none

/-- The update of `update_vault_endpoint`. -/
def updateVaultEndpoint (db : Db) (id : Uuid) (payload : UpdateVaultEndpointPayload) : Option Db :=
  match db.vaultEndpoints.find? id with
  | none => none
  | some existing =>
      if isVaultNameFree db id (payload.apply existing).name then
        some
          { db with
            vaultEndpoints := db.vaultEndpoints.modify id payload.apply payload.apply_id }
      else none

/-- The deletion of `delete_vault_endpoint`.  The tasks that read from the endpoint go with it, and
so do the rows that name it as a target. -/
def deleteVaultEndpoint (db : Db) (id : Uuid) : Option Db :=
  if isVault db id then
    let db := deleteTasksWhere db fun r => r.sourceVaultId = id
    some
      { db with
        vaultEndpoints := db.vaultEndpoints.deleteWhere fun r => r.id = id
        vaultSyncTaskTargets := db.vaultSyncTaskTargets.deleteWhere fun r => r.targetVaultId = id
        destinationGroupVaultTargets :=
          db.destinationGroupVaultTargets.deleteWhere fun r => r.vaultEndpointId = id }
  else none

/-! ### What a transaction does to the rows -/

theorem insertTaskTargets_spec {db db' : Db} {id : Uuid} {targets : List TargetSpec}
    (h : insertTaskTargets db id targets = some db') :
    ∃ rows, db' = { db with vaultSyncTaskTargets := rows } ∧
      ∀ r, r ∈ rows.rows ↔ r ∈ db.vaultSyncTaskTargets.rows ∨
        ∃ t ∈ targets, r = ⟨id, t.vaultEndpointId, t.targetGroupName⟩ := by
  rw [insertTaskTargets] at h
  split at h
  · obtain ⟨rows, hrows, rfl⟩ := Option.map_eq_some_iff.mp h
    refine ⟨rows, rfl, ?_⟩
    intro r
    rw [Table.mem_insertAll? hrows, List.mem_map]
    simp only [eq_comm]
  · cases h

theorem insertGroupTargets_spec {db db' : Db} {id : Uuid} {targets : List TargetSpec}
    (h : insertGroupTargets db id targets = some db') :
    ∃ rows, db' = { db with destinationGroupVaultTargets := rows } := by
  rw [insertGroupTargets] at h
  split at h
  · obtain ⟨rows, _, rfl⟩ := Option.map_eq_some_iff.mp h
    exact ⟨rows, rfl⟩
  · cases h

theorem createVaultSyncTask_spec {db db' : Db} {id : Uuid} {model : VaultSyncTask}
    {payload : CreateVaultSyncTaskPayload}
    (h : createVaultSyncTask db id payload = some (db', model)) :
    model.id = id ∧ db.vaultSyncTasks.insert? model = some db'.vaultSyncTasks ∧
      db'.vaultEndpoints = db.vaultEndpoints ∧ db'.destinationGroups = db.destinationGroups := by
  simp only [createVaultSyncTask] at h
  split at h
  · split at h
    · cases h
    · rename_i rows hrows
      obtain ⟨db₁, htargets, hout⟩ := Option.map_eq_some_iff.mp h
      obtain ⟨targets, hdb₁, -⟩ := insertTaskTargets_spec htargets
      obtain ⟨hdb', hmodel⟩ := Prod.mk.inj hout
      rw [← hmodel, ← hdb', hdb₁]
      exact ⟨rfl, hrows, rfl, rfl⟩
  · cases h

/-- **A `PATCH` of a task** rewrites its row and, when the payload has them, its targets. -/
theorem updateVaultSyncTask_spec {db db' : Db} {id : Uuid} {updated : VaultSyncTask}
    {payload : UpdateVaultSyncTaskPayload}
    (h : updateVaultSyncTask db id payload = some (db', updated)) :
    ∃ existing, db.vaultSyncTasks.find? id = some existing ∧ updated = payload.apply existing ∧
      db'.vaultSyncTasks = db.vaultSyncTasks.modify id payload.apply payload.apply_id ∧
      db'.vaultEndpoints = db.vaultEndpoints ∧ db'.destinationGroups = db.destinationGroups ∧
      ∀ r, r ∈ db'.vaultSyncTaskTargets.rows ↔ match payload.targets with
        | none => r ∈ db.vaultSyncTaskTargets.rows
        | some targets => (r ∈ db.vaultSyncTaskTargets.rows ∧ r.vaultSyncTaskId ≠ id) ∨
            ∃ t ∈ targets, r = ⟨id, t.vaultEndpointId, t.targetGroupName⟩ := by
  simp only [updateVaultSyncTask] at h
  split at h
  · cases h
  rename_i existing hexisting
  refine ⟨existing, hexisting, ?_⟩
  split at h
  · split at h
    · obtain ⟨hdb', hupdated⟩ := Prod.mk.inj (Option.some.inj h)
      rw [← hdb', ← hupdated]
      exact ⟨rfl, rfl, rfl, rfl, fun r => Iff.rfl⟩
    · obtain ⟨db₁, hinsert, hout⟩ := Option.map_eq_some_iff.mp h
      obtain ⟨rows, hdb₁, hrows⟩ := insertTaskTargets_spec hinsert
      obtain ⟨hdb', hupdated⟩ := Prod.mk.inj hout
      rw [← hdb', ← hupdated, hdb₁]
      refine ⟨rfl, rfl, rfl, rfl, ?_⟩
      intro r
      simp only [hrows, Table.mem_deleteWhere, decide_eq_false_iff_not]
  · cases h

theorem deleteVaultSyncTask_spec {db db' : Db} {id : Uuid}
    (h : deleteVaultSyncTask db id = some db') :
    (∃ task, db.vaultSyncTasks.find? id = some task) ∧
      db'.vaultSyncTasks = db.vaultSyncTasks.deleteWhere (fun r => r.id = id) ∧
      db'.vaultEndpoints = db.vaultEndpoints ∧ db'.destinationGroups = db.destinationGroups := by
  rw [deleteVaultSyncTask] at h
  split at h
  · rename_i hsome
    obtain rfl := Option.some.inj h
    exact ⟨Option.isSome_iff_exists.mp hsome, rfl, rfl, rfl⟩
  · cases h

theorem createDestinationGroup_spec {db db' : Db} {id : Uuid} {model : DestinationGroup}
    {payload : CreateDestinationGroupPayload}
    (h : createDestinationGroup db id payload = some (db', model)) :
    model.id = id ∧ db.destinationGroups.insert? model = some db'.destinationGroups ∧
      db'.vaultSyncTasks = db.vaultSyncTasks := by
  simp only [createDestinationGroup] at h
  split at h
  · split at h
    · cases h
    · rename_i rows hrows
      obtain ⟨db₁, htargets, hout⟩ := Option.map_eq_some_iff.mp h
      obtain ⟨targets, hdb₁⟩ := insertGroupTargets_spec htargets
      obtain ⟨hdb', hmodel⟩ := Prod.mk.inj hout
      rw [← hmodel, ← hdb', hdb₁]
      exact ⟨rfl, hrows, rfl⟩
  · cases h

theorem updateDestinationGroup_spec {db db' : Db} {id : Uuid} {updated : DestinationGroup}
    {payload : UpdateDestinationGroupPayload}
    (h : updateDestinationGroup db id payload = some (db', updated)) :
    ∃ existing, db.destinationGroups.find? id = some existing ∧ updated = payload.apply existing ∧
      db'.destinationGroups = db.destinationGroups.modify id payload.apply payload.apply_id ∧
      db'.vaultSyncTasks = db.vaultSyncTasks := by
  simp only [updateDestinationGroup] at h
  split at h
  · cases h
  rename_i existing hexisting
  refine ⟨existing, hexisting, ?_⟩
  split at h
  · split at h
    · obtain ⟨hdb', hupdated⟩ := Prod.mk.inj (Option.some.inj h)
      rw [← hdb', ← hupdated]
      exact ⟨rfl, rfl, rfl⟩
    · obtain ⟨db₁, hinsert, hout⟩ := Option.map_eq_some_iff.mp h
      obtain ⟨rows, hdb₁⟩ := insertGroupTargets_spec hinsert
      obtain ⟨hdb', hupdated⟩ := Prod.mk.inj hout
      rw [← hdb', ← hupdated, hdb₁]
      exact ⟨rfl, rfl, rfl⟩
  · cases h

theorem deleteDestinationGroup_spec {db db' : Db} {id : Uuid}
    (h : deleteDestinationGroup db id = some db') :
    db'.destinationGroups = db.destinationGroups.deleteWhere (fun r => r.id = id) ∧
      db'.vaultSyncTasks = db.vaultSyncTasks := by
  rw [deleteDestinationGroup] at h
  split at h
  · obtain rfl := Option.some.inj h
    exact ⟨rfl, rfl⟩
  · cases h

theorem createVaultEndpoint_spec {db db' : Db} {model : VaultEndpoint}
    (h : createVaultEndpoint db model = some db') :
    db'.vaultSyncTasks = db.vaultSyncTasks ∧ db'.destinationGroups = db.destinationGroups := by
  rw [createVaultEndpoint] at h
  split at h
  · obtain ⟨rows, _, rfl⟩ := Option.map_eq_some_iff.mp h
    exact ⟨rfl, rfl⟩
  · cases h

theorem updateVaultEndpoint_spec {db db' : Db} {id : Uuid} {payload : UpdateVaultEndpointPayload}
    (h : updateVaultEndpoint db id payload = some db') :
    db'.vaultSyncTasks = db.vaultSyncTasks ∧ db'.destinationGroups = db.destinationGroups := by
  rw [updateVaultEndpoint] at h
  split at h
  · cases h
  · split at h
    · obtain rfl := Option.some.inj h
      exact ⟨rfl, rfl⟩
    · cases h

/-- **Deleting an endpoint** takes the tasks that read from it away, and no group. -/
theorem deleteVaultEndpoint_spec {db db' : Db} {id : Uuid}
    (h : deleteVaultEndpoint db id = some db') :
    db'.vaultSyncTasks = db.vaultSyncTasks.deleteWhere (fun r => r.sourceVaultId = id) ∧
      db'.destinationGroups = db.destinationGroups := by
  rw [deleteVaultEndpoint] at h
  split at h
  · obtain rfl := Option.some.inj h
    exact ⟨rfl, rfl⟩
  · cases h

end SimplyIpSync.Api
