import SimplyIpSync.Api.Guards
import SimplyIpSync.Api.Transactions
import SimplyIpSync.Lib.Program

/-!
# The statements of the handlers (`src/migration/`, `src/api/support.rs`)

Each statement a handler issues, as what it does to the tables.  An insertion is refused when it
takes a primary key or a unique value that is in use or when a foreign key names no row; an update
is refused when its row is gone or a unique value is in use; a deletion cascades as the schema's
foreign keys say.  `parent_key_id` and `owner_key_id` are no foreign keys.
-/

namespace SimplyIpSync.Api

open SimplyIpSync.Entities SimplyIpSync.Storage SimplyIpSync.Program

/-- The tables. -/
inductive TableName
  | apiKeys
  | permissions
  | vaultEndpoints
  | destinationGroups
  | groupTargets
  | externalSources
  | vaultSyncTasks
  | taskTargets
  | syncLogs
  | auditLogs
  deriving DecidableEq, Repr

/-- The kinds of statement.  `selectOf` reads the rows whose parent or owner is one of the keys. -/
inductive Sql
  | select (table : TableName)
  | selectOf (table : TableName) (keyIds : List Uuid)
  | insert (table : TableName)
  | update (table : TableName)
  | delete (table : TableName)
  | begin
  | commit
  deriving DecidableEq, Repr

/-- `sea_orm::DbErr`, as far as handlers tell its cases apart. -/
inductive DbErr
  | uniqueConstraintViolation
  | other
  deriving DecidableEq, Repr

/-- A handler, from its extractors to its answer. -/
abbrev Handler := Prog Database Sql AppError

/-! ### One table -/

section OneTable

variable {α κ : Type} {key : α → κ} [DecidableEq κ]

/-- Insert a row that no row clashes with. -/
def insertUnique (t : Table key) (row : α) (clashes : α → Bool) : Except DbErr (Table key) :=
  if t.rows.any clashes then .error .uniqueConstraintViolation
  else
    match t.insert? row with
    | none => .error .uniqueConstraintViolation
    | some t => .ok t

/-- Rewrite the row with key `k`, unless another row clashes with what it becomes. -/
def updateUnique (t : Table key) (k : κ) (f : α → α) (hf : ∀ r, key (f r) = key r)
    (clashes : α → α → Bool) : Except DbErr (α × Table key) :=
  match t.find? k with
  | none => .error .other
  | some row =>
      if t.rows.any fun r => decide (key r ≠ k) && clashes (f row) r then
        .error .uniqueConstraintViolation
      else .ok (f row, t.modify k f hf)

theorem insertUnique_ok {t t' : Table key} {row : α} {clashes : α → Bool} :
    insertUnique t row clashes = .ok t' ↔
      t.rows.any clashes = false ∧ t.insert? row = some t' := by
  rw [insertUnique]
  cases t.rows.any clashes with
  | true => simp
  | false => cases t.insert? row <;> simp

theorem updateUnique_ok {t t' : Table key} {k : κ} {f : α → α} {hf : ∀ r, key (f r) = key r}
    {clashes : α → α → Bool} {row' : α} :
    updateUnique t k f hf clashes = .ok (row', t') ↔
      ∃ row, t.find? k = some row ∧ row' = f row ∧ t' = t.modify k f hf ∧
        ∀ r ∈ t.rows, key r ≠ k → clashes (f row) r = false := by
  rw [updateUnique]
  cases t.find? k with
  | none => simp
  | some row =>
      by_cases hclash : t.rows.any fun r => decide (key r ≠ k) && clashes (f row) r
      · simp only [if_pos hclash, reduceCtorEq, false_iff, Option.some.injEq, not_exists, not_and,
          not_forall]
        rintro _ rfl - -
        obtain ⟨r, hr, hne⟩ := List.any_eq_true.mp hclash
        rw [Bool.and_eq_true, decide_eq_true_eq] at hne
        exact ⟨r, hr, hne.1, by simp [hne.2]⟩
      · simp only [if_neg hclash, Except.ok.injEq, Prod.mk.injEq, Option.some.injEq,
          exists_eq_left']
        simp only [Bool.not_eq_true, List.any_eq_false, Bool.and_eq_false_iff] at hclash
        constructor
        · rintro ⟨rfl, rfl⟩
          refine ⟨rfl, rfl, ?_⟩
          intro r hr hne
          simpa [hne] using hclash r hr
        · rintro ⟨rfl, rfl, -⟩
          exact ⟨rfl, rfl⟩

end OneTable

/-! ### The statements on the database -/

namespace Database

/-- The key exists. -/
def hasKey (db : Database) (id : Uuid) : Bool := (db.apiKeys.find? id).isSome

/-- The vault endpoint exists. -/
def hasVault (db : Database) (id : Uuid) : Bool := (db.vaultEndpoints.find? id).isSome

/-- The destination group exists. -/
def hasGroup (db : Database) (id : Uuid) : Bool := (db.destinationGroups.find? id).isSome

/-- The vault-sync task exists. -/
def hasTask (db : Database) (id : Uuid) : Bool := (db.vaultSyncTasks.find? id).isSome

/-- The hash of a key and the marker of the Master are unique. -/
def insertApiKey (db : Database) (row : ApiKey) : Except DbErr Database :=
  match insertUnique db.apiKeys row fun r =>
      decide (r.keyHash = row.keyHash) || (r.isMaster && row.isMaster) with
  | .error e => .error e
  | .ok rows => .ok { db with apiKeys := rows }

def updateApiKey (db : Database) (id : Uuid) (f : ApiKey → ApiKey) (hf : ∀ r, (f r).id = r.id) :
    Except DbErr (ApiKey × Database) :=
  match updateUnique db.apiKeys id f hf fun r r' =>
      decide (r.keyHash = r'.keyHash) || (r.isMaster && r'.isMaster) with
  | .error e => .error e
  | .ok (row, rows) => .ok (row, { db with apiKeys := rows })

/-- Permissions go with their key; an audit entry loses its reference to it. -/
def deleteApiKeys (db : Database) (ids : List Uuid) : ℕ × Database :=
  ((db.apiKeys.rows.filter fun r => decide (r.id ∈ ids)).length,
    { db with
      apiKeys := db.apiKeys.deleteWhere fun r => r.id ∈ ids
      permissions := db.permissions.deleteWhere fun r => r.apiKeyId ∈ ids
      auditLogs := db.auditLogs.map fun r =>
        { r with apiKeyId := r.apiKeyId.filter fun id => decide (id ∉ ids) } })

/-- A key has at most one permission row on a resource. -/
def insertPermission (db : Database) (row : SyncPermission) : Except DbErr Database :=
  match insertUnique db.permissions row fun r =>
      decide (r.apiKeyId = row.apiKeyId ∧ r.resourceType = row.resourceType ∧
        r.resourceId = row.resourceId) with
  | .error e => .error e
  | .ok rows =>
      if db.hasKey row.apiKeyId then .ok { db with permissions := rows } else .error .other

/-- The columns of a permission row that are written never touch its unique columns. -/
def updatePermission (db : Database) (id : Uuid) (f : SyncPermission → SyncPermission)
    (hf : ∀ r, (f r).id = r.id) : Except DbErr (SyncPermission × Database) :=
  match updateUnique db.permissions id f hf fun _ _ => false with
  | .error e => .error e
  | .ok (row, rows) => .ok (row, { db with permissions := rows })

def deletePermission (db : Database) (id : Uuid) : ℕ × Database :=
  ((db.permissions.rows.filter fun r => decide (r.id = id)).length,
    { db with permissions := db.permissions.deleteWhere fun r => r.id = id })

/-- The name of an endpoint is unique. -/
def insertVaultEndpoint (db : Database) (row : OwnedVaultEndpoint) : Except DbErr Database :=
  match insertUnique db.vaultEndpoints row fun r => decide (r.name = row.name) with
  | .error e => .error e
  | .ok rows => .ok { db with vaultEndpoints := rows }

def updateVaultEndpoint (db : Database) (id : Uuid) (f : OwnedVaultEndpoint → OwnedVaultEndpoint)
    (hf : ∀ r, (f r).id = r.id) : Except DbErr (OwnedVaultEndpoint × Database) :=
  match updateUnique db.vaultEndpoints id f hf fun r r' => decide (r.name = r'.name) with
  | .error e => .error e
  | .ok (row, rows) => .ok (row, { db with vaultEndpoints := rows })

/-- The tasks that read from the endpoint go with it, and so does every row that names it as a
target. -/
def deleteVaultEndpoint (db : Database) (id : Uuid) : ℕ × Database :=
  ((db.vaultEndpoints.rows.filter fun r => decide (r.id = id)).length,
    { db with
      vaultEndpoints := db.vaultEndpoints.deleteWhere fun r => r.id = id
      vaultSyncTasks := db.vaultSyncTasks.deleteWhere fun r => r.sourceVaultId = id
      taskTargets := db.taskTargets.deleteWhere fun r =>
        decide (r.targetVaultId = id) ||
          (db.vaultSyncTasks.find? r.vaultSyncTaskId).any fun task => task.sourceVaultId = id
      groupTargets := db.groupTargets.deleteWhere fun r => r.vaultEndpointId = id })

/-- The name of a group is unique. -/
def insertDestinationGroup (db : Database) (row : OwnedDestinationGroup) : Except DbErr Database :=
  match insertUnique db.destinationGroups row fun r => decide (r.name = row.name) with
  | .error e => .error e
  | .ok rows => .ok { db with destinationGroups := rows }

def updateDestinationGroup (db : Database) (id : Uuid)
    (f : OwnedDestinationGroup → OwnedDestinationGroup) (hf : ∀ r, (f r).id = r.id) :
    Except DbErr (OwnedDestinationGroup × Database) :=
  match updateUnique db.destinationGroups id f hf fun r r' => decide (r.name = r'.name) with
  | .error e => .error e
  | .ok (row, rows) => .ok (row, { db with destinationGroups := rows })

/-- Targets and feeds go with their group. -/
def deleteDestinationGroup (db : Database) (id : Uuid) : ℕ × Database :=
  ((db.destinationGroups.rows.filter fun r => decide (r.id = id)).length,
    { db with
      destinationGroups := db.destinationGroups.deleteWhere fun r => r.id = id
      groupTargets := db.groupTargets.deleteWhere fun r => r.destinationGroupId = id
      externalSources := db.externalSources.deleteWhere fun r => r.destinationGroupId = id })

def insertGroupTarget (db : Database) (row : DestinationGroupVaultTarget) :
    Except DbErr Database :=
  match insertUnique db.groupTargets row fun _ => false with
  | .error e => .error e
  | .ok rows =>
      if db.hasGroup row.destinationGroupId && db.hasVault row.vaultEndpointId then
        .ok { db with groupTargets := rows }
      else .error .other

def deleteGroupTargets (db : Database) (groupId : Uuid) : ℕ × Database :=
  ((db.groupTargets.rows.filter fun r => decide (r.destinationGroupId = groupId)).length,
    { db with groupTargets := db.groupTargets.deleteWhere fun r => r.destinationGroupId = groupId })

/-- The name of a feed is unique over all groups. -/
def insertExternalSource (db : Database) (row : StampedExternalSource) : Except DbErr Database :=
  match insertUnique db.externalSources row fun r => decide (r.name = row.name) with
  | .error e => .error e
  | .ok rows =>
      if db.hasGroup row.destinationGroupId then .ok { db with externalSources := rows }
      else .error .other

/-- The group of a feed is never written again. -/
def updateExternalSource (db : Database) (id : Uuid)
    (f : StampedExternalSource → StampedExternalSource) (hf : ∀ r, (f r).id = r.id) :
    Except DbErr (StampedExternalSource × Database) :=
  match updateUnique db.externalSources id f hf fun r r' => decide (r.name = r'.name) with
  | .error e => .error e
  | .ok (row, rows) => .ok (row, { db with externalSources := rows })

def deleteExternalSource (db : Database) (id : Uuid) : ℕ × Database :=
  ((db.externalSources.rows.filter fun r => decide (r.id = id)).length,
    { db with externalSources := db.externalSources.deleteWhere fun r => r.id = id })

/-- The name of a task is unique. -/
def insertVaultSyncTask (db : Database) (row : OwnedVaultSyncTask) : Except DbErr Database :=
  match insertUnique db.vaultSyncTasks row fun r => decide (r.name = row.name) with
  | .error e => .error e
  | .ok rows =>
      if db.hasVault row.sourceVaultId then .ok { db with vaultSyncTasks := rows }
      else .error .other

def updateVaultSyncTask (db : Database) (id : Uuid) (f : OwnedVaultSyncTask → OwnedVaultSyncTask)
    (hf : ∀ r, (f r).id = r.id) : Except DbErr (OwnedVaultSyncTask × Database) :=
  match updateUnique db.vaultSyncTasks id f hf fun r r' => decide (r.name = r'.name) with
  | .error e => .error e
  | .ok (row, rows) =>
      if db.hasVault row.sourceVaultId then .ok (row, { db with vaultSyncTasks := rows })
      else .error .other

/-- Targets go with their task. -/
def deleteVaultSyncTask (db : Database) (id : Uuid) : ℕ × Database :=
  ((db.vaultSyncTasks.rows.filter fun r => decide (r.id = id)).length,
    { db with
      vaultSyncTasks := db.vaultSyncTasks.deleteWhere fun r => r.id = id
      taskTargets := db.taskTargets.deleteWhere fun r => r.vaultSyncTaskId = id })

def insertTaskTarget (db : Database) (row : VaultSyncTaskTarget) : Except DbErr Database :=
  match insertUnique db.taskTargets row fun _ => false with
  | .error e => .error e
  | .ok rows =>
      if db.hasTask row.vaultSyncTaskId && db.hasVault row.targetVaultId then
        .ok { db with taskTargets := rows }
      else .error .other

def deleteTaskTargets (db : Database) (taskId : Uuid) : ℕ × Database :=
  ((db.taskTargets.rows.filter fun r => decide (r.vaultSyncTaskId = taskId)).length,
    { db with taskTargets := db.taskTargets.deleteWhere fun r => r.vaultSyncTaskId = taskId })

def insertSyncLog (db : Database) (row : SyncLog) : Except DbErr Database :=
  .ok { db with syncLogs := db.syncLogs ++ [row] }

def insertAuditLog (db : Database) (row : AuditLog) : Except DbErr Database :=
  if row.apiKeyId.all db.hasKey then .ok { db with auditLogs := db.auditLogs ++ [row] }
  else .error .other

end Database

/-! ### What an accepted statement has done -/

section Accepted

variable {db db' : Database} {id : Uuid}

theorem insertApiKey_ok {row : ApiKey} (h : db.insertApiKey row = .ok db') :
    ∃ rows, db.apiKeys.insert? row = some rows ∧ db' = { db with apiKeys := rows } := by
  rw [Database.insertApiKey] at h
  split at h
  · cases h
  · rename_i rows hrows
    exact ⟨rows, (insertUnique_ok.mp hrows).2, (Except.ok.inj h).symm⟩

theorem updateApiKey_ok {f : ApiKey → ApiKey} {hf : ∀ r, (f r).id = r.id} {row : ApiKey}
    (h : db.updateApiKey id f hf = .ok (row, db')) :
    ∃ old, db.apiKeys.find? id = some old ∧ row = f old ∧
      db' = { db with apiKeys := db.apiKeys.modify id f hf } := by
  rw [Database.updateApiKey] at h
  split at h
  · cases h
  · rename_i row' rows hrows
    obtain ⟨old, hold, hrow', hrows', -⟩ := updateUnique_ok.mp hrows
    obtain ⟨hrow, hdb'⟩ := Prod.mk.inj (Except.ok.inj h)
    exact ⟨old, hold, hrow ▸ hrow', by rw [← hdb', hrows']⟩

theorem insertPermission_ok {row : SyncPermission} (h : db.insertPermission row = .ok db') :
    ∃ rows, db.permissions.insert? row = some rows ∧ db' = { db with permissions := rows } := by
  rw [Database.insertPermission] at h
  split at h
  · cases h
  · rename_i rows hrows
    split at h
    · exact ⟨rows, (insertUnique_ok.mp hrows).2, (Except.ok.inj h).symm⟩
    · cases h

theorem updatePermission_ok {f : SyncPermission → SyncPermission} {hf : ∀ r, (f r).id = r.id}
    {row : SyncPermission} (h : db.updatePermission id f hf = .ok (row, db')) :
    ∃ old, db.permissions.find? id = some old ∧ row = f old ∧
      db' = { db with permissions := db.permissions.modify id f hf } := by
  rw [Database.updatePermission] at h
  split at h
  · cases h
  · rename_i row' rows hrows
    obtain ⟨old, hold, hrow', hrows', -⟩ := updateUnique_ok.mp hrows
    obtain ⟨hrow, hdb'⟩ := Prod.mk.inj (Except.ok.inj h)
    exact ⟨old, hold, hrow ▸ hrow', by rw [← hdb', hrows']⟩

theorem insertVaultEndpoint_ok {row : OwnedVaultEndpoint}
    (h : db.insertVaultEndpoint row = .ok db') :
    ∃ rows, db.vaultEndpoints.insert? row = some rows ∧
      db' = { db with vaultEndpoints := rows } := by
  rw [Database.insertVaultEndpoint] at h
  split at h
  · cases h
  · rename_i rows hrows
    exact ⟨rows, (insertUnique_ok.mp hrows).2, (Except.ok.inj h).symm⟩

theorem updateVaultEndpoint_ok {f : OwnedVaultEndpoint → OwnedVaultEndpoint}
    {hf : ∀ r, (f r).id = r.id} {row : OwnedVaultEndpoint}
    (h : db.updateVaultEndpoint id f hf = .ok (row, db')) :
    ∃ old, db.vaultEndpoints.find? id = some old ∧ row = f old ∧
      db' = { db with vaultEndpoints := db.vaultEndpoints.modify id f hf } := by
  rw [Database.updateVaultEndpoint] at h
  split at h
  · cases h
  · rename_i row' rows hrows
    obtain ⟨old, hold, hrow', hrows', -⟩ := updateUnique_ok.mp hrows
    obtain ⟨hrow, hdb'⟩ := Prod.mk.inj (Except.ok.inj h)
    exact ⟨old, hold, hrow ▸ hrow', by rw [← hdb', hrows']⟩

theorem insertDestinationGroup_ok {row : OwnedDestinationGroup}
    (h : db.insertDestinationGroup row = .ok db') :
    ∃ rows, db.destinationGroups.insert? row = some rows ∧
      db' = { db with destinationGroups := rows } := by
  rw [Database.insertDestinationGroup] at h
  split at h
  · cases h
  · rename_i rows hrows
    exact ⟨rows, (insertUnique_ok.mp hrows).2, (Except.ok.inj h).symm⟩

theorem updateDestinationGroup_ok {f : OwnedDestinationGroup → OwnedDestinationGroup}
    {hf : ∀ r, (f r).id = r.id} {row : OwnedDestinationGroup}
    (h : db.updateDestinationGroup id f hf = .ok (row, db')) :
    ∃ old, db.destinationGroups.find? id = some old ∧ row = f old ∧
      db' = { db with destinationGroups := db.destinationGroups.modify id f hf } := by
  rw [Database.updateDestinationGroup] at h
  split at h
  · cases h
  · rename_i row' rows hrows
    obtain ⟨old, hold, hrow', hrows', -⟩ := updateUnique_ok.mp hrows
    obtain ⟨hrow, hdb'⟩ := Prod.mk.inj (Except.ok.inj h)
    exact ⟨old, hold, hrow ▸ hrow', by rw [← hdb', hrows']⟩

theorem insertGroupTarget_ok {row : DestinationGroupVaultTarget}
    (h : db.insertGroupTarget row = .ok db') : ∃ rows, db' = { db with groupTargets := rows } := by
  rw [Database.insertGroupTarget] at h
  split at h
  · cases h
  · rename_i rows _
    split at h
    · exact ⟨rows, (Except.ok.inj h).symm⟩
    · cases h

theorem insertExternalSource_ok {row : StampedExternalSource}
    (h : db.insertExternalSource row = .ok db') :
    ∃ rows, db.externalSources.insert? row = some rows ∧
      db' = { db with externalSources := rows } := by
  rw [Database.insertExternalSource] at h
  split at h
  · cases h
  · rename_i rows hrows
    split at h
    · exact ⟨rows, (insertUnique_ok.mp hrows).2, (Except.ok.inj h).symm⟩
    · cases h

theorem updateExternalSource_ok {f : StampedExternalSource → StampedExternalSource}
    {hf : ∀ r, (f r).id = r.id} {row : StampedExternalSource}
    (h : db.updateExternalSource id f hf = .ok (row, db')) :
    ∃ old, db.externalSources.find? id = some old ∧ row = f old ∧
      db' = { db with externalSources := db.externalSources.modify id f hf } := by
  rw [Database.updateExternalSource] at h
  split at h
  · cases h
  · rename_i row' rows hrows
    obtain ⟨old, hold, hrow', hrows', -⟩ := updateUnique_ok.mp hrows
    obtain ⟨hrow, hdb'⟩ := Prod.mk.inj (Except.ok.inj h)
    exact ⟨old, hold, hrow ▸ hrow', by rw [← hdb', hrows']⟩

theorem insertVaultSyncTask_ok {row : OwnedVaultSyncTask}
    (h : db.insertVaultSyncTask row = .ok db') :
    ∃ rows, db.vaultSyncTasks.insert? row = some rows ∧
      db' = { db with vaultSyncTasks := rows } := by
  rw [Database.insertVaultSyncTask] at h
  split at h
  · cases h
  · rename_i rows hrows
    split at h
    · exact ⟨rows, (insertUnique_ok.mp hrows).2, (Except.ok.inj h).symm⟩
    · cases h

theorem updateVaultSyncTask_ok {f : OwnedVaultSyncTask → OwnedVaultSyncTask}
    {hf : ∀ r, (f r).id = r.id} {row : OwnedVaultSyncTask}
    (h : db.updateVaultSyncTask id f hf = .ok (row, db')) :
    ∃ old, db.vaultSyncTasks.find? id = some old ∧ row = f old ∧
      db' = { db with vaultSyncTasks := db.vaultSyncTasks.modify id f hf } := by
  rw [Database.updateVaultSyncTask] at h
  split at h
  · cases h
  · rename_i row' rows hrows
    obtain ⟨old, hold, hrow', hrows', -⟩ := updateUnique_ok.mp hrows
    split at h
    · obtain ⟨hrow, hdb'⟩ := Prod.mk.inj (Except.ok.inj h)
      exact ⟨old, hold, hrow ▸ hrow', by rw [← hdb', hrows']⟩
    · cases h

theorem insertTaskTarget_ok {row : VaultSyncTaskTarget}
    (h : db.insertTaskTarget row = .ok db') : ∃ rows, db' = { db with taskTargets := rows } := by
  rw [Database.insertTaskTarget] at h
  split at h
  · cases h
  · rename_i rows _
    split at h
    · exact ⟨rows, (Except.ok.inj h).symm⟩
    · cases h

theorem insertAuditLog_ok {entry : AuditLog} (h : db.insertAuditLog entry = .ok db') :
    db' = { db with auditLogs := db.auditLogs ++ [entry] } := by
  rw [Database.insertAuditLog] at h
  split at h
  · exact (Except.ok.inj h).symm
  · cases h

end Accepted

/-! ### Statements of a handler -/

/-- An insertion; `onError` is the answer to an error of the database. -/
def insertRow (table : TableName) (onError : DbErr → AppError)
    (effect : Database → Except DbErr Database) : Handler Unit :=
  .perform (.insert table) fun db =>
    match effect db with
    | .error e => .error (onError e)
    | .ok db => .ok ((), db)

/-- `AppError::DbError`. -/
def onDbErr : DbErr → AppError := fun _ => .dbError

/-- The answer to a unique value in use. -/
def onTaken (msg : String) : DbErr → AppError
  | .uniqueConstraintViolation => .conflict msg
  | .other => .dbError

/-- An update, which returns the row. -/
def updateRow {ρ : Type} (table : TableName) (effect : Database → Except DbErr (ρ × Database)) :
    Handler ρ :=
  .perform (.update table) fun db =>
    match effect db with
    | .error _ => .error .dbError
    | .ok out => .ok out

/-- A deletion, which returns the number of rows it removed. -/
def deleteRows (table : TableName) (effect : Database → ℕ × Database) : Handler ℕ :=
  .perform (.delete table) fun db => .ok (effect db)

/-- `find_by_id(id).one(db).await?.ok_or(NotFound)`. -/
def findRow {ρ : Type} (table : TableName) (find : Database → Option ρ) : Handler ρ := do
  match ← .query (.select table) find with
  | none => .refuse .notFound
  | some row => pure row

end SimplyIpSync.Api
