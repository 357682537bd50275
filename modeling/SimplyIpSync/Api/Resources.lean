import SimplyIpSync.Api.Keys

/-!
# Handlers of resources (`src/api/vaults.rs`, `src/api/sources.rs`, `src/api/sync_tasks.rs`)

Vault endpoints, destination groups with their feeds, and vault-sync tasks.  The calls into the
scheduler stand after the last write and change no table; they are left out.
-/

namespace SimplyIpSync.Api

open SimplyIpSync.Entities SimplyIpSync.Program

/-! ### What the three kinds share -/

/-- `find_by_id` on `vault_endpoints`. -/
def findVaultEndpoint (id : Uuid) : Handler OwnedVaultEndpoint :=
  findRow .vaultEndpoints fun db => db.vaultEndpoints.find? id

/-- `find_by_id` on `destination_groups`. -/
def findDestinationGroup (id : Uuid) : Handler OwnedDestinationGroup :=
  findRow .destinationGroups fun db => db.destinationGroups.find? id

/-- `find_by_id` on `vault_sync_tasks`. -/
def findVaultSyncTask (id : Uuid) : Handler OwnedVaultSyncTask :=
  findRow .vaultSyncTasks fun db => db.vaultSyncTasks.find? id

/-- `group_visible_to`, `visible_to` and their like: the Master, the owner, and any key with a
permission row.  The row is only looked for when it decides. -/
def isVisible (caller : ApiKey) (resourceType : String) (id : Uuid) (ownerKeyId : Option Uuid) :
    Handler Bool :=
  if caller.isMaster || ownerKeyId == some caller.id then pure true
  else do
    let permission ← findPermission caller.id resourceType id
    pure permission.isSome

/-- R2 on a resource: its permission row, then `guard_resource_manage`. -/
def requireManage (caller : ApiKey) (resourceType : String) (id : Uuid) : Handler Unit := do
  let permission ← findPermission caller.id resourceType id
  .lift (guardResourceManage caller permission)

/-- The deletion of a resource whose lifecycle rights have been checked. -/
def deleteResource (env : Env) (caller : ApiKey) (table : TableName)
    (effect : Database → ℕ × Database) (action name : String) : Handler Reply := do
  let affected ← deleteRows table effect
  .lift (require (affected != 0) .notFound)
  createAuditLog env caller action (some name)
  pure .noContent

/-- A job that is run by hand: its audit entry, the job, its log row and its stamp. -/
def triggerJob (env : Env) (caller : ApiKey) (id : Uuid) (table : TableName)
    (stamp : ℤ → Database → Except DbErr (Unit × Database)) (busy action name : String) :
    Handler Reply := do
  .lift (tryStartJob env id busy)
  createAuditLog env caller action (some name)
  let run ← .perform (.select table) fun db =>
    match env.runJob id db with
    | .error e => .error e
    | .ok run => .ok (run, db)
  insertRow .syncLogs onDbErr fun db => db.insertSyncLog run.log
  match run.stamp with
  | none => pure (.summary run.summary)
  | some startedAt => do
      updateRow table (stamp startedAt)
      pure (.summary run.summary)

/-- Forget the row an update returns. -/
def discardRow {ρ : Type} (out : Except DbErr (ρ × Database)) : Except DbErr (Unit × Database) :=
  match out with
  | .error e => .error e
  | .ok (_, db) => .ok ((), db)

/-- The check of `cron_schedule`. -/
def checkCron (env : Env) (expression : String) : Except AppError Unit :=
  match env.validateCronExpression expression with
  | .error e => .error (.invalidInput ("invalid cron_schedule: " ++ e))
  | .ok () => .ok ()

/-- A check on a field that may be missing. -/
def checkField {φ : Type} (check : φ → Except AppError Unit) : Option φ → Except AppError Unit
  | none => .ok ()
  | some value => check value

/-- Insert target rows one after the other. -/
def insertTargets (table : TableName) (insert : TargetSpec → Database → Except DbErr Database) :
    List TargetSpec → Handler Unit
  | [] => pure ()
  | target :: rest => do
      insertRow table onDbErr (insert target)
      insertTargets table insert rest

/-! ### Vault endpoints -/

/-- `list_vault_endpoints`. -/
def Handlers.listVaultEndpoints (caller : ApiKey) : Handler Reply := do
  let all ← .query (.select .vaultEndpoints) fun db => db.vaultEndpoints.rows
  let visible ← filterRows
    (fun endpoint => isVisible caller resourceVaultEndpoint endpoint.id endpoint.ownerKeyId) all
  pure (.vaults (visible.map .ofEndpoint))

/-- `get_vault_endpoint`. -/
def Handlers.getVaultEndpoint (caller : ApiKey) (id : Uuid) : Handler Reply := do
  let endpoint ← findVaultEndpoint id
  let visible ← isVisible caller resourceVaultEndpoint id endpoint.ownerKeyId
  .lift (require visible .notFound)
  pure (.vault (.ofEndpoint endpoint))

/-- `CreateVaultEndpointPayload`. -/
structure CreateVaultEndpointPayload where
  name : String
  targetUrl : String
  apiKey : String
  signingSecret : String
  description : Option String
  deriving DecidableEq, Repr

/-- The row that `create_vault_endpoint` inserts. -/
def Env.newVaultEndpoint (env : Env) (caller : ApiKey) (payload : CreateVaultEndpointPayload)
    (envelope : String) : OwnedVaultEndpoint where
  id := env.newId
  name := payload.name
  targetUrl := payload.targetUrl
  apiKey := payload.apiKey
  signingSecret := envelope
  description := payload.description
  ownerKeyId := some caller.id
  createdAt := env.now
  updatedAt := env.now

/-- `create_vault_endpoint`. -/
def Handlers.createVaultEndpoint (env : Env) (caller : ApiKey)
    (payload : CreateVaultEndpointPayload) : Handler Reply := do
  .lift (guardResourceCreation caller caller.canManageVaults)
  let envelope ← .lift (env.sealed payload.signingSecret)
  let inserted := env.newVaultEndpoint caller payload envelope
  insertRow .vaultEndpoints
    (onTaken ("a vault endpoint named '" ++ payload.name ++ "' already exists")) fun db =>
      db.insertVaultEndpoint inserted
  grantFullPermission env caller.id resourceVaultEndpoint env.newId
  createAuditLog env caller "VAULT_CREATE" (some inserted.name)
  pure (.vault (.ofEndpoint inserted))

/-- `UpdateVaultEndpointPayload` with its description; the signing secret is not sealed yet. -/
structure DescribedVaultEndpointPayload extends UpdateVaultEndpointPayload where
  description : Option String
  deriving DecidableEq, Repr

/-- The columns that a `PATCH` of an endpoint sets, given the sealed secret. -/
def DescribedVaultEndpointPayload.applyTo (payload : DescribedVaultEndpointPayload)
    (envelope : Option String) (now : ℤ) (row : OwnedVaultEndpoint) : OwnedVaultEndpoint :=
  { row with
    toVaultEndpoint :=
      { payload.toUpdateVaultEndpointPayload with signingSecret := envelope }.apply
        row.toVaultEndpoint
    description := payload.description.or row.description
    updatedAt := now }

/-- The secret of a `PATCH`, sealed when there is one. -/
def Env.sealedField (env : Env) : Option String → Except AppError (Option String)
  | none => .ok none
  | some secret =>
      match env.sealed secret with
      | .error e => .error e
      | .ok envelope => .ok (some envelope)

/-- `update_vault_endpoint`. -/
def Handlers.updateVaultEndpoint (env : Env) (caller : ApiKey) (id : Uuid)
    (payload : DescribedVaultEndpointPayload) : Handler Reply := do
  let _ ← findVaultEndpoint id
  requireManage caller resourceVaultEndpoint id
  let envelope ← .lift (env.sealedField payload.signingSecret)
  let updated ← updateRow .vaultEndpoints fun db =>
    db.updateVaultEndpoint id (payload.applyTo envelope env.now) fun _ => rfl
  createAuditLog env caller "VAULT_UPDATE" (some updated.name)
  pure (.vault (.ofEndpoint updated))

/-- `delete_vault_endpoint`. -/
def Handlers.deleteVaultEndpoint (env : Env) (caller : ApiKey) (id : Uuid) : Handler Reply := do
  let existing ← findVaultEndpoint id
  .lift (guardResourceLifecycle caller existing.ownerKeyId)
  deleteResource env caller .vaultEndpoints (fun db => db.deleteVaultEndpoint id) "VAULT_DELETE"
    existing.name

/-! ### Destination groups -/

/-- The targets of a group, as the API shows them. -/
def Database.targetsOfGroup (db : Database) (groupId : Uuid) : List TargetSpec :=
  (db.groupTargets.rows.filter fun r => r.destinationGroupId = groupId).map fun r =>
    ⟨r.vaultEndpointId, r.targetGroupName⟩

/-- `load_targets` of `sources.rs`. -/
def loadGroupTargets (groupId : Uuid) : Handler (List TargetSpec) :=
  .query (.select .groupTargets) fun db => db.targetsOfGroup groupId

/-- `load_feeds`. -/
def loadFeeds (groupId : Uuid) : Handler (List StampedExternalSource) :=
  .query (.select .externalSources) fun db =>
    db.externalSources.rows.filter fun r => r.destinationGroupId = groupId

/-- A group with its targets and feeds. -/
def loadGroup (group : OwnedDestinationGroup) : Handler DestinationGroupResponse := do
  let targets ← loadGroupTargets group.id
  let feeds ← loadFeeds group.id
  pure ⟨group, targets, feeds⟩

/-- Answer for each row in turn. -/
def mapRows {ρ β : Type} (load : ρ → Handler β) : List ρ → Handler (List β)
  | [] => pure []
  | row :: rest => do
      let response ← load row
      let responses ← mapRows load rest
      pure (response :: responses)

/-- `list_destination_groups`. -/
def Handlers.listDestinationGroups (caller : ApiKey) : Handler Reply := do
  let all ← .query (.select .destinationGroups) fun db => db.destinationGroups.rows
  let visible ← filterRows
    (fun group => isVisible caller resourceDestinationGroup group.id group.ownerKeyId) all
  let responses ← mapRows loadGroup visible
  pure (.groups responses)

/-- `get_destination_group`. -/
def Handlers.getDestinationGroup (caller : ApiKey) (id : Uuid) : Handler Reply := do
  let group ← findDestinationGroup id
  let visible ← isVisible caller resourceDestinationGroup group.id group.ownerKeyId
  .lift (require visible .notFound)
  let targets ← loadGroupTargets id
  let feeds ← loadFeeds id
  pure (.group ⟨group, targets, feeds⟩)

/-- `validate_mode`. -/
def validateMode (mode : String) : Except AppError Unit :=
  require (Client.BatchMode.parse mode).isSome
    (.invalidInput "mode must be upsert or full_replace")

/-- The row that `create_destination_group` inserts. -/
def Env.newDestinationGroup (env : Env) (caller : ApiKey)
    (payload : CreateDestinationGroupPayload) : OwnedDestinationGroup where
  id := env.newId
  name := payload.name
  targetGroupName := payload.targetGroupName
  cronSchedule := payload.cronSchedule
  mode := payload.mode
  isActive := payload.isActive
  skipBogonFiltering := payload.skipBogonFiltering
  lastRunAt := none
  ownerKeyId := some caller.id
  createdAt := env.now
  updatedAt := env.now

/-- Insert the target rows of a group. -/
def insertGroupTargetRows (groupId : Uuid) (targets : List TargetSpec) : Handler Unit :=
  insertTargets .groupTargets
    (fun target db =>
      db.insertGroupTarget ⟨groupId, target.vaultEndpointId, target.targetGroupName⟩) targets

/-- `create_destination_group`. -/
def Handlers.createDestinationGroup (env : Env) (caller : ApiKey)
    (payload : CreateDestinationGroupPayload) : Handler Reply := do
  .lift (guardResourceCreation caller caller.canManageSources)
  .lift (validateMode payload.mode)
  .lift (checkCron env payload.cronSchedule)
  let inserted := env.newDestinationGroup caller payload
  .transaction .begin .commit do
    insertRow .destinationGroups
      (onTaken ("a destination group named '" ++ payload.name ++ "' already exists")) fun db =>
        db.insertDestinationGroup inserted
    insertGroupTargetRows env.newId payload.targets
    grantFullPermission env caller.id resourceDestinationGroup env.newId
    createAuditLog env caller "GROUP_CREATE" (some inserted.name)
  pure (.group ⟨inserted, payload.targets, []⟩)

/-- The columns that a `PATCH` of a group sets. -/
def UpdateDestinationGroupPayload.applyTo (payload : UpdateDestinationGroupPayload) (now : ℤ)
    (row : OwnedDestinationGroup) : OwnedDestinationGroup :=
  { row with toDestinationGroup := payload.apply row.toDestinationGroup, updatedAt := now }

/-- Replace the target rows of a group, when the payload has them. -/
def replaceGroupTargets (groupId : Uuid) : Option (List TargetSpec) → Handler Unit
  | none => pure ()
  | some targets => do
      let _ ← deleteRows .groupTargets fun db => db.deleteGroupTargets groupId
      insertGroupTargetRows groupId targets

/-- `update_destination_group`. -/
def Handlers.updateDestinationGroup (env : Env) (caller : ApiKey) (id : Uuid)
    (payload : UpdateDestinationGroupPayload) : Handler Reply := do
  let _ ← findDestinationGroup id
  requireManage caller resourceDestinationGroup id
  .lift (checkField (checkCron env) payload.cronSchedule)
  .lift (checkField validateMode payload.mode)
  let updated ← .transaction .begin .commit do
    let updated ← updateRow .destinationGroups fun db =>
      db.updateDestinationGroup id (payload.applyTo env.now) fun _ => rfl
    replaceGroupTargets id payload.targets
    createAuditLog env caller "GROUP_UPDATE" (some updated.name)
    pure updated
  let targets ← loadGroupTargets id
  let feeds ← loadFeeds id
  pure (.group ⟨updated, targets, feeds⟩)

/-- `delete_destination_group`. -/
def Handlers.deleteDestinationGroup (env : Env) (caller : ApiKey) (id : Uuid) : Handler Reply := do
  let existing ← findDestinationGroup id
  .lift (guardResourceLifecycle caller existing.ownerKeyId)
  deleteResource env caller .destinationGroups (fun db => db.deleteDestinationGroup id)
    "GROUP_DELETE" existing.name

/-- The stamp of a group's run. -/
def Database.stampGroup (db : Database) (id : Uuid) (startedAt : ℤ) :
    Except DbErr (OwnedDestinationGroup × Database) :=
  db.updateDestinationGroup id (fun row => { row with lastRunAt := some startedAt }) fun _ => rfl

/-- `trigger_destination_group`. -/
def Handlers.triggerDestinationGroup (env : Env) (caller : ApiKey) (id : Uuid) : Handler Reply := do
  let existing ← findDestinationGroup id
  let permission ← findPermission caller.id resourceDestinationGroup id
  .lift (guardCanSync caller permission)
  triggerJob env caller id .destinationGroups
    (fun startedAt db => discardRow (db.stampGroup id startedAt))
    "a sync for this group is already in progress" "GROUP_TRIGGER" existing.name

/-! ### Feeds -/

/-- `validate_feed_parser`. -/
def validateFeedParser (env : Env) (parserType : String) (parserConfigJson : Option String) :
    Except AppError Unit :=
  if parserType ≠ "REGEX_LINE" ∧ parserType ≠ "JSON_PATH" then
    .error (.invalidInput "parser_type must be REGEX_LINE or JSON_PATH")
  else if parserType = "JSON_PATH" then
    match env.validateConfig parserConfigJson with
    | .error e => .error (.invalidInput ("invalid parser_config_json: " ++ e))
    | .ok () => .ok ()
  else .ok ()

/-- `validate_max_age_days`. -/
def validateMaxAgeDays (maxAgeDays : Option ℤ) : Except AppError Unit :=
  require (maxAgeDays.all fun n => decide (0 < n))
    (.invalidInput "max_age_days must be a positive integer")

/-- `CreateFeedPayload`, with its defaults filled in. -/
structure CreateFeedPayload where
  name : String
  sourceUrl : String
  parserType : String
  parserConfigJson : Option String
  maxAgeDays : Option ℤ
  skipBogonFiltering : Option Bool
  deriving DecidableEq, Repr

/-- `UpdateFeedPayload`: a missing field is left as it is. -/
structure UpdateFeedPayload where
  name : Option String
  sourceUrl : Option String
  parserType : Option String
  parserConfigJson : Option String
  maxAgeDays : Option ℤ
  skipBogonFiltering : Option Bool
  deriving DecidableEq, Repr

/-- The row that `create_feed` inserts. -/
def Env.newExternalSource (env : Env) (groupId : Uuid) (payload : CreateFeedPayload) :
    StampedExternalSource where
  id := env.newId
  destinationGroupId := groupId
  name := payload.name
  sourceUrl := payload.sourceUrl
  parserType := payload.parserType
  parserConfigJson := payload.parserConfigJson
  maxAgeDays := payload.maxAgeDays
  skipBogonFiltering := payload.skipBogonFiltering
  createdAt := env.now
  updatedAt := env.now

/-- The columns that a `PATCH` of a feed sets. -/
def UpdateFeedPayload.apply (payload : UpdateFeedPayload) (now : ℤ) (row : StampedExternalSource) :
    StampedExternalSource :=
  { row with
    name := payload.name.getD row.name
    sourceUrl := payload.sourceUrl.getD row.sourceUrl
    parserType := payload.parserType.getD row.parserType
    parserConfigJson := payload.parserConfigJson.or row.parserConfigJson
    maxAgeDays := payload.maxAgeDays.or row.maxAgeDays
    skipBogonFiltering := payload.skipBogonFiltering.or row.skipBogonFiltering
    updatedAt := now }

/-- `load_feed_in_group`. -/
def loadFeedInGroup (groupId feedId : Uuid) : Handler StampedExternalSource := do
  let feed ← findRow .externalSources fun db => db.externalSources.find? feedId
  .lift (require (feed.destinationGroupId == groupId) .notFound)
  pure feed

/-- `create_feed`. -/
def Handlers.createFeed (env : Env) (caller : ApiKey) (groupId : Uuid)
    (payload : CreateFeedPayload) : Handler Reply := do
  let _ ← findDestinationGroup groupId
  requireManage caller resourceDestinationGroup groupId
  .lift (validateFeedParser env payload.parserType payload.parserConfigJson)
  .lift (validateMaxAgeDays payload.maxAgeDays)
  let inserted := env.newExternalSource groupId payload
  insertRow .externalSources
    (onTaken ("a feed named '" ++ payload.name ++ "' already exists")) fun db =>
      db.insertExternalSource inserted
  createAuditLog env caller "FEED_CREATE" (some inserted.name)
  pure (.feed inserted)

/-- `update_feed`. -/
def Handlers.updateFeed (env : Env) (caller : ApiKey) (groupId feedId : Uuid)
    (payload : UpdateFeedPayload) : Handler Reply := do
  let existing ← loadFeedInGroup groupId feedId
  requireManage caller resourceDestinationGroup groupId
  .lift (validateFeedParser env (payload.parserType.getD existing.parserType)
    (payload.parserConfigJson.or existing.parserConfigJson))
  .lift (validateMaxAgeDays payload.maxAgeDays)
  let updated ← updateRow .externalSources fun db =>
    db.updateExternalSource feedId (payload.apply env.now) fun _ => rfl
  createAuditLog env caller "FEED_UPDATE" (some updated.name)
  pure (.feed updated)

/-- `delete_feed`. -/
def Handlers.deleteFeed (env : Env) (caller : ApiKey) (groupId feedId : Uuid) : Handler Reply := do
  let existing ← loadFeedInGroup groupId feedId
  requireManage caller resourceDestinationGroup groupId
  deleteResource env caller .externalSources (fun db => db.deleteExternalSource feedId)
    "FEED_DELETE" existing.name

/-- `TestFetchPayload`. -/
structure TestFetchPayload where
  sourceUrl : String
  parserType : String
  parserConfigJson : Option String
  deriving DecidableEq, Repr

/-- `TEST_FETCH_SAMPLE_LIMIT`. -/
def testFetchSampleLimit : ℕ := 50

/-- `test_fetch_external_source`, without the duration. -/
def Handlers.testFetchExternalSource (env : Env) (caller : ApiKey) (payload : TestFetchPayload) :
    Handler Reply := do
  .lift (guardResourceCreation caller caller.canManageSources)
  .lift (validateFeedParser env payload.parserType payload.parserConfigJson)
  match env.fetchAndParse payload.sourceUrl payload.parserType payload.parserConfigJson with
  | .error e => pure (.fetched "FAILED" 0 [] false (some e))
  | .ok addresses =>
      -- the first occurrence of an address is kept
      let deduped := addresses.reverse.dedup.reverse
      if deduped.isEmpty then pure (.fetched "PARTIAL" 0 [] false none)
      else
        pure (.fetched "SUCCESS" deduped.length (deduped.take testFetchSampleLimit)
          (decide (testFetchSampleLimit < deduped.length)) none)

/-! ### Vault-sync tasks -/

/-- The targets of a task, as the API shows them. -/
def Database.targetsOfTask (db : Database) (taskId : Uuid) : List TargetSpec :=
  (db.taskTargets.rows.filter fun r => r.vaultSyncTaskId = taskId).map fun r =>
    ⟨r.targetVaultId, r.targetGroupName⟩

/-- `load_targets` of `sync_tasks.rs`. -/
def loadTaskTargets (taskId : Uuid) : Handler (List TargetSpec) :=
  .query (.select .taskTargets) fun db => db.targetsOfTask taskId

/-- A task with its targets. -/
def loadTask (task : OwnedVaultSyncTask) : Handler VaultSyncTaskResponse := do
  let targets ← loadTaskTargets task.id
  pure ⟨task, targets⟩

/-- `list_vault_sync_tasks`. -/
def Handlers.listVaultSyncTasks (caller : ApiKey) : Handler Reply := do
  let all ← .query (.select .vaultSyncTasks) fun db => db.vaultSyncTasks.rows
  let visible ← filterRows
    (fun task => isVisible caller resourceSyncTask task.id task.ownerKeyId) all
  let responses ← mapRows loadTask visible
  pure (.tasks responses)

/-- `get_vault_sync_task`. -/
def Handlers.getVaultSyncTask (caller : ApiKey) (id : Uuid) : Handler Reply := do
  let task ← findVaultSyncTask id
  let visible ← isVisible caller resourceSyncTask task.id task.ownerKeyId
  .lift (require visible .notFound)
  let targets ← loadTaskTargets id
  pure (.task ⟨task, targets⟩)

/-- The row that `create_vault_sync_task` inserts. -/
def Env.newVaultSyncTask (env : Env) (caller : ApiKey) (payload : CreateVaultSyncTaskPayload) :
    OwnedVaultSyncTask where
  id := env.newId
  name := payload.name
  sourceVaultId := payload.sourceVaultId
  sourceGroupName := payload.sourceGroupName
  targetGroupName := payload.targetGroupName
  cronSchedule := payload.cronSchedule
  lastSyncAt := none
  mode := "upsert"
  isActive := payload.isActive
  skipBogonFiltering := payload.skipBogonFiltering
  ownerKeyId := some caller.id
  createdAt := env.now
  updatedAt := env.now

/-- Insert the target rows of a task. -/
def insertTaskTargetRows (taskId : Uuid) (targets : List TargetSpec) : Handler Unit :=
  insertTargets .taskTargets
    (fun target db =>
      db.insertTaskTarget ⟨taskId, target.vaultEndpointId, target.targetGroupName⟩) targets

/-- `create_vault_sync_task`. -/
def Handlers.createVaultSyncTask (env : Env) (caller : ApiKey)
    (payload : CreateVaultSyncTaskPayload) : Handler Reply := do
  .lift (guardResourceCreation caller caller.canManageVaults)
  .lift (checkCron env payload.cronSchedule)
  let inserted := env.newVaultSyncTask caller payload
  .transaction .begin .commit do
    insertRow .vaultSyncTasks
      (onTaken ("a sync task named '" ++ payload.name ++ "' already exists")) fun db =>
        db.insertVaultSyncTask inserted
    insertTaskTargetRows env.newId payload.targets
    grantFullPermission env caller.id resourceSyncTask env.newId
    createAuditLog env caller "SYNC_TASK_CREATE" (some inserted.name)
  pure (.task ⟨inserted, payload.targets⟩)

/-- The columns that a `PATCH` of a task sets. -/
def UpdateVaultSyncTaskPayload.applyTo (payload : UpdateVaultSyncTaskPayload) (now : ℤ)
    (row : OwnedVaultSyncTask) : OwnedVaultSyncTask :=
  { row with toVaultSyncTask := payload.apply row.toVaultSyncTask, updatedAt := now }

/-- Replace the target rows of a task, when the payload has them. -/
def replaceTaskTargets (taskId : Uuid) : Option (List TargetSpec) → Handler Unit
  | none => pure ()
  | some targets => do
      let _ ← deleteRows .taskTargets fun db => db.deleteTaskTargets taskId
      insertTaskTargetRows taskId targets

/-- `update_vault_sync_task`. -/
def Handlers.updateVaultSyncTask (env : Env) (caller : ApiKey) (id : Uuid)
    (payload : UpdateVaultSyncTaskPayload) : Handler Reply := do
  let _ ← findVaultSyncTask id
  requireManage caller resourceSyncTask id
  .lift (checkField (checkCron env) payload.cronSchedule)
  let updated ← .transaction .begin .commit do
    let updated ← updateRow .vaultSyncTasks fun db =>
      db.updateVaultSyncTask id (payload.applyTo env.now) fun _ => rfl
    replaceTaskTargets id payload.targets
    createAuditLog env caller "SYNC_TASK_UPDATE" (some updated.name)
    pure updated
  let targets ← loadTaskTargets id
  pure (.task ⟨updated, targets⟩)

/-- `delete_vault_sync_task`. -/
def Handlers.deleteVaultSyncTask (env : Env) (caller : ApiKey) (id : Uuid) : Handler Reply := do
  let existing ← findVaultSyncTask id
  .lift (guardResourceLifecycle caller existing.ownerKeyId)
  deleteResource env caller .vaultSyncTasks (fun db => db.deleteVaultSyncTask id)
    "SYNC_TASK_DELETE" existing.name

/-- The stamp of a task's run. -/
def Database.stampTask (db : Database) (id : Uuid) (startedAt : ℤ) :
    Except DbErr (OwnedVaultSyncTask × Database) :=
  db.updateVaultSyncTask id (fun row => { row with lastSyncAt := some startedAt }) fun _ => rfl

/-- `trigger_vault_sync_task`. -/
def Handlers.triggerVaultSyncTask (env : Env) (caller : ApiKey) (id : Uuid) : Handler Reply := do
  let existing ← findVaultSyncTask id
  let permission ← findPermission caller.id resourceSyncTask id
  .lift (guardCanSync caller permission)
  triggerJob env caller id .vaultSyncTasks
    (fun startedAt db => discardRow (db.stampTask id startedAt))
    "a sync for this task is already in progress" "SYNC_TASK_TRIGGER" existing.name

end SimplyIpSync.Api
