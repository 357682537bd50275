import SimplyIpSync.Api.Resources

/-!
# The routes behind the middleware (`src/lib.rs`, `src/api/audit.rs`, `src/api/sync_logs.rs`)

A request is what the extractors make of the path, the query and the body; one that an extractor
refuses is `rejected`.  `handle` sends it to its handler, and `serve` is the whole of a call: the
caller's row is looked up, its Master claim is checked, and the handler runs, possibly with one
statement that fails.
-/

namespace SimplyIpSync.Api

open SimplyIpSync.Crypto SimplyIpSync.Entities SimplyIpSync.Storage SimplyIpSync.Program

/-- `SyncLogQuery`. -/
structure SyncLogQuery where
  jobType : Option String
  jobId : Option Uuid
  limit : Option ℕ
  offset : Option ℕ
  deriving DecidableEq, Repr

/-- `AuditLogQuery`. -/
structure AuditLogQuery where
  action : Option String
  limit : Option ℕ
  offset : Option ℕ
  deriving DecidableEq, Repr

/-- One page of the newest rows first. -/
def newestPage {ρ : Type} (timestamp : ρ → ℤ) (limit offset : Option ℕ) (rows : List ρ) : List ρ :=
  ((rows.mergeSort fun r r' => timestamp r' ≤ timestamp r).drop (offset.getD 0)).take
    (min (limit.getD 100) 1000)

/-- `resource_type_for`. -/
def resourceTypeFor : String → Option String
  | "EXTERNAL_FEED" => some resourceDestinationGroup
  | "VAULT_SYNC" => some resourceSyncTask
  | _ => none

/-- `list_sync_logs`. -/
def Handlers.listSyncLogs (caller : ApiKey) (query : SyncLogQuery) : Handler Reply := do
  let rows ← .query (.select .syncLogs) fun db =>
    newestPage SyncLog.timestamp query.limit query.offset (db.syncLogs.filter fun r =>
      query.jobType.all (· == r.jobType) && query.jobId.all (· == r.jobId))
  if caller.isMaster then pure (.syncLogs rows)
  else do
    let visible ← filterRows
      (fun row =>
        match resourceTypeFor row.jobType with
        | none => pure false
        | some resourceType => do
            let permission ← findPermission caller.id resourceType row.jobId
            pure (guardCanViewLogs caller permission))
      rows
    pure (.syncLogs visible)

/-- `list_audit_logs`. -/
def Handlers.listAuditLogs (caller : ApiKey) (query : AuditLogQuery) : Handler Reply := do
  .lift (require caller.isMaster (.forbidden "audit logs are visible to the Master key only"))
  let rows ← .query (.select .auditLogs) fun db =>
    newestPage AuditLog.timestamp query.limit query.offset
      (db.auditLogs.filter fun r => query.action.all (· == r.action))
  pure (.auditLogs rows)

/-- A request to a route behind `auth_middleware`, after its extractors. -/
inductive Request
  | rejected (e : AppError)
  | getMe
  | listApiKeys
  | getApiKey (id : Uuid)
  | createApiKey (payload : CreateApiKeyPayload)
  | updateApiKey (id : Uuid) (payload : UpdateApiKeyPayload)
  | deleteApiKey (id : Uuid)
  | rotateApiKey (id : Uuid)
  | rotateSigningSecret (id : Uuid)
  | listKeyPermissions (id : Uuid)
  | grantKeyPermission (id : Uuid) (payload : GrantPermissionPayload)
  | revokeKeyPermission (id permissionId : Uuid)
  | listVaultEndpoints
  | getVaultEndpoint (id : Uuid)
  | createVaultEndpoint (payload : CreateVaultEndpointPayload)
  | updateVaultEndpoint (id : Uuid) (payload : DescribedVaultEndpointPayload)
  | deleteVaultEndpoint (id : Uuid)
  | testFetchExternalSource (payload : TestFetchPayload)
  | listDestinationGroups
  | getDestinationGroup (id : Uuid)
  | createDestinationGroup (payload : CreateDestinationGroupPayload)
  | updateDestinationGroup (id : Uuid) (payload : UpdateDestinationGroupPayload)
  | deleteDestinationGroup (id : Uuid)
  | triggerDestinationGroup (id : Uuid)
  | createFeed (groupId : Uuid) (payload : CreateFeedPayload)
  | updateFeed (groupId feedId : Uuid) (payload : UpdateFeedPayload)
  | deleteFeed (groupId feedId : Uuid)
  | listVaultSyncTasks
  | getVaultSyncTask (id : Uuid)
  | createVaultSyncTask (payload : CreateVaultSyncTaskPayload)
  | updateVaultSyncTask (id : Uuid) (payload : UpdateVaultSyncTaskPayload)
  | deleteVaultSyncTask (id : Uuid)
  | triggerVaultSyncTask (id : Uuid)
  | listSyncLogs (query : SyncLogQuery)
  | listAuditLogs (query : AuditLogQuery)
  deriving DecidableEq, Repr

/-- The router. -/
def handle (fuel : ℕ) (env : Env) (caller : ApiKey) : Request → Handler Reply
  | .rejected e => .refuse e
  | .getMe => Handlers.getMe caller
  | .listApiKeys => Handlers.listApiKeys caller
  | .getApiKey id => Handlers.getApiKey caller id
  | .createApiKey payload => Handlers.createApiKey env caller payload
  | .updateApiKey id payload => Handlers.updateApiKey env caller id payload
  | .deleteApiKey id => Handlers.deleteApiKey fuel env caller id
  | .rotateApiKey id => Handlers.rotateApiKey env caller id
  | .rotateSigningSecret id => Handlers.rotateSigningSecret env caller id
  | .listKeyPermissions id => Handlers.listKeyPermissions caller id
  | .grantKeyPermission id payload => Handlers.grantKeyPermission env caller id payload
  | .revokeKeyPermission id permissionId => Handlers.revokeKeyPermission env caller id permissionId
  | .listVaultEndpoints => Handlers.listVaultEndpoints caller
  | .getVaultEndpoint id => Handlers.getVaultEndpoint caller id
  | .createVaultEndpoint payload => Handlers.createVaultEndpoint env caller payload
  | .updateVaultEndpoint id payload => Handlers.updateVaultEndpoint env caller id payload
  | .deleteVaultEndpoint id => Handlers.deleteVaultEndpoint env caller id
  | .testFetchExternalSource payload => Handlers.testFetchExternalSource env caller payload
  | .listDestinationGroups => Handlers.listDestinationGroups caller
  | .getDestinationGroup id => Handlers.getDestinationGroup caller id
  | .createDestinationGroup payload => Handlers.createDestinationGroup env caller payload
  | .updateDestinationGroup id payload => Handlers.updateDestinationGroup env caller id payload
  | .deleteDestinationGroup id => Handlers.deleteDestinationGroup env caller id
  | .triggerDestinationGroup id => Handlers.triggerDestinationGroup env caller id
  | .createFeed groupId payload => Handlers.createFeed env caller groupId payload
  | .updateFeed groupId feedId payload => Handlers.updateFeed env caller groupId feedId payload
  | .deleteFeed groupId feedId => Handlers.deleteFeed env caller groupId feedId
  | .listVaultSyncTasks => Handlers.listVaultSyncTasks caller
  | .getVaultSyncTask id => Handlers.getVaultSyncTask caller id
  | .createVaultSyncTask payload => Handlers.createVaultSyncTask env caller payload
  | .updateVaultSyncTask id payload => Handlers.updateVaultSyncTask env caller id payload
  | .deleteVaultSyncTask id => Handlers.deleteVaultSyncTask env caller id
  | .triggerVaultSyncTask id => Handlers.triggerVaultSyncTask env caller id
  | .listSyncLogs query => Handlers.listSyncLogs caller query
  | .listAuditLogs query => Handlers.listAuditLogs caller query

/-- One call: who makes it, what it asks, what it meets, and the statement that fails, if any. -/
structure Call where
  callerId : Uuid
  request : Request
  env : Env
  fuel : ℕ
  fault : Option (Fault Sql)

/-- The key model a request of this key goes on with. -/
def Database.callerOf (db : Database) (id : Uuid) : Option ApiKey :=
  (db.apiKeys.find? id).map (Master.authenticate db.apiKeys)

/-- The database after a call; `none` when its key does not exist. -/
def serve (db : Database) (call : Call) : Option Database :=
  (db.callerOf call.callerId).map fun caller =>
    (Prog.run .dbError (handle call.fuel call.env caller call.request) call.fault db).2.2

/-- The row that `bootstrap_master_key` inserts. -/
def Env.masterKey (env : Env) (plaintextKey envelope : String) : ApiKey where
  id := env.newId
  name := "Master"
  keyHash := Auth.hashKey env.sha256 (ascii plaintextKey)
  signingSecret := some (ascii envelope)
  keyPrefix := keyPrefix plaintextKey
  isMaster := true
  canManageKeys := true
  canManageSources := true
  canManageVaults := true
  parentKeyId := none
  boundIps := some "0.0.0.0/0,::/0"
  createdAt := env.now
  updatedAt := env.now

/-- A database after `bootstrap_master_key` has found it empty. -/
def Env.bootstrapped (env : Env) (plaintextKey envelope : String) : Database where
  apiKeys := ⟨[env.masterKey plaintextKey envelope], List.nodup_singleton _⟩
  permissions := .empty
  vaultEndpoints := .empty
  destinationGroups := .empty
  groupTargets := .empty
  externalSources := .empty
  vaultSyncTasks := .empty
  taskTargets := .empty
  syncLogs := []
  auditLogs := []

/-- An environment for small runs: the new rows of a request all get the identifier `newId`, a key
and a secret are as long as it, and every check and the cipher let everything pass. -/
def Env.plain (newId : Uuid) : Env where
  clientIp := .v4 0
  now := 0
  newId := newId
  newPermissionId := newId
  generateRandomKey := String.ofList (List.replicate newId 'k')
  generateSigningSecret := String.ofList (List.replicate newId 's')
  sha256 := id
  sealSecret := .ok
  formatUuid _ := ""
  validateCronExpression _ := .ok ()
  validateConfig _ := .ok ()
  fetchAndParse _ _ _ := .ok []
  isJobRunning _ := false
  runJob _ _ := .error .internal

/-- The database a small run starts from: the Master has the identifier 1. -/
def Database.fresh : Database := (Env.plain 1).bootstrapped "k" "s"

/-- A call in a plain environment, without a failing statement. -/
def Call.plain (callerId newId : Uuid) (request : Request) : Call where
  callerId := callerId
  request := request
  env := Env.plain newId
  fuel := 8
  fault := none

/-- A request for a key with these rights. -/
def CreateApiKeyPayload.plain (name : String) (manageKeys manageSources manageVaults : Bool) :
    CreateApiKeyPayload where
  name := name
  canManageKeys := manageKeys
  canManageSources := manageSources
  canManageVaults := manageVaults
  boundIps := none

end SimplyIpSync.Api
