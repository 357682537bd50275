import SimplyIpSync.Api.Statements
import SimplyIpSync.Auth
import SimplyIpSync.Client.Types

/-!
# What handlers share (`src/api/support.rs`)

What a request meets in the service (`Env`), what handlers answer with (`Reply`), and the plumbing
of permissions and of the audit trail.

An identifier, a key or a secret that a handler draws is a field of the environment, as is the
outcome of what a handler calls outside the database: the cipher, the checks of a cron expression
and of a parser configuration, a job, a fetch.  A request reads the clock once.
-/

namespace SimplyIpSync.Api

open SimplyIpSync.Crypto SimplyIpSync.Net SimplyIpSync.Entities SimplyIpSync.Program

/-- What a job run leaves behind: its log row, and the time it stamps on its row, if it does. -/
structure JobRun where
  log : SyncLog
  stamp : Option ℤ
  summary : Store.JobSummary
  deriving DecidableEq, Repr

/-- What a request meets in the service. -/
structure Env where
  clientIp : IpAddr
  now : ℤ
  /-- `Uuid::new_v4` for the row a request creates. -/
  newId : Uuid
  /-- `Uuid::new_v4` for the permission row a request creates. -/
  newPermissionId : Uuid
  generateRandomKey : String
  generateSigningSecret : String
  sha256 : Bytes → Bytes
  sealSecret : String → Except CryptoError String
  formatUuid : Uuid → String
  validateCronExpression : String → Except String Unit
  validateConfig : Option String → Except String Unit
  fetchAndParse : String → String → Option String → Except String (List String)
  /-- A job with this id is running, so that `try_start_job` refuses. -/
  isJobRunning : Uuid → Bool
  runJob : Uuid → Database → Except AppError JobRun

/-- `ApiKeyResponse`: a key without its hash and its secret. -/
structure ApiKeyResponse where
  id : Uuid
  name : String
  keyPrefix : Bytes
  isMaster : Bool
  canManageKeys : Bool
  canManageSources : Bool
  canManageVaults : Bool
  parentKeyId : Option Uuid
  boundIps : Option String
  createdAt : ℤ
  updatedAt : ℤ
  deriving DecidableEq, Repr

/-- `ApiKeyResponse::from`. -/
def ApiKeyResponse.ofKey (key : ApiKey) : ApiKeyResponse where
  id := key.id
  name := key.name
  keyPrefix := key.keyPrefix
  isMaster := key.isMaster
  canManageKeys := key.canManageKeys
  canManageSources := key.canManageSources
  canManageVaults := key.canManageVaults
  parentKeyId := key.parentKeyId
  boundIps := key.boundIps
  createdAt := key.createdAt
  updatedAt := key.updatedAt

/-- `VaultEndpointResponse`: an endpoint without its credentials. -/
structure VaultEndpointResponse where
  id : Uuid
  name : String
  targetUrl : String
  description : Option String
  ownerKeyId : Option Uuid
  createdAt : ℤ
  updatedAt : ℤ
  deriving DecidableEq, Repr

/-- `VaultEndpointResponse::from`. -/
def VaultEndpointResponse.ofEndpoint (endpoint : OwnedVaultEndpoint) : VaultEndpointResponse where
  id := endpoint.id
  name := endpoint.name
  targetUrl := endpoint.targetUrl
  description := endpoint.description
  ownerKeyId := endpoint.ownerKeyId
  createdAt := endpoint.createdAt
  updatedAt := endpoint.updatedAt

/-- `DestinationGroupResponse`; a group and a feed show every column. -/
structure DestinationGroupResponse where
  group : OwnedDestinationGroup
  targets : List TargetSpec
  feeds : List StampedExternalSource
  deriving DecidableEq, Repr

/-- `VaultSyncTaskResponse`; a task shows every column. -/
structure VaultSyncTaskResponse where
  task : OwnedVaultSyncTask
  targets : List TargetSpec
  deriving DecidableEq, Repr

/-- The body of a successful answer. -/
inductive Reply
  | key (response : ApiKeyResponse)
  | keys (responses : List ApiKeyResponse)
  | createdKey (response : ApiKeyResponse) (plaintextKey plaintextSigningSecret : String)
  | plaintextKey (key : String)
  | plaintextSigningSecret (secret : String)
  | permission (row : SyncPermission)
  | permissions (rows : List SyncPermission)
  | vault (response : VaultEndpointResponse)
  | vaults (responses : List VaultEndpointResponse)
  | group (response : DestinationGroupResponse)
  | groups (responses : List DestinationGroupResponse)
  | feed (row : StampedExternalSource)
  | task (response : VaultSyncTaskResponse)
  | tasks (responses : List VaultSyncTaskResponse)
  | summary (summary : Store.JobSummary)
  | fetched (status : String) (totalExtracted : ℕ) (sample : List String) (truncated : Bool)
      (error : Option String)
  | syncLogs (rows : List SyncLog)
  | auditLogs (rows : List AuditLog)
  | noContent
  deriving DecidableEq, Repr

/-- The status of a successful answer. -/
def Reply.status : Reply → ℕ
  | .noContent => 204
  | _ => 200

/-- `RESOURCE_DESTINATION_GROUP`. -/
def resourceDestinationGroup : String := "destination_group"

/-- `RESOURCE_SYNC_TASK`. -/
def resourceSyncTask : String := "sync_task"

/-- `RESOURCE_VAULT_ENDPOINT`. -/
def resourceVaultEndpoint : String := "vault_endpoint"

/-- `key_prefix`. -/
def keyPrefix (plaintext : String) : Bytes := (ascii plaintext).take 8

/-- The secret as it is stored; a `CryptoError` is answered as `Internal`. -/
def Env.sealed (env : Env) (plaintext : String) : Except AppError String :=
  match env.sealSecret plaintext with
  | .error _ => .error .internal
  | .ok envelope => .ok envelope

/-- The permission row a key holds on a resource. -/
def Database.permissionOf (db : Database) (apiKeyId : Uuid) (resourceType : String)
    (resourceId : Uuid) : Option SyncPermission :=
  db.permissions.rows.find? fun r =>
    r.apiKeyId = apiKeyId ∧ r.resourceType = resourceType ∧ r.resourceId = resourceId

/-- `find_permission`. -/
def findPermission (apiKeyId : Uuid) (resourceType : String) (resourceId : Uuid) :
    Handler (Option SyncPermission) :=
  .query (.select .permissions) fun db => db.permissionOf apiKeyId resourceType resourceId

/-- The row that `grant_full_permission` inserts. -/
def Env.fullPermission (env : Env) (apiKeyId : Uuid) (resourceType : String) (resourceId : Uuid) :
    SyncPermission where
  id := env.newPermissionId
  apiKeyId := apiKeyId
  resourceType := resourceType
  resourceId := resourceId
  canSync := true
  canManage := true
  canViewLogs := true
  createdAt := env.now

/-- `grant_full_permission`. -/
def grantFullPermission (env : Env) (apiKeyId : Uuid) (resourceType : String) (resourceId : Uuid) :
    Handler Unit :=
  insertRow .permissions onDbErr fun db =>
    db.insertPermission (env.fullPermission apiKeyId resourceType resourceId)

/-- The audit entry of an action of the caller. -/
def Env.auditEntry (env : Env) (caller : ApiKey) (action : String)
    (targetResource : Option String) : AuditLog where
  apiKeyId := some caller.id
  apiKeyName := caller.name
  apiKeyPrefix := caller.keyPrefix
  clientIp := env.clientIp
  action := action
  targetResource := targetResource
  timestamp := env.now

/-- `create_audit_log`. -/
def createAuditLog (env : Env) (caller : ApiKey) (action : String)
    (targetResource : Option String) : Handler Unit :=
  insertRow .auditLogs onDbErr fun db =>
    db.insertAuditLog (env.auditEntry caller action targetResource)

/-- `try_start_job`, for a request that comes while the jobs of `isJobRunning` are running. -/
def tryStartJob (env : Env) (id : Uuid) (msg : String) : Except AppError Unit :=
  if env.isJobRunning id then .error (.conflict msg) else .ok ()

/-- Keep the rows the query answers yes for, one query a row. -/
def filterRows {ρ : Type} (test : ρ → Handler Bool) : List ρ → Handler (List ρ)
  | [] => pure []
  | row :: rest => do
      let keep ← test row
      let kept ← filterRows test rest
      pure (if keep then row :: kept else kept)

end SimplyIpSync.Api
