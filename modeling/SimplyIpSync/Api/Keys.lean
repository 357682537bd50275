import SimplyIpSync.Api.Support

/-!
# Handlers of keys and permissions (`src/api/keys.rs`)

The walk through the subtree of a key has no bound of its own: a cycle of parents keeps it going for
ever.  `fuel` is the number of levels a run of the model looks at before it gives up without an
answer.
-/

namespace SimplyIpSync.Api

open SimplyIpSync.Crypto SimplyIpSync.Entities SimplyIpSync.Program

/-- `can_administer`. -/
def canAdminister (caller target : ApiKey) : Bool :=
  caller.isMaster || (caller.canManageKeys && target.parentKeyId == some caller.id)

/-- The refusal of a key that is not administered. -/
def noAuthority : AppError := .forbidden "no administrative authority over this key"

/-- The caller sees the key: it is its own or that of a direct daughter. -/
def isKeyVisible (caller target : ApiKey) : Bool :=
  caller.isMaster || target.id == caller.id || target.parentKeyId == some caller.id

/-- `find_by_id` on `api_keys`. -/
def findApiKey (id : Uuid) : Handler ApiKey := findRow .apiKeys fun db => db.apiKeys.find? id

/-- Refuse unless the condition holds. -/
def require (condition : Bool) (e : AppError) : Except AppError Unit :=
  if condition then .ok () else .error e

/-! ### Reading -/

/-- `get_me`. -/
def Handlers.getMe (caller : ApiKey) : Handler Reply := pure (.key (.ofKey caller))

/-- `list_api_keys`. -/
def Handlers.listApiKeys (caller : ApiKey) : Handler Reply := do
  let keys ← .query (.select .apiKeys) fun db =>
    if caller.isMaster then db.apiKeys.rows
    else db.apiKeys.rows.filter fun r => r.id = caller.id ∨ r.parentKeyId = some caller.id
  pure (.keys (keys.map .ofKey))

/-- `get_api_key`. -/
def Handlers.getApiKey (caller : ApiKey) (id : Uuid) : Handler Reply := do
  let target ← findApiKey id
  .lift (require (isKeyVisible caller target) .notFound)
  pure (.key (.ofKey target))

/-- `list_key_permissions`. -/
def Handlers.listKeyPermissions (caller : ApiKey) (id : Uuid) : Handler Reply := do
  let target ← findApiKey id
  .lift (require (isKeyVisible caller target) .notFound)
  let rows ← .query (.select .permissions) fun db =>
    db.permissions.rows.filter fun r => r.apiKeyId = id
  pure (.permissions rows)

/-! ### Creating and changing keys -/

/-- `CreateApiKeyPayload`, with its defaults filled in. -/
structure CreateApiKeyPayload where
  name : String
  canManageKeys : Bool
  canManageSources : Bool
  canManageVaults : Bool
  boundIps : Option String
  deriving DecidableEq, Repr

/-- The row that `create_api_key` inserts. -/
def Env.newApiKey (env : Env) (caller : ApiKey) (payload : CreateApiKeyPayload)
    (envelope : String) : ApiKey where
  id := env.newId
  name := payload.name
  keyHash := Auth.hashKey env.sha256 (ascii env.generateRandomKey)
  signingSecret := some (ascii envelope)
  keyPrefix := keyPrefix env.generateRandomKey
  isMaster := false
  canManageKeys := payload.canManageKeys
  canManageSources := payload.canManageSources
  canManageVaults := payload.canManageVaults
  parentKeyId := some caller.id
  boundIps := payload.boundIps
  createdAt := env.now
  updatedAt := env.now

/-- `create_api_key`. -/
def Handlers.createApiKey (env : Env) (caller : ApiKey) (payload : CreateApiKeyPayload) :
    Handler Reply := do
  .lift (guardManageKeys caller)
  .lift (guardScopeElevation caller payload.canManageKeys payload.canManageSources
    payload.canManageVaults)
  let envelope ← .lift (env.sealed env.generateSigningSecret)
  let inserted := env.newApiKey caller payload envelope
  insertRow .apiKeys onDbErr fun db => db.insertApiKey inserted
  createAuditLog env caller "KEY_CREATE" (some inserted.name)
  pure (.createdKey (.ofKey inserted) env.generateRandomKey env.generateSigningSecret)

/-- `UpdateApiKeyPayload`: a missing field is left as it is. -/
structure UpdateApiKeyPayload where
  name : Option String
  canManageKeys : Option Bool
  canManageSources : Option Bool
  canManageVaults : Option Bool
  boundIps : Option String
  deriving DecidableEq, Repr

/-- The columns that a `PATCH` of a key sets. -/
def UpdateApiKeyPayload.apply (payload : UpdateApiKeyPayload) (now : ℤ) (key : ApiKey) : ApiKey :=
  { key with
    name := payload.name.getD key.name
    canManageKeys := payload.canManageKeys.getD key.canManageKeys
    canManageSources := payload.canManageSources.getD key.canManageSources
    canManageVaults := payload.canManageVaults.getD key.canManageVaults
    boundIps := payload.boundIps.or key.boundIps
    updatedAt := now }

/-- `touches_non_bound_ips`. -/
def UpdateApiKeyPayload.touchesNonBoundIps (payload : UpdateApiKeyPayload) : Bool :=
  payload.name.isSome || payload.canManageKeys.isSome || payload.canManageSources.isSome ||
    payload.canManageVaults.isSome

/-- `update_api_key`. -/
def Handlers.updateApiKey (env : Env) (caller : ApiKey) (id : Uuid)
    (payload : UpdateApiKeyPayload) : Handler Reply := do
  .lift (guardManageKeys caller)
  let target ← findApiKey id
  .lift (require (canAdminister caller target) noAuthority)
  .lift (guardMasterImmutable target.isMaster payload.touchesNonBoundIps)
  .lift (guardScopeElevation caller (payload.canManageKeys.getD false)
    (payload.canManageSources.getD false) (payload.canManageVaults.getD false))
  let updated ← updateRow .apiKeys fun db =>
    db.updateApiKey id (payload.apply env.now) fun _ => rfl
  createAuditLog env caller "KEY_UPDATE" (some updated.name)
  pure (.key (.ofKey updated))

/-- The body of the two rotations, which set their columns with `f`. -/
def rotate (env : Env) (caller : ApiKey) (id : Uuid) (f : ApiKey → ApiKey)
    (hf : ∀ r, (f r).id = r.id) (action : String) : Handler Unit := do
  let updated ← updateRow .apiKeys fun db => db.updateApiKey id f hf
  createAuditLog env caller action (some updated.name)

/-- What both rotations check. -/
def checkRotation (caller : ApiKey) (id : Uuid) : Handler Unit := do
  .lift (guardManageKeys caller)
  let target ← findApiKey id
  .lift (guardRotationAllowed target.isMaster)
  .lift (require (canAdminister caller target) noAuthority)

/-- The columns that `rotate_api_key` sets. -/
def Env.rotateKey (env : Env) (key : ApiKey) : ApiKey :=
  { key with
    keyHash := Auth.hashKey env.sha256 (ascii env.generateRandomKey)
    keyPrefix := keyPrefix env.generateRandomKey
    updatedAt := env.now }

/-- The columns that `rotate_signing_secret` sets. -/
def Env.rotateSecret (env : Env) (envelope : String) (key : ApiKey) : ApiKey :=
  { key with signingSecret := some (ascii envelope), updatedAt := env.now }

/-- `rotate_api_key`. -/
def Handlers.rotateApiKey (env : Env) (caller : ApiKey) (id : Uuid) : Handler Reply := do
  checkRotation caller id
  rotate env caller id env.rotateKey (fun _ => rfl) "KEY_ROTATE"
  pure (.plaintextKey env.generateRandomKey)

/-- `rotate_signing_secret`. -/
def Handlers.rotateSigningSecret (env : Env) (caller : ApiKey) (id : Uuid) : Handler Reply := do
  checkRotation caller id
  let envelope ← .lift (env.sealed env.generateSigningSecret)
  rotate env caller id (env.rotateSecret envelope) (fun _ => rfl) "KEY_ROTATE_SECRET"
  pure (.plaintextSigningSecret env.generateSigningSecret)

/-! ### Deleting a key -/

/-- The direct daughters of the keys of a level. -/
def Database.daughters (db : Database) (frontier : List Uuid) : List ApiKey :=
  db.apiKeys.rows.filter fun r => r.parentKeyId.any fun id => decide (id ∈ frontier)

/-- The loop of `collect_subtree`. -/
def walkSubtree : ℕ → List Uuid → List ApiKey → Handler (List ApiKey)
  | _, [], result => pure result
  | 0, _, _ => .hang
  | fuel + 1, frontier, result => do
      let children ← .query (.selectOf .apiKeys frontier) fun db => db.daughters frontier
      walkSubtree fuel (children.map ApiKey.id) (result ++ children)

/-- `collect_subtree`. -/
def collectSubtree (fuel : ℕ) (root : ApiKey) : Handler (List ApiKey) :=
  walkSubtree fuel [root.id] [root]

/-- The owner is one of the keys. -/
def isOwned (keyIds : List Uuid) (ownerKeyId : Option Uuid) : Bool :=
  ownerKeyId.any fun id => decide (id ∈ keyIds)

/-- The vault endpoints the keys own. -/
def Database.vaultsOf (db : Database) (keyIds : List Uuid) : List OwnedVaultEndpoint :=
  db.vaultEndpoints.rows.filter fun r => isOwned keyIds r.ownerKeyId

/-- The destination groups the keys own. -/
def Database.groupsOf (db : Database) (keyIds : List Uuid) : List OwnedDestinationGroup :=
  db.destinationGroups.rows.filter fun r => isOwned keyIds r.ownerKeyId

/-- The vault-sync tasks the keys own. -/
def Database.tasksOf (db : Database) (keyIds : List Uuid) : List OwnedVaultSyncTask :=
  db.vaultSyncTasks.rows.filter fun r => isOwned keyIds r.ownerKeyId

/-- `owned_resource_inventory`. -/
def ownedResourceInventory (keyIds : List Uuid) : Handler (List OwnedResource) := do
  let vaults ← .query (.selectOf .vaultEndpoints keyIds) fun db => db.vaultsOf keyIds
  let groups ← .query (.selectOf .destinationGroups keyIds) fun db => db.groupsOf keyIds
  let tasks ← .query (.selectOf .vaultSyncTasks keyIds) fun db => db.tasksOf keyIds
  pure ((vaults.map fun r => ⟨"vault_endpoint", r.id, r.name, r.ownerKeyId⟩) ++
    (groups.map fun r => ⟨"destination_group", r.id, r.name, r.ownerKeyId⟩) ++
    (tasks.map fun r => ⟨"sync_task", r.id, r.name, r.ownerKeyId⟩))

/-- The refusal of a key whose subtree still owns resources. -/
def stillOwns (inventory : List OwnedResource) : AppError :=
  .conflictWithDetails
    "this key (or a daughter in its subtree) still owns resources; reassign or delete them first"
    inventory

/-- `delete_api_key`. -/
def Handlers.deleteApiKey (fuel : ℕ) (env : Env) (caller : ApiKey) (id : Uuid) : Handler Reply := do
  .lift (guardManageKeys caller)
  let target ← findApiKey id
  .lift (require (!target.isMaster)
    (.forbidden "the Master key cannot be deleted through the API (RBAC §5)"))
  .lift (require (canAdminister caller target) noAuthority)
  let subtree ← collectSubtree fuel target
  let subtreeIds := subtree.map ApiKey.id
  let inventory ← ownedResourceInventory subtreeIds
  .lift (require inventory.isEmpty (stillOwns inventory))
  let affected ← deleteRows .apiKeys fun db => db.deleteApiKeys subtreeIds
  .lift (require (affected != 0) .notFound)
  createAuditLog env caller "KEY_DELETE" (some target.name)
  pure .noContent

/-! ### Permissions -/

/-- `GrantPermissionPayload`, with its defaults filled in. -/
structure GrantPermissionPayload where
  resourceType : String
  resourceId : Uuid
  canSync : Bool
  canManage : Bool
  canViewLogs : Bool
  deriving DecidableEq, Repr

/-- The columns that a grant sets on a row that exists. -/
def GrantPermissionPayload.apply (payload : GrantPermissionPayload) (row : SyncPermission) :
    SyncPermission :=
  { row with
    canSync := payload.canSync
    canManage := payload.canManage
    canViewLogs := payload.canViewLogs }

/-- The row that a grant inserts. -/
def Env.grantedPermission (env : Env) (targetId : Uuid) (payload : GrantPermissionPayload) :
    SyncPermission where
  id := env.newPermissionId
  apiKeyId := targetId
  resourceType := payload.resourceType
  resourceId := payload.resourceId
  canSync := payload.canSync
  canManage := payload.canManage
  canViewLogs := payload.canViewLogs
  createdAt := env.now

/-- The three kinds of resource a permission may name. -/
def isResourceType (resourceType : String) : Bool :=
  resourceType == "destination_group" || resourceType == "sync_task" ||
    resourceType == "vault_endpoint"

/-- Write the granted permission over the row that exists, or into a new one. -/
def writePermission (env : Env) (targetId : Uuid) (payload : GrantPermissionPayload) :
    Option SyncPermission → Handler SyncPermission
  | some existing =>
      updateRow .permissions fun db => db.updatePermission existing.id payload.apply fun _ => rfl
  | none => do
      let row := env.grantedPermission targetId payload
      insertRow .permissions onDbErr fun db => db.insertPermission row
      pure row

/-- `grant_key_permission`. -/
def Handlers.grantKeyPermission (env : Env) (caller : ApiKey) (id : Uuid)
    (payload : GrantPermissionPayload) : Handler Reply := do
  .lift (guardManageKeys caller)
  let target ← findApiKey id
  .lift (require (isResourceType payload.resourceType)
    (.invalidInput "resource_type must be destination_group, sync_task, or vault_endpoint"))
  let callerPermission ← findPermission caller.id payload.resourceType payload.resourceId
  .lift (guardDelegatedGrant caller callerPermission payload.canSync payload.canManage
    payload.canViewLogs)
  let existing ← findPermission target.id payload.resourceType payload.resourceId
  let row ← writePermission env target.id payload existing
  createAuditLog env caller "PERMISSION_GRANT"
    (some (target.name ++ " on " ++ payload.resourceType ++ ":" ++
      env.formatUuid payload.resourceId))
  pure (.permission row)

/-- `revoke_key_permission`. -/
def Handlers.revokeKeyPermission (env : Env) (caller : ApiKey) (id permissionId : Uuid) :
    Handler Reply := do
  .lift (guardManageKeys caller)
  let permission ← findRow .permissions fun db => db.permissions.find? permissionId
  .lift (require (permission.apiKeyId == id) .notFound)
  let callerPermission ← findPermission caller.id permission.resourceType permission.resourceId
  .lift (guardRevocation caller callerPermission)
  let affected ← deleteRows .permissions fun db => db.deletePermission permissionId
  .lift (require (affected != 0) .notFound)
  createAuditLog env caller "PERMISSION_REVOKE"
    (some ("permission " ++ env.formatUuid permissionId))
  pure .noContent

end SimplyIpSync.Api
