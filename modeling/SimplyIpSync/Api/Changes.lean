import SimplyIpSync.Api.Handle

/-!
# What a request may write

`Change … request db'` says that the request is accepted in `db` and that its row write leaves
`db'`: one constructor for each mutating handler, with everything it checks before it writes.  After
the row write come the creator's permission on a new resource and the audit entry.

`Committed` lists the states in which a statement of the request can find the database, and `Ended`
the states it can leave behind.
-/

namespace SimplyIpSync.Api

open SimplyIpSync.Entities SimplyIpSync.Storage SimplyIpSync.Program

/-! ### The effects of loops -/

/-- The walk of `collect_subtree`; `none` when the fuel runs out. -/
def Database.walk (db : Database) : ℕ → List Uuid → List ApiKey → Option (List ApiKey)
  | _, [], result => some result
  | 0, _ :: _, _ => none
  | fuel + 1, frontier, result =>
      db.walk fuel ((db.daughters frontier).map ApiKey.id) (result ++ db.daughters frontier)

/-- The subtree of a key. -/
def Database.subtree (db : Database) (fuel : ℕ) (root : ApiKey) : Option (List ApiKey) :=
  db.walk fuel [root.id] [root]

/-- The keys own no resource. -/
def Database.OwnsNothing (db : Database) (keyIds : List Uuid) : Prop :=
  db.vaultsOf keyIds = [] ∧ db.groupsOf keyIds = [] ∧ db.tasksOf keyIds = []

/-- Insert target rows one after the other. -/
def insertEach (insert : TargetSpec → Database → Except DbErr Database) :
    List TargetSpec → Database → Except DbErr Database
  | [], db => .ok db
  | target :: rest, db =>
      match insert target db with
      | .error e => .error e
      | .ok db => insertEach insert rest db

/-- The target rows of a group. -/
def Database.addGroupTargets (db : Database) (groupId : Uuid) (targets : List TargetSpec) :
    Except DbErr Database :=
  insertEach
    (fun target db =>
      db.insertGroupTarget ⟨groupId, target.vaultEndpointId, target.targetGroupName⟩) targets db

/-- The target rows of a group after a `PATCH`. -/
def Database.setGroupTargets (db : Database) (groupId : Uuid) :
    Option (List TargetSpec) → Except DbErr Database
  | none => .ok db
  | some targets => (db.deleteGroupTargets groupId).2.addGroupTargets groupId targets

/-- The target rows of a task. -/
def Database.addTaskTargets (db : Database) (taskId : Uuid) (targets : List TargetSpec) :
    Except DbErr Database :=
  insertEach
    (fun target db =>
      db.insertTaskTarget ⟨taskId, target.vaultEndpointId, target.targetGroupName⟩) targets db

/-- The target rows of a task after a `PATCH`. -/
def Database.setTaskTargets (db : Database) (taskId : Uuid) :
    Option (List TargetSpec) → Except DbErr Database
  | none => .ok db
  | some targets => (db.deleteTaskTargets taskId).2.addTaskTargets taskId targets

theorem addGroupTargets_ok {db db' : Database} {groupId : Uuid} {targets : List TargetSpec}
    (h : db.addGroupTargets groupId targets = .ok db') :
    ∃ rows, db' = { db with groupTargets := rows } := by
  rw [Database.addGroupTargets] at h
  induction targets generalizing db with
  | nil => exact ⟨db.groupTargets, (Except.ok.inj h).symm⟩
  | cons target rest ih =>
      rw [insertEach] at h
      split at h
      · cases h
      · rename_i db₁ hinsert
        obtain ⟨rows₁, hdb₁⟩ := insertGroupTarget_ok hinsert
        obtain ⟨rows, hdb'⟩ := ih h
        exact ⟨rows, by rw [hdb', hdb₁]⟩

theorem setGroupTargets_ok {db db' : Database} {groupId : Uuid}
    {targets : Option (List TargetSpec)} (h : db.setGroupTargets groupId targets = .ok db') :
    ∃ rows, db' = { db with groupTargets := rows } := by
  cases targets with
  | none => exact ⟨db.groupTargets, (Except.ok.inj h).symm⟩
  | some targets =>
      obtain ⟨rows, hdb'⟩ := addGroupTargets_ok h
      exact ⟨rows, hdb'⟩

theorem addTaskTargets_ok {db db' : Database} {taskId : Uuid} {targets : List TargetSpec}
    (h : db.addTaskTargets taskId targets = .ok db') :
    ∃ rows, db' = { db with taskTargets := rows } := by
  rw [Database.addTaskTargets] at h
  induction targets generalizing db with
  | nil => exact ⟨db.taskTargets, (Except.ok.inj h).symm⟩
  | cons target rest ih =>
      rw [insertEach] at h
      split at h
      · cases h
      · rename_i db₁ hinsert
        obtain ⟨rows₁, hdb₁⟩ := insertTaskTarget_ok hinsert
        obtain ⟨rows, hdb'⟩ := ih h
        exact ⟨rows, by rw [hdb', hdb₁]⟩

theorem setTaskTargets_ok {db db' : Database} {taskId : Uuid} {targets : Option (List TargetSpec)}
    (h : db.setTaskTargets taskId targets = .ok db') :
    ∃ rows, db' = { db with taskTargets := rows } := by
  cases targets with
  | none => exact ⟨db.taskTargets, (Except.ok.inj h).symm⟩
  | some targets =>
      obtain ⟨rows, hdb'⟩ := addTaskTargets_ok h
      exact ⟨rows, hdb'⟩

/-! ### The row write of a request -/

/-- R2 on a resource. -/
def Manages (caller : ApiKey) (db : Database) (resourceType : String) (id : Uuid) : Prop :=
  guardResourceManage caller (db.permissionOf caller.id resourceType id) = .ok ()

/-- A key may be changed by the caller, the Master's credentials by nobody. -/
def Rotates (caller : ApiKey) (db : Database) (id : Uuid) : Prop :=
  guardManageKeys caller = .ok () ∧ ∃ target, db.apiKeys.find? id = some target ∧
    guardRotationAllowed target.isMaster = .ok () ∧ canAdminister caller target = true

/-- **The accepted requests and their row writes.** -/
inductive Change (fuel : ℕ) (env : Env) (caller : ApiKey) (db : Database) :
    Request → Database → Prop
  | createApiKey {payload : CreateApiKeyPayload} {envelope : String} {db' : Database}
      (hkeys : guardManageKeys caller = .ok ())
      (hscope : guardScopeElevation caller payload.canManageKeys payload.canManageSources
        payload.canManageVaults = .ok ())
      (henvelope : env.sealed env.generateSigningSecret = .ok envelope)
      (hwrite : db.insertApiKey (env.newApiKey caller payload envelope) = .ok db') :
      Change fuel env caller db (.createApiKey payload) db'
  | updateApiKey {id : Uuid} {payload : UpdateApiKeyPayload} {target row : ApiKey} {db' : Database}
      (hkeys : guardManageKeys caller = .ok ()) (htarget : db.apiKeys.find? id = some target)
      (hadmin : canAdminister caller target = true)
      (hmaster : guardMasterImmutable target.isMaster payload.touchesNonBoundIps = .ok ())
      (hscope : guardScopeElevation caller (payload.canManageKeys.getD false)
        (payload.canManageSources.getD false) (payload.canManageVaults.getD false) = .ok ())
      (hwrite : db.updateApiKey id (payload.apply env.now) (fun _ => rfl) = .ok (row, db')) :
      Change fuel env caller db (.updateApiKey id payload) db'
  | deleteApiKey {id : Uuid} {target : ApiKey} {subtree : List ApiKey}
      (hkeys : guardManageKeys caller = .ok ()) (htarget : db.apiKeys.find? id = some target)
      (hmaster : target.isMaster = false) (hadmin : canAdminister caller target = true)
      (hsubtree : db.subtree fuel target = some subtree)
      (howned : db.OwnsNothing (subtree.map ApiKey.id)) :
      Change fuel env caller db (.deleteApiKey id) (db.deleteApiKeys (subtree.map ApiKey.id)).2
  | rotateApiKey {id : Uuid} {row : ApiKey} {db' : Database} (hrotates : Rotates caller db id)
      (hwrite : db.updateApiKey id env.rotateKey (fun _ => rfl) = .ok (row, db')) :
      Change fuel env caller db (.rotateApiKey id) db'
  | rotateSigningSecret {id : Uuid} {envelope : String} {row : ApiKey} {db' : Database}
      (hrotates : Rotates caller db id)
      (henvelope : env.sealed env.generateSigningSecret = .ok envelope)
      (hwrite : db.updateApiKey id (env.rotateSecret envelope) (fun _ => rfl) = .ok (row, db')) :
      Change fuel env caller db (.rotateSigningSecret id) db'
  | regrant {id : Uuid} {payload : GrantPermissionPayload} {target : ApiKey}
      {existing row : SyncPermission} {db' : Database}
      (hkeys : guardManageKeys caller = .ok ()) (htarget : db.apiKeys.find? id = some target)
      (htype : isResourceType payload.resourceType = true)
      (hgrant : guardDelegatedGrant caller
        (db.permissionOf caller.id payload.resourceType payload.resourceId) payload.canSync
        payload.canManage payload.canViewLogs = .ok ())
      (hexisting : db.permissionOf id payload.resourceType payload.resourceId = some existing)
      (hwrite : db.updatePermission existing.id payload.apply (fun _ => rfl) = .ok (row, db')) :
      Change fuel env caller db (.grantKeyPermission id payload) db'
  | grant {id : Uuid} {payload : GrantPermissionPayload} {target : ApiKey} {db' : Database}
      (hkeys : guardManageKeys caller = .ok ()) (htarget : db.apiKeys.find? id = some target)
      (htype : isResourceType payload.resourceType = true)
      (hgrant : guardDelegatedGrant caller
        (db.permissionOf caller.id payload.resourceType payload.resourceId) payload.canSync
        payload.canManage payload.canViewLogs = .ok ())
      (hexisting : db.permissionOf id payload.resourceType payload.resourceId = none)
      (hwrite : db.insertPermission (env.grantedPermission id payload) = .ok db') :
      Change fuel env caller db (.grantKeyPermission id payload) db'
  | revokeKeyPermission {id permissionId : Uuid} {permission : SyncPermission}
      (hkeys : guardManageKeys caller = .ok ())
      (hpermission : db.permissions.find? permissionId = some permission)
      (hkey : permission.apiKeyId = id)
      (hrevoke : guardRevocation caller
        (db.permissionOf caller.id permission.resourceType permission.resourceId) = .ok ()) :
      Change fuel env caller db (.revokeKeyPermission id permissionId)
        (db.deletePermission permissionId).2
  | createVaultEndpoint {payload : CreateVaultEndpointPayload} {envelope : String} {db' : Database}
      (hright : guardResourceCreation caller caller.canManageVaults = .ok ())
      (henvelope : env.sealed payload.signingSecret = .ok envelope)
      (hwrite : db.insertVaultEndpoint (env.newVaultEndpoint caller payload envelope) = .ok db') :
      Change fuel env caller db (.createVaultEndpoint payload) db'
  | updateVaultEndpoint {id : Uuid} {payload : DescribedVaultEndpointPayload}
      {existing row : OwnedVaultEndpoint} {envelope : Option String} {db' : Database}
      (hexisting : db.vaultEndpoints.find? id = some existing)
      (hmanage : Manages caller db resourceVaultEndpoint id)
      (henvelope : env.sealedField payload.signingSecret = .ok envelope)
      (hwrite : db.updateVaultEndpoint id (payload.applyTo envelope env.now) (fun _ => rfl) =
        .ok (row, db')) :
      Change fuel env caller db (.updateVaultEndpoint id payload) db'
  | deleteVaultEndpoint {id : Uuid} {existing : OwnedVaultEndpoint}
      (hexisting : db.vaultEndpoints.find? id = some existing)
      (hlifecycle : guardResourceLifecycle caller existing.ownerKeyId = .ok ()) :
      Change fuel env caller db (.deleteVaultEndpoint id) (db.deleteVaultEndpoint id).2
  | createDestinationGroup {payload : CreateDestinationGroupPayload} {db₁ db' : Database}
      (hright : guardResourceCreation caller caller.canManageSources = .ok ())
      (hmode : validateMode payload.mode = .ok ())
      (hcron : checkCron env payload.cronSchedule = .ok ())
      (hwrite : db.insertDestinationGroup (env.newDestinationGroup caller payload) = .ok db₁)
      (htargets : db₁.addGroupTargets env.newId payload.targets = .ok db') :
      Change fuel env caller db (.createDestinationGroup payload) db'
  | updateDestinationGroup {id : Uuid} {payload : UpdateDestinationGroupPayload}
      {existing row : OwnedDestinationGroup} {db₁ db' : Database}
      (hexisting : db.destinationGroups.find? id = some existing)
      (hmanage : Manages caller db resourceDestinationGroup id)
      (hcron : checkField (checkCron env) payload.cronSchedule = .ok ())
      (hmode : checkField validateMode payload.mode = .ok ())
      (hwrite : db.updateDestinationGroup id (payload.applyTo env.now) (fun _ => rfl) =
        .ok (row, db₁))
      (htargets : db₁.setGroupTargets id payload.targets = .ok db') :
      Change fuel env caller db (.updateDestinationGroup id payload) db'
  | deleteDestinationGroup {id : Uuid} {existing : OwnedDestinationGroup}
      (hexisting : db.destinationGroups.find? id = some existing)
      (hlifecycle : guardResourceLifecycle caller existing.ownerKeyId = .ok ()) :
      Change fuel env caller db (.deleteDestinationGroup id) (db.deleteDestinationGroup id).2
  | createFeed {groupId : Uuid} {payload : CreateFeedPayload} {group : OwnedDestinationGroup}
      {db' : Database} (hgroup : db.destinationGroups.find? groupId = some group)
      (hmanage : Manages caller db resourceDestinationGroup groupId)
      (hparser : validateFeedParser env payload.parserType payload.parserConfigJson = .ok ())
      (hage : validateMaxAgeDays payload.maxAgeDays = .ok ())
      (hwrite : db.insertExternalSource (env.newExternalSource groupId payload) = .ok db') :
      Change fuel env caller db (.createFeed groupId payload) db'
  | updateFeed {groupId feedId : Uuid} {payload : UpdateFeedPayload}
      {existing row : StampedExternalSource} {db' : Database}
      (hexisting : db.externalSources.find? feedId = some existing)
      (hgroup : existing.destinationGroupId = groupId)
      (hmanage : Manages caller db resourceDestinationGroup groupId)
      (hparser : validateFeedParser env (payload.parserType.getD existing.parserType)
        (payload.parserConfigJson.or existing.parserConfigJson) = .ok ())
      (hage : validateMaxAgeDays payload.maxAgeDays = .ok ())
      (hwrite : db.updateExternalSource feedId (payload.apply env.now) (fun _ => rfl) =
        .ok (row, db')) :
      Change fuel env caller db (.updateFeed groupId feedId payload) db'
  | deleteFeed {groupId feedId : Uuid} {existing : StampedExternalSource}
      (hexisting : db.externalSources.find? feedId = some existing)
      (hgroup : existing.destinationGroupId = groupId)
      (hmanage : Manages caller db resourceDestinationGroup groupId) :
      Change fuel env caller db (.deleteFeed groupId feedId) (db.deleteExternalSource feedId).2
  | createVaultSyncTask {payload : CreateVaultSyncTaskPayload} {db₁ db' : Database}
      (hright : guardResourceCreation caller caller.canManageVaults = .ok ())
      (hcron : checkCron env payload.cronSchedule = .ok ())
      (hwrite : db.insertVaultSyncTask (env.newVaultSyncTask caller payload) = .ok db₁)
      (htargets : db₁.addTaskTargets env.newId payload.targets = .ok db') :
      Change fuel env caller db (.createVaultSyncTask payload) db'
  | updateVaultSyncTask {id : Uuid} {payload : UpdateVaultSyncTaskPayload}
      {existing row : OwnedVaultSyncTask} {db₁ db' : Database}
      (hexisting : db.vaultSyncTasks.find? id = some existing)
      (hmanage : Manages caller db resourceSyncTask id)
      (hcron : checkField (checkCron env) payload.cronSchedule = .ok ())
      (hwrite : db.updateVaultSyncTask id (payload.applyTo env.now) (fun _ => rfl) =
        .ok (row, db₁))
      (htargets : db₁.setTaskTargets id payload.targets = .ok db') :
      Change fuel env caller db (.updateVaultSyncTask id payload) db'
  | deleteVaultSyncTask {id : Uuid} {existing : OwnedVaultSyncTask}
      (hexisting : db.vaultSyncTasks.find? id = some existing)
      (hlifecycle : guardResourceLifecycle caller existing.ownerKeyId = .ok ()) :
      Change fuel env caller db (.deleteVaultSyncTask id) (db.deleteVaultSyncTask id).2

/-! ### What follows the row write -/

/-- The kind of resource a request creates. -/
def Request.createdType : Request → Option String
  | .createVaultEndpoint _ => some resourceVaultEndpoint
  | .createDestinationGroup _ => some resourceDestinationGroup
  | .createVaultSyncTask _ => some resourceSyncTask
  | _ => none

/-- The request writes in a transaction, its audit entry included. -/
def Request.isTransactional : Request → Bool
  | .createDestinationGroup _ => true
  | .updateDestinationGroup _ _ => true
  | .createVaultSyncTask _ => true
  | .updateVaultSyncTask _ _ => true
  | _ => false

/-- The statements a request issues once everything it writes is committed. -/
def Request.reloads : Request → List Sql
  | .updateDestinationGroup _ _ => [.select .groupTargets, .select .externalSources]
  | .updateVaultSyncTask _ _ => [.select .taskTargets]
  | _ => []

/-- The creator's permission on a new resource. -/
def grantToCreator (env : Env) (caller : ApiKey) (request : Request) (db : Database) :
    Except DbErr Database :=
  match request.createdType with
  | none => .ok db
  | some resourceType =>
      db.insertPermission (env.fullPermission caller.id resourceType env.newId)

/-- The states a statement of a request can find: the one before it, and those after what it has
committed. -/
inductive Committed (fuel : ℕ) (env : Env) (caller : ApiKey) (db : Database) (request : Request) :
    Sql → Database → Prop
  | start {tag : Sql} : Committed fuel env caller db request tag db
  | written {db₁ : Database} (hkind : request.isTransactional = false)
      (hcreates : request.createdType.isSome)
      (hchange : Change fuel env caller db request db₁) :
      Committed fuel env caller db request (.insert .permissions) db₁
  | granted {db₁ db₂ : Database} (hkind : request.isTransactional = false)
      (hchange : Change fuel env caller db request db₁)
      (hgrant : grantToCreator env caller request db₁ = .ok db₂) :
      Committed fuel env caller db request (.insert .auditLogs) db₂
  | audited {db₁ db₂ db₃ : Database} {entry : AuditLog} {tag : Sql} (htag : tag ∈ request.reloads)
      (hchange : Change fuel env caller db request db₁)
      (hgrant : grantToCreator env caller request db₁ = .ok db₂)
      (hentry : entry.apiKeyId = some caller.id) (haudit : db₂.insertAuditLog entry = .ok db₃) :
      Committed fuel env caller db request tag db₃

/-- How a mutating request ends when no statement is made to fail. -/
inductive Ended (fuel : ℕ) (env : Env) (caller : ApiKey) (db : Database) (request : Request) :
    Outcome AppError Reply → Database → Prop
  | refused (e : AppError) : Ended fuel env caller db request (.refused e) db
  | hung : Ended fuel env caller db request .hung db
  | grantRefused {db₁ : Database} {e : AppError} {e' : DbErr}
      (hkind : request.isTransactional = false)
      (hchange : Change fuel env caller db request db₁)
      (hgrant : grantToCreator env caller request db₁ = .error e') :
      Ended fuel env caller db request (.refused e) db₁
  | auditRefused {db₁ db₂ : Database} {e : AppError} (hkind : request.isTransactional = false)
      (hchange : Change fuel env caller db request db₁)
      (hgrant : grantToCreator env caller request db₁ = .ok db₂)
      (hgone : db₂.hasKey caller.id = false) :
      Ended fuel env caller db request (.refused e) db₂
  | answered {db₁ db₂ db₃ : Database} {entry : AuditLog} {reply : Reply}
      (hchange : Change fuel env caller db request db₁)
      (hgrant : grantToCreator env caller request db₁ = .ok db₂)
      (hentry : entry.apiKeyId = some caller.id) (haudit : db₂.insertAuditLog entry = .ok db₃) :
      Ended fuel env caller db request (.answered reply) db₃

/-! ### Which tables a row write touches -/

/-- The tables that the row write of a request touches, by itself or through a cascade. -/
def Request.writes : Request → List TableName
  | .createApiKey _ => [.apiKeys]
  | .updateApiKey _ _ => [.apiKeys]
  | .deleteApiKey _ => [.apiKeys, .permissions, .auditLogs]
  | .rotateApiKey _ => [.apiKeys]
  | .rotateSigningSecret _ => [.apiKeys]
  | .grantKeyPermission _ _ => [.permissions]
  | .revokeKeyPermission _ _ => [.permissions]
  | .createVaultEndpoint _ => [.vaultEndpoints]
  | .updateVaultEndpoint _ _ => [.vaultEndpoints]
  | .deleteVaultEndpoint _ => [.vaultEndpoints, .vaultSyncTasks, .taskTargets, .groupTargets]
  | .createDestinationGroup _ => [.destinationGroups, .groupTargets]
  | .updateDestinationGroup _ _ => [.destinationGroups, .groupTargets]
  | .deleteDestinationGroup _ => [.destinationGroups, .groupTargets, .externalSources]
  | .createFeed _ _ => [.externalSources]
  | .updateFeed _ _ _ => [.externalSources]
  | .deleteFeed _ _ => [.externalSources]
  | .createVaultSyncTask _ => [.vaultSyncTasks, .taskTargets]
  | .updateVaultSyncTask _ _ => [.vaultSyncTasks, .taskTargets]
  | .deleteVaultSyncTask _ => [.vaultSyncTasks, .taskTargets]
  | _ => []

/-- From `db` to `db'` the tables that are not listed stay as they are. -/
structure Frame (tables : List TableName) (db db' : Database) : Prop where
  apiKeys : .apiKeys ∉ tables → db'.apiKeys = db.apiKeys
  permissions : .permissions ∉ tables → db'.permissions = db.permissions
  vaultEndpoints : .vaultEndpoints ∉ tables → db'.vaultEndpoints = db.vaultEndpoints
  destinationGroups : .destinationGroups ∉ tables → db'.destinationGroups = db.destinationGroups
  vaultSyncTasks : .vaultSyncTasks ∉ tables → db'.vaultSyncTasks = db.vaultSyncTasks
  auditLogs : .auditLogs ∉ tables → db'.auditLogs = db.auditLogs

/-- **Every other table is unchanged.** -/
theorem Change.frame {fuel : ℕ} {env : Env} {caller : ApiKey} {db db' : Database}
    {request : Request} (h : Change fuel env caller db request db') :
    Frame request.writes db db' := by
  cases h with
  | createApiKey _ _ _ hwrite =>
      obtain ⟨_, -, rfl⟩ := insertApiKey_ok hwrite
      constructor <;> simp [Request.writes]
  | updateApiKey _ _ _ _ _ hwrite =>
      obtain ⟨_, -, -, rfl⟩ := updateApiKey_ok hwrite
      constructor <;> simp [Request.writes]
  | deleteApiKey => constructor <;> simp [Request.writes, Database.deleteApiKeys]
  | rotateApiKey _ hwrite =>
      obtain ⟨_, -, -, rfl⟩ := updateApiKey_ok hwrite
      constructor <;> simp [Request.writes]
  | rotateSigningSecret _ _ hwrite =>
      obtain ⟨_, -, -, rfl⟩ := updateApiKey_ok hwrite
      constructor <;> simp [Request.writes]
  | regrant _ _ _ _ _ hwrite =>
      obtain ⟨_, -, -, rfl⟩ := updatePermission_ok hwrite
      constructor <;> simp [Request.writes]
  | grant _ _ _ _ _ hwrite =>
      obtain ⟨_, -, rfl⟩ := insertPermission_ok hwrite
      constructor <;> simp [Request.writes]
  | revokeKeyPermission => constructor <;> simp [Request.writes, Database.deletePermission]
  | createVaultEndpoint _ _ hwrite =>
      obtain ⟨_, -, rfl⟩ := insertVaultEndpoint_ok hwrite
      constructor <;> simp [Request.writes]
  | updateVaultEndpoint _ _ _ hwrite =>
      obtain ⟨_, -, -, rfl⟩ := updateVaultEndpoint_ok hwrite
      constructor <;> simp [Request.writes]
  | deleteVaultEndpoint => constructor <;> simp [Request.writes, Database.deleteVaultEndpoint]
  | createDestinationGroup _ _ _ hwrite htargets =>
      obtain ⟨_, -, rfl⟩ := insertDestinationGroup_ok hwrite
      obtain ⟨_, rfl⟩ := addGroupTargets_ok htargets
      constructor <;> simp [Request.writes]
  | updateDestinationGroup _ _ _ _ hwrite htargets =>
      obtain ⟨_, -, -, rfl⟩ := updateDestinationGroup_ok hwrite
      obtain ⟨_, rfl⟩ := setGroupTargets_ok htargets
      constructor <;> simp [Request.writes]
  | deleteDestinationGroup =>
      constructor <;> simp [Request.writes, Database.deleteDestinationGroup]
  | createFeed _ _ _ _ hwrite =>
      obtain ⟨_, -, rfl⟩ := insertExternalSource_ok hwrite
      constructor <;> simp [Request.writes]
  | updateFeed _ _ _ _ _ hwrite =>
      obtain ⟨_, -, -, rfl⟩ := updateExternalSource_ok hwrite
      constructor <;> simp [Request.writes]
  | deleteFeed => constructor <;> simp [Request.writes, Database.deleteExternalSource]
  | createVaultSyncTask _ _ hwrite htargets =>
      obtain ⟨_, -, rfl⟩ := insertVaultSyncTask_ok hwrite
      obtain ⟨_, rfl⟩ := addTaskTargets_ok htargets
      constructor <;> simp [Request.writes]
  | updateVaultSyncTask _ _ _ hwrite htargets =>
      obtain ⟨_, -, -, rfl⟩ := updateVaultSyncTask_ok hwrite
      obtain ⟨_, rfl⟩ := setTaskTargets_ok htargets
      constructor <;> simp [Request.writes]
  | deleteVaultSyncTask => constructor <;> simp [Request.writes, Database.deleteVaultSyncTask]

end SimplyIpSync.Api
