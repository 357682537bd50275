import SimplyIpSync.Api.Leaves

/-!
# Every accepted request is carried out

The other half of `Api/Soundness.lean`: where a request has a change, its handler issues the
statements of `Request.statements` one after the other and makes the change with the last of them
(`leads_handle`, and `leads_updateDestinationGroup` and `leads_updateVaultSyncTask` for the two
handlers that go on reading after their transaction).
-/

namespace SimplyIpSync.Api

open SimplyIpSync.Entities SimplyIpSync.Storage SimplyIpSync.Program SimplyIpSync.Program.Prog

/-! ### The statements up to the row write -/

/-- The statements of `collect_subtree`. -/
def Database.walkStatements (db : Database) : ℕ → List Uuid → List Sql
  | _, [] => []
  | 0, _ :: _ => []
  | fuel + 1, frontier =>
      .selectOf .apiKeys frontier :: db.walkStatements fuel ((db.daughters frontier).map ApiKey.id)

/-- The statements of `owned_resource_inventory`. -/
def inventoryStatements (keyIds : List Uuid) : List Sql :=
  [.selectOf .vaultEndpoints keyIds, .selectOf .destinationGroups keyIds,
    .selectOf .vaultSyncTasks keyIds]

/-- The statements of `delete_api_key` up to the deletion. -/
def Database.deletionStatements (db : Database) (fuel : ℕ) (id : Uuid) : List Sql :=
  .select .apiKeys :: (db.walkStatements fuel [id] ++
    match (db.apiKeys.find? id).bind (db.subtree fuel) with
    | none => []
    | some subtree => inventoryStatements (subtree.map ApiKey.id) ++ [.delete .apiKeys])

/-- The statements that replace target rows. -/
def replaceStatements (table : TableName) : Option (List TargetSpec) → List Sql
  | none => []
  | some targets => .delete table :: targets.map fun _ => .insert table

/-- The statements of an accepted request, up to the one that commits its row write. -/
def Request.statements (fuel : ℕ) (db : Database) : Request → List Sql
  | .createApiKey _ => [.insert .apiKeys]
  | .updateApiKey _ _ => [.select .apiKeys, .update .apiKeys]
  | .deleteApiKey id => db.deletionStatements fuel id
  | .rotateApiKey _ => [.select .apiKeys, .update .apiKeys]
  | .rotateSigningSecret _ => [.select .apiKeys, .update .apiKeys]
  | .grantKeyPermission id payload =>
      [.select .apiKeys, .select .permissions, .select .permissions,
        if (db.permissionOf id payload.resourceType payload.resourceId).isSome then
          .update .permissions
        else .insert .permissions]
  | .revokeKeyPermission _ _ =>
      [.select .permissions, .select .permissions, .delete .permissions]
  | .createVaultEndpoint _ => [.insert .vaultEndpoints]
  | .updateVaultEndpoint _ _ =>
      [.select .vaultEndpoints, .select .permissions, .update .vaultEndpoints]
  | .deleteVaultEndpoint _ => [.select .vaultEndpoints, .delete .vaultEndpoints]
  | .updateDestinationGroup _ payload =>
      [.select .destinationGroups, .select .permissions, .begin, .update .destinationGroups] ++
        replaceStatements .groupTargets payload.targets ++ [.insert .auditLogs, .commit]
  | .deleteDestinationGroup _ => [.select .destinationGroups, .delete .destinationGroups]
  | .createFeed _ _ =>
      [.select .destinationGroups, .select .permissions, .insert .externalSources]
  | .updateFeed _ _ _ =>
      [.select .externalSources, .select .permissions, .update .externalSources]
  | .deleteFeed _ _ => [.select .externalSources, .select .permissions, .delete .externalSources]
  | .updateVaultSyncTask _ payload =>
      [.select .vaultSyncTasks, .select .permissions, .begin, .update .vaultSyncTasks] ++
        replaceStatements .taskTargets payload.targets ++ [.insert .auditLogs, .commit]
  | .deleteVaultSyncTask _ => [.select .vaultSyncTasks, .delete .vaultSyncTasks]
  | _ => []

/-! ### The statements of a handler -/

section Rules

variable {α β : Type} {q : Handler β} {s s' : Database} {tags : List Sql}

theorem leads_findRow {ρ : Type} {table : TableName} {find : Database → Option ρ} {row : ρ}
    {k : ρ → Handler β} (hfind : find s = some row) (hnext : Leads (k row) s tags q s') :
    Leads (findRow table find >>= k) s (.select table :: tags) q s' := by
  rw [findRow, bind_assoc]
  refine leads_query ?_
  rw [hfind]
  exact hnext

theorem leads_findPermission {k : Option SyncPermission → Handler β} {keyId id : Uuid}
    {resourceType : String}
    (hnext : Leads (k (s.permissionOf keyId resourceType id)) s tags q s') :
    Leads (findPermission keyId resourceType id >>= k) s (.select .permissions :: tags) q s' :=
  leads_query hnext

theorem leads_requireManage {k : Unit → Handler β} {caller : ApiKey} {resourceType : String}
    {id : Uuid} (hmanage : Manages caller s resourceType id) (hnext : Leads (k ()) s tags q s') :
    Leads (requireManage caller resourceType id >>= k) s (.select .permissions :: tags) q s' := by
  rw [requireManage, bind_assoc]
  exact leads_findPermission (leads_lift hmanage hnext)

theorem leads_insertRow {k : Unit → Handler β} {table : TableName} {onError : DbErr → AppError}
    {effect : Database → Except DbErr Database} (heffect : effect s = .ok s') (hq : k () = q) :
    Leads (insertRow table onError effect >>= k) s [.insert table] q s' := by
  rw [← hq]
  refine leads_perform ?_
  rw [heffect]

theorem leads_updateRow {ρ : Type} {k : ρ → Handler β} {table : TableName} {row : ρ}
    {effect : Database → Except DbErr (ρ × Database)} (heffect : effect s = .ok (row, s'))
    (hq : k row = q) : Leads (updateRow table effect >>= k) s [.update table] q s' := by
  rw [← hq]
  refine leads_perform ?_
  rw [heffect]

theorem leads_deleteRows {k : ℕ → Handler β} {table : TableName}
    {effect : Database → ℕ × Database} (hq : k (effect s).1 = q) :
    Leads (deleteRows table effect >>= k) s [.delete table] q (effect s).2 := by
  rw [← hq]
  exact leads_perform rfl

/-- A deletion that must have found a row. -/
theorem leads_deleteSome {k : Unit → Handler β} {table : TableName}
    {effect : Database → ℕ × Database} (hcount : ((effect s).1 != 0) = true) (hq : k () = q) :
    Leads (deleteRows table effect >>= fun affected =>
      lift (require (affected != 0) .notFound) >>= k) s [.delete table] q (effect s).2 := by
  refine leads_deleteRows ?_
  rw [require_ok.mpr hcount, ← hq]
  rfl

end Rules

/-! ### What follows the row write -/

/-- The creator's permission, when there is one to grant, the audit entry, and the answer. -/
def finish (env : Env) (caller : ApiKey) (request : Request) (action : String)
    (targetResource : Option String) (reply : Reply) : Handler Reply := do
  match request.createdType with
  | none => pure ()
  | some resourceType => grantFullPermission env caller.id resourceType env.newId
  createAuditLog env caller action targetResource
  pure reply

/-- The request, accepted in `db`, makes its row write and then finishes. -/
def Completes (fuel : ℕ) (env : Env) (caller : ApiKey) (db : Database) (request : Request)
    (db₁ : Database) : Prop :=
  ∃ action targetResource reply, Leads (handle fuel env caller request) db
    (request.statements fuel db) (finish env caller request action targetResource reply) db₁

section Handlers

variable {fuel : ℕ} {env : Env} {caller : ApiKey} {db db₁ db' : Database} {request : Request}

/-! ### Keys -/

theorem leads_checkRotation {β : Type} {q : Handler β} {tags : List Sql} {k : Unit → Handler β}
    {id : Uuid} (h : Rotates caller db id) (hnext : Leads (k ()) db tags q db') :
    Leads (checkRotation caller id >>= k) db (.select .apiKeys :: tags) q db' := by
  obtain ⟨hkeys, target, htarget, hmaster, hadmin⟩ := h
  simp only [checkRotation, bind_assoc]
  refine leads_lift hkeys (leads_findRow htarget ?_)
  exact leads_lift hmaster (leads_lift (require_ok.mpr hadmin) hnext)

/-- The walk issues its statements and comes back with the subtree. -/
theorem leads_walkSubtree {β : Type} {q : Handler β} {tags : List Sql}
    {k : List ApiKey → Handler β} {frontier : List Uuid} {result subtree : List ApiKey}
    (hwalk : db.walk fuel frontier result = some subtree)
    (hnext : Leads (k subtree) db tags q db') :
    Leads (walkSubtree fuel frontier result >>= k) db
      (db.walkStatements fuel frontier ++ tags) q db' := by
  induction fuel generalizing frontier result with
  | zero =>
      cases frontier with
      | nil =>
          rw [Database.walk, Option.some.injEq] at hwalk
          subst hwalk
          simpa only [Database.walkStatements, walkSubtree, pure_bind, List.nil_append] using hnext
      | cons id rest => cases hwalk
  | succ fuel ih =>
      cases frontier with
      | nil =>
          rw [Database.walk, Option.some.injEq] at hwalk
          subst hwalk
          simpa only [Database.walkStatements, walkSubtree, pure_bind, List.nil_append] using hnext
      | cons id rest =>
          simp only [Database.walk] at hwalk
          simp only [walkSubtree, bind_assoc, Database.walkStatements, List.cons_append]
          exact leads_query (ih hwalk)

theorem completes_deleteApiKey {id : Uuid} {target : ApiKey} {subtree : List ApiKey}
    (hkeys : guardManageKeys caller = .ok ()) (htarget : db.apiKeys.find? id = some target)
    (hmaster : target.isMaster = false) (hadmin : canAdminister caller target = true)
    (hsubtree : db.subtree fuel target = some subtree)
    (howned : db.OwnsNothing (subtree.map ApiKey.id)) :
    Completes fuel env caller db (.deleteApiKey id)
      (db.deleteApiKeys (subtree.map ApiKey.id)).2 := by
  obtain ⟨hvaults, hgroups, htasks⟩ := howned
  have hid : target.id = id := Table.key_of_find? htarget
  have hcount : ((db.deleteApiKeys (subtree.map ApiKey.id)).1 != 0) = true :=
    deleteApiKeys_count (hid.symm ▸ htarget)
      (List.mem_map_of_mem (mem_of_walk hsubtree List.mem_cons_self))
  refine ⟨"KEY_DELETE", some target.name, .noContent, ?_⟩
  simp only [handle, Handlers.deleteApiKey, Request.statements, Database.deletionStatements,
    htarget, Option.bind_some, hsubtree]
  refine leads_lift hkeys (leads_findRow htarget ?_)
  refine leads_lift (require_ok.mpr (by simp [hmaster])) ?_
  refine leads_lift (require_ok.mpr hadmin) ?_
  rw [collectSubtree, hid]
  rw [Database.subtree, hid] at hsubtree
  refine leads_walkSubtree hsubtree ?_
  simp only [ownedResourceInventory, bind_assoc, pure_bind]
  refine leads_query (leads_query (leads_query ?_))
  simp only [hvaults, hgroups, htasks, List.map_nil, List.append_nil]
  refine leads_lift rfl ?_
  exact leads_deleteSome hcount rfl

/-! ### The handlers that write row by row -/

/-- **An accepted request makes its row write,** unless it is one that writes in a transaction. -/
theorem completes (h : Change fuel env caller db request db₁)
    (hkind : request.isTransactional = false) :
    Completes fuel env caller db request db₁ := by
  cases h with
  | @createApiKey payload envelope _ hkeys hscope henvelope hwrite =>
      refine ⟨"KEY_CREATE", some payload.name,
        .createdKey (.ofKey (env.newApiKey caller payload envelope)) env.generateRandomKey
          env.generateSigningSecret, ?_⟩
      refine leads_lift hkeys (leads_lift hscope (leads_lift henvelope ?_))
      exact leads_insertRow hwrite rfl
  | @updateApiKey id payload target row _ hkeys htarget hadmin hmaster hscope hwrite =>
      refine ⟨"KEY_UPDATE", some row.name, .key (.ofKey row), ?_⟩
      refine leads_lift hkeys (leads_findRow htarget ?_)
      refine leads_lift (require_ok.mpr hadmin) (leads_lift hmaster (leads_lift hscope ?_))
      exact leads_updateRow hwrite rfl
  | deleteApiKey hkeys htarget hmaster hadmin hsubtree howned =>
      exact completes_deleteApiKey hkeys htarget hmaster hadmin hsubtree howned
  | @rotateApiKey id row _ hrotates hwrite =>
      refine ⟨"KEY_ROTATE", some row.name, .plaintextKey env.generateRandomKey, ?_⟩
      refine leads_checkRotation hrotates ?_
      simp only [rotate, bind_assoc]
      exact leads_updateRow hwrite rfl
  | @rotateSigningSecret id envelope row _ hrotates henvelope hwrite =>
      refine ⟨"KEY_ROTATE_SECRET", some row.name,
        .plaintextSigningSecret env.generateSigningSecret, ?_⟩
      refine leads_checkRotation hrotates (leads_lift henvelope ?_)
      simp only [rotate, bind_assoc]
      exact leads_updateRow hwrite rfl
  | @regrant id payload target existing row _ hkeys htarget htype hgrant hexisting hwrite =>
      refine ⟨"PERMISSION_GRANT", some (target.name ++ " on " ++ payload.resourceType ++ ":" ++
        env.formatUuid payload.resourceId), .permission row, ?_⟩
      simp only [handle, Handlers.grantKeyPermission, Request.statements, hexisting]
      refine leads_lift hkeys (leads_findRow htarget ?_)
      refine leads_lift (require_ok.mpr htype) (leads_findPermission (leads_lift hgrant ?_))
      rw [Table.key_of_find? htarget]
      refine leads_findPermission ?_
      rw [hexisting]
      exact leads_updateRow hwrite rfl
  | @grant id payload target _ hkeys htarget htype hgrant hexisting hwrite =>
      refine ⟨"PERMISSION_GRANT", some (target.name ++ " on " ++ payload.resourceType ++ ":" ++
        env.formatUuid payload.resourceId), .permission (env.grantedPermission id payload), ?_⟩
      simp only [handle, Handlers.grantKeyPermission, Request.statements, hexisting]
      refine leads_lift hkeys (leads_findRow htarget ?_)
      refine leads_lift (require_ok.mpr htype) (leads_findPermission (leads_lift hgrant ?_))
      rw [Table.key_of_find? htarget]
      refine leads_findPermission ?_
      rw [hexisting]
      simp only [writePermission, bind_assoc, pure_bind]
      exact leads_insertRow hwrite rfl
  | @revokeKeyPermission id permissionId permission hkeys hpermission hkey hrevoke =>
      obtain ⟨hmem, hid⟩ := Table.find?_eq_some_iff.mp hpermission
      refine ⟨"PERMISSION_REVOKE", some ("permission " ++ env.formatUuid permissionId),
        .noContent, ?_⟩
      refine leads_lift hkeys (leads_findRow hpermission ?_)
      refine leads_lift (require_ok.mpr (beq_iff_eq.mpr hkey)) ?_
      refine leads_findPermission (leads_lift hrevoke ?_)
      exact leads_deleteSome (count_ne_zero hmem (decide_eq_true hid)) rfl
  | @createVaultEndpoint payload envelope _ hright henvelope hwrite =>
      refine ⟨"VAULT_CREATE", some payload.name,
        .vault (.ofEndpoint (env.newVaultEndpoint caller payload envelope)), ?_⟩
      refine leads_lift hright (leads_lift henvelope ?_)
      exact leads_insertRow hwrite rfl
  | @updateVaultEndpoint id payload existing row envelope _ hexisting hmanage henvelope hwrite =>
      refine ⟨"VAULT_UPDATE", some row.name, .vault (.ofEndpoint row), ?_⟩
      refine leads_findRow hexisting (leads_requireManage hmanage (leads_lift henvelope ?_))
      exact leads_updateRow hwrite rfl
  | @deleteVaultEndpoint id existing hexisting hlifecycle =>
      obtain ⟨hmem, hid⟩ := Table.find?_eq_some_iff.mp hexisting
      refine ⟨"VAULT_DELETE", some existing.name, .noContent, ?_⟩
      refine leads_findRow hexisting (leads_lift hlifecycle ?_)
      exact leads_deleteSome (count_ne_zero hmem (decide_eq_true hid)) rfl
  | createDestinationGroup => cases hkind
  | updateDestinationGroup => cases hkind
  | @deleteDestinationGroup id existing hexisting hlifecycle =>
      obtain ⟨hmem, hid⟩ := Table.find?_eq_some_iff.mp hexisting
      refine ⟨"GROUP_DELETE", some existing.name, .noContent, ?_⟩
      refine leads_findRow hexisting (leads_lift hlifecycle ?_)
      exact leads_deleteSome (count_ne_zero hmem (decide_eq_true hid)) rfl
  | @createFeed groupId payload group _ hgroup hmanage hparser hage hwrite =>
      refine ⟨"FEED_CREATE", some payload.name, .feed (env.newExternalSource groupId payload), ?_⟩
      refine leads_findRow hgroup (leads_requireManage hmanage ?_)
      refine leads_lift hparser (leads_lift hage ?_)
      exact leads_insertRow hwrite rfl
  | @updateFeed groupId feedId payload existing row _ hexisting hgroup hmanage hparser hage hwrite =>
      refine ⟨"FEED_UPDATE", some row.name, .feed row, ?_⟩
      simp only [handle, Handlers.updateFeed, loadFeedInGroup, bind_assoc, pure_bind]
      refine leads_findRow hexisting (leads_lift (require_ok.mpr (beq_iff_eq.mpr hgroup)) ?_)
      refine leads_requireManage hmanage (leads_lift hparser (leads_lift hage ?_))
      exact leads_updateRow hwrite rfl
  | @deleteFeed groupId feedId existing hexisting hgroup hmanage =>
      obtain ⟨hmem, hid⟩ := Table.find?_eq_some_iff.mp hexisting
      refine ⟨"FEED_DELETE", some existing.name, .noContent, ?_⟩
      simp only [handle, Handlers.deleteFeed, loadFeedInGroup, bind_assoc, pure_bind]
      refine leads_findRow hexisting (leads_lift (require_ok.mpr (beq_iff_eq.mpr hgroup)) ?_)
      refine leads_requireManage hmanage ?_
      exact leads_deleteSome (count_ne_zero hmem (decide_eq_true hid)) rfl
  | createVaultSyncTask => cases hkind
  | updateVaultSyncTask => cases hkind
  | @deleteVaultSyncTask id existing hexisting hlifecycle =>
      obtain ⟨hmem, hid⟩ := Table.find?_eq_some_iff.mp hexisting
      refine ⟨"SYNC_TASK_DELETE", some existing.name, .noContent, ?_⟩
      refine leads_findRow hexisting (leads_lift hlifecycle ?_)
      exact leads_deleteSome (count_ne_zero hmem (decide_eq_true hid)) rfl

/-! ### The handlers that write in a transaction and read on -/

section Transactions

variable {tags : List Sql}

theorem issues_insertRow {table : TableName} {onError : DbErr → AppError}
    {effect : Database → Except DbErr Database} (heffect : effect db = .ok db') :
    Issues (insertRow table onError effect) db [.insert table] () db' := by
  refine issues_perform ?_
  rw [heffect]

theorem issues_updateRow {ρ : Type} {table : TableName} {row : ρ}
    {effect : Database → Except DbErr (ρ × Database)} (heffect : effect db = .ok (row, db')) :
    Issues (updateRow table effect) db [.update table] row db' := by
  refine issues_perform ?_
  rw [heffect]

theorem issues_insertTargets {table : TableName}
    {insert : TargetSpec → Database → Except DbErr Database} {targets : List TargetSpec}
    (h : insertEach insert targets db = .ok db') :
    Issues (insertTargets table insert targets) db (targets.map fun _ => .insert table) () db' := by
  induction targets generalizing db with
  | nil =>
      obtain rfl := Except.ok.inj h
      exact issues_pure () db
  | cons target rest ih =>
      rw [insertEach] at h
      split at h
      · cases h
      · rename_i db₁ hinsert
        exact (issues_insertRow hinsert).bind (ih h)

theorem issues_replaceGroupTargets {id : Uuid} {targets : Option (List TargetSpec)}
    (h : db.setGroupTargets id targets = .ok db') :
    Issues (replaceGroupTargets id targets) db (replaceStatements .groupTargets targets) () db' := by
  cases targets with
  | none =>
      obtain rfl := Except.ok.inj h
      exact issues_pure () db
  | some targets => exact (issues_perform rfl).bind (issues_insertTargets h)

theorem issues_replaceTaskTargets {id : Uuid} {targets : Option (List TargetSpec)}
    (h : db.setTaskTargets id targets = .ok db') :
    Issues (replaceTaskTargets id targets) db (replaceStatements .taskTargets targets) () db' := by
  cases targets with
  | none =>
      obtain rfl := Except.ok.inj h
      exact issues_pure () db
  | some targets => exact (issues_perform rfl).bind (issues_insertTargets h)

/-- The audit entry of a caller that exists. -/
theorem issues_createAuditLog (env : Env) (hcaller : db.hasKey caller.id = true) (action : String)
    (target : Option String) :
    ∃ s, db.insertAuditLog (env.auditEntry caller action target) = .ok s ∧
      Issues (createAuditLog env caller action target) db [.insert .auditLogs] () s := by
  have haudit : db.insertAuditLog (env.auditEntry caller action target) =
      .ok { db with auditLogs := db.auditLogs ++ [env.auditEntry caller action target] } := by
    simp [Database.insertAuditLog, Env.auditEntry, hcaller]
  exact ⟨_, haudit, issues_insertRow haudit⟩

/-- The request commits what it writes together with its audit entry, reads on, and answers. -/
def CompletesAndReloads (fuel : ℕ) (env : Env) (caller : ApiKey) (db : Database) (request : Request)
    (db₁ : Database) : Prop :=
  ∃ entry db₃ reply, ∃ q : Handler Reply, entry.apiKeyId = some caller.id ∧
    db₁.insertAuditLog entry = .ok db₃ ∧
    Leads (handle fuel env caller request) db (request.statements fuel db) q db₃ ∧
    Leads q db₃ request.reloads (pure reply) db₃

/-- **A `PATCH` of a group.** -/
theorem completes_updateDestinationGroup {id : Uuid} {payload : UpdateDestinationGroupPayload}
    (h : Change fuel env caller db (.updateDestinationGroup id payload) db₁)
    (hcaller : db₁.hasKey caller.id = true) :
    CompletesAndReloads fuel env caller db (.updateDestinationGroup id payload) db₁ := by
  cases h with
  | @updateDestinationGroup _ _ existing row db₂ _ hexisting hmanage hcron hmode hwrite htargets =>
      obtain ⟨db₃, haudit, hissues⟩ :=
        issues_createAuditLog env hcaller "GROUP_UPDATE" (some row.name)
      let reload : Handler Reply := do
        let targets ← loadGroupTargets id
        let feeds ← loadFeeds id
        pure (.group ⟨row, targets, feeds⟩)
      refine ⟨_, db₃, .group ⟨row, db₃.targetsOfGroup id,
        db₃.externalSources.rows.filter fun r => r.destinationGroupId = id⟩, reload, rfl, haudit,
        ?_, leads_query (leads_query (leads_refl _ _))⟩
      refine leads_findRow hexisting (leads_requireManage hmanage ?_)
      refine leads_lift hcron (leads_lift hmode ?_)
      apply leads_transaction
      · exact (issues_updateRow hwrite).bind ((issues_replaceGroupTargets htargets).bind
          (hissues.bind (issues_pure row db₃)))
      · simp

/-- **A `PATCH` of a task.** -/
theorem completes_updateVaultSyncTask {id : Uuid} {payload : UpdateVaultSyncTaskPayload}
    (h : Change fuel env caller db (.updateVaultSyncTask id payload) db₁)
    (hcaller : db₁.hasKey caller.id = true) :
    CompletesAndReloads fuel env caller db (.updateVaultSyncTask id payload) db₁ := by
  cases h with
  | @updateVaultSyncTask _ _ existing row db₂ _ hexisting hmanage hcron hwrite htargets =>
      obtain ⟨db₃, haudit, hissues⟩ :=
        issues_createAuditLog env hcaller "SYNC_TASK_UPDATE" (some row.name)
      let reload : Handler Reply := do
        let targets ← loadTaskTargets id
        pure (.task ⟨row, targets⟩)
      refine ⟨_, db₃, .task ⟨row, db₃.targetsOfTask id⟩, reload, rfl, haudit, ?_,
        leads_query (leads_refl _ _)⟩
      refine leads_findRow hexisting (leads_requireManage hmanage ?_)
      refine leads_lift hcron ?_
      apply leads_transaction
      · exact (issues_updateRow hwrite).bind ((issues_replaceTaskTargets htargets).bind
          (hissues.bind (issues_pure row db₃)))
      · simp

/-- **An accepted request that reads on is carried out.** -/
theorem completes_reloading (h : Change fuel env caller db request db₁)
    (hreloads : request.reloads ≠ []) (hcaller : db₁.hasKey caller.id = true) :
    CompletesAndReloads fuel env caller db request db₁ := by
  cases request with
  | updateDestinationGroup id payload => exact completes_updateDestinationGroup h hcaller
  | updateVaultSyncTask id payload => exact completes_updateVaultSyncTask h hcaller
  | _ => exact absurd rfl hreloads

end Transactions

end Handlers

/-! ### Calls without a failing statement -/

/-- A request that writes in a transaction and creates nothing reads on. -/
theorem reloads_ne_nil {request : Request} (hkind : request.isTransactional = true)
    (hcreates : request.createdType = none) : request.reloads ≠ [] := by
  cases request with
  | createDestinationGroup => cases hcreates
  | createVaultSyncTask => cases hcreates
  | updateDestinationGroup => exact List.cons_ne_nil _ _
  | updateVaultSyncTask => exact List.cons_ne_nil _ _
  | _ => cases hkind

/-- **An accepted request that creates no resource takes effect.** -/
theorem serve_of_change {fuel : ℕ} {env : Env} {caller : ApiKey} {db db₁ : Database}
    {request : Request} {callerId : Uuid} (hcaller : db.callerOf callerId = some caller)
    (hchange : Change fuel env caller db request db₁) (hcreates : request.createdType = none)
    (hkey : db₁.hasKey caller.id = true) :
    ∃ s, serve db ⟨callerId, request, env, fuel, none⟩ = some s ∧ Quiet db₁ s := by
  rw [serve, hcaller, Option.map_some]
  refine ⟨_, rfl, ?_⟩
  rw [run_none]
  cases hkind : request.isTransactional with
  | false =>
      obtain ⟨action, target, reply, -, hexec⟩ := completes hchange hkind
      obtain ⟨s, haudit, -, hissues⟩ := issues_createAuditLog env hkey action target
      have hfinish : finish env caller request action target reply =
          createAuditLog env caller action target >>= fun _ => pure reply := by
        simp only [finish, hcreates]
      rw [hexec, hfinish, exec_bind, hissues]
      exact quiet_of_insertAuditLog haudit
  | true =>
      obtain ⟨entry, s, reply, q, -, haudit, ⟨-, hexec⟩, -, hreload⟩ :=
        completes_reloading hchange (reloads_ne_nil hkind hcreates) hkey
      rw [hexec, hreload]
      exact quiet_of_insertAuditLog haudit

end SimplyIpSync.Api
