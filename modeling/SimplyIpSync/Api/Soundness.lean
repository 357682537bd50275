import SimplyIpSync.Api.Changes

/-!
# Every run of a handler stays within its changes

One rule for each statement of a handler, and with them, handler by handler: whatever a mutating
request leaves behind, at any statement and at its end, is one of the states that `Committed` and
`Ended` name.  A handler that only reads changes nothing.
-/

namespace SimplyIpSync.Api

open SimplyIpSync.Entities SimplyIpSync.Storage SimplyIpSync.Program SimplyIpSync.Program.Prog

/-! ### The statements of a handler -/

section Rules

variable {α β : Type} {I : Sql → Database → Prop} {Q : Outcome AppError β → Database → Prop}
  {k : α → Handler β} {s : Database}

theorem require_ok {condition : Bool} {e : AppError} :
    require condition e = .ok () ↔ condition = true := by
  cases condition <;> simp [require]

theorem along_findRow {ρ : Type} {table : TableName} {find : Database → Option ρ}
    {k : ρ → Handler β} (hissue : I (.select table) s) (hnone : Q (.refused .notFound) s)
    (hsome : ∀ row, find s = some row → Along I Q (k row) s) :
    Along I Q (findRow table find >>= k) s := by
  rw [findRow, bind_assoc]
  refine along_query hissue ?_
  cases hfind : find s with
  | none => exact ⟨nofun, hnone⟩
  | some row => exact hsome row hfind

theorem along_findPermission {k : Option SyncPermission → Handler β} {keyId id : Uuid}
    {resourceType : String} (hissue : I (.select .permissions) s)
    (hnext : Along I Q (k (s.permissionOf keyId resourceType id)) s) :
    Along I Q (findPermission keyId resourceType id >>= k) s := along_query hissue hnext

theorem along_requireManage {k : Unit → Handler β} {caller : ApiKey} {resourceType : String}
    {id : Uuid} (hissue : I (.select .permissions) s) (hrefused : ∀ e, Q (.refused e) s)
    (hnext : Manages caller s resourceType id → Along I Q (k ()) s) :
    Along I Q (requireManage caller resourceType id >>= k) s := by
  rw [requireManage, bind_assoc]
  refine along_findPermission hissue ?_
  exact along_lift (fun e _ => hrefused e) fun _ hmanage => hnext hmanage

theorem along_insertRow {k : Unit → Handler β} {table : TableName} {onError : DbErr → AppError}
    {effect : Database → Except DbErr Database} (hissue : I (.insert table) s)
    (hrefused : ∀ e e', effect s = .error e' → Q (.refused e) s)
    (hnext : ∀ s', effect s = .ok s' → Along I Q (k ()) s') :
    Along I Q (insertRow table onError effect >>= k) s := by
  refine along_perform hissue ?_ ?_
  · intro e he
    cases heffect : effect s with
    | error e' => exact hrefused e e' heffect
    | ok s' => simp [heffect] at he
  · intro u s' hs'
    cases heffect : effect s with
    | error e' => simp [heffect] at hs'
    | ok s'' =>
        simp only [heffect, Except.ok.injEq, Prod.mk.injEq, true_and] at hs'
        exact hnext s' (heffect.trans (congrArg _ hs'))

theorem along_updateRow {ρ : Type} {k : ρ → Handler β} {table : TableName}
    {effect : Database → Except DbErr (ρ × Database)} (hissue : I (.update table) s)
    (hrefused : ∀ e, Q (.refused e) s)
    (hnext : ∀ row s', effect s = .ok (row, s') → Along I Q (k row) s') :
    Along I Q (updateRow table effect >>= k) s := by
  refine along_perform hissue (fun e _ => hrefused e) ?_
  intro row s' hs'
  cases heffect : effect s with
  | error e' => simp [heffect] at hs'
  | ok out =>
      simp only [heffect, Except.ok.injEq] at hs'
      exact hnext row s' (heffect.trans (congrArg _ hs'))

theorem along_deleteRows {k : ℕ → Handler β} {table : TableName}
    {effect : Database → ℕ × Database} (hissue : I (.delete table) s)
    (hnext : Along I Q (k (effect s).1) (effect s).2) :
    Along I Q (deleteRows table effect >>= k) s := by
  refine along_perform hissue (fun e he => nomatch he) ?_
  intro affected s' hs'
  simp only [Except.ok.injEq] at hs'
  rw [hs'] at hnext
  exact hnext

theorem insertAuditLog_error {db : Database} {entry : AuditLog} {e : DbErr} {id : Uuid}
    (hentry : entry.apiKeyId = some id) (h : db.insertAuditLog entry = .error e) :
    db.hasKey id = false := by
  cases hkey : db.hasKey id with
  | false => rfl
  | true => simp [Database.insertAuditLog, hentry, hkey] at h

end Rules

/-! ### What follows the row write -/

section Handlers

variable {fuel : ℕ} {env : Env} {caller : ApiKey} {db db₁ db₂ : Database} {request : Request}

/-- The audit entry and the answer, outside a transaction. -/
theorem along_audit {action : String} {target : Option String} {reply : Reply}
    (hkind : request.isTransactional = false) (hchange : Change fuel env caller db request db₁)
    (hgrant : grantToCreator env caller request db₁ = .ok db₂) :
    Along (Committed fuel env caller db request) (Ended fuel env caller db request)
      (createAuditLog env caller action target >>= fun _ => pure reply) db₂ := by
  refine along_insertRow (.granted hkind hchange hgrant) ?_ ?_
  · intro e e' he'
    exact .auditRefused hkind hchange hgrant (insertAuditLog_error rfl he')
  · intro db₃ haudit
    exact along_pure.mpr (.answered hchange hgrant rfl haudit)

/-! ### Keys -/

theorem along_createApiKey (payload : CreateApiKeyPayload) :
    Along (Committed fuel env caller db (.createApiKey payload))
      (Ended fuel env caller db (.createApiKey payload))
      (Handlers.createApiKey env caller payload) db := by
  rw [Handlers.createApiKey]
  refine along_lift (fun e _ => .refused e) ?_
  intro _ hkeys
  refine along_lift (fun e _ => .refused e) ?_
  intro _ hscope
  refine along_lift (fun e _ => .refused e) ?_
  intro envelope henvelope
  refine along_insertRow .start (fun e _ _ => .refused e) ?_
  intro db' hwrite
  exact along_audit rfl (.createApiKey hkeys hscope henvelope hwrite) rfl

theorem along_updateApiKey (id : Uuid) (payload : UpdateApiKeyPayload) :
    Along (Committed fuel env caller db (.updateApiKey id payload))
      (Ended fuel env caller db (.updateApiKey id payload))
      (Handlers.updateApiKey env caller id payload) db := by
  rw [Handlers.updateApiKey]
  refine along_lift (fun e _ => .refused e) ?_
  intro _ hkeys
  refine along_findRow .start (.refused _) ?_
  intro target htarget
  refine along_lift (fun e _ => .refused e) ?_
  intro _ hadmin
  refine along_lift (fun e _ => .refused e) ?_
  intro _ hmaster
  refine along_lift (fun e _ => .refused e) ?_
  intro _ hscope
  refine along_updateRow .start (fun e => .refused e) ?_
  intro row db' hwrite
  exact along_audit rfl
    (.updateApiKey hkeys htarget (require_ok.mp hadmin) hmaster hscope hwrite) rfl

theorem along_checkRotation {β : Type} {I : Sql → Database → Prop}
    {Q : Outcome AppError β → Database → Prop} {k : Unit → Handler β} {id : Uuid}
    (hissue : I (.select .apiKeys) db) (hrefused : ∀ e, Q (.refused e) db)
    (hnext : Rotates caller db id → Along I Q (k ()) db) :
    Along I Q (checkRotation caller id >>= k) db := by
  simp only [checkRotation, bind_assoc]
  refine along_lift (fun e _ => hrefused e) ?_
  intro _ hkeys
  refine along_findRow hissue (hrefused _) ?_
  intro target htarget
  refine along_lift (fun e _ => hrefused e) ?_
  intro _ hmaster
  refine along_lift (fun e _ => hrefused e) ?_
  intro _ hadmin
  exact hnext ⟨hkeys, target, htarget, hmaster, require_ok.mp hadmin⟩

theorem along_rotateApiKey (id : Uuid) :
    Along (Committed fuel env caller db (.rotateApiKey id))
      (Ended fuel env caller db (.rotateApiKey id)) (Handlers.rotateApiKey env caller id) db := by
  rw [Handlers.rotateApiKey]
  refine along_checkRotation .start (fun e => .refused e) ?_
  intro hrotates
  simp only [rotate, bind_assoc]
  refine along_updateRow .start (fun e => .refused e) ?_
  intro row db' hwrite
  exact along_audit rfl (.rotateApiKey hrotates hwrite) rfl

theorem along_rotateSigningSecret (id : Uuid) :
    Along (Committed fuel env caller db (.rotateSigningSecret id))
      (Ended fuel env caller db (.rotateSigningSecret id))
      (Handlers.rotateSigningSecret env caller id) db := by
  rw [Handlers.rotateSigningSecret]
  refine along_checkRotation .start (fun e => .refused e) ?_
  intro hrotates
  refine along_lift (fun e _ => .refused e) ?_
  intro envelope henvelope
  simp only [rotate, bind_assoc]
  refine along_updateRow .start (fun e => .refused e) ?_
  intro row db' hwrite
  exact along_audit rfl (.rotateSigningSecret hrotates henvelope hwrite) rfl

/-- The walk reads what `walk` computes, or does not come back. -/
theorem along_walkSubtree {β : Type} {I : Sql → Database → Prop}
    {Q : Outcome AppError β → Database → Prop} {k : List ApiKey → Handler β}
    (hissue : ∀ frontier, I (.selectOf .apiKeys frontier) db) (hhung : Q .hung db)
    (frontier : List Uuid) (result : List ApiKey)
    (hnext : ∀ subtree, db.walk fuel frontier result = some subtree → Along I Q (k subtree) db) :
    Along I Q (walkSubtree fuel frontier result >>= k) db := by
  induction fuel generalizing frontier result with
  | zero =>
      cases frontier with
      | nil => exact hnext result (by simp [Database.walk])
      | cons id rest => exact ⟨nofun, hhung⟩
  | succ fuel ih =>
      cases frontier with
      | nil => exact hnext result (by simp [Database.walk])
      | cons id rest =>
          simp only [walkSubtree, bind_assoc]
          refine along_query (hissue _) (ih _ _ ?_)
          intro subtree hwalk
          exact hnext subtree (by simpa only [Database.walk] using hwalk)

/-- The walk keeps what it has found. -/
theorem mem_of_walk {frontier : List Uuid} {result subtree : List ApiKey}
    (h : db.walk fuel frontier result = some subtree) {key : ApiKey} (hkey : key ∈ result) :
    key ∈ subtree := by
  induction fuel generalizing frontier result with
  | zero =>
      cases frontier with
      | nil =>
          rw [Database.walk, Option.some.injEq] at h
          exact h ▸ hkey
      | cons id rest => cases h
  | succ fuel ih =>
      cases frontier with
      | nil =>
          rw [Database.walk, Option.some.injEq] at h
          exact h ▸ hkey
      | cons id rest =>
          simp only [Database.walk] at h
          exact ih h (List.mem_append_left _ hkey)

/-- A statement that deletes an existing row deletes at least one. -/
theorem count_ne_zero {ρ : Type} {rows : List ρ} {selects : ρ → Bool} {row : ρ} (hrow : row ∈ rows)
    (hselects : selects row = true) : ((rows.filter selects).length != 0) = true := by
  have hmem : row ∈ rows.filter selects := List.mem_filter.mpr ⟨hrow, hselects⟩
  have hpos : 0 < (rows.filter selects).length := List.length_pos_of_mem hmem
  rw [bne_iff_ne]
  omega

theorem deleteApiKeys_count {target : ApiKey} {ids : List Uuid}
    (htarget : db.apiKeys.find? target.id = some target) (hmem : target.id ∈ ids) :
    ((db.deleteApiKeys ids).1 != 0) = true :=
  count_ne_zero (Table.find?_eq_some_iff.mp htarget).1 (decide_eq_true hmem)

theorem along_deleteApiKey (id : Uuid) :
    Along (Committed fuel env caller db (.deleteApiKey id))
      (Ended fuel env caller db (.deleteApiKey id))
      (Handlers.deleteApiKey fuel env caller id) db := by
  rw [Handlers.deleteApiKey]
  refine along_lift (fun e _ => .refused e) ?_
  intro _ hkeys
  refine along_findRow .start (.refused _) ?_
  intro target htarget
  refine along_lift (fun e _ => .refused e) ?_
  intro _ hmaster
  refine along_lift (fun e _ => .refused e) ?_
  intro _ hadmin
  refine along_walkSubtree (fun _ => .start) .hung _ _ ?_
  intro subtree hsubtree
  simp only [ownedResourceInventory, bind_assoc, pure_bind]
  refine along_query .start (along_query .start (along_query .start ?_))
  refine along_lift (fun e _ => .refused e) ?_
  intro _ howned
  refine along_deleteRows .start ?_
  have hchange : Change fuel env caller db (.deleteApiKey id)
      (db.deleteApiKeys (subtree.map ApiKey.id)).2 := by
    refine .deleteApiKey hkeys htarget ?_ (require_ok.mp hadmin) hsubtree ?_
    · simpa using require_ok.mp hmaster
    · simpa [Database.OwnsNothing, and_assoc] using require_ok.mp howned
  have hself : db.apiKeys.find? target.id = some target := by
    rw [Table.key_of_find? htarget]
    exact htarget
  have hcount : ((db.deleteApiKeys (subtree.map ApiKey.id)).1 != 0) = true :=
    deleteApiKeys_count hself (List.mem_map_of_mem (mem_of_walk hsubtree List.mem_cons_self))
  refine along_lift ?_ ?_
  · intro e he
    rw [require_ok.mpr hcount] at he
    cases he
  · intro _ _
    exact along_audit rfl hchange rfl

/-! ### Permissions -/

theorem along_writePermission {β : Type} {I : Sql → Database → Prop}
    {Q : Outcome AppError β → Database → Prop} {k : SyncPermission → Handler β} {id : Uuid}
    {payload : GrantPermissionPayload} {existing : Option SyncPermission}
    (hupdate : I (.update .permissions) db) (hinsert : I (.insert .permissions) db)
    (hrefused : ∀ e, Q (.refused e) db)
    (hregrant : ∀ old row db', existing = some old →
      db.updatePermission old.id payload.apply (fun _ => rfl) = .ok (row, db') →
      Along I Q (k row) db')
    (hgrant : ∀ db', existing = none →
      db.insertPermission (env.grantedPermission id payload) = .ok db' →
      Along I Q (k (env.grantedPermission id payload)) db') :
    Along I Q (writePermission env id payload existing >>= k) db := by
  cases existing with
  | some old =>
      refine along_updateRow hupdate hrefused ?_
      intro row db' hwrite
      exact hregrant old row db' rfl hwrite
  | none =>
      simp only [writePermission, bind_assoc, pure_bind]
      refine along_insertRow hinsert (fun e _ _ => hrefused e) ?_
      intro db' hwrite
      exact hgrant db' rfl hwrite

theorem along_grantKeyPermission (id : Uuid) (payload : GrantPermissionPayload) :
    Along (Committed fuel env caller db (.grantKeyPermission id payload))
      (Ended fuel env caller db (.grantKeyPermission id payload))
      (Handlers.grantKeyPermission env caller id payload) db := by
  rw [Handlers.grantKeyPermission]
  refine along_lift (fun e _ => .refused e) ?_
  intro _ hkeys
  refine along_findRow .start (.refused _) ?_
  intro target htarget
  rw [Table.key_of_find? htarget]
  refine along_lift (fun e _ => .refused e) ?_
  intro _ htype
  refine along_findPermission .start ?_
  refine along_lift (fun e _ => .refused e) ?_
  intro _ hdelegated
  refine along_findPermission .start ?_
  refine along_writePermission .start .start (fun e => .refused e) ?_ ?_
  · intro old row db' hold hwrite
    exact along_audit rfl
      (.regrant hkeys htarget (require_ok.mp htype) hdelegated hold hwrite) rfl
  · intro db' hnone hwrite
    exact along_audit rfl
      (.grant hkeys htarget (require_ok.mp htype) hdelegated hnone hwrite) rfl

theorem along_revokeKeyPermission (id permissionId : Uuid) :
    Along (Committed fuel env caller db (.revokeKeyPermission id permissionId))
      (Ended fuel env caller db (.revokeKeyPermission id permissionId))
      (Handlers.revokeKeyPermission env caller id permissionId) db := by
  rw [Handlers.revokeKeyPermission]
  refine along_lift (fun e _ => .refused e) ?_
  intro _ hkeys
  refine along_findRow .start (.refused _) ?_
  intro permission hpermission
  refine along_lift (fun e _ => .refused e) ?_
  intro _ hkey
  refine along_findPermission .start ?_
  refine along_lift (fun e _ => .refused e) ?_
  intro _ hrevoke
  refine along_deleteRows .start ?_
  have hcount : ((db.deletePermission permissionId).1 != 0) = true := by
    obtain ⟨hmem, hid⟩ := Table.find?_eq_some_iff.mp hpermission
    exact count_ne_zero hmem (decide_eq_true hid)
  refine along_lift ?_ ?_
  · intro e he
    rw [require_ok.mpr hcount] at he
    cases he
  · intro _ _
    exact along_audit rfl
      (.revokeKeyPermission hkeys hpermission (by simpa using require_ok.mp hkey) hrevoke) rfl

/-! ### Vault endpoints and feeds -/

/-- The deletion of a resource, once its change is known. -/
theorem along_deleteResource {table : TableName} {effect : Database → ℕ × Database}
    {action name : String} (hkind : request.isTransactional = false)
    (hcreated : request.createdType = none) (hcount : ((effect db).1 != 0) = true)
    (hchange : Change fuel env caller db request (effect db).2) :
    Along (Committed fuel env caller db request) (Ended fuel env caller db request)
      (deleteResource env caller table effect action name) db := by
  have hgrant : grantToCreator env caller request (effect db).2 = .ok (effect db).2 := by
    rw [grantToCreator, hcreated]
  rw [deleteResource]
  refine along_deleteRows .start ?_
  refine along_lift ?_ ?_
  · intro e he
    rw [require_ok.mpr hcount] at he
    cases he
  · intro _ _
    exact along_audit hkind hchange hgrant

/-- Deleting the row of a key that is there. -/
theorem deleteKey_count {ρ : Type} {key : ρ → Uuid} {t : Table key} {id : Uuid} {row : ρ}
    (hrow : t.find? id = some row) :
    ((t.rows.filter fun r => decide (key r = id)).length != 0) = true := by
  obtain ⟨hmem, hid⟩ := Table.find?_eq_some_iff.mp hrow
  exact count_ne_zero hmem (decide_eq_true hid)

theorem along_createVaultEndpoint (payload : CreateVaultEndpointPayload) :
    Along (Committed fuel env caller db (.createVaultEndpoint payload))
      (Ended fuel env caller db (.createVaultEndpoint payload))
      (Handlers.createVaultEndpoint env caller payload) db := by
  rw [Handlers.createVaultEndpoint]
  refine along_lift (fun e _ => .refused e) ?_
  intro _ hright
  refine along_lift (fun e _ => .refused e) ?_
  intro envelope henvelope
  refine along_insertRow .start (fun e _ _ => .refused e) ?_
  intro db₁ hwrite
  have hchange : Change fuel env caller db (.createVaultEndpoint payload) db₁ :=
    .createVaultEndpoint hright henvelope hwrite
  refine along_insertRow (.written rfl rfl hchange) ?_ ?_
  · intro e e' hgrant
    exact .grantRefused rfl hchange hgrant
  · intro db₂ hgrant
    exact along_audit rfl hchange hgrant

theorem along_updateVaultEndpoint (id : Uuid) (payload : DescribedVaultEndpointPayload) :
    Along (Committed fuel env caller db (.updateVaultEndpoint id payload))
      (Ended fuel env caller db (.updateVaultEndpoint id payload))
      (Handlers.updateVaultEndpoint env caller id payload) db := by
  rw [Handlers.updateVaultEndpoint]
  refine along_findRow .start (.refused _) ?_
  intro existing hexisting
  refine along_requireManage .start (fun e => .refused e) ?_
  intro hmanage
  refine along_lift (fun e _ => .refused e) ?_
  intro envelope henvelope
  refine along_updateRow .start (fun e => .refused e) ?_
  intro row db' hwrite
  exact along_audit rfl (.updateVaultEndpoint hexisting hmanage henvelope hwrite) rfl

theorem along_deleteVaultEndpoint (id : Uuid) :
    Along (Committed fuel env caller db (.deleteVaultEndpoint id))
      (Ended fuel env caller db (.deleteVaultEndpoint id))
      (Handlers.deleteVaultEndpoint env caller id) db := by
  rw [Handlers.deleteVaultEndpoint]
  refine along_findRow .start (.refused _) ?_
  intro existing hexisting
  refine along_lift (fun e _ => .refused e) ?_
  intro _ hlifecycle
  exact along_deleteResource rfl rfl (deleteKey_count hexisting)
    (.deleteVaultEndpoint hexisting hlifecycle)

theorem along_loadFeedInGroup {β : Type} {I : Sql → Database → Prop}
    {Q : Outcome AppError β → Database → Prop} {k : StampedExternalSource → Handler β}
    {groupId feedId : Uuid} (hissue : I (.select .externalSources) db)
    (hrefused : ∀ e, Q (.refused e) db)
    (hnext : ∀ feed, db.externalSources.find? feedId = some feed →
      feed.destinationGroupId = groupId → Along I Q (k feed) db) :
    Along I Q (loadFeedInGroup groupId feedId >>= k) db := by
  simp only [loadFeedInGroup, bind_assoc, pure_bind]
  refine along_findRow hissue (hrefused _) ?_
  intro feed hfeed
  refine along_lift (fun e _ => hrefused e) ?_
  intro _ hgroup
  exact hnext feed hfeed (by simpa using require_ok.mp hgroup)

theorem along_createFeed (groupId : Uuid) (payload : CreateFeedPayload) :
    Along (Committed fuel env caller db (.createFeed groupId payload))
      (Ended fuel env caller db (.createFeed groupId payload))
      (Handlers.createFeed env caller groupId payload) db := by
  rw [Handlers.createFeed]
  refine along_findRow .start (.refused _) ?_
  intro group hgroup
  refine along_requireManage .start (fun e => .refused e) ?_
  intro hmanage
  refine along_lift (fun e _ => .refused e) ?_
  intro _ hparser
  refine along_lift (fun e _ => .refused e) ?_
  intro _ hage
  refine along_insertRow .start (fun e _ _ => .refused e) ?_
  intro db' hwrite
  exact along_audit rfl (.createFeed hgroup hmanage hparser hage hwrite) rfl

theorem along_updateFeed (groupId feedId : Uuid) (payload : UpdateFeedPayload) :
    Along (Committed fuel env caller db (.updateFeed groupId feedId payload))
      (Ended fuel env caller db (.updateFeed groupId feedId payload))
      (Handlers.updateFeed env caller groupId feedId payload) db := by
  rw [Handlers.updateFeed]
  refine along_loadFeedInGroup .start (fun e => .refused e) ?_
  intro existing hexisting hgroup
  refine along_requireManage .start (fun e => .refused e) ?_
  intro hmanage
  refine along_lift (fun e _ => .refused e) ?_
  intro _ hparser
  refine along_lift (fun e _ => .refused e) ?_
  intro _ hage
  refine along_updateRow .start (fun e => .refused e) ?_
  intro row db' hwrite
  exact along_audit rfl (.updateFeed hexisting hgroup hmanage hparser hage hwrite) rfl

theorem along_deleteFeed (groupId feedId : Uuid) :
    Along (Committed fuel env caller db (.deleteFeed groupId feedId))
      (Ended fuel env caller db (.deleteFeed groupId feedId))
      (Handlers.deleteFeed env caller groupId feedId) db := by
  rw [Handlers.deleteFeed]
  refine along_loadFeedInGroup .start (fun e => .refused e) ?_
  intro existing hexisting hgroup
  refine along_requireManage .start (fun e => .refused e) ?_
  intro hmanage
  exact along_deleteResource rfl rfl (deleteKey_count hexisting)
    (.deleteFeed hexisting hgroup hmanage)

/-! ### Destination groups and vault-sync tasks -/

/-- Inside a transaction every statement finds the state before it. -/
theorem along_insertTargets {β : Type} {I : Sql → Database → Prop}
    {Q : Outcome AppError β → Database → Prop} {k : Unit → Handler β} {table : TableName}
    {insert : TargetSpec → Database → Except DbErr Database} {targets : List TargetSpec}
    (hissue : ∀ s, I (.insert table) s) (hrefused : ∀ e s, Q (.refused e) s)
    (hnext : ∀ s', insertEach insert targets db = .ok s' → Along I Q (k ()) s') :
    Along I Q (insertTargets table insert targets >>= k) db := by
  induction targets generalizing db with
  | nil => exact hnext db rfl
  | cons target rest ih =>
      simp only [insertTargets, bind_assoc]
      refine along_insertRow (hissue _) (fun e _ _ => hrefused e _) ?_
      intro s' hs'
      refine ih ?_
      intro s'' hs''
      exact hnext s'' (by rw [insertEach, hs']; exact hs'')

/-- The audit entry as the last statement of a transaction. -/
theorem along_lastAudit {I : Sql → Database → Prop} {Q : Outcome AppError Unit → Database → Prop}
    {action : String} {target : Option String} (hissue : I (.insert .auditLogs) db)
    (hrefused : ∀ e, Q (.refused e) db)
    (hnext : ∀ entry db', entry.apiKeyId = some caller.id → db.insertAuditLog entry = .ok db' →
      Q (.answered ()) db') :
    Along I Q (createAuditLog env caller action target) db := by
  rw [← bind_pure (createAuditLog env caller action target)]
  refine along_insertRow hissue (fun e _ _ => hrefused e) ?_
  intro db' haudit
  exact along_pure.mpr (hnext _ db' rfl haudit)

theorem along_createDestinationGroup (payload : CreateDestinationGroupPayload) :
    Along (Committed fuel env caller db (.createDestinationGroup payload))
      (Ended fuel env caller db (.createDestinationGroup payload))
      (Handlers.createDestinationGroup env caller payload) db := by
  rw [Handlers.createDestinationGroup]
  refine along_lift (fun e _ => .refused e) ?_
  intro _ hright
  refine along_lift (fun e _ => .refused e) ?_
  intro _ hmode
  refine along_lift (fun e _ => .refused e) ?_
  intro _ hcron
  refine along_transaction .start ?_
  refine along_insertRow .start (fun e _ _ => .refused e) ?_
  intro db₁ hwrite
  refine along_insertTargets (fun _ => .start) (fun e _ => .refused e) ?_
  intro db₂ htargets
  refine along_insertRow .start (fun e _ _ => .refused e) ?_
  intro db₃ hgrant
  refine along_lastAudit .start (fun e => .refused e) ?_
  intro entry db₄ hentry haudit
  exact ⟨.start, along_pure.mpr
    (.answered (.createDestinationGroup hright hmode hcron hwrite htargets) hgrant hentry haudit)⟩

theorem along_createVaultSyncTask (payload : CreateVaultSyncTaskPayload) :
    Along (Committed fuel env caller db (.createVaultSyncTask payload))
      (Ended fuel env caller db (.createVaultSyncTask payload))
      (Handlers.createVaultSyncTask env caller payload) db := by
  rw [Handlers.createVaultSyncTask]
  refine along_lift (fun e _ => .refused e) ?_
  intro _ hright
  refine along_lift (fun e _ => .refused e) ?_
  intro _ hcron
  refine along_transaction .start ?_
  refine along_insertRow .start (fun e _ _ => .refused e) ?_
  intro db₁ hwrite
  refine along_insertTargets (fun _ => .start) (fun e _ => .refused e) ?_
  intro db₂ htargets
  refine along_insertRow .start (fun e _ _ => .refused e) ?_
  intro db₃ hgrant
  refine along_lastAudit .start (fun e => .refused e) ?_
  intro entry db₄ hentry haudit
  exact ⟨.start, along_pure.mpr
    (.answered (.createVaultSyncTask hright hcron hwrite htargets) hgrant hentry haudit)⟩

/-- The target rows of a `PATCH`, inside its transaction. -/
theorem along_replaceGroupTargets {β : Type} {I : Sql → Database → Prop}
    {Q : Outcome AppError β → Database → Prop} {k : Unit → Handler β} {id : Uuid}
    {targets : Option (List TargetSpec)} (hissue : ∀ tag s, I tag s)
    (hrefused : ∀ e s, Q (.refused e) s)
    (hnext : ∀ s', db.setGroupTargets id targets = .ok s' → Along I Q (k ()) s') :
    Along I Q (replaceGroupTargets id targets >>= k) db := by
  cases targets with
  | none => exact hnext db rfl
  | some targets =>
      simp only [replaceGroupTargets, bind_assoc]
      refine along_deleteRows (hissue _ _) ?_
      exact along_insertTargets (fun _ => hissue _ _) hrefused hnext

theorem along_replaceTaskTargets {β : Type} {I : Sql → Database → Prop}
    {Q : Outcome AppError β → Database → Prop} {k : Unit → Handler β} {id : Uuid}
    {targets : Option (List TargetSpec)} (hissue : ∀ tag s, I tag s)
    (hrefused : ∀ e s, Q (.refused e) s)
    (hnext : ∀ s', db.setTaskTargets id targets = .ok s' → Along I Q (k ()) s') :
    Along I Q (replaceTaskTargets id targets >>= k) db := by
  cases targets with
  | none => exact hnext db rfl
  | some targets =>
      simp only [replaceTaskTargets, bind_assoc]
      refine along_deleteRows (hissue _ _) ?_
      exact along_insertTargets (fun _ => hissue _ _) hrefused hnext

theorem along_updateDestinationGroup (id : Uuid) (payload : UpdateDestinationGroupPayload) :
    Along (Committed fuel env caller db (.updateDestinationGroup id payload))
      (Ended fuel env caller db (.updateDestinationGroup id payload))
      (Handlers.updateDestinationGroup env caller id payload) db := by
  rw [Handlers.updateDestinationGroup]
  refine along_findRow .start (.refused _) ?_
  intro existing hexisting
  refine along_requireManage .start (fun e => .refused e) ?_
  intro hmanage
  refine along_lift (fun e _ => .refused e) ?_
  intro _ hcron
  refine along_lift (fun e _ => .refused e) ?_
  intro _ hmode
  refine along_transaction .start ?_
  refine along_updateRow .start (fun e => .refused e) ?_
  intro row db₁ hwrite
  refine along_replaceGroupTargets (fun _ _ => .start) (fun e _ => .refused e) ?_
  intro db₂ htargets
  refine along_insertRow .start (fun e _ _ => .refused e) ?_
  intro db₃ haudit
  refine along_pure.mpr ⟨.start, ?_⟩
  have hchange : Change fuel env caller db (.updateDestinationGroup id payload) db₂ :=
    .updateDestinationGroup hexisting hmanage hcron hmode hwrite htargets
  refine along_query (.audited (by simp [Request.reloads]) hchange rfl rfl haudit) ?_
  refine along_query (.audited (by simp [Request.reloads]) hchange rfl rfl haudit) ?_
  exact along_pure.mpr (.answered hchange rfl rfl haudit)

theorem along_updateVaultSyncTask (id : Uuid) (payload : UpdateVaultSyncTaskPayload) :
    Along (Committed fuel env caller db (.updateVaultSyncTask id payload))
      (Ended fuel env caller db (.updateVaultSyncTask id payload))
      (Handlers.updateVaultSyncTask env caller id payload) db := by
  rw [Handlers.updateVaultSyncTask]
  refine along_findRow .start (.refused _) ?_
  intro existing hexisting
  refine along_requireManage .start (fun e => .refused e) ?_
  intro hmanage
  refine along_lift (fun e _ => .refused e) ?_
  intro _ hcron
  refine along_transaction .start ?_
  refine along_updateRow .start (fun e => .refused e) ?_
  intro row db₁ hwrite
  refine along_replaceTaskTargets (fun _ _ => .start) (fun e _ => .refused e) ?_
  intro db₂ htargets
  refine along_insertRow .start (fun e _ _ => .refused e) ?_
  intro db₃ haudit
  refine along_pure.mpr ⟨.start, ?_⟩
  have hchange : Change fuel env caller db (.updateVaultSyncTask id payload) db₂ :=
    .updateVaultSyncTask hexisting hmanage hcron hwrite htargets
  refine along_query (.audited (by simp [Request.reloads]) hchange rfl rfl haudit) ?_
  exact along_pure.mpr (.answered hchange rfl rfl haudit)

theorem along_deleteDestinationGroup (id : Uuid) :
    Along (Committed fuel env caller db (.deleteDestinationGroup id))
      (Ended fuel env caller db (.deleteDestinationGroup id))
      (Handlers.deleteDestinationGroup env caller id) db := by
  rw [Handlers.deleteDestinationGroup]
  refine along_findRow .start (.refused _) ?_
  intro existing hexisting
  refine along_lift (fun e _ => .refused e) ?_
  intro _ hlifecycle
  exact along_deleteResource rfl rfl (deleteKey_count hexisting)
    (.deleteDestinationGroup hexisting hlifecycle)

theorem along_deleteVaultSyncTask (id : Uuid) :
    Along (Committed fuel env caller db (.deleteVaultSyncTask id))
      (Ended fuel env caller db (.deleteVaultSyncTask id))
      (Handlers.deleteVaultSyncTask env caller id) db := by
  rw [Handlers.deleteVaultSyncTask]
  refine along_findRow .start (.refused _) ?_
  intro existing hexisting
  refine along_lift (fun e _ => .refused e) ?_
  intro _ hlifecycle
  exact along_deleteResource rfl rfl (deleteKey_count hexisting)
    (.deleteVaultSyncTask hexisting hlifecycle)

end Handlers

end SimplyIpSync.Api
