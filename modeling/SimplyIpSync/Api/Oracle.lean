import SimplyIpSync.Api.Soundness
import SimplyIpSync.Lib.Reach

/-!
# What a response tells about rows that the caller cannot see (`RBAC_MODEL.md`, §4)

A resource outside the caller's visibility is to be answered like one that does not exist.
`respond` is the status and the body of an answer, `Hidden` says that the path of a request names a
row that the caller cannot see, and `Database.without` is the same database without this row and what
goes with it by the foreign keys.  `oracle_iff` says for every request exactly when the two responses
differ (`Request.reveals`): the reads are silent, and nearly every handler that writes or triggers
answers 403 for a row that is there and 404 for one that is not.
-/

namespace SimplyIpSync.Api

open SimplyIpSync.Entities SimplyIpSync.Storage SimplyIpSync.Program SimplyIpSync.Program.Prog
  SimplyIpSync.Reach

/-- A row that a request names in its path. -/
inductive PathId
  | key (id : Uuid)
  | vault (id : Uuid)
  | group (id : Uuid)
  | feed (id : Uuid)
  | task (id : Uuid)
  deriving DecidableEq, Repr

/-- The rows that a request names in its path. -/
def Request.pathIds : Request → List PathId
  | .getApiKey id => [.key id]
  | .updateApiKey id _ => [.key id]
  | .deleteApiKey id => [.key id]
  | .rotateApiKey id => [.key id]
  | .rotateSigningSecret id => [.key id]
  | .listKeyPermissions id => [.key id]
  | .grantKeyPermission id _ => [.key id]
  | .revokeKeyPermission id _ => [.key id]
  | .getVaultEndpoint id => [.vault id]
  | .updateVaultEndpoint id _ => [.vault id]
  | .deleteVaultEndpoint id => [.vault id]
  | .getDestinationGroup id => [.group id]
  | .updateDestinationGroup id _ => [.group id]
  | .deleteDestinationGroup id => [.group id]
  | .triggerDestinationGroup id => [.group id]
  | .createFeed groupId _ => [.group groupId]
  | .updateFeed groupId feedId _ => [.group groupId, .feed feedId]
  | .deleteFeed groupId feedId => [.group groupId, .feed feedId]
  | .getVaultSyncTask id => [.task id]
  | .updateVaultSyncTask id _ => [.task id]
  | .deleteVaultSyncTask id => [.task id]
  | .triggerVaultSyncTask id => [.task id]
  | _ => []

/-- The database in which the identifier names nothing: without its row, and without the rows that
the schema does not let stand without it. -/
def Database.without (db : Database) : PathId → Database
  | .key id => (db.deleteApiKeys [id]).2
  | .vault id => (db.deleteVaultEndpoint id).2
  | .group id => (db.deleteDestinationGroup id).2
  | .feed id => (db.deleteExternalSource id).2
  | .task id => (db.deleteVaultSyncTask id).2

/-- The row exists, and it is outside the caller's visibility: another key's resource without a
permission row for the caller, a feed of such a group, or a key that is neither the caller nor its
daughter. -/
def Hidden (caller : ApiKey) (db : Database) : PathId → Prop
  | .key id => ∃ row, db.apiKeys.find? id = some row ∧ isKeyVisible caller row = false
  | .vault id =>
      ∃ row, db.vaultEndpoints.find? id = some row ∧ row.ownerKeyId ≠ some caller.id ∧
        db.permissionOf caller.id resourceVaultEndpoint id = none
  | .group id =>
      ∃ row, db.destinationGroups.find? id = some row ∧ row.ownerKeyId ≠ some caller.id ∧
        db.permissionOf caller.id resourceDestinationGroup id = none
  | .feed id =>
      ∃ row, db.externalSources.find? id = some row ∧
        (∀ group, db.destinationGroups.find? row.destinationGroupId = some group →
          group.ownerKeyId ≠ some caller.id) ∧
        db.permissionOf caller.id resourceDestinationGroup row.destinationGroupId = none
  | .task id =>
      ∃ row, db.vaultSyncTasks.find? id = some row ∧ row.ownerKeyId ≠ some caller.id ∧
        db.permissionOf caller.id resourceSyncTask id = none

/-- The status and the body of a response; `none` when the handler does not come back. -/
def respond : Outcome AppError Reply → Option (ℕ × (String × List OwnedResource ⊕ Reply))
  | .answered reply => some (reply.status, .inr reply)
  | .refused e => some (e.status, .inl e.body)
  | .hung => none

/-- The response to a request. -/
def Request.response (fuel : ℕ) (env : Env) (caller : ApiKey) (db : Database) (request : Request) :
    Option (ℕ × (String × List OwnedResource ⊕ Reply)) :=
  respond (exec (handle fuel env caller request) db).1

/-- **The handlers that tell a hidden row from a missing one:** those that check rights on the row
they have looked up.  The key handlers look nothing up for a caller without `can_manage_keys`.  Two
kinds of request name a second row, which goes with the hidden one: a permission of the hidden key,
and a feed of the hidden group; they are told only when the second row belongs to the first. -/
def Request.reveals (caller : ApiKey) (db : Database) : Request → Prop
  | .updateApiKey _ _ => caller.canManageKeys = true
  | .deleteApiKey _ => caller.canManageKeys = true
  | .rotateApiKey _ => caller.canManageKeys = true
  | .rotateSigningSecret _ => caller.canManageKeys = true
  | .grantKeyPermission _ _ => caller.canManageKeys = true
  | .revokeKeyPermission id permissionId => caller.canManageKeys = true ∧
      (db.permissions.find? permissionId).any fun row => row.apiKeyId = id
  | .updateVaultEndpoint _ _ => True
  | .deleteVaultEndpoint _ => True
  | .updateDestinationGroup _ _ => True
  | .deleteDestinationGroup _ => True
  | .triggerDestinationGroup _ => True
  | .createFeed _ _ => True
  | .updateFeed groupId feedId _ =>
      (db.externalSources.find? feedId).any fun row => row.destinationGroupId = groupId
  | .deleteFeed groupId feedId =>
      (db.externalSources.find? feedId).any fun row => row.destinationGroupId = groupId
  | .updateVaultSyncTask _ _ => True
  | .deleteVaultSyncTask _ => True
  | .triggerVaultSyncTask _ => True
  | _ => False

section Without

variable (db : Database) (id : Uuid)

theorem find?_without_key : (db.without (.key id)).apiKeys.find? id = none := by
  simp [Database.without, Database.deleteApiKeys, Table.find?_deleteKey]

theorem find?_without_vault : (db.without (.vault id)).vaultEndpoints.find? id = none := by
  simp [Database.without, Database.deleteVaultEndpoint, Table.find?_deleteKey]

theorem find?_without_group : (db.without (.group id)).destinationGroups.find? id = none := by
  simp [Database.without, Database.deleteDestinationGroup, Table.find?_deleteKey]

theorem find?_without_feed : (db.without (.feed id)).externalSources.find? id = none := by
  simp [Database.without, Database.deleteExternalSource, Table.find?_deleteKey]

theorem find?_without_task : (db.without (.task id)).vaultSyncTasks.find? id = none := by
  simp [Database.without, Database.deleteVaultSyncTask, Table.find?_deleteKey]

/-- The permissions of a key go with it. -/
theorem permission_without_key (permissionId : Uuid) :
    (db.without (.key id)).permissions.find? permissionId =
      (db.permissions.find? permissionId).filter fun row => row.apiKeyId ≠ id := by
  simp [Database.without, Database.deleteApiKeys, Table.find?_deleteWhere]

/-- The feeds of a group go with it. -/
theorem feed_without_group (feedId : Uuid) :
    (db.without (.group id)).externalSources.find? feedId =
      (db.externalSources.find? feedId).filter fun row => row.destinationGroupId ≠ id := by
  simp [Database.without, Database.deleteDestinationGroup, Table.find?_deleteWhere]

end Without

/-! ### One statement of an undisturbed run -/

section Rules

variable {α β : Type} {s : Database}

theorem exec_findRow {ρ : Type} (table : TableName) (find : Database → Option ρ)
    (k : ρ → Handler β) :
    exec (findRow table find >>= k) s =
      match find s with
      | none => (.refused .notFound, s)
      | some row => exec (k row) s := by
  rw [findRow, bind_assoc, exec_bind, exec_query]
  cases find s with
  | none => rfl
  | some row => rfl

theorem exec_lift (r : Except AppError α) (k : α → Handler β) :
    exec (lift r >>= k) s =
      match r with
      | .error e => (.refused e, s)
      | .ok a => exec (k a) s := by
  cases r with
  | error e => rfl
  | ok a => rfl

theorem exec_findPermission (keyId id : Uuid) (resourceType : String)
    (k : Option SyncPermission → Handler β) :
    exec (findPermission keyId resourceType id >>= k) s =
      exec (k (s.permissionOf keyId resourceType id)) s := rfl

theorem exec_requireManage (caller : ApiKey) (resourceType : String) (id : Uuid)
    (k : Unit → Handler β) :
    exec (requireManage caller resourceType id >>= k) s =
      match guardResourceManage caller (s.permissionOf caller.id resourceType id) with
      | .error e => (.refused e, s)
      | .ok () => exec (k ()) s := by
  rw [requireManage, bind_assoc, exec_findPermission, exec_lift]
  cases guardResourceManage caller (s.permissionOf caller.id resourceType id) with
  | error e => rfl
  | ok u => rfl

theorem exec_deleteRows (table : TableName) (effect : Database → ℕ × Database)
    (k : ℕ → Handler β) :
    exec (deleteRows table effect >>= k) s = exec (k (effect s).1) (effect s).2 := rfl

theorem exec_createAuditLog (env : Env) (caller : ApiKey) (action : String)
    (target : Option String) (reply : β) :
    (exec (createAuditLog env caller action target >>= fun _ => pure reply) s).1 =
      if s.hasKey caller.id then .answered reply else .refused .dbError := by
  rw [exec_bind]
  cases hkey : s.hasKey caller.id with
  | true => simp [createAuditLog, insertRow, perform, exec, Database.insertAuditLog,
      Env.auditEntry, hkey, exec_pure]
  | false => simp [createAuditLog, insertRow, perform, exec, Database.insertAuditLog,
      Env.auditEntry, hkey, onDbErr]

end Rules

/-! ### Hidden rows and missing rows -/

section Shapes

variable {ρ : Type} {caller : ApiKey} {table : TableName} {find : Database → Option ρ} {row : ρ}
  {db db' : Database} {resourceType : String} {id : Uuid}

/-- 403 is not 404. -/
theorem respond_ne {o o' : Outcome AppError Reply} (h : ∃ msg, o = .refused (.forbidden msg))
    (h' : o' = .refused .notFound) : respond o ≠ respond o' := by
  obtain ⟨msg, rfl⟩ := h
  rw [h']
  simp [respond, AppError.status]

theorem exec_missing {k : ρ → Handler Reply} (hmissing : find db' = none) :
    (exec (findRow table find >>= k) db').1 = .refused .notFound := by
  rw [exec_findRow, hmissing]

/-- A row whose configuration is to be changed. -/
theorem reveals_of_manage {k : ρ → Unit → Handler Reply} (hmaster : caller.isMaster = false)
    (hrow : find db = some row) (hmissing : find db' = none)
    (hpermission : db.permissionOf caller.id resourceType id = none) :
    respond (exec (findRow table find >>= fun row =>
        requireManage caller resourceType id >>= k row) db).1 ≠
      respond (exec (findRow table find >>= fun row =>
        requireManage caller resourceType id >>= k row) db').1 := by
  refine respond_ne ?_ (exec_missing hmissing)
  simp [exec_findRow, hrow, exec_requireManage, hpermission, guardResourceManage, hmaster]

/-- A row that is to be deleted. -/
theorem reveals_of_lifecycle {k : ρ → Unit → Handler Reply} (owner : ρ → Option Uuid)
    (hmaster : caller.isMaster = false) (hrow : find db = some row) (hmissing : find db' = none)
    (howner : owner row ≠ some caller.id) :
    respond (exec (findRow table find >>= fun row =>
        lift (guardResourceLifecycle caller (owner row)) >>= k row) db).1 ≠
      respond (exec (findRow table find >>= fun row =>
        lift (guardResourceLifecycle caller (owner row)) >>= k row) db').1 := by
  refine respond_ne ?_ (exec_missing hmissing)
  simp [exec_findRow, hrow, exec_lift, guardResourceLifecycle, hmaster, howner]

/-- A row whose job is to be run. -/
theorem reveals_of_sync {k : ρ → Unit → Handler Reply} (hmaster : caller.isMaster = false)
    (hrow : find db = some row) (hmissing : find db' = none)
    (hpermission : db.permissionOf caller.id resourceType id = none) :
    respond (exec (findRow table find >>= fun row =>
        findPermission caller.id resourceType id >>= fun permission =>
          lift (guardCanSync caller permission) >>= k row) db).1 ≠
      respond (exec (findRow table find >>= fun row =>
        findPermission caller.id resourceType id >>= fun permission =>
          lift (guardCanSync caller permission) >>= k row) db').1 := by
  refine respond_ne ?_ (exec_missing hmissing)
  simp [exec_findRow, hrow, exec_findPermission, hpermission, exec_lift, guardCanSync, hmaster]

/-- A row that is to be read. -/
theorem silent_of_visible {k : ρ → Handler Reply} (find : Database → Option ρ) (rowId : ρ → Uuid)
    (owner : ρ → Option Uuid) (hmaster : caller.isMaster = false) (hrow : find db = some row)
    (hmissing : find db' = none)
    (howner : owner row ≠ some caller.id)
    (hpermission : db.permissionOf caller.id resourceType (rowId row) = none) :
    respond (exec (findRow table find >>= fun row =>
        isVisible caller resourceType (rowId row) (owner row) >>= fun visible =>
          lift (require visible .notFound) >>= fun _ => k row) db).1 =
      respond (exec (findRow table find >>= fun row =>
        isVisible caller resourceType (rowId row) (owner row) >>= fun visible =>
          lift (require visible .notFound) >>= fun _ => k row) db').1 := by
  rw [exec_missing hmissing, exec_findRow, hrow]
  simp [isVisible, hmaster, howner, exec_findPermission, hpermission, exec_lift, require]

end Shapes

section Keys

variable {caller : ApiKey} {db : Database} {id : Uuid} {row : ApiKey}

/-- Who sees a key: itself, its parent, and the Master. -/
theorem isKeyVisible_eq_false (h : isKeyVisible caller row = false) :
    row.id ≠ caller.id ∧ canAdminister caller row = false := by
  simp only [isKeyVisible, Bool.or_eq_false_iff, beq_eq_false_iff_ne] at h
  refine ⟨h.1.2, ?_⟩
  simp [canAdminister, h.1.1, h.2]

/-- A caller without `can_manage_keys` is refused before anything is looked up. -/
theorem guardManageKeys_error (hmaster : caller.isMaster = false)
    (hkeys : caller.canManageKeys = false) :
    guardManageKeys caller = .error (.forbidden "missing can_manage_keys") := by
  simp [guardManageKeys, hmaster, hkeys]

/-- A key that is to be changed. -/
theorem response_of_key {k : ApiKey → Handler Reply} {db' : Database}
    (hmaster : caller.isMaster = false) (hrow : db.apiKeys.find? id = some row)
    (hmissing : db'.apiKeys.find? id = none)
    (hfound : respond (exec (k row) db).1 ≠ respond (.refused .notFound)) :
    respond (exec (lift (guardManageKeys caller) >>= fun _ => findApiKey id >>= k) db).1 =
        respond (exec (lift (guardManageKeys caller) >>= fun _ => findApiKey id >>= k) db').1 ↔
      ¬caller.canManageKeys = true := by
  cases hkeys : caller.canManageKeys with
  | false => simp [exec_lift, guardManageKeys_error hmaster hkeys]
  | true =>
      have hguard : guardManageKeys caller = .ok () := guardManageKeys_ok.mpr (Or.inr hkeys)
      simp only [exec_lift, hguard, findApiKey, exec_findRow, hrow, hmissing, not_true_eq_false,
        iff_false]
      exact hfound

/-- A key whose credentials are to be rotated. -/
theorem response_of_rotation {k : Unit → Handler Reply} {db' : Database}
    (hmaster : caller.isMaster = false) (hrow : db.apiKeys.find? id = some row)
    (hmissing : db'.apiKeys.find? id = none) (hadmin : canAdminister caller row = false) :
    respond (exec (checkRotation caller id >>= k) db).1 =
        respond (exec (checkRotation caller id >>= k) db').1 ↔
      ¬caller.canManageKeys = true := by
  simp only [checkRotation, bind_assoc]
  refine response_of_key hmaster hrow hmissing ?_
  cases row.isMaster <;>
    simp [exec_lift, guardRotationAllowed, hadmin, require, noAuthority, respond, AppError.status]

/-- A handler whose refusals are not 404. -/
theorem respond_ne_notFound {p : Handler Reply} (h : Refuses (fun e => e.status ≠ 404) p) :
    respond (exec p db).1 ≠ respond (.refused .notFound) := by
  cases ho : (exec p db).1 with
  | answered reply => simp [respond]
  | hung => simp [respond]
  | refused e =>
      have hstatus := h db e ho
      simp only [respond, AppError.status, ne_eq, Option.some.injEq, Prod.mk.injEq, not_and]
      exact fun h404 => absurd h404 hstatus

theorem refuses_insertRow {table : TableName} {effect : Database → Except DbErr Database} :
    Refuses (fun e => e.status ≠ 404) (insertRow table onDbErr effect) := by
  refine refuses_perform ?_
  intro s e he
  cases heffect : effect s with
  | ok s' => simp [heffect] at he
  | error e' =>
      simp only [heffect, onDbErr, Except.error.injEq] at he
      subst he
      decide

theorem refuses_writePermission {env : Env} {payload : GrantPermissionPayload}
    {existing : Option SyncPermission} :
    Refuses (fun e => e.status ≠ 404) (writePermission env id payload existing) := by
  cases existing with
  | none => exact refuses_insertRow.bind fun _ => refuses_pure _ _
  | some old =>
      refine refuses_perform ?_
      intro s e he
      cases heffect : s.updatePermission old.id payload.apply fun _ => rfl with
      | ok out => simp [heffect] at he
      | error e' =>
          simp only [heffect, Except.error.injEq] at he
          subst he
          decide

theorem status_of_guardDelegatedGrant {permission : Option SyncPermission}
    {sync manage viewLogs : Bool} {e : AppError}
    (h : guardDelegatedGrant caller permission sync manage viewLogs = .error e) :
    e.status ≠ 404 := by
  grind [guardDelegatedGrant, guardResourceManage, AppError.status]

theorem status_of_require {holds : Bool} {error e : AppError} (herror : error.status ≠ 404)
    (h : require holds error = .error e) : e.status ≠ 404 := by
  rw [require] at h
  split at h
  · cases h
  · cases h
    exact herror

/-- A hidden key. -/
theorem Hidden.of_key (h : Hidden caller db (.key id)) :
    ∃ row, db.apiKeys.find? id = some row ∧ isKeyVisible caller row = false ∧
      (db.without (.key id)).apiKeys.find? id = none ∧ id ≠ caller.id ∧
      canAdminister caller row = false := by
  obtain ⟨row, hrow, hvisible⟩ := h
  obtain ⟨hne, hadmin⟩ := isKeyVisible_eq_false hvisible
  rw [Table.key_of_find? hrow] at hne
  exact ⟨row, hrow, hvisible, find?_without_key db id, hne, hadmin⟩

/-- A revocation of a permission that the key has is never answered 404. -/
theorem respond_revocation_ne {env : Env} {permissionId : Uuid} {permission : SyncPermission}
    (hfind : db.permissions.find? permissionId = some permission)
    (hkey : permission.apiKeyId = id) (hkeys : caller.canManageKeys = true) :
    respond (exec (Handlers.revokeKeyPermission env caller id permissionId) db).1 ≠
      respond (.refused .notFound) := by
  have hguard : guardManageKeys caller = .ok () := guardManageKeys_ok.mpr (Or.inr hkeys)
  have hcount : ((db.deletePermission permissionId).1 != 0) = true := by
    obtain ⟨hmem, hid⟩ := Table.find?_eq_some_iff.mp hfind
    have hpos : permission ∈ db.permissions.rows.filter fun r => decide (r.id = permissionId) :=
      List.mem_filter.mpr ⟨hmem, decide_eq_true hid⟩
    rw [bne_iff_ne]
    exact (List.length_pos_of_mem hpos).ne'
  simp only [Handlers.revokeKeyPermission, exec_lift, exec_findRow, exec_findPermission, hguard,
    hfind, hkey, beq_self_eq_true, require, if_true]
  cases hrevoke : guardRevocation caller
      (db.permissionOf caller.id permission.resourceType permission.resourceId) with
  | error e =>
      have hstatus : e.status ≠ 404 := by
        grind [guardRevocation, guardResourceManage, AppError.status]
      simp only [respond, AppError.status, ne_eq, Option.some.injEq, Prod.mk.injEq, not_and]
      exact fun h404 => absurd h404 hstatus
  | ok u =>
      simp only [exec_deleteRows, exec_lift, hcount, if_true, exec_createAuditLog]
      split
      · simp [respond]
      · simp [respond, AppError.status]

/-- **A revocation** looks up the permission, which goes with its key. -/
theorem response_of_revocation {env : Env} {permissionId : Uuid} (hmaster : caller.isMaster = false) :
    respond (exec (Handlers.revokeKeyPermission env caller id permissionId) db).1 =
        respond (exec (Handlers.revokeKeyPermission env caller id permissionId)
          (db.without (.key id))).1 ↔
      ¬(caller.canManageKeys = true ∧
        (db.permissions.find? permissionId).any fun row => row.apiKeyId = id) := by
  cases hkeys : caller.canManageKeys with
  | false =>
      refine iff_of_true ?_ (by simp)
      simp only [Handlers.revokeKeyPermission, exec_lift, guardManageKeys_error hmaster hkeys]
  | true =>
      have hguard : guardManageKeys caller = .ok () := guardManageKeys_ok.mpr (Or.inr hkeys)
      have hmissing : (exec (Handlers.revokeKeyPermission env caller id permissionId)
          (db.without (.key id))).1 = .refused .notFound := by
        simp only [Handlers.revokeKeyPermission, exec_lift, hguard, exec_findRow,
          permission_without_key]
        cases db.permissions.find? permissionId with
        | none => rfl
        | some row =>
            by_cases hkey : row.apiKeyId = id
            · rw [Option.filter_some, if_neg (by simp [hkey])]
            · rw [Option.filter_some, if_pos (by simp [hkey])]
              simp [hkey, require]
      rw [hmissing]
      cases hfind : db.permissions.find? permissionId with
      | none =>
          refine iff_of_true ?_ (by simp)
          simp only [Handlers.revokeKeyPermission, exec_lift, hguard, exec_findRow, hfind]
      | some permission =>
          by_cases hkey : permission.apiKeyId = id
          · refine iff_of_false (respond_revocation_ne hfind hkey hkeys) ?_
            simp [hkey]
          · refine iff_of_true ?_ (by simp [hkey])
            simp [Handlers.revokeKeyPermission, exec_lift, hguard, exec_findRow, hfind, hkey, require]

end Keys

/-! ### Feeds -/

/-- The two handlers that name a feed in its group.  The group itself is not looked up, but its feeds
go with it. -/
theorem response_of_feed {caller : ApiKey} {db : Database} {groupId feedId : Uuid} {path : PathId}
    {k : StampedExternalSource → Unit → Handler Reply} (hmaster : caller.isMaster = false)
    (hpath : path ∈ [PathId.group groupId, .feed feedId]) (hhidden : Hidden caller db path) :
    respond (exec (loadFeedInGroup groupId feedId >>= fun feed =>
          requireManage caller resourceDestinationGroup groupId >>= k feed) db).1 =
        respond (exec (loadFeedInGroup groupId feedId >>= fun feed =>
          requireManage caller resourceDestinationGroup groupId >>= k feed) (db.without path)).1 ↔
      ¬((db.externalSources.find? feedId).any fun row => row.destinationGroupId = groupId) := by
  simp only [loadFeedInGroup, bind_assoc, pure_bind]
  -- the feed of the path is there as a feed of this group, or both answers are 404
  have hthere : ∀ feed, db.externalSources.find? feedId = some feed →
      feed.destinationGroupId = groupId →
      db.permissionOf caller.id resourceDestinationGroup groupId = none ∧
        (db.without path).externalSources.find? feedId = none := by
    intro feed hfeed hgroup
    rcases List.mem_pair.mp hpath with rfl | rfl
    · obtain ⟨-, -, -, hpermission⟩ := hhidden
      refine ⟨hpermission, ?_⟩
      rw [feed_without_group, hfeed]
      simp [hgroup]
    · obtain ⟨row, hrow, -, hpermission⟩ := hhidden
      obtain rfl := Option.some.inj (hfeed.symm.trans hrow)
      exact ⟨hgroup ▸ hpermission, find?_without_feed db feedId⟩
  have hother : ∀ feed, (db.without path).externalSources.find? feedId = some feed →
      db.externalSources.find? feedId = some feed := by
    intro feed hfeed
    rcases List.mem_pair.mp hpath with rfl | rfl
    · rw [feed_without_group] at hfeed
      exact (Option.filter_eq_some_iff.mp hfeed).1
    · rw [find?_without_feed] at hfeed
      cases hfeed
  cases hfeed : db.externalSources.find? feedId with
  | none =>
      have hmissing : (db.without path).externalSources.find? feedId = none := by
        rw [Option.eq_none_iff_forall_ne_some]
        intro feed hfound
        rw [hother feed hfound] at hfeed
        cases hfeed
      refine iff_of_true ?_ (by simp)
      rw [exec_findRow, exec_findRow, hfeed, hmissing]
  | some feed =>
      simp only [Option.any_some, decide_eq_true_eq]
      by_cases hgroup : feed.destinationGroupId = groupId
      · obtain ⟨hpermission, hmissing⟩ := hthere feed hfeed hgroup
        refine iff_of_false ?_ (not_not_intro hgroup)
        refine respond_ne ?_ (exec_missing hmissing)
        simp [exec_findRow, hfeed, exec_lift, require, hgroup, exec_requireManage, hpermission,
          guardResourceManage, hmaster]
      · refine iff_of_true ?_ hgroup
        rw [exec_findRow, exec_findRow, hfeed]
        cases hfound : (db.without path).externalSources.find? feedId with
        | none => simp [exec_lift, require, hgroup]
        | some feed' =>
            obtain rfl := Option.some.inj (hfeed.symm.trans (hother feed' hfound))
            simp [exec_lift, require, hgroup]

/-- **Exactly when a response tells a hidden row from a missing one.** -/
theorem oracle_iff {fuel : ℕ} {env : Env} {caller : ApiKey} {db : Database} {request : Request}
    {path : PathId} (hmaster : caller.isMaster = false) (hpath : path ∈ request.pathIds)
    (hhidden : Hidden caller db path) :
    request.response fuel env caller db = request.response fuel env caller (db.without path) ↔
      ¬request.reveals caller db := by
  cases request with
  | getApiKey id =>
      obtain rfl := List.mem_singleton.mp hpath
      obtain ⟨row, hrow, hvisible, hmissing, -, -⟩ := hhidden.of_key
      refine iff_of_true ?_ not_false
      simp only [Request.response, handle, Handlers.getApiKey, findApiKey, exec_findRow, hrow,
        hmissing, exec_lift, require, hvisible, Bool.false_eq_true, if_false]
  | updateApiKey id payload =>
      obtain rfl := List.mem_singleton.mp hpath
      obtain ⟨row, hrow, -, hmissing, -, hadmin⟩ := hhidden.of_key
      refine response_of_key hmaster hrow hmissing ?_
      simp [exec_lift, hadmin, require, noAuthority, respond, AppError.status]
  | deleteApiKey id =>
      obtain rfl := List.mem_singleton.mp hpath
      obtain ⟨row, hrow, -, hmissing, -, hadmin⟩ := hhidden.of_key
      refine response_of_key hmaster hrow hmissing ?_
      cases row.isMaster <;>
        simp [exec_lift, hadmin, require, noAuthority, respond, AppError.status]
  | rotateApiKey id =>
      obtain rfl := List.mem_singleton.mp hpath
      obtain ⟨row, hrow, -, hmissing, -, hadmin⟩ := hhidden.of_key
      exact response_of_rotation hmaster hrow hmissing hadmin
  | rotateSigningSecret id =>
      obtain rfl := List.mem_singleton.mp hpath
      obtain ⟨row, hrow, -, hmissing, -, hadmin⟩ := hhidden.of_key
      exact response_of_rotation hmaster hrow hmissing hadmin
  | listKeyPermissions id =>
      obtain rfl := List.mem_singleton.mp hpath
      obtain ⟨row, hrow, hvisible, hmissing, -, -⟩ := hhidden.of_key
      refine iff_of_true ?_ not_false
      simp only [Request.response, handle, Handlers.listKeyPermissions, findApiKey, exec_findRow,
        hrow, hmissing, exec_lift, require, hvisible, Bool.false_eq_true, if_false]
  | grantKeyPermission id payload =>
      obtain rfl := List.mem_singleton.mp hpath
      obtain ⟨row, hrow, -, hmissing, -, -⟩ := hhidden.of_key
      refine response_of_key hmaster hrow hmissing (respond_ne_notFound ?_)
      refine (refuses_lift fun e => status_of_require (by decide)).bind fun _ => ?_
      refine (refuses_query _ _ _).bind fun _ => ?_
      refine (refuses_lift fun e => status_of_guardDelegatedGrant).bind fun _ => ?_
      refine (refuses_query _ _ _).bind fun _ => refuses_writePermission.bind fun _ => ?_
      exact refuses_insertRow.bind fun _ => refuses_pure _ _
  | revokeKeyPermission id permissionId =>
      obtain rfl := List.mem_singleton.mp hpath
      exact response_of_revocation hmaster
  | getVaultEndpoint id =>
      obtain rfl := List.mem_singleton.mp hpath
      obtain ⟨row, hrow, howner, hpermission⟩ := hhidden
      refine iff_of_true ?_ not_false
      exact silent_of_visible (fun db => db.vaultEndpoints.find? id) (fun _ => id)
        OwnedVaultEndpoint.ownerKeyId hmaster hrow (find?_without_vault db id) howner hpermission
  | updateVaultEndpoint id payload =>
      obtain rfl := List.mem_singleton.mp hpath
      obtain ⟨row, hrow, -, hpermission⟩ := hhidden
      refine iff_of_false ?_ (not_not_intro trivial)
      exact reveals_of_manage hmaster hrow (find?_without_vault db id) hpermission
  | deleteVaultEndpoint id =>
      obtain rfl := List.mem_singleton.mp hpath
      obtain ⟨row, hrow, howner, -⟩ := hhidden
      refine iff_of_false ?_ (not_not_intro trivial)
      exact reveals_of_lifecycle OwnedVaultEndpoint.ownerKeyId hmaster hrow
        (find?_without_vault db id) howner
  | getDestinationGroup id =>
      obtain rfl := List.mem_singleton.mp hpath
      obtain ⟨row, hrow, howner, hpermission⟩ := hhidden
      refine iff_of_true ?_ not_false
      rw [← Table.key_of_find? hrow] at hpermission
      simp only [Request.response, handle, Handlers.getDestinationGroup, findDestinationGroup]
      exact silent_of_visible (fun db => db.destinationGroups.find? id) (fun row => row.id)
        OwnedDestinationGroup.ownerKeyId hmaster hrow (find?_without_group db id) howner hpermission
  | updateDestinationGroup id payload =>
      obtain rfl := List.mem_singleton.mp hpath
      obtain ⟨row, hrow, -, hpermission⟩ := hhidden
      refine iff_of_false ?_ (not_not_intro trivial)
      exact reveals_of_manage hmaster hrow (find?_without_group db id) hpermission
  | deleteDestinationGroup id =>
      obtain rfl := List.mem_singleton.mp hpath
      obtain ⟨row, hrow, howner, -⟩ := hhidden
      refine iff_of_false ?_ (not_not_intro trivial)
      exact reveals_of_lifecycle OwnedDestinationGroup.ownerKeyId hmaster hrow
        (find?_without_group db id) howner
  | triggerDestinationGroup id =>
      obtain rfl := List.mem_singleton.mp hpath
      obtain ⟨row, hrow, -, hpermission⟩ := hhidden
      refine iff_of_false ?_ (not_not_intro trivial)
      exact reveals_of_sync hmaster hrow (find?_without_group db id) hpermission
  | createFeed groupId payload =>
      obtain rfl := List.mem_singleton.mp hpath
      obtain ⟨row, hrow, -, hpermission⟩ := hhidden
      refine iff_of_false ?_ (not_not_intro trivial)
      exact reveals_of_manage hmaster hrow (find?_without_group db groupId) hpermission
  | updateFeed groupId feedId payload => exact response_of_feed hmaster hpath hhidden
  | deleteFeed groupId feedId => exact response_of_feed hmaster hpath hhidden
  | getVaultSyncTask id =>
      obtain rfl := List.mem_singleton.mp hpath
      obtain ⟨row, hrow, howner, hpermission⟩ := hhidden
      refine iff_of_true ?_ not_false
      rw [← Table.key_of_find? hrow] at hpermission
      simp only [Request.response, handle, Handlers.getVaultSyncTask, findVaultSyncTask]
      exact silent_of_visible (fun db => db.vaultSyncTasks.find? id) (fun row => row.id)
        OwnedVaultSyncTask.ownerKeyId hmaster hrow (find?_without_task db id) howner hpermission
  | updateVaultSyncTask id payload =>
      obtain rfl := List.mem_singleton.mp hpath
      obtain ⟨row, hrow, -, hpermission⟩ := hhidden
      refine iff_of_false ?_ (not_not_intro trivial)
      exact reveals_of_manage hmaster hrow (find?_without_task db id) hpermission
  | deleteVaultSyncTask id =>
      obtain rfl := List.mem_singleton.mp hpath
      obtain ⟨row, hrow, howner, -⟩ := hhidden
      refine iff_of_false ?_ (not_not_intro trivial)
      exact reveals_of_lifecycle OwnedVaultSyncTask.ownerKeyId hmaster hrow
        (find?_without_task db id) howner
  | triggerVaultSyncTask id =>
      obtain rfl := List.mem_singleton.mp hpath
      obtain ⟨row, hrow, -, hpermission⟩ := hhidden
      refine iff_of_false ?_ (not_not_intro trivial)
      exact reveals_of_sync hmaster hrow (find?_without_task db id) hpermission
  | _ => cases hpath

/-- Two managers (2 and 3) and a vault endpoint of the first (4). -/
def oracleCalls : List Call :=
  [.plain 1 2 (.createApiKey (.plain "owner" true true true)),
    .plain 1 3 (.createApiKey (.plain "stranger" true true true)),
    .plain 2 4 (.createVaultEndpoint ⟨"vault", "https://vault", "key", "secret", none⟩)]

/-- The stranger cannot tell from reading the endpoint that it is there, but from deleting it. -/
theorem oracle_iff_stranger :
    ∃ db caller, runEvents serve anyStep .fresh oracleCalls = some db ∧
      db.callerOf 3 = some caller ∧
      (Request.getVaultEndpoint 4).response 8 (.plain 5) caller db =
        (Request.getVaultEndpoint 4).response 8 (.plain 5) caller (db.without (.vault 4)) ∧
      (Request.deleteVaultEndpoint 4).response 8 (.plain 5) caller db ≠
        (Request.deleteVaultEndpoint 4).response 8 (.plain 5) caller (db.without (.vault 4)) := by
  have hrun : (runEvents serve anyStep .fresh oracleCalls).map (fun db =>
      ((db.callerOf 3).map fun caller =>
          (caller.isMaster, decide (some 2 ≠ some caller.id),
            db.permissionOf caller.id resourceVaultEndpoint 4),
        (db.vaultEndpoints.find? 4).map OwnedVaultEndpoint.ownerKeyId)) =
        some (some (false, true, none), some (some 2)) := by decide +kernel
  obtain ⟨db, hdb, hfacts⟩ := Option.map_eq_some_iff.mp hrun
  obtain ⟨hcaller, hrow⟩ := Prod.mk.inj hfacts
  obtain ⟨caller, hcaller, hflags⟩ := Option.map_eq_some_iff.mp hcaller
  obtain ⟨hmaster, hrest⟩ := Prod.mk.inj hflags
  obtain ⟨hother, hpermission⟩ := Prod.mk.inj hrest
  obtain ⟨row, hrow, howner⟩ := Option.map_eq_some_iff.mp hrow
  have hhidden : Hidden caller db (.vault 4) :=
    ⟨row, hrow, howner ▸ of_decide_eq_true hother, hpermission⟩
  refine ⟨db, caller, hdb, hcaller, ?_, ?_⟩
  · exact (oracle_iff hmaster List.mem_cons_self hhidden).mpr not_false
  · exact mt (oracle_iff hmaster List.mem_cons_self hhidden).mp (not_not_intro trivial)

/-- The stranger's `DELETE` is answered 403 for the endpoint that it cannot see, and 404 for one
that does not exist. -/
theorem hidden_endpoint_revealed :
    ∃ db caller, runEvents serve anyStep .fresh oracleCalls = some db ∧
      db.callerOf 3 = some caller ∧ caller.isMaster = false ∧ Hidden caller db (.vault 4) ∧
      ((Request.deleteVaultEndpoint 4).response 8 (.plain 5) caller db).map Prod.fst = some 403 ∧
      ((Request.deleteVaultEndpoint 4).response 8 (.plain 5) caller
        (db.without (.vault 4))).map Prod.fst = some 404 := by
  have hrun : (runEvents serve anyStep .fresh oracleCalls).map (fun db =>
      ((db.callerOf 3).map fun caller =>
          decide (caller.isMaster = false ∧ some 2 ≠ some caller.id ∧
            db.permissionOf caller.id resourceVaultEndpoint 4 = none ∧
            ((Request.deleteVaultEndpoint 4).response 8 (.plain 5) caller db).map Prod.fst =
              some 403 ∧
            ((Request.deleteVaultEndpoint 4).response 8 (.plain 5) caller
              (db.without (.vault 4))).map Prod.fst = some 404),
        (db.vaultEndpoints.find? 4).map OwnedVaultEndpoint.ownerKeyId)) =
        some (some true, some (some 2)) := by decide +kernel
  obtain ⟨db, hdb, hfacts⟩ := Option.map_eq_some_iff.mp hrun
  obtain ⟨hcaller, hrow⟩ := Prod.mk.inj hfacts
  obtain ⟨caller, hcaller, hflags⟩ := Option.map_eq_some_iff.mp hcaller
  obtain ⟨hmaster, hother, hpermission, hthere, hgone⟩ := of_decide_eq_true hflags
  obtain ⟨row, hrow, howner⟩ := Option.map_eq_some_iff.mp hrow
  exact ⟨db, caller, hdb, hcaller, hmaster, ⟨row, hrow, howner ▸ hother, hpermission⟩, hthere,
    hgone⟩

end SimplyIpSync.Api
