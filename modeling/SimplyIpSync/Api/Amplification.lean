import SimplyIpSync.Api.Rights

/-!
# What callers other than the Master cannot gain (`RBAC_MODEL.md`, R1, R4 and R7)

Global rights: no sequence of calls by keys other than the Master adds a right to a key, makes a key
Master, or touches the Master row (`global_rights_need_the_master`).

Verbs on resources: every verb that such a call adds is held by the creator of a resource on this
resource, or was granted by a caller that held it; so the verbs that are out among the keys other
than the Master never become more by granting (`access_is_not_amplified`).
-/

namespace SimplyIpSync.Api

open SimplyIpSync.Entities SimplyIpSync.Storage SimplyIpSync.Program SimplyIpSync.Reach

/-- The call is made by a key other than the Master. -/
def ByNonMaster (db : Database) (call : Call) : Prop :=
  ∃ caller, db.callerOf call.callerId = some caller ∧ caller.isMaster = false

instance (db : Database) (call : Call) : Decidable (ByNonMaster db call) :=
  decidable_of_iff ((db.callerOf call.callerId).any fun caller => !caller.isMaster) (by
    cases h : db.callerOf call.callerId <;> simp [ByNonMaster, h])

section GlobalRights

variable {fuel : ℕ} {env : Env} {caller : ApiKey} {db db₁ : Database} {request : Request}

/-- A key other than the Master administers its own daughters only. -/
theorem parent_of_canAdminister {target : ApiKey} (hmaster : caller.isMaster = false)
    (h : canAdminister caller target = true) : target.parentKeyId = some caller.id := by
  simp only [canAdminister, hmaster, Bool.false_or, Bool.and_eq_true, beq_iff_eq] at h
  exact h.2

/-- **One step**, for the rights. -/
theorem KeyChange.hasRight (h : KeyChange fuel env caller db db₁) (hmaster : caller.isMaster = false)
    {id : Uuid} {right : Right} (hright : HasRight db₁ id right) : HasRight db id right := by
  obtain ⟨key, hkey, hhas⟩ := hright
  cases h with
  | kept hkeys => exact ⟨key, by rw [← hkeys]; exact hkey, hhas⟩
  | added new _ _ hscope hinsert =>
      rw [Table.find?_insert? hinsert] at hkey
      split at hkey
      · obtain rfl := Option.some.inj hkey
        -- the scope check let none of the three rights pass
        rcases guardScopeElevation_ok.mp hscope with hcaller | ⟨hkeys, hsources, hvaults⟩
        · rw [hmaster] at hcaller
          cases hcaller
        · cases right with
          | manageKeys => exact absurd hhas (by simp [ApiKey.has, hkeys])
          | manageSources => exact absurd hhas (by simp [ApiKey.has, hsources])
          | manageVaults => exact absurd hhas (by simp [ApiKey.has, hvaults])
      · exact ⟨key, hkey, hhas⟩
  | rewritten j target f hf htarget _ _ hrights hmodify =>
      rw [hmodify] at hkey
      by_cases hid : id = j
      · subst hid
        rw [Table.find?_modify_self, htarget] at hkey
        obtain rfl := Option.some.inj hkey
        rcases hrights right hhas with hold | hcaller
        · exact ⟨target, htarget, hold⟩
        · rw [hmaster] at hcaller
          cases hcaller
      · rw [Table.find?_modify_of_ne _ _ _ hid] at hkey
        exact ⟨key, hkey, hhas⟩
  | removed target subtree _ _ _ _ hdelete =>
      rw [hdelete, Table.find?_deleteWhere, Option.filter_eq_some_iff] at hkey
      exact ⟨key, hkey.1, hhas⟩

/-- **One step**, for the Master row. -/
theorem KeyChange.mem_master_iff (h : KeyChange fuel env caller db db₁) (hrooted : Rooted db)
    (hmaster : caller.isMaster = false) {key : ApiKey} (hkey : key.isMaster = true) :
    key ∈ db₁.apiKeys.rows ↔ key ∈ db.apiKeys.rows := by
  obtain ⟨master, hmem, hflag, hparent, hsole⟩ := hrooted
  cases h with
  | kept hkeys => rw [hkeys]
  | added new hnew _ _ hinsert =>
      rw [Table.mem_insert? hinsert, or_iff_left_iff_imp]
      rintro rfl
      rw [hnew] at hkey
      cases hkey
  | rewritten id target f hf htarget hadmin hkept _ hmodify =>
      obtain ⟨htargetmem, htargetid⟩ := Table.find?_eq_some_iff.mp htarget
      have htargetflag : target.isMaster = false := by
        cases htargetflag : target.isMaster with
        | false => rfl
        | true =>
            rw [hsole target htargetmem htargetflag] at hadmin
            rw [parent_of_canAdminister hmaster hadmin] at hparent
            cases hparent
      have hrow : ∀ r ∈ db.apiKeys.rows, r.id = id → r = target := by
        intro r hr hid
        exact Option.some.inj ((Table.find?_eq_some_iff.mpr ⟨hr, hid⟩).symm.trans htarget)
      rw [hmodify]
      constructor
      · intro hin
        obtain ⟨r, hr, rfl⟩ := List.mem_map.mp hin
        by_cases hid : r.id = id
        · rw [if_pos hid, hrow r hr hid, hkept.1, htargetflag] at hkey
          cases hkey
        · rw [if_neg hid]
          exact hr
      · intro hin
        refine List.mem_map.mpr ⟨key, hin, if_neg ?_⟩
        intro hid
        rw [hrow key hin hid, htargetflag] at hkey
        cases hkey
  | removed target subtree htarget htargetflag _ hsubtree hdelete =>
      rw [hdelete, Table.mem_deleteWhere, and_iff_left_iff_imp]
      intro hin
      obtain rfl := hsole key hin hkey
      have hne : target ≠ key := by
        rintro rfl
        rw [hkey] at htargetflag
        cases htargetflag
      exact decide_eq_false (not_mem_subtree htarget hne hsubtree hin hparent)

end GlobalRights

/-- **R4.**  Along every sequence of calls by keys other than the Master, from every reachable state,
no key gains a global right, no key becomes Master, and the Master row stays as it is. -/
theorem global_rights_need_the_master {env : Env} {plaintextKey envelope : String}
    {db db' : Database} (hreach : Reaches serve anyStep (env.bootstrapped plaintextKey envelope) db)
    (hcalls : Reaches serve ByNonMaster db db') :
    (∀ id right, HasRight db' id right → HasRight db id right) ∧
      ∀ key : ApiKey, key.isMaster = true → (key ∈ db'.apiKeys.rows ↔ key ∈ db.apiKeys.rows) := by
  have hrooted := rooted_of_reaches (rooted_bootstrapped env plaintextKey envelope) hreach
  suffices hinv : Rooted db' ∧ (∀ id right, HasRight db' id right → HasRight db id right) ∧
      ∀ key : ApiKey, key.isMaster = true → (key ∈ db'.apiKeys.rows ↔ key ∈ db.apiKeys.rows) from
    hinv.2
  refine hcalls.invariant
    (P := fun s => Rooted s ∧ (∀ id right, HasRight s id right → HasRight db id right) ∧
      ∀ key : ApiKey, key.isMaster = true → (key ∈ s.apiKeys.rows ↔ key ∈ db.apiKeys.rows))
    ⟨hrooted, fun _ _ h => h, fun _ _ => Iff.rfl⟩ ?_
  intro s call s' ⟨hs, hrights, hmasters⟩ hcall hserve
  obtain ⟨caller, hcaller, hleaves⟩ := leaves_of_serve hserve
  obtain ⟨caller', hcaller', hmaster⟩ := hcall
  obtain rfl := Option.some.inj (hcaller.symm.trans hcaller')
  refine ⟨hleaves.rooted hs, ?_, ?_⟩
  · intro id right hright
    rcases hleaves.apiKeys with hkept | ⟨s₁, hchange, hkeys⟩
    · rw [HasRight, hkept] at hright
      exact hrights id right hright
    · rw [HasRight, hkeys] at hright
      exact hrights id right (hchange.keyChange.hasRight hmaster hright)
  · intro key hkey
    rcases hleaves.apiKeys with hkept | ⟨s₁, hchange, hkeys⟩
    · rw [hkept]
      exact hmasters key hkey
    · rw [hkeys, hchange.keyChange.mem_master_iff hs hmaster hkey]
      exact hmasters key hkey

/-- A manager, made by the Master, makes a daughter. -/
theorem global_rights_need_the_master_daughter :
    ∃ db db',
      runEvents serve anyStep .fresh
        [.plain 1 2 (.createApiKey (.plain "manager" true true true))] = some db ∧
      runEvents serve ByNonMaster db
        [.plain 2 3 (.createApiKey (.plain "daughter" false false false))] = some db' ∧
      (∀ id right, HasRight db' id right → HasRight db id right) ∧
        ∀ key : ApiKey, key.isMaster = true →
          (key ∈ db'.apiKeys.rows ↔ key ∈ db.apiKeys.rows) := by
  have hruns : ((runEvents serve anyStep .fresh
      [.plain 1 2 (.createApiKey (.plain "manager" true true true))]).bind fun db =>
        runEvents serve ByNonMaster db
          [.plain 2 3 (.createApiKey (.plain "daughter" false false false))]).isSome := by
    decide +kernel
  obtain ⟨db', hruns⟩ := Option.isSome_iff_exists.mp hruns
  obtain ⟨db, hdb, hdb'⟩ := Option.bind_eq_some_iff.mp hruns
  exact ⟨db, db', hdb, hdb', global_rights_need_the_master (reaches_of_runEvents hdb)
    (reaches_of_runEvents hdb')⟩

/-! ### Verbs on resources -/

/-- The owner column of a resource; `none` when the resource does not exist. -/
def Database.ownerOf (db : Database) (resource : Resource) : Option (Option Uuid) :=
  if resource.resourceType = resourceVaultEndpoint then
    (db.vaultEndpoints.find? resource.id).map OwnedVaultEndpoint.ownerKeyId
  else if resource.resourceType = resourceDestinationGroup then
    (db.destinationGroups.find? resource.id).map OwnedDestinationGroup.ownerKeyId
  else if resource.resourceType = resourceSyncTask then
    (db.vaultSyncTasks.find? resource.id).map OwnedVaultSyncTask.ownerKeyId
  else none

/-- From `db` to `db'` the key has created the resource. -/
def Creates (db db' : Database) (keyId : Uuid) (resource : Resource) : Prop :=
  db.ownerOf resource = none ∧ db'.ownerOf resource = some (some keyId)

/-- The call grants the verb to the key, and its caller holds `can_manage_keys` and, on that very
resource, `can_manage` and the verb. -/
def GrantsHeld (db : Database) (call : Call) (keyId : Uuid) (resource : Resource) (verb : Verb) :
    Prop :=
  ∃ caller payload, db.callerOf call.callerId = some caller ∧
    call.request = .grantKeyPermission keyId payload ∧
    payload.resourceType = resource.resourceType ∧ payload.resourceId = resource.id ∧
    payload.has verb = true ∧ caller.canManageKeys = true ∧
    Holds db caller.id resource .manage ∧ Holds db caller.id resource verb

/-- Some key other than the Master holds the verb on the resource. -/
def HeldByNonMaster (db : Database) (resource : Resource) (verb : Verb) : Prop :=
  ∃ key ∈ db.apiKeys.rows, key.isMaster = false ∧ Holds db key.id resource verb

/-- The call is a grant by a key other than the Master. -/
def GrantByNonMaster (db : Database) (call : Call) : Prop :=
  ByNonMaster db call ∧ ∃ id payload, call.request = .grantKeyPermission id payload

section Verbs

variable {fuel : ℕ} {env : Env} {caller : ApiKey} {db db₁ db₂ s : Database} {request : Request}

theorem Quiet.ownerOf (h : Quiet db s) (resource : Resource) :
    s.ownerOf resource = db.ownerOf resource := by
  have hgroup := congrArg (Option.map OwnedDestinationGroup.ownerKeyId)
    (h.destinationGroups resource.id)
  have htask := congrArg (Option.map OwnedVaultSyncTask.ownerKeyId) (h.vaultSyncTasks resource.id)
  simp only [Option.map_map] at hgroup htask
  rw [Database.ownerOf, Database.ownerOf, h.vaultEndpoints]
  exact if_congr Iff.rfl rfl (if_congr Iff.rfl hgroup (if_congr Iff.rfl htask rfl))

/-- A caller that passes `guard_delegated_grant` holds what it grants. -/
theorem holds_of_delegated {payload : GrantPermissionPayload} {verb : Verb}
    (hmaster : caller.isMaster = false)
    (hgrant : guardDelegatedGrant caller
      (db.permissionOf caller.id payload.resourceType payload.resourceId) payload.canSync
      payload.canManage payload.canViewLogs = .ok ())
    (hverb : payload.has verb = true) :
    caller.canManageKeys = true ∧
      Holds db caller.id ⟨payload.resourceType, payload.resourceId⟩ .manage ∧
      Holds db caller.id ⟨payload.resourceType, payload.resourceId⟩ verb := by
  rcases guardDelegatedGrant_ok.mp hgrant with hcaller | ⟨hkeys, p, hp, hmanage, hsync, hlogs⟩
  · rw [hmaster] at hcaller
    cases hcaller
  · refine ⟨hkeys, holds_of_permissionOf hp hmanage, holds_of_permissionOf hp ?_⟩
    cases verb with
    | sync => exact hsync hverb
    | manage => exact hmanage
    | viewLogs => exact hlogs hverb

/-- **The row write** of a call adds a verb only as a grant that has it. -/
theorem Change.granted (h : Change fuel env caller db request db₁) {keyId : Uuid}
    {resource : Resource} {verb : Verb} (hholds : Holds db₁ keyId resource verb) :
    Holds db keyId resource verb ∨
      ∃ payload, request = .grantKeyPermission keyId payload ∧
        payload.resourceType = resource.resourceType ∧ payload.resourceId = resource.id ∧
        payload.has verb = true ∧
        guardDelegatedGrant caller
          (db.permissionOf caller.id payload.resourceType payload.resourceId) payload.canSync
          payload.canManage payload.canViewLogs = .ok () := by
  have hframe := h.frame
  obtain ⟨permission, hmem, hkey, hon, hverb⟩ := hholds
  cases h with
  | deleteApiKey =>
      exact Or.inl ⟨permission, (Table.mem_deleteWhere.mp hmem).1, hkey, hon, hverb⟩
  | revokeKeyPermission =>
      exact Or.inl ⟨permission, (Table.mem_deleteWhere.mp hmem).1, hkey, hon, hverb⟩
  | @regrant id payload target existing row _ hkeys htarget htype hgrant hexisting hwrite =>
      obtain ⟨old, hold, -, rfl⟩ := updatePermission_ok hwrite
      obtain ⟨r, hr, rfl⟩ := List.mem_map.mp hmem
      by_cases hid : r.id = existing.id
      · -- the overwritten row: its verbs are the payload's
        obtain rfl : r = existing :=
          List.inj_on_of_nodup_map db.permissions.nodup hr (List.mem_of_find?_eq_some hexisting)
            hid
        have hrow := List.find?_some hexisting
        simp only [decide_eq_true_eq] at hrow
        obtain ⟨hrowkey, hrowtype, hrowid⟩ := hrow
        simp only at hkey hon hverb
        have hpayload : payload.has verb = true := by cases verb <;> exact hverb
        obtain rfl : id = keyId := hrowkey.symm.trans hkey
        exact Or.inr ⟨payload, rfl, hrowtype.symm.trans hon.1, hrowid.symm.trans hon.2, hpayload,
          hgrant⟩
      · simp only [if_neg hid] at hkey hon hverb
        exact Or.inl ⟨r, hr, hkey, hon, hverb⟩
  | @grant id payload target _ hkeys htarget htype hgrant hexisting hwrite =>
      obtain ⟨rows, hinsert, rfl⟩ := insertPermission_ok hwrite
      rcases (Table.mem_insert? hinsert).mp hmem with hold | rfl
      · exact Or.inl ⟨permission, hold, hkey, hon, hverb⟩
      · have hpayload : payload.has verb = true := by cases verb <;> exact hverb
        obtain rfl : id = keyId := hkey
        exact Or.inr ⟨payload, rfl, hon.1, hon.2, hpayload, hgrant⟩
  | _ =>
      rw [hframe.permissions (by simp [Request.writes])] at hmem
      exact Or.inl ⟨permission, hmem, hkey, hon, hverb⟩

/-- A caller other than the Master holds what it adds. -/
theorem Change.holds (h : Change fuel env caller db request db₁) (hmaster : caller.isMaster = false)
    {keyId : Uuid} {resource : Resource} {verb : Verb} (hholds : Holds db₁ keyId resource verb) :
    Holds db keyId resource verb ∨
      ∃ payload, request = .grantKeyPermission keyId payload ∧
        payload.resourceType = resource.resourceType ∧ payload.resourceId = resource.id ∧
        payload.has verb = true ∧ caller.canManageKeys = true ∧
        Holds db caller.id resource .manage ∧ Holds db caller.id resource verb := by
  rcases h.granted hholds with hold | ⟨payload, hrequest, htype, hid, hpayload, hgrant⟩
  · exact Or.inl hold
  · have hresource : (⟨payload.resourceType, payload.resourceId⟩ : Resource) = resource :=
      congrArg₂ Resource.mk htype hid
    obtain ⟨hcan, hmanage, hheld⟩ := holds_of_delegated hmaster hgrant hpayload
    rw [hresource] at hmanage hheld
    exact Or.inr ⟨payload, hrequest, htype, hid, hpayload, hcan, hmanage, hheld⟩

theorem ownerOf_vault (id : Uuid) : db.ownerOf ⟨resourceVaultEndpoint, id⟩ =
    (db.vaultEndpoints.find? id).map OwnedVaultEndpoint.ownerKeyId := if_pos rfl

theorem ownerOf_group (id : Uuid) : db.ownerOf ⟨resourceDestinationGroup, id⟩ =
    (db.destinationGroups.find? id).map OwnedDestinationGroup.ownerKeyId := by
  simp [Database.ownerOf, resourceDestinationGroup, resourceVaultEndpoint]

theorem ownerOf_task (id : Uuid) : db.ownerOf ⟨resourceSyncTask, id⟩ =
    (db.vaultSyncTasks.find? id).map OwnedVaultSyncTask.ownerKeyId := by
  simp [Database.ownerOf, resourceSyncTask, resourceDestinationGroup, resourceVaultEndpoint]

/-- A request that creates a resource creates it for its caller. -/
theorem Change.creates (h : Change fuel env caller db request db₁) {resourceType : String}
    (hcreated : request.createdType = some resourceType) :
    Creates db db₁ caller.id ⟨resourceType, env.newId⟩ := by
  cases h with
  | @createVaultEndpoint payload envelope _ _ _ hwrite =>
      obtain rfl := Option.some.inj hcreated
      obtain ⟨rows, hinsert, rfl⟩ := insertVaultEndpoint_ok hwrite
      have hfree := Table.find?_eq_none_of_insert? hinsert
      have hnew := Table.find?_insert?_self hinsert
      exact ⟨(ownerOf_vault _).trans (congrArg _ hfree), (ownerOf_vault _).trans (congrArg _ hnew)⟩
  | @createDestinationGroup payload _ _ _ _ _ hwrite htargets =>
      obtain rfl := Option.some.inj hcreated
      obtain ⟨rows, hinsert, rfl⟩ := insertDestinationGroup_ok hwrite
      obtain ⟨targets, rfl⟩ := addGroupTargets_ok htargets
      have hfree := Table.find?_eq_none_of_insert? hinsert
      have hnew := Table.find?_insert?_self hinsert
      exact ⟨(ownerOf_group _).trans (congrArg _ hfree), (ownerOf_group _).trans (congrArg _ hnew)⟩
  | @createVaultSyncTask payload _ _ _ _ hwrite htargets =>
      obtain rfl := Option.some.inj hcreated
      obtain ⟨rows, hinsert, rfl⟩ := insertVaultSyncTask_ok hwrite
      obtain ⟨targets, rfl⟩ := addTaskTargets_ok htargets
      have hfree := Table.find?_eq_none_of_insert? hinsert
      have hnew := Table.find?_insert?_self hinsert
      exact ⟨(ownerOf_task _).trans (congrArg _ hfree), (ownerOf_task _).trans (congrArg _ hnew)⟩
  | _ => cases hcreated

/-- The creator's permission is about the new resource only. -/
theorem grantToCreator_holds (hchange : Change fuel env caller db request db₁)
    (hgrant : grantToCreator env caller request db₁ = .ok db₂) {keyId : Uuid} {resource : Resource}
    {verb : Verb} (hholds : Holds db₂ keyId resource verb) :
    Holds db₁ keyId resource verb ∨
      (request.createdType.isSome ∧ keyId = caller.id ∧ Creates db db₂ caller.id resource) := by
  rcases grantToCreator_ok hgrant with ⟨-, rfl⟩ | ⟨resourceType, rows, hcreated, hinsert, rfl⟩
  · exact Or.inl hholds
  · obtain ⟨permission, hmem, hkey, hon, hverb⟩ := hholds
    rcases (Table.mem_insert? hinsert).mp hmem with hold | rfl
    · exact Or.inl ⟨permission, hold, hkey, hon, hverb⟩
    · have hresource : (⟨resourceType, env.newId⟩ : Resource) = resource :=
        congrArg₂ Resource.mk hon.1 hon.2
      obtain ⟨hfree, hnew⟩ := hchange.creates hcreated
      rw [hresource] at hfree hnew
      exact Or.inr ⟨by rw [hcreated]; rfl, hkey.symm, hfree, hnew⟩

/-- **One call.**  What it adds is the creator's on a new resource, or granted by a holder. -/
theorem Leaves.holds (h : Leaves fuel env caller db request s) (hmaster : caller.isMaster = false)
    {keyId : Uuid} {resource : Resource} {verb : Verb} (hholds : Holds s keyId resource verb) :
    Holds db keyId resource verb ∨
      (request.createdType.isSome ∧ keyId = caller.id ∧ Creates db s caller.id resource) ∨
      ∃ payload, request = .grantKeyPermission keyId payload ∧
        payload.resourceType = resource.resourceType ∧ payload.resourceId = resource.id ∧
        payload.has verb = true ∧ caller.canManageKeys = true ∧
        Holds db caller.id resource .manage ∧ Holds db caller.id resource verb := by
  cases h with
  | unchanged hquiet =>
      rw [Holds, hquiet.permissions] at hholds
      exact Or.inl hholds
  | written hchange hquiet =>
      rw [Holds, hquiet.permissions] at hholds
      rcases hchange.holds hmaster hholds with hold | hgranted
      · exact Or.inl hold
      · exact Or.inr (Or.inr hgranted)
  | granted hchange hgrant hquiet =>
      rw [Holds, hquiet.permissions] at hholds
      rcases grantToCreator_holds hchange hgrant hholds with hwritten | ⟨hkind, hkey, hfree, hnew⟩
      · rcases hchange.holds hmaster hwritten with hold | hgranted
        · exact Or.inl hold
        · exact Or.inr (Or.inr hgranted)
      · exact Or.inr (Or.inl ⟨hkind, hkey, hfree, (hquiet.ownerOf resource).trans hnew⟩)

theorem hasKey_of_callerOf {id : Uuid} (h : db.callerOf id = some caller) : db.hasKey id = true := by
  obtain ⟨row, hrow, -⟩ := Option.map_eq_some_iff.mp h
  rw [Database.hasKey, hrow]
  rfl

theorem callerOf_id {id : Uuid} (h : db.callerOf id = some caller) : caller.id = id := by
  obtain ⟨row, hrow, rfl⟩ := Option.map_eq_some_iff.mp h
  rw [Master.authenticate_id]
  exact Table.key_of_find? hrow

end Verbs

/-- **R1 and R7.**  In every reachable state, whatever verb a call of a key other than the Master adds
is held by the creator of a resource on that resource, which the call has created, or was granted by
a caller that held `can_manage_keys` and, on that resource, `can_manage` and the verb.  And along
every sequence of grants by such keys, no verb on a resource appears that none of them held. -/
theorem access_is_not_amplified {env : Env} {plaintextKey envelope : String} {db : Database}
    (hreach : Reaches serve anyStep (env.bootstrapped plaintextKey envelope) db) :
    (∀ call db', ByNonMaster db call → serve db call = some db' →
        ∀ keyId resource verb, Holds db' keyId resource verb → ¬Holds db keyId resource verb →
          (keyId = call.callerId ∧ Creates db db' call.callerId resource) ∨
            GrantsHeld db call keyId resource verb) ∧
      ∀ db', Reaches serve GrantByNonMaster db db' →
        ∀ resource verb, HeldByNonMaster db' resource verb → HeldByNonMaster db resource verb := by
  have hrooted := rooted_of_reaches (rooted_bootstrapped env plaintextKey envelope) hreach
  refine ⟨?_, ?_⟩
  · intro call db' ⟨caller, hcaller, hmaster⟩ hserve keyId resource verb hholds hnew
    obtain ⟨caller', hcaller', hleaves⟩ := leaves_of_serve hserve
    obtain rfl := Option.some.inj (hcaller.symm.trans hcaller')
    have hid := callerOf_id hcaller
    rcases hleaves.holds hmaster hholds with hold | ⟨-, hcreated⟩ | ⟨payload, hgranted⟩
    · exact absurd hold hnew
    · rw [hid] at hcreated
      exact Or.inl hcreated
    · exact Or.inr ⟨caller, payload, hcaller, hgranted⟩
  · intro db' hgrants resource verb
    suffices hinv : Rooted db' ∧ (HeldByNonMaster db' resource verb →
        HeldByNonMaster db resource verb) from hinv.2
    refine hgrants.invariant
      (P := fun s => Rooted s ∧ (HeldByNonMaster s resource verb →
        HeldByNonMaster db resource verb)) ⟨hrooted, id⟩ ?_
    intro s call s' ⟨hs, hheld⟩ ⟨⟨caller, hcaller, hmaster⟩, id, payload, hrequest⟩ hserve
    obtain ⟨caller', hcaller', hleaves⟩ := leaves_of_serve hserve
    obtain rfl := Option.some.inj (hcaller.symm.trans hcaller')
    refine ⟨hleaves.rooted hs, ?_⟩
    intro ⟨key, hkey, hkeymaster, hholds⟩
    apply hheld
    have hkeys : s'.apiKeys = s.apiKeys := by
      rcases hleaves.apiKeys with hkept | ⟨s₁, hchange, hkeys⟩
      · exact hkept
      · rw [hkeys, hchange.frame.apiKeys (by simp [hrequest, Request.writes])]
    rw [hkeys] at hkey
    rcases hleaves.holds hmaster hholds with hold | ⟨hkind, -⟩ | ⟨_, -, -, -, -, -, -, hverb⟩
    · exact ⟨key, hkey, hkeymaster, hold⟩
    · -- a grant creates no resource
      rw [hrequest] at hkind
      cases hkind
    · exact ⟨caller, (Table.find?_eq_some_iff.mp (hs.callerOf hcaller)).1, hmaster, hverb⟩

/-- A manager makes a vault endpoint. -/
theorem access_is_not_amplified_manager :
    ∃ db,
      runEvents serve anyStep .fresh
        [.plain 1 2 (.createApiKey (.plain "manager" true true true)),
          .plain 2 3 (.createVaultEndpoint ⟨"vault", "https://vault", "key", "secret", none⟩)] =
        some db ∧
      (∀ call db', ByNonMaster db call → serve db call = some db' →
          ∀ keyId resource verb, Holds db' keyId resource verb → ¬Holds db keyId resource verb →
            (keyId = call.callerId ∧ Creates db db' call.callerId resource) ∨
              GrantsHeld db call keyId resource verb) ∧
        ∀ db', Reaches serve GrantByNonMaster db db' →
          ∀ resource verb, HeldByNonMaster db' resource verb → HeldByNonMaster db resource verb := by
  have hruns : (runEvents serve anyStep .fresh
      [.plain 1 2 (.createApiKey (.plain "manager" true true true)),
        .plain 2 3 (.createVaultEndpoint
          ⟨"vault", "https://vault", "key", "secret", none⟩)]).isSome := by
    decide +kernel
  obtain ⟨db, hdb⟩ := Option.isSome_iff_exists.mp hruns
  exact ⟨db, hdb, access_is_not_amplified (reaches_of_runEvents hdb)⟩

end SimplyIpSync.Api
