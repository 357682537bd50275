import SimplyIpSync.Api.Leaves

/-!
# What a statement does to the keys

`parent_key_id` is written once, by `create_api_key`, with the identifier of the caller; no other
statement moves a key to another place among the keys (`keeps_handle`).  Nothing is assumed of the
state a statement finds, so that this holds whatever other calls do in between.
-/

namespace SimplyIpSync.Api

open SimplyIpSync.Entities SimplyIpSync.Storage SimplyIpSync.Program SimplyIpSync.Program.Prog

/-- Where a key stands: its identifier, its parent, and whether it is the Master. -/
def ApiKey.place (key : ApiKey) : Uuid × Option Uuid × Bool :=
  (key.id, key.parentKeyId, key.isMaster)

/-- The statement may add the key `id` under `p`; every other key stands where one stood before. -/
def KeyStep (id p : Uuid) (db db' : Database) : Prop :=
  ∀ key ∈ db'.apiKeys.rows,
    (∃ old ∈ db.apiKeys.rows, key.place = old.place) ∨ key.place = (id, some p, false)

variable {id p : Uuid} {db db' : Database}

theorem keyStep_of_eq (h : db'.apiKeys = db.apiKeys) : KeyStep id p db db' := by
  intro key hkey
  rw [h] at hkey
  exact Or.inl ⟨key, hkey, rfl⟩

theorem keyStep_refl (db : Database) : KeyStep id p db db := keyStep_of_eq rfl

theorem keyStep_trans (db db' db'' : Database) (h : KeyStep id p db db')
    (h' : KeyStep id p db' db'') : KeyStep id p db db'' := by
  intro key hkey
  rcases h' key hkey with ⟨old, hold, hplace⟩ | hnew
  · rw [hplace]
    exact h old hold
  · exact Or.inr hnew

/-! ### The statements on keys -/

theorem KeyStep.insert {row : ApiKey} (hrow : row.place = (id, some p, false))
    (h : db.insertApiKey row = .ok db') : KeyStep id p db db' := by
  obtain ⟨rows, hinsert, rfl⟩ := insertApiKey_ok h
  intro key hkey
  rcases (Table.mem_insert? hinsert).mp hkey with hold | rfl
  · exact Or.inl ⟨key, hold, rfl⟩
  · exact Or.inr hrow

theorem KeyStep.update {k : Uuid} {f : ApiKey → ApiKey} {hf : ∀ r, (f r).id = r.id} {row : ApiKey}
    (hplace : ∀ r, (f r).place = r.place) (h : db.updateApiKey k f hf = .ok (row, db')) :
    KeyStep id p db db' := by
  obtain ⟨_, -, -, rfl⟩ := updateApiKey_ok h
  intro key hkey
  obtain ⟨old, hold, rfl⟩ := List.mem_map.mp hkey
  refine Or.inl ⟨old, hold, ?_⟩
  split
  · exact hplace old
  · rfl

theorem KeyStep.delete (db : Database) (ids : List Uuid) :
    KeyStep id p db (db.deleteApiKeys ids).2 :=
  fun key hkey => Or.inl ⟨key, (Table.mem_deleteWhere.mp hkey).1, rfl⟩

/-! ### What handlers are made of -/

theorem keeps_select {α : Type} (tag : Sql) (f : Database → α) :
    Keeps (KeyStep id p) (.query tag f : Handler α) := keeps_query keyStep_refl tag f

theorem keeps_insertRow {table : TableName} {onError : DbErr → AppError}
    {effect : Database → Except DbErr Database}
    (h : ∀ db db', effect db = .ok db' → KeyStep id p db db') :
    Keeps (KeyStep id p) (insertRow table onError effect) := by
  refine keeps_perform ?_
  intro db _ db' hperform
  cases heffect : effect db with
  | ok db₁ =>
      simp only [heffect, Except.ok.injEq, Prod.mk.injEq, true_and] at hperform
      exact hperform ▸ h db db₁ heffect
  | error e => simp [heffect] at hperform

theorem keeps_updateRow {ρ : Type} {table : TableName}
    {effect : Database → Except DbErr (ρ × Database)}
    (h : ∀ db row db', effect db = .ok (row, db') → KeyStep id p db db') :
    Keeps (KeyStep id p) (updateRow table effect) := by
  refine keeps_perform ?_
  intro db row db' hperform
  cases heffect : effect db with
  | ok out =>
      simp only [heffect, Except.ok.injEq] at hperform
      exact h db row db' (by rw [heffect, hperform])
  | error e => simp [heffect] at hperform

theorem keeps_deleteRows {table : TableName} {effect : Database → ℕ × Database}
    (h : ∀ db, KeyStep id p db (effect db).2) :
    Keeps (KeyStep id p) (deleteRows table effect) := by
  refine keeps_perform ?_
  intro db affected db' hperform
  have heffect : effect db = (affected, db') := Except.ok.inj hperform
  have hstep := h db
  rwa [heffect] at hstep

variable {env : Env} {caller : ApiKey}

theorem keeps_createAuditLog (action : String) (target : Option String) :
    Keeps (KeyStep id p) (createAuditLog env caller action target) := by
  refine keeps_insertRow ?_
  intro db db' h
  rw [insertAuditLog_ok h]
  exact keyStep_of_eq rfl

theorem keeps_insertPermission (row : SyncPermission) :
    Keeps (KeyStep id p) (insertRow .permissions onDbErr fun db => db.insertPermission row) := by
  refine keeps_insertRow ?_
  intro db db' h
  obtain ⟨_, -, rfl⟩ := insertPermission_ok h
  exact keyStep_of_eq rfl

theorem keeps_requireManage (resourceType : String) (resourceId : Uuid) :
    Keeps (KeyStep id p) (requireManage caller resourceType resourceId) :=
  (keeps_select _ _).bind fun _ => keeps_lift _

theorem keeps_insertTargets {table : TableName}
    {insert : TargetSpec → Database → Except DbErr Database}
    (h : ∀ target db db', insert target db = .ok db' → KeyStep id p db db')
    (targets : List TargetSpec) : Keeps (KeyStep id p) (insertTargets table insert targets) := by
  induction targets with
  | nil => exact keeps_pure ()
  | cons target rest ih => exact (keeps_insertRow (h target)).bind fun _ => ih

theorem keeps_insertGroupTargetRows (groupId : Uuid) (targets : List TargetSpec) :
    Keeps (KeyStep id p) (insertGroupTargetRows groupId targets) := by
  refine keeps_insertTargets ?_ targets
  intro target db db' h
  obtain ⟨_, rfl⟩ := insertGroupTarget_ok h
  exact keyStep_of_eq rfl

theorem keeps_insertTaskTargetRows (taskId : Uuid) (targets : List TargetSpec) :
    Keeps (KeyStep id p) (insertTaskTargetRows taskId targets) := by
  refine keeps_insertTargets ?_ targets
  intro target db db' h
  obtain ⟨_, rfl⟩ := insertTaskTarget_ok h
  exact keyStep_of_eq rfl

theorem keeps_deleteResource {table : TableName} {effect : Database → ℕ × Database}
    {action name : String} (h : ∀ db, (effect db).2.apiKeys = db.apiKeys) :
    Keeps (KeyStep id p) (deleteResource env caller table effect action name) :=
  (keeps_deleteRows fun db => keyStep_of_eq (h db)).bind fun _ =>
    (keeps_lift _).bind fun _ => (keeps_createAuditLog _ _).bind fun _ => keeps_pure _

theorem keeps_triggerJob {jobId : Uuid} {table : TableName}
    {stamp : ℤ → Database → Except DbErr (Unit × Database)} {busy action name : String}
    (h : ∀ startedAt db db', stamp startedAt db = .ok ((), db') → db'.apiKeys = db.apiKeys) :
    Keeps (KeyStep id p) (triggerJob env caller jobId table stamp busy action name) := by
  refine (keeps_lift _).bind fun _ => (keeps_createAuditLog _ _).bind fun _ => ?_
  refine Keeps.bind (keeps_perform ?_) fun run => ?_
  · intro db run db' hrun
    cases hjob : env.runJob jobId db with
    | error e => simp [hjob] at hrun
    | ok run' =>
        simp only [hjob, Except.ok.injEq, Prod.mk.injEq] at hrun
        exact hrun.2 ▸ keyStep_refl db
  · refine Keeps.bind (keeps_insertRow ?_) fun _ => ?_
    · intro db db' hlog
      rw [← Except.ok.inj hlog]
      exact keyStep_of_eq rfl
    · cases run.stamp with
      | none => exact keeps_pure _
      | some startedAt =>
          refine Keeps.bind (keeps_updateRow ?_) fun _ => keeps_pure _
          intro db _ db' hstamp
          exact keyStep_of_eq (h startedAt db db' hstamp)

/-! ### Keys -/

theorem keeps_createApiKey (payload : CreateApiKeyPayload) :
    Keeps (KeyStep env.newId caller.id) (Handlers.createApiKey env caller payload) := by
  refine (keeps_lift _).bind fun _ => (keeps_lift _).bind fun _ => (keeps_lift _).bind fun _ => ?_
  refine Keeps.bind (keeps_insertRow fun _ _ => KeyStep.insert rfl) fun _ => ?_
  exact (keeps_createAuditLog _ _).bind fun _ => keeps_pure _

theorem keeps_updateApiKey (k : Uuid) (payload : UpdateApiKeyPayload) :
    Keeps (KeyStep id p) (Handlers.updateApiKey env caller k payload) := by
  refine (keeps_lift _).bind fun _ => (keeps_findRow keyStep_refl _ _).bind fun _ => ?_
  refine (keeps_lift _).bind fun _ => (keeps_lift _).bind fun _ => (keeps_lift _).bind fun _ => ?_
  refine Keeps.bind (keeps_updateRow fun _ _ _ => KeyStep.update fun _ => rfl) fun _ => ?_
  exact (keeps_createAuditLog _ _).bind fun _ => keeps_pure _

theorem keeps_checkRotation (k : Uuid) : Keeps (KeyStep id p) (checkRotation caller k) :=
  (keeps_lift _).bind fun _ => (keeps_findRow keyStep_refl _ _).bind fun _ =>
    (keeps_lift _).bind fun _ => keeps_lift _

theorem keeps_rotate {k : Uuid} {f : ApiKey → ApiKey} {hf : ∀ r, (f r).id = r.id} {action : String}
    (hplace : ∀ r, (f r).place = r.place) :
    Keeps (KeyStep id p) (rotate env caller k f hf action) :=
  Keeps.bind (keeps_updateRow fun _ _ _ => KeyStep.update hplace) fun _ =>
    keeps_createAuditLog _ _

theorem keeps_rotateApiKey (k : Uuid) :
    Keeps (KeyStep id p) (Handlers.rotateApiKey env caller k) :=
  (keeps_checkRotation k).bind fun _ =>
    Keeps.bind (keeps_rotate fun _ => rfl) fun _ => keeps_pure _

theorem keeps_rotateSigningSecret (k : Uuid) :
    Keeps (KeyStep id p) (Handlers.rotateSigningSecret env caller k) :=
  (keeps_checkRotation k).bind fun _ => (keeps_lift _).bind fun _ =>
    Keeps.bind (keeps_rotate fun _ => rfl) fun _ => keeps_pure _

theorem keeps_walkSubtree (fuel : ℕ) (frontier : List Uuid) (result : List ApiKey) :
    Keeps (KeyStep id p) (walkSubtree fuel frontier result) := by
  induction fuel generalizing frontier result with
  | zero =>
      cases frontier with
      | nil => exact keeps_pure result
      | cons _ _ => trivial
  | succ fuel ih =>
      cases frontier with
      | nil => exact keeps_pure result
      | cons _ _ => exact (keeps_select _ _).bind fun _ => ih _ _

theorem keeps_deleteApiKey (fuel : ℕ) (k : Uuid) :
    Keeps (KeyStep id p) (Handlers.deleteApiKey fuel env caller k) := by
  refine (keeps_lift _).bind fun _ => (keeps_findRow keyStep_refl _ _).bind fun _ => ?_
  refine (keeps_lift _).bind fun _ => (keeps_lift _).bind fun _ => ?_
  refine (keeps_walkSubtree _ _ _).bind fun subtree => ?_
  refine Keeps.bind ?_ fun _ => (keeps_lift _).bind fun _ => ?_
  · exact (keeps_select _ _).bind fun _ => (keeps_select _ _).bind fun _ =>
      (keeps_select _ _).bind fun _ => keeps_pure _
  · refine (keeps_deleteRows fun db => KeyStep.delete db _).bind fun _ => ?_
    exact (keeps_lift _).bind fun _ => (keeps_createAuditLog _ _).bind fun _ => keeps_pure _

/-! ### Permissions -/

theorem keeps_grantKeyPermission (k : Uuid) (payload : GrantPermissionPayload) :
    Keeps (KeyStep id p) (Handlers.grantKeyPermission env caller k payload) := by
  refine (keeps_lift _).bind fun _ => (keeps_findRow keyStep_refl _ _).bind fun target => ?_
  refine (keeps_lift _).bind fun _ => (keeps_select _ _).bind fun _ => ?_
  refine (keeps_lift _).bind fun _ => (keeps_select _ _).bind fun existing => ?_
  refine Keeps.bind ?_ fun _ => (keeps_createAuditLog _ _).bind fun _ => keeps_pure _
  cases existing with
  | none => exact (keeps_insertPermission _).bind fun _ => keeps_pure _
  | some existing =>
      refine keeps_updateRow ?_
      intro db row db' h
      obtain ⟨_, -, -, rfl⟩ := updatePermission_ok h
      exact keyStep_of_eq rfl

theorem keeps_revokeKeyPermission (k permissionId : Uuid) :
    Keeps (KeyStep id p) (Handlers.revokeKeyPermission env caller k permissionId) := by
  refine (keeps_lift _).bind fun _ => (keeps_findRow keyStep_refl _ _).bind fun _ => ?_
  refine (keeps_lift _).bind fun _ => (keeps_select _ _).bind fun _ => ?_
  refine (keeps_lift _).bind fun _ => ?_
  refine (keeps_deleteRows fun db => keyStep_of_eq rfl).bind fun _ => ?_
  exact (keeps_lift _).bind fun _ => (keeps_createAuditLog _ _).bind fun _ => keeps_pure _

/-! ### Resources -/

theorem keeps_createVaultEndpoint (payload : CreateVaultEndpointPayload) :
    Keeps (KeyStep id p) (Handlers.createVaultEndpoint env caller payload) := by
  refine (keeps_lift _).bind fun _ => (keeps_lift _).bind fun envelope => ?_
  refine Keeps.bind (keeps_insertRow ?_) fun _ => ?_
  · intro db db' h
    obtain ⟨_, -, rfl⟩ := insertVaultEndpoint_ok h
    exact keyStep_of_eq rfl
  · exact (keeps_insertPermission _).bind fun _ =>
      (keeps_createAuditLog _ _).bind fun _ => keeps_pure _

theorem keeps_updateVaultEndpoint (k : Uuid) (payload : DescribedVaultEndpointPayload) :
    Keeps (KeyStep id p) (Handlers.updateVaultEndpoint env caller k payload) := by
  refine (keeps_findRow keyStep_refl _ _).bind fun _ => (keeps_requireManage _ _).bind fun _ => ?_
  refine (keeps_lift _).bind fun envelope => Keeps.bind (keeps_updateRow ?_) fun _ => ?_
  · intro db row db' h
    obtain ⟨_, -, -, rfl⟩ := updateVaultEndpoint_ok h
    exact keyStep_of_eq rfl
  · exact (keeps_createAuditLog _ _).bind fun _ => keeps_pure _

theorem keeps_deleteVaultEndpoint (k : Uuid) :
    Keeps (KeyStep id p) (Handlers.deleteVaultEndpoint env caller k) :=
  (keeps_findRow keyStep_refl _ _).bind fun _ => (keeps_lift _).bind fun _ =>
    keeps_deleteResource fun _ => rfl

theorem keeps_createDestinationGroup (payload : CreateDestinationGroupPayload) :
    Keeps (KeyStep id p) (Handlers.createDestinationGroup env caller payload) := by
  refine (keeps_lift _).bind fun _ => (keeps_lift _).bind fun _ => (keeps_lift _).bind fun _ => ?_
  refine Keeps.bind (keeps_transaction keyStep_refl keyStep_trans ?_) fun _ => keeps_pure _
  refine Keeps.bind (keeps_insertRow ?_) fun _ => ?_
  · intro db db' h
    obtain ⟨_, -, rfl⟩ := insertDestinationGroup_ok h
    exact keyStep_of_eq rfl
  · exact (keeps_insertGroupTargetRows _ _).bind fun _ => (keeps_insertPermission _).bind fun _ =>
      keeps_createAuditLog _ _

theorem keeps_replaceGroupTargets (groupId : Uuid) (targets : Option (List TargetSpec)) :
    Keeps (KeyStep id p) (replaceGroupTargets groupId targets) := by
  cases targets with
  | none => exact keeps_pure ()
  | some targets =>
      exact (keeps_deleteRows fun db => keyStep_of_eq rfl).bind fun _ =>
        keeps_insertGroupTargetRows _ _

theorem keeps_updateDestinationGroup (k : Uuid) (payload : UpdateDestinationGroupPayload) :
    Keeps (KeyStep id p) (Handlers.updateDestinationGroup env caller k payload) := by
  refine (keeps_findRow keyStep_refl _ _).bind fun _ => (keeps_requireManage _ _).bind fun _ => ?_
  refine (keeps_lift _).bind fun _ => (keeps_lift _).bind fun _ => ?_
  refine Keeps.bind (keeps_transaction keyStep_refl keyStep_trans ?_) fun _ => ?_
  · refine Keeps.bind (keeps_updateRow ?_) fun _ => ?_
    · intro db row db' h
      obtain ⟨_, -, -, rfl⟩ := updateDestinationGroup_ok h
      exact keyStep_of_eq rfl
    · exact (keeps_replaceGroupTargets _ _).bind fun _ =>
        (keeps_createAuditLog _ _).bind fun _ => keeps_pure _
  · exact (keeps_select _ _).bind fun _ => (keeps_select _ _).bind fun _ => keeps_pure _

theorem keeps_deleteDestinationGroup (k : Uuid) :
    Keeps (KeyStep id p) (Handlers.deleteDestinationGroup env caller k) :=
  (keeps_findRow keyStep_refl _ _).bind fun _ => (keeps_lift _).bind fun _ =>
    keeps_deleteResource fun _ => rfl

theorem keeps_triggerDestinationGroup (k : Uuid) :
    Keeps (KeyStep id p) (Handlers.triggerDestinationGroup env caller k) := by
  refine (keeps_findRow keyStep_refl _ _).bind fun _ => (keeps_select _ _).bind fun _ => ?_
  exact (keeps_lift _).bind fun _ =>
    keeps_triggerJob fun _ _ _ hstamp => (quiet_of_stampGroup hstamp).apiKeys

theorem keeps_loadFeedInGroup (groupId feedId : Uuid) :
    Keeps (KeyStep id p) (loadFeedInGroup groupId feedId) :=
  (keeps_findRow keyStep_refl _ _).bind fun _ => (keeps_lift _).bind fun _ => keeps_pure _

theorem keeps_createFeed (groupId : Uuid) (payload : CreateFeedPayload) :
    Keeps (KeyStep id p) (Handlers.createFeed env caller groupId payload) := by
  refine (keeps_findRow keyStep_refl _ _).bind fun _ => (keeps_requireManage _ _).bind fun _ => ?_
  refine (keeps_lift _).bind fun _ => (keeps_lift _).bind fun _ => ?_
  refine Keeps.bind (keeps_insertRow ?_) fun _ => ?_
  · intro db db' h
    obtain ⟨_, -, rfl⟩ := insertExternalSource_ok h
    exact keyStep_of_eq rfl
  · exact (keeps_createAuditLog _ _).bind fun _ => keeps_pure _

theorem keeps_updateFeed (groupId feedId : Uuid) (payload : UpdateFeedPayload) :
    Keeps (KeyStep id p) (Handlers.updateFeed env caller groupId feedId payload) := by
  refine (keeps_loadFeedInGroup _ _).bind fun _ => (keeps_requireManage _ _).bind fun _ => ?_
  refine (keeps_lift _).bind fun _ => (keeps_lift _).bind fun _ => ?_
  refine Keeps.bind (keeps_updateRow ?_) fun _ => ?_
  · intro db row db' h
    obtain ⟨_, -, -, rfl⟩ := updateExternalSource_ok h
    exact keyStep_of_eq rfl
  · exact (keeps_createAuditLog _ _).bind fun _ => keeps_pure _

theorem keeps_deleteFeed (groupId feedId : Uuid) :
    Keeps (KeyStep id p) (Handlers.deleteFeed env caller groupId feedId) :=
  (keeps_loadFeedInGroup _ _).bind fun _ => (keeps_requireManage _ _).bind fun _ =>
    keeps_deleteResource fun _ => rfl

theorem keeps_createVaultSyncTask (payload : CreateVaultSyncTaskPayload) :
    Keeps (KeyStep id p) (Handlers.createVaultSyncTask env caller payload) := by
  refine (keeps_lift _).bind fun _ => (keeps_lift _).bind fun _ => ?_
  refine Keeps.bind (keeps_transaction keyStep_refl keyStep_trans ?_) fun _ => keeps_pure _
  refine Keeps.bind (keeps_insertRow ?_) fun _ => ?_
  · intro db db' h
    obtain ⟨_, -, rfl⟩ := insertVaultSyncTask_ok h
    exact keyStep_of_eq rfl
  · exact (keeps_insertTaskTargetRows _ _).bind fun _ => (keeps_insertPermission _).bind fun _ =>
      keeps_createAuditLog _ _

theorem keeps_replaceTaskTargets (taskId : Uuid) (targets : Option (List TargetSpec)) :
    Keeps (KeyStep id p) (replaceTaskTargets taskId targets) := by
  cases targets with
  | none => exact keeps_pure ()
  | some targets =>
      exact (keeps_deleteRows fun db => keyStep_of_eq rfl).bind fun _ =>
        keeps_insertTaskTargetRows _ _

theorem keeps_updateVaultSyncTask (k : Uuid) (payload : UpdateVaultSyncTaskPayload) :
    Keeps (KeyStep id p) (Handlers.updateVaultSyncTask env caller k payload) := by
  refine (keeps_findRow keyStep_refl _ _).bind fun _ => (keeps_requireManage _ _).bind fun _ => ?_
  refine (keeps_lift _).bind fun _ => ?_
  refine Keeps.bind (keeps_transaction keyStep_refl keyStep_trans ?_) fun _ => ?_
  · refine Keeps.bind (keeps_updateRow ?_) fun _ => ?_
    · intro db row db' h
      obtain ⟨_, -, -, rfl⟩ := updateVaultSyncTask_ok h
      exact keyStep_of_eq rfl
    · exact (keeps_replaceTaskTargets _ _).bind fun _ =>
        (keeps_createAuditLog _ _).bind fun _ => keeps_pure _
  · exact (keeps_select _ _).bind fun _ => keeps_pure _

theorem keeps_deleteVaultSyncTask (k : Uuid) :
    Keeps (KeyStep id p) (Handlers.deleteVaultSyncTask env caller k) :=
  (keeps_findRow keyStep_refl _ _).bind fun _ => (keeps_lift _).bind fun _ =>
    keeps_deleteResource fun _ => rfl

theorem keeps_triggerVaultSyncTask (k : Uuid) :
    Keeps (KeyStep id p) (Handlers.triggerVaultSyncTask env caller k) := by
  refine (keeps_findRow keyStep_refl _ _).bind fun _ => (keeps_select _ _).bind fun _ => ?_
  exact (keeps_lift _).bind fun _ =>
    keeps_triggerJob fun _ _ _ hstamp => (quiet_of_stampTask hstamp).apiKeys

/-! ### The router -/

/-- **Every request:** a statement of it adds the key it creates under its caller, or leaves every
key where it stands. -/
theorem keeps_handle (fuel : ℕ) (request : Request) :
    Keeps (KeyStep env.newId caller.id) (handle fuel env caller request) := by
  cases request with
  | rejected e => exact keeps_refuse e
  | getMe => exact keeps_pure _
  | listApiKeys => exact keeps_listApiKeys keyStep_refl
  | getApiKey k => exact keeps_getApiKey keyStep_refl k
  | createApiKey payload => exact keeps_createApiKey payload
  | updateApiKey k payload => exact keeps_updateApiKey k payload
  | deleteApiKey k => exact keeps_deleteApiKey fuel k
  | rotateApiKey k => exact keeps_rotateApiKey k
  | rotateSigningSecret k => exact keeps_rotateSigningSecret k
  | listKeyPermissions k => exact keeps_listKeyPermissions keyStep_refl k
  | grantKeyPermission k payload => exact keeps_grantKeyPermission k payload
  | revokeKeyPermission k permissionId => exact keeps_revokeKeyPermission k permissionId
  | listVaultEndpoints => exact keeps_listVaultEndpoints keyStep_refl
  | getVaultEndpoint k => exact keeps_getVaultEndpoint keyStep_refl k
  | createVaultEndpoint payload => exact keeps_createVaultEndpoint payload
  | updateVaultEndpoint k payload => exact keeps_updateVaultEndpoint k payload
  | deleteVaultEndpoint k => exact keeps_deleteVaultEndpoint k
  | testFetchExternalSource payload => exact keeps_testFetchExternalSource payload
  | listDestinationGroups => exact keeps_listDestinationGroups keyStep_refl
  | getDestinationGroup k => exact keeps_getDestinationGroup keyStep_refl k
  | createDestinationGroup payload => exact keeps_createDestinationGroup payload
  | updateDestinationGroup k payload => exact keeps_updateDestinationGroup k payload
  | deleteDestinationGroup k => exact keeps_deleteDestinationGroup k
  | triggerDestinationGroup k => exact keeps_triggerDestinationGroup k
  | createFeed groupId payload => exact keeps_createFeed groupId payload
  | updateFeed groupId feedId payload => exact keeps_updateFeed groupId feedId payload
  | deleteFeed groupId feedId => exact keeps_deleteFeed groupId feedId
  | listVaultSyncTasks => exact keeps_listVaultSyncTasks keyStep_refl
  | getVaultSyncTask k => exact keeps_getVaultSyncTask keyStep_refl k
  | createVaultSyncTask payload => exact keeps_createVaultSyncTask payload
  | updateVaultSyncTask k payload => exact keeps_updateVaultSyncTask k payload
  | deleteVaultSyncTask k => exact keeps_deleteVaultSyncTask k
  | triggerVaultSyncTask k => exact keeps_triggerVaultSyncTask k
  | listSyncLogs query => exact keeps_listSyncLogs keyStep_refl query
  | listAuditLogs query => exact keeps_listAuditLogs keyStep_refl query

end SimplyIpSync.Api
