import SimplyIpSync.Api.Leaves
import SimplyIpSync.Lib.Assurance

/-!
# Every write of the API

`Write` lists what a single statement of a handler can do to the tables, with what the handler has
checked by then, for a database whose Master is the key `m`.  `writes_handle` says that a request
does nothing else, whatever other calls do between its statements; what every statement keeps is
then a matter of one case for each constructor.
-/

namespace SimplyIpSync.Api

open SimplyIpSync.Entities SimplyIpSync.Storage SimplyIpSync.Program SimplyIpSync.Program.Prog
open Relation

/-- The key `m` is the Master, and no other is. -/
structure Database.MasterIs (m : Uuid) (db : Database) : Prop where
  present : ∃ key ∈ db.apiKeys.rows, key.id = m
  only : ∀ key ∈ db.apiKeys.rows, key.isMaster = true ↔ key.id = m
  root : ∀ key ∈ db.apiKeys.rows, key.id = m → key.parentKeyId = none

/-- What a statement of a request does to the tables. -/
inductive Write (m : Uuid) (env : Env) (caller : ApiKey) (db : Database) : Database → Prop
  | createKey {payload envelope rows}
      (hsealed : env.sealed env.generateSigningSecret = .ok envelope)
      (h : db.insertApiKey (env.newApiKey caller payload envelope) =
        .ok { db with apiKeys := rows }) :
      Write m env caller db { db with apiKeys := rows }
  | updateKey {id row rows} {payload : UpdateApiKeyPayload}
      (hmaster : id = m → payload.touchesNonBoundIps = false)
      (h : db.updateApiKey id (payload.apply env.now) (fun _ => rfl) =
        .ok (row, { db with apiKeys := rows })) :
      Write m env caller db { db with apiKeys := rows }
  | rotateKey {id row rows} (hmaster : id ≠ m)
      (h : db.updateApiKey id env.rotateKey (fun _ => rfl) =
        .ok (row, { db with apiKeys := rows })) :
      Write m env caller db { db with apiKeys := rows }
  | rotateSecret {id envelope row rows} (hmaster : id ≠ m)
      (hsealed : env.sealed env.generateSigningSecret = .ok envelope)
      (h : db.updateApiKey id (env.rotateSecret envelope) (fun _ => rfl) =
        .ok (row, { db with apiKeys := rows })) :
      Write m env caller db { db with apiKeys := rows }
  | deleteKeys {ids : List Uuid} (hmaster : m ∉ ids) :
      Write m env caller db (db.deleteApiKeys ids).2
  | insertPermission {row rows}
      (h : db.insertPermission row = .ok { db with permissions := rows }) :
      Write m env caller db { db with permissions := rows }
  | updatePermission {id row rows} {payload : GrantPermissionPayload}
      (h : db.updatePermission id payload.apply (fun _ => rfl) =
        .ok (row, { db with permissions := rows })) :
      Write m env caller db { db with permissions := rows }
  | deletePermission (id : Uuid) : Write m env caller db (db.deletePermission id).2
  | createVault {payload envelope rows}
      (hsealed : env.sealed payload.signingSecret = .ok envelope)
      (h : db.insertVaultEndpoint (env.newVaultEndpoint caller payload envelope) =
        .ok { db with vaultEndpoints := rows }) :
      Write m env caller db { db with vaultEndpoints := rows }
  | updateVault {id envelope row rows} {payload : DescribedVaultEndpointPayload}
      (hsealed : env.sealedField payload.signingSecret = .ok envelope)
      (h : db.updateVaultEndpoint id (payload.applyTo envelope env.now) (fun _ => rfl) =
        .ok (row, { db with vaultEndpoints := rows })) :
      Write m env caller db { db with vaultEndpoints := rows }
  | deleteVault (id : Uuid) : Write m env caller db (db.deleteVaultEndpoint id).2
  | createGroup {payload rows} (hmode : validateMode payload.mode = .ok ())
      (hcron : checkCron env payload.cronSchedule = .ok ())
      (h : db.insertDestinationGroup (env.newDestinationGroup caller payload) =
        .ok { db with destinationGroups := rows }) :
      Write m env caller db { db with destinationGroups := rows }
  | updateGroup {id row rows} {payload : UpdateDestinationGroupPayload}
      (hcron : checkField (checkCron env) payload.cronSchedule = .ok ())
      (hmode : checkField validateMode payload.mode = .ok ())
      (h : db.updateDestinationGroup id (payload.applyTo env.now) (fun _ => rfl) =
        .ok (row, { db with destinationGroups := rows })) :
      Write m env caller db { db with destinationGroups := rows }
  | stampGroup {id startedAt row rows}
      (h : db.stampGroup id startedAt = .ok (row, { db with destinationGroups := rows })) :
      Write m env caller db { db with destinationGroups := rows }
  | deleteGroup (id : Uuid) : Write m env caller db (db.deleteDestinationGroup id).2
  | insertGroupTarget {row rows}
      (h : db.insertGroupTarget row = .ok { db with groupTargets := rows }) :
      Write m env caller db { db with groupTargets := rows }
  | deleteGroupTargets (id : Uuid) : Write m env caller db (db.deleteGroupTargets id).2
  | createFeed {groupId payload rows}
      (hparser : validateFeedParser env payload.parserType payload.parserConfigJson = .ok ())
      (hage : validateMaxAgeDays payload.maxAgeDays = .ok ())
      (h : db.insertExternalSource (env.newExternalSource groupId payload) =
        .ok { db with externalSources := rows }) :
      Write m env caller db { db with externalSources := rows }
  | updateFeed {id row rows} {payload : UpdateFeedPayload} {existing : StampedExternalSource}
      (hparser : validateFeedParser env (payload.parserType.getD existing.parserType)
        (payload.parserConfigJson.or existing.parserConfigJson) = .ok ())
      (hage : validateMaxAgeDays payload.maxAgeDays = .ok ())
      (h : db.updateExternalSource id (payload.apply env.now) (fun _ => rfl) =
        .ok (row, { db with externalSources := rows })) :
      Write m env caller db { db with externalSources := rows }
  | deleteFeed (id : Uuid) : Write m env caller db (db.deleteExternalSource id).2
  | createTask {payload rows} (hcron : checkCron env payload.cronSchedule = .ok ())
      (h : db.insertVaultSyncTask (env.newVaultSyncTask caller payload) =
        .ok { db with vaultSyncTasks := rows }) :
      Write m env caller db { db with vaultSyncTasks := rows }
  | updateTask {id row rows} {payload : UpdateVaultSyncTaskPayload}
      (hcron : checkField (checkCron env) payload.cronSchedule = .ok ())
      (h : db.updateVaultSyncTask id (payload.applyTo env.now) (fun _ => rfl) =
        .ok (row, { db with vaultSyncTasks := rows })) :
      Write m env caller db { db with vaultSyncTasks := rows }
  | stampTask {id startedAt row rows}
      (h : db.stampTask id startedAt = .ok (row, { db with vaultSyncTasks := rows })) :
      Write m env caller db { db with vaultSyncTasks := rows }
  | deleteTask (id : Uuid) : Write m env caller db (db.deleteVaultSyncTask id).2
  | insertTaskTarget {row rows}
      (h : db.insertTaskTarget row = .ok { db with taskTargets := rows }) :
      Write m env caller db { db with taskTargets := rows }
  | deleteTaskTargets (id : Uuid) : Write m env caller db (db.deleteTaskTargets id).2
  | log (row : SyncLog) : Write m env caller db { db with syncLogs := db.syncLogs ++ [row] }
  | audit {action target}
      (h : db.insertAuditLog (env.auditEntry caller action target) =
        .ok { db with auditLogs := db.auditLogs ++ [env.auditEntry caller action target] }) :
      Write m env caller db
        { db with auditLogs := db.auditLogs ++ [env.auditEntry caller action target] }

/-- Any number of writes. -/
abbrev Writes (m : Uuid) (env : Env) (caller : ApiKey) : Database → Database → Prop :=
  ReflTransGen (Write m env caller)

variable {m : Uuid} {env : Env} {caller : ApiKey} {db db' : Database}

/-! ### The Master stays -/

namespace Database

theorem MasterIs.of_eq (h : db.MasterIs m) (hkeys : db'.apiKeys = db.apiKeys) : db'.MasterIs m := by
  obtain ⟨hpresent, honly, hroot⟩ := h
  constructor
  · rwa [hkeys]
  · rwa [hkeys]
  · rwa [hkeys]

theorem MasterIs.insertApiKey {row : ApiKey} (h : db.MasterIs m) (hrow : row.isMaster = false)
    (hinsert : db.insertApiKey row = .ok db') : db'.MasterIs m := by
  obtain ⟨rows, hrows, rfl⟩ := insertApiKey_ok hinsert
  obtain ⟨master, hmaster, hid⟩ := h.present
  have hfresh := Table.find?_eq_none_iff.mp (Table.find?_eq_none_of_insert? hrows)
  have hnew : row.id ≠ m := hid ▸ (hfresh master hmaster).symm
  constructor
  · exact ⟨master, (Table.mem_insert? hrows).mpr (Or.inl hmaster), hid⟩
  · intro key hkey
    rcases (Table.mem_insert? hrows).mp hkey with hold | rfl
    · exact h.only key hold
    · exact iff_of_false (by simp [hrow]) hnew
  · intro key hkey hkeyId
    rcases (Table.mem_insert? hrows).mp hkey with hold | rfl
    · exact h.root key hold hkeyId
    · exact absurd hkeyId hnew

theorem MasterIs.updateApiKey {id : Uuid} {f : ApiKey → ApiKey} {hf : ∀ r, (f r).id = r.id}
    {row : ApiKey} (h : db.MasterIs m) (hupdate : db.updateApiKey id f hf = .ok (row, db'))
    (hplace : ∀ r, (f r).isMaster = r.isMaster ∧ (f r).parentKeyId = r.parentKeyId) :
    db'.MasterIs m := by
  obtain ⟨old, -, -, rfl⟩ := updateApiKey_ok hupdate
  have hkept : ∀ r, (if r.id = id then f r else r).id = r.id ∧
      (if r.id = id then f r else r).isMaster = r.isMaster ∧
      (if r.id = id then f r else r).parentKeyId = r.parentKeyId := by
    intro r
    split
    · exact ⟨hf r, hplace r⟩
    · exact ⟨rfl, rfl, rfl⟩
  constructor
  · obtain ⟨key, hkey, hid⟩ := h.present
    exact ⟨_, List.mem_map_of_mem hkey, (hkept key).1.trans hid⟩
  · intro key hkey
    obtain ⟨r, hr, rfl⟩ := List.mem_map.mp hkey
    rw [(hkept r).1, (hkept r).2.1]
    exact h.only r hr
  · intro key hkey
    obtain ⟨r, hr, rfl⟩ := List.mem_map.mp hkey
    rw [(hkept r).1, (hkept r).2.2]
    exact h.root r hr

theorem MasterIs.deleteApiKeys {ids : List Uuid} (h : db.MasterIs m) (hids : m ∉ ids) :
    (db.deleteApiKeys ids).2.MasterIs m := by
  constructor
  · obtain ⟨key, hkey, rfl⟩ := h.present
    exact ⟨key, Table.mem_deleteWhere.mpr ⟨hkey, by simpa using hids⟩, rfl⟩
  · exact fun key hkey => h.only key (Table.mem_deleteWhere.mp hkey).1
  · exact fun key hkey => h.root key (Table.mem_deleteWhere.mp hkey).1

end Database

/-- **A write keeps the Master.** -/
theorem Write.masterIs (h : Write m env caller db db') (hdb : db.MasterIs m) : db'.MasterIs m := by
  cases h with
  | createKey _ h => exact hdb.insertApiKey rfl h
  | updateKey _ h => exact hdb.updateApiKey h fun _ => ⟨rfl, rfl⟩
  | rotateKey _ h => exact hdb.updateApiKey h fun _ => ⟨rfl, rfl⟩
  | rotateSecret _ _ h => exact hdb.updateApiKey h fun _ => ⟨rfl, rfl⟩
  | deleteKeys hmaster => exact hdb.deleteApiKeys hmaster
  | _ => exact hdb.of_eq rfl

theorem masterIs_of_writes (hdb : db.MasterIs m) (h : Writes m env caller db db') :
    db'.MasterIs m := by
  induction h with
  | refl => exact hdb
  | tail _ hwrite ih => exact hwrite.masterIs ih

/-- What every write keeps, any number of them keep. -/
theorem holds_of_writes {P : Database → Prop}
    (hstep : ∀ db db', db.MasterIs m → P db → Write m env caller db db' → P db')
    (hdb : db.MasterIs m) (hP : P db) (h : Writes m env caller db db') : P db' := by
  induction h with
  | refl => exact hP
  | tail hwrites hwrite ih => exact hstep _ _ (masterIs_of_writes hdb hwrites) ih hwrite

/-! ### What handlers are made of -/

/-- What the rest of a handler can count on while the Master is `m`. -/
abbrev Assured (m : Uuid) (env : Env) (caller : ApiKey) {α : Type} (V : α → Prop)
    (p : Handler α) : Prop :=
  Assures (Database.MasterIs m) (Writes m env caller) V p

theorem writes_refl (db : Database) : Writes m env caller db db := ReflTransGen.refl

theorem writes_trans (db db' db'' : Database) (h : Writes m env caller db db')
    (h' : Writes m env caller db' db'') : Writes m env caller db db'' := h.trans h'

theorem masterIs_stable (db db' : Database) (hdb : db.MasterIs m) (h : Writes m env caller db db') :
    db'.MasterIs m := masterIs_of_writes hdb h

section Parts

variable {table : TableName}

theorem writes_lift (r : Except AppError Unit) :
    Assured m env caller (fun _ => True) (.lift r : Handler Unit) :=
  assures_lift fun _ _ => trivial

/-- A check that lets the request go on has been passed. -/
theorem writes_check (r : Except AppError Unit) :
    Assured m env caller (fun _ => r = .ok ()) (.lift r : Handler Unit) :=
  assures_lift fun _ h => h

theorem writes_query {α : Type} (tag : Sql) (f : Database → α) :
    Assured m env caller (fun _ => True) (.query tag f : Handler α) :=
  assures_query writes_refl fun _ _ => trivial

theorem writes_findRow {ρ : Type} (find : Database → Option ρ) :
    Assured m env caller (fun _ => True) (findRow table find) :=
  (keeps_findRow writes_refl table find).assures

theorem writes_insertRow {onError : DbErr → AppError} {effect : Database → Except DbErr Database}
    (h : ∀ db db', effect db = .ok db' → Write m env caller db db') :
    Assured m env caller (fun _ => True) (insertRow table onError effect) := by
  refine assures_perform ?_
  intro db _ db' _ hperform
  cases heffect : effect db with
  | ok db₁ =>
      simp only [heffect, Except.ok.injEq, Prod.mk.injEq, true_and] at hperform
      exact ⟨hperform ▸ .single (h db db₁ heffect), trivial⟩
  | error e => simp [heffect] at hperform

theorem writes_updateRow {ρ : Type} {effect : Database → Except DbErr (ρ × Database)}
    (h : ∀ db row db', effect db = .ok (row, db') → Write m env caller db db') :
    Assured m env caller (fun _ => True) (updateRow table effect) := by
  refine assures_perform ?_
  intro db row db' _ hperform
  cases heffect : effect db with
  | ok out =>
      simp only [heffect, Except.ok.injEq] at hperform
      exact ⟨.single (h db row db' (by rw [heffect, hperform])), trivial⟩
  | error e => simp [heffect] at hperform

theorem writes_deleteRows {effect : Database → ℕ × Database}
    (h : ∀ db, Write m env caller db (effect db).2) :
    Assured m env caller (fun _ => True) (deleteRows table effect) := by
  refine assures_perform ?_
  intro db affected db' _ hperform
  have heffect : effect db = (affected, db') := Except.ok.inj hperform
  have hwrite := h db
  rw [heffect] at hwrite
  exact ⟨.single hwrite, trivial⟩

theorem writes_createAuditLog (action : String) (target : Option String) :
    Assured m env caller (fun _ => True) (createAuditLog env caller action target) := by
  refine writes_insertRow ?_
  intro db db' h
  obtain rfl := insertAuditLog_ok h
  exact .audit h

theorem writes_insertPermission (row : SyncPermission) :
    Assured m env caller (fun _ => True)
      (insertRow .permissions onDbErr fun db => db.insertPermission row) := by
  refine writes_insertRow ?_
  intro db db' h
  obtain ⟨rows, -, rfl⟩ := insertPermission_ok h
  exact .insertPermission h

theorem writes_requireManage (resourceType : String) (resourceId : Uuid) :
    Assured m env caller (fun _ => True) (requireManage caller resourceType resourceId) :=
  (writes_query _ _).bind fun _ _ => writes_lift _

/-- The statements after a write that every mutating handler ends with. -/
theorem writes_audited {α : Type} (action : String) (target : Option String) (answer : α) :
    Assured m env caller (fun _ => True)
      (createAuditLog env caller action target >>= fun _ => pure answer) :=
  (writes_createAuditLog _ _).bind fun _ _ => assures_pure trivial

theorem writes_insertTargets {insert : TargetSpec → Database → Except DbErr Database}
    (h : ∀ target db db', insert target db = .ok db' → Write m env caller db db')
    (targets : List TargetSpec) :
    Assured m env caller (fun _ => True) (insertTargets table insert targets) := by
  induction targets with
  | nil => exact assures_pure trivial
  | cons target rest ih => exact (writes_insertRow (h target)).bind fun _ _ => ih

theorem writes_insertGroupTargetRows (groupId : Uuid) (targets : List TargetSpec) :
    Assured m env caller (fun _ => True) (insertGroupTargetRows groupId targets) := by
  refine writes_insertTargets ?_ targets
  intro target db db' h
  obtain ⟨rows, rfl⟩ := insertGroupTarget_ok h
  exact .insertGroupTarget h

theorem writes_insertTaskTargetRows (taskId : Uuid) (targets : List TargetSpec) :
    Assured m env caller (fun _ => True) (insertTaskTargetRows taskId targets) := by
  refine writes_insertTargets ?_ targets
  intro target db db' h
  obtain ⟨rows, rfl⟩ := insertTaskTarget_ok h
  exact .insertTaskTarget h

theorem writes_replaceGroupTargets (groupId : Uuid) (targets : Option (List TargetSpec)) :
    Assured m env caller (fun _ => True) (replaceGroupTargets groupId targets) := by
  cases targets with
  | none => exact assures_pure trivial
  | some targets =>
      exact (writes_deleteRows fun db => .deleteGroupTargets groupId).bind fun _ _ =>
        writes_insertGroupTargetRows _ _

theorem writes_replaceTaskTargets (taskId : Uuid) (targets : Option (List TargetSpec)) :
    Assured m env caller (fun _ => True) (replaceTaskTargets taskId targets) := by
  cases targets with
  | none => exact assures_pure trivial
  | some targets =>
      exact (writes_deleteRows fun db => .deleteTaskTargets taskId).bind fun _ _ =>
        writes_insertTaskTargetRows _ _

theorem writes_deleteResource {effect : Database → ℕ × Database} {action name : String}
    (h : ∀ db, Write m env caller db (effect db).2) :
    Assured m env caller (fun _ => True)
      (deleteResource env caller table effect action name) :=
  (writes_deleteRows h).bind fun _ _ => (writes_lift _).bind fun _ _ => writes_audited _ _ _

theorem writes_triggerJob {jobId : Uuid}
    {stamp : ℤ → Database → Except DbErr (Unit × Database)} {busy action name : String}
    (h : ∀ startedAt db db', stamp startedAt db = .ok ((), db') → Write m env caller db db') :
    Assured m env caller (fun _ => True)
      (triggerJob env caller jobId table stamp busy action name) := by
  refine (writes_lift _).bind fun _ _ => (writes_createAuditLog _ _).bind fun _ _ => ?_
  refine Assures.bind (V := fun _ => True) (assures_perform ?_) fun run _ => ?_
  · intro db run db' _ hrun
    cases hjob : env.runJob jobId db with
    | error e => simp [hjob] at hrun
    | ok run' =>
        simp only [hjob, Except.ok.injEq, Prod.mk.injEq] at hrun
        exact ⟨hrun.2 ▸ writes_refl db, trivial⟩
  · refine Assures.bind (V := fun _ => True) (writes_insertRow ?_) fun _ _ => ?_
    · intro db db' hlog
      obtain rfl := Except.ok.inj hlog
      exact .log run.log
    · cases run.stamp with
      | none => exact assures_pure trivial
      | some startedAt =>
          refine Assures.bind (V := fun _ => True) (writes_updateRow ?_) fun _ _ =>
            assures_pure trivial
          intro db _ db' hstamp
          exact h startedAt db db' hstamp

end Parts

/-! ### Keys -/

/-- A key that was read is the Master exactly when it has the Master's identifier. -/
theorem writes_findApiKey (id : Uuid) :
    Assured m env caller (fun target => target.isMaster = true ↔ id = m) (findApiKey id) := by
  refine Assures.bind (V := fun found => ∀ target, found = some target →
    (target.isMaster = true ↔ id = m)) (assures_query writes_refl ?_) ?_
  · intro db hdb target htarget
    obtain ⟨hmem, rfl⟩ := Table.find?_eq_some_iff.mp htarget
    exact hdb.only target hmem
  · intro found hfound
    cases found with
    | none => exact assures_refuse _
    | some target => exact assures_pure (hfound target rfl)

theorem writes_createApiKey (payload : CreateApiKeyPayload) :
    Assured m env caller (fun _ => True) (Handlers.createApiKey env caller payload) := by
  refine (writes_lift _).bind fun _ _ => (writes_lift _).bind fun _ _ => ?_
  refine (assures_lift fun _ h => h).bind fun envelope hsealed => ?_
  refine Assures.bind (V := fun _ => True) (writes_insertRow ?_) fun _ _ => writes_audited _ _ _
  intro db db' h
  obtain ⟨rows, -, rfl⟩ := insertApiKey_ok h
  exact .createKey hsealed h

theorem writes_updateApiKey (id : Uuid) (payload : UpdateApiKeyPayload) :
    Assured m env caller (fun _ => True) (Handlers.updateApiKey env caller id payload) := by
  refine (writes_lift _).bind fun _ _ => (writes_findApiKey id).bind fun target htarget => ?_
  refine (writes_lift _).bind fun _ _ => ?_
  refine Assures.bind (V := fun _ => id = m → payload.touchesNonBoundIps = false)
    (assures_lift ?_) fun _ hmaster => ?_
  · intro _ hpass hid
    rcases guardMasterImmutable_ok.mp hpass with hnot | hbound
    · exact absurd (htarget.mpr hid) (by simp [hnot])
    · exact hbound
  · refine (writes_lift _).bind fun _ _ => ?_
    refine Assures.bind (V := fun _ => True) (writes_updateRow ?_) fun _ _ => writes_audited _ _ _
    intro db row db' h
    obtain ⟨_, -, -, rfl⟩ := updateApiKey_ok h
    exact .updateKey hmaster h

theorem writes_checkRotation (id : Uuid) :
    Assured m env caller (fun _ => id ≠ m) (checkRotation caller id) := by
  refine (writes_lift _).bind fun _ _ => (writes_findApiKey id).bind fun target htarget => ?_
  refine Assures.bind (V := fun _ => id ≠ m) (assures_lift ?_) fun _ hne =>
    assures_lift fun _ _ => hne
  intro _ hpass hid
  have hnot := guardRotationAllowed_ok.mp hpass
  exact absurd (htarget.mpr hid) (by simp [hnot])

theorem writes_rotate {id : Uuid} {f : ApiKey → ApiKey} {hf : ∀ r, (f r).id = r.id}
    {action : String}
    (h : ∀ db row db', db.updateApiKey id f hf = .ok (row, db') → Write m env caller db db') :
    Assured m env caller (fun _ => True) (rotate env caller id f hf action) :=
  (writes_updateRow h).bind fun _ _ => writes_createAuditLog _ _

theorem writes_rotateApiKey (id : Uuid) :
    Assured m env caller (fun _ => True) (Handlers.rotateApiKey env caller id) := by
  refine (writes_checkRotation id).bind fun _ hne => ?_
  refine Assures.bind (V := fun _ => True) (writes_rotate ?_) fun _ _ => assures_pure trivial
  intro db row db' h
  obtain ⟨_, -, -, rfl⟩ := updateApiKey_ok h
  exact .rotateKey hne h

theorem writes_rotateSigningSecret (id : Uuid) :
    Assured m env caller (fun _ => True) (Handlers.rotateSigningSecret env caller id) := by
  refine (writes_checkRotation id).bind fun _ hne => ?_
  refine (assures_lift fun _ h => h).bind fun envelope hsealed => ?_
  refine Assures.bind (V := fun _ => True) (writes_rotate ?_) fun _ _ => assures_pure trivial
  intro db row db' h
  obtain ⟨_, -, -, rfl⟩ := updateApiKey_ok h
  exact .rotateSecret hne hsealed h

/-- The walk never meets the Master, which has no parent. -/
theorem writes_walkSubtree (fuel : ℕ) (frontier : List Uuid) {result : List ApiKey}
    (hresult : ∀ key ∈ result, key.id ≠ m) :
    Assured m env caller (fun subtree => ∀ key ∈ subtree, key.id ≠ m)
      (walkSubtree fuel frontier result) := by
  induction fuel generalizing frontier result with
  | zero =>
      cases frontier with
      | nil => exact assures_pure hresult
      | cons _ _ => trivial
  | succ fuel ih =>
      cases frontier with
      | nil => exact assures_pure hresult
      | cons id rest =>
          refine Assures.bind (V := fun children => ∀ key ∈ children, key.id ≠ m)
            (assures_query writes_refl ?_) fun children hchildren => ih _ ?_
          · intro db hdb key hkey hid
            obtain ⟨hmem, hparent⟩ := List.mem_filter.mp hkey
            simp [hdb.root key hmem hid] at hparent
          · intro key hkey
            rcases List.mem_append.mp hkey with hold | hnew
            · exact hresult key hold
            · exact hchildren key hnew

theorem writes_deleteApiKey (fuel : ℕ) (id : Uuid) :
    Assured m env caller (fun _ => True) (Handlers.deleteApiKey fuel env caller id) := by
  refine (writes_lift _).bind fun _ _ => ?_
  refine Assures.bind (V := fun target : ApiKey => target.isMaster = true ↔ target.id = m) ?_
    fun target htarget => ?_
  · refine Assures.bind (V := fun found => ∀ target, found = some target →
      (target.isMaster = true ↔ target.id = m)) (assures_query writes_refl ?_) ?_
    · intro db hdb target hfound
      exact hdb.only target (Table.find?_eq_some_iff.mp hfound).1
    · intro found hfound
      cases found with
      | none => exact assures_refuse _
      | some target => exact assures_pure (hfound target rfl)
  · refine Assures.bind (V := fun _ => target.id ≠ m) (assures_lift ?_) fun _ hne => ?_
    · intro _ hpass hid
      rw [require] at hpass
      split at hpass
      · rename_i hnot
        simp [htarget.mpr hid] at hnot
      · cases hpass
    refine (writes_lift _).bind fun _ _ => ?_
    have hroot : ∀ key ∈ [target], key.id ≠ m := by
      intro key hkey
      rwa [List.mem_singleton.mp hkey]
    refine (writes_walkSubtree fuel [target.id] hroot).bind fun subtree hsubtree => ?_
    refine Assures.bind (V := fun _ => True) ?_ fun _ _ => (writes_lift _).bind fun _ _ => ?_
    · exact (writes_query _ _).bind fun _ _ => (writes_query _ _).bind fun _ _ =>
        (writes_query _ _).bind fun _ _ => assures_pure trivial
    · refine Assures.bind (V := fun _ => True) (writes_deleteRows fun db => .deleteKeys ?_)
        fun _ _ => (writes_lift _).bind fun _ _ => writes_audited _ _ _
      intro hmem
      obtain ⟨key, hkey, hid⟩ := List.mem_map.mp hmem
      exact hsubtree key hkey hid

/-! ### Permissions -/

theorem writes_grantKeyPermission (id : Uuid) (payload : GrantPermissionPayload) :
    Assured m env caller (fun _ => True) (Handlers.grantKeyPermission env caller id payload) := by
  refine (writes_lift _).bind fun _ _ => (writes_findApiKey id).bind fun target _ => ?_
  refine (writes_lift _).bind fun _ _ => (writes_query _ _).bind fun _ _ => ?_
  refine (writes_lift _).bind fun _ _ => (writes_query _ _).bind fun existing _ => ?_
  refine Assures.bind (V := fun _ => True) ?_ fun _ _ => writes_audited _ _ _
  cases existing with
  | none => exact (writes_insertPermission _).bind fun _ _ => assures_pure trivial
  | some existing =>
      refine writes_updateRow ?_
      intro db row db' h
      obtain ⟨_, -, -, rfl⟩ := updatePermission_ok h
      exact .updatePermission h

theorem writes_revokeKeyPermission (id permissionId : Uuid) :
    Assured m env caller (fun _ => True)
      (Handlers.revokeKeyPermission env caller id permissionId) := by
  refine (writes_lift _).bind fun _ _ => (writes_findRow _).bind fun _ _ => ?_
  refine (writes_lift _).bind fun _ _ => (writes_query _ _).bind fun _ _ => ?_
  refine (writes_lift _).bind fun _ _ => ?_
  exact (writes_deleteRows fun db => .deletePermission permissionId).bind fun _ _ =>
    (writes_lift _).bind fun _ _ => writes_audited _ _ _

/-! ### Resources -/

theorem writes_createVaultEndpoint (payload : CreateVaultEndpointPayload) :
    Assured m env caller (fun _ => True) (Handlers.createVaultEndpoint env caller payload) := by
  refine (writes_lift _).bind fun _ _ => (assures_lift fun _ h => h).bind fun envelope hsealed => ?_
  refine Assures.bind (V := fun _ => True) (writes_insertRow ?_) fun _ _ =>
    (writes_insertPermission _).bind fun _ _ => writes_audited _ _ _
  intro db db' h
  obtain ⟨rows, -, rfl⟩ := insertVaultEndpoint_ok h
  exact .createVault hsealed h

theorem writes_updateVaultEndpoint (id : Uuid) (payload : DescribedVaultEndpointPayload) :
    Assured m env caller (fun _ => True) (Handlers.updateVaultEndpoint env caller id payload) := by
  refine (writes_findRow _).bind fun _ _ => (writes_requireManage _ _).bind fun _ _ => ?_
  refine (assures_lift fun _ h => h).bind fun envelope hsealed => ?_
  refine Assures.bind (V := fun _ => True) (writes_updateRow ?_) fun _ _ => writes_audited _ _ _
  intro db row db' h
  obtain ⟨_, -, -, rfl⟩ := updateVaultEndpoint_ok h
  exact .updateVault hsealed h

theorem writes_deleteVaultEndpoint (id : Uuid) :
    Assured m env caller (fun _ => True) (Handlers.deleteVaultEndpoint env caller id) :=
  (writes_findRow _).bind fun _ _ => (writes_lift _).bind fun _ _ =>
    writes_deleteResource fun _ => .deleteVault id

theorem writes_createDestinationGroup (payload : CreateDestinationGroupPayload) :
    Assured m env caller (fun _ => True) (Handlers.createDestinationGroup env caller payload) := by
  refine (writes_lift _).bind fun _ _ => (writes_check _).bind fun _ hmode => ?_
  refine (writes_check _).bind fun _ hcron => ?_
  refine Assures.bind (V := fun _ => True)
    (assures_transaction writes_refl writes_trans masterIs_stable ?_) fun _ _ =>
      assures_pure trivial
  refine Assures.bind (V := fun _ => True) (writes_insertRow ?_) fun _ _ => ?_
  · intro db db' h
    obtain ⟨rows, -, rfl⟩ := insertDestinationGroup_ok h
    exact .createGroup hmode hcron h
  · exact (writes_insertGroupTargetRows _ _).bind fun _ _ =>
      (writes_insertPermission _).bind fun _ _ => writes_createAuditLog _ _

theorem writes_updateDestinationGroup (id : Uuid) (payload : UpdateDestinationGroupPayload) :
    Assured m env caller (fun _ => True)
      (Handlers.updateDestinationGroup env caller id payload) := by
  refine (writes_findRow _).bind fun _ _ => (writes_requireManage _ _).bind fun _ _ => ?_
  refine (writes_check _).bind fun _ hcron => (writes_check _).bind fun _ hmode => ?_
  refine Assures.bind (V := fun _ => True)
    (assures_transaction writes_refl writes_trans masterIs_stable ?_) fun _ _ => ?_
  · refine Assures.bind (V := fun _ => True) (writes_updateRow ?_) fun _ _ => ?_
    · intro db row db' h
      obtain ⟨_, -, -, rfl⟩ := updateDestinationGroup_ok h
      exact .updateGroup hcron hmode h
    · exact (writes_replaceGroupTargets _ _).bind fun _ _ => writes_audited _ _ _
  · exact (writes_query _ _).bind fun _ _ => (writes_query _ _).bind fun _ _ =>
      assures_pure trivial

theorem writes_deleteDestinationGroup (id : Uuid) :
    Assured m env caller (fun _ => True) (Handlers.deleteDestinationGroup env caller id) :=
  (writes_findRow _).bind fun _ _ => (writes_lift _).bind fun _ _ =>
    writes_deleteResource fun _ => .deleteGroup id

theorem writes_triggerDestinationGroup (id : Uuid) :
    Assured m env caller (fun _ => True) (Handlers.triggerDestinationGroup env caller id) := by
  refine (writes_findRow _).bind fun _ _ => (writes_query _ _).bind fun _ _ => ?_
  refine (writes_lift _).bind fun _ _ => writes_triggerJob ?_
  intro startedAt db db' hstamp
  obtain ⟨row, hupdate⟩ := discardRow_ok hstamp
  obtain ⟨_, -, -, rfl⟩ := updateDestinationGroup_ok hupdate
  exact .stampGroup hupdate

theorem writes_loadFeedInGroup (groupId feedId : Uuid) :
    Assured m env caller (fun _ => True) (loadFeedInGroup groupId feedId) :=
  (writes_findRow _).bind fun _ _ => (writes_lift _).bind fun _ _ => assures_pure trivial

theorem writes_createFeed (groupId : Uuid) (payload : CreateFeedPayload) :
    Assured m env caller (fun _ => True) (Handlers.createFeed env caller groupId payload) := by
  refine (writes_findRow _).bind fun _ _ => (writes_requireManage _ _).bind fun _ _ => ?_
  refine (writes_check _).bind fun _ hparser => (writes_check _).bind fun _ hage => ?_
  refine Assures.bind (V := fun _ => True) (writes_insertRow ?_) fun _ _ => writes_audited _ _ _
  intro db db' h
  obtain ⟨rows, -, rfl⟩ := insertExternalSource_ok h
  exact .createFeed hparser hage h

theorem writes_updateFeed (groupId feedId : Uuid) (payload : UpdateFeedPayload) :
    Assured m env caller (fun _ => True)
      (Handlers.updateFeed env caller groupId feedId payload) := by
  refine (writes_loadFeedInGroup _ _).bind fun _ _ => (writes_requireManage _ _).bind fun _ _ => ?_
  refine (writes_check _).bind fun _ hparser => (writes_check _).bind fun _ hage => ?_
  refine Assures.bind (V := fun _ => True) (writes_updateRow ?_) fun _ _ => writes_audited _ _ _
  intro db row db' h
  obtain ⟨_, -, -, rfl⟩ := updateExternalSource_ok h
  exact .updateFeed hparser hage h

theorem writes_deleteFeed (groupId feedId : Uuid) :
    Assured m env caller (fun _ => True) (Handlers.deleteFeed env caller groupId feedId) :=
  (writes_loadFeedInGroup _ _).bind fun _ _ => (writes_requireManage _ _).bind fun _ _ =>
    writes_deleteResource fun _ => .deleteFeed feedId

theorem writes_createVaultSyncTask (payload : CreateVaultSyncTaskPayload) :
    Assured m env caller (fun _ => True) (Handlers.createVaultSyncTask env caller payload) := by
  refine (writes_lift _).bind fun _ _ => (writes_check _).bind fun _ hcron => ?_
  refine Assures.bind (V := fun _ => True)
    (assures_transaction writes_refl writes_trans masterIs_stable ?_) fun _ _ =>
      assures_pure trivial
  refine Assures.bind (V := fun _ => True) (writes_insertRow ?_) fun _ _ => ?_
  · intro db db' h
    obtain ⟨rows, -, rfl⟩ := insertVaultSyncTask_ok h
    exact .createTask hcron h
  · exact (writes_insertTaskTargetRows _ _).bind fun _ _ =>
      (writes_insertPermission _).bind fun _ _ => writes_createAuditLog _ _

theorem writes_updateVaultSyncTask (id : Uuid) (payload : UpdateVaultSyncTaskPayload) :
    Assured m env caller (fun _ => True) (Handlers.updateVaultSyncTask env caller id payload) := by
  refine (writes_findRow _).bind fun _ _ => (writes_requireManage _ _).bind fun _ _ => ?_
  refine (writes_check _).bind fun _ hcron => ?_
  refine Assures.bind (V := fun _ => True)
    (assures_transaction writes_refl writes_trans masterIs_stable ?_) fun _ _ => ?_
  · refine Assures.bind (V := fun _ => True) (writes_updateRow ?_) fun _ _ => ?_
    · intro db row db' h
      obtain ⟨_, -, -, rfl⟩ := updateVaultSyncTask_ok h
      exact .updateTask hcron h
    · exact (writes_replaceTaskTargets _ _).bind fun _ _ => writes_audited _ _ _
  · exact (writes_query _ _).bind fun _ _ => assures_pure trivial

theorem writes_deleteVaultSyncTask (id : Uuid) :
    Assured m env caller (fun _ => True) (Handlers.deleteVaultSyncTask env caller id) :=
  (writes_findRow _).bind fun _ _ => (writes_lift _).bind fun _ _ =>
    writes_deleteResource fun _ => .deleteTask id

theorem writes_triggerVaultSyncTask (id : Uuid) :
    Assured m env caller (fun _ => True) (Handlers.triggerVaultSyncTask env caller id) := by
  refine (writes_findRow _).bind fun _ _ => (writes_query _ _).bind fun _ _ => ?_
  refine (writes_lift _).bind fun _ _ => writes_triggerJob ?_
  intro startedAt db db' hstamp
  obtain ⟨row, hupdate⟩ := discardRow_ok hstamp
  obtain ⟨_, -, -, rfl⟩ := updateVaultSyncTask_ok hupdate
  exact .stampTask hupdate

/-! ### The router -/

/-- **Every request** does to the tables what `Write` lists, and nothing else. -/
theorem writes_handle (fuel : ℕ) (request : Request) :
    Assured m env caller (fun _ => True) (handle fuel env caller request) := by
  cases request with
  | rejected e => exact assures_refuse e
  | getMe => exact assures_pure trivial
  | listApiKeys => exact (keeps_listApiKeys writes_refl).assures
  | getApiKey id => exact (keeps_getApiKey writes_refl id).assures
  | createApiKey payload => exact writes_createApiKey payload
  | updateApiKey id payload => exact writes_updateApiKey id payload
  | deleteApiKey id => exact writes_deleteApiKey fuel id
  | rotateApiKey id => exact writes_rotateApiKey id
  | rotateSigningSecret id => exact writes_rotateSigningSecret id
  | listKeyPermissions id => exact (keeps_listKeyPermissions writes_refl id).assures
  | grantKeyPermission id payload => exact writes_grantKeyPermission id payload
  | revokeKeyPermission id permissionId => exact writes_revokeKeyPermission id permissionId
  | listVaultEndpoints => exact (keeps_listVaultEndpoints writes_refl).assures
  | getVaultEndpoint id => exact (keeps_getVaultEndpoint writes_refl id).assures
  | createVaultEndpoint payload => exact writes_createVaultEndpoint payload
  | updateVaultEndpoint id payload => exact writes_updateVaultEndpoint id payload
  | deleteVaultEndpoint id => exact writes_deleteVaultEndpoint id
  | testFetchExternalSource payload => exact (keeps_testFetchExternalSource payload).assures
  | listDestinationGroups => exact (keeps_listDestinationGroups writes_refl).assures
  | getDestinationGroup id => exact (keeps_getDestinationGroup writes_refl id).assures
  | createDestinationGroup payload => exact writes_createDestinationGroup payload
  | updateDestinationGroup id payload => exact writes_updateDestinationGroup id payload
  | deleteDestinationGroup id => exact writes_deleteDestinationGroup id
  | triggerDestinationGroup id => exact writes_triggerDestinationGroup id
  | createFeed groupId payload => exact writes_createFeed groupId payload
  | updateFeed groupId feedId payload => exact writes_updateFeed groupId feedId payload
  | deleteFeed groupId feedId => exact writes_deleteFeed groupId feedId
  | listVaultSyncTasks => exact (keeps_listVaultSyncTasks writes_refl).assures
  | getVaultSyncTask id => exact (keeps_getVaultSyncTask writes_refl id).assures
  | createVaultSyncTask payload => exact writes_createVaultSyncTask payload
  | updateVaultSyncTask id payload => exact writes_updateVaultSyncTask id payload
  | deleteVaultSyncTask id => exact writes_deleteVaultSyncTask id
  | triggerVaultSyncTask id => exact writes_triggerVaultSyncTask id
  | listSyncLogs query => exact (keeps_listSyncLogs writes_refl query).assures
  | listAuditLogs query => exact (keeps_listAuditLogs writes_refl query).assures

end SimplyIpSync.Api
