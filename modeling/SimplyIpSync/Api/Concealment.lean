import SimplyIpSync.Api.Leaves
import SimplyIpSync.Lib.Agreement

/-!
# What the API never shows (`src/api/`)

The signing secrets of the keys, and the keys and signing secrets of the vault endpoints.
`concealed` blanks them, and two databases look alike when nothing else tells them apart.  Every
statement of a handler can be carried out on what is shown (`insertApiKey_concealed` and its like),
so that every request answers the same on databases that look alike (`agrees_handle`), whatever the
secrets are.

The two requests that run a job are left out: a job uses the credentials of its vaults.
-/

namespace SimplyIpSync.Api

open SimplyIpSync.Crypto SimplyIpSync.Entities SimplyIpSync.Storage SimplyIpSync.Program
open SimplyIpSync.Program.Prog

/-! ### What is concealed -/

/-- A key without its secret. -/
def ApiKey.concealed (key : ApiKey) : ApiKey := { key with signingSecret := none }

/-- An endpoint without its credentials. -/
def OwnedVaultEndpoint.concealed (row : OwnedVaultEndpoint) : OwnedVaultEndpoint :=
  { row with toVaultEndpoint := { row.toVaultEndpoint with apiKey := "", signingSecret := "" } }

theorem ApiKey.concealed_id (key : ApiKey) : key.concealed.id = key.id := rfl

theorem OwnedVaultEndpoint.concealed_id (row : OwnedVaultEndpoint) :
    row.concealed.id = row.id := rfl

/-- A database without secrets. -/
def Database.concealed (db : Database) : Database :=
  { db with
    apiKeys := db.apiKeys.mapRows ApiKey.concealed ApiKey.concealed_id
    vaultEndpoints :=
      db.vaultEndpoints.mapRows OwnedVaultEndpoint.concealed OwnedVaultEndpoint.concealed_id }

/-- Nothing but secrets tells the databases apart. -/
abbrev LooksLike : Database → Database → Prop := SameView Database.concealed

/-! ### One table -/

section OneTable

variable {α κ : Type} {key : α → κ} [DecidableEq κ] {g : α → α} (hg : ∀ r, key (g r) = key r)

theorem insertUnique_mapRows (t : Table key) (row : α) {clashes clashes' : α → Bool}
    (h : ∀ r, clashes' (g r) = clashes r) :
    (insertUnique t row clashes).map (fun t => t.mapRows g hg) =
      insertUnique (t.mapRows g hg) (g row) clashes' := by
  have hany : (t.mapRows g hg).rows.any clashes' = t.rows.any clashes := by
    simp only [Table.mapRows, List.any_map, Function.comp_def, h]
  rw [insertUnique, insertUnique, hany, ← Table.insert?_mapRows]
  split
  · rfl
  · cases t.insert? row <;> rfl

theorem updateUnique_mapRows (t : Table key) (k : κ) {f : α → α} (f' : α → α)
    (hf : ∀ r, key (f r) = key r) (hf' : ∀ r, key (f' r) = key r) {clashes clashes' : α → α → Bool}
    (hshown : ∀ r, g (f r) = f' (g r))
    (h : ∀ r r', clashes' (g r) (g r') = clashes r r') :
    (updateUnique t k f hf clashes).map (Prod.map g fun t => t.mapRows g hg) =
      updateUnique (t.mapRows g hg) k f' hf' clashes' := by
  rw [updateUnique, updateUnique, Table.find?_mapRows]
  cases t.find? k with
  | none => rfl
  | some row =>
      have hany : ((t.mapRows g hg).rows.any fun r =>
          decide (key r ≠ k) && clashes' (f' (g row)) r) =
            t.rows.any fun r => decide (key r ≠ k) && clashes (f row) r := by
        simp only [Table.mapRows, List.any_map, Function.comp_def, hg, ← hshown, h]
      simp only [Option.map_some, hany]
      split
      · rfl
      · simp only [Except.map, Prod.map, hshown, Table.modify_mapRows g hg t k hf hf' hshown]

end OneTable

/-! ### The statements -/

namespace Database

variable (db : Database)

theorem concealed_apiKeys :
    db.concealed.apiKeys = db.apiKeys.mapRows ApiKey.concealed ApiKey.concealed_id := rfl

theorem concealed_vaultEndpoints : db.concealed.vaultEndpoints =
    db.vaultEndpoints.mapRows OwnedVaultEndpoint.concealed OwnedVaultEndpoint.concealed_id := rfl

theorem hasKey_concealed (id : Uuid) : db.concealed.hasKey id = db.hasKey id := by
  rw [hasKey, hasKey, concealed_apiKeys, Table.find?_mapRows, Option.isSome_map]

theorem hasVault_concealed (id : Uuid) : db.concealed.hasVault id = db.hasVault id := by
  rw [hasVault, hasVault, concealed_vaultEndpoints, Table.find?_mapRows, Option.isSome_map]

theorem insertApiKey_concealed (row : ApiKey) :
    (db.insertApiKey row).map concealed = db.concealed.insertApiKey row.concealed := by
  have hrows : (insertUnique db.apiKeys row fun r =>
      decide (r.keyHash = row.keyHash) || (r.isMaster && row.isMaster)).map
        (fun t => t.mapRows ApiKey.concealed ApiKey.concealed_id) =
      insertUnique db.concealed.apiKeys row.concealed fun r =>
        decide (r.keyHash = row.concealed.keyHash) || (r.isMaster && row.concealed.isMaster) :=
    insertUnique_mapRows ApiKey.concealed_id db.apiKeys row fun _ => rfl
  rw [insertApiKey, insertApiKey, ← hrows]
  cases insertUnique db.apiKeys row _ <;> rfl

theorem updateApiKey_concealed (id : Uuid) {f : ApiKey → ApiKey} (hf : ∀ r, (f r).id = r.id)
    (hshown : ∀ r, (f r).concealed = (f r.concealed).concealed) :
    (db.updateApiKey id f hf).map (Prod.map ApiKey.concealed concealed) =
      db.concealed.updateApiKey id (fun r => (f r).concealed) fun r => hf r := by
  have hrows : (updateUnique db.apiKeys id f hf fun r r' =>
      decide (r.keyHash = r'.keyHash) || (r.isMaster && r'.isMaster)).map
        (Prod.map ApiKey.concealed fun t => t.mapRows ApiKey.concealed ApiKey.concealed_id) =
      updateUnique db.concealed.apiKeys id (fun r => (f r).concealed) (fun r => hf r) fun r r' =>
        decide (r.keyHash = r'.keyHash) || (r.isMaster && r'.isMaster) :=
    updateUnique_mapRows ApiKey.concealed_id db.apiKeys id
      (fun r => (f r).concealed) hf (fun r => hf r) hshown fun _ _ => rfl
  unfold updateApiKey
  rw [← hrows]
  cases updateUnique db.apiKeys id f hf _ <;> rfl

theorem deleteApiKeys_concealed (ids : List Uuid) :
    Prod.map id concealed (db.deleteApiKeys ids) = db.concealed.deleteApiKeys ids := by
  refine Prod.ext ?_ ?_
  · show _ = ((db.apiKeys.rows.map ApiKey.concealed).filter _).length
    rw [List.filter_map, List.length_map]
    rfl
  · simp only [deleteApiKeys, concealed, Prod.map]
    congr 1
    exact Table.deleteWhere_mapRows ApiKey.concealed ApiKey.concealed_id db.apiKeys fun _ => rfl

theorem insertVaultEndpoint_concealed (row : OwnedVaultEndpoint) :
    (db.insertVaultEndpoint row).map concealed =
      db.concealed.insertVaultEndpoint row.concealed := by
  have hrows : (insertUnique db.vaultEndpoints row fun r => decide (r.name = row.name)).map
        (fun t => t.mapRows OwnedVaultEndpoint.concealed OwnedVaultEndpoint.concealed_id) =
      insertUnique db.concealed.vaultEndpoints row.concealed fun r =>
        decide (r.name = row.concealed.name) :=
    insertUnique_mapRows OwnedVaultEndpoint.concealed_id db.vaultEndpoints row fun _ => rfl
  rw [insertVaultEndpoint, insertVaultEndpoint, ← hrows]
  cases insertUnique db.vaultEndpoints row _ <;> rfl

theorem updateVaultEndpoint_concealed (id : Uuid) {f : OwnedVaultEndpoint → OwnedVaultEndpoint}
    (hf : ∀ r, (f r).id = r.id) (hshown : ∀ r, (f r).concealed = (f r.concealed).concealed) :
    (db.updateVaultEndpoint id f hf).map (Prod.map OwnedVaultEndpoint.concealed concealed) =
      db.concealed.updateVaultEndpoint id (fun r => (f r).concealed) fun r => hf r := by
  have hrows : (updateUnique db.vaultEndpoints id f hf fun r r' => decide (r.name = r'.name)).map
        (Prod.map OwnedVaultEndpoint.concealed fun t =>
          t.mapRows OwnedVaultEndpoint.concealed OwnedVaultEndpoint.concealed_id) =
      updateUnique db.concealed.vaultEndpoints id (fun r => (f r).concealed) (fun r => hf r)
        fun r r' => decide (r.name = r'.name) :=
    updateUnique_mapRows OwnedVaultEndpoint.concealed_id db.vaultEndpoints id
      (fun r => (f r).concealed) hf (fun r => hf r) hshown fun _ _ => rfl
  unfold updateVaultEndpoint
  rw [← hrows]
  cases updateUnique db.vaultEndpoints id f hf _ <;> rfl

theorem deleteVaultEndpoint_concealed (id : Uuid) :
    Prod.map (fun n => n) concealed (db.deleteVaultEndpoint id) =
      db.concealed.deleteVaultEndpoint id := by
  refine Prod.ext ?_ ?_
  · show _ = ((db.vaultEndpoints.rows.map OwnedVaultEndpoint.concealed).filter _).length
    rw [List.filter_map, List.length_map]
    rfl
  · simp only [deleteVaultEndpoint, concealed, Prod.map]
    congr 1
    exact Table.deleteWhere_mapRows OwnedVaultEndpoint.concealed OwnedVaultEndpoint.concealed_id
      db.vaultEndpoints fun _ => rfl

/-! The other tables are shown as they are. -/

theorem insertPermission_concealed (row : SyncPermission) :
    (db.insertPermission row).map concealed = db.concealed.insertPermission row := by
  simp only [insertPermission, hasKey_concealed, show db.concealed.permissions = db.permissions
    from rfl]
  split
  · rfl
  · split <;> rfl

theorem updatePermission_concealed (id : Uuid) (f : SyncPermission → SyncPermission)
    (hf : ∀ r, (f r).id = r.id) :
    (db.updatePermission id f hf).map (Prod.map (fun r => r) concealed) =
      db.concealed.updatePermission id f hf := by
  simp only [updatePermission, show db.concealed.permissions = db.permissions from rfl]
  split <;> rfl

theorem insertDestinationGroup_concealed (row : OwnedDestinationGroup) :
    (db.insertDestinationGroup row).map concealed = db.concealed.insertDestinationGroup row := by
  simp only [insertDestinationGroup,
    show db.concealed.destinationGroups = db.destinationGroups from rfl]
  split <;> rfl

theorem updateDestinationGroup_concealed (id : Uuid)
    (f : OwnedDestinationGroup → OwnedDestinationGroup) (hf : ∀ r, (f r).id = r.id) :
    (db.updateDestinationGroup id f hf).map (Prod.map (fun r => r) concealed) =
      db.concealed.updateDestinationGroup id f hf := by
  simp only [updateDestinationGroup,
    show db.concealed.destinationGroups = db.destinationGroups from rfl]
  split <;> rfl

theorem insertGroupTarget_concealed (row : DestinationGroupVaultTarget) :
    (db.insertGroupTarget row).map concealed = db.concealed.insertGroupTarget row := by
  simp only [insertGroupTarget, hasVault_concealed,
    show db.concealed.groupTargets = db.groupTargets from rfl,
    show ∀ id, db.concealed.hasGroup id = db.hasGroup id from fun _ => rfl]
  split
  · rfl
  · split <;> rfl

theorem insertExternalSource_concealed (row : StampedExternalSource) :
    (db.insertExternalSource row).map concealed = db.concealed.insertExternalSource row := by
  simp only [insertExternalSource, show db.concealed.externalSources = db.externalSources from rfl,
    show ∀ id, db.concealed.hasGroup id = db.hasGroup id from fun _ => rfl]
  split
  · rfl
  · split <;> rfl

theorem updateExternalSource_concealed (id : Uuid)
    (f : StampedExternalSource → StampedExternalSource) (hf : ∀ r, (f r).id = r.id) :
    (db.updateExternalSource id f hf).map (Prod.map (fun r => r) concealed) =
      db.concealed.updateExternalSource id f hf := by
  simp only [updateExternalSource, show db.concealed.externalSources = db.externalSources from rfl]
  split <;> rfl

theorem insertVaultSyncTask_concealed (row : OwnedVaultSyncTask) :
    (db.insertVaultSyncTask row).map concealed = db.concealed.insertVaultSyncTask row := by
  simp only [insertVaultSyncTask, hasVault_concealed,
    show db.concealed.vaultSyncTasks = db.vaultSyncTasks from rfl]
  split
  · rfl
  · split <;> rfl

theorem updateVaultSyncTask_concealed (id : Uuid) (f : OwnedVaultSyncTask → OwnedVaultSyncTask)
    (hf : ∀ r, (f r).id = r.id) :
    (db.updateVaultSyncTask id f hf).map (Prod.map (fun r => r) concealed) =
      db.concealed.updateVaultSyncTask id f hf := by
  simp only [updateVaultSyncTask, hasVault_concealed,
    show db.concealed.vaultSyncTasks = db.vaultSyncTasks from rfl]
  split
  · rfl
  · split <;> rfl

theorem insertTaskTarget_concealed (row : VaultSyncTaskTarget) :
    (db.insertTaskTarget row).map concealed = db.concealed.insertTaskTarget row := by
  simp only [insertTaskTarget, hasVault_concealed,
    show db.concealed.taskTargets = db.taskTargets from rfl,
    show ∀ id, db.concealed.hasTask id = db.hasTask id from fun _ => rfl]
  split
  · rfl
  · split <;> rfl

theorem insertAuditLog_concealed (row : AuditLog) :
    (db.insertAuditLog row).map concealed = db.concealed.insertAuditLog row := by
  simp only [insertAuditLog, show db.concealed.hasKey = db.hasKey from funext (hasKey_concealed db)]
  split <;> rfl

end Database

/-! ### What handlers are made of -/

/-- The handler does the same, and answers the same, on databases that look alike. -/
abbrev Blind {α : Type} (p : Handler α) : Prop := Agrees LooksLike Eq p p

section Parts

variable {table : TableName} {env : Env} {caller : ApiKey}

theorem agrees_insertRow {onError : DbErr → AppError} {effect : Database → Except DbErr Database}
    (shown : Database → Except DbErr Database)
    (h : ∀ db, (effect db).map Database.concealed = shown db.concealed) :
    Blind (insertRow table onError effect) := by
  refine agrees_perform (alike_of_view (g := fun u => u)
    (fun db => ((shown db).map (Prod.mk ())).mapError onError) ?_)
  intro db
  simp only [← h db]
  cases effect db <;> rfl

theorem agrees_updateRow {ρ : Type} {g : ρ → ρ} {effect : Database → Except DbErr (ρ × Database)}
    (shown : Database → Except DbErr (ρ × Database))
    (h : ∀ db, (effect db).map (Prod.map g Database.concealed) = shown db.concealed) :
    Agrees LooksLike (fun r r' => g r = g r') (updateRow table effect)
      (updateRow table effect) := by
  refine agrees_perform (alike_of_view (fun db => (shown db).mapError fun _ => .dbError) ?_)
  intro db
  simp only [← h db]
  cases effect db <;> rfl

theorem agrees_deleteRows {effect : Database → ℕ × Database} (shown : Database → ℕ × Database)
    (h : ∀ db, Prod.map (fun n => n) Database.concealed (effect db) = shown db.concealed) :
    Blind (deleteRows table effect) := by
  refine agrees_perform (alike_of_view (g := fun n => n) (fun db => .ok (shown db)) ?_)
  intro db
  simp only [← h db]
  rfl

theorem agrees_queryShown {α : Type} {tag : Sql} {g : α → α} {f : Database → α}
    (shown : Database → α)
    (h : ∀ db, g (f db) = shown db.concealed) :
    Agrees LooksLike (fun a a' => g a = g a') (.query tag f : Handler α) (.query tag f) :=
  agrees_query fun db db' hdb => (h db).trans ((congrArg shown hdb).trans (h db').symm)

/-- A query of what is shown. -/
theorem agrees_queryPlain {α : Type} {tag : Sql} {f : Database → α}
    (h : ∀ db, f db = f db.concealed) : Blind (.query tag f : Handler α) :=
  agrees_query fun db db' hdb => (h db).trans ((congrArg f hdb).trans (h db').symm)

theorem agrees_findRow {ρ : Type} {g : ρ → ρ} {find : Database → Option ρ}
    (shown : Database → Option ρ)
    (h : ∀ db, (find db).map g = shown db.concealed) :
    Agrees LooksLike (fun r r' => g r = g r') (findRow table find) (findRow table find) := by
  refine (agrees_queryShown _ h).bind ?_
  intro found found' hfound
  cases found with
  | none =>
      cases found' with
      | none => exact agrees_refuse _
      | some row => cases hfound
  | some row =>
      cases found' with
      | none => cases hfound
      | some row' => exact agrees_pure (Option.some.inj hfound)

theorem agrees_findPlain {ρ : Type} {find : Database → Option ρ}
    (h : ∀ db, find db = find db.concealed) : Blind (findRow table find) := by
  refine (agrees_queryPlain h).bindEq ?_
  intro found
  cases found with
  | none => exact agrees_refuse _
  | some row => exact agrees_pure rfl

theorem agrees_findApiKey (id : Uuid) :
    Agrees LooksLike (fun r r' => ApiKey.concealed r = r'.concealed) (findApiKey id)
      (findApiKey id) :=
  agrees_findRow (fun db => db.apiKeys.find? id) fun db =>
    (Table.find?_mapRows _ ApiKey.concealed_id db.apiKeys id).symm

theorem agrees_findVaultEndpoint (id : Uuid) :
    Agrees LooksLike (fun r r' => OwnedVaultEndpoint.concealed r = r'.concealed)
      (findVaultEndpoint id) (findVaultEndpoint id) :=
  agrees_findRow (fun db => db.vaultEndpoints.find? id) fun db =>
    (Table.find?_mapRows _ OwnedVaultEndpoint.concealed_id db.vaultEndpoints id).symm

theorem agrees_findPermission (apiKeyId : Uuid) (resourceType : String) (resourceId : Uuid) :
    Blind (findPermission apiKeyId resourceType resourceId) := agrees_queryPlain fun _ => rfl

theorem agrees_createAuditLog (action : String) (target : Option String) :
    Blind (createAuditLog env caller action target) :=
  agrees_insertRow (fun db => db.insertAuditLog _) fun db => db.insertAuditLog_concealed _

theorem agrees_grantFullPermission (id : Uuid) (resourceType : String) (resourceId : Uuid) :
    Blind (grantFullPermission env id resourceType resourceId) :=
  agrees_insertRow (fun db => db.insertPermission _) fun db => db.insertPermission_concealed _

theorem agrees_isVisible (resourceType : String) (id : Uuid) (ownerKeyId : Option Uuid) :
    Blind (isVisible caller resourceType id ownerKeyId) := by
  rw [isVisible]
  split
  · exact agrees_pure rfl
  · exact (agrees_findPermission _ _ _).bindEq fun _ => agrees_pure rfl

theorem agrees_requireManage (resourceType : String) (id : Uuid) :
    Blind (requireManage caller resourceType id) :=
  (agrees_findPermission _ _ _).bindEq fun _ => agrees_lift _

theorem agrees_deleteResource {effect : Database → ℕ × Database}
    (shown : Database → ℕ × Database) {action name : String}
    (h : ∀ db, Prod.map (fun n => n) Database.concealed (effect db) = shown db.concealed) :
    Blind (deleteResource env caller table effect action name) :=
  (agrees_deleteRows _ h).bindEq fun _ => (agrees_lift _).bindEq fun _ =>
    (agrees_createAuditLog _ _).bindEq fun _ => agrees_pure rfl

theorem agrees_filterRows {ρ : Type} {test : ρ → Handler Bool} (htest : ∀ row, Blind (test row))
    (rows : List ρ) : Blind (filterRows test rows) := by
  induction rows with
  | nil => exact agrees_pure rfl
  | cons row rest ih =>
      exact (htest row).bindEq fun _ => ih.bindEq fun _ => agrees_pure rfl

/-- Of the rows, too, only what `g` leaves of them is looked at. -/
theorem agrees_filterRowsShown {ρ : Type} {g : ρ → ρ} {test : ρ → Handler Bool}
    (hseen : ∀ row, test row = test (g row)) (htest : ∀ row, Blind (test row)) {rows rows' : List ρ}
    (hrows : rows.map g = rows'.map g) :
    Agrees LooksLike (fun kept kept' => kept.map g = kept'.map g) (filterRows test rows)
      (filterRows test rows') := by
  induction rows generalizing rows' with
  | nil =>
      obtain rfl : rows' = [] := List.map_eq_nil_iff.mp hrows.symm
      exact agrees_pure rfl
  | cons row rest ih =>
      cases rows' with
      | nil => cases hrows
      | cons row' rest' =>
          obtain ⟨hrow, hrest⟩ := List.cons.inj hrows
          have hsame : test row = test row' := by rw [hseen row, hseen row', hrow]
          rw [filterRows, filterRows, hsame]
          refine (htest row').bindEq fun keep => (ih hrest).bind fun kept kept' hkept => ?_
          refine agrees_pure ?_
          split
          · rw [List.map_cons, List.map_cons, hrow, hkept]
          · exact hkept

theorem agrees_mapRows {ρ β : Type} {load : ρ → Handler β} (hload : ∀ row, Blind (load row))
    (rows : List ρ) : Blind (mapRows load rows) := by
  induction rows with
  | nil => exact agrees_pure rfl
  | cons row rest ih =>
      exact (hload row).bindEq fun _ => ih.bindEq fun _ => agrees_pure rfl

theorem agrees_insertTargets {insert : TargetSpec → Database → Except DbErr Database}
    (shown : TargetSpec → Database → Except DbErr Database)
    (h : ∀ target db, (insert target db).map Database.concealed = shown target db.concealed)
    (targets : List TargetSpec) : Blind (insertTargets table insert targets) := by
  induction targets with
  | nil => exact agrees_pure rfl
  | cons target rest ih => exact (agrees_insertRow _ (h target)).bindEq fun _ => ih

end Parts

/-! ### Keys and permissions -/

section Requests

variable {env : Env} {caller : ApiKey}

theorem agrees_listApiKeys : Blind (Handlers.listApiKeys caller) := by
  refine (agrees_queryShown (g := List.map ApiKey.concealed) (fun db =>
    if caller.isMaster then db.apiKeys.rows
    else db.apiKeys.rows.filter fun r => r.id = caller.id ∨ r.parentKeyId = some caller.id)
      ?_).bindShown ?_ fun _ => agrees_pure rfl
  · intro db
    cases caller.isMaster with
    | true => rfl
    | false =>
        simp only [Bool.false_eq_true, if_false, Database.concealed_apiKeys, Table.mapRows,
          List.filter_map, Function.comp_def]
        rfl
  · intro keys
    rw [List.map_map]
    rfl

theorem agrees_getApiKey (id : Uuid) : Blind (Handlers.getApiKey caller id) :=
  (agrees_findApiKey id).bindShown (fun _ => rfl) fun _ => (agrees_lift _).bindEq fun _ =>
    agrees_pure rfl

theorem agrees_listKeyPermissions (id : Uuid) : Blind (Handlers.listKeyPermissions caller id) :=
  (agrees_findApiKey id).bindShown (fun _ => rfl) fun _ => (agrees_lift _).bindEq fun _ =>
    (agrees_queryPlain fun _ => rfl).bindEq fun _ => agrees_pure rfl

theorem agrees_createApiKey (payload : CreateApiKeyPayload) :
    Blind (Handlers.createApiKey env caller payload) := by
  refine (agrees_lift _).bindEq fun _ => (agrees_lift _).bindEq fun _ => ?_
  refine (agrees_lift _).bindEq fun envelope => ?_
  refine (agrees_insertRow (fun db => db.insertApiKey (env.newApiKey caller payload
    envelope).concealed) fun db => db.insertApiKey_concealed _).bindEq fun _ => ?_
  exact (agrees_createAuditLog _ _).bindEq fun _ => agrees_pure rfl

theorem agrees_updateApiKey (id : Uuid) (payload : UpdateApiKeyPayload) :
    Blind (Handlers.updateApiKey env caller id payload) := by
  refine (agrees_lift _).bindEq fun _ => (agrees_findApiKey id).bindShown (fun _ => rfl) fun _ => ?_
  refine (agrees_lift _).bindEq fun _ => (agrees_lift _).bindEq fun _ => ?_
  refine (agrees_lift _).bindEq fun _ => ?_
  refine (agrees_updateRow (fun db => db.updateApiKey id
    (fun r => (payload.apply env.now r).concealed) fun _ => rfl) fun db =>
      db.updateApiKey_concealed id _ fun _ => rfl).bindShown (fun _ => rfl) fun _ => ?_
  exact (agrees_createAuditLog _ _).bindEq fun _ => agrees_pure rfl

theorem agrees_rotate (id : Uuid) {f : ApiKey → ApiKey} (hf : ∀ r, (f r).id = r.id)
    (hshown : ∀ r, (f r).concealed = (f r.concealed).concealed) (action : String) :
    Blind (rotate env caller id f hf action) :=
  (agrees_updateRow (fun db => db.updateApiKey id (fun r => (f r).concealed) fun r => hf r)
    fun db => db.updateApiKey_concealed id hf hshown).bindShown (fun _ => rfl) fun _ =>
      agrees_createAuditLog _ _

theorem agrees_checkRotation (id : Uuid) : Blind (checkRotation caller id) :=
  (agrees_lift _).bindEq fun _ => (agrees_findApiKey id).bindShown (fun _ => rfl) fun _ =>
    (agrees_lift _).bindEq fun _ => agrees_lift _

theorem agrees_rotateApiKey (id : Uuid) : Blind (Handlers.rotateApiKey env caller id) :=
  (agrees_checkRotation id).bindEq fun _ => (agrees_rotate id _ (fun _ => rfl) _).bindEq fun _ =>
    agrees_pure rfl

theorem agrees_rotateSigningSecret (id : Uuid) :
    Blind (Handlers.rotateSigningSecret env caller id) :=
  (agrees_checkRotation id).bindEq fun _ => (agrees_lift _).bindEq fun _ =>
    (agrees_rotate id _ (fun _ => rfl) _).bindEq fun _ => agrees_pure rfl

/-- The walk meets the same keys. -/
theorem agrees_walkSubtree (fuel : ℕ) (frontier : List Uuid) {result result' : List ApiKey}
    (hresult : result.map ApiKey.concealed = result'.map ApiKey.concealed) :
    Agrees LooksLike (fun keys keys' => keys.map ApiKey.concealed = keys'.map ApiKey.concealed)
      (walkSubtree fuel frontier result) (walkSubtree fuel frontier result') := by
  induction fuel generalizing frontier result result' with
  | zero =>
      cases frontier with
      | nil => exact agrees_pure hresult
      | cons _ _ => exact .hang
  | succ fuel ih =>
      cases frontier with
      | nil => exact agrees_pure hresult
      | cons id rest =>
          refine (agrees_queryShown (g := List.map ApiKey.concealed)
            (fun db => db.daughters (id :: rest)) ?_).bind ?_
          · intro db
            simp only [Database.daughters, Database.concealed_apiKeys, Table.mapRows,
              List.filter_map, Function.comp_def]
            rfl
          · intro children children' hchildren
            have hids : children.map ApiKey.id = children'.map ApiKey.id := by
              have hboth := congrArg (List.map ApiKey.id) hchildren
              simpa only [List.map_map, Function.comp_def, ApiKey.concealed_id] using hboth
            rw [hids]
            exact ih _ (by rw [List.map_append, List.map_append, hresult, hchildren])

theorem agrees_ownedResourceInventory (keyIds : List Uuid) :
    Blind (ownedResourceInventory keyIds) := by
  refine (agrees_queryShown (g := List.map OwnedVaultEndpoint.concealed)
    (fun db => db.vaultsOf keyIds) ?_).bindShown ?_ fun _ => ?_
  · intro db
    simp only [Database.vaultsOf, Database.concealed_vaultEndpoints, Table.mapRows,
      List.filter_map, Function.comp_def]
    rfl
  · intro vaults
    simp only [List.map_map, Function.comp_def]
    rfl
  · exact (agrees_queryPlain fun _ => rfl).bindEq fun _ =>
      (agrees_queryPlain fun _ => rfl).bindEq fun _ => agrees_pure rfl

theorem agrees_collectSubtree (fuel : ℕ) {root root' : ApiKey}
    (hroot : root.concealed = root'.concealed) :
    Agrees LooksLike (fun keys keys' => keys.map ApiKey.concealed = keys'.map ApiKey.concealed)
      (collectSubtree fuel root) (collectSubtree fuel root') := by
  have hid : root.id = root'.id := by
    simpa only [ApiKey.concealed_id] using congrArg ApiKey.id hroot
  rw [collectSubtree, collectSubtree, hid]
  exact agrees_walkSubtree fuel _ (congrArg (fun key => [key]) hroot)

theorem agrees_deleteApiKey (fuel : ℕ) (id : Uuid) :
    Blind (Handlers.deleteApiKey fuel env caller id) := by
  refine (agrees_lift _).bindEq fun _ => ?_
  refine (agrees_findApiKey id).bind fun target target' htarget => ?_
  have hmaster : target.isMaster = target'.isMaster := by
    simpa only [ApiKey.concealed] using congrArg ApiKey.isMaster htarget
  have hname : target.name = target'.name := by
    simpa only [ApiKey.concealed] using congrArg ApiKey.name htarget
  have hadminister : canAdminister caller target = canAdminister caller target' := by
    simpa only [canAdminister, ApiKey.concealed] using congrArg (canAdminister caller) htarget
  simp only [hmaster, hname, hadminister]
  refine (agrees_lift _).bindEq fun _ => (agrees_lift _).bindEq fun _ => ?_
  refine (agrees_collectSubtree fuel htarget).bindShown ?_ fun subtree => ?_
  · intro keys
    have hids : (keys.map ApiKey.concealed).map ApiKey.id = keys.map ApiKey.id := by
      simp only [List.map_map, Function.comp_def, ApiKey.concealed_id]
    rw [hids]
  · refine (agrees_ownedResourceInventory _).bindEq fun _ => (agrees_lift _).bindEq fun _ => ?_
    refine (agrees_deleteRows (fun db => db.deleteApiKeys (subtree.map ApiKey.id)) fun db =>
      db.deleteApiKeys_concealed _).bindEq fun _ => ?_
    exact (agrees_lift _).bindEq fun _ => (agrees_createAuditLog _ _).bindEq fun _ =>
      agrees_pure rfl

theorem agrees_grantKeyPermission (id : Uuid) (payload : GrantPermissionPayload) :
    Blind (Handlers.grantKeyPermission env caller id payload) := by
  refine (agrees_lift _).bindEq fun _ => (agrees_findApiKey id).bindShown (fun _ => rfl)
    fun target => ?_
  refine (agrees_lift _).bindEq fun _ => (agrees_findPermission _ _ _).bindEq fun _ => ?_
  refine (agrees_lift _).bindEq fun _ => (agrees_findPermission _ _ _).bindEq fun existing => ?_
  have hwrites : Blind (writePermission env target.id payload existing) := by
    cases existing with
    | none =>
        exact (agrees_insertRow (fun db => db.insertPermission _) fun db =>
          db.insertPermission_concealed _).bindEq fun _ => agrees_pure rfl
    | some existing =>
        exact agrees_updateRow (fun db => db.updatePermission existing.id _ _) fun db =>
          db.updatePermission_concealed existing.id _ _
  exact hwrites.bindEq fun _ => (agrees_createAuditLog _ _).bindEq fun _ => agrees_pure rfl

theorem agrees_revokeKeyPermission (id permissionId : Uuid) :
    Blind (Handlers.revokeKeyPermission env caller id permissionId) := by
  refine (agrees_lift _).bindEq fun _ => (agrees_findPlain fun _ => rfl).bindEq fun _ => ?_
  refine (agrees_lift _).bindEq fun _ => (agrees_findPermission _ _ _).bindEq fun _ => ?_
  refine (agrees_lift _).bindEq fun _ => ?_
  refine (agrees_deleteRows (fun db => db.deletePermission permissionId) fun _ => rfl).bindEq
    fun _ => ?_
  exact (agrees_lift _).bindEq fun _ => (agrees_createAuditLog _ _).bindEq fun _ => agrees_pure rfl

/-! ### Resources -/

theorem agrees_listVaultEndpoints : Blind (Handlers.listVaultEndpoints caller) := by
  refine (agrees_queryShown (g := List.map OwnedVaultEndpoint.concealed)
    (fun db => db.vaultEndpoints.rows) fun _ => rfl).bind ?_
  intro all all' hall
  refine (agrees_filterRowsShown (g := OwnedVaultEndpoint.concealed) (fun _ => rfl)
    (fun _ => agrees_isVisible _ _ _) hall).bindShown ?_ fun _ => agrees_pure rfl
  intro visible
  rw [List.map_map]
  rfl

theorem agrees_getVaultEndpoint (id : Uuid) : Blind (Handlers.getVaultEndpoint caller id) :=
  (agrees_findVaultEndpoint id).bindShown (fun _ => rfl) fun _ =>
    (agrees_isVisible _ _ _).bindEq fun _ => (agrees_lift _).bindEq fun _ => agrees_pure rfl

theorem agrees_createVaultEndpoint (payload : CreateVaultEndpointPayload) :
    Blind (Handlers.createVaultEndpoint env caller payload) := by
  refine (agrees_lift _).bindEq fun _ => (agrees_lift _).bindEq fun envelope => ?_
  refine (agrees_insertRow (fun db => db.insertVaultEndpoint (env.newVaultEndpoint caller payload
    envelope).concealed) fun db => db.insertVaultEndpoint_concealed _).bindEq fun _ => ?_
  exact (agrees_grantFullPermission _ _ _).bindEq fun _ =>
    (agrees_createAuditLog _ _).bindEq fun _ => agrees_pure rfl

theorem agrees_updateVaultEndpoint (id : Uuid) (payload : DescribedVaultEndpointPayload) :
    Blind (Handlers.updateVaultEndpoint env caller id payload) := by
  refine (agrees_findVaultEndpoint id).bindShown (fun _ => rfl) fun _ => ?_
  refine (agrees_requireManage _ _).bindEq fun _ => (agrees_lift _).bindEq fun envelope => ?_
  refine (agrees_updateRow (fun db => db.updateVaultEndpoint id
    (fun r => (payload.applyTo envelope env.now r).concealed) fun _ => rfl) fun db =>
      db.updateVaultEndpoint_concealed id _ fun _ => ?_).bindShown (fun _ => rfl) fun _ => ?_
  · simp [OwnedVaultEndpoint.concealed, DescribedVaultEndpointPayload.applyTo,
      UpdateVaultEndpointPayload.apply]
  · exact (agrees_createAuditLog _ _).bindEq fun _ => agrees_pure rfl

theorem agrees_deleteVaultEndpoint (id : Uuid) :
    Blind (Handlers.deleteVaultEndpoint env caller id) :=
  (agrees_findVaultEndpoint id).bindShown (fun _ => rfl) fun _ => (agrees_lift _).bindEq fun _ =>
    agrees_deleteResource (fun db => db.deleteVaultEndpoint id) fun db =>
      db.deleteVaultEndpoint_concealed id

theorem agrees_loadGroup (group : OwnedDestinationGroup) : Blind (loadGroup group) :=
  (agrees_queryPlain fun _ => rfl).bindEq fun _ => (agrees_queryPlain fun _ => rfl).bindEq fun _ =>
    agrees_pure rfl

theorem agrees_listDestinationGroups : Blind (Handlers.listDestinationGroups caller) :=
  (agrees_queryPlain fun _ => rfl).bindEq fun _ =>
    (agrees_filterRows (fun _ => agrees_isVisible _ _ _) _).bindEq fun _ =>
      (agrees_mapRows agrees_loadGroup _).bindEq fun _ => agrees_pure rfl

theorem agrees_getDestinationGroup (id : Uuid) : Blind (Handlers.getDestinationGroup caller id) :=
  (agrees_findPlain fun _ => rfl).bindEq fun _ => (agrees_isVisible _ _ _).bindEq fun _ =>
    (agrees_lift _).bindEq fun _ => (agrees_queryPlain fun _ => rfl).bindEq fun _ =>
      (agrees_queryPlain fun _ => rfl).bindEq fun _ => agrees_pure rfl

theorem agrees_insertGroupTargetRows (groupId : Uuid) (targets : List TargetSpec) :
    Blind (insertGroupTargetRows groupId targets) :=
  agrees_insertTargets (fun target db =>
    db.insertGroupTarget ⟨groupId, target.vaultEndpointId, target.targetGroupName⟩)
    (fun _ db => db.insertGroupTarget_concealed _) targets

theorem agrees_createDestinationGroup (payload : CreateDestinationGroupPayload) :
    Blind (Handlers.createDestinationGroup env caller payload) := by
  refine (agrees_lift _).bindEq fun _ => (agrees_lift _).bindEq fun _ => ?_
  refine (agrees_lift _).bindEq fun _ => ?_
  refine (agrees_transaction ?_).bindEq fun _ => agrees_pure rfl
  refine (agrees_insertRow (fun db => db.insertDestinationGroup _) fun db =>
    db.insertDestinationGroup_concealed _).bindEq fun _ => ?_
  exact (agrees_insertGroupTargetRows _ _).bindEq fun _ =>
    (agrees_grantFullPermission _ _ _).bindEq fun _ => agrees_createAuditLog _ _

theorem agrees_replaceGroupTargets (groupId : Uuid) (targets : Option (List TargetSpec)) :
    Blind (replaceGroupTargets groupId targets) := by
  cases targets with
  | none => exact agrees_pure rfl
  | some targets =>
      exact (agrees_deleteRows (fun db => db.deleteGroupTargets groupId) fun _ => rfl).bindEq
        fun _ => agrees_insertGroupTargetRows _ _

theorem agrees_updateDestinationGroup (id : Uuid) (payload : UpdateDestinationGroupPayload) :
    Blind (Handlers.updateDestinationGroup env caller id payload) := by
  refine (agrees_findPlain fun _ => rfl).bindEq fun _ => ?_
  refine (agrees_requireManage _ _).bindEq fun _ => ?_
  refine (agrees_lift _).bindEq fun _ => (agrees_lift _).bindEq fun _ => ?_
  refine (agrees_transaction ?_).bindEq fun _ => ?_
  · refine Agrees.bindEq (agrees_updateRow (fun db => db.updateDestinationGroup id _ _) fun db =>
      db.updateDestinationGroup_concealed id _ _) fun _ => ?_
    exact (agrees_replaceGroupTargets _ _).bindEq fun _ =>
      (agrees_createAuditLog _ _).bindEq fun _ => agrees_pure rfl
  · exact (agrees_queryPlain fun _ => rfl).bindEq fun _ =>
      (agrees_queryPlain fun _ => rfl).bindEq fun _ => agrees_pure rfl

theorem agrees_deleteDestinationGroup (id : Uuid) :
    Blind (Handlers.deleteDestinationGroup env caller id) :=
  (agrees_findPlain fun _ => rfl).bindEq fun _ => (agrees_lift _).bindEq fun _ =>
    agrees_deleteResource (fun db => db.deleteDestinationGroup id) fun _ => rfl

theorem agrees_loadFeedInGroup (groupId feedId : Uuid) : Blind (loadFeedInGroup groupId feedId) :=
  (agrees_findPlain fun _ => rfl).bindEq fun _ => (agrees_lift _).bindEq fun _ => agrees_pure rfl

theorem agrees_createFeed (groupId : Uuid) (payload : CreateFeedPayload) :
    Blind (Handlers.createFeed env caller groupId payload) := by
  refine (agrees_findPlain fun _ => rfl).bindEq fun _ => ?_
  refine (agrees_requireManage _ _).bindEq fun _ => ?_
  refine (agrees_lift _).bindEq fun _ => (agrees_lift _).bindEq fun _ => ?_
  refine (agrees_insertRow (fun db => db.insertExternalSource _) fun db =>
    db.insertExternalSource_concealed _).bindEq fun _ => ?_
  exact (agrees_createAuditLog _ _).bindEq fun _ => agrees_pure rfl

theorem agrees_updateFeed (groupId feedId : Uuid) (payload : UpdateFeedPayload) :
    Blind (Handlers.updateFeed env caller groupId feedId payload) := by
  refine (agrees_loadFeedInGroup _ _).bindEq fun _ => (agrees_requireManage _ _).bindEq fun _ => ?_
  refine (agrees_lift _).bindEq fun _ => (agrees_lift _).bindEq fun _ => ?_
  refine Agrees.bindEq (agrees_updateRow (fun db => db.updateExternalSource feedId _ _) fun db =>
    db.updateExternalSource_concealed feedId _ _) fun _ => ?_
  exact (agrees_createAuditLog _ _).bindEq fun _ => agrees_pure rfl

theorem agrees_deleteFeed (groupId feedId : Uuid) :
    Blind (Handlers.deleteFeed env caller groupId feedId) :=
  (agrees_loadFeedInGroup _ _).bindEq fun _ => (agrees_requireManage _ _).bindEq fun _ =>
    agrees_deleteResource (fun db => db.deleteExternalSource feedId) fun _ => rfl

theorem agrees_testFetchExternalSource (payload : TestFetchPayload) :
    Blind (Handlers.testFetchExternalSource env caller payload) := by
  refine (agrees_lift _).bindEq fun _ => (agrees_lift _).bindEq fun _ => ?_
  cases env.fetchAndParse payload.sourceUrl payload.parserType payload.parserConfigJson with
  | error e => exact agrees_pure rfl
  | ok addresses =>
      simp only
      split
      · exact agrees_pure rfl
      · exact agrees_pure rfl

theorem agrees_loadTask (task : OwnedVaultSyncTask) : Blind (loadTask task) :=
  (agrees_queryPlain fun _ => rfl).bindEq fun _ => agrees_pure rfl

theorem agrees_listVaultSyncTasks : Blind (Handlers.listVaultSyncTasks caller) :=
  (agrees_queryPlain fun _ => rfl).bindEq fun _ =>
    (agrees_filterRows (fun _ => agrees_isVisible _ _ _) _).bindEq fun _ =>
      (agrees_mapRows agrees_loadTask _).bindEq fun _ => agrees_pure rfl

theorem agrees_getVaultSyncTask (id : Uuid) : Blind (Handlers.getVaultSyncTask caller id) :=
  (agrees_findPlain fun _ => rfl).bindEq fun _ => (agrees_isVisible _ _ _).bindEq fun _ =>
    (agrees_lift _).bindEq fun _ => (agrees_queryPlain fun _ => rfl).bindEq fun _ => agrees_pure rfl

theorem agrees_insertTaskTargetRows (taskId : Uuid) (targets : List TargetSpec) :
    Blind (insertTaskTargetRows taskId targets) :=
  agrees_insertTargets (fun target db =>
    db.insertTaskTarget ⟨taskId, target.vaultEndpointId, target.targetGroupName⟩)
    (fun _ db => db.insertTaskTarget_concealed _) targets

theorem agrees_createVaultSyncTask (payload : CreateVaultSyncTaskPayload) :
    Blind (Handlers.createVaultSyncTask env caller payload) := by
  refine (agrees_lift _).bindEq fun _ => (agrees_lift _).bindEq fun _ => ?_
  refine (agrees_transaction ?_).bindEq fun _ => agrees_pure rfl
  refine (agrees_insertRow (fun db => db.insertVaultSyncTask _) fun db =>
    db.insertVaultSyncTask_concealed _).bindEq fun _ => ?_
  exact (agrees_insertTaskTargetRows _ _).bindEq fun _ =>
    (agrees_grantFullPermission _ _ _).bindEq fun _ => agrees_createAuditLog _ _

theorem agrees_replaceTaskTargets (taskId : Uuid) (targets : Option (List TargetSpec)) :
    Blind (replaceTaskTargets taskId targets) := by
  cases targets with
  | none => exact agrees_pure rfl
  | some targets =>
      exact (agrees_deleteRows (fun db => db.deleteTaskTargets taskId) fun _ => rfl).bindEq
        fun _ => agrees_insertTaskTargetRows _ _

theorem agrees_updateVaultSyncTask (id : Uuid) (payload : UpdateVaultSyncTaskPayload) :
    Blind (Handlers.updateVaultSyncTask env caller id payload) := by
  refine (agrees_findPlain fun _ => rfl).bindEq fun _ => ?_
  refine (agrees_requireManage _ _).bindEq fun _ => ?_
  refine (agrees_lift _).bindEq fun _ => (agrees_transaction ?_).bindEq fun _ => ?_
  · refine Agrees.bindEq (agrees_updateRow (fun db => db.updateVaultSyncTask id _ _) fun db =>
      db.updateVaultSyncTask_concealed id _ _) fun _ => ?_
    exact (agrees_replaceTaskTargets _ _).bindEq fun _ =>
      (agrees_createAuditLog _ _).bindEq fun _ => agrees_pure rfl
  · exact (agrees_queryPlain fun _ => rfl).bindEq fun _ => agrees_pure rfl

theorem agrees_deleteVaultSyncTask (id : Uuid) :
    Blind (Handlers.deleteVaultSyncTask env caller id) :=
  (agrees_findPlain fun _ => rfl).bindEq fun _ => (agrees_lift _).bindEq fun _ =>
    agrees_deleteResource (fun db => db.deleteVaultSyncTask id) fun _ => rfl

/-! ### Logs -/

theorem agrees_listSyncLogs (query : SyncLogQuery) :
    Blind (Handlers.listSyncLogs caller query) := by
  refine (agrees_queryPlain fun _ => rfl).bindEq fun rows => ?_
  cases caller.isMaster with
  | true => exact agrees_pure rfl
  | false =>
      refine (agrees_filterRows ?_ rows).bindEq fun _ => agrees_pure rfl
      intro row
      cases resourceTypeFor row.jobType with
      | none => exact agrees_pure rfl
      | some resourceType =>
          exact (agrees_findPermission _ _ _).bindEq fun _ => agrees_pure rfl

theorem agrees_listAuditLogs (query : AuditLogQuery) :
    Blind (Handlers.listAuditLogs caller query) :=
  (agrees_lift _).bindEq fun _ => (agrees_queryPlain fun _ => rfl).bindEq fun _ => agrees_pure rfl

/-! ### The router -/

/-- The request runs no job. -/
def Request.runsNoJob : Request → Bool
  | .triggerDestinationGroup _ => false
  | .triggerVaultSyncTask _ => false
  | _ => true

/-- **Every request that runs no job** does and answers the same on databases that look alike. -/
theorem agrees_handle (fuel : ℕ) {request : Request} (hjob : request.runsNoJob = true) :
    Blind (handle fuel env caller request) := by
  cases request with
  | rejected e => exact agrees_refuse e
  | getMe => exact agrees_pure rfl
  | listApiKeys => exact agrees_listApiKeys
  | getApiKey id => exact agrees_getApiKey id
  | createApiKey payload => exact agrees_createApiKey payload
  | updateApiKey id payload => exact agrees_updateApiKey id payload
  | deleteApiKey id => exact agrees_deleteApiKey fuel id
  | rotateApiKey id => exact agrees_rotateApiKey id
  | rotateSigningSecret id => exact agrees_rotateSigningSecret id
  | listKeyPermissions id => exact agrees_listKeyPermissions id
  | grantKeyPermission id payload => exact agrees_grantKeyPermission id payload
  | revokeKeyPermission id permissionId => exact agrees_revokeKeyPermission id permissionId
  | listVaultEndpoints => exact agrees_listVaultEndpoints
  | getVaultEndpoint id => exact agrees_getVaultEndpoint id
  | createVaultEndpoint payload => exact agrees_createVaultEndpoint payload
  | updateVaultEndpoint id payload => exact agrees_updateVaultEndpoint id payload
  | deleteVaultEndpoint id => exact agrees_deleteVaultEndpoint id
  | testFetchExternalSource payload => exact agrees_testFetchExternalSource payload
  | listDestinationGroups => exact agrees_listDestinationGroups
  | getDestinationGroup id => exact agrees_getDestinationGroup id
  | createDestinationGroup payload => exact agrees_createDestinationGroup payload
  | updateDestinationGroup id payload => exact agrees_updateDestinationGroup id payload
  | deleteDestinationGroup id => exact agrees_deleteDestinationGroup id
  | triggerDestinationGroup id => cases hjob
  | createFeed groupId payload => exact agrees_createFeed groupId payload
  | updateFeed groupId feedId payload => exact agrees_updateFeed groupId feedId payload
  | deleteFeed groupId feedId => exact agrees_deleteFeed groupId feedId
  | listVaultSyncTasks => exact agrees_listVaultSyncTasks
  | getVaultSyncTask id => exact agrees_getVaultSyncTask id
  | createVaultSyncTask payload => exact agrees_createVaultSyncTask payload
  | updateVaultSyncTask id payload => exact agrees_updateVaultSyncTask id payload
  | deleteVaultSyncTask id => exact agrees_deleteVaultSyncTask id
  | triggerVaultSyncTask id => cases hjob
  | listSyncLogs query => exact agrees_listSyncLogs query
  | listAuditLogs query => exact agrees_listAuditLogs query

/-- **No request looks at the secret of its caller.** -/
theorem handle_concealed (fuel : ℕ) (env : Env) (caller : ApiKey) (request : Request) :
    handle fuel env caller.concealed request = handle fuel env caller request := by
  cases request <;> rfl

end Requests

end SimplyIpSync.Api
