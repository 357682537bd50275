import SimplyIpSync.Api.Amplification
import SimplyIpSync.Api.Completeness

/-!
# Who can delete or rename a resource (`RBAC_MODEL.md`, §3)

A resource is to be deleted or renamed by its owner and the Master only.  The three deletions check
that; the three updates check the rights to manage alone, so that a manager renames what it does not
own, and the deletion of a vault endpoint takes the tasks that read from it along, whoever owns
them.  `lifecycle_kept_iff` says that nothing else gets past the owner.
-/

namespace SimplyIpSync.Api

open SimplyIpSync.Entities SimplyIpSync.Storage SimplyIpSync.Program SimplyIpSync.Reach

/-- The name of a resource; `none` when the resource does not exist. -/
def Database.nameOf (db : Database) (resource : Resource) : Option String :=
  if resource.resourceType = resourceVaultEndpoint then
    (db.vaultEndpoints.find? resource.id).map fun row => row.name
  else if resource.resourceType = resourceDestinationGroup then
    (db.destinationGroups.find? resource.id).map fun row => row.name
  else if resource.resourceType = resourceSyncTask then
    (db.vaultSyncTasks.find? resource.id).map fun row => row.name
  else none

/-- The checks of the request pass in `db`, and the database takes its row write. -/
def Accepts (fuel : ℕ) (env : Env) (caller : ApiKey) (db : Database) (request : Request) : Prop :=
  ∃ db₁, Change fuel env caller db request db₁

/-- The request is a `PATCH` of the resource with another name. -/
def Request.renames (db : Database) (resource : Resource) : Request → Prop
  | .updateVaultEndpoint id payload =>
      resource = ⟨resourceVaultEndpoint, id⟩ ∧
        ∃ name, payload.name = some name ∧ db.nameOf resource ≠ some name
  | .updateDestinationGroup id payload =>
      resource = ⟨resourceDestinationGroup, id⟩ ∧
        ∃ name, payload.name = some name ∧ db.nameOf resource ≠ some name
  | .updateVaultSyncTask id payload =>
      resource = ⟨resourceSyncTask, id⟩ ∧
        ∃ name, payload.name = some name ∧ db.nameOf resource ≠ some name
  | _ => False

/-- The request deletes the vault endpoint that the resource, a task, reads from. -/
def Request.deletesSourceOf (db : Database) (resource : Resource) : Request → Prop
  | .deleteVaultEndpoint id =>
      resource.resourceType = resourceSyncTask ∧
        ∃ task, db.vaultSyncTasks.find? resource.id = some task ∧ task.sourceVaultId = id
  | _ => False

section Kinds

variable {db db₁ s : Database} {id : Uuid}

theorem nameOf_vault : db.nameOf ⟨resourceVaultEndpoint, id⟩ =
    (db.vaultEndpoints.find? id).map fun row => row.name := if_pos rfl

theorem nameOf_group : db.nameOf ⟨resourceDestinationGroup, id⟩ =
    (db.destinationGroups.find? id).map fun row => row.name := by
  simp [Database.nameOf, resourceDestinationGroup, resourceVaultEndpoint]

theorem nameOf_task : db.nameOf ⟨resourceSyncTask, id⟩ =
    (db.vaultSyncTasks.find? id).map fun row => row.name := by
  simp [Database.nameOf, resourceSyncTask, resourceDestinationGroup, resourceVaultEndpoint]

/-- A resource that exists is of one of the three kinds. -/
theorem kind_of_ownerOf {resource : Resource} {owner : Option Uuid}
    (h : db.ownerOf resource = some owner) :
    (resource.resourceType = resourceVaultEndpoint ∧
        ∃ row, db.vaultEndpoints.find? resource.id = some row ∧ row.ownerKeyId = owner) ∨
      (resource.resourceType = resourceDestinationGroup ∧
        ∃ row, db.destinationGroups.find? resource.id = some row ∧ row.ownerKeyId = owner) ∨
      (resource.resourceType = resourceSyncTask ∧
        ∃ row, db.vaultSyncTasks.find? resource.id = some row ∧ row.ownerKeyId = owner) := by
  rw [Database.ownerOf] at h
  split at h
  · rename_i hkind
    exact Or.inl ⟨hkind, Option.map_eq_some_iff.mp h⟩
  · split at h
    · rename_i hkind
      exact Or.inr (Or.inl ⟨hkind, Option.map_eq_some_iff.mp h⟩)
    · split at h
      · rename_i hkind
        exact Or.inr (Or.inr ⟨hkind, Option.map_eq_some_iff.mp h⟩)
      · cases h

theorem Quiet.nameOf (h : Quiet db s) (resource : Resource) :
    s.nameOf resource = db.nameOf resource := by
  have hgroup := congrArg (Option.map fun row : OwnedDestinationGroup => row.name)
    (h.destinationGroups resource.id)
  have htask := congrArg (Option.map fun row : OwnedVaultSyncTask => row.name)
    (h.vaultSyncTasks resource.id)
  simp only [Option.map_map] at hgroup htask
  rw [Database.nameOf, Database.nameOf, h.vaultEndpoints]
  exact if_congr Iff.rfl rfl (if_congr Iff.rfl hgroup (if_congr Iff.rfl htask rfl))

end Kinds

/-! ### What a row write does to a resource that is not the caller's -/

section Kept

variable {fuel : ℕ} {env : Env} {caller : ApiKey} {db db₁ : Database} {request : Request}
  {id : Uuid}

/-- The owner and the Master pass `guard_resource_lifecycle`, nobody else. -/
theorem not_lifecycle {ownerKeyId : Option Uuid} (hmaster : caller.isMaster = false)
    (howner : ownerKeyId ≠ some caller.id) : guardResourceLifecycle caller ownerKeyId ≠ .ok () := by
  intro hlifecycle
  rcases guardResourceLifecycle_ok.mp hlifecycle with hcaller | hcaller
  · rw [hmaster] at hcaller
    cases hcaller
  · exact howner hcaller

section Patch

variable {ρ : Type} {key : ρ → Uuid} {t : Table key} {payload : Option String} {id j : Uuid}
  {row : ρ}

/-- A `PATCH` of another row, or one that leaves the name alone or repeats it. -/
theorem name_kept_of_patch (name : ρ → String) (f : ρ → ρ) (hf : ∀ r, key (f r) = key r)
    (hname : ∀ r, name (f r) = payload.getD (name r)) (hrow : t.find? id = some row)
    (hsame : id = j → ¬∃ name', payload = some name' ∧ some (name row) ≠ some name') :
    ((t.modify j f hf).find? id).map name = some (name row) := by
  rw [Table.find?_modify_of_find? f hf hrow, Option.map_some, Option.some.injEq]
  by_cases hid : id = j
  · rw [if_pos hid, hname]
    cases hpayload : payload with
    | none => rfl
    | some name' =>
        by_contra hne
        exact hsame hid ⟨name', hpayload, fun heq => hne (Option.some.inj heq).symm⟩
  · rw [if_neg hid]

/-- A `PATCH` with a name sets it. -/
theorem name_of_patch (name : ρ → String) (f : ρ → ρ) (hf : ∀ r, key (f r) = key r)
    (hname : ∀ r, name (f r) = payload.getD (name r)) (hrow : t.find? j = some row)
    {name' : String} (hpayload : payload = some name') :
    ((t.modify j f hf).find? j).map name = some name' := by
  rw [Table.find?_modify_of_find? f hf hrow, if_pos rfl, Option.map_some, hname, hpayload]
  rfl

/-- The row that is deleted is the caller's. -/
theorem ne_of_lifecycle {existing : ρ} (owner : ρ → Option Uuid) (hmaster : caller.isMaster = false)
    (hrow : t.find? id = some row) (howner : owner row ≠ some caller.id)
    (hexisting : t.find? j = some existing)
    (hlifecycle : guardResourceLifecycle caller (owner existing) = .ok ()) : id ≠ j := by
  rintro rfl
  obtain rfl := Option.some.inj (hrow.symm.trans hexisting)
  exact not_lifecycle hmaster howner hlifecycle

end Patch

theorem Change.keepsVault (h : Change fuel env caller db request db₁)
    (hmaster : caller.isMaster = false) {row : OwnedVaultEndpoint}
    (hrow : db.vaultEndpoints.find? id = some row) (howner : row.ownerKeyId ≠ some caller.id)
    (hname : ¬request.renames db ⟨resourceVaultEndpoint, id⟩) :
    db₁.nameOf ⟨resourceVaultEndpoint, id⟩ = some row.name := by
  have hframe := h.frame
  rw [nameOf_vault]
  cases h with
  | createVaultEndpoint _ _ hwrite =>
      obtain ⟨rows, hinsert, rfl⟩ := insertVaultEndpoint_ok hwrite
      simp only [Table.find?_insert?_of_find? hinsert hrow, Option.map_some]
  | @updateVaultEndpoint _ payload _ _ envelope _ _ _ _ hwrite =>
      obtain ⟨_, -, -, rfl⟩ := updateVaultEndpoint_ok hwrite
      refine name_kept_of_patch (fun row => row.name) (payload.applyTo envelope env.now)
        (fun _ => rfl) (fun _ => rfl) hrow ?_
      rintro rfl
      simpa only [Request.renames, true_and, nameOf_vault, hrow, Option.map_some] using hname
  | deleteVaultEndpoint hexisting hlifecycle =>
      have hid := ne_of_lifecycle (fun row => row.ownerKeyId) hmaster hrow howner hexisting
        hlifecycle
      simp only [Database.deleteVaultEndpoint, Table.find?_deleteKey, if_neg hid, hrow,
        Option.map_some]
  | _ => rw [hframe.vaultEndpoints (by simp [Request.writes]), hrow, Option.map_some]

theorem Change.keepsGroup (h : Change fuel env caller db request db₁)
    (hmaster : caller.isMaster = false) {row : OwnedDestinationGroup}
    (hrow : db.destinationGroups.find? id = some row) (howner : row.ownerKeyId ≠ some caller.id)
    (hname : ¬request.renames db ⟨resourceDestinationGroup, id⟩) :
    db₁.nameOf ⟨resourceDestinationGroup, id⟩ = some row.name := by
  have hframe := h.frame
  rw [nameOf_group]
  cases h with
  | createDestinationGroup _ _ _ hwrite htargets =>
      obtain ⟨rows, hinsert, rfl⟩ := insertDestinationGroup_ok hwrite
      obtain ⟨_, rfl⟩ := addGroupTargets_ok htargets
      simp only [Table.find?_insert?_of_find? hinsert hrow, Option.map_some]
  | @updateDestinationGroup _ payload _ _ _ _ _ _ _ _ hwrite htargets =>
      obtain ⟨_, -, -, rfl⟩ := updateDestinationGroup_ok hwrite
      obtain ⟨_, rfl⟩ := setGroupTargets_ok htargets
      refine name_kept_of_patch (fun row => row.name) (payload.applyTo env.now)
        (fun _ => rfl) (fun _ => rfl) hrow ?_
      rintro rfl
      simpa only [Request.renames, true_and, nameOf_group, hrow, Option.map_some] using hname
  | deleteDestinationGroup hexisting hlifecycle =>
      have hid := ne_of_lifecycle (fun row => row.ownerKeyId) hmaster hrow howner hexisting
        hlifecycle
      simp only [Database.deleteDestinationGroup, Table.find?_deleteKey, if_neg hid, hrow,
        Option.map_some]
  | _ => rw [hframe.destinationGroups (by simp [Request.writes]), hrow, Option.map_some]

theorem Change.keepsTask (h : Change fuel env caller db request db₁)
    (hmaster : caller.isMaster = false) {row : OwnedVaultSyncTask}
    (hrow : db.vaultSyncTasks.find? id = some row) (howner : row.ownerKeyId ≠ some caller.id)
    (hname : ¬request.renames db ⟨resourceSyncTask, id⟩)
    (hsource : ¬request.deletesSourceOf db ⟨resourceSyncTask, id⟩) :
    db₁.nameOf ⟨resourceSyncTask, id⟩ = some row.name := by
  have hframe := h.frame
  rw [nameOf_task]
  cases h with
  | createVaultSyncTask _ _ hwrite htargets =>
      obtain ⟨rows, hinsert, rfl⟩ := insertVaultSyncTask_ok hwrite
      obtain ⟨_, rfl⟩ := addTaskTargets_ok htargets
      simp only [Table.find?_insert?_of_find? hinsert hrow, Option.map_some]
  | @updateVaultSyncTask _ payload _ _ _ _ _ _ _ hwrite htargets =>
      obtain ⟨_, -, -, rfl⟩ := updateVaultSyncTask_ok hwrite
      obtain ⟨_, rfl⟩ := setTaskTargets_ok htargets
      refine name_kept_of_patch (fun row => row.name) (payload.applyTo env.now)
        (fun _ => rfl) (fun _ => rfl) hrow ?_
      rintro rfl
      simpa only [Request.renames, true_and, nameOf_task, hrow, Option.map_some] using hname
  | deleteVaultSyncTask hexisting hlifecycle =>
      have hid := ne_of_lifecycle (fun row => row.ownerKeyId) hmaster hrow howner hexisting
        hlifecycle
      simp only [Database.deleteVaultSyncTask, Table.find?_deleteKey, if_neg hid, hrow,
        Option.map_some]
  | @deleteVaultEndpoint j _ _ _ =>
      -- the cascade takes the tasks of that vault only
      simp only [Request.deletesSourceOf, true_and, hrow, Option.some.injEq,
        exists_eq_left'] at hsource
      have hkept : (db.vaultSyncTasks.deleteWhere fun r => r.sourceVaultId = j).find? id =
          some row := Table.find?_deleteWhere_of_find? hrow (decide_eq_false hsource)
      simp only [Database.deleteVaultEndpoint, hkept, Option.map_some]
  | _ => rw [hframe.vaultSyncTasks (by simp [Request.writes]), hrow, Option.map_some]

/-- **One row write.** -/
theorem Change.nameOf (h : Change fuel env caller db request db₁) (hmaster : caller.isMaster = false)
    {resource : Resource} {owner : Option Uuid} (howner : db.ownerOf resource = some owner)
    (hcaller : owner ≠ some caller.id) (hname : ¬request.renames db resource)
    (hsource : ¬request.deletesSourceOf db resource) :
    db₁.nameOf resource = db.nameOf resource := by
  obtain ⟨resourceType, id⟩ := resource
  rcases kind_of_ownerOf howner with ⟨hkind, row, hrow, rfl⟩ | ⟨hkind, row, hrow, rfl⟩ |
    ⟨hkind, row, hrow, rfl⟩
  · obtain rfl : resourceType = resourceVaultEndpoint := hkind
    rw [h.keepsVault hmaster hrow hcaller hname, nameOf_vault, hrow, Option.map_some]
  · obtain rfl : resourceType = resourceDestinationGroup := hkind
    rw [h.keepsGroup hmaster hrow hcaller hname, nameOf_group, hrow, Option.map_some]
  · obtain rfl : resourceType = resourceSyncTask := hkind
    rw [h.keepsTask hmaster hrow hcaller hname hsource, nameOf_task, hrow, Option.map_some]

theorem nameOf_of_grantToCreator {db₂ : Database}
    (h : grantToCreator env caller request db₁ = .ok db₂) (resource : Resource) :
    db₂.nameOf resource = db₁.nameOf resource := by
  rcases grantToCreator_ok h with ⟨-, rfl⟩ | ⟨_, _, -, -, rfl⟩
  · rfl
  · rfl

/-- An accepted rename renames. -/
theorem Change.renamed (h : Change fuel env caller db request db₁) {resource : Resource}
    (hname : request.renames db resource) : db₁.nameOf resource ≠ db.nameOf resource := by
  cases h with
  | @updateVaultEndpoint _ payload _ _ envelope _ hexisting _ _ hwrite =>
      obtain ⟨rfl, name, hpayload, hne⟩ := hname
      obtain ⟨_, -, -, rfl⟩ := updateVaultEndpoint_ok hwrite
      rw [nameOf_vault]
      refine ne_of_eq_of_ne ?_ (Ne.symm hne)
      exact name_of_patch (fun row => row.name) (payload.applyTo envelope env.now) (fun _ => rfl)
        (fun _ => rfl) hexisting hpayload
  | @updateDestinationGroup _ payload _ _ _ _ hexisting _ _ _ hwrite htargets =>
      obtain ⟨rfl, name, hpayload, hne⟩ := hname
      obtain ⟨_, -, -, rfl⟩ := updateDestinationGroup_ok hwrite
      obtain ⟨_, rfl⟩ := setGroupTargets_ok htargets
      rw [nameOf_group]
      refine ne_of_eq_of_ne ?_ (Ne.symm hne)
      exact name_of_patch (fun row => row.name) (payload.applyTo env.now) (fun _ => rfl)
        (fun _ => rfl) hexisting hpayload
  | @updateVaultSyncTask _ payload _ _ _ _ hexisting _ _ hwrite htargets =>
      obtain ⟨rfl, name, hpayload, hne⟩ := hname
      obtain ⟨_, -, -, rfl⟩ := updateVaultSyncTask_ok hwrite
      obtain ⟨_, rfl⟩ := setTaskTargets_ok htargets
      rw [nameOf_task]
      refine ne_of_eq_of_ne ?_ (Ne.symm hne)
      exact name_of_patch (fun row => row.name) (payload.applyTo env.now) (fun _ => rfl)
        (fun _ => rfl) hexisting hpayload
  | _ => cases hname

/-- An accepted deletion of a vault endpoint takes the tasks that read from it along. -/
theorem Change.cascaded (h : Change fuel env caller db request db₁) {resource : Resource}
    (hsource : request.deletesSourceOf db resource) : db₁.nameOf resource ≠ db.nameOf resource := by
  obtain ⟨resourceType, id⟩ := resource
  cases h with
  | @deleteVaultEndpoint j _ _ _ =>
      obtain ⟨hkind, task, htask, htaskSource⟩ := hsource
      obtain rfl : resourceType = resourceSyncTask := hkind
      rw [nameOf_task, nameOf_task, htask]
      simp only [Database.deleteVaultEndpoint, Table.find?_deleteWhere, htask, Option.filter_some,
        htaskSource, decide_true, Bool.not_true, Bool.false_eq_true, if_false, Option.map_none,
        Option.map_some]
      intro hname
      cases hname
  | _ => cases hsource

/-- A request that renames, or deletes a source, creates nothing and leaves the keys alone. -/
theorem creates_and_writes_of_touches {resource : Resource}
    (h : request.renames db resource ∨ request.deletesSourceOf db resource) :
    request.createdType = none ∧ .apiKeys ∉ request.writes := by
  cases request with
  | updateVaultEndpoint => exact ⟨rfl, by simp [Request.writes]⟩
  | updateDestinationGroup => exact ⟨rfl, by simp [Request.writes]⟩
  | updateVaultSyncTask => exact ⟨rfl, by simp [Request.writes]⟩
  | deleteVaultEndpoint => exact ⟨rfl, by simp [Request.writes]⟩
  | _ => exact absurd h (by simp [Request.renames, Request.deletesSourceOf])

end Kept

/-- **Exactly when a resource is safe from a request of a key that is neither its owner nor the
Master:** unless the request is an accepted `PATCH` of the resource with another name, or the
accepted deletion of the vault endpoint that the resource, a task, reads from, the resource is still
there, under its name, wherever the call ends. -/
theorem lifecycle_kept_iff {db : Database} {callerId : Uuid} {caller : ApiKey}
    (hcaller : db.callerOf callerId = some caller) (hmaster : caller.isMaster = false)
    {resource : Resource} {owner : Option Uuid} (howner : db.ownerOf resource = some owner)
    (hother : owner ≠ some callerId) (request : Request) (env : Env) (fuel : ℕ) :
    (∀ fault s, serve db ⟨callerId, request, env, fuel, fault⟩ = some s →
        s.nameOf resource = db.nameOf resource) ↔
      ¬(Accepts fuel env caller db request ∧
        (request.renames db resource ∨ request.deletesSourceOf db resource)) := by
  have hid := callerOf_id hcaller
  constructor
  · intro hkept ⟨⟨db₁, hchange⟩, htouches⟩
    obtain ⟨hcreates, hkeys⟩ := creates_and_writes_of_touches htouches
    have hkey : db₁.hasKey caller.id = true := by
      rw [Database.hasKey, hchange.frame.apiKeys hkeys, hid]
      exact hasKey_of_callerOf hcaller
    obtain ⟨s, hserve, hquiet⟩ := serve_of_change hcaller hchange hcreates hkey
    have hname := hkept none s hserve
    rw [hquiet.nameOf] at hname
    rcases htouches with hrenames | hsource
    · exact hchange.renamed hrenames hname
    · exact hchange.cascaded hsource hname
  · intro hnot fault s hserve
    obtain ⟨caller', hcaller', hleaves⟩ := leaves_of_serve hserve
    obtain rfl := Option.some.inj (hcaller.symm.trans hcaller')
    rw [← hid] at hother
    have hchanged : ∀ db₁, Change fuel env caller db request db₁ →
        db₁.nameOf resource = db.nameOf resource := by
      intro db₁ hchange
      have htouches := fun h => hnot ⟨⟨db₁, hchange⟩, h⟩
      exact hchange.nameOf hmaster howner hother (fun h => htouches (Or.inl h))
        (fun h => htouches (Or.inr h))
    cases hleaves with
    | unchanged hquiet => exact hquiet.nameOf resource
    | written hchange hquiet => rw [hquiet.nameOf, hchanged _ hchange]
    | granted hchange hgrant hquiet =>
        rw [hquiet.nameOf, nameOf_of_grantToCreator hgrant, hchanged _ hchange]

/-- The runs below: a Master (1), two managers (2 and 3), a vault endpoint of the first (4) that the
second may manage, and a task of the second (5) that reads from it. -/
def lifecycleCalls : List Call :=
  [.plain 1 2 (.createApiKey (.plain "owner" true true true)),
    .plain 1 3 (.createApiKey (.plain "manager" true true true)),
    .plain 2 4 (.createVaultEndpoint ⟨"vault", "https://vault", "key", "secret", none⟩),
    .plain 2 6 (.grantKeyPermission 3 ⟨resourceVaultEndpoint, 4, true, true, true⟩),
    .plain 3 5 (.createVaultSyncTask ⟨"task", 4, "group", "group", "* * * * *", true, false, []⟩)]

/-- The manager's `PATCH` of the endpoint that it does not own. -/
def renamingCall : Call :=
  .plain 3 7 (.updateVaultEndpoint 4 ⟨⟨some "renamed", none, none, none⟩, none⟩)

/-- The manager asks for the name of the owner's endpoint to be changed. -/
theorem lifecycle_kept_iff_manager :
    ∃ db caller, runEvents serve anyStep .fresh lifecycleCalls = some db ∧
      db.callerOf 3 = some caller ∧
      ((∀ fault s, serve db ⟨3, renamingCall.request, .plain 7, 8, fault⟩ = some s →
          s.nameOf ⟨resourceVaultEndpoint, 4⟩ = db.nameOf ⟨resourceVaultEndpoint, 4⟩) ↔
        ¬(Accepts 8 (.plain 7) caller db renamingCall.request ∧
          (renamingCall.request.renames db ⟨resourceVaultEndpoint, 4⟩ ∨
            renamingCall.request.deletesSourceOf db ⟨resourceVaultEndpoint, 4⟩))) := by
  have hrun : ((runEvents serve anyStep .fresh lifecycleCalls).map fun db =>
      ((db.callerOf 3).map ApiKey.isMaster, db.ownerOf ⟨resourceVaultEndpoint, 4⟩)) =
        some (some false, some (some 2)) := by decide +kernel
  obtain ⟨db, hdb, hfacts⟩ := Option.map_eq_some_iff.mp hrun
  obtain ⟨hmaster, howner⟩ := Prod.mk.inj hfacts
  obtain ⟨caller, hcaller, hflag⟩ := Option.map_eq_some_iff.mp hmaster
  exact ⟨db, caller, hdb, hcaller,
    lifecycle_kept_iff hcaller hflag howner (by decide) renamingCall.request (.plain 7) 8⟩

/-- A manager renames an endpoint that it does not own, and the deletion of the endpoint takes the
manager's task along. -/
theorem renamed_and_cascaded :
    ∃ db renamed deleted, runEvents serve anyStep .fresh lifecycleCalls = some db ∧
      serve db renamingCall = some renamed ∧
      serve db (.plain 2 8 (.deleteVaultEndpoint 4)) = some deleted ∧
      (db.callerOf 2).map ApiKey.isMaster = some false ∧
      (db.callerOf 3).map ApiKey.isMaster = some false ∧
      db.ownerOf ⟨resourceVaultEndpoint, 4⟩ = some (some 2) ∧
      db.nameOf ⟨resourceVaultEndpoint, 4⟩ = some "vault" ∧
      renamed.nameOf ⟨resourceVaultEndpoint, 4⟩ = some "renamed" ∧
      db.ownerOf ⟨resourceSyncTask, 5⟩ = some (some 3) ∧
      deleted.nameOf ⟨resourceSyncTask, 5⟩ = none := by
  have hrun : ((runEvents serve anyStep .fresh lifecycleCalls).bind fun db =>
      (serve db renamingCall).bind fun renamed =>
        (serve db (.plain 2 8 (.deleteVaultEndpoint 4))).map fun deleted =>
          decide ((db.callerOf 2).map ApiKey.isMaster = some false ∧
            (db.callerOf 3).map ApiKey.isMaster = some false ∧
            db.ownerOf ⟨resourceVaultEndpoint, 4⟩ = some (some 2) ∧
            db.nameOf ⟨resourceVaultEndpoint, 4⟩ = some "vault" ∧
            renamed.nameOf ⟨resourceVaultEndpoint, 4⟩ = some "renamed" ∧
            db.ownerOf ⟨resourceSyncTask, 5⟩ = some (some 3) ∧
            deleted.nameOf ⟨resourceSyncTask, 5⟩ = none)) = some true := by decide +kernel
  obtain ⟨db, hdb, hrun⟩ := Option.bind_eq_some_iff.mp hrun
  obtain ⟨renamed, hrenamed, hrun⟩ := Option.bind_eq_some_iff.mp hrun
  obtain ⟨deleted, hdeleted, hfacts⟩ := Option.map_eq_some_iff.mp hrun
  exact ⟨db, renamed, deleted, hdb, hrenamed, hdeleted, of_decide_eq_true hfacts⟩

end SimplyIpSync.Api
