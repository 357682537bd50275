import SimplyIpSync.Api.Soundness
import SimplyIpSync.Lib.Guarantee

/-!
# What a call leaves behind

A handler that only reads changes nothing, a trigger writes logs and the stamp of a job, and a
mutating request leaves what its change and the creator's permission amount to.  `leaves_of_serve`
says so of every call, whichever of its statements fails.
-/

namespace SimplyIpSync.Api

open SimplyIpSync.Entities SimplyIpSync.Storage SimplyIpSync.Program SimplyIpSync.Program.Prog

/-! ### Reading handlers -/

section Reading

variable {env : Env} {caller : ApiKey} {guar : Database → Database → Prop}

theorem keeps_filterRows {ρ : Type} {test : ρ → Handler Bool} (htest : ∀ row, Keeps guar (test row))
    (rows : List ρ) : Keeps guar (filterRows test rows) := by
  induction rows with
  | nil => exact keeps_pure []
  | cons row rest ih => exact (htest row).bind fun _ => ih.bind fun _ => keeps_pure _

theorem keeps_mapRows {ρ β : Type} {load : ρ → Handler β} (hload : ∀ row, Keeps guar (load row))
    (rows : List ρ) : Keeps guar (mapRows load rows) := by
  induction rows with
  | nil => exact keeps_pure []
  | cons row rest ih => exact (hload row).bind fun _ => ih.bind fun _ => keeps_pure _

theorem keeps_testFetchExternalSource (payload : TestFetchPayload) :
    Keeps guar (Handlers.testFetchExternalSource env caller payload) := by
  refine (keeps_lift _).bind fun _ => (keeps_lift _).bind fun _ => ?_
  cases env.fetchAndParse payload.sourceUrl payload.parserType payload.parserConfigJson with
  | error e => exact keeps_pure _
  | ok addresses =>
      simp only
      split
      · exact keeps_pure _
      · exact keeps_pure _

variable (hrefl : ∀ db, guar db db)

include hrefl

theorem keeps_findRow {ρ : Type} (table : TableName) (find : Database → Option ρ) :
    Keeps guar (findRow table find) := by
  refine (keeps_query hrefl _ _).bind ?_
  intro found
  cases found with
  | none => exact keeps_refuse _
  | some row => exact keeps_pure row

theorem keeps_isVisible (resourceType : String) (id : Uuid) (ownerKeyId : Option Uuid) :
    Keeps guar (isVisible caller resourceType id ownerKeyId) := by
  rw [isVisible]
  split
  · exact keeps_pure true
  · exact (keeps_query hrefl _ _).bind fun _ => keeps_pure _

theorem keeps_listApiKeys : Keeps guar (Handlers.listApiKeys caller) :=
  (keeps_query hrefl _ _).bind fun _ => keeps_pure _

theorem keeps_getApiKey (id : Uuid) : Keeps guar (Handlers.getApiKey caller id) :=
  (keeps_findRow hrefl _ _).bind fun _ => (keeps_lift _).bind fun _ => keeps_pure _

theorem keeps_listKeyPermissions (id : Uuid) : Keeps guar (Handlers.listKeyPermissions caller id) :=
  (keeps_findRow hrefl _ _).bind fun _ => (keeps_lift _).bind fun _ =>
    (keeps_query hrefl _ _).bind fun _ => keeps_pure _

theorem keeps_listVaultEndpoints : Keeps guar (Handlers.listVaultEndpoints caller) :=
  (keeps_query hrefl _ _).bind fun _ =>
    (keeps_filterRows (fun _ => keeps_isVisible hrefl _ _ _) _).bind fun _ => keeps_pure _

theorem keeps_getVaultEndpoint (id : Uuid) : Keeps guar (Handlers.getVaultEndpoint caller id) :=
  (keeps_findRow hrefl _ _).bind fun _ => (keeps_isVisible hrefl _ _ _).bind fun _ =>
    (keeps_lift _).bind fun _ => keeps_pure _

theorem keeps_loadGroup (group : OwnedDestinationGroup) : Keeps guar (loadGroup group) :=
  (keeps_query hrefl _ _).bind fun _ => (keeps_query hrefl _ _).bind fun _ => keeps_pure _

theorem keeps_listDestinationGroups : Keeps guar (Handlers.listDestinationGroups caller) :=
  (keeps_query hrefl _ _).bind fun _ =>
    (keeps_filterRows (fun _ => keeps_isVisible hrefl _ _ _) _).bind fun _ =>
      (keeps_mapRows (keeps_loadGroup hrefl) _).bind fun _ => keeps_pure _

theorem keeps_getDestinationGroup (id : Uuid) :
    Keeps guar (Handlers.getDestinationGroup caller id) :=
  (keeps_findRow hrefl _ _).bind fun _ => (keeps_isVisible hrefl _ _ _).bind fun _ =>
    (keeps_lift _).bind fun _ => (keeps_query hrefl _ _).bind fun _ =>
      (keeps_query hrefl _ _).bind fun _ => keeps_pure _

theorem keeps_loadTask (task : OwnedVaultSyncTask) : Keeps guar (loadTask task) :=
  (keeps_query hrefl _ _).bind fun _ => keeps_pure _

theorem keeps_listVaultSyncTasks : Keeps guar (Handlers.listVaultSyncTasks caller) :=
  (keeps_query hrefl _ _).bind fun _ =>
    (keeps_filterRows (fun _ => keeps_isVisible hrefl _ _ _) _).bind fun _ =>
      (keeps_mapRows (keeps_loadTask hrefl) _).bind fun _ => keeps_pure _

theorem keeps_getVaultSyncTask (id : Uuid) : Keeps guar (Handlers.getVaultSyncTask caller id) :=
  (keeps_findRow hrefl _ _).bind fun _ => (keeps_isVisible hrefl _ _ _).bind fun _ =>
    (keeps_lift _).bind fun _ => (keeps_query hrefl _ _).bind fun _ => keeps_pure _

theorem keeps_listSyncLogs (query : SyncLogQuery) :
    Keeps guar (Handlers.listSyncLogs caller query) := by
  refine (keeps_query hrefl _ _).bind fun rows => ?_
  cases caller.isMaster with
  | true => exact keeps_pure _
  | false =>
      refine (keeps_filterRows ?_ rows).bind fun _ => keeps_pure _
      intro row
      cases resourceTypeFor row.jobType with
      | none => exact keeps_pure _
      | some resourceType => exact (keeps_query hrefl _ _).bind fun _ => keeps_pure _

theorem keeps_listAuditLogs (query : AuditLogQuery) :
    Keeps guar (Handlers.listAuditLogs caller query) :=
  (keeps_lift _).bind fun _ => (keeps_query hrefl _ _).bind fun _ => keeps_pure _

end Reading

/-! ### Changes that no authorization decision sees -/

/-- A group without the stamp of its last run. -/
def OwnedDestinationGroup.unstamped (row : OwnedDestinationGroup) : OwnedDestinationGroup :=
  { row with lastRunAt := none }

/-- A task without its cursor. -/
def OwnedVaultSyncTask.unstamped (row : OwnedVaultSyncTask) : OwnedVaultSyncTask :=
  { row with lastSyncAt := none }

/-- From `db` to `s` only logs and the stamps of jobs have changed. -/
structure Quiet (db s : Database) : Prop where
  apiKeys : s.apiKeys = db.apiKeys
  permissions : s.permissions = db.permissions
  vaultEndpoints : s.vaultEndpoints = db.vaultEndpoints
  destinationGroups : ∀ id, (s.destinationGroups.find? id).map OwnedDestinationGroup.unstamped =
    (db.destinationGroups.find? id).map OwnedDestinationGroup.unstamped
  vaultSyncTasks : ∀ id, (s.vaultSyncTasks.find? id).map OwnedVaultSyncTask.unstamped =
    (db.vaultSyncTasks.find? id).map OwnedVaultSyncTask.unstamped

theorem Quiet.refl (db : Database) : Quiet db db := ⟨rfl, rfl, rfl, fun _ => rfl, fun _ => rfl⟩

theorem Quiet.trans {db₁ db₂ db₃ : Database} (h : Quiet db₁ db₂) (h' : Quiet db₂ db₃) :
    Quiet db₁ db₃ where
  apiKeys := h'.apiKeys.trans h.apiKeys
  permissions := h'.permissions.trans h.permissions
  vaultEndpoints := h'.vaultEndpoints.trans h.vaultEndpoints
  destinationGroups id := (h'.destinationGroups id).trans (h.destinationGroups id)
  vaultSyncTasks id := (h'.vaultSyncTasks id).trans (h.vaultSyncTasks id)

theorem quiet_of_insertAuditLog {db db' : Database} {entry : AuditLog}
    (h : db.insertAuditLog entry = .ok db') : Quiet db db' := by
  rw [insertAuditLog_ok h]
  exact ⟨rfl, rfl, rfl, fun _ => rfl, fun _ => rfl⟩

theorem quiet_of_insertSyncLog {db db' : Database} {row : SyncLog}
    (h : db.insertSyncLog row = .ok db') : Quiet db db' := by
  obtain rfl := Except.ok.inj h
  exact ⟨rfl, rfl, rfl, fun _ => rfl, fun _ => rfl⟩

/-- A column that `view` does not show may be rewritten. -/
theorem find?_modify_view {ρ ν : Type} {key : ρ → Uuid} (t : Table key) (id : Uuid) {f : ρ → ρ}
    (hf : ∀ r, key (f r) = key r) {view : ρ → ν} (hview : ∀ r, view (f r) = view r) (j : Uuid) :
    ((t.modify id f hf).find? j).map view = (t.find? j).map view := by
  by_cases hj : j = id
  · subst hj
    rw [Table.find?_modify_self, Option.map_map]
    exact congrArg (fun g => (t.find? j).map g) (funext hview)
  · rw [Table.find?_modify_of_ne _ _ _ hj]

theorem discardRow_ok {ρ : Type} {out : Except DbErr (ρ × Database)} {db' : Database}
    (h : discardRow out = .ok ((), db')) : ∃ row, out = .ok (row, db') := by
  cases out with
  | error e => cases h
  | ok out => exact ⟨out.1, by rw [← (Prod.mk.inj (Except.ok.inj h)).2]⟩

theorem quiet_of_stampGroup {db db' : Database} {id : Uuid} {startedAt : ℤ}
    (h : discardRow (db.stampGroup id startedAt) = .ok ((), db')) : Quiet db db' := by
  obtain ⟨row, hupdate⟩ := discardRow_ok h
  obtain ⟨old, -, -, rfl⟩ := updateDestinationGroup_ok hupdate
  refine ⟨rfl, rfl, rfl, ?_, fun _ => rfl⟩
  apply find?_modify_view
  · exact fun _ => rfl
  · exact fun _ => rfl

theorem quiet_of_stampTask {db db' : Database} {id : Uuid} {startedAt : ℤ}
    (h : discardRow (db.stampTask id startedAt) = .ok ((), db')) : Quiet db db' := by
  obtain ⟨row, hupdate⟩ := discardRow_ok h
  obtain ⟨old, -, -, rfl⟩ := updateVaultSyncTask_ok hupdate
  refine ⟨rfl, rfl, rfl, fun _ => rfl, ?_⟩
  apply find?_modify_view
  · exact fun _ => rfl
  · exact fun _ => rfl

section Trigger

variable {env : Env} {caller : ApiKey} {db : Database}

theorem along_triggerJob {id : Uuid} {table : TableName}
    {stamp : ℤ → Database → Except DbErr (Unit × Database)} {busy action name : String}
    (hstamp : ∀ startedAt s s', stamp startedAt s = .ok ((), s') → Quiet s s') :
    Along (fun _ s => Quiet db s) (fun _ s => Quiet db s)
      (triggerJob env caller id table stamp busy action name) db := by
  have hdb := Quiet.refl db
  rw [triggerJob]
  refine along_lift (fun _ _ => hdb) ?_
  intro _ _
  refine along_insertRow hdb (fun _ _ _ => hdb) ?_
  intro s₁ haudit
  have hs₁ := quiet_of_insertAuditLog haudit
  refine along_perform hs₁ (fun _ _ => hs₁) ?_
  intro run s hrun
  obtain rfl : s = s₁ := by
    cases hjob : env.runJob id s₁ with
    | error e => simp [hjob] at hrun
    | ok run' =>
        simp only [hjob, Except.ok.injEq, Prod.mk.injEq] at hrun
        exact hrun.2.symm
  refine along_insertRow hs₁ (fun _ _ _ => hs₁) ?_
  intro s₂ hlog
  have hs₂ := hs₁.trans (quiet_of_insertSyncLog hlog)
  cases run.stamp with
  | none => exact along_pure.mpr hs₂
  | some startedAt =>
      refine along_updateRow hs₂ (fun _ => hs₂) ?_
      intro _ s₃ hstamped
      exact along_pure.mpr (hs₂.trans (hstamp startedAt s₂ s₃ hstamped))

theorem along_triggerDestinationGroup (id : Uuid) :
    Along (fun _ s => Quiet db s) (fun _ s => Quiet db s)
      (Handlers.triggerDestinationGroup env caller id) db := by
  have hdb := Quiet.refl db
  rw [Handlers.triggerDestinationGroup]
  refine along_findRow hdb hdb ?_
  intro existing _
  refine along_findPermission hdb (along_lift (fun _ _ => hdb) ?_)
  intro _ _
  exact along_triggerJob fun startedAt s s' => quiet_of_stampGroup

theorem along_triggerVaultSyncTask (id : Uuid) :
    Along (fun _ s => Quiet db s) (fun _ s => Quiet db s)
      (Handlers.triggerVaultSyncTask env caller id) db := by
  have hdb := Quiet.refl db
  rw [Handlers.triggerVaultSyncTask]
  refine along_findRow hdb hdb ?_
  intro existing _
  refine along_findPermission hdb (along_lift (fun _ _ => hdb) ?_)
  intro _ _
  exact along_triggerJob fun startedAt s s' => quiet_of_stampTask

end Trigger

/-! ### Every call -/

/-- What a call may leave behind, up to logs and stamps. -/
inductive Leaves (fuel : ℕ) (env : Env) (caller : ApiKey) (db : Database) (request : Request) :
    Database → Prop
  | unchanged {s : Database} (hquiet : Quiet db s) : Leaves fuel env caller db request s
  | written {db₁ s : Database} (hchange : Change fuel env caller db request db₁)
      (hquiet : Quiet db₁ s) : Leaves fuel env caller db request s
  | granted {db₁ db₂ s : Database} (hchange : Change fuel env caller db request db₁)
      (hgrant : grantToCreator env caller request db₁ = .ok db₂) (hquiet : Quiet db₂ s) :
      Leaves fuel env caller db request s

section Calls

variable {fuel : ℕ} {env : Env} {caller : ApiKey} {db s : Database} {request : Request}

theorem Committed.leaves {tag : Sql} (h : Committed fuel env caller db request tag s) :
    Leaves fuel env caller db request s := by
  cases h with
  | start => exact .unchanged (.refl _)
  | written _ _ hchange => exact .written hchange (.refl _)
  | granted _ hchange hgrant => exact .granted hchange hgrant (.refl _)
  | audited _ hchange hgrant _ haudit =>
      exact .granted hchange hgrant (quiet_of_insertAuditLog haudit)

theorem Ended.leaves {o : Outcome AppError Reply} (h : Ended fuel env caller db request o s) :
    Leaves fuel env caller db request s := by
  cases h with
  | refused e => exact .unchanged (.refl _)
  | hung => exact .unchanged (.refl _)
  | grantRefused _ hchange _ => exact .written hchange (.refl _)
  | auditRefused _ hchange hgrant _ => exact .granted hchange hgrant (.refl _)
  | answered hchange hgrant _ haudit =>
      exact .granted hchange hgrant (quiet_of_insertAuditLog haudit)

/-- The handlers that create, update, delete, rotate, grant or revoke. -/
def Request.isMutating : Request → Bool
  | .createApiKey _ => true
  | .updateApiKey _ _ => true
  | .deleteApiKey _ => true
  | .rotateApiKey _ => true
  | .rotateSigningSecret _ => true
  | .grantKeyPermission _ _ => true
  | .revokeKeyPermission _ _ => true
  | .createVaultEndpoint _ => true
  | .updateVaultEndpoint _ _ => true
  | .deleteVaultEndpoint _ => true
  | .createDestinationGroup _ => true
  | .updateDestinationGroup _ _ => true
  | .deleteDestinationGroup _ => true
  | .createFeed _ _ => true
  | .updateFeed _ _ _ => true
  | .deleteFeed _ _ => true
  | .createVaultSyncTask _ => true
  | .updateVaultSyncTask _ _ => true
  | .deleteVaultSyncTask _ => true
  | _ => false

/-- **Every mutating handler stays within its changes.** -/
theorem along_handle (hmutating : request.isMutating = true) :
    Along (Committed fuel env caller db request) (Ended fuel env caller db request)
      (handle fuel env caller request) db := by
  cases request with
  | createApiKey payload => exact along_createApiKey payload
  | updateApiKey id payload => exact along_updateApiKey id payload
  | deleteApiKey id => exact along_deleteApiKey id
  | rotateApiKey id => exact along_rotateApiKey id
  | rotateSigningSecret id => exact along_rotateSigningSecret id
  | grantKeyPermission id payload => exact along_grantKeyPermission id payload
  | revokeKeyPermission id permissionId => exact along_revokeKeyPermission id permissionId
  | createVaultEndpoint payload => exact along_createVaultEndpoint payload
  | updateVaultEndpoint id payload => exact along_updateVaultEndpoint id payload
  | deleteVaultEndpoint id => exact along_deleteVaultEndpoint id
  | createDestinationGroup payload => exact along_createDestinationGroup payload
  | updateDestinationGroup id payload => exact along_updateDestinationGroup id payload
  | deleteDestinationGroup id => exact along_deleteDestinationGroup id
  | createFeed groupId payload => exact along_createFeed groupId payload
  | updateFeed groupId feedId payload => exact along_updateFeed groupId feedId payload
  | deleteFeed groupId feedId => exact along_deleteFeed groupId feedId
  | createVaultSyncTask payload => exact along_createVaultSyncTask payload
  | updateVaultSyncTask id payload => exact along_updateVaultSyncTask id payload
  | deleteVaultSyncTask id => exact along_deleteVaultSyncTask id
  | _ => cases hmutating

theorem along_quiet {p : Handler Reply} (h : Keeps (fun s s' => s = s') p) :
    Along (fun _ s => Quiet db s) (fun _ s => Quiet db s) p db := by
  obtain ⟨htrace, hend⟩ := h.reads db
  refine ⟨?_, ?_⟩
  · intro x hx
    rw [htrace x hx]
    exact .refl db
  · rw [hend]
    exact .refl db

/-- Every other handler changes nothing but logs and stamps. -/
theorem along_handle_quiet (hmutating : request.isMutating = false) :
    Along (fun _ s => Quiet db s) (fun _ s => Quiet db s) (handle fuel env caller request) db := by
  cases request with
  | rejected e => exact along_quiet (keeps_refuse e)
  | getMe => exact along_quiet (keeps_pure _)
  | listApiKeys => exact along_quiet (keeps_listApiKeys fun _ => rfl)
  | getApiKey id => exact along_quiet (keeps_getApiKey (fun _ => rfl) id)
  | listKeyPermissions id => exact along_quiet (keeps_listKeyPermissions (fun _ => rfl) id)
  | listVaultEndpoints => exact along_quiet (keeps_listVaultEndpoints fun _ => rfl)
  | getVaultEndpoint id => exact along_quiet (keeps_getVaultEndpoint (fun _ => rfl) id)
  | testFetchExternalSource payload => exact along_quiet (keeps_testFetchExternalSource payload)
  | listDestinationGroups => exact along_quiet (keeps_listDestinationGroups fun _ => rfl)
  | getDestinationGroup id => exact along_quiet (keeps_getDestinationGroup (fun _ => rfl) id)
  | triggerDestinationGroup id => exact along_triggerDestinationGroup id
  | listVaultSyncTasks => exact along_quiet (keeps_listVaultSyncTasks fun _ => rfl)
  | getVaultSyncTask id => exact along_quiet (keeps_getVaultSyncTask (fun _ => rfl) id)
  | triggerVaultSyncTask id => exact along_triggerVaultSyncTask id
  | listSyncLogs query => exact along_quiet (keeps_listSyncLogs (fun _ => rfl) query)
  | listAuditLogs query => exact along_quiet (keeps_listAuditLogs (fun _ => rfl) query)
  | _ => cases hmutating

/-- **Every call, however it is disturbed.** -/
theorem leaves_of_run (fault : Option (Fault Sql)) :
    Leaves fuel env caller db request
      (Prog.run .dbError (handle fuel env caller request) fault db).2.2 := by
  cases hmutating : request.isMutating with
  | true =>
      rcases (along_handle hmutating).run .dbError fault with hend | ⟨-, f, -, hcommitted⟩
      · exact hend.leaves
      · exact hcommitted.leaves
  | false =>
      rcases (along_handle_quiet hmutating).run .dbError fault with hend | ⟨-, f, -, hcommitted⟩
      · exact .unchanged hend
      · exact .unchanged hcommitted

theorem leaves_of_serve {call : Call} (h : serve db call = some s) :
    ∃ caller, db.callerOf call.callerId = some caller ∧
      Leaves call.fuel call.env caller db call.request s := by
  obtain ⟨caller, hcaller, rfl⟩ := Option.map_eq_some_iff.mp h
  exact ⟨caller, hcaller, leaves_of_run call.fault⟩

end Calls

end SimplyIpSync.Api
