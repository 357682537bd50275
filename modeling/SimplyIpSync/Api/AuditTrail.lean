import SimplyIpSync.Api.Writes

/-!
# The audit trail (`src/api/support.rs`, `src/entities/audit_log.rs`)

`create_audit_log` appends an entry, and no handler changes or removes one; only the reference of an
entry to its key goes when the key does (`Extends`).  A request that is audited does not answer
before its entry is written (`secures_handle`), and an entry that is written stays.
-/

namespace SimplyIpSync.Api

open SimplyIpSync.Entities SimplyIpSync.Storage SimplyIpSync.Program SimplyIpSync.Program.Prog

/-- The entry as it is, or without its reference to the key. -/
def Faded (entry entry' : AuditLog) : Prop :=
  entry' = entry ∨ entry' = { entry with apiKeyId := none }

theorem Faded.refl (entry : AuditLog) : Faded entry entry := Or.inl rfl

theorem Faded.trans {e e' e'' : AuditLog} (h : Faded e e') (h' : Faded e' e'') : Faded e e'' := by
  rcases h with rfl | rfl
  · exact h'
  · rcases h' with rfl | rfl
    · exact Or.inr rfl
    · exact Or.inr rfl

theorem faded_trans {log log' log'' : List AuditLog} (h : List.Forall₂ Faded log log')
    (h' : List.Forall₂ Faded log' log'') : List.Forall₂ Faded log log'' := by
  induction h generalizing log'' with
  | nil => exact h'
  | cons hentry _ ih =>
      cases h' with
      | cons hentry' hrest' => exact .cons (hentry.trans hentry') (ih hrest')

/-- The later log has the entries of the earlier one, in order and in front of the new ones. -/
def Extends (log log' : List AuditLog) : Prop :=
  ∃ kept new, log' = kept ++ new ∧ List.Forall₂ Faded log kept

theorem extends_append (log new : List AuditLog) : Extends log (log ++ new) :=
  ⟨log, new, rfl, List.forall₂_same.mpr fun entry _ => .refl entry⟩

theorem Extends.refl (log : List AuditLog) : Extends log log := by
  simpa using extends_append log []

theorem Extends.trans {log log' log'' : List AuditLog} (h : Extends log log')
    (h' : Extends log' log'') : Extends log log'' := by
  obtain ⟨kept, new, rfl, hkept⟩ := h
  obtain ⟨kept', new', rfl, hkept'⟩ := h'
  obtain ⟨front, back, rfl, hfront, -⟩ : ∃ front back, kept' = front ++ back ∧
      List.Forall₂ Faded kept front ∧ List.Forall₂ Faded new back := by
    refine ⟨kept'.take kept.length, kept'.drop kept.length,
      (List.take_append_drop _ _).symm, ?_, ?_⟩
    · simpa using List.forall₂_take kept.length hkept'
    · simpa using List.forall₂_drop kept.length hkept'
  refine ⟨front, back ++ new', List.append_assoc _ _ _, ?_⟩
  exact faded_trans hkept hfront

variable {m : Uuid} {env : Env} {caller : ApiKey} {db db' : Database}

/-- **A write keeps every entry.** -/
theorem Write.extends (h : Write m env caller db db') : Extends db.auditLogs db'.auditLogs := by
  cases h with
  | deleteKeys _ =>
      refine ⟨_, [], (List.append_nil _).symm, ?_⟩
      refine List.forall₂_map_right_iff.mpr (List.forall₂_same.mpr ?_)
      rintro ⟨apiKeyId, _, _, _, _, _, _⟩ _
      cases apiKeyId with
      | none => exact Or.inl rfl
      | some key =>
          simp only [Option.filter_some]
          split
          · exact Or.inl rfl
          · exact Or.inr rfl
  | audit _ => exact extends_append _ _
  | _ => exact .refl _

/-- The log has an entry of this action of the caller. -/
def Recorded (env : Env) (caller : ApiKey) (action : String) (db : Database) : Prop :=
  ∃ target, ∃ entry ∈ db.auditLogs, Faded (env.auditEntry caller action target) entry

theorem Faded.timestamp {e e' : AuditLog} (h : Faded e e') : e'.timestamp = e.timestamp := by
  rcases h with rfl | rfl
  · rfl
  · rfl

/-- The entries from a moment on. -/
def recent (since : ℤ) (log : List AuditLog) : List AuditLog :=
  log.filter fun entry => decide (since ≤ entry.timestamp)

theorem faded_recent {since : ℤ} {log kept : List AuditLog} (h : List.Forall₂ Faded log kept) :
    List.Forall₂ Faded (recent since log) (recent since kept) := by
  induction h with
  | nil => exact .nil
  | cons hentry _ ih =>
      simp only [recent, List.filter_cons, hentry.timestamp]
      split
      · exact .cons hentry ih
      · exact ih

theorem Extends.recent {since : ℤ} {log log' : List AuditLog} (h : Extends log log') :
    Extends (recent since log) (recent since log') := by
  obtain ⟨kept, new, rfl, hkept⟩ := h
  exact ⟨Api.recent since kept, Api.recent since new, List.filter_append _ _, faded_recent hkept⟩

/-- **What is recorded stays recorded**, as long as its time does. -/
theorem Recorded.extends {action : String} {since : ℤ} (h : Recorded env caller action db)
    (hsince : since ≤ env.now)
    (hlog : Extends (recent since db.auditLogs) (recent since db'.auditLogs)) :
    Recorded env caller action db' := by
  obtain ⟨target, entry, hmem, hfaded⟩ := h
  obtain ⟨kept, new, hnew, hkept⟩ := hlog
  have hrecent : entry ∈ recent since db.auditLogs :=
    List.mem_filter.mpr ⟨hmem, decide_eq_true (hfaded.timestamp.symm ▸ hsince)⟩
  obtain ⟨i, hi, rfl⟩ := List.mem_iff_getElem.mp hrecent
  have hi' : i < kept.length := hkept.length_eq ▸ hi
  refine ⟨target, kept[i], ?_, hfaded.trans (List.Forall₂.get hkept hi hi')⟩
  have hlater : kept[i] ∈ recent since db'.auditLogs := by
    rw [hnew]
    exact List.mem_append_left _ (List.getElem_mem hi')
  exact (List.mem_filter.mp hlater).1

/-! ### What a request records -/

/-- The action a request is audited as. -/
def Request.action : Request → Option String
  | .createApiKey _ => some "KEY_CREATE"
  | .updateApiKey _ _ => some "KEY_UPDATE"
  | .deleteApiKey _ => some "KEY_DELETE"
  | .rotateApiKey _ => some "KEY_ROTATE"
  | .rotateSigningSecret _ => some "KEY_ROTATE_SECRET"
  | .grantKeyPermission _ _ => some "PERMISSION_GRANT"
  | .revokeKeyPermission _ _ => some "PERMISSION_REVOKE"
  | .createVaultEndpoint _ => some "VAULT_CREATE"
  | .updateVaultEndpoint _ _ => some "VAULT_UPDATE"
  | .deleteVaultEndpoint _ => some "VAULT_DELETE"
  | .createDestinationGroup _ => some "GROUP_CREATE"
  | .updateDestinationGroup _ _ => some "GROUP_UPDATE"
  | .deleteDestinationGroup _ => some "GROUP_DELETE"
  | .triggerDestinationGroup _ => some "GROUP_TRIGGER"
  | .createFeed _ _ => some "FEED_CREATE"
  | .updateFeed _ _ _ => some "FEED_UPDATE"
  | .deleteFeed _ _ => some "FEED_DELETE"
  | .createVaultSyncTask _ => some "SYNC_TASK_CREATE"
  | .updateVaultSyncTask _ _ => some "SYNC_TASK_UPDATE"
  | .deleteVaultSyncTask _ => some "SYNC_TASK_DELETE"
  | .triggerVaultSyncTask _ => some "SYNC_TASK_TRIGGER"
  | _ => none

theorem recorded_of_insert {action : String} {target : Option String}
    (h : db.insertAuditLog (env.auditEntry caller action target) = .ok db') :
    Recorded env caller action db' := by
  rw [insertAuditLog_ok h]
  exact ⟨target, _, List.mem_append_right _ (List.mem_singleton_self _), .refl _⟩

/-- The effect of `create_audit_log`. -/
theorem recorded_of_effect {action : String} {target : Option String} {db : Database} {u : Unit}
    {db' : Database}
    (h : (match db.insertAuditLog (env.auditEntry caller action target) with
      | .error e => .error (onDbErr e)
      | .ok db => .ok ((), db)) = Except.ok (u, db')) : Recorded env caller action db' := by
  cases hinsert : db.insertAuditLog (env.auditEntry caller action target) with
  | error e => simp [hinsert] at h
  | ok db₁ =>
      simp only [hinsert, Except.ok.injEq, Prod.mk.injEq, true_and] at h
      exact h ▸ recorded_of_insert hinsert

theorem secures_createAuditLog (action : String) (target : Option String) :
    Secures (Recorded env caller action) (createAuditLog env caller action target) :=
  secures_perform fun _ _ _ h => recorded_of_effect h

theorem endsIn_createAuditLog (action : String) (target : Option String) :
    EndsIn (Recorded env caller action) (createAuditLog env caller action target) :=
  endsIn_perform fun _ _ _ h => recorded_of_effect h

theorem secures_deleteResource {table : TableName} {effect : Database → ℕ × Database}
    {action name : String} :
    Secures (Recorded env caller action) (deleteResource env caller table effect action name) :=
  secures_bind fun _ => secures_bind fun _ => (secures_createAuditLog _ _).bind

theorem secures_triggerJob {id : Uuid} {table : TableName}
    {stamp : ℤ → Database → Except DbErr (Unit × Database)} {busy action name : String} :
    Secures (Recorded env caller action)
      (triggerJob env caller id table stamp busy action name) :=
  secures_bind fun _ => (secures_createAuditLog _ _).bind

theorem secures_rotate {id : Uuid} {f : ApiKey → ApiKey} {hf : ∀ r, (f r).id = r.id}
    {action : String} :
    Secures (Recorded env caller action) (rotate env caller id f hf action) :=
  secures_bind fun _ => secures_createAuditLog _ _

/-- **A request that is audited** does not answer before its entry is written. -/
theorem secures_handle {fuel : ℕ} {request : Request} {action : String}
    (haction : request.action = some action) :
    Secures (Recorded env caller action) (handle fuel env caller request) := by
  cases request with
  | createApiKey payload =>
      obtain rfl := Option.some.inj haction
      exact secures_bind fun _ => secures_bind fun _ => secures_bind fun _ => secures_bind fun _ =>
        (secures_createAuditLog _ _).bind
  | updateApiKey id payload =>
      obtain rfl := Option.some.inj haction
      exact secures_bind fun _ => secures_bind fun _ => secures_bind fun _ => secures_bind fun _ =>
        secures_bind fun _ => secures_bind fun _ => (secures_createAuditLog _ _).bind
  | deleteApiKey id =>
      obtain rfl := Option.some.inj haction
      exact secures_bind fun _ => secures_bind fun _ => secures_bind fun _ => secures_bind fun _ =>
        secures_bind fun _ => secures_bind fun _ => secures_bind fun _ => secures_bind fun _ =>
          secures_bind fun _ => (secures_createAuditLog _ _).bind
  | rotateApiKey id =>
      obtain rfl := Option.some.inj haction
      exact secures_bind fun _ => secures_rotate.bind
  | rotateSigningSecret id =>
      obtain rfl := Option.some.inj haction
      exact secures_bind fun _ => secures_bind fun _ => secures_rotate.bind
  | grantKeyPermission id payload =>
      obtain rfl := Option.some.inj haction
      exact secures_bind fun _ => secures_bind fun _ => secures_bind fun _ => secures_bind fun _ =>
        secures_bind fun _ => secures_bind fun _ => secures_bind fun _ =>
          (secures_createAuditLog _ _).bind
  | revokeKeyPermission id permissionId =>
      obtain rfl := Option.some.inj haction
      exact secures_bind fun _ => secures_bind fun _ => secures_bind fun _ => secures_bind fun _ =>
        secures_bind fun _ => secures_bind fun _ => secures_bind fun _ =>
          (secures_createAuditLog _ _).bind
  | createVaultEndpoint payload =>
      obtain rfl := Option.some.inj haction
      exact secures_bind fun _ => secures_bind fun _ => secures_bind fun _ => secures_bind fun _ =>
        (secures_createAuditLog _ _).bind
  | updateVaultEndpoint id payload =>
      obtain rfl := Option.some.inj haction
      exact secures_bind fun _ => secures_bind fun _ => secures_bind fun _ => secures_bind fun _ =>
        (secures_createAuditLog _ _).bind
  | deleteVaultEndpoint id =>
      obtain rfl := Option.some.inj haction
      exact secures_bind fun _ => secures_bind fun _ => secures_deleteResource
  | createDestinationGroup payload =>
      obtain rfl := Option.some.inj haction
      refine secures_bind fun _ => secures_bind fun _ => secures_bind fun _ => ?_
      refine (secures_transaction ?_).bind
      exact endsIn_bind fun _ => endsIn_bind fun _ => endsIn_bind fun _ =>
        endsIn_createAuditLog _ _
  | updateDestinationGroup id payload =>
      obtain rfl := Option.some.inj haction
      refine secures_bind fun _ => secures_bind fun _ => secures_bind fun _ => ?_
      refine secures_bind fun _ => ?_
      refine (secures_transaction ?_).bind
      exact endsIn_bind fun _ => endsIn_bind fun _ => (endsIn_createAuditLog _ _).map _
  | deleteDestinationGroup id =>
      obtain rfl := Option.some.inj haction
      exact secures_bind fun _ => secures_bind fun _ => secures_deleteResource
  | triggerDestinationGroup id =>
      obtain rfl := Option.some.inj haction
      exact secures_bind fun _ => secures_bind fun _ => secures_bind fun _ => secures_triggerJob
  | createFeed groupId payload =>
      obtain rfl := Option.some.inj haction
      exact secures_bind fun _ => secures_bind fun _ => secures_bind fun _ => secures_bind fun _ =>
        secures_bind fun _ => (secures_createAuditLog _ _).bind
  | updateFeed groupId feedId payload =>
      obtain rfl := Option.some.inj haction
      exact secures_bind fun _ => secures_bind fun _ => secures_bind fun _ => secures_bind fun _ =>
        secures_bind fun _ => (secures_createAuditLog _ _).bind
  | deleteFeed groupId feedId =>
      obtain rfl := Option.some.inj haction
      exact secures_bind fun _ => secures_bind fun _ => secures_deleteResource
  | createVaultSyncTask payload =>
      obtain rfl := Option.some.inj haction
      refine secures_bind fun _ => secures_bind fun _ => (secures_transaction ?_).bind
      exact endsIn_bind fun _ => endsIn_bind fun _ => endsIn_bind fun _ =>
        endsIn_createAuditLog _ _
  | updateVaultSyncTask id payload =>
      obtain rfl := Option.some.inj haction
      refine secures_bind fun _ => secures_bind fun _ => secures_bind fun _ => ?_
      refine (secures_transaction ?_).bind
      exact endsIn_bind fun _ => endsIn_bind fun _ => (endsIn_createAuditLog _ _).map _
  | deleteVaultSyncTask id =>
      obtain rfl := Option.some.inj haction
      exact secures_bind fun _ => secures_bind fun _ => secures_deleteResource
  | triggerVaultSyncTask id =>
      obtain rfl := Option.some.inj haction
      exact secures_bind fun _ => secures_bind fun _ => secures_bind fun _ => secures_triggerJob
  | _ => cases haction

end SimplyIpSync.Api
