import SimplyIpSync.Api.Completeness
import SimplyIpSync.Api.Rights

/-!
# Atomic and audited mutations

A request is atomic under a failing statement when a refusal leaves the database as it was and an
answer comes with exactly one new audit entry, the caller's (`Atomic`).  The handlers that create or
update a group or a task write in a transaction; the others write their row, the creator's
permission and the audit entry as separate statements, and the two updates read again after their
commit.  `atomic_iff` says exactly when a request is not atomic: one of these later statements fails
(`Torn`).
-/

namespace SimplyIpSync.Api

open SimplyIpSync.Entities SimplyIpSync.Storage SimplyIpSync.Program SimplyIpSync.Program.Prog

/-- The run of a request while a statement fails. -/
def Request.runs (fuel : ℕ) (env : Env) (caller : ApiKey) (db : Database) (request : Request)
    (fault : Option (Fault Sql)) : Outcome AppError Reply × Option (Fault Sql) × Database :=
  Prog.run .dbError (handle fuel env caller request) fault db

/-- An audit entry without its reference to a key, which goes with the key. -/
def AuditLog.unkeyed (entry : AuditLog) : AuditLog := { entry with apiKeyId := none }

/-- From `db` to `s` the audit trail has grown by one entry, the caller's. -/
def AddsOneEntry (caller : ApiKey) (db s : Database) : Prop :=
  ∃ earlier entry, s.auditLogs = earlier ++ [entry] ∧ entry.apiKeyId = some caller.id ∧
    earlier.map AuditLog.unkeyed = db.auditLogs.map AuditLog.unkeyed

/-- A refusal leaves every table as it was, and an answer adds exactly one audit entry. -/
def Atomic (fuel : ℕ) (env : Env) (caller : ApiKey) (db : Database) (request : Request)
    (fault : Option (Fault Sql)) : Prop :=
  (∀ e, (request.runs fuel env caller db fault).1 = .refused e →
      (request.runs fuel env caller db fault).2.2 = db) ∧
    ∀ reply, (request.runs fuel env caller db fault).1 = .answered reply →
      AddsOneEntry caller db (request.runs fuel env caller db fault).2.2

/-- The statement that grants the creator its permission. -/
def Request.grantStatements (request : Request) : List Sql :=
  if request.createdType.isSome then [.insert .permissions] else []

/-- **What tears a request:** its row write is committed, and a statement after it fails, because it
is the one that is made to fail or by itself. -/
inductive Torn (fuel : ℕ) (env : Env) (caller : ApiKey) (db : Database) (request : Request)
    (fault : Option (Fault Sql)) : Prop
  | grant {db₁ : Database} (hkind : request.isTransactional = false)
      (hcreates : request.createdType.isSome) (hchange : Change fuel env caller db request db₁)
      (hwritten : db₁ ≠ db) (hearlier : ¬Hits fault (request.statements fuel db))
      (hfails : Hits fault (request.statements fuel db ++ request.grantStatements) ∨
        ∃ e, grantToCreator env caller request db₁ = .error e)
  | audit {db₁ db₂ : Database} (hkind : request.isTransactional = false)
      (hchange : Change fuel env caller db request db₁)
      (hgrant : grantToCreator env caller request db₁ = .ok db₂) (hwritten : db₂ ≠ db)
      (hearlier : ¬Hits fault (request.statements fuel db ++ request.grantStatements))
      (hfails : Hits fault (request.statements fuel db ++ request.grantStatements ++
        [Sql.insert .auditLogs]) ∨ db₂.hasKey caller.id = false)
  | reload {db₁ : Database} (hkind : request.isTransactional = true)
      (hchange : Change fuel env caller db request db₁) (hcaller : db₁.hasKey caller.id = true)
      (hearlier : ¬Hits fault (request.statements fuel db))
      (hfails : Hits fault (request.statements fuel db ++ request.reloads))

/-! ### How a run ends -/

section Ends

variable {α : Type} {p q : Handler α} {fault : Option (Fault Sql)} {s s' : Database}
  {tags tags' : List Sql}

/-- The run is refused and leaves `s'`. -/
def RefusedIn (p : Handler α) (fault : Option (Fault Sql)) (s s' : Database) : Prop :=
  ∃ e, (Prog.run .dbError p fault s).1 = .refused e ∧ (Prog.run .dbError p fault s).2.2 = s'

/-- The run is answered and leaves `s'`. -/
def AnsweredIn (p : Handler α) (fault : Option (Fault Sql)) (s s' : Database) : Prop :=
  ∃ a, (Prog.run .dbError p fault s).1 = .answered a ∧ (Prog.run .dbError p fault s).2.2 = s'

theorem refusedIn_of_hits {q : Handler α} (h : Leads p s tags q s') (hits : Hits fault tags) :
    RefusedIn p fault s s := by
  rw [RefusedIn, h.run.1 hits]
  exact ⟨_, rfl, rfl⟩

/-- An insertion under a fault. -/
theorem run_insertRow {table : TableName} {onError : DbErr → AppError}
    {effect : Database → Except DbErr Database} {k : Unit → Handler α} :
    (Hits fault [.insert table] ∨ (∃ e, effect s = .error e) →
        RefusedIn (insertRow table onError effect >>= k) fault s s) ∧
      (¬Hits fault [.insert table] → ∀ s', effect s = .ok s' →
        Prog.run .dbError (insertRow table onError effect >>= k) fault s =
          Prog.run .dbError (k ()) (after fault [.insert table]) s') := by
  have hhit : Hits fault [.insert table] →
      Prog.run .dbError (insertRow table onError effect >>= k) fault s =
        (.refused .dbError, none, s) := run_perform.1
  have hpass : ¬Hits fault [.insert table] →
      Prog.run .dbError (insertRow table onError effect >>= k) fault s =
        match effect s with
        | .ok s' => Prog.run .dbError (k ()) (after fault [.insert table]) s'
        | .error e => (.refused (onError e), after fault [.insert table], s) := by
    intro passes
    refine (run_perform.2 passes).trans ?_
    cases effect s with
    | ok s' => rfl
    | error e => rfl
  constructor
  · intro hfails
    by_cases hits : Hits fault [.insert table]
    · rw [RefusedIn, hhit hits]
      exact ⟨_, rfl, rfl⟩
    · obtain ⟨e, he⟩ := hfails.resolve_left hits
      rw [RefusedIn, hpass hits, he]
      exact ⟨_, rfl, rfl⟩
  · intro passes s' hs'
    rw [hpass passes, hs']

/-- The audit entry and the answer. -/
theorem run_audit {env : Env} {caller : ApiKey} {action : String} {target : Option String}
    {reply : α} :
    (Hits fault [.insert .auditLogs] ∨ s.hasKey caller.id = false →
        RefusedIn (createAuditLog env caller action target >>= fun _ => pure reply) fault s s) ∧
      (¬(Hits fault [.insert .auditLogs] ∨ s.hasKey caller.id = false) →
        ∃ entry s', entry.apiKeyId = some caller.id ∧ s.insertAuditLog entry = .ok s' ∧
          AnsweredIn (createAuditLog env caller action target >>= fun _ => pure reply) fault s
            s') := by
  constructor
  · rintro (hits | hgone)
    · exact run_insertRow.1 (Or.inl hits)
    · refine run_insertRow.1 (Or.inr ⟨.other, ?_⟩)
      simp [Database.insertAuditLog, Env.auditEntry, hgone]
  · intro hnot
    obtain ⟨passes, hcaller⟩ := not_or.mp hnot
    rw [Bool.not_eq_false] at hcaller
    obtain ⟨s', haudit, -⟩ := issues_createAuditLog env hcaller action target
    refine ⟨_, s', rfl, haudit, ?_⟩
    rw [AnsweredIn, createAuditLog, run_insertRow.2 passes s' haudit]
    exact ⟨reply, rfl, rfl⟩

end Ends

/-! ### The trail -/

section Trail

variable {fuel : ℕ} {env : Env} {caller : ApiKey} {db db₁ db₂ s : Database} {request : Request}

/-- A row write leaves the audit trail alone. -/
theorem Change.auditLogs (h : Change fuel env caller db request db₁) :
    db₁.auditLogs.map AuditLog.unkeyed = db.auditLogs.map AuditLog.unkeyed := by
  have hframe := h.frame
  cases h with
  | deleteApiKey =>
      -- the entries of deleted keys lose their reference
      simp only [Database.deleteApiKeys, List.map_map]
      rfl
  | _ => rw [hframe.auditLogs (by simp [Request.writes])]

/-- Whatever the request is, its audit entry is the only one it adds. -/
theorem addsOneEntry (hchange : Change fuel env caller db request db₁)
    (hgrant : grantToCreator env caller request db₁ = .ok db₂) {entry : AuditLog}
    (hentry : entry.apiKeyId = some caller.id) (haudit : db₂.insertAuditLog entry = .ok s) :
    AddsOneEntry caller db s := by
  have hkept : db₂.auditLogs = db₁.auditLogs := by
    rcases grantToCreator_ok hgrant with ⟨-, rfl⟩ | ⟨_, _, -, -, rfl⟩
    · rfl
    · rfl
  refine ⟨db₁.auditLogs, entry, ?_, hentry, hchange.auditLogs⟩
  rw [insertAuditLog_ok haudit, hkept]

theorem AddsOneEntry.ne (h : AddsOneEntry caller db s) : s ≠ db := by
  obtain ⟨earlier, entry, hs, -, hearlier⟩ := h
  rintro rfl
  have hlength := congrArg List.length hearlier
  rw [hs] at hlength
  simp only [List.length_map, List.length_append, List.length_singleton] at hlength
  omega

end Trail

/-! ### The runs of an accepted request -/

section Runs

variable {fuel : ℕ} {env : Env} {caller : ApiKey} {db db₁ db₂ s : Database} {request : Request}
  {fault : Option (Fault Sql)}

theorem atomic_of_refusedIn (h : RefusedIn (handle fuel env caller request) fault db s) :
    Atomic fuel env caller db request fault ↔ s = db := by
  obtain ⟨e, ho, rfl⟩ := h
  constructor
  · intro hatomic
    exact hatomic.1 e ho
  · intro hs
    refine ⟨fun _ _ => hs, ?_⟩
    intro reply hreply
    rw [Request.runs, ho] at hreply
    cases hreply

theorem atomic_of_answeredIn (h : AnsweredIn (handle fuel env caller request) fault db s) :
    Atomic fuel env caller db request fault ↔ AddsOneEntry caller db s := by
  obtain ⟨reply, ho, rfl⟩ := h
  constructor
  · intro hatomic
    exact hatomic.2 reply ho
  · intro hs
    refine ⟨?_, fun _ _ => hs⟩
    intro e he
    rw [Request.runs, ho] at he
    cases he

/-- A run that passes a beginning ends as the rest does. -/
theorem RefusedIn.of_leads {α : Type} {p q : Handler α} {tags : List Sql} {s' : Database}
    (h : Leads p db tags q s) (passes : ¬Hits fault tags)
    (hq : RefusedIn q (after fault tags) s s') : RefusedIn p fault db s' := by
  rw [RefusedIn, h.run.2 passes]
  exact hq

theorem AnsweredIn.of_leads {α : Type} {p q : Handler α} {tags : List Sql} {s' : Database}
    (h : Leads p db tags q s) (passes : ¬Hits fault tags)
    (hq : AnsweredIn q (after fault tags) s s') : AnsweredIn p fault db s' := by
  rw [AnsweredIn, h.run.2 passes]
  exact hq

/-- The creator's permission under a fault. -/
theorem run_grant {action : String} {target : Option String} {reply : Reply} :
    (Hits fault request.grantStatements ∨
        (∃ e, grantToCreator env caller request db₁ = .error e) →
      RefusedIn (finish env caller request action target reply) fault db₁ db₁) ∧
    (¬Hits fault request.grantStatements →
      ∀ db₂, grantToCreator env caller request db₁ = .ok db₂ →
        Prog.run .dbError (finish env caller request action target reply) fault db₁ =
          Prog.run .dbError (createAuditLog env caller action target >>= fun _ => pure reply)
            (after fault request.grantStatements) db₂) := by
  cases hcreated : request.createdType with
  | none =>
      simp only [Request.grantStatements, finish, grantToCreator, hcreated, Option.isSome_none,
        Bool.false_eq_true, if_false, not_hits_nil, after_nil]
      refine ⟨?_, ?_⟩
      · rintro (hits | ⟨e, he⟩)
        · cases hits
        · cases he
      · intro _ db₂ hdb₂
        obtain rfl := Except.ok.inj hdb₂
        rfl
  | some resourceType =>
      simp only [Request.grantStatements, finish, grantToCreator, grantFullPermission, hcreated,
        Option.isSome_some, if_true]
      exact @run_insertRow Reply fault db₁ .permissions onDbErr
        (fun db => db.insertPermission (env.fullPermission caller.id resourceType env.newId)) _

theorem hasKey_of_insertAuditLog {entry : AuditLog} (hentry : entry.apiKeyId = some caller.id)
    (h : db.insertAuditLog entry = .ok s) : db.hasKey caller.id = true := by
  cases hkey : db.hasKey caller.id with
  | true => rfl
  | false => simp [Database.insertAuditLog, hentry, hkey] at h

/-- The audit entry of a request that writes row by row, once the creator has its permission. -/
theorem run_entry (hkind : request.isTransactional = false)
    (hchange : Change fuel env caller db request db₁)
    (hgrant : grantToCreator env caller request db₁ = .ok db₂)
    (hearlier : ¬Hits fault (request.statements fuel db ++ request.grantStatements)) :
    (Hits fault (request.statements fuel db ++ request.grantStatements ++ [Sql.insert .auditLogs]) ∨
        db₂.hasKey caller.id = false →
      RefusedIn (handle fuel env caller request) fault db db₂) ∧
    (¬(Hits fault (request.statements fuel db ++ request.grantStatements ++
          [Sql.insert .auditLogs]) ∨ db₂.hasKey caller.id = false) →
      ∃ s, AddsOneEntry caller db s ∧ AnsweredIn (handle fuel env caller request) fault db s) := by
  obtain ⟨action, target, reply, hleads⟩ := completes hchange hkind
  have hfirst : ¬Hits fault (request.statements fuel db) := fun hits => hearlier (hits.append _)
  have hsecond := mt (hits_after hfirst).mp hearlier
  have hrun : Prog.run .dbError (finish env caller request action target reply)
      (after fault (request.statements fuel db)) db₁ = _ := run_grant.2 hsecond db₂ hgrant
  rw [after_append] at hrun
  rw [← hits_after hearlier]
  constructor
  · intro hfails
    refine .of_leads hleads hfirst ?_
    rw [RefusedIn, hrun]
    exact run_audit.1 hfails
  · intro hpasses
    obtain ⟨entry, s, hentry, haudit, hanswered⟩ := run_audit.2 hpasses
    refine ⟨s, addsOneEntry hchange hgrant hentry haudit, .of_leads hleads hfirst ?_⟩
    rw [AnsweredIn, hrun]
    exact hanswered

/-- The reads after the commit of a request that writes in a transaction. -/
theorem run_reload (hchange : Change fuel env caller db request db₁)
    (hreloads : request.reloads ≠ []) (hcaller : db₁.hasKey caller.id = true)
    (hearlier : ¬Hits fault (request.statements fuel db)) :
    ∃ s, AddsOneEntry caller db s ∧
      (Hits fault (request.statements fuel db ++ request.reloads) →
        RefusedIn (handle fuel env caller request) fault db s) ∧
      (¬Hits fault (request.statements fuel db ++ request.reloads) →
        AnsweredIn (handle fuel env caller request) fault db s) := by
  obtain ⟨entry, s, reply, q, hentry, haudit, hleads, hreload⟩ :=
    completes_reloading hchange hreloads hcaller
  have hgrant : grantToCreator env caller request db₁ = .ok db₁ := by
    cases request with
    | updateDestinationGroup => rfl
    | updateVaultSyncTask => rfl
    | _ => exact absurd rfl hreloads
  refine ⟨s, addsOneEntry hchange hgrant hentry haudit, ?_, ?_⟩
  · intro hits
    exact .of_leads hleads hearlier (refusedIn_of_hits hreload ((hits_after hearlier).mpr hits))
  · intro passes
    refine .of_leads hleads hearlier (.of_leads hreload ?_ ⟨reply, rfl, rfl⟩)
    exact mt (hits_after hearlier).mp passes

/-- A torn request is not atomic. -/
theorem Torn.not_atomic (h : Torn fuel env caller db request fault) :
    ¬Atomic fuel env caller db request fault := by
  cases h with
  | grant hkind hcreates hchange hwritten hearlier hfails =>
      obtain ⟨action, target, reply, hleads⟩ := completes hchange hkind
      rw [← hits_after hearlier] at hfails
      rw [atomic_of_refusedIn (.of_leads hleads hearlier (run_grant.1 hfails))]
      exact hwritten
  | audit hkind hchange hgrant hwritten hearlier hfails =>
      rw [atomic_of_refusedIn ((run_entry hkind hchange hgrant hearlier).1 hfails)]
      exact hwritten
  | @reload db₁ hkind hchange hcaller hearlier hfails =>
      have hreloads : request.reloads ≠ [] := by
        intro hnil
        rw [hnil, List.append_nil] at hfails
        exact hearlier hfails
      obtain ⟨s, hs, hrefused, -⟩ := run_reload hchange hreloads hcaller hearlier
      rw [atomic_of_refusedIn (hrefused hfails)]
      exact hs.ne

/-- Without a change, and without a later statement that finds one committed, a run is atomic. -/
theorem atomic_of_along (hmutating : request.isMutating = true)
    (hrows : ∀ db₁, Change fuel env caller db request db₁ → request.isTransactional = true)
    (hreloads : ∀ db₁, Change fuel env caller db request db₁ → request.reloads ≠ [] →
      db₁.hasKey caller.id = false) : Atomic fuel env caller db request fault := by
  have hrows' : ∀ db₁, request.isTransactional = false →
      ¬Change fuel env caller db request db₁ := by
    intro db₁ hkind hchange
    rw [hrows db₁ hchange] at hkind
    cases hkind
  have hended : ∀ o s, Ended fuel env caller db request o s →
      (∀ e, o = .refused e → s = db) ∧
        ∀ reply, o = .answered reply → AddsOneEntry caller db s := by
    intro o s h
    cases h with
    | refused e => exact ⟨fun _ _ => rfl, fun _ hreply => (by cases hreply)⟩
    | hung => exact ⟨fun _ he => (by cases he), fun _ hreply => (by cases hreply)⟩
    | grantRefused hkind hchange => exact absurd hchange (hrows' _ hkind)
    | auditRefused hkind hchange => exact absurd hchange (hrows' _ hkind)
    | answered hchange hgrant hentry haudit =>
        exact ⟨fun _ he => (by cases he), fun _ _ => addsOneEntry hchange hgrant hentry haudit⟩
  have hcommitted : ∀ tag s, Committed fuel env caller db request tag s → s = db := by
    intro tag s h
    cases h with
    | start => rfl
    | written hkind _ hchange => exact absurd hchange (hrows' _ hkind)
    | granted hkind hchange => exact absurd hchange (hrows' _ hkind)
    | audited htag hchange hgrant hentry haudit =>
        have hgone := hreloads _ hchange (List.ne_nil_of_mem htag)
        have hkey := hasKey_of_insertAuditLog hentry haudit
        rw [Database.hasKey, grantToCreator_apiKeys hgrant] at hkey
        rw [Database.hasKey, hkey] at hgone
        cases hgone
  have halong : Along (Committed fuel env caller db request) (Ended fuel env caller db request)
      (handle fuel env caller request) db := along_handle hmutating
  have hrun := halong.run AppError.dbError fault
  generalize hout : Prog.run AppError.dbError (handle fuel env caller request) fault db = out at hrun
  rw [Atomic, Request.runs, hout]
  rcases hrun with hend | ⟨ho, f, -, hstruck⟩
  · exact hended _ _ hend
  · rw [hcommitted _ _ hstruck, ho]
    exact ⟨fun _ _ => rfl, fun _ hreply => (by cases hreply)⟩

/-- What is not torn is atomic, for a request that writes row by row. -/
theorem atomic_of_rows (hkind : request.isTransactional = false)
    (hchange : Change fuel env caller db request db₁)
    (h : ¬Torn fuel env caller db request fault) : Atomic fuel env caller db request fault := by
  obtain ⟨action, target, reply, hleads⟩ := completes hchange hkind
  by_cases hfirst : Hits fault (request.statements fuel db)
  · -- the failing statement comes before anything is written
    exact (atomic_of_refusedIn (refusedIn_of_hits hleads hfirst)).mpr rfl
  · by_cases hgrant : Hits fault (request.statements fuel db ++ request.grantStatements) ∨
        ∃ e, grantToCreator env caller request db₁ = .error e
    · -- the creator's permission is refused
      have hrefused := hgrant
      rw [← hits_after hfirst] at hrefused
      rw [atomic_of_refusedIn (.of_leads hleads hfirst (run_grant.1 hrefused))]
      by_contra hwritten
      refine h (.grant hkind ?_ hchange hwritten hfirst hgrant)
      cases hcreated : request.createdType with
      | some resourceType => rfl
      | none =>
          simp only [Request.grantStatements, grantToCreator, hcreated, Option.isSome_none,
            Bool.false_eq_true, if_false, List.append_nil] at hgrant
          rcases hgrant with hits | ⟨e, he⟩
          · exact absurd hits hfirst
          · cases he
    · obtain ⟨hearlier, hgranted⟩ := not_or.mp hgrant
      have hsecond := mt (hits_after hfirst).mp hearlier
      obtain ⟨db₂, hdb₂⟩ : ∃ db₂, grantToCreator env caller request db₁ = .ok db₂ := by
        cases hout : grantToCreator env caller request db₁ with
        | ok db₂ => exact ⟨db₂, rfl⟩
        | error e => exact absurd ⟨e, hout⟩ hgranted
      by_cases hlast : Hits fault (request.statements fuel db ++ request.grantStatements ++
          [Sql.insert .auditLogs]) ∨ db₂.hasKey caller.id = false
      · -- the audit entry is refused
        rw [atomic_of_refusedIn ((run_entry hkind hchange hdb₂ hearlier).1 hlast)]
        by_contra hwritten
        exact h (.audit hkind hchange hdb₂ hwritten hearlier hlast)
      · obtain ⟨s, hs, hanswered⟩ := (run_entry hkind hchange hdb₂ hearlier).2 hlast
        exact (atomic_of_answeredIn hanswered).mpr hs

/-- What is not torn is atomic, for a request that reads on after its transaction. -/
theorem atomic_of_reloading (hkind : request.isTransactional = true)
    (hchange : Change fuel env caller db request db₁) (hreloads : request.reloads ≠ [])
    (hcaller : db₁.hasKey caller.id = true) (h : ¬Torn fuel env caller db request fault) :
    Atomic fuel env caller db request fault := by
  by_cases hearlier : Hits fault (request.statements fuel db)
  · obtain ⟨_, _, _, q, -, -, hleads, -⟩ := completes_reloading hchange hreloads hcaller
    exact (atomic_of_refusedIn (refusedIn_of_hits hleads hearlier)).mpr rfl
  · obtain ⟨s, hs, -, hanswered⟩ := run_reload hchange hreloads hcaller hearlier
    refine (atomic_of_answeredIn (hanswered ?_)).mpr hs
    intro hits
    exact h (.reload hkind hchange hcaller hearlier hits)

end Runs

/-- **Exactly when a mutation is atomic and audited:** no statement fails that comes after the row
write has been committed. -/
theorem atomic_iff {fuel : ℕ} {env : Env} {caller : ApiKey} {db : Database} {request : Request}
    {fault : Option (Fault Sql)} (hmutating : request.isMutating = true) :
    Atomic fuel env caller db request fault ↔ ¬Torn fuel env caller db request fault := by
  refine ⟨fun hatomic htorn => htorn.not_atomic hatomic, ?_⟩
  intro h
  by_cases hrows : ∃ db₁, Change fuel env caller db request db₁ ∧ request.isTransactional = false
  · obtain ⟨db₁, hchange, hkind⟩ := hrows
    exact atomic_of_rows hkind hchange h
  · have htransaction : ∀ db₁, Change fuel env caller db request db₁ →
        request.isTransactional = true := by
      intro db₁ hchange
      by_contra hkind
      exact hrows ⟨db₁, hchange, Bool.not_eq_true _ ▸ hkind⟩
    by_cases hreload : ∃ db₁, Change fuel env caller db request db₁ ∧ request.reloads ≠ [] ∧
        db₁.hasKey caller.id = true
    · obtain ⟨db₁, hchange, hreloads, hcaller⟩ := hreload
      exact atomic_of_reloading (htransaction db₁ hchange) hchange hreloads hcaller h
    · refine atomic_of_along hmutating htransaction ?_
      intro db₁ hchange hreloads
      by_contra hcaller
      exact hreload ⟨db₁, hchange, hreloads, Bool.not_eq_false _ ▸ hcaller⟩

/-- The Master makes a key, and no statement fails: the key comes with its entry, and nothing is
torn. -/
theorem atomic_iff_undisturbed :
    Atomic 8 (.plain 2) ((Env.plain 1).masterKey "k" "s") .fresh
        (.createApiKey (.plain "daughter" false false false)) none ∧
      ¬Torn 8 (.plain 2) ((Env.plain 1).masterKey "k" "s") .fresh
        (.createApiKey (.plain "daughter" false false false)) none := by
  have hatomic : Atomic 8 (.plain 2) ((Env.plain 1).masterKey "k" "s") .fresh
      (.createApiKey (.plain "daughter" false false false)) none := by
    constructor
    · intro e he
      cases he
    · intro reply _
      exact ⟨[], _, rfl, rfl, rfl⟩
  exact ⟨hatomic, (atomic_iff rfl).mp hatomic⟩

/-- The Master makes a key, the audit entry fails, and the key whose secret nobody gets to see is
there. -/
theorem key_without_entry :
    Database.fresh.callerOf 1 = some ((Env.plain 1).masterKey "k" "s") ∧
      ¬Atomic 8 (.plain 2) ((Env.plain 1).masterKey "k" "s") .fresh
        (.createApiKey (.plain "daughter" false false false))
        (some ⟨.insert .auditLogs, 0⟩) := by
  refine ⟨by decide +kernel, ?_⟩
  intro hatomic
  have hunchanged := hatomic.1 .dbError (by decide +kernel)
  have hcount := congrArg (fun db : Database => db.apiKeys.rows.length) hunchanged
  revert hcount
  decide +kernel

end SimplyIpSync.Api
