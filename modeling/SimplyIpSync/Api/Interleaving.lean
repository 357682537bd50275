import SimplyIpSync.Api.Changes
import SimplyIpSync.Lib.Interference
import SimplyIpSync.Lib.Reach

/-!
# Deleting a key among other calls

`delete_api_key` reads the subtree level by level, then the resources its keys own, and removes the
keys, each with a statement of its own, while other calls create keys and resources.  A step of
`Interleaving` is the arrival of such a call or the next statement of a call.  A transaction is one
step: it holds the only connection from its opening to its end (`SQLITE_MAX_CONNECTIONS`), and none
of its rows is seen before.
-/

namespace SimplyIpSync.Api

open SimplyIpSync.Entities SimplyIpSync.Storage SimplyIpSync.Program SimplyIpSync.Reach

/-! ### The system -/

/-- The tables whose rows stand under a key, a parent or an owner. -/
def heldTables : List TableName :=
  [.apiKeys, .vaultEndpoints, .destinationGroups, .vaultSyncTasks]

/-- The rows of a table, each with the key it stands under. -/
def Database.holders (db : Database) : TableName → List (Uuid × Option Uuid)
  | .apiKeys => db.apiKeys.rows.map fun r => (r.id, r.parentKeyId)
  | .vaultEndpoints => db.vaultEndpoints.rows.map fun r => (r.id, r.ownerKeyId)
  | .destinationGroups => db.destinationGroups.rows.map fun r => (r.id, r.ownerKeyId)
  | .vaultSyncTasks => db.vaultSyncTasks.rows.map fun r => (r.id, r.ownerKeyId)
  | _ => []

/-- The request creates a key or a resource. -/
def Request.creates : Request → Bool
  | .createApiKey _ => true
  | request => request.createdType.isSome

/-- A deletion of a key and the calls that run meanwhile: what is left of each, the statements the
deletion has issued and the keys it has removed. -/
structure Interleaving where
  db : Database
  deleting : Handler Reply
  creating : List (Handler Reply)
  issued : List Sql
  deleted : List Uuid

/-- A call of `delete_api_key` on key `k` is about to issue its first statement. -/
def Interleaving.start (fuel : ℕ) (env : Env) (caller : ApiKey) (k : Uuid) (db : Database) :
    Interleaving where
  db := db
  deleting := Handlers.deleteApiKey fuel env caller k
  creating := []
  issued := []
  deleted := []

/-- What happens next. -/
inductive Turn
  /-- A call is authenticated. -/
  | arrive (call : Call)
  /-- The deletion issues its next statement. -/
  | delete
  /-- The call with this number issues its next statement. -/
  | create (i : ℕ)

/-- One step; `none` when there is no such call. -/
def Interleaving.step (s : Interleaving) : Turn → Option Interleaving
  | .arrive call =>
      if call.request.creates then
        (s.db.callerOf call.callerId).map fun caller =>
          { s with creating := s.creating ++ [handle call.fuel call.env caller call.request] }
      else none
  | .delete =>
      let after := s.deleting.step s.db
      some
        { s with
          db := after.2
          deleting := after.1
          issued := s.issued ++ s.deleting.tag?.toList
          deleted := s.deleted ++
            (s.db.apiKeys.rows.map ApiKey.id).filter fun id => !after.2.hasKey id }
  | .create i =>
      s.creating[i]?.map fun call =>
        { s with
          db := (call.step s.db).2
          creating := s.creating.set i (call.step s.db).1 }

/-- The deletion has answered 204. -/
def Interleaving.Answered204 (s : Interleaving) : Prop :=
  s.deleting.result? = some (.ok .noContent)

/-- Every call has ended. -/
def Interleaving.Finished (s : Interleaving) : Prop :=
  s.deleting.result?.isSome ∧ ∀ call ∈ s.creating, call.result?.isSome

instance (s : Interleaving) : Decidable s.Answered204 :=
  inferInstanceAs (Decidable (s.deleting.result? = some (.ok .noContent)))

instance (s : Interleaving) : Decidable s.Finished :=
  inferInstanceAs (Decidable (s.deleting.result?.isSome ∧ ∀ call ∈ s.creating, call.result?.isSome))

/-! ### An undisturbed deletion -/

theorem Interleaving.runEvents_delete (n : ℕ) (s : Interleaving) :
    ∃ s', runEvents Interleaving.step anyStep s (List.replicate n .delete) = some s' ∧
      (s'.deleting, s'.db) = s.deleting.steps n s.db := by
  induction n generalizing s with
  | zero => exact ⟨s, rfl, rfl⟩
  | succ n ih => exact ih _

/-- Without anything in between, the statements of a deletion are `delete_api_key`. -/
theorem Interleaving.delete_undisturbed (fuel : ℕ) (env : Env) (caller : ApiKey) (k : Uuid)
    (db : Database) :
    ∃ n s, runEvents Interleaving.step anyStep (.start fuel env caller k db)
        (List.replicate n .delete) = some s ∧
      s.deleting.tag? = none ∧
      s.deleting.exec s.db = (Handlers.deleteApiKey fuel env caller k).exec db := by
  obtain ⟨n, hend⟩ := (Handlers.deleteApiKey fuel env caller k).exists_steps_tag?_eq_none db
  obtain ⟨s, hrun, hsteps⟩ := runEvents_delete n (.start fuel env caller k db)
  obtain ⟨hdeleting, hdb⟩ := Prod.mk.inj hsteps
  have hexec := Prog.exec_steps n (Handlers.deleteApiKey fuel env caller k) db
  refine ⟨n, s, hrun, ?_, ?_⟩
  · rw [hdeleting]
    exact hend
  · rw [hdeleting, hdb]
    exact hexec

/-! ### What a deletion leaves -/

/-- `a` is a parent of the key, or a parent of one of its parents. -/
inductive Database.HasAncestor (db : Database) : Uuid → Uuid → Prop
  | parent {id a : Uuid} {r : ApiKey} (hr : db.apiKeys.find? id = some r)
      (hparent : r.parentKeyId = some a) : HasAncestor db id a
  | above {id p a : Uuid} {r : ApiKey} (hp : HasAncestor db id p)
      (hr : db.apiKeys.find? p = some r) (hparent : r.parentKeyId = some a) : HasAncestor db id a

/-- Nothing is left that hangs on key `k` or on a deleted key. -/
structure Interleaving.LeavesNoTrace (s : Interleaving) (k : Uuid) : Prop where
  keys : ∀ id a, s.db.HasAncestor id a → a ≠ k ∧ a ∉ s.deleted
  vaults : ∀ r ∈ s.db.vaultEndpoints.rows, ∀ a, r.ownerKeyId = some a → a ≠ k ∧ a ∉ s.deleted
  groups : ∀ r ∈ s.db.destinationGroups.rows, ∀ a, r.ownerKeyId = some a →
    a ≠ k ∧ a ∉ s.deleted
  tasks : ∀ r ∈ s.db.vaultSyncTasks.rows, ∀ a, r.ownerKeyId = some a → a ≠ k ∧ a ∉ s.deleted

/-! ### Rows that come too late -/

/-- A statement of the log has read the rows of the table that stand under key `id`. -/
def hasRead (log : List Sql) (table : TableName) (id : Uuid) : Bool :=
  log.any fun
    | .selectOf table' ids => decide (table' = table) && decide (id ∈ ids)
    | _ => false

/-- From `db` to `db'` a table gets a row that stands under key `p`, whose rows of this table have
been read before. -/
def Late (log : List Sql) (db db' : Database) : Prop :=
  ∃ table ∈ heldTables, ∃ x ∈ db'.holders table, x ∉ db.holders table ∧
    x.2.any (hasRead log table) = true

instance (log : List Sql) (db db' : Database) : Decidable (Late log db db') :=
  inferInstanceAs (Decidable (∃ table ∈ heldTables, ∃ x ∈ db'.holders table,
    x ∉ db.holders table ∧ x.2.any (hasRead log table) = true))

/-- The next statement adds a key under a parent, or a resource of an owner, whose daughters or
resources the deletion has read before. -/
def Interleaving.AddsLate (s : Interleaving) (turn : Turn) : Prop :=
  ∃ s' ∈ s.step turn, Late s.issued s.db s'.db

instance (s : Interleaving) (turn : Turn) : Decidable (s.AddsLate turn) :=
  inferInstanceAs (Decidable (∃ s' ∈ s.step turn, Late s.issued s.db s'.db))

/-! ### What the deletion relies on and keeps to -/

/-- No row of the table stands under a key whose rows have been read. -/
def Clear (log : List Sql) (table : TableName) (db : Database) : Prop :=
  ∀ id p, (id, some p) ∈ db.holders table → hasRead log table p = false

/-- Others add no row too late. -/
def Timely (log : List Sql) (db db' : Database) : Prop := ¬Late log db db'

/-- The deletion removes keys of which it has read all that stands under them. -/
def RemovesRead (log : List Sql) (db db' : Database) : Prop :=
  ∀ id, db.hasKey id = true → db'.hasKey id = false →
    ∀ table ∈ heldTables, hasRead log table id = true

/-- How the deletion of key `k` ends: when it answers 204, nothing stands under a key it has read,
and `k` is one of them. -/
def Swept (k : Uuid) (r : Except AppError Reply) (log : List Sql) (db : Database) : Prop :=
  r = .ok .noContent →
    ∀ table ∈ heldTables, hasRead log table k = true ∧ Clear log table db

variable {log : List Sql} {db db' : Database} {k : Uuid}

/-- A row under a key that has been read was there before. -/
theorem mem_holders_of_timely {table : TableName} {id p : Uuid} (h : Timely log db db')
    (htable : table ∈ heldTables) (hrow : (id, some p) ∈ db'.holders table)
    (hread : hasRead log table p = true) : (id, some p) ∈ db.holders table := by
  by_contra hnew
  exact h ⟨table, htable, _, hrow, hnew, hread⟩

theorem stable_clear {table : TableName} (htable : table ∈ heldTables) :
    Prog.Stable (Timely log) (Clear log table) := by
  intro db db' hclear htimely id p hrow
  by_contra hread
  rw [Bool.not_eq_false] at hread
  have hold := hclear id p (mem_holders_of_timely htimely htable hrow hread)
  rw [hread] at hold
  cases hold

theorem stable_swept (k : Uuid) (r : Except AppError Reply) (log : List Sql) :
    Prog.Stable (Timely log) (Swept k r log) := by
  intro db db' hswept htimely hr table htable
  obtain ⟨hread, hclear⟩ := hswept hr table htable
  exact ⟨hread, stable_clear htable _ _ hclear htimely⟩

theorem removesRead_refl (log : List Sql) (db : Database) : RemovesRead log db db := by
  intro id hthere hgone
  rw [hthere] at hgone
  cases hgone

/-! ### The log -/

/-- The query of a table under some keys. -/
theorem hasRead_selectOf (log : List Sql) (table table' : TableName) (ids : List Uuid)
    (id : Uuid) :
    hasRead (log ++ [.selectOf table' ids]) table id =
      (hasRead log table id || (decide (table' = table) && decide (id ∈ ids))) := by
  simp [hasRead]

theorem hasRead_mono {table : TableName} {id : Uuid} (log' : List Sql)
    (h : hasRead log table id = true) : hasRead (log ++ log') table id = true := by
  rw [hasRead, List.any_append, Bool.or_eq_true]
  exact Or.inl h

/-! ### The walk through the subtree -/

/-- The walk has `result` so far and looks at `frontier` next. -/
structure Walking (k : Uuid) (frontier : List Uuid) (result : List ApiKey) (log : List Sql)
    (db : Database) : Prop where
  root : k ∈ result.map ApiKey.id
  read : ∀ id ∈ result.map ApiKey.id, id ∈ frontier ∨ hasRead log .apiKeys id = true
  daughters : ∀ id p, (id, some p) ∈ db.holders .apiKeys → hasRead log .apiKeys p = true →
    id ∈ result.map ApiKey.id
  resources : ∀ table ≠ .apiKeys, ∀ id, hasRead log table id = false

theorem stable_walking {frontier : List Uuid} {result : List ApiKey} :
    Prog.Stable (Timely log) (Walking k frontier result log) := by
  intro db db' h htimely
  refine ⟨h.root, h.read, ?_, h.resources⟩
  intro id p hrow hread
  exact h.daughters id p
    (mem_holders_of_timely htimely (by simp [heldTables]) hrow hread) hread

theorem mem_holders_apiKeys {id p : Uuid} :
    (id, some p) ∈ db.holders .apiKeys ↔
      ∃ r ∈ db.apiKeys.rows, r.id = id ∧ r.parentKeyId = some p := by
  simp [Database.holders]

/-- One level. -/
theorem Walking.look {frontier : List Uuid} {result : List ApiKey}
    (h : Walking k frontier result log db) :
    Walking k ((db.daughters frontier).map ApiKey.id) (result ++ db.daughters frontier)
      (log ++ [.selectOf .apiKeys frontier]) db := by
  refine ⟨?_, ?_, ?_, ?_⟩
  · rw [List.map_append]
    exact List.mem_append_left _ h.root
  · intro id hid
    rw [List.map_append, List.mem_append] at hid
    rcases hid with hid | hid
    · rcases h.read id hid with hfrontier | hread
      · exact Or.inr (by simp [hasRead_selectOf, hfrontier])
      · exact Or.inr (hasRead_mono _ hread)
    · exact Or.inl hid
  · intro id p hrow hread
    rw [List.map_append, List.mem_append]
    rw [hasRead_selectOf, Bool.or_eq_true] at hread
    rcases hread with hbefore | hnow
    · exact Or.inl (h.daughters id p hrow hbefore)
    · -- the query has just returned the row
      obtain ⟨r, hr, rfl, hparent⟩ := mem_holders_apiKeys.mp hrow
      have hp : p ∈ frontier := by simpa using hnow
      refine Or.inr (List.mem_map_of_mem ?_)
      exact List.mem_filter.mpr ⟨hr, by simp [hparent, hp]⟩
  · intro table htable id
    simp [hasRead_selectOf, h.resources table htable id, Ne.symm htable]

/-- The whole walk. -/
theorem among_walkSubtree {Q : Except AppError Reply → List Sql → Database → Prop}
    {next : List ApiKey → Handler Reply} {frontier : List Uuid} {result : List ApiKey} (fuel : ℕ)
    (h : Walking k frontier result log db)
    (hnext : ∀ result log db, Walking k [] result log db →
      Prog.Among Timely RemovesRead Q (next result) log db) :
    Prog.Among Timely RemovesRead Q (walkSubtree fuel frontier result >>= next) log db := by
  induction fuel generalizing frontier result log db with
  | zero =>
      cases frontier with
      | nil => exact hnext result log db h
      | cons id rest => trivial
  | succ fuel ih =>
      cases frontier with
      | nil => exact hnext result log db h
      | cons id rest =>
          simp only [walkSubtree, bind_assoc]
          refine Prog.among_query removesRead_refl stable_walking h ?_
          intro db' hdb'
          exact ih hdb'.look

/-! ### The inventory -/

/-- The keys `ids` of the subtree have been collected, and what they own in `tables` has been
listed; `empty` says that the lists are empty. -/
structure Listing (k : Uuid) (ids : List Uuid) (tables : List TableName) (empty : Prop)
    (log : List Sql) (db : Database) : Prop where
  root : k ∈ ids
  read : ∀ id ∈ ids, hasRead log .apiKeys id = true
  daughters : ∀ id p, (id, some p) ∈ db.holders .apiKeys → hasRead log .apiKeys p = true →
    id ∈ ids
  listed : ∀ table ∈ tables, ∀ id ∈ ids, hasRead log table id = true
  clear : empty → ∀ table ∈ tables, Clear log table db
  unlisted : ∀ table ≠ .apiKeys, table ∉ tables → ∀ id, hasRead log table id = false

/-- The walk is over. -/
theorem Walking.listing {result : List ApiKey} (h : Walking k [] result log db) :
    Listing k (result.map ApiKey.id) [] True log db := by
  refine ⟨h.root, ?_, h.daughters, by simp, by simp, ?_⟩
  · intro id hid
    exact (h.read id hid).resolve_left List.not_mem_nil
  · intro table htable _ id
    exact h.resources table htable id

variable {ids : List Uuid} {tables : List TableName} {empty : Prop}

theorem stable_listing (htables : ∀ table ∈ tables, table ∈ heldTables) :
    Prog.Stable (Timely log) (Listing k ids tables empty log) := by
  intro db db' h htimely
  refine ⟨h.root, h.read, ?_, h.listed, ?_, h.unlisted⟩
  · intro id p hrow hread
    exact h.daughters id p
      (mem_holders_of_timely htimely (by simp [heldTables]) hrow hread) hread
  · intro hempty table htable
    exact stable_clear (htables table htable) _ _ (h.clear hempty table htable) htimely

/-- The resources of one more kind. -/
theorem Listing.look {found : Prop} (h : Listing k ids tables empty log db) (table : TableName)
    (htable : table ≠ .apiKeys) (hnew : table ∉ tables)
    (hfound : found → ∀ id p, (id, some p) ∈ db.holders table → p ∉ ids) :
    Listing k ids (table :: tables) (empty ∧ found) (log ++ [.selectOf table ids]) db := by
  refine ⟨h.root, ?_, ?_, ?_, ?_, ?_⟩
  · intro id hid
    exact hasRead_mono _ (h.read id hid)
  · intro id p hrow hread
    refine h.daughters id p hrow ?_
    simpa [hasRead_selectOf, htable] using hread
  · intro table' htable' id hid
    rcases List.mem_cons.mp htable' with rfl | htable'
    · simp [hasRead_selectOf, hid]
    · exact hasRead_mono _ (h.listed table' htable' id hid)
  · rintro ⟨hempty, hnone⟩ table' htable' id p hrow
    rw [hasRead_selectOf]
    rcases List.mem_cons.mp htable' with rfl | htable'
    · simp [h.unlisted table' htable hnew p, hfound hnone id p hrow]
    · have hne : table ≠ table' := by
        rintro rfl
        exact hnew htable'
      simp [h.clear hempty table' htable' id p hrow, hne]
  · intro table' hkeys hother id
    rw [List.mem_cons, not_or] at hother
    simp [hasRead_selectOf, h.unlisted table' hkeys hother.2 id, Ne.symm hother.1]

/-! ### The removal -/

/-- A list of owned rows is empty only if nothing of the kind stands under the keys. -/
theorem notMem_of_filter_eq_nil {ρ : Type} {rows : List ρ} {row : ρ → Uuid × Option Uuid}
    (hnone : (rows.filter fun r => isOwned ids (row r).2) = []) :
    ∀ id p, (id, some p) ∈ rows.map row → p ∉ ids := by
  intro id p hrow hp
  obtain ⟨r, hr, hpair⟩ := List.mem_map.mp hrow
  have hfree := List.filter_eq_nil_iff.mp hnone r hr
  simp [hpair, isOwned, hp] at hfree

/-- All that stands under the listed keys has been read. -/
theorem Listing.read_all
    (h : Listing k ids [.vaultSyncTasks, .destinationGroups, .vaultEndpoints] empty log db)
    {table : TableName} (htable : table ∈ heldTables) {id : Uuid} (hid : id ∈ ids) :
    hasRead log table id = true := by
  by_cases hkeys : table = .apiKeys
  · exact hkeys ▸ h.read id hid
  · refine h.listed table ?_ id hid
    revert htable hkeys
    cases table <;> simp [heldTables]

/-- The keys are removed, and nothing that stood under one of them is left. -/
theorem Listing.remove
    (h : Listing k ids [.vaultSyncTasks, .destinationGroups, .vaultEndpoints] empty log db)
    (hempty : empty) :
    RemovesRead log db (db.deleteApiKeys ids).2 ∧
      ∀ table ∈ heldTables, Clear log table (db.deleteApiKeys ids).2 := by
  constructor
  · intro id hthere hgone table htable
    refine h.read_all htable ?_
    by_contra hid
    have hkept : (db.deleteApiKeys ids).2.hasKey id = db.hasKey id := by
      rw [Database.hasKey, Database.hasKey, Database.deleteApiKeys, Table.find?_deleteWhere]
      cases hfind : db.apiKeys.find? id with
      | none => rfl
      | some r => simp [Option.filter, Table.key_of_find? hfind, hid]
    rw [hkept, hthere] at hgone
    cases hgone
  · intro table htable id p hrow
    by_cases hkeys : table = .apiKeys
    · subst hkeys
      obtain ⟨r, hr, rfl, hparent⟩ := mem_holders_apiKeys.mp hrow
      obtain ⟨hr, hkept⟩ := Table.mem_deleteWhere.mp hr
      by_contra hread
      rw [Bool.not_eq_false] at hread
      have hid := h.daughters r.id p (mem_holders_apiKeys.mpr ⟨r, hr, rfl, hparent⟩) hread
      simp [hid] at hkept
    · have hheld : table ∈ [TableName.vaultSyncTasks, .destinationGroups, .vaultEndpoints] := by
        revert htable hkeys
        cases table <;> simp [heldTables]
      refine h.clear hempty table hheld id p ?_
      revert hrow
      revert hheld
      cases table <;> simp [Database.holders, Database.deleteApiKeys]

/-! ### The deletion among other calls -/

theorem hasRead_snoc_delete (log : List Sql) (table table' : TableName) (id : Uuid) :
    hasRead (log ++ [.delete table']) table id = hasRead log table id := by simp [hasRead]

theorem hasRead_snoc_insert (log : List Sql) (table table' : TableName) (id : Uuid) :
    hasRead (log ++ [.insert table']) table id = hasRead log table id := by simp [hasRead]

/-- A refusal leaves nothing to show. -/
theorem swept_error (k : Uuid) (e : AppError) (log : List Sql) (db : Database) :
    Swept k (.error e) log db := fun h => by cases h

/-- The audit entry of the deletion. -/
theorem among_deleted {env : Env} {caller : ApiKey} {name : Option String}
    (h : ∀ table ∈ heldTables, hasRead log table k = true ∧ Clear log table db) :
    Prog.Among Timely RemovesRead (Swept k)
      (do
        createAuditLog env caller "KEY_DELETE" name
        pure Reply.noContent : Handler Reply) log db := by
  refine Prog.among_perform
    (P := fun db => ∀ table ∈ heldTables, hasRead log table k = true ∧ Clear log table db) ?_ h ?_ ?_
  · intro db db' h htimely table htable
    exact ⟨(h table htable).1, stable_clear htable _ _ (h table htable).2 htimely⟩
  · intro db e _ _
    exact swept_error k e _ db
  · intro db _ db' h heffect
    have hdb' : ∃ entries, db' = { db with auditLogs := entries } := by
      split at heffect
      · cases heffect
      · rename_i haudit
        obtain ⟨-, rfl⟩ := Prod.mk.inj (Except.ok.inj heffect)
        exact ⟨_, insertAuditLog_ok haudit⟩
    obtain ⟨entries, rfl⟩ := hdb'
    refine ⟨removesRead_refl _ db, Prog.among_pure ?_⟩
    intro _ table htable
    refine ⟨by rw [hasRead_snoc_insert]; exact (h table htable).1, ?_⟩
    intro id p hrow
    rw [hasRead_snoc_insert]
    refine (h table htable).2 id p ?_
    cases table <;> exact hrow

/-- The removal and what follows it. -/
theorem among_removal {env : Env} {caller : ApiKey} {name : Option String}
    (h : Listing k ids [.vaultSyncTasks, .destinationGroups, .vaultEndpoints] empty log db)
    (hempty : empty) :
    Prog.Among Timely RemovesRead (Swept k)
      (do
        let affected ← deleteRows .apiKeys fun db => db.deleteApiKeys ids
        .lift (require (affected != 0) .notFound)
        createAuditLog env caller "KEY_DELETE" name
        pure Reply.noContent : Handler Reply) log db := by
  refine Prog.among_perform (P := Listing k ids _ empty log) (stable_listing ?_) h ?_ ?_
  · simp [heldTables]
  · intro db e _ heffect
    cases heffect
  · intro db affected db' h heffect
    obtain ⟨-, rfl⟩ := Prod.mk.inj (Except.ok.inj heffect)
    obtain ⟨hremoves, hclear⟩ := h.remove hempty
    refine ⟨?_, Prog.among_lift (fun e _ => swept_error k e _ _) fun _ _ => among_deleted ?_⟩
    · intro id hthere hgone table htable
      rw [hasRead_snoc_delete]
      exact hremoves id hthere hgone table htable
    · intro table htable
      refine ⟨by rw [hasRead_snoc_delete]; exact h.read_all htable h.root, ?_⟩
      intro id p hrow
      rw [hasRead_snoc_delete]
      exact hclear table htable id p hrow

/-- What comes after the walk: the inventory, and the removal when it is empty. -/
theorem among_inventory {env : Env} {caller : ApiKey} {name : Option String}
    (h : Listing k ids [] True log db) :
    Prog.Among Timely RemovesRead (Swept k)
      (do
        let inventory ← ownedResourceInventory ids
        .lift (require inventory.isEmpty (stillOwns inventory))
        let affected ← deleteRows .apiKeys fun db => db.deleteApiKeys ids
        .lift (require (affected != 0) .notFound)
        createAuditLog env caller "KEY_DELETE" name
        pure Reply.noContent : Handler Reply) log db := by
  simp only [ownedResourceInventory, bind_assoc, pure_bind]
  refine Prog.among_query removesRead_refl (stable_listing (by simp)) h ?_
  intro db h
  have hvaults := h.look .vaultEndpoints (by decide) (by simp) notMem_of_filter_eq_nil
  refine Prog.among_query removesRead_refl (stable_listing (by simp [heldTables])) hvaults ?_
  intro db h
  have hgroups := h.look .destinationGroups (by decide) (by simp)
    notMem_of_filter_eq_nil
  refine Prog.among_query removesRead_refl (stable_listing (by simp [heldTables])) hgroups ?_
  intro db h
  have htasks := h.look .vaultSyncTasks (by decide) (by simp) notMem_of_filter_eq_nil
  refine Prog.among_lift (fun e _ => swept_error k e _ _) fun _ hempty => ?_
  refine among_removal htasks ?_
  rw [require] at hempty
  split at hempty
  · rename_i hnone
    simp only [List.isEmpty_iff, List.append_eq_nil_iff, List.map_eq_nil_iff] at hnone
    exact ⟨⟨⟨trivial, hnone.1.1⟩, hnone.1.2⟩, hnone.2⟩
  · cases hempty

/-- **The deletion sweeps, whatever the others do in time.** -/
theorem among_deleteApiKey (fuel : ℕ) (env : Env) (caller : ApiKey) (k : Uuid) (db : Database) :
    Prog.Among Timely RemovesRead (Swept k) (Handlers.deleteApiKey fuel env caller k) [] db := by
  refine Prog.among_lift (fun e _ => swept_error k e _ _) fun _ _ => ?_
  rw [findApiKey, findRow, bind_assoc]
  refine Prog.among_query (P := fun _ => True) removesRead_refl (fun _ _ _ _ => trivial) trivial ?_
  intro db _
  cases hfind : db.apiKeys.find? k with
  | none => exact swept_error k _ _ _
  | some target =>
      rw [pure_bind]
      refine Prog.among_lift (fun e _ => swept_error k e _ _) fun _ _ => ?_
      refine Prog.among_lift (fun e _ => swept_error k e _ _) fun _ _ => ?_
      refine among_walkSubtree (k := k) fuel ⟨?_, ?_, ?_, ?_⟩ ?_
      · simp [Table.key_of_find? hfind]
      · intro id hid
        exact Or.inl hid
      · intro id p _ hread
        cases hread
      · intro table _ id
        rfl
      · intro subtree log db hwalking
        exact among_inventory hwalking.listing

/-! ### Runs -/

/-- What holds throughout a run without late rows. -/
structure Interleaving.Timed (k : Uuid) (s : Interleaving) : Prop where
  among : Prog.Among Timely RemovesRead (Swept k) s.deleting s.issued s.db
  deleted : ∀ id ∈ s.deleted, ∀ table ∈ heldTables, hasRead s.issued table id = true

theorem Interleaving.timed_start (fuel : ℕ) (env : Env) (caller : ApiKey) (k : Uuid)
    (db : Database) : (start fuel env caller k db).Timed k := by
  refine ⟨among_deleteApiKey fuel env caller k db, ?_⟩
  intro id hid
  cases hid

/-- **One step.** -/
theorem Interleaving.Timed.step {s s' : Interleaving} {turn : Turn} (h : s.Timed k)
    (htimely : ¬s.AddsLate turn) (hstep : s.step turn = some s') : s'.Timed k := by
  have hlate : Timely s.issued s.db s'.db := fun hlate => htimely ⟨s', hstep, hlate⟩
  cases turn with
  | arrive call =>
      rw [Interleaving.step] at hstep
      split at hstep
      · obtain ⟨caller, -, rfl⟩ := Option.map_eq_some_iff.mp hstep
        exact ⟨h.among, h.deleted⟩
      · cases hstep
  | delete =>
      obtain rfl := Option.some.inj hstep
      obtain ⟨hamong, hremoves⟩ := h.among.step
      refine ⟨hamong, ?_⟩
      intro id hid table htable
      rcases List.mem_append.mp hid with hbefore | hnow
      · exact hasRead_mono _ (h.deleted id hbefore table htable)
      · obtain ⟨hthere, hgone⟩ := List.mem_filter.mp hnow
        rw [Bool.not_eq_true'] at hgone
        obtain ⟨r, hr, rfl⟩ := List.mem_map.mp hthere
        have hhas : s.db.hasKey r.id = true := by
          rw [Database.hasKey, Table.find?_eq_some_iff.mpr ⟨hr, rfl⟩]
          rfl
        rcases hremoves with hsame | hremoves
        · rw [hsame, hhas] at hgone
          cases hgone
        · exact hremoves r.id hhas hgone table htable
  | create i =>
      obtain ⟨call, -, rfl⟩ := Option.map_eq_some_iff.mp hstep
      exact ⟨h.among.interfere (stable_swept k) hlate, h.deleted⟩

/-- A key on a chain of parents that leads to `a` has `a` as its parent. -/
theorem Database.HasAncestor.parent_row {id a : Uuid} (h : db.HasAncestor id a) :
    ∃ r ∈ db.apiKeys.rows, r.parentKeyId = some a := by
  cases h with
  | parent hr hparent => exact ⟨_, (Table.find?_eq_some_iff.mp hr).1, hparent⟩
  | above _ hr hparent => exact ⟨_, (Table.find?_eq_some_iff.mp hr).1, hparent⟩

/-- **A deletion leaves no trace** in any interleaving in which no statement adds a key under a
parent, or a resource of an owner, whose daughters or resources the deletion has already read. -/
theorem leaves_no_trace {fuel : ℕ} {env : Env} {caller : ApiKey} {k : Uuid} {db : Database}
    {s : Interleaving}
    (hrun : Reaches Interleaving.step (fun s turn => ¬s.AddsLate turn)
      (.start fuel env caller k db) s) (hanswered : s.Answered204) : s.LeavesNoTrace k := by
  have htimed : s.Timed k :=
    hrun.invariant (Interleaving.timed_start fuel env caller k db)
      fun s turn s' h hgood hstep => h.step hgood hstep
  have hswept : Swept k (.ok .noContent) s.issued s.db := by
    have hamong := htimed.among
    revert hamong hanswered
    rw [Interleaving.Answered204]
    cases s.deleting with
    | done r =>
        rintro ⟨⟩ hamong
        exact hamong
    | hang => nofun
    | stmt => nofun
    | txn => nofun
  have hfree : ∀ table ∈ heldTables, ∀ id a, (id, some a) ∈ s.db.holders table →
      a ≠ k ∧ a ∉ s.deleted := by
    intro table htable id a hrow
    obtain ⟨hread, hclear⟩ := hswept rfl table htable
    have hunread := hclear id a hrow
    constructor
    · rintro rfl
      rw [hread] at hunread
      cases hunread
    · intro ha
      rw [htimed.deleted a ha table htable] at hunread
      cases hunread
  refine ⟨?_, ?_, ?_, ?_⟩
  · intro id a hancestor
    obtain ⟨r, hr, hparent⟩ := hancestor.parent_row
    exact hfree .apiKeys (by simp [heldTables]) r.id a
      (mem_holders_apiKeys.mpr ⟨r, hr, rfl, hparent⟩)
  · intro r hr a howner
    exact hfree .vaultEndpoints (by simp [heldTables]) r.id a
      (List.mem_map.mpr ⟨r, hr, by rw [howner]⟩)
  · intro r hr a howner
    exact hfree .destinationGroups (by simp [heldTables]) r.id a
      (List.mem_map.mpr ⟨r, hr, by rw [howner]⟩)
  · intro r hr a howner
    exact hfree .vaultSyncTasks (by simp [heldTables]) r.id a
      (List.mem_map.mpr ⟨r, hr, by rw [howner]⟩)

/-- The Master deletes key 2, which makes key 3 before its daughters are read: both go. -/
theorem leaves_no_trace_daughter :
    ∃ db s, Reaches serve anyStep .fresh db ∧
      Reaches Interleaving.step (fun s turn => ¬s.AddsLate turn)
        (.start 8 (.plain 0) ((Env.plain 1).masterKey "k" "s") 2 db) s ∧
      s.Answered204 ∧ s.deleted = [2, 3] ∧ s.LeavesNoTrace 2 := by
  have hrun : ((runEvents serve anyStep .fresh
      [.plain 1 2 (.createApiKey (.plain "manager" true false false))]).bind fun db =>
        (runEvents Interleaving.step (fun s turn => ¬s.AddsLate turn)
          (.start 8 (.plain 0) ((Env.plain 1).masterKey "k" "s") 2 db)
          [.arrive (.plain 2 3 (.createApiKey (.plain "daughter" false false false))),
            .delete, .create 0, .create 0, .delete, .delete, .delete, .delete, .delete, .delete,
            .delete]).map fun s => decide (s.Answered204 ∧ s.deleted = [2, 3])) = some true := by
    decide +kernel
  obtain ⟨db, hdb, hs⟩ := Option.bind_eq_some_iff.mp hrun
  obtain ⟨s, hs, hfacts⟩ := Option.map_eq_some_iff.mp hs
  obtain ⟨hanswered, hdeleted⟩ := of_decide_eq_true hfacts
  have hreaches := reaches_of_runEvents hs
  exact ⟨db, s, reaches_of_runEvents hdb, hreaches, hanswered, hdeleted,
    leaves_no_trace hreaches hanswered⟩

/-- The Master deletes key 2, which makes key 3 and endpoint 4 once its daughters and its endpoints
have been read: every call is answered, and both are left. -/
theorem left_behind :
    ∃ db s, Reaches serve anyStep .fresh db ∧
      db.callerOf 1 = some ((Env.plain 1).masterKey "k" "s") ∧
      Reaches Interleaving.step anyStep
        (.start 8 (.plain 0) ((Env.plain 1).masterKey "k" "s") 2 db) s ∧
      s.Finished ∧ s.Answered204 ∧ ¬s.LeavesNoTrace 2 := by
  have hrun : ((runEvents serve anyStep .fresh
      [.plain 1 2 (.createApiKey (.plain "manager" true false true))]).bind fun db =>
        (runEvents Interleaving.step anyStep
          (.start 8 (.plain 0) ((Env.plain 1).masterKey "k" "s") 2 db)
          [.arrive (.plain 2 3 (.createApiKey (.plain "daughter" false false false))),
            .arrive (.plain 2 4 (.createVaultEndpoint ⟨"endpoint", "", "", "", none⟩)),
            .delete, .delete, .delete, .delete, .delete, .create 0, .create 0, .create 1,
            .create 1, .create 1, .delete, .delete]).map fun s =>
              decide (db.callerOf 1 = some ((Env.plain 1).masterKey "k" "s") ∧ s.Finished ∧
                s.Answered204 ∧ (s.db.apiKeys.find? 3).map ApiKey.parentKeyId = some (some 2) ∧
                (s.db.vaultEndpoints.find? 4).map OwnedVaultEndpoint.ownerKeyId =
                  some (some 2))) = some true := by
    decide +kernel
  obtain ⟨db, hdb, hs⟩ := Option.bind_eq_some_iff.mp hrun
  obtain ⟨s, hs, hfacts⟩ := Option.map_eq_some_iff.mp hs
  obtain ⟨hmaster, hfinished, hanswered, hdaughter, -⟩ := of_decide_eq_true hfacts
  obtain ⟨r, hr, hparent⟩ := Option.map_eq_some_iff.mp hdaughter
  refine ⟨db, s, reaches_of_runEvents hdb, hmaster, reaches_of_runEvents hs, hfinished,
    hanswered, ?_⟩
  intro htrace
  exact (htrace.keys 3 2 (.parent hr hparent)).1 rfl

end SimplyIpSync.Api
