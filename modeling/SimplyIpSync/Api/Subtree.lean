import SimplyIpSync.Api.Interleaving
import SimplyIpSync.Api.KeySteps
import SimplyIpSync.Lib.Forest

/-!
# The subtree of a key (`src/api/keys.rs`)

`collect_subtree` keeps no set of the keys it has visited.  `Traffic` lets any calls of the API run
side by side, statement by statement, and break off anywhere, so that a key may be created under a
parent that is deleted meanwhile and a parent may be missing.  A parent is still older than its
daughters (`Grown`), hence no key descends from itself and the walk is exact (`subtree_exact`).
-/

namespace SimplyIpSync.Api

open SimplyIpSync.Entities SimplyIpSync.Storage SimplyIpSync.Program SimplyIpSync.Reach
open SimplyIpSync.Program.Prog (Keeps)

/-! ### The calls of the API, side by side -/

/-- What is left of each call, and the identifiers that keys or requests have got so far. -/
structure Traffic where
  db : Database
  calls : List (Handler Reply)
  drawn : List Uuid

/-- Nobody has called yet. -/
def Traffic.start (db : Database) : Traffic where
  db := db
  calls := []
  drawn := db.apiKeys.rows.map ApiKey.id

/-- What happens next. -/
inductive Traffic.Event
  /-- A call is authenticated. -/
  | arrive (call : Call)
  /-- The call with this number issues its next statement. -/
  | advance (i : ℕ)
  /-- The next statement of the call fails, or its client has gone. -/
  | abort (i : ℕ)

/-- One event; `none` when there is no such key or call. -/
def Traffic.step (s : Traffic) : Traffic.Event → Option Traffic
  | .arrive call =>
      (s.db.callerOf call.callerId).map fun caller =>
        { s with
          calls := s.calls ++ [handle call.fuel call.env caller call.request]
          drawn := s.drawn ++ [call.env.newId] }
  | .advance i =>
      s.calls[i]?.map fun call =>
        { s with
          db := (call.step s.db).2
          calls := s.calls.set i (call.step s.db).1 }
  | .abort i => s.calls[i]?.map fun _ => { s with calls := s.calls.eraseIdx i }

/-- `Uuid::new_v4` gives a request an identifier that it has not given before. -/
def Traffic.DrawsFresh (s : Traffic) : Traffic.Event → Prop
  | .arrive call => call.env.newId ∉ s.drawn
  | _ => True

instance (s : Traffic) : DecidablePred s.DrawsFresh
  | .arrive call => inferInstanceAs (Decidable (call.env.newId ∉ s.drawn))
  | .advance _ => .isTrue trivial
  | .abort _ => .isTrue trivial

/-! ### A parent is older than its daughters -/

/-- `p` was drawn before `id`. -/
def DrawnBefore (drawn : List Uuid) (p id : Uuid) : Prop :=
  id ∈ drawn ∧ drawn.idxOf p < drawn.idxOf id

variable {drawn : List Uuid} {p id : Uuid}

theorem DrawnBefore.append (h : DrawnBefore drawn p id) (later : List Uuid) :
    DrawnBefore (drawn ++ later) p id := by
  obtain ⟨hid, hlt⟩ := h
  have hp : p ∈ drawn := List.idxOf_lt_length_iff.mp (hlt.trans_le List.idxOf_le_length)
  refine ⟨List.mem_append_left _ hid, ?_⟩
  rw [List.idxOf_append_of_mem hp, List.idxOf_append_of_mem hid]
  exact hlt

theorem drawnBefore_new (hp : p ∈ drawn) (hid : id ∉ drawn) :
    DrawnBefore (drawn ++ [id]) p id := by
  refine ⟨by simp, ?_⟩
  rw [List.idxOf_append_of_mem hp, List.idxOf_append_of_notMem hid, List.idxOf_cons_self,
    Nat.add_zero]
  exact List.idxOf_lt_length_iff.mpr hp

/-- A key stands where the API puts keys: it has been drawn, its parent before it, and the Master
has no parent. -/
structure Stands (drawn : List Uuid) (key : ApiKey) : Prop where
  mem : key.id ∈ drawn
  parent : ∀ p, key.parentKeyId = some p → DrawnBefore drawn p key.id
  master : key.isMaster = true → key.parentKeyId = none

theorem Stands.append {key : ApiKey} (h : Stands drawn key) (later : List Uuid) :
    Stands (drawn ++ later) key where
  mem := List.mem_append_left _ h.mem
  parent p hp := (h.parent p hp).append later
  master := h.master

theorem Stands.of_place {key old : ApiKey} (h : Stands drawn old) (hplace : key.place = old.place) :
    Stands drawn key := by
  obtain ⟨hid, hparent, hmaster⟩ : key.id = old.id ∧ key.parentKeyId = old.parentKeyId ∧
      key.isMaster = old.isMaster := by simpa [ApiKey.place] using hplace
  refine ⟨hid ▸ h.mem, ?_, ?_⟩
  · rw [hparent, hid]
    exact h.parent
  · rw [hparent, hmaster]
    exact h.master

/-- **What every run keeps:** the keys stand where the API puts them, and a call in flight creates
no key but one that is younger than its caller. -/
structure Traffic.Grown (s : Traffic) : Prop where
  keys : ∀ key ∈ s.db.apiKeys.rows, Stands s.drawn key
  calls : ∀ call ∈ s.calls, ∃ p id, DrawnBefore s.drawn p id ∧ Keeps (KeyStep id p) call

theorem grown_bootstrapped (env : Env) (plaintextKey envelope : String) :
    (Traffic.start (env.bootstrapped plaintextKey envelope)).Grown where
  keys := by
    intro key hkey
    obtain rfl := List.mem_singleton.mp hkey
    exact ⟨List.mem_singleton_self _, nofun, fun _ => rfl⟩
  calls := by
    intro call hcall
    cases hcall

theorem KeyStep.stands {db db' : Database} (h : KeyStep id p db db') (hp : DrawnBefore drawn p id)
    (hkeys : ∀ key ∈ db.apiKeys.rows, Stands drawn key) :
    ∀ key ∈ db'.apiKeys.rows, Stands drawn key := by
  intro key hkey
  rcases h key hkey with ⟨old, hold, hplace⟩ | hnew
  · exact (hkeys old hold).of_place hplace
  · obtain ⟨rfl, hparent, hmaster⟩ : key.id = id ∧ key.parentKeyId = some p ∧
        key.isMaster = false := by simpa [ApiKey.place] using hnew
    refine ⟨hp.1, ?_, ?_⟩
    · intro q hq
      obtain rfl := Option.some.inj (hparent.symm.trans hq)
      exact hp
    · rw [hmaster]
      rintro ⟨⟩

/-- The caller of a request has a row. -/
theorem id_of_callerOf {db : Database} {k : Uuid} {caller : ApiKey}
    (h : db.callerOf k = some caller) : ∃ row ∈ db.apiKeys.rows, row.id = caller.id := by
  obtain ⟨row, hrow, rfl⟩ := Option.map_eq_some_iff.mp h
  exact ⟨row, (Table.find?_eq_some_iff.mp hrow).1, (Master.authenticate_id _ _).symm⟩

/-- **One event.** -/
theorem Traffic.Grown.step {s s' : Traffic} {event : Traffic.Event} (h : s.Grown)
    (hfresh : s.DrawsFresh event) (hstep : s.step event = some s') : s'.Grown := by
  cases event with
  | arrive call =>
      obtain ⟨caller, hcaller, rfl⟩ := Option.map_eq_some_iff.mp hstep
      obtain ⟨row, hrow, hid⟩ := id_of_callerOf hcaller
      have hdrawn : caller.id ∈ s.drawn := hid ▸ (h.keys row hrow).mem
      refine ⟨fun key hkey => (h.keys key hkey).append _, ?_⟩
      intro call' hcall'
      rcases List.mem_append.mp hcall' with hold | hnew
      · obtain ⟨p, id, hp, hkeeps⟩ := h.calls call' hold
        exact ⟨p, id, hp.append _, hkeeps⟩
      · obtain rfl := List.mem_singleton.mp hnew
        exact ⟨caller.id, call.env.newId, drawnBefore_new hdrawn hfresh, keeps_handle _ _⟩
  | advance i =>
      obtain ⟨call, hcall, rfl⟩ := Option.map_eq_some_iff.mp hstep
      obtain ⟨p, id, hp, hkeeps⟩ := h.calls call (List.mem_of_getElem? hcall)
      obtain ⟨hguar, hrest⟩ := hkeeps.step keyStep_refl s.db
      refine ⟨hguar.stands hp h.keys, ?_⟩
      intro call' hcall'
      rcases List.mem_or_eq_of_mem_set hcall' with hold | rfl
      · exact h.calls call' hold
      · exact ⟨p, id, hp, hrest⟩
  | abort i =>
      obtain ⟨call, -, rfl⟩ := Option.map_eq_some_iff.mp hstep
      exact ⟨h.keys, fun call' hcall' => h.calls call' (List.mem_of_mem_eraseIdx hcall')⟩

/-! ### Descendants -/

section Descendants

variable {db : Database} {key : ApiKey}

/-- The daughters of the keys, as rows of a forest. -/
theorem walk_eq (fuel : ℕ) (frontier : List Uuid) (result : List ApiKey) :
    Prog.exec (walkSubtree fuel frontier result) db =
      (match Forest.walk ApiKey.id ApiKey.parentKeyId db.apiKeys.rows fuel frontier result with
        | some subtree => .answered subtree
        | none => .hung, db) := by
  induction fuel generalizing frontier result with
  | zero => cases frontier <;> rfl
  | succ fuel ih =>
      cases frontier with
      | nil => rfl
      | cons id rest => exact ih _ _

theorem Database.HasAncestor.of_parent {a : Uuid} (hkey : db.apiKeys.find? id = some key)
    (hparent : key.parentKeyId = some p) (h : db.HasAncestor p a) : db.HasAncestor id a := by
  induction h with
  | parent hr ha => exact .above (.parent hkey hparent) hr ha
  | above _ hr ha ih => exact .above ih hr ha

/-- To descend from a key is to have it as an ancestor. -/
theorem descends_iff {root : Uuid} :
    Forest.Descends ApiKey.id ApiKey.parentKeyId db.apiKeys.rows root key ↔
      key ∈ db.apiKeys.rows ∧ db.HasAncestor key.id root := by
  constructor
  · intro h
    refine ⟨h.mem, ?_⟩
    induction h with
    | daughter hr hparent => exact .parent (Table.find?_eq_some_iff.mpr ⟨hr, rfl⟩) hparent
    | deeper _ hr hparent ih => exact ih.of_parent (Table.find?_eq_some_iff.mpr ⟨hr, rfl⟩) hparent
  · rintro ⟨hkey, h⟩
    generalize hid : key.id = id at h
    induction h with
    | parent hr hparent =>
        obtain rfl := Option.some.inj ((Table.find?_eq_some_iff.mpr ⟨hkey, hid⟩).symm.trans hr)
        exact .daughter hkey hparent
    | above _ hr hparent ih =>
        obtain ⟨hrow, rfl⟩ := Table.find?_eq_some_iff.mp hr
        exact ih.of_daughter hrow hparent

end Descendants

/-! ### The walk -/

/-- `delete_api_key` gets past its checks and walks through the subtree of the key. -/
structure AdmitsDeletion (caller : ApiKey) (db : Database) (target : ApiKey) : Prop where
  manages : guardManageKeys caller = .ok ()
  found : db.apiKeys.find? target.id = some target
  notMaster : target.isMaster = false
  administers : canAdminister caller target = true

/-- **The walk is exact** in every state that the API reaches: with as many levels as there are
keys it ends with the key and its descendants, each once, and what is to be deleted never contains
the Master. -/
theorem subtree_exact {env : Env} {plaintextKey envelope : String} {s : Traffic}
    (hrun : Reaches Traffic.step Traffic.DrawsFresh
      (.start (env.bootstrapped plaintextKey envelope)) s)
    {root : ApiKey} (hroot : root ∈ s.db.apiKeys.rows) :
    ∃ subtree,
      (∀ fuel, s.db.apiKeys.rows.length ≤ fuel →
        Prog.exec (collectSubtree fuel root) s.db = (.answered subtree, s.db)) ∧
      (subtree.map ApiKey.id).Nodup ∧
      (∀ key, key ∈ subtree ↔
        key = root ∨ key ∈ s.db.apiKeys.rows ∧ s.db.HasAncestor key.id root.id) ∧
      ∀ caller, AdmitsDeletion caller s.db root → ∀ key ∈ subtree, key.isMaster = false := by
  have hgrown : s.Grown := hrun.invariant (grown_bootstrapped env plaintextKey envelope)
    fun s event s' h hfresh hstep => h.step hfresh hstep
  have hacyclic := Forest.not_descends_self
    (fun r hr k hk => ((hgrown.keys r hr).parent k hk).2) root
  obtain ⟨subtree, hwalk, hnodup, hmem⟩ :=
    Forest.walk_exact s.db.apiKeys.nodup hroot hacyclic
  refine ⟨subtree, ?_, hnodup, ?_, ?_⟩
  · intro fuel hfuel
    rw [collectSubtree, walk_eq, hwalk fuel hfuel]
  · intro key
    rw [hmem, descends_iff]
  · intro caller hadmits key hkey
    rcases (hmem key).mp hkey with rfl | hdescends
    · exact hadmits.notMaster
    · -- a descendant has a parent, the Master has none
      by_contra hmaster
      rw [Bool.not_eq_false] at hmaster
      exact hdescends.parent_ne_none ((hgrown.keys key hdescends.mem).master hmaster)

/-- Key 2 is deleted while it makes key 3, which the Master then lets make key 6: the subtree of
key 3 is walked to its end, although its parent is gone. -/
theorem subtree_exact_orphan :
    ∃ s root, Reaches Traffic.step Traffic.DrawsFresh (.start .fresh) s ∧
      (s.db.apiKeys.rows.map fun key => (key.id, key.parentKeyId)) =
        [(1, none), (3, some 2), (6, some 3)] ∧
      s.db.apiKeys.find? 3 = some root ∧
      ∃ subtree, Prog.exec (collectSubtree 3 root) s.db = (.answered subtree, s.db) ∧
        (subtree.map ApiKey.id).Nodup ∧ root ∈ subtree ∧
        ∀ key ∈ subtree, key.isMaster = false := by
  have hrun : ((runEvents Traffic.step Traffic.DrawsFresh (.start .fresh)
      [.arrive (.plain 1 2 (.createApiKey (.plain "manager" true false false))),
        .advance 0, .advance 0,
        .arrive (.plain 2 3 (.createApiKey (.plain "daughter" false false false))),
        .arrive (.plain 1 4 (.deleteApiKey 2)), .advance 2, .advance 2, .advance 2, .advance 2,
        .advance 2, .advance 2, .advance 2, .advance 1, .advance 1,
        .arrive (.plain 1 5 (.updateApiKey 3 ⟨none, some true, none, none, none⟩)),
        .advance 3, .advance 3, .advance 3,
        .arrive (.plain 3 6 (.createApiKey (.plain "granddaughter" false false false))),
        .advance 4, .abort 4]).bind fun s => (s.db.apiKeys.find? 3).map fun root =>
          decide ((s.db.apiKeys.rows.map fun key => (key.id, key.parentKeyId)) =
            [(1, none), (3, some 2), (6, some 3)] ∧ root.isMaster = false)) = some true := by
    decide +kernel
  obtain ⟨s, hs, hroot⟩ := Option.bind_eq_some_iff.mp hrun
  obtain ⟨root, hroot, hfacts⟩ := Option.map_eq_some_iff.mp hroot
  obtain ⟨hplaces, hmaster⟩ := of_decide_eq_true hfacts
  have hreaches := reaches_of_runEvents hs
  obtain ⟨hmem, hid⟩ := Table.find?_eq_some_iff.mp hroot
  have hlength : s.db.apiKeys.rows.length ≤ 3 := by
    have hthree := congrArg List.length hplaces
    rw [List.length_map] at hthree
    exact hthree.le
  obtain ⟨subtree, hwalk, hnodup, hsubtree, hdeleted⟩ := subtree_exact hreaches hmem
  refine ⟨s, root, hreaches, hplaces, hroot, subtree, hwalk 3 hlength, hnodup,
    (hsubtree root).mpr (Or.inl rfl), ?_⟩
  refine hdeleted ((Env.plain 1).masterKey "k" "s") ⟨rfl, ?_, hmaster, rfl⟩
  rw [hid]
  exact hroot

end SimplyIpSync.Api
