import SimplyIpSync.Entities
import SimplyIpSync.Lib.Reach

/-!
# One run of a job at a time (`RunningJobs` in `src/jobs/mod.rs`)

The set of ids with a job in flight, entered by `try_start_job` and left by the destructor of the
guard it returns.  Cron ticks and manual triggers both call it: a call arrives, tries for the slot,
and leaves, with or without a guard, at its normal end, at an early error return, or because its
future is dropped.  `slots_exact` is about every interleaving of such calls.

The lock is held for the insertion or the removal alone, where nothing panics, so no step poisons it;
`history` only records what happened to which id.
-/

namespace SimplyIpSync.Jobs.Slots

open SimplyIpSync.Entities SimplyIpSync.Reach

/-! ### The set and its guards -/

/-- `RunningJobs`: the ids behind their lock. -/
structure RunningJobs where
  ids : Finset Uuid
  poisoned : Bool
  deriving DecidableEq

/-- `JobGuard`, which holds the slot of `id` as long as it lives. -/
structure JobGuard where
  id : Uuid
  deriving DecidableEq, Repr

/-- `Mutex::lock(..).ok()`. -/
def RunningJobs.lock (set : RunningJobs) : Option (Finset Uuid) :=
  if set.poisoned then none else some set.ids

/-- `try_start_job`. -/
def tryStartJob (set : RunningJobs) (id : Uuid) : Option JobGuard × RunningJobs :=
  match set.lock with
  | none => (none, set)
  | some ids => if id ∈ ids then (none, set) else (some ⟨id⟩, { set with ids := insert id ids })

/-- `JobGuard::drop`. -/
def JobGuard.drop (guard : JobGuard) (set : RunningJobs) : RunningJobs :=
  match set.lock with
  | none => set
  | some ids => { set with ids := ids.erase guard.id }

/-! ### Calls -/

/-- Who calls `try_start_job`. -/
inductive Origin
  | cronGroup
  | cronTask
  | triggerGroup
  | triggerTask
  deriving DecidableEq, Repr

/-- How a call leaves. -/
inductive Exit
  | finished
  | failed
  | abandoned
  deriving DecidableEq, Repr

/-- Where a call is: before `try_start_job`, with its guard, or past its end. -/
inductive Stage
  | arrived
  | running (guard : JobGuard)
  | over
  deriving DecidableEq, Repr

/-- A cron tick or a manual trigger for the resource `id`. -/
structure Call where
  origin : Origin
  id : Uuid
  stage : Stage
  deriving DecidableEq, Repr

/-- The guard a call holds. -/
def Call.guard? (call : Call) : Option JobGuard :=
  match call.stage with
  | .running guard => some guard
  | _ => none

/-- What an id went through: `try_start_job` was called for it, or its guard was dropped. -/
inductive Act
  | tried
  | dropped
  deriving DecidableEq, Repr

/-- The set, the calls so far, and what happened to which id. -/
structure System where
  set : RunningJobs
  calls : List Call
  history : List (Uuid × Act)
  deriving DecidableEq

/-- `AppState::new`. -/
def System.new : System where
  set := ⟨∅, false⟩
  calls := []
  history := []

/-- What happens next; calls are named by their number. -/
inductive Event
  | arrive (origin : Origin) (id : Uuid)
  | tryStart (i : ℕ)
  | leave (i : ℕ) (exit : Exit)
  deriving DecidableEq, Repr

/-- A call takes the slot, or is turned away. -/
def System.tryStart (s : System) (i : ℕ) (call : Call) : System :=
  match tryStartJob s.set call.id with
  | (some guard, set) =>
      { set := set
        calls := s.calls.set i { call with stage := .running guard }
        history := s.history ++ [(call.id, .tried)] }
  | (none, set) =>
      { set := set
        calls := s.calls.set i { call with stage := .over }
        history := s.history ++ [(call.id, .tried)] }

/-- A call ends, and drops its guard if it has one. -/
def System.leave (s : System) (i : ℕ) (call : Call) : System :=
  match call.guard? with
  | some guard =>
      { set := guard.drop s.set
        calls := s.calls.set i { call with stage := .over }
        history := s.history ++ [(guard.id, .dropped)] }
  | none => { s with calls := s.calls.set i { call with stage := .over } }

/-- One step; `none` when there is no such call, or it is past that point. -/
def System.step (s : System) : Event → Option System
  | .arrive origin id => some { s with calls := s.calls ++ [⟨origin, id, .arrived⟩] }
  | .tryStart i =>
      (s.calls[i]?.filter fun call => call.stage = .arrived).map fun call => s.tryStart i call
  | .leave i _ =>
      (s.calls[i]?.filter fun call => call.stage ≠ .over).map fun call => s.leave i call

/-- The guards that are alive. -/
def System.alive (s : System) : List JobGuard := s.calls.filterMap Call.guard?

/-- What happened to one id. -/
def System.historyOf (s : System) (id : Uuid) : List Act :=
  (s.history.filter fun entry => entry.1 = id).map Prod.snd

/-! ### One step -/

theorem tryStartJob_of_mem {set : RunningJobs} {id : Uuid} (hset : set.poisoned = false)
    (hid : id ∈ set.ids) : tryStartJob set id = (none, set) := by
  simp [tryStartJob, RunningJobs.lock, hset, hid]

theorem tryStartJob_of_notMem {set : RunningJobs} {id : Uuid} (hset : set.poisoned = false)
    (hid : id ∉ set.ids) :
    tryStartJob set id = (some ⟨id⟩, { set with ids := insert id set.ids }) := by
  simp [tryStartJob, RunningJobs.lock, hset, hid]

theorem JobGuard.drop_eq {set : RunningJobs} (guard : JobGuard) (hset : set.poisoned = false) :
    guard.drop set = { set with ids := set.ids.erase guard.id } := by
  simp [JobGuard.drop, RunningJobs.lock, hset]

/-- The guards alive, up to their order: that of call `i`, before and after the call changes, and the
others. -/
theorem System.alive_perm {s : System} {i : ℕ} {call : Call} (h : s.calls[i]? = some call) :
    ∃ others : List JobGuard, s.alive.Perm (call.guard?.toList ++ others) ∧
      ∀ (s' : System) (call' : Call), s'.calls = s.calls.set i call' →
        s'.alive.Perm (call'.guard?.toList ++ others) := by
  obtain ⟨hi, rfl⟩ := List.getElem?_eq_some_iff.mp h
  have hguards : ∀ call', ((s.calls.take i ++ call' :: s.calls.drop (i + 1)).filterMap
      Call.guard?).Perm (call'.guard?.toList ++ ((s.calls.take i).filterMap Call.guard? ++
        (s.calls.drop (i + 1)).filterMap Call.guard?)) := by
    intro call'
    rw [List.filterMap_append, List.filterMap_cons]
    cases call'.guard? with
    | none => exact List.Perm.refl _
    | some guard => exact List.perm_middle
  refine ⟨(s.calls.take i).filterMap Call.guard? ++ (s.calls.drop (i + 1)).filterMap Call.guard?,
    ?_, ?_⟩
  · have hprior := hguards s.calls[i]
    rw [List.getElem_cons_drop, List.take_append_drop] at hprior
    exact hprior
  · intro s' call' hcalls
    rw [System.alive, hcalls, List.set_eq_take_append_cons_drop, if_pos hi]
    exact hguards call'

/-- What every state of a run satisfies. -/
structure System.Inv (s : System) : Prop where
  healthy : s.set.poisoned = false
  once : (s.alive.map JobGuard.id).Nodup
  exact : ∀ id, id ∈ s.set.ids ↔ id ∈ s.alive.map JobGuard.id
  recent : ∀ id, id ∈ s.set.ids ↔ (s.historyOf id).getLast? = some .tried

theorem System.inv_new : System.new.Inv where
  healthy := rfl
  once := List.nodup_nil
  exact := by simp [System.new, System.alive]
  recent := by simp [System.new, System.historyOf]

/-- The last thing that happened to an id, after one more entry. -/
theorem System.getLast?_historyOf {s s' : System} {id : Uuid} {act : Act}
    (h : s'.history = s.history ++ [(id, act)]) (id' : Uuid) :
    (s'.historyOf id').getLast? =
      if id = id' then some act else (s.historyOf id').getLast? := by
  rw [System.historyOf, h, List.filter_append, List.map_append]
  by_cases hid : id = id'
  · simp [hid]
  · simp [System.historyOf, hid]

/-- A call tries for its slot. -/
theorem System.Inv.tryStart {s : System} (h : s.Inv) {i : ℕ} {call : Call}
    (hcall : s.calls[i]? = some call) (hstage : call.stage = .arrived) :
    (s.tryStart i call).Inv := by
  obtain ⟨others, hprior, hnext⟩ := System.alive_perm hcall
  have hnone : call.guard? = none := by simp [Call.guard?, hstage]
  rw [hnone, Option.toList_none, List.nil_append] at hprior
  by_cases hid : call.id ∈ s.set.ids
  · -- the slot is taken: the call ends without a guard
    have hstep : s.tryStart i call =
        { set := s.set
          calls := s.calls.set i { call with stage := .over }
          history := s.history ++ [(call.id, .tried)] } := by
      rw [System.tryStart, tryStartJob_of_mem h.healthy hid]
    have hafter : (s.tryStart i call).alive.Perm others :=
      hnext _ { call with stage := .over } (by rw [hstep])
    have hperm : ((s.tryStart i call).alive.map JobGuard.id).Perm (s.alive.map JobGuard.id) :=
      (hafter.trans hprior.symm).map JobGuard.id
    refine ⟨by rw [hstep]; exact h.healthy, hperm.nodup_iff.mpr h.once, ?_, ?_⟩
    · intro id
      rw [hperm.mem_iff, ← h.exact id, hstep]
    · intro id
      rw [System.getLast?_historyOf (s := s) (by rw [hstep]) id, hstep]
      by_cases hsame : call.id = id
      · simp [← hsame, hid]
      · rw [if_neg hsame]
        exact h.recent id
  · have hstep : s.tryStart i call =
        { set := { s.set with ids := insert call.id s.set.ids }
          calls := s.calls.set i { call with stage := .running ⟨call.id⟩ }
          history := s.history ++ [(call.id, .tried)] } := by
      rw [System.tryStart, tryStartJob_of_notMem h.healthy hid]
    have hafter : (s.tryStart i call).alive.Perm (⟨call.id⟩ :: others) :=
      hnext _ { call with stage := .running ⟨call.id⟩ } (by rw [hstep])
    have hmore : (s.tryStart i call).alive.Perm (⟨call.id⟩ :: s.alive) :=
      hafter.trans (hprior.symm.cons ⟨call.id⟩)
    have hperm : ((s.tryStart i call).alive.map JobGuard.id).Perm
        (call.id :: s.alive.map JobGuard.id) := hmore.map JobGuard.id
    refine ⟨by rw [hstep]; exact h.healthy, ?_, ?_, ?_⟩
    · rw [hperm.nodup_iff, List.nodup_cons]
      exact ⟨fun hmem => hid ((h.exact call.id).mpr hmem), h.once⟩
    · intro id
      rw [hperm.mem_iff, List.mem_cons, hstep, Finset.mem_insert, h.exact id]
    · intro id
      rw [System.getLast?_historyOf (s := s) (by rw [hstep]) id, hstep, Finset.mem_insert]
      by_cases hsame : call.id = id
      · simp [hsame]
      · rw [if_neg hsame, ← h.recent id]
        simp [Ne.symm hsame]

/-- A call leaves. -/
theorem System.Inv.leave {s : System} (h : s.Inv) {i : ℕ} {call : Call}
    (hcall : s.calls[i]? = some call) : (s.leave i call).Inv := by
  obtain ⟨others, hprior, hnext⟩ := System.alive_perm hcall
  cases hguard : call.guard? with
  | none =>
      have hstep : s.leave i call =
          { s with calls := s.calls.set i { call with stage := .over } } := by
        rw [System.leave, hguard]
      rw [hguard, Option.toList_none, List.nil_append] at hprior
      have hafter : (s.leave i call).alive.Perm others :=
        hnext _ { call with stage := .over } (by rw [hstep])
      have hperm : ((s.leave i call).alive.map JobGuard.id).Perm (s.alive.map JobGuard.id) :=
        (hafter.trans hprior.symm).map JobGuard.id
      refine ⟨by rw [hstep]; exact h.healthy, hperm.nodup_iff.mpr h.once, ?_, ?_⟩
      · intro id
        rw [hperm.mem_iff, ← h.exact id, hstep]
      · intro id
        have hhistory : (s.leave i call).historyOf id = s.historyOf id := by
          rw [hstep]
          rfl
        rw [hhistory, hstep]
        exact h.recent id
  | some guard =>
      have hstep : s.leave i call =
          { set := { s.set with ids := s.set.ids.erase guard.id }
            calls := s.calls.set i { call with stage := .over }
            history := s.history ++ [(guard.id, .dropped)] } := by
        rw [System.leave, hguard]
        simp only [guard.drop_eq h.healthy]
      rw [hguard, Option.toList_some, List.singleton_append] at hprior
      have hafter : (s.leave i call).alive.Perm others :=
        hnext _ { call with stage := .over } (by rw [hstep])
      have hperm : (s.alive.map JobGuard.id).Perm
          (guard.id :: (s.leave i call).alive.map JobGuard.id) :=
        (hprior.trans (hafter.symm.cons guard)).map JobGuard.id
      obtain ⟨hgone, honce⟩ := List.nodup_cons.mp (hperm.nodup_iff.mp h.once)
      refine ⟨by rw [hstep]; exact h.healthy, honce, ?_, ?_⟩
      · intro id
        have hexact := h.exact id
        rw [hperm.mem_iff, List.mem_cons] at hexact
        rw [hstep, Finset.mem_erase, hexact, ← hstep]
        constructor
        · rintro ⟨hne, hid⟩
          exact hid.resolve_left hne
        · intro hid
          exact ⟨fun hsame => hgone (hsame ▸ hid), Or.inr hid⟩
      · intro id
        rw [System.getLast?_historyOf (s := s) (by rw [hstep]) id, hstep, Finset.mem_erase]
        by_cases hsame : guard.id = id
        · simp [hsame]
        · rw [if_neg hsame, ← h.recent id]
          simp [Ne.symm hsame]

/-- **Every step.** -/
theorem System.Inv.step {s s' : System} (h : s.Inv) {e : Event} (hstep : s.step e = some s') :
    s'.Inv := by
  cases e with
  | arrive origin id =>
      obtain rfl := Option.some.inj hstep
      have halive : ({ s with calls := s.calls ++ [⟨origin, id, .arrived⟩] } : System).alive =
          s.alive := by
        simp [System.alive, Call.guard?]
      exact ⟨h.healthy, by rw [halive]; exact h.once, by rw [halive]; exact h.exact, h.recent⟩
  | tryStart i =>
      obtain ⟨call, hcall, rfl⟩ := Option.map_eq_some_iff.mp hstep
      obtain ⟨hcall, hstage⟩ := Option.filter_eq_some_iff.mp hcall
      exact h.tryStart hcall (of_decide_eq_true hstage)
  | leave i exit =>
      obtain ⟨call, hcall, rfl⟩ := Option.map_eq_some_iff.mp hstep
      exact h.leave (Option.filter_eq_some_iff.mp hcall).1

theorem inv_of_reaches {s : System} (h : Reaches System.step anyStep .new s) : s.Inv :=
  h.invariant System.inv_new fun _ _ _ hs _ hstep => hs.step hstep

/-! ### Every interleaving -/

/-- The slot of an id is free exactly when the id is not in the set. -/
theorem System.Inv.tryStartJob_isSome {s : System} (h : s.Inv) (id : Uuid) :
    (tryStartJob s.set id).1.isSome ↔ id ∉ s.set.ids := by
  by_cases hid : id ∈ s.set.ids
  · simp [tryStartJob_of_mem h.healthy hid, hid]
  · simp [tryStartJob_of_notMem h.healthy hid, hid]

/-- **A job never overlaps itself and never locks itself out.**  At every moment of every
interleaving the guards alive are for different ids, an id is in the set exactly while its guard is
alive, so that `try_start_job` succeeds exactly when there is none, and whether it does is a matter
of what that id went through alone. -/
theorem slots_exact {s : System} (h : Reaches System.step anyStep .new s) :
    (s.alive.map JobGuard.id).Nodup ∧
      (∀ id, id ∈ s.set.ids ↔ ∃ guard ∈ s.alive, guard.id = id) ∧
      (∀ id, (tryStartJob s.set id).1.isSome ↔ ∀ guard ∈ s.alive, guard.id ≠ id) ∧
      ∀ id t, Reaches System.step anyStep .new t → t.historyOf id = s.historyOf id →
        (tryStartJob t.set id).1.isSome = (tryStartJob s.set id).1.isSome := by
  have hs := inv_of_reaches h
  have hexact : ∀ id, id ∈ s.set.ids ↔ ∃ guard ∈ s.alive, guard.id = id := by
    intro id
    rw [hs.exact id, List.mem_map]
  refine ⟨hs.once, hexact, ?_, ?_⟩
  · intro id
    rw [hs.tryStartJob_isSome, hexact]
    push Not
    rfl
  · intro id t ht hhistory
    have ht := inv_of_reaches ht
    rw [Bool.eq_iff_iff, hs.tryStartJob_isSome, ht.tryStartJob_isSome, hs.recent, ht.recent,
      hhistory]

/-- A tick takes the slot of resource 1, a trigger for it is turned away, and the tick's future is
dropped; meanwhile a sync task 2 runs. -/
def oneAtATime : List Event :=
  [.arrive .cronGroup 1, .arrive .triggerGroup 1, .arrive .cronTask 2, .tryStart 0, .tryStart 1,
    .tryStart 2, .leave 0 .abandoned]

/-- The slot of resource 1 is free again, that of resource 2 is taken. -/
theorem slots_exact_one_at_a_time :
    ∃ s, runEvents System.step anyStep .new oneAtATime = some s ∧ s.alive = [⟨2⟩] ∧
      (s.alive.map JobGuard.id).Nodup ∧
      (∀ id, id ∈ s.set.ids ↔ ∃ guard ∈ s.alive, guard.id = id) ∧
      (∀ id, (tryStartJob s.set id).1.isSome ↔ ∀ guard ∈ s.alive, guard.id ≠ id) ∧
      ∀ id t, Reaches System.step anyStep .new t → t.historyOf id = s.historyOf id →
        (tryStartJob t.set id).1.isSome = (tryStartJob s.set id).1.isSome := by
  have hrun : (runEvents System.step anyStep .new oneAtATime).map System.alive = some [⟨2⟩] := by
    decide +kernel
  obtain ⟨s, hs, halive⟩ := Option.map_eq_some_iff.mp hrun
  exact ⟨s, hs, halive, slots_exact (reaches_of_runEvents hs)⟩

end SimplyIpSync.Jobs.Slots
