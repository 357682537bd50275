import SimplyIpSync.Lib.Reach
import SimplyIpSync.Scheduler.Account

/-!
# When the scheduler agrees with the database

Two things break the account of jobs: a call that takes the (missing) old id while another still has
a job to insert, or is overtaken by a later one, and a change to the rows that no call announces:
the cascade of a deleted vault endpoint.  `Orderly` excludes these, and then every quiet state
agrees.
-/

namespace SimplyIpSync.Scheduler

open SimplyIpSync.Entities SimplyIpSync.Storage SimplyIpSync.Store SimplyIpSync.Api
open SimplyIpSync.Reach

/-! ### Orderly steps -/

/-- Calls take the old job id in turn, and no deleted endpoint takes an active task with it. -/
def Orderly (s : System) : Event → Prop
  | .request (.deleteVaultEndpoint id) =>
      ∀ task ∈ s.db.vaultSyncTasks.rows, task.sourceVaultId = id → task.isActive = false
  | .request _ => True
  | .advance n =>
      ∀ c ∈ s.calls[n]?, c.stage = .mapRemove → TakesInTurn s.db (s.calls.eraseIdx n) c

instance (s : System) (e : Event) : Decidable (Orderly s e) := by
  cases e with
  | advance n => exact inferInstanceAs (Decidable (∀ c ∈ s.calls[n]?, _))
  | request request =>
      cases request with
      | deleteVaultEndpoint id =>
          exact inferInstanceAs (Decidable (∀ task ∈ s.db.vaultSyncTasks.rows, _))
      | _ => exact isTrue trivial

/-- The account is in order. -/
structure System.Inv (s : System) : Prop where
  held : Held s.handle s.calls
  settled : Settled s.db s.handle s.calls

/-- The calls after a step of the `n`-th: the call that moved, and the others. -/
theorem calls_advance_perm {calls : List Call} {n : ℕ} {c : Call} (hc : calls[n]? = some c)
    (next : Option Call) :
    (match next with
      | none => calls.eraseIdx n
      | some c => calls.set n c).Perm (next.toList ++ calls.eraseIdx n) := by
  obtain ⟨hn, -⟩ := List.getElem?_eq_some_iff.mp hc
  cases next with
  | none => exact List.Perm.refl _
  | some next => exact List.set_perm_cons_eraseIdx hn next

/-- **A step of a call** that takes the old job id in turn keeps the account in order. -/
theorem advance_inv {db : Db} {h : SchedulerHandle} {c : Call} {rest : List Call}
    (hheld : Held h (c :: rest)) (hsettled : Settled db h (c :: rest))
    (hturn : c.stage = .mapRemove → TakesInTurn db rest c) :
    Held (c.advance h).1 ((c.advance h).2.toList ++ rest) ∧
      Settled db (c.advance h).1 ((c.advance h).2.toList ++ rest) := by
  cases hstage : c.stage with
  | mapRemove =>
      rw [Call.advance, hstage]
      exact ⟨hheld.mapRemove hstage, hsettled.mapRemove hheld hstage (hturn hstage)⟩
  | schedulerRemove existing =>
      have hheld' := hheld.schedulerRemove hstage
      rw [Call.advance, hstage]
      refine ⟨hheld', hsettled.keep rfl rfl (by simp [hstage]) (by simp) (fun _ => rfl) ?_⟩
      intro r
      apply hheld.mappedCron_kept hheld' rfl
      intro job hjob hmap
      -- the map never leads to the job that is being removed
      refine List.mem_filter.mpr ⟨hjob, ?_⟩
      rw [decide_eq_true_eq]
      intro htaken
      refine hheld.held_unmapped r job.id hmap ?_
      rw [List.flatMap_cons, List.mem_append]
      exact Or.inl (by simp [Call.holds, hstage, ← htaken])
  | schedulerAdd =>
      cases hcron : c.cron with
      | none =>
          have hadvance : c.advance h = (h, none) := by simp only [Call.advance, hstage, hcron]
          rw [hadvance]
          exact ⟨hheld.finish hstage, hsettled.finish (by simp [hstage]) hcron⟩
      | some cron =>
          have hadvance : c.advance h = (h.schedulerAdd c.resource cron,
              some { c with stage := .mapInsert h.nextJobId }) := by
            simp only [Call.advance, hstage, hcron]
          have hheld' := hheld.schedulerAdd hstage hcron
          rw [hadvance]
          refine ⟨hheld', hsettled.keep rfl rfl (by simp [hstage]) (by simp) (fun _ => rfl) ?_⟩
          intro r
          apply hheld.mappedCron_kept hheld' rfl
          exact fun job hjob _ => List.mem_append_left _ hjob
  | mapInsert jobId =>
      rw [Call.advance, hstage]
      refine ⟨hheld.mapInsert hstage ?_, hsettled.mapInsert hheld hstage⟩
      apply hsettled.adder_unmapped c (List.mem_cons_self ..)
      obtain ⟨own, -, -, -, hcron⟩ :=
        hheld.held c (List.mem_cons_self ..) jobId (by simp [Call.holds, hstage])
      exact ⟨by simp [hstage], by simp [hcron hstage]⟩

/-- A call that has just been made holds nothing. -/
theorem Held.request {h : SchedulerHandle} {calls new : List Call} (hheld : Held h calls)
    (hnew : ∀ c ∈ new, c.stage = .mapRemove) : Held h (calls ++ new) := by
  have hnone : new.flatMap Call.holds = [] := by
    rw [List.flatMap_eq_nil_iff]
    intro c hc
    simp [Call.holds, hnew c hc]
  refine ⟨hheld.job_ids, hheld.fresh, hheld.mapped, ?_, ?_, ?_, ?_⟩
  · intro c hc jobId hholds
    rcases List.mem_append.mp hc with hc | hc
    · exact hheld.held c hc jobId hholds
    · simp [Call.holds, hnew c hc] at hholds
  · intro job hjob
    rcases hheld.covered job hjob with hmap | ⟨c, hc, hholds⟩
    · exact Or.inl hmap
    · exact Or.inr ⟨c, List.mem_append_left _ hc, hholds⟩
  · rw [List.flatMap_append, hnone, List.append_nil]
    exact hheld.held_once
  · rw [List.flatMap_append, hnone, List.append_nil]
    exact hheld.held_unmapped

/-- New calls settle the resources whose rows changed. -/
theorem Settled.request {db db' : Db} {h : SchedulerHandle} {calls new : List Call}
    (hsettled : Settled db h calls) (hnew : ∀ c ∈ new, c.stage = .mapRemove)
    (hrows : ∀ r, storedCron db' r = storedCron db r ∨ ∃ c ∈ new, c.resource = r) :
    Settled db' h (calls ++ new) := by
  have hidle : ∀ c ∈ new, ¬c.Adds := fun c hc hadds => hadds.1 (hnew c hc)
  refine ⟨?_, ?_, ?_⟩
  · refine List.pairwise_append.mpr ⟨hsettled.one_adder, ?_, ?_⟩
    · exact List.pairwise_of_forall_mem_list fun c hc d _ _ hboth => hidle c hc hboth.1
    · exact fun c _ d hd _ hboth => hidle d hd hboth.2
  · intro c hc hadds
    rcases List.mem_append.mp hc with hc | hc
    · exact hsettled.adder_unmapped c hc hadds
    · exact absurd hadds (hidle c hc)
  · intro r
    rcases hrows r with hsame | ⟨c, hc, hr⟩
    · rcases hsettled.settled r with ⟨c, hc, hwait⟩ | ⟨hadder, hnone⟩
      · exact Or.inl ⟨c, List.mem_append_left _ hc, hwait⟩
      · rw [hsame]
        refine Or.inr ⟨?_, fun hno => hnone fun c hc => hno c (List.mem_append_left _ hc)⟩
        intro c hc hr hadds
        rcases List.mem_append.mp hc with hc | hc
        · exact hadder c hc hr hadds
        · exact absurd hadds (hidle c hc)
    · exact Or.inl ⟨c, List.mem_append_right _ hc, hr, hnew c hc⟩

/-- **Every orderly step** keeps the account in order. -/
theorem System.step_inv {s s' : System} {e : Event} (hinv : s.Inv) (hgood : Orderly s e)
    (h : s.step e = some s') : s'.Inv := by
  cases e with
  | advance n =>
      simp only [System.step] at h
      split at h
      · cases h
      rename_i c hc
      obtain rfl := Option.some.inj h
      obtain ⟨hn, hget⟩ := List.getElem?_eq_some_iff.mp hc
      have hperm : s.calls.Perm (c :: s.calls.eraseIdx n) :=
        hget ▸ (List.getElem_cons_eraseIdx_perm hn).symm
      obtain ⟨hheld, hsettled⟩ := advance_inv (hinv.held.perm hperm) (hinv.settled.perm hperm)
        (hgood c hc)
      have hback := (calls_advance_perm hc (c.advance s.handle).2).symm
      exact ⟨hheld.perm hback, hsettled.perm hback⟩
  | request request =>
      obtain ⟨⟨db', call⟩, hcommit, rfl⟩ := Option.map_eq_some_iff.mp h
      rcases commit_spec hcommit with ⟨c, rfl, hstage, -, hrows⟩ | ⟨rfl, hrows⟩
      · have hnew : ∀ d ∈ [c], d.stage = .mapRemove := by simpa using hstage
        refine ⟨hinv.held.request hnew, hinv.settled.request hnew ?_⟩
        intro r
        rcases hrows r with hsame | hr
        · exact Or.inl hsame
        · exact Or.inr ⟨c, List.mem_singleton_self c, hr⟩
      · have hnew : ∀ d ∈ ([] : List Call), d.stage = .mapRemove := by simp
        refine ⟨hinv.held.request hnew, hinv.settled.request hnew ?_⟩
        intro r
        rcases hrows r with hsame | ⟨task, hmem, rfl, rfl, hgone⟩
        · exact Or.inl hsame
        · -- a task that goes with its endpoint was not scheduled
          have hfind : s.db.vaultSyncTasks.find? task.id = some task :=
            Table.find?_eq_some_iff.mpr ⟨hmem, rfl⟩
          have hinactive : task.isActive = false := hgood task hmem rfl
          refine Or.inl (hgone.trans ?_)
          simp [storedCron, hfind, activeCron, hinactive]

/-! ### Quiet states -/

theorem boot_inv (db : Db) : (System.boot db).Inv := by
  have hstage : ∀ c ∈ (System.boot db).calls, c.stage = .mapRemove := by
    intro c hc
    rcases List.mem_append.mp hc with hc | hc
    · obtain ⟨group, _, rfl⟩ := List.mem_map.mp hc
      rfl
    · obtain ⟨task, _, rfl⟩ := List.mem_map.mp hc
      rfl
  have hidle : ∀ c ∈ (System.boot db).calls, ¬c.Adds := fun c hc hadds => hadds.1 (hstage c hc)
  have hempty : ∀ r, SchedulerHandle.new.mapGet r = none := by
    intro ⟨kind, id⟩
    cases kind <;> rfl
  have hnone : (System.boot db).calls.flatMap Call.holds = [] := by
    rw [List.flatMap_eq_nil_iff]
    intro c hc
    simp [Call.holds, hstage c hc]
  refine ⟨⟨List.nodup_nil, ?_, ?_, ?_, ?_, ?_, ?_⟩, ⟨?_, ?_, ?_⟩⟩
  · intro job hjob
    cases hjob
  · intro r jobId hmap
    cases (hempty r).symm.trans hmap
  · intro c hc jobId hholds
    simp [Call.holds, hstage c hc] at hholds
  · intro job hjob
    cases hjob
  · rw [hnone]
    exact List.nodup_nil
  · intro r jobId _
    rw [hnone]
    exact List.not_mem_nil
  · exact List.pairwise_of_forall_mem_list fun c hc d _ _ hboth => hidle c hc hboth.1
  · exact fun c hc hadds => absurd hadds (hidle c hc)
  · -- an active row has its call, and any other row is not scheduled
    intro r
    cases hstored : storedCron db r with
    | none =>
        refine Or.inr ⟨fun c hc _ hadds => absurd hadds (hidle c hc), fun _ => ?_⟩
        exact (SchedulerHandle.mappedCron_of_none (hempty r)).trans hstored.symm
    | some cron =>
        obtain ⟨kind, id⟩ := r
        cases kind with
        | source =>
            obtain ⟨group, hfind, hcron⟩ := Option.bind_eq_some_iff.mp hstored
            obtain ⟨hmem, hid⟩ := Table.find?_eq_some_iff.mp hfind
            have hactive : group.isActive = true := by
              by_contra hinactive
              simp [activeCron, hinactive] at hcron
            refine Or.inl ⟨upsertSource group, List.mem_append_left _ ?_, ?_, rfl⟩
            · exact List.mem_map_of_mem (List.mem_filter.mpr ⟨hmem, hactive⟩)
            · rw [upsertSource, hid]
        | task =>
            obtain ⟨task, hfind, hcron⟩ := Option.bind_eq_some_iff.mp hstored
            obtain ⟨hmem, hid⟩ := Table.find?_eq_some_iff.mp hfind
            have hactive : task.isActive = true := by
              by_contra hinactive
              simp [activeCron, hinactive] at hcron
            refine Or.inl ⟨upsertTask task, List.mem_append_right _ ?_, ?_, rfl⟩
            · exact List.mem_map_of_mem (List.mem_filter.mpr ⟨hmem, hactive⟩)
            · rw [upsertTask, hid]

/-- When no call is in flight, an account in order leaves the scheduler in agreement. -/
theorem System.Inv.agrees {s : System} (hinv : s.Inv) (hquiet : s.calls = []) : s.Agrees := by
  intro r
  have hcovered : ∀ job ∈ s.handle.scheduler, s.handle.mapGet job.resource = some job.id := by
    intro job hjob
    rcases hinv.held.covered job hjob with hmap | ⟨c, hc, _⟩
    · exact hmap
    · rw [hquiet] at hc
      cases hc
  have hstored : s.handle.mappedCron r = storedCron s.db r := by
    rcases hinv.settled.settled r with ⟨c, hc, _⟩ | ⟨-, hnone⟩
    · rw [hquiet] at hc
      cases hc
    · apply hnone
      intro c hc
      rw [hquiet] at hc
      cases hc
  rw [← hstored]
  cases hmap : s.handle.mapGet r with
  | none =>
      rw [SchedulerHandle.mappedCron_of_none hmap]
      have hnobody : (s.handle.scheduler.filter fun job => job.resource = r) = [] := by
        rw [List.filter_eq_nil_iff]
        intro job hjob hr
        rw [decide_eq_true_eq] at hr
        cases (hr ▸ hcovered job hjob).symm.trans hmap
      rw [hnobody]
      rfl
  | some jobId =>
      obtain ⟨job, hjob, rfl, hr⟩ := hinv.held.mapped r jobId hmap
      rw [hinv.held.mappedCron_eq hjob hmap]
      have honly : (s.handle.scheduler.filter fun other => other.resource = r) = [job] := by
        have hnodup : s.handle.scheduler.Nodup := hinv.held.job_ids.of_map
        refine List.perm_singleton.mp
          ((List.perm_ext_iff_of_nodup (hnodup.filter _) (List.nodup_singleton job)).mpr ?_)
        intro other
        rw [List.mem_filter, decide_eq_true_eq, List.mem_singleton]
        constructor
        · intro ⟨hother, hother'⟩
          have hid := Option.some.inj ((hother' ▸ hcovered other hother).symm.trans hmap)
          exact hinv.held.job_unique hother hjob hid
        · rintro rfl
          exact ⟨hjob, hr⟩
      rw [honly]
      rfl

/-- **Scheduler and database agree once edits settle.**  In every run of handlers and their
scheduler calls in which all steps are orderly, whenever no call is in flight the scheduler holds
exactly one job, with the stored expression, for each active row, and none for anything else. -/
theorem quiet_agrees (db : Db) (s : System)
    (h : Reaches System.step Orderly (System.boot db) s) (hquiet : s.calls = []) : s.Agrees := by
  have hinv : s.Inv := h.invariant (boot_inv db) fun s e s' hs hgood hstep =>
    System.step_inv hs hgood hstep
  exact hinv.agrees hquiet

/-! ### One task -/

/-- A vault, and an active task that reads from it every night. -/
def oneTask : Db where
  vaultEndpoints :=
    { rows := [⟨1, "core", "https://core.example", "key", "secret"⟩]
      nodup := by decide }
  vaultSyncTasks :=
    { rows := [⟨9, "mirror", 1, "blocklist", "blocklist", "0 3 * * *", none, true, false⟩]
      nodup := by decide }
  vaultSyncTaskTargets := .empty
  destinationGroups := .empty
  destinationGroupVaultTargets := .empty
  externalSources := .empty
  syncLogs := []

/-- The first call in flight takes its four steps. -/
def finishFirst : List Event := List.replicate 4 (.advance 0)

/-- A `PATCH` of the task that sets its expression. -/
def reschedule (cron : String) : Event :=
  .request (.updateVaultSyncTask 9 ⟨none, none, none, none, some cron, none, none, none⟩)

/-- Two edits one after the other leave one job, with the second expression. -/
theorem quiet_agrees_after_two_edits :
    ∃ s, runEvents System.step Orderly (System.boot oneTask)
        (finishFirst ++ [reschedule "0 4 * * *"] ++ finishFirst ++ [reschedule "0 5 * * *"] ++
          finishFirst) = some s ∧
      s.handle.scheduler.map Job.cron = ["0 0 5 * * *"] ∧ s.Agrees := by
  have hrun : ((runEvents System.step Orderly (System.boot oneTask)
      (finishFirst ++ [reschedule "0 4 * * *"] ++ finishFirst ++ [reschedule "0 5 * * *"] ++
        finishFirst)).map fun s => (s.calls, s.handle.scheduler.map Job.cron)) =
      some ([], ["0 0 5 * * *"]) := by
    decide +kernel
  obtain ⟨s, hs, hout⟩ := Option.map_eq_some_iff.mp hrun
  obtain ⟨hquiet, hjobs⟩ := Prod.mk.inj hout
  exact ⟨s, hs, hjobs, quiet_agrees oneTask s (reaches_of_runEvents hs) hquiet⟩

/-- **Two ways to disagree.**  Deleting the vault takes the active task with it and leaves its job
behind; and of two overlapping edits the second finds no old job id, so both jobs stay. -/
theorem quiet_disagrees :
    (∃ s, Reaches System.step anyStep (System.boot oneTask) s ∧ s.calls = [] ∧
      storedCron s.db ⟨.task, 9⟩ = none ∧ s.handle.scheduler.map Job.cron = ["0 0 3 * * *"] ∧
      ¬s.Agrees) ∧
    ∃ s, Reaches System.step anyStep (System.boot oneTask) s ∧ s.calls = [] ∧
      s.handle.scheduler.map Job.cron = ["0 0 4 * * *", "0 0 5 * * *"] ∧ ¬s.Agrees := by
  constructor
  · have hrun : ((runEvents System.step anyStep (System.boot oneTask)
        (finishFirst ++ [.request (.deleteVaultEndpoint 1)])).map fun s =>
          (s.calls, storedCron s.db ⟨.task, 9⟩, s.handle.scheduler)) =
        some ([], none, [⟨0, ⟨.task, 9⟩, "0 0 3 * * *"⟩]) := by
      decide +kernel
    obtain ⟨s, hs, hout⟩ := Option.map_eq_some_iff.mp hrun
    obtain ⟨hquiet, hstored, hjobs⟩ : s.calls = [] ∧ storedCron s.db ⟨.task, 9⟩ = none ∧
        s.handle.scheduler = [⟨0, ⟨.task, 9⟩, "0 0 3 * * *"⟩] := by simpa using hout
    refine ⟨s, reaches_of_runEvents hs, hquiet, hstored, by rw [hjobs]; rfl, ?_⟩
    intro hagrees
    have htask := hagrees ⟨.task, 9⟩
    rw [hstored, hjobs] at htask
    exact absurd htask (by decide)
  · have hrun : ((runEvents System.step anyStep (System.boot oneTask)
        (finishFirst ++ [reschedule "0 4 * * *", reschedule "0 5 * * *", .advance 0, .advance 1,
          .advance 0, .advance 1, .advance 0, .advance 1, .advance 0, .advance 0])).map fun s =>
            (s.calls, storedCron s.db ⟨.task, 9⟩, s.handle.scheduler)) =
        some ([], some "0 0 5 * * *",
          [⟨1, ⟨.task, 9⟩, "0 0 4 * * *"⟩, ⟨2, ⟨.task, 9⟩, "0 0 5 * * *"⟩]) := by
      decide +kernel
    obtain ⟨s, hs, hout⟩ := Option.map_eq_some_iff.mp hrun
    obtain ⟨hquiet, hstored, hjobs⟩ : s.calls = [] ∧
        storedCron s.db ⟨.task, 9⟩ = some "0 0 5 * * *" ∧ s.handle.scheduler =
          [⟨1, ⟨.task, 9⟩, "0 0 4 * * *"⟩, ⟨2, ⟨.task, 9⟩, "0 0 5 * * *"⟩] := by simpa using hout
    refine ⟨s, reaches_of_runEvents hs, hquiet, by rw [hjobs]; rfl, ?_⟩
    intro hagrees
    have htask := hagrees ⟨.task, 9⟩
    rw [hstored, hjobs] at htask
    exact absurd htask (by decide)

end SimplyIpSync.Scheduler
