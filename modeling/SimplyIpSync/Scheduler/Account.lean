import SimplyIpSync.Scheduler.Handle

/-!
# The account of jobs and calls

Between taking the old job id out of the map and inserting the new one a call is alone with its
job: no other call can find it.  `Held` keeps account of who knows which job, and `Settled` of what
the scheduler will hold for a resource once the calls in flight have finished.  Each step of a call
keeps both, provided the call takes the old job id in its turn (`TakesInTurn`).
-/

namespace SimplyIpSync.Scheduler

open SimplyIpSync.Entities SimplyIpSync.Storage SimplyIpSync.Store SimplyIpSync.Api

/-! ### Calls in flight -/

/-- The jobs that only this call knows: the one it removes next, or the one it inserts next. -/
def Call.holds (c : Call) : List ℕ :=
  match c.stage with
  | .schedulerRemove (some jobId) => [jobId]
  | .mapInsert jobId => [jobId]
  | _ => []

/-- The call has taken the old job id, and still has a job to insert. -/
def Call.Adds (c : Call) : Prop := c.stage ≠ .mapRemove ∧ c.cron ≠ none

instance (c : Call) : Decidable c.Adds := inferInstanceAs (Decidable (_ ∧ _))

/-- Some call on the resource has yet to take the old job id. -/
def Pending (calls : List Call) (r : Resource) : Prop :=
  ∃ c ∈ calls, c.resource = r ∧ c.stage = .mapRemove

instance (calls : List Call) (r : Resource) : Decidable (Pending calls r) :=
  inferInstanceAs (Decidable (∃ c ∈ calls, _))

/-- With `others` in flight, `c` may take the old job id: nobody else is about to insert a job for
the resource, unless `c` has none to insert; and unless another call will still take its turn, the
call whose job stays carries what the row says. -/
def TakesInTurn (db : Db) (others : List Call) (c : Call) : Prop :=
  (∀ d ∈ others, d.resource = c.resource → d.Adds →
      c.cron = none ∧ (d.cron = storedCron db c.resource ∨ Pending others c.resource)) ∧
    ((∀ d ∈ others, d.resource = c.resource → ¬d.Adds) →
      c.cron = storedCron db c.resource ∨ Pending others c.resource)

instance (db : Db) (others : List Call) (c : Call) : Decidable (TakesInTurn db others c) :=
  inferInstanceAs (Decidable (_ ∧ _))

/-! ### The account of jobs -/

/-- Who knows which job: every live job is in the map or held by a call, and no job twice. -/
structure Held (h : SchedulerHandle) (calls : List Call) : Prop where
  job_ids : (h.scheduler.map Job.id).Nodup
  fresh : ∀ job ∈ h.scheduler, job.id < h.nextJobId
  mapped : ∀ r jobId, h.mapGet r = some jobId →
    ∃ job ∈ h.scheduler, job.id = jobId ∧ job.resource = r
  held : ∀ c ∈ calls, ∀ jobId ∈ c.holds, ∃ job ∈ h.scheduler, job.id = jobId ∧
    job.resource = c.resource ∧ (c.stage = .mapInsert jobId → c.cron = some job.cron)
  covered : ∀ job ∈ h.scheduler, h.mapGet job.resource = some job.id ∨ ∃ c ∈ calls, job.id ∈ c.holds
  held_once : (calls.flatMap Call.holds).Nodup
  held_unmapped : ∀ r jobId, h.mapGet r = some jobId → jobId ∉ calls.flatMap Call.holds

/-- What the scheduler will hold for `r` when the calls in flight have finished. -/
def Outcome (h : SchedulerHandle) (calls : List Call) (r : Resource) (cron : Option String) : Prop :=
  (∀ c ∈ calls, c.resource = r → c.Adds → c.cron = cron) ∧
    ((∀ c ∈ calls, c.resource = r → ¬c.Adds) → h.mappedCron r = cron)

/-- Each resource has a call that will still take its turn, or will be left as its row says. -/
structure Settled (db : Db) (h : SchedulerHandle) (calls : List Call) : Prop where
  one_adder : calls.Pairwise fun c d => c.resource = d.resource → ¬(c.Adds ∧ d.Adds)
  adder_unmapped : ∀ c ∈ calls, c.Adds → h.mapGet c.resource = none
  settled : ∀ r, Pending calls r ∨ Outcome h calls r (storedCron db r)

theorem Held.perm {h : SchedulerHandle} {calls calls' : List Call} (hp : calls.Perm calls')
    (hheld : Held h calls) : Held h calls' where
  job_ids := hheld.job_ids
  fresh := hheld.fresh
  mapped := hheld.mapped
  held := fun c hc => hheld.held c (hp.mem_iff.mpr hc)
  covered := by
    intro job hjob
    rcases hheld.covered job hjob with hmap | ⟨c, hc, hholds⟩
    · exact Or.inl hmap
    · exact Or.inr ⟨c, hp.mem_iff.mp hc, hholds⟩
  held_once := (hp.flatMap_right Call.holds).nodup_iff.mp hheld.held_once
  held_unmapped := by
    intro r jobId hmap hmem
    exact hheld.held_unmapped r jobId hmap ((hp.flatMap_right Call.holds).mem_iff.mpr hmem)

theorem Pending.perm {calls calls' : List Call} {r : Resource} (hp : calls.Perm calls')
    (h : Pending calls r) : Pending calls' r := by
  obtain ⟨c, hc, hcall⟩ := h
  exact ⟨c, hp.mem_iff.mp hc, hcall⟩

theorem Settled.perm {db : Db} {h : SchedulerHandle} {calls calls' : List Call}
    (hp : calls.Perm calls') (hsettled : Settled db h calls) : Settled db h calls' where
  one_adder := by
    refine (hp.pairwise_iff ?_).mp hsettled.one_adder
    intro c d hcd hsame hadds
    exact hcd hsame.symm hadds.symm
  adder_unmapped := fun c hc => hsettled.adder_unmapped c (hp.mem_iff.mpr hc)
  settled := by
    intro r
    rcases hsettled.settled r with hpending | ⟨hadder, hnone⟩
    · exact Or.inl (hpending.perm hp)
    · refine Or.inr ⟨fun c hc => hadder c (hp.mem_iff.mpr hc), fun hno => hnone ?_⟩
      exact fun c hc => hno c (hp.mem_iff.mp hc)

/-! ### One step of a call, in the account of jobs -/

section Steps

variable {h : SchedulerHandle} {c : Call} {rest : List Call}

/-- Two live jobs with one id are the same job. -/
theorem Held.job_unique {calls : List Call} (hheld : Held h calls) {job job' : Job}
    (hjob : job ∈ h.scheduler) (hjob' : job' ∈ h.scheduler) (hid : job.id = job'.id) : job = job' :=
  List.inj_on_of_nodup_map hheld.job_ids hjob hjob' hid

theorem Held.mapRemove (hheld : Held h (c :: rest)) (hstage : c.stage = .mapRemove) :
    Held (h.mapRemove c.resource)
      ({ c with stage := .schedulerRemove (h.mapGet c.resource) } :: rest) := by
  have hc : c.holds = [] := by simp [Call.holds, hstage]
  have honce := hheld.held_once
  have hunmapped := hheld.held_unmapped
  simp only [List.flatMap_cons, hc, List.nil_append] at honce hunmapped
  have hscheduler : (h.mapRemove c.resource).scheduler = h.scheduler :=
    h.scheduler_withJobs _ _
  -- the call now holds what the map had
  have hholds : ∀ jobId, jobId ∈ Call.holds { c with stage := .schedulerRemove (h.mapGet c.resource) }
      ↔ h.mapGet c.resource = some jobId := by
    intro jobId
    cases hmap : h.mapGet c.resource with
    | none => simp [Call.holds]
    | some taken => simp [Call.holds, eq_comm]
  refine ⟨?_, ?_, ?_, ?_, ?_, ?_, ?_⟩
  · rw [hscheduler]
    exact hheld.job_ids
  · rw [hscheduler]
    intro job hjob
    rw [SchedulerHandle.mapRemove, SchedulerHandle.nextJobId_withJobs]
    exact hheld.fresh job hjob
  · rw [hscheduler]
    intro r jobId hmap
    rw [SchedulerHandle.mapGet_mapRemove] at hmap
    split at hmap
    · cases hmap
    · exact hheld.mapped r jobId hmap
  · rw [hscheduler]
    intro d hd jobId hmem
    rcases List.mem_cons.mp hd with rfl | hd
    · obtain ⟨job, hjob, hid, hresource⟩ := hheld.mapped _ _ ((hholds jobId).mp hmem)
      exact ⟨job, hjob, hid, hresource, fun hinsert => by cases hinsert⟩
    · exact hheld.held d (List.mem_cons_of_mem _ hd) jobId hmem
  · rw [hscheduler]
    intro job hjob
    rcases hheld.covered job hjob with hmap | ⟨d, hd, hmem⟩
    · by_cases hr : job.resource = c.resource
      · rw [hr] at hmap
        exact Or.inr ⟨_, List.mem_cons_self .., (hholds job.id).mpr hmap⟩
      · exact Or.inl (by rw [SchedulerHandle.mapGet_mapRemove, if_neg hr, hmap])
    · rcases List.mem_cons.mp hd with rfl | hd
      · rw [hc] at hmem
        cases hmem
      · exact Or.inr ⟨d, List.mem_cons_of_mem _ hd, hmem⟩
  · rw [List.flatMap_cons]
    cases hmap : h.mapGet c.resource with
    | none => simpa [Call.holds] using honce
    | some jobId =>
        simp only [Call.holds, List.singleton_append, List.nodup_cons]
        exact ⟨hunmapped _ _ hmap, honce⟩
  · intro r jobId hmap
    rw [SchedulerHandle.mapGet_mapRemove] at hmap
    split at hmap
    · cases hmap
    rename_i hr
    rw [List.flatMap_cons, List.mem_append]
    rintro (hmem | hmem)
    · -- one job would be for two resources
      obtain ⟨job, hjob, hid, hresource⟩ := hheld.mapped _ _ hmap
      obtain ⟨job', hjob', hid', hresource'⟩ := hheld.mapped _ _ ((hholds jobId).mp hmem)
      have hsame := hheld.job_unique hjob hjob' (hid.trans hid'.symm)
      exact hr (by rw [← hresource, hsame, hresource'])
    · exact hunmapped r jobId hmap hmem

theorem Held.schedulerRemove {existing : Option ℕ} (hheld : Held h (c :: rest))
    (hstage : c.stage = .schedulerRemove existing) :
    Held (h.schedulerRemove existing) ({ c with stage := .schedulerAdd } :: rest) := by
  have hmem : ∀ {job}, job ∈ (h.schedulerRemove existing).scheduler ↔
      job ∈ h.scheduler ∧ some job.id ≠ existing := by
    intro job
    simp [SchedulerHandle.schedulerRemove]
  have hholds : ∀ jobId, jobId ∈ c.holds ↔ existing = some jobId := by
    intro jobId
    cases existing with
    | none => simp [Call.holds, hstage]
    | some taken => simp [Call.holds, hstage, eq_comm]
  have hnext : Call.holds { c with stage := .schedulerAdd } = [] := rfl
  have honce := hheld.held_once
  rw [List.flatMap_cons, List.nodup_append] at honce
  refine ⟨?_, ?_, ?_, ?_, ?_, ?_, ?_⟩
  · exact hheld.job_ids.sublist (List.filter_sublist.map Job.id)
  · exact fun job hjob => hheld.fresh job (hmem.mp hjob).1
  · intro r jobId hmap
    obtain ⟨job, hjob, hid, hresource⟩ := hheld.mapped r jobId hmap
    refine ⟨job, hmem.mpr ⟨hjob, ?_⟩, hid, hresource⟩
    intro htaken
    refine hheld.held_unmapped r jobId hmap ?_
    rw [List.flatMap_cons, List.mem_append]
    exact Or.inl ((hholds jobId).mpr (by rw [← htaken, hid]))
  · intro d hd jobId hheldBy
    rcases List.mem_cons.mp hd with rfl | hd
    · cases hheldBy
    · obtain ⟨job, hjob, hid, hresource, hcron⟩ :=
        hheld.held d (List.mem_cons_of_mem _ hd) jobId hheldBy
      refine ⟨job, hmem.mpr ⟨hjob, ?_⟩, hid, hresource, hcron⟩
      intro htaken
      have hfirst : jobId ∈ c.holds := (hholds jobId).mpr (by rw [← htaken, hid])
      exact honce.2.2 jobId hfirst jobId (List.mem_flatMap.mpr ⟨d, hd, hheldBy⟩) rfl
  · intro job hjob
    obtain ⟨hjob, hkept⟩ := hmem.mp hjob
    rcases hheld.covered job hjob with hmap | ⟨d, hd, hheldBy⟩
    · exact Or.inl hmap
    · rcases List.mem_cons.mp hd with rfl | hd
      · exact absurd ((hholds job.id).mp hheldBy).symm hkept
      · exact Or.inr ⟨d, List.mem_cons_of_mem _ hd, hheldBy⟩
  · rw [List.flatMap_cons, hnext, List.nil_append]
    exact honce.2.1
  · intro r jobId hmap
    have hun := hheld.held_unmapped r jobId hmap
    rw [List.flatMap_cons, List.mem_append, not_or] at hun
    rw [List.flatMap_cons, hnext, List.nil_append]
    exact hun.2

/-- A call without a job to add just ends. -/
theorem Held.finish (hheld : Held h (c :: rest)) (hstage : c.stage = .schedulerAdd) :
    Held h rest := by
  have hc : c.holds = [] := by simp [Call.holds, hstage]
  refine ⟨hheld.job_ids, hheld.fresh, hheld.mapped, ?_, ?_, ?_, ?_⟩
  · exact fun d hd => hheld.held d (List.mem_cons_of_mem _ hd)
  · intro job hjob
    rcases hheld.covered job hjob with hmap | ⟨d, hd, hheldBy⟩
    · exact Or.inl hmap
    · rcases List.mem_cons.mp hd with rfl | hd
      · rw [hc] at hheldBy
        cases hheldBy
      · exact Or.inr ⟨d, hd, hheldBy⟩
  · simpa [hc] using hheld.held_once
  · simpa [hc] using hheld.held_unmapped

theorem Held.schedulerAdd {cron : String} (hheld : Held h (c :: rest))
    (hstage : c.stage = .schedulerAdd) (hcron : c.cron = some cron) :
    Held (h.schedulerAdd c.resource cron) ({ c with stage := .mapInsert h.nextJobId } :: rest) := by
  have hfinish := hheld.finish hstage
  have hmem : ∀ {job}, job ∈ (h.schedulerAdd c.resource cron).scheduler ↔
      job ∈ h.scheduler ∨ job = ⟨h.nextJobId, c.resource, cron⟩ := by
    intro job
    simp [SchedulerHandle.schedulerAdd]
  have hnext : Call.holds { c with stage := .mapInsert h.nextJobId } = [h.nextJobId] := rfl
  have hnew : ∀ job ∈ h.scheduler, job.id ≠ h.nextJobId :=
    fun job hjob => (hheld.fresh job hjob).ne
  refine ⟨?_, ?_, ?_, ?_, ?_, ?_, ?_⟩
  · show ((h.scheduler ++ [_]).map Job.id).Nodup
    rw [List.map_append, List.nodup_append]
    refine ⟨hheld.job_ids, by simp, ?_⟩
    intro a ha b hb
    obtain ⟨job, hjob, rfl⟩ := List.mem_map.mp ha
    rw [List.map_singleton, List.mem_singleton] at hb
    rw [hb]
    exact hnew job hjob
  · intro job hjob
    show job.id < h.nextJobId + 1
    rcases hmem.mp hjob with hjob | rfl
    · have := hheld.fresh job hjob
      omega
    · exact Nat.lt_succ_self _
  · intro r jobId hmap
    obtain ⟨job, hjob, hid⟩ := hheld.mapped r jobId hmap
    exact ⟨job, hmem.mpr (Or.inl hjob), hid⟩
  · intro d hd jobId hheldBy
    rcases List.mem_cons.mp hd with rfl | hd
    · rw [hnext, List.mem_singleton] at hheldBy
      exact ⟨⟨h.nextJobId, c.resource, cron⟩, hmem.mpr (Or.inr rfl), hheldBy.symm, rfl,
        fun _ => hcron⟩
    · obtain ⟨job, hjob, hjobOf⟩ := hfinish.held d hd jobId hheldBy
      exact ⟨job, hmem.mpr (Or.inl hjob), hjobOf⟩
  · intro job hjob
    rcases hmem.mp hjob with hjob | rfl
    · rcases hfinish.covered job hjob with hmap | ⟨d, hd, hheldBy⟩
      · exact Or.inl hmap
      · exact Or.inr ⟨d, List.mem_cons_of_mem _ hd, hheldBy⟩
    · exact Or.inr ⟨_, List.mem_cons_self .., by rw [hnext]; exact List.mem_singleton_self _⟩
  · rw [List.flatMap_cons, hnext, List.singleton_append, List.nodup_cons]
    refine ⟨?_, hfinish.held_once⟩
    intro hheldBy
    obtain ⟨d, hd, hheldBy⟩ := List.mem_flatMap.mp hheldBy
    obtain ⟨job, hjob, hid, -⟩ := hfinish.held d hd _ hheldBy
    exact hnew job hjob hid
  · intro r jobId hmap
    rw [List.flatMap_cons, hnext, List.singleton_append, List.mem_cons, not_or]
    refine ⟨?_, hfinish.held_unmapped r jobId hmap⟩
    obtain ⟨job, hjob, hid, -⟩ := hheld.mapped r jobId hmap
    rw [← hid]
    exact hnew job hjob

theorem Held.mapInsert {jobId : ℕ} (hheld : Held h (c :: rest)) (hstage : c.stage = .mapInsert jobId)
    (hunmapped : h.mapGet c.resource = none) : Held (h.mapInsert c.resource jobId) rest := by
  have hc : c.holds = [jobId] := by simp [Call.holds, hstage]
  have hscheduler : (h.mapInsert c.resource jobId).scheduler = h.scheduler :=
    h.scheduler_withJobs _ _
  have honce := hheld.held_once
  have hlater := hheld.held_unmapped
  simp only [List.flatMap_cons, hc, List.singleton_append, List.nodup_cons] at honce hlater
  obtain ⟨own, hown, hownId, hownResource, -⟩ :=
    hheld.held c (List.mem_cons_self ..) jobId (by rw [hc]; exact List.mem_singleton_self _)
  refine ⟨?_, ?_, ?_, ?_, ?_, honce.2, ?_⟩
  · rw [hscheduler]
    exact hheld.job_ids
  · rw [hscheduler]
    intro job hjob
    rw [SchedulerHandle.mapInsert, SchedulerHandle.nextJobId_withJobs]
    exact hheld.fresh job hjob
  · rw [hscheduler]
    intro r jobId' hmap
    rw [SchedulerHandle.mapGet_mapInsert] at hmap
    split at hmap
    · rename_i hr
      obtain rfl := Option.some.inj hmap
      exact ⟨own, hown, hownId, hr ▸ hownResource⟩
    · exact hheld.mapped r jobId' hmap
  · rw [hscheduler]
    exact fun d hd => hheld.held d (List.mem_cons_of_mem _ hd)
  · rw [hscheduler]
    intro job hjob
    rw [SchedulerHandle.mapGet_mapInsert]
    rcases hheld.covered job hjob with hmap | ⟨d, hd, hheldBy⟩
    · have hr : job.resource ≠ c.resource := by
        intro hr
        rw [hr, hunmapped] at hmap
        cases hmap
      exact Or.inl (by rw [if_neg hr, hmap])
    · rcases List.mem_cons.mp hd with rfl | hd
      · rw [hc, List.mem_singleton] at hheldBy
        have hsame := hheld.job_unique hjob hown (hheldBy.trans hownId.symm)
        exact Or.inl (by rw [if_pos (hsame ▸ hownResource), hheldBy])
      · exact Or.inr ⟨d, hd, hheldBy⟩
  · intro r jobId' hmap
    rw [SchedulerHandle.mapGet_mapInsert] at hmap
    split at hmap
    · obtain rfl := Option.some.inj hmap
      exact honce.1
    · exact fun hmem => hlater r jobId' hmap (List.mem_cons_of_mem _ hmem)

end Steps

/-! ### One step of a call, in the account of outcomes -/

section Settling

variable {db : Db} {h h' : SchedulerHandle} {c c' : Call} {rest calls calls' : List Call}

theorem SchedulerHandle.mappedCron_of_none {r : Resource} (hmap : h.mapGet r = none) :
    h.mappedCron r = none := by
  rw [SchedulerHandle.mappedCron, hmap, Option.bind_none]

/-- The map leads to the expression of the live job with the mapped id. -/
theorem Held.mappedCron_eq (hheld : Held h calls) {r : Resource} {job : Job}
    (hjob : job ∈ h.scheduler) (hmap : h.mapGet r = some job.id) :
    h.mappedCron r = some job.cron := by
  have hfind : h.scheduler.find? (fun other => other.id = job.id) = some job := by
    cases hfound : h.scheduler.find? fun other => other.id = job.id with
    | none =>
        have hnot := List.find?_eq_none.mp hfound job hjob
        simp at hnot
    | some found =>
        have hmem : found ∈ h.scheduler := List.mem_of_find?_eq_some hfound
        have hid : found.id = job.id := by simpa using List.find?_some hfound
        rw [hheld.job_unique hmem hjob hid]
  rw [SchedulerHandle.mappedCron, hmap, Option.bind_some, hfind, Option.map_some]

/-- What the map leads to survives a step that keeps the entry and its job. -/
theorem Held.mappedCron_kept (hheld : Held h calls) (hheld' : Held h' calls') {r : Resource}
    (hmap : h'.mapGet r = h.mapGet r)
    (hkept : ∀ job ∈ h.scheduler, h.mapGet r = some job.id → job ∈ h'.scheduler) :
    h'.mappedCron r = h.mappedCron r := by
  cases hget : h.mapGet r with
  | none =>
      rw [SchedulerHandle.mappedCron_of_none hget,
        SchedulerHandle.mappedCron_of_none (hmap.trans hget)]
  | some jobId =>
      obtain ⟨job, hjob, rfl, -⟩ := hheld.mapped r jobId hget
      rw [hheld.mappedCron_eq hjob hget, hheld'.mappedCron_eq (hkept job hjob hget)
        (hmap.trans hget)]

/-- A call after its first step neither waits for its turn nor changes what it will leave. -/
theorem Settled.keep (hsettled : Settled db h (c :: rest)) (hresource : c'.resource = c.resource)
    (hcron : c'.cron = c.cron) (hstage : c.stage ≠ .mapRemove) (hstage' : c'.stage ≠ .mapRemove)
    (hmap : ∀ r, h'.mapGet r = h.mapGet r) (hmapped : ∀ r, h'.mappedCron r = h.mappedCron r) :
    Settled db h' (c' :: rest) := by
  have hadds : c'.Adds ↔ c.Adds := by simp [Call.Adds, hcron, hstage, hstage']
  obtain ⟨hfirst, hrest⟩ := List.pairwise_cons.mp hsettled.one_adder
  refine ⟨?_, ?_, ?_⟩
  · refine List.pairwise_cons.mpr ⟨?_, hrest⟩
    intro d hd hsame hboth
    exact hfirst d hd (hresource ▸ hsame) ⟨hadds.mp hboth.1, hboth.2⟩
  · intro d hd hd'
    rw [hmap]
    rcases List.mem_cons.mp hd with rfl | hd
    · rw [hresource]
      exact hsettled.adder_unmapped c (List.mem_cons_self ..) (hadds.mp hd')
    · exact hsettled.adder_unmapped d (List.mem_cons_of_mem _ hd) hd'
  · intro r
    rcases hsettled.settled r with ⟨d, hd, hpending⟩ | ⟨hadder, hnone⟩
    · rcases List.mem_cons.mp hd with rfl | hd
      · exact absurd hpending.2 hstage
      · exact Or.inl ⟨d, List.mem_cons_of_mem _ hd, hpending⟩
    · refine Or.inr ⟨?_, ?_⟩
      · intro d hd hr hd'
        rcases List.mem_cons.mp hd with rfl | hd
        · rw [hcron]
          exact hadder c (List.mem_cons_self ..) (hresource ▸ hr) (hadds.mp hd')
        · exact hadder d (List.mem_cons_of_mem _ hd) hr hd'
      · intro hno
        rw [hmapped]
        apply hnone
        intro d hd hr hd'
        rcases List.mem_cons.mp hd with rfl | hd
        · exact hno c' (List.mem_cons_self ..) (hresource.trans hr) (hadds.mpr hd')
        · exact hno d (List.mem_cons_of_mem _ hd) hr hd'

/-- A call without a job to add just ends. -/
theorem Settled.finish (hsettled : Settled db h (c :: rest)) (hstage : c.stage ≠ .mapRemove)
    (hcron : c.cron = none) : Settled db h rest := by
  have hc : ¬c.Adds := fun hadds => hadds.2 hcron
  refine ⟨(List.pairwise_cons.mp hsettled.one_adder).2, ?_, ?_⟩
  · exact fun d hd => hsettled.adder_unmapped d (List.mem_cons_of_mem _ hd)
  · intro r
    rcases hsettled.settled r with ⟨d, hd, hpending⟩ | ⟨hadder, hnone⟩
    · rcases List.mem_cons.mp hd with rfl | hd
      · exact absurd hpending.2 hstage
      · exact Or.inl ⟨d, hd, hpending⟩
    · refine Or.inr ⟨fun d hd => hadder d (List.mem_cons_of_mem _ hd), ?_⟩
      intro hno
      apply hnone
      intro d hd hr
      rcases List.mem_cons.mp hd with rfl | hd
      · exact hc
      · exact hno d hd hr

/-- The step of a call changes nothing for another resource. -/
theorem Settled.other (hsettled : Settled db h (c :: rest)) {r : Resource} (hr : r ≠ c.resource)
    (hresource : c'.resource = c.resource) (hmapped : h'.mappedCron r = h.mappedCron r) :
    Pending (c' :: rest) r ∨ Outcome h' (c' :: rest) r (storedCron db r) := by
  rcases hsettled.settled r with ⟨d, hd, hwait⟩ | ⟨hadder, hnone⟩
  · rcases List.mem_cons.mp hd with rfl | hd
    · exact absurd hwait.1.symm hr
    · exact Or.inl ⟨d, List.mem_cons_of_mem _ hd, hwait⟩
  · refine Or.inr ⟨?_, ?_⟩
    · intro d hd hsame hd'
      rcases List.mem_cons.mp hd with rfl | hd
      · exact absurd (hsame.symm.trans hresource) hr
      · exact hadder d (List.mem_cons_of_mem _ hd) hsame hd'
    · intro hno
      rw [hmapped]
      apply hnone
      intro d hd hsame
      rcases List.mem_cons.mp hd with rfl | hd
      · exact absurd hsame.symm hr
      · exact hno d (List.mem_cons_of_mem _ hd) hsame

/-- A call that has taken its turn leaves its resource waiting for another, or to what the row
says. -/
theorem TakesInTurn.settled (hturn : TakesInTurn db rest c) (hadds : c'.Adds ↔ c.cron ≠ none)
    (hcron : c'.cron = c.cron) (hresource : c'.resource = c.resource)
    (hnone : h'.mapGet c.resource = none) :
    Pending (c' :: rest) c.resource ∨
      Outcome h' (c' :: rest) c.resource (storedCron db c.resource) := by
  by_cases hpending : Pending rest c.resource
  · obtain ⟨d, hd, hwait⟩ := hpending
    exact Or.inl ⟨d, List.mem_cons_of_mem _ hd, hwait⟩
  · refine Or.inr ⟨?_, ?_⟩
    · intro d hd hsame hd'
      rcases List.mem_cons.mp hd with rfl | hd
      · -- the call itself has a job to add, so nobody else has
        have hnobody : ∀ e ∈ rest, e.resource = c.resource → ¬e.Adds :=
          fun e he hsame he' => hadds.mp hd' (hturn.1 e he hsame he').1
        exact hcron.trans ((hturn.2 hnobody).resolve_right hpending)
      · exact (hturn.1 d hd hsame hd').2.resolve_right hpending
    · intro hno
      have hidle : c.cron = none := by
        by_contra hjob
        exact hno _ (List.mem_cons_self ..) hresource (hadds.mpr hjob)
      have hstored := (hturn.2 fun d hd => hno d (List.mem_cons_of_mem _ hd)).resolve_right hpending
      rw [← hstored, hidle]
      exact SchedulerHandle.mappedCron_of_none hnone

/-- **A call takes the old job id.**  If it does so in turn, its resource stays settled. -/
theorem Settled.mapRemove (hheld : Held h (c :: rest)) (hsettled : Settled db h (c :: rest))
    (hstage : c.stage = .mapRemove) (hturn : TakesInTurn db rest c) :
    Settled db (h.mapRemove c.resource)
      ({ c with stage := .schedulerRemove (h.mapGet c.resource) } :: rest) := by
  have hheld' := hheld.mapRemove hstage
  obtain ⟨-, hrest⟩ := List.pairwise_cons.mp hsettled.one_adder
  have hadds : Call.Adds { c with stage := .schedulerRemove (h.mapGet c.resource) } ↔
      c.cron ≠ none := by simp [Call.Adds]
  refine ⟨?_, ?_, ?_⟩
  · refine List.pairwise_cons.mpr ⟨?_, hrest⟩
    intro d hd hsame hboth
    exact hadds.mp hboth.1 (hturn.1 d hd hsame.symm hboth.2).1
  · intro d hd hd'
    rw [SchedulerHandle.mapGet_mapRemove]
    rcases List.mem_cons.mp hd with rfl | hd
    · exact if_pos rfl
    · by_cases hr : d.resource = c.resource
      · exact if_pos hr
      · rw [if_neg hr]
        exact hsettled.adder_unmapped d (List.mem_cons_of_mem _ hd) hd'
  · intro r
    by_cases hr : r = c.resource
    · rw [hr]
      refine hturn.settled hadds rfl rfl ?_
      rw [SchedulerHandle.mapGet_mapRemove, if_pos rfl]
    · refine hsettled.other hr rfl ?_
      apply hheld.mappedCron_kept hheld'
      · rw [SchedulerHandle.mapGet_mapRemove, if_neg hr]
      · intro job hjob _
        rw [SchedulerHandle.mapRemove, SchedulerHandle.scheduler_withJobs]
        exact hjob

/-- A call inserts its job, which is what its resource was to be left with. -/
theorem Settled.mapInsert {jobId : ℕ} (hheld : Held h (c :: rest))
    (hsettled : Settled db h (c :: rest)) (hstage : c.stage = .mapInsert jobId) :
    Settled db (h.mapInsert c.resource jobId) rest := by
  obtain ⟨own, hown, hownId, hownResource, hcron⟩ :=
    hheld.held c (List.mem_cons_self ..) jobId (by simp [Call.holds, hstage])
  have hadds : c.Adds := ⟨by rw [hstage]; exact Stage.noConfusion, by rw [hcron hstage]; simp⟩
  have hunmapped := hsettled.adder_unmapped c (List.mem_cons_self ..) hadds
  have hheld' := hheld.mapInsert hstage hunmapped
  obtain ⟨hfirst, hrest⟩ := List.pairwise_cons.mp hsettled.one_adder
  have hscheduler : (h.mapInsert c.resource jobId).scheduler = h.scheduler :=
    h.scheduler_withJobs _ _
  refine ⟨hrest, ?_, ?_⟩
  · intro d hd hd'
    have hr : d.resource ≠ c.resource := fun hr => hfirst d hd hr.symm ⟨hadds, hd'⟩
    rw [SchedulerHandle.mapGet_mapInsert, if_neg hr]
    exact hsettled.adder_unmapped d (List.mem_cons_of_mem _ hd) hd'
  · intro r
    have hwaits : Pending (c :: rest) r → Pending rest r := by
      intro ⟨d, hd, hwait⟩
      rcases List.mem_cons.mp hd with rfl | hd
      · exact absurd hwait.2 hadds.1
      · exact ⟨d, hd, hwait⟩
    rcases hsettled.settled r with hpending | ⟨hadder, hnone⟩
    · exact Or.inl (hwaits hpending)
    · refine Or.inr ⟨fun d hd => hadder d (List.mem_cons_of_mem _ hd), ?_⟩
      intro hno
      by_cases hr : r = c.resource
      · have hmap : (h.mapInsert c.resource jobId).mapGet r = some own.id := by
          rw [SchedulerHandle.mapGet_mapInsert, if_pos hr, hownId]
        rw [hheld'.mappedCron_eq (hscheduler ▸ hown) hmap, ← hcron hstage]
        exact hadder c (List.mem_cons_self ..) hr.symm hadds
      · have hmapped : (h.mapInsert c.resource jobId).mappedCron r = h.mappedCron r := by
          apply hheld.mappedCron_kept hheld'
          · rw [SchedulerHandle.mapGet_mapInsert, if_neg hr]
          · intro job hjob _
            rw [hscheduler]
            exact hjob
        rw [hmapped]
        apply hnone
        intro d hd hsame
        rcases List.mem_cons.mp hd with rfl | hd
        · exact absurd hsame.symm hr
        · exact hno d hd hsame

end Settling

end SimplyIpSync.Scheduler
