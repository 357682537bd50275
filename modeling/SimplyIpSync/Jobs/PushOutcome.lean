import SimplyIpSync.Jobs.Push

/-!
# What a push reports

The flags and the error list of the target loop, from the outcomes of the targets to the journal:
`pushTargets_exact` says that they tell precisely which targets accepted every chunk.
-/

namespace SimplyIpSync.Jobs

open SimplyIpSync.Entities SimplyIpSync.Client

variable {W : Type*}

/-! ### The totals -/

/-- Every target is complete. -/
def AllComplete (reports : PushReports) : Prop := ∀ r ∈ reports, r.1.isComplete

/-- Some target is complete. -/
def AnyComplete (reports : PushReports) : Prop := ∃ r ∈ reports, r.1.isComplete

theorem PushTotals.add_of_complete (totals : PushTotals) (target : PushTarget)
    {outcome : TargetOutcome} (h : outcome.isComplete) :
    (totals.add target outcome).errors = totals.errors ∧
      (totals.add target outcome).anySuccess = true ∧
      (totals.add target outcome).allSucceeded = totals.allSucceeded := by
  cases outcome with
  | missing => simp [TargetOutcome.isComplete] at h
  | pushed sent error =>
      cases error with
      | none => exact ⟨rfl, rfl, rfl⟩
      | some e => simp [TargetOutcome.isComplete] at h

theorem PushTotals.add_of_incomplete (totals : PushTotals) (target : PushTarget)
    {outcome : TargetOutcome} (h : outcome.isComplete = false) :
    (totals.add target outcome).errors ≠ [] ∧
      (totals.add target outcome).anySuccess = totals.anySuccess ∧
      (totals.add target outcome).allSucceeded = false := by
  cases outcome with
  | missing => exact ⟨by simp [PushTotals.add], rfl, rfl⟩
  | pushed sent error =>
      cases error with
      | none => simp [TargetOutcome.isComplete] at h
      | some e => exact ⟨by simp [PushTotals.add], rfl, rfl⟩

/-- **The flags tell the truth.**  The error list stays empty, and `allSucceeded` stays set,
exactly when every target is complete; `anySuccess` is raised exactly by a complete target. -/
theorem PushTotals.addAll_spec (targets : List PushTarget) (reports : PushReports)
    (hlength : targets.length = reports.length) (totals : PushTotals) :
    ((totals.addAll targets reports).errors = [] ↔ totals.errors = [] ∧ AllComplete reports) ∧
      ((totals.addAll targets reports).allSucceeded ↔
        totals.allSucceeded ∧ AllComplete reports) ∧
      ((totals.addAll targets reports).anySuccess ↔
        totals.anySuccess ∨ AnyComplete reports) := by
  induction targets generalizing reports totals with
  | nil =>
      obtain rfl := List.eq_nil_of_length_eq_zero hlength.symm
      simp [PushTotals.addAll, AllComplete, AnyComplete]
  | cons target targets ih =>
      cases reports with
      | nil => simp at hlength
      | cons report reports =>
          have hstep : totals.addAll (target :: targets) (report :: reports) =
              (totals.add target report.1).addAll targets reports := rfl
          obtain ⟨herrors, hall, hany⟩ := ih reports (by simpa using hlength)
            (totals.add target report.1)
          rw [hstep, herrors, hall, hany]
          simp only [AllComplete, AnyComplete, List.forall_mem_cons, List.exists_mem_cons_iff]
          cases hcomplete : report.1.isComplete with
          | true =>
              obtain ⟨h1, h2, h3⟩ := PushTotals.add_of_complete totals target hcomplete
              simp [h1, h2, h3]
          | false =>
              obtain ⟨h1, h2, h3⟩ := PushTotals.add_of_incomplete totals target hcomplete
              simp [h1, h2, h3]

/-! ### The push as a whole -/

/-- No two targets are the same vault, and a target's endpoint is the row of its id. -/
structure DistinctTargets (targets : List PushTarget) : Prop where
  nodup : (targets.map PushTarget.vaultId).Nodup
  vault_id : ∀ target ∈ targets, ∀ vault, target.vault = some vault → vault.id = target.vaultId

theorem DistinctTargets.tail {target : PushTarget} {targets : List PushTarget}
    (h : DistinctTargets (target :: targets)) : DistinctTargets targets where
  nodup := (List.nodup_cons.mp h.nodup).2
  vault_id t ht := h.vault_id t (List.mem_cons_of_mem _ ht)

/-- The attempts made at one vault. -/
def attemptsToVault (vaultId : Uuid) (attempts : List Attempt) : List Attempt :=
  attempts.filter fun a => a.endpoint.id = vaultId

/-- The target exists and accepted every chunk, in order. -/
def TookEverything (chunks : List (List BatchRecordInput)) (attempts : List Attempt)
    (target : PushTarget) : Prop :=
  target.vault.isSome ∧ ChunksAccepted chunks (accepted (attemptsToVault target.vaultId attempts))

section

variable {http : Http W} {maxRetries : ℕ} {modeAt : ℕ → BatchMode}
  {chunks : List (List BatchRecordInput)} {targets : List PushTarget} {reports : PushReports}

theorem Reported.endpoint_id {target : PushTarget} {report : TargetOutcome × List Attempt}
    (h : Reported http maxRetries modeAt chunks target report)
    (hid : ∀ vault, target.vault = some vault → vault.id = target.vaultId) :
    ∀ a ∈ report.2, a.endpoint.id = target.vaultId := by
  obtain ⟨_, _, hpushed⟩ := h
  intro a ha
  exact hid a.endpoint (hpushed.sent_to a ha).1

/-- Every attempt of a push goes to the vault of one of its targets. -/
theorem exists_target_of_mem_reports
    (h : List.Forall₂ (Reported http maxRetries modeAt chunks) targets reports)
    (hdistinct : DistinctTargets targets) {a : Attempt} (ha : a ∈ reports.flatMap Prod.snd) :
    ∃ target ∈ targets, target.vaultId = a.endpoint.id := by
  induction h with
  | nil => simp at ha
  | @cons target report targets reports hreport _ ih =>
      rw [List.flatMap_cons] at ha
      rcases List.mem_append.mp ha with ha | ha
      · have hid := hreport.endpoint_id (hdistinct.vault_id target (List.mem_cons_self ..)) a ha
        exact ⟨target, List.mem_cons_self .., hid.symm⟩
      · obtain ⟨t, ht, hta⟩ := ih hdistinct.tail ha
        exact ⟨t, List.mem_cons_of_mem _ ht, hta⟩

/-- The attempts at a target's vault are the ones its report lists. -/
theorem attemptsToVault_reports
    (h : List.Forall₂ (Reported http maxRetries modeAt chunks) targets reports)
    (hdistinct : DistinctTargets targets) :
    List.Forall₂ (fun target r =>
      attemptsToVault target.vaultId (reports.flatMap Prod.snd) = r.2) targets reports := by
  induction h with
  | nil => exact List.Forall₂.nil
  | @cons target report targets reports hreport hreports ih =>
      have hid := hreport.endpoint_id (hdistinct.vault_id target (List.mem_cons_self ..))
      have hfresh := (List.nodup_cons.mp hdistinct.nodup).1
      have hown : attemptsToVault target.vaultId report.2 = report.2 := by
        rw [attemptsToVault, List.filter_eq_self]
        intro a ha
        simp [hid a ha]
      have hothers : attemptsToVault target.vaultId (reports.flatMap Prod.snd) = [] := by
        rw [attemptsToVault, List.filter_eq_nil_iff]
        intro a ha hsame
        obtain ⟨t, ht, hta⟩ := exists_target_of_mem_reports hreports hdistinct.tail ha
        have hsame' : t.vaultId = target.vaultId := by rw [hta]; simpa using hsame
        exact hfresh (hsame' ▸ List.mem_map_of_mem ht)
      have hsplit : ∀ vaultId, attemptsToVault vaultId ((report :: reports).flatMap Prod.snd) =
          attemptsToVault vaultId report.2 ++
            attemptsToVault vaultId (reports.flatMap Prod.snd) := by
        intro vaultId
        rw [List.flatMap_cons, attemptsToVault, List.filter_append]
        rfl
      refine List.Forall₂.cons ?_ ?_
      · rw [hsplit, hown, hothers, List.append_nil]
      · have hrest : ∀ t ∈ targets, attemptsToVault t.vaultId report.2 = [] := by
          intro t ht
          rw [attemptsToVault, List.filter_eq_nil_iff]
          intro a ha hsame
          have hsame' : target.vaultId = t.vaultId := by rw [← hid a ha]; simpa using hsame
          exact hfresh (hsame' ▸ List.mem_map_of_mem ht)
        refine (List.forall₂_iff_get.mpr ?_)
        obtain ⟨hlength, hget⟩ := List.forall₂_iff_get.mp (ih hdistinct.tail)
        refine ⟨hlength, ?_⟩
        intro i h₁ h₂
        rw [hsplit, hrest _ (List.get_mem ..), List.nil_append]
        exact hget i h₁ h₂

end

/-- What a push says about itself is what the targets saw. -/
structure PushExact (modeAt : ℕ → BatchMode) (chunks : List (List BatchRecordInput))
    (targets : List PushTarget) (before after : PushTotals) (attempts : List Attempt) : Prop where
  errors_iff : after.errors = [] ↔
    before.errors = [] ∧ ∀ target ∈ targets, TookEverything chunks attempts target
  allSucceeded_iff : after.allSucceeded ↔
    before.allSucceeded ∧ ∀ target ∈ targets, TookEverything chunks attempts target
  anySuccess_iff : after.anySuccess ↔
    before.anySuccess ∨ ∃ target ∈ targets, TookEverything chunks attempts target
  upserts : (∀ i, modeAt i = .upsert) → ∀ a ∈ accepted attempts, a.mode = .upsert
  sentTo : ∀ a ∈ attempts, ∃ target ∈ targets,
    target.vault = some a.endpoint ∧ a.groupName = target.groupName

/-- **The push is exact.**  Its error list and its flags say precisely which of the targets
accepted every chunk, as the journal of all attempts shows it. -/
theorem pushTargets_exact (http : Http W) (maxRetries : ℕ) (modeAt : ℕ → BatchMode)
    (chunks : List (List BatchRecordInput)) (hne : ∀ chunk ∈ chunks, chunk ≠ [])
    (targets : List PushTarget) (hdistinct : DistinctTargets targets) (totals : PushTotals)
    (w : W) :
    PushExact modeAt chunks targets totals
      (pushTargets (journaled http) maxRetries modeAt chunks targets totals (w, [])).1
      (pushTargets (journaled http) maxRetries modeAt chunks targets totals (w, [])).2.2 := by
  obtain ⟨reports, hreports, htotals, hlog⟩ :=
    pushTargets_journaled http maxRetries modeAt chunks targets totals w []
  rw [List.nil_append] at hlog
  have hattempts := attemptsToVault_reports hreports hdistinct
  rw [htotals, hlog]
  obtain ⟨hlength, hget⟩ := List.forall₂_iff_get.mp hreports
  have hlt : ∀ i : Fin reports.length, i.1 < targets.length := by
    intro i
    have := i.2
    omega
  have hcomplete : ∀ i (h₁ : i < targets.length) (h₂ : i < reports.length),
      (reports.get ⟨i, h₂⟩).1.isComplete ↔
        TookEverything chunks (reports.flatMap Prod.snd) (targets.get ⟨i, h₁⟩) := by
    intro i h₁ h₂
    obtain ⟨_, _, hpushed⟩ := hget i h₁ h₂
    rw [hpushed.complete_iff hne, TookEverything,
      (List.forall₂_iff_get.mp hattempts).2 i h₁ h₂]
  have hall : AllComplete reports ↔
      ∀ target ∈ targets, TookEverything chunks (reports.flatMap Prod.snd) target := by
    constructor
    · intro h target ht
      obtain ⟨i, rfl⟩ := List.mem_iff_get.mp ht
      exact (hcomplete i i.2 (hlength ▸ i.2)).mp (h _ (List.get_mem ..))
    · intro h r hr
      obtain ⟨i, rfl⟩ := List.mem_iff_get.mp hr
      exact (hcomplete i (hlt i) i.2).mpr (h _ (List.get_mem ..))
  have hany : AnyComplete reports ↔
      ∃ target ∈ targets, TookEverything chunks (reports.flatMap Prod.snd) target := by
    constructor
    · intro ⟨r, hr, h⟩
      obtain ⟨i, rfl⟩ := List.mem_iff_get.mp hr
      exact ⟨_, List.get_mem .., (hcomplete i (hlt i) i.2).mp h⟩
    · intro ⟨target, ht, h⟩
      obtain ⟨i, rfl⟩ := List.mem_iff_get.mp ht
      exact ⟨_, List.get_mem .., (hcomplete i i.2 (hlength ▸ i.2)).mpr h⟩
  obtain ⟨herrors, hsucceeded, hsome⟩ := PushTotals.addAll_spec targets reports hlength totals
  refine ⟨by rw [herrors, hall], by rw [hsucceeded, hall], by rw [hsome, hany], ?_, ?_⟩
  · intro hup a ha
    obtain ⟨hmem, haccepted⟩ := List.mem_filter.mp ha
    obtain ⟨r, hr, har⟩ := List.mem_flatMap.mp hmem
    obtain ⟨i, rfl⟩ := List.mem_iff_get.mp hr
    obtain ⟨_, _, hpushed⟩ := hget i (hlt i) i.2
    exact hpushed.upserts hup a (List.mem_filter.mpr ⟨har, haccepted⟩)
  · intro a ha
    obtain ⟨r, hr, har⟩ := List.mem_flatMap.mp ha
    obtain ⟨i, rfl⟩ := List.mem_iff_get.mp hr
    obtain ⟨_, _, hpushed⟩ := hget i (hlt i) i.2
    exact ⟨targets.get ⟨i, hlt i⟩, List.get_mem .., hpushed.sent_to a har⟩

/-- Every attempt of a push of upserts upserts records of the chunks. -/
theorem pushTargets_carries (http : Http W) (maxRetries : ℕ) (modeAt : ℕ → BatchMode)
    (hup : ∀ i, modeAt i = .upsert) (chunks : List (List BatchRecordInput))
    (targets : List PushTarget) (totals : PushTotals) (w : W) :
    ∀ a ∈ (pushTargets (journaled http) maxRetries modeAt chunks targets totals (w, [])).2.2,
      a.mode = .upsert ∧ ∀ r ∈ a.records, r ∈ chunks.flatten := by
  obtain ⟨reports, hreports, -, hlog⟩ :=
    pushTargets_journaled http maxRetries modeAt chunks targets totals w []
  rw [hlog, List.nil_append]
  intro a ha
  obtain ⟨report, hreport, ha⟩ := List.mem_flatMap.mp ha
  obtain ⟨i, rfl⟩ := List.mem_iff_get.mp hreport
  obtain ⟨hlength, hget⟩ := List.forall₂_iff_get.mp hreports
  have hi : i.1 < targets.length := by
    have := i.2
    omega
  obtain ⟨_, _, hpushed⟩ := hget i hi i.2
  exact hpushed.carries hup a ha

/-- The attempts at the vault of a target are a run of the target loop's body for it. -/
theorem pushTargets_target (http : Http W) (maxRetries : ℕ) (modeAt : ℕ → BatchMode)
    (chunks : List (List BatchRecordInput)) (targets : List PushTarget)
    (hdistinct : DistinctTargets targets) (totals : PushTotals) (w : W) (target : PushTarget)
    (htarget : target ∈ targets) :
    ∃ outcome w₀ w₁, TargetPushed http maxRetries modeAt chunks target w₀
      (attemptsToVault target.vaultId
        (pushTargets (journaled http) maxRetries modeAt chunks targets totals (w, [])).2.2)
      outcome w₁ := by
  obtain ⟨reports, hreports, -, hlog⟩ :=
    pushTargets_journaled http maxRetries modeAt chunks targets totals w []
  rw [List.nil_append] at hlog
  obtain ⟨hlength, hget⟩ := List.forall₂_iff_get.mp hreports
  obtain ⟨i, rfl⟩ := List.mem_iff_get.mp htarget
  have hi : i.1 < reports.length := by
    have := i.2
    omega
  obtain ⟨w₀, w₁, hpushed⟩ := hget i i.2 hi
  refine ⟨(reports.get ⟨i, hi⟩).1, w₀, w₁, ?_⟩
  rw [hlog]
  have hown := (List.forall₂_iff_get.mp (attemptsToVault_reports hreports hdistinct)).2 i i.2 hi
  exact hown ▸ hpushed

end SimplyIpSync.Jobs
