import SimplyIpSync.Jobs.Aggregation
import SimplyIpSync.Jobs.FullReplace

/-!
# The status of an ingestion run

What a run writes into its log row, against what the feeds and the targets saw.  A target is asked
address by address: it accepted an address if it answered some request that carried it with a
success.  Since the aggregated list repeats no address, this decides which chunks went through, and
`run_status_truthful` reads the status and the count of chunks off it.
-/

namespace SimplyIpSync.Jobs

open SimplyIpSync.Entities SimplyIpSync.Storage SimplyIpSync.Store SimplyIpSync.Client
open SimplyIpSync.Bogon SimplyIpSync.Jobs.ExternalIngestion SimplyIpSync.Jobs.Aggregation

variable {α W : Type*}

/-! ### How far a list of chunks was worked off -/

/-- The first `n` chunks are done, and of the next one, if there is any, a proper part. -/
def Reached (chunks : List (List α)) (n : ℕ) (done : List α) : Prop :=
  (n = chunks.length ∧ done = chunks.flatten) ∨
    ∃ part missing, missing ≠ [] ∧ chunks[n]? = some (part ++ missing) ∧
      done = (chunks.take n).flatten ++ part

theorem Reached.cons {chunks : List (List α)} {n : ℕ} {done : List α} (h : Reached chunks n done)
    (chunk : List α) : Reached (chunk :: chunks) (n + 1) (chunk ++ done) := by
  rcases h with ⟨rfl, rfl⟩ | ⟨part, missing, hmissing, hchunk, rfl⟩
  · exact .inl ⟨rfl, rfl⟩
  · refine .inr ⟨part, missing, hmissing, hchunk, ?_⟩
    rw [List.take_succ_cons, List.flatten_cons, List.append_assoc]

theorem Reached.of_cons {chunk : List α} {chunks : List (List α)} {n : ℕ} {done : List α}
    (h : Reached (chunk :: chunks) (n + 1) done) :
    ∃ rest, done = chunk ++ rest ∧ Reached chunks n rest := by
  rcases h with ⟨hn, rfl⟩ | ⟨part, missing, hmissing, hchunk, rfl⟩
  · exact ⟨chunks.flatten, rfl, .inl ⟨Nat.succ.inj hn, rfl⟩⟩
  · refine ⟨(chunks.take n).flatten ++ part, ?_, .inr ⟨part, missing, hmissing, hchunk, rfl⟩⟩
    rw [List.take_succ_cons, List.flatten_cons, List.append_assoc]

theorem Reached.map {β : Type*} {chunks : List (List α)} {n : ℕ} {done : List α}
    (h : Reached chunks n done) (f : α → β) :
    Reached (chunks.map (List.map f)) n (done.map f) := by
  rcases h with ⟨rfl, rfl⟩ | ⟨part, missing, hmissing, hchunk, rfl⟩
  · exact .inl ⟨(List.length_map _).symm, List.map_flatten⟩
  · refine .inr ⟨part.map f, missing.map f, by simpa using hmissing, ?_, ?_⟩
    · rw [List.getElem?_map, hchunk, Option.map_some, List.map_append]
    · rw [List.map_append, List.map_flatten, List.map_take]

/-- Every chunk is done exactly when the count says so. -/
theorem Reached.forall_mem_iff {chunks : List (List α)} {n : ℕ} {done : List α}
    (h : Reached chunks n done) (hnodup : chunks.flatten.Nodup) :
    (∀ a ∈ chunks.flatten, a ∈ done) ↔ n = chunks.length := by
  rcases h with ⟨rfl, rfl⟩ | ⟨part, missing, hmissing, hchunk, rfl⟩
  · exact iff_of_true (fun _ ha => ha) rfl
  · obtain ⟨hn, hget⟩ := List.getElem?_eq_some_iff.mp hchunk
    refine iff_of_false (fun hall => ?_) hn.ne
    have hsplit : chunks.flatten =
        ((chunks.take n).flatten ++ part) ++ (missing ++ (chunks.drop (n + 1)).flatten) := by
      conv_lhs => rw [← List.take_append_drop n chunks, List.drop_eq_getElem_cons hn, hget]
      simp
    rw [hsplit] at hall hnodup
    have hdisjoint := (List.nodup_append.mp hnodup).2.2
    obtain ⟨a, ha⟩ := List.exists_mem_of_ne_nil missing hmissing
    have hrest : a ∈ missing ++ (chunks.drop (n + 1)).flatten := List.mem_append_left _ ha
    exact hdisjoint a (hall a (List.mem_append_right _ hrest)) a hrest rfl

/-- The count is the number of the chunks that are done in full. -/
theorem Reached.countP [DecidableEq α] {chunks : List (List α)} {n : ℕ} {done : List α}
    (h : Reached chunks n done) (hne : ∀ chunk ∈ chunks, chunk ≠ [])
    (hnodup : chunks.flatten.Nodup) :
    chunks.countP (fun chunk => ∀ a ∈ chunk, a ∈ done) = n := by
  induction chunks generalizing n done with
  | nil =>
      rcases h with ⟨rfl, -⟩ | ⟨part, missing, -, hchunk, -⟩
      · rfl
      · cases hchunk
  | cons chunk chunks ih =>
      obtain ⟨-, hrest, hapart⟩ := List.nodup_append.mp (List.flatten_cons ▸ hnodup)
      have hne' : ∀ later ∈ chunks, later ≠ [] := fun later hlater =>
        hne later (List.mem_cons_of_mem _ hlater)
      -- a later chunk shares no element with this one
      have hlater : ∀ later ∈ chunks, ∀ a ∈ later, a ∉ chunk := fun later hlater a ha hmem =>
        hapart a hmem a (List.mem_flatten_of_mem hlater ha) rfl
      cases n with
      | zero =>
          rcases h with ⟨hzero, -⟩ | ⟨part, missing, hmissing, hchunk, hdone⟩
          · cases hzero
          · obtain rfl := Option.some.inj hchunk
            have hdone' : done = part := by simpa using hdone
            have hpart : ∀ a ∈ missing, a ∉ done := fun a ha hmem =>
              (List.nodup_append.mp (List.nodup_append.mp (List.flatten_cons ▸ hnodup)).1).2.2
                a (hdone' ▸ hmem) a ha rfl
            refine List.countP_eq_zero.mpr fun later hmem hall => ?_
            have hall' : ∀ a ∈ later, a ∈ done := by simpa using hall
            rcases List.mem_cons.mp hmem with rfl | hmem
            · obtain ⟨a, ha⟩ := List.exists_mem_of_ne_nil missing hmissing
              exact hpart a ha (hall' a (List.mem_append_right _ ha))
            · obtain ⟨a, ha⟩ := List.exists_mem_of_ne_nil later (hne' later hmem)
              have hin : a ∈ part := hdone' ▸ hall' a ha
              exact hlater later hmem a ha (List.mem_append_left _ hin)
      | succ n =>
          obtain ⟨done', rfl, hreached⟩ := h.of_cons
          have hchunk : ∀ a ∈ chunk, a ∈ chunk ++ done' := fun a ha => List.mem_append_left _ ha
          have hcongr : chunks.countP (fun later => ∀ a ∈ later, a ∈ chunk ++ done') =
              chunks.countP (fun later => ∀ a ∈ later, a ∈ done') := by
            refine List.countP_congr fun later hmem => ?_
            simp only [decide_eq_true_eq]
            refine forall₂_congr fun a ha => ?_
            rw [List.mem_append, or_iff_right (hlater later hmem a ha)]
          rw [List.countP_cons, hcongr, ih hreached hne' hrest, if_pos (decide_eq_true hchunk)]

/-! ### One target -/

section

variable {http : Http W} {maxRetries : ℕ} {vault : VaultEndpoint} {groupName : String}
  {modeAt : ℕ → BatchMode} {index : ℕ} {chunks : List (List BatchRecordInput)} {w w' : W}
  {trace : List Attempt} {out : ℕ × Option ClientError} {target : PushTarget}
  {outcome : TargetOutcome}

/-- The chunk loop works off as many chunks as it counts, and all of them unless it stops. -/
theorem ChunksPushed.reached
    (h : ChunksPushed http maxRetries vault groupName modeAt index chunks w trace out w')
    (hne : ∀ chunk ∈ chunks, chunk ≠ []) :
    Reached chunks out.1 (acceptedRecords trace) ∧ (out.2 = none ↔ out.1 = chunks.length) := by
  induction h with
  | done => exact ⟨.inl ⟨rfl, rfl⟩, iff_of_true rfl rfl⟩
  | @next index chunk chunks _ _ _ _ _ _ _ _ htrace _ ih =>
      obtain ⟨hreached, hnone⟩ := ih fun c hc => hne c (List.mem_cons_of_mem _ hc)
      have hrecords := (htrace.delivered _ rfl).1
      rw [queueRecords_cons, queueRecords_nil, List.append_nil] at hrecords
      refine ⟨?_, hnone.trans Nat.succ_inj.symm⟩
      rw [acceptedRecords_append, hrecords]
      exact hreached.cons chunk
  | @stop index chunk chunks _ trace e _ htrace =>
      have hchunks : NonemptyChunks [(chunk, modeAt index)] := by
        intro c hc
        rw [List.mem_singleton.mp hc]
        exact hne chunk List.mem_cons_self
      obtain ⟨missing, hmissing, heq⟩ := htrace.undelivered hchunks e rfl
      rw [queueRecords_cons, queueRecords_nil, List.append_nil] at heq
      refine ⟨.inr ⟨acceptedRecords trace, missing, hmissing, ?_, rfl⟩, by simp⟩
      rw [heq]
      rfl

/-- The number of chunks that went through. -/
def TargetOutcome.sent : TargetOutcome → ℕ
  | .missing => 0
  | .pushed sent _ => sent

/-- What a target's outcome says, in terms of the addresses it accepted. -/
theorem TargetPushed.outcome_spec {aggregated : List String} (hnodup : aggregated.Nodup)
    (h : TargetPushed http maxRetries modeAt (pushedChunks aggregated) target w trace outcome w') :
    outcome.sent = (chunkRecords aggregated maxBatchSize).countP
        (fun chunk => ∀ a ∈ chunk, a ∈ addresses (acceptedRecords trace)) ∧
      (outcome.isComplete ↔
        target.vault.isSome ∧ ∀ a ∈ aggregated, a ∈ addresses (acceptedRecords trace)) := by
  have hflatten : (chunkRecords aggregated maxBatchSize).flatten = aggregated :=
    flatten_chunkRecords (by decide) aggregated
  have hne : ∀ chunk ∈ chunkRecords aggregated maxBatchSize, chunk ≠ [] := fun _ =>
    ne_nil_of_mem_chunkRecords
  cases h with
  | missing hvault =>
      refine ⟨?_, by simp [TargetOutcome.isComplete, hvault]⟩
      refine (List.countP_eq_zero.mpr fun chunk hchunk hall => ?_).symm
      obtain ⟨a, ha⟩ := List.exists_mem_of_ne_nil chunk (hne chunk hchunk)
      exact absurd (of_decide_eq_true hall a ha) List.not_mem_nil
  | @pushed vault _ _ sent error _ hvault hpushed =>
      obtain ⟨hreached, hnone⟩ := hpushed.reached (pushedChunks_ne_nil aggregated)
      have haddresses : (pushedChunks aggregated).map (List.map BatchRecordInput.targetAddress) =
          chunkRecords aggregated maxBatchSize := by
        rw [pushedChunks, List.map_map]
        conv_rhs => rw [← List.map_id (chunkRecords aggregated maxBatchSize)]
        refine List.map_congr_left fun chunk _ => ?_
        rw [Function.comp_apply, List.map_map]
        exact List.map_id chunk
      have hmapped := hreached.map BatchRecordInput.targetAddress
      rw [haddresses] at hmapped
      have hcount := hmapped.countP hne (hflatten.symm ▸ hnodup)
      have hall := hmapped.forall_mem_iff (hflatten.symm ▸ hnodup)
      refine ⟨hcount.symm, ?_⟩
      rw [hflatten] at hall
      have hlength : (pushedChunks aggregated).length =
          (chunkRecords aggregated maxBatchSize).length := by
        rw [pushedChunks, List.length_map]
      rw [hvault, addresses, hall, ← hlength, ← hnone]
      cases error <;> simp [TargetOutcome.isComplete]

end

/-! ### All targets -/

/-- The target answered with a success a request that carried the address. -/
def AcceptedBy (attempts : List Attempt) (target : PushTarget) (a : String) : Prop :=
  ∃ attempt ∈ attempts, attempt.isAccepted = true ∧ target.vault = some attempt.endpoint ∧
    attempt.groupName = target.groupName ∧ a ∈ addresses attempt.records

instance acceptedByDecidable (attempts : List Attempt) (target : PushTarget) (a : String) :
    Decidable (AcceptedBy attempts target a) :=
  inferInstanceAs (Decidable (∃ attempt ∈ attempts, _))

/-- The vault of the target exists and accepted the whole list. -/
def TookList (attempts : List Attempt) (aggregated : List String) (target : PushTarget) : Prop :=
  target.vault.isSome ∧ ∀ a ∈ aggregated, AcceptedBy attempts target a

/-- The chunks of the list that a target accepted in full. -/
def chunksAccepted (attempts : List Attempt) (aggregated : List String) (target : PushTarget) : ℕ :=
  (chunkRecords aggregated maxBatchSize).countP fun chunk =>
    ∀ a ∈ chunk, AcceptedBy attempts target a

section

variable {http : Http W} {maxRetries : ℕ} {modeAt : ℕ → BatchMode}
  {chunks : List (List BatchRecordInput)} {targets : List PushTarget} {reports : PushReports}
  {attempts : List Attempt} {aggregated : List String} {target : PushTarget}
  {outcome : TargetOutcome} {w w' : W}

theorem acceptedBy_iff
    (h : TargetPushed http maxRetries modeAt chunks target w
      (attemptsToVault target.vaultId attempts) outcome w')
    (hid : ∀ vault, target.vault = some vault → vault.id = target.vaultId) (a : String) :
    AcceptedBy attempts target a ↔
      a ∈ addresses (acceptedRecords (attemptsToVault target.vaultId attempts)) := by
  rw [AcceptedBy, acceptedRecords, addresses, List.map_flatMap, List.mem_flatMap]
  constructor
  · rintro ⟨attempt, hattempt, haccepted, hvault, -, ha⟩
    have hown : attempt ∈ attemptsToVault target.vaultId attempts :=
      List.mem_filter.mpr ⟨hattempt, decide_eq_true (hid _ hvault)⟩
    exact ⟨attempt, List.mem_filter.mpr ⟨hown, haccepted⟩, ha⟩
  · rintro ⟨attempt, hattempt, ha⟩
    obtain ⟨hown, haccepted⟩ := List.mem_filter.mp hattempt
    obtain ⟨hvault, hgroup⟩ := h.sent_to attempt hown
    exact ⟨attempt, (List.mem_filter.mp hown).1, haccepted, hvault, hgroup, ha⟩

theorem PushTotals.addAll_chunksSent (hlength : targets.length = reports.length)
    (totals : PushTotals) :
    (totals.addAll targets reports).chunksSent =
      totals.chunksSent + (reports.map fun report => report.1.sent).sum := by
  induction targets generalizing reports totals with
  | nil =>
      obtain rfl := List.eq_nil_of_length_eq_zero hlength.symm
      rfl
  | cons target targets ih =>
      cases reports with
      | nil => cases hlength
      | cons report reports =>
          have hadd : (totals.add target report.1).chunksSent =
              totals.chunksSent + report.1.sent := by
            cases report.1 with
            | missing => rfl
            | pushed sent error => cases error <;> rfl
          show ((totals.add target report.1).addAll targets reports).chunksSent = _
          rw [ih (Nat.succ.inj hlength), hadd, List.map_cons, List.sum_cons, Nat.add_assoc]

/-- **What a push of the list says**, address by address: which targets took it, and how many
chunks went through. -/
theorem pushTargets_counts (http : Http W) (maxRetries : ℕ) (modeAt : ℕ → BatchMode)
    (hnodup : aggregated.Nodup) (hdistinct : DistinctTargets targets) (totals : PushTotals)
    (w : W) (hattempts : attempts = (pushTargets (journaled http) maxRetries modeAt
      (pushedChunks aggregated) targets totals (w, [])).2.2) :
    (∀ target ∈ targets, TookEverything (pushedChunks aggregated) attempts target ↔
      TookList attempts aggregated target) ∧
    (pushTargets (journaled http) maxRetries modeAt (pushedChunks aggregated) targets totals
        (w, [])).1.chunksSent =
      totals.chunksSent + (targets.map (chunksAccepted attempts aggregated)).sum := by
  obtain ⟨reports, hreports, htotals, hlog⟩ :=
    pushTargets_journaled http maxRetries modeAt (pushedChunks aggregated) targets totals w []
  rw [List.nil_append] at hlog
  rw [hlog] at hattempts
  obtain ⟨hlength, hget⟩ := List.forall₂_iff_get.mp hreports
  have hown := (List.forall₂_iff_get.mp (attemptsToVault_reports hreports hdistinct)).2
  rw [← hattempts] at hown
  have hspec : ∀ i (h₁ : i < targets.length) (h₂ : i < reports.length),
      (reports.get ⟨i, h₂⟩).1.sent = chunksAccepted attempts aggregated (targets.get ⟨i, h₁⟩) ∧
      (TookEverything (pushedChunks aggregated) attempts (targets.get ⟨i, h₁⟩) ↔
        TookList attempts aggregated (targets.get ⟨i, h₁⟩)) := by
    intro i h₁ h₂
    obtain ⟨_, _, hpushed⟩ := hget i h₁ h₂
    rw [← hown i h₁ h₂] at hpushed
    have haccepted := acceptedBy_iff hpushed (hdistinct.vault_id _ (List.get_mem ..))
    obtain ⟨hsent, hcomplete⟩ := hpushed.outcome_spec hnodup
    constructor
    · rw [hsent, chunksAccepted]
      simp only [haccepted]
    · rw [TookEverything, ← hpushed.complete_iff (pushedChunks_ne_nil _), hcomplete, TookList]
      simp only [haccepted]
  constructor
  · intro target htarget
    obtain ⟨i, rfl⟩ := List.mem_iff_get.mp htarget
    exact (hspec i i.2 (hlength ▸ i.2)).2
  · have hmap : reports.map (fun report => report.1.sent) =
        targets.map (chunksAccepted attempts aggregated) := by
      refine List.ext_getElem (by simp [hlength]) fun i h₁ h₂ => ?_
      rw [List.getElem_map, List.getElem_map]
      exact (hspec i (by simpa using h₂) (by simpa using h₁)).1
    rw [htotals, PushTotals.addAll_chunksSent hlength, hmap]

end

/-! ### The run -/

theorem isError_resultOf {fetch : ExternalSource → FetchOutcome} {feed : ExternalSource} :
    (resultOf fetch feed).isError = true ↔ FeedFails fetch feed := by
  rw [resultOf, FeedFails]
  cases fetch feed with
  | panicked joinErr => exact iff_of_true rfl fun records h => by cases h
  | finished records =>
      cases records with
      | error e => exact iff_of_true rfl fun records h => by cases h
      | ok records => exact iff_of_false Bool.false_ne_true fun h => h records rfl

section

variable {parse : String → Option IpNetwork} {group : DestinationGroup}
  {feeds : List ExternalSource} {fetch : ExternalSource → FetchOutcome} {clock : ℕ → ℤ}
  {agg : Aggregate}

/-- The error list counts the failed feeds. -/
theorem feedErrors_length (h : aggregate parse group feeds fetch clock = some agg) :
    agg.feedErrors.length = feeds.countP fun feed => (resultOf fetch feed).isError := by
  have hcount := mergeFeeds_feedErrors h
  rw [fetchAllFeedsConcurrently_eq, List.countP_map, List.length_nil, Nat.zero_add] at hcount
  exact hcount

theorem feedErrors_eq_nil_iff (h : aggregate parse group feeds fetch clock = some agg) :
    agg.feedErrors = [] ↔ ∀ feed ∈ feeds, ¬ FeedFails fetch feed := by
  rw [← List.length_eq_zero_iff, feedErrors_length h, List.countP_eq_zero]
  simp only [isError_resultOf]

theorem allFeedsFailed_iff (h : aggregate parse group feeds fetch clock = some agg) :
    (!feeds.isEmpty && agg.feedErrors.length == feeds.length) = true ↔
      feeds ≠ [] ∧ ∀ feed ∈ feeds, FeedFails fetch feed := by
  rw [Bool.and_eq_true, Bool.not_eq_true', List.isEmpty_eq_false_iff, beq_iff_eq,
    feedErrors_length h, List.countP_eq_length]
  simp only [isError_resultOf]

end

theorem statusOf_eq_success_iff {allFeedsFailed : Bool} {totals : PushTotals} {items : ℕ} :
    statusOf allFeedsFailed totals items = .success ↔
      allFeedsFailed = false ∧ totals.errors = [] ∧ items ≠ 0 := by
  rw [statusOf]
  cases allFeedsFailed with
  | true => simp
  | false =>
      by_cases herrors : totals.errors = []
      · by_cases hitems : items = 0 <;> simp [herrors, hitems]
      · cases hany : totals.anySuccess <;> simp [herrors]

theorem statusOf_eq_failed_iff {allFeedsFailed : Bool} {totals : PushTotals} {items : ℕ} :
    statusOf allFeedsFailed totals items = .failed ↔
      allFeedsFailed = true ∨ (totals.errors ≠ [] ∧ totals.anySuccess = false) := by
  rw [statusOf]
  cases allFeedsFailed with
  | true => simp
  | false =>
      by_cases herrors : totals.errors = []
      · by_cases hitems : items = 0 <;> simp [herrors, hitems]
      · cases hany : totals.anySuccess <;> simp [herrors]

section

variable (feeds : List ExternalSource) (fetch : ExternalSource → FetchOutcome)
  (targets : List PushTarget) (aggregated : List String) (attempts : List Attempt)

/-- No feed failed, no vault is missing, and every target accepted every address of a list that
holds some. -/
def Succeeds : Prop :=
  (∀ feed ∈ feeds, ¬ FeedFails fetch feed) ∧ (∀ target ∈ targets, target.vault.isSome) ∧
    aggregated ≠ [] ∧ ∀ target ∈ targets, ∀ a ∈ aggregated, AcceptedBy attempts target a

/-- Some feed failed, some vault is missing, or some vault did not accept every address. -/
def SomethingFails : Prop :=
  (∃ feed ∈ feeds, FeedFails fetch feed) ∨ (∃ target ∈ targets, target.vault = none) ∨
    ∃ target ∈ targets, target.vault.isSome ∧ ∃ a ∈ aggregated, ¬ AcceptedBy attempts target a

/-- All feeds failed, or something failed and none of the targets took the whole list. -/
def Fails : Prop :=
  (feeds ≠ [] ∧ ∀ feed ∈ feeds, FeedFails fetch feed) ∨
    (SomethingFails feeds fetch targets aggregated attempts ∧ targets ≠ [] ∧
      ∀ target ∈ targets, ¬ TookList attempts aggregated target)

/-- The summary of a run says what happened. -/
structure Truthful (summary : JobSummary) : Prop where
  success_iff : summary.status = .success ↔ Succeeds feeds fetch targets aggregated attempts
  failed_iff : summary.status = .failed ↔ Fails feeds fetch targets aggregated attempts
  partial_iff : summary.status = .partialSuccess ↔
    ¬ Succeeds feeds fetch targets aggregated attempts ∧
      ¬ Fails feeds fetch targets aggregated attempts
  chunksSent_eq : summary.chunksSent =
    (targets.map (chunksAccepted attempts aggregated)).sum

variable {feeds fetch targets aggregated attempts}

theorem somethingFails_iff : SomethingFails feeds fetch targets aggregated attempts ↔
    ¬ ((∀ feed ∈ feeds, ¬ FeedFails fetch feed) ∧
      ∀ target ∈ targets, TookList attempts aggregated target) := by
  rw [SomethingFails, ← exists_or]
  simp only [TookList, not_and_or, not_forall, not_not, exists_prop, Option.not_isSome_iff_eq_none]
  refine or_congr_right (exists_congr fun target => ?_)
  rw [← and_or_left]
  refine and_congr_right fun _ => ?_
  cases target.vault <;> simp

end

/-- The status computed from exact totals. -/
theorem truthful_of_totals {parse : String → Option IpNetwork} {group : DestinationGroup}
    {feeds : List ExternalSource} {fetch : ExternalSource → FetchOutcome} {clock : ℕ → ℤ}
    {agg : Aggregate} {targets : List PushTarget} {attempts : List Attempt} {totals : PushTotals}
    {summary : JobSummary}
    (hagg : aggregate parse group feeds fetch clock = some agg)
    (herrors : totals.errors = [] ↔
      agg.feedErrors = [] ∧ ∀ target ∈ targets, TookList attempts agg.aggregated target)
    (hany : totals.anySuccess = true ↔
      targets.isEmpty = true ∨ ∃ target ∈ targets, TookList attempts agg.aggregated target)
    (hstatus : summary.status = statusOf
      (!feeds.isEmpty && agg.feedErrors.length == feeds.length) totals agg.aggregated.length)
    (hsent : summary.chunksSent = (targets.map (chunksAccepted attempts agg.aggregated)).sum) :
    Truthful feeds fetch targets agg.aggregated attempts summary := by
  have hall := allFeedsFailed_iff hagg
  rw [feedErrors_eq_nil_iff hagg] at herrors
  have hsuccess : summary.status = .success ↔
      Succeeds feeds fetch targets agg.aggregated attempts := by
    have hitems : agg.aggregated.length ≠ 0 ↔ agg.aggregated ≠ [] := List.length_eq_zero_iff.not
    rw [hstatus, statusOf_eq_success_iff, herrors, ← Bool.not_eq_true, hall, hitems, Succeeds]
    constructor
    · rintro ⟨-, ⟨hfeeds, htook⟩, hne⟩
      exact ⟨hfeeds, fun t ht => (htook t ht).1, hne, fun t ht => (htook t ht).2⟩
    · rintro ⟨hfeeds, hvaults, hne, haccepted⟩
      refine ⟨?_, ⟨hfeeds, fun t ht => ⟨hvaults t ht, haccepted t ht⟩⟩, hne⟩
      rintro ⟨hsome, hfailed⟩
      obtain ⟨feed, hfeed⟩ := List.exists_mem_of_ne_nil feeds hsome
      exact hfeeds feed hfeed (hfailed feed hfeed)
  have hfailed : summary.status = .failed ↔
      Fails feeds fetch targets agg.aggregated attempts := by
    have hnone : totals.anySuccess = false ↔
        targets ≠ [] ∧ ∀ target ∈ targets, ¬ TookList attempts agg.aggregated target := by
      rw [← Bool.not_eq_true, hany, not_or, List.isEmpty_iff]
      simp only [not_exists, not_and]
    rw [hstatus, statusOf_eq_failed_iff, hall, Fails, somethingFails_iff, ← herrors, hnone]
  refine ⟨hsuccess, hfailed, ?_, hsent⟩
  rw [← hsuccess, ← hfailed]
  cases summary.status <;> simp

/-- A run over an aggregated list is logged truthfully. -/
theorem run_truthful (http : Http W) (parse : String → Option IpNetwork) (maxRetries : ℕ)
    {fetch : ExternalSource → FetchOutcome} {clock : ℕ → ℤ} (startedAt : ℤ) {db : Db}
    {group : DestinationGroup} (hgroup : db.destinationGroups.find? group.id = some group) (w : W)
    {agg : Aggregate} (hagg : aggregate parse group (feedsOf db group.id) fetch clock = some agg) :
    ∃ summary db' w' attempts,
      run (journaled http) parse maxRetries fetch clock startedAt group.id db (w, []) =
        some (.ok summary, db', w', attempts) ∧
      Truthful (feedsOf db group.id) fetch (targetsOf db group) agg.aggregated attempts summary := by
  obtain ⟨hnodup, -⟩ := Dedup.aggregate_spec hagg
  have hdistinct := targetsOf_distinct db group
  rw [run]
  simp only [hgroup, execute, hagg, Option.map_some]
  refine ⟨_, _, _, _, rfl, ?_⟩
  have hexact := pushTargets_exact http maxRetries (modeForChunkIndex (baseMode group)) _
    (pushedChunks_ne_nil agg.aggregated) (targetsOf db group) hdistinct
    (initialTotals agg.feedErrors (targetsOf db group)) w
  obtain ⟨htook, hsent⟩ := pushTargets_counts http maxRetries (modeForChunkIndex (baseMode group))
    hnodup hdistinct (initialTotals agg.feedErrors (targetsOf db group)) w rfl
  refine truthful_of_totals hagg ?_ ?_ rfl (hsent.trans (Nat.zero_add _))
  · rw [hexact.errors_iff]
    exact and_congr_right fun _ => forall₂_congr htook
  · rw [hexact.anySuccess_iff]
    exact or_congr_right (exists_congr fun target => and_congr_right (htook target))

/-- **The status of a run tells the truth,** and so does its count of chunks.  For feeds with
distinct names there is a list to speak of unless an age limit leaves the dates, and the run panics
there. -/
theorem run_status_truthful (http : Http W) (parse : String → Option IpNetwork) (maxRetries : ℕ)
    (fetch : ExternalSource → FetchOutcome) (clock : ℕ → ℤ) (startedAt : ℤ) (db : Db)
    (group : DestinationGroup) (hgroup : db.destinationGroups.find? group.id = some group)
    (w : W) :
    (∀ agg, aggregate parse group (feedsOf db group.id) fetch clock = some agg →
      ∃ summary db' w' attempts,
        run (journaled http) parse maxRetries fetch clock startedAt group.id db (w, []) =
          some (.ok summary, db', w', attempts) ∧
        Truthful (feedsOf db group.id) fetch (targetsOf db group) agg.aggregated attempts
          summary) ∧
    (((feedsOf db group.id).map ExternalSource.name).Nodup →
      ((aggregate parse group (feedsOf db group.id) fetch clock).isSome ↔
        AllWithinDates fetch (readingOf (feedsOf db group.id) clock) (feedsOf db group.id))) := by
  constructor
  · intro agg hagg
    exact run_truthful http parse maxRetries startedAt hgroup w hagg
  · intro hnames
    exact aggregate_isSome_iff parse group fetch hnames clock

/-- The one target takes the first of two addresses and then fails: the run is `FAILED` and counts
no chunk. -/
theorem run_status_truthful_of_one :
    ∃ summary db' w' attempts,
      run (journaled takesOneRecord) parsePublic 3 fetchBoth (fun _ => 0) 1000 perimeterGroup.id
          twoFeedDb (0, []) = some (.ok summary, db', w', attempts) ∧
        summary.status = .failed ∧ summary.chunksSent = 0 ∧
        Fails (feedsOf twoFeedDb perimeterGroup.id) fetchBoth (targetsOf twoFeedDb perimeterGroup)
          ["8.8.8.8/32", "1.1.1.1/32"] attempts := by
  have hvalue : ((run (journaled takesOneRecord) parsePublic 3 fetchBoth (fun _ => 0) 1000
      perimeterGroup.id twoFeedDb (0, [])).bind fun out => out.1.toOption.map fun summary =>
        (summary.status, summary.chunksSent)) = some (.failed, 0) := by
    decide +kernel
  obtain ⟨summary, db', w', attempts, hrun, htruth⟩ := run_status_truthful takesOneRecord
    parsePublic 3 fetchBoth (fun _ => 0) 1000 twoFeedDb perimeterGroup (by decide) 0 |>.1
    ⟨["8.8.8.8/32", "1.1.1.1/32"], [], 0⟩ (by decide +kernel)
  rw [hrun] at hvalue
  obtain ⟨hstatus, hsent⟩ := Prod.mk.inj (Option.some.inj hvalue)
  exact ⟨summary, db', w', attempts, hrun, hstatus, hsent, htruth.failed_iff.mp hstatus⟩

end SimplyIpSync.Jobs
