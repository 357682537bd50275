import SimplyIpSync.Client.Delivery

/-!
# Chunking and the push loops (`src/jobs/mod.rs`)

`chunkRecords`, `modeForChunkIndex` and the two nested loops with which both pipelines deliver
their chunks: over the targets, and within a target over the chunks, stopping at the first chunk
that fails.  `vault_sync.rs` and `external_ingestion.rs` write these loops out separately; they
differ in the mode of a chunk only, so they are one definition here with the mode as a parameter.

What the loops do is said once, by the relations `ChunksPushed` and `TargetPushed`, which build on
`Drained`; `pushTargets_journaled` connects them to the functions and to the journal.  The module
ends with the facts about one target that both pipelines use: where its requests went, with which
modes, and that it is complete exactly when it accepted every chunk.
-/

namespace SimplyIpSync.Jobs

open SimplyIpSync.Entities SimplyIpSync.Client

variable {W α : Type*}

/-! ### Chunks -/

/-- `MAX_BATCH_SIZE`. -/
def maxBatchSize : ℕ := 5000

/-- `chunk_records`: take up to `max` items at a time until nothing is left. -/
def chunkRecords (items : List α) (max : ℕ) : List (List α) :=
  match _htake : items.take max with
  | [] => []
  | item :: rest => (item :: rest) :: chunkRecords (items.drop max) max
termination_by items.length
decreasing_by
  have hlength := congrArg List.length _htake
  simp only [List.length_take, List.length_cons, List.length_drop] at hlength ⊢
  omega

theorem chunkRecords_of_take_eq_nil {items : List α} {max : ℕ} (h : items.take max = []) :
    chunkRecords items max = [] := by
  rw [chunkRecords]
  split
  · rfl
  · simp_all

theorem chunkRecords_of_take_ne_nil {items : List α} {max : ℕ} (h : items.take max ≠ []) :
    chunkRecords items max = items.take max :: chunkRecords (items.drop max) max := by
  rw [chunkRecords]
  split
  · contradiction
  · simp_all

/-- The chunks read the list, as long as a chunk may hold something. -/
theorem flatten_chunkRecords {max : ℕ} (hmax : 0 < max) (items : List α) :
    (chunkRecords items max).flatten = items := by
  induction hn : items.length using Nat.strong_induction_on generalizing items with
  | _ n ih =>
      by_cases htake : items.take max = []
      · rw [chunkRecords_of_take_eq_nil htake, List.flatten_nil]
        rcases List.take_eq_nil_iff.mp htake with hzero | hnil
        · omega
        · exact hnil.symm
      · have hpos : 0 < (items.take max).length := List.length_pos_iff.mpr htake
        rw [List.length_take] at hpos
        rw [chunkRecords_of_take_ne_nil htake, List.flatten_cons,
          ih (items.drop max).length (by rw [List.length_drop]; omega) _ rfl,
          List.take_append_drop]

/-- No chunk is empty. -/
theorem ne_nil_of_mem_chunkRecords {max : ℕ} {items chunk : List α}
    (h : chunk ∈ chunkRecords items max) : chunk ≠ [] := by
  induction hn : items.length using Nat.strong_induction_on generalizing items with
  | _ n ih =>
      by_cases htake : items.take max = []
      · rw [chunkRecords_of_take_eq_nil htake] at h
        simp at h
      · have hpos : 0 < (items.take max).length := List.length_pos_iff.mpr htake
        rw [List.length_take] at hpos
        rw [chunkRecords_of_take_ne_nil htake] at h
        rcases List.mem_cons.mp h with rfl | h
        · exact htake
        · exact ih (items.drop max).length (by rw [List.length_drop]; omega) h rfl

/-- `mode_for_chunk_index`: every chunk after the first is an upsert. -/
def modeForChunkIndex (baseMode : BatchMode) (chunkIndex : ℕ) : BatchMode :=
  if chunkIndex = 0 then baseMode else .upsert

/-! ### The loops -/

/-- One configured target: its row, the group name that applies, and the endpoint if it still
exists. -/
structure PushTarget where
  vaultId : Uuid
  groupName : String
  vault : Option VaultEndpoint

/-- The chunk loop of one target: the number of chunks accepted, and the error that stopped it. -/
def pushChunks (http : Http W) (maxRetries : ℕ) (vault : VaultEndpoint) (groupName : String)
    (modeAt : ℕ → BatchMode) : ℕ → List (List BatchRecordInput) → W →
      (ℕ × Option ClientError) × W
  | _, [], w => ((0, none), w)
  | index, chunk :: chunks, w =>
      match postBatch http maxRetries vault groupName chunk (modeAt index) w with
      | (.ok _, w) =>
          let out := pushChunks http maxRetries vault groupName modeAt (index + 1) chunks w
          ((out.1.1 + 1, out.1.2), out.2)
      | (.error e, w) => ((0, some e), w)

/-- How the push to one target ended. -/
inductive TargetOutcome
  | missing
  | pushed (sent : ℕ) (error : Option ClientError)

/-- The body of the target loop. -/
def pushTarget (http : Http W) (maxRetries : ℕ) (modeAt : ℕ → BatchMode)
    (chunks : List (List BatchRecordInput)) (target : PushTarget) (w : W) : TargetOutcome × W :=
  match target.vault with
  | none => (.missing, w)
  | some vault =>
      let out := pushChunks http maxRetries vault target.groupName modeAt 0 chunks w
      (.pushed out.1.1 out.1.2, out.2)

/-- The flags and counters of the target loop.  `allSucceeded` is kept by `vault_sync.rs` only. -/
structure PushTotals where
  chunksSent : ℕ
  errors : List String
  anySuccess : Bool
  allSucceeded : Bool

/-- What the loop does to its counters after a target. -/
def PushTotals.add (totals : PushTotals) (target : PushTarget) : TargetOutcome → PushTotals
  | .missing =>
      { totals with
        errors := totals.errors ++ ["target vault " ++ toString target.vaultId ++
          " no longer exists"]
        allSucceeded := false }
  | .pushed sent none =>
      { totals with chunksSent := totals.chunksSent + sent, anySuccess := true }
  | .pushed sent (some e) =>
      { totals with
        chunksSent := totals.chunksSent + sent
        errors := totals.errors ++
          ["vault '" ++ (target.vault.map VaultEndpoint.name).getD "" ++ "': " ++ e.display]
        allSucceeded := false }

/-- The target loop. -/
def pushTargets (http : Http W) (maxRetries : ℕ) (modeAt : ℕ → BatchMode)
    (chunks : List (List BatchRecordInput)) : List PushTarget → PushTotals → W → PushTotals × W
  | [], totals, w => (totals, w)
  | target :: targets, totals, w =>
      let out := pushTarget http maxRetries modeAt chunks target w
      pushTargets http maxRetries modeAt chunks targets (totals.add target out.1) out.2

/-! ### What the loops do -/

/-- The target accepted every chunk. -/
def TargetOutcome.isComplete : TargetOutcome → Bool
  | .pushed _ none => true
  | _ => false

/-- A run of the chunk loop from chunk `index` on: the attempts made, the number of chunks
accepted with the error that stopped it, and the worlds before and after. -/
inductive ChunksPushed (http : Http W) (maxRetries : ℕ) (vault : VaultEndpoint)
    (groupName : String) (modeAt : ℕ → BatchMode) :
    ℕ → List (List BatchRecordInput) → W → List Attempt → ℕ × Option ClientError → W → Prop
  | done {index w} : ChunksPushed http maxRetries vault groupName modeAt index [] w [] (0, none) w
  | next {index chunk chunks w trace resp w₁ rest sent error w'} :
      Drained http maxRetries vault groupName [(chunk, modeAt index)] .default w trace (.ok resp)
        w₁ →
      ChunksPushed http maxRetries vault groupName modeAt (index + 1) chunks w₁ rest (sent, error)
        w' →
      ChunksPushed http maxRetries vault groupName modeAt index (chunk :: chunks) w
        (trace ++ rest) (sent + 1, error) w'
  | stop {index chunk chunks w trace e w₁} :
      Drained http maxRetries vault groupName [(chunk, modeAt index)] .default w trace (.error e)
        w₁ →
      ChunksPushed http maxRetries vault groupName modeAt index (chunk :: chunks) w trace
        (0, some e) w₁

/-- A run of the body of the target loop. -/
inductive TargetPushed (http : Http W) (maxRetries : ℕ) (modeAt : ℕ → BatchMode)
    (chunks : List (List BatchRecordInput)) (target : PushTarget) :
    W → List Attempt → TargetOutcome → W → Prop
  | missing {w} : target.vault = none →
      TargetPushed http maxRetries modeAt chunks target w [] .missing w
  | pushed {vault w trace sent error w'} : target.vault = some vault →
      ChunksPushed http maxRetries vault target.groupName modeAt 0 chunks w trace (sent, error) w' →
      TargetPushed http maxRetries modeAt chunks target w trace (.pushed sent error) w'

/-- The reports of a whole push: for each target its outcome and the attempts made at it. -/
abbrev PushReports := List (TargetOutcome × List Attempt)

/-- The totals of a push, from the outcomes in the order of the targets. -/
def PushTotals.addAll (totals : PushTotals) (targets : List PushTarget)
    (reports : PushReports) : PushTotals :=
  (targets.zip reports).foldl (fun totals tr => totals.add tr.1 tr.2.1) totals

/-- The target and its report belong together. -/
def Reported (http : Http W) (maxRetries : ℕ) (modeAt : ℕ → BatchMode)
    (chunks : List (List BatchRecordInput)) (target : PushTarget)
    (report : TargetOutcome × List Attempt) : Prop :=
  ∃ w w', TargetPushed http maxRetries modeAt chunks target w report.2 report.1 w'

section

variable (http : Http W) (maxRetries : ℕ) (modeAt : ℕ → BatchMode)

/-- **The chunk loop does what `ChunksPushed` says,** and the journal logs its attempts. -/
theorem pushChunks_journaled (vault : VaultEndpoint) (groupName : String) (index : ℕ)
    (chunks : List (List BatchRecordInput)) (w : W) (log : List Attempt) :
    ∃ trace,
      ChunksPushed http maxRetries vault groupName modeAt index chunks w trace
        (pushChunks http maxRetries vault groupName modeAt index chunks w).1
        (pushChunks http maxRetries vault groupName modeAt index chunks w).2 ∧
      pushChunks (journaled http) maxRetries vault groupName modeAt index chunks (w, log) =
        ((pushChunks http maxRetries vault groupName modeAt index chunks w).1,
          (pushChunks http maxRetries vault groupName modeAt index chunks w).2, log ++ trace) := by
  induction chunks generalizing index w log with
  | nil => exact ⟨[], ChunksPushed.done, by simp [pushChunks]⟩
  | cons chunk chunks ih =>
      obtain ⟨trace, htrace, hrun⟩ := postBatch_journaled http maxRetries vault groupName chunk
        (modeAt index) w log
      rcases hout : postBatch http maxRetries vault groupName chunk (modeAt index) w with
        ⟨result, w₁⟩
      rw [hout] at hrun htrace
      cases result with
      | error e =>
          refine ⟨trace, ?_, by simp only [pushChunks, hrun, hout]⟩
          simp only [pushChunks, hout]
          exact ChunksPushed.stop htrace
      | ok resp =>
          obtain ⟨rest, hrest, hrestRun⟩ := ih (index + 1) w₁ (log ++ trace)
          refine ⟨trace ++ rest, ?_, ?_⟩
          · simp only [pushChunks, hout]
            exact ChunksPushed.next htrace hrest
          · simp only [pushChunks, hrun, hout, hrestRun, List.append_assoc]

theorem pushTarget_journaled (chunks : List (List BatchRecordInput)) (target : PushTarget) (w : W)
    (log : List Attempt) :
    ∃ trace,
      TargetPushed http maxRetries modeAt chunks target w trace
        (pushTarget http maxRetries modeAt chunks target w).1
        (pushTarget http maxRetries modeAt chunks target w).2 ∧
      pushTarget (journaled http) maxRetries modeAt chunks target (w, log) =
        ((pushTarget http maxRetries modeAt chunks target w).1,
          (pushTarget http maxRetries modeAt chunks target w).2, log ++ trace) := by
  cases hvault : target.vault with
  | none =>
      refine ⟨[], ?_, by simp [pushTarget, hvault]⟩
      simp only [pushTarget, hvault]
      exact TargetPushed.missing hvault
  | some vault =>
      obtain ⟨trace, htrace, hrun⟩ :=
        pushChunks_journaled http maxRetries modeAt vault target.groupName 0 chunks w log
      refine ⟨trace, ?_, by simp only [pushTarget, hvault, hrun]⟩
      simp only [pushTarget, hvault]
      exact TargetPushed.pushed hvault htrace

/-- **Target loop.**  The targets are served one after the other, and each leaves a report. -/
theorem pushTargets_journaled (chunks : List (List BatchRecordInput)) (targets : List PushTarget)
    (totals : PushTotals) (w : W) (log : List Attempt) :
    ∃ reports : PushReports,
      List.Forall₂ (Reported http maxRetries modeAt chunks) targets reports ∧
      (pushTargets (journaled http) maxRetries modeAt chunks targets totals (w, log)).1 =
        totals.addAll targets reports ∧
      (pushTargets (journaled http) maxRetries modeAt chunks targets totals (w, log)).2.2 =
        log ++ reports.flatMap Prod.snd := by
  induction targets generalizing totals w log with
  | nil => exact ⟨[], List.Forall₂.nil, rfl, by simp [pushTargets]⟩
  | cons target targets ih =>
      obtain ⟨trace, htrace, hrun⟩ := pushTarget_journaled http maxRetries modeAt chunks target w log
      obtain ⟨reports, hreports, htotals, hlog⟩ :=
        ih (totals.add target (pushTarget http maxRetries modeAt chunks target w).1)
          (pushTarget http maxRetries modeAt chunks target w).2 (log ++ trace)
      refine ⟨((pushTarget http maxRetries modeAt chunks target w).1, trace) :: reports,
        List.Forall₂.cons ⟨_, _, htrace⟩ hreports, ?_, ?_⟩
      · simp only [pushTargets, hrun, htotals]
        rfl
      · simp only [pushTargets, hrun, hlog, List.flatMap_cons, List.append_assoc]

end

/-! ### One target -/

/-- The accepted attempts fall into one run for each chunk, and each run carries its chunk. -/
def ChunksAccepted (chunks : List (List BatchRecordInput)) (attempts : List Attempt) : Prop :=
  ∃ pieces : List (List Attempt), pieces.flatten = attempts ∧
    pieces.map (List.flatMap Attempt.records) = chunks

/-- Chunks accepted one by one add up to the whole list, in order. -/
theorem ChunksAccepted.records {chunks : List (List BatchRecordInput)} {attempts : List Attempt}
    (h : ChunksAccepted chunks attempts) :
    attempts.flatMap Attempt.records = chunks.flatten := by
  obtain ⟨pieces, rfl, rfl⟩ := h
  induction pieces with
  | nil => rfl
  | cons piece pieces ih =>
      rw [List.flatten_cons, List.flatMap_append, ih, List.map_cons, List.flatten_cons]

theorem ChunksAccepted.cons {chunk : List BatchRecordInput} {chunks : List (List BatchRecordInput)}
    {piece attempts : List Attempt} (hpiece : piece.flatMap Attempt.records = chunk)
    (h : ChunksAccepted chunks attempts) :
    ChunksAccepted (chunk :: chunks) (piece ++ attempts) := by
  obtain ⟨pieces, rfl, rfl⟩ := h
  exact ⟨piece :: pieces, rfl, by rw [List.map_cons, hpiece]⟩

section

variable {http : Http W} {maxRetries : ℕ} {vault : VaultEndpoint} {groupName : String}
  {modeAt : ℕ → BatchMode} {index : ℕ} {chunks : List (List BatchRecordInput)} {w w' : W}
  {trace : List Attempt} {out : ℕ × Option ClientError} {target : PushTarget}
  {outcome : TargetOutcome}

theorem ChunksPushed.sent_to
    (h : ChunksPushed http maxRetries vault groupName modeAt index chunks w trace out w') :
    ∀ a ∈ trace, a.endpoint = vault ∧ a.groupName = groupName := by
  induction h with
  | done => simp
  | next htrace _ ih =>
      intro a ha
      rcases List.mem_append.mp ha with ha | ha
      · exact htrace.sent_to a ha
      · exact ih a ha
  | stop htrace => exact htrace.sent_to

theorem ChunksPushed.upserts
    (h : ChunksPushed http maxRetries vault groupName modeAt index chunks w trace out w')
    (hup : ∀ i, index ≤ i → modeAt i = .upsert) : ∀ a ∈ accepted trace, a.mode = .upsert := by
  induction h with
  | done => simp [accepted]
  | @next index _ _ _ _ _ _ _ _ _ _ htrace _ ih =>
      intro a ha
      rw [accepted_append] at ha
      rcases List.mem_append.mp ha with ha | ha
      · exact (htrace.modes .upsert ⟨hup index le_rfl, by simp⟩).all_upsert a ha
      · exact ih (fun i hi => hup i (by omega)) a ha
  | @stop index _ _ _ _ _ _ htrace =>
      exact (htrace.modes .upsert ⟨hup index le_rfl, by simp⟩).all_upsert

/-- Every attempt of a push of upserts upserts records of the chunks. -/
theorem ChunksPushed.carries
    (h : ChunksPushed http maxRetries vault groupName modeAt index chunks w trace out w')
    (hup : ∀ i, modeAt i = .upsert) :
    ∀ a ∈ trace, a.mode = .upsert ∧ ∀ r ∈ a.records, r ∈ chunks.flatten := by
  induction h with
  | done => simp
  | @next index _ _ _ _ _ _ _ _ _ _ htrace _ ih =>
      intro a ha
      rcases List.mem_append.mp ha with ha | ha
      · obtain ⟨hmode, hrecords⟩ := htrace.carries (by simpa using hup index) a ha
        refine ⟨hmode, fun r hr => ?_⟩
        rw [List.flatten_cons]
        exact List.mem_append_left _ (by simpa using hrecords r hr)
      · obtain ⟨hmode, hrecords⟩ := ih a ha
        refine ⟨hmode, fun r hr => ?_⟩
        rw [List.flatten_cons]
        exact List.mem_append_right _ (hrecords r hr)
  | @stop index _ _ _ _ _ _ htrace =>
      intro a ha
      obtain ⟨hmode, hrecords⟩ := htrace.carries (by simpa using hup index) a ha
      refine ⟨hmode, fun r hr => ?_⟩
      rw [List.flatten_cons]
      exact List.mem_append_left _ (by simpa using hrecords r hr)

/-- Without an error every chunk is accepted in full, in order. -/
theorem ChunksPushed.accepted_of_none
    (h : ChunksPushed http maxRetries vault groupName modeAt index chunks w trace out w')
    (hnone : out.2 = none) : ChunksAccepted chunks (accepted trace) := by
  induction h with
  | done => exact ⟨[], rfl, rfl⟩
  | next htrace _ ih =>
      have hrecords := (htrace.delivered _ rfl).1
      rw [queueRecords_cons, queueRecords_nil, List.append_nil] at hrecords
      rw [accepted_append]
      exact ChunksAccepted.cons hrecords (ih hnone)
  | stop _ => cases hnone

/-- With an error the accepted records are not all of them. -/
theorem ChunksPushed.none_of_accepted
    (h : ChunksPushed http maxRetries vault groupName modeAt index chunks w trace out w')
    (hne : ∀ chunk ∈ chunks, chunk ≠ [])
    (hall : acceptedRecords trace = chunks.flatten) : out.2 = none := by
  induction h with
  | done => rfl
  | next htrace _ ih =>
      have hrecords := (htrace.delivered _ rfl).1
      rw [queueRecords_cons, queueRecords_nil, List.append_nil] at hrecords
      rw [acceptedRecords_append, hrecords, List.flatten_cons, List.append_cancel_left_eq] at hall
      exact ih (fun c hc => hne c (List.mem_cons_of_mem _ hc)) hall
  | @stop index chunk chunks _ trace e _ htrace =>
      have hchunks : NonemptyChunks [(chunk, modeAt index)] := by
        intro c hc
        rw [List.mem_singleton.mp hc]
        exact hne chunk (List.mem_cons_self ..)
      obtain ⟨missing, hmissing, heq⟩ := htrace.undelivered hchunks e rfl
      rw [queueRecords_cons, queueRecords_nil, List.append_nil] at heq
      have hlength := congrArg List.length hall
      rw [List.flatten_cons, ← heq] at hlength
      have := List.length_pos_iff.mpr hmissing
      simp only [List.length_append] at hlength
      omega

/-- Every request of a target goes to its endpoint and group. -/
theorem TargetPushed.sent_to (h : TargetPushed http maxRetries modeAt chunks target w trace
    outcome w') :
    ∀ a ∈ trace, target.vault = some a.endpoint ∧ a.groupName = target.groupName := by
  cases h with
  | missing _ => simp
  | pushed hvault hpushed =>
      intro a ha
      obtain ⟨hendpoint, hgroup⟩ := hpushed.sent_to a ha
      exact ⟨by rw [hvault, hendpoint], hgroup⟩

theorem TargetPushed.upserts (h : TargetPushed http maxRetries modeAt chunks target w trace
    outcome w') (hup : ∀ i, modeAt i = .upsert) : ∀ a ∈ accepted trace, a.mode = .upsert := by
  cases h with
  | missing _ => simp [accepted]
  | pushed _ hpushed => exact hpushed.upserts fun i _ => hup i

theorem TargetPushed.carries (h : TargetPushed http maxRetries modeAt chunks target w trace
    outcome w') (hup : ∀ i, modeAt i = .upsert) :
    ∀ a ∈ trace, a.mode = .upsert ∧ ∀ r ∈ a.records, r ∈ chunks.flatten := by
  cases h with
  | missing _ => simp
  | pushed _ hpushed => exact hpushed.carries hup

/-- **A target is complete exactly when it exists and accepted every chunk, in order.** -/
theorem TargetPushed.complete_iff (h : TargetPushed http maxRetries modeAt chunks target w trace
    outcome w') (hne : ∀ chunk ∈ chunks, chunk ≠ []) :
    outcome.isComplete ↔ target.vault.isSome ∧ ChunksAccepted chunks (accepted trace) := by
  cases h with
  | missing hvault => simp [TargetOutcome.isComplete, hvault]
  | @pushed vault _ _ _ error _ hvault hpushed =>
      have hiff : error = none ↔ ChunksAccepted chunks (accepted trace) :=
        ⟨hpushed.accepted_of_none, fun h => hpushed.none_of_accepted hne h.records⟩
      rw [← hiff, hvault]
      cases error <;> simp [TargetOutcome.isComplete]

end

end SimplyIpSync.Jobs
