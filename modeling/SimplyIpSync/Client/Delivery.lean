import Mathlib.Data.UInt
import SimplyIpSync.Client.PostBatch

/-!
# What a batch delivery leaves at the target

Facts about the attempts of one `post_batch` call, each an induction on `Drained`:
how many attempts there are, which sub-batches were accepted and in what order, which mode each
of them carried, and what the summed answer is.

`journaled` adds a log of the attempts to the world, so that these facts can be stated of the
function itself: the log of a journaled run is exactly the list of attempts of its derivation.
-/

namespace SimplyIpSync.Client

open SimplyIpSync.Entities SimplyIpSync.Retry

variable {W : Type*}

/-! ### The accepted sub-batches -/

/-- The target answered the attempt with a success. -/
def Attempt.isAccepted (a : Attempt) : Bool :=
  match a.result with
  | .ok _ => true
  | .error _ => false

/-- The accepted attempts, in the order of acceptance. -/
def accepted (trace : List Attempt) : List Attempt := trace.filter Attempt.isAccepted

/-- The records of the accepted attempts, concatenated. -/
def acceptedRecords (trace : List Attempt) : List BatchRecordInput :=
  (accepted trace).flatMap Attempt.records

/-- The answers of the accepted attempts. -/
def acceptedResponses (trace : List Attempt) : List BatchRecordsResponse :=
  trace.filterMap fun a => a.result.toOption

/-- The records of a queue, in the order in which they are to be sent. -/
def queueRecords (queue : List Chunk) : List BatchRecordInput := queue.flatMap Prod.fst

@[simp] theorem accepted_append (s t : List Attempt) :
    accepted (s ++ t) = accepted s ++ accepted t :=
  List.filter_append s t

@[simp] theorem acceptedRecords_append (s t : List Attempt) :
    acceptedRecords (s ++ t) = acceptedRecords s ++ acceptedRecords t := by
  simp [acceptedRecords]

@[simp] theorem acceptedResponses_append (s t : List Attempt) :
    acceptedResponses (s ++ t) = acceptedResponses s ++ acceptedResponses t :=
  List.filterMap_append

@[simp] theorem queueRecords_nil : queueRecords [] = [] := rfl

@[simp] theorem queueRecords_cons (records : List BatchRecordInput) (mode : BatchMode)
    (queue : List Chunk) :
    queueRecords ((records, mode) :: queue) = records ++ queueRecords queue := rfl

/-- Both halves of a chunk together are the chunk. -/
theorem queueRecords_split (chunk : List BatchRecordInput) (m₁ m₂ : BatchMode)
    (queue : List Chunk) :
    queueRecords ((chunk.take (chunk.length / 2), m₁) ::
        (chunk.drop (chunk.length / 2), m₂) :: queue) = chunk ++ queueRecords queue := by
  rw [queueRecords_cons, queueRecords_cons, ← List.append_assoc, List.take_append_drop]

/-- Field-wise sums, in the `u64` arithmetic of the fields. -/
def BatchRecordsResponse.sum (responses : List BatchRecordsResponse) : BatchRecordsResponse where
  created := (responses.map BatchRecordsResponse.created).sum
  updated := (responses.map BatchRecordsResponse.updated).sum
  restored := (responses.map BatchRecordsResponse.restored).sum
  lockedSkipped := (responses.map BatchRecordsResponse.lockedSkipped).sum
  softDeleted := (responses.map BatchRecordsResponse.softDeleted).sum
  linked := (responses.map BatchRecordsResponse.linked).sum

theorem BatchRecordsResponse.merge_sum_cons (aggregate r : BatchRecordsResponse)
    (responses : List BatchRecordsResponse) :
    (aggregate.merge r).merge (BatchRecordsResponse.sum responses) =
      aggregate.merge (BatchRecordsResponse.sum (r :: responses)) := by
  simp only [BatchRecordsResponse.merge, BatchRecordsResponse.sum, List.map_cons, List.sum_cons,
    UInt64.add_assoc]

theorem BatchRecordsResponse.merge_sum_nil (aggregate : BatchRecordsResponse) :
    aggregate.merge (BatchRecordsResponse.sum []) = aggregate := by
  simp [BatchRecordsResponse.merge, BatchRecordsResponse.sum]

theorem BatchRecordsResponse.default_merge (r : BatchRecordsResponse) :
    BatchRecordsResponse.default.merge r = r := by
  simp [BatchRecordsResponse.merge, BatchRecordsResponse.default]

section

variable {http : Http W} {maxRetries : ℕ} {endpoint : VaultEndpoint} {groupName : String}

/-! ### One chunk with its retries -/

variable {c : Chunk} {w w' : W} {answers : List (Except ClientError BatchRecordsResponse)}

/-- Only the last attempt at a chunk can be accepted; it is exactly when the chunk is. -/
theorem ChunkSent.accepted_eq {result : Except ClientError BatchRecordsResponse}
    (h : ChunkSent http maxRetries endpoint groupName c w answers result w') :
    accepted (attemptsAt endpoint groupName c.1 c.2 answers) =
        accepted [⟨endpoint, groupName, c.1, c.2, result⟩] ∧
      acceptedResponses (attemptsAt endpoint groupName c.1 c.2 answers) =
        result.toOption.toList := by
  obtain ⟨failed, rfl⟩ := h.answers_eq
  have hfailed : accepted (attemptsAt endpoint groupName c.1 c.2 (failed.map .error)) = [] ∧
      acceptedResponses (attemptsAt endpoint groupName c.1 c.2 (failed.map .error)) = [] := by
    constructor
    · simp [accepted, attemptsAt, Attempt.isAccepted]
    · simp [acceptedResponses, attemptsAt, Except.toOption]
  rw [attemptsAt, List.map_append, accepted_append, acceptedResponses_append]
  rw [attemptsAt] at hfailed
  rw [hfailed.1, hfailed.2]
  exact ⟨rfl, by cases result <;> rfl⟩

theorem ChunkSent.accepted_ok {resp : BatchRecordsResponse}
    (h : ChunkSent http maxRetries endpoint groupName c w answers (.ok resp) w') :
    accepted (attemptsAt endpoint groupName c.1 c.2 answers) =
      [⟨endpoint, groupName, c.1, c.2, .ok resp⟩] :=
  (accepted_eq h).1

theorem ChunkSent.accepted_error {e : ClientError}
    (h : ChunkSent http maxRetries endpoint groupName c w answers (.error e) w') :
    accepted (attemptsAt endpoint groupName c.1 c.2 answers) = [] :=
  (accepted_eq h).1

theorem mem_attemptsAt {records : List BatchRecordInput} {mode : BatchMode} {a : Attempt}
    (h : a ∈ attemptsAt endpoint groupName records mode answers) :
    a.endpoint = endpoint ∧ a.groupName = groupName ∧ a.records = records ∧ a.mode = mode := by
  obtain ⟨answer, -, rfl⟩ := List.mem_map.mp h
  exact ⟨rfl, rfl, rfl, rfl⟩

/-! ### The whole queue -/

variable {queue : List Chunk} {aggregate : BatchRecordsResponse} {trace : List Attempt}
  {result : Except ClientError BatchRecordsResponse}

/-- **Attempt bound.**  A queue costs at most its weight in chunks, each with all its retries. -/
theorem Drained.length_le
    (h : Drained http maxRetries endpoint groupName queue aggregate w trace result w') :
    trace.length ≤ queueWeight queue * (maxRetries + 1) := by
  induction h with
  | empty => simp
  | @accept chunk mode queue _ _ answers _ _ rest _ _ htry _ ih =>
      have hone : answers.length ≤ maxRetries + 1 := htry.length_le
      calc (attemptsAt endpoint groupName chunk mode answers ++ rest).length
          ≤ 1 * (maxRetries + 1) + queueWeight queue * (maxRetries + 1) := by
            rw [List.length_append, attemptsAt, List.length_map]
            omega
        _ ≤ chunkWeight chunk * (maxRetries + 1) + queueWeight queue * (maxRetries + 1) :=
            Nat.add_le_add_right (Nat.mul_le_mul_right _ (chunkWeight_pos chunk)) _
        _ = queueWeight ((chunk, mode) :: queue) * (maxRetries + 1) := by
            rw [queueWeight_cons, Nat.add_mul]
  | @split chunk mode queue _ _ answers _ _ _ rest _ _ htry hlong _ _ ih =>
      have hone : answers.length ≤ maxRetries + 1 := htry.length_le
      simp only [queueWeight_cons] at ih ⊢
      rw [← chunkWeight_split chunk hlong, List.length_append, attemptsAt, List.length_map]
      calc answers.length + rest.length
          ≤ (maxRetries + 1) + (chunkWeight (chunk.take (chunk.length / 2)) +
              (chunkWeight (chunk.drop (chunk.length / 2)) + queueWeight queue)) *
              (maxRetries + 1) := by omega
        _ = _ := by ring
  | @fail chunk mode queue _ _ answers _ _ htry _ =>
      have hone : answers.length ≤ maxRetries + 1 := htry.length_le
      calc (attemptsAt endpoint groupName chunk mode answers).length
          ≤ 1 * (maxRetries + 1) := by
            rw [attemptsAt, List.length_map]
            omega
        _ ≤ queueWeight ((chunk, mode) :: queue) * (maxRetries + 1) := by
            apply Nat.mul_le_mul_right
            rw [queueWeight_cons]
            exact (chunkWeight_pos chunk).trans (Nat.le_add_right _ _)

/-- **Complete delivery.**  When the queue is worked off, the accepted sub-batches are the queued
records in order, and the answer is the sum of theirs. -/
theorem Drained.delivered
    (h : Drained http maxRetries endpoint groupName queue aggregate w trace result w')
    (resp : BatchRecordsResponse) (hresult : result = .ok resp) :
    acceptedRecords trace = queueRecords queue ∧
      resp = aggregate.merge (BatchRecordsResponse.sum (acceptedResponses trace)) := by
  induction h with
  | empty =>
      obtain rfl := Except.ok.inj hresult
      exact ⟨rfl, (BatchRecordsResponse.merge_sum_nil _).symm⟩
  | accept htry _ ih =>
      obtain ⟨hrecords, hsum⟩ := ih hresult
      refine ⟨?_, ?_⟩
      · rw [acceptedRecords_append, acceptedRecords, ChunkSent.accepted_ok htry, hrecords]
        simp
      · rw [hsum, acceptedResponses_append, (ChunkSent.accepted_eq htry).2]
        exact BatchRecordsResponse.merge_sum_cons _ _ _
  | split htry _ _ _ ih =>
      obtain ⟨hrecords, hsum⟩ := ih hresult
      refine ⟨?_, ?_⟩
      · rw [acceptedRecords_append, acceptedRecords, ChunkSent.accepted_error htry, hrecords,
          queueRecords_split, queueRecords_cons]
        rfl
      · rw [hsum, acceptedResponses_append, (ChunkSent.accepted_eq htry).2]
        rfl
  | fail _ _ => cases hresult

/-- Every chunk of the queue has a record in it. -/
def NonemptyChunks (queue : List Chunk) : Prop := ∀ c ∈ queue, c.1 ≠ []

theorem NonemptyChunks.split {chunk : List BatchRecordInput} {mode : BatchMode}
    {queue : List Chunk} (h : NonemptyChunks ((chunk, mode) :: queue))
    (hlong : 1 < chunk.length) :
    NonemptyChunks ((chunk.take (chunk.length / 2), mode) ::
      (chunk.drop (chunk.length / 2), .upsert) :: queue) := by
  have hfirst : chunk.take (chunk.length / 2) ≠ [] := by
    rw [← List.length_pos_iff, List.length_take]
    omega
  have hsecond : chunk.drop (chunk.length / 2) ≠ [] := by
    rw [← List.length_pos_iff, List.length_drop]
    omega
  intro c hc
  rcases List.mem_cons.mp hc with rfl | hc
  · exact hfirst
  rcases List.mem_cons.mp hc with rfl | hc
  · exact hsecond
  · exact h c (List.mem_cons_of_mem _ hc)

/-- **Partial delivery.**  When the delivery fails, the accepted sub-batches are a proper prefix
of the queued records. -/
theorem Drained.undelivered
    (h : Drained http maxRetries endpoint groupName queue aggregate w trace result w')
    (hne : NonemptyChunks queue) (e : ClientError) (hresult : result = .error e) :
    ∃ missing, missing ≠ [] ∧ acceptedRecords trace ++ missing = queueRecords queue := by
  induction h with
  | empty => cases hresult
  | @accept chunk mode queue _ _ _ _ _ _ _ _ htry _ ih =>
      obtain ⟨missing, hmissing, heq⟩ := ih (fun c hc => hne c (List.mem_cons_of_mem _ hc)) hresult
      refine ⟨missing, hmissing, ?_⟩
      rw [acceptedRecords_append, acceptedRecords, ChunkSent.accepted_ok htry, queueRecords_cons, ← heq]
      simp
  | @split chunk mode queue _ _ _ _ _ _ _ _ _ htry hlong _ _ ih =>
      obtain ⟨missing, hmissing, heq⟩ := ih (hne.split hlong) hresult
      refine ⟨missing, hmissing, ?_⟩
      rw [acceptedRecords_append, acceptedRecords, ChunkSent.accepted_error htry, List.flatMap_nil,
        List.nil_append, heq, queueRecords_split, queueRecords_cons]
  | @fail chunk mode queue _ _ _ _ _ htry _ =>
      refine ⟨queueRecords ((chunk, mode) :: queue), ?_, ?_⟩
      · have hchunk : chunk ≠ [] := hne (chunk, mode) (List.mem_cons_self ..)
        rw [queueRecords_cons]
        exact List.append_ne_nil_of_left_ne_nil hchunk _
      · rw [acceptedRecords, ChunkSent.accepted_error htry, List.flatMap_nil, List.nil_append]

/-- Every attempt of a delivery goes to its endpoint and group. -/
theorem Drained.sent_to
    (h : Drained http maxRetries endpoint groupName queue aggregate w trace result w') :
    ∀ a ∈ trace, a.endpoint = endpoint ∧ a.groupName = groupName := by
  induction h with
  | empty => simp
  | accept _ _ ih | split _ _ _ _ ih =>
      intro a ha
      rcases List.mem_append.mp ha with ha | ha
      · exact ⟨(mem_attemptsAt ha).1, (mem_attemptsAt ha).2.1⟩
      · exact ih a ha
  | fail htry _ =>
      intro a ha
      exact ⟨(mem_attemptsAt ha).1, (mem_attemptsAt ha).2.1⟩

/-- Every attempt of a queue of upserts, accepted or not, upserts records of the queue. -/
theorem Drained.carries
    (h : Drained http maxRetries endpoint groupName queue aggregate w trace result w')
    (hup : ∀ c ∈ queue, c.2 = .upsert) :
    ∀ a ∈ trace, a.mode = .upsert ∧ ∀ r ∈ a.records, r ∈ queueRecords queue := by
  have hfirst : ∀ {chunk mode queue answers}, (∀ c ∈ (chunk, mode) :: queue, c.2 = .upsert) →
      ∀ a ∈ attemptsAt endpoint groupName chunk mode answers,
        a.mode = .upsert ∧ ∀ r ∈ a.records, r ∈ queueRecords ((chunk, mode) :: queue) := by
    intro chunk mode queue answers hup a ha
    obtain ⟨-, -, hrecords, hmode⟩ := mem_attemptsAt ha
    refine ⟨hmode.trans (hup _ (List.mem_cons_self ..)), ?_⟩
    intro r hr
    rw [queueRecords_cons, ← hrecords]
    exact List.mem_append_left _ hr
  induction h with
  | empty => simp
  | accept _ _ ih =>
      intro a ha
      rcases List.mem_append.mp ha with ha | ha
      · exact hfirst hup a ha
      · obtain ⟨hmode, hrecords⟩ := ih (fun c hc => hup c (List.mem_cons_of_mem _ hc)) a ha
        refine ⟨hmode, fun r hr => ?_⟩
        rw [queueRecords_cons]
        exact List.mem_append_right _ (hrecords r hr)
  | @split chunk mode queue _ _ _ _ _ _ _ _ _ _ _ _ _ ih =>
      intro a ha
      rcases List.mem_append.mp ha with ha | ha
      · exact hfirst hup a ha
      · have hhalves : ∀ c ∈ (chunk.take (chunk.length / 2), mode) ::
            (chunk.drop (chunk.length / 2), .upsert) :: queue, c.2 = .upsert := by
          intro c hc
          rcases List.mem_cons.mp hc with rfl | hc
          · exact hup (chunk, mode) (List.mem_cons_self ..)
          rcases List.mem_cons.mp hc with rfl | hc
          · rfl
          · exact hup c (List.mem_cons_of_mem _ hc)
        obtain ⟨hmode, hrecords⟩ := ih hhalves a ha
        refine ⟨hmode, fun r hr => ?_⟩
        rw [queueRecords_cons, ← queueRecords_split]
        exact hrecords r hr
  | fail _ _ => exact hfirst hup

/-! ### Modes -/

/-- Only the head of the queue may carry another mode than `upsert`. -/
def HeadMode (mode : BatchMode) : List Chunk → Prop
  | [] => True
  | c :: queue => c.2 = mode ∧ ∀ d ∈ queue, d.2 = .upsert

/-- The first attempt of the list carries `mode`, the others are upserts. -/
def FirstMode (mode : BatchMode) : List Attempt → Prop
  | [] => True
  | a :: rest => a.mode = mode ∧ ∀ b ∈ rest, b.mode = .upsert

theorem HeadMode.of_upsert {queue : List Chunk} (h : ∀ d ∈ queue, d.2 = .upsert) :
    HeadMode .upsert queue := by
  cases queue with
  | nil => trivial
  | cons c queue =>
      exact ⟨h c (List.mem_cons_self ..), fun d hd => h d (List.mem_cons_of_mem _ hd)⟩

theorem FirstMode.all_upsert {trace : List Attempt} (h : FirstMode .upsert trace) :
    ∀ a ∈ trace, a.mode = .upsert := by
  cases trace with
  | nil => simp
  | cons a rest =>
      intro b hb
      rcases List.mem_cons.mp hb with rfl | hb
      · exact h.1
      · exact h.2 b hb

/-- **Mode discipline.**  If only the head of the queue carries `mode`, then only the first
accepted sub-batch does. -/
theorem Drained.modes
    (h : Drained http maxRetries endpoint groupName queue aggregate w trace result w')
    (mode : BatchMode) (hmode : HeadMode mode queue) : FirstMode mode (accepted trace) := by
  induction h generalizing mode with
  | empty => trivial
  | accept htry _ ih =>
      have hrest := (ih .upsert (HeadMode.of_upsert hmode.2)).all_upsert
      rw [accepted_append, ChunkSent.accepted_ok htry]
      exact ⟨hmode.1, hrest⟩
  | split htry _ _ _ ih =>
      rw [accepted_append, ChunkSent.accepted_error htry, List.nil_append]
      apply ih mode
      refine ⟨hmode.1, ?_⟩
      intro d hd
      rcases List.mem_cons.mp hd with rfl | hd
      · rfl
      · exact hmode.2 d hd
  | fail htry _ =>
      rw [ChunkSent.accepted_error htry]
      trivial

end

/-! ### The journal -/

/-- The same client with a log of its attempts kept beside the world. -/
def journaled (http : Http W) : Http (W × List Attempt) where
  postBatchOnce endpoint groupName records mode wl :=
    let out := http.postBatchOnce endpoint groupName records mode wl.1
    (out.1, out.2, wl.2 ++ [⟨endpoint, groupName, records, mode, out.1⟩])
  getIpsPage endpoint groupName since includeDeleted offset wl :=
    let out := http.getIpsPage endpoint groupName since includeDeleted offset wl.1
    (out.1, out.2, wl.2)
  backoff attempt wl := (http.backoff attempt wl.1, wl.2)

variable {http : Http W} {maxRetries : ℕ} {endpoint : VaultEndpoint} {groupName : String}

theorem ChunkSent.journaled {c : Chunk} {w w' : W}
    {answers : List (Except ClientError BatchRecordsResponse)}
    {result : Except ClientError BatchRecordsResponse}
    (h : ChunkSent http maxRetries endpoint groupName c w answers result w')
    (log : List Attempt) :
    ChunkSent (journaled http) maxRetries endpoint groupName c (w, log) answers result
      (w', log ++ attemptsAt endpoint groupName c.1 c.2 answers) := by
  have hsend : ∀ (past : List (Except ClientError BatchRecordsResponse)) (w : W)
      (result : Except ClientError BatchRecordsResponse) (w₁ : W),
      http.postBatchOnce endpoint groupName c.1 c.2 w = (result, w₁) →
      (Client.journaled http).postBatchOnce endpoint groupName c.1 c.2
          (w, log ++ attemptsAt endpoint groupName c.1 c.2 past) =
        (result, (w₁, log ++ attemptsAt endpoint groupName c.1 c.2 (past ++ [result]))) := by
    intro past w result w₁ hsend
    simp only [Client.journaled, hsend, attemptsAt, List.map_append, List.map_cons,
      List.map_nil, List.append_assoc]
  have hbackoff : ∀ past n w, (Client.journaled http).backoff n
      (w, log ++ attemptsAt endpoint groupName c.1 c.2 past) =
        (http.backoff n w, log ++ attemptsAt endpoint groupName c.1 c.2 past) := by
    intro past n w
    rfl
  have hmap := Retried.map (fun past w => (w, log ++ attemptsAt endpoint groupName c.1 c.2 past))
    hsend hbackoff h []
  simpa [attemptsAt] using hmap

theorem Drained.journaled {queue : List Chunk} {aggregate : BatchRecordsResponse} {w w' : W}
    {trace : List Attempt} {result : Except ClientError BatchRecordsResponse}
    (h : Drained http maxRetries endpoint groupName queue aggregate w trace result w')
    (log : List Attempt) :
    Drained (journaled http) maxRetries endpoint groupName queue aggregate (w, log) trace result
      (w', log ++ trace) := by
  induction h generalizing log with
  | empty =>
      rw [List.append_nil]
      exact Drained.empty
  | accept htry _ ih =>
      rw [← List.append_assoc]
      exact Drained.accept (ChunkSent.journaled htry log) (ih _)
  | @split chunk mode _ _ _ answers status _ _ _ _ _ htry hlong hstatus _ ih =>
      rw [← List.append_assoc]
      refine Drained.split (ChunkSent.journaled htry log) hlong hstatus ?_
      have hrest := ih (log ++ attemptsAt endpoint groupName chunk mode answers)
      by_cases h413 : status = 413
      · simpa [h413] using hrest
      · simpa [h413, Client.journaled] using hrest
  | fail htry hstop => exact Drained.fail (ChunkSent.journaled htry log) hstop

/-- **The journal only observes.**  A journaled delivery returns what the delivery returns and
logs exactly the attempts of its derivation. -/
theorem postBatch_journaled (http : Http W) (maxRetries : ℕ) (endpoint : VaultEndpoint)
    (groupName : String) (records : List BatchRecordInput) (mode : BatchMode) (w : W)
    (log : List Attempt) :
    ∃ trace,
      Drained http maxRetries endpoint groupName [(records, mode)] .default w trace
        (postBatch http maxRetries endpoint groupName records mode w).1
        (postBatch http maxRetries endpoint groupName records mode w).2 ∧
      postBatch (journaled http) maxRetries endpoint groupName records mode (w, log) =
        ((postBatch http maxRetries endpoint groupName records mode w).1,
          (postBatch http maxRetries endpoint groupName records mode w).2, log ++ trace) := by
  obtain ⟨trace, htrace⟩ : ∃ trace, Drained http maxRetries endpoint groupName
      [(records, mode)] .default w trace
      (postBatch http maxRetries endpoint groupName records mode w).1
      (postBatch http maxRetries endpoint groupName records mode w).2 :=
    postBatch_drained records mode w
  exact ⟨trace, htrace, (htrace.journaled log).postBatchLoop_eq⟩

/-! ### Every record once, in order -/

/-- **A batch post delivers every record exactly once, in order.**  For every world and every
behaviour of the target, with `n` records and `maxRetries` retries there are at most
`(2n - 1) (maxRetries + 1)` attempts.  On success the accepted sub-batches are the list, only the
first of them carries the given mode, and the answer is the sum of theirs.  On failure they are a
proper prefix of the list. -/
theorem postBatch_delivers_once_in_order (http : Http W) (maxRetries : ℕ)
    (endpoint : VaultEndpoint) (groupName : String) (records : List BatchRecordInput)
    (mode : BatchMode) (w : W) (hne : records ≠ []) :
    let run := postBatch (journaled http) maxRetries endpoint groupName records mode (w, [])
    let attempts := run.2.2
    attempts.length ≤ (2 * records.length - 1) * (maxRetries + 1) ∧
      (∀ resp, run.1 = .ok resp →
        acceptedRecords attempts = records ∧
        (∃ first rest, accepted attempts = first :: rest ∧ first.mode = mode ∧
          ∀ a ∈ rest, a.mode = .upsert) ∧
        resp = BatchRecordsResponse.sum (acceptedResponses attempts)) ∧
      (∀ e, run.1 = .error e →
        acceptedRecords attempts <+: records ∧ acceptedRecords attempts ≠ records) := by
  obtain ⟨trace, htrace, hrun⟩ :=
    postBatch_journaled http maxRetries endpoint groupName records mode w []
  have hqueue : queueRecords [(records, mode)] = records := by simp
  have hlength : 1 ≤ records.length := List.length_pos_iff.mpr hne
  rw [hrun]
  simp only [List.nil_append]
  refine ⟨?_, ?_, ?_⟩
  · have hweight : queueWeight [(records, mode)] = 2 * records.length - 1 := by
      simp only [queueWeight_cons, queueWeight_nil, chunkWeight]
      omega
    exact hweight ▸ htrace.length_le
  · intro resp hresp
    obtain ⟨hrecords, hsum⟩ := htrace.delivered resp hresp
    have hmodes := htrace.modes mode ⟨rfl, by simp⟩
    rw [hqueue] at hrecords
    refine ⟨hrecords, ?_, by rw [hsum, BatchRecordsResponse.default_merge]⟩
    cases hfirst : accepted trace with
    | nil => exact absurd (by rw [← hrecords, acceptedRecords, hfirst]; rfl) hne
    | cons first rest =>
        rw [hfirst] at hmodes
        exact ⟨first, rest, rfl, hmodes.1, hmodes.2⟩
  · intro e he
    have hchunks : NonemptyChunks [(records, mode)] := by
      intro c hc
      rw [List.mem_singleton.mp hc]
      exact hne
    obtain ⟨missing, hmissing, hprefix⟩ := htrace.undelivered hchunks e he
    rw [hqueue] at hprefix
    refine ⟨⟨missing, hprefix⟩, fun hall => hmissing ?_⟩
    rw [hall] at hprefix
    exact List.append_right_eq_self.mp hprefix

/-- A target that takes one record at a time and answers anything longer with a `413`. -/
def oneAtATime : Http ℕ where
  postBatchOnce _ _ records _ taken :=
    if 1 < records.length then (.error (.remoteError 413 ""), taken)
    else (.ok { BatchRecordsResponse.default with created := 1 }, taken + records.length)
  getIpsPage _ _ _ _ _ taken := (.ok [], taken)
  backoff _ taken := taken

theorem postBatch_delivers_two_one_at_a_time :
    let endpoint : VaultEndpoint := ⟨1, "edge", "https://edge", "key", "secret"⟩
    let record (address : String) : BatchRecordInput :=
      ⟨address, none, some false, none, none, none, none⟩
    let records := [record "1.1.1.1/32", record "8.8.8.8/32"]
    let run := postBatch (journaled oneAtATime) 3 endpoint "ban" records .fullReplace (0, [])
    run.2.1 = 2 ∧ acceptedRecords run.2.2 = records ∧ run.2.2.length ≤ 3 * 4 := by
  intro endpoint record records run
  have hrun : run.1 = .ok { BatchRecordsResponse.default with created := 2 } ∧ run.2.1 = 2 := by
    decide +kernel
  obtain ⟨hlength, hok, -⟩ := postBatch_delivers_once_in_order oneAtATime 3 endpoint "ban" records
    .fullReplace 0 (by decide)
  exact ⟨hrun.2, (hok _ hrun.1).1, hlength⟩

end SimplyIpSync.Client
