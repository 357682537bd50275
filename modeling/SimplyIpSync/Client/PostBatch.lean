import SimplyIpSync.Client.Retrying

/-!
# Batch delivery (`post_batch_with_retry`, `post_batch`)

`postBatch` sends a list of records through a work queue.  A chunk that the target answers with
`413`, or with a transient status that outlived its retries, is halved and both halves go back
to the front of the queue; the second half is downgraded to `upsert`.

Callers and proofs never unfold the loop.  What a run of it can do is said once, by the relation
`Drained`: it lists the attempts in the order of sending and the worlds before and after.
`postBatch_drained` connects it to the function, and every later fact is an induction on a
derivation.
-/

namespace SimplyIpSync.Client

open SimplyIpSync.Entities SimplyIpSync.Retry

variable {W : Type*}

/-- `post_batch_with_retry`. -/
def postBatchWithRetry (http : Http W) (maxRetries : ℕ) (endpoint : VaultEndpoint)
    (groupName : String) (records : List BatchRecordInput) (mode : BatchMode) (w : W) :
    Except ClientError BatchRecordsResponse × W :=
  retryFrom (http.postBatchOnce endpoint groupName records mode) http.backoff maxRetries 0 w

/-! ### The work queue -/

/-- A queued chunk and the mode it is to be sent with. -/
abbrev Chunk := List BatchRecordInput × BatchMode

/-- The number of requests a chunk can be cut into, over all levels of splitting: a binary tree
with a leaf for each record. -/
def chunkWeight (records : List BatchRecordInput) : ℕ := max 1 (2 * records.length - 1)

/-- The measure of the work queue. -/
def queueWeight (queue : List Chunk) : ℕ := (queue.map fun c => chunkWeight c.1).sum

@[simp] theorem queueWeight_nil : queueWeight [] = 0 := rfl

@[simp] theorem queueWeight_cons (records : List BatchRecordInput) (mode : BatchMode)
    (queue : List Chunk) :
    queueWeight ((records, mode) :: queue) = chunkWeight records + queueWeight queue := by
  simp [queueWeight]

theorem chunkWeight_pos (records : List BatchRecordInput) : 1 ≤ chunkWeight records :=
  le_max_left _ _

/-- Halving a chunk of two or more records makes the total weight one smaller. -/
theorem chunkWeight_split (records : List BatchRecordInput) (h : 1 < records.length) :
    chunkWeight (records.take (records.length / 2)) +
      chunkWeight (records.drop (records.length / 2)) + 1 = chunkWeight records := by
  simp only [chunkWeight, List.length_take, List.length_drop]
  omega

/-- `second_mode` in `post_batch`: whatever the chunk carried, its second half is an upsert. -/
def secondMode : BatchMode → BatchMode
  | .fullReplace => .upsert
  | .upsert => .upsert

@[simp] theorem secondMode_eq (mode : BatchMode) : secondMode mode = .upsert := by
  cases mode <;> rfl

/-- The `while let` loop of `post_batch`. -/
def postBatchLoop (http : Http W) (maxRetries : ℕ) (endpoint : VaultEndpoint)
    (groupName : String) : List Chunk → BatchRecordsResponse → W →
      Except ClientError BatchRecordsResponse × W
  | [], aggregate, w => (.ok aggregate, w)
  | (chunk, chunkMode) :: queue, aggregate, w =>
      match postBatchWithRetry http maxRetries endpoint groupName chunk chunkMode w with
      | (.ok resp, w) =>
          postBatchLoop http maxRetries endpoint groupName queue (aggregate.merge resp) w
      | (.error (.remoteError status body), w) =>
          if 1 < chunk.length ∧ (status = 413 ∨ isTransientStatus status) then
            let mid := chunk.length / 2
            -- a `413` is a size problem and nothing to wait for; contention is
            let w := if status ≠ 413 then http.backoff 1 w else w
            postBatchLoop http maxRetries endpoint groupName
              ((chunk.take mid, chunkMode) :: (chunk.drop mid, secondMode chunkMode) :: queue)
              aggregate w
          else (.error (.remoteError status body), w)
      | (.error e, w) => (.error e, w)
termination_by queue => queueWeight queue
decreasing_by
  · have := chunkWeight_pos chunk
    simp only [queueWeight_cons]
    omega
  · rename_i hsplit
    have := chunkWeight_split chunk hsplit.1
    simp only [queueWeight_cons]
    omega

/-- `post_batch`. -/
def postBatch (http : Http W) (maxRetries : ℕ) (endpoint : VaultEndpoint) (groupName : String)
    (records : List BatchRecordInput) (mode : BatchMode) (w : W) :
    Except ClientError BatchRecordsResponse × W :=
  postBatchLoop http maxRetries endpoint groupName [(records, mode)] .default w

/-! ### What a run can do -/

/-- One request as the wire saw it, with the answer the client got. -/
structure Attempt where
  endpoint : VaultEndpoint
  groupName : String
  records : List BatchRecordInput
  mode : BatchMode
  result : Except ClientError BatchRecordsResponse

/-- The error of a chunk that is halved instead of reported. -/
def Splittable (e : ClientError) : Prop :=
  ∃ status body, e = .remoteError status body ∧ (status = 413 ∨ isTransientStatus status)

/-- The attempts at one chunk, from the answers to them. -/
def attemptsAt (endpoint : VaultEndpoint) (groupName : String) (records : List BatchRecordInput)
    (mode : BatchMode) (answers : List (Except ClientError BatchRecordsResponse)) :
    List Attempt :=
  answers.map (Attempt.mk endpoint groupName records mode)

/-- A chunk sent with its retries. -/
abbrev ChunkSent (http : Http W) (maxRetries : ℕ) (endpoint : VaultEndpoint)
    (groupName : String) (c : Chunk) (w : W)
    (answers : List (Except ClientError BatchRecordsResponse))
    (result : Except ClientError BatchRecordsResponse) (w' : W) : Prop :=
  Retried (http.postBatchOnce endpoint groupName c.1 c.2) http.backoff maxRetries 0 w answers
    result w'

/-- A queue worked off: the attempts made, the outcome with the sum of the accepted answers, and
the worlds before and after. -/
inductive Drained (http : Http W) (maxRetries : ℕ) (endpoint : VaultEndpoint)
    (groupName : String) : List Chunk → BatchRecordsResponse → W → List Attempt →
      Except ClientError BatchRecordsResponse → W → Prop
  | empty {aggregate w} :
      Drained http maxRetries endpoint groupName [] aggregate w [] (.ok aggregate) w
  | accept {chunk mode queue aggregate w answers resp w₁ rest result w'} :
      ChunkSent http maxRetries endpoint groupName (chunk, mode) w answers (.ok resp) w₁ →
      Drained http maxRetries endpoint groupName queue (aggregate.merge resp) w₁ rest result w' →
      Drained http maxRetries endpoint groupName ((chunk, mode) :: queue) aggregate w
        (attemptsAt endpoint groupName chunk mode answers ++ rest) result w'
  | split {chunk mode queue aggregate w answers status body w₁ rest result w'} :
      ChunkSent http maxRetries endpoint groupName (chunk, mode) w answers
        (.error (.remoteError status body)) w₁ →
      1 < chunk.length → (status = 413 ∨ isTransientStatus status) →
      Drained http maxRetries endpoint groupName
        ((chunk.take (chunk.length / 2), mode) :: (chunk.drop (chunk.length / 2), .upsert) ::
          queue) aggregate (if status ≠ 413 then http.backoff 1 w₁ else w₁) rest result w' →
      Drained http maxRetries endpoint groupName ((chunk, mode) :: queue) aggregate w
        (attemptsAt endpoint groupName chunk mode answers ++ rest) result w'
  | fail {chunk mode queue aggregate w answers e w'} :
      ChunkSent http maxRetries endpoint groupName (chunk, mode) w answers (.error e) w' →
      (Splittable e → chunk.length ≤ 1) →
      Drained http maxRetries endpoint groupName ((chunk, mode) :: queue) aggregate w
        (attemptsAt endpoint groupName chunk mode answers) (.error e) w'

section

variable {http : Http W} {maxRetries : ℕ} {endpoint : VaultEndpoint} {groupName : String}

/-- **The queue loop is total and does what `Drained` says.** -/
theorem postBatchLoop_drained (queue : List Chunk) (aggregate : BatchRecordsResponse) (w : W) :
    ∃ trace, Drained http maxRetries endpoint groupName queue aggregate w trace
      (postBatchLoop http maxRetries endpoint groupName queue aggregate w).1
      (postBatchLoop http maxRetries endpoint groupName queue aggregate w).2 := by
  have hretry : ∀ chunk mode w, ∃ answers,
      ChunkSent http maxRetries endpoint groupName (chunk, mode) w answers
        (postBatchWithRetry http maxRetries endpoint groupName chunk mode w).1
        (postBatchWithRetry http maxRetries endpoint groupName chunk mode w).2 :=
    fun _ _ w => retryFrom_retried 0 w
  fun_induction postBatchLoop http maxRetries endpoint groupName queue aggregate w with
  | case1 => exact ⟨[], Drained.empty⟩
  | case2 chunk mode queue aggregate w resp w₁ hsend ih =>
      obtain ⟨answers, hanswers⟩ := hretry chunk mode w
      obtain ⟨rest, hrest⟩ := ih
      rw [hsend] at hanswers
      exact ⟨_, Drained.accept hanswers hrest⟩
  | case3 chunk mode queue aggregate w status body w₁ hsend hsplit mid w₂ ih =>
      obtain ⟨answers, hanswers⟩ := hretry chunk mode w
      obtain ⟨rest, hrest⟩ := ih
      rw [hsend] at hanswers
      rw [secondMode_eq] at hrest ⊢
      exact ⟨_, Drained.split hanswers hsplit.1 hsplit.2 hrest⟩
  | case4 chunk mode queue aggregate w status body w₁ hsend hsplit =>
      obtain ⟨answers, hanswers⟩ := hretry chunk mode w
      rw [hsend] at hanswers
      refine ⟨_, Drained.fail hanswers ?_⟩
      rintro ⟨status', body', heq, hstatus⟩
      obtain ⟨rfl, rfl⟩ := ClientError.remoteError.inj heq
      exact not_lt.mp fun hlong => hsplit ⟨hlong, hstatus⟩
  | case5 chunk mode queue aggregate w e w₁ hother hsend =>
      obtain ⟨answers, hanswers⟩ := hretry chunk mode w
      rw [hsend] at hanswers
      refine ⟨_, Drained.fail hanswers ?_⟩
      rintro ⟨status, body, rfl, _⟩
      exact absurd rfl (hother status body)

/-- `post_batch` is total and does what `Drained` says of a queue with the whole list in it. -/
theorem postBatch_drained (records : List BatchRecordInput) (mode : BatchMode) (w : W) :
    ∃ trace, Drained http maxRetries endpoint groupName [(records, mode)] .default w trace
      (postBatch http maxRetries endpoint groupName records mode w).1
      (postBatch http maxRetries endpoint groupName records mode w).2 :=
  postBatchLoop_drained [(records, mode)] .default w

/-- The relation determines the function. -/
theorem Drained.postBatchLoop_eq {queue : List Chunk} {aggregate : BatchRecordsResponse}
    {w w' : W} {trace : List Attempt} {result : Except ClientError BatchRecordsResponse}
    (h : Drained http maxRetries endpoint groupName queue aggregate w trace result w') :
    postBatchLoop http maxRetries endpoint groupName queue aggregate w = (result, w') := by
  induction h with
  | empty => rw [postBatchLoop]
  | accept htry _ ih =>
      rw [postBatchLoop, postBatchWithRetry, htry.retryFrom_eq]
      exact ih
  | split htry hlong hstatus _ ih =>
      rw [postBatchLoop, postBatchWithRetry, htry.retryFrom_eq]
      simp only
      rw [if_pos ⟨hlong, hstatus⟩, secondMode_eq, ih]
  | @fail chunk _ _ _ _ _ e _ htry hstop =>
      rw [postBatchLoop, postBatchWithRetry, htry.retryFrom_eq]
      cases e with
      | remoteError status body =>
          refine if_neg ?_
          rintro ⟨hlong, hstatus⟩
          exact absurd (hstop ⟨status, body, rfl, hstatus⟩) (not_le.mpr hlong)
      | invalidUrl | decrypt | signing | request => rfl

end

end SimplyIpSync.Client
