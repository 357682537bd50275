import SimplyIpSync.Jobs.PushOutcome
import SimplyIpSync.Lib.LiveSet

/-!
# What a push does to the content of a target

A target group is the set of its live addresses.  An accepted request is applied; one that was
answered with an error may have been applied before its answer was lost.  `Applied attempts done`
lists the requests that took effect.

The delivery of a queue is followed through splits and retries: a queue of upserts adds its
records, and a queue whose head replaces leaves exactly its records, whatever was there before and
whatever took effect on the way.
-/

namespace SimplyIpSync.Jobs

open SimplyIpSync.Entities SimplyIpSync.Client SimplyIpSync.LiveSet

variable {W : Type*}

/-! ### Requests as writes -/

/-- The addresses of a list of records. -/
def addresses (records : List BatchRecordInput) : List String :=
  records.map BatchRecordInput.targetAddress

@[simp] theorem addresses_nil : addresses [] = [] := rfl

@[simp] theorem addresses_append (records more : List BatchRecordInput) :
    addresses (records ++ more) = addresses records ++ addresses more :=
  List.map_append

theorem addresses_flatMap (attempts : List Attempt) :
    addresses (attempts.flatMap Attempt.records) =
      (attempts.map fun a => addresses a.records).flatten := by
  rw [addresses, List.map_flatMap, List.flatMap_def]
  rfl

/-- `upsert` makes each address live; `full_replace` does so and soft-deletes the rest. -/
def batchWrite (mode : BatchMode) (records : List BatchRecordInput) : Write String :=
  match mode with
  | .upsert => .add (addresses records)
  | .fullReplace => .replace (addresses records)

/-- The live addresses of a group after the given requests took effect on it. -/
def liveAfter (prior : Finset String) (done : List Attempt) : Finset String :=
  applyAll prior (done.map fun a => batchWrite a.mode a.records)

@[simp] theorem liveAfter_nil (prior : Finset String) : liveAfter prior [] = prior := rfl

@[simp] theorem liveAfter_append (prior : Finset String) (done more : List Attempt) :
    liveAfter prior (done ++ more) = liveAfter (liveAfter prior done) more := by
  rw [liveAfter, List.map_append, applyAll_append]
  rfl

/-- The requests that took effect: every accepted one, and any of the others. -/
inductive Applied : List Attempt → List Attempt → Prop
  | nil : Applied [] []
  | done {a attempts done} : Applied attempts done → Applied (a :: attempts) (a :: done)
  | lost {a attempts done} : a.isAccepted = false → Applied attempts done →
      Applied (a :: attempts) done

theorem Applied.of_append {attempts more done : List Attempt} (h : Applied (attempts ++ more) done) :
    ∃ first rest, done = first ++ rest ∧ Applied attempts first ∧ Applied more rest := by
  induction attempts generalizing done with
  | nil => exact ⟨[], done, rfl, Applied.nil, h⟩
  | cons a attempts ih =>
      cases h with
      | done h =>
          obtain ⟨first, rest, rfl, hfirst, hrest⟩ := ih h
          exact ⟨a :: first, rest, rfl, Applied.done hfirst, hrest⟩
      | lost hlost h =>
          obtain ⟨first, rest, rfl, hfirst, hrest⟩ := ih h
          exact ⟨first, rest, rfl, Applied.lost hlost hfirst, hrest⟩

theorem Applied.subset {attempts done : List Attempt} (h : Applied attempts done) :
    ∀ a ∈ done, a ∈ attempts := by
  induction h with
  | nil => simp
  | done _ ih =>
      intro b hb
      rcases List.mem_cons.mp hb with rfl | hb
      · exact List.mem_cons_self ..
      · exact List.mem_cons_of_mem _ (ih b hb)
  | lost _ _ ih => exact fun b hb => List.mem_cons_of_mem _ (ih b hb)

theorem Applied.mem_of_accepted {attempts done : List Attempt} (h : Applied attempts done)
    {a : Attempt} (ha : a ∈ accepted attempts) : a ∈ done := by
  induction h with
  | nil => simp [accepted] at ha
  | @done b _ _ _ ih =>
      by_cases hab : a = b
      · exact hab ▸ List.mem_cons_self ..
      · have hmem := List.mem_filter.mp ha
        have htail : a ∈ accepted _ :=
          List.mem_filter.mpr ⟨(List.mem_cons.mp hmem.1).resolve_left hab, hmem.2⟩
        exact List.mem_cons_of_mem _ (ih htail)
  | @lost b _ _ hlost _ ih =>
      rw [accepted, List.filter_cons, if_neg (by rw [hlost]; simp)] at ha
      exact ih ha

/-- The case in which no failed request took effect. -/
theorem applied_accepted (attempts : List Attempt) : Applied attempts (accepted attempts) := by
  induction attempts with
  | nil => exact Applied.nil
  | cons a attempts ih =>
      by_cases ha : a.isAccepted
      · rw [accepted, List.filter_cons_of_pos ha]
        exact Applied.done ih
      · rw [accepted, List.filter_cons_of_neg ha]
        exact Applied.lost (Bool.not_eq_true _ ▸ ha) ih

/-! ### One delivery -/

section

variable {http : Http W} {maxRetries : ℕ} {endpoint : VaultEndpoint} {groupName : String}
  {w w' : W}

/-- The attempts at one chunk amount to its write made once, or not at all. -/
theorem liveAfter_attemptsAt {records : List BatchRecordInput} {mode : BatchMode}
    {answers : List (Except ClientError BatchRecordsResponse)} {done : List Attempt}
    (hdone : Applied (attemptsAt endpoint groupName records mode answers) done)
    (prior : Finset String) :
    liveAfter prior done =
      if done = [] then prior else (batchWrite mode records).apply prior := by
  have hsame : ∀ write ∈ done.map fun a => batchWrite a.mode a.records,
      write = batchWrite mode records := by
    intro write hwrite
    obtain ⟨a, ha, rfl⟩ := List.mem_map.mp hwrite
    obtain ⟨-, -, hrecords, hmode⟩ := mem_attemptsAt (hdone.subset a ha)
    rw [hrecords, hmode]
  rw [liveAfter, applyAll_of_forall_eq hsame]
  simp

/-- An accepted chunk is written. -/
theorem ChunkSent.liveAfter_ok {c : Chunk}
    {answers : List (Except ClientError BatchRecordsResponse)} {resp : BatchRecordsResponse}
    (h : ChunkSent http maxRetries endpoint groupName c w answers (.ok resp) w')
    {done : List Attempt} (hdone : Applied (attemptsAt endpoint groupName c.1 c.2 answers) done)
    (prior : Finset String) :
    liveAfter prior done = (batchWrite c.2 c.1).apply prior := by
  have hmem : (⟨endpoint, groupName, c.1, c.2, .ok resp⟩ : Attempt) ∈ done :=
    hdone.mem_of_accepted (by rw [ChunkSent.accepted_ok h]; simp)
  rw [liveAfter_attemptsAt hdone, if_neg (List.ne_nil_of_mem hmem)]

variable {queue : List Chunk} {aggregate : BatchRecordsResponse} {trace : List Attempt}
  {result : Except ClientError BatchRecordsResponse}

/-- **A queue of upserts** that is worked off has added its records and nothing else. -/
theorem Drained.liveAfter_upsert
    (h : Drained http maxRetries endpoint groupName queue aggregate w trace result w')
    (hup : ∀ c ∈ queue, c.2 = .upsert) (resp : BatchRecordsResponse) (hresult : result = .ok resp)
    {done : List Attempt} (hdone : Applied trace done) (prior : Finset String) :
    liveAfter prior done = prior ∪ (addresses (queueRecords queue)).toFinset := by
  induction h generalizing done prior with
  | empty =>
      cases hdone
      simp
  | @accept chunk mode queue _ _ _ _ _ _ _ _ htry _ ih =>
      obtain ⟨first, rest, rfl, hfirst, hrest⟩ := hdone.of_append
      have hmode : mode = .upsert := hup (chunk, mode) (List.mem_cons_self ..)
      rw [liveAfter_append, ChunkSent.liveAfter_ok htry hfirst,
        ih (fun c hc => hup c (List.mem_cons_of_mem _ hc)) hresult hrest]
      simp only [hmode, batchWrite, apply_add, queueRecords_cons, addresses_append,
        List.toFinset_append, Finset.union_assoc]
  | @split chunk mode queue _ _ _ _ _ _ _ _ _ _ _ _ _ ih =>
      obtain ⟨first, rest, rfl, hfirst, hrest⟩ := hdone.of_append
      have hmode : mode = .upsert := hup (chunk, mode) (List.mem_cons_self ..)
      have hqueue : ∀ c ∈ (chunk.take (chunk.length / 2), mode) ::
          (chunk.drop (chunk.length / 2), .upsert) :: queue, c.2 = .upsert := by
        intro c hc
        rcases List.mem_cons.mp hc with rfl | hc
        · exact hmode
        rcases List.mem_cons.mp hc with rfl | hc
        · rfl
        · exact hup c (List.mem_cons_of_mem _ hc)
      rw [liveAfter_append, ih hqueue hresult hrest, queueRecords_split, queueRecords_cons]
      -- the chunk may have been written before the answer that split it
      rw [liveAfter_attemptsAt hfirst]
      by_cases hnone : first = []
      · rw [if_pos hnone]
      · rw [if_neg hnone]
        simp only [hmode, batchWrite, apply_add, addresses_append, List.toFinset_append]
        rw [← Finset.union_assoc, Finset.union_assoc prior, Finset.union_self]
        rw [Finset.union_assoc]
  | fail _ _ => cases hresult

/-- **A queue whose head replaces** leaves exactly its records, whatever was live before. -/
theorem Drained.liveAfter_replace
    (h : Drained http maxRetries endpoint groupName queue aggregate w trace result w')
    (hhead : HeadMode .fullReplace queue) (hne : queue ≠ []) (resp : BatchRecordsResponse)
    (hresult : result = .ok resp) {done : List Attempt} (hdone : Applied trace done)
    (prior : Finset String) :
    liveAfter prior done = (addresses (queueRecords queue)).toFinset := by
  induction h generalizing done prior with
  | empty => exact absurd rfl hne
  | @accept chunk mode queue _ _ _ _ _ _ _ _ htry hrestDrained _ =>
      obtain ⟨first, rest, rfl, hfirst, hrest⟩ := hdone.of_append
      have hmode : mode = .fullReplace := hhead.1
      rw [liveAfter_append, ChunkSent.liveAfter_ok htry hfirst,
        Drained.liveAfter_upsert hrestDrained hhead.2 resp hresult hrest]
      simp only [hmode, batchWrite, apply_replace, queueRecords_cons, addresses_append,
        List.toFinset_append]
  | @split chunk mode queue _ _ _ _ _ _ _ _ _ _ _ _ _ ih =>
      obtain ⟨first, rest, rfl, hfirst, hrest⟩ := hdone.of_append
      have hqueue : HeadMode .fullReplace ((chunk.take (chunk.length / 2), mode) ::
          (chunk.drop (chunk.length / 2), .upsert) :: queue) := by
        refine ⟨hhead.1, ?_⟩
        intro c hc
        rcases List.mem_cons.mp hc with rfl | hc
        · rfl
        · exact hhead.2 c hc
      rw [liveAfter_append, ih hqueue (List.cons_ne_nil _ _) hresult hrest, queueRecords_split,
        queueRecords_cons]
  | fail _ _ => cases hresult

/-! ### The chunks of one target -/

variable {vault : VaultEndpoint} {modeAt : ℕ → BatchMode} {index : ℕ}
  {chunks : List (List BatchRecordInput)} {out : ℕ × Option ClientError}

theorem modeForChunkIndex_of_pos {mode : BatchMode} {i : ℕ} (hi : 1 ≤ i) :
    modeForChunkIndex mode i = .upsert := by
  rw [modeForChunkIndex, if_neg (by omega)]

/-- Chunks after the first add their records. -/
theorem ChunksPushed.liveAfter_upsert
    (h : ChunksPushed http maxRetries vault groupName modeAt index chunks w trace out w')
    (hup : ∀ i, index ≤ i → modeAt i = .upsert) (hnone : out.2 = none) {done : List Attempt}
    (hdone : Applied trace done) (prior : Finset String) :
    liveAfter prior done = prior ∪ (addresses chunks.flatten).toFinset := by
  induction h generalizing done prior with
  | done =>
      cases hdone
      simp
  | @next index chunk chunks _ _ _ _ _ _ _ _ htrace _ ih =>
      obtain ⟨first, rest, rfl, hfirst, hrest⟩ := hdone.of_append
      have hqueue : ∀ c ∈ [(chunk, modeAt index)], c.2 = BatchMode.upsert := by
        intro c hc
        rw [List.mem_singleton.mp hc]
        exact hup index le_rfl
      rw [liveAfter_append, Drained.liveAfter_upsert htrace hqueue _ rfl hfirst,
        ih (fun i hi => hup i (by omega)) hnone hrest]
      simp only [queueRecords_cons, queueRecords_nil, List.append_nil, List.flatten_cons,
        addresses_append, List.toFinset_append, Finset.union_assoc]
  | stop _ => cases hnone

/-- **A replacing sequence of chunks** that is accepted to its end leaves exactly its records. -/
theorem ChunksPushed.liveAfter_replace
    (h : ChunksPushed http maxRetries vault groupName (modeForChunkIndex .fullReplace) 0 chunks w
      trace out w')
    (hne : chunks ≠ []) (hnone : out.2 = none) {done : List Attempt} (hdone : Applied trace done)
    (prior : Finset String) :
    liveAfter prior done = (addresses chunks.flatten).toFinset := by
  cases h with
  | done => exact absurd rfl hne
  | @next _ chunk chunks _ _ _ _ _ _ _ _ htrace hrestPushed =>
      obtain ⟨first, rest, rfl, hfirst, hrest⟩ := hdone.of_append
      have hhead : HeadMode .fullReplace [(chunk, modeForChunkIndex .fullReplace 0)] :=
        ⟨rfl, by simp⟩
      rw [liveAfter_append,
        Drained.liveAfter_replace htrace hhead (List.cons_ne_nil _ _) _ rfl hfirst,
        ChunksPushed.liveAfter_upsert hrestPushed (fun i hi => modeForChunkIndex_of_pos hi) hnone
          hrest]
      simp only [queueRecords_cons, queueRecords_nil, List.append_nil, List.flatten_cons,
        addresses_append, List.toFinset_append]
  | stop _ => cases hnone

/-- What a target accepted is the beginning of the list. -/
theorem ChunksPushed.acceptedRecords_isPrefix
    (h : ChunksPushed http maxRetries vault groupName modeAt index chunks w trace out w')
    (hne : ∀ chunk ∈ chunks, chunk ≠ []) : acceptedRecords trace <+: chunks.flatten := by
  induction h with
  | done => exact List.nil_prefix
  | next htrace _ ih =>
      have hrecords := (htrace.delivered _ rfl).1
      rw [queueRecords_cons, queueRecords_nil, List.append_nil] at hrecords
      rw [acceptedRecords_append, hrecords, List.flatten_cons, List.prefix_append_right_inj]
      exact ih fun c hc => hne c (List.mem_cons_of_mem _ hc)
  | @stop index chunk chunks _ _ e _ htrace =>
      have hchunks : NonemptyChunks [(chunk, modeAt index)] := by
        intro c hc
        rw [List.mem_singleton.mp hc]
        exact hne chunk (List.mem_cons_self ..)
      obtain ⟨missing, -, heq⟩ := htrace.undelivered hchunks e rfl
      rw [queueRecords_cons, queueRecords_nil, List.append_nil] at heq
      rw [List.flatten_cons, ← heq, List.append_assoc]
      exact List.prefix_append _ _

/-- Only the first accepted request carries the mode of the first chunk. -/
theorem ChunksPushed.firstMode (mode : BatchMode)
    (h : ChunksPushed http maxRetries vault groupName (modeForChunkIndex mode) 0 chunks w trace out
      w')
    (hne : ∀ chunk ∈ chunks, chunk ≠ []) : FirstMode mode (accepted trace) := by
  cases h with
  | done => trivial
  | @next _ chunk chunks _ first _ _ rest _ _ _ htrace hrest =>
      have hfirst := htrace.modes mode ⟨rfl, by simp⟩
      have hups := hrest.upserts fun i hi => modeForChunkIndex_of_pos hi
      have hrecords := (htrace.delivered _ rfl).1
      rw [queueRecords_cons, queueRecords_nil, List.append_nil] at hrecords
      rw [accepted_append]
      cases hacc : accepted first with
      | nil =>
          rw [acceptedRecords, hacc] at hrecords
          exact absurd hrecords.symm (hne chunk (List.mem_cons_self ..))
      | cons a others =>
          rw [hacc] at hfirst
          refine ⟨hfirst.1, ?_⟩
          intro b hb
          rcases List.mem_append.mp hb with hb | hb
          · exact hfirst.2 b hb
          · exact hups b hb
  | stop htrace => exact htrace.modes mode ⟨rfl, by simp⟩

end

/-- After any beginning of the accepted requests of a replacing push, the content is what these
requests carried; before the first of them it is untouched. -/
theorem liveAfter_of_firstMode {done : List Attempt} (h : FirstMode .fullReplace done)
    (prior : Finset String) :
    liveAfter prior done =
      if done = [] then prior else (addresses (done.flatMap Attempt.records)).toFinset := by
  cases done with
  | nil => simp
  | cons a rest =>
      have hrest : (rest.map fun b => batchWrite b.mode b.records) =
          (rest.map fun b => addresses b.records).map Write.add := by
        rw [List.map_map]
        apply List.map_congr_left
        intro b hb
        rw [h.2 b hb]
        rfl
      have hfirst : batchWrite a.mode a.records = Write.replace (addresses a.records) := by
        rw [h.1]
        rfl
      rw [liveAfter, List.map_cons, hrest, hfirst, applyAll_replace_add, apply_replace,
        if_neg (List.cons_ne_nil _ _), List.flatMap_cons, addresses_append, addresses_flatMap]

end SimplyIpSync.Jobs
