import SimplyIpSync.Client.Signing
import SimplyIpSync.Client.DeltaPages
import SimplyIpSync.Lib.Reach

/-!
# The errands of the jobs

What the jobs send, as it looks from outside.  An errand fetches one delta (`get_ips_delta`) or
delivers one list of chunks to one target (`post_batch`, chunk after chunk); the errands of all jobs
interleave.  An errand sends a request, waits for the answer, and after a transient one sleeps
for a backoff and sends the same again, signed with the second it is then; after a good answer, or a
split, it goes on with the next page or chunk.

`Drained.is_push` and `Fetched.is_fetch` connect errands to the code: whatever `post_batch` or
`get_ips_delta` do with their answers, an errand does the same.
-/

namespace SimplyIpSync.Client

open SimplyIpSync.Entities SimplyIpSync.Replay SimplyIpSync.Retry SimplyIpSync.Reach

/-! ### Errands -/

/-- The retry settings of the environment. -/
structure RetryConfig where
  /-- `OUTBOUND_RETRY_BACKOFF_MS`. -/
  baseMs : ℕ
  /-- `OUTBOUND_MAX_RETRIES`. -/
  maxRetries : ℕ

/-- What an errand is for. -/
inductive Work
  /-- The delta of a source group. -/
  | fetch (since : Option ℤ) (includeDeleted : Bool)
  /-- The chunks for one target. -/
  | push (chunks : List Chunk)

/-- One errand to a vault, and the seconds in which it is under way: without a last one, for good. -/
structure Errand where
  endpoint : VaultEndpoint
  groupName : String
  work : Work
  firstSecond : ℤ
  lastSecond : Option ℤ
  nonempty : ∀ last ∈ lastSecond, firstSecond ≤ last

def Errand.UnderWay (e : Errand) (second : ℤ) : Prop :=
  e.firstSecond ≤ second ∧ ∀ last ∈ e.lastSecond, second ≤ last

instance (e : Errand) (second : ℤ) : Decidable (e.UnderWay second) :=
  inferInstanceAs (Decidable (_ ∧ ∀ last ∈ e.lastSecond, _))

/-- All errands there are, by number. -/
abbrev Workload := ℕ → Option Errand

/-- What an errand still has to send. -/
inductive Plan
  | pages (since : Option ℤ) (includeDeleted : Bool) (offset : ℕ)
  | chunks (queue : List Chunk)
  deriving DecidableEq

/-- Where an errand begins. -/
def Work.begin : Work → Plan
  | .fetch since includeDeleted => .pages since includeDeleted 0
  | .push chunks => .chunks chunks

namespace Plan

/-- The next request. -/
def request? (groupName : String) : Plan → Option OutboundRequest
  | .pages since includeDeleted offset => some (.page groupName since includeDeleted offset)
  | .chunks [] => none
  | .chunks ((records, mode) :: _) => some (.batch groupName records mode)

/-- The rest, once a page has come or a chunk is taken: nothing after a page that is not full. -/
def next? (fullPage : Bool) : Plan → Option Plan
  | .pages since includeDeleted offset =>
      if fullPage then some (.pages since includeDeleted (offset + deltaPageSize)) else none
  | .chunks [] => none
  | .chunks (_ :: queue) => some (.chunks queue)

/-- The rest, once an error status has a chunk halved. -/
def halved? (status : ℕ) : Plan → Option Plan
  | .chunks ((records, mode) :: queue) =>
      if 1 < records.length ∧ (status = 413 ∨ isTransientStatus status) then
        some (.chunks ((records.take (records.length / 2), mode) ::
          (records.drop (records.length / 2), secondMode mode) :: queue))
      else none
  | _ => none

end Plan

/-- What an errand is doing. -/
inductive Phase
  /-- Its next request may go out from `wakeAt` on, after this many attempts at it. -/
  | asleep (attempt : ℕ) (wakeAt : ℤ)
  /-- A request is out. -/
  | awaiting (attempt : ℕ)
  | over
  deriving DecidableEq

/-- How far an errand is. -/
structure Progress where
  plan : Plan
  phase : Phase
  deriving DecidableEq

/-- What a request comes to. -/
inductive Answer
  /-- Success; for a page, whether it is a full one. -/
  | ok (fullPage : Bool)
  | status (status : ℕ)
  /-- No answer, or none that is understood. -/
  | failed
  deriving DecidableEq

/-- Nanoseconds in a millisecond. -/
def nanosPerMs : ℤ := 1000000

/-- What an answer does to its errand, with the backoff it draws, in milliseconds. -/
def settle (cfg : RetryConfig) (now : ℤ) (plan : Plan) (attempt : ℕ) (delay : ℕ) :
    Answer → Option Progress
  | .ok fullPage =>
      match plan.next? fullPage with
      | some rest => some ⟨rest, .asleep 0 now⟩
      | none => some ⟨plan, .over⟩
  | .status status =>
      if isTransientStatus status ∧ attempt < cfg.maxRetries then
        if IsBackoff cfg.baseMs (attempt + 1) delay then
          some ⟨plan, .asleep (attempt + 1) (now + delay * nanosPerMs)⟩
        else none
      else
        match plan.halved? status with
        | some rest =>
            if status = 413 then some ⟨rest, .asleep 0 now⟩
            else if IsBackoff cfg.baseMs 1 delay then
              some ⟨rest, .asleep 0 (now + delay * nanosPerMs)⟩
            else none
        | none => some ⟨plan, .over⟩
  | .failed => some ⟨plan, .over⟩

/-! ### All errands together -/

/-- A request on the wire. -/
structure Sent where
  errand : ℕ
  endpoint : VaultEndpoint
  request : OutboundRequest
  sentAt : ℤ

/-- The clock, how far each errand is, and everything sent. -/
structure Outbound where
  now : ℤ
  progress : ℕ → Option Progress
  sent : List Sent

/-- What can happen. -/
inductive OutboundEvent
  | tick (now : ℤ)
  /-- An errand sends its next request, or the same again. -/
  | send (errand : ℕ)
  | answer (errand : ℕ) (answer : Answer) (delay : ℕ)

namespace Outbound

def setProgress (s : Outbound) (i : ℕ) (p : Progress) : Outbound :=
  { s with progress := Function.update s.progress i (some p) }

/-- A request goes out, signed now. -/
def put (s : Outbound) (i : ℕ) (e : Errand) (plan : Plan) (attempt : ℕ) (request : OutboundRequest) :
    Outbound :=
  { s.setProgress i ⟨plan, .awaiting attempt⟩ with
    sent := s.sent ++ [⟨i, e.endpoint, request, s.now⟩] }

/-- An errand that is awake and under way sends. -/
def sendNext (s : Outbound) (i : ℕ) (e : Errand) (p : Progress) : Option Outbound :=
  match p.phase, p.plan.request? e.groupName with
  | .asleep attempt wakeAt, some request =>
      if wakeAt ≤ s.now ∧ e.UnderWay (timestamp s.now) then
        some (s.put i e p.plan attempt request)
      else none
  | _, _ => none

/-- An errand that waits gets an answer. -/
def receive (cfg : RetryConfig) (s : Outbound) (i : ℕ) (answer : Answer) (delay : ℕ) (p : Progress) :
    Option Outbound :=
  match p.phase with
  | .awaiting attempt => (settle cfg s.now p.plan attempt delay answer).map (s.setProgress i)
  | _ => none

/-- One event. -/
def step (cfg : RetryConfig) (work : Workload) (s : Outbound) : OutboundEvent → Option Outbound
  | .tick now => if s.now ≤ now then some { s with now := now } else none
  | .send i => (work i).bind fun e => (s.progress i).bind fun p => s.sendNext i e p
  | .answer i answer delay => (s.progress i).bind fun p => s.receive cfg i answer delay p

/-- Every errand is about to begin. -/
def start (work : Workload) (now : ℤ) : Outbound where
  now := now
  progress i := (work i).map fun e => ⟨e.work.begin, .asleep 0 now⟩
  sent := []

section

variable {cfg : RetryConfig} {work : Workload} {s s' : Outbound} {i : ℕ} {e : Errand} {plan : Plan}
  {attempt : ℕ} {request : OutboundRequest}

@[simp] theorem setProgress_now (p : Progress) : (s.setProgress i p).now = s.now := rfl

@[simp] theorem setProgress_sent (p : Progress) : (s.setProgress i p).sent = s.sent := rfl

@[simp] theorem setProgress_self (p : Progress) : (s.setProgress i p).progress i = some p := by
  show Function.update s.progress i (some p) i = some p
  rw [Function.update_self]

theorem setProgress_of_ne {j : ℕ} (p : Progress) (h : j ≠ i) :
    (s.setProgress i p).progress j = s.progress j := by
  show Function.update s.progress i (some p) j = s.progress j
  rw [Function.update_of_ne h]

@[simp] theorem put_now : (s.put i e plan attempt request).now = s.now := rfl

@[simp] theorem put_sent :
    (s.put i e plan attempt request).sent = s.sent ++ [⟨i, e.endpoint, request, s.now⟩] := rfl

@[simp] theorem put_self :
    (s.put i e plan attempt request).progress i = some ⟨plan, .awaiting attempt⟩ :=
  s.setProgress_self _

theorem put_of_ne {j : ℕ} (h : j ≠ i) :
    (s.put i e plan attempt request).progress j = s.progress j :=
  s.setProgress_of_ne _ h

/-- Whoever is awake and under way can send. -/
theorem step_send {wakeAt : ℤ} (hwork : work i = some e)
    (hprogress : s.progress i = some ⟨plan, .asleep attempt wakeAt⟩)
    (hrequest : plan.request? e.groupName = some request) (hawake : wakeAt ≤ s.now)
    (hway : e.UnderWay (timestamp s.now)) :
    s.step cfg work (.send i) = some (s.put i e plan attempt request) := by
  simp only [step, hwork, hprogress, Option.bind_some, sendNext, hrequest]
  exact if_pos ⟨hawake, hway⟩

/-- Whoever waits can get any answer. -/
theorem step_answer {answer : Answer} {delay : ℕ} {p : Progress}
    (hprogress : s.progress i = some ⟨plan, .awaiting attempt⟩)
    (hsettle : settle cfg s.now plan attempt delay answer = some p) :
    s.step cfg work (.answer i answer delay) = some (s.setProgress i p) := by
  simp only [step, hprogress, Option.bind_some, receive, hsettle, Option.map_some]

/-- **What an event can do.** -/
theorem step_cases {event : OutboundEvent} (h : s.step cfg work event = some s') :
    (∃ now, s.now ≤ now ∧ s' = { s with now := now }) ∨
    (∃ i e plan attempt wakeAt request, work i = some e ∧
      s.progress i = some ⟨plan, .asleep attempt wakeAt⟩ ∧
      plan.request? e.groupName = some request ∧ wakeAt ≤ s.now ∧ e.UnderWay (timestamp s.now) ∧
      s' = s.put i e plan attempt request) ∨
    ∃ i plan attempt answer delay p, s.progress i = some ⟨plan, .awaiting attempt⟩ ∧
      settle cfg s.now plan attempt delay answer = some p ∧ s' = s.setProgress i p := by
  cases event with
  | tick now =>
      rw [step] at h
      split at h
      · rename_i hle
        exact Or.inl ⟨now, hle, (Option.some.inj h).symm⟩
      · cases h
  | send i =>
      obtain ⟨e, hwork, h⟩ := Option.bind_eq_some_iff.mp h
      obtain ⟨⟨plan, phase⟩, hprogress, h⟩ := Option.bind_eq_some_iff.mp h
      rw [sendNext] at h
      split at h
      · rename_i attempt wakeAt request hphase hrequest
        split at h
        · rename_i hmay
          obtain rfl : phase = .asleep attempt wakeAt := hphase
          exact Or.inr (Or.inl ⟨i, e, plan, attempt, wakeAt, request, hwork, hprogress, hrequest,
            hmay.1, hmay.2, (Option.some.inj h).symm⟩)
        · cases h
      · cases h
  | answer i answer delay =>
      obtain ⟨⟨plan, phase⟩, hprogress, h⟩ := Option.bind_eq_some_iff.mp h
      rw [receive] at h
      split at h
      · rename_i attempt hphase
        obtain rfl : phase = .awaiting attempt := hphase
        obtain ⟨p, hsettle, h⟩ := Option.map_eq_some_iff.mp h
        exact Or.inr (Or.inr ⟨i, plan, attempt, answer, delay, p, hprogress, hsettle, h.symm⟩)
      · cases h

end

end Outbound

/-- The errand goes from one plan to the next. -/
def Plan.Advances (plan rest : Plan) : Prop :=
  (∃ fullPage, plan.next? fullPage = some rest) ∨ ∃ status, plan.halved? status = some rest

/-- **What an answer can do:** it ends the errand, has it sleep before a retry, or advances it. -/
theorem settle_spec {cfg : RetryConfig} {now : ℤ} {plan : Plan} {attempt delay : ℕ} {answer : Answer}
    {p : Progress} (h : settle cfg now plan attempt delay answer = some p) :
    p = ⟨plan, .over⟩ ∨
    (attempt < cfg.maxRetries ∧ IsBackoff cfg.baseMs (attempt + 1) delay ∧
      p = ⟨plan, .asleep (attempt + 1) (now + delay * nanosPerMs)⟩) ∨
    ∃ rest wakeAt, plan.Advances rest ∧ p = ⟨rest, .asleep 0 wakeAt⟩ := by
  cases answer with
  | ok fullPage =>
      simp only [settle] at h
      split at h
      · rename_i rest hnext
        exact Or.inr (Or.inr ⟨rest, now, Or.inl ⟨fullPage, hnext⟩, (Option.some.inj h).symm⟩)
      · exact Or.inl (Option.some.inj h).symm
  | status status =>
      simp only [settle] at h
      split at h
      · rename_i hretry
        split at h
        · rename_i hdelay
          exact Or.inr (Or.inl ⟨hretry.2, hdelay, (Option.some.inj h).symm⟩)
        · cases h
      · split at h
        · rename_i rest hhalved
          have hadvances : plan.Advances rest := Or.inr ⟨status, hhalved⟩
          split at h
          · exact Or.inr (Or.inr ⟨rest, now, hadvances, (Option.some.inj h).symm⟩)
          · split at h
            · exact Or.inr (Or.inr ⟨rest, _, hadvances, (Option.some.inj h).symm⟩)
            · cases h
        · exact Or.inl (Option.some.inj h).symm
  | failed => exact Or.inl (Option.some.inj h).symm

/-! ### What a plan still contains -/

/-- What a chunk comes to when it is halved as often as it can be: only its first record keeps the
mode. -/
def leaves : Chunk → List Chunk
  | ([], mode) => [([], mode)]
  | (record :: records, mode) => ([record], mode) :: records.map fun r => ([r], .upsert)

/-- The same for a queue. -/
def leavesOf (queue : List Chunk) : List Chunk := queue.flatMap leaves

@[simp] theorem leavesOf_nil : leavesOf [] = [] := rfl

@[simp] theorem leavesOf_cons (chunk : Chunk) (queue : List Chunk) :
    leavesOf (chunk :: queue) = leaves chunk ++ leavesOf queue := rfl

theorem leaves_of_length_le {chunk : Chunk} (h : chunk.1.length ≤ 1) : leaves chunk = [chunk] := by
  obtain ⟨records, mode⟩ := chunk
  cases records with
  | nil => rfl
  | cons record records =>
      have hnil : records = [] :=
        List.eq_nil_of_length_eq_zero (Nat.le_zero.mp (Nat.le_of_succ_le_succ h))
      rw [hnil]
      rfl

theorem exists_leaves_eq_cons (chunk : Chunk) : ∃ leaf rest, leaves chunk = leaf :: rest := by
  obtain ⟨records, mode⟩ := chunk
  cases records with
  | nil => exact ⟨_, _, rfl⟩
  | cons record records => exact ⟨_, _, rfl⟩

theorem leaves_upsert {records : List BatchRecordInput} (h : records ≠ []) :
    leaves (records, .upsert) = records.map fun r => ([r], .upsert) := by
  cases records with
  | nil => exact absurd rfl h
  | cons record records => rfl

/-- **Halving a chunk leaves its leaves as they are.** -/
theorem leaves_halves {records : List BatchRecordInput} (mode : BatchMode) (h : 1 < records.length) :
    leaves (records.take (records.length / 2), mode) ++
      leaves (records.drop (records.length / 2), .upsert) = leaves (records, mode) := by
  obtain ⟨k, hk⟩ : ∃ k, records.length / 2 = k + 1 := ⟨records.length / 2 - 1, by omega⟩
  cases records with
  | nil => simp at h
  | cons record records =>
      have hrest : records.drop k ≠ [] := by
        rw [List.ne_nil_iff_length_pos, List.length_drop]
        rw [List.length_cons] at h hk
        omega
      rw [hk, List.take_succ_cons, List.drop_succ_cons, leaves_upsert hrest]
      show ([record], mode) :: (records.take k).map _ ++ (records.drop k).map _ = _
      rw [List.cons_append, ← List.map_append, List.take_append_drop]
      rfl

namespace Plan

/-- The plan comes up in the course of the errand. -/
def Of (e : Errand) : Plan → Prop
  | .pages since includeDeleted _ => e.work = .fetch since includeDeleted
  | .chunks queue => ∃ chunks, e.work = .push chunks ∧ leavesOf queue <:+ leavesOf chunks

/-- The number of records in the first chunk. -/
def headLength (queue : List Chunk) : ℕ := (queue.head?.map fun chunk => chunk.1.length).getD 0

/-- The second plan comes after the first: at a later page, with fewer leaves to go, or with as many
and a shorter chunk in front. -/
def Before : Plan → Plan → Prop
  | .pages _ _ offset, .pages _ _ offset' => offset < offset'
  | .chunks queue, .chunks queue' =>
      (leavesOf queue').length < (leavesOf queue).length ∨
        (leavesOf queue').length = (leavesOf queue).length ∧ headLength queue' < headLength queue
  | _, _ => False

theorem begin_of (e : Errand) : e.work.begin.Of e := by
  cases hwork : e.work with
  | fetch since includeDeleted => exact hwork
  | push chunks => exact ⟨chunks, hwork, List.suffix_rfl⟩

theorem Before.trans {p q r : Plan} (hpq : p.Before q) (hqr : q.Before r) : p.Before r := by
  cases p with
  | pages since includeDeleted offset =>
      cases q with
      | chunks queue => exact hpq.elim
      | pages since' includeDeleted' offset' =>
          cases r with
          | chunks queue => exact hqr.elim
          | pages since'' includeDeleted'' offset'' => exact Nat.lt_trans hpq hqr
  | chunks queue =>
      cases q with
      | pages since includeDeleted offset => exact hpq.elim
      | chunks queue' =>
          cases r with
          | pages since includeDeleted offset => exact hqr.elim
          | chunks queue'' =>
              simp only [Before] at hpq hqr ⊢
              omega

/-- **An errand goes forward:** the next plan is one of the same errand, and a later one. -/
theorem Advances.spec {e : Errand} {plan rest : Plan} (h : plan.Advances rest) (hof : plan.Of e) :
    rest.Of e ∧ plan.Before rest := by
  cases plan with
  | pages since includeDeleted offset =>
      rcases h with ⟨fullPage, hnext⟩ | ⟨status, hhalved⟩
      · cases fullPage with
        | false => cases hnext
        | true =>
            obtain rfl := Option.some.inj hnext
            refine ⟨hof, ?_⟩
            show offset < offset + deltaPageSize
            simp only [deltaPageSize]
            omega
      · cases hhalved
  | chunks queue =>
      obtain ⟨chunks, hwork, hsuffix⟩ := hof
      cases queue with
      | nil =>
          rcases h with ⟨fullPage, hnext⟩ | ⟨status, hhalved⟩
          · cases hnext
          · cases hhalved
      | cons chunk queue =>
          rcases h with ⟨fullPage, hnext⟩ | ⟨status, hhalved⟩
          · obtain rfl := Option.some.inj hnext
            refine ⟨⟨chunks, hwork, (List.suffix_append _ _).trans hsuffix⟩, Or.inl ?_⟩
            obtain ⟨leaf, others, hleaves⟩ := exists_leaves_eq_cons chunk
            rw [leavesOf_cons, hleaves, List.cons_append, List.length_cons, List.length_append]
            omega
          · simp only [halved?] at hhalved
            split at hhalved
            · rename_i hsplit
              obtain rfl := Option.some.inj hhalved
              have hsame : leavesOf ((chunk.1.take (chunk.1.length / 2), chunk.2) ::
                  (chunk.1.drop (chunk.1.length / 2), secondMode chunk.2) :: queue) =
                  leavesOf (chunk :: queue) := by
                rw [leavesOf_cons, leavesOf_cons, leavesOf_cons, secondMode_eq, ← List.append_assoc,
                  leaves_halves chunk.2 hsplit.1]
              refine ⟨⟨chunks, hwork, hsame ▸ hsuffix⟩, Or.inr ⟨congrArg List.length hsame, ?_⟩⟩
              show (chunk.1.take (chunk.1.length / 2)).length < chunk.1.length
              rw [List.length_take]
              omega
            · cases hhalved

end Plan

/-! ### What an errand can do by itself -/

/-- The errand can get from one state to the other by sending these requests. -/
structure Sends (cfg : RetryConfig) (work : Workload) (i : ℕ) (e : Errand) (s : Outbound)
    (requests : List OutboundRequest) (t : Outbound) : Prop where
  reaches : Reaches (Outbound.step cfg work) anyStep s t
  later : s.now ≤ t.now
  others : ∀ j, j ≠ i → t.progress j = s.progress j
  sent : ∃ new : List Sent, t.sent = s.sent ++ new ∧ new.map Sent.request = requests ∧
    ∀ m ∈ new, m.errand = i ∧ m.endpoint = e.endpoint ∧ s.now ≤ m.sentAt ∧ m.sentAt ≤ t.now

section

variable {cfg : RetryConfig} {work : Workload} {i : ℕ} {e : Errand} {s t u : Outbound}
  {requests requests' : List OutboundRequest} {plan : Plan} {attempt : ℕ} {wakeAt : ℤ}
  {request : OutboundRequest}

theorem Sends.trans (h : Sends cfg work i e s requests t) (h' : Sends cfg work i e t requests' u) :
    Sends cfg work i e s (requests ++ requests') u where
  reaches := h.reaches.trans h'.reaches
  later := h.later.trans h'.later
  others j hj := (h'.others j hj).trans (h.others j hj)
  sent := by
    obtain ⟨new, hsent, hrequests, hnew⟩ := h.sent
    obtain ⟨new', hsent', hrequests', hnew'⟩ := h'.sent
    refine ⟨new ++ new', ?_, ?_, ?_⟩
    · rw [hsent', hsent, List.append_assoc]
    · rw [List.map_append, hrequests, hrequests']
    · intro m hm
      rcases List.mem_append.mp hm with hm | hm
      · obtain ⟨herrand, hendpoint, hfrom, hto⟩ := hnew m hm
        exact ⟨herrand, hendpoint, hfrom, hto.trans h'.later⟩
      · obtain ⟨herrand, hendpoint, hfrom, hto⟩ := hnew' m hm
        exact ⟨herrand, hendpoint, h.later.trans hfrom, hto⟩

theorem Sends.refl : Sends cfg work i e s [] s :=
  ⟨Reaches.refl, le_rfl, fun _ _ => rfl, [], (List.append_nil _).symm, rfl, by simp⟩

/-- An answer sends nothing. -/
theorem Sends.answered (h : Sends cfg work i e s requests t) {answer : Answer} {delay : ℕ}
    {p : Progress} (hprogress : t.progress i = some ⟨plan, .awaiting attempt⟩)
    (hsettle : settle cfg t.now plan attempt delay answer = some p) :
    Sends cfg work i e s requests (t.setProgress i p) := by
  have hanswer : Sends cfg work i e t [] (t.setProgress i p) :=
    ⟨Reaches.refl.tail trivial (Outbound.step_answer hprogress hsettle), le_rfl,
      fun _ hj => t.setProgress_of_ne p hj, [], (List.append_nil _).symm, rfl, by simp⟩
  rw [← List.append_nil requests]
  exact h.trans hanswer

/-- The errand wakes up and sends. -/
theorem Sends.next (cfg : RetryConfig) (hwork : work i = some e)
    (hprogress : s.progress i = some ⟨plan, .asleep attempt wakeAt⟩)
    (hrequest : plan.request? e.groupName = some request)
    (hway : e.UnderWay (timestamp (max s.now wakeAt))) :
    ∃ t, Sends cfg work i e s [request] t ∧ t.now = max s.now wakeAt ∧
      t.progress i = some ⟨plan, .awaiting attempt⟩ := by
  let s₁ : Outbound := { s with now := max s.now wakeAt }
  have h₁ : s.step cfg work (.tick (max s.now wakeAt)) = some s₁ := if_pos (le_max_left _ _)
  have h₂ : s₁.step cfg work (.send i) = some (s₁.put i e plan attempt request) :=
    Outbound.step_send hwork hprogress hrequest (le_max_right _ _) hway
  refine ⟨_, ⟨(Reaches.refl.tail trivial h₁).tail trivial h₂, le_max_left _ _, ?_, ?_⟩, rfl,
    Outbound.put_self⟩
  · exact fun j hj => Outbound.put_of_ne hj
  · refine ⟨[⟨i, e.endpoint, request, s₁.now⟩], rfl, rfl, ?_⟩
    intro m hm
    obtain rfl := List.mem_singleton.mp hm
    exact ⟨rfl, rfl, le_max_left _ _, le_rfl⟩

end

/-! ### Errands are what the code does -/

/-- The answer in which an error of the client comes. -/
def ClientError.answer : ClientError → Answer
  | .remoteError status _ => .status status
  | _ => .failed

/-- An error that is neither retried nor answered by halving ends the errand. -/
theorem settle_error {cfg : RetryConfig} {now : ℤ} {plan : Plan} {attempt : ℕ} {error : ClientError}
    (hspent : ∀ status body, error = .remoteError status body → isTransientStatus status = true →
      cfg.maxRetries ≤ attempt)
    (hwhole : ∀ status body, error = .remoteError status body → plan.halved? status = none) :
    settle cfg now plan attempt 0 error.answer = some ⟨plan, .over⟩ := by
  cases error with
  | remoteError status body =>
      have hlast : ¬(isTransientStatus status = true ∧ attempt < cfg.maxRetries) :=
        fun h => absurd (hspent status body rfl h.1) (not_le.mpr h.2)
      simp only [ClientError.answer, settle, if_neg hlast, hwhole status body rfl]
  | invalidUrl | decrypt | signing | request => rfl

section

variable {W : Type*} {cfg : RetryConfig} {work : Workload} {i : ℕ} {e : Errand}

/-- The errand is under way for good. -/
structure Errand.Going (e : Errand) (s : Outbound) : Prop where
  begun : e.firstSecond ≤ timestamp s.now
  endless : e.lastSecond = none

theorem Errand.Going.underWay {s : Outbound} (h : e.Going s) {t : ℤ} (hle : s.now ≤ t) :
    e.UnderWay (timestamp t) := by
  have hbegun := h.begun
  refine ⟨?_, fun last hlast => absurd (h.endless.symm.trans hlast) (by simp)⟩
  simp only [timestamp, nanosPerSec] at hbegun ⊢
  omega

theorem Errand.Going.mono {s t : Outbound} (h : e.Going s) (hle : s.now ≤ t.now) : e.Going t :=
  ⟨(h.underWay hle).1, h.endless⟩

/-- **A retry loop of the code is one request of an errand with its retries**, up to the last
answer. -/
theorem Retried.is_sent {α : Type*} {send : W → Except ClientError α × W} {backoff : ℕ → W → W}
    {attempt : ℕ} {w w' : W} {answers : List (Except ClientError α)} {result : Except ClientError α}
    (h : Retried send backoff cfg.maxRetries attempt w answers result w') {s : Outbound} {plan : Plan}
    {wakeAt : ℤ} {request : OutboundRequest} (hwork : work i = some e) (hgoing : e.Going s)
    (hprogress : s.progress i = some ⟨plan, .asleep attempt wakeAt⟩)
    (hrequest : plan.request? e.groupName = some request) :
    ∃ t last, Sends cfg work i e s (List.replicate answers.length request) t ∧
      t.progress i = some ⟨plan, .awaiting last⟩ ∧
      ∀ status body, result = .error (.remoteError status body) → isTransientStatus status = true →
        cfg.maxRetries ≤ last := by
  induction h generalizing s wakeAt with
  | @final attempt _ _ _ _ hlast =>
      obtain ⟨t, hsends, _, hawaiting⟩ := Sends.next cfg hwork hprogress hrequest
        (hgoing.underWay (le_max_left _ _))
      exact ⟨t, attempt, hsends, hawaiting, hlast⟩
  | @again attempt _ status _ _ answers _ _ _ htransient hretry _ ih =>
      obtain ⟨t, hsends, _, hawaiting⟩ := Sends.next cfg hwork hprogress hrequest
        (hgoing.underWay (le_max_left _ _))
      let delay : ℕ := cappedBackoffMs cfg.baseMs (attempt + 1)
      have hsettle : settle cfg t.now plan attempt delay (.status status) =
          some ⟨plan, .asleep (attempt + 1) (t.now + delay * nanosPerMs)⟩ := by
        simp only [settle, if_pos (And.intro htransient hretry)]
        exact if_pos ⟨le_rfl, Nat.le_add_right _ _⟩
      have hanswered := hsends.answered hawaiting hsettle
      obtain ⟨u, last, hrest, hend, hspent⟩ :=
        ih (hgoing.mono hanswered.later) (t.setProgress_self _)
      exact ⟨u, last, hanswered.trans hrest, hend, hspent⟩

variable {http : Http W} {w w' : W}

/-- **`post_batch` is a push:** whatever happens to a queue, an errand with these chunks in front
sends the same requests, goes on with the rest where the code returns, and is over where it fails. -/
theorem Drained.is_push {queue : List Chunk} {aggregate : BatchRecordsResponse}
    {trace : List Attempt} {result : Except ClientError BatchRecordsResponse}
    (h : Drained http cfg.maxRetries e.endpoint e.groupName queue aggregate w trace result w')
    {s : Outbound} {rest : List Chunk} {wakeAt : ℤ} (hwork : work i = some e) (hgoing : e.Going s)
    (hprogress : s.progress i = some ⟨.chunks (queue ++ rest), .asleep 0 wakeAt⟩) :
    ∃ t, Sends cfg work i e s (trace.map fun a => .batch e.groupName a.records a.mode) t ∧
      (∀ resp, result = .ok resp →
        ∃ wakeAt, t.progress i = some ⟨.chunks rest, .asleep 0 wakeAt⟩) ∧
      ∀ error, result = .error error → ∃ plan, t.progress i = some ⟨plan, .over⟩ := by
  have htried : ∀ (records : List BatchRecordInput) (mode : BatchMode)
      (answers : List (Except ClientError BatchRecordsResponse)),
      (attemptsAt e.endpoint e.groupName records mode answers).map
          (fun a => OutboundRequest.batch e.groupName a.records a.mode) =
        List.replicate answers.length (.batch e.groupName records mode) := by
    intro records mode answers
    rw [attemptsAt, List.map_map]
    show answers.map (fun _ => OutboundRequest.batch e.groupName records mode) = _
    rw [List.map_const']
  induction h generalizing s wakeAt with
  | empty => exact ⟨s, Sends.refl, fun _ _ => ⟨wakeAt, hprogress⟩, by simp⟩
  | @accept chunk mode queue _ _ answers resp _ _ _ _ htry _ ih =>
      obtain ⟨t, last, hsends, hawaiting, -⟩ := htry.is_sent hwork hgoing hprogress rfl
      have hsettle : settle cfg t.now (.chunks ((chunk, mode) :: queue ++ rest)) last 0 (.ok true) =
          some ⟨.chunks (queue ++ rest), .asleep 0 t.now⟩ := rfl
      have hanswered := hsends.answered hawaiting hsettle
      obtain ⟨u, hrest, hend⟩ := ih (hgoing.mono hanswered.later) (t.setProgress_self _)
      refine ⟨u, ?_, hend⟩
      rw [List.map_append, htried]
      exact hanswered.trans hrest
  | @split chunk mode queue _ _ answers status body _ _ _ _ htry hlong hstatus _ ih =>
      obtain ⟨t, last, hsends, hawaiting, hspent⟩ := htry.is_sent hwork hgoing hprogress rfl
      have hlast : ¬(isTransientStatus status = true ∧ last < cfg.maxRetries) :=
        fun h => absurd (hspent status body rfl h.1) (not_le.mpr h.2)
      have hhalved : Plan.halved? status (.chunks ((chunk, mode) :: queue ++ rest)) =
          some (.chunks ((chunk.take (chunk.length / 2), mode) ::
            (chunk.drop (chunk.length / 2), .upsert) :: queue ++ rest)) := by
        rw [← secondMode_eq mode]
        exact if_pos ⟨hlong, hstatus⟩
      obtain ⟨wakeAt', hsettle⟩ : ∃ wakeAt', settle cfg t.now
          (.chunks ((chunk, mode) :: queue ++ rest)) last (cappedBackoffMs cfg.baseMs 1)
          (.status status) = some ⟨.chunks ((chunk.take (chunk.length / 2), mode) ::
            (chunk.drop (chunk.length / 2), .upsert) :: queue ++ rest), .asleep 0 wakeAt'⟩ := by
        simp only [settle, if_neg hlast, hhalved]
        by_cases hsize : status = 413
        · exact ⟨t.now, if_pos hsize⟩
        · exact ⟨_, (if_neg hsize).trans (if_pos ⟨le_rfl, Nat.le_add_right _ _⟩)⟩
      have hanswered := hsends.answered hawaiting hsettle
      obtain ⟨u, hrest, hend⟩ := ih (hgoing.mono hanswered.later) (t.setProgress_self _)
      refine ⟨u, ?_, hend⟩
      rw [List.map_append, htried]
      exact hanswered.trans hrest
  | @fail chunk mode queue _ _ answers error _ htry hshort =>
      obtain ⟨t, last, hsends, hawaiting, hspent⟩ := htry.is_sent hwork hgoing hprogress rfl
      have hsettle : settle cfg t.now (.chunks ((chunk, mode) :: queue ++ rest)) last 0
          error.answer = some ⟨.chunks ((chunk, mode) :: queue ++ rest), .over⟩ := by
        refine settle_error ?_ ?_
        · intro status body herror
          exact hspent status body (congrArg _ herror)
        · intro status body herror
          refine if_neg ?_
          rintro ⟨hlong, hstatus⟩
          exact absurd (hshort ⟨status, body, herror, hstatus⟩) (not_le.mpr hlong)
      rw [htried]
      exact ⟨_, hsends.answered hawaiting hsettle, by simp, fun _ _ => ⟨_, t.setProgress_self _⟩⟩

/-- **`get_ips_delta` is a fetch:** an errand at the same page sends the same requests and is over
when the code returns. -/
theorem Fetched.is_fetch {since : Option ℤ} {includeDeleted : Bool} {offset : ℕ}
    {allRecords : List IpRecordResponse} {trace : List PageRequest}
    {result : Except ClientError (List IpRecordResponse)}
    (h : Fetched http cfg.maxRetries e.endpoint e.groupName since includeDeleted offset allRecords w
      trace result w')
    {s : Outbound} {wakeAt : ℤ} (hwork : work i = some e) (hgoing : e.Going s)
    (hprogress : s.progress i = some ⟨.pages since includeDeleted offset, .asleep 0 wakeAt⟩) :
    ∃ t plan, Sends cfg work i e s
        (trace.map fun r => .page e.groupName since includeDeleted r.offset) t ∧
      t.progress i = some ⟨plan, .over⟩ := by
  have htried : ∀ (offset : ℕ) (answers : List (Except ClientError (List IpRecordResponse))),
      (requestsAt offset answers).map
          (fun r => OutboundRequest.page e.groupName since includeDeleted r.offset) =
        List.replicate answers.length (.page e.groupName since includeDeleted offset) := by
    intro offset answers
    rw [requestsAt, List.map_map]
    show answers.map (fun _ => OutboundRequest.page e.groupName since includeDeleted offset) = _
    rw [List.map_const']
  induction h generalizing s wakeAt with
  | @fail offset _ _ answers error _ htry =>
      obtain ⟨t, last, hsends, hawaiting, hspent⟩ := htry.is_sent hwork hgoing hprogress rfl
      have hsettle : settle cfg t.now (.pages since includeDeleted offset) last 0 error.answer =
          some ⟨.pages since includeDeleted offset, .over⟩ := by
        refine settle_error ?_ fun _ _ _ => rfl
        intro status body herror
        exact hspent status body (congrArg _ herror)
      rw [htried]
      exact ⟨_, _, hsends.answered hawaiting hsettle, t.setProgress_self _⟩
  | @last offset _ _ answers _ _ htry _ =>
      obtain ⟨t, last, hsends, hawaiting, -⟩ := htry.is_sent hwork hgoing hprogress rfl
      have hsettle : settle cfg t.now (.pages since includeDeleted offset) last 0 (.ok false) =
          some ⟨.pages since includeDeleted offset, .over⟩ := rfl
      rw [htried]
      exact ⟨_, _, hsends.answered hawaiting hsettle, t.setProgress_self _⟩
  | @next offset _ _ answers _ _ _ _ _ htry _ _ ih =>
      obtain ⟨t, last, hsends, hawaiting, -⟩ := htry.is_sent hwork hgoing hprogress rfl
      have hsettle : settle cfg t.now (.pages since includeDeleted offset) last 0 (.ok true) =
          some ⟨.pages since includeDeleted (offset + deltaPageSize), .asleep 0 t.now⟩ := rfl
      have hanswered := hsends.answered hawaiting hsettle
      obtain ⟨u, plan, hrest, hend⟩ := ih (hgoing.mono hanswered.later) (t.setProgress_self _)
      refine ⟨u, plan, ?_, hend⟩
      rw [List.map_append, htried]
      exact hanswered.trans hrest

end

end SimplyIpSync.Client
