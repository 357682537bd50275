import SimplyIpSync.Client.Types
import SimplyIpSync.Retry

/-!
# The retry loop (`post_batch_with_retry`, `get_ips_page_with_retry`)

Both callers write the same loop around one request: a transient status is retried after a
backoff, up to `max_retries` times, and everything else is final.  Here it is one definition
with the request as a parameter.

Callers and proofs never unfold the loop.  `Retried` lists the answers of a run of it, with the
worlds before and after; `retryFrom_retried` and `Retried.retryFrom_eq` connect it to the
function in both directions.
-/

namespace SimplyIpSync.Client

open SimplyIpSync.Retry

variable {W α : Type*}

/-- The retry loop, entered with `attempt` retries already made. -/
def retryFrom (send : W → Except ClientError α × W) (backoff : ℕ → W → W) (maxRetries : ℕ)
    (attempt : ℕ) (w : W) : Except ClientError α × W :=
  match send w with
  | (.ok answer, w) => (.ok answer, w)
  | (.error (.remoteError status body), w) =>
      if isTransientStatus status ∧ attempt < maxRetries then
        retryFrom send backoff maxRetries (attempt + 1) (backoff (attempt + 1) w)
      else (.error (.remoteError status body), w)
  | (.error e, w) => (.error e, w)
termination_by maxRetries - attempt

/-- A run of the retry loop with `attempt` retries used up before it: the answers in the order
of the requests, the final one, and the worlds before and after. -/
inductive Retried (send : W → Except ClientError α × W) (backoff : ℕ → W → W)
    (maxRetries : ℕ) : ℕ → W → List (Except ClientError α) → Except ClientError α → W → Prop
  | final {attempt w result w'} :
      send w = (result, w') →
      (∀ status body, result = .error (.remoteError status body) → isTransientStatus status →
        maxRetries ≤ attempt) →
      Retried send backoff maxRetries attempt w [result] result w'
  | again {attempt w status body w₁ answers result w'} :
      send w = (.error (.remoteError status body), w₁) →
      isTransientStatus status → attempt < maxRetries →
      Retried send backoff maxRetries (attempt + 1) (backoff (attempt + 1) w₁) answers result w' →
      Retried send backoff maxRetries attempt w (.error (.remoteError status body) :: answers)
        result w'

variable {send : W → Except ClientError α × W} {backoff : ℕ → W → W} {maxRetries : ℕ}

/-- **The retry loop is total and does what `Retried` says.** -/
theorem retryFrom_retried (attempt : ℕ) (w : W) :
    ∃ answers, Retried send backoff maxRetries attempt w answers
      (retryFrom send backoff maxRetries attempt w).1
      (retryFrom send backoff maxRetries attempt w).2 := by
  fun_induction retryFrom send backoff maxRetries attempt w with
  | case1 attempt w answer w' hsend => exact ⟨_, Retried.final hsend (by simp)⟩
  | case2 attempt w status body w' hsend hagain ih =>
      obtain ⟨answers, hanswers⟩ := ih
      exact ⟨_, Retried.again hsend hagain.1 hagain.2 hanswers⟩
  | case3 attempt w status body w' hsend hstop =>
      refine ⟨_, Retried.final hsend ?_⟩
      intro status' body' heq htransient
      obtain ⟨rfl, rfl⟩ := ClientError.remoteError.inj (Except.error.inj heq)
      exact not_lt.mp fun hleft => hstop ⟨htransient, hleft⟩
  | case4 attempt w e w' hother hsend =>
      refine ⟨_, Retried.final hsend ?_⟩
      intro status body heq
      exact absurd (Except.error.inj heq) (hother status body)

variable {attempt : ℕ} {w w' : W} {answers : List (Except ClientError α)}
  {result : Except ClientError α}

/-- The relation determines the function. -/
theorem Retried.retryFrom_eq (h : Retried send backoff maxRetries attempt w answers result w') :
    retryFrom send backoff maxRetries attempt w = (result, w') := by
  induction h with
  | @final attempt w result w' hsend hlast =>
      rw [retryFrom, hsend]
      cases result with
      | ok answer => rfl
      | error e =>
          cases e with
          | remoteError status body =>
              refine if_neg ?_
              rintro ⟨htransient, hleft⟩
              exact absurd (hlast status body rfl htransient) (not_le.mpr hleft)
          | invalidUrl | decrypt | signing | request => rfl
  | again hsend htransient hleft _ ih =>
      rw [retryFrom, hsend]
      simp only
      rw [if_pos ⟨htransient, hleft⟩, ih]

/-- One attempt and at most the retries that are left. -/
theorem Retried.length_le (h : Retried send backoff maxRetries attempt w answers result w') :
    answers.length ≤ maxRetries - attempt + 1 := by
  induction h with
  | final _ _ => simp
  | again _ _ hlt _ ih =>
      rw [List.length_cons]
      omega

/-- Every answer before the last is an error; the last is the result. -/
theorem Retried.answers_eq (h : Retried send backoff maxRetries attempt w answers result w') :
    ∃ failed : List ClientError, answers = failed.map .error ++ [result] := by
  induction h with
  | final _ _ => exact ⟨[], rfl⟩
  | again _ _ _ _ ih =>
      obtain ⟨failed, rfl⟩ := ih
      exact ⟨_ :: failed, rfl⟩

/-- The last answer is that of a request. -/
theorem Retried.sent (h : Retried send backoff maxRetries attempt w answers result w') :
    ∃ w₀ w₁, send w₀ = (result, w₁) := by
  induction h with
  | final hsend _ => exact ⟨_, _, hsend⟩
  | again _ _ _ _ ih => exact ih

/-- Two loops whose requests and sleeps correspond under a map of the world answer alike. -/
theorem Retried.map {V : Type*} {send' : V → Except ClientError α × V} {backoff' : ℕ → V → V}
    (f : List (Except ClientError α) → W → V)
    (hsend : ∀ past w result w₁, send w = (result, w₁) →
      send' (f past w) = (result, f (past ++ [result]) w₁))
    (hbackoff : ∀ past n w, backoff' n (f past w) = f past (backoff n w))
    (h : Retried send backoff maxRetries attempt w answers result w')
    (past : List (Except ClientError α)) :
    Retried send' backoff' maxRetries attempt (f past w) answers result
      (f (past ++ answers) w') := by
  induction h generalizing past with
  | final hfirst hlast => exact Retried.final (hsend _ _ _ _ hfirst) hlast
  | @again _ _ _ _ _ answers _ _ hfirst htransient hleft _ ih =>
      refine Retried.again (hsend _ _ _ _ hfirst) htransient hleft ?_
      rw [hbackoff, List.append_cons past _ answers]
      exact ih _

end SimplyIpSync.Client
