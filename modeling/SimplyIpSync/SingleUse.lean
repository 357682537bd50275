import SimplyIpSync.Middleware

/-!
# Are signed requests single-use?

The requests of one process as a run: each event is a request with its two readings of the clock,
and the clock at the replay guard never goes back.  An accepted signature is remembered for one
window from its acceptance, while its timestamp stays in the window until the window has passed
since the end of the second it names.  The two spans differ, and `accepted_single_use_iff` says
exactly when the memory outlives the timestamp.
-/

namespace SimplyIpSync.Middleware

open SimplyIpSync.Entities SimplyIpSync.Crypto SimplyIpSync.Replay SimplyIpSync.Reach

/-! ### The process -/

/-- A request with the clock at its timestamp check and the clock at the replay guard. -/
structure Inbound where
  request : InboundRequest
  checkedAt : ℤ
  recordedAt : ℤ

/-- The guard of a process, and the clock when it was last used. -/
structure Process where
  guard : ReplayGuard
  now : ℤ

/-- A process at its start: `ReplayGuard::default`. -/
def Process.start (now : ℤ) : Process where
  guard := .new maxTimestampSkewSecs now
  now := now

variable (mac : Bytes → Bytes → Bytes)

/-- The answer to an event. -/
def Process.answer (s : Process) (e : Inbound) : Except AppError SignatureId :=
  (authenticate mac s.guard e.request e.checkedAt e.recordedAt).1

/-- Handle an event; the wall clock shows a `DateTime`, and no clock goes back. -/
def Process.handle (s : Process) (e : Inbound) : Option Process :=
  if IsDateTimeSec (timestamp e.checkedAt) ∧ e.checkedAt ≤ e.recordedAt ∧ s.now ≤ e.recordedAt then
    some
      { guard := (authenticate mac s.guard e.request e.checkedAt e.recordedAt).2
        now := e.recordedAt }
  else none

/-- The guard is reached at most `delay` after the timestamp check. -/
def Prompt (delay : ℤ) (_ : Process) (e : Inbound) : Prop := e.recordedAt ≤ e.checkedAt + delay

/-- The freshness window in nanoseconds. -/
def windowNanos : ℤ := maxTimestampSkewSecs * nanosPerSec

variable {mac}

/-- **One step** of the process, in terms of what its guard remembers. -/
theorem Process.handle_spec {s s' : Process} {e : Inbound} (h : s.handle mac e = some s') :
    IsDateTimeSec (timestamp e.checkedAt) ∧ e.checkedAt ≤ e.recordedAt ∧ s.now ≤ e.recordedAt ∧
      s'.now = e.recordedAt ∧ s'.guard.window = s.guard.window ∧
      (∀ id, s.answer mac e = .ok id ↔ ∃ ts, Signed mac e.request ts id ∧
        inWindow (timestamp e.checkedAt) ts ∧ ¬s.guard.Remembers e.recordedAt id) ∧
      ∀ t id, e.recordedAt ≤ t → (s'.guard.Remembers t id ↔
        (s.answer mac e = .ok id ∧ t < e.recordedAt + s.guard.window) ∨
          (s.answer mac e ≠ .ok id ∧ s.guard.Remembers t id)) := by
  rw [Process.handle] at h
  split at h
  · rename_i henabled
    obtain rfl := Option.some.inj h
    obtain ⟨haccept, hwindow, hmemory⟩ :=
      authenticate_spec mac s.guard e.request e.checkedAt e.recordedAt
    exact ⟨henabled.1, henabled.2.1, henabled.2.2, rfl, hwindow, haccept, hmemory⟩
  · cases h

/-- The window of the guard never changes. -/
theorem Process.window_of_reaches {startedAt : ℤ} {s : Process} {good : Process → Inbound → Prop}
    (h : Reaches (Process.handle mac) good (Process.start startedAt) s) :
    s.guard.window = windowNanos := by
  refine h.invariant (P := fun s => s.guard.window = windowNanos) ?_ ?_
  · rfl
  · intro s e s' hs _ hstep
    rw [(Process.handle_spec hstep).2.2.2.2.1, hs]

/-- **The memory of an accepted signature lasts one window,** whatever is handled meanwhile. -/
theorem Process.remembers_of_reaches {s t : Process} {good : Process → Inbound → Prop}
    (id : SignatureId) (expiry : ℤ) (hwindow : s.guard.window = windowNanos)
    (hexpiry : expiry ≤ s.now + windowNanos)
    (hmemory : ∀ u, s.now ≤ u → u < expiry → s.guard.Remembers u id)
    (h : Reaches (Process.handle mac) good s t) :
    s.now ≤ t.now ∧ t.guard.window = windowNanos ∧
      ∀ u, t.now ≤ u → u < expiry → t.guard.Remembers u id := by
  refine h.invariant (P := fun t => s.now ≤ t.now ∧ t.guard.window = windowNanos ∧
    ∀ u, t.now ≤ u → u < expiry → t.guard.Remembers u id) ⟨le_rfl, hwindow, hmemory⟩ ?_
  intro t e t' ⟨hle, hwin, hrem⟩ _ hstep
  obtain ⟨-, -, hclock, hnow', hwin', -, hafter⟩ := Process.handle_spec hstep
  refine ⟨by omega, by rw [hwin', hwin], ?_⟩
  intro u hu hlt
  rw [hnow'] at hu
  rw [hafter u id hu]
  by_cases hsame : t.answer mac e = .ok id
  · exact Or.inl ⟨hsame, by rw [hwin]; omega⟩
  · exact Or.inr ⟨hsame, hrem u (by omega) hlt⟩

/-! ### The same signature -/

/-- A request has one timestamp and one identity. -/
theorem Signed.unique {r : InboundRequest} {ts ts' : ℤ} {id id' : SignatureId}
    (h : Signed mac r ts id) (h' : Signed mac r ts' id') : ts = ts' ∧ id = id' := by
  obtain ⟨raw, digest, hsupplies, hform, hverify, rfl⟩ := h
  obtain ⟨raw', digest', hsupplies', -, hverify', rfl⟩ := h'
  obtain ⟨rfl, rfl⟩ := hsupplies.unique hsupplies'
  have hdigest := Option.some.inj (hverify.symm.trans hverify')
  exact ⟨rfl, by rw [hdigest]⟩

/-- Two requests with the same signature carry the same timestamp. -/
theorem Signed.timestamp_eq (hmac : ∀ secret message secret' message',
      mac secret message = mac secret' message' → message = message')
    {r r' : InboundRequest} {ts ts' : ℤ} {id : SignatureId} (h : Signed mac r ts id)
    (h' : Signed mac r' ts' id) : ts = ts' := by
  obtain ⟨raw, digest, hsupplies, _, hverify, hid⟩ := h
  obtain ⟨raw', digest', hsupplies', _, hverify', hid'⟩ := h'
  have hdigest : digest = digest' := congrArg SignatureId.digest (hid.symm.trans hid')
  rw [digest_of_verifySignature mac hverify, digest_of_verifySignature mac hverify'] at hdigest
  have hparts := canonicalV1Payload_inj r.method_line r.target_line hsupplies.newline_notMem
    r'.method_line r'.target_line hsupplies'.newline_notMem (hmac _ _ _ _ hdigest)
  obtain ⟨_, _, _, _, hts⟩ := hsupplies
  obtain ⟨_, _, _, _, hts'⟩ := hsupplies'
  rw [hparts.2.2.1, hts'] at hts
  exact (Option.some.inj hts).symm

/-! ### When the memory outlives the timestamp -/

/-- No second in which the window check passes `ts` ends, with `delay` on top, after the memory of
a signature recorded at `recordedAt` has expired. -/
def OutlivesWindow (ts recordedAt delay : ℤ) : Prop :=
  ∀ sec, IsDateTimeSec sec → inWindow sec ts →
    (sec + 1) * nanosPerSec + delay ≤ recordedAt + windowNanos

/-- The window check is exact on seconds that a clock can show. -/
theorem inWindow_iff {sec ts : ℤ} (hsec : IsDateTimeSec sec) (hts : IsDateTimeSec ts) :
    inWindow sec ts ↔ |sec - ts| ≤ 300 := by
  obtain ⟨h₁, h₂⟩ := hsec
  obtain ⟨h₃, h₄⟩ := hts
  simp only [minDateTimeSecs, maxDateTimeSecs] at h₁ h₂ h₃ h₄
  have hwrap : ∀ x : ℤ, -18446744073709 ≤ x → x ≤ 18446744073709 → wrapI64 x = x := by
    intro x hlo hhi
    simp only [wrapI64, Int.bmod]
    omega
  have hdiff : wrapI64 (sec - ts) = sec - ts := hwrap _ (by omega) (by omega)
  have habs : wrapI64 |sec - ts| = |sec - ts| := by
    rcases abs_cases (sec - ts) with ⟨h, _⟩ | ⟨h, _⟩ <;> rw [h] <;> apply hwrap <;> omega
  simp only [inWindow, wrappingAbs, hdiff, habs, maxTimestampSkewSecs, decide_eq_true_eq]

/-- For the timestamp of an ordinary moment: the second it names was over, by `delay`, when the
request was recorded. -/
theorem outlivesWindow_iff {ts recordedAt delay : ℤ} (hts : IsDateTimeSec ts)
    (hlater : IsDateTimeSec (ts + 300)) :
    OutlivesWindow ts recordedAt delay ↔ (ts + 1) * nanosPerSec + delay ≤ recordedAt := by
  have hwindow : windowNanos = 300 * nanosPerSec := rfl
  constructor
  · intro h
    have hlast := h (ts + 300) hlater ((inWindow_iff hlater hts).mpr (by simp))
    rw [hwindow] at hlast
    simp only [nanosPerSec] at hlast ⊢
    omega
  · intro h sec hsec hin
    have hle := (abs_le.mp ((inWindow_iff hsec hts).mp hin)).2
    rw [hwindow]
    simp only [nanosPerSec] at h ⊢
    omega

/-- **Exactly when an accepted request is single-use.**  In any run of a process, let a request
with signature `id` and timestamp `ts` be accepted.  No later run, whose requests reach the guard
within `delay` of their timestamp check, accepts `id` again if and only if the memory of the
signature outlives its timestamp. -/
theorem accepted_single_use_iff (mac : Bytes → Bytes → Bytes)
    (hmac : ∀ secret message secret' message',
      mac secret message = mac secret' message' → message = message')
    (delay : ℤ) (hdelay : 0 ≤ delay) (startedAt : ℤ) (s s' : Process)
    (hs : Reaches (Process.handle mac) anyStep (Process.start startedAt) s) (e : Inbound)
    (hstep : s.handle mac e = some s') (id : SignatureId) (haccepted : s.answer mac e = .ok id)
    (ts : ℤ) (hsigned : Signed mac e.request ts id) :
    (∀ t e', Reaches (Process.handle mac) (Prompt delay) s' t → Prompt delay t e' →
        (t.handle mac e').isSome → t.answer mac e' ≠ .ok id) ↔
      OutlivesWindow ts e.recordedAt delay := by
  obtain ⟨-, -, -, hnow', hwindow', haccepts, hmemory⟩ := Process.handle_spec hstep
  have hwindow : s.guard.window = windowNanos := Process.window_of_reaches hs
  constructor
  · -- otherwise the request itself, sent again at the very end of the second, is accepted
    intro hnever sec hsec hin
    by_contra hlong
    have hreplay : sec * nanosPerSec + (nanosPerSec - 1) + delay ≥ e.recordedAt + windowNanos := by
      simp only [nanosPerSec] at hlong ⊢
      omega
    have hsecond : timestamp (sec * nanosPerSec + (nanosPerSec - 1)) = sec := by
      simp only [timestamp, nanosPerSec]
      omega
    have hpos : 0 ≤ windowNanos := by decide
    let again : Inbound :=
      { request := e.request
        checkedAt := sec * nanosPerSec + (nanosPerSec - 1)
        recordedAt := sec * nanosPerSec + (nanosPerSec - 1) + delay }
    have henabled : (s'.handle mac again).isSome := by
      rw [Process.handle, if_pos]
      · rfl
      · refine ⟨?_, ?_, ?_⟩
        · rw [show timestamp again.checkedAt = sec from hsecond]
          exact hsec
        · show again.checkedAt ≤ again.checkedAt + delay
          omega
        · rw [hnow']
          show e.recordedAt ≤ sec * nanosPerSec + (nanosPerSec - 1) + delay
          omega
    refine hnever s' again Reaches.refl le_rfl henabled ?_
    obtain ⟨s'', hs''⟩ := Option.isSome_iff_exists.mp henabled
    obtain ⟨-, -, hclock, -, -, haccepts', -⟩ := Process.handle_spec hs''
    rw [hnow'] at hclock
    refine (haccepts' id).mpr ⟨ts, hsigned, ?_, ?_⟩
    · rw [show timestamp again.checkedAt = sec from hsecond]
      exact hin
    · rw [hmemory _ id hclock]
      rintro (⟨-, hlt⟩ | ⟨hne, -⟩)
      · rw [hwindow] at hlt
        exact absurd hlt (not_lt.mpr hreplay)
      · exact hne haccepted
  · intro houtlives t e' hreach hprompt henabled hreplayed
    obtain ⟨t', ht'⟩ := Option.isSome_iff_exists.mp henabled
    obtain ⟨hdate, -, hclock, -, -, haccepts', -⟩ := Process.handle_spec ht'
    obtain ⟨ts', hsigned', hin, hforgotten⟩ := (haccepts' id).mp hreplayed
    obtain rfl : ts = ts' := hsigned.timestamp_eq hmac hsigned'
    have hremembered := Process.remembers_of_reaches id (e.recordedAt + windowNanos)
      (by rw [hwindow', hwindow]) (by rw [hnow'])
      (by
        intro u hu hlt
        rw [hnow'] at hu
        rw [hmemory u id hu, hwindow]
        exact Or.inl ⟨haccepted, hlt⟩)
      hreach
    have hend := houtlives _ hdate hin
    have hsecond := lt_timestamp_add_one_mul e'.checkedAt
    have hbefore : e'.recordedAt < e.recordedAt + windowNanos := by
      have hle : e'.recordedAt ≤ e'.checkedAt + delay := hprompt
      omega
    exact hforgotten (hremembered.2.2 _ hclock hbefore)

/-! ### One second decides -/

/-- A keyed hash without collisions: the message itself. -/
def transparentMac (_ message : Bytes) : Bytes := message

/-- `GET /api/keys`, stamped with the second `1000`. -/
def stampedRequest : InboundRequest where
  keyId := 7
  secret := ascii "secret"
  method := ascii "GET"
  target := ascii "/api/keys"
  timestampHeader := some (ascii "1000")
  body := []
  signatureHeader := computeSignature transparentMac (ascii "secret") (ascii "GET")
    (ascii "/api/keys") (ascii "1000") []
  method_line := by decide
  target_line := by decide

/-- The identity of its signature. -/
def stampedId : SignatureId :=
  ⟨7, canonicalV1Payload (ascii "GET") (ascii "/api/keys") (ascii "1000") []⟩

theorem stampedRequest_signed : Signed transparentMac stampedRequest 1000 stampedId :=
  ⟨ascii "1000", _, ⟨_, rfl, by decide, by decide, by decide⟩, by decide, by decide +kernel, rfl⟩

/-- Recorded one second after its stamp, the request is accepted once and never again. -/
theorem stampedRequest_single_use :
    ∃ s', (Process.start 0).handle transparentMac
        ⟨stampedRequest, 1001 * nanosPerSec, 1001 * nanosPerSec⟩ = some s' ∧
      ∀ t e', Reaches (Process.handle transparentMac) (Prompt 0) s' t → Prompt 0 t e' →
        (t.handle transparentMac e').isSome → t.answer transparentMac e' ≠ .ok stampedId := by
  have hstamp : IsDateTimeSec 1000 := by decide
  have hlater : IsDateTimeSec (1000 + 300) := by decide
  have henabled : ((Process.start 0).handle transparentMac
      ⟨stampedRequest, 1001 * nanosPerSec, 1001 * nanosPerSec⟩).isSome := by
    decide +kernel
  obtain ⟨s', hs'⟩ := Option.isSome_iff_exists.mp henabled
  have haccepted : (Process.start 0).answer transparentMac
      ⟨stampedRequest, 1001 * nanosPerSec, 1001 * nanosPerSec⟩ = .ok stampedId := by
    decide +kernel
  refine ⟨s', hs', ?_⟩
  exact (accepted_single_use_iff transparentMac (fun _ _ _ _ h => h) 0 le_rfl 0 (Process.start 0) s'
    Reaches.refl _ hs' stampedId haccepted 1000 stampedRequest_signed).mpr
    ((outlivesWindow_iff hstamp hlater).mpr (by decide))

/-- **Half a second decides.**  Accepted in the middle of the second it is stamped with, the request
is accepted again 300 seconds later: its timestamp is still in the window, and the guard has
forgotten the signature. -/
theorem stampedRequest_accepted_twice :
    ∃ s' s'', (Process.start 0).handle transparentMac
        ⟨stampedRequest, 1000500000000, 1000500000000⟩ = some s' ∧
      (Process.start 0).answer transparentMac
        ⟨stampedRequest, 1000500000000, 1000500000000⟩ = .ok stampedId ∧
      s'.handle transparentMac ⟨stampedRequest, 1300500000000, 1300500000000⟩ = some s'' ∧
      s'.answer transparentMac ⟨stampedRequest, 1300500000000, 1300500000000⟩ = .ok stampedId :=
  ⟨_, _, rfl, by decide +kernel, rfl, by decide +kernel⟩

end SimplyIpSync.Middleware
