import Mathlib.Logic.Encodable.Basic
import SimplyIpSync.Client.Errands

/-!
# Are outbound requests ever taken for replays?

Every request carries a signature over its method, target, body and second.  Two requests with the
same credentials repeat a signature if they say the same in the same second: a retry after a
backoff of less than a second, a second errand for the same delta, a record that is delivered
twice.

`signatures_distinct_iff`: in every run of a workload all signatures are different exactly when no
backoff can be shorter than a second, or nothing is retried, and no two errands that are under way in
one second have anything to send in common.
-/

namespace SimplyIpSync.Client

open SimplyIpSync.Entities SimplyIpSync.Crypto SimplyIpSync.Replay SimplyIpSync.Retry
open SimplyIpSync.Reach

/-! ### What is claimed -/

/-- What a vault knows a caller by: the key it sends and the secret it signs with. -/
def Encoding.credentials (enc : Encoding) (endpoint : VaultEndpoint) : String × Bytes :=
  (endpoint.apiKey, enc.secret endpoint)

section

variable (mac : Bytes → Bytes → Bytes) (enc : Encoding)

/-- The digest of a request, under the secret of its endpoint. -/
def Sent.digest (m : Sent) : Bytes := mac (enc.secret m.endpoint) (m.request.message enc m.sentAt)

/-- The `X-Signature-256` header of a request. -/
def Sent.signature (m : Sent) : Bytes :=
  computeSignature mac (enc.secret m.endpoint) m.request.method (m.request.target enc)
    (timestampText (timestamp m.sentAt)) (m.request.body enc)

/-- No two requests with the same credentials have the same signature. -/
def SignaturesDistinct (s : Outbound) : Prop :=
  s.sent.Pairwise fun m m' => enc.credentials m.endpoint = enc.credentials m'.endpoint →
    m.signature mac enc ≠ m'.signature mac enc

instance (s : Outbound) : Decidable (SignaturesDistinct mac enc s) :=
  inferInstanceAs (Decidable (s.sent.Pairwise fun _ _ => _))

/-- A vault with this guard takes every one of these digests for a first use. -/
def acceptsAll (keyId : Uuid) : ReplayGuard → List (ℤ × Bytes) → Bool
  | _, [] => true
  | guard, (now, digest) :: arrivals =>
      (guard.checkAndRecord now keyId digest).1 &&
        acceptsAll keyId (guard.checkAndRecord now keyId digest).2 arrivals

/-- No vault with a single-use rule like the service's own rejects a request: whichever of the
requests with its credentials arrive, in whatever order and however late, each as often as it was
sent. -/
def NeverRejected (s : Outbound) : Prop :=
  ∀ (credentials : String × Bytes) (keyId : Uuid) (windowSecs startedAt : ℤ)
    (arrivals : List (ℤ × Bytes)),
    (arrivals.map Prod.fst).Pairwise (· ≤ ·) →
    List.Subperm (arrivals.map Prod.snd)
      ((s.sent.filter fun m => enc.credentials m.endpoint = credentials).map (Sent.digest mac enc)) →
    acceptsAll keyId (.new windowSecs startedAt) arrivals = true

end

/-! ### When it holds -/

/-- The two have a request in common: a page of one delta, or a record in one mode. -/
def Work.Shares : Work → Work → Prop
  | .fetch since includeDeleted, .fetch since' includeDeleted' =>
      since.map timestamp = since'.map timestamp ∧ includeDeleted = includeDeleted'
  | .push chunks, .push chunks' => ∃ leaf ∈ leavesOf chunks, leaf ∈ leavesOf chunks'
  | _, _ => False

/-- The errands have a request in common. -/
def Errand.Shares (e e' : Errand) : Prop := e.groupName = e'.groupName ∧ e.work.Shares e'.work

/-- No push delivers a record twice in one mode, and errands with the same credentials that have a
request in common are never under way in the same second. -/
structure Workload.Apart (enc : Encoding) (work : Workload) : Prop where
  alone : ∀ i e chunks, work i = some e → e.work = .push chunks → (leavesOf chunks).Nodup
  apart : ∀ i j e e', i ≠ j → work i = some e → work j = some e' →
    enc.credentials e.endpoint = enc.credentials e'.endpoint → e.Shares e' →
    ∀ second, e.UnderWay second → ¬e'.UnderWay second

/-- Some errand has something to send. -/
def Workload.Busy (work : Workload) : Prop :=
  ∃ i e request, work i = some e ∧ e.work.begin.request? e.groupName = some request

/-- The libraries lose nothing of what they write. -/
structure Encoding.Faithful (enc : Encoding) : Prop where
  body : ∀ {groupName groupName' records records' mode mode'},
    enc.batchBody groupName records mode = enc.batchBody groupName' records' mode' →
      groupName = groupName' ∧ records = records' ∧ mode = mode'
  query : ∀ {groupName groupName' since since' includeDeleted includeDeleted' offset offset'},
    enc.pageQuery groupName since includeDeleted offset =
        enc.pageQuery groupName' since' includeDeleted' offset' →
      groupName = groupName' ∧ since = since' ∧ includeDeleted = includeDeleted' ∧ offset = offset'

/-! ### Signatures and seconds -/

section

variable {mac : Bytes → Bytes → Bytes} {enc : Encoding}

/-- Requests that say the same with the same credentials are sent in different seconds. -/
def SpreadOut (enc : Encoding) (sent : List Sent) : Prop :=
  sent.Pairwise fun m m' => enc.credentials m.endpoint = enc.credentials m'.endpoint →
    m.request.SameWire enc m'.request → timestamp m.sentAt ≠ timestamp m'.sentAt

/-- A keyed hash without collisions tells requests apart that do not say the same in the same
second. -/
theorem digest_ne (hmac : ∀ secret message message', mac secret message = mac secret message' →
      message = message') {m m' : Sent}
    (hcredentials : enc.credentials m.endpoint = enc.credentials m'.endpoint)
    (hspread : m.request.SameWire enc m'.request → timestamp m.sentAt ≠ timestamp m'.sentAt) :
    m.digest mac enc ≠ m'.digest mac enc := by
  intro h
  have hsecret : enc.secret m.endpoint = enc.secret m'.endpoint := congrArg Prod.snd hcredentials
  rw [Sent.digest, Sent.digest, hsecret] at h
  obtain ⟨hsame, htime⟩ := OutboundRequest.message_eq_iff.mp (hmac _ _ _ h)
  exact hspread hsame htime

/-- The header carries the digest. -/
theorem digest_of_signature {m m' : Sent} (h : m.signature mac enc = m'.signature mac enc) :
    m.digest mac enc = m'.digest mac enc :=
  hexEncode_injective (List.append_cancel_left h)

theorem SpreadOut.signaturesDistinct (hmac : ∀ secret message message',
      mac secret message = mac secret message' → message = message') {s : Outbound}
    (h : SpreadOut enc s.sent) : SignaturesDistinct mac enc s := by
  refine h.imp ?_
  intro m m' hspread hcredentials hsame
  exact digest_ne hmac hcredentials (hspread hcredentials) (digest_of_signature hsame)

/-- A guard that remembers none of some different digests takes them all for first uses. -/
theorem acceptsAll_of_nodup (keyId : Uuid) (arrivals : List (ℤ × Bytes)) (guard : ReplayGuard)
    (hsorted : (arrivals.map Prod.fst).Pairwise (· ≤ ·)) (hnodup : (arrivals.map Prod.snd).Nodup)
    (hnew : ∀ a ∈ arrivals, ∀ b ∈ arrivals, ¬guard.Remembers a.1 ⟨keyId, b.2⟩) :
    acceptsAll keyId guard arrivals = true := by
  induction arrivals generalizing guard with
  | nil => rfl
  | cons a arrivals ih =>
      obtain ⟨hfirst, hsorted⟩ := List.pairwise_cons.mp hsorted
      obtain ⟨hnot, hnodup⟩ := List.nodup_cons.mp hnodup
      obtain ⟨haccept, -, hafter⟩ := guard.checkAndRecord_spec a.1 keyId a.2
      have hok : (guard.checkAndRecord a.1 keyId a.2).1 = true :=
        haccept.mpr (hnew a List.mem_cons_self a List.mem_cons_self)
      rw [acceptsAll, hok, Bool.true_and]
      refine ih _ hsorted hnodup ?_
      intro b hb d hd
      have hle : a.1 ≤ b.1 := hfirst b.1 (List.mem_map_of_mem hb)
      have hother : ¬(⟨keyId, d.2⟩ : SignatureId) = ⟨keyId, a.2⟩ := by
        intro hsame
        have hdigest : d.2 = a.2 := congrArg SignatureId.digest hsame
        exact hnot (hdigest ▸ List.mem_map_of_mem hd)
      rw [hafter b.1 _ hle, if_neg fun hboth => hother hboth.2]
      exact hnew b (List.mem_cons_of_mem _ hb) d (List.mem_cons_of_mem _ hd)

theorem SpreadOut.neverRejected (hmac : ∀ secret message message',
      mac secret message = mac secret message' → message = message') {s : Outbound}
    (h : SpreadOut enc s.sent) : NeverRejected mac enc s := by
  intro credentials keyId windowSecs startedAt arrivals hsorted hsent
  have hnodup : ((s.sent.filter fun m => enc.credentials m.endpoint = credentials).map
      (Sent.digest mac enc)).Nodup := by
    rw [List.Nodup, List.pairwise_map, List.pairwise_filter]
    refine h.imp ?_
    intro m m' hspread hm hm'
    have hcredentials : enc.credentials m.endpoint = enc.credentials m'.endpoint := by
      rw [of_decide_eq_true hm, of_decide_eq_true hm']
    exact digest_ne hmac hcredentials (hspread hcredentials)
  obtain ⟨digests, hperm, hsub⟩ := hsent
  have harrivals : (arrivals.map Prod.snd).Nodup := hperm.nodup_iff.mp (hnodup.sublist hsub)
  refine acceptsAll_of_nodup keyId arrivals _ hsorted harrivals ?_
  intro a _ b _ ⟨entry, hentry, _⟩
  cases hentry

/-- Two requests that say the same in the same second repeat a signature. -/
theorem not_signaturesDistinct {s : Outbound} {before after : List Sent} {m m' : Sent}
    (hsent : s.sent = before ++ after) (hm : m ∈ before) (hm' : m' ∈ after)
    (hcredentials : enc.credentials m.endpoint = enc.credentials m'.endpoint)
    (hsame : m.request.SameWire enc m'.request)
    (htime : timestamp m.sentAt = timestamp m'.sentAt) : ¬SignaturesDistinct mac enc s := by
  intro hdistinct
  rw [SignaturesDistinct, hsent] at hdistinct
  refine (List.pairwise_append.mp hdistinct).2.2 m hm m' hm' hcredentials ?_
  have hsecret : enc.secret m.endpoint = enc.secret m'.endpoint := congrArg Prod.snd hcredentials
  rw [Sent.signature, Sent.signature, hsecret, hsame.1, hsame.2.1, hsame.2.2, htime]

end

/-! ### Requests in common -/

/-- What a request says: of `since` the second is written. -/
def OutboundRequest.said : OutboundRequest → OutboundRequest
  | .batch groupName records mode => .batch groupName records mode
  | .page groupName since includeDeleted offset =>
      .page groupName (since.map timestamp) includeDeleted offset

/-- What is said is on the wire, whatever the libraries do. -/
theorem OutboundRequest.sameWire_of_said {enc : Encoding} {r r' : OutboundRequest}
    (h : r.said = r'.said) : r.SameWire enc r' := by
  cases r with
  | batch groupName records mode =>
      cases r' with
      | batch groupName' records' mode' =>
          cases h
          exact ⟨rfl, rfl, rfl⟩
      | page groupName' since' includeDeleted' offset' => cases h
  | page groupName since includeDeleted offset =>
      cases r' with
      | batch groupName' records' mode' => cases h
      | page groupName' since' includeDeleted' offset' =>
          obtain ⟨hgroup, hsince, hdeleted, hoffset⟩ := OutboundRequest.page.inj h
          refine ⟨rfl, ?_, rfl⟩
          rw [target, target, hgroup, hsince, hdeleted, hoffset]

/-- **The wire says what is said**, where the libraries lose nothing. -/
theorem Encoding.Faithful.said_eq {enc : Encoding} (henc : enc.Faithful) {r r' : OutboundRequest}
    (h : r.SameWire enc r') : r.said = r'.said := by
  obtain ⟨hmethod, htarget, hbody⟩ := h
  have hverbs : ascii "POST" ≠ ascii "GET" := by decide
  cases r with
  | batch groupName records mode =>
      cases r' with
      | batch groupName' records' mode' =>
          obtain ⟨rfl, rfl, rfl⟩ := henc.body hbody
          rfl
      | page groupName' since' includeDeleted' offset' => exact absurd hmethod hverbs
  | page groupName since includeDeleted offset =>
      cases r' with
      | batch groupName' records' mode' => exact absurd hmethod.symm hverbs
      | page groupName' since' includeDeleted' offset' =>
          obtain ⟨hgroup, hsince, hdeleted, hoffset⟩ := henc.query (List.append_cancel_left htarget)
          rw [OutboundRequest.said, OutboundRequest.said, hgroup, hsince, hdeleted, hoffset]

/-- Two ends of a list without repetition that begin alike are the same. -/
theorem suffix_eq_of_nodup {α : Type*} {l a b : List α} {x : α} (hnodup : l.Nodup)
    (ha : x :: a <:+ l) (hb : x :: b <:+ l) : a = b := by
  have hnot : ∀ {c d : List α}, x :: d <:+ l → ¬x :: c <:+ d := by
    intro c d hd hsuffix
    exact (List.nodup_cons.mp (hnodup.sublist hd.sublist)).1 (hsuffix.subset List.mem_cons_self)
  rcases List.suffix_or_suffix_of_suffix ha hb with h | h
  · rcases List.suffix_cons_iff.mp h with h | h
    · exact List.cons.inj h |>.2
    · exact absurd h (hnot hb)
  · rcases List.suffix_cons_iff.mp h with h | h
    · exact (List.cons.inj h).2.symm
    · exact absurd h (hnot ha)

section

variable {e e' : Errand} {plan plan' : Plan} {r r' : OutboundRequest}

/-- **No errand says the same at two of its plans.** -/
theorem Plan.not_before (halone : ∀ chunks, e.work = .push chunks → (leavesOf chunks).Nodup)
    (hof : plan.Of e) (hof' : plan'.Of e) (hr : plan.request? e.groupName = some r)
    (hr' : plan'.request? e.groupName = some r') (hsaid : r.said = r'.said) :
    ¬plan.Before plan' := by
  intro hbefore
  cases plan with
  | pages since includeDeleted offset =>
      cases plan' with
      | chunks queue => exact hbefore
      | pages since' includeDeleted' offset' =>
          obtain rfl := Option.some.inj hr
          obtain rfl := Option.some.inj hr'
          obtain ⟨-, -, -, rfl⟩ := OutboundRequest.page.inj hsaid
          exact Nat.lt_irrefl _ hbefore
  | chunks queue =>
      cases plan' with
      | pages since includeDeleted offset => exact hbefore
      | chunks queue' =>
          obtain ⟨chunks, hwork, hsuffix⟩ := hof
          obtain ⟨chunks', hwork', hsuffix'⟩ := hof'
          obtain rfl := Work.push.inj (hwork.symm.trans hwork')
          cases queue with
          | nil => cases hr
          | cons chunk queue =>
              cases queue' with
              | nil => cases hr'
              | cons chunk' queue' =>
                  obtain rfl := Option.some.inj hr
                  obtain rfl := Option.some.inj hr'
                  obtain ⟨-, hrecords, hmode⟩ := OutboundRequest.batch.inj hsaid
                  obtain rfl : chunk = chunk' := Prod.ext hrecords hmode
                  obtain ⟨leaf, others, hleaves⟩ := exists_leaves_eq_cons chunk
                  rw [leavesOf_cons, hleaves, List.cons_append] at hsuffix hsuffix'
                  have hrest := suffix_eq_of_nodup (halone chunks hwork) hsuffix hsuffix'
                  have hlength : (leavesOf (chunk :: queue)).length =
                      (leavesOf (chunk :: queue')).length := by
                    rw [leavesOf_cons, leavesOf_cons, hleaves, List.cons_append, hrest,
                      List.cons_append]
                  rcases hbefore with hfewer | ⟨-, hshorter⟩
                  · omega
                  · exact Nat.lt_irrefl _ hshorter

/-- **Errands that say the same have a request in common.** -/
theorem Plan.shares (hof : plan.Of e) (hof' : plan'.Of e')
    (hr : plan.request? e.groupName = some r) (hr' : plan'.request? e'.groupName = some r')
    (hsaid : r.said = r'.said) : e.Shares e' := by
  cases plan with
  | pages since includeDeleted offset =>
      obtain rfl := Option.some.inj hr
      cases plan' with
      | chunks queue =>
          cases queue with
          | nil => cases hr'
          | cons chunk queue =>
              obtain rfl := Option.some.inj hr'
              cases hsaid
      | pages since' includeDeleted' offset' =>
          obtain rfl := Option.some.inj hr'
          obtain ⟨hgroup, hsince, hdeleted, -⟩ := OutboundRequest.page.inj hsaid
          refine ⟨hgroup, ?_⟩
          rw [show e.work = _ from hof, show e'.work = _ from hof']
          exact ⟨hsince, hdeleted⟩
  | chunks queue =>
      cases queue with
      | nil => cases hr
      | cons chunk queue =>
          obtain rfl := Option.some.inj hr
          cases plan' with
          | pages since' includeDeleted' offset' =>
              obtain rfl := Option.some.inj hr'
              cases hsaid
          | chunks queue' =>
              cases queue' with
              | nil => cases hr'
              | cons chunk' queue' =>
                  obtain rfl := Option.some.inj hr'
                  obtain ⟨hgroup, hrecords, hmode⟩ := OutboundRequest.batch.inj hsaid
                  obtain rfl : chunk = chunk' := Prod.ext hrecords hmode
                  obtain ⟨chunks, hwork, hsuffix⟩ := hof
                  obtain ⟨chunks', hwork', hsuffix'⟩ := hof'
                  obtain ⟨leaf, others, hleaves⟩ := exists_leaves_eq_cons chunk
                  rw [leavesOf_cons, hleaves, List.cons_append] at hsuffix hsuffix'
                  refine ⟨hgroup, ?_⟩
                  rw [hwork, hwork']
                  exact ⟨leaf, hsuffix.subset List.mem_cons_self,
                    hsuffix'.subset List.mem_cons_self⟩

/-- An errand that sends is one with something to send. -/
theorem Plan.busy {work : Workload} {i : ℕ} (hwork : work i = some e) (hof : plan.Of e)
    (hr : plan.request? e.groupName = some r) : work.Busy := by
  cases hdoes : e.work with
  | fetch since includeDeleted =>
      refine ⟨i, e, .page e.groupName since includeDeleted 0, hwork, ?_⟩
      rw [hdoes]
      rfl
  | push chunks =>
      cases chunks with
      | cons chunk chunks =>
          refine ⟨i, e, .batch e.groupName chunk.1 chunk.2, hwork, ?_⟩
          rw [hdoes]
          rfl
      | nil =>
          cases plan with
          | pages since includeDeleted offset => cases hof.symm.trans hdoes
          | chunks queue =>
              obtain ⟨chunks', hwork', hsuffix⟩ := hof
              obtain rfl := Work.push.inj (hwork'.symm.trans hdoes)
              cases queue with
              | nil => cases hr
              | cons chunk queue =>
                  obtain ⟨leaf, others, hleaves⟩ := exists_leaves_eq_cons chunk
                  rw [leavesOf_cons, hleaves] at hsuffix
                  cases List.suffix_nil.mp hsuffix

end

/-! ### Where the condition holds -/

/-- Where a request comes from, and when. -/
structure SentAccount (work : Workload) (now : ℤ) (m : Sent) : Prop where
  past : m.sentAt ≤ now
  origin : ∃ (e : Errand) (plan : Plan), work m.errand = some e ∧ m.endpoint = e.endpoint ∧
    e.UnderWay (timestamp m.sentAt) ∧ plan.Of e ∧ plan.request? e.groupName = some m.request

/-- What an errand has sent: at an earlier plan, or at this one, and then it sleeps to the second
after at least, if the base is that long. -/
structure ErrandAccount (cfg : RetryConfig) (sent : List Sent) (i : ℕ) (e : Errand) (p : Progress) :
    Prop where
  planned : p.plan.Of e
  earlier : p.phase ≠ .over → ∀ m ∈ sent, m.errand = i →
    ∃ plan : Plan, plan.Of e ∧ plan.request? e.groupName = some m.request ∧
      (plan.Before p.plan ∨ plan = p.plan ∧ ∀ attempt wakeAt, p.phase = .asleep attempt wakeAt →
        0 < cfg.maxRetries ∧ (1000 ≤ cfg.baseMs → m.sentAt + nanosPerSec ≤ wakeAt))

/-- The account of a state. -/
structure OutboundAccount (cfg : RetryConfig) (enc : Encoding) (work : Workload) (s : Outbound) :
    Prop where
  sent : ∀ m ∈ s.sent, SentAccount work s.now m
  errands : ∀ i p, s.progress i = some p →
    ∃ e, work i = some e ∧ ErrandAccount cfg s.sent i e p
  spread : SpreadOut enc s.sent

section

variable {cfg : RetryConfig} {enc : Encoding} {work : Workload} {s s' : Outbound} {i : ℕ}
  {e : Errand} {plan : Plan} {attempt : ℕ} {request : OutboundRequest}

/-- A second later is another second. -/
theorem timestamp_ne_of_second_later {t u : ℤ} (h : t + nanosPerSec ≤ u) :
    timestamp t ≠ timestamp u := by
  simp only [timestamp, nanosPerSec] at h ⊢
  omega

theorem OutboundAccount.start (now : ℤ) : OutboundAccount cfg enc work (.start work now) where
  sent m hm := by cases hm
  errands i p hprogress := by
    obtain ⟨e, hwork, rfl⟩ := Option.map_eq_some_iff.mp hprogress
    refine ⟨e, hwork, Plan.begin_of e, ?_⟩
    intro _ m hm
    cases hm
  spread := List.Pairwise.nil

theorem OutboundAccount.tick (h : OutboundAccount cfg enc work s) {now : ℤ} (hle : s.now ≤ now) :
    OutboundAccount cfg enc work { s with now := now } where
  sent m hm := ⟨(h.sent m hm).past.trans hle, (h.sent m hm).origin⟩
  errands := h.errands
  spread := h.spread

/-- **An answer** ends an errand, advances it, or lets it sleep past the second of what it has
sent. -/
theorem OutboundAccount.answer (h : OutboundAccount cfg enc work s)
    (hprogress : s.progress i = some ⟨plan, .awaiting attempt⟩) {answer : Answer} {delay : ℕ}
    {p : Progress} (hsettle : settle cfg s.now plan attempt delay answer = some p) :
    OutboundAccount cfg enc work (s.setProgress i p) := by
  refine ⟨h.sent, ?_, h.spread⟩
  intro j q hq
  by_cases hj : j = i
  · subst hj
    rw [s.setProgress_self] at hq
    obtain rfl := Option.some.inj hq
    obtain ⟨e, hwork, hplanned, hearlier⟩ := h.errands j _ hprogress
    refine ⟨e, hwork, ?_⟩
    rcases settle_spec hsettle with rfl | ⟨hretry, hdelay, rfl⟩ | ⟨rest, wakeAt, hadvances, rfl⟩
    · exact ⟨hplanned, fun hlive => absurd rfl hlive⟩
    · -- a retry: whatever was sent at this plan was sent before the backoff
      refine ⟨hplanned, ?_⟩
      intro _ m hm herrand
      obtain ⟨plan', hof, hrequest, hbefore | ⟨rfl, -⟩⟩ := hearlier (by simp) m hm herrand
      · exact ⟨plan', hof, hrequest, Or.inl hbefore⟩
      · refine ⟨plan', hof, hrequest, Or.inr ⟨rfl, ?_⟩⟩
        intro attempt' wakeAt hphase
        obtain ⟨-, rfl⟩ := Phase.asleep.inj hphase
        refine ⟨Nat.zero_lt_of_lt hretry, ?_⟩
        intro hbase
        have hpast := (h.sent m hm).past
        have hsecond := one_second_le_of_isBackoff hbase hdelay
        simp only [nanosPerSec, nanosPerMs]
        omega
    · -- the next plan: everything was sent at an earlier one
      obtain ⟨hof', hlater⟩ := hadvances.spec hplanned
      refine ⟨hof', ?_⟩
      intro _ m hm herrand
      obtain ⟨plan', hof, hrequest, hbefore | ⟨rfl, -⟩⟩ := hearlier (by simp) m hm herrand
      · exact ⟨plan', hof, hrequest, Or.inl (hbefore.trans hlater)⟩
      · exact ⟨plan', hof, hrequest, Or.inl hlater⟩
  · rw [s.setProgress_of_ne _ hj] at hq
    exact h.errands j q hq

/-- **A request** says something new in its second: the errand itself has said it a second before at
the latest, and no errand that may say it too is under way. -/
theorem OutboundAccount.send (hcfg : cfg.maxRetries = 0 ∨ 1000 ≤ cfg.baseMs) (henc : enc.Faithful)
    (hapart : work.Apart enc) (h : OutboundAccount cfg enc work s) (hwork : work i = some e)
    {wakeAt : ℤ} (hprogress : s.progress i = some ⟨plan, .asleep attempt wakeAt⟩)
    (hrequest : plan.request? e.groupName = some request) (hawake : wakeAt ≤ s.now)
    (hway : e.UnderWay (timestamp s.now)) :
    OutboundAccount cfg enc work (s.put i e plan attempt request) := by
  obtain ⟨e', hwork', hplanned, hearlier⟩ := h.errands i _ hprogress
  obtain rfl := Option.some.inj (hwork.symm.trans hwork')
  refine ⟨?_, ?_, ?_⟩
  · intro m hm
    rcases List.mem_append.mp hm with hm | hm
    · exact h.sent m hm
    · obtain rfl := List.mem_singleton.mp hm
      exact ⟨le_rfl, e, plan, hwork, rfl, hway, hplanned, hrequest⟩
  · intro j q hq
    by_cases hj : j = i
    · subst hj
      rw [Outbound.put_self] at hq
      obtain rfl := Option.some.inj hq
      refine ⟨e, hwork, hplanned, ?_⟩
      intro _ m hm herrand
      rcases List.mem_append.mp hm with hm | hm
      · obtain ⟨plan', hof, hrequest', hbefore | ⟨rfl, -⟩⟩ := hearlier (by simp) m hm herrand
        · exact ⟨plan', hof, hrequest', Or.inl hbefore⟩
        · exact ⟨plan', hof, hrequest', Or.inr ⟨rfl, by simp⟩⟩
      · obtain rfl := List.mem_singleton.mp hm
        exact ⟨plan, hplanned, hrequest, Or.inr ⟨rfl, by simp⟩⟩
    · rw [Outbound.put_of_ne hj] at hq
      obtain ⟨e', hwork', hplanned', hearlier'⟩ := h.errands j q hq
      refine ⟨e', hwork', hplanned', ?_⟩
      intro hlive m hm herrand
      rcases List.mem_append.mp hm with hm | hm
      · exact hearlier' hlive m hm herrand
      · obtain rfl := List.mem_singleton.mp hm
        exact absurd herrand.symm hj
  · refine List.pairwise_append.mpr ⟨h.spread, List.pairwise_singleton _ _, ?_⟩
    intro m hm m' hm' hcredentials hsame
    obtain rfl := List.mem_singleton.mp hm'
    have hsaid := henc.said_eq hsame
    by_cases hown : m.errand = i
    · obtain ⟨plan', hof, hrequest', hbefore | ⟨rfl, hslept⟩⟩ := hearlier (by simp) m hm hown
      · exact absurd hbefore (Plan.not_before (fun chunks => hapart.alone i e chunks hwork) hof
          hplanned hrequest' hrequest hsaid)
      · obtain ⟨hretries, hsecond⟩ := hslept attempt wakeAt rfl
        have hbase : 1000 ≤ cfg.baseMs := by omega
        exact timestamp_ne_of_second_later ((hsecond hbase).trans hawake)
    · obtain ⟨e', plan', hwork', hendpoint, hway', hof, hrequest'⟩ := (h.sent m hm).origin
      rw [hendpoint] at hcredentials
      have hshares : e'.Shares e := Plan.shares hof hplanned hrequest' hrequest hsaid
      intro htime
      exact hapart.apart _ i e' e hown hwork' hwork hcredentials hshares _ hway' (htime ▸ hway)

/-- **Where the condition holds, the account is kept.** -/
theorem OutboundAccount.step (hcfg : work.Busy → cfg.maxRetries = 0 ∨ 1000 ≤ cfg.baseMs)
    (henc : enc.Faithful) (hapart : work.Apart enc) (h : OutboundAccount cfg enc work s)
    {event : OutboundEvent} (hstep : s.step cfg work event = some s') :
    OutboundAccount cfg enc work s' := by
  rcases Outbound.step_cases hstep with ⟨now, hle, rfl⟩ |
    ⟨i, e, plan, attempt, wakeAt, request, hwork, hprogress, hrequest, hawake, hway, rfl⟩ |
    ⟨i, plan, attempt, answer, delay, p, hprogress, hsettle, rfl⟩
  · exact h.tick hle
  · obtain ⟨e', hwork', hplanned, -⟩ := h.errands i _ hprogress
    obtain rfl := Option.some.inj (hwork.symm.trans hwork')
    exact h.send (hcfg (Plan.busy hwork hplanned hrequest)) henc hapart hwork hprogress hrequest
      hawake hway
  · exact h.answer hprogress hsettle

end

/-! ### Where it does not -/

section

variable {mac : Bytes → Bytes → Bytes} {enc : Encoding} {cfg : RetryConfig} {work : Workload}
  {i : ℕ} {e : Errand}

/-- The shortest backoff before the first retry is the base. -/
theorem isBackoff_base {baseMs : ℕ} (hbase : baseMs < 1000) : IsBackoff baseMs 1 baseMs := by
  have hcapped : cappedBackoffMs baseMs 1 = baseMs := by
    simp only [cappedBackoffMs, Nat.sub_self, Nat.zero_min, pow_zero, Nat.mul_one]
    omega
  rw [IsBackoff, hcapped]
  omega

theorem start_progress (now : ℤ) (hwork : work i = some e) :
    (Outbound.start work now).progress i = some ⟨e.work.begin, .asleep 0 now⟩ := by
  show (work i).map _ = _
  rw [hwork]
  rfl

/-- The beginning of a second is in it. -/
theorem timestamp_mul_nanosPerSec (second : ℤ) : timestamp (second * nanosPerSec) = second := by
  simp only [timestamp, nanosPerSec]
  omega

/-- Time that stands between two moments of a second is in it. -/
theorem timestamp_eq_of_between {a b t : ℤ} (ha : a ≤ t) (hb : t ≤ b)
    (h : timestamp a = timestamp b) : timestamp t = timestamp b := by
  simp only [timestamp, nanosPerSec] at h ⊢
  omega

/-- The last request of a sequence is among what is sent. -/
theorem Sends.exists_sent {s t : Outbound} {requests : List OutboundRequest} {r : OutboundRequest}
    (h : Sends cfg work i e s (requests ++ [r]) t) :
    ∃ new m, t.sent = s.sent ++ new ∧ m ∈ new ∧ m.request = r ∧ m.endpoint = e.endpoint ∧
      s.now ≤ m.sentAt ∧ m.sentAt ≤ t.now := by
  obtain ⟨new, hsent, hrequests, hnew⟩ := h.sent
  obtain ⟨m, hm, hrequest⟩ : ∃ m ∈ new, m.request = r := by
    refine List.mem_map.mp ?_
    rw [hrequests]
    exact List.mem_append_right _ (List.mem_singleton_self r)
  obtain ⟨-, hendpoint, hfrom, hto⟩ := hnew m hm
  exact ⟨new, m, hsent, hm, hrequest, hendpoint, hfrom, hto⟩

/-- **Saying the same twice in a second** repeats a signature. -/
theorem repeats_of_sends {j : ℕ} {e' : Errand} {now : ℤ} {t u : Outbound}
    {requests requests' : List OutboundRequest} {r r' : OutboundRequest}
    (h : Sends cfg work i e (.start work now) (requests ++ [r]) t)
    (h' : Sends cfg work j e' t (requests' ++ [r']) u)
    (hcredentials : enc.credentials e.endpoint = enc.credentials e'.endpoint)
    (hsaid : r.said = r'.said) (hsecond : timestamp now = timestamp u.now) :
    ∃ now s, Reaches (Outbound.step cfg work) anyStep (.start work now) s ∧
      ¬SignaturesDistinct mac enc s := by
  obtain ⟨new, m, hsent, hm, rfl, hendpoint, hfrom, hto⟩ := h.exists_sent
  obtain ⟨new', m', hsent', hm', rfl, hendpoint', hfrom', hto'⟩ := h'.exists_sent
  refine ⟨now, u, h.reaches.trans h'.reaches, ?_⟩
  rw [← hendpoint, ← hendpoint'] at hcredentials
  refine not_signaturesDistinct (hsent'.trans (congrArg (· ++ new') hsent)) hm hm' hcredentials
    (OutboundRequest.sameWire_of_said hsaid) ?_
  rw [timestamp_eq_of_between hfrom (hto.trans h'.later) hsecond,
    timestamp_eq_of_between (h.later.trans hfrom') hto' hsecond]

/-- **A retry in the same second.**  A request that goes out as a second begins, is answered `503`
and is retried after a backoff of less than a second, is signed as before. -/
theorem repeats_of_short_backoff (hbusy : work.Busy) (hretry : 0 < cfg.maxRetries)
    (hbase : cfg.baseMs < 1000) :
    ∃ now s, Reaches (Outbound.step cfg work) anyStep (.start work now) s ∧
      ¬SignaturesDistinct mac enc s := by
  obtain ⟨i, e, request, hwork, hrequest⟩ := hbusy
  let now : ℤ := e.firstSecond * nanosPerSec
  let later : ℤ := now + cfg.baseMs * nanosPerMs
  have hnow : timestamp now = e.firstSecond := timestamp_mul_nanosPerSec _
  have hlater : timestamp later = e.firstSecond := by
    simp only [later, now, timestamp, nanosPerSec, nanosPerMs]
    omega
  have hle : now ≤ later := by
    simp only [later, nanosPerMs]
    omega
  have hway : e.UnderWay e.firstSecond := ⟨le_rfl, e.nonempty⟩
  have hmax : max (Outbound.start work now).now now = now := max_self now
  obtain ⟨t, hfirst, hclock, hawaiting⟩ := Sends.next cfg hwork
    (start_progress now hwork) hrequest (by rw [hmax, hnow]; exact hway)
  have hclock : t.now = now := hclock.trans hmax
  have hsettle : settle cfg t.now e.work.begin 0 cfg.baseMs (.status 503) =
      some ⟨e.work.begin, .asleep 1 later⟩ := by
    rw [hclock]
    exact (if_pos ⟨rfl, hretry⟩).trans (if_pos (isBackoff_base hbase))
  have hfirst : Sends cfg work i e (.start work now) ([] ++ [request]) _ :=
    hfirst.answered hawaiting hsettle
  have hmax' : max (t.setProgress i ⟨e.work.begin, .asleep 1 later⟩).now later = later := by
    rw [Outbound.setProgress_now, hclock]
    exact max_eq_right hle
  obtain ⟨u, hagain, hclock', -⟩ := Sends.next cfg hwork (t.setProgress_self _) hrequest
    (by rw [hmax', hlater]; exact hway)
  have hagain : Sends cfg work i e _ ([] ++ [request]) u := hagain
  have hsecond : timestamp now = timestamp u.now := by
    rw [hclock', hmax', hlater, hnow]
  exact repeats_of_sends hfirst hagain rfl rfl hsecond

/-- A request and its answer, on a clock that stands still. -/
theorem Sends.exchange {s : Outbound} {plan : Plan} {request : OutboundRequest} {answer : Answer}
    {p : Progress} (hwork : work i = some e) (hway : e.UnderWay (timestamp s.now))
    (hprogress : s.progress i = some ⟨plan, .asleep 0 s.now⟩)
    (hrequest : plan.request? e.groupName = some request)
    (hsettle : settle cfg s.now plan 0 0 answer = some p) :
    ∃ t, Sends cfg work i e s [request] t ∧ t.now = s.now ∧ t.progress i = some p := by
  have hmax : max s.now s.now = s.now := max_self _
  obtain ⟨t, hnext, hclock, hawaiting⟩ := Sends.next cfg hwork hprogress hrequest
    (by rw [hmax]; exact hway)
  have hclock : t.now = s.now := hclock.trans hmax
  exact ⟨_, hnext.answered hawaiting (hclock ▸ hsettle), hclock, t.setProgress_self p⟩

/-- **A push can come down to any of its leaves**, on a clock that stands still: `413` has every chunk
halved. -/
theorem Sends.leaf (cfg : RetryConfig) {s : Outbound} {queue before after : List Chunk}
    {leaf : Chunk} (hwork : work i = some e) (hway : e.UnderWay (timestamp s.now))
    (hprogress : s.progress i = some ⟨.chunks queue, .asleep 0 s.now⟩)
    (hleaves : leavesOf queue = before ++ leaf :: after) :
    ∃ t rest requests, t.now = s.now ∧ t.progress i = some ⟨.chunks rest, .asleep 0 t.now⟩ ∧
      leavesOf rest = after ∧
      Sends cfg work i e s (requests ++ [.batch e.groupName leaf.1 leaf.2]) t := by
  induction hweight : queueWeight queue using Nat.strong_induction_on
    generalizing s queue before with
  | _ weight ih =>
      cases queue with
      | nil => simp at hleaves
      | cons chunk queue =>
          obtain ⟨records, mode⟩ := chunk
          rw [queueWeight_cons] at hweight
          by_cases hlong : 1 < records.length
          · -- `413`: the halves have the same leaves
            let halves : List Chunk := (records.take (records.length / 2), mode) ::
              (records.drop (records.length / 2), .upsert) :: queue
            have hsettle : settle cfg s.now (.chunks ((records, mode) :: queue)) 0 0 (.status 413) =
                some ⟨.chunks halves, .asleep 0 s.now⟩ := by
              have hhalved : Plan.halved? 413 (.chunks ((records, mode) :: queue)) =
                  some (.chunks halves) := by
                simp only [halves, ← secondMode_eq mode]
                exact if_pos ⟨hlong, Or.inl rfl⟩
              simp only [settle, hhalved]
              rfl
            obtain ⟨t, hsends, hclock, hprogress'⟩ := Sends.exchange hwork hway hprogress rfl hsettle
            have hlighter : queueWeight halves < weight := by
              have hsmaller := chunkWeight_split records hlong
              simp only [halves, queueWeight_cons]
              omega
            have hsame : leavesOf halves = before ++ leaf :: after := by
              rw [leavesOf_cons, leavesOf_cons, ← List.append_assoc, leaves_halves mode hlong]
              exact hleaves
            rw [← hclock] at hway hprogress'
            obtain ⟨u, rest, requests, hclock', hend, hrest, hsends'⟩ :=
              ih _ hlighter hway hprogress' hsame rfl
            exact ⟨u, rest, .batch e.groupName records mode :: requests, hclock'.trans hclock, hend,
              hrest, hsends.trans hsends'⟩
          · -- a single record: it is taken
            have hsettle : settle cfg s.now (.chunks ((records, mode) :: queue)) 0 0 (.ok true) =
                some ⟨.chunks queue, .asleep 0 s.now⟩ := rfl
            obtain ⟨t, hsends, hclock, hprogress'⟩ := Sends.exchange hwork hway hprogress rfl hsettle
            rw [← hclock] at hway hprogress'
            rw [leavesOf_cons, leaves_of_length_le (Nat.le_of_not_lt hlong),
              List.singleton_append] at hleaves
            cases before with
            | nil =>
                obtain ⟨rfl, hafter⟩ := List.cons.inj hleaves
                exact ⟨t, queue, [], hclock, hprogress', hafter, hsends⟩
            | cons first before =>
                have hlighter : queueWeight queue < weight := by
                  have := chunkWeight_pos records
                  omega
                obtain ⟨u, rest, requests, hclock', hend, hrest, hsends'⟩ :=
                  ih _ hlighter hway hprogress' (List.cons.inj hleaves).2 rfl
                exact ⟨u, rest, .batch e.groupName records mode :: requests, hclock'.trans hclock,
                  hend, hrest, hsends.trans hsends'⟩

/-- **A push that has a record twice in one mode** repeats a signature. -/
theorem repeats_of_not_alone {chunks : List Chunk} (hwork : work i = some e)
    (hpush : e.work = .push chunks) (htwice : ¬(leavesOf chunks).Nodup) :
    ∃ now s, Reaches (Outbound.step cfg work) anyStep (.start work now) s ∧
      ¬SignaturesDistinct mac enc s := by
  obtain ⟨leaf, hsub⟩ : ∃ leaf, List.Sublist [leaf, leaf] (leavesOf chunks) := by
    by_contra hnone
    exact htwice (List.nodup_iff_sublist.mpr fun leaf hsub => hnone ⟨leaf, hsub⟩)
  obtain ⟨front, back, hsplit, hfront, hback⟩ := List.cons_sublist_iff.mp hsub
  obtain ⟨before, middle, rfl⟩ := List.append_of_mem hfront
  obtain ⟨middle', after, rfl⟩ := List.append_of_mem (List.singleton_sublist.mp hback)
  rw [List.append_assoc, List.cons_append, ← List.append_assoc middle] at hsplit
  let now : ℤ := e.firstSecond * nanosPerSec
  have hnow : timestamp now = e.firstSecond := timestamp_mul_nanosPerSec _
  have hway : e.UnderWay (timestamp now) := hnow ▸ ⟨le_rfl, e.nonempty⟩
  have hprogress := start_progress now hwork
  rw [hpush] at hprogress
  obtain ⟨t, rest, requests, hclock, hprogress', hrest, hsends⟩ :=
    Sends.leaf cfg hwork hway hprogress hsplit
  have hclock : t.now = now := hclock
  obtain ⟨u, rest', requests', hclock', -, -, hsends'⟩ :=
    Sends.leaf cfg hwork (hclock ▸ hway) hprogress' hrest
  exact repeats_of_sends hsends hsends' rfl rfl (congrArg timestamp (hclock'.trans hclock).symm)

/-- An errand can send what it shares, on a clock that stands still. -/
theorem Errand.Shares.can_send {e' : Errand} (h : e.Shares e') (cfg : RetryConfig)
    (work : Workload) :
    ∃ r r' : OutboundRequest, r.said = r'.said ∧
      (∀ (i : ℕ) (s : Outbound), work i = some e → e.UnderWay (timestamp s.now) →
        s.progress i = some ⟨e.work.begin, .asleep 0 s.now⟩ →
        ∃ t requests, t.now = s.now ∧ Sends cfg work i e s (requests ++ [r]) t) ∧
      ∀ (i : ℕ) (s : Outbound), work i = some e' → e'.UnderWay (timestamp s.now) →
        s.progress i = some ⟨e'.work.begin, .asleep 0 s.now⟩ →
        ∃ t requests, t.now = s.now ∧ Sends cfg work i e' s (requests ++ [r']) t := by
  obtain ⟨hgroup, hshares⟩ := h
  have hpage : ∀ (e : Errand) (since : Option ℤ) (includeDeleted : Bool),
      e.work = .fetch since includeDeleted → ∀ (i : ℕ) (s : Outbound), work i = some e →
        e.UnderWay (timestamp s.now) → s.progress i = some ⟨e.work.begin, .asleep 0 s.now⟩ →
        ∃ t requests, t.now = s.now ∧ Sends cfg work i e s
          (requests ++ [.page e.groupName since includeDeleted 0]) t := by
    intro e since includeDeleted hfetch i s hwork hway hprogress
    rw [hfetch] at hprogress
    have hsettle : settle cfg s.now (.pages since includeDeleted 0) 0 0 .failed =
        some ⟨.pages since includeDeleted 0, .over⟩ := rfl
    obtain ⟨t, hsends, hclock, -⟩ := Sends.exchange hwork hway hprogress rfl hsettle
    exact ⟨t, [], hclock, hsends⟩
  have hleaf : ∀ (e : Errand) (chunks : List Chunk) (leaf : Chunk), e.work = .push chunks →
      leaf ∈ leavesOf chunks → ∀ (i : ℕ) (s : Outbound), work i = some e →
        e.UnderWay (timestamp s.now) → s.progress i = some ⟨e.work.begin, .asleep 0 s.now⟩ →
        ∃ t requests, t.now = s.now ∧ Sends cfg work i e s
          (requests ++ [.batch e.groupName leaf.1 leaf.2]) t := by
    intro e chunks leaf hpush hmem i s hwork hway hprogress
    rw [hpush] at hprogress
    obtain ⟨before, after, hleaves⟩ := List.append_of_mem hmem
    obtain ⟨t, -, requests, hclock, -, -, hsends⟩ :=
      Sends.leaf cfg hwork hway hprogress hleaves
    exact ⟨t, requests, hclock, hsends⟩
  cases hdoes : e.work with
  | fetch since includeDeleted =>
      cases hdoes' : e'.work with
      | push chunks =>
          rw [hdoes, hdoes'] at hshares
          exact hshares.elim
      | fetch since' includeDeleted' =>
          rw [hdoes, hdoes'] at hshares
          refine ⟨_, _, ?_, hdoes ▸ hpage e since includeDeleted hdoes,
            hdoes' ▸ hpage e' since' includeDeleted' hdoes'⟩
          rw [OutboundRequest.said, OutboundRequest.said, hgroup, hshares.1, hshares.2]
  | push chunks =>
      cases hdoes' : e'.work with
      | fetch since' includeDeleted' =>
          rw [hdoes, hdoes'] at hshares
          exact hshares.elim
      | push chunks' =>
          rw [hdoes, hdoes'] at hshares
          obtain ⟨leaf, hmem, hmem'⟩ := hshares
          refine ⟨_, _, ?_, hdoes ▸ hleaf e chunks leaf hdoes hmem,
            hdoes' ▸ hleaf e' chunks' leaf hdoes' hmem'⟩
          rw [hgroup]

/-- **Two errands under way in one second with a request in common** repeat a signature. -/
theorem repeats_of_shares {j : ℕ} {e' : Errand} (hij : i ≠ j) (hwork : work i = some e)
    (hwork' : work j = some e')
    (hcredentials : enc.credentials e.endpoint = enc.credentials e'.endpoint)
    (hshares : e.Shares e') {second : ℤ} (hway : e.UnderWay second) (hway' : e'.UnderWay second) :
    ∃ now s, Reaches (Outbound.step cfg work) anyStep (.start work now) s ∧
      ¬SignaturesDistinct mac enc s := by
  obtain ⟨r, r', hsaid, hfirst, hsecond⟩ := hshares.can_send cfg work
  let now : ℤ := second * nanosPerSec
  have hnow : timestamp now = second := timestamp_mul_nanosPerSec _
  obtain ⟨t, requests, hclock, hsends⟩ := hfirst i (.start work now) hwork
    (hnow.symm ▸ hway) (start_progress now hwork)
  have hclock : t.now = now := hclock
  have hprogress : t.progress j = some ⟨e'.work.begin, .asleep 0 t.now⟩ := by
    rw [hsends.others j hij.symm, hclock]
    exact start_progress now hwork'
  obtain ⟨u, requests', hclock', hsends'⟩ := hsecond j t hwork'
    (by rw [hclock, hnow]; exact hway') hprogress
  exact repeats_of_sends hsends hsends' hcredentials hsaid
    (congrArg timestamp (hclock'.trans hclock).symm)

end

/-! ### The law -/

/-- **When signatures stay different.**  Take a keyed hash without collisions and libraries that lose
nothing.  In every run of a workload, on any clock that does not go back, with any answers and
backoffs and in any order, all signatures made with one pair of credentials are different and no
vault with the service's own single-use rule rejects a request: this holds exactly if nothing is
retried or the base of the backoff is a second or more, and the errands are apart. -/
theorem signatures_distinct_iff (mac : Bytes → Bytes → Bytes) (enc : Encoding) (cfg : RetryConfig)
    (work : Workload)
    (hmac : ∀ secret message message', mac secret message = mac secret message' →
      message = message') (henc : enc.Faithful) :
    (∀ now s, Reaches (Outbound.step cfg work) anyStep (.start work now) s →
        SignaturesDistinct mac enc s ∧ NeverRejected mac enc s) ↔
      (work.Busy → cfg.maxRetries = 0 ∨ 1000 ≤ cfg.baseMs) ∧ work.Apart enc := by
  constructor
  · intro h
    have hnever : ¬∃ now s, Reaches (Outbound.step cfg work) anyStep (.start work now) s ∧
        ¬SignaturesDistinct mac enc s := by
      intro ⟨now, s, hreach, hrepeats⟩
      exact hrepeats (h now s hreach).1
    refine ⟨?_, ?_, ?_⟩
    · intro hbusy
      by_contra hcfg
      exact hnever (repeats_of_short_backoff hbusy (by omega) (by omega))
    · intro i e chunks hwork hpush
      by_contra htwice
      exact hnever (repeats_of_not_alone hwork hpush htwice)
    · intro i j e e' hij hwork hwork' hcredentials hshares second hway hway'
      exact hnever (repeats_of_shares hij hwork hwork' hcredentials hshares hway hway')
  · intro ⟨hcfg, hapart⟩ now s hreach
    have haccount : OutboundAccount cfg enc work s :=
      hreach.invariant (OutboundAccount.start now) fun _ _ _ hs _ hstep =>
        hs.step hcfg henc hapart hstep
    exact ⟨haccount.spread.signaturesDistinct hmac, haccount.spread.neverRejected hmac⟩

/-! ### One group, pushed and fetched -/

/-- The letters of a text, by number. -/
def letters (text : String) : List ℕ := text.toList.map Char.toNat

theorem letters_injective : Function.Injective letters := by
  intro a b h
  exact String.toList_inj.mp (List.map_injective_iff.mpr (fun _ _ => Char.toNat_inj.mp) h)

/-- What is in a record. -/
def recordParts (r : BatchRecordInput) : List ℕ × Option (List ℕ) × Option Bool × List (Option ℤ) :=
  (letters r.targetAddress, r.cause.map letters, r.isDeleted,
    [r.createdAt, r.updatedAt, r.lastSeenAt, r.deletedAt])

theorem recordParts_injective : Function.Injective recordParts := by
  intro a b h
  obtain ⟨haddress, hcause, hdeleted, htimes⟩ := by
    simpa only [recordParts, Prod.mk.injEq, List.cons.injEq, and_true] using h
  obtain ⟨hcreated, hupdated, hseen, hgone⟩ := htimes
  have haddress := letters_injective haddress
  have hcause := Option.map_injective letters_injective hcause
  cases a
  cases b
  simp_all only

/-- A table of texts, and a number in ones after a zero for whatever is not in it. -/
def listed {α : Type*} [DecidableEq α] (table : List (α × Bytes)) (number : α → ℕ) (a : α) : Bytes :=
  match table.find? fun entry => entry.1 = a with
  | some entry => entry.2
  | none => 0 :: List.replicate (number a) 1

/-- **A table of different texts loses nothing**, if no text in it begins with a zero. -/
theorem listed_injective {α : Type*} [DecidableEq α] {table : List (α × Bytes)} {number : α → ℕ}
    (hnumber : Function.Injective number) (htexts : (table.map Prod.snd).Nodup)
    (hzero : ∀ entry ∈ table, entry.2.head? ≠ some 0) : Function.Injective (listed table number) := by
  have hentry : ∀ {a : α} {entry : α × Bytes},
      (table.find? fun entry => entry.1 = a) = some entry → entry ∈ table ∧ entry.1 = a := by
    intro a entry h
    exact ⟨List.mem_of_find?_eq_some h, by simpa using List.find?_some h⟩
  intro a b h
  rw [listed, listed] at h
  split at h
  · rename_i entry hfind
    split at h
    · rename_i entry' hfind'
      rw [← (hentry hfind).2, ← (hentry hfind').2,
        List.inj_on_of_nodup_map htexts (hentry hfind).1 (hentry hfind').1 h]
    · exact absurd (congrArg List.head? h) (hzero _ (hentry hfind).1)
  · split at h
    · rename_i entry' hfind'
      exact absurd (congrArg List.head? h).symm (hzero _ (hentry hfind').1)
    · exact hnumber (List.replicate_inj.mp (List.cons.inj h).2 |>.1)

/-- Two addresses. -/
def firstAddress : BatchRecordInput := ⟨"203.0.113.7", none, none, none, none, none, none⟩

def secondAddress : BatchRecordInput := ⟨"203.0.113.8", none, none, none, none, none, none⟩

/-- The queries of the group `ban` that are made below. -/
def banQueries : List ((String × Option ℤ × Bool × ℕ) × Bytes) :=
  [(("ban", none, true, 0), ascii "group_name=ban&include_deleted=true&limit=5000&offset=0")]

/-- The bodies that are sent below, as they are written. -/
def banBodies : List ((String × List BatchRecordInput × BatchMode) × Bytes) :=
  [(("ban", [firstAddress, secondAddress], .fullReplace), ascii
      "\x7b\"group_name\":\"ban\",\"mode\":\"full_replace\",\"records\":[\x7b\"target_address\":\"203.0.113.7\"\x7d,\x7b\"target_address\":\"203.0.113.8\"\x7d]\x7d"),
    (("ban", [firstAddress], .fullReplace), ascii
      "\x7b\"group_name\":\"ban\",\"mode\":\"full_replace\",\"records\":[\x7b\"target_address\":\"203.0.113.7\"\x7d]\x7d"),
    (("ban", [secondAddress], .upsert), ascii
      "\x7b\"group_name\":\"ban\",\"mode\":\"upsert\",\"records\":[\x7b\"target_address\":\"203.0.113.8\"\x7d]\x7d")]

/-- How the requests below are written. -/
def banEncoding : Encoding where
  secret endpoint := ascii endpoint.signingSecret
  batchBody groupName records mode :=
    listed banBodies
      (fun b => Encodable.encode (letters b.1, b.2.1.map recordParts, b.2.2 == .upsert))
      (groupName, records, mode)
  pageQuery groupName since includeDeleted offset :=
    listed banQueries (fun q => Encodable.encode (letters q.1, q.2))
      (groupName, since, includeDeleted, offset)
  query_line groupName since includeDeleted offset := by
    rw [listed]
    split
    · rename_i entry hfind
      obtain rfl := List.mem_singleton.mp (List.mem_of_find?_eq_some hfind)
      decide
    · intro h
      rcases List.mem_cons.mp h with h | h
      · exact absurd h (by decide)
      · exact absurd (List.eq_of_mem_replicate h) (by decide)

theorem banEncoding_faithful : banEncoding.Faithful where
  body h := by
    have hnumber : Function.Injective fun b : String × List BatchRecordInput × BatchMode =>
        Encodable.encode (letters b.1, b.2.1.map recordParts, b.2.2 == .upsert) := by
      intro ⟨groupName, records, mode⟩ ⟨groupName', records', mode'⟩ h
      obtain ⟨hgroup, hrecords, hmode⟩ := by
        simpa only [Prod.mk.injEq] using Encodable.encode_injective h
      rw [letters_injective hgroup, recordParts_injective.list_map hrecords]
      cases mode <;> cases mode' <;> first | rfl | cases hmode
    simpa only [Prod.mk.injEq] using listed_injective hnumber (by decide) (by decide) h
  query h := by
    have hnumber : Function.Injective fun q : String × Option ℤ × Bool × ℕ =>
        Encodable.encode (letters q.1, q.2) := by
      intro ⟨groupName, rest⟩ ⟨groupName', rest'⟩ h
      obtain ⟨hgroup, hrest⟩ := by
        simpa only [Prod.mk.injEq] using Encodable.encode_injective h
      rw [letters_injective hgroup, hrest]
    simpa only [Prod.mk.injEq] using listed_injective hnumber (by decide) (by decide) h

/-- The vault. -/
def banVault : VaultEndpoint := ⟨1, "core", "https://core.example", "key", "secret"⟩

/-- A full delta of the group is fetched in the first two seconds; both addresses are pushed at any
time; from the third second on the delta is fetched again. -/
def banErrands : List Errand :=
  [⟨banVault, "ban", .fetch none true, 0, some 1, by decide⟩,
    ⟨banVault, "ban", .push [([firstAddress, secondAddress], .fullReplace)], 0, none, by decide⟩,
    ⟨banVault, "ban", .fetch none true, 2, none, by decide⟩]

def banWork : Workload := fun i => banErrands[i]?

theorem banWork_apart : banWork.Apart banEncoding where
  alone i e chunks hwork hpush := by
    have hall : ∀ e ∈ banErrands, ∀ chunks, e.work = .push chunks → (leavesOf chunks).Nodup := by
      simp only [banErrands, List.forall_mem_cons]
      refine ⟨by simp, ?_, by simp⟩
      intro chunks hpush
      obtain rfl := Work.push.inj hpush
      decide
    exact hall e (List.mem_of_getElem? hwork) chunks hpush
  apart i j e e' hij hwork hwork' _ hshares second hway hway' := by
    have hi : i < 3 := (List.getElem?_eq_some_iff.mp hwork).1
    have hj : j < 3 := (List.getElem?_eq_some_iff.mp hwork').1
    -- the two fetches are never under way together; a fetch and a push have nothing in common
    have hearly : ∀ {last : ℤ} {f : Errand}, f.UnderWay second → f.lastSecond = some last →
        second ≤ last := fun h hlast => h.2 _ hlast
    interval_cases i <;> interval_cases j <;> cases hwork <;> cases hwork'
    · exact hij rfl
    · exact hshares.2
    · exact absurd (hearly hway rfl) (not_le.mpr hway'.1)
    · exact hshares.2
    · exact hij rfl
    · exact hshares.2
    · exact absurd (hearly hway' rfl) (not_le.mpr hway.1)
    · exact hshares.2
    · exact hij rfl

/-- The fetch is answered `503` and made again after a second, while the push is halved and goes
through; then the delta is fetched once more.  No request is rejected. -/
theorem retry_after_a_second_is_accepted :
    ∃ s, runEvents (Outbound.step ⟨1000, 3⟩ banWork) anyStep (.start banWork 0)
        [.send 0, .answer 0 (.status 503) 1000, .send 1, .answer 1 (.status 413) 0, .send 1,
          .answer 1 (.ok false) 0, .send 1, .answer 1 (.ok false) 0, .tick nanosPerSec, .send 0,
          .answer 0 (.ok false) 0, .tick (2 * nanosPerSec), .send 2] = some s ∧
      s.sent.length = 6 ∧ SignaturesDistinct (fun _ message => message) banEncoding s ∧
      NeverRejected (fun _ message => message) banEncoding s := by
  have hrun : (runEvents (Outbound.step ⟨1000, 3⟩ banWork) anyStep (.start banWork 0)
      [.send 0, .answer 0 (.status 503) 1000, .send 1, .answer 1 (.status 413) 0, .send 1,
        .answer 1 (.ok false) 0, .send 1, .answer 1 (.ok false) 0, .tick nanosPerSec, .send 0,
        .answer 0 (.ok false) 0, .tick (2 * nanosPerSec), .send 2]).map
      (fun s => s.sent.length) = some 6 := by
    decide +kernel
  obtain ⟨s, hs, hlength⟩ := Option.map_eq_some_iff.mp hrun
  have hlaw := (signatures_distinct_iff (fun _ message => message) banEncoding ⟨1000, 3⟩ banWork
    (fun _ _ _ h => h) banEncoding_faithful).mpr ⟨fun _ => Or.inr le_rfl, banWork_apart⟩ 0 s
    (reaches_of_runEvents hs)
  exact ⟨s, hs, hlength, hlaw.1, hlaw.2⟩

/-- Two tasks that read the group at the same time. -/
def twoTasks : Workload := fun i =>
  if i < 2 then some ⟨banVault, "ban", .fetch none true, 0, none, by decide⟩ else none

/-- **Two ways to repeat a signature.**  With the default settings a page that is answered `503` is
fetched again half a second later; and two tasks that read one group start in the same second.
Either way the second request has the signature of the first, and a vault rejects it. -/
theorem repeated_signatures :
    (∃ s, Reaches (Outbound.step ⟨500, 3⟩ banWork) anyStep (.start banWork 0) s ∧
      ¬SignaturesDistinct (fun _ message => message) banEncoding s ∧
      acceptsAll 1 (.new 300 0)
        (s.sent.map fun m => (m.sentAt, m.digest (fun _ message => message) banEncoding)) = false) ∧
    ∃ s, Reaches (Outbound.step ⟨1000, 3⟩ twoTasks) anyStep (.start twoTasks 0) s ∧
      ¬SignaturesDistinct (fun _ message => message) banEncoding s ∧
      acceptsAll 1 (.new 300 0)
        (s.sent.map fun m => (m.sentAt, m.digest (fun _ message => message) banEncoding)) = false := by
  constructor
  · have hrun : (runEvents (Outbound.step ⟨500, 3⟩ banWork) anyStep (.start banWork 0)
        [.send 0, .answer 0 (.status 503) 500, .tick (500 * nanosPerMs), .send 0]).map (fun s =>
            (decide (SignaturesDistinct (fun _ message => message) banEncoding s),
              acceptsAll 1 (.new 300 0) (s.sent.map fun m =>
                (m.sentAt, m.digest (fun _ message => message) banEncoding)))) =
        some (false, false) := by
      decide +kernel
    obtain ⟨s, hs, hout⟩ := Option.map_eq_some_iff.mp hrun
    obtain ⟨hrepeats, hrejected⟩ := Prod.mk.inj hout
    exact ⟨s, reaches_of_runEvents hs, of_decide_eq_false hrepeats, hrejected⟩
  · have hrun : (runEvents (Outbound.step ⟨1000, 3⟩ twoTasks) anyStep (.start twoTasks 0)
        [.send 0, .send 1]).map (fun s =>
            (decide (SignaturesDistinct (fun _ message => message) banEncoding s),
              acceptsAll 1 (.new 300 0) (s.sent.map fun m =>
                (m.sentAt, m.digest (fun _ message => message) banEncoding)))) =
        some (false, false) := by
      decide +kernel
    obtain ⟨s, hs, hout⟩ := Option.map_eq_some_iff.mp hrun
    obtain ⟨hrepeats, hrejected⟩ := Prod.mk.inj hout
    exact ⟨s, reaches_of_runEvents hs, of_decide_eq_false hrepeats, hrejected⟩

end SimplyIpSync.Client
