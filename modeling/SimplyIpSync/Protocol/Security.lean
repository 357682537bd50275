import SimplyIpSync.Protocol.Run

/-!
# What signed requests guarantee

The keyed hash is ideal and a secret may be honest: a digest under it that somebody sends was once
computed by its holder.  Then `admitted_was_signed` says what an admission proves.  Replays take no
honesty: `refused_as_replay_iff` says what exactly a process refuses as one, and
`admitted_at_most_thrice` how often one signed request can be spent at a process.
-/

namespace SimplyIpSync.Protocol

open SimplyIpSync.Crypto SimplyIpSync.Entities SimplyIpSync.Storage SimplyIpSync.Replay
open SimplyIpSync.Middleware SimplyIpSync.Config SimplyIpSync.Auth SimplyIpSync.SignatureBinding
open SimplyIpSync.Api SimplyIpSync.Reach SimplyIpSync.Trace SimplyIpSync.Client

variable {gw : Gateway} {w w' : World}

/-! ### What an admission proves -/

/-- Nobody but its holder computes the keyed hash under an honest secret: such a digest that comes
with a request was put on the network when its holder signed. -/
def Unforged (gw : Gateway) (honest : Bytes → Prop) (w : World) : Event → Prop
  | .deliver d => ∀ header digest, d.request.headers.getStr "x-signature-256" = some header →
      (reading header).bind hexDecode = some digest →
        (∃ c : Components, honest c.secret ∧ c.digest gw.mac = digest) →
          ∃ c ∈ w.issued, c.digest gw.mac = digest
  | .sign _ _ => True
  | .start _ => True

/-- What is issued carries the second of a clock, and what is signed under an honest secret is
issued. -/
structure World.Genuine (gw : Gateway) (honest : Bytes → Prop) (w : World) : Prop where
  stamped : ∀ c ∈ w.issued, ∃ sec, IsDateTimeSec sec ∧ c.timestamp = timestampText sec
  issued : ∀ x ∈ w.log, ∀ record c, x.delivery.Signs gw record c → honest c.secret → c ∈ w.issued

/-- **One event.** -/
theorem World.Genuine.step (hmac : MacIdeal gw.mac) {honest : Bytes → Prop} {event : Event}
    (h : w.Genuine gw honest) (hgood : Unforged gw honest w event)
    (hstep : w.step gw event = some w') : w'.Genuine gw honest := by
  cases event with
  | sign c clock =>
      simp only [World.step] at hstep
      split at hstep
      · rename_i hstamp
        obtain rfl := Option.some.inj hstep
        refine ⟨List.forall_mem_cons.mpr ⟨⟨_, hstamp⟩, h.stamped⟩, ?_⟩
        intro x hx record c' hsigns hhonest
        exact List.mem_cons_of_mem _ (h.issued x hx record c' hsigns hhonest)
      · cases hstep
  | start now =>
      obtain rfl := Option.some.inj hstep
      exact ⟨h.stamped, h.issued⟩
  | deliver d =>
      obtain ⟨p, -, -, rfl⟩ := World.step_deliver hstep
      refine ⟨h.stamped, List.forall_mem_cons.mpr ⟨?_, h.issued⟩⟩
      intro record c hsigns hhonest
      obtain ⟨header, hheader, hdigest⟩ := hsigns.header
      -- the digest was computed by a holder, and it tells what was signed
      obtain ⟨c', hissued, hsame⟩ := hgood header _ hheader hdigest ⟨c, hhonest, rfl⟩
      rwa [← Components.digest_inj hmac hsame]

/-- **What an admission proves.**  Whatever is sent, in whatever order: an admitted request names a
key and carries a valid signature under its secret, and comes from an address the key is bound to.
If the secret is honest, its holder has signed this method, target and body, and did so within 300
seconds of the moment the server checked it. -/
theorem admitted_was_signed (hmac : MacIdeal gw.mac) {honest : Bytes → Prop}
    (hrun : Reaches (World.step gw) (Unforged gw honest) .empty w) {x : Exchange} (hx : x ∈ w.log)
    {grant : Authenticated} (hgrant : x.answer = .ok grant) :
    ∃ record c, x.delivery.Signs gw record c ∧
      grant = ⟨Master.authenticate x.delivery.keys record,
        resolveClientIp x.delivery.request.peer x.delivery.request.headers gw.trusted⟩ ∧
      checkBinding gw record.boundIps grant.clientIp = .ok () ∧
      (honest c.secret → c ∈ w.issued ∧ ∃ sec, c.timestamp = timestampText sec ∧
        |timestamp x.delivery.checkedAt - sec| ≤ 300) := by
  have hgenuine : w.Genuine gw honest := by
    refine hrun.invariant (P := World.Genuine gw honest)
      ⟨List.forall_mem_nil _, List.forall_mem_nil _⟩ ?_
    exact fun _ _ _ h hgood hstep => h.step hmac hgood hstep
  have hregular := (World.sound hrun).regular x hx
  obtain ⟨record, c, hsigns, hbound⟩ := hregular.admitted grant hgrant
  obtain ⟨hbinding, hwho⟩ := Delivery.bound_eq_ok.mp hbound
  refine ⟨record, c, hsigns, hwho, hbinding, ?_⟩
  intro hhonest
  have hissued := hgenuine.issued x hx record c hsigns hhonest
  obtain ⟨sec, hsec, htext⟩ := hgenuine.stamped c hissued
  refine ⟨hissued, sec, htext, ?_⟩
  obtain ⟨ts, hparse, hwindow⟩ := hsigns.inWindow
  rw [htext, parseI64_timestampText hsec] at hparse
  obtain rfl := Option.some.inj hparse
  exact (inWindow_iff hregular.dateTime hsec).mp hwindow

/-! ### A request on the wire -/

/-- A gateway with an ideal keyed hash. -/
def taggedGateway : Gateway := { plainGateway with mac := taggedMac }

theorem newline_notMem_1000 : newline ∉ ascii "1000" := by decide

/-- A holder with the secret `s` lists the keys, in the second 1000. -/
def listing : Components where
  secret := ascii "s"
  method := ascii "GET"
  target := ascii "/api/keys"
  timestamp := ascii "1000"
  body := []
  method_line := newline_notMem_get
  target_line := newline_notMem_keysPath
  timestamp_line := newline_notMem_1000

/-- The request with its signature, for a key that is stored under the hash of `k`. -/
def listingRequest : HttpRequest where
  peer := .v4 0xC6336407
  headers :=
    [("x-timestamp", ascii "1000"), ("x-api-key", ascii "k"),
      ("x-signature-256", listing.signature taggedMac)]
  method := ascii "GET"
  target := ascii "/api/keys"
  body := some []

/-- The request comes to the first process at this moment. -/
def sending (now : ℤ) : Delivery where
  process := 0
  keys := oneKey (some (ascii "v1.plain.73"))
  request := listingRequest
  checkedAt := now
  recordedAt := now

theorem listingRequest_signature :
    listingRequest.headers.getStr "x-signature-256" = some (listing.signature taggedMac) := by
  decide +kernel

theorem sending_signs {now : ℤ} (hnow : inWindow (timestamp now) 1000) :
    (sending now).Signs taggedGateway (storedKey (some (ascii "v1.plain.73"))) listing := by
  have hkey : listingRequest.headers.getStr "x-api-key" = some (ascii "k") := by decide +kernel
  have hform : signaturePrefix.isPrefixOf (trim (listing.signature taggedMac)) = true := by
    decide +kernel
  have hpresent : present now listingRequest.headers =
      .ok ⟨ascii "1000", ascii "k", listing.signature taggedMac⟩ := by
    have hvalid : validateTimestamp now (some (ascii "1000")) = .ok (ascii "1000") :=
      validateTimestamp_eq_ok.mpr ⟨1000, ⟨ascii "1000", rfl, by decide, by decide, by decide⟩, hnow⟩
    rw [present, show listingRequest.headers.get "x-timestamp" = some (ascii "1000") from rfl,
      hvalid]
    simp only [hkey, listingRequest_signature, hform, if_true]
  have hopens : openKey taggedGateway (oneKey (some (ascii "v1.plain.73"))) (ascii "k") =
      .ok (storedKey (some (ascii "v1.plain.73")), ascii "s") := by decide +kernel
  have hbody : acceptBody taggedGateway listingRequest = .ok [] := by decide +kernel
  exact ⟨_, hpresent, hopens, hbody, rfl, rfl, rfl,
    (listing.verify_iff taggedMac).mpr ⟨rfl, .refl _⟩⟩

/-- The request is signed and sent. -/
theorem admitted_was_signed_listing :
    ∃ w, Reaches (World.step taggedGateway) (Unforged taggedGateway fun _ => True) .empty w ∧
      ∃ x ∈ w.log, (∃ grant, x.answer = .ok grant) ∧ listing ∈ w.issued ∧
        |timestamp x.delivery.checkedAt - 1000| ≤ 300 := by
  let w : World :=
    { issued := [listing]
      processes := [⟨((sending 1000000000000).judge taggedGateway (Process.start 0).guard).2,
        1000000000000⟩]
      log := [⟨sending 1000000000000,
        ((sending 1000000000000).judge taggedGateway (Process.start 0).guard).1⟩] }
  have hunforged : Unforged taggedGateway (fun _ => True) ⟨[listing], [.start 0], []⟩
      (.deliver (sending 1000000000000)) := by
    intro header digest hheader hdigest _
    obtain rfl := Option.some.inj (listingRequest_signature.symm.trans hheader)
    exact ⟨listing, List.mem_singleton_self _,
      Option.some.inj ((listing.reading_signature taggedMac).symm.trans hdigest)⟩
  have hrun : Reaches (World.step taggedGateway) (Unforged taggedGateway fun _ => True)
      .empty w := by
    have hstart : World.step taggedGateway .empty (.start 0) = some ⟨[], [.start 0], []⟩ := rfl
    have hsign : World.step taggedGateway ⟨[], [.start 0], []⟩ (.sign listing 1000000000000) =
        some ⟨[listing], [.start 0], []⟩ := by
      rw [World.step, if_pos (by decide +kernel)]
    have hdeliver : World.step taggedGateway ⟨[listing], [.start 0], []⟩
        (.deliver (sending 1000000000000)) = some w := by
      have htakes : Process.Takes (.start 0) (sending 1000000000000) := by decide +kernel
      show (if Process.Takes (.start 0) (sending 1000000000000) then some w else none) = some w
      rw [if_pos htakes]
    exact ((Reaches.refl.tail trivial hstart).tail trivial hsign).tail hunforged hdeliver
  have hgrant : (w.log.head?.map fun x => x.answer.isOk) = some true := by decide +kernel
  obtain ⟨grant, hgrant⟩ : ∃ grant, ((sending 1000000000000).judge taggedGateway
      (Process.start 0).guard).1 = .ok grant := by
    cases hanswer : ((sending 1000000000000).judge taggedGateway (Process.start 0).guard).1 with
    | ok grant => exact ⟨grant, rfl⟩
    | error e =>
        simp only [w, List.head?_cons, Option.map_some, hanswer] at hgrant
        cases hgrant
  obtain ⟨record, c, hsigns, -, -, hhonest⟩ := admitted_was_signed taggedMac_ideal hrun
    (List.mem_singleton_self _) hgrant
  obtain ⟨-, rfl⟩ := (@sending_signs 1000000000000 (by decide)).unique hsigns
  obtain ⟨hissued, sec, htext, hclose⟩ := hhonest trivial
  have hsec : sec = 1000 := by
    refine timestampText_injective (htext.symm.trans ?_)
    decide +kernel
  rw [hsec] at hclose
  exact ⟨w, hrun, _, List.mem_singleton_self _, ⟨grant, hgrant⟩, hissued, hclose⟩

/-! ### Replays -/

/-- **What is refused as a replay.**  A signed request is answered as already used exactly when the
process has let the same request of the same key past its guard less than 300 seconds before:
neither is a replay within the window overlooked, nor a fresh request taken for one. -/
theorem refused_as_replay_iff (hmac : MacIdeal gw.mac)
    (hrun : Reaches (World.step gw) anyStep .empty w) {x : Exchange} {past : List Exchange}
    (hx : x :: past <:+ w.log) {record : ApiKey} {c : Components}
    (hsigns : x.delivery.Signs gw record c) :
    x.answer = .error alreadyUsed ↔
      ∃ y ∈ past, y.delivery.process = x.delivery.process ∧ y.answer ≠ .error alreadyUsed ∧
        (∃ record', record'.id = record.id ∧ y.delivery.Signs gw record' c) ∧
        x.delivery.recordedAt < y.delivery.recordedAt + windowNanos := by
  rw [(World.sound hrun).judged.of_suffix hx record c hsigns]
  constructor
  · rintro ⟨y, hy, ⟨hprocess, hanswer, record', c', hsigns', hid⟩, hlt⟩
    obtain ⟨hkey, hdigest⟩ := SignatureId.mk.inj hid
    obtain rfl := Components.digest_inj hmac hdigest
    exact ⟨y, hy, hprocess, hanswer, ⟨record', hkey.symm, hsigns'⟩, hlt⟩
  · rintro ⟨y, hy, hprocess, hanswer, ⟨record', hkey, hsigns'⟩, hlt⟩
    exact ⟨y, hy, ⟨hprocess, hanswer, record', c, hsigns', by rw [hkey]⟩, hlt⟩

/-- The log of a run is what was delivered. -/
theorem deliveries_of_runEvents {ds : List Delivery}
    (h : runEvents (World.step gw) anyStep w (ds.map .deliver) = some w') :
    w'.log.map Exchange.delivery = ds.reverse ++ w.log.map Exchange.delivery := by
  induction ds generalizing w with
  | nil =>
      obtain rfl := Option.some.inj h
      rfl
  | cons d ds ih =>
      have hany : anyStep w (Event.deliver d) := trivial
      rw [List.map_cons, runEvents, if_pos hany] at h
      obtain ⟨w₁, hfirst, hrest⟩ := Option.bind_eq_some_iff.mp h
      obtain ⟨p, -, -, rfl⟩ := World.step_deliver hfirst
      rw [ih hrest, List.map_cons, List.reverse_cons, List.append_assoc]
      rfl

/-- The server with one process, before anything is sent. -/
def oneProcess : World := ⟨[], [.start 0], []⟩

theorem reaches_oneProcess : Reaches (World.step gw) anyStep .empty oneProcess :=
  Reaches.refl.tail (e := .start 0) trivial rfl

/-- The request comes twice within 300 seconds. -/
theorem refused_as_replay_within_window :
    ∃ w x past, Reaches (World.step taggedGateway) anyStep .empty w ∧ w.log = x :: past ∧
      x.answer = .error alreadyUsed := by
  have hanswers : (runEvents (World.step taggedGateway) anyStep oneProcess
      ([sending 700000000000, sending 999999999999].map .deliver)).map
        (fun w => w.log.map fun x => x.answer.isOk) = some [false, true] := by
    decide +kernel
  obtain ⟨w, hw, hanswers⟩ := Option.map_eq_some_iff.mp hanswers
  have hrun := reaches_oneProcess.trans (reaches_of_runEvents hw)
  have hlog := deliveries_of_runEvents hw
  obtain ⟨x, past, hw, hx, hpast⟩ := List.map_eq_cons_iff.mp hlog
  obtain ⟨y, rest, rfl, hy, -⟩ := List.map_eq_cons_iff.mp hpast
  rw [hw] at hanswers
  obtain ⟨-, hfirst⟩ := List.cons_eq_cons.mp hanswers
  have hfirst : y.answer.isOk = true := (List.cons_eq_cons.mp hfirst).1
  have hsigns := @sending_signs 999999999999 (by decide)
  have hsigns' := @sending_signs 700000000000 (by decide)
  refine ⟨w, x, _, hrun, hw, ?_⟩
  refine (refused_as_replay_iff taggedMac_ideal hrun ⟨[], hw.symm⟩ (hx ▸ hsigns)).mpr
    ⟨y, List.mem_cons_self, by rw [hx, hy]; rfl, ?_, ⟨_, rfl, hy ▸ hsigns'⟩, ?_⟩
  · intro hused
    rw [hused] at hfirst
    cases hfirst
  · rw [hx, hy]
    decide

/-- The difference the window check looks at, and what it lets pass of it: 300 seconds either way,
and the one value whose absolute value overflows. -/
theorem exists_of_inWindow {sec ts : ℤ} (h : inWindow sec ts) :
    ∃ m k, sec - ts = m + 2 ^ 64 * k ∧ (|m| ≤ 300 ∨ m = -2 ^ 63) := by
  have hcheck : Int.bmod |Int.bmod (sec - ts) (2 ^ 64)| (2 ^ 64) ≤ 300 := of_decide_eq_true h
  have hsplit : ∃ k, sec - ts = Int.bmod (sec - ts) (2 ^ 64) + 2 ^ 64 * k :=
    ⟨(sec - ts - Int.bmod (sec - ts) (2 ^ 64)) / 2 ^ 64, by simp only [Int.bmod]; omega⟩
  have hrange : -2 ^ 63 ≤ Int.bmod (sec - ts) (2 ^ 64) ∧ Int.bmod (sec - ts) (2 ^ 64) < 2 ^ 63 := by
    simp only [Int.bmod]
    omega
  revert hcheck hsplit hrange
  generalize Int.bmod (sec - ts) (2 ^ 64) = m
  rintro hcheck ⟨k, hsplit⟩ ⟨hlow, hhigh⟩
  refine ⟨m, k, hsplit, ?_⟩
  rcases abs_cases m with ⟨habs, -⟩ | ⟨habs, -⟩
  · rw [habs] at hcheck ⊢
    simp only [Int.bmod] at hcheck
    omega
  · rw [habs] at hcheck ⊢
    simp only [Int.bmod] at hcheck
    omega

/-- A timestamp is in the window for at most 601 seconds, overflow included. -/
theorem inWindow_span {sec sec' ts : ℤ} (hsec : IsDateTimeSec sec) (hsec' : IsDateTimeSec sec')
    (h : inWindow sec ts) (h' : inWindow sec' ts) : sec' ≤ sec + 600 := by
  obtain ⟨hlow, hhigh⟩ := hsec
  obtain ⟨hlow', hhigh'⟩ := hsec'
  simp only [minDateTimeSecs, maxDateTimeSecs] at hlow hhigh hlow' hhigh'
  obtain ⟨m, k, hdiff, hm⟩ := exists_of_inWindow h
  obtain ⟨m', k', hdiff', hm'⟩ := exists_of_inWindow h'
  have hnear : ∀ m : ℤ, |m| ≤ 300 → -300 ≤ m ∧ m ≤ 300 := fun m hm => abs_le.mp hm
  rcases hm with hm | hm <;> rcases hm' with hm' | hm'
  · have hle := hnear m hm
    have hle' := hnear m' hm'
    omega
  · have hle := hnear m hm
    omega
  · have hle' := hnear m' hm'
    omega
  · omega

/-- The exchange admits the request with these components at this process, as this key. -/
def Exchange.Admits (gw : Gateway) (x : Exchange) (i : ℕ) (keyId : Uuid) (c : Components) : Prop :=
  x.delivery.process = i ∧ (∃ record, x.delivery.Signs gw record c) ∧
    ∃ grant, x.answer = .ok grant ∧ grant.key.id = keyId

theorem Exchange.Admits.passes {x : Exchange} {i : ℕ} {keyId : Uuid} {c : Components}
    (h : x.Admits gw i keyId c) (hregular : x.Regular gw) :
    x.Passes gw i ⟨keyId, c.digest gw.mac⟩ := by
  obtain ⟨hprocess, ⟨record, hsigns⟩, grant, hgrant, hkey⟩ := h
  refine ⟨hprocess, by rw [hgrant]; exact nofun, record, c, hsigns, ?_⟩
  obtain ⟨record', c', hsigns', hbound⟩ := hregular.admitted grant hgrant
  obtain ⟨rfl, rfl⟩ := hsigns.unique hsigns'
  obtain ⟨-, rfl⟩ := Delivery.bound_eq_ok.mp hbound
  rw [← hkey, Master.authenticate_id]

/-- **How often one signed request can be spent.**  The admissions of one request at one process are
300 seconds apart.  So it is admitted at most three times, as long as no body is held back for
299 seconds or more. -/
theorem admitted_at_most_thrice (hrun : Reaches (World.step gw) anyStep .empty w) {i : ℕ}
    {keyId : Uuid} {c : Components} {xs : List Exchange} (hxs : xs.Sublist w.log)
    (hadmits : ∀ x ∈ xs, x.Admits gw i keyId c) :
    Apart windowNanos (fun x => x.delivery.recordedAt) xs ∧
      ((∀ x ∈ xs, x.delivery.recordedAt < x.delivery.checkedAt + 299 * nanosPerSec) →
        xs.length ≤ 3) := by
  have hsound := World.sound hrun
  have hregular : ∀ x ∈ xs, x.Regular gw := fun x hx => hsound.regular x (hxs.subset hx)
  have hapart : Apart windowNanos (fun x => x.delivery.recordedAt) xs := by
    have hpairs := hsound.judged.pairwise (R := fun later earlier =>
      later.Admits gw i keyId c → later.Regular gw → earlier.Admits gw i keyId c →
        earlier.Regular gw →
          earlier.delivery.recordedAt + windowNanos ≤ later.delivery.recordedAt) ?_
    · refine (hpairs.sublist hxs).imp_of_mem ?_
      intro later earlier hlater hearlier hpair
      exact hpair (hadmits later hlater) (hregular later hlater) (hadmits earlier hearlier)
        (hregular earlier hearlier)
    · intro later past hjudged earlier hearlier hl hlr he her
      by_contra hlt
      obtain ⟨hprocess, hanswer, record, c', hsigns, hid⟩ := hl.passes hlr
      refine hanswer ((hjudged record c' hsigns).mpr ⟨earlier, hearlier, ?_, not_le.mp hlt⟩)
      rw [hprocess, ← hid]
      exact he.passes her
  refine ⟨hapart, fun hprompt => hapart.length_le (by decide) ?_⟩
  intro later hlater earlier hearlier
  obtain ⟨-, ⟨record, hsigns⟩, -⟩ := hadmits later hlater
  obtain ⟨-, ⟨record', hsigns'⟩, -⟩ := hadmits earlier hearlier
  obtain ⟨ts, hparse, hwindow⟩ := hsigns.inWindow
  obtain ⟨ts', hparse', hwindow'⟩ := hsigns'.inWindow
  obtain rfl := Option.some.inj (hparse.symm.trans hparse')
  have hspan := inWindow_span (hregular earlier hearlier).dateTime (hregular later hlater).dateTime
    hwindow' hwindow
  have hlate := hprompt later hlater
  have hbefore := (hregular earlier hearlier).clock
  have hsecond := lt_timestamp_add_one_mul later.delivery.checkedAt
  have hsecond' := timestamp_mul_le earlier.delivery.checkedAt
  have hwindowNanos : windowNanos = 300 * nanosPerSec := rfl
  simp only [hwindowNanos, nanosPerSec] at hlate hsecond hsecond' ⊢
  omega

/-- **Three times it is.**  Sent 300 seconds before the second it names, in that second, and 300
seconds after it, the request is admitted each time. -/
theorem admitted_thrice :
    ∃ w, Reaches (World.step taggedGateway) anyStep .empty w ∧ w.log.length = 3 ∧
      (∀ x ∈ w.log, x.Admits taggedGateway 0 1 listing) ∧
      Apart windowNanos (fun x => x.delivery.recordedAt) w.log := by
  have hanswers : (runEvents (World.step taggedGateway) anyStep oneProcess
      ([sending 700000000000, sending 1000000000000, sending 1300000000000].map .deliver)).map
        (fun w => w.log.map fun x => x.answer.isOk) = some [true, true, true] := by
    decide +kernel
  obtain ⟨w, hw, hanswers⟩ := Option.map_eq_some_iff.mp hanswers
  have hrun := reaches_oneProcess.trans (reaches_of_runEvents hw)
  have hlog := deliveries_of_runEvents hw
  have hadmits : ∀ x ∈ w.log, x.Admits taggedGateway 0 1 listing := by
    intro x hx
    have hok : x.answer.isOk = true := by
      have hmem := List.mem_map_of_mem (f := fun x : Exchange => x.answer.isOk) hx
      rw [hanswers] at hmem
      simpa using hmem
    obtain ⟨now, hnow, hdelivery⟩ : ∃ now, inWindow (timestamp now) 1000 ∧
        x.delivery = sending now := by
      have hmem := List.mem_map_of_mem (f := Exchange.delivery) hx
      rw [hlog, show List.map Exchange.delivery oneProcess.log = [] from rfl, List.append_nil,
        List.mem_reverse] at hmem
      simp only [List.mem_cons, List.not_mem_nil, or_false] at hmem
      rcases hmem with h | h | h
      · exact ⟨700000000000, by decide, h⟩
      · exact ⟨1000000000000, by decide, h⟩
      · exact ⟨1300000000000, by decide, h⟩
    have hsigns := hdelivery ▸ sending_signs hnow
    cases hanswer : x.answer with
    | error e =>
        rw [hanswer] at hok
        cases hok
    | ok grant =>
        obtain ⟨record, c, hsigns', hbound⟩ :=
          ((World.sound hrun).regular x hx).admitted grant hanswer
        obtain ⟨rfl, rfl⟩ := hsigns.unique hsigns'
        obtain ⟨-, rfl⟩ := Delivery.bound_eq_ok.mp hbound
        refine ⟨by rw [hdelivery]; rfl, ⟨_, hsigns⟩, _, hanswer, ?_⟩
        rw [Master.authenticate_id]
        rfl
  have hlength := congrArg List.length hanswers
  rw [List.length_map] at hlength
  exact ⟨w, hrun, hlength, hadmits,
    (admitted_at_most_thrice hrun (List.Sublist.refl _) hadmits).1⟩

end SimplyIpSync.Protocol
