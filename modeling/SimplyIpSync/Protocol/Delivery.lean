import SimplyIpSync.Auth
import SimplyIpSync.Client.Signing
import SimplyIpSync.SignatureBinding
import SimplyIpSync.SingleUse

/-!
# One delivery (`auth_middleware` on one request)

A request comes to a process while the key table holds something, and the two readings of the clock
are taken.  Either it signs nothing and is refused without a trace, or it signs exactly one thing,
and the replay guard and then the IP binding answer it (`Delivery.judge_cases`).
-/

namespace SimplyIpSync.Protocol

open SimplyIpSync.Crypto SimplyIpSync.Entities SimplyIpSync.Storage SimplyIpSync.Replay
open SimplyIpSync.Middleware SimplyIpSync.Config SimplyIpSync.Auth SimplyIpSync.SignatureBinding
open SimplyIpSync.Api SimplyIpSync.Client

/-! ### The timestamp of an honest clock -/

theorem isDigit_of_mem_decimalDigits {n : ℕ} {b : UInt8} (h : b ∈ decimalDigits n) :
    isDigit b = true := by
  obtain ⟨d, hd, rfl⟩ := mem_decimalDigits h
  have hvalue := toNat_digit hd
  simp only [isDigit, Bool.and_eq_true, decide_eq_true_eq, UInt8.le_iff_toNat_le, hvalue]
  have h48 : (48 : UInt8).toNat = 48 := rfl
  have h57 : (57 : UInt8).toNat = 57 := rfl
  omega

theorem parseDigits_decimalDigits {n : ℕ} (negative : Bool) (hn : n < 2 ^ 63) :
    parseDigits negative (decimalDigits n) = some (if negative then -(n : ℤ) else n) := by
  have hne : decimalDigits n ≠ [] := by
    rw [decimalDigits]
    split
    · exact List.cons_ne_nil _ _
    · rename_i hpos
      simpa using Nat.digits_ne_nil_iff_ne_zero.mpr hpos
  have hall : (decimalDigits n).all isDigit = true :=
    List.all_eq_true.mpr fun b hb => isDigit_of_mem_decimalDigits hb
  rw [parseDigits, digitsValue_decimalDigits]
  cases negative with
  | true =>
      rw [if_pos ⟨hne, hall, by simp only [if_true]; omega, by simp only [if_true]; omega⟩]
  | false =>
      rw [if_pos ⟨hne, hall, by simp only [Bool.false_eq_true, if_false]; omega,
        by simp only [Bool.false_eq_true, if_false]; omega⟩]

/-- **The server reads the second that was signed.** -/
theorem parseI64_timestampText {sec : ℤ} (h : IsDateTimeSec sec) :
    parseI64 (timestampText sec) = some sec := by
  obtain ⟨hlow, hhigh⟩ := h
  simp only [minDateTimeSecs, maxDateTimeSecs] at hlow hhigh
  have hfits : sec.natAbs < 2 ^ 63 := by omega
  rw [timestampText]
  split
  · rename_i hneg
    rw [parseI64, if_pos rfl, parseDigits_decimalDigits true hfits, if_pos rfl]
    congr 1
    omega
  · rename_i hpos
    have hparse := parseDigits_decimalDigits false hfits
    cases hdigits : decimalDigits sec.natAbs with
    | nil =>
        rw [hdigits] at hparse
        cases hparse
    | cons b rest =>
        have hb : b ∈ decimalDigits sec.natAbs := hdigits ▸ List.mem_cons_self
        have hplus : b ≠ 43 := by
          rintro rfl
          exact absurd (isDigit_of_mem_decimalDigits hb) (by decide)
        rw [hdigits] at hparse
        rw [parseI64, if_neg (ne_of_mem_decimalDigits hb).1, if_neg hplus, hparse,
          if_neg Bool.false_ne_true]
        congr 1
        omega

/-! ### Requests under way -/

/-- The request line that lists the keys is one line. -/
theorem newline_notMem_get : newline ∉ ascii "GET" := by decide

theorem newline_notMem_keysPath : newline ∉ ascii "/api/keys" := by decide

/-- A request that comes to a process: what the key table holds for it, and the two readings of the
clock. -/
structure Delivery where
  process : ℕ
  keys : Table ApiKey.id
  request : HttpRequest
  checkedAt : ℤ
  recordedAt : ℤ

/-- A delivery and its answer. -/
structure Exchange where
  delivery : Delivery
  answer : Except AppError Authenticated

/-- The refusal of a signature that has been used. -/
def alreadyUsed : AppError :=
  .unauthorized "This request signature has already been used; sign a fresh request"

/-- The request names a key, its timestamp is in the window, and it carries a signature of these
components under the secret of the key. -/
def Delivery.Signs (gw : Gateway) (d : Delivery) (record : ApiKey) (c : Components) : Prop :=
  ∃ p, present d.checkedAt d.request.headers = .ok p ∧
    openKey gw d.keys p.providedKey = .ok (record, c.secret) ∧
    acceptBody gw d.request = .ok c.body ∧ d.request.method = c.method ∧
    d.request.target = c.target ∧ p.timestamp = c.timestamp ∧
    c.verify gw.mac p.providedSignature = some (c.digest gw.mac)

/-- A request line has no line break. -/
def Delivery.OneLine (d : Delivery) : Prop :=
  newline ∉ d.request.method ∧ newline ∉ d.request.target

instance (d : Delivery) : Decidable d.OneLine := inferInstanceAs (Decidable (_ ∧ _))

/-- The middleware on a delivery. -/
def Delivery.judge (gw : Gateway) (d : Delivery) (g : ReplayGuard) :
    Except AppError Authenticated × ReplayGuard :=
  authMiddleware gw d.keys g d.request d.checkedAt d.recordedAt

section Judge

variable {gw : Gateway} {d : Delivery} {g : ReplayGuard} {record record' : ApiKey}
  {c c' : Components}

/-- A request signs one thing. -/
theorem Delivery.Signs.unique (h : d.Signs gw record c) (h' : d.Signs gw record' c') :
    record = record' ∧ c = c' := by
  obtain ⟨p, hp, hkey, hbody, hmethod, htarget, htimestamp, -⟩ := h
  obtain ⟨p', hp', hkey', hbody', hmethod', htarget', htimestamp', -⟩ := h'
  obtain rfl := Except.ok.inj (hp.symm.trans hp')
  obtain ⟨hrecord, hsecret⟩ := Prod.mk.inj (Except.ok.inj (hkey.symm.trans hkey'))
  have hbodies := Except.ok.inj (hbody.symm.trans hbody')
  refine ⟨hrecord, ?_⟩
  cases c
  cases c'
  simp only at hsecret hbodies hmethod htarget htimestamp hmethod' htarget' htimestamp'
  subst hmethod htarget htimestamp hsecret hbodies hmethod' htarget' htimestamp'
  rfl

/-- The second a signature names is in the window. -/
theorem Delivery.Signs.inWindow (h : d.Signs gw record c) :
    ∃ ts, parseI64 c.timestamp = some ts ∧ inWindow (timestamp d.checkedAt) ts := by
  obtain ⟨p, hp, -, -, -, -, htimestamp, -⟩ := h
  rw [present] at hp
  split at hp
  · cases hp
  rename_i raw hvalid
  obtain ⟨ts, ⟨value, -, -, -, hparse⟩, hwindow⟩ := validateTimestamp_eq_ok.mp hvalid
  split at hp
  · cases hp
  split at hp
  · cases hp
  split at hp
  · obtain rfl := Except.ok.inj hp
    exact ⟨ts, htimestamp ▸ hparse, hwindow⟩
  · cases hp

/-- The signature header of a signed request reads as the digest. -/
theorem Delivery.Signs.header (h : d.Signs gw record c) :
    ∃ header, d.request.headers.getStr "x-signature-256" = some header ∧
      (reading header).bind hexDecode = some (c.digest gw.mac) := by
  obtain ⟨p, hp, -, -, -, -, -, hverify⟩ := h
  rw [Components.verify_eq] at hverify
  rw [present] at hp
  split at hp
  · cases hp
  split at hp
  · cases hp
  split at hp
  · cases hp
  rename_i header hheader
  split at hp
  · obtain rfl := Except.ok.inj hp
    exact ⟨header, hheader, (Option.filter_eq_some_iff.mp hverify).1⟩
  · cases hp

/-- What the IP binding of the key says once the guard has let the request pass. -/
def Delivery.bound (gw : Gateway) (d : Delivery) (record : ApiKey) :
    Except AppError Authenticated :=
  let clientIp := resolveClientIp d.request.peer d.request.headers gw.trusted
  (checkBinding gw record.boundIps clientIp).map fun _ =>
    ⟨Master.authenticate d.keys record, clientIp⟩

theorem Delivery.bound_eq_ok {grant : Authenticated} :
    d.bound gw record = .ok grant ↔
      checkBinding gw record.boundIps grant.clientIp = .ok () ∧
        grant = ⟨Master.authenticate d.keys record,
          resolveClientIp d.request.peer d.request.headers gw.trusted⟩ := by
  rw [bound]
  constructor
  · intro h
    cases hbinding : checkBinding gw record.boundIps
        (resolveClientIp d.request.peer d.request.headers gw.trusted) with
    | error e =>
        rw [hbinding] at h
        cases h
    | ok u =>
        rw [hbinding] at h
        obtain rfl := Except.ok.inj h
        exact ⟨hbinding, rfl⟩
  · rintro ⟨hbinding, rfl⟩
    rw [hbinding]
    rfl

theorem Delivery.bound_ne_alreadyUsed : d.bound gw record ≠ .error alreadyUsed := by
  rw [bound, checkBinding]
  cases hnetworks : boundNetworks gw record.boundIps with
  | error e =>
      rw [boundNetworks] at hnetworks
      split at hnetworks
      · cases hnetworks
      · obtain rfl := Except.error.inj hnetworks
        exact fun h => absurd (Except.error.inj h) (by decide)
  | ok networks =>
      simp only
      split
      · exact fun h => absurd (Except.error.inj h) (by decide)
      · exact fun h => by cases h

theorem ne_alreadyUsed_of_present {checkedAt : ℤ} {headers : HeaderMap} {e : AppError}
    (h : present checkedAt headers = .error e) : e ≠ alreadyUsed := by
  rw [present] at h
  split at h
  · rename_i htimestamp
    obtain rfl := Except.error.inj h
    rw [validateTimestamp] at htimestamp
    split at htimestamp
    · obtain rfl := Except.error.inj htimestamp
      decide
    · split at htimestamp
      · obtain rfl := Except.error.inj htimestamp
        decide
      · split at htimestamp
        · cases htimestamp
        · obtain rfl := Except.error.inj htimestamp
          decide
  · split at h
    · obtain rfl := Except.error.inj h
      decide
    · split at h
      · obtain rfl := Except.error.inj h
        decide
      · split at h
        · cases h
        · obtain rfl := Except.error.inj h
          decide

theorem ne_alreadyUsed_of_openKey {keys : Table ApiKey.id} {providedKey : Bytes} {e : AppError}
    (h : openKey gw keys providedKey = .error e) : e ≠ alreadyUsed := by
  rw [openKey] at h
  split at h
  · obtain rfl := Except.error.inj h
    decide
  · split at h
    · obtain rfl := Except.error.inj h
      decide
    · split at h
      · obtain rfl := Except.error.inj h
        decide
      · cases h

theorem acceptBody_eq_error {req : HttpRequest} {e : AppError}
    (h : acceptBody gw req = .error e) : e = tooLarge := by
  rw [acceptBody] at h
  split at h
  · exact (Except.error.inj h).symm
  · split at h
    · exact (Except.error.inj h).symm
    · cases h

/-- A presented timestamp is one line. -/
theorem newline_notMem_of_present {checkedAt : ℤ} {headers : HeaderMap} {p : Presented}
    (h : present checkedAt headers = .ok p) : newline ∉ p.timestamp := by
  rw [present] at h
  split at h
  · cases h
  rename_i raw hvalid
  obtain ⟨ts, hsupplies, -⟩ := validateTimestamp_eq_ok.mp hvalid
  split at h
  · cases h
  split at h
  · cases h
  split at h
  · obtain rfl := Except.ok.inj h
    exact hsupplies.newline_notMem
  · cases h

/-- **One delivery.**  A request that signs nothing is refused and leaves the guard alone; one that
does is for the guard to answer, and then for the IP binding. -/
theorem Delivery.judge_cases (hline : d.OneLine) (g : ReplayGuard) :
    ((∀ record c, ¬d.Signs gw record c) ∧
        ∃ e, e ≠ alreadyUsed ∧ d.judge gw g = (.error e, g)) ∨
      ∃ record c, d.Signs gw record c ∧
        d.judge gw g =
          (if (g.checkAndRecord d.recordedAt record.id (c.digest gw.mac)).1 then d.bound gw record
            else .error alreadyUsed,
            (g.checkAndRecord d.recordedAt record.id (c.digest gw.mac)).2) := by
  cases hp : present d.checkedAt d.request.headers with
  | error e =>
      refine Or.inl ⟨?_, e, ne_alreadyUsed_of_present hp, by simp only [judge, authMiddleware, hp]⟩
      rintro record c ⟨p, hp', -⟩
      cases hp.symm.trans hp'
  | ok p =>
      cases hkey : openKey gw d.keys p.providedKey with
      | error e =>
          refine Or.inl ⟨?_, e, ne_alreadyUsed_of_openKey hkey,
            by simp only [judge, authMiddleware, hp, hkey]⟩
          rintro record c ⟨p', hp', hkey', -⟩
          obtain rfl := Except.ok.inj (hp.symm.trans hp')
          cases hkey.symm.trans hkey'
      | ok out =>
          obtain ⟨record, secret⟩ := out
          cases hbody : acceptBody gw d.request with
          | error e =>
              refine Or.inl ⟨?_, e, ?_, by simp only [judge, authMiddleware, hp, hkey, hbody]⟩
              · rintro record' c ⟨p', -, -, hbody', -⟩
                cases hbody.symm.trans hbody'
              · rw [acceptBody_eq_error hbody]
                decide
          | ok body =>
              let c : Components := ⟨secret, d.request.method, d.request.target, p.timestamp, body,
                hline.1, hline.2, newline_notMem_of_present hp⟩
              cases hverify : c.verify gw.mac p.providedSignature with
              | none =>
                  have hnone : verifySignature gw.mac secret d.request.method d.request.target
                      p.timestamp body p.providedSignature = none := hverify
                  refine Or.inl ⟨?_, .unauthorized "Invalid request signature", by decide,
                    by simp only [judge, authMiddleware, hp, hkey, hbody, hnone]⟩
                  rintro record' c' ⟨p', hp', hkey', hbody', hmethod, htarget, htimestamp, hsigned⟩
                  obtain rfl := Except.ok.inj (hp.symm.trans hp')
                  have hsecret := (Prod.mk.inj (Except.ok.inj (hkey.symm.trans hkey'))).2
                  have hbodies := Except.ok.inj (hbody.symm.trans hbody')
                  rw [Components.verify, ← hsecret, ← hbodies, ← hmethod, ← htarget, ← htimestamp,
                    hnone] at hsigned
                  cases hsigned
              | some digest =>
                  have hdigest : digest = c.digest gw.mac :=
                    ((c.verify_iff gw.mac).mp hverify).1
                  rw [hdigest] at hverify
                  have hsome : verifySignature gw.mac secret d.request.method d.request.target
                      p.timestamp body p.providedSignature = some (c.digest gw.mac) := hverify
                  refine Or.inr ⟨record, c, ⟨p, hp, hkey, hbody, rfl, rfl, rfl, hverify⟩, ?_⟩
                  simp only [judge, authMiddleware, hp, hkey, hbody, hsome, bound]
                  cases (g.checkAndRecord d.recordedAt record.id (c.digest gw.mac)).1 with
                  | false => rfl
                  | true =>
                      simp only [if_true]
                      cases checkBinding gw record.boundIps _ <;> rfl

end Judge

end SimplyIpSync.Protocol
