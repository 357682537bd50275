import SimplyIpSync.Config
import SimplyIpSync.Master
import SimplyIpSync.SecretCipher
import SimplyIpSync.Text

/-!
# The whole of `auth_middleware` (`src/middleware.rs`)

Every exit of the middleware in its order: the timestamp, the headers, the key lookup, the opening
of the key's secret, the declared and the real size of the body, the signature, the replay guard,
the IP binding, and the check of a claimed Master flag.  Database lookups succeed.

What a caller without a valid signature sees is a function of the request and of how far the lookup
of its key gets; `unsigned_status` computes it, and `unsigned_status_eq_iff` compares two contents of
the key table.
-/

namespace SimplyIpSync.Auth

open SimplyIpSync.Crypto SimplyIpSync.Bogon SimplyIpSync.Net SimplyIpSync.Entities
open SimplyIpSync.Storage SimplyIpSync.Replay SimplyIpSync.Middleware SimplyIpSync.Config
open SimplyIpSync.Api SimplyIpSync.Text

/-- What the middleware is configured with, and the hash, the keyed hash and the network reader it
calls. -/
structure Gateway where
  trusted : List IpNetwork
  maxBodyBytes : ℕ
  cipher : SecretCipher
  sha256 : Bytes → Bytes
  mac : Bytes → Bytes → Bytes
  parseNetwork : List Char → Option IpNetwork

/-- An inbound request; the body is `none` when its stream breaks off. -/
structure HttpRequest where
  peer : IpAddr
  headers : HeaderMap
  method : Bytes
  target : Bytes
  body : Option Bytes

/-- The request extensions of an authenticated request. -/
structure Authenticated where
  key : ApiKey
  clientIp : IpAddr
  deriving DecidableEq, Repr

/-! ### What the request presents -/

/-- The three values the headers carry: the timestamp, the key and the signature. -/
structure Presented where
  timestamp : Bytes
  providedKey : Bytes
  providedSignature : Bytes
  deriving DecidableEq, Repr

/-- The exits before the key lookup. -/
def present (checkedAt : ℤ) (headers : HeaderMap) : Except AppError Presented :=
  match validateTimestamp checkedAt (headers.get "x-timestamp") with
  | .error e => .error e
  | .ok timestamp =>
      match headers.getStr "x-api-key" with
      | none => .error (.unauthorized "Missing X-API-Key header")
      | some providedKey =>
          match headers.getStr "x-signature-256" with
          | none => .error (.unauthorized "Missing X-Signature-256 header")
          | some providedSignature =>
              if signaturePrefix.isPrefixOf (trim providedSignature) then
                .ok ⟨timestamp, providedKey, providedSignature⟩
              else .error (.unauthorized "X-Signature-256 must be formatted as sha256=<hex>")

/-- `hash_key`. -/
def hashKey (sha256 : Bytes → Bytes) (plaintext : Bytes) : Bytes := hexEncode (sha256 plaintext)

/-- `str::parse::<usize>`. -/
def parseUsize (text : Bytes) : Option ℕ :=
  let digits := if text.head? = some 43 then text.tail else text
  if digits ≠ [] ∧ digits.all isDigit ∧ digitsValue digits < 2 ^ 64 then some (digitsValue digits)
  else none

/-- The declared `Content-Length` is over the limit. -/
def declaresTooMuch (gw : Gateway) (headers : HeaderMap) : Bool :=
  match (headers.getStr "content-length").bind parseUsize with
  | some declared => gw.maxBodyBytes < declared
  | none => false

/-- `to_bytes` with the limit. -/
def readBody (gw : Gateway) (body : Option Bytes) : Option Bytes :=
  body.filter fun bytes => bytes.length ≤ gw.maxBodyBytes

/-- `BodyRejected` for an oversized body. -/
def tooLarge : AppError := .bodyRejected 413 "Request body exceeds the maximum allowed size"

/-- The body of the request, if both of its sizes are within the limit. -/
def acceptBody (gw : Gateway) (req : HttpRequest) : Except AppError Bytes :=
  if declaresTooMuch gw req.headers then .error tooLarge
  else
    match readBody gw req.body with
    | none => .error tooLarge
    | some bytes => .ok bytes

/-! ### The key -/

/-- The lookup of the provided key. -/
def findKey (gw : Gateway) (keys : Table ApiKey.id) (providedKey : Bytes) : Option ApiKey :=
  keys.rows.find? fun key => key.keyHash = hashKey gw.sha256 providedKey

/-- The record and the opened secret of the provided key. -/
def openKey (gw : Gateway) (keys : Table ApiKey.id) (providedKey : Bytes) :
    Except AppError (ApiKey × Bytes) :=
  match findKey gw keys providedKey with
  | none => .error (.unauthorized "Invalid API Key")
  | some record =>
      match record.signingSecret with
      | none =>
          .error (.unauthorized "This API key has no signing secret; rotate it to obtain one")
      | some stored =>
          match gw.cipher.openSecret stored with
          | .error _ => .error .internal
          | .ok secret => .ok (record, secret)

/-! ### The IP binding -/

/-- The networks of a `bound_ips` column; an item that is none is an internal error. -/
def boundNetworks (gw : Gateway) (boundIps : Option String) : Except AppError (List IpNetwork) :=
  let items := (((boundIps.getD "").toList.splitOn ',').map trimText).filter fun item => item ≠ []
  match items.mapM gw.parseNetwork with
  | some networks => .ok networks
  | none => .error .internal

/-- The exit of the IP binding. -/
def checkBinding (gw : Gateway) (boundIps : Option String) (clientIp : IpAddr) :
    Except AppError Unit :=
  match boundNetworks gw boundIps with
  | .error e => .error e
  | .ok networks =>
      if networks ≠ [] ∧ !networks.any fun net => contains net clientIp then
        .error (.forbidden "Client IP not allowed")
      else .ok ()

/-! ### The middleware -/

/-- `auth_middleware`, and the replay guard afterwards. -/
def authMiddleware (gw : Gateway) (keys : Table ApiKey.id) (g : ReplayGuard) (req : HttpRequest)
    (checkedAt recordedAt : ℤ) : Except AppError Authenticated × ReplayGuard :=
  let clientIp := resolveClientIp req.peer req.headers gw.trusted
  match present checkedAt req.headers with
  | .error e => (.error e, g)
  | .ok p =>
      match openKey gw keys p.providedKey with
      | .error e => (.error e, g)
      | .ok (record, secret) =>
          match acceptBody gw req with
          | .error e => (.error e, g)
          | .ok body =>
              match verifySignature gw.mac secret req.method req.target p.timestamp body
                  p.providedSignature with
              | none => (.error (.unauthorized "Invalid request signature"), g)
              | some digest =>
                  let used := g.checkAndRecord recordedAt record.id digest
                  if used.1 then
                    match checkBinding gw record.boundIps clientIp with
                    | .error e => (.error e, used.2)
                    | .ok () => (.ok ⟨Master.authenticate keys record, clientIp⟩, used.2)
                  else
                    (.error (.unauthorized
                      "This request signature has already been used; sign a fresh request"), used.2)

/-- **The two models of the middleware agree.**  Once the key is opened and the body is accepted, the
guard and the refusals up to it are those of `Middleware.authenticate`. -/
theorem authMiddleware_authenticate {gw : Gateway} {keys : Table ApiKey.id} {g : ReplayGuard}
    {req : HttpRequest} {checkedAt recordedAt : ℤ} {p : Presented} {record : ApiKey}
    {secret body : Bytes} (hp : present checkedAt req.headers = .ok p)
    (hkey : openKey gw keys p.providedKey = .ok (record, secret))
    (hbody : acceptBody gw req = .ok body) (r : InboundRequest) (hid : r.keyId = record.id)
    (hsecret : r.secret = secret) (hmethod : r.method = req.method)
    (htarget : r.target = req.target) (hr : r.timestampHeader = req.headers.get "x-timestamp")
    (hrbody : r.body = body) (hsig : r.signatureHeader = p.providedSignature) :
    (authMiddleware gw keys g req checkedAt recordedAt).2 =
        (authenticate gw.mac g r checkedAt recordedAt).2 ∧
      ∀ e, (authenticate gw.mac g r checkedAt recordedAt).1 = .error e →
        (authMiddleware gw keys g req checkedAt recordedAt).1 = .error e := by
  have hpresent := hp
  simp only [present] at hpresent
  split at hpresent
  · cases hpresent
  rename_i timestamp htimestamp
  split at hpresent
  · cases hpresent
  split at hpresent
  · cases hpresent
  split at hpresent
  · rename_i hform
    obtain rfl := Except.ok.inj hpresent
    simp only [authMiddleware, hp, hkey, hbody, authenticate, hr, htimestamp, hsig, hform, hid,
      hsecret, hmethod, htarget, hrbody, if_true]
    cases verifySignature gw.mac secret req.method req.target timestamp body _ with
    | none =>
        refine ⟨rfl, ?_⟩
        intro e he
        rw [← Except.error.inj he]
    | some digest =>
        simp only
        cases (g.checkAndRecord recordedAt record.id digest).1 with
        | false =>
            refine ⟨rfl, ?_⟩
            intro e he
            rw [← Except.error.inj he]
            rfl
        | true =>
            refine ⟨?_, nofun⟩
            cases checkBinding gw record.boundIps _ with
            | error e => rfl
            | ok u => rfl
  · cases hpresent

/-! ### What an unsigned request learns -/

/-- The status code of a refusal; an authenticated request goes on to its handler. -/
def refusalStatus (answer : Except AppError Authenticated) : Option ℕ :=
  match answer with
  | .error e => some e.status
  | .ok _ => none

/-- The signature is valid for the key the request names. -/
def SignatureValid (gw : Gateway) (keys : Table ApiKey.id) (req : HttpRequest) (checkedAt : ℤ) :
    Prop :=
  ∃ p record secret body, present checkedAt req.headers = .ok p ∧
    openKey gw keys p.providedKey = .ok (record, secret) ∧ req.body = some body ∧
    (verifySignature gw.mac secret req.method req.target p.timestamp body
      p.providedSignature).isSome

/-- The key the request names has a secret, and it opens. -/
def SecretOpens (gw : Gateway) (keys : Table ApiKey.id) (p : Presented) : Prop :=
  (openKey gw keys p.providedKey).isOk

/-- The key the request names has a secret, and it does not open. -/
def SecretBroken (gw : Gateway) (keys : Table ApiKey.id) (p : Presented) : Prop :=
  openKey gw keys p.providedKey = .error .internal

/-- A size of the body, declared or real, is over the limit. -/
def Oversized (gw : Gateway) (req : HttpRequest) : Prop := acceptBody gw req = .error tooLarge

theorem status_of_validateTimestamp {now : ℤ} {header : Option Bytes} {e : AppError}
    (h : validateTimestamp now header = .error e) : e.status = 401 := by
  rw [validateTimestamp] at h
  split at h
  · rw [← Except.error.inj h]; rfl
  · split at h
    · rw [← Except.error.inj h]; rfl
    · split at h
      · cases h
      · rw [← Except.error.inj h]; rfl

/-- Every exit before the key lookup is `401`. -/
theorem status_of_present {checkedAt : ℤ} {headers : HeaderMap} {e : AppError}
    (h : present checkedAt headers = .error e) : e.status = 401 := by
  rw [present] at h
  split at h
  · rename_i htimestamp
    rw [← Except.error.inj h]
    exact status_of_validateTimestamp htimestamp
  · split at h
    · rw [← Except.error.inj h]; rfl
    · split at h
      · rw [← Except.error.inj h]; rfl
      · split at h
        · cases h
        · rw [← Except.error.inj h]; rfl

theorem acceptBody_cases (gw : Gateway) (req : HttpRequest) :
    Oversized gw req ∨ ∃ body, req.body = some body ∧ acceptBody gw req = .ok body := by
  simp only [Oversized, acceptBody]
  split
  · exact Or.inl rfl
  · cases hbody : readBody gw req.body with
    | none => exact Or.inl rfl
    | some bytes =>
        exact Or.inr ⟨bytes, (Option.filter_eq_some_iff.mp hbody).1, rfl⟩

theorem openKey_cases (gw : Gateway) (keys : Table ApiKey.id) (providedKey : Bytes) :
    (∃ msg, openKey gw keys providedKey = .error (.unauthorized msg)) ∨
      openKey gw keys providedKey = .error .internal ∨
      ∃ out, openKey gw keys providedKey = .ok out := by
  simp only [openKey]
  split
  · exact Or.inl ⟨_, rfl⟩
  · split
    · exact Or.inl ⟨_, rfl⟩
    · split
      · exact Or.inr (Or.inl rfl)
      · exact Or.inr (Or.inr ⟨_, rfl⟩)

/-- **What an unsigned request sees,** computed from the lookup of its key and the size of its
body. -/
theorem unsigned_status {gw : Gateway} {keys : Table ApiKey.id} {req : HttpRequest}
    {checkedAt : ℤ} (h : ¬SignatureValid gw keys req checkedAt) (g : ReplayGuard)
    (recordedAt : ℤ) :
    (∀ e, present checkedAt req.headers = .error e →
      refusalStatus (authMiddleware gw keys g req checkedAt recordedAt).1 = some 401) ∧
    ∀ p, present checkedAt req.headers = .ok p →
      (SecretBroken gw keys p →
        refusalStatus (authMiddleware gw keys g req checkedAt recordedAt).1 = some 500) ∧
      (SecretOpens gw keys p → Oversized gw req →
        refusalStatus (authMiddleware gw keys g req checkedAt recordedAt).1 = some 413) ∧
      (¬SecretBroken gw keys p → ¬(SecretOpens gw keys p ∧ Oversized gw req) →
        refusalStatus (authMiddleware gw keys g req checkedAt recordedAt).1 = some 401) := by
  refine ⟨?_, ?_⟩
  · intro e he
    simp only [authMiddleware, he, refusalStatus, status_of_present he]
  · intro p hp
    rcases openKey_cases gw keys p.providedKey with ⟨msg, hkey⟩ | hkey | ⟨⟨record, secret⟩, hkey⟩
    · -- an unknown key, or one without a secret
      refine ⟨?_, ?_, ?_⟩
      · intro hbroken
        rw [SecretBroken, hkey] at hbroken
        cases hbroken
      · intro hopens
        rw [SecretOpens, hkey] at hopens
        cases hopens
      · intro _ _
        simp only [authMiddleware, hp, hkey, refusalStatus, AppError.status]
    · refine ⟨?_, ?_, ?_⟩
      · intro _
        simp only [authMiddleware, hp, hkey, refusalStatus, AppError.status]
      · intro hopens
        rw [SecretOpens, hkey] at hopens
        cases hopens
      · intro hbroken
        exact absurd hkey hbroken
    · -- the secret opens: the size of the body decides, then the signature
      have hopens : SecretOpens gw keys p := by
        rw [SecretOpens, hkey]
        rfl
      refine ⟨?_, ?_, ?_⟩
      · intro hbroken
        rw [SecretBroken, hkey] at hbroken
        cases hbroken
      · intro _ hsize
        rw [Oversized] at hsize
        simp only [authMiddleware, hp, hkey, hsize, refusalStatus, tooLarge, AppError.status]
      · intro _ hnot
        rcases acceptBody_cases gw req with hsize | ⟨body, hbody, haccept⟩
        · exact absurd ⟨hopens, hsize⟩ hnot
        · have hverify : verifySignature gw.mac secret req.method req.target p.timestamp body
              p.providedSignature = none := by
            rw [← Option.not_isSome_iff_eq_none]
            intro hvalid
            exact h ⟨p, record, secret, body, hp, hkey, hbody, hvalid⟩
          simp only [authMiddleware, hp, hkey, haccept, hverify, refusalStatus, AppError.status]

/-- A header that presents a key puts a table in one of three classes: 500, 413 or 401. -/
theorem unsigned_status_cases {gw : Gateway} {keys : Table ApiKey.id} {req : HttpRequest}
    {checkedAt : ℤ} (h : ¬SignatureValid gw keys req checkedAt) (g : ReplayGuard)
    (recordedAt : ℤ) {p : Presented} (hp : present checkedAt req.headers = .ok p) :
    (SecretBroken gw keys p ∧ ¬SecretOpens gw keys p ∧
        refusalStatus (authMiddleware gw keys g req checkedAt recordedAt).1 = some 500) ∨
      (¬SecretBroken gw keys p ∧ SecretOpens gw keys p ∧ Oversized gw req ∧
        refusalStatus (authMiddleware gw keys g req checkedAt recordedAt).1 = some 413) ∨
      (¬SecretBroken gw keys p ∧ ¬(SecretOpens gw keys p ∧ Oversized gw req) ∧
        refusalStatus (authMiddleware gw keys g req checkedAt recordedAt).1 = some 401) := by
  obtain ⟨hbroken, hsize, hplain⟩ := (unsigned_status h g recordedAt).2 p hp
  by_cases hb : SecretBroken gw keys p
  · have hcloses : ¬SecretOpens gw keys p := by
      intro hopens
      rw [SecretOpens, show openKey gw keys p.providedKey = _ from hb] at hopens
      cases hopens
    exact Or.inl ⟨hb, hcloses, hbroken hb⟩
  · by_cases hlarge : SecretOpens gw keys p ∧ Oversized gw req
    · exact Or.inr (Or.inl ⟨hb, hlarge.1, hlarge.2, hsize hlarge.1 hlarge.2⟩)
    · exact Or.inr (Or.inr ⟨hb, hlarge, hplain hb hlarge⟩)

/-- **Does the status betray the key?**  Two contents of the key table under which the signature is
not valid get the same status exactly when the request fails before the lookup, or its key's secret
breaks in both or neither and, for an oversized body, opens in both or neither. -/
theorem unsigned_status_eq_iff {gw : Gateway} {keys keys' : Table ApiKey.id} {req : HttpRequest}
    {checkedAt : ℤ} (h : ¬SignatureValid gw keys req checkedAt)
    (h' : ¬SignatureValid gw keys' req checkedAt) (g : ReplayGuard) (recordedAt : ℤ) :
    refusalStatus (authMiddleware gw keys g req checkedAt recordedAt).1 =
        refusalStatus (authMiddleware gw keys' g req checkedAt recordedAt).1 ↔
      ∀ p, present checkedAt req.headers = .ok p →
        (SecretBroken gw keys p ↔ SecretBroken gw keys' p) ∧
          (Oversized gw req → (SecretOpens gw keys p ↔ SecretOpens gw keys' p)) := by
  cases hp : present checkedAt req.headers with
  | error e =>
      rw [(unsigned_status h g recordedAt).1 e hp, (unsigned_status h' g recordedAt).1 e hp]
      exact ⟨fun _ => nofun, fun _ => rfl⟩
  | ok p =>
      have hsingle : (∀ q, Except.ok p = Except.ok (ε := AppError) q →
          (SecretBroken gw keys q ↔ SecretBroken gw keys' q) ∧
            (Oversized gw req → (SecretOpens gw keys q ↔ SecretOpens gw keys' q))) ↔
          (SecretBroken gw keys p ↔ SecretBroken gw keys' p) ∧
            (Oversized gw req → (SecretOpens gw keys p ↔ SecretOpens gw keys' p)) := by
        constructor
        · intro hall
          exact hall p rfl
        · intro hboth q hq
          rwa [← Except.ok.inj hq]
      rw [hsingle]
      rcases unsigned_status_cases h g recordedAt hp with ⟨hb, hcloses, hstatus⟩ |
        ⟨hb, hopens, hover, hstatus⟩ | ⟨hb, hsmall, hstatus⟩
      · rw [hstatus]
        rcases unsigned_status_cases h' g recordedAt hp with ⟨hb', hcloses', hstatus'⟩ |
          ⟨hb', -, -, hstatus'⟩ | ⟨hb', -, hstatus'⟩
        · simp [hstatus', hb, hb', hcloses, hcloses']
        · simp [hstatus', hb, hb']
        · simp [hstatus', hb, hb']
      · rw [hstatus]
        rcases unsigned_status_cases h' g recordedAt hp with ⟨hb', -, hstatus'⟩ |
          ⟨hb', hopens', -, hstatus'⟩ | ⟨hb', hsmall', hstatus'⟩
        · simp [hstatus', hb, hb']
        · simp [hstatus', hb, hb', hopens, hopens']
        · have hcloses' : ¬SecretOpens gw keys' p := fun hopens' => hsmall' ⟨hopens', hover⟩
          simp [hstatus', hopens, hcloses', hover]
      · rw [hstatus]
        rcases unsigned_status_cases h' g recordedAt hp with ⟨hb', -, hstatus'⟩ |
          ⟨hb', hopens', hover, hstatus'⟩ | ⟨hb', hsmall', hstatus'⟩
        · simp [hstatus', hb, hb']
        · have hcloses : ¬SecretOpens gw keys p := fun hopens => hsmall ⟨hopens, hover⟩
          simp [hstatus', hcloses, hopens', hover]
        · have hsame : Oversized gw req → (SecretOpens gw keys p ↔ SecretOpens gw keys' p) := by
            intro hover
            exact iff_of_false (fun hopens => hsmall ⟨hopens, hover⟩)
              (fun hopens' => hsmall' ⟨hopens', hover⟩)
          simpa [hstatus', hb, hb'] using hsame

/-! ### A probe for a key -/

/-- A gateway without encryption at rest, with a body limit of 1 MiB and transparent hashes. -/
def plainGateway : Gateway where
  trusted := []
  maxBodyBytes := 1048576
  cipher := .plaintext
  sha256 := id
  mac := fun secret message => secret ++ message
  parseNetwork := fun _ => none

/-- A key stored under its name, with the envelope of its secret. -/
def storedKey (stored : Option Bytes) : ApiKey :=
  { Master.plainKey 1 false with keyHash := hexEncode (ascii "k"), signingSecret := stored }

/-- The table with that key only. -/
def oneKey (stored : Option Bytes) : Table ApiKey.id where
  rows := [storedKey stored]
  nodup := List.nodup_singleton _

/-- A probe that guesses the key `k` and declares `declared` bytes. -/
def probe (declared : String) : HttpRequest where
  peer := .v4 0xC6336407
  headers :=
    [("x-timestamp", ascii "0"), ("x-api-key", ascii "k"), ("x-signature-256", ascii "sha256=00"),
      ("content-length", ascii declared)]
  method := ascii "GET"
  target := ascii "/api/keys"
  body := some []

/-- What a probe presents. -/
def probed : Presented := ⟨ascii "0", ascii "k", ascii "sha256=00"⟩

/-- No table makes the probe's signature valid: its digest is one byte. -/
theorem probe_unsigned {declared : String} (hp : present 0 (probe declared).headers = .ok probed)
    (keys : Table ApiKey.id) : ¬SignatureValid plainGateway keys (probe declared) 0 := by
  intro ⟨p, record, secret, body, hp', _, _, hverify⟩
  obtain rfl := Except.ok.inj (hp.symm.trans hp')
  obtain ⟨digest, hdigest⟩ := Option.isSome_iff_exists.mp hverify
  have hmac := digest_of_verifySignature _ hdigest
  have hlong : 2 ≤ digest.length := by
    rw [hmac]
    show 2 ≤ (secret ++ canonicalV1Payload _ _ _ body).length
    simp only [canonicalV1Payload, List.length_append, List.length_cons]
    omega
  have hshort : digest = [0] := by
    have hform : signaturePrefix.isPrefixOf (trim probed.providedSignature) = true := by decide
    have hdecode :
        hexDecode (trim ((trim probed.providedSignature).drop signaturePrefix.length)) = some [0] := by
      decide +kernel
    simp only [verifySignature, hform, hdecode, if_true] at hdigest
    split at hdigest
    · exact (Option.some.inj hdigest).symm
    · cases hdigest
  rw [hshort] at hlong
  exact absurd hlong (by decide)

/-- The condition met: a small body, and a key without a secret against one whose secret opens. -/
theorem small_probe_learns_nothing :
    refusalStatus (authMiddleware plainGateway (oneKey none) (.new 300 0) (probe "0") 0 0).1 =
      refusalStatus (authMiddleware plainGateway (oneKey (some (ascii "v1.plain.73")))
        (.new 300 0) (probe "0") 0 0).1 := by
  have hp : present 0 (probe "0").headers = .ok probed := by decide +kernel
  refine (unsigned_status_eq_iff (probe_unsigned hp _) (probe_unsigned hp _) _ 0).mpr ?_
  intro p hp'
  obtain rfl := Except.ok.inj (hp.symm.trans hp')
  refine ⟨?_, ?_⟩
  · have hnone : ¬SecretBroken plainGateway (oneKey none) probed := by
      rw [SecretBroken]
      decide +kernel
    have hopens : ¬SecretBroken plainGateway (oneKey (some (ascii "v1.plain.73"))) probed := by
      rw [SecretBroken]
      decide +kernel
    exact ⟨fun h => absurd h hnone, fun h => absurd h hopens⟩
  · have hsmall : ¬Oversized plainGateway (probe "0") := by
      rw [Oversized]
      decide +kernel
    exact fun h => absurd h hsmall

/-- **An existing key shows.**  The same unsigned probe with a large declared length is answered `401`
when its key is unknown and `413` when it exists; one whose secret does not open answers `500`. -/
theorem large_probe_betrays_key :
    (∀ keys, ¬SignatureValid plainGateway keys (probe "99999999") 0) ∧
      refusalStatus (authMiddleware plainGateway .empty (.new 300 0) (probe "99999999") 0 0).1 =
        some 401 ∧
      refusalStatus (authMiddleware plainGateway (oneKey (some (ascii "v1.plain.73")))
        (.new 300 0) (probe "99999999") 0 0).1 = some 413 ∧
      refusalStatus (authMiddleware plainGateway (oneKey (some (ascii "v2.other")))
        (.new 300 0) (probe "99999999") 0 0).1 = some 500 :=
  ⟨probe_unsigned (by decide +kernel), by decide +kernel, by decide +kernel, by decide +kernel⟩

end SimplyIpSync.Auth
