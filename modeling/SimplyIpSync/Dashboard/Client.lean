import SimplyIpSync.Dashboard.Hash
import SimplyIpSync.Protocol.Run

/-!
# The dashboard as a holder (`SyncClient.request` in `static/app.js`)

The dashboard signs each request with the second of the browser's clock, with `crypto.subtle` where
the browser offers it and with its own hash elsewhere.  What the browser offers is a parameter; when
it answers, it answers with HMAC-SHA-256.

The server verifies what was signed: `dashboard_served` follows a request of the dashboard through
any run of the server, whatever else arrives there.
-/

namespace SimplyIpSync.Dashboard

open SimplyIpSync.Crypto SimplyIpSync.Entities SimplyIpSync.Storage SimplyIpSync.Middleware
open SimplyIpSync.Config SimplyIpSync.Auth SimplyIpSync.SignatureBinding SimplyIpSync.Protocol
open SimplyIpSync.Api SimplyIpSync.Client SimplyIpSync.Reach SimplyIpSync.Trace
open SimplyIpSync.Sha256

/-! ### Signing -/

/-- `b.toString(16).padStart(2, "0")`. -/
def byteHex (b : UInt8) : Bytes :=
  if b < 16 then [48, hexDigit b] else [hexDigit (b / 16), hexDigit (b % 16)]

/-- `bytesToHex`. -/
def bytesToHex (bytes : Bytes) : Bytes := bytes.flatMap byteHex

theorem bytesToHex_eq (bytes : Bytes) : bytesToHex bytes = hexEncode bytes := by
  have hall : ∀ n : Fin 256, byteHex (UInt8.ofFin n) =
      [hexDigit (UInt8.ofFin n / 16), hexDigit (UInt8.ofFin n % 16)] := by decide +kernel
  exact congrArg (bytes.flatMap ·) (funext fun b => hall b.toFin)

/-- `crypto.subtle`: it may be missing or fail. -/
abbrev Subtle := Bytes → Bytes → Option Bytes

/-- What the browser offers is HMAC-SHA-256. -/
def Subtle.Standard (subtle : Subtle) : Prop :=
  ∀ key message digest, subtle key message = some digest → digest = hmac key message

/-- `hmacSha256Hex`. -/
def hmacSha256Hex (subtle : Subtle) (secret message : Bytes) : Bytes :=
  match subtle secret message with
  | some sig => bytesToHex sig
  | none => bytesToHex (hmacSha256Fallback secret message)

theorem hmacSha256Hex_eq {subtle : Subtle} (hsubtle : subtle.Standard) {secret message : Bytes}
    (hsecret : secret.length + 72 < 2 ^ 31) (hmessage : message.length + 136 < 2 ^ 31) :
    hmacSha256Hex subtle secret message = hexEncode (hmac secret message) := by
  rw [hmacSha256Hex]
  split
  · rename_i sig hsig
    rw [bytesToHex_eq, hsubtle _ _ _ hsig]
  · rw [bytesToHex_eq, hmacSha256Fallback_eq hsecret hmessage]

/-- `SyncClient`: the key, the secret, and what stands before a path when it is signed. -/
structure SyncClient where
  apiKey : Bytes
  signingSecret : Bytes
  signingBase : Bytes
  base_line : newline ∉ signingBase

/-- What `request` is called with, and the clock of the browser in milliseconds.  Methods and paths
are one line. -/
structure Call where
  method : Bytes
  path : Bytes
  body : Bytes
  now : ℤ
  method_line : newline ∉ method
  path_line : newline ∉ path

/-- The headers of a request, and its body. -/
structure Sent where
  apiKey : Bytes
  timestamp : Bytes
  signature : Bytes
  body : Bytes
  deriving DecidableEq, Repr

/-- `SyncClient.request` up to `fetch`. -/
def SyncClient.request (subtle : Subtle) (client : SyncClient) (call : Call) : Sent :=
  let timestamp := timestampText (call.now / 1000)
  let message := call.method ++ newline :: (client.signingBase ++ call.path ++ newline ::
    (timestamp ++ [newline]))
  let full := concatBytes message call.body
  { apiKey := client.apiKey
    timestamp := timestamp
    signature := signaturePrefix ++ hmacSha256Hex subtle client.signingSecret full
    body := call.body }

/-! ### At the server -/

/-- The request comes to the server as it was sent: the mount prefix is the one that was signed, and
a declared length is the length of the body. -/
structure Sent.Arrives (sent : Sent) (method target : Bytes) (req : HttpRequest) : Prop where
  method_eq : req.method = method
  target_eq : req.target = target
  body_eq : req.body = some sent.body
  timestamp : req.headers.get "x-timestamp" = some sent.timestamp
  apiKey : req.headers.getStr "x-api-key" = some sent.apiKey
  signature : req.headers.getStr "x-signature-256" = some sent.signature
  contentLength : ∀ declared,
    (req.headers.getStr "content-length").bind parseUsize = some declared → declared = sent.body.length

theorem isVisible_of_mem_timestampText {sec : ℤ} {b : UInt8} (h : b ∈ timestampText sec) :
    isVisible b = true ∧ isBlank b = false := by
  have hall : ∀ n : Fin 256, (UInt8.ofFin n = 45 ∨ isDigit (UInt8.ofFin n) = true) →
      isVisible (UInt8.ofFin n) = true ∧ isBlank (UInt8.ofFin n) = false := by decide +kernel
  refine hall b.toFin ?_
  rw [timestampText] at h
  split at h
  · rcases List.mem_cons.mp h with rfl | h
    · exact Or.inl rfl
    · exact Or.inr (isDigit_of_mem_decimalDigits h)
  · exact Or.inr (isDigit_of_mem_decimalDigits h)

/-- What the dashboard signs for a request. -/
def SyncClient.components (client : SyncClient) (call : Call) : Components where
  secret := client.signingSecret
  method := call.method
  target := client.signingBase ++ call.path
  timestamp := timestampText (call.now / 1000)
  body := call.body
  method_line := call.method_line
  target_line := by
    rw [List.mem_append]
    exact not_or.mpr ⟨client.base_line, call.path_line⟩
  timestamp_line := newline_notMem_timestampText _

/-- The secret and the message are short enough for a typed array to be padded. -/
def ShortEnough (c : Components) : Prop :=
  c.secret.length + 72 < 2 ^ 31 ∧
    (canonicalV1Payload c.method c.target c.timestamp c.body).length + 136 < 2 ^ 31

section Request

variable {subtle : Subtle} {client : SyncClient} {call : Call} {gw : Gateway} {d : Delivery}
  {record : ApiKey}

/-- The signature is the one the server computes. -/
theorem SyncClient.request_signature (hsubtle : subtle.Standard)
    (hshort : ShortEnough (client.components call)) :
    (client.request subtle call).signature = (client.components call).signature hmac := by
  have hmessage : concatBytes (call.method ++ newline :: (client.signingBase ++ call.path ++
      newline :: (timestampText (call.now / 1000) ++ [newline]))) call.body =
      canonicalV1Payload call.method (client.signingBase ++ call.path)
        (timestampText (call.now / 1000)) call.body := by
    rw [concatBytes_eq, canonicalV1Payload]
    simp only [List.append_assoc, List.cons_append, List.nil_append]
  show signaturePrefix ++ hmacSha256Hex subtle client.signingSecret _ = _
  rw [hmessage]
  exact congrArg (signaturePrefix ++ ·) (hmacSha256Hex_eq hsubtle hshort.1 hshort.2)

/-- The headers of the dashboard are presented as they are. -/
theorem SyncClient.request_present {headers : HeaderMap} {checkedAt : ℤ}
    (htimestamp : headers.get "x-timestamp" = some (client.request subtle call).timestamp)
    (hkey : headers.getStr "x-api-key" = some client.apiKey)
    (hsignature : headers.getStr "x-signature-256" = some (client.request subtle call).signature)
    (hform : signaturePrefix.isPrefixOf (trim (client.request subtle call).signature) = true)
    (hnow : IsDateTimeSec (call.now / 1000)) (hchecked : IsDateTimeSec (timestamp checkedAt))
    (hnear : |timestamp checkedAt - call.now / 1000| ≤ 300) :
    present checkedAt headers =
      .ok ⟨timestampText (call.now / 1000), client.apiKey,
        (client.request subtle call).signature⟩ := by
  have hvalid : validateTimestamp checkedAt (headers.get "x-timestamp") =
      .ok (timestampText (call.now / 1000)) := by
    refine validateTimestamp_eq_ok.mpr ⟨call.now / 1000, ⟨_, htimestamp, ?_, ?_, ?_⟩, ?_⟩
    · exact List.all_eq_true.mpr fun b hb => (isVisible_of_mem_timestampText hb).1
    · rw [trim_eq]
      exact (Trim.trimBy_of_none fun b hb => (isVisible_of_mem_timestampText hb).2).symm
    · exact parseI64_timestampText hnow
    · exact (inWindow_iff hchecked hnow).mpr hnear
  rw [present, hvalid]
  simp only [hkey, hsignature]
  rw [if_pos hform]

/-- A body within the limit is accepted. -/
theorem acceptBody_of_le {req : HttpRequest} {body : Bytes} (hbody : req.body = some body)
    (hle : body.length ≤ gw.maxBodyBytes)
    (hdeclared : ∀ declared, (req.headers.getStr "content-length").bind parseUsize = some declared →
      declared = body.length) : acceptBody gw req = .ok body := by
  have hsmall : declaresTooMuch gw req.headers = false := by
    rw [declaresTooMuch]
    cases hlength : (req.headers.getStr "content-length").bind parseUsize with
    | none => rfl
    | some declared =>
        have hsame := hdeclared declared hlength
        exact decide_eq_false (by omega)
  have hread : readBody gw req.body = some body := by
    rw [readBody, hbody, Option.filter_some, if_pos (decide_eq_true hle)]
  rw [acceptBody, hsmall, if_neg Bool.false_ne_true, hread]

/-- **The server reads what the dashboard signed,** when its clock is near the browser's. -/
theorem SyncClient.request_signs (hgw : gw.mac = hmac) (hsubtle : subtle.Standard)
    (hshort : ShortEnough (client.components call))
    (harrives : (client.request subtle call).Arrives call.method
      (client.signingBase ++ call.path) d.request)
    (hopens : openKey gw d.keys client.apiKey = .ok (record, client.signingSecret))
    (hbody : call.body.length ≤ gw.maxBodyBytes) (hnow : IsDateTimeSec (call.now / 1000))
    (hchecked : IsDateTimeSec (timestamp d.checkedAt))
    (hnear : |timestamp d.checkedAt - call.now / 1000| ≤ 300) :
    d.Signs gw record (client.components call) := by
  have hverify : (client.components call).verify gw.mac (client.request subtle call).signature =
      some ((client.components call).digest gw.mac) := by
    rw [SyncClient.request_signature hsubtle hshort, hgw]
    exact (Components.verify_iff hmac _).mpr ⟨rfl, .refl _⟩
  have hform : signaturePrefix.isPrefixOf (trim (client.request subtle call).signature) = true := by
    by_contra hnot
    rw [Components.verify, verifySignature, if_neg hnot] at hverify
    cases hverify
  exact ⟨_, SyncClient.request_present harrives.timestamp harrives.apiKey harrives.signature hform
      hnow hchecked hnear, hopens,
    acceptBody_of_le harrives.body_eq hbody harrives.contentLength, harrives.method_eq,
    harrives.target_eq, rfl, hverify⟩

/-- **A request of the dashboard is served.**  In any run, whatever else arrives: when the request
comes as it was sent, for a key with this secret, and the two clocks are within 300 seconds, only
the IP binding of the key is left to refuse it, unless the process has let the same signature of
that key pass less than 300 seconds before. -/
theorem dashboard_served (hgw : gw.mac = hmac) (hsubtle : subtle.Standard)
    (hshort : ShortEnough (client.components call)) {w : World}
    (hrun : Reaches (World.step gw) anyStep .empty w) {x : Exchange} {past : List Exchange}
    (hx : x :: past <:+ w.log)
    (harrives : (client.request subtle call).Arrives call.method
      (client.signingBase ++ call.path) x.delivery.request)
    (hopens : openKey gw x.delivery.keys client.apiKey = .ok (record, client.signingSecret))
    (hbody : call.body.length ≤ gw.maxBodyBytes) (hnow : IsDateTimeSec (call.now / 1000))
    (hnear : |timestamp x.delivery.checkedAt - call.now / 1000| ≤ 300) :
    (x.answer = .error alreadyUsed ↔
        Recalls gw x.delivery.process past x.delivery.recordedAt
          ⟨record.id, (client.components call).digest gw.mac⟩) ∧
      (x.answer ≠ .error alreadyUsed → x.answer = x.delivery.bound gw record) := by
  have hsound := World.sound hrun
  have hregular := hsound.regular x (hx.subset List.mem_cons_self)
  have hsigns : x.delivery.Signs gw record (client.components call) :=
    SyncClient.request_signs hgw hsubtle hshort harrives hopens hbody hnow hregular.dateTime hnear
  have hjudged := hsound.judged.of_suffix hx record _ hsigns
  exact ⟨hjudged, hregular.passed record _ hsigns⟩

end Request

/-! ### A first request -/

/-- A browser without `crypto.subtle`. -/
def plainHttp : Subtle := fun _ _ => none

theorem plainHttp_standard : plainHttp.Standard := by
  intro key message digest h
  cases h

/-- The dashboard of the holder of the key `k`, served at the root. -/
def rootClient : SyncClient where
  apiKey := ascii "k"
  signingSecret := ascii "s"
  signingBase := []
  base_line := List.not_mem_nil

/-- The keys are listed. -/
def listKeys : Call where
  method := ascii "GET"
  path := ascii "/api/keys"
  body := []
  now := 1000500
  method_line := newline_notMem_get
  path_line := newline_notMem_keysPath

/-- The gateway of the server. -/
def hmacGateway : Gateway := { plainGateway with mac := hmac }

/-- The request as it comes to the server. -/
def listKeysRequest : HttpRequest where
  peer := .v4 0xC6336407
  headers :=
    [("x-timestamp", (rootClient.request plainHttp listKeys).timestamp),
      ("x-api-key", ascii "k"),
      ("x-signature-256", (rootClient.request plainHttp listKeys).signature)]
  method := ascii "GET"
  target := ascii "/api/keys"
  body := some []

theorem all_isVisible_signature (c : Components) (mac : Bytes → Bytes → Bytes) :
    (c.signature mac).all isVisible = true := by
  have hall : ∀ n : Fin 256, isVisible (hexDigit (UInt8.ofFin n / 16)) = true ∧
      isVisible (hexDigit (UInt8.ofFin n % 16)) = true := by decide +kernel
  have hprefix : ∀ b ∈ signaturePrefix, isVisible b = true := by decide +kernel
  refine List.all_eq_true.mpr fun b hb => ?_
  rcases List.mem_append.mp hb with hb | hb
  · exact hprefix b hb
  · obtain ⟨x, -, hx⟩ := List.mem_flatMap.mp hb
    obtain ⟨hhigh, hlow⟩ := hall x.toFin
    simp only [List.mem_cons, List.not_mem_nil, or_false] at hx
    rcases hx with rfl | rfl
    · exact hhigh
    · exact hlow

theorem shortEnough_listKeys : ShortEnough (rootClient.components listKeys) := by
  constructor
  · decide
  · decide +kernel

/-- The request comes as it was sent. -/
theorem listKeys_arrives : (rootClient.request plainHttp listKeys).Arrives listKeys.method
    (rootClient.signingBase ++ listKeys.path) listKeysRequest where
  method_eq := rfl
  target_eq := rfl
  body_eq := rfl
  timestamp := rfl
  apiKey := by
    show (some (ascii "k")).filter (fun value => value.all isVisible) = some (ascii "k")
    decide
  signature := by
    show (some (rootClient.request plainHttp listKeys).signature).filter
      (fun value => value.all isVisible) = _
    rw [Option.filter_some, if_pos]
    rw [SyncClient.request_signature plainHttp_standard shortEnough_listKeys]
    exact all_isVisible_signature _ _
  contentLength := by
    intro declared h
    cases h

/-- The first request of the dashboard over plain HTTP is admitted. -/
theorem dashboard_served_first :
    ∃ w, Reaches (World.step hmacGateway) anyStep .empty w ∧
      ∃ x ∈ w.log, x.delivery.request = listKeysRequest ∧ x.answer.isOk = true := by
  let d : Delivery :=
    { process := 0
      keys := oneKey (some (ascii "v1.plain.73"))
      request := listKeysRequest
      checkedAt := 1000000000000
      recordedAt := 1000000000000 }
  let x : Exchange := ⟨d, (d.judge hmacGateway (Process.start 0).guard).1⟩
  let w : World :=
    { issued := []
      processes := [⟨(d.judge hmacGateway (Process.start 0).guard).2, 1000000000000⟩]
      log := [x] }
  have hrun : Reaches (World.step hmacGateway) anyStep .empty w := by
    have hstart : World.step hmacGateway .empty (.start 0) = some ⟨[], [.start 0], []⟩ := rfl
    have htakes : Process.Takes (.start 0) d := by
      refine ⟨⟨?_, ?_⟩, ?_, le_rfl, ?_⟩ <;> decide
    have hdeliver : World.step hmacGateway ⟨[], [.start 0], []⟩ (.deliver d) = some w := by
      show (if Process.Takes (.start 0) d then some w else none) = some w
      rw [if_pos htakes]
    exact (Reaches.refl.tail (e := .start 0) trivial hstart).tail trivial hdeliver
  have hopens : openKey hmacGateway d.keys rootClient.apiKey =
      .ok (storedKey (some (ascii "v1.plain.73")), rootClient.signingSecret) := by
    decide +kernel
  obtain ⟨hused, hbound⟩ := dashboard_served (x := x) rfl plainHttp_standard shortEnough_listKeys
    hrun (List.suffix_refl _) listKeys_arrives hopens (by decide) (by decide) (by decide)
  have hfresh : x.answer ≠ .error alreadyUsed := by
    intro h
    obtain ⟨y, hy, -⟩ := hused.mp h
    cases hy
  refine ⟨w, hrun, x, List.mem_singleton_self _, rfl, ?_⟩
  rw [hbound hfresh]
  decide +kernel

end SimplyIpSync.Dashboard
