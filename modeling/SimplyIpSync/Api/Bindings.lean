import SimplyIpSync.Api.Lifecycle
import SimplyIpSync.Net.Network

/-!
# What can be stored as an IP binding

`create_api_key` and `update_api_key` store any text as `bound_ips`, and the middleware reads it on
every request: an item that is no network is an internal error, for every address.  A run in which
only readable texts are written never meets it.
-/

namespace SimplyIpSync.Api

open SimplyIpSync.Crypto SimplyIpSync.Entities SimplyIpSync.Storage SimplyIpSync.Reach
open SimplyIpSync.Bogon SimplyIpSync.Net SimplyIpSync.Text SimplyIpSync.Replay SimplyIpSync.Auth
open SimplyIpSync.Config

/-! ### Reading a binding -/

/-- Every item between two commas is blank or a network. -/
def Evaluable (gw : Gateway) (text : String) : Prop :=
  ∀ item ∈ text.toList.splitOn ',', trimText item = [] ∨ (gw.parseNetwork (trimText item)).isSome

/-- The stored binding can be evaluated; no binding can. -/
def BindingEvaluable (gw : Gateway) (boundIps : Option String) : Prop :=
  ∀ text ∈ boundIps, Evaluable gw text

theorem isSome_mapM {α β : Type} (f : α → Option β) (l : List α) :
    (l.mapM f).isSome ↔ ∀ a ∈ l, (f a).isSome := by
  induction l with
  | nil => simp
  | cons a l ih =>
      rw [List.mapM_cons, List.forall_mem_cons, ← ih]
      cases f a with
      | none => simp
      | some b => cases l.mapM f <;> simp

/-- **When the reader of the middleware succeeds.** -/
theorem boundNetworks_ok_iff (gw : Gateway) (boundIps : Option String) :
    (∃ networks, boundNetworks gw boundIps = .ok networks) ↔ BindingEvaluable gw boundIps := by
  have hitems : ∀ text : String, Evaluable gw text ↔
      ∀ item ∈ ((text.toList.splitOn ',').map trimText).filter fun item => item ≠ [],
        (gw.parseNetwork item).isSome := by
    intro text
    simp only [Evaluable, List.mem_filter, List.mem_map, and_imp, forall_exists_index,
      forall_apply_eq_imp_iff₂, decide_eq_true_eq, or_iff_not_imp_left]
  have hstored : BindingEvaluable gw boundIps ↔ Evaluable gw (boundIps.getD "") := by
    cases boundIps with
    | some text => simp [BindingEvaluable]
    | none => simp [BindingEvaluable, Evaluable, trimText]
  rw [hstored, hitems, ← isSome_mapM, boundNetworks]
  cases List.mapM gw.parseNetwork
      ((((boundIps.getD "").toList.splitOn ',').map trimText).filter fun item => item ≠ []) with
  | none => simp
  | some networks => simp

/-! ### Answering a request -/

/-- The request gets as far as the IP binding of the key `record`: its timestamp is in the window,
its key is known and its secret opens, its body is accepted, its signature is valid and unused. -/
def Arrives (gw : Gateway) (keys : Table ApiKey.id) (g : ReplayGuard) (req : HttpRequest)
    (checkedAt recordedAt : ℤ) (record : ApiKey) : Prop :=
  ∃ p secret body digest, present checkedAt req.headers = .ok p ∧
    openKey gw keys p.providedKey = .ok (record, secret) ∧ acceptBody gw req = .ok body ∧
    verifySignature gw.mac secret req.method req.target p.timestamp body p.providedSignature =
      some digest ∧
    (g.checkAndRecord recordedAt record.id digest).1 = true

/-- The request is accepted, or refused because of its address. -/
def Decided (answer : Except AppError Authenticated) : Prop :=
  (∃ a, answer = .ok a) ∨ answer = .error (.forbidden "Client IP not allowed")

section Answer

variable {gw : Gateway} {keys : Table ApiKey.id} {g : ReplayGuard} {req : HttpRequest}
  {checkedAt recordedAt : ℤ} {record : ApiKey}

theorem answer_of_arrives (h : Arrives gw keys g req checkedAt recordedAt record) :
    (authMiddleware gw keys g req checkedAt recordedAt).1 =
      match checkBinding gw record.boundIps (resolveClientIp req.peer req.headers gw.trusted) with
      | .error e => .error e
      | .ok () => .ok ⟨Master.authenticate keys record,
          resolveClientIp req.peer req.headers gw.trusted⟩ := by
  obtain ⟨p, secret, body, digest, hp, hkey, hbody, hverify, hunused⟩ := h
  simp only [authMiddleware, hp, hkey, hbody, hverify, hunused, if_true]
  cases checkBinding gw record.boundIps _ with
  | error e => rfl
  | ok u => rfl

/-- **One request.**  A request that arrives is decided exactly where the binding of its key can be
evaluated. -/
theorem decided_iff (h : Arrives gw keys g req checkedAt recordedAt record) :
    Decided (authMiddleware gw keys g req checkedAt recordedAt).1 ↔
      BindingEvaluable gw record.boundIps := by
  rw [answer_of_arrives h, ← boundNetworks_ok_iff, checkBinding]
  have herror : ∀ e, boundNetworks gw record.boundIps = .error e → e = .internal := by
    intro e he
    rw [boundNetworks] at he
    split at he
    · cases he
    · exact (Except.error.inj he).symm
  cases hread : boundNetworks gw record.boundIps with
  | error e =>
      rw [herror e hread]
      simp [Decided]
  | ok networks =>
      refine iff_of_true ?_ ⟨networks, rfl⟩
      simp only
      split
      · rename_i hforbidden
        split at hforbidden
        · exact .inr (by rw [← Except.error.inj hforbidden])
        · cases hforbidden
      · exact .inl ⟨_, rfl⟩

/-- The key of a request that arrives is stored. -/
theorem mem_of_arrives (h : Arrives gw keys g req checkedAt recordedAt record) :
    record ∈ keys.rows := by
  obtain ⟨p, secret, body, digest, -, hkey, -⟩ := h
  rw [openKey] at hkey
  split at hkey
  · cases hkey
  · rename_i found hfound
    split at hkey
    · cases hkey
    · split at hkey
      · cases hkey
      · obtain ⟨rfl, -⟩ := Prod.mk.inj (Except.ok.inj hkey)
        exact List.mem_of_find?_eq_some hfound

end Answer

/-! ### Writing a binding -/

/-- The `bound_ips` that a request carries. -/
def Request.boundIps : Request → Option String
  | .createApiKey payload => payload.boundIps
  | .updateApiKey _ payload => payload.boundIps
  | _ => none

/-- Every stored binding can be evaluated. -/
def BindingsEvaluable (gw : Gateway) (db : Database) : Prop :=
  ∀ key ∈ db.apiKeys.rows, BindingEvaluable gw key.boundIps

/-- The call is refused, or the binding it carries can be evaluated. -/
def WritesEvaluable (gw : Gateway) (db : Database) (call : Call) : Prop :=
  ∀ caller, db.callerOf call.callerId = some caller →
    Accepts call.fuel call.env caller db call.request →
      BindingEvaluable gw call.request.boundIps

section Step

variable {fuel : ℕ} {env : Env} {caller : ApiKey} {db db₁ s : Database} {request : Request}

/-- A binding is written as the request carries it, or stays. -/
theorem Change.boundIps (h : Change fuel env caller db request db₁) {key : ApiKey}
    (hkey : key ∈ db₁.apiKeys.rows) :
    key.boundIps = request.boundIps ∨ ∃ old ∈ db.apiKeys.rows, key.boundIps = old.boundIps := by
  have hframe := h.frame
  cases h with
  | createApiKey _ _ _ hwrite =>
      obtain ⟨rows, hinsert, rfl⟩ := insertApiKey_ok hwrite
      rcases (Table.mem_insert? hinsert).mp hkey with hold | rfl
      · exact .inr ⟨key, hold, rfl⟩
      · exact .inl rfl
  | @updateApiKey id payload _ _ _ _ _ _ _ _ hwrite =>
      obtain ⟨_, -, -, rfl⟩ := updateApiKey_ok hwrite
      obtain ⟨old, hold, rfl⟩ := List.mem_map.mp hkey
      split
      · cases hbound : payload.boundIps with
        | some text => exact .inl (by simp [UpdateApiKeyPayload.apply, Request.boundIps, hbound])
        | none => exact .inr ⟨old, hold, by simp [UpdateApiKeyPayload.apply, hbound]⟩
      · exact .inr ⟨old, hold, rfl⟩
  | deleteApiKey => exact .inr ⟨key, (Table.mem_deleteWhere.mp hkey).1, rfl⟩
  | rotateApiKey _ hwrite =>
      obtain ⟨_, -, -, rfl⟩ := updateApiKey_ok hwrite
      obtain ⟨old, hold, rfl⟩ := List.mem_map.mp hkey
      exact .inr ⟨old, hold, by split <;> rfl⟩
  | rotateSigningSecret _ _ hwrite =>
      obtain ⟨_, -, -, rfl⟩ := updateApiKey_ok hwrite
      obtain ⟨old, hold, rfl⟩ := List.mem_map.mp hkey
      exact .inr ⟨old, hold, by split <;> rfl⟩
  | _ => exact .inr ⟨key, (hframe.apiKeys (by simp [Request.writes])) ▸ hkey, rfl⟩

/-- **One call.** -/
theorem bindings_of_serve {gw : Gateway} {call : Call} (hdb : BindingsEvaluable gw db)
    (hgood : WritesEvaluable gw db call) (h : serve db call = some s) : BindingsEvaluable gw s := by
  obtain ⟨caller, hcaller, hleaves⟩ := leaves_of_serve h
  rcases hleaves.apiKeys with hkept | ⟨db₁, hchange, hkeys⟩
  · rw [BindingsEvaluable, hkept]
    exact hdb
  · intro key hkey
    rw [hkeys] at hkey
    rcases hchange.boundIps hkey with hwritten | ⟨old, hold, hsame⟩
    · rw [hwritten]
      exact hgood caller hcaller ⟨db₁, hchange⟩
    · rw [hsame]
      exact hdb old hold

end Step

/-- The binding of the Master at its creation. -/
theorem bindings_bootstrapped {gw : Gateway} (hparse : gw.parseNetwork = parseIpNetwork) (env : Env)
    (plaintextKey envelope : String) :
    BindingsEvaluable gw (env.bootstrapped plaintextKey envelope) := by
  intro key hkey text htext
  obtain rfl := List.mem_singleton.mp hkey
  obtain rfl := Option.some.inj htext
  rw [Evaluable, hparse]
  decide +kernel

/-- **Which runs never lock a key out.**  In every run from the first start in which every accepted
request that carries a binding carries one that can be evaluated, and for every request from any
address that is signed, fresh and unused: it is accepted or refused because of its address. -/
theorem bindings_decide {gw : Gateway} (hparse : gw.parseNetwork = parseIpNetwork) {env : Env}
    {plaintextKey envelope : String} {db : Database}
    (h : Reaches serve (WritesEvaluable gw) (env.bootstrapped plaintextKey envelope) db)
    {g : ReplayGuard} {req : HttpRequest} {checkedAt recordedAt : ℤ} {record : ApiKey}
    (harrives : Arrives gw db.apiKeys g req checkedAt recordedAt record) :
    Decided (authMiddleware gw db.apiKeys g req checkedAt recordedAt).1 := by
  have hdb : BindingsEvaluable gw db :=
    h.invariant (bindings_bootstrapped hparse env plaintextKey envelope)
      fun _ _ _ hs hgood hserve => bindings_of_serve hs hgood hserve
  exact (decided_iff harrives).mpr (hdb record (mem_of_arrives harrives))

/-- A gateway that reads networks as `ipnetwork` does. -/
def readingGateway : Gateway := { plainGateway with parseNetwork := parseIpNetwork }

/-- A database whose Master presents the key `k` and signs with the secret `s`. -/
def Database.withSecret : Database := (Env.plain 1).bootstrapped "k" "v1.plain.73"

/-- What the request is signed with. -/
def signedDigest : Bytes :=
  readingGateway.mac (ascii "s")
    (canonicalV1Payload (ascii "GET") (ascii "/api/keys") (ascii "0") [])

/-- A request that the Master signs at time zero. -/
def signedRequest : HttpRequest where
  peer := .v4 0x0A000001
  headers :=
    [("x-timestamp", ascii "0"), ("x-api-key", ascii "k"),
      ("x-signature-256", signaturePrefix ++ hexEncode signedDigest)]
  method := ascii "GET"
  target := ascii "/api/keys"
  body := some []

/-- The Master binds itself to the text. -/
def bindingCall (text : String) : Call :=
  .plain 1 2 (.updateApiKey 1 ⟨none, none, none, none, some text⟩)

/-- The row of the Master with this binding. -/
def boundMaster (text : String) : ApiKey :=
  { (Env.plain 1).masterKey "k" "v1.plain.73" with boundIps := some text }

/-- The Master's signed request arrives, whatever the Master is bound to. -/
theorem signedRequest_arrives {text : String} {db : Database}
    (hrows : db.apiKeys.rows = [boundMaster text]) :
    Arrives readingGateway db.apiKeys (.new 300 0) signedRequest 0 0 (boundMaster text) := by
  have hhash : (boundMaster text).keyHash = hashKey readingGateway.sha256 (ascii "k") := rfl
  have hid : (boundMaster text).id = 1 := rfl
  have hfind : findKey readingGateway db.apiKeys (ascii "k") = some (boundMaster text) := by
    rw [findKey, hrows, List.find?_singleton, if_pos (decide_eq_true hhash)]
  have hsecret : (boundMaster text).signingSecret = some (ascii "v1.plain.73") := rfl
  have hopen : readingGateway.cipher.openSecret (ascii "v1.plain.73") = .ok (ascii "s") := by
    decide +kernel
  refine ⟨⟨ascii "0", ascii "k", signaturePrefix ++ hexEncode signedDigest⟩, ascii "s", [],
    signedDigest, by decide +kernel, ?_, by decide +kernel, by decide +kernel, ?_⟩
  · simp only [openKey, hfind, hsecret, hopen]
  · rw [hid]
    decide +kernel

/-- A Master bound to two networks signs a request. -/
theorem bindings_decide_master :
    ∃ db, serve .withSecret (bindingCall "10.0.0.0/8, ::1") = some db ∧
      Decided (authMiddleware readingGateway db.apiKeys (.new 300 0) signedRequest 0 0).1 := by
  have hserve : (serve .withSecret (bindingCall "10.0.0.0/8, ::1")).map
      (fun db => db.apiKeys.rows) = some [boundMaster "10.0.0.0/8, ::1"] := by decide +kernel
  obtain ⟨db, hdb, hrows⟩ := Option.map_eq_some_iff.mp hserve
  have hgood : WritesEvaluable readingGateway .withSecret (bindingCall "10.0.0.0/8, ::1") := by
    intro caller _ _ text htext
    obtain rfl := Option.some.inj htext
    rw [Evaluable]
    decide +kernel
  exact ⟨db, hdb, bindings_decide rfl (Reaches.refl.tail hgood hdb) (signedRequest_arrives hrows)⟩

/-- The Master stores the name of a host as its binding, and its next signed request is answered
with an internal error. -/
theorem binding_locks_out :
    ∃ db, runEvents serve anyStep .withSecret [bindingCall "localhost"] = some db ∧
      Arrives readingGateway db.apiKeys (.new 300 0) signedRequest 0 0 (boundMaster "localhost") ∧
      (authMiddleware readingGateway db.apiKeys (.new 300 0) signedRequest 0 0).1 =
        .error .internal := by
  have hrun : (runEvents serve anyStep .withSecret [bindingCall "localhost"]).map
      (fun db => db.apiKeys.rows) = some [boundMaster "localhost"] := by decide +kernel
  obtain ⟨db, hdb, hrows⟩ := Option.map_eq_some_iff.mp hrun
  have harrives := signedRequest_arrives hrows
  refine ⟨db, hdb, harrives, ?_⟩
  have hread : boundNetworks readingGateway (boundMaster "localhost").boundIps =
      .error .internal := by decide +kernel
  rw [answer_of_arrives harrives, checkBinding, hread]

end SimplyIpSync.Api
