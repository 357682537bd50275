import SimplyIpSync.Client.Signing
import SimplyIpSync.Lib.Url
import SimplyIpSync.SecretCipher
import SimplyIpSync.Text

/-!
# The signed target and the URL of a request (`join_endpoint` in `client.rs`)

A request is signed for the path of the API and its query; it is sent to a URL that is put together
from the text of the configured one.  A proxy in front of the vault takes off the path of the
configured URL, and the vault sees the rest.

The text of the path goes behind the whole text of the configured URL.  Where that ends in a query
or a fragment, the path becomes a part of it, and the request goes to the configured path itself:
`signed_target_arrives_iff`.
-/

namespace SimplyIpSync.Client

open SimplyIpSync.Entities SimplyIpSync.Crypto SimplyIpSync.Text SimplyIpSync.Web

/-! ### Requests -/

/-- What libraries do for a request. -/
structure Crates where
  url : Parser
  /-- `form_urlencoded::byte_serialize`. -/
  byteSerialize : List Char → List Char
  /-- `serde_json::to_vec` of the payload. -/
  payload : String → BatchMode → List BatchRecordInput → Option Bytes

/-- A request as it is handed to the HTTP client, and the target it is signed for. -/
structure SignedRequest where
  method : String
  url : Url
  target : List Char
  apiKey : String
  timestamp : Bytes
  signature : Bytes
  body : Bytes
  deriving DecidableEq

/-- `RECORDS_BATCH_PATH`. -/
def recordsBatchPath : List Char := "/api/records/batch".toList

/-- `IPS_PATH`. -/
def ipsPath : List Char := "/api/ips".toList

variable (mac : Bytes → Bytes → Bytes) (crates : Crates) (cipher : SecretCipher)
  (endpoint : VaultEndpoint) (now : ℤ)

/-- `Url::parse`, of a configured URL or of one put together. -/
def parseUrl (text : List Char) : Except ClientError Url :=
  match crates.url.parse text with
  | .error e => .error (.invalidUrl e)
  | .ok url => .ok url

/-- `join_endpoint`. -/
def joinEndpoint (base : Url) (path : List Char) : Except ClientError Url :=
  parseUrl crates (trimEndSlashes base.text ++ path)

/-- `signed_headers`, with what it signs put into the request. -/
def signed (method : String) (url : Url) (target : List Char) (body : Bytes) :
    Except ClientError SignedRequest :=
  match cipher.openSecret (utf8 endpoint.signingSecret.toList) with
  | .error _ => .error .decrypt
  | .ok secret =>
      let timestamp := timestampText (timestamp now)
      .ok
        { method := method
          url := url
          target := target
          apiKey := endpoint.apiKey
          timestamp := timestamp
          signature := computeSignature mac secret (ascii method) (utf8 target) timestamp body
          body := body }

/-- The request of `post_batch_once`. -/
def batchRequest (groupName : String) (records : List BatchRecordInput) (mode : BatchMode) :
    Except ClientError SignedRequest :=
  match parseUrl crates endpoint.targetUrl.toList with
  | .error e => .error e
  | .ok base =>
      match joinEndpoint crates base recordsBatchPath with
      | .error e => .error e
      | .ok url =>
          match crates.payload groupName mode records with
          | none => .error .signing
          | some body => signed mac cipher endpoint now "POST" url recordsBatchPath body

/-- `append_pair`. -/
def appendPair (query : List Char) (pair : List Char × List Char) : List Char :=
  (if query = [] then [] else query ++ ['&']) ++
    (crates.byteSerialize pair.1 ++ '=' :: crates.byteSerialize pair.2)

/-- The pairs of a page; `since` in whole seconds. -/
def pagePairs (groupName : String) (since : Option ℤ) (includeDeleted : Bool) (offset : ℕ) :
    List (List Char × List Char) :=
  [("group_name".toList, groupName.toList),
    ("include_deleted".toList, (if includeDeleted then "true" else "false").toList),
    ("limit".toList, (toString deltaPageSize).toList),
    ("offset".toList, (toString offset).toList)] ++
  (since.map fun t => ("since".toList, (toString (timestamp t)).toList)).toList

/-- The request of `get_ips_page`, with the parse of the configured URL in `get_ips_delta`. -/
def pageRequest (groupName : String) (since : Option ℤ) (includeDeleted : Bool) (offset : ℕ) :
    Except ClientError SignedRequest :=
  match parseUrl crates endpoint.targetUrl.toList with
  | .error e => .error e
  | .ok base =>
      match joinEndpoint crates base ipsPath with
      | .error e => .error e
      | .ok url =>
          let query := (pagePairs groupName since includeDeleted offset).foldl (appendPair crates)
            (url.query.getD [])
          signed mac cipher endpoint now "GET" { url with query := some query }
            (ipsPath ++ '?' :: query) []

/-- The request for a call. -/
def requestFor : OutboundRequest → Except ClientError SignedRequest
  | .batch groupName records mode =>
      batchRequest mac crates cipher endpoint now groupName records mode
  | .page groupName since includeDeleted offset =>
      pageRequest mac crates cipher endpoint now groupName since includeDeleted offset

/-! ### What the vault receives -/

/-- What the proxy hands on: the target behind the path of the configured URL. -/
def proxied (base url : Url) : Option (List Char) :=
  let basePath := trimEndSlashes base.path
  if basePath.isPrefixOf url.requestTarget then some (url.requestTarget.drop basePath.length)
  else none

/-- The vault receives the signed target, and recomputes the signature of the request. -/
def Arrives (base : Url) (request : SignedRequest) : Prop :=
  ∃ received, proxied base request.url = some received ∧ received = request.target ∧
    ∃ secret, cipher.openSecret (utf8 endpoint.signingSecret.toList) = .ok secret ∧
      computeSignature mac secret (ascii request.method) (utf8 received) request.timestamp
        request.body = request.signature

variable {mac crates cipher endpoint now}

theorem isPlainPath_recordsBatchPath : IsPlainPath recordsBatchPath :=
  ⟨["api".toList, "records".toList, "batch".toList], by decide, by decide, by decide⟩

theorem isPlainPath_ipsPath : IsPlainPath ipsPath :=
  ⟨["api".toList, "ips".toList], by decide, by decide, by decide⟩

/-- How a request comes about: `path` is put behind the configured URL, which gives `url`, and the
query of `url` is replaced by `query`. -/
structure Built (mac : Bytes → Bytes → Bytes) (crates : Crates) (cipher : SecretCipher)
    (endpoint : VaultEndpoint) (base : Url) (request : SignedRequest) (path : List Char) (url : Url)
    (query : Option (List Char)) : Prop where
  plain : IsPlainPath path
  joins : crates.url.parse (trimEndSlashes base.text ++ path) = .ok url
  url_eq : request.url = { url with query := query }
  target : ∃ tail, request.target = '/' :: 'a' :: tail
  target_eq : url.query = none → request.target = path ++ Url.introduced '?' query
  signature : ∃ secret, cipher.openSecret (utf8 endpoint.signingSecret.toList) = .ok secret ∧
    computeSignature mac secret (ascii request.method) (utf8 request.target) request.timestamp
      request.body = request.signature

theorem parseUrl_ok {text : List Char} {url : Url} :
    parseUrl crates text = .ok url ↔ crates.url.parse text = .ok url := by
  rw [parseUrl]
  cases crates.url.parse text with
  | error e => simp
  | ok url' => simp

/-- A request carries what it was asked to carry, under the signature of its target. -/
theorem signed_ok {method : String} {url : Url} {target : List Char} {body : Bytes}
    {request : SignedRequest}
    (h : signed mac cipher endpoint now method url target body = .ok request) :
    request.url = url ∧ request.target = target ∧
      ∃ secret, cipher.openSecret (utf8 endpoint.signingSecret.toList) = .ok secret ∧
        computeSignature mac secret (ascii request.method) (utf8 request.target) request.timestamp
          request.body = request.signature := by
  rw [signed] at h
  cases hsecret : cipher.openSecret (utf8 endpoint.signingSecret.toList) with
  | error e =>
      rw [hsecret] at h
      cases h
  | ok secret =>
      rw [hsecret] at h
      cases h
      exact ⟨rfl, rfl, secret, rfl, rfl⟩

/-- **Both requests are built alike.** -/
theorem built_of_requestFor {base : Url} {r : OutboundRequest} {request : SignedRequest}
    (hbase : crates.url.parse endpoint.targetUrl.toList = .ok base)
    (h : requestFor mac crates cipher endpoint now r = .ok request) :
    ∃ path url query, Built mac crates cipher endpoint base request path url query := by
  cases r with
  | batch groupName records mode =>
      rw [requestFor, batchRequest, parseUrl_ok.mpr hbase] at h
      simp only at h
      cases hurl : joinEndpoint crates base recordsBatchPath with
      | error e => rw [hurl] at h; cases h
      | ok url =>
          rw [hurl] at h
          simp only at h
          cases hbody : crates.payload groupName mode records with
          | none => rw [hbody] at h; cases h
          | some body =>
              rw [hbody] at h
              obtain ⟨hurl', htarget, hsignature⟩ := signed_ok h
              refine ⟨recordsBatchPath, url, url.query, isPlainPath_recordsBatchPath,
                parseUrl_ok.mp hurl, hurl', ⟨_, htarget⟩, fun hquery => ?_, hsignature⟩
              rw [htarget, hquery, Url.introduced, List.append_nil]
  | page groupName since includeDeleted offset =>
      rw [requestFor, pageRequest, parseUrl_ok.mpr hbase] at h
      simp only at h
      cases hurl : joinEndpoint crates base ipsPath with
      | error e => rw [hurl] at h; cases h
      | ok url =>
          rw [hurl] at h
          obtain ⟨hurl', htarget, hsignature⟩ := signed_ok h
          exact ⟨ipsPath, url, some _, isPlainPath_ipsPath, parseUrl_ok.mp hurl, hurl',
            ⟨_, htarget⟩, fun _ => htarget, hsignature⟩

/-- A path that is all the proxy takes off, and no path of the API behind it. -/
theorem slashes_ne (n : ℕ) (query : Option (List Char)) (tail : List Char) :
    List.replicate n '/' ++ Url.introduced '?' query ≠ '/' :: 'a' :: tail := by
  match n with
  | 0 => cases query <;> simp [Url.introduced]
  | 1 => cases query <;> simp [Url.introduced]
  | n + 2 => simp [List.replicate_succ]

/-- What the proxy leaves of a target that begins with the path of the configured URL. -/
theorem proxied_eq {base url : Url} {rest : List Char}
    (h : url.requestTarget = trimEndSlashes base.path ++ rest) : proxied base url = some rest := by
  rw [proxied]
  simp only [h, List.isPrefixOf_iff_prefix, List.prefix_append, if_true, List.drop_left]

/-- **The vault receives the signed target of a request that is sent exactly if the configured URL
has no query and no fragment.** -/
theorem signed_target_arrives_iff (mac : Bytes → Bytes → Bytes) (crates : Crates)
    (hcrates : crates.url.Standard) (cipher : SecretCipher) (endpoint : VaultEndpoint) (base : Url)
    (hbase : crates.url.parse endpoint.targetUrl.toList = .ok base) (r : OutboundRequest) (now : ℤ)
    (request : SignedRequest) (hrequest : requestFor mac crates cipher endpoint now r = .ok request)
    (hhttp : request.url.isHttp = true) :
    Arrives mac cipher endpoint base request ↔ base.query = none ∧ base.fragment = none := by
  obtain ⟨path, url, query, hbuilt⟩ := built_of_requestFor hbase hrequest
  have hscheme : request.url.isHttp = url.isHttp := by rw [hbuilt.url_eq]; rfl
  have hhttpBase : base.isHttp = true := by
    rw [← hcrates.isHttp_of_parse hbase hbuilt.joins, ← hscheme, hhttp]
  have hjoined : url = joined base path :=
    hcrates.parse_joined hbase hhttpBase hbuilt.plain hbuilt.joins
  have hsent : request.url.requestTarget = url.path ++ Url.introduced '?' query := by
    rw [hbuilt.url_eq]
    rfl
  by_cases hclean : base.query = none ∧ base.fragment = none
  · refine iff_of_true ?_ hclean
    rw [joined_bare path hclean.1 hclean.2] at hjoined
    have hpath : url.path = trimEndSlashes base.path ++ path := by rw [hjoined]
    have hquery : url.query = none := by rw [hjoined, hclean.1]
    refine ⟨request.target, ?_, rfl, hbuilt.signature⟩
    rw [hbuilt.target_eq hquery]
    exact proxied_eq (by rw [hsent, hpath, List.append_assoc])
  · refine iff_of_false ?_ hclean
    -- The path went into the query or the fragment, so the configured one stands alone.
    have hpath : url.path = base.path := by rw [hjoined, joined_path path hclean]
    obtain ⟨n, htrimmed⟩ := exists_trimmed base.path
    have hproxied : proxied base request.url =
        some (List.replicate n '/' ++ Url.introduced '?' query) := by
      refine proxied_eq ?_
      rw [hsent, hpath, ← List.append_assoc, ← htrimmed]
    rintro ⟨received, hreceived, htarget, -⟩
    rw [hproxied] at hreceived
    obtain ⟨tail, htail⟩ := hbuilt.target
    rw [← Option.some.inj hreceived, htail] at htarget
    exact slashes_ne n query tail htarget

/-- Libraries that know URLs in normal form, names of letters and empty batches. -/
def plainCrates : Crates where
  url := normalParser
  byteSerialize text := text
  payload groupName _ _ := some (ascii groupName)

/-- A vault at this address, with the secret `k`. -/
def vaultAt (targetUrl : String) : VaultEndpoint := ⟨1, "edge", targetUrl, "key", "v1.plain.6b"⟩

/-- The first page of a group. -/
def firstPage : OutboundRequest := .page "blocklist" none true 0

/-- The request for it, sent to this path and signed for this target. -/
def firstPageSent (path query target : String) : SignedRequest where
  method := "GET"
  url := ⟨"https".toList, "//edge".toList, path.toList, some query.toList, none⟩
  target := target.toList
  apiKey := "key"
  timestamp := ascii "0"
  signature :=
    computeSignature (· ++ ·) (ascii "k") (ascii "GET") (utf8 target.toList) (ascii "0") []
  body := []

/-- A vault behind a path of its proxy. -/
theorem signed_target_arrives_iff_subpath :
    Arrives (· ++ ·) .plaintext (vaultAt "https://edge/direct/vault//")
      ⟨"https".toList, "//edge".toList, "/direct/vault//".toList, none, none⟩
      (firstPageSent "/direct/vault/api/ips"
        "group_name=blocklist&include_deleted=true&limit=5000&offset=0"
        "/api/ips?group_name=blocklist&include_deleted=true&limit=5000&offset=0") :=
  (signed_target_arrives_iff (· ++ ·) plainCrates normalParser_standard .plaintext
    (vaultAt "https://edge/direct/vault//")
    ⟨"https".toList, "//edge".toList, "/direct/vault//".toList, none, none⟩ (by decide +kernel)
    firstPage 0 _ (by decide +kernel) rfl).mpr ⟨rfl, rfl⟩

/-- A configured URL with a query. -/
def euVault : Url :=
  ⟨"https".toList, "//edge".toList, "/vault".toList, some "region=eu".toList, none⟩

/-- What is sent to it. -/
def strayPage : SignedRequest :=
  firstPageSent "/vault"
    "region=eu/api/ips&group_name=blocklist&include_deleted=true&limit=5000&offset=0"
    "/api/ips?region=eu/api/ips&group_name=blocklist&include_deleted=true&limit=5000&offset=0"

/-- A configured query takes in the path of the API: the page is asked for at the configured path,
under a signature for another one. -/
theorem query_misses_target :
    plainCrates.url.parse (vaultAt "https://edge/vault?region=eu").targetUrl.toList = .ok euVault ∧
    requestFor (· ++ ·) plainCrates .plaintext (vaultAt "https://edge/vault?region=eu") 0
      firstPage = .ok strayPage ∧
    strayPage.url.isHttp = true ∧
    ¬ Arrives (· ++ ·) .plaintext (vaultAt "https://edge/vault?region=eu") euVault strayPage := by
  refine ⟨by decide +kernel, by decide +kernel, rfl, ?_⟩
  rintro ⟨received, hreceived, htarget, -⟩
  rw [htarget] at hreceived
  exact absurd hreceived (by decide +kernel)

end SimplyIpSync.Client
