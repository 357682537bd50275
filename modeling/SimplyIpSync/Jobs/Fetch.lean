import SimplyIpSync.Jobs.Decompress
import SimplyIpSync.Parsers.JsonFeed
import SimplyIpSync.Parsers.Recognition
import SimplyIpSync.Retry

/-!
# Fetching a feed (`fetch_and_parse` in `src/jobs/external_ingestion.rs`)

The host of a feed is asked again while its answers are transient and retries are left.  The body of
the answer is read under a limit, expanded under the same limit if it is an archive, and given to
the parser that the feed names.

The hosts are outside the program and answer as they like; so are the readers of archives and of
JSON texts.  What a feed then says is a matter of its body alone: `Names` lists the networks that a
body of some format names, and `mem_fetchAndParse` that these are the records of the feed.
-/

namespace SimplyIpSync.Jobs.Fetch

open SimplyIpSync.Crypto SimplyIpSync.Text SimplyIpSync.Net SimplyIpSync.Bogon SimplyIpSync.Retry
open SimplyIpSync.Regex SimplyIpSync.Parsers SimplyIpSync.Parsers.JsonPath
open SimplyIpSync.Jobs.Decompress SimplyIpSync.Jobs.ExternalIngestion SimplyIpSync.Entities

/-! ### The request -/

/-- `FetchOptions`. -/
structure FetchOptions where
  userAgent : Option String
  headers : List (String × String)
  deriving DecidableEq, Repr

/-- `FetchOptions::default`. -/
def FetchOptions.default : FetchOptions := ⟨none, []⟩

/-- The fields whose values are texts. -/
def textFields (fields : List (String × Value)) : List (String × String) :=
  fields.filterMap fun field => field.2.asStr.map fun text => (field.1, text)

/-- `FetchOptions::from_config`: a configuration that is no object sets nothing. -/
def FetchOptions.fromConfig (fromStr : String → Except String Value) (config : Option String) :
    FetchOptions :=
  match config with
  | none => .default
  | some config =>
      match fromStr config with
      | .ok (.object map) =>
          { userAgent := (get map "user_agent").bind Value.asStr
            headers := (((get map "headers").bind Value.asObject).map textFields).getD [] }
      | _ => .default

/-- A `GET` request, with its headers in the order in which they are set. -/
structure Request where
  url : String
  headers : List (String × String)
  deriving DecidableEq, Repr

/-- `build_request`. -/
def buildRequest (options : FetchOptions) (sourceUrl : String) : Request where
  url := sourceUrl
  headers := (options.userAgent.map fun agent => ("user-agent", agent)).toList ++ options.headers

/-! ### The fetch -/

/-- What `send` comes to: an error, or a response whose body comes in chunks.  `shown` is the status
as it is printed; a chunk is an error where the body breaks off. -/
inductive Reply
  | failed (e : String)
  | response (status : ℕ) (shown : String) (chunks : List (Except String Bytes))

/-- `StatusCode::is_success`. -/
def isSuccess (status : ℕ) : Bool := 200 ≤ status && status < 300

/-- The retry loop of `fetch_and_parse`, with `attempt` retries made; `answer n` is the reply to the
request after `n` retries. -/
def fetchLoop (answer : ℕ → Reply) (maxRetries attempt : ℕ) :
    Except String (List (Except String Bytes)) :=
  match answer attempt with
  | .response status shown chunks =>
      if isSuccess status then .ok chunks
      else if isTransientStatus status ∧ attempt < maxRetries then
        fetchLoop answer maxRetries (attempt + 1)
      else .error ("fetch returned status " ++ shown)
  | .failed e => .error ("fetch failed: " ++ e)
termination_by maxRetries - attempt

/-- `read_capped_body`, with `buf` read so far. -/
def readCappedBody (maxBytes : UInt64) :
    List (Except String Bytes) → Bytes → Except DecompressError Bytes
  | [], buf => .ok buf
  | .error e :: _, _ => .error (.readMember e)
  | .ok chunk :: chunks, buf =>
      if maxBytes.toNat < (buf ++ chunk).length then .error (.tooLarge maxBytes)
      else readCappedBody maxBytes chunks (buf ++ chunk)

/-- `for_type`. -/
def forType (readers : Readers) (parserType : String) :
    Except ParseError (Bytes → Option String → Except ParseError (List ParsedRecord)) :=
  if parserType = "REGEX_LINE" then .ok RegexLine.parse
  else if parserType = "JSON_PATH" then .ok (JsonPath.parse readers)
  else .error (.invalidConfig ("unknown parser_type '" ++ parserType ++ "'"))

/-- What a fetch uses besides its feed: the readers of JSON and of archives, `outbound_max_retries`
and `max_decompressed_bytes`. -/
structure Env where
  readers : Readers
  zip : ZipArchive
  maxRetries : ℕ
  maxDecompressedBytes : UInt64

/-- The host of a feed, on a request that is sent again and again. -/
abbrev Host := Request → ℕ → Reply

variable (env : Env) (host : Host)

/-- `fetch_and_parse` up to the body that is parsed. -/
def fetchBody (sourceUrl : String) (config : Option String) : Except String Bytes :=
  let options := FetchOptions.fromConfig env.readers.fromStr config
  match fetchLoop (host (buildRequest options sourceUrl)) env.maxRetries 0 with
  | .error e => .error e
  | .ok chunks =>
      match readCappedBody env.maxDecompressedBytes chunks [] with
      | .error e => .error ("failed to read response body: " ++ e.display)
      | .ok body =>
          match decompressIfZip env.zip body env.maxDecompressedBytes with
          | .error e => .error e.display
          | .ok body => .ok body

/-- `fetch_and_parse`. -/
def fetchAndParse (sourceUrl parserType : String) (config : Option String) :
    Except String (List ParsedRecord) :=
  match fetchBody env host sourceUrl config with
  | .error e => .error e
  | .ok body =>
      match forType env.readers parserType with
      | .error e => .error e.text
      | .ok parse =>
          match parse body config with
          | .error e => .error e.text
          | .ok records => .ok records

/-- How the task of a feed fares: it panics, or it has this host. -/
inductive Fate
  | panicked (joinErr : String)
  | hosted (host : Host)

/-- The end of the task that is spawned for a feed. -/
def fetchOutcome (fates : ExternalSource → Fate) (feed : ExternalSource) : FetchOutcome :=
  match fates feed with
  | .panicked joinErr => .panicked joinErr
  | .hosted host =>
      .finished (fetchAndParse env host feed.sourceUrl feed.parserType feed.parserConfigJson)

/-! ### The body -/

variable {env : Env} {host : Host}

/-- The replies up to the `n`-th retry are transient, and the last one is a success. -/
structure Succeeds (answer : ℕ → Reply) (attempt n : ℕ) (chunks : List (Except String Bytes)) :
    Prop where
  transient : ∀ i, attempt ≤ i → i < n →
    ∃ status shown body, answer i = .response status shown body ∧ isTransientStatus status = true
  success : ∃ status shown, answer n = .response status shown chunks ∧ isSuccess status = true

theorem isSuccess_of_isTransientStatus {status : ℕ} (h : isTransientStatus status = true) :
    isSuccess status = false := by
  simp only [isTransientStatus, Bool.or_eq_true, beq_iff_eq] at h
  rcases h with ((rfl | rfl) | rfl) | rfl
  · rfl
  · rfl
  · rfl
  · rfl

/-- **The loop** gives the first reply that is not transient, if it is a success and the retries
reach it. -/
theorem fetchLoop_eq_ok_iff {answer : ℕ → Reply} {maxRetries attempt : ℕ}
    {chunks : List (Except String Bytes)} :
    fetchLoop answer maxRetries attempt = .ok chunks ↔
      ∃ n, attempt ≤ n ∧ (n = attempt ∨ n ≤ maxRetries) ∧ Succeeds answer attempt n chunks := by
  fun_induction fetchLoop answer maxRetries attempt with
  | case1 attempt status shown body hanswer hsuccess =>
      constructor
      · intro h
        obtain rfl := Except.ok.inj h
        exact ⟨attempt, le_rfl, .inl rfl, fun i hi hlt => absurd hlt (Nat.not_lt.mpr hi),
          status, shown, hanswer, hsuccess⟩
      · rintro ⟨n, hn, -, htransient, status', shown', hlast, -⟩
        rcases Nat.eq_or_lt_of_le hn with rfl | hlt
        · rw [hanswer] at hlast
          obtain ⟨-, -, rfl⟩ := Reply.response.inj hlast
          rfl
        · obtain ⟨status'', shown'', body'', hfirst, hagain⟩ := htransient attempt le_rfl hlt
          rw [hanswer] at hfirst
          obtain ⟨rfl, -, -⟩ := Reply.response.inj hfirst
          rw [isSuccess_of_isTransientStatus hagain] at hsuccess
          cases hsuccess
  | case2 attempt status shown body hanswer hno hagain ih =>
      rw [ih]
      constructor
      · rintro ⟨n, hn, hreach, htransient, hlast⟩
        refine ⟨n, by omega, .inr (by omega), fun i hi hlt => ?_, hlast⟩
        rcases Nat.eq_or_lt_of_le hi with rfl | hi
        · exact ⟨status, shown, body, hanswer, hagain.1⟩
        · exact htransient i hi hlt
      · rintro ⟨n, hn, hreach, htransient, status', shown', hlast, hsuccess⟩
        have hlt : attempt < n := by
          refine lt_of_le_of_ne hn ?_
          rintro rfl
          rw [hanswer] at hlast
          obtain ⟨rfl, -, -⟩ := Reply.response.inj hlast
          exact hno hsuccess
        exact ⟨n, hlt, .inr (by omega),
          fun i hi hin => htransient i (Nat.le_of_succ_le hi) hin, status', shown', hlast, hsuccess⟩
  | case3 attempt status shown body hanswer hno hstop =>
      simp only [reduceCtorEq, false_iff, not_exists, not_and]
      rintro n hn hreach ⟨htransient, status', shown', hlast, hsuccess⟩
      rcases Nat.eq_or_lt_of_le hn with rfl | hlt
      · rw [hanswer] at hlast
        obtain ⟨rfl, -, -⟩ := Reply.response.inj hlast
        exact hno hsuccess
      · obtain ⟨status'', shown'', body'', hfirst, hagain⟩ := htransient attempt le_rfl hlt
        rw [hanswer] at hfirst
        obtain ⟨rfl, -, -⟩ := Reply.response.inj hfirst
        exact hstop ⟨hagain, by omega⟩
  | case4 attempt e hanswer =>
      simp only [reduceCtorEq, false_iff, not_exists, not_and]
      rintro n hn hreach ⟨htransient, status', shown', hlast, -⟩
      rcases Nat.eq_or_lt_of_le hn with rfl | hlt
      · rw [hanswer] at hlast
        cases hlast
      · obtain ⟨status'', shown'', body'', hfirst, -⟩ := htransient attempt le_rfl hlt
        rw [hanswer] at hfirst
        cases hfirst

/-- **A body is read** whole, or not at all. -/
theorem readCappedBody_eq_ok_iff {maxBytes : UInt64} {chunks : List (Except String Bytes)}
    {buf body : Bytes} (hbuf : buf.length ≤ maxBytes.toNat) :
    readCappedBody maxBytes chunks buf = .ok body ↔
      ∃ parts : List Bytes, chunks = parts.map .ok ∧ body = buf ++ parts.flatten ∧
        body.length ≤ maxBytes.toNat := by
  induction chunks generalizing buf with
  | nil =>
      rw [readCappedBody, Except.ok.injEq]
      constructor
      · rintro rfl
        exact ⟨[], rfl, (List.append_nil buf).symm, hbuf⟩
      · rintro ⟨parts, hparts, rfl, -⟩
        rw [List.map_eq_nil_iff.mp hparts.symm]
        exact (List.append_nil buf).symm
  | cons chunk chunks ih =>
      cases chunk with
      | error e =>
          simp only [readCappedBody, reduceCtorEq, false_iff, not_exists, not_and]
          intro parts hparts
          cases parts with
          | nil => cases hparts
          | cons part parts => cases hparts
      | ok chunk =>
          rw [readCappedBody]
          split
          · rename_i hlong
            simp only [reduceCtorEq, false_iff, not_exists, not_and]
            rintro parts hparts rfl hshort
            cases parts with
            | nil => cases hparts
            | cons part parts =>
                obtain ⟨hpart, -⟩ := List.cons.inj hparts
                obtain rfl := Except.ok.inj hpart
                simp only [List.flatten_cons, List.length_append] at hshort hlong
                omega
          · rename_i hshort
            rw [ih (Nat.not_lt.mp hshort)]
            constructor
            · rintro ⟨parts, rfl, rfl, hlen⟩
              exact ⟨chunk :: parts, rfl, by rw [List.flatten_cons, List.append_assoc], hlen⟩
            · rintro ⟨parts, hparts, rfl, hlen⟩
              cases parts with
              | nil => cases hparts
              | cons part parts =>
                  obtain ⟨hpart, hrest⟩ := List.cons.inj hparts
                  obtain rfl := Except.ok.inj hpart
                  exact ⟨parts, hrest, by rw [List.flatten_cons, List.append_assoc], hlen⟩

/-- The host serves this body: it answers a request at last with a success, the chunks of the answer
make no more than the limit, and what they make, expanded if it is an archive, is the body. -/
def Serves (env : Env) (host : Host) (sourceUrl : String) (config : Option String)
    (body : Bytes) : Prop :=
  ∃ n ≤ env.maxRetries, ∃ parts : List Bytes,
    Succeeds (host (buildRequest (FetchOptions.fromConfig env.readers.fromStr config) sourceUrl))
      0 n (parts.map .ok) ∧
    parts.flatten.length ≤ env.maxDecompressedBytes.toNat ∧
    decompressIfZip env.zip parts.flatten env.maxDecompressedBytes = .ok body

/-- **The body that is parsed is a body that was served.** -/
theorem fetchBody_eq_ok_iff {sourceUrl : String} {config : Option String} {body : Bytes} :
    fetchBody env host sourceUrl config = .ok body ↔ Serves env host sourceUrl config body := by
  rw [fetchBody, Serves]
  generalize buildRequest (FetchOptions.fromConfig env.readers.fromStr config) sourceUrl = request
  have hread : ∀ chunks : List (Except String Bytes), ∀ body,
      readCappedBody env.maxDecompressedBytes chunks [] = .ok body ↔
        ∃ parts : List Bytes, chunks = parts.map .ok ∧ body = parts.flatten ∧
          body.length ≤ env.maxDecompressedBytes.toNat := fun chunks body =>
    readCappedBody_eq_ok_iff (Nat.zero_le _)
  constructor
  · intro h
    cases hloop : fetchLoop (host request) env.maxRetries 0 with
    | error e =>
        rw [hloop] at h
        cases h
    | ok chunks =>
        rw [hloop] at h
        simp only at h
        obtain ⟨n, -, hreach, hsucceeds⟩ := fetchLoop_eq_ok_iff.mp hloop
        cases hbody : readCappedBody env.maxDecompressedBytes chunks [] with
        | error e =>
            rw [hbody] at h
            cases h
        | ok read =>
            rw [hbody] at h
            simp only at h
            obtain ⟨parts, rfl, rfl, hshort⟩ := (hread chunks read).mp hbody
            cases hexpand : decompressIfZip env.zip parts.flatten env.maxDecompressedBytes with
            | error e =>
                rw [hexpand] at h
                cases h
            | ok expanded =>
                rw [hexpand] at h
                obtain rfl := Except.ok.inj h
                exact ⟨n, by omega, parts, hsucceeds, hshort, hexpand⟩
  · rintro ⟨n, hn, parts, hsucceeds, hshort, hexpand⟩
    have hloop : fetchLoop (host request) env.maxRetries 0 = .ok (parts.map .ok) :=
      fetchLoop_eq_ok_iff.mpr ⟨n, Nat.zero_le n, .inr hn, hsucceeds⟩
    rw [hloop]
    simp only
    rw [(hread (parts.map .ok) parts.flatten).mpr ⟨parts, rfl, rfl, hshort⟩]
    simp only [hexpand]

/-! ### What a body names -/

/-- The text of a netblock line: its address, and the length in its prefix column. -/
inductive IsNetblock (trimmed : List Char) : List Char → Prop
  | columns {base field : List Char} {rest : List (List Char)} {len : ℕ} :
      splitWhitespace trimmed = base :: rest → (parseIpAddr (utf8 base)).isSome = true →
      RegexLine.prefixField (base :: rest) = some field → parseU8 field = some len →
      IsNetblock trimmed (base ++ '/' :: showDec len)

/-- The networks that a line names: the one of a netblock line, or else those found in it. -/
inductive LineNames (line : List Char) : IpNetwork → Prop
  | netblock {text : List Char} {net : IpNetwork} :
      IsNetblock (RegexLine.content line) text → denotes text = some net → LineNames line net
  | token {net : IpNetwork} :
      (∀ text, IsNetblock (RegexLine.content line) text → denotes text = none) →
      net ∈ RegexLine.networks (RegexLine.content line) → LineNames line net

/-- An item of a document, or of a line of the line mode. -/
inductive IsItem (readers : Readers) (config : JsonPathConfig) (body : Bytes) : Value → Prop
  | line {line : List Char} {item : Value} : config.jsonl = true →
      line ∈ lines (fromUtf8Lossy body) → trimText line ≠ [] →
      readers.fromStr (String.ofList (trimText line)) = .ok item → IsItem readers config body item
  | element {root item : Value} {items : List Value} : config.jsonl = false →
      readers.fromSlice body = .ok root → itemsOf root config = .ok items → item ∈ items →
      IsItem readers config body item

/-- The time of an item. -/
def seenAt (readers : Readers) (config : JsonPathConfig) (item : Value) : Option ℤ :=
  config.lastSeenAt.bind fun selector =>
    ((walkSelector item selector).bind Value.asStr).bind (parseLastSeenAt readers)

/-- **The networks that a body names,** each with the time it was last seen, in the format of the
feed. -/
inductive Names (readers : Readers) (parserType : String) (config : Option String) (body : Bytes) :
    IpNetwork → Option ℤ → Prop
  | line {line : List Char} {net : IpNetwork} : parserType = "REGEX_LINE" →
      line ∈ lines (fromUtf8Lossy body) → LineNames line net →
      Names readers parserType config body net none
  | item {text : String} {parsed : JsonPathConfig} {item : Value} {address : String}
      {net : IpNetwork} : parserType = "JSON_PATH" → config = some text →
      JsonPathConfig.parse readers.fromStr text = .ok parsed → IsItem readers parsed body item →
      (walkSelector item parsed.targetAddress).bind Value.asStr = some address →
      denotes address.toList = some net →
      Names readers parserType config body net (seenAt readers parsed item)

/-- The text that stands for a network in a record. -/
def recordText (net : IpNetwork) : String := String.ofList (showNormalized net)

theorem netblockAndPrefix_eq_some_iff {trimmed combined : List Char} :
    RegexLine.netblockAndPrefix trimmed = some combined ↔
      ∃ text net, IsNetblock trimmed text ∧ denotes text = some net ∧
        combined = showNormalized net := by
  have hshow : ∀ text, normalizeIpOrCidr text = some combined ↔
      ∃ net, denotes text = some net ∧ combined = showNormalized net := by
    intro text
    rw [normalizeIpOrCidr_eq, Option.map_eq_some_iff]
    simp only [eq_comm]
  constructor
  · intro h
    obtain ⟨base, hbase, h⟩ := Option.bind_eq_some_iff.mp h
    split at h
    · cases h
    rename_i haddr
    obtain ⟨field, hfield, h⟩ := Option.bind_eq_some_iff.mp h
    obtain ⟨len, hlen, h⟩ := Option.bind_eq_some_iff.mp h
    cases hfields : splitWhitespace trimmed with
    | nil =>
        rw [hfields] at hbase
        cases hbase
    | cons head rest =>
        rw [hfields] at hbase hfield
        obtain rfl := Option.some.inj hbase
        have hsome : (parseIpAddr (utf8 head)).isSome = true := by
          rw [← Option.not_isNone, Bool.not_eq_true']
          exact Bool.eq_false_iff.mpr haddr
        obtain ⟨net, hnet, hcombined⟩ := (hshow _).mp h
        exact ⟨_, net, .columns hfields hsome hfield hlen, hnet, hcombined⟩
  · rintro ⟨text, net, ⟨hfields, haddr, hfield, hlen⟩, hnet, hcombined⟩
    have hno : ¬(parseIpAddr (utf8 _)).isNone = true := fun h => by
      rw [← Option.not_isSome, haddr] at h
      cases h
    rw [RegexLine.netblockAndPrefix, hfields]
    simp only [List.head?_cons, Option.bind_eq_bind, Option.bind_some, if_neg hno, hfield, hlen]
    exact (hshow _).mpr ⟨net, hnet, hcombined⟩

/-- **What a line emits** are the networks it names. -/
theorem mem_parseLine {line address : List Char} :
    address ∈ RegexLine.parseLine line ↔
      ∃ net, LineNames line net ∧ address = showNormalized net := by
  have hblock := @netblockAndPrefix_eq_some_iff (RegexLine.content line)
  rw [RegexLine.parseLine]
  by_cases hempty : RegexLine.content line = []
  · simp only [if_pos hempty, List.not_mem_nil, false_iff, not_exists, not_and]
    rintro net (⟨⟨hfields, -, -, -⟩, -⟩ | ⟨-, hnet⟩)
    · rw [hempty] at hfields
      cases hfields
    · rw [hempty, RegexLine.networks_eq_nil (by decide) (by decide)] at hnet
      cases hnet
  · rw [if_neg hempty]
    cases hline : RegexLine.netblockAndPrefix (RegexLine.content line) with
    | some combined =>
        obtain ⟨text, net, htext, hnet, rfl⟩ := hblock.mp hline
        rw [List.mem_singleton]
        constructor
        · rintro rfl
          exact ⟨net, .netblock htext hnet, rfl⟩
        · rintro ⟨net', ⟨htext', hnet'⟩ | ⟨hnone, -⟩, rfl⟩
          · have hsame := hline.symm.trans (hblock.mpr ⟨_, net', htext', hnet', rfl⟩)
            exact (Option.some.inj hsame).symm
          · rw [hnone text htext] at hnet
            cases hnet
    | none =>
        have hnone : ∀ text, IsNetblock (RegexLine.content line) text → denotes text = none := by
          intro text htext
          rw [Option.eq_none_iff_forall_ne_some]
          intro net hnet
          rw [hblock.mpr ⟨text, net, htext, hnet, rfl⟩] at hline
          cases hline
        simp only [RegexLine.candidates_eq, List.mem_map]
        constructor
        · rintro ⟨net, hnet, rfl⟩
          exact ⟨net, .token hnone hnet, rfl⟩
        · rintro ⟨net, ⟨htext, hnet⟩ | ⟨-, hnet⟩, rfl⟩
          · rw [hnone _ htext] at hnet
            cases hnet
          · exact ⟨net, hnet, rfl⟩

theorem mem_extractRecords {readers : Readers} {config : JsonPathConfig} {items : List Value}
    {r : ParsedRecord} :
    r ∈ extractRecords readers items config ↔
      ∃ item ∈ items, ∃ address net,
        (walkSelector item config.targetAddress).bind Value.asStr = some address ∧
        denotes address.toList = some net ∧ r = ⟨recordText net, seenAt readers config item⟩ := by
  rw [extractRecords, List.mem_filterMap]
  refine exists_congr fun item => and_congr_right fun _ => ?_
  rw [recordOf]
  simp only [Option.bind_eq_bind, Option.bind_eq_some_iff, normalizeIpOrCidr_eq,
    Option.map_eq_some_iff, Option.pure_def, Option.some.injEq]
  constructor
  · rintro ⟨address, haddress, _, ⟨net, hnet, rfl⟩, rfl⟩
    exact ⟨address, net, haddress, hnet, rfl⟩
  · rintro ⟨address, net, haddress, hnet, rfl⟩
    exact ⟨address, haddress, _, ⟨net, hnet, rfl⟩, rfl⟩

/-! ### Parsing -/

variable {readers : Readers} {parserType : String} {config : Option String} {body : Bytes}
  {records : List ParsedRecord} {r : ParsedRecord}

theorem mem_regexLine (h : RegexLine.parse body config = .ok records) :
    r ∈ records ↔ ∃ line ∈ lines (fromUtf8Lossy body), ∃ net, LineNames line net ∧
      r = ⟨recordText net, none⟩ := by
  obtain rfl := Except.ok.inj h
  simp only [List.mem_map, List.mem_flatMap, mem_parseLine]
  constructor
  · rintro ⟨address, ⟨line, hline, net, hnames, rfl⟩, rfl⟩
    exact ⟨line, hline, net, hnames, rfl⟩
  · rintro ⟨line, hline, net, hnames, rfl⟩
    exact ⟨_, ⟨line, hline, net, hnames, rfl⟩, rfl⟩

/-- The items of the line mode are the values of its lines. -/
theorem mem_lineItems {parsed : JsonPathConfig} (hjsonl : parsed.jsonl = true) {item : Value} :
    item ∈ (trimmedLines (fromUtf8Lossy body)).filterMap
        (fun line => (readers.fromStr (String.ofList line)).toOption) ↔
      IsItem readers parsed body item := by
  have hsome : ∀ out : Except String Value, out.toOption = some item ↔ out = .ok item := by
    intro out
    cases out with
    | error e => simp [Except.toOption]
    | ok value => simp [Except.toOption]
  simp only [List.mem_filterMap, hsome, trimmedLines, List.mem_filter, List.mem_map,
    decide_eq_true_eq]
  constructor
  · rintro ⟨_, ⟨⟨line, hline, rfl⟩, hne⟩, hread⟩
    exact .line hjsonl hline hne hread
  · intro h
    cases h with
    | line _ hline hne hread => exact ⟨_, ⟨⟨_, hline, rfl⟩, hne⟩, hread⟩
    | element hno => rw [hjsonl] at hno; cases hno

/-- What the parser of JSON reads are items of the body. -/
theorem jsonPath_parse_cases (h : JsonPath.parse readers body config = .ok records) :
    ∃ text parsed items, config = some text ∧
      JsonPathConfig.parse readers.fromStr text = .ok parsed ∧
      (∀ item, item ∈ items ↔ IsItem readers parsed body item) ∧
      records = extractRecords readers items parsed := by
  cases config with
  | none => cases h
  | some text =>
      rw [JsonPath.parse] at h
      cases hparsed : JsonPathConfig.parse readers.fromStr text with
      | error e =>
          rw [hparsed] at h
          cases h
      | ok parsed =>
          rw [hparsed] at h
          simp only at h
          split at h
          · rename_i hjsonl
            obtain rfl := Except.ok.inj h
            exact ⟨text, parsed, _, rfl, hparsed, fun item => mem_lineItems hjsonl, rfl⟩
          · rename_i hjsonl
            cases hroot : readers.fromSlice body with
            | error e =>
                rw [hroot] at h
                cases h
            | ok root =>
                rw [hroot] at h
                simp only at h
                cases hitems : itemsOf root parsed with
                | error e =>
                    rw [hitems] at h
                    cases h
                | ok items =>
                    rw [hitems] at h
                    obtain rfl := Except.ok.inj h
                    refine ⟨text, parsed, items, rfl, hparsed, fun item => ?_, rfl⟩
                    constructor
                    · exact .element (Bool.not_eq_true _ ▸ hjsonl) hroot hitems
                    · intro hitem
                      cases hitem with
                      | line hyes => exact absurd hyes hjsonl
                      | element _ hroot' hitems' hmem =>
                          obtain rfl := Except.ok.inj (hroot.symm.trans hroot')
                          obtain rfl := Except.ok.inj (hitems.symm.trans hitems')
                          exact hmem

/-- An item that is read belongs to a body that is parsed. -/
theorem exists_jsonPath_parse {text : String} {parsed : JsonPathConfig} {item : Value}
    (hparsed : JsonPathConfig.parse readers.fromStr text = .ok parsed)
    (hitem : IsItem readers parsed body item) :
    ∃ records, JsonPath.parse readers body (some text) = .ok records := by
  cases hitem with
  | line hjsonl => exact ⟨_, parse_jsonl hparsed hjsonl body⟩
  | element hjsonl hroot hitems => exact ⟨_, parse_document hparsed hjsonl hroot hitems⟩

/-- **The records of a body** are the networks that it names. -/
theorem mem_of_forType {parse : Bytes → Option String → Except ParseError (List ParsedRecord)}
    (htype : forType readers parserType = .ok parse) (hparse : parse body config = .ok records) :
    r ∈ records ↔
      ∃ net, Names readers parserType config body net r.lastSeenAt ∧
        r.address = recordText net := by
  rw [forType] at htype
  split at htype
  · rename_i hregex
    obtain rfl := Except.ok.inj htype
    rw [mem_regexLine hparse]
    constructor
    · rintro ⟨line, hline, net, hnames, rfl⟩
      exact ⟨net, .line hregex hline hnames, rfl⟩
    · rintro ⟨net, hnames, haddress⟩
      obtain ⟨address, lastSeen⟩ := r
      cases hnames with
      | line _ hline hnames => exact ⟨_, hline, net, hnames, by rw [← haddress]⟩
      | item hjson =>
          rw [hregex] at hjson
          exact absurd hjson (by decide)
  · split at htype
    · rename_i hno hjson
      obtain rfl := Except.ok.inj htype
      obtain ⟨text, parsed, items, rfl, hparsed, hitems, rfl⟩ := jsonPath_parse_cases hparse
      rw [mem_extractRecords]
      constructor
      · rintro ⟨item, hitem, address, net, haddress, hnet, rfl⟩
        exact ⟨net, .item hjson rfl hparsed ((hitems item).mp hitem) haddress hnet, rfl⟩
      · rintro ⟨net, hnames, haddress⟩
        obtain ⟨address, lastSeen⟩ := r
        cases hnames with
        | line hregex => exact absurd hregex hno
        | item _ htext hparsed' hitem haddress' hnet =>
            obtain rfl := Option.some.inj htext
            obtain rfl := Except.ok.inj (hparsed.symm.trans hparsed')
            exact ⟨_, (hitems _).mpr hitem, _, net, haddress', hnet,
              congrArg (ParsedRecord.mk · _) haddress⟩
    · cases htype

/-- A body that names a network is parsed. -/
theorem exists_parse_of_names {net : IpNetwork} {seen : Option ℤ}
    (h : Names readers parserType config body net seen) :
    ∃ parse, forType readers parserType = .ok parse ∧
      ∃ records, parse body config = .ok records := by
  cases h with
  | line hregex => exact ⟨_, if_pos hregex, _, rfl⟩
  | item hjson hconfig hparsed hitem =>
      subst hjson hconfig
      exact ⟨_, rfl, exists_jsonPath_parse hparsed hitem⟩

/-! ### What a feed says -/

variable {sourceUrl : String}

/-- The host serves a body that names the network. -/
def Says (env : Env) (host : Host) (sourceUrl parserType : String) (config : Option String)
    (net : IpNetwork) (seen : Option ℤ) : Prop :=
  ∃ body, Serves env host sourceUrl config body ∧
    Names env.readers parserType config body net seen

/-- **The records of a fetch** are the networks that its host says. -/
theorem mem_fetchAndParse
    (h : fetchAndParse env host sourceUrl parserType config = .ok records) :
    r ∈ records ↔ ∃ net, Says env host sourceUrl parserType config net r.lastSeenAt ∧
      r.address = recordText net := by
  rw [fetchAndParse] at h
  cases hbody : fetchBody env host sourceUrl config with
  | error e =>
      rw [hbody] at h
      cases h
  | ok body =>
      rw [hbody] at h
      simp only at h
      have hserves : ∀ body', Serves env host sourceUrl config body' ↔ body' = body := by
        intro body'
        rw [← fetchBody_eq_ok_iff, hbody, Except.ok.injEq, eq_comm]
      cases htype : forType env.readers parserType with
      | error e =>
          rw [htype] at h
          cases h
      | ok parse =>
          rw [htype] at h
          simp only at h
          cases hparse : parse body config with
          | error e =>
              rw [hparse] at h
              cases h
          | ok found =>
              rw [hparse] at h
              obtain rfl := Except.ok.inj h
              rw [mem_of_forType htype hparse]
              simp only [Says, hserves, exists_eq_left]

/-- A host that says anything is a host whose fetch succeeds. -/
theorem exists_fetchAndParse_of_says {net : IpNetwork} {seen : Option ℤ}
    (h : Says env host sourceUrl parserType config net seen) :
    ∃ records, fetchAndParse env host sourceUrl parserType config = .ok records := by
  obtain ⟨body, hserves, hnames⟩ := h
  obtain ⟨parse, htype, records, hparse⟩ := exists_parse_of_names hnames
  refine ⟨records, ?_⟩
  rw [fetchAndParse, fetchBody_eq_ok_iff.mpr hserves]
  simp only [htype, hparse]

end SimplyIpSync.Jobs.Fetch
