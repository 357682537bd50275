import SimplyIpSync.Jobs.ExternalIngestion
import SimplyIpSync.Parsers.JsonPath
import SimplyIpSync.Parsers.Normalize

/-!
# The `JSON_PATH` parser (`src/parsers/json_path.rs`)

The items of a feed are the elements of an array in one document, or, in the line mode, the lines
that are JSON texts.  Either way an item gives a record if its selected field is the text of an
address; everything else is passed over.

JSON texts and dates are read by code outside the repository: `Readers`.
-/

namespace SimplyIpSync.Parsers.JsonPath

open SimplyIpSync.Crypto SimplyIpSync.Text SimplyIpSync.Jobs.ExternalIngestion

/-- The readers of texts: of JSON in a text and in bytes, of a time, and of a date, which is the
number of its day. -/
structure Readers where
  fromStr : String → Except String Value
  fromSlice : Bytes → Except String Value
  parseFromRfc3339 : String → Option ℤ
  parseFromStr : String → Option ℤ

/-- `Value::get` with a name: nothing but an object has fields. -/
def Value.get (value : Value) (name : String) : Option Value :=
  value.asObject.bind fun fields => JsonPath.get fields name

/-- `Value::as_array`. -/
def Value.asArray : Value → Option (List Value)
  | .array items => some items
  | _ => none

/-- `walk_selector`. -/
def walkSelector (item : Value) : List String → Option Value
  | [] => some item
  | segment :: selector => (item.get segment).bind fun current => walkSelector current selector

/-- `walk_dotted_path`. -/
def walkDottedPath (root : Value) (path : String) : Option Value :=
  walkSelector root (((path.toList.splitOn '.').filter (· ≠ [])).map String.ofList)

/-- `parse_last_seen_at`: a time, or the midnight of a date. -/
def parseLastSeenAt (readers : Readers) (raw : String) : Option ℤ :=
  (readers.parseFromRfc3339 raw).or ((readers.parseFromStr raw).map (· * nanosPerDay))

/-- The body of the loop of `extract_records`. -/
def recordOf (readers : Readers) (config : JsonPathConfig) (item : Value) :
    Option ParsedRecord := do
  let candidate ← (walkSelector item config.targetAddress).bind Value.asStr
  let address ← normalizeIpOrCidr candidate.toList
  let lastSeenAt := config.lastSeenAt.bind fun selector =>
    ((walkSelector item selector).bind Value.asStr).bind (parseLastSeenAt readers)
  return ⟨String.ofList address, lastSeenAt⟩

/-- `extract_records`. -/
def extractRecords (readers : Readers) (items : List Value) (config : JsonPathConfig) :
    List ParsedRecord :=
  items.filterMap (recordOf readers config)

/-- The lines that are read: trimmed, and not empty. -/
def trimmedLines (text : List Char) : List (List Char) :=
  ((lines text).map trimText).filter (· ≠ [])

/-- `parse_jsonl`. -/
def parseJsonl (readers : Readers) (raw : Bytes) (config : JsonPathConfig) :
    Except ParseError (List ParsedRecord) :=
  let values := (trimmedLines (fromUtf8Lossy raw)).filterMap fun line =>
    (readers.fromStr (String.ofList line)).toOption
  .ok (extractRecords readers values config)

/-- The value at the array path. -/
def arrayOf (root : Value) (config : JsonPathConfig) : Except ParseError Value :=
  match config.arrayPath with
  | none => .ok root
  | some path =>
      match walkDottedPath root path with
      | some array => .ok array
      | none => .error (.invalidConfig ("array_path '" ++ path ++ "' not found in feed body"))

/-- The items of a document. -/
def itemsOf (root : Value) (config : JsonPathConfig) : Except ParseError (List Value) :=
  match arrayOf root config with
  | .error e => .error e
  | .ok array =>
      match array.asArray with
      | some items => .ok items
      | none => .error (.invalidConfig "array_path did not resolve to a JSON array")

/-- `JsonPathParser::parse`. -/
def parse (readers : Readers) (raw : Bytes) (config : Option String) :
    Except ParseError (List ParsedRecord) :=
  match config with
  | none => .error
      (.invalidConfig "JSON_PATH requires parser_config_json with a target_address selector")
  | some configStr =>
      match JsonPathConfig.parse readers.fromStr configStr with
      | .error e => .error (.invalidConfig e)
      | .ok config =>
          if config.jsonl then parseJsonl readers raw config
          else
            match readers.fromSlice raw with
            | .error e => .error (.malformedBody e)
            | .ok root =>
                match itemsOf root config with
                | .error e => .error e
                | .ok items => .ok (extractRecords readers items config)

variable {readers : Readers} {config : JsonPathConfig} {configStr : String}

/-- In the line mode nothing in the feed is an error. -/
theorem parse_jsonl (hconfig : JsonPathConfig.parse readers.fromStr configStr = .ok config)
    (hjsonl : config.jsonl = true) (raw : Bytes) :
    parse readers raw (some configStr) = parseJsonl readers raw config := by
  simp only [parse, hconfig, hjsonl, if_true]

/-- Otherwise the feed is one document. -/
theorem parse_document (hconfig : JsonPathConfig.parse readers.fromStr configStr = .ok config)
    (hjsonl : config.jsonl = false) {raw : Bytes} {root : Value} {items : List Value}
    (hroot : readers.fromSlice raw = .ok root) (hitems : itemsOf root config = .ok items) :
    parse readers raw (some configStr) = .ok (extractRecords readers items config) := by
  simp only [parse, hconfig, hjsonl, Bool.false_eq_true, if_false, hroot, hitems]

/-- What a line gives. -/
def lineRecords (readers : Readers) (config : JsonPathConfig) (line : List Char) :
    List ParsedRecord :=
  if trimText line = [] then []
  else (((readers.fromStr (String.ofList (trimText line))).toOption).bind
    (recordOf readers config)).toList

/-- **The line mode reads line by line.** -/
theorem parseJsonl_eq (raw : Bytes) : parseJsonl readers raw config =
    .ok ((lines (fromUtf8Lossy raw)).flatMap (lineRecords readers config)) := by
  rw [parseJsonl, extractRecords, List.filterMap_filterMap, trimmedLines]
  congr 1
  induction lines (fromUtf8Lossy raw) with
  | nil => rfl
  | cons line rest ih =>
      rw [List.map_cons, List.flatMap_cons, ← ih, lineRecords]
      by_cases hempty : trimText line = []
      · rw [if_pos hempty, List.filter_cons_of_neg (by simpa using hempty), List.nil_append]
      · rw [if_neg hempty, List.filter_cons_of_pos (by simpa using hempty)]
        rw [List.filterMap_cons]
        cases (readers.fromStr (String.ofList (trimText line))).toOption.bind
            (recordOf readers config) with
        | none => rfl
        | some r => rfl

end SimplyIpSync.Parsers.JsonPath
