import Mathlib.Tactic

/-!
# The configuration of the `JSON_PATH` parser (`src/parsers/json_path.rs`)

A configuration is a JSON object that names the field of an address, and may name the field of a
time, the array of the items and the line mode.  A value of the wrong type counts as missing.  The
reader of JSON texts is a parameter.
-/

namespace SimplyIpSync.Parsers.JsonPath

/-- `serde_json::Value`; a number is kept as its text, and the names of an object are distinct. -/
inductive Value
  | null
  | bool (b : Bool)
  | number (text : String)
  | string (text : String)
  | array (items : List Value)
  | object (fields : List (String × Value))

/-- `Value::as_object`. -/
def Value.asObject : Value → Option (List (String × Value))
  | .object fields => some fields
  | _ => none

/-- `Value::as_str`. -/
def Value.asStr : Value → Option String
  | .string text => some text
  | _ => none

/-- `Value::as_bool`. -/
def Value.asBool : Value → Option Bool
  | .bool b => some b
  | _ => none

/-- `Map::get`. -/
def get (fields : List (String × Value)) (name : String) : Option Value :=
  (fields.find? fun field => field.1 = name).map Prod.snd

/-- `parse_selector`. -/
def parseSelector (raw : String) : Except String (List String) :=
  match raw.toList with
  | '$' :: '.' :: rest =>
      if rest = [] then
        .error ("selector '" ++ raw ++ "' must name at least one field after '$.'")
      else .ok ((rest.splitOn '.').map String.ofList)
  | _ => .error ("selector '" ++ raw ++ "' must start with '$.' (e.g. \"$.ipAddress\")")

/-- `JsonPathConfig`. -/
structure JsonPathConfig where
  arrayPath : Option String
  targetAddress : List String
  lastSeenAt : Option (List String)
  jsonl : Bool
  deriving DecidableEq, Repr

/-- The refusal of a configuration without the field of an address. -/
def missingTarget : String :=
  "parser_config_json must set \"target_address\" (or its alias \"ip\") to a '$.'-prefixed field " ++
    "selector, e.g. \"$.ipAddress\""

/-- The text of a field, or of its alias. -/
def field (fields : List (String × Value)) (name aliasName : String) : Option String :=
  ((get fields name).bind Value.asStr).or ((get fields aliasName).bind Value.asStr)

/-- The selector of the time, if there is one. -/
def lastSeenSelector (fields : List (String × Value)) : Except String (Option (List String)) :=
  match field fields "last_seen_at" "timestamp" with
  | none => .ok none
  | some raw =>
      match parseSelector raw with
      | .error e => .error e
      | .ok selector => .ok (some selector)

variable (fromStr : String → Except String Value)

/-- `JsonPathConfig::parse`; `fromStr` is `serde_json::from_str`. -/
def JsonPathConfig.parse (configStr : String) : Except String JsonPathConfig :=
  match fromStr configStr with
  | .error e => .error ("invalid parser_config_json: " ++ e)
  | .ok value =>
      match value.asObject with
      | none => .error "parser_config_json must be a JSON object"
      | some fields =>
          match field fields "target_address" "ip" with
          | none => .error missingTarget
          | some raw =>
              match parseSelector raw with
              | .error e => .error e
              | .ok targetAddress =>
                  match lastSeenSelector fields with
                  | .error e => .error e
                  | .ok lastSeenAt =>
                      .ok
                        { arrayPath := (get fields "array_path").bind Value.asStr
                          targetAddress := targetAddress
                          lastSeenAt := lastSeenAt
                          jsonl := ((get fields "jsonl").bind Value.asBool).getD false }

/-- `validate_config`. -/
def validateConfig (config : Option String) : Except String Unit :=
  match config with
  | none => .error "JSON_PATH requires parser_config_json with a target_address selector"
  | some configStr =>
      match JsonPathConfig.parse fromStr configStr with
      | .error e => .error e
      | .ok _ => .ok ()

/-- The configuration is there, and `JsonPathConfig::parse` takes it. -/
def Accepted (config : Option String) : Prop :=
  ∃ text ∈ config, ∃ parsed, JsonPathConfig.parse fromStr text = .ok parsed

variable {fromStr : String → Except String Value}

/-- **The check at save time is the parser's own.** -/
theorem validateConfig_ok {config : Option String} :
    validateConfig fromStr config = .ok () ↔ Accepted fromStr config := by
  cases config with
  | none => simp [validateConfig, Accepted]
  | some configStr =>
      simp only [validateConfig, Accepted, Option.mem_def, Option.some.injEq, exists_eq_left']
      cases JsonPathConfig.parse fromStr configStr with
      | error e => simp
      | ok parsed => simp

instance (config : Option String) : Decidable (Accepted fromStr config) :=
  decidable_of_iff _ validateConfig_ok

/-- A value of another type is passed over for the alias. -/
example : JsonPathConfig.parse
    (fun _ => .ok (.object [("target_address", .null), ("ip", .string "$.meta.ip")])) "" =
      .ok ⟨none, ["meta", "ip"], none, false⟩ := by
  decide +kernel

end SimplyIpSync.Parsers.JsonPath
