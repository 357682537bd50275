import SimplyIpSync.Api.Atomicity
import SimplyIpSync.Api.FeedConfig
import SimplyIpSync.Dashboard.Inputs
import SimplyIpSync.Jobs.Fetch
import SimplyIpSync.Parsers.JsonFields

/-!
# The feed form (`showFeedForm` in `static/app.js`)

The dashboard shows the configuration of a feed as rows of headers, a user agent and the rest as
text, and puts them together again when the form is saved.  The server reads the result as JSON of
its own.

A save does not always make the feed what its form shows.  `null` in a saved form leaves a column
as it is, so that a form does not clear what it shows empty; a row named `__proto__` is lost, and of
two rows of one name the first; and `parseInt` reads the age limit otherwise than its element.
`saved_as_shown` says that nothing else is lost.

A text area is taken to show a text as it is; the line breaks of a JSON text are no part of its
value.
-/

namespace SimplyIpSync.Dashboard

open SimplyIpSync.Entities SimplyIpSync.Storage SimplyIpSync.Api SimplyIpSync.Reach
open SimplyIpSync.Program SimplyIpSync.Program.Prog SimplyIpSync.Parsers
open SimplyIpSync.Parsers.JsonPath
open SimplyIpSync.Jobs.Fetch (FetchOptions textFields)

/-! ### What the server reads -/

section Read

variable {fromStr : String → Except String Value} {config : Option String}

/-- The fields of a configuration; one that is no object has none. -/
def readConfig (fromStr : String → Except String Value) (config : Option String) :
    List (String × Value) :=
  match config with
  | none => []
  | some text =>
      match fromStr text with
      | .ok (.object fields) => fields
      | _ => []

theorem readConfig_of_read {text : String} {fields : List (String × Value)}
    (h : fromStr text = .ok (.object fields)) : readConfig fromStr (some text) = fields := by
  rw [readConfig, h]

/-- What the fields of a configuration make a fetch send. -/
def optionsOf (fields : List (String × Value)) : FetchOptions where
  userAgent := (get fields "user_agent").bind Value.asStr
  headers := (((get fields "headers").bind Value.asObject).map textFields).getD []

theorem fromConfig_eq : FetchOptions.fromConfig fromStr config =
    optionsOf (readConfig fromStr config) := by
  cases config with
  | none => rfl
  | some text =>
      simp only [FetchOptions.fromConfig, readConfig]
      cases fromStr text with
      | error e => rfl
      | ok v => cases v <;> rfl

theorem mem_textFields {hs : List (String × Value)} {header : String × String} :
    header ∈ textFields hs ↔ (header.1, Value.string header.2) ∈ hs := by
  obtain ⟨name, text⟩ := header
  rw [textFields, List.mem_filterMap]
  constructor
  · rintro ⟨⟨name', v⟩, hmem, hfield⟩
    obtain ⟨text', htext, hpair⟩ := Option.map_eq_some_iff.mp hfield
    obtain ⟨rfl, rfl⟩ := Prod.mk.inj hpair
    cases v <;> cases htext
    exact hmem
  · exact fun hmem => ⟨_, hmem, rfl⟩

/-- The headers that are sent are the texts among the fields of `headers`. -/
theorem mem_headers_optionsOf {fields : List (String × Value)} (hdistinct : Distinct fields)
    {header : String × String} : header ∈ (optionsOf fields).headers ↔
      ∃ hs, get fields "headers" = some (.object hs) ∧
        get hs header.1 = some (.string header.2) := by
  rw [optionsOf]
  cases hget : get fields "headers" with
  | none => simp
  | some v =>
      cases v with
      | object hs =>
          simp [Value.asObject, mem_textFields, get_eq_some_iff (hdistinct.2 _ _ hget)]
      | _ => simp [Value.asObject]

/-- A header of one configuration is a header of another with the same fields. -/
theorem header_of_sameFields {fields fields' : List (String × Value)}
    (h : SameFields fields fields') {name text : String}
    (hheader : ∃ hs, get fields "headers" = some (.object hs) ∧ get hs name = some (.string text)) :
    ∃ hs, get fields' "headers" = some (.object hs) ∧ get hs name = some (.string text) := by
  obtain ⟨hs, hheaders, hget⟩ := hheader
  obtain ⟨v, hheaders', hsame⟩ := h.get_eq_some hheaders
  cases v <;> cases hsame
  rename_i hs' hnames hfields
  obtain ⟨v, hget', hsame⟩ := SameFields.get_eq_some (.object hnames hfields) hget
  cases hsame
  exact ⟨hs', hheaders', hget'⟩

end Read

/-! ### The form -/

/-- What the browser does with JSON: `parse`, `stringify`, and `stringify` with an indentation.
`textOf v` is `String(v)`, `textOrEmpty v` is `String(v || "")`, and `spreadOther v` has the fields
of `{ ...v }` where `v` is no object. -/
structure Browser where
  parse : String → Option Value
  stringify : Value → String
  stringifyIndented : Value → String
  textOf : Value → String
  textOrEmpty : Value → String
  spreadOther : Value → List (String × Value)

/-- The fields of `{ ...v }`. -/
def Browser.spread (browser : Browser) : Value → List (String × Value)
  | .object fields => fields
  | v => browser.spreadOther v

/-- A field is set, instead of the one with its name; the order of fields is not modelled. -/
def setField (fields : List (String × Value)) (name : String) (v : Value) :
    List (String × Value) :=
  fields.filter (fun field => field.1 ≠ name) ++ [(name, v)]

/-- The fields that are not edited as such. -/
def restOf (fields : List (String × Value)) : List (String × Value) :=
  fields.filter fun field => field.1 ≠ "headers" ∧ field.1 ≠ "user_agent"

/-- The result of `splitParserConfig`. -/
structure SplitConfig where
  headerRows : List (String × String)
  userAgent : String
  rest : String

variable (browser : Browser)

/-- The rows of `headers`, if it is an object. -/
def headerRowsOf (fields : List (String × Value)) : List (String × String) :=
  (((get fields "headers").bind Value.asObject).getD []).map fun h => (h.1, browser.textOf h.2)

/-- `splitParserConfig`. -/
def splitParserConfig (raw : Option String) : SplitConfig :=
  match raw with
  | none => ⟨[], "", ""⟩
  | some text =>
      if text = "" then ⟨[], "", ""⟩
      else
        match browser.parse text with
        | some (.object fields) =>
            { headerRows := headerRowsOf browser fields
              userAgent := ((get fields "user_agent").map browser.textOrEmpty).getD ""
              rest :=
                if restOf fields = [] then ""
                else browser.stringifyIndented (.object (restOf fields)) }
        | _ => ⟨[], "", text⟩

/-- A name that `headers[name] = value` makes a field of. -/
def IsHeaderName (name : String) : Prop := name ≠ "" ∧ name ≠ "__proto__"

instance (name : String) : Decidable (IsHeaderName name) := inferInstanceAs (Decidable (_ ∧ _))

/-- The body of the loop of `buildMergedParserConfig`. -/
def setHeader (headers : List (String × Value)) (row : String × String) :
    List (String × Value) :=
  if IsHeaderName (jsTrim row.1) then setField headers (jsTrim row.1) (.string row.2)
  else headers

/-- The headers of the rows. -/
def headersOf (rows : List (String × String)) : List (String × Value) := rows.foldl setHeader []

/-- The fields with the headers of the rows and the user agent, where there are any. -/
def mergedFields (fields : List (String × Value)) (rows : List (String × String))
    (userAgentValue : String) : List (String × Value) :=
  let merged :=
    if headersOf rows = [] then fields else setField fields "headers" (.object (headersOf rows))
  if jsTrim userAgentValue = "" then merged
  else setField merged "user_agent" (.string (jsTrim userAgentValue))

/-- `buildMergedParserConfig`; `none` where the rest is no JSON. -/
def buildMergedParserConfig (rows : List (String × String))
    (userAgentValue restConfigRaw : String) : Option (List (String × Value)) :=
  let restConfig := if restConfigRaw = "" then some (.object []) else browser.parse restConfigRaw
  restConfig.map fun rest => mergedFields (browser.spread rest) rows userAgentValue

/-! ### What the merge is made of -/

section Merge

variable {fields : List (String × Value)} {rows : List (String × String)} {agent : String}

theorem get_setField (fields : List (String × Value)) (name other : String) (v : Value) :
    get (setField fields name v) other = if other = name then some v else get fields other := by
  have hfilter := @get_filter fields (fun n => decide (n ≠ name)) other
  rw [JsonPath.get] at hfilter
  rw [setField, JsonPath.get, List.find?_append, Option.map_or, hfilter]
  by_cases hname : other = name
  · subst hname
    simp
  · have hne : ¬name = other := fun h => hname h.symm
    simp [hname, hne]

theorem get_restOf (fields : List (String × Value)) (name : String) :
    get (restOf fields) name =
      if name = "headers" ∨ name = "user_agent" then none else get fields name := by
  have hfilter := @get_filter fields
    (fun n => decide (n ≠ "headers" ∧ n ≠ "user_agent")) name
  rw [restOf, hfilter]
  by_cases hheaders : name = "headers"
  · simp [hheaders]
  · by_cases hagent : name = "user_agent"
    · simp [hagent]
    · simp [hheaders, hagent]

theorem setField_ne_nil (fields : List (String × Value)) (name : String) (v : Value) :
    setField fields name v ≠ [] := List.append_ne_nil_of_right_ne_nil _ (List.cons_ne_nil _ _)

/-- The value in the last row of this name. -/
def lastRow (rows : List (String × String)) (name : String) : Option String :=
  (rows.reverse.find? fun row => jsTrim row.1 = name).map Prod.snd

theorem lastRow_append (rows : List (String × String)) (row : String × String) (name : String) :
    lastRow (rows ++ [row]) name = if jsTrim row.1 = name then some row.2 else lastRow rows name := by
  rw [lastRow, List.reverse_append, List.reverse_singleton, List.singleton_append, List.find?_cons]
  by_cases hname : jsTrim row.1 = name
  · simp [hname]
  · simp [hname, lastRow]

theorem exists_of_lastRow {name text : String} (h : lastRow rows name = some text) :
    ∃ row ∈ rows, jsTrim row.1 = name ∧ row.2 = text := by
  obtain ⟨row, hfind, rfl⟩ := Option.map_eq_some_iff.mp h
  have hname : jsTrim row.1 = name := by simpa using List.find?_some hfind
  exact ⟨row, List.mem_reverse.mp (List.mem_of_find?_eq_some hfind), hname, rfl⟩

theorem lastRow_isSome {row : String × String} (hrow : row ∈ rows) :
    ∃ text, lastRow rows (jsTrim row.1) = some text := by
  have hsome : (rows.reverse.find? fun r => jsTrim r.1 = jsTrim row.1).isSome = true :=
    List.find?_isSome.mpr ⟨row, List.mem_reverse.mpr hrow, decide_eq_true rfl⟩
  obtain ⟨last, hlast⟩ := Option.isSome_iff_exists.mp hsome
  exact ⟨last.2, by rw [lastRow, hlast]; rfl⟩

/-- **Of the rows of a name the last one counts.** -/
theorem get_headersOf (rows : List (String × String)) (name : String) :
    get (headersOf rows) name =
      if IsHeaderName name then (lastRow rows name).map Value.string else none := by
  induction rows using List.reverseRecOn with
  | nil =>
      show none = _
      split <;> rfl
  | append_singleton rows row ih =>
      rw [headersOf, List.foldl_append, List.foldl_cons, List.foldl_nil, lastRow_append]
      show get (setHeader (headersOf rows) row) name = _
      rw [setHeader]
      by_cases hrow : IsHeaderName (jsTrim row.1)
      · rw [if_pos hrow, get_setField, ih]
        by_cases hname : name = jsTrim row.1
        · subst hname
          simp [hrow]
        · have hne : ¬jsTrim row.1 = name := fun h => hname h.symm
          simp [hname, hne]
      · rw [if_neg hrow, ih]
        by_cases hname : IsHeaderName name
        · have hne : ¬jsTrim row.1 = name := fun h => hrow (h ▸ hname)
          simp [hname, hne]
        · simp [hname]

theorem headersOf_eq_nil_iff :
    headersOf rows = [] ↔ ∀ row ∈ rows, ¬IsHeaderName (jsTrim row.1) := by
  constructor
  · intro hnil row hrow hname
    have hget := get_headersOf rows (jsTrim row.1)
    obtain ⟨text, hlast⟩ := lastRow_isSome hrow
    rw [hnil, if_pos hname, hlast] at hget
    cases hget
  · intro hnone
    rw [← sameFields_nil]
    refine sameFields_iff.mpr ?_
    intro name
    rw [get_headersOf]
    split
    · rename_i hname
      cases hlast : lastRow rows name with
      | none => exact .none
      | some text =>
          obtain ⟨row, hrow, rfl, -⟩ := exists_of_lastRow hlast
          exact absurd hname (hnone row hrow)
    · exact .none

theorem get_mergedFields (fields : List (String × Value)) (rows : List (String × String))
    (agent name : String) :
    get (mergedFields fields rows agent) name =
      if name = "user_agent" ∧ jsTrim agent ≠ "" then some (.string (jsTrim agent))
      else if name = "headers" ∧ headersOf rows ≠ [] then some (.object (headersOf rows))
      else get fields name := by
  have hheaders : get (if headersOf rows = [] then fields
      else setField fields "headers" (.object (headersOf rows))) name =
        if name = "headers" ∧ headersOf rows ≠ [] then some (.object (headersOf rows))
        else get fields name := by
    by_cases hrows : headersOf rows = []
    · simp [hrows]
    · rw [if_neg hrows, get_setField]
      simp [hrows]
  rw [mergedFields]
  by_cases hagent : jsTrim agent = ""
  · rw [if_pos hagent, hheaders]
    simp [hagent]
  · rw [if_neg hagent, get_setField, hheaders]
    simp [hagent]

theorem mergedFields_eq_nil_iff : mergedFields fields rows agent = [] ↔
    fields = [] ∧ headersOf rows = [] ∧ jsTrim agent = "" := by
  rw [mergedFields]
  by_cases hagent : jsTrim agent = ""
  · by_cases hrows : headersOf rows = []
    · simp [hagent, hrows]
    · simp [hagent, hrows, setField_ne_nil]
  · simp [hagent, setField_ne_nil]

end Merge

/-! ### The submitted form -/

/-- What the form shows when it is submitted.  Its inputs hold lines, and the one of the age limit
nothing or a number; the browser's own checks (`required`, `min`, `step`) are not modelled. -/
structure FeedForm where
  name : String
  sourceUrl : String
  parserType : String
  skipBogonFiltering : Option Bool
  userAgent : String
  rows : List (String × String)
  parserConfigJson : String
  maxAgeDays : String
  maxAgeDays_number : maxAgeDays = "" ∨ (numberValue maxAgeDays).isSome
  name_line : IsLine name
  sourceUrl_line : IsLine sourceUrl
  userAgent_line : IsLine userAgent
  parserType_listed : parserType ∈ ["REGEX_LINE", "JSON_PATH"]

/-- `showFeedForm` for an existing feed.  Of the two types the one of the feed is selected, or else
the first. -/
def showFeedForm (existing : StampedExternalSource) : FeedForm where
  name := inputValue existing.name
  sourceUrl := inputValue existing.sourceUrl
  parserType := if existing.parserType = "JSON_PATH" then "JSON_PATH" else "REGEX_LINE"
  skipBogonFiltering := existing.skipBogonFiltering
  userAgent := inputValue (splitParserConfig browser existing.parserConfigJson).userAgent
  rows := (splitParserConfig browser existing.parserConfigJson).headerRows
  parserConfigJson := (splitParserConfig browser existing.parserConfigJson).rest
  maxAgeDays := (existing.maxAgeDays.map toString).getD ""
  maxAgeDays_number := by
    cases existing.maxAgeDays with
    | none => exact Or.inl rfl
    | some days =>
        right
        rw [Option.map_some, Option.getD_some, numberValue_toString]
        rfl
  name_line := isLine_inputValue _
  sourceUrl_line := isLine_inputValue _
  userAgent_line := isLine_inputValue _
  parserType_listed := by
    split
    · exact List.mem_cons_of_mem _ List.mem_cons_self
    · exact List.mem_cons_self

namespace FeedForm

/-- `mergedConfig` of the submit handler. -/
def mergedConfig (form : FeedForm) : Option (List (String × Value)) :=
  buildMergedParserConfig browser form.rows form.userAgent form.parserConfigJson

/-- `parser_config_json` of the payload. -/
def configText (merged : List (String × Value)) : Option String :=
  if merged = [] then none else some (browser.stringify (.object merged))

/-- `max_age_days` of the payload; `JSON.stringify` makes `null` of `NaN`. -/
def days (form : FeedForm) : Option ℤ :=
  if form.maxAgeDays = "" then none else parseInt form.maxAgeDays

/-- The server reads `max_age_days` as an `i32`. -/
def DaysFit (form : FeedForm) : Prop := ∀ days ∈ form.days, -2 ^ 31 ≤ days ∧ days < 2 ^ 31

instance (form : FeedForm) : Decidable form.DaysFit :=
  inferInstanceAs (Decidable (∀ days ∈ form.days, -2 ^ 31 ≤ days ∧ days < 2 ^ 31))

/-- The payload of a new feed, as the server reads it; `none` where the text area holds no JSON, or
the age limit does not fit. -/
def created (form : FeedForm) : Option CreateFeedPayload :=
  if form.DaysFit then
    (form.mergedConfig browser).map fun merged =>
      { name := form.name
        sourceUrl := form.sourceUrl
        parserType := form.parserType
        parserConfigJson := configText browser merged
        maxAgeDays := form.days
        skipBogonFiltering := form.skipBogonFiltering }
  else none

/-- The same payload for an existing feed; `null` is read as a missing field. -/
def saved (form : FeedForm) : Option UpdateFeedPayload :=
  if form.DaysFit then
    (form.mergedConfig browser).map fun merged =>
      { name := some form.name
        sourceUrl := some form.sourceUrl
        parserType := some form.parserType
        parserConfigJson := configText browser merged
        maxAgeDays := form.days
        skipBogonFiltering := form.skipBogonFiltering }
  else none

theorem created_eq_some {form : FeedForm} {payload : CreateFeedPayload}
    (h : form.created browser = some payload) : form.DaysFit ∧
      ∃ merged, form.mergedConfig browser = some merged ∧ payload =
        ⟨form.name, form.sourceUrl, form.parserType, configText browser merged, form.days,
          form.skipBogonFiltering⟩ := by
  rw [created] at h
  split at h
  · rename_i hfit
    obtain ⟨merged, hmerged, hpayload⟩ := Option.map_eq_some_iff.mp h
    exact ⟨hfit, merged, hmerged, hpayload.symm⟩
  · cases h

theorem saved_eq_some {form : FeedForm} {payload : UpdateFeedPayload}
    (h : form.saved browser = some payload) : form.DaysFit ∧
      ∃ merged, form.mergedConfig browser = some merged ∧ payload =
        ⟨some form.name, some form.sourceUrl, some form.parserType, configText browser merged,
          form.days, form.skipBogonFiltering⟩ := by
  rw [saved] at h
  split at h
  · rename_i hfit
    obtain ⟨merged, hmerged, hpayload⟩ := Option.map_eq_some_iff.mp h
    exact ⟨hfit, merged, hmerged, hpayload.symm⟩
  · cases h

end FeedForm

/-! ### What is stored -/

section Stored

variable {browser : Browser} {fromStr : String → Except String Value}

/-- **What an answered update makes of a feed.** -/
theorem find?_of_answered {fuel : ℕ} {env : Env} {caller : ApiKey} {db s : Database}
    {fault : Option (Fault Sql)} {groupId feedId : Uuid} {payload : UpdateFeedPayload}
    (h : AnsweredIn (handle fuel env caller (.updateFeed groupId feedId payload)) fault db s) :
    ∃ row, db.externalSources.find? feedId = some row ∧
      s.externalSources.find? feedId = some (payload.apply env.now row) := by
  obtain ⟨reply, hreply, rfl⟩ := h
  have halong : Along (Committed fuel env caller db (.updateFeed groupId feedId payload))
      (Ended fuel env caller db (.updateFeed groupId feedId payload))
      (handle fuel env caller (.updateFeed groupId feedId payload)) db := along_handle rfl
  rcases halong.run .dbError fault with hend | ⟨hrefused, -⟩
  · generalize (Prog.run .dbError (handle fuel env caller
      (.updateFeed groupId feedId payload)) fault db).2.2 = s at hend ⊢
    rw [hreply] at hend
    cases hend with
    | answered hchange hgrant hentry haudit =>
        obtain rfl : _ = _ := Except.ok.inj hgrant
        cases hchange with
        | updateFeed _ _ _ _ _ hwrite =>
            obtain ⟨old, hold, -, rfl⟩ := updateExternalSource_ok hwrite
            refine ⟨old, hold, ?_⟩
            have hself := Table.find?_modify_self db.externalSources feedId
              (payload.apply env.now) fun _ => rfl
            rw [hold] at hself
            rw [insertAuditLog_ok haudit]
            exact hself
  · rw [hreply] at hrefused
    cases hrefused

/-- The server reads what the browser prints for it, with each field once. -/
def FeedForm.Understood (browser : Browser) (fromStr : String → Except String Value)
    (form : FeedForm) : Prop :=
  ∀ merged, form.mergedConfig browser = some merged → merged ≠ [] →
    ∃ fields, fromStr (browser.stringify (.object merged)) = .ok (.object fields) ∧
      SameFields merged fields ∧ Distinct fields

/-- The object in the text area; without a text it is empty. -/
def FeedForm.restFields (browser : Browser) (form : FeedForm) : Option (List (String × Value)) :=
  if form.parserConfigJson = "" then some []
  else (browser.parse form.parserConfigJson).bind Value.asObject

/-- The text area has no headers and no user agent of its own, as its label says. -/
def FeedForm.Plain (browser : Browser) (form : FeedForm) : Prop :=
  ∀ v, browser.parse form.parserConfigJson = some v →
    get (browser.spread v) "headers" = none ∧ get (browser.spread v) "user_agent" = none

/-- The configuration is the one that the form shows: it sends the user agent of the form and the
headers of its rows, and has the fields of the text area.  Numbers are not compared; the browser
rounds them, and the server reads none. -/
structure FeedForm.ShowsConfig (form : FeedForm) (rest fields : List (String × Value)) : Prop where
  userAgent : (optionsOf fields).userAgent =
    if jsTrim form.userAgent = "" then none else some (jsTrim form.userAgent)
  headers : ∀ name text, (name, text) ∈ (optionsOf fields).headers ↔
    name ≠ "" ∧ ∃ row ∈ form.rows, jsTrim row.1 = name ∧ row.2 = text
  rest : SameFields (restOf fields) rest

/-- The feed is what the form shows. -/
structure FeedForm.Shows (fromStr : String → Except String Value) (form : FeedForm)
    (rest : List (String × Value)) (row : StampedExternalSource) : Prop where
  name : row.name = form.name
  sourceUrl : row.sourceUrl = form.sourceUrl
  parserType : row.parserType = form.parserType
  maxAgeDays : row.maxAgeDays.map (fun days : ℤ => (days : ℚ)) = numberValue form.maxAgeDays
  skipBogonFiltering : row.skipBogonFiltering = form.skipBogonFiltering
  config : form.ShowsConfig rest (readConfig fromStr row.parserConfigJson)

/-- No row is lost: none has the name that is no field, and rows of one name have one value. -/
structure FeedForm.LosesNoRow (form : FeedForm) : Prop where
  fields : ∀ row ∈ form.rows, jsTrim row.1 ≠ "__proto__"
  single : ∀ row ∈ form.rows, ∀ row' ∈ form.rows, jsTrim row.1 ≠ "" →
    jsTrim row'.1 = jsTrim row.1 → row'.2 = row.2

/-- There is a configuration to be sent. -/
def FeedForm.Sends (form : FeedForm) (rest : List (String × Value)) : Prop :=
  rest ≠ [] ∨ jsTrim form.userAgent ≠ "" ∨ ∃ row ∈ form.rows, IsHeaderName (jsTrim row.1)

/-- What the form shows outlasts the save of it: the empty parts are not stored either, the number
of the age limit is the one that `parseInt` reads, and no row is lost. -/
structure FeedForm.Survives (fromStr : String → Except String Value) (form : FeedForm)
    (rest : List (String × Value)) (row : StampedExternalSource) : Prop where
  ageCleared : form.maxAgeDays = "" → row.maxAgeDays = none
  ageRead : form.maxAgeDays ≠ "" → ((parseInt form.maxAgeDays).or row.maxAgeDays).map
    (fun days : ℤ => (days : ℚ)) = numberValue form.maxAgeDays
  skipBogonFiltering : form.skipBogonFiltering = none → row.skipBogonFiltering = none
  sent : form.Sends rest → form.LosesNoRow
  unsent : ¬form.Sends rest → form.ShowsConfig rest (readConfig fromStr row.parserConfigJson)

theorem or_eq_left_iff {α : Type} {sent stored : Option α} :
    sent.or stored = sent ↔ (sent = none → stored = none) := by
  cases sent <;> cases stored <;> simp

section Config

variable {form : FeedForm} {rest fields : List (String × Value)}

theorem FeedForm.merged_of_restFields (hrest : form.restFields browser = some rest) :
    form.mergedConfig browser = some (mergedFields rest form.rows form.userAgent) := by
  rw [mergedConfig, buildMergedParserConfig]
  rw [restFields] at hrest
  split at hrest
  · rename_i hempty
    obtain rfl := Option.some.inj hrest
    rw [if_pos hempty]
    rfl
  · rename_i hne
    obtain ⟨v, hparse, hobject⟩ := Option.bind_eq_some_iff.mp hrest
    rw [if_neg hne, hparse]
    cases v <;> cases hobject
    rfl

theorem FeedForm.Plain.restFields (h : form.Plain browser)
    (hrest : form.restFields browser = some rest) :
    get rest "headers" = none ∧ get rest "user_agent" = none := by
  rw [FeedForm.restFields] at hrest
  split at hrest
  · obtain rfl := Option.some.inj hrest
    exact ⟨rfl, rfl⟩
  · obtain ⟨v, hparse, hobject⟩ := Option.bind_eq_some_iff.mp hrest
    have hplain := h v hparse
    cases v <;> cases hobject
    exact hplain

theorem FeedForm.sends_iff :
    form.Sends rest ↔ mergedFields rest form.rows form.userAgent ≠ [] := by
  rw [ne_eq, mergedFields_eq_nil_iff, headersOf_eq_nil_iff, Sends]
  constructor
  · rintro (hrest | hagent | ⟨row, hrow, hname⟩) ⟨hnil, hnone, hblank⟩
    · exact hrest hnil
    · exact hagent hblank
    · exact hnone row hrow hname
  · intro hsome
    by_contra hnothing
    push Not at hnothing
    exact hsome ⟨hnothing.1, hnothing.2.2, hnothing.2.1⟩

/-- The headers of the merge are the last rows. -/
theorem header_mergedFields_iff (hplain : get rest "headers" = none) {name text : String} :
    (∃ hs, get (mergedFields rest form.rows form.userAgent) "headers" = some (.object hs) ∧
        get hs name = some (.string text)) ↔
      IsHeaderName name ∧ lastRow form.rows name = some text := by
  have hheaders : get (mergedFields rest form.rows form.userAgent) "headers" =
      if headersOf form.rows = [] then none else some (.object (headersOf form.rows)) := by
    rw [get_mergedFields]
    by_cases hrows : headersOf form.rows = []
    · simp [hrows, hplain]
    · simp [hrows]
  have hlast : get (headersOf form.rows) name = some (.string text) ↔
      IsHeaderName name ∧ lastRow form.rows name = some text := by
    rw [get_headersOf]
    split
    · rename_i hname
      simp [hname, Option.map_eq_some_iff]
    · rename_i hname
      simp [hname]
  rw [hheaders, ← hlast]
  split
  · rename_i hrows
    rw [hrows]
    constructor
    · rintro ⟨hs, hhs, -⟩
      cases hhs
    · intro hget
      cases hget
  · simp

/-- The last rows are all the rows when none is lost. -/
theorem FeedForm.losesNoRow_iff : form.LosesNoRow ↔ ∀ name text,
    (IsHeaderName name ∧ lastRow form.rows name = some text ↔
      name ≠ "" ∧ ∃ row ∈ form.rows, jsTrim row.1 = name ∧ row.2 = text) := by
  constructor
  · intro h name text
    constructor
    · rintro ⟨hname, hlast⟩
      exact ⟨hname.1, exists_of_lastRow hlast⟩
    · rintro ⟨hname, row, hrow, rfl, rfl⟩
      obtain ⟨text, hlast⟩ := lastRow_isSome hrow
      obtain ⟨last, hmem, hsame, rfl⟩ := exists_of_lastRow hlast
      rw [hlast, h.single row hrow last hmem hname hsame]
      exact ⟨⟨hname, h.fields row hrow⟩, rfl⟩
  · intro h
    constructor
    · intro row hrow hproto
      have hshown := (h "__proto__" row.2).mpr ⟨by decide, row, hrow, hproto, rfl⟩
      exact hshown.1.2 rfl
    · intro row hrow row' hrow' hname hsame
      have hlast := ((h (jsTrim row.1) row.2).mpr ⟨hname, row, hrow, rfl, rfl⟩).2
      have hlast' := ((h (jsTrim row.1) row'.2).mpr ⟨hname, row', hrow', hsame, rfl⟩).2
      exact Option.some.inj (hlast'.symm.trans hlast)

/-- **What is read of a merge** is what the form shows, unless a row is lost. -/
theorem showsConfig_iff (hplain : get rest "headers" = none ∧ get rest "user_agent" = none)
    (hsame : SameFields (mergedFields rest form.rows form.userAgent) fields)
    (hdistinct : Distinct fields) : form.ShowsConfig rest fields ↔ form.LosesNoRow := by
  have hagent : (optionsOf fields).userAgent =
      if jsTrim form.userAgent = "" then none else some (jsTrim form.userAgent) := by
    show (get fields "user_agent").bind Value.asStr = _
    rw [← hsame.bind (fun _ _ h => h.asStr), get_mergedFields]
    by_cases hblank : jsTrim form.userAgent = ""
    · simp [hblank, hplain.2]
    · simp [hblank, Value.asStr]
  have hrest : SameFields (restOf fields) rest := by
    refine sameFields_iff.mpr ?_
    intro name
    have hname := sameFields_iff.mp (SameFields.symm hsame) name
    rw [get_mergedFields] at hname
    rw [get_restOf]
    by_cases hheaders : name = "headers"
    · subst hheaders
      rw [if_pos (Or.inl rfl), hplain.1]
      exact .none
    · by_cases huser : name = "user_agent"
      · subst huser
        rw [if_pos (Or.inr rfl), hplain.2]
        exact .none
      · rw [if_neg fun h => huser h.1, if_neg fun h => hheaders h.1] at hname
        rw [if_neg (not_or.mpr ⟨hheaders, huser⟩)]
        exact hname
  have hheaders : ∀ name text, (name, text) ∈ (optionsOf fields).headers ↔
      IsHeaderName name ∧ lastRow form.rows name = some text := by
    intro name text
    rw [mem_headers_optionsOf hdistinct, ← header_mergedFields_iff hplain.1]
    exact ⟨header_of_sameFields (SameFields.symm hsame), header_of_sameFields hsame⟩
  rw [FeedForm.losesNoRow_iff]
  constructor
  · intro h name text
    rw [← hheaders, h.headers]
  · intro h
    refine ⟨hagent, ?_, hrest⟩
    intro name text
    rw [hheaders, h]

end Config

/-- **When a saved feed is what its form showed.**  Whatever the feed and whatever its form shows, as
long as the text area holds an object without headers and user agent of its own, or nothing: after
an answered save the feed is as shown if and only if what the form showed empty was not stored
either, the age limit is read as it is shown, and no row of the headers is lost. -/
theorem saved_as_shown {fuel : ℕ} {env : Env} {caller : ApiKey} {db s : Database}
    {fault : Option (Fault Sql)} {groupId feedId : Uuid} {form : FeedForm}
    {payload : UpdateFeedPayload} {rest : List (String × Value)}
    (hsaved : form.saved browser = some payload) (hplain : form.Plain browser)
    (hrest : form.restFields browser = some rest) (hunderstood : form.Understood browser fromStr)
    (h : AnsweredIn (handle fuel env caller (.updateFeed groupId feedId payload)) fault db s) :
    ∃ row row', db.externalSources.find? feedId = some row ∧
      s.externalSources.find? feedId = some row' ∧
      (form.Shows fromStr rest row' ↔ form.Survives fromStr rest row) := by
  obtain ⟨row, hrow, hrow'⟩ := find?_of_answered h
  obtain ⟨-, merged, hmerged, rfl⟩ := FeedForm.saved_eq_some browser hsaved
  refine ⟨row, _, hrow, hrow', ?_⟩
  have hmerge := FeedForm.merged_of_restFields hrest
  obtain rfl := Option.some.inj (hmerged.symm.trans hmerge)
  have hage : (form.days.or row.maxAgeDays).map (fun days : ℤ => (days : ℚ)) =
      numberValue form.maxAgeDays ↔ (form.maxAgeDays = "" → row.maxAgeDays = none) ∧
        (form.maxAgeDays ≠ "" → ((parseInt form.maxAgeDays).or row.maxAgeDays).map
          (fun days : ℤ => (days : ℚ)) = numberValue form.maxAgeDays) := by
    rw [FeedForm.days]
    by_cases hempty : form.maxAgeDays = ""
    · have hnone : numberValue "" = none := by decide +kernel
      rw [if_pos hempty, Option.none_or, hempty, hnone, Option.map_eq_none_iff]
      exact ⟨fun hnil => ⟨fun _ => hnil, fun hne => absurd rfl hne⟩, fun hboth => hboth.1 rfl⟩
    · simp [hempty]
  have hconfig : form.ShowsConfig rest (readConfig fromStr
      ((FeedForm.configText browser (mergedFields rest form.rows form.userAgent)).or
        row.parserConfigJson)) ↔ (form.Sends rest → form.LosesNoRow) ∧
        (¬form.Sends rest → form.ShowsConfig rest (readConfig fromStr row.parserConfigJson)) := by
    by_cases hsends : form.Sends rest
    · have hne := FeedForm.sends_iff.mp hsends
      obtain ⟨fields, hread, hsame, hdistinct⟩ := hunderstood _ hmerge hne
      rw [FeedForm.configText, if_neg hne, Option.some_or, readConfig_of_read hread,
        showsConfig_iff (hplain.restFields hrest) hsame hdistinct]
      simp [hsends]
    · have hnil : mergedFields rest form.rows form.userAgent = [] :=
        not_not.mp (mt FeedForm.sends_iff.mpr hsends)
      rw [FeedForm.configText, if_pos hnil, Option.none_or]
      simp [hsends]
  constructor
  · intro hshows
    obtain ⟨hcleared, hread⟩ := hage.mp hshows.maxAgeDays
    obtain ⟨hsent, hunsent⟩ := hconfig.mp hshows.config
    exact ⟨hcleared, hread, or_eq_left_iff.mp hshows.skipBogonFiltering, hsent, hunsent⟩
  · intro hkept
    have hdays := hage.mpr ⟨hkept.ageCleared, hkept.ageRead⟩
    have hshown := hconfig.mpr ⟨hkept.sent, hkept.unsent⟩
    exact ⟨rfl, rfl, rfl, hdays, or_eq_left_iff.mpr hkept.skipBogonFiltering, hshown⟩

end Stored

/-! ### A feed with a key -/

/-- A configuration with one header. -/
def keyFields : List (String × Value) := [("headers", .object [("X-Key", .string "abc")])]

/-- Its text. -/
def keyText : String := "\x7b\"headers\":\x7b\"X-Key\":\"abc\"\x7d\x7d"

/-- A server that reads this text. -/
def readKeyText (text : String) : Except String Value :=
  if text = keyText then .ok (.object keyFields) else .error "another text"

/-- The same text, and that of an empty rest, in a browser. -/
def parseKeyText (text : String) : Option Value :=
  if text = keyText then some (.object keyFields)
  else if text = "\x7b\x7d" then some (.object [])
  else none

/-- A browser for this configuration. -/
def keyBrowser : Browser where
  parse := parseKeyText
  stringify _ := keyText
  stringifyIndented _ := "\x7b\x7d"
  textOf v := v.asStr.getD ""
  textOrEmpty v := v.asStr.getD ""
  spreadOther _ := []

/-- A feed of group 4 with this configuration. -/
def keyFeed : StampedExternalSource :=
  (Api.Env.plain 5).newExternalSource 4
    ⟨"feed", "https://feed", "REGEX_LINE", some keyText, none, none⟩

/-- The database with the feed, and what the Master's call makes of it. -/
def keyDb : Option Database :=
  runEvents serve anyStep .fresh
    [groupCall, .plain 1 5 (.createFeed 4
      ⟨"feed", "https://feed", "REGEX_LINE", some keyText, none, none⟩)]

/-- The Master's save of feed 5. -/
def keySave (payload : UpdateFeedPayload) : Handler Reply :=
  handle 8 (.plain 6) ((Env.plain 1).masterKey "k" "s") (.updateFeed 4 5 payload)

theorem distinct_keyFields : Distinct keyFields := by
  refine ⟨by decide, fun name hs hget => ?_⟩
  have hmem := mem_of_get_eq_some hget
  obtain ⟨-, hv⟩ := Prod.mk.inj (List.mem_singleton.mp hmem)
  obtain rfl := Value.object.inj hv
  decide

/-- The form of the feed with these rows of headers. -/
def keyFormWith (rows : List (String × String)) : FeedForm :=
  { showFeedForm keyBrowser keyFeed with rows := rows }

/-- What the form submits with this configuration. -/
def keyPayload (config : Option String) : UpdateFeedPayload :=
  ⟨some "feed", some "https://feed", some "REGEX_LINE", config, none, none⟩

theorem parse_blank : keyBrowser.parse "" = none := by
  show parseKeyText "" = none
  rw [parseKeyText, if_neg (by decide), if_neg (by decide)]

/-- Its text area is empty. -/
theorem restFields_keyForm (rows : List (String × String)) :
    (keyFormWith rows).Plain keyBrowser ∧ (keyFormWith rows).restFields keyBrowser = some [] := by
  have hblank : (keyFormWith rows).parserConfigJson = "" := by
    show (splitParserConfig keyBrowser keyFeed.parserConfigJson).rest = ""
    decide +kernel
  constructor
  · intro v hv
    rw [hblank, parse_blank] at hv
    cases hv
  · rw [FeedForm.restFields, if_pos hblank]

/-- The row of the header is put together to the configuration. -/
theorem mergedFields_key {name : String} (hname : jsTrim name = "X-Key") :
    mergedFields [] [(name, "abc")] "" = keyFields := by
  have hempty : jsTrim "" = "" := by decide
  have hkey : IsHeaderName "X-Key" := by decide
  have hheaders : headersOf [(name, "abc")] = [("X-Key", .string "abc")] := by
    rw [headersOf, List.foldl_cons, List.foldl_nil, setHeader, hname, if_pos hkey]
    rfl
  rw [mergedFields, hheaders, hempty, if_pos rfl, if_neg (List.cons_ne_nil _ _)]
  rfl

theorem userAgent_keyForm (rows : List (String × String)) :
    (keyFormWith rows).userAgent = "" := by
  show inputValue (splitParserConfig keyBrowser keyFeed.parserConfigJson).userAgent = ""
  decide +kernel

/-- The form is saved with its header, and the feed is as shown; it is saved without, and the header
stays. -/
theorem saved_as_shown_of_key :
    ∃ db s s' row row', keyDb = some db ∧
      AnsweredIn (keySave (keyPayload (some keyText))) none db s ∧
      s.externalSources.find? 5 = some row ∧
      (keyFormWith [("X-Key", "abc")]).Shows readKeyText [] row ∧
      AnsweredIn (keySave (keyPayload none)) none db s' ∧
      s'.externalSources.find? 5 = some row' ∧ row'.parserConfigJson = some keyText ∧
      ¬(keyFormWith []).Shows readKeyText [] row' := by
  have hsaved : (keyFormWith [("X-Key", "abc")]).saved keyBrowser =
        some (keyPayload (some keyText)) ∧
      (keyFormWith []).saved keyBrowser = some (keyPayload none) := by decide +kernel
  have hfacts : (keyDb.map fun db => decide (db.externalSources.find? 5 = some keyFeed ∧
      (Prog.run .dbError (keySave (keyPayload (some keyText))) none db).1 =
        .answered (.feed keyFeed) ∧
      (Prog.run .dbError (keySave (keyPayload none)) none db).1 =
        .answered (.feed keyFeed))) = some true := by
    decide +kernel
  obtain ⟨db, hdb, hall⟩ := Option.map_eq_some_iff.mp hfacts
  obtain ⟨hrow, hreply, hreply'⟩ := of_decide_eq_true hall
  obtain ⟨s₁, hanswered⟩ : ∃ s, AnsweredIn (keySave (keyPayload (some keyText))) none db s :=
    ⟨_, _, hreply, rfl⟩
  obtain ⟨s₂, hanswered'⟩ : ∃ s, AnsweredIn (keySave (keyPayload none)) none db s :=
    ⟨_, _, hreply', rfl⟩
  have hread : readConfig readKeyText keyFeed.parserConfigJson = keyFields :=
    readConfig_of_read (if_pos rfl)
  have hname : jsTrim "X-Key" = "X-Key" := by decide
  have hheader : IsHeaderName "X-Key" := by decide
  have hunderstood : ∀ rows, (∀ merged, mergedFields [] rows "" = merged → merged ≠ [] →
      merged = keyFields) → (keyFormWith rows).Understood keyBrowser readKeyText := by
    intro rows hmerge merged hmerged hne
    rw [FeedForm.merged_of_restFields (restFields_keyForm rows).2, userAgent_keyForm] at hmerged
    obtain rfl := hmerge merged (Option.some.inj hmerged) hne
    exact ⟨keyFields, if_pos rfl, .refl _, distinct_keyFields⟩
  obtain ⟨old, row, hold, hfound, hshows⟩ :=
    saved_as_shown hsaved.1 (restFields_keyForm _).1 (restFields_keyForm _).2
      (hunderstood _ fun merged hmerged _ => hmerged.symm.trans (mergedFields_key hname)) hanswered
  obtain ⟨old', row', hold', hfound', hshows'⟩ :=
    saved_as_shown hsaved.2 (restFields_keyForm _).1 (restFields_keyForm _).2
      (hunderstood _ fun merged hmerged hne => absurd hmerged.symm hne) hanswered'
  obtain rfl := Option.some.inj (hrow.symm.trans hold)
  obtain rfl := Option.some.inj (hrow.symm.trans hold')
  obtain ⟨old, hold, hnew⟩ := find?_of_answered hanswered'
  obtain rfl := Option.some.inj (hrow.symm.trans hold)
  obtain rfl := Option.some.inj (hfound'.symm.trans hnew)
  refine ⟨db, s₁, s₂, row, _, hdb, hanswered, hfound, hshows.mpr ?_, hanswered', hfound', rfl, ?_⟩
  · refine ⟨fun _ => rfl, fun hne => absurd rfl hne, fun _ => rfl, fun _ => ⟨?_, ?_⟩, ?_⟩
    · exact List.forall_mem_singleton.mpr (hname.trans_ne hheader.2)
    · intro row hmem row' hmem' _ _
      rw [List.mem_singleton.mp hmem, List.mem_singleton.mp hmem']
    · intro hnothing
      exact absurd (Or.inr (Or.inr ⟨_, List.mem_singleton_self _, hname ▸ hheader⟩)) hnothing
  · intro h
    have hnothing : ¬(keyFormWith []).Sends [] := by
      rintro (hrest | hagent | ⟨row, hmem, -⟩)
      · exact hrest rfl
      · rw [userAgent_keyForm] at hagent
        exact hagent (by decide)
      · cases hmem
    have hstays := ((hshows'.mp h).unsent hnothing).headers "X-Key" "abc"
    rw [hread] at hstays
    obtain ⟨-, row, hmem, -⟩ := hstays.mp (by decide)
    cases hmem

end SimplyIpSync.Dashboard
