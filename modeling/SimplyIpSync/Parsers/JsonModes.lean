import SimplyIpSync.Parsers.Locality

/-!
# The two modes of `JSON_PATH`

One list of values may come as an array somewhere in a document or as one JSON text on each line.
Both modes hand the values to `extract_records`, so they give the same records.  The line mode gets
at the values by way of the printer, of which the parser knows nothing: `PrintsCompactly`.
-/

namespace SimplyIpSync.Parsers.JsonPath

open SimplyIpSync.Crypto SimplyIpSync.Text SimplyIpSync.Jobs.ExternalIngestion

/-- `serde_json::to_string` on these values: what it prints reads as the value, is not empty, stands
on one line, and has no blanks at its ends. -/
structure PrintsCompactly (fromStr : String → Except String Value) (print : Value → String)
    (values : List Value) : Prop where
  reads : ∀ value ∈ values, fromStr (print value) = .ok value
  nonempty : ∀ value ∈ values, print value ≠ ""
  oneLine : ∀ value ∈ values, '\n' ∉ (print value).toList
  trimmed : ∀ value ∈ values, trimText (print value).toList = (print value).toList

/-- Each value on its own line; the last one may go without its line break. -/
def IsLinesOf (print : Value → String) (values : List Value) (raw : Bytes) : Prop :=
  raw = utf8 (values.flatMap fun value => (print value).toList ++ ['\n']) ∨
    raw = utf8 (['\n'].intercalate (values.map fun value => (print value).toList))

/-- The document holds the list at the array path, or is the list where there is no path. -/
def HoldsAt (root : Value) (arrayPath : Option String) (values : List Value) : Prop :=
  match arrayPath with
  | none => root = .array values
  | some path => walkDottedPath root path = some (.array values)

variable {readers : Readers} {config : JsonPathConfig} {print : Value → String}
  {values : List Value} {root : Value}

theorem itemsOf_of_holdsAt (h : HoldsAt root config.arrayPath values) :
    itemsOf root config = .ok values := by
  rw [itemsOf, arrayOf]
  revert h
  cases config.arrayPath with
  | none =>
      rintro rfl
      rfl
  | some path =>
      intro h
      have hwalk : walkDottedPath root path = some (.array values) := h
      simp only [hwalk, Value.asArray]

/-! ### The lines -/

/-- Texts on one line each read as themselves. -/
theorem flatMap_lines_terminated {α : Type*} {read : List Char → List α}
    (hcr : ∀ line, read (stripCr line) = read line) {texts : List (List Char)}
    (hlines : ∀ text ∈ texts, '\n' ∉ text) :
    (lines (texts.flatMap (· ++ ['\n']))).flatMap read = texts.flatMap read := by
  induction texts with
  | nil => rfl
  | cons text rest ih =>
      have hrest := ih fun t ht => hlines t (List.mem_cons_of_mem text ht)
      rw [List.flatMap_cons, List.append_assoc, List.singleton_append,
        lines_cons (hlines text List.mem_cons_self), List.flatMap_cons, List.flatMap_cons, hcr,
        hrest]

theorem intercalate_concat {texts : List (List Char)} (hne : texts ≠ []) :
    ['\n'].intercalate texts ++ ['\n'] = texts.flatMap (· ++ ['\n']) := by
  induction texts with
  | nil => exact absurd rfl hne
  | cons text rest ih =>
      cases rest with
      | nil => rw [List.intercalate_singleton, List.flatMap_singleton]
      | cons text' rest =>
          rw [List.intercalate_cons_cons, List.append_assoc, ih (List.cons_ne_nil _ _)]
          rfl

/-- The line break behind the last line does not matter. -/
theorem flatMap_lines_joined {α : Type*} {read : List Char → List α}
    (hcr : ∀ line, read (stripCr line) = read line) (hempty : read [] = [])
    {texts : List (List Char)} (hlines : ∀ text ∈ texts, '\n' ∉ text) :
    (lines (['\n'].intercalate texts)).flatMap read = texts.flatMap read := by
  by_cases hne : texts = []
  · subst hne
    rfl
  · have hbreak := flatMap_lines_append hcr hempty (['\n'].intercalate texts) []
    have hnil : (lines []).flatMap read = [] := rfl
    rw [intercalate_concat hne, flatMap_lines_terminated hcr hlines, hnil, List.append_nil]
      at hbreak
    exact hbreak.symm

/-- A printed value on a line gives the record of the value. -/
theorem lineRecords_print (hprints : PrintsCompactly readers.fromStr print values) {value : Value}
    (hvalue : value ∈ values) :
    lineRecords readers config (print value).toList = (recordOf readers config value).toList := by
  have hne : (print value).toList ≠ [] := fun h =>
    hprints.nonempty value hvalue (String.toList_eq_nil_iff.mp h)
  rw [lineRecords, hprints.trimmed value hvalue, if_neg hne, String.ofList_toList,
    hprints.reads value hvalue]
  rfl

/-- **The line mode on printed values** extracts the records of the values. -/
theorem parseJsonl_lines (hprints : PrintsCompactly readers.fromStr print values) {raw : Bytes}
    (hraw : IsLinesOf print values raw) :
    parseJsonl readers raw config = .ok (extractRecords readers values config) := by
  have hlines : ∀ text ∈ values.map fun value => (print value).toList, '\n' ∉ text := by
    intro text htext
    obtain ⟨value, hvalue, rfl⟩ := List.mem_map.mp htext
    exact hprints.oneLine value hvalue
  have hread : (values.map fun value => (print value).toList).flatMap (lineRecords readers config) =
      extractRecords readers values config := by
    rw [List.flatMap_map, extractRecords, List.filterMap_eq_flatMap_toList]
    exact List.flatMap_congr fun value hvalue => lineRecords_print hprints hvalue
  rw [parseJsonl_eq]
  rcases hraw with rfl | rfl
  · have htext : (values.flatMap fun value => (print value).toList ++ ['\n']) =
        (values.map fun value => (print value).toList).flatMap (· ++ ['\n']) := by
      rw [List.flatMap_map]
    rw [htext, fromUtf8Lossy_utf8, flatMap_lines_terminated lineRecords_stripCr hlines, hread]
  · rw [fromUtf8Lossy_utf8, flatMap_lines_joined lineRecords_stripCr rfl hlines, hread]

/-- The records depend on the selectors of the configuration alone. -/
theorem extractRecords_congr {config' : JsonPathConfig}
    (htarget : config'.targetAddress = config.targetAddress)
    (hlast : config'.lastSeenAt = config.lastSeenAt) :
    extractRecords readers values config' = extractRecords readers values config := by
  have hrecord : recordOf readers config' = recordOf readers config := by
    funext item
    rw [recordOf, recordOf, htarget, hlast]
  rw [extractRecords, extractRecords, hrecord]

/-- **The two modes agree**: on any values, under any two accepted configurations with the same
selectors, one of each mode. -/
theorem modes_agree (readers : Readers) (print : Value → String) (values : List Value)
    (hprints : PrintsCompactly readers.fromStr print values)
    (lineConfigStr documentConfigStr : String) (lineConfig documentConfig : JsonPathConfig)
    (hlineConfig : JsonPathConfig.parse readers.fromStr lineConfigStr = .ok lineConfig)
    (hdocumentConfig : JsonPathConfig.parse readers.fromStr documentConfigStr = .ok documentConfig)
    (hjsonl : lineConfig.jsonl = true) (hdocument : documentConfig.jsonl = false)
    (htarget : documentConfig.targetAddress = lineConfig.targetAddress)
    (hlast : documentConfig.lastSeenAt = lineConfig.lastSeenAt)
    (rawLines rawDocument : Bytes) (hlines : IsLinesOf print values rawLines) (root : Value)
    (hroot : readers.fromSlice rawDocument = .ok root)
    (hholds : HoldsAt root documentConfig.arrayPath values) :
    parse readers rawLines (some lineConfigStr) =
        .ok (extractRecords readers values lineConfig) ∧
      parse readers rawDocument (some documentConfigStr) =
        parse readers rawLines (some lineConfigStr) := by
  have hparsed : parse readers rawLines (some lineConfigStr) =
      .ok (extractRecords readers values lineConfig) := by
    rw [parse_jsonl hlineConfig hjsonl, parseJsonl_lines hprints hlines]
  refine ⟨hparsed, ?_⟩
  rw [parse_document hdocumentConfig hdocument hroot (itemsOf_of_holdsAt hholds), hparsed,
    extractRecords_congr htarget hlast]

/-- An item of a feed of reports. -/
def reportText : String := "\x7b\"ip\":\"8.8.8.8\"\x7d"

/-- The configuration of the line mode, and of a document under a path. -/
def reportsByLine : String := "\x7b\"ip\":\"$.ip\",\"jsonl\":true\x7d"

def reportsInDocument : String := "\x7b\"ip\":\"$.ip\",\"array_path\":\"data.reports\"\x7d"

/-- A report, an item without a field, and one that is no object. -/
def threeItems : List Value := [.object [("ip", .string "8.8.8.8")], .object [], .null]

def reportsDocument : Bytes :=
  utf8 "\x7b\"data\":\x7b\"reports\":[\x7b\"ip\":\"8.8.8.8\"\x7d,\x7b\x7d,null]\x7d\x7d".toList

/-- The printer and the readers, on these texts. -/
def printItem : Value → String
  | .object [] => "\x7b\x7d"
  | .object _ => reportText
  | _ => "null"

def reportReaders : Readers where
  fromStr text :=
    if text = reportsByLine then .ok (.object [("ip", .string "$.ip"), ("jsonl", .bool true)])
    else if text = reportsInDocument then
      .ok (.object [("ip", .string "$.ip"), ("array_path", .string "data.reports")])
    else if text = reportText then .ok (.object [("ip", .string "8.8.8.8")])
    else if text = "\x7b\x7d" then .ok (.object [])
    else if text = "null" then .ok .null
    else .error "expected value at line 1 column 1"
  fromSlice raw :=
    if raw = reportsDocument then
      .ok (.object [("data", .object [("reports", .array threeItems)])])
    else .error "expected value at line 1 column 1"
  parseFromRfc3339 _ := none
  parseFromStr _ := none

theorem printsCompactly_threeItems :
    PrintsCompactly reportReaders.fromStr printItem threeItems where
  reads := by
    intro value hvalue
    fin_cases hvalue <;> rfl
  nonempty := by decide +kernel
  oneLine := by decide +kernel
  trimmed := by decide +kernel

theorem modes_agree_threeItems :
    parse reportReaders (utf8 (threeItems.flatMap fun value => (printItem value).toList ++ ['\n']))
        (some reportsByLine) =
      .ok (extractRecords reportReaders threeItems ⟨none, ["ip"], none, true⟩) ∧
    parse reportReaders reportsDocument (some reportsInDocument) =
      parse reportReaders
        (utf8 (threeItems.flatMap fun value => (printItem value).toList ++ ['\n']))
        (some reportsByLine) :=
  modes_agree reportReaders printItem threeItems printsCompactly_threeItems reportsByLine
    reportsInDocument ⟨none, ["ip"], none, true⟩ ⟨some "data.reports", ["ip"], none, false⟩
    (by decide +kernel) (by decide +kernel) rfl rfl rfl rfl _ reportsDocument (.inl rfl)
    (.object [("data", .object [("reports", .array threeItems)])]) rfl rfl

end SimplyIpSync.Parsers.JsonPath
