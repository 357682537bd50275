import SimplyIpSync.Lossy
import SimplyIpSync.Parsers.JsonFeed
import SimplyIpSync.Parsers.RegexLine

/-!
# Feeds that are read line by line

Both parsers of lines decode the whole feed before they cut it into lines, and both trim a line
before they read it.  A line break cuts the decoding, and the carriage return before one is trimmed
away, so a feed reads as its parts on both sides of any line break.
-/

namespace SimplyIpSync.Parsers

open SimplyIpSync.Crypto SimplyIpSync.Text SimplyIpSync.Jobs.ExternalIngestion

/-! ### Carriage returns -/

/-- A blank behind a text is trimmed away. -/
theorem trimText_concat {c : Char} (hc : isWhiteSpace c = true) (text : List Char) :
    trimText (text ++ [c]) = trimText text :=
  Trim.trimBy_append (List.forall_mem_nil _) (List.forall_mem_singleton.mpr hc) text

/-- A line without the carriage return at its end, if it has one. -/
theorem stripCr_cases (line : List Char) : stripCr line = line ∨ line = stripCr line ++ ['\r'] := by
  rw [stripCr]
  split
  case isTrue hcr =>
    obtain ⟨front, rfl⟩ := List.getLast?_eq_some_iff.mp hcr
    exact .inr (by rw [List.dropLast_concat])
  case isFalse => exact .inl rfl

theorem trimText_stripCr (line : List Char) : trimText (stripCr line) = trimText line := by
  rcases stripCr_cases line with heq | heq
  · rw [heq]
  · conv_rhs => rw [heq]
    rw [trimText_concat (by decide)]

namespace RegexLine

/-- A search in a line goes as far as the line does, or finds nothing in a longer one either. -/
def SameCut (cut cut' length : ℕ) : Prop :=
  (cut < length ∧ cut' = cut) ∨ (cut = length ∧ cut' = length + 1)

theorem SameCut.min {cut₁ cut₁' cut₂ cut₂' length : ℕ} (h₁ : SameCut cut₁ cut₁' length)
    (h₂ : SameCut cut₂ cut₂' length) :
    SameCut (min cut₁ cut₂) (min cut₁' cut₂') length := by
  unfold SameCut at *
  omega

theorem sameCut_findIdx {p : Char → Bool} {c : Char} (hc : p c = false) (line : List Char) :
    SameCut (line.findIdx p) ((line ++ [c]).findIdx p) line.length := by
  rw [List.findIdx_append]
  by_cases hfound : line.findIdx p < line.length
  · exact .inl ⟨hfound, if_pos hfound⟩
  · refine .inr ⟨le_antisymm List.findIdx_le_length (not_lt.mp hfound), ?_⟩
    rw [if_neg hfound, List.findIdx_singleton, hc]
    exact Nat.add_comm 1 _

theorem sameCut_findSlashes {c : Char} (hc : c ≠ '/') (line : List Char) :
    SameCut (findSlashes line) (findSlashes (line ++ [c])) line.length := by
  induction line with
  | nil => exact .inr ⟨rfl, by simp [findSlashes, hc]⟩
  | cons x rest ih =>
      have hhead : ((rest ++ [c]).head? = some '/') ↔ rest.head? = some '/' := by
        cases rest with
        | nil => simp [hc]
        | cons y rest => rfl
      rw [List.cons_append, findSlashes, findSlashes, List.length_cons]
      simp only [hhead]
      by_cases hslashes : x = '/' ∧ rest.head? = some '/'
      · rw [if_pos hslashes, if_pos hslashes]
        exact .inl ⟨Nat.succ_pos _, rfl⟩
      · rw [if_neg hslashes, if_neg hslashes]
        unfold SameCut at *
        omega

/-- The carriage return is cut off with a comment, or else trimmed away. -/
theorem content_stripCr (line : List Char) : content (stripCr line) = content line := by
  rcases stripCr_cases line with heq | heq
  · rw [heq]
  · conv_rhs => rw [heq]
    generalize stripCr line = front
    have hcut := ((sameCut_findIdx (p := (· = '#')) (c := '\r') (by decide) front).min
      (sameCut_findIdx (p := (· = ';')) (c := '\r') (by decide) front)).min
      (sameCut_findSlashes (c := '\r') (by decide) front)
    rw [content, content, stripInlineComment, stripInlineComment]
    rcases hcut with ⟨hfound, hsame⟩ | ⟨hnone, hnone'⟩
    · rw [hsame, List.take_append_of_le_length hfound.le]
    · rw [hnone, hnone', List.take_length, ← trimText_concat (c := '\r') (by decide) front,
        List.take_of_length_le (by simp)]

theorem parseLine_stripCr (line : List Char) : parseLine (stripCr line) = parseLine line := by
  rw [parseLine, parseLine, content_stripCr]

/-- The records of a feed of lines. -/
def records (raw : Bytes) : List ParsedRecord :=
  ((lines (fromUtf8Lossy raw)).flatMap parseLine).map toRecord

theorem records_lineBreak (a b : Bytes) : records (a ++ 10 :: b) = records a ++ records b := by
  rw [records, fromUtf8Lossy_lineBreak, flatMap_lines_append parseLine_stripCr rfl, List.map_append,
    records, records]

end RegexLine

namespace JsonPath

variable {readers : Readers} {config : JsonPathConfig}

theorem lineRecords_stripCr (line : List Char) :
    lineRecords readers config (stripCr line) = lineRecords readers config line := by
  rw [lineRecords, lineRecords, trimText_stripCr]

/-- The records of a feed of JSON texts. -/
def records (readers : Readers) (config : JsonPathConfig) (raw : Bytes) : List ParsedRecord :=
  (lines (fromUtf8Lossy raw)).flatMap (lineRecords readers config)

theorem records_lineBreak (a b : Bytes) :
    records readers config (a ++ 10 :: b) =
      records readers config a ++ records readers config b := by
  rw [records, fromUtf8Lossy_lineBreak, flatMap_lines_append lineRecords_stripCr rfl, records,
    records]

end JsonPath

/-! ### Both parsers -/

/-- A parser that never fails, and reads a feed as its parts on both sides of a line break; so it
reads each line as if it stood alone. -/
def LineByLine (parse : Bytes → Except ParseError (List ParsedRecord)) : Prop :=
  ∃ records : Bytes → List ParsedRecord, (∀ raw, parse raw = .ok (records raw)) ∧
    (∀ a b, records (a ++ 10 :: b) = records a ++ records b) ∧
    ∀ rawLines : List Bytes, records ([10].intercalate rawLines) = rawLines.flatMap records

/-- The law for one line break gives it for all. -/
theorem lineByLine_of_lineBreak {parse : Bytes → Except ParseError (List ParsedRecord)}
    {records : Bytes → List ParsedRecord} (hparse : ∀ raw, parse raw = .ok (records raw))
    (hempty : records [] = [])
    (hbreak : ∀ a b, records (a ++ 10 :: b) = records a ++ records b) : LineByLine parse := by
  refine ⟨records, hparse, hbreak, fun rawLines => ?_⟩
  induction rawLines with
  | nil => exact hempty
  | cons line rest ih =>
      cases rest with
      | nil => rw [List.intercalate_singleton, List.flatMap_singleton]
      | cons line' rest =>
          rw [List.intercalate_cons_cons, List.append_assoc, List.singleton_append, hbreak, ih]
          rfl

/-- **Line-based parsing is local**: of `REGEX_LINE` under any configuration, and of `JSON_PATH`
under any accepted one in the line mode. -/
theorem line_parsers_local (readers : JsonPath.Readers) :
    (∀ config, LineByLine fun raw => RegexLine.parse raw config) ∧
    ∀ configStr config, JsonPath.JsonPathConfig.parse readers.fromStr configStr = .ok config →
      config.jsonl = true → LineByLine fun raw => JsonPath.parse readers raw (some configStr) := by
  constructor
  · intro config
    have hparse : ∀ raw, RegexLine.parse raw config = .ok (RegexLine.records raw) := fun _ => rfl
    exact lineByLine_of_lineBreak hparse rfl RegexLine.records_lineBreak
  · intro configStr config hconfig hjsonl
    have hparse : ∀ raw, JsonPath.parse readers raw (some configStr) =
        .ok (JsonPath.records readers config raw) := by
      intro raw
      rw [JsonPath.parse_jsonl hconfig hjsonl, JsonPath.parseJsonl_eq, JsonPath.records]
    exact lineByLine_of_lineBreak hparse rfl JsonPath.records_lineBreak

/-- The line mode, of a list of networks. -/
def dropConfig : String := "\x7b\"ip\":\"$.cidr\",\"jsonl\":true\x7d"

/-- A line of such a list. -/
def dropLine : String := "\x7b\"cidr\":\"1.10.16.0/20\"\x7d"

/-- Readers that know one configuration and one line. -/
def dropReaders : JsonPath.Readers where
  fromStr text :=
    if text = dropConfig then .ok (.object [("ip", .string "$.cidr"), ("jsonl", .bool true)])
    else if text = dropLine then .ok (.object [("cidr", .string "1.10.16.0/20")])
    else .error "expected value at line 1 column 1"
  fromSlice _ := .error "expected value at line 1 column 1"
  parseFromRfc3339 _ := none
  parseFromStr _ := none

theorem line_parsers_local_drop :
    LineByLine fun raw => JsonPath.parse dropReaders raw (some dropConfig) :=
  (line_parsers_local dropReaders).2 dropConfig ⟨none, ["cidr"], none, true⟩ (by decide +kernel) rfl

/-- A character cut off before the line break spoils its own line only. -/
example : JsonPath.parse dropReaders
    (utf8 dropLine.toList ++ 10 :: 0xE2 :: 0x98 :: 10 :: utf8 dropLine.toList ++ [13, 10])
    (some dropConfig) = .ok [⟨"1.10.16.0/20", none⟩, ⟨"1.10.16.0/20", none⟩] := by
  decide +kernel

end SimplyIpSync.Parsers
