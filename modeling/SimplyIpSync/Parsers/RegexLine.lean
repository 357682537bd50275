import SimplyIpSync.Jobs.ExternalIngestion
import SimplyIpSync.Lib.Regex
import SimplyIpSync.Parsers.Normalize

/-!
# The `REGEX_LINE` parser (`src/parsers/regex_line.rs`)

Line by line: a comment is cut off, a line of a netblock and a prefix length gives one network, and
every other line is searched for the pattern of an address.  The pattern has no boundaries: it is
found inside longer words, and its digit limits end a match in the middle of a number.  What is
found is emitted if `normalize_ip_or_cidr` takes it.

`emissions` says of each address where it came from.
-/

namespace SimplyIpSync.Parsers.RegexLine

open SimplyIpSync.Crypto SimplyIpSync.Text SimplyIpSync.Net SimplyIpSync.Regex
open SimplyIpSync.Jobs.ExternalIngestion

/-! ### The pattern -/

/-- `[0-9]`. -/
def isDigit (c : Char) : Bool := '0' ≤ c && c ≤ '9'

/-- `[0-9a-fA-F:]`. -/
def isHexColon (c : Char) : Bool :=
  isDigit c || ('a' ≤ c && c ≤ 'f') || ('A' ≤ c && c ≤ 'F') || c == ':'

/-- The class of one given character. -/
def isOne (c x : Char) : Bool := x == c

/-- One given character. -/
def one (c : Char) : Pattern Char := .rep (isOne c) 1 (some 1)

/-- `[0-9]{1,n}`. -/
def digits (n : ℕ) : Pattern Char := .rep isDigit 1 (some n)

/-- `(?:/[0-9]{1,n})?`. -/
def prefixPattern (n : ℕ) : Pattern Char := .opt (.seq (one '/') (digits n))

/-- Four numbers with dots between them, and a prefix length. -/
def ipv4Pattern : Pattern Char :=
  .seq (digits 3) (.seq (one '.') (.seq (digits 3) (.seq (one '.') (.seq (digits 3)
    (.seq (one '.') (.seq (digits 3) (prefixPattern 2)))))))

/-- Hexadecimal digits and colons, and a prefix length. -/
def ipv6Pattern : Pattern Char := .seq (.rep isHexColon 2 none) (prefixPattern 3)

/-- `ip_token_pattern`. -/
def ipTokenPattern : Pattern Char := .alt ipv4Pattern ipv6Pattern

/-! ### The parser -/

/-- `str::find("//")`; the length of the text where there is none. -/
def findSlashes : List Char → ℕ
  | [] => 0
  | c :: rest => if c = '/' ∧ rest.head? = some '/' then 0 else findSlashes rest + 1

/-- `strip_inline_comment`. -/
def stripInlineComment (line : List Char) : List Char :=
  line.take (min (min (line.findIdx (· = '#')) (line.findIdx (· = ';'))) (findSlashes line))

/-- The prefix column of the fields of a netblock line. -/
def prefixField : List (List Char) → Option (List Char)
  | [_, field] => some field
  | _ :: _ :: field :: _ => some field
  | _ => none

/-- `netblock_and_prefix`. -/
def netblockAndPrefix (trimmed : List Char) : Option (List Char) := do
  let fields := splitWhitespace trimmed
  let base ← fields.head?
  if (parseIpAddr (utf8 base)).isNone then none
  else
    let prefixText ← prefixField fields
    let len ← parseU8 prefixText
    normalizeIpOrCidr (base ++ '/' :: showDec len)

/-- What the scan of a line emits. -/
def candidates (trimmed : List Char) : List (List Char) :=
  (findIter ipTokenPattern trimmed).filterMap fun m => normalizeIpOrCidr m.text

/-- What a line is scanned as. -/
def content (line : List Char) : List Char := trimText (stripInlineComment line)

/-- The body of the line loop. -/
def parseLine (line : List Char) : List (List Char) :=
  let trimmed := content line
  if trimmed = [] then []
  else
    match netblockAndPrefix trimmed with
    | some combined => [combined]
    | none => candidates trimmed

/-- A record of an address, without a time. -/
def toRecord (address : List Char) : ParsedRecord := ⟨String.ofList address, none⟩

/-- `RegexLineParser::parse`; it never fails, and reads no configuration. -/
def parse (raw : Bytes) (_config : Option String) : Except ParseError (List ParsedRecord) :=
  .ok (((lines (fromUtf8Lossy raw)).flatMap parseLine).map toRecord)

/-- A comment, two addresses on a line, and a netblock with its prefix column. -/
example : parse (utf8 "1.2.3.4 # seen\n5.6.7.0/24 2606:4700::1\n45.74.28.0\t45.74.28.255\t24\n".toList)
    none = .ok [⟨"1.2.3.4", none⟩, ⟨"5.6.7.0/24", none⟩, ⟨"2606:4700::1", none⟩,
      ⟨"45.74.28.0/24", none⟩] := by
  decide +kernel

end SimplyIpSync.Parsers.RegexLine
