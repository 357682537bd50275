import SimplyIpSync.Parsers.Shapes

/-!
# Words and what is found in them

A token is a maximal run of letters, digits, `_`, `.`, `:` and `/`.  The pattern takes only such
characters, so the scan of a line is the scan of its tokens.  It emits nothing but tokens exactly
where each token of a scanned line is one piece, or of the pieces it is cut into none is an address.
A word such as `std::vec` is neither.
-/

namespace SimplyIpSync.Parsers.RegexLine

open SimplyIpSync.Crypto SimplyIpSync.Text SimplyIpSync.Net SimplyIpSync.Regex

/-! ### Origins -/

/-- Where an emitted address comes from: two columns of a netblock line, or a match of its scan. -/
inductive Origin
  | netblock (base prefixText : List Char)
  | candidate (m : Match Char)
  deriving DecidableEq, Repr

/-- An address the parser emits, with the stripped line it stands in and its origin. -/
structure Emission where
  line : List Char
  origin : Origin
  address : List Char
  deriving DecidableEq, Repr

/-- The origin of a netblock line. -/
def netblockOrigin (trimmed : List Char) : Origin :=
  .netblock ((splitWhitespace trimmed).head?.getD [])
    ((prefixField (splitWhitespace trimmed)).getD [])

/-- What a line emits, with the origins. -/
def emissionsOfLine (line : List Char) : List Emission :=
  let trimmed := content line
  if trimmed = [] then []
  else
    match netblockAndPrefix trimmed with
    | some combined => [⟨trimmed, netblockOrigin trimmed, combined⟩]
    | none => (findIter ipTokenPattern trimmed).filterMap fun m =>
        (normalizeIpOrCidr m.text).map fun address => ⟨trimmed, .candidate m, address⟩

/-- What a text emits, with the origins. -/
def emissions (text : List Char) : List Emission := (lines text).flatMap emissionsOfLine

theorem map_emissionsOfLine (line : List Char) :
    (emissionsOfLine line).map Emission.address = parseLine line := by
  rw [emissionsOfLine, parseLine]
  split
  · rfl
  · cases netblockAndPrefix (content line) with
    | some combined => rfl
    | none =>
        simp only
        rw [List.map_filterMap, candidates]
        refine List.filterMap_congr fun m _ => ?_
        rw [Option.map_map]
        exact congrFun Option.map_id (normalizeIpOrCidr m.text)

/-- The parser emits these addresses. -/
theorem parse_eq_emissions (raw : Bytes) (config : Option String) :
    parse raw config =
      .ok ((emissions (fromUtf8Lossy raw)).map fun e => toRecord e.address) := by
  rw [parse, emissions, List.map_flatMap, List.map_flatMap]
  congr 1
  refine List.flatMap_congr fun line _ => ?_
  rw [← map_emissionsOfLine, List.map_map]
  rfl

/-! ### Tokens -/

/-- A notion of letters and digits, with those of ASCII among them. -/
structure Alphabet where
  isAlphanumeric : Char → Bool
  ascii : ∀ c, ('0' ≤ c ∧ c ≤ '9') ∨ ('a' ≤ c ∧ c ≤ 'z') ∨ ('A' ≤ c ∧ c ≤ 'Z') →
    isAlphanumeric c = true

/-- The letters and digits of ASCII alone. -/
def asciiAlphabet : Alphabet where
  isAlphanumeric c := ('0' ≤ c ∧ c ≤ '9') ∨ ('a' ≤ c ∧ c ≤ 'z') ∨ ('A' ≤ c ∧ c ≤ 'Z')
  ascii _ h := decide_eq_true h

/-- A character of a token. -/
def IsTokenChar (letters : Alphabet) (c : Char) : Prop :=
  letters.isAlphanumeric c = true ∨ c = '_' ∨ c = '.' ∨ c = ':' ∨ c = '/'

variable (letters : Alphabet)

theorem isTokenChar_of_isDigit {c : Char} (h : isDigit c = true) : IsTokenChar letters c := by
  rw [isDigit, Bool.and_eq_true, decide_eq_true_eq, decide_eq_true_eq] at h
  exact .inl (letters.ascii c (.inl h))

theorem isTokenChar_of_isHexColon {c : Char} (h : isHexColon c = true) :
    IsTokenChar letters c := by
  simp only [isHexColon, Bool.or_eq_true, Bool.and_eq_true, decide_eq_true_eq, beq_iff_eq] at h
  rcases h with ((h | h) | h) | rfl
  · exact isTokenChar_of_isDigit letters h
  · exact .inl (letters.ascii c (.inr (.inl ⟨h.1, Char.le_trans h.2 (by decide)⟩)))
  · exact .inl (letters.ascii c (.inr (.inr ⟨h.1, Char.le_trans h.2 (by decide)⟩)))
  · exact .inr (.inr (.inr (.inl rfl)))

/-- The pattern takes only characters of tokens. -/
theorem within_ipTokenPattern : Within (IsTokenChar letters) ipTokenPattern := by
  have hdigit : ∀ c, isDigit c = true → IsTokenChar letters c := fun c =>
    isTokenChar_of_isDigit letters
  have hdot : ∀ c, isOne '.' c = true → IsTokenChar letters c := fun c hc =>
    .inr (.inr (.inl (beq_iff_eq.mp hc)))
  have hslash : ∀ c, isOne '/' c = true → IsTokenChar letters c := fun c hc =>
    .inr (.inr (.inr (.inr (beq_iff_eq.mp hc))))
  have hhex : ∀ c, isHexColon c = true → IsTokenChar letters c := fun c =>
    isTokenChar_of_isHexColon letters
  exact ⟨⟨hdigit, hdot, hdigit, hdot, hdigit, hdot, hdigit, hslash, hdigit⟩, hhex, hslash, hdigit⟩

theorem ends_ipTokenPattern_nil : ends ipTokenPattern [] = [] := rfl

/-- The emitted address is a whole token of its line, or two columns of a netblock line. -/
def Emission.IsWhole (e : Emission) : Prop :=
  match e.origin with
  | .netblock base prefixText =>
      (splitWhitespace e.line).head? = some base ∧
        prefixField (splitWhitespace e.line) = some prefixText ∧
        ∃ len, parseU8 prefixText = some len ∧
          normalizeIpOrCidr (base ++ '/' :: showDec len) = some e.address
  | .candidate m =>
      IsRun (IsTokenChar letters) e.line m.start m.text ∧
        normalizeIpOrCidr m.text = some e.address

/-- The token is one piece, or of the pieces it is cut into none is an address. -/
def TokenSafe (token : List Char) : Prop :=
  (∃ p : Piece, p.Fits [] ∧ p.text = token) ∨ Harmless token

theorem tokenSafe_iff {token : List Char} :
    TokenSafe token ↔ findIter ipTokenPattern token = [⟨0, token⟩] ∨
      ∀ m ∈ findIter ipTokenPattern token, normalizeIpOrCidr m.text = none := by
  rw [TokenSafe, findIter_whole_iff, harmless_iff]

/-- A netblock emission always comes from its two columns. -/
theorem isWhole_netblock {trimmed combined : List Char}
    (h : netblockAndPrefix trimmed = some combined) :
    Emission.IsWhole letters ⟨trimmed, netblockOrigin trimmed, combined⟩ := by
  simp only [netblockAndPrefix, Option.bind_eq_bind, Option.bind_eq_some_iff] at h
  obtain ⟨base, hbase, h⟩ := h
  split at h
  · cases h
  · obtain ⟨prefixText, hprefix, h⟩ := Option.bind_eq_some_iff.mp h
    obtain ⟨len, hlen, hnormal⟩ := Option.bind_eq_some_iff.mp h
    have horigin : netblockOrigin trimmed = .netblock base prefixText := by
      rw [netblockOrigin, hbase, hprefix, Option.getD_some, Option.getD_some]
    rw [Emission.IsWhole, horigin]
    exact ⟨hbase, hprefix, len, hlen, hnormal⟩

/-- **One line**: what it emits is whole exactly where its tokens are safe, or it is a netblock
line. -/
theorem emissionsOfLine_whole_iff (line : List Char) :
    (∀ e ∈ emissionsOfLine line, e.IsWhole letters) ↔
      (netblockAndPrefix (content line) = none → ∀ start token,
        IsRun (IsTokenChar letters) (content line) start token → TokenSafe token) := by
  rw [emissionsOfLine]
  by_cases hempty : content line = []
  · rw [if_pos hempty]
    refine iff_of_true (by simp) fun _ start token hrun => ?_
    obtain ⟨⟨front, back, hsplit, -⟩, hne, -⟩ := hrun
    rw [hempty] at hsplit
    simp at hsplit
    exact absurd hsplit.2.1 hne
  · rw [if_neg hempty]
    cases hnet : netblockAndPrefix (content line) with
    | some combined =>
        simp only [List.mem_singleton, forall_eq, reduceCtorEq, false_implies, iff_true]
        exact isWhole_netblock letters hnet
    | none =>
        simp only [true_implies, tokenSafe_iff]
        have hwhole := matches_whole_iff (within_ipTokenPattern letters) ends_ipTokenPattern_nil
          (fun text => (normalizeIpOrCidr text).isSome) (content line)
        simp only [Bool.not_eq_true, Option.isSome_eq_false_iff, Option.isNone_iff_eq_none] at hwhole
        refine Iff.trans ?_ hwhole
        constructor
        · intro h m hm hsome
          obtain ⟨address, haddress⟩ := Option.isSome_iff_exists.mp hsome
          exact (h ⟨content line, .candidate m, address⟩
            (List.mem_filterMap.mpr ⟨m, hm, by rw [haddress]; rfl⟩)).1
        · intro h e he
          obtain ⟨m, hm, hmap⟩ := List.mem_filterMap.mp he
          obtain ⟨address, haddress, rfl⟩ := Option.map_eq_some_iff.mp hmap
          exact ⟨h m hm (by rw [haddress]; rfl), haddress⟩

/-- **When nothing is invented.**  For every feed body: the parser emits `emissions`, and each of
these is a whole token or a netblock exactly where every token of every line that is scanned is
safe. -/
theorem parse_whole_iff (raw : Bytes) (config : Option String) :
    parse raw config = .ok ((emissions (fromUtf8Lossy raw)).map fun e => toRecord e.address) ∧
    ((∀ e ∈ emissions (fromUtf8Lossy raw), e.IsWhole letters) ↔
      ∀ line ∈ lines (fromUtf8Lossy raw), netblockAndPrefix (content line) = none →
        ∀ start token, IsRun (IsTokenChar letters) (content line) start token →
          TokenSafe token) := by
  refine ⟨parse_eq_emissions raw config, ?_⟩
  simp only [emissions, List.mem_flatMap, forall_exists_index, and_imp]
  constructor
  · intro h line hline
    exact (emissionsOfLine_whole_iff letters line).mp fun e he => h e line hline he
  · intro h e line hline
    exact (emissionsOfLine_whole_iff letters line).mpr (h line hline) e

/-- Of the word `std::vec` the parser emits `d::`, and of the number `1.2.3.1234` the address
`1.2.3.123`. -/
theorem emits_fragments :
    parse (utf8 "std::vec 1.2.3.1234".toList) none =
      .ok [⟨"d::", none⟩, ⟨"1.2.3.123", none⟩] ∧
    ∃ e ∈ emissions "std::vec 1.2.3.1234".toList, e.address = "1.2.3.123".toList ∧
      ¬ e.IsWhole asciiAlphabet := by
  have hemits : emissions "std::vec 1.2.3.1234".toList =
      [⟨"std::vec 1.2.3.1234".toList, .candidate ⟨2, "d::".toList⟩, "d::".toList⟩,
        ⟨"std::vec 1.2.3.1234".toList, .candidate ⟨9, "1.2.3.123".toList⟩,
          "1.2.3.123".toList⟩] := by
    decide +kernel
  rw [hemits]
  refine ⟨by decide +kernel, _, List.mem_cons_of_mem _ List.mem_cons_self, rfl, ?_⟩
  rintro ⟨⟨⟨front, back, hsplit, hlength, -, hright⟩, -, -⟩, -⟩
  have hback : back = ['4'] := by
    have hdrop := congrArg (List.drop 18) hsplit
    rw [List.drop_left' (by rw [List.length_append, hlength]; rfl)] at hdrop
    exact hdrop.symm
  have hfour : IsTokenChar asciiAlphabet '4' := .inl (by decide)
  exact hright '4' (by rw [hback]; rfl) hfour

end SimplyIpSync.Parsers.RegexLine
