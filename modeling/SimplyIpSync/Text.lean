import SimplyIpSync.Crypto
import SimplyIpSync.Lib.Trim

/-!
# Texts

A Rust string is the list of its characters, and its bytes are their UTF-8 encodings.  The functions
of `str` here are those that know Unicode's blanks.
-/

namespace SimplyIpSync.Text

open SimplyIpSync.Crypto

/-- `str::as_bytes`. -/
def utf8 (text : List Char) : Bytes := text.flatMap String.utf8EncodeChar

/-- The code points of Unicode's `White_Space`, which `str::trim` removes. -/
def isWhiteSpace (c : Char) : Bool :=
  let n := c.toNat
  (9 ≤ n && n ≤ 13) || n == 32 || n == 0x85 || n == 0xA0 || n == 0x1680 ||
    (0x2000 ≤ n && n ≤ 0x200A) || n == 0x2028 || n == 0x2029 || n == 0x202F || n == 0x205F ||
    n == 0x3000

/-- `str::trim` on a text of any characters. -/
def trimText (text : List Char) : List Char :=
  ((text.dropWhile isWhiteSpace).reverse.dropWhile isWhiteSpace).reverse

theorem trimText_eq (text : List Char) : trimText text = Trim.trimBy isWhiteSpace text := rfl

theorem utf8_append (a b : List Char) : utf8 (a ++ b) = utf8 a ++ utf8 b := List.flatMap_append

theorem byteArray_utf8 (text : List Char) :
    ByteArray.mk (utf8 text).toArray = text.utf8Encode := by
  refine ByteArray.ext ?_
  rw [List.utf8Encode, List.data_toByteArray, utf8]

/-- The bytes of a text are valid UTF-8. -/
theorem validateUTF8_utf8 (text : List Char) :
    (ByteArray.mk (utf8 text).toArray).validateUTF8 = true := by
  rw [ByteArray.validateUTF8_eq_true_iff]
  exact ⟨text, byteArray_utf8 text⟩

/-- **The bytes determine the text.** -/
theorem utf8_injective {a b : List Char} (h : utf8 a = utf8 b) : a = b := by
  have hdecode : a.utf8Encode.utf8Decode? = b.utf8Encode.utf8Decode? := by
    rw [← byteArray_utf8, ← byteArray_utf8, h]
  rw [List.utf8Decode?_utf8Encode, List.utf8Decode?_utf8Encode] at hdecode
  exact List.toArray_inj (Option.some.inj hdecode)

/-! ### ASCII -/

/-- The bytes of ASCII characters, one each. -/
theorem utf8_eq_map {text : List Char} (h : ∀ c ∈ text, c.toNat < 128) :
    utf8 text = text.map fun c => UInt8.ofNat c.toNat := by
  induction text with
  | nil => rfl
  | cons c text ih =>
      have hval : c.val.toNat ≤ 0x7f := Nat.le_of_lt_succ (h c List.mem_cons_self)
      have hc : String.utf8EncodeChar c = [UInt8.ofNat c.toNat] := by
        simp only [String.utf8EncodeChar, if_pos hval]
        rfl
      rw [utf8, List.flatMap_cons, ← utf8, hc, ih fun x hx => h x (List.mem_cons_of_mem c hx)]
      rfl

/-- The characters of ASCII bytes. -/
def ofAscii (bytes : Bytes) : List Char := bytes.map fun b => Char.ofNat b.toNat

theorem toNat_ofNat_toNat (b : UInt8) : (Char.ofNat b.toNat).toNat = b.toNat := by
  have hvalid : b.toNat.isValidChar := .inl (Nat.lt_trans b.toNat_lt (by omega))
  rw [Char.ofNat, dif_pos hvalid]
  rfl

theorem utf8_ofAscii {bytes : Bytes} (h : ∀ b ∈ bytes, b < 128) : utf8 (ofAscii bytes) = bytes := by
  rw [utf8_eq_map]
  · rw [ofAscii, List.map_map]
    refine List.map_congr_left (fun b _ => ?_) |>.trans (List.map_id bytes)
    rw [Function.comp_apply, toNat_ofNat_toNat, UInt8.ofNat_toNat, id]
  · intro c hc
    obtain ⟨b, hb, rfl⟩ := List.mem_map.mp hc
    rw [toNat_ofNat_toNat]
    exact h b hb

/-! ### Lossy decoding -/

/-- `U+FFFD`. -/
def replacementChar : Char := Char.ofNat 0xFFFD

/-- A continuation byte. -/
def isContinuation (b : UInt8) : Bool := 0x80 ≤ b && b < 0xC0

/-- The second bytes that may follow the first byte of three. -/
def isSecondOfThree (first second : UInt8) : Bool :=
  if first = 0xE0 then 0xA0 ≤ second && second < 0xC0
  else if first = 0xED then 0x80 ≤ second && second < 0xA0
  else isContinuation second

/-- The second bytes that may follow the first byte of four. -/
def isSecondOfFour (first second : UInt8) : Bool :=
  if first = 0xF0 then 0x90 ≤ second && second < 0xC0
  else if first = 0xF4 then 0x80 ≤ second && second < 0x90
  else isContinuation second

/-- The low six bits of a continuation byte. -/
def low6 (b : UInt8) : ℕ := b.toNat % 64

/-- One step of the lossy decoder: a character and the bytes behind it, or the replacement of the
bytes that begin no character. -/
def lossyStep (first : UInt8) (rest : Bytes) : Char × Bytes :=
  if first < 0x80 then (Char.ofNat first.toNat, rest)
  else if 0xC2 ≤ first && first < 0xE0 then
    match rest with
    | b :: rest' =>
        if isContinuation b then (Char.ofNat (first.toNat % 32 * 64 + low6 b), rest')
        else (replacementChar, rest)
    | [] => (replacementChar, [])
  else if 0xE0 ≤ first && first < 0xF0 then
    match rest with
    | b :: c :: rest' =>
        if isSecondOfThree first b then
          if isContinuation c then
            (Char.ofNat ((first.toNat % 16 * 64 + low6 b) * 64 + low6 c), rest')
          else (replacementChar, c :: rest')
        else (replacementChar, rest)
    | [b] => (replacementChar, if isSecondOfThree first b then [] else [b])
    | [] => (replacementChar, [])
  else if 0xF0 ≤ first && first < 0xF5 then
    match rest with
    | b :: c :: d :: rest' =>
        if isSecondOfFour first b then
          if isContinuation c then
            if isContinuation d then
              (Char.ofNat (((first.toNat % 8 * 64 + low6 b) * 64 + low6 c) * 64 + low6 d), rest')
            else (replacementChar, d :: rest')
          else (replacementChar, c :: d :: rest')
        else (replacementChar, rest)
    | [b, c] =>
        (replacementChar,
          if isSecondOfFour first b then (if isContinuation c then [] else [c]) else [b, c])
    | [b] => (replacementChar, if isSecondOfFour first b then [] else [b])
    | [] => (replacementChar, [])
  else (replacementChar, rest)

/-- The lossy decoder on at most `fuel` characters. -/
def lossyFrom : ℕ → Bytes → List Char
  | _, [] => []
  | 0, _ => []
  | fuel + 1, first :: rest =>
      let (c, rest) := lossyStep first rest
      c :: lossyFrom fuel rest

/-- `String::from_utf8_lossy`: valid bytes are decoded, elsewhere each maximal part of a character
that is not one is replaced. -/
def fromUtf8Lossy (bytes : Bytes) : List Char :=
  match (ByteArray.mk bytes.toArray).utf8Decode? with
  | some chars => chars.toList
  | none => lossyFrom bytes.length bytes

theorem fromUtf8Lossy_utf8 (text : List Char) : fromUtf8Lossy (utf8 text) = text := by
  rw [fromUtf8Lossy, byteArray_utf8, List.utf8Decode?_utf8Encode]

/-- A letter in Latin-1, a character cut off, and a text that is valid. -/
example : fromUtf8Lossy [0x61, 0xE9, 0x62] = ['a', replacementChar, 'b'] ∧
    fromUtf8Lossy [0xF0, 0x9F, 0x92, 0x61] = [replacementChar, 'a'] ∧
    fromUtf8Lossy (utf8 "é☃".toList) = "é☃".toList := by
  decide +kernel

/-! ### Lines and words -/

/-- A carriage return at the end is dropped. -/
def stripCr (line : List Char) : List Char :=
  if line.getLast? = some '\r' then line.dropLast else line

/-- The lines of a text whose first line begins with `line`. -/
def linesFrom : List Char → List Char → List (List Char)
  | line, [] => if line = [] then [] else [line]
  | line, c :: text =>
      if c = '\n' then stripCr line :: linesFrom [] text else linesFrom (line ++ [c]) text

/-- `str::lines`. -/
def lines (text : List Char) : List (List Char) := linesFrom [] text

theorem linesFrom_append {line : List Char} (h : '\n' ∉ line) (front text : List Char) :
    linesFrom front (line ++ text) = linesFrom (front ++ line) text := by
  induction line generalizing front with
  | nil => rw [List.nil_append, List.append_nil]
  | cons c line ih =>
      have hc : c ≠ '\n' := fun heq => h (heq ▸ List.mem_cons_self)
      rw [List.cons_append, linesFrom, if_neg hc, ih fun hmem => h (List.mem_cons_of_mem c hmem),
        List.append_assoc, List.singleton_append]

/-- A terminated line is the first one. -/
theorem lines_cons {line : List Char} (h : '\n' ∉ line) (text : List Char) :
    lines (line ++ '\n' :: text) = stripCr line :: lines text := by
  rw [lines, linesFrom_append h, List.nil_append, linesFrom, if_pos rfl, lines]

/-- A last line without its line break. -/
theorem lines_last {line : List Char} (h : '\n' ∉ line) (hne : line ≠ []) : lines line = [line] := by
  have heq := linesFrom_append h [] []
  rw [List.append_nil, List.nil_append] at heq
  rw [lines, heq, linesFrom, if_neg hne]

/-- `str::split_whitespace`. -/
def splitWhitespace (text : List Char) : List (List Char) :=
  (text.splitOnP isWhiteSpace).filter (· ≠ [])

end SimplyIpSync.Text
