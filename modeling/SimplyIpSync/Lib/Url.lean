import Mathlib.Data.List.DropRight
import Mathlib.Tactic

/-!
# URLs and their texts

A URL with a host is its parts, one after the other, with a character before the query and one
before the fragment.  A parser is any function from texts to URLs; `Standard` is what the URL
standard says of one: what it returns is in normal form, and a URL in normal form reads as itself.
Which characters stand in a part without being encoded is left to the parser.

A text that is put behind the text of a URL goes to its last part (`joined`): behind the path only
if there is neither a query nor a fragment.
-/

namespace SimplyIpSync.Web

/-- A URL by its parts; the authority has its slashes before it. -/
structure Url where
  scheme : List Char
  authority : List Char
  path : List Char
  query : Option (List Char)
  fragment : Option (List Char)
  deriving DecidableEq, Repr

namespace Url

/-- A part behind the character that introduces it. -/
def introduced (c : Char) : Option (List Char) → List Char
  | none => []
  | some text => c :: text

/-- What stands before the path. -/
def front (url : Url) : List Char := url.scheme ++ ':' :: url.authority

/-- The URL as a text. -/
def text (url : Url) : List Char :=
  url.front ++ (url.path ++ (introduced '?' url.query ++ introduced '#' url.fragment))

/-- What a request for the URL names: the path and the query. -/
def requestTarget (url : Url) : List Char := url.path ++ introduced '?' url.query

/-- The schemes of web servers. -/
def isHttp (url : Url) : Bool := url.scheme == "http".toList || url.scheme == "https".toList

end Url

/-! ### Normal form -/

/-- The characters that stand in a part as they are. -/
structure CharSets where
  inPath : Char → Bool
  inQuery : Char → Bool
  inFragment : Char → Bool

/-- A segment that means this directory or the one above, however its dots are written. -/
def isDots (segment : List Char) : Bool :=
  segment.map Char.toLower ∈
    [".".toList, "%2e".toList, "..".toList, ".%2e".toList, "%2e.".toList, "%2e%2e".toList]

/-- Segments as a path. -/
def joinSegments (segments : List (List Char)) : List Char := segments.flatMap ('/' :: ·)

theorem joinSegments_append (segments segments' : List (List Char)) :
    joinSegments (segments ++ segments') = joinSegments segments ++ joinSegments segments' :=
  List.flatMap_append

namespace CharSets

variable (sets : CharSets)

/-- A segment in normal form. -/
structure IsSegment (segment : List Char) : Prop where
  chars : ∀ c ∈ segment, sets.inPath c = true ∧ c ≠ '/'
  notDots : isDots segment = false

/-- A path in normal form. -/
def IsPath (path : List Char) : Prop :=
  ∃ segments, segments ≠ [] ∧ path = joinSegments segments ∧
    ∀ segment ∈ segments, sets.IsSegment segment

/-- A URL in normal form. -/
structure IsNormal (url : Url) : Prop where
  front : url.front.getLast? ≠ some '/'
  path : sets.IsPath url.path
  query : ∀ query ∈ url.query, ∀ c ∈ query, sets.inQuery c = true
  fragment : ∀ fragment ∈ url.fragment, ∀ c ∈ fragment, sets.inFragment c = true

end CharSets

/-- A reader of URLs, and the characters it does not encode. -/
structure Parser extends CharSets where
  parse : List Char → Except String Url

/-- What the standard says of a parser: URLs of web servers come in normal form; in normal form,
behind what came before the path of some URL, such a URL reads as itself; the scheme is read first;
and small letters and slashes are not encoded. -/
structure Parser.Standard (p : Parser) : Prop where
  normal : ∀ {text url}, p.parse text = .ok url → url.isHttp = true → p.IsNormal url
  reads : ∀ {text url url' url''}, p.parse text = .ok url → url'.scheme = url.scheme →
    url'.authority = url.authority → url'.isHttp = true → p.IsNormal url' →
    p.parse url'.text = .ok url'' → url'' = url'
  scheme : ∀ {text url rest url'}, p.parse text = .ok url →
    p.parse (url.scheme ++ ':' :: rest) = .ok url' → url'.scheme = url.scheme
  letters : ∀ c, c.isLower = true → p.inPath c = true ∧ p.inQuery c = true ∧ p.inFragment c = true
  slashes : p.inQuery '/' = true ∧ p.inFragment '/' = true

/-! ### Slashes at the end -/

/-- `trim_end_matches('/')`. -/
def trimEndSlashes (text : List Char) : List Char := text.rdropWhile (· = '/')

theorem trimEndSlashes_slash (text : List Char) :
    trimEndSlashes (text ++ ['/']) = trimEndSlashes text :=
  List.rdropWhile_concat_pos _ _ _ (by simp)

theorem trimEndSlashes_concat {c : Char} (hc : c ≠ '/') (text : List Char) :
    trimEndSlashes (text ++ [c]) = text ++ [c] :=
  List.rdropWhile_concat_neg _ _ _ (by simpa using hc)

/-- Nothing is trimmed beyond a character that is no slash. -/
theorem trimEndSlashes_append {front : List Char} (hfront : front.getLast? ≠ some '/')
    (back : List Char) : trimEndSlashes (front ++ back) = front ++ trimEndSlashes back := by
  induction back using List.reverseRecOn with
  | nil =>
      rw [trimEndSlashes, trimEndSlashes, List.rdropWhile_nil, List.append_nil,
        List.rdropWhile_eq_self_iff]
      intro hne hlast
      exact hfront (by rw [List.getLast?_eq_some_getLast hne, of_decide_eq_true hlast])
  | append_singleton back c ih =>
      rw [← List.append_assoc]
      by_cases hc : c = '/'
      · rw [hc, trimEndSlashes_slash, trimEndSlashes_slash, ih]
      · rw [trimEndSlashes_concat hc, trimEndSlashes_concat hc, List.append_assoc]

/-- What is trimmed is slashes. -/
theorem exists_trimmed (text : List Char) :
    ∃ n, text = trimEndSlashes text ++ List.replicate n '/' := by
  refine ⟨(text.rtakeWhile (· = '/')).length, ?_⟩
  conv_lhs => rw [← List.rdropWhile_append_rtakeWhile (p := (· = '/')) (l := text)]
  congr 1
  refine List.eq_replicate_iff.mpr ⟨rfl, fun c hc => ?_⟩
  have hslash := List.mem_rtakeWhile_imp hc
  simpa using hslash

/-- A path loses its empty segments at the end. -/
theorem trimEndSlashes_joinSegments {segments : List (List Char)}
    (h : ∀ segment ∈ segments, '/' ∉ segment) :
    ∃ front, front <+: segments ∧ trimEndSlashes (joinSegments segments) = joinSegments front := by
  induction segments using List.reverseRecOn with
  | nil => exact ⟨[], List.nil_prefix, rfl⟩
  | append_singleton segments last ih =>
      obtain ⟨front, hinitial, hfront⟩ := ih fun s hs => h s (List.mem_append_left _ hs)
      rw [joinSegments_append]
      cases last using List.reverseRecOn with
      | nil => exact ⟨front, hinitial.trans (List.prefix_append _ _), by
          rw [← hfront]; exact trimEndSlashes_slash _⟩
      | append_singleton last c =>
          have hc : c ≠ '/' := by
            rintro rfl
            exact h _ List.mem_concat_self (List.mem_append_right _ List.mem_cons_self)
          refine ⟨segments ++ [last ++ [c]], List.prefix_rfl, ?_⟩
          have hend : joinSegments segments ++ joinSegments [last ++ [c]] =
              (joinSegments segments ++ '/' :: last) ++ [c] := by
            simp [joinSegments]
          rw [hend, trimEndSlashes_concat hc, ← hend, joinSegments_append]

/-! ### A text behind a URL -/

/-- What a text becomes a part of when it is put behind the text of a URL. -/
def joined (base : Url) (suffix : List Char) : Url :=
  match base.fragment, base.query with
  | some fragment, _ => { base with fragment := some (trimEndSlashes fragment ++ suffix) }
  | none, some query => { base with query := some (trimEndSlashes query ++ suffix) }
  | none, none => { base with path := trimEndSlashes base.path ++ suffix }

section

variable (base : Url) (suffix : List Char)

theorem joined_scheme : (joined base suffix).scheme = base.scheme := by
  unfold joined
  split <;> rfl

theorem joined_authority : (joined base suffix).authority = base.authority := by
  unfold joined
  split <;> rfl

variable {base}

/-- Only a bare URL gets a longer path. -/
theorem joined_bare (hquery : base.query = none) (hfragment : base.fragment = none) :
    joined base suffix = { base with path := trimEndSlashes base.path ++ suffix } := by
  rw [joined, hquery, hfragment]

theorem joined_path (h : ¬(base.query = none ∧ base.fragment = none)) :
    (joined base suffix).path = base.path := by
  rw [joined]
  split
  · rfl
  · rfl
  case h_3 hfragment hquery => exact absurd ⟨hquery, hfragment⟩ h

end

/-- A path of small letters. -/
def IsPlainPath (suffix : List Char) : Prop :=
  ∃ segments, segments ≠ [] ∧ suffix = joinSegments segments ∧
    ∀ segment ∈ segments, segment ≠ [] ∧ segment.all Char.isLower = true

section

variable {p : Parser} {text suffix : List Char} {base url : Url}

theorem isSegment_of_letters (hp : p.Standard) {segment : List Char} (hne : segment ≠ [])
    (hletters : segment.all Char.isLower = true) : p.IsSegment segment where
  chars := by
    intro c hc
    have hc := List.all_eq_true.mp hletters c hc
    refine ⟨(hp.letters c hc).1, ?_⟩
    rintro rfl
    exact absurd hc (by decide)
  notDots := by
    obtain ⟨c, rest, rfl⟩ := List.exists_cons_of_ne_nil hne
    have hc : c.isLower = true := List.all_eq_true.mp hletters c List.mem_cons_self
    have hlow : 'a'.val ≤ c.val := of_decide_eq_true (Bool.and_eq_true_iff.mp hc).1
    have hlower : c.toLower = c :=
      dif_neg fun hupper => absurd (UInt32.le_trans hlow hupper.2) (by decide)
    have hdot : c ≠ '.' := by
      rintro rfl
      exact absurd hc (by decide)
    have hpercent : c ≠ '%' := by
      rintro rfl
      exact absurd hc (by decide)
    rw [isDots, List.map_cons, hlower]
    simp [hdot, hpercent]

/-- The characters of a plain path stand in a query and in a fragment too. -/
theorem IsPlainPath.chars (hp : p.Standard) (h : IsPlainPath suffix) :
    ∀ c ∈ suffix, p.inQuery c = true ∧ p.inFragment c = true := by
  obtain ⟨segments, -, rfl, hletters⟩ := h
  intro c hc
  obtain ⟨segment, hsegment, hc⟩ := List.mem_flatMap.mp hc
  rcases List.mem_cons.mp hc with rfl | hc
  · exact hp.slashes
  · exact (hp.letters c (List.all_eq_true.mp (hletters segment hsegment).2 c hc)).2

/-- **A plain path behind a path in normal form** is one. -/
theorem isPath_append (hp : p.Standard) {path : List Char} (hpath : p.IsPath path)
    (h : IsPlainPath suffix) : p.IsPath (trimEndSlashes path ++ suffix) := by
  obtain ⟨segments, -, rfl, hsegments⟩ := hpath
  obtain ⟨segments', hne, rfl, hletters⟩ := h
  obtain ⟨front, hinitial, hfront⟩ := trimEndSlashes_joinSegments
    fun segment hsegment hslash => ((hsegments segment hsegment).chars '/' hslash).2 rfl
  refine ⟨front ++ segments', by simp [hne], by rw [hfront, joinSegments_append], ?_⟩
  intro segment hsegment
  rcases List.mem_append.mp hsegment with hsegment | hsegment
  · exact hsegments segment (hinitial.subset hsegment)
  · exact isSegment_of_letters hp (hletters segment hsegment).1 (hletters segment hsegment).2

/-- The text of a URL without the slashes at its end, with another text behind it. -/
theorem trimEndSlashes_text (hbase : p.IsNormal base) (suffix : List Char) :
    trimEndSlashes base.text ++ suffix = (joined base suffix).text := by
  have hend : ∀ (front : List Char) (c : Char), c ≠ '/' → (front ++ [c]).getLast? ≠ some '/' := by
    intro front c hc
    rw [List.getLast?_concat]
    exact fun h => hc (Option.some.inj h)
  obtain ⟨scheme, authority, path, query, fragment⟩ := base
  cases fragment with
  | some fragment =>
      have htext : Url.text ⟨scheme, authority, path, query, some fragment⟩ =
          (scheme ++ ':' :: authority ++ path ++ Url.introduced '?' query ++ ['#']) ++
            fragment := by
        simp [Url.text, Url.front, Url.introduced]
      rw [htext, trimEndSlashes_append (hend _ '#' (by decide))]
      simp [joined, Url.text, Url.front, Url.introduced]
  | none =>
      cases query with
      | some query =>
          have htext : Url.text ⟨scheme, authority, path, some query, none⟩ =
              (scheme ++ ':' :: authority ++ path ++ ['?']) ++ query := by
            simp [Url.text, Url.front, Url.introduced]
          rw [htext, trimEndSlashes_append (hend _ '?' (by decide))]
          simp [joined, Url.text, Url.front, Url.introduced]
      | none =>
          have htext : Url.text ⟨scheme, authority, path, none, none⟩ =
              (scheme ++ ':' :: authority) ++ path := by
            simp [Url.text, Url.front, Url.introduced]
          have hfront : (scheme ++ ':' :: authority).getLast? ≠ some '/' := hbase.front
          rw [htext, trimEndSlashes_append hfront]
          simp [joined, Url.text, Url.front, Url.introduced]

theorem isNormal_joined (hp : p.Standard) (hbase : p.IsNormal base) (h : IsPlainPath suffix) :
    p.IsNormal (joined base suffix) := by
  have htrimmed : ∀ {part : List Char} {c : Char}, c ∈ trimEndSlashes part → c ∈ part := by
    intro part c hc
    exact (List.rdropWhile_prefix _ _).subset hc
  obtain ⟨scheme, authority, path, query, fragment⟩ := base
  cases fragment with
  | some fragment =>
      refine ⟨hbase.front, hbase.path, hbase.query, ?_⟩
      intro fragment' hfragment c hc
      have heq : some (trimEndSlashes fragment ++ suffix) = some fragment' := hfragment
      rw [← Option.some.inj heq] at hc
      rcases List.mem_append.mp hc with hc | hc
      · exact hbase.fragment fragment rfl c (htrimmed hc)
      · exact (h.chars hp c hc).2
  | none =>
      cases query with
      | some query =>
          refine ⟨hbase.front, hbase.path, ?_, hbase.fragment⟩
          intro query' hquery c hc
          have heq : some (trimEndSlashes query ++ suffix) = some query' := hquery
          rw [← Option.some.inj heq] at hc
          rcases List.mem_append.mp hc with hc | hc
          · exact hbase.query query rfl c (htrimmed hc)
          · exact (h.chars hp c hc).1
      | none => exact ⟨hbase.front, isPath_append hp hbase.path h, hbase.query, hbase.fragment⟩

/-- **What a plain path behind a URL reads as.** -/
theorem Parser.Standard.parse_joined (hp : p.Standard) (hbase : p.parse text = .ok base)
    (hhttp : base.isHttp = true) (h : IsPlainPath suffix)
    (hurl : p.parse (trimEndSlashes base.text ++ suffix) = .ok url) : url = joined base suffix := by
  have hnormal := hp.normal hbase hhttp
  have hhttp' : (joined base suffix).isHttp = true := by
    rw [Url.isHttp, joined_scheme]
    exact hhttp
  rw [trimEndSlashes_text hnormal] at hurl
  exact hp.reads hbase (joined_scheme base suffix) (joined_authority base suffix) hhttp'
    (isNormal_joined hp hnormal h) hurl

/-- The scheme does not change. -/
theorem Parser.Standard.isHttp_of_parse (hp : p.Standard) (hbase : p.parse text = .ok base)
    (hurl : p.parse (trimEndSlashes base.text ++ suffix) = .ok url) :
    url.isHttp = base.isHttp := by
  have htext : trimEndSlashes base.text ++ suffix = base.scheme ++ ':' ::
      (trimEndSlashes (base.authority ++ (base.path ++ (Url.introduced '?' base.query ++
        Url.introduced '#' base.fragment))) ++ suffix) := by
    have hcolon : (base.scheme ++ [':']).getLast? ≠ some '/' := by
      rw [List.getLast?_concat]
      decide
    have hfront := trimEndSlashes_append hcolon (base.authority ++ (base.path ++
      (Url.introduced '?' base.query ++ Url.introduced '#' base.fragment)))
    have heq : base.text = base.scheme ++ [':'] ++ (base.authority ++ (base.path ++
        (Url.introduced '?' base.query ++ Url.introduced '#' base.fragment))) := by
      simp [Url.text, Url.front]
    rw [heq, hfront]
    simp
  rw [htext] at hurl
  rw [Url.isHttp, Url.isHttp, hp.scheme hbase hurl]

end

/-! ### A parser of URLs in normal form -/

/-- The printable characters but these. -/
def printableBut (codes : List ℕ) (c : Char) : Bool :=
  decide (0x21 ≤ c.toNat ∧ c.toNat ≤ 0x7E ∧ c.toNat ∉ codes)

/-- The characters the standard leaves as they are. -/
def charSets : CharSets where
  inPath := printableBut [0x22, 0x23, 0x3C, 0x3E, 0x3F, 0x5C, 0x5E, 0x60, 0x7B, 0x7D]
  inQuery := printableBut [0x22, 0x23, 0x27, 0x3C, 0x3E]
  inFragment := printableBut [0x22, 0x3C, 0x3E, 0x60]

namespace CharSets

variable (sets : CharSets)

instance decidableIsSegment (segment : List Char) : Decidable (sets.IsSegment segment) :=
  decidable_of_iff
    ((segment.all fun c => sets.inPath c && c != '/') = true ∧ isDots segment = false) <| by
      simp only [List.all_eq_true, Bool.and_eq_true, bne_iff_ne]
      exact ⟨fun h => ⟨h.1, h.2⟩, fun h => ⟨h.1, h.2⟩⟩

theorem joinSegments_eq {segments : List (List Char)} (hne : segments ≠ []) :
    joinSegments segments = '/' :: ['/'].intercalate segments := by
  induction segments with
  | nil => exact absurd rfl hne
  | cons segment rest ih =>
      cases rest with
      | nil => simp [joinSegments]
      | cons segment' rest =>
          rw [List.intercalate_cons_cons, List.append_assoc, List.singleton_append,
            ← ih (List.cons_ne_nil _ _)]
          rfl

/-- A path is in normal form if what stands between its slashes is. -/
theorem isPath_iff (path : List Char) : sets.IsPath path ↔ path.head? = some '/' ∧
    ∀ segment ∈ path.tail.splitOn '/', sets.IsSegment segment := by
  constructor
  · rintro ⟨segments, hne, rfl, hsegments⟩
    have hslash : ∀ segment ∈ segments, '/' ∉ segment := fun segment hsegment hmem =>
      ((hsegments segment hsegment).chars '/' hmem).2 rfl
    rw [joinSegments_eq hne, List.tail_cons, List.splitOn_intercalate '/' hslash hne]
    exact ⟨rfl, hsegments⟩
  · rintro ⟨hhead, hsegments⟩
    refine ⟨path.tail.splitOn '/', List.splitOn_ne_nil _ _, ?_, hsegments⟩
    rw [joinSegments_eq (List.splitOn_ne_nil _ _), List.intercalate_splitOn]
    exact (List.cons_head?_tail hhead).symm

instance decidableIsPath (path : List Char) : Decidable (sets.IsPath path) :=
  decidable_of_iff _ (sets.isPath_iff path).symm

instance decidableIsNormal (url : Url) : Decidable (sets.IsNormal url) :=
  decidable_of_iff
    (url.front.getLast? ≠ some '/' ∧ sets.IsPath url.path ∧
      (url.query.all fun query => query.all sets.inQuery) = true ∧
      (url.fragment.all fun fragment => fragment.all sets.inFragment) = true) <| by
      simp only [Option.all_eq_true, List.all_eq_true]
      exact ⟨fun h => ⟨h.1, h.2.1, h.2.2.1, h.2.2.2⟩,
        fun h => ⟨h.front, h.path, h.query, h.fragment⟩⟩

end CharSets

/-- The end of a host. -/
def endsHost (c : Char) : Bool := c == '/' || c == '?' || c == '#'

/-- The end of a path. -/
def endsPath (c : Char) : Bool := c == '?' || c == '#'

/-- The end of a query. -/
def endsQuery (c : Char) : Bool := c == '#'

/-- The query, and the fragment, in what stands behind a path. -/
def readQuery (rest : List Char) : Option (List Char) :=
  if rest.head? = some '?' then some (rest.tail.takeWhile (!endsQuery ·)) else none

def readFragment (rest : List Char) : Option (List Char) :=
  (rest.dropWhile (!endsQuery ·)).tail?

/-- The parts of a text behind `https://`. -/
def split (text : List Char) : Url :=
  let host := text.takeWhile (!endsHost ·)
  let behind := text.dropWhile (!endsHost ·)
  let rest := behind.dropWhile (!endsPath ·)
  ⟨"https".toList, "//".toList ++ host, behind.takeWhile (!endsPath ·), readQuery rest,
    readFragment rest⟩

/-- Takes the secure URLs in normal form, and no other text. -/
def normalParser : Parser where
  toCharSets := charSets
  parse text :=
    if text.take 8 = "https://".toList ∧ charSets.IsNormal (split (text.drop 8)) then
      .ok (split (text.drop 8))
    else .error "relative URL without a base"

theorem normalParser_ok {text : List Char} {url : Url} (h : normalParser.parse text = .ok url) :
    url = split (text.drop 8) ∧ charSets.IsNormal url := by
  simp only [normalParser] at h
  split at h
  case isTrue hnormal => exact ⟨(Except.ok.inj h).symm, Except.ok.inj h ▸ hnormal.2⟩
  case isFalse => cases h

/-- A search that ends where the front of a text does. -/
theorem takeWhile_append_stop {stops : Char → Bool} {front back : List Char}
    (hfront : ∀ c ∈ front, stops c = false) (hback : ∀ c ∈ back.head?, stops c = true) :
    (front ++ back).takeWhile (!stops ·) = front ∧
      (front ++ back).dropWhile (!stops ·) = back := by
  have hgoes : ∀ c ∈ front, (!stops c) = true := fun c hc => by rw [hfront c hc]; rfl
  rw [List.takeWhile_append_of_pos hgoes, List.dropWhile_append_of_pos hgoes]
  cases back with
  | nil => simp
  | cons c back => simp [hback c rfl]

theorem head?_introduced (fragment : Option (List Char)) :
    ∀ c ∈ (Url.introduced '#' fragment).head?, endsQuery c = true := by
  intro c hc
  cases fragment with
  | none => cases hc
  | some fragment =>
      obtain rfl := Option.some.inj hc
      rfl

theorem read_introduced {query : Option (List Char)}
    (hquery : ∀ text ∈ query, ∀ c ∈ text, endsQuery c = false) (fragment : Option (List Char)) :
    readQuery (Url.introduced '?' query ++ Url.introduced '#' fragment) = query ∧
      readFragment (Url.introduced '?' query ++ Url.introduced '#' fragment) = fragment := by
  have htail : (Url.introduced '#' fragment).tail? = fragment := by
    cases fragment with
    | none => rfl
    | some fragment => rfl
  cases query with
  | none =>
      have hempty : ∀ c ∈ ([] : List Char), endsQuery c = false := List.forall_mem_nil _
      have hstop := takeWhile_append_stop hempty (head?_introduced fragment)
      refine ⟨?_, by rw [readFragment, Url.introduced, hstop.2, htail]⟩
      cases fragment with
      | none => rfl
      | some fragment => rfl
  | some query =>
      have hstop := takeWhile_append_stop (hquery query rfl) (head?_introduced fragment)
      have hstop' : ∀ c ∈ '?' :: query, endsQuery c = false :=
        List.forall_mem_cons.mpr ⟨rfl, hquery query rfl⟩
      constructor
      · show some ((query ++ Url.introduced '#' fragment).takeWhile (!endsQuery ·)) = some query
        rw [hstop.1]
      · rw [readFragment, Url.introduced,
          (takeWhile_append_stop hstop' (head?_introduced fragment)).2, htail]

/-- **The parts of a URL in normal form are found again.** -/
theorem split_text {url : Url} {host : List Char} (hscheme : url.scheme = "https".toList)
    (hauthority : url.authority = "//".toList ++ host)
    (hhost : ∀ c ∈ host, endsHost c = false) (h : charSets.IsNormal url) :
    split (url.text.drop 8) = url := by
  obtain ⟨scheme, authority, path, query, fragment⟩ := url
  obtain rfl : scheme = "https".toList := hscheme
  obtain rfl : authority = "//".toList ++ host := hauthority
  have htext : (Url.text ⟨"https".toList, "//".toList ++ host, path, query, fragment⟩).drop 8 =
      host ++ (path ++ (Url.introduced '?' query ++ Url.introduced '#' fragment)) := rfl
  have hslash : path.head? = some '/' := ((charSets.isPath_iff path).mp h.path).1
  have hhead : ∀ c ∈ (path ++ (Url.introduced '?' query ++ Url.introduced '#' fragment)).head?,
      endsHost c = true := by
    intro c hc
    rw [List.head?_append, hslash] at hc
    obtain rfl := Option.some.inj hc
    rfl
  have hpath : ∀ c ∈ path, endsPath c = false := by
    obtain ⟨segments, -, rfl, hsegments⟩ := h.path
    intro c hc
    obtain ⟨segment, hsegment, hc⟩ := List.mem_flatMap.mp hc
    rcases List.mem_cons.mp hc with rfl | hc
    · rfl
    · have hchar := ((hsegments segment hsegment).chars c hc).1
      rw [endsPath, Bool.or_eq_false_iff, beq_eq_false_iff_ne, beq_eq_false_iff_ne]
      constructor <;> rintro rfl <;> exact absurd hchar (by decide)
  have hrest : ∀ c ∈ (Url.introduced '?' query ++ Url.introduced '#' fragment).head?,
      endsPath c = true := by
    intro c hc
    cases query with
    | some query =>
        obtain rfl := Option.some.inj hc
        rfl
    | none =>
        cases fragment with
        | some fragment =>
            obtain rfl := Option.some.inj hc
            rfl
        | none => cases hc
  obtain ⟨hhost₁, hhost₂⟩ := takeWhile_append_stop hhost hhead
  obtain ⟨hpath₁, hpath₂⟩ := takeWhile_append_stop hpath hrest
  rw [htext, split, hhost₁, hhost₂]
  simp only [hpath₁, hpath₂]
  have hquery : ∀ text ∈ query, ∀ c ∈ text, endsQuery c = false := by
    intro text htext c hc
    rw [endsQuery, beq_eq_false_iff_ne]
    rintro rfl
    exact absurd (h.query text htext '#' hc) (by decide)
  rw [(read_introduced hquery fragment).1, (read_introduced hquery fragment).2]

/-- **The parser of URLs in normal form meets the standard.** -/
theorem normalParser_standard : normalParser.Standard where
  normal := by
    intro text url h _
    exact (normalParser_ok h).2
  reads := by
    intro text url url' url'' h hscheme hauthority _ hnormal h'
    have hurl := (normalParser_ok h).1
    have hhost : ∀ c ∈ (text.drop 8).takeWhile (!endsHost ·), endsHost c = false := by
      intro c hc
      have hgoes := List.mem_takeWhile_imp hc
      simpa using hgoes
    rw [(normalParser_ok h').1]
    refine split_text (hscheme.trans ?_) (hauthority.trans ?_) hhost hnormal
    · rw [hurl]
      rfl
    · rw [hurl]
      rfl
  scheme := by
    intro text url rest url' h h'
    rw [(normalParser_ok h).1, (normalParser_ok h').1]
    rfl
  letters := by
    intro c hc
    have hlow : 0x61 ≤ c.toNat := of_decide_eq_true (Bool.and_eq_true_iff.mp hc).1
    have hhigh : c.toNat ≤ 0x7A := of_decide_eq_true (Bool.and_eq_true_iff.mp hc).2
    simp only [normalParser, charSets, printableBut, decide_eq_true_eq, List.mem_cons,
      List.not_mem_nil, or_false]
    omega
  slashes := by decide

end SimplyIpSync.Web
