import SimplyIpSync.Parsers.Recognition

/-!
# A feed that lists one address on each line

Blanks around the address and a comment behind it are dropped, and the parser emits the normalized
addresses, in order, exactly where every address is spelled as the pattern takes it.  A line never
makes up for another one: an IPv4 line emits at least one IPv4 address and no other, an IPv6 line
at most one, of IPv6.
-/

namespace SimplyIpSync.Parsers.RegexLine

open SimplyIpSync.Crypto SimplyIpSync.Text SimplyIpSync.Net SimplyIpSync.Bogon
open SimplyIpSync.Regex SimplyIpSync.Jobs.ExternalIngestion

/-! ### Lines -/

/-- A comment, or nothing. -/
def IsComment (comment : List Char) : Prop :=
  comment = [] ∨ comment.head? = some '#' ∨ comment.head? = some ';' ∨
    ∃ rest, comment = '/' :: '/' :: rest

/-- The token with blanks around it and a comment behind it. -/
structure Decorated (token line : List Char) : Prop where
  split : ∃ before after comment, line = before ++ token ++ after ++ comment ∧
    (∀ c ∈ before, isWhiteSpace c = true) ∧ (∀ c ∈ after, isWhiteSpace c = true) ∧
    IsComment comment

/-- A line of the feed. -/
structure Entry where
  address : Address
  line : List Char
  noBlank : ∀ c ∈ address.text, isWhiteSpace c = false
  decorated : Decorated address.text line
  oneLine : '\n' ∉ line

/-- The lines of a feed, each ended by a line break, the last one if `final`. -/
def listing (final : Bool) : List (List Char) → List Char
  | [] => []
  | [line] => line ++ if final then ['\n'] else []
  | line :: rest => line ++ '\n' :: listing final rest

/-! ### Tokens in their lines -/

theorem suffix_chars {text : List Char} {max len : ℕ} (h : parsePrefix text max = some len) :
    text ≠ [] ∧ ∀ c ∈ text, isAddressChar c = true ∨ c = '+' := by
  obtain ⟨-, digits, hdigits, hsplit⟩ := parsePrefix_spec h
  have hne : digitChars digits ≠ [] := fun hnil => hdigits.ne_nil (List.map_eq_nil_iff.mp hnil)
  have hall : ∀ c ∈ digitChars digits, isAddressChar c = true ∨ c = '+' := fun c hc =>
    .inl (isAddressChar_of_isDigit (isDigit_of_mem_digitChars hdigits.lt c hc))
  rcases hsplit with rfl | rfl
  · exact ⟨hne, hall⟩
  · refine ⟨List.cons_ne_nil _ _, fun c hc => ?_⟩
    rcases List.mem_cons.mp hc with rfl | hc
    · exact .inr rfl
    · exact hall c hc

/-- An accepted token: an address, and behind it what its slash has. -/
structure Token (text addr : List Char) (suffix : Option (List Char)) : Prop where
  split : text = addr ++ slashed suffix
  addr_ne_nil : addr ≠ []
  addr_chars : addr.all isAddressChar = true
  suffix_ne_nil : ∀ text ∈ suffix, text ≠ []
  suffix_chars : ∀ text ∈ suffix, ∀ c ∈ text, isAddressChar c = true ∨ c = '+'

theorem token_of_spelled {text : List Char} {net : IpNetwork} (h : Spelled text net) :
    ∃ addr suffix, Token text addr suffix := by
  cases h with
  | v4 ip len suffix hslash hlen =>
      have hne : showIpv4Addr ip ≠ [] := fun hnil => by
        have hcount := count_dot_showIpv4Addr ip
        rw [hnil] at hcount
        exact absurd hcount (by decide)
      have hsuffix : ∀ text ∈ suffix, text ≠ [] ∧ ∀ c ∈ text, isAddressChar c = true ∨ c = '+' := by
        rintro text rfl
        rw [ipv4Prefix] at hlen
        cases hmask : parseIpv4Addr text with
        | none =>
            rw [hmask] at hlen
            exact RegexLine.suffix_chars hlen
        | some mask =>
            obtain rfl := parseIpv4Addr_eq_some.mp hmask
            refine ⟨fun hnil => ?_, fun c hc =>
              .inl (List.all_eq_true.mp (all_showIpv4Addr mask) c hc)⟩
            have hcount := count_dot_showIpv4Addr mask
            rw [hnil] at hcount
            exact absurd hcount (by decide)
      exact ⟨showIpv4Addr ip, suffix, rfl, hne, all_showIpv4Addr ip,
        fun text htext => (hsuffix text htext).1, fun text htext => (hsuffix text htext).2⟩
  | v6 addr bits len suffix hslash haddr hlen =>
      have hsuffix : ∀ text ∈ suffix, text ≠ [] ∧ ∀ c ∈ text, isAddressChar c = true ∨ c = '+' := by
        rintro text rfl
        exact RegexLine.suffix_chars hlen
      exact ⟨addr, suffix, rfl, List.ne_nil_of_mem (colon_mem_of_parseIpv6Addr haddr),
        all_of_parseIpv6Addr haddr, fun text htext => (hsuffix text htext).1,
        fun text htext => (hsuffix text htext).2⟩

theorem findSlashes_append {front : List Char} (h : '/' ∉ front) (rest : List Char) :
    findSlashes (front ++ rest) = front.length + findSlashes rest := by
  induction front with
  | nil => rw [List.nil_append, List.length_nil, Nat.zero_add]
  | cons c front ih =>
      have hc : c ≠ '/' := fun heq => h (heq ▸ List.mem_cons_self)
      rw [List.cons_append, findSlashes, if_neg fun hboth => hc hboth.1,
        ih fun hmem => h (List.mem_cons_of_mem c hmem), List.length_cons]
      omega

/-- A single slash with something behind it begins no comment. -/
theorem findSlashes_slash {text : List Char} (hne : text ≠ []) (h : '/' ∉ text)
    (rest : List Char) : findSlashes ('/' :: (text ++ rest)) = 1 + text.length + findSlashes rest := by
  cases text with
  | nil => exact absurd rfl hne
  | cons c text =>
      have hc : ¬ ('/' = '/' ∧ (c :: text ++ rest).head? = some '/') := fun hboth =>
        h (Option.some.inj hboth.2 ▸ List.mem_cons_self)
      rw [findSlashes, if_neg hc, findSlashes_append h]
      omega

theorem findIdx_append_of_notMem {front : List Char} {x : Char} (h : x ∉ front)
    (rest : List Char) :
    (front ++ rest).findIdx (· = x) = front.length + rest.findIdx (· = x) := by
  induction front with
  | nil => rw [List.nil_append, List.length_nil, Nat.zero_add]
  | cons c front ih =>
      have hc : decide (c = x) = false := decide_eq_false fun heq => h (heq ▸ List.mem_cons_self)
      rw [List.cons_append, List.findIdx_cons, hc, cond_false,
        ih fun hmem => h (List.mem_cons_of_mem c hmem), List.length_cons]
      omega

theorem findIdx_cons_self (x : Char) (rest : List Char) :
    (x :: rest).findIdx (· = x) = 0 := by
  rw [List.findIdx_cons, decide_eq_true rfl, cond_true]

/-- The comment is cut off. -/
theorem stripInlineComment_append {body comment : List Char} (hhash : '#' ∉ body)
    (hsemi : ';' ∉ body)
    (hslashes : findSlashes (body ++ comment) = body.length + findSlashes comment)
    (hcomment : IsComment comment) : stripInlineComment (body ++ comment) = body := by
  have hcut : min (min (comment.findIdx (· = '#')) (comment.findIdx (· = ';')))
      (findSlashes comment) = 0 := by
    rcases hcomment with rfl | hhead | hhead | ⟨rest, rfl⟩
    · rfl
    · obtain ⟨rest, rfl⟩ := List.head?_eq_some_iff.mp hhead
      rw [findIdx_cons_self, Nat.zero_min, Nat.zero_min]
    · obtain ⟨rest, rfl⟩ := List.head?_eq_some_iff.mp hhead
      rw [findIdx_cons_self, Nat.min_zero, Nat.zero_min]
    · have hzero : findSlashes ('/' :: '/' :: rest) = 0 := if_pos ⟨rfl, rfl⟩
      rw [hzero, Nat.min_zero]
  have hall : min (min (body.length + comment.findIdx (· = '#'))
      (body.length + comment.findIdx (· = ';'))) (body.length + findSlashes comment) =
        body.length := by omega
  rw [stripInlineComment, findIdx_append_of_notMem hhash, findIdx_append_of_notMem hsemi, hslashes,
    hall, List.take_left]

theorem notMem_of_blank {text : List Char} (h : ∀ c ∈ text, isWhiteSpace c = true) {x : Char}
    (hx : ¬ isWhiteSpace x = true) : x ∉ text := fun hmem => hx (h x hmem)

theorem Token.notMem {text addr : List Char} {suffix : Option (List Char)}
    (h : Token text addr suffix) {x : Char} (haddr : ¬ isAddressChar x = true) (hplus : x ≠ '+') :
    x ∉ addr ∧ ∀ text ∈ suffix, x ∉ text :=
  ⟨fun hmem => haddr (List.all_eq_true.mp h.addr_chars x hmem),
    fun text htext hmem => (h.suffix_chars text htext x hmem).elim haddr hplus⟩

theorem Token.ne_nil {text addr : List Char} {suffix : Option (List Char)}
    (h : Token text addr suffix) : text ≠ [] := by
  rw [h.split]
  exact fun hnil => h.addr_ne_nil (List.append_eq_nil_iff.mp hnil).1

/-- Blanks around a text without blanks are trimmed. -/
theorem trimText_blanks {before text after : List Char}
    (hbefore : ∀ c ∈ before, isWhiteSpace c = true) (hafter : ∀ c ∈ after, isWhiteSpace c = true)
    (htext : ∀ c ∈ text, isWhiteSpace c = false) : trimText (before ++ text ++ after) = text := by
  rw [trimText_eq, Trim.trimBy_append hbefore hafter, Trim.trimBy_of_none htext]

/-- Between its blanks, a token has no other character than those of its parts. -/
theorem Token.notMem_body {text addr before after : List Char} {suffix : Option (List Char)}
    (h : Token text addr suffix) (hbefore : ∀ c ∈ before, isWhiteSpace c = true)
    (hafter : ∀ c ∈ after, isWhiteSpace c = true) {x : Char} (haddr : ¬ isAddressChar x = true)
    (hplus : x ≠ '+') (hslash : x ≠ '/') (hspace : ¬ isWhiteSpace x = true) :
    x ∉ before ++ text ++ after := by
  intro hmem
  obtain ⟨hnot, hnotSuffix⟩ := h.notMem haddr hplus
  rw [h.split] at hmem
  simp only [List.mem_append] at hmem
  rcases hmem with (hmem | hmem | hmem) | hmem
  · exact notMem_of_blank hbefore hspace hmem
  · exact hnot hmem
  · cases suffix with
    | none => cases hmem
    | some text =>
        rcases List.mem_cons.mp hmem with heq | hmem
        · exact hslash heq
        · exact hnotSuffix text rfl hmem
  · exact notMem_of_blank hafter hspace hmem

/-- The slash of a prefix length begins no comment. -/
theorem Token.findSlashes_body {text addr before after : List Char} {suffix : Option (List Char)}
    (h : Token text addr suffix) (hbefore : ∀ c ∈ before, isWhiteSpace c = true)
    (hafter : ∀ c ∈ after, isWhiteSpace c = true) (comment : List Char) :
    findSlashes (before ++ text ++ after ++ comment) =
      (before ++ text ++ after).length + findSlashes comment := by
  obtain ⟨hnot, hnotSuffix⟩ := h.notMem (x := '/') (by decide) (by decide)
  have hbeforeSlash := notMem_of_blank hbefore (show ¬ isWhiteSpace '/' = true by decide)
  have hafterSlash := notMem_of_blank hafter (show ¬ isWhiteSpace '/' = true by decide)
  rw [h.split]
  simp only [List.append_assoc, findSlashes_append hbeforeSlash, findSlashes_append hnot]
  cases suffix with
  | none =>
      simp only [slashed, List.nil_append, findSlashes_append hafterSlash, List.length_append]
      omega
  | some text =>
      simp only [slashed, List.cons_append,
        findSlashes_slash (h.suffix_ne_nil text rfl) (hnotSuffix text rfl),
        findSlashes_append hafterSlash, List.length_append, List.length_cons]
      omega

/-- **What is scanned is the token.** -/
theorem content_of_decorated {text addr line : List Char} {suffix : Option (List Char)}
    (htoken : Token text addr suffix) (hblank : ∀ c ∈ text, isWhiteSpace c = false)
    (h : Decorated text line) : content line = text := by
  obtain ⟨before, after, comment, rfl, hbefore, hafter, hcomment⟩ := h.split
  have hhash : '#' ∉ before ++ text ++ after :=
    htoken.notMem_body hbefore hafter (by decide) (by decide) (by decide) (by decide)
  have hsemi : ';' ∉ before ++ text ++ after :=
    htoken.notMem_body hbefore hafter (by decide) (by decide) (by decide) (by decide)
  rw [content, stripInlineComment_append hhash hsemi
    (htoken.findSlashes_body hbefore hafter comment) hcomment,
    trimText_blanks hbefore hafter hblank]

/-- A comment that loses its last character is a comment, unless that is its second slash. -/
theorem isComment_dropLast {front : List Char} {x : Char} (hx : x ≠ '#') (hx' : x ≠ ';')
    (hslash : x ≠ '/') (h : IsComment (front ++ [x])) : IsComment front := by
  cases front with
  | nil => simp [IsComment, hx, hx'] at h
  | cons c front =>
      rcases h with hnil | hhash | hsemi | ⟨rest, heq⟩
      · cases hnil
      · exact .inr (.inl hhash)
      · exact .inr (.inr (.inl hsemi))
      · cases front with
        | nil =>
            simp only [List.cons_append, List.nil_append, List.cons.injEq] at heq
            exact absurd heq.2.1 hslash
        | cons d front =>
            simp only [List.cons_append, List.cons.injEq] at heq
            obtain ⟨rfl, rfl, -⟩ := heq
            exact .inr (.inr (.inr ⟨front, rfl⟩))

/-- A carriage return at the end of a line is a blank or part of the comment. -/
theorem decorated_stripCr {text line : List Char} (hne : text ≠ [])
    (hblank : ∀ c ∈ text, isWhiteSpace c = false) (h : Decorated text line) :
    Decorated text (stripCr line) := by
  obtain ⟨before, after, comment, hline, hbefore, hafter, hcomment⟩ := h.split
  rw [stripCr]
  split
  case isFalse => exact h
  case isTrue hlast =>
    rcases List.eq_nil_or_concat comment with rfl | ⟨front, x, rfl⟩
    · rw [List.append_nil] at hline
      rcases List.eq_nil_or_concat after with rfl | ⟨front, x, rfl⟩
      · -- the token itself does not end with a blank
        rw [hline, List.append_nil, List.getLast?_append_of_ne_nil before hne] at hlast
        have hcr := hblank '\r' (List.mem_of_getLast? hlast)
        exact absurd hcr (by decide)
      · refine ⟨before, front, [], ?_, hbefore, fun c hc => hafter c (by simp [hc]), hcomment⟩
        rw [hline, List.append_nil]
        simp [← List.append_assoc]
    · refine ⟨before, after, front, ?_, hbefore, hafter, ?_⟩
      · rw [hline]
        simp [← List.append_assoc]
      · rw [hline, List.concat_eq_append, ← List.append_assoc, List.getLast?_append_cons] at hlast
        obtain rfl : x = '\r' := by simpa using hlast
        rw [List.concat_eq_append] at hcomment
        exact isComment_dropLast (by decide) (by decide) (by decide) hcomment

/-- A token alone is no netblock line. -/
theorem netblockAndPrefix_token {text : List Char} (hblank : ∀ c ∈ text, isWhiteSpace c = false)
    (hne : text ≠ []) : netblockAndPrefix text = none := by
  have hfields : splitWhitespace text = [text] := by
    rw [splitWhitespace, List.splitOnP_eq_singleton hblank]
    simp [hne]
  rw [netblockAndPrefix, hfields]
  simp only [List.head?_cons, Option.bind_eq_bind, Option.bind_some, prefixField, Option.bind_none,
    ite_self]

/-! ### Entries -/

theorem Address.parses (a : Address) (hblank : ∀ c ∈ a.text, isWhiteSpace c = false) :
    parseIpNetwork a.text = some a.net := by
  have hreads := a.reads
  rwa [denotes_eq, trimText_of_all hblank] at hreads

theorem Entry.spelled (e : Entry) : Spelled e.address.text e.address.net :=
  spelled_of_parseIpNetwork (Address.parses e.address e.noBlank)

/-- **A line emits what its token gives.** -/
theorem parseLine_of_decorated (e : Entry) {line : List Char} (h : Decorated e.address.text line) :
    parseLine line = (networks e.address.text).map showNormalized := by
  obtain ⟨addr, suffix, htoken⟩ := token_of_spelled e.spelled
  rw [parseLine, content_of_decorated htoken e.noBlank h, if_neg htoken.ne_nil,
    netblockAndPrefix_token e.noBlank htoken.ne_nil, candidates_eq]

theorem Entry.line_ne_nil (e : Entry) : e.line ≠ [] := by
  obtain ⟨addr, suffix, htoken⟩ := token_of_spelled e.spelled
  obtain ⟨before, after, comment, hline, -⟩ := e.decorated.split
  rw [hline]
  intro hnil
  simp only [List.append_eq_nil_iff] at hnil
  exact htoken.ne_nil hnil.1.1.2

theorem Entry.parseLine_stripCr (e : Entry) :
    parseLine (stripCr e.line) = (networks e.address.text).map showNormalized := by
  obtain ⟨addr, suffix, htoken⟩ := token_of_spelled e.spelled
  exact parseLine_of_decorated e (decorated_stripCr htoken.ne_nil e.noBlank e.decorated)

/-- The feed emits what its tokens give, in order. -/
theorem parse_listing (final : Bool) (entries : List Entry) :
    (lines (listing final (entries.map Entry.line))).flatMap parseLine =
      (entries.flatMap fun e => networks e.address.text).map showNormalized := by
  induction entries with
  | nil => rfl
  | cons e entries ih =>
      rw [List.flatMap_cons, List.map_append]
      cases entries with
      | nil =>
          rw [List.flatMap_nil, List.map_nil, List.append_nil, List.map_cons, List.map_nil, listing]
          cases final with
          | true =>
              rw [if_pos rfl, lines_cons e.oneLine]
              exact (List.append_nil _).trans e.parseLine_stripCr
          | false =>
              rw [if_neg (by decide), List.append_nil, lines_last e.oneLine e.line_ne_nil]
              exact (List.append_nil _).trans (parseLine_of_decorated e e.decorated)
      | cons e' entries =>
          rw [List.map_cons, List.map_cons, listing, lines_cons e.oneLine, List.flatMap_cons,
            e.parseLine_stripCr, ← List.map_cons, ih]
          exact List.cons_ne_nil _ _

/-! ### Which spellings are taken -/

/-- The spelling is one the pattern takes whole: of IPv4, no prefix length, one of at most two
digits or of value zero, or a signed 32; of IPv6 without a dotted quad the same with three digits
and 128; of IPv6 with a quad, only a single address that its groups and first number give alone. -/
def Recognised (a : Address) : Prop :=
  match cidrParts a.text with
  | none => False
  | some (addr, suffix) =>
      match a.net with
      | .v4 _ len => PrefixTaken 2 32 len suffix
      | .v6 bits len => Ipv6Taken addr bits len suffix

/-- What an address gives, by its family. -/
def Found (a : Address) (found : List IpNetwork) : Prop :=
  (match family a.net with
    | .v4 => found ≠ []
    | .v6 => found.length ≤ 1) ∧
  (∀ net ∈ found, family net = family a.net) ∧ (found = [a.net] ↔ Recognised a)

theorem Entry.found (e : Entry) : Found e.address (networks e.address.text) := by
  have hspelled := e.spelled
  generalize hnet : e.address.net = net at hspelled
  generalize htext : e.address.text = text at hspelled
  cases hspelled with
  | v4 ip len suffix hslash hlen =>
      have hparts := cidrParts_slashed (slash_notMem (all_showIpv4Addr ip)) hslash
      have hrec : Recognised e.address ↔ PrefixTaken 2 32 len suffix := by
        rw [Recognised, htext, hparts, hnet]
      obtain ⟨hne, hfamily, hiff⟩ := @networks_ipv4_token ip len suffix hlen
      rw [Found, hnet, hrec]
      exact ⟨hne, hfamily, hiff⟩
  | v6 addr bits len suffix hslash haddr hlen =>
      have hparts := cidrParts_slashed (slash_notMem (all_of_parseIpv6Addr haddr)) hslash
      have hrec : Recognised e.address ↔ Ipv6Taken addr bits len suffix := by
        rw [Recognised, htext, hparts, hnet]
      obtain ⟨hle, hfamily, hiff⟩ := networks_ipv6_token haddr hlen
      rw [Found, hnet, hrec]
      exact ⟨hle, hfamily, hiff⟩

/-! ### No line makes up for another -/

theorem eq_of_sum_eq {α : Type*} {l : List α} {f g : α → ℕ} (hle : ∀ a ∈ l, g a ≤ f a)
    (hsum : (l.map f).sum = (l.map g).sum) : ∀ a ∈ l, f a = g a := by
  induction l with
  | nil => simp
  | cons a l ih =>
      have htail : (l.map g).sum ≤ (l.map f).sum :=
        List.sum_le_sum fun x hx => hle x (List.mem_cons_of_mem a hx)
      have hhead := hle a List.mem_cons_self
      rw [List.map_cons, List.map_cons, List.sum_cons, List.sum_cons] at hsum
      intro x hx
      rcases List.mem_cons.mp hx with rfl | hx
      · omega
      · exact ih (fun y hy => hle y (List.mem_cons_of_mem a hy)) (by omega) x hx

/-- The networks of one family among those a token gives. -/
theorem countP_family {a : Address} {found : List IpNetwork} (h : Found a found) (f : Family) :
    found.countP (fun net => family net = f) = if family a.net = f then found.length else 0 := by
  split
  case isTrue heq =>
    exact List.countP_eq_length.mpr fun net hnet =>
      decide_eq_true ((h.2.1 net hnet).trans heq)
  case isFalse hne =>
    exact List.countP_eq_zero.mpr fun net hnet heq =>
      hne ((h.2.1 net hnet).symm.trans (of_decide_eq_true heq))

theorem countP_eq_sum {α : Type*} (p : α → Bool) (l : List α) :
    l.countP p = (l.map fun a => if p a then 1 else 0).sum := by
  induction l with
  | nil => rfl
  | cons a l ih => rw [List.countP_cons, ih, List.map_cons, List.sum_cons, Nat.add_comm]

/-- Every token gives one network where the whole feed gives the right ones: counted by families,
no token of IPv4 can give too few, and none of IPv6 too many. -/
theorem length_found {entries : List Entry}
    (h : (entries.flatMap fun e => networks e.address.text) =
      entries.map fun e => e.address.net) :
    ∀ e ∈ entries, (networks e.address.text).length = 1 := by
  have hcount : ∀ f : Family,
      (entries.map fun e => (networks e.address.text).countP fun net => family net = f).sum =
        (entries.map fun e => if family e.address.net = f then 1 else 0).sum := by
    intro f
    have hboth := congrArg (List.countP fun net => decide (family net = f)) h
    rw [List.countP_flatMap, List.countP_map, countP_eq_sum] at hboth
    simpa [Function.comp_def] using hboth
  have hcountP := fun (e : Entry) (f : Family) => countP_family e.found f
  have hv4 : ∀ e ∈ entries, ((networks e.address.text).countP fun net => family net = .v4) =
      if family e.address.net = .v4 then 1 else 0 := by
    refine eq_of_sum_eq (fun e _ => ?_) (hcount .v4)
    rw [hcountP]
    split
    case isTrue hfamily =>
      have hne := e.found.1
      rw [hfamily] at hne
      exact List.length_pos_iff.mpr hne
    case isFalse => exact Nat.le_refl 0
  have hv6 : ∀ e ∈ entries, (if family e.address.net = .v6 then 1 else 0) =
      (networks e.address.text).countP fun net => family net = .v6 := by
    refine eq_of_sum_eq (fun e _ => ?_) (hcount .v6).symm
    rw [hcountP]
    split
    case isTrue hfamily =>
      have hle := e.found.1
      rw [hfamily] at hle
      exact hle
    case isFalse => exact Nat.le_refl 0
  intro e he
  cases hfamily : family e.address.net with
  | v4 =>
      have heq := hv4 e he
      rwa [hcountP, if_pos hfamily, if_pos hfamily] at heq
  | v6 =>
      have heq := hv6 e he
      rw [hcountP, if_pos hfamily, if_pos hfamily] at heq
      exact heq.symm

/-- A feed gives the right networks where each of its tokens does. -/
theorem networks_listed_iff (entries : List Entry) :
    (entries.flatMap fun e => networks e.address.text) = (entries.map fun e => e.address.net) ↔
      ∀ e ∈ entries, networks e.address.text = [e.address.net] := by
  constructor
  · intro h
    have hlength := length_found h
    induction entries with
    | nil => simp
    | cons e entries ih =>
        obtain ⟨net, hnet⟩ := List.length_eq_one_iff.mp (hlength e List.mem_cons_self)
        rw [List.flatMap_cons, List.map_cons, hnet, List.singleton_append] at h
        obtain ⟨rfl, htail⟩ := List.cons.inj h
        have hrest := ih htail fun e he => hlength e (List.mem_cons_of_mem _ he)
        exact List.forall_mem_cons.mpr ⟨hnet, hrest⟩
  · intro h
    rw [List.flatMap_congr h, ← List.map_eq_flatMap]

/-- The records of a feed whose addresses are emitted in order. -/
def recordsOf (entries : List Entry) : List ParsedRecord :=
  entries.map fun e => toRecord e.address.normalized

theorem toRecord_injective : Function.Injective toRecord := fun _ _ h =>
  String.ofList_injective (congrArg ParsedRecord.address h)

/-- **Which listed addresses the parser recognises.**  For every list of accepted addresses, one on
a line: the parser emits exactly their normalized forms, in order, if and only if each is spelled
as the pattern takes it. -/
theorem recognises_iff (final : Bool) (entries : List Entry) (config : Option String) :
    parse (utf8 (listing final (entries.map Entry.line))) config = .ok (recordsOf entries) ↔
      ∀ e ∈ entries, Recognised e.address := by
  have hrecords : recordsOf entries =
      ((entries.map fun e => e.address.net).map showNormalized).map toRecord := by
    rw [recordsOf, List.map_map, List.map_map]
    rfl
  rw [parse, fromUtf8Lossy_utf8, parse_listing, hrecords, Except.ok.injEq]
  rw [(List.map_injective_iff.mpr toRecord_injective).eq_iff,
    (List.map_injective_iff.mpr fun _ _ => showNormalized_injective).eq_iff, networks_listed_iff]
  exact forall₂_congr fun e _ => e.found.2.2

/-- A netmask is read as a prefix of two digits, and the rest of it as another address; an address
that ends in a dotted quad loses the quad. -/
theorem misreads_accepted :
    normalizeIpOrCidr "1.2.3.4/255.255.255.0".toList = some "1.2.3.4/24".toList ∧
      parse (utf8 "1.2.3.4/255.255.255.0\n".toList) none =
        .ok [⟨"1.2.3.4/25", none⟩, ⟨"5.255.255.0", none⟩] ∧
    normalizeIpOrCidr "::ffff:1.2.3.4".toList = some "::ffff:1.2.3.4".toList ∧
      parse (utf8 "::ffff:1.2.3.4\n".toList) none = .ok [⟨"::ffff:1", none⟩] := by
  decide +kernel

end SimplyIpSync.Parsers.RegexLine
