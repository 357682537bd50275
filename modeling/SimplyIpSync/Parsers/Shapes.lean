import SimplyIpSync.Parsers.Recognition

/-!
# What the pattern takes, by its shape

At the front of a text the pattern takes four numbers of up to three digits with dots between them,
or else two or more hexadecimal digits and colons; and a prefix length behind it.  A text in which
none of these pieces, as they are cut from the left, is an address is `Harmless`.  The shapes speak
of characters alone; `harmless_iff` ties them to the scan.
-/

namespace SimplyIpSync.Parsers.RegexLine

open SimplyIpSync.Crypto SimplyIpSync.Text SimplyIpSync.Net SimplyIpSync.Regex

/-! ### Shapes -/

/-- One to `n` digits. -/
def IsNumber (n : ℕ) (number : List Char) : Prop :=
  (∀ c ∈ number, isDigit c = true) ∧ 1 ≤ number.length ∧ number.length ≤ n

/-- The number takes no further digit of what follows. -/
def Stops (n : ℕ) (number rest : List Char) : Prop :=
  number.length = n ∨ ∀ c ∈ rest.head?, ¬isDigit c = true

/-- The prefix length that is taken before the rest; there is one wherever a slash and a digit
follow. -/
def TakesPrefix (n : ℕ) (rest : List Char) : Option (List Char) → Prop
  | none => ∀ c text, rest = '/' :: c :: text → ¬isDigit c = true
  | some number => IsNumber n number ∧ Stops n number rest

/-- Four numbers with dots between them. -/
def quadText (a b c d : List Char) : List Char := a ++ '.' :: (b ++ '.' :: (c ++ '.' :: d))

/-- The text begins with four numbers. -/
def BeginsQuad (text : List Char) : Prop :=
  ∃ a b c d rest, IsNumber 3 a ∧ IsNumber 3 b ∧ IsNumber 3 c ∧ IsNumber 3 d ∧
    text = quadText a b c d ++ rest

/-- What the pattern takes. -/
inductive Piece
  | quad (a b c d : List Char) (len : Option (List Char))
  | groups (run : List Char) (len : Option (List Char))

def Piece.text : Piece → List Char
  | .quad a b c d len => quadText a b c d ++ slashed len
  | .groups run len => run ++ slashed len

/-- The piece is taken where it stands before the rest. -/
def Piece.Fits (rest : List Char) : Piece → Prop
  | .quad a b c d len =>
      IsNumber 3 a ∧ IsNumber 3 b ∧ IsNumber 3 c ∧ IsNumber 3 d ∧
        Stops 3 d (slashed len ++ rest) ∧ TakesPrefix 2 rest len
  | .groups run len =>
      (∀ c ∈ run, isHexColon c = true) ∧ 2 ≤ run.length ∧
        (∀ c ∈ (slashed len ++ rest).head?, ¬isHexColon c = true) ∧
        ¬BeginsQuad (run ++ slashed len ++ rest) ∧ TakesPrefix 3 rest len

/-- A number below 256 without a zero in front. -/
def IsOctet (number : List Char) : Prop := ∃ n < 256, number = showDec n

/-- The prefix length, if there is one, is at most `max`. -/
def PrefixUpTo (max : ℕ) (len : Option (List Char)) : Prop :=
  ∀ number ∈ len, number.foldl (fun n c => n * 10 + (c.toNat - 48)) 0 ≤ max

/-- Four octets, or an IPv6 address, with a prefix length that fits. -/
def Piece.IsAddress : Piece → Prop
  | .quad a b c d len => (IsOctet a ∧ IsOctet b ∧ IsOctet c ∧ IsOctet d) ∧ PrefixUpTo 32 len
  | .groups run len => (parseIpv6Addr run).isSome ∧ PrefixUpTo 128 len

/-- Of the pieces that are cut from the text, none is an address. -/
inductive Harmless : List Char → Prop
  | nil : Harmless []
  | piece {p : Piece} {rest : List Char} (hfits : p.Fits rest) (hbad : ¬p.IsAddress)
      (hrest : Harmless rest) : Harmless (p.text ++ rest)
  | other {c : Char} {rest : List Char}
      (hnone : ∀ (p : Piece) back, p.Fits back → c :: rest ≠ p.text ++ back)
      (hrest : Harmless rest) : Harmless (c :: rest)

/-! ### Numbers -/

/-- The digits that are taken. -/
theorem first_digits_of_stops {n : ℕ} {number rest : List Char} (h : IsNumber n number)
    (hstop : Stops n number rest) : first (digits n) (number ++ rest) = some number.length := by
  obtain ⟨hdigit, hpos, hle⟩ := h
  rw [first_digits, List.takeWhile_append_of_pos hdigit, List.length_append]
  rcases hstop with hfull | hnext
  · have hmin : min (number.length + (rest.takeWhile isDigit).length) n = number.length := by omega
    rw [hmin, if_pos hpos]
  · have hnone : rest.takeWhile isDigit = [] := by
      cases rest with
      | nil => rfl
      | cons c rest => exact List.takeWhile_cons_of_neg (hnext c rfl)
    rw [hnone, List.length_nil, Nat.add_zero, min_eq_left hle, if_pos hpos]

/-- Where a digit stands, a number is taken. -/
theorem exists_number {n : ℕ} (hn : 0 < n) {c : Char} (hc : isDigit c = true) (text : List Char) :
    ∃ number rest, c :: text = number ++ rest ∧ IsNumber n number ∧ Stops n number rest := by
  have hrun : 1 ≤ ((c :: text).takeWhile isDigit).length := by
    rw [List.takeWhile_cons_of_pos hc]
    simp
  generalize hdigits : (c :: text).takeWhile isDigit = run at hrun
  have hall : ∀ x ∈ run, isDigit x = true := fun x hx => by
    rw [← hdigits] at hx
    exact List.mem_takeWhile_imp hx
  have hsplit : c :: text = run ++ (c :: text).dropWhile isDigit := by
    rw [← hdigits, List.takeWhile_append_dropWhile]
  refine ⟨run.take n, run.drop n ++ (c :: text).dropWhile isDigit, ?_, ?_, ?_⟩
  · rw [← List.append_assoc, List.take_append_drop, ← hsplit]
  · refine ⟨fun x hx => hall x (List.mem_of_mem_take hx), ?_, ?_⟩
    · rw [List.length_take]
      omega
    · rw [List.length_take]
      exact min_le_left _ _
  · rcases Nat.lt_or_ge run.length n with hlt | hge
    · right
      rw [List.drop_eq_nil_of_le hlt.le, List.nil_append]
      intro x hx
      have hhead := List.head?_dropWhile_not isDigit (c :: text)
      rw [Option.mem_def.mp hx] at hhead
      simpa using hhead
    · left
      rw [List.length_take, min_eq_left hge]

/-- The prefix length that is taken. -/
theorem first_prefixPattern_of_takes {n : ℕ} {rest : List Char} {len : Option (List Char)}
    (h : TakesPrefix n rest len) :
    first (prefixPattern n) (slashed len ++ rest) = some (slashed len).length := by
  rw [prefixPattern, first_opt]
  cases len with
  | some number =>
      rw [slashed, List.cons_append, first_one_seq, first_digits_of_stops h.1 h.2, Option.map_some,
        Option.getD_some, List.length_cons, Nat.add_comm]
  | none =>
      rw [slashed, List.nil_append, List.length_nil]
      cases rest with
      | nil => rfl
      | cons x rest =>
          by_cases hslash : x = '/'
          · subst hslash
            rw [first_one_seq]
            have hnone : first (digits n) rest = none := by
              cases rest with
              | nil => rfl
              | cons c rest =>
                  rw [first_digits, List.takeWhile_cons_of_neg (h c rest rfl)]
                  simp
            rw [hnone, Option.map_none, Option.getD_none]
          · rw [first_one_seq_none hslash, Option.getD_none]

theorem exists_takesPrefix {n : ℕ} (hn : 0 < n) (text : List Char) :
    ∃ len rest, text = slashed len ++ rest ∧ TakesPrefix n rest len := by
  by_cases hdigit : ∃ c rest, text = '/' :: c :: rest ∧ isDigit c = true
  · obtain ⟨c, rest, rfl, hc⟩ := hdigit
    obtain ⟨number, back, hsplit, hnumber, hstop⟩ := exists_number hn hc rest
    refine ⟨some number, back, ?_, hnumber, hstop⟩
    rw [hsplit, slashed, List.cons_append]
  · refine ⟨none, text, rfl, fun c rest htext hc => hdigit ⟨c, rest, htext, hc⟩⟩

/-! ### Dotted quads -/

/-- **A quad is taken**, with its prefix length. -/
theorem first_quad {a b c d rest : List Char} {len : Option (List Char)} (ha : IsNumber 3 a)
    (hb : IsNumber 3 b) (hc : IsNumber 3 c) (hd : IsNumber 3 d)
    (hstop : Stops 3 d (slashed len ++ rest)) (hlen : TakesPrefix 2 rest len) :
    first ipv4Pattern (quadText a b c d ++ slashed len ++ rest) =
      some (quadText a b c d ++ slashed len).length := by
  have hlast : first (.seq (digits 3) (prefixPattern 2)) (d ++ (slashed len ++ rest)) =
      some (d.length + (slashed len).length) := by
    refine first_seq_of_first (first_digits_of_stops hd hstop) ?_
    rw [List.drop_left]
    exact first_prefixPattern_of_takes hlen
  simp only [quadText, ipv4Pattern, List.append_assoc, List.cons_append,
    first_octet_dot ha.1 ha.2, first_octet_dot hb.1 hb.2, first_octet_dot hc.1 hc.2, hlast,
    Option.map_some, List.length_append, List.length_cons]
  congr 1
  omega

/-- What the pattern takes before a dot. -/
theorem octet_dot_of_first {b : Pattern Char} {text : List Char} {n : ℕ}
    (h : first (.seq (digits 3) (.seq (one '.') b)) text = some n) :
    ∃ number rest m, IsNumber 3 number ∧ text = number ++ '.' :: rest ∧ first b rest = some m := by
  have hdigits : ∀ c ∈ text.takeWhile isDigit, isDigit c = true := fun c hc =>
    List.mem_takeWhile_imp hc
  have hstop : ∀ c ∈ (text.dropWhile isDigit).head?, ¬isDigit c = true := fun c hc => by
    have hhead := List.head?_dropWhile_not isDigit text
    rw [Option.mem_def.mp hc] at hhead
    simpa using hhead
  have hdot : ∀ c text, isDigit c = true → first (.seq (one '.') b) (c :: text) = none :=
    fun c text hc => first_one_seq_none (fun heq => absurd (heq ▸ hc) (by decide)) b text
  have hsplit := List.takeWhile_append_dropWhile (p := isDigit) (l := text)
  rw [← hsplit, digits, first_seq_rep hdigits hstop hdot] at h
  obtain ⟨⟨hpos, hle⟩, hrest⟩ := Option.ite_none_right_eq_some.mp h
  obtain ⟨m, hm, -⟩ := Option.map_eq_some_iff.mp hrest
  generalize htail : text.dropWhile isDigit = tail at hsplit hm
  cases tail with
  | nil => cases hm
  | cons x tail =>
      by_cases hx : x = '.'
      · subst hx
        rw [first_one_seq] at hm
        obtain ⟨k, hk, -⟩ := Option.map_eq_some_iff.mp hm
        exact ⟨_, tail, k, ⟨hdigits, hpos, hle 3 rfl⟩, hsplit.symm, hk⟩
      · rw [first_one_seq_none hx] at hm
        cases hm

/-- **Only quads are taken**: where the pattern of IPv4 matches, four numbers begin. -/
theorem beginsQuad_of_first {text : List Char} {n : ℕ} (h : first ipv4Pattern text = some n) :
    BeginsQuad text := by
  obtain ⟨a, rest, _, ha, rfl, hsecond⟩ := octet_dot_of_first h
  obtain ⟨b, rest, _, hb, rfl, hthird⟩ := octet_dot_of_first hsecond
  obtain ⟨c, rest, _, hc, rfl, hlast⟩ := octet_dot_of_first hthird
  cases rest with
  | nil => cases hlast
  | cons x rest =>
      have hx : isDigit x = true := by
        by_contra hx
        rw [digits, first_seq_rep_none Nat.one_pos hx] at hlast
        cases hlast
      have hd : IsNumber 3 [x] := ⟨by simpa using hx, le_rfl, by simp⟩
      refine ⟨a, b, c, [x], rest, ha, hb, hc, hd, ?_⟩
      simp [quadText]

/-- Where four numbers begin, a quad fits. -/
theorem exists_quad {text : List Char} (h : BeginsQuad text) :
    ∃ a b c d len rest, (Piece.quad a b c d len).Fits rest ∧
      text = (Piece.quad a b c d len).text ++ rest := by
  obtain ⟨a, b, c, d, back, ha, hb, hc, hd, rfl⟩ := h
  cases d with
  | nil => exact absurd hd.2.1 (by decide)
  | cons x d =>
      obtain ⟨number, rest, hsplit, hnumber, hstop⟩ :=
        exists_number (show 0 < 3 by decide) (hd.1 x List.mem_cons_self) (d ++ back)
      obtain ⟨len, tail, rfl, hlen⟩ := exists_takesPrefix (show 0 < 2 by decide) rest
      refine ⟨a, b, c, number, len, tail, ⟨ha, hb, hc, hnumber, hstop, hlen⟩, ?_⟩
      simp only [Piece.text, quadText, List.append_assoc, List.cons_append]
      rw [← hsplit]

/-! ### What is taken -/

theorem first_ipv4Pattern_eq_none {text : List Char} (h : ¬BeginsQuad text) :
    first ipv4Pattern text = none :=
  Option.eq_none_iff_forall_ne_some.mpr fun _ hn => h (beginsQuad_of_first hn)

/-- **A piece that fits is taken.** -/
theorem first_piece {p : Piece} {rest : List Char} (h : p.Fits rest) :
    first ipTokenPattern (p.text ++ rest) = some p.text.length := by
  cases p with
  | quad a b c d len =>
      obtain ⟨ha, hb, hc, hd, hstop, hlen⟩ := h
      rw [ipTokenPattern, first_alt, Piece.text, first_quad ha hb hc hd hstop hlen, Option.some_or]
  | groups run len =>
      obtain ⟨hrun, hlength, hstop, hquad, hlen⟩ := h
      rw [ipTokenPattern, first_alt, Piece.text, first_ipv4Pattern_eq_none hquad, Option.none_or,
        List.append_assoc, List.length_append]
      exact first_ipv6Pattern hrun hlength hstop (first_prefixPattern_of_takes hlen)

/-- **What is taken is a piece that fits.** -/
theorem exists_piece {text : List Char} {n : ℕ} (h : first ipTokenPattern text = some n) :
    ∃ (p : Piece) (rest : List Char), p.Fits rest ∧ text = p.text ++ rest := by
  by_cases hquad : BeginsQuad text
  · obtain ⟨a, b, c, d, len, rest, hfits, htext⟩ := exists_quad hquad
    exact ⟨.quad a b c d len, rest, hfits, htext⟩
  · rw [ipTokenPattern, first_alt, first_ipv4Pattern_eq_none hquad, Option.none_or] at h
    have hsplit := List.takeWhile_append_dropWhile (p := isHexColon) (l := text)
    have hrun : ∀ c ∈ text.takeWhile isHexColon, isHexColon c = true := fun c hc =>
      List.mem_takeWhile_imp hc
    have hlength : 2 ≤ (text.takeWhile isHexColon).length := by
      by_contra hshort
      have hnone : ends (.rep isHexColon 2 none) text = [] := by
        rw [ends, runLength, Option.elim_none, List.eq_nil_iff_forall_not_mem]
        intro k hk
        have hk := mem_descend.mp hk
        omega
      rw [ipv6Pattern, first_seq, hnone] at h
      cases h
    obtain ⟨len, rest, htail, hlen⟩ :=
      exists_takesPrefix (show 0 < 3 by decide) (text.dropWhile isHexColon)
    have htext : text = text.takeWhile isHexColon ++ slashed len ++ rest := by
      rw [List.append_assoc, ← htail, hsplit]
    refine ⟨.groups (text.takeWhile isHexColon) len, rest, ⟨hrun, hlength, ?_, ?_, hlen⟩, htext⟩
    · rw [← htail]
      intro c hc
      have hhead := List.head?_dropWhile_not isHexColon text
      rw [Option.mem_def.mp hc] at hhead
      simpa using hhead
    · rwa [← htext]

/-! ### What is accepted -/

theorem IsNumber.notMem {n : ℕ} {number : List Char} (h : IsNumber n number) {c : Char}
    (hc : ¬isDigit c = true) : c ∉ number := fun hmem => hc (h.1 c hmem)

/-- Texts up to the first dot. -/
theorem dot_append_inj {a b s t : List Char} (ha : '.' ∉ a) (hb : '.' ∉ b)
    (h : a ++ '.' :: s = b ++ '.' :: t) : a = b ∧ s = t := by
  have hfront := congrArg beforeDot h
  rw [beforeDot_append ha, beforeDot_append hb] at hfront
  subst hfront
  exact ⟨rfl, (List.cons.inj (List.append_cancel_left h)).2⟩

/-- **Which four numbers are an IPv4 address.** -/
theorem parseIpv4Addr_quadText {a b c d : List Char} (ha : IsNumber 3 a) (hb : IsNumber 3 b)
    (hc : IsNumber 3 c) :
    (parseIpv4Addr (quadText a b c d)).isSome ↔
      IsOctet a ∧ IsOctet b ∧ IsOctet c ∧ IsOctet d := by
  have hdot : ¬isDigit '.' = true := by decide
  have hshow : ∀ n < 256, '.' ∉ showDec n := fun n hn hmem => hdot ((showDec_octet hn).1 '.' hmem)
  rw [Option.isSome_iff_exists]
  constructor
  · rintro ⟨bits, hbits⟩
    have htext := parseIpv4Addr_eq_some.mp hbits
    obtain ⟨hfirst, hsecond, hthird, hfourth⟩ := octets_lt bits
    have hquad : quadText a b c d = quadText (showDec (octets bits).1) (showDec (octets bits).2.1)
      (showDec (octets bits).2.2.1) (showDec (octets bits).2.2.2) := htext
    obtain ⟨haEq, hrest⟩ := dot_append_inj (ha.notMem hdot) (hshow _ hfirst) hquad
    obtain ⟨hbEq, hrest⟩ := dot_append_inj (hb.notMem hdot) (hshow _ hsecond) hrest
    obtain ⟨hcEq, hdEq⟩ := dot_append_inj (hc.notMem hdot) (hshow _ hthird) hrest
    exact ⟨⟨_, hfirst, haEq⟩, ⟨_, hsecond, hbEq⟩, ⟨_, hthird, hcEq⟩, ⟨_, hfourth, hdEq⟩⟩
  · rintro ⟨⟨i, hi, rfl⟩, ⟨j, hj, rfl⟩, ⟨k, hk, rfl⟩, ⟨l, hl, rfl⟩⟩
    refine ⟨BitVec.ofNat 32 (((i * 256 + j) * 256 + k) * 256 + l), parseIpv4Addr_eq_some.mpr ?_⟩
    rw [showIpv4Addr, octets_ofNat hi hj hk hl]
    rfl

/-- The value of digits, character by character. -/
theorem foldl_digitChars {digits : List ℕ} (h : ∀ d ∈ digits, d < 10) :
    (digitChars digits).foldl (fun n c => n * 10 + (c.toNat - 48)) 0 = ofDigits 10 digits := by
  have hvalue : ∀ d : Fin 10, (Nat.digitChar d).toNat - 48 = d.val := by decide
  rw [ofDigits, digitChars, List.foldl_map]
  refine List.foldl_ext _ _ 0 fun n d hd => ?_
  rw [hvalue ⟨d, h d hd⟩]

theorem exists_digitChars {n : ℕ} {number : List Char} (h : IsNumber n number) :
    ∃ digits : List ℕ, (∀ d ∈ digits, d < 10) ∧ digits ≠ [] ∧ number = digitChars digits := by
  have hread : ∀ c ∈ number, ∃ d, decDigit c = some d := fun c hc => by
    have hdigit := h.1 c hc
    rw [isDigit, Bool.and_eq_true, decide_eq_true_eq, decide_eq_true_eq] at hdigit
    exact ⟨_, if_pos hdigit⟩
  have hdigits : ∃ digits, number.mapM decDigit = some digits := by
    have hpos := h.2.1
    clear h hpos
    induction number with
    | nil => exact ⟨[], rfl⟩
    | cons c number ih =>
        obtain ⟨d, hd⟩ := hread c List.mem_cons_self
        obtain ⟨digits, hrest⟩ := ih fun c hc => hread c (List.mem_cons_of_mem _ hc)
        exact ⟨d :: digits, by rw [List.mapM_cons, hd, hrest]; rfl⟩
  obtain ⟨digits, hdigits⟩ := hdigits
  obtain ⟨hlt, rfl⟩ := mapM_decDigit_eq_some hdigits
  refine ⟨digits, hlt, fun hnil => ?_, rfl⟩
  rw [hnil] at h
  exact absurd h.2.1 (by decide)

/-- **Which numbers are prefix lengths.** -/
theorem parsePrefix_number {n max : ℕ} {number : List Char} (h : IsNumber n number)
    (hmax : max < 256) :
    (parsePrefix number max).isSome ↔
      number.foldl (fun n c => n * 10 + (c.toNat - 48)) 0 ≤ max := by
  obtain ⟨digits, hlt, hne, rfl⟩ := exists_digitChars h
  have hnumeral : Numeral digits (ofDigits 10 digits) := ⟨hne, hlt, rfl⟩
  rw [foldl_digitChars hlt, Option.isSome_iff_exists]
  constructor
  · rintro ⟨k, hk⟩
    obtain ⟨hle, digits', hnumeral', hsplit⟩ := parsePrefix_spec hk
    rcases hsplit with hsame | hsign
    · rwa [← foldl_digitChars hlt, hsame, foldl_digitChars hnumeral'.lt, hnumeral'.value]
    · exact absurd (hsign ▸ List.mem_cons_self) (h.notMem (show ¬isDigit '+' = true by decide))
  · intro hle
    exact ⟨_, parsePrefix_digitChars hnumeral hmax hle⟩

/-- A prefix length that is taken is digits alone. -/
theorem TakesPrefix.digits {n : ℕ} {rest : List Char} {len : Option (List Char)}
    (h : TakesPrefix n rest len) : ∀ number ∈ len, IsNumber n number := fun number hnumber => by
  cases hnumber
  exact h.1

/-- **Which prefix lengths are read.** -/
theorem ipv4Prefix_cases {n : ℕ} {len : Option (List Char)}
    (h : ∀ number ∈ len, IsNumber n number) :
    (∃ k < 33, ipv4Prefix len = some k) ↔ PrefixUpTo 32 len := by
  cases len with
  | none => exact iff_of_true ⟨32, by decide, rfl⟩ (fun _ hnone => by cases hnone)
  | some number =>
      have hnumber := h number rfl
      have hread := parsePrefix_number hnumber (show 32 < 256 by decide)
      rw [ipv4Prefix, parseIpv4Addr_eq_none (hnumber.notMem (by decide)), PrefixUpTo]
      simp only [Option.mem_def, Option.some.injEq, forall_eq', ← hread, Option.isSome_iff_exists]
      constructor
      · rintro ⟨k, -, hk⟩
        exact ⟨k, hk⟩
      · rintro ⟨k, hk⟩
        exact ⟨k, Nat.lt_succ_of_le (parsePrefix_spec hk).1, hk⟩

theorem ipv6Prefix_cases {n : ℕ} {len : Option (List Char)}
    (h : ∀ number ∈ len, IsNumber n number) :
    (∃ k < 129, ipv6Prefix len = some k) ↔ PrefixUpTo 128 len := by
  cases len with
  | none => exact iff_of_true ⟨128, by decide, rfl⟩ (fun _ hnone => by cases hnone)
  | some number =>
      have hread := parsePrefix_number (h number rfl) (show 128 < 256 by decide)
      rw [ipv6Prefix, PrefixUpTo]
      simp only [Option.mem_def, Option.some.injEq, forall_eq', ← hread, Option.isSome_iff_exists]
      constructor
      · rintro ⟨k, -, hk⟩
        exact ⟨k, hk⟩
      · rintro ⟨k, hk⟩
        exact ⟨k, Nat.lt_succ_of_le (parsePrefix_spec hk).1, hk⟩

/-- Both readers, on an address with a prefix length of digits. -/
theorem parseIpv4Network_isSome {n : ℕ} {addr : List Char} {len : Option (List Char)}
    (haddr : '/' ∉ addr) (h : ∀ number ∈ len, IsNumber n number) :
    (parseIpv4Network (addr ++ slashed len)).isSome ↔
      (parseIpv4Addr addr).isSome ∧ PrefixUpTo 32 len := by
  have hparts := cidrParts_slashed haddr fun number hnumber =>
    (h number hnumber).notMem (show ¬isDigit '/' = true by decide)
  rw [← ipv4Prefix_cases h]
  simp only [parseIpv4Network, hparts, Option.bind_eq_bind, Option.bind_some]
  cases parseIpv4Addr addr with
  | none => simp
  | some bits =>
      cases ipv4Prefix len with
      | none => simp
      | some k => by_cases hk : k < 33 <;> simp [hk]

theorem parseIpv6Network_isSome {n : ℕ} {addr : List Char} {len : Option (List Char)}
    (haddr : '/' ∉ addr) (h : ∀ number ∈ len, IsNumber n number) :
    (parseIpv6Network (addr ++ slashed len)).isSome ↔
      (parseIpv6Addr addr).isSome ∧ PrefixUpTo 128 len := by
  have hparts := cidrParts_slashed haddr fun number hnumber =>
    (h number hnumber).notMem (show ¬isDigit '/' = true by decide)
  rw [← ipv6Prefix_cases h]
  simp only [parseIpv6Network, hparts, Option.bind_eq_bind, Option.bind_some]
  cases parseIpv6Addr addr with
  | none => simp
  | some bits =>
      cases ipv6Prefix len with
      | none => simp
      | some k => by_cases hk : k < 129 <;> simp [hk]

/-- Digits and dots. -/
theorem mem_quadText {a b c d : List Char} (ha : IsNumber 3 a) (hb : IsNumber 3 b)
    (hc : IsNumber 3 c) (hd : IsNumber 3 d) {x : Char} (h : x ∈ quadText a b c d) :
    isDigit x = true ∨ x = '.' := by
  simp only [quadText, List.mem_append, List.mem_cons] at h
  rcases h with h | h | h | h | h | h | h
  · exact .inl (ha.1 x h)
  · exact .inr h
  · exact .inl (hb.1 x h)
  · exact .inr h
  · exact .inl (hc.1 x h)
  · exact .inr h
  · exact .inl (hd.1 x h)

/-- **Which pieces `normalize_ip_or_cidr` takes.** -/
theorem normalize_piece {p : Piece} {rest : List Char} (h : p.Fits rest) :
    (normalizeIpOrCidr p.text).isSome ↔ p.IsAddress := by
  rw [normalizeIpOrCidr_eq, Option.isSome_map]
  cases p with
  | quad a b c d len =>
      obtain ⟨ha, hb, hc, hd, -, htakes⟩ := h
      have hmem : ∀ x ∈ quadText a b c d, isDigit x = true ∨ x = '.' := fun x =>
        mem_quadText ha hb hc hd
      have hall : (quadText a b c d).all isAddressChar = true := List.all_eq_true.mpr fun x hx => by
        rcases hmem x hx with hdigit | rfl
        · exact isAddressChar_of_isDigit hdigit
        · decide
      have hcolon : ':' ∉ quadText a b c d := fun hx => absurd (hmem ':' hx) (by decide)
      have hnone : parseIpv6Addr (quadText a b c d) = none :=
        Option.eq_none_iff_forall_ne_some.mpr fun bits hbits =>
          hcolon (colon_mem_of_parseIpv6Addr hbits)
      have hslash := slash_notMem hall
      rw [Piece.text, denotes_slashed hall fun number hnumber =>
        (htakes.digits number hnumber).1, parseIpNetwork, Option.isSome_or, Bool.or_eq_true,
        parseIpv4Network_isSome hslash htakes.digits, parseIpv6Network_isSome hslash htakes.digits,
        parseIpv4Addr_quadText ha hb hc, hnone, Piece.IsAddress]
      simp
  | groups run len =>
      obtain ⟨hrun, -, -, -, htakes⟩ := h
      have hall : run.all isAddressChar = true := List.all_eq_true.mpr fun x hx =>
        isAddressChar_of_isGroupChar (hrun x hx)
      have hdot : '.' ∉ run := fun hx => absurd (hrun '.' hx) (by decide)
      have hslash := slash_notMem hall
      rw [Piece.text, denotes_slashed hall fun number hnumber =>
        (htakes.digits number hnumber).1, parseIpNetwork, Option.isSome_or, Bool.or_eq_true,
        parseIpv4Network_isSome hslash htakes.digits, parseIpv6Network_isSome hslash htakes.digits,
        parseIpv4Addr_eq_none hdot, Piece.IsAddress]
      simp

theorem normalize_piece_eq_none {p : Piece} {rest : List Char} (h : p.Fits rest) :
    normalizeIpOrCidr p.text = none ↔ ¬p.IsAddress := by
  rw [← normalize_piece h, Option.not_isSome_iff_eq_none]

/-! ### Harmless texts -/

theorem Piece.text_ne_nil {p : Piece} {rest : List Char} (h : p.Fits rest) : 0 < p.text.length := by
  cases p with
  | quad a b c d len => simp [Piece.text, quadText]
  | groups run len =>
      have hlength := h.2.1
      rw [Piece.text, List.length_append]
      omega

/-- The scan of a piece and what follows it. -/
theorem findIter_piece {p : Piece} {rest : List Char} (h : p.Fits rest) :
    findIter ipTokenPattern (p.text ++ rest) =
      ⟨0, p.text⟩ :: (findIter ipTokenPattern rest).map (Match.shift p.text.length) := by
  rw [findIter_of_first (Piece.text_ne_nil h) (first_piece h) (by simp), List.take_left,
    List.drop_left]

theorem forall_mem_shift {n : ℕ} {ms : List (Match Char)} :
    (∀ m ∈ ms.map (Match.shift n), normalizeIpOrCidr m.text = none) ↔
      ∀ m ∈ ms, normalizeIpOrCidr m.text = none := List.forall_mem_map

/-- **Harmless texts are those in which the scan finds nothing that is accepted.** -/
theorem harmless_iff {text : List Char} :
    Harmless text ↔ ∀ m ∈ findIter ipTokenPattern text, normalizeIpOrCidr m.text = none := by
  constructor
  · intro h
    induction h with
    | nil => exact fun m hm => by cases hm
    | piece hfits hbad _ ih =>
        rw [findIter_piece hfits, List.forall_mem_cons, forall_mem_shift]
        exact ⟨(normalize_piece_eq_none hfits).mpr hbad, ih⟩
    | @other c rest hnone _ ih =>
        have hfirst : first ipTokenPattern (c :: rest) = none := by
          refine Option.eq_none_iff_forall_ne_some.mpr fun n hn => ?_
          obtain ⟨p, back, hfits, htext⟩ := exists_piece hn
          exact hnone p back hfits htext
        rw [findIter_of_first_none hfirst, forall_mem_shift]
        exact ih
  · intro h
    induction hlength : text.length using Nat.strong_induction_on generalizing text with
    | _ n ih =>
        by_cases hpiece : ∃ (p : Piece) (rest : List Char), p.Fits rest ∧ text = p.text ++ rest
        · obtain ⟨p, rest, hfits, rfl⟩ := hpiece
          have hpos := Piece.text_ne_nil hfits
          rw [findIter_piece hfits, List.forall_mem_cons, forall_mem_shift] at h
          rw [List.length_append] at hlength
          exact .piece hfits ((normalize_piece_eq_none hfits).mp h.1)
            (ih rest.length (by omega) h.2 rfl)
        · cases text with
          | nil => exact .nil
          | cons c rest =>
              have hnone : first ipTokenPattern (c :: rest) = none :=
                Option.eq_none_iff_forall_ne_some.mpr fun k hk => hpiece (exists_piece hk)
              rw [findIter_of_first_none hnone, forall_mem_shift] at h
              rw [List.length_cons] at hlength
              refine .other (fun p back hfits htext => hpiece ⟨p, back, hfits, htext⟩) ?_
              exact ih rest.length (by omega) h rfl

/-- **One piece is the whole text** when it is the only match. -/
theorem findIter_whole_iff {token : List Char} :
    findIter ipTokenPattern token = [⟨0, token⟩] ↔ ∃ p : Piece, p.Fits [] ∧ p.text = token := by
  constructor
  · intro h
    cases token with
    | nil => cases h
    | cons c rest =>
        cases hfirst : first ipTokenPattern (c :: rest) with
        | none =>
            rw [findIter_of_first_none hfirst] at h
            obtain ⟨m, -, hm⟩ := List.mem_map.mp (h ▸ List.mem_singleton_self _)
            exact absurd (congrArg Match.start hm) (Nat.succ_ne_zero m.start)
        | some n =>
            obtain ⟨p, back, hfits, htext⟩ := exists_piece hfirst
            rw [htext, findIter_piece hfits] at h
            have hsame : p.text = p.text ++ back := congrArg Match.text (List.cons.inj h).1
            obtain rfl : back = [] := List.append_cancel_left (hsame.symm.trans (by simp))
            exact ⟨p, hfits, by rw [htext, List.append_nil]⟩
  · rintro ⟨p, hfits, rfl⟩
    have hscan := findIter_piece hfits
    rwa [List.append_nil, findIter_nil, List.map_nil] at hscan

end SimplyIpSync.Parsers.RegexLine
