import Mathlib.Tactic

/-!
# Leftmost-first matching

Patterns over a type of symbols: greedy repetitions of a class of symbols, sequences, ordered
alternatives, and options.  `ends` lists the lengths of all matches at the front of a text, in the
order a backtracking matcher tries them; the match is the first of them.  `findIter` scans a text
from the left for matches that do not overlap.  The patterns it is used with match no empty text.

A symbol that no class of a pattern takes is a wall: a match on one side of it depends on nothing
on the other.
-/

namespace SimplyIpSync.Regex

variable {α : Type*}

inductive Pattern (α : Type*)
  | rep (cls : α → Bool) (lo : ℕ) (hi : Option ℕ)
  | seq (a b : Pattern α)
  | alt (a b : Pattern α)
  | opt (a : Pattern α)

/-- `n`, `n - 1`, and so on down to `lo`. -/
def descend (lo : ℕ) : ℕ → List ℕ
  | 0 => if lo = 0 then [0] else []
  | n + 1 => if lo ≤ n + 1 then (n + 1) :: descend lo n else []

/-- The symbols of a class in front, at most `hi` of them. -/
def runLength (cls : α → Bool) (hi : Option ℕ) (text : List α) : ℕ :=
  hi.elim (text.takeWhile cls).length fun hi => min (text.takeWhile cls).length hi

/-- The lengths of the matches at the front, the preferred one first. -/
def ends : Pattern α → List α → List ℕ
  | .rep cls lo hi, text => descend lo (runLength cls hi text)
  | .seq a b, text => (ends a text).flatMap fun n => (ends b (text.drop n)).map (n + ·)
  | .alt a b, text => ends a text ++ ends b text
  | .opt a, text => ends a text ++ [0]

/-- The length of the match at the front. -/
def first (p : Pattern α) (text : List α) : Option ℕ := (ends p text).head?

/-- A match: where it starts, and its text. -/
structure Match (α : Type*) where
  start : ℕ
  text : List α
  deriving DecidableEq, Repr

/-- The scan at `pos`, where the next `skip` symbols belong to the last match. -/
def scan (p : Pattern α) : ℕ → ℕ → List α → List (Match α)
  | _, _, [] => []
  | pos, skip + 1, _ :: text => scan p (pos + 1) skip text
  | pos, 0, x :: text =>
      match first p (x :: text) with
      | some (n + 1) => ⟨pos, (x :: text).take (n + 1)⟩ :: scan p (pos + 1) n text
      | _ => scan p (pos + 1) 0 text

/-- The matches in a text, from the left. -/
def findIter (p : Pattern α) (text : List α) : List (Match α) := scan p 0 0 text

/-! ### Ends -/

section Descend

-- their equations are made here once, before the proofs that unfold them
attribute [local simp] descend ends scan

theorem mem_descend {lo n k : ℕ} : k ∈ descend lo n ↔ lo ≤ k ∧ k ≤ n := by
  induction n with
  | zero =>
      rw [descend]
      split
      · rw [List.mem_singleton]
        omega
      · simp only [List.not_mem_nil, false_iff]
        omega
  | succ n ih =>
      rw [descend]
      split
      · rw [List.mem_cons, ih]
        omega
      · simp only [List.not_mem_nil, false_iff]
        omega

theorem head?_descend (lo n : ℕ) : (descend lo n).head? = if lo ≤ n then some n else none := by
  cases n with
  | zero =>
      rw [descend]
      by_cases hlo : lo = 0
      · rw [if_pos hlo, if_pos hlo.le]
        rfl
      · rw [if_neg hlo, if_neg fun hle => hlo (Nat.le_zero.mp hle)]
        rfl
  | succ n =>
      rw [descend]
      split
      · rfl
      · rfl

/-- A search down to `lo` that finds nothing below `n`. -/
theorem findSome?_descend {β : Type*} {f : ℕ → Option β} {lo n : ℕ}
    (h : ∀ k < n, f k = none) : (descend lo n).findSome? f = if lo ≤ n then f n else none := by
  have hnone : ∀ m < n, (descend lo m).findSome? f = none := fun m hm =>
    List.findSome?_eq_none_iff.mpr fun k hk =>
      h k (Nat.lt_of_le_of_lt (mem_descend.mp hk).2 hm)
  cases n with
  | zero =>
      rw [descend]
      by_cases hlo : lo = 0
      · rw [if_pos hlo, if_pos hlo.le, List.findSome?_singleton]
      · rw [if_neg hlo, if_neg fun hle => hlo (Nat.le_zero.mp hle), List.findSome?_nil]
  | succ n =>
      rw [descend]
      by_cases hlo : lo ≤ n + 1
      · rw [if_pos hlo, if_pos hlo, List.findSome?_cons, hnone n (Nat.lt_succ_self n)]
        cases f (n + 1) with
        | none => rfl
        | some b => rfl
      · rw [if_neg hlo, if_neg hlo, List.findSome?_nil]

end Descend

theorem runLength_le (cls : α → Bool) (hi : Option ℕ) (text : List α) :
    runLength cls hi text ≤ (text.takeWhile cls).length := by
  cases hi with
  | none => exact le_rfl
  | some hi => exact min_le_left _ _

/-- Every class of the pattern takes only symbols of `P`. -/
def Within (P : α → Prop) : Pattern α → Prop
  | .rep cls _ _ => ∀ x, cls x = true → P x
  | .seq a b => Within P a ∧ Within P b
  | .alt a b => Within P a ∧ Within P b
  | .opt a => Within P a

theorem within_true (p : Pattern α) : Within (fun _ => True) p := by
  induction p with
  | rep cls lo hi => exact fun _ _ => trivial
  | seq a b iha ihb => exact ⟨iha, ihb⟩
  | alt a b iha ihb => exact ⟨iha, ihb⟩
  | opt a ih => exact ih

/-- A match lies in the text, and consists of symbols of the pattern. -/
theorem ends_spec {P : α → Prop} {p : Pattern α} (hp : Within P p) {text : List α} {n : ℕ}
    (h : n ∈ ends p text) : n ≤ text.length ∧ ∀ x ∈ text.take n, P x := by
  induction p generalizing text n with
  | rep cls lo hi =>
      have hn : n ≤ (text.takeWhile cls).length :=
        Nat.le_trans (mem_descend.mp h).2 (runLength_le cls hi text)
      have hle : (text.takeWhile cls).length ≤ text.length :=
        (List.takeWhile_prefix cls).length_le
      refine ⟨Nat.le_trans hn hle, fun x hx => hp x ?_⟩
      have hsub : text.take n = (text.takeWhile cls).take n := by
        conv_lhs => rw [← List.takeWhile_append_dropWhile (p := cls) (l := text)]
        rw [List.take_append_of_le_length hn]
      rw [hsub] at hx
      exact List.all_eq_true.mp List.all_takeWhile x (List.mem_of_mem_take hx)
  | seq a b iha ihb =>
      obtain ⟨k, hk, hn⟩ := List.mem_flatMap.mp h
      obtain ⟨m, hm, rfl⟩ := List.mem_map.mp hn
      obtain ⟨hka, hta⟩ := iha hp.1 hk
      obtain ⟨hmb, htb⟩ := ihb hp.2 hm
      rw [List.length_drop] at hmb
      refine ⟨by omega, fun x hx => ?_⟩
      rw [List.take_add, List.mem_append] at hx
      exact hx.elim (hta x) (htb x)
  | alt a b iha ihb =>
      rcases List.mem_append.mp h with h | h
      · exact iha hp.1 h
      · exact ihb hp.2 h
  | opt a ih =>
      rcases List.mem_append.mp h with h | h
      · exact ih hp h
      · rw [List.mem_singleton.mp h]
        exact ⟨Nat.zero_le _, fun x hx => by simp at hx⟩

/-- The run of a class in front, up to a symbol that is not in it. -/
theorem takeWhile_run {cls : α → Bool} {front rest : List α}
    (hfront : ∀ x ∈ front, cls x = true) (hrest : ∀ x ∈ rest.head?, ¬ cls x = true) :
    (front ++ rest).takeWhile cls = front := by
  rw [List.takeWhile_append_of_pos hfront]
  cases rest with
  | nil => exact List.append_nil front
  | cons x rest => rw [List.takeWhile_cons_of_neg (hrest x rfl), List.append_nil]

theorem takeWhile_wall {cls : α → Bool} {x : α} (hx : ¬ cls x = true) (text rest : List α) :
    (text ++ x :: rest).takeWhile cls = text.takeWhile cls := by
  induction text with
  | nil => exact List.takeWhile_cons_of_neg hx
  | cons y text ih =>
      by_cases hy : cls y = true
      · rw [List.cons_append, List.takeWhile_cons_of_pos hy, List.takeWhile_cons_of_pos hy, ih]
      · rw [List.cons_append, List.takeWhile_cons_of_neg hy, List.takeWhile_cons_of_neg hy]

/-- **A match does not see past a wall.** -/
theorem ends_wall {P : α → Prop} {p : Pattern α} (hp : Within P p) {x : α} (hx : ¬ P x)
    (text rest : List α) : ends p (text ++ x :: rest) = ends p text := by
  induction p generalizing text with
  | rep cls lo hi =>
      have hcls : ¬ cls x = true := fun h => hx (hp x h)
      rw [ends, ends, runLength, runLength, takeWhile_wall hcls]
  | seq a b iha ihb =>
      rw [ends, ends, iha hp.1]
      refine List.flatMap_congr fun n hn => ?_
      rw [List.drop_append_of_le_length (ends_spec hp.1 hn).1, ihb hp.2]
  | alt a b iha ihb => rw [ends, ends, iha hp.1, ihb hp.2]
  | opt a ih => rw [ends, ends, ih hp]

/-! ### The preferred match -/

theorem first_rep (cls : α → Bool) (lo : ℕ) (hi : Option ℕ) (text : List α) :
    first (.rep cls lo hi) text =
      if lo ≤ runLength cls hi text then some (runLength cls hi text) else none :=
  head?_descend lo (runLength cls hi text)

theorem first_alt (a b : Pattern α) (text : List α) :
    first (.alt a b) text = (first a text).or (first b text) := by
  rw [first, ends, List.head?_append, first, first]

theorem first_opt (a : Pattern α) (text : List α) :
    first (.opt a) text = some ((first a text).getD 0) := by
  rw [first, ends, List.head?_append, first]
  cases (ends a text).head? with
  | none => rfl
  | some n => rfl

theorem head?_flatMap_ends (b : Pattern α) (text : List α) (lens : List ℕ) :
    (lens.flatMap fun n => (ends b (text.drop n)).map (n + ·)).head? =
      lens.findSome? fun n => (first b (text.drop n)).map (n + ·) := by
  induction lens with
  | nil => rfl
  | cons n lens ih =>
      rw [List.flatMap_cons, List.head?_append, ih, List.head?_map, List.findSome?_cons, first]
      cases (ends b (text.drop n)).head? with
      | none => rfl
      | some k => rfl

theorem first_seq (a b : Pattern α) (text : List α) :
    first (.seq a b) text =
      (ends a text).findSome? fun n => (first b (text.drop n)).map (n + ·) := by
  rw [first, ends, head?_flatMap_ends]

/-- Where both preferences fit together, they are the preference. -/
theorem first_seq_of_first {a b : Pattern α} {text : List α} {n k : ℕ}
    (ha : first a text = some n) (hb : first b (text.drop n) = some k) :
    first (.seq a b) text = some (n + k) := by
  rw [first_seq]
  cases hends : ends a text with
  | nil =>
      rw [first, hends] at ha
      cases ha
  | cons m ms =>
      rw [first, hends] at ha
      obtain rfl := Option.some.inj ha
      rw [List.findSome?_cons, hb]
      rfl

/-- A repetition of a class at the front of a pattern: where the rest of the pattern cannot begin
with a symbol of the class, the repetition takes the whole run or nothing matches. -/
theorem first_seq_rep {cls : α → Bool} {lo : ℕ} {hi : Option ℕ} {b : Pattern α}
    {front rest : List α} (hfront : ∀ x ∈ front, cls x = true)
    (hrest : ∀ x ∈ rest.head?, ¬ cls x = true)
    (hb : ∀ x text, cls x = true → first b (x :: text) = none) :
    first (.seq (.rep cls lo hi) b) (front ++ rest) =
      if lo ≤ front.length ∧ ∀ h ∈ hi, front.length ≤ h then
        (first b rest).map (front.length + ·)
      else none := by
  have hrun := takeWhile_run hfront hrest
  -- a cut inside the run leaves a symbol of the class
  have hcut : ∀ k < front.length, (first b ((front ++ rest).drop k)).map (k + ·) = none := by
    intro k hk
    obtain ⟨x, hx⟩ : ∃ x, front[k]? = some x := ⟨_, List.getElem?_eq_getElem hk⟩
    have hdrop : (front ++ rest).drop k = x :: (front.drop (k + 1) ++ rest) := by
      rw [List.drop_append_of_le_length hk.le, List.drop_eq_getElem_cons hk, List.cons_append]
      rw [List.getElem?_eq_getElem hk] at hx
      rw [Option.some.inj hx]
    rw [hdrop, hb x _ (hfront x (List.mem_of_getElem? hx)), Option.map_none]
  rw [first_seq, ends]
  by_cases hfits : ∀ h ∈ hi, front.length ≤ h
  · have hall : runLength cls hi (front ++ rest) = front.length := by
      cases hi with
      | none => rw [runLength, hrun, Option.elim_none]
      | some hi =>
          rw [runLength, hrun, Option.elim_some, min_eq_left (hfits hi rfl)]
    rw [hall, findSome?_descend hcut, List.drop_left]
    exact if_congr (and_iff_left hfits).symm rfl rfl
  · have hshort : runLength cls hi (front ++ rest) < front.length := by
      cases hi with
      | none => exact absurd (by simp) hfits
      | some hi =>
          have hlt : hi < front.length := by simpa using hfits
          rw [runLength, hrun, Option.elim_some]
          exact Nat.lt_of_le_of_lt (min_le_right _ _) hlt
    rw [findSome?_descend fun k hk => hcut k (Nat.lt_trans hk hshort), hcut _ hshort, ite_self,
      if_neg fun h => hfits h.2]

/-- The whole run of a class, where it is long enough and not too long. -/
theorem first_rep_of_run {cls : α → Bool} {lo : ℕ} {hi : Option ℕ} {front rest : List α}
    (hfront : ∀ x ∈ front, cls x = true) (hrest : ∀ x ∈ rest.head?, ¬ cls x = true) :
    first (.rep cls lo hi) (front ++ rest) =
      let n := hi.elim front.length (min front.length)
      if lo ≤ n then some n else none := by
  rw [first_rep, runLength, takeWhile_run hfront hrest]

/-- A pattern that begins with a symbol of a class does not begin with another one. -/
theorem first_seq_rep_none {cls : α → Bool} {lo : ℕ} {hi : Option ℕ} {b : Pattern α} {x : α}
    (hlo : 0 < lo) (hx : ¬ cls x = true) (text : List α) :
    first (.seq (.rep cls lo hi) b) (x :: text) = none := by
  have hrun : runLength cls hi (x :: text) = 0 := by
    have hle := runLength_le cls hi (x :: text)
    rw [List.takeWhile_cons_of_neg hx] at hle
    exact Nat.le_zero.mp hle
  rw [first_seq, ends, hrun, descend, if_neg (Nat.pos_iff_ne_zero.mp hlo), List.findSome?_nil]

/-! ### Scanning -/

/-- A match moved to the right. -/
def Match.shift (k : ℕ) (m : Match α) : Match α := ⟨m.start + k, m.text⟩

theorem map_shift_zero (ms : List (Match α)) : ms.map (Match.shift 0) = ms := List.map_id ms

theorem map_shift_shift (j k : ℕ) (ms : List (Match α)) :
    (ms.map (Match.shift j)).map (Match.shift k) = ms.map (Match.shift (j + k)) := by
  rw [List.map_map]
  exact List.map_congr_left fun m _ =>
    congrArg (fun start => Match.mk start m.text) (Nat.add_assoc m.start j k)

theorem scan_of_none {p : Pattern α} {x : α} {text : List α} (h : first p (x :: text) = none)
    (pos : ℕ) : scan p pos 0 (x :: text) = scan p (pos + 1) 0 text := by
  rw [scan, h]

theorem scan_of_some {p : Pattern α} {x : α} {text : List α} {n : ℕ}
    (h : first p (x :: text) = some (n + 1)) (pos : ℕ) :
    scan p pos 0 (x :: text) = ⟨pos, (x :: text).take (n + 1)⟩ :: scan p (pos + 1) n text := by
  rw [scan, h]

theorem scan_shift (p : Pattern α) (k pos skip : ℕ) (text : List α) :
    scan p (pos + k) skip text = (scan p pos skip text).map (Match.shift k) := by
  induction text generalizing pos skip with
  | nil =>
      cases skip with
      | zero => rfl
      | succ skip => rfl
  | cons x text ih =>
      have hnext : pos + k + 1 = pos + 1 + k := Nat.add_right_comm pos k 1
      cases skip with
      | succ skip => rw [scan, scan, hnext, ih]
      | zero =>
          rw [scan, scan, hnext]
          cases first p (x :: text) with
          | none => exact ih (pos + 1) 0
          | some n =>
              cases n with
              | zero => exact ih (pos + 1) 0
              | succ n =>
                  simp only [List.map_cons, ih]
                  rfl

theorem scan_skip (p : Pattern α) (pos skip : ℕ) (text : List α) :
    scan p pos skip text = scan p (pos + skip) 0 (text.drop skip) := by
  induction text generalizing pos skip with
  | nil =>
      rw [List.drop_nil]
      cases skip with
      | zero => rfl
      | succ skip => rfl
  | cons x text ih =>
      cases skip with
      | zero => rfl
      | succ skip => rw [scan, ih, List.drop_succ_cons, Nat.add_right_comm, Nat.add_assoc]

theorem findIter_nil (p : Pattern α) : findIter p [] = [] := rfl

theorem scan_eq (p : Pattern α) (pos : ℕ) (text : List α) :
    scan p pos 0 text = (findIter p text).map (Match.shift pos) := by
  rw [findIter, ← scan_shift, Nat.zero_add]

/-- No match here: the scan goes on at the next symbol. -/
theorem findIter_of_first_none {p : Pattern α} {x : α} {text : List α}
    (h : first p (x :: text) = none) :
    findIter p (x :: text) = (findIter p text).map (Match.shift 1) := by
  rw [findIter, scan_of_none h]
  exact scan_eq p 1 text

/-- A match: the scan goes on behind it. -/
theorem findIter_of_first {p : Pattern α} {text : List α} {n : ℕ} (hn : 0 < n)
    (h : first p text = some n) (hle : n ≤ text.length) :
    findIter p text = ⟨0, text.take n⟩ :: (findIter p (text.drop n)).map (Match.shift n) := by
  obtain ⟨n, rfl⟩ := Nat.exists_eq_add_one.mpr hn
  cases text with
  | nil => simp at hle
  | cons x text =>
      rw [findIter, scan_of_some h, scan_skip, scan_eq, List.drop_succ_cons, Nat.add_comm]

/-- **A wall cuts the scan in two.** -/
theorem findIter_wall {P : α → Prop} {p : Pattern α} (hp : Within P p) (hempty : ends p [] = [])
    {x : α} (hx : ¬ P x) (text rest : List α) :
    findIter p (text ++ x :: rest) =
      findIter p text ++ (findIter p rest).map (Match.shift (text.length + 1)) := by
  have hscan : ∀ text pos skip, skip ≤ text.length →
      scan p pos skip (text ++ x :: rest) =
        scan p pos skip text ++ scan p (pos + text.length + 1) 0 rest := by
    intro text
    induction text with
    | nil =>
        intro pos skip hskip
        obtain rfl := Nat.le_zero.mp hskip
        have hnone : first p (x :: rest) = none := by
          have hwall := ends_wall hp hx [] rest
          rw [List.nil_append, hempty] at hwall
          rw [first, hwall, List.head?_nil]
        rw [List.nil_append, scan_of_none hnone]
        rfl
    | cons y text ih =>
        intro pos skip hskip
        have hpos : pos + (y :: text).length + 1 = pos + 1 + text.length + 1 := by
          rw [List.length_cons]
          omega
        rw [hpos]
        cases skip with
        | succ skip => exact ih (pos + 1) skip (Nat.le_of_succ_le_succ hskip)
        | zero =>
            have hsame : first p (y :: text ++ x :: rest) = first p (y :: text) := by
              rw [first, ends_wall hp hx, first]
            rw [List.cons_append] at hsame ⊢
            rw [scan, scan, hsame]
            cases hfirst : first p (y :: text) with
            | none => exact ih (pos + 1) 0 (Nat.zero_le _)
            | some n =>
                cases n with
                | zero => exact ih (pos + 1) 0 (Nat.zero_le _)
                | succ n =>
                    have hle : n + 1 ≤ (y :: text).length :=
                      (ends_spec hp (List.mem_of_head? hfirst)).1
                    have htake : (y :: (text ++ x :: rest)).take (n + 1) =
                        (y :: text).take (n + 1) := by
                      rw [← List.cons_append, List.take_append_of_le_length hle]
                    simp only [ih (pos + 1) n (Nat.le_of_succ_le_succ hle), List.cons_append, htake]
  rw [findIter, hscan text 0 0 (Nat.zero_le _), Nat.zero_add, scan_eq p (text.length + 1)]
  rfl

/-- A match lies in the text at its place, is not empty, and consists of the pattern's symbols. -/
theorem findIter_spec {P : α → Prop} {p : Pattern α} (hp : Within P p) {text : List α}
    {m : Match α} (hm : m ∈ findIter p text) :
    m.text ≠ [] ∧ (∀ x ∈ m.text, P x) ∧
      ∃ front back, text = front ++ m.text ++ back ∧ front.length = m.start := by
  have hscan : ∀ text pos skip, m ∈ scan p pos skip text →
      m.text ≠ [] ∧ (∀ x ∈ m.text, P x) ∧
        ∃ front back, text = front ++ m.text ++ back ∧ pos + front.length = m.start := by
    intro text
    induction text with
    | nil =>
        intro pos skip hmem
        cases skip with
        | zero => cases hmem
        | succ skip => cases hmem
    | cons x text ih =>
        intro pos skip hmem
        have hlater : ∀ skip, m ∈ scan p (pos + 1) skip text →
            m.text ≠ [] ∧ (∀ x ∈ m.text, P x) ∧
              ∃ front back, x :: text = front ++ m.text ++ back ∧
                pos + front.length = m.start := by
          intro skip hmem
          obtain ⟨hne, hin, front, back, htext, hstart⟩ := ih (pos + 1) skip hmem
          refine ⟨hne, hin, x :: front, back, by rw [htext]; rfl, ?_⟩
          rw [List.length_cons]
          omega
        cases skip with
        | succ skip => exact hlater skip hmem
        | zero =>
            rw [scan] at hmem
            cases hfirst : first p (x :: text) with
            | none =>
                rw [hfirst] at hmem
                exact hlater 0 hmem
            | some n =>
                rw [hfirst] at hmem
                cases n with
                | zero => exact hlater 0 hmem
                | succ n =>
                    rcases List.mem_cons.mp hmem with rfl | hmem
                    · have hspec := ends_spec hp (List.mem_of_head? hfirst)
                      refine ⟨by simp, hspec.2, [], (x :: text).drop (n + 1), ?_, by simp⟩
                      rw [List.nil_append, List.take_append_drop]
                    · exact hlater n hmem
  obtain ⟨hne, hin, front, back, htext, hstart⟩ := hscan text 0 0 hm
  exact ⟨hne, hin, front, back, htext, by omega⟩

/-! ### Maximal runs -/

/-- `run` stands at `start`, consists of symbols of `P`, and no such symbol is next to it. -/
structure IsRun (P : α → Prop) (text : List α) (start : ℕ) (run : List α) : Prop where
  split : ∃ front back, text = front ++ run ++ back ∧ front.length = start ∧
    (∀ x ∈ front.getLast?, ¬ P x) ∧ ∀ x ∈ back.head?, ¬ P x
  ne_nil : run ≠ []
  all : ∀ x ∈ run, P x

theorem exists_left_end (P : α → Prop) (text : List α) :
    ∃ front run, text = front ++ run ∧ (∀ x ∈ run, P x) ∧ ∀ x ∈ front.getLast?, ¬ P x := by
  induction text using List.reverseRecOn with
  | nil => exact ⟨[], [], rfl, by simp, by simp⟩
  | append_singleton text x ih =>
      by_cases hx : P x
      · obtain ⟨front, run, rfl, hrun, hfront⟩ := ih
        refine ⟨front, run ++ [x], by rw [List.append_assoc], ?_, hfront⟩
        intro y hy
        rcases List.mem_append.mp hy with hy | hy
        · exact hrun y hy
        · rwa [List.mem_singleton.mp hy]
      · refine ⟨text ++ [x], [], by rw [List.append_nil], by simp, ?_⟩
        intro y hy
        rw [List.getLast?_append_cons, List.getLast?_singleton] at hy
        rwa [← Option.some.inj hy]

theorem exists_right_end (P : α → Prop) (text : List α) :
    ∃ run back, text = run ++ back ∧ (∀ x ∈ run, P x) ∧ ∀ x ∈ back.head?, ¬ P x := by
  induction text with
  | nil => exact ⟨[], [], rfl, by simp, by simp⟩
  | cons x text ih =>
      by_cases hx : P x
      · obtain ⟨run, back, rfl, hrun, hback⟩ := ih
        refine ⟨x :: run, back, rfl, ?_, hback⟩
        intro y hy
        rcases List.mem_cons.mp hy with rfl | hy
        · exact hx
        · exact hrun y hy
      · refine ⟨[], x :: text, rfl, by simp, ?_⟩
        intro y hy
        rwa [← Option.some.inj hy]

/-- Symbols of `P` next to each other lie in one run. -/
theorem exists_run {P : α → Prop} {word : List α} (hne : word ≠ [])
    (hword : ∀ x ∈ word, P x) (front back : List α) :
    ∃ start left right, IsRun P (front ++ word ++ back) start (left ++ word ++ right) ∧
      front.length = start + left.length := by
  obtain ⟨front, left, rfl, hleft, hfront⟩ := exists_left_end P front
  obtain ⟨right, back, rfl, hright, hback⟩ := exists_right_end P back
  refine ⟨front.length, left, right, ⟨⟨front, back, by simp, rfl, hfront, hback⟩, ?_, ?_⟩,
    List.length_append⟩
  · exact fun hnil => hne (by simpa using hnil : _ ∧ _ ∧ _).2.1
  · intro x hx
    rcases List.mem_append.mp hx with hx | hx
    · rcases List.mem_append.mp hx with hx | hx
      · exact hleft x hx
      · exact hword x hx
    · exact hright x hx

/-- A run inside a run is all of it. -/
theorem IsRun.eq_of_inside {P : α → Prop} {text run word : List α} {start : ℕ}
    {front back : List α} (hrun : IsRun P text start run) (hsplit : run = front ++ word ++ back)
    (hword : IsRun P text (start + front.length) word) : front = [] ∧ back = [] := by
  obtain ⟨⟨f, b, htext, rfl, -, -⟩, -, hall⟩ := hrun
  obtain ⟨⟨f', b', htext', hlength, hleft, hright⟩, -, -⟩ := hword
  have hsame : (f ++ front) ++ (word ++ (back ++ b)) = f' ++ (word ++ b') := by
    rw [← List.append_assoc f', ← htext', htext, hsplit]
    simp only [List.append_assoc]
  obtain ⟨rfl, hrest⟩ := List.append_inj hsame (by rw [List.length_append, hlength])
  obtain rfl := List.append_cancel_left hrest
  constructor
  · cases hfront : front.getLast? with
    | none => exact List.getLast?_eq_none_iff.mp hfront
    | some x =>
        have hlast : x ∈ (f ++ front).getLast? := by
          rw [List.getLast?_append, hfront]
          rfl
        have hmem : x ∈ run := by
          rw [hsplit]
          exact List.mem_append_left _ (List.mem_append_left _ (List.mem_of_getLast? hfront))
        exact absurd (hall x hmem) (hleft x hlast)
  · cases back with
    | nil => rfl
    | cons x back =>
        have hmem : x ∈ run := by
          rw [hsplit]
          exact List.mem_append_right _ List.mem_cons_self
        exact absurd (hall x hmem) (hright x rfl)

/-- A match of the whole text is the only one. -/
theorem findIter_eq_singleton {P : α → Prop} {p : Pattern α} (hp : Within P p) {run : List α}
    (h : ⟨0, run⟩ ∈ findIter p run) :
    findIter p run = [⟨0, run⟩] := by
  have hlate : ∀ n (ms : List (Match α)), 0 < n → ⟨0, run⟩ ∉ ms.map (Match.shift n) := by
    rintro n ms hn hmem
    obtain ⟨m, -, hm⟩ := List.mem_map.mp hmem
    have hstart : m.start + n = 0 := congrArg Match.start hm
    omega
  cases run with
  | nil => cases h
  | cons x run =>
      cases hfirst : first p (x :: run) with
      | none =>
          rw [findIter_of_first_none hfirst] at h
          exact absurd h (hlate 1 _ Nat.one_pos)
      | some n =>
          have hn : 0 < n := Nat.pos_of_ne_zero fun hzero => by
            subst hzero
            rw [findIter, scan, hfirst, scan_eq] at h
            exact hlate 1 _ Nat.one_pos h
          have hle := (ends_spec hp (List.mem_of_head? hfirst)).1
          have heq := findIter_of_first hn hfirst hle
          rw [heq] at h
          rcases List.mem_cons.mp h with htake | hmem
          · have htext : x :: run = (x :: run).take n := congrArg Match.text htake
            have hdrop : (x :: run).drop n = [] := by
              have hlength := congrArg List.length htext
              rw [List.length_take] at hlength
              exact List.drop_eq_nil_of_le (by omega)
            rw [heq, hdrop, findIter_nil, List.map_nil, ← htext]
          · exact absurd hmem (hlate n _ hn)

section

variable {P : α → Prop} {p : Pattern α} (hp : Within P p) (hempty : ends p [] = [])
include hp hempty

theorem findIter_append_left {front : List α} (hfront : ∀ x ∈ front.getLast?, ¬ P x)
    (rest : List α) :
    findIter p (front ++ rest) =
      findIter p front ++ (findIter p rest).map (Match.shift front.length) := by
  induction front using List.reverseRecOn with
  | nil => rw [List.nil_append, findIter_nil, List.nil_append, List.length_nil, map_shift_zero]
  | append_singleton front x _ =>
      have hx : ¬ P x := hfront x (by rw [List.getLast?_append_cons, List.getLast?_singleton]; rfl)
      rw [List.append_assoc, List.singleton_append, findIter_wall hp hempty hx,
        findIter_wall hp hempty hx, findIter_nil, List.map_nil, List.append_nil,
        List.length_append, List.length_singleton]

theorem findIter_append_right {back : List α} (hback : ∀ x ∈ back.head?, ¬ P x)
    (run : List α) :
    findIter p (run ++ back) =
      findIter p run ++ (findIter p back).map (Match.shift run.length) := by
  cases back with
  | nil => rw [List.append_nil, findIter_nil, List.map_nil, List.append_nil]
  | cons x back =>
      have hx : ¬ P x := hback x rfl
      have hskip := findIter_wall hp hempty hx [] back
      rw [List.nil_append, findIter_nil, List.nil_append, List.length_nil, Nat.zero_add] at hskip
      rw [findIter_wall hp hempty hx, hskip, map_shift_shift, Nat.add_comm]

/-- **The matches of a text are the matches of its runs.** -/
theorem mem_findIter_iff {text : List α} {m : Match α} :
    m ∈ findIter p text ↔
      ∃ start run, IsRun P text start run ∧ ∃ m' ∈ findIter p run, m = m'.shift start := by
  constructor
  · intro hm
    obtain ⟨hne, hin, front, back, rfl, hstart⟩ := findIter_spec hp hm
    obtain ⟨start, left, right, hrun, hlength⟩ := exists_run hne hin front back
    refine ⟨start, _, hrun, ?_⟩
    obtain ⟨⟨front', back', htext, rfl, hfront, hback⟩, -, -⟩ := hrun
    rw [htext, List.append_assoc, findIter_append_left hp hempty hfront,
      findIter_append_right hp hempty hback, List.map_append, List.mem_append,
      List.mem_append] at hm
    have hpos : 0 < m.text.length := List.length_pos_iff.mpr hne
    rcases hm with hm | hm | hm
    · -- a match before the run ends before it
      obtain ⟨-, -, a, b, hab, ha⟩ := findIter_spec hp hm
      have hle := congrArg List.length hab
      simp only [List.length_append] at hle
      omega
    · obtain ⟨m', hm', rfl⟩ := List.mem_map.mp hm
      exact ⟨m', hm', rfl⟩
    · -- a match behind the run begins behind it
      rw [map_shift_shift] at hm
      obtain ⟨m', -, hm'⟩ := List.mem_map.mp hm
      have hlate := congrArg Match.start hm'
      simp only [Match.shift, List.length_append] at hlate
      omega
  · rintro ⟨start, run, ⟨⟨front, back, rfl, rfl, hfront, hback⟩, -, -⟩, m', hm', rfl⟩
    rw [List.append_assoc, findIter_append_left hp hempty hfront,
      findIter_append_right hp hempty hback, List.map_append]
    exact List.mem_append_right _ (List.mem_append_left _ (List.mem_map_of_mem hm'))

/-- **When the good matches of a text are whole runs**: when in each run, taken alone, the match is
the run itself or no match is good. -/
theorem matches_whole_iff (good : List α → Prop) (text : List α) :
    (∀ m ∈ findIter p text, good m.text → IsRun P text m.start m.text) ↔
      ∀ start run, IsRun P text start run →
        findIter p run = [⟨0, run⟩] ∨ ∀ m ∈ findIter p run, ¬ good m.text := by
  constructor
  · intro h start run hrun
    by_cases hgood : ∃ m ∈ findIter p run, good m.text
    · obtain ⟨m, hm, hmgood⟩ := hgood
      have hwhole := h (m.shift start)
        ((mem_findIter_iff hp hempty).mpr ⟨start, run, hrun, m, hm, rfl⟩) hmgood
      obtain ⟨-, -, front, back, hsplit, hstart⟩ := findIter_spec hp hm
      have hword : IsRun P text (start + front.length) m.text := by
        rw [hstart, Nat.add_comm]
        exact hwhole
      obtain ⟨rfl, rfl⟩ := hrun.eq_of_inside hsplit hword
      rw [List.nil_append, List.append_nil] at hsplit
      have hmrun : m = ⟨0, run⟩ := by
        rw [hsplit, ← List.length_nil (α := α), hstart]
      exact .inl (findIter_eq_singleton hp (hmrun ▸ hm))
    · exact .inr fun m hm hmgood => hgood ⟨m, hm, hmgood⟩
  · intro h m hm hgood
    obtain ⟨start, run, hrun, m', hm', rfl⟩ := (mem_findIter_iff hp hempty).mp hm
    rcases h start run hrun with hwhole | hnone
    · rw [hwhole, List.mem_singleton] at hm'
      subst hm'
      rw [Match.shift, Nat.zero_add]
      exact hrun
    · exact absurd hgood (hnone m' hm')

end

end SimplyIpSync.Regex
