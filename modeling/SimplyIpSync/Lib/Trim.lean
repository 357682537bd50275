import Mathlib.Tactic
import Mathlib.Data.List.DropRight

/-!
# Trimming

A list without its longest front and its longest back of blanks.  What is left is the same whatever
blanks stood around it, and a list is its trimmed part between two runs of blanks.
-/

namespace SimplyIpSync.Trim

variable {α β : Type*} {p : α → Bool}

/-- `text` without the blanks at its ends. -/
def trimBy (p : α → Bool) (text : List α) : List α := (text.dropWhile p).rdropWhile p

/-- Blanks only. -/
def Blank (p : α → Bool) (text : List α) : Prop := ∀ b ∈ text, p b = true

theorem blank_cons {b : α} {text : List α} :
    Blank p (b :: text) ↔ p b = true ∧ Blank p text := List.forall_mem_cons

/-! ### The end of a text -/

theorem rdropWhile_of_blank {text : List α} (h : Blank p text) : text.rdropWhile p = [] :=
  List.rdropWhile_eq_nil_iff.mpr h

/-- A blank rest goes, and the blanks before it with it. -/
theorem rdropWhile_append_of_blank (front : List α) {rest : List α} (h : Blank p rest) :
    (front ++ rest).rdropWhile p = front.rdropWhile p := by
  have hreverse : ∀ b ∈ rest.reverse, p b = true := fun b hb => h b (List.mem_reverse.mp hb)
  rw [List.rdropWhile, List.reverse_append, List.dropWhile_append_of_pos hreverse]
  rfl

/-- Any other rest guards what is before it. -/
theorem rdropWhile_append_of_not_blank (front : List α) {rest : List α} (h : ¬Blank p rest) :
    (front ++ rest).rdropWhile p = front ++ rest.rdropWhile p := by
  have hne : (rest.reverse.dropWhile p).isEmpty ≠ true := by
    intro hempty
    have hall := List.dropWhile_eq_nil_iff.mp (List.isEmpty_iff.mp hempty)
    exact h fun b hb => hall b (List.mem_reverse.mpr hb)
  rw [List.rdropWhile, List.reverse_append, List.dropWhile_append, if_neg hne, List.reverse_append,
    List.reverse_reverse]
  rfl

/-- The blanks at the end may go first. -/
theorem dropWhile_rdropWhile (text : List α) :
    (text.rdropWhile p).dropWhile p = trimBy p text := by
  induction text with
  | nil => rfl
  | cons b text ih =>
      by_cases hblank : Blank p (b :: text)
      · have hall : (b :: text).dropWhile p = [] := List.dropWhile_eq_nil_iff.mpr hblank
        rw [trimBy, rdropWhile_of_blank hblank, hall]
        rfl
      · by_cases hb : p b = true
        · have htext : ¬Blank p text := fun h => hblank (blank_cons.mpr ⟨hb, h⟩)
          have hcons : (b :: text).rdropWhile p = b :: text.rdropWhile p :=
            rdropWhile_append_of_not_blank [b] htext
          rw [hcons, List.dropWhile_cons_of_pos hb, ih, trimBy, trimBy,
            List.dropWhile_cons_of_pos hb]
        · have hfront : (b :: text).dropWhile p = b :: text := List.dropWhile_cons_of_neg hb
          rw [trimBy, hfront]
          by_cases htext : Blank p text
          · have hcons : (b :: text).rdropWhile p = [b].rdropWhile p :=
              rdropWhile_append_of_blank [b] htext
            rw [hcons, List.rdropWhile_singleton, if_neg hb, List.dropWhile_cons_of_neg hb]
          · have hcons : (b :: text).rdropWhile p = b :: text.rdropWhile p :=
              rdropWhile_append_of_not_blank [b] htext
            rw [hcons, List.dropWhile_cons_of_neg hb]

/-! ### Both ends -/

/-- **Blanks around a text change nothing.** -/
theorem trimBy_append {before after : List α} (hbefore : Blank p before) (hafter : Blank p after)
    (text : List α) : trimBy p (before ++ text ++ after) = trimBy p text := by
  rw [← dropWhile_rdropWhile, rdropWhile_append_of_blank _ hafter, dropWhile_rdropWhile, trimBy,
    List.dropWhile_append_of_pos hbefore]
  rfl

/-- A text is its trimmed part between two runs of blanks. -/
theorem exists_blanks (p : α → Bool) (text : List α) : ∃ before after, Blank p before ∧
    Blank p after ∧ text = before ++ trimBy p text ++ after := by
  refine ⟨text.takeWhile p, (text.dropWhile p).rtakeWhile p, ?_, ?_, ?_⟩
  · exact fun b hb => List.mem_takeWhile_imp hb
  · exact fun b hb => List.mem_rtakeWhile_imp hb
  · rw [trimBy, List.append_assoc, List.rdropWhile_append_rtakeWhile,
      List.takeWhile_append_dropWhile]

/-- A text that neither begins nor ends with a blank keeps its place, whatever follows. -/
theorem trimBy_front {b : α} {front : List α} (hhead : p b = false)
    (hlast : (b :: front).rdropWhile p = b :: front) (rest : List α) :
    trimBy p (b :: front ++ rest) = b :: front ++ rest.rdropWhile p := by
  have hdrop : (b :: front ++ rest).dropWhile p = b :: front ++ rest :=
    List.dropWhile_cons_of_neg (by simp [hhead])
  rw [trimBy, hdrop]
  by_cases hrest : Blank p rest
  · rw [rdropWhile_append_of_blank _ hrest, rdropWhile_of_blank hrest, hlast, List.append_nil]
  · exact rdropWhile_append_of_not_blank _ hrest

/-- Trimming the end first changes nothing. -/
theorem trimBy_rdropWhile (text : List α) : trimBy p (text.rdropWhile p) = trimBy p text := by
  rw [← dropWhile_rdropWhile, List.rdropWhile_idempotent, dropWhile_rdropWhile]

/-- Trimming commutes with a map that keeps blanks and non-blanks apart. -/
theorem trimBy_map {q : β → Bool} {f : α → β} (h : ∀ a, q (f a) = p a) (text : List α) :
    trimBy q (text.map f) = (trimBy p text).map f := by
  have hsame : q ∘ f = p := funext h
  simp only [trimBy, List.rdropWhile, List.dropWhile_map, ← List.map_reverse, hsame]

/-- A text is trimmed away if it is blank. -/
theorem blank_of_trimBy_eq_nil {text : List α} (h : trimBy p text = []) : Blank p text := by
  obtain ⟨before, after, hbefore, hafter, htext⟩ := exists_blanks p text
  rw [htext, h, List.append_nil]
  intro b hb
  exact (List.mem_append.mp hb).elim (hbefore b) (hafter b)

theorem trimBy_of_blank {text : List α} (h : Blank p text) : trimBy p text = [] := by
  rw [trimBy, List.dropWhile_eq_nil_iff.mpr h]
  rfl

/-- A text without blanks is trimmed. -/
theorem trimBy_of_none {text : List α} (h : ∀ b ∈ text, p b = false) : trimBy p text = text := by
  have hdrop : text.dropWhile p = text := by
    cases text with
    | nil => rfl
    | cons b text => exact List.dropWhile_cons_of_neg (by simp [h b List.mem_cons_self])
  rw [trimBy, hdrop, List.rdropWhile_eq_self_iff]
  intro hne
  simp [h _ (List.getLast_mem hne)]

end SimplyIpSync.Trim
