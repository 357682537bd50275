import Mathlib.Tactic

/-!
# Paging through a sorted list that grows

A reader takes a sorted list page by page, by offset, while entries are added to it between two
pages.  `rank l a` is the place of `a` in the list.  It never falls while the list grows, so
an entry not yet read when a page ends is still ahead of the reader when the next one begins:
growth makes a reader see an entry twice, never miss one.
-/

namespace SimplyIpSync.Paging

/-- The entries from `offset` on, at most `size` of them. -/
def page {α : Type*} (offset size : ℕ) (l : List α) : List α := (l.drop offset).take size

theorem map_page {α β : Type*} (f : α → β) (offset size : ℕ) (l : List α) :
    (page offset size l).map f = page offset size (l.map f) := by
  rw [page, page, List.map_take, List.map_drop]

theorem mem_of_mem_page {α : Type*} {offset size : ℕ} {l : List α} {a : α}
    (h : a ∈ page offset size l) : a ∈ l :=
  List.mem_of_mem_drop (List.mem_of_mem_take h)

/-- **Pages put together** are the beginning of the list. -/
theorem flatMap_page {α : Type*} (size : ℕ) (l : List α) (n : ℕ) :
    (List.range n).flatMap (fun k => page (k * size) size l) = l.take (n * size) := by
  induction n with
  | zero => simp
  | succ n ih =>
      rw [List.range_succ, List.flatMap_append, ih, List.flatMap_singleton, page, Nat.succ_mul,
        List.take_add]

section

variable {α : Type*} [LinearOrder α] {l l' : List α} {a : α}

/-- How many entries come before `a`. -/
def rank (l : List α) (a : α) : ℕ := l.countP fun b => decide (b < a)

theorem rank_cons_of_lt {b : α} (h : b < a) : rank (b :: l) a = rank l a + 1 := by
  rw [rank, List.countP_cons_of_pos (by simpa using h), rank]

/-- In a sorted list nothing comes before an entry at or below the first one. -/
theorem rank_eq_zero (h : ∀ b ∈ l, a ≤ b) : rank l a = 0 := by
  rw [rank, List.countP_eq_zero]
  intro b hb
  simpa using h b hb

/-- **The rank is the place.** -/
theorem getElem?_rank (hsorted : l.Pairwise (· < ·)) (ha : a ∈ l) : l[rank l a]? = some a := by
  induction l with
  | nil => cases ha
  | cons b l ih =>
      obtain ⟨hfirst, hrest⟩ := List.pairwise_cons.mp hsorted
      rcases List.mem_cons.mp ha with rfl | ha
      · have hle : ∀ c ∈ a :: l, a ≤ c := by
          intro c hc
          rcases List.mem_cons.mp hc with rfl | hc
          · exact le_refl c
          · exact (hfirst c hc).le
        rw [rank_eq_zero hle]
        rfl
      · rw [rank_cons_of_lt (hfirst a ha), List.getElem?_cons_succ]
        exact ih hrest ha

theorem rank_lt_length (hsorted : l.Pairwise (· < ·)) (ha : a ∈ l) : rank l a < l.length := by
  obtain ⟨hlt, -⟩ := List.getElem?_eq_some_iff.mp (getElem?_rank hsorted ha)
  exact hlt

/-- **Growth never lowers a rank.** -/
theorem rank_mono (hnodup : l.Nodup) (hsub : l ⊆ l') : rank l a ≤ rank l' a := by
  rw [rank, rank, List.countP_eq_length_filter, List.countP_eq_length_filter]
  refine List.Subperm.length_le ?_
  refine List.subperm_of_subset (hnodup.filter _) ?_
  intro b hb
  obtain ⟨hb, hlt⟩ := List.mem_filter.mp hb
  exact List.mem_filter.mpr ⟨hsub hb, hlt⟩

/-- A page holds the entries whose rank it spans. -/
theorem mem_page {offset size : ℕ} (hsorted : l.Pairwise (· < ·)) (ha : a ∈ l)
    (hfrom : offset ≤ rank l a) (hto : rank l a < offset + size) : a ∈ page offset size l := by
  have hplace : (page offset size l)[rank l a - offset]? = some a := by
    rw [page, List.getElem?_take_of_lt (by omega), List.getElem?_drop,
      Nat.add_sub_cancel' hfrom]
    exact getElem?_rank hsorted ha
  exact List.mem_of_getElem? hplace

/-- **A page leaves nothing behind:** an entry not before its offset is on it, or the page is full
and the entry is not before the offset of the next one. -/
theorem mem_page_or_ahead {offset size : ℕ} (hsorted : l.Pairwise (· < ·)) (ha : a ∈ l)
    (hfrom : offset ≤ rank l a) :
    a ∈ page offset size l ∨ (size ≤ (page offset size l).length ∧ offset + size ≤ rank l a) := by
  by_cases hto : rank l a < offset + size
  · exact Or.inl (mem_page hsorted ha hfrom hto)
  · right
    have hlt := rank_lt_length hsorted ha
    have hlength : (page offset size l).length = min size (l.length - offset) := by
      rw [page, List.length_take, List.length_drop]
    omega

end

end SimplyIpSync.Paging
