import Mathlib.Tactic

/-!
# Walks down a forest of rows

A row has a key and may name the key of its parent, which need not be the key of a row.  `walk`
collects a row and what descends from it, level by level, and does not look whether it has been
somewhere before.  It ends all the same, and with every row once, unless its root descends from
itself; it takes no more levels than there are rows (`walk_exact`).  A rank that grows from a parent
to its daughters rules a cycle out (`not_descends_self`).
-/

namespace SimplyIpSync.Forest

variable {α κ : Type*} [DecidableEq κ] (key : α → κ) (parent : α → Option κ) (rows : List α)

/-- The rows that name one of the keys as their parent. -/
def daughters (frontier : List κ) : List α :=
  rows.filter fun r => (parent r).any fun k => decide (k ∈ frontier)

/-- Collect level after level, beginning with the daughters of `frontier`; `none` when there are
more levels than fuel. -/
def walk : ℕ → List κ → List α → Option (List α)
  | _, [], result => some result
  | 0, _ :: _, _ => none
  | fuel + 1, frontier, result =>
      walk fuel ((daughters parent rows frontier).map key)
        (result ++ daughters parent rows frontier)

/-- The row is a daughter of the root, or of a row that descends from it. -/
inductive Descends (root : κ) : α → Prop
  | daughter {r : α} (hr : r ∈ rows) (hparent : parent r = some root) : Descends root r
  | deeper {p r : α} (hp : Descends root p) (hr : r ∈ rows) (hparent : parent r = some (key p)) :
      Descends root r

variable {key parent rows}

theorem mem_daughters {frontier : List κ} {r : α} :
    r ∈ daughters parent rows frontier ↔ r ∈ rows ∧ ∃ k ∈ frontier, parent r = some k := by
  simp only [daughters, List.mem_filter, Option.any_eq_true, decide_eq_true_eq]
  refine and_congr_right fun _ => ?_
  constructor
  · rintro ⟨k, hk, hin⟩
    exact ⟨k, hin, hk⟩
  · rintro ⟨k, hin, hk⟩
    exact ⟨k, hk, hin⟩

omit [DecidableEq κ] in
theorem Descends.mem {root : κ} {r : α} (h : Descends key parent rows root r) : r ∈ rows := by
  cases h with
  | daughter hr _ => exact hr
  | deeper _ hr _ => exact hr

omit [DecidableEq κ] in
/-- What descends from the root names a parent. -/
theorem Descends.parent_ne_none {root : κ} {r : α} (h : Descends key parent rows root r) :
    parent r ≠ none := by
  cases h with
  | daughter _ hparent => simp [hparent]
  | deeper _ _ hparent => simp [hparent]

omit [DecidableEq κ] in
/-- What descends from a daughter descends from its parent. -/
theorem Descends.of_daughter {root : κ} {p r : α} (hp : p ∈ rows) (hparent : parent p = some root)
    (h : Descends key parent rows (key p) r) : Descends key parent rows root r := by
  induction h with
  | daughter hr hrparent => exact .deeper (.daughter hp hparent) hr hrparent
  | deeper _ hr hrparent ih => exact .deeper ih hr hrparent

section Rank

variable {rank : κ → ℕ}

omit [DecidableEq κ] in
theorem Descends.rank_lt {root : κ} {r : α} (h : Descends key parent rows root r)
    (hrank : ∀ r ∈ rows, ∀ k, parent r = some k → rank k < rank (key r)) :
    rank root < rank (key r) := by
  induction h with
  | daughter hr hparent => exact hrank _ hr _ hparent
  | deeper _ hr hparent ih => exact ih.trans (hrank _ hr _ hparent)

omit [DecidableEq κ] in
/-- **No cycle:** a row does not descend from itself when the rank grows downwards. -/
theorem not_descends_self (hrank : ∀ r ∈ rows, ∀ k, parent r = some k → rank k < rank (key r))
    (r : α) : ¬Descends key parent rows (key r) r :=
  fun h => absurd (h.rank_lt hrank) (lt_irrefl _)

end Rank

/-! ### The walk -/

/-- More fuel changes nothing. -/
theorem walk_mono {fuel fuel' : ℕ} {frontier : List κ} {result subtree : List α}
    (h : walk key parent rows fuel frontier result = some subtree) (hle : fuel ≤ fuel') :
    walk key parent rows fuel' frontier result = some subtree := by
  induction fuel generalizing fuel' frontier result with
  | zero =>
      cases frontier with
      | nil => cases fuel' <;> exact h
      | cons k rest => cases h
  | succ fuel ih =>
      obtain ⟨n, rfl⟩ : ∃ n, fuel' = n + 1 := ⟨fuel' - 1, by omega⟩
      cases frontier with
      | nil => exact h
      | cons k rest =>
          simp only [walk] at h ⊢
          exact ih h (by omega)

/-- The daughters of `done` have been collected, those of `level` come next. -/
structure Walked (key : α → κ) (parent : α → Option κ) (rows : List α) (root : α)
    (done level : List α) : Prop where
  nodup : ((done ++ level).map key).Nodup
  subset : ∀ r ∈ done ++ level, r ∈ rows
  root_mem : root ∈ done ++ level
  reached : ∀ r ∈ done ++ level, r = root ∨
    Descends key parent rows (key root) r ∧ ∃ p ∈ done, parent r = some (key p)
  closed : ∀ p ∈ done, ∀ r ∈ rows, parent r = some (key p) → r ∈ done ++ level

variable {root : α} {done level : List α}

omit [DecidableEq κ] in
theorem walked_root (hroot : root ∈ rows) : Walked key parent rows root [] [root] where
  nodup := List.nodup_singleton _
  subset := by simpa using hroot
  root_mem := List.mem_singleton_self root
  reached := by simp
  closed := by simp

omit [DecidableEq κ] in
/-- What has been collected are rows, each of them once. -/
theorem Walked.length_le (h : Walked key parent rows root done level) :
    done.length + level.length ≤ rows.length := by
  rw [← List.length_append]
  exact (List.subperm_of_subset h.nodup.of_map h.subset).length_le

omit [DecidableEq κ] in
/-- A daughter of the level has not been collected before. -/
theorem Walked.notMem_of_daughter (h : Walked key parent rows root done level)
    (hacyclic : ¬Descends key parent rows (key root) root) {p r : α} (hp : p ∈ level)
    (hr : r ∈ rows) (hparent : parent r = some (key p)) : r ∉ done ++ level := by
  intro hin
  have hp' : p ∈ done ++ level := List.mem_append_right _ hp
  rcases h.reached r hin with rfl | ⟨-, q, hq, hq'⟩
  · -- the root would be below a row of its own tree
    rcases h.reached p hp' with rfl | ⟨hdescends, -⟩
    · exact hacyclic (.daughter hr hparent)
    · exact hacyclic (.deeper hdescends hr hparent)
  · -- its parent would have been collected twice
    have hkey : key q = key p := Option.some.inj (hq'.symm.trans hparent)
    have hdisjoint := h.nodup
    rw [List.map_append, List.nodup_append] at hdisjoint
    exact hdisjoint.2.2 _ (List.mem_map_of_mem hq) _ (List.mem_map_of_mem hp) hkey

/-- **One level.** -/
theorem Walked.look (h : Walked key parent rows root done level) (hkeys : (rows.map key).Nodup)
    (hacyclic : ¬Descends key parent rows (key root) root) :
    Walked key parent rows root (done ++ level) (daughters parent rows (level.map key)) := by
  have hdaughter : ∀ r ∈ daughters parent rows (level.map key),
      r ∈ rows ∧ ∃ p ∈ level, parent r = some (key p) := by
    intro r hr
    obtain ⟨hr, k, hk, hparent⟩ := mem_daughters.mp hr
    obtain ⟨p, hp, rfl⟩ := List.mem_map.mp hk
    exact ⟨hr, p, hp, hparent⟩
  refine ⟨?_, ?_, List.mem_append_left _ h.root_mem, ?_, ?_⟩
  · rw [List.map_append, List.nodup_append]
    refine ⟨h.nodup, hkeys.sublist (List.filter_sublist.map key), ?_⟩
    rintro a ha b hb rfl
    obtain ⟨q, hq, hqa⟩ := List.mem_map.mp ha
    obtain ⟨r, hr, hra⟩ := List.mem_map.mp hb
    obtain ⟨hr, p, hp, hparent⟩ := hdaughter r hr
    have hsame : q = r := List.inj_on_of_nodup_map hkeys (h.subset q hq) hr (hqa.trans hra.symm)
    exact h.notMem_of_daughter hacyclic hp hr hparent (hsame ▸ hq)
  · intro r hr
    rcases List.mem_append.mp hr with hold | hnew
    · exact h.subset r hold
    · exact (hdaughter r hnew).1
  · intro r hr
    rcases List.mem_append.mp hr with hold | hnew
    · refine (h.reached r hold).imp_right ?_
      rintro ⟨hdescends, p, hp, hparent⟩
      exact ⟨hdescends, p, List.mem_append_left _ hp, hparent⟩
    · obtain ⟨hrow, p, hp, hparent⟩ := hdaughter r hnew
      have hp' : p ∈ done ++ level := List.mem_append_right _ hp
      refine Or.inr ⟨?_, p, hp', hparent⟩
      rcases h.reached p hp' with rfl | ⟨hdescends, -⟩
      · exact .daughter hrow hparent
      · exact .deeper hdescends hrow hparent
  · intro p hp r hr hparent
    rcases List.mem_append.mp hp with hdone | hlevel
    · exact List.mem_append_left _ (h.closed p hdone r hr hparent)
    · exact List.mem_append_right _
        (mem_daughters.mpr ⟨hr, key p, List.mem_map_of_mem hlevel, hparent⟩)

/-- Every level takes a row that no level before it had, so that the rows bound the levels. -/
theorem Walked.walk (h : Walked key parent rows root done level) (hkeys : (rows.map key).Nodup)
    (hacyclic : ¬Descends key parent rows (key root) root) {fuel : ℕ}
    (hfuel : rows.length ≤ done.length + fuel) :
    ∃ result, walk key parent rows fuel (level.map key) (done ++ level) = some result ∧
      Walked key parent rows root result [] := by
  induction fuel generalizing done level with
  | zero =>
      cases level with
      | nil => exact ⟨done ++ [], rfl, by simpa using h⟩
      | cons r rest =>
          have hlength := h.length_le
          rw [List.length_cons] at hlength
          omega
  | succ fuel ih =>
      cases level with
      | nil => exact ⟨done ++ [], rfl, by simpa using h⟩
      | cons r rest =>
          refine ih (h.look hkeys hacyclic) ?_
          rw [List.length_append, List.length_cons]
          omega

/-- **The walk is exact:** it collects the root and what descends from it, each row once. -/
theorem walk_exact (hkeys : (rows.map key).Nodup) (hroot : root ∈ rows)
    (hacyclic : ¬Descends key parent rows (key root) root) :
    ∃ result, (∀ fuel, rows.length ≤ fuel →
        walk key parent rows fuel [key root] [root] = some result) ∧
      (result.map key).Nodup ∧
      ∀ r, r ∈ result ↔ r = root ∨ Descends key parent rows (key root) r := by
  obtain ⟨result, hwalk, h⟩ := (walked_root hroot).walk hkeys hacyclic
    (show rows.length ≤ 0 + rows.length from Nat.le_add_left _ _)
  have hnodup := h.nodup
  have hroot := h.root_mem
  have hreached := h.reached
  have hclosed := h.closed
  rw [List.append_nil] at hnodup hroot hreached hclosed
  refine ⟨result, fun fuel hfuel => walk_mono hwalk hfuel, hnodup, ?_⟩
  intro r
  constructor
  · intro hr
    exact (hreached r hr).imp_right And.left
  · rintro (rfl | hdescends)
    · exact hroot
    · induction hdescends with
      | daughter hr hparent => exact hclosed root hroot _ hr hparent
      | deeper _ hr hparent ih => exact hclosed _ ih _ hr hparent

end SimplyIpSync.Forest
