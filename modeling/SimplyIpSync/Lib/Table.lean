import Mathlib.Tactic

/-!
# Tables with a primary key

A table is a list of rows no two of which have the same key; the bound is a field, so a table
with a duplicate key cannot be built.  `find?` reads by key, `insert?` refuses a taken key,
`modify` rewrites the row of a key in place, `deleteWhere` removes rows, and `select` makes the rows
of another table out of them.

Every operation comes with the lemma that says what `find?` sees after it; later proofs use
these and never look at the rows.
-/

namespace SimplyIpSync.Storage

/-- Rows of type `α` under the primary key `key`. -/
structure Table {α κ : Type*} (key : α → κ) where
  rows : List α
  nodup : (rows.map key).Nodup

namespace Table

variable {α κ : Type*} {key : α → κ} [DecidableEq κ]

/-- The table without rows. -/
def empty : Table key where
  rows := []
  nodup := List.nodup_nil

/-- The row with key `k`. -/
def find? (t : Table key) (k : κ) : Option α := t.rows.find? fun r => key r = k

/-- Add a row; refused when its key is taken. -/
def insert? (t : Table key) (row : α) : Option (Table key) :=
  if h : key row ∈ t.rows.map key then none
  else some
    { rows := t.rows ++ [row]
      nodup := by
        rw [List.map_append, List.nodup_append]
        refine ⟨t.nodup, by simp, ?_⟩
        intro a ha b hb
        rw [List.map_singleton, List.mem_singleton] at hb
        intro hab
        exact h (hb ▸ hab ▸ ha) }

/-- Add rows one after the other; refused as soon as a key is taken. -/
def insertAll? (t : Table key) : List α → Option (Table key)
  | [] => some t
  | row :: rest => (t.insert? row).bind fun t => t.insertAll? rest

/-- Rewrite the row with key `k`, keeping its key. -/
def modify (t : Table key) (k : κ) (f : α → α) (hf : ∀ r, key (f r) = key r) : Table key where
  rows := t.rows.map fun r => if key r = k then f r else r
  nodup := by
    have hkeys : (t.rows.map fun r => if key r = k then f r else r).map key = t.rows.map key := by
      rw [List.map_map]
      apply List.map_congr_left
      intro r _
      by_cases hr : key r = k
      · simp only [Function.comp_apply, if_pos hr, hf]
      · simp only [Function.comp_apply, if_neg hr]
    rw [hkeys]
    exact t.nodup

/-- Rewrite every row, keeping the keys. -/
def mapRows (t : Table key) (f : α → α) (hf : ∀ r, key (f r) = key r) : Table key where
  rows := t.rows.map f
  nodup := by
    rw [List.map_map, show key ∘ f = key from funext hf]
    exact t.nodup

/-- Remove every row that `p` selects. -/
def deleteWhere (t : Table key) (p : α → Bool) : Table key where
  rows := t.rows.filter fun r => !p r
  nodup := t.nodup.sublist (List.filter_sublist.map key)

/-- Insert a row in place of the row with its key, if there is one. -/
def upsert (t : Table key) (row : α) : Table key where
  rows := (t.rows.filter fun r => key r ≠ key row) ++ [row]
  nodup := by
    rw [List.map_append, List.nodup_append]
    refine ⟨t.nodup.sublist (List.filter_sublist.map key), by simp, ?_⟩
    intro a ha b hb hab
    obtain ⟨r, hr, rfl⟩ := List.mem_map.mp ha
    rw [List.map_singleton, List.mem_singleton] at hb
    have hne : key r ≠ key row := by simpa using (List.mem_filter.mp hr).2
    exact hne (hab.trans hb)

/-- The rows that `f` makes of the rows, which keep their keys; those it makes nothing of are left
out. -/
def select {β : Type*} {key' : β → κ} (t : Table key) (f : α → Option β)
    (hf : ∀ r b, f r = some b → key' b = key r) : Table key' where
  rows := t.rows.filterMap f
  nodup := by
    refine List.Nodup.sublist ?_ t.nodup
    induction t.rows with
    | nil => exact List.Sublist.slnil
    | cons r rest ih =>
        cases hr : f r with
        | none =>
            rw [List.filterMap_cons_none hr]
            exact ih.cons (key r)
        | some b =>
            rw [List.filterMap_cons_some hr, List.map_cons, List.map_cons, hf r b hr]
            exact ih.cons_cons (key r)

/-! ### What `find?` sees -/

theorem find?_eq_some_iff {t : Table key} {k : κ} {r : α} :
    t.find? k = some r ↔ r ∈ t.rows ∧ key r = k := by
  constructor
  · intro h
    exact ⟨List.mem_of_find?_eq_some h, by simpa using List.find?_some h⟩
  · intro ⟨hr, hk⟩
    cases hfind : t.find? k with
    | none =>
        have := List.find?_eq_none.mp hfind r hr
        simp [hk] at this
    | some r' =>
        have hr' : r' ∈ t.rows := List.mem_of_find?_eq_some hfind
        have hk' : key r' = k := by simpa using List.find?_some hfind
        rw [List.inj_on_of_nodup_map t.nodup hr' hr (hk'.trans hk.symm)]

theorem find?_eq_none_iff {t : Table key} {k : κ} :
    t.find? k = none ↔ ∀ r ∈ t.rows, key r ≠ k := by
  simp [find?]

theorem key_of_find? {t : Table key} {k : κ} {r : α} (h : t.find? k = some r) : key r = k :=
  (find?_eq_some_iff.mp h).2

theorem find?_modify_self (t : Table key) (k : κ) (f : α → α) (hf : ∀ r, key (f r) = key r) :
    (t.modify k f hf).find? k = (t.find? k).map f := by
  cases hfind : t.find? k with
  | none =>
      rw [find?_eq_none_iff] at hfind
      rw [Option.map_none, find?_eq_none_iff]
      intro r hr
      obtain ⟨r₀, hr₀, rfl⟩ := List.mem_map.mp hr
      have hne := hfind r₀ hr₀
      rw [if_neg hne]
      exact hne
  | some r =>
      obtain ⟨hr, hk⟩ := find?_eq_some_iff.mp hfind
      rw [Option.map_some, find?_eq_some_iff]
      exact ⟨List.mem_map.mpr ⟨r, hr, by rw [if_pos hk]⟩, by rw [hf, hk]⟩

theorem find?_modify_of_ne (t : Table key) {j k : κ} (f : α → α) (hf : ∀ r, key (f r) = key r)
    (hjk : j ≠ k) : (t.modify k f hf).find? j = t.find? j := by
  apply Option.ext
  intro r
  simp only [find?_eq_some_iff]
  constructor
  · intro ⟨hr, hkey⟩
    obtain ⟨r₀, hr₀, rfl⟩ := List.mem_map.mp hr
    by_cases hk : key r₀ = k
    · rw [if_pos hk, hf, hk] at hkey
      exact absurd hkey.symm hjk
    · rw [if_neg hk] at hkey ⊢
      exact ⟨hr₀, hkey⟩
  · intro ⟨hr, hkey⟩
    have hk : key r ≠ k := hkey ▸ hjk
    exact ⟨List.mem_map.mpr ⟨r, hr, if_neg hk⟩, hkey⟩

theorem find?_modify (t : Table key) (k j : κ) (f : α → α) (hf : ∀ r, key (f r) = key r) :
    (t.modify k f hf).find? j = (t.find? j).map fun r => if j = k then f r else r := by
  by_cases hj : j = k
  · subst hj
    simp only [find?_modify_self, if_pos]
  · simp only [find?_modify_of_ne t f hf hj, if_neg hj, Option.map_id']

omit [DecidableEq κ] in
theorem mem_deleteWhere {t : Table key} {p : α → Bool} {r : α} :
    r ∈ (t.deleteWhere p).rows ↔ r ∈ t.rows ∧ p r = false := by
  simp [deleteWhere]

theorem mem_insert? {t t' : Table key} {row r : α} (h : t.insert? row = some t') :
    r ∈ t'.rows ↔ r ∈ t.rows ∨ r = row := by
  rw [insert?] at h
  split at h
  · cases h
  · obtain rfl := Option.some.inj h
    simp

theorem mem_insertAll? {t t' : Table key} {rows : List α} {r : α}
    (h : t.insertAll? rows = some t') : r ∈ t'.rows ↔ r ∈ t.rows ∨ r ∈ rows := by
  induction rows generalizing t with
  | nil =>
      obtain rfl := Option.some.inj h
      simp
  | cons row rest ih =>
      obtain ⟨t₁, hinsert, hrest⟩ := Option.bind_eq_some_iff.mp h
      rw [ih hrest, mem_insert? hinsert, List.mem_cons]
      tauto

theorem find?_insert? {t t' : Table key} {row : α} (h : t.insert? row = some t') (k : κ) :
    t'.find? k = if k = key row then some row else t.find? k := by
  apply Option.ext
  intro r
  rw [find?_eq_some_iff, mem_insert? h]
  by_cases hk : k = key row
  · rw [if_pos hk, Option.some.injEq]
    constructor
    · intro ⟨hr, hkey⟩
      rcases hr with hr | rfl
      · -- a row of `t` with this key would have stopped the insertion
        have htaken : key row ∈ t.rows.map key :=
          List.mem_map.mpr ⟨r, hr, hkey.trans hk⟩
        rw [insert?, dif_pos htaken] at h
        cases h
      · rfl
    · rintro rfl
      exact ⟨Or.inr rfl, hk.symm⟩
  · rw [if_neg hk, find?_eq_some_iff]
    constructor
    · intro ⟨hr, hkey⟩
      rcases hr with hr | rfl
      · exact ⟨hr, hkey⟩
      · exact absurd hkey.symm hk
    · intro ⟨hr, hkey⟩
      exact ⟨Or.inl hr, hkey⟩

/-- A row that was added had its key to itself. -/
theorem find?_eq_none_of_insert? {t t' : Table key} {row : α} (h : t.insert? row = some t') :
    t.find? (key row) = none := by
  rw [insert?] at h
  split at h
  · cases h
  · rename_i hfree
    rw [find?_eq_none_iff]
    intro r hr hkey
    exact hfree (List.mem_map.mpr ⟨r, hr, hkey⟩)

theorem find?_insert?_self {t t' : Table key} {row : α} (h : t.insert? row = some t') :
    t'.find? (key row) = some row := by
  rw [find?_insert? h, if_pos rfl]

theorem find?_deleteWhere (t : Table key) (p : α → Bool) (k : κ) :
    (t.deleteWhere p).find? k = (t.find? k).filter fun r => !p r := by
  apply Option.ext
  intro r
  simp only [find?_eq_some_iff, mem_deleteWhere, Option.filter_eq_some_iff, Bool.not_eq_true']
  tauto

theorem find?_select {β : Type*} {key' : β → κ} (t : Table key) (f : α → Option β)
    (hf : ∀ r b, f r = some b → key' b = key r) (k : κ) :
    (t.select f hf).find? k = (t.find? k).bind f := by
  apply Option.ext
  intro b
  rw [find?_eq_some_iff, Option.bind_eq_some_iff]
  simp only [select, List.mem_filterMap]
  constructor
  · rintro ⟨⟨r, hr, hb⟩, hkey⟩
    exact ⟨r, find?_eq_some_iff.mpr ⟨hr, (hf r b hb).symm.trans hkey⟩, hb⟩
  · rintro ⟨r, hfind, hb⟩
    obtain ⟨hr, hkey⟩ := find?_eq_some_iff.mp hfind
    exact ⟨⟨r, hr, hb⟩, (hf r b hb).trans hkey⟩

/-! ### What becomes of a row -/

theorem find?_insert?_of_find? {t t' : Table key} {row r : α} {k : κ}
    (h : t.insert? row = some t') (hr : t.find? k = some r) : t'.find? k = some r := by
  have hne : k ≠ key row := by
    rintro rfl
    rw [find?_eq_none_of_insert? h] at hr
    cases hr
  rw [find?_insert? h, if_neg hne, hr]

theorem find?_modify_of_find? {t : Table key} {k j : κ} {r : α} (f : α → α)
    (hf : ∀ r, key (f r) = key r) (hr : t.find? k = some r) :
    (t.modify j f hf).find? k = some (if k = j then f r else r) := by
  by_cases hk : k = j
  · subst hk
    rw [find?_modify_self, hr, if_pos rfl, Option.map_some]
  · rw [find?_modify_of_ne _ _ _ hk, hr, if_neg hk]

theorem find?_deleteWhere_of_find? {t : Table key} {p : α → Bool} {k : κ} {r : α}
    (hr : t.find? k = some r) (hp : p r = false) : (t.deleteWhere p).find? k = some r := by
  rw [find?_deleteWhere, hr, Option.filter_some, hp]
  rfl

/-- Deleting the row of a key. -/
theorem find?_deleteKey (t : Table key) (j k : κ) :
    (t.deleteWhere fun r => key r = k).find? j = if j = k then none else t.find? j := by
  rw [find?_deleteWhere]
  cases hfind : t.find? j with
  | none => simp
  | some r =>
      have hkey : key r = j := key_of_find? hfind
      by_cases hj : j = k
      · simp [Option.filter, hkey, hj]
      · simp [Option.filter, hkey, hj]

theorem find?_upsert (t : Table key) (row : α) (k : κ) :
    (t.upsert row).find? k = if k = key row then some row else t.find? k := by
  apply Option.ext
  intro r
  by_cases hk : k = key row
  · rw [if_pos hk, find?_eq_some_iff]
    simp only [upsert, List.mem_append, List.mem_filter, List.mem_singleton, decide_eq_true_eq,
      Option.some.injEq]
    constructor
    · intro ⟨hr, hkey⟩
      rcases hr with ⟨_, hne⟩ | rfl
      · exact absurd (hkey.trans hk) hne
      · rfl
    · rintro rfl
      exact ⟨Or.inr rfl, hk.symm⟩
  · rw [if_neg hk, find?_eq_some_iff, find?_eq_some_iff]
    simp only [upsert, List.mem_append, List.mem_filter, List.mem_singleton, decide_eq_true_eq]
    constructor
    · intro ⟨hr, hkey⟩
      rcases hr with ⟨hr, _⟩ | rfl
      · exact ⟨hr, hkey⟩
      · exact absurd hkey.symm hk
    · intro ⟨hr, hkey⟩
      exact ⟨Or.inl ⟨hr, fun hsame => hk (hkey.symm.trans hsame)⟩, hkey⟩

/-! ### Every row rewritten -/

section MapRows

variable (g : α → α) (hg : ∀ r, key (g r) = key r)

omit [DecidableEq κ] in
theorem eq_of_rows {t t' : Table key} (h : t.rows = t'.rows) : t = t' := by
  cases t
  cases t'
  obtain rfl := h
  rfl

theorem find?_mapRows (t : Table key) (k : κ) :
    (t.mapRows g hg).find? k = (t.find? k).map g := by
  simp only [find?, mapRows, List.find?_map, Function.comp_def, hg]

theorem insert?_mapRows (t : Table key) (row : α) :
    (t.insert? row).map (fun t => t.mapRows g hg) = (t.mapRows g hg).insert? (g row) := by
  have htaken : key (g row) ∈ (t.mapRows g hg).rows.map key ↔ key row ∈ t.rows.map key := by
    rw [mapRows, List.map_map, show key ∘ g = key from funext hg, hg]
  by_cases h : key row ∈ t.rows.map key
  · rw [insert?, dif_pos h, insert?, dif_pos (htaken.mpr h)]
    rfl
  · rw [insert?, dif_neg h, insert?, dif_neg (mt htaken.mp h), Option.map_some]
    refine congrArg some (eq_of_rows ?_)
    exact List.map_append

theorem modify_mapRows (t : Table key) (k : κ) {f f' : α → α} (hf : ∀ r, key (f r) = key r)
    (hf' : ∀ r, key (f' r) = key r) (h : ∀ r, g (f r) = f' (g r)) :
    (t.modify k f hf).mapRows g hg = (t.mapRows g hg).modify k f' hf' := by
  refine eq_of_rows ?_
  simp only [modify, mapRows, List.map_map]
  refine List.map_congr_left fun r _ => ?_
  simp only [Function.comp_apply, hg]
  split
  · exact h r
  · rfl

omit [DecidableEq κ] in
theorem deleteWhere_mapRows (t : Table key) {p p' : α → Bool} (h : ∀ r, p' (g r) = p r) :
    (t.deleteWhere p).mapRows g hg = (t.mapRows g hg).deleteWhere p' := by
  refine eq_of_rows ?_
  simp only [deleteWhere, mapRows, List.filter_map, Function.comp_def, h]

end MapRows

/-! ### Every row of a table -/

section Every

variable {P : α → Prop} {t t' : Table key}

theorem forall_insertRow {row : α} (h : ∀ r ∈ t.rows, P r) (ht : t.insert? row = some t')
    (hrow : P row) : ∀ r ∈ t'.rows, P r := by
  intro r hr
  rcases (mem_insert? ht).mp hr with hold | rfl
  · exact h r hold
  · exact hrow

theorem forall_modifyRow {k : κ} {f : α → α} (hf : ∀ r, key (f r) = key r)
    (h : ∀ r ∈ t.rows, P r) (hrow : ∀ r, P r → P (f r)) : ∀ r ∈ (t.modify k f hf).rows, P r := by
  intro r hr
  obtain ⟨old, hold, rfl⟩ := List.mem_map.mp hr
  split
  · exact hrow old (h old hold)
  · exact h old hold

end Every

end Table

end SimplyIpSync.Storage
