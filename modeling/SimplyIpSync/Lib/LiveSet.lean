import Mathlib.Tactic

/-!
# Sets under batch writes

The live members of a group, and the two writes a batch can make: `add` makes every member of the
batch live, `replace` does the same and then drops every other member.  `applyAll` folds a list of
writes.

Two facts carry the proofs about retried and split batches: a write made several times is the
write made once, and after a `replace` nothing of the earlier content matters.
-/

namespace SimplyIpSync.LiveSet

variable {α : Type*} [DecidableEq α]

/-- A batch write. -/
inductive Write (α : Type*)
  | add (batch : List α)
  | replace (batch : List α)

/-- What a write does to the live members. -/
def Write.apply : Write α → Finset α → Finset α
  | .add batch, live => live ∪ batch.toFinset
  | .replace batch, live => (live ∪ batch.toFinset).filter fun a => a ∈ batch

/-- What a list of writes does, the first write first. -/
def applyAll (live : Finset α) (writes : List (Write α)) : Finset α :=
  writes.foldl (fun live write => write.apply live) live

@[simp] theorem apply_add (batch : List α) (live : Finset α) :
    (Write.add batch).apply live = live ∪ batch.toFinset := rfl

@[simp] theorem apply_replace (batch : List α) (live : Finset α) :
    (Write.replace batch).apply live = batch.toFinset := by
  ext a
  simp only [Write.apply, Finset.mem_filter, Finset.mem_union, List.mem_toFinset]
  tauto

@[simp] theorem applyAll_nil (live : Finset α) : applyAll live [] = live := rfl

@[simp] theorem applyAll_cons (live : Finset α) (write : Write α) (writes : List (Write α)) :
    applyAll live (write :: writes) = applyAll (write.apply live) writes := rfl

@[simp] theorem applyAll_append (live : Finset α) (writes more : List (Write α)) :
    applyAll live (writes ++ more) = applyAll (applyAll live writes) more :=
  List.foldl_append

/-- A write made twice in a row is the write made once. -/
theorem apply_apply (write : Write α) (live : Finset α) :
    write.apply (write.apply live) = write.apply live := by
  cases write with
  | add batch => simp [Finset.union_assoc]
  | replace batch => simp

/-- The same write over and over is the write made once, or not at all. -/
theorem applyAll_of_forall_eq {write : Write α} {writes : List (Write α)}
    (hsame : ∀ w ∈ writes, w = write) (live : Finset α) :
    applyAll live writes = if writes = [] then live else write.apply live := by
  induction writes generalizing live with
  | nil => simp
  | cons w writes ih =>
      obtain rfl : w = write := hsame w (List.mem_cons_self ..)
      rw [applyAll_cons, ih (fun v hv => hsame v (List.mem_cons_of_mem _ hv)),
        if_neg (List.cons_ne_nil w writes)]
      by_cases hrest : writes = []
      · rw [if_pos hrest]
      · rw [if_neg hrest, apply_apply]

/-- Additions only ever add. -/
theorem applyAll_add (batches : List (List α)) (live : Finset α) :
    applyAll live (batches.map Write.add) = live ∪ batches.flatten.toFinset := by
  induction batches generalizing live with
  | nil => simp
  | cons batch batches ih =>
      rw [List.map_cons, applyAll_cons, ih, apply_add, List.flatten_cons, List.toFinset_append,
        Finset.union_assoc]

/-- **One replacement, then additions,** is the replacement by everything together. -/
theorem applyAll_replace_add (batch : List α) (batches : List (List α)) (live : Finset α) :
    applyAll live (Write.replace batch :: batches.map Write.add) =
      (Write.replace (batch ++ batches.flatten)).apply live := by
  rw [applyAll_cons, applyAll_add, apply_replace, apply_replace, List.toFinset_append]

end SimplyIpSync.LiveSet
