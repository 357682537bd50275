import Mathlib.Tactic

/-!
# Blocks of bit vectors with a common prefix

The bit vectors of width `w` that agree with a given one in their first `len` bits form a block.
Two blocks are nested or disjoint, so they meet exactly when one of them holds the other's base,
wherever in its block that base lies.  `mask` clears the bits behind the prefix, and picks the same
representative for every base of a block.
-/

namespace SimplyIpSync.Prefix

variable {w : ℕ}

/-- The bit vectors that agree with `a` in the first `len` bits. -/
def block (len : ℕ) (a : BitVec w) : Set (BitVec w) := {x | x >>> (w - len) = a >>> (w - len)}

theorem mem_block {len : ℕ} {a x : BitVec w} :
    x ∈ block len a ↔ x >>> (w - len) = a >>> (w - len) := Iff.rfl

theorem base_mem_block (len : ℕ) (a : BitVec w) : a ∈ block len a := rfl

/-- Agreement on a prefix is agreement on every shorter one. -/
theorem ushiftRight_congr {m n : ℕ} (h : m ≤ n) {a b : BitVec w} (hab : a >>> m = b >>> m) :
    a >>> n = b >>> n := by
  obtain ⟨k, rfl⟩ := Nat.exists_eq_add_of_le h
  rw [BitVec.shiftRight_add, BitVec.shiftRight_add, hab]

/-- A longer prefix gives a smaller block. -/
theorem block_subset {m n : ℕ} (h : m ≤ n) (a : BitVec w) : block n a ⊆ block m a :=
  fun _ hx => ushiftRight_congr (Nat.sub_le_sub_left h w) hx

/-- **Two blocks meet exactly when one holds the base of the other.** -/
theorem block_inter_block_nonempty {m n : ℕ} {a b : BitVec w} :
    (block m a ∩ block n b).Nonempty ↔ b ∈ block m a ∨ a ∈ block n b := by
  constructor
  · rintro ⟨x, hxa, hxb⟩
    rcases le_total m n with hle | hle
    · have hx : x ∈ block m b := block_subset hle b hxb
      exact .inl (Eq.trans (Eq.symm hx) hxa)
    · have hx : x ∈ block n a := block_subset hle a hxa
      exact .inr (Eq.trans (Eq.symm hx) hxb)
  · rintro (hb | ha)
    · exact ⟨b, hb, base_mem_block n b⟩
    · exact ⟨a, base_mem_block m a, ha⟩

/-- The bits behind the prefix cleared. -/
def mask (len : ℕ) (a : BitVec w) : BitVec w := (a >>> (w - len)) <<< (w - len)

end SimplyIpSync.Prefix
