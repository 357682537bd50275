import SimplyIpSync.Lib.Prefix
import SimplyIpSync.Net
import Mathlib.Order.CompletePartialOrder

/-!
# What `sanitize` keeps

A network is the set of its addresses, and `overlaps`, which looks at base addresses only, decides
whether two such sets meet: a base address with host bits set is still an address of its network.
`sanitize` therefore keeps the entries whose addresses avoid every reserved range.
-/

namespace SimplyIpSync.Sanitize

open SimplyIpSync.Bogon SimplyIpSync.Net SimplyIpSync.Prefix

/-- The addresses of a network. -/
def addresses (net : IpNetwork) : Set IpAddr := {ip | contains net ip = true}

theorem mem_addresses_v4 {ip bits : BitVec 32} {len : Fin 33} :
    IpAddr.v4 bits ∈ addresses (.v4 ip len) ↔ bits ∈ block len ip := by
  rw [addresses, Set.mem_ofPred_eq, contains, sameLeadingBits, beq_iff_eq, mem_block, eq_comm]

theorem mem_addresses_v6 {ip bits : BitVec 128} {len : Fin 129} :
    IpAddr.v6 bits ∈ addresses (.v6 ip len) ↔ bits ∈ block len ip := by
  rw [addresses, Set.mem_ofPred_eq, contains, sameLeadingBits, beq_iff_eq, mem_block, eq_comm]

theorem addresses_v4 (ip : BitVec 32) (len : Fin 33) :
    addresses (.v4 ip len) = IpAddr.v4 '' block len ip := by
  ext x
  cases x with
  | v4 bits => rw [mem_addresses_v4, Set.mem_image]; simp only [IpAddr.v4.injEq, exists_eq_right]
  | v6 bits => simp [addresses, contains]

theorem addresses_v6 (ip : BitVec 128) (len : Fin 129) :
    addresses (.v6 ip len) = IpAddr.v6 '' block len ip := by
  ext x
  cases x with
  | v4 bits => simp [addresses, contains]
  | v6 bits => rw [mem_addresses_v6, Set.mem_image]; simp only [IpAddr.v6.injEq, exists_eq_right]

/-- The base address, with whatever host bits it has, is an address of the network. -/
theorem containsBase_v4 {ip other : BitVec 32} {len len' : Fin 33} :
    (IpNetwork.v4 ip len).containsBase (.v4 other len') = true ↔ other ∈ block len ip := by
  rw [IpNetwork.containsBase, sameLeadingBits, beq_iff_eq, mem_block, eq_comm]

theorem containsBase_v6 {ip other : BitVec 128} {len len' : Fin 129} :
    (IpNetwork.v6 ip len).containsBase (.v6 other len') = true ↔ other ∈ block len ip := by
  rw [IpNetwork.containsBase, sameLeadingBits, beq_iff_eq, mem_block, eq_comm]

/-- **`overlaps` is intersection.** -/
theorem overlaps_iff (a b : IpNetwork) :
    overlaps a b = true ↔ (addresses a ∩ addresses b).Nonempty := by
  cases a with
  | v4 ip len =>
      cases b with
      | v4 ip' len' =>
          rw [overlaps, Bool.or_eq_true, containsBase_v4, containsBase_v4,
            ← block_inter_block_nonempty, addresses_v4, addresses_v4,
            ← Set.image_inter fun x y h => IpAddr.v4.inj h, Set.image_nonempty]
      | v6 ip' len' =>
          rw [addresses_v4, addresses_v6]
          simp [overlaps, IpNetwork.containsBase, Set.Nonempty]
  | v6 ip len =>
      cases b with
      | v4 ip' len' =>
          rw [addresses_v4, addresses_v6]
          simp [overlaps, IpNetwork.containsBase, Set.Nonempty]
      | v6 ip' len' =>
          rw [overlaps, Bool.or_eq_true, containsBase_v6, containsBase_v6,
            ← block_inter_block_nonempty, addresses_v6, addresses_v6,
            ← Set.image_inter fun x y h => IpAddr.v6.inj h, Set.image_nonempty]

/-- Networks of different families share no address. -/
theorem disjoint_of_family_ne {a b : IpNetwork} (h : family a ≠ family b) :
    Disjoint (addresses a) (addresses b) := by
  rw [Set.disjoint_iff_inter_eq_empty, ← Set.not_nonempty_iff_eq_empty, ← overlaps_iff]
  cases a <;> cases b <;> first | exact absurd rfl h | exact Bool.false_ne_true

theorem overlaps_eq_false_iff (a b : IpNetwork) :
    overlaps a b = false ↔ Disjoint (addresses a) (addresses b) := by
  rw [← Bool.not_eq_true, overlaps_iff, Set.not_nonempty_iff_eq_empty,
    Set.disjoint_iff_inter_eq_empty]

/-! ### The entries that survive -/

variable (parse : String → Option IpNetwork)

/-- The entry names a network none of whose addresses lies in a reserved range of its family. -/
def Routable (record : String) : Prop :=
  ∃ net, parse record = some net ∧
    ∀ r ∈ reservedRanges, family r = family net → Disjoint (addresses net) (addresses r)

theorem isBogon_eq_false_iff (net : IpNetwork) :
    isBogon net = false ↔
      ∀ r ∈ reservedRanges, family r = family net → Disjoint (addresses net) (addresses r) := by
  rw [isBogon, List.any_eq_false]
  constructor
  · intro h r hr _
    rw [← overlaps_eq_false_iff]
    exact Bool.eq_false_iff.mpr (h r hr)
  · intro h r hr
    rw [Bool.not_eq_true, overlaps_eq_false_iff]
    by_cases hfamily : family r = family net
    · exact h r hr hfamily
    · exact disjoint_of_family_ne (Ne.symm hfamily)

theorem isKept_iff (record : String) : isKept parse record = true ↔ Routable parse record := by
  rw [isKept, Routable]
  cases hparse : parse record with
  | none => simp only [Bool.false_eq_true, reduceCtorEq, false_and, exists_false]
  | some net =>
      simp only [Bool.not_eq_true', isBogon_eq_false_iff, Option.some.injEq, exists_eq_left']

theorem sanitize_snd (records : List String) :
    (sanitize parse records).2 = records.countP fun r => !isKept parse r := by
  induction records with
  | nil => rfl
  | cons record records ih =>
      by_cases hkept : isKept parse record
      · simp only [sanitize, ih, List.countP_cons, hkept, Bool.not_true, Bool.false_eq_true,
          if_false, if_true, Nat.add_zero]
      · rw [Bool.not_eq_true] at hkept
        simp only [sanitize, hkept, Bool.false_eq_true, if_false, ih, List.countP_cons,
          Bool.not_false, if_true]

open Classical in
/-- **Bogon filtering is exact.**  `sanitize` keeps, in order, the entries that name a network
apart from every reserved range of its family, and counts all others. -/
theorem sanitize_exact (records : List String) :
    (sanitize parse records).1 = records.filter (fun r => decide (Routable parse r)) ∧
    (sanitize parse records).2 = records.countP (fun r => decide (¬ Routable parse r)) := by
  have hkept : ∀ r, isKept parse r = decide (Routable parse r) := fun r =>
    Bool.eq_iff_iff.mpr ((isKept_iff parse r).trans decide_eq_true_iff.symm)
  constructor
  · rw [sanitize_fst]
    exact List.filter_congr fun r _ => hkept r
  · rw [sanitize_snd]
    refine List.countP_congr fun r _ => ?_
    rw [hkept, decide_not]

end SimplyIpSync.Sanitize
