import Mathlib.Tactic

/-!
# Pre-push sanitization (`src/bogon.rs`)

Networks of either address family, the module's table of reserved ranges, and `sanitize`, which
drops every entry that overlaps one of them.  Reading an address text is the work of a library:
`parse` stands for `str::parse::<IpNetwork>` wherever it is used.
-/

namespace SimplyIpSync.Bogon

/-- `ipnetwork::IpNetwork`: an address with its prefix length; host bits may be set. -/
inductive IpNetwork
  | v4 (ip : BitVec 32) (len : Fin 33)
  | v6 (ip : BitVec 128) (len : Fin 129)
  deriving DecidableEq, Repr

/-- A prefix length of either family is written as a numeral. -/
instance neZero_lengths4 : NeZero 33 := ⟨by decide⟩

instance neZero_lengths6 : NeZero 129 := ⟨by decide⟩

/-- The addresses agree in their first `len` bits. -/
def sameLeadingBits {w : ℕ} (len : ℕ) (a b : BitVec w) : Bool :=
  a >>> (w - len) == b >>> (w - len)

/-- `IpNetwork::contains`, asked of another network's base address: never across families. -/
def IpNetwork.containsBase : IpNetwork → IpNetwork → Bool
  | .v4 ip len, .v4 other _ => sameLeadingBits len ip other
  | .v6 ip len, .v6 other _ => sameLeadingBits len ip other
  | _, _ => false

/-! ### The reserved ranges -/

/-- A dotted quad with its prefix length. -/
def v4Literal (a b c d : ℕ) (len : Fin 33) : IpNetwork :=
  .v4 (BitVec.ofNat 32 (((a * 256 + b) * 256 + c) * 256 + d)) len

/-- Eight groups of sixteen bits with their prefix length. -/
def v6Literal (groups : List ℕ) (len : Fin 129) : IpNetwork :=
  .v6 (BitVec.ofNat 128 (groups.foldl (fun acc g => acc * 65536 + g) 0)) len

/-- `RFC1918_LITERALS`. -/
def rfc1918Literals : List IpNetwork :=
  [v4Literal 10 0 0 0 8, v4Literal 172 16 0 0 12, v4Literal 192 168 0 0 16]

/-- `LOOPBACK_LITERALS`. -/
def loopbackLiterals : List IpNetwork :=
  [v4Literal 127 0 0 0 8, v6Literal [0, 0, 0, 0, 0, 0, 0, 1] 128]

/-- `BOGON_LITERALS`. -/
def bogonLiterals : List IpNetwork :=
  [v4Literal 0 0 0 0 8,
    v4Literal 100 64 0 0 10,
    v4Literal 169 254 0 0 16,
    v4Literal 192 0 0 0 24,
    v4Literal 192 0 2 0 24,
    v4Literal 192 88 99 0 24,
    v4Literal 198 18 0 0 15,
    v4Literal 198 51 100 0 24,
    v4Literal 203 0 113 0 24,
    v4Literal 224 0 0 0 4,
    v4Literal 240 0 0 0 4,
    v4Literal 255 255 255 255 32,
    v6Literal [0, 0, 0, 0, 0, 0, 0, 0] 128,
    v6Literal [0, 0, 0, 0, 0, 0xffff, 0, 0] 96,
    v6Literal [0x100, 0, 0, 0, 0, 0, 0, 0] 64,
    v6Literal [0x2001, 0xdb8, 0, 0, 0, 0, 0, 0] 32,
    v6Literal [0xfc00, 0, 0, 0, 0, 0, 0, 0] 7,
    v6Literal [0xfe80, 0, 0, 0, 0, 0, 0, 0] 10,
    v6Literal [0xff00, 0, 0, 0, 0, 0, 0, 0] 8]

/-- `RESERVED_RANGES`. -/
def reservedRanges : List IpNetwork := rfc1918Literals ++ loopbackLiterals ++ bogonLiterals

/-- `overlaps`: one of the two contains the other's base address. -/
def overlaps (a b : IpNetwork) : Bool := a.containsBase b || b.containsBase a

/-- `is_bogon`. -/
def isBogon (candidate : IpNetwork) : Bool := reservedRanges.any fun r => overlaps candidate r

/-! ### The filter -/

variable (parse : String → Option IpNetwork)

/-- The entry parses and overlaps no reserved range. -/
def isKept (record : String) : Bool :=
  match parse record with
  | some net => !isBogon net
  | none => false

/-- `sanitize`: the entries that survive, and how many did not. -/
def sanitize : List String → List String × ℕ
  | [] => ([], 0)
  | record :: records =>
      let rest := sanitize records
      if isKept parse record then (record :: rest.1, rest.2) else (rest.1, rest.2 + 1)

theorem sanitize_fst (records : List String) :
    (sanitize parse records).1 = records.filter (isKept parse) := by
  induction records with
  | nil => rfl
  | cons record records ih =>
      by_cases hkept : isKept parse record
      · simp only [sanitize, if_pos hkept, ih, List.filter_cons]
      · simp only [sanitize, if_neg hkept, ih, List.filter_cons]

theorem mem_sanitize {records : List String} {record : String} :
    record ∈ (sanitize parse records).1 ↔ record ∈ records ∧ isKept parse record := by
  rw [sanitize_fst, List.mem_filter]

/-- The supernet `10.0.0.0/6` swallows a private range; `8.8.8.8/32` touches none. -/
example : isBogon (v4Literal 10 0 0 0 6) = true ∧ isBogon (v4Literal 8 8 8 8 32) = false := by
  decide

end SimplyIpSync.Bogon
