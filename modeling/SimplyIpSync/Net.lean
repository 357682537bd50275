import SimplyIpSync.Bogon
import SimplyIpSync.Crypto

/-!
# Addresses and their texts

`std::net::IpAddr` with its `FromStr`: the standard library's recursive-descent reader, which takes
no leading zero in a dotted quad, at most four hexadecimal digits in a group, and one `::`.  Also
`normalize_ip` and `is_trusted` of `src/config.rs`.
-/

namespace SimplyIpSync.Net

open SimplyIpSync.Crypto SimplyIpSync.Bogon

/-- `std::net::IpAddr`. -/
inductive IpAddr
  | v4 (bits : BitVec 32)
  | v6 (bits : BitVec 128)
  deriving DecidableEq, Repr

/-- The address family. -/
inductive Family
  | v4
  | v6
  deriving DecidableEq, Repr

def family : IpNetwork → Family
  | .v4 .. => .v4
  | .v6 .. => .v6

/-! ### Reading -/

/-- The digits in front, as values below `radix`, and the rest. -/
def takeDigits (radix : ℕ) : Bytes → List ℕ × Bytes
  | [] => ([], [])
  | b :: rest =>
      match hexValue b with
      | some v =>
          if v.toNat < radix then
            let (digits, rest) := takeDigits radix rest
            (v.toNat :: digits, rest)
          else ([], b :: rest)
      | none => ([], b :: rest)

/-- `read_number`: between one and `maxDigits` digits, with a leading zero only if allowed. -/
def readNumber (radix maxDigits : ℕ) (allowZeroPrefix : Bool) (text : Bytes) :
    Option (ℕ × Bytes) :=
  let (digits, rest) := takeDigits radix text
  if digits = [] ∨ maxDigits < digits.length then none
  else if !allowZeroPrefix && digits.head? == some 0 && 1 < digits.length then none
  else some (digits.foldl (fun n d => n * radix + d) 0, rest)

/-- `read_given_char`. -/
def readGivenChar (c : UInt8) : Bytes → Option Bytes
  | b :: rest => if b = c then some rest else none
  | [] => none

/-- One octet of a dotted quad. -/
def readOctet (text : Bytes) : Option (ℕ × Bytes) :=
  (readNumber 10 3 false text).filter fun out => out.1 < 256

/-- `read_ipv4_addr`. -/
def readIpv4Addr (text : Bytes) : Option (BitVec 32 × Bytes) := do
  let (a, rest) ← readOctet text
  let (b, rest) ← readOctet (← readGivenChar 46 rest)
  let (c, rest) ← readOctet (← readGivenChar 46 rest)
  let (d, rest) ← readOctet (← readGivenChar 46 rest)
  some (BitVec.ofNat 32 (((a * 256 + b) * 256 + c) * 256 + d), rest)

/-- `read_separator` with a colon, which precedes every group but the first. -/
def readSeparated {α : Type} (first : Bool) (inner : Bytes → Option (α × Bytes)) (text : Bytes) :
    Option (α × Bytes) :=
  if first then inner text else (readGivenChar 58 text).bind inner

/-- `read_groups` with room for `limit` groups: the groups, whether a dotted quad ended them, and
the rest. -/
def readGroups : ℕ → Bool → Bytes → List ℕ × Bool × Bytes
  | 0, _, text => ([], false, text)
  | limit + 1, first, text =>
      match if 1 ≤ limit then readSeparated first readIpv4Addr text else none with
      | some (quad, rest) => ([quad.toNat / 65536, quad.toNat % 65536], true, rest)
      | none =>
          match readSeparated first (readNumber 16 4 true) text with
          | some (group, rest) =>
              let (groups, quad, rest) := readGroups limit false rest
              (group :: groups, quad, rest)
          | none => ([], false, text)

/-- Eight groups of sixteen bits. -/
def ofGroups (groups : List ℕ) : BitVec 128 :=
  BitVec.ofNat 128 (groups.foldl (fun acc g => acc * 65536 + g) 0)

/-- `read_ipv6_addr`. -/
def readIpv6Addr (text : Bytes) : Option (BitVec 128 × Bytes) :=
  let (head, quad, rest) := readGroups 8 true text
  if head.length = 8 then some (ofGroups head, rest)
  else if quad then none
  else do
    let rest ← readGivenChar 58 (← readGivenChar 58 rest)
    let (tail, _, rest) := readGroups (7 - head.length) true rest
    some (ofGroups (head ++ List.replicate (8 - head.length - tail.length) 0 ++ tail), rest)

/-- `str::parse::<IpAddr>`. -/
def parseIpAddr (text : Bytes) : Option IpAddr :=
  match readIpv4Addr text with
  | some (bits, rest) => if rest = [] then some (.v4 bits) else none
  | none =>
      match readIpv6Addr text with
      | some (bits, rest) => if rest = [] then some (.v6 bits) else none
      | none => none

/-- Both families, an embedded quad, and texts that are refused. -/
example : parseIpAddr (ascii "203.0.113.9") = some (.v4 0xCB007109) ∧
    parseIpAddr (ascii "::ffff:1.2.3.4") = some (.v6 0xFFFF01020304) ∧
    parseIpAddr (ascii "2001:db8::1") = some (.v6 0x20010DB8000000000000000000000001) ∧
    parseIpAddr (ascii "01.2.3.4") = none ∧ parseIpAddr (ascii "1:::2") = none := by
  decide +kernel

/-! ### Trust -/

/-- `normalize_ip`: a mapped address is its IPv4 form. -/
def normalizeIp : IpAddr → IpAddr
  | .v4 bits => .v4 bits
  | .v6 bits => if bits >>> 32 = 0xFFFF then .v4 (bits.setWidth 32) else .v6 bits

/-- `IpNetwork::contains`. -/
def contains : IpNetwork → IpAddr → Bool
  | .v4 ip len, .v4 bits => sameLeadingBits len ip bits
  | .v6 ip len, .v6 bits => sameLeadingBits len ip bits
  | _, _ => false

/-- `is_trusted`. -/
def isTrusted (ip : IpAddr) (trusted : List IpNetwork) : Bool :=
  trusted.any fun net => contains net ip

end SimplyIpSync.Net
