import Mathlib.Analysis.SpecialFunctions.Pow.NthRootLemmas
import Mathlib.Tactic

/-!
# SHA-256 and HMAC

The hash function as its standard states it: the constants are the first 32 bits of the fractional
parts of roots of primes, a message is padded to blocks of 64 bytes, and each block is expanded to
64 words and mixed into eight working variables in 64 rounds.  HMAC is built on it.

The schedule is a recursion on the number of the word, and a hash is a recursion on the number of
blocks, so nothing is overwritten; `schedule_of_ge` and `hashBlocks_succ` are the equations to
compare a loop with.
-/

namespace SimplyIpSync.Sha256

/-- A word of 32 bits. -/
abbrev Word := BitVec 32

/-! ### Words and bytes -/

/-- The four bytes of a word, the most significant first. -/
def beBytes (w : Word) : List UInt8 :=
  [UInt8.ofNat (w.toNat / 2 ^ 24), UInt8.ofNat (w.toNat / 2 ^ 16), UInt8.ofNat (w.toNat / 2 ^ 8),
    UInt8.ofNat w.toNat]

/-- The word at a position. -/
def wordAt (bytes : List UInt8) (pos : ℕ) : Word :=
  BitVec.ofNat 32 ((bytes.getD pos 0).toNat * 2 ^ 24 + (bytes.getD (pos + 1) 0).toNat * 2 ^ 16 +
    (bytes.getD (pos + 2) 0).toNat * 2 ^ 8 + (bytes.getD (pos + 3) 0).toNat)

@[simp] theorem length_beBytes (w : Word) : (beBytes w).length = 4 := rfl

/-! ### The functions of the standard -/

/-- `Ch`. -/
def ch (x y z : Word) : Word := (x &&& y) ^^^ (~~~x &&& z)

/-- `Maj`. -/
def maj (x y z : Word) : Word := (x &&& y) ^^^ (x &&& z) ^^^ (y &&& z)

/-- `Σ₀`. -/
def bigSigma0 (x : Word) : Word := x.rotateRight 2 ^^^ x.rotateRight 13 ^^^ x.rotateRight 22

/-- `Σ₁`. -/
def bigSigma1 (x : Word) : Word := x.rotateRight 6 ^^^ x.rotateRight 11 ^^^ x.rotateRight 25

/-- `σ₀`. -/
def smallSigma0 (x : Word) : Word := x.rotateRight 7 ^^^ x.rotateRight 18 ^^^ x >>> 3

/-- `σ₁`. -/
def smallSigma1 (x : Word) : Word := x.rotateRight 17 ^^^ x.rotateRight 19 ^^^ x >>> 10

/-- The first 32 bits of the fractional part of the `n`th root of `p`. -/
def rootBits (n p : ℕ) : Word := BitVec.ofNat 32 (Nat.nthRoot n (p * 2 ^ (32 * n)))

/-- A word is checked by the integers next to the root. -/
theorem rootBits_eq {n p i : ℕ} {k : Word} (hlow : (i * 2 ^ 32 + k.toNat) ^ n ≤ p * 2 ^ (32 * n))
    (hhigh : p * 2 ^ (32 * n) < (i * 2 ^ 32 + k.toNat + 1) ^ n) : rootBits n p = k := by
  rw [rootBits, Nat.nthRoot_eq_of_le_of_lt hlow hhigh]
  apply BitVec.eq_of_toNat_eq
  rw [BitVec.toNat_ofNat]
  have hk := k.isLt
  omega

/-- The first 64 primes. -/
def primes : List ℕ :=
  [2, 3, 5, 7, 11, 13, 17, 19, 23, 29, 31, 37, 41, 43, 47, 53, 59, 61, 67, 71, 73, 79, 83, 89, 97,
    101, 103, 107, 109, 113, 127, 131, 137, 139, 149, 151, 157, 163, 167, 173, 179, 181, 191, 193,
    197, 199, 211, 223, 227, 229, 233, 239, 241, 251, 257, 263, 269, 271, 277, 281, 283, 293, 307,
    311]

/-- The constant of a round: from the cube root of its prime. -/
def roundConstant (t : ℕ) : Word := (primes.map (rootBits 3)).getD t 0

/-! ### One block -/

/-- The working variables. -/
@[ext] structure Working where
  a : Word
  b : Word
  c : Word
  d : Word
  e : Word
  f : Word
  g : Word
  h : Word
  deriving DecidableEq, Repr

/-- The initial hash value: from the square roots of the first eight primes. -/
def initial : Working :=
  ⟨rootBits 2 2, rootBits 2 3, rootBits 2 5, rootBits 2 7, rootBits 2 11, rootBits 2 13,
    rootBits 2 17, rootBits 2 19⟩

/-- The words of a block and those they expand to. -/
def schedule (block : ℕ → Word) (t : ℕ) : Word :=
  if t < 16 then block t
  else
    smallSigma1 (schedule block (t - 2)) + schedule block (t - 7) +
      smallSigma0 (schedule block (t - 15)) + schedule block (t - 16)
termination_by t

theorem schedule_of_lt {block : ℕ → Word} {t : ℕ} (h : t < 16) : schedule block t = block t := by
  rw [schedule, if_pos h]

theorem schedule_of_ge {block : ℕ → Word} {t : ℕ} (h : 16 ≤ t) :
    schedule block t = smallSigma1 (schedule block (t - 2)) + schedule block (t - 7) +
      smallSigma0 (schedule block (t - 15)) + schedule block (t - 16) := by
  rw [schedule, if_neg (not_lt.mpr h)]

/-- A round with its constant and its word. -/
def mixRound (k w : Word) (s : Working) : Working :=
  let t₁ := s.h + bigSigma1 s.e + ch s.e s.f s.g + k + w
  let t₂ := bigSigma0 s.a + maj s.a s.b s.c
  ⟨t₁ + t₂, s.a, s.b, s.c, s.d + t₁, s.e, s.f, s.g⟩

/-- The sum of two hash values. -/
def Working.add (s t : Working) : Working :=
  ⟨s.a + t.a, s.b + t.b, s.c + t.c, s.d + t.d, s.e + t.e, s.f + t.f, s.g + t.g, s.h + t.h⟩

/-- A block mixed into a hash value. -/
def compress (s : Working) (block : ℕ → Word) : Working :=
  s.add ((List.range 64).foldl (fun s t => mixRound (roundConstant t) (schedule block t) s) s)

/-! ### A message -/

/-- The zeros between the end mark of a message and its length. -/
def zeroCount (length : ℕ) : ℕ := (119 - length % 64) % 64

/-- The message, its end mark, zeros, and its length in bits. -/
def padding (message : List UInt8) : List UInt8 :=
  message ++ 0x80 :: (List.replicate (zeroCount message.length) 0 ++
    (beBytes (BitVec.ofNat 32 (8 * message.length / 2 ^ 32)) ++
      beBytes (BitVec.ofNat 32 (8 * message.length))))

theorem length_padding (message : List UInt8) :
    (padding message).length = 64 * ((message.length + 72) / 64) := by
  simp only [padding, List.length_append, List.length_cons, List.length_replicate,
    length_beBytes, zeroCount]
  omega

/-- The words of a block. -/
def blockAt (padded : List UInt8) (i t : ℕ) : Word := wordAt padded (64 * i + 4 * t)

/-- The hash value after some blocks. -/
def hashBlocks (padded : List UInt8) : ℕ → Working
  | 0 => initial
  | n + 1 => compress (hashBlocks padded n) (blockAt padded n)

theorem hashBlocks_succ (padded : List UInt8) (n : ℕ) :
    hashBlocks padded (n + 1) = compress (hashBlocks padded n) (blockAt padded n) := rfl

/-- The bytes of a hash value. -/
def Working.bytes (s : Working) : List UInt8 :=
  [s.a, s.b, s.c, s.d, s.e, s.f, s.g, s.h].flatMap beBytes

/-- SHA-256. -/
def sha256 (message : List UInt8) : List UInt8 :=
  (hashBlocks (padding message) ((padding message).length / 64)).bytes

theorem length_sha256 (message : List UInt8) : (sha256 message).length = 32 := by
  simp only [sha256, Working.bytes, List.flatMap_cons, List.flatMap_nil, List.length_append,
    length_beBytes, List.length_nil]

/-! ### HMAC -/

/-- A key of one block: a longer one is hashed, a shorter one is filled up with zeros. -/
def blockKey (key : List UInt8) : List UInt8 :=
  let key := if 64 < key.length then sha256 key else key
  key ++ List.replicate (64 - key.length) 0

/-- HMAC with SHA-256. -/
def hmac (key message : List UInt8) : List UInt8 :=
  sha256 ((blockKey key).map (· ^^^ 0x5c) ++ sha256 ((blockKey key).map (· ^^^ 0x36) ++ message))

end SimplyIpSync.Sha256
