import SimplyIpSync.Crypto
import SimplyIpSync.Lib.Sha256

/-!
# The hash of the dashboard (`sha256Bytes` and `hmacSha256Fallback` in `static/app.js`)

Where the browser offers no `crypto.subtle`, the dashboard hashes by itself, in the arithmetic of
JavaScript: numbers are integers below `2 ^ 53`, the bitwise operators read 32 bits of them and
answer with a signed number, and typed arrays keep the low bits of what is written into them.

Read as 32 bits, every operator is the one of the standard (`bits_add`, `bits_rotr`), so each
round is; the array of words is filled in place, one word after the other (`expand_spec`).
-/

namespace SimplyIpSync.Dashboard

open SimplyIpSync.Crypto SimplyIpSync.Sha256

/-! ### Numbers and their 32 bits -/

/-- The 32 bits an operator reads of a number: `ToInt32`, and `ToUint32`. -/
def bits (x : ℤ) : Word := BitVec.ofInt 32 x

/-- `x ^ y`. -/
def bitXor (x y : ℤ) : ℤ := (bits x ^^^ bits y).toInt

/-- `x & y`. -/
def bitAnd (x y : ℤ) : ℤ := (bits x &&& bits y).toInt

/-- `x | y`. -/
def bitOr (x y : ℤ) : ℤ := (bits x ||| bits y).toInt

/-- `~x`. -/
def bitNot (x : ℤ) : ℤ := (~~~bits x).toInt

/-- `x >>> n`. -/
def ushr (x : ℤ) (n : ℕ) : ℤ := (bits x >>> n).toNat

/-- `x >> n`. -/
def sshr (x : ℤ) (n : ℕ) : ℤ := ((bits x).sshiftRight n).toInt

/-- `x << n`. -/
def shl (x : ℤ) (n : ℕ) : ℤ := (bits x <<< n).toInt

@[simp] theorem bits_toInt (w : Word) : bits w.toInt = w := BitVec.ofInt_toInt

@[simp] theorem bits_toNat (w : Word) : bits (w.toNat : ℤ) = w := by
  rw [bits, BitVec.ofInt_natCast, BitVec.ofNat_toNat, BitVec.setWidth_eq]

@[simp] theorem bits_add (x y : ℤ) : bits (x + y) = bits x + bits y := BitVec.ofInt_add ..

@[simp] theorem bits_xor (x y : ℤ) : bits (bitXor x y) = bits x ^^^ bits y := bits_toInt _

@[simp] theorem bits_and (x y : ℤ) : bits (bitAnd x y) = bits x &&& bits y := bits_toInt _

@[simp] theorem bits_or (x y : ℤ) : bits (bitOr x y) = bits x ||| bits y := bits_toInt _

@[simp] theorem bits_not (x : ℤ) : bits (bitNot x) = ~~~bits x := bits_toInt _

@[simp] theorem bits_ushr (x : ℤ) (n : ℕ) : bits (ushr x n) = bits x >>> n := bits_toNat _

@[simp] theorem bits_shl (x : ℤ) (n : ℕ) : bits (shl x n) = bits x <<< n := bits_toInt _

/-- `x | 0` reads the same bits. -/
theorem bits_or_zero (x : ℤ) : bits (bitOr x 0) = bits x := by
  rw [bits_or, show bits 0 = 0#32 from rfl, BitVec.or_zero]

/-- `rotr`. -/
def rotr (x : ℤ) (n : ℕ) : ℤ := bitOr (ushr x n) (shl x (32 - n))

theorem bits_rotr {n : ℕ} (hn : n < 32) (x : ℤ) : bits (rotr x n) = (bits x).rotateRight n := by
  rw [rotr, bits_or, bits_ushr, bits_shl, BitVec.rotateRight_def, Nat.mod_eq_of_lt hn]

/-! ### Arrays -/

/-- `Uint8Array.prototype.set`. -/
def setBytes (array : Bytes) (pos : ℕ) (source : Bytes) : Bytes :=
  array.take pos ++ source ++ array.drop (pos + source.length)

/-- `DataView.prototype.setUint32`, big-endian. -/
def setUint32 (array : Bytes) (pos : ℕ) (x : ℤ) : Bytes := setBytes array pos (beBytes (bits x))

/-- `DataView.prototype.getUint32`, big-endian. -/
def getUint32 (array : Bytes) (pos : ℕ) : ℤ := (wordAt array pos).toNat

/-- An element of a `Uint32Array`. -/
def element (w : List Word) (i : ℕ) : ℤ := (w.getD i 0).toNat

/-- `concatBytes`. -/
def concatBytes (a b : Bytes) : Bytes :=
  let out := List.replicate (a.length + b.length) 0
  let out := setBytes out 0 a
  setBytes out a.length b

theorem concatBytes_eq (a b : Bytes) : concatBytes a b = a ++ b := by
  simp only [concatBytes, setBytes, List.take_zero, List.nil_append, Nat.zero_add,
    List.drop_replicate, Nat.add_sub_cancel_left, List.take_left', List.append_assoc]
  rw [List.drop_append, List.drop_eq_nil_of_le (Nat.le_add_right _ _), List.nil_append,
    List.drop_replicate]
  simp

/-! ### One block -/

/-- The table `K`. -/
def tableK : List ℤ :=
  [0x428a2f98, 0x71374491, 0xb5c0fbcf, 0xe9b5dba5, 0x3956c25b, 0x59f111f1, 0x923f82a4, 0xab1c5ed5,
    0xd807aa98, 0x12835b01, 0x243185be, 0x550c7dc3, 0x72be5d74, 0x80deb1fe, 0x9bdc06a7, 0xc19bf174,
    0xe49b69c1, 0xefbe4786, 0x0fc19dc6, 0x240ca1cc, 0x2de92c6f, 0x4a7484aa, 0x5cb0a9dc, 0x76f988da,
    0x983e5152, 0xa831c66d, 0xb00327c8, 0xbf597fc7, 0xc6e00bf3, 0xd5a79147, 0x06ca6351, 0x14292967,
    0x27b70a85, 0x2e1b2138, 0x4d2c6dfc, 0x53380d13, 0x650a7354, 0x766a0abb, 0x81c2c92e, 0x92722c85,
    0xa2bfe8a1, 0xa81a664b, 0xc24b8b70, 0xc76c51a3, 0xd192e819, 0xd6990624, 0xf40e3585, 0x106aa070,
    0x19a4c116, 0x1e376c08, 0x2748774c, 0x34b0bcb5, 0x391c0cb3, 0x4ed8aa4a, 0x5b9cca4f, 0x682e6ff3,
    0x748f82ee, 0x78a5636f, 0x84c87814, 0x8cc70208, 0x90befffa, 0xa4506ceb, 0xbef9a3f7, 0xc67178f2]

/-- The table holds the constants of the standard. -/
theorem tableK_spec : tableK.map bits = primes.map (rootBits 3) := by
  have hroots : List.Forall₂ (fun k p => ∃ i < 7,
      (i * 2 ^ 32 + (bits k).toNat) ^ 3 ≤ p * 2 ^ (32 * 3) ∧
        p * 2 ^ (32 * 3) < (i * 2 ^ 32 + (bits k).toNat + 1) ^ 3) tableK primes := by
    decide +kernel
  have heq : List.Forall₂ (fun k p => bits k = rootBits 3 p) tableK primes :=
    hroots.imp fun k p ⟨i, _, hlow, hhigh⟩ => (rootBits_eq hlow hhigh).symm
  rwa [← List.forall₂_eq_eq_eq, List.forall₂_map_left_iff, List.forall₂_map_right_iff]

/-- The variables `a` to `h`, or `h0` to `h7`. -/
structure Vars where
  a : ℤ
  b : ℤ
  c : ℤ
  d : ℤ
  e : ℤ
  f : ℤ
  g : ℤ
  h : ℤ

/-- The bits of the variables. -/
def Vars.bits (v : Vars) : Working :=
  ⟨Dashboard.bits v.a, Dashboard.bits v.b, Dashboard.bits v.c, Dashboard.bits v.d,
    Dashboard.bits v.e, Dashboard.bits v.f, Dashboard.bits v.g, Dashboard.bits v.h⟩

/-- `h0` to `h7` at first. -/
def startVars : Vars :=
  ⟨0x6a09e667, 0xbb67ae85, 0x3c6ef372, 0xa54ff53a, 0x510e527f, 0x9b05688c, 0x1f83d9ab, 0x5be0cd19⟩

theorem startVars_bits : startVars.bits = initial := by decide +kernel

/-- The loop that reads the words of a block. -/
def readBlock (array : Bytes) (offset : ℕ) (w : List Word) : List Word :=
  (List.range 16).foldl (fun w i => w.set i (bits (getUint32 array (offset + i * 4)))) w

/-- The word computed for index `i`. -/
def nextWord (w : List Word) (i : ℕ) : ℤ :=
  let s0 := bitXor (bitXor (rotr (element w (i - 15)) 7) (rotr (element w (i - 15)) 18))
    (ushr (element w (i - 15)) 3)
  let s1 := bitXor (bitXor (rotr (element w (i - 2)) 17) (rotr (element w (i - 2)) 19))
    (ushr (element w (i - 2)) 10)
  bitOr (element w (i - 16) + s0 + element w (i - 7) + s1) 0

/-- The loop that computes the others. -/
def expand (w : List Word) : List Word :=
  (List.range' 16 48).foldl (fun w i => w.set i (bits (nextWord w i))) w

/-- The body of the loop of rounds. -/
def turn (k w : ℤ) (v : Vars) : Vars :=
  let s1 := bitXor (bitXor (rotr v.e 6) (rotr v.e 11)) (rotr v.e 25)
  let ch := bitXor (bitAnd v.e v.f) (bitAnd (bitNot v.e) v.g)
  let temp1 := bitOr (v.h + s1 + ch + k + w) 0
  let s0 := bitXor (bitXor (rotr v.a 2) (rotr v.a 13)) (rotr v.a 22)
  let maj := bitXor (bitXor (bitAnd v.a v.b) (bitAnd v.a v.c)) (bitAnd v.b v.c)
  let temp2 := bitOr (s0 + maj) 0
  ⟨bitOr (temp1 + temp2) 0, v.a, v.b, v.c, bitOr (v.d + temp1) 0, v.e, v.f, v.g⟩

/-- `(hi + x) | 0` for each variable. -/
def Vars.plus (s v : Vars) : Vars :=
  ⟨bitOr (s.a + v.a) 0, bitOr (s.b + v.b) 0, bitOr (s.c + v.c) 0, bitOr (s.d + v.d) 0,
    bitOr (s.e + v.e) 0, bitOr (s.f + v.f) 0, bitOr (s.g + v.g) 0, bitOr (s.h + v.h) 0⟩

/-- The body of the loop over the blocks, with the array of words it reuses. -/
def mixBlock (array : Bytes) (s : List Word × Vars) (offset : ℕ) : List Word × Vars :=
  let w := expand (readBlock array offset s.1)
  let v := (List.range 64).foldl (fun v i => turn (tableK.getD i 0) (element w i) v) s.2
  (w, s.2.plus v)

/-! ### The hash -/

/-- The padded message. -/
def withOne (bytes : Bytes) : Bytes :=
  let bitLen : ℤ := bytes.length * 8
  let array : Bytes := List.replicate (shl (sshr (bytes.length + 9 + 63) 6) 6).toNat 0
  let array := setBytes array 0 bytes
  let array := array.set bytes.length 0x80
  let array := setUint32 array (array.length - 4) (ushr bitLen 0)
  setUint32 array (array.length - 8) (bitLen / 0x100000000)

/-- The array the digest is written to. -/
def writeDigest (v : Vars) : Bytes :=
  ([v.a, v.b, v.c, v.d, v.e, v.f, v.g, v.h].zipIdx).foldl
    (fun out x => setUint32 out (x.2 * 4) (ushr x.1 0)) (List.replicate 32 0)

/-- `sha256Bytes`. -/
def sha256Bytes (bytes : Bytes) : Bytes :=
  let array := withOne bytes
  let s := (List.range ((array.length + 63) / 64)).foldl (fun s n => mixBlock array s (n * 64))
    (List.replicate 64 0, startVars)
  writeDigest s.2

/-- `hmacSha256Fallback`. -/
def hmacSha256Fallback (keyBytes msgBytes : Bytes) : Bytes :=
  let key := if 64 < keyBytes.length then sha256Bytes keyBytes else keyBytes
  let key := if key.length < 64 then setBytes (List.replicate 64 0) 0 key else key
  let oKeyPad := (List.range 64).map fun i => key.getD i 0 ^^^ 0x5c
  let iKeyPad := (List.range 64).map fun i => key.getD i 0 ^^^ 0x36
  let inner := sha256Bytes (concatBytes iKeyPad msgBytes)
  sha256Bytes (concatBytes oKeyPad inner)

/-! ### The rounds -/

theorem turn_bits (k w : ℤ) (v : Vars) : (turn k w v).bits = mixRound (bits k) (bits w) v.bits := by
  simp only [Vars.bits, turn, mixRound, bigSigma0, bigSigma1, ch, maj, bits_or_zero, bits_add,
    bits_xor, bits_and, bits_not, bits_rotr (by omega : 6 < 32), bits_rotr (by omega : 11 < 32),
    bits_rotr (by omega : 25 < 32), bits_rotr (by omega : 2 < 32), bits_rotr (by omega : 13 < 32),
    bits_rotr (by omega : 22 < 32)]

theorem plus_bits (s v : Vars) : (s.plus v).bits = s.bits.add v.bits := by
  simp only [Vars.bits, Vars.plus, Working.add, bits_or_zero, bits_add]

theorem nextWord_bits (w : List Word) (i : ℕ) :
    bits (nextWord w i) = smallSigma1 (w.getD (i - 2) 0) + w.getD (i - 7) 0 +
      smallSigma0 (w.getD (i - 15) 0) + w.getD (i - 16) 0 := by
  simp only [nextWord, element, smallSigma0, smallSigma1, bits_or_zero, bits_add, bits_xor,
    bits_ushr, bits_toNat, bits_rotr (by omega : 7 < 32), bits_rotr (by omega : 18 < 32),
    bits_rotr (by omega : 17 < 32), bits_rotr (by omega : 19 < 32)]
  -- the sums are written in another order
  ac_rfl

theorem tableK_getD (i : ℕ) : bits (tableK.getD i 0) = roundConstant i := by
  rw [roundConstant, ← tableK_spec]
  simp only [List.getD_eq_getElem?_getD, List.getElem?_map]
  cases tableK[i]? <;> rfl

/-- **The loop of rounds.** -/
theorem rounds_bits {w : List Word} {block : ℕ → Word}
    (hw : ∀ i < 64, w.getD i 0 = schedule block i) (v : Vars) {n : ℕ} (hn : n ≤ 64) :
    ((List.range n).foldl (fun v i => turn (tableK.getD i 0) (element w i) v) v).bits =
      (List.range n).foldl (fun s t => mixRound (roundConstant t) (schedule block t) s) v.bits := by
  induction n with
  | zero => rfl
  | succ n ih =>
      simp only [List.range_succ, List.foldl_append, List.foldl_cons, List.foldl_nil]
      rw [turn_bits, tableK_getD, element, bits_toNat, hw n hn, ih (by omega)]

/-! ### The words -/

theorem getD_set (w : List Word) (i j : ℕ) (x : Word) (hi : i < w.length) :
    (w.set i x).getD j 0 = if i = j then x else w.getD j 0 := by
  simp only [List.getD_eq_getElem?_getD, List.getElem?_set]
  split
  · rfl
  · rfl

/-- **Reading a block,** word after word. -/
theorem readBlock_spec (array : Bytes) (offset : ℕ) {w : List Word} (hw : w.length = 64) {n : ℕ}
    (hn : n ≤ 16) :
    let w' := (List.range n).foldl
      (fun w i => w.set i (bits (getUint32 array (offset + i * 4)))) w
    w'.length = 64 ∧ ∀ j < n, w'.getD j 0 = wordAt array (offset + j * 4) := by
  induction n with
  | zero => exact ⟨hw, fun j hj => absurd hj (Nat.not_lt_zero j)⟩
  | succ n ih =>
      obtain ⟨hlength, hread⟩ := ih (by omega)
      simp only [List.range_succ, List.foldl_append, List.foldl_cons, List.foldl_nil]
      refine ⟨by rw [List.length_set, hlength], ?_⟩
      intro j hj
      rw [getD_set _ _ _ _ (by rw [hlength]; omega), getUint32, bits_toNat]
      split
      · rename_i hsame
        rw [hsame]
      · exact hread j (by omega)

/-- **Expanding a block:** a word is computed from words that are already there. -/
theorem expand_spec {block : ℕ → Word} {w : List Word} (hw : w.length = 64)
    (hread : ∀ j < 16, w.getD j 0 = block j) {n : ℕ} (hn : n ≤ 48) :
    let w' := (List.range' 16 n).foldl (fun w i => w.set i (bits (nextWord w i))) w
    w'.length = 64 ∧ ∀ j < 16 + n, w'.getD j 0 = schedule block j := by
  induction n with
  | zero =>
      refine ⟨hw, fun j hj => ?_⟩
      rw [schedule_of_lt hj]
      exact hread j hj
  | succ n ih =>
      obtain ⟨hlength, hknown⟩ := ih (by omega)
      simp only [List.range'_concat, Nat.one_mul, List.foldl_append, List.foldl_cons,
        List.foldl_nil]
      refine ⟨by rw [List.length_set, hlength], ?_⟩
      intro j hj
      rw [getD_set _ _ _ _ (by rw [hlength]; omega)]
      split
      · rename_i hsame
        subst hsame
        rw [nextWord_bits, hknown _ (by omega), hknown _ (by omega), hknown _ (by omega),
          hknown _ (by omega), schedule_of_ge (t := 16 + n) (by omega)]
      · exact hknown j (by omega)

/-- **One block.** -/
theorem mixBlock_spec (array : Bytes) {s : List Word × Vars} (hs : s.1.length = 64) (n : ℕ) :
    (mixBlock array s (n * 64)).1.length = 64 ∧
      (mixBlock array s (n * 64)).2.bits = compress s.2.bits (blockAt array n) := by
  obtain ⟨hlength, hread⟩ := readBlock_spec array (n * 64) hs le_rfl
  have hblock : ∀ j < 16, (readBlock array (n * 64) s.1).getD j 0 = blockAt array n j := by
    intro j hj
    rw [readBlock, hread j hj, blockAt, Nat.mul_comm 64 n, Nat.mul_comm 4 j]
  have hexpand := expand_spec (w := readBlock array (n * 64) s.1) hlength hblock le_rfl
  have hlength' : (expand (readBlock array (n * 64) s.1)).length = 64 := hexpand.1
  have hwords : ∀ i < 64, (expand (readBlock array (n * 64) s.1)).getD i 0 =
      schedule (blockAt array n) i := hexpand.2
  revert hlength' hwords
  rw [mixBlock]
  generalize expand (readBlock array (n * 64) s.1) = w
  intro hlength' hwords
  exact ⟨hlength', by rw [plus_bits, rounds_bits hwords s.2 le_rfl, compress]⟩

/-- **The loop over the blocks.** -/
theorem blocks_bits (array : Bytes) (n : ℕ) :
    let s := (List.range n).foldl (fun s n => mixBlock array s (n * 64))
      (List.replicate 64 0, startVars)
    s.1.length = 64 ∧ s.2.bits = hashBlocks array n := by
  induction n with
  | zero => exact ⟨List.length_replicate, startVars_bits⟩
  | succ n ih =>
      obtain ⟨hlength, hbits⟩ := ih
      simp only [List.range_succ, List.foldl_append, List.foldl_cons, List.foldl_nil]
      obtain ⟨hlength', hbits'⟩ := mixBlock_spec array hlength n
      exact ⟨hlength', by rw [hbits', hbits, hashBlocks_succ]⟩

/-! ### The padding -/

theorem toInt_bits {x : ℤ} (hlow : -2 ^ 31 ≤ x) (hhigh : x < 2 ^ 31) : (bits x).toInt = x := by
  rw [bits, BitVec.toInt_ofInt]
  simp only [Int.bmod]
  omega

/-- The length of the padded message: whole blocks. -/
theorem shl_sshr {n : ℕ} (h : n < 2 ^ 31) : shl (sshr n 6) 6 = (64 * (n / 64) : ℕ) := by
  have hsshr : sshr n 6 = ((n / 64 : ℕ) : ℤ) := by
    rw [sshr, BitVec.toInt_sshiftRight, toInt_bits (by omega) (by omega),
      Int.shiftRight_eq_div_pow]
    omega
  have hword : (bits ((n / 64 : ℕ) : ℤ)).toNat = n / 64 := by
    rw [bits, BitVec.ofInt_natCast, BitVec.toNat_ofNat]
    omega
  rw [hsshr, shl, BitVec.toInt_shiftLeft, hword, Nat.shiftLeft_eq]
  simp only [Int.bmod]
  omega

theorem setBytes_append (front source : Bytes) {rest : Bytes} {pos : ℕ}
    (hpos : front.length = pos) :
    setBytes (front ++ rest) pos source = front ++ (source ++ rest.drop source.length) := by
  subst hpos
  rw [setBytes, List.take_left, List.drop_append, List.drop_eq_nil_of_le (by omega),
    List.nil_append, Nat.add_sub_cancel_left, List.append_assoc]

theorem setUint32_append (front : Bytes) {rest : Bytes} {pos : ℕ} (hpos : front.length = pos)
    (x : ℤ) : setUint32 (front ++ rest) pos x = front ++ (beBytes (bits x) ++ rest.drop 4) :=
  setBytes_append front _ hpos

/-- **The padded message** is that of the standard, where `>>` does not overflow. -/
theorem withOne_eq {bytes : Bytes} (h : bytes.length + 72 < 2 ^ 31) :
    withOne bytes = padding bytes := by
  have hsize : (shl (sshr (bytes.length + 9 + 63) 6) 6).toNat =
      bytes.length + (zeroCount bytes.length + (4 + 4) + 1) := by
    have hcast : ((bytes.length : ℤ) + 9 + 63) = ((bytes.length + 72 : ℕ) : ℤ) := by
      push_cast
      ring
    rw [hcast, shl_sshr h, Int.toNat_natCast, zeroCount]
    omega
  have hfirst : setBytes (List.replicate (bytes.length + (zeroCount bytes.length + (4 + 4) + 1)) 0)
      0 bytes = bytes ++ 0 :: List.replicate (zeroCount bytes.length + (4 + 4)) 0 := by
    rw [setBytes, List.take_zero, List.nil_append, Nat.zero_add, List.drop_replicate,
      Nat.add_sub_cancel_left, List.replicate_succ]
  have hmark : (bytes ++ 0 :: List.replicate (zeroCount bytes.length + (4 + 4)) 0).set bytes.length
      0x80 = (bytes ++ 0x80 :: List.replicate (zeroCount bytes.length) 0) ++
        (List.replicate 4 0 ++ List.replicate 4 0) := by
    rw [List.set_append_right _ _ le_rfl, Nat.sub_self, List.set_cons_zero, List.append_assoc,
      List.cons_append, ← List.replicate_append_replicate, ← List.replicate_append_replicate]
  have hlow : bits (ushr ((bytes.length : ℤ) * 8) 0) = BitVec.ofNat 32 (8 * bytes.length) := by
    rw [bits_ushr, BitVec.ushiftRight_zero, Int.mul_comm, bits]
    exact BitVec.ofInt_natCast 32 (8 * bytes.length)
  have hhigh : bits ((bytes.length : ℤ) * 8 / 0x100000000) =
      BitVec.ofNat 32 (8 * bytes.length / 2 ^ 32) := by
    rw [Int.mul_comm, bits]
    exact BitVec.ofInt_natCast 32 (8 * bytes.length / 2 ^ 32)
  rw [withOne]
  simp only [hsize, hfirst, hmark]
  have hfour : (bytes ++ 0x80 :: List.replicate (zeroCount bytes.length) (0 : UInt8)) ++
      (List.replicate 4 0 ++ List.replicate 4 0) =
      ((bytes ++ 0x80 :: List.replicate (zeroCount bytes.length) (0 : UInt8)) ++
        List.replicate 4 0) ++ List.replicate 4 0 := (List.append_assoc ..).symm
  have hlength : (bytes ++ 0x80 :: List.replicate (zeroCount bytes.length) (0 : UInt8)).length =
      bytes.length + zeroCount bytes.length + 1 := by
    rw [List.length_append, List.length_cons, List.length_replicate, Nat.add_assoc]
  rw [hfour, setUint32_append _ (by simp only [List.length_append, List.length_replicate]; omega),
    hlow, List.append_assoc, setUint32_append _ (by
      simp only [List.length_append, List.length_replicate, List.length_drop, length_beBytes,
        hlength]
      omega), hhigh]
  simp [padding, List.append_assoc]

/-! ### The digest -/

/-- **Writing words** one behind the other. -/
theorem writeWords (xs : List ℤ) (front : Bytes) {k : ℕ} (hk : front.length = k * 4) :
    (xs.zipIdx k).foldl (fun out x => setUint32 out (x.2 * 4) (ushr x.1 0))
        (front ++ List.replicate (4 * xs.length) 0) =
      front ++ (xs.map bits).flatMap beBytes := by
  induction xs generalizing front k with
  | nil => simp
  | cons x xs ih =>
      have hlong : 4 * (x :: xs).length = 4 + 4 * xs.length := by
        rw [List.length_cons]
        omega
      rw [List.zipIdx_cons, List.foldl_cons, hlong,
        setUint32_append front hk, List.drop_replicate,
        Nat.add_sub_cancel_left, ← List.append_assoc, bits_ushr, BitVec.ushiftRight_zero]
      rw [ih (front ++ beBytes (bits x)) (by rw [List.length_append, length_beBytes, hk]; omega)]
      rw [List.map_cons, List.flatMap_cons, List.append_assoc]

theorem writeDigest_eq (v : Vars) : writeDigest v = v.bits.bytes := by
  have hwords := writeWords [v.a, v.b, v.c, v.d, v.e, v.f, v.g, v.h] [] (k := 0) rfl
  exact hwords

/-- **The hash of the dashboard is SHA-256.** -/
theorem sha256Bytes_eq {bytes : Bytes} (h : bytes.length + 72 < 2 ^ 31) :
    sha256Bytes bytes = sha256 bytes := by
  have hblocks : ((padding bytes).length + 63) / 64 = (padding bytes).length / 64 := by
    rw [length_padding]
    omega
  rw [sha256Bytes, withOne_eq h, hblocks, writeDigest_eq, (blocks_bits (padding bytes) _).2, sha256]

example : hexEncode (sha256Bytes (ascii "abc")) =
    ascii "ba7816bf8f01cfea414140de5dae2223b00361a396177a9cb410ff61f20015ad" := by decide +kernel

/-! ### The keyed hash -/

theorem map_getD_range {array : Bytes} {n : ℕ} (h : array.length = n) (f : UInt8 → UInt8) :
    ((List.range n).map fun i => f (array.getD i 0)) = array.map f := by
  subst h
  refine List.ext_getElem (by simp) ?_
  intro i hi hi'
  rw [List.length_map] at hi'
  simp [List.getD_eq_getElem?_getD, List.getElem?_eq_getElem hi']

/-- **The keyed hash of the dashboard is HMAC-SHA-256,** for every key and every message that a
typed array can hold. -/
theorem hmacSha256Fallback_eq {keyBytes msgBytes : Bytes} (hkey : keyBytes.length + 72 < 2 ^ 31)
    (hmsg : msgBytes.length + 136 < 2 ^ 31) :
    hmacSha256Fallback keyBytes msgBytes = hmac keyBytes msgBytes := by
  have hblock : ∀ key : Bytes, key.length ≤ 64 →
      (if key.length < 64 then setBytes (List.replicate 64 0) 0 key else key) =
        key ++ List.replicate (64 - key.length) 0 := by
    intro key hle
    split
    · rw [setBytes, List.take_zero, List.nil_append, Nat.zero_add, List.drop_replicate]
    · rw [show 64 - key.length = 0 by omega, List.replicate_zero, List.append_nil]
  have hhashed : (if 64 < keyBytes.length then sha256Bytes keyBytes else keyBytes) =
      if 64 < keyBytes.length then sha256 keyBytes else keyBytes := by
    rw [sha256Bytes_eq hkey]
  have hshort : (if 64 < keyBytes.length then sha256 keyBytes else keyBytes).length ≤ 64 := by
    split
    · rw [length_sha256]
      omega
    · omega
  have hpadded : (blockKey keyBytes).length = 64 := by
    simp only [blockKey, List.length_append, List.length_replicate]
    omega
  rw [hmacSha256Fallback]
  simp only [hhashed]
  rw [hblock _ hshort, ← blockKey, map_getD_range hpadded (· ^^^ 0x36),
    map_getD_range hpadded (· ^^^ 0x5c), concatBytes_eq, concatBytes_eq, sha256Bytes_eq,
    sha256Bytes_eq, hmac]
  · rw [List.length_append, List.length_map, hpadded]
    omega
  · rw [List.length_append, List.length_map, hpadded, sha256Bytes_eq, length_sha256]
    · omega
    · rw [List.length_append, List.length_map, hpadded]
      omega

/-- The key and the message of a signed request. -/
theorem hmacSha256Fallback_of_request :
    hmacSha256Fallback (ascii "s") (canonicalV1Payload (ascii "GET") (ascii "/api/keys")
        (ascii "1000") []) =
      hmac (ascii "s") (canonicalV1Payload (ascii "GET") (ascii "/api/keys") (ascii "1000") []) :=
  hmacSha256Fallback_eq (by decide) (by decide +kernel)

end SimplyIpSync.Dashboard
