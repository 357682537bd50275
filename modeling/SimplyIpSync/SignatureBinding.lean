import SimplyIpSync.Lib.Trim
import SimplyIpSync.Middleware

/-!
# What a signature binds (`src/crypto.rs`, `src/replay.rs`)

With a keyed hash that is injective in key and message, a computed header verifies for its own
secret, method, target, timestamp and body only.  A header can be spelled in many ways: blanks
around it or behind its prefix, and digits in either case.  `reading` is what verification sees of
a header, and it is the same for all spellings; so are the digest and the entry of the replay guard.
-/

namespace SimplyIpSync.SignatureBinding

open SimplyIpSync.Crypto SimplyIpSync.Middleware SimplyIpSync.Replay SimplyIpSync.Trim

/-! ### The keyed hash -/

/-- The digest determines the secret and the message. -/
def MacIdeal (mac : Bytes → Bytes → Bytes) : Prop :=
  ∀ {secret message secret' message' : Bytes},
    mac secret message = mac secret' message' → secret = secret' ∧ message = message'

/-- What a signature is computed from. -/
structure Components where
  secret : Bytes
  method : Bytes
  target : Bytes
  timestamp : Bytes
  body : Bytes
  method_line : newline ∉ method
  target_line : newline ∉ target
  timestamp_line : newline ∉ timestamp

namespace Components

variable (mac : Bytes → Bytes → Bytes)

/-- The payload under the secret. -/
def digest (c : Components) : Bytes :=
  mac c.secret (canonicalV1Payload c.method c.target c.timestamp c.body)

/-- `compute_signature` on the components. -/
def signature (c : Components) : Bytes :=
  computeSignature mac c.secret c.method c.target c.timestamp c.body

/-- `verify_signature` on the components. -/
def verify (c : Components) (header : Bytes) : Option Bytes :=
  verifySignature mac c.secret c.method c.target c.timestamp c.body header

/-- **The digest determines the components.** -/
theorem digest_inj {mac : Bytes → Bytes → Bytes} (hmac : MacIdeal mac) {c c' : Components}
    (h : c.digest mac = c'.digest mac) : c = c' := by
  obtain ⟨hsecret, hpayload⟩ := hmac h
  obtain ⟨hmethod, htarget, htimestamp, hbody⟩ := canonicalV1Payload_inj c.method_line
    c.target_line c.timestamp_line c'.method_line c'.target_line c'.timestamp_line hpayload
  cases c
  cases c'
  simp only at hsecret hmethod htarget htimestamp hbody
  subst hsecret hmethod htarget htimestamp hbody
  rfl

end Components

/-! ### Spellings of a header -/

/-- `u8::to_ascii_lowercase`. -/
def lower (b : UInt8) : UInt8 := if 65 ≤ b ∧ b ≤ 90 then b + 32 else b

theorem lower_spec (b : UInt8) : isBlank (lower b) = isBlank b ∧
    hexValue (lower b) = hexValue b ∧ lower (lower b) = lower b := by
  have hall : ∀ n : Fin 256, isBlank (lower (UInt8.ofFin n)) = isBlank (UInt8.ofFin n) ∧
      hexValue (lower (UInt8.ofFin n)) = hexValue (UInt8.ofFin n) ∧
      lower (lower (UInt8.ofFin n)) = lower (UInt8.ofFin n) := by
    decide +kernel
  exact hall b.toFin

theorem map_lower_lower (text : Bytes) : (text.map lower).map lower = text.map lower := by
  rw [List.map_map]
  exact List.map_congr_left fun b _ => (lower_spec b).2.2

/-- Decoding reads digits of either case. -/
theorem hexDecode_lower (text : Bytes) : hexDecode (text.map lower) = hexDecode text := by
  induction text using hexDecode.induct with
  | case1 => rfl
  | case2 b => rfl
  | case3 hi lo rest _ _ _ _ _ _ ih =>
      simp only [List.map_cons, hexDecode, (lower_spec hi).2.1, (lower_spec lo).2.1, ih]
  | case4 hi lo rest _ ih =>
      simp only [List.map_cons, hexDecode, (lower_spec hi).2.1, (lower_spec lo).2.1, ih]

/-- A digit, in lower case, is the one for its value. -/
theorem hexDigit_of_hexValue {b v : UInt8} (h : hexValue b = some v) :
    v.toNat < 16 ∧ lower b = hexDigit v := by
  have hall : ∀ n : Fin 256, ∀ v ∈ hexValue (UInt8.ofFin n),
      v.toNat < 16 ∧ lower (UInt8.ofFin n) = hexDigit v := by
    decide +kernel
  exact hall b.toFin v h

/-- What decodes is, in lower case, the encoding. -/
theorem hexEncode_of_hexDecode {text bytes : Bytes} (h : hexDecode text = some bytes) :
    text.map lower = hexEncode bytes := by
  induction text using hexDecode.induct generalizing bytes with
  | case1 =>
      obtain rfl := Option.some.inj h
      rfl
  | case2 b => cases h
  | case3 hi lo rest high low decoded hrest hlow hhigh ih =>
      rw [hexDecode, hhigh, hlow, hrest] at h
      obtain rfl := Option.some.inj h
      obtain ⟨hhigh16, hhi⟩ := hexDigit_of_hexValue hhigh
      obtain ⟨hlow16, hlo⟩ := hexDigit_of_hexValue hlow
      have hdiv : (high * 16 + low) / 16 = high := by
        refine UInt8.toNat_inj.mp ?_
        simp only [UInt8.toNat_div, UInt8.toNat_add, UInt8.toNat_mul, UInt8.toNat_ofNat,
          Nat.reducePow, Nat.reduceMod]
        omega
      have hmod : (high * 16 + low) % 16 = low := by
        refine UInt8.toNat_inj.mp ?_
        simp only [UInt8.toNat_mod, UInt8.toNat_add, UInt8.toNat_mul, UInt8.toNat_ofNat,
          Nat.reducePow, Nat.reduceMod]
        omega
      rw [List.map_cons, List.map_cons, ih hrest, hhi, hlo, hexEncode, hexEncode,
        List.flatMap_cons, hdiv, hmod]
      rfl
  | case4 hi lo rest hnone _ =>
      exfalso
      rw [hexDecode] at h
      split at h
      · rename_i hhigh hlow hrest
        exact hnone _ _ _ hhigh hlow hrest
      · cases h

/-- A change of spelling: blanks around the value, blanks behind the prefix, or the case of letters
behind the prefix. -/
inductive Respelled : Bytes → Bytes → Prop
  | around {before after : Bytes} (value : Bytes) (hbefore : Blank isBlank before)
      (hafter : Blank isBlank after) : Respelled (before ++ value ++ after) value
  | gap {blanks : Bytes} (rest : Bytes) (hblanks : Blank isBlank blanks) :
      Respelled (signaturePrefix ++ (blanks ++ rest)) (signaturePrefix ++ rest)
  | letters {rest rest' : Bytes} (hcase : rest.map lower = rest'.map lower) :
      Respelled (signaturePrefix ++ rest) (signaturePrefix ++ rest')

/-- Two spellings of one header value. -/
abbrev SameSpelling : Bytes → Bytes → Prop := Relation.EqvGen Respelled

/-- What verification reads of a header: its digits, in lower case. -/
def reading (header : Bytes) : Option Bytes :=
  if signaturePrefix.isPrefixOf (trim header) then
    some ((trim ((trim header).drop signaturePrefix.length)).map lower)
  else none

theorem trim_eq (text : Bytes) : trim text = trimBy isBlank text := rfl

theorem trim_prefix (rest : Bytes) :
    trim (signaturePrefix ++ rest) = signaturePrefix ++ rest.rdropWhile isBlank :=
  trimBy_front rfl rfl rest

theorem reading_append (rest : Bytes) :
    reading (signaturePrefix ++ rest) = some ((trim rest).map lower) := by
  rw [reading, trim_prefix, if_pos (by simp), List.drop_left, trim_eq, trimBy_rdropWhile, trim_eq]

/-- A change of spelling does not change what is read. -/
theorem Respelled.reading_eq {header header' : Bytes} (h : Respelled header header') :
    reading header = reading header' := by
  cases h with
  | around value hbefore hafter =>
      have htrim : trim (_ ++ header' ++ _) = trim header' :=
        trimBy_append hbefore hafter header'
      rw [reading, reading, htrim]
  | gap rest hblanks =>
      rename_i blanks
      have htrim : trim (blanks ++ rest) = trim rest := by
        have hboth := trimBy_append hblanks (List.forall_mem_nil _) rest
        rwa [List.append_nil] at hboth
      rw [reading_append, reading_append, htrim]
  | letters hcase =>
      have hblank : ∀ b, isBlank (lower b) = isBlank b := fun b => (lower_spec b).1
      rw [reading_append, reading_append, trim_eq, trim_eq, ← trimBy_map hblank,
        ← trimBy_map hblank, hcase]

theorem SameSpelling.reading_eq {header header' : Bytes} (h : SameSpelling header header') :
    reading header = reading header' := by
  induction h with
  | rel _ _ hstep => exact hstep.reading_eq
  | refl _ => rfl
  | symm _ _ _ ih => exact ih.symm
  | trans _ _ _ _ _ ih₁ ih₂ => exact ih₁.trans ih₂

/-- A header that reads as `digits` is a spelling of the prefix with those digits. -/
theorem sameSpelling_of_reading {header digits : Bytes} (h : reading header = some digits) :
    SameSpelling header (signaturePrefix ++ digits) := by
  rw [reading] at h
  split at h
  · rename_i hform
    obtain ⟨rest, hrest⟩ := List.isPrefixOf_iff_prefix.mp hform
    rw [← hrest, List.drop_left] at h
    obtain rfl := Option.some.inj h
    obtain ⟨before, after, hbefore, hafter, hheader⟩ := exists_blanks isBlank header
    obtain ⟨before', after', hbefore', hafter', hrest'⟩ := exists_blanks isBlank rest
    rw [← trim_eq] at hheader hrest'
    -- the blanks around, those behind the prefix, those behind the digits, then the letters
    have haround : SameSpelling header (signaturePrefix ++ rest) := by
      rw [hheader, ← hrest]
      exact .rel _ _ (.around _ hbefore hafter)
    have hgap : SameSpelling (signaturePrefix ++ rest)
        (signaturePrefix ++ (trim rest ++ after')) := by
      conv_lhs => rw [hrest', List.append_assoc]
      exact .rel _ _ (.gap _ hbefore')
    have hbehind : SameSpelling (signaturePrefix ++ (trim rest ++ after'))
        (signaturePrefix ++ trim rest) := by
      have hstep := Respelled.around (signaturePrefix ++ trim rest) (List.forall_mem_nil _) hafter'
      rw [List.nil_append, List.append_assoc] at hstep
      exact .rel _ _ hstep
    have hletters : SameSpelling (signaturePrefix ++ trim rest)
        (signaturePrefix ++ (trim rest).map lower) :=
      .rel _ _ (.letters (map_lower_lower _).symm)
    exact ((haround.trans _ _ _ hgap).trans _ _ _ hbehind).trans _ _ _ hletters
  · cases h

/-! ### Verification -/

section Verify

variable (mac : Bytes → Bytes → Bytes)

/-- Verification looks at the reading only. -/
theorem Components.verify_eq (c : Components) (header : Bytes) :
    c.verify mac header =
      ((reading header).bind hexDecode).filter fun digest => digest = c.digest mac := by
  rw [verify, verifySignature, reading]
  split
  · rw [Option.bind_some, hexDecode_lower]
    cases hexDecode (trim ((trim header).drop signaturePrefix.length)) with
    | none => rfl
    | some decoded =>
        show (if decoded = c.digest mac then some decoded else none) =
          if decide (decoded = c.digest mac) = true then some decoded else none
        simp only [decide_eq_true_eq]
  · rfl

/-- A computed header reads as the digits of its digest. -/
theorem Components.reading_signature (c : Components) :
    (reading (c.signature mac)).bind hexDecode = some (c.digest mac) := by
  have hnone : ∀ b ∈ hexEncode (c.digest mac), isBlank b = false := by
    intro b hb
    obtain ⟨x, -, hx⟩ := List.mem_flatMap.mp hb
    have hall : ∀ n : Fin 256, isBlank (hexDigit (UInt8.ofFin n / 16)) = false ∧
        isBlank (hexDigit (UInt8.ofFin n % 16)) = false := by decide +kernel
    obtain ⟨hhigh, hlow⟩ := hall x.toFin
    simp only [List.mem_cons, List.not_mem_nil, or_false] at hx
    rcases hx with rfl | rfl
    · exact hhigh
    · exact hlow
  have hread := reading_append (hexEncode (c.digest mac))
  rw [trim_eq, trimBy_of_none hnone] at hread
  show (reading (signaturePrefix ++ hexEncode (c.digest mac))).bind hexDecode = _
  rw [hread, Option.bind_some, hexDecode_lower, hexDecode_hexEncode]

/-- **What verifies is the computed header, in any spelling.** -/
theorem Components.verify_iff (c : Components) {header digest : Bytes} :
    c.verify mac header = some digest ↔
      digest = c.digest mac ∧ SameSpelling header (c.signature mac) := by
  rw [c.verify_eq, Option.filter_eq_some_iff]
  constructor
  · rintro ⟨hdecode, hdigest⟩
    have hdigest := of_decide_eq_true hdigest
    obtain ⟨digits, hread, hdigits⟩ := Option.bind_eq_some_iff.mp hdecode
    have hsignature : c.signature mac = signaturePrefix ++ digits.map lower := by
      rw [hexEncode_of_hexDecode hdigits, hdigest]
      rfl
    rw [hsignature]
    refine ⟨hdigest, (sameSpelling_of_reading hread).trans _ _ _ (.rel _ _ ?_)⟩
    exact .letters (map_lower_lower digits).symm
  · rintro ⟨rfl, hspelling⟩
    rw [hspelling.reading_eq]
    exact ⟨c.reading_signature mac, decide_eq_true rfl⟩

/-- The middleware treats all spellings of a signature header alike. -/
theorem authenticate_spelling (g : ReplayGuard) (r : InboundRequest) (checkedAt recordedAt : ℤ)
    {header header' : Bytes} (h : SameSpelling header header') :
    authenticate mac g { r with signatureHeader := header } checkedAt recordedAt =
      authenticate mac g { r with signatureHeader := header' } checkedAt recordedAt := by
  have hform : signaturePrefix.isPrefixOf (trim header) =
      signaturePrefix.isPrefixOf (trim header') := by
    have hsome : ∀ header, (reading header).isSome = signaturePrefix.isPrefixOf (trim header) := by
      intro header
      rw [reading]
      cases signaturePrefix.isPrefixOf (trim header) with
      | true => rfl
      | false => rfl
    rw [← hsome, ← hsome, h.reading_eq]
  rw [authenticate, authenticate]
  cases hvalid : validateTimestamp checkedAt r.timestampHeader with
  | error e => rfl
  | ok timestamp =>
      obtain ⟨ts, hsupplies, -⟩ := validateTimestamp_eq_ok.mp hvalid
      let c : Components := ⟨r.secret, r.method, r.target, timestamp, r.body, r.method_line,
        r.target_line, hsupplies.newline_notMem⟩
      have hverify : c.verify mac header = c.verify mac header' := by
        rw [c.verify_eq, c.verify_eq, h.reading_eq]
      simp only [Components.verify] at hverify
      simp only [hform, hverify, c]

/-- **A signature binds exactly its components.**  The computed header verifies and gives its
digest; a header computed from other components does not; what verifies is the computed header in
some spelling; and no spelling changes the digest, the answer of the middleware or its guard. -/
theorem signature_binds (hmac : MacIdeal mac) (c : Components) :
    c.verify mac (c.signature mac) = some (c.digest mac) ∧
      (∀ c' : Components, (c.verify mac (c'.signature mac)).isSome → c' = c) ∧
      (∀ header header', SameSpelling header header' →
        c.verify mac header = c.verify mac header') ∧
      (∀ header digest, c.verify mac header = some digest ↔
        digest = c.digest mac ∧ SameSpelling header (c.signature mac)) ∧
      ∀ (g : ReplayGuard) (r : InboundRequest) (checkedAt recordedAt : ℤ) (header header' : Bytes),
        SameSpelling header header' →
          authenticate mac g { r with signatureHeader := header } checkedAt recordedAt =
            authenticate mac g { r with signatureHeader := header' } checkedAt recordedAt := by
  refine ⟨?_, ?_, ?_, ?_, ?_⟩
  · exact (c.verify_iff mac).mpr ⟨rfl, .refl _⟩
  · intro c' haccepts
    obtain ⟨digest, hverify⟩ := Option.isSome_iff_exists.mp haccepts
    rw [c.verify_eq, c'.reading_signature, Option.filter_eq_some_iff] at hverify
    obtain ⟨hdecoded, hdigest⟩ := hverify
    have hsame : c'.digest mac = digest := Option.some.inj hdecoded
    exact Components.digest_inj hmac (hsame.trans (of_decide_eq_true hdigest))
  · intro header header' hspelling
    rw [c.verify_eq, c.verify_eq, hspelling.reading_eq]
  · exact fun header digest => c.verify_iff mac
  · exact fun g r checkedAt recordedAt header header' => authenticate_spelling mac g r _ _

end Verify

/-! ### An injective keyed hash -/

/-- The secret, marked off by its length, and the message. -/
def taggedMac (secret message : Bytes) : Bytes :=
  List.replicate secret.length 1 ++ 0 :: (secret ++ message)

theorem taggedMac_ideal : MacIdeal taggedMac := by
  intro secret message secret' message' h
  have hlength : ∀ {n m : ℕ} {a b : Bytes}, List.replicate n (1 : UInt8) ++ 0 :: a =
      List.replicate m 1 ++ 0 :: b → n = m ∧ a = b := by
    intro n
    induction n with
    | zero =>
        intro m a b h
        cases m with
        | zero => exact ⟨rfl, List.tail_eq_of_cons_eq h⟩
        | succ m => exact absurd (List.head_eq_of_cons_eq h) (by decide)
    | succ n ih =>
        intro m a b h
        cases m with
        | zero => exact absurd (List.head_eq_of_cons_eq h) (by decide)
        | succ m =>
            obtain ⟨hn, hrest⟩ := ih (List.tail_eq_of_cons_eq h)
            exact ⟨congrArg Nat.succ hn, hrest⟩
  obtain ⟨hsame, hrest⟩ := hlength h
  exact List.append_inj hrest hsame

/-- A signed request without a body. -/
def signedDelete : Components where
  secret := ascii "k"
  method := ascii "DELETE"
  target := ascii "/api/keys/7"
  timestamp := ascii "1700000000"
  body := []
  method_line := by decide
  target_line := by decide
  timestamp_line := by decide

/-- The same request with a body in place of the end of its target is another one. -/
theorem signature_binds_delete :
    signedDelete.verify taggedMac (signedDelete.signature taggedMac) =
        some (signedDelete.digest taggedMac) ∧
      signedDelete.verify taggedMac
        (Components.signature taggedMac { signedDelete with body := [newline] }) = none := by
  obtain ⟨haccepts, hothers, -⟩ := signature_binds taggedMac taggedMac_ideal signedDelete
  refine ⟨haccepts, Option.not_isSome_iff_eq_none.mp ?_⟩
  intro hsome
  have hbody := congrArg Components.body (hothers _ hsome)
  exact List.cons_ne_nil _ _ hbody

end SimplyIpSync.SignatureBinding
