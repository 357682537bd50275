import Mathlib.Tactic

/-!
# `CANONICAL_V1` signatures (`src/crypto.rs`)

The signed byte string and the signature header.  A text is the list of its bytes.  The keyed hash
is a parameter `mac`: a secret and a message give a digest.

The three line breaks of the payload separate its parts, so two requests with the same payload
agree in method, target, timestamp and body.
-/

namespace SimplyIpSync.Crypto

/-- A text or a body, as its bytes. -/
abbrev Bytes := List UInt8

/-- The bytes of an ASCII literal. -/
def ascii (s : String) : Bytes := s.toList.map fun c => UInt8.ofNat c.toNat

/-- `b'\n'`. -/
def newline : UInt8 := 10

/-! ### The payload -/

/-- `canonical_v1_payload`: `METHOD\nTARGET\nTIMESTAMP\nRAW_BODY`. -/
def canonicalV1Payload (method target timestamp body : Bytes) : Bytes :=
  method ++ newline :: (target ++ newline :: (timestamp ++ newline :: body))

/-- The first line break ends the first line. -/
theorem append_newline_inj {a b c d : Bytes} (ha : newline ∉ a) (hb : newline ∉ b)
    (h : a ++ newline :: c = b ++ newline :: d) : a = b ∧ c = d := by
  induction a generalizing b with
  | nil =>
      cases b with
      | nil => exact ⟨rfl, List.tail_eq_of_cons_eq h⟩
      | cons y b =>
          have hy : newline = y := List.head_eq_of_cons_eq h
          exact absurd (hy ▸ List.mem_cons_self ..) hb
  | cons x a ih =>
      cases b with
      | nil =>
          have hx : x = newline := List.head_eq_of_cons_eq h
          exact absurd (hx ▸ List.mem_cons_self ..) ha
      | cons y b =>
          obtain ⟨hxy, hrest⟩ := List.cons_eq_cons.mp h
          obtain ⟨hab, hcd⟩ := ih (fun hmem => ha (List.mem_cons_of_mem _ hmem))
            (fun hmem => hb (List.mem_cons_of_mem _ hmem)) hrest
          exact ⟨by rw [hxy, hab], hcd⟩

/-- **The payload determines its parts.** -/
theorem canonicalV1Payload_inj {method target timestamp body : Bytes}
    {method' target' timestamp' body' : Bytes} (hm : newline ∉ method) (ht : newline ∉ target)
    (hs : newline ∉ timestamp) (hm' : newline ∉ method') (ht' : newline ∉ target')
    (hs' : newline ∉ timestamp')
    (h : canonicalV1Payload method target timestamp body =
      canonicalV1Payload method' target' timestamp' body') :
    method = method' ∧ target = target' ∧ timestamp = timestamp' ∧ body = body' := by
  obtain ⟨hmethod, hrest⟩ := append_newline_inj hm hm' h
  obtain ⟨htarget, hrest⟩ := append_newline_inj ht ht' hrest
  obtain ⟨htimestamp, hbody⟩ := append_newline_inj hs hs' hrest
  exact ⟨hmethod, htarget, htimestamp, hbody⟩

/-! ### The signature header -/

/-- `SIGNATURE_PREFIX`. -/
def signaturePrefix : Bytes := ascii "sha256="

/-- The digits of `hex::encode`. -/
def hexDigit (n : UInt8) : UInt8 := if n < 10 then 48 + n else 87 + n

/-- `hex::encode`, lower case. -/
def hexEncode (bytes : Bytes) : Bytes := bytes.flatMap fun b => [hexDigit (b / 16), hexDigit (b % 16)]

/-- The value of a hexadecimal digit of either case. -/
def hexValue (b : UInt8) : Option UInt8 :=
  if 48 ≤ b ∧ b ≤ 57 then some (b - 48)
  else if 97 ≤ b ∧ b ≤ 102 then some (b - 87)
  else if 65 ≤ b ∧ b ≤ 70 then some (b - 55)
  else none

/-- `hex::decode`. -/
def hexDecode : Bytes → Option Bytes
  | [] => some []
  | [_] => none
  | hi :: lo :: rest =>
      match hexValue hi, hexValue lo, hexDecode rest with
      | some h, some l, some bytes => some ((h * 16 + l) :: bytes)
      | _, _, _ => none

theorem hexValue_hexDigit (b : UInt8) : hexValue (hexDigit (b / 16)) = some (b / 16) ∧
    hexValue (hexDigit (b % 16)) = some (b % 16) ∧ b / 16 * 16 + b % 16 = b := by
  have hall : ∀ n : Fin 256, hexValue (hexDigit (UInt8.ofFin n / 16)) = some (UInt8.ofFin n / 16) ∧
      hexValue (hexDigit (UInt8.ofFin n % 16)) = some (UInt8.ofFin n % 16) ∧
      UInt8.ofFin n / 16 * 16 + UInt8.ofFin n % 16 = UInt8.ofFin n := by
    decide +kernel
  exact hall b.toFin

/-- **Decoding undoes encoding.** -/
theorem hexDecode_hexEncode (bytes : Bytes) : hexDecode (hexEncode bytes) = some bytes := by
  induction bytes with
  | nil => rfl
  | cons b bytes ih =>
      obtain ⟨hhigh, hlow, hboth⟩ := hexValue_hexDigit b
      have hcons : hexEncode (b :: bytes) =
          hexDigit (b / 16) :: hexDigit (b % 16) :: hexEncode bytes := rfl
      rw [hcons]
      simp only [hexDecode, hhigh, hlow, ih, hboth]

theorem hexEncode_injective {a b : Bytes} (h : hexEncode a = hexEncode b) : a = b := by
  have hdecode := congrArg hexDecode h
  rw [hexDecode_hexEncode, hexDecode_hexEncode] at hdecode
  exact Option.some.inj hdecode

/-- A blank of a header value: a space or a tab. -/
def isBlank (b : UInt8) : Bool := b == 32 || b == 9

/-- `str::trim` on the text of a header value. -/
def trim (bytes : Bytes) : Bytes :=
  ((bytes.dropWhile isBlank).reverse.dropWhile isBlank).reverse

variable (mac : Bytes → Bytes → Bytes)

/-- `compute_signature`. -/
def computeSignature (secret method target timestamp body : Bytes) : Bytes :=
  signaturePrefix ++ hexEncode (mac secret (canonicalV1Payload method target timestamp body))

/-- `verify_signature`: the decoded digest, if it is the right one. -/
def verifySignature (secret method target timestamp body provided : Bytes) : Option Bytes :=
  let trimmed := trim provided
  if signaturePrefix.isPrefixOf trimmed then
    match hexDecode (trim (trimmed.drop signaturePrefix.length)) with
    | some digest =>
        if digest = mac secret (canonicalV1Payload method target timestamp body) then some digest
        else none
    | none => none
  else none

/-- A verified digest is the keyed hash of the payload. -/
theorem digest_of_verifySignature {secret method target timestamp body provided digest : Bytes}
    (h : verifySignature mac secret method target timestamp body provided = some digest) :
    digest = mac secret (canonicalV1Payload method target timestamp body) := by
  rw [verifySignature] at h
  split at h
  · split at h
    · split at h
      · rename_i decoded _ hmac
        obtain rfl := Option.some.inj h
        exact hmac
      · cases h
    · cases h
  · cases h

end SimplyIpSync.Crypto
