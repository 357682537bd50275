import SimplyIpSync.Crypto

/-!
# Secrets at rest (`SecretCipher` in `src/crypto.rs`)

A stored secret is an envelope: the hexadecimal text of the secret, or of a nonce and a ciphertext
behind it.  The authenticated cipher under the configured key is a field of the sealed form.
-/

namespace SimplyIpSync.Crypto

/-- `CryptoError`, the variants `open` returns. -/
inductive CryptoError
  | malformedCiphertext
  | decryptionFailed
  deriving DecidableEq, Repr

/-- `SecretCipher`: with a configured key, decryption takes a nonce and a ciphertext. -/
inductive SecretCipher
  | plaintext
  | sealing (decrypt : Bytes → Bytes → Option Bytes)

/-- `NONCE_LEN`. -/
def nonceLen : ℕ := 24

/-- `PLAINTEXT_PREFIX`. -/
def plaintextPrefix : Bytes := ascii "v1.plain."

/-- `SEALED_PREFIX`. -/
def sealedPrefix : Bytes := ascii "v1.xchacha20poly1305."

/-- `str::strip_prefix`. -/
def stripLead (lead text : Bytes) : Option Bytes :=
  if lead.isPrefixOf text then some (text.drop lead.length) else none

/-- `str::split_once('.')`. -/
def splitOnce : Bytes → Option (Bytes × Bytes)
  | [] => none
  | b :: rest =>
      if b = 46 then some ([], rest)
      else (splitOnce rest).map fun out => (b :: out.1, out.2)

/-- `String::from_utf8`. -/
def fromUtf8 (bytes : Bytes) : Except CryptoError Bytes :=
  if (ByteArray.mk bytes.toArray).validateUTF8 then .ok bytes else .error .malformedCiphertext

/-- A hexadecimal field of an envelope. -/
def decodeField (text : Bytes) : Except CryptoError Bytes :=
  match hexDecode text with
  | some bytes => .ok bytes
  | none => .error .malformedCiphertext

/-- The sealed half of `open`. -/
def openSealed (cipher : SecretCipher) (body : Bytes) : Except CryptoError Bytes :=
  match splitOnce body with
  | none => .error .malformedCiphertext
  | some (nonceHex, ciphertextHex) =>
      match decodeField nonceHex with
      | .error e => .error e
      | .ok nonce =>
          if nonce.length ≠ nonceLen then .error .malformedCiphertext
          else
            match decodeField ciphertextHex with
            | .error e => .error e
            | .ok ciphertext =>
                match cipher with
                | .plaintext => .error .decryptionFailed
                | .sealing decrypt =>
                    match decrypt nonce ciphertext with
                    | none => .error .decryptionFailed
                    | some secret => fromUtf8 secret

/-- `SecretCipher::open`. -/
def SecretCipher.openSecret (cipher : SecretCipher) (stored : Bytes) : Except CryptoError Bytes :=
  match stripLead plaintextPrefix stored with
  | some encoded =>
      match decodeField encoded with
      | .error e => .error e
      | .ok secret => fromUtf8 secret
  | none =>
      match stripLead sealedPrefix stored with
      | some body => openSealed cipher body
      | none => .error .malformedCiphertext

end SimplyIpSync.Crypto
