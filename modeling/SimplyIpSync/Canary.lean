import SimplyIpSync.Api.Rows
import SimplyIpSync.Master
import SimplyIpSync.SecretCipher
import SimplyIpSync.Text

/-!
# The encryption check at boot (`verify_encryption_key` in `src/main.rs`)

`SecretCipher::seal` writes an envelope under the key of its time; `verify_encryption_key` opens one
stored secret with the current one and lets the service start if that succeeds.  The secrets of a
database come from any number of periods, with or without a key, and stand in two tables, of which
the check looks at one.  `boot_opens_iff` says when a start that passes the check can open them all.
-/

namespace SimplyIpSync.Canary

open SimplyIpSync.Crypto SimplyIpSync.Text SimplyIpSync.Api SimplyIpSync.Storage

/-! ### Keys and envelopes -/

/-- `XChaCha20Poly1305`: what it makes of a key, a nonce and a text. -/
structure Aead where
  encrypt (key nonce plaintext : Bytes) : Option Bytes
  decrypt (key nonce ciphertext : Bytes) : Option Bytes

/-- A ciphertext opens under the key it was made with, and under no other. -/
structure Aead.Ideal (aead : Aead) : Prop where
  opens : ∀ {key nonce plaintext ciphertext}, aead.encrypt key nonce plaintext = some ciphertext →
    aead.decrypt key nonce ciphertext = some plaintext
  only : ∀ {key key' nonce plaintext ciphertext},
    aead.encrypt key nonce plaintext = some ciphertext → key' ≠ key →
      aead.decrypt key' nonce ciphertext = none

/-- A setting of `SYNC_ENCRYPTION_KEY`. -/
inductive KeySetting
  | unset
  | key (bytes : Bytes)
  deriving DecidableEq, Repr

/-- What `verify_encryption_key` fails with. -/
inductive BootError
  | invalidKey
  | secret (e : CryptoError)
  deriving DecidableEq, Repr

/-- `KEY_LEN`. -/
def keyLen : ℕ := 32

/-- `SecretCipher::from_hex_key`. -/
def fromHexKey (hexKey : Bytes) : Except BootError KeySetting :=
  match hexDecode hexKey with
  | none => .error .invalidKey
  | some bytes => if bytes.length ≠ keyLen then .error .invalidKey else .ok (.key bytes)

/-- `SecretCipher::from_env`. -/
def fromEnv (raw : Option (List Char)) : Except BootError KeySetting :=
  match raw.filter fun raw => trimText raw ≠ [] with
  | some raw => fromHexKey (utf8 (trimText raw))
  | none => .ok .unset

/-- The cipher of a setting. -/
def KeySetting.cipher (aead : Aead) : KeySetting → SecretCipher
  | .unset => .plaintext
  | .key bytes => .sealing (aead.decrypt bytes)

/-- `SecretCipher::seal` with this random nonce; `none` where it fails. -/
def KeySetting.sealSecret (aead : Aead) (nonce : Bytes) (plaintext : List Char) :
    KeySetting → Option Bytes
  | .unset => some (plaintextPrefix ++ hexEncode (utf8 plaintext))
  | .key bytes =>
      (aead.encrypt bytes nonce (utf8 plaintext)).map fun ciphertext =>
        sealedPrefix ++ (hexEncode nonce ++ 46 :: hexEncode ciphertext)

/-! ### The check -/

/-- `KeyCanary`. -/
inductive KeyCanary
  | noSealedSecrets
  | verified
  deriving DecidableEq, Repr

/-- `check_key_canary`. -/
def checkKeyCanary (cipher : SecretCipher) (sample : Option Bytes) :
    Except CryptoError KeyCanary :=
  match sample with
  | none => .ok .noSealedSecrets
  | some stored =>
      match cipher.openSecret stored with
      | .error e => .error e
      | .ok _ => .ok .verified

/-- `verify_encryption_key`, with the row that its query returns. -/
def verifyEncryptionKey (aead : Aead) (raw : Option (List Char)) (row : Option ApiKey) :
    Except BootError Unit :=
  match fromEnv raw with
  | .error e => .error e
  | .ok setting =>
      match checkKeyCanary (setting.cipher aead) (row.bind ApiKey.signingSecret) with
      | .error e => .error (.secret e)
      | .ok .verified => .ok ()
      | .ok .noSealedSecrets => .ok ()

/-- The query for the check may return any key with a secret, and none only if there is none. -/
def IsSample (db : Database) : Option ApiKey → Prop
  | none => ∀ key ∈ db.apiKeys.rows, key.signingSecret = none
  | some key => key ∈ db.apiKeys.rows ∧ key.signingSecret.isSome

/-- The signing secrets of both tables. -/
def storedSecrets (db : Database) : List Bytes :=
  db.apiKeys.rows.filterMap ApiKey.signingSecret ++
    db.vaultEndpoints.rows.map fun endpoint => utf8 endpoint.signingSecret.toList

/-! ### What was sealed -/

/-- One call of `seal`: the setting of its time, the nonce it drew, and the secret. -/
structure Sealing where
  setting : KeySetting
  nonce : Bytes
  secret : List Char
  nonce_length : nonce.length = nonceLen

/-- The envelope the call stored. -/
def Sealing.envelope (aead : Aead) (w : Sealing) : Option Bytes :=
  w.setting.sealSecret aead w.nonce w.secret

/-- The secret opens with the current setting, and to what was sealed. -/
def Opens (aead : Aead) (current : KeySetting) (stored : Bytes) : Prop :=
  ∀ w : Sealing, w.envelope aead = some stored →
    (current.cipher aead).openSecret stored = .ok (utf8 w.secret)

/-- The secret was written without a key, or under the current one. -/
def Readable (aead : Aead) (current : KeySetting) (stored : Bytes) : Prop :=
  ∃ w : Sealing, w.envelope aead = some stored ∧ (w.setting = .unset ∨ w.setting = current)

/-! ### Opening an envelope -/

theorem stripLead_append (lead text : Bytes) : stripLead lead (lead ++ text) = some text := by
  rw [stripLead, if_pos (by simp), List.drop_left]

theorem stripLead_plaintext_sealed (text : Bytes) :
    stripLead plaintextPrefix (sealedPrefix ++ text) = none := by
  rw [stripLead, if_neg]
  exact Bool.false_ne_true

theorem dot_notMem_hexEncode (bytes : Bytes) : (46 : UInt8) ∉ hexEncode bytes := by
  have hdigit : ∀ n : Fin 256, hexDigit (UInt8.ofFin n / 16) ≠ 46 ∧
      hexDigit (UInt8.ofFin n % 16) ≠ 46 := by decide +kernel
  intro hmem
  obtain ⟨b, -, hb⟩ := List.mem_flatMap.mp hmem
  obtain ⟨hhigh, hlow⟩ := hdigit b.toFin
  simp only [List.mem_cons, List.not_mem_nil, or_false] at hb
  rcases hb with hb | hb
  · exact hhigh hb.symm
  · exact hlow hb.symm

theorem splitOnce_append {a : Bytes} (ha : (46 : UInt8) ∉ a) (b : Bytes) :
    splitOnce (a ++ 46 :: b) = some (a, b) := by
  induction a with
  | nil => rfl
  | cons x a ih =>
      obtain ⟨hx, ha⟩ := not_or.mp (List.mem_cons.not.mp ha)
      rw [List.cons_append, splitOnce, if_neg (Ne.symm hx), ih ha]
      rfl

theorem decodeField_hexEncode (bytes : Bytes) : decodeField (hexEncode bytes) = .ok bytes := by
  rw [decodeField, hexDecode_hexEncode]

theorem fromUtf8_utf8 (text : List Char) : fromUtf8 (utf8 text) = .ok (utf8 text) := by
  rw [fromUtf8, if_pos (validateUTF8_utf8 text)]

variable {aead : Aead}

/-- An envelope written without a key opens with every setting. -/
theorem openSecret_unset (cipher : SecretCipher) (secret : List Char) :
    cipher.openSecret (plaintextPrefix ++ hexEncode (utf8 secret)) = .ok (utf8 secret) := by
  rw [SecretCipher.openSecret, stripLead_append]
  simp only [decodeField_hexEncode, fromUtf8_utf8]

/-- A sealed envelope is for the key to open. -/
theorem openSecret_sealed {nonce : Bytes} (hnonce : nonce.length = nonceLen) (ciphertext : Bytes)
    (current : KeySetting) :
    (current.cipher aead).openSecret
        (sealedPrefix ++ (hexEncode nonce ++ 46 :: hexEncode ciphertext)) =
      match current with
      | .unset => .error .decryptionFailed
      | .key key =>
          match aead.decrypt key nonce ciphertext with
          | none => .error .decryptionFailed
          | some secret => fromUtf8 secret := by
  rw [SecretCipher.openSecret, stripLead_plaintext_sealed, stripLead_append]
  simp only [openSealed, splitOnce_append (dot_notMem_hexEncode nonce), decodeField_hexEncode,
    hnonce, ne_eq, not_true_eq_false, if_false]
  cases current with
  | unset => rfl
  | key key => rfl

/-- **An envelope opens to its secret** with the setting it was written under, or with any when it
was written without a key. -/
theorem openSecret_of_envelope (hideal : aead.Ideal) {w : Sealing} {stored : Bytes}
    (hw : w.envelope aead = some stored) {current : KeySetting}
    (hcurrent : w.setting = .unset ∨ w.setting = current) :
    (current.cipher aead).openSecret stored = .ok (utf8 w.secret) := by
  rw [Sealing.envelope] at hw
  cases hsetting : w.setting with
  | unset =>
      rw [hsetting] at hw
      obtain rfl := Option.some.inj hw
      exact openSecret_unset _ _
  | key key =>
      rw [hsetting] at hw hcurrent
      obtain ⟨ciphertext, hencrypt, rfl⟩ := Option.map_eq_some_iff.mp hw
      obtain rfl := hcurrent.resolve_left nofun
      rw [openSecret_sealed w.nonce_length]
      simp only [hideal.opens hencrypt, fromUtf8_utf8]

/-- With any other setting it does not open. -/
theorem openSecret_of_other (hideal : aead.Ideal) {w : Sealing} {stored : Bytes}
    (hw : w.envelope aead = some stored) {current : KeySetting} (hunset : w.setting ≠ .unset)
    (hother : w.setting ≠ current) :
    (current.cipher aead).openSecret stored = .error .decryptionFailed := by
  rw [Sealing.envelope] at hw
  cases hsetting : w.setting with
  | unset => exact absurd hsetting hunset
  | key key =>
      rw [hsetting] at hw hother
      obtain ⟨ciphertext, hencrypt, rfl⟩ := Option.map_eq_some_iff.mp hw
      rw [openSecret_sealed w.nonce_length]
      cases current with
      | unset => rfl
      | key key' =>
          have hne : key' ≠ key := fun hsame => hother (congrArg KeySetting.key hsame.symm)
          simp only [hideal.only hencrypt hne]

/-- A stored secret opens exactly when it is readable; then it opens to what was sealed. -/
theorem opens_iff (hideal : aead.Ideal) {current : KeySetting} {stored : Bytes}
    (hsealed : ∃ w : Sealing, w.envelope aead = some stored) :
    Opens aead current stored ↔ Readable aead current stored := by
  obtain ⟨w, hw⟩ := hsealed
  constructor
  · intro hopens
    refine ⟨w, hw, ?_⟩
    by_contra hcurrent
    obtain ⟨hunset, hother⟩ := not_or.mp hcurrent
    have hfails := openSecret_of_other hideal hw hunset hother
    rw [hopens w hw] at hfails
    cases hfails
  · intro ⟨w₀, hw₀, hcurrent⟩ w' hw'
    by_cases hcurrent' : w'.setting = .unset ∨ w'.setting = current
    · exact openSecret_of_envelope hideal hw' hcurrent'
    · obtain ⟨hunset, hother⟩ := not_or.mp hcurrent'
      have hfails := openSecret_of_other hideal hw' hunset hother
      rw [openSecret_of_envelope hideal hw₀ hcurrent] at hfails
      cases hfails

/-- The check passes exactly when the sampled secret, if there is one, is readable. -/
theorem verifyEncryptionKey_iff (hideal : aead.Ideal) {raw : Option (List Char)}
    {current : KeySetting} (hcurrent : fromEnv raw = .ok current) {row : Option ApiKey}
    (hsealed : ∀ stored ∈ row.bind ApiKey.signingSecret,
      ∃ w : Sealing, w.envelope aead = some stored) :
    verifyEncryptionKey aead raw row = .ok () ↔
      ∀ stored ∈ row.bind ApiKey.signingSecret, Readable aead current stored := by
  simp only [verifyEncryptionKey, hcurrent, checkKeyCanary]
  cases hsample : row.bind ApiKey.signingSecret with
  | none => simp
  | some stored =>
      obtain ⟨w, hw⟩ := hsealed stored hsample
      simp only [Option.mem_def, Option.some.injEq, forall_eq']
      by_cases hwritten : w.setting = .unset ∨ w.setting = current
      · rw [openSecret_of_envelope hideal hw hwritten]
        exact iff_of_true rfl ⟨w, hw, hwritten⟩
      · obtain ⟨hunset, hother⟩ := not_or.mp hwritten
        have hfails := openSecret_of_other hideal hw hunset hother
        rw [hfails]
        refine iff_of_false nofun ?_
        intro ⟨w', hw', hwritten'⟩
        rw [openSecret_of_envelope hideal hw' hwritten'] at hfails
        cases hfails

/-- The sampled secret is one of the stored ones. -/
theorem mem_storedSecrets_of_isSample {db : Database} {row : Option ApiKey}
    (hrow : IsSample db row) {stored : Bytes} (h : stored ∈ row.bind ApiKey.signingSecret) :
    stored ∈ storedSecrets db := by
  cases row with
  | none => cases h
  | some key => exact List.mem_append_left _ (List.mem_filterMap.mpr ⟨key, hrow.1, h⟩)

/-- **Exactly when a boot that passes the check can open every stored secret:** the current key is
not well formed, or the sampled secret is not readable itself, or every secret of both tables was
written without a key or under the current one. -/
theorem boot_opens_iff (hideal : aead.Ideal) {db : Database}
    (hsealed : ∀ stored ∈ storedSecrets db, ∃ w : Sealing, w.envelope aead = some stored)
    (raw : Option (List Char)) {row : Option ApiKey} (hrow : IsSample db row) :
    (verifyEncryptionKey aead raw row = .ok () → ∀ current, fromEnv raw = .ok current →
        ∀ stored ∈ storedSecrets db, Opens aead current stored) ↔
      ∀ current, fromEnv raw = .ok current →
        (∀ stored ∈ row.bind ApiKey.signingSecret, Readable aead current stored) →
          ∀ stored ∈ storedSecrets db, Readable aead current stored := by
  have hsample : ∀ stored ∈ row.bind ApiKey.signingSecret,
      ∃ w : Sealing, w.envelope aead = some stored :=
    fun stored h => hsealed stored (mem_storedSecrets_of_isSample hrow h)
  constructor
  · intro hopens current hcurrent hreadable stored hstored
    have hpasses := (verifyEncryptionKey_iff hideal hcurrent hsample).mpr hreadable
    have hopen := hopens hpasses current hcurrent stored hstored
    exact (opens_iff hideal (hsealed stored hstored)).mp hopen
  · intro hall hpasses current hcurrent stored hstored
    have hreadable := (verifyEncryptionKey_iff hideal hcurrent hsample).mp hpasses
    have hwritten := hall current hcurrent hreadable stored hstored
    exact (opens_iff hideal (hsealed stored hstored)).mpr hwritten

/-! ### A database of two periods -/

/-- A cipher that writes its key in front of the text. -/
def openAead : Aead where
  encrypt key _ plaintext := if key.length = keyLen then some (key ++ plaintext) else none
  decrypt key _ ciphertext :=
    if key.length = keyLen ∧ key.isPrefixOf ciphertext then some (ciphertext.drop keyLen) else none

theorem openAead_ideal : openAead.Ideal := by
  constructor
  · intro key nonce plaintext ciphertext hencrypt
    obtain ⟨hlength, hcipher⟩ := Option.ite_none_right_eq_some.mp hencrypt
    obtain rfl := Option.some.inj hcipher
    show (if key.length = keyLen ∧ key.isPrefixOf (key ++ plaintext) then _ else none) = _
    rw [if_pos ⟨hlength, by simp⟩, ← hlength, List.drop_left]
  · intro key key' nonce plaintext ciphertext hencrypt hne
    obtain ⟨hlength, hcipher⟩ := Option.ite_none_right_eq_some.mp hencrypt
    obtain rfl := Option.some.inj hcipher
    refine if_neg ?_
    intro ⟨hlength', hlead⟩
    have hlead := List.isPrefixOf_iff_prefix.mp hlead
    have hsame := List.prefix_of_prefix_length_le hlead (List.prefix_append key plaintext)
      (hlength'.trans hlength.symm).le
    exact hne (hsame.eq_of_length (hlength'.trans hlength.symm))

/-- The key of the later period. -/
def laterKey : Bytes := List.replicate 32 0xAB

/-- The Master's secret, from the time before a key was configured. -/
def earlySealing : Sealing := ⟨.unset, List.replicate 24 0, ['s'], rfl⟩

/-- The secret of a vault endpoint, sealed afterwards. -/
def laterSealing : Sealing := ⟨.key laterKey, List.replicate 24 0, ['v'], rfl⟩

/-- The Master's row. -/
def earlyKey : ApiKey :=
  { Master.plainKey 1 true with signingSecret := earlySealing.envelope openAead }

/-- The database with both. -/
def twoPeriods : Database where
  apiKeys := ⟨[earlyKey], List.nodup_singleton _⟩
  permissions := .empty
  vaultEndpoints :=
    ⟨[{ id := 2, name := "vault", targetUrl := "https://vault", apiKey := "k"
        signingSecret := String.ofList (((laterSealing.envelope openAead).getD []).map fun b =>
          Char.ofNat b.toNat)
        description := none, ownerKeyId := none, createdAt := 0, updatedAt := 0 }],
      List.nodup_singleton _⟩
  destinationGroups := .empty
  groupTargets := .empty
  externalSources := .empty
  vaultSyncTasks := .empty
  taskTargets := .empty
  syncLogs := []
  auditLogs := []

theorem storedSecrets_twoPeriods : storedSecrets twoPeriods =
    (earlySealing.envelope openAead).toList ++ (laterSealing.envelope openAead).toList := by
  have hvault : utf8 (((laterSealing.envelope openAead).getD []).map fun b =>
      Char.ofNat b.toNat) = (laterSealing.envelope openAead).getD [] := by decide +kernel
  have hsealed : laterSealing.envelope openAead =
      some ((laterSealing.envelope openAead).getD []) := by decide +kernel
  simp only [storedSecrets, twoPeriods, List.map_cons, List.map_nil, String.toList_ofList, hvault]
  rw [hsealed]
  rfl

theorem sealed_twoPeriods : ∀ stored ∈ storedSecrets twoPeriods,
    ∃ w : Sealing, w.envelope openAead = some stored := by
  intro stored hstored
  rw [storedSecrets_twoPeriods, List.mem_append, Option.mem_toList, Option.mem_toList] at hstored
  rcases hstored with hearly | hlater
  · exact ⟨earlySealing, hearly⟩
  · exact ⟨laterSealing, hlater⟩

theorem isSample_twoPeriods : IsSample twoPeriods (some earlyKey) :=
  ⟨List.mem_singleton_self _, rfl⟩

/-- With the later key configured the boot passes, and both secrets open. -/
theorem boot_opens_iff_two_periods :
    verifyEncryptionKey openAead (some (List.replicate 32 ['a', 'b']).flatten) (some earlyKey) =
        .ok () ∧
      ∃ current, fromEnv (some (List.replicate 32 ['a', 'b']).flatten) = .ok current ∧
        ∀ stored ∈ storedSecrets twoPeriods, Opens openAead current stored := by
  have hkey : fromEnv (some (List.replicate 32 ['a', 'b']).flatten) = .ok (.key laterKey) := by
    decide +kernel
  have hpasses : verifyEncryptionKey openAead (some (List.replicate 32 ['a', 'b']).flatten)
      (some earlyKey) = .ok () := by
    decide +kernel
  refine ⟨hpasses, .key laterKey, hkey, ?_⟩
  refine (boot_opens_iff openAead_ideal sealed_twoPeriods _ isSample_twoPeriods).mpr ?_ hpasses _ hkey
  intro current hcurrent _ stored hstored
  obtain rfl := Except.ok.inj (hkey.symm.trans hcurrent)
  rw [storedSecrets_twoPeriods, List.mem_append, Option.mem_toList, Option.mem_toList] at hstored
  rcases hstored with hearly | hlater
  · exact ⟨earlySealing, hearly, Or.inl rfl⟩
  · exact ⟨laterSealing, hlater, Or.inr rfl⟩

/-- **A boot that passes and cannot read.**  Without a key the check is content with the Master's
secret, and the secret of the vault endpoint does not open. -/
theorem boot_passes_unreadable :
    (∀ stored ∈ storedSecrets twoPeriods, ∃ w : Sealing, w.envelope openAead = some stored) ∧
      IsSample twoPeriods (some earlyKey) ∧ fromEnv none = .ok .unset ∧
      verifyEncryptionKey openAead none (some earlyKey) = .ok () ∧
      ∃ stored ∈ storedSecrets twoPeriods,
        (KeySetting.unset.cipher openAead).openSecret stored = .error .decryptionFailed := by
  have hsealed : laterSealing.envelope openAead =
      some ((laterSealing.envelope openAead).getD []) := by decide +kernel
  refine ⟨sealed_twoPeriods, isSample_twoPeriods, rfl, by decide +kernel, ?_⟩
  refine ⟨(laterSealing.envelope openAead).getD [], ?_, ?_⟩
  · rw [storedSecrets_twoPeriods, List.mem_append, Option.mem_toList, Option.mem_toList]
    exact Or.inr hsealed
  · exact openSecret_of_other openAead_ideal hsealed nofun nofun

end SimplyIpSync.Canary
