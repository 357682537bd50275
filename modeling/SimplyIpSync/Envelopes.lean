import SimplyIpSync.Canary

/-!
# Sealing and opening (`SecretCipher::seal` and `open` in `src/crypto.rs`)

`openSecret_eq_ok` lists the strings that open, and to what: hexadecimal text behind the plain
prefix, or a nonce and an authentic ciphertext behind the sealed one.  What `seal` writes is one of
the two, and it opens with the setting it was written under.
-/

namespace SimplyIpSync.Envelopes

open SimplyIpSync.Crypto SimplyIpSync.Text SimplyIpSync.Canary

/-! ### The strings that open -/

/-- The bytes of a text. -/
def IsText (bytes : Bytes) : Prop := ∃ text : List Char, bytes = utf8 text

/-- The plain prefix, followed by the hexadecimal digits of the text `secret`. -/
def PlainShape (stored secret : Bytes) : Prop :=
  ∃ encoded, stored = plaintextPrefix ++ encoded ∧ hexDecode encoded = some secret ∧ IsText secret

/-- The sealed prefix, followed by the hexadecimal digits of a nonce, a dot and those of a
ciphertext that authenticates under the key and holds the text `secret`. -/
def SealedShape (cipher : SecretCipher) (stored secret : Bytes) : Prop :=
  ∃ nonceHex ciphertextHex nonce ciphertext decrypt,
    stored = sealedPrefix ++ (nonceHex ++ 46 :: ciphertextHex) ∧
      hexDecode nonceHex = some nonce ∧ nonce.length = nonceLen ∧
      hexDecode ciphertextHex = some ciphertext ∧ cipher = .sealing decrypt ∧
      decrypt nonce ciphertext = some secret ∧ IsText secret

theorem stripLead_eq_some {lead text rest : Bytes} :
    stripLead lead text = some rest ↔ text = lead ++ rest := by
  constructor
  · intro h
    rw [stripLead] at h
    split at h
    · rename_i hlead
      obtain ⟨back, rfl⟩ := List.isPrefixOf_iff_prefix.mp hlead
      rw [List.drop_left] at h
      rw [Option.some.inj h]
    · cases h
  · rintro rfl
    exact stripLead_append lead rest

theorem append_of_splitOnce {text front back : Bytes} (h : splitOnce text = some (front, back)) :
    text = front ++ 46 :: back := by
  induction text generalizing front with
  | nil => cases h
  | cons b text ih =>
      rw [splitOnce] at h
      split at h
      · rename_i hdot
        obtain ⟨rfl, rfl⟩ := Prod.mk.inj (Option.some.inj h)
        rw [hdot]
        rfl
      · obtain ⟨⟨front', back'⟩, hsplit, hpair⟩ := Option.map_eq_some_iff.mp h
        obtain ⟨rfl, rfl⟩ := Prod.mk.inj hpair
        rw [ih hsplit]
        rfl

/-- A dot is not a digit. -/
theorem dot_notMem_of_hexDecode {text bytes : Bytes} (h : hexDecode text = some bytes) :
    (46 : UInt8) ∉ text := by
  induction text using hexDecode.induct generalizing bytes with
  | case1 => exact List.not_mem_nil
  | case2 b => cases h
  | case3 hi lo rest high low decoded hrest hlow hhigh ih =>
      have hdot : hexValue 46 = none := rfl
      intro hmem
      simp only [List.mem_cons] at hmem
      rcases hmem with rfl | rfl | hmem
      · rw [hdot] at hhigh
        cases hhigh
      · rw [hdot] at hlow
        cases hlow
      · exact ih hrest hmem
  | case4 hi lo rest hnone _ =>
      rw [hexDecode] at h
      split at h
      · rename_i hhigh hlow hrest
        exact (hnone _ _ _ hhigh hlow hrest).elim
      · cases h

theorem decodeField_eq_ok {text bytes : Bytes} :
    decodeField text = .ok bytes ↔ hexDecode text = some bytes := by
  rw [decodeField]
  cases hexDecode text with
  | none => simp
  | some decoded => simp

theorem fromUtf8_eq_ok {bytes secret : Bytes} :
    fromUtf8 bytes = .ok secret ↔ bytes = secret ∧ IsText secret := by
  constructor
  · intro h
    rw [fromUtf8] at h
    split at h
    · rename_i hvalid
      obtain rfl := Except.ok.inj h
      obtain ⟨text, htext⟩ := ByteArray.validateUTF8_eq_true_iff.mp hvalid
      refine ⟨rfl, text, ?_⟩
      have hdata := congrArg (fun b => b.data.toList) (htext.trans (byteArray_utf8 text).symm)
      exact hdata
    · cases h
  · rintro ⟨rfl, text, rfl⟩
    exact fromUtf8_utf8 text

theorem openSealed_eq_ok {cipher : SecretCipher} {body secret : Bytes} :
    openSealed cipher body = .ok secret ↔ SealedShape cipher (sealedPrefix ++ body) secret := by
  constructor
  · intro h
    rw [openSealed] at h
    split at h
    · cases h
    rename_i nonceHex ciphertextHex hsplit
    split at h
    · cases h
    rename_i nonce hnonce
    split at h
    · cases h
    rename_i hlength
    split at h
    · cases h
    rename_i ciphertext hciphertext
    split at h
    · cases h
    rename_i decrypt
    split at h
    · cases h
    rename_i opened hopened
    obtain ⟨rfl, htext⟩ := fromUtf8_eq_ok.mp h
    refine ⟨nonceHex, ciphertextHex, nonce, ciphertext, decrypt, ?_, ?_, ?_, ?_, rfl, hopened,
      htext⟩
    · rw [append_of_splitOnce hsplit]
    · exact decodeField_eq_ok.mp hnonce
    · exact not_ne_iff.mp hlength
    · exact decodeField_eq_ok.mp hciphertext
  · rintro ⟨nonceHex, ciphertextHex, nonce, ciphertext, decrypt, hbody, hnonce, hlength,
      hciphertext, rfl, hopened, htext⟩
    obtain rfl := List.append_cancel_left hbody
    simp only [openSealed, splitOnce_append (dot_notMem_of_hexDecode hnonce),
      decodeField_eq_ok.mpr hnonce, hlength, ne_eq, not_true_eq_false, if_false,
      decodeField_eq_ok.mpr hciphertext, hopened]
    exact fromUtf8_eq_ok.mpr ⟨rfl, htext⟩

/-- **The strings that open.** -/
theorem openSecret_eq_ok {cipher : SecretCipher} {stored secret : Bytes} :
    cipher.openSecret stored = .ok secret ↔
      PlainShape stored secret ∨ SealedShape cipher stored secret := by
  rw [SecretCipher.openSecret]
  cases hplain : stripLead plaintextPrefix stored with
  | some encoded =>
      obtain rfl := stripLead_eq_some.mp hplain
      have hsealed : ¬SealedShape cipher (plaintextPrefix ++ encoded) secret := by
        rintro ⟨nonceHex, ciphertextHex, _, _, _, hstored, -⟩
        have hnone := stripLead_plaintext_sealed (nonceHex ++ 46 :: ciphertextHex)
        rw [← hstored, hplain] at hnone
        cases hnone
      rw [or_iff_left hsealed]
      constructor
      · intro h
        dsimp only at h
        split at h
        · cases h
        · rename_i decoded hdecoded
          obtain ⟨rfl, htext⟩ := fromUtf8_eq_ok.mp h
          exact ⟨encoded, rfl, decodeField_eq_ok.mp hdecoded, htext⟩
      · rintro ⟨encoded', hstored, hdecoded, htext⟩
        obtain rfl := List.append_cancel_left hstored
        simp only [decodeField_eq_ok.mpr hdecoded]
        exact fromUtf8_eq_ok.mpr ⟨rfl, htext⟩
  | none =>
      have hnot : ¬PlainShape stored secret := by
        rintro ⟨encoded, hstored, -⟩
        rw [stripLead_eq_some.mpr hstored] at hplain
        cases hplain
      rw [or_iff_right hnot]
      cases hsealed : stripLead sealedPrefix stored with
      | some body =>
          obtain rfl := stripLead_eq_some.mp hsealed
          exact openSealed_eq_ok
      | none =>
          refine iff_of_false (fun h => by cases h) ?_
          rintro ⟨nonceHex, ciphertextHex, _, _, _, hstored, -⟩
          rw [stripLead_eq_some.mpr hstored] at hsealed
          cases hsealed

/-! ### Sealing, then opening -/

section Sealing

variable {aead : Aead}

/-- `seal` fails only where encryption does. -/
theorem isSome_sealSecret (setting : KeySetting) (nonce : Bytes) (plaintext : List Char) :
    (setting.sealSecret aead nonce plaintext).isSome ↔
      ∀ key, setting = .key key → (aead.encrypt key nonce (utf8 plaintext)).isSome := by
  cases setting with
  | unset => exact iff_of_true rfl (fun key hkey => by cases hkey)
  | key bytes =>
      rw [KeySetting.sealSecret, Option.isSome_map]
      constructor
      · rintro hencrypt key hkey
        obtain rfl := KeySetting.key.inj hkey
        exact hencrypt
      · exact fun h => h bytes rfl

/-- **Sealing and opening.**  What is sealed opens to itself with the same setting; what is sealed
under a key opens with no other setting; and what opens at all has one of the two shapes. -/
theorem open_seal (hideal : aead.Ideal) :
    (∀ (setting : KeySetting) (nonce : Bytes) (plaintext : List Char), nonce.length = nonceLen →
      ((setting.sealSecret aead nonce plaintext).isSome ↔
        ∀ key, setting = .key key → (aead.encrypt key nonce (utf8 plaintext)).isSome) ∧
      ∀ stored, setting.sealSecret aead nonce plaintext = some stored →
        (setting.cipher aead).openSecret stored = .ok (utf8 plaintext)) ∧
      (∀ (key nonce : Bytes) (plaintext : List Char) (stored : Bytes), nonce.length = nonceLen →
        (KeySetting.key key).sealSecret aead nonce plaintext = some stored →
          ∀ current : KeySetting, current ≠ .key key →
            (current.cipher aead).openSecret stored = .error .decryptionFailed) ∧
      ∀ (cipher : SecretCipher) (stored : Bytes),
        (∀ secret, cipher.openSecret stored = .ok secret ↔
          PlainShape stored secret ∨ SealedShape cipher stored secret) ∧
        ((∀ secret, ¬PlainShape stored secret ∧ ¬SealedShape cipher stored secret) →
          ∃ e, cipher.openSecret stored = .error e) := by
  refine ⟨?_, ?_, ?_⟩
  · intro setting nonce plaintext hnonce
    refine ⟨isSome_sealSecret setting nonce plaintext, ?_⟩
    intro stored hstored
    let w : Sealing := ⟨setting, nonce, plaintext, hnonce⟩
    exact openSecret_of_envelope (w := w) hideal hstored (Or.inr rfl)
  · intro key nonce plaintext stored hnonce hstored current hcurrent
    let w : Sealing := ⟨.key key, nonce, plaintext, hnonce⟩
    exact openSecret_of_other (w := w) hideal hstored (fun h => by cases h) hcurrent.symm
  · intro cipher stored
    refine ⟨fun secret => openSecret_eq_ok, ?_⟩
    intro hneither
    cases hopen : cipher.openSecret stored with
    | error e => exact ⟨e, rfl⟩
    | ok secret =>
        obtain ⟨hplain, hsealed⟩ := hneither secret
        exact (openSecret_eq_ok.mp hopen).elim (absurd · hplain) (absurd · hsealed)

/-- The envelope of `laterSealing`, with its key and without one. -/
theorem open_seal_later :
    (laterSealing.envelope openAead).map
        ((laterSealing.setting.cipher openAead).openSecret) = some (.ok (utf8 ['v'])) ∧
      (laterSealing.envelope openAead).map ((KeySetting.unset.cipher openAead).openSecret) =
        some (.error .decryptionFailed) := by
  obtain ⟨hopens, hcloses, -⟩ := open_seal openAead_ideal
  have hstored : laterSealing.envelope openAead =
      some ((laterSealing.envelope openAead).getD []) := by decide +kernel
  rw [hstored, Option.map_some, Option.map_some]
  refine ⟨congrArg some ?_, congrArg some ?_⟩
  · exact (hopens laterSealing.setting laterSealing.nonce ['v'] rfl).2 _ hstored
  · exact hcloses laterKey laterSealing.nonce ['v'] _ rfl hstored .unset (fun h => by cases h)

end Sealing

end SimplyIpSync.Envelopes
