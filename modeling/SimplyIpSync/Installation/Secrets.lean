import SimplyIpSync.Installation.Tables

/-!
# The secrets at rest (`src/crypto.rs`, `src/main.rs`)

Every signing secret in the tables is an envelope that a start or a handler has sealed with the
setting of its process (`always_sealed`).  As long as all processes are started with one key, every
secret opens with it, to what was sealed, and no start is refused for its key (`secrets_open`).
-/

namespace SimplyIpSync.Installation

open SimplyIpSync.Crypto SimplyIpSync.Text SimplyIpSync.Entities SimplyIpSync.Storage
open SimplyIpSync.Api SimplyIpSync.Canary SimplyIpSync.Reach

variable {aead : Aead} {allowed : KeySetting → Prop} {l : Launch} {m : Uuid} {s : Service}
  {setting : KeySetting} {nonce : Bytes} {caller : ApiKey} {db db' : Database}

/-! ### An envelope is ASCII -/

theorem hexEncode_ascii (bytes : Bytes) : ∀ b ∈ hexEncode bytes, b < 128 := by
  have hdigit : ∀ n : Fin 256, hexDigit (UInt8.ofFin n / 16) < 128 ∧
      hexDigit (UInt8.ofFin n % 16) < 128 := by decide +kernel
  intro b hb
  obtain ⟨byte, -, hmem⟩ := List.mem_flatMap.mp hb
  obtain ⟨hhigh, hlow⟩ := hdigit byte.toFin
  simp only [List.mem_cons, List.not_mem_nil, or_false] at hmem
  rcases hmem with rfl | rfl
  · exact hhigh
  · exact hlow

theorem sealSecret_ascii {plaintext : List Char} {stored : Bytes}
    (h : setting.sealSecret aead nonce plaintext = some stored) : ∀ b ∈ stored, b < 128 := by
  have happend : ∀ {a b : Bytes}, (∀ x ∈ a, x < 128) → (∀ x ∈ b, x < 128) →
      ∀ x ∈ a ++ b, x < 128 := fun ha hb x hx => (List.mem_append.mp hx).elim (ha x) (hb x)
  cases setting with
  | unset =>
      obtain rfl := Option.some.inj h
      exact happend (by decide +kernel) (hexEncode_ascii _)
  | key key =>
      obtain ⟨ciphertext, -, rfl⟩ := Option.map_eq_some_iff.mp h
      refine happend (by decide +kernel) (happend (hexEncode_ascii _) ?_)
      exact List.forall_mem_cons.mpr ⟨by decide, hexEncode_ascii _⟩

theorem ascii_ofAscii (bytes : Bytes) : ascii (String.ofList (ofAscii bytes)) = bytes := by
  rw [ascii, String.toList_ofList, ofAscii, List.map_map]
  refine (List.map_congr_left fun b _ => ?_).trans (List.map_id bytes)
  rw [Function.comp_apply, toNat_ofNat_toNat, UInt8.ofNat_toNat, id]

/-! ### What is stored -/

/-- The bytes are an envelope of an admitted setting. -/
def Sealed (aead : Aead) (allowed : KeySetting → Prop) (stored : Bytes) : Prop :=
  ∃ w : Sealing, w.envelope aead = some stored ∧ allowed w.setting

/-- Every signing secret is sealed. -/
structure AllSealed (aead : Aead) (allowed : KeySetting → Prop) (db : Database) : Prop where
  keys : ∀ key ∈ db.apiKeys.rows, ∀ stored ∈ key.signingSecret, Sealed aead allowed stored
  vaults : ∀ endpoint ∈ db.vaultEndpoints.rows,
    Sealed aead allowed (utf8 endpoint.signingSecret.toList)

/-- **What is sealed is stored as it is**, in either table. -/
theorem sealed_of_sealText {plaintext envelope : String} (hallowed : allowed setting)
    (hnonce : nonce.length = nonceLen) (h : sealText aead setting nonce plaintext = some envelope) :
    Sealed aead allowed (ascii envelope) ∧ Sealed aead allowed (utf8 envelope.toList) := by
  obtain ⟨stored, hstored, rfl⟩ := Option.map_eq_some_iff.mp h
  have hsealed : Sealed aead allowed stored :=
    ⟨⟨setting, nonce, plaintext.toList, hnonce⟩, hstored, hallowed⟩
  constructor
  · rwa [ascii_ofAscii]
  · rwa [String.toList_ofList, utf8_ofAscii (sealSecret_ascii hstored)]

theorem sealText_of_sealed {env : Env} {plaintext envelope : String}
    (h : (sealingEnv aead env setting nonce).sealed plaintext = .ok envelope) :
    sealText aead setting nonce plaintext = some envelope := by
  simp only [Env.sealed, sealingEnv] at h
  cases hseal : sealText aead setting nonce plaintext with
  | none => simp [hseal] at h
  | some text =>
      simp only [hseal, Option.elim_some, Except.ok.injEq] at h
      rw [h]

theorem AllSealed.insertApiKey {row : ApiKey} (h : AllSealed aead allowed db)
    (hinsert : db.insertApiKey row = .ok db')
    (hrow : ∀ stored ∈ row.signingSecret, Sealed aead allowed stored) :
    AllSealed aead allowed db' := by
  obtain ⟨rows, hrows, rfl⟩ := insertApiKey_ok hinsert
  exact { h with keys := Table.forall_insertRow h.keys hrows hrow }

theorem AllSealed.updateApiKey {id : Uuid} {f : ApiKey → ApiKey} {hf : ∀ r, (f r).id = r.id}
    {row : ApiKey} (h : AllSealed aead allowed db)
    (hupdate : db.updateApiKey id f hf = .ok (row, db'))
    (hrow : ∀ r, (∀ stored ∈ r.signingSecret, Sealed aead allowed stored) →
      ∀ stored ∈ (f r).signingSecret, Sealed aead allowed stored) :
    AllSealed aead allowed db' := by
  obtain ⟨_, -, -, rfl⟩ := updateApiKey_ok hupdate
  exact { h with keys := Table.forall_modifyRow hf h.keys hrow }

/-- **A write stores sealed secrets only.** -/
theorem AllSealed.write {env : Env} (h : AllSealed aead allowed db) (hallowed : allowed setting)
    (hnonce : nonce.length = nonceLen)
    (hwrite : Write m (sealingEnv aead env setting nonce) caller db db') :
    AllSealed aead allowed db' := by
  have hseals : ∀ {plaintext envelope},
      (sealingEnv aead env setting nonce).sealed plaintext = .ok envelope →
        Sealed aead allowed (ascii envelope) ∧ Sealed aead allowed (utf8 envelope.toList) :=
    fun hsealed => sealed_of_sealText hallowed hnonce (sealText_of_sealed hsealed)
  cases hwrite with
  | createKey hsealed hinsert =>
      refine h.insertApiKey hinsert ?_
      rintro _ ⟨⟩
      exact (hseals hsealed).1
  | updateKey _ hupdate => exact h.updateApiKey hupdate fun _ hr => hr
  | rotateKey _ hupdate => exact h.updateApiKey hupdate fun _ hr => hr
  | rotateSecret _ hsealed hupdate =>
      refine h.updateApiKey hupdate ?_
      rintro _ - _ ⟨⟩
      exact (hseals hsealed).1
  | deleteKeys _ =>
      exact { h with keys := fun key hkey => h.keys key (Table.mem_deleteWhere.mp hkey).1 }
  | createVault hsealed hinsert =>
      obtain ⟨rows, hrows, hdb⟩ := insertVaultEndpoint_ok hinsert
      rw [hdb]
      exact { h with vaults := Table.forall_insertRow h.vaults hrows (hseals hsealed).2 }
  | @updateVault id envelope row rows payload hsealed hupdate =>
      obtain ⟨_, -, -, hdb⟩ := updateVaultEndpoint_ok hupdate
      rw [hdb]
      refine { h with vaults := ?_ }
      refine Table.forall_modifyRow (f := payload.applyTo envelope _) (fun _ => rfl) h.vaults ?_
      intro r hr
      cases hsecret : payload.signingSecret with
      | none =>
          obtain rfl : none = envelope := by simpa [Env.sealedField, hsecret] using hsealed
          exact hr
      | some secret =>
          rw [hsecret, Env.sealedField] at hsealed
          split at hsealed
          · cases hsealed
          · rename_i text htext
            obtain rfl := Except.ok.inj hsealed
            exact (hseals htext).2
  | deleteVault id =>
      exact { h with vaults := fun r hr => h.vaults r (Table.mem_deleteWhere.mp hr).1 }
  | _ => exact { h with }

/-- **Every stored secret is sealed**, with the setting of some process. -/
theorem always_sealed (hrun : Reaches (Service.step aead) (Admits allowed) .empty s) :
    AllSealed aead allowed s.db := by
  refine (db_invariant (P := AllSealed aead allowed) ?_ ?_ ?_ ?_ hrun).1
  · exact ⟨List.forall_mem_nil _, List.forall_mem_nil _⟩
  · intro l db db' hallowed _ h hboot
    cases hboot with
    | unchanged => exact h
    | created hsetting hsealed hinsert =>
        refine h.insertApiKey hinsert ?_
        rintro _ ⟨⟩
        exact (sealed_of_sealText (hallowed _ hsetting) l.nonce_length hsealed).1
  · intro m setting env nonce caller db db' _ hallowed hnonce h hwrite
    exact h.write hallowed hnonce hwrite
  · intro db syncLogs auditLogs _ h
    exact { h with }

theorem AllSealed.storedSecrets (h : AllSealed aead allowed db) :
    ∀ stored ∈ storedSecrets db, Sealed aead allowed stored := by
  intro stored hstored
  rcases List.mem_append.mp hstored with hkey | hvault
  · obtain ⟨key, hmem, hsecret⟩ := List.mem_filterMap.mp hkey
    exact h.keys key hmem stored hsecret
  · obtain ⟨endpoint, hmem, rfl⟩ := List.mem_map.mp hvault
    exact h.vaults endpoint hmem

/-- **One key is enough.**  While every process that gets as far as its cipher has the same setting,
every stored secret was sealed with it and opens to what was sealed, at any time; and whichever row
the check of a start picks, the start passes it. -/
theorem secrets_open (hideal : aead.Ideal)
    (hrun : Reaches (Service.step aead) (Admits (· = setting)) .empty s) :
    (∀ stored ∈ storedSecrets s.db, ∃ w : Sealing, w.setting = setting ∧
        w.envelope aead = some stored ∧
        (setting.cipher aead).openSecret stored = .ok (utf8 w.secret)) ∧
      ∀ raw row, fromEnv raw = .ok setting → IsSample s.db row →
        Canary.verifyEncryptionKey aead raw row = .ok () := by
  have hsealed := (always_sealed hrun).storedSecrets
  constructor
  · intro stored hstored
    obtain ⟨w, hw, hsetting⟩ := hsealed stored hstored
    exact ⟨w, hsetting, hw, openSecret_of_envelope hideal hw (Or.inr hsetting)⟩
  · intro raw row hraw hrow
    have hsample : ∀ stored ∈ row.bind ApiKey.signingSecret, Sealed aead (· = setting) stored :=
      fun stored h => hsealed stored (mem_storedSecrets_of_isSample hrow h)
    refine (verifyEncryptionKey_iff hideal hraw fun stored h => ?_).mpr fun stored h => ?_
    · obtain ⟨w, hw, -⟩ := hsample stored h
      exact ⟨w, hw⟩
    · obtain ⟨w, hw, hsetting⟩ := hsample stored h
      exact ⟨w, hw, Or.inr hsetting⟩

instance [DecidablePred allowed] (s : Service) :
    (event : Service.Event) → Decidable (Admits allowed s event)
  | .launch l =>
      match hraw : fromEnv l.encryptionKey with
      | .ok setting => decidable_of_iff (allowed setting) (by simp [Admits, hraw])
      | .error e => isTrue fun setting h => by simp [hraw] at h
  | .proceed _ => isTrue trivial
  | .listen _ => isTrue trivial
  | .giveUp _ => isTrue trivial
  | .stop _ => isTrue trivial
  | .arrive _ _ _ => isTrue trivial
  | .advance _ => isTrue trivial
  | .abort _ => isTrue trivial
  | .chore _ _ => isTrue trivial

/-- Two processes with one key: the second is started when the first has stored two secrets. -/
theorem secrets_open_after_restart :
    ∃ s, Reaches (Service.step openAead) (Admits (· = .key (List.replicate 32 0xaa))) .empty s ∧
      (storedSecrets s.db).length = 2 ∧ s.serving.length = 2 ∧
      ∀ stored ∈ storedSecrets s.db, ∃ secret,
        ((KeySetting.key (List.replicate 32 0xaa)).cipher openAead).openSecret stored =
          .ok secret := by
  have hrun : (runEvents (Service.step openAead) (Admits (· = .key (List.replicate 32 0xaa))) .empty
      (.launch { Launch.plain 1 with encryptionKey := some (List.replicate 64 'a') } ::
        List.replicate 6 (.proceed 0) ++ [.listen 0] ++
        asking 0 3 (.createVaultEndpoint ⟨"vault", "https://vault", "key", "secret", none⟩) ++
        .launch { Launch.plain 2 with encryptionKey := some (List.replicate 64 'A') } ::
        List.replicate 6 (.proceed 0) ++ [.listen 0])).map (fun s =>
          ((storedSecrets s.db).length, s.serving.length)) = some (2, 2) := by
    decide +kernel
  obtain ⟨s, hs, hfacts⟩ := Option.map_eq_some_iff.mp hrun
  obtain ⟨hsecrets, hserving⟩ := Prod.mk.inj hfacts
  have hreaches := reaches_of_runEvents hs
  refine ⟨s, hreaches, hsecrets, hserving, ?_⟩
  intro stored hstored
  obtain ⟨w, -, -, hopen⟩ := (secrets_open openAead_ideal hreaches).1 stored hstored
  exact ⟨_, hopen⟩

end SimplyIpSync.Installation
