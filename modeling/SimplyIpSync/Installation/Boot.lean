import SimplyIpSync.Api.Writes
import SimplyIpSync.Canary
import SimplyIpSync.Retention

/-!
# Starting a process (`run` in `src/main.rs`)

From the migrated database on: a Master is created where there is none, one stored secret is opened,
the state is built, the Master is pinned and the active jobs are loaded.  Each of these is a few
statements, so that other processes may start or serve in between.

What a process draws, reads from its environment or gets back from a library is a field of `Launch`.
-/

namespace SimplyIpSync.Installation

open SimplyIpSync.Crypto SimplyIpSync.Text SimplyIpSync.Entities SimplyIpSync.Storage
open SimplyIpSync.Program SimplyIpSync.Program.Prog SimplyIpSync.Api SimplyIpSync.Canary
open SimplyIpSync.Master SimplyIpSync.Retention

/-! ### The credentials of the first Master (`src/config.rs`) -/

/-- `MASTER_KEY_HEX_LEN`. -/
def masterKeyHexLen : ℕ := 64

/-- `char::is_ascii_hexdigit`. -/
def isAsciiHexdigit (c : Char) : Bool :=
  c.isDigit || (decide ('a' ≤ c) && decide (c ≤ 'f')) || (decide ('A' ≤ c) && decide (c ≤ 'F'))

/-- `InvalidInitialMasterKey` and `InvalidInitialMasterSigningSecret`. -/
structure InvalidHexKey where
  got : ℕ
  detail : String
  deriving DecidableEq, Repr

/-- What both validations check. -/
def checkHexKey (raw : String) : Except InvalidHexKey Unit :=
  let isHex := raw.toList.all isAsciiHexdigit
  if (utf8 raw.toList).length = masterKeyHexLen ∧ isHex then .ok ()
  else
    .error
      { got := raw.toList.length
        detail := if isHex then "" else ", and it contains non-hexadecimal characters" }

/-- `validate_initial_master_key`. -/
def validateInitialMasterKey (raw : String) : Except InvalidHexKey Unit := checkHexKey raw

/-- `validate_initial_master_signing_secret`. -/
def validateInitialMasterSigningSecret (raw : String) : Except InvalidHexKey Unit :=
  checkHexKey raw

/-! ### A start -/

/-- What `run` ends with when it fails. -/
inductive BootFailure
  | invalidInitialMasterKey (e : InvalidHexKey)
  | invalidInitialMasterSigningSecret (e : InvalidHexKey)
  | encryptionKey (e : Canary.BootError)
  | encryptionFailed
  | startupConfig
  | masterPin (e : MasterPinError)
  | dbErr
  deriving DecidableEq, Repr

/-- What a process is started with.  `sample` is the row the query of the encryption check returns,
`hasIndex` what the catalog says about the uniqueness index, and `setupState` the outcome of what
`setup_state` does beside reading the encryption key. -/
structure Launch where
  encryptionKey : Option (List Char)
  syncLogRetention : Option (List Char)
  auditLogRetention : Option (List Char)
  initialMasterKey : Option String
  initialMasterSigningSecret : Option String
  env : Env
  nonce : Bytes
  nonce_length : nonce.length = nonceLen
  sample : Database → Option ApiKey
  sample_isSample : ∀ db, IsSample db (sample db)
  setupState : Except BootFailure Unit
  hasIndex : Bool

/-- What a process that serves has read: the setting of its cipher, the pinned Master, and the
windows of its retention worker. -/
structure Serving where
  setting : KeySetting
  pinned : Uuid
  syncLogDays : ℤ
  auditLogDays : ℤ
  deriving DecidableEq, Repr

/-- A credential from the environment when there is one, otherwise the generated one. -/
def supplied (raw : Option String) (validate : String → Except InvalidHexKey Unit)
    (generated : String) : Except InvalidHexKey String :=
  match raw.filter fun raw => raw ≠ "" with
  | none => .ok generated
  | some raw =>
      match validate raw with
      | .error e => .error e
      | .ok () => .ok raw

/-- `SecretCipher::seal` as text, with this random nonce; `none` where it fails. -/
def sealText (aead : Aead) (setting : KeySetting) (nonce : Bytes) (plaintext : String) :
    Option String :=
  (setting.sealSecret aead nonce plaintext.toList).map fun bytes => String.ofList (ofAscii bytes)

/-- `SecretCipher::from_env`. -/
def Launch.cipher (l : Launch) : Except BootFailure KeySetting :=
  match fromEnv l.encryptionKey with
  | .error e => .error (.encryptionKey e)
  | .ok setting => .ok setting

/-- A start, as the statements it issues. -/
abbrev Startup := Prog Database Sql BootFailure

variable (aead : Aead)

/-- `bootstrap_master_key`. -/
def bootstrapMasterKey (l : Launch) : Startup Unit := do
  let existing ← .query (.select .apiKeys) fun db =>
    (db.apiKeys.rows.filter fun key => key.isMaster).length
  if 0 < existing then pure ()
  else do
    let plaintextKey ← .lift
      ((supplied l.initialMasterKey validateInitialMasterKey l.env.generateRandomKey).mapError
        .invalidInitialMasterKey)
    let setting ← .lift l.cipher
    let signingSecret ← .lift
      ((supplied l.initialMasterSigningSecret validateInitialMasterSigningSecret
        l.env.generateSigningSecret).mapError .invalidInitialMasterSigningSecret)
    let envelope ← .lift
      ((sealText aead setting l.nonce signingSecret).elim (.error .encryptionFailed) .ok)
    .perform (.insert .apiKeys) fun db =>
      match db.insertApiKey (l.env.masterKey plaintextKey envelope) with
      | .error _ => .error .dbErr
      | .ok db => .ok ((), db)

/-- `verify_encryption_key`. -/
def checkStoredSecret (l : Launch) : Startup Unit := do
  let _ ← .lift l.cipher
  let sample ← .query (.select .apiKeys) l.sample
  .lift ((Canary.verifyEncryptionKey aead l.encryptionKey sample).mapError .encryptionKey)

/-- `pin_at_boot`, on the fresh pin of the process. -/
def pinMaster (l : Launch) : Startup Uuid := do
  let pinned ← .query (.select .apiKeys) fun db =>
    (MasterPin.new.pinAtBoot db.apiKeys l.hasIndex).1
  .lift (pinned.mapError .masterPin)

/-- `SchedulerHandle::boot`: the rows it registers. -/
def loadActive : Startup Unit := do
  let _ ← .query (.select .destinationGroups) fun db =>
    db.destinationGroups.rows.filter fun group => group.isActive
  let _ ← .query (.select .vaultSyncTasks) fun db =>
    db.vaultSyncTasks.rows.filter fun task => task.isActive
  pure ()

/-- `run`, from the migrated database to the moment the process listens. -/
def boot (l : Launch) : Startup Serving := do
  bootstrapMasterKey aead l
  checkStoredSecret aead l
  let setting ← .lift l.cipher
  .lift l.setupState
  let pinned ← pinMaster l
  loadActive
  pure
    { setting := setting
      pinned := pinned
      syncLogDays := retentionDaysFromEnv l.syncLogRetention defaultSyncLogRetentionDays
      auditLogDays := retentionDaysFromEnv l.auditLogRetention defaultAuditLogRetentionDays }

/-! ### What a start does to the tables -/

/-- Nobody has a key yet, so that nothing else exists either. -/
structure Blank (db : Database) : Prop where
  apiKeys : db.apiKeys.rows = []
  vaultEndpoints : db.vaultEndpoints.rows = []
  permissions : db.permissions.rows = []
  destinationGroups : db.destinationGroups.rows = []
  groupTargets : db.groupTargets.rows = []
  externalSources : db.externalSources.rows = []
  vaultSyncTasks : db.vaultSyncTasks.rows = []
  taskTargets : db.taskTargets.rows = []
  auditLogs : db.auditLogs = []

/-- The database has no key, or its Master is `m`. -/
def Ruled (m : Uuid) (db : Database) : Prop := Blank db ∨ db.MasterIs m

/-- The start leaves the tables as they are, or creates the Master with the secret sealed under its
setting. -/
inductive Bootstraps (l : Launch) (db : Database) : Database → Prop
  | unchanged : Bootstraps l db db
  | created {plaintextKey signingSecret envelope : String} {setting : KeySetting} {rows}
      (hsetting : fromEnv l.encryptionKey = .ok setting)
      (hsealed : sealText aead setting l.nonce signingSecret = some envelope)
      (h : db.insertApiKey (l.env.masterKey plaintextKey envelope) =
        .ok { db with apiKeys := rows }) :
      Bootstraps l db { db with apiKeys := rows }

variable {aead} {l : Launch} {m : Uuid} {db db' : Database}

theorem bootstraps_refl (db : Database) : Bootstraps aead l db db := .unchanged

theorem cipher_eq_ok {setting : KeySetting} :
    l.cipher = .ok setting ↔ fromEnv l.encryptionKey = .ok setting := by
  rw [Launch.cipher]
  cases fromEnv l.encryptionKey with
  | error e => simp
  | ok setting => simp

/-- What the database knows of a start that serves: its setting, and its Master. -/
def Knows (l : Launch) (m : Uuid) (serving : Serving) : Prop :=
  fromEnv l.encryptionKey = .ok serving.setting ∧ serving.pinned = m

theorem bootstraps_bootstrapMasterKey :
    Assures (Ruled m) (Bootstraps aead l) (fun _ => True) (bootstrapMasterKey aead l) := by
  refine Assures.bind (V := fun _ => True) (assures_query bootstraps_refl fun _ _ => trivial)
    fun existing _ => ?_
  split
  · exact assures_pure trivial
  · refine Assures.bind (V := fun _ => True) (assures_lift fun _ _ => trivial)
      fun plaintextKey _ => ?_
    refine (assures_lift fun _ h => cipher_eq_ok.mp h).bind fun setting hsetting => ?_
    refine Assures.bind (V := fun _ => True) (assures_lift fun _ _ => trivial)
      fun signingSecret _ => ?_
    refine Assures.bind
      (V := fun envelope => sealText aead setting l.nonce signingSecret = some envelope)
      (assures_lift ?_) fun envelope hsealed => ?_
    · intro envelope h
      cases hseal : sealText aead setting l.nonce signingSecret with
      | none => simp [hseal] at h
      | some sealed =>
          rw [hseal] at h
          rw [Except.ok.inj h]
    · refine assures_perform ?_
      intro db _ db' _ hperform
      cases hinsert : db.insertApiKey (l.env.masterKey plaintextKey envelope) with
      | error e => simp [hinsert] at hperform
      | ok db₁ =>
          simp only [hinsert, Except.ok.injEq, Prod.mk.injEq, true_and] at hperform
          subst hperform
          obtain ⟨rows, -, rfl⟩ := insertApiKey_ok hinsert
          exact ⟨.created hsetting hsealed hinsert, trivial⟩

theorem bootstraps_checkStoredSecret :
    Assures (Ruled m) (Bootstraps aead l) (fun _ => True) (checkStoredSecret aead l) := by
  refine Assures.bind (V := fun _ => True) (assures_lift fun _ _ => trivial) fun _ _ => ?_
  refine Assures.bind (V := fun _ => True) (assures_query bootstraps_refl fun _ _ => trivial)
    fun _ _ => ?_
  exact assures_lift fun _ _ => trivial

/-- The query for the Masters finds the one there is. -/
theorem soleMaster_of_masterIs (h : db.MasterIs m) : soleMaster db.apiKeys = .ok m := by
  obtain ⟨key, hkey, hid⟩ := h.present
  have hfilter : (db.apiKeys.rows.filter fun k => k.isMaster) = [key] := by
    have hnodup : db.apiKeys.rows.Nodup := List.Nodup.of_map _ db.apiKeys.nodup
    refine List.perm_singleton.mp ?_
    refine (List.perm_ext_iff_of_nodup (hnodup.filter _) (List.nodup_singleton _)).mpr ?_
    intro k
    rw [List.mem_filter, List.mem_singleton]
    constructor
    · rintro ⟨hk, hmaster⟩
      exact List.inj_on_of_nodup_map db.apiKeys.nodup hk hkey
        (((h.only k hk).mp hmaster).trans hid.symm)
    · rintro rfl
      exact ⟨hkey, (h.only k hkey).mpr hid⟩
  simp [soleMaster, masters, hfilter, hid]

theorem soleMaster_of_blank (h : Blank db) : soleMaster db.apiKeys = .error .noMaster := by
  simp [soleMaster, masters, h.apiKeys]

/-- **A start that gets past its pin has pinned the Master.** -/
theorem bootstraps_pinMaster :
    Assures (Ruled m) (Bootstraps aead l) (fun pinned => pinned = m) (pinMaster l) := by
  refine Assures.bind (V := fun out : Except MasterPinError Uuid => ∀ pinned, out = .ok pinned →
    pinned = m) (assures_query bootstraps_refl ?_) fun out hout => assures_lift ?_
  · intro db hdb pinned hpinned
    rcases hdb with hblank | hmaster
    · simp [MasterPin.pinAtBoot, MasterPin.new, soleMaster_of_blank hblank] at hpinned
    · rw [MasterPin.pinAtBoot, MasterPin.new] at hpinned
      simp only [soleMaster_of_masterIs hmaster] at hpinned
      split at hpinned
      · exact (Except.ok.inj hpinned).symm
      · cases hpinned
  · intro pinned hpinned
    cases out with
    | error e => cases hpinned
    | ok pinned' =>
        obtain rfl : pinned' = pinned := Except.ok.inj hpinned
        exact hout _ rfl

theorem bootstraps_loadActive :
    Assures (Ruled m) (Bootstraps aead l) (fun _ => True) loadActive := by
  refine Assures.bind (V := fun _ => True) (assures_query bootstraps_refl fun _ _ => trivial)
    fun _ _ => ?_
  exact Assures.bind (V := fun _ => True) (assures_query bootstraps_refl fun _ _ => trivial)
    fun _ _ => assures_pure trivial

/-- **A start** creates a Master at most, and serves only once it has read its setting and pinned
the Master. -/
theorem bootstraps_boot :
    Assures (Ruled m) (Bootstraps aead l) (Knows l m) (boot aead l) := by
  refine bootstraps_bootstrapMasterKey.bind fun _ _ => ?_
  refine bootstraps_checkStoredSecret.bind fun _ _ => ?_
  refine (assures_lift fun _ h => cipher_eq_ok.mp h).bind fun setting hsetting => ?_
  refine Assures.bind (V := fun _ => True) (assures_lift fun _ _ => trivial) fun _ _ => ?_
  refine bootstraps_pinMaster.bind fun pinned hpinned => ?_
  exact bootstraps_loadActive.bind fun _ _ => assures_pure ⟨hsetting, hpinned⟩

end SimplyIpSync.Installation
