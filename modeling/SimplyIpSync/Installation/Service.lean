import SimplyIpSync.Installation.Boot
import SimplyIpSync.Lib.Reach

/-!
# Processes on one database (`src/main.rs`, `src/middleware.rs`, `src/api/`)

Any number of processes start, serve and stop at any time on one migrated database, the first of
them on an empty one.  Starts and calls issue their statements one by one, in any order, and may
break off anywhere.  The middleware reads the key of a request and later compares a claimed Master
flag with the table, each in a statement of its own.

`one_master` says what becomes of the Master: there never are two, its identity and its credentials
stay as the bootstrap wrote them, and whoever acts as Master is the key its process has pinned.
-/

namespace SimplyIpSync.Installation

open SimplyIpSync.Crypto SimplyIpSync.Entities SimplyIpSync.Storage SimplyIpSync.Program
open SimplyIpSync.Program.Prog SimplyIpSync.Api SimplyIpSync.Canary SimplyIpSync.Reach
open SimplyIpSync.Retention

/-- How far a call has come: its key has been looked up, or it is handled for a caller. -/
inductive Stage
  | lookedUp
  | handling (caller : ApiKey) (rest : Handler Reply)

/-- A call in flight: the process it came to, the key row it was looked up with, and its stage. -/
structure InFlight where
  serving : Serving
  record : ApiKey
  call : Call
  stage : Stage

/-- The call has been answered, and not with an error. -/
def InFlight.served (c : InFlight) : Bool :=
  match c.stage with
  | .handling _ (.done (.ok _)) => true
  | _ => false

theorem InFlight.served_iff {c : InFlight} :
    c.served ↔ ∃ caller reply, c.stage = .handling caller (.done (.ok reply)) := by
  rw [InFlight.served]
  split
  · rename_i caller reply hstage
    exact ⟨fun _ => ⟨caller, reply, hstage⟩, fun _ => rfl⟩
  · rename_i hother
    exact ⟨fun h => absurd h (by decide), fun ⟨caller, reply, h⟩ => absurd h (hother caller reply)⟩

/-- The database, the starts under way, the processes that listen, and the calls in flight. -/
structure Service where
  db : Database
  starts : List (Launch × Startup Serving)
  serving : List Serving
  calls : List InFlight

/-- A migrated database without rows, and no process. -/
def Service.empty : Service where
  db :=
    { apiKeys := .empty, permissions := .empty, vaultEndpoints := .empty,
      destinationGroups := .empty, groupTargets := .empty, externalSources := .empty,
      vaultSyncTasks := .empty, taskTargets := .empty, syncLogs := [], auditLogs := [] }
  starts := []
  serving := []
  calls := []

/-- What a process does unasked, one statement at a time: a scheduled job writes its log and its
stamp, and the retention worker purges, in the way of the database.  The numbers are readings of
the clock. -/
inductive Chore
  | writeSyncLog (row : SyncLog)
  | stampGroup (id : Uuid) (startedAt : ℤ)
  | stampTask (id : Uuid) (startedAt : ℤ)
  | purgeSyncLogs (backend : DatabaseBackend) (now : ℤ)
  | purgeAuditLogs (backend : DatabaseBackend) (now : ℤ)

/-- The statement of a chore; `none` where it fails or panics before it. -/
def Chore.run (p : Serving) : Chore → Database → Option Database
  | .writeSyncLog row, db => some { db with syncLogs := db.syncLogs ++ [row] }
  | .stampGroup id startedAt, db =>
      match db.stampGroup id startedAt with
      | .error _ => none
      | .ok (_, db) => some db
  | .stampTask id startedAt, db =>
      match db.stampTask id startedAt with
      | .error _ => none
      | .ok (_, db) => some db
  | .purgeSyncLogs backend now, db =>
      (purgeExpiredSyncLogs backend p.syncLogDays now none db.syncLogs).map fun purged =>
        { db with syncLogs := purged.2 }
  | .purgeAuditLogs backend now, db =>
      (purgeExpiredAuditLogs backend p.auditLogDays now none db.auditLogs).map fun purged =>
        { db with auditLogs := purged.2 }

/-- What happens next. -/
inductive Service.Event
  | launch (l : Launch)
  /-- The start with this number issues its next statement. -/
  | proceed (i : ℕ)
  /-- The start has come to its end, and the process listens. -/
  | listen (i : ℕ)
  /-- The start is broken off. -/
  | giveUp (i : ℕ)
  /-- A listening process stops; its calls are drained or aborted. -/
  | stop (i : ℕ)
  /-- A signed request comes to a process, which looks its key up; `nonce` is for its cipher. -/
  | arrive (i : ℕ) (call : Call) (nonce : Bytes)
  /-- The call with this number issues its next statement. -/
  | advance (i : ℕ)
  /-- The next statement of the call fails, or its client has gone. -/
  | abort (i : ℕ)
  /-- A listening process does a chore. -/
  | chore (i : ℕ) (chore : Chore)

section System

variable (aead : Aead)

/-- The environment of a request under the cipher of its process. -/
def sealingEnv (env : Env) (setting : KeySetting) (nonce : Bytes) : Env :=
  { env with
    sealSecret := fun plaintext =>
      -- handlers answer every error of the cipher alike
      (sealText aead setting nonce plaintext).elim (.error .malformedCiphertext) .ok }

/-- The next statement of a call. -/
def InFlight.advance (c : InFlight) (db : Database) : InFlight × Database :=
  match c.stage with
  | .lookedUp =>
      let caller := Master.authenticate db.apiKeys c.record
      ({ c with
          stage := .handling caller (handle c.call.fuel c.call.env caller c.call.request) }, db)
  | .handling caller rest =>
      ({ c with stage := .handling caller (rest.step db).1 }, (rest.step db).2)

/-- One event; `none` where it is not possible. -/
def Service.step (s : Service) : Service.Event → Option Service
  | .launch l => some { s with starts := s.starts ++ [(l, boot aead l)] }
  | .proceed i =>
      s.starts[i]?.map fun start =>
        { s with
          db := (start.2.step s.db).2
          starts := s.starts.set i (start.1, (start.2.step s.db).1) }
  | .listen i =>
      s.starts[i]?.bind fun start =>
        match start.2 with
        | .done (.ok serving) =>
            some { s with starts := s.starts.eraseIdx i, serving := s.serving ++ [serving] }
        | _ => none
  | .giveUp i => s.starts[i]?.map fun _ => { s with starts := s.starts.eraseIdx i }
  | .stop i => s.serving[i]?.map fun _ => { s with serving := s.serving.eraseIdx i }
  | .arrive i call nonce =>
      s.serving[i]?.bind fun serving =>
        if nonce.length = nonceLen then
          (s.db.apiKeys.find? call.callerId).map fun record =>
            { s with
              calls := s.calls ++
                [{ serving := serving
                   record := record
                   call := { call with env := sealingEnv aead call.env serving.setting nonce }
                   stage := .lookedUp }] }
        else none
  | .advance i =>
      s.calls[i]?.map fun c =>
        { s with db := (c.advance s.db).2, calls := s.calls.set i (c.advance s.db).1 }
  | .abort i => s.calls[i]?.map fun _ => { s with calls := s.calls.eraseIdx i }
  | .chore i chore =>
      s.serving[i]?.bind fun p => (chore.run p s.db).map fun db => { s with db := db }

end System

variable {aead : Aead} {l : Launch} {m : Uuid} {db db' : Database} {env : Env} {caller : ApiKey}

/-! ### The Master's row -/

/-- A key without the two columns in which the API may change the Master. -/
def lasting (key : ApiKey) : ApiKey := { key with boundIps := none, updatedAt := 0 }

/-- Only the columns of `lasting` are shown. -/
def lastingMaster (m : Uuid) (db : Database) : Option ApiKey :=
  (db.apiKeys.find? m).map lasting

theorem lastingMaster_updateApiKey {id : Uuid} {f : ApiKey → ApiKey} {hf : ∀ r, (f r).id = r.id}
    {row : ApiKey} (h : db.updateApiKey id f hf = .ok (row, db'))
    (hlasting : id = m → ∀ r, lasting (f r) = lasting r) :
    lastingMaster m db' = lastingMaster m db := by
  obtain ⟨old, -, -, rfl⟩ := updateApiKey_ok h
  simp only [lastingMaster]
  by_cases hm : m = id
  · subst hm
    rw [Table.find?_modify_self, Option.map_map]
    exact congrArg (fun g => (db.apiKeys.find? m).map g) (funext (hlasting rfl))
  · rw [Table.find?_modify_of_ne _ _ _ hm]

theorem lastingMaster_insertApiKey {row : ApiKey} (h : db.insertApiKey row = .ok db')
    (hdb : db.MasterIs m) : lastingMaster m db' = lastingMaster m db := by
  obtain ⟨rows, hrows, rfl⟩ := insertApiKey_ok h
  obtain ⟨master, hmaster, hid⟩ := hdb.present
  have hfind := Table.find?_eq_some_iff.mpr ⟨hmaster, hid⟩
  simp only [lastingMaster, hfind, Table.find?_insert?_of_find? hrows hfind]

/-- **A write leaves the Master's identity and credentials as they are.** -/
theorem lastingMaster_of_write (h : Write m env caller db db') (hdb : db.MasterIs m) :
    lastingMaster m db' = lastingMaster m db := by
  cases h with
  | createKey _ h => exact lastingMaster_insertApiKey h hdb
  | updateKey hmaster h =>
      refine lastingMaster_updateApiKey h ?_
      intro hid r
      have htouches := hmaster hid
      simp only [UpdateApiKeyPayload.touchesNonBoundIps, Bool.or_eq_false_iff,
        Option.isSome_eq_false_iff, Option.isNone_iff_eq_none] at htouches
      obtain ⟨⟨⟨hname, hkeys⟩, hsources⟩, hvaults⟩ := htouches
      simp [lasting, UpdateApiKeyPayload.apply, hname, hkeys, hsources, hvaults]
  | rotateKey hmaster h => exact lastingMaster_updateApiKey h fun hid => absurd hid hmaster
  | rotateSecret hmaster _ h => exact lastingMaster_updateApiKey h fun hid => absurd hid hmaster
  | deleteKeys hmaster =>
      obtain ⟨master, hrow, hid⟩ := hdb.present
      have hfind := Table.find?_eq_some_iff.mpr ⟨hrow, hid⟩
      have hkept := Table.find?_deleteWhere_of_find? (p := fun r => decide (r.id ∈ _)) hfind
        (by simpa [hid] using hmaster)
      simp only [lastingMaster, hfind, Database.deleteApiKeys, hkept]
  | _ => rfl

/-! ### A start and the Master -/

/-- Where there is a Master, a start creates none. -/
theorem Bootstraps.eq_of_masterIs (h : Bootstraps aead l db db') (hdb : db.MasterIs m) :
    db' = db := by
  cases h with
  | unchanged => rfl
  | created _ _ h =>
      obtain ⟨master, hmaster, hid⟩ := hdb.present
      rw [Database.insertApiKey] at h
      split at h
      · cases h
      · rename_i rows hrows
        have hclash := List.any_eq_false.mp (insertUnique_ok.mp hrows).1 master hmaster
        simp [(hdb.only master hmaster).mpr hid, Env.masterKey] at hclash

theorem masterIs_of_first {row : ApiKey} (hblank : Blank db) (hmaster : row.isMaster = true)
    (hparent : row.parentKeyId = none) (h : db.insertApiKey row = .ok db') :
    db'.MasterIs row.id := by
  obtain ⟨rows, hrows, rfl⟩ := insertApiKey_ok h
  have hmem : ∀ key ∈ rows.rows, key = row := by
    intro key hkey
    rcases (Table.mem_insert? hrows).mp hkey with hold | hnew
    · rw [hblank.apiKeys] at hold
      cases hold
    · exact hnew
  constructor
  · exact ⟨row, (Table.mem_insert? hrows).mpr (Or.inr rfl), rfl⟩
  · intro key hkey
    rw [hmem key hkey]
    exact iff_of_true hmaster rfl
  · intro key hkey _
    rw [hmem key hkey]
    exact hparent

/-- Where there is no key, a start that changes anything creates the Master. -/
theorem Bootstraps.of_blank (h : Bootstraps aead l db db') (hdb : Blank db) :
    db' = db ∨ db'.MasterIs l.env.newId := by
  cases h with
  | unchanged => exact Or.inl rfl
  | created _ _ h => exact Or.inr (masterIs_of_first hdb rfl rfl h)

/-! ### Chores -/

/-- **A chore** does what a handler may do as well, or it purges one of the logs. -/
theorem Chore.run_cases {p : Serving} {chore : Chore} (h : chore.run p db = some db') :
    (∀ m env caller, Write m env caller db db') ∨
      (∃ syncLogs, db' = { db with syncLogs }) ∨
      ∃ backend now purged, chore = .purgeAuditLogs backend now ∧
        purgeExpiredAuditLogs backend p.auditLogDays now none db.auditLogs = some purged ∧
        db' = { db with auditLogs := purged.2 } := by
  cases chore with
  | writeSyncLog row =>
      obtain rfl := Option.some.inj h
      exact Or.inl fun m env caller => .log row
  | stampGroup id startedAt =>
      simp only [Chore.run] at h
      split at h
      · cases h
      · rename_i row db₁ hstamp
        obtain rfl := Option.some.inj h
        obtain ⟨_, -, -, rfl⟩ := updateDestinationGroup_ok hstamp
        exact Or.inl fun m env caller => .stampGroup hstamp
  | stampTask id startedAt =>
      simp only [Chore.run] at h
      split at h
      · cases h
      · rename_i row db₁ hstamp
        obtain rfl := Option.some.inj h
        obtain ⟨_, -, -, rfl⟩ := updateVaultSyncTask_ok hstamp
        exact Or.inl fun m env caller => .stampTask hstamp
  | purgeSyncLogs backend now =>
      obtain ⟨purged, -, rfl⟩ := Option.map_eq_some_iff.mp h
      exact Or.inr (Or.inl ⟨_, rfl⟩)
  | purgeAuditLogs backend now =>
      obtain ⟨purged, hpurged, rfl⟩ := Option.map_eq_some_iff.mp h
      exact Or.inr (Or.inr ⟨backend, now, purged, rfl, hpurged, rfl⟩)

/-! ### What every run keeps -/

/-- The settings with which processes are started. -/
def Admits (allowed : KeySetting → Prop) : Service → Service.Event → Prop
  | _, .launch l => ∀ setting, fromEnv l.encryptionKey = .ok setting → allowed setting
  | _, _ => True

/-- A start that may go on when the Master is `m`. -/
structure StartGoverned (aead : Aead) (allowed : KeySetting → Prop) (m : Uuid)
    (start : Launch × Startup Serving) : Prop where
  admitted : ∀ setting, fromEnv start.1.encryptionKey = .ok setting → allowed setting
  rest : Assures (Ruled m) (Bootstraps aead start.1) (Knows start.1 m) start.2

/-- The caller is the key of the record, at most without its Master flag. -/
def IsModelOf (record caller : ApiKey) : Prop :=
  caller = record ∨ caller = { record with isMaster := false }

/-- A call that may go on when the Master is `m`. -/
structure InFlight.Governed (aead : Aead) (allowed : KeySetting → Prop) (m : Uuid) (c : InFlight) :
    Prop where
  admitted : allowed c.serving.setting
  pinned : c.serving.pinned = m
  sealing : ∃ env nonce, nonce.length = nonceLen ∧
    c.call.env = sealingEnv aead env c.serving.setting nonce
  record : c.record.isMaster = true → c.record.id = m
  caller : ∀ caller rest, c.stage = .handling caller rest →
    IsModelOf c.record caller ∧ Assured m c.call.env caller (fun _ => True) rest

/-- The Master is `m`, and everybody knows. -/
structure Service.Governed (aead : Aead) (allowed : KeySetting → Prop) (m : Uuid) (s : Service) :
    Prop where
  master : s.db.MasterIs m
  starts : ∀ start ∈ s.starts, StartGoverned aead allowed m start
  serving : ∀ p ∈ s.serving, allowed p.setting ∧ p.pinned = m
  calls : ∀ c ∈ s.calls, c.Governed aead allowed m

/-- There is no key yet, and only starts are under way. -/
structure Service.Unclaimed (aead : Aead) (allowed : KeySetting → Prop) (s : Service) : Prop where
  blank : Blank s.db
  starts : ∀ m, ∀ start ∈ s.starts, StartGoverned aead allowed m start
  serving : s.serving = []
  calls : s.calls = []

variable {allowed : KeySetting → Prop} {s s' : Service} {event : Service.Event}

theorem startGoverned_boot
    (h : ∀ setting, fromEnv l.encryptionKey = .ok setting → allowed setting) :
    StartGoverned aead allowed m (l, boot aead l) := ⟨h, bootstraps_boot⟩

theorem StartGoverned.step {start : Launch × Startup Serving}
    (h : StartGoverned aead allowed m start) (hdb : Ruled m db) :
    Bootstraps aead start.1 db (start.2.step db).2 ∧
      StartGoverned aead allowed m (start.1, (start.2.step db).1) := by
  obtain ⟨hguar, hrest⟩ := h.rest.step bootstraps_refl hdb
  exact ⟨hguar, h.admitted, hrest⟩

/-- A start that has ended well serves with the setting and the Master of the installation. -/
theorem StartGoverned.serving {start : Launch × Startup Serving} {p : Serving}
    (h : StartGoverned aead allowed m start) (hend : start.2 = .done (.ok p)) :
    allowed p.setting ∧ p.pinned = m := by
  have hknows : Knows start.1 m p := by
    have hrest := h.rest
    rwa [hend] at hrest
  exact ⟨h.admitted _ hknows.1, hknows.2⟩

theorem isModelOf_authenticate (keys : Table ApiKey.id) (record : ApiKey) :
    IsModelOf record (Master.authenticate keys record) := by
  rw [Master.authenticate]
  split
  · exact Or.inl rfl
  · split
    · split
      · exact Or.inl rfl
      · exact Or.inr rfl
    · exact Or.inr rfl

/-- **A statement of a call.** -/
theorem InFlight.Governed.advance {c : InFlight} (h : c.Governed aead allowed m)
    (hdb : db.MasterIs m) :
    ((c.advance db).2 = db ∨ ∃ caller rest, c.stage = .handling caller rest ∧
        Writes m c.call.env caller db (c.advance db).2) ∧
      (c.advance db).1.Governed aead allowed m := by
  cases hstage : c.stage with
  | lookedUp =>
      simp only [InFlight.advance, hstage]
      refine ⟨Or.inl trivial, h.admitted, h.pinned, h.sealing, h.record, ?_⟩
      intro caller rest hcaller
      obtain ⟨rfl, rfl⟩ := Stage.handling.inj hcaller
      exact ⟨isModelOf_authenticate _ _, writes_handle _ _⟩
  | handling caller rest =>
      obtain ⟨hmodel, hassured⟩ := h.caller caller rest hstage
      obtain ⟨hwrites, hrest⟩ := hassured.step writes_refl hdb
      simp only [InFlight.advance, hstage]
      refine ⟨Or.inr ⟨caller, rest, rfl, hwrites⟩, h.admitted, h.pinned, h.sealing, h.record, ?_⟩
      intro caller' rest' hcaller'
      obtain ⟨rfl, rfl⟩ := Stage.handling.inj hcaller'
      exact ⟨hmodel, hrest⟩

/-- What an event does to the tables when the Master is `m`: nothing, some writes of a call, or a
chore. -/
inductive Touches (m : Uuid) (s : Service) : Service.Event → Database → Prop
  | nothing {e : Service.Event} : Touches m s e s.db
  | call {i db} (c : InFlight) (hc : c ∈ s.calls) (caller : ApiKey) (rest : Handler Reply)
      (hstage : c.stage = .handling caller rest) (h : Writes m c.call.env caller s.db db) :
      Touches m s (.advance i) db
  | chore {i chore db} (p : Serving) (hp : s.serving[i]? = some p)
      (h : chore.run p s.db = some db) :
      Touches m s (.chore i chore) db

theorem Chore.run_masterIs {p : Serving} {chore : Chore} (h : chore.run p db = some db')
    (hdb : db.MasterIs m) : db'.MasterIs m := by
  rcases Chore.run_cases h with hwrite | ⟨_, rfl⟩ | ⟨_, _, _, -, -, rfl⟩
  · exact (hwrite m (Env.plain 0) ((Env.plain 0).masterKey "" "")).masterIs hdb
  · exact hdb.of_eq rfl
  · exact hdb.of_eq rfl

/-- **One event, under a Master.**  It stays the Master, and the tables change by some writes of a
call or a chore at most. -/
theorem Service.Governed.step (h : s.Governed aead allowed m) (hgood : Admits allowed s event)
    (hstep : s.step aead event = some s') :
    s'.Governed aead allowed m ∧ Touches m s event s'.db := by
  cases event with
  | launch l =>
      obtain rfl := Option.some.inj hstep
      refine ⟨⟨h.master, ?_, h.serving, h.calls⟩, .nothing⟩
      intro start hstart
      rcases List.mem_append.mp hstart with hold | hnew
      · exact h.starts start hold
      · rw [List.mem_singleton.mp hnew]
        exact startGoverned_boot hgood
  | proceed i =>
      obtain ⟨start, hstart, rfl⟩ := Option.map_eq_some_iff.mp hstep
      obtain ⟨hboot, hrest⟩ := (h.starts start (List.mem_of_getElem? hstart)).step (Or.inr h.master)
      have hdb := hboot.eq_of_masterIs h.master
      have hmaster : (start.2.step s.db).2.MasterIs m := hdb.symm ▸ h.master
      have htouches : Touches m s (.proceed i) (start.2.step s.db).2 := hdb.symm ▸ .nothing
      refine ⟨⟨hmaster, ?_, h.serving, h.calls⟩, htouches⟩
      intro start' hstart'
      rcases List.mem_or_eq_of_mem_set hstart' with hold | rfl
      · exact h.starts start' hold
      · exact hrest
  | listen i =>
      obtain ⟨start, hstart, hlisten⟩ := Option.bind_eq_some_iff.mp hstep
      split at hlisten
      · rename_i p hend
        obtain rfl := Option.some.inj hlisten
        refine ⟨⟨h.master, ?_, ?_, h.calls⟩, .nothing⟩
        · exact fun start' hstart' => h.starts start' (List.mem_of_mem_eraseIdx hstart')
        · intro p' hp'
          rcases List.mem_append.mp hp' with hold | hnew
          · exact h.serving p' hold
          · rw [List.mem_singleton.mp hnew]
            exact (h.starts start (List.mem_of_getElem? hstart)).serving hend
      · cases hlisten
  | giveUp i =>
      obtain ⟨_, -, rfl⟩ := Option.map_eq_some_iff.mp hstep
      exact ⟨⟨h.master, fun start' hstart' => h.starts start' (List.mem_of_mem_eraseIdx hstart'),
        h.serving, h.calls⟩, .nothing⟩
  | stop i =>
      obtain ⟨_, -, rfl⟩ := Option.map_eq_some_iff.mp hstep
      exact ⟨⟨h.master, h.starts, fun p hp => h.serving p (List.mem_of_mem_eraseIdx hp), h.calls⟩,
        .nothing⟩
  | arrive i call nonce =>
      obtain ⟨serving, hserving, harrive⟩ := Option.bind_eq_some_iff.mp hstep
      obtain ⟨hadmitted, hpinned⟩ := h.serving serving (List.mem_of_getElem? hserving)
      split at harrive
      · rename_i hnonce
        obtain ⟨record, hrecord, rfl⟩ := Option.map_eq_some_iff.mp harrive
        refine ⟨⟨h.master, h.starts, h.serving, ?_⟩, .nothing⟩
        intro c hc
        rcases List.mem_append.mp hc with hold | hnew
        · exact h.calls c hold
        · rw [List.mem_singleton.mp hnew]
          refine ⟨hadmitted, hpinned, ⟨call.env, nonce, hnonce, rfl⟩, ?_, fun _ _ hcaller => ?_⟩
          · exact (h.master.only record (Table.find?_eq_some_iff.mp hrecord).1).mp
          · cases hcaller
      · cases harrive
  | advance i =>
      obtain ⟨c, hc, rfl⟩ := Option.map_eq_some_iff.mp hstep
      obtain ⟨heffect, hrest⟩ := (h.calls c (List.mem_of_getElem? hc)).advance h.master
      refine ⟨⟨?_, h.starts, h.serving, ?_⟩, ?_⟩
      · rcases heffect with hsame | ⟨caller, rest, -, hwrites⟩
        · show (c.advance s.db).2.MasterIs m
          rw [hsame]
          exact h.master
        · exact masterIs_of_writes h.master hwrites
      · intro c' hc'
        rcases List.mem_or_eq_of_mem_set hc' with hold | rfl
        · exact h.calls c' hold
        · exact hrest
      · rcases heffect with hsame | ⟨caller, rest, hstage, hwrites⟩
        · show Touches m s (.advance i) (c.advance s.db).2
          exact hsame.symm ▸ .nothing
        · exact .call c (List.mem_of_getElem? hc) caller rest hstage hwrites
  | abort i =>
      obtain ⟨_, -, rfl⟩ := Option.map_eq_some_iff.mp hstep
      exact ⟨⟨h.master, h.starts, h.serving, fun c hc => h.calls c (List.mem_of_mem_eraseIdx hc)⟩,
        .nothing⟩
  | chore i chore =>
      obtain ⟨p, hp, hchore⟩ := Option.bind_eq_some_iff.mp hstep
      obtain ⟨db, hrun, rfl⟩ := Option.map_eq_some_iff.mp hchore
      exact ⟨⟨chore.run_masterIs hrun h.master, h.starts, h.serving, h.calls⟩,
        .chore p hp hrun⟩

/-- **One event, before there is a Master.**  Nothing happens to the tables until a start creates
it. -/
theorem Service.Unclaimed.step (h : s.Unclaimed aead allowed) (hgood : Admits allowed s event)
    (hstep : s.step aead event = some s') :
    s'.Unclaimed aead allowed ∧ s'.db = s.db ∨
      ∃ l, (∀ setting, fromEnv l.encryptionKey = .ok setting → allowed setting) ∧
        Bootstraps aead l s.db s'.db ∧ s'.Governed aead allowed l.env.newId := by
  cases event with
  | launch l =>
      obtain rfl := Option.some.inj hstep
      refine Or.inl ⟨⟨h.blank, ?_, h.serving, h.calls⟩, rfl⟩
      intro m start hstart
      rcases List.mem_append.mp hstart with hold | hnew
      · exact h.starts m start hold
      · rw [List.mem_singleton.mp hnew]
        exact startGoverned_boot hgood
  | proceed i =>
      obtain ⟨start, hstart, rfl⟩ := Option.map_eq_some_iff.mp hstep
      have hmem := List.mem_of_getElem? hstart
      have hgoverned : ∀ m, ∀ start' ∈ s.starts.set i (start.1, (start.2.step s.db).1),
          StartGoverned aead allowed m start' := by
        intro m start' hstart'
        rcases List.mem_or_eq_of_mem_set hstart' with hold | rfl
        · exact h.starts m start' hold
        · exact ((h.starts m start hmem).step (Or.inl h.blank)).2
      obtain ⟨hboot, -⟩ := (h.starts 0 start hmem).step (Or.inl h.blank)
      rcases hboot.of_blank h.blank with hsame | hmaster
      · have hblank : Blank (start.2.step s.db).2 := hsame.symm ▸ h.blank
        exact Or.inl ⟨⟨hblank, hgoverned, h.serving, h.calls⟩, hsame⟩
      · refine Or.inr ⟨start.1, (h.starts 0 start hmem).admitted, hboot, hmaster,
          hgoverned _, ?_, ?_⟩
        · intro p hp
          rw [h.serving] at hp
          cases hp
        · intro c hc
          rw [h.calls] at hc
          cases hc
  | listen i =>
      obtain ⟨start, hstart, hlisten⟩ := Option.bind_eq_some_iff.mp hstep
      split at hlisten
      · rename_i p hend
        have hmem := List.mem_of_getElem? hstart
        -- whoever serves has pinned a Master
        have hzero := ((h.starts 0 start hmem).serving hend).2
        have hone := ((h.starts 1 start hmem).serving hend).2
        exact absurd (hzero.symm.trans hone) (by decide)
      · cases hlisten
  | giveUp i =>
      obtain ⟨_, -, rfl⟩ := Option.map_eq_some_iff.mp hstep
      exact Or.inl ⟨⟨h.blank, fun m start hstart =>
        h.starts m start (List.mem_of_mem_eraseIdx hstart), h.serving, h.calls⟩, rfl⟩
  | stop i =>
      obtain ⟨_, hp, -⟩ := Option.map_eq_some_iff.mp hstep
      rw [h.serving] at hp
      cases hp
  | arrive i call nonce =>
      obtain ⟨_, hp, -⟩ := Option.bind_eq_some_iff.mp hstep
      rw [h.serving] at hp
      cases hp
  | advance i =>
      obtain ⟨_, hc, -⟩ := Option.map_eq_some_iff.mp hstep
      rw [h.calls] at hc
      cases hc
  | abort i =>
      obtain ⟨_, hc, -⟩ := Option.map_eq_some_iff.mp hstep
      rw [h.calls] at hc
      cases hc
  | chore i chore =>
      obtain ⟨_, hp, -⟩ := Option.bind_eq_some_iff.mp hstep
      rw [h.serving] at hp
      cases hp

theorem blank_empty : Blank Service.empty.db := ⟨rfl, rfl, rfl, rfl, rfl, rfl, rfl, rfl, rfl⟩

theorem unclaimed_empty : Service.empty.Unclaimed aead allowed where
  blank := blank_empty
  starts := by
    intro m start hstart
    cases hstart
  serving := rfl
  calls := rfl

/-- What the environments of the requests are like. -/
def Brings (E : Env → Prop) : Service → Service.Event → Prop
  | _, .arrive _ call _ => E call.env
  | _, _ => True

theorem brings_all (s : Service) (event : Service.Event) : Brings (fun _ => True) s event := by
  cases event with
  | arrive i call nonce => exact trivial
  | _ => trivial

/-- The call came with such an environment. -/
def InFlight.Brought (aead : Aead) (E : Env → Prop) (c : InFlight) : Prop :=
  ∃ env nonce, E env ∧ nonce.length = nonceLen ∧
    c.call.env = sealingEnv aead env c.serving.setting nonce

theorem brought_step {E : Env → Prop} (h : ∀ c ∈ s.calls, c.Brought aead E)
    (hbrings : Brings E s event) (hstep : s.step aead event = some s') :
    ∀ c ∈ s'.calls, c.Brought aead E := by
  cases event with
  | launch l =>
      obtain rfl := Option.some.inj hstep
      exact h
  | proceed i =>
      obtain ⟨_, -, rfl⟩ := Option.map_eq_some_iff.mp hstep
      exact h
  | listen i =>
      obtain ⟨_, -, hlisten⟩ := Option.bind_eq_some_iff.mp hstep
      split at hlisten
      · obtain rfl := Option.some.inj hlisten
        exact h
      · cases hlisten
  | giveUp i =>
      obtain ⟨_, -, rfl⟩ := Option.map_eq_some_iff.mp hstep
      exact h
  | stop i =>
      obtain ⟨_, -, rfl⟩ := Option.map_eq_some_iff.mp hstep
      exact h
  | arrive i call nonce =>
      obtain ⟨_, -, harrive⟩ := Option.bind_eq_some_iff.mp hstep
      split at harrive
      · rename_i hnonce
        obtain ⟨_, -, rfl⟩ := Option.map_eq_some_iff.mp harrive
        intro c hc
        rcases List.mem_append.mp hc with hold | hnew
        · exact h c hold
        · rw [List.mem_singleton.mp hnew]
          exact ⟨call.env, nonce, hbrings, hnonce, rfl⟩
      · cases harrive
  | advance i =>
      obtain ⟨c, hc, rfl⟩ := Option.map_eq_some_iff.mp hstep
      intro c' hc'
      rcases List.mem_or_eq_of_mem_set hc' with hold | rfl
      · exact h c' hold
      · have hbrought := h c (List.mem_of_getElem? hc)
        rw [InFlight.Brought, InFlight.advance]
        cases c.stage <;> exact hbrought
  | abort i =>
      obtain ⟨_, -, rfl⟩ := Option.map_eq_some_iff.mp hstep
      exact fun c hc => h c (List.mem_of_mem_eraseIdx hc)
  | chore i chore =>
      obtain ⟨_, -, hchore⟩ := Option.bind_eq_some_iff.mp hstep
      obtain ⟨_, -, rfl⟩ := Option.map_eq_some_iff.mp hchore
      exact h

/-- **The invariant rule for the tables.**  What holds of the empty tables, of the tables with a
first Master, and survives every write of a call and every purge of the logs holds in every run.  A
write may count on what the environments of all requests are like. -/
theorem db_invariant_of_env {P : Database → Prop} {E : Env → Prop} {env₀ : Env} (henv₀ : E env₀)
    (hempty : P Service.empty.db)
    (hboot : ∀ l db db', (∀ setting, fromEnv l.encryptionKey = .ok setting → allowed setting) →
      Blank db → P db → Bootstraps aead l db db' → P db')
    (hwrite : ∀ m setting env nonce caller db db', E env → db.MasterIs m → allowed setting →
      nonce.length = nonceLen → P db →
      Write m (sealingEnv aead env setting nonce) caller db db' → P db')
    (hpurge : ∀ db syncLogs auditLogs, auditLogs.Sublist db.auditLogs → P db →
      P { db with syncLogs, auditLogs })
    (hrun : Reaches (Service.step aead) (fun s event => Admits allowed s event ∧ Brings E s event)
      .empty s) :
    P s.db ∧ (s.Unclaimed aead allowed ∨ ∃ m, s.Governed aead allowed m) := by
  have hall : (P s.db ∧ (s.Unclaimed aead allowed ∨ ∃ m, s.Governed aead allowed m)) ∧
      ∀ c ∈ s.calls, c.Brought aead E := by
    refine hrun.invariant (P := fun s => (P s.db ∧ (s.Unclaimed aead allowed ∨
      ∃ m, s.Governed aead allowed m)) ∧ ∀ c ∈ s.calls, c.Brought aead E)
      ⟨⟨hempty, Or.inl unclaimed_empty⟩, List.forall_mem_nil _⟩ ?_
    rintro s event s' ⟨⟨hP, hstage⟩, hbrought⟩ ⟨hgood, hbrings⟩ hstep
    refine ⟨?_, brought_step hbrought hbrings hstep⟩
    rcases hstage with hunclaimed | ⟨m, hgoverned⟩
    · rcases hunclaimed.step hgood hstep with ⟨hstill, hdb⟩ | ⟨l, hallowed, hboots, hnow⟩
      · exact ⟨hdb ▸ hP, Or.inl hstill⟩
      · exact ⟨hboot l _ _ hallowed hunclaimed.blank hP hboots, Or.inr ⟨_, hnow⟩⟩
    · obtain ⟨hstill, htouches⟩ := hgoverned.step hgood hstep
      refine ⟨?_, Or.inr ⟨m, hstill⟩⟩
      generalize s'.db = db' at htouches
      cases htouches with
      | nothing => exact hP
      | call c hc caller rest hstage hwrites =>
          obtain ⟨env, nonce, hE, hnonce, henv⟩ := hbrought c hc
          rw [henv] at hwrites
          refine holds_of_writes ?_ hgoverned.master hP hwrites
          exact fun db db' hdb hdbP hwrite' =>
            hwrite m _ env nonce caller db db' hE hdb (hgoverned.calls c hc).admitted hnonce hdbP
              hwrite'
      | chore p hp hrun' =>
          rcases Chore.run_cases hrun' with
            hwrite' | ⟨_, rfl⟩ | ⟨_, _, _, -, hpurged, rfl⟩
          · exact hwrite m p.setting env₀ (List.replicate 24 0) _ _ _ henv₀ hgoverned.master
              (hgoverned.serving p (List.mem_of_getElem? hp)).1 rfl hP
              (hwrite' _ _ (env₀.masterKey "" ""))
          · exact hpurge _ _ _ (List.Sublist.refl _) hP
          · exact hpurge _ _ _ (purgeExpired_sublist hpurged) hP
  exact hall.1

/-- The rule where any request may come. -/
theorem db_invariant {P : Database → Prop} (hempty : P Service.empty.db)
    (hboot : ∀ l db db', (∀ setting, fromEnv l.encryptionKey = .ok setting → allowed setting) →
      Blank db → P db → Bootstraps aead l db db' → P db')
    (hwrite : ∀ m setting env nonce caller db db', db.MasterIs m → allowed setting →
      nonce.length = nonceLen → P db →
      Write m (sealingEnv aead env setting nonce) caller db db' → P db')
    (hpurge : ∀ db syncLogs auditLogs, auditLogs.Sublist db.auditLogs → P db →
      P { db with syncLogs, auditLogs })
    (hrun : Reaches (Service.step aead) (Admits allowed) .empty s) :
    P s.db ∧ (s.Unclaimed aead allowed ∨ ∃ m, s.Governed aead allowed m) :=
  @db_invariant_of_env _ _ _ P (fun _ => True) (Env.plain 0) trivial hempty hboot
    (fun m setting env nonce caller db db' _ => hwrite m setting env nonce caller db db') hpurge
    (hrun.mono fun s event hgood => ⟨hgood, brings_all s event⟩)

/-! ### One Master -/

theorem Touches.lastingMaster (h : Touches m s event db) (hdb : s.db.MasterIs m) :
    lastingMaster m db = Installation.lastingMaster m s.db := by
  cases h with
  | nothing => rfl
  | call c hc caller rest hstage hwrites =>
      refine holds_of_writes (P := fun db => Installation.lastingMaster m db = _) ?_ hdb rfl hwrites
      intro db db' hmaster hsame hwrite
      rw [lastingMaster_of_write hwrite hmaster, hsame]
  | chore p hp hrun =>
      rcases Chore.run_cases hrun with hwrite | ⟨_, rfl⟩ | ⟨_, _, _, -, -, rfl⟩
      · exact lastingMaster_of_write (hwrite m (Env.plain 0) ((Env.plain 0).masterKey "" "")) hdb
      · rfl
      · rfl

theorem Service.Governed.lasts (h : s.Governed aead allowed m)
    (hrun : Reaches (Service.step aead) (Admits allowed) s s') :
    s'.Governed aead allowed m ∧ lastingMaster m s'.db = lastingMaster m s.db := by
  refine hrun.invariant (P := fun t => t.Governed aead allowed m ∧
    lastingMaster m t.db = lastingMaster m s.db) ⟨h, rfl⟩ ?_
  rintro t event t' ⟨ht, hlasting⟩ hgood hstep
  obtain ⟨hstill, htouches⟩ := ht.step hgood hstep
  exact ⟨hstill, (htouches.lastingMaster ht.master).trans hlasting⟩

theorem admits_all (s : Service) (event : Service.Event) : Admits (fun _ => True) s event := by
  cases event with
  | launch l => exact fun _ _ => trivial
  | _ => trivial

/-- **One Master, for good.**  Whatever processes start, serve and stop on the database, and however
their statements interleave: as long as there is no key nobody serves; from then on there is one
Master, every process that listens has pinned it, whoever acts as Master is it, and up to its bound
addresses and the time of its last change its row stays as it is. -/
theorem one_master (hrun : Reaches (Service.step aead) anyStep .empty s) :
    (s.db.apiKeys.rows = [] ∧ s.serving = [] ∧ s.calls = []) ∨
      ∃ master ∈ s.db.apiKeys.rows,
        (∀ key ∈ s.db.apiKeys.rows, key.isMaster = true ↔ key = master) ∧
        (∀ p ∈ s.serving, p.pinned = master.id) ∧
        (∀ c ∈ s.calls, ∀ caller rest, c.stage = .handling caller rest →
          caller.isMaster = true → caller.id = master.id ∧ c.serving.pinned = master.id) ∧
        ∀ s', Reaches (Service.step aead) anyStep s s' →
          ∃ master' ∈ s'.db.apiKeys.rows, master'.isMaster = true ∧
            lasting master' = lasting master := by
  have hany : ∀ {s s'}, Reaches (Service.step aead) anyStep s s' →
      Reaches (Service.step aead) (Admits fun _ => True) s s' :=
    fun h => h.mono fun s event _ => admits_all s event
  obtain ⟨-, hunclaimed | ⟨m, h⟩⟩ := db_invariant (P := fun _ => True) trivial
    (fun _ _ _ _ _ _ _ => trivial) (fun _ _ _ _ _ _ _ _ _ _ _ _ => trivial)
    (fun _ _ _ _ _ => trivial) (hany hrun)
  · exact Or.inl ⟨hunclaimed.blank.apiKeys, hunclaimed.serving, hunclaimed.calls⟩
  · right
    obtain ⟨master, hmem, rfl⟩ := h.master.present
    refine ⟨master, hmem, ?_, fun p hp => (h.serving p hp).2, ?_, ?_⟩
    · intro key hkey
      rw [h.master.only key hkey]
      constructor
      · exact fun hid => List.inj_on_of_nodup_map s.db.apiKeys.nodup hkey hmem hid
      · rintro rfl
        rfl
    · intro c hc caller rest hstage hmaster
      have hgoverned := h.calls c hc
      refine ⟨?_, hgoverned.pinned⟩
      obtain ⟨rfl | rfl, -⟩ := hgoverned.caller caller rest hstage
      · exact hgoverned.record hmaster
      · cases hmaster
    · intro s' hlater
      obtain ⟨hs', hlasts⟩ := h.lasts (hany hlater)
      obtain ⟨master', hmem', hid'⟩ := hs'.master.present
      refine ⟨master', hmem', (hs'.master.only master' hmem').mpr hid', ?_⟩
      have hfind := Table.find?_eq_some_iff.mpr ⟨hmem, rfl⟩
      have hfind' := Table.find?_eq_some_iff.mpr ⟨hmem', hid'⟩
      simpa [lastingMaster, hfind, hfind'] using hlasts

/-! ### Two starts at once -/

theorem length_zeroNonce : (List.replicate 24 0 : Bytes).length = nonceLen := List.length_replicate

/-- The first key that has a secret is a sample. -/
theorem isSample_find? (db : Database) :
    IsSample db (db.apiKeys.rows.find? fun key => key.signingSecret.isSome) := by
  cases hfind : db.apiKeys.rows.find? fun key => key.signingSecret.isSome with
  | none =>
      intro key hkey
      have hnone := List.find?_eq_none.mp hfind key hkey
      rwa [Bool.not_eq_true, Option.isSome_eq_false_iff, Option.isNone_iff_eq_none] at hnone
  | some key =>
      have hsecret := List.find?_some hfind
      exact ⟨List.mem_of_find?_eq_some hfind, hsecret⟩

/-- A start without a configured key, whose Master would get this identifier. -/
def Launch.plain (newId : Uuid) : Launch where
  encryptionKey := none
  initialMasterKey := none
  initialMasterSigningSecret := none
  env := Env.plain newId
  nonce := List.replicate 24 0
  nonce_length := length_zeroNonce
  sample db := db.apiKeys.rows.find? fun key => key.signingSecret.isSome
  sample_isSample := isSample_find?
  setupState := .ok ()
  hasIndex := true
  syncLogRetention := none
  auditLogRetention := none

/-- One process starts on the empty database and listens; the Master gets the identifier 1. -/
def opening : List Service.Event :=
  .launch (.plain 1) :: List.replicate 6 (.proceed 0) ++ [.listen 0]

/-- A request of the Master, handled as the call with this number. -/
def asking (i : ℕ) (newId : Uuid) (request : Request) : List Service.Event :=
  .arrive 0 (.plain 1 newId request) (List.replicate 24 0) :: List.replicate 8 (.advance i)

/-- Two processes find no Master at the same time; one creates it, the other is refused. -/
theorem one_master_of_two_starts :
    ∃ s, Reaches (Service.step openAead) anyStep .empty s ∧
      (s.db.apiKeys.rows.map fun key => (key.id, key.isMaster)) = [(1, true), (3, false)] ∧
      s.serving.length = 1 ∧ ∀ p ∈ s.serving, p.pinned = 1 := by
  have hrun : (runEvents (Service.step openAead) anyStep .empty
      [.launch (.plain 1), .launch (.plain 2), .proceed 0, .proceed 1, .proceed 0, .proceed 1,
        .proceed 0, .proceed 0, .proceed 0, .proceed 0, .listen 0, .giveUp 0,
        .arrive 0 (.plain 1 3 (.createApiKey (.plain "daughter" true false false)))
          (List.replicate 24 0),
        .advance 0, .advance 0, .advance 0]).map (fun s =>
          ((s.db.apiKeys.rows.map fun key => (key.id, key.isMaster)), s.serving.length)) =
      some ([(1, true), (3, false)], 1) := by
    decide +kernel
  obtain ⟨s, hs, hfacts⟩ := Option.map_eq_some_iff.mp hrun
  obtain ⟨hrows, hserving⟩ := Prod.mk.inj hfacts
  have hreaches := reaches_of_runEvents hs
  refine ⟨s, hreaches, hrows, hserving, ?_⟩
  rcases one_master hreaches with ⟨hnone, -⟩ | ⟨master, hmem, honly, hpinned, -⟩
  · rw [hnone] at hrows
    cases hrows
  · have hmaster : (master.id, master.isMaster) ∈ [((1 : Uuid), true), (3, false)] := by
      rw [← hrows]
      exact List.mem_map_of_mem hmem
    have hid : master.id = 1 := by
      simpa [(honly master hmem).mpr rfl] using hmaster
    exact fun p hp => (hpinned p hp).trans hid

end SimplyIpSync.Installation
