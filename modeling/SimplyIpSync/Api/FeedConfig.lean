import SimplyIpSync.Api.Changes
import SimplyIpSync.Lib.Interference
import SimplyIpSync.Lib.Reach
import SimplyIpSync.Parsers.JsonPath

/-!
# Feeds that are saved at the same time

`update_feed` checks the parser and the configuration it is sent together with the ones it has read,
and writes only those it is sent.  Another update can come between the check and the write, so that
a parser is stored with a configuration that nobody has checked it with.

A step of `Overlap` is the arrival of a call of `create_feed` or `update_feed`, or the next
statement of one.
-/

namespace SimplyIpSync.Api

open SimplyIpSync.Entities SimplyIpSync.Storage SimplyIpSync.Program SimplyIpSync.Reach
open SimplyIpSync.Parsers.JsonPath

/-! ### The system -/

/-- A call that is under way: its request, and what is left of it. -/
structure Running where
  request : Request
  rest : Handler Reply

/-- The database and the calls that are under way. -/
structure Overlap where
  db : Database
  running : List Running

/-- What happens next. -/
inductive OverlapTurn
  /-- A call is authenticated. -/
  | arrive (call : Call)
  /-- The call with this number issues its next statement. -/
  | next (i : ℕ)

/-- The request stores a feed. -/
def Request.savesFeed : Request → Bool
  | .createFeed _ _ => true
  | .updateFeed _ _ _ => true
  | _ => false

/-- The feed that the request updates, and what it sends. -/
def Request.feedUpdate : Request → Option (Uuid × UpdateFeedPayload)
  | .updateFeed _ feedId payload => some (feedId, payload)
  | _ => none

/-- The environment with the check of `json_path`. -/
def Env.validating (env : Env) (fromStr : String → Except String Value) : Env :=
  { env with validateConfig := Parsers.JsonPath.validateConfig fromStr }

/-- One step; `none` when there is no such call. -/
def Overlap.step (fromStr : String → Except String Value) (s : Overlap) :
    OverlapTurn → Option Overlap
  | .arrive call =>
      if call.request.savesFeed then
        (s.db.callerOf call.callerId).map fun caller =>
          { s with
            running := s.running ++
              [⟨call.request, handle call.fuel (call.env.validating fromStr) caller call.request⟩] }
      else none
  | .next i =>
      s.running[i]?.map fun call =>
        { db := (call.rest.step s.db).2
          running := s.running.set i ⟨call.request, (call.rest.step s.db).1⟩ }

/-- Every call has ended. -/
def Overlap.Finished (s : Overlap) : Prop := ∀ call ∈ s.running, call.rest.result?.isSome

instance Overlap.decidableFinished (s : Overlap) : Decidable s.Finished :=
  inferInstanceAs (Decidable (∀ call ∈ s.running, call.rest.result?.isSome))

/-! ### What is to hold of a feed -/

/-- A `JSON_PATH` feed has a configuration its parser takes. -/
def ConfigValid (fromStr : String → Except String Value) (row : StampedExternalSource) : Prop :=
  row.parserType = "JSON_PATH" → Accepted fromStr row.parserConfigJson

/-- The age limit of a feed is positive, if it has one. -/
def AgeValid (row : StampedExternalSource) : Prop := ∀ n ∈ row.maxAgeDays, 0 < n

/-- Every stored feed is of this kind. -/
def Database.AllFeeds (P : StampedExternalSource → Prop) (db : Database) : Prop :=
  ∀ row ∈ db.externalSources.rows, P row

/-- The payload carries one of the two parser columns, and it does not go with the other one as the
row has it. -/
def UpdateFeedPayload.Clashes (fromStr : String → Except String Value) (payload : UpdateFeedPayload)
    (row : StampedExternalSource) : Prop :=
  match payload.parserType, payload.parserConfigJson with
  | some parserType, none => parserType = "JSON_PATH" ∧ ¬Accepted fromStr row.parserConfigJson
  | none, some config => row.parserType = "JSON_PATH" ∧ ¬Accepted fromStr (some config)
  | _, _ => False

instance UpdateFeedPayload.decidableClashes (fromStr : String → Except String Value)
    (payload : UpdateFeedPayload) (row : StampedExternalSource) :
    Decidable (payload.Clashes fromStr row) :=
  match payload with
  | ⟨_, _, some parserType, none, _, _⟩ =>
      inferInstanceAs (Decidable (parserType = "JSON_PATH" ∧ ¬Accepted fromStr row.parserConfigJson))
  | ⟨_, _, none, some config, _, _⟩ =>
      inferInstanceAs (Decidable (row.parserType = "JSON_PATH" ∧ ¬Accepted fromStr (some config)))
  | ⟨_, _, none, none, _, _⟩ => inferInstanceAs (Decidable False)
  | ⟨_, _, some _, some _, _, _⟩ => inferInstanceAs (Decidable False)

/-- What the checks say of the columns a payload carries, whatever the row. -/
structure UpdateFeedPayload.Checked (fromStr : String → Except String Value)
    (payload : UpdateFeedPayload) : Prop where
  parser : ∀ config ∈ payload.parserConfigJson, payload.parserType = some "JSON_PATH" →
    Accepted fromStr (some config)
  age : ∀ n ∈ payload.maxAgeDays, 0 < n

section Feeds

variable {fromStr : String → Except String Value}

theorem validateFeedParser_ok {env : Env} {parserType : String} {config : Option String}
    (h : validateFeedParser (env.validating fromStr) parserType config = .ok ()) :
    parserType = "JSON_PATH" → Accepted fromStr config := by
  intro hjson
  rw [validateFeedParser] at h
  split at h
  · cases h
  · split at h
    · cases h
    · rename_i hvalid
      exact validateConfig_ok.mp hvalid

theorem validateMaxAgeDays_ok {maxAgeDays : Option ℤ} (h : validateMaxAgeDays maxAgeDays = .ok ()) :
    ∀ n ∈ maxAgeDays, 0 < n := by
  rintro n rfl
  rw [validateMaxAgeDays, require] at h
  split at h
  · rename_i hall
    simpa using hall
  · cases h

/-- **What a write makes of a valid configuration.** -/
theorem configValid_apply {payload : UpdateFeedPayload} {row : StampedExternalSource} (now : ℤ)
    (hchecked : payload.Checked fromStr) (hrow : ConfigValid fromStr row) :
    ConfigValid fromStr (payload.apply now row) ↔ ¬payload.Clashes fromStr row := by
  have hparser := hchecked.parser
  rw [ConfigValid] at hrow
  rw [ConfigValid, UpdateFeedPayload.Clashes]
  simp only [UpdateFeedPayload.apply]
  cases htype : payload.parserType with
  | none =>
      cases hconfig : payload.parserConfigJson with
      | none => simpa using hrow
      | some config => simp
  | some parserType =>
      cases hconfig : payload.parserConfigJson with
      | none => simp
      | some config =>
          rw [htype, hconfig] at hparser
          simpa using hparser config rfl

theorem ageValid_apply {payload : UpdateFeedPayload} {row : StampedExternalSource} (now : ℤ)
    (hchecked : payload.Checked fromStr) (hrow : AgeValid row) :
    AgeValid (payload.apply now row) := by
  intro n hn
  rcases Option.or_eq_some_iff.mp hn with hsent | ⟨-, hstored⟩
  · exact hchecked.age n hsent
  · exact hrow n hstored

/-- A payload that was checked over the row clashes with no row that has the same parser columns. -/
theorem not_clashes_of_unchanged {env : Env} {payload : UpdateFeedPayload}
    {existing row : StampedExternalSource} (htype : row.parserType = existing.parserType)
    (hconfig : row.parserConfigJson = existing.parserConfigJson)
    (h : validateFeedParser (env.validating fromStr) (payload.parserType.getD existing.parserType)
      (payload.parserConfigJson.or existing.parserConfigJson) = .ok ()) :
    ¬payload.Clashes fromStr row := by
  have hvalid := validateFeedParser_ok h
  rw [← htype, ← hconfig] at hvalid
  rw [UpdateFeedPayload.Clashes]
  cases hsent : payload.parserType with
  | none =>
      cases hjson : payload.parserConfigJson with
      | none => simp
      | some config =>
          rw [hsent, hjson] at hvalid
          simpa using hvalid
  | some parserType =>
      cases hjson : payload.parserConfigJson with
      | none =>
          rw [hsent, hjson] at hvalid
          simpa using hvalid
      | some config => simp

/-! ### What a call does to the feeds -/

/-- What a statement of the request does to the feeds; `log` ends with it. -/
inductive SavesFeed (fromStr : String → Except String Value) (request : Request) (log : List Sql)
    (db db' : Database) : Prop
  | kept (h : db'.externalSources = db.externalSources)
  | inserted (row : StampedExternalSource) (hconfig : ConfigValid fromStr row) (hage : AgeValid row)
      (hinsert : db.externalSources.insert? row = some db'.externalSources)
  | updated (groupId feedId : Uuid) (payload : UpdateFeedPayload) (now : ℤ)
      (hrequest : request = .updateFeed groupId feedId payload)
      (htag : log.getLast? = some (.update .externalSources)) (hchecked : payload.Checked fromStr)
      (hmodify : db'.externalSources =
        db.externalSources.modify feedId (payload.apply now) fun _ => rfl)

/-- Others may do anything. -/
def Anything (_ : List Sql) (_ _ : Database) : Prop := True

/-- A call may end in any way. -/
def AnyEnd (_ : Except AppError Reply) (_ : List Sql) (_ : Database) : Prop := True

theorem stable_true (log : List Sql) : Prog.Stable (Anything log) fun _ => True :=
  fun _ _ _ _ => trivial

variable {request : Request} {log : List Sql} {db : Database}

/-- The audit entry and the answer. -/
theorem among_audited {env : Env} {caller : ApiKey} {action : String} {name : Option String}
    {reply : Reply} :
    Prog.Among Anything (SavesFeed fromStr request) AnyEnd
      (do
        createAuditLog env caller action name
        pure reply : Handler Reply) log db := by
  refine Prog.among_perform (stable_true log) trivial (fun _ _ _ _ => trivial) ?_
  intro s _ s' _ heffect
  refine ⟨.kept ?_, trivial⟩
  split at heffect
  · cases heffect
  · rename_i haudit
    obtain ⟨-, rfl⟩ := Prod.mk.inj (Except.ok.inj heffect)
    rw [insertAuditLog_ok haudit]

/-- A row that is looked up. -/
theorem among_findRow {ρ : Type} {table : TableName} {find : Database → Option ρ}
    {k : ρ → Handler Reply}
    (hnext : ∀ row log db, Prog.Among Anything (SavesFeed fromStr request) AnyEnd (k row) log db) :
    Prog.Among Anything (SavesFeed fromStr request) AnyEnd (findRow table find >>= k) log db := by
  rw [findRow, bind_assoc]
  refine Prog.among_query (fun _ _ => .kept rfl) (stable_true log) trivial ?_
  intro db' _
  cases find db' with
  | none => trivial
  | some row =>
      rw [pure_bind]
      exact hnext row _ db'

theorem among_requireManage {caller : ApiKey} {resourceType : String} {id : Uuid}
    {k : Unit → Handler Reply}
    (hnext : ∀ log db, Prog.Among Anything (SavesFeed fromStr request) AnyEnd (k ()) log db) :
    Prog.Among Anything (SavesFeed fromStr request) AnyEnd
      (requireManage caller resourceType id >>= k) log db := by
  rw [requireManage, bind_assoc]
  refine Prog.among_query (fun _ _ => .kept rfl) (stable_true log) trivial ?_
  intro db' _
  exact Prog.among_lift (fun _ _ => trivial) fun _ _ => hnext _ db'

/-- **A creation.** -/
theorem among_createFeed (env : Env) (caller : ApiKey) (groupId : Uuid)
    (payload : CreateFeedPayload) (db : Database) :
    Prog.Among Anything (SavesFeed fromStr request) AnyEnd
      (Handlers.createFeed (env.validating fromStr) caller groupId payload) [] db := by
  refine among_findRow fun _ log db => among_requireManage fun log db => ?_
  refine Prog.among_lift (fun _ _ => trivial) fun _ hparser => ?_
  refine Prog.among_lift (fun _ _ => trivial) fun _ hage => ?_
  refine Prog.among_perform (stable_true log) trivial (fun _ _ _ _ => trivial) ?_
  intro s _ s' _ heffect
  refine ⟨?_, among_audited⟩
  split at heffect
  · cases heffect
  · rename_i hinsert
    obtain ⟨-, rfl⟩ := Prod.mk.inj (Except.ok.inj heffect)
    obtain ⟨rows, hrows, rfl⟩ := insertExternalSource_ok hinsert
    exact .inserted _ (validateFeedParser_ok hparser) (validateMaxAgeDays_ok hage) hrows

/-- What an update has checked. -/
theorem checked_of_validated {env : Env} {payload : UpdateFeedPayload}
    {existing : StampedExternalSource}
    (hparser : validateFeedParser (env.validating fromStr)
      (payload.parserType.getD existing.parserType)
      (payload.parserConfigJson.or existing.parserConfigJson) = .ok ())
    (hage : validateMaxAgeDays payload.maxAgeDays = .ok ()) : payload.Checked fromStr where
  parser := by
    rintro config hconfig hjson
    have hvalid := validateFeedParser_ok hparser
    rw [hjson, show payload.parserConfigJson = some config from hconfig] at hvalid
    exact hvalid rfl
  age := validateMaxAgeDays_ok hage

/-- **An update.** -/
theorem among_updateFeed (env : Env) (caller : ApiKey) (groupId feedId : Uuid)
    (payload : UpdateFeedPayload) (db : Database) :
    Prog.Among Anything (SavesFeed fromStr (.updateFeed groupId feedId payload)) AnyEnd
      (Handlers.updateFeed (env.validating fromStr) caller groupId feedId payload) [] db := by
  rw [Handlers.updateFeed, loadFeedInGroup, bind_assoc]
  refine among_findRow fun existing log db => ?_
  rw [bind_assoc]
  refine Prog.among_lift (fun _ _ => trivial) fun _ _ => ?_
  rw [pure_bind]
  refine among_requireManage fun log db => ?_
  refine Prog.among_lift (fun _ _ => trivial) fun _ hparser => ?_
  refine Prog.among_lift (fun _ _ => trivial) fun _ hage => ?_
  refine Prog.among_perform (stable_true log) trivial (fun _ _ _ _ => trivial) ?_
  intro s updated s' _ heffect
  refine ⟨?_, among_audited⟩
  split at heffect
  · cases heffect
  · rename_i hupdate
    obtain rfl := Except.ok.inj heffect
    obtain ⟨_, -, -, rfl⟩ := updateExternalSource_ok hupdate
    exact .updated groupId feedId payload _ rfl List.getLast?_concat
      (checked_of_validated hparser hage) rfl

theorem among_handle {call : Call} (h : call.request.savesFeed = true) (caller : ApiKey)
    (db : Database) :
    Prog.Among Anything (SavesFeed fromStr call.request) AnyEnd
      (handle call.fuel (call.env.validating fromStr) caller call.request) [] db := by
  cases hrequest : call.request with
  | createFeed groupId payload => exact among_createFeed call.env caller groupId payload db
  | updateFeed groupId feedId payload =>
      exact among_updateFeed call.env caller groupId feedId payload db
  | _ =>
      rw [hrequest] at h
      cases h

/-! ### Runs -/

/-- The call is about to write an update whose parser column does not go with the other one as it is
now stored. -/
def Running.Overtaken (fromStr : String → Except String Value) (db : Database) (call : Running) :
    Prop :=
  call.rest.tag? = some (.update .externalSources) ∧ ∃ update ∈ call.request.feedUpdate,
    ∃ row ∈ db.externalSources.find? update.1, update.2.Clashes fromStr row

instance Running.decidableOvertaken (fromStr : String → Except String Value) (db : Database)
    (call : Running) : Decidable (call.Overtaken fromStr db) :=
  inferInstanceAs (Decidable (call.rest.tag? = some (.update .externalSources) ∧
    ∃ update ∈ call.request.feedUpdate, ∃ row ∈ db.externalSources.find? update.1,
      update.2.Clashes fromStr row))

/-- The next statement is such a write. -/
def Overlap.Overtaken (fromStr : String → Except String Value) (s : Overlap) : OverlapTurn → Prop
  | .arrive _ => False
  | .next i => ∃ call ∈ s.running[i]?, call.Overtaken fromStr s.db

instance Overlap.decidableOvertaken (fromStr : String → Except String Value) (s : Overlap)
    (turn : OverlapTurn) : Decidable (s.Overtaken fromStr turn) :=
  match turn with
  | .arrive _ => inferInstanceAs (Decidable False)
  | .next i => inferInstanceAs (Decidable (∃ call ∈ s.running[i]?, call.Overtaken fromStr s.db))

/-- Every call under way does to the feeds what it may. -/
def Overlap.Keeps (fromStr : String → Except String Value) (s : Overlap) : Prop :=
  ∀ call ∈ s.running, ∃ log,
    Prog.Among Anything (SavesFeed fromStr call.request) AnyEnd call.rest log s.db

/-- **One statement.**  It keeps the ages valid, and the configurations unless it is overtaken. -/
theorem SavesFeed.ages {request : Request} {db' : Database}
    (h : SavesFeed fromStr request log db db') (hdb : db.AllFeeds AgeValid) :
    db'.AllFeeds AgeValid := by
  intro row hrow
  cases h with
  | kept hkept => exact hdb row (hkept ▸ hrow)
  | inserted new _ hage hinsert =>
      rcases (Table.mem_insert? hinsert).mp hrow with hold | rfl
      · exact hdb row hold
      · exact hage
  | updated groupId feedId payload now _ _ hchecked hmodify =>
      rw [hmodify] at hrow
      obtain ⟨old, hold, rfl⟩ := List.mem_map.mp hrow
      split
      · exact ageValid_apply now hchecked (hdb old hold)
      · exact hdb old hold

theorem SavesFeed.configs {request : Request} {db' : Database}
    (h : SavesFeed fromStr request log db db') (hdb : db.AllFeeds (ConfigValid fromStr))
    (hclash : ∀ groupId feedId payload row, request = .updateFeed groupId feedId payload →
      log.getLast? = some (.update .externalSources) →
      db.externalSources.find? feedId = some row → ¬payload.Clashes fromStr row) :
    db'.AllFeeds (ConfigValid fromStr) := by
  intro row hrow
  cases h with
  | kept hkept => exact hdb row (hkept ▸ hrow)
  | inserted new hconfig _ hinsert =>
      rcases (Table.mem_insert? hinsert).mp hrow with hold | rfl
      · exact hdb row hold
      · exact hconfig
  | updated groupId feedId payload now hrequest htag hchecked hmodify =>
      rw [hmodify] at hrow
      obtain ⟨old, hold, rfl⟩ := List.mem_map.mp hrow
      split
      · rename_i hid
        have hfind : db.externalSources.find? feedId = some old :=
          Table.find?_eq_some_iff.mpr ⟨hold, hid⟩
        exact (configValid_apply now hchecked (hdb old hold)).mpr
          (hclash groupId feedId payload old hrequest htag hfind)
      · exact hdb old hold

/-- A call that has ended changes nothing. -/
theorem step_of_tag?_eq_none {rest : Handler Reply} (h : rest.tag? = none) :
    (rest.step db).2 = db := by
  cases rest with
  | done r => rfl
  | hang => rfl
  | stmt => cases h
  | txn => cases h

/-- The calls under way, the one with number `i` gone one statement on. -/
theorem Overlap.Keeps.next {s : Overlap} (h : s.Keeps fromStr) {i : ℕ} {call : Running}
    (hcall : s.running[i]? = some call) :
    (Overlap.Keeps fromStr
      { db := (call.rest.step s.db).2
        running := s.running.set i ⟨call.request, (call.rest.step s.db).1⟩ }) ∧
      ((call.rest.step s.db).2 = s.db ∨
        ∃ log, SavesFeed fromStr call.request (log ++ call.rest.tag?.toList) s.db
          (call.rest.step s.db).2) := by
  obtain ⟨log, hamong⟩ := h call (List.mem_of_getElem? hcall)
  obtain ⟨hnext, hsaves⟩ := hamong.step
  refine ⟨?_, hsaves.imp_right fun hsaves => ⟨log, hsaves⟩⟩
  intro other hother
  rcases List.mem_or_eq_of_mem_set hother with hother | rfl
  · obtain ⟨log', hother⟩ := h other hother
    exact ⟨log', hother.interfere (fun _ _ _ _ _ _ => trivial) trivial⟩
  · exact ⟨_, hnext⟩

theorem Overlap.Keeps.arrive {s : Overlap} (h : s.Keeps fromStr) {call : Call}
    (hsaves : call.request.savesFeed = true) (caller : ApiKey) :
    Overlap.Keeps fromStr
      { s with
        running := s.running ++
          [⟨call.request, handle call.fuel (call.env.validating fromStr) caller call.request⟩] } := by
  intro other hother
  rcases List.mem_append.mp hother with hother | hother
  · exact h other hother
  · obtain rfl := List.mem_singleton.mp hother
    exact ⟨[], among_handle hsaves caller s.db⟩

/-- **One step.** -/
theorem Overlap.Keeps.step {s s' : Overlap} {turn : OverlapTurn} (h : s.Keeps fromStr)
    (hstep : s.step fromStr turn = some s') :
    s'.Keeps fromStr ∧ (s.db.AllFeeds AgeValid → s'.db.AllFeeds AgeValid) ∧
      (¬s.Overtaken fromStr turn → s.db.AllFeeds (ConfigValid fromStr) →
        s'.db.AllFeeds (ConfigValid fromStr)) := by
  cases turn with
  | arrive call =>
      rw [Overlap.step] at hstep
      split at hstep
      · rename_i hsaves
        obtain ⟨caller, -, rfl⟩ := Option.map_eq_some_iff.mp hstep
        exact ⟨h.arrive hsaves caller, id, fun _ => id⟩
      · cases hstep
  | next i =>
      obtain ⟨call, hcall, rfl⟩ := Option.map_eq_some_iff.mp hstep
      obtain ⟨hkeeps, hsaves⟩ := h.next hcall
      refine ⟨hkeeps, ?_, ?_⟩
      · intro hdb
        rcases hsaves with hsame | ⟨log, hsaves⟩
        · rwa [hsame]
        · exact hsaves.ages hdb
      · intro hovertaken hdb
        rcases hsaves with hsame | ⟨log, hsaves⟩
        · rwa [hsame]
        · cases hnow : call.rest.tag? with
          | none => rwa [step_of_tag?_eq_none hnow]
          | some tag =>
              rw [hnow] at hsaves
              refine hsaves.configs hdb ?_
              intro groupId feedId payload row hrequest htag hfind hclash
              rw [Option.toList_some, List.getLast?_concat] at htag
              refine hovertaken ⟨call, hcall, hnow.trans htag, (feedId, payload), ?_, row, hfind,
                hclash⟩
              rw [hrequest]
              rfl

/-- **Every run** keeps the ages valid. -/
theorem ages_valid {s : Overlap} (hdb : db.AllFeeds AgeValid)
    (hrun : Reaches (Overlap.step fromStr) anyStep ⟨db, []⟩ s) : s.db.AllFeeds AgeValid := by
  have hinv : s.Keeps fromStr ∧ s.db.AllFeeds AgeValid := by
    refine hrun.invariant (P := fun s => s.Keeps fromStr ∧ s.db.AllFeeds AgeValid)
      ⟨by simp [Overlap.Keeps], hdb⟩ ?_
    intro s turn s' hs _ hstep
    obtain ⟨hkeeps, hages, -⟩ := hs.1.step hstep
    exact ⟨hkeeps, hages hs.2⟩
  exact hinv.2

/-- **Which runs keep every feed valid.**  In every interleaving of creations and updates in which no
update writes a parser column that does not go with the other one as it is then stored, every
`JSON_PATH` feed has a configuration its parser takes, and every age limit is positive. -/
theorem feeds_valid {s : Overlap}
    (hdb : db.AllFeeds fun row => ConfigValid fromStr row ∧ AgeValid row)
    (hrun : Reaches (Overlap.step fromStr) (fun s turn => ¬s.Overtaken fromStr turn) ⟨db, []⟩ s) :
    s.db.AllFeeds fun row => ConfigValid fromStr row ∧ AgeValid row := by
  have hages := ages_valid (fun row hrow => (hdb row hrow).2) (hrun.mono fun _ _ _ => trivial)
  have hinv : s.Keeps fromStr ∧ s.db.AllFeeds (ConfigValid fromStr) := by
    refine hrun.invariant (P := fun s => s.Keeps fromStr ∧ s.db.AllFeeds (ConfigValid fromStr))
      ⟨by simp [Overlap.Keeps], fun row hrow => (hdb row hrow).1⟩ ?_
    intro s turn s' hs hgood hstep
    obtain ⟨hkeeps, -, hconfigs⟩ := hs.1.step hstep
    exact ⟨hkeeps, hconfigs hgood hs.2⟩
  exact fun row hrow => ⟨hinv.2 row hrow, hages row hrow⟩

end Feeds

/-- A configuration that names the field `ip`. -/
def ipConfig : String := "\x7b\"ip\":\"$.ip\"\x7d"

/-- The reader of JSON texts, on that configuration and on texts that are no JSON. -/
def readIpConfig (text : String) : Except String Value :=
  if text = ipConfig then .ok (.object [("ip", .string "$.ip")])
  else .error "expected value at line 1 column 1"

/-- The Master makes group 4. -/
def groupCall : Call :=
  .plain 1 4 (.createDestinationGroup ⟨"group", "blocklist", "* * * * *", "upsert", true,
    false, []⟩)

/-- The Master adds feed 5, read line by line, with a configuration for later. -/
def feedCall : Call :=
  .plain 1 5 (.createFeed 4 ⟨"feed", "https://feed", "REGEX_LINE", some ipConfig, none, none⟩)

/-- The feed is to be read as JSON from now on. -/
def typeCall : Call :=
  .plain 1 6 (.updateFeed 4 5 ⟨none, none, some "JSON_PATH", none, none, none⟩)

/-- The configuration, of no use to a feed that is read line by line, is overwritten. -/
def configCall : Call :=
  .plain 1 7 (.updateFeed 4 5 ⟨none, none, none, some "unused", none, none⟩)

/-- The feed is added, then one call after the other is answered. -/
theorem feeds_valid_in_turn :
    ∃ db s, Reaches serve anyStep .fresh db ∧
      Reaches (Overlap.step readIpConfig) (fun s turn => ¬s.Overtaken readIpConfig turn)
        ⟨db, []⟩ s ∧ s.Finished ∧ (s.db.externalSources.find? 5).map (fun row => row.parserType) =
          some "JSON_PATH" ∧
      s.db.AllFeeds fun row => ConfigValid readIpConfig row ∧ AgeValid row := by
  have hrun : ((runEvents serve anyStep .fresh [groupCall]).bind fun db =>
      (runEvents (Overlap.step readIpConfig) (fun s turn => ¬s.Overtaken readIpConfig turn)
        ⟨db, []⟩
        [.arrive feedCall, .next 0, .next 0, .next 0, .next 0, .arrive typeCall, .next 1, .next 1,
          .next 1, .next 1, .arrive configCall, .next 2, .next 2]).map fun s =>
            decide (db.externalSources.rows = [] ∧ s.Finished ∧
              (s.db.externalSources.find? 5).map (fun row => row.parserType) =
                some "JSON_PATH")) = some true := by
    decide +kernel
  obtain ⟨db, hdb, hs⟩ := Option.bind_eq_some_iff.mp hrun
  obtain ⟨s, hs, hfacts⟩ := Option.map_eq_some_iff.mp hs
  obtain ⟨hempty, hfinished, htype⟩ := of_decide_eq_true hfacts
  have hreaches := reaches_of_runEvents hs
  have hstart : db.AllFeeds fun row => ConfigValid readIpConfig row ∧ AgeValid row := by
    rw [Database.AllFeeds, hempty]
    nofun
  exact ⟨db, s, reaches_of_runEvents hdb, hreaches, hfinished, htype,
    feeds_valid hstart hreaches⟩

/-- Both updates pass their check, and the feed is left a `JSON_PATH` feed with a configuration that
its parser refuses. -/
theorem overlapping_updates :
    ∃ db s, Reaches serve anyStep .fresh db ∧ db.externalSources.rows = [] ∧
      Reaches (Overlap.step readIpConfig) anyStep ⟨db, []⟩ s ∧ s.Finished ∧
      (∀ call ∈ s.running, call.rest.result?.map Except.isOk = some true) ∧
      ∃ row ∈ s.db.externalSources.rows, row.parserType = "JSON_PATH" ∧
        ¬Accepted readIpConfig row.parserConfigJson := by
  have hrun : ((runEvents serve anyStep .fresh [groupCall]).bind fun db =>
      (runEvents (Overlap.step readIpConfig) anyStep ⟨db, []⟩
        [.arrive feedCall, .next 0, .next 0, .next 0, .next 0, .arrive typeCall,
          .arrive configCall, .next 1, .next 1, .next 2, .next 2, .next 1, .next 1, .next 2,
          .next 2]).map fun s =>
            decide (db.externalSources.rows = [] ∧ s.Finished ∧
              (∀ call ∈ s.running, call.rest.result?.map Except.isOk = some true) ∧
              ∃ row ∈ s.db.externalSources.rows, row.parserType = "JSON_PATH" ∧
                ¬Accepted readIpConfig row.parserConfigJson)) = some true := by
    decide +kernel
  obtain ⟨db, hdb, hs⟩ := Option.bind_eq_some_iff.mp hrun
  obtain ⟨s, hs, hfacts⟩ := Option.map_eq_some_iff.mp hs
  obtain ⟨hempty, hfinished, hanswered, hbroken⟩ := of_decide_eq_true hfacts
  exact ⟨db, s, reaches_of_runEvents hdb, hempty, reaches_of_runEvents hs, hfinished, hanswered,
    hbroken⟩

end SimplyIpSync.Api
