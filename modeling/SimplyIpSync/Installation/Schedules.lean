import SimplyIpSync.Installation.Service
import SimplyIpSync.Jobs.Fetch
import SimplyIpSync.Scheduler.Handle

/-!
# What is stored can be run (`src/scheduler.rs`, `src/api/`)

`upsert_source` and `upsert_task` log an expression that the scheduler refuses, and go on without a
job.  `validate_cron_expression` is there so that no such expression is stored.  A handler checks in
one moment and writes in another, only the columns that its body has, and a later `PATCH` may switch
on what has been inactive so far.

`every_row_runs` says that this is enough, however requests, starts and chores interleave.  It is
not for the configuration of a feed, which has to fit a parser that another update may have changed
(`SimplyIpSync.Api.FeedConfig`).
-/

namespace SimplyIpSync.Installation

open SimplyIpSync.Entities SimplyIpSync.Storage SimplyIpSync.Api
open SimplyIpSync.Reach SimplyIpSync.Scheduler SimplyIpSync.Canary SimplyIpSync.Crypto
open SimplyIpSync.Client (BatchMode)
open SimplyIpSync.Jobs.Fetch (forType)

variable (parse : String → Except String Unit)

/-- `validate_cron_expression`; `parse` is the parser of cron expressions, which the scheduler has
as well. -/
def validateCronExpression (expr : String) : Except String Unit :=
  if Trim.trimBy isWhitespace expr.toList = [] then .error "cron_schedule must not be empty"
  else parse (normalizeCron expr)

/-- The expression of the job that `upsert_source` or `upsert_task` adds for a row.  One that the
scheduler refuses is logged, and there is no job. -/
def registered (isActive : Bool) (cronSchedule : String) : Option String :=
  if isActive then
    match parse (normalizeCron cronSchedule) with
    | .error _ => none
    | .ok () => some (normalizeCron cronSchedule)
  else none

/-- The scheduler takes the expression. -/
def Schedulable (cronSchedule : String) : Prop := parse (normalizeCron cronSchedule) = .ok ()

/-- The requests are checked with this parser. -/
def Validates (env : Env) : Prop := env.validateCronExpression = validateCronExpression parse

/-- Every stored row has passed the checks of the handlers. -/
structure Checked (db : Database) : Prop where
  groups : ∀ group ∈ db.destinationGroups.rows,
    Schedulable parse group.cronSchedule ∧ (BatchMode.parse group.mode).isSome
  tasks : ∀ task ∈ db.vaultSyncTasks.rows,
    Schedulable parse task.cronSchedule ∧ task.mode = "upsert"
  feeds : ∀ feed ∈ db.externalSources.rows,
    (feed.parserType = "REGEX_LINE" ∨ feed.parserType = "JSON_PATH") ∧
      ∀ n ∈ feed.maxAgeDays, 0 < n

variable {parse} {env : Env} {m : Uuid} {caller : ApiKey} {db db' : Database} {aead : Aead}
  {s : Service}

/-! ### The checks -/

theorem registered_of_schedulable {cronSchedule : String} (h : Schedulable parse cronSchedule)
    (isActive : Bool) :
    registered parse isActive cronSchedule = activeCron isActive cronSchedule := by
  rw [Schedulable] at h
  rw [registered, activeCron, h]

theorem schedulable_of_checkCron (henv : Validates parse env) {expression : String}
    (h : checkCron env expression = .ok ()) : Schedulable parse expression := by
  rw [checkCron, henv, validateCronExpression] at h
  split at h
  · cases h
  · rename_i hok
    split at hok
    · cases hok
    · exact hok

/-- What a `PATCH` sends has been checked, what it leaves has been stored. -/
theorem of_checkField {P : String → Prop} {check : String → Except AppError Unit}
    (hcheck : ∀ value, check value = .ok () → P value) {sent : Option String}
    (h : checkField check sent = .ok ()) {stored : String} (hstored : P stored) :
    P (sent.getD stored) := by
  cases sent with
  | none => exact hstored
  | some value => exact hcheck value h

theorem isSome_of_validateMode {mode : String} (h : validateMode mode = .ok ()) :
    (BatchMode.parse mode).isSome := by
  rw [validateMode, require] at h
  split at h
  · assumption
  · cases h

theorem parserType_of_validateFeedParser {parserType : String} {config : Option String}
    (h : validateFeedParser env parserType config = .ok ()) :
    parserType = "REGEX_LINE" ∨ parserType = "JSON_PATH" := by
  rw [validateFeedParser] at h
  split at h
  · cases h
  · rename_i hknown
    rw [not_and_or, not_not, not_not] at hknown
    exact hknown

theorem positive_of_validateMaxAgeDays {maxAgeDays : Option ℤ}
    (h : validateMaxAgeDays maxAgeDays = .ok ()) : ∀ n ∈ maxAgeDays, 0 < n := by
  rintro n rfl
  rw [validateMaxAgeDays, require] at h
  split at h
  · rename_i hall
    simpa using hall
  · cases h

/-! ### Every write -/

/-- **A write stores what has been checked.**  What an update leaves as it is has been checked
before; the row that it writes need not be the one that its handler has read. -/
theorem Checked.write (h : Checked parse db) (henv : Validates parse env)
    (hwrite : Write m env caller db db') : Checked parse db' := by
  cases hwrite with
  | createGroup hmode hcron hinsert =>
      obtain ⟨rows, hrows, hdb⟩ := insertDestinationGroup_ok hinsert
      rw [hdb]
      refine { h with groups := ?_ }
      exact Table.forall_insertRow h.groups hrows
        ⟨schedulable_of_checkCron henv hcron, isSome_of_validateMode hmode⟩
  | @updateGroup id row rows payload hcron hmode hupdate =>
      obtain ⟨_, -, -, hdb⟩ := updateDestinationGroup_ok hupdate
      rw [hdb]
      refine { h with groups := ?_ }
      refine Table.forall_modifyRow (f := payload.applyTo env.now) (fun _ => rfl) h.groups ?_
      rintro r ⟨hr, hstored⟩
      constructor
      · exact of_checkField (fun _ => schedulable_of_checkCron henv) hcron hr
      · show (BatchMode.parse (payload.mode.getD r.mode)).isSome
        exact of_checkField (P := fun mode => (BatchMode.parse mode).isSome)
          (fun _ => isSome_of_validateMode) hmode hstored
  | stampGroup hupdate =>
      obtain ⟨_, -, -, hdb⟩ := updateDestinationGroup_ok hupdate
      rw [hdb]
      refine { h with groups := ?_ }
      refine Table.forall_modifyRow ?_ h.groups fun _ hr => hr
      exact fun _ => rfl
  | deleteGroup id =>
      exact
        { groups := fun r hr => h.groups r (Table.mem_deleteWhere.mp hr).1
          tasks := h.tasks
          feeds := fun r hr => h.feeds r (Table.mem_deleteWhere.mp hr).1 }
  | createFeed hparser hage hinsert =>
      obtain ⟨rows, hrows, hdb⟩ := insertExternalSource_ok hinsert
      rw [hdb]
      refine { h with feeds := ?_ }
      exact Table.forall_insertRow h.feeds hrows
        ⟨parserType_of_validateFeedParser hparser, positive_of_validateMaxAgeDays hage⟩
  | @updateFeed id row rows payload existing hparser hage hupdate =>
      obtain ⟨_, -, -, hdb⟩ := updateExternalSource_ok hupdate
      rw [hdb]
      refine { h with feeds := ?_ }
      refine Table.forall_modifyRow (f := payload.apply env.now) (fun _ => rfl) h.feeds ?_
      rintro r ⟨htype, hdays⟩
      constructor
      · have hknown := parserType_of_validateFeedParser hparser
        show payload.parserType.getD r.parserType = _ ∨ payload.parserType.getD r.parserType = _
        cases hpayload : payload.parserType with
        | none => exact htype
        | some parserType =>
            rw [hpayload] at hknown
            exact hknown
      · show ∀ n ∈ payload.maxAgeDays.or r.maxAgeDays, 0 < n
        intro n hn
        rcases Option.or_eq_some_iff.mp hn with hsent | ⟨-, hstored⟩
        · exact positive_of_validateMaxAgeDays hage n hsent
        · exact hdays n hstored
  | deleteFeed id =>
      exact { h with feeds := fun r hr => h.feeds r (Table.mem_deleteWhere.mp hr).1 }
  | createTask hcron hinsert =>
      obtain ⟨rows, hrows, hdb⟩ := insertVaultSyncTask_ok hinsert
      rw [hdb]
      refine { h with tasks := ?_ }
      exact Table.forall_insertRow h.tasks hrows ⟨schedulable_of_checkCron henv hcron, rfl⟩
  | @updateTask id row rows payload hcron hupdate =>
      obtain ⟨_, -, -, hdb⟩ := updateVaultSyncTask_ok hupdate
      rw [hdb]
      refine { h with tasks := ?_ }
      refine Table.forall_modifyRow (f := payload.applyTo env.now) (fun _ => rfl) h.tasks ?_
      rintro r ⟨hr, hmode⟩
      exact ⟨of_checkField (fun _ => schedulable_of_checkCron henv) hcron hr, hmode⟩
  | stampTask hupdate =>
      obtain ⟨_, -, -, hdb⟩ := updateVaultSyncTask_ok hupdate
      rw [hdb]
      refine { h with tasks := ?_ }
      refine Table.forall_modifyRow ?_ h.tasks fun _ hr => hr
      exact fun _ => rfl
  | deleteTask id =>
      exact { h with tasks := fun r hr => h.tasks r (Table.mem_deleteWhere.mp hr).1 }
  | deleteVault id =>
      exact { h with tasks := fun r hr => h.tasks r (Table.mem_deleteWhere.mp hr).1 }
  | _ => exact { h with }

/-! ### Every run -/

/-- **Every stored row can be run.**  Whatever processes start, serve, stop or break off, and
however their statements interleave, when all requests are checked with the parser of the scheduler:
a start registers a job for every active group and task that it finds, with its expression, and no
run meets a mode, a parser type or an age limit that it does not know. -/
theorem every_row_runs
    (hrun : Reaches (Service.step aead) (Brings (Validates parse)) .empty s) :
    (∀ group ∈ s.db.destinationGroups.rows,
      registered parse group.isActive group.cronSchedule =
          activeCron group.isActive group.cronSchedule ∧ (BatchMode.parse group.mode).isSome) ∧
      (∀ task ∈ s.db.vaultSyncTasks.rows,
        registered parse task.isActive task.cronSchedule =
          activeCron task.isActive task.cronSchedule ∧ task.mode = "upsert") ∧
      ∀ feed ∈ s.db.externalSources.rows,
        (∀ readers, ∃ parser, forType readers feed.parserType = .ok parser) ∧
          ∀ n ∈ feed.maxAgeDays, 0 < n := by
  have henv : Validates parse
      { Env.plain 0 with validateCronExpression := validateCronExpression parse } := rfl
  obtain ⟨hchecked, -⟩ := db_invariant_of_env (P := Checked parse) henv
    ⟨List.forall_mem_nil _, List.forall_mem_nil _, List.forall_mem_nil _⟩
    (fun l db db' _ _ h hboot => by
      cases hboot with
      | unchanged => exact h
      | created _ _ hinsert =>
          obtain ⟨_, -, hdb⟩ := insertApiKey_ok hinsert
          rw [hdb]
          exact { h with })
    (fun m setting env nonce caller db db' henv _ _ _ h hwrite =>
      h.write (show Validates parse (sealingEnv aead env setting nonce) from henv) hwrite)
    (fun db syncLogs auditLogs _ h => { h with })
    (hrun.mono fun s event hbrings => ⟨admits_all s event, hbrings⟩)
  refine ⟨fun group hgroup => ?_, fun task htask => ?_, fun feed hfeed => ?_⟩
  · obtain ⟨hcron, hmode⟩ := hchecked.groups group hgroup
    exact ⟨registered_of_schedulable hcron _, hmode⟩
  · obtain ⟨hcron, hmode⟩ := hchecked.tasks task htask
    exact ⟨registered_of_schedulable hcron _, hmode⟩
  · obtain ⟨htype, hdays⟩ := hchecked.feeds feed hfeed
    refine ⟨fun readers => ?_, hdays⟩
    rw [forType]
    rcases htype with hregex | hjson
    · rw [if_pos hregex]
      exact ⟨_, rfl⟩
    · rw [hjson, if_neg (by decide), if_pos rfl]
      exact ⟨_, rfl⟩

/-- A scheduler that wants six fields. -/
def sixFields (expr : String) : Except String Unit :=
  if fieldCount expr = 6 then .ok () else .error "six fields are required"

/-- `asking`, where the request is checked with `sixFields`. -/
def askingChecked (i : ℕ) (newId : Uuid) (request : Api.Request) : List Service.Event :=
  let env := { Env.plain newId with validateCronExpression := validateCronExpression sixFields }
  .arrive 0 { Call.plain 1 newId request with env } (List.replicate 24 0) ::
    List.replicate 8 (.advance i)

/-- A group is created with five fields, and is switched on later. -/
def activation : List Service.Event :=
  opening ++
    askingChecked 0 3 (.createDestinationGroup
      ⟨"group", "blocklist", "0 0 * * *", "upsert", false, false, []⟩) ++
    askingChecked 1 4 (.updateDestinationGroup 3 ⟨none, none, none, none, some true, none, none⟩)

theorem brings_activation :
    ∀ event ∈ activation, ∀ s, anyStep s event → Brings (Validates sixFields) s event := by
  intro event hevent s _
  simp only [activation, opening, askingChecked, List.mem_append, List.mem_cons,
    List.mem_replicate, List.not_mem_nil, or_false] at hevent
  rcases hevent with (((rfl | ⟨-, rfl⟩) | rfl) | rfl | ⟨-, rfl⟩) | rfl | ⟨-, rfl⟩
  all_goals trivial

/-- The job of the group runs at second zero. -/
theorem every_row_runs_after_activation :
    ∃ s, Reaches (Service.step openAead) (Brings (Validates sixFields)) .empty s ∧
      (s.db.destinationGroups.rows.map fun group => activeCron group.isActive group.cronSchedule) =
        [some "0 0 0 * * *"] ∧
      ∀ group ∈ s.db.destinationGroups.rows,
        registered sixFields group.isActive group.cronSchedule =
          activeCron group.isActive group.cronSchedule := by
  have hrun : (runEvents (Service.step openAead) anyStep .empty activation).map (fun s =>
      s.db.destinationGroups.rows.map fun group =>
        activeCron group.isActive group.cronSchedule) = some [some "0 0 0 * * *"] := by
    decide +kernel
  obtain ⟨s, hs, hrows⟩ := Option.map_eq_some_iff.mp hrun
  have hreaches := reaches_of_runEvents_of_forall hs brings_activation
  exact ⟨s, hreaches, hrows, fun group hgroup => ((every_row_runs hreaches).1 group hgroup).1⟩

end SimplyIpSync.Installation
