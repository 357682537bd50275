import SimplyIpSync.Bogon
import SimplyIpSync.Jobs.TargetContent
import SimplyIpSync.Store

/-!
# External feed ingestion (`src/jobs/external_ingestion.rs`)

One run of a destination group: fetch every feed, filter each feed by its own rules, merge the
results into one list without repeats, and push the list to every target.  What a feed's fetch
returns is a parameter: a list of parsed records, an error text, or a task that panicked.
-/

namespace SimplyIpSync.Jobs.ExternalIngestion

open SimplyIpSync.Entities SimplyIpSync.Storage SimplyIpSync.Store SimplyIpSync.Client
open SimplyIpSync.Bogon SimplyIpSync.Jobs

variable {W : Type*}

/-! ### Feeds -/

/-- One entry a parser extracted. -/
structure ParsedRecord where
  address : String
  lastSeenAt : Option ℤ
  deriving DecidableEq, Repr

/-- How the spawned fetch of a feed ended. -/
inductive FetchOutcome
  | finished (records : Except String (List ParsedRecord))
  | panicked (joinErr : String)

/-- `FeedResult`. -/
structure FeedResult where
  feedName : String
  records : Except String (List ParsedRecord)

/-- `fetch_all_feeds_concurrently`: the results in the order of the feeds; a panicked task loses
the name of its feed. -/
def fetchAllFeedsConcurrently (feeds : List ExternalSource)
    (fetch : ExternalSource → FetchOutcome) : List FeedResult :=
  feeds.map fun feed =>
    match fetch feed with
    | .finished records => { feedName := feed.name, records := records }
    | .panicked joinErr =>
        { feedName := "(unknown feed)"
          records := .error ("feed fetch task panicked: " ++ joinErr) }

/-- Nanoseconds in a day. -/
def nanosPerDay : ℤ := 86400 * nanosPerSec

/-- `Utc::now() - Duration::days(days)`; `none` where the subtraction leaves the range of dates
and panics. -/
def cutoffFor (now : ℤ) (days : ℤ) : Option ℤ :=
  let cutoff := now - days * nanosPerDay
  if IsDateTimeSec (timestamp cutoff) then some cutoff else none

/-- `apply_temporal_filter`; `none` where it panics. -/
def applyTemporalFilter (now : ℤ) (records : List ParsedRecord) (maxAgeDays : Option ℤ) :
    Option (List ParsedRecord) :=
  match maxAgeDays with
  | none => some records
  | some days =>
      (cutoffFor now days).map fun cutoff =>
        records.filter fun r => r.lastSeenAt.all fun lastSeen => cutoff ≤ lastSeen

/-! ### Aggregation -/

/-- The accumulators of the merge loop; `seen` is the set of the members of `aggregated`. -/
structure Aggregate where
  aggregated : List String
  feedErrors : List String
  bogonsRemoved : ℕ
  deriving DecidableEq, Repr

/-- Push an address unless it was seen before. -/
def addAddress (aggregated : List String) (address : String) : List String :=
  if address ∈ aggregated then aggregated else aggregated ++ [address]

/-- The addresses a feed's records contribute, and the number its bogon filter removed. -/
def sanitizeFeed (parse : String → Option IpNetwork) (skipBogonFiltering : Bool)
    (records : List ParsedRecord) : List String × ℕ :=
  let addresses := records.map ParsedRecord.address
  if skipBogonFiltering then (addresses, 0) else sanitize parse addresses

/-- The body of the merge loop. -/
def mergeFeed (parse : String → Option IpNetwork) (group : DestinationGroup)
    (feeds : List ExternalSource) (now : ℤ) (acc : Aggregate) (result : FeedResult) :
    Option Aggregate :=
  match result.records with
  | .error e =>
      some { acc with feedErrors := acc.feedErrors ++ ["feed '" ++ result.feedName ++ "': " ++ e] }
  | .ok records =>
      -- the feed's row is looked up again by its name
      let feed := feeds.find? fun f => f.name = result.feedName
      let maxAgeDays := feed.bind ExternalSource.maxAgeDays
      let skipBogonFiltering :=
        (feed.bind ExternalSource.skipBogonFiltering).getD group.skipBogonFiltering
      (applyTemporalFilter now records maxAgeDays).map fun temporallyFiltered =>
        let sanitized := sanitizeFeed parse skipBogonFiltering temporallyFiltered
        { acc with
          aggregated := sanitized.1.foldl addAddress acc.aggregated
          bogonsRemoved := acc.bogonsRemoved + sanitized.2 }

/-- The merge loop; `clock i` is what the clock shows when the `i`-th result is filtered. -/
def mergeFeeds (parse : String → Option IpNetwork) (group : DestinationGroup)
    (feeds : List ExternalSource) (clock : ℕ → ℤ) :
    ℕ → List FeedResult → Aggregate → Option Aggregate
  | _, [], acc => some acc
  | i, result :: results, acc =>
      (mergeFeed parse group feeds (clock i) acc result).bind fun acc =>
        mergeFeeds parse group feeds clock (i + 1) results acc

/-- Fetch and merge every feed of the group; `none` where a temporal filter panics. -/
def aggregate (parse : String → Option IpNetwork) (group : DestinationGroup)
    (feeds : List ExternalSource) (fetch : ExternalSource → FetchOutcome) (clock : ℕ → ℤ) :
    Option Aggregate :=
  mergeFeeds parse group feeds clock 0 (fetchAllFeedsConcurrently feeds fetch) ⟨[], [], 0⟩

/-! ### The push and its summary -/

/-- An aggregated address as a batch record: the address and nothing else. -/
def toBatchRecordInput (address : String) : BatchRecordInput where
  targetAddress := address
  cause := none
  isDeleted := none
  createdAt := none
  updatedAt := none
  lastSeenAt := none
  deletedAt := none

/-- `base_mode`: an unknown mode is treated as `upsert`. -/
def baseMode (group : DestinationGroup) : BatchMode := (BatchMode.parse group.mode).getD .upsert

/-- The chunks every target is sent. -/
def pushedChunks (aggregated : List String) : List (List BatchRecordInput) :=
  (chunkRecords aggregated maxBatchSize).map (List.map toBatchRecordInput)

/-- The counters at the start of the target loop. -/
def initialTotals (feedErrors : List String) (targets : List PushTarget) : PushTotals where
  chunksSent := 0
  errors := feedErrors
  anySuccess := targets.isEmpty
  allSucceeded := true

/-- `status` at the end of `execute`. -/
def statusOf (allFeedsFailed : Bool) (totals : PushTotals) (itemsProcessed : ℕ) : JobStatus :=
  if allFeedsFailed then .failed
  else if totals.errors = [] then
    if itemsProcessed = 0 then .partialSuccess else .success
  else if totals.anySuccess then .partialSuccess
  else .failed

/-- The warning of a run whose feeds are all empty. -/
def noEntriesMessage : String :=
  "every feed in this group returned zero parseable entries; the feed(s) may be misconfigured, " ++
    "rate-limited, or returning an error/captive-portal page instead of real content"

/-- `error_parts`. -/
def errorParts (bogonsRemoved itemsProcessed : ℕ) (errors : List String) : List String :=
  (if 0 < bogonsRemoved then
    [toString bogonsRemoved ++ " bogon/private/reserved address(es) sanitized before push"]
  else []) ++
    (if itemsProcessed = 0 ∧ errors = [] then [noEntriesMessage] else []) ++ errors

/-- `execute`; `none` where the job panics before the push. -/
def execute (http : Http W) (parse : String → Option IpNetwork) (maxRetries : ℕ)
    (group : DestinationGroup) (feeds : List ExternalSource)
    (fetch : ExternalSource → FetchOutcome) (clock : ℕ → ℤ) (targets : List PushTarget) (w : W) :
    Option (JobSummary × W) :=
  (aggregate parse group feeds fetch clock).map fun agg =>
    let out := pushTargets http maxRetries (modeForChunkIndex (baseMode group))
      (pushedChunks agg.aggregated) targets (initialTotals agg.feedErrors targets) w
    let allFeedsFailed := !feeds.isEmpty && agg.feedErrors.length == feeds.length
    ({ status := statusOf allFeedsFailed out.1 agg.aggregated.length
       itemsProcessed := agg.aggregated.length
       chunksSent := out.1.chunksSent
       errorMessage := joinMessage
        (errorParts agg.bogonsRemoved agg.aggregated.length out.1.errors) }, out.2)

/-- The feeds of a group. -/
def feedsOf (db : Db) (groupId : Uuid) : List ExternalSource :=
  db.externalSources.rows.filter fun f => f.destinationGroupId = groupId

/-- The configured targets of a group, each with its vault if that still exists. -/
def targetsOf (db : Db) (group : DestinationGroup) : List PushTarget :=
  (db.destinationGroupVaultTargets.rows.filter fun r => r.destinationGroupId = group.id).map
    fun r =>
      { vaultId := r.vaultEndpointId
        groupName := r.targetGroupName.getD group.targetGroupName
        vault := db.vaultEndpoints.find? r.vaultEndpointId }

/-- `active.last_run_at = Set(Some(started_at))`. -/
def setLastRunAt (db : Db) (groupId : Uuid) (startedAt : ℤ) : Db :=
  { db with
    destinationGroups := db.destinationGroups.modify groupId
      (fun group => { group with lastRunAt := some startedAt }) fun _ => rfl }

/-- `run`, started at `startedAt`. -/
def run (http : Http W) (parse : String → Option IpNetwork) (maxRetries : ℕ)
    (fetch : ExternalSource → FetchOutcome) (clock : ℕ → ℤ) (startedAt : ℤ) (groupId : Uuid)
    (db : Db) (w : W) : Option (Except AppError JobSummary × Db × W) :=
  match db.destinationGroups.find? groupId with
  | none => some (.error .notFound, db, w)
  | some group =>
      (execute http parse maxRetries group (feedsOf db groupId) fetch clock (targetsOf db group)
        w).map fun (summary, w) =>
          let db := writeSyncLog db "EXTERNAL_FEED" groupId group.name summary startedAt
          (.ok summary, setLastRunAt db groupId startedAt, w)

/-! ### Failing feeds -/

/-- The feed gave no records: its fetch or parse failed, or its task panicked. -/
def FeedFails (fetch : ExternalSource → FetchOutcome) (feed : ExternalSource) : Prop :=
  ∀ records, fetch feed ≠ .finished (.ok records)

/-- The result of a feed is an error. -/
def FeedResult.isError (result : FeedResult) : Bool :=
  match result.records with
  | .ok _ => false
  | .error _ => true

/-- Merging a result adds an error exactly when the result is one. -/
theorem mergeFeed_feedErrors {parse : String → Option IpNetwork} {group : DestinationGroup}
    {feeds : List ExternalSource} {now : ℤ} {acc acc' : Aggregate} {result : FeedResult}
    (h : mergeFeed parse group feeds now acc result = some acc') :
    acc'.feedErrors.length = acc.feedErrors.length + if result.isError then 1 else 0 := by
  rw [mergeFeed] at h
  cases hrecords : result.records with
  | error e =>
      rw [hrecords] at h
      obtain rfl := Option.some.inj h
      simp [FeedResult.isError, hrecords]
  | ok records =>
      rw [hrecords] at h
      obtain ⟨kept, -, rfl⟩ := Option.map_eq_some_iff.mp h
      simp [FeedResult.isError, hrecords]

theorem mergeFeeds_feedErrors {parse : String → Option IpNetwork} {group : DestinationGroup}
    {feeds : List ExternalSource} {clock : ℕ → ℤ} {i : ℕ} {results : List FeedResult}
    {acc acc' : Aggregate} (h : mergeFeeds parse group feeds clock i results acc = some acc') :
    acc'.feedErrors.length = acc.feedErrors.length + results.countP FeedResult.isError := by
  induction results generalizing i acc with
  | nil =>
      obtain rfl := Option.some.inj h
      rfl
  | cons result results ih =>
      obtain ⟨mid, hmid, hrest⟩ := Option.bind_eq_some_iff.mp h
      rw [ih hrest, mergeFeed_feedErrors hmid, List.countP_cons]
      omega

/-- **A failed feed leaves an error.** -/
theorem feedErrors_ne_nil_of_feedFails {parse : String → Option IpNetwork}
    {group : DestinationGroup} {feeds : List ExternalSource}
    {fetch : ExternalSource → FetchOutcome} {clock : ℕ → ℤ} {agg : Aggregate}
    (h : aggregate parse group feeds fetch clock = some agg) {feed : ExternalSource}
    (hfeed : feed ∈ feeds) (hfails : FeedFails fetch feed) : agg.feedErrors ≠ [] := by
  have hcount := mergeFeeds_feedErrors h
  have hpos : 0 < (fetchAllFeedsConcurrently feeds fetch).countP FeedResult.isError := by
    rw [List.countP_pos_iff]
    refine ⟨_, List.mem_map_of_mem hfeed, ?_⟩
    cases hfetch : fetch feed with
    | panicked joinErr => rfl
    | finished records =>
        cases records with
        | error e => rfl
        | ok records => exact absurd hfetch (hfails records)
  intro hnil
  rw [hnil] at hcount
  simp only [List.length_nil] at hcount
  omega

end SimplyIpSync.Jobs.ExternalIngestion
