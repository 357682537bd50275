import SimplyIpSync.Jobs.Aggregation
import SimplyIpSync.Jobs.Fetch
import SimplyIpSync.Jobs.FullReplace

/-!
# From the feeds to a vault

Runs of destination groups one after the other, each with whatever its feeds serve and whatever the
vaults answer, as a target of all of them sees it.  Whatever happens, an address comes to be live
there only because a feed named it (`Wanted`); and a successful run of a replacing group leaves
exactly the addresses that are wanted then, whatever the runs before it left behind.
-/

namespace SimplyIpSync.Jobs.EndToEnd

open SimplyIpSync.Entities SimplyIpSync.Storage SimplyIpSync.Store SimplyIpSync.Client
open SimplyIpSync.Bogon SimplyIpSync.Net SimplyIpSync.Sanitize SimplyIpSync.Parsers
open SimplyIpSync.LiveSet SimplyIpSync.Jobs SimplyIpSync.Jobs.Fetch SimplyIpSync.Jobs.Dedup
open SimplyIpSync.Jobs.ExternalIngestion SimplyIpSync.Jobs.Aggregation

/-! ### What the feeds want -/

/-- The host of the feed says the network. -/
def FeedSays (env : Env) (fates : ExternalSource → Fate) (feed : ExternalSource) (net : IpNetwork)
    (seen : Option ℤ) : Prop :=
  ∃ host, fates feed = .hosted host ∧
    Says env host feed.sourceUrl feed.parserType feed.parserConfigJson net seen

/-- No address of the network lies in a reserved range. -/
def Clear (net : IpNetwork) : Prop :=
  ∀ r ∈ reservedRanges, Disjoint (Sanitize.addresses net) (Sanitize.addresses r)

/-- A feed of the group says the network, not too long ago for its age limit, and the network is
clear of the reserved ranges or the feed is not filtered. -/
def Wanted (env : Env) (fates : ExternalSource → Fate) (group : DestinationGroup)
    (feeds : List ExternalSource) (reading : ExternalSource → ℤ) (net : IpNetwork) : Prop :=
  ∃ feed ∈ feeds, ∃ seen, FeedSays env fates feed net seen ∧
    (∀ days ∈ feed.maxAgeDays, ∀ lastSeen ∈ seen,
      reading feed - days * nanosPerDay ≤ lastSeen) ∧
    (skips group feed = false → Clear net)

variable {env : Env} {fates : ExternalSource → Fate} {group : DestinationGroup}
  {feed : ExternalSource} {net : IpNetwork}

theorem parseEntry_recordText (net : IpNetwork) : parseEntry (recordText net) = some net := by
  have hreads := denotes_showNormalized net
  rw [RegexLine.denotes_eq, trimText_showNormalized] at hreads
  rwa [parseEntry, recordText, String.toList_ofList]

theorem routable_recordText : Routable parseEntry (recordText net) ↔ Clear net := by
  rw [Routable]
  simp only [parseEntry_recordText, Option.some.injEq, exists_eq_left']
  constructor
  · intro h r hr
    by_cases hfamily : family r = family net
    · exact h r hr hfamily
    · exact disjoint_of_family_ne (Ne.symm hfamily)
  · exact fun h r hr _ => h r hr

theorem recordsOf_fetchOutcome {records : List ParsedRecord} :
    recordsOf (fetchOutcome env fates) feed = some records ↔
      ∃ host, fates feed = .hosted host ∧
        fetchAndParse env host feed.sourceUrl feed.parserType feed.parserConfigJson =
          .ok records := by
  rw [recordsOf, fetchOutcome]
  cases fates feed with
  | panicked joinErr => simp
  | hosted host =>
      simp only [Fate.hosted.injEq, exists_eq_left']
      cases fetchAndParse env host feed.sourceUrl feed.parserType feed.parserConfigJson with
      | error e => simp
      | ok found => simp

/-- **What a feed lets through** is what it says, filtered. -/
theorem feedLets_iff {now : ℤ} {a : String} :
    FeedLets parseEntry group (fetchOutcome env fates) feed now a ↔
      ∃ net seen, FeedSays env fates feed net seen ∧
        (∀ days ∈ feed.maxAgeDays, ∀ lastSeen ∈ seen, now - days * nanosPerDay ≤ lastSeen) ∧
        (skips group feed = false → Clear net) ∧ a = recordText net := by
  constructor
  · rintro ⟨records, hrecords, r, hr, rfl, hcurrent, hroutable⟩
    obtain ⟨host, hhost, hfetch⟩ := recordsOf_fetchOutcome.mp hrecords
    obtain ⟨net, hsays, haddress⟩ := (mem_fetchAndParse hfetch).mp hr
    rw [haddress] at hroutable
    exact ⟨net, r.lastSeenAt, ⟨host, hhost, hsays⟩, hcurrent,
      fun hskip => routable_recordText.mp (hroutable hskip), haddress⟩
  · rintro ⟨net, seen, ⟨host, hhost, hsays⟩, hcurrent, hclear, rfl⟩
    obtain ⟨records, hfetch⟩ := exists_fetchAndParse_of_says hsays
    have hr : (⟨recordText net, seen⟩ : ParsedRecord) ∈ records :=
      (mem_fetchAndParse hfetch).mpr ⟨net, hsays, rfl⟩
    exact ⟨records, recordsOf_fetchOutcome.mpr ⟨host, hhost, hfetch⟩, _, hr, rfl, hcurrent,
      fun hskip => routable_recordText.mpr (hclear hskip)⟩

theorem someFeedLets_iff {feeds : List ExternalSource} {reading : ExternalSource → ℤ} {a : String} :
    SomeFeedLets parseEntry group (fetchOutcome env fates) reading feeds a ↔
      ∃ net, Wanted env fates group feeds reading net ∧ a = recordText net := by
  simp only [SomeFeedLets, feedLets_iff, Wanted]
  constructor
  · rintro ⟨feed, hfeed, net, seen, hsays, hcurrent, hclear, rfl⟩
    exact ⟨net, ⟨feed, hfeed, seen, hsays, hcurrent, hclear⟩, rfl⟩
  · rintro ⟨net, ⟨feed, hfeed, seen, hsays, hcurrent, hclear⟩, rfl⟩
    exact ⟨feed, hfeed, net, seen, hsays, hcurrent, hclear, rfl⟩

/-! ### What is sent -/

section Sent

variable {W : Type*} {http : Http W} {maxRetries : ℕ} {endpoint : VaultEndpoint}
  {groupName : String} {w w' : W} {trace : List Attempt}

/-- Every attempt carries records of the queue, whatever its mode. -/
theorem drained_sends {queue : List Chunk} {aggregate : BatchRecordsResponse}
    {result : Except ClientError BatchRecordsResponse}
    (h : Drained http maxRetries endpoint groupName queue aggregate w trace result w') :
    ∀ a ∈ trace, ∀ r ∈ a.records, r ∈ queueRecords queue := by
  have hfirst : ∀ {chunk mode queue answers},
      ∀ a ∈ attemptsAt endpoint groupName chunk mode answers,
        ∀ r ∈ a.records, r ∈ queueRecords ((chunk, mode) :: queue) := by
    intro chunk mode queue answers a ha r hr
    obtain ⟨-, -, hrecords, -⟩ := mem_attemptsAt ha
    rw [queueRecords_cons, ← hrecords]
    exact List.mem_append_left _ hr
  induction h with
  | empty => simp
  | accept _ _ ih =>
      intro a ha r hr
      rcases List.mem_append.mp ha with ha | ha
      · exact hfirst a ha r hr
      · rw [queueRecords_cons]
        exact List.mem_append_right _ (ih a ha r hr)
  | split _ _ _ _ ih =>
      intro a ha r hr
      rcases List.mem_append.mp ha with ha | ha
      · exact hfirst a ha r hr
      · have hmem := ih a ha r hr
        rwa [queueRecords_split] at hmem
  | fail _ _ => exact hfirst

theorem chunksPushed_sends {modeAt : ℕ → BatchMode} {index : ℕ}
    {chunks : List (List BatchRecordInput)} {out : ℕ × Option ClientError}
    (h : ChunksPushed http maxRetries endpoint groupName modeAt index chunks w trace out w') :
    ∀ a ∈ trace, ∀ r ∈ a.records, r ∈ chunks.flatten := by
  have hone : ∀ {chunk : List BatchRecordInput} {mode : BatchMode} {chunks r},
      r ∈ queueRecords [(chunk, mode)] → r ∈ (chunk :: chunks).flatten := by
    intro chunk mode chunks r hr
    rw [queueRecords_cons, queueRecords_nil, List.append_nil] at hr
    rw [List.flatten_cons]
    exact List.mem_append_left _ hr
  induction h with
  | done => simp
  | next htrace _ ih =>
      intro a ha r hr
      rcases List.mem_append.mp ha with ha | ha
      · exact hone (drained_sends htrace a ha r hr)
      · rw [List.flatten_cons]
        exact List.mem_append_right _ (ih a ha r hr)
  | stop htrace => exact fun a ha r hr => hone (drained_sends htrace a ha r hr)

theorem targetPushed_sends {modeAt : ℕ → BatchMode} {chunks : List (List BatchRecordInput)}
    {target : PushTarget} {outcome : TargetOutcome}
    (h : TargetPushed http maxRetries modeAt chunks target w trace outcome w') :
    ∀ a ∈ trace, ∀ r ∈ a.records, r ∈ chunks.flatten := by
  cases h with
  | missing _ => simp
  | pushed _ hpushed => exact chunksPushed_sends hpushed

/-- A live address was live before, or was written. -/
theorem mem_liveAfter {prior : Finset String} {done : List Attempt} {a : String}
    (h : a ∈ liveAfter prior done) :
    a ∈ prior ∨ ∃ attempt ∈ done, a ∈ Jobs.addresses attempt.records := by
  induction done generalizing prior with
  | nil => exact .inl h
  | cons first done ih =>
      rcases ih h with hmem | ⟨attempt, hattempt, hmem⟩
      · have hwrite : a ∈ prior ∨ a ∈ Jobs.addresses first.records := by
          cases hmode : first.mode with
          | upsert => simpa [hmode, batchWrite] using hmem
          | fullReplace => exact .inr (by simpa [hmode, batchWrite] using hmem)
        exact hwrite.imp_right fun hfirst => ⟨first, List.mem_cons_self, hfirst⟩
      · exact .inr ⟨attempt, List.mem_cons_of_mem _ hattempt, hmem⟩

end Sent

/-! ### Runs at a vault -/

/-- A finished run of some group with this group of this vault among its targets, and the requests
to the vault that took effect.  The names of feeds are unique in the table. -/
structure Execution (W : Type*) (env : Env) (vaultId : Uuid) (groupName : String) where
  http : Http W
  fates : ExternalSource → Fate
  clock : ℕ → ℤ
  startedAt : ℤ
  db : Db
  group : DestinationGroup
  world : W
  summary : JobSummary
  db' : Db
  world' : W
  attempts : List Attempt
  done : List Attempt
  group_found : db.destinationGroups.find? group.id = some group
  names_nodup : ((feedsOf db group.id).map ExternalSource.name).Nodup
  target_found : ∃ target ∈ targetsOf db group,
    target.vaultId = vaultId ∧ target.groupName = groupName
  ran : run (journaled http) parseEntry env.maxRetries (fetchOutcome env fates) clock startedAt
    group.id db (world, []) = some (.ok summary, db', world', attempts)
  applied : Applied (attemptsToVault vaultId attempts) done

section Runs

variable {W : Type*} {vaultId : Uuid} {groupName : String}

/-- The feeds want the address in this run. -/
def Execution.Wants (r : Execution W env vaultId groupName) (a : String) : Prop :=
  ∃ net, Wanted env r.fates r.group (feedsOf r.db r.group.id)
    (readingOf (feedsOf r.db r.group.id) r.clock) net ∧ a = recordText net

/-- The live addresses of the group of the vault after some runs. -/
def liveAfterRuns (prior : Finset String) (runs : List (Execution W env vaultId groupName)) :
    Finset String :=
  runs.foldl (fun live r => liveAfter live r.done) prior

/-- **A run aggregates what its feeds want.** -/
theorem Execution.finished (r : Execution W env vaultId groupName) :
    ∃ agg totals, Finished r.http parseEntry env.maxRetries (fetchOutcome env r.fates) r.clock r.db
        r.group r.summary r.attempts agg totals ∧
      ∀ a, a ∈ agg.aggregated ↔ r.Wants a := by
  obtain ⟨agg, totals, hfinished⟩ := run_finished r.group_found r.ran
  refine ⟨agg, totals, hfinished, fun a => ?_⟩
  rcases aggregate_cases parseEntry r.group (fetchOutcome env r.fates) r.names_nodup
      (reads_readingOf r.names_nodup r.clock) with ⟨-, hnone⟩ | ⟨-, agg', hagg', hunion⟩
  · rw [hfinished.aggregate_eq] at hnone
    cases hnone
  · rw [hfinished.aggregate_eq] at hagg'
    obtain rfl := Option.some.inj hagg'
    rw [hunion.mem_iff, someFeedLets_iff, Execution.Wants]

/-- Whatever becomes of a run, it makes no address live that is not wanted. -/
theorem Execution.live_cases (r : Execution W env vaultId groupName) {prior : Finset String}
    {a : String} (h : a ∈ liveAfter prior r.done) : a ∈ prior ∨ r.Wants a := by
  refine (mem_liveAfter h).imp_right ?_
  rintro ⟨attempt, hattempt, ha⟩
  obtain ⟨agg, totals, hfinished, hwants⟩ := r.finished
  obtain ⟨target, htarget, hvault, -⟩ := r.target_found
  obtain ⟨outcome, w₀, w₁, hpushed⟩ := hfinished.target target htarget
  rw [hvault] at hpushed
  obtain ⟨record, hrecord, rfl⟩ := List.mem_map.mp ha
  have hsent :=
    targetPushed_sends hpushed attempt (r.applied.subset attempt hattempt) record hrecord
  rw [← hwants, ← addresses_flatten_pushedChunks agg.aggregated]
  exact List.mem_map_of_mem hsent

theorem baseMode_of_ne (h : group.mode ≠ "full_replace") : baseMode group = .upsert := by
  rw [baseMode]
  generalize group.mode = mode at h
  rw [BatchMode.parse.eq_def]
  split
  · rfl
  · exact absurd rfl h
  · rfl

/-- A target that took everything in another mode holds the aggregated addresses besides what it
held before. -/
theorem liveAfter_upsert_of_tookEverything {http : Http W} {maxRetries : ℕ}
    {fetch : ExternalSource → FetchOutcome} {clock : ℕ → ℤ} {db : Db} {summary : JobSummary}
    {attempts : List Attempt} {agg : Aggregate} {totals : PushTotals}
    (h : Finished http parseEntry maxRetries fetch clock db group summary attempts agg totals)
    (hmode : baseMode group = .upsert) {target : PushTarget} (htarget : target ∈ targetsOf db group)
    (htook : TookEverything (pushedChunks agg.aggregated) attempts target) (prior : Finset String)
    {done : List Attempt} (hdone : Applied (attemptsToVault target.vaultId attempts) done) :
    liveAfter prior done = prior ∪ agg.aggregated.toFinset := by
  obtain ⟨outcome, w₀, w₁, hpushed⟩ := h.target target htarget
  have hcomplete : outcome.isComplete :=
    (hpushed.complete_iff (pushedChunks_ne_nil _)).mpr htook
  rw [hmode] at hpushed
  generalize attemptsToVault target.vaultId attempts = trace at hpushed hdone
  cases hpushed with
  | missing _ => simp [TargetOutcome.isComplete] at hcomplete
  | @pushed vault _ _ _ error _ _ hpushedChunks =>
      have hnone : error = none := by
        cases error with
        | none => rfl
        | some e => simp [TargetOutcome.isComplete] at hcomplete
      have hup : ∀ i, 0 ≤ i → modeForChunkIndex .upsert i = .upsert := by
        intro i _
        rw [modeForChunkIndex, ite_self]
      rw [ChunksPushed.liveAfter_upsert hpushedChunks hup hnone hdone,
        addresses_flatten_pushedChunks]

/-- **A successful run** leaves what is wanted, and in a group that does not replace what was live
before. -/
theorem Execution.live_of_success (r : Execution W env vaultId groupName)
    (hsuccess : r.summary.status = .success) (prior : Finset String) (a : String) :
    a ∈ liveAfter prior r.done ↔
      r.Wants a ∨ (r.group.mode ≠ "full_replace" ∧ a ∈ prior) := by
  obtain ⟨agg, totals, hfinished, hwants⟩ := r.finished
  obtain ⟨hne, -, htook⟩ := hfinished.of_success hsuccess
  obtain ⟨target, htarget, hvault, -⟩ := r.target_found
  have hdone : Applied (attemptsToVault target.vaultId r.attempts) r.done := hvault ▸ r.applied
  by_cases hmode : r.group.mode = "full_replace"
  · have hbase : baseMode r.group = .fullReplace := by
      rw [baseMode, hmode]
      rfl
    rw [hfinished.liveAfter_of_tookEverything hbase htarget (htook target htarget) hne prior hdone,
      List.mem_toFinset, hwants]
    simp [hmode]
  · rw [liveAfter_upsert_of_tookEverything hfinished (baseMode_of_ne hmode) htarget
      (htook target htarget) prior hdone, Finset.mem_union, List.mem_toFinset, hwants]
    simp only [ne_eq, hmode, not_false_eq_true, true_and]
    exact or_comm

/-- **A vault holds what the feeds say.**  After any runs of any groups at a vault, with any answers
of the feeds and of the vaults, an address is live only if it was before or some run wanted it; and
after a run that was a success the wanted addresses are live, all of them, and with them nothing if
the group replaces, or else what was live before the run. -/
theorem vault_holds_what_feeds_say (prior : Finset String)
    (runs : List (Execution W env vaultId groupName)) :
    (∀ a ∈ liveAfterRuns prior runs, a ∈ prior ∨ ∃ r ∈ runs, r.Wants a) ∧
      ∀ earlier r, runs = earlier ++ [r] → r.summary.status = .success →
        ∀ a, a ∈ liveAfterRuns prior runs ↔
          r.Wants a ∨ (r.group.mode ≠ "full_replace" ∧ a ∈ liveAfterRuns prior earlier) := by
  constructor
  · induction runs generalizing prior with
    | nil => exact fun a ha => .inl ha
    | cons r runs ih =>
        intro a ha
        rcases ih (liveAfter prior r.done) a ha with hmem | ⟨later, hlater, hwants⟩
        · exact (r.live_cases hmem).imp_right fun hwants => ⟨r, List.mem_cons_self, hwants⟩
        · exact .inr ⟨later, List.mem_cons_of_mem _ hlater, hwants⟩
  · rintro earlier r rfl hsuccess a
    have hlast : liveAfterRuns prior (earlier ++ [r]) =
        liveAfter (liveAfterRuns prior earlier) r.done := List.foldl_append
    rw [hlast]
    exact r.live_of_success hsuccess _ a

end Runs

/-! ### A run of two feeds -/

/-- No feed here is JSON or an archive. -/
def listEnv : Env where
  readers :=
    { fromStr := fun _ => .error ""
      fromSlice := fun _ => .error ""
      parseFromRfc3339 := fun _ => none
      parseFromStr := fun _ => none }
  zip _ := .error ""
  maxRetries := 3
  maxDecompressedBytes := 1000

/-- The host of `A` is busy at first and then sends an address and a private one in two chunks; the
host of `B` sends an address. -/
def twoHosts (feed : ExternalSource) : Fate :=
  if feed.name = "A" then
    .hosted fun _ n =>
      if n = 0 then .response 503 "503 Service Unavailable" []
      else .response 200 "200 OK" [.ok (Text.utf8 "8.8.8.8\n10.0".toList),
        .ok (Text.utf8 ".0.1 # office\n".toList)]
  else .hosted fun _ _ => .response 200 "200 OK" [.ok (Text.utf8 "1.1.1.1\n".toList)]

/-- The two addresses are pushed one by one, and replace what was there. -/
theorem vault_holds_what_feeds_say_two :
    ∃ r : Execution ℕ listEnv 2 "ban", r.summary.status = .success ∧
      r.group.mode = "full_replace" ∧ liveAfterRuns {"9.9.9.9"} [r] = {"8.8.8.8", "1.1.1.1"} ∧
      ∀ a, r.Wants a ↔ a = "8.8.8.8" ∨ a = "1.1.1.1" := by
  have hvalue : ((run (journaled oneAtATime) parseEntry 3 (fetchOutcome listEnv twoHosts)
      (fun _ => 0) 1000 5 twoFeedDb (0, [])).bind fun out => out.1.toOption.map fun summary =>
        (summary.status, decide (liveAfter {"9.9.9.9"} (accepted (attemptsToVault 2 out.2.2.2)) =
          {"8.8.8.8", "1.1.1.1"}))) = some (.success, true) := by
    decide +kernel
  obtain ⟨⟨result, db', w', attempts⟩, hrun, hresult⟩ := Option.bind_eq_some_iff.mp hvalue
  cases result with
  | error e => cases hresult
  | ok summary =>
      simp only [Except.toOption, Option.map_some, Option.some.injEq, Prod.mk.injEq,
        decide_eq_true_eq] at hresult
      obtain ⟨hstatus, hlive⟩ := hresult
      let r : Execution ℕ listEnv 2 "ban" :=
        { http := oneAtATime
          fates := twoHosts
          clock := fun _ => 0
          startedAt := 1000
          db := twoFeedDb
          group := perimeterGroup
          world := 0
          summary := summary
          db' := db'
          world' := w'
          attempts := attempts
          done := accepted (attemptsToVault 2 attempts)
          group_found := by decide
          names_nodup := by decide
          target_found := ⟨_, List.mem_singleton.mpr rfl, rfl, rfl⟩
          ran := hrun
          applied := applied_accepted _ }
      have hexact := (vault_holds_what_feeds_say {"9.9.9.9"} [r]).2 [] r rfl hstatus
      have hlast : liveAfterRuns {"9.9.9.9"} [r] = {"8.8.8.8", "1.1.1.1"} := hlive
      refine ⟨r, hstatus, rfl, hlast, fun a => ?_⟩
      have ha := hexact a
      rw [hlast, Finset.mem_insert, Finset.mem_singleton] at ha
      rw [ha]
      exact ⟨.inl, fun h => h.resolve_right fun hno => hno.1 rfl⟩

end SimplyIpSync.Jobs.EndToEnd
