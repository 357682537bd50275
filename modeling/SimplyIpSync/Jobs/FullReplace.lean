import SimplyIpSync.Jobs.ExternalIngestion

/-!
# Runs in `full_replace` mode

What a run of a destination group in `full_replace` mode does to the live addresses of its targets:
a successful one leaves exactly the aggregated set, one that stops midway leaves what was accepted
so far, and one in which feeds fail replaces by what the other feeds let through.
-/

namespace SimplyIpSync.Jobs.ExternalIngestion

open SimplyIpSync.Entities SimplyIpSync.Storage SimplyIpSync.Store SimplyIpSync.Client
open SimplyIpSync.Bogon SimplyIpSync.Jobs

variable {W : Type*}

/-! ### The list that is pushed -/

theorem addresses_flatten_pushedChunks (aggregated : List String) :
    addresses (pushedChunks aggregated).flatten = aggregated := by
  have hmap : (pushedChunks aggregated).flatten =
      ((chunkRecords aggregated maxBatchSize).flatten).map toBatchRecordInput := by
    rw [pushedChunks, List.map_flatten]
  rw [hmap, flatten_chunkRecords (by decide), addresses, List.map_map]
  exact List.map_id aggregated

theorem pushedChunks_ne_nil (aggregated : List String) :
    ∀ chunk ∈ pushedChunks aggregated, chunk ≠ [] := by
  intro chunk hchunk
  obtain ⟨part, hpart, rfl⟩ := List.mem_map.mp hchunk
  intro hnil
  exact ne_nil_of_mem_chunkRecords hpart (List.map_eq_nil_iff.mp hnil)

theorem pushedChunks_eq_nil_iff (aggregated : List String) :
    pushedChunks aggregated = [] ↔ aggregated = [] := by
  constructor
  · intro h
    rw [← addresses_flatten_pushedChunks aggregated, h]
    rfl
  · rintro rfl
    decide +kernel

theorem targetsOf_distinct (db : Db) (group : DestinationGroup) :
    DistinctTargets (targetsOf db group) where
  nodup := by
    have hkeys := db.destinationGroupVaultTargets.nodup
    have hrows : ((db.destinationGroupVaultTargets.rows.filter
        fun r => r.destinationGroupId = group.id).map
        fun r => (r.destinationGroupId, r.vaultEndpointId)).Nodup :=
      hkeys.sublist (List.filter_sublist.map _)
    rw [targetsOf, List.map_map]
    refine List.Nodup.map_on ?_ (List.Nodup.of_map _ hrows)
    intro r hr s hs hsame
    have hr' : r.destinationGroupId = group.id := by simpa using (List.mem_filter.mp hr).2
    have hs' : s.destinationGroupId = group.id := by simpa using (List.mem_filter.mp hs).2
    have hpair : (r.destinationGroupId, r.vaultEndpointId) =
        (s.destinationGroupId, s.vaultEndpointId) :=
      Prod.ext (hr'.trans hs'.symm) hsame
    exact List.inj_on_of_nodup_map hrows hr hs hpair
  vault_id := by
    intro target htarget vault hvault
    obtain ⟨r, -, rfl⟩ := List.mem_map.mp htarget
    exact Table.key_of_find? hvault

/-! ### One run -/

/-- What a finished run consists of: the aggregate, the push with its exact totals, and the status
computed from them. -/
structure Finished (http : Http W) (parse : String → Option IpNetwork) (maxRetries : ℕ)
    (fetch : ExternalSource → FetchOutcome) (clock : ℕ → ℤ) (db : Db) (group : DestinationGroup)
    (summary : JobSummary) (attempts : List Attempt) (agg : Aggregate) (totals : PushTotals) :
    Prop where
  aggregate_eq : aggregate parse group (feedsOf db group.id) fetch clock = some agg
  pushed : PushExact (modeForChunkIndex (baseMode group)) (pushedChunks agg.aggregated)
    (targetsOf db group) (initialTotals agg.feedErrors (targetsOf db group)) totals attempts
  status_eq : summary.status = statusOf
    (!(feedsOf db group.id).isEmpty && agg.feedErrors.length == (feedsOf db group.id).length)
    totals agg.aggregated.length
  target : ∀ target ∈ targetsOf db group, ∃ outcome w₀ w₁,
    TargetPushed http maxRetries (modeForChunkIndex (baseMode group))
      (pushedChunks agg.aggregated) target w₀ (attemptsToVault target.vaultId attempts) outcome w₁

variable {http : Http W} {parse : String → Option IpNetwork} {maxRetries : ℕ}
  {fetch : ExternalSource → FetchOutcome} {clock : ℕ → ℤ} {startedAt : ℤ} {db db' : Db}
  {group : DestinationGroup} {w w' : W} {summary : JobSummary} {attempts : List Attempt}
  {agg : Aggregate} {totals : PushTotals}

theorem run_finished (hgroup : db.destinationGroups.find? group.id = some group)
    (hrun : run (journaled http) parse maxRetries fetch clock startedAt group.id db (w, []) =
      some (.ok summary, db', w', attempts)) :
    ∃ agg totals, Finished http parse maxRetries fetch clock db group summary attempts agg totals := by
  simp only [run, hgroup, execute, Option.map_map, Option.map_eq_some_iff, Function.comp_apply] at hrun
  obtain ⟨agg, hagg, hout⟩ := hrun
  simp only [Prod.mk.injEq, Except.ok.injEq] at hout
  obtain ⟨rfl, -, hworld⟩ := hout
  have hattempts : (pushTargets (journaled http) maxRetries (modeForChunkIndex (baseMode group))
      (pushedChunks agg.aggregated) (targetsOf db group)
      (initialTotals agg.feedErrors (targetsOf db group)) (w, [])).2.2 = attempts := by
    rw [hworld]
  refine ⟨agg, _, hagg, ?_, rfl, ?_⟩
  · rw [← hattempts]
    exact pushTargets_exact http maxRetries _ _ (pushedChunks_ne_nil _) _ (targetsOf_distinct db group)
      _ w
  · intro target htarget
    rw [← hattempts]
    exact pushTargets_target http maxRetries _ _ _ (targetsOf_distinct db group) _ w target htarget

/-- A target that took everything in `full_replace` mode holds exactly the aggregated addresses,
whatever it held before and whichever of the failed requests took effect on the way. -/
theorem Finished.liveAfter_of_tookEverything
    (h : Finished http parse maxRetries fetch clock db group summary attempts agg totals)
    (hmode : baseMode group = .fullReplace) {target : PushTarget}
    (htarget : target ∈ targetsOf db group)
    (htook : TookEverything (pushedChunks agg.aggregated) attempts target)
    (hne : agg.aggregated ≠ []) (prior : Finset String) {done : List Attempt}
    (hdone : Applied (attemptsToVault target.vaultId attempts) done) :
    liveAfter prior done = agg.aggregated.toFinset := by
  obtain ⟨outcome, w₀, w₁, hpushed⟩ := h.target target htarget
  have hcomplete : outcome.isComplete :=
    (hpushed.complete_iff (pushedChunks_ne_nil _)).mpr htook
  have hchunks : pushedChunks agg.aggregated ≠ [] := by
    rw [ne_eq, pushedChunks_eq_nil_iff]
    exact hne
  rw [hmode] at hpushed
  generalize attemptsToVault target.vaultId attempts = trace at hpushed hdone
  cases hpushed with
  | missing _ => simp [TargetOutcome.isComplete] at hcomplete
  | @pushed vault _ _ _ error _ _ hpushedChunks =>
      have hnone : error = none := by
        cases error with
        | none => rfl
        | some e => simp [TargetOutcome.isComplete] at hcomplete
      rw [ChunksPushed.liveAfter_replace hpushedChunks hchunks hnone hdone,
        addresses_flatten_pushedChunks]

/-- A successful run has a non-empty list, no failed feed, and targets that all took everything. -/
theorem Finished.of_success
    (h : Finished http parse maxRetries fetch clock db group summary attempts agg totals)
    (hsuccess : summary.status = .success) :
    agg.aggregated ≠ [] ∧ agg.feedErrors = [] ∧
      ∀ target ∈ targetsOf db group, TookEverything (pushedChunks agg.aggregated) attempts target := by
  have hstatus := h.status_eq.symm.trans hsuccess
  rw [statusOf] at hstatus
  split at hstatus
  · cases hstatus
  split at hstatus
  · rename_i herrors
    split at hstatus
    · cases hstatus
    · rename_i hitems
      obtain ⟨hfeeds, hall⟩ := h.pushed.errors_iff.mp herrors
      exact ⟨fun hnil => hitems (by rw [hnil]; rfl), hfeeds, hall⟩
  · split at hstatus <;> cases hstatus

/-- **A successful run leaves exactly the aggregated set.**  For every list, every content of the
targets before the run, and every pattern of answers in which failed requests may have taken effect
or not: after a `SUCCESS` in `full_replace` mode the live addresses of every target are the
aggregated ones. -/
theorem run_success_leaves_aggregated (http : Http W) (parse : String → Option IpNetwork)
    (maxRetries : ℕ) (fetch : ExternalSource → FetchOutcome) (clock : ℕ → ℤ) (startedAt : ℤ)
    (db : Db) (group : DestinationGroup)
    (hgroup : db.destinationGroups.find? group.id = some group)
    (hmode : group.mode = "full_replace") (w : W) (summary : JobSummary) (db' : Db) (w' : W)
    (attempts : List Attempt)
    (hrun : run (journaled http) parse maxRetries fetch clock startedAt group.id db (w, []) =
      some (.ok summary, db', w', attempts))
    (hsuccess : summary.status = .success) :
    ∃ agg, aggregate parse group (feedsOf db group.id) fetch clock = some agg ∧
      ∀ target ∈ targetsOf db group, ∀ prior done,
        Applied (attemptsToVault target.vaultId attempts) done →
        liveAfter prior done = agg.aggregated.toFinset := by
  obtain ⟨agg, totals, hfinished⟩ := run_finished hgroup hrun
  obtain ⟨hne, -, htook⟩ := hfinished.of_success hsuccess
  have hbase : baseMode group = .fullReplace := by
    rw [baseMode, hmode]
    rfl
  refine ⟨agg, hfinished.aggregate_eq, ?_⟩
  intro target htarget prior done hdone
  exact hfinished.liveAfter_of_tookEverything hbase htarget (htook target htarget) hne prior hdone

/-! ### A group with two feeds and one target -/

/-- Reads two public addresses and nothing else. -/
def parsePublic (s : String) : Option IpNetwork :=
  if s = "8.8.8.8/32" then some (v4Literal 8 8 8 8 32)
  else if s = "1.1.1.1/32" then some (v4Literal 1 1 1 1 32)
  else none

/-- A group in `full_replace` mode. -/
def perimeterGroup : DestinationGroup :=
  ⟨5, "perimeter", "ban", "0 * * * * *", "full_replace", true, false, none⟩

/-- The group with the feeds `A` and `B` and one target vault. -/
def twoFeedDb : Db where
  vaultEndpoints := ⟨[⟨2, "edge", "https://edge", "key", "secret"⟩], by decide⟩
  vaultSyncTasks := .empty
  vaultSyncTaskTargets := .empty
  destinationGroups := ⟨[perimeterGroup], by decide⟩
  destinationGroupVaultTargets := ⟨[⟨5, 2, none⟩], by decide⟩
  externalSources :=
    ⟨[⟨11, 5, "A", "https://a", "REGEX_LINE", none, none, none⟩,
      ⟨12, 5, "B", "https://b", "REGEX_LINE", none, none, none⟩], by decide⟩
  syncLogs := []

/-- `A` lists one address and `B` another. -/
def fetchBoth (feed : ExternalSource) : FetchOutcome :=
  if feed.name = "A" then .finished (.ok [⟨"8.8.8.8/32", none⟩])
  else .finished (.ok [⟨"1.1.1.1/32", none⟩])

theorem run_success_leaves_aggregated_one_at_a_time :
    ∃ summary db' w' attempts,
      run (journaled oneAtATime) parsePublic 3 fetchBoth (fun _ => 0) 1000 5 twoFeedDb (0, []) =
        some (.ok summary, db', w', attempts) ∧
      liveAfter {"9.9.9.9/32"} (accepted (attemptsToVault 2 attempts)) =
        {"8.8.8.8/32", "1.1.1.1/32"} := by
  have hstatus : ((run (journaled oneAtATime) parsePublic 3 fetchBoth (fun _ => 0) 1000 5 twoFeedDb
      (0, [])).bind fun out => out.1.toOption.map JobSummary.status) = some .success := by
    decide +kernel
  obtain ⟨⟨result, db', w', attempts⟩, hrun, hresult⟩ := Option.bind_eq_some_iff.mp hstatus
  cases result with
  | error e => cases hresult
  | ok summary =>
      obtain ⟨agg, hagg, hlive⟩ := run_success_leaves_aggregated oneAtATime parsePublic 3 fetchBoth
        (fun _ => 0) 1000 twoFeedDb perimeterGroup (by decide) rfl 0
        summary db' w' attempts hrun (Option.some.inj hresult)
      have haggregated : agg.aggregated = ["8.8.8.8/32", "1.1.1.1/32"] := by
        have hvalue : (aggregate parsePublic perimeterGroup
            (feedsOf twoFeedDb perimeterGroup.id) fetchBoth fun _ => 0).map Aggregate.aggregated =
              some ["8.8.8.8/32", "1.1.1.1/32"] := by
          decide +kernel
        rw [hagg] at hvalue
        exact Option.some.inj hvalue
      refine ⟨summary, db', w', attempts, hrun, ?_⟩
      rw [hlive _ (List.mem_singleton.mpr rfl) _ _ (applied_accepted _), haggregated]
      rfl

/-! ### A run that stops midway -/

/-- What a target accepted of a run's requests up to any point is the beginning of the aggregated
list, and only the first of these requests replaces. -/
theorem Finished.accepted_take
    (h : Finished http parse maxRetries fetch clock db group summary attempts agg totals)
    {target : PushTarget} (htarget : target ∈ targetsOf db group) (k : ℕ) :
    addresses (acceptedRecords ((attemptsToVault target.vaultId attempts).take k)) <+:
        agg.aggregated ∧
      FirstMode (baseMode group)
        (accepted ((attemptsToVault target.vaultId attempts).take k)) := by
  obtain ⟨outcome, w₀, w₁, hpushed⟩ := h.target target htarget
  generalize attemptsToVault target.vaultId attempts = trace at hpushed
  have hsome : accepted (trace.take k) <+: accepted trace :=
    (List.take_prefix k trace).filter Attempt.isAccepted
  obtain ⟨later, hlater⟩ := hsome
  cases hpushed with
  | missing _ => simp [acceptedRecords, accepted, FirstMode]
  | pushed _ hpushedChunks =>
      have hstart := hpushedChunks.acceptedRecords_isPrefix (pushedChunks_ne_nil _)
      have hmodes := hpushedChunks.firstMode (baseMode group) (pushedChunks_ne_nil _)
      constructor
      · have hbegin : acceptedRecords (trace.take k) <+: acceptedRecords trace := by
          rw [acceptedRecords, acceptedRecords, ← hlater, List.flatMap_append]
          exact List.prefix_append _ _
        have haddresses := (hbegin.trans hstart).map BatchRecordInput.targetAddress
        rw [← addresses_flatten_pushedChunks agg.aggregated]
        exact haddresses
      · rw [← hlater] at hmodes
        cases hfirst : accepted (trace.take k) with
        | nil => trivial
        | cons a rest =>
            rw [hfirst] at hmodes
            exact ⟨hmodes.1, fun b hb => hmodes.2 b (List.mem_append_left _ hb)⟩

/-- **A run that stops midway keeps what it delivered.**  Wherever a chunk or a part of one fails
for good, or the run is abandoned after any number `k` of requests to a target: what the target
accepted is a beginning of the aggregated list, and an address of that list that was live before is
still live exactly when nothing was accepted or the address is in the accepted part. -/
theorem run_keeps_accepted_part (http : Http W) (parse : String → Option IpNetwork)
    (maxRetries : ℕ) (fetch : ExternalSource → FetchOutcome) (clock : ℕ → ℤ) (startedAt : ℤ)
    (db : Db) (group : DestinationGroup)
    (hgroup : db.destinationGroups.find? group.id = some group)
    (hmode : group.mode = "full_replace") (w : W) (summary : JobSummary) (db' : Db) (w' : W)
    (attempts : List Attempt)
    (hrun : run (journaled http) parse maxRetries fetch clock startedAt group.id db (w, []) =
      some (.ok summary, db', w', attempts)) :
    ∃ agg, aggregate parse group (feedsOf db group.id) fetch clock = some agg ∧
      ∀ target ∈ targetsOf db group, ∀ k,
        let sent := (attemptsToVault target.vaultId attempts).take k
        addresses (acceptedRecords sent) <+: agg.aggregated ∧
        ∀ prior, ∀ address ∈ prior, address ∈ agg.aggregated →
          (address ∈ liveAfter prior (accepted sent) ↔
            accepted sent = [] ∨ address ∈ addresses (acceptedRecords sent)) := by
  obtain ⟨agg, totals, hfinished⟩ := run_finished hgroup hrun
  have hbase : baseMode group = .fullReplace := by
    rw [baseMode, hmode]
    rfl
  refine ⟨agg, hfinished.aggregate_eq, ?_⟩
  intro target htarget k sent
  obtain ⟨hstart, hmodes⟩ := hfinished.accepted_take htarget k
  rw [hbase] at hmodes
  refine ⟨hstart, ?_⟩
  intro prior address hlive hwanted
  rw [liveAfter_of_firstMode hmodes]
  by_cases hnone : accepted sent = []
  · rw [if_pos hnone]
    exact ⟨fun _ => Or.inl hnone, fun _ => hlive⟩
  · rw [if_neg hnone, List.mem_toFinset]
    constructor
    · exact Or.inr
    · intro h
      exact h.resolve_left hnone

/-- Takes a single record once; anything longer is a `413`, and everything after that fails. -/
def takesOneRecord : Http ℕ where
  postBatchOnce _ _ records _ taken :=
    if 1 < records.length then (.error (.remoteError 413 ""), taken)
    else if taken = 0 then (.ok { BatchRecordsResponse.default with created := 1 }, 1)
    else (.error (.remoteError 500 ""), taken)
  getIpsPage _ _ _ _ _ taken := (.ok [], taken)
  backoff _ taken := taken

theorem run_keeps_accepted_part_of_one :
    ∃ summary db' w' attempts,
      run (journaled takesOneRecord) parsePublic 3 fetchBoth (fun _ => 0) 1000 5 twoFeedDb (0, []) =
        some (.ok summary, db', w', attempts) ∧
      "8.8.8.8/32" ∈ liveAfter {"8.8.8.8/32", "1.1.1.1/32"}
        (accepted ((attemptsToVault 2 attempts).take 2)) := by
  have hsent : ((run (journaled takesOneRecord) parsePublic 3 fetchBoth (fun _ => 0) 1000 5
      twoFeedDb (0, [])).bind fun out => out.1.toOption.map fun _ =>
        addresses (acceptedRecords ((attemptsToVault 2 out.2.2.2).take 2))) =
          some ["8.8.8.8/32"] := by
    decide +kernel
  obtain ⟨⟨result, db', w', attempts⟩, hrun, hresult⟩ := Option.bind_eq_some_iff.mp hsent
  cases result with
  | error e => cases hresult
  | ok summary =>
      obtain ⟨agg, -, hkept⟩ := run_keeps_accepted_part takesOneRecord parsePublic 3 fetchBoth
        (fun _ => 0) 1000 twoFeedDb perimeterGroup (by decide) rfl 0
        summary db' w' attempts hrun
      obtain ⟨hstart, hiff⟩ := hkept _ (List.mem_singleton.mpr rfl) 2
      have haccepted : addresses (acceptedRecords ((attemptsToVault 2 attempts).take 2)) =
          ["8.8.8.8/32"] := Option.some.inj hresult
      have hmem : "8.8.8.8/32" ∈
          addresses (acceptedRecords ((attemptsToVault 2 attempts).take 2)) := by
        rw [haccepted]
        exact List.mem_singleton.mpr rfl
      exact ⟨summary, db', w', attempts, hrun,
        (hiff _ _ (by decide) (hstart.subset hmem)).mpr (Or.inr hmem)⟩

/-- The group's list has two addresses, both live at the target; the target takes the first and
then fails.  The second is gone although the run still wants it. -/
theorem run_drops_wanted_address :
    ∃ summary db' w' attempts agg,
      run (journaled takesOneRecord) parsePublic 3 fetchBoth (fun _ => 0) 1000 5 twoFeedDb (0, []) =
        some (.ok summary, db', w', attempts) ∧
      aggregate parsePublic perimeterGroup (feedsOf twoFeedDb 5) fetchBoth (fun _ => 0) = some agg ∧
      "1.1.1.1/32" ∈ agg.aggregated ∧
      "1.1.1.1/32" ∈ ({"8.8.8.8/32", "1.1.1.1/32"} : Finset String) ∧
      "1.1.1.1/32" ∉ liveAfter {"8.8.8.8/32", "1.1.1.1/32"}
        (accepted (attemptsToVault 2 attempts)) := by
  have hsent : ((run (journaled takesOneRecord) parsePublic 3 fetchBoth (fun _ => 0) 1000 5
      twoFeedDb (0, [])).bind fun out => out.1.toOption.map fun _ =>
        decide ("1.1.1.1/32" ∈ liveAfter {"8.8.8.8/32", "1.1.1.1/32"}
          (accepted (attemptsToVault 2 out.2.2.2)))) = some false := by
    decide +kernel
  have hagg : aggregate parsePublic perimeterGroup (feedsOf twoFeedDb 5) fetchBoth (fun _ => 0) =
      some ⟨["8.8.8.8/32", "1.1.1.1/32"], [], 0⟩ := by
    decide +kernel
  obtain ⟨⟨result, db', w', attempts⟩, hrun, hresult⟩ := Option.bind_eq_some_iff.mp hsent
  cases result with
  | error e => cases hresult
  | ok summary =>
      exact ⟨summary, db', w', attempts, _, hrun, hagg, by simp, by simp,
        of_decide_eq_false (Option.some.inj hresult)⟩

/-! ### A run in which feeds fail -/

/-- With nothing to push, a target hears nothing. -/
theorem Finished.attempts_eq_nil
    (h : Finished http parse maxRetries fetch clock db group summary attempts agg totals)
    (hnil : agg.aggregated = []) {target : PushTarget} (htarget : target ∈ targetsOf db group) :
    attemptsToVault target.vaultId attempts = [] := by
  obtain ⟨outcome, w₀, w₁, hpushed⟩ := h.target target htarget
  rw [(pushedChunks_eq_nil_iff agg.aggregated).mpr hnil] at hpushed
  generalize attemptsToVault target.vaultId attempts = trace at hpushed
  cases hpushed with
  | missing _ => rfl
  | pushed _ hpushedChunks =>
      cases hpushedChunks
      rfl

/-- A run with a failed feed is never a success. -/
theorem Finished.status_ne_success
    (h : Finished http parse maxRetries fetch clock db group summary attempts agg totals)
    {feed : ExternalSource} (hfeed : feed ∈ feedsOf db group.id) (hfails : FeedFails fetch feed) :
    summary.status ≠ .success := by
  intro hsuccess
  exact feedErrors_ne_nil_of_feedFails h.aggregate_eq hfeed hfails (h.of_success hsuccess).2.1

/-- **A feed outage replaces by what is left.**  When some feed fails in a `full_replace` run, the
run is not logged as a success; and on a target that took the whole list of the run, a live address,
whichever feed it came from, is soft-deleted exactly when that list is not empty and does not
contain it. -/
theorem run_outage_replaces (http : Http W) (parse : String → Option IpNetwork)
    (maxRetries : ℕ) (fetch : ExternalSource → FetchOutcome) (clock : ℕ → ℤ) (startedAt : ℤ)
    (db : Db) (group : DestinationGroup)
    (hgroup : db.destinationGroups.find? group.id = some group)
    (hmode : group.mode = "full_replace") (feed : ExternalSource)
    (hfeed : feed ∈ feedsOf db group.id) (hfails : FeedFails fetch feed) (w : W)
    (summary : JobSummary) (db' : Db) (w' : W) (attempts : List Attempt)
    (hrun : run (journaled http) parse maxRetries fetch clock startedAt group.id db (w, []) =
      some (.ok summary, db', w', attempts)) :
    summary.status ≠ .success ∧
      ∃ agg, aggregate parse group (feedsOf db group.id) fetch clock = some agg ∧
        ∀ target ∈ targetsOf db group,
          TookEverything (pushedChunks agg.aggregated) attempts target →
          ∀ prior done, Applied (attemptsToVault target.vaultId attempts) done →
            ∀ address ∈ prior, (address ∉ liveAfter prior done ↔
              agg.aggregated ≠ [] ∧ address ∉ agg.aggregated) := by
  obtain ⟨agg, totals, hfinished⟩ := run_finished hgroup hrun
  have hbase : baseMode group = .fullReplace := by
    rw [baseMode, hmode]
    rfl
  refine ⟨hfinished.status_ne_success hfeed hfails, agg, hfinished.aggregate_eq, ?_⟩
  intro target htarget htook prior done hdone address hlive
  by_cases hnil : agg.aggregated = []
  · rw [hfinished.attempts_eq_nil hnil htarget] at hdone
    cases hdone
    simp [hnil, hlive]
  · rw [hfinished.liveAfter_of_tookEverything hbase htarget htook hnil prior hdone,
      List.mem_toFinset]
    simp [hnil]

/-- `A` is unreachable, `B` answers. -/
def fetchOnlyB (feed : ExternalSource) : FetchOutcome :=
  if feed.name = "A" then .finished (.error "fetch returned status 503 Service Unavailable")
  else .finished (.ok [⟨"1.1.1.1/32", none⟩])

/-- The target takes the list of `B` alone: the address of `A` is gone, and that of `B` is live. -/
theorem run_outage_replaces_without_A :
    ∃ summary db' w' attempts,
      run (journaled oneAtATime) parsePublic 3 fetchOnlyB (fun _ => 0) 2000 5 twoFeedDb (0, []) =
        some (.ok summary, db', w', attempts) ∧ summary.status ≠ .success ∧
      "8.8.8.8/32" ∉ liveAfter {"8.8.8.8/32", "1.1.1.1/32"}
        (accepted (attemptsToVault 2 attempts)) ∧
      "1.1.1.1/32" ∈ liveAfter {"8.8.8.8/32", "1.1.1.1/32"}
        (accepted (attemptsToVault 2 attempts)) := by
  have hsent : ((run (journaled oneAtATime) parsePublic 3 fetchOnlyB (fun _ => 0) 2000 5 twoFeedDb
      (0, [])).bind fun out => out.1.toOption.map fun _ =>
        [(accepted (attemptsToVault 2 out.2.2.2)).flatMap Attempt.records]) =
          some (pushedChunks ["1.1.1.1/32"]) := by
    decide +kernel
  have hvalue : (aggregate parsePublic perimeterGroup (feedsOf twoFeedDb perimeterGroup.id)
      fetchOnlyB fun _ => 0).map Aggregate.aggregated = some ["1.1.1.1/32"] := by
    decide +kernel
  obtain ⟨⟨result, db', w', attempts⟩, hrun, hresult⟩ := Option.bind_eq_some_iff.mp hsent
  cases result with
  | error e => cases hresult
  | ok summary =>
      obtain ⟨hstatus, agg, hagg, hreplaces⟩ := run_outage_replaces oneAtATime parsePublic 3
        fetchOnlyB (fun _ => 0) 2000 twoFeedDb perimeterGroup (by decide) rfl
        ⟨11, 5, "A", "https://a", "REGEX_LINE", none, none, none⟩ (by decide)
        (by intro records h; simp [fetchOnlyB] at h) 0 summary db' w' attempts hrun
      rw [hagg] at hvalue
      have haggregated : agg.aggregated = ["1.1.1.1/32"] := Option.some.inj hvalue
      rw [haggregated] at hreplaces
      -- the one chunk of the list is what the target accepted
      have htook : ChunksAccepted (pushedChunks ["1.1.1.1/32"])
          (accepted (attemptsToVault 2 attempts)) :=
        ⟨[accepted (attemptsToVault 2 attempts)], List.append_nil _, Option.some.inj hresult⟩
      have hexact := hreplaces _ (List.mem_singleton.mpr rfl) ⟨rfl, htook⟩
        {"8.8.8.8/32", "1.1.1.1/32"} _ (applied_accepted _)
      refine ⟨summary, db', w', attempts, hrun, hstatus, ?_, ?_⟩
      · exact (hexact "8.8.8.8/32" (by decide)).mpr (by decide)
      · exact not_not.mp fun hgone => (hexact "1.1.1.1/32" (by decide)).mp hgone |>.2 (by decide)

/-- First a successful run with both feeds, then one in which `A` fails: the address `A`
contributed is live at the target before the second run and soft-deleted after it. -/
theorem run_outage_erases_address :
    ∃ db₁ first db₂ second summary₁ summary₂ w₁ w₂,
      run (journaled oneAtATime) parsePublic 3 fetchBoth (fun _ => 0) 1000 5 twoFeedDb (0, []) =
        some (.ok summary₁, db₁, w₁, first) ∧ summary₁.status = .success ∧
      run (journaled oneAtATime) parsePublic 3 fetchOnlyB (fun _ => 0) 2000 5 db₁ (0, []) =
        some (.ok summary₂, db₂, w₂, second) ∧
      "8.8.8.8/32" ∈ liveAfter ∅ (accepted (attemptsToVault 2 first)) ∧
      "8.8.8.8/32" ∉ liveAfter (liveAfter ∅ (accepted (attemptsToVault 2 first)))
        (accepted (attemptsToVault 2 second)) := by
  have hboth : ((run (journaled oneAtATime) parsePublic 3 fetchBoth (fun _ => 0) 1000 5 twoFeedDb
      (0, [])).bind fun out₁ =>
        (run (journaled oneAtATime) parsePublic 3 fetchOnlyB (fun _ => 0) 2000 5 out₁.2.1
          (0, [])).bind fun out₂ =>
            out₁.1.toOption.bind fun summary₁ => out₂.1.toOption.map fun _ =>
              let before := liveAfter ∅ (accepted (attemptsToVault 2 out₁.2.2.2))
              (summary₁.status, decide ("8.8.8.8/32" ∈ before), decide ("8.8.8.8/32" ∈
                liveAfter before (accepted (attemptsToVault 2 out₂.2.2.2))))) =
        some (.success, true, false) := by
    decide +kernel
  obtain ⟨⟨result₁, db₁, w₁, first⟩, hrun₁, hrest⟩ := Option.bind_eq_some_iff.mp hboth
  obtain ⟨⟨result₂, db₂, w₂, second⟩, hrun₂, hresults⟩ := Option.bind_eq_some_iff.mp hrest
  cases result₁ with
  | error e => cases hresults
  | ok summary₁ =>
      cases result₂ with
      | error e => cases hresults
      | ok summary₂ =>
          simp only [Except.toOption, Option.bind_some, Option.map_some, Option.some.injEq,
            Prod.mk.injEq, decide_eq_true_eq, decide_eq_false_iff_not] at hresults
          exact ⟨db₁, first, db₂, second, summary₁, summary₂, w₁, w₂, hrun₁, hresults.1, hrun₂,
            hresults.2.1, hresults.2.2⟩

end SimplyIpSync.Jobs.ExternalIngestion
