import SimplyIpSync.Replication.Chain

/-!
# The account of one hop

A cursor stands for what its target holds: every record of vault `0` touched before the cursor's
second is on the target in its present version.  A run that found all of that on its source keeps it
for its own start, record by record (`OnTheWay`): the record is on the target already, or it is
ahead of the reader, or it has been read and is on its way.  `HopAccount` says this of a hop, and
each step of the hop, and what happens on vault `0`, keeps it.
-/

namespace SimplyIpSync.Replication

open SimplyIpSync.Entities SimplyIpSync.Storage SimplyIpSync.Store SimplyIpSync.Client
open SimplyIpSync.Bogon SimplyIpSync.Jobs SimplyIpSync.Jobs.VaultSync SimplyIpSync.Reach
open SimplyIpSync.Paging

variable {W : Type*}

/-! ### One record on its way through one run -/

/-- The group has the record of `k` in version `v`. -/
def Has (group : VaultGroup) (k : String) (v : Option ℤ × ℤ) : Prop :=
  (group.find? k).map StoredRecord.version = some v

theorem has_iff {group : VaultGroup} {k : String} {v : Option ℤ × ℤ} :
    Has group k v ↔ ∃ r, group.find? k = some r ∧ r.version = v :=
  Option.map_eq_some_iff

/-- What a run has read or is sending. -/
def HopStage.entries : HopStage → List BatchRecordInput
  | .paging _ allRecords _ => allRecords.map toBatchRecordInput
  | .fetched delta => delta.map toBatchRecordInput
  | .pushing pending _ _ => pending.flatMap Attempt.records

/-- Every entry for `k` has version `v`. -/
def Only (entries : List BatchRecordInput) (k : String) (v : Option ℤ × ℤ) : Prop :=
  ∀ r : StoredRecord, r.relayed ∈ entries → r.targetAddress = k → r.version = v

/-- Some entry is for `k`. -/
def Mentions (entries : List BatchRecordInput) (k : String) : Prop :=
  ∃ b ∈ entries, b.targetAddress = k

/-- The record of `k` has arrived, or the run will still bring it. -/
def Ahead (target : VaultGroup) (k : String) (v : Option ℤ × ℤ) : HopStage → Prop
  | .paging offset allRecords seen =>
      offset = 0 ∨ Has target k v ∨ Mentions (allRecords.map toBatchRecordInput) k ∨
        (seen.Nodup ∧ offset ≤ rank seen k)
  | .fetched delta => Has target k v ∨ Mentions (delta.map toBatchRecordInput) k
  | .pushing pending _ allTargetsSucceeded =>
      allTargetsSucceeded = true →
        Has target k v ∨ ∃ a ∈ pending, a.isAccepted = true ∧ Mentions a.records k

/-- The run carries `k` in version `v` only, and will not leave it behind. -/
structure OnTheWay (target : VaultGroup) (stage : HopStage) (k : String) (v : Option ℤ × ℤ) :
    Prop where
  only : Only stage.entries k v
  ahead : Ahead target k v stage

/-- Every entry is a well-kept record with property `p`. -/
def Carries (text : AddressText) (p : StoredRecord → Prop) (entries : List BatchRecordInput) :
    Prop :=
  ∀ b ∈ entries, ∃ r : StoredRecord, r.relayed = b ∧ r.WellKept text ∧ p r

theorem relayed_injective {r s : StoredRecord} (h : r.relayed = s.relayed) : r = s := by
  cases r
  cases s
  simp only [StoredRecord.relayed, BatchRecordInput.mk.injEq, Option.some.injEq] at h
  simp only [StoredRecord.mk.injEq]
  tauto

theorem Carries.subset {text : AddressText} {p : StoredRecord → Prop}
    {entries entries' : List BatchRecordInput} (h : Carries text p entries)
    (hsub : ∀ b ∈ entries', b ∈ entries) : Carries text p entries' :=
  fun b hb => h b (hsub b hb)

theorem Carries.imp {text : AddressText} {p q : StoredRecord → Prop}
    {entries : List BatchRecordInput} (h : Carries text p entries) (himp : ∀ r, p r → q r) :
    Carries text q entries := by
  intro b hb
  obtain ⟨r, hr, hkept, hp⟩ := h b hb
  exact ⟨r, hr, hkept, himp r hp⟩

section

variable {c : Chain} {text : AddressText} {source target : VaultGroup} {k : String}
  {v : Option ℤ × ℤ} {run run' : HopRun} {i : ℕ}

/-! ### A page -/

/-- A page adds records of the source, from the window of the run. -/
theorem mem_entries_of_nextPage {s : ChainState} (h : s.nextPage c i run = some run') {b}
    (hb : b ∈ run'.stage.entries) : b ∈ run.stage.entries ∨
      ∃ r, (s.vaults i).find? r.targetAddress = some r ∧ r.relayed = b ∧
        inDelta run.since (r.toResponse (c.task i).sourceGroupName) := by
  cases hstage : run.stage with
  | paging offset allRecords seen =>
      rw [ChainState.nextPage, hstage] at h
      obtain rfl := Option.some.inj h
      have hall : b ∈ (allRecords ++ handleGet (c.task i).sourceGroupName (s.vaults i) run.since true
          offset).map toBatchRecordInput := by
        simp only at hb
        split at hb <;> exact hb
      rw [List.map_append, List.mem_append] at hall
      rcases hall with hold | hnew
      · exact Or.inl hold
      · obtain ⟨answer, hanswer, rfl⟩ := List.mem_map.mp hnew
        obtain ⟨r, hr, rfl, hin⟩ := mem_handleGet hanswer
        exact Or.inr ⟨r, hr, rfl, hin⟩
  | fetched delta => simp [ChainState.nextPage, hstage] at h
  | pushing pending summary all => simp [ChainState.nextPage, hstage] at h

/-- The answer to a page leaves no record of the window behind that the reader has not passed. -/
theorem read_or_ahead {name : String} {since : Option ℤ} {offset : ℕ}
    {allRecords : List IpRecordResponse} {seen : List String}
    (hseen : seen ⊆ windowAddresses source since)
    (hwindow : k ∈ windowAddresses source since)
    (hahead : offset = 0 ∨ Mentions (allRecords.map toBatchRecordInput) k ∨
      (seen.Nodup ∧ offset ≤ rank seen k)) :
    Mentions ((allRecords ++ handleGet name source since true offset).map toBatchRecordInput) k ∨
      (deltaPageSize ≤ (handleGet name source since true offset).length ∧
        offset + deltaPageSize ≤ rank (windowAddresses source since) k) := by
  have hanswer : (handleGet name source since true offset).map IpRecordResponse.targetAddress =
      page offset deltaPageSize (windowAddresses source since) := map_targetAddress_handleGet _ _ _ _
  have hread : Mentions (allRecords.map toBatchRecordInput) k ∨
      offset ≤ rank (windowAddresses source since) k := by
    rcases hahead with hzero | hread | ⟨hnodup, hrank⟩
    · exact Or.inr (by omega)
    · exact Or.inl hread
    · exact Or.inr (hrank.trans (rank_mono hnodup hseen))
  rw [List.map_append]
  rcases hread with ⟨b, hb, hbk⟩ | hfrom
  · exact Or.inl ⟨b, List.mem_append_left _ hb, hbk⟩
  · rcases mem_page_or_ahead (windowAddresses_sorted source since) hwindow hfrom with hpage | hfull
    · rw [← hanswer] at hpage
      obtain ⟨record, hrecord, haddress⟩ := List.mem_map.mp hpage
      exact Or.inl ⟨_, List.mem_append_right _ (List.mem_map_of_mem hrecord), haddress⟩
    · rw [← hanswer, List.length_map] at hfull
      exact Or.inr hfull

/-- **A page keeps a record on its way** that the source has: it is in the window, where the reader
has not passed it, or it is on the target. -/
theorem OnTheWay.nextPage {s : ChainState} {r : StoredRecord}
    (h : OnTheWay target run.stage k v) (hpage : s.nextPage c i run = some run')
    (hr : (s.vaults i).find? k = some r) (hv : r.version = v)
    (hcovered : inDelta run.since (r.toResponse "") ∨ Has target k v)
    (hsaw : run'.sawAll = true) : OnTheWay target run'.stage k v := by
  constructor
  · intro r' hr' hk
    rcases mem_entries_of_nextPage hpage hr' with hold | ⟨r'', hr'', hsame, -⟩
    · exact h.only r' hold hk
    · obtain rfl := relayed_injective hsame
      rw [hk, hr, Option.some.injEq] at hr''
      rw [← hr'', hv]
  · cases hstage : run.stage with
    | paging offset allRecords seen =>
        rw [ChainState.nextPage, hstage] at hpage
        obtain rfl := Option.some.inj hpage
        have hseen : seen ⊆ windowAddresses (s.vaults i) run.since := by
          simp only [Bool.and_eq_true, decide_eq_true_eq] at hsaw
          exact hsaw.2.2
        have hahead := h.ahead
        rw [hstage] at hahead
        let window := windowAddresses (s.vaults i) run.since
        let answer := handleGet (c.task i).sourceGroupName (s.vaults i) run.since true offset
        -- the record is on the target, or read by now, or at a place the reader has not passed
        have hnow : Has target k v ∨ Mentions ((allRecords ++ answer).map toBatchRecordInput) k ∨
            (deltaPageSize ≤ answer.length ∧ offset + deltaPageSize ≤ rank window k) := by
          by_cases hhas : Has target k v
          · exact Or.inl hhas
          · have hwindow : k ∈ window :=
              mem_windowAddresses.mpr ⟨r, hr, hcovered.resolve_right hhas⟩
            refine Or.inr (read_or_ahead hseen hwindow ?_)
            rcases hahead with hzero | hhas' | hread | hrank
            · exact Or.inl hzero
            · exact absurd hhas' hhas
            · exact Or.inr (Or.inl hread)
            · exact Or.inr (Or.inr hrank)
        show Ahead target k v (if answer.length < deltaPageSize then _ else _)
        by_cases hshort : answer.length < deltaPageSize
        · rw [if_pos hshort]
          rcases hnow with hhas | hread | ⟨hfull, -⟩
          · exact Or.inl hhas
          · exact Or.inr hread
          · omega
        · rw [if_neg hshort]
          rcases hnow with hhas | hread | ⟨-, hrank⟩
          · exact Or.inr (Or.inl hhas)
          · exact Or.inr (Or.inr (Or.inl hread))
          · have hnodup : window.Nodup :=
              (windowAddresses_sorted (s.vaults i) run.since).imp ne_of_lt
            exact Or.inr (Or.inr (Or.inr ⟨hnodup, hrank⟩))
    | fetched delta => simp [ChainState.nextPage, hstage] at hpage
    | pushing pending summary all => simp [ChainState.nextPage, hstage] at hpage

/-! ### A push -/

/-- **What a push sends:** upserts of what was fetched; and if it reports that its target took
everything, every record that is no bogon is in a request that the target accepted. -/
theorem sendDelta_spec {http : Http W} {world : W}
    (h : ChainState.sendDelta c http i world run = some run') :
    ∃ delta pending summary allTargetsSucceeded, run.stage = .fetched delta ∧
      run' = { run with stage := .pushing pending summary allTargetsSucceeded } ∧
      (∀ a ∈ pending, a.mode = .upsert ∧ ∀ b ∈ a.records, b ∈ delta.map toBatchRecordInput) ∧
      (allTargetsSucceeded = true → ∀ r ∈ delta, isKept c.parse r.targetAddress →
        ∃ a ∈ pending, a.isAccepted = true ∧ toBatchRecordInput r ∈ a.records) ∧
      (summary.status = .success → allTargetsSucceeded = true) := by
  cases hstage : run.stage with
  | fetched delta =>
      rw [ChainState.sendDelta, hstage] at h
      obtain rfl := Option.some.inj h
      let task : VaultSyncTask := { c.task i with lastSyncAt := run.since }
      have hdistinct : DistinctTargets [c.target i] := by
        refine ⟨List.nodup_singleton _, ?_⟩
        intro target htarget vault hvault
        obtain rfl := List.mem_singleton.mp htarget
        obtain rfl := Option.some.inj hvault
        rfl
      obtain ⟨hall, hstatus, -⟩ := pushDelta_exact http c.parse c.maxRetries task (c.vault i)
        [c.target i] hdistinct delta world
      refine ⟨delta, _, _, _, rfl, rfl, ?_, ?_, fun hsuccess => hall.mpr (hstatus.mp hsuccess).1⟩
      · intro a ha
        obtain ⟨hmode, hrecords⟩ := pushDelta_carries http c.parse c.maxRetries task (c.vault i)
          [c.target i] delta world a ha
        refine ⟨hmode, fun b hb => ?_⟩
        obtain ⟨r, hr, rfl⟩ := List.mem_map.mp (hrecords b hb)
        exact List.mem_map_of_mem (mem_of_mem_keptRecords hr)
      · intro htook r hr hkept
        have htarget := (hall.mp htook (c.target i) (List.mem_singleton_self _)).2.records
        rw [flatten_pushedChunks] at htarget
        have hmem : toBatchRecordInput r ∈
            (keptRecords c.parse task delta).map toBatchRecordInput :=
          List.mem_map_of_mem (mem_keptRecords hr (Or.inr hkept))
        rw [← htarget] at hmem
        obtain ⟨a, ha, hrecord⟩ := List.mem_flatMap.mp hmem
        obtain ⟨ha, haccepted⟩ := List.mem_filter.mp ha
        exact ⟨a, (List.mem_filter.mp ha).1, haccepted, hrecord⟩
  | paging offset allRecords seen => simp [ChainState.sendDelta, hstage] at h
  | pushing pending summary all => simp [ChainState.sendDelta, hstage] at h

theorem mem_entries_of_sendDelta {http : Http W} {world : W}
    (h : ChainState.sendDelta c http i world run = some run') {b : BatchRecordInput}
    (hb : b ∈ run'.stage.entries) : b ∈ run.stage.entries := by
  obtain ⟨delta, pending, summary, all, hstage, rfl, hpending, -⟩ := sendDelta_spec h
  obtain ⟨a, ha, hb⟩ := List.mem_flatMap.mp hb
  rw [hstage]
  exact (hpending a ha).2 b hb

/-- **A push keeps a record on its way.** -/
theorem OnTheWay.sendDelta {http : Http W} {world : W} (h : OnTheWay target run.stage k v)
    (hsend : ChainState.sendDelta c http i world run = some run') (hkept : isKept c.parse k) :
    OnTheWay target run'.stage k v := by
  constructor
  · intro r hr hk
    exact h.only r (mem_entries_of_sendDelta hsend hr) hk
  · obtain ⟨delta, pending, summary, all, hstage, rfl, -, haccepted, -⟩ := sendDelta_spec hsend
    have hahead := h.ahead
    rw [hstage] at hahead
    intro htook
    rcases hahead with hhas | ⟨b, hb, hbk⟩
    · exact Or.inl hhas
    · obtain ⟨r, hr, rfl⟩ := List.mem_map.mp hb
      have hrk : r.targetAddress = k := hbk
      obtain ⟨a, ha, hok, hrecord⟩ := haccepted htook r hr (hrk ▸ hkept)
      exact Or.inr ⟨a, ha, hok, _, hrecord, hbk⟩

/-! ### A request arrives -/

/-- What a delivery does: the request is applied, or it was not accepted and is lost. -/
theorem deliverNext_spec {s s' : ChainState} {applied : Bool}
    (h : s.deliverNext c i applied run = some s') :
    ∃ a pending summary allTargetsSucceeded group,
      run.stage = .pushing (a :: pending) summary allTargetsSucceeded ∧
      s' = (s.setVault (i + 1) group).setRun i
        (some { run with stage := .pushing pending summary allTargetsSucceeded }) ∧
      (group = handleBatch c.text s.now a.mode a.records (s.vaults (i + 1)) ∨
        (a.isAccepted = false ∧ group = s.vaults (i + 1))) := by
  cases hstage : run.stage with
  | pushing queue summary all =>
      cases queue with
      | nil => simp [ChainState.deliverNext, hstage] at h
      | cons a pending =>
          rw [ChainState.deliverNext, hstage] at h
          obtain rfl := Option.some.inj h
          refine ⟨a, pending, summary, all, _, rfl, rfl, ?_⟩
          by_cases happlied : (a.isAccepted || applied) = true
          · rw [if_pos happlied]
            exact Or.inl rfl
          · rw [if_neg happlied]
            right
            simp only [Bool.or_eq_true, not_or, Bool.not_eq_true] at happlied
            exact ⟨happlied.1, rfl⟩
  | paging offset allRecords seen => simp [ChainState.deliverNext, hstage] at h
  | fetched delta => simp [ChainState.deliverNext, hstage] at h

/-- **A delivery keeps a record on its way.** -/
theorem OnTheWay.deliver {a : Attempt} {pending : List Attempt} {summary : JobSummary}
    {allTargetsSucceeded : Bool} {now : ℤ} {group : VaultGroup} {p : StoredRecord → Prop}
    (h : OnTheWay target (.pushing (a :: pending) summary allTargetsSucceeded) k v)
    (hmode : a.mode = .upsert) (hcarries : Carries text p a.records)
    (hgroup : group = handleBatch text now a.mode a.records target ∨
      (a.isAccepted = false ∧ group = target)) :
    OnTheWay group (.pushing pending summary allTargetsSucceeded) k v := by
  have hhead : ∀ b ∈ a.records, b ∈ (HopStage.pushing (a :: pending) summary
      allTargetsSucceeded).entries := fun b hb => List.mem_flatMap.mpr ⟨a, List.mem_cons_self, hb⟩
  constructor
  · intro r hr hk
    obtain ⟨a', ha', hb⟩ := List.mem_flatMap.mp hr
    exact h.only r (List.mem_flatMap.mpr ⟨a', List.mem_cons_of_mem _ ha', hb⟩) hk
  · intro htook
    have hahead := h.ahead htook
    rcases hgroup with rfl | ⟨hrejected, rfl⟩
    · have hrelayed : ∀ b ∈ a.records, ∃ r : StoredRecord, r.relayed = b ∧ r.WellKept text := by
        intro b hb
        obtain ⟨r, hr, hkept, -⟩ := hcarries b hb
        exact ⟨r, hr, hkept⟩
      rw [hmode]
      rcases find?_handleBatch_relayed target now a.records hrelayed k with
        ⟨r, stored, hr, hrk, hversion, -, hfind⟩ | ⟨hnone, hsame⟩
      · left
        exact has_iff.mpr ⟨stored, hfind, hversion.trans (h.only r (hhead _ hr) hrk)⟩
      · rcases hahead with hhas | ⟨a', ha', hok, b, hb, hbk⟩
        · left
          rw [Has, hsame]
          exact hhas
        · rcases List.mem_cons.mp ha' with rfl | ha'
          · exact absurd hbk (hnone b hb)
          · exact Or.inr ⟨a', ha', hok, b, hb, hbk⟩
    · rcases hahead with hhas | ⟨a', ha', hok, hmention⟩
      · exact Or.inl hhas
      · rcases List.mem_cons.mp ha' with rfl | ha'
        · rw [hrejected] at hok
          cases hok
        · exact Or.inr ⟨a', ha', hok, hmention⟩

end

/-! ### The account of one hop -/

/-- The origin's record under the same address was touched no earlier. -/
def Older (origin : VaultGroup) (r : StoredRecord) : Prop :=
  ∃ r₀, origin.find? r.targetAddress = some r₀ ∧ r.touched ≤ r₀.touched

/-- The record is in the window of `since`. -/
def InWindow (since : Option ℤ) (r : StoredRecord) : Prop :=
  ∀ t, since = some t → cutoff t ≤ r.touched

/-- A run that is sending upserts, and reports a success only if everything was accepted. -/
def Upserts : HopStage → Prop
  | .pushing pending summary allTargetsSucceeded =>
      (∀ a ∈ pending, a.mode = .upsert) ∧ (summary.status = .success → allTargetsSucceeded = true)
  | _ => True

/-- What a run has seen of the origin is still in its window. -/
def StillThere (origin : VaultGroup) (since : Option ℤ) : HopStage → Prop
  | .paging _ _ seen => seen ⊆ windowAddresses origin since
  | _ => True

/-- The account of a run of hop `i`. -/
structure RunAccount (c : Chain) (now : ℤ) (origin target : VaultGroup) (i : ℕ)
    (lastSyncAt : Option ℤ) (run : HopRun) : Prop where
  started : run.startedAt ≤ now
  since : run.since = lastSyncAt
  entries : Carries c.text (fun r => Older origin r ∧ InWindow run.since r) run.stage.entries
  upserts : Upserts run.stage
  carried : run.sawAll = true → ∀ k r₀, origin.find? k = some r₀ → isKept c.parse k →
    r₀.touched < cutoff run.startedAt → OnTheWay target run.stage k r₀.version
  first : i = 0 → run.sawAll = true ∧ StillThere origin run.since run.stage

/-- The account of hop `i`: its cursor, and its run. -/
structure HopAccount (c : Chain) (now : ℤ) (origin target : VaultGroup) (i : ℕ) (hop : Hop) :
    Prop where
  cursor : ∀ t, hop.lastSyncAt = some t → t ≤ now ∧ CaughtUp c.parse origin target t
  run : ∀ run, hop.run = some run → RunAccount c now origin target i hop.lastSyncAt run

section

variable {c : Chain} {now now' : ℤ} {origin origin' target : VaultGroup} {i : ℕ} {hop : Hop}
  {run run' : HopRun} {key : String}

theorem caughtUp_iff {parse : String → Option IpNetwork} {t : ℤ} :
    CaughtUp parse origin target t ↔ ∀ k r₀, origin.find? k = some r₀ → isKept parse k →
      r₀.touched < cutoff t → Has target k r₀.version := by
  constructor
  · intro h k r₀ hr₀ hkept hearly
    obtain ⟨hrow, rfl⟩ := Table.find?_eq_some_iff.mp hr₀
    exact h r₀ hrow hkept hearly
  · intro h r hr hkept hearly
    exact h _ r (Table.find?_eq_some_iff.mpr ⟨hr, rfl⟩) hkept hearly

theorem inDelta_iff {r : StoredRecord} (hr : r.WellKept c.text) (groupName : String)
    (since : Option ℤ) : inDelta since (r.toResponse groupName) ↔ InWindow since r := by
  cases since with
  | none => simp [inDelta, InWindow]
  | some t => simp [StoredRecord.inDelta_toResponse hr, InWindow]

/-- The first vault is caught up with itself. -/
theorem caughtUp_self (parse : String → Option IpNetwork) (t : ℤ) :
    CaughtUp parse origin origin t := by
  rw [caughtUp_iff]
  intro k r₀ hr₀ _ _
  exact has_iff.mpr ⟨r₀, hr₀, rfl⟩

/-- **What is out of the window is on the target already:** that is what the cursor stands for. -/
theorem HopAccount.covered (h : HopAccount c now origin target i hop) {since : Option ℤ}
    (hsince : since = hop.lastSyncAt) {k : String} {r r₀ : StoredRecord}
    (hr₀ : origin.find? k = some r₀) (hkept : isKept c.parse k) (hr : r.WellKept c.text)
    (hv : r.version = r₀.version) :
    inDelta since (r.toResponse "") ∨ Has target k r₀.version := by
  rw [inDelta_iff hr]
  by_cases hin : InWindow since r
  · exact Or.inl hin
  · right
    simp only [InWindow, not_forall, not_le] at hin
    obtain ⟨t, ht, hearly⟩ := hin
    rw [StoredRecord.touched_of_version hv] at hearly
    exact caughtUp_iff.mp (h.cursor t (hsince.symm.trans ht)).2 k r₀ hr₀ hkept hearly

/-! ### What the account of a hop survives -/

theorem HopAccount.tick (h : HopAccount c now origin target i hop) (hle : now ≤ now') :
    HopAccount c now' origin target i hop where
  cursor t ht := ⟨(h.cursor t ht).1.trans hle, (h.cursor t ht).2⟩
  run run hrun :=
    let r := h.run run hrun
    ⟨r.started.trans hle, r.since, r.entries, r.upserts, r.carried, r.first⟩

section

variable (htouch : TouchedAt c.text key now origin origin')
  (hpast : ∀ k r, origin.find? k = some r → r.touched ≤ now)

include htouch

/-- A record touched before a past moment is untouched by what happens now. -/
theorem find?_of_early {t : ℤ} (ht : t ≤ now) {k : String} {r₀ : StoredRecord}
    (hr₀ : origin'.find? k = some r₀) (hearly : r₀.touched < cutoff t) :
    origin.find? k = some r₀ := by
  obtain ⟨r, -, htouched, hfind⟩ := htouch
  rw [hfind] at hr₀
  split at hr₀
  · obtain rfl := Option.some.inj hr₀
    have := cutoff_le t
    omega
  · exact hr₀

theorem CaughtUp.touch {t : ℤ} (h : CaughtUp c.parse origin target t) (ht : t ≤ now) :
    CaughtUp c.parse origin' target t := by
  rw [caughtUp_iff] at h ⊢
  intro k r₀ hr₀ hkept hearly
  exact h k r₀ (find?_of_early htouch ht hr₀ hearly) hkept hearly

include hpast

theorem Older.touch {r : StoredRecord} (h : Older origin r) : Older origin' r := by
  obtain ⟨r₀, hr₀, hle⟩ := h
  obtain ⟨touched, -, hnow, hfind⟩ := htouch
  by_cases hk : r.targetAddress = key
  · refine ⟨touched, by rw [hfind, if_pos hk], ?_⟩
    have := hpast _ _ hr₀
    omega
  · exact ⟨r₀, by rw [hfind, if_neg hk, hr₀], hle⟩

/-- The window of the first vault only grows. -/
theorem windowAddresses_touch (hkept : WellKeptGroup c.text origin) (since : Option ℤ) :
    windowAddresses origin since ⊆ windowAddresses origin' since := by
  intro k hk
  obtain ⟨r, hr, hin⟩ := mem_windowAddresses.mp hk
  rw [inDelta_iff (hkept k r hr)] at hin
  obtain ⟨touched, htouchedKept, hnow, hfind⟩ := htouch
  by_cases hkey : k = key
  · refine mem_windowAddresses.mpr ⟨touched, by rw [hfind, if_pos hkey], ?_⟩
    rw [inDelta_iff htouchedKept]
    intro t ht
    have hbefore := hin t ht
    have hpastr := hpast k r hr
    omega
  · refine mem_windowAddresses.mpr ⟨r, by rw [hfind, if_neg hkey, hr], ?_⟩
    rw [inDelta_iff (hkept k r hr)]
    exact hin

/-- **A sighting or a deletion** keeps the account: it concerns the present only. -/
theorem HopAccount.touch (hkept : WellKeptGroup c.text origin)
    (h : HopAccount c now origin target i hop) : HopAccount c now origin' target i hop where
  cursor t ht := ⟨(h.cursor t ht).1, (h.cursor t ht).2.touch htouch (h.cursor t ht).1⟩
  run run hrun := by
    have r := h.run run hrun
    refine ⟨r.started, r.since, r.entries.imp ?_, r.upserts, ?_, ?_⟩
    · intro record hrecord
      exact ⟨hrecord.1.touch htouch hpast, hrecord.2⟩
    · intro hsaw k r₀ hr₀ hkeptk hearly
      exact r.carried hsaw k r₀ (find?_of_early htouch r.started hr₀ hearly) hkeptk hearly
    · intro hi
      refine ⟨(r.first hi).1, ?_⟩
      have hthere := (r.first hi).2
      cases hstage : run.stage with
      | paging offset allRecords seen =>
          rw [hstage] at hthere
          exact List.Subset.trans hthere (windowAddresses_touch htouch hpast hkept run.since)
      | fetched delta => trivial
      | pushing pending summary all => trivial

end

/-! ### What the steps of a run do to it -/

/-- A run begins with nothing read. -/
theorem HopAccount.start (h : HopAccount c now origin target i hop) :
    HopAccount c now origin target i
      { hop with run := some ⟨now, hop.lastSyncAt, .paging 0 [] [], true⟩ } where
  cursor := h.cursor
  run run hrun := by
    obtain rfl := Option.some.inj hrun
    refine ⟨le_refl now, rfl, ?_, trivial, ?_, fun _ => ⟨rfl, List.nil_subset _⟩⟩
    · intro b hb
      cases hb
    · intro _ k r₀ _ _ _
      refine ⟨?_, Or.inl rfl⟩
      intro r hr
      cases hr

theorem HopAccount.abandon (h : HopAccount c now origin target i hop) :
    HopAccount c now origin target i { hop with run := none } where
  cursor := h.cursor
  run run hrun := by cases hrun

/-- What a page leaves of a run, and when it still has seen all. -/
theorem nextPage_spec {s : ChainState} (h : s.nextPage c i run = some run') :
    run'.startedAt = run.startedAt ∧ run'.since = run.since ∧ Upserts run'.stage ∧
      StillThere (s.vaults i) run.since run'.stage ∧
      (run'.sawAll = true ↔ run.sawAll = true ∧
        CaughtUp c.parse (s.vaults 0) (s.vaults i) run.startedAt ∧
        StillThere (s.vaults i) run.since run.stage) := by
  cases hstage : run.stage with
  | paging offset allRecords seen =>
      rw [ChainState.nextPage, hstage] at h
      obtain rfl := Option.some.inj h
      refine ⟨rfl, rfl, ?_, ?_, by simp [StillThere]⟩
      · simp only
        split <;> trivial
      · simp only
        split
        · trivial
        · exact List.Subset.refl _
  | fetched delta => simp [ChainState.nextPage, hstage] at h
  | pushing pending summary all => simp [ChainState.nextPage, hstage] at h

/-- **A page keeps the account.**  A run that still has seen all found every record from before its
start on its source. -/
theorem HopAccount.page {s : ChainState}
    (h : HopAccount c s.now (s.vaults 0) target i hop) (hrun : hop.run = some run)
    (hkept : WellKeptGroup c.text (s.vaults i))
    (holder : ∀ k r, (s.vaults i).find? k = some r → Older (s.vaults 0) r)
    (hpage : s.nextPage c i run = some run') :
    HopAccount c s.now (s.vaults 0) target i { hop with run := some run' } where
  cursor := h.cursor
  run run'' hrun'' := by
    obtain rfl := Option.some.inj hrun''
    have r := h.run run hrun
    obtain ⟨hstarted, hsince, hupserts, hthere, hsaw⟩ := nextPage_spec hpage
    refine ⟨hstarted ▸ r.started, hsince.trans r.since, ?_, hupserts, ?_, ?_⟩
    · intro b hb
      rw [hsince]
      rcases mem_entries_of_nextPage hpage hb with hold | ⟨record, hrecord, rfl, hin⟩
      · exact r.entries b hold
      · have hrecordKept := hkept _ _ hrecord
        exact ⟨record, rfl, hrecordKept, holder _ _ hrecord,
          (inDelta_iff hrecordKept _ _).mp hin⟩
    · intro hsaw' k r₀ hr₀ hkeptk hearly
      rw [hstarted] at hearly
      obtain ⟨hsawBefore, hcaughtUp, -⟩ := hsaw.mp hsaw'
      obtain ⟨record, hrecord, hv⟩ := has_iff.mp
        (caughtUp_iff.mp hcaughtUp k r₀ hr₀ hkeptk hearly)
      have hcovered := h.covered r.since hr₀ hkeptk (hkept k record hrecord) hv
      exact (r.carried hsawBefore k r₀ hr₀ hkeptk hearly).nextPage hpage hrecord hv hcovered hsaw'
    · rintro rfl
      obtain ⟨hsawBefore, hthereBefore⟩ := r.first rfl
      refine ⟨hsaw.mpr ⟨hsawBefore, caughtUp_self _ _, hthereBefore⟩, ?_⟩
      rw [hsince]
      exact hthere

/-- **A push keeps the account.** -/
theorem HopAccount.push {http : Http W} {world : W}
    (h : HopAccount c now origin target i hop) (hrun : hop.run = some run)
    (hsend : ChainState.sendDelta c http i world run = some run') :
    HopAccount c now origin target i { hop with run := some run' } where
  cursor := h.cursor
  run run'' hrun'' := by
    obtain rfl := Option.some.inj hrun''
    have r := h.run run hrun
    have hentries : Carries c.text (fun r => Older origin r ∧ InWindow run.since r)
        run'.stage.entries := r.entries.subset fun b hb => mem_entries_of_sendDelta hsend hb
    have hway : ∀ k v, OnTheWay target run.stage k v → isKept c.parse k →
        OnTheWay target run'.stage k v := fun k v hway hkept => hway.sendDelta hsend hkept
    obtain ⟨delta, pending, summary, all, hstage, rfl, hpending, -, hsuccess⟩ := sendDelta_spec hsend
    refine ⟨r.started, r.since, hentries, ⟨fun a ha => (hpending a ha).1, hsuccess⟩, ?_, ?_⟩
    · intro hsaw k r₀ hr₀ hkept hearly
      exact hway k r₀.version (r.carried hsaw k r₀ hr₀ hkept hearly) hkept
    · exact fun hi => ⟨(r.first hi).1, trivial⟩

/-- A vault that takes a batch of records with property `p` keeps having only such records. -/
theorem handleBatch_keeps {text : AddressText} {p : StoredRecord → Prop}
    (hp : ∀ r s : StoredRecord, s.version = r.version → s.targetAddress = r.targetAddress →
      p r → p s) {records : List BatchRecordInput} (hrecords : Carries text p records)
    (htarget : ∀ k r, target.find? k = some r → r.WellKept text ∧ p r) (k : String)
    (stored : StoredRecord)
    (hstored : (handleBatch text now .upsert records target).find? k = some stored) :
    stored.WellKept text ∧ p stored := by
  have hrelayed : ∀ b ∈ records, ∃ r : StoredRecord, r.relayed = b ∧ r.WellKept text := by
    intro b hb
    obtain ⟨r, hr, hkept, -⟩ := hrecords b hb
    exact ⟨r, hr, hkept⟩
  rcases find?_handleBatch_relayed target now records hrelayed k with
    ⟨r, s, hr, hk, hversion, hkept, hfind⟩ | ⟨-, hsame⟩
  · obtain rfl := Option.some.inj (hfind.symm.trans hstored)
    obtain ⟨r', hsame, -, hpr⟩ := hrecords _ hr
    obtain rfl := relayed_injective hsame
    exact ⟨hkept, hp r' s hversion ((Table.key_of_find? hfind).trans hk.symm) hpr⟩
  · rw [hsame] at hstored
    exact htarget k stored hstored

/-- Records from the window of the cursor leave what the cursor stands for alone. -/
theorem CaughtUp.handleBatch {t : ℤ} (h : CaughtUp c.parse origin target t)
    {records : List BatchRecordInput} {since : Option ℤ} (ht : since = some t)
    (hrecords : Carries c.text (fun r => Older origin r ∧ InWindow since r) records) :
    CaughtUp c.parse origin (handleBatch c.text now .upsert records target) t := by
  rw [caughtUp_iff] at h ⊢
  intro k r₀ hr₀ hkept hearly
  have hrelayed : ∀ b ∈ records, ∃ r : StoredRecord, r.relayed = b ∧ r.WellKept c.text := by
    intro b hb
    obtain ⟨r, hr, hkept, -⟩ := hrecords b hb
    exact ⟨r, hr, hkept⟩
  rcases find?_handleBatch_relayed target now records hrelayed k with
    ⟨r, s, hr, hk, -, -, -⟩ | ⟨-, hsame⟩
  · -- an entry for `k` would be from the window, and its origin touched before it
    obtain ⟨r', hsame, -, ⟨r₁, hr₁, hle⟩, hin⟩ := hrecords _ hr
    obtain rfl := relayed_injective hsame
    rw [hk, hr₀, Option.some.injEq] at hr₁
    subst hr₁
    have := hin t ht
    omega
  · rw [Has, hsame]
    exact h k r₀ hr₀ hkept hearly

/-- **A delivery keeps the account** of its hop. -/
theorem HopAccount.deliver {a : Attempt} {pending : List Attempt} {summary : JobSummary}
    {allTargetsSucceeded : Bool} {group : VaultGroup}
    (h : HopAccount c now origin target i hop) (hrun : hop.run = some run)
    (hstage : run.stage = .pushing (a :: pending) summary allTargetsSucceeded)
    (hgroup : group = handleBatch c.text now a.mode a.records target ∨
      (a.isAccepted = false ∧ group = target)) :
    HopAccount c now origin group i
      { hop with
        run := some { run with stage := .pushing pending summary allTargetsSucceeded } } := by
  have r := h.run run hrun
  have hentries := r.entries
  have hupserts := r.upserts
  rw [hstage] at hentries hupserts
  have hmode : a.mode = .upsert := hupserts.1 a List.mem_cons_self
  have hhead : Carries c.text (fun r => Older origin r ∧ InWindow run.since r) a.records :=
    hentries.subset fun b hb => List.mem_flatMap.mpr ⟨a, List.mem_cons_self, hb⟩
  constructor
  · intro t ht
    refine ⟨(h.cursor t ht).1, ?_⟩
    rcases hgroup with rfl | ⟨-, rfl⟩
    · rw [hmode]
      exact (h.cursor t ht).2.handleBatch (r.since.trans ht) hhead
    · exact (h.cursor t ht).2
  · intro run' hrun'
    obtain rfl := Option.some.inj hrun'
    refine ⟨r.started, r.since, ?_, ⟨?_, hupserts.2⟩, ?_, fun hi => ⟨(r.first hi).1, trivial⟩⟩
    · refine hentries.subset fun b hb => ?_
      obtain ⟨a', ha', hb⟩ := List.mem_flatMap.mp hb
      exact List.mem_flatMap.mpr ⟨a', List.mem_cons_of_mem _ ha', hb⟩
    · exact fun a' ha' => hupserts.1 a' (List.mem_cons_of_mem _ ha')
    · intro hsaw k r₀ hr₀ hkept hearly
      have hway := r.carried hsaw k r₀ hr₀ hkept hearly
      rw [hstage] at hway
      exact hway.deliver hmode hhead hgroup

/-- A record that was on its way to the end has arrived. -/
theorem OnTheWay.has {summary : JobSummary} {k : String} {v : Option ℤ × ℤ}
    (h : OnTheWay target (.pushing [] summary true) k v) : Has target k v := by
  rcases h.ahead rfl with hhas | ⟨a, ha, -⟩
  · exact hhas
  · cases ha

/-- **Setting the cursor keeps the account,** if the run has seen all that it will stand for. -/
theorem HopAccount.record {summary : JobSummary} {allTargetsSucceeded : Bool}
    (h : HopAccount c now origin target i hop) (hrun : hop.run = some run)
    (hstage : run.stage = .pushing [] summary allTargetsSucceeded)
    (hgood : 0 < i → allTargetsSucceeded = true → run.sawAll = true) :
    HopAccount c now origin target i
      { lastSyncAt := if allTargetsSucceeded then some run.startedAt else hop.lastSyncAt
        run := none } := by
  have r := h.run run hrun
  refine ⟨?_, fun run' hrun' => by cases hrun'⟩
  intro t ht
  cases allTargetsSucceeded with
  | false => exact h.cursor t ht
  | true =>
      obtain rfl := Option.some.inj ht
      have hsaw : run.sawAll = true := by
        rcases Nat.eq_zero_or_pos i with hzero | hpos
        · exact (r.first hzero).1
        · exact hgood hpos rfl
      refine ⟨r.started, caughtUp_iff.mpr ?_⟩
      intro k r₀ hr₀ hkept hearly
      have hway := r.carried hsaw k r₀ hr₀ hkept hearly
      rw [hstage] at hway
      exact hway.has

end

end SimplyIpSync.Replication
