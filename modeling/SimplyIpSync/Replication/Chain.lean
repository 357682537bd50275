import SimplyIpSync.Lib.Reach
import SimplyIpSync.Replication.Cursor
import SimplyIpSync.Replication.MockVault

/-!
# A chain of vaults

Vaults `0, 1, …, n`, and for each hop `i < n` one vault-sync task that copies the chain's group from
vault `i` to vault `i + 1`.  Users write to vault `0` only.  The tasks run whenever they are started,
one run of a task at a time, and their steps interleave: each page of a fetch and each request of a
push is a step of its own, and a request that the client takes for failed may have been
applied all the same.

A run notes, for the account only, whether vault `i` had everything that the cursor will stand for
when it read a page (`sawAll`); no code sees this.
-/

namespace SimplyIpSync.Replication

open SimplyIpSync.Entities SimplyIpSync.Storage SimplyIpSync.Store SimplyIpSync.Client
open SimplyIpSync.Bogon SimplyIpSync.Jobs SimplyIpSync.Jobs.VaultSync SimplyIpSync.Reach

variable {W : Type*}

/-- The vaults and the tasks of a chain, and what vaults and service take from elsewhere.  Each task
reads the group that the one before it writes. -/
structure Chain where
  length : ℕ
  vault : ℕ → VaultEndpoint
  /-- The task of each hop; its cursor is part of the state. -/
  task : ℕ → VaultSyncTask
  text : AddressText
  parse : String → Option IpNetwork
  maxRetries : ℕ
  reads : ∀ i, (task i).sourceVaultId = (vault i).id
  linked : ∀ i, (task i).targetGroupName = (task (i + 1)).sourceGroupName

/-- The only target of a hop. -/
def Chain.target (c : Chain) (i : ℕ) : PushTarget where
  vaultId := (c.vault (i + 1)).id
  groupName := (c.task i).targetGroupName
  vault := some (c.vault (i + 1))

/-! ### The state -/

/-- Where a run stands. -/
inductive HopStage
  /-- In the loop of `get_ips_delta`; `seen` are the addresses of the window at the last page. -/
  | paging (offset : ℕ) (allRecords : List IpRecordResponse) (seen : List String)
  | fetched (delta : List IpRecordResponse)
  /-- The requests still to arrive, and what the run will report. -/
  | pushing (pending : List Attempt) (summary : JobSummary) (allTargetsSucceeded : Bool)

/-- A run in progress. -/
structure HopRun where
  startedAt : ℤ
  /-- The cursor the run has read. -/
  since : Option ℤ
  stage : HopStage
  sawAll : Bool

/-- A task: its cursor and its run. -/
structure Hop where
  lastSyncAt : Option ℤ
  run : Option HopRun

/-- The whole chain. -/
structure ChainState where
  now : ℤ
  /-- The chain's group on each vault. -/
  vaults : ℕ → VaultGroup
  hops : ℕ → Hop

/-- What can happen. -/
inductive ChainEvent (W : Type*)
  | tick (now : ℤ)
  | sight (address : String)
  | delete (address : String)
  | start (i : ℕ)
  | page (i : ℕ)
  | push (i : ℕ) (world : W)
  /-- The next request arrives; `applied` decides for one that the client takes for failed. -/
  | deliver (i : ℕ) (applied : Bool)
  | record (i : ℕ)
  /-- The run fails at a page, or dies. -/
  | abandon (i : ℕ)

/-- Every record of `origin` that is no bogon and was touched before the second of `t` has its
present version on `copy`. -/
def CaughtUp (parse : String → Option IpNetwork) (origin copy : VaultGroup) (t : ℤ) : Prop :=
  ∀ r ∈ origin.rows, isKept parse r.targetAddress → r.touched < cutoff t →
    (copy.find? r.targetAddress).map StoredRecord.version = some r.version

instance (parse : String → Option IpNetwork) (origin copy : VaultGroup) (t : ℤ) :
    Decidable (CaughtUp parse origin copy t) :=
  inferInstanceAs (Decidable (∀ r ∈ origin.rows, _))

/-! ### The steps -/

section

variable (c : Chain) (http : Http W)

namespace ChainState

def setVault (s : ChainState) (i : ℕ) (group : VaultGroup) : ChainState :=
  { s with vaults := Function.update s.vaults i group }

def setHop (s : ChainState) (i : ℕ) (hop : Hop) : ChainState :=
  { s with hops := Function.update s.hops i hop }

def setRun (s : ChainState) (i : ℕ) (run : Option HopRun) : ChainState :=
  s.setHop i { s.hops i with run := run }

section

variable (s : ChainState) (i : ℕ) (group : VaultGroup) (hop : Hop)

@[simp] theorem setVault_now : (s.setVault i group).now = s.now := rfl

@[simp] theorem setVault_hops : (s.setVault i group).hops = s.hops := rfl

@[simp] theorem setVault_self : (s.setVault i group).vaults i = group := by
  show Function.update s.vaults i group i = group
  rw [Function.update_self]

theorem setVault_of_ne {i j : ℕ} (hj : j ≠ i) : (s.setVault i group).vaults j = s.vaults j := by
  show Function.update s.vaults i group j = s.vaults j
  rw [Function.update_of_ne hj]

@[simp] theorem setHop_now : (s.setHop i hop).now = s.now := rfl

@[simp] theorem setHop_vaults : (s.setHop i hop).vaults = s.vaults := rfl

@[simp] theorem setHop_self : (s.setHop i hop).hops i = hop := by
  show Function.update s.hops i hop i = hop
  rw [Function.update_self]

theorem setHop_of_ne {i j : ℕ} (hj : j ≠ i) : (s.setHop i hop).hops j = s.hops j := by
  show Function.update s.hops i hop j = s.hops j
  rw [Function.update_of_ne hj]

end

/-- The next page: the loop ends with the first short one. -/
def nextPage (s : ChainState) (i : ℕ) (run : HopRun) : Option HopRun :=
  match run.stage with
  | .paging offset allRecords seen =>
      let source := s.vaults i
      let records := handleGet (c.task i).sourceGroupName source run.since true offset
      let window := windowAddresses source run.since
      some { run with
        stage :=
          if records.length < deltaPageSize then .fetched (allRecords ++ records)
          else .paging (offset + deltaPageSize) (allRecords ++ records) window
        sawAll := run.sawAll &&
          decide (CaughtUp c.parse (s.vaults 0) source run.startedAt ∧ seen ⊆ window) }
  | _ => none

/-- The push: all its requests are on their way. -/
def sendDelta (i : ℕ) (world : W) (run : HopRun) : Option HopRun :=
  match run.stage with
  | .fetched delta =>
      let out := pushDelta (journaled http) c.parse c.maxRetries
        { c.task i with lastSyncAt := run.since } (c.vault i) [c.target i] delta (world, [])
      some { run with stage := .pushing out.2.2 out.1.1 out.1.2 }
  | _ => none

/-- A request arrives at the target. -/
def deliverNext (s : ChainState) (i : ℕ) (applied : Bool) (run : HopRun) : Option ChainState :=
  match run.stage with
  | .pushing (a :: pending) summary allTargetsSucceeded =>
      let target := s.vaults (i + 1)
      let target' :=
        if a.isAccepted || applied then handleBatch c.text s.now a.mode a.records target
        else target
      some ((s.setVault (i + 1) target').setRun i
        (some { run with stage := .pushing pending summary allTargetsSucceeded }))
  | _ => none

/-- The end of a run, as in `recordRun`. -/
def recordHop (s : ChainState) (i : ℕ) (run : HopRun) : Option ChainState :=
  match run.stage with
  | .pushing [] _ allTargetsSucceeded =>
      some (s.setHop i
        { lastSyncAt := if allTargetsSucceeded then some run.startedAt else (s.hops i).lastSyncAt
          run := none })
  | _ => none

/-- One event. -/
def step (s : ChainState) : ChainEvent W → Option ChainState
  | .tick now => if s.now ≤ now then some { s with now := now } else none
  | .sight address => some (s.setVault 0 (seedAddress c.text (s.vaults 0) address s.now))
  | .delete address =>
      (softDeleteAddress c.text (s.vaults 0) address s.now).map fun group => s.setVault 0 group
  | .start i =>
      if i < c.length ∧ (s.hops i).run.isNone then
        some (s.setRun i (some ⟨s.now, (s.hops i).lastSyncAt, .paging 0 [] [], true⟩))
      else none
  | .page i =>
      ((s.hops i).run.bind (s.nextPage c i)).map fun run => s.setRun i (some run)
  | .push i world =>
      ((s.hops i).run.bind (sendDelta c http i world)).map fun run => s.setRun i (some run)
  | .deliver i applied => (s.hops i).run.bind (s.deliverNext c i applied)
  | .record i => (s.hops i).run.bind (s.recordHop i)
  | .abandon i => if (s.hops i).run.isSome then some (s.setRun i none) else none

variable {c http} {s s' : ChainState} {i : ℕ}

theorem tick_spec {now : ℤ} (h : s.step c http (.tick now) = some s') :
    s.now ≤ now ∧ s' = { s with now := now } := by
  simp only [step] at h
  split at h
  case isTrue hnow => exact ⟨hnow, (Option.some.inj h).symm⟩
  case isFalse => cases h

theorem start_spec (h : s.step c http (.start i) = some s') :
    s' = s.setRun i (some ⟨s.now, (s.hops i).lastSyncAt, .paging 0 [] [], true⟩) := by
  simp only [step] at h
  split at h
  case isTrue => exact (Option.some.inj h).symm
  case isFalse => cases h

theorem abandon_spec (h : s.step c http (.abandon i) = some s') : s' = s.setRun i none := by
  simp only [step] at h
  split at h
  case isTrue => exact (Option.some.inj h).symm
  case isFalse => cases h

/-- Nothing has been seen, and nothing has run. -/
def start (now : ℤ) : ChainState where
  now := now
  vaults _ := .empty
  hops _ := ⟨none, none⟩

end ChainState

/-! ### An undisturbed fetch -/

/-- When nothing else happens, the pages of a run are those of `get_ips_delta` against a vault that
serves them. -/
theorem fetch_undisturbed (i : ℕ) (s : ChainState) (run : HopRun) (w : W)
    (hrun : (s.hops i).run = some run) (offset : ℕ) (allRecords : List IpRecordResponse)
    (seen : List String) (hstage : run.stage = .paging offset allRecords seen)
    (hserve : ∀ offset, http.getIpsPage (c.vault i) (c.task i).sourceGroupName run.since true offset
      w = (.ok (handleGet (c.task i).sourceGroupName (s.vaults i) run.since true offset), w)) :
    ∃ fuel delta s' run',
      runEvents (ChainState.step c http) anyStep s (List.replicate fuel (.page i)) = some s' ∧
      (s'.hops i).run = some run' ∧ run'.stage = .fetched delta ∧
      getIpsDeltaFrom http c.maxRetries (c.vault i) (c.task i).sourceGroupName run.since true fuel
        offset allRecords w = some (.ok delta, w) := by
  generalize hleft : (matched (c.task i).sourceGroupName (s.vaults i) run.since true).length -
    offset = left
  induction left using Nat.strong_induction_on generalizing s run offset allRecords seen with
  | _ left ih =>
      have hpage : getIpsPageWithRetry http c.maxRetries (c.vault i) (c.task i).sourceGroupName
          run.since true offset w =
            (.ok (handleGet (c.task i).sourceGroupName (s.vaults i) run.since true offset), w) := by
        rw [getIpsPageWithRetry, retryFrom, hserve]
      obtain ⟨next, window, hnext, hsince, hstageNext⟩ : ∃ next window,
          s.nextPage c i run = some next ∧ next.since = run.since ∧ next.stage =
            if (handleGet (c.task i).sourceGroupName (s.vaults i) run.since true offset).length <
              deltaPageSize then
              .fetched (allRecords ++
                handleGet (c.task i).sourceGroupName (s.vaults i) run.since true offset)
            else .paging (offset + deltaPageSize) (allRecords ++
              handleGet (c.task i).sourceGroupName (s.vaults i) run.since true offset) window := by
        rw [ChainState.nextPage, hstage]
        exact ⟨_, _, rfl, rfl, rfl⟩
      have hstep : s.step c http (.page i) = some (s.setRun i (some next)) := by
        simp only [ChainState.step, hrun, Option.bind_some, hnext, Option.map_some]
      have hnextRun : ((s.setRun i (some next)).hops i).run = some next :=
        congrArg Hop.run (s.setHop_self i _)
      by_cases hshort : (handleGet (c.task i).sourceGroupName (s.vaults i) run.since true
          offset).length < deltaPageSize
      · rw [if_pos hshort] at hstageNext
        refine ⟨1, _, _, _, ?_, hnextRun, hstageNext, ?_⟩
        · simp only [List.replicate_one, runEvents, anyStep, if_true, hstep, Option.bind_some]
        · simp only [getIpsDeltaFrom, hpage, if_pos hshort]
      · -- a full page: there are fewer records left
        rw [if_neg hshort] at hstageNext
        have hfull : (handleGet (c.task i).sourceGroupName (s.vaults i) run.since true
            offset).length =
            min deltaPageSize ((matched (c.task i).sourceGroupName (s.vaults i) run.since
              true).length - offset) := by
          rw [handleGet, Paging.page, List.length_take, List.length_drop]
        have hpos : 0 < deltaPageSize := by decide
        have hless : (matched (c.task i).sourceGroupName (s.vaults i) run.since true).length -
            (offset + deltaPageSize) < left := by omega
        obtain ⟨fuel, delta, s', run', hrest, hrun', hstage', hdelta⟩ :=
          ih _ hless (s.setRun i (some next)) next hnextRun (offset + deltaPageSize) _ window
            hstageNext (by rw [hsince]; exact hserve) (by rw [hsince]; rfl)
        rw [hsince] at hdelta
        refine ⟨fuel + 1, delta, s', run', ?_, hrun', hstage', ?_⟩
        · simp only [List.replicate_succ, runEvents, anyStep, if_true, hstep, Option.bind_some]
          exact hrest
        · simp only [getIpsDeltaFrom, hpage, if_neg hshort]
          exact hdelta

/-! ### What is claimed, and when it holds -/

/-- The run is about to set the cursor. -/
def HopRun.setsCursor (run : HopRun) : Bool :=
  match run.stage with
  | .pushing _ _ allTargetsSucceeded => allTargetsSucceeded
  | _ => false

/-- A run of a later hop that sets its cursor found, at every page it read, everything on its source
that the cursor is to stand for. -/
def FoundAll (s : ChainState) : ChainEvent W → Prop
  | .record i => 0 < i → ∀ run ∈ (s.hops i).run, run.setsCursor = true → run.sawAll = true
  | _ => True

instance (s : ChainState) (e : ChainEvent W) : Decidable (FoundAll s e) := by
  cases e with
  | record i => exact inferInstanceAs (Decidable (0 < i → ∀ run ∈ (s.hops i).run, _))
  | _ => exact isTrue trivial

/-- Vault `0` is not written to. -/
def Quiet : ChainEvent W → Bool
  | .sight _ | .delete _ => false
  | _ => true

/-- Vault `0` is not written to, and hop `i` does not start another run. -/
def QuietFor (i : ℕ) : ChainEvent W → Bool
  | .sight _ | .delete _ => false
  | .start j => j != i
  | _ => true

/-- Vault `0` stays as it is from `s` on, and the tasks `0, …, m - 1` complete a `SUCCESS` run one
after the other: hop `i` starts its run when the run of hop `i - 1` is over.  Everything else may
happen in between.  Every step meets `good`. -/
inductive HopsComplete (good : ChainState → ChainEvent W → Prop) (s : ChainState) :
    ℕ → ChainState → Prop
  | quiet {t : ChainState} :
      Reaches (ChainState.step c http) (fun t e => good t e ∧ Quiet e = true) s t →
      HopsComplete good s 0 t
  | hop {i : ℕ} {t t₁ t₂ t₃ u : ChainState} {run : HopRun} {summary : JobSummary}
      {allTargetsSucceeded : Bool} :
      HopsComplete good s i t →
      good t (.start i) → t.step c http (.start i) = some t₁ →
      Reaches (ChainState.step c http) (fun t e => good t e ∧ QuietFor i e = true) t₁ t₂ →
      (t₂.hops i).run = some run → run.stage = .pushing [] summary allTargetsSucceeded →
      summary.status = .success →
      good t₂ (.record i) → t₂.step c http (.record i) = some t₃ →
      Reaches (ChainState.step c http) (fun t e => good t e ∧ Quiet e = true) t₃ u →
      HopsComplete good s (i + 1) u

/-- **The chain has converged:** every record of vault `0` that is no bogon is on the last vault, in
the same state of deletion. -/
def Converged (s : ChainState) : Prop :=
  ∀ r ∈ (s.vaults 0).rows, isKept c.parse r.targetAddress →
    ∃ copy ∈ (s.vaults c.length).rows,
      copy.targetAddress = r.targetAddress ∧ copy.isDeleted = r.isDeleted

instance (s : ChainState) : Decidable (Converged c s) :=
  inferInstanceAs (Decidable (∀ r ∈ (s.vaults 0).rows, _))

end

end SimplyIpSync.Replication
