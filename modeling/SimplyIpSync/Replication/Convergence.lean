import SimplyIpSync.Replication.HopAccount

/-!
# Chains converge when no cursor runs ahead

Every step of the chain keeps the account of every hop.  From it: once vault `0` is quiet, the
`SUCCESS` runs of the hops, one after the other, bring everything to the last vault.  The condition
is about the runs before that; without it a chain of two hops need not converge.
-/

namespace SimplyIpSync.Replication

open SimplyIpSync.Entities SimplyIpSync.Storage SimplyIpSync.Store SimplyIpSync.Client
open SimplyIpSync.Bogon SimplyIpSync.Jobs SimplyIpSync.Jobs.VaultSync SimplyIpSync.Reach

variable {W : Type*}

/-! ### The account of the chain -/

/-- The account of a state: what the vaults hold comes from vault `0`, and every hop is accounted. -/
structure ChainAccount (c : Chain) (s : ChainState) : Prop where
  kept : ∀ i, WellKeptGroup c.text (s.vaults i)
  past : ∀ k r, (s.vaults 0).find? k = some r → r.touched ≤ s.now
  older : ∀ i k r, (s.vaults i).find? k = some r → Older (s.vaults 0) r
  hops : ∀ i, HopAccount c s.now (s.vaults 0) (s.vaults (i + 1)) i (s.hops i)

section

variable {c : Chain} {http : Http W} {s s' : ChainState} {i : ℕ} {run run' : HopRun}

/-- Nothing has happened yet. -/
theorem ChainAccount.start (c : Chain) (now : ℤ) : ChainAccount c (.start now) where
  kept i k r hr := by cases hr
  past k r hr := by cases hr
  older i k r hr := by cases hr
  hops i := ⟨fun _ ht => (nomatch ht), fun _ hrun => (nomatch hrun)⟩

theorem ChainAccount.tick (h : ChainAccount c s) {now : ℤ} (hle : s.now ≤ now) :
    ChainAccount c { s with now := now } where
  kept := h.kept
  past k r hr := (h.past k r hr).trans hle
  older := h.older
  hops i := (h.hops i).tick hle

/-- What happens on the first vault concerns the present only. -/
theorem ChainAccount.touch (h : ChainAccount c s) {key : String} {group : VaultGroup}
    (htouch : TouchedAt c.text key s.now (s.vaults 0) group) :
    ChainAccount c (s.setVault 0 group) := by
  have hvault : ∀ i, (s.setVault 0 group).vaults (i + 1) = s.vaults (i + 1) :=
    fun i => s.setVault_of_ne group (Nat.succ_ne_zero i)
  have hzero : (s.setVault 0 group).vaults 0 = group := s.setVault_self 0 group
  obtain ⟨r, hkept, hnow, hfind⟩ := htouch
  have hat : ∀ k r', group.find? k = some r' → r' = r ∨ (s.vaults 0).find? k = some r' := by
    intro k r' hr'
    rw [hfind] at hr'
    split at hr'
    · exact Or.inl (Option.some.inj hr').symm
    · exact Or.inr hr'
  refine ⟨?_, ?_, ?_, ?_⟩
  · intro i
    cases i with
    | zero =>
        rw [hzero]
        intro k r' hr'
        rcases hat k r' hr' with rfl | hold
        · exact hkept
        · exact h.kept 0 k r' hold
    | succ i =>
        rw [hvault]
        exact h.kept (i + 1)
  · rw [hzero]
    intro k r' hr'
    rcases hat k r' hr' with rfl | hold
    · exact hnow.le
    · exact h.past k r' hold
  · intro i
    rw [hzero]
    cases i with
    | zero =>
        rw [hzero]
        intro k r' hr'
        exact ⟨r', by rw [Table.key_of_find? hr', hr'], le_refl _⟩
    | succ i =>
        rw [hvault]
        intro k r' hr'
        exact (h.older (i + 1) k r' hr').touch ⟨r, hkept, hnow, hfind⟩ h.past
  · intro i
    rw [hzero, hvault]
    exact (h.hops i).touch ⟨r, hkept, hnow, hfind⟩ h.past (h.kept 0)

/-- A hop takes a step of its own. -/
theorem ChainAccount.setHop (h : ChainAccount c s) {hop : Hop}
    (hhop : HopAccount c s.now (s.vaults 0) (s.vaults (i + 1)) i hop) :
    ChainAccount c (s.setHop i hop) where
  kept := h.kept
  past := h.past
  older := h.older
  hops j := by
    rw [s.setHop_now, s.setHop_vaults]
    by_cases hj : j = i
    · subst hj
      rw [s.setHop_self]
      exact hhop
    · rw [s.setHop_of_ne hop hj]
      exact h.hops j

/-- A request arrives at a vault, and its hop goes on. -/
theorem ChainAccount.setVault (h : ChainAccount c s) {group : VaultGroup} {hop : Hop}
    (hkept : WellKeptGroup c.text group)
    (holder : ∀ k r, group.find? k = some r → Older (s.vaults 0) r)
    (hhop : HopAccount c s.now (s.vaults 0) group i hop) :
    ChainAccount c ((s.setVault (i + 1) group).setHop i hop) := by
  have hzero : (s.setVault (i + 1) group).vaults 0 = s.vaults 0 :=
    s.setVault_of_ne group (Nat.succ_ne_zero i).symm
  refine ⟨?_, ?_, ?_, ?_⟩
  · intro j
    rw [ChainState.setHop_vaults]
    by_cases hj : j = i + 1
    · subst hj
      rw [s.setVault_self]
      exact hkept
    · rw [s.setVault_of_ne group hj]
      exact h.kept j
  · rw [ChainState.setHop_vaults, ChainState.setHop_now, hzero]
    exact h.past
  · intro j
    rw [ChainState.setHop_vaults, hzero]
    by_cases hj : j = i + 1
    · subst hj
      rw [s.setVault_self]
      exact holder
    · rw [s.setVault_of_ne group hj]
      exact h.older j
  · intro j
    rw [ChainState.setHop_vaults, ChainState.setHop_now, hzero]
    by_cases hj : j = i
    · subst hj
      rw [s.setVault_self, ChainState.setHop_self]
      exact hhop
    · rw [s.setVault_of_ne group (by omega), ChainState.setHop_of_ne _ hop hj]
      exact h.hops j

/-- A delivery, at the vault it goes to. -/
theorem ChainAccount.deliver (h : ChainAccount c s) (hrun : (s.hops i).run = some run)
    {applied : Bool} (hdeliver : s.deliverNext c i applied run = some s') : ChainAccount c s' := by
  obtain ⟨a, pending, summary, all, group, hstage, rfl, hgroup⟩ := deliverNext_spec hdeliver
  have hhop := (h.hops i).deliver hrun hstage hgroup
  have hrunAccount := (h.hops i).run run hrun
  have hentries := hrunAccount.entries
  have hupserts := hrunAccount.upserts
  rw [hstage] at hentries hupserts
  have hmode : a.mode = .upsert := hupserts.1 a List.mem_cons_self
  have hhead : Carries c.text (Older (s.vaults 0)) a.records := by
    refine (hentries.subset fun b hb => ?_).imp fun r hr => hr.1
    exact List.mem_flatMap.mpr ⟨a, List.mem_cons_self, hb⟩
  have holder : ∀ r stored : StoredRecord, stored.version = r.version →
      stored.targetAddress = r.targetAddress → Older (s.vaults 0) r → Older (s.vaults 0) stored := by
    intro r stored hversion haddress ⟨r₀, hr₀, hle⟩
    exact ⟨r₀, by rw [haddress, hr₀], (StoredRecord.touched_of_version hversion).trans_le hle⟩
  have hgroupKept : ∀ k r, group.find? k = some r → r.WellKept c.text ∧ Older (s.vaults 0) r := by
    rcases hgroup with rfl | ⟨-, rfl⟩
    · rw [hmode]
      exact handleBatch_keeps holder hhead
        fun k r hr => ⟨h.kept (i + 1) k r hr, h.older (i + 1) k r hr⟩
    · exact fun k r hr => ⟨h.kept (i + 1) k r hr, h.older (i + 1) k r hr⟩
  exact h.setVault (fun k r hr => (hgroupKept k r hr).1) (fun k r hr => (hgroupKept k r hr).2) hhop

/-- The end of a run. -/
theorem recordHop_spec (h : s.recordHop i run = some s') :
    ∃ summary allTargetsSucceeded, run.stage = .pushing [] summary allTargetsSucceeded ∧
      s' = s.setHop i
        { lastSyncAt := if allTargetsSucceeded then some run.startedAt else (s.hops i).lastSyncAt
          run := none } := by
  cases hstage : run.stage with
  | pushing pending summary all =>
      cases pending with
      | nil =>
          rw [ChainState.recordHop, hstage] at h
          obtain rfl := Option.some.inj h
          exact ⟨summary, all, rfl, rfl⟩
      | cons a pending => simp [ChainState.recordHop, hstage] at h
  | paging offset allRecords seen => simp [ChainState.recordHop, hstage] at h
  | fetched delta => simp [ChainState.recordHop, hstage] at h

/-- **Every step** in which no cursor runs ahead keeps the account. -/
theorem ChainAccount.step {e : ChainEvent W} (h : ChainAccount c s) (hgood : FoundAll s e)
    (hstep : s.step c http e = some s') : ChainAccount c s' := by
  cases e with
  | tick now =>
      obtain ⟨hnow, rfl⟩ := ChainState.tick_spec hstep
      exact h.tick hnow
  | sight address =>
      obtain rfl := Option.some.inj hstep
      exact h.touch (seedAddress_touchedAt (h.kept 0) h.past address)
  | delete address =>
      obtain ⟨group, hgroup, rfl⟩ := Option.map_eq_some_iff.mp hstep
      exact h.touch (softDeleteAddress_touchedAt (h.kept 0) h.past hgroup)
  | start i =>
      obtain rfl := ChainState.start_spec hstep
      exact h.setHop (h.hops i).start
  | page i =>
      obtain ⟨run', hnext, rfl⟩ := Option.map_eq_some_iff.mp hstep
      obtain ⟨run, hrun, hpage⟩ := Option.bind_eq_some_iff.mp hnext
      exact h.setHop ((h.hops i).page hrun (h.kept i) (h.older i) hpage)
  | push i world =>
      obtain ⟨run', hnext, rfl⟩ := Option.map_eq_some_iff.mp hstep
      obtain ⟨run, hrun, hsend⟩ := Option.bind_eq_some_iff.mp hnext
      exact h.setHop ((h.hops i).push hrun hsend)
  | deliver i applied =>
      obtain ⟨run, hrun, hdeliver⟩ := Option.bind_eq_some_iff.mp hstep
      exact h.deliver hrun hdeliver
  | record i =>
      obtain ⟨run, hrun, hrecord⟩ := Option.bind_eq_some_iff.mp hstep
      obtain ⟨summary, all, hstage, rfl⟩ := recordHop_spec hrecord
      refine h.setHop ((h.hops i).record hrun hstage ?_)
      intro hpos hall
      refine hgood hpos run hrun ?_
      rw [HopRun.setsCursor, hstage]
      exact hall
  | abandon i =>
      obtain rfl := ChainState.abandon_spec hstep
      exact h.setHop (h.hops i).abandon

/-! ### Once vault `0` is quiet -/

/-- The vaults `0, …, m` hold everything in its present version, and the runs of the hops between
them carry nothing else. -/
structure UpToDate (c : Chain) (s : ChainState) (m : ℕ) : Prop where
  vaults : ∀ i ≤ m, ∀ k r₀, (s.vaults 0).find? k = some r₀ → isKept c.parse k →
    Has (s.vaults i) k r₀.version
  entries : ∀ i < m, ∀ run, (s.hops i).run = some run →
    ∀ k r₀, (s.vaults 0).find? k = some r₀ → isKept c.parse k → Only run.stage.entries k r₀.version

/-- Everything is on its way through the run of hop `m`, if there is one and it has seen all. -/
def Arriving (c : Chain) (s : ChainState) (m : ℕ) : Prop :=
  ∀ run, (s.hops m).run = some run → run.sawAll = true →
    ∀ k r₀, (s.vaults 0).find? k = some r₀ → isKept c.parse k →
      OnTheWay (s.vaults (m + 1)) run.stage k r₀.version

variable {m : ℕ}

/-- The first vault is up to date with itself. -/
theorem upToDate_zero (s : ChainState) : UpToDate c s 0 where
  vaults i hi k r₀ hr₀ _ := by
    obtain rfl := Nat.le_zero.mp hi
    exact has_iff.mpr ⟨r₀, hr₀, rfl⟩
  entries i hi := absurd hi (Nat.not_lt_zero i)

theorem UpToDate.setHop (h : UpToDate c s m) {hop : Hop}
    (hhop : i < m → ∀ run, hop.run = some run → ∀ k r₀, (s.vaults 0).find? k = some r₀ →
      isKept c.parse k → Only run.stage.entries k r₀.version) : UpToDate c (s.setHop i hop) m where
  vaults := h.vaults
  entries j hj run hrun := by
    by_cases hji : j = i
    · subst hji
      rw [s.setHop_self] at hrun
      exact hhop hj run hrun
    · rw [s.setHop_of_ne hop hji] at hrun
      exact h.entries j hj run hrun

/-- The end of a run. -/
theorem UpToDate.clearHop (h : UpToDate c s m) (i : ℕ) (lastSyncAt : Option ℤ) :
    UpToDate c (s.setHop i ⟨lastSyncAt, none⟩) m := by
  refine h.setHop ?_
  intro _ run hrun
  cases hrun

/-- A group that has a record in version `v` keeps it when a batch has no other version of it. -/
theorem Has.handleBatch {group : VaultGroup} {k : String} {v : Option ℤ × ℤ} {now : ℤ}
    {text : AddressText} {p : StoredRecord → Prop} {records : List BatchRecordInput}
    (h : Has group k v) (hcarries : Carries text p records) (honly : Only records k v) :
    Has (handleBatch text now .upsert records group) k v := by
  have hrelayed : ∀ b ∈ records, ∃ r : StoredRecord, r.relayed = b ∧ r.WellKept text := by
    intro b hb
    obtain ⟨r, hr, hkept, -⟩ := hcarries b hb
    exact ⟨r, hr, hkept⟩
  rcases find?_handleBatch_relayed group now records hrelayed k with
    ⟨r, stored, hr, hk, hversion, -, hfind⟩ | ⟨-, hsame⟩
  · exact has_iff.mpr ⟨stored, hfind, hversion.trans (honly r hr hk)⟩
  · rw [Has, hsame]
    exact h

/-- A delivery between vaults that are up to date brings nothing else. -/
theorem UpToDate.deliver (h : UpToDate c s m) (haccount : ChainAccount c s)
    (hrun : (s.hops i).run = some run) {applied : Bool}
    (hdeliver : s.deliverNext c i applied run = some s') : UpToDate c s' m := by
  obtain ⟨a, pending, summary, all, group, hstage, rfl, hgroup⟩ := deliverNext_spec hdeliver
  have hrunAccount := (haccount.hops i).run run hrun
  have hentries := hrunAccount.entries
  have hupserts := hrunAccount.upserts
  rw [hstage] at hentries hupserts
  have hmode : a.mode = .upsert := hupserts.1 a List.mem_cons_self
  have hhead : ∀ b ∈ a.records, b ∈ (HopStage.pushing (a :: pending) summary all).entries :=
    fun b hb => List.mem_flatMap.mpr ⟨a, List.mem_cons_self, hb⟩
  have htail : ∀ b ∈ (HopStage.pushing pending summary all).entries,
      b ∈ (HopStage.pushing (a :: pending) summary all).entries := by
    intro b hb
    obtain ⟨a', ha', hb⟩ := List.mem_flatMap.mp hb
    exact List.mem_flatMap.mpr ⟨a', List.mem_cons_of_mem _ ha', hb⟩
  have hzero : (s.setVault (i + 1) group).vaults 0 = s.vaults 0 :=
    s.setVault_of_ne group (Nat.succ_ne_zero i).symm
  have hvault : UpToDate c (s.setVault (i + 1) group) m := by
    refine ⟨?_, ?_⟩
    · intro j hj k r₀ hr₀ hkept
      rw [hzero] at hr₀
      by_cases hji : j = i + 1
      · subst hji
        rw [s.setVault_self]
        have hhas := h.vaults (i + 1) hj k r₀ hr₀ hkept
        have honly := h.entries i (by omega) run hrun k r₀ hr₀ hkept
        rw [hstage] at honly
        rcases hgroup with rfl | ⟨-, rfl⟩
        · rw [hmode]
          exact hhas.handleBatch (hentries.subset hhead) fun r hr => honly r (hhead _ hr)
        · exact hhas
      · rw [s.setVault_of_ne group hji]
        exact h.vaults j hj k r₀ hr₀ hkept
    · rw [hzero]
      exact h.entries
  refine hvault.setHop ?_
  intro hi run' hrun' k r₀ hr₀ hkept
  obtain rfl := Option.some.inj hrun'
  rw [hzero] at hr₀
  have honly := h.entries i hi run hrun k r₀ hr₀ hkept
  rw [hstage] at honly
  exact fun r hr => honly r (htail _ hr)

/-- **Up to date stays up to date** while vault `0` is quiet. -/
theorem UpToDate.step {e : ChainEvent W} (h : UpToDate c s m) (haccount : ChainAccount c s)
    (hquiet : Quiet e = true) (hstep : s.step c http e = some s') : UpToDate c s' m := by
  cases e with
  | tick now =>
      obtain ⟨-, rfl⟩ := ChainState.tick_spec hstep
      exact ⟨h.vaults, h.entries⟩
  | sight address => cases hquiet
  | delete address => cases hquiet
  | start i =>
      obtain rfl := ChainState.start_spec hstep
      refine h.setHop ?_
      intro _ run hrun k r₀ _ _ r hr
      obtain rfl := Option.some.inj hrun
      cases hr
  | page i =>
      obtain ⟨run', hnext, rfl⟩ := Option.map_eq_some_iff.mp hstep
      obtain ⟨run, hrun, hpage⟩ := Option.bind_eq_some_iff.mp hnext
      refine h.setHop ?_
      intro hi run'' hrun'' k r₀ hr₀ hkept r hr hk
      obtain rfl := Option.some.inj hrun''
      rcases mem_entries_of_nextPage hpage hr with hold | ⟨record, hrecord, hsame, -⟩
      · exact h.entries i hi run hrun k r₀ hr₀ hkept r hold hk
      · obtain rfl := relayed_injective hsame
        obtain ⟨stored, hstored, hversion⟩ := has_iff.mp (h.vaults i hi.le k r₀ hr₀ hkept)
        rw [hk, hstored, Option.some.injEq] at hrecord
        rw [← hrecord, hversion]
  | push i world =>
      obtain ⟨run', hnext, rfl⟩ := Option.map_eq_some_iff.mp hstep
      obtain ⟨run, hrun, hsend⟩ := Option.bind_eq_some_iff.mp hnext
      refine h.setHop ?_
      intro hi run'' hrun'' k r₀ hr₀ hkept r hr hk
      obtain rfl := Option.some.inj hrun''
      exact h.entries i hi run hrun k r₀ hr₀ hkept r (mem_entries_of_sendDelta hsend hr) hk
  | deliver i applied =>
      obtain ⟨run, hrun, hdeliver⟩ := Option.bind_eq_some_iff.mp hstep
      exact h.deliver haccount hrun hdeliver
  | record i =>
      obtain ⟨run, hrun, hrecord⟩ := Option.bind_eq_some_iff.mp hstep
      obtain ⟨summary, all, hstage, rfl⟩ := recordHop_spec hrecord
      exact h.clearHop i _
  | abandon i =>
      obtain rfl := ChainState.abandon_spec hstep
      exact h.clearHop i _

theorem Arriving.setHop (h : Arriving c s m) {hop : Hop}
    (hhop : i = m → ∀ run, hop.run = some run → run.sawAll = true →
      ∀ k r₀, (s.vaults 0).find? k = some r₀ → isKept c.parse k →
        OnTheWay (s.vaults (m + 1)) run.stage k r₀.version) : Arriving c (s.setHop i hop) m := by
  intro run hrun
  by_cases hi : m = i
  · subst hi
    rw [s.setHop_self] at hrun
    exact hhop rfl run hrun
  · rw [s.setHop_of_ne hop hi] at hrun
    exact h run hrun

theorem Arriving.clearHop (h : Arriving c s m) (i : ℕ) (lastSyncAt : Option ℤ) :
    Arriving c (s.setHop i ⟨lastSyncAt, none⟩) m := by
  refine h.setHop ?_
  intro _ run hrun
  cases hrun

/-- **What is on its way stays on its way** while vault `0` is quiet and the run goes on. -/
theorem Arriving.step {e : ChainEvent W} (h : Arriving c s m) (hupToDate : UpToDate c s m)
    (haccount : ChainAccount c s) (hquiet : QuietFor m e = true)
    (hstep : s.step c http e = some s') : Arriving c s' m := by
  cases e with
  | tick now =>
      obtain ⟨-, rfl⟩ := ChainState.tick_spec hstep
      exact h
  | sight address => cases hquiet
  | delete address => cases hquiet
  | start i =>
      obtain rfl := ChainState.start_spec hstep
      refine h.setHop fun hi => ?_
      simp [QuietFor, hi] at hquiet
  | page i =>
      obtain ⟨run', hnext, rfl⟩ := Option.map_eq_some_iff.mp hstep
      obtain ⟨run, hrun, hpage⟩ := Option.bind_eq_some_iff.mp hnext
      refine h.setHop ?_
      rintro rfl run'' hrun'' hsaw k r₀ hr₀ hkept
      obtain rfl := Option.some.inj hrun''
      obtain ⟨-, -, -, -, hsawIff⟩ := nextPage_spec hpage
      obtain ⟨stored, hstored, hversion⟩ := has_iff.mp (hupToDate.vaults i le_rfl k r₀ hr₀ hkept)
      have hcovered := (haccount.hops i).covered ((haccount.hops i).run run hrun).since hr₀ hkept
        (haccount.kept i k stored hstored) hversion
      exact (h run hrun (hsawIff.mp hsaw).1 k r₀ hr₀ hkept).nextPage hpage hstored hversion
        hcovered hsaw
  | push i world =>
      obtain ⟨run', hnext, rfl⟩ := Option.map_eq_some_iff.mp hstep
      obtain ⟨run, hrun, hsend⟩ := Option.bind_eq_some_iff.mp hnext
      refine h.setHop ?_
      rintro rfl run'' hrun'' hsaw k r₀ hr₀ hkept
      obtain rfl := Option.some.inj hrun''
      have hsaw' : run.sawAll = true := by
        obtain ⟨_, _, _, _, _, rfl, -⟩ := sendDelta_spec hsend
        exact hsaw
      exact (h run hrun hsaw' k r₀ hr₀ hkept).sendDelta hsend hkept
  | deliver i applied =>
      obtain ⟨run, hrun, hdeliver⟩ := Option.bind_eq_some_iff.mp hstep
      obtain ⟨a, pending, summary, all, group, hstage, rfl, hgroup⟩ := deliverNext_spec hdeliver
      have hzero : (s.setVault (i + 1) group).vaults 0 = s.vaults 0 :=
        s.setVault_of_ne group (Nat.succ_ne_zero i).symm
      intro run' hrun' hsaw k r₀ hr₀ hkept
      rw [ChainState.setRun, ChainState.setHop_vaults] at hr₀ ⊢
      rw [hzero] at hr₀
      by_cases hi : m = i
      · subst hi
        rw [ChainState.setRun, ChainState.setHop_self] at hrun'
        obtain rfl := Option.some.inj hrun'
        rw [s.setVault_self]
        have hrunAccount := (haccount.hops m).run run hrun
        have hentries := hrunAccount.entries
        have hupserts := hrunAccount.upserts
        have hway := h run hrun hsaw k r₀ hr₀ hkept
        rw [hstage] at hentries hupserts hway
        refine hway.deliver (hupserts.1 a List.mem_cons_self) (hentries.subset fun b hb => ?_) hgroup
        exact List.mem_flatMap.mpr ⟨a, List.mem_cons_self, hb⟩
      · rw [ChainState.setRun, ChainState.setHop_of_ne _ _ hi] at hrun'
        rw [s.setVault_of_ne group (by omega)]
        exact h run' hrun' hsaw k r₀ hr₀ hkept
  | record i =>
      obtain ⟨run, hrun, hrecord⟩ := Option.bind_eq_some_iff.mp hstep
      obtain ⟨summary, all, hstage, rfl⟩ := recordHop_spec hrecord
      exact h.clearHop i _
  | abandon i =>
      obtain rfl := ChainState.abandon_spec hstep
      exact h.clearHop i _

/-- **A `SUCCESS` run brings the next vault up to date.** -/
theorem UpToDate.record (h : UpToDate c s m) (harriving : Arriving c s m)
    (hrun : (s.hops m).run = some run) {summary : JobSummary}
    (hstage : run.stage = .pushing [] summary true) (hsaw : run.sawAll = true)
    (lastSyncAt : Option ℤ) : UpToDate c (s.setHop m ⟨lastSyncAt, none⟩) (m + 1) where
  vaults i hi k r₀ hr₀ hkept := by
    rcases Nat.lt_or_eq_of_le hi with hlt | rfl
    · exact h.vaults i (by omega) k r₀ hr₀ hkept
    · have hway := harriving run hrun hsaw k r₀ hr₀ hkept
      rw [hstage] at hway
      exact hway.has
  entries i hi run' hrun' := by
    by_cases him : i = m
    · subst him
      rw [s.setHop_self] at hrun'
      cases hrun'
    · rw [s.setHop_of_ne _ him] at hrun'
      exact h.entries i (by omega) run' hrun'

/-! ### Whole runs -/

variable {t : ChainState}

theorem ChainAccount.reaches (h : ChainAccount c s)
    (hreach : Reaches (ChainState.step c http) FoundAll s t) : ChainAccount c t :=
  hreach.invariant h fun _ _ _ hs hgood hstep => hs.step hgood hstep

/-- Quiet steps keep the vaults up to date. -/
theorem UpToDate.reaches (haccount : ChainAccount c s) (h : UpToDate c s m)
    (hreach : Reaches (ChainState.step c http) (fun s e => FoundAll s e ∧ Quiet e = true) s t) :
    ChainAccount c t ∧ UpToDate c t m := by
  refine hreach.invariant (P := fun s => ChainAccount c s ∧ UpToDate c s m) ⟨haccount, h⟩ ?_
  intro s e s' ⟨haccount, hupToDate⟩ ⟨hgood, hquiet⟩ hstep
  exact ⟨haccount.step hgood hstep, hupToDate.step haccount hquiet hstep⟩

theorem quiet_of_quietFor {e : ChainEvent W} (h : QuietFor m e = true) : Quiet e = true := by
  cases e <;> first | rfl | exact h

/-- From the start of a run to its end, everything stays on its way. -/
theorem Arriving.reaches (haccount : ChainAccount c s) (hupToDate : UpToDate c s m)
    (h : Arriving c s m)
    (hreach : Reaches (ChainState.step c http) (fun s e => FoundAll s e ∧ QuietFor m e = true)
      s t) : ChainAccount c t ∧ UpToDate c t m ∧ Arriving c t m := by
  refine hreach.invariant (P := fun s => ChainAccount c s ∧ UpToDate c s m ∧ Arriving c s m)
    ⟨haccount, hupToDate, h⟩ ?_
  intro s e s' ⟨haccount, hupToDate, harriving⟩ ⟨hgood, hquiet⟩ hstep
  exact ⟨haccount.step hgood hstep, hupToDate.step haccount (quiet_of_quietFor hquiet) hstep,
    harriving.step hupToDate haccount hquiet hstep⟩

/-- A run that has just started has everything ahead of it. -/
theorem arriving_start (hstart : s.step c http (.start m) = some s') : Arriving c s' m := by
  obtain rfl := ChainState.start_spec hstart
  intro run hrun _ k r₀ _ _
  rw [ChainState.setRun, ChainState.setHop_self] at hrun
  obtain rfl := Option.some.inj hrun
  refine ⟨?_, Or.inl rfl⟩
  intro _ hr
  cases hr

/-- **Hop by hop,** the completed runs bring the vaults up to date. -/
theorem HopsComplete.upToDate (haccount : ChainAccount c s)
    (h : HopsComplete c http FoundAll s m t) : ChainAccount c t ∧ UpToDate c t m := by
  induction h with
  | quiet hreach => exact (upToDate_zero s).reaches haccount hreach
  | @hop m t t₁ t₂ t₃ u run summary all _ hgoodStart hstart hrunning hrun hstage hsuccess hgood hrecord
      hreach ih =>
      obtain ⟨haccount, hupToDate⟩ := ih
      obtain ⟨haccount, hupToDate, harriving⟩ := (arriving_start hstart).reaches
        (haccount.step hgoodStart hstart) (hupToDate.step haccount rfl hstart) hrunning
      have hrunAccount := (haccount.hops m).run run hrun
      have hall : all = true := by
        have hupserts := hrunAccount.upserts
        rw [hstage] at hupserts
        exact hupserts.2 hsuccess
      subst hall
      have hsaw : run.sawAll = true := by
        rcases Nat.eq_zero_or_pos m with hzero | hpos
        · exact (hrunAccount.first hzero).1
        · refine hgood hpos run hrun ?_
          rw [HopRun.setsCursor, hstage]
      have hrecorded := haccount.step hgood hrecord
      obtain ⟨run', hrun', hend⟩ := Option.bind_eq_some_iff.mp hrecord
      obtain rfl := Option.some.inj (hrun.symm.trans hrun')
      obtain ⟨_, _, -, rfl⟩ := recordHop_spec hend
      exact (hupToDate.record harriving hrun hstage hsaw _).reaches hrecorded hreach

end

/-- **Chains converge.**  Start with empty vaults and tasks that have never synced.  Take any run of
sightings and deletions on vault `0` and of the tasks, with failures, lost answers and deaths, in
which every run of a later hop that sets its cursor found on its source everything the cursor is to
stand for.  Once vault `0` is quiet and the tasks have then completed a `SUCCESS` run one after the
other, the last vault has every record of vault `0` that is no bogon, in its state of deletion. -/
theorem chain_converges (c : Chain) (http : Http W) (now : ℤ) (s t : ChainState)
    (hreach : Reaches (ChainState.step c http) FoundAll (.start now) s)
    (hcomplete : HopsComplete c http FoundAll s c.length t) : Converged c t := by
  have haccount : ChainAccount c s := (ChainAccount.start c now).reaches hreach
  obtain ⟨hfinal, hupToDate⟩ := hcomplete.upToDate haccount
  intro r hr hkept
  have hfind : (t.vaults 0).find? r.targetAddress = some r := Table.find?_eq_some_iff.mpr ⟨hr, rfl⟩
  obtain ⟨copy, hcopy, hversion⟩ := has_iff.mp
    (hupToDate.vaults c.length le_rfl r.targetAddress r hfind hkept)
  obtain ⟨hmem, haddress⟩ := Table.find?_eq_some_iff.mp hcopy
  exact ⟨copy, hmem, haddress, StoredRecord.isDeleted_of_version (hfinal.kept c.length _ _ hcopy)
    (hfinal.kept 0 _ _ hfind) hversion⟩

/-! ### A chain that converges, and one that does not -/

/-- Let hop `i` complete a `SUCCESS` run, with `events` between its start and its end. -/
def completeHop (c : Chain) (http : Http W) (good : ChainState → ChainEvent W → Prop)
    [∀ s e, Decidable (good s e)] (i : ℕ) (events : List (ChainEvent W)) (s : ChainState) :
    Option ChainState :=
  if good s (.start i) then
    (s.step c http (.start i)).bind fun s =>
      (runEvents (ChainState.step c http) (fun s e => good s e ∧ QuietFor i e = true) s events).bind
        fun s =>
          match (s.hops i).run with
          | some ⟨_, _, .pushing [] summary _, _⟩ =>
              if summary.status = .success ∧ good s (.record i) then s.step c http (.record i)
              else none
          | _ => none
  else none

theorem HopsComplete.completeHop {c : Chain} {http : Http W}
    {good : ChainState → ChainEvent W → Prop} [∀ s e, Decidable (good s e)] {s t u : ChainState}
    {i : ℕ} (h : HopsComplete c http good s i t) {events : List (ChainEvent W)}
    (hcomplete : completeHop c http good i events t = some u) :
    HopsComplete c http good s (i + 1) u := by
  rw [Replication.completeHop] at hcomplete
  split at hcomplete
  · rename_i hgood
    obtain ⟨t₁, hstart, hcomplete⟩ := Option.bind_eq_some_iff.mp hcomplete
    obtain ⟨t₂, hrunning, hcomplete⟩ := Option.bind_eq_some_iff.mp hcomplete
    split at hcomplete
    · rename_i hrun
      split at hcomplete
      · rename_i hend
        exact .hop h hgood hstart (reaches_of_runEvents hrunning) hrun rfl hend.1 hend.2 hcomplete
          .refl
      · cases hcomplete
    · cases hcomplete
  · cases hcomplete

/-- Two hops, for the addresses that are written like `8.8.8.8/32`. -/
def relayChain : Chain where
  length := 2
  vault i := ⟨i + 1, "vault", "https://vault.example", "key", "secret"⟩
  task i := ⟨i + 101, "hop", i + 1, "ban", "ban", "0 * * * *", none, true, false⟩
  text :=
    { trim := id
      addr := fun _ => none
      net := some
      trim_trim := fun _ => rfl
      addr_printed := fun _ _ h => nomatch h
      net_printed := fun _ _ h => ⟨rfl, rfl, h ▸ rfl⟩ }
  parse address := if address = "8.8.8.8/32" then some (v4Literal 8 8 8 8 32) else none
  maxRetries := 0
  reads _ := rfl
  linked _ := rfl

/-- What hop `i` does between its start and its end, when it has something to send. -/
def relaySteps (i : ℕ) : List (ChainEvent Unit) := [.page i, .push i (), .deliver i true]

/-- The first sighting, five seconds into the day. -/
def relayStart : ChainState := .start (5 * nanosPerSec)

/-- A sighting that both hops relay, a deletion that an abandoned run does not: then both hops
complete a run, and the deletion is on the last vault. -/
theorem chain_converges_after_deletion :
    ∃ s t, Reaches (ChainState.step relayChain willingVaults) FoundAll relayStart s ∧
      HopsComplete relayChain willingVaults FoundAll s 2 t ∧
      (t.vaults 2).rows.map (fun r => (r.targetAddress, r.isDeleted)) = [("8.8.8.8/32", true)] ∧
      Converged relayChain t := by
  have hrun : ((runEvents (ChainState.step relayChain willingVaults) FoundAll relayStart
      ([.sight "8.8.8.8/32", .tick (10 * nanosPerSec), .start 0] ++ relaySteps 0 ++
        [.record 0, .start 1] ++ relaySteps 1 ++ [.record 1, .tick (20 * nanosPerSec),
          .delete "8.8.8.8/32", .start 0, .page 0, .abandon 0])).bind fun s =>
      (completeHop relayChain willingVaults FoundAll 0 (relaySteps 0) s).bind fun t =>
        (completeHop relayChain willingVaults FoundAll 1 (relaySteps 1) t).map fun u =>
          (s, t, u)).map (fun out => (out.2.2.vaults 2).rows.map fun r =>
            (r.targetAddress, r.isDeleted)) = some [("8.8.8.8/32", true)] := by
    decide +kernel
  obtain ⟨⟨s, t, u⟩, hout, hlast⟩ := Option.map_eq_some_iff.mp hrun
  obtain ⟨s', hs, hout⟩ := Option.bind_eq_some_iff.mp hout
  obtain ⟨t', ht, hout⟩ := Option.bind_eq_some_iff.mp hout
  obtain ⟨u', hu, hout⟩ := Option.map_eq_some_iff.mp hout
  obtain ⟨rfl, rfl, rfl⟩ : s' = s ∧ t' = t ∧ u' = u := by simpa using hout
  have hreach := reaches_of_runEvents hs
  have hcomplete : HopsComplete relayChain willingVaults FoundAll s' 2 u' :=
    ((HopsComplete.quiet .refl).completeHop ht).completeHop hu
  exact ⟨s', u', hreach, hcomplete, hlast,
    chain_converges relayChain willingVaults (5 * nanosPerSec) s' u' hreach hcomplete⟩

/-- **A record that the chain never delivers.**  The second hop runs before the first has brought
anything; its cursor then lies after the sighting, and the record, relayed with the time of its
sighting, is never in its window. -/
theorem chain_loses_record :
    ∃ s t, Reaches (ChainState.step relayChain willingVaults) anyStep relayStart s ∧
      HopsComplete relayChain willingVaults anyStep s 2 t ∧ ¬Converged relayChain t := by
  have hrun : ((runEvents (ChainState.step relayChain willingVaults) anyStep relayStart
      [.sight "8.8.8.8/32", .tick (10 * nanosPerSec), .start 1, .page 1, .push 1 (), .record 1,
        .tick (20 * nanosPerSec)]).bind fun s =>
      (completeHop relayChain willingVaults anyStep 0 (relaySteps 0) s).bind fun t =>
        (completeHop relayChain willingVaults anyStep 1 [.page 1, .push 1 ()] t).map fun u =>
          (s, t, u)).map (fun out => decide (Converged relayChain out.2.2)) = some false := by
    decide +kernel
  obtain ⟨⟨s, t, u⟩, hout, hlost⟩ := Option.map_eq_some_iff.mp hrun
  obtain ⟨s', hs, hout⟩ := Option.bind_eq_some_iff.mp hout
  obtain ⟨t', ht, hout⟩ := Option.bind_eq_some_iff.mp hout
  obtain ⟨u', hu, hout⟩ := Option.map_eq_some_iff.mp hout
  obtain ⟨rfl, rfl, rfl⟩ : s' = s ∧ t' = t ∧ u' = u := by simpa using hout
  exact ⟨s', u', reaches_of_runEvents hs, ((HopsComplete.quiet .refl).completeHop ht).completeHop hu,
    of_decide_eq_false hlost⟩

end SimplyIpSync.Replication
