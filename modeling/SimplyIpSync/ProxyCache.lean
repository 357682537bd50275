import SimplyIpSync.Lib.Reach
import SimplyIpSync.Lib.Trace
import SimplyIpSync.Net.Network

/-!
# The trusted-proxy cache (`TrustedProxies` in `src/config.rs`)

Proxies are configured by address or by name.  The names are resolved when a request needs them, and
the answers kept for a while, behind one lock: calls of `resolved` read under it, a refresh holds it
while it waits for the resolver, and any call may be abandoned where it waits.  Between two such
places the clock stands still.

The log of the system is not part of the program.  It says what the cache is for: the networks that
a call returns are the literals and the answers last given (`Trusted`), and a call looks a name up
when the last answer is missing or too old (`Due`), as the log of the call shows (`Trail`).
-/

namespace SimplyIpSync.ProxyCache

open SimplyIpSync.Bogon SimplyIpSync.Net SimplyIpSync.Reach SimplyIpSync.Trace

/-! ### The configuration -/

/-- `ProxyMatcher`. -/
inductive ProxyMatcher
  | network (net : IpNetwork)
  | hostname (name : String)
  deriving DecidableEq

/-- `TrustedProxies` without its cache; durations and times are in nanoseconds. -/
structure TrustedProxies where
  networks : List IpNetwork
  hostnames : List String
  positiveTtl : ℕ
  negativeTtl : ℕ

/-- `POSITIVE_TTL`. -/
def defaultPositiveTtl : ℕ := 30 * 10 ^ 9

/-- `NEGATIVE_TTL`. -/
def defaultNegativeTtl : ℕ := 5 * 10 ^ 9

/-- `TrustedProxies::new`. -/
def TrustedProxies.new (matchers : List ProxyMatcher) : TrustedProxies where
  networks := matchers.filterMap fun
    | .network net => some net
    | .hostname _ => none
  hostnames := matchers.filterMap fun
    | .hostname name => some name
    | .network _ => none
  positiveTtl := defaultPositiveTtl
  negativeTtl := defaultNegativeTtl

/-- `with_ttls`. -/
def TrustedProxies.withTtls (proxies : TrustedProxies) (positive negative : ℕ) : TrustedProxies :=
  { proxies with positiveTtl := positive, negativeTtl := negative }

/-! ### The cache -/

/-- `HostnameState`. -/
structure HostnameState where
  addresses : List IpNetwork
  attemptedAt : ℕ
  resolved : Bool

/-- `is_fresh`, with the clock at `now`. -/
def HostnameState.isFresh (state : HostnameState) (positive negative now : ℕ) : Bool :=
  let ttl := if state.resolved then positive else negative
  decide (now - state.attemptedAt < ttl)

/-- `ResolutionCache`. -/
structure ResolutionCache where
  snapshot : List IpNetwork
  hosts : String → Option HostnameState
  built : Bool

/-- `resolve_hostname`, on what the resolver says; `none` where it fails. -/
def resolveHostname (answer : Option (List IpAddr)) : List IpNetwork :=
  match answer with
  | some addrs => addrs.map fun addr => hostNetwork (normalizeIp addr)
  | none => []

/-- The entry written for an answer that arrives at `now`. -/
def HostnameState.new (answer : Option (List IpAddr)) (now : ℕ) : HostnameState :=
  let addresses := resolveHostname answer
  { addresses, attemptedAt := now, resolved := !addresses.isEmpty }

/-- The cache has an entry for the name that may still be used. -/
def isFresh (proxies : TrustedProxies) (cache : ResolutionCache) (now : ℕ) (name : String) : Bool :=
  (cache.hosts name).any fun state => state.isFresh proxies.positiveTtl proxies.negativeTtl now

/-- The literals with the addresses of every entry. -/
def merged (proxies : TrustedProxies) (cache : ResolutionCache) : List IpNetwork :=
  proxies.networks ++ proxies.hostnames.flatMap fun name =>
    match cache.hosts name with
    | some state => state.addresses
    | none => []

/-! ### The calls -/

/-- A call comes to a name: at what time, and whether it asks the resolver. -/
structure Visit where
  name : String
  time : ℕ
  asked : Bool
  deriving DecidableEq

/-- What has happened so far. -/
inductive Entry
  /-- `prime` threw the entries away. -/
  | cleared
  | visited (visit : Visit)
  /-- A lookup ran to its end. -/
  | answered (name : String) (answer : Option (List IpAddr)) (time : ℕ)
  /-- `resolved` returned; the visits are its own. -/
  | returned (visits : List Visit) (networks : List IpNetwork)
  /-- `prime` returned the names that failed. -/
  | primed (visits : List Visit) (failed : List String)
  deriving DecidableEq

/-- The two functions. -/
inductive Kind
  | resolved
  | prime
  deriving DecidableEq

/-- A call before it holds a lock. -/
inductive Waiting
  | read
  | write (kind : Kind)
  deriving DecidableEq

/-- The call that holds the write lock, waiting for the lookup of `name`; `rest` is what its loop
has still to come to, and `visits` where it has been. -/
structure Refresh where
  kind : Kind
  name : String
  rest : List String
  visits : List Visit

/-- The cache with its calls. -/
structure System where
  now : ℕ
  cache : ResolutionCache
  holder : Option Refresh
  waiting : List Waiting
  log : List Entry

/-- `ResolutionCache::default`, and no calls. -/
def System.initial : System where
  now := 0
  cache := ⟨[], fun _ => none, false⟩
  holder := none
  waiting := []
  log := []

/-- The call is at the end of `refresh_locked`: the snapshot is built and the call returns. -/
def finish (proxies : TrustedProxies) (kind : Kind) (visits : List Visit) (s : System) : System :=
  let snapshot := merged proxies s.cache
  let failed := proxies.hostnames.filter fun name => !(s.cache.hosts name).any (·.resolved)
  { s with
    cache := { s.cache with snapshot, built := true }
    holder := none
    log :=
      match kind with
      | .resolved => .returned visits snapshot :: s.log
      | .prime => .primed visits failed :: s.log }

/-- The loop of `refresh_locked` over these names, up to the next lookup. -/
def refreshLocked (proxies : TrustedProxies) (kind : Kind) :
    List String → List Visit → System → System
  | [], visits, s => finish proxies kind visits s
  | name :: rest, visits, s =>
      let visit : Visit := ⟨name, s.now, !isFresh proxies s.cache s.now name⟩
      let s := { s with log := .visited visit :: s.log }
      if visit.asked then { s with holder := some ⟨kind, name, rest, visits ++ [visit]⟩ }
      else refreshLocked proxies kind rest (visits ++ [visit]) s

/-- `resolved` under the read lock, when every entry may still be used. -/
def readSnapshot (proxies : TrustedProxies) (s : System) : System :=
  let visits := proxies.hostnames.map fun name => Visit.mk name s.now false
  { s with log := .returned visits s.cache.snapshot :: ((visits.map .visited).reverse ++ s.log) }

/-- What can happen next. -/
inductive Event
  | elapse (duration : ℕ)
  | call (kind : Kind)
  /-- The call at this place gets its lock. -/
  | turn (i : ℕ)
  /-- The resolver answers the call that holds the lock. -/
  | answer (dns : Option (List IpAddr))
  /-- The call that waits for the resolver is dropped. -/
  | abandonRefresh
  | abandon (i : ℕ)

/-- One event. -/
def step (proxies : TrustedProxies) (s : System) : Event → Option System
  | .elapse duration => some { s with now := s.now + duration }
  | .call .resolved =>
      if proxies.hostnames = [] then some { s with log := .returned [] proxies.networks :: s.log }
      else some { s with waiting := s.waiting ++ [.read] }
  | .call .prime =>
      if proxies.hostnames = [] then some { s with log := .primed [] [] :: s.log }
      else some { s with waiting := s.waiting ++ [.write .prime] }
  | .turn i =>
      match s.holder, s.waiting[i]? with
      | none, some .read =>
          if s.cache.built && proxies.hostnames.all (isFresh proxies s.cache s.now) then
            some (readSnapshot proxies { s with waiting := s.waiting.eraseIdx i })
          else some { s with waiting := s.waiting.set i (.write .resolved) }
      | none, some (.write .resolved) =>
          some (refreshLocked proxies .resolved proxies.hostnames []
            { s with waiting := s.waiting.eraseIdx i })
      | none, some (.write .prime) =>
          some (refreshLocked proxies .prime proxies.hostnames []
            { s with
              waiting := s.waiting.eraseIdx i
              cache := { s.cache with hosts := fun _ => none }
              log := .cleared :: s.log })
      | _, _ => none
  | .answer dns =>
      match s.holder with
      | some r =>
          some (refreshLocked proxies r.kind r.rest r.visits
            { s with
              cache := { s.cache with
                hosts := Function.update s.cache.hosts r.name (some (.new dns s.now)) }
              holder := none
              log := .answered r.name dns s.now :: s.log })
      | none => none
  | .abandonRefresh => if s.holder.isSome then some { s with holder := none } else none
  | .abandon i =>
      if i < s.waiting.length then some { s with waiting := s.waiting.eraseIdx i } else none

/-! ### What the cache is for -/

/-- A lookup that ran to its end. -/
structure Lookup where
  answer : Option (List IpAddr)
  time : ℕ
  deriving DecidableEq

/-- The networks a lookup found, none if it failed. -/
def Lookup.networks (l : Lookup) : List IpNetwork := resolveHostname l.answer

/-- The lookup is too old for its outcome. -/
def Lookup.Outlived (proxies : TrustedProxies) (l : Lookup) (now : ℕ) : Prop :=
  (if l.networks = [] then proxies.negativeTtl else proxies.positiveTtl) ≤ now - l.time

instance (proxies : TrustedProxies) (l : Lookup) (now : ℕ) : Decidable (l.Outlived proxies now) :=
  inferInstanceAs (Decidable (_ ≤ _))

/-- The most recent completed lookup of the name. -/
def lastLookup (name : String) : List Entry → Option Lookup
  | [] => none
  | .answered name' answer time :: past =>
      if name' = name then some ⟨answer, time⟩ else lastLookup name past
  | _ :: past => lastLookup name past

/-- The most recent one that `prime` has not thrown away. -/
def keptLookup (name : String) : List Entry → Option Lookup
  | [] => none
  | .answered name' answer time :: past =>
      if name' = name then some ⟨answer, time⟩ else keptLookup name past
  | .cleared :: _ => none
  | _ :: past => keptLookup name past

/-- The network is a literal, or an address of the last lookup of a configured name. -/
def Trusted (proxies : TrustedProxies) (log : List Entry) (net : IpNetwork) : Prop :=
  net ∈ proxies.networks ∨
    ∃ name ∈ proxies.hostnames, ∃ l, lastLookup name log = some l ∧ net ∈ l.networks

/-- The name has no lookup that `prime` has not thrown away, or the last one is too old. -/
def Due (proxies : TrustedProxies) (log : List Entry) (name : String) (now : ℕ) : Prop :=
  ∀ l, keptLookup name log = some l → l.Outlived proxies now

/-- The log of a call, the newest entry first, over the log before it.  Where the call comes to a name
that is due, a lookup of the name runs to its end before anything else happens; where the name is
not due there is none. -/
inductive Trail (proxies : TrustedProxies) (older : List Entry) : List Visit → List Entry → Prop
  | start : Trail proxies older [] []
  | kept {visits entries} {v : Visit} : Trail proxies older visits entries → v.asked = false →
      ¬Due proxies (entries ++ older) v.name v.time →
      Trail proxies older (visits ++ [v]) (.visited v :: entries)
  | lookedUp {visits entries} {v : Visit} {answer time} : Trail proxies older visits entries →
      v.asked = true → Due proxies (entries ++ older) v.name v.time →
      Trail proxies older (visits ++ [v]) (.answered v.name answer time :: .visited v :: entries)

/-- The call came to every configured name, in order, and made the lookups that were due. -/
def Complete (proxies : TrustedProxies) (visits : List Visit) (past : List Entry) : Prop :=
  visits.map Visit.name = proxies.hostnames ∧
    ∃ entries older, past = entries ++ older ∧ Trail proxies older visits entries

/-- What an entry of the log owes its past. -/
def Sound (proxies : TrustedProxies) (entry : Entry) (past : List Entry) : Prop :=
  match entry with
  | .visited v => v.asked = true ↔ Due proxies past v.name v.time
  | .answered name _ _ => ∃ v older, past = .visited v :: older ∧ v.name = name ∧ v.asked = true
  | .returned visits networks => Complete proxies visits past ∧
      (∀ net, net ∈ networks ↔ Trusted proxies past net) ∧
      ∀ name ∈ proxies.hostnames, (lastLookup name past).isSome
  | .primed visits failed => Complete proxies visits past ∧
      ∀ name, name ∈ failed ↔ name ∈ proxies.hostnames ∧
        ∃ l, lastLookup name past = some l ∧ l.networks = []
  | .cleared => True

/-! ### The invariant -/

section Invariant

variable {proxies : TrustedProxies} {s : System}

theorem lastLookup_of_keptLookup {name : String} {log : List Entry} {l : Lookup}
    (h : keptLookup name log = some l) : lastLookup name log = some l := by
  induction log with
  | nil => cases h
  | cons entry log ih =>
      cases entry with
      | answered name' answer time =>
          rw [keptLookup] at h
          rw [lastLookup]
          split
          · rename_i hname
            rwa [if_pos hname] at h
          · rename_i hname
            exact ih (by rwa [if_neg hname] at h)
      | cleared => cases h
      | visited _ => exact ih h
      | returned _ _ => exact ih h
      | primed _ _ => exact ih h

/-- The entries are the lookups that were kept. -/
def HostsKept (s : System) : Prop :=
  ∀ name, s.cache.hosts name = (keptLookup name s.log).map fun l => .new l.answer l.time

/-- An entry is fresh when its lookup is not due. -/
theorem isFresh_eq_false_iff (h : HostsKept s) (now : ℕ) (name : String) :
    isFresh proxies s.cache now name = false ↔ Due proxies s.log name now := by
  rw [isFresh, h name, Due]
  cases keptLookup name s.log with
  | none => simp
  | some l =>
      have hresolved : (resolveHostname l.answer).isEmpty = decide (l.networks = []) := by
        rw [Lookup.networks]
        cases resolveHostname l.answer with
        | nil => rfl
        | cons _ _ => rfl
      simp only [Option.map_some, Option.any_some, HostnameState.isFresh, HostnameState.new,
        hresolved, Option.some.injEq, forall_eq', Lookup.Outlived, decide_eq_false_iff_not, not_lt]
      by_cases hempty : l.networks = []
      · simp [hempty]
      · simp [hempty]

/-- A name that is not fresh does not become so by waiting. -/
theorem isFresh_mono {cache : ResolutionCache} {now later : ℕ} (hlater : now ≤ later)
    {name : String} (h : isFresh proxies cache now name = false) :
    isFresh proxies cache later name = false := by
  rw [isFresh] at h ⊢
  cases hstate : cache.hosts name with
  | none => rfl
  | some state =>
      rw [hstate] at h
      simp only [Option.any_some, HostnameState.isFresh, decide_eq_false_iff_not, not_lt] at h ⊢
      omega

/-- What holds of a call that is in the middle of `refresh_locked`, `names` being ahead of it. -/
structure Midway (proxies : TrustedProxies) (names : List String) (visits : List Visit)
    (s : System) : Prop where
  hosts_kept : HostsKept s
  names_ahead : visits.map Visit.name ++ names = proxies.hostnames
  entered : ∀ name ∈ visits.map Visit.name, (s.cache.hosts name).isSome
  logged : ∃ entries older, s.log = entries ++ older ∧ Trail proxies older visits entries
  sound : Holds (Sound proxies) s.log

/-- What holds of a call that waits for a lookup: the last entry of the log is that it came to the
name and asks for it, for the name is due. -/
structure Refresh.Waits (proxies : TrustedProxies) (r : Refresh)
    (hosts : String → Option HostnameState) (log : List Entry) (visits : List Visit)
    (visit : Visit) : Prop where
  visits_eq : r.visits = visits ++ [visit]
  name_eq : visit.name = r.name
  asked : visit.asked = true
  names_ahead : visits.map Visit.name ++ r.name :: r.rest = proxies.hostnames
  entered : ∀ name ∈ visits.map Visit.name, (hosts name).isSome
  logged : ∃ entries older, log = .visited visit :: (entries ++ older) ∧
    Trail proxies older visits entries ∧ Due proxies (entries ++ older) visit.name visit.time

/-- The invariant of the system. -/
structure Inv (proxies : TrustedProxies) (s : System) : Prop where
  hosts_kept : HostsKept s
  /-- The snapshot is that of the entries, or else some name will be asked for first. -/
  snapshot : s.cache.built = true → s.cache.snapshot = merged proxies s.cache ∨
    ∃ name ∈ proxies.hostnames, isFresh proxies s.cache s.now name = false
  holder : ∀ r, s.holder = some r → isFresh proxies s.cache s.now r.name = false ∧
    ∃ visits visit, r.Waits proxies s.cache.hosts s.log visits visit
  sound : Holds (Sound proxies) s.log

/-- With an entry for every name, the snapshot to be built is what should be trusted. -/
theorem mem_merged (hkept : HostsKept s)
    (hall : ∀ name ∈ proxies.hostnames, (s.cache.hosts name).isSome) :
    (∀ net, net ∈ merged proxies s.cache ↔ Trusted proxies s.log net) ∧
      ∀ name ∈ proxies.hostnames, ∃ l, keptLookup name s.log = some l ∧
        lastLookup name s.log = some l := by
  have hlast : ∀ name ∈ proxies.hostnames, ∃ l, keptLookup name s.log = some l ∧
      lastLookup name s.log = some l := by
    intro name hname
    have hentry := hall name hname
    rw [hkept name, Option.isSome_map] at hentry
    obtain ⟨l, hl⟩ := Option.isSome_iff_exists.mp hentry
    exact ⟨l, hl, lastLookup_of_keptLookup hl⟩
  refine ⟨?_, hlast⟩
  intro net
  rw [merged, List.mem_append, List.mem_flatMap, Trusted]
  refine or_congr Iff.rfl (exists_congr fun name => and_congr_right fun hname => ?_)
  obtain ⟨l, hl, hlastl⟩ := hlast name hname
  rw [hkept name, hl, hlastl]
  constructor
  · exact fun hnet => ⟨l, rfl, hnet⟩
  · rintro ⟨l', hl', hnet⟩
    obtain rfl := Option.some.inj hl'
    exact hnet

/-! ### A refresh -/

/-- The end of a refresh. -/
theorem finish_inv (kind : Kind) {visits : List Visit} (h : Midway proxies [] visits s) :
    Inv proxies (finish proxies kind visits s) := by
  have hnames : visits.map Visit.name = proxies.hostnames := by
    have hahead := h.names_ahead
    rwa [List.append_nil] at hahead
  have hall : ∀ name ∈ proxies.hostnames, (s.cache.hosts name).isSome := by
    intro name hname
    exact h.entered name (hnames.symm ▸ hname)
  obtain ⟨hmerged, hlast⟩ := mem_merged h.hosts_kept hall
  refine ⟨?_, fun _ => Or.inl rfl, ?_, ?_⟩
  · intro name
    cases kind with
    | resolved => exact h.hosts_kept name
    | prime => exact h.hosts_kept name
  · intro r hr
    cases hr
  · cases kind with
    | resolved =>
        refine ⟨⟨⟨hnames, h.logged⟩, hmerged, ?_⟩, h.sound⟩
        intro name hname
        obtain ⟨l, -, hl⟩ := hlast name hname
        rw [hl]
        rfl
    | prime =>
        refine ⟨⟨⟨hnames, h.logged⟩, ?_⟩, h.sound⟩
        intro name
        rw [List.mem_filter]
        refine and_congr_right fun hname => ?_
        obtain ⟨l, hkept, hl⟩ := hlast name hname
        rw [h.hosts_kept name, hkept, hl]
        simp [HostnameState.new, Lookup.networks]

/-- The loop of a refresh, up to the next lookup or to the end. -/
theorem refreshLocked_inv (kind : Kind) {names : List String} {visits : List Visit}
    (h : Midway proxies names visits s) :
    Inv proxies (refreshLocked proxies kind names visits s) := by
  induction names generalizing visits s with
  | nil => exact finish_inv kind h
  | cons name rest ih =>
      let visit : Visit := ⟨name, s.now, !isFresh proxies s.cache s.now name⟩
      let s₁ : System := { s with log := .visited visit :: s.log }
      have hkept : HostsKept s₁ := h.hosts_kept
      have hdue : isFresh proxies s.cache s.now name = false ↔ Due proxies s.log name s.now :=
        isFresh_eq_false_iff h.hosts_kept s.now name
      obtain ⟨entries, older, hlog, htrail⟩ := h.logged
      have hsound : Holds (Sound proxies) s₁.log := by
        refine ⟨?_, h.sound⟩
        show (!isFresh proxies s.cache s.now name) = true ↔ _
        rw [Bool.not_eq_true']
        exact hdue
      have hmem : name ∈ proxies.hostnames := by
        rw [← h.names_ahead]
        exact List.mem_append_right _ List.mem_cons_self
      rw [refreshLocked]
      by_cases hasked : visit.asked = true
      · rw [if_pos hasked]
        have hstale : isFresh proxies s.cache s.now name = false := by
          rwa [Bool.not_eq_true'] at hasked
        refine ⟨hkept, fun _ => Or.inr ⟨name, hmem, hstale⟩, ?_, hsound⟩
        intro r hr
        obtain rfl := Option.some.inj hr
        refine ⟨hstale, visits, visit, rfl, rfl, hasked, h.names_ahead, h.entered, entries, older,
          congrArg _ hlog, htrail, ?_⟩
        rw [← hlog]
        exact hdue.mp hstale
      · rw [if_neg hasked]
        have hfresh : isFresh proxies s.cache s.now name = true := by
          rwa [Bool.not_eq_true', Bool.not_eq_false] at hasked
        have hnot : ¬Due proxies (entries ++ older) name s.now := by
          rw [← hlog, ← hdue, hfresh]
          exact Bool.true_eq_false.mp
        refine ih (s := s₁) ⟨hkept, ?_, ?_, ⟨.visited visit :: entries, older,
          congrArg _ hlog, htrail.kept (Bool.eq_false_iff.mpr hasked) hnot⟩, hsound⟩
        · rw [List.map_append, List.append_assoc]
          exact h.names_ahead
        · intro name' hname'
          rw [List.map_append, List.mem_append] at hname'
          rcases hname' with hbefore | hthis
          · exact h.entered name' hbefore
          · obtain rfl := List.mem_singleton.mp hthis
            exact Option.isSome_of_any hfresh

/-- A call begins a refresh. -/
theorem midway_start (hkept : HostsKept s) (hsound : Holds (Sound proxies) s.log) :
    Midway proxies proxies.hostnames [] s where
  hosts_kept := hkept
  names_ahead := rfl
  entered := fun _ hname => absurd hname List.not_mem_nil
  logged := ⟨[], s.log, rfl, .start⟩
  sound := hsound

/-- An answer is entered under its name. -/
theorem hostsKept_answer (hkept : HostsKept s) (name : String) (dns : Option (List IpAddr))
    {t : System}
    (hhosts : t.cache.hosts = Function.update s.cache.hosts name (some (.new dns s.now)))
    (hlog : t.log = .answered name dns s.now :: s.log) : HostsKept t := by
  intro name'
  rw [hhosts, hlog, keptLookup]
  by_cases hname : name = name'
  · rw [if_pos hname, hname, Function.update_self]
    rfl
  · rw [if_neg hname, Function.update_of_ne (Ne.symm hname)]
    exact hkept name'

/-! ### A read -/

theorem keptLookup_visits (name : String) (visits : List Visit) (log : List Entry) :
    keptLookup name ((visits.map .visited).reverse ++ log) = keptLookup name log ∧
      lastLookup name ((visits.map .visited).reverse ++ log) = lastLookup name log := by
  induction visits generalizing log with
  | nil => exact ⟨rfl, rfl⟩
  | cons v visits ih =>
      rw [List.map_cons, List.reverse_cons, List.append_assoc]
      exact ih (.visited v :: log)

theorem holds_visits {visits : List Visit} {log : List Entry} (hsound : Holds (Sound proxies) log)
    (hvisits : ∀ v ∈ visits, v.asked = true ↔ Due proxies log v.name v.time) :
    Holds (Sound proxies) ((visits.map .visited).reverse ++ log) := by
  induction visits generalizing log with
  | nil => exact hsound
  | cons v visits ih =>
      rw [List.map_cons, List.reverse_cons, List.append_assoc]
      have hfirst : Holds (Sound proxies) (.visited v :: log) :=
        ⟨hvisits v List.mem_cons_self, hsound⟩
      exact ih hfirst fun w hw => hvisits w (List.mem_cons_of_mem v hw)

/-- A call that comes to names which are not due makes no lookup. -/
theorem trail_visits {log : List Entry} {visits : List Visit}
    (h : ∀ v ∈ visits, v.asked = false ∧ ¬Due proxies log v.name v.time) :
    Trail proxies log visits (visits.map .visited).reverse := by
  induction visits using List.reverseRecOn with
  | nil => exact .start
  | append_singleton visits v ih =>
      obtain ⟨hasked, hdue⟩ := h v (by simp)
      have hbefore := ih fun w hw => h w (List.mem_append_left _ hw)
      rw [List.map_append, List.reverse_append]
      refine hbefore.kept hasked ?_
      rwa [Due, (keptLookup_visits v.name visits log).1]

/-- A snapshot with nothing but fresh names behind it is what should be trusted. -/
theorem readSnapshot_inv (h : Inv proxies s) (hholder : s.holder = none)
    (hbuilt : s.cache.built = true)
    (hfresh : ∀ name ∈ proxies.hostnames, isFresh proxies s.cache s.now name = true) :
    Inv proxies (readSnapshot proxies s) := by
  let visits := proxies.hostnames.map fun name => Visit.mk name s.now false
  have hsnapshot : s.cache.snapshot = merged proxies s.cache := by
    refine (h.snapshot hbuilt).resolve_right ?_
    rintro ⟨name, hname, hstale⟩
    rw [hfresh name hname] at hstale
    cases hstale
  obtain ⟨hmerged, hlast⟩ := mem_merged h.hosts_kept fun name hname =>
    Option.isSome_of_any (hfresh name hname)
  have hkept : ∀ name, keptLookup name (readSnapshot proxies s).log = keptLookup name s.log :=
    fun name => (keptLookup_visits name visits s.log).1
  have hlookup : ∀ name, lastLookup name ((visits.map .visited).reverse ++ s.log) =
      lastLookup name s.log := fun name => (keptLookup_visits name visits s.log).2
  have hnone : ∀ v ∈ visits, v.asked = false ∧ ¬Due proxies s.log v.name v.time := by
    intro v hv
    obtain ⟨name, hname, rfl⟩ := List.mem_map.mp hv
    refine ⟨rfl, fun hdue => ?_⟩
    have hstale := (isFresh_eq_false_iff h.hosts_kept s.now name).mpr hdue
    rw [hfresh name hname] at hstale
    cases hstale
  have hvisits : Holds (Sound proxies) ((visits.map .visited).reverse ++ s.log) := by
    refine holds_visits h.sound ?_
    intro v hv
    obtain ⟨hasked, hdue⟩ := hnone v hv
    rw [hasked]
    exact iff_of_false Bool.false_ne_true hdue
  refine ⟨?_, ?_, ?_, ?_⟩
  · intro name
    rw [hkept name]
    exact h.hosts_kept name
  · exact fun _ => Or.inl hsnapshot
  · intro r hr
    have hnone : some r = none := hr.symm.trans hholder
    cases hnone
  · refine ⟨⟨⟨?_, _, s.log, rfl, trail_visits hnone⟩, ?_, ?_⟩, hvisits⟩
    · rw [List.map_map]
      exact List.map_id _
    · intro net
      have htrusted : Trusted proxies ((visits.map .visited).reverse ++ s.log) net ↔
          Trusted proxies s.log net := by
        simp only [Trusted, hlookup]
      rw [htrusted, ← hmerged net, hsnapshot]
    · intro name hname
      obtain ⟨l, -, hl⟩ := hlast name hname
      rw [hlookup name, hl]
      rfl

/-! ### Every run -/

theorem inv_initial : Inv proxies .initial where
  hosts_kept := fun _ => rfl
  snapshot := fun h => by cases h
  holder := fun r h => by cases h
  sound := trivial

/-- The calls that wait for a lock have no part in the invariant. -/
theorem Inv.waiting (h : Inv proxies s) (waiting : List Waiting) :
    Inv proxies { s with waiting } :=
  ⟨h.hosts_kept, h.snapshot, h.holder, h.sound⟩

/-- A call without names to resolve returns at once. -/
theorem Inv.log (h : Inv proxies s) (hnames : proxies.hostnames = []) {entry : Entry}
    (hkept : ∀ name, keptLookup name (entry :: s.log) = keptLookup name s.log)
    (hsound : Sound proxies entry s.log) : Inv proxies { s with log := entry :: s.log } where
  hosts_kept := by
    intro name
    rw [hkept name]
    exact h.hosts_kept name
  snapshot := h.snapshot
  holder := by
    intro r hr
    obtain ⟨-, visits, visit, hwaits⟩ := h.holder r hr
    have hahead := hwaits.names_ahead
    rw [hnames] at hahead
    exact absurd hahead (by simp)
  sound := ⟨hsound, h.sound⟩

/-- **One event.** -/
theorem step_inv {t : System} {e : Event} (h : Inv proxies s) (hstep : step proxies s e = some t) :
    Inv proxies t := by
  cases e with
  | elapse duration =>
      obtain rfl := Option.some.inj hstep
      have hlater : s.now ≤ s.now + duration := Nat.le_add_right _ _
      refine ⟨h.hosts_kept, ?_, ?_, h.sound⟩
      · intro hbuilt
        refine (h.snapshot hbuilt).imp_right ?_
        rintro ⟨name, hname, hstale⟩
        exact ⟨name, hname, isFresh_mono hlater hstale⟩
      · intro r hr
        obtain ⟨hstale, hrest⟩ := h.holder r hr
        exact ⟨isFresh_mono hlater hstale, hrest⟩
  | call kind =>
      cases kind with
      | resolved =>
          rw [step] at hstep
          split at hstep
          · rename_i hnames
            obtain rfl := Option.some.inj hstep
            refine h.log hnames (fun _ => rfl) ⟨⟨hnames.symm, [], s.log, rfl, .start⟩, ?_, ?_⟩
            · intro net
              simp [Trusted, hnames]
            · simp [hnames]
          · obtain rfl := Option.some.inj hstep
            exact h.waiting _
      | prime =>
          rw [step] at hstep
          split at hstep
          · rename_i hnames
            obtain rfl := Option.some.inj hstep
            refine h.log hnames (fun _ => rfl) ⟨⟨hnames.symm, [], s.log, rfl, .start⟩, ?_⟩
            simp [hnames]
          · obtain rfl := Option.some.inj hstep
            exact h.waiting _
  | turn i =>
      rw [step] at hstep
      split at hstep
      · rename_i hholder hwaiting
        split at hstep
        · rename_i hready
          obtain rfl := Option.some.inj hstep
          obtain ⟨hbuilt, hfresh⟩ := Bool.and_eq_true_iff.mp hready
          exact readSnapshot_inv (h.waiting _) hholder hbuilt (List.all_eq_true.mp hfresh)
        · obtain rfl := Option.some.inj hstep
          exact h.waiting _
      · obtain rfl := Option.some.inj hstep
        exact refreshLocked_inv .resolved (midway_start h.hosts_kept h.sound)
      · obtain rfl := Option.some.inj hstep
        exact refreshLocked_inv .prime (midway_start (fun _ => rfl) ⟨trivial, h.sound⟩)
      · cases hstep
  | answer dns =>
      rw [step] at hstep
      split at hstep
      · rename_i r hholder
        obtain rfl := Option.some.inj hstep
        obtain ⟨-, visits, visit, hwaits⟩ := h.holder r hholder
        obtain ⟨entries, older, hlog, htrail, hdue⟩ := hwaits.logged
        have hasked : Sound proxies (.answered r.name dns s.now) s.log :=
          ⟨visit, entries ++ older, hlog, hwaits.name_eq, hwaits.asked⟩
        refine refreshLocked_inv r.kind ⟨?_, ?_, ?_, ?_, hasked, h.sound⟩
        · exact hostsKept_answer h.hosts_kept r.name dns rfl rfl
        · rw [hwaits.visits_eq, List.map_append, List.append_assoc, List.map_singleton,
            hwaits.name_eq]
          exact hwaits.names_ahead
        · intro name hmem
          rw [hwaits.visits_eq, List.map_append, List.mem_append, List.map_singleton,
            hwaits.name_eq] at hmem
          show (Function.update s.cache.hosts r.name _ name).isSome
          by_cases hthis : name = r.name
          · rw [hthis, Function.update_self]
            rfl
          · rw [Function.update_of_ne hthis]
            exact hwaits.entered name (hmem.resolve_right fun h => hthis (List.mem_singleton.mp h))
        · refine ⟨.answered r.name dns s.now :: .visited visit :: entries, older,
            congrArg _ hlog, ?_⟩
          rw [hwaits.visits_eq, ← hwaits.name_eq]
          exact htrail.lookedUp hwaits.asked hdue
      · cases hstep
  | abandonRefresh =>
      rw [step] at hstep
      split at hstep
      · obtain rfl := Option.some.inj hstep
        refine ⟨h.hosts_kept, h.snapshot, ?_, h.sound⟩
        intro r hr
        cases hr
      · cases hstep
  | abandon i =>
      rw [step] at hstep
      split at hstep
      · obtain rfl := Option.some.inj hstep
        exact h.waiting _
      · cases hstep

theorem inv_of_reaches (h : Reaches (step proxies) anyStep .initial s) : Inv proxies s :=
  h.invariant inv_initial fun _ _ _ hinv _ hstep => step_inv hinv hstep

end Invariant

theorem mem_networks {matchers : List ProxyMatcher} {net : IpNetwork} :
    net ∈ (TrustedProxies.new matchers).networks ↔ .network net ∈ matchers := by
  show net ∈ matchers.filterMap _ ↔ _
  rw [List.mem_filterMap]
  constructor
  · rintro ⟨matcher, hmem, hnet⟩
    cases matcher with
    | network net' =>
        obtain rfl := Option.some.inj hnet
        exact hmem
    | hostname name => cases hnet
  · exact fun hmem => ⟨_, hmem, rfl⟩

theorem mem_hostnames {matchers : List ProxyMatcher} {name : String} :
    name ∈ (TrustedProxies.new matchers).hostnames ↔ .hostname name ∈ matchers := by
  show name ∈ matchers.filterMap _ ↔ _
  rw [List.mem_filterMap]
  constructor
  · rintro ⟨matcher, hmem, hname⟩
    cases matcher with
    | network net => cases hname
    | hostname name' =>
        obtain rfl := Option.some.inj hname
        exact hmem
  · exact fun hmem => ⟨_, hmem, rfl⟩

/-- **The cache trusts what is configured and what was last found.**  In every run, whatever calls
are abandoned, a call that returns has come to every name in order.  Where a name was due it made a
lookup that ran to its end, and nowhere else, as its log shows (`Complete`); and nothing else makes
lookups.  A name is due when no lookup of it is left since `prime` last threw them away, or the last
one is too old for its outcome.  The networks that `resolved` returns are the literals and the
addresses of each name's last completed lookup, of which there is one; the names that `prime` returns
are those whose last lookup found nothing. -/
theorem resolved_exact (matchers : List ProxyMatcher) (positive negative : ℕ) {s : System}
    (h : Reaches (step ((TrustedProxies.new matchers).withTtls positive negative)) anyStep
      .initial s) :
    (∀ visits networks past, .returned visits networks :: past <:+ s.log →
      Complete ((TrustedProxies.new matchers).withTtls positive negative) visits past ∧
        (∀ name, .hostname name ∈ matchers → (lastLookup name past).isSome) ∧
        ∀ net, net ∈ networks ↔ .network net ∈ matchers ∨
          ∃ name, .hostname name ∈ matchers ∧
            ∃ l, lastLookup name past = some l ∧ net ∈ l.networks) ∧
      (∀ visits failed past, .primed visits failed :: past <:+ s.log →
        Complete ((TrustedProxies.new matchers).withTtls positive negative) visits past ∧
          ∀ name, name ∈ failed ↔ .hostname name ∈ matchers ∧
            ∃ l, lastLookup name past = some l ∧ l.networks = []) ∧
      (∀ v past, .visited v :: past <:+ s.log →
        (v.asked = true ↔ ∀ l, keptLookup v.name past = some l →
          (if l.networks = [] then negative else positive) ≤ v.time - l.time)) ∧
      ∀ name answer time past, .answered name answer time :: past <:+ s.log →
        ∃ v older, past = .visited v :: older ∧ v.name = name ∧ v.asked = true := by
  have hsound := (inv_of_reaches h).sound
  refine ⟨?_, ?_, ?_, ?_⟩
  · intro visits networks past hentry
    obtain ⟨hcomplete, htrusted, hlookups⟩ := hsound.of_suffix hentry
    refine ⟨hcomplete, ?_, ?_⟩
    · exact fun name hname => hlookups name (mem_hostnames.mpr hname)
    · intro net
      rw [htrusted net]
      refine or_congr mem_networks (exists_congr fun name => and_congr_left fun _ => ?_)
      exact mem_hostnames
  · intro visits failed past hentry
    obtain ⟨hcomplete, hfailed⟩ := hsound.of_suffix hentry
    refine ⟨hcomplete, fun name => ?_⟩
    rw [hfailed name]
    exact and_congr_left fun _ => mem_hostnames
  · exact fun v past hentry => hsound.of_suffix hentry
  · exact fun name answer time past hentry => hsound.of_suffix hentry

/-! ### An abandoned `prime` -/

/-- A lookup, a `prime` that is dropped while it waits, and a second call a second later. -/
def abandonedPrime : List Event :=
  [.call .resolved, .turn 0, .turn 0, .answer (some [.v4 0x0A000001]),
    .call .prime, .turn 0, .abandonRefresh, .elapse (10 ^ 9),
    .call .resolved, .turn 0, .turn 0, .answer (some [.v4 0x0A000002])]

/-- The log of that run. -/
def abandonedLog : List Entry :=
  [.returned [⟨"proxy", 10 ^ 9, true⟩] [.v4 0x0A000002 32],
    .answered "proxy" (some [.v4 0x0A000002]) (10 ^ 9), .visited ⟨"proxy", 10 ^ 9, true⟩,
    .visited ⟨"proxy", 0, true⟩, .cleared,
    .returned [⟨"proxy", 0, true⟩] [.v4 0x0A000001 32],
    .answered "proxy" (some [.v4 0x0A000001]) 0, .visited ⟨"proxy", 0, true⟩]

theorem reaches_abandonedLog : ∃ s, Reaches (step (.new [.hostname "proxy"])) anyStep .initial s ∧
    s.log = abandonedLog := by
  have hlog : (runEvents (step (.new [.hostname "proxy"])) anyStep .initial abandonedPrime).map
      System.log = some abandonedLog := by
    decide +kernel
  obtain ⟨s, hs, hslog⟩ := Option.map_eq_some_iff.mp hlog
  exact ⟨s, reaches_of_runEvents hs, hslog⟩

/-- In that run both calls came to the name, and the last one returns its last lookup. -/
theorem resolved_exact_abandoned : ∃ s,
    Reaches (step (.new [.hostname "proxy"])) anyStep .initial s ∧
      ∃ visits networks past, .returned visits networks :: past <:+ s.log ∧
        visits.map Visit.name = ["proxy"] ∧ (lastLookup "proxy" past).isSome ∧
          .v4 0x0A000002 32 ∈ networks := by
  obtain ⟨s, hs, hlog⟩ := reaches_abandonedLog
  have hentry : .returned [⟨"proxy", 10 ^ 9, true⟩] [.v4 0x0A000002 32] :: abandonedLog.tail <:+
      s.log := by
    rw [hlog]
    exact List.suffix_rfl
  obtain ⟨hexact, -⟩ := resolved_exact [.hostname "proxy"] defaultPositiveTtl defaultNegativeTtl hs
  obtain ⟨⟨hnames, -⟩, hlookup, htrusted⟩ := hexact _ _ _ hentry
  refine ⟨s, hs, _, _, _, hentry, hnames, hlookup "proxy" List.mem_cons_self, ?_⟩
  refine (htrusted _).mpr (Or.inr ⟨"proxy", List.mem_cons_self, ?_⟩)
  refine ⟨⟨some [.v4 0x0A000002], 10 ^ 9⟩, ?_, ?_⟩
  · decide +kernel
  · decide +kernel

/-- **A lookup that is not too old is made again**, after a `prime` that was abandoned. -/
theorem resolved_asks_again : ∃ s,
    Reaches (step (.new [.hostname "proxy"])) anyStep .initial s ∧
      ∃ visits networks past, .returned visits networks :: past <:+ s.log ∧
        ∃ v ∈ visits, ∃ answer time older,
          .answered v.name answer time :: .visited v :: older <:+ past ∧
            ∃ l, lastLookup v.name older = some l ∧
              ¬l.Outlived (.new [.hostname "proxy"]) v.time := by
  obtain ⟨s, hs, hlog⟩ := reaches_abandonedLog
  have hentry : .returned [⟨"proxy", 10 ^ 9, true⟩] [.v4 0x0A000002 32] :: abandonedLog.tail <:+
      s.log := by
    rw [hlog]
    exact List.suffix_rfl
  refine ⟨s, hs, _, _, _, hentry, _, List.mem_cons_self, _, _, _, List.suffix_rfl, ?_⟩
  refine ⟨⟨some [.v4 0x0A000001], 0⟩, ?_, ?_⟩
  · decide +kernel
  · decide +kernel

end SimplyIpSync.ProxyCache
