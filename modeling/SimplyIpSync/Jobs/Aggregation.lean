import SimplyIpSync.Jobs.Dedup
import SimplyIpSync.Sanitize

/-!
# What a run aggregates

Every feed of a group runs under its own age limit and its own bogon policy, and the merge loop
looks the feed up again by its name.  Where the names are distinct the lookup finds the feed
itself, and the aggregated list is the union of what each feed lets through, in whatever order the
feeds come.
-/

namespace SimplyIpSync.Jobs.Aggregation

open SimplyIpSync.Entities SimplyIpSync.Storage SimplyIpSync.Bogon SimplyIpSync.Sanitize
open SimplyIpSync.Jobs.ExternalIngestion SimplyIpSync.Jobs.Dedup

/-! ### The age limit -/

/-- No date, or one that is not older than the limit. -/
def Current (now : ℤ) (maxAgeDays : Option ℤ) (r : ParsedRecord) : Prop :=
  ∀ days ∈ maxAgeDays, ∀ lastSeen ∈ r.lastSeenAt, now - days * nanosPerDay ≤ lastSeen

instance currentDecidable (now : ℤ) (maxAgeDays : Option ℤ) (r : ParsedRecord) :
    Decidable (Current now maxAgeDays r) :=
  inferInstanceAs (Decidable (∀ days ∈ maxAgeDays, ∀ lastSeen ∈ r.lastSeenAt, _))

/-- The oldest date the limit admits is a date. -/
def WithinDates (now : ℤ) (maxAgeDays : Option ℤ) : Prop :=
  ∀ days ∈ maxAgeDays, IsDateTimeSec (timestamp (now - days * nanosPerDay))

instance withinDatesDecidable (now : ℤ) (maxAgeDays : Option ℤ) :
    Decidable (WithinDates now maxAgeDays) :=
  inferInstanceAs (Decidable (∀ days ∈ maxAgeDays, _))

/-- **The temporal filter** keeps the current records, and panics where the oldest date it admits
is none. -/
theorem applyTemporalFilter_eq (now : ℤ) (records : List ParsedRecord) (maxAgeDays : Option ℤ) :
    applyTemporalFilter now records maxAgeDays =
      if WithinDates now maxAgeDays then
        some (records.filter fun r => decide (Current now maxAgeDays r))
      else none := by
  cases maxAgeDays with
  | none =>
      have hall : records.filter (fun r => decide (Current now none r)) = records := by
        rw [List.filter_eq_self]
        intro r _
        exact decide_eq_true fun days hdays => absurd hdays (Option.not_mem_none days)
      have hdates : WithinDates now none := fun days hdays =>
        absurd hdays (Option.not_mem_none days)
      rw [hall, if_pos hdates]
      rfl
  | some days =>
      have hdates : WithinDates now (some days) ↔
          IsDateTimeSec (timestamp (now - days * nanosPerDay)) := by
        simp [WithinDates]
      have hkept : ∀ r : ParsedRecord, decide (Current now (some days) r) =
          r.lastSeenAt.all fun lastSeen => decide (now - days * nanosPerDay ≤ lastSeen) := by
        intro r
        cases hseen : r.lastSeenAt <;> simp [Current, hseen]
      rw [applyTemporalFilter, cutoffFor]
      simp only [hdates, hkept]
      split <;> rfl

/-! ### One feed -/

/-- The bogon policy of a feed: its own override if set, else the group's. -/
def skips (group : DestinationGroup) (feed : ExternalSource) : Bool :=
  feed.skipBogonFiltering.getD group.skipBogonFiltering

/-- The record passes the age limit and the bogon policy of its feed. -/
def LetsThrough (parse : String → Option IpNetwork) (group : DestinationGroup)
    (feed : ExternalSource) (now : ℤ) (r : ParsedRecord) : Prop :=
  Current now feed.maxAgeDays r ∧ (skips group feed = false → Routable parse r.address)

open Classical in
/-- The current records of a feed that its bogon policy drops. -/
noncomputable def bogonsOf (parse : String → Option IpNetwork) (group : DestinationGroup)
    (feed : ExternalSource) (now : ℤ) (records : List ParsedRecord) : ℕ :=
  records.countP fun r =>
    decide (Current now feed.maxAgeDays r ∧ skips group feed = false ∧ ¬ Routable parse r.address)

/-- What the fetch of a feed hands to the merge loop. -/
def resultOf (fetch : ExternalSource → FetchOutcome) (feed : ExternalSource) : FeedResult :=
  match fetch feed with
  | .finished records => { feedName := feed.name, records := records }
  | .panicked joinErr =>
      { feedName := "(unknown feed)"
        records := .error ("feed fetch task panicked: " ++ joinErr) }

/-- The records of a feed whose fetch succeeds. -/
def recordsOf (fetch : ExternalSource → FetchOutcome) (feed : ExternalSource) :
    Option (List ParsedRecord) :=
  match fetch feed with
  | .finished (.ok records) => some records
  | _ => none

theorem fetchAllFeedsConcurrently_eq (feeds : List ExternalSource)
    (fetch : ExternalSource → FetchOutcome) :
    fetchAllFeedsConcurrently feeds fetch = feeds.map (resultOf fetch) := rfl

theorem find?_name {feeds : List ExternalSource} (h : (feeds.map ExternalSource.name).Nodup)
    {feed : ExternalSource} (hfeed : feed ∈ feeds) :
    (feeds.find? fun f => f.name = feed.name) = some feed := by
  induction feeds with
  | nil => cases hfeed
  | cons head feeds ih =>
      obtain ⟨hnew, hrest⟩ := List.nodup_cons.mp h
      rcases List.mem_cons.mp hfeed with rfl | hfeed
      · exact List.find?_cons_of_pos (by simp)
      · have hne : head.name ≠ feed.name := by
          intro heq
          exact hnew (heq ▸ List.mem_map_of_mem hfeed)
        rw [List.find?_cons_of_neg (by simpa using hne), ih hrest hfeed]

section

variable {parse : String → Option IpNetwork} {group : DestinationGroup}
variable {feeds : List ExternalSource} {fetch : ExternalSource → FetchOutcome}
variable {feed : ExternalSource} {now : ℤ}

theorem mem_sanitizeFeed {skipBogonFiltering : Bool} {records : List ParsedRecord} {a : String} :
    a ∈ (sanitizeFeed parse skipBogonFiltering records).1 ↔
      ∃ r ∈ records, r.address = a ∧ (skipBogonFiltering = false → Routable parse r.address) := by
  rw [sanitizeFeed]
  cases skipBogonFiltering with
  | true => simp
  | false =>
      rw [if_neg Bool.false_ne_true, mem_sanitize, List.mem_map, isKept_iff]
      constructor
      · rintro ⟨⟨r, hr, rfl⟩, hroutable⟩
        exact ⟨r, hr, rfl, fun _ => hroutable⟩
      · rintro ⟨r, hr, rfl, hroutable⟩
        exact ⟨⟨r, hr, rfl⟩, hroutable rfl⟩

theorem sanitizeFeed_snd (records : List ParsedRecord) :
    (sanitizeFeed parse (skips group feed)
      (records.filter fun r => decide (Current now feed.maxAgeDays r))).2 =
      bogonsOf parse group feed now records := by
  rw [sanitizeFeed, bogonsOf]
  cases hskip : skips group feed with
  | true => simp
  | false =>
      rw [if_neg Bool.false_ne_true, sanitize_snd, List.countP_map, List.countP_filter]
      refine List.countP_congr fun r _ => ?_
      have hkept := isKept_iff parse r.address
      by_cases hroutable : Routable parse r.address
      · simp [hkept.mpr hroutable, hroutable]
      · simp [Bool.eq_false_iff.mpr fun h => hroutable (hkept.mp h), hroutable]

/-- A merge added these addresses and this many bogons. -/
structure Adds (acc : Aggregate) (lets : String → Prop) (bogons : ℕ) (agg : Aggregate) :
    Prop where
  nodup : acc.aggregated.Nodup → agg.aggregated.Nodup
  mem_iff : ∀ a, a ∈ agg.aggregated ↔ a ∈ acc.aggregated ∨ lets a
  bogons : agg.bogonsRemoved = acc.bogonsRemoved + bogons

theorem Adds.trans {acc mid agg : Aggregate} {lets lets' : String → Prop} {bogons bogons' : ℕ}
    (h : Adds acc lets bogons mid) (h' : Adds mid lets' bogons' agg) :
    Adds acc (fun a => lets a ∨ lets' a) (bogons + bogons') agg where
  nodup := fun hacc => h'.nodup (h.nodup hacc)
  mem_iff := fun a => by rw [h'.mem_iff, h.mem_iff, or_assoc]
  bogons := by rw [h'.bogons, h.bogons, Nat.add_assoc]

/-- The fetch of the feed succeeds with a record of this address, which the feed lets through. -/
def FeedLets (parse : String → Option IpNetwork) (group : DestinationGroup)
    (fetch : ExternalSource → FetchOutcome) (feed : ExternalSource) (now : ℤ) (a : String) : Prop :=
  ∃ records, recordsOf fetch feed = some records ∧
    ∃ r ∈ records, r.address = a ∧ LetsThrough parse group feed now r

/-- The bogons of the feed, if its fetch succeeds. -/
noncomputable def feedBogons (parse : String → Option IpNetwork) (group : DestinationGroup)
    (fetch : ExternalSource → FetchOutcome) (feed : ExternalSource) (now : ℤ) : ℕ :=
  ((recordsOf fetch feed).map (bogonsOf parse group feed now)).getD 0

/-- The fetch of the feed fails, or its age limit stays within the dates. -/
def FeedWithinDates (fetch : ExternalSource → FetchOutcome) (feed : ExternalSource) (now : ℤ) :
    Prop :=
  (recordsOf fetch feed).isSome → WithinDates now feed.maxAgeDays

/-- **One result merged.**  The row found by the name is the feed's own, so its own policies
apply. -/
theorem mergeFeed_spec (parse : String → Option IpNetwork) (group : DestinationGroup)
    (fetch : ExternalSource → FetchOutcome) (acc : Aggregate) (now : ℤ)
    (hfind : (feeds.find? fun f => f.name = feed.name) = some feed) :
    (¬ FeedWithinDates fetch feed now ∧
      mergeFeed parse group feeds now acc (resultOf fetch feed) = none) ∨
    (FeedWithinDates fetch feed now ∧
      ∃ agg, mergeFeed parse group feeds now acc (resultOf fetch feed) = some agg ∧
        Adds acc (FeedLets parse group fetch feed now) (feedBogons parse group fetch feed now)
          agg) := by
  have hfails : recordsOf fetch feed = none → ∀ e, Adds acc
      (FeedLets parse group fetch feed now) (feedBogons parse group fetch feed now)
      { acc with feedErrors := acc.feedErrors ++ [e] } := by
    intro hnone e
    refine ⟨id, fun a => ?_, ?_⟩
    · simp [FeedLets, hnone]
    · simp [feedBogons, hnone]
  rw [resultOf]
  cases hfetch : fetch feed with
  | panicked joinErr =>
      have hnone : recordsOf fetch feed = none := by rw [recordsOf, hfetch]
      exact .inr ⟨by simp [FeedWithinDates, hnone], _, rfl, hfails hnone _⟩
  | finished records =>
      cases records with
      | error e =>
          have hnone : recordsOf fetch feed = none := by rw [recordsOf, hfetch]
          exact .inr ⟨by simp [FeedWithinDates, hnone], _, rfl, hfails hnone _⟩
      | ok records =>
          have hsome : recordsOf fetch feed = some records := by rw [recordsOf, hfetch]
          have hdates : FeedWithinDates fetch feed now ↔ WithinDates now feed.maxAgeDays := by
            simp [FeedWithinDates, hsome]
          rw [hdates, mergeFeed]
          simp only [hfind, Option.bind_some, applyTemporalFilter_eq]
          by_cases hwithin : WithinDates now feed.maxAgeDays
          · rw [if_pos hwithin]
            refine .inr ⟨hwithin, _, rfl, nodup_foldl_addAddress, fun a => ?_, ?_⟩
            · show a ∈ List.foldl addAddress acc.aggregated (sanitizeFeed parse (skips group feed)
                (records.filter fun r => decide (Current now feed.maxAgeDays r))).1 ↔ _
              simp only [mem_foldl_addAddress, mem_sanitizeFeed, List.mem_filter, decide_eq_true_eq,
                FeedLets, LetsThrough, hsome, Option.some.injEq, exists_eq_left', and_assoc,
                and_left_comm]
            · show _ + (sanitizeFeed parse (skips group feed)
                (records.filter fun r => decide (Current now feed.maxAgeDays r))).2 = _
              rw [sanitizeFeed_snd, feedBogons, hsome]
              rfl
          · rw [if_neg hwithin]
            exact .inl ⟨hwithin, rfl⟩

/-! ### The whole run -/

/-- Every feed whose fetch succeeds has an age limit that stays within the dates. -/
def AllWithinDates (fetch : ExternalSource → FetchOutcome) (reading : ExternalSource → ℤ)
    (feeds : List ExternalSource) : Prop :=
  ∀ feed ∈ feeds, FeedWithinDates fetch feed (reading feed)

/-- Some feed of the group lets the address through. -/
def SomeFeedLets (parse : String → Option IpNetwork) (group : DestinationGroup)
    (fetch : ExternalSource → FetchOutcome) (reading : ExternalSource → ℤ)
    (feeds : List ExternalSource) (a : String) : Prop :=
  ∃ feed ∈ feeds, FeedLets parse group fetch feed (reading feed) a

/-- The bogons of all feeds. -/
noncomputable def totalBogons (parse : String → Option IpNetwork) (group : DestinationGroup)
    (fetch : ExternalSource → FetchOutcome) (reading : ExternalSource → ℤ)
    (feeds : List ExternalSource) : ℕ :=
  (feeds.map fun feed => feedBogons parse group fetch feed (reading feed)).sum

/-- From the `i`-th reading on, the clock shows each feed's reading. -/
def Reads (clock : ℕ → ℤ) (reading : ExternalSource → ℤ) (i : ℕ) (feeds : List ExternalSource) :
    Prop :=
  ∀ j feed, feeds[j]? = some feed → clock (i + j) = reading feed

theorem Reads.tail {clock : ℕ → ℤ} {reading : ExternalSource → ℤ} {i : ℕ}
    {rest : List ExternalSource} (h : Reads clock reading i (feed :: rest)) :
    Reads clock reading (i + 1) rest := by
  intro j later hlater
  rw [← h (j + 1) later hlater]
  congr 1
  omega

variable {clock : ℕ → ℤ} {reading : ExternalSource → ℤ}

/-- The merge loop over the last feeds of the group, from any accumulators. -/
theorem mergeFeeds_spec (parse : String → Option IpNetwork) (group : DestinationGroup)
    (fetch : ExternalSource → FetchOutcome) {rest : List ExternalSource} {i : ℕ} (acc : Aggregate)
    (hfind : ∀ feed ∈ rest, (feeds.find? fun f => f.name = feed.name) = some feed)
    (hreads : Reads clock reading i rest) :
    (¬ AllWithinDates fetch reading rest ∧
      mergeFeeds parse group feeds clock i (rest.map (resultOf fetch)) acc = none) ∨
    (AllWithinDates fetch reading rest ∧
      ∃ agg, mergeFeeds parse group feeds clock i (rest.map (resultOf fetch)) acc = some agg ∧
        Adds acc (SomeFeedLets parse group fetch reading rest)
          (totalBogons parse group fetch reading rest) agg) := by
  induction rest generalizing i acc with
  | nil =>
      refine .inr ⟨fun feed hfeed => absurd hfeed List.not_mem_nil, acc, rfl, id, ?_, rfl⟩
      intro a
      simp [SomeFeedLets]
  | cons feed rest ih =>
      have hclock : clock i = reading feed := hreads 0 feed rfl
      have hall : AllWithinDates fetch reading (feed :: rest) ↔
          FeedWithinDates fetch feed (reading feed) ∧ AllWithinDates fetch reading rest :=
        List.forall_mem_cons
      have hlets : SomeFeedLets parse group fetch reading (feed :: rest) = fun a =>
          FeedLets parse group fetch feed (reading feed) a ∨
            SomeFeedLets parse group fetch reading rest a := by
        funext a
        simp [SomeFeedLets]
      have hbogons : totalBogons parse group fetch reading (feed :: rest) =
          feedBogons parse group fetch feed (reading feed) +
            totalBogons parse group fetch reading rest := by
        simp [totalBogons]
      rw [List.map_cons, mergeFeeds, hclock, hall, hlets, hbogons]
      rcases mergeFeed_spec parse group fetch acc (reading feed)
          (hfind feed List.mem_cons_self) with
        ⟨hout, hnone⟩ | ⟨hwithin, mid, hmid, hadds⟩
      · rw [hnone]
        exact .inl ⟨fun h => hout h.1, rfl⟩
      · rw [hmid, Option.bind_some]
        rcases ih mid (fun f hf => hfind f (List.mem_cons_of_mem feed hf))
            hreads.tail with ⟨hout, hnone⟩ | ⟨hrest, agg, hagg, hadds'⟩
        · exact .inl ⟨fun h => hout h.2, hnone⟩
        · exact .inr ⟨⟨hwithin, hrest⟩, agg, hagg, hadds.trans hadds'⟩

/-- The aggregate is the union of what the feeds let through, each address once. -/
structure IsUnion (parse : String → Option IpNetwork) (group : DestinationGroup)
    (fetch : ExternalSource → FetchOutcome) (reading : ExternalSource → ℤ)
    (feeds : List ExternalSource) (agg : Aggregate) : Prop where
  nodup : agg.aggregated.Nodup
  mem_iff : ∀ a, a ∈ agg.aggregated ↔ SomeFeedLets parse group fetch reading feeds a
  bogons : agg.bogonsRemoved = totalBogons parse group fetch reading feeds

/-- A run over feeds with distinct names panics where an age limit leaves the dates, and else ends
with the union. -/
theorem aggregate_cases (parse : String → Option IpNetwork) (group : DestinationGroup)
    (fetch : ExternalSource → FetchOutcome) (hnames : (feeds.map ExternalSource.name).Nodup)
    (hreads : Reads clock reading 0 feeds) :
    (¬ AllWithinDates fetch reading feeds ∧ aggregate parse group feeds fetch clock = none) ∨
    (AllWithinDates fetch reading feeds ∧
      ∃ agg, aggregate parse group feeds fetch clock = some agg ∧
        IsUnion parse group fetch reading feeds agg) := by
  rw [aggregate, fetchAllFeedsConcurrently_eq]
  rcases mergeFeeds_spec parse group fetch ⟨[], [], 0⟩
      (fun feed hfeed => find?_name hnames hfeed) hreads with
    hpanics | ⟨hwithin, agg, hagg, hadds⟩
  · exact .inl hpanics
  · refine .inr ⟨hwithin, agg, hagg, hadds.nodup List.nodup_nil, fun a => ?_, ?_⟩
    · simp [hadds.mem_iff]
    · rw [hadds.bogons, Nat.zero_add]

/-- What the clock shows when the feed is filtered. -/
def readingOf (feeds : List ExternalSource) (clock : ℕ → ℤ) (feed : ExternalSource) : ℤ :=
  clock (feeds.idxOf feed)

theorem reads_readingOf (hnames : (feeds.map ExternalSource.name).Nodup) (clock : ℕ → ℤ) :
    Reads clock (readingOf feeds clock) 0 feeds := by
  intro j feed hfeed
  obtain ⟨hj, rfl⟩ := List.getElem?_eq_some_iff.mp hfeed
  rw [readingOf, (List.Nodup.of_map _ hnames).idxOf_getElem, Nat.zero_add]

/-- **When a run aggregates:** no age limit of a feed that gave records leaves the dates. -/
theorem aggregate_isSome_iff (parse : String → Option IpNetwork) (group : DestinationGroup)
    (fetch : ExternalSource → FetchOutcome) (hnames : (feeds.map ExternalSource.name).Nodup)
    (clock : ℕ → ℤ) :
    (aggregate parse group feeds fetch clock).isSome ↔
      AllWithinDates fetch (readingOf feeds clock) feeds := by
  rcases aggregate_cases parse group fetch hnames (reads_readingOf hnames clock) with
    ⟨hout, hnone⟩ | ⟨hwithin, agg, hagg, -⟩
  · exact iff_of_false (by rw [hnone]; exact Bool.false_ne_true) hout
  · exact iff_of_true (by rw [hagg]; rfl) hwithin

/-- The same addresses, in some order, and the same number of bogons. -/
def SameUnion (agg agg' : Aggregate) : Prop :=
  agg'.aggregated.Perm agg.aggregated ∧ agg'.bogonsRemoved = agg.bogonsRemoved

theorem allWithinDates_perm {feeds' : List ExternalSource} (h : feeds'.Perm feeds) :
    AllWithinDates fetch reading feeds' ↔ AllWithinDates fetch reading feeds :=
  forall_congr' fun _ => imp_congr_left h.mem_iff

/-- Two unions of the same feeds, however ordered, are the same. -/
theorem IsUnion.sameUnion {feeds' : List ExternalSource} {agg agg' : Aggregate}
    (h : IsUnion parse group fetch reading feeds agg)
    (h' : IsUnion parse group fetch reading feeds' agg') (hperm : feeds'.Perm feeds) :
    SameUnion agg agg' := by
  constructor
  · refine (List.perm_ext_iff_of_nodup h'.nodup h.nodup).mpr fun a => ?_
    rw [h'.mem_iff, h.mem_iff]
    exact exists_congr fun _ => and_congr_left' hperm.mem_iff
  · rw [h'.bogons, h.bogons]
    exact (hperm.map _).sum_eq

end

/-- **The aggregated list is the union of what each feed lets through.**  For feeds with distinct
names the run aggregates unless some age limit leaves the dates, the list is the union, each
address once, and the order of the feeds is no matter. -/
theorem aggregate_is_union (parse : String → Option IpNetwork) (group : DestinationGroup)
    (feeds : List ExternalSource) (fetch : ExternalSource → FetchOutcome) (clock : ℕ → ℤ)
    (hnames : (feeds.map ExternalSource.name).Nodup) :
    ((aggregate parse group feeds fetch clock).isSome ↔
      AllWithinDates fetch (readingOf feeds clock) feeds) ∧
    (∀ agg, aggregate parse group feeds fetch clock = some agg →
      IsUnion parse group fetch (readingOf feeds clock) feeds agg) ∧
    ∀ feeds' clock', feeds'.Perm feeds →
      (∀ feed ∈ feeds, readingOf feeds' clock' feed = readingOf feeds clock feed) →
      Option.Rel SameUnion (aggregate parse group feeds fetch clock)
        (aggregate parse group feeds' fetch clock') := by
  have hcases := aggregate_cases parse group fetch hnames
    (reads_readingOf hnames clock)
  refine ⟨aggregate_isSome_iff parse group fetch hnames clock, ?_, ?_⟩
  · intro agg hagg
    rcases hcases with ⟨-, hnone⟩ | ⟨-, agg', hagg', hunion⟩
    · rw [hnone] at hagg
      cases hagg
    · rw [hagg] at hagg'
      exact Option.some.inj hagg' ▸ hunion
  · intro feeds' clock' hperm hsame
    have hnames' : (feeds'.map ExternalSource.name).Nodup :=
      (hperm.map ExternalSource.name).nodup_iff.mpr hnames
    have hreads : Reads clock' (readingOf feeds clock) 0 feeds' := by
      intro j feed hfeed
      rw [← hsame feed (hperm.mem_iff.mp (List.mem_of_getElem? hfeed))]
      exact reads_readingOf hnames' clock' j feed hfeed
    have hcases' := aggregate_cases parse group fetch hnames'
      hreads
    rw [allWithinDates_perm hperm] at hcases'
    rcases hcases with ⟨hout, hnone⟩ | ⟨hwithin, agg, hagg, hunion⟩
    · rcases hcases' with ⟨-, hnone'⟩ | ⟨hwithin', -⟩
      · rw [hnone, hnone']
        exact .none
      · exact absurd hwithin' hout
    · rcases hcases' with ⟨hout', -⟩ | ⟨-, agg', hagg', hunion'⟩
      · exact absurd hwithin hout'
      · rw [hagg, hagg']
        exact .some (hunion.sameUnion hunion' hperm)

/-- A feed that keeps its private addresses. -/
def officeFeed : ExternalSource :=
  ⟨12, 5, "office", "https://office", "REGEX_LINE", none, none, some true⟩

/-- A feed under the policy of its group. -/
def publicFeed : ExternalSource :=
  ⟨13, 5, "public", "https://public", "REGEX_LINE", none, some 30, none⟩

def fetchOffices (feed : ExternalSource) : FetchOutcome :=
  if feed = officeFeed then .finished (.ok [⟨"10.0.0.1/32", none⟩])
  else .finished (.ok [⟨"10.0.0.1/32", none⟩, ⟨"8.8.8.8/32", none⟩])

/-- The private address comes in through the feed that keeps it, in either order of the feeds, and
the other feed's copy of it counts as a bogon. -/
theorem aggregate_is_union_office :
    ∃ agg, aggregate parseEntry blockGroup [publicFeed, officeFeed] fetchOffices (fun _ => 0) =
        some agg ∧
      agg = ⟨["8.8.8.8/32", "10.0.0.1/32"], [], 1⟩ ∧
      IsUnion parseEntry blockGroup fetchOffices
        (readingOf [publicFeed, officeFeed] fun _ => 0) [publicFeed, officeFeed] agg ∧
      Option.Rel SameUnion (some agg)
        (aggregate parseEntry blockGroup [officeFeed, publicFeed] fetchOffices fun _ => 0) := by
  have hagg : aggregate parseEntry blockGroup [publicFeed, officeFeed] fetchOffices (fun _ => 0) =
      some ⟨["8.8.8.8/32", "10.0.0.1/32"], [], 1⟩ := by
    decide +kernel
  obtain ⟨-, hunion, hperm⟩ := aggregate_is_union parseEntry blockGroup [publicFeed, officeFeed]
    fetchOffices (fun _ => 0) (by decide)
  refine ⟨_, hagg, rfl, hunion _ hagg, ?_⟩
  rw [← hagg]
  exact hperm [officeFeed, publicFeed] (fun _ => 0) (List.Perm.swap _ _ _) fun _ _ => rfl

end SimplyIpSync.Jobs.Aggregation
