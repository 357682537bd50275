import SimplyIpSync.Jobs.Fetch

/-!
# Deduplication in an ingestion run

The merge loop of `execute` drops an address it has seen before, comparing texts.  The texts are
normalized, and the comment on the loop's test calls them canonical.  A vault keys an address with
its host bits cleared, and the normalized text keeps them: two spellings of one network that
differ there stay two entries.
-/

namespace SimplyIpSync.Jobs.Dedup

open SimplyIpSync.Entities SimplyIpSync.Bogon SimplyIpSync.Net SimplyIpSync.Parsers
open SimplyIpSync.Jobs.ExternalIngestion SimplyIpSync.Jobs.Fetch

/-! ### What the loop keeps -/

theorem mem_addAddress {aggregated : List String} {address a : String} :
    a ∈ addAddress aggregated address ↔ a ∈ aggregated ∨ a = address := by
  rw [addAddress]
  split
  case isTrue hseen =>
    constructor
    · exact Or.inl
    · rintro (ha | rfl)
      · exact ha
      · exact hseen
  case isFalse => rw [List.mem_append, List.mem_singleton]

theorem nodup_addAddress {aggregated : List String} (h : aggregated.Nodup) (address : String) :
    (addAddress aggregated address).Nodup := by
  rw [addAddress]
  split
  case isTrue => exact h
  case isFalse hnew =>
    refine List.nodup_append.mpr ⟨h, List.nodup_singleton address, ?_⟩
    intro a ha b hb heq
    exact hnew (List.mem_singleton.mp hb ▸ heq ▸ ha)

theorem mem_foldl_addAddress {addresses aggregated : List String} {a : String} :
    a ∈ addresses.foldl addAddress aggregated ↔ a ∈ aggregated ∨ a ∈ addresses := by
  induction addresses generalizing aggregated with
  | nil => simp
  | cons address addresses ih =>
      rw [List.foldl_cons, ih, mem_addAddress, List.mem_cons, or_assoc]

theorem nodup_foldl_addAddress {addresses aggregated : List String} (h : aggregated.Nodup) :
    (addresses.foldl addAddress aggregated).Nodup := by
  induction addresses generalizing aggregated with
  | nil => exact h
  | cons address addresses ih => exact ih (nodup_addAddress h address)

section

variable {parse : String → Option IpNetwork} {group : DestinationGroup}
variable {feeds : List ExternalSource}

/-- The addresses a result passes on: those its feed's age limit and bogon filter keep. -/
def contribution (parse : String → Option IpNetwork) (group : DestinationGroup)
    (feeds : List ExternalSource) (now : ℤ) (result : FeedResult) : List String :=
  match result.records with
  | .error _ => []
  | .ok records =>
      let feed := feeds.find? fun f => f.name = result.feedName
      let skipBogonFiltering :=
        (feed.bind ExternalSource.skipBogonFiltering).getD group.skipBogonFiltering
      ((applyTemporalFilter now records (feed.bind ExternalSource.maxAgeDays)).map fun kept =>
        (sanitizeFeed parse skipBogonFiltering kept).1).getD []

theorem mergeFeed_aggregated {now : ℤ} {acc acc' : Aggregate} {result : FeedResult}
    (h : mergeFeed parse group feeds now acc result = some acc') :
    acc'.aggregated = (contribution parse group feeds now result).foldl addAddress acc.aggregated := by
  rw [mergeFeed] at h
  rw [contribution]
  cases hrecords : result.records with
  | error e =>
      rw [hrecords] at h
      obtain rfl := Option.some.inj h
      rfl
  | ok records =>
      rw [hrecords] at h
      obtain ⟨kept, hkept, rfl⟩ := Option.map_eq_some_iff.mp h
      simp only [hkept, Option.map_some, Option.getD_some]

theorem mergeFeeds_aggregated {clock : ℕ → ℤ} {i : ℕ} {results : List FeedResult}
    {acc acc' : Aggregate} (h : mergeFeeds parse group feeds clock i results acc = some acc')
    (hnodup : acc.aggregated.Nodup) :
    acc'.aggregated.Nodup ∧ ∀ a, a ∈ acc'.aggregated ↔ a ∈ acc.aggregated ∨
      ∃ j result, results[j]? = some result ∧
        a ∈ contribution parse group feeds (clock (i + j)) result := by
  induction results generalizing i acc with
  | nil =>
      obtain rfl := Option.some.inj h
      exact ⟨hnodup, by simp⟩
  | cons result results ih =>
      obtain ⟨mid, hmid, hrest⟩ := Option.bind_eq_some_iff.mp h
      have hfold := mergeFeed_aggregated hmid
      obtain ⟨hdone, hmem⟩ := ih hrest (hfold ▸ nodup_foldl_addAddress hnodup)
      refine ⟨hdone, fun a => ?_⟩
      rw [hmem, hfold, mem_foldl_addAddress, or_assoc]
      refine or_congr_right ?_
      constructor
      · rintro (ha | ⟨j, later, hlater, ha⟩)
        · exact ⟨0, result, rfl, ha⟩
        · exact ⟨j + 1, later, hlater, by rwa [Nat.add_comm j 1, ← Nat.add_assoc]⟩
      · rintro ⟨j, later, hlater, ha⟩
        cases j with
        | zero =>
            obtain rfl := Option.some.inj hlater
            exact .inl ha
        | succ j => exact .inr ⟨j, later, hlater, by rwa [Nat.add_comm j 1, ← Nat.add_assoc] at ha⟩

variable {fetch : ExternalSource → FetchOutcome} {clock : ℕ → ℤ}

/-- Some feed of the run passes the address on. -/
def Contributed (parse : String → Option IpNetwork) (group : DestinationGroup)
    (feeds : List ExternalSource) (fetch : ExternalSource → FetchOutcome) (clock : ℕ → ℤ)
    (address : String) : Prop :=
  ∃ i result, (fetchAllFeedsConcurrently feeds fetch)[i]? = some result ∧
    address ∈ contribution parse group feeds (clock i) result

/-- **The aggregated list**: every address some feed passes on, once. -/
theorem aggregate_spec {agg : Aggregate}
    (h : aggregate parse group feeds fetch clock = some agg) :
    agg.aggregated.Nodup ∧
      ∀ a, a ∈ agg.aggregated ↔ Contributed parse group feeds fetch clock a := by
  obtain ⟨hnodup, hmem⟩ := mergeFeeds_aggregated h List.nodup_nil
  refine ⟨hnodup, fun a => ?_⟩
  rw [hmem, Contributed]
  simp

theorem mem_of_mem_temporal {now : ℤ} {records kept : List ParsedRecord} {maxAgeDays : Option ℤ}
    (h : applyTemporalFilter now records maxAgeDays = some kept) {r : ParsedRecord}
    (hr : r ∈ kept) : r ∈ records := by
  cases maxAgeDays with
  | none => exact Option.some.inj h ▸ hr
  | some days =>
      obtain ⟨cutoff, -, rfl⟩ := Option.map_eq_some_iff.mp h
      exact List.mem_of_mem_filter hr

/-- A contributed address is one of the fetched records. -/
theorem mem_records_of_contribution {now : ℤ} {result : FeedResult} {a : String}
    (h : a ∈ contribution parse group feeds now result) :
    ∃ records, result.records = .ok records ∧ ∃ r ∈ records, r.address = a := by
  rw [contribution] at h
  cases hrecords : result.records with
  | error e =>
      rw [hrecords] at h
      cases h
  | ok records =>
      rw [hrecords] at h
      refine ⟨records, rfl, ?_⟩
      simp only at h
      cases hkept : applyTemporalFilter now records
          ((feeds.find? fun f => f.name = result.feedName).bind ExternalSource.maxAgeDays) with
      | none =>
          rw [hkept] at h
          cases h
      | some kept =>
          rw [hkept, Option.map_some, Option.getD_some] at h
          have hmem : a ∈ kept.map ParsedRecord.address := by
            rw [sanitizeFeed] at h
            split at h
            · exact h
            · exact (mem_sanitize parse).mp h |>.1
          obtain ⟨r, hr, rfl⟩ := List.mem_map.mp hmem
          exact ⟨r, mem_of_mem_temporal hkept hr, rfl⟩

end

/-! ### Entries with one vault key -/

/-- `str::parse::<IpNetwork>` on a stored text. -/
def parseEntry (entry : String) : Option IpNetwork := parseIpNetwork entry.toList

/-- Every address of a fetch is what a parser returns: a normalized text. -/
def FromParsers (fetch : ExternalSource → FetchOutcome) : Prop :=
  ∀ feed records, fetch feed = .finished (.ok records) →
    ∀ r ∈ records, ∃ input, normalizeIpOrCidr input = some r.address.toList

/-- Whatever the hosts answer, the records of a fetch are what a parser made of their bodies. -/
theorem fromParsers_fetchOutcome (env : Env) (fates : ExternalSource → Fate) :
    FromParsers (fetchOutcome env fates) := by
  intro feed records hrecords r hr
  rw [fetchOutcome] at hrecords
  cases hfate : fates feed with
  | panicked joinErr =>
      rw [hfate] at hrecords
      cases hrecords
  | hosted host =>
      rw [hfate] at hrecords
      simp only [FetchOutcome.finished.injEq] at hrecords
      obtain ⟨net, -, haddress⟩ := (mem_fetchAndParse hrecords).mp hr
      -- a normalized text is read back as it is
      refine ⟨showNormalized net, ?_⟩
      rw [normalizeIpOrCidr_eq, denotes_showNormalized, Option.map_some, haddress, recordText,
        String.toList_ofList]

/-- No two entries have one vault key. -/
def KeysDistinct (entries : List String) : Prop :=
  entries.Pairwise fun x y => vaultKey x.toList ≠ vaultKey y.toList

/-- Two addresses the feeds of a run pass on are one network with different host bits. -/
def MixesHostBits (group : DestinationGroup) (feeds : List ExternalSource)
    (fetch : ExternalSource → FetchOutcome) (clock : ℕ → ℤ) : Prop :=
  ∃ x y net net', Contributed parseEntry group feeds fetch clock x ∧
    Contributed parseEntry group feeds fetch clock y ∧
    denotes x.toList = some net ∧ denotes y.toList = some net' ∧ HostBitsDiffer net net'

theorem normalized_of_contributed {group : DestinationGroup} {feeds : List ExternalSource}
    {fetch : ExternalSource → FetchOutcome} {clock : ℕ → ℤ} (hfetch : FromParsers fetch)
    {x : String} (h : Contributed parseEntry group feeds fetch clock x) :
    ∃ net, x.toList = showNormalized net := by
  obtain ⟨i, result, hresult, hx⟩ := h
  obtain ⟨records, hrecords, r, hr, rfl⟩ := mem_records_of_contribution hx
  obtain ⟨feed, -, rfl⟩ := List.mem_map.mp (List.mem_of_getElem? hresult)
  cases hout : fetch feed with
  | panicked joinErr =>
      rw [hout] at hrecords
      cases hrecords
  | finished records' =>
      rw [hout] at hrecords
      simp only at hrecords
      obtain ⟨input, hinput⟩ := hfetch feed records (by rw [hout, hrecords]) r hr
      rw [normalizeIpOrCidr_eq] at hinput
      obtain ⟨net, -, hnet⟩ := Option.map_eq_some_iff.mp hinput
      exact ⟨net, hnet.symm⟩

/-- **When the aggregated list has one entry for each vault key.** -/
theorem keysDistinct_iff {group : DestinationGroup} {feeds : List ExternalSource}
    {fetch : ExternalSource → FetchOutcome} {clock : ℕ → ℤ} {agg : Aggregate}
    (hfetch : FromParsers fetch)
    (h : aggregate parseEntry group feeds fetch clock = some agg) :
    KeysDistinct agg.aggregated ↔ ¬ MixesHostBits group feeds fetch clock := by
  obtain ⟨hnodup, hmem⟩ := aggregate_spec h
  constructor
  · rintro hdistinct ⟨x, y, net, net', hx, hy, hnet, hnet', hkey, hne⟩
    have hxy : x ≠ y := by
      rintro rfl
      exact hne (Option.some.inj (hnet.symm.trans hnet'))
    have : Std.Symm fun x y : String => vaultKey x.toList ≠ vaultKey y.toList :=
      ⟨fun _ _ => Ne.symm⟩
    have hdiffer : vaultKey x.toList ≠ vaultKey y.toList :=
      hdistinct.forall ((hmem x).mpr hx) ((hmem y).mpr hy) hxy
    rw [vaultKey, vaultKey, hnet, hnet', Option.map_some, Option.map_some, hkey] at hdiffer
    exact hdiffer rfl
  · intro hmix
    refine hnodup.imp_of_mem fun {x y} hx hy hxy hkey => ?_
    have hcx := (hmem x).mp hx
    have hcy := (hmem y).mp hy
    obtain ⟨net, hnet⟩ := normalized_of_contributed hfetch hcx
    obtain ⟨net', hnet'⟩ := normalized_of_contributed hfetch hcy
    have hx' : denotes x.toList = some net := by rw [hnet, denotes_showNormalized]
    have hy' : denotes y.toList = some net' := by rw [hnet', denotes_showNormalized]
    rw [vaultKey, vaultKey, hx', hy', Option.map_some, Option.map_some, Option.some.injEq] at hkey
    refine hmix ⟨x, y, net, net', hcx, hcy, hx', hy', hkey, fun heq => hxy ?_⟩
    -- one network has one normalized text
    exact String.toList_injective (by rw [hnet, hnet', heq])

/-- **Where normalization is canonical.**  For two accepted texts, equal normalized texts are
equal vault keys unless they are one network with different host bits; a normalized text is its
own; and the aggregated list of a run has one entry for each vault key unless its feeds
pass on two such addresses, since the records of every fetch come from the parsers. -/
theorem normalization_canonical_iff (a b : Address) (group : DestinationGroup)
    (feeds : List ExternalSource) (fetch : ExternalSource → FetchOutcome) (clock : ℕ → ℤ) :
    ((normalizeIpOrCidr a.text = normalizeIpOrCidr b.text ↔ vaultKey a.text = vaultKey b.text) ↔
      ¬ HostBitsDiffer a.net b.net) ∧
    (∀ input text, normalizeIpOrCidr input = some text → normalizeIpOrCidr text = some text) ∧
    (∀ agg, FromParsers fetch → aggregate parseEntry group feeds fetch clock = some agg →
      (KeysDistinct agg.aggregated ↔ ¬ MixesHostBits group feeds fetch clock)) ∧
    (∀ env fates, FromParsers (fetchOutcome env fates)) :=
  ⟨normalize_agrees_iff a b, fun _ _ => normalizeIpOrCidr_idem, fun _ => keysDistinct_iff,
    fromParsers_fetchOutcome⟩

/-- A group whose one feed lists a network twice. -/
def blockGroup : DestinationGroup :=
  ⟨5, "perimeter", "ban", "0 * * * * *", "upsert", true, false, none⟩

def rangeFeed : ExternalSource :=
  ⟨11, 5, "ranges", "https://ranges", "REGEX_LINE", none, none, none⟩

def fetchRange (_ : ExternalSource) : FetchOutcome :=
  .finished (.ok [⟨"8.8.8.8/24", none⟩, ⟨"8.8.8.0/24", none⟩])

/-- `8.8.8.8/24` and `8.8.8.0/24` are one network, two normalized texts and two entries. -/
theorem entries_share_vaultKey :
    normalizeIpOrCidr "8.8.8.8/24".toList ≠ normalizeIpOrCidr "8.8.8.0/24".toList ∧
    vaultKey "8.8.8.8/24".toList = vaultKey "8.8.8.0/24".toList ∧
    ∃ agg, aggregate parseEntry blockGroup [rangeFeed] fetchRange (fun _ => 0) = some agg ∧
      FromParsers fetchRange ∧ ¬ KeysDistinct agg.aggregated := by
  have hkey : vaultKey "8.8.8.8/24".toList = vaultKey "8.8.8.0/24".toList := by decide +kernel
  refine ⟨by decide +kernel, hkey, ⟨["8.8.8.8/24", "8.8.8.0/24"], [], 0⟩, by decide +kernel, ?_, ?_⟩
  · intro feed records hrecords r hr
    simp only [fetchRange, FetchOutcome.finished.injEq, Except.ok.injEq] at hrecords
    rw [← hrecords, List.mem_cons, List.mem_singleton] at hr
    refine ⟨r.address.toList, ?_⟩
    rcases hr with rfl | rfl
    · decide +kernel
    · decide +kernel
  · intro hdistinct
    exact List.rel_of_pairwise_cons hdistinct List.mem_cons_self hkey

end SimplyIpSync.Jobs.Dedup
