import Mathlib.Data.String.Basic
import SimplyIpSync.Jobs.VaultSync
import SimplyIpSync.Lib.Paging
import SimplyIpSync.Replication.Snapshot

/-!
# A whole vault (`MockVault` in `tests/common/mod.rs`)

The stateful vault of the tests: one group, kept by canonical address, with the sightings and
deletions made at it, the pages it serves, and the batches it takes.  Reading and printing
addresses is the work of libraries; `AddressText` says what is relied on.

A record's `version` is what replication is about, its last sighting and its deletion.  The module
ends with what a batch of records that come from another vault does to the versions here.
-/

namespace SimplyIpSync.Replication

open SimplyIpSync.Entities SimplyIpSync.Storage SimplyIpSync.Client SimplyIpSync.Jobs
open SimplyIpSync.Jobs.VaultSync SimplyIpSync.Paging

/-! ### Addresses -/

/-- How address texts are read and printed.  A printed address has no blanks around it and reads
as itself; a printed network does so too, and is no address. -/
structure AddressText where
  trim : String → String
  /-- `IpAddr::from_str`, printed again. -/
  addr : String → Option String
  /-- `IpNetwork::from_str`, its network and prefix printed again. -/
  net : String → Option String
  trim_trim : ∀ raw, trim (trim raw) = trim raw
  addr_printed : ∀ raw printed, addr raw = some printed →
    trim printed = printed ∧ addr printed = some printed
  net_printed : ∀ raw printed, net raw = some printed →
    trim printed = printed ∧ addr printed = none ∧ net printed = some printed

variable {text : AddressText}

/-- `canonicalize_address`. -/
def canonicalizeAddress (text : AddressText) (raw : String) : String :=
  match text.addr (text.trim raw) with
  | some printed => printed
  | none =>
      match text.net (text.trim raw) with
      | some printed => printed
      | none => text.trim raw

theorem canonicalizeAddress_idem (raw : String) :
    canonicalizeAddress text (canonicalizeAddress text raw) = canonicalizeAddress text raw := by
  cases haddr : text.addr (text.trim raw) with
  | some printed =>
      obtain ⟨htrim, hagain⟩ := text.addr_printed _ _ haddr
      simp only [canonicalizeAddress, haddr, htrim, hagain]
  | none =>
      cases hnet : text.net (text.trim raw) with
      | some printed =>
          obtain ⟨htrim, hno, hagain⟩ := text.net_printed _ _ hnet
          simp only [canonicalizeAddress, haddr, hnet, htrim, hno, hagain]
      | none => simp only [canonicalizeAddress, haddr, hnet, text.trim_trim]

/-! ### Records -/

/-- One record of a group. -/
structure StoredRecord where
  targetAddress : String
  cause : Option String
  isDeleted : Bool
  deletedAt : Option ℤ
  createdAt : ℤ
  updatedAt : ℤ
  lastSeenAt : ℤ
  deriving DecidableEq, Repr

/-- One group of a vault, by canonical address. -/
abbrev VaultGroup := Table StoredRecord.targetAddress

namespace StoredRecord

/-- The record in the answer to a `GET`. -/
def toResponse (groupName : String) (r : StoredRecord) : IpRecordResponse where
  targetAddress := r.targetAddress
  groupName := groupName
  cause := r.cause
  isDeleted := r.isDeleted
  deletedAt := r.deletedAt
  createdAt := some r.createdAt
  updatedAt := some r.updatedAt
  lastSeenAt := some r.lastSeenAt

/-- The record as a task pushes it on. -/
def relayed (r : StoredRecord) : BatchRecordInput where
  targetAddress := r.targetAddress
  cause := r.cause
  isDeleted := some r.isDeleted
  createdAt := some r.createdAt
  updatedAt := some r.updatedAt
  lastSeenAt := some r.lastSeenAt
  deletedAt := r.deletedAt

@[simp] theorem toBatchRecordInput_toResponse (groupName : String) (r : StoredRecord) :
    toBatchRecordInput (r.toResponse groupName) = r.relayed := rfl

/-- When it was deleted, if it is, and when it was last seen. -/
def version (r : StoredRecord) : Option ℤ × ℤ := (r.deletedAt, r.lastSeenAt)

/-- The last moment the record was seen or deleted. -/
def touched (r : StoredRecord) : ℤ := max r.lastSeenAt (r.deletedAt.getD r.lastSeenAt)

theorem touched_of_version {r s : StoredRecord} (h : r.version = s.version) :
    r.touched = s.touched := by
  obtain ⟨hdeleted, hseen⟩ := Prod.mk.inj h
  rw [touched, touched, hdeleted, hseen]

/-- What every operation leaves behind: a canonical address, and a deletion exactly on tombstones. -/
structure WellKept (text : AddressText) (r : StoredRecord) : Prop where
  canonical : canonicalizeAddress text r.targetAddress = r.targetAddress
  deleted : r.isDeleted = r.deletedAt.isSome

theorem isDeleted_of_version {r s : StoredRecord} (hr : r.WellKept text) (hs : s.WellKept text)
    (h : r.version = s.version) : r.isDeleted = s.isDeleted := by
  rw [hr.deleted, hs.deleted, (Prod.mk.inj h).1]

/-- A record is in the window of `since` if it was seen or deleted at or after it. -/
theorem inDelta_toResponse {r : StoredRecord} (hr : r.WellKept text) (groupName : String)
    (since : ℤ) : inDelta (some since) (r.toResponse groupName) ↔ cutoff since ≤ r.touched := by
  have hdeleted := hr.deleted
  cases hat : r.deletedAt with
  | none =>
      rw [hat] at hdeleted
      simp [inDelta, toResponse, atOrAfter, touched, hat, hdeleted]
  | some moment =>
      rw [hat] at hdeleted
      simp [inDelta, toResponse, atOrAfter, touched, hat, hdeleted]

end StoredRecord

/-! ### What happens at a vault -/

/-- `seed`, one address: seen, whether or not it is a tombstone. -/
def seedAddress (text : AddressText) (group : VaultGroup) (address : String) (stamp : ℤ) :
    VaultGroup :=
  let key := canonicalizeAddress text address
  match group.find? key with
  | some existing => group.upsert { existing with updatedAt := stamp, lastSeenAt := stamp }
  | none => group.upsert
      { targetAddress := key
        cause := none
        isDeleted := false
        deletedAt := none
        createdAt := stamp
        updatedAt := stamp
        lastSeenAt := stamp }

/-- `soft_delete`, one address; it panics when there is no such record. -/
def softDeleteAddress (text : AddressText) (group : VaultGroup) (address : String) (stamp : ℤ) :
    Option VaultGroup :=
  (group.find? (canonicalizeAddress text address)).map fun record =>
    group.upsert { record with isDeleted := true, deletedAt := some stamp, updatedAt := stamp }

/-- The group in the order of its `BTreeMap`. -/
def byAddress (group : VaultGroup) : List StoredRecord :=
  group.rows.insertionSort fun a b => a.targetAddress ≤ b.targetAddress

/-- `matched` in `handle_get`. -/
def matched (groupName : String) (group : VaultGroup) (since : Option ℤ) (includeDeleted : Bool) :
    List IpRecordResponse :=
  ((byAddress group).map (StoredRecord.toResponse groupName)).filter fun r =>
    (includeDeleted || !r.isDeleted) && inDelta since r

/-- `handle_get`, with the page size that the client asks for. -/
def handleGet (groupName : String) (group : VaultGroup) (since : Option ℤ) (includeDeleted : Bool)
    (offset : ℕ) : List IpRecordResponse :=
  page offset deltaPageSize (matched groupName group since includeDeleted)

/-- The record that a batch entry leaves, over the one that is there. -/
def mergedRecord (text : AddressText) (now : ℤ) (existing : Option StoredRecord)
    (r : BatchRecordInput) : StoredRecord :=
  let isDeleted := r.isDeleted.getD false
  let deletedAt := if isDeleted then r.deletedAt.or (some now) else none
  match existing with
  | some existing =>
      { existing with
        cause := r.cause.or existing.cause
        isDeleted := isDeleted
        deletedAt := deletedAt
        updatedAt := r.updatedAt.getD now
        lastSeenAt := r.lastSeenAt.getD existing.lastSeenAt }
  | none =>
      { targetAddress := canonicalizeAddress text r.targetAddress
        cause := r.cause
        isDeleted := isDeleted
        deletedAt := deletedAt
        createdAt := r.createdAt.getD now
        updatedAt := r.updatedAt.getD now
        lastSeenAt := r.lastSeenAt.getD now }

/-- The body of the loop of `handle_batch`. -/
def putRecord (text : AddressText) (now : ℤ) (group : VaultGroup) (r : BatchRecordInput) :
    VaultGroup :=
  group.upsert (mergedRecord text now (group.find? (canonicalizeAddress text r.targetAddress)) r)

/-- `full_replace`: a live record that the batch leaves out becomes a tombstone. -/
def replaceOmitted (now : ℤ) (present : List String) (r : StoredRecord) : StoredRecord :=
  if r.targetAddress ∈ present ∨ r.isDeleted then r
  else { r with isDeleted := true, deletedAt := some now, updatedAt := now }

theorem replaceOmitted_targetAddress (now : ℤ) (present : List String) (r : StoredRecord) :
    (replaceOmitted now present r).targetAddress = r.targetAddress := by
  rw [replaceOmitted]
  split <;> rfl

/-- `handle_batch`: what it leaves in the group. -/
def handleBatch (text : AddressText) (now : ℤ) (mode : BatchMode) (records : List BatchRecordInput)
    (group : VaultGroup) : VaultGroup :=
  let put := records.foldl (putRecord text now) group
  match mode with
  | .upsert => put
  | .fullReplace =>
      let present := records.map fun r => canonicalizeAddress text r.targetAddress
      put.mapRows (replaceOmitted now present) (replaceOmitted_targetAddress now present)

/-! ### What is served -/

theorem mem_byAddress {group : VaultGroup} {r : StoredRecord} :
    r ∈ byAddress group ↔ r ∈ group.rows :=
  (List.perm_insertionSort _ _).mem_iff

/-- The addresses of a window, in the order in which they are served. -/
def windowAddresses (group : VaultGroup) (since : Option ℤ) : List String :=
  (matched "" group since true).map IpRecordResponse.targetAddress

/-- The window of a group, by row. -/
theorem matched_eq (groupName : String) (group : VaultGroup) (since : Option ℤ) :
    matched groupName group since true =
      ((byAddress group).filter fun r => inDelta since (r.toResponse groupName)).map
        (StoredRecord.toResponse groupName) := by
  simp only [matched, Bool.true_or, Bool.true_and, List.filter_map]
  rfl

/-- Neither the window nor its order depends on the group's name. -/
theorem map_targetAddress_matched (groupName : String) (group : VaultGroup) (since : Option ℤ) :
    (matched groupName group since true).map IpRecordResponse.targetAddress =
      windowAddresses group since := by
  rw [windowAddresses, matched_eq, matched_eq, List.map_map, List.map_map]
  rfl

theorem mem_windowAddresses {group : VaultGroup} {since : Option ℤ} {k : String} :
    k ∈ windowAddresses group since ↔
      ∃ r, group.find? k = some r ∧ inDelta since (r.toResponse "") := by
  rw [windowAddresses, matched_eq, List.map_map]
  simp only [List.mem_map, List.mem_filter, mem_byAddress, Table.find?_eq_some_iff]
  constructor
  · rintro ⟨r, ⟨hr, hin⟩, rfl⟩
    exact ⟨r, ⟨hr, rfl⟩, hin⟩
  · rintro ⟨r, ⟨hr, rfl⟩, hin⟩
    exact ⟨r, ⟨hr, hin⟩, rfl⟩

/-- **The window is served in the strict order of its addresses.** -/
theorem windowAddresses_sorted (group : VaultGroup) (since : Option ℤ) :
    (windowAddresses group since).Pairwise (· < ·) := by
  have hle : ((byAddress group).map StoredRecord.targetAddress).Pairwise (· ≤ ·) := by
    rw [List.pairwise_map]
    exact List.pairwise_insertionSort (fun a b : StoredRecord => a.targetAddress ≤ b.targetAddress)
      group.rows
  have hnodup : ((byAddress group).map StoredRecord.targetAddress).Nodup :=
    ((List.perm_insertionSort _ _).map _).nodup_iff.mpr group.nodup
  have hlt : ((byAddress group).map StoredRecord.targetAddress).Pairwise (· < ·) :=
    hle.imp₂ (fun _ _ hab hne => lt_of_le_of_ne hab hne) hnodup
  rw [windowAddresses, matched_eq, List.map_map]
  exact hlt.sublist (List.filter_sublist.map _)

/-- A served record is a row of the group in the window. -/
theorem mem_handleGet {groupName : String} {group : VaultGroup} {since : Option ℤ} {offset : ℕ}
    {r : IpRecordResponse} (h : r ∈ handleGet groupName group since true offset) :
    ∃ row, group.find? row.targetAddress = some row ∧ row.toResponse groupName = r ∧
      inDelta since r := by
  have hmatched := mem_of_mem_page h
  rw [matched_eq] at hmatched
  obtain ⟨row, hrow, rfl⟩ := List.mem_map.mp hmatched
  obtain ⟨hrow, hin⟩ := List.mem_filter.mp hrow
  exact ⟨row, Table.find?_eq_some_iff.mpr ⟨mem_byAddress.mp hrow, rfl⟩, rfl, hin⟩

theorem map_targetAddress_handleGet (groupName : String) (group : VaultGroup) (since : Option ℤ)
    (offset : ℕ) :
    (handleGet groupName group since true offset).map IpRecordResponse.targetAddress =
      page offset deltaPageSize (windowAddresses group since) := by
  rw [handleGet, map_page, map_targetAddress_matched]

/-! ### What is written -/

/-- Every record of the group is well kept. -/
def WellKeptGroup (text : AddressText) (group : VaultGroup) : Prop :=
  ∀ k r, group.find? k = some r → r.WellKept text

/-- The group changes at one key, whose record is now well kept and was touched at `stamp`. -/
def TouchedAt (text : AddressText) (key : String) (stamp : ℤ) (group group' : VaultGroup) : Prop :=
  ∃ r : StoredRecord, r.WellKept text ∧ r.touched = stamp ∧
    ∀ k, group'.find? k = if k = key then some r else group.find? k

section

variable {group group' : VaultGroup} {key : String} {stamp : ℤ}

/-- A deletion lies before what bounds the record. -/
theorem deletedAt_le_of_touched_le {r : StoredRecord} {moment : ℤ} (hle : r.touched ≤ stamp)
    (hmoment : r.deletedAt = some moment) : moment ≤ stamp := by
  rw [StoredRecord.touched, hmoment, Option.getD_some] at hle
  exact (le_max_right _ _).trans hle

/-- **A sighting** touches the record at its address. -/
theorem seedAddress_touchedAt (hkept : WellKeptGroup text group)
    (hpast : ∀ k r, group.find? k = some r → r.touched ≤ stamp) (address : String) :
    TouchedAt text (canonicalizeAddress text address) stamp group
      (seedAddress text group address stamp) := by
  cases hfind : group.find? (canonicalizeAddress text address) with
  | none =>
      refine ⟨⟨canonicalizeAddress text address, none, false, none, stamp, stamp, stamp⟩,
        ⟨canonicalizeAddress_idem address, rfl⟩, by simp [StoredRecord.touched], ?_⟩
      intro k
      simp only [seedAddress, hfind, Table.find?_upsert]
  | some existing =>
      have hold := hkept _ _ hfind
      refine ⟨{ existing with updatedAt := stamp, lastSeenAt := stamp },
        ⟨hold.canonical, hold.deleted⟩, ?_, ?_⟩
      · cases hat : existing.deletedAt with
        | none => simp [StoredRecord.touched]
        | some moment =>
            have := deletedAt_le_of_touched_le (hpast _ _ hfind) hat
            simpa [StoredRecord.touched, hat] using this
      · intro k
        simp only [seedAddress, hfind, Table.find?_upsert, Table.key_of_find? hfind]

/-- **A deletion** touches the record at its address. -/
theorem softDeleteAddress_touchedAt (hkept : WellKeptGroup text group)
    (hpast : ∀ k r, group.find? k = some r → r.touched ≤ stamp) {address : String}
    (h : softDeleteAddress text group address stamp = some group') :
    TouchedAt text (canonicalizeAddress text address) stamp group group' := by
  obtain ⟨record, hfind, rfl⟩ := Option.map_eq_some_iff.mp h
  have hseen : record.lastSeenAt ≤ stamp := (le_max_left _ _).trans (hpast _ _ hfind)
  refine ⟨{ record with isDeleted := true, deletedAt := some stamp, updatedAt := stamp },
    ⟨(hkept _ _ hfind).canonical, rfl⟩, by simpa [StoredRecord.touched] using hseen, ?_⟩
  intro k
  simp only [Table.find?_upsert, Table.key_of_find? hfind]

/-- A record relayed onto what is there keeps its version. -/
theorem mergedRecord_relayed {r : StoredRecord} (hr : r.WellKept text) (now : ℤ)
    {existing : Option StoredRecord}
    (hexisting : ∀ old, existing = some old → old.targetAddress = r.targetAddress) :
    (mergedRecord text now existing r.relayed).targetAddress = r.targetAddress ∧
      (mergedRecord text now existing r.relayed).version = r.version ∧
      (mergedRecord text now existing r.relayed).WellKept text := by
  have hdeletedAt : (if r.isDeleted then r.deletedAt.or (some now) else none) = r.deletedAt := by
    rw [hr.deleted]
    cases r.deletedAt <;> simp
  have hflag : r.isDeleted =
      (if r.isDeleted then r.deletedAt.or (some now) else none).isSome := by
    rw [hdeletedAt]
    exact hr.deleted
  cases existing with
  | none =>
      refine ⟨hr.canonical, Prod.ext hdeletedAt rfl, ?_, hflag⟩
      show canonicalizeAddress text (canonicalizeAddress text r.targetAddress) = _
      exact canonicalizeAddress_idem _
  | some old =>
      have haddress := hexisting old rfl
      refine ⟨haddress, Prod.ext hdeletedAt rfl, ?_, hflag⟩
      show canonicalizeAddress text old.targetAddress = old.targetAddress
      rw [haddress]
      exact hr.canonical

theorem find?_putRecord_relayed (group : VaultGroup) {r : StoredRecord} (hr : r.WellKept text)
    (now : ℤ) :
    ∃ c : StoredRecord, c.version = r.version ∧ c.WellKept text ∧
      ∀ k, (putRecord text now group r.relayed).find? k =
        if k = r.targetAddress then some c else group.find? k := by
  have hkey : canonicalizeAddress text r.relayed.targetAddress = r.targetAddress := hr.canonical
  obtain ⟨haddress, hversion, hkept⟩ := mergedRecord_relayed hr now
    fun old (hold : group.find? r.targetAddress = some old) => Table.key_of_find? hold
  refine ⟨_, hversion, hkept, ?_⟩
  intro k
  rw [putRecord, hkey, Table.find?_upsert, haddress]

/-- **A batch of relayed records.**  Under a key that the batch carries the vault now has the
version of one of its entries; under any other key nothing has changed. -/
theorem find?_handleBatch_relayed (group : VaultGroup) (now : ℤ) (records : List BatchRecordInput)
    (hrecords : ∀ b ∈ records, ∃ r : StoredRecord, r.relayed = b ∧ r.WellKept text) (k : String) :
    (∃ r c : StoredRecord, r.relayed ∈ records ∧ r.targetAddress = k ∧ c.version = r.version ∧
        c.WellKept text ∧ (handleBatch text now .upsert records group).find? k = some c) ∨
      ((∀ b ∈ records, b.targetAddress ≠ k) ∧
        (handleBatch text now .upsert records group).find? k = group.find? k) := by
  simp only [handleBatch]
  induction records generalizing group with
  | nil => exact Or.inr ⟨by simp, rfl⟩
  | cons b records ih =>
      obtain ⟨r, rfl, hr⟩ := hrecords b List.mem_cons_self
      obtain ⟨c, hversion, hkept, hfind⟩ := find?_putRecord_relayed group hr now
      rw [List.foldl_cons]
      have hrest : ∀ b ∈ records, ∃ r : StoredRecord, r.relayed = b ∧ r.WellKept text :=
        fun b hb => hrecords b (List.mem_cons_of_mem _ hb)
      rcases ih (putRecord text now group r.relayed) hrest with hlater | ⟨hnone, hsame⟩
      · obtain ⟨r', c', hr', hrest⟩ := hlater
        exact Or.inl ⟨r', c', List.mem_cons_of_mem _ hr', hrest⟩
      · by_cases hk : k = r.targetAddress
        · left
          refine ⟨r, c, List.mem_cons_self, hk.symm, hversion, hkept, ?_⟩
          rw [hsame, hfind, if_pos hk]
        · right
          refine ⟨?_, by rw [hsame, hfind, if_neg hk]⟩
          intro b hb
          rcases List.mem_cons.mp hb with rfl | hb
          · exact fun haddress => hk haddress.symm
          · exact hnone b hb

end

end SimplyIpSync.Replication
