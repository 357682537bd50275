import SimplyIpSync.Api.Handle
import SimplyIpSync.Lib.Paging

/-!
# The pages of the run history (`src/api/sync_logs.rs`)

`list_sync_logs` cuts its page out of all matching rows and asks for the caller's right row by row
afterwards, so a page may hold fewer rows than its limit, or none, while older rows are still to
come.  Put together, the pages are exactly the rows the caller may see.
-/

namespace SimplyIpSync.Api

open SimplyIpSync.Entities SimplyIpSync.Storage SimplyIpSync.Program SimplyIpSync.Program.Prog
open SimplyIpSync.Paging

/-- The row passes the filters of the query. -/
def SyncLogQuery.admits (query : SyncLogQuery) (row : SyncLog) : Bool :=
  query.jobType.all (· == row.jobType) && query.jobId.all (· == row.jobId)

/-- The number of rows a page may hold. -/
def SyncLogQuery.size (query : SyncLogQuery) : ℕ := min (query.limit.getD 100) 1000

/-- The key holds `can_view_logs` on the resource of the row. -/
def Database.mayView (db : Database) (keyId : Uuid) (row : SyncLog) : Bool :=
  (resourceTypeFor row.jobType).any fun resourceType =>
    (db.permissionOf keyId resourceType row.jobId).any SyncPermission.canViewLogs

/-- The matching rows, newest first; no two of them have one timestamp. -/
structure NewestFirst (db : Database) (query : SyncLogQuery) (rows : List SyncLog) : Prop where
  perm : rows.Perm (db.syncLogs.filter query.admits)
  newest : rows.Pairwise fun r r' => r'.timestamp < r.timestamp

section

variable {db db' : Database} {query : SyncLogQuery} {rows rows' : List SyncLog}

/-- Two lists of the same rows, both newest first without ties, are one list. -/
theorem eq_of_newest (hperm : rows.Perm rows')
    (h : rows.Pairwise fun r r' => r'.timestamp < r.timestamp)
    (h' : rows'.Pairwise fun r r' => r'.timestamp ≤ r.timestamp) : rows = rows' := by
  have hle : rows.Pairwise fun r r' => r'.timestamp ≤ r.timestamp := h.imp le_of_lt
  refine hperm.eq_of_pairwise ?_ hle h'
  intro r r' hr hr' hge hle
  by_contra hne
  have : Std.Symm fun r r' : SyncLog => r.timestamp ≠ r'.timestamp := ⟨fun _ _ => Ne.symm⟩
  have hapart : rows.Pairwise fun r r' => r.timestamp ≠ r'.timestamp := h.imp fun hlt => hlt.ne'
  exact hapart.forall hr (hperm.mem_iff.mpr hr') hne (le_antisymm hle hge)

/-- The order the query asks for. -/
def byNewest (rows : List SyncLog) : List SyncLog :=
  rows.mergeSort fun r r' => r'.timestamp ≤ r.timestamp

theorem pairwise_byNewest (rows : List SyncLog) :
    (byNewest rows).Pairwise fun r r' => r'.timestamp ≤ r.timestamp := by
  have hsorted : (byNewest rows).Pairwise fun r r' => decide (r'.timestamp ≤ r.timestamp) := by
    refine List.pairwise_mergeSort (fun r r' r'' h h' => ?_) (fun r r' => ?_) rows
    · simp only [decide_eq_true_eq] at *
      omega
    · simp only [Bool.or_eq_true, decide_eq_true_eq]
      omega
  exact hsorted.imp of_decide_eq_true

theorem pairwise_lt_byNewest (h : (rows.map SyncLog.timestamp).Nodup) :
    (byNewest rows).Pairwise fun r r' => r'.timestamp < r.timestamp := by
  have hperm : (byNewest rows).Perm rows := List.mergeSort_perm rows _
  have hnodup : ((byNewest rows).map SyncLog.timestamp).Nodup :=
    (hperm.map SyncLog.timestamp).nodup_iff.mpr h
  have hapart : (byNewest rows).Pairwise fun r r' => r.timestamp ≠ r'.timestamp :=
    List.pairwise_map.mp hnodup
  exact ((pairwise_byNewest rows).and hapart).imp fun h => lt_of_le_of_ne h.1 (Ne.symm h.2)

/-- Where no two rows have one timestamp, the matching rows have an order. -/
theorem newestFirst_byNewest (h : (db.syncLogs.map SyncLog.timestamp).Nodup) :
    NewestFirst db query (byNewest (db.syncLogs.filter query.admits)) where
  perm := List.mergeSort_perm _ _
  newest := pairwise_lt_byNewest (h.sublist (List.filter_sublist.map _))

/-! ### One page -/

theorem exec_filterRows {ρ : Type} {test : ρ → Handler Bool} (keep : ρ → Bool)
    (htest : ∀ row, exec (test row) db = (.answered (keep row), db)) (rows : List ρ) :
    exec (filterRows test rows) db = (.answered (rows.filter keep), db) := by
  induction rows with
  | nil => rfl
  | cons row rest ih =>
      rw [filterRows, exec_bind, htest]
      show exec (filterRows test rest >>= fun kept => pure (if keep row then row :: kept else kept))
        db = _
      rw [exec_bind, ih, List.filter_cons]
      rfl

variable {caller : ApiKey}

/-- **A page**: the rows of the slice that the caller may see. -/
theorem exec_listSyncLogs (hmaster : caller.isMaster = false) (query : SyncLogQuery) :
    exec (Handlers.listSyncLogs caller query) db =
      (.answered (.syncLogs ((page (query.offset.getD 0) query.size
        (byNewest (db.syncLogs.filter query.admits))).filter (db.mayView caller.id))), db) := by
  rw [Handlers.listSyncLogs, exec_bind, exec_query]
  simp only [hmaster, Bool.false_eq_true, if_false]
  rw [exec_bind, exec_filterRows (db.mayView caller.id)]
  · rfl
  · intro row
    rw [Database.mayView]
    cases resourceTypeFor row.jobType with
    | none => rfl
    | some resourceType =>
        simp only [findPermission, exec_bind, exec_query, exec_pure, guardCanViewLogs, hmaster,
          Bool.false_or, Option.any_some]

end

/-! ### All pages -/

/-- The rows of the answer to a query. -/
def logRows (db : Database) (caller : ApiKey) (query : SyncLogQuery) : List SyncLog :=
  match (exec (Handlers.listSyncLogs caller query) db).1 with
  | .answered (.syncLogs rows) => rows
  | _ => []

/-- The first `n` pages, one after the other. -/
def logPages (db : Database) (caller : ApiKey) (query : SyncLogQuery) (n : ℕ) : List SyncLog :=
  (List.range n).flatMap fun k => logRows db caller { query with offset := some (k * query.size) }

section

variable {db db' : Database} {query : SyncLogQuery} {caller : ApiKey}

/-- **The pages together** are the visible rows among the first ones. -/
theorem logPages_eq (hmaster : caller.isMaster = false) (n : ℕ) :
    logPages db caller query n =
      ((byNewest (db.syncLogs.filter query.admits)).take (n * query.size)).filter
        (db.mayView caller.id) := by
  rw [← flatMap_page, List.filter_flatMap, logPages]
  congr 1
  funext k
  rw [logRows, exec_listSyncLogs hmaster]
  rfl

/-- Enough pages show every visible row, in order. -/
theorem logPages_of_le (hmaster : caller.isMaster = false) {n : ℕ}
    (hn : (db.syncLogs.filter query.admits).length ≤ n * query.size) :
    logPages db caller query n =
      (byNewest (db.syncLogs.filter query.admits)).filter (db.mayView caller.id) := by
  rw [logPages_eq hmaster, List.take_of_length_le]
  rwa [byNewest, List.length_mergeSort]

theorem filter_byNewest (rows : List SyncLog) (hdistinct : (rows.map SyncLog.timestamp).Nodup)
    (keep : SyncLog → Bool) : (byNewest rows).filter keep = byNewest (rows.filter keep) := by
  refine eq_of_newest ?_ ((pairwise_lt_byNewest hdistinct).sublist List.filter_sublist)
    (pairwise_byNewest _)
  exact ((List.mergeSort_perm rows _).filter keep).trans (List.mergeSort_perm _ _).symm

theorem byNewest_congr {rows rows' : List SyncLog} (hperm : rows.Perm rows')
    (hdistinct : (rows.map SyncLog.timestamp).Nodup) : byNewest rows = byNewest rows' :=
  eq_of_newest ((List.mergeSort_perm rows _).trans (hperm.trans (List.mergeSort_perm _ _).symm))
    (pairwise_lt_byNewest hdistinct) (pairwise_byNewest _)

/-- The rows of resources the caller may not see leave no mark on the pages together. -/
theorem logPages_congr (hmaster : caller.isMaster = false)
    (hdistinct : (db.syncLogs.map SyncLog.timestamp).Nodup)
    (hdistinct' : (db'.syncLogs.map SyncLog.timestamp).Nodup)
    (hvisible : (db'.syncLogs.filter (db'.mayView caller.id)).Perm
      (db.syncLogs.filter (db.mayView caller.id))) {n n' : ℕ}
    (hn : (db.syncLogs.filter query.admits).length ≤ n * query.size)
    (hn' : (db'.syncLogs.filter query.admits).length ≤ n' * query.size) :
    logPages db' caller query n' = logPages db caller query n := by
  have hmatching : ∀ d : Database, (d.syncLogs.map SyncLog.timestamp).Nodup →
      ((d.syncLogs.filter query.admits).map SyncLog.timestamp).Nodup := fun d hd =>
    hd.sublist (List.filter_sublist.map _)
  have hcomm : ∀ d : Database, (d.syncLogs.filter query.admits).filter (d.mayView caller.id) =
      (d.syncLogs.filter (d.mayView caller.id)).filter query.admits := fun d =>
    List.filter_comm _ _ _
  rw [logPages_of_le hmaster hn, logPages_of_le hmaster hn',
    filter_byNewest _ (hmatching db hdistinct), filter_byNewest _ (hmatching db' hdistinct'),
    hcomm, hcomm]
  refine byNewest_congr (hvisible.filter _) ?_
  exact hdistinct'.sublist ((List.filter_sublist.trans List.filter_sublist).map _)

end

/-- Where everything up to the end of the page is visible, the page is the slice of the visible
rows. -/
theorem filter_page_of_forall {rows : List SyncLog} {keep : SyncLog → Bool} {offset size : ℕ}
    (h : ∀ row ∈ rows.take (offset + size), keep row = true) :
    (page offset size rows).filter keep = page offset size (rows.filter keep) := by
  have hpage : ∀ l : List SyncLog, page offset size l = (l.take (offset + size)).drop offset := by
    intro l
    rw [page, List.drop_take, Nat.add_sub_cancel_left]
  have htake : (rows.take (offset + size)).filter keep = rows.take (offset + size) :=
    List.filter_eq_self.mpr h
  have hfilter : (rows.filter keep).take (offset + size) = rows.take (offset + size) := by
    conv_lhs => rw [← List.take_append_drop (offset + size) rows, List.filter_append, htake]
    by_cases hlong : offset + size ≤ rows.length
    · rw [List.take_append_of_le_length (by rw [List.length_take]; omega), List.take_take,
        Nat.min_self]
    · rw [List.drop_eq_nil_of_le (by omega), List.filter_nil, List.append_nil, List.take_take,
        Nat.min_self]
  rw [hpage, hpage, hfilter, List.filter_eq_self]
  exact fun row hrow => h row (List.mem_of_mem_drop hrow)

/-- **What the pages hold.**  With distinct timestamps a page has the rows of its slice of all
matching rows, newest first, on whose resource the caller holds `can_view_logs`, and this is the
slice of the visible rows if everything up to its end is visible; enough pages hold each visible row
exactly once, newest first; and rows the caller may not see do not change the pages together. -/
theorem listSyncLogs_pages (db : Database) (caller : ApiKey) (hmaster : caller.isMaster = false)
    (query : SyncLogQuery) (hdistinct : (db.syncLogs.map SyncLog.timestamp).Nodup) :
    ∃ newest, NewestFirst db query newest ∧
      exec (Handlers.listSyncLogs caller query) db =
        (.answered (.syncLogs
          ((page (query.offset.getD 0) query.size newest).filter (db.mayView caller.id))), db) ∧
      ((∀ row ∈ newest.take (query.offset.getD 0 + query.size), db.mayView caller.id row = true) →
        logRows db caller query =
          page (query.offset.getD 0) query.size (newest.filter (db.mayView caller.id))) ∧
      (∀ n, newest.length ≤ n * query.size →
        logPages db caller query n = newest.filter (db.mayView caller.id)) ∧
      ∀ (db' : Database) (n n' : ℕ), (db'.syncLogs.map SyncLog.timestamp).Nodup →
        (db'.syncLogs.filter (db'.mayView caller.id)).Perm
          (db.syncLogs.filter (db.mayView caller.id)) →
        (db.syncLogs.filter query.admits).length ≤ n * query.size →
        (db'.syncLogs.filter query.admits).length ≤ n' * query.size →
        logPages db' caller query n' = logPages db caller query n := by
  refine ⟨_, newestFirst_byNewest hdistinct, exec_listSyncLogs hmaster query, ?_, ?_, ?_⟩
  · intro hall
    rw [logRows, exec_listSyncLogs hmaster]
    exact filter_page_of_forall hall
  · intro n hn
    refine logPages_of_le hmaster ?_
    rwa [byNewest, List.length_mergeSort] at hn
  · intro db' n n' hdistinct' hvisible hn hn'
    exact logPages_congr hmaster hdistinct hdistinct' hvisible hn hn'

/-! ### A row behind a hidden one -/

/-- A key with `can_view_logs` on one of two groups. -/
def reader : ApiKey := ⟨2, "reader", [], none, [], false, false, false, false, none, none, 0, 0⟩

def ownRun : SyncLog := ⟨"EXTERNAL_FEED", 5, "own", .success, 1, 1, none, 1⟩

def otherRun : SyncLog := ⟨"EXTERNAL_FEED", 6, "other", .success, 1, 1, none, 2⟩

/-- The database with these rows in its history. -/
def historyDb (syncLogs : List SyncLog) : Database :=
  { Database.fresh with
    permissions :=
      ⟨[⟨1, 2, resourceDestinationGroup, 5, false, false, true, 0⟩], List.nodup_singleton _⟩
    syncLogs := syncLogs }

/-- The newest row. -/
def newestRow : SyncLogQuery := ⟨none, none, some 1, none⟩

theorem byNewest_runs : byNewest [ownRun, otherRun] = [otherRun, ownRun] :=
  (eq_of_newest ((List.Perm.swap _ _ _).trans (List.mergeSort_perm [ownRun, otherRun] _).symm)
    (by decide) (pairwise_byNewest _)).symm

/-- The first two pages show the one visible row once. -/
theorem listSyncLogs_pages_two :
    logPages (historyDb [ownRun, otherRun]) reader newestRow 2 = [ownRun] := by
  obtain ⟨newest, hnewest, -, -, hall, -⟩ := listSyncLogs_pages (historyDb [ownRun, otherRun])
    reader rfl newestRow (by decide)
  have hrows : newest = [otherRun, ownRun] := by
    rw [← byNewest_runs]
    exact eq_of_newest (hnewest.perm.trans (List.mergeSort_perm _ _).symm) hnewest.newest
      (pairwise_byNewest _)
  rw [hall 2 (by rw [hrows]; decide), hrows]
  decide

/-- The newer row of another group takes the place of the visible one: the first page is empty,
the slice of the visible rows is not, and without the other row the page would show it. -/
theorem hidden_row_empties_page :
    reader.isMaster = false ∧
      ((historyDb [ownRun, otherRun]).syncLogs.map SyncLog.timestamp).Nodup ∧
      NewestFirst (historyDb [ownRun, otherRun]) newestRow [otherRun, ownRun] ∧
      logRows (historyDb [ownRun, otherRun]) reader newestRow = [] ∧
      page 0 newestRow.size
        ([otherRun, ownRun].filter ((historyDb [ownRun, otherRun]).mayView reader.id)) = [ownRun] ∧
      logRows (historyDb [ownRun]) reader newestRow = [ownRun] := by
  have hone : byNewest [ownRun] = [ownRun] := List.mergeSort_singleton _
  refine ⟨rfl, by decide, ⟨List.Perm.swap _ _ _, by decide⟩, ?_, by decide, ?_⟩
  · rw [logRows, exec_listSyncLogs rfl]
    show (page 0 1 (byNewest [ownRun, otherRun])).filter _ = []
    rw [byNewest_runs]
    decide
  · rw [logRows, exec_listSyncLogs rfl]
    show (page 0 1 (byNewest [ownRun])).filter _ = [ownRun]
    rw [hone]
    decide

end SimplyIpSync.Api
