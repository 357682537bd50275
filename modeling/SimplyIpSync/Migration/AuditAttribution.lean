import SimplyIpSync.Lib.Script
import SimplyIpSync.Migration.DestinationGroups

/-!
# The audit-attribution migration (`src/migration/m20260818_010217_audit_attribution_not_null.rs`)

`up` gives every audit entry a name, a prefix and an address, the text `(unknown)` where it has
none, and makes the three columns required; `down` makes them optional again.  On SQLite the table
is rebuilt: a second table is created, filled, and takes the place of the first.

A migration that is interrupted has done a part of its work, and the next start of the service runs
it again from its first statement.  `audit_log_survives` says what that comes to: no entry is ever
lost, and the migration gets through unless the second table is there, which is so from the first
time it is interrupted between its creation and its renaming.
-/

namespace SimplyIpSync.Migration.AuditAttribution

open SimplyIpSync.Entities SimplyIpSync.Scripts Relation

/-! ### The table -/

/-- `ATTRIBUTION_COLUMNS`. -/
inductive Column
  | apiKeyName
  | apiKeyPrefix
  | clientIp
  deriving DecidableEq, Repr

/-- The columns in the order of the source. -/
def attributionColumns : List Column := [.apiKeyName, .apiKeyPrefix, .clientIp]

/-- `UNRECORDED`. -/
def unrecorded : String := "(unknown)"

/-- An `audit_logs` row, before or after. -/
structure AuditRow where
  id : Uuid
  apiKeyId : Option Uuid
  apiKeyName : Option String
  apiKeyPrefix : Option String
  clientIp : Option String
  action : String
  targetResource : Option String
  details : Option String
  timestamp : ℤ
  deriving DecidableEq, Repr

/-- The value in a column. -/
def AuditRow.get (r : AuditRow) : Column → Option String
  | .apiKeyName => r.apiKeyName
  | .apiKeyPrefix => r.apiKeyPrefix
  | .clientIp => r.clientIp

/-- The row with another value in a column. -/
def AuditRow.set (r : AuditRow) (value : Option String) : Column → AuditRow
  | .apiKeyName => { r with apiKeyName := value }
  | .apiKeyPrefix => { r with apiKeyPrefix := value }
  | .clientIp => { r with clientIp := value }

/-- `SET column = '(unknown)' WHERE column IS NULL`. -/
def AuditRow.fill (c : Column) (r : AuditRow) : AuditRow :=
  if r.get c = none then r.set (some unrecorded) c else r

@[simp] theorem AuditRow.id_set (r : AuditRow) (value : Option String) (c : Column) :
    (r.set value c).id = r.id := by
  cases c <;> rfl

@[simp] theorem AuditRow.id_fill (c : Column) (r : AuditRow) : (r.fill c).id = r.id := by
  rw [AuditRow.fill]
  split
  · exact r.id_set _ c
  · rfl

theorem AuditRow.get_set (r : AuditRow) (value : Option String) (c d : Column) :
    (r.set value c).get d = if d = c then value else r.get d := by
  cases c <;> cases d <;> rfl

/-- A filled column has a value, and the others keep theirs. -/
theorem AuditRow.get_fill (c d : Column) (r : AuditRow) :
    (r.fill c).get d = if d = c then some ((r.get d).getD unrecorded) else r.get d := by
  rw [AuditRow.fill]
  by_cases hdc : d = c
  · subst hdc
    rw [if_pos rfl]
    cases hget : r.get d with
    | none => rw [if_pos rfl, AuditRow.get_set, if_pos rfl, Option.getD_none]
    | some value => rw [if_neg (by simp), hget, Option.getD_some]
  · rw [if_neg hdc]
    split
    · rw [AuditRow.get_set, if_neg hdc]
    · rfl

/-- A table: no two rows have the same identifier, and no required column is empty. -/
structure AuditTable where
  rows : List AuditRow
  notNull : List Column
  ids_nodup : (rows.map AuditRow.id).Nodup
  attributed : ∀ c ∈ notNull, ∀ r ∈ rows, (r.get c).isSome = true

/-- The rows fit the table. -/
def Fits (notNull : List Column) (rows : List AuditRow) : Prop :=
  (rows.map AuditRow.id).Nodup ∧ ∀ c ∈ notNull, ∀ r ∈ rows, (r.get c).isSome = true

instance fitsDecidable (notNull : List Column) (rows : List AuditRow) :
    Decidable (Fits notNull rows) := inferInstanceAs (Decidable (_ ∧ _))

/-- A table of rows, if they fit. -/
def AuditTable.of (notNull : List Column) (rows : List AuditRow) : Option AuditTable :=
  if h : Fits notNull rows then some ⟨rows, notNull, h.1, h.2⟩ else none

theorem fits_fill {notNull : List Column} {rows : List AuditRow} (h : Fits notNull rows)
    (c : Column) : Fits notNull (rows.map (AuditRow.fill c)) := by
  obtain ⟨hids, hattributed⟩ := h
  constructor
  · rw [List.map_map]
    have hsame : rows.map (AuditRow.id ∘ AuditRow.fill c) = rows.map AuditRow.id :=
      List.map_congr_left fun r _ => AuditRow.id_fill c r
    exact hsame ▸ hids
  · intro d hd r hr
    obtain ⟨r', hr', rfl⟩ := List.mem_map.mp hr
    rw [AuditRow.get_fill]
    split
    · rfl
    · exact hattributed d hd r' hr'

theorem AuditTable.fits (t : AuditTable) : Fits t.notNull t.rows := ⟨t.ids_nodup, t.attributed⟩

theorem AuditTable.of_eq_some_iff {notNull : List Column} {rows : List AuditRow} {t : AuditTable} :
    AuditTable.of notNull rows = some t ↔ t.rows = rows ∧ t.notNull = notNull := by
  rw [AuditTable.of]
  constructor
  · intro h
    split at h
    · obtain rfl := Option.some.inj h
      exact ⟨rfl, rfl⟩
    · cases h
  · rintro ⟨rfl, rfl⟩
    exact dif_pos t.fits

/-- The tables the migration works on, and whether `audit_logs` has its index. -/
structure AuditDb where
  auditLogs : Option AuditTable
  rebuild : Option AuditTable
  indexed : Bool

/-! ### The statements -/

/-- One `UPDATE` of `backfill`. -/
def backfill (c : Column) (db : AuditDb) : Option AuditDb := do
  let t ← db.auditLogs
  let filled ← AuditTable.of t.notNull (t.rows.map (AuditRow.fill c))
  return { db with auditLogs := some filled }

/-- The columns that are `NOT NULL` in `table_definition`, of the three. -/
def required (attributionNotNull : Bool) : List Column :=
  if attributionNotNull then attributionColumns else []

/-- `create_table` of `rebuild`; the table may not be there. -/
def createRebuild (attributionNotNull : Bool) (db : AuditDb) : Option AuditDb :=
  if db.rebuild.isSome then none
  else do
    let empty ← AuditTable.of (required attributionNotNull) []
    return { db with rebuild := some empty }

/-- `INSERT INTO audit_logs_rebuild … SELECT … FROM audit_logs`. -/
def copyRows (db : AuditDb) : Option AuditDb := do
  let source ← db.auditLogs
  let target ← db.rebuild
  let filled ← AuditTable.of target.notNull (target.rows ++ source.rows)
  return { db with rebuild := some filled }

/-- `drop_table`; the index goes with the table. -/
def dropAuditLogs (db : AuditDb) : Option AuditDb :=
  if db.auditLogs.isSome then some { db with auditLogs := none, indexed := false } else none

/-- `rename_table`; the new name may not be taken. -/
def renameRebuild (db : AuditDb) : Option AuditDb :=
  if db.auditLogs.isSome then none
  else db.rebuild.map fun t => { db with auditLogs := some t, rebuild := none }

/-- `recreate_index`; the index may not be there. -/
def recreateIndex (db : AuditDb) : Option AuditDb :=
  if db.auditLogs.isSome ∧ db.indexed = false then some { db with indexed := true } else none

/-- `alter_table` of one column: a column with an empty value cannot be required. -/
def modifyColumn (attributionNotNull : Bool) (c : Column) (db : AuditDb) : Option AuditDb := do
  let t ← db.auditLogs
  let columns := if attributionNotNull then t.notNull.insert c else t.notNull.filter (· ≠ c)
  let altered ← AuditTable.of columns t.rows
  return { db with auditLogs := some altered }

/-- `rebuild`. -/
def rebuild (attributionNotNull : Bool) : Script AuditDb :=
  [createRebuild attributionNotNull, copyRows, dropAuditLogs, renameRebuild, recreateIndex]

/-- `up`. -/
def up (backend : DatabaseBackend) : Script AuditDb :=
  attributionColumns.map backfill ++
    if backend = .sqlite then rebuild true else attributionColumns.map (modifyColumn true)

/-- `down`. -/
def down (backend : DatabaseBackend) : Script AuditDb :=
  if backend = .sqlite then rebuild false else attributionColumns.map (modifyColumn false)

/-! ### What is kept -/

/-- The columns filled one after the other. -/
def fills (columns : List Column) (r : AuditRow) : AuditRow := columns.foldl (fun r c => r.fill c) r

/-- The table has the original entries, in some columns filled. -/
def Holds (original : List AuditRow) (t : AuditTable) : Prop :=
  ∃ columns, t.rows = original.map (fills columns)

theorem get_fills (columns : List Column) (d : Column) (r : AuditRow) :
    (fills columns r).get d =
      if d ∈ columns then some ((r.get d).getD unrecorded) else r.get d := by
  induction columns generalizing r with
  | nil => rfl
  | cons c columns ih =>
      show (fills columns (r.fill c)).get d = _
      rw [ih, AuditRow.get_fill]
      by_cases hdc : d = c
      · simp [hdc]
      · simp [hdc]

theorem fills_append (first second : List Column) (r : AuditRow) :
    fills (first ++ second) r = fills second (fills first r) := List.foldl_append

theorem Holds.fill {original : List AuditRow} {t t' : AuditTable} (h : Holds original t)
    (columns : List Column) (hrows : t'.rows = t.rows.map (fills columns)) : Holds original t' := by
  obtain ⟨before, hbefore⟩ := h
  refine ⟨before ++ columns, ?_⟩
  rw [hrows, hbefore, List.map_map]
  exact List.map_congr_left fun r _ => (fills_append before columns r).symm

theorem Holds.of_rows_eq {original : List AuditRow} {t t' : AuditTable} (h : Holds original t)
    (hrows : t'.rows = t.rows) : Holds original t' := by
  obtain ⟨columns, hcolumns⟩ := h
  exact ⟨columns, hrows.trans hcolumns⟩

/-- Rows that agree in the three columns and elsewhere are the same. -/
theorem fills_eq_of_get {first second : List Column} {r : AuditRow}
    (h : ∀ d, (fills first r).get d = (fills second r).get d) : fills first r = fills second r := by
  have hrest : ∀ (columns : List Column) (r : AuditRow), ∃ name keyPrefix ip,
      fills columns r =
        { r with apiKeyName := name, apiKeyPrefix := keyPrefix, clientIp := ip } := by
    intro columns
    induction columns with
    | nil => exact fun r => ⟨r.apiKeyName, r.apiKeyPrefix, r.clientIp, rfl⟩
    | cons c columns ih =>
        intro r
        obtain ⟨name, keyPrefix, ip, hfills⟩ := ih (r.fill c)
        refine ⟨name, keyPrefix, ip, ?_⟩
        show fills columns (r.fill c) = _
        rw [hfills, AuditRow.fill]
        split
        · cases c <;> rfl
        · rfl
  obtain ⟨name, keyPrefix, ip, hfirst⟩ := hrest first r
  obtain ⟨name', keyPrefix', ip', hsecond⟩ := hrest second r
  have hname := h .apiKeyName
  have hprefix := h .apiKeyPrefix
  have hip := h .clientIp
  rw [hfirst, hsecond] at hname hprefix hip ⊢
  obtain rfl : name = name' := hname
  obtain rfl : keyPrefix = keyPrefix' := hprefix
  obtain rfl : ip = ip' := hip
  rfl

/-- Where all three columns are required, all three are filled. -/
theorem Holds.rows_eq {original : List AuditRow} {t : AuditTable} (h : Holds original t)
    (hall : ∀ c, c ∈ t.notNull) : t.rows = original.map (fills attributionColumns) := by
  obtain ⟨columns, hrows⟩ := h
  rw [hrows]
  refine List.map_congr_left fun r hr => fills_eq_of_get fun d => ?_
  have hmem : fills columns r ∈ t.rows := hrows ▸ List.mem_map_of_mem hr
  have hsome := t.attributed d (hall d) _ hmem
  have hin : d ∈ attributionColumns := by cases d <;> decide
  rw [get_fills] at hsome
  rw [get_fills, get_fills, if_pos hin]
  split
  · rfl
  · rename_i hno
    rw [if_neg hno] at hsome
    obtain ⟨value, hvalue⟩ := Option.isSome_iff_exists.mp hsome
    rw [hvalue, Option.getD_some]

/-- Between two runs, and wherever one is interrupted: some table holds the entries.  Only SQLite
has a second table. -/
structure Kept (backend : DatabaseBackend) (original : List AuditRow) (db : AuditDb) : Prop where
  holds : ∃ t, Holds original t ∧
    (db.auditLogs = some t ∨ (db.auditLogs = none ∧ db.rebuild = some t))
  direct : backend ≠ .sqlite → db.rebuild = none ∧ db.indexed = true

section Outlines

variable {backend : DatabaseBackend} {original : List AuditRow} {db db' : AuditDb}

theorem Kept.auditLogs (h : Kept backend original db) (hrebuild : db.rebuild = none) :
    ∃ t, db.auditLogs = some t ∧ Holds original t := by
  obtain ⟨t, hholds, hlogs | ⟨-, hno⟩⟩ := h.holds
  · exact ⟨t, hlogs, hholds⟩
  · rw [hrebuild] at hno
    cases hno

theorem backfill_eq_some {c : Column} (h : backfill c db = some db') :
    ∃ t t', db.auditLogs = some t ∧ t'.rows = t.rows.map (AuditRow.fill c) ∧
      t'.notNull = t.notNull ∧ db' = { db with auditLogs := some t' } := by
  obtain ⟨t, hlogs, h⟩ := Option.bind_eq_some_iff.mp h
  obtain ⟨t', hof, h⟩ := Option.bind_eq_some_iff.mp h
  obtain ⟨hrows, hnotNull⟩ := AuditTable.of_eq_some_iff.mp hof
  exact ⟨t, t', hlogs, hrows, hnotNull, (Option.some.inj h).symm⟩

theorem Kept.backfill {c : Column} (h : Kept backend original db)
    (hstmt : backfill c db = some db') : Kept backend original db' := by
  obtain ⟨t, t', hlogs, hrows, -, rfl⟩ := backfill_eq_some hstmt
  obtain ⟨t₀, hholds, hlogs' | ⟨hno, -⟩⟩ := h.holds
  · rw [hlogs] at hlogs'
    obtain rfl := Option.some.inj hlogs'
    exact ⟨⟨t', hholds.fill [c] hrows, .inl rfl⟩, h.direct⟩
  · rw [hlogs] at hno
    cases hno

theorem Kept.modifyColumn {required : Bool} {c : Column} (h : Kept backend original db)
    (hstmt : modifyColumn required c db = some db') : Kept backend original db' := by
  obtain ⟨t, hlogs, hstmt⟩ := Option.bind_eq_some_iff.mp hstmt
  obtain ⟨t', hof, hstmt⟩ := Option.bind_eq_some_iff.mp hstmt
  obtain rfl := Option.some.inj hstmt
  obtain ⟨t₀, hholds, hlogs' | ⟨hno, -⟩⟩ := h.holds
  · rw [hlogs] at hlogs'
    obtain rfl := Option.some.inj hlogs'
    exact ⟨⟨t', hholds.of_rows_eq (AuditTable.of_eq_some_iff.mp hof).1, .inl rfl⟩, h.direct⟩
  · rw [hlogs] at hno
    cases hno

/-- The table has been rebuilt with these columns required. -/
def Rebuilt (attributionNotNull : Bool) (original : List AuditRow) (db : AuditDb) : Prop :=
  ∃ t, db = ⟨some t, none, true⟩ ∧ Holds original t ∧ t.notNull = required attributionNotNull

theorem kept_sqlite {t : AuditTable} (hholds : Holds original t)
    (h : db.auditLogs = some t ∨ (db.auditLogs = none ∧ db.rebuild = some t)) :
    Kept .sqlite original db := ⟨⟨t, hholds, h⟩, fun hne => absurd rfl hne⟩

/-- **The rebuild, statement by statement.**  The entries are in the first table until they are in
the second. -/
theorem outline_rebuild (attributionNotNull : Bool) :
    Outline (Kept .sqlite original) (rebuild attributionNotNull) (Kept .sqlite original)
      (Rebuilt attributionNotNull original) := by
  -- the second table is there, and empty
  refine .cons (fun _ h => h) (M := fun db => ∃ t u, Holds original t ∧ u.rows = [] ∧
    u.notNull = required attributionNotNull ∧ db.auditLogs = some t ∧ db.rebuild = some u) ?_ ?_
  · intro db db' hkept hstmt
    rw [createRebuild] at hstmt
    split at hstmt
    · cases hstmt
    · rename_i hfree
      obtain ⟨u, hof, hstmt⟩ := Option.bind_eq_some_iff.mp hstmt
      obtain rfl := Option.some.inj hstmt
      obtain ⟨t, hlogs, hholds⟩ := hkept.auditLogs (by simpa using hfree)
      obtain ⟨hrows, hnotNull⟩ := AuditTable.of_eq_some_iff.mp hof
      exact ⟨t, u, hholds, hrows, hnotNull, hlogs, rfl⟩
  -- both tables have the entries
  refine .cons ?_ (M := fun db => ∃ t u, Holds original t ∧ Holds original u ∧
    u.notNull = required attributionNotNull ∧ db.auditLogs = some t ∧ db.rebuild = some u) ?_ ?_
  · rintro db ⟨t, u, hholds, -, -, hlogs, -⟩
    exact kept_sqlite hholds (.inl hlogs)
  · rintro db db' ⟨t, u, hholds, hempty, hnotNull, hlogs, hrebuild⟩ hstmt
    obtain ⟨t', hlogs', hstmt⟩ := Option.bind_eq_some_iff.mp hstmt
    obtain ⟨u', hrebuild', hstmt⟩ := Option.bind_eq_some_iff.mp hstmt
    obtain ⟨v, hof, hstmt⟩ := Option.bind_eq_some_iff.mp hstmt
    obtain rfl := Option.some.inj hstmt
    obtain rfl := Option.some.inj (hlogs.symm.trans hlogs')
    obtain rfl := Option.some.inj (hrebuild.symm.trans hrebuild')
    obtain ⟨hrows, hsame⟩ := AuditTable.of_eq_some_iff.mp hof
    rw [hempty, List.nil_append] at hrows
    exact ⟨t, v, hholds, hholds.of_rows_eq hrows, hsame.trans hnotNull, hlogs, rfl⟩
  -- the second table alone has them
  refine .cons ?_ (M := fun db => ∃ u, Holds original u ∧
    u.notNull = required attributionNotNull ∧ db = ⟨none, some u, false⟩) ?_ ?_
  · rintro db ⟨t, u, hholds, -, -, hlogs, -⟩
    exact kept_sqlite hholds (.inl hlogs)
  · rintro ⟨logs, second, indexed⟩ db' ⟨t, u, -, hholds, hnotNull, hlogs, hrebuild⟩ hstmt
    obtain rfl : logs = some t := hlogs
    obtain rfl : second = some u := hrebuild
    exact ⟨u, hholds, hnotNull, (Option.some.inj hstmt).symm⟩
  -- the first table is the second one renamed
  refine .cons ?_ (M := fun db => ∃ u, Holds original u ∧
    u.notNull = required attributionNotNull ∧ db = ⟨some u, none, false⟩) ?_ ?_
  · rintro db ⟨u, hholds, -, rfl⟩
    exact kept_sqlite hholds (.inr ⟨rfl, rfl⟩)
  · rintro db db' ⟨u, hholds, hnotNull, rfl⟩ hstmt
    exact ⟨u, hholds, hnotNull, (Option.some.inj hstmt).symm⟩
  refine .cons ?_ (M := Rebuilt attributionNotNull original) ?_ (.nil ?_ fun _ h => h)
  · rintro db ⟨u, hholds, -, rfl⟩
    exact kept_sqlite hholds (.inl rfl)
  · rintro db db' ⟨u, hholds, hnotNull, rfl⟩ hstmt
    exact ⟨u, (Option.some.inj hstmt).symm, hholds, hnotNull⟩
  · rintro db ⟨u, rfl, hholds, -⟩
    exact kept_sqlite hholds (.inl rfl)

/-- Backfilling keeps the entries wherever it ends. -/
theorem outline_backfill : Outline (Kept backend original) (attributionColumns.map backfill)
    (Kept backend original) (Kept backend original) := by
  refine .of_forall fun stmt hmem db db' hkept hstmt => ?_
  obtain ⟨c, -, rfl⟩ := List.mem_map.mp hmem
  exact hkept.backfill hstmt

/-- So do the alterations. -/
theorem outline_modifyColumn (attributionNotNull : Bool) :
    Outline (Kept backend original) (attributionColumns.map (modifyColumn attributionNotNull))
      (Kept backend original) (Kept backend original) := by
  refine .of_forall fun stmt hmem db db' hkept hstmt => ?_
  obtain ⟨c, -, rfl⟩ := List.mem_map.mp hmem
  exact hkept.modifyColumn hstmt

/-- **Both scripts keep the entries,** wherever they end. -/
theorem outline_up_down (backend : DatabaseBackend) (original : List AuditRow) :
    ∀ script ∈ [up backend, down backend],
      ∃ Q, Outline (Kept backend original) script (Kept backend original) Q := by
  have htail : ∀ attributionNotNull, ∃ Q, Outline (Kept backend original)
      (if backend = .sqlite then rebuild attributionNotNull
        else attributionColumns.map (modifyColumn attributionNotNull))
      (Kept backend original) Q := by
    intro attributionNotNull
    split
    · rename_i hsqlite
      subst hsqlite
      exact ⟨_, outline_rebuild attributionNotNull⟩
    · exact ⟨_, outline_modifyColumn attributionNotNull⟩
  intro script hmem
  rcases List.mem_pair.mp hmem with rfl | rfl
  · obtain ⟨Q, houtline⟩ := htail true
    exact ⟨Q, outline_backfill.append houtline⟩
  · exact htail false

end Outlines

/-! ### What gets through -/

section Runs

variable {backend : DatabaseBackend} {original : List AuditRow} {t : AuditTable}

theorem run_backfills (columns : List Column) (second : Option AuditTable) (indexed : Bool) :
    ∃ t', run (columns.map backfill) ⟨some t, second, indexed⟩ = some ⟨some t', second, indexed⟩ ∧
      t'.rows = t.rows.map (fills columns) ∧ t'.notNull = t.notNull := by
  induction columns generalizing t with
  | nil => exact ⟨t, rfl, (List.map_id t.rows).symm, rfl⟩
  | cons c columns ih =>
      have hfits := fits_fill t.fits c
      let filled : AuditTable := ⟨_, t.notNull, hfits.1, hfits.2⟩
      have hof : AuditTable.of t.notNull (t.rows.map (AuditRow.fill c)) = some filled :=
        dif_pos hfits
      have hstmt : backfill c ⟨some t, second, indexed⟩ = some ⟨some filled, second, indexed⟩ := by
        show (AuditTable.of t.notNull (t.rows.map (AuditRow.fill c))).bind _ = _
        rw [hof]
        rfl
      obtain ⟨t', hrun, hrows, hnotNull⟩ := ih (t := filled)
      refine ⟨t', (run_cons_of_some hstmt).trans hrun, ?_, hnotNull⟩
      rw [hrows]
      exact List.map_map

theorem run_modifyColumns (attributionNotNull : Bool) (columns : List Column)
    (second : Option AuditTable) (indexed : Bool)
    (hfilled : attributionNotNull = true → ∀ c ∈ columns, ∀ r ∈ t.rows, (r.get c).isSome = true) :
    ∃ t', run (columns.map (modifyColumn attributionNotNull)) ⟨some t, second, indexed⟩ =
        some ⟨some t', second, indexed⟩ ∧ t'.rows = t.rows ∧
      (attributionNotNull = true → ∀ c ∈ columns ++ t.notNull, c ∈ t'.notNull) := by
  induction columns generalizing t with
  | nil => exact ⟨t, rfl, rfl, fun _ _ h => h⟩
  | cons c columns ih =>
      have hfits : Fits (if attributionNotNull then t.notNull.insert c else
          t.notNull.filter (· ≠ c)) t.rows := by
        refine ⟨t.ids_nodup, fun d hd => ?_⟩
        split at hd
        · rename_i hrequired
          rcases List.mem_insert_iff.mp hd with rfl | hd
          · exact hfilled hrequired d List.mem_cons_self
          · exact t.attributed d hd
        · exact t.attributed d (List.mem_of_mem_filter hd)
      let altered : AuditTable := ⟨_, _, hfits.1, hfits.2⟩
      have hof : AuditTable.of _ t.rows = some altered := dif_pos hfits
      have hstmt : modifyColumn attributionNotNull c ⟨some t, second, indexed⟩ =
          some ⟨some altered, second, indexed⟩ := by
        show (AuditTable.of _ t.rows).bind _ = _
        rw [hof]
        rfl
      obtain ⟨t', hrun, hrows, hnotNull⟩ := ih (t := altered) fun hrequired d hd =>
        hfilled hrequired d (List.mem_cons_of_mem c hd)
      refine ⟨t', (run_cons_of_some hstmt).trans hrun, hrows, fun hrequired d hd => ?_⟩
      refine hnotNull hrequired d ?_
      have hcolumns : altered.notNull = t.notNull.insert c := if_pos hrequired
      rw [List.mem_append, hcolumns, List.mem_insert_iff]
      rw [List.cons_append, List.mem_cons, List.mem_append] at hd
      tauto

theorem run_rebuild (attributionNotNull : Bool) (indexed : Bool)
    (hfits : Fits (required attributionNotNull) t.rows) :
    ∃ t', run (rebuild attributionNotNull) ⟨some t, none, indexed⟩ = some ⟨some t', none, true⟩ ∧
      t'.rows = t.rows ∧ t'.notNull = required attributionNotNull := by
  have hempty : Fits (required attributionNotNull) [] :=
    ⟨List.nodup_nil, fun _ _ _ hr => absurd hr List.not_mem_nil⟩
  let empty : AuditTable := ⟨[], _, hempty.1, hempty.2⟩
  let full : AuditTable := ⟨t.rows, _, hfits.1, hfits.2⟩
  have hcreate : createRebuild attributionNotNull ⟨some t, none, indexed⟩ =
      some ⟨some t, some empty, indexed⟩ := by
    have hof : AuditTable.of (required attributionNotNull) [] = some empty := dif_pos hempty
    show (AuditTable.of (required attributionNotNull) []).bind _ = _
    rw [hof]
    rfl
  have hcopy : copyRows ⟨some t, some empty, indexed⟩ = some ⟨some t, some full, indexed⟩ := by
    have hof : AuditTable.of (required attributionNotNull) t.rows = some full := dif_pos hfits
    show (AuditTable.of (required attributionNotNull) t.rows).bind _ = _
    rw [hof]
    rfl
  exact ⟨full, (run_cons_of_some hcreate).trans (run_cons_of_some hcopy), rfl, rfl⟩

/-- **With the second table there, neither script gets through,** and the table stays. -/
theorem outline_stuck : ∀ script ∈ [up .sqlite, down .sqlite],
    Outline (fun db => db.rebuild.isSome = true) script (fun db => db.rebuild.isSome = true)
      fun _ => False := by
  have hrebuild : ∀ attributionNotNull, Outline (fun db => db.rebuild.isSome = true)
      (rebuild attributionNotNull) (fun db => db.rebuild.isSome = true) fun _ => False := by
    intro attributionNotNull
    refine .cons (fun _ h => h) (fun db db' hthere hstmt => ?_) (.of_not fun _ => id)
    rw [createRebuild, if_pos hthere] at hstmt
    cases hstmt
  have hbackfill : Outline (fun db => db.rebuild.isSome = true) (attributionColumns.map backfill)
      (fun db => db.rebuild.isSome = true) fun db => db.rebuild.isSome = true := by
    refine .of_forall fun stmt hmem db db' hthere hstmt => ?_
    obtain ⟨c, -, rfl⟩ := List.mem_map.mp hmem
    obtain ⟨t, t', -, -, -, rfl⟩ := backfill_eq_some hstmt
    exact hthere
  intro script hmem
  rcases List.mem_pair.mp hmem with rfl | rfl
  · exact hbackfill.append (hrebuild true)
  · exact hrebuild false

/-- **Without it, `up` gets through.** -/
theorem run_up {db : AuditDb} (hkept : Kept backend original db) (hfree : db.rebuild = none) :
    ∃ t, run (up backend) db = some ⟨some t, none, true⟩ ∧
      t.rows = original.map (fills attributionColumns) ∧ ∀ c, c ∈ t.notNull := by
  have hevery : ∀ c : Column, c ∈ attributionColumns := by
    intro c
    cases c <;> decide
  obtain ⟨t, hlogs, hholds⟩ := hkept.auditLogs hfree
  obtain ⟨logs, second, indexed⟩ := db
  obtain rfl : logs = some t := hlogs
  obtain rfl : second = none := hfree
  obtain ⟨filled, hbackfill, hrows, -⟩ := run_backfills attributionColumns none indexed
  have hholds' := hholds.fill attributionColumns hrows
  have hfilled : ∀ c ∈ attributionColumns, ∀ r ∈ filled.rows, (r.get c).isSome = true := by
    intro c hc r hr
    rw [hrows] at hr
    obtain ⟨r', -, rfl⟩ := List.mem_map.mp hr
    rw [get_fills, if_pos hc, Option.isSome_some]
  by_cases hsqlite : backend = .sqlite
  · obtain ⟨t', hrebuild, hsame, hnotNull⟩ :=
      run_rebuild true indexed (t := filled) ⟨filled.ids_nodup, hfilled⟩
    have hall : ∀ c, c ∈ t'.notNull := fun c => hnotNull ▸ hevery c
    refine ⟨t', ?_, (hholds'.of_rows_eq hsame).rows_eq hall, hall⟩
    rw [up, if_pos hsqlite, run_append, hbackfill]
    exact hrebuild
  · obtain ⟨t', halter, hsame, hnotNull⟩ :=
      run_modifyColumns true attributionColumns none indexed (t := filled) fun _ => hfilled
    have hall : ∀ c, c ∈ t'.notNull := fun c =>
      hnotNull rfl c (List.mem_append_left _ (hevery c))
    refine ⟨t', ?_, (hholds'.of_rows_eq hsame).rows_eq hall, hall⟩
    obtain rfl : indexed = true := (hkept.direct hsqlite).2
    rw [up, if_neg hsqlite, run_append, hbackfill]
    exact halter

end Runs

/-! ### Any number of interrupted runs -/

/-- **The audit log survives.**  However often the migration is applied and reverted, and wherever
each run is interrupted:

* some table has every entry, as it was or with the marker where it had no value;
* `up` gets through if the second table is not there, and then every entry is in `audit_logs`, with
  its index, each of the three columns filled and required;
* if it is there, no run gets through any more. -/
theorem audit_log_survives (backend : DatabaseBackend) (original : AuditTable) (db : AuditDb)
    (hruns : ReflTransGen (Interrupted [up backend, down backend]) ⟨some original, none, true⟩ db) :
    (∃ t, Holds original.rows t ∧
      (db.auditLogs = some t ∨ (db.auditLogs = none ∧ db.rebuild = some t))) ∧
    (db.rebuild = none → ∃ t, run (up backend) db = some ⟨some t, none, true⟩ ∧
      t.rows = original.rows.map (fills attributionColumns) ∧ ∀ c, c ∈ t.notNull) ∧
    (db.rebuild.isSome = true → ∀ db',
      ReflTransGen (Interrupted [up backend, down backend]) db db' →
        ∀ script ∈ [up backend, down backend], run script db' = none) := by
  have hstart : Kept backend original.rows ⟨some original, none, true⟩ :=
    ⟨⟨original, ⟨[], (List.map_id _).symm⟩, .inl rfl⟩, fun _ => ⟨rfl, rfl⟩⟩
  have hkept := invariant_of_outlines (outline_up_down backend original.rows) hstart hruns
  refine ⟨hkept.holds, run_up hkept, fun hthere db' hlater script hmem => ?_⟩
  obtain rfl : backend = .sqlite := by
    by_contra hne
    rw [(hkept.direct hne).1] at hthere
    cases hthere
  have hthere' := invariant_of_outlines (fun script hmem => ⟨_, outline_stuck script hmem⟩)
    hthere hlater
  by_contra hrun
  obtain ⟨db'', hrun⟩ := Option.ne_none_iff_exists'.mp hrun
  exact (outline_stuck script hmem).run_eq_some hthere' hrun

/-- An entry whose key had no name is filled, and the run interrupted with `audit_logs` dropped: the
entry is in the second table, and the service does not start again. -/
theorem audit_log_survives_of_crash :
    ∃ original db, original.rows ≠ [] ∧ Leaves (up .sqlite) ⟨some original, none, true⟩ db ∧
      db.auditLogs = none ∧ (∃ t, Holds original.rows t ∧ db.rebuild = some t) ∧
      run (up .sqlite) db = none := by
  let entry : AuditRow := ⟨1, none, none, some "sk_1", some "10.0.0.1", "CREATE", none, none, 5⟩
  let original : AuditTable := ⟨[entry], [], by decide, by decide⟩
  have hrun : (run ((up .sqlite).take 6) ⟨some original, none, true⟩).isSome = true := by
    decide +kernel
  obtain ⟨db, hdb⟩ := Option.isSome_iff_exists.mp hrun
  have hthere : (run ((up .sqlite).take 6) ⟨some original, none, true⟩).all (fun db =>
      db.auditLogs.isNone && db.rebuild.isSome) = true := by decide +kernel
  rw [hdb, Option.all_some, Bool.and_eq_true, Option.isNone_iff_eq_none] at hthere
  obtain ⟨hdropped, hrebuild⟩ := hthere
  have hleaves := leaves_of_run_take 6 hdb
  have hruns : ReflTransGen (Interrupted [up .sqlite, down .sqlite])
      ⟨some original, none, true⟩ db := .single ⟨_, List.mem_cons_self, hleaves⟩
  obtain ⟨⟨t, hholds, hlogs | ⟨-, hsecond⟩⟩, -, hstuck⟩ :=
    audit_log_survives .sqlite original db hruns
  · rw [hdropped] at hlogs
    cases hlogs
  · exact ⟨original, db, List.cons_ne_nil _ _, hleaves, hdropped, ⟨t, hholds, hsecond⟩,
      hstuck hrebuild db .refl _ List.mem_cons_self⟩

end SimplyIpSync.Migration.AuditAttribution
