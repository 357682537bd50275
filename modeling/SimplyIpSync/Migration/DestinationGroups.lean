import SimplyIpSync.Api.Handle
import SimplyIpSync.Lib.Reach

/-!
# The destination-group migration (`src/migration/m20260928_033617_destination_groups.rs`)

`up` turns every external source into a destination group with the same identifier and one feed, the
source itself without the columns that move to the group.  `down` gives every feed the columns of its
group back, and every group's targets to the source with the group's identifier.

On SQLite the table is rebuilt, elsewhere altered.  The statement that fills the columns of `down` is
no MySQL.  The other tables are shown as they are after the last migration.
-/

namespace SimplyIpSync.Migration

open SimplyIpSync.Entities SimplyIpSync.Storage SimplyIpSync.Api SimplyIpSync.Reach

/-! ### Before -/

/-- An `external_sources` row before the migration. -/
structure OldExternalSource where
  id : Uuid
  name : String
  sourceUrl : String
  parserType : String
  parserConfigJson : Option String
  cronSchedule : String
  targetGroupName : String
  mode : String
  isActive : Bool
  lastRunAt : Option ℤ
  ownerKeyId : Option Uuid
  createdAt : ℤ
  updatedAt : ℤ
  deriving DecidableEq, Repr

/-- An `external_source_vault_targets` row. -/
structure ExternalSourceVaultTarget where
  externalSourceId : Uuid
  vaultEndpointId : Uuid
  targetGroupName : Option String
  deriving DecidableEq, Repr

/-- The tables before the migration. -/
structure OldDatabase where
  apiKeys : Table ApiKey.id
  permissions : Table SyncPermission.id
  vaultEndpoints : Table fun r : OwnedVaultEndpoint => r.id
  externalSources : Table OldExternalSource.id
  sourceTargets :
    Table fun r : ExternalSourceVaultTarget => (r.externalSourceId, r.vaultEndpointId)
  vaultSyncTasks : Table fun r : OwnedVaultSyncTask => r.id
  taskTargets : Table fun r : VaultSyncTaskTarget => (r.vaultSyncTaskId, r.targetVaultId)
  syncLogs : List SyncLog
  auditLogs : List AuditLog

/-! ### Up -/

/-- The `destination_groups` row that is selected from a source. -/
def groupOf (source : OldExternalSource) : OwnedDestinationGroup where
  id := source.id
  name := source.name
  targetGroupName := source.targetGroupName
  cronSchedule := source.cronSchedule
  mode := source.mode
  isActive := source.isActive
  skipBogonFiltering := false
  lastRunAt := source.lastRunAt
  ownerKeyId := source.ownerKeyId
  createdAt := source.createdAt
  updatedAt := source.updatedAt

/-- The `destination_group_vault_targets` row that is selected from a target of a source. -/
def groupTargetOf (target : ExternalSourceVaultTarget) : DestinationGroupVaultTarget where
  destinationGroupId := target.externalSourceId
  vaultEndpointId := target.vaultEndpointId
  targetGroupName := target.targetGroupName

/-- The feed that is selected from a source, of the group `groupId`. -/
def feedOf (source : OldExternalSource) (groupId : Uuid) : StampedExternalSource where
  id := source.id
  destinationGroupId := groupId
  name := source.name
  sourceUrl := source.sourceUrl
  parserType := source.parserType
  parserConfigJson := source.parserConfigJson
  maxAgeDays := none
  skipBogonFiltering := none
  createdAt := source.createdAt
  updatedAt := source.updatedAt

/-- `migrate_existing_rows_into_groups`; a target whose source or vault is gone is refused by a
foreign key. -/
def migrateExistingRowsIntoGroups (old : OldDatabase) :
    Except DbErr ((Table fun r : OwnedDestinationGroup => r.id) ×
      Table fun r : DestinationGroupVaultTarget => (r.destinationGroupId, r.vaultEndpointId)) :=
  if old.sourceTargets.rows.all fun r =>
      (old.externalSources.find? r.externalSourceId).isSome &&
        (old.vaultEndpoints.find? r.vaultEndpointId).isSome then
    .ok
      (old.externalSources.select (fun r => some (groupOf r)) fun _ _ h => Option.some.inj h ▸ rfl,
        old.sourceTargets.select (fun r => some (groupTargetOf r)) fun _ _ h =>
          Option.some.inj h ▸ rfl)
  else .error .other

/-- `rebuild_external_sources_sqlite` of `up`. -/
def rebuildUp (sources : Table OldExternalSource.id) :
    Table fun r : StampedExternalSource => r.id :=
  sources.select (fun r => some (feedOf r r.id)) fun _ _ h => Option.some.inj h ▸ rfl

/-- A row to which `alter_external_sources_directly` has added its columns. -/
structure WideExternalSource extends OldExternalSource where
  destinationGroupId : Option Uuid
  maxAgeDays : Option ℤ
  skipBogonFiltering : Option Bool
  deriving DecidableEq, Repr

/-- The row without the columns that are dropped; its group may not be missing. -/
def WideExternalSource.narrow (r : WideExternalSource) : Option StampedExternalSource :=
  r.destinationGroupId.map fun groupId =>
    { feedOf r.toOldExternalSource groupId with
      maxAgeDays := r.maxAgeDays
      skipBogonFiltering := r.skipBogonFiltering }

/-- `alter_external_sources_directly`: the columns are added, filled, tightened, and the others
dropped. -/
def alterExternalSourcesDirectly (sources : Table OldExternalSource.id) :
    Except DbErr (Table fun r : StampedExternalSource => r.id) :=
  let added : Table fun r : WideExternalSource => r.id :=
    sources.select (fun r => some ⟨r, none, none, none⟩) fun _ _ h => Option.some.inj h ▸ rfl
  let filled := added.mapRows (fun r => { r with destinationGroupId := some r.id }) fun _ => rfl
  if filled.rows.all fun r => r.destinationGroupId.isSome then
    .ok (filled.select WideExternalSource.narrow fun _ _ h => by
      obtain ⟨_, -, rfl⟩ := Option.map_eq_some_iff.mp h
      rfl)
  else .error .other

/-- `up`. -/
def up (backend : DatabaseBackend) (old : OldDatabase) : Except DbErr Database :=
  match migrateExistingRowsIntoGroups old with
  | .error e => .error e
  | .ok (groups, targets) =>
      match
        if backend = .sqlite then .ok (rebuildUp old.externalSources)
        else alterExternalSourcesDirectly old.externalSources with
      | .error e => .error e
      | .ok sources =>
          .ok
            { apiKeys := old.apiKeys
              permissions := old.permissions
              vaultEndpoints := old.vaultEndpoints
              destinationGroups := groups
              groupTargets := targets
              externalSources := sources
              vaultSyncTasks := old.vaultSyncTasks
              taskTargets := old.taskTargets
              syncLogs := old.syncLogs
              auditLogs := old.auditLogs }

/-- **The two paths agree.** -/
theorem alterExternalSourcesDirectly_eq (sources : Table OldExternalSource.id) :
    alterExternalSourcesDirectly sources = .ok (rebuildUp sources) := by
  simp [alterExternalSourcesDirectly, rebuildUp, Table.select, Table.mapRows,
    WideExternalSource.narrow, feedOf, Function.comp_def, List.filterMap_map]

/-- **What `up` makes of the tables,** on every backend. -/
theorem up_ok {backend : DatabaseBackend} {old : OldDatabase} {db : Database}
    (h : up backend old = .ok db) :
    db.apiKeys = old.apiKeys ∧ db.permissions = old.permissions ∧
      (∀ id, db.destinationGroups.find? id = (old.externalSources.find? id).map groupOf) ∧
      (∀ id, db.externalSources.find? id =
        (old.externalSources.find? id).map fun r => feedOf r r.id) ∧
      ∀ key, db.groupTargets.find? key = (old.sourceTargets.find? key).map groupTargetOf := by
  have hsources : (if backend = .sqlite then .ok (rebuildUp old.externalSources)
      else alterExternalSourcesDirectly old.externalSources) =
        Except.ok (ε := DbErr) (rebuildUp old.externalSources) := by
    rw [alterExternalSourcesDirectly_eq, ite_self]
  simp only [up, hsources] at h
  split at h
  · cases h
  · rename_i groups targets hcopied
    obtain rfl := Except.ok.inj h
    rw [migrateExistingRowsIntoGroups] at hcopied
    split at hcopied
    · obtain ⟨rfl, rfl⟩ := Prod.mk.inj (Except.ok.inj hcopied)
      refine ⟨rfl, rfl, ?_, ?_, ?_⟩
      · intro id
        rw [Table.find?_select]
        exact Option.map_eq_bind.symm
      · intro id
        rw [rebuildUp, Table.find?_select]
        exact Option.map_eq_bind.symm
      · intro key
        rw [Table.find?_select]
        exact Option.map_eq_bind.symm
    · cases hcopied

/-! ### Permissions after `up` -/

/-- `RESOURCE_EXTERNAL_SOURCE`, the resource type before the migration. -/
def resourceExternalSource : String := "external_source"

/-- `find_permission` before the migration. -/
def OldDatabase.permissionOf (old : OldDatabase) (apiKeyId : Uuid) (resourceType : String)
    (resourceId : Uuid) : Option SyncPermission :=
  old.permissions.rows.find? fun r =>
    r.apiKeyId = apiKeyId ∧ r.resourceType = resourceType ∧ r.resourceId = resourceId

/-- The verbs that a permission expresses: to sync, to manage and to view logs. -/
def verbs (permission : Option SyncPermission) : Option (Bool × Bool × Bool) :=
  permission.map fun p => (p.canSync, p.canManage, p.canViewLogs)

/-- The guards decide alike about two permissions of a caller. -/
structure SameDecisions (caller : ApiKey) (before after : Option SyncPermission) : Prop where
  manage : guardResourceManage caller after = guardResourceManage caller before
  sync : guardCanSync caller after = guardCanSync caller before
  viewLogs : guardCanViewLogs caller after = guardCanViewLogs caller before
  grant : ∀ canSync canManage canViewLogs,
    guardDelegatedGrant caller after canSync canManage canViewLogs =
      guardDelegatedGrant caller before canSync canManage canViewLogs
  revoke : guardRevocation caller after = guardRevocation caller before

/-- The permission lets the caller do nothing that it cannot do without one. -/
def Idle (caller : ApiKey) (permission : Option SyncPermission) : Prop :=
  caller.isMaster = true ∨ ∀ p ∈ permission,
    (caller.canManageKeys = false ∨ p.canManage = false) ∧ p.canSync = false ∧
      p.canViewLogs = false

/-- A permission decides as none does exactly where it is idle. -/
theorem sameDecisions_none_iff (caller : ApiKey) (before : Option SyncPermission) :
    SameDecisions caller before none ↔ Idle caller before := by
  cases hmaster : caller.isMaster with
  | true =>
      refine iff_of_true ?_ (.inl hmaster)
      constructor <;>
        simp [guardResourceManage, guardCanSync, guardCanViewLogs, guardDelegatedGrant,
          guardRevocation, hmaster]
  | false =>
      cases before with
      | none =>
          refine iff_of_true ⟨rfl, rfl, rfl, fun _ _ _ => rfl, rfl⟩ (.inr ?_)
          intro p hp
          cases hp
      | some p =>
          have hidle : Idle caller (some p) ↔
              (caller.canManageKeys = false ∨ p.canManage = false) ∧ p.canSync = false ∧
                p.canViewLogs = false := by
            simp [Idle, hmaster]
          have hmanage : guardResourceManage caller none = guardResourceManage caller (some p) ↔
              caller.canManageKeys = false ∨ p.canManage = false := by
            cases hkeys : caller.canManageKeys <;> cases hgrant : p.canManage <;>
              simp [guardResourceManage, hmaster, hkeys, hgrant]
          have hsync : guardCanSync caller none = guardCanSync caller (some p) ↔
              p.canSync = false := by
            cases hgrant : p.canSync <;> simp [guardCanSync, hmaster, hgrant]
          have hview : guardCanViewLogs caller none = guardCanViewLogs caller (some p) ↔
              p.canViewLogs = false := by
            cases hgrant : p.canViewLogs <;> simp [guardCanViewLogs, hmaster, hgrant]
          rw [hidle]
          constructor
          · intro h
            exact ⟨hmanage.mp h.manage, hsync.mp h.sync, hview.mp h.viewLogs⟩
          · rintro ⟨hfirst, hsecond, hthird⟩
            have hboth := hmanage.mpr hfirst
            refine ⟨hboth, hsync.mpr hsecond, hview.mpr hthird, ?_, hboth⟩
            intro canSync canManage canViewLogs
            obtain ⟨e, hrefused⟩ : ∃ e, guardResourceManage caller none = .error e := by
              simp [guardResourceManage, hmaster]
            rw [guardDelegatedGrant, guardDelegatedGrant, ← hboth, hrefused]

/-- The code looks for a resource type that the migration does not write. -/
theorem permissionOf_up {backend : DatabaseBackend} {old : OldDatabase} {db : Database}
    (h : up backend old = .ok db)
    (htype : ∀ p ∈ old.permissions.rows, p.resourceType ≠ resourceDestinationGroup)
    (keyId resourceId : Uuid) : db.permissionOf keyId resourceDestinationGroup resourceId = none := by
  obtain ⟨-, hpermissions, -⟩ := up_ok h
  rw [Database.permissionOf, hpermissions, List.find?_eq_none]
  intro p hp
  simp [htype p hp]

/-- **Whose authorization survives `up`.**  For every key and every external source, whose group has
its identifier: the permission that is found on the group is the one the key had on the source
exactly where the key had none, and the guards decide alike exactly where it was idle. -/
theorem up_keeps_permission_iff {backend : DatabaseBackend} {old : OldDatabase} {db : Database}
    (h : up backend old = .ok db)
    (htype : ∀ p ∈ old.permissions.rows, p.resourceType ≠ resourceDestinationGroup)
    (caller : ApiKey) {source : OldExternalSource} (hsource : source ∈ old.externalSources.rows) :
    db.destinationGroups.find? source.id = some (groupOf source) ∧
      (verbs (db.permissionOf caller.id resourceDestinationGroup source.id) =
          verbs (old.permissionOf caller.id resourceExternalSource source.id) ↔
        old.permissionOf caller.id resourceExternalSource source.id = none) ∧
      (SameDecisions caller (old.permissionOf caller.id resourceExternalSource source.id)
          (db.permissionOf caller.id resourceDestinationGroup source.id) ↔
        Idle caller (old.permissionOf caller.id resourceExternalSource source.id)) := by
  obtain ⟨-, -, hgroups, -⟩ := up_ok h
  have hfind : old.externalSources.find? source.id = some source :=
    Table.find?_eq_some_iff.mpr ⟨hsource, rfl⟩
  rw [permissionOf_up h htype]
  refine ⟨?_, ?_, sameDecisions_none_iff caller _⟩
  · rw [hgroups, hfind, Option.map_some]
  · simp [verbs]

/-- A key that manages keys, and may do everything with source 5. -/
def managedSource : OldDatabase where
  apiKeys := .empty
  permissions := ⟨[⟨7, 2, "external_source", 5, true, true, true, 0⟩], List.nodup_singleton _⟩
  vaultEndpoints := .empty
  externalSources :=
    ⟨[⟨5, "feed", "https://feed", "REGEX_LINE", none, "* * * * *", "blocklist", "upsert", true, none,
      some 2, 0, 0⟩], List.nodup_singleton _⟩
  sourceTargets := .empty
  vaultSyncTasks := .empty
  taskTargets := .empty
  syncLogs := []
  auditLogs := []

/-- That key. -/
def managingKey : ApiKey :=
  { (Env.plain 2).masterKey "k" "s" with isMaster := false, parentKeyId := some 1 }

theorem eq_ok_of_toOption {ε α : Type} {x : Except ε α} {a : α} (h : x.toOption = some a) :
    x = .ok a := by
  cases x with
  | error e => cases h
  | ok b => rw [Option.some.inj h]

/-- Another key, which has no permission on the source, keeps having none. -/
theorem up_keeps_permission_iff_stranger :
    ∃ db, up .sqlite managedSource = .ok db ∧
      verbs (db.permissionOf 3 resourceDestinationGroup 5) =
        verbs (managedSource.permissionOf 3 resourceExternalSource 5) := by
  have hup : (up .sqlite managedSource).toOption.isSome = true := by decide +kernel
  obtain ⟨db, hdb⟩ := Option.isSome_iff_exists.mp hup
  have htype : ∀ p ∈ managedSource.permissions.rows,
      p.resourceType ≠ resourceDestinationGroup := by decide
  have hsource : (⟨5, "feed", "https://feed", "REGEX_LINE", none, "* * * * *", "blocklist",
      "upsert", true, none, some 2, 0, 0⟩ : OldExternalSource) ∈
        managedSource.externalSources.rows := List.mem_singleton.mpr rfl
  obtain ⟨-, hpermission, -⟩ :=
    up_keeps_permission_iff (eq_ok_of_toOption hdb) htype { managingKey with id := 3 } hsource
  exact ⟨db, eq_ok_of_toOption hdb, hpermission.mpr (by decide)⟩

/-- The key that managed the source may do nothing with the group. -/
theorem up_drops_permission :
    ∃ db, up .sqlite managedSource = .ok db ∧
      (∀ p ∈ managedSource.permissions.rows, p.resourceType ≠ resourceDestinationGroup) ∧
      verbs (managedSource.permissionOf 2 resourceExternalSource 5) = some (true, true, true) ∧
      db.permissionOf 2 resourceDestinationGroup 5 = none ∧
      guardResourceManage managingKey (managedSource.permissionOf 2 resourceExternalSource 5) =
        .ok () ∧
      (guardResourceManage managingKey (db.permissionOf 2 resourceDestinationGroup 5)).isOk =
        false := by
  have hup : ((up .sqlite managedSource).toOption.map fun db =>
      decide (verbs (managedSource.permissionOf 2 resourceExternalSource 5) =
          some (true, true, true) ∧
        db.permissionOf 2 resourceDestinationGroup 5 = none ∧
        guardResourceManage managingKey (managedSource.permissionOf 2 resourceExternalSource 5) =
          .ok () ∧
        (guardResourceManage managingKey (db.permissionOf 2 resourceDestinationGroup 5)).isOk =
          false)) = some true := by
    decide +kernel
  obtain ⟨db, hdb, hfacts⟩ := Option.map_eq_some_iff.mp hup
  exact ⟨db, eq_ok_of_toOption hdb, by decide, of_decide_eq_true hfacts⟩

/-! ### Down -/

/-- The row of a feed with the columns of its group. -/
def restored (feed : StampedExternalSource) (group : OwnedDestinationGroup) : OldExternalSource where
  id := feed.id
  name := feed.name
  sourceUrl := feed.sourceUrl
  parserType := feed.parserType
  parserConfigJson := feed.parserConfigJson
  cronSchedule := group.cronSchedule
  targetGroupName := group.targetGroupName
  mode := group.mode
  isActive := group.isActive
  lastRunAt := group.lastRunAt
  ownerKeyId := group.ownerKeyId
  createdAt := feed.createdAt
  updatedAt := feed.updatedAt

/-- The `external_source_vault_targets` row that is selected from a target of a group. -/
def sourceTargetOf (target : DestinationGroupVaultTarget) : ExternalSourceVaultTarget where
  externalSourceId := target.destinationGroupId
  vaultEndpointId := target.vaultEndpointId
  targetGroupName := target.targetGroupName

/-- `rebuild_external_sources_sqlite` of `down`: the feeds joined with their groups. -/
def rebuildDown (db : Database) : Table OldExternalSource.id :=
  db.externalSources.select
    (fun feed => (db.destinationGroups.find? feed.destinationGroupId).map (restored feed))
    fun _ _ h => by
      obtain ⟨_, -, rfl⟩ := Option.map_eq_some_iff.mp h
      rfl

/-- A feed to which `down` has added the columns of before; `mode` and `is_active` have defaults. -/
structure WideFeed extends StampedExternalSource where
  cronSchedule : Option String
  targetGroupName : Option String
  mode : String
  isActive : Bool
  lastRunAt : Option ℤ
  ownerKeyId : Option Uuid
  deriving DecidableEq, Repr

/-- The columns are added. -/
def WideFeed.ofFeed (feed : StampedExternalSource) : WideFeed :=
  ⟨feed, none, none, "upsert", true, none, none⟩

/-- The columns of the group are filled in. -/
def WideFeed.fill (feed : WideFeed) (group : OwnedDestinationGroup) : WideFeed :=
  { feed with
    cronSchedule := some group.cronSchedule
    targetGroupName := some group.targetGroupName
    mode := group.mode
    isActive := group.isActive
    lastRunAt := group.lastRunAt
    ownerKeyId := group.ownerKeyId }

/-- The row without the columns that are dropped; two of the others may not be missing. -/
def WideFeed.narrow (feed : WideFeed) : Option OldExternalSource :=
  match feed.cronSchedule, feed.targetGroupName with
  | some cronSchedule, some targetGroupName =>
      some
        { id := feed.id
          name := feed.name
          sourceUrl := feed.sourceUrl
          parserType := feed.parserType
          parserConfigJson := feed.parserConfigJson
          cronSchedule := cronSchedule
          targetGroupName := targetGroupName
          mode := feed.mode
          isActive := feed.isActive
          lastRunAt := feed.lastRunAt
          ownerKeyId := feed.ownerKeyId
          createdAt := feed.createdAt
          updatedAt := feed.updatedAt }
  | _, _ => none

theorem id_of_narrow {feed : WideFeed} {source : OldExternalSource}
    (h : feed.narrow = some source) : source.id = feed.id := by
  rw [WideFeed.narrow] at h
  split at h
  · rw [← Option.some.inj h]
  · cases h

/-- The other path of `down`: the columns are added, filled, tightened, and the others dropped. -/
def alterDown (db : Database) : Except DbErr (Table OldExternalSource.id) :=
  let added : Table fun r : WideFeed => r.id :=
    db.externalSources.select (fun r => some (.ofFeed r)) fun _ _ h => Option.some.inj h ▸ rfl
  let filled := added.mapRows
    (fun r => (db.destinationGroups.find? r.destinationGroupId).elim r r.fill) fun r => by
      cases db.destinationGroups.find? r.destinationGroupId <;> rfl
  if filled.rows.all fun r => r.cronSchedule.isSome && r.targetGroupName.isSome then
    .ok (filled.select WideFeed.narrow fun _ _ h => id_of_narrow h)
  else .error .other

/-- The `external_sources` of `down`; MySQL does not know the form of the update. -/
def oldSources (backend : DatabaseBackend) (db : Database) :
    Except DbErr (Table OldExternalSource.id) :=
  match backend with
  | .sqlite => .ok (rebuildDown db)
  | .postgres => alterDown db
  | .mySql => .error .other

/-- `down`. -/
def down (backend : DatabaseBackend) (db : Database) : Except DbErr OldDatabase :=
  match oldSources backend db with
  | .error e => .error e
  | .ok sources =>
      .ok
        { apiKeys := db.apiKeys
          permissions := db.permissions
          vaultEndpoints := db.vaultEndpoints
          externalSources := sources
          sourceTargets := db.groupTargets.select (fun r => some (sourceTargetOf r)) fun _ _ h =>
            Option.some.inj h ▸ rfl
          vaultSyncTasks := db.vaultSyncTasks
          taskTargets := db.taskTargets
          syncLogs := db.syncLogs
          auditLogs := db.auditLogs }

/-- Every feed has its group, as the foreign key says. -/
def FeedsGrouped (db : Database) : Prop :=
  ∀ feed ∈ db.externalSources.rows, ∃ group,
    db.destinationGroups.find? feed.destinationGroupId = some group

section Down

variable {db : Database}

/-- **The two paths agree** where every feed has its group. -/
theorem alterDown_eq (h : FeedsGrouped db) : alterDown db = .ok (rebuildDown db) := by
  have hfilled : ((db.externalSources.rows.filterMap fun r => some (WideFeed.ofFeed r)).map fun r =>
        (db.destinationGroups.find? r.destinationGroupId).elim r r.fill) =
      db.externalSources.rows.map fun r =>
        (db.destinationGroups.find? r.destinationGroupId).elim (.ofFeed r)
          (WideFeed.ofFeed r).fill := by
    rw [List.filterMap_eq_map', List.map_map]
    rfl
  have htight : ((db.externalSources.rows.map fun r =>
      (db.destinationGroups.find? r.destinationGroupId).elim (.ofFeed r)
        (WideFeed.ofFeed r).fill).all fun r =>
          r.cronSchedule.isSome && r.targetGroupName.isSome) = true := by
    rw [List.all_map, List.all_eq_true]
    intro r hr
    obtain ⟨group, hgroup⟩ := h r hr
    simp [hgroup, WideFeed.fill]
  simp only [alterDown, rebuildDown, Table.select, Table.mapRows, hfilled, htight, if_true,
    Except.ok.injEq, Table.mk.injEq, List.filterMap_map]
  refine List.filterMap_congr fun r hr => ?_
  obtain ⟨group, hgroup⟩ := h r hr
  simp [hgroup, WideFeed.ofFeed, WideFeed.fill, WideFeed.narrow, restored]

/-- **What `down` makes of the tables.** -/
theorem down_ok {backend : DatabaseBackend} (hbackend : backend ≠ .mySql) (h : FeedsGrouped db) :
    ∃ old, down backend db = .ok old ∧
      (∀ id, old.externalSources.find? id = (db.externalSources.find? id).bind fun feed =>
        (db.destinationGroups.find? feed.destinationGroupId).map (restored feed)) ∧
      ∀ key, old.sourceTargets.find? key = (db.groupTargets.find? key).map sourceTargetOf := by
  have hsources : oldSources backend db = .ok (rebuildDown db) := by
    cases backend with
    | mySql => exact absurd rfl hbackend
    | postgres => exact alterDown_eq h
    | sqlite => rfl
  rw [down, hsources]
  refine ⟨_, rfl, ?_, ?_⟩
  · intro id
    rw [rebuildDown, Table.find?_select]
  · intro key
    rw [Table.find?_select]
    exact Option.map_eq_bind.symm

/-! ### Feeds after `down` -/

/-- The feed is an external source with the columns of its group, and with the targets of its
group. -/
structure Restored (db : Database) (old : OldDatabase) (feed : StampedExternalSource) : Prop where
  source : ∃ group source, db.destinationGroups.find? feed.destinationGroupId = some group ∧
    old.externalSources.find? feed.id = some source ∧ source.cronSchedule = group.cronSchedule ∧
    source.mode = group.mode ∧ source.isActive = group.isActive ∧
    source.targetGroupName = group.targetGroupName ∧ source.ownerKeyId = group.ownerKeyId
  targets : ∀ vaultId, (old.sourceTargets.find? (feed.id, vaultId)).map (fun r => r.targetGroupName) =
    (db.groupTargets.find? (feed.destinationGroupId, vaultId)).map fun r => r.targetGroupName

/-- The targets stored under the identifier of the feed are those of its group. -/
def OwnTargets (db : Database) (feed : StampedExternalSource) : Prop :=
  ∀ vaultId, (db.groupTargets.find? (feed.id, vaultId)).map (fun r => r.targetGroupName) =
    (db.groupTargets.find? (feed.destinationGroupId, vaultId)).map fun r => r.targetGroupName

/-- **When `down` loses nothing.**  For every database after the migration: the step ends with every
feed restored exactly where the backend is not MySQL and the targets stored under the identifier of
each feed are those of its group. -/
theorem down_restores_iff (backend : DatabaseBackend) (h : FeedsGrouped db) :
    (∃ old, down backend db = .ok old ∧
        ∀ feed ∈ db.externalSources.rows, Restored db old feed) ↔
      backend ≠ .mySql ∧ ∀ feed ∈ db.externalSources.rows, OwnTargets db feed := by
  by_cases hbackend : backend = .mySql
  · refine iff_of_false ?_ fun hboth => hboth.1 hbackend
    rintro ⟨old, hdown, -⟩
    rw [hbackend] at hdown
    cases hdown
  · obtain ⟨old, hdown, hsources, htargets⟩ := down_ok hbackend h
    have hname : ∀ key, (old.sourceTargets.find? key).map (fun r => r.targetGroupName) =
        (db.groupTargets.find? key).map fun r => r.targetGroupName := by
      intro key
      rw [htargets, Option.map_map]
      rfl
    constructor
    · rintro ⟨old', hdown', hrestored⟩
      obtain rfl := Except.ok.inj (hdown.symm.trans hdown')
      refine ⟨hbackend, fun feed hfeed vaultId => ?_⟩
      rw [← hname]
      exact (hrestored feed hfeed).targets vaultId
    · intro ⟨_, howns⟩
      refine ⟨old, hdown, fun feed hfeed => ⟨?_, fun vaultId => ?_⟩⟩
      · obtain ⟨group, hgroup⟩ := h feed hfeed
        have hfind : db.externalSources.find? feed.id = some feed :=
          Table.find?_eq_some_iff.mpr ⟨hfeed, rfl⟩
        refine ⟨group, restored feed group, hgroup, ?_, rfl, rfl, rfl, rfl, rfl⟩
        rw [hsources, hfind, Option.bind_some, hgroup, Option.map_some]
      · rw [hname]
        exact howns feed hfeed vaultId

end Down

/-- The Master makes vault 4 and group 5, which feeds it, and adds feed `id` to the group. -/
def feedCalls (id : Uuid) : List Call :=
  [.plain 1 4 (.createVaultEndpoint ⟨"vault", "https://vault", "key", "secret", none⟩),
    .plain 1 5 (.createDestinationGroup ⟨"group", "blocklist", "* * * * *", "upsert", true, false,
      [⟨4, some "override"⟩]⟩),
    .plain 1 id (.createFeed 5 ⟨"feed", "https://feed", "REGEX_LINE", none, none, none⟩)]

/-- A feed with the identifier of its group, as `up` leaves it, is restored. -/
theorem down_restores_iff_same_id :
    ∃ db old, Reaches serve anyStep .fresh db ∧ down .postgres db = .ok old ∧
      ∀ feed ∈ db.externalSources.rows, Restored db old feed := by
  have hrun : (runEvents serve anyStep .fresh (feedCalls 5)).map (fun db =>
      decide ((∀ feed ∈ db.externalSources.rows, feed.destinationGroupId = feed.id) ∧
        (∀ feed ∈ db.externalSources.rows,
          (db.destinationGroups.find? feed.destinationGroupId).isSome))) = some true := by
    decide +kernel
  obtain ⟨db, hdb, hfacts⟩ := Option.map_eq_some_iff.mp hrun
  obtain ⟨hsame, hgrouped⟩ := of_decide_eq_true hfacts
  have howns : ∀ feed ∈ db.externalSources.rows, OwnTargets db feed := by
    intro feed hfeed vaultId
    rw [hsame feed hfeed]
  obtain ⟨old, hdown, hrestored⟩ :=
    (down_restores_iff .postgres fun feed hfeed =>
      Option.isSome_iff_exists.mp (hgrouped feed hfeed)).mpr ⟨by decide, howns⟩
  exact ⟨db, old, reaches_of_runEvents hdb, hdown, hrestored⟩

/-- A feed that was added after the upgrade loses the targets of its group. -/
theorem down_loses_targets :
    ∃ db old, Reaches serve anyStep .fresh db ∧ FeedsGrouped db ∧ down .sqlite db = .ok old ∧
      ∃ feed ∈ db.externalSources.rows, feed.id = 6 ∧ feed.destinationGroupId = 5 ∧
        db.groupTargets.find? (5, 4) = some ⟨5, 4, some "override"⟩ ∧
        old.sourceTargets.find? (6, 4) = none := by
  have hrun : ((runEvents serve anyStep .fresh (feedCalls 6)).bind fun db =>
      (down .sqlite db).toOption.map fun old =>
        decide ((∀ feed ∈ db.externalSources.rows,
            (db.destinationGroups.find? feed.destinationGroupId).isSome) ∧
          ∃ feed ∈ db.externalSources.rows, feed.id = 6 ∧ feed.destinationGroupId = 5 ∧
            db.groupTargets.find? (5, 4) = some ⟨5, 4, some "override"⟩ ∧
            old.sourceTargets.find? (6, 4) = none)) = some true := by
    decide +kernel
  obtain ⟨db, hdb, hrun⟩ := Option.bind_eq_some_iff.mp hrun
  obtain ⟨old, hold, hfacts⟩ := Option.map_eq_some_iff.mp hrun
  obtain ⟨hgrouped, hlost⟩ := of_decide_eq_true hfacts
  exact ⟨db, old, reaches_of_runEvents hdb,
    fun feed hfeed => Option.isSome_iff_exists.mp (hgrouped feed hfeed),
    eq_ok_of_toOption hold, hlost⟩

end SimplyIpSync.Migration
