import SimplyIpSync.Api.Lineage
import SimplyIpSync.Api.Subtree

/-!
# No orphans (`delete_api_key`)

Neither `parent_key_id` nor `owner_key_id` is a foreign key; what they name is in the hands of the
handlers.  A key is created below the key that asks for it, and so is a resource; a deletion takes
the whole subtree of a key along (`collect_subtree`) and is refused as long as a key in it owns
something (`owned_resource_inventory`).

`no_orphans`: while calls follow one another, whatever they are and wherever they fail, every key
descends from the Master, and whoever owns something exists.  Calls side by side do leave orphans:
a key may be created under one that is deleted meanwhile.
-/

namespace SimplyIpSync.Api

open SimplyIpSync.Entities SimplyIpSync.Storage SimplyIpSync.Program SimplyIpSync.Reach

/-- The key a row stands under is stored. -/
def Held (db : Database) : Prop :=
  ∀ table ∈ heldTables, ∀ row ∈ db.holders table, ∀ p, row.2 = some p → db.hasKey p = true

/-- Every key is the Master or descends from it. -/
def Rallied (db : Database) : Prop :=
  ∀ key ∈ db.apiKeys.rows, key.isMaster = true ∨
    ∃ master ∈ db.apiKeys.rows, master.isMaster = true ∧ db.HasAncestor key.id master.id

section Step

variable {fuel : ℕ} {env : Env} {caller : ApiKey} {db db₁ s : Database} {request : Request}

/-! ### Where rows stand -/

section OneTable

variable {α : Type} {key : α → Uuid} {t t' : Table key} {place : α → Uuid × Option Uuid}
  {row : Uuid × Option Uuid}

theorem place_of_insert? {new : α} (hinsert : t.insert? new = some t')
    (hrow : row ∈ t'.rows.map place) : row ∈ t.rows.map place ∨ row = place new := by
  obtain ⟨r, hr, rfl⟩ := List.mem_map.mp hrow
  rcases (Table.mem_insert? hinsert).mp hr with hold | rfl
  · exact Or.inl (List.mem_map_of_mem hold)
  · exact Or.inr rfl

theorem place_of_modify {k : Uuid} {f : α → α}
    (hrow : row ∈ (t.rows.map fun r => if key r = k then f r else r).map place)
    (hplace : ∀ r, place (f r) = place r) : row ∈ t.rows.map place := by
  obtain ⟨r, hr, rfl⟩ := List.mem_map.mp hrow
  obtain ⟨old, hold, rfl⟩ := List.mem_map.mp hr
  split
  · rw [hplace]
    exact List.mem_map_of_mem hold
  · exact List.mem_map_of_mem hold

theorem place_of_deleteWhere {gone : α → Bool} (hrow : row ∈ (t.deleteWhere gone).rows.map place) :
    row ∈ t.rows.map place := by
  obtain ⟨r, hr, rfl⟩ := List.mem_map.mp hrow
  exact List.mem_map_of_mem (Table.mem_deleteWhere.mp hr).1

/-- Rows found alike up to what the place does not depend on. -/
theorem place_of_alike {β : Type} {shape : α → β}
    (halike : ∀ k, (t'.find? k).map shape = (t.find? k).map shape)
    (hplace : ∀ old r, shape old = shape r → key old = key r → place old = place r)
    (hrow : row ∈ t'.rows.map place) : row ∈ t.rows.map place := by
  obtain ⟨r, hr, rfl⟩ := List.mem_map.mp hrow
  have hsame := halike (key r)
  rw [Table.find?_eq_some_iff.mpr ⟨hr, rfl⟩] at hsame
  obtain ⟨old, hold, hshape⟩ := Option.map_eq_some_iff.mp hsame.symm
  obtain ⟨hmem, hid⟩ := Table.find?_eq_some_iff.mp hold
  exact List.mem_map.mpr ⟨old, hmem, hplace old r hshape hid⟩

end OneTable

/-- **Every row stands where it stood, or under the caller.** -/
theorem Change.stands (h : Change fuel env caller db request db₁) {table : TableName}
    (htable : table ∈ heldTables) {row : Uuid × Option Uuid} (hrow : row ∈ db₁.holders table) :
    row ∈ db.holders table ∨ row.2 = some caller.id := by
  have hframe := h.frame
  simp only [heldTables, List.mem_cons, List.not_mem_nil, or_false] at htable
  rcases htable with rfl | rfl | rfl | rfl
  · -- keys
    cases h with
    | createApiKey _ _ _ hwrite =>
        obtain ⟨_, hinsert, rfl⟩ := insertApiKey_ok hwrite
        exact (place_of_insert? hinsert hrow).imp_right fun hnew => by rw [hnew]; rfl
    | updateApiKey _ _ _ _ _ hwrite | rotateApiKey _ hwrite | rotateSigningSecret _ _ hwrite =>
        obtain ⟨_, -, -, rfl⟩ := updateApiKey_ok hwrite
        exact Or.inl (place_of_modify hrow fun _ => rfl)
    | deleteApiKey => exact Or.inl (place_of_deleteWhere hrow)
    | _ =>
        rw [Database.holders, hframe.apiKeys (by simp [Request.writes])] at hrow
        exact Or.inl hrow
  · -- endpoints
    cases h with
    | createVaultEndpoint _ _ hwrite =>
        obtain ⟨_, hinsert, rfl⟩ := insertVaultEndpoint_ok hwrite
        exact (place_of_insert? hinsert hrow).imp_right fun hnew => by rw [hnew]; rfl
    | updateVaultEndpoint _ _ _ hwrite =>
        obtain ⟨_, -, -, rfl⟩ := updateVaultEndpoint_ok hwrite
        exact Or.inl (place_of_modify hrow fun _ => rfl)
    | deleteVaultEndpoint => exact Or.inl (place_of_deleteWhere hrow)
    | _ =>
        rw [Database.holders, hframe.vaultEndpoints (by simp [Request.writes])] at hrow
        exact Or.inl hrow
  · -- groups
    cases h with
    | createDestinationGroup _ _ _ hwrite htargets =>
        obtain ⟨_, rfl⟩ := addGroupTargets_ok htargets
        obtain ⟨_, hinsert, rfl⟩ := insertDestinationGroup_ok hwrite
        exact (place_of_insert? hinsert hrow).imp_right fun hnew => by rw [hnew]; rfl
    | updateDestinationGroup _ _ _ _ hwrite htargets =>
        obtain ⟨_, rfl⟩ := setGroupTargets_ok htargets
        obtain ⟨_, -, -, rfl⟩ := updateDestinationGroup_ok hwrite
        exact Or.inl (place_of_modify hrow fun _ => rfl)
    | deleteDestinationGroup => exact Or.inl (place_of_deleteWhere hrow)
    | _ =>
        rw [Database.holders, hframe.destinationGroups (by simp [Request.writes])] at hrow
        exact Or.inl hrow
  · -- tasks
    cases h with
    | createVaultSyncTask _ _ hwrite htargets =>
        obtain ⟨_, rfl⟩ := addTaskTargets_ok htargets
        obtain ⟨_, hinsert, rfl⟩ := insertVaultSyncTask_ok hwrite
        exact (place_of_insert? hinsert hrow).imp_right fun hnew => by rw [hnew]; rfl
    | updateVaultSyncTask _ _ _ hwrite htargets =>
        obtain ⟨_, rfl⟩ := setTaskTargets_ok htargets
        obtain ⟨_, -, -, rfl⟩ := updateVaultSyncTask_ok hwrite
        exact Or.inl (place_of_modify hrow fun _ => rfl)
    | deleteVaultSyncTask | deleteVaultEndpoint => exact Or.inl (place_of_deleteWhere hrow)
    | _ =>
        rw [Database.holders, hframe.vaultSyncTasks (by simp [Request.writes])] at hrow
        exact Or.inl hrow

/-- Logs and stamps move no row. -/
theorem Quiet.holders (h : Quiet db s) {table : TableName} (htable : table ∈ heldTables)
    {row : Uuid × Option Uuid} (hrow : row ∈ s.holders table) : row ∈ db.holders table := by
  simp only [heldTables, List.mem_cons, List.not_mem_nil, or_false] at htable
  rcases htable with rfl | rfl | rfl | rfl
  · rwa [Database.holders, h.apiKeys] at hrow
  · rwa [Database.holders, h.vaultEndpoints] at hrow
  · refine place_of_alike h.destinationGroups ?_ hrow
    intro old r hshape hid
    have howner : old.unstamped.ownerKeyId = r.unstamped.ownerKeyId := by rw [hshape]
    exact Prod.ext hid howner
  · refine place_of_alike h.vaultSyncTasks ?_ hrow
    intro old r hshape hid
    have howner : old.unstamped.ownerKeyId = r.unstamped.ownerKeyId := by rw [hshape]
    exact Prod.ext hid howner

/-- A stored key stays, and what stands under a key that goes does not stay. -/
theorem Change.hasKey (h : Change fuel env caller db request db₁) (hlinked : Linked db)
    (hcaller : db.hasKey caller.id = true) {table : TableName} (htable : table ∈ heldTables)
    {row : Uuid × Option Uuid} (hrow : row ∈ db₁.holders table) {p : Uuid} (hp : row.2 = some p)
    (hkey : db.hasKey p = true) : db₁.hasKey p = true := by
  have hframe := h.frame
  have hkeys := h.keyChange
  have hrewritten : ∀ {id f hf row}, db.updateApiKey id f hf = .ok (row, db₁) →
      db₁.hasKey p = true := by
    intro id f hf row hwrite
    obtain ⟨_, -, -, rfl⟩ := updateApiKey_ok hwrite
    rwa [Database.hasKey, Table.find?_modify, Option.isSome_map]
  cases h with
  | createApiKey _ _ _ hwrite =>
      obtain ⟨_, hinsert, rfl⟩ := insertApiKey_ok hwrite
      obtain ⟨r, hr⟩ := Option.isSome_iff_exists.mp hkey
      rw [Database.hasKey, Table.find?_insert?_of_find? hinsert hr]
      rfl
  | updateApiKey _ _ _ _ _ hwrite => exact hrewritten hwrite
  | rotateApiKey _ hwrite => exact hrewritten hwrite
  | rotateSigningSecret _ _ hwrite => exact hrewritten hwrite
  | @deleteApiKey _ _ subtree _ _ _ _ hsubtree howned =>
      obtain ⟨hvaults, hgroups, htasks⟩ := howned
      obtain ⟨r, hr⟩ := Option.isSome_iff_exists.mp hkey
      have hstays : p ∉ subtree.map ApiKey.id → db.hasKey p = true →
          (db.deleteApiKeys (subtree.map ApiKey.id)).2.hasKey p = true := by
        intro hout _
        rw [Database.hasKey, Database.deleteApiKeys, Table.find?_deleteWhere_of_find? hr]
        · rfl
        · rw [Table.key_of_find? hr]
          exact decide_eq_false hout
      have hfree : ∀ {ρ : Type} {rows : List ρ} {owner : ρ → Option Uuid} {r : ρ},
          (rows.filter fun r => isOwned (subtree.map ApiKey.id) (owner r)) = [] → r ∈ rows →
          owner r = some p → p ∉ subtree.map ApiKey.id := by
        intro ρ rows owner r hnone hr howner hin
        have hnot := List.filter_eq_nil_iff.mp hnone r hr
        rw [howner] at hnot
        exact hnot (decide_eq_true hin)
      obtain ⟨id, owner⟩ := row
      obtain rfl : owner = some p := hp
      simp only [heldTables, List.mem_cons, List.not_mem_nil, or_false] at htable
      rcases htable with rfl | rfl | rfl | rfl
      · obtain ⟨key, hmem, hplace⟩ := List.mem_map.mp hrow
        exact hkeys.parents hlinked hcaller hmem (Prod.mk.inj hplace).2
      · obtain ⟨r, hmem, hplace⟩ := List.mem_map.mp hrow
        exact hstays (hfree hvaults hmem (Prod.mk.inj hplace).2) hkey
      · obtain ⟨r, hmem, hplace⟩ := List.mem_map.mp hrow
        exact hstays (hfree hgroups hmem (Prod.mk.inj hplace).2) hkey
      · obtain ⟨r, hmem, hplace⟩ := List.mem_map.mp hrow
        exact hstays (hfree htasks hmem (Prod.mk.inj hplace).2) hkey
  | _ => rwa [Database.hasKey, hframe.apiKeys (by simp [Request.writes])]

/-- **A call** leaves the rows of a change, or none that is new. -/
theorem Leaves.holders (h : Leaves fuel env caller db request s) :
    Quiet db s ∨ ∃ db₁, Change fuel env caller db request db₁ ∧ s.apiKeys = db₁.apiKeys ∧
      ∀ table ∈ heldTables, ∀ row ∈ s.holders table, row ∈ db₁.holders table := by
  cases h with
  | unchanged hquiet => exact Or.inl hquiet
  | written hchange hquiet =>
      exact Or.inr ⟨_, hchange, hquiet.apiKeys, fun _ htable _ => hquiet.holders htable⟩
  | granted hchange hgrant hquiet =>
      right
      refine ⟨_, hchange, hquiet.apiKeys.trans (grantToCreator_apiKeys hgrant), ?_⟩
      intro table htable row hrow
      have hwritten := hquiet.holders htable hrow
      rcases grantToCreator_ok hgrant with ⟨-, rfl⟩ | ⟨_, _, -, -, rfl⟩
      · exact hwritten
      · cases table <;> exact hwritten

theorem Leaves.held (h : Leaves fuel env caller db request s) (hlinked : Linked db)
    (hcaller : db.hasKey caller.id = true) (hheld : Held db) : Held s := by
  intro table htable row hrow p hp
  rcases h.holders with hquiet | ⟨db₁, hchange, hkeys, hrows⟩
  · rw [Database.hasKey, hquiet.apiKeys]
    exact hheld table htable row (hquiet.holders htable hrow) p hp
  · have hwritten := hrows table htable row hrow
    rw [Database.hasKey, hkeys]
    refine hchange.hasKey hlinked hcaller htable hwritten hp ?_
    rcases hchange.stands htable hwritten with hold | hnew
    · exact hheld table htable row hold p hp
    · obtain rfl := Option.some.inj (hp.symm.trans hnew)
      exact hcaller

/-! ### Descent from the Master -/

/-- A key that stays keeps its place. -/
theorem KeyChange.place (h : KeyChange fuel env caller db db₁) {id : Uuid} {old key : ApiKey}
    (hold : db.apiKeys.find? id = some old) (hkey : db₁.apiKeys.find? id = some key) :
    key.parentKeyId = old.parentKeyId ∧ key.isMaster = old.isMaster := by
  cases h with
  | kept hkeys =>
      rw [hkeys, hold] at hkey
      obtain rfl := Option.some.inj hkey
      exact ⟨rfl, rfl⟩
  | added new _ _ _ hinsert =>
      rw [Table.find?_insert?_of_find? hinsert hold] at hkey
      obtain rfl := Option.some.inj hkey
      exact ⟨rfl, rfl⟩
  | rewritten k target f hf htarget _ hkept _ hmodify =>
      rw [hmodify] at hkey
      by_cases hid : k = id
      · subst hid
        rw [Table.find?_modify_self, hold] at hkey
        obtain rfl := Option.some.inj (hold.symm.trans htarget)
        obtain rfl := Option.some.inj hkey
        exact hkept.symm
      · rw [Table.find?_modify_of_ne _ _ _ (Ne.symm hid), hold] at hkey
        obtain rfl := Option.some.inj hkey
        exact ⟨rfl, rfl⟩
  | removed target subtree _ _ _ _ hdelete =>
      rw [hdelete, Table.find?_deleteWhere, hold, Option.filter_eq_some_iff] at hkey
      obtain rfl := Option.some.inj hkey.1
      exact ⟨rfl, rfl⟩

/-- A key that is new stands below the caller. -/
theorem KeyChange.below (h : KeyChange fuel env caller db db₁) {key : ApiKey}
    (hkey : key ∈ db₁.apiKeys.rows) (hnew : db.apiKeys.find? key.id = none) :
    key.parentKeyId = some caller.id := by
  have hnone : key ∉ db.apiKeys.rows := fun hold => by
    rw [Table.find?_eq_some_iff.mpr ⟨hold, rfl⟩] at hnew
    cases hnew
  cases h with
  | kept hkeys => exact absurd (hkeys ▸ hkey) hnone
  | added new _ hparent _ hinsert =>
      rcases (Table.mem_insert? hinsert).mp hkey with hold | rfl
      · exact absurd hold hnone
      · exact hparent
  | rewritten k target f hf _ _ _ _ hmodify =>
      rw [hmodify] at hkey
      obtain ⟨old, hold, rfl⟩ := List.mem_map.mp hkey
      have hid : (if old.id = k then f old else old).id = old.id := by
        split
        · exact hf old
        · rfl
      rw [hid, Table.find?_eq_some_iff.mpr ⟨hold, rfl⟩] at hnew
      cases hnew
  | removed target subtree _ _ _ _ hdelete =>
      rw [hdelete] at hkey
      exact absurd (Table.mem_deleteWhere.mp hkey).1 hnone

/-- The ancestors of a key stay as long as it does. -/
theorem KeyChange.hasAncestor (h : KeyChange fuel env caller db db₁) (hlinked : Linked db₁)
    {id a : Uuid} (hid : db₁.hasKey id = true) (hancestor : db.HasAncestor id a) :
    db₁.HasAncestor id a ∧ db₁.hasKey a = true := by
  have hup : ∀ {k p r}, db.apiKeys.find? k = some r → r.parentKeyId = some p →
      db₁.hasKey k = true →
      ∃ key, db₁.apiKeys.find? k = some key ∧ key.parentKeyId = some p ∧ db₁.hasKey p = true := by
    intro k p r hr hparent hk
    obtain ⟨key, hkey⟩ := Option.isSome_iff_exists.mp hk
    have hsame := (h.place hr hkey).1.trans hparent
    exact ⟨key, hkey, hsame, hlinked.parents key (Table.find?_eq_some_iff.mp hkey).1 p hsame⟩
  induction hancestor with
  | parent hr hparent =>
      obtain ⟨key, hkey, hsame, hstays⟩ := hup hr hparent hid
      exact ⟨.parent hkey hsame, hstays⟩
  | above _ hr hparent ih =>
      obtain ⟨hbelow, hp⟩ := ih
      obtain ⟨key, hkey, hsame, hstays⟩ := hup hr hparent hp
      exact ⟨.above hbelow hkey hsame, hstays⟩

theorem KeyChange.rallied (h : KeyChange fuel env caller db db₁) (hlinked : Linked db₁)
    (hcaller : db.hasKey caller.id = true) (hrallied : Rallied db) : Rallied db₁ := by
  -- the keys that were there before
  have hold : ∀ key ∈ db₁.apiKeys.rows, db.hasKey key.id = true → key.isMaster = true ∨
      ∃ master ∈ db₁.apiKeys.rows, master.isMaster = true ∧
        db₁.HasAncestor key.id master.id := by
    intro key hkey hstood
    obtain ⟨old, hrow⟩ := Option.isSome_iff_exists.mp hstood
    have hfind := Table.find?_eq_some_iff.mpr ⟨hkey, rfl⟩
    obtain ⟨holdmem, hid⟩ := Table.find?_eq_some_iff.mp hrow
    rcases hrallied old holdmem with hmaster | ⟨master, hmem, hmaster, hancestor⟩
    · exact Or.inl ((h.place hrow hfind).2.trans hmaster)
    · right
      have hstays : db₁.hasKey key.id = true := by rw [Database.hasKey, hfind]; rfl
      rw [hid] at hancestor
      obtain ⟨hbelow, hkept⟩ := h.hasAncestor hlinked hstays hancestor
      obtain ⟨row, hmasterrow⟩ := Option.isSome_iff_exists.mp hkept
      obtain ⟨hrowmem, hrowid⟩ := Table.find?_eq_some_iff.mp hmasterrow
      have hsame := (h.place (Table.find?_eq_some_iff.mpr ⟨hmem, rfl⟩) hmasterrow).2
      exact ⟨row, hrowmem, hsame.trans hmaster, hrowid.symm ▸ hbelow⟩
  intro key hkey
  cases hstood : db.apiKeys.find? key.id with
  | some old => exact hold key hkey (by rw [Database.hasKey, hstood]; rfl)
  | none =>
      right
      have hparent := h.below hkey hstood
      have hfind := Table.find?_eq_some_iff.mpr ⟨hkey, rfl⟩
      obtain ⟨creator, hcreator⟩ := Option.isSome_iff_exists.mp
        (hlinked.parents key hkey caller.id hparent)
      obtain ⟨hmem, hid⟩ := Table.find?_eq_some_iff.mp hcreator
      rcases hold creator hmem (hid ▸ hcaller) with hmaster | ⟨master, hmaster, hflag, hbelow⟩
      · exact ⟨creator, hmem, hmaster, .parent hfind (hid ▸ hparent)⟩
      · exact ⟨master, hmaster, hflag, .of_parent hfind (hid ▸ hparent) hbelow⟩

theorem Rallied.congr (hrallied : Rallied db) (hkeys : s.apiKeys = db.apiKeys) : Rallied s := by
  have hup : ∀ {id a}, db.HasAncestor id a → s.HasAncestor id a := by
    intro id a h
    induction h with
    | parent hr hparent => exact .parent (hkeys ▸ hr) hparent
    | above _ hr hparent ih => exact .above ih (hkeys ▸ hr) hparent
  intro key hkey
  rw [hkeys] at hkey
  refine (hrallied key hkey).imp_right ?_
  rintro ⟨master, hmem, hmaster, hbelow⟩
  exact ⟨master, hkeys ▸ hmem, hmaster, hup hbelow⟩

theorem Leaves.rallied (h : Leaves fuel env caller db request s) (hlinked : Linked db)
    (hcaller : db.hasKey caller.id = true) (hrallied : Rallied db) : Rallied s := by
  rcases h.apiKeys with hkeys | ⟨db₁, hchange, hkeys⟩
  · exact hrallied.congr hkeys
  · exact (hchange.keyChange.rallied (hchange.linked hlinked hcaller) hcaller hrallied).congr hkeys

/-! ### Runs -/

/-- What is kept along a run. -/
structure Peopled (db : Database) : Prop where
  rooted : Rooted db
  linked : Linked db
  rallied : Rallied db
  held : Held db

theorem peopled_bootstrapped (env : Env) (plaintextKey envelope : String) :
    Peopled (env.bootstrapped plaintextKey envelope) where
  rooted := rooted_bootstrapped env plaintextKey envelope
  linked := linked_bootstrapped env plaintextKey envelope
  rallied := by
    intro key hkey
    obtain rfl := List.mem_singleton.mp hkey
    exact Or.inl rfl
  held := by
    intro table htable row hrow p hp
    simp only [heldTables, List.mem_cons, List.not_mem_nil, or_false] at htable
    rcases htable with rfl | rfl | rfl | rfl
    · obtain rfl := List.mem_singleton.mp hrow
      cases hp
    · cases hrow
    · cases hrow
    · cases hrow

/-- **One call.** -/
theorem Peopled.serve {call : Call} (h : Peopled db) (hserve : serve db call = some s) :
    Peopled s := by
  obtain ⟨caller, hcaller, hleaves⟩ := leaves_of_serve hserve
  have hkey : db.hasKey caller.id = true := by
    rw [callerOf_id hcaller]
    exact hasKey_of_callerOf hcaller
  exact ⟨hleaves.rooted h.rooted, hleaves.linked h.linked hkey,
    hleaves.rallied h.linked hkey h.rallied, hleaves.held h.linked hkey h.held⟩

end Step

/-- **No orphans.**  However many calls have been made, one after the other, by whomever, and
wherever they failed: every key is the Master or descends from it, and the key that a key, an
endpoint, a group or a task stands under exists. -/
theorem no_orphans {env : Env} {plaintextKey envelope : String} {db : Database}
    (hrun : Reaches serve anyStep (env.bootstrapped plaintextKey envelope) db) :
    Rallied db ∧ Held db := by
  have hpeopled : Peopled db :=
    hrun.invariant (peopled_bootstrapped env plaintextKey envelope) fun _ _ _ h _ => h.serve
  exact ⟨hpeopled.rallied, hpeopled.held⟩

/-- The Master deletes key 2, which takes its daughter 3 along, and then fails to delete key 4, as
its daughter 5 owns an endpoint. -/
theorem no_orphans_deletion :
    ∃ db, Reaches serve anyStep .fresh db ∧
      db.holders .apiKeys = [(1, none), (4, some 1), (5, some 4)] ∧
      db.holders .vaultEndpoints = [(6, some 5)] ∧ Rallied db ∧ Held db := by
  have hrun : ((runEvents serve anyStep .fresh
      [.plain 1 2 (.createApiKey (.plain "manager" true false false)),
        .plain 2 3 (.createApiKey (.plain "daughter" false false false)),
        .plain 1 4 (.createApiKey (.plain "other" true false true)),
        .plain 4 5 (.createApiKey (.plain "owner" false false false)),
        .plain 1 9 (.updateApiKey 5 (.rights none (some true))),
        .plain 5 6 (.createVaultEndpoint ⟨"endpoint", "", "", "", none⟩),
        .plain 1 7 (.deleteApiKey 2), .plain 1 8 (.deleteApiKey 4)]).map fun db =>
      decide (db.holders .apiKeys = [(1, none), (4, some 1), (5, some 4)] ∧
        db.holders .vaultEndpoints = [(6, some 5)])) = some true := by
    decide +kernel
  obtain ⟨db, hdb, hfacts⟩ := Option.map_eq_some_iff.mp hrun
  obtain ⟨hkeys, hendpoints⟩ := of_decide_eq_true hfacts
  have hreaches : Reaches serve anyStep .fresh db := reaches_of_runEvents hdb
  exact ⟨db, hreaches, hkeys, hendpoints, no_orphans hreaches⟩

end SimplyIpSync.Api
