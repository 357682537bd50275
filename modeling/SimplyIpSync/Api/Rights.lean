import SimplyIpSync.Api.Leaves
import SimplyIpSync.Lib.Reach

/-!
# Rights and the frames of changes

The global rights of a key, the verbs it holds on a resource, and which requests touch the tables
behind them.  Every state reached from a bootstrapped database has exactly one Master row, and that
row names no parent (`rooted_of_reaches`).
-/

namespace SimplyIpSync.Api

open SimplyIpSync.Entities SimplyIpSync.Storage SimplyIpSync.Program SimplyIpSync.Reach

/-- A global right of a key. -/
inductive Right
  | manageKeys
  | manageSources
  | manageVaults
  deriving DecidableEq, Repr

/-- The key has the right. -/
def ApiKey.has (key : ApiKey) : Right → Bool
  | .manageKeys => key.canManageKeys
  | .manageSources => key.canManageSources
  | .manageVaults => key.canManageVaults

/-- A verb on a resource. -/
inductive Verb
  | sync
  | manage
  | viewLogs
  deriving DecidableEq, Repr

/-- The permission row has the verb. -/
def SyncPermission.has (permission : SyncPermission) : Verb → Bool
  | .sync => permission.canSync
  | .manage => permission.canManage
  | .viewLogs => permission.canViewLogs

/-- The payload of a grant has the verb. -/
def GrantPermissionPayload.has (payload : GrantPermissionPayload) : Verb → Bool
  | .sync => payload.canSync
  | .manage => payload.canManage
  | .viewLogs => payload.canViewLogs

/-- A resource, as permission rows name it. -/
structure Resource where
  resourceType : String
  id : Uuid
  deriving DecidableEq, Repr

/-- The permission row is about the resource. -/
def SyncPermission.isOn (permission : SyncPermission) (resource : Resource) : Prop :=
  permission.resourceType = resource.resourceType ∧ permission.resourceId = resource.id

/-- The key with this id has the right. -/
def HasRight (db : Database) (keyId : Uuid) (right : Right) : Prop :=
  ∃ key, db.apiKeys.find? keyId = some key ∧ key.has right = true

/-- The key with this id holds the verb on the resource. -/
def Holds (db : Database) (keyId : Uuid) (resource : Resource) (verb : Verb) : Prop :=
  ∃ permission ∈ db.permissions.rows, permission.apiKeyId = keyId ∧ permission.isOn resource ∧
    permission.has verb = true

theorem holds_of_permissionOf {db : Database} {keyId : Uuid} {resource : Resource} {verb : Verb}
    {permission : SyncPermission}
    (h : db.permissionOf keyId resource.resourceType resource.id = some permission)
    (hverb : permission.has verb = true) : Holds db keyId resource verb := by
  have hrow := List.find?_some h
  simp only [decide_eq_true_eq] at hrow
  exact ⟨permission, List.mem_of_find?_eq_some h, hrow.1, hrow.2, hverb⟩

/-! ### What follows the row write -/

section Frames

variable {fuel : ℕ} {env : Env} {caller : ApiKey} {db db₁ db₂ s : Database} {request : Request}

/-- The creator's permission touches no other table. -/
theorem grantToCreator_ok (h : grantToCreator env caller request db₁ = .ok db₂) :
    (request.createdType = none ∧ db₂ = db₁) ∨
      ∃ resourceType rows, request.createdType = some resourceType ∧
        db₁.permissions.insert? (env.fullPermission caller.id resourceType env.newId) = some rows ∧
        db₂ = { db₁ with permissions := rows } := by
  rw [grantToCreator] at h
  split at h
  · rename_i hnone
    exact Or.inl ⟨hnone, (Except.ok.inj h).symm⟩
  · rename_i resourceType hsome
    obtain ⟨rows, hinsert, hdb₂⟩ := insertPermission_ok h
    exact Or.inr ⟨resourceType, rows, hsome, hinsert, hdb₂⟩

theorem grantToCreator_apiKeys (h : grantToCreator env caller request db₁ = .ok db₂) :
    db₂.apiKeys = db₁.apiKeys := by
  rcases grantToCreator_ok h with ⟨-, rfl⟩ | ⟨_, rows, -, -, rfl⟩
  · rfl
  · rfl

/-- The keys a call leaves behind are those of its change. -/
theorem Leaves.apiKeys (h : Leaves fuel env caller db request s) :
    s.apiKeys = db.apiKeys ∨
      ∃ db₁, Change fuel env caller db request db₁ ∧ s.apiKeys = db₁.apiKeys := by
  cases h with
  | unchanged hquiet => exact Or.inl hquiet.apiKeys
  | written hchange hquiet => exact Or.inr ⟨_, hchange, hquiet.apiKeys⟩
  | granted hchange hgrant hquiet =>
      exact Or.inr ⟨_, hchange, hquiet.apiKeys.trans (grantToCreator_apiKeys hgrant)⟩

end Frames

/-! ### What a request makes of the keys -/

/-- How the `api_keys` table can change: a key without the Master flag is added under its creator,
the row of a key that the caller administers is rewritten, or a subtree goes. -/
inductive KeyChange (fuel : ℕ) (env : Env) (caller : ApiKey) (db db₁ : Database) : Prop
  | kept (h : db₁.apiKeys = db.apiKeys)
  | added (key : ApiKey) (hmaster : key.isMaster = false) (hparent : key.parentKeyId = some caller.id)
      (hscope : guardScopeElevation caller key.canManageKeys key.canManageSources
        key.canManageVaults = .ok ())
      (hinsert : db.apiKeys.insert? key = some db₁.apiKeys)
  | rewritten (id : Uuid) (target : ApiKey) (f : ApiKey → ApiKey) (hf : ∀ r, (f r).id = r.id)
      (htarget : db.apiKeys.find? id = some target) (hadmin : canAdminister caller target = true)
      (hkept : (f target).isMaster = target.isMaster ∧
        (f target).parentKeyId = target.parentKeyId)
      (hrights : ∀ right, (f target).has right = true → target.has right = true ∨
        caller.isMaster = true)
      (hmodify : db₁.apiKeys = db.apiKeys.modify id f hf)
  | removed (target : ApiKey) (subtree : List ApiKey)
      (htarget : db.apiKeys.find? target.id = some target) (hmaster : target.isMaster = false)
      (hadmin : canAdminister caller target = true)
      (hsubtree : db.subtree fuel target = some subtree)
      (hdelete : db₁.apiKeys = db.apiKeys.deleteWhere fun r => r.id ∈ subtree.map ApiKey.id)

section Keys

variable {fuel : ℕ} {env : Env} {caller : ApiKey} {db db₁ : Database} {request : Request}

/-- A payload that passes the scope check sets no right, unless the Master sends it. -/
theorem apply_has {payload : UpdateApiKeyPayload} {now : ℤ} {key : ApiKey} {right : Right}
    (hscope : guardScopeElevation caller (payload.canManageKeys.getD false)
      (payload.canManageSources.getD false) (payload.canManageVaults.getD false) = .ok ())
    (h : (payload.apply now key).has right = true) :
    key.has right = true ∨ caller.isMaster = true := by
  rcases guardScopeElevation_ok.mp hscope with hmaster | ⟨hkeys, hsources, hvaults⟩
  · exact Or.inr hmaster
  · left
    cases right with
    | manageKeys =>
        simp only [ApiKey.has, UpdateApiKeyPayload.apply] at h ⊢
        cases hfield : payload.canManageKeys with
        | none => simpa [hfield] using h
        | some value =>
            rw [hfield, Option.getD_some] at h hkeys
            exact absurd h (by simp [hkeys])
    | manageSources =>
        simp only [ApiKey.has, UpdateApiKeyPayload.apply] at h ⊢
        cases hfield : payload.canManageSources with
        | none => simpa [hfield] using h
        | some value =>
            rw [hfield, Option.getD_some] at h hsources
            exact absurd h (by simp [hsources])
    | manageVaults =>
        simp only [ApiKey.has, UpdateApiKeyPayload.apply] at h ⊢
        cases hfield : payload.canManageVaults with
        | none => simpa [hfield] using h
        | some value =>
            rw [hfield, Option.getD_some] at h hvaults
            exact absurd h (by simp [hvaults])

theorem keyChange_of_rotates {id : Uuid} {f : ApiKey → ApiKey} {hf : ∀ r, (f r).id = r.id}
    {row : ApiKey} (hrotates : Rotates caller db id)
    (hkept : ∀ key, (f key).isMaster = key.isMaster ∧ (f key).parentKeyId = key.parentKeyId ∧
      ∀ right, (f key).has right = key.has right)
    (hwrite : db.updateApiKey id f hf = .ok (row, db₁)) : KeyChange fuel env caller db db₁ := by
  obtain ⟨-, target, htarget, -, hadmin⟩ := hrotates
  obtain ⟨_, -, -, rfl⟩ := updateApiKey_ok hwrite
  obtain ⟨hmaster, hparent, hrights⟩ := hkept target
  refine .rewritten id target f hf htarget hadmin ⟨hmaster, hparent⟩ ?_ rfl
  intro right hright
  rw [hrights] at hright
  exact Or.inl hright

theorem Change.keyChange (h : Change fuel env caller db request db₁) :
    KeyChange fuel env caller db db₁ := by
  have hframe := h.frame
  cases h with
  | createApiKey _ hscope _ hwrite =>
      obtain ⟨rows, hinsert, rfl⟩ := insertApiKey_ok hwrite
      exact .added _ rfl rfl hscope hinsert
  | @updateApiKey id payload target _ _ _ htarget hadmin _ hscope hwrite =>
      obtain ⟨_, -, -, rfl⟩ := updateApiKey_ok hwrite
      exact .rewritten id target (payload.apply env.now) (fun _ => rfl) htarget hadmin
        ⟨rfl, rfl⟩ (fun _ => apply_has hscope) rfl
  | deleteApiKey _ htarget hmaster hadmin hsubtree _ =>
      have hself := htarget
      rw [← Table.key_of_find? htarget] at hself
      exact .removed _ _ hself hmaster hadmin hsubtree rfl
  | rotateApiKey hrotates hwrite =>
      refine keyChange_of_rotates hrotates ?_ hwrite
      intro key
      exact ⟨rfl, rfl, fun right => by cases right <;> rfl⟩
  | rotateSigningSecret hrotates _ hwrite =>
      refine keyChange_of_rotates hrotates ?_ hwrite
      intro key
      exact ⟨rfl, rfl, fun right => by cases right <;> rfl⟩
  | _ => exact .kept (hframe.apiKeys (by simp [Request.writes]))

/-- Every key that the walk adds to its start has a parent. -/
theorem parent_of_mem_walk {frontier : List Uuid} {result subtree : List ApiKey}
    (h : db.walk fuel frontier result = some subtree) {key : ApiKey} (hkey : key ∈ subtree) :
    key ∈ result ∨ (key ∈ db.apiKeys.rows ∧ ∃ id, key.parentKeyId = some id) := by
  induction fuel generalizing frontier result with
  | zero =>
      cases frontier with
      | nil =>
          rw [Database.walk, Option.some.injEq] at h
          exact Or.inl (h ▸ hkey)
      | cons id rest => cases h
  | succ fuel ih =>
      cases frontier with
      | nil =>
          rw [Database.walk, Option.some.injEq] at h
          exact Or.inl (h ▸ hkey)
      | cons id rest =>
          simp only [Database.walk] at h
          rcases ih h with hold | hnew
          · rcases List.mem_append.mp hold with hresult | hdaughter
            · exact Or.inl hresult
            · obtain ⟨hmem, hparent⟩ := List.mem_filter.mp hdaughter
              cases hid : key.parentKeyId with
              | none => simp [hid] at hparent
              | some parent => exact Or.inr ⟨hmem, parent, rfl⟩
          · exact Or.inr hnew

end Keys

/-! ### The Master row -/

/-- There is one Master row, and it names no parent. -/
def Rooted (db : Database) : Prop :=
  ∃ master ∈ db.apiKeys.rows, master.isMaster = true ∧ master.parentKeyId = none ∧
    ∀ key ∈ db.apiKeys.rows, key.isMaster = true → key = master

section Master

variable {fuel : ℕ} {env : Env} {caller : ApiKey} {db db₁ s : Database} {request : Request}

theorem Rooted.congr (h : Rooted db) (hkeys : s.apiKeys = db.apiKeys) : Rooted s := by
  rw [Rooted, hkeys]
  exact h

/-- In a rooted database the check of the Master claim changes no key model. -/
theorem Rooted.authenticate (h : Rooted db) {key : ApiKey} (hkey : key ∈ db.apiKeys.rows) :
    Master.authenticate db.apiKeys key = key := by
  obtain ⟨master, hmem, hmaster, -, hsole⟩ := h
  cases hflag : key.isMaster with
  | false => simp [Master.authenticate, hflag]
  | true =>
      obtain rfl := hsole key hkey hflag
      have hfilter : (db.apiKeys.rows.filter fun k => k.isMaster) = [key] := by
        have hnodup : db.apiKeys.rows.Nodup := List.Nodup.of_map _ db.apiKeys.nodup
        refine List.perm_singleton.mp ?_
        refine (List.perm_ext_iff_of_nodup (hnodup.filter _) (List.nodup_singleton _)).mpr ?_
        intro k
        rw [List.mem_filter, List.mem_singleton]
        constructor
        · rintro ⟨hk, hkmaster⟩
          exact hsole k hk hkmaster
        · rintro rfl
          exact ⟨hmem, hmaster⟩
      have hresolve : Master.resolve db.apiKeys = some key.id := by
        simp [Master.resolve, Master.soleMaster, Master.masters, hfilter, Except.toOption]
      simp [Master.authenticate, hflag, hresolve]

theorem Rooted.callerOf (h : Rooted db) {id : Uuid} {caller : ApiKey}
    (hcaller : db.callerOf id = some caller) : db.apiKeys.find? id = some caller := by
  obtain ⟨row, hrow, rfl⟩ := Option.map_eq_some_iff.mp hcaller
  rw [h.authenticate (Table.find?_eq_some_iff.mp hrow).1]
  exact hrow

/-- A key without a parent is in no subtree but its own. -/
theorem not_mem_subtree {target master : ApiKey} {subtree : List ApiKey}
    (htarget : db.apiKeys.find? target.id = some target) (hne : target ≠ master)
    (hsubtree : db.subtree fuel target = some subtree) (hmem : master ∈ db.apiKeys.rows)
    (hparent : master.parentKeyId = none) : master.id ∉ subtree.map ApiKey.id := by
  intro hin
  obtain ⟨key, hkey, hid⟩ := List.mem_map.mp hin
  have hself : key ∈ db.apiKeys.rows → key = master := fun hk =>
    List.inj_on_of_nodup_map db.apiKeys.nodup hk hmem hid
  rcases parent_of_mem_walk hsubtree hkey with hroot | ⟨hk, parent, hkparent⟩
  · obtain rfl := List.mem_singleton.mp hroot
    exact hne (hself (Table.find?_eq_some_iff.mp htarget).1)
  · rw [hself hk, hparent] at hkparent
    cases hkparent

/-- **One step.**  No change of the keys adds, removes or reparents a Master row. -/
theorem KeyChange.rooted (h : KeyChange fuel env caller db db₁) (hrooted : Rooted db) :
    Rooted db₁ := by
  cases h with
  | kept hkeys => exact hrooted.congr hkeys
  | added key hmaster _ _ hinsert =>
      obtain ⟨master, hmem, hflag, hparent, hsole⟩ := hrooted
      refine ⟨master, (Table.mem_insert? hinsert).mpr (Or.inl hmem), hflag, hparent, ?_⟩
      intro k hk hkmaster
      rcases (Table.mem_insert? hinsert).mp hk with hold | rfl
      · exact hsole k hold hkmaster
      · rw [hmaster] at hkmaster
        cases hkmaster
  | rewritten id target f hf htarget hadmin hkept _ hmodify =>
      obtain ⟨master, hmem, hflag, hparent, hsole⟩ := hrooted
      obtain ⟨htargetmem, htargetid⟩ := Table.find?_eq_some_iff.mp htarget
      have hrow : ∀ r ∈ db.apiKeys.rows, r.id = id → r = target := by
        intro r hr hid
        exact Option.some.inj ((Table.find?_eq_some_iff.mpr ⟨hr, hid⟩).symm.trans htarget)
      have hflag' : ∀ r ∈ db.apiKeys.rows,
          (if r.id = id then f r else r).isMaster = r.isMaster ∧
            (if r.id = id then f r else r).parentKeyId = r.parentKeyId := by
        intro r hr
        by_cases hid : r.id = id
        · rw [if_pos hid, hrow r hr hid]
          exact hkept
        · rw [if_neg hid]
          exact ⟨rfl, rfl⟩
      rw [Rooted, hmodify]
      refine ⟨if master.id = id then f master else master, List.mem_map.mpr ⟨master, hmem, rfl⟩,
        (hflag' master hmem).1.trans hflag, (hflag' master hmem).2.trans hparent, ?_⟩
      intro key hkey hkeymaster
      obtain ⟨r, hr, rfl⟩ := List.mem_map.mp hkey
      rw [(hflag' r hr).1] at hkeymaster
      rw [hsole r hr hkeymaster]
  | removed target subtree htarget hmaster _ hsubtree hdelete =>
      obtain ⟨master, hmem, hflag, hparent, hsole⟩ := hrooted
      have hne : target ≠ master := by
        rintro rfl
        rw [hflag] at hmaster
        cases hmaster
      have hstays := not_mem_subtree htarget hne hsubtree hmem hparent
      rw [Rooted, hdelete]
      refine ⟨master, Table.mem_deleteWhere.mpr ⟨hmem, decide_eq_false hstays⟩, hflag, hparent, ?_⟩
      intro key hkey hkeymaster
      exact hsole key (Table.mem_deleteWhere.mp hkey).1 hkeymaster

theorem Leaves.rooted (h : Leaves fuel env caller db request s) (hrooted : Rooted db) :
    Rooted s := by
  rcases h.apiKeys with hkept | ⟨db₁, hchange, hkeys⟩
  · exact hrooted.congr hkept
  · exact (hchange.keyChange.rooted hrooted).congr hkeys

theorem rooted_bootstrapped (env : Env) (plaintextKey envelope : String) :
    Rooted (env.bootstrapped plaintextKey envelope) := by
  refine ⟨env.masterKey plaintextKey envelope, List.mem_singleton.mpr rfl, rfl, rfl, ?_⟩
  intro key hkey _
  exact List.mem_singleton.mp hkey

theorem rooted_of_serve {call : Call} (hrooted : Rooted db) (h : serve db call = some s) :
    Rooted s := by
  obtain ⟨caller, -, hleaves⟩ := leaves_of_serve h
  exact hleaves.rooted hrooted

/-- **Every run** keeps the one Master row. -/
theorem rooted_of_reaches {good : Database → Call → Prop} (hrooted : Rooted db)
    (h : Reaches serve good db s) : Rooted s :=
  h.invariant hrooted fun _ _ _ hs _ hserve => rooted_of_serve hs hserve

end Master

end SimplyIpSync.Api
