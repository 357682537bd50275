import SimplyIpSync.Api.Lifecycle

/-!
# Daughters and their creators (`RBAC_MODEL.md`, §1)

No check relates what a key gets to what its creator has: a grant is bounded by what the granting
key holds, a revocation asks for the right to manage alone, and neither looks at `parent_key_id`
(R3).  A daughter outranks its creator once somebody else gives it more, its creator loses
something, it creates a resource, or it is demoted from a manager that has more.

`Oversteps` says when a request does one of these.  In every run without such a request no daughter
outranks its creator (`daughters_never_outrank`).
-/

namespace SimplyIpSync.Api

open SimplyIpSync.Entities SimplyIpSync.Storage SimplyIpSync.Program SimplyIpSync.Reach

/-! ### What a key may do -/

/-- A global right, or a verb on a resource. -/
inductive Power
  | right (right : Right)
  | verb (resource : Resource) (verb : Verb)
  deriving DecidableEq, Repr

/-- The key with this id has the power. -/
def Has (db : Database) (keyId : Uuid) : Power → Prop
  | .right right => HasRight db keyId right
  | .verb resource verb => Holds db keyId resource verb

/-- Key `k` has been created by key `p`, which exists and is not the Master. -/
def Under (db : Database) (k p : Uuid) : Prop :=
  (∃ key, db.apiKeys.find? k = some key ∧ key.parentKeyId = some p) ∧
    ∃ creator, db.apiKeys.find? p = some creator ∧ creator.isMaster = false

/-- Key `k` is a daughter of key `p`: it does not manage keys itself. -/
def Daughter (db : Database) (k p : Uuid) : Prop :=
  Under db k p ∧ ¬HasRight db k .manageKeys

/-- No daughter outranks its creator. -/
def NeverOutranks (db : Database) : Prop :=
  ∀ k p, Daughter db k p → ∀ power, Has db k power → Has db p power

/-- What a `PATCH` of a key does to a right. -/
def UpdateApiKeyPayload.sets (payload : UpdateApiKeyPayload) : Right → Option Bool
  | .manageKeys => payload.canManageKeys
  | .manageSources => payload.canManageSources
  | .manageVaults => payload.canManageVaults

/-- The request gives the power to key `k`. -/
def Request.gives (env : Env) (caller : ApiKey) (request : Request) (k : Uuid) : Power → Prop
  | .right right => ∃ payload, request = .updateApiKey k payload ∧ payload.sets right = some true
  | .verb resource verb =>
      (∃ payload, request = .grantKeyPermission k payload ∧
        payload.resourceType = resource.resourceType ∧ payload.resourceId = resource.id ∧
        payload.has verb = true) ∨
      (k = caller.id ∧ request.createdType = some resource.resourceType ∧
        env.newId = resource.id)

/-- The request takes the power from key `k`, if it has it. -/
def Request.takes (db : Database) (request : Request) (k : Uuid) : Power → Prop
  | .right right => ∃ payload, request = .updateApiKey k payload ∧ payload.sets right = some false
  | .verb resource verb =>
      (∃ payload, request = .grantKeyPermission k payload ∧
        payload.resourceType = resource.resourceType ∧ payload.resourceId = resource.id ∧
        payload.has verb = false) ∨
      ∃ permissionId permission, request = .revokeKeyPermission k permissionId ∧
        db.permissions.find? permissionId = some permission ∧ permission.isOn resource ∧
        permission.has verb = true

/-- **What makes a daughter outrank its creator:** it is given something its creator lacks,
something it has is taken from its creator, or it is demoted from a manager and keeps more than its
creator has. -/
inductive Oversteps (env : Env) (caller : ApiKey) (db : Database) (request : Request) : Prop
  | given {k p : Uuid} {power : Power} (hdaughter : Daughter db k p)
      (hstays : ¬request.gives env caller k (.right .manageKeys))
      (hgives : request.gives env caller k power) (hlacks : ¬Has db p power)
  | taken {k p : Uuid} {power : Power} (hdaughter : Daughter db k p)
      (htakes : request.takes db p power) (hhas : Has db k power)
  | demoted {k p : Uuid} {power : Power} (hunder : Under db k p)
      (hmanages : HasRight db k .manageKeys) (htakes : request.takes db k (.right .manageKeys))
      (hkeeps : (Has db k power ∧ ¬request.takes db k power) ∨ request.gives env caller k power)
      (hlacks : ¬Has db p power)

/-- A call that passes its checks and oversteps. -/
def OverstepsBy (db : Database) (call : Call) : Prop :=
  ∃ caller, db.callerOf call.callerId = some caller ∧
    Accepts call.fuel call.env caller db call.request ∧
    Oversteps call.env caller db call.request

section Step

variable {fuel : ℕ} {env : Env} {caller : ApiKey} {db db₁ db₂ s : Database} {request : Request}

/-- The key that a request gives something to or takes something from. -/
def Request.subject (caller : ApiKey) : Request → Uuid
  | .updateApiKey id _ => id
  | .grantKeyPermission id _ => id
  | .revokeKeyPermission id _ => id
  | _ => caller.id

theorem Request.subject_of_gives {k : Uuid} {power : Power}
    (h : request.gives env caller k power) : request.subject caller = k := by
  cases power with
  | right right =>
      obtain ⟨payload, rfl, -⟩ := h
      rfl
  | verb resource verb =>
      rcases h with ⟨payload, rfl, -⟩ | ⟨rfl, hcreated, -⟩
      · rfl
      · cases request with
        | createVaultEndpoint _ | createDestinationGroup _ | createVaultSyncTask _ => rfl
        | _ => cases hcreated

theorem Request.subject_of_takes (caller : ApiKey) {k : Uuid} {power : Power}
    (h : request.takes db k power) : request.subject caller = k := by
  cases power with
  | right right =>
      obtain ⟨payload, rfl, -⟩ := h
      rfl
  | verb resource verb =>
      rcases h with ⟨payload, rfl, -⟩ | ⟨permissionId, permission, rfl, -⟩
      · rfl
      · rfl

/-- What a request has to do to the powers and the lineage of keys for `NeverOutranks.step`. -/
structure Shifts (env : Env) (caller : ApiKey) (request : Request) (db s : Database) : Prop where
  under : ∀ k p, Under s k p → Under db k p
  gain : ∀ k power, Has s k power → Has db k power ∨ request.gives env caller k power
  given : ∀ k, s.hasKey k = true → request.gives env caller k (.right .manageKeys) →
    HasRight s k .manageKeys
  loss : ∀ k power, s.hasKey k = true → Has db k power →
    Has s k power ∨ request.takes db k power
  taken : ∀ k power, request.takes db k (.right .manageKeys) → request.takes db k power →
    ¬Has s k power

/-- **One step.** -/
theorem NeverOutranks.step (h : NeverOutranks db) (hcall : ¬Oversteps env caller db request)
    (hshifts : Shifts env caller request db s) : NeverOutranks s := by
  intro k p hdaughter power hhas
  obtain ⟨hunder, hmanages⟩ := hdaughter
  have hunder' := hshifts.under k p hunder
  obtain ⟨⟨key, hkey, -⟩, creator, hcreator, -⟩ := hunder
  have hk : s.hasKey k = true := by rw [Database.hasKey, hkey]; rfl
  have hp : s.hasKey p = true := by rw [Database.hasKey, hcreator]; rfl
  by_cases hsame : k = p
  · exact hsame ▸ hhas
  · by_cases hmanager : HasRight db k .manageKeys
    · -- the request has made the key a daughter
      have htakes : request.takes db k (.right .manageKeys) :=
        (hshifts.loss k (.right .manageKeys) hk hmanager).resolve_left hmanages
      have hcreatorHas : Has db p power := by
        by_contra hlacks
        refine hcall (.demoted hunder' hmanager htakes ?_ hlacks)
        rcases hshifts.gain k power hhas with hold | hgives
        · exact Or.inl ⟨hold, fun htaken => hshifts.taken k power htakes htaken hhas⟩
        · exact Or.inr hgives
      rcases hshifts.loss p power hp hcreatorHas with hstill | htaken
      · exact hstill
      · have hsubject : request.subject caller = k := Request.subject_of_takes caller htakes
        exact absurd (hsubject.symm.trans (Request.subject_of_takes caller htaken)) hsame
    · have hdaughter : Daughter db k p := ⟨hunder', hmanager⟩
      rcases hshifts.gain k power hhas with hold | hgives
      · rcases hshifts.loss p power hp (h k p hdaughter power hold) with hstill | htaken
        · exact hstill
        · exact absurd (.taken hdaughter htaken hold) hcall
      · have hstays : ¬request.gives env caller k (.right .manageKeys) :=
          fun hpromotes => hmanages (hshifts.given k hk hpromotes)
        have hcreatorHas : Has db p power := by
          by_contra hlacks
          exact hcall (.given hdaughter hstays hgives hlacks)
        rcases hshifts.loss p power hp hcreatorHas with hstill | htaken
        · exact hstill
        · have hsubject := Request.subject_of_gives hgives
          exact absurd (hsubject.symm.trans (Request.subject_of_takes caller htaken)) hsame

/-! ### What each request does to powers and lineage -/

theorem under_congr (hkeys : s.apiKeys = db.apiKeys) {k p : Uuid} : Under s k p ↔ Under db k p := by
  rw [Under, Under, hkeys]

theorem has_congr (hkeys : s.apiKeys = db.apiKeys) (hpermissions : s.permissions = db.permissions)
    {k : Uuid} {power : Power} : Has s k power ↔ Has db k power := by
  cases power with
  | right right => rw [Has, Has, HasRight, HasRight, hkeys]
  | verb resource verb => rw [Has, Has, Holds, Holds, hpermissions]

theorem NeverOutranks.congr (h : NeverOutranks db) (hkeys : s.apiKeys = db.apiKeys)
    (hpermissions : s.permissions = db.permissions) : NeverOutranks s := by
  intro k p ⟨hunder, hmanages⟩ power hhas
  rw [has_congr hkeys hpermissions] at hhas ⊢
  refine h k p ⟨(under_congr hkeys).mp hunder, ?_⟩ power hhas
  rwa [HasRight, hkeys] at hmanages

/-- A request that rewrites neither keys nor permissions. -/
theorem Shifts.of_verbs (hkeys : s.apiKeys = db.apiKeys)
    (hright : ∀ k right, ¬request.gives env caller k (.right right))
    (hright' : ∀ k right, ¬request.takes db k (.right right))
    (hgain : ∀ k resource verb, Holds s k resource verb →
      Holds db k resource verb ∨ request.gives env caller k (.verb resource verb))
    (hloss : ∀ k resource verb, s.hasKey k = true → Holds db k resource verb →
      Holds s k resource verb ∨ request.takes db k (.verb resource verb)) :
    Shifts env caller request db s where
  under k p := (under_congr hkeys).mp
  gain k power hhas := by
    cases power with
    | right right =>
        rw [Has, HasRight, hkeys] at hhas
        exact Or.inl hhas
    | verb resource verb => exact hgain k resource verb hhas
  given k _ hgives := absurd hgives (hright k .manageKeys)
  loss k power hk hhas := by
    cases power with
    | right right =>
        left
        rw [Has, HasRight, hkeys]
        exact hhas
    | verb resource verb => exact hloss k resource verb hk hhas
  taken k _ htakes := absurd htakes (hright' k .manageKeys)

/-- **The row write** of a call loses a verb only as a grant without it, as a revocation, or with
its key. -/
theorem Change.lost (h : Change fuel env caller db request db₁) {k : Uuid} {resource : Resource}
    {verb : Verb} (hkey : db₁.hasKey k = true) (hholds : Holds db k resource verb) :
    Holds db₁ k resource verb ∨ request.takes db k (.verb resource verb) := by
  have hframe := h.frame
  obtain ⟨permission, hmem, hof, hon, hverb⟩ := hholds
  cases h with
  | @deleteApiKey id target subtree =>
      refine Or.inl ⟨permission, Table.mem_deleteWhere.mpr ⟨hmem, ?_⟩, hof, hon, hverb⟩
      rw [hof, decide_eq_false_iff_not]
      intro hgone
      rw [Database.hasKey, Database.deleteApiKeys, Table.find?_deleteWhere] at hkey
      cases hfind : db.apiKeys.find? k with
      | none => simp [hfind] at hkey
      | some key => simp [hfind, Option.filter, Table.key_of_find? hfind, hgone] at hkey
  | @revokeKeyPermission id permissionId revoked _ hrevoked hid =>
      by_cases hsame : permission.id = permissionId
      · have hrow := Table.find?_eq_some_iff.mpr ⟨hmem, hsame⟩
        obtain rfl := Option.some.inj (hrow.symm.trans hrevoked)
        obtain rfl : id = k := hid.symm.trans hof
        exact Or.inr (Or.inr ⟨permissionId, permission, rfl, hrow, hon, hverb⟩)
      · exact Or.inl ⟨permission, Table.mem_deleteWhere.mpr ⟨hmem, decide_eq_false hsame⟩, hof,
          hon, hverb⟩
  | @regrant id payload target existing row _ _ _ _ _ hexisting hwrite =>
      obtain ⟨old, hold, -, rfl⟩ := updatePermission_ok hwrite
      have hafter : (if permission.id = existing.id then payload.apply permission else permission) ∈
          (db.permissions.modify existing.id payload.apply fun _ => rfl).rows :=
        List.mem_map.mpr ⟨permission, hmem, rfl⟩
      by_cases hsame : permission.id = existing.id
      · -- the overwritten row keeps the verb if the payload has it
        rw [if_pos hsame] at hafter
        obtain rfl : permission = existing :=
          List.inj_on_of_nodup_map db.permissions.nodup hmem (List.mem_of_find?_eq_some hexisting)
            hsame
        have hrow := List.find?_some hexisting
        simp only [decide_eq_true_eq] at hrow
        obtain ⟨hrowkey, hrowtype, hrowid⟩ := hrow
        cases hpayload : payload.has verb with
        | true =>
            refine Or.inl ⟨_, hafter, hof, hon, ?_⟩
            cases verb <;> exact hpayload
        | false =>
            obtain rfl : id = k := hrowkey.symm.trans hof
            exact Or.inr (Or.inl ⟨payload, rfl, hrowtype.symm.trans hon.1, hrowid.symm.trans hon.2,
              hpayload⟩)
      · rw [if_neg hsame] at hafter
        exact Or.inl ⟨permission, hafter, hof, hon, hverb⟩
  | grant _ _ _ _ _ hwrite =>
      obtain ⟨rows, hinsert, rfl⟩ := insertPermission_ok hwrite
      exact Or.inl ⟨permission, (Table.mem_insert? hinsert).mpr (Or.inl hmem), hof, hon, hverb⟩
  | _ =>
      rw [← hframe.permissions (by simp [Request.writes])] at hmem
      exact Or.inl ⟨permission, hmem, hof, hon, hverb⟩

section Rewritten

variable {id k : Uuid} {f : ApiKey → ApiKey} {hf : ∀ r, (f r).id = r.id}

/-- A rewritten row keeps its place in the tree. -/
theorem under_of_modify (hkept : ∀ key, (f key).isMaster = key.isMaster ∧
      (f key).parentKeyId = key.parentKeyId) (hkeys : s.apiKeys = db.apiKeys.modify id f hf)
    {p : Uuid} (h : Under s k p) : Under db k p := by
  obtain ⟨⟨key, hkey, hparent⟩, creator, hcreator, hmaster⟩ := h
  rw [hkeys, Table.find?_modify, Option.map_eq_some_iff] at hkey hcreator
  obtain ⟨key, hkey, rfl⟩ := hkey
  obtain ⟨creator, hcreator, rfl⟩ := hcreator
  refine ⟨⟨key, hkey, ?_⟩, creator, hcreator, ?_⟩
  · rw [← hparent]
    split
    · exact (hkept key).2.symm
    · rfl
  · rw [← hmaster]
    split
    · exact (hkept creator).1.symm
    · rfl

theorem hasRight_of_modify (hkeys : s.apiKeys = db.apiKeys.modify id f hf) {right : Right} :
    HasRight s k right ↔
      ∃ key, db.apiKeys.find? k = some key ∧ (if k = id then f key else key).has right = true := by
  rw [HasRight, hkeys]
  simp only [Table.find?_modify, Option.map_eq_some_iff]
  constructor
  · rintro ⟨_, ⟨key, hkey, rfl⟩, hright⟩
    exact ⟨key, hkey, hright⟩
  · rintro ⟨key, hkey, hright⟩
    exact ⟨_, ⟨key, hkey, rfl⟩, hright⟩

end Rewritten

theorem UpdateApiKeyPayload.apply_has_eq (payload : UpdateApiKeyPayload) (now : ℤ) (key : ApiKey)
    (right : Right) :
    (payload.apply now key).has right = (payload.sets right).getD (key.has right) := by
  cases right <;> rfl

/-- A request that rewrites the row of key `id` and sets the rights `sets`. -/
theorem Shifts.of_rewrite {id : Uuid} {f : ApiKey → ApiKey} {hf : ∀ r, (f r).id = r.id}
    {row : ApiKey} (sets : Right → Option Bool) (hwrite : db.updateApiKey id f hf = .ok (row, s))
    (hkept : ∀ key, (f key).isMaster = key.isMaster ∧ (f key).parentKeyId = key.parentKeyId)
    (hsets : ∀ key right, (f key).has right = (sets right).getD (key.has right))
    (hgives : ∀ k right, request.gives env caller k (.right right) ↔
      k = id ∧ sets right = some true)
    (htakes : ∀ k right, request.takes db k (.right right) ↔ k = id ∧ sets right = some false)
    (hverbs : ∀ k resource verb, ¬request.takes db k (.verb resource verb)) :
    Shifts env caller request db s := by
  obtain ⟨hkeys, hpermissions⟩ : s.apiKeys = db.apiKeys.modify id f hf ∧
      s.permissions = db.permissions := by
    obtain ⟨_, -, -, rfl⟩ := updateApiKey_ok hwrite
    exact ⟨rfl, rfl⟩
  have hright : ∀ k right, HasRight s k right ↔ ∃ key, db.apiKeys.find? k = some key ∧
      (if k = id then (sets right).getD (key.has right) else key.has right) = true := by
    intro k right
    rw [hasRight_of_modify hkeys]
    refine exists_congr fun key => and_congr_right fun _ => ?_
    split
    · rw [hsets]
    · rfl
  have hverb : ∀ k resource verb, Holds s k resource verb ↔ Holds db k resource verb := by
    intro k resource verb
    rw [Holds, Holds, hpermissions]
  refine ⟨fun k p => under_of_modify hkept hkeys, ?_, ?_, ?_, ?_⟩
  · intro k power hhas
    cases power with
    | verb resource verb => exact Or.inl ((hverb k resource verb).mp hhas)
    | right right =>
        obtain ⟨key, hkey, hhas⟩ := (hright k right).mp hhas
        by_cases hgiven : k = id ∧ sets right = some true
        · exact Or.inr ((hgives k right).mpr hgiven)
        · refine Or.inl ⟨key, hkey, ?_⟩
          by_cases hid : k = id
          · rw [if_pos hid] at hhas
            cases hvalue : sets right with
            | none => rwa [hvalue] at hhas
            | some value =>
                rw [hvalue, Option.getD_some] at hhas
                exact absurd ⟨hid, hhas ▸ hvalue⟩ hgiven
          · rwa [if_neg hid] at hhas
  · intro k hk hgiven
    obtain ⟨hid, hvalue⟩ := (hgives k .manageKeys).mp hgiven
    rw [Database.hasKey, hkeys, Table.find?_modify, Option.isSome_map] at hk
    obtain ⟨key, hkey⟩ := Option.isSome_iff_exists.mp hk
    exact (hright k .manageKeys).mpr ⟨key, hkey, by rw [if_pos hid, hvalue]; rfl⟩
  · intro k power _ hhas
    cases power with
    | verb resource verb => exact Or.inl ((hverb k resource verb).mpr hhas)
    | right right =>
        obtain ⟨key, hkey, hhas⟩ := hhas
        by_cases htaken : k = id ∧ sets right = some false
        · exact Or.inr ((htakes k right).mpr htaken)
        · refine Or.inl ((hright k right).mpr ⟨key, hkey, ?_⟩)
          by_cases hid : k = id
          · rw [if_pos hid]
            cases hvalue : sets right with
            | none => exact hhas
            | some value =>
                cases value with
                | true => rfl
                | false => exact absurd ⟨hid, hvalue⟩ htaken
          · rwa [if_neg hid]
  · intro k power _ htaken hhas
    cases power with
    | verb resource verb => exact hverbs k resource verb htaken
    | right right =>
        obtain ⟨hid, hvalue⟩ := (htakes k right).mp htaken
        obtain ⟨key, -, hhas⟩ := (hright k right).mp hhas
        rw [if_pos hid, hvalue] at hhas
        cases hhas

/-- The deletion of keys. -/
theorem Shifts.of_delete {ids : List Uuid}
    (hright : ∀ k right, ¬request.gives env caller k (.right right))
    (hright' : ∀ k right, ¬request.takes db k (.right right))
    (hloss : ∀ k resource verb, (db.deleteApiKeys ids).2.hasKey k = true →
      Holds db k resource verb → Holds (db.deleteApiKeys ids).2 k resource verb ∨
        request.takes db k (.verb resource verb)) :
    Shifts env caller request db (db.deleteApiKeys ids).2 := by
  have hfind : ∀ k key, (db.deleteApiKeys ids).2.apiKeys.find? k = some key →
      db.apiKeys.find? k = some key := by
    intro k key hkey
    rw [Database.deleteApiKeys, Table.find?_deleteWhere, Option.filter_eq_some_iff] at hkey
    exact hkey.1
  refine ⟨?_, ?_, fun k _ hgives => absurd hgives (hright k .manageKeys), ?_,
    fun k _ htakes => absurd htakes (hright' k .manageKeys)⟩
  · rintro k p ⟨⟨key, hkey, hparent⟩, creator, hcreator, hmaster⟩
    exact ⟨⟨key, hfind k key hkey, hparent⟩, creator, hfind p creator hcreator, hmaster⟩
  · intro k power hhas
    left
    cases power with
    | right right =>
        obtain ⟨key, hkey, hhas⟩ := hhas
        exact ⟨key, hfind k key hkey, hhas⟩
    | verb resource verb =>
        obtain ⟨permission, hmem, hrest⟩ := hhas
        exact ⟨permission, (Table.mem_deleteWhere.mp hmem).1, hrest⟩
  · intro k power hk hhas
    cases power with
    | verb resource verb => exact hloss k resource verb hk hhas
    | right right =>
        obtain ⟨key, hkey, hhas⟩ := hhas
        obtain ⟨key', hkey'⟩ := Option.isSome_iff_exists.mp hk
        obtain rfl := Option.some.inj ((hfind k key' hkey').symm.trans hkey)
        exact Or.inl ⟨key', hkey', hhas⟩

/-- A rotation. -/
theorem Shifts.of_rotate {id : Uuid} {f : ApiKey → ApiKey} {hf : ∀ r, (f r).id = r.id}
    {row : ApiKey} (hwrite : db.updateApiKey id f hf = .ok (row, s))
    (hkept : ∀ key, (f key).isMaster = key.isMaster ∧ (f key).parentKeyId = key.parentKeyId)
    (hrights : ∀ key right, (f key).has right = key.has right)
    (hgives : ∀ k right, ¬request.gives env caller k (.right right))
    (htakes : ∀ k right, ¬request.takes db k (.right right))
    (hverbs : ∀ k resource verb, ¬request.takes db k (.verb resource verb)) :
    Shifts env caller request db s := by
  refine .of_rewrite (fun _ => none) hwrite hkept hrights ?_ ?_ hverbs
  · intro k right
    exact ⟨fun hgiven => absurd hgiven (hgives k right), fun h => by cases h.2⟩
  · intro k right
    exact ⟨fun htaken => absurd htaken (htakes k right), fun h => by cases h.2⟩

/-- **What the row write of a request does**, the creation of a key apart. -/
theorem Change.shifts (h : Change fuel env caller db request db₁)
    (hcreates : ∀ payload, request ≠ .createApiKey payload) :
    Shifts env caller request db db₁ := by
  have hframe := h.frame
  have hgain : ∀ k resource verb, Holds db₁ k resource verb →
      Holds db k resource verb ∨ request.gives env caller k (.verb resource verb) := by
    intro k resource verb hholds
    rcases h.granted hholds with hold | ⟨payload, hrequest, htype, hid, hpayload, -⟩
    · exact Or.inl hold
    · exact Or.inr (Or.inl ⟨payload, hrequest, htype, hid, hpayload⟩)
  have hloss := fun k resource verb (hkey : db₁.hasKey k = true)
    (hholds : Holds db k resource verb) => h.lost hkey hholds
  cases h with
  | createApiKey => exact absurd rfl (hcreates _)
  | @updateApiKey id payload _ _ _ _ _ _ _ _ hwrite =>
      refine .of_rewrite payload.sets hwrite (fun _ => ⟨rfl, rfl⟩)
        (payload.apply_has_eq env.now) ?_ ?_ ?_
      · intro k right
        simp [Request.gives, eq_comm]
      · intro k right
        simp [Request.takes, eq_comm]
      · simp [Request.takes]
  | deleteApiKey =>
      exact .of_delete (by simp [Request.gives]) (by simp [Request.takes]) hloss
  | rotateApiKey _ hwrite =>
      refine .of_rotate hwrite (fun _ => ⟨rfl, rfl⟩) ?_ (by simp [Request.gives])
        (by simp [Request.takes]) (by simp [Request.takes])
      intro key right
      cases right <;> rfl
  | rotateSigningSecret _ _ hwrite =>
      refine .of_rotate hwrite (fun _ => ⟨rfl, rfl⟩) ?_ (by simp [Request.gives])
        (by simp [Request.takes]) (by simp [Request.takes])
      intro key right
      cases right <;> rfl
  | _ =>
      have hkeys := hframe.apiKeys (by simp [Request.writes])
      refine .of_verbs hkeys ?_ ?_ hgain hloss
      · simp [Request.gives]
      · simp [Request.takes]

/-! ### References between rows -/

/-- The parent of a key exists, and so does the key of a permission row. -/
structure Linked (db : Database) : Prop where
  parents : ∀ key ∈ db.apiKeys.rows, ∀ p, key.parentKeyId = some p → db.hasKey p = true
  permissions : ∀ permission ∈ db.permissions.rows, db.hasKey permission.apiKeyId = true

/-- The daughters of a collected key are collected. -/
theorem daughter_mem_walk {frontier : List Uuid} {result subtree : List ApiKey}
    (h : db.walk fuel frontier result = some subtree)
    (hresult : ∀ key ∈ result, key.id ∈ frontier ∨
      ∀ r ∈ db.apiKeys.rows, r.parentKeyId = some key.id → r ∈ result)
    {key r : ApiKey} (hkey : key ∈ subtree) (hr : r ∈ db.apiKeys.rows)
    (hparent : r.parentKeyId = some key.id) : r ∈ subtree := by
  induction fuel generalizing frontier result with
  | zero =>
      cases frontier with
      | nil =>
          obtain rfl := Option.some.inj h
          exact (hresult key hkey).elim (fun hin => absurd hin List.not_mem_nil)
            fun hall => hall r hr hparent
      | cons id rest => cases h
  | succ fuel ih =>
      cases frontier with
      | nil =>
          rw [Database.walk, Option.some.injEq] at h
          subst h
          exact (hresult key hkey).elim (fun hin => absurd hin List.not_mem_nil)
            fun hall => hall r hr hparent
      | cons id rest =>
          simp only [Database.walk] at h
          refine ih h ?_
          intro k hk
          rcases List.mem_append.mp hk with hold | hnew
          · right
            intro r' hr' hparent'
            rcases hresult k hold with hin | hall
            · refine List.mem_append_right _ (List.mem_filter.mpr ⟨hr', ?_⟩)
              rw [hparent', Option.any_some, decide_eq_true_eq]
              exact hin
            · exact List.mem_append_left _ (hall r' hr' hparent')
          · exact Or.inl (List.mem_map_of_mem hnew)

/-- **The keys of a linked database** keep their parents. -/
theorem KeyChange.parents (h : KeyChange fuel env caller db db₁) (hlinked : Linked db)
    (hcaller : db.hasKey caller.id = true) {key : ApiKey} (hkey : key ∈ db₁.apiKeys.rows) {p : Uuid}
    (hparent : key.parentKeyId = some p) : db₁.hasKey p = true := by
  cases h with
  | kept hkeys =>
      rw [hkeys] at hkey
      rw [Database.hasKey, hkeys]
      exact hlinked.parents key hkey p hparent
  | added new _ hcreator _ hinsert =>
      have hp : db.hasKey p = true := by
        rcases (Table.mem_insert? hinsert).mp hkey with hold | rfl
        · exact hlinked.parents key hold p hparent
        · obtain rfl := Option.some.inj (hparent.symm.trans hcreator)
          exact hcaller
      obtain ⟨row, hrow⟩ := Option.isSome_iff_exists.mp hp
      rw [Database.hasKey, Table.find?_insert?_of_find? hinsert hrow]
      rfl
  | rewritten id target f hf htarget _ hkept _ hmodify =>
      rw [hmodify] at hkey
      rw [Database.hasKey, hmodify, Table.find?_modify, Option.isSome_map]
      obtain ⟨r, hr, rfl⟩ := List.mem_map.mp hkey
      refine hlinked.parents r hr p ?_
      by_cases hid : r.id = id
      · have hrow := Table.find?_eq_some_iff.mpr ⟨hr, hid⟩
        obtain rfl := Option.some.inj (hrow.symm.trans htarget)
        rwa [if_pos hid, hkept.2] at hparent
      · rwa [if_neg hid] at hparent
  | removed target subtree _ _ _ hsubtree hdelete =>
      rw [hdelete] at hkey
      obtain ⟨hkey, hstays⟩ := Table.mem_deleteWhere.mp hkey
      obtain ⟨row, hrow⟩ := Option.isSome_iff_exists.mp (hlinked.parents key hkey p hparent)
      rw [Database.hasKey, hdelete, Table.find?_deleteWhere_of_find? hrow]
      · rfl
      · rw [Table.key_of_find? hrow, decide_eq_false_iff_not]
        intro hin
        -- the parent would take the key with it
        obtain ⟨creator, hcreator, rfl⟩ := List.mem_map.mp hin
        refine of_decide_eq_false hstays (List.mem_map_of_mem ?_)
        exact daughter_mem_walk hsubtree (fun k hk => Or.inl (List.mem_map_of_mem hk)) hcreator hkey
          hparent

/-- A permission row is inserted for a key that exists. -/
theorem hasKey_of_insertPermission {row : SyncPermission} (h : db.insertPermission row = .ok db₁) :
    db.hasKey row.apiKeyId = true := by
  rw [Database.insertPermission] at h
  split at h
  · cases h
  · split at h
    · assumption
    · cases h

theorem Linked.insertPermission {row : SyncPermission} (hlinked : Linked db)
    (h : db.insertPermission row = .ok db₁) : Linked db₁ := by
  have hkey := hasKey_of_insertPermission h
  obtain ⟨rows, hinsert, rfl⟩ := insertPermission_ok h
  refine ⟨hlinked.parents, ?_⟩
  intro permission hmem
  rcases (Table.mem_insert? hinsert).mp hmem with hold | rfl
  · exact hlinked.permissions permission hold
  · exact hkey

/-- **The row write** of a request leaves no reference dangling. -/
theorem Change.linked (h : Change fuel env caller db request db₁) (hlinked : Linked db)
    (hcaller : db.hasKey caller.id = true) : Linked db₁ := by
  have hframe := h.frame
  refine ⟨fun key hkey p => h.keyChange.parents hlinked hcaller hkey, ?_⟩
  intro permission hmem
  have hrewritten : ∀ {id f hf row}, db.updateApiKey id f hf = .ok (row, db₁) →
      db₁.hasKey permission.apiKeyId = true := by
    intro id f hf row hwrite
    obtain ⟨_, -, -, rfl⟩ := updateApiKey_ok hwrite
    rw [Database.hasKey, Table.find?_modify, Option.isSome_map]
    exact hlinked.permissions permission hmem
  cases h with
  | createApiKey _ _ _ hwrite =>
      obtain ⟨rows, hinsert, rfl⟩ := insertApiKey_ok hwrite
      obtain ⟨row, hrow⟩ := Option.isSome_iff_exists.mp (hlinked.permissions permission hmem)
      rw [Database.hasKey, Table.find?_insert?_of_find? hinsert hrow]
      rfl
  | updateApiKey _ _ _ _ _ hwrite => exact hrewritten hwrite
  | rotateApiKey _ hwrite => exact hrewritten hwrite
  | rotateSigningSecret _ _ hwrite => exact hrewritten hwrite
  | deleteApiKey =>
      obtain ⟨hmem, hstays⟩ := Table.mem_deleteWhere.mp hmem
      obtain ⟨row, hrow⟩ := Option.isSome_iff_exists.mp (hlinked.permissions permission hmem)
      rw [Database.hasKey, Database.deleteApiKeys, Table.find?_deleteWhere_of_find? hrow]
      · rfl
      · rw [Table.key_of_find? hrow]
        exact hstays
  | regrant _ _ _ _ _ hwrite =>
      obtain ⟨old, -, -, rfl⟩ := updatePermission_ok hwrite
      obtain ⟨r, hr, rfl⟩ := List.mem_map.mp hmem
      have hkey := hlinked.permissions r hr
      split
      · exact hkey
      · exact hkey
  | grant _ _ _ _ _ hwrite => exact (hlinked.insertPermission hwrite).permissions permission hmem
  | revokeKeyPermission =>
      exact hlinked.permissions permission (Table.mem_deleteWhere.mp hmem).1
  | _ =>
      rw [Database.hasKey, hframe.apiKeys (by simp [Request.writes])]
      rw [hframe.permissions (by simp [Request.writes])] at hmem
      exact hlinked.permissions permission hmem

/-! ### A new key -/

/-- **A new key** below its creator: it has nothing, unless the Master makes it. -/
theorem neverOutranks_of_added {new : ApiKey} {rows : Table ApiKey.id}
    (hinsert : db.apiKeys.insert? new = some rows) (hcreator : new.parentKeyId = some caller.id)
    (hrights : caller.isMaster = false → ∀ right, new.has right = false) (hlinked : Linked db)
    (hcaller : db.apiKeys.find? caller.id = some caller) (hbounded : NeverOutranks db) :
    NeverOutranks { db with apiKeys := rows } := by
  have hfree := Table.find?_eq_none_of_insert? hinsert
  have hfind := Table.find?_insert? hinsert
  have hunused : db.hasKey new.id = false := by
    rw [Database.hasKey, hfree]
    rfl
  have hsame : ∀ j ≠ new.id, ∀ power,
      Has { db with apiKeys := rows } j power ↔ Has db j power := by
    intro j hj power
    cases power with
    | right right => rw [Has, Has, HasRight, HasRight, hfind, if_neg hj]
    | verb resource verb => exact Iff.rfl
  rintro k p ⟨⟨⟨key, hkey, hparent⟩, creator, hp, hmaster⟩, hmanages⟩ power hhas
  rw [hfind] at hkey hp
  by_cases hk : k = new.id
  · rw [if_pos hk, Option.some.injEq] at hkey
    subst hkey
    obtain rfl : caller.id = p := Option.some.inj (hcreator.symm.trans hparent)
    have hother : caller.id ≠ new.id := by
      intro hid
      rw [hid, hfree] at hcaller
      cases hcaller
    rw [if_neg hother, hcaller, Option.some.injEq] at hp
    subst hp
    cases power with
    | right right =>
        obtain ⟨key, hkey, hright⟩ := hhas
        rw [hfind, if_pos hk, Option.some.injEq] at hkey
        rw [← hkey, hrights hmaster right] at hright
        cases hright
    | verb resource verb =>
        -- no permission row names a key that did not exist
        obtain ⟨permission, hmem, hof, -⟩ := hhas
        have hused := hlinked.permissions permission hmem
        rw [hof, hk, hunused] at hused
        cases hused
  · rw [if_neg hk] at hkey
    have hother : p ≠ new.id := by
      rintro rfl
      have hused := hlinked.parents key (Table.find?_eq_some_iff.mp hkey).1 _ hparent
      rw [hunused] at hused
      cases hused
    rw [if_neg hother] at hp
    rw [hsame p hother]
    refine hbounded k p ⟨⟨⟨key, hkey, hparent⟩, creator, hp, hmaster⟩, ?_⟩ power
      ((hsame k hk power).mp hhas)
    exact fun h => hmanages ((hsame k hk (.right .manageKeys)).mpr h)

theorem neverOutranks_of_create {payload : CreateApiKeyPayload}
    (h : Change fuel env caller db (.createApiKey payload) db₁) (hlinked : Linked db)
    (hcaller : db.apiKeys.find? caller.id = some caller) (hbounded : NeverOutranks db) :
    NeverOutranks db₁ := by
  cases h with
  | createApiKey _ hscope _ hwrite =>
      obtain ⟨rows, hinsert, rfl⟩ := insertApiKey_ok hwrite
      refine neverOutranks_of_added hinsert rfl ?_ hlinked hcaller hbounded
      intro hmaster right
      rcases guardScopeElevation_ok.mp hscope with hroot | ⟨hkeys, hsources, hvaults⟩
      · rw [hmaster] at hroot
        cases hroot
      · cases right with
        | manageKeys => exact hkeys
        | manageSources => exact hsources
        | manageVaults => exact hvaults

/-! ### A call -/

/-- **The row write** of a request. -/
theorem Change.neverOutranks (h : Change fuel env caller db request db₁) (hlinked : Linked db)
    (hcaller : db.apiKeys.find? caller.id = some caller) (hbounded : NeverOutranks db)
    (hcall : ¬Oversteps env caller db request) : NeverOutranks db₁ := by
  by_cases hcreates : ∃ payload, request = .createApiKey payload
  · obtain ⟨payload, rfl⟩ := hcreates
    exact neverOutranks_of_create h hlinked hcaller hbounded
  · exact hbounded.step hcall (h.shifts fun payload hrequest => hcreates ⟨payload, hrequest⟩)

/-- The tables of a request that creates a resource. -/
theorem frame_of_createdType (h : Change fuel env caller db request db₁) {resourceType : String}
    (hcreated : request.createdType = some resourceType) :
    db₁.apiKeys = db.apiKeys ∧ db₁.permissions = db.permissions := by
  have hframe := h.frame
  cases request with
  | createVaultEndpoint _ | createDestinationGroup _ | createVaultSyncTask _ =>
      exact ⟨hframe.apiKeys (by simp [Request.writes]),
        hframe.permissions (by simp [Request.writes])⟩
  | _ => cases hcreated

/-- The creator's permission on a new resource. -/
theorem neverOutranks_of_grant (h : Change fuel env caller db request db₁)
    (hgrant : grantToCreator env caller request db₁ = .ok db₂) (hlinked : Linked db)
    (hcaller : db.apiKeys.find? caller.id = some caller) (hbounded : NeverOutranks db)
    (hcall : ¬Oversteps env caller db request) : NeverOutranks db₂ := by
  rcases grantToCreator_ok hgrant with ⟨-, rfl⟩ | ⟨resourceType, rows, hcreated, hinsert, rfl⟩
  · exact h.neverOutranks hlinked hcaller hbounded hcall
  · obtain ⟨hkeys, hpermissions⟩ := frame_of_createdType h hcreated
    rw [hpermissions] at hinsert
    refine hbounded.step hcall (.of_verbs hkeys ?_ ?_ ?_ ?_)
    · rintro k right ⟨payload, rfl, -⟩
      cases hcreated
    · rintro k right ⟨payload, rfl, -⟩
      cases hcreated
    · rintro k resource verb ⟨permission, hmem, hof, hon, hverb⟩
      rcases (Table.mem_insert? hinsert).mp hmem with hold | rfl
      · exact Or.inl ⟨permission, hold, hof, hon, hverb⟩
      · exact Or.inr (Or.inr ⟨hof.symm, by rw [hcreated, ← hon.1]; rfl, hon.2⟩)
    · rintro k resource verb - ⟨permission, hmem, hrest⟩
      exact Or.inl ⟨permission, (Table.mem_insert? hinsert).mpr (Or.inl hmem), hrest⟩

theorem Linked.congr (h : Linked db) (hkeys : s.apiKeys = db.apiKeys)
    (hpermissions : s.permissions = db.permissions) : Linked s := by
  refine ⟨?_, ?_⟩
  · rw [hkeys]
    intro key hkey p hparent
    rw [Database.hasKey, hkeys]
    exact h.parents key hkey p hparent
  · rw [hpermissions]
    intro permission hmem
    rw [Database.hasKey, hkeys]
    exact h.permissions permission hmem

/-- What is kept along a run. -/
structure Ordered (db : Database) : Prop where
  rooted : Rooted db
  linked : Linked db
  bounded : NeverOutranks db

/-- **A call** leaves no reference dangling. -/
theorem Leaves.linked (h : Leaves fuel env caller db request s) (hlinked : Linked db)
    (hcaller : db.hasKey caller.id = true) : Linked s := by
  cases h with
  | unchanged hquiet => exact hlinked.congr hquiet.apiKeys hquiet.permissions
  | written hchange hquiet =>
      exact (hchange.linked hlinked hcaller).congr hquiet.apiKeys hquiet.permissions
  | granted hchange hgrant hquiet =>
      refine Linked.congr ?_ hquiet.apiKeys hquiet.permissions
      have hwritten := hchange.linked hlinked hcaller
      rw [grantToCreator] at hgrant
      split at hgrant
      · obtain rfl := Except.ok.inj hgrant
        exact hwritten
      · exact hwritten.insertPermission hgrant

/-- **One call.** -/
theorem Leaves.ordered (h : Leaves fuel env caller db request s) (hordered : Ordered db)
    (hcaller : db.apiKeys.find? caller.id = some caller)
    (hcall : Accepts fuel env caller db request → ¬Oversteps env caller db request) :
    Ordered s := by
  have hkey : db.hasKey caller.id = true := by rw [Database.hasKey, hcaller]; rfl
  refine ⟨h.rooted hordered.rooted, h.linked hordered.linked hkey, ?_⟩
  cases h with
  | unchanged hquiet => exact hordered.bounded.congr hquiet.apiKeys hquiet.permissions
  | written hchange hquiet =>
      exact (hchange.neverOutranks hordered.linked hcaller hordered.bounded
        (hcall ⟨_, hchange⟩)).congr hquiet.apiKeys hquiet.permissions
  | granted hchange hgrant hquiet =>
      exact (neverOutranks_of_grant hchange hgrant hordered.linked hcaller hordered.bounded
        (hcall ⟨_, hchange⟩)).congr hquiet.apiKeys hquiet.permissions

theorem linked_bootstrapped (env : Env) (plaintextKey envelope : String) :
    Linked (env.bootstrapped plaintextKey envelope) := by
  refine ⟨?_, nofun⟩
  intro key hkey p hparent
  obtain rfl := List.mem_singleton.mp hkey
  cases hparent

theorem ordered_bootstrapped (env : Env) (plaintextKey envelope : String) :
    Ordered (env.bootstrapped plaintextKey envelope) := by
  refine ⟨rooted_bootstrapped env plaintextKey envelope,
    linked_bootstrapped env plaintextKey envelope, ?_⟩
  · rintro k p ⟨⟨⟨key, hkey, hparent⟩, -⟩, -⟩
    obtain rfl := List.mem_singleton.mp (Table.find?_eq_some_iff.mp hkey).1
    cases hparent

theorem Ordered.serve {call : Call} (hordered : Ordered db) (hcall : ¬OverstepsBy db call)
    (h : serve db call = some s) : Ordered s := by
  obtain ⟨caller, hcaller, hleaves⟩ := leaves_of_serve h
  have hrow := hordered.rooted.callerOf hcaller
  rw [← callerOf_id hcaller] at hrow
  exact hleaves.ordered hordered hrow fun haccepts hoversteps =>
    hcall ⟨caller, hcaller, haccepts, hoversteps⟩

end Step

/-! ### Runs -/

section Grants

variable {env : Env} {caller : ApiKey} {db : Database}

/-- The creation of a key never oversteps. -/
theorem not_oversteps_of_createApiKey (payload : CreateApiKeyPayload) :
    ¬Oversteps env caller db (.createApiKey payload) := by
  have hgives : ∀ k power, ¬(Request.createApiKey payload).gives env caller k power := by
    intro k power
    cases power <;> simp [Request.gives, Request.createdType]
  have htakes : ∀ k power, ¬(Request.createApiKey payload).takes db k power := by
    intro k power
    cases power <;> simp [Request.takes]
  intro h
  cases h with
  | given _ _ hgiven _ => exact hgives _ _ hgiven
  | taken _ htaken _ => exact htakes _ _ htaken
  | demoted _ _ htaken _ _ => exact htakes _ _ htaken

/-- An accepted grant has passed `guard_delegated_grant`. -/
theorem delegated_of_accepts {fuel : ℕ} {id : Uuid} {payload : GrantPermissionPayload}
    (h : Accepts fuel env caller db (.grantKeyPermission id payload)) :
    guardDelegatedGrant caller
      (db.permissionOf caller.id payload.resourceType payload.resourceId) payload.canSync
      payload.canManage payload.canViewLogs = .ok () := by
  obtain ⟨_, hchange⟩ := h
  cases hchange <;> assumption

/-- A grant to a key without daughters, of what its creator holds, does not overstep. -/
theorem not_oversteps_of_grant {id creator : Uuid} {payload : GrantPermissionPayload}
    (hcreator : (db.apiKeys.find? id).bind ApiKey.parentKeyId = some creator)
    (hheld : Under db id creator → ∀ verb, payload.has verb = true →
      Holds db creator ⟨payload.resourceType, payload.resourceId⟩ verb)
    (hleaf : ∀ key ∈ db.apiKeys.rows, key.parentKeyId ≠ some id) :
    ¬Oversteps env caller db (.grantKeyPermission id payload) := by
  intro h
  cases h with
  | @given k p power hdaughter _ hgives hlacks =>
      cases power with
      | right right => simp [Request.gives] at hgives
      | verb resource verb =>
          rcases hgives with ⟨_, hrequest, htype, hid, hverb⟩ | ⟨-, hcreated, -⟩
          · obtain ⟨rfl, rfl⟩ := Request.grantKeyPermission.inj hrequest
            have hresource : (⟨payload.resourceType, payload.resourceId⟩ : Resource) = resource :=
              congrArg₂ Resource.mk htype hid
            obtain rfl : creator = p := by
              obtain ⟨⟨⟨key, hkey, hparent⟩, -⟩, -⟩ := hdaughter
              rw [hkey, Option.bind_some, hparent] at hcreator
              exact (Option.some.inj hcreator).symm
            exact hlacks (hresource ▸ hheld hdaughter.1 verb hverb)
          · cases hcreated
  | @taken k p power hdaughter htakes _ =>
      obtain ⟨⟨⟨key, hkey, hparent⟩, -⟩, -⟩ := hdaughter
      have hsubject : id = p := Request.subject_of_takes caller htakes
      exact hleaf key (Table.find?_eq_some_iff.mp hkey).1 (hsubject ▸ hparent)
  | demoted _ _ htakes _ _ => simp [Request.takes] at htakes

end Grants

instance (db : Database) (k : Uuid) (right : Right) : Decidable (HasRight db k right) :=
  inferInstanceAs (Decidable (∃ key ∈ db.apiKeys.find? k, key.has right = true))

instance (permission : SyncPermission) (resource : Resource) :
    Decidable (permission.isOn resource) :=
  inferInstanceAs (Decidable (_ ∧ _))

instance (db : Database) (k : Uuid) (resource : Resource) (verb : Verb) :
    Decidable (Holds db k resource verb) :=
  inferInstanceAs (Decidable (∃ permission ∈ db.permissions.rows, permission.apiKeyId = k ∧
    permission.isOn resource ∧ permission.has verb = true))

instance (db : Database) (k : Uuid) : (power : Power) → Decidable (Has db k power)
  | .right right => inferInstanceAs (Decidable (HasRight db k right))
  | .verb resource verb => inferInstanceAs (Decidable (Holds db k resource verb))

instance (db : Database) (k p : Uuid) : Decidable (Under db k p) :=
  inferInstanceAs (Decidable ((∃ key ∈ db.apiKeys.find? k, key.parentKeyId = some p) ∧
    ∃ creator ∈ db.apiKeys.find? p, creator.isMaster = false))

instance (db : Database) (k p : Uuid) : Decidable (Daughter db k p) :=
  inferInstanceAs (Decidable (_ ∧ _))

/-- The verbs of a grant on endpoint 5. -/
def GrantPermissionPayload.onFive (canSync canManage : Bool) : GrantPermissionPayload where
  resourceType := resourceVaultEndpoint
  resourceId := 5
  canSync := canSync
  canManage := canManage
  canViewLogs := false

/-- A change of two rights of a key. -/
def UpdateApiKeyPayload.rights (manageKeys manageVaults : Option Bool) : UpdateApiKeyPayload where
  name := none
  canManageKeys := manageKeys
  canManageSources := none
  canManageVaults := manageVaults
  boundIps := none

/-- **A daughter never outranks its creator** in a run in which no call gives a daughter a right or a
verb that its creator lacks, takes from a creator one that a daughter of it has, or demotes a
manager that has more than its creator.  So a creator that rotates a daughter gets at nothing it
did not have; and what it grants a key of its own that has no daughters is none of these calls. -/
theorem daughters_never_outrank {env : Env} {plaintextKey envelope : String} {db : Database}
    (hrun : Reaches serve (fun db call => ¬OverstepsBy db call)
      (env.bootstrapped plaintextKey envelope) db) :
    NeverOutranks db ∧
      (∀ caller id, caller.isMaster = false → db.callerOf caller.id = some caller →
        Rotates caller db id → ¬HasRight db id .manageKeys →
        ∀ power, Has db id power → Has db caller.id power) ∧
      ∀ fuel env caller id payload, caller.isMaster = false →
        (db.apiKeys.find? id).bind ApiKey.parentKeyId = some caller.id →
        (∀ key ∈ db.apiKeys.rows, key.parentKeyId ≠ some id) →
        Accepts fuel env caller db (.grantKeyPermission id payload) →
        ¬Oversteps env caller db (.grantKeyPermission id payload) := by
  have hordered : Ordered db :=
    hrun.invariant (ordered_bootstrapped env plaintextKey envelope)
      fun s call s' hs hcall hserve => hs.serve hcall hserve
  refine ⟨hordered.bounded, ?_, ?_⟩
  · rintro caller id hmaster hcaller ⟨-, target, htarget, -, hadmin⟩ hmanages
    have hparent := parent_of_canAdminister hmaster hadmin
    exact hordered.bounded id caller.id
      ⟨⟨⟨target, htarget, hparent⟩, caller, hordered.rooted.callerOf hcaller, hmaster⟩, hmanages⟩
  · intro fuel env caller id payload hmaster hcreator hleaf haccepts
    refine not_oversteps_of_grant hcreator ?_ hleaf
    intro _ verb hverb
    exact (holds_of_delegated hmaster (delegated_of_accepts haccepts) hverb).2.2

/-- The Master grants a manager two verbs, which grants its daughter one of them. -/
theorem daughters_never_outrank_grant :
    ∃ db, Reaches serve (fun db call => ¬OverstepsBy db call) .fresh db ∧
      Holds db 3 ⟨resourceVaultEndpoint, 5⟩ .sync ∧ NeverOutranks db := by
  have hruns : ((serve .fresh (.plain 1 2 (.createApiKey (.plain "manager" true false false)))).bind
      fun db₁ => (serve db₁ (.plain 1 4 (.grantKeyPermission 2 (.onFive true true)))).bind
      fun db₂ => (serve db₂ (.plain 2 3 (.createApiKey (.plain "daughter" false false false)))).bind
      fun db₃ => (serve db₃ (.plain 2 6 (.grantKeyPermission 3 (.onFive true false)))).map
      fun db₄ => decide (((db₁.apiKeys.find? 2).bind ApiKey.parentKeyId = some 1 ∧ ¬Under db₁ 2 1 ∧
        ∀ key ∈ db₁.apiKeys.rows, key.parentKeyId ≠ some 2) ∧
        ((db₃.apiKeys.find? 3).bind ApiKey.parentKeyId = some 2 ∧
          Holds db₃ 2 ⟨resourceVaultEndpoint, 5⟩ .sync ∧
          ∀ key ∈ db₃.apiKeys.rows, key.parentKeyId ≠ some 3) ∧
        Holds db₄ 3 ⟨resourceVaultEndpoint, 5⟩ .sync)) = some true := by decide +kernel
  obtain ⟨db₁, hdb₁, hruns⟩ := Option.bind_eq_some_iff.mp hruns
  obtain ⟨db₂, hdb₂, hruns⟩ := Option.bind_eq_some_iff.mp hruns
  obtain ⟨db₃, hdb₃, hruns⟩ := Option.bind_eq_some_iff.mp hruns
  obtain ⟨db₄, hdb₄, hfacts⟩ := Option.map_eq_some_iff.mp hruns
  obtain ⟨⟨hmaster, hnotUnder, hleaf⟩, ⟨hmanager, hheld, hleaf'⟩, hsync⟩ := of_decide_eq_true hfacts
  have hfirst : ¬OverstepsBy .fresh
      (.plain 1 2 (.createApiKey (.plain "manager" true false false))) :=
    fun ⟨_, _, _, h⟩ => not_oversteps_of_createApiKey _ h
  have hsecond : ¬OverstepsBy db₁ (.plain 1 4 (.grantKeyPermission 2 (.onFive true true))) :=
    fun ⟨_, _, _, h⟩ => not_oversteps_of_grant hmaster (fun h => absurd h hnotUnder) hleaf h
  have hthird : ¬OverstepsBy db₂
      (.plain 2 3 (.createApiKey (.plain "daughter" false false false))) :=
    fun ⟨_, _, _, h⟩ => not_oversteps_of_createApiKey _ h
  have hfourth : ¬OverstepsBy db₃ (.plain 2 6 (.grantKeyPermission 3 (.onFive true false))) := by
    rintro ⟨_, _, _, h⟩
    refine not_oversteps_of_grant hmanager ?_ hleaf' h
    intro _ verb hverb
    cases verb with
    | sync => exact hheld
    | manage => cases hverb
    | viewLogs => cases hverb
  have hrun : Reaches serve (fun db call => ¬OverstepsBy db call) .fresh db₄ :=
    (((Reaches.refl.tail hfirst hdb₁).tail hsecond hdb₂).tail hthird hdb₃).tail hfourth hdb₄
  exact ⟨db₄, hrun, hsync, (daughters_never_outrank hrun).1⟩

/-- Runs at whose end key 3, a daughter of key 2, has a power that key 2 lacks: another manager
grants it something; its creator revokes its own permission; the Master takes a right from its
creator; it creates a resource; the Master demotes it from a manager. -/
def outrankingRuns : List (List Call × Power) :=
  let manager := Call.plain 1 2 (.createApiKey (.plain "manager" true true true))
  let daughter := Call.plain 2 3 (.createApiKey (.plain "daughter" false false false))
  let other := Call.plain 1 4 (.createApiKey (.plain "other" true true true))
  let endpoint (id : Uuid) := Call.plain id 5 (.createVaultEndpoint ⟨"endpoint", "", "", "", none⟩)
  let grant (id : Uuid) := Call.plain id 6 (.grantKeyPermission 3 (.onFive true false))
  let update (id : Uuid) (manageKeys manageVaults : Option Bool) :=
    Call.plain 1 7 (.updateApiKey id (.rights manageKeys manageVaults))
  let sync := Power.verb ⟨resourceVaultEndpoint, 5⟩ .sync
  [([manager, daughter, other, endpoint 4, grant 4], sync),
    ([manager, daughter, endpoint 2, grant 2, .plain 2 7 (.revokeKeyPermission 2 5)], sync),
    ([manager, daughter, update 3 none (some true), update 2 none (some false)],
      .right .manageVaults),
    ([manager, daughter, update 3 none (some true), endpoint 3], sync),
    ([manager, daughter, other, endpoint 4, update 3 (some true) none, grant 4,
      update 3 (some false) none], sync)]

/-- **A daughter outranks its creator** at the end of each of these runs. -/
theorem daughters_outrank :
    outrankingRuns.Forall fun run => ∃ db, runEvents serve anyStep .fresh run.1 = some db ∧
      Daughter db 3 2 ∧ Has db 3 run.2 ∧ ¬Has db 2 run.2 := by
  have hruns : ∀ run ∈ outrankingRuns,
      ((runEvents serve anyStep .fresh run.1).map fun db =>
        decide (Daughter db 3 2 ∧ Has db 3 run.2 ∧ ¬Has db 2 run.2)) = some true := by
    decide +kernel
  rw [List.forall_iff_forall_mem]
  intro run hrun
  obtain ⟨db, hdb, hfacts⟩ := Option.map_eq_some_iff.mp (hruns run hrun)
  exact ⟨db, hdb, of_decide_eq_true hfacts⟩

end SimplyIpSync.Api
