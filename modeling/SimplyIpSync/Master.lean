import SimplyIpSync.Api.Rows
import SimplyIpSync.Lib.Reach

/-!
# The Master identity pin (`src/master.rs`)

The id of the Master is written once, at boot, into a cell of the process.  A request looks its key
up and later checks a claimed Master flag; in between and at any other time the `api_keys` table may
be edited directly, as long as its unique index admits no second Master row.

The check compares the key with the table's only Master row and never reads the cell.
`handled_master_is_pinned` says exactly which histories of edits let another key through as Master.
-/

namespace SimplyIpSync.Master

open SimplyIpSync.Crypto SimplyIpSync.Entities SimplyIpSync.Storage SimplyIpSync.Reach
open SimplyIpSync.Api

/-- `MasterPinError`. -/
inductive MasterPinError
  | noMaster
  | multipleMasters (ids : List Uuid)
  | missingUniquenessIndex
  deriving DecidableEq, Repr

/-- `MasterPin`: a cell that is written at most once. -/
structure MasterPin where
  cell : Option Uuid
  deriving DecidableEq, Repr

/-- `MasterPin::new`. -/
def MasterPin.new : MasterPin := ⟨none⟩

/-- The ids of the Master rows. -/
def masters (keys : Table ApiKey.id) : List Uuid :=
  (keys.rows.filter fun key => key.isMaster).map ApiKey.id

/-- `sole_master`. -/
def soleMaster (keys : Table ApiKey.id) : Except MasterPinError Uuid :=
  match masters keys with
  | [only] => .ok only
  | [] => .error .noMaster
  | many => .error (.multipleMasters many)

/-- `pin_at_boot`; `hasIndex` is what the catalog says about the uniqueness index. -/
def MasterPin.pinAtBoot (pin : MasterPin) (keys : Table ApiKey.id) (hasIndex : Bool) :
    Except MasterPinError Uuid × MasterPin :=
  match pin.cell with
  | some pinned => (.ok pinned, pin)
  | none =>
      match soleMaster keys with
      | .error e => (.error e, pin)
      | .ok pinned =>
          if hasIndex then (.ok pinned, ⟨some pinned⟩) else (.error .missingUniquenessIndex, pin)

/-- `resolve`. -/
def resolve (keys : Table ApiKey.id) : Option Uuid := (soleMaster keys).toOption

/-- `authenticate`: the key model the request goes on with. -/
def authenticate (keys : Table ApiKey.id) (key : ApiKey) : ApiKey :=
  if !key.isMaster then key
  else
    match resolve keys with
    | some pinned => if pinned = key.id then key else { key with isMaster := false }
    | none => { key with isMaster := false }

theorem authenticate_id (keys : Table ApiKey.id) (key : ApiKey) :
    (authenticate keys key).id = key.id := by
  rw [authenticate]
  split
  · rfl
  · split
    · split <;> rfl
    · rfl

/-- **The check.**  A key stays Master exactly when the table's only Master row is its own. -/
theorem authenticate_isMaster (keys : Table ApiKey.id) (key : ApiKey) :
    (authenticate keys key).isMaster = true ↔ key.isMaster = true ∧ resolve keys = some key.id := by
  rw [authenticate]
  cases hmaster : key.isMaster with
  | false => simp [hmaster]
  | true =>
      simp only [Bool.not_true, Bool.false_eq_true, if_false, true_and]
      cases hresolve : resolve keys with
      | none => simp
      | some pinned =>
          by_cases hsame : pinned = key.id
          · simp [hsame, hmaster]
          · simp [hsame]

/-! ### The process -/

/-- The pin, the table, the keys looked up for requests that are still to be checked, and the key
models requests have been handled with. -/
structure Process where
  pin : MasterPin
  keys : Table ApiKey.id
  pending : List ApiKey
  handled : List ApiKey

/-- What may happen after boot. -/
inductive Event
  | edit (keys : Table ApiKey.id)
  | lookup (keyHash : Bytes)
  | authenticate (i : ℕ)

/-- One event.  An edit may leave any rows that the uniqueness index admits. -/
def Process.step (s : Process) : Event → Option Process
  | .edit keys => if (masters keys).length ≤ 1 then some { s with keys := keys } else none
  | .lookup keyHash =>
      (s.keys.rows.find? fun key => key.keyHash = keyHash).map fun key =>
        { s with pending := s.pending ++ [key] }
  | .authenticate i =>
      s.pending[i]?.map fun key =>
        { s with
          pending := s.pending.eraseIdx i
          handled := s.handled ++ [Master.authenticate s.keys key] }

/-- The process after a boot that pinned the Master of `keys`. -/
def Process.booted (pin : MasterPin) (keys : Table ApiKey.id) : Process := ⟨pin, keys, [], []⟩

/-- The unique index admits no second Master row. -/
def AtMostOneMaster (keys : Table ApiKey.id) : Prop := (masters keys).length ≤ 1

/-- The key is looked up and checked without another Master than `m` having been there at both
times: its row was no Master when it was looked up, or it is none any more. -/
def OthersDemoted (m : Uuid) (s : Process) : Event → Prop
  | .edit _ => True
  | .lookup _ => True
  | .authenticate i => ∀ key ∈ s.pending[i]?, key.isMaster = true → key.id ≠ m →
      ∀ row ∈ s.keys.rows, row.id = key.id → row.isMaster = false

instance (m : Uuid) (s : Process) : (e : Event) → Decidable (OthersDemoted m s e)
  | .edit _ => isTrue trivial
  | .lookup _ => isTrue trivial
  | .authenticate i => inferInstanceAs (Decidable (∀ key ∈ s.pending[i]?, key.isMaster = true →
      key.id ≠ m → ∀ row ∈ s.keys.rows, row.id = key.id → row.isMaster = false))

/-- Every Master a request was handled with is `m`. -/
def HandledPinned (m : Uuid) (s : Process) : Prop :=
  ∀ key ∈ s.handled, key.isMaster = true → key.id = m

theorem mem_masters {keys : Table ApiKey.id} {id : Uuid} :
    id ∈ masters keys ↔ ∃ row ∈ keys.rows, row.id = id ∧ row.isMaster = true := by
  simp only [masters, List.mem_map, List.mem_filter]
  constructor
  · rintro ⟨row, ⟨hrow, hmaster⟩, hid⟩
    exact ⟨row, hrow, hid, hmaster⟩
  · rintro ⟨row, hrow, hid, hmaster⟩
    exact ⟨row, ⟨hrow, hmaster⟩, hid⟩

/-- Under the index, a key is the one that `resolve` finds when its row is a Master row. -/
theorem resolve_eq_some_iff {keys : Table ApiKey.id} (h : AtMostOneMaster keys) {id : Uuid} :
    resolve keys = some id ↔ ∃ row ∈ keys.rows, row.id = id ∧ row.isMaster = true := by
  rw [← mem_masters, resolve, soleMaster]
  rw [AtMostOneMaster] at h
  revert h
  cases masters keys with
  | nil => simp [Except.toOption]
  | cons first rest =>
      cases rest with
      | nil => simp [Except.toOption, eq_comm]
      | cons second rest =>
          intro h
          simp only [List.length_cons] at h
          omega

/-- The edits leave at most one Master row. -/
theorem Process.atMostOneMaster_of_step {s s' : Process} {e : Event} (hs : AtMostOneMaster s.keys)
    (h : s.step e = some s') : AtMostOneMaster s'.keys := by
  cases e with
  | edit keys =>
      rw [Process.step] at h
      split at h
      · rename_i hindex
        rw [← Option.some.inj h]
        exact hindex
      · cases h
  | lookup keyHash =>
      obtain ⟨key, -, rfl⟩ := Option.map_eq_some_iff.mp h
      exact hs
  | authenticate i =>
      obtain ⟨key, -, rfl⟩ := Option.map_eq_some_iff.mp h
      exact hs

/-- The key model of a check is `m`'s or no Master's exactly when the check meets no other Master. -/
theorem authenticate_pinned_iff {keys : Table ApiKey.id} (hindex : AtMostOneMaster keys)
    (m : Uuid) (key : ApiKey) :
    ((authenticate keys key).isMaster = true → key.id = m) ↔
      (key.isMaster = true → key.id ≠ m →
        ∀ row ∈ keys.rows, row.id = key.id → row.isMaster = false) := by
  rw [authenticate_isMaster, resolve_eq_some_iff hindex]
  constructor
  · intro h hmaster hother row hrow hid
    by_contra hflag
    exact hother (h ⟨hmaster, row, hrow, hid, by simpa using hflag⟩)
  · rintro h ⟨hmaster, row, hrow, hid, hflag⟩
    by_contra hother
    rw [h hmaster hother row hrow hid] at hflag
    cases hflag

/-- **One step** keeps the law exactly when it meets no other Master. -/
theorem handledPinned_step_iff {m : Uuid} {s s' : Process} {e : Event}
    (hindex : AtMostOneMaster s.keys) (h : s.step e = some s') :
    HandledPinned m s' ↔ HandledPinned m s ∧ OthersDemoted m s e := by
  cases e with
  | edit keys =>
      rw [Process.step] at h
      split at h
      · obtain rfl := Option.some.inj h
        exact (and_iff_left trivial).symm
      · cases h
  | lookup keyHash =>
      obtain ⟨key, -, rfl⟩ := Option.map_eq_some_iff.mp h
      exact (and_iff_left trivial).symm
  | authenticate i =>
      obtain ⟨key, hkey, rfl⟩ := Option.map_eq_some_iff.mp h
      have hlast : OthersDemoted m s (.authenticate i) ↔
          ((Master.authenticate s.keys key).isMaster = true →
            (Master.authenticate s.keys key).id = m) := by
        rw [authenticate_id, authenticate_pinned_iff hindex, OthersDemoted, hkey]
        simp only [Option.mem_some, forall_eq']
      rw [hlast, HandledPinned, HandledPinned, List.forall_mem_append, List.forall_mem_singleton]

/-- A boot that pins finds one Master row. -/
theorem masters_of_pinAtBoot {keys : Table ApiKey.id} {hasIndex : Bool} {m : Uuid}
    {pin : MasterPin} (h : MasterPin.new.pinAtBoot keys hasIndex = (.ok m, pin)) :
    masters keys = [m] := by
  simp only [MasterPin.pinAtBoot, MasterPin.new, soleMaster] at h
  split at h
  · cases h
  · rename_i pinned hsole
    split at hsole
    · rename_i only honly
      split at h
      · rw [honly, Except.ok.inj hsole, Except.ok.inj (Prod.mk.inj h).1]
      · cases h
    · cases hsole
    · cases hsole

/-- **The pinned Master.**  After a boot that pinned `m`, whatever is edited and whoever asks: every
request that was handled with a Master key model was handled with `m`, if and only if no check has
met the row of another key that was the Master row when the key was looked up and is it again or
still when it is checked. -/
theorem handled_master_is_pinned {keys : Table ApiKey.id} {hasIndex : Bool} {m : Uuid}
    {pin : MasterPin} (hboot : MasterPin.new.pinAtBoot keys hasIndex = (.ok m, pin))
    {events : List Event} {s : Process}
    (hrun : runEvents Process.step anyStep (.booted pin keys) events = some s) :
    (∀ key ∈ s.handled, key.isMaster = true → key.id = m) ↔
      runEvents Process.step (OthersDemoted m) (.booted pin keys) events = some s := by
  have hone : AtMostOneMaster keys := by
    rw [AtMostOneMaster, masters_of_pinAtBoot hboot]
    rfl
  have hkeep : ∀ s e s', AtMostOneMaster s.keys → Process.step s e = some s' →
      AtMostOneMaster s'.keys ∧ (HandledPinned m s' ↔ HandledPinned m s ∧ OthersDemoted m s e) := by
    intro s e s' hindex hstep
    exact ⟨Process.atMostOneMaster_of_step hindex hstep, handledPinned_step_iff hindex hstep⟩
  exact (runEvents_keeps_iff hkeep hone hrun).trans (and_iff_right (List.forall_mem_nil _))

/-! ### A promoted key -/

/-- A key row with a Master flag and otherwise no rights. -/
def plainKey (id : Uuid) (isMaster : Bool) : ApiKey where
  id := id
  name := "key"
  keyHash := [UInt8.ofNat id]
  signingSecret := none
  keyPrefix := []
  isMaster := isMaster
  canManageKeys := false
  canManageSources := false
  canManageVaults := false
  parentKeyId := none
  boundIps := none
  createdAt := 0
  updatedAt := 0

/-- The table of keys 1 and 2, of which one is the Master. -/
def twoKeys (firstIsMaster : Bool) : Table ApiKey.id where
  rows := [plainKey 1 firstIsMaster, plainKey 2 !firstIsMaster]
  nodup := by cases firstIsMaster <;> decide

/-- Between its lookup and its check, key 2 loses the Master flag that it had got, and keeps no right
of a Master. -/
theorem demoted_key_is_handled_as_itself :
    ∃ s, runEvents Process.step anyStep (.booted ⟨some 1⟩ (twoKeys true))
        [.edit (twoKeys false), .lookup [2], .edit (twoKeys true), .lookup [1], .authenticate 0,
          .authenticate 0] = some s ∧
      s.handled = [plainKey 2 false, plainKey 1 true] ∧
      ∀ key ∈ s.handled, key.isMaster = true → key.id = 1 := by
  have hrun : runEvents Process.step anyStep (.booted ⟨some 1⟩ (twoKeys true))
      [.edit (twoKeys false), .lookup [2], .edit (twoKeys true), .lookup [1], .authenticate 0,
        .authenticate 0] =
      some ⟨⟨some 1⟩, twoKeys true, [], [plainKey 2 false, plainKey 1 true]⟩ := rfl
  exact ⟨_, hrun, rfl, (handled_master_is_pinned
    (by decide : MasterPin.new.pinAtBoot (twoKeys true) true = (.ok 1, ⟨some 1⟩)) hrun).mpr rfl⟩

/-- **A promoted key.**  After the boot the Master flag is moved from key 1 to key 2, which leaves one
Master row; the next request of key 2 is handled as Master. -/
theorem promoted_key_is_handled_as_master :
    MasterPin.new.pinAtBoot (twoKeys true) true = (.ok 1, ⟨some 1⟩) ∧
      ∃ s, Reaches Process.step anyStep (.booted ⟨some 1⟩ (twoKeys true)) s ∧
        ∃ key ∈ s.handled, key.isMaster = true ∧ key.id ≠ 1 := by
  refine ⟨by decide, ⟨⟨some 1⟩, twoKeys false, [], [plainKey 2 true]⟩, ?_, plainKey 2 true, ?_⟩
  · exact ((Reaches.refl.tail (e := .edit (twoKeys false)) trivial rfl).tail
      (e := .lookup [2]) trivial rfl).tail (e := .authenticate 0) trivial rfl
  · decide

end SimplyIpSync.Master
