import Mathlib.Data.Option.Defs
import SimplyIpSync.Parsers.JsonPath

/-!
# The fields of JSON objects

Two readers of one text, or a reader of what was printed, come to the same value up to the order of
fields and the numbers, which each of them rounds in its own way: `SameValue`.  A configuration has
no numbers, and depends on its fields only (`parse_congr`).
-/

namespace SimplyIpSync.Parsers.JsonPath

variable {fields fields' : List (String × Value)}

theorem mem_of_get_eq_some {name : String} {v : Value} (h : get fields name = some v) :
    (name, v) ∈ fields := by
  obtain ⟨field, hfind, rfl⟩ := Option.map_eq_some_iff.mp h
  have hname : field.1 = name := by simpa using List.find?_some hfind
  exact hname ▸ List.mem_of_find?_eq_some hfind

/-- The same JSON value: numbers are not compared, and fields come in any order. -/
inductive SameValue : Value → Value → Prop
  | null : SameValue .null .null
  | bool {b : Bool} : SameValue (.bool b) (.bool b)
  | number {text text' : String} : SameValue (.number text) (.number text')
  | string {text : String} : SameValue (.string text) (.string text)
  | array {items items' : List Value} : items.length = items'.length →
      (∀ (i : ℕ) v v', items[i]? = some v → items'[i]? = some v' → SameValue v v') →
        SameValue (.array items) (.array items')
  | object {fields fields' : List (String × Value)} :
      (∀ name, (get fields name).isSome = (get fields' name).isSome) →
        (∀ name v v', get fields name = some v → get fields' name = some v' →
          SameValue v v') →
          SameValue (.object fields) (.object fields')

theorem SameValue.refl (v : Value) : SameValue v v := by
  match v with
  | .null => exact .null
  | .bool _ => exact .bool
  | .number _ => exact .number
  | .string _ => exact .string
  | .array items =>
      refine .array rfl fun i v v' hv hv' => ?_
      obtain rfl := Option.some.inj (hv.symm.trans hv')
      have hmem := List.sizeOf_lt_of_mem (List.mem_of_getElem? hv)
      exact SameValue.refl v
  | .object fields =>
      refine .object (fun _ => rfl) fun name v v' hv hv' => ?_
      obtain rfl := Option.some.inj (hv.symm.trans hv')
      have hmem := List.sizeOf_lt_of_mem (mem_of_get_eq_some hv)
      exact SameValue.refl v
termination_by v
decreasing_by
  · simp_wf
    omega
  · simp_wf
    simp only [Prod.mk.sizeOf_spec] at hmem
    omega

theorem SameValue.symm {v v' : Value} (h : SameValue v v') : SameValue v' v := by
  induction h with
  | null => exact .null
  | bool => exact .bool
  | number => exact .number
  | string => exact .string
  | array hlength _ ih => exact .array hlength.symm fun i v v' hv hv' => ih i v' v hv' hv
  | object hnames _ ih =>
      exact .object (fun name => (hnames name).symm) fun name v v' hv hv' => ih name v' v hv' hv

theorem SameValue.trans {v v' v'' : Value} (h : SameValue v v') (h' : SameValue v' v'') :
    SameValue v v'' := by
  induction h generalizing v'' with
  | null => exact h'
  | bool => exact h'
  | number =>
      cases h'
      exact .number
  | string => exact h'
  | @array items items' hlength _ ih =>
      cases h' with
      | array hlength' hitems' =>
          refine .array (hlength.trans hlength') fun i v w hv hw => ?_
          have hlt : i < items'.length := hlength ▸ (List.getElem?_eq_some_iff.mp hv).1
          exact ih i v _ hv (List.getElem?_eq_getElem hlt) (hitems' i _ w
            (List.getElem?_eq_getElem hlt) hw)
  | @object fields fields' hnames _ ih =>
      cases h' with
      | object hnames' hfields' =>
          refine .object (fun name => (hnames name).trans (hnames' name)) fun name v w hv hw => ?_
          have hsome : (get fields' name).isSome = true := by rw [← hnames, hv]; rfl
          obtain ⟨mid, hmid⟩ := Option.isSome_iff_exists.mp hsome
          exact ih name v mid hv hmid (hfields' name mid w hmid hw)

/-- The same fields. -/
abbrev SameFields (fields fields' : List (String × Value)) : Prop :=
  SameValue (.object fields) (.object fields')

theorem sameFields_iff : SameFields fields fields' ↔
    ∀ name, Option.Rel SameValue (get fields name) (get fields' name) := by
  constructor
  · rintro (_ | _ | _ | _ | _ | ⟨hnames, hfields⟩) name
    have hname := hnames name
    have hfield := hfields name
    revert hname hfield
    cases get fields name <;> cases get fields' name
    · exact fun _ _ => .none
    · exact fun hname _ => absurd hname Bool.false_ne_true
    · exact fun hname _ => absurd hname.symm Bool.false_ne_true
    · exact fun _ hfield => .some (hfield _ _ rfl rfl)
  · intro h
    refine .object (fun name => ?_) fun name v v' hv hv' => ?_
    · have hname := h name
      revert hname
      cases get fields name <;> cases get fields' name <;> intro hname <;> cases hname <;> rfl
    · have hname := h name
      rw [hv, hv'] at hname
      cases hname with
      | some hsame => exact hsame

theorem SameFields.symm (h : SameFields fields fields') : SameFields fields' fields :=
  SameValue.symm h

theorem SameFields.get_eq_some (h : SameFields fields fields') {name : String} {v : Value}
    (hv : get fields name = some v) : ∃ v', get fields' name = some v' ∧ SameValue v v' := by
  have hname := sameFields_iff.mp h name
  rw [hv] at hname
  cases hget : get fields' name with
  | none =>
      rw [hget] at hname
      cases hname
  | some v' =>
      rw [hget] at hname
      cases hname with
      | some hsame => exact ⟨v', rfl, hsame⟩

theorem SameFields.get_eq_none (h : SameFields fields fields') {name : String}
    (hv : get fields name = none) : get fields' name = none := by
  have hname := sameFields_iff.mp h name
  rw [hv] at hname
  cases hget : get fields' name with
  | none => rfl
  | some v' =>
      rw [hget] at hname
      cases hname

theorem get_cons (field : String × Value) (fields : List (String × Value)) (name : String) :
    get (field :: fields) name = if field.1 = name then some field.2 else get fields name := by
  rw [get, List.find?_cons]
  by_cases hname : field.1 = name
  · simp [hname]
  · simp [hname, get]

theorem get_filter (p : String → Bool) (name : String) :
    get (fields.filter fun field => p field.1) name =
      if p name = true then get fields name else none := by
  induction fields with
  | nil => simp [get]
  | cons field fields ih =>
      rw [List.filter_cons, get_cons]
      by_cases hname : field.1 = name
      · subst hname
        split
        · rw [get_cons, if_pos rfl, if_pos rfl]
        · rename_i hno
          rw [ih, if_neg hno]
      · rw [if_neg hname, ← ih]
        split
        · rw [get_cons, if_neg hname]
        · rfl

/-- No name occurs twice, here or one level down. -/
def Distinct (fields : List (String × Value)) : Prop :=
  (fields.map Prod.fst).Nodup ∧
    ∀ name hs, get fields name = some (.object hs) → (hs.map Prod.fst).Nodup

theorem get_eq_some_iff (h : (fields.map Prod.fst).Nodup) {name : String} {v : Value} :
    get fields name = some v ↔ (name, v) ∈ fields := by
  refine ⟨mem_of_get_eq_some, fun hmem => ?_⟩
  induction fields with
  | nil => cases hmem
  | cons field fields ih =>
      rw [List.map_cons, List.nodup_cons] at h
      rw [get_cons]
      rcases List.mem_cons.mp hmem with rfl | hmem
      · exact if_pos rfl
      · have hne : field.1 ≠ name := by
          rintro rfl
          exact h.1 (List.mem_map.mpr ⟨_, hmem, rfl⟩)
        rw [if_neg hne]
        exact ih h.2 hmem

theorem sameFields_nil : SameFields fields [] ↔ fields = [] := by
  constructor
  · intro h
    cases fields with
    | nil => rfl
    | cons field fields =>
        have hget : get (field :: fields) field.1 = some field.2 := by
          rw [get_cons, if_pos rfl]
        obtain ⟨v', hv', -⟩ := h.get_eq_some hget
        cases hv'
  · rintro rfl
    exact sameFields_iff.mpr fun _ => .none

/-! ### What depends on the fields -/

theorem SameValue.asStr {v v' : Value} (h : SameValue v v') : v.asStr = v'.asStr := by
  cases h <;> rfl

theorem SameValue.asBool {v v' : Value} (h : SameValue v v') : v.asBool = v'.asBool := by
  cases h <;> rfl

/-- What depends on the value of a field alone. -/
theorem SameFields.bind {β : Type} (h : SameFields fields fields') {f : Value → Option β}
    (hf : ∀ v v', SameValue v v' → f v = f v') (name : String) :
    (get fields name).bind f = (get fields' name).bind f := by
  have hname := sameFields_iff.mp h name
  revert hname
  generalize get fields name = out
  generalize get fields' name = out'
  intro hname
  cases hname with
  | none => rfl
  | some hsame => exact hf _ _ hsame

/-- **The same fields are parsed by the same configuration.** -/
theorem parse_congr {fromStr : String → Except String Value} {text text' : String}
    (hread : fromStr text = .ok (.object fields))
    (hread' : fromStr text' = .ok (.object fields')) (h : SameFields fields fields') :
    JsonPathConfig.parse fromStr text = JsonPathConfig.parse fromStr text' := by
  have hstr : ∀ name, (get fields name).bind Value.asStr = (get fields' name).bind Value.asStr :=
    h.bind fun _ _ hsame => hsame.asStr
  have hbool : ∀ name, (get fields name).bind Value.asBool =
      (get fields' name).bind Value.asBool := h.bind fun _ _ hsame => hsame.asBool
  simp only [JsonPathConfig.parse, hread, hread', Value.asObject, lastSeenSelector, field, hstr,
    hbool]

end SimplyIpSync.Parsers.JsonPath
