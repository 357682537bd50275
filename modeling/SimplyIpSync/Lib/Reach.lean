import Mathlib.Tactic

/-!
# Runs of a partial step function

A system is a step function `σ → ε → Option σ`: an event is refused (`none`) where it is not
enabled.  `Reaches step good s t` says that some run leads from `s` to `t` and that every step
of it meets the side condition `good`, a predicate on the state before the step and the event.
With `good` always true these are all runs.

The induction over runs is packaged once, in `Reaches.invariant`: a property that holds at the start
and that every step of the run preserves holds wherever the run leads.
`runEvents` executes a list of events, so that a concrete run can be computed and a concrete state
shown to be reached.
-/

namespace SimplyIpSync.Reach

variable {σ ε : Type*}

/-- The states reached from `s` by runs whose steps all meet `good`. -/
inductive Reaches (step : σ → ε → Option σ) (good : σ → ε → Prop) (s : σ) : σ → Prop
  | refl : Reaches step good s s
  | tail {t u : σ} {e : ε} :
      Reaches step good s t → good t e → step t e = some u → Reaches step good s u

/-- The side condition of the runs that may take any enabled step. -/
def anyStep : σ → ε → Prop := fun _ _ => True

variable {step : σ → ε → Option σ} {good good' : σ → ε → Prop} {s t u : σ}

theorem Reaches.trans (hst : Reaches step good s t) (htu : Reaches step good t u) :
    Reaches step good s u := by
  induction htu with
  | refl => exact hst
  | tail _ hgood hstep ih => exact ih.tail hgood hstep

/-- Weakening the side condition keeps every run. -/
theorem Reaches.mono (himp : ∀ s e, good s e → good' s e) (h : Reaches step good s t) :
    Reaches step good' s t := by
  induction h with
  | refl => exact Reaches.refl
  | tail _ hgood hstep ih => exact ih.tail (himp _ _ hgood) hstep

/-- **Invariant rule.**  What holds at the start and survives every step of the run holds in
every state the run reaches. -/
theorem Reaches.invariant {P : σ → Prop} (h : Reaches step good s t) (hinit : P s)
    (hstep : ∀ s e s', P s → good s e → step s e = some s' → P s') : P t := by
  induction h with
  | refl => exact hinit
  | tail _ hgood hs ih => exact hstep _ _ _ ih hgood hs

instance (s : σ) (e : ε) : Decidable (anyStep s e) := isTrue trivial

/-- Execute a list of events; `none` as soon as one of them is not enabled or not `good`. -/
def runEvents (step : σ → ε → Option σ) (good : σ → ε → Prop) [∀ s e, Decidable (good s e)] :
    σ → List ε → Option σ
  | s, [] => some s
  | s, e :: es => if good s e then (step s e).bind fun s' => runEvents step good s' es else none

theorem reaches_of_runEvents_of_forall {other : σ → ε → Prop} [∀ s e, Decidable (good s e)]
    {es : List ε} (h : runEvents step good s es = some t)
    (hother : ∀ e ∈ es, ∀ s, good s e → other s e) : Reaches step other s t := by
  induction es generalizing s with
  | nil =>
      rw [runEvents, Option.some.injEq] at h
      exact h ▸ Reaches.refl
  | cons e es ih =>
      rw [runEvents] at h
      split at h
      · rename_i hgood
        obtain ⟨s', hs', hrest⟩ := Option.bind_eq_some_iff.mp h
        have hfirst : Reaches step other s s' :=
          Reaches.refl.tail (hother e List.mem_cons_self s hgood) hs'
        exact hfirst.trans (ih hrest fun e he => hother e (List.mem_cons_of_mem _ he))
      · cases h

theorem reaches_of_runEvents [∀ s e, Decidable (good s e)] {es : List ε}
    (h : runEvents step good s es = some t) : Reaches step good s t :=
  reaches_of_runEvents_of_forall h fun _ _ _ hgood => hgood

/-- **Exact-condition rule.**  If, where `Inv` holds, a step keeps `P` exactly when it meets `good`,
and `P` is lost for good, then a run keeps `P` exactly when all of its steps meet `good`. -/
theorem runEvents_keeps_iff {Inv P : σ → Prop} [∀ s e, Decidable (good s e)]
    (hkeep : ∀ s e s', Inv s → step s e = some s' → Inv s' ∧ (P s' ↔ P s ∧ good s e))
    {es : List ε} (hs : Inv s) (h : runEvents step anyStep s es = some t) :
    P t ↔ P s ∧ runEvents step good s es = some t := by
  induction es generalizing s with
  | nil =>
      obtain rfl := Option.some.inj h
      exact ⟨fun hP => ⟨hP, rfl⟩, And.left⟩
  | cons e es ih =>
      have hany : anyStep s e := trivial
      rw [runEvents, if_pos hany] at h
      obtain ⟨s', hs', hrest⟩ := Option.bind_eq_some_iff.mp h
      obtain ⟨hinv, hiff⟩ := hkeep s e s' hs hs'
      rw [ih hinv hrest, hiff, and_assoc, runEvents]
      refine and_congr_right fun _ => ?_
      by_cases hgood : good s e
      · rw [if_pos hgood, hs', Option.bind_some, and_iff_right hgood]
      · rw [if_neg hgood]
        exact iff_of_false (fun h => hgood h.1) (fun h => by cases h)

/-! ### Lockstep -/

section Lists

variable {α β : Type*} {R : α → β → Prop} {as : List α} {bs : List β}

end Lists

end SimplyIpSync.Reach
