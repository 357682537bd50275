import Mathlib.Logic.Relation
import Mathlib.Tactic

/-!
# Scripts that may be interrupted

A script is a list of statements, each of which takes a state to another one or fails, leaving the
state as it was.  A run may end behind any statement: there the next one failed, or nobody was left
to run it.  What it did stays done, and another run begins where it ended.

An `Outline` annotates a script with assertions, one before each statement.  If every assertion
implies an invariant, the invariant holds wherever the script is interrupted (`Outline.leaves`), and
so after any number of interrupted runs (`invariant_of_outlines`).
-/

namespace SimplyIpSync.Scripts

open Relation

variable {σ : Type*}

/-- A list of statements. -/
abbrev Script (σ : Type*) := List (σ → Option σ)

/-- The script from its first statement to its last. -/
def run : Script σ → σ → Option σ
  | [], s => some s
  | stmt :: rest, s => (stmt s).bind (run rest)

/-- The script may end in this state: behind its last statement, or interrupted before. -/
inductive Leaves : Script σ → σ → σ → Prop
  | stop {script : Script σ} {s : σ} : Leaves script s s
  | step {stmt : σ → Option σ} {rest : Script σ} {s mid t : σ} :
      stmt s = some mid → Leaves rest mid t → Leaves (stmt :: rest) s t

@[simp] theorem run_nil (s : σ) : run [] s = some s := rfl

theorem run_cons_of_some {stmt : σ → Option σ} {rest : Script σ} {s mid : σ}
    (h : stmt s = some mid) : run (stmt :: rest) s = run rest mid := by
  rw [run, h, Option.bind_some]

theorem run_append (first rest : Script σ) (s : σ) :
    run (first ++ rest) s = (run first s).bind (run rest) := by
  induction first generalizing s with
  | nil => rfl
  | cons stmt first ih =>
      rw [List.cons_append, run, run, Option.bind_assoc]
      exact congrArg (Option.bind (stmt s)) (funext ih)

/-- A script may end behind any of its statements. -/
theorem leaves_of_run_take {script : Script σ} (k : ℕ) {s t : σ}
    (h : run (script.take k) s = some t) : Leaves script s t := by
  induction script generalizing k s with
  | nil =>
      rw [List.take_nil] at h
      obtain rfl := Option.some.inj h
      exact .stop
  | cons stmt rest ih =>
      cases k with
      | zero =>
          obtain rfl := Option.some.inj h
          exact .stop
      | succ k =>
          obtain ⟨mid, hmid, hrest⟩ := Option.bind_eq_some_iff.mp h
          exact .step hmid (ih k hrest)

/-! ### Outlines -/

/-- The script with an assertion before each statement, from `P` to `Q`; each implies `I`. -/
inductive Outline (I : σ → Prop) : Script σ → (σ → Prop) → (σ → Prop) → Prop
  | nil {P Q : σ → Prop} : (∀ s, P s → I s) → (∀ s, P s → Q s) → Outline I [] P Q
  | cons {stmt : σ → Option σ} {rest : Script σ} {P M Q : σ → Prop} : (∀ s, P s → I s) →
      (∀ s t, P s → stmt s = some t → M t) → Outline I rest M Q → Outline I (stmt :: rest) P Q

variable {I P Q : σ → Prop} {script rest : Script σ} {s t : σ}

/-- **Wherever the script is interrupted,** the invariant holds. -/
theorem Outline.leaves (h : Outline I script P Q) (hs : P s) (hleaves : Leaves script s t) :
    I t := by
  induction h generalizing s with
  | nil hinv _ =>
      cases hleaves
      exact hinv t hs
  | cons hinv hstmt _ ih =>
      cases hleaves with
      | stop => exact hinv t hs
      | step hmid hrest => exact ih (hstmt s _ hs hmid) hrest

/-- At its end the last assertion holds. -/
theorem Outline.run_eq_some (h : Outline I script P Q) (hs : P s) (hrun : run script s = some t) :
    Q t := by
  induction h generalizing s with
  | nil _ hlast =>
      obtain rfl := Option.some.inj hrun
      exact hlast s hs
  | cons _ hstmt _ ih =>
      obtain ⟨mid, hmid, hrest⟩ := Option.bind_eq_some_iff.mp hrun
      exact ih (hstmt s mid hs hmid) hrest

/-- Outlines of two scripts make one of both. -/
theorem Outline.append {M : σ → Prop} (h : Outline I script P M) (h' : Outline I rest M Q) :
    Outline I (script ++ rest) P Q := by
  induction h with
  | nil hinv hlast =>
      cases h' with
      | nil _ hlast' => exact .nil hinv fun s hs => hlast' s (hlast s hs)
      | cons _ hstmt hrest => exact .cons hinv (fun s t hs => hstmt s t (hlast s hs)) hrest
  | cons hinv hstmt _ ih => exact .cons hinv hstmt (ih h')

/-- A script all of whose statements keep the invariant. -/
theorem Outline.of_forall (h : ∀ stmt ∈ script, ∀ s t, I s → stmt s = some t → I t) :
    Outline I script I I := by
  induction script with
  | nil => exact .nil (fun _ hs => hs) fun _ hs => hs
  | cons stmt script ih =>
      exact .cons (fun _ hs => hs) (h stmt List.mem_cons_self)
        (ih fun stmt' hmem => h stmt' (List.mem_cons_of_mem _ hmem))

/-- A script that is never reached. -/
theorem Outline.of_not (h : ∀ s, ¬P s) : Outline I script P Q := by
  induction script generalizing P with
  | nil => exact .nil (fun s hs => absurd hs (h s)) fun s hs => absurd hs (h s)
  | cons stmt script ih =>
      exact .cons (fun s hs => absurd hs (h s)) (M := fun _ => False)
        (fun s _ hs => absurd hs (h s)) (ih fun _ => id)

/-- Some of the scripts was run, to its end or not. -/
def Interrupted (scripts : List (Script σ)) (s t : σ) : Prop :=
  ∃ script ∈ scripts, Leaves script s t

/-- **After any number of runs** of scripts with an outline, interrupted or not, the invariant
holds. -/
theorem invariant_of_outlines {scripts : List (Script σ)}
    (h : ∀ script ∈ scripts, ∃ Q, Outline I script I Q) (hs : I s)
    (hruns : ReflTransGen (Interrupted scripts) s t) : I t := by
  induction hruns with
  | refl => exact hs
  | tail _ hlast ih =>
      obtain ⟨script, hmem, hleaves⟩ := hlast
      obtain ⟨after, houtline⟩ := h script hmem
      exact houtline.leaves ih hleaves

end SimplyIpSync.Scripts
