import SimplyIpSync.Lib.Program

/-!
# Programs among others

A program is stepped on a state that others change between its statements.  What they may do depends
on the statements the program has issued so far, its log: `rely log` relates the states before and
after a step of theirs.  In return every statement of the program keeps to `guar`.

`Among rely guar Q p log s` says that `p`, stepped from `s` with this log, keeps to `guar` and ends
in `Q`, whatever the others do.  It is shown construction by construction, with an assertion that
survives interference (`Stable`) in front of every statement, and it is kept by every step of the
program (`Among.step`) and of the others (`Among.interfere`).
-/

namespace SimplyIpSync.Program.Prog

open Relation

variable {σ τ ε α β : Type}

/-- The assertion survives every step that the relation allows. -/
def Stable (rely : σ → σ → Prop) (P : σ → Prop) : Prop := ∀ s s', P s → rely s s' → P s'

theorem Stable.of_reflTransGen {rely : σ → σ → Prop} {P : σ → Prop} {s s' : σ}
    (h : Stable rely P) (hP : P s) (hs : ReflTransGen rely s s') : P s' := by
  induction hs with
  | refl => exact hP
  | tail _ hstep ih => exact h _ _ ih hstep

/-- Stepped from `s` while others take the steps `rely` allows, the program keeps to `guar` and ends
in `Q`. -/
def Among (rely guar : List τ → σ → σ → Prop) : {α : Type} →
    (Except ε α → List τ → σ → Prop) → Prog σ τ ε α → List τ → σ → Prop
  | _, Q, .done r, log, s => Q r log s
  | _, _, .hang, _, _ => True
  | _, Q, .stmt tag effect next, log, s =>
      ∀ s', ReflTransGen (rely log) s s' →
        match effect s' with
        | .ok (b, s'') =>
            guar (log ++ [tag]) s' s'' ∧ Among rely guar Q (next b) (log ++ [tag]) s''
        | .error e => Q (.error e) (log ++ [tag]) s'
  | _, Q, .txn opening _ body next, log, s =>
      ∀ s', ReflTransGen (rely log) s s' →
        match exec body s' with
        | (.answered b, s'') =>
            guar (log ++ [opening]) s' s'' ∧ Among rely guar Q (next b) (log ++ [opening]) s''
        | (.refused e, _) => Q (.error e) (log ++ [opening]) s'
        | (.hung, _) => True

variable {rely guar : List τ → σ → σ → Prop} {log : List τ} {s s' : σ}

/-! ### The rules -/

section Rules

variable {Q : Except ε β → List τ → σ → Prop}

theorem among_pure {b : β} (h : Q (.ok b) log s) : Among rely guar Q (pure b) log s := h

/-- A decision taken without a statement. -/
theorem among_lift {r : Except ε α} {k : α → Prog σ τ ε β}
    (hrefused : ∀ e, r = .error e → Q (.error e) log s)
    (hnext : ∀ a, r = .ok a → Among rely guar Q (k a) log s) :
    Among rely guar Q (lift r >>= k) log s := by
  cases r with
  | ok a => exact hnext a rfl
  | error e => exact hrefused e rfl

/-- A statement, issued where a stable assertion holds. -/
theorem among_perform {P : σ → Prop} {tag : τ} {effect : σ → Except ε (α × σ)}
    {k : α → Prog σ τ ε β} (hstable : Stable (rely log) P) (hP : P s)
    (hrefused : ∀ s e, P s → effect s = .error e → Q (.error e) (log ++ [tag]) s)
    (hnext : ∀ s a s', P s → effect s = .ok (a, s') →
      guar (log ++ [tag]) s s' ∧ Among rely guar Q (k a) (log ++ [tag]) s') :
    Among rely guar Q (perform tag effect >>= k) log s := by
  intro s₁ hs₁
  have hP₁ : P s₁ := hstable.of_reflTransGen hP hs₁
  cases heffect : effect s₁ with
  | ok out => exact hnext s₁ out.1 out.2 hP₁ heffect
  | error e => exact hrefused s₁ e hP₁ heffect

/-- A statement that only reads. -/
theorem among_query {P : σ → Prop} {tag : τ} {f : σ → α} {k : α → Prog σ τ ε β}
    (hguar : ∀ log s, guar log s s) (hstable : Stable (rely log) P) (hP : P s)
    (hnext : ∀ s, P s → Among rely guar Q (k (f s)) (log ++ [tag]) s) :
    Among rely guar Q (query tag f >>= k) log s := by
  intro s₁ hs₁
  exact ⟨hguar _ _, hnext s₁ (hstable.of_reflTransGen hP hs₁)⟩

end Rules

/-! ### Steps -/

variable {Q : Except ε α → List τ → σ → Prop} {p : Prog σ τ ε α}

/-- **A step of the program.** -/
theorem Among.step (h : Among rely guar Q p log s) :
    Among rely guar Q (Prog.step p s).1 (log ++ p.tag?.toList) (Prog.step p s).2 ∧
      ((Prog.step p s).2 = s ∨ guar (log ++ p.tag?.toList) s (Prog.step p s).2) := by
  cases p with
  | done r => exact ⟨by simpa [Prog.step, tag?] using h, Or.inl rfl⟩
  | hang => exact ⟨trivial, Or.inl rfl⟩
  | stmt tag effect next =>
      have hnow := h s ReflTransGen.refl
      simp only [Prog.step, tag?, Option.toList_some]
      cases heffect : effect s with
      | ok out =>
          rw [heffect] at hnow
          exact ⟨hnow.2, Or.inr hnow.1⟩
      | error e =>
          rw [heffect] at hnow
          exact ⟨hnow, Or.inl rfl⟩
  | txn opening closing body next =>
      have hnow := h s ReflTransGen.refl
      simp only [Prog.step, tag?, Option.toList_some]
      rcases hexec : exec body s with ⟨b | e | _, s'⟩
      · rw [hexec] at hnow
        exact ⟨hnow.2, Or.inr hnow.1⟩
      · rw [hexec] at hnow
        exact ⟨hnow, Or.inl rfl⟩
      · exact ⟨trivial, Or.inl rfl⟩

/-- **A step of the others.** -/
theorem Among.interfere (hQ : ∀ r log, Stable (rely log) (Q r log))
    (h : Among rely guar Q p log s) (hs : rely log s s') : Among rely guar Q p log s' := by
  cases p with
  | done r => exact hQ r log _ _ h hs
  | hang => trivial
  | stmt tag effect next => exact fun s₁ hs₁ => h s₁ (ReflTransGen.head hs hs₁)
  | txn opening closing body next => exact fun s₁ hs₁ => h s₁ (ReflTransGen.head hs hs₁)

end SimplyIpSync.Program.Prog
