import SimplyIpSync.Lib.Guarantee

/-!
# What a program does to the state while an invariant holds

`Assures inv guar V p` says that every statement the program issues where `inv` holds keeps to
`guar`, and that `V` holds of what the program answers.  A value a statement returns is known by
what `V` says of it when it was read; what is said has to stay true whatever others do to the state.

`Secures R p` says that the program does not answer before `R` has held after one of its own
statements.  It tells of a trace that a program leaves behind and that nobody removes.
-/

namespace SimplyIpSync.Program.Prog

variable {σ τ ε α β : Type}

/-- Every statement issued where `inv` holds keeps to `guar`, and the answer satisfies `V`. -/
def Assures (inv : σ → Prop) (guar : σ → σ → Prop) : {α : Type} → (α → Prop) → Prog σ τ ε α → Prop
  | _, V, .done (.ok a) => V a
  | _, _, .done (.error _) => True
  | _, _, .hang => True
  | _, V, .stmt _ effect next =>
      ∀ s b s', inv s → effect s = .ok (b, s') → guar s s' ∧ Assures inv guar V (next b)
  | _, V, .txn _ _ body next =>
      ∀ s b s', inv s → exec body s = (.answered b, s') →
        guar s s' ∧ Assures inv guar V (next b)

variable {inv : σ → Prop} {guar : σ → σ → Prop} {V : α → Prop} {W : β → Prop}

/-! ### The rules -/

theorem assures_pure {a : α} (h : V a) : Assures inv guar V (pure a : Prog σ τ ε α) := h

theorem assures_refuse (e : ε) : Assures inv guar V (refuse e : Prog σ τ ε α) := trivial

theorem assures_lift {r : Except ε α} (h : ∀ a, r = .ok a → V a) :
    Assures inv guar V (lift r : Prog σ τ ε α) := by
  cases r with
  | ok a => exact h a rfl
  | error e => trivial

theorem assures_perform {tag : τ} {effect : σ → Except ε (α × σ)}
    (h : ∀ s a s', inv s → effect s = .ok (a, s') → guar s s' ∧ V a) :
    Assures inv guar V (perform tag effect) := h

theorem assures_query (hrefl : ∀ s, guar s s) {tag : τ} {f : σ → α} (h : ∀ s, inv s → V (f s)) :
    Assures inv guar V (query tag f : Prog σ τ ε α) := by
  refine assures_perform ?_
  intro s a s' hs heffect
  obtain ⟨rfl, rfl⟩ := Prod.mk.inj (Except.ok.inj heffect)
  exact ⟨hrefl s, h s hs⟩

/-- **The rule for a sequence.** -/
theorem Assures.bind {p : Prog σ τ ε α} {k : α → Prog σ τ ε β} (hp : Assures inv guar V p)
    (hk : ∀ a, V a → Assures inv guar W (k a)) : Assures inv guar W (p >>= k) := by
  show Assures inv guar W (p.bind k)
  induction p with
  | done r =>
      cases r with
      | ok a => exact hk a hp
      | error e => trivial
  | hang => trivial
  | stmt tag effect next ih =>
      intro s b s' hs heffect
      obtain ⟨hguar, hnext⟩ := hp s b s' hs heffect
      exact ⟨hguar, ih b hnext hk⟩
  | txn opening closing body next _ ih =>
      intro s b s' hs hexec
      obtain ⟨hguar, hnext⟩ := hp s b s' hs hexec
      exact ⟨hguar, ih b hnext hk⟩

/-- A program whose answer says nothing. -/
theorem Keeps.assures {p : Prog σ τ ε α} (h : Keeps guar p) :
    Assures inv guar (fun _ => True) p := by
  induction p with
  | done r => cases r <;> trivial
  | hang => trivial
  | stmt tag effect next ih =>
      intro s b s' _ heffect
      obtain ⟨hguar, hnext⟩ := h s b s' heffect
      exact ⟨hguar, ih b hnext⟩
  | txn opening closing body next _ ih =>
      intro s b s' _ hexec
      obtain ⟨hguar, hnext⟩ := h s b s' hexec
      exact ⟨hguar, ih b hnext⟩

section Preserved

variable (hrefl : ∀ s, guar s s) (htrans : ∀ s s' s'', guar s s' → guar s' s'' → guar s s'')
  (hinv : ∀ s s', inv s → guar s s' → inv s')

include hrefl htrans hinv

/-- Run alone from the invariant, the program keeps to the guarantee as a whole. -/
theorem Assures.exec {p : Prog σ τ ε α} (h : Assures inv guar V p) {s : σ} (hs : inv s) :
    guar s (Prog.exec p s).2 ∧ ∀ a, (Prog.exec p s).1 = .answered a → V a := by
  induction p generalizing s with
  | done r =>
      cases r with
      | ok a =>
          refine ⟨hrefl s, ?_⟩
          rintro _ ⟨⟩
          exact h
      | error e =>
          refine ⟨hrefl s, ?_⟩
          rintro _ ⟨⟩
  | hang =>
      refine ⟨hrefl s, ?_⟩
      rintro _ ⟨⟩
  | stmt tag effect next ih =>
      simp only [Prog.exec]
      cases heffect : effect s with
      | ok out =>
          obtain ⟨hguar, hnext⟩ := h s out.1 out.2 hs heffect
          obtain ⟨hrest, hanswer⟩ := ih out.1 hnext (hinv _ _ hs hguar)
          exact ⟨htrans _ _ _ hguar hrest, hanswer⟩
      | error e =>
          refine ⟨hrefl s, ?_⟩
          rintro _ ⟨⟩
  | txn opening closing body next _ ih =>
      simp only [Prog.exec]
      rcases hexec : Prog.exec body s with ⟨b | e | _, s'⟩
      · obtain ⟨hguar, hnext⟩ := h s b s' hs hexec
        obtain ⟨hrest, hanswer⟩ := ih b hnext (hinv _ _ hs hguar)
        exact ⟨htrans _ _ _ hguar hrest, hanswer⟩
      · refine ⟨hrefl s, ?_⟩
        rintro _ ⟨⟩
      · refine ⟨hrefl s, ?_⟩
        rintro _ ⟨⟩

theorem assures_transaction {opening closing : τ} {body : Prog σ τ ε α}
    (h : Assures inv guar V body) : Assures inv guar V (transaction opening closing body) := by
  intro s b s' hs hexec
  obtain ⟨hguar, hanswer⟩ := h.exec hrefl htrans hinv hs
  rw [hexec] at hguar hanswer
  exact ⟨hguar, hanswer b rfl⟩

end Preserved

/-- **A step of the program.** -/
theorem Assures.step (hrefl : ∀ s, guar s s) {p : Prog σ τ ε α} (h : Assures inv guar V p) {s : σ}
    (hs : inv s) : guar s (Prog.step p s).2 ∧ Assures inv guar V (Prog.step p s).1 := by
  cases p with
  | done r => exact ⟨hrefl s, h⟩
  | hang => exact ⟨hrefl s, h⟩
  | stmt tag effect next =>
      simp only [Prog.step]
      cases heffect : effect s with
      | ok out => exact h s out.1 out.2 hs heffect
      | error e => exact ⟨hrefl s, trivial⟩
  | txn opening closing body next =>
      simp only [Prog.step]
      rcases hexec : Prog.exec body s with ⟨b | e | _, s'⟩
      · exact h s b s' hs hexec
      · exact ⟨hrefl s, trivial⟩
      · exact ⟨hrefl s, trivial⟩

/-! ### What a program leaves behind -/

/-- The program does not answer before `R` has held after one of its statements. -/
def Secures (R : σ → Prop) : {α : Type} → Prog σ τ ε α → Prop
  | _, .done (.ok _) => False
  | _, .done (.error _) => True
  | _, .hang => True
  | _, .stmt _ effect next => ∀ s b s', effect s = .ok (b, s') → R s' ∨ Secures R (next b)
  | _, .txn _ _ body next =>
      ∀ s b s', exec body s = (.answered b, s') → R s' ∨ Secures R (next b)

/-- Run alone, the program answers where `R` holds. -/
def EndsIn (R : σ → Prop) (p : Prog σ τ ε α) : Prop :=
  ∀ s a s', exec p s = (.answered a, s') → R s'

variable {R : σ → Prop}

theorem secures_perform {tag : τ} {effect : σ → Except ε (α × σ)}
    (h : ∀ s a s', effect s = .ok (a, s') → R s') : Secures R (perform tag effect) :=
  fun s a s' heffect => Or.inl (h s a s' heffect)

theorem secures_transaction {opening closing : τ} {body : Prog σ τ ε α} (h : EndsIn R body) :
    Secures R (transaction opening closing body) :=
  fun s a s' hexec => Or.inl (h s a s' hexec)

/-- The second program leaves it behind. -/
theorem secures_bind {p : Prog σ τ ε α} {k : α → Prog σ τ ε β} (hk : ∀ a, Secures R (k a)) :
    Secures R (p >>= k) := by
  show Secures R (p.bind k)
  induction p with
  | done r =>
      cases r with
      | ok a => exact hk a
      | error e => trivial
  | hang => trivial
  | stmt tag effect next ih => exact fun s b s' _ => Or.inr (ih b hk)
  | txn opening closing body next _ ih => exact fun s b s' _ => Or.inr (ih b hk)

/-- The first program leaves it behind. -/
theorem Secures.bind {p : Prog σ τ ε α} {k : α → Prog σ τ ε β} (hp : Secures R p) :
    Secures R (p >>= k) := by
  show Secures R (p.bind k)
  induction p with
  | done r =>
      cases r with
      | ok a => exact hp.elim
      | error e => trivial
  | hang => trivial
  | stmt tag effect next ih =>
      exact fun s b s' heffect => (hp s b s' heffect).imp_right fun hnext => ih b hnext
  | txn opening closing body next _ ih =>
      exact fun s b s' hexec => (hp s b s' hexec).imp_right fun hnext => ih b hnext

theorem endsIn_bind {p : Prog σ τ ε α} {k : α → Prog σ τ ε β} (hk : ∀ a, EndsIn R (k a)) :
    EndsIn R (p >>= k) := by
  intro s b s' hexec
  rw [exec_bind] at hexec
  rcases hp : exec p s with ⟨a | e | _, s₁⟩
  · simp only [hp] at hexec
    exact hk a s₁ b s' hexec
  · simp [hp] at hexec
  · simp [hp] at hexec

theorem endsIn_perform {tag : τ} {effect : σ → Except ε (α × σ)}
    (h : ∀ s a s', effect s = .ok (a, s') → R s') : EndsIn R (perform tag effect) := by
  intro s a s' hexec
  simp only [perform, exec] at hexec
  cases heffect : effect s with
  | ok out =>
      simp only [heffect, Prod.mk.injEq, Outcome.answered.injEq] at hexec
      exact h s a s' (by rw [heffect, ← hexec.1, ← hexec.2])
  | error e => simp [heffect] at hexec

/-- An answer that is put together afterwards. -/
theorem EndsIn.map {p : Prog σ τ ε α} (hp : EndsIn R p) (f : α → β) :
    EndsIn R (p >>= fun a => pure (f a)) := by
  intro s b s' hexec
  rw [exec_bind] at hexec
  rcases hfirst : exec p s with ⟨a | e | _, s₁⟩
  · simp only [hfirst, exec_pure, Prod.mk.injEq] at hexec
    exact hexec.2 ▸ hp s a s₁ hfirst
  · simp [hfirst] at hexec
  · simp [hfirst] at hexec

/-- **A step of the program:** either it has now left it behind, or it still owes it. -/
theorem Secures.step {p : Prog σ τ ε α} (h : Secures R p) (s : σ) :
    R (Prog.step p s).2 ∨ Secures R (Prog.step p s).1 := by
  cases p with
  | done r => exact Or.inr h
  | hang => exact Or.inr h
  | stmt tag effect next =>
      simp only [Prog.step]
      cases heffect : effect s with
      | ok out => exact h s out.1 out.2 heffect
      | error e => exact Or.inr trivial
  | txn opening closing body next =>
      simp only [Prog.step]
      rcases hexec : Prog.exec body s with ⟨b | e | _, s'⟩
      · exact h s b s' hexec
      · exact Or.inr trivial
      · exact Or.inr trivial

end SimplyIpSync.Program.Prog
