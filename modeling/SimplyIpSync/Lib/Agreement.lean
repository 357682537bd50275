import SimplyIpSync.Lib.Program

/-!
# Two programs that look alike

Two states look alike when `R` relates them.  `Agrees R V p p'` says that `p` and `p'`, started on
states that look alike, issue their statements in step: each statement leaves states that look alike
and returns values that the rest treats alike, or both are refused with the same error; the answers
are related by `V`.  What `R` does not show never reaches an answer.

The usual `R` is a `view` of the state.  A statement agrees with itself when it can be carried out
on the view (`alike_of_view`).
-/

namespace SimplyIpSync.Program.Prog

variable {σ τ ε : Type}

/-- What a statement may come to on two states that look alike. -/
inductive Alike (R : σ → σ → Prop) {β : Type} (W : β → β → Prop) :
    Except ε (β × σ) → Except ε (β × σ) → Prop
  | ok {b b' s s'} (hvalue : W b b') (hstate : R s s') : Alike R W (.ok (b, s)) (.ok (b', s'))
  | error (e : ε) : Alike R W (.error e) (.error e)

/-- The programs issue statements that come to the same, and answer alike. -/
inductive Agrees (R : σ → σ → Prop) :
    {α : Type} → (α → α → Prop) → Prog σ τ ε α → Prog σ τ ε α → Prop
  | answer {α : Type} {V : α → α → Prop} {a a' : α} (h : V a a') :
      Agrees R V (.done (.ok a)) (.done (.ok a'))
  | refusal {α : Type} {V : α → α → Prop} (e : ε) :
      Agrees R V (.done (.error e)) (.done (.error e))
  | hang {α : Type} {V : α → α → Prop} : Agrees R V .hang .hang
  | stmt {α β : Type} {V : α → α → Prop} (W : β → β → Prop) {tag : τ}
      {effect effect' : σ → Except ε (β × σ)} {next next' : β → Prog σ τ ε α}
      (heffect : ∀ s s', R s s' → Alike R W (effect s) (effect' s'))
      (hnext : ∀ b b', W b b' → Agrees R V (next b) (next' b')) :
      Agrees R V (.stmt tag effect next) (.stmt tag effect' next')
  | txn {α β : Type} {V : α → α → Prop} (W : β → β → Prop) {opening closing : τ}
      {body body' : Prog σ τ ε β} {next next' : β → Prog σ τ ε α}
      (hbody : Agrees R W body body') (hnext : ∀ b b', W b b' → Agrees R V (next b) (next' b')) :
      Agrees R V (.txn opening closing body next) (.txn opening closing body' next')

/-- Two ends of a run alone that look alike. -/
inductive AlikeEnds (R : σ → σ → Prop) {α : Type} (V : α → α → Prop) :
    Outcome ε α × σ → Outcome ε α × σ → Prop
  | answered {a a' s s'} (hvalue : V a a') (hstate : R s s') :
      AlikeEnds R V (.answered a, s) (.answered a', s')
  | refused {s s'} (e : ε) (hstate : R s s') : AlikeEnds R V (.refused e, s) (.refused e, s')
  | hung {s s'} (hstate : R s s') : AlikeEnds R V (.hung, s) (.hung, s')

variable {α β : Type} {R : σ → σ → Prop} {V : α → α → Prop} {W : β → β → Prop}

/-! ### The rules -/

theorem agrees_pure {a a' : α} (h : V a a') : Agrees R V (pure a : Prog σ τ ε α) (pure a') :=
  .answer h

theorem agrees_refuse (e : ε) : Agrees R V (refuse e : Prog σ τ ε α) (refuse e) := .refusal e

theorem agrees_lift (r : Except ε α) : Agrees R Eq (lift r : Prog σ τ ε α) (lift r) := by
  cases r with
  | ok a => exact .answer rfl
  | error e => exact .refusal e

theorem agrees_perform {tag : τ} {effect effect' : σ → Except ε (α × σ)}
    (h : ∀ s s', R s s' → Alike R V (effect s) (effect' s')) :
    Agrees R V (perform tag effect) (perform tag effect') :=
  .stmt V h fun _ _ hvalue => .answer hvalue

theorem agrees_query {tag : τ} {f f' : σ → α} (h : ∀ s s', R s s' → V (f s) (f' s')) :
    Agrees R V (query tag f : Prog σ τ ε α) (query tag f') :=
  agrees_perform fun s s' hs => .ok (h s s' hs) hs

theorem agrees_transaction {opening closing : τ} {body body' : Prog σ τ ε α}
    (h : Agrees R V body body') :
    Agrees R V (transaction opening closing body) (transaction opening closing body') :=
  .txn V h fun _ _ hvalue => .answer hvalue

/-- **The rule for a sequence.** -/
theorem Agrees.bind {p p' : Prog σ τ ε α} {k k' : α → Prog σ τ ε β} (hp : Agrees R V p p')
    (hk : ∀ a a', V a a' → Agrees R W (k a) (k' a')) : Agrees R W (p >>= k) (p' >>= k') := by
  show Agrees R W (p.bind k) (p'.bind k')
  induction hp with
  | answer h => exact hk _ _ h
  | refusal e => exact .refusal e
  | hang => exact .hang
  | stmt W' heffect _ ih => exact .stmt W' heffect fun b b' hb => ih b b' hb hk
  | txn W' hbody _ _ ih => exact .txn W' hbody fun b b' hb => ih b b' hb hk

/-- The rule for a sequence whose first part answers the same on both sides. -/
theorem Agrees.bindEq {p p' : Prog σ τ ε α} {k k' : α → Prog σ τ ε β} (hp : Agrees R Eq p p')
    (hk : ∀ a, Agrees R W (k a) (k' a)) : Agrees R W (p >>= k) (p' >>= k') :=
  hp.bind fun a _ h => h ▸ hk a

/-- The rule for a sequence whose second part sees of the first answer what `g` leaves of it. -/
theorem Agrees.bindShown {g : α → α} {p p' : Prog σ τ ε α} {k : α → Prog σ τ ε β}
    (hp : Agrees R (fun a a' => g a = g a') p p') (hseen : ∀ a, k a = k (g a))
    (hk : ∀ a, Agrees R W (k a) (k a)) : Agrees R W (p >>= k) (p' >>= k) := by
  refine hp.bind ?_
  intro a a' h
  rw [hseen a, hseen a', h]
  exact hk _

/-! ### What agreement is good for -/

/-- **Run alone,** the programs end alike. -/
theorem Agrees.exec {p p' : Prog σ τ ε α} (h : Agrees R V p p') {s s' : σ} (hs : R s s') :
    AlikeEnds R V (Prog.exec p s) (Prog.exec p' s') := by
  induction h generalizing s s' with
  | answer h => exact .answered h hs
  | refusal e => exact .refused e hs
  | hang => exact .hung hs
  | @stmt _ _ _ _ _ effect effect' _ _ heffect _ ih =>
      simp only [Prog.exec]
      have halike := heffect s s' hs
      revert halike
      generalize effect s = out
      generalize effect' s' = out'
      intro halike
      cases halike with
      | ok hvalue hstate => exact ih _ _ hvalue hstate
      | error e => exact .refused e hs
  | txn W' _ _ ihbody ih =>
      simp only [Prog.exec]
      have halike := ihbody hs
      revert halike
      generalize Prog.exec _ s = out
      generalize Prog.exec _ s' = out'
      intro halike
      cases halike with
      | answered hvalue hstate => exact ih _ _ hvalue hstate
      | refused e _ => exact .refused e hs
      | hung _ => exact .hung hs

/-- **A step of each** leaves states that look alike and programs that still agree. -/
theorem Agrees.step {p p' : Prog σ τ ε α} (h : Agrees R V p p') {s s' : σ} (hs : R s s') :
    R (Prog.step p s).2 (Prog.step p' s').2 ∧ Agrees R V (Prog.step p s).1 (Prog.step p' s').1 := by
  cases h with
  | answer h => exact ⟨hs, .answer h⟩
  | refusal e => exact ⟨hs, .refusal e⟩
  | hang => exact ⟨hs, .hang⟩
  | @stmt _ _ _ _ _ effect effect' _ _ heffect hnext =>
      simp only [Prog.step]
      have halike := heffect s s' hs
      revert halike
      generalize effect s = out
      generalize effect' s' = out'
      intro halike
      cases halike with
      | ok hvalue hstate => exact ⟨hstate, hnext _ _ hvalue⟩
      | error e => exact ⟨hs, .refusal e⟩
  | txn W' hbody hnext =>
      simp only [Prog.step]
      have halike := hbody.exec hs
      revert halike
      generalize Prog.exec _ s = out
      generalize Prog.exec _ s' = out'
      intro halike
      cases halike with
      | answered hvalue hstate => exact ⟨hstate, hnext _ _ hvalue⟩
      | refused e _ => exact ⟨hs, .refusal e⟩
      | hung _ => exact ⟨hs, .hang⟩

/-! ### Statements that can be carried out on a view -/

section View

variable {ω γ : Type} {view : σ → ω} {g : α → γ}

/-- The states show the same. -/
def SameView (view : σ → ω) (s s' : σ) : Prop := view s = view s'

/-- What a statement returns and leaves behind, as far as it is shown, is a function of what is
shown before it. -/
theorem alike_of_view {effect : σ → Except ε (α × σ)} (shown : ω → Except ε (γ × ω))
    (h : ∀ s, (effect s).map (Prod.map g view) = shown (view s)) (s s' : σ)
    (hs : SameView view s s') :
    Alike (SameView view) (fun a a' => g a = g a') (effect s) (effect s') := by
  have hboth := (h s).trans ((congrArg shown hs).trans (h s').symm)
  cases hleft : effect s with
  | error e =>
      cases hright : effect s' with
      | error e' =>
          rw [hleft, hright] at hboth
          obtain rfl : e = e' := Except.error.inj hboth
          exact .error e
      | ok out =>
          rw [hleft, hright] at hboth
          cases hboth
  | ok out =>
      cases hright : effect s' with
      | error e =>
          rw [hleft, hright] at hboth
          cases hboth
      | ok out' =>
          rw [hleft, hright] at hboth
          obtain ⟨hvalue, hstate⟩ := Prod.mk.inj (Except.ok.inj hboth)
          exact .ok hvalue hstate

end View

end SimplyIpSync.Program.Prog
