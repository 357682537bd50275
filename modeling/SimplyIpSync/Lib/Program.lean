import Mathlib.Tactic

/-!
# Programs of statements

A program is a sequence of statements on a shared state `σ`, each chosen by what the earlier ones
returned.  A statement takes effect at once and may refuse with an error, which ends the program;
the statements of a transaction take effect together when it closes, and not at all when one of
them refuses.  Every statement carries a tag, so that it can be named.

One program has three meanings.  `exec` runs it alone.  `run` runs it while one statement, given by
its tag and number, fails.  `step` performs its next statement, so that the statements of several
programs can be interleaved.

`trace` lists the statements a program issues, each with the committed state at that moment;
`run_eq` computes every run from it.  `Along I Q p s` says that `I` holds of every entry of the trace
and `Q` of the end; it is shown construction by construction and covers every run (`Along.run`).
-/

namespace SimplyIpSync.Program

/-- How a program ends: with an answer, with a refusal, or not at all. -/
inductive Outcome (ε α : Type)
  | answered (a : α)
  | refused (e : ε)
  | hung
  deriving DecidableEq, Repr

/-- Programs over the state `σ` with statements tagged by `τ` and refusals in `ε`. -/
inductive Prog (σ τ ε : Type) : Type → Type 1
  | done {α : Type} (r : Except ε α) : Prog σ τ ε α
  | hang {α : Type} : Prog σ τ ε α
  | stmt {α β : Type} (tag : τ) (effect : σ → Except ε (β × σ)) (next : β → Prog σ τ ε α) :
      Prog σ τ ε α
  | txn {α β : Type} (opening closing : τ) (body : Prog σ τ ε β) (next : β → Prog σ τ ε α) :
      Prog σ τ ε α

/-- The statement that fails: the one with this tag that comes after `nth` others with it. -/
structure Fault (τ : Type) where
  tag : τ
  nth : ℕ
  deriving DecidableEq, Repr

variable {σ τ ε α β : Type}

namespace Prog

/-- Sequencing: the second program gets the answer of the first. -/
protected def bind : Prog σ τ ε α → (α → Prog σ τ ε β) → Prog σ τ ε β
  | .done (.ok a), k => k a
  | .done (.error e), _ => .done (.error e)
  | .hang, _ => .hang
  | .stmt tag effect next, k => .stmt tag effect fun b => (next b).bind k
  | .txn opening closing body next, k => .txn opening closing body fun b => (next b).bind k

instance : Monad (Prog σ τ ε) where
  pure a := .done (.ok a)
  bind := Prog.bind

/-- A computation without statements. -/
def lift (r : Except ε α) : Prog σ τ ε α := .done r

/-- End with a refusal. -/
def refuse (e : ε) : Prog σ τ ε α := .done (.error e)

/-- One statement. -/
def perform (tag : τ) (effect : σ → Except ε (α × σ)) : Prog σ τ ε α :=
  .stmt tag effect fun a => .done (.ok a)

/-- A statement that only reads. -/
def query (tag : τ) (f : σ → α) : Prog σ τ ε α := .perform tag fun s => .ok (f s, s)

/-- A transaction around a program. -/
def transaction (opening closing : τ) (body : Prog σ τ ε α) : Prog σ τ ε α :=
  .txn opening closing body fun a => .done (.ok a)

/-! ### The undisturbed run -/

/-- Run a program alone. -/
def exec : {α : Type} → Prog σ τ ε α → σ → Outcome ε α × σ
  | _, .done (.ok a), s => (.answered a, s)
  | _, .done (.error e), s => (.refused e, s)
  | _, .hang, s => (.hung, s)
  | _, .stmt _ effect next, s =>
      match effect s with
      | .ok (b, s') => exec (next b) s'
      | .error e => (.refused e, s)
  | _, .txn _ _ body next, s =>
      match exec body s with
      | (.answered b, s') => exec (next b) s'
      | (.refused e, _) => (.refused e, s)
      | (.hung, _) => (.hung, s)

/-! ### Runs with a failing statement -/

variable [DecidableEq τ]

/-- Issue a statement with tag `tag` under the pending fault: `none` when it is the one that fails,
otherwise what is still pending. -/
def issue (fault : Option (Fault τ)) (tag : τ) : Option (Option (Fault τ)) :=
  match fault with
  | none => some none
  | some f =>
      if f.tag = tag then
        match f.nth with
        | 0 => none
        | n + 1 => some (some ⟨tag, n⟩)
      else some (some f)

/-- Run a program while the statement that `fault` names fails with `err`: the outcome, the fault
if it is still pending, and the committed state. -/
def run (err : ε) : {α : Type} → Prog σ τ ε α → Option (Fault τ) → σ →
    Outcome ε α × Option (Fault τ) × σ
  | _, .done (.ok a), fault, s => (.answered a, fault, s)
  | _, .done (.error e), fault, s => (.refused e, fault, s)
  | _, .hang, fault, s => (.hung, fault, s)
  | _, .stmt tag effect next, fault, s =>
      match issue fault tag with
      | none => (.refused err, none, s)
      | some fault =>
          match effect s with
          | .ok (b, s') => run err (next b) fault s'
          | .error e => (.refused e, fault, s)
  | _, .txn opening closing body next, fault, s =>
      match issue fault opening with
      | none => (.refused err, none, s)
      | some fault =>
          match run err body fault s with
          | (.answered b, fault, s') =>
              match issue fault closing with
              | none => (.refused err, none, s)
              | some fault => run err (next b) fault s'
          | (.refused e, fault, _) => (.refused e, fault, s)
          | (.hung, fault, _) => (.hung, fault, s)

/-! ### The statements a program issues -/

omit [DecidableEq τ] in
/-- The statements issued by the undisturbed run, each with the committed state at that moment. -/
def trace : {α : Type} → Prog σ τ ε α → σ → List (τ × σ)
  | _, .done _, _ => []
  | _, .hang, _ => []
  | _, .stmt tag effect next, s =>
      (tag, s) ::
        match effect s with
        | .ok (b, s') => trace (next b) s'
        | .error _ => []
  | _, .txn opening closing body next, s =>
      (opening, s) :: ((trace body s).map fun x => (x.1, s)) ++
        match exec body s with
        | (.answered b, s') => (closing, s) :: trace (next b) s'
        | _ => []

/-- Go through the issued statements under the pending fault: the committed state at the one that
fails, or what is still pending at the end. -/
def strike : Option (Fault τ) → List (τ × σ) → Except σ (Option (Fault τ))
  | fault, [] => .ok fault
  | fault, x :: rest =>
      match issue fault x.1 with
      | none => .error x.2
      | some fault => strike fault rest

section Strike

-- their equations are made here once, before the proofs that unfold them
attribute [local simp] Prog.bind exec run trace strike issue

theorem strike_append (fault : Option (Fault τ)) (l m : List (τ × σ)) :
    strike fault (l ++ m) =
      match strike fault l with
      | .error s => .error s
      | .ok fault => strike fault m := by
  induction l generalizing fault with
  | nil => rfl
  | cons x rest ih =>
      simp only [List.cons_append, strike]
      cases issue fault x.1 with
      | none => rfl
      | some fault' => exact ih fault'

/-- Inside a transaction every statement meets the state before it. -/
theorem strike_map (fault : Option (Fault τ)) (l : List (τ × σ)) (s : σ) :
    strike fault (l.map fun x => (x.1, s)) =
      match strike fault l with
      | .error _ => .error s
      | .ok fault => .ok fault := by
  induction l generalizing fault with
  | nil => rfl
  | cons x rest ih =>
      simp only [List.map_cons, strike]
      cases issue fault x.1 with
      | none => rfl
      | some fault' => exact ih fault'

/-- A statement that fails is one with the tag of the fault. -/
theorem mem_of_strike {fault : Option (Fault τ)} {l : List (τ × σ)} {s : σ}
    (h : strike fault l = .error s) : ∃ f, fault = some f ∧ (f.tag, s) ∈ l := by
  induction l generalizing fault with
  | nil => cases h
  | cons x rest ih =>
      cases fault with
      | none =>
          simp only [strike, issue] at h
          obtain ⟨f, hf, -⟩ := ih h
          cases hf
      | some f =>
          refine ⟨f, rfl, ?_⟩
          by_cases htag : f.tag = x.1
          · cases hnth : f.nth with
            | zero =>
                simp only [strike, issue, if_pos htag, hnth, Except.error.injEq] at h
                rw [htag, ← h]
                exact List.mem_cons_self
            | succ n =>
                simp only [strike, issue, if_pos htag, hnth] at h
                obtain ⟨f', hf', hmem⟩ := ih h
                rw [htag, show x.1 = f'.tag by rw [← Option.some.inj hf']]
                exact List.mem_cons_of_mem _ hmem
          · simp only [strike, issue, if_neg htag] at h
            obtain ⟨f', hf', hmem⟩ := ih h
            rw [Option.some.inj hf']
            exact List.mem_cons_of_mem _ hmem

theorem strike_none (l : List (τ × σ)) : strike none l = .ok none := by
  induction l with
  | nil => rfl
  | cons x rest ih => exact ih

/-- **Every run, from the undisturbed one.** -/
theorem run_eq (err : ε) (p : Prog σ τ ε α) (fault : Option (Fault τ)) (s : σ) :
    run err p fault s =
      match strike fault (trace p s) with
      | .error s' => (.refused err, none, s')
      | .ok fault => ((exec p s).1, fault, (exec p s).2) := by
  induction p generalizing s fault with
  | done r =>
      cases r with
      | ok a => rfl
      | error e => rfl
  | hang => rfl
  | stmt tag effect next ih =>
      simp only [run, exec, trace, strike]
      cases issue fault tag with
      | none => rfl
      | some fault' =>
          cases effect s with
          | ok out => exact ih out.1 fault' out.2
          | error e => rfl
  | txn opening closing body next ihbody ih =>
      simp only [run, exec, trace, List.cons_append, strike, strike_append, strike_map]
      cases issue fault opening with
      | none => rfl
      | some fault₁ =>
          simp only [ihbody]
          cases strike fault₁ (trace body s) with
          | error s' => rfl
          | ok fault₂ =>
              rcases exec body s with ⟨b | e | _, s'⟩
              · simp only [strike]
                cases issue fault₂ closing with
                | none => rfl
                | some fault₃ => exact ih b fault₃ s'
              · rfl
              · rfl

/-- Without a failing statement a run is the undisturbed one. -/
theorem run_none (err : ε) (p : Prog σ τ ε α) (s : σ) :
    run err p none s = ((exec p s).1, none, (exec p s).2) := by
  rw [run_eq, strike_none]

end Strike

/-! ### The meanings of a sequence -/

instance : LawfulMonad (Prog σ τ ε) := by
  refine LawfulMonad.mk' _ ?_ ?_ ?_
  · intro α p
    show p.bind (fun a => .done (.ok a)) = p
    induction p with
    | done r => cases r <;> rfl
    | hang => rfl
    | stmt tag effect next ih => exact congrArg _ (funext ih)
    | txn opening closing body next _ ih => exact congrArg _ (funext ih)
  · intro α β a k
    rfl
  · intro α β γ p f g
    show (p.bind f).bind g = p.bind fun a => (f a).bind g
    induction p with
    | done r => cases r <;> rfl
    | hang => rfl
    | stmt tag effect next ih => exact congrArg _ (funext fun b => ih b f)
    | txn opening closing body next _ ih => exact congrArg _ (funext fun b => ih b f)

section Sequence

omit [DecidableEq τ]

theorem exec_pure (a : α) (s : σ) : exec (pure a : Prog σ τ ε α) s = (.answered a, s) := rfl

theorem exec_query (tag : τ) (f : σ → α) (s : σ) :
    exec (query tag f : Prog σ τ ε α) s = (.answered (f s), s) := rfl

theorem exec_bind (p : Prog σ τ ε α) (k : α → Prog σ τ ε β) (s : σ) :
    exec (p >>= k) s =
      match exec p s with
      | (.answered a, s') => exec (k a) s'
      | (.refused e, s') => (.refused e, s')
      | (.hung, s') => (.hung, s') := by
  show exec (p.bind k) s = _
  induction p generalizing s with
  | done r =>
      cases r with
      | ok a => rfl
      | error e => rfl
  | hang => rfl
  | stmt tag effect next ih =>
      simp only [Prog.bind, exec]
      cases effect s with
      | ok out => exact ih out.1 k out.2
      | error e => rfl
  | txn opening closing body next _ ih =>
      simp only [Prog.bind, exec]
      rcases exec body s with ⟨_ | _ | _, s'⟩
      · exact ih _ k s'
      · rfl
      · rfl

theorem trace_bind (p : Prog σ τ ε α) (k : α → Prog σ τ ε β) (s : σ) :
    trace (p >>= k) s =
      trace p s ++
        match exec p s with
        | (.answered a, s') => trace (k a) s'
        | _ => [] := by
  show trace (p.bind k) s = _
  induction p generalizing s with
  | done r =>
      cases r with
      | ok a => rfl
      | error e => rfl
  | hang => rfl
  | stmt tag effect next ih =>
      simp only [Prog.bind, exec, trace, List.cons_append]
      cases effect s with
      | ok out => exact congrArg _ (ih out.1 k out.2)
      | error e => rfl
  | txn opening closing body next _ ih =>
      simp only [Prog.bind, exec, trace, List.append_assoc, List.cons_append]
      rcases exec body s with ⟨_ | _ | _, s'⟩
      · simp only [ih _ k s', List.cons_append]
      · simp
      · simp

end Sequence

/-! ### What holds along a program -/

section Along

omit [DecidableEq τ]

/-- `I` holds of the committed state at every statement issued, `Q` where the program ends. -/
def Along (I : τ → σ → Prop) (Q : Outcome ε α → σ → Prop) (p : Prog σ τ ε α) (s : σ) : Prop :=
  (∀ x ∈ trace p s, I x.1 x.2) ∧ Q (exec p s).1 (exec p s).2

variable {I : τ → σ → Prop}

theorem along_pure {Q : Outcome ε α → σ → Prop} {a : α} {s : σ} :
    Along I Q (pure a) s ↔ Q (.answered a) s := by
  simp [Along, exec_pure, show trace (pure a : Prog σ τ ε α) s = [] from rfl]

/-- **The rule for a sequence.** -/
theorem along_bind {Q : Outcome ε β → σ → Prop} {p : Prog σ τ ε α} {k : α → Prog σ τ ε β} {s : σ} :
    Along I Q (p >>= k) s ↔
      Along I
        (fun o s' =>
          match o with
          | .answered a => Along I Q (k a) s'
          | .refused e => Q (.refused e) s'
          | .hung => Q .hung s') p s := by
  simp only [Along, exec_bind, trace_bind, List.mem_append]
  rcases exec p s with ⟨a | e | _, s'⟩
  · simp only [or_imp, forall_and, and_assoc]
  · simp
  · simp

/-- A decision taken without a statement. -/
theorem along_lift {Q : Outcome ε β → σ → Prop} {r : Except ε α} {k : α → Prog σ τ ε β} {s : σ}
    (hrefused : ∀ e, r = .error e → Q (.refused e) s)
    (hnext : ∀ a, r = .ok a → Along I Q (k a) s) : Along I Q (lift r >>= k) s := by
  rw [along_bind]
  cases r with
  | ok a => exact ⟨nofun, hnext a rfl⟩
  | error e => exact ⟨nofun, hrefused e rfl⟩

/-- A statement that only reads. -/
theorem along_query {Q : Outcome ε β → σ → Prop} {tag : τ} {f : σ → α} {k : α → Prog σ τ ε β}
    {s : σ} (hissue : I tag s) (hnext : Along I Q (k (f s)) s) :
    Along I Q (query tag f >>= k) s := by
  rw [along_bind]
  refine ⟨?_, hnext⟩
  intro x hx
  rw [List.mem_singleton.mp hx]
  exact hissue

theorem along_perform {Q : Outcome ε β → σ → Prop} {tag : τ} {effect : σ → Except ε (α × σ)}
    {k : α → Prog σ τ ε β} {s : σ} (hissue : I tag s)
    (hrefused : ∀ e, effect s = .error e → Q (.refused e) s)
    (hnext : ∀ a s', effect s = .ok (a, s') → Along I Q (k a) s') :
    Along I Q (perform tag effect >>= k) s := by
  rw [along_bind, Along]
  simp only [perform, exec, trace]
  cases heffect : effect s with
  | ok out => exact ⟨by simpa using hissue, hnext out.1 out.2 heffect⟩
  | error e => exact ⟨by simpa using hissue, hrefused e heffect⟩

/-- A transaction: its statements meet the state before it, which a refusal leaves as it is. -/
theorem along_transaction {Q : Outcome ε β → σ → Prop} {opening closing : τ}
    {body : Prog σ τ ε α} {k : α → Prog σ τ ε β} {s : σ} (hopen : I opening s)
    (hbody : Along (fun tag _ => I tag s)
      (fun o s' =>
        match o with
        | .answered a => I closing s ∧ Along I Q (k a) s'
        | .refused e => Q (.refused e) s
        | .hung => Q .hung s) body s) :
    Along I Q (transaction opening closing body >>= k) s := by
  obtain ⟨htags, hend⟩ := hbody
  rw [along_bind, Along]
  simp only [transaction, exec, trace]
  rcases hexec : exec body s with ⟨a | e | _, s'⟩
  · rw [hexec] at hend
    refine ⟨?_, hend.2⟩
    simp only [List.cons_append, List.mem_cons, List.mem_append, List.mem_map, List.not_mem_nil,
      or_false]
    rintro x (rfl | ⟨y, hy, rfl⟩ | rfl)
    · exact hopen
    · exact htags y hy
    · exact hend.1
  · rw [hexec] at hend
    refine ⟨?_, hend⟩
    simp only [List.cons_append, List.mem_cons, List.mem_append, List.mem_map, List.not_mem_nil,
      or_false]
    rintro x (rfl | ⟨y, hy, rfl⟩)
    · exact hopen
    · exact htags y hy
  · rw [hexec] at hend
    refine ⟨?_, hend⟩
    simp only [List.cons_append, List.mem_cons, List.mem_append, List.mem_map, List.not_mem_nil,
      or_false]
    rintro x (rfl | ⟨y, hy, rfl⟩)
    · exact hopen
    · exact htags y hy

/-- A program that changes nothing, wherever it starts. -/
def Reads (p : Prog σ τ ε α) : Prop := ∀ s, Along (fun _ s' => s' = s) (fun _ s' => s' = s) p s

/-- Every refusal of the program, wherever it starts, is of the kind `R`. -/
def Refuses (R : ε → Prop) (p : Prog σ τ ε α) : Prop :=
  ∀ s e, (exec p s).1 = .refused e → R e

theorem refuses_pure (R : ε → Prop) (a : α) : Refuses R (pure a : Prog σ τ ε α) := by
  intro s e h
  cases h

theorem refuses_lift {R : ε → Prop} {r : Except ε α} (h : ∀ e, r = .error e → R e) :
    Refuses R (lift r : Prog σ τ ε α) := by
  intro s e he
  cases r with
  | ok a => cases he
  | error e' =>
      cases he
      exact h _ rfl

theorem refuses_perform {R : ε → Prop} {tag : τ} {effect : σ → Except ε (α × σ)}
    (h : ∀ s e, effect s = .error e → R e) : Refuses R (perform tag effect) := by
  intro s e he
  simp only [perform, exec] at he
  cases heffect : effect s with
  | ok out =>
      rw [heffect] at he
      cases he
  | error e' =>
      rw [heffect] at he
      cases he
      exact h s _ heffect

theorem refuses_query (R : ε → Prop) (tag : τ) (f : σ → α) :
    Refuses R (query tag f : Prog σ τ ε α) := refuses_perform fun _ _ h => by cases h

theorem Refuses.bind {R : ε → Prop} {p : Prog σ τ ε α} {k : α → Prog σ τ ε β} (hp : Refuses R p)
    (hk : ∀ a, Refuses R (k a)) : Refuses R (p >>= k) := by
  intro s e h
  rw [exec_bind] at h
  have hrefused := hp s
  revert h hrefused
  rcases exec p s with ⟨a | e' | _, s'⟩
  · intro h _
    exact hk a s' e h
  · intro h hrefused
    cases h
    exact hrefused _ rfl
  · intro h _
    cases h

end Along

/-- **One proof for every run.**  What is shown along a program holds however it is disturbed: the
run ends as the undisturbed one does, or it is refused by the failure at a statement that the fault
names. -/
theorem Along.run {I : τ → σ → Prop} {Q : Outcome ε α → σ → Prop} {p : Prog σ τ ε α} {s : σ}
    (h : Along I Q p s) (err : ε) (fault : Option (Fault τ)) :
    Q (run err p fault s).1 (run err p fault s).2.2 ∨
      ((run err p fault s).1 = .refused err ∧
        ∃ f, fault = some f ∧ I f.tag (run err p fault s).2.2) := by
  rw [run_eq]
  cases hstrike : strike fault (trace p s) with
  | ok fault' => exact Or.inl h.2
  | error s' =>
      obtain ⟨f, hf, hmem⟩ := mem_of_strike hstrike
      exact Or.inr ⟨rfl, f, hf, h.1 _ hmem⟩

/-! ### Straight-line beginnings -/

/-- The fault names one of the statements with these tags. -/
def Hits (fault : Option (Fault τ)) (tags : List τ) : Prop :=
  ∃ f, fault = some f ∧ f.nth < tags.count f.tag

/-- The fault that is pending once statements with these tags have passed. -/
def after (fault : Option (Fault τ)) (tags : List τ) : Option (Fault τ) :=
  fault.map fun f => ⟨f.tag, f.nth - tags.count f.tag⟩

theorem not_hits_nil (fault : Option (Fault τ)) : ¬Hits fault [] := by
  rintro ⟨f, -, hcount⟩
  exact absurd hcount (Nat.not_lt_zero f.nth)

theorem after_nil (fault : Option (Fault τ)) : after fault [] = fault := by
  cases fault <;> rfl

theorem after_append (fault : Option (Fault τ)) (tags tags' : List τ) :
    after (after fault tags) tags' = after fault (tags ++ tags') := by
  cases fault with
  | none => rfl
  | some f => simp [after, List.count_append, Nat.sub_sub]

/-- A fault beyond some statements names one of those that follow. -/
theorem hits_after {fault : Option (Fault τ)} {tags tags' : List τ} (h : ¬Hits fault tags) :
    Hits (after fault tags) tags' ↔ Hits fault (tags ++ tags') := by
  cases fault with
  | none => simp [Hits, after]
  | some f =>
      simp only [Hits, after, Option.map_some, Option.some.injEq, exists_eq_left',
        List.count_append, not_lt] at h ⊢
      omega

theorem Hits.append {fault : Option (Fault τ)} {tags : List τ} (h : Hits fault tags)
    (tags' : List τ) : Hits fault (tags ++ tags') := by
  obtain ⟨f, hf, hcount⟩ := h
  exact ⟨f, hf, by rw [List.count_append]; omega⟩

/-- Going through statements that all find the same committed state. -/
theorem strike_tags (fault : Option (Fault τ)) (tags : List τ) (s : σ) :
    (Hits fault tags → strike fault (tags.map fun tag => (tag, s)) = .error s) ∧
      (¬Hits fault tags → strike fault (tags.map fun tag => (tag, s)) = .ok (after fault tags)) := by
  cases fault with
  | none =>
      refine ⟨?_, fun _ => strike_none _⟩
      rintro ⟨f, hf, -⟩
      cases hf
  | some f =>
      obtain ⟨t, n⟩ := f
      simp only [Hits, Option.some.injEq, exists_eq_left', after, Option.map_some]
      induction tags generalizing n with
      | nil => exact ⟨fun h => absurd h (Nat.not_lt_zero n), fun _ => rfl⟩
      | cons tag rest ih =>
          by_cases htag : t = tag
          · subst htag
            cases n with
            | zero => simp [strike, issue]
            | succ n =>
                have hrest := ih n
                simp only [List.map_cons, strike, issue, if_pos, List.count_cons_self,
                  Nat.add_lt_add_iff_right, Nat.add_sub_add_right]
                exact hrest
          · have hcount : (tag :: rest).count t = rest.count t :=
              List.count_cons_of_ne (Ne.symm htag)
            simp only [List.map_cons, strike, issue, if_neg htag, hcount]
            exact ih n

/-- Alone from `s`, the program issues statements with these tags before anything is committed, and
then goes on as `q` from `s'`. -/
def Leads (p : Prog σ τ ε α) (s : σ) (tags : List τ) (q : Prog σ τ ε α) (s' : σ) : Prop :=
  trace p s = (tags.map fun tag => (tag, s)) ++ trace q s' ∧ exec p s = exec q s'

/-- Alone from `s`, the program issues statements with these tags and answers `a` in `s'`. -/
def Issues (p : Prog σ τ ε α) (s : σ) (tags : List τ) (a : α) (s' : σ) : Prop :=
  (trace p s).map Prod.fst = tags ∧ exec p s = (.answered a, s')

section Issuing

omit [DecidableEq τ]

variable {s s₁ s' : σ} {tags tags' : List τ}

theorem issues_pure (a : α) (s : σ) : Issues (pure a : Prog σ τ ε α) s [] a s := ⟨rfl, rfl⟩

theorem issues_perform {tag : τ} {effect : σ → Except ε (α × σ)} {a : α}
    (heffect : effect s = .ok (a, s')) :
    Issues (perform tag effect : Prog σ τ ε α) s [tag] a s' := by
  simp [Issues, perform, trace, exec, heffect]

theorem Issues.bind {p : Prog σ τ ε α} {k : α → Prog σ τ ε β} {a : α} {b : β}
    (hp : Issues p s tags a s₁) (hk : Issues (k a) s₁ tags' b s') :
    Issues (p >>= k) s (tags ++ tags') b s' := by
  obtain ⟨htags, hexec⟩ := hp
  rw [Issues, trace_bind, exec_bind, hexec, List.map_append, htags]
  exact ⟨congrArg _ hk.1, hk.2⟩

end Issuing

section Beginnings

variable {err : ε} {fault : Option (Fault τ)} {s s' : σ} {tags : List τ}

omit [DecidableEq τ] in
theorem leads_lift {r : Except ε α} {a : α} {k : α → Prog σ τ ε β} {q : Prog σ τ ε β}
    (h : r = .ok a) (hnext : Leads (k a) s tags q s') : Leads (lift r >>= k) s tags q s' := by
  rw [h]
  exact hnext

omit [DecidableEq τ] in
theorem leads_query {tag : τ} {f : σ → α} {k : α → Prog σ τ ε β} {q : Prog σ τ ε β}
    (hnext : Leads (k (f s)) s tags q s') :
    Leads (query tag f >>= k) s (tag :: tags) q s' :=
  ⟨congrArg (List.cons (tag, s)) hnext.1, hnext.2⟩

omit [DecidableEq τ] in
/-- The statement that writes ends the beginning. -/
theorem leads_perform {tag : τ} {effect : σ → Except ε (α × σ)} {a : α} {k : α → Prog σ τ ε β}
    (heffect : effect s = .ok (a, s')) : Leads (perform tag effect >>= k) s [tag] (k a) s' := by
  rw [Leads, trace_bind, exec_bind]
  simp [perform, trace, exec, heffect]

omit [DecidableEq τ] in
theorem leads_refl (p : Prog σ τ ε α) (s : σ) : Leads p s [] p s := ⟨rfl, rfl⟩

omit [DecidableEq τ] in
/-- A transaction that commits ends the beginning as well. -/
theorem leads_transaction {opening closing : τ} {body : Prog σ τ ε α} {a : α}
    {k : α → Prog σ τ ε β} {issued : List τ} (hbody : Issues body s issued a s')
    (htags : tags = opening :: (issued ++ [closing])) :
    Leads (transaction opening closing body >>= k) s tags (k a) s' := by
  obtain ⟨hissued, hexec⟩ := hbody
  rw [Leads, trace_bind, exec_bind, htags, ← hissued]
  simp [transaction, trace, exec, hexec]

/-- **A run through a beginning.** -/
theorem Leads.run {p q : Prog σ τ ε α} (h : Leads p s tags q s') :
    (Hits fault tags → Prog.run err p fault s = (.refused err, none, s)) ∧
      (¬Hits fault tags → Prog.run err p fault s = Prog.run err q (after fault tags) s') := by
  obtain ⟨htrace, hexec⟩ := h
  obtain ⟨hhit, hpass⟩ := strike_tags fault tags s
  rw [run_eq err p, htrace, strike_append]
  constructor
  · intro hits
    rw [hhit hits]
  · intro passes
    rw [hpass passes, run_eq err q, hexec]

/-- One more statement. -/
theorem run_perform {tag : τ} {effect : σ → Except ε (α × σ)} {k : α → Prog σ τ ε β} :
    (Hits fault [tag] → Prog.run err (perform tag effect >>= k) fault s = (.refused err, none, s)) ∧
      (¬Hits fault [tag] → Prog.run err (perform tag effect >>= k) fault s =
        match effect s with
        | .ok (a, s') => Prog.run err (k a) (after fault [tag]) s'
        | .error e => (.refused e, after fault [tag], s)) := by
  obtain ⟨hhit, hpass⟩ := strike_tags fault [tag] s
  have hissue : strike fault ([tag].map fun tag => (tag, s)) =
      match issue fault tag with
      | none => .error s
      | some fault => .ok fault := rfl
  rw [hissue] at hhit hpass
  show (_ → Prog.run err (.stmt tag effect fun a => k a) fault s = _) ∧
    (_ → Prog.run err (.stmt tag effect fun a => k a) fault s = _)
  simp only [Prog.run]
  cases hfault : issue fault tag with
  | none =>
      refine ⟨fun _ => rfl, ?_⟩
      intro passes
      have := hpass passes
      rw [hfault] at this
      cases this
  | some fault' =>
      constructor
      · intro hits
        have := hhit hits
        rw [hfault] at this
        cases this
      · intro passes
        have := hpass passes
        rw [hfault] at this
        rw [← Except.ok.inj this]

end Beginnings

/-! ### One statement at a time -/

omit [DecidableEq τ] in
/-- Perform the next statement; a transaction counts as one. -/
def step : Prog σ τ ε α → σ → Prog σ τ ε α × σ
  | .stmt _ effect next, s =>
      match effect s with
      | .ok (b, s') => (next b, s')
      | .error e => (.done (.error e), s)
  | .txn _ _ body next, s =>
      match exec body s with
      | (.answered b, s') => (next b, s')
      | (.refused e, _) => (.done (.error e), s)
      | (.hung, _) => (.hang, s)
  | .done r, s => (.done r, s)
  | .hang, s => (.hang, s)

omit [DecidableEq τ] in
/-- The tag of the next statement; a transaction goes by its opening one. -/
def tag? : Prog σ τ ε α → Option τ
  | .stmt tag _ _ => some tag
  | .txn opening _ _ _ => some opening
  | .done _ => none
  | .hang => none

omit [DecidableEq τ] in
/-- The answer or refusal of a program that has ended. -/
def result? : Prog σ τ ε α → Option (Except ε α)
  | .done r => some r
  | _ => none

omit [DecidableEq τ] in
/-- **Stepping is running:** an undisturbed run is the next statement, then the rest. -/
theorem exec_step (p : Prog σ τ ε α) (s : σ) : exec (step p s).1 (step p s).2 = exec p s := by
  cases p with
  | done r => rfl
  | hang => rfl
  | stmt tag effect next =>
      simp only [step, exec]
      cases effect s with
      | ok out => rfl
      | error e => rfl
  | txn opening closing body next =>
      simp only [step, exec]
      rcases exec body s with ⟨b | e | _, s'⟩
      · rfl
      · rfl
      · rfl

omit [DecidableEq τ] in
/-- Perform the next `n` statements. -/
def steps : ℕ → Prog σ τ ε α → σ → Prog σ τ ε α × σ
  | 0, p, s => (p, s)
  | n + 1, p, s => steps n (step p s).1 (step p s).2

omit [DecidableEq τ] in
theorem exec_steps (n : ℕ) (p : Prog σ τ ε α) (s : σ) :
    exec (steps n p s).1 (steps n p s).2 = exec p s := by
  induction n generalizing p s with
  | zero => rfl
  | succ n ih => rw [steps, ih, exec_step]

omit [DecidableEq τ] in
/-- A program has finitely many statements to perform. -/
theorem exists_steps_tag?_eq_none (p : Prog σ τ ε α) (s : σ) :
    ∃ n, tag? (steps n p s).1 = none := by
  induction p generalizing s with
  | done r => exact ⟨0, rfl⟩
  | hang => exact ⟨0, rfl⟩
  | stmt tag effect next ih =>
      cases heffect : effect s with
      | error e =>
          refine ⟨1, ?_⟩
          simp only [steps, step, heffect, tag?]
      | ok out =>
          obtain ⟨n, hn⟩ := ih out.1 out.2
          refine ⟨n + 1, ?_⟩
          simpa only [steps, step, heffect] using hn
  | txn opening closing body next _ ih =>
      rcases hbody : exec body s with ⟨b | e | _, s'⟩
      · obtain ⟨n, hn⟩ := ih b s'
        refine ⟨n + 1, ?_⟩
        simpa only [steps, step, hbody] using hn
      · refine ⟨1, ?_⟩
        simp only [steps, step, hbody, tag?]
      · refine ⟨1, ?_⟩
        simp only [steps, step, hbody, tag?]

end Prog

end SimplyIpSync.Program
