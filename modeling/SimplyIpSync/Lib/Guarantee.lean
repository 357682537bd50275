import SimplyIpSync.Lib.Program

/-!
# What a program does to the state, whoever else writes

`Keeps guar p` says that every statement of the program keeps to `guar`, a relation between the
states before and after it, in whatever state the statement is issued.  Nothing is assumed of the
others, so that the guarantee of a program is put together from those of its parts, and a step of it
leaves a program with the same guarantee (`Keeps.step`).
-/

namespace SimplyIpSync.Program.Prog

variable {σ τ ε α β : Type}

/-- Every statement of the program keeps to the guarantee. -/
def Keeps (guar : σ → σ → Prop) : {α : Type} → Prog σ τ ε α → Prop
  | _, .done _ => True
  | _, .hang => True
  | _, .stmt _ effect next =>
      ∀ s b s', effect s = .ok (b, s') → guar s s' ∧ Keeps guar (next b)
  | _, .txn _ _ body next =>
      ∀ s b s', exec body s = (.answered b, s') → guar s s' ∧ Keeps guar (next b)

variable {guar : σ → σ → Prop}

/-! ### The rules -/

theorem keeps_pure (a : α) : Keeps guar (pure a : Prog σ τ ε α) := trivial

theorem keeps_refuse (e : ε) : Keeps guar (refuse e : Prog σ τ ε α) := trivial

theorem keeps_lift (r : Except ε α) : Keeps guar (lift r : Prog σ τ ε α) := trivial

theorem keeps_perform {tag : τ} {effect : σ → Except ε (α × σ)}
    (h : ∀ s a s', effect s = .ok (a, s') → guar s s') : Keeps guar (perform tag effect) :=
  fun s a s' heffect => ⟨h s a s' heffect, trivial⟩

theorem keeps_query (hrefl : ∀ s, guar s s) (tag : τ) (f : σ → α) :
    Keeps guar (query tag f : Prog σ τ ε α) := by
  refine keeps_perform ?_
  intro s a s' heffect
  obtain rfl : s = s' := (Prod.mk.inj (Except.ok.inj heffect)).2
  exact hrefl s

/-- **The rule for a sequence.** -/
theorem Keeps.bind {p : Prog σ τ ε α} {k : α → Prog σ τ ε β} (hp : Keeps guar p)
    (hk : ∀ a, Keeps guar (k a)) : Keeps guar (p >>= k) := by
  show Keeps guar (p.bind k)
  induction p with
  | done r =>
      cases r with
      | ok a => exact hk a
      | error e => trivial
  | hang => trivial
  | stmt tag effect next ih =>
      intro s b s' heffect
      obtain ⟨hguar, hnext⟩ := hp s b s' heffect
      exact ⟨hguar, ih b hnext hk⟩
  | txn opening closing body next _ ih =>
      intro s b s' hexec
      obtain ⟨hguar, hnext⟩ := hp s b s' hexec
      exact ⟨hguar, ih b hnext hk⟩

/-- Run alone, the program keeps to the guarantee as a whole. -/
theorem Keeps.exec (hrefl : ∀ s, guar s s)
    (htrans : ∀ s s' s'', guar s s' → guar s' s'' → guar s s'') {p : Prog σ τ ε α}
    (h : Keeps guar p) (s : σ) : guar s (Prog.exec p s).2 := by
  induction p generalizing s with
  | done r =>
      cases r with
      | ok a => exact hrefl s
      | error e => exact hrefl s
  | hang => exact hrefl s
  | stmt tag effect next ih =>
      simp only [Prog.exec]
      cases heffect : effect s with
      | ok out =>
          obtain ⟨hguar, hnext⟩ := h s out.1 out.2 heffect
          exact htrans _ _ _ hguar (ih out.1 hnext out.2)
      | error e => exact hrefl s
  | txn opening closing body next _ ih =>
      simp only [Prog.exec]
      rcases hexec : Prog.exec body s with ⟨b | e | _, s'⟩
      · obtain ⟨hguar, hnext⟩ := h s b s' hexec
        exact htrans _ _ _ hguar (ih b hnext s')
      · exact hrefl s
      · exact hrefl s

theorem keeps_transaction (hrefl : ∀ s, guar s s)
    (htrans : ∀ s s' s'', guar s s' → guar s' s'' → guar s s'') {opening closing : τ}
    {body : Prog σ τ ε α} (h : Keeps guar body) :
    Keeps guar (transaction opening closing body) := by
  intro s b s' hexec
  have hguar := h.exec hrefl htrans s
  rw [hexec] at hguar
  exact ⟨hguar, trivial⟩

/-- **A step of the program.** -/
theorem Keeps.step (hrefl : ∀ s, guar s s) {p : Prog σ τ ε α} (h : Keeps guar p) (s : σ) :
    guar s (Prog.step p s).2 ∧ Keeps guar (Prog.step p s).1 := by
  cases p with
  | done r => exact ⟨hrefl s, h⟩
  | hang => exact ⟨hrefl s, h⟩
  | stmt tag effect next =>
      simp only [Prog.step]
      cases heffect : effect s with
      | ok out => exact h s out.1 out.2 heffect
      | error e => exact ⟨hrefl s, trivial⟩
  | txn opening closing body next =>
      simp only [Prog.step]
      rcases hexec : Prog.exec body s with ⟨b | e | _, s'⟩
      · exact h s b s' hexec
      · exact ⟨hrefl s, trivial⟩
      · exact ⟨hrefl s, trivial⟩

/-- A program whose statements leave the state as it is changes nothing. -/
theorem Keeps.reads {p : Prog σ τ ε α} (h : Keeps (fun s s' => s = s') p) : Reads p := by
  show ∀ s, Along (fun _ s' => s' = s) (fun _ s' => s' = s) p s
  induction p with
  | done r =>
      intro s
      cases r with
      | ok a => exact ⟨List.forall_mem_nil _, rfl⟩
      | error e => exact ⟨List.forall_mem_nil _, rfl⟩
  | hang => exact fun s => ⟨List.forall_mem_nil _, rfl⟩
  | stmt tag effect next ih =>
      intro s
      simp only [Along, trace, Prog.exec, List.forall_mem_cons, true_and]
      rcases heffect : effect s with e | ⟨b, s'⟩
      · exact ⟨List.forall_mem_nil _, rfl⟩
      · obtain ⟨rfl, hnext⟩ := h s b s' heffect
        exact ih b hnext s
  | txn opening closing body next _ ih =>
      intro s
      have hbody : ∀ x ∈ (trace body s).map fun x => (x.1, s), x.2 = s := by
        intro x hx
        obtain ⟨_, -, rfl⟩ := List.mem_map.mp hx
        rfl
      simp only [Along, trace, Prog.exec, List.cons_append, List.forall_mem_cons,
        List.forall_mem_append, true_and]
      rcases hexec : Prog.exec body s with ⟨b | e | _, s'⟩
      · obtain ⟨rfl, hnext⟩ := h s b s' hexec
        obtain ⟨htrace, hend⟩ := ih b hnext s
        exact ⟨⟨hbody, List.forall_mem_cons.mpr ⟨rfl, htrace⟩⟩, hend⟩
      · exact ⟨⟨hbody, List.forall_mem_nil _⟩, rfl⟩
      · exact ⟨⟨hbody, List.forall_mem_nil _⟩, rfl⟩

end SimplyIpSync.Program.Prog
