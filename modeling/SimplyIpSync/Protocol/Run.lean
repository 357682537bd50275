import SimplyIpSync.Lib.Trace
import SimplyIpSync.Protocol.Delivery

/-!
# Signed requests on an open network

Holders sign requests, and anybody sends anything to any process of the server: a copy of what was
signed, at any time and as often as they like, or bytes of their own.  The key table may hold
anything when a request is looked up, as other requests and other processes change it.

After any run, the guard of each process remembers what went past it within the window, and every
exchange was judged by what the log held before it (`World.sound`).
-/

namespace SimplyIpSync.Protocol

open SimplyIpSync.Crypto SimplyIpSync.Entities SimplyIpSync.Replay SimplyIpSync.Middleware
open SimplyIpSync.Auth SimplyIpSync.SignatureBinding SimplyIpSync.Api SimplyIpSync.Reach
open SimplyIpSync.Trace SimplyIpSync.Client

/-! ### The world -/

/-- A holder signs, a process starts, or a request comes to a process. -/
inductive Event
  | sign (c : Components) (clock : ℤ)
  | start (now : ℤ)
  | deliver (d : Delivery)

/-- What holders have signed, the processes of the server, and their exchanges, the newest first. -/
structure World where
  issued : List Components
  processes : List Process
  log : List Exchange

/-- Nothing is signed, and no process runs. -/
def World.empty : World := ⟨[], [], []⟩

/-- The request can come to the process: clocks show a `DateTime` and do not go back. -/
def Process.Takes (p : Process) (d : Delivery) : Prop :=
  d.OneLine ∧ IsDateTimeSec (timestamp d.checkedAt) ∧ d.checkedAt ≤ d.recordedAt ∧
    p.now ≤ d.recordedAt

instance (p : Process) (d : Delivery) : Decidable (Process.Takes p d) :=
  inferInstanceAs (Decidable (_ ∧ _ ∧ _ ∧ _))

/-- An event.  A holder stamps what it signs with the second of its clock. -/
def World.step (gw : Gateway) (w : World) : Event → Option World
  | .sign c clock =>
      if IsDateTimeSec (timestamp clock) ∧ c.timestamp = timestampText (timestamp clock) then
        some { w with issued := c :: w.issued }
      else none
  | .start now => some { w with processes := w.processes ++ [.start now] }
  | .deliver d =>
      w.processes[d.process]?.bind fun p =>
        if Process.Takes p d then
          some
            { w with
              processes := w.processes.set d.process ⟨(d.judge gw p.guard).2, d.recordedAt⟩
              log := ⟨d, (d.judge gw p.guard).1⟩ :: w.log }
        else none

variable {gw : Gateway} {w w' : World}

theorem World.step_deliver {d : Delivery} (h : w.step gw (.deliver d) = some w') :
    ∃ p, w.processes[d.process]? = some p ∧ Process.Takes p d ∧
      w' =
        { w with
          processes := w.processes.set d.process ⟨(d.judge gw p.guard).2, d.recordedAt⟩
          log := ⟨d, (d.judge gw p.guard).1⟩ :: w.log } := by
  obtain ⟨p, hp, hnext⟩ := Option.bind_eq_some_iff.mp h
  split at hnext
  · rename_i htakes
    exact ⟨p, hp, htakes, (Option.some.inj hnext).symm⟩
  · cases hnext

/-! ### What a process remembers -/

/-- The exchange went past the guard of this process with this signature. -/
def Exchange.Passes (gw : Gateway) (x : Exchange) (i : ℕ) (id : SignatureId) : Prop :=
  x.delivery.process = i ∧ x.answer ≠ .error alreadyUsed ∧
    ∃ record c, x.delivery.Signs gw record c ∧ id = ⟨record.id, c.digest gw.mac⟩

/-- At the moment `u` it is less than a window since the signature went past the guard. -/
def Recalls (gw : Gateway) (i : ℕ) (log : List Exchange) (u : ℤ) (id : SignatureId) : Prop :=
  ∃ x ∈ log, x.Passes gw i id ∧ u < x.delivery.recordedAt + windowNanos

theorem recalls_cons {i : ℕ} {x : Exchange} {log : List Exchange} {u : ℤ} {id : SignatureId} :
    Recalls gw i (x :: log) u id ↔
      (x.Passes gw i id ∧ u < x.delivery.recordedAt + windowNanos) ∨ Recalls gw i log u id := by
  simp only [Recalls, List.mem_cons, exists_eq_or_imp]

/-- What is recalled was recalled before. -/
theorem Recalls.earlier {i : ℕ} {log : List Exchange} {u u' : ℤ} {id : SignatureId}
    (h : Recalls gw i log u id) (hu : u' ≤ u) : Recalls gw i log u' id := by
  obtain ⟨x, hx, hpasses, hlt⟩ := h
  exact ⟨x, hx, hpasses, lt_of_le_of_lt hu hlt⟩

/-- The guard of a process remembers what went past it, and nothing else. -/
structure Faithful (gw : Gateway) (log : List Exchange) (i : ℕ) (p : Process) : Prop where
  window : p.guard.window = windowNanos
  memory : ∀ u id, p.now ≤ u → (p.guard.Remembers u id ↔ Recalls gw i log u id)

/-- A signed request is refused as used exactly when the past recalls its signature. -/
def Judged (gw : Gateway) (x : Exchange) (past : List Exchange) : Prop :=
  ∀ record c, x.delivery.Signs gw record c →
    (x.answer = .error alreadyUsed ↔
      Recalls gw x.delivery.process past x.delivery.recordedAt ⟨record.id, c.digest gw.mac⟩)

/-- **A guard and one delivery.**  The guard stays faithful, and the delivery is judged by it. -/
theorem Faithful.deliver {log : List Exchange} {p : Process} {d : Delivery}
    (h : Faithful gw log d.process p) (htakes : Process.Takes p d) :
    Faithful gw (⟨d, (d.judge gw p.guard).1⟩ :: log) d.process
        ⟨(d.judge gw p.guard).2, d.recordedAt⟩ ∧
      Judged gw ⟨d, (d.judge gw p.guard).1⟩ log := by
  obtain ⟨hline, -, -, hclock⟩ := htakes
  rcases @Delivery.judge_cases gw d hline p.guard with ⟨hunsigned, e, -, hjudge⟩ |
    ⟨record, c, hsigns, hjudge⟩
  · -- nothing is signed: nothing goes past the guard
    refine ⟨⟨?_, ?_⟩, fun record c hsigns => absurd hsigns (hunsigned record c)⟩
    · rw [hjudge]
      exact h.window
    · intro u id hu
      have hnot : ¬Exchange.Passes gw ⟨d, (d.judge gw p.guard).1⟩ d.process id := by
        rintro ⟨-, -, record, c, hsigns, -⟩
        exact hunsigned record c hsigns
      rw [recalls_cons, hjudge, h.memory u id (le_trans hclock hu)]
      rw [hjudge] at hnot
      exact ⟨Or.inr, fun hor => hor.resolve_left fun hpass => hnot hpass.1⟩
  · obtain ⟨hfirst, hkeep, hmemory⟩ :=
      p.guard.checkAndRecord_spec d.recordedAt record.id (c.digest gw.mac)
    rw [h.window] at hkeep hmemory
    have hrecalls := h.memory d.recordedAt ⟨record.id, c.digest gw.mac⟩ hclock
    have hpasses : ∀ id, Exchange.Passes gw ⟨d, (d.judge gw p.guard).1⟩ d.process id ↔
        (d.judge gw p.guard).1 ≠ .error alreadyUsed ∧ id = ⟨record.id, c.digest gw.mac⟩ := by
      intro id
      constructor
      · rintro ⟨-, hanswer, record', c', hsigns', hid⟩
        obtain ⟨rfl, rfl⟩ := hsigns.unique hsigns'
        exact ⟨hanswer, hid⟩
      · rintro ⟨hanswer, hid⟩
        exact ⟨rfl, hanswer, record, c, hsigns, hid⟩
    cases hused : (p.guard.checkAndRecord d.recordedAt record.id (c.digest gw.mac)).1 with
    | true =>
        rw [hused] at hfirst hmemory
        have hfresh : ¬Recalls gw d.process log d.recordedAt ⟨record.id, c.digest gw.mac⟩ := by
          rw [← hrecalls]
          exact hfirst.mp rfl
        rw [hused, if_pos rfl] at hjudge
        have hanswer : (d.judge gw p.guard).1 ≠ .error alreadyUsed := by
          rw [hjudge]
          exact Delivery.bound_ne_alreadyUsed
        refine ⟨⟨?_, ?_⟩, ?_⟩
        · rw [hjudge]
          exact hkeep
        · intro u id hu
          rw [recalls_cons, hpasses]
          rw [show (d.judge gw p.guard).2 = _ from congrArg Prod.snd hjudge, hmemory u id hu]
          by_cases hid : id = ⟨record.id, c.digest gw.mac⟩
          · subst hid
            rw [if_pos ⟨rfl, rfl⟩]
            exact ⟨fun hlt => Or.inl ⟨⟨hanswer, rfl⟩, hlt⟩, fun hor => hor.elim And.right
              fun hrecall => absurd (hrecall.earlier hu) hfresh⟩
          · rw [if_neg fun hboth => hid hboth.2, h.memory u id (le_trans hclock hu)]
            exact ⟨Or.inr, fun hor => hor.resolve_left fun hpass => hid hpass.1.2⟩
        · intro record' c' hsigns'
          obtain ⟨rfl, rfl⟩ := hsigns.unique hsigns'
          exact iff_of_false hanswer hfresh
    | false =>
        rw [hused] at hfirst hmemory
        have hused' : Recalls gw d.process log d.recordedAt ⟨record.id, c.digest gw.mac⟩ := by
          rw [← hrecalls]
          by_contra hnot
          exact Bool.false_ne_true (hfirst.mpr hnot)
        rw [hused, if_neg Bool.false_ne_true] at hjudge
        refine ⟨⟨?_, ?_⟩, ?_⟩
        · rw [hjudge]
          exact hkeep
        · intro u id hu
          have hsame := hmemory u id hu
          rw [if_neg fun hboth => Bool.false_ne_true hboth.1] at hsame
          rw [recalls_cons, hpasses, hjudge, hsame, h.memory u id (le_trans hclock hu)]
          exact ⟨Or.inr, fun hor => hor.resolve_left fun hpass => hpass.1.1 rfl⟩
        · intro record' c' hsigns'
          obtain ⟨rfl, rfl⟩ := hsigns.unique hsigns'
          rw [hjudge]
          exact iff_of_true rfl hused'

/-- A delivery to another process changes nothing. -/
theorem Faithful.elsewhere {log : List Exchange} {i : ℕ} {p : Process} {x : Exchange}
    (h : Faithful gw log i p) (hother : x.delivery.process ≠ i) : Faithful gw (x :: log) i p := by
  refine ⟨h.window, fun u id hu => ?_⟩
  rw [recalls_cons, h.memory u id hu]
  exact ⟨Or.inr, fun hor => hor.resolve_left fun hpass => hother hpass.1.1⟩

/-- A process that starts remembers nothing. -/
theorem faithful_start {log : List Exchange} {i : ℕ}
    (hnew : ∀ x ∈ log, x.delivery.process ≠ i) (now : ℤ) : Faithful gw log i (.start now) := by
  refine ⟨rfl, fun u id _ => iff_of_false ?_ ?_⟩
  · rintro ⟨entry, hentry, -⟩
    cases hentry
  · rintro ⟨x, hx, hpasses, -⟩
    exact hnew x hx hpasses.1

/-- The clocks of an exchange, and what an admission rests on. -/
structure Exchange.Regular (gw : Gateway) (x : Exchange) : Prop where
  dateTime : IsDateTimeSec (timestamp x.delivery.checkedAt)
  clock : x.delivery.checkedAt ≤ x.delivery.recordedAt
  admitted : ∀ grant, x.answer = .ok grant →
    ∃ record c, x.delivery.Signs gw record c ∧ x.delivery.bound gw record = .ok grant
  passed : ∀ record c, x.delivery.Signs gw record c → x.answer ≠ .error alreadyUsed →
    x.answer = x.delivery.bound gw record

theorem regular_judge {d : Delivery} {p : Process} (htakes : Process.Takes p d) :
    Exchange.Regular gw ⟨d, (d.judge gw p.guard).1⟩ := by
  obtain ⟨hline, hdate, hclock, -⟩ := htakes
  rcases @Delivery.judge_cases gw d hline p.guard with ⟨hnot, e, -, hjudge⟩ |
    ⟨record, c, hsigns, hjudge⟩
  · refine ⟨hdate, hclock, ?_, fun record c hsigns => absurd hsigns (hnot record c)⟩
    intro grant hgrant
    rw [hjudge] at hgrant
    cases hgrant
  · rw [hjudge]
    simp only
    split
    · refine ⟨hdate, hclock, fun grant hgrant => ⟨record, c, hsigns, hgrant⟩, ?_⟩
      intro record' c' hsigns' _
      obtain ⟨rfl, rfl⟩ := hsigns.unique hsigns'
      rfl
    · refine ⟨hdate, hclock, ?_, fun _ _ _ hanswer => absurd rfl hanswer⟩
      intro grant hgrant
      cases hgrant

/-- Every exchange belongs to a process, is regular and judged by its past, and every guard is
faithful. -/
structure World.Sound (gw : Gateway) (w : World) : Prop where
  known : ∀ x ∈ w.log, x.delivery.process < w.processes.length
  regular : ∀ x ∈ w.log, x.Regular gw
  faithful : ∀ i p, w.processes[i]? = some p → Faithful gw w.log i p
  judged : Holds (Judged gw) w.log

/-- **One event.** -/
theorem World.Sound.step {event : Event} (h : w.Sound gw) (hstep : w.step gw event = some w') :
    w'.Sound gw := by
  cases event with
  | sign c clock =>
      simp only [World.step] at hstep
      split at hstep
      · obtain rfl := Option.some.inj hstep
        exact ⟨h.known, h.regular, h.faithful, h.judged⟩
      · cases hstep
  | start now =>
      obtain rfl := Option.some.inj hstep
      refine ⟨fun x hx => ?_, h.regular, fun i p hp => ?_, h.judged⟩
      · rw [List.length_append, List.length_singleton]
        exact Nat.lt_succ_of_lt (h.known x hx)
      · rcases Nat.lt_or_ge i w.processes.length with hi | hi
        · rw [List.getElem?_append_left hi] at hp
          exact h.faithful i p hp
        · rw [List.getElem?_append_right hi] at hp
          obtain ⟨hzero, rfl⟩ := List.getElem?_eq_some_iff.mp hp
          rw [List.getElem_singleton]
          exact faithful_start (fun x hx hsame => by have := h.known x hx; omega) now
  | deliver d =>
      obtain ⟨p, hp, htakes, rfl⟩ := World.step_deliver hstep
      have hi := (List.getElem?_eq_some_iff.mp hp).1
      obtain ⟨hfaithful, hjudged⟩ := (h.faithful d.process p hp).deliver htakes
      refine ⟨?_, List.forall_mem_cons.mpr ⟨regular_judge htakes, h.regular⟩, ?_,
        ⟨hjudged, h.judged⟩⟩
      · intro x hx
        rw [List.length_set]
        rcases List.mem_cons.mp hx with rfl | hx
        · exact hi
        · exact h.known x hx
      · intro j q hq
        rw [List.getElem?_set] at hq
        split at hq
        · rename_i hsame
          subst hsame
          obtain rfl := Option.some.inj hq
          exact hfaithful
        · rename_i hother
          exact (h.faithful j q hq).elsewhere hother

theorem World.sound {good : World → Event → Prop}
    (hrun : Reaches (World.step gw) good .empty w) : w.Sound gw := by
  refine hrun.invariant (P := World.Sound gw) ⟨List.forall_mem_nil _, List.forall_mem_nil _, ?_,
    trivial⟩ fun _ _ _ h _ hstep => h.step hstep
  intro i p hp
  cases hp

end SimplyIpSync.Protocol
