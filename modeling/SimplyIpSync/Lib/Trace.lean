import Mathlib.Tactic

/-!
# Logs with their past

A log is a list of entries, the newest first, so that behind each entry stands its past.
`Holds P log` says that every entry meets `P` together with its past.  It is proved entry by entry,
when the entry is written, and used at any entry of the finished log (`Holds.of_suffix`) or at any
two of them (`Holds.pairwise`).

Entries that lie a gap apart in time are few in a bounded span (`length_le_of_apart`).
-/

namespace SimplyIpSync.Trace

variable {α : Type*} {P : α → List α → Prop}

/-- Every entry meets `P` together with the entries before it. -/
def Holds (P : α → List α → Prop) : List α → Prop
  | [] => True
  | entry :: past => P entry past ∧ Holds P past

/-- **An entry anywhere in the log.** -/
theorem Holds.of_suffix {log past : List α} {entry : α} (h : Holds P log)
    (hsuffix : entry :: past <:+ log) : P entry past := by
  induction log with
  | nil => exact absurd (List.suffix_nil.mp hsuffix) (List.cons_ne_nil _ _)
  | cons newest log ih =>
      obtain ⟨hnewest, hlog⟩ := h
      rcases List.suffix_cons_iff.mp hsuffix with heq | hsuffix
      · obtain ⟨rfl, rfl⟩ := List.cons_eq_cons.mp heq
        exact hnewest
      · exact ih hlog hsuffix

/-- **Any two entries of the log.** -/
theorem Holds.pairwise {R : α → α → Prop} {log : List α} (h : Holds P log)
    (hR : ∀ entry past, P entry past → ∀ earlier ∈ past, R entry earlier) : log.Pairwise R := by
  induction log with
  | nil => exact .nil
  | cons newest log ih => exact .cons (hR newest log h.1) (ih h.2)

/-! ### Entries apart in time -/

/-- Every entry comes at least `gap` after the ones before it. -/
def Apart (gap : ℤ) (time : α → ℤ) (log : List α) : Prop :=
  log.Pairwise fun later earlier => time earlier + gap ≤ time later

variable {gap : ℤ} {time : α → ℤ}

/-- As many gaps lie behind the newest entry as there are entries before it. -/
theorem Apart.exists_oldest {newest : α} {log : List α} (h : Apart gap time (newest :: log)) :
    ∃ oldest ∈ newest :: log, time oldest + log.length * gap ≤ time newest := by
  induction log generalizing newest with
  | nil => exact ⟨newest, List.mem_cons_self, by simp⟩
  | cons next log ih =>
      obtain ⟨hnewest, hlog⟩ := List.pairwise_cons.mp h
      obtain ⟨oldest, hmem, hspan⟩ := ih hlog
      have hstep := hnewest next List.mem_cons_self
      refine ⟨oldest, List.mem_cons_of_mem _ hmem, ?_⟩
      rw [List.length_cons]
      push_cast
      linarith

/-- **A bounded span has room for few entries.** -/
theorem Apart.length_le {log : List α} {n : ℕ} (h : Apart gap time log) (hgap : 0 ≤ gap)
    (hspan : ∀ later ∈ log, ∀ earlier ∈ log, time later < time earlier + n * gap) :
    log.length ≤ n := by
  cases log with
  | nil => exact Nat.zero_le n
  | cons newest log =>
      obtain ⟨oldest, hmem, hlong⟩ := h.exists_oldest
      have hshort := hspan newest List.mem_cons_self oldest hmem
      have hlt : (log.length : ℤ) * gap < n * gap := by linarith
      have hlength := lt_of_mul_lt_mul_right hlt hgap
      rw [List.length_cons]
      omega

end SimplyIpSync.Trace
