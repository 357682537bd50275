import SimplyIpSync.Api.AuditTrail
import SimplyIpSync.Installation.Service

/-!
# What every run keeps in the tables

For any number of processes on one database, from the empty one on: no request that is audited is
answered without its entry, and entries stay until they are old enough for a retention worker
(`audit_trail`).
-/

namespace SimplyIpSync.Installation

open SimplyIpSync.Crypto SimplyIpSync.Text SimplyIpSync.Entities SimplyIpSync.Storage
open SimplyIpSync.Program SimplyIpSync.Program.Prog SimplyIpSync.Api SimplyIpSync.Canary
open SimplyIpSync.Reach SimplyIpSync.Retention SimplyIpSync.Jobs.ExternalIngestion
open SimplyIpSync.Timestamps

variable {aead : Aead} {l : Launch} {m : Uuid} {s s' : Service} {event : Service.Event}
  {db db' : Database}

/-! ### The audit trail -/

/-- The purge has no threshold after `since`, and reads the entries from then on right.  It always
does on the years of four digits, up to a microsecond. -/
def SparesFrom (since : ℤ) (backend : DatabaseBackend) (days now : ℤ) (log : List AuditLog) : Prop :=
  0 < days → now - days * nanosPerDay ≤ since ∧
    ∀ entry ∈ log, since ≤ entry.timestamp →
      ¬Misread backend entry.timestamp (now - days * nanosPerDay)

instance (since : ℤ) (backend : DatabaseBackend) (days now : ℤ) (log : List AuditLog) :
    Decidable (SparesFrom since backend days now log) :=
  inferInstanceAs (Decidable (_ → _ ∧ ∀ entry ∈ log, _))

/-- No retention worker removes an entry from `since` on. -/
def Spares (since : ℤ) : Service → Service.Event → Prop
  | s, .chore i (.purgeAuditLogs backend now) =>
      ∀ p ∈ s.serving[i]?, SparesFrom since backend p.auditLogDays now s.db.auditLogs
  | _, _ => True

instance (since : ℤ) (s : Service) : (event : Service.Event) → Decidable (Spares since s event)
  | .chore i (.purgeAuditLogs backend now) => inferInstanceAs (Decidable (∀ p ∈ s.serving[i]?,
      SparesFrom since backend p.auditLogDays now s.db.auditLogs))
  | .chore _ (.writeSyncLog _) => isTrue trivial
  | .chore _ (.stampGroup _ _) => isTrue trivial
  | .chore _ (.stampTask _ _) => isTrue trivial
  | .chore _ (.purgeSyncLogs _ _) => isTrue trivial
  | .launch _ => isTrue trivial
  | .proceed _ => isTrue trivial
  | .listen _ => isTrue trivial
  | .giveUp _ => isTrue trivial
  | .stop _ => isTrue trivial
  | .arrive _ _ _ => isTrue trivial
  | .advance _ => isTrue trivial
  | .abort _ => isTrue trivial

theorem recent_purged {since days now : ℤ} {backend : DatabaseBackend} {log : List AuditLog} {out}
    (h : purgeExpiredAuditLogs backend days now none log = some out)
    (hspares : SparesFrom since backend days now log) :
    recent since out.2 = recent since log := by
  rw [purgeExpiredAuditLogs, purgeExpired] at h
  split at h
  · obtain rfl := Option.some.inj h
    rfl
  · rename_i hdays
    obtain ⟨limit, hlimit, rfl⟩ := Option.map_eq_some_iff.mp h
    obtain rfl := eq_of_threshold hlimit
    obtain ⟨hfar, hread⟩ := hspares (by omega)
    rw [recent, List.filter_filter]
    refine List.filter_congr ?_
    intro entry hentry
    by_cases hsince : since ≤ entry.timestamp
    · have hlate : ¬entry.timestamp < now - days * nanosPerDay := by omega
      rw [columnLt_iff.mpr (hread entry hentry hsince)]
      simp [hsince, hlate]
    · simp [hsince]

/-- **An event keeps the recent entries.** -/
theorem Touches.extends {since : ℤ} (h : Touches m s event db) (hdb : s.db.MasterIs m)
    (hspares : Spares since s event) :
    Extends (recent since s.db.auditLogs) (recent since db.auditLogs) := by
  cases h with
  | nothing => exact .refl _
  | call c hc caller rest hstage hwrites =>
      refine Extends.recent ?_
      refine holds_of_writes (P := fun db => Extends s.db.auditLogs db.auditLogs) ?_ hdb (.refl _)
        hwrites
      exact fun _ _ _ hlog hwrite => hlog.trans hwrite.extends
  | chore p hp hrun =>
      rcases Chore.run_cases hrun with hwrite | ⟨_, rfl⟩ | ⟨backend, now, purged, rfl, hpurged, rfl⟩
      · exact (hwrite m (Env.plain 0) ((Env.plain 0).masterKey "" "")).extends.recent
      · exact .refl _
      · rw [← recent_purged hpurged (hspares p hp)]
        exact .refl _

theorem Blank.extends {since : ℤ} (h : Blank db) (log : List AuditLog) :
    Extends (recent since db.auditLogs) log := by
  rw [h.auditLogs]
  exact ⟨[], log, rfl, .nil⟩

/-- The call has its entry, or it has yet to write it. -/
def InFlight.Accounted (since : ℤ) (db : Database) (c : InFlight) : Prop :=
  ∀ caller rest action, c.stage = .handling caller rest → c.call.request.action = some action →
    since ≤ c.call.env.now →
    Recorded c.call.env caller action db ∨ Secures (Recorded c.call.env caller action) rest

theorem InFlight.Accounted.later {since : ℤ} {c : InFlight} (h : c.Accounted since db)
    (hlog : Extends (recent since db.auditLogs) (recent since db'.auditLogs)) :
    c.Accounted since db' := by
  intro caller rest action hstage haction hsince
  exact (h caller rest action hstage haction hsince).imp_left fun hrecorded =>
    hrecorded.extends hsince hlog

/-- **A statement of a call.** -/
theorem InFlight.Accounted.advance {since : ℤ} {c : InFlight} (h : c.Accounted since db)
    (hlog : Extends (recent since db.auditLogs) (recent since (c.advance db).2.auditLogs)) :
    (c.advance db).1.Accounted since (c.advance db).2 := by
  intro caller rest action hstage haction hsince
  cases hnow : c.stage with
  | lookedUp =>
      simp only [InFlight.advance, hnow] at hstage haction hsince ⊢
      obtain ⟨rfl, rfl⟩ := Stage.handling.inj hstage
      exact Or.inr (secures_handle haction)
  | handling caller' rest' =>
      simp only [InFlight.advance, hnow] at hlog hstage haction hsince ⊢
      obtain ⟨rfl, rfl⟩ := Stage.handling.inj hstage
      rcases h caller' rest' action hnow haction hsince with hrecorded | howes
      · exact Or.inl (hrecorded.extends hsince hlog)
      · exact howes.step db

/-- **One event**, when the recent entries stay. -/
theorem accounted_step {since : ℤ} (h : ∀ c ∈ s.calls, c.Accounted since s.db)
    (hlog : Extends (recent since s.db.auditLogs) (recent since s'.db.auditLogs))
    (hstep : s.step aead event = some s') : ∀ c ∈ s'.calls, c.Accounted since s'.db := by
  have hold : ∀ c ∈ s.calls, c.Accounted since s'.db := fun c hc => (h c hc).later hlog
  cases event with
  | launch l =>
      obtain rfl := Option.some.inj hstep
      exact hold
  | proceed i =>
      obtain ⟨_, -, rfl⟩ := Option.map_eq_some_iff.mp hstep
      exact hold
  | listen i =>
      obtain ⟨_, -, hlisten⟩ := Option.bind_eq_some_iff.mp hstep
      split at hlisten
      · obtain rfl := Option.some.inj hlisten
        exact hold
      · cases hlisten
  | giveUp i =>
      obtain ⟨_, -, rfl⟩ := Option.map_eq_some_iff.mp hstep
      exact hold
  | stop i =>
      obtain ⟨_, -, rfl⟩ := Option.map_eq_some_iff.mp hstep
      exact hold
  | arrive i call nonce =>
      obtain ⟨_, -, harrive⟩ := Option.bind_eq_some_iff.mp hstep
      split at harrive
      · obtain ⟨_, -, rfl⟩ := Option.map_eq_some_iff.mp harrive
        intro c hc
        rcases List.mem_append.mp hc with hmem | hnew
        · exact hold c hmem
        · rw [List.mem_singleton.mp hnew]
          intro _ _ _ hstage
          cases hstage
      · cases harrive
  | advance i =>
      obtain ⟨c, hc, rfl⟩ := Option.map_eq_some_iff.mp hstep
      intro c' hc'
      rcases List.mem_or_eq_of_mem_set hc' with hmem | rfl
      · exact hold c' hmem
      · exact (h c (List.mem_of_getElem? hc)).advance hlog
  | abort i =>
      obtain ⟨_, -, rfl⟩ := Option.map_eq_some_iff.mp hstep
      exact fun c hc => hold c (List.mem_of_mem_eraseIdx hc)
  | chore i chore =>
      obtain ⟨_, -, hchore⟩ := Option.bind_eq_some_iff.mp hstep
      obtain ⟨_, -, rfl⟩ := Option.map_eq_some_iff.mp hchore
      exact hold

/-- There is a Master whom everybody knows, or nothing has happened yet. -/
def Service.Settled (aead : Aead) (s : Service) : Prop :=
  s.Unclaimed aead (fun _ => True) ∨ ∃ m, s.Governed aead (fun _ => True) m

theorem Service.Settled.step {since : ℤ} (h : s.Settled aead) (hspares : Spares since s event)
    (hstep : s.step aead event = some s') :
    s'.Settled aead ∧ Extends (recent since s.db.auditLogs) (recent since s'.db.auditLogs) := by
  rcases h with hunclaimed | ⟨m, hgoverned⟩
  · refine ⟨?_, hunclaimed.blank.extends _⟩
    rcases hunclaimed.step (admits_all s event) hstep with ⟨hstill, -⟩ | ⟨l, -, -, hnow⟩
    · exact Or.inl hstill
    · exact Or.inr ⟨_, hnow⟩
  · obtain ⟨hstill, htouches⟩ := hgoverned.step (admits_all s event) hstep
    exact ⟨Or.inr ⟨m, hstill⟩, htouches.extends hgoverned.master hspares⟩

theorem Service.Settled.keeps {since : ℤ} (h : s.Settled aead)
    (hrun : Reaches (Service.step aead) (Spares since) s s') :
    s'.Settled aead ∧ Extends (recent since s.db.auditLogs) (recent since s'.db.auditLogs) := by
  refine hrun.invariant (P := fun t => t.Settled aead ∧
    Extends (recent since s.db.auditLogs) (recent since t.db.auditLogs)) ⟨h, .refl _⟩ ?_
  rintro t event t' ⟨ht, hlog⟩ hspares hstep
  obtain ⟨hstill, hnext⟩ := ht.step hspares hstep
  exact ⟨hstill, hlog.trans hnext⟩

/-- **The audit trail.**  While no retention worker reaches the moment `since`: a request that is
audited and comes at or after it is answered only once its entry is in the log, and the entries from
then on stay there for good, in their order, even if their keys are deleted. -/
theorem audit_trail {since : ℤ} (hrun : Reaches (Service.step aead) (Spares since) .empty s) :
    (∀ c ∈ s.calls, ∀ caller reply action, c.stage = .handling caller (.done (.ok reply)) →
        c.call.request.action = some action → since ≤ c.call.env.now →
          Recorded c.call.env caller action s.db) ∧
      ∀ s', Reaches (Service.step aead) (Spares since) s s' →
        Extends (recent since s.db.auditLogs) (recent since s'.db.auditLogs) := by
  have hsettled : s.Settled aead ∧ ∀ c ∈ s.calls, c.Accounted since s.db := by
    refine hrun.invariant (P := fun t => t.Settled aead ∧ ∀ c ∈ t.calls, c.Accounted since t.db)
      ⟨Or.inl unclaimed_empty, List.forall_mem_nil _⟩ ?_
    rintro t event t' ⟨ht, hcalls⟩ hspares hstep
    obtain ⟨hstill, hnext⟩ := ht.step hspares hstep
    exact ⟨hstill, accounted_step hcalls hnext hstep⟩
  refine ⟨?_, fun s' hlater => (hsettled.1.keeps hlater).2⟩
  intro c hc caller reply action hstage haction hsince
  rcases hsettled.2 c hc caller _ action hstage haction hsince with hrecorded | howes
  · exact hrecorded
  · exact absurd howes (fun h => h)

/-- A key is created, and deleted by the Master; a purge of entries from before 1970 comes next. -/
theorem audit_trail_of_creation :
    ∃ s, Reaches (Service.step openAead) (Spares 0) .empty s ∧
      s.db.auditLogs.map (fun entry => (entry.action, entry.apiKeyId)) =
        [("KEY_CREATE", some 1), ("KEY_DELETE", some 1)] ∧
      ∃ c ∈ s.calls, ∃ caller, Recorded c.call.env caller "KEY_CREATE" s.db := by
  have hrun : (runEvents (Service.step openAead) (Spares 0) .empty
      (opening ++ asking 0 3 (.createApiKey (.plain "daughter" false false false)) ++
        asking 1 4 (.deleteApiKey 3) ++ [.chore 0 (.purgeAuditLogs .sqlite 0)])).map (fun s =>
          (s.db.auditLogs.map (fun entry => (entry.action, entry.apiKeyId)),
            s.calls.any fun c =>
              c.served ∧ c.call.request.action = some "KEY_CREATE" ∧ 0 ≤ c.call.env.now)) =
      some ([("KEY_CREATE", some 1), ("KEY_DELETE", some 1)], true) := by
    decide +kernel
  obtain ⟨s, hs, hfacts⟩ := Option.map_eq_some_iff.mp hrun
  obtain ⟨hlog, hcall⟩ := Prod.mk.inj hfacts
  have hreaches := reaches_of_runEvents hs
  obtain ⟨c, hc, hdone⟩ := List.any_eq_true.mp hcall
  refine ⟨s, hreaches, hlog, c, hc, ?_⟩
  obtain ⟨hserved, haction, hsince⟩ := of_decide_eq_true hdone
  obtain ⟨caller, reply, hstage⟩ := InFlight.served_iff.mp hserved
  exact ⟨caller, (audit_trail hreaches).1 c hc caller reply _ hstage haction hsince⟩

end SimplyIpSync.Installation
