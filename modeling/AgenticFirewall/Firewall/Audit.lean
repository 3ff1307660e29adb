import AgenticFirewall.Storage.Database

/-!
# Audit logging

`app/firewall/audit.py`. The event is built (and thereby sanitised) first
and then inserted; what is returned is the event with the id of its row.
-/

namespace AgenticFirewall

open Py

namespace AuditLog

/-- The event, and the database with its row. -/
def record (now : ℚ) (e : SecurityEvent) (db : Database) :
    Except Exc (SecurityEvent × Database) := do
  let event := { e with ts := now }.build
  let (id, db) ← db.addAudit event.ts event.userId event.sessionRef event.role event.tool
    event.risk event.decision.value event.stage event.reason event.latencyMs
  return ({ event with id := some id }, db)

/-- `SecurityEvent(**row)`: the fields are validated, and sanitised, again. -/
def ofRow (row : AuditRow) : Except Exc SecurityEvent :=
  match Decision.ofValue row.decision.val with
  | none => .error .other
  | some decision =>
      .ok ({
        ts := row.ts
        userId := row.userId.map Text.val
        sessionRef := row.sessionRef.map Text.val
        role := row.role.map Text.val
        tool := row.tool.map Text.val
        risk := row.risk.map Text.val
        decision
        stage := row.stage.val
        reason := row.reason.val
        latencyMs := row.latencyMs
        id := some row.id } : SecurityEvent).build

def recent (limit : Int) (db : Database) : Except Exc (List SecurityEvent) :=
  (db.recentAudit limit).mapM ofRow

end AuditLog

/-- Every text of the event can be bound. -/
def SecurityEvent.Bindable (e : SecurityEvent) : Prop := ∀ s ∈ e.texts, Encodable s

instance (e : SecurityEvent) : Decidable e.Bindable := by
  unfold SecurityEvent.Bindable
  infer_instance

theorem SecurityEvent.forall_texts {P : Str → Prop} {e : SecurityEvent} :
    (∀ s ∈ e.texts, P s) ↔
      (∀ s ∈ e.userId, P s) ∧ (∀ s ∈ e.sessionRef, P s) ∧ (∀ s ∈ e.role, P s) ∧
        (∀ s ∈ e.tool, P s) ∧ (∀ s ∈ e.risk, P s) ∧ P e.decision.value ∧ P e.stage ∧
          P e.reason := by
  have hopt : ∀ l : List (Option Str), (∀ s ∈ l.filterMap fun s => s, P s) ↔
      ∀ o ∈ l, ∀ s ∈ o, P s := by
    intro l
    simp only [List.mem_filterMap, Option.mem_def]
    exact ⟨fun h o ho s hs => h s ⟨o, ho, hs⟩, fun h s ⟨o, ho, hs⟩ => h o ho s hs⟩
  simp only [SecurityEvent.texts, List.forall_mem_append, hopt, List.forall_mem_cons,
    List.not_mem_nil, false_implies, implies_true, and_true, and_assoc]

theorem SecurityEvent.bindable_iff {e : SecurityEvent} :
    e.Bindable ↔
      (∀ s ∈ e.userId, Encodable s) ∧ (∀ s ∈ e.sessionRef, Encodable s) ∧
        (∀ s ∈ e.role, Encodable s) ∧ (∀ s ∈ e.tool, Encodable s) ∧
        (∀ s ∈ e.risk, Encodable s) ∧ Encodable e.stage ∧ Encodable e.reason := by
  simp only [SecurityEvent.Bindable, SecurityEvent.forall_texts, encodable_decision, true_and]

/-- The row of an event, column by column. -/
structure AuditRow.Holds (row : AuditRow) (e : SecurityEvent) : Prop where
  id : e.id = some row.id
  ts : row.ts = e.ts
  userId : row.userId.map Text.val = e.userId
  sessionRef : row.sessionRef.map Text.val = e.sessionRef
  role : row.role.map Text.val = e.role
  tool : row.tool.map Text.val = e.tool
  risk : row.risk.map Text.val = e.risk
  decision : row.decision.val = e.decision.value
  stage : row.stage.val = e.stage
  reason : row.reason.val = e.reason
  latencyMs : row.latencyMs = e.latencyMs

section Record

variable {now : ℚ} {e event : SecurityEvent} {db db' : Database}

/-- What a write that returns has done: the sanitised event has one new
row, everything else is as before. -/
theorem record_eq_ok (h : AuditLog.record now e db = .ok (event, db')) :
    event = { { e with ts := now }.build with id := event.id } ∧
      ∃ row, row.Holds event ∧ db' = { db with auditLogs := db.auditLogs ++ [row] } := by
  unfold AuditLog.record Database.addAudit at h
  simp only [except_bind_eq_ok, bindText_eq_ok, bindOptText_eq_ok, pure, Except.pure,
    Except.ok.injEq, Prod.mk.injEq] at h
  obtain ⟨_, ⟨userId, hu, sessionRef, hs, role, hr, tool, ht, risk, hk, decision, hd, stage, hg,
    reason, hm, rfl⟩, rfl, rfl⟩ := h
  exact ⟨rfl, _, ⟨rfl, rfl, hu, hs, hr, ht, hk, hd, hg, hm, rfl⟩, rfl⟩

/-- A write returns exactly when every text of the sanitised event can be
bound. -/
theorem record_returns_iff :
    (∃ event db', AuditLog.record now e db = .ok (event, db')) ↔ e.build.Bindable := by
  rw [SecurityEvent.bindable_iff]
  constructor
  · intro h
    obtain ⟨event, db', h⟩ := h
    obtain ⟨he, row, hrow, -⟩ := record_eq_ok h
    have hopt : ∀ {t : Option Text} {s : Option Str}, t.map Text.val = s →
        ∀ u ∈ s, Encodable u := by
      rintro t _ rfl u hu
      obtain ⟨v, -, rfl⟩ := Option.map_eq_some_iff.mp hu
      exact v.encodable
    rw [he] at hrow
    exact ⟨hopt hrow.userId, hopt hrow.sessionRef, hopt hrow.role, hopt hrow.tool,
      hopt hrow.risk, hrow.stage ▸ row.stage.encodable,
      hrow.reason ▸ row.reason.encodable⟩
  · intro h
    obtain ⟨hu, hs, hr, ht, hk, hg, hm⟩ := h
    obtain ⟨userId, hu⟩ := bindOptText_returns.mpr hu
    obtain ⟨sessionRef, hs⟩ := bindOptText_returns.mpr hs
    obtain ⟨role, hr⟩ := bindOptText_returns.mpr hr
    obtain ⟨tool, ht⟩ := bindOptText_returns.mpr ht
    obtain ⟨risk, hk⟩ := bindOptText_returns.mpr hk
    simp only [SecurityEvent.build] at hu hs hr ht hk hg hm
    simp [AuditLog.record, Database.addAudit, SecurityEvent.build, hu, hs, hr, ht, hk,
      bindText_encodable (encodable_decision _), bindText_encodable hg, bindText_encodable hm,
      bind, Except.bind, pure, Except.pure]

end Record

/-! ## The log -/

/-- The log has grown by the rows of the events, in order. -/
def Logged (events : List SecurityEvent) (db db' : Database) : Prop :=
  ∃ rows, db'.auditLogs = db.auditLogs ++ rows ∧ List.Forall₂ AuditRow.Holds rows events

namespace Logged

variable {events events' : List SecurityEvent} {db db' db'' : Database}

theorem none (h : db'.auditLogs = db.auditLogs) : Logged [] db db' := ⟨[], by simp [h], .nil⟩

theorem one {event : SecurityEvent} {row : AuditRow} (hrow : row.Holds event)
    (h : db'.auditLogs = db.auditLogs ++ [row]) : Logged [event] db db' :=
  ⟨[row], h, .cons hrow .nil⟩

theorem append (h : Logged events db db') (h' : Logged events' db' db'') :
    Logged (events ++ events') db db'' := by
  obtain ⟨rows, hrows, hall⟩ := h
  obtain ⟨rows', hrows', hall'⟩ := h'
  exact ⟨rows ++ rows', by rw [hrows', hrows, List.append_assoc], List.rel_append hall hall'⟩

end Logged

end AgenticFirewall
