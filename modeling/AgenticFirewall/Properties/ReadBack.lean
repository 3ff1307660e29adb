import AgenticFirewall.Properties.AuditTrail
import AgenticFirewall.Properties.Clearance
import AgenticFirewall.Recording

/-!
# The log over HTTP

`GET /api/logs` answers a manager with the newest events the run has stored,
newest first and as they were recorded, whatever other requests were in
flight.
-/

namespace AgenticFirewall

open Py Transition

/-! ## The trail of a run -/

theorem Trail.congr {db db' : Database} {events : List SecurityEvent} (h : Trail db events)
    (hlog : db'.auditLogs = db.auditLogs) : Trail db' events where
  rows := by rw [hlog]; exact h.rows
  ids := by rw [hlog]; exact h.ids
  clean := h.clean

/-- The log goes on as a trail, with these events. -/
def Extends (events : List SecurityEvent) (db db' : Database) : Prop :=
  ∀ old, Trail db old → Trail db' (old ++ events)

theorem extends_rule : AuditRule Extends where
  none hlog old ht := by
    rw [List.append_nil]
    exact ht.congr hlog
  record hrec old ht := ht.record hrec
  append h h' old ht := by
    rw [← List.append_assoc]
    exact h' _ (h _ ht)

namespace Http

variable {app : App} {s s' : Server} {a : Action} {o : List Output} {req : Request}
  {events : List Event} {env env' : Env} {token : Str} {conn task : Nat}

/-- The events a run has stored. -/
def stored (o : List Output) : List SecurityEvent :=
  (o.filterMap Output.event?).filterMap Event.stored

theorem run_trail {as : List Action} {fw : Firewall} {old : List SecurityEvent}
    (h : app.machine.run { sys := { fw } } as = some (s, o)) (ht : Trail fw.db old) :
    Trail s.sys.fw.db (old ++ stored o) := by
  obtain ⟨acts, hacts⟩ := (refines_system app).run h
  exact extends_rule.run hacts old ht

/-! ## One response -/

section Verdicts

variable {cfg : Config} {fw : Firewall} {es : List SecurityEvent} {r : Response}

/-- The log is sent by `get_logs` alone, to a caller who came with a
session. -/
theorem verdict_logs (h : req.verdict cfg fw token events = .answers r)
    (hbody : r.body = .logs es) :
    ∃ limit x id session, req = .getLogs limit x ∧ events.getLast? = some (.session id session) ∧
      AuditLog.recent limit.val fw.db = .ok es ∧ r.status = 200 := by
  unfold Request.verdict at h
  cases hlast : events.getLast? with
  | none =>
      rw [hlast] at h
      cases req <;> cases h
      cases hbody
  | some e =>
      rw [hlast] at h
      cases e with
      | session id session =>
          cases req with
          | getLogs limit x =>
              simp only at h
              split at h
              · rename_i events' hrecent
                cases h
                cases hbody
                exact ⟨limit, x, id, session, rfl, rfl, hrecent, rfl⟩
              · cases h
                cases hbody
          | createSession body client =>
              cases h
              cases hbody
          | getPolicies x =>
              cases h
              cases hbody
          | _ => cases h
      | raised id e =>
          cases h
          unfold Request.raised at hbody
          split at hbody
          · cases e <;> cases hbody
          · cases hbody
      | returned id result =>
          cases h
          cases hbody
      | approved id outcomes =>
          cases h
          cases hbody
      | listed id infos =>
          cases h
          cases hbody
      | _ => cases h

/-- Such a caller is sent the newest events of the trail. -/
theorem logs_of_session {limit : LogLimit} {x : Option Str} {id : Nat} {session : UserSession}
    (hlast : events.getLast? = some (.session id session)) (ht : Trail fw.db es) :
    (Request.getLogs limit x).verdict cfg fw token events =
      .answers { body := .logs (es.reverse.take limit.val.toNat) } := by
  have hlimit : (limit.val.toNat : Int) = limit.val :=
    Int.toNat_of_nonneg (by linarith [limit.ge_one])
  have hread := ht.recent limit.val.toNat
  rw [hlimit] at hread
  unfold Request.verdict
  rw [hlast]
  simp only [hread]

theorem render_logs (h : (app.render r).body = .logs es) : app.render r = r ∧ r.body = .logs es := by
  unfold App.render at h ⊢
  split at h
  · rename_i hrenders
    rw [if_pos hrenders]
    exact ⟨rfl, h⟩
  · cases h

end Verdicts

/-- The step that sends the log: a manager's request arrives, and what is
read is the log as it is. -/
theorem Step.logs {c : Nat} {r : Response} {es : List SecurityEvent} (h : Step app s a s' o)
    (hr : .sent c r ∈ o) (hbody : r.body = .logs es) :
    ∃ limit x env env' token, a = .arrive (.getLogs limit x) env env' token ∧
      c = s.conns.length ∧ r.status = 200 ∧
      Cleared app.cfg env s.sys.fw (.getLogs limit x) ∧
      AuditLog.recent limit.val s.sys.fw.db = .ok es := by
  cases h with
  | arrived hbegun hsettled =>
      rename_i req env env' token sys events conn
      obtain ⟨rfl, r', hverdict, rfl⟩ := hsettled.sent hr
      obtain ⟨hsame, hbody'⟩ := render_logs hbody
      obtain ⟨limit, x, id, session, rfl, -, hrecent, hstatus⟩ := verdict_logs hverdict hbody'
      have hstep := hbegun.single rfl fun _ => rfl
      have hdb : sys.fw.db = s.sys.fw.db := by
        cases hstep
        exact (Firewall.requireManager_silent app.cfg env s.sys.fw (sessionId x)).2
      rw [hdb] at hrecent
      have hpasses : ((Request.getLogs limit x).verdict app.cfg sys.fw token events).Passes := by
        rw [hverdict]
        exact hstatus
      refine ⟨limit, x, env, env', token, rfl, rfl, ?_, hbegun.cleared hpasses, hrecent⟩
      rw [hsame]
      exact hstatus
  | resumed hconn hact h hsettled =>
      obtain ⟨rfl, r', hverdict, rfl⟩ := hsettled.sent hr
      obtain ⟨-, hbody'⟩ := render_logs hbody
      obtain ⟨limit, x, id, session, rfl, hlast, -, -⟩ := verdict_logs hverdict hbody'
      have hemits := System.step_emits h (List.mem_of_getLast? hlast)
      -- `get_logs` awaits nothing
      cases hact with
      | listed hcall => cases hcall
      | replied hcall => cases hcall
      | cancelled => cases hemits
  | outside h => simp at hr

/-- **The log over HTTP.** Every log that a run sends is a manager's answer
with status 200, and holds the newest events stored before the request
arrived, at most as many as it asked for, newest first and as they were
recorded. -/
theorem log_reads_back {as : List Action} {fw : Firewall} {old es : List SecurityEvent} {c : Nat}
    {r : Response} (h : app.machine.run { sys := { fw } } as = some (s, o))
    (ht : Trail fw.db old) (hr : .sent c r ∈ o) (hbody : r.body = .logs es) :
    r.status = 200 ∧ ∃ pre post limit x env env' token s₁ o₁,
      as = pre ++ .arrive (.getLogs limit x) env env' token :: post ∧
      app.machine.run { sys := { fw } } pre = some (s₁, o₁) ∧ s₁.conns.length = c ∧
      Cleared app.cfg env s₁.sys.fw (.getLogs limit x) ∧
      es = (old ++ stored o₁).reverse.take limit.val.toNat := by
  obtain ⟨pre, a, post, s₁, o₁, s₂, o₂, rfl, hpre, hstep, hr'⟩ :=
    app.machine.mem_run_output h hr
  obtain ⟨limit, x, env, env', token, rfl, rfl, hstatus, hcleared, hrecent⟩ :=
    (step_step hstep).logs hr' hbody
  refine ⟨hstatus, pre, post, limit, x, env, env', token, s₁, o₁, rfl, hpre, rfl, hcleared, ?_⟩
  have hlimit : (limit.val.toNat : Int) = limit.val :=
    Int.toNat_of_nonneg (by linarith [limit.ge_one])
  have hread := (run_trail hpre ht).recent limit.val.toNat
  rw [hlimit, hrecent] at hread
  exact Except.ok.inj hread

def isSession : Event → Bool
  | .session _ _ => true
  | _ => false

theorem eq_of_isSession {e : Event} (h : isSession e = true) :
    ∃ id session, e = .session id session := by
  cases e with
  | session id session => exact ⟨id, session, rfl⟩
  | _ => cases h

/-- The first call a request leads to, as the server of the run below stands. -/
def echoBegins (req : Request) (s : Server) : Option (System × List Event) :=
  req.begin echoConfig {} {} [] s.sys

/-- Ada reads her log last. -/
theorem log_reads_back_ada : ∃ (s : Server) (o : List Output) (r : Response)
    (es : List SecurityEvent),
    echoApp.machine.run { sys := { fw := .init echoConfig {} } } echoServed = some (s, o) ∧
      .sent 3 r ∈ o ∧ r.body = .logs es ∧ r.status = 200 ∧
      ∃ pre s₁ o₁ n,
        echoApp.machine.run { sys := { fw := .init echoConfig {} } } pre = some (s₁, o₁) ∧
          es = (stored o₁).reverse.take n := by
  have hrun : (echoApp.machine.run { sys := { fw := .init echoConfig {} } }
      (echoServed.take 7)).any (fun p => p.1.conns.length == 3 &&
        (echoBegins (.getLogs {} (some (str "tok"))) p.1).any fun q =>
          q.2.getLast?.any isSession) = true := by
    decide +kernel
  obtain ⟨⟨s₁, o₁⟩, hrun, hasks⟩ := (Option.any_eq_true _ _).mp hrun
  obtain ⟨hlen, hasks⟩ := Bool.and_eq_true_iff.mp hasks
  obtain ⟨⟨sys, events⟩, hbegin, hlast⟩ := (Option.any_eq_true _ _).mp hasks
  obtain ⟨e, hsession, his⟩ := (Option.any_eq_true _ _).mp hlast
  obtain ⟨id, session, rfl⟩ := eq_of_isSession his
  have hstep := (begin_begun hbegin).single rfl fun _ => rfl
  have hdb : sys.fw.db = s₁.sys.fw.db := by
    cases hstep
    exact (Firewall.requireManager_silent echoConfig {} s₁.sys.fw (str "tok")).2
  have hverdict : (Request.getLogs {} (some (str "tok"))).verdict echoConfig sys.fw [] events =
      .answers { body := .logs ((stored o₁).reverse.take 50) } :=
    logs_of_session hsession ((run_trail hrun (trail_nil rfl)).congr (by rw [hdb]))
  have hsettle : ∀ task, echoApp.settle s₁.conns.length task []
      (.getLogs {} (some (str "tok"))) sys.fw events =
        (.closed, events.map .gateway ++
          [.sent s₁.conns.length { body := .logs ((stored o₁).reverse.take 50) }]) := by
    intro task
    unfold App.settle
    rw [show echoApp.cfg = echoConfig from rfl, hverdict]
    rfl
  have hstep' : echoApp.machine.step s₁ (.arrive (.getLogs {} (some (str "tok"))) {} {} []) =
      some ({ sys, conns := s₁.conns ++ [.closed] }, events.map .gateway ++
        [.sent s₁.conns.length { body := .logs ((stored o₁).reverse.take 50) }]) := by
    have hbegin' : (Request.getLogs {} (some (str "tok"))).begin echoApp.cfg {} {} [] s₁.sys =
        some (sys, events) := hbegin
    simp only [App.machine, App.step, hbegin', hsettle]
  have hsplit : echoServed = echoServed.take 7 ++
      [.arrive (.getLogs {} (some (str "tok"))) {} {} []] := rfl
  have hall := (Machine.run_concat_eq_some _).mpr ⟨s₁, o₁, _, hrun, hstep', rfl⟩
  rw [← hsplit] at hall
  have hmem : .sent 3 { body := .logs ((stored o₁).reverse.take 50) } ∈
      o₁ ++ (events.map Output.gateway ++
        [.sent s₁.conns.length { body := .logs ((stored o₁).reverse.take 50) }]) := by
    simp [beq_iff_eq.mp hlen]
  obtain ⟨hstatus, pre, post, limit, x, env, env', token, s₂, o₂, -, hpre, -, -, hes⟩ :=
    log_reads_back hall (trail_nil rfl) hmem rfl
  exact ⟨_, _, _, _, hall, hmem, rfl, hstatus, pre, s₂, o₂, _, hpre, hes⟩

end Http

end AgenticFirewall
