import AgenticFirewall.Http

/-!
# The steps of the server

What one action does: which calls of the gateway it makes, what the handler
hears of them, and what becomes of the connection. The server runs the
gateway's entry points and nothing else (`refines_system`).
-/

namespace AgenticFirewall

open Py Transition

namespace Http

variable {app : App} {s s' : Server} {a : Action} {o : List Output} {req : Request}
  {events : List Event} {env env' : Env} {token : Str} {conn task : Nat}

/-- The gateway's part of an output. -/
def Output.event? : Output → Option Event
  | .gateway e => some e
  | .sent .. | .dropped _ => none

/-- The connection an output ends. -/
def Output.ends : Output → Option Nat
  | .gateway _ => none
  | .sent conn _ | .dropped conn => some conn

/-- An environment an action runs in. -/
def Action.RunsIn : Action → Env → Prop
  | .arrive _ env env' _, e => e = env ∨ e = env'
  | .listed _ envs _, e => ∃ i, e = envs i
  | .replied _ env _, e => e = env
  | .cancelled _, _ | .outside .., _ => False

/-! ## One step -/

/-- The gateway calls of a request that arrives. -/
inductive Begun (cfg : Config) (env env' : Env) (token : Str) (req : Request) (s : System) :
    System → List Event → Prop where
  | idle (hcall : req.call env token = none) : Begun cfg env env' token req s s []
  | once {act : Act} {s₁ : System} {events : List Event}
      (hcall : req.call env token = some act) (h : System.step cfg s act = some (s₁, events))
      (hnext : events.findSome? (req.next env') = none) :
      Begun cfg env env' token req s s₁ events
  | twice {act act' : Act} {s₁ s₂ : System} {events events' : List Event}
      (hcall : req.call env token = some act) (h : System.step cfg s act = some (s₁, events))
      (hnext : events.findSome? (req.next env') = some act')
      (h' : System.step cfg s₁ act' = some (s₂, events')) :
      Begun cfg env env' token req s s₂ (events ++ events')

theorem begin_begun {cfg : Config} {sys sys' : System}
    (h : req.begin cfg env env' token sys = some (sys', events)) :
    Begun cfg env env' token req sys sys' events := by
  unfold Request.begin at h
  split at h
  · rename_i hcall
    cases h
    exact .idle hcall
  · rename_i act hcall
    split at h
    · cases h
    · rename_i s₁ events₁ hstep
      split at h
      · rename_i hnext
        cases h
        exact .once hcall hstep hnext
      · rename_i act' hnext
        split at h
        · cases h
        · rename_i s₂ events₂ hstep'
          cases h
          exact .twice hcall hstep hnext hstep'

/-- The gateway call an action goes on with, for a connection that waits. -/
inductive Resumed : Action → Nat → Nat → Request → Act → Prop where
  | listed {conn task : Nat} {req : Request} {envs : Nat → Env} {reply : Firewall.ToolsReply}
      {act : Act} (h : req.listed task envs reply = some act) :
      Resumed (.listed conn envs reply) conn task req act
  | replied {conn task : Nat} {req : Request} {env : Env} {reply : Firewall.CallReply}
      {act : Act} (h : req.replied task env reply = some act) :
      Resumed (.replied conn env reply) conn task req act
  | cancelled {conn task : Nat} {req : Request} :
      Resumed (.cancelled conn) conn task req (.cancel task)

/-- What a verdict does to the connection. -/
inductive Settled (app : App) (conn task : Nat) (token : Str) (req : Request) (fw : Firewall)
    (events : List Event) : Conn × List Output → Prop where
  | awaits (h : req.verdict app.cfg fw token events = .awaits) :
      Settled app conn task token req fw events (.waiting task req, events.map .gateway)
  | answers {r : Response} (h : req.verdict app.cfg fw token events = .answers r) :
      Settled app conn task token req fw events
        (.closed, events.map .gateway ++ [.sent conn (app.render r)])
  | drops (h : req.verdict app.cfg fw token events = .drops) :
      Settled app conn task token req fw events
        (.closed, events.map .gateway ++ [.dropped conn])

theorem settle_settled (app : App) (conn task : Nat) (token : Str) (req : Request)
    (fw : Firewall) (events : List Event) :
    Settled app conn task token req fw events
      (app.settle conn task token req fw events) := by
  unfold App.settle
  split
  · rename_i h
    exact .awaits h
  · rename_i r h
    exact .answers h
  · rename_i h
    exact .drops h

/-- The steps of the server. -/
inductive Step (app : App) (s : Server) : Action → Server → List Output → Prop where
  | arrived {req : Request} {env env' : Env} {token : Str} {sys : System} {events : List Event}
      {conn : Conn} {out : List Output}
      (hbegun : Begun app.cfg env env' token req s.sys sys events)
      (hsettled : Settled app s.conns.length (sys.tasks.length - 1) token req sys.fw events
        (conn, out)) :
      Step app s (.arrive req env env' token) { sys, conns := s.conns ++ [conn] } out
  | resumed {a : Action} {c task : Nat} {req : Request} {act : Act} {sys : System}
      {events : List Event} {conn : Conn} {out : List Output}
      (hconn : s.conns[c]? = some (.waiting task req)) (hact : Resumed a c task req act)
      (h : System.step app.cfg s.sys act = some (sys, events))
      (hsettled : Settled app c task [] req sys.fw events (conn, out)) :
      Step app s a { sys, conns := s.conns.set c conn } out
  | outside {change : Act} {hout : change.opens = false ∧ change.target = none} {sys : System}
      {events : List Event} (h : System.step app.cfg s.sys change = some (sys, events)) :
      Step app s (.outside change hout) { s with sys } (events.map .gateway)

theorem resume_step {call : Nat → Request → Option Act}
    (hcall : ∀ task req act, call task req = some act → Resumed a conn task req act)
    (h : app.resume s conn call = some (s', o)) : Step app s a s' o := by
  unfold App.resume at h
  split at h
  · rename_i task req hconn
    split at h
    · cases h
    · rename_i act hact
      split at h
      · cases h
      · rename_i sys events hstep
        cases h
        exact .resumed hconn (hcall task req act hact) hstep (settle_settled _ _ _ _ _ _ _)
  · cases h

theorem step_step (h : app.step s a = some (s', o)) : Step app s a s' o := by
  cases a with
  | arrive req env env' token =>
      simp only [App.step] at h
      split at h
      · cases h
      · rename_i sys events hbegin
        cases h
        exact .arrived (begin_begun hbegin) (settle_settled _ _ _ _ _ _ _)
  | listed conn envs reply => exact resume_step (fun _ _ _ => .listed) h
  | replied conn env reply => exact resume_step (fun _ _ _ => .replied) h
  | cancelled conn =>
      refine @resume_step app s s' _ o conn (fun task _ => some (.cancel task)) ?_ h
      intro task req act hact
      cases hact
      exact .cancelled
  | outside change hout =>
      simp only [App.step] at h
      split at h
      · cases h
      · rename_i sys events hstep
        cases h
        exact .outside hstep

theorem Settled.sent {fw : Firewall} {conn' : Conn} {out : List Output} {c : Nat} {r : Response}
    (h : Settled app conn task token req fw events (conn', out)) (hr : .sent c r ∈ out) :
    c = conn ∧ ∃ r', req.verdict app.cfg fw token events = .answers r' ∧ r = app.render r' := by
  cases h with
  | awaits h => simp at hr
  | answers h =>
      rename_i r'
      obtain ⟨rfl, rfl⟩ : c = conn ∧ r = app.render r' := by simpa using hr
      exact ⟨rfl, _, h, rfl⟩
  | drops h => simp at hr

/-! ## The gateway underneath -/

theorem event?_map_gateway (events : List Event) :
    (events.map Output.gateway).filterMap Output.event? = events := by
  rw [List.filterMap_map]
  exact List.filterMap_some

/-- The gateway's events are among the outputs, and in order. -/
theorem Settled.gateway {fw : Firewall} {conn' : Conn} {out : List Output}
    (h : Settled app conn task token req fw events (conn', out)) :
    out.filterMap Output.event? = events := by
  cases h with
  | awaits h => exact event?_map_gateway events
  | answers h =>
      rw [List.filterMap_append, event?_map_gateway]
      exact List.append_nil events
  | drops h =>
      rw [List.filterMap_append, event?_map_gateway]
      exact List.append_nil events

theorem Begun.run {cfg : Config} {sys sys' : System}
    (h : Begun cfg env env' token req sys sys' events) :
    ∃ acts, (System.machine cfg).run sys acts = some (sys', events) := by
  cases h with
  | idle hcall => exact ⟨[], rfl⟩
  | once hcall h hnext => exact ⟨_, (System.machine cfg).run_one h⟩
  | twice hcall h hnext h' =>
      exact ⟨_, (System.machine cfg).run_append_eq_some.mpr
        ⟨_, _, _, (System.machine cfg).run_one h, (System.machine cfg).run_one h', rfl⟩⟩

/-- **The server runs the gateway**: each of its steps is a run of the
gateway's entry points. -/
theorem refines_system (app : App) :
    app.machine.Refines (System.machine app.cfg) Server.sys Output.event? := by
  intro s a s' o hstep
  cases step_step hstep with
  | arrived hbegun hsettled =>
      rw [hsettled.gateway]
      exact hbegun.run
  | resumed hconn hact h hsettled =>
      rw [hsettled.gateway]
      exact ⟨_, (System.machine app.cfg).run_one h⟩
  | outside h =>
      rw [event?_map_gateway]
      exact ⟨_, (System.machine app.cfg).run_one h⟩

/-! ## What a handler hears -/

/-- The kinds of events the gateway calls of a request can emit. -/
def Request.hears : Request → Event → Bool
  | _, .cancelled _ => true
  | .createSession .., .audit .. | .createSession .., .session .. => true
  | .createSession .., .raised .. => true
  | .listTools _, .audit .. | .listTools _, .listed .. | .listTools _, .raised .. => true
  | .approveTools .., .audit .. | .approveTools .., .session .. => true
  | .approveTools .., .approved .. | .approveTools .., .raised .. => true
  | .toolRequest .., .audit .. | .toolRequest .., .issued .. => true
  | .toolRequest .., .returned .. => true
  | .getPolicies _, .audit .. | .getPolicies _, .session .. | .getPolicies _, .raised .. => true
  | .getLogs .., .audit .. | .getLogs .., .session .. | .getLogs .., .raised .. => true
  | _, _ => false

section Hears

variable {act : Act} {e : Event} {envs : Nat → Env}

theorem call_hears (h : req.call env token = some act) (he : act.emits e = true) :
    req.hears e = true := by
  cases req <;> cases h <;> cases e <;> first | rfl | cases he

theorem next_hears (h : req.next env e = some act) {e' : Event} (he : act.emits e' = true) :
    req.hears e' = true := by
  cases req with
  | approveTools body x =>
      cases e with
      | session id session =>
          cases h
          cases e' <;> first | rfl | cases he
      | _ => cases h
  | _ => cases h

theorem Resumed.hears (h : Resumed a conn task req act) (he : act.emits e = true) :
    req.hears e = true := by
  cases h with
  | listed h => cases req <;> cases h <;> cases e <;> first | rfl | cases he
  | replied h =>
      cases req <;> cases h
      cases e <;> first | rfl | cases he
  | cancelled => cases e <;> first | rfl | cases he

theorem Begun.hears {cfg : Config} {sys sys' : System}
    (h : Begun cfg env env' token req sys sys' events) : ∀ e ∈ events, req.hears e = true := by
  intro e he
  cases h with
  | idle hcall => cases he
  | once hcall h hnext => exact call_hears hcall (System.step_emits h he)
  | twice hcall h hnext h' =>
      rcases List.mem_append.mp he with he | he
      · exact call_hears hcall (System.step_emits h he)
      · obtain ⟨e₀, -, hnext⟩ := List.exists_of_findSome?_eq_some hnext
        exact next_hears hnext (System.step_emits h' he)

end Hears

end Http

end AgenticFirewall
