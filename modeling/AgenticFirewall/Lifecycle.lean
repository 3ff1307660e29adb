import AgenticFirewall.Firewall.Writes
import AgenticFirewall.System

/-!
# The life of one call

A step belongs to at most one call, and touches no other. A call is opened
once, emits nothing before its last segment but the upstream call it
issues, and nothing at all once it is left.
-/

namespace AgenticFirewall

open Py Transition

/-- The action starts a call. -/
def Act.opens : Act → Bool
  | .handle .. | .approve .. | .list .. | .requireManager .. | .login .. => true
  | _ => false

/-- The running call the action continues or ends. -/
def Act.target : Act → Option Nat
  | .handleTools id .. | .handleReply id .. | .approveTools id .. | .listTools id .. => some id
  | .cancel id => some id
  | _ => none

/-- The event is an upstream call. -/
def Event.isIssued : Event → Bool
  | .issued .. => true
  | _ => false

/-- The event is an audit write, successful or not. -/
def Event.isAudit : Event → Bool
  | .audit .. => true
  | _ => false

namespace System

variable {cfg : Config} {s s' : System} {a : Act} {o : List Event} {id r : Nat} {env : Env}
  {req : ToolRequest} {ctx : Ctx}

/-! ## One step -/

/-- The call a step belongs to. -/
def callOf (s : System) (a : Act) : Option Nat :=
  if a.opens then some s.tasks.length else a.target

/-- A call that goes on after its first segment, with what was checked in
that segment. -/
inductive Started (cfg : Config) (fw : Firewall) : Act → Task → Prop where
  | handle {env : Env} {req : ToolRequest} {session : UserSession}
      (h : Firewall.Admitted cfg env req fw session) :
      Started cfg fw (.handle env req) (.handleTools req (Firewall.ranked cfg req session))
  | approve {env : Env} {approver : UserSession} {names : Option (List Str)}
      (h : Authorizer.canManage cfg.policy.roles approver.role = true) :
      Started cfg fw (.approve env approver names) (.approveTools approver names)
  | list {env : Env} {sessionId : Str} {session : UserSession}
      (h : Authenticator.Live cfg.sha256 (env.time .validate) sessionId fw.db session) :
      Started cfg fw (.list env sessionId)
        (.listTools session (Authorizer.canManage cfg.policy.roles session.role))

/-- The pipeline of request `id` ends with `x` in this step. -/
inductive PipelineEnd (cfg : Config) (s : System) :
    Act → Nat → Env → ToolRequest → Ctx → Except Exc GatewayResult → Firewall → Prop where
  | start {env : Env} {req : ToolRequest} {r : Except Exc (Option GatewayResult)} {ctx : Ctx}
      {x : Except Exc GatewayResult} {fw : Firewall}
      (h : s.fw.pipelineStart cfg env req = (r, ctx, fw)) (hx : ended r = some x) :
      PipelineEnd cfg s (.handle env req) s.tasks.length env req ctx x fw
  | tools {id : Nat} {env : Env} {reply : Firewall.ToolsReply} {req : ToolRequest} {ctx : Ctx}
      {r : Except Exc (Option GatewayResult)} {x : Except Exc GatewayResult} {fw : Firewall}
      (hrun : s.tasks[id]? = some (.handleTools req ctx))
      (h : s.fw.pipelineTools cfg env req ctx reply = (r, fw)) (hx : ended r = some x) :
      PipelineEnd cfg s (.handleTools id env reply) id env req ctx x fw
  | reply {id : Nat} {env : Env} {reply : Firewall.CallReply} {req : ToolRequest} {ctx : Ctx}
      {r : Except Exc (Option GatewayResult)} {x : Except Exc GatewayResult} {fw : Firewall}
      (hrun : s.tasks[id]? = some (.handleCall req ctx))
      (h : s.fw.pipelineReply cfg env req ctx reply = (r, fw)) (hx : ended r = some x) :
      PipelineEnd cfg s (.handleReply id env reply) id env req ctx x fw

theorem PipelineEnd.db {x : Except Exc GatewayResult} {fw : Firewall}
    (h : PipelineEnd cfg s a id env req ctx x fw) : fw.db = s.fw.db := by
  cases h with
  | start h hx =>
      have hdb := Firewall.pipelineStart_db cfg env req s.fw
      rwa [h] at hdb
  | tools hrun h hx =>
      rename_i reply r
      have hdb := Firewall.pipelineTools_db cfg env req s.fw ctx reply
      rwa [h] at hdb
  | reply hrun h hx =>
      rename_i reply r
      have hdb := Firewall.pipelineReply_db cfg env req s.fw ctx reply
      rwa [h] at hdb

/-- The ways a call ends: the components after it and its last events. -/
inductive Ending (cfg : Config) (s : System) : Act → Nat → Firewall → List Event → Prop where
  | answered {a : Act} {id : Nat} {env : Env} {req : ToolRequest} {ctx : Ctx}
      {x : Except Exc GatewayResult} {fw : Firewall}
      (h : PipelineEnd cfg s a id env req ctx x fw) :
      Ending cfg s a id (leave id env req ctx x fw).1 (leave id env req ctx x fw).2
  | callCancelled {id : Nat} {env : Env} {req : ToolRequest} {ctx : Ctx}
      (hrun : s.tasks[id]? = some (.handleCall req ctx)) (hf : env.fault .recordOutcome = none) :
      Ending cfg s (.handleReply id env .cancelled) id (s.fw.failed env req) [.cancelled id]
  | cancelled {id : Nat} : Ending cfg s (.cancel id) id s.fw [.cancelled id]
  | notApproving {env : Env} {approver : UserSession} {names : Option (List Str)} {e : Exc}
      (h : Firewall.approveStart cfg env approver = .error e) :
      Ending cfg s (.approve env approver names) s.tasks.length s.fw [.raised s.tasks.length e]
  | approved {id : Nat} {envs : Nat → Env} {reply : Firewall.ToolsReply} {approver : UserSession}
      {names : Option (List Str)} (hrun : s.tasks[id]? = some (.approveTools approver names)) :
      Ending cfg s (.approveTools id envs reply) id
        (s.fw.approveTools cfg envs approver names reply).fw
        (close id (.approved id) (s.fw.approveTools cfg envs approver names reply))
  | notListing {env : Env} {sessionId : Str} {e : Exc}
      (h : (s.fw.listStart cfg env sessionId).result = .error e) :
      Ending cfg s (.list env sessionId) s.tasks.length (s.fw.listStart cfg env sessionId).fw
        [.raised s.tasks.length e]
  | listed {id : Nat} {envs : Nat → Env} {reply : Firewall.ToolsReply} {session : UserSession}
      {manager : Bool} (hrun : s.tasks[id]? = some (.listTools session manager)) :
      Ending cfg s (.listTools id envs reply) id s.fw
        (close id (.listed id)
          { result := s.fw.listTools cfg envs session manager reply, fw := s.fw })
  | manager {env : Env} {sessionId : Str} :
      Ending cfg s (.requireManager env sessionId) s.tasks.length
        (s.fw.requireManager cfg env sessionId).fw
        (close s.tasks.length (.session s.tasks.length)
          (s.fw.requireManager cfg env sessionId))
  | login {env : Env} {token userId apiKey clientKey : Str} :
      Ending cfg s (.login env token userId apiKey clientKey) s.tasks.length
        (s.fw.login cfg env token userId apiKey clientKey).fw
        (close s.tasks.length (fun p => .session s.tasks.length p.2)
          (s.fw.login cfg env token userId apiKey clientKey))

/-- What one step does to the tasks, and with which components and events. -/
inductive Shape (cfg : Config) (s : System) (a : Act) (s' : System) (o : List Event) : Prop where
  | opened (t : Task) (ha : a.opens = true) (ht : s'.tasks = s.tasks ++ [t])
      (hnew : t = .left ∧ Ending cfg s a s.tasks.length s'.fw o ∨
        Started cfg s.fw a t ∧ s'.fw.db = s.fw.db ∧ o = [])
  | moved (id : Nat) (t t' : Task) (ha : a.opens = false) (hid : a.target = some id)
      (hrun : s.tasks[id]? = some t) (hleft : t ≠ .left) (ht : s'.tasks = s.tasks.set id t')
      (hnew : t' = .left ∧ Ending cfg s a id s'.fw o ∨ ∃ env tools req ctx,
        a = .handleTools id env (.listing tools) ∧ Firewall.Forwarded cfg env req s.fw tools ∧
          t = .handleTools req ctx ∧ t' = .handleCall req ctx ∧ s'.fw.db = s.fw.db ∧
          o = [.issued id req.tool req.arguments])
  | outside (ha : a.opens = false) (hid : a.target = none) (ht : s'.tasks = s.tasks)
      (hdb : SameRecords s.fw.db s'.fw.db) (ho : o = [])

theorem ended_eq_none {r : Except Exc (Option GatewayResult)} (h : ended r = none) :
    r = .ok none := by
  cases r with
  | error e => cases h
  | ok result =>
      cases result with
      | none => rfl
      | some result => cases h

theorem ended_eq_some {y : Except Exc (Option GatewayResult)} {x : Except Exc GatewayResult}
    (h : ended y = some x) {result : GatewayResult} (hx : x = .ok result) :
    y = .ok (some result) := by
  subst hx
  cases y with
  | error e => cases h
  | ok v =>
      cases v with
      | none => cases h
      | some w =>
          cases h
          rfl

/-! The segments of `handle`: each goes on with what it has checked, or
ends the request. -/

theorem handle_shape (h : step cfg s (.handle env req) = some (s', o)) :
    Shape cfg s (.handle env req) s' o := by
  simp only [step] at h
  split at h
  · rename_i hended
    cases h
    obtain ⟨session, hadm, hctx⟩ :=
      Firewall.admitted_of_start cfg env req s.fw (Prod.ext (ended_eq_none hended) rfl)
    exact .opened _ rfl rfl
      (.inr ⟨hctx ▸ .handle hadm, Firewall.pipelineStart_db cfg env req s.fw, rfl⟩)
  · rename_i x hended
    cases h
    exact .opened _ rfl rfl (.inl ⟨rfl, .answered (.start rfl hended)⟩)

theorem handleTools_shape {reply : Firewall.ToolsReply}
    (h : step cfg s (.handleTools id env reply) = some (s', o)) :
    Shape cfg s (.handleTools id env reply) s' o := by
  simp only [step] at h
  split at h
  · rename_i req ctx hrun
    split at h
    · rename_i hended
      cases h
      obtain ⟨tools, rfl, hfwd⟩ := Firewall.forwarded_of_tools cfg env req s.fw
        (Prod.ext (ended_eq_none hended) rfl)
      exact .moved id _ _ rfl rfl hrun nofun rfl (.inr ⟨env, tools, req, ctx, rfl, hfwd, rfl,
        rfl, Firewall.pipelineTools_db cfg env req s.fw ctx _, rfl⟩)
    · rename_i x hended
      cases h
      exact .moved id _ _ rfl rfl hrun nofun rfl (.inl ⟨rfl, .answered (.tools hrun rfl hended)⟩)
  · cases h

theorem handleReply_shape {reply : Firewall.CallReply}
    (h : step cfg s (.handleReply id env reply) = some (s', o)) :
    Shape cfg s (.handleReply id env reply) s' o := by
  simp only [step] at h
  split at h
  · rename_i req ctx hrun
    split at h
    · rename_i hended
      cases h
      obtain ⟨rfl, hf, hfw⟩ := Firewall.cancelled_of_reply cfg env req s.fw
        (Prod.ext (ended_eq_none hended) rfl)
      have hfailed : (s.fw.pipelineReply cfg env req ctx .cancelled).2 =
        s.fw.failed env req := hfw
      have hend : Ending cfg s (.handleReply id env .cancelled) id
          (s.fw.pipelineReply cfg env req ctx .cancelled).2 [.cancelled id] :=
        hfailed ▸ .callCancelled hrun hf
      exact .moved id _ _ rfl rfl hrun nofun rfl (.inl ⟨rfl, hend⟩)
    · rename_i x hended
      cases h
      exact .moved id _ _ rfl rfl hrun nofun rfl (.inl ⟨rfl, .answered (.reply hrun rfl hended)⟩)
  · cases h

theorem cancel_shape (h : step cfg s (.cancel id) = some (s', o)) :
    Shape cfg s (.cancel id) s' o := by
  have hleave : ∀ {t : Task}, s.tasks[id]? = some t → t ≠ .left →
      Shape cfg s (.cancel id) { s with tasks := s.tasks.set id .left } [.cancelled id] :=
    fun hrun hleft => .moved id _ _ rfl rfl hrun hleft rfl (.inl ⟨rfl, .cancelled⟩)
  simp only [step] at h
  split at h
  · rename_i hrun
    cases h
    exact hleave hrun nofun
  · rename_i hrun
    cases h
    exact hleave hrun nofun
  · rename_i hrun
    cases h
    exact hleave hrun nofun
  · cases h

/-- What any step does to the calls. -/
theorem step_shape (h : step cfg s a = some (s', o)) : Shape cfg s a s' o := by
  cases a with
  | handle env req => exact handle_shape h
  | handleTools id env reply => exact handleTools_shape h
  | handleReply id env reply => exact handleReply_shape h
  | approve env approver names =>
      simp only [step] at h
      split at h
      · rename_i e herr
        cases h
        exact .opened _ rfl rfl (.inl ⟨rfl, .notApproving herr⟩)
      · rename_i hok
        cases h
        exact .opened _ rfl rfl
          (.inr ⟨.approve (Firewall.approveStart_ok cfg env hok), rfl, rfl⟩)
  | approveTools id envs reply =>
      simp only [step] at h
      split at h
      · rename_i approver names hrun
        cases h
        exact .moved id _ _ rfl rfl hrun nofun rfl (.inl ⟨rfl, .approved hrun⟩)
      · cases h
  | list env sessionId =>
      simp only [step] at h
      split at h
      · rename_i e herr
        cases h
        exact .opened _ rfl rfl (.inl ⟨rfl, .notListing herr⟩)
      · rename_i session manager hok
        cases h
        obtain ⟨hlive, rfl⟩ := Firewall.listStart_ok cfg env s.fw hok
        exact .opened _ rfl rfl
          (.inr ⟨.list hlive, Firewall.listStart_db cfg env s.fw sessionId, rfl⟩)
  | listTools id envs reply =>
      simp only [step] at h
      split at h
      · rename_i session manager hrun
        cases h
        exact .moved id _ _ rfl rfl hrun nofun rfl (.inl ⟨rfl, .listed hrun⟩)
      · cases h
  | cancel id => exact cancel_shape h
  | requireManager env sessionId =>
      cases h
      exact .opened _ rfl rfl (.inl ⟨rfl, .manager⟩)
  | login env token userId apiKey clientKey =>
      cases h
      exact .opened _ rfl rfl (.inl ⟨rfl, .login⟩)
  | revoke sessionId =>
      simp only [step] at h
      split at h
      · rename_i found db hok
        cases h
        exact .outside rfl rfl rfl (sameRecords_revokeSession hok) rfl
      · cases h
        exact .outside rfl rfl rfl (.of_eq rfl) rfl
  | registerUser userId role apiKey =>
      simp only [step] at h
      split at h
      · rename_i db hok
        cases h
        exact .outside rfl rfl rfl (Authenticator.sameRecords_registerUser _ hok) rfl
      · cases h
        exact .outside rfl rfl rfl (.of_eq rfl) rfl
  | setRole userId role =>
      cases h
      exact .outside rfl rfl rfl (sameRecords_setRole userId role) rfl

/-! ## The events of one step -/

theorem mem_close {α : Type} {returned : α → Event} {out : Outcome α} {e : Event}
    (he : e ∈ close id returned out) :
    (∃ stored ∈ out.audits, e = .audit id stored) ∨
      (∃ x, out.result = .ok x ∧ e = returned x) ∨
      ∃ err, out.result = .error err ∧ e = .raised id err := by
  unfold close at he
  rcases List.mem_append.mp he with he | he
  · obtain ⟨stored, hstored, rfl⟩ := List.mem_map.mp he
    exact .inl ⟨stored, hstored, rfl⟩
  · split at he
    · rename_i x hx
      exact .inr (.inl ⟨x, hx, List.mem_singleton.mp he⟩)
    · rename_i err herr
      exact .inr (.inr ⟨err, herr, List.mem_singleton.mp he⟩)

/-- Where an exception that ends a call comes from. -/
inductive RaisedBy (cfg : Config) (s : System) : Act → Exc → Prop where
  | approveStart {env : Env} {approver : UserSession} {names : Option (List Str)} {e : Exc}
      (h : Firewall.approveStart cfg env approver = .error e) :
      RaisedBy cfg s (.approve env approver names) e
  | approveTools {id : Nat} {envs : Nat → Env} {reply : Firewall.ToolsReply}
      {approver : UserSession} {names : Option (List Str)} {e : Exc}
      (h : (s.fw.approveTools cfg envs approver names reply).result = .error e) :
      RaisedBy cfg s (.approveTools id envs reply) e
  | listStart {env : Env} {sessionId : Str} {e : Exc}
      (h : (s.fw.listStart cfg env sessionId).result = .error e) :
      RaisedBy cfg s (.list env sessionId) e
  | listTools {id : Nat} {envs : Nat → Env} {reply : Firewall.ToolsReply} {session : UserSession}
      {manager : Bool} {e : Exc}
      (h : s.fw.listTools cfg envs session manager reply = .error e) :
      RaisedBy cfg s (.listTools id envs reply) e
  | requireManager {env : Env} {sessionId : Str} {e : Exc}
      (h : (s.fw.requireManager cfg env sessionId).result = .error e) :
      RaisedBy cfg s (.requireManager env sessionId) e
  | login {env : Env} {token userId apiKey clientKey : Str} {e : Exc}
      (h : (s.fw.login cfg env token userId apiKey clientKey).result = .error e) :
      RaisedBy cfg s (.login env token userId apiKey clientKey) e

/-- What a call can say in its last step, and why. -/
inductive Said (cfg : Config) (s : System) (a : Act) (id : Nat) (o : List Event) :
    Event → Prop where
  | audit {stored : Option SecurityEvent} : Said cfg s a id o (.audit id stored)
  | cancelled : Said cfg s a id o (.cancelled id)
  | approved {outcomes : List ApprovalOutcome} : Said cfg s a id o (.approved id outcomes)
  | session {session : UserSession} : Said cfg s a id o (.session id session)
  | returned {env : Env} {req : ToolRequest} {ctx : Ctx} {x : Except Exc GatewayResult}
      {fw : Firewall} (h : PipelineEnd cfg s a id env req ctx x fw)
      (ho : o = (leave id env req ctx x fw).2) :
      Said cfg s a id o (.returned id (Firewall.handleResult env req ctx x))
  | listed {envs : Nat → Env} {reply : Firewall.ToolsReply} {session : UserSession}
      {manager : Bool} {infos : List ToolInfo} (ha : a = .listTools id envs reply)
      (hrun : s.tasks[id]? = some (.listTools session manager))
      (h : s.fw.listTools cfg envs session manager reply = .ok infos) :
      Said cfg s a id o (.listed id infos)
  | raised {e : Exc} (h : RaisedBy cfg s a e) : Said cfg s a id o (.raised id e)

theorem Ending.said {fw : Firewall} (h : Ending cfg s a id fw o) {e : Event} (he : e ∈ o) :
    Said cfg s a id o e := by
  cases h with
  | answered h =>
      simp only [leave, List.mem_cons, List.not_mem_nil, or_false] at he
      rcases he with rfl | rfl
      · exact .audit
      · exact .returned h rfl
  | callCancelled hrun hf =>
      rw [List.mem_singleton.mp he]
      exact .cancelled
  | cancelled =>
      rw [List.mem_singleton.mp he]
      exact .cancelled
  | notApproving h =>
      rw [List.mem_singleton.mp he]
      exact .raised (.approveStart h)
  | approved hrun =>
      rcases mem_close he with ⟨_, -, rfl⟩ | ⟨_, -, rfl⟩ | ⟨_, herr, rfl⟩
      · exact .audit
      · exact .approved
      · exact .raised (.approveTools herr)
  | notListing h =>
      rw [List.mem_singleton.mp he]
      exact .raised (.listStart h)
  | listed hrun =>
      rcases mem_close he with ⟨_, -, rfl⟩ | ⟨_, hok, rfl⟩ | ⟨_, herr, rfl⟩
      · exact .audit
      · exact .listed rfl hrun hok
      · exact .raised (.listTools herr)
  | manager =>
      rcases mem_close he with ⟨_, -, rfl⟩ | ⟨_, -, rfl⟩ | ⟨_, herr, rfl⟩
      · exact .audit
      · exact .session
      · exact .raised (.requireManager herr)
  | login =>
      rcases mem_close he with ⟨_, -, rfl⟩ | ⟨_, -, rfl⟩ | ⟨_, herr, rfl⟩
      · exact .audit
      · exact .session
      · exact .raised (.login herr)

/-- The last events of a call are its own, and none is an upstream call. -/
theorem Ending.events {fw : Firewall} (h : Ending cfg s a id fw o) :
    ∀ e ∈ o, e.id = id ∧ e.isIssued = false := by
  intro e he
  cases h.said he <;> exact ⟨rfl, rfl⟩

/-- The step that ends a call belongs to it. -/
theorem Ending.callOf {fw : Firewall} (h : Ending cfg s a id fw o) :
    System.callOf s a = some id := by
  cases h with
  | answered h => cases h <;> rfl
  | _ => rfl

/-- All events of a step are those of one call. -/
theorem Shape.id_eq (h : Shape cfg s a s' o) : ∀ e ∈ o, some e.id = callOf s a := by
  intro e he
  cases h with
  | opened t ha ht hnew =>
      rcases hnew with ⟨-, hend⟩ | ⟨-, -, rfl⟩
      · rw [(hend.events e he).1, hend.callOf]
      · cases he
  | moved id t t' ha hid hrun hleft ht hnew =>
      rcases hnew with ⟨-, hend⟩ | ⟨env, tools, req, ctx, -, -, -, -, -, rfl⟩
      · rw [(hend.events e he).1, hend.callOf]
      · simp [callOf, ha, hid, List.mem_singleton.mp he, Event.id]
  | outside ha hid ht hdb ho => simp [ho] at he

/-- A step touches no other call than its own. -/
theorem step_frame (h : step cfg s a = some (s', o)) (hr : callOf s a ≠ some r) :
    s'.tasks[r]? = s.tasks[r]? ∧ ∀ e ∈ o, e.id ≠ r := by
  have hshape := step_shape h
  refine ⟨?_, fun e he heq => hr (heq ▸ (hshape.id_eq e he).symm)⟩
  cases hshape with
  | opened t ha ht hnew =>
      have hne : s.tasks.length ≠ r := by simpa [callOf, ha] using hr
      rw [ht, List.getElem?_append]
      split
      · rfl
      · rename_i hge
        have hnone : s.tasks[r]? = none := List.getElem?_eq_none (by omega)
        have hbeyond : [t].length ≤ r - s.tasks.length := by
          rw [List.length_singleton]
          omega
        rw [hnone, List.getElem?_eq_none hbeyond]
  | moved id t t' ha hid hrun hleft ht hnew =>
      have hne : id ≠ r := by simpa [callOf, ha, hid] using hr
      rw [ht, List.getElem?_set_ne hne]
  | outside ha hid ht hdb ho => rw [ht]

/-- No step belongs to a call that is left. -/
theorem callOf_ne_of_left (h : step cfg s a = some (s', o)) (hr : s.tasks[r]? = some .left) :
    callOf s a ≠ some r := by
  cases step_shape h with
  | opened t ha ht hnew =>
      have hlt := (List.getElem?_eq_some_iff.mp hr).1
      simp only [callOf, ha, if_true, ne_eq, Option.some.injEq]
      omega
  | moved id t t' ha hid hrun hleft ht hnew =>
      simp only [callOf, ha, Bool.false_eq_true, if_false, hid, ne_eq, Option.some.injEq]
      rintro rfl
      exact hleft (Option.some.inj (hrun.symm.trans hr))
  | outside ha hid ht hdb ho => simp [callOf, ha, hid]

/-- A call that is left stays left and is silent. -/
theorem step_left (h : step cfg s a = some (s', o)) (hr : s.tasks[r]? = some .left) :
    s'.tasks[r]? = some .left ∧ ∀ e ∈ o, e.id ≠ r := by
  obtain ⟨hsame, hsilent⟩ := step_frame h (callOf_ne_of_left h hr)
  exact ⟨hsame.trans hr, hsilent⟩

/-- A step that emits anything but an upstream call ends its call. -/
theorem step_ending (h : step cfg s a = some (s', o)) {e : Event} (he : e ∈ o)
    (hi : e.isIssued = false) :
    Ending cfg s a e.id s'.fw o ∧ callOf s a = some e.id ∧ s'.tasks[e.id]? = some .left := by
  cases step_shape h with
  | opened t ha ht hnew =>
      rcases hnew with ⟨rfl, hend⟩ | ⟨-, -, rfl⟩
      · rw [(hend.events e he).1]
        exact ⟨hend, hend.callOf, by rw [ht, List.getElem?_concat_length]⟩
      · cases he
  | moved id t t' ha hid hrun hleft ht hnew =>
      rcases hnew with ⟨rfl, hend⟩ | ⟨env, tools, req, ctx, -, -, -, -, -, rfl⟩
      · rw [(hend.events e he).1]
        have hlt := (List.getElem?_eq_some_iff.mp hrun).1
        exact ⟨hend, hend.callOf, by rw [ht, List.getElem?_set_self hlt]⟩
      · cases List.mem_singleton.mp he
        cases hi
  | outside ha hid ht hdb ho =>
      rw [ho] at he
      cases he

/-- Calls are only ever added, one by each step that opens one. -/
theorem step_length (h : step cfg s a = some (s', o)) :
    s'.tasks.length = s.tasks.length + if a.opens then 1 else 0 := by
  cases step_shape h with
  | opened t ha ht hnew => simp [ht, ha]
  | moved id t t' ha hid hrun hleft ht hnew => simp [ht, ha]
  | outside ha hid ht hdb ho => simp [ht, ha]

/-- Only a reply takes a request from its upstream call. -/
theorem step_handleCall (h : step cfg s a = some (s', o))
    (hid : a.target = some id) (hrun : s.tasks[id]? = some (.handleCall req ctx)) :
    ∃ env reply, a = .handleReply id env reply := by
  cases a with
  | handleReply id' env reply =>
      cases hid
      exact ⟨env, reply, rfl⟩
  | handleTools id' env reply =>
      cases hid
      simp [step, hrun] at h
  | approveTools id' envs reply =>
      cases hid
      simp [step, hrun] at h
  | listTools id' envs reply =>
      cases hid
      simp [step, hrun] at h
  | cancel id' =>
      cases hid
      simp [step, hrun] at h
  | _ => cases hid

/-! ## A run -/

/-- The events of one call. -/
def eventsOf (r : Nat) (o : List Event) : List Event := o.filter fun e => e.id = r

@[simp] theorem eventsOf_append (r : Nat) (o o' : List Event) :
    eventsOf r (o ++ o') = eventsOf r o ++ eventsOf r o' := by
  simp [eventsOf]

theorem eventsOf_other (h : ∀ e ∈ o, e.id ≠ r) : eventsOf r o = [] := by
  simpa [eventsOf] using h

theorem eventsOf_own (h : ∀ e ∈ o, e.id = r) : eventsOf r o = o := by
  simpa [eventsOf] using h

theorem run_left {as : List Act} (h : (machine cfg).run s as = some (s', o))
    (hr : s.tasks[r]? = some .left) : s'.tasks[r]? = some .left ∧ eventsOf r o = [] := by
  refine (machine cfg).run_history
    (motive := fun _ s' o => s'.tasks[r]? = some .left ∧ eventsOf r o = []) ⟨hr, rfl⟩ ?_ h
  intro _ s₁ o₁ a s₂ o₂ _ hsilence hstep
  obtain ⟨hleft, hnone⟩ := hsilence
  obtain ⟨hleft', hsilent⟩ := step_left hstep hleft
  exact ⟨hleft', by rw [eventsOf_append, hnone, eventsOf_other hsilent, List.nil_append]⟩

theorem run_length {as : List Act} (h : (machine cfg).run s as = some (s', o)) :
    s.tasks.length ≤ s'.tasks.length := by
  refine (machine cfg).run_history
    (motive := fun _ s' _ => s.tasks.length ≤ s'.tasks.length) (Nat.le_refl _) ?_ h
  intro _ s₁ o₁ a s₂ o₂ _ hle hstep
  have hlen := step_length hstep
  omega

/-- What a call has emitted while it runs. -/
def emitted (r : Nat) : Option Task → List Event
  | some (.handleCall req _) => [.issued r req.tool req.arguments]
  | _ => []

section History

variable {fw : Firewall} {as : List Act}

/-- A call that runs has emitted the upstream call it awaits, and nothing
else. -/
theorem run_emitted (h : (machine cfg).run { fw } as = some (s, o))
    (hr : s.tasks[r]? ≠ some .left) : eventsOf r o = emitted r s.tasks[r]? := by
  revert hr
  refine (machine cfg).run_history
    (motive := fun _ s o => s.tasks[r]? ≠ some .left → eventsOf r o = emitted r s.tasks[r]?)
    (fun _ => rfl) ?_ h
  intro _ s₁ o₁ a s₂ o₂ _ ih hstep hrun₂
  by_cases hcall : callOf s₁ a = some r
  · cases step_shape hstep with
    | opened t ha ht hnew =>
        obtain rfl : s₁.tasks.length = r := by simpa [callOf, ha] using hcall
        have hnone : s₁.tasks[s₁.tasks.length]? = none := List.getElem?_eq_none (Nat.le_refl _)
        have ht' : s₂.tasks[s₁.tasks.length]? = some t := by rw [ht, List.getElem?_concat_length]
        rcases hnew with ⟨rfl, -⟩ | ⟨hstart, -, rfl⟩
        · exact absurd ht' hrun₂
        · rw [eventsOf_append, ih (by simp), hnone, ht']
          cases hstart <;> rfl
    | moved id t t' ha hid hrun hleft ht hnew =>
        obtain rfl : id = r := by simpa [callOf, ha, hid] using hcall
        have hlt := (List.getElem?_eq_some_iff.mp hrun).1
        have ht' : s₂.tasks[id]? = some t' := by rw [ht, List.getElem?_set_self hlt]
        rcases hnew with ⟨rfl, -⟩ | ⟨env, tools, req, ctx, -, -, rfl, rfl, -, rfl⟩
        · exact absurd ht' hrun₂
        · rw [eventsOf_append, ih (by simp [hrun]), hrun, ht']
          simp [eventsOf, emitted, Event.id]
    | outside ha hid ht hdb ho => simp [callOf, ha, hid] at hcall
  · obtain ⟨hsame, hsilent⟩ := step_frame hstep hcall
    rw [hsame] at hrun₂ ⊢
    rw [eventsOf_append, ih hrun₂, eventsOf_other hsilent, List.append_nil]

/-- A request that awaits the reply to its upstream call has issued it. -/
theorem run_issued (h : (machine cfg).run { fw } as = some (s, o))
    (hr : s.tasks[r]? = some (.handleCall req ctx)) :
    .issued r req.tool req.arguments ∈ o := by
  have hevents := run_emitted (r := r) h (by simp [hr])
  have hmem : .issued r req.tool req.arguments ∈ eventsOf r o := by
    rw [hevents, hr]
    exact List.mem_singleton_self _
  exact (List.mem_filter.mp hmem).1

/-- After `pre`, the run takes action `a` in state `s`. -/
def At (cfg : Config) (fw : Firewall) (as pre : List Act) (s : System) (a : Act) : Prop :=
  ∃ post o, as = pre ++ a :: post ∧ (machine cfg).run { fw } pre = some (s, o)

theorem At.extend {pre : List Act} (h : At cfg fw as pre s a) (more : List Act) :
    At cfg fw (as ++ more) pre s a := by
  obtain ⟨post, o, rfl, hrun⟩ := h
  exact ⟨post ++ more, o, by simp, hrun⟩

/-- A position in a longer run is its last one or one of the run before. -/
theorem At.concat {pre : List Act} {b : Act} (h : At cfg fw (as ++ [b]) pre s a) :
    (pre = as ∧ a = b) ∨ At cfg fw as pre s a := by
  obtain ⟨post, o, heq, hrun⟩ := h
  rcases split_concat heq with ⟨rfl, rfl, -⟩ | ⟨post', -, rfl⟩
  · exact .inl ⟨rfl, rfl⟩
  · exact .inr ⟨post', o, rfl, hrun⟩

theorem At.mem {pre : List Act} (h : At cfg fw as pre s a) : a ∈ as := by
  obtain ⟨post, o, rfl, -⟩ := h
  simp

/-- The step the run takes there, and what it emits in all. -/
theorem At.step {pre : List Act} {s₁ : System} (h : (machine cfg).run { fw } as = some (s, o))
    (hat : At cfg fw as pre s₁ a) :
    ∃ o₁ s₂ o₂ post o₃, (machine cfg).run { fw } pre = some (s₁, o₁) ∧
      System.step cfg s₁ a = some (s₂, o₂) ∧ (machine cfg).run s₂ post = some (s, o₃) ∧
      o = o₁ ++ (o₂ ++ o₃) := by
  obtain ⟨post, o₁, rfl, hpre⟩ := hat
  obtain ⟨s₁', o₁', s₂, o₂, o₃, hpre', hstep, hpost, ho⟩ := (machine cfg).run_split h
  obtain ⟨rfl, rfl⟩ := Prod.mk.inj (Option.some.inj (hpre.symm.trans hpre'))
  exact ⟨o₁, s₂, o₂, post, o₃, hpre, hstep, hpost, ho⟩

/-- The step that ends a call, in a run: all events of the call are those
before it and its own. -/
theorem eventsOf_ended {pre : List Act} {s₁ s₂ : System} {o₂ : List Event} {e : Event}
    (h : (machine cfg).run { fw } as = some (s, o)) (hat : At cfg fw as pre s₁ a)
    (hstep : System.step cfg s₁ a = some (s₂, o₂)) (he : e ∈ o₂) (hid : e.id = r)
    (hi : e.isIssued = false) : eventsOf r o = emitted r s₁.tasks[r]? ++ o₂ := by
  subst hid
  obtain ⟨hend, hcall, hleft⟩ := step_ending hstep he hi
  obtain ⟨o₁, s₂', o₂', post, o₃, hpre, hstep', hpost, rfl⟩ := hat.step h
  obtain ⟨rfl, rfl⟩ := Prod.mk.inj (Option.some.inj (hstep.symm.trans hstep'))
  rw [eventsOf_append, eventsOf_append, (run_left hpost hleft).2, List.append_nil,
    eventsOf_own fun e' he' => (hend.events e' he').1,
    run_emitted hpre fun hl => callOf_ne_of_left hstep hl hcall]

/-- Whatever a call emits besides its upstream call comes from the one step
that ends it. -/
theorem run_ending (h : (machine cfg).run { fw } as = some (s, o)) {e : Event} (he : e ∈ o)
    (hid : e.id = r) (hi : e.isIssued = false) :
    ∃ pre a s₁ fw' o₂, At cfg fw as pre s₁ a ∧ Ending cfg s₁ a r fw' o₂ ∧ e ∈ o₂ ∧
      eventsOf r o = emitted r s₁.tasks[r]? ++ o₂ := by
  obtain ⟨pre, a, post, s₁, o₁, s₂, o₂, heq, hpre, hstep, he'⟩ := (machine cfg).mem_run_output h he
  have hat : At cfg fw as pre s₁ a := ⟨post, o₁, heq, hpre⟩
  exact ⟨pre, a, s₁, s₂.fw, o₂, hat, hid ▸ (step_ending hstep he' hi).1, he',
    eventsOf_ended h hat hstep he' hid hi⟩

/-- Every running call was started by an action of the run, and everything
its first segment checks held then. -/
theorem run_started (h : (machine cfg).run { fw } as = some (s, o)) {t : Task}
    (hr : s.tasks[r]? = some t) (hleft : t ≠ .left) :
    ∃ pre a s₁ t₁, At cfg fw as pre s₁ a ∧ s₁.tasks.length = r ∧ Started cfg s₁.fw a t₁ ∧
      (t = t₁ ∨ ∃ req ctx, t₁ = .handleTools req ctx ∧ t = .handleCall req ctx) := by
  revert t
  refine (machine cfg).run_history
    (motive := fun as s _ => ∀ {t : Task}, s.tasks[r]? = some t → t ≠ .left →
      ∃ pre a s₁ t₁, At cfg fw as pre s₁ a ∧ s₁.tasks.length = r ∧ Started cfg s₁.fw a t₁ ∧
        (t = t₁ ∨ ∃ req ctx, t₁ = .handleTools req ctx ∧ t = .handleCall req ctx))
    (by simp) ?_ h
  intro as s₁ o₁ a s₂ o₂ hrun₁ ih hstep t hr hleft
  have keep : ∀ {t' : Task}, s₁.tasks[r]? = some t' → t' ≠ .left →
      (t = t' ∨ ∃ req ctx, t' = .handleTools req ctx ∧ t = .handleCall req ctx) →
      ∃ pre b s₀ t₀, At cfg fw (as ++ [a]) pre s₀ b ∧ s₀.tasks.length = r ∧
        Started cfg s₀.fw b t₀ ∧
        (t = t₀ ∨ ∃ req ctx, t₀ = .handleTools req ctx ∧ t = .handleCall req ctx) := by
    intro t' hr' hleft' hnext
    obtain ⟨pre, b, s₀, t₀, hat, hlen, hstart, hfol⟩ := ih hr' hleft'
    refine ⟨pre, b, s₀, t₀, hat.extend [a], hlen, hstart, ?_⟩
    rcases hfol with rfl | ⟨req, ctx, rfl, rfl⟩
    · exact hnext
    · rcases hnext with rfl | ⟨_, _, hne, -⟩
      · exact .inr ⟨req, ctx, rfl, rfl⟩
      · cases hne
  by_cases hcall : callOf s₁ a = some r
  · cases step_shape hstep with
    | opened t' ha ht hnew =>
        obtain rfl : s₁.tasks.length = r := by simpa [callOf, ha] using hcall
        obtain rfl : t' = t := by
          rw [ht, List.getElem?_concat_length] at hr
          exact Option.some.inj hr
        rcases hnew with ⟨rfl, -⟩ | ⟨hstart, -⟩
        · exact absurd rfl hleft
        · exact ⟨as, a, s₁, t', ⟨[], o₁, rfl, hrun₁⟩, rfl, hstart, .inl rfl⟩
    | moved id t' t'' ha hid hrun hleft' ht hnew =>
        obtain rfl : id = r := by simpa [callOf, ha, hid] using hcall
        obtain rfl : t'' = t := by
          rw [ht, List.getElem?_set_self (List.getElem?_eq_some_iff.mp hrun).1] at hr
          exact Option.some.inj hr
        rcases hnew with ⟨rfl, -⟩ | ⟨env, tools, req, ctx, -, -, rfl, rfl, -⟩
        · exact absurd rfl hleft
        · exact keep hrun nofun (.inr ⟨req, ctx, rfl, rfl⟩)
    | outside ha hid ht hdb ho => simp [callOf, ha, hid] at hcall
  · exact keep ((step_frame hstep hcall).1 ▸ hr) hleft (.inl rfl)

/-- A request past its first segment was handled by an action of the run,
and admitted by it. -/
theorem run_handled (h : (machine cfg).run { fw } as = some (s, o))
    (hr : s.tasks[r]? = some (.handleTools req ctx) ∨ s.tasks[r]? = some (.handleCall req ctx)) :
    ∃ pre env s₁ session, At cfg fw as pre s₁ (.handle env req) ∧ s₁.tasks.length = r ∧
      Firewall.Admitted cfg env req s₁.fw session ∧ ctx = Firewall.ranked cfg req session := by
  rcases hr with hr | hr
  · obtain ⟨pre, a, s₁, t₁, hat, hlen, hstart, rfl | ⟨_, _, -, hne⟩⟩ := run_started h hr nofun
    · cases hstart with
      | handle hadm => exact ⟨pre, _, s₁, _, hat, hlen, hadm, rfl⟩
    · cases hne
  · obtain ⟨pre, a, s₁, t₁, hat, hlen, hstart, rfl | ⟨_, _, rfl, heq⟩⟩ := run_started h hr nofun
    · cases hstart
    · cases heq
      cases hstart with
      | handle hadm => exact ⟨pre, _, s₁, _, hat, hlen, hadm, rfl⟩

/-- A call has one start. -/
theorem start_unique {pre pre' : List Act} {s₁ s₁' : System} {a a' : Act}
    (h : At cfg fw as pre s₁ a) (h' : At cfg fw as pre' s₁' a') (ha : a.opens = true)
    (ha' : a'.opens = true) (hlen : s₁.tasks.length = s₁'.tasks.length) :
    pre = pre' ∧ s₁ = s₁' ∧ a = a' := by
  -- of two different starts, the later one finds one call more
  have later : ∀ {pre pre' : List Act} {t t' : System} {b b' : Act}, At cfg fw as pre t b →
      At cfg fw as pre' t' b' → b.opens = true → pre.length < pre'.length →
      t.tasks.length < t'.tasks.length := by
    intro pre pre' t t' b b' hat hat' hb hlt
    obtain ⟨post, o, rfl, hrun⟩ := hat
    obtain ⟨post', o', heq, hrun'⟩ := hat'
    obtain ⟨mid, rfl⟩ : ∃ mid, pre' = pre ++ b :: mid := by
      rcases List.append_eq_append_iff.mp heq with ⟨mid, rfl, hmid⟩ | ⟨mid, rfl, hmid⟩
      · cases mid with
        | nil => simp at hlt
        | cons c mid =>
            obtain ⟨rfl, -⟩ := List.cons.inj hmid
            exact ⟨mid, rfl⟩
      · simp only [List.length_append] at hlt
        omega
    obtain ⟨t₁, o₁, o₂, hrun₁, hrest, -⟩ := ((machine cfg).run_append_eq_some).mp hrun'
    obtain ⟨t₂, o₃, o₄, hstep, hmid, -⟩ := ((machine cfg).run_cons_eq_some).mp hrest
    obtain ⟨rfl, rfl⟩ := Prod.mk.inj (Option.some.inj (hrun.symm.trans hrun₁))
    have hone := step_length hstep
    have hmore := run_length hmid
    rw [hb, if_pos rfl] at hone
    omega
  have hsame : pre.length = pre'.length := by
    rcases Nat.lt_trichotomy pre.length pre'.length with hlt | heq | hgt
    · have := later h h' ha hlt
      omega
    · exact heq
    · have := later h' h ha' hgt
      omega
  obtain ⟨post, o, rfl, hrun⟩ := h
  obtain ⟨post', o', heq, hrun'⟩ := h'
  obtain ⟨rfl, hcons⟩ := List.append_inj heq hsame
  obtain ⟨rfl, -⟩ := List.cons.inj hcons
  obtain ⟨rfl, -⟩ := Prod.mk.inj (Option.some.inj (hrun.symm.trans hrun'))
  exact ⟨rfl, rfl, rfl⟩

end History

end System

end AgenticFirewall
