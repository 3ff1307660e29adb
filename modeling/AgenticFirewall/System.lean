import AgenticFirewall.Firewall.Discovery
import AgenticFirewall.Lib.Machine

/-!
# The running firewall

Any number of calls of the entry points in flight at once. A call is named
by its index in `tasks`; it runs segment by segment, in any order with
those of other calls, and each await ends as the outside chooses: with any
listing, any response, an exception or a cancellation.
-/

namespace AgenticFirewall

open Py Transition

/-- Where a call stands between its segments. -/
inductive Task where
  /-- `handle`, awaiting `list_tools` -/
  | handleTools (req : ToolRequest) (ctx : Ctx)
  /-- `handle`, awaiting `call_tool` -/
  | handleCall (req : ToolRequest) (ctx : Ctx)
  | approveTools (approver : UserSession) (names : Option (List Str))
  | listTools (session : UserSession) (manager : Bool)
  | left

structure System where
  fw : Firewall
  tasks : List Task := []

/-- One segment of a call, or a change from outside. -/
inductive Act where
  | handle (env : Env) (req : ToolRequest)
  | handleTools (id : Nat) (env : Env) (reply : Firewall.ToolsReply)
  | handleReply (id : Nat) (env : Env) (reply : Firewall.CallReply)
  | approve (env : Env) (approver : UserSession) (names : Option (List Str))
  | approveTools (id : Nat) (envs : Nat → Env) (reply : Firewall.ToolsReply)
  | list (env : Env) (sessionId : Str)
  | listTools (id : Nat) (envs : Nat → Env) (reply : Firewall.ToolsReply)
  /-- cancellation of a call that awaits `list_tools` -/
  | cancel (id : Nat)
  | requireManager (env : Env) (sessionId : Str)
  | login (env : Env) (token userId apiKey clientKey : Str)
  | revoke (sessionId : Str)
  | registerUser (userId role apiKey : Str)
  | setRole (userId role : Text)

/-- An environment an action runs in. -/
def Act.RunsIn : Act → Env → Prop
  | .handle env _, e => e = env
  | .handleTools _ env _, e => e = env
  | .handleReply _ env _, e => e = env
  | .approve env _ _, e => e = env
  | .approveTools _ envs _, e => ∃ i, e = envs i
  | .list env _, e => e = env
  | .listTools _ envs _, e => ∃ i, e = envs i
  | .requireManager env _, e => e = env
  | .login env _ _ _ _, e => e = env
  | _, _ => False

/-- What can be seen of a call. -/
inductive Event where
  /-- `upstream.call_tool(name, args)` -/
  | issued (id : Nat) (name : Str) (args : Obj)
  /-- an audit write, with the event when it was stored -/
  | audit (id : Nat) (stored : Option SecurityEvent)
  | returned (id : Nat) (result : GatewayResult)
  | approved (id : Nat) (outcomes : List ApprovalOutcome)
  | listed (id : Nat) (infos : List ToolInfo)
  | session (id : Nat) (session : UserSession)
  | raised (id : Nat) (e : Exc)
  | cancelled (id : Nat)

def Event.id : Event → Nat
  | .issued id _ _ => id
  | .audit id _ => id
  | .returned id _ => id
  | .approved id _ => id
  | .listed id _ => id
  | .session id _ => id
  | .raised id _ => id
  | .cancelled id => id

namespace System

/-- What the pipeline ended with; `none` while it awaits. -/
def ended : Except Exc (Option GatewayResult) → Option (Except Exc GatewayResult)
  | .ok none => none
  | .ok (some result) => some (.ok result)
  | .error e => some (.error e)

/-- `handle` once the pipeline has ended. -/
def leave (id : Nat) (env : Env) (req : ToolRequest) (ctx : Ctx) (r : Except Exc GatewayResult)
    (fw : Firewall) : Firewall × List Event :=
  let result := Firewall.handleResult env req ctx r
  let (stored, fw) := fw.auditResult env req ctx result
  (fw, [.audit id stored, .returned id result])

/-- The events of a call that ends with an outcome. -/
def close {α : Type} (id : Nat) (returned : α → Event) (out : Outcome α) : List Event :=
  out.audits.map (.audit id) ++
    [match out.result with
      | .ok a => returned a
      | .error e => .raised id e]

def step (cfg : Config) (s : System) : Act → Option (System × List Event)
  | .handle env req =>
      let id := s.tasks.length
      let (r, ctx, fw) := s.fw.pipelineStart cfg env req
      match ended r with
      | none => some ({ fw, tasks := s.tasks ++ [.handleTools req ctx] }, [])
      | some r =>
          let (fw, events) := leave id env req ctx r fw
          some ({ fw, tasks := s.tasks ++ [.left] }, events)
  | .handleTools id env reply =>
      match s.tasks[id]? with
      | some (.handleTools req ctx) =>
          let (r, fw) := s.fw.pipelineTools cfg env req ctx reply
          match ended r with
          | none =>
              some ({ fw, tasks := s.tasks.set id (.handleCall req ctx) },
                [.issued id req.tool req.arguments])
          | some r =>
              let (fw, events) := leave id env req ctx r fw
              some ({ fw, tasks := s.tasks.set id .left }, events)
      | _ => none
  | .handleReply id env reply =>
      match s.tasks[id]? with
      | some (.handleCall req ctx) =>
          let (r, fw) := s.fw.pipelineReply cfg env req ctx reply
          match ended r with
          | none => some ({ fw, tasks := s.tasks.set id .left }, [.cancelled id])
          | some r =>
              let (fw, events) := leave id env req ctx r fw
              some ({ fw, tasks := s.tasks.set id .left }, events)
      | _ => none
  | .approve env approver names =>
      let id := s.tasks.length
      match Firewall.approveStart cfg env approver with
      | .error e => some ({ s with tasks := s.tasks ++ [.left] }, [.raised id e])
      | .ok () => some ({ s with tasks := s.tasks ++ [.approveTools approver names] }, [])
  | .approveTools id envs reply =>
      match s.tasks[id]? with
      | some (.approveTools approver names) =>
          let out := s.fw.approveTools cfg envs approver names reply
          some ({ fw := out.fw, tasks := s.tasks.set id .left }, close id (.approved id) out)
      | _ => none
  | .list env sessionId =>
      let id := s.tasks.length
      let out := s.fw.listStart cfg env sessionId
      match out.result with
      | .error e => some ({ fw := out.fw, tasks := s.tasks ++ [.left] }, [.raised id e])
      | .ok (session, manager) =>
          some ({ fw := out.fw, tasks := s.tasks ++ [.listTools session manager] }, [])
  | .listTools id envs reply =>
      match s.tasks[id]? with
      | some (.listTools session manager) =>
          let result := s.fw.listTools cfg envs session manager reply
          some ({ s with tasks := s.tasks.set id .left },
            close id (.listed id) { result, fw := s.fw })
      | _ => none
  | .cancel id =>
      match s.tasks[id]? with
      | some (.handleTools _ _) | some (.approveTools _ _) | some (.listTools _ _) =>
          some ({ s with tasks := s.tasks.set id .left }, [.cancelled id])
      | _ => none
  | .requireManager env sessionId =>
      let id := s.tasks.length
      let out := s.fw.requireManager cfg env sessionId
      some ({ fw := out.fw, tasks := s.tasks ++ [.left] }, close id (.session id) out)
  | .login env token userId apiKey clientKey =>
      let id := s.tasks.length
      let out := s.fw.login cfg env token userId apiKey clientKey
      some ({ fw := out.fw, tasks := s.tasks ++ [.left] },
        close id (fun p => .session id p.2) out)
  | .revoke sessionId =>
      match Authenticator.revoke cfg.sha256 sessionId s.fw.db with
      | .ok (_, db) => some ({ s with fw := { s.fw with db } }, [])
      | .error _ => some (s, [])
  | .registerUser userId role apiKey =>
      match Authenticator.registerUser cfg.sha256 userId role apiKey s.fw.db with
      | .ok db => some ({ s with fw := { s.fw with db } }, [])
      | .error _ => some (s, [])
  | .setRole userId role =>
      some ({ s with fw := { s.fw with db := s.fw.db.setRole userId role } }, [])

def machine (cfg : Config) : Machine System Act Event := ⟨step cfg⟩

end System

end AgenticFirewall
