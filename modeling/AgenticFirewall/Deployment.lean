import AgenticFirewall.Mcp.Server
import AgenticFirewall.Lifecycle

/-!
# The firewall in front of a server

The running firewall and the demo server behind it, joined as
`InProcessUpstream` joins them: `list_tools` and `call_tool` run on the
server at some moment of the await, and the call resumes later with what
they worked out, or gives up waiting. The server can be changed at any time.
-/

namespace AgenticFirewall

open Py Transition

/-- What the upstream has worked out for a call that awaits it. -/
inductive Answer where
  | listing (tools : List ToolDefinition)
  | response (r : ToolResponse)

structure Deployment where
  sys : System
  server : DemoToolServer
  answers : Nat → Option Answer := fun _ => none

namespace Deployment

inductive Move where
  /-- an entry point is called, or the accounts change -/
  | enter (a : Act)
  /-- `list_tools` runs for the call -/
  | lists (id : Nat)
  /-- `call_tool` runs for the call -/
  | runs (id : Nat)
  /-- the await ends with what the upstream has worked out -/
  | resume (id : Nat) (envs : Nat → Env)
  /-- the await ends with an exception -/
  | fails (id : Nat) (envs : Nat → Env) (timedOut : Bool)
  | cancel (id : Nat) (env : Env)
  | register (definition : ToolDefinition) (handler : Handler)
  | mutate (name : Str) (changes : ToolChanges)
  | setHandler (name : Str) (handler : Handler)

inductive Output where
  | firewall (e : Event)
  /-- a call reached the server -/
  | reached (id : Nat) (name : Str) (args : Obj)

/-- The call awaits `list_tools`. -/
def awaitsTools : Task → Bool
  | .handleTools .. | .approveTools .. | .listTools .. => true
  | .handleCall .. | .left => false

/-- How a call resumes with an answer. -/
def resumed (id : Nat) (envs : Nat → Env) : Task → Answer → Option Act
  | .handleTools _ _, .listing tools => some (.handleTools id (envs 0) (.listing tools))
  | .approveTools _ _, .listing tools => some (.approveTools id envs (.listing tools))
  | .listTools _ _, .listing tools => some (.listTools id envs (.listing tools))
  | .handleCall _ _, .response r => some (.handleReply id (envs 0) (.response r))
  | _, _ => none

/-- How it resumes when the upstream raised, or took too long. -/
def failed (id : Nat) (envs : Nat → Env) (timedOut : Bool) : Task → Option Act
  | .handleTools _ _ => some (.handleTools id (envs 0) .raised)
  | .approveTools _ _ => some (.approveTools id envs .raised)
  | .listTools _ _ => some (.listTools id envs .raised)
  | .handleCall _ _ => some (.handleReply id (envs 0) (if timedOut then .timedOut else .raised))
  | .left => none

def cancelled (id : Nat) (env : Env) : Task → Option Act
  | .handleTools _ _ | .approveTools _ _ | .listTools _ _ => some (.cancel id)
  | .handleCall _ _ => some (.handleReply id env .cancelled)
  | .left => none

/-- A call leaves its await: the firewall takes a step, and nothing is kept
for the call. -/
def leaves (cfg : Config) (d : Deployment) (id : Nat) (a : Option Act) :
    Option (Deployment × List Output) :=
  match a with
  | none => none
  | some a =>
      match System.step cfg d.sys a with
      | none => none
      | some (sys, events) =>
          some ({ d with sys, answers := Function.update d.answers id none },
            events.map .firewall)

def step (cfg : Config) (d : Deployment) : Move → Option (Deployment × List Output)
  | .enter a =>
      match a.target with
      | some _ => none
      | none =>
          match System.step cfg d.sys a with
          | none => none
          | some (sys, events) => some ({ d with sys }, events.map .firewall)
  | .lists id =>
      match d.sys.tasks[id]?, d.answers id with
      | some task, none =>
          if awaitsTools task then
            some ({ d with
              answers := Function.update d.answers id (some (.listing d.server.listTools)) }, [])
          else none
      | _, _ => none
  | .runs id =>
      match d.sys.tasks[id]?, d.answers id with
      | some (.handleCall req _), none =>
          let (r, server) := d.server.callTool req.tool req.arguments
          some ({ d with server, answers := Function.update d.answers id (some (.response r)) },
            [.reached id req.tool req.arguments])
      | _, _ => none
  | .resume id envs =>
      match d.sys.tasks[id]?, d.answers id with
      | some task, some answer => d.leaves cfg id (resumed id envs task answer)
      | _, _ => none
  | .fails id envs timedOut =>
      match d.sys.tasks[id]? with
      | some task => d.leaves cfg id (failed id envs timedOut task)
      | none => none
  | .cancel id env =>
      match d.sys.tasks[id]? with
      | some task => d.leaves cfg id (cancelled id env task)
      | none => none
  | .register definition handler =>
      some ({ d with server := d.server.register definition handler }, [])
  | .mutate name changes =>
      match d.server.mutate name changes with
      | some server => some ({ d with server }, [])
      | none => some (d, [])
  | .setHandler name handler =>
      some ({ d with server := d.server.setHandler name handler }, [])

def machine (cfg : Config) : Machine Deployment Move Output := ⟨step cfg⟩

end Deployment

end AgenticFirewall
