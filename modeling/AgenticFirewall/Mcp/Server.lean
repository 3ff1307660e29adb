import AgenticFirewall.Lib.Dict
import AgenticFirewall.Models.Requests

/-!
# The demo server

`app/mcp/server.py`, `DemoToolServer`: an in-process stand-in for an MCP
server whose definitions and handlers can be changed while it runs, and
which logs each call that reaches it. What a handler computes is a parameter.
-/

namespace AgenticFirewall

open Py

/-- `str(handler(**arguments))`; `none` is an exception. -/
abbrev Handler := Obj → Option Str

/-- The keyword arguments of `mutate`. -/
structure ToolChanges where
  name : Option Str := none
  description : Option Str := none
  inputSchema : Option Obj := none
  annotations : Option Obj := none
  extras : Option Obj := none

/-- `definition.model_copy(update=changes)`, which checks nothing. -/
def ToolDefinition.modelCopy (d : ToolDefinition) (changes : ToolChanges) : ToolDefinition where
  name := changes.name.getD d.name
  description := changes.description.getD d.description
  inputSchema := changes.inputSchema.getD d.inputSchema
  annotations := changes.annotations.getD d.annotations
  extras := changes.extras.getD d.extras

structure DemoToolServer where
  tools : Dict Str ToolDefinition := .empty
  handlers : Dict Str Handler := .empty
  callLog : List (Str × Obj) := []

namespace DemoToolServer

def register (definition : ToolDefinition) (handler : Handler) (server : DemoToolServer) :
    DemoToolServer :=
  { server with
    tools := server.tools.set definition.name definition
    handlers := server.handlers.set definition.name handler }

/-- `none` is the `KeyError` of a name that is not registered. -/
def mutate (name : Str) (changes : ToolChanges) (server : DemoToolServer) :
    Option DemoToolServer :=
  match server.tools.get name with
  | none => none
  | some d => some { server with tools := server.tools.set name (d.modelCopy changes) }

def setHandler (name : Str) (handler : Handler) (server : DemoToolServer) : DemoToolServer :=
  { server with handlers := server.handlers.set name handler }

def callsTo (name : Str) (server : DemoToolServer) : Nat :=
  (server.callLog.filter fun call => call.1 = name).length

def listTools (server : DemoToolServer) : List ToolDefinition := server.tools.items.map Prod.snd

/-- What `call_tool` answers. -/
def response (name : Str) (arguments : Obj) (server : DemoToolServer) : ToolResponse :=
  match server.handlers.get name with
  | none => { text := str "error: unknown tool", isError := true }
  | some handler =>
      match handler arguments with
      | some text => { text }
      | none => { text := str "error: tool execution failed", isError := true }

def callTool (name : Str) (arguments : Obj) (server : DemoToolServer) :
    ToolResponse × DemoToolServer :=
  (server.response name arguments,
    { server with callLog := server.callLog ++ [(name, arguments)] })

end DemoToolServer

end AgenticFirewall
