import AgenticFirewall.Firewall.Gateway
import AgenticFirewall.Lib.Machine
import AgenticFirewall.Lib.Paging
import AgenticFirewall.Lib.Raising
import AgenticFirewall.Mcp.Client
import AgenticFirewall.Mcp.Response

/-!
# A real MCP server over stdio

`app/mcp/client.py`, `StdioMCPUpstream`: the session that `start` opens and
`stop` closes, the listing that is read page by page, and the calls. What
the SDK and the server behind it do is a parameter: each request may be
answered in any way and may change what later ones are answered.
-/

namespace AgenticFirewall

open Py Transition

/-! ## The SDK -/

/-- A page of the listing: the tools, each as
`model_dump(mode="json", exclude_none=True)` gives it, and the cursor in the
spelling of either SDK version. -/
structure SdkPage where
  tools : List Obj
  nextCursor : Option (Option Str) := none
  next_cursor : Option (Option Str) := none

/-- `getattr(result, "nextCursor", getattr(result, "next_cursor", None))`,
where an empty cursor counts as none. -/
def SdkPage.next (page : SdkPage) : Option Str :=
  match page.nextCursor.getD (page.next_cursor.getD none) with
  | some [] => none
  | cursor => cursor

/-- How `session.list_tools` is called. -/
inductive ListCall where
  /-- `session.list_tools()` -/
  | first
  /-- `session.list_tools(params=PaginatedRequestParams(cursor=cursor))` -/
  | params (cursor : Str)
  /-- `session.list_tools(cursor=cursor)` -/
  | cursor (cursor : Str)

/-- How a call ends. -/
inductive ListReply where
  | page (page : SdkPage)
  | typeError
  | raised

/-- A session of the SDK, over a state of the server. -/
structure Session (σ : Type) where
  listTools : ListCall → σ → ListReply × σ
  /-- `none` is an exception -/
  callTool : Str → Obj → σ → Option SdkResult × σ

namespace StdioMCPUpstream

variable {σ : Type}

/-! ## The listing -/

/-- A call of `list_tools` whose exceptions are not handled. -/
def unhandled (r : ListReply × σ) : Except Exc SdkPage × σ :=
  match r with
  | (.page page, s) => (.ok page, s)
  | (.typeError, s) => (.error .other, s)
  | (.raised, s) => (.error .other, s)

/-- `_list_page` -/
def listPage (session : Session σ) (cursor : Option Str) (s : σ) : Except Exc SdkPage × σ :=
  match cursor with
  | none => unhandled (session.listTools .first s)
  | some c =>
      match session.listTools (.params c) s with
      | (.typeError, s) => unhandled (session.listTools (.cursor c) s)
      | r => unhandled r

/-- The tools of a page; the first that cannot be converted raises. -/
def convert : List Obj → Except Exc (List ToolDefinition)
  | [] => .ok []
  | dump :: rest => do
      let defn ← toolToDefinition dump
      let defns ← convert rest
      return defn :: defns

/-- The page cap. -/
def pageCap : Nat := 100

/-- The loop of `list_tools`. -/
def listLoop (session : Session σ) :
    Nat → Option Str → List ToolDefinition → σ → Except Exc (List ToolDefinition) × σ
  | 0, _, tools, s => (.ok tools, s)
  | n + 1, cursor, tools, s =>
      match listPage session cursor s with
      | (.error e, s) => (.error e, s)
      | (.ok page, s) =>
          match convert page.tools with
          | .error e => (.error e, s)
          | .ok defns =>
              let tools := tools ++ defns
              match page.next with
              | none => (.ok tools, s)
              | some c => listLoop session n (some c) tools s

/-- `list_tools`, once there is a session. -/
def listTools (session : Session σ) (s : σ) : Except Exc (List ToolDefinition) × σ :=
  listLoop session pageCap none [] s

/-- `call_tool`, once there is a session. -/
def callTool (session : Session σ) (name : Str) (arguments : Obj) (s : σ) :
    Except Exc ToolResponse × σ :=
  match session.callTool name arguments s with
  | (none, s) => (.error .other, s)
  | (some result, s) => (resultToResponse result, s)

/-! ## The session -/

/-- `start` and `stop` keep the exit stack and the session in two fields
that are set together; a stack is named by the number of its `start`. -/
structure Connection where
  held : Option Nat := none
  started : Nat := 0

/-- What `start` enters on its stack, in order. -/
inductive Context where
  | stdioClient
  | clientSession
  deriving DecidableEq, Repr

/-- How far `start` gets before something raises. -/
inductive StartEnd where
  | noClient
  | noSession
  | notInitialized
  | started
  deriving DecidableEq, Repr

/-- What `start` has entered when it ends so. -/
def StartEnd.entered : StartEnd → List Context
  | .noClient => []
  | .noSession => [.stdioClient]
  | .notInitialized => [.stdioClient, .clientSession]
  | .started => [.stdioClient, .clientSession]

/-- An entry or an exit of a context, with the stack it is on. -/
inductive ContextEvent where
  | enter (stack : Nat) (context : Context)
  | exit (stack : Nat) (context : Context)
  deriving DecidableEq, Repr

/-- `stack.aclose()` leaves the contexts in the reverse order, also when one
of them raises on the way. -/
def aclose (stack : Nat) (contexts : List Context) : List ContextEvent :=
  contexts.reverse.map (.exit stack)

/-- `start` -/
def start (ending : StartEnd) (c : Connection) : Connection × List ContextEvent :=
  let stack := c.started
  let entered := ending.entered.map (.enter stack)
  match ending with
  | .started => ({ held := some stack, started := c.started + 1 }, entered)
  | _ => ({ c with started := c.started + 1 }, entered ++ aclose stack ending.entered)

/-- `stop` -/
def stop (c : Connection) : Connection × List ContextEvent :=
  match c.held with
  | none => (c, [])
  | some stack => ({ c with held := none }, aclose stack StartEnd.started.entered)

/-- `_require_session`, before a listing or a call: the session, which is
named by its stack. -/
def requireSession (c : Connection) : Except Exc Nat :=
  match c.held with
  | none => .error .other
  | some stack => .ok stack

end StdioMCPUpstream

/-! ## What the firewall sees of it -/

/-- How the await of `list_tools` ends for what `list_tools` returns or
raises. -/
def toolsReply : Except Exc (List ToolDefinition) → Firewall.ToolsReply
  | .ok tools => .listing tools
  | .error _ => .raised

/-- How the await of `call_tool` ends. -/
def callReply : Except Exc ToolResponse → Firewall.CallReply
  | .ok response => .response response
  | .error _ => .raised

namespace StdioMCPUpstream

variable {σ : Type}

/-! ## The upstream as a whole -/

/-- The upstream object and the server behind its session. -/
structure Upstream (σ : Type) where
  connection : Connection := {}
  server : σ

/-- A call of one of the four methods of `Upstream`. -/
inductive Use where
  | start (ending : StartEnd)
  | stop
  | listTools
  | callTool (name : Str) (arguments : Obj)

inductive Effect where
  | context (e : ContextEvent)
  /-- a request is given to the session of this stack -/
  | sent (stack : Nat)
  | listed (reply : Firewall.ToolsReply)
  | called (reply : Firewall.CallReply)

/-- One call. The contexts are entered and left, and the requests are made,
in the order of the effects. -/
def use (session : Session σ) (u : Upstream σ) : Use → Upstream σ × List Effect
  | .start ending =>
      let (connection, events) := start ending u.connection
      ({ u with connection := connection }, events.map .context)
  | .stop =>
      let (connection, events) := stop u.connection
      ({ u with connection := connection }, events.map .context)
  | .listTools =>
      match requireSession u.connection with
      | .error _ => (u, [.listed .raised])
      | .ok stack =>
          let (result, server) := listTools session u.server
          ({ u with server := server }, [.sent stack, .listed (toolsReply result)])
  | .callTool name arguments =>
      match requireSession u.connection with
      | .error _ => (u, [.called .raised])
      | .ok stack =>
          let (result, server) := callTool session name arguments u.server
          ({ u with server := server }, [.sent stack, .called (callReply result)])

def machine (session : Session σ) : Machine (Upstream σ) Use Effect :=
  ⟨fun u a => some (use session u a)⟩

end StdioMCPUpstream

end AgenticFirewall
