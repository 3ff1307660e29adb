import AgenticFirewall.Answers
import AgenticFirewall.Properties.RetryAfter

/-!
# The HTTP layer

`app/main.py`, `create_app`: each endpoint makes one call of the gateway
(`approve_tools` two, without a pause between them) and translates what it
returns or raises. What FastAPI does before a handler (validating body and
query) is in the types of the requests; whether it can render a body is a
parameter.
-/

namespace AgenticFirewall

open Py Transition

namespace Http

/-! ## Requests and responses -/

structure LoginBody where
  userId : Str
  apiKey : Str

structure RequestBody where
  tool : Str
  arguments : Obj := .empty

structure ApproveBody where
  tools : Option (List Str) := none

/-- `limit: int = Query(50, ge=1, le=500)` -/
structure LogLimit where
  val : Int := 50
  ge_one : 1 ≤ val := by decide
  le_max : val ≤ 500 := by decide

/-- A request as its handler receives it. -/
inductive Request where
  | health
  | createSession (body : LoginBody) (client : Option Str)
  | listTools (xSessionId : Option Str)
  | approveTools (body : ApproveBody) (xSessionId : Option Str)
  | toolRequest (body : RequestBody) (xSessionId : Option Str)
  | getPolicies (xSessionId : Option Str)
  | getLogs (limit : LogLimit) (xSessionId : Option Str)

inductive Body where
  | status (text : Str)
  | session (sessionId userId role : Str) (expiresAt : ℚ)
  | tools (infos : List ToolInfo)
  | outcomes (outcomes : List ApprovalOutcome)
  | result (result : GatewayResult)
  | policy (policy : Policy)
  | logs (events : List SecurityEvent)
  /-- of an `HTTPException` -/
  | detail (text : Str)
  /-- of an exception nobody caught -/
  | serverError

structure Response where
  status : Nat := 200
  body : Body
  /-- the `Retry-After` header -/
  retryAfter : Option Int := none

/-- `_STATUS_BY_STAGE` -/
def statusByStage : Stage → Option Nat
  | .authentication => some 401
  | .rateLimit => some 429
  | .validation => some 400
  | .authorization => some 403
  | .integrity => some 403
  | .inputScan => some 403
  | .outputScan => some 403
  | .circuitBreaker => some 503
  | .upstream => some 502
  | .internal => some 500
  | .login | .approval | .allowed => none

/-- What the framework sends for an exception that leaves the handler. -/
def serverError : Response := { status := 500, body := .serverError }

/-- `_http_error`; `none` raises the exception again. -/
def httpError : Exc → Option Response
  | .authError message => some { status := 401, body := .detail message }
  | .rateLimitExceeded retryAfter =>
      some
        { status := 429
          body := .detail (str "rate limit exceeded")
          retryAfter := retryHeaders (some retryAfter) }
  | .permissionDenied message => some { status := 403, body := .detail message }
  | .valueError _ | .other => none

/-- The exceptions a handler catches. -/
def Request.catches (req : Request) : Exc → Bool
  | .authError _ | .rateLimitExceeded _ =>
      match req with
      | .health | .toolRequest .. => false
      | _ => true
  | .permissionDenied _ =>
      match req with
      | .approveTools .. | .getPolicies _ | .getLogs .. => true
      | _ => false
  | .valueError _ | .other => false

/-- What is sent when the gateway raises. -/
def Request.raised (req : Request) (e : Exc) : Response :=
  if req.catches e then (httpError e).getD serverError else serverError

/-- What `tool_request` sends. -/
def ofResult (result : GatewayResult) : Response where
  status :=
    if result.decision = .allow then 200 else (statusByStage result.stage).getD 403
  body := .result result
  retryAfter := retryHeaders result.retryAfter

/-! ## The handlers -/

/-- `x_session_id or ""` -/
def sessionId (xSessionId : Option Str) : Str := xSessionId.getD []

/-- The gateway call a handler starts with; `token` is what
`secrets.token_urlsafe` returns. -/
def Request.call (env : Env) (token : Str) : Request → Option Act
  | .health => none
  | .createSession body client =>
      some (.login env token body.userId body.apiKey (client.getD (str "unknown")))
  | .listTools x => some (.list env (sessionId x))
  | .approveTools _ x => some (.requireManager env (sessionId x))
  | .toolRequest body x =>
      some (.handle env
        { sessionId := sessionId x, tool := body.tool, arguments := body.arguments })
  | .getPolicies x => some (.requireManager env (sessionId x))
  | .getLogs _ x => some (.requireManager env (sessionId x))

/-- The gateway call that follows on an answer to the first. -/
def Request.next (env : Env) : Request → Event → Option Act
  | .approveTools body _, .session _ session => some (.approve env session body.tools)
  | _, _ => none

/-- The gateway call that goes on when `list_tools` of the upstream ends. -/
def Request.listed (task : Nat) (envs : Nat → Env) (reply : Firewall.ToolsReply) :
    Request → Option Act
  | .toolRequest .. => some (.handleTools task (envs 0) reply)
  | .approveTools .. => some (.approveTools task envs reply)
  | .listTools _ => some (.listTools task envs reply)
  | _ => none

/-- The gateway call that goes on when `call_tool` ends. -/
def Request.replied (task : Nat) (env : Env) (reply : Firewall.CallReply) :
    Request → Option Act
  | .toolRequest .. => some (.handleReply task env reply)
  | _ => none

/-- What a handler does next. -/
inductive Verdict where
  | awaits
  | answers (response : Response)
  /-- it is cancelled -/
  | drops

/-- What a handler makes of the events of its gateway call, over the
components as they are then. -/
def Request.verdict (cfg : Config) (fw : Firewall) (token : Str) (events : List Event)
    (req : Request) : Verdict :=
  match events.getLast? with
  | none =>
      match req with
      | .health => .answers { body := .status (str "ok") }
      | _ => .awaits
  | some (.returned _ result) => .answers (ofResult result)
  | some (.approved _ outcomes) => .answers { body := .outcomes outcomes }
  | some (.listed _ infos) => .answers { body := .tools infos }
  | some (.session _ session) =>
      match req with
      | .createSession .. =>
          .answers { body := .session token session.userId session.role session.expiresAt }
      | .getPolicies _ => .answers { body := .policy cfg.policy }
      | .getLogs limit _ =>
          match AuditLog.recent limit.val fw.db with
          | .ok events => .answers { body := .logs events }
          | .error _ => .answers serverError
      | _ => .awaits
  | some (.raised _ e) => .answers (req.raised e)
  | some (.cancelled _) => .drops
  | some (.issued ..) | some (.audit ..) => .awaits

/-! ## The server -/

/-- The application: the gateway's configuration, and which bodies can be
rendered as JSON. -/
structure App where
  cfg : Config
  renders : Body → Bool

/-- What leaves the server for a response. -/
def App.render (app : App) (response : Response) : Response :=
  if app.renders response.body then response else serverError

inductive Conn where
  /-- the handler awaits a running call of the gateway -/
  | waiting (task : Nat) (req : Request)
  | closed

structure Server where
  sys : System
  conns : List Conn := []

inductive Action where
  /-- a request, with the environments of the gateway calls it makes -/
  | arrive (req : Request) (env env' : Env) (token : Str)
  | listed (conn : Nat) (envs : Nat → Env) (reply : Firewall.ToolsReply)
  | replied (conn : Nat) (env : Env) (reply : Firewall.CallReply)
  /-- cancellation of a handler that awaits `list_tools` -/
  | cancelled (conn : Nat)
  /-- a change that no connection makes -/
  | outside (change : Act) (h : change.opens = false ∧ change.target = none)

inductive Output where
  | gateway (event : Event)
  | sent (conn : Nat) (response : Response)
  | dropped (conn : Nat)

/-- What the server emits when a handler has come to a verdict, and where
that leaves the connection. -/
def App.settle (app : App) (conn task : Nat) (token : Str) (req : Request) (fw : Firewall)
    (events : List Event) : Conn × List Output :=
  match req.verdict app.cfg fw token events with
  | .awaits => (.waiting task req, events.map .gateway)
  | .answers response =>
      (.closed, events.map .gateway ++ [.sent conn (app.render response)])
  | .drops => (.closed, events.map .gateway ++ [.dropped conn])

/-- The gateway calls a handler makes when its request arrives. -/
def Request.begin (cfg : Config) (env env' : Env) (token : Str) (req : Request) (s : System) :
    Option (System × List Event) :=
  match req.call env token with
  | none => some (s, [])
  | some act =>
      match System.step cfg s act with
      | none => none
      | some (s, events) =>
          match events.findSome? (req.next env') with
          | none => some (s, events)
          | some act =>
              match System.step cfg s act with
              | none => none
              | some (s, events') => some (s, events ++ events')

/-- A handler goes on with the gateway call it awaits. -/
def App.resume (app : App) (s : Server) (conn : Nat) (call : Nat → Request → Option Act) :
    Option (Server × List Output) :=
  match s.conns[conn]? with
  | some (.waiting task req) =>
      match call task req with
      | none => none
      | some act =>
          match System.step app.cfg s.sys act with
          | none => none
          | some (sys, events) =>
              let (c, out) := app.settle conn task [] req sys.fw events
              some ({ sys, conns := s.conns.set conn c }, out)
  | _ => none

def App.step (app : App) (s : Server) : Action → Option (Server × List Output)
  | .arrive req env env' token =>
      match req.begin app.cfg env env' token s.sys with
      | none => none
      | some (sys, events) =>
          let (c, out) :=
            app.settle s.conns.length (sys.tasks.length - 1) token req sys.fw events
          some ({ sys, conns := s.conns ++ [c] }, out)
  | .listed conn envs reply => app.resume s conn fun task req => req.listed task envs reply
  | .replied conn env reply => app.resume s conn fun task req => req.replied task env reply
  | .cancelled conn => app.resume s conn fun task _ => some (.cancel task)
  | .outside change _ =>
      match System.step app.cfg s.sys change with
      | none => none
      | some (sys, events) => some ({ s with sys }, events.map .gateway)

def App.machine (app : App) : Machine Server Action Output := ⟨app.step⟩

end Http

end AgenticFirewall
