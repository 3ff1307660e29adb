import AgenticFirewall.Firewall.Audit
import AgenticFirewall.Firewall.Authorization
import AgenticFirewall.Firewall.CircuitBreaker
import AgenticFirewall.Firewall.Integrity
import AgenticFirewall.Firewall.RateLimiter
import AgenticFirewall.Firewall.Risk
import AgenticFirewall.Firewall.Scanner

/-!
# The firewall core: one request lifecycle

`app/firewall/gateway.py`, `handle` and what it calls. `handle` awaits
twice, so it runs as three segments: up to `list_tools`, up to
`call_tool`, and the rest. Nothing else runs during a segment. What the
outside contributes to a segment (clock readings, and which component
operations raise) is its `Env`.
-/

namespace AgenticFirewall

open Py

/-- What is fixed when the firewall is built. -/
structure Config where
  policy : Policy
  sha256 : Sha256
  unicode : Unicode

def Config.scanner (cfg : Config) : Scanner :=
  .ofRules cfg.unicode cfg.policy.scanner.maxScanChars

/-- The components that change. -/
structure Firewall where
  db : Database
  limiter : SlidingWindowRateLimiter
  loginLimiter : SlidingWindowRateLimiter
  breakers : CircuitBreakerRegistry

/-- `Firewall.__init__`, on a given database. -/
def Firewall.init (cfg : Config) (db : Database) : Firewall where
  db := db
  limiter :=
    { maxRequests := cfg.policy.rateLimit.maxRequests
      windowSeconds := cfg.policy.rateLimit.windowSeconds
      one_le := cfg.policy.rateLimit.one_le
      window_pos := cfg.policy.rateLimit.window_pos }
  loginLimiter :=
    { maxRequests := cfg.policy.loginRateLimit.maxRequests
      windowSeconds := cfg.policy.loginRateLimit.windowSeconds
      one_le := cfg.policy.loginRateLimit.one_le
      window_pos := cfg.policy.loginRateLimit.window_pos }
  breakers :=
    { threshold := cfg.policy.circuitBreaker.failureThreshold
      cooldown := cfg.policy.circuitBreaker.cooldownSeconds
      one_le := cfg.policy.circuitBreaker.one_le
      cooldown_pos := cfg.policy.circuitBreaker.cooldown_pos }

/-! ## What the outside contributes -/

/-- The operations of the components, where one may raise or read a
clock. -/
inductive Op where
  | validate
  | limiter
  | classify
  | authorize
  | verify
  | inputScan
  | breakerAllow
  | retryAfterReason
  | retryAfter
  | recordOutcome
  | outputScan
  | audit
  | loginLimiter
  | login
  | canManage
  | descriptionScan
  | approvedFingerprint
  | approve
  deriving DecidableEq, Repr

/-- The outside during one segment. -/
structure Env where
  /-- what an operation raises, whatever it would have done -/
  fault : Op → Option Exc := fun _ => none
  /-- the readings of `time.time` -/
  time : Op → ℚ := fun _ => 0
  /-- the readings of `time.monotonic` -/
  monotonic : Op → ℚ := fun _ => 0
  /-- the measured latency of a request that ends here -/
  latencyMs : ℚ := 0

/-- Run a component operation that may raise. -/
def Env.attempt {α : Type} (env : Env) (op : Op) (x : Except Exc α) : Except Exc α :=
  match env.fault op with
  | some e => .error e
  | none => x

/-- `TOOL_NAME_RE.fullmatch` -/
def toolNameMatches (name : Str) : Bool :=
  decide (1 ≤ name.length) && decide (name.length ≤ 128) &&
    name.all fun c => isAsciiAlnum c || oneOf "_.-" c

/-- `_Ctx`: what is known about the caller so far. -/
structure Ctx where
  userId : Option Str := none
  role : Option Str := none
  sessionRef : Option Str := none
  risk : Option RiskLevel := none

/-- The context once the session is known. -/
def Ctx.ofSession (session : UserSession) : Ctx where
  userId := some session.userId
  role := some session.role
  sessionRef := some session.sessionRef

/-- `_deny` -/
def deny (req : ToolRequest) (ctx : Ctx) (stage : Stage) (reason : Str)
    (retryAfter : Option ℚ) : GatewayResult where
  decision := .deny
  stage := stage
  reason := reason
  tool := req.tool
  userId := ctx.userId
  role := ctx.role
  risk := ctx.risk
  retryAfter := retryAfter

namespace Firewall

/-! ## Audit records -/

/-- `self.audit.record`: the event as it was stored. -/
def record (env : Env) (e : SecurityEvent) (fw : Firewall) :
    Except Exc (SecurityEvent × Firewall) :=
  match env.attempt .audit (AuditLog.record (env.time .audit) e fw.db) with
  | .error err => .error err
  | .ok (event, db) => .ok (event, { fw with db })

/-- `record` inside `try`/`except Exception`: a failure is only logged. -/
def recordOrLog (env : Env) (e : SecurityEvent) (fw : Firewall) :
    Option SecurityEvent × Firewall :=
  match fw.record env e with
  | .error _ => (none, fw)
  | .ok (event, fw) => (some event, fw)

/-- What `_audit_result` records. -/
def resultEvent (req : ToolRequest) (ctx : Ctx) (result : GatewayResult) : SecurityEvent where
  ts := 0
  userId := ctx.userId
  sessionRef := ctx.sessionRef
  role := ctx.role
  tool := some req.tool
  risk := result.risk.map RiskLevel.name
  decision := result.decision
  stage := result.stage.text
  reason := result.reason
  latencyMs := result.latencyMs

/-- What `_audit_simple` records. -/
def simpleEvent (userId : Option Str) (stage : Stage) (decision : Decision) (reason : Str)
    (role sessionRef : Option Str) : SecurityEvent where
  ts := 0
  userId := userId
  sessionRef := sessionRef
  role := role
  tool := none
  risk := none
  decision := decision
  stage := stage.text
  reason := reason

/-! ## The pipeline, up to its first await -/

def rateLimitReason (limiter : SlidingWindowRateLimiter) (rl : RateLimitResult) : Str :=
  str "rate limit exceeded (" ++ intStr limiter.maxRequests ++ str " requests per " ++
    formatG limiter.windowSeconds ++ str "s); retry in " ++ intStr ⌈rl.retryAfter⌉ ++ str "s"

/-- Steps 1 to 5. `none` is the await of `list_tools`; the context is
shared with `handle`, also when a component raises. -/
def pipelineStart (cfg : Config) (env : Env) (req : ToolRequest) (fw : Firewall) :
    Except Exc (Option GatewayResult) × Ctx × Firewall :=
  -- 1. authentication
  match env.attempt .validate
      (Authenticator.validate cfg.sha256 (env.time .validate) req.sessionId fw.db) with
  | .error (.authError msg) => (.ok (some (deny req {} .authentication msg none)), {}, fw)
  | .error e => (.error e, {}, fw)
  | .ok session =>
      let ctx := Ctx.ofSession session
      -- 2. rate limit, whatever becomes of the request
      match env.fault .limiter with
      | some e => (.error e, ctx, fw)
      | none =>
          let (rl, limiter) := fw.limiter.check (env.monotonic .limiter) session.userId
          let fw := { fw with limiter }
          if !rl.allowed then
            (.ok (some (deny req ctx .rateLimit (rateLimitReason limiter rl)
              (some rl.retryAfter))), ctx, fw)
          -- 3. basic validation
          else if !toolNameMatches req.tool then
            (.ok (some (deny req ctx .validation (str "invalid tool name") none)), ctx, fw)
          else
            -- 4. risk classification
            match env.attempt .classify
                (.ok (RiskClassifier.classify cfg.policy.toolRisk req.tool)) with
            | .error e => (.error e, ctx, fw)
            | .ok risk =>
                let ctx := { ctx with risk := some risk }
                -- 5. authorization
                match env.attempt .authorize
                    (.ok (Authorizer.check cfg.policy.roles session.role req.tool risk)) with
                | .error e => (.error e, ctx, fw)
                | .ok decision =>
                    if !decision.allowed then
                      (.ok (some (deny req ctx .authorization decision.reason none)), ctx, fw)
                    else (.ok none, ctx, fw)

/-! ## The pipeline, from `list_tools` to `call_tool` -/

/-- How the await of `list_tools` ends, if it is not cancelled. -/
inductive ToolsReply where
  | listing (tools : List ToolDefinition)
  | raised

def inputScanReason (scanIn : ScanResult) : Str :=
  str "blocked by input scanner: " ++ scanIn.summary

def circuitOpenReason (tool : Str) (wait : ℚ) : Str :=
  str "circuit open for tool '" ++ tool ++ str "'; retry in " ++ intStr ⌈wait⌉ ++ str "s"

/-- Steps 6 to 8. `none` is the await of `call_tool`: the call is issued. -/
def pipelineTools (cfg : Config) (env : Env) (req : ToolRequest) (ctx : Ctx) (reply : ToolsReply)
    (fw : Firewall) : Except Exc (Option GatewayResult) × Firewall :=
  -- 6. integrity
  match reply with
  | .raised =>
      (.ok (some (deny req ctx .upstream
        (str "could not verify tool definition with upstream") none)), fw)
  | .listing tools =>
      match tools.filter fun t => t.name = req.tool with
      | [] =>
          (.ok (some (deny req ctx .integrity
            (str "tool is not exposed by the upstream server") none)), fw)
      | _ :: _ :: _ =>
          (.ok (some (deny req ctx .integrity
            (str "upstream exposes duplicate definitions for this tool") none)), fw)
      | [defn] =>
          match env.attempt .verify (IntegrityChecker.verify cfg.sha256 defn fw.db) with
          | .error e => (.error e, fw)
          | .ok integrity =>
              if !integrity.ok then
                (.ok (some (deny req ctx .integrity integrity.reason none)), fw)
              else
                -- 7. input inspection
                match env.attempt .inputScan (.ok (cfg.scanner.scanValue .input
                    req.arguments.toValue (str "arguments"))) with
                | .error e => (.error e, fw)
                | .ok scanIn =>
                    if scanIn.blocked then
                      (.ok (some (deny req ctx .inputScan (inputScanReason scanIn) none)), fw)
                    else
                      -- 8. circuit breaker
                      match env.fault .breakerAllow with
                      | some e => (.error e, fw)
                      | none =>
                          let (breaker, breakers) := fw.breakers.get req.tool
                          let (allowed, breaker) := breaker.allow (env.monotonic .breakerAllow)
                          let fw := { fw with breakers := breakers.put req.tool breaker }
                          if !allowed then
                            match env.fault .retryAfter with
                            | some e => (.error e, fw)
                            | none =>
                                (.ok (some (deny req ctx .circuitBreaker
                                  (circuitOpenReason req.tool
                                    (breaker.retryAfter (env.monotonic .retryAfterReason)))
                                  (some (breaker.retryAfter (env.monotonic .retryAfter))))), fw)
                          else (.ok none, fw)

/-! ## The pipeline, after `call_tool` -/

/-- How the await of `call_tool` ends. -/
inductive CallReply where
  | response (r : ToolResponse)
  | raised
  | timedOut
  | cancelled

/-- The breaker of a tool after one of its `record_*` methods. -/
def recordOutcome (tool : Str) (method : CircuitBreaker → CircuitBreaker) (fw : Firewall) :
    Firewall :=
  let (breaker, breakers) := fw.breakers.get tool
  { fw with breakers := breakers.put tool (method breaker) }

def outputScanReason (scanOut : ScanResult) : Str :=
  str "blocked by output scanner: " ++ scanOut.summary

/-- Steps 9 to 11. `none` is the cancellation, which is raised again. -/
def pipelineReply (cfg : Config) (env : Env) (req : ToolRequest) (ctx : Ctx) (reply : CallReply)
    (fw : Firewall) : Except Exc (Option GatewayResult) × Firewall :=
  let failed := fw.recordOutcome req.tool (·.recordFailure (env.monotonic .recordOutcome))
  match env.fault .recordOutcome with
  | some e => (.error e, fw)
  | none =>
      match reply with
      | .cancelled => (.ok none, failed)
      | .raised => (.ok (some (deny req ctx .upstream (str "upstream call failed") none)), failed)
      | .timedOut =>
          (.ok (some (deny req ctx .upstream (str "upstream call failed") none)), failed)
      | .response response =>
          let fw :=
            if response.isError then failed else fw.recordOutcome req.tool (·.recordSuccess)
          -- 10. output inspection
          match env.attempt .outputScan
              (.ok (cfg.scanner.scanValue .output (.str response.text) (str "response"))) with
          | .error e => (.error e, fw)
          | .ok scanOut =>
              if scanOut.blocked then
                (.ok (some (deny req ctx .outputScan (outputScanReason scanOut) none)), fw)
              else
                -- 11. return
                (.ok (some
                  { decision := .allow
                    stage := .allowed
                    reason :=
                      if response.isError then str "allowed (tool reported an error)"
                      else str "allowed"
                    tool := req.tool
                    userId := ctx.userId
                    role := ctx.role
                    risk := ctx.risk
                    response := some response }), fw)

/-! ## The end of a request -/

/-- The result `handle` returns for what the pipeline returned or raised. -/
def handleResult (env : Env) (req : ToolRequest) (ctx : Ctx) (r : Except Exc GatewayResult) :
    GatewayResult :=
  let result :=
    match r with
    | .ok result => result
    | .error _ =>
        deny req ctx .internal (str "internal error; request denied (fail closed)") none
  { result with latencyMs := env.latencyMs }

/-- `_audit_result` -/
def auditResult (env : Env) (req : ToolRequest) (ctx : Ctx) (result : GatewayResult)
    (fw : Firewall) : Option SecurityEvent × Firewall :=
  fw.recordOrLog env (resultEvent req ctx result)

end Firewall

end AgenticFirewall
