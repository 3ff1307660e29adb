import AgenticFirewall.Firewall.Gateway

/-!
# Login, approval and discovery

The other entry points of `app/firewall/gateway.py`. `approve_tools` and
`list_tools` await `list_tools` of the upstream once and run as two
segments. A loop takes one `Env` for each iteration.
-/

namespace AgenticFirewall

open Py

/-- What a segment leaves behind: how it ended, the audit writes it
attempted (with the event when it was stored) and the components. -/
structure Outcome (α : Type) where
  result : Except Exc α
  audits : List (Option SecurityEvent) := []
  fw : Firewall

namespace Firewall

/-! ## Sessions -/

/-- `authenticate`: a valid session and room in its user's rate limit. -/
def authenticate (cfg : Config) (env : Env) (sessionId : Str) (fw : Firewall) :
    Outcome UserSession :=
  match env.attempt .validate
      (Authenticator.validate cfg.sha256 (env.time .validate) sessionId fw.db) with
  | .error e => { result := .error e, fw }
  | .ok session =>
      match env.fault .limiter with
      | some e => { result := .error e, fw }
      | none =>
          let (rl, limiter) := fw.limiter.check (env.monotonic .limiter) session.userId
          let fw := { fw with limiter }
          if !rl.allowed then { result := .error (.rateLimitExceeded rl.retryAfter), fw }
          else { result := .ok session, fw }

def requireManager (cfg : Config) (env : Env) (sessionId : Str) (fw : Firewall) :
    Outcome UserSession :=
  let out := fw.authenticate cfg env sessionId
  match out.result with
  | .error _ => out
  | .ok session =>
      match env.attempt .canManage (.ok (Authorizer.canManage cfg.policy.roles session.role)) with
      | .error e => { out with result := .error e }
      | .ok manager =>
          if !manager then
            { out with
              result := .error (.permissionDenied (str "this action requires a manager role")) }
          else out

/-- `token` is what `secrets.token_urlsafe` returns. -/
def login (cfg : Config) (env : Env) (token userId apiKey clientKey : Str) (fw : Firewall) :
    Outcome (Str × UserSession) :=
  match env.fault .loginLimiter with
  | some e => { result := .error e, fw }
  | none =>
      let (rl, loginLimiter) := fw.loginLimiter.check (env.monotonic .loginLimiter) clientKey
      let fw := { fw with loginLimiter }
      if !rl.allowed then
        let (stored, fw) := fw.recordOrLog env
          (simpleEvent (some userId) .login .deny (str "too many login attempts") none none)
        { result := .error (.rateLimitExceeded rl.retryAfter), audits := [stored], fw }
      else
        match env.attempt .login (Authenticator.login cfg.sha256 cfg.policy.sessionTtlSeconds
            (env.time .login) token userId apiKey fw.db) with
        | .error (.authError msg) =>
            let (stored, fw) := fw.recordOrLog env
              (simpleEvent (some userId) .login .deny (str "invalid credentials") none none)
            { result := .error (.authError msg), audits := [stored], fw }
        | .error e => { result := .error e, fw }
        | .ok ((sessionId, session), db) =>
            let (stored, fw) := { fw with db }.recordOrLog env
              (simpleEvent (some session.userId) .login .allow (str "login ok")
                (some session.role) (some session.sessionRef))
            { result := .ok (sessionId, session), audits := [stored], fw }

/-! ## Approval -/

/-- `approve_tools` up to its await. -/
def approveStart (cfg : Config) (env : Env) (approver : UserSession) : Except Exc Unit :=
  match env.attempt .canManage (.ok (Authorizer.canManage cfg.policy.roles approver.role)) with
  | .error e => .error e
  | .ok manager =>
      if !manager then .error (.permissionDenied (str "role may not approve tools")) else .ok ()

def suspiciousReason (scan : ScanResult) : Str :=
  str "suspicious tool definition: " ++ scan.summary

/-- `_approve_one` -/
def approveOne (cfg : Config) (env : Env) (defn : ToolDefinition) (approver : UserSession)
    (fw : Firewall) : Except Exc (ApprovalOutcome × Firewall) :=
  match env.attempt .descriptionScan
      (.ok (cfg.scanner.scanValue .description defn.modelDump (str "definition"))) with
  | .error e => .error e
  | .ok scan =>
      if scan.blocked then
        .ok ({ tool := defn.name, status := .rejected, reason := suspiciousReason scan }, fw)
      else
        match env.attempt .approvedFingerprint
            (IntegrityChecker.approvedFingerprint defn.name fw.db) with
        | .error e => .error e
        | .ok previous =>
            match env.attempt .approve (IntegrityChecker.approve cfg.sha256 (env.time .approve) defn
                (some approver.userId) fw.db) with
            | .error e => .error e
            | .ok (fp, db) =>
                let status : ApprovalStatus :=
                  match previous with
                  | none => .approved
                  | some old => if old = fp then .unchanged else .updated
                .ok ({ tool := defn.name, status, fingerprint := some fp }, { fw with db })

/-- `{t.name: t for t in tools}`: the last definition of a name wins. -/
def byName (tools : List ToolDefinition) : Dict Str ToolDefinition :=
  .ofList (tools.map fun t => (t.name, t))

/-- How often a name is listed. -/
def count (tools : List ToolDefinition) (name : Str) : Nat :=
  (tools.filter fun t => t.name = name).length

/-- The names to approve, each once: the requested ones in order, or all
that are listed. -/
def wanted (names : Option (List Str)) (tools : List ToolDefinition) : List Str :=
  match names with
  | some names => (Dict.ofList (names.map fun n => (n, ()))).keys
  | none => (byName tools).keys

/-- The outcome for one name. -/
def approveName (cfg : Config) (env : Env) (tools : List ToolDefinition) (approver : UserSession)
    (name : Str) (fw : Firewall) : Except Exc (ApprovalOutcome × Firewall) :=
  match (byName tools).get name with
  | none =>
      .ok ({ tool := name, status := .notFound, reason := str "tool not exposed by upstream" }, fw)
  | some defn =>
      if 1 < count tools name then
        .ok ({ tool := name, status := .rejected
               reason := str "duplicate definitions from upstream" }, fw)
      else fw.approveOne cfg env defn approver

/-- `.rstrip(": ")` -/
def rstripColon (s : Str) : Str := (s.reverse.dropWhile (oneOf ": ")).reverse

/-- Whether an outcome is recorded as `ALLOW`. -/
def approvalDecision : ApprovalStatus → Decision
  | .approved => .allow
  | .updated => .allow
  | .unchanged => .allow
  | .rejected => .deny
  | .notFound => .deny

/-- What `approve_tools` records for one outcome. -/
def approvalEvent (risk : Option RiskLevel) (approver : UserSession) (name : Str)
    (outcome : ApprovalOutcome) : SecurityEvent where
  ts := 0
  userId := some approver.userId
  sessionRef := some approver.sessionRef
  role := some approver.role
  tool := some name
  risk := risk.map RiskLevel.name
  decision := approvalDecision outcome.status
  stage := Stage.approval.text
  reason := rstripColon (outcome.status.text ++ str ": " ++ outcome.reason)

/-- The risk that is recorded: none for a name that is no tool name. -/
def approvalRisk (cfg : Config) (env : Env) (name : Str) : Except Exc (Option RiskLevel) :=
  if toolNameMatches name then
    env.attempt .classify (.ok (some (RiskClassifier.classify cfg.policy.toolRisk name)))
  else .ok none

/-- The loop of `approve_tools`. An exception ends it; what was approved
before stays. -/
def approveLoop (cfg : Config) (envs : Nat → Env) (tools : List ToolDefinition)
    (approver : UserSession) : Nat → List Str → Firewall → Outcome (List ApprovalOutcome)
  | _, [], fw => { result := .ok [], fw }
  | i, name :: rest, fw =>
      match fw.approveName cfg (envs i) tools approver name with
      | .error e => { result := .error e, fw }
      | .ok (outcome, fw) =>
          match approvalRisk cfg (envs i) name with
          | .error e => { result := .error e, fw }
          | .ok risk =>
              match fw.record (envs i) (approvalEvent risk approver name outcome) with
              | .error e => { result := .error e, audits := [none], fw }
              | .ok (event, fw) =>
                  let out := approveLoop cfg envs tools approver (i + 1) rest fw
                  { out with
                    result := out.result.map fun outcomes => outcome :: outcomes
                    audits := some event :: out.audits }

/-- `approve_tools` after its await. -/
def approveTools (cfg : Config) (envs : Nat → Env) (approver : UserSession)
    (names : Option (List Str)) (reply : ToolsReply) (fw : Firewall) :
    Outcome (List ApprovalOutcome) :=
  match reply with
  | .raised => { result := .error .other, fw }
  | .listing tools => approveLoop cfg envs tools approver 0 (wanted names tools) fw

/-! ## Discovery -/

/-- `list_tools` up to its await: the session, and whether its role may
manage. -/
def listStart (cfg : Config) (env : Env) (sessionId : Str) (fw : Firewall) :
    Outcome (UserSession × Bool) :=
  let out := fw.authenticate cfg env sessionId
  match out.result with
  | .error e => { result := .error e, fw := out.fw }
  | .ok session =>
      match env.attempt .canManage (.ok (Authorizer.canManage cfg.policy.roles session.role)) with
      | .error e => { result := .error e, fw := out.fw }
      | .ok manager => { result := .ok (session, manager), fw := out.fw }

/-- What `list_tools` shows of one definition, if anything. -/
def listOne (cfg : Config) (env : Env) (session : UserSession) (manager : Bool)
    (defn : ToolDefinition) (db : Database) : Except Exc (Option ToolInfo) := do
  let risk ← env.attempt .classify (.ok (RiskClassifier.classify cfg.policy.toolRisk defn.name))
  let integrity ← env.attempt .verify (IntegrityChecker.verify cfg.sha256 defn db)
  let info : ToolInfo :=
    { name := defn.name, description := defn.description, inputSchema := defn.inputSchema
      risk, integrity := integrity.status }
  if manager then return some info
  else if !integrity.ok then return none
  else
    let decision ← env.attempt .authorize
      (.ok (Authorizer.check cfg.policy.roles session.role defn.name risk))
    if decision.allowed then return some info else return none

/-- The loop of `list_tools`; it changes nothing. -/
def listLoop (cfg : Config) (envs : Nat → Env) (session : UserSession) (manager : Bool)
    (db : Database) : Nat → List ToolDefinition → Except Exc (List ToolInfo)
  | _, [] => .ok []
  | i, defn :: rest => do
      let info ← listOne cfg (envs i) session manager defn db
      let infos ← listLoop cfg envs session manager db (i + 1) rest
      return info.toList ++ infos

/-- `list_tools` after its await. -/
def listTools (cfg : Config) (envs : Nat → Env) (session : UserSession) (manager : Bool)
    (reply : ToolsReply) (fw : Firewall) : Except Exc (List ToolInfo) :=
  match reply with
  | .raised => .error .other
  | .listing tools => listLoop cfg envs session manager fw.db 0 tools

end Firewall

end AgenticFirewall
