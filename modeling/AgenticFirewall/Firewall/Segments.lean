import AgenticFirewall.Firewall.Discovery

/-!
# What each segment can do

One case for each way out of a segment of `handle`, with everything that
was checked on the way, and what the first segments of the other entry
points check.
-/

namespace AgenticFirewall

open Py

theorem Env.attempt_eq_ok {α : Type} {env : Env} {op : Op} {x : Except Exc α} {a : α}
    (h : env.attempt op x = .ok a) : x = .ok a := by
  unfold Env.attempt at h
  split at h
  · cases h
  · exact h

theorem Env.fault_of_attempt_ok {α : Type} {env : Env} {op : Op} {x : Except Exc α} {a : α}
    (h : env.attempt op x = .ok a) : env.fault op = none := by
  unfold Env.attempt at h
  split at h
  · cases h
  · assumption

theorem Env.attempt_none {α : Type} {env : Env} {op : Op} (h : env.fault op = none)
    (x : Except Exc α) : env.attempt op x = x := by
  simp [Env.attempt, h]

theorem encodable_of_toolNameMatches {name : Str} (h : toolNameMatches name = true) :
    Encodable name := by
  simp only [toolNameMatches, Bool.and_eq_true] at h
  exact encodable_of_alnum h.2

namespace Firewall

section

variable (cfg : Config) (env : Env) (req : ToolRequest) (fw : Firewall)

/-- The lookup of a session id. -/
def lookup (sessionId : Str) : Except Exc UserSession :=
  env.attempt .validate (Authenticator.validate cfg.sha256 (env.time .validate) sessionId fw.db)

/-- The check of the limiter for a user. -/
def limit (userId : Str) : RateLimitResult × SlidingWindowRateLimiter :=
  fw.limiter.check (env.monotonic .limiter) userId

/-- The firewall once the limiter has counted a request of the user. -/
def counted (userId : Str) : Firewall := { fw with limiter := (fw.limit env userId).2 }

def toolRisk : RiskLevel := RiskClassifier.classify cfg.policy.toolRisk req.tool

/-- The context once the risk is known. -/
def ranked (session : UserSession) : Ctx :=
  { Ctx.ofSession session with risk := some (toolRisk cfg req) }

/-- The ways out of the first segment. -/
inductive StartExit : Except Exc (Option GatewayResult) × Ctx × Firewall → Prop where
  | unauthenticated {msg : Str} (h : fw.lookup cfg env req.sessionId = .error (.authError msg)) :
      StartExit (.ok (some (deny req {} .authentication msg none)), {}, fw)
  | lookupRaised {e : Exc} (h : fw.lookup cfg env req.sessionId = .error e) :
      StartExit (.error e, {}, fw)
  | limiterRaised {session : UserSession} {e : Exc}
      (h : fw.lookup cfg env req.sessionId = .ok session) :
      StartExit (.error e, Ctx.ofSession session, fw)
  | limited {session : UserSession} (h : fw.lookup cfg env req.sessionId = .ok session)
      (hl : (fw.limit env session.userId).1.allowed = false) :
      StartExit (.ok (some (deny req (Ctx.ofSession session) .rateLimit
          (rateLimitReason (fw.limit env session.userId).2 (fw.limit env session.userId).1)
          (some (fw.limit env session.userId).1.retryAfter))),
        Ctx.ofSession session, fw.counted env session.userId)
  | badName {session : UserSession} (h : fw.lookup cfg env req.sessionId = .ok session)
      (hl : (fw.limit env session.userId).1.allowed = true)
      (hn : toolNameMatches req.tool = false) :
      StartExit (.ok (some (deny req (Ctx.ofSession session) .validation
          (str "invalid tool name") none)),
        Ctx.ofSession session, fw.counted env session.userId)
  | checkRaised {session : UserSession} {ctx : Ctx} {e : Exc}
      (h : fw.lookup cfg env req.sessionId = .ok session)
      (hc : ctx = Ctx.ofSession session ∨ ctx = ranked cfg req session) :
      StartExit (.error e, ctx, fw.counted env session.userId)
  | unauthorized {session : UserSession} (h : fw.lookup cfg env req.sessionId = .ok session)
      (hl : (fw.limit env session.userId).1.allowed = true)
      (hn : toolNameMatches req.tool = true)
      (ha : (Authorizer.check cfg.policy.roles session.role req.tool
        (toolRisk cfg req)).allowed = false) :
      StartExit (.ok (some (deny req (ranked cfg req session) .authorization
          (Authorizer.check cfg.policy.roles session.role req.tool (toolRisk cfg req)).reason
          none)),
        ranked cfg req session, fw.counted env session.userId)
  | passed {session : UserSession} (h : fw.lookup cfg env req.sessionId = .ok session)
      (hl : (fw.limit env session.userId).1.allowed = true)
      (hn : toolNameMatches req.tool = true)
      (ha : (Authorizer.check cfg.policy.roles session.role req.tool
        (toolRisk cfg req)).allowed = true) :
      StartExit (.ok none, ranked cfg req session, fw.counted env session.userId)

theorem pipelineStart_exit : StartExit cfg env req fw (fw.pipelineStart cfg env req) := by
  unfold pipelineStart
  split
  · rename_i msg h
    exact .unauthenticated h
  · rename_i e h
    exact .lookupRaised h
  · rename_i session h
    split
    · exact .limiterRaised h
    · simp only
      split
      · rename_i hl
        exact .limited h (by simpa [limit] using hl)
      · rename_i hl
        have hl' : (fw.limit env session.userId).1.allowed = true := by simpa [limit] using hl
        split
        · rename_i hn
          exact .badName h hl' (by simpa using hn)
        · rename_i hn
          have hn' : toolNameMatches req.tool = true := by simpa using hn
          split
          · exact .checkRaised h (.inl rfl)
          · rename_i risk hrisk
            obtain rfl : risk = toolRisk cfg req := (Except.ok.inj (Env.attempt_eq_ok hrisk)).symm
            split
            · exact .checkRaised h (.inr rfl)
            · rename_i decision hd
              obtain rfl := Except.ok.inj (Env.attempt_eq_ok hd)
              split
              · rename_i ha
                exact .unauthorized h hl' hn' (by simpa using ha)
              · rename_i ha
                exact .passed h hl' hn' (by simpa using ha)

/-- Everything the first segment has checked of a request it lets through:
the session, the limiter, the name, and the role as it is then. -/
structure Admitted (session : UserSession) : Prop where
  live : Authenticator.Live cfg.sha256 (env.time .validate) req.sessionId fw.db session
  limiter : (fw.limit env session.userId).1.allowed = true
  name : toolNameMatches req.tool = true
  role : ∃ p, cfg.policy.roles.get session.role = some p ∧ req.tool ∈ p.allowedTools ∧
    toolRisk cfg req ≤ p.maxRisk

theorem admitted_of_start {ctx : Ctx} {fw' : Firewall}
    (h : fw.pipelineStart cfg env req = (.ok none, ctx, fw')) :
    ∃ session, Admitted cfg env req fw session ∧ ctx = ranked cfg req session := by
  have hexit := pipelineStart_exit cfg env req fw
  rw [h] at hexit
  cases hexit with
  | passed hlook hl hn ha =>
      exact ⟨_, ⟨Authenticator.live_of_validate (Env.attempt_eq_ok hlook), hl, hn,
        Authorizer.check_allowed_iff.mp ha⟩, rfl⟩

theorem pipelineStart_db : (fw.pipelineStart cfg env req).2.2.db = fw.db := by
  have hexit := pipelineStart_exit cfg env req fw
  generalize fw.pipelineStart cfg env req = out at hexit ⊢
  cases hexit <;> rfl

/-! ## From `list_tools` to `call_tool` -/

/-- The scan of the arguments. -/
def scanInput : ScanResult :=
  cfg.scanner.scanValue .input req.arguments.toValue (str "arguments")

/-- The answer of the tool's breaker, and the breaker after it. -/
def askBreaker : Bool × CircuitBreaker :=
  (fw.breakers.get req.tool).1.allow (env.monotonic .breakerAllow)

/-- The firewall once the tool's breaker has answered. -/
def asked : Firewall :=
  { fw with breakers := (fw.breakers.get req.tool).2.put req.tool (fw.askBreaker env req).2 }

/-- The listing holds exactly one definition of the tool. -/
def Unique (tools : List ToolDefinition) (defn : ToolDefinition) : Prop :=
  tools.filter (fun t => t.name = req.tool) = [defn]

/-- The ways out of the second segment. -/
inductive ToolsExit (ctx : Ctx) :
    ToolsReply → Except Exc (Option GatewayResult) × Firewall → Prop where
  | listingRaised :
      ToolsExit ctx .raised (.ok (some (deny req ctx .upstream
        (str "could not verify tool definition with upstream") none)), fw)
  | unlisted {tools : List ToolDefinition} :
      ToolsExit ctx (.listing tools) (.ok (some (deny req ctx .integrity
        (str "tool is not exposed by the upstream server") none)), fw)
  | duplicated {tools : List ToolDefinition} :
      ToolsExit ctx (.listing tools) (.ok (some (deny req ctx .integrity
        (str "upstream exposes duplicate definitions for this tool") none)), fw)
  | checkRaised {tools : List ToolDefinition} {e : Exc} :
      ToolsExit ctx (.listing tools) (.error e, fw)
  | mismatched {tools : List ToolDefinition} {defn : ToolDefinition} {r : IntegrityResult}
      (hu : Unique req tools defn)
      (hv : IntegrityChecker.verify cfg.sha256 defn fw.db = .ok r) (hr : r.ok = false) :
      ToolsExit ctx (.listing tools)
        (.ok (some (deny req ctx .integrity r.reason none)), fw)
  | inputBlocked {tools : List ToolDefinition} {defn : ToolDefinition} {r : IntegrityResult}
      (hu : Unique req tools defn)
      (hv : IntegrityChecker.verify cfg.sha256 defn fw.db = .ok r) (hr : r.ok = true)
      (hf : env.fault .inputScan = none) (hb : (scanInput cfg req).blocked = true) :
      ToolsExit ctx (.listing tools)
        (.ok (some (deny req ctx .inputScan (inputScanReason (scanInput cfg req)) none)), fw)
  | waitRaised {tools : List ToolDefinition} {e : Exc} (ha : (fw.askBreaker env req).1 = false) :
      ToolsExit ctx (.listing tools) (.error e, fw.asked env req)
  | circuitOpen {tools : List ToolDefinition} (ha : (fw.askBreaker env req).1 = false) :
      ToolsExit ctx (.listing tools)
        (.ok (some (deny req ctx .circuitBreaker
          (circuitOpenReason req.tool
            ((fw.askBreaker env req).2.retryAfter (env.monotonic .retryAfterReason)))
          (some ((fw.askBreaker env req).2.retryAfter (env.monotonic .retryAfter))))),
          fw.asked env req)
  | issued {tools : List ToolDefinition} {defn : ToolDefinition} {r : IntegrityResult}
      (hu : Unique req tools defn)
      (hv : IntegrityChecker.verify cfg.sha256 defn fw.db = .ok r) (hr : r.ok = true)
      (hb : (scanInput cfg req).blocked = false) (ha : (fw.askBreaker env req).1 = true) :
      ToolsExit ctx (.listing tools) (.ok none, fw.asked env req)

theorem pipelineTools_exit (ctx : Ctx) (reply : ToolsReply) :
    ToolsExit cfg env req fw ctx reply (fw.pipelineTools cfg env req ctx reply) := by
  unfold pipelineTools
  cases reply with
  | raised => exact .listingRaised
  | listing tools =>
      simp only
      split
      · exact .unlisted
      · exact .duplicated
      · rename_i defn hu
        split
        · exact .checkRaised
        · rename_i r hv
          have hv' := Env.attempt_eq_ok hv
          split
          · rename_i hr
            exact .mismatched hu hv' (by simpa using hr)
          · rename_i hr
            have hr' : r.ok = true := by simpa using hr
            split
            · exact .checkRaised
            · rename_i scanIn hs
              obtain rfl : scanIn = scanInput cfg req :=
                (Except.ok.inj (Env.attempt_eq_ok hs)).symm
              split
              · rename_i hb
                exact .inputBlocked hu hv' hr' (Env.fault_of_attempt_ok hs) hb
              · rename_i hb
                have hb' : (scanInput cfg req).blocked = false := by simpa using hb
                split
                · exact .checkRaised
                · split
                  · rename_i ha
                    have ha' : (fw.askBreaker env req).1 = false := by simpa [askBreaker] using ha
                    split
                    · exact .waitRaised ha'
                    · exact .circuitOpen ha'
                  · rename_i ha
                    exact .issued hu hv' hr' hb' (by simpa [askBreaker] using ha)

/-- Everything the second segment has checked of a call it issues: the
listing against the pin, the arguments, and the breaker. -/
structure Forwarded (tools : List ToolDefinition) : Prop where
  defn : ∃ d, Unique req tools d ∧ fw.db.pinned req.tool = some (fingerprint cfg.sha256 d)
  input : (scanInput cfg req).findings = []
  breaker : (fw.askBreaker env req).1 = true

theorem Unique.name {tools : List ToolDefinition} {defn : ToolDefinition}
    (h : Unique req tools defn) : defn.name = req.tool := by
  have hmem : defn ∈ tools.filter fun t => t.name = req.tool := by
    rw [show tools.filter (fun t => t.name = req.tool) = [defn] from h]
    exact List.mem_singleton_self defn
  simpa using (List.mem_filter.mp hmem).2

theorem forwarded_of_tools {ctx : Ctx} {reply : ToolsReply} {fw' : Firewall}
    (h : fw.pipelineTools cfg env req ctx reply = (.ok none, fw')) :
    ∃ tools, reply = .listing tools ∧ Forwarded cfg env req fw tools := by
  have hexit := pipelineTools_exit cfg env req fw ctx reply
  rw [h] at hexit
  cases hexit with
  | issued hu hv hr hb ha =>
      refine ⟨_, rfl, ⟨_, hu, ?_⟩, ?_, ha⟩
      · rw [← hu.name]
        exact pinned_of_verify hv hr
      · simpa [ScanResult.blocked] using hb

theorem pipelineTools_db (ctx : Ctx) (reply : ToolsReply) :
    (fw.pipelineTools cfg env req ctx reply).2.db = fw.db := by
  have hexit := pipelineTools_exit cfg env req fw ctx reply
  generalize fw.pipelineTools cfg env req ctx reply = out at hexit ⊢
  cases hexit <;> rfl

/-! ## After `call_tool` -/

/-- The scan of a response. -/
def scanOutput (r : ToolResponse) : ScanResult :=
  cfg.scanner.scanValue .output (.str r.text) (str "response")

/-- The result of a request that went all the way. -/
def allow (ctx : Ctx) (r : ToolResponse) : GatewayResult where
  decision := .allow
  stage := .allowed
  reason := if r.isError then str "allowed (tool reported an error)" else str "allowed"
  tool := req.tool
  userId := ctx.userId
  role := ctx.role
  risk := ctx.risk
  response := some r

/-- The firewall once a failed call is recorded. -/
def failed : Firewall :=
  fw.recordOutcome req.tool (·.recordFailure (env.monotonic .recordOutcome))

/-- The firewall once a response is recorded. -/
def answered (r : ToolResponse) : Firewall :=
  if r.isError then fw.failed env req else fw.recordOutcome req.tool (·.recordSuccess)

/-- The ways out of the last segment. -/
inductive ReplyExit (ctx : Ctx) :
    CallReply → Except Exc (Option GatewayResult) × Firewall → Prop where
  | recordRaised {reply : CallReply} {e : Exc} (hf : env.fault .recordOutcome = some e) :
      ReplyExit ctx reply (.error e, fw)
  | cancelled (hf : env.fault .recordOutcome = none) :
      ReplyExit ctx .cancelled (.ok none, fw.failed env req)
  | callFailed {reply : CallReply} (hr : reply = .raised ∨ reply = .timedOut)
      (hf : env.fault .recordOutcome = none) :
      ReplyExit ctx reply (.ok (some (deny req ctx .upstream (str "upstream call failed") none)),
        fw.failed env req)
  | scanRaised {r : ToolResponse} {e : Exc} (hf : env.fault .recordOutcome = none) :
      ReplyExit ctx (.response r) (.error e, fw.answered env req r)
  | outputBlocked {r : ToolResponse} (hf : env.fault .recordOutcome = none)
      (hb : (scanOutput cfg r).blocked = true) :
      ReplyExit ctx (.response r)
        (.ok (some (deny req ctx .outputScan (outputScanReason (scanOutput cfg r)) none)),
          fw.answered env req r)
  | allowed {r : ToolResponse} (hf : env.fault .recordOutcome = none)
      (hb : (scanOutput cfg r).blocked = false) :
      ReplyExit ctx (.response r) (.ok (some (allow req ctx r)), fw.answered env req r)

theorem pipelineReply_exit (ctx : Ctx) (reply : CallReply) :
    ReplyExit cfg env req fw ctx reply (fw.pipelineReply cfg env req ctx reply) := by
  unfold pipelineReply
  simp only
  split
  · rename_i e hf
    exact .recordRaised hf
  · rename_i hf
    cases reply with
    | cancelled => exact .cancelled hf
    | raised => exact .callFailed (.inl rfl) hf
    | timedOut => exact .callFailed (.inr rfl) hf
    | response r =>
        simp only
        split
        · exact .scanRaised hf
        · rename_i scanOut hs
          obtain rfl : scanOut = scanOutput cfg r := (Except.ok.inj (Env.attempt_eq_ok hs)).symm
          split
          · rename_i hb
            exact .outputBlocked hf hb
          · rename_i hb
            exact .allowed hf (by simpa using hb)

/-- Only a cancellation ends the pipeline without a result. -/
theorem cancelled_of_reply {ctx : Ctx} {reply : CallReply} {fw' : Firewall}
    (h : fw.pipelineReply cfg env req ctx reply = (.ok none, fw')) :
    reply = .cancelled ∧ env.fault .recordOutcome = none ∧ fw' = fw.failed env req := by
  have hexit := pipelineReply_exit cfg env req fw ctx reply
  rw [h] at hexit
  cases hexit with
  | cancelled hf => exact ⟨rfl, hf, rfl⟩

theorem answered_db (r : ToolResponse) : (fw.answered env req r).db = fw.db := by
  unfold answered
  split <;> rfl

theorem pipelineReply_db (ctx : Ctx) (reply : CallReply) :
    (fw.pipelineReply cfg env req ctx reply).2.db = fw.db := by
  have hexit := pipelineReply_exit cfg env req fw ctx reply
  generalize fw.pipelineReply cfg env req ctx reply = out at hexit ⊢
  cases hexit with
  | recordRaised hf => rfl
  | cancelled hf => rfl
  | callFailed hr hf => rfl
  | scanRaised hf => exact answered_db env req fw _
  | outputBlocked hf hb => exact answered_db env req fw _
  | allowed hf hb => exact answered_db env req fw _

/-! ## Sessions of the other entry points -/

/-- The ways out of `authenticate`. -/
inductive AuthExit (sessionId : Str) : Outcome UserSession → Prop where
  | noSession {e : Exc} (h : fw.lookup cfg env sessionId = .error e) :
      AuthExit sessionId { result := .error e, fw }
  | limiterRaised {session : UserSession} {e : Exc}
      (h : fw.lookup cfg env sessionId = .ok session) (hf : env.fault .limiter = some e) :
      AuthExit sessionId { result := .error e, fw }
  | limited {session : UserSession} (h : fw.lookup cfg env sessionId = .ok session)
      (hf : env.fault .limiter = none) (hl : (fw.limit env session.userId).1.allowed = false) :
      AuthExit sessionId
        { result := .error (.rateLimitExceeded (fw.limit env session.userId).1.retryAfter)
          fw := fw.counted env session.userId }
  | session {session : UserSession} (h : fw.lookup cfg env sessionId = .ok session)
      (hf : env.fault .limiter = none) (hl : (fw.limit env session.userId).1.allowed = true) :
      AuthExit sessionId { result := .ok session, fw := fw.counted env session.userId }

theorem authenticate_exit (sessionId : Str) :
    AuthExit cfg env fw sessionId (fw.authenticate cfg env sessionId) := by
  unfold authenticate
  split
  · rename_i e h
    exact .noSession h
  · rename_i session h
    split
    · rename_i e hf
      exact .limiterRaised h hf
    · rename_i hf
      simp only
      split
      · rename_i hl
        exact .limited h hf (by simpa [limit] using hl)
      · rename_i hl
        exact .session h hf (by simpa [limit] using hl)

/-- `authenticate` writes nothing. -/
theorem authenticate_silent (sessionId : Str) :
    (fw.authenticate cfg env sessionId).audits = [] ∧
      (fw.authenticate cfg env sessionId).fw.db = fw.db := by
  have hexit := authenticate_exit cfg env fw sessionId
  generalize fw.authenticate cfg env sessionId = out at hexit ⊢
  cases hexit <;> exact ⟨rfl, rfl⟩

/-- A session that `authenticate` returns is live. -/
theorem live_of_authenticate {sessionId : Str} {session : UserSession}
    (h : (fw.authenticate cfg env sessionId).result = .ok session) :
    Authenticator.Live cfg.sha256 (env.time .validate) sessionId fw.db session := by
  have hexit := authenticate_exit cfg env fw sessionId
  generalize fw.authenticate cfg env sessionId = out at hexit h
  cases hexit with
  | noSession hlook => cases h
  | limiterRaised hlook hf => cases h
  | limited hlook hf hl => cases h
  | session hlook hf hl =>
      cases h
      exact Authenticator.live_of_validate (Env.attempt_eq_ok hlook)

theorem requireManager_silent (sessionId : Str) :
    (fw.requireManager cfg env sessionId).audits = [] ∧
      (fw.requireManager cfg env sessionId).fw.db = fw.db := by
  have hsilent := authenticate_silent cfg env fw sessionId
  unfold requireManager
  generalize fw.authenticate cfg env sessionId = out at hsilent ⊢
  simp only
  split
  · exact hsilent
  · split
    · exact hsilent
    · split
      · exact hsilent
      · exact hsilent

theorem listStart_db (sessionId : Str) : (fw.listStart cfg env sessionId).fw.db = fw.db := by
  have hsilent := authenticate_silent cfg env fw sessionId
  unfold listStart
  generalize fw.authenticate cfg env sessionId = out at hsilent ⊢
  simp only
  split
  · exact hsilent.2
  · split
    · exact hsilent.2
    · exact hsilent.2

theorem listStart_ok {sessionId : Str} {session : UserSession} {manager : Bool}
    (h : (fw.listStart cfg env sessionId).result = .ok (session, manager)) :
    Authenticator.Live cfg.sha256 (env.time .validate) sessionId fw.db session ∧
      manager = Authorizer.canManage cfg.policy.roles session.role := by
  unfold listStart at h
  simp only at h
  split at h
  · cases h
  · rename_i session' hsession
    split at h
    · cases h
    · rename_i manager' hm
      cases h
      exact ⟨live_of_authenticate cfg env fw hsession,
        (Except.ok.inj (Env.attempt_eq_ok hm)).symm⟩

theorem approveStart_ok {approver : UserSession} (h : approveStart cfg env approver = .ok ()) :
    Authorizer.canManage cfg.policy.roles approver.role = true := by
  unfold approveStart at h
  split at h
  · cases h
  · rename_i manager hm
    rw [Except.ok.inj (Env.attempt_eq_ok hm)]
    split at h
    · cases h
    · rename_i hman
      simpa using hman

end

end Firewall

end AgenticFirewall
