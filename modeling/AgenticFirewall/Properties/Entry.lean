import AgenticFirewall.Firewall.Accounts
import AgenticFirewall.Properties.Poisoning
import AgenticFirewall.Properties.SlidingLimit

/-!
# What a request reads

A request reads the accounts and the limiter when it enters, and the pins
when it is let on. Two firewalls that agree on these decide it alike up to
its input scan, whatever else they hold.
-/

namespace AgenticFirewall

open Py Transition

/-- A stage up to the input scan, at which `handle` can deny. -/
def Stage.early : Stage → Bool
  | .authentication | .rateLimit | .validation | .authorization | .integrity | .inputScan => true
  | _ => false

theorem Authenticator.validate_congr {db db' : Database} (h : Sha256) (hsame : SameAccounts db db')
    (now : ℚ) (sessionId : Str) : validate h now sessionId db' = validate h now sessionId db := by
  simp only [validate, getSession_eq, hsame.1, hsame.2]

theorem IntegrityChecker.verify_congr {db db' : Database} (h : Sha256)
    (hpins : db'.toolFingerprints = db.toolFingerprints) (d : ToolDefinition) :
    verify h d db' = verify h d db := by
  simp only [verify, approvedFingerprint, Database.getFingerprint, hpins]

namespace Firewall

variable {cfg : Config} {env : Env} {req : ToolRequest} {ctx : Ctx} {fw fw' : Firewall}

theorem lookup_congr (hsame : SameAccounts fw.db fw'.db) (sessionId : Str) :
    fw'.lookup cfg env sessionId = fw.lookup cfg env sessionId := by
  unfold lookup
  rw [Authenticator.validate_congr _ hsame]

/-- The call of the limiter a request with the session id leads to. -/
def reading (cfg : Config) (env : Env) (sessionId : Str) (fw : Firewall) : Option Check :=
  match fw.lookup cfg env sessionId with
  | .error _ => none
  | .ok session =>
      match env.fault .limiter with
      | some _ => none
      | none => some ⟨session.userId, env.monotonic .limiter⟩

theorem reading_congr (hsame : SameAccounts fw.db fw'.db) (sessionId : Str) :
    fw'.reading cfg env sessionId = fw.reading cfg env sessionId := by
  unfold reading
  rw [lookup_congr hsame]

/-- A limiter is called for the user of a live session. -/
theorem reading_eq_some {sessionId : Str} {c : Check}
    (h : fw.reading cfg env sessionId = some c) :
    ∃ session, Authenticator.Live cfg.sha256 (env.time .validate) sessionId fw.db session ∧
      c.key = session.userId := by
  unfold reading at h
  split at h
  · cases h
  · rename_i session hlook
    split at h
    · cases h
    · cases h
      exact ⟨session, Authenticator.live_of_validate (Env.attempt_eq_ok hlook), rfl⟩

theorem authenticate_limiter (sessionId : Str) :
    (fw.authenticate cfg env sessionId).fw.limiter =
      fw.limiter.after (fw.reading cfg env sessionId).toList := by
  have hexit := authenticate_exit cfg env fw sessionId
  unfold reading
  generalize fw.authenticate cfg env sessionId = out at hexit ⊢
  cases hexit with
  | noSession h =>
      rw [h]
      rfl
  | limiterRaised h hf =>
      rw [h, hf]
      rfl
  | limited h hf hl =>
      rw [h, hf]
      rfl
  | session h hf hl =>
      rw [h, hf]
      rfl

theorem pipelineStart_limiter :
    (fw.pipelineStart cfg env req).2.2.limiter =
      fw.limiter.after (fw.reading cfg env req.sessionId).toList := by
  unfold reading lookup pipelineStart
  split
  · rename_i h
    rw [h]
    rfl
  · rename_i h
    rw [h]
    rfl
  · rename_i session h
    rw [h]
    cases hf : env.fault .limiter with
    | some e => rfl
    | none =>
        simp only
        split
        · rfl
        · split
          · rfl
          · split
            · rfl
            · split
              · rfl
              · split
                · rfl
                · rfl

/-! ## The first segment -/

/-- Two firewalls that look up the session alike, and whose limiters answer
the call alike, end the first segment alike. -/
theorem pipelineStart_congr
    (hlook : fw'.lookup cfg env req.sessionId = fw.lookup cfg env req.sessionId)
    (hcheck : ∀ c, fw.reading cfg env req.sessionId = some c →
      (fw'.limiter.check c.now c.key).1 = (fw.limiter.check c.now c.key).1)
    (hmax : fw'.limiter.maxRequests = fw.limiter.maxRequests)
    (hwindow : fw'.limiter.windowSeconds = fw.limiter.windowSeconds) :
    (fw'.pipelineStart cfg env req).1 = (fw.pipelineStart cfg env req).1 ∧
      (fw'.pipelineStart cfg env req).2.1 = (fw.pipelineStart cfg env req).2.1 := by
  unfold lookup at hlook
  unfold reading lookup at hcheck
  unfold pipelineStart
  rw [hlook]
  cases hsession : env.attempt .validate
      (Authenticator.validate cfg.sha256 (env.time .validate) req.sessionId fw.db) with
  | error e =>
      cases e with
      | _ => exact ⟨rfl, rfl⟩
  | ok session =>
      rw [hsession] at hcheck
      cases hf : env.fault .limiter with
      | some e => exact ⟨rfl, rfl⟩
      | none =>
          rw [hf] at hcheck
          have hsame := hcheck _ rfl
          simp only at hsame
          -- the reason of a denial shows the limits, not the limiter's contents
          simp only [hsame, rateLimitReason, SlidingWindowRateLimiter.check_maxRequests,
            SlidingWindowRateLimiter.check_windowSeconds, hmax, hwindow]
          split
          · exact ⟨rfl, rfl⟩
          · split
            · exact ⟨rfl, rfl⟩
            · split
              · exact ⟨rfl, rfl⟩
              · split
                · exact ⟨rfl, rfl⟩
                · split
                  · exact ⟨rfl, rfl⟩
                  · exact ⟨rfl, rfl⟩

/-! ## The second segment -/

/-- The checks before the breaker: how they end the request, or `none` when
it passes them all. -/
def inspect (cfg : Config) (env : Env) (req : ToolRequest) (ctx : Ctx) (reply : ToolsReply)
    (fw : Firewall) : Option (Except Exc GatewayResult) :=
  match reply with
  | .raised =>
      some (.ok (deny req ctx .upstream
        (str "could not verify tool definition with upstream") none))
  | .listing tools =>
      match tools.filter fun t => t.name = req.tool with
      | [] =>
          some (.ok (deny req ctx .integrity
            (str "tool is not exposed by the upstream server") none))
      | _ :: _ :: _ =>
          some (.ok (deny req ctx .integrity
            (str "upstream exposes duplicate definitions for this tool") none))
      | [defn] =>
          match env.attempt .verify (IntegrityChecker.verify cfg.sha256 defn fw.db) with
          | .error e => some (.error e)
          | .ok integrity =>
              if !integrity.ok then some (.ok (deny req ctx .integrity integrity.reason none))
              else
                match env.attempt .inputScan (.ok (scanInput cfg req)) with
                | .error e => some (.error e)
                | .ok scanIn =>
                    if scanIn.blocked then
                      some (.ok (deny req ctx .inputScan (inputScanReason scanIn) none))
                    else none

/-- The breaker, for a request that has passed the checks before it. -/
def forward (env : Env) (req : ToolRequest) (ctx : Ctx) (fw : Firewall) :
    Except Exc (Option GatewayResult) × Firewall :=
  match env.fault .breakerAllow with
  | some e => (.error e, fw)
  | none =>
      if !(fw.askBreaker env req).1 then
        match env.fault .retryAfter with
        | some e => (.error e, fw.asked env req)
        | none =>
            (.ok (some (deny req ctx .circuitBreaker
              (circuitOpenReason req.tool
                ((fw.askBreaker env req).2.retryAfter (env.monotonic .retryAfterReason)))
              (some ((fw.askBreaker env req).2.retryAfter (env.monotonic .retryAfter))))),
              fw.asked env req)
      else (.ok none, fw.asked env req)

/-- The second segment is the checks and then the breaker. -/
theorem pipelineTools_eq (reply : ToolsReply) :
    fw.pipelineTools cfg env req ctx reply =
      match fw.inspect cfg env req ctx reply with
      | some (.ok result) => (.ok (some result), fw)
      | some (.error e) => (.error e, fw)
      | none => fw.forward env req ctx := by
  unfold pipelineTools inspect
  cases reply with
  | raised => rfl
  | listing tools =>
      simp only [scanInput]
      generalize (tools.filter fun t => t.name = req.tool) = found
      rcases found with _ | ⟨defn, _ | ⟨second, rest⟩⟩
      · rfl
      · simp only
        generalize env.attempt .verify (IntegrityChecker.verify cfg.sha256 defn fw.db) = verified
        cases verified with
        | error e => rfl
        | ok integrity =>
            simp only
            by_cases hok : (!integrity.ok) = true
            · simp only [if_pos hok]
            · simp only [if_neg hok]
              generalize env.attempt .inputScan (.ok (cfg.scanner.scanValue .input
                req.arguments.toValue (str "arguments"))) = scanned
              cases scanned with
              | error e => rfl
              | ok scanIn =>
                  simp only
                  by_cases hb : scanIn.blocked = true
                  · simp only [if_pos hb]
                  · simp only [if_neg hb]
                    rfl
      · rfl

theorem inspect_congr (hpins : fw'.db.toolFingerprints = fw.db.toolFingerprints)
    (reply : ToolsReply) :
    fw'.inspect cfg env req ctx reply = fw.inspect cfg env req ctx reply := by
  unfold inspect
  simp only [IntegrityChecker.verify_congr cfg.sha256 hpins]

/-- The pipeline does not end with a denial at an early stage. -/
def NotEarly (x : Except Exc (Option GatewayResult)) : Prop :=
  ∀ result, x = .ok (some result) → result.stage.early = false

theorem notEarly_error (e : Exc) : NotEarly (.error e) := by
  intro result h
  cases h

theorem notEarly_none : NotEarly (.ok none) := by
  intro result h
  cases h

theorem notEarly_some {result : GatewayResult} (h : result.stage.early = false) :
    NotEarly (.ok (some result)) := by
  intro result' heq
  cases heq
  exact h

theorem forward_notEarly : NotEarly (fw.forward env req ctx).1 := by
  unfold forward
  split
  · exact notEarly_error _
  · split
    · split
      · exact notEarly_error _
      · exact notEarly_some rfl
    · exact notEarly_none

theorem pipelineReply_notEarly (reply : CallReply) :
    NotEarly (fw.pipelineReply cfg env req ctx reply).1 := by
  have hexit := pipelineReply_exit cfg env req fw ctx reply
  generalize fw.pipelineReply cfg env req ctx reply = out at hexit ⊢
  cases hexit with
  | recordRaised hf => exact notEarly_error _
  | cancelled hf => exact notEarly_none
  | callFailed hr hf => exact notEarly_some rfl
  | scanRaised hf => exact notEarly_error _
  | outputBlocked hf hb => exact notEarly_some rfl
  | allowed hf hb => exact notEarly_some rfl

end Firewall

/-! ## Steps of requests -/

/-- The action is one of a `handle`, `list_tools` or `require_manager`
request. -/
def Act.isRequest : Act → Bool
  | .handle .. | .handleTools .. | .handleReply .. | .list .. | .listTools .. => true
  | .cancel _ | .requireManager .. => true
  | _ => false

/-- The session id a request enters with, and in which environment. -/
def Act.entry : Act → Option (Env × Str)
  | .handle env req => some (env, req.sessionId)
  | .list env sessionId => some (env, sessionId)
  | .requireManager env sessionId => some (env, sessionId)
  | _ => none

/-- The call of the limiter the action leads to. -/
def Act.check (cfg : Config) (fw : Firewall) (a : Act) : Option Check :=
  a.entry.bind fun p => fw.reading cfg p.1 p.2

namespace System

variable {cfg : Config} {s s' : System} {a : Act} {o : List Event} {id : Nat}

/-- A request changes neither the accounts nor the pins. -/
theorem step_tables (h : step cfg s a = some (s', o)) (ha : a.isRequest = true) :
    SameAccounts s.fw.db s'.fw.db ∧ s'.fw.db.toolFingerprints = s.fw.db.toolFingerprints := by
  refine ⟨step_accounts h ?_, ?_⟩
  · cases a <;> simp_all [Act.isRequest, Act.changesAccounts]
  · rcases step_pins h with hsame | ⟨tools, ⟨id, envs, approver, names, rfl, htask⟩, hpins⟩
    · exact hsame
    · cases ha

/-- Only an entry touches the limiter. -/
theorem step_limiter (h : step cfg s a = some (s', o)) (ha : a.isRequest = true) :
    s'.fw.limiter = s.fw.limiter.after (a.check cfg s.fw).toList := by
  have hsegment : s'.fw.limiter = (segment cfg s a).limiter := by rw [step_segment h]
  rw [hsegment]
  cases a with
  | handle env req => exact Firewall.pipelineStart_limiter
  | handleTools id env reply =>
      simp only [segment]
      split
      · rw [Firewall.pipelineTools_frame]
        rfl
      · rfl
  | handleReply id env reply =>
      simp only [segment]
      split
      · rw [Firewall.pipelineReply_frame]
        rfl
      · rfl
  | list env sessionId => exact Firewall.authenticate_limiter sessionId
  | listTools id envs reply => rfl
  | cancel id => rfl
  | requireManager env sessionId => exact Firewall.authenticate_limiter sessionId
  | _ => cases ha

end System

end AgenticFirewall
