import AgenticFirewall.Properties.Connections
import AgenticFirewall.Properties.LimiterWait
import AgenticFirewall.Properties.Refusals

/-!
# What the HTTP layer sends

Every response of every run of the server, by endpoint: its status, its
body and its `Retry-After` header.
-/

namespace AgenticFirewall

open Py Transition

/-! ## The waits the gateway names -/

/-- A rejected caller always has to wait: the first hit that is left lies
after the cutoff. -/
theorem SlidingWindowRateLimiter.check_wait_pos {l : SlidingWindowRateLimiter} {now : ℚ}
    {key : Str} (h : (l.check now key).1.allowed = false) :
    0 < (l.check now key).1.retryAfter := by
  have hfull : l.maxRequests ≤ (l.liveHits now key).length := by
    rw [← not_lt, ← l.check_allowed_iff]
    simp [h]
  rw [l.check_result, if_pos hfull]
  cases hlive : l.liveHits now key with
  | nil =>
      rw [hlive] at hfull
      exact absurd (l.one_le.trans hfull) (by simp)
  | cons first rest =>
      have hfirst : ¬ first ≤ now - l.windowSeconds := by
        have hhead := List.head?_dropWhile_not (fun t : ℚ => decide (t ≤ now - l.windowSeconds))
          ((l.maybeSweep (now - l.windowSeconds)).deque key)
        rw [show List.dropWhile _ _ = first :: rest from hlive] at hhead
        simpa using hhead
      have hpos : 0 < first + l.windowSeconds - now := by linarith
      exact lt_max_of_lt_left hpos

/-- An exception that refuses a caller for a time that is already over. -/
def Exc.Idle (e : Exc) : Prop := ∃ wait, e = .rateLimitExceeded wait ∧ wait ≤ 0

theorem Exc.not_idle_other : ¬ Exc.other.Idle := by
  rintro ⟨wait, h, -⟩
  cases h

theorem Exc.Idle.refuses {e : Exc} (h : e.Idle) : e.refuses = true := by
  obtain ⟨wait, rfl, -⟩ := h
  rfl

theorem Env.Plain.not_idle {env : Env} (hp : env.Plain) :
    ∀ op e, env.fault op = some e → ¬ e.Idle := by
  intro op e hf hidle
  have hrefuses := hidle.refuses
  rw [hp op e hf] at hrefuses
  cases hrefuses

namespace Firewall

variable {cfg : Config} {env : Env} {fw : Firewall}

theorem authenticate_not_idle (hp : env.Plain) (sessionId : Str) :
    ¬ Raises Exc.Idle (fw.authenticate cfg env sessionId).result := by
  have hexit := authenticate_exit cfg env fw sessionId
  generalize fw.authenticate cfg env sessionId = out at hexit ⊢
  cases hexit with
  | noSession h =>
      have hvalid : ¬ Raises Exc.Idle (fw.lookup cfg env sessionId) := by
        refine not_raises_attempt hp.not_idle ?_
        rintro ⟨e, he, wait, rfl, -⟩
        rcases Authenticator.validate_cases cfg.sha256 (env.time .validate) sessionId fw.db with
          ⟨_, hok, -⟩ | ⟨_, herr⟩
        · cases he.symm.trans hok
        · cases he.symm.trans herr
      exact not_raises_again hvalid h
  | limiterRaised h hf => exact raises_error.not.mpr (hp.not_idle _ _ hf)
  | limited h hf hl =>
      refine raises_error.not.mpr ?_
      rintro ⟨wait, hwait, hle⟩
      cases hwait
      exact absurd hle (not_le.mpr (SlidingWindowRateLimiter.check_wait_pos hl))
  | session h hf hl => exact not_raises_ok _

theorem manage_not_idle (hp : env.Plain) (role msg : Str) {α : Type} (a : α) :
    ¬ Raises Exc.Idle (match env.attempt .canManage
        (.ok (Authorizer.canManage cfg.policy.roles role)) with
      | .error e => .error e
      | .ok manager => if !manager then .error (.permissionDenied msg) else .ok a) := by
  have hcheck : ¬ Raises Exc.Idle
      (env.attempt .canManage (.ok (Authorizer.canManage cfg.policy.roles role))) :=
    not_raises_attempt hp.not_idle (not_raises_ok _)
  split
  · rename_i e he
    exact not_raises_again hcheck he
  · split
    · refine raises_error.not.mpr ?_
      rintro ⟨wait, h, -⟩
      cases h
    · exact not_raises_ok _

theorem requireManager_not_idle (hp : env.Plain) (sessionId : Str) :
    ¬ Raises Exc.Idle (fw.requireManager cfg env sessionId).result := by
  have hauth := @authenticate_not_idle cfg env fw hp sessionId
  cases hresult : (fw.authenticate cfg env sessionId).result with
  | error e =>
      have hsame : (fw.requireManager cfg env sessionId).result =
          (fw.authenticate cfg env sessionId).result := by
        simp only [requireManager, hresult]
      rwa [hsame]
  | ok session =>
      have hmanage := @manage_not_idle cfg env hp session.role
        (str "this action requires a manager role") _ session
      simp only [requireManager, hresult]
      revert hmanage
      cases env.attempt .canManage
          (.ok (Authorizer.canManage cfg.policy.roles session.role)) with
      | error e => exact fun h => h
      | ok manager =>
          cases manager with
          | false => exact fun h => h
          | true =>
              intro _
              simp only [Bool.not_true, Bool.false_eq_true, if_false, hresult]
              exact not_raises_ok _

theorem listStart_not_idle (hp : env.Plain) (sessionId : Str) :
    ¬ Raises Exc.Idle (fw.listStart cfg env sessionId).result := by
  have hauth := @authenticate_not_idle cfg env fw hp sessionId
  have hmanage : ∀ role, ¬ Raises Exc.Idle
      (env.attempt .canManage (.ok (Authorizer.canManage cfg.policy.roles role))) :=
    fun _ => not_raises_attempt hp.not_idle (not_raises_ok _)
  unfold listStart
  simp only
  split
  · rename_i e he
    exact not_raises_again hauth he
  · split
    · rename_i e he
      exact not_raises_again (hmanage _) he
    · exact not_raises_ok _

theorem login_not_idle (hp : env.Plain) (token userId apiKey clientKey : Str) :
    ¬ Raises Exc.Idle (fw.login cfg env token userId apiKey clientKey).result := by
  have hlogin : ¬ Raises Exc.Idle (env.attempt .login (Authenticator.login cfg.sha256
      cfg.policy.sessionTtlSeconds (env.time .login) token userId apiKey fw.db)) := by
    refine not_raises_attempt hp.not_idle (not_raises_login Exc.not_idle_other ?_ _ _ _ _ _)
    rintro msg ⟨wait, h, -⟩
    cases h
  unfold login
  split
  · rename_i e hf
    exact raises_error.not.mpr (hp.not_idle _ _ hf)
  · simp only
    split
    · rename_i hlimited
      refine raises_error.not.mpr ?_
      rintro ⟨wait, hwait, hle⟩
      cases hwait
      exact absurd hle (not_le.mpr
        (SlidingWindowRateLimiter.check_wait_pos (by simpa using hlimited)))
    · split
      · rename_i he
        exact not_raises_again hlogin he
      · rename_i he
        exact not_raises_again hlogin he
      · exact not_raises_ok _

end Firewall

namespace System

variable {cfg : Config} {s s' : System} {a : Act} {o : List Event} {id : Nat} {env : Env}
  {req : ToolRequest} {ctx : Ctx} {x : Except Exc GatewayResult} {fw : Firewall}

/-- No exception that ends a call sends the caller away for no time. -/
theorem RaisedBy.not_idle {e : Exc} (h : RaisedBy cfg s a e)
    (hp : ∀ env, a.RunsIn env → env.Plain) : ¬ e.Idle := by
  cases h with
  | approveStart herr =>
      rename_i env approver names
      have hstart : ¬ Raises Exc.Idle (Firewall.approveStart cfg env approver) :=
        Firewall.manage_not_idle (hp env rfl) approver.role _ ()
      exact fun hidle => hstart ⟨e, herr, hidle⟩
  | approveTools herr =>
      intro hidle
      exact not_refuses_approveTools (fun i => hp _ ⟨i, rfl⟩) _ _ _ ⟨e, herr, hidle.refuses⟩
  | listStart herr => exact fun hidle => Firewall.listStart_not_idle (hp _ rfl) _ ⟨e, herr, hidle⟩
  | listTools herr =>
      intro hidle
      exact not_refuses_listTools (fun i => hp _ ⟨i, rfl⟩) _ _ _ ⟨e, herr, hidle.refuses⟩
  | requireManager herr =>
      exact fun hidle => Firewall.requireManager_not_idle (hp _ rfl) _ ⟨e, herr, hidle⟩
  | login herr =>
      exact fun hidle => Firewall.login_not_idle (hp _ rfl) _ _ _ _ ⟨e, herr, hidle⟩

end System

namespace Http

/-! ## One response -/

/-- What an endpoint sends with status 200. -/
inductive Content (cfg : Config) : Request → Body → Prop where
  | health : Content cfg .health (.status (str "ok"))
  | createSession {body : LoginBody} {client : Option Str} {token userId role : Str}
      {expiresAt : ℚ} :
      Content cfg (.createSession body client) (.session token userId role expiresAt)
  | listTools {x : Option Str} {infos : List ToolInfo} :
      Content cfg (.listTools x) (.tools infos)
  | approveTools {body : ApproveBody} {x : Option Str} {outcomes : List ApprovalOutcome} :
      Content cfg (.approveTools body x) (.outcomes outcomes)
  | toolRequest {body : RequestBody} {x : Option Str} {result : GatewayResult}
      (h : result.decision = .allow) (hr : result.response.isSome = true) :
      Content cfg (.toolRequest body x) (.result result)
  | getPolicies {x : Option Str} : Content cfg (.getPolicies x) (.policy cfg.policy)
  | getLogs {limit : LogLimit} {x : Option Str} {events : List SecurityEvent} :
      Content cfg (.getLogs limit x) (.logs events)

/-- A tool request is answered with the gateway's decision: 200 for `ALLOW`,
else what the table of statuses has for its stage, and the upstream's
response in the former case alone. -/
structure Decided (result : GatewayResult) (r : Response) : Prop where
  body : r.body = .result result
  allowed : r.status = 200 ↔ result.decision = .allow
  shown : result.response.isSome = true ↔ r.status = 200
  denied : result.decision = .deny → statusByStage result.stage = some r.status

/-- What any response must be. -/
structure Proper (app : App) (events : List Event) (req : Request) (r : Response) : Prop where
  status : r.status ∈ [200, 400, 401, 403, 429, 500, 502, 503]
  content : r.status = 200 → Content app.cfg req r.body
  limited : r.status = 429 → ∃ n : Int, r.retryAfter = some n ∧ 1 ≤ n
  wait : r.retryAfter.isSome = true → r.status = 429 ∨ r.status = 503
  /-- the server's own error takes the place of a result it cannot render -/
  decided : ∀ body x, req = .toolRequest body x → ∃ id result, .returned id result ∈ events ∧
    (Decided result r ∨ r = serverError ∧ app.renders (.result result) = false)

section Response

variable {app : App} {events : List Event} {req : Request} {r : Response} {id : Nat}
  {result : GatewayResult} {e : Exc}

/-- The server's own error is proper where it can be explained. -/
theorem serverError_proper (hdecided : ∀ body x, req = .toolRequest body x → ∃ id result,
    .returned id result ∈ events ∧ app.renders (.result result) = false) :
    Proper app events req serverError where
  status := by simp [serverError]
  content h := by cases h
  limited h := by cases h
  wait h := by cases h
  decided body x heq := by
    obtain ⟨id, result, hmem, hrenders⟩ := hdecided body x heq
    exact ⟨id, result, hmem, .inr ⟨rfl, hrenders⟩⟩

theorem Proper.render (h : Proper app events req r) : Proper app events req (app.render r) := by
  unfold App.render
  split
  · exact h
  · rename_i hrenders
    refine serverError_proper fun body x heq => ?_
    obtain ⟨id, result, hmem, hdecided | ⟨rfl, hnot⟩⟩ := h.decided body x heq
    · rw [hdecided.body] at hrenders
      exact ⟨id, result, hmem, Bool.not_eq_true _ ▸ hrenders⟩
    · exact ⟨id, result, hmem, hnot⟩

theorem Proper.mono (h : Proper app events req r) {more : List Event} (hsub : events ⊆ more) :
    Proper app more req r where
  status := h.status
  content := h.content
  limited := h.limited
  wait := h.wait
  decided body x heq := by
    obtain ⟨id, result, hmem, hdecided⟩ := h.decided body x heq
    exact ⟨id, result, hsub hmem, hdecided⟩

end Response

section Steps

variable {app : App} {s s' : Server} {a : Action} {o : List Output} {req : Request}
  {events : List Event} {env env' : Env} {token : Str} {conn task : Nat} {act : Act} {e : Event}

/-! ## One step -/

/-- The request a step answers or goes on with. -/
inductive Serves (s : Server) : Action → Nat → Request → Prop where
  | arrived {req : Request} {env env' : Env} {token : Str} :
      Serves s (.arrive req env env' token) s.conns.length req
  | resumed {a : Action} {c task : Nat} {req : Request}
      (hconn : s.conns[c]? = some (.waiting task req)) : Serves s a c req

end Steps

/-! ## Runs -/

end Http

end AgenticFirewall
