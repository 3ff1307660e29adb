import AgenticFirewall.Firewall.Accounts
import AgenticFirewall.Handlers
import AgenticFirewall.Properties.Connections
import AgenticFirewall.Properties.Refusals

/-!
# Nothing for strangers

A response with status 200 is only sent to a caller whom the handler has
checked when the request arrived: the key of a login, the live session and
the room in its user's rate limit, the role where it needs one.
-/

namespace AgenticFirewall

open Py Transition

/-! ## What the checks of the gateway leave behind -/

namespace Firewall

variable {cfg : Config} {env : Env} {fw : Firewall} {sid : Str} {session : UserSession}

/-- A live session whose user has room left in the rate limit. -/
structure Entered (cfg : Config) (env : Env) (sid : Str) (fw : Firewall)
    (session : UserSession) : Prop where
  live : Authenticator.Live cfg.sha256 (env.time .validate) sid fw.db session
  limiter : (fw.limit env session.userId).1.allowed = true

theorem entered_of_authenticate (h : (fw.authenticate cfg env sid).result = .ok session) :
    Entered cfg env sid fw session := by
  obtain ⟨⟨-, hlive⟩, -, hroom⟩ := authenticate_eq_ok.mp h
  exact ⟨hlive, hroom⟩

theorem entered_of_requireManager (h : (fw.requireManager cfg env sid).result = .ok session) :
    Entered cfg env sid fw session ∧
      Authorizer.canManage cfg.policy.roles session.role = true := by
  unfold requireManager at h
  simp only at h
  split at h
  · rename_i e he
    rw [he] at h
    cases h
  · rename_i session' hauth
    split at h
    · cases h
    · rename_i manager hm
      obtain rfl := Except.ok.inj (Env.attempt_eq_ok hm)
      split at h
      · cases h
      · rename_i hmanager
        obtain rfl := Except.ok.inj (hauth.symm.trans h)
        exact ⟨entered_of_authenticate hauth, by simpa using hmanager⟩

theorem entered_of_listStart {manager : Bool}
    (h : (fw.listStart cfg env sid).result = .ok (session, manager)) :
    Entered cfg env sid fw session := by
  unfold listStart at h
  simp only at h
  split at h
  · cases h
  · rename_i session' hauth
    split at h
    · cases h
    · cases h
      exact entered_of_authenticate hauth

/-- The credentials of a login: the user's own key, given by a client that
has room left for another attempt. -/
structure Recognised (cfg : Config) (env : Env) (userId apiKey clientKey : Str)
    (fw : Firewall) : Prop where
  room : (fw.loginLimiter.check (env.monotonic .loginLimiter) clientKey).1.allowed = true
  key : ∃ uid user, uid.val = userId ∧ fw.db.users.get uid = some user ∧
    user.apiKeyHash.val = cfg.sha256.text apiKey

theorem recognised_of_login {token userId apiKey clientKey : Str} {p : Str × UserSession}
    (h : (fw.login cfg env token userId apiKey clientKey).result = .ok p) :
    Recognised cfg env userId apiKey clientKey fw := by
  unfold login at h
  split at h
  · cases h
  · simp only at h
    split at h
    · cases h
    · rename_i hroom
      split at h
      · cases h
      · cases h
      · rename_i sessionId session db hlogin
        obtain ⟨-, uid, user, huid, huser, hkey, -⟩ :=
          Authenticator.login_eq_ok.mp (Env.attempt_eq_ok hlogin)
        exact ⟨by simpa using hroom, uid, user, huid, huser, hkey⟩

end Firewall

namespace System

variable {cfg : Config} {s s' : System} {o : List Event} {env : Env}

/-- What `close` says last. -/
theorem getLast?_close_eq {α : Type} (id : Nat) (returned : α → Event) (out : Outcome α) :
    (close id returned out).getLast? = some (match out.result with
      | .ok a => returned a
      | .error e => .raised id e) :=
  List.getLast?_concat

end System

namespace Http

variable {app : App} {s s' : Server} {a : Action} {o : List Output} {req : Request}
  {events : List Event} {env env' : Env} {token : Str} {conn task : Nat}

/-! ## One request -/

/-- What has been checked of a request that is let through. -/
inductive Cleared (cfg : Config) (env : Env) (fw : Firewall) : Request → Prop where
  | health : Cleared cfg env fw .health
  | createSession {body : LoginBody} {client : Option Str}
      (h : Firewall.Recognised cfg env body.userId body.apiKey
        (client.getD (str "unknown")) fw) : Cleared cfg env fw (.createSession body client)
  | listTools {x : Option Str} {session : UserSession}
      (h : Firewall.Entered cfg env (sessionId x) fw session) : Cleared cfg env fw (.listTools x)
  | toolRequest {body : RequestBody} {x : Option Str} {session : UserSession}
      (h : Firewall.Admitted cfg env
        { sessionId := sessionId x, tool := body.tool, arguments := body.arguments } fw session) :
      Cleared cfg env fw (.toolRequest body x)
  | approveTools {body : ApproveBody} {x : Option Str} {session : UserSession}
      (h : Firewall.Entered cfg env (sessionId x) fw session)
      (hm : Authorizer.canManage cfg.policy.roles session.role = true) :
      Cleared cfg env fw (.approveTools body x)
  | getPolicies {x : Option Str} {session : UserSession}
      (h : Firewall.Entered cfg env (sessionId x) fw session)
      (hm : Authorizer.canManage cfg.policy.roles session.role = true) :
      Cleared cfg env fw (.getPolicies x)
  | getLogs {limit : LogLimit} {x : Option Str} {session : UserSession}
      (h : Firewall.Entered cfg env (sessionId x) fw session)
      (hm : Authorizer.canManage cfg.policy.roles session.role = true) :
      Cleared cfg env fw (.getLogs limit x)

/-- The handler goes on, or has its content to send. -/
def Verdict.Passes : Verdict → Prop
  | .awaits => True
  | .answers r => r.status = 200
  | .drops => False

section Verdicts

variable {cfg : Config} {fw : Firewall} {e : Exc} {id : Nat}

theorem raised_status (req : Request) (e : Exc) : (req.raised e).status ≠ 200 := by
  unfold Request.raised
  split
  · cases e <;> simp [httpError, serverError]
  · simp [serverError]

/-- Nobody passes whose call raised. -/
theorem not_passes_raised (h : events.getLast? = some (.raised id e)) :
    ¬ (req.verdict cfg fw token events).Passes := by
  unfold Request.verdict
  rw [h]
  exact raised_status req e

theorem render_status {r : Response} (h : (app.render r).status = 200) : r.status = 200 := by
  unfold App.render at h
  split at h
  · exact h
  · cases h

end Verdicts

theorem status_of_result {result : GatewayResult} (h : (ofResult result).status = 200) :
    result.decision = .allow := by
  cases hd : result.decision with
  | allow => rfl
  | deny =>
      rw [ofResult, hd] at h
      revert h
      cases result.stage <;> simp [statusByStage]

section Begin

variable {cfg : Config} {sys sys' : System} {fw : Firewall} {sid : Str} {act : Act}

/-- Most handlers make one call of the gateway. -/
theorem Begun.single (h : Begun cfg env env' token req sys sys' events)
    (hcall : req.call env token = some act) (hnext : ∀ e, req.next env' e = none) :
    System.step cfg sys act = some (sys', events) := by
  cases h with
  | idle hidle => cases hcall.symm.trans hidle
  | once honce h hnone =>
      obtain rfl := Option.some.inj (hcall.symm.trans honce)
      exact h
  | twice honce h hsome h' =>
      obtain ⟨e, -, he⟩ := List.exists_of_findSome?_eq_some hsome
      cases (hnext e).symm.trans he

/-- `require_manager` raises, or returns the session of a manager. -/
theorem manager_cases (h : System.step cfg sys (.requireManager env sid) = some (sys', events)) :
    (∃ e, events = [.raised sys.tasks.length e]) ∨
      ∃ session, events = [.session sys.tasks.length session] ∧
        Firewall.Entered cfg env sid sys.fw session ∧
        Authorizer.canManage cfg.policy.roles session.role = true := by
  cases h
  have hsilent := (Firewall.requireManager_silent cfg env sys.fw sid).1
  cases hresult : (sys.fw.requireManager cfg env sid).result with
  | error e => exact .inl ⟨e, by simp [System.close, hsilent, hresult]⟩
  | ok session =>
      obtain ⟨hentered, hmanager⟩ := Firewall.entered_of_requireManager hresult
      exact .inr ⟨session, by simp [System.close, hsilent, hresult], hentered, hmanager⟩

/-- A request for a tool that is let through is admitted: no first segment
returns an `ALLOW`. -/
theorem admitted_of_passes {treq : ToolRequest} {body : RequestBody} {x : Option Str}
    (h : System.step cfg sys (.handle env treq) = some (sys', events))
    (hv : ((Request.toolRequest body x).verdict cfg fw token events).Passes) :
    ∃ session, Firewall.Admitted cfg env treq sys.fw session := by
  rcases open_cases h rfl with ⟨e, hlast, hfinal⟩ | ⟨t, hstart, -⟩
  · have hmem := List.mem_of_getLast? hlast
    have hemits := System.step_emits h hmem
    cases e with
    | returned id result =>
        obtain ⟨env', req, ctx, y, fw', hend, rfl, -⟩ := System.step_returned h hmem
        have hstatus : (ofResult (Firewall.handleResult env' req ctx y)).status = 200 := by
          unfold Request.verdict at hv
          rw [hlast] at hv
          exact hv
        obtain ⟨reply, r, hact, -⟩ := hend.allowed (status_of_result hstatus)
        cases hact
    | audit id stored => cases hfinal
    | _ => cases hemits
  · cases hstart with
    | handle hadm => exact ⟨_, hadm⟩

/-- **Whoever is let through has been checked.** -/
theorem Begun.cleared (h : Begun cfg env env' token req sys sys' events)
    (hv : (req.verdict cfg fw token events).Passes) : Cleared cfg env sys.fw req := by
  have hraised : ∀ id e, events.getLast? ≠ some (.raised id e) :=
    fun id e hlast => not_passes_raised hlast hv
  cases req with
  | health => exact .health
  | createSession body client =>
      cases h.single rfl fun _ => rfl
      cases hresult : (sys.fw.login cfg env token body.userId body.apiKey
          (client.getD (str "unknown"))).result with
      | error e =>
          refine absurd ?_ (hraised sys.tasks.length e)
          rw [System.getLast?_close_eq, hresult]
      | ok p => exact .createSession (Firewall.recognised_of_login hresult)
  | listTools x =>
      have hstep := h.single rfl fun _ => rfl
      simp only [System.step] at hstep
      split at hstep
      · rename_i e herr
        cases hstep
        exact absurd rfl (hraised sys.tasks.length e)
      · rename_i session manager hok
        exact .listTools (Firewall.entered_of_listStart hok)
  | toolRequest body x =>
      obtain ⟨session, hadm⟩ := admitted_of_passes (h.single rfl fun _ => rfl) hv
      exact .toolRequest hadm
  | approveTools body x =>
      cases h with
      | idle hcall => cases hcall
      | once hcall h hnext =>
          cases hcall
          rcases manager_cases h with ⟨e, rfl⟩ | ⟨session, rfl, -, -⟩
          · exact absurd rfl (hraised _ e)
          · cases hnext
      | twice hcall h hnext h' =>
          cases hcall
          rcases manager_cases h with ⟨e, rfl⟩ | ⟨session, rfl, hentered, hmanager⟩
          · cases hnext
          · exact .approveTools hentered hmanager
  | getPolicies x =>
      rcases manager_cases (h.single rfl fun _ => rfl) with
        ⟨e, rfl⟩ | ⟨session, -, hentered, hmanager⟩
      · exact absurd rfl (hraised _ e)
      · exact .getPolicies hentered hmanager
  | getLogs limit x =>
      rcases manager_cases (h.single rfl fun _ => rfl) with
        ⟨e, rfl⟩ | ⟨session, -, hentered, hmanager⟩
      · exact absurd rfl (hraised _ e)
      · exact .getLogs hentered hmanager

end Begin

/-! ## Runs -/

section Runs

variable {as : List Action} {fw : Firewall} {c : Nat} {r : Response}

/-- Connection `c` of the run was cleared when its request arrived. -/
def ClearedOnArrival (app : App) (fw : Firewall) (as : List Action) (c : Nat)
    (req : Request) : Prop :=
  ∃ pre post env env' token s o, as = pre ++ .arrive req env env' token :: post ∧
    app.machine.run { sys := { fw } } pre = some (s, o) ∧ s.conns.length = c ∧
    Cleared app.cfg env s.sys.fw req

theorem ClearedOnArrival.extend (h : ClearedOnArrival app fw as c req) (a : Action) :
    ClearedOnArrival app fw (as ++ [a]) c req := by
  obtain ⟨pre, post, env, env', token, s, o, rfl, hrun, hlen, hcleared⟩ := h
  exact ⟨pre, post ++ [a], env, env', token, s, o, by simp, hrun, hlen, hcleared⟩

/-- What waits has been cleared, and what was sent with status 200. -/
structure Guarded (app : App) (fw : Firewall) (as : List Action) (s : Server)
    (o : List Output) : Prop where
  waiting : ∀ c task req, s.conns[c]? = some (.waiting task req) →
    ClearedOnArrival app fw as c req
  sent : ∀ c r, .sent c r ∈ o → r.status = 200 → ∃ req, ClearedOnArrival app fw as c req

/-- A new request that is let through has been checked in this step. -/
theorem clearedOnArrival_new {sys : System}
    (hrun : app.machine.run { sys := { fw } } as = some (s, o))
    (hbegun : Begun app.cfg env env' token req s.sys sys events)
    (hv : (req.verdict app.cfg sys.fw token events).Passes) :
    ClearedOnArrival app fw (as ++ [.arrive req env env' token]) s.conns.length req :=
  ⟨as, [], env, env', token, s, o, rfl, hrun, rfl, hbegun.cleared hv⟩

theorem guarded_step {out : List Output} (hi : Guarded app fw as s o)
    (hrun : app.machine.run { sys := { fw } } as = some (s, o)) (h : Step app s a s' out) :
    Guarded app fw (as ++ [a]) s' (o ++ out) := by
  have hsent : ∀ {c r}, .sent c r ∈ o → r.status = 200 →
      ∃ req, ClearedOnArrival app fw (as ++ [a]) c req := by
    intro c r hr hok
    obtain ⟨req, hcleared⟩ := hi.sent c r hr hok
    exact ⟨req, hcleared.extend a⟩
  cases h with
  | arrived hbegun hsettled =>
      refine ⟨fun c task req₁ hconn => ?_, fun c r hr hok => ?_⟩
      · rcases Nat.lt_trichotomy c s.conns.length with hlt | rfl | hgt
        · rw [List.getElem?_append_left hlt] at hconn
          exact (hi.waiting c task req₁ hconn).extend _
        · rw [List.getElem?_concat_length] at hconn
          cases hsettled with
          | awaits hv =>
              cases hconn
              exact clearedOnArrival_new hrun hbegun (by rw [hv]; trivial)
          | answers hv => cases hconn
          | drops hv => cases hconn
        · rw [List.getElem?_eq_none (by simpa [Nat.succ_le_iff] using hgt)] at hconn
          cases hconn
      · rcases List.mem_append.mp hr with hr | hr
        · exact hsent hr hok
        · obtain ⟨rfl, r', hv, rfl⟩ := hsettled.sent hr
          exact ⟨_, clearedOnArrival_new hrun hbegun (by rw [hv]; exact render_status hok)⟩
  | resumed hconn hact h hsettled =>
      rename_i conn task req act sys events conn'
      have hcleared := (hi.waiting conn task req hconn).extend a
      refine ⟨fun c task₁ req₁ hconn₁ => ?_, fun c r hr hok => ?_⟩
      · by_cases hc : c = conn
        · subst hc
          rw [List.getElem?_set_self (List.getElem?_eq_some_iff.mp hconn).1] at hconn₁
          cases hsettled with
          | awaits hv =>
              cases hconn₁
              exact hcleared
          | answers hv => cases hconn₁
          | drops hv => cases hconn₁
        · rw [List.getElem?_set_ne (Ne.symm hc)] at hconn₁
          exact (hi.waiting c task₁ req₁ hconn₁).extend a
      · rcases List.mem_append.mp hr with hr | hr
        · exact hsent hr hok
        · obtain ⟨rfl, -⟩ := hsettled.sent hr
          exact ⟨req, hcleared⟩
  | outside h =>
      refine ⟨fun c task req₁ hconn => (hi.waiting c task req₁ hconn).extend _,
        fun c r hr hok => ?_⟩
      rcases List.mem_append.mp hr with hr | hr
      · exact hsent hr hok
      · simp at hr

theorem run_guarded (h : app.machine.run { sys := { fw } } as = some (s, o)) :
    Guarded app fw as s o := by
  refine app.machine.run_history (motive := Guarded app fw) ⟨by simp, by simp⟩ ?_ h
  intro _ _ _ _ _ _ hrun hi hstep
  exact guarded_step hi hrun (step_step hstep)

/-- **Nothing for strangers.** In every run, a response with status 200
answers a request that was cleared when it arrived: the key of a login, the
live session of a user with room in the rate limit, and a manager's role for
approvals, the policy and the log. -/
theorem ok_only_if_cleared (h : app.machine.run { sys := { fw } } as = some (s, o))
    (hr : .sent c r ∈ o) (hok : r.status = 200) :
    ∃ req, (arrivals as)[c]? = some req ∧ ClearedOnArrival app fw as c req := by
  obtain ⟨req, hcleared⟩ := (run_guarded h).sent c r hr hok
  refine ⟨req, ?_, hcleared⟩
  obtain ⟨pre, post, env, env', token, s₁, o₁, rfl, hrun, rfl, -⟩ := hcleared
  rw [(run_orderly hrun).length]
  simp [arrivals, Action.request?]

end Runs

theorem ok_only_if_cleared_ada : ∃ req, (arrivals echoServed)[2]? = some req ∧
    ClearedOnArrival echoApp (.init echoConfig {}) echoServed 2 req := by
  obtain ⟨s, o, r, hrun, hmem, hstatus⟩ := echoServed_sends
  exact ok_only_if_cleared hrun hmem hstatus

end Http

end AgenticFirewall
