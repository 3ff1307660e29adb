import AgenticFirewall.Properties.AuditRows

/-!
# Refusals without a record

Besides `handle`, the entry points refuse a caller by raising. `login`
records its two refusals first; `authenticate`, `require_manager` and the
permission check of `approve_tools` raise and record nothing.
-/

namespace AgenticFirewall

open Py Transition

/-- The exceptions that refuse a caller. -/
def Exc.refuses : Exc → Bool
  | .authError _ | .rateLimitExceeded _ | .permissionDenied _ => true
  | .valueError _ | .other => false

/-- No component raises a refusal on its own account. -/
def Env.Plain (env : Env) : Prop := ∀ op e, env.fault op = some e → e.refuses = false

/-- The reason `login` records before it raises the exception. -/
def Exc.loginReason : Exc → Str
  | .rateLimitExceeded _ => str "too many login attempts"
  | _ => str "invalid credentials"

/-- The record of a login of the user that was refused with the exception. -/
structure SecurityEvent.Refusal (userId : Str) (e : Exc) (event : SecurityEvent) : Prop where
  decision : event.decision = .deny
  stage : event.stage = Stage.login.text
  reason : event.reason = e.loginReason
  userId : event.userId = some (sanitize userId)

/-- The computation refuses the caller. -/
abbrev Refuses {α : Type} (x : Except Exc α) : Prop := Raises (fun e => e.refuses = true) x

/-! ## What the components raise -/

section Components

variable {p : Exc → Prop} {env : Env} {op : Op} {h : Sha256} {db : Database} {fw : Firewall}

/-- An operation raises what its environment does not only if it ran. -/
theorem raises_attempt {α : Type} {x : Except Exc α} (hp : ∀ op e, env.fault op = some e → ¬ p e)
    (hr : Raises p (env.attempt op x)) : env.fault op = none ∧ Raises p x := by
  unfold Env.attempt at hr
  split at hr
  · rename_i e hf
    exact absurd (raises_error.mp hr) (hp op e hf)
  · rename_i hf
    exact ⟨hf, hr⟩

theorem not_raises_attempt {α : Type} {x : Except Exc α}
    (hp : ∀ op e, env.fault op = some e → ¬ p e) (hx : ¬ Raises p x) :
    ¬ Raises p (env.attempt op x) :=
  fun hr => hx (raises_attempt hp hr).2

/-! The database raises `other` alone: a text it cannot bind, a constraint. -/

variable (ho : ¬ p .other)

include ho

theorem not_raises_bindText (s : Str) : ¬ Raises p (bindText s) := by
  unfold bindText
  split
  · exact not_raises_ok _
  · exact raises_error.not.mpr ho

theorem not_raises_bindOptText (s : Option Str) : ¬ Raises p (bindOptText s) := by
  cases s with
  | none => exact not_raises_ok _
  | some s => exact not_raises_map (not_raises_bindText ho s)

theorem not_raises_approvedFingerprint (name : Str) :
    ¬ Raises p (IntegrityChecker.approvedFingerprint name db) := by
  refine not_raises_bind ?_ fun _ => not_raises_ok _
  exact not_raises_bind (not_raises_bindText ho _) fun _ => not_raises_ok _

theorem not_raises_verify (d : ToolDefinition) : ¬ Raises p (IntegrityChecker.verify h d db) := by
  refine not_raises_bind (not_raises_approvedFingerprint ho _) fun stored => ?_
  cases stored with
  | none => exact not_raises_ok _
  | some fp =>
      simp only
      split
      · exact not_raises_ok _
      · exact not_raises_ok _

theorem not_raises_approve (now : ℚ) (d : ToolDefinition) (approver : Option Str) :
    ¬ Raises p (IntegrityChecker.approve h now d approver db) := by
  refine not_raises_bind ?_ fun _ => not_raises_ok _
  refine not_raises_bind (not_raises_bindText ho _) fun _ => ?_
  refine not_raises_bind (not_raises_bindText ho _) fun _ => ?_
  exact not_raises_bind (not_raises_bindOptText ho _) fun _ => not_raises_ok _

theorem not_raises_createSession (sessionHash userId : Str) (createdAt expiresAt : ℚ) :
    ¬ Raises p (db.createSession sessionHash userId createdAt expiresAt) := by
  refine not_raises_bind (not_raises_bindText ho _) fun _ => ?_
  refine not_raises_bind (not_raises_bindText ho _) fun _ => ?_
  split
  · exact not_raises_ok _
  · exact raises_error.not.mpr ho

/-- A login raises `AuthError` and what the database raises. -/
theorem not_raises_login (ha : ∀ msg, ¬ p (.authError msg)) (ttl : Nat) (now : ℚ)
    (token userId apiKey : Str) :
    ¬ Raises p (Authenticator.login h ttl now token userId apiKey db) := by
  unfold Authenticator.login
  by_cases hvalid : validUserId userId = true
  · simp only [hvalid, if_true]
    refine not_raises_bind ?_ fun row => ?_
    · exact not_raises_bind (not_raises_bindText ho _) fun _ => not_raises_ok _
    · split
      · exact raises_error.not.mpr (ha _)
      · split
        · exact not_raises_bind (not_raises_createSession ho _ _ _ _) fun _ => not_raises_ok _
        · exact raises_error.not.mpr (ha _)
  · simp only [hvalid]
    exact raises_error.not.mpr (ha _)

theorem not_raises_record (hp : ∀ op e, env.fault op = some e → ¬ p e) (e : SecurityEvent) :
    ¬ Raises p (fw.record env e) := by
  have hrec : ¬ Raises p (env.attempt .audit (AuditLog.record (env.time .audit) e fw.db)) := by
    refine not_raises_attempt hp (not_raises_bind ?_ fun _ => not_raises_ok _)
    refine not_raises_bind (not_raises_bindOptText ho _) fun _ => ?_
    refine not_raises_bind (not_raises_bindOptText ho _) fun _ => ?_
    refine not_raises_bind (not_raises_bindOptText ho _) fun _ => ?_
    refine not_raises_bind (not_raises_bindOptText ho _) fun _ => ?_
    refine not_raises_bind (not_raises_bindOptText ho _) fun _ => ?_
    refine not_raises_bind (not_raises_bindText ho _) fun _ => ?_
    refine not_raises_bind (not_raises_bindText ho _) fun _ => ?_
    exact not_raises_bind (not_raises_bindText ho _) fun _ => not_raises_ok _
  unfold Firewall.record
  split
  · rename_i err herr
    exact not_raises_again hrec herr
  · exact not_raises_ok _

end Components

/-! ## The awaited segments never refuse -/

section Awaited

variable {cfg : Config} {env : Env} {fw : Firewall}

theorem Env.Plain.faults (hp : env.Plain) :
    ∀ op e, env.fault op = some e → ¬ e.refuses = true :=
  fun op e hf => by simp [hp op e hf]

theorem not_refuses_attempt {α : Type} {op : Op} {x : Except Exc α} (hp : env.Plain)
    (hx : ¬ Refuses x) : ¬ Refuses (env.attempt op x) := not_raises_attempt hp.faults hx

/-- `other` is no refusal. -/
theorem not_refuses_other : ¬ Exc.other.refuses = true := nofun

theorem not_refuses_approveOne (hp : env.Plain) (d : ToolDefinition) (approver : UserSession) :
    ¬ Refuses (fw.approveOne cfg env d approver) := by
  unfold Firewall.approveOne
  split
  · rename_i e he
    exact not_raises_again (not_refuses_attempt hp (not_raises_ok _)) he
  · split
    · exact not_raises_ok _
    · split
      · rename_i e he
        exact not_raises_again
          (not_refuses_attempt hp (not_raises_approvedFingerprint not_refuses_other _)) he
      · split
        · rename_i e he
          exact not_raises_again
            (not_refuses_attempt hp (not_raises_approve not_refuses_other _ _ _)) he
        · exact not_raises_ok _

theorem not_refuses_approveName (hp : env.Plain) (tools : List ToolDefinition)
    (approver : UserSession) (name : Str) :
    ¬ Refuses (fw.approveName cfg env tools approver name) := by
  unfold Firewall.approveName
  split
  · exact not_raises_ok _
  · split
    · exact not_raises_ok _
    · exact not_refuses_approveOne hp _ approver

theorem not_refuses_approvalRisk (hp : env.Plain) (name : Str) :
    ¬ Refuses (Firewall.approvalRisk cfg env name) := by
  unfold Firewall.approvalRisk
  split
  · exact not_refuses_attempt hp (not_raises_ok _)
  · exact not_raises_ok _

theorem not_refuses_approveLoop {envs : Nat → Env} (hp : ∀ i, (envs i).Plain)
    (tools : List ToolDefinition) (approver : UserSession) (names : List Str) (i : Nat)
    (fw : Firewall) :
    ¬ Refuses (Firewall.approveLoop cfg envs tools approver i names fw).result := by
  induction names generalizing i fw with
  | nil => exact not_raises_ok _
  | cons name rest ih =>
      unfold Firewall.approveLoop
      split
      · rename_i e he
        exact not_raises_again (not_refuses_approveName (hp i) tools approver name) he
      · split
        · rename_i e he
          exact not_raises_again (not_refuses_approvalRisk (hp i) name) he
        · split
          · rename_i e he
            exact not_raises_again (not_raises_record not_refuses_other (hp i).faults _) he
          · exact not_raises_map (ih (i + 1) _)

theorem not_refuses_approveTools {envs : Nat → Env} (hp : ∀ i, (envs i).Plain)
    (approver : UserSession) (names : Option (List Str)) (reply : Firewall.ToolsReply) :
    ¬ Refuses (fw.approveTools cfg envs approver names reply).result := by
  cases reply with
  | raised => exact raises_error.not.mpr not_refuses_other
  | listing tools => exact not_refuses_approveLoop hp tools approver _ 0 fw

theorem not_refuses_listOne (hp : env.Plain) (session : UserSession) (manager : Bool)
    (d : ToolDefinition) (db : Database) :
    ¬ Refuses (Firewall.listOne cfg env session manager d db) := by
  refine not_raises_bind (not_refuses_attempt hp (not_raises_ok _)) fun _ => ?_
  refine not_raises_bind
    (not_refuses_attempt hp (not_raises_verify not_refuses_other d)) fun _ => ?_
  simp only
  split
  · exact not_raises_ok _
  · split
    · exact not_raises_ok _
    · refine not_raises_bind (not_refuses_attempt hp (not_raises_ok _)) fun _ => ?_
      split
      · exact not_raises_ok _
      · exact not_raises_ok _

theorem not_refuses_listLoop {envs : Nat → Env} (hp : ∀ i, (envs i).Plain)
    (session : UserSession) (manager : Bool) (db : Database) (tools : List ToolDefinition)
    (i : Nat) : ¬ Refuses (Firewall.listLoop cfg envs session manager db i tools) := by
  induction tools generalizing i with
  | nil => exact not_raises_ok _
  | cons d rest ih =>
      refine not_raises_bind (not_refuses_listOne (hp i) session manager d db) fun _ => ?_
      exact not_raises_bind (ih (i + 1)) fun _ => not_raises_ok _

theorem not_refuses_listTools {envs : Nat → Env} (hp : ∀ i, (envs i).Plain)
    (session : UserSession) (manager : Bool) (reply : Firewall.ToolsReply) :
    ¬ Refuses (fw.listTools cfg envs session manager reply) := by
  cases reply with
  | raised => exact raises_error.not.mpr not_refuses_other
  | listing tools => exact not_refuses_listLoop hp session manager fw.db tools 0

end Awaited

/-! ## When a first segment refuses -/

namespace Firewall

variable {cfg : Config} {env : Env} {fw : Firewall} {sessionId : Str}

/-- There is no live session under the id, or its user has no room left in
the rate limit. -/
def SessionRefused (cfg : Config) (env : Env) (sessionId : Str) (fw : Firewall) : Prop :=
  env.fault .validate = none ∧
    ((∀ session, ¬ Authenticator.Live cfg.sha256 (env.time .validate) sessionId fw.db session) ∨
      ∃ session, Authenticator.Live cfg.sha256 (env.time .validate) sessionId fw.db session ∧
        env.fault .limiter = none ∧ (fw.limit env session.userId).1.allowed = false)

/-- The session passes, but its role may not manage. -/
def ManagerRefused (cfg : Config) (env : Env) (sessionId : Str) (fw : Firewall) : Prop :=
  env.fault .validate = none ∧ env.fault .limiter = none ∧ env.fault .canManage = none ∧
    ∃ session, Authenticator.Live cfg.sha256 (env.time .validate) sessionId fw.db session ∧
      (fw.limit env session.userId).1.allowed = true ∧
        Authorizer.canManage cfg.policy.roles session.role = false

theorem lookup_eq_ok {session : UserSession} :
    fw.lookup cfg env sessionId = .ok session ↔ env.fault .validate = none ∧
      Authenticator.Live cfg.sha256 (env.time .validate) sessionId fw.db session := by
  constructor
  · intro h
    exact ⟨Env.fault_of_attempt_ok h, Authenticator.live_of_validate (Env.attempt_eq_ok h)⟩
  · intro h
    obtain ⟨hf, hl⟩ := h
    rw [lookup, Env.attempt_none hf, Authenticator.validate_of_live hl]

theorem refuses_lookup (hp : env.Plain) : Refuses (fw.lookup cfg env sessionId) ↔
    env.fault .validate = none ∧
      ∀ session, ¬ Authenticator.Live cfg.sha256 (env.time .validate) sessionId fw.db session := by
  constructor
  · intro h
    obtain ⟨hf, e, he, -⟩ := raises_attempt hp.faults h
    refine ⟨hf, fun session hl => ?_⟩
    cases he.symm.trans (Authenticator.validate_of_live hl)
  · intro h
    obtain ⟨hf, hnone⟩ := h
    rw [lookup, Env.attempt_none hf]
    rcases Authenticator.validate_cases cfg.sha256 (env.time .validate) sessionId fw.db with
      ⟨session, -, hl⟩ | ⟨msg, herr⟩
    · exact absurd hl (hnone session)
    · exact ⟨_, herr, rfl⟩

theorem refuses_authenticate (hp : env.Plain) :
    Refuses (fw.authenticate cfg env sessionId).result ↔ SessionRefused cfg env sessionId fw := by
  have hexit := authenticate_exit cfg env fw sessionId
  generalize fw.authenticate cfg env sessionId = out at hexit ⊢
  cases hexit with
  | noSession h =>
      rename_i e
      have hlook : Refuses (.error e : Except Exc UserSession) ↔
          Refuses (fw.lookup cfg env sessionId) := by rw [h]
      rw [hlook, refuses_lookup hp]
      constructor
      · intro h
        obtain ⟨hf, hnone⟩ := h
        exact ⟨hf, .inl hnone⟩
      · intro h
        rcases h with ⟨hf, hnone | ⟨session, hl, -, -⟩⟩
        · exact ⟨hf, hnone⟩
        · cases h.symm.trans (lookup_eq_ok.mpr ⟨hf, hl⟩)
  | limiterRaised h hf =>
      rename_i session e
      have hquiet := hp _ _ hf
      refine iff_of_false (fun hr => ?_) ?_
      · rw [raises_error.mp hr] at hquiet
        cases hquiet
      · intro h
        rcases h with ⟨-, hnone | ⟨_, -, hf', -⟩⟩
        · exact hnone session (lookup_eq_ok.mp h).2
        · rw [hf] at hf'
          cases hf'
  | limited h hf hl =>
      rename_i session
      obtain ⟨hv, hlive⟩ := lookup_eq_ok.mp h
      exact iff_of_true (raises_error.mpr rfl) ⟨hv, .inr ⟨session, hlive, hf, hl⟩⟩
  | session h hf hl =>
      rename_i session
      refine iff_of_false (not_raises_ok _) ?_
      intro h
      rcases h with ⟨hv, hnone | ⟨session', hlive', -, hl'⟩⟩
      · exact hnone session (lookup_eq_ok.mp h).2
      · have heq := Except.ok.inj (h.symm.trans (lookup_eq_ok.mpr ⟨hv, hlive'⟩))
        rw [← heq, hl] at hl'
        cases hl'

theorem authenticate_eq_ok {session : UserSession} :
    (fw.authenticate cfg env sessionId).result = .ok session ↔
      (env.fault .validate = none ∧
        Authenticator.Live cfg.sha256 (env.time .validate) sessionId fw.db session) ∧
        env.fault .limiter = none ∧ (fw.limit env session.userId).1.allowed = true := by
  rw [← lookup_eq_ok]
  have hexit := authenticate_exit cfg env fw sessionId
  generalize fw.authenticate cfg env sessionId = out at hexit ⊢
  cases hexit with
  | noSession h => simp [h]
  | limiterRaised h hf => simp [hf]
  | limited h hf hl =>
      refine iff_of_false nofun ?_
      intro h
      obtain ⟨h', -, hl'⟩ := h
      obtain rfl := Except.ok.inj (h.symm.trans h')
      rw [hl] at hl'
      cases hl'
  | session h hf hl =>
      rename_i session'
      constructor
      · intro heq
        obtain rfl := Except.ok.inj heq
        exact ⟨h, hf, hl⟩
      · intro h
        obtain ⟨h', -, -⟩ := h
        exact h.symm.trans h'

theorem refuses_canManage (hp : env.Plain) {role msg : Str} {α : Type} (a : α) :
    Refuses (match env.attempt .canManage (.ok (Authorizer.canManage cfg.policy.roles role)) with
        | .error e => .error e
        | .ok manager => if !manager then .error (.permissionDenied msg) else .ok a) ↔
      env.fault .canManage = none ∧ Authorizer.canManage cfg.policy.roles role = false := by
  cases hf : env.fault .canManage with
  | some e =>
      have hquiet := hp _ _ hf
      simp [Env.attempt, hf, raises_error, hquiet]
  | none =>
      rw [Env.attempt_none hf]
      cases Authorizer.canManage cfg.policy.roles role with
      | true => exact iff_of_false (not_raises_ok _) (by simp)
      | false => exact iff_of_true (raises_error.mpr rfl) ⟨rfl, rfl⟩

theorem refuses_approveStart (hp : env.Plain) {approver : UserSession} :
    Refuses (approveStart cfg env approver) ↔
      env.fault .canManage = none ∧
        Authorizer.canManage cfg.policy.roles approver.role = false :=
  refuses_canManage hp ()

/-- A session that passes is refused by neither check of `authenticate`. -/
theorem not_sessionRefused (hp : env.Plain) {session : UserSession}
    (h : (fw.authenticate cfg env sessionId).result = .ok session) :
    ¬ SessionRefused cfg env sessionId fw := by
  intro hr
  obtain ⟨e, he, -⟩ := (refuses_authenticate hp).mpr hr
  cases h.symm.trans he

theorem refuses_requireManager (hp : env.Plain) :
    Refuses (fw.requireManager cfg env sessionId).result ↔
      SessionRefused cfg env sessionId fw ∨ ManagerRefused cfg env sessionId fw := by
  cases hauth : (fw.authenticate cfg env sessionId).result with
  | error e =>
      have hresult : (fw.requireManager cfg env sessionId).result =
          (fw.authenticate cfg env sessionId).result := by
        simp only [requireManager, hauth]
      rw [hresult, refuses_authenticate hp]
      constructor
      · exact .inl
      · intro h
        rcases h with hr | ⟨hv, hf, -, session, hlive, hallowed, -⟩
        · exact hr
        · cases hauth.symm.trans (authenticate_eq_ok.mpr ⟨⟨hv, hlive⟩, hf, hallowed⟩)
  | ok session =>
      obtain ⟨⟨hv, hlive⟩, hf, hallowed⟩ := authenticate_eq_ok.mp hauth
      have hresult : (fw.requireManager cfg env sessionId).result =
          match env.attempt .canManage
            (.ok (Authorizer.canManage cfg.policy.roles session.role)) with
          | .error e => .error e
          | .ok manager =>
              if !manager then
                .error (.permissionDenied (str "this action requires a manager role"))
              else .ok session := by
        simp only [requireManager, hauth]
        cases env.attempt .canManage
            (.ok (Authorizer.canManage cfg.policy.roles session.role)) with
        | error e => rfl
        | ok manager =>
            cases manager with
            | false => rfl
            | true => exact hauth
      rw [hresult, refuses_canManage hp]
      constructor
      · intro h
        obtain ⟨hfm, hm⟩ := h
        exact .inr ⟨hv, hf, hfm, session, hlive, hallowed, hm⟩
      · intro h
        rcases h with hr | ⟨-, -, hfm, session', hlive', hallowed', hm⟩
        · exact absurd hr (not_sessionRefused hp hauth)
        · obtain rfl := Except.ok.inj (hauth.symm.trans
            (authenticate_eq_ok.mpr ⟨⟨hv, hlive'⟩, hf, hallowed'⟩))
          exact ⟨hfm, hm⟩

theorem refuses_listStart (hp : env.Plain) :
    Refuses (fw.listStart cfg env sessionId).result ↔ SessionRefused cfg env sessionId fw := by
  cases hauth : (fw.authenticate cfg env sessionId).result with
  | error e =>
      have hresult : (fw.listStart cfg env sessionId).result = .error e := by
        simp only [listStart, hauth]
      rw [hresult, ← refuses_authenticate hp, hauth]
      simp only [raises_error]
  | ok session =>
      refine iff_of_false ?_ (not_sessionRefused hp hauth)
      have hmanage : ¬ Refuses (env.attempt .canManage
          (.ok (Authorizer.canManage cfg.policy.roles session.role))) :=
        not_refuses_attempt hp (not_raises_ok _)
      simp only [listStart, hauth]
      split
      · rename_i e he
        exact not_raises_again hmanage he
      · exact not_raises_ok _

/-- What a refused login has stored, if it has. -/
theorem refusal_of_record {userId reason : Str} {e : Exc} (hreason : reason = e.loginReason)
    (fw : Firewall) :
    ∀ event ∈ (fw.recordOrLog env
      (simpleEvent (some userId) .login .deny reason none none)).1, event.Refusal userId e := by
  subst hreason
  intro event hevent
  unfold recordOrLog at hevent
  split at hevent
  · cases hevent
  · rename_i stored fw' hrecord
    obtain rfl := Option.some.inj hevent
    obtain ⟨db, hrecord, -⟩ := record_cases hrecord
    rw [(record_eq_ok hrecord).1]
    refine ⟨rfl, sanitize_stage .login, ?_, rfl⟩
    show sanitize e.loginReason = e.loginReason
    unfold Exc.loginReason
    split <;> decide

/-- Where `login` refuses, it has attempted the record of the refusal. -/
theorem login_refuses (hp : env.Plain) {token userId apiKey clientKey : Str} {e : Exc} :
    (fw.login cfg env token userId apiKey clientKey).result = .error e → e.refuses = true →
      ∃ stored, (fw.login cfg env token userId apiKey clientKey).audits = [stored] ∧
        ∀ event ∈ stored, event.Refusal userId e := by
  have hlimited : ∀ wait, str "too many login attempts" =
      (Exc.rateLimitExceeded wait).loginReason := fun _ => rfl
  have hinvalid : ∀ msg, str "invalid credentials" = (Exc.authError msg).loginReason :=
    fun _ => rfl
  unfold login
  split
  · rename_i e' hf
    intro h hr
    cases h
    exact absurd hr (hp.faults _ _ hf)
  · simp only
    split
    · intro h hr
      cases h
      exact ⟨_, rfl, refusal_of_record (hlimited _) _⟩
    · split
      · intro h hr
        cases h
        exact ⟨_, rfl, refusal_of_record (hinvalid _) _⟩
      · -- any other exception comes from the database
        rename_i e' hnot hlogin
        intro h hr
        cases h
        have hother : ¬ Raises (fun e : Exc => e.refuses = true ∧ ∀ msg, e ≠ .authError msg)
            (env.attempt .login (Authenticator.login cfg.sha256 cfg.policy.sessionTtlSeconds
              (env.time .login) token userId apiKey fw.db)) :=
          not_raises_attempt (fun op e hf he => hp.faults op e hf he.1)
            (not_raises_login nofun (fun msg he => he.2 msg rfl) _ _ _ _ _)
        exact absurd ⟨_, hlogin, hr, hnot⟩ hother
      · intro h hr
        cases h

end Firewall

/-! ## Refusals of a run -/

namespace System

variable {cfg : Config} {s s' : System} {a : Act} {o : List Event} {id : Nat} {fw : Firewall}
  {as : List Act}

/-- The action starts a call of `approve_tools`, `list_tools` or
`require_manager` that fails one of its checks. -/
def TurnedAway (cfg : Config) (s : System) : Act → Prop
  | .approve env approver _ => env.fault .canManage = none ∧
      Authorizer.canManage cfg.policy.roles approver.role = false
  | .list env sessionId => Firewall.SessionRefused cfg env sessionId s.fw
  | .requireManager env sessionId => Firewall.SessionRefused cfg env sessionId s.fw ∨
      Firewall.ManagerRefused cfg env sessionId s.fw
  | _ => False

/-- Such a call only raises. -/
theorem step_turnedAway (h : step cfg s a = some (s', o)) (ht : TurnedAway cfg s a)
    (hp : ∀ env, a.RunsIn env → env.Plain) :
    ∃ e, e.refuses = true ∧ o = [.raised s.tasks.length e] := by
  cases a with
  | approve env approver names =>
      obtain ⟨e, he, hr⟩ := (Firewall.refuses_approveStart (hp env rfl)).mpr ht
      simp only [step, he] at h
      cases h
      exact ⟨e, hr, rfl⟩
  | list env sessionId =>
      obtain ⟨e, he, hr⟩ := (Firewall.refuses_listStart (hp env rfl)).mpr ht
      simp only [step, he] at h
      cases h
      exact ⟨e, hr, rfl⟩
  | requireManager env sessionId =>
      obtain ⟨e, he, hr⟩ := (Firewall.refuses_requireManager (hp env rfl)).mpr ht
      simp only [step, close, he,
        (Firewall.requireManager_silent cfg env s.fw sessionId).1] at h
      cases h
      exact ⟨e, hr, rfl⟩
  | _ => exact ht.elim

/-- A refusal that ends a call was not recorded only if the call was turned
away: a login attempts one record of it. -/
theorem Ending.refused {e : Exc} (h : Ending cfg s a id fw o)
    (hp : ∀ env, a.RunsIn env → env.Plain) (he : .raised id e ∈ o) (hr : e.refuses = true) :
    (s.tasks.length = id ∧ TurnedAway cfg s a) ∨
      ∃ env token userId apiKey clientKey stored,
        a = .login env token userId apiKey clientKey ∧ s.tasks.length = id ∧
        o.filter Event.isAudit = [.audit id stored] ∧
        ∀ event ∈ stored, event.Refusal userId e := by
  have hcall := h.callOf
  cases h.said he with
  | raised hby =>
      cases hby with
      | approveStart herr =>
          exact .inl ⟨Option.some.inj hcall,
            (Firewall.refuses_approveStart (hp _ rfl)).mp ⟨e, herr, hr⟩⟩
      | approveTools herr =>
          exact absurd ⟨e, herr, hr⟩
            (not_refuses_approveTools (fun i => hp _ ⟨i, rfl⟩) _ _ _)
      | listStart herr =>
          exact .inl ⟨Option.some.inj hcall,
            (Firewall.refuses_listStart (hp _ rfl)).mp ⟨e, herr, hr⟩⟩
      | listTools herr =>
          exact absurd ⟨e, herr, hr⟩
            (not_refuses_listTools (fun i => hp _ ⟨i, rfl⟩) _ _ _)
      | requireManager herr =>
          exact .inl ⟨Option.some.inj hcall,
            (Firewall.refuses_requireManager (hp _ rfl)).mp ⟨e, herr, hr⟩⟩
      | login herr =>
          obtain ⟨stored, haudits, hrefusal⟩ := Firewall.login_refuses (hp _ rfl) herr hr
          -- a login ends in the segment that starts it
          cases h with
          | answered h => cases h
          | login =>
              refine .inr ⟨_, _, _, _, _, stored, rfl, rfl, ?_, hrefusal⟩
              rw [close, haudits, herr]
              rfl

/-- The call that was turned away has no record. -/
theorem turnedAway_silent {pre : List Act} {s₁ : System}
    (h : (machine cfg).run { fw } as = some (s, o))
    (hplain : ∀ a ∈ as, ∀ env, a.RunsIn env → env.Plain) (hat : At cfg fw as pre s₁ a)
    (haway : TurnedAway cfg s₁ a) :
    (∃ e, .raised s₁.tasks.length e ∈ o ∧ e.refuses = true) ∧
      ∀ stored, .audit s₁.tasks.length stored ∉ o := by
  obtain ⟨o₁, s₂, o₂, post, o₃, hpre, hstep, -, ho⟩ := hat.step h
  obtain ⟨e, hr, rfl⟩ := step_turnedAway hstep haway (hplain a hat.mem)
  refine ⟨⟨e, by simp [ho], hr⟩, fun stored haudit => ?_⟩
  -- the refusal is all the call has ever emitted
  have hall := eventsOf_ended (r := s₁.tasks.length) h hat hstep List.mem_cons_self rfl rfl
  have hnone : s₁.tasks[s₁.tasks.length]? = none := List.getElem?_eq_none (Nat.le_refl _)
  have hmem : .audit s₁.tasks.length stored ∈ eventsOf s₁.tasks.length o := by
    simp [eventsOf, haudit, Event.id]
  rw [hall, hnone] at hmem
  simp [emitted] at hmem

/-- A call that raised a refusal and was not turned away is a login, and
every record it has is one of this refusal. -/
theorem run_refused (h : (machine cfg).run { fw } as = some (s, o))
    (hplain : ∀ a ∈ as, ∀ env, a.RunsIn env → env.Plain) {e : Exc} (he : .raised id e ∈ o)
    (hr : e.refuses = true)
    (hpassed : ∀ pre s₁ a, At cfg fw as pre s₁ a → s₁.tasks.length = id → ¬ TurnedAway cfg s₁ a) :
    ∃ pre s₁ env token userId apiKey clientKey stored,
      At cfg fw as pre s₁ (.login env token userId apiKey clientKey) ∧ s₁.tasks.length = id ∧
      (∀ x, .audit id x ∈ o ↔ x = stored) ∧ ∀ event ∈ stored, event.Refusal userId e := by
  obtain ⟨pre, a, s₁, fw', o₂, hat, hend, he', hall⟩ := run_ending (r := id) h he rfl rfl
  rcases hend.refused (hplain a hat.mem) he' hr with ⟨hlen, haway⟩ |
    ⟨env, token, userId, apiKey, clientKey, stored, rfl, hlen, haudits, hrefusal⟩
  · exact absurd haway (hpassed pre s₁ a hat hlen)
  · refine ⟨pre, s₁, env, token, userId, apiKey, clientKey, stored, hat, hlen, fun x => ?_,
      hrefusal⟩
    have hown : .audit id x ∈ o ↔ .audit id x ∈ eventsOf id o := by
      simp [eventsOf, Event.id]
    have hnone : s₁.tasks[id]? = none := by
      rw [← hlen]
      exact List.getElem?_eq_none (Nat.le_refl _)
    have hlast : .audit id x ∈ o₂ ↔ .audit id x ∈ o₂.filter Event.isAudit := by
      simp [Event.isAudit]
    rw [hown, hall, hnone]
    show .audit id x ∈ o₂ ↔ x = stored
    rw [hlast, haudits]
    simp

/-- **Recorded refusals.** The log of a run holds one new row for each
event that was stored. Where audit writes succeed and no component raises a
refusal of its own, every refusal of a call has a `DENY` record if and only
if the call is not one that `approve_tools`, `list_tools` or
`require_manager` turns away at its start; and a record of a refused call is
that of a login, with its stage, the reason for what was raised and the user
id it was given. -/
theorem refusal_recorded_iff (h : (machine cfg).run { fw } as = some (s, o))
    (hwrites : ∀ id, .audit id none ∉ o)
    (hplain : ∀ a ∈ as, ∀ env, a.RunsIn env → env.Plain) (id : Nat) :
    Logged (o.filterMap Event.stored) fw.db s.fw.db ∧
      ((∀ e, .raised id e ∈ o → e.refuses = true →
          ∃ event, .audit id (some event) ∈ o ∧ event.decision = .deny) ↔
        ∀ pre s₁ a, At cfg fw as pre s₁ a → s₁.tasks.length = id → ¬ TurnedAway cfg s₁ a) ∧
      ∀ e event, .raised id e ∈ o → e.refuses = true → .audit id (some event) ∈ o →
        ∃ pre s₁ env token userId apiKey clientKey,
          At cfg fw as pre s₁ (.login env token userId apiKey clientKey) ∧
            s₁.tasks.length = id ∧ event.Refusal userId e := by
  refine ⟨run_logged h, ⟨?_, ?_⟩, ?_⟩
  · intro hrecorded pre s₁ a hat hlen haway
    subst hlen
    obtain ⟨⟨e, he, hr⟩, hsilent⟩ := turnedAway_silent h hplain hat haway
    obtain ⟨event, haudit, -⟩ := hrecorded e he hr
    exact hsilent _ haudit
  · intro hpassed e he hr
    obtain ⟨_, _, _, _, _, _, _, stored, -, -, hstored, hrefusal⟩ :=
      run_refused h hplain he hr hpassed
    have hin := (hstored stored).mpr rfl
    cases stored with
    | none => exact absurd hin (hwrites id)
    | some event => exact ⟨event, hin, (hrefusal event rfl).decision⟩
  · intro e event he hr haudit
    have hpassed : ∀ pre s₁ a, At cfg fw as pre s₁ a → s₁.tasks.length = id →
        ¬ TurnedAway cfg s₁ a := by
      intro pre s₁ a hat hlen haway
      subst hlen
      exact (turnedAway_silent h hplain hat haway).2 _ haudit
    obtain ⟨pre, s₁, env, token, userId, apiKey, clientKey, stored, hat, hlen, hstored,
      hrefusal⟩ := run_refused h hplain he hr hpassed
    exact ⟨pre, s₁, env, token, userId, apiKey, clientKey, hat, hlen,
      hrefusal event ((hstored _).mp haudit ▸ rfl)⟩

end System

/-! ## A recorded and an unrecorded refusal -/

theorem plain_default : Env.Plain {} := nofun

/-- One call of `login` with an unknown user, on an empty database. -/
def strangerLogin : List Act :=
  [.login {} (str "tok") (str "ada") (str "correct horse battery") (str "127.0.0.1")]

/-- All audit writes of the run succeeded, and a call was refused. -/
def writtenAndRefused (o : List Event) : Bool :=
  (o.all fun e => match e with
    | .audit _ none => false
    | _ => true) &&
  o.any fun e => match e with
    | .raised _ e => e.refuses
    | _ => false

theorem of_writtenAndRefused {o : List Event} (h : writtenAndRefused o = true) :
    (∀ id, .audit id none ∉ o) ∧ ∃ id e, .raised id e ∈ o ∧ e.refuses = true := by
  obtain ⟨hall, hany⟩ := Bool.and_eq_true_iff.mp h
  refine ⟨fun id hmem => by simpa using List.all_eq_true.mp hall _ hmem, ?_⟩
  obtain ⟨e, he, hr⟩ := List.any_eq_true.mp hany
  cases e with
  | raised id e => exact ⟨id, e, he, hr⟩
  | _ => cases hr

theorem refusal_recorded_iff_login : ∃ s o id e,
    (System.machine echoConfig).run { fw := .init echoConfig {} } strangerLogin = some (s, o) ∧
      .raised id e ∈ o ∧ e.refuses = true ∧
      ∃ event, .audit id (some event) ∈ o ∧ event.decision = .deny ∧
        event.stage = str "login" ∧ event.reason = e.loginReason := by
  have hrun : ((System.machine echoConfig).run { fw := .init echoConfig {} } strangerLogin).any
      (fun p => writtenAndRefused p.2) = true := by
    decide +kernel
  obtain ⟨⟨s, o⟩, hrun, hboth⟩ := (Option.any_eq_true _ _).mp hrun
  obtain ⟨hwrites, id, e, he, hr⟩ := of_writtenAndRefused hboth
  have hplain : ∀ a ∈ strangerLogin, ∀ env, a.RunsIn env → env.Plain := by
    intro a ha env henv
    rw [List.mem_singleton.mp ha] at henv
    rw [show env = {} from henv]
    exact plain_default
  obtain ⟨-, hiff, hrefusals⟩ := System.refusal_recorded_iff hrun hwrites hplain id
  obtain ⟨event, haudit, hdeny⟩ := hiff.mpr (fun pre s₁ a hat _ => by
    obtain ⟨post, o₁, heq, -⟩ := hat
    have hmem : a ∈ strangerLogin := by simp [heq]
    rw [List.mem_singleton.mp hmem]
    exact not_false) e he hr
  obtain ⟨_, _, _, _, _, _, _, -, -, hrefusal⟩ := hrefusals e event he hr haudit
  exact ⟨s, o, id, e, hrun, he, hr, event, haudit, hdeny, hrefusal.stage, hrefusal.reason⟩

/-- Not every refusal is recorded: `require_manager` without a session
raises and writes nothing. -/
theorem manager_refusal_unrecorded :
    ¬ ∀ (cfg : Config) (fw : Firewall) (as : List Act) (s : System) (o : List Event) (id : Nat)
      (e : Exc), (System.machine cfg).run { fw } as = some (s, o) → (∀ id, .audit id none ∉ o) →
      (∀ a ∈ as, ∀ env, a.RunsIn env → env.Plain) → .raised id e ∈ o → e.refuses = true →
        ∃ event, .audit id (some event) ∈ o ∧ event.decision = .deny := by
  intro hall
  have hrun : ((System.machine echoConfig).run { fw := .init echoConfig {} }
      [.requireManager {} []]).any
        (fun p => writtenAndRefused p.2 && !p.2.any Event.isAudit) = true := by
    decide +kernel
  obtain ⟨⟨s, o⟩, hrun, hboth⟩ := (Option.any_eq_true _ _).mp hrun
  obtain ⟨hboth, hnone⟩ := Bool.and_eq_true_iff.mp hboth
  obtain ⟨hwrites, id, e, he, hr⟩ := of_writtenAndRefused hboth
  have hplain : ∀ a ∈ [Act.requireManager {} []], ∀ env, a.RunsIn env → env.Plain := by
    intro a ha env henv
    rw [List.mem_singleton.mp ha] at henv
    rw [show env = {} from henv]
    exact plain_default
  obtain ⟨event, haudit, -⟩ := hall _ _ _ _ _ _ _ hrun hwrites hplain he hr
  have hany : o.any Event.isAudit = true := List.any_eq_true.mpr ⟨_, haudit, rfl⟩
  simp [hany] at hnone

end AgenticFirewall
