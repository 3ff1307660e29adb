import AgenticFirewall.Properties.Entry
import AgenticFirewall.Properties.Mediation

/-!
# Budgets

The two limiters as parts of the running firewall: every call of one is made
by one action, nothing else changes it, and so its limit is a limit on what
users and clients get out of any run.
-/

namespace AgenticFirewall

open Py Transition

/-- One answer of a limiter, to the call that is opened with the id. -/
structure Admission where
  id : Nat
  check : Check
  allowed : Bool

/-- Admitted for the key, within the window that ends at `t`. -/
def Admission.within (key : Str) (t window : ℚ) (e : Admission) : Bool :=
  e.allowed && e.check.key = key && t - window < e.check.now && e.check.now ≤ t

/-- A limiter of the firewall, and the call of it an action leads to. -/
structure Meter where
  limiter : Firewall → SlidingWindowRateLimiter
  ask : Firewall → Act → Option Check

namespace Meter

open SlidingWindowRateLimiter

variable {cfg : Config} {m : Meter} {s s' : System} {as : List Act} {o : List Event}
  {es : List Admission}

/-- The answer an action is given. -/
def admissions (m : Meter) (s : System) (a : Act) : List Admission :=
  (m.ask s.fw a).toList.map fun c =>
    ⟨s.tasks.length, c, ((m.limiter s.fw).check c.now c.key).1.allowed⟩

/-- The firewall, watched at the limiter. -/
def watched (cfg : Config) (m : Meter) : Machine System Act Admission :=
  (System.machine cfg).observe m.admissions

/-- Nothing but the calls an action leads to changes the limiter. -/
def Sole (cfg : Config) (m : Meter) : Prop :=
  ∀ s a s' o, System.step cfg s a = some (s', o) →
    m.limiter s'.fw = (m.limiter s.fw).after (m.ask s.fw a).toList

/-- The limiter after a run is the one that was asked all the calls, and it
answered them as it does on its own. -/
theorem Sole.run (hm : m.Sole cfg) (h : (m.watched cfg).run s as = some (s', es)) :
    m.limiter s'.fw = (m.limiter s.fw).after (es.map Admission.check) ∧
      es.map (fun e => (e.check, e.allowed)) =
        (m.limiter s.fw).trace (es.map Admission.check) := by
  refine (m.watched cfg).run_history
    (motive := fun _ s' es => m.limiter s'.fw = (m.limiter s.fw).after (es.map Admission.check) ∧
      es.map (fun e => (e.check, e.allowed)) = (m.limiter s.fw).trace (es.map Admission.check))
    ⟨rfl, rfl⟩ ?_ h
  intro _ s₁ es₁ a s₂ es₂ _ ih hstep
  obtain ⟨hafter, htrace⟩ := ih
  obtain ⟨⟨o, hstep'⟩, rfl⟩ := (System.machine cfg).observe_step_eq_some.mp hstep
  have hnext := hm s₁ a s₂ o hstep'
  have hchecks : (m.admissions s₁ a).map Admission.check = (m.ask s₁.fw a).toList := by
    simp [admissions, Function.comp_def]
  have hanswers : (m.admissions s₁ a).map (fun e => (e.check, e.allowed)) =
      (m.limiter s₁.fw).trace (m.ask s₁.fw a).toList := by
    unfold admissions
    cases m.ask s₁.fw a with
    | none => rfl
    | some c => rfl
  rw [List.map_append, List.map_append, hchecks, after_append, trace_append, ← hafter, htrace,
    hanswers]
  exact ⟨hnext, rfl⟩

/-- **The budget**: of a new limiter, no window holds more admissions of a
key than the limit. -/
theorem Sole.le {limit sweepThreshold : Nat} {window : ℚ} {one_le : 1 ≤ limit}
    {window_pos : 0 < window} (hm : m.Sole cfg)
    (hnew : m.limiter s.fw = new limit window one_le window_pos sweepThreshold)
    (h : (m.watched cfg).run s as = some (s', es))
    (hclock : Chronological (es.map Admission.check)) (key : Str) (t : ℚ) :
    (es.filter (Admission.within key t window)).length ≤ limit := by
  have hle : ((allowedTimes (es.map fun e => (e.check, e.allowed)) key).filter
      fun u => t - window < u ∧ u ≤ t).length ≤ limit := by
    rw [(hm.run h).2, hnew]
    exact allowedTimes_new_le hclock key t
  have htimes : (allowedTimes (es.map fun e => (e.check, e.allowed)) key).filter
      (fun u => t - window < u ∧ u ≤ t) =
        (es.filter (Admission.within key t window)).map fun e => e.check.now := by
    unfold allowedTimes
    rw [List.filter_map, List.filter_map, List.filter_map, List.map_map, List.filter_filter]
    congr 1
    apply List.filter_congr
    intro e _
    rw [Bool.eq_iff_iff]
    simp only [Admission.within, Function.comp_apply, Bool.and_eq_true, decide_eq_true_eq]
    tauto
  rw [htimes, List.length_map] at hle
  exact hle

end Meter

/-! ## The two limiters -/

/-- The limiter of the users' requests. -/
def requestMeter (cfg : Config) : Meter := ⟨Firewall.limiter, fun fw a => a.check cfg fw⟩

/-- The limiter of the clients' logins. -/
def loginMeter : Meter where
  limiter := Firewall.loginLimiter
  ask _ a := match a with
    | .login env _ _ _ clientKey =>
        match env.fault .loginLimiter with
        | some _ => none
        | none => some ⟨clientKey, env.monotonic .loginLimiter⟩
    | _ => none

namespace Firewall

variable {cfg : Config} {env : Env} {fw : Firewall}

theorem login_loginLimiter {token userId apiKey clientKey : Str} :
    (fw.login cfg env token userId apiKey clientKey).fw.loginLimiter =
      fw.loginLimiter.after
        (loginMeter.ask fw (.login env token userId apiKey clientKey)).toList := by
  simp only [login, loginMeter]
  cases hf : env.fault .loginLimiter with
  | some e => rfl
  | none =>
      simp only
      split
      · rw [recordOrLog_frame]
        rfl
      · split
        · rw [recordOrLog_frame]
          rfl
        · rfl
        · rw [recordOrLog_frame]
          rfl

/-- A request that the first segment lets on was admitted by the limiter. -/
theorem reading_of_start {req : ToolRequest} {ctx : Ctx} {fw' : Firewall}
    (h : fw.pipelineStart cfg env req = (.ok none, ctx, fw')) :
    ∃ session, Admitted cfg env req fw session ∧
      fw.reading cfg env req.sessionId = some ⟨session.userId, env.monotonic .limiter⟩ := by
  obtain ⟨session, hadm, -⟩ := admitted_of_start cfg env req fw h
  refine ⟨session, hadm, ?_⟩
  have hlook : fw.lookup cfg env req.sessionId = .ok session := by
    have hexit := pipelineStart_exit cfg env req fw
    rw [h] at hexit
    cases hexit with
    | passed hlook hl hn ha =>
        have hvalid := Authenticator.validate_of_live hadm.live
        rw [Env.attempt_eq_ok hlook] at hvalid
        rw [hlook, hvalid]
  unfold reading
  rw [hlook]
  cases hf : env.fault .limiter with
  | none => rfl
  | some e =>
      unfold lookup at hlook
      simp only [pipelineStart, hlook, hf] at h
      cases h

end Firewall

section Sole

variable {cfg : Config}

theorem requestMeter_sole : (requestMeter cfg).Sole cfg := by
  intro s a s' o h
  show s'.fw.limiter = s.fw.limiter.after (a.check cfg s.fw).toList
  cases hreq : a.isRequest with
  | true => exact System.step_limiter h hreq
  | false =>
      have hsegment : s'.fw.limiter = (System.segment cfg s a).limiter := by
        rw [System.step_segment h]
      rw [hsegment]
      cases a with
      | login env token userId apiKey clientKey =>
          show (s.fw.login cfg env token userId apiKey clientKey).fw.limiter = s.fw.limiter
          rw [Firewall.login_frame]
      | approve env approver names => rfl
      | approveTools id envs reply => rfl
      | revoke sessionId => rfl
      | registerUser userId role apiKey => rfl
      | setRole userId role => rfl
      | _ => cases hreq

theorem loginMeter_sole : loginMeter.Sole cfg := by
  intro s a s' o h
  have hsegment : s'.fw.loginLimiter = (System.segment cfg s a).loginLimiter := by
    rw [System.step_segment h]
  show s'.fw.loginLimiter = s.fw.loginLimiter.after (loginMeter.ask s.fw a).toList
  rw [hsegment]
  cases a with
  | login env token userId apiKey clientKey => exact Firewall.login_loginLimiter
  | handle env req =>
      show (s.fw.pipelineStart cfg env req).2.2.loginLimiter = s.fw.loginLimiter
      rw [Firewall.pipelineStart_frame]
  | handleTools id env reply =>
      simp only [System.segment]
      split
      · rw [Firewall.pipelineTools_frame]
        rfl
      · rfl
  | handleReply id env reply =>
      simp only [System.segment]
      split
      · rw [Firewall.pipelineReply_frame]
        rfl
      · rfl
  | list env sessionId =>
      show (s.fw.authenticate cfg env sessionId).fw.loginLimiter = s.fw.loginLimiter
      rw [Firewall.authenticate_frame]
  | requireManager env sessionId =>
      show (s.fw.authenticate cfg env sessionId).fw.loginLimiter = s.fw.loginLimiter
      rw [Firewall.authenticate_frame]
  | _ => rfl

end Sole

namespace System

variable {cfg : Config} {db : Database} {fw : Firewall} {s s' : System} {as pre : List Act}
  {a : Act} {o : List Event} {es : List Admission} {r : Nat}

/-- The answer to an action of the run is among those of the run. -/
theorem At.admission {m : Meter} {s₁ : System} {c : Check} (hat : At cfg fw as pre s₁ a)
    (hw : (m.watched cfg).run { fw } as = some (s, es)) (hask : m.ask s₁.fw a = some c) :
    ⟨s₁.tasks.length, c, ((m.limiter s₁.fw).check c.now c.key).1.allowed⟩ ∈ es := by
  obtain ⟨post, o, rfl, hpre⟩ := hat
  refine (machine cfg).run_observed hpre hw ?_
  simp [Meter.admissions, hask]

/-! ## The users' budget -/

/-- Each call of the upstream belongs to a request that the limiter admitted
when it entered. -/
theorem issued_admitted (h : (machine cfg).run { fw } as = some (s, o))
    (hw : ((requestMeter cfg).watched cfg).run { fw } as = some (s', es)) {name : Str} {args : Obj}
    (hi : .issued r name args ∈ o) :
    ∃ pre s₁ env req session, At cfg fw as pre s₁ (.handle env req) ∧ s₁.tasks.length = r ∧
      Firewall.Admitted cfg env req s₁.fw session ∧
      ⟨r, ⟨session.userId, env.monotonic .limiter⟩, true⟩ ∈ es := by
  obtain ⟨pre', a, post, s₂, o₂, s₃, o₃, rfl, hrun₂, hstep, hi'⟩ :=
    (machine cfg).mem_run_output h hi
  obtain ⟨env', tools, req, ctx, rfl, htask, rfl, rfl, hfwd⟩ := step_issued hstep hi'
  obtain ⟨pre, env, s₁, -, hat, hlen, -, -⟩ := run_handled hrun₂ (.inl htask)
  -- the request would have stayed away had its first segment ended it
  obtain ⟨o₁, t, p, mid, q, hpre, hstep₁, hmid, -⟩ := hat.step hrun₂
  have hstart : ∃ ctx' fw', s₁.fw.pipelineStart cfg env req = (.ok none, ctx', fw') := by
    simp only [step] at hstep₁
    split at hstep₁
    · rename_i hended
      exact ⟨_, _, Prod.ext (ended_eq_none hended) rfl⟩
    · cases hstep₁
      have hleft := (run_left hmid (r := r) (by simp [← hlen])).1
      rw [htask] at hleft
      cases hleft
  obtain ⟨ctx', fw', hstart⟩ := hstart
  obtain ⟨session, hadm, hread⟩ := Firewall.reading_of_start hstart
  have hat' := hat.extend (.handleTools r env' (.listing tools) :: post)
  have hmem := hat'.admission hw hread
  rw [hlen] at hmem
  refine ⟨pre, s₁, env, req, session, hat', hlen, hadm, ?_⟩
  have hallowed : (s₁.fw.limiter.check (env.monotonic .limiter) session.userId).1.allowed = true :=
    hadm.limiter
  rw [← hallowed]
  exact hmem

/-- A call that is issued for a request admitted within the window. -/
def spends (es : List Admission) (user : Str) (t window : ℚ) (e : Event) : Bool :=
  e.isIssued && es.any fun a => decide (a.id = e.id) && a.within user t window

/-- **No user gets more calls than the limit.** In every run, on a clock that
does not go back: in any window the limiter admits at most `maxRequests`
entries of a user, whatever the endpoint; each upstream call belongs to a
request it admitted; and the requests admitted in the window issue no more
calls than that, whenever they issue them. -/
theorem calls_bounded (h : (machine cfg).run { fw := .init cfg db } as = some (s, o))
    (hw : ((requestMeter cfg).watched cfg).run { fw := .init cfg db } as = some (s', es))
    (hclock : Chronological (es.map Admission.check)) :
    (∀ user t, (es.filter (Admission.within user t cfg.policy.rateLimit.windowSeconds)).length ≤
      cfg.policy.rateLimit.maxRequests) ∧
    (∀ r name args, .issued r name args ∈ o → ∃ pre s₁ env req session,
      At cfg (.init cfg db) as pre s₁ (.handle env req) ∧ s₁.tasks.length = r ∧
        Firewall.Admitted cfg env req s₁.fw session ∧
        ⟨r, ⟨session.userId, env.monotonic .limiter⟩, true⟩ ∈ es) ∧
    ∀ user t, (o.filter (spends es user t cfg.policy.rateLimit.windowSeconds)).length ≤
      cfg.policy.rateLimit.maxRequests := by
  have hbound : ∀ user t,
      (es.filter (Admission.within user t cfg.policy.rateLimit.windowSeconds)).length ≤
        cfg.policy.rateLimit.maxRequests :=
    fun user t => requestMeter_sole.le rfl hw hclock user t
  refine ⟨hbound, fun r name args hi => issued_admitted h hw hi, fun user t => ?_⟩
  -- each call takes the place of its own admission
  have hids : ((o.filter (spends es user t cfg.policy.rateLimit.windowSeconds)).map
      Event.id).Nodup := by
    rw [List.nodup_iff_count_le_one]
    intro r
    refine (le_trans ?_ (run_issued_once h r))
    rw [List.count, List.countP_map, List.countP_filter, eventsOf, List.countP_filter]
    apply List.countP_mono_left
    intro e he
    simp only [spends, Function.comp_apply, Bool.and_eq_true, beq_iff_eq]
    rintro ⟨hid, hissued, -⟩
    exact ⟨hissued, decide_eq_true hid⟩
  have hsub : (o.filter (spends es user t cfg.policy.rateLimit.windowSeconds)).map Event.id ⊆
      (es.filter (Admission.within user t cfg.policy.rateLimit.windowSeconds)).map
        Admission.id := by
    intro r hr
    obtain ⟨e, he, rfl⟩ := List.mem_map.mp hr
    obtain ⟨-, hspends⟩ := List.mem_filter.mp he
    simp only [spends, Bool.and_eq_true, List.any_eq_true, decide_eq_true_eq] at hspends
    obtain ⟨-, a, ha, hid, hwithin⟩ := hspends
    exact List.mem_map.mpr ⟨a, List.mem_filter.mpr ⟨ha, hwithin⟩, hid⟩
  have hle := (List.subperm_of_subset hids hsub).length_le
  rw [List.length_map, List.length_map] at hle
  exact hle.trans (hbound user t)

end System

/-- The one entry of the run, for the one call. -/
theorem calls_bounded_echo : ∃ s o es,
    (System.machine echoConfig).run { fw := .init echoConfig {} } echoCall = some (s, o) ∧
      o.any Event.isIssued = true ∧ es.map Admission.check = [⟨ada.userId, 0⟩] ∧
      ∀ user t, (o.filter (System.spends es user t 60)).length ≤ 100 := by
  have hchecks : (((requestMeter echoConfig).watched echoConfig).run
      { fw := .init echoConfig {} } echoCall).any
        (fun p => decide (p.2.map Admission.check = [⟨ada.userId, 0⟩])) = true := by
    decide +kernel
  obtain ⟨⟨s', es⟩, hw, hchecks⟩ := (Option.any_eq_true _ _).mp hchecks
  have hchecks : es.map Admission.check = [⟨ada.userId, 0⟩] := of_decide_eq_true hchecks
  have hclock : Chronological (es.map Admission.check) := by
    rw [hchecks]
    exact List.pairwise_singleton _ _
  obtain ⟨s, o, req, ctx, hrun, htask⟩ := echoCall_awaits
  refine ⟨s, o, es, hrun, ?_, hchecks, (System.calls_bounded hrun hw hclock).2.2⟩
  rw [List.any_eq_true]
  exact ⟨_, System.run_issued hrun htask, rfl⟩

/-! ## The clients' budget -/

/-- A login of the client is the same whatever key is given: it raises the
same for every user and every database, and what it stores and what it leaves
of the firewall is the same for any two keys. -/
structure Firewall.Blind (cfg : Config) (env : Env) (clientKey : Str) (fw : Firewall) : Prop where
  raises : ∃ e, ∀ token userId apiKey db,
    (login cfg env token userId apiKey clientKey { fw with db }).result = .error e
  /-- the result, the audit records, the limiters, the breakers and all
  tables -/
  keyless : ∀ token token' userId apiKey apiKey' db,
    login cfg env token userId apiKey clientKey { fw with db } =
      login cfg env token' userId apiKey' clientKey { fw with db }
  /-- nobody is logged in -/
  accounts : ∀ token userId apiKey db,
    SameAccounts db (login cfg env token userId apiKey clientKey { fw with db }).fw.db

/-- The limiter keeps what it does not admit from the credentials. -/
theorem Firewall.blind_of_not_admitted {cfg : Config} {env : Env} {clientKey : Str} {fw : Firewall}
    (h : env.fault .loginLimiter = none →
      (fw.loginLimiter.check (env.monotonic .loginLimiter) clientKey).1.allowed = false) :
    fw.Blind cfg env clientKey := by
  cases hf : env.fault .loginLimiter with
  | some e =>
      -- the limiter itself raises, before anything is written
      have hlogin : ∀ token userId apiKey db,
          login cfg env token userId apiKey clientKey { fw with db } =
            { result := .error e, fw := { fw with db } } := by
        intro token userId apiKey db
        simp only [login, hf]
      constructor
      · exact ⟨e, fun token userId apiKey db => by rw [hlogin]⟩
      · intro token token' userId apiKey apiKey' db
        rw [hlogin, hlogin]
      · intro token userId apiKey db
        rw [hlogin]
        exact .refl db
  | none =>
      have hdenied := h hf
      constructor
      · refine ⟨.rateLimitExceeded
          (fw.loginLimiter.check (env.monotonic .loginLimiter) clientKey).1.retryAfter,
          fun token userId apiKey db => ?_⟩
        simp only [login, hf, hdenied]
        rfl
      · -- what is recorded names the user and not the key
        intro token token' userId apiKey apiKey' db
        simp only [login, hf, hdenied]
        rfl
      · intro token userId apiKey db
        simp only [login, hf, hdenied]
        exact recordOrLog_accounts env _ _

/-- **Guessing is rationed.** In every run, on a clock that does not go back:
in any window the limiter admits at most `maxRequests` logins of a client, and
a login it does not admit is blind: its answer, its record and everything it
leaves behind are the same for any two keys. -/
theorem System.guesses_bounded {cfg : Config} {db : Database} {s : System} {as : List Act}
    {es : List Admission}
    (hw : (loginMeter.watched cfg).run { fw := .init cfg db } as = some (s, es))
    (hclock : Chronological (es.map Admission.check)) :
    (∀ client t,
      (es.filter (Admission.within client t cfg.policy.loginRateLimit.windowSeconds)).length ≤
        cfg.policy.loginRateLimit.maxRequests) ∧
    ∀ pre s₁ env token userId apiKey client,
      At cfg (.init cfg db) as pre s₁ (.login env token userId apiKey client) →
      ⟨s₁.tasks.length, ⟨client, env.monotonic .loginLimiter⟩, true⟩ ∈ es ∨
        s₁.fw.Blind cfg env client := by
  refine ⟨fun client t => loginMeter_sole.le rfl hw hclock client t, ?_⟩
  intro pre s₁ env token userId apiKey client hat
  by_cases hadmitted : env.fault .loginLimiter = none ∧
      (s₁.fw.loginLimiter.check (env.monotonic .loginLimiter) client).1.allowed = true
  · obtain ⟨hf, hallowed⟩ := hadmitted
    have hask : loginMeter.ask s₁.fw (.login env token userId apiKey client) =
        some ⟨client, env.monotonic .loginLimiter⟩ := by
      simp only [loginMeter, hf]
    have hmem := hat.admission hw hask
    rw [← hallowed]
    exact .inl hmem
  · refine .inr (Firewall.blind_of_not_admitted fun hf => ?_)
    cases hallowed : (s₁.fw.loginLimiter.check (env.monotonic .loginLimiter) client).1.allowed with
    | false => rfl
    | true => exact absurd ⟨hf, hallowed⟩ hadmitted

/-- A client that guesses keys. -/
def guess : Act := .login {} (str "tok") ada.userId (str "guess") (str "127.0.0.1")

/-- Its eleventh guess of a minute is blind. -/
theorem guesses_bounded_eleventh : ∃ s₁ o₁,
    (System.machine echoConfig).run { fw := .init echoConfig {} } (List.replicate 10 guess) =
      some (s₁, o₁) ∧ s₁.fw.Blind echoConfig {} (str "127.0.0.1") := by
  have hten : ((System.machine echoConfig).run { fw := .init echoConfig {} }
      (List.replicate 10 guess)).any (fun p => p.1.tasks.length == 10) = true := by
    decide +kernel
  have heleven : ((loginMeter.watched echoConfig).run { fw := .init echoConfig {} }
      (List.replicate 11 guess)).any (fun p => decide (p.2.map Admission.check =
          List.replicate 11 ⟨str "127.0.0.1", 0⟩) &&
        p.2.all fun e => !(e.id == 10 && e.allowed)) = true := by
    decide +kernel
  obtain ⟨⟨s₁, o₁⟩, hrun, hlen⟩ := (Option.any_eq_true _ _).mp hten
  obtain ⟨⟨s, es⟩, hw, hes⟩ := (Option.any_eq_true _ _).mp heleven
  obtain ⟨hchecks, hlast⟩ := Bool.and_eq_true_iff.mp hes
  have hclock : Chronological (es.map Admission.check) := by
    rw [of_decide_eq_true hchecks]
    exact List.pairwise_replicate.mpr (.inr le_rfl)
  have hat : System.At echoConfig (.init echoConfig {}) (List.replicate 11 guess)
      (List.replicate 10 guess) s₁ guess := ⟨[], o₁, rfl, hrun⟩
  refine ⟨s₁, o₁, hrun, ?_⟩
  rcases (System.guesses_bounded hw hclock).2 _ _ _ _ _ _ _ hat with hmem | hblind
  · have hnone := List.all_eq_true.mp hlast _ hmem
    simp [beq_iff_eq.mp hlen] at hnone
  · exact hblind

end AgenticFirewall
