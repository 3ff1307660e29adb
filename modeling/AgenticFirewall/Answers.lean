import AgenticFirewall.Firewall.Passing
import AgenticFirewall.Lifecycle

/-!
# What a request is answered

Every result `handle` returns, in any run: which stages it can name, when
it carries a response or a wait, and which step an `ALLOW` comes from.
-/

namespace AgenticFirewall

open Py Transition

/-- A result fits together: only an `ALLOW` names the last stage and carries
a response, only the limiter and the breaker give a wait, and the stages of
other entry points are not used. -/
structure GatewayResult.Sound (result : GatewayResult) : Prop where
  allow_iff : result.decision = .allow ↔ result.stage = .allowed
  response_iff : result.response.isSome = true ↔ result.decision = .allow
  retryAfter_iff : result.retryAfter.isSome = true ↔
    result.stage = .rateLimit ∨ result.stage = .circuitBreaker
  stage : result.stage ≠ .login ∧ result.stage ≠ .approval

theorem sound_deny (req : ToolRequest) (ctx : Ctx) {stage : Stage} (reason : Str)
    {retryAfter : Option ℚ} (hallowed : stage ≠ .allowed) (hlogin : stage ≠ .login)
    (happroval : stage ≠ .approval)
    (hwait : retryAfter.isSome = true ↔ stage = .rateLimit ∨ stage = .circuitBreaker) :
    (deny req ctx stage reason retryAfter).Sound := by
  refine ⟨?_, ?_, hwait, hlogin, happroval⟩
  · constructor
    · intro h
      cases h
    · intro h
      exact absurd h hallowed
  · simp [deny]

/-- A denial of a stage that gives no wait. -/
theorem sound_refusal (req : ToolRequest) (ctx : Ctx) {stage : Stage} (reason : Str)
    (h : stage ∉ [Stage.allowed, .login, .approval, .rateLimit, .circuitBreaker]) :
    (deny req ctx stage reason none).Sound := by
  simp only [List.mem_cons, List.not_mem_nil, or_false, not_or] at h
  obtain ⟨hallowed, hlogin, happroval, hlimit, hbreaker⟩ := h
  exact sound_deny req ctx reason hallowed hlogin happroval (by simp [hlimit, hbreaker])

theorem sound_allow (req : ToolRequest) (ctx : Ctx) (r : ToolResponse) :
    (Firewall.allow req ctx r).Sound := by
  refine ⟨?_, ?_, ?_, ?_⟩
  · simp [Firewall.allow]
  · simp [Firewall.allow]
  · simp [Firewall.allow]
  · simp [Firewall.allow]

/-- The latency changes nothing of this. -/
theorem GatewayResult.Sound.latency {result : GatewayResult} (h : result.Sound) (ms : ℚ) :
    { result with latencyMs := ms }.Sound :=
  ⟨h.allow_iff, h.response_iff, h.retryAfter_iff, h.stage⟩

namespace Firewall

variable {cfg : Config} {env : Env} {req : ToolRequest} {ctx : Ctx} {fw : Firewall}
  {result : GatewayResult}

theorem sound_start (h : (fw.pipelineStart cfg env req).1 = .ok (some result)) : result.Sound := by
  have hexit := pipelineStart_exit cfg env req fw
  generalize fw.pipelineStart cfg env req = out at hexit h
  cases hexit with
  | unauthenticated hl =>
      cases h
      exact sound_refusal _ _ _ (by simp)
  | limited hl hlim =>
      cases h
      exact sound_deny _ _ _ (by simp) (by simp) (by simp) (by simp)
  | badName hl hlim hn =>
      cases h
      exact sound_refusal _ _ _ (by simp)
  | unauthorized hl hlim hn ha =>
      cases h
      exact sound_refusal _ _ _ (by simp)
  | _ => cases h

theorem sound_tools {reply : ToolsReply}
    (h : (fw.pipelineTools cfg env req ctx reply).1 = .ok (some result)) : result.Sound := by
  have hexit := pipelineTools_exit cfg env req fw ctx reply
  generalize fw.pipelineTools cfg env req ctx reply = out at hexit h
  cases hexit with
  | listingRaised =>
      cases h
      exact sound_refusal _ _ _ (by simp)
  | unlisted =>
      cases h
      exact sound_refusal _ _ _ (by simp)
  | duplicated =>
      cases h
      exact sound_refusal _ _ _ (by simp)
  | mismatched hu hv hr =>
      cases h
      exact sound_refusal _ _ _ (by simp)
  | inputBlocked hu hv hr hf hb =>
      cases h
      exact sound_refusal _ _ _ (by simp)
  | circuitOpen ha =>
      cases h
      exact sound_deny _ _ _ (by simp) (by simp) (by simp) (by simp)
  | _ => cases h

theorem sound_reply {reply : CallReply}
    (h : (fw.pipelineReply cfg env req ctx reply).1 = .ok (some result)) : result.Sound := by
  have hexit := pipelineReply_exit cfg env req fw ctx reply
  generalize fw.pipelineReply cfg env req ctx reply = out at hexit h
  cases hexit with
  | callFailed hr hf =>
      cases h
      exact sound_refusal _ _ _ (by simp)
  | outputBlocked hf hb =>
      cases h
      exact sound_refusal _ _ _ (by simp)
  | allowed hf hb =>
      cases h
      exact sound_allow _ _ _
  | _ => cases h

end Firewall

/-- The kinds of events a segment can emit. -/
def Act.emits : Act → Event → Bool
  | .handle .., .audit .. | .handle .., .returned .. => true
  | .handleTools .., .audit .. | .handleTools .., .returned .. => true
  | .handleTools .., .issued .. => true
  | .handleReply .., .audit .. | .handleReply .., .returned .. => true
  | .handleReply .., .cancelled _ => true
  | .approve .., .raised .. => true
  | .approveTools .., .audit .. | .approveTools .., .approved .. => true
  | .approveTools .., .raised .. => true
  | .list .., .raised .. => true
  | .listTools .., .audit .. | .listTools .., .listed .. | .listTools .., .raised .. => true
  | .cancel _, .cancelled _ => true
  | .requireManager .., .audit .. | .requireManager .., .session .. => true
  | .requireManager .., .raised .. => true
  | .login .., .audit .. | .login .., .session .. | .login .., .raised .. => true
  | _, _ => false

/-- An event after which its call says nothing more. -/
def Event.final : Event → Bool
  | .issued .. | .audit .. => false
  | _ => true

namespace System

variable {cfg : Config} {s s' : System} {a : Act} {o : List Event} {id r : Nat} {env : Env}
  {req : ToolRequest} {ctx : Ctx} {x : Except Exc GatewayResult} {fw : Firewall}
  {result : GatewayResult}

theorem Ending.emits (h : Ending cfg s a id fw o) {e : Event} (he : e ∈ o) :
    a.emits e = true := by
  cases h with
  | answered h =>
      simp only [leave, List.mem_cons, List.not_mem_nil, or_false] at he
      rcases he with rfl | rfl
      · cases h <;> rfl
      · cases h <;> rfl
  | approved hrun =>
      rcases mem_close he with ⟨_, -, rfl⟩ | ⟨_, -, rfl⟩ | ⟨_, -, rfl⟩ <;> rfl
  | listed hrun =>
      rcases mem_close he with ⟨_, -, rfl⟩ | ⟨_, -, rfl⟩ | ⟨_, -, rfl⟩ <;> rfl
  | manager =>
      rcases mem_close he with ⟨_, -, rfl⟩ | ⟨_, -, rfl⟩ | ⟨_, -, rfl⟩ <;> rfl
  | login =>
      rcases mem_close he with ⟨_, -, rfl⟩ | ⟨_, -, rfl⟩ | ⟨_, -, rfl⟩ <;> rfl
  | _ =>
      rw [List.mem_singleton.mp he]
      rfl

theorem getLast?_close {α : Type} {returned : α → Event} (out : Outcome α)
    (hreturned : ∀ x, (returned x).final = true) :
    ∃ e, (close id returned out).getLast? = some e ∧ e.final = true := by
  refine ⟨_, List.getLast?_concat, ?_⟩
  cases out.result with
  | ok x => exact hreturned x
  | error e => rfl

/-- A call ends with a final event. -/
theorem Ending.last (h : Ending cfg s a id fw o) :
    ∃ e, o.getLast? = some e ∧ e.final = true := by
  cases h with
  | approved hrun => exact getLast?_close _ fun _ => rfl
  | listed hrun => exact getLast?_close _ fun _ => rfl
  | manager => exact getLast?_close _ fun _ => rfl
  | login => exact getLast?_close _ fun _ => rfl
  | _ => exact ⟨_, rfl, rfl⟩

theorem step_emits (h : step cfg s a = some (s', o)) {e : Event} (he : e ∈ o) :
    a.emits e = true := by
  cases step_shape h with
  | opened t ha ht hnew =>
      rcases hnew with ⟨-, hend⟩ | ⟨-, -, rfl⟩
      · exact hend.emits he
      · cases he
  | moved id t t' ha hid hrun hleft ht hnew =>
      rcases hnew with ⟨-, hend⟩ | ⟨env, tools, req, ctx, rfl, -, -, -, -, rfl⟩
      · exact hend.emits he
      · rw [List.mem_singleton.mp he]
        rfl
  | outside ha hid ht hdb ho =>
      rw [ho] at he
      cases he

theorem PipelineEnd.sound (h : PipelineEnd cfg s a id env req ctx x fw) :
    (Firewall.handleResult env req ctx x).Sound := by
  cases x with
  | error e =>
      have hinternal : (deny req ctx .internal (str "internal error; request denied (fail closed)")
        none).Sound := sound_refusal _ _ _ (by simp)
      exact hinternal.latency env.latencyMs
  | ok result =>
      have hresult : result.Sound := by
        cases h with
        | start h hx =>
            exact Firewall.sound_start ((congrArg Prod.fst h).trans (ended_eq_some hx rfl))
        | tools hrun h hx =>
            exact Firewall.sound_tools ((congrArg Prod.fst h).trans (ended_eq_some hx rfl))
        | reply hrun h hx =>
            exact Firewall.sound_reply ((congrArg Prod.fst h).trans (ended_eq_some hx rfl))
      exact hresult.latency env.latencyMs

/-- An `ALLOW` comes from the last segment, with the response it was given
and in which the scan found nothing. -/
theorem PipelineEnd.allowed (h : PipelineEnd cfg s a id env req ctx x fw)
    (hallow : (Firewall.handleResult env req ctx x).decision = .allow) :
    ∃ reply r, a = .handleReply id env reply ∧ Firewall.ReplyPasses cfg env reply r ∧
      (Firewall.handleResult env req ctx x).response = some r := by
  cases x with
  | error e => cases hallow
  | ok result =>
      have hallow' : result.decision = .allow := hallow
      cases h with
      | start h hx =>
          obtain ⟨hdeny, -⟩ :=
            Firewall.start_denies ((congrArg Prod.fst h).trans (ended_eq_some hx rfl))
          rw [hallow'] at hdeny
          cases hdeny
      | tools hrun h hx =>
          obtain ⟨hdeny, -⟩ :=
            Firewall.tools_denies ((congrArg Prod.fst h).trans (ended_eq_some hx rfl))
          rw [hallow'] at hdeny
          cases hdeny
      | reply hrun h hx =>
          rcases Firewall.reply_allows_or_denies
              ((congrArg Prod.fst h).trans (ended_eq_some hx rfl)) with ⟨r, hp, rfl⟩ | ⟨hdeny, -⟩
          · exact ⟨_, r, rfl, hp, rfl⟩
          · rw [hallow'] at hdeny
            cases hdeny

/-- The step a result is returned in. -/
theorem step_returned (h : step cfg s a = some (s', o)) (he : .returned r result ∈ o) :
    ∃ env req ctx x fw, PipelineEnd cfg s a r env req ctx x fw ∧
      result = Firewall.handleResult env req ctx x ∧ o = (leave r env req ctx x fw).2 := by
  obtain ⟨hend, -, -⟩ := step_ending h he rfl
  cases hend.said he with
  | returned hp ho => exact ⟨_, _, _, _, _, hp, rfl, ho⟩

/-- **Every result is sound**, in every run. -/
theorem run_sound {as : List Act} (h : (machine cfg).run s as = some (s', o))
    (he : .returned r result ∈ o) : result.Sound := by
  obtain ⟨pre, a, post, s₁, o₁, s₂, o₂, -, -, hstep, he'⟩ := (machine cfg).mem_run_output h he
  obtain ⟨env, req, ctx, x, fw, hp, rfl, -⟩ := step_returned hstep he'
  exact hp.sound

/-- **Every `ALLOW` is a scanned response**, in every run. -/
theorem run_allow_scanned {as : List Act} (h : (machine cfg).run s as = some (s', o))
    (he : .returned r result ∈ o) (hallow : result.decision = .allow) :
    ∃ env resp, .handleReply r env (.response resp) ∈ as ∧ result.response = some resp ∧
      (Firewall.scanOutput cfg resp).blocked = false := by
  obtain ⟨pre, a, post, s₁, o₁, s₂, o₂, rfl, -, hstep, he'⟩ := (machine cfg).mem_run_output h he
  obtain ⟨env, req, ctx, x, fw, hp, rfl, -⟩ := step_returned hstep he'
  obtain ⟨reply, resp, rfl, hpass, hresp⟩ := hp.allowed hallow
  obtain rfl := hpass.response
  exact ⟨env, resp, by simp, hresp, hpass.scan⟩

/-- A request awaits `call_tool` because it did before, or because its checks
have just let it through. -/
theorem calling_after (h : step cfg s a = some (s', o))
    (htask : s'.tasks[r]? = some (.handleCall req ctx)) :
    s.tasks[r]? = some (.handleCall req ctx) ∨ ∃ env tools,
      a = .handleTools r env (.listing tools) ∧ Firewall.Forwarded cfg env req s.fw tools := by
  cases step_shape h with
  | opened t ha ht hnew =>
      rw [ht, List.getElem?_append] at htask
      split at htask
      · exact .inl htask
      · have hlast : t = .handleCall req ctx := by
          have hmem := List.mem_of_getElem? htask
          exact (List.mem_singleton.mp hmem).symm
        subst hlast
        rcases hnew with ⟨hleft, -⟩ | ⟨hstart, -, -⟩
        · cases hleft
        · cases hstart
  | moved i t t' ha hid hrun hleft ht hnew =>
      by_cases hi : i = r
      · subst hi
        rw [ht, List.getElem?_set_self (List.getElem?_eq_some_iff.mp hrun).1] at htask
        obtain rfl := Option.some.inj htask
        rcases hnew with ⟨hleft, -⟩ | ⟨env, tools, req', ctx', rfl, hfwd, -, heq, -, -⟩
        · cases hleft
        · cases heq
          exact .inr ⟨env, tools, rfl, hfwd⟩
      · rw [ht, List.getElem?_set_ne hi] at htask
        exact .inl htask
  | outside ha hid ht hdb ho =>
      rw [ht] at htask
      exact .inl htask

end System

end AgenticFirewall
