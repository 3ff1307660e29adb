import AgenticFirewall.Firewall.BreakerOps
import AgenticFirewall.Firewall.Frames
import AgenticFirewall.Lifecycle

/-!
# The breaker calls of the gateway

Which methods of which breaker each step of the running firewall calls.
The registry after a step is the registry before it with these calls made,
so the list leaves none out.
-/

namespace AgenticFirewall

open Py Transition

namespace Firewall

variable (cfg : Config) (env : Env) (req : ToolRequest) (fw : Firewall)

/-- The calls of steps 6 to 8 on the tool's breaker: `allow()`, if the
listing, the pin and the arguments let the request get that far. -/
def toolsOps (reply : ToolsReply) : List BreakerOp :=
  match reply with
  | .raised => []
  | .listing tools =>
      match tools.filter fun t => t.name = req.tool with
      | [defn] =>
          match env.attempt .verify (IntegrityChecker.verify cfg.sha256 defn fw.db) with
          | .error _ => []
          | .ok integrity =>
              if !integrity.ok then []
              else
                match env.attempt .inputScan (.ok (scanInput cfg req)) with
                | .error _ => []
                | .ok scanIn =>
                    if scanIn.blocked then []
                    else
                      match env.fault .breakerAllow with
                      | some _ => []
                      | none => [.allow (env.monotonic .breakerAllow)]
      | _ => []

/-- The calls of steps 9 to 11: one outcome, unless its method raises. -/
def replyOps (reply : CallReply) : List BreakerOp :=
  match env.fault .recordOutcome with
  | some _ => []
  | none =>
      match reply with
      | .response r =>
          if r.isError then [.failure (env.monotonic .recordOutcome)]
          else [.success (env.monotonic .recordOutcome)]
      | _ => [.failure (env.monotonic .recordOutcome)]

/-- The registry once the calls on a tool's breaker are made. -/
def performAll (tool : Str) (ops : List BreakerOp) (r : CircuitBreakerRegistry) :
    CircuitBreakerRegistry :=
  ops.foldl (fun r op => (r.perform tool op).2) r

/-- The second segment asks the breaker at most once; it goes on to the
upstream call exactly when the breaker admits it. -/
inductive ToolsUse : Except Exc (Option GatewayResult) × Firewall → List BreakerOp → Prop where
  | notAsked {r : Except Exc (Option GatewayResult)} (hr : r ≠ .ok none) : ToolsUse (r, fw) []
  | asked {r : Except Exc (Option GatewayResult)}
      (hr : r = .ok none ↔ (fw.askBreaker env req).1 = true) :
      ToolsUse (r, fw.asked env req) [.allow (env.monotonic .breakerAllow)]

theorem pipelineTools_use (ctx : Ctx) (reply : ToolsReply) :
    ToolsUse env req fw (fw.pipelineTools cfg env req ctx reply)
      (toolsOps cfg env req fw reply) := by
  unfold pipelineTools toolsOps
  cases reply with
  | raised => exact .notAsked (by simp)
  | listing tools =>
      have hscan : cfg.scanner.scanValue .input req.arguments.toValue (str "arguments") =
        scanInput cfg req := rfl
      simp only [hscan]
      generalize (tools.filter fun t => t.name = req.tool) = found
      rcases found with _ | ⟨defn, _ | ⟨second, rest⟩⟩
      · exact .notAsked (by simp)
      · simp only
        generalize env.attempt .verify (IntegrityChecker.verify cfg.sha256 defn fw.db) = verified
        cases verified with
        | error e => exact .notAsked (by simp)
        | ok integrity =>
            simp only
            by_cases hok : (!integrity.ok) = true
            · simp only [if_pos hok]
              exact .notAsked (by simp)
            · simp only [if_neg hok]
              generalize env.attempt .inputScan (.ok (scanInput cfg req)) = scanned
              cases scanned with
              | error e => exact .notAsked (by simp)
              | ok scanIn =>
                  simp only
                  by_cases hb : scanIn.blocked = true
                  · simp only [if_pos hb]
                    exact .notAsked (by simp)
                  · simp only [if_neg hb]
                    cases hf : env.fault .breakerAllow with
                    | some e => exact .notAsked (by simp)
                    | none =>
                        simp only
                        split
                        · rename_i ha
                          have ha' : (fw.askBreaker env req).1 = false := by
                            simpa [askBreaker] using ha
                          split
                          · exact .asked (by simp [ha'])
                          · exact .asked (by simp [ha'])
                        · rename_i ha
                          exact .asked (by simpa [askBreaker] using ha)
      · exact .notAsked (by simp)

theorem answered_breakers (hf : env.fault .recordOutcome = none) (r : ToolResponse) :
    (fw.answered env req r).breakers =
      performAll req.tool (replyOps env (.response r)) fw.breakers := by
  simp only [answered, replyOps, hf]
  cases r.isError <;> rfl

theorem pipelineReply_breakers (ctx : Ctx) (reply : CallReply) :
    (fw.pipelineReply cfg env req ctx reply).2.breakers =
      performAll req.tool (replyOps env reply) fw.breakers := by
  have hexit := pipelineReply_exit cfg env req fw ctx reply
  generalize fw.pipelineReply cfg env req ctx reply = out at hexit ⊢
  cases hexit with
  | recordRaised hf =>
      simp only [replyOps, hf]
      rfl
  | cancelled hf =>
      simp only [replyOps, hf]
      rfl
  | callFailed hr hf =>
      rcases hr with rfl | rfl
      · simp only [replyOps, hf]
        rfl
      · simp only [replyOps, hf]
        rfl
  | scanRaised hf => exact answered_breakers env req fw hf _
  | outputBlocked hf hb => exact answered_breakers env req fw hf _
  | allowed hf hb => exact answered_breakers env req fw hf _

end Firewall

/-! ## The calls of a step -/

/-- A call of request `id` on the breaker of a tool, and what `allow()`
answered. -/
structure BreakerCall where
  id : Nat
  tool : Str
  op : BreakerOp
  answer : Option Bool

namespace System

variable {cfg : Config} {s s' : System} {a : Act} {o : List Event} {id : Nat} {env : Env}
  {req : ToolRequest} {ctx : Ctx} {calls : List BreakerCall}

/-- The breaker calls of one step. -/
def breakerCalls (cfg : Config) (s : System) : Act → List BreakerCall
  | .handleTools id env reply =>
      match s.tasks[id]? with
      | some (.handleTools req _) =>
          (s.fw.toolsOps cfg env req reply).map fun op =>
            ⟨id, req.tool, op, (s.fw.breakers.perform req.tool op).1⟩
      | _ => []
  | .handleReply id env reply =>
      match s.tasks[id]? with
      | some (.handleCall req _) =>
          (Firewall.replyOps env reply).map fun op =>
            ⟨id, req.tool, op, (s.fw.breakers.perform req.tool op).1⟩
      | _ => []
  | _ => []

/-- The running firewall, seen through its breaker calls. -/
def breakerMachine (cfg : Config) : Machine System Act BreakerCall :=
  (machine cfg).observe (breakerCalls cfg)

theorem leave_breakers (id : Nat) (env : Env) (req : ToolRequest) (ctx : Ctx)
    (x : Except Exc GatewayResult) (fw : Firewall) :
    (leave id env req ctx x fw).1.breakers = fw.breakers := by
  rw [leave_frame]

/-- Only the later segments of `handle` touch a breaker. -/
theorem step_breakers (h : step cfg s a = some (s', o)) :
    (∃ id env reply, a = .handleTools id env reply) ∨
      (∃ id env reply, a = .handleReply id env reply) ∨ s'.fw.breakers = s.fw.breakers := by
  have hsegment : s'.fw.breakers = (segment cfg s a).breakers := by rw [step_segment h]
  cases a with
  | handleTools id env reply => exact .inl ⟨id, env, reply, rfl⟩
  | handleReply id env reply => exact .inr (.inl ⟨id, env, reply, rfl⟩)
  | handle env req =>
      right; right
      rw [hsegment, segment, Firewall.pipelineStart_frame]
  | list env sessionId =>
      right; right
      rw [hsegment, segment, Firewall.authenticate_frame]
  | requireManager env sessionId =>
      right; right
      rw [hsegment, segment, Firewall.authenticate_frame]
  | login env token userId apiKey clientKey =>
      right; right
      rw [hsegment, segment, Firewall.login_frame]
  | _ => exact .inr (.inr hsegment)

/-! ## The registry of a run -/

/-- The registry once these calls are made. -/
def performed (r : CircuitBreakerRegistry) (calls : List BreakerCall) : CircuitBreakerRegistry :=
  calls.foldl (fun r c => (r.perform c.tool c.op).2) r

theorem replyOps_le (env : Env) (reply : Firewall.CallReply) :
    Firewall.replyOps env reply = [] ∨ ∃ op, Firewall.replyOps env reply = [op] := by
  unfold Firewall.replyOps
  split
  · exact .inl rfl
  · split
    · split
      · exact .inr ⟨_, rfl⟩
      · exact .inr ⟨_, rfl⟩
    · exact .inr ⟨_, rfl⟩

/-- A step makes one call on a breaker at most, and changes the breakers in
no other way. -/
theorem step_calls (h : step cfg s a = some (s', o)) :
    (breakerCalls cfg s a = [] ∧ s'.fw.breakers = s.fw.breakers) ∨
      ∃ c, breakerCalls cfg s a = [c] ∧
        s'.fw.breakers = (s.fw.breakers.perform c.tool c.op).2 ∧
        c.answer = (s.fw.breakers.perform c.tool c.op).1 := by
  have hsegment : s'.fw.breakers = (segment cfg s a).breakers := by rw [step_segment h]
  cases a with
  | handleTools id env reply =>
      rw [hsegment]
      simp only [step] at h
      split at h
      · rename_i req ctx hrun
        simp only [breakerCalls, segment, hrun]
        have huse := Firewall.pipelineTools_use cfg env req s.fw ctx reply
        generalize s.fw.toolsOps cfg env req reply = ops at huse
        generalize s.fw.pipelineTools cfg env req ctx reply = out at huse
        cases huse with
        | notAsked hr => exact .inl ⟨rfl, rfl⟩
        | asked hr => exact .inr ⟨_, rfl, rfl, rfl⟩
      · cases h
  | handleReply id env reply =>
      rw [hsegment]
      simp only [step] at h
      split at h
      · rename_i req ctx hrun
        simp only [breakerCalls, segment, hrun]
        rw [Firewall.pipelineReply_breakers]
        rcases replyOps_le env reply with hops | ⟨op, hops⟩
        · rw [hops]
          exact .inl ⟨rfl, rfl⟩
        · rw [hops]
          exact .inr ⟨_, rfl, rfl, rfl⟩
      · cases h
  | _ =>
      left
      refine ⟨rfl, ?_⟩
      rcases step_breakers h with ⟨_, _, _, ha⟩ | ⟨_, _, _, ha⟩ | hb
      · cases ha
      · cases ha
      · exact hb

/-- The calls of a run in order: the registry is what they make of it, and
each is answered by the registry that the calls before it made. -/
theorem run_calls {fw : Firewall} {as : List Act}
    (h : (breakerMachine cfg).run { fw } as = some (s, calls)) :
    s.fw.breakers = performed fw.breakers calls ∧
      ∀ pre c post, calls = pre ++ c :: post →
        c.answer = ((performed fw.breakers pre).perform c.tool c.op).1 := by
  refine (breakerMachine cfg).run_history
    (motive := fun _ s calls => s.fw.breakers = performed fw.breakers calls ∧
      ∀ pre c post, calls = pre ++ c :: post →
        c.answer = ((performed fw.breakers pre).perform c.tool c.op).1) ?_ ?_ h
  · refine ⟨rfl, fun pre c post hnil => ?_⟩
    simp at hnil
  · intro as s₁ calls₁ a s₂ calls₂ _ ih hstep
    obtain ⟨hregistry, hanswers⟩ := ih
    obtain ⟨⟨o, htaken⟩, rfl⟩ := (machine cfg).observe_step_eq_some.mp hstep
    rcases step_calls htaken with ⟨hc, hb⟩ | ⟨d, hc, hb, hanswer⟩
    · rw [hc, List.append_nil, hb]
      exact ⟨hregistry, hanswers⟩
    · rw [hc, hb, hregistry]
      refine ⟨?_, ?_⟩
      · rw [performed, performed, List.foldl_append]
        rfl
      · intro pre c post hsplit
        rcases split_concat hsplit with ⟨rfl, rfl, rfl⟩ | ⟨post', rfl, hcalls⟩
        · -- the call of this step
          rw [hanswer, hregistry]
        · exact hanswers pre c post' hcalls

end System

end AgenticFirewall
