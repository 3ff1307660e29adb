import AgenticFirewall.Answers
import AgenticFirewall.Properties.NeverWedged
import AgenticFirewall.Properties.RetryAfter

/-!
# An outage stays with its tool

Each tool's breaker is what the calls on that tool make of it, whatever the
other tools' calls do in between, and it refuses nobody until as many
failures as the policy names have followed the tool's last success.
-/

namespace AgenticFirewall

open Py Transition

/-! ## Counting strikes -/

/-- The count of failures after one more call. -/
def BreakerOp.strike (n : Nat) : BreakerOp → Nat
  | .allow _ => n
  | .success _ => 0
  | .failure _ => n + 1

/-- The failures recorded since the last success. -/
def strikes (ops : List BreakerOp) : Nat := ops.foldl BreakerOp.strike 0

namespace CircuitBreaker

variable {cb : CircuitBreaker} {n : Nat} {now : ℚ} {op : BreakerOp}

/-- The breaker after these calls. -/
def after (cb : CircuitBreaker) (ops : List BreakerOp) : CircuitBreaker :=
  ops.foldl (fun cb op => (cb.perform op).2) cb

/-- The breaker has seen `n` failures since the last success: it is closed
while they are fewer than its threshold. -/
structure Counts (n : Nat) (cb : CircuitBreaker) : Prop where
  closed : cb.state = .closed → cb.failures = n ∧ n < cb.threshold
  tripped : cb.state ≠ .closed → cb.threshold ≤ n

theorem Counts.closed_iff (h : cb.Counts n) : cb.state = .closed ↔ n < cb.threshold := by
  constructor
  · intro hs
    exact (h.closed hs).2
  · intro hn
    by_contra hs
    have hle := h.tripped hs
    omega

/-- `allow()` closes no breaker. -/
theorem allow_tripped (h : cb.state ≠ .closed) : (cb.allow now).2.state ≠ .closed := by
  unfold allow
  split
  · rename_i hs
    exact absurd hs h
  · split
    · simp
    · exact h
  · split
    · exact h
    · exact h

theorem Counts.allow (h : cb.Counts n) : (cb.allow now).2.Counts n := by
  by_cases hs : cb.state = .closed
  · rw [allow_closed hs]
    exact h
  · refine ⟨fun hclosed => absurd hclosed (allow_tripped hs), fun _ => ?_⟩
    rw [allow_threshold]
    exact h.tripped hs

theorem Counts.recordSuccess : cb.recordSuccess.Counts 0 where
  closed _ := ⟨rfl, cb.one_le⟩
  tripped hs := absurd rfl hs

theorem Counts.trip (h : cb.threshold ≤ n) : (cb.trip now).Counts n where
  closed hs := by cases hs
  tripped _ := h

theorem Counts.recordFailure (h : cb.Counts n) : (cb.recordFailure now).Counts (n + 1) := by
  by_cases hs : cb.state = .closed
  · obtain ⟨hfailures, hlt⟩ := h.closed hs
    have hhalf : cb.state ≠ .halfOpen := by
      simp [hs]
    by_cases hreach : cb.threshold ≤ cb.failures + 1
    · rw [recordFailure_reaches hhalf hreach]
      exact .trip (by omega)
    · rw [recordFailure_below hhalf (Nat.not_le.mp hreach)]
      refine ⟨fun _ => ⟨congrArg (· + 1) hfailures, ?_⟩, fun htripped => absurd hs htripped⟩
      show n + 1 < cb.threshold
      omega
  · -- a failure of a call that was let through before the trip changes
    -- nothing about the state
    have hle := h.tripped hs
    have hstate : (cb.recordFailure now).state ≠ .closed := by
      unfold CircuitBreaker.recordFailure
      split
      · simp
      · split
        · simp
        · exact hs
    refine ⟨fun hclosed => absurd hclosed hstate, fun _ => ?_⟩
    rw [recordFailure_threshold]
    omega

theorem Counts.perform (h : cb.Counts n) : (cb.perform op).2.Counts (op.strike n) := by
  cases op with
  | allow now => exact h.allow
  | success now => exact .recordSuccess
  | failure now => exact h.recordFailure

/-- The count of a whole history. -/
theorem Counts.after (h : cb.Counts n) (ops : List BreakerOp) :
    (cb.after ops).Counts (ops.foldl BreakerOp.strike n) := by
  induction ops generalizing cb n with
  | nil => exact h
  | cons op ops ih => exact ih h.perform

theorem after_threshold (cb : CircuitBreaker) (ops : List BreakerOp) :
    (cb.after ops).threshold = cb.threshold := by
  induction ops generalizing cb with
  | nil => rfl
  | cons op ops ih =>
      show ((cb.perform op).2.after ops).threshold = cb.threshold
      rw [ih, perform_threshold]

end CircuitBreaker

namespace CircuitBreakerRegistry

theorem counts_fresh (r : CircuitBreakerRegistry) : r.fresh.Counts 0 where
  closed _ := ⟨rfl, r.one_le⟩
  tripped hs := absurd rfl hs

end CircuitBreakerRegistry

namespace System

variable {cfg : Config} {s s' : System} {a : Act} {o : List Event} {calls : List BreakerCall}
  {r : Nat} {result : GatewayResult}

/-! ## One step -/

/-- The calls one tool's breaker is given. -/
def opsOn (tool : Str) (calls : List BreakerCall) : List BreakerOp :=
  (calls.filter fun c => c.tool = tool).map BreakerCall.op

theorem get_performed (r : CircuitBreakerRegistry) (calls : List BreakerCall) (tool : Str) :
    ((performed r calls).get tool).1 = (r.get tool).1.after (opsOn tool calls) := by
  rw [opsOn, CircuitBreaker.after, List.foldl_map]
  refine foldl_part _ (fun (r : CircuitBreakerRegistry) key => (r.get key).1) BreakerCall.tool
    (fun cb c => (cb.perform c.op).2) (fun r c key => ?_) tool calls r
  rw [CircuitBreakerRegistry.get_perform]
  split
  · rename_i hkey
    rw [hkey]
  · rfl

/-- A request is refused at its tool's breaker only when that is not
closed. -/
theorem refused_tripped (h : step cfg s a = some (s', o)) (he : .returned r result ∈ o)
    (hs : result.stage = .circuitBreaker) :
    (s.fw.breakers.get result.tool).1.state ≠ .closed := by
  obtain ⟨env, req, ctx, x, fw, hp, rfl, -⟩ := step_returned h he
  cases x with
  | error e => cases hs
  | ok result =>
      have hs' : result.stage = .circuitBreaker := hs
      show (s.fw.breakers.get result.tool).1.state ≠ .closed
      cases hp with
      | start h hx =>
          have hexit := Firewall.pipelineStart_exit cfg env req s.fw
          rw [h, ended_eq_some hx rfl] at hexit
          cases hexit <;> cases hs'
      | tools hrun h hx =>
          have hexit := Firewall.pipelineTools_exit cfg env req s.fw ctx ‹_›
          rw [h, ended_eq_some hx rfl] at hexit
          cases hexit with
          | circuitOpen ha =>
              intro hclosed
              change (s.fw.breakers.get req.tool).1.state = .closed at hclosed
              rw [Firewall.askBreaker, CircuitBreaker.allow_closed hclosed] at ha
              cases ha
          | _ => cases hs'
      | reply hrun h hx =>
          have hexit := Firewall.pipelineReply_exit cfg env req s.fw ctx ‹_›
          rw [h, ended_eq_some hx rfl] at hexit
          cases hexit <;> cases hs'

/-! ## Whole runs -/

/-- What a run's breaker calls say of the breakers, tool by tool. -/
structure Contained (cfg : Config) (s : System) (calls : List BreakerCall) : Prop where
  /-- each answer is the one the tool's own earlier calls lead to -/
  answered : ∀ pre c post, calls = pre ++ c :: post →
    c.answer = (((Firewall.init cfg {}).breakers.fresh.after (opsOn c.tool pre)).perform c.op).1
  closed_iff : ∀ tool, (s.fw.breakers.get tool).1.state = .closed ↔
    strikes (opsOn tool calls) < cfg.policy.circuitBreaker.failureThreshold
  /-- nobody is refused for less -/
  refused : ∀ a s' o r result, step cfg s a = some (s', o) → .returned r result ∈ o →
    result.stage = .circuitBreaker →
    cfg.policy.circuitBreaker.failureThreshold ≤ strikes (opsOn result.tool calls)

/-- **An outage stays with its tool.** In every run, whatever happens to the
other tools in between, each answer of a tool's breaker is the one its own
earlier calls lead to, the breaker is closed while fewer failures than the
policy names have followed the tool's last success, and a request is refused
there only after so many. -/
theorem outage_contained {db : Database} {as : List Act}
    (h : (breakerMachine cfg).run { fw := .init cfg db } as = some (s, calls)) :
    Contained cfg s calls := by
  obtain ⟨hregistry, hanswers⟩ := run_calls h
  have hclosed : ∀ tool, (s.fw.breakers.get tool).1.state = .closed ↔
      strikes (opsOn tool calls) < cfg.policy.circuitBreaker.failureThreshold := by
    intro tool
    rw [hregistry, get_performed]
    have hcounts := (Firewall.init cfg db).breakers.counts_fresh.after (opsOn tool calls)
    rw [strikes]
    exact hcounts.closed_iff.trans (by rw [CircuitBreaker.after_threshold]; rfl)
  refine ⟨?_, hclosed, ?_⟩
  · intro pre c post hsplit
    calc c.answer
        = ((performed (Firewall.init cfg db).breakers pre).perform c.tool c.op).1 :=
          hanswers pre c post hsplit
      _ = (((performed (Firewall.init cfg db).breakers pre).get c.tool).1.perform c.op).1 := rfl
      _ = (((Firewall.init cfg {}).breakers.fresh.after (opsOn c.tool pre)).perform c.op).1 := by
          rw [get_performed]
          rfl
  · intro a s' o r result hstep he hs
    have htripped := refused_tripped hstep he hs
    rw [Ne, hclosed] at htripped
    omega

end System

/-- A request has been refused at a breaker. -/
def Event.atBreaker : Event → Bool
  | .returned _ result => decide (result.stage = .circuitBreaker)
  | _ => false

/-- `echo` has failed and refuses the next request; `clock` answers, and its
breaker stays closed. -/
theorem outage_contained_echo : ∃ s calls s' o r result t calls',
    (System.breakerMachine pairConfig).run { fw := .init pairConfig {} } (pairProbing.take 8) =
        some (s, calls) ∧
      System.step pairConfig s (.handleTools 3 (.reading 10) (.listing [echo, clock])) =
        some (s', o) ∧
      .returned r result ∈ o ∧ result.stage = .circuitBreaker ∧
      1 ≤ strikes (System.opsOn result.tool calls) ∧
      (System.breakerMachine pairConfig).run { fw := .init pairConfig {} } pairProbing =
        some (t, calls') ∧
      calls'.map (fun c => (c.id, c.tool, c.answer)) =
        [(2, str "echo", some true), (2, str "echo", none), (3, str "echo", some false),
          (4, str "clock", some true), (4, str "clock", none), (5, str "echo", some true)] ∧
      System.Contained pairConfig t calls' ∧
      (t.fw.breakers.get (str "clock")).1.state = .closed := by
  have hrefused : ((System.breakerMachine pairConfig).run { fw := .init pairConfig {} }
      (pairProbing.take 8)).any (fun p =>
        (System.step pairConfig p.1 (.handleTools 3 (.reading 10) (.listing [echo, clock]))).any
          fun q => q.2.any Event.atBreaker) = true := by
    decide +kernel
  have hprobing : ((System.breakerMachine pairConfig).run { fw := .init pairConfig {} }
      pairProbing).any (fun p => decide (p.2.map (fun c => (c.id, c.tool, c.answer)) =
        [(2, str "echo", some true), (2, str "echo", none), (3, str "echo", some false),
          (4, str "clock", some true), (4, str "clock", none), (5, str "echo", some true)] ∧
        strikes (System.opsOn (str "clock") p.2) = 0)) = true := by
    decide +kernel
  obtain ⟨⟨s, calls⟩, hrun, hnext⟩ := (Option.any_eq_true _ _).mp hrefused
  obtain ⟨⟨s', o⟩, hstep, hany⟩ := (Option.any_eq_true _ _).mp hnext
  obtain ⟨e, he, hrefusal⟩ := List.any_eq_true.mp hany
  obtain ⟨⟨t, calls'⟩, hrun', hcalls, hclock⟩ := exists_of_decide hprobing
  have hbefore := System.outage_contained hrun
  have hafter := System.outage_contained hrun'
  cases e with
  | returned r result =>
      have hstage : result.stage = .circuitBreaker := of_decide_eq_true hrefusal
      refine ⟨s, calls, s', o, r, result, t, calls', hrun, hstep, he, hstage,
        hbefore.refused _ _ _ _ _ hstep he hstage, hrun', hcalls, hafter, ?_⟩
      rw [hafter.closed_iff, hclock]
      exact Nat.one_pos
  | _ => cases hrefusal

end AgenticFirewall
