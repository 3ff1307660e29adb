import AgenticFirewall.Firewall.BreakerOps
import Mathlib.Data.List.DropRight

/-!
# The breaker's reference machine

When the outcome of each admitted call is recorded before the tool is
asked for again, every tool sees its own copy of a machine that reads the
history of outcomes alone: no counter and no flag.
-/

namespace AgenticFirewall

open Py Transition

/-! ## The reference -/

/-- The machine of one tool: it admits, with the outcomes since it started
to, or refuses since a failure, or waits for the one call it let
through. -/
inductive Reference where
  | admitting (outcomes : List Bool)
  | refusing (since : ℚ)
  | probing

namespace Reference

/-- The last `threshold` outcomes are all failures. -/
def Failing (threshold : Nat) (outcomes : List Bool) : Prop :=
  threshold ≤ outcomes.length ∧ ∀ ok ∈ outcomes.rtake threshold, ok = false

instance (threshold : Nat) (outcomes : List Bool) : Decidable (Failing threshold outcomes) := by
  unfold Failing
  infer_instance

variable (threshold : Nat) (cooldown : ℚ)

/-- The answer to `allow()`. -/
def admits (now : ℚ) : Reference → Bool
  | .admitting _ => true
  | .refusing since => since + cooldown ≤ now
  | .probing => false

def next : Reference → BreakerOp → Reference
  | .admitting outcomes, .allow _ => .admitting outcomes
  | .admitting outcomes, .success _ => .admitting (outcomes ++ [true])
  | .admitting outcomes, .failure now =>
      if Failing threshold (outcomes ++ [false]) then .refusing now
      else .admitting (outcomes ++ [false])
  | .refusing since, .allow now => if since + cooldown ≤ now then .probing else .refusing since
  | .refusing since, _ => .refusing since
  | .probing, .allow _ => .probing
  | .probing, .success _ => .admitting []
  | .probing, .failure now => .refusing now

/-- The machine after a history of its tool. -/
def after (history : List BreakerOp) : Reference :=
  history.foldl (next threshold cooldown) (.admitting [])

/-- The failures at the end of a list of outcomes. -/
def trailing (outcomes : List Bool) : Nat := (outcomes.rtakeWhile (!·)).length

@[simp] theorem trailing_success (outcomes : List Bool) : trailing (outcomes ++ [true]) = 0 := by
  simp [trailing]

@[simp] theorem trailing_failure (outcomes : List Bool) :
    trailing (outcomes ++ [false]) = trailing outcomes + 1 := by
  simp [trailing]

theorem failing_iff {threshold : Nat} {outcomes : List Bool} :
    Failing threshold outcomes ↔ threshold ≤ trailing outcomes := by
  induction outcomes using List.reverseRecOn generalizing threshold with
  | nil => simp [Failing, trailing]
  | append_singleton outcomes ok ih =>
      cases threshold with
      | zero => simp [Failing]
      | succ n =>
          cases ok with
          | true => simp [Failing]
          | false =>
              rw [trailing_failure, Nat.add_le_add_iff_right, ← ih]
              simp [Failing, or_imp]

end Reference

/-! ## The calls, one at a time for each tool -/

/-- A method call on the breaker of a tool. -/
structure ToolCall where
  tool : Str
  op : BreakerOp

/-- The registry, the last clock reading, and the tools with an admitted
call whose outcome is still to be recorded. -/
structure Sequential where
  registry : CircuitBreakerRegistry
  clock : ℚ
  out : List Str := []

namespace Sequential

/-- A new registry. -/
def start (threshold : Nat) (cooldown : ℚ) (one_le : 1 ≤ threshold)
    (cooldown_pos : 0 < cooldown) (clock : ℚ) : Sequential :=
  { registry := { threshold, cooldown, one_le, cooldown_pos }, clock }

/-- The clock does not run backwards; a tool whose call is out records its
outcome next, any other tool is asked next. -/
def Enabled (s : Sequential) (c : ToolCall) : Prop :=
  s.clock ≤ c.op.time ∧ (c.op.records = true ↔ c.tool ∈ s.out)

instance (s : Sequential) (c : ToolCall) : Decidable (s.Enabled c) := by
  unfold Enabled
  infer_instance

/-- The tools whose call is out after a call with this answer. -/
def outAfter (out : List Str) (tool : Str) : Option Bool → List Str
  | some true => tool :: out
  | some false => out
  | none => out.filter fun t => t ≠ tool

def step (s : Sequential) (c : ToolCall) : Option (Sequential × List Bool) :=
  if s.Enabled c then
    let (answer, registry) := s.registry.perform c.tool c.op
    some ({ registry, clock := c.op.time, out := outAfter s.out c.tool answer }, answer.toList)
  else none

/-- Its outputs are the answers of `allow()`, in order. -/
def machine : Machine Sequential ToolCall Bool := ⟨step⟩

/-- The calls on one tool's breaker. -/
def historyOf (tool : Str) (calls : List ToolCall) : List BreakerOp :=
  calls.filterMap fun c => if c.tool = tool then some c.op else none

/-! ## Refinement -/

/-- A breaker, with or without a call out, stands for a state of the
reference. -/
def Refines (threshold : Nat) (cb : CircuitBreaker) (out : Prop) : Reference → Prop
  | .admitting outcomes =>
      cb.state = .closed ∧ cb.failures = Reference.trailing outcomes ∧ cb.failures < threshold
  | .refusing since => cb.state = .opened ∧ cb.openedAt = since ∧ ¬ out
  | .probing => cb.state = .halfOpen ∧ cb.probeInFlight = true ∧ out

section Step

variable {cb : CircuitBreaker} {ref : Reference} {out : Prop} {now : ℚ}

theorem refines_congr {threshold : Nat} {out' : Prop} (h : Refines threshold cb out ref)
    (ho : out ↔ out') : Refines threshold cb out' ref := by
  rwa [propext ho] at h

/-- `allow()`, with nothing out: the answer is the reference's, and a call
is out if it was admitted. -/
theorem refines_allow (now : ℚ) (h : Refines cb.threshold cb out ref) (ho : ¬ out) :
    (cb.allow now).1 = ref.admits cb.cooldown now ∧
      Refines cb.threshold (cb.allow now).2 ((cb.allow now).1 = true)
        (ref.next cb.threshold cb.cooldown (.allow now)) := by
  cases ref with
  | admitting outcomes =>
      rw [CircuitBreaker.allow_closed h.1]
      exact ⟨rfl, h⟩
  | refusing since =>
      obtain ⟨hs, rfl, -⟩ := h
      rcases lt_or_ge now (cb.openedAt + cb.cooldown) with hlt | hge
      · rw [CircuitBreaker.allow_opened_wait hs hlt]
        simp [Reference.admits, Reference.next, not_le.mpr hlt, Refines, hs]
      · rw [CircuitBreaker.allow_opened_probe hs hge]
        simp [Reference.admits, Reference.next, hge, Refines]
  | probing => exact absurd h.2.2 ho

/-- An outcome of the call that is out. -/
theorem refines_records {op : BreakerOp} (h : Refines cb.threshold cb out ref) (ho : out)
    (hop : op.records = true) : Refines cb.threshold (cb.perform op).2 False
      (ref.next cb.threshold cb.cooldown op) := by
  have hone := cb.one_le
  cases ref with
  | admitting outcomes =>
      obtain ⟨hs, hf, hlt⟩ := h
      cases op with
      | allow now => cases hop
      | success now =>
          refine ⟨rfl, ?_, hone⟩
          simp [CircuitBreaker.perform, CircuitBreaker.recordSuccess]
      | failure now =>
          -- the breaker counts the trailing failures of the history
          have hne : cb.state ≠ .halfOpen := by simp [hs]
          simp only [Reference.next, CircuitBreaker.perform, Reference.failing_iff,
            Reference.trailing_failure, ← hf]
          by_cases hreach : cb.threshold ≤ cb.failures + 1
          · rw [if_pos hreach, CircuitBreaker.recordFailure_reaches hne hreach]
            exact ⟨rfl, rfl, not_false⟩
          · rw [if_neg hreach, CircuitBreaker.recordFailure_below hne (Nat.not_le.mp hreach)]
            exact ⟨hs, by simp [hf], Nat.not_le.mp hreach⟩
  | refusing since => exact absurd ho h.2.2
  | probing =>
      cases op with
      | allow now => cases hop
      | success now => exact ⟨rfl, rfl, hone⟩
      | failure now =>
          rw [CircuitBreaker.perform, CircuitBreaker.recordFailure_halfOpen h.1]
          exact ⟨rfl, rfl, not_false⟩

/-- Any call the tool is ready for. -/
theorem refines_perform {op : BreakerOp} {tool : Str} {tools : List Str}
    (h : Refines cb.threshold cb (tool ∈ tools) ref) (hop : op.records = true ↔ tool ∈ tools) :
    Refines cb.threshold (cb.perform op).2 (tool ∈ outAfter tools tool (cb.perform op).1)
        (ref.next cb.threshold cb.cooldown op) ∧
      ∀ now, op = .allow now → (cb.perform op).1 = some (ref.admits cb.cooldown now) := by
  by_cases hrec : op.records = true
  · have hnext := refines_records h (hop.mp hrec) hrec
    constructor
    · refine refines_congr hnext ?_
      cases op with
      | allow now => cases hrec
      | success now => simp [CircuitBreaker.perform, outAfter]
      | failure now => simp [CircuitBreaker.perform, outAfter]
    · intro now hallow
      subst hallow
      cases hrec
  · have hnot : tool ∉ tools := fun hmem => hrec (hop.mpr hmem)
    cases op with
    | success now => exact absurd rfl hrec
    | failure now => exact absurd rfl hrec
    | allow now =>
        obtain ⟨hans, hnext⟩ := refines_allow now h hnot
        constructor
        · refine refines_congr hnext ?_
          simp only [CircuitBreaker.perform]
          cases (cb.allow now).1 with
          | true => simp [outAfter]
          | false => simp [outAfter, hnot]
        · intro t ht
          cases ht
          exact congrArg some hans

end Step

/-! ## Every tool follows its reference -/

section Run

variable {threshold : Nat} {cooldown clock : ℚ} {one_le : 1 ≤ threshold}
  {cooldown_pos : 0 < cooldown} {s s' : Sequential} {c : ToolCall} {calls : List ToolCall}
  {o : List Bool}

/-- Each tool's breaker stands for the reference machine after the tool's
own history. -/
def RefinedBy (threshold : Nat) (cooldown : ℚ) (s : Sequential) (calls : List ToolCall) : Prop :=
  ∀ tool, (s.registry.get tool).1.threshold = threshold ∧
    (s.registry.get tool).1.cooldown = cooldown ∧
    Refines threshold (s.registry.get tool).1 (tool ∈ s.out)
      (Reference.after threshold cooldown (historyOf tool calls))

theorem refinedBy_start :
    RefinedBy threshold cooldown (start threshold cooldown one_le cooldown_pos clock) [] := by
  intro tool
  exact ⟨rfl, rfl, rfl, rfl, one_le⟩

theorem historyOf_concat (tool : Str) (calls : List ToolCall) (c : ToolCall) :
    historyOf tool (calls ++ [c]) =
      historyOf tool calls ++ if c.tool = tool then [c.op] else [] := by
  unfold historyOf
  rw [List.filterMap_append]
  split
  · rename_i h
    simp [h]
  · rename_i h
    simp [h]

theorem after_concat (history : List BreakerOp) (op : BreakerOp) :
    Reference.after threshold cooldown (history ++ [op]) =
      (Reference.after threshold cooldown history).next threshold cooldown op := by
  simp [Reference.after, List.foldl_append]

theorem mem_outAfter_ne {out : List Str} {tool tool' : Str} (h : tool ≠ tool')
    (answer : Option Bool) : tool' ∈ outAfter out tool answer ↔ tool' ∈ out := by
  cases answer with
  | none => simp [outAfter, Ne.symm h]
  | some b => cases b <;> simp [outAfter, Ne.symm h]

theorem step_ok (h : machine.step s c = some (s', o)) :
    s.Enabled c ∧ s'.registry = (s.registry.perform c.tool c.op).2 ∧
      s'.out = outAfter s.out c.tool ((s.registry.get c.tool).1.perform c.op).1 ∧
      o = ((s.registry.get c.tool).1.perform c.op).1.toList := by
  change s.step c = some (s', o) at h
  unfold step at h
  split at h
  · rename_i hen
    obtain ⟨rfl, rfl⟩ := Prod.mk.inj (Option.some.inj h)
    exact ⟨hen, rfl, rfl, rfl⟩
  · cases h

/-- A tool's reference changes by the tool's own calls only. -/
theorem refinedBy_step (hi : RefinedBy threshold cooldown s calls)
    (h : machine.step s c = some (s', o)) :
    RefinedBy threshold cooldown s' (calls ++ [c]) ∧ ∀ now, c.op = .allow now →
      o = [(Reference.after threshold cooldown (historyOf c.tool calls)).admits cooldown now] := by
  obtain ⟨⟨-, hready⟩, hreg, hout, rfl⟩ := step_ok h
  obtain ⟨hthr, hcool, href⟩ := hi c.tool
  rw [← hthr] at href
  obtain ⟨hself, hans⟩ := refines_perform href hready
  rw [hthr, hcool] at hself
  constructor
  · -- the history of the called tool grows, every other one stays
    intro tool
    rw [hreg, hout, historyOf_concat]
    by_cases heq : c.tool = tool
    · subst heq
      rw [CircuitBreakerRegistry.get_perform_self, if_pos rfl, after_concat]
      exact ⟨CircuitBreaker.perform_threshold.trans hthr,
        CircuitBreaker.perform_cooldown.trans hcool, hself⟩
    · rw [CircuitBreakerRegistry.get_perform_ne heq, if_neg heq, List.append_nil]
      obtain ⟨hthr', hcool', href'⟩ := hi tool
      exact ⟨hthr', hcool', refines_congr href' (mem_outAfter_ne heq _).symm⟩
  · intro now hop
    rw [hans now hop, hcool, hthr]
    rfl

theorem refinedBy_run
    (h : machine.run (start threshold cooldown one_le cooldown_pos clock) calls = some (s, o)) :
    RefinedBy threshold cooldown s calls := by
  refine machine.run_history (motive := fun calls s _ => RefinedBy threshold cooldown s calls)
    refinedBy_start ?_ h
  intro as s₁ o₁ a s₂ o₂ _ ih hstep
  exact (refinedBy_step ih hstep).1

/-- **The reference decides.** Every `allow()` of a run answers what the
reference machine of its tool answers after the tool's own history. Both
measure the time since a trip in exact arithmetic. -/
theorem allow_eq_reference {pre post : List ToolCall} {tool : Str} {now : ℚ}
    (h : machine.run (start threshold cooldown one_le cooldown_pos clock)
      (pre ++ ⟨tool, .allow now⟩ :: post) = some (s, o)) :
    ∃ t o₁ t' o₂, machine.run (start threshold cooldown one_le cooldown_pos clock) pre =
        some (t, o₁) ∧
      machine.step t ⟨tool, .allow now⟩ = some (t',
        [(Reference.after threshold cooldown (historyOf tool pre)).admits cooldown now]) ∧
      o = o₁ ++ (Reference.after threshold cooldown (historyOf tool pre)).admits cooldown now ::
        o₂ := by
  obtain ⟨t, o₁, t', p, o₂, hpre, hstep, -, ho⟩ := machine.run_split h
  obtain rfl := (refinedBy_step (refinedBy_run hpre) hstep).2 now rfl
  exact ⟨t, o₁, t', o₂, hpre, hstep, ho⟩

end Run

/-- Two tools: the first fails twice and trips, the other stays open; after
the cooldown the first one is probed. -/
def twoTools : List ToolCall :=
  [⟨str "a", .allow 0⟩, ⟨str "a", .failure 1⟩, ⟨str "b", .allow 1⟩, ⟨str "a", .allow 2⟩,
    ⟨str "a", .failure 3⟩, ⟨str "a", .allow 4⟩, ⟨str "b", .failure 5⟩, ⟨str "a", .allow 33⟩]

/-- The probe of `twoTools` is let through. -/
theorem allow_eq_reference_probe : ∃ t o₁ t' o₂,
    machine.run (start 2 30 (by decide) (by decide) 0) (twoTools.take 7) = some (t, o₁) ∧
      machine.step t ⟨str "a", .allow 33⟩ = some (t',
        [(Reference.after 2 30 (historyOf (str "a") (twoTools.take 7))).admits 30 33]) ∧
      [true, true, true, false, true] = o₁ ++
        (Reference.after 2 30 (historyOf (str "a") (twoTools.take 7))).admits 30 33 :: o₂ := by
  have hrun : (machine.run (start 2 30 (by decide) (by decide) 0) twoTools).any
      (fun p => decide (p.2 = [true, true, true, false, true])) = true := by
    decide +kernel
  obtain ⟨⟨s, o⟩, hrun, ho⟩ := (Option.any_eq_true _ _).mp hrun
  obtain rfl : o = [true, true, true, false, true] := of_decide_eq_true ho
  have hsplit : twoTools = twoTools.take 7 ++ ⟨str "a", .allow 33⟩ :: [] := rfl
  rw [hsplit] at hrun
  exact allow_eq_reference hrun

end Sequential

end AgenticFirewall
