import AgenticFirewall.Firewall.BreakerOps
import AgenticFirewall.Firewall.Segments

/-!
# What `retry_after` tells a refused caller

`retry_after()` reads the cooldown of an `OPEN` breaker. A caller refused
in `HALF_OPEN`, where the probe is still out, is told to wait zero seconds
and gets no `Retry-After` header.
-/

namespace AgenticFirewall

open Py Transition

/-- `_retry_headers` of `main.py`: the value of the header, if there is
one. -/
def retryHeaders (retryAfter : Option ℚ) : Option Int :=
  match retryAfter with
  | none => none
  | some r => if r = 0 then none else some (max 1 ⌈r⌉)

/-- A breaker and the last reading of its clock. -/
structure ClockedBreaker where
  breaker : CircuitBreaker
  clock : ℚ

namespace ClockedBreaker

/-- A new breaker. -/
def start (threshold : Nat) (cooldown : ℚ) (one_le : 1 ≤ threshold)
    (cooldown_pos : 0 < cooldown) (clock : ℚ) : ClockedBreaker :=
  { breaker := { threshold, cooldown, one_le, cooldown_pos }, clock }

/-- Any call, as long as the clock does not run backwards. -/
def step (s : ClockedBreaker) (op : BreakerOp) : Option (ClockedBreaker × List Bool) :=
  if s.clock ≤ op.time then
    some ({ breaker := (s.breaker.perform op).2, clock := op.time },
      (s.breaker.perform op).1.toList)
  else none

def machine : Machine ClockedBreaker BreakerOp Bool := ⟨step⟩

end ClockedBreaker

namespace CircuitBreaker

variable {cb : CircuitBreaker} {now : ℚ}

/-- If the breaker refuses at `now`, the wait it names then is positive,
sufficient and not longer than necessary, and the header carries it. -/
def TruthfulWait (cb : CircuitBreaker) (now : ℚ) : Prop :=
  (cb.allow now).1 = false →
    0 < (cb.allow now).2.retryAfter now ∧
      (∀ t, now ≤ t → t < now + (cb.allow now).2.retryAfter now → (cb.allow t).1 = false) ∧
      (cb.allow (now + (cb.allow now).2.retryAfter now)).1 = true ∧
      ∃ n : Int, retryHeaders (some ((cb.allow now).2.retryAfter now)) = some n ∧
        (cb.allow now).2.retryAfter now ≤ n

/-- The probe of a `HALF_OPEN` breaker is out. -/
def ProbeOut (cb : CircuitBreaker) : Prop := cb.state = .halfOpen ∧ cb.probeInFlight = true

theorem retryAfter_opened (h : cb.state = .opened) (ht : now < cb.openedAt + cb.cooldown) :
    cb.retryAfter now = cb.openedAt + cb.cooldown - now := by
  have hpos : 0 ≤ cb.openedAt + cb.cooldown - now := (sub_pos.mpr ht).le
  simp [retryAfter, h, hpos]

theorem retryAfter_halfOpen (h : cb.state = .halfOpen) : cb.retryAfter now = 0 := by
  simp [retryAfter, h]

theorem retryHeaders_pos {r : ℚ} (h : 0 < r) :
    ∃ n : Int, retryHeaders (some r) = some n ∧ r ≤ n := by
  refine ⟨max 1 ⌈r⌉, by simp [retryHeaders, h.ne'], ?_⟩
  calc r ≤ (⌈r⌉ : ℚ) := Int.le_ceil r
    _ ≤ (max 1 ⌈r⌉ : Int) := by exact_mod_cast le_max_right 1 ⌈r⌉

/-- Who refuses, and what the caller is told. -/
theorem refused_cases (h : (cb.allow now).1 = false) :
    (cb.state = .opened ∧ now < cb.openedAt + cb.cooldown) ∨ cb.ProbeOut := by
  cases hs : cb.state with
  | closed =>
      rw [allow_closed hs] at h
      cases h
  | opened =>
      rcases lt_or_ge now (cb.openedAt + cb.cooldown) with hlt | hge
      · exact .inl ⟨rfl, hlt⟩
      · rw [allow_opened_probe hs hge] at h
        cases h
  | halfOpen =>
      cases hp : cb.probeInFlight with
      | true => exact .inr ⟨hs, hp⟩
      | false =>
          simp [allow, hs, hp] at h

theorem truthfulWait_iff : cb.TruthfulWait now ↔ ¬ cb.ProbeOut := by
  constructor
  · intro h hout
    have hrefused : (cb.allow now).1 = false := by
      rw [allow_halfOpen_busy hout.1 hout.2]
    obtain ⟨hpos, -⟩ := h hrefused
    rw [allow_refused hrefused, retryAfter_halfOpen hout.1] at hpos
    exact lt_irrefl 0 hpos
  · intro hout hrefused
    rw [allow_refused hrefused]
    obtain ⟨hs, hlt⟩ := (refused_cases hrefused).resolve_right hout
    rw [retryAfter_opened hs hlt]
    have hend : now + (cb.openedAt + cb.cooldown - now) = cb.openedAt + cb.cooldown :=
      add_sub_cancel _ _
    rw [hend]
    refine ⟨sub_pos.mpr hlt, ?_, ?_, retryHeaders_pos (sub_pos.mpr hlt)⟩
    · intro t _ ht
      rw [allow_opened_wait hs ht]
    · rw [allow_opened_probe hs le_rfl]

/-- A denial at the circuit breaker carries the wait the breaker names. -/
theorem circuit_denial {cfg : Config} {env : Env} {req : ToolRequest} {ctx : Ctx}
    {reply : Firewall.ToolsReply} {fw fw' : Firewall} {result : GatewayResult}
    (h : fw.pipelineTools cfg env req ctx reply = (.ok (some result), fw'))
    (hs : result.stage = .circuitBreaker) :
    (fw.askBreaker env req).1 = false ∧
      result.retryAfter =
        some ((fw.askBreaker env req).2.retryAfter (env.monotonic .retryAfter)) := by
  have hexit := Firewall.pipelineTools_exit cfg env req fw ctx reply
  rw [h] at hexit
  cases hexit with
  | circuitOpen ha => exact ⟨ha, rfl⟩
  | _ => cases hs

/-- So a truthful wait reaches the caller, with its header. -/
theorem TruthfulWait.denial {cfg : Config} {env : Env} {req : ToolRequest} {ctx : Ctx}
    {reply : Firewall.ToolsReply} {fw fw' : Firewall} {result : GatewayResult}
    (hwait : (fw.breakers.get req.tool).1.TruthfulWait (env.monotonic .breakerAllow))
    (htime : env.monotonic .retryAfter = env.monotonic .breakerAllow)
    (h : fw.pipelineTools cfg env req ctx reply = (.ok (some result), fw'))
    (hs : result.stage = .circuitBreaker) :
    ∃ r n, result.retryAfter = some r ∧ 0 < r ∧ retryHeaders (some r) = some n ∧ r ≤ n := by
  obtain ⟨hrefused, hretry⟩ := circuit_denial h hs
  obtain ⟨hpos, -, -, n, hn, hle⟩ := hwait hrefused
  rw [htime] at hretry
  exact ⟨_, n, hretry, hpos, hn, hle⟩

end CircuitBreaker

namespace ClockedBreaker

/-! ## Reachable states -/

theorem perform_flagged {cb : CircuitBreaker} {op : BreakerOp}
    (hi : cb.state = .halfOpen → cb.probeInFlight = true)
    (h : (cb.perform op).2.state = .halfOpen) : (cb.perform op).2.probeInFlight = true := by
  -- only `allow` leads to `HALF_OPEN`, and it takes the probe there
  cases op with
  | allow now =>
      simp only [CircuitBreaker.perform, CircuitBreaker.allow] at h ⊢
      split at h
      · rename_i hs
        rw [hs] at h
        cases h
      · split at h
        · rename_i hge
          simp [hge]
        · rename_i hs _
          rw [hs] at h
          cases h
      · rename_i hs
        simp [hi hs]
  | success now => exact absurd h (CircuitBreaker.perform_records rfl)
  | failure now => exact absurd h (CircuitBreaker.perform_records rfl)

section Run

variable {threshold : Nat} {cooldown clock : ℚ} {one_le : 1 ≤ threshold}
  {cooldown_pos : 0 < cooldown} {ops : List BreakerOp} {s : ClockedBreaker} {o : List Bool}

/-- A reachable breaker is `HALF_OPEN` only with its probe out. -/
theorem run_flagged
    (h : machine.run (start threshold cooldown one_le cooldown_pos clock) ops = some (s, o))
    (hs : s.breaker.state = .halfOpen) : s.breaker.ProbeOut := by
  have hstep : ∀ (s : ClockedBreaker) op s' o,
      (s.breaker.state = .halfOpen → s.breaker.probeInFlight = true) →
        machine.step s op = some (s', o) →
        s'.breaker.state = .halfOpen → s'.breaker.probeInFlight = true := by
    intro s op s' o hi hstep hs
    simp only [machine, step] at hstep
    split at hstep
    · cases hstep
      exact perform_flagged hi hs
    · cases hstep
  exact ⟨hs, machine.run_invariant hstep (fun hs => by cases hs) h hs⟩

/-- **The wait is truthful** in a reachable state exactly when the breaker
is not `HALF_OPEN`. -/
theorem truthful_wait_iff
    (h : machine.run (start threshold cooldown one_le cooldown_pos clock) ops = some (s, o))
    (now : ℚ) : s.breaker.TruthfulWait now ↔ s.breaker.state ≠ .halfOpen := by
  rw [CircuitBreaker.truthfulWait_iff]
  constructor
  · intro hout hs
    exact hout (run_flagged h hs)
  · intro hs hout
    exact hs hout.1

end Run

/-- A trip, and a caller that comes too early. -/
def tripped : List BreakerOp := [.allow 0, .failure 0, .allow 10]

theorem truthful_wait_iff_tripped :
    ∃ s o, machine.run (start 1 30 (by decide) (by decide) 0) tripped = some (s, o) ∧
      s.breaker.TruthfulWait 10 := by
  have hsome : (machine.run (start 1 30 (by decide) (by decide) 0) tripped).any
      (fun p => decide (p.1.breaker.state = .opened)) = true := by
    decide +kernel
  obtain ⟨⟨s, o⟩, hrun, hs⟩ := (Option.any_eq_true _ _).mp hsome
  have hopened : s.breaker.state = .opened := by simpa using hs
  exact ⟨s, o, hrun, (truthful_wait_iff hrun 10).mpr (by simp [hopened])⟩

/-- The cooldown is over and the probe has been let through. -/
def probing : List BreakerOp := [.allow 0, .failure 0, .allow 30]

/-- The next caller is refused and told to wait zero seconds. -/
theorem probing_names_no_wait :
    ¬ ∀ ops s o now, machine.run (start 1 30 (by decide) (by decide) 0) ops = some (s, o) →
      s.clock ≤ now → s.breaker.TruthfulWait now := by
  intro h
  have hsome : (machine.run (start 1 30 (by decide) (by decide) 0) probing).any
      (fun p => decide (p.1.breaker.state = .halfOpen ∧ p.1.breaker.probeInFlight = true ∧
        p.1.clock ≤ 31)) = true := by
    decide +kernel
  obtain ⟨⟨s, o⟩, hrun, hs⟩ := (Option.any_eq_true _ _).mp hsome
  obtain ⟨hhalf, hflag, hclock⟩ := of_decide_eq_true hs
  exact CircuitBreaker.truthfulWait_iff.mp (h probing s o 31 hrun hclock) ⟨hhalf, hflag⟩

end ClockedBreaker

end AgenticFirewall
