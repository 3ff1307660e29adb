import AgenticFirewall.Firewall.CircuitBreaker
import AgenticFirewall.Lib.Machine

/-!
# Concurrent callers of one breaker

Every `allow()` that returns `True` admits a call, and the outcome of an
admitted call is recorded once, whenever it ends. The breaker sees only
the order of these method calls, so any number of callers is one machine
whose actions carry the clock reading and the call an outcome belongs to.
-/

namespace AgenticFirewall

open Py Transition

/-- A call the breaker admitted: whether it was `CLOSED` then, and whether
the outcome is still to be recorded. -/
structure Call where
  wasClosed : Bool
  outstanding : Bool := true

/-- A breaker, the last clock reading, the calls admitted so far (a call
is named by its index) and the one admitted when the breaker last entered
`HALF_OPEN`. -/
structure Callers where
  breaker : CircuitBreaker
  clock : ℚ
  calls : List Call := []
  probe : Option Nat := none

inductive CallerAct where
  | allow (now : ℚ)
  | success (call : Nat) (now : ℚ)
  | failure (call : Nat) (now : ℚ)

namespace CallerAct

def time : CallerAct → ℚ
  | .allow now => now
  | .success _ now => now
  | .failure _ now => now

/-- The call whose outcome is recorded. -/
def recorded : CallerAct → Option Nat
  | .allow _ => none
  | .success i _ => some i
  | .failure i _ => some i

end CallerAct

namespace Callers

/-- A new breaker, nobody waiting. -/
def start (threshold : Nat) (cooldown : ℚ) (one_le : 1 ≤ threshold)
    (cooldown_pos : 0 < cooldown) (clock : ℚ) : Callers :=
  { breaker := { threshold, cooldown, one_le, cooldown_pos }, clock }

/-- `allow()`: an admitted call is new, and it is the probe when it took
the breaker out of `OPEN`. -/
def callAllow (now : ℚ) (s : Callers) : Callers :=
  let (admitted, breaker) := s.breaker.allow now
  { breaker
    clock := now
    calls := if admitted then
        s.calls ++ [{ wasClosed := decide (s.breaker.state = .closed) }]
      else s.calls
    probe := if s.breaker.state = .opened ∧ breaker.state = .halfOpen then
        some s.calls.length
      else s.probe }

/-- A method that records the outcome of call `i`. -/
def conclude (i : Nat) (now : ℚ) (breaker : CircuitBreaker) (s : Callers) : Callers :=
  { s with
    breaker
    clock := now
    calls := s.calls.modify i fun c => { c with outstanding := false } }

/-- Call `i` was admitted and its outcome is still to be recorded. -/
def Waiting (s : Callers) (i : Nat) : Prop :=
  ∃ c, s.calls[i]? = some c ∧ c.outstanding = true

instance (s : Callers) (i : Nat) : Decidable (s.Waiting i) :=
  match h : s.calls[i]? with
  | none => isFalse (by rintro ⟨c, hc, -⟩; rw [h] at hc; cases hc)
  | some c =>
      decidable_of_iff (c.outstanding = true)
        ⟨fun ho => ⟨c, h, ho⟩, by rintro ⟨d, hd, ho⟩; rw [h] at hd; cases hd; exact ho⟩

/-- One method call on the breaker. The clock never runs backwards and an
outcome is recorded once, of a call that was admitted. -/
def step (s : Callers) : CallerAct → Option (Callers × List Bool)
  | .allow now =>
      if s.clock ≤ now then some (s.callAllow now, [(s.breaker.allow now).1]) else none
  | .success i now =>
      if s.clock ≤ now ∧ s.Waiting i then
        some (s.conclude i now s.breaker.recordSuccess, [])
      else none
  | .failure i now =>
      if s.clock ≤ now ∧ s.Waiting i then
        some (s.conclude i now (s.breaker.recordFailure now), [])
      else none

/-- Its outputs are the answers of `allow()`, in order. -/
def machine : Machine Callers CallerAct Bool := ⟨step⟩

/-! ## What one step can do -/

theorem step_cases {s s' : Callers} {a : CallerAct} {o : List Bool}
    (h : machine.step s a = some (s', o)) :
    s.clock ≤ a.time ∧
      ((∃ now, a = .allow now ∧ s' = s.callAllow now ∧ o = [(s.breaker.allow now).1]) ∨
        (∃ i now, a = .success i now ∧ s.Waiting i ∧
          s' = s.conclude i now s.breaker.recordSuccess ∧ o = []) ∨
        (∃ i now, a = .failure i now ∧ s.Waiting i ∧
          s' = s.conclude i now (s.breaker.recordFailure now) ∧ o = [])) := by
  change s.step a = some (s', o) at h
  cases a with
  | allow now =>
      simp only [step] at h
      split at h
      · rename_i hc
        obtain ⟨rfl, rfl⟩ := Prod.mk.inj (Option.some.inj h)
        exact ⟨hc, .inl ⟨now, rfl, rfl, rfl⟩⟩
      · cases h
  | success i now =>
      simp only [step] at h
      split at h
      · rename_i hc
        obtain ⟨rfl, rfl⟩ := Prod.mk.inj (Option.some.inj h)
        exact ⟨hc.1, .inr (.inl ⟨i, now, rfl, hc.2, rfl, rfl⟩)⟩
      · cases h
  | failure i now =>
      simp only [step] at h
      split at h
      · rename_i hc
        obtain ⟨rfl, rfl⟩ := Prod.mk.inj (Option.some.inj h)
        exact ⟨hc.1, .inr (.inr ⟨i, now, rfl, hc.2, rfl, rfl⟩)⟩
      · cases h

theorem callAllow_rejected {s : Callers} {now : ℚ} (h : s.breaker.allow now = (false, s.breaker)) :
    s.callAllow now = { s with clock := now } := by
  have hp : ¬ (s.breaker.state = .opened ∧ s.breaker.state = .halfOpen) := by
    intro h
    obtain ⟨h₁, h₂⟩ := h
    rw [h₁] at h₂
    cases h₂
  simp [callAllow, h, hp]

theorem callAllow_closed {s : Callers} (now : ℚ) (h : s.breaker.state = .closed) :
    s.callAllow now = { s with clock := now, calls := s.calls ++ [{ wasClosed := true }] } := by
  simp [callAllow, CircuitBreaker.allow_closed h, h]

theorem callAllow_probe {s : Callers} {now : ℚ} (h : s.breaker.state = .opened)
    (ht : s.breaker.openedAt + s.breaker.cooldown ≤ now) :
    s.callAllow now =
      { breaker := { s.breaker with state := .halfOpen, probeInFlight := true }
        clock := now
        calls := s.calls ++ [{ wasClosed := false }]
        probe := some s.calls.length } := by
  simp [callAllow, CircuitBreaker.allow_opened_probe h ht, h]

theorem callAllow_halfOpen_free {s : Callers} (now : ℚ) (h : s.breaker.state = .halfOpen)
    (hp : s.breaker.probeInFlight = false) :
    s.callAllow now =
      { s with
        breaker := { s.breaker with probeInFlight := true }
        clock := now
        calls := s.calls ++ [{ wasClosed := false }] } := by
  simp [callAllow, CircuitBreaker.allow, h, hp]

theorem callAllow_breaker (s : Callers) (now : ℚ) :
    (s.callAllow now).breaker = (s.breaker.allow now).2 := rfl

theorem getElem?_conclude (s : Callers) (i j : Nat) (now : ℚ) (b : CircuitBreaker) :
    (s.conclude i now b).calls[j]? =
      (fun c => if i = j then { c with outstanding := false } else c) <$> s.calls[j]? :=
  List.getElem?_modify _ i s.calls j

end Callers

end AgenticFirewall
