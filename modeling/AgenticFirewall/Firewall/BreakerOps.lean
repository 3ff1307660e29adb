import AgenticFirewall.Firewall.CircuitBreaker
import AgenticFirewall.Lib.Machine

/-!
# Calls on breakers

The three methods that change a breaker as data, with the reading of the
clock when each runs, on one breaker and through the registry.
-/

namespace AgenticFirewall

open Py Transition

/-- A method call on a breaker and the time it is made. -/
inductive BreakerOp where
  | allow (now : ℚ)
  | success (now : ℚ)
  | failure (now : ℚ)

namespace BreakerOp

def time : BreakerOp → ℚ
  | .allow now => now
  | .success now => now
  | .failure now => now

/-- The call records an outcome. -/
def records : BreakerOp → Bool
  | .allow _ => false
  | _ => true

end BreakerOp

/-- The call on one breaker: what `allow()` answers, and the breaker after
it. -/
def CircuitBreaker.perform (op : BreakerOp) (cb : CircuitBreaker) :
    Option Bool × CircuitBreaker :=
  match op with
  | .allow now => (some (cb.allow now).1, (cb.allow now).2)
  | .success _ => (none, cb.recordSuccess)
  | .failure now => (none, cb.recordFailure now)

/-- The call on the breaker of `key`. -/
def CircuitBreakerRegistry.perform (key : Str) (op : BreakerOp) (r : CircuitBreakerRegistry) :
    Option Bool × CircuitBreakerRegistry :=
  let (breaker, r) := r.get key
  let (answer, breaker) := breaker.perform op
  (answer, r.put key breaker)

namespace CircuitBreaker

variable {cb : CircuitBreaker} {op : BreakerOp}

theorem perform_cooldown : (cb.perform op).2.cooldown = cb.cooldown := by
  cases op with
  | allow now => exact allow_cooldown
  | success now => rfl
  | failure now => exact recordFailure_cooldown

theorem allow_threshold {now : ℚ} : (cb.allow now).2.threshold = cb.threshold := by
  unfold allow
  split
  · rfl
  · split <;> rfl
  · split <;> rfl

theorem recordFailure_threshold {now : ℚ} :
    (cb.recordFailure now).threshold = cb.threshold := by
  unfold recordFailure
  split
  · rfl
  · split <;> rfl

theorem perform_threshold : (cb.perform op).2.threshold = cb.threshold := by
  cases op with
  | allow now => exact allow_threshold
  | success now => rfl
  | failure now => exact recordFailure_threshold

/-- A recorded outcome ends a `HALF_OPEN` period. -/
theorem perform_records (h : op.records = true) : (cb.perform op).2.state ≠ .halfOpen := by
  cases op with
  | allow now => cases h
  | success now => exact nofun
  | failure now => exact recordFailure_state

end CircuitBreaker

namespace CircuitBreakerRegistry

variable {r : CircuitBreakerRegistry} {key key' : Str} {op : BreakerOp}

/-- The breaker of the key is the one the call left, every other breaker is
as it was. -/
theorem get_perform : ((r.perform key op).2.get key').1 =
    if key = key' then ((r.get key).1.perform op).2 else (r.get key').1 := by
  unfold perform
  simp only
  rw [get_put, get_get]

theorem get_perform_self : ((r.perform key op).2.get key).1 = ((r.get key).1.perform op).2 := by
  rw [get_perform, if_pos rfl]

theorem get_perform_ne (h : key ≠ key') : ((r.perform key op).2.get key').1 = (r.get key').1 := by
  rw [get_perform, if_neg h]

end CircuitBreakerRegistry

end AgenticFirewall
