import AgenticFirewall.Lib.Dict
import AgenticFirewall.Lib.Text

/-!
# Per-tool circuit breaker

`app/firewall/circuit_breaker.py`. Every method runs under the breaker's
lock, so it is one step; a method that reads the clock takes the reading
as an argument.
-/

namespace AgenticFirewall

open Py

inductive BreakerState where
  | closed
  | opened
  | halfOpen
  deriving DecidableEq, Repr

/-- The constructor refuses a threshold below one and a cooldown that is
not positive. -/
structure CircuitBreaker where
  threshold : Nat
  cooldown : ℚ
  state : BreakerState := .closed
  failures : Nat := 0
  openedAt : ℚ := 0
  probeInFlight : Bool := false
  one_le : 1 ≤ threshold
  cooldown_pos : 0 < cooldown

namespace CircuitBreaker

def allow (now : ℚ) (cb : CircuitBreaker) : Bool × CircuitBreaker :=
  match cb.state with
  | .closed => (true, cb)
  | .opened =>
      if cb.cooldown ≤ now - cb.openedAt then
        (true, { cb with state := .halfOpen, probeInFlight := true })
      else (false, cb)
  | .halfOpen =>
      -- one probe at a time
      if cb.probeInFlight then (false, cb)
      else (true, { cb with probeInFlight := true })

def retryAfter (now : ℚ) (cb : CircuitBreaker) : ℚ :=
  match cb.state with
  | .opened => max (cb.openedAt + cb.cooldown - now) 0
  | _ => 0

def recordSuccess (cb : CircuitBreaker) : CircuitBreaker :=
  { cb with state := .closed, failures := 0, probeInFlight := false }

/-- `_trip`. -/
def trip (now : ℚ) (cb : CircuitBreaker) : CircuitBreaker :=
  { cb with state := .opened, openedAt := now, probeInFlight := false, failures := 0 }

def recordFailure (now : ℚ) (cb : CircuitBreaker) : CircuitBreaker :=
  if cb.state = .halfOpen then cb.trip now
  else if cb.threshold ≤ cb.failures + 1 then
    { cb with failures := cb.failures + 1 }.trip now
  else { cb with failures := cb.failures + 1 }

/-! ## What each method does, state by state -/

variable {cb : CircuitBreaker} {now : ℚ}

theorem allow_closed (h : cb.state = .closed) : cb.allow now = (true, cb) := by
  simp [allow, h]

theorem allow_opened_wait (h : cb.state = .opened) (ht : now < cb.openedAt + cb.cooldown) :
    cb.allow now = (false, cb) := by
  have hlt : ¬ cb.cooldown ≤ now - cb.openedAt := by
    rw [not_le, sub_lt_iff_lt_add']
    exact ht
  simp [allow, h, hlt]

theorem allow_opened_probe (h : cb.state = .opened) (ht : cb.openedAt + cb.cooldown ≤ now) :
    cb.allow now = (true, { cb with state := .halfOpen, probeInFlight := true }) := by
  have hle : cb.cooldown ≤ now - cb.openedAt := le_sub_iff_add_le'.mpr ht
  simp [allow, h, hle]

theorem allow_halfOpen_busy (h : cb.state = .halfOpen) (hp : cb.probeInFlight = true) :
    cb.allow now = (false, cb) := by
  simp [allow, h, hp]

/-- `allow()` never opens the breaker. -/
theorem allow_opened (h : (cb.allow now).2.state = .opened) : cb.state = .opened := by
  cases hs : cb.state with
  | opened => rfl
  | closed =>
      rw [allow_closed hs, hs] at h
      cases h
  | halfOpen =>
      simp only [allow, hs] at h
      split at h <;> simp [hs] at h

/-- A refusal leaves the breaker as it is. -/
theorem allow_refused (h : (cb.allow now).1 = false) : (cb.allow now).2 = cb := by
  unfold allow at h ⊢
  split at h
  · cases h
  · split at h
    · cases h
    · rename_i hlt
      simp [hlt]
  · split at h
    · rename_i hp
      simp [hp]
    · cases h

theorem allow_cooldown : (cb.allow now).2.cooldown = cb.cooldown := by
  unfold allow
  split
  · rfl
  · split <;> rfl
  · split <;> rfl

@[simp] theorem recordSuccess_state : cb.recordSuccess.state = .closed := rfl

@[simp] theorem trip_state : (cb.trip now).state = .opened := rfl

@[simp] theorem trip_openedAt : (cb.trip now).openedAt = now := rfl

theorem recordFailure_halfOpen (h : cb.state = .halfOpen) :
    cb.recordFailure now = cb.trip now := by
  simp [recordFailure, h]

/-- A failure that reaches the threshold trips the breaker, whether it is
`CLOSED` or already `OPEN`. -/
theorem recordFailure_reaches (h : cb.state ≠ .halfOpen)
    (hf : cb.threshold ≤ cb.failures + 1) : cb.recordFailure now = cb.trip now := by
  simp [recordFailure, h, hf, trip]

theorem recordFailure_below (h : cb.state ≠ .halfOpen)
    (hf : cb.failures + 1 < cb.threshold) :
    cb.recordFailure now = { cb with failures := cb.failures + 1 } := by
  simp [recordFailure, h, Nat.not_le.mpr hf]

theorem recordFailure_cooldown : (cb.recordFailure now).cooldown = cb.cooldown := by
  unfold recordFailure
  split
  · rfl
  · split <;> rfl

/-- A failure that opens the breaker stamps it with its own time. -/
theorem recordFailure_opens (h : cb.state ≠ .opened)
    (ho : (cb.recordFailure now).state = .opened) : (cb.recordFailure now).openedAt = now := by
  by_cases hh : cb.state = .halfOpen
  · rw [recordFailure_halfOpen hh, trip_openedAt]
  · by_cases hf : cb.threshold ≤ cb.failures + 1
    · rw [recordFailure_reaches hh hf, trip_openedAt]
    · rw [recordFailure_below hh (Nat.not_le.mp hf)] at ho
      exact absurd ho h

theorem recordFailure_state : (cb.recordFailure now).state ≠ .halfOpen := by
  unfold recordFailure
  split
  · simp
  · split
    · simp
    · assumption

end CircuitBreaker

/-! ## The registry -/

/-- One breaker per key, made on first use and never dropped. -/
structure CircuitBreakerRegistry where
  threshold : Nat
  cooldown : ℚ
  breakers : Dict Str CircuitBreaker := .empty
  one_le : 1 ≤ threshold
  cooldown_pos : 0 < cooldown

namespace CircuitBreakerRegistry

/-- A fresh breaker of the registry. -/
def fresh (r : CircuitBreakerRegistry) : CircuitBreaker :=
  { threshold := r.threshold, cooldown := r.cooldown, one_le := r.one_le,
    cooldown_pos := r.cooldown_pos }

/-- The breaker of `key`, and the registry with it in place. -/
def get (r : CircuitBreakerRegistry) (key : Str) :
    CircuitBreaker × CircuitBreakerRegistry :=
  match r.breakers.get key with
  | some breaker => (breaker, r)
  | none => (r.fresh, { r with breakers := r.breakers.set key r.fresh })

/-- The registry after a method of `key`'s breaker left it as `cb`. -/
def put (r : CircuitBreakerRegistry) (key : Str) (cb : CircuitBreaker) :
    CircuitBreakerRegistry :=
  { r with breakers := r.breakers.set key cb }

theorem get_put (r : CircuitBreakerRegistry) (key key' : Str) (cb : CircuitBreaker) :
    ((r.put key cb).get key').1 = if key = key' then cb else (r.get key').1 := by
  unfold put get
  rw [Dict.get_set]
  by_cases hk : key = key'
  · simp [hk]
  · simp only [if_neg hk]
    cases r.breakers.get key' <;> rfl

/-- Making the breaker of one key changes no key's breaker. -/
theorem get_get (r : CircuitBreakerRegistry) (key key' : Str) :
    ((r.get key).2.get key').1 = (r.get key').1 := by
  unfold get
  cases hk : r.breakers.get key with
  | some breaker => rfl
  | none =>
      simp only [Dict.get_set]
      by_cases heq : key = key'
      · subst heq
        simp [hk]
      · simp only [if_neg heq]
        cases r.breakers.get key' <;> rfl

end CircuitBreakerRegistry

end AgenticFirewall
