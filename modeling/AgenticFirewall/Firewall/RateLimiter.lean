import AgenticFirewall.Lib.Dict
import AgenticFirewall.Lib.Text

/-!
# Sliding-window rate limiter

`app/firewall/rate_limiter.py`. `check` runs under the limiter's lock, so
it is one step that takes the clock reading as an argument.
-/

namespace AgenticFirewall

open Py

structure RateLimitResult where
  allowed : Bool
  retryAfter : ℚ := 0

/-- At most `maxRequests` per `windowSeconds` per key; the constructor
refuses a limit below one and a window that is not positive. -/
structure SlidingWindowRateLimiter where
  maxRequests : Nat
  windowSeconds : ℚ
  /-- `_SWEEP_THRESHOLD` -/
  sweepThreshold : Nat := 10000
  hits : Dict Str (List ℚ) := .empty
  one_le : 1 ≤ maxRequests
  window_pos : 0 < windowSeconds

namespace SlidingWindowRateLimiter

/-- `_sweep`: drop every key without a hit after `cutoff`. -/
def sweep (cutoff : ℚ) (l : SlidingWindowRateLimiter) : SlidingWindowRateLimiter :=
  { l with hits := l.hits.filter fun kd => kd.2.getLast?.any (cutoff < ·) }

/-- Sweep when too many keys are stored. -/
def maybeSweep (cutoff : ℚ) (l : SlidingWindowRateLimiter) : SlidingWindowRateLimiter :=
  if l.sweepThreshold < l.hits.size then l.sweep cutoff else l

/-- The deque of `key`; empty for a new key. -/
def deque (l : SlidingWindowRateLimiter) (key : Str) : List ℚ := (l.hits.get key).getD []

def check (now : ℚ) (key : Str) (l : SlidingWindowRateLimiter) :
    RateLimitResult × SlidingWindowRateLimiter :=
  let cutoff := now - l.windowSeconds
  let l := l.maybeSweep cutoff
  let hits := (l.deque key).dropWhile (· ≤ cutoff)
  if l.maxRequests ≤ hits.length then
    ({ allowed := false, retryAfter := max (hits.headD 0 + l.windowSeconds - now) 0 },
      { l with hits := l.hits.set key hits })
  else
    ({ allowed := true }, { l with hits := l.hits.set key (hits ++ [now]) })

section

variable (l : SlidingWindowRateLimiter) (cutoff now : ℚ) (key : Str)

@[simp] theorem maybeSweep_maxRequests : (l.maybeSweep cutoff).maxRequests = l.maxRequests := by
  unfold maybeSweep
  split <;> rfl

@[simp] theorem maybeSweep_windowSeconds :
    (l.maybeSweep cutoff).windowSeconds = l.windowSeconds := by
  unfold maybeSweep
  split <;> rfl

@[simp] theorem check_maxRequests : (l.check now key).2.maxRequests = l.maxRequests := by
  unfold check
  simp only
  split <;> simp

@[simp] theorem check_windowSeconds : (l.check now key).2.windowSeconds = l.windowSeconds := by
  unfold check
  simp only
  split <;> simp

/-- What `check` reads: the live hits of the key after a possible sweep. -/
def liveHits : List ℚ :=
  ((l.maybeSweep (now - l.windowSeconds)).deque key).dropWhile (· ≤ now - l.windowSeconds)

/-- The answer of `check`. -/
theorem check_result :
    (l.check now key).1 =
      if l.maxRequests ≤ (l.liveHits now key).length then
        { allowed := false
          retryAfter := max ((l.liveHits now key).headD 0 + l.windowSeconds - now) 0 }
      else { allowed := true } := by
  unfold check liveHits
  simp only [maybeSweep_maxRequests, maybeSweep_windowSeconds]
  split
  · rfl
  · rfl

theorem check_allowed_iff :
    (l.check now key).1.allowed = true ↔ (l.liveHits now key).length < l.maxRequests := by
  rw [check_result]
  split
  · rename_i h
    simpa using h
  · rename_i h
    simpa using h

/-- The deque of the checked key ends up with the live hits, and `now` too
when the call is allowed. -/
theorem deque_check_self :
    (l.check now key).2.deque key =
      l.liveHits now key ++ (if (l.check now key).1.allowed then [now] else []) := by
  unfold check liveHits
  simp only
  split <;> simp [deque]

/-- Another key is touched by the sweep alone. -/
theorem deque_check_ne {k : Str} (h : key ≠ k) :
    (l.check now key).2.deque k = (l.maybeSweep (now - l.windowSeconds)).deque k := by
  unfold check
  simp only
  split <;> simp [deque, Dict.get_set_ne _ _ h]

/-- A sweep leaves a key's deque alone or, when its last hit is stale,
drops it. -/
theorem deque_sweep (k : Str) :
    (l.sweep cutoff).deque k =
      if (l.deque k).getLast?.any (cutoff < ·) then l.deque k else [] := by
  simp only [deque, sweep, Dict.get_filter]
  rcases Option.eq_none_or_eq_some (l.hits.get k) with hk | ⟨d, hk⟩
  · simp [hk]
  · by_cases hd : d.getLast?.any (cutoff < ·) <;> simp [hk, Option.filter, hd]

end

end SlidingWindowRateLimiter

end AgenticFirewall
