import AgenticFirewall.Lib.Dict
import AgenticFirewall.Lib.Text

/-!
# Policy models

`app/models/policies.py`: what a loaded policy holds. A field's
validator is carried by the structure, so a policy that `load_policy`
refuses cannot be built.
-/

namespace AgenticFirewall

open Py

inductive RiskLevel where
  | low
  | medium
  | high
  | critical
  deriving DecidableEq, Repr

namespace RiskLevel

def toNat : RiskLevel → Nat
  | .low => 1
  | .medium => 2
  | .high => 3
  | .critical => 4

instance : LE RiskLevel := ⟨fun a b => a.toNat ≤ b.toNat⟩

instance (a b : RiskLevel) : Decidable (a ≤ b) :=
  inferInstanceAs (Decidable (a.toNat ≤ b.toNat))

def name : RiskLevel → Str
  | .low => str "LOW"
  | .medium => str "MEDIUM"
  | .high => str "HIGH"
  | .critical => str "CRITICAL"

theorem encodable_name (r : RiskLevel) : Encodable r.name := by
  cases r <;> exact encodable_str _

end RiskLevel

/-- Exact tool names only: not empty, no `*`, no `?`. -/
def validToolName (name : Str) : Bool := !name.isEmpty && !(name.any (oneOf "*?"))

structure RolePolicy where
  allowedTools : List Str := []
  maxRisk : RiskLevel := .low
  canManage : Bool := false
  noWildcards : allowedTools.all validToolName = true := by decide

structure RateLimitPolicy where
  maxRequests : Nat := 100
  windowSeconds : ℚ := 60
  one_le : 1 ≤ maxRequests := by decide
  window_pos : 0 < windowSeconds := by decide

structure CircuitBreakerPolicy where
  failureThreshold : Nat := 5
  cooldownSeconds : ℚ := 30
  one_le : 1 ≤ failureThreshold := by decide
  cooldown_pos : 0 < cooldownSeconds := by decide

structure ScannerPolicy where
  maxScanChars : Nat := 1000000
  ge_thousand : 1000 ≤ maxScanChars := by decide

structure Policy where
  sessionTtlSeconds : Nat := 3600
  roles : Dict Str RolePolicy
  toolRisk : Dict Str RiskLevel := .empty
  rateLimit : RateLimitPolicy := {}
  loginRateLimit : RateLimitPolicy := { maxRequests := 10 }
  circuitBreaker : CircuitBreakerPolicy := {}
  scanner : ScannerPolicy := {}
  ttl_ok : 60 ≤ sessionTtlSeconds ∧ sessionTtlSeconds ≤ 86400 := by decide
  has_role : roles.items ≠ []

end AgenticFirewall
