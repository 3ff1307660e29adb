import AgenticFirewall.Models.Policies

/-!
# Role-based access control

`app/firewall/authorization.py`. Deny by default.
-/

namespace AgenticFirewall

open Py

structure AuthzDecision where
  allowed : Bool
  reason : Str

namespace Authorizer

/-- The check of a tool call against the policy's roles. -/
def check (roles : Dict Str RolePolicy) (role tool : Str) (risk : RiskLevel) : AuthzDecision :=
  match roles.get role with
  | none => ⟨false, str "unknown role '" ++ role ++ str "'"⟩
  | some rolePolicy =>
      if ¬ tool ∈ rolePolicy.allowedTools then
        ⟨false, str "role '" ++ role ++ str "' is not permitted to use tool '" ++ tool ++ str "'"⟩
      else if ¬ risk ≤ rolePolicy.maxRisk then
        ⟨false, str "tool risk " ++ risk.name ++ str " exceeds role '" ++ role ++
          str "' limit " ++ rolePolicy.maxRisk.name⟩
      else ⟨true, str "permitted"⟩

def canManage (roles : Dict Str RolePolicy) (role : Str) : Bool :=
  match roles.get role with
  | none => false
  | some rolePolicy => rolePolicy.canManage

/-- Allowed exactly when the role is known, lists the tool and may run its
risk. -/
theorem check_allowed_iff {roles : Dict Str RolePolicy} {role tool : Str} {risk : RiskLevel} :
    (check roles role tool risk).allowed = true ↔
      ∃ p, roles.get role = some p ∧ tool ∈ p.allowedTools ∧ risk ≤ p.maxRisk := by
  unfold check
  cases roles.get role with
  | none => simp
  | some p =>
      simp only [Option.some.injEq, exists_eq_left']
      by_cases ht : tool ∈ p.allowedTools
      · by_cases hr : risk ≤ p.maxRisk <;> simp [ht, hr]
      · simp [ht]

/-- The reasons quote the role and the tool. -/
theorem encodable_reason {roles : Dict Str RolePolicy} {role tool : Str} {risk : RiskLevel}
    (hrole : Encodable role) (htool : Encodable tool) :
    Encodable (check roles role tool risk).reason := by
  unfold check
  split
  · simp [hrole]
  · split
    · simp [hrole, htool]
    · split
      · simp [hrole, RiskLevel.encodable_name]
      · simp

end Authorizer

end AgenticFirewall
