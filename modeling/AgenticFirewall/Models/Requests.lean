import AgenticFirewall.Lib.Value
import AgenticFirewall.Models.Events
import AgenticFirewall.Models.Policies

/-!
# Request and response models

`app/models/requests.py`: the values that cross the firewall boundary.
-/

namespace AgenticFirewall

open Py

structure ToolRequest where
  sessionId : Str := []
  tool : Str
  arguments : Obj := .empty

/-- What an MCP server declares about a tool. Everything here is
fingerprinted. -/
structure ToolDefinition where
  name : Str
  description : Str := []
  inputSchema : Obj := .empty
  annotations : Obj := .empty
  extras : Obj := .empty

namespace ToolDefinition

/-- `defn.model_dump()`, entries in field order. -/
def modelDump (d : ToolDefinition) : Value :=
  .dict [(str "name", .str d.name), (str "description", .str d.description),
    (str "input_schema", d.inputSchema.toValue), (str "annotations", d.annotations.toValue),
    (str "extras", d.extras.toValue)]

/-- The definition holds JSON data. -/
def IsJson (d : ToolDefinition) : Prop :=
  Encodable d.name ∧ Encodable d.description ∧ d.inputSchema.toValue.IsJson ∧
    d.annotations.toValue.IsJson ∧ d.extras.toValue.IsJson

/-- Equal as JSON: field by field, up to the order of object keys at every
depth. -/
def JsonEq (d e : ToolDefinition) : Prop :=
  d.name = e.name ∧ d.description = e.description ∧
    d.inputSchema.toValue.JsonEq e.inputSchema.toValue ∧
    d.annotations.toValue.JsonEq e.annotations.toValue ∧
    d.extras.toValue.JsonEq e.extras.toValue

end ToolDefinition

structure ToolResponse where
  text : Str := []
  isError : Bool := false

structure UserSession where
  userId : Str
  role : Str
  sessionRef : Str
  createdAt : ℚ
  expiresAt : ℚ
  deriving DecidableEq

structure GatewayResult where
  decision : Decision
  stage : Stage
  reason : Str
  tool : Str
  userId : Option Str := none
  role : Option Str := none
  risk : Option RiskLevel := none
  latencyMs : ℚ := 0
  retryAfter : Option ℚ := none
  response : Option ToolResponse := none

/-- `IntegrityResult.status`. -/
inductive IntegrityStatus where
  | ok
  | changed
  | unapproved
  deriving DecidableEq, Repr

structure ToolInfo where
  name : Str
  description : Str
  inputSchema : Obj
  risk : RiskLevel
  integrity : IntegrityStatus

inductive ApprovalStatus where
  | approved
  | updated
  | unchanged
  | rejected
  | notFound
  deriving DecidableEq, Repr

def ApprovalStatus.text : ApprovalStatus → Str
  | .approved => str "approved"
  | .updated => str "updated"
  | .unchanged => str "unchanged"
  | .rejected => str "rejected"
  | .notFound => str "not_found"

structure ApprovalOutcome where
  tool : Str
  status : ApprovalStatus
  fingerprint : Option Str := none
  reason : Str := []

/-! ## Exceptions -/

/-- The exceptions callers tell apart; `other` is any other `Exception`. -/
inductive Exc where
  | authError (message : Str)
  | rateLimitExceeded (retryAfter : ℚ)
  | permissionDenied (message : Str)
  | valueError (message : Str)
  | other

end AgenticFirewall
