import AgenticFirewall.Lib.Document
import AgenticFirewall.Lib.Pattern
import AgenticFirewall.Models.Policies

/-!
# Policy files

`app/models/policies.py`, `load_policy` and `model_dump`: how the document
read from a policy file becomes a policy, and how a policy is written out
again. The models forbid unknown keys; pydantic's conversions of scalars
are a parameter.
-/

namespace AgenticFirewall

open Py Py.Doc

/-- What the validators raise `ValueError` for. -/
inductive PolicyError where
  /-- `invalid risk level` -/
  | riskLevel (value : Doc)
  /-- `wildcards are not supported` -/
  | wildcards (name : Str)
  /-- `policy must define at least one role` -/
  | noRoles

/-- The conversions pydantic makes for a field of a built-in type. Each takes
a value of that type as it is. -/
structure Conversions where
  int : Doc → Option Int
  float : Doc → Option ℚ
  bool : Doc → Option Bool
  text : Doc → Option Str
  list : Doc → Option (List Doc)
  int_int : ∀ n, int (.int n) = some n
  float_float : ∀ q, float (.float q) = some q
  bool_bool : ∀ b, bool (.bool b) = some b
  text_text : ∀ s, text (.text s) = some s
  list_list : ∀ ds, list (.list ds) = some ds

/-! ## Risk levels -/

/-- `str.strip`. -/
def strip (s : Str) : Str := ((s.dropWhile isSpace).reverse.dropWhile isSpace).reverse

/-- `str.upper`, as far as it can make one of the four names: besides the
ASCII letters, the dotless i has an ASCII capital that they use. -/
def upper (c : CodePoint) : CodePoint :=
  if isLower c then Fin.ofNat 0x110000 (c.val - 32)
  else if c.val = 0x131 then ofChar 'I'
  else c

namespace RiskLevel

/-- `cls[name]` -/
def ofName (name : Str) : Option RiskLevel :=
  [low, medium, high, critical].find? fun level => level.name = name

/-- `RiskLevel.parse` of a document's value. -/
def parse : Doc → Option RiskLevel
  | .text s => ofName ((strip s).map upper)
  | _ => none

/-- A field with `RiskLevel.parse` before its validation. -/
def check : Checker PolicyError RiskLevel := fun d =>
  match parse d with
  | some level => .ok level
  | none => .wrong ⟨[], .value (.riskLevel d)⟩ []

end RiskLevel

/-! ## Fields -/

section Fields

variable (conv : Conversions)

/-- `Field(ge=lo, le=hi)` of an `int`. -/
def intBetween (lo hi : Nat) : Checker PolicyError { n : Nat // lo ≤ n ∧ n ≤ hi } := fun d =>
  match conv.int d with
  | none => .wrong ⟨[], .wrongType⟩ []
  | some n =>
      if h : (lo : Int) ≤ n ∧ n ≤ hi then .ok ⟨n.toNat, by omega⟩
      else .wrong ⟨[], .outOfBounds⟩ []

/-- `Field(ge=lo)` of an `int`. -/
def intFrom (lo : Nat) : Checker PolicyError { n : Nat // lo ≤ n } := fun d =>
  match conv.int d with
  | none => .wrong ⟨[], .wrongType⟩ []
  | some n =>
      if h : (lo : Int) ≤ n then .ok ⟨n.toNat, by omega⟩
      else .wrong ⟨[], .outOfBounds⟩ []

/-- `Field(gt=0)` of a `float`. -/
def positive : Checker PolicyError { q : ℚ // 0 < q } := fun d =>
  (convert conv.float d).such (fun q => 0 < q) fun _ => .outOfBounds

/-- `_no_wildcards` of a list of texts. -/
def toolNames : Checker PolicyError { names : List Str // names.all validToolName = true } :=
  fun d =>
    match conv.list d with
    | none => .wrong ⟨[], .wrongType⟩ []
    | some ds =>
        (elements (convert conv.text) 0 ds).such (fun names => names.all validToolName = true)
          fun names => .value (.wildcards ((names.find? fun name => !validToolName name).getD []))

/-- `_parse_tool_risk`: the first value that is no level ends it. -/
def parseToolRisk : List (Doc × Doc) → Except Doc (List (Doc × RiskLevel))
  | [] => .ok []
  | (k, v) :: rest =>
      match RiskLevel.parse v with
      | none => .error v
      | some level =>
          match parseToolRisk rest with
          | .error e => .error e
          | .ok levels => .ok ((k, level) :: levels)

def toolRisk : Checker PolicyError (Dict Str RiskLevel)
  | .dict items =>
      match parseToolRisk items with
      | .error v => .wrong ⟨[], .value (.riskLevel v)⟩ []
      | .ok levels => mapping conv.text .ok levels
  | _ => .wrong ⟨[], .wrongType⟩ []

end Fields

/-! ## Models -/

/-! ### The defaults, which pass their own checks -/

namespace RateLimitPolicy

theorem requests_standard : 1 ≤ 100 := by decide

theorem requests_login : 1 ≤ 10 := by decide

theorem window_standard : (0 : ℚ) < 60 := by decide

/-- `RateLimitPolicy()` -/
def standard : RateLimitPolicy where
  one_le := requests_standard
  window_pos := window_standard

/-- `RateLimitPolicy(max_requests=10, window_seconds=60.0)` -/
def login : RateLimitPolicy where
  maxRequests := 10
  one_le := requests_login
  window_pos := window_standard

end RateLimitPolicy

namespace CircuitBreakerPolicy

theorem threshold_standard : 1 ≤ 5 := by decide

theorem cooldown_standard : (0 : ℚ) < 30 := by decide

/-- `CircuitBreakerPolicy()` -/
def standard : CircuitBreakerPolicy where
  one_le := threshold_standard
  cooldown_pos := cooldown_standard

end CircuitBreakerPolicy

namespace ScannerPolicy

theorem chars_standard : 1000 ≤ 1000000 := by decide

/-- `ScannerPolicy()` -/
def standard : ScannerPolicy where
  ge_thousand := chars_standard

end ScannerPolicy

/-! ### Validating and writing out -/

namespace RolePolicy

variable (conv : Conversions)

def validate : Checker PolicyError RolePolicy :=
  model ["allowed_tools", "max_risk", "can_manage"] fun items =>
    (fun tools risk manage =>
      { allowedTools := tools.val, maxRisk := risk, canManage := manage,
        noWildcards := tools.property }) <$>
      fieldOr (toolNames conv) "allowed_tools" ⟨[], rfl⟩ items <*>
      fieldOr RiskLevel.check "max_risk" .low items <*>
      fieldOr (convert conv.bool) "can_manage" false items

/-- `model_dump(mode="json")` -/
def dump (p : RolePolicy) : Doc :=
  record [("allowed_tools", .list (p.allowedTools.map .text)),
    ("max_risk", .text p.maxRisk.name), ("can_manage", .bool p.canManage)]

end RolePolicy

namespace RateLimitPolicy

variable (conv : Conversions)

def validate : Checker PolicyError RateLimitPolicy :=
  model ["max_requests", "window_seconds"] fun items =>
    (fun requests window =>
      { maxRequests := requests.val, windowSeconds := window.val, one_le := requests.property,
        window_pos := window.property }) <$>
      fieldOr (intFrom conv 1) "max_requests" ⟨100, requests_standard⟩ items <*>
      fieldOr (positive conv) "window_seconds" ⟨60, window_standard⟩ items

def dump (p : RateLimitPolicy) : Doc :=
  record [("max_requests", .int p.maxRequests), ("window_seconds", .float p.windowSeconds)]

end RateLimitPolicy

namespace CircuitBreakerPolicy

variable (conv : Conversions)

def validate : Checker PolicyError CircuitBreakerPolicy :=
  model ["failure_threshold", "cooldown_seconds"] fun items =>
    (fun threshold cooldown =>
      { failureThreshold := threshold.val, cooldownSeconds := cooldown.val,
        one_le := threshold.property, cooldown_pos := cooldown.property }) <$>
      fieldOr (intFrom conv 1) "failure_threshold" ⟨5, threshold_standard⟩ items <*>
      fieldOr (positive conv) "cooldown_seconds" ⟨30, cooldown_standard⟩ items

def dump (p : CircuitBreakerPolicy) : Doc :=
  record [("failure_threshold", .int p.failureThreshold),
    ("cooldown_seconds", .float p.cooldownSeconds)]

end CircuitBreakerPolicy

namespace ScannerPolicy

variable (conv : Conversions)

def validate : Checker PolicyError ScannerPolicy :=
  model ["max_scan_chars"] fun items =>
    (fun chars => { maxScanChars := chars.val, ge_thousand := chars.property }) <$>
      fieldOr (intFrom conv 1000) "max_scan_chars" ⟨1000000, chars_standard⟩ items

def dump (p : ScannerPolicy) : Doc := record [("max_scan_chars", .int p.maxScanChars)]

end ScannerPolicy

/-- A policy with the two fields that no decision of the gateway reads. -/
structure PolicyFile where
  version : Int := 1
  upstreamTimeoutSeconds : ℚ := 30
  policy : Policy
  timeout_pos : 0 < upstreamTimeoutSeconds := by decide

namespace PolicyFile

theorem ttl_standard : 60 ≤ 3600 ∧ 3600 ≤ 86400 := by decide

theorem timeout_standard : (0 : ℚ) < 30 := by decide

variable (conv : Conversions)

/-- `dict[str, RolePolicy]`, then `_need_roles`. -/
def roles : Checker PolicyError { roles : Dict Str RolePolicy // roles.items ≠ [] }
  | .dict items =>
      (mapping conv.text (RolePolicy.validate conv) items).such (fun roles => roles.items ≠ [])
        fun _ => .value .noRoles
  | _ => .wrong ⟨[], .wrongType⟩ []

/-- `Policy.model_validate` -/
def validate : Checker PolicyError PolicyFile :=
  model ["version", "session_ttl_seconds", "upstream_timeout_seconds", "roles", "tool_risk",
      "rate_limit", "login_rate_limit", "circuit_breaker", "scanner"] fun items =>
    (fun version ttl timeout roles toolRisk rateLimit loginRateLimit circuitBreaker scanner =>
      { version := version
        upstreamTimeoutSeconds := timeout.val
        timeout_pos := timeout.property
        policy :=
          { sessionTtlSeconds := ttl.val, roles := roles.val, toolRisk := toolRisk,
            rateLimit := rateLimit, loginRateLimit := loginRateLimit,
            circuitBreaker := circuitBreaker, scanner := scanner, ttl_ok := ttl.property,
            has_role := roles.property } }) <$>
      fieldOr (convert conv.int) "version" 1 items <*>
      fieldOr (intBetween conv 60 86400) "session_ttl_seconds" ⟨3600, ttl_standard⟩ items <*>
      fieldOr (positive conv) "upstream_timeout_seconds" ⟨30, timeout_standard⟩ items <*>
      field (roles conv) "roles" items <*>
      fieldOr (toolRisk conv) "tool_risk" .empty items <*>
      fieldOr (RateLimitPolicy.validate conv) "rate_limit" .standard items <*>
      fieldOr (RateLimitPolicy.validate conv) "login_rate_limit" .login items <*>
      fieldOr (CircuitBreakerPolicy.validate conv) "circuit_breaker" .standard items <*>
      fieldOr (ScannerPolicy.validate conv) "scanner" .standard items

/-- What `load_policy` raises. -/
inductive LoadError where
  /-- `must contain a YAML mapping` -/
  | notMapping
  | invalid (first : Mistake PolicyError) (more : List (Mistake PolicyError))

/-- `load_policy`, of what `yaml.safe_load` returns for the file. -/
def load (raw : Doc) : Except LoadError PolicyFile :=
  match raw with
  | .dict items =>
      match validate conv (.dict items) with
      | .ok file => .ok file
      | .wrong m ms => .error (.invalid m ms)
  | _ => .error .notMapping

/-- `model_dump(mode="json")` of a policy -/
def dump (file : PolicyFile) : Doc :=
  record [("version", .int file.version),
    ("session_ttl_seconds", .int file.policy.sessionTtlSeconds),
    ("upstream_timeout_seconds", .float file.upstreamTimeoutSeconds),
    ("roles", .dict (ofDict RolePolicy.dump file.policy.roles)),
    ("tool_risk", .dict (ofDict (fun level => .text level.name) file.policy.toolRisk)),
    ("rate_limit", file.policy.rateLimit.dump),
    ("login_rate_limit", file.policy.loginRateLimit.dump),
    ("circuit_breaker", file.policy.circuitBreaker.dump),
    ("scanner", file.policy.scanner.dump)]

end PolicyFile

end AgenticFirewall
