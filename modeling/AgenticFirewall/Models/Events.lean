import AgenticFirewall.Lib.Text

/-!
# Decisions, stages and audit events

`app/models/events.py`. Every text field of a `SecurityEvent` passes
through `sanitize` when the event is built (`SecurityEvent.build`).
-/

namespace AgenticFirewall

open Py

inductive Decision where
  | allow
  | deny
  deriving DecidableEq, Repr

def Decision.value : Decision → Str
  | .allow => str "ALLOW"
  | .deny => str "DENY"

/-- `Decision(value)`: the decision with this value, if there is one. -/
def Decision.ofValue (value : Str) : Option Decision :=
  [Decision.allow, .deny].find? fun d => d.value = value

@[simp] theorem Decision.ofValue_value (d : Decision) : Decision.ofValue d.value = some d := by
  cases d <;> decide

/-- Where in the pipeline a decision was made. -/
inductive Stage where
  | login
  | authentication
  | rateLimit
  | validation
  | authorization
  | integrity
  | inputScan
  | circuitBreaker
  | upstream
  | outputScan
  | approval
  | internal
  | allowed
  deriving DecidableEq, Repr

def Stage.text : Stage → Str
  | .login => str "login"
  | .authentication => str "authentication"
  | .rateLimit => str "rate_limit"
  | .validation => str "validation"
  | .authorization => str "authorization"
  | .integrity => str "integrity"
  | .inputScan => str "input_scan"
  | .circuitBreaker => str "circuit_breaker"
  | .upstream => str "upstream"
  | .outputScan => str "output_scan"
  | .approval => str "approval"
  | .internal => str "internal_error"
  | .allowed => str "allowed"

/-! ## Sanitising -/

/-- `_UNSAFE_LOG_CHARS`: control characters, line and paragraph
separators, bidi controls, zero-width characters. -/
def unsafeLogChar (c : CodePoint) : Bool :=
  let n := c.val
  decide (n ≤ 0x1F) || (decide (0x7F ≤ n) && decide (n ≤ 0x9F)) || n == 0x2028 ||
    n == 0x2029 || (decide (0x200B ≤ n) && decide (n ≤ 0x200F)) ||
    (decide (0x202A ≤ n) && decide (n ≤ 0x202E)) ||
    (decide (0x2060 ≤ n) && decide (n ≤ 0x2069)) || n == 0xFEFF

/-- `_UNSAFE_LOG_CHARS.sub(" ", s)`. -/
def blankUnsafe (s : Str) : Str :=
  s.map fun c => if unsafeLogChar c then ofChar ' ' else c

/-- The `max_len` every caller leaves at its default. -/
def maxLen : Nat := 300

def sanitize (text : Str) : Str :=
  let s := blankUnsafe text
  if s.length ≤ maxLen then s else s.take (maxLen - 1) ++ str "…"

theorem mem_blankUnsafe {s : Str} {c : CodePoint} (h : c ∈ blankUnsafe s) :
    c ∈ s ∨ c = ofChar ' ' := by
  obtain ⟨d, hd, rfl⟩ := List.mem_map.mp h
  split
  · exact .inr rfl
  · exact .inl hd

theorem mem_sanitize {s : Str} {c : CodePoint} (h : c ∈ sanitize s) :
    c ∈ s ∨ c = ofChar ' ' ∨ c = ofChar '…' := by
  unfold sanitize at h
  simp only at h
  split at h
  · rcases mem_blankUnsafe h with h | h
    · exact .inl h
    · exact .inr (.inl h)
  · rcases List.mem_append.mp h with h | h
    · rcases mem_blankUnsafe (List.mem_of_mem_take h) with h | h
      · exact .inl h
      · exact .inr (.inl h)
    · exact .inr (.inr (List.mem_singleton.mp h))

/-- Sanitising an encodable text gives an encodable one: it only adds a
space or an ellipsis. -/
theorem encodable_sanitize {s : Str} (h : Encodable s) : Encodable (sanitize s) := by
  intro c hc
  rcases mem_sanitize hc with hc | rfl | rfl
  · exact h c hc
  · decide
  · decide

theorem length_sanitize_le (s : Str) : (sanitize s).length ≤ maxLen := by
  have hone : (str "…").length = 1 := by decide
  unfold sanitize
  simp only
  split
  · assumption
  · simp only [List.length_append, List.length_take, hone, maxLen]
    omega

/-- What sanitising leaves: at most 300 characters, none of them unsafe. -/
structure Sanitized (s : Str) : Prop where
  length : s.length ≤ maxLen
  safe : ∀ c ∈ s, unsafeLogChar c = false

theorem safe_blankUnsafe {s : Str} {c : CodePoint} (h : c ∈ blankUnsafe s) :
    unsafeLogChar c = false := by
  obtain ⟨d, -, rfl⟩ := List.mem_map.mp h
  split
  · decide
  · rename_i hd
    exact Bool.eq_false_of_not_eq_true hd

theorem sanitized_sanitize (s : Str) : Sanitized (sanitize s) := by
  refine ⟨length_sanitize_le s, fun c hc => ?_⟩
  unfold sanitize at hc
  simp only at hc
  split at hc
  · exact safe_blankUnsafe hc
  · rcases List.mem_append.mp hc with hc | hc
    · exact safe_blankUnsafe (List.mem_of_mem_take hc)
    · -- the ellipsis is no unsafe character
      obtain rfl := List.mem_singleton.mp hc
      decide

theorem Sanitized.sanitize_eq {s : Str} (h : Sanitized s) : sanitize s = s := by
  have hblank : blankUnsafe s = s := by
    conv_rhs => rw [← List.map_id s]
    exact List.map_congr_left fun c hc => by simp [h.safe c hc]
  simp [sanitize, hblank, h.length]

/-- **Sanitising twice** is sanitising once, also where the text is cut. -/
@[simp] theorem sanitize_sanitize (s : Str) : sanitize (sanitize s) = sanitize s :=
  (sanitized_sanitize s).sanitize_eq

/-! ## Audit events -/

structure SecurityEvent where
  ts : ℚ
  userId : Option Str
  sessionRef : Option Str
  role : Option Str
  tool : Option Str
  risk : Option Str
  decision : Decision
  stage : Str
  reason : Str
  latencyMs : ℚ := 0
  id : Option Nat := none

/-- The validated constructor: `_clean` runs on every text field. -/
def SecurityEvent.build (e : SecurityEvent) : SecurityEvent :=
  { e with
    userId := e.userId.map sanitize
    sessionRef := e.sessionRef.map sanitize
    role := e.role.map sanitize
    tool := e.tool.map sanitize
    risk := e.risk.map sanitize
    stage := sanitize e.stage
    reason := sanitize e.reason }

@[simp] theorem SecurityEvent.build_build (e : SecurityEvent) : e.build.build = e.build := by
  simp [SecurityEvent.build, Function.comp_def]

/-- The text fields of an event, as they are bound to the `INSERT`. -/
def SecurityEvent.texts (e : SecurityEvent) : List Str :=
  [e.userId, e.sessionRef, e.role, e.tool, e.risk].filterMap (fun s => s) ++
    [e.decision.value, e.stage, e.reason]

/-- A stage name is short and plain: sanitising keeps it. -/
theorem sanitize_stage (s : Stage) : sanitize s.text = s.text := by
  cases s <;> decide

theorem encodable_stage (s : Stage) : Encodable s.text := by
  cases s <;> exact encodable_str _

theorem encodable_decision (d : Decision) : Encodable d.value := by
  cases d <;> exact encodable_str _

end AgenticFirewall
