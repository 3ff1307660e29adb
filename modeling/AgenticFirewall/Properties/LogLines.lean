import AgenticFirewall.Models.LogLine

/-!
# What a log line shows

The user, role, tool and risk texts stand before the decision, unquoted. A
reader of the line takes the first decision it finds for the event's, so a
space in one of these texts is enough to forge one.
-/

namespace AgenticFirewall

open Py

/-- A stage name has no space. -/
theorem not_space_of_stage (stage : Stage) : ofChar ' ' ∉ stage.text := by
  cases stage <;> decide

/-- **When a log line shows the event's own outcome**: the first of the
user, role, tool and risk texts that holds ` decision=`, if any does, shows
the event's decision there, and likewise for ` stage=`. -/
theorem log_line_shows_iff (e : SecurityEvent) (line : Str) (h : e.build.toLogLine = .ok line) :
    (readField "decision=" line = some e.decision.value ∧
        readField "stage=" line = some e.build.stage) ↔
      (∀ v ∈ e.build.forged "decision=", v = e.decision.value) ∧
        (∀ v ∈ e.build.forged "stage=", v = e.build.stage) ∧ ofChar ' ' ∉ e.build.stage := by
  rw [readField_decision h, readField_stage h]
  refine and_congr ?_ ?_
  · cases e.build.forged "decision=" with
    | none => simp [SecurityEvent.build]
    | some v => simp
  · cases hforged : e.build.forged "stage=" with
    | none =>
        simp only [Option.none_or, Option.some.injEq, Option.mem_def, reduceCtorEq,
          false_implies, implies_true, true_and]
        exact Fields.takeWhile_eq_self_iff
    | some v =>
        simp only [Option.some_or, Option.some.injEq, Option.mem_def, forall_eq']
        exact ⟨fun hv => ⟨hv, hv ▸ not_mem_of_forged hforged⟩, And.left⟩

/-- A failed login, as `login` records it. -/
def failedLogin (userId : String) : SecurityEvent where
  ts := 0
  userId := some (str userId)
  sessionRef := none
  role := none
  tool := none
  risk := none
  decision := .deny
  stage := Stage.login.text
  reason := str "invalid credentials"

theorem failedLogin_logged (userId : String) :
    ∃ line, (failedLogin userId).build.toLogLine = .ok line := by
  have hclock : fromTimestamp 0 = some ⟨1970, 1, 1, 0, 0, 0⟩ := by decide +kernel
  exact toLogLine_returns hclock

/-- The line of a failed login of an ordinary user. -/
theorem log_line_shows_alice : ∃ line, (failedLogin "alice").build.toLogLine = .ok line ∧
    readField "decision=" line = some (str "DENY") ∧
      readField "stage=" line = some (str "login") := by
  obtain ⟨line, hline⟩ := failedLogin_logged "alice"
  have hstage : ofChar ' ' ∉ (failedLogin "alice").build.stage := by
    show ofChar ' ' ∉ sanitize Stage.login.text
    rw [sanitize_stage]
    exact not_space_of_stage .login
  exact ⟨line, hline, (log_line_shows_iff _ line hline).mpr ⟨by decide, by decide, hstage⟩⟩

/-- A user id that forges the outcome of its own failed login. -/
theorem log_line_forged :
    ∃ line, (failedLogin "x decision=ALLOW stage=allowed").build.toLogLine = .ok line ∧
      readField "decision=" line = some (str "ALLOW") ∧
        readField "stage=" line = some (str "allowed") := by
  obtain ⟨line, hline⟩ := failedLogin_logged "x decision=ALLOW stage=allowed"
  refine ⟨line, hline, ?_⟩
  rw [readField_decision hline, readField_stage hline]
  decide

end AgenticFirewall
