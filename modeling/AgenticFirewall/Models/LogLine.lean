import AgenticFirewall.Lib.Datetime
import AgenticFirewall.Lib.Fields
import AgenticFirewall.Models.Events
import AgenticFirewall.Models.Requests

/-!
# Log lines

`SecurityEvent.to_log_line` of `app/models/events.py`: one line of fields
with a space before each, none of them quoted but the reason.
-/

namespace AgenticFirewall

open Py

/-- `text or '-'`. -/
def orDash : Option Str → Str
  | none => str "-"
  | some [] => str "-"
  | some s => s

/-- ` name=value`, unquoted. -/
def logField (name : String) (value : Str) : Str := ofChar ' ' :: (str name ++ value)

/-- `to_log_line`. A `ts` that `datetime` cannot hold raises. -/
def SecurityEvent.toLogLine (e : SecurityEvent) : Except Exc Str :=
  match fromTimestamp e.ts with
  | none => .error .other
  | some moment =>
      .ok (moment.text ++ logField "user=" (orDash e.userId) ++ logField "role=" (orDash e.role) ++
        logField "tool=" (orDash e.tool) ++ logField "risk=" (orDash e.risk) ++
        logField "decision=" e.decision.value ++ logField "stage=" e.stage ++
        logField "reason=\"" e.reason ++ str "\"" ++
        logField "latency_ms=" (formatFixed2 e.latencyMs))

/-- What a left-to-right reader takes for the value of a field: the text
after the first occurrence of its name, up to the next space. -/
def readField (name : String) (line : Str) : Option Str :=
  Fields.readValue (ofChar ' ') (str name) line

/-- The fields a line shows before the decision. -/
def SecurityEvent.fields (e : SecurityEvent) : List (Str × Str) :=
  [(str "user=", orDash e.userId), (str "role=", orDash e.role), (str "tool=", orDash e.tool),
    (str "risk=", orDash e.risk)]

/-- The first value those fields themselves show for a name. -/
def SecurityEvent.forged (e : SecurityEvent) (name : String) : Option Str :=
  e.fields.findSome? fun f => readField name f.2

section Line

variable {e : SecurityEvent} {line : Str}

/-- The line, field by field. -/
theorem toLogLine_eq_ok (h : e.toLogLine = .ok line) : ∃ moment : DateTime, ∃ rest,
    line = moment.date ++ ofChar ' ' :: (moment.time ++ (Fields.fieldsLine (ofChar ' ') e.fields ++
      ofChar ' ' :: (str "decision=" ++ (e.decision.value ++
        ofChar ' ' :: (str "stage=" ++ (e.stage ++ ofChar ' ' :: rest)))))) := by
  unfold SecurityEvent.toLogLine at h
  split at h
  · cases h
  · rename_i moment _
    have hline := (Except.ok.inj h).symm
    refine ⟨moment, str "reason=\"" ++ (e.reason ++ (str "\"" ++
      logField "latency_ms=" (formatFixed2 e.latencyMs))), hline.trans ?_⟩
    simp only [DateTime.text, logField, Fields.fieldsLine, SecurityEvent.fields,
      List.flatMap_cons, List.flatMap_nil, List.append_nil, List.append_assoc, List.cons_append]

theorem not_space_of_clock {s : Str} (h : s.all isClockChar = true) : ofChar ' ' ∉ s := by
  intro hmem
  have hclock : isClockChar (ofChar ' ') = true := List.all_eq_true.mp h _ hmem
  exact absurd hclock (by decide)

/-- The clock shows no field. -/
theorem readField_clock {name : String} {y : Str} (hname : ofChar ' ' ∉ str name)
    (hfull : str name ≠ []) (hhead : (str name).head?.any isClockChar = false)
    (moment : DateTime) :
    readField name (moment.date ++ ofChar ' ' :: (moment.time ++ y)) = readField name y := by
  have htime := clockChars_time moment
  have hne : moment.time ≠ [] := by simp [DateTime.time, twoDigits]
  have hother : moment.time.head? ≠ (str name).head? := by
    intro h
    obtain ⟨c, cs, hcons⟩ := List.exists_cons_of_ne_nil hne
    rw [hcons] at h htime
    have hc : isClockChar c = true := List.all_eq_true.mp htime c List.mem_cons_self
    rw [← h, List.head?_cons, Option.any_some, hc] at hhead
    cases hhead
  rw [readField, Fields.readValue_append hname (by simp),
    Fields.readValue_of_not_mem (not_space_of_clock (clockChars_date moment)), Option.none_or,
    Fields.readValue_field (not_space_of_clock htime) hne hother hfull, readField]

theorem fields_apart {name : String}
    (hname : str name = str "decision=" ∨ str name = str "stage=") :
    ∀ f ∈ e.fields, ofChar ' ' ∉ f.1 ∧ f.1 ≠ [] ∧ f.1.head? ≠ (str name).head? := by
  have hall : ∀ key ∈ [str "user=", str "role=", str "tool=", str "risk="],
      ofChar ' ' ∉ key ∧ key ≠ [] ∧ key.head? ≠ (str "decision=").head? ∧
        key.head? ≠ (str "stage=").head? := by
    decide
  intro f hf
  have hkey : f.1 ∈ [str "user=", str "role=", str "tool=", str "risk="] :=
    List.mem_map_of_mem (f := Prod.fst) hf
  obtain ⟨hsep, hfull, hdecision, hstage⟩ := hall f.1 hkey
  rcases hname with h | h
  · exact ⟨hsep, hfull, h ▸ hdecision⟩
  · exact ⟨hsep, hfull, h ▸ hstage⟩

/-- **The decision a line shows**: what an earlier field shows for one,
and otherwise the event's own. -/
theorem readField_decision (h : e.toLogLine = .ok line) :
    readField "decision=" line = (e.forged "decision=").or (some e.decision.value) := by
  obtain ⟨moment, rest, rfl⟩ := toLogLine_eq_ok h
  have hvalue : ofChar ' ' ∉ e.decision.value := by
    cases e.decision <;> decide
  have hkey : ofChar ' ' ∉ str "decision=" := by decide
  have hfull : str "decision=" ≠ [] := by decide
  rw [readField_clock hkey hfull (by decide),
    readField, Fields.readValue_fieldsLine hkey hfull (fields_apart (.inl rfl)) (by simp),
    Fields.readValue_self _ (by simp), Fields.takeWhile_of_not_mem hvalue]
  rfl

/-- The stage a line shows, in the same way, up to its first space. -/
theorem readField_stage (h : e.toLogLine = .ok line) :
    readField "stage=" line =
      (e.forged "stage=").or (some (e.stage.takeWhile (· ≠ ofChar ' '))) := by
  obtain ⟨moment, rest, rfl⟩ := toLogLine_eq_ok h
  have hkey : ofChar ' ' ∉ str "stage=" := by decide
  have hfull : str "stage=" ≠ [] := by decide
  have hother : (str "decision=").head? ≠ (str "stage=").head? := by decide
  have hvalue : Fields.readValue (ofChar ' ') (str "stage=") e.decision.value = none :=
    Fields.readValue_of_not_mem (by cases e.decision <;> decide)
  rw [readField_clock hkey hfull (by decide), readField,
    Fields.readValue_fieldsLine hkey hfull (fields_apart (.inr rfl)) (by simp),
    Fields.readValue_field (by decide) (by decide) hother hfull,
    Fields.readValue_append hkey (by simp), hvalue, Option.none_or,
    Fields.readValue_self _ (by simp)]
  rfl

theorem not_mem_of_forged {name : String} {v : Str} (h : e.forged name = some v) :
    ofChar ' ' ∉ v := by
  obtain ⟨f, -, hf⟩ := List.exists_of_findSome?_eq_some h
  exact Fields.not_mem_of_readValue hf

theorem toLogLine_returns {moment : DateTime} (h : fromTimestamp e.ts = some moment) :
    ∃ line, e.toLogLine = .ok line := by
  rw [SecurityEvent.toLogLine, h]
  exact ⟨_, rfl⟩

end Line

end AgenticFirewall
