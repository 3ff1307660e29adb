import AgenticFirewall.Firewall.Writes
import AgenticFirewall.Lifecycle
import AgenticFirewall.Properties.AuditRows

/-!
# Every record goes through the audit log

The log has one way to grow. A relation between the events stored and the
database before and after that holds of a single `record`, and of no record
where the log stays as it is, therefore holds of every run.
-/

namespace AgenticFirewall

open Py Transition

/-- The rule's premises: nothing stored, one event stored, and one after the
other. -/
structure AuditRule (R : List SecurityEvent → Database → Database → Prop) : Prop where
  none : ∀ {db db' : Database}, db'.auditLogs = db.auditLogs → R [] db db'
  record : ∀ {now : ℚ} {e event : SecurityEvent} {db db' : Database},
    AuditLog.record now e db = .ok (event, db') → R [event] db db'
  append : ∀ {es es' : List SecurityEvent} {db db' db'' : Database},
    R es db db' → R es' db' db'' → R (es ++ es') db db''

namespace AuditRule

variable {R : List SecurityEvent → Database → Database → Prop} (hR : AuditRule R)

include hR

section Segments

variable {cfg : Config} {env : Env} {fw fw' : Firewall} {e event : SecurityEvent}

theorem firewall_record (h : fw.record env e = .ok (event, fw')) : R [event] fw.db fw'.db := by
  obtain ⟨db, hrec, rfl⟩ := Firewall.record_cases h
  exact hR.record hrec

/-- A write that may fail, after a change that leaves the log alone. -/
theorem recordOrLog (env : Env) (e : SecurityEvent) {fw₁ : Firewall}
    (h : fw₁.db.auditLogs = fw.db.auditLogs) :
    R [(fw₁.recordOrLog env e).1].reduceOption fw.db (fw₁.recordOrLog env e).2.db := by
  unfold Firewall.recordOrLog
  split
  · exact hR.none h
  · rename_i event fw₂ hrec
    exact hR.append (hR.none h) (hR.firewall_record hrec)

theorem login (cfg : Config) (env : Env) (token userId apiKey clientKey : Str) (fw : Firewall) :
    R (fw.login cfg env token userId apiKey clientKey).audits.reduceOption fw.db
      (fw.login cfg env token userId apiKey clientKey).fw.db := by
  unfold Firewall.login
  split
  · exact hR.none rfl
  · simp only
    split
    · exact hR.recordOrLog env _ rfl
    · split
      · exact hR.recordOrLog env _ rfl
      · exact hR.none rfl
      · rename_i sessionId session db hlogin
        have hsame := Authenticator.sameRecords_login _ (Env.attempt_eq_ok hlogin)
        exact hR.recordOrLog env _ hsame.1

theorem approveLoop {tools : List ToolDefinition} {approver : UserSession} (envs : Nat → Env)
    (names : List Str) (i : Nat) (fw : Firewall) :
    R (Firewall.approveLoop cfg envs tools approver i names fw).audits.reduceOption fw.db
      (Firewall.approveLoop cfg envs tools approver i names fw).fw.db := by
  induction names generalizing i fw with
  | nil => exact hR.none rfl
  | cons name rest ih =>
      unfold Firewall.approveLoop
      split
      · exact hR.none rfl
      · rename_i outcome fw₁ hname
        have hlog := (Firewall.approveName_ok hname).1
        split
        · exact hR.none hlog
        · split
          · exact hR.none hlog
          · rename_i risk hrisk event fw₂ hrec
            have hfirst : R [event] fw.db fw₂.db :=
              hR.append (hR.none hlog) (hR.firewall_record hrec)
            simp only [List.reduceOption_cons_of_some]
            exact hR.append hfirst (ih (i + 1) fw₂)

theorem approveTools {approver : UserSession} (envs : Nat → Env) (names : Option (List Str))
    (reply : Firewall.ToolsReply) (fw : Firewall) :
    R (fw.approveTools cfg envs approver names reply).audits.reduceOption fw.db
      (fw.approveTools cfg envs approver names reply).fw.db := by
  cases reply with
  | raised => exact hR.none rfl
  | listing tools => exact hR.approveLoop envs _ 0 fw

end Segments

section Runs

variable {cfg : Config} {s s' : System} {a : Act} {o : List Event} {id : Nat} {fw : Firewall}
  {as : List Act}

theorem ending (h : System.Ending cfg s a id fw o) :
    R (o.filterMap Event.stored) s.fw.db fw.db := by
  cases h with
  | answered h =>
      rename_i env req ctx x fw
      have hlog : fw.db.auditLogs = s.fw.db.auditLogs := by rw [h.db]
      rw [System.filterMap_stored_leave, ← List.reduceOption_singleton]
      exact hR.recordOrLog env _ hlog
  | approved hrun =>
      rw [System.filterMap_stored_close id fun _ => rfl]
      exact hR.approveTools _ _ _ _
  | notListing h => exact hR.none (by rw [Firewall.listStart_db])
  | listed hrun =>
      rw [System.filterMap_stored_close id fun _ => rfl]
      exact hR.none rfl
  | manager =>
      rename_i env sessionId
      obtain ⟨haudits, hdb⟩ := Firewall.requireManager_silent cfg env s.fw sessionId
      rw [System.filterMap_stored_close _ fun _ => rfl, haudits]
      exact hR.none (by rw [hdb])
  | login =>
      rw [System.filterMap_stored_close _ fun _ => rfl]
      exact hR.login cfg _ _ _ _ _ s.fw
  | _ => exact hR.none rfl

theorem step (h : System.step cfg s a = some (s', o)) :
    R (o.filterMap Event.stored) s.fw.db s'.fw.db := by
  cases System.step_shape h with
  | opened t ha ht hnew =>
      rcases hnew with ⟨-, hend⟩ | ⟨-, hdb, rfl⟩
      · exact hR.ending hend
      · exact hR.none (by rw [hdb])
  | moved id t t' ha hid hrun hleft ht hnew =>
      rcases hnew with ⟨-, hend⟩ | ⟨env, tools, req, ctx, -, -, -, -, hdb, rfl⟩
      · exact hR.ending hend
      · exact hR.none (by rw [hdb])
  | outside ha hid ht hdb ho =>
      rw [ho]
      exact hR.none hdb.1

/-- **The audit rule**: the relation holds of every run, over the events the
run stored. -/
theorem run (h : (System.machine cfg).run s as = some (s', o)) :
    R (o.filterMap Event.stored) s.fw.db s'.fw.db := by
  refine (System.machine cfg).run_history
    (motive := fun _ s' o => R (o.filterMap Event.stored) s.fw.db s'.fw.db) (hR.none rfl) ?_ h
  intro _ s₁ o₁ a s₂ o₂ _ ih hstep
  rw [List.filterMap_append]
  exact hR.append ih (hR.step hstep)

end Runs

end AuditRule

end AgenticFirewall
