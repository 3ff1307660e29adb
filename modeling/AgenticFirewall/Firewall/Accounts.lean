import AgenticFirewall.Firewall.Frames
import AgenticFirewall.Lifecycle

/-!
# Users and sessions

The tables of users and sessions change at a login, a revocation, a
registration and a change of a role; no other step of the running firewall
touches them. A row that is revoked stays as it is.
-/

namespace AgenticFirewall

open Py Transition

/-- Neither the users nor the sessions have changed. -/
def SameAccounts (db db' : Database) : Prop :=
  db'.users = db.users ∧ db'.sessions = db.sessions

section Accounts

variable {db db' db'' : Database}

theorem SameAccounts.refl (db : Database) : SameAccounts db db := ⟨rfl, rfl⟩

theorem SameAccounts.of_eq (h : db' = db) : SameAccounts db db' := by
  rw [h]
  exact .refl db

theorem SameAccounts.trans (h : SameAccounts db db') (h' : SameAccounts db' db'') :
    SameAccounts db db'' :=
  ⟨h'.1.trans h.1, h'.2.trans h.2⟩

end Accounts

namespace Firewall

variable {cfg : Config} {env : Env} {fw fw' : Firewall} {tools : List ToolDefinition}
  {approver : UserSession} {outcome : ApprovalOutcome}

theorem record_accounts {e event : SecurityEvent} (h : fw.record env e = .ok (event, fw')) :
    SameAccounts fw.db fw'.db := by
  obtain ⟨db, hrec, rfl⟩ := record_cases h
  obtain ⟨-, row, -, rfl⟩ := record_eq_ok hrec
  exact .refl _

theorem recordOrLog_accounts (env : Env) (e : SecurityEvent) (fw : Firewall) :
    SameAccounts fw.db (fw.recordOrLog env e).2.db := by
  unfold recordOrLog
  split
  · exact .refl _
  · rename_i event fw' hrec
    exact record_accounts hrec

theorem approveOne_accounts {defn : ToolDefinition}
    (h : fw.approveOne cfg env defn approver = .ok (outcome, fw')) :
    SameAccounts fw.db fw'.db := by
  cases approveOne_exit h with
  | refused blocked => exact .refl _
  | pinned clean looked approved =>
      obtain ⟨-, -, -, husers, hsessions, -⟩ := approve_eq_ok approved
      exact ⟨husers, hsessions⟩

theorem approveName_accounts {name : Str}
    (h : fw.approveName cfg env tools approver name = .ok (outcome, fw')) :
    SameAccounts fw.db fw'.db := by
  rcases approveName_cases h with rfl | ⟨d, -, hone⟩
  · exact .refl _
  · exact approveOne_accounts hone

theorem approveLoop_accounts (envs : Nat → Env) (names : List Str) (i : Nat) (fw : Firewall) :
    SameAccounts fw.db (approveLoop cfg envs tools approver i names fw).fw.db :=
  approveLoop_keeps (R := fun a b => SameAccounts a.db b.db) (fun _ => .refl _)
    (fun _ _ _ => .trans) approveName_accounts record_accounts envs names i fw

theorem approveTools_accounts (envs : Nat → Env) (names : Option (List Str)) (reply : ToolsReply)
    (fw : Firewall) : SameAccounts fw.db (fw.approveTools cfg envs approver names reply).fw.db := by
  cases reply with
  | raised => exact .refl _
  | listing tools => exact approveLoop_accounts envs (wanted names tools) 0 fw

/-- A login leaves the accounts alone or stores one session under a new
key. -/
theorem login_accounts (cfg : Config) (env : Env) (token userId apiKey clientKey : Str)
    (fw : Firewall) :
    SameAccounts fw.db (fw.login cfg env token userId apiKey clientKey).fw.db ∨
      ∃ row, fw.db.sessions.get (cfg.sha256.digest token) = none ∧
        (fw.login cfg env token userId apiKey clientKey).fw.db.users = fw.db.users ∧
        (fw.login cfg env token userId apiKey clientKey).fw.db.sessions =
          fw.db.sessions.set (cfg.sha256.digest token) row := by
  unfold login
  split
  · exact .inl (.refl _)
  · simp only
    split
    · exact .inl (recordOrLog_accounts env _ _)
    · split
      · exact .inl (recordOrLog_accounts env _ _)
      · exact .inl (.refl _)
      · rename_i sessionId session db hlogin
        obtain ⟨-, uid, user, -, -, -, hfree, -, rfl⟩ :=
          Authenticator.login_eq_ok.mp (Env.attempt_eq_ok hlogin)
        exact .inr ⟨_, hfree, (recordOrLog_accounts env _ _).1, (recordOrLog_accounts env _ _).2⟩

end Firewall

/-- The action is one that may change an account. -/
def Act.changesAccounts : Act → Bool
  | .login .. | .revoke .. | .registerUser .. | .setRole .. => true
  | _ => false

/-- A change from outside is one of them. -/
theorem changesAccounts_of_outside {a : Act} (hopens : a.opens = false) (hid : a.target = none) :
    a.changesAccounts = true := by
  cases a <;> simp_all [Act.opens, Act.target, Act.changesAccounts]

namespace System

variable {cfg : Config} {s s' : System} {a : Act} {o : List Event} {id : Nat} {fw : Firewall}

theorem Ending.accounts (h : Ending cfg s a id fw o) (ha : a.changesAccounts = false) :
    SameAccounts s.fw.db fw.db := by
  cases h with
  | answered h =>
      rename_i env req ctx x fw
      have hlog := Firewall.recordOrLog_accounts env
        (Firewall.resultEvent req ctx (Firewall.handleResult env req ctx x)) fw
      rw [h.db] at hlog
      exact hlog
  | callCancelled hrun hf => exact .refl _
  | cancelled => exact .refl _
  | notApproving h => exact .refl _
  | approved hrun =>
      rename_i envs reply approver names
      exact Firewall.approveTools_accounts envs names reply s.fw
  | notListing h => exact .of_eq (Firewall.listStart_db cfg _ s.fw _)
  | listed hrun => exact .refl _
  | manager => exact .of_eq (Firewall.requireManager_silent cfg _ s.fw _).2
  | login => cases ha

theorem step_accounts (h : step cfg s a = some (s', o)) (ha : a.changesAccounts = false) :
    SameAccounts s.fw.db s'.fw.db := by
  cases step_shape h with
  | opened t hopens ht hnew =>
      rcases hnew with ⟨-, hend⟩ | ⟨-, hdb, -⟩
      · exact hend.accounts ha
      · exact .of_eq hdb
  | moved id t t' hopens hid hrun hleft ht hnew =>
      rcases hnew with ⟨-, hend⟩ | ⟨env, tools, req, ctx, -, -, -, -, hdb, -⟩
      · exact hend.accounts ha
      · exact .of_eq hdb
  | outside hopens hid ht hdb ho =>
      rw [changesAccounts_of_outside hopens hid] at ha
      cases ha

/-- A session row stays once it is revoked. -/
theorem step_revoked (h : step cfg s a = some (s', o)) {key : Text} {row : SessionRow}
    (hrow : s.fw.db.sessions.get key = some row) (hrevoked : row.revoked = true) :
    s'.fw.db.sessions.get key = some row := by
  by_cases ha : a.changesAccounts = false
  · rw [(step_accounts h ha).2]
    exact hrow
  · cases a with
    | login env token userId apiKey clientKey =>
        simp only [step] at h
        cases h
        rcases Firewall.login_accounts cfg env token userId apiKey clientKey s.fw with
          hsame | ⟨new, hfree, -, hsessions⟩
        · rw [hsame.2]
          exact hrow
        · have hne : cfg.sha256.digest token ≠ key := by
            intro heq
            rw [heq, hrow] at hfree
            cases hfree
          rw [hsessions, Dict.get_set_ne _ _ hne]
          exact hrow
    | revoke sessionId =>
        simp only [step, Authenticator.revoke_eq] at h
        cases h
        cases hold : s.fw.db.sessions.get (cfg.sha256.digest sessionId) with
        | none => exact hrow
        | some old =>
            simp only [Dict.get_set]
            split
            · rename_i heq
              obtain rfl := Option.some.inj (hold.symm.trans (heq ▸ hrow))
              rw [← hrevoked]
            · exact hrow
    | registerUser userId role apiKey =>
        simp only [step] at h
        split at h
        · rename_i db hok
          cases h
          obtain ⟨-, uid, role', -, -, -, rfl⟩ := Authenticator.registerUser_eq_ok.mp hok
          exact hrow
        · cases h
          exact hrow
    | setRole userId role =>
        simp only [step] at h
        cases h
        simp only [Database.setRole]
        split
        · exact hrow
        · exact hrow
    | _ => exact absurd rfl ha

end System

end AgenticFirewall
