import AgenticFirewall.Firewall.Accounts
import AgenticFirewall.Properties.Poisoning
import AgenticFirewall.Recording

/-!
# The database only grows

Whatever the firewall runs, in whatever order: no row is deleted, the log is
extended at its end, a session keeps whom and how long it is for, and a
revocation stays.
-/

namespace AgenticFirewall

open Py Transition

namespace Database

/-- The users and their keys are still there. -/
def UsersGrow (db db' : Database) : Prop :=
  ∀ id row, db.users.get id = some row →
    ∃ row', db'.users.get id = some row' ∧ row'.apiKeyHash = row.apiKeyHash

/-- So are the sessions, and what is revoked is as it was. -/
def SessionsGrow (db db' : Database) : Prop :=
  ∀ key row, db.sessions.get key = some row → ∃ row', db'.sessions.get key = some row' ∧
    row'.userId = row.userId ∧ row'.createdAt = row.createdAt ∧ row'.expiresAt = row.expiresAt ∧
      (row.revoked = true → row' = row)

structure Grows (db db' : Database) : Prop where
  users : UsersGrow db db'
  sessions : SessionsGrow db db'
  log : db.auditLogs <+: db'.auditLogs
  pins : ∀ name, (db.pinned name).isSome = true → (db'.pinned name).isSome = true

/-- Each session is some user's, and for some time. -/
def Coherent (db : Database) : Prop :=
  ∀ key row, db.sessions.get key = some row →
    (db.users.get row.userId).isSome = true ∧ row.createdAt < row.expiresAt

variable {db db' db'' : Database}

theorem UsersGrow.of_eq (h : db'.users = db.users) : UsersGrow db db' := by
  intro id row hrow
  exact ⟨row, h ▸ hrow, rfl⟩

theorem UsersGrow.isSome (h : UsersGrow db db') {id : Text}
    (hid : (db.users.get id).isSome = true) : (db'.users.get id).isSome = true := by
  obtain ⟨row, hrow⟩ := Option.isSome_iff_exists.mp hid
  obtain ⟨row', hrow', -⟩ := h id row hrow
  rw [hrow']
  rfl

theorem SessionsGrow.of_eq (h : db'.sessions = db.sessions) : SessionsGrow db db' := by
  intro key row hrow
  exact ⟨row, h ▸ hrow, rfl, rfl, rfl, fun _ => rfl⟩

theorem Grows.refl (db : Database) : db.Grows db where
  users := .of_eq rfl
  sessions := .of_eq rfl
  log := List.prefix_refl _
  pins _ h := h

theorem Grows.trans (h : db.Grows db') (h' : db'.Grows db'') : db.Grows db'' where
  users id row hrow := by
    obtain ⟨row', hrow', hkey⟩ := h.users id row hrow
    obtain ⟨row'', hrow'', hkey'⟩ := h'.users id row' hrow'
    exact ⟨row'', hrow'', hkey'.trans hkey⟩
  sessions key row hrow := by
    obtain ⟨row', hrow', huser, hcreated, hexpires, hrevoked⟩ := h.sessions key row hrow
    obtain ⟨row'', hrow'', huser', hcreated', hexpires', hrevoked'⟩ := h'.sessions key row' hrow'
    refine ⟨row'', hrow'', huser'.trans huser, hcreated'.trans hcreated,
      hexpires'.trans hexpires, fun hr => ?_⟩
    obtain rfl := hrevoked hr
    exact hrevoked' hr
  log := h.log.trans h'.log
  pins name hname := h'.pins name (h.pins name hname)

/-! ## The changes of an account -/

/-- A row is written that keeps the key of the one that was there. -/
theorem UsersGrow.set {id : Text} {row : UserRow}
    (hkey : ∀ old, db.users.get id = some old → row.apiKeyHash = old.apiKeyHash) :
    UsersGrow db { db with users := db.users.set id row } := by
  intro id' row' hrow
  by_cases hid : id = id'
  · subst hid
    exact ⟨row, Dict.get_set_self _ _ _, hkey row' hrow⟩
  · refine ⟨row', ?_, rfl⟩
    show (db.users.set id row).get id' = some row'
    rw [Dict.get_set_ne _ _ hid, hrow]

theorem usersGrow_register {id : Text} {row : UserRow} (hfree : db.users.get id = none) :
    UsersGrow db { db with users := db.users.set id row } := by
  refine .set fun old hold => ?_
  rw [hfree] at hold
  cases hold

theorem usersGrow_setRole (db : Database) (userId role : Text) :
    UsersGrow db (db.setRole userId role) := by
  unfold setRole
  split
  · exact .of_eq rfl
  · rename_i row hrow
    refine .set fun old hold => ?_
    rw [hrow] at hold
    obtain rfl := Option.some.inj hold
    rfl

theorem sessions_setRole (db : Database) (userId role : Text) :
    (db.setRole userId role).sessions = db.sessions := by
  unfold setRole
  split
  · rfl
  · rfl

/-- A session under a new key, for a user there is. -/
theorem sessionsGrow_login {key : Text} (row : SessionRow) (hfree : db.sessions.get key = none) :
    SessionsGrow db { db with sessions := db.sessions.set key row } := by
  intro key' row' hrow
  have hne : key ≠ key' := by
    intro heq
    rw [heq, hrow] at hfree
    cases hfree
  refine ⟨row', ?_, rfl, rfl, rfl, fun _ => rfl⟩
  show (db.sessions.set key row).get key' = some row'
  rw [Dict.get_set_ne _ _ hne, hrow]

theorem Coherent.login {key : Text} {row : SessionRow} (hc : db.Coherent)
    (huser : (db.users.get row.userId).isSome = true) (hspan : row.createdAt < row.expiresAt) :
    ({ db with sessions := db.sessions.set key row } : Database).Coherent := by
  intro key' row' hrow
  rw [Dict.get_set] at hrow
  split at hrow
  · obtain rfl := Option.some.inj hrow
    exact ⟨huser, hspan⟩
  · exact hc key' row' hrow

/-- The one change of a session that is there. -/
theorem revokeSession_cases {sessionHash : Str} {found : Bool}
    (h : db.revokeSession sessionHash = .ok (found, db')) :
    db' = db ∨ ∃ key row, db.sessions.get key = some row ∧
      db' = { db with sessions := db.sessions.set key { row with revoked := true } } := by
  unfold revokeSession at h
  simp only [except_bind_eq_ok] at h
  obtain ⟨key, -, h⟩ := h
  split at h
  · cases h
    exact .inl rfl
  · rename_i row hrow
    cases h
    exact .inr ⟨key, row, hrow, rfl⟩

theorem sessionsGrow_revoke {key : Text} {row : SessionRow} (hrow : db.sessions.get key = some row) :
    SessionsGrow db { db with sessions := db.sessions.set key { row with revoked := true } } := by
  intro key' row' hrow'
  by_cases hkey : key = key'
  · subst hkey
    rw [hrow] at hrow'
    obtain rfl := Option.some.inj hrow'
    refine ⟨{ row with revoked := true }, Dict.get_set_self _ _ _, rfl, rfl, rfl, fun hr => ?_⟩
    rw [← hr]
  · refine ⟨row', ?_, rfl, rfl, rfl, fun _ => rfl⟩
    show (db.sessions.set key { row with revoked := true }).get key' = some row'
    rw [Dict.get_set_ne _ _ hkey, hrow']

theorem Coherent.revoke {key : Text} {row : SessionRow} (hc : db.Coherent)
    (hrow : db.sessions.get key = some row) :
    ({ db with sessions := db.sessions.set key { row with revoked := true } } :
      Database).Coherent := by
  have hold := hc key row hrow
  exact hc.login hold.1 hold.2

/-- Sessions that stay keep their users as the users grow. -/
theorem Coherent.of_grow (hc : db.Coherent) (hsessions : db'.sessions = db.sessions)
    (husers : UsersGrow db db') : db'.Coherent := by
  intro key row hrow
  rw [hsessions] at hrow
  obtain ⟨huser, hspan⟩ := hc key row hrow
  exact ⟨husers.isSome huser, hspan⟩

end Database

/-! ## One step -/

theorem prefix_rule : AuditRule fun _ db db' => db.auditLogs <+: db'.auditLogs where
  none h := h ▸ List.prefix_refl _
  record h := by
    obtain ⟨-, row, -, rfl⟩ := record_eq_ok h
    exact List.prefix_append _ _
  append h h' := h.trans h'

/-- A login stores a session at most, for a user there is. -/
theorem Firewall.login_stores (cfg : Config) (env : Env) (token userId apiKey clientKey : Str)
    (fw : Firewall) :
    SameAccounts fw.db (fw.login cfg env token userId apiKey clientKey).fw.db ∨
      ∃ key row, fw.db.sessions.get key = none ∧
        (fw.db.users.get row.userId).isSome = true ∧ row.createdAt < row.expiresAt ∧
        SameAccounts { fw.db with sessions := fw.db.sessions.set key row }
          (fw.login cfg env token userId apiKey clientKey).fw.db := by
  unfold login
  split
  · exact .inl (.refl _)
  · simp only
    split
    · exact .inl (recordOrLog_accounts env _ _)
    · split
      · exact .inl (recordOrLog_accounts env _ _)
      · exact .inl (.refl _)
      · rename_i sessionId session db hlogin
        obtain ⟨-, uid, user, -, huser, -, hfree, -, rfl⟩ :=
          Authenticator.login_eq_ok.mp (Env.attempt_eq_ok hlogin)
        refine .inr ⟨_, _, hfree, ?_, ?_, recordOrLog_accounts env _ _⟩
        · show (fw.db.users.get uid).isSome = true
          rw [huser]
          rfl
        · have httl : (60 : ℚ) ≤ cfg.policy.sessionTtlSeconds :=
            mod_cast cfg.policy.ttl_ok.1
          show env.time .login < env.time .login + (cfg.policy.sessionTtlSeconds : ℚ)
          linarith

namespace System

variable {cfg : Config} {s s' : System} {a : Act} {o : List Event}

theorem accounts_grow (h : step cfg s a = some (s', o)) :
    s.fw.db.UsersGrow s'.fw.db ∧ s.fw.db.SessionsGrow s'.fw.db ∧
      (s.fw.db.Coherent → s'.fw.db.Coherent) := by
  have hsame : ∀ {db db' : Database}, SameAccounts db db' →
      db.UsersGrow db' ∧ db.SessionsGrow db' ∧ (db.Coherent → db'.Coherent) := by
    intro db db' h
    exact ⟨.of_eq h.1, .of_eq h.2, fun hc => hc.of_grow h.2 (.of_eq h.1)⟩
  cases ha : a.changesAccounts with
  | false => exact hsame (step_accounts h ha)
  | true =>
      cases a with
      | login env token userId apiKey clientKey =>
          simp only [step] at h
          cases h
          rcases Firewall.login_stores cfg env token userId apiKey clientKey s.fw with
            hkept | ⟨key, row, hfree, huser, hspan, hkept⟩
          · exact hsame hkept
          · refine ⟨.of_eq hkept.1, ?_, fun hc => ?_⟩
            · intro key' row' hrow
              obtain ⟨row'', hrow'', hrest⟩ :=
                Database.sessionsGrow_login row hfree key' row' hrow
              exact ⟨row'', hkept.2 ▸ hrow'', hrest⟩
            · exact (hc.login huser hspan).of_grow hkept.2 (.of_eq hkept.1)
      | revoke sessionId =>
          simp only [step] at h
          split at h
          · rename_i found db hrevoke
            cases h
            rcases Database.revokeSession_cases hrevoke with rfl | ⟨key, row, hrow, rfl⟩
            · exact hsame (.refl _)
            · exact ⟨.of_eq rfl, Database.sessionsGrow_revoke hrow, fun hc => hc.revoke hrow⟩
          · cases h
            exact hsame (.refl _)
      | registerUser userId role apiKey =>
          simp only [step] at h
          split at h
          · rename_i db hregister
            cases h
            obtain ⟨-, uid, role', -, -, hfree, rfl⟩ :=
              Authenticator.registerUser_eq_ok.mp hregister
            exact ⟨Database.usersGrow_register hfree, .of_eq rfl,
              fun hc => hc.of_grow rfl (Database.usersGrow_register hfree)⟩
          · cases h
            exact hsame (.refl _)
      | setRole userId role =>
          simp only [step] at h
          cases h
          have husers := Database.usersGrow_setRole s.fw.db userId role
          have hsessions := Database.sessions_setRole s.fw.db userId role
          exact ⟨husers, .of_eq hsessions, fun hc => hc.of_grow hsessions husers⟩
      | _ => cases ha

theorem step_grows (h : step cfg s a = some (s', o)) : s.fw.db.Grows s'.fw.db where
  users := (accounts_grow h).1
  sessions := (accounts_grow h).2.1
  log := prefix_rule.step h
  pins name hname := by
    rcases step_pins h with hsame | ⟨tools, -, hpins⟩
    · rw [Firewall.pinned_congr hsame]
      exact hname
    · rcases hpins name with heq | ⟨d, -, -, hnew⟩
      · rw [heq]
        exact hname
      · rw [hnew]
        rfl

/-- **Nothing is rewritten.** Between any two moments of any run, whatever
else runs in between: users keep their keys and sessions their user and their
time, what is revoked stays as it is, the log is extended at its end and a
pinned tool stays pinned; and every session stays some user's. -/
theorem database_grows {as : List Act} (h : (machine cfg).run s as = some (s', o)) :
    s.fw.db.Grows s'.fw.db ∧ (s.fw.db.Coherent → s'.fw.db.Coherent) := by
  refine (machine cfg).run_history
    (motive := fun _ s' _ => s.fw.db.Grows s'.fw.db ∧ (s.fw.db.Coherent → s'.fw.db.Coherent))
    ⟨.refl _, fun hc => hc⟩ ?_ h
  intro _ s₁ o₁ a s₂ o₂ _ ih hstep
  obtain ⟨hgrows, hcoherent⟩ := ih
  exact ⟨hgrows.trans (step_grows hstep), fun hc => (accounts_grow hstep).2.2 (hcoherent hc)⟩

end System

/-- From the empty database to the user's call. -/
theorem database_grows_echo : ∃ s o,
    (System.machine echoConfig).run { fw := .init echoConfig {} } echoCall = some (s, o) ∧
      s.fw.db.Coherent ∧ s.fw.db.users.size = 1 ∧ s.fw.db.sessions.size = 1 := by
  have hsizes : ((System.machine echoConfig).run { fw := .init echoConfig {} } echoCall).any
      (fun p => p.1.fw.db.users.size == 1 && p.1.fw.db.sessions.size == 1) = true := by
    decide +kernel
  obtain ⟨⟨s, o⟩, hrun, hsizes⟩ := (Option.any_eq_true _ _).mp hsizes
  obtain ⟨husers, hsessions⟩ := Bool.and_eq_true_iff.mp hsizes
  refine ⟨s, o, hrun, (System.database_grows hrun).2 ?_, beq_iff_eq.mp husers,
    beq_iff_eq.mp hsessions⟩
  intro key row hrow
  cases hrow

end AgenticFirewall
