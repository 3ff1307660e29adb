import Mathlib.Data.List.ReduceOption
import AgenticFirewall.Firewall.Segments

/-!
# What the components keep

The two tables that record decisions, over each entry point: the audit log
grows by the events that were stored, and a name is pinned only to a
definition that may be approved.
-/

namespace AgenticFirewall

open Py

namespace Firewall

/-! ## Audit writes -/

section Writes

variable {env : Env} {e event : SecurityEvent} {fw fw' : Firewall}

/-- A write that returns is a write of the audit log. -/
theorem record_cases (h : fw.record env e = .ok (event, fw')) : ∃ db,
    AuditLog.record (env.time .audit) e fw.db = .ok (event, db) ∧ fw' = { fw with db } := by
  unfold record at h
  split at h
  · cases h
  · rename_i event' db hrec
    cases h
    exact ⟨db, Env.attempt_eq_ok hrec, rfl⟩

/-- What a write that returns has done. -/
theorem record_ok (h : fw.record env e = .ok (event, fw')) :
    event.decision = e.decision ∧ event.stage = sanitize e.stage ∧
      Logged [event] fw.db fw'.db ∧ fw'.db.toolFingerprints = fw.db.toolFingerprints := by
  obtain ⟨db, hrec, rfl⟩ := record_cases h
  obtain ⟨he, row, hrow, rfl⟩ := record_eq_ok hrec
  rw [he]
  exact ⟨rfl, rfl, .one (he ▸ hrow) rfl, rfl⟩

/-- What a write that may fail has done. -/
theorem recordOrLog_logged (env : Env) (e : SecurityEvent) (fw : Firewall) :
    Logged (fw.recordOrLog env e).1.toList fw.db (fw.recordOrLog env e).2.db ∧
      (fw.recordOrLog env e).2.db.toolFingerprints = fw.db.toolFingerprints ∧
      ∀ event ∈ (fw.recordOrLog env e).1,
        event.decision = e.decision ∧ event.stage = sanitize e.stage := by
  unfold recordOrLog
  split
  · exact ⟨.none rfl, rfl, by simp⟩
  · rename_i event fw' hrec
    obtain ⟨hd, hs, hl, hp⟩ := record_ok hrec
    exact ⟨hl, hp, by simpa using ⟨hd, hs⟩⟩

/-- With the log in order, an event is stored exactly when its sanitised
texts can be bound. -/
theorem recordOrLog_isSome (ha : env.fault .audit = none) :
    (fw.recordOrLog env e).1.isSome = true ↔ e.build.Bindable := by
  have hreturns : (∃ event db', AuditLog.record (env.time .audit) e fw.db = .ok (event, db')) ↔
      e.build.Bindable := record_returns_iff
  rw [← hreturns]
  simp only [recordOrLog, record, Env.attempt, ha]
  cases AuditLog.record (env.time .audit) e fw.db with
  | error err => simp
  | ok p => exact ⟨fun _ => ⟨p.1, p.2, rfl⟩, fun _ => rfl⟩

/-- A login writes at most one record and pins nothing. -/
theorem login_logged (cfg : Config) (env : Env) (token userId apiKey clientKey : Str)
    (fw : Firewall) :
    Logged (fw.login cfg env token userId apiKey clientKey).audits.reduceOption fw.db
        (fw.login cfg env token userId apiKey clientKey).fw.db ∧
      (fw.login cfg env token userId apiKey clientKey).fw.db.toolFingerprints =
        fw.db.toolFingerprints := by
  have hone : ∀ (e : SecurityEvent) (fw₁ : Firewall), SameRecords fw.db fw₁.db →
      Logged [(fw₁.recordOrLog env e).1].reduceOption fw.db (fw₁.recordOrLog env e).2.db ∧
        (fw₁.recordOrLog env e).2.db.toolFingerprints = fw.db.toolFingerprints := by
    intro e fw₁ hsame
    obtain ⟨hlog, hpin, -⟩ := recordOrLog_logged env e fw₁
    refine ⟨?_, hpin.trans hsame.2⟩
    have happ := (Logged.none hsame.1).append hlog
    cases hstored : (fw₁.recordOrLog env e).1 <;> simpa [hstored] using happ
  unfold login
  split
  · exact ⟨.none rfl, rfl⟩
  · simp only
    split
    · exact hone _ _ ⟨rfl, rfl⟩
    · split
      · exact hone _ _ ⟨rfl, rfl⟩
      · exact ⟨.none rfl, rfl⟩
      · rename_i sessionId session db hlogin
        exact hone _ _ (Authenticator.sameRecords_login _ (Env.attempt_eq_ok hlogin))

end Writes

/-! ## Pins -/

section Pins

variable (cfg : Config)

/-- The scan of a definition before it is pinned. -/
def scanDescription (defn : ToolDefinition) : ScanResult :=
  cfg.scanner.scanValue .description defn.modelDump (str "definition")

/-- What may be pinned: a definition that is the only one of its name in
the listing and in which the scan finds nothing. -/
structure Approvable (tools : List ToolDefinition) (defn : ToolDefinition) : Prop where
  unique : tools.filter (fun t => t.name = defn.name) = [defn]
  clean : (scanDescription cfg defn).findings = []

/-- Every pin is an old one or that of an approvable definition. -/
def PinsFrom (tools : List ToolDefinition) (db db' : Database) : Prop :=
  ∀ name, db'.pinned name = db.pinned name ∨
    ∃ d, d.name = name ∧ Approvable cfg tools d ∧
      db'.pinned name = some (fingerprint cfg.sha256 d)

theorem pinned_congr {db db' : Database} (h : db'.toolFingerprints = db.toolFingerprints)
    (name : Str) : db'.pinned name = db.pinned name := by
  simp only [Database.pinned, h]

variable {cfg} {env : Env} {tools : List ToolDefinition} {defn : ToolDefinition}
  {approver : UserSession} {outcome : ApprovalOutcome} {name : Str} {fw fw' : Firewall}

theorem PinsFrom.of_eq {db db' : Database} (h : db'.toolFingerprints = db.toolFingerprints) :
    PinsFrom cfg tools db db' :=
  fun name => .inl (pinned_congr h name)

theorem PinsFrom.trans {db db' db'' : Database} (h : PinsFrom cfg tools db db')
    (h' : PinsFrom cfg tools db' db'') : PinsFrom cfg tools db db'' := by
  intro name
  rcases h' name with heq | hnew
  · rw [heq]
    exact h name
  · exact .inr hnew

/-- The outcome of a definition that is pinned, over its pin before. -/
def pinnedOutcome (defn : ToolDefinition) (previous : Option Str) (fp : Str) : ApprovalOutcome where
  tool := defn.name
  status :=
    match previous with
    | none => .approved
    | some old => if old = fp then .unchanged else .updated
  fingerprint := some fp

/-- The ways `_approve_one` returns: it refuses the definition, or pins
it. -/
inductive OneExit (cfg : Config) (env : Env) (defn : ToolDefinition) (approver : UserSession)
    (fw : Firewall) : ApprovalOutcome → Firewall → Prop where
  | refused (blocked : (scanDescription cfg defn).blocked = true) :
      OneExit cfg env defn approver fw
        { tool := defn.name, status := .rejected
          reason := suspiciousReason (scanDescription cfg defn) } fw
  | pinned {previous : Option Str} {fp : Str} {db : Database}
      (clean : ¬ (scanDescription cfg defn).blocked = true)
      (looked : IntegrityChecker.approvedFingerprint defn.name fw.db = .ok previous)
      (approved : IntegrityChecker.approve cfg.sha256 (env.time .approve) defn
        (some approver.userId) fw.db = .ok (fp, db)) :
      OneExit cfg env defn approver fw (pinnedOutcome defn previous fp) { fw with db }

theorem approveOne_exit (h : fw.approveOne cfg env defn approver = .ok (outcome, fw')) :
    OneExit cfg env defn approver fw outcome fw' := by
  unfold approveOne at h
  split at h
  · cases h
  · rename_i scan hscan
    obtain rfl : scan = scanDescription cfg defn := (Except.ok.inj (Env.attempt_eq_ok hscan)).symm
    split at h
    · rename_i hblocked
      cases h
      exact .refused hblocked
    · rename_i hclean
      split at h
      · cases h
      · rename_i previous hprevious
        split at h
        · cases h
        · rename_i fp db happrove
          cases h
          exact .pinned hclean (Env.attempt_eq_ok hprevious) (Env.attempt_eq_ok happrove)

/-- `_approve_one` pins a definition only when its scan is clean. -/
theorem approveOne_ok (hu : tools.filter (fun t => t.name = defn.name) = [defn])
    (h : fw.approveOne cfg env defn approver = .ok (outcome, fw')) :
    fw'.db.auditLogs = fw.db.auditLogs ∧ PinsFrom cfg tools fw.db fw'.db := by
  cases approveOne_exit h with
  | refused blocked => exact ⟨rfl, .of_eq rfl⟩
  | pinned clean looked approved =>
      obtain ⟨-, -, hpins, -, -, hlog⟩ := approve_eq_ok approved
      refine ⟨hlog, fun n => ?_⟩
      rw [hpins n]
      split
      · rename_i hn
        exact .inr ⟨defn, hn.symm, ⟨hu, by simpa [ScanResult.blocked] using clean⟩, rfl⟩
      · exact .inl rfl

theorem get_byName (tools : List ToolDefinition) (name : Str) :
    (byName tools).get name = (tools.filter fun t => t.name = name).getLast? := by
  rw [byName, Dict.get_ofList, List.filter_map, List.getLast?_map, Option.map_map]
  exact congrFun Option.map_id _

/-- The outcome for a name depends on how often it is listed. -/
theorem approveName_eq (env : Env) (approver : UserSession) (name : Str) (fw : Firewall) :
    fw.approveName cfg env tools approver name =
      match tools.filter fun t => t.name = name with
      | [] => .ok ({ tool := name, status := .notFound
                     reason := str "tool not exposed by upstream" }, fw)
      | [d] => fw.approveOne cfg env d approver
      | _ :: _ :: _ => .ok ({ tool := name, status := .rejected
                              reason := str "duplicate definitions from upstream" }, fw) := by
  unfold approveName
  rw [get_byName]
  unfold count
  generalize tools.filter (fun t => t.name = name) = l
  match l with
  | [] => rfl
  | [d] => rfl
  | d :: e :: l =>
      rw [List.getLast?_eq_some_getLast (List.cons_ne_nil _ _)]
      simp

theorem name_of_listed (h : tools.filter (fun t => t.name = name) = [defn]) : defn.name = name := by
  have hmem : defn ∈ tools.filter fun t => t.name = name := h ▸ List.mem_singleton_self defn
  simpa using (List.mem_filter.mp hmem).2

/-- An approval that changes anything approved the only definition listed
under its name. -/
theorem approveName_cases (h : fw.approveName cfg env tools approver name = .ok (outcome, fw')) :
    fw' = fw ∨ ∃ d, tools.filter (fun t => t.name = d.name) = [d] ∧
      fw.approveOne cfg env d approver = .ok (outcome, fw') := by
  rw [approveName_eq] at h
  match hlisted : tools.filter fun t => t.name = name with
  | [] =>
      rw [hlisted] at h
      cases h
      exact .inl rfl
  | [d] =>
      obtain rfl : d.name = name := name_of_listed hlisted
      rw [hlisted] at h
      exact .inr ⟨d, hlisted, h⟩
  | d :: e :: l =>
      rw [hlisted] at h
      cases h
      exact .inl rfl

theorem approveName_ok (h : fw.approveName cfg env tools approver name = .ok (outcome, fw')) :
    fw'.db.auditLogs = fw.db.auditLogs ∧ PinsFrom cfg tools fw.db fw'.db := by
  rcases approveName_cases h with rfl | ⟨d, hunique, hone⟩
  · exact ⟨rfl, .of_eq rfl⟩
  · exact approveOne_ok hunique hone

/-- What every approval of a name and every record keeps, the loop of
`approve_tools` keeps. -/
theorem approveLoop_keeps {R : Firewall → Firewall → Prop} (hrefl : ∀ a, R a a)
    (htrans : ∀ a b c, R a b → R b c → R a c)
    (hname : ∀ {env name outcome a b},
      a.approveName cfg env tools approver name = .ok (outcome, b) → R a b)
    (hrecord : ∀ {env e event a b}, a.record env e = .ok (event, b) → R a b)
    (envs : Nat → Env) (names : List Str) (i : Nat) (fw : Firewall) :
    R fw (approveLoop cfg envs tools approver i names fw).fw := by
  induction names generalizing i fw with
  | nil => exact hrefl fw
  | cons name rest ih =>
      unfold approveLoop
      split
      · exact hrefl fw
      · rename_i outcome fw₁ happrove
        have hfirst : R fw fw₁ := hname happrove
        split
        · exact hfirst
        · split
          · exact hfirst
          · rename_i risk hrisk event fw₂ hrec
            exact htrans _ _ _ (htrans _ _ _ hfirst (hrecord hrec)) (ih (i + 1) fw₂)

/-- The loop logs every record it stores. -/
theorem approveLoop_logged (envs : Nat → Env) (names : List Str) (i : Nat) (fw : Firewall) :
    Logged (approveLoop cfg envs tools approver i names fw).audits.reduceOption fw.db
      (approveLoop cfg envs tools approver i names fw).fw.db := by
  induction names generalizing i fw with
  | nil => exact .none rfl
  | cons name rest ih =>
      unfold approveLoop
      split
      · exact .none rfl
      · rename_i outcome fw₁ hname
        obtain ⟨hlog, -⟩ := approveName_ok hname
        split
        · exact .none hlog
        · split
          · exact .none hlog
          · rename_i risk hrisk event fw₂ hrec
            obtain ⟨-, -, hlogged, -⟩ := record_ok hrec
            simp only [List.reduceOption_cons_of_some]
            exact ((Logged.none hlog).append hlogged).append (ih (i + 1) fw₂)

theorem approveTools_logged (envs : Nat → Env) (names : Option (List Str)) (reply : ToolsReply)
    (fw : Firewall) :
    Logged (fw.approveTools cfg envs approver names reply).audits.reduceOption fw.db
      (fw.approveTools cfg envs approver names reply).fw.db := by
  cases reply with
  | raised => exact .none rfl
  | listing tools => exact approveLoop_logged envs (wanted names tools) 0 fw

theorem approveTools_pins (envs : Nat → Env) (names : Option (List Str))
    (tools : List ToolDefinition) (fw : Firewall) :
    PinsFrom cfg tools fw.db (fw.approveTools cfg envs approver names (.listing tools)).fw.db :=
  approveLoop_keeps (R := fun a b => PinsFrom cfg tools a.db b.db) (fun _ => .of_eq rfl)
    (fun _ _ _ => .trans) (fun h => (approveName_ok h).2)
    (fun h => .of_eq (record_ok h).2.2.2) envs (wanted names tools) 0 fw

/-! ## What is shown to an agent -/

/-- `list_tools` shows a caller who may not manage only definitions that
match their pin and that its role may call. -/
theorem listOne_agent {session : UserSession} {db : Database} {info : ToolInfo}
    (h : listOne cfg env session false defn db = .ok (some info)) :
    db.pinned defn.name = some (fingerprint cfg.sha256 defn) ∧
      (Authorizer.check cfg.policy.roles session.role defn.name
        (RiskClassifier.classify cfg.policy.toolRisk defn.name)).allowed = true ∧
      info =
        { name := defn.name, description := defn.description, inputSchema := defn.inputSchema
          risk := RiskClassifier.classify cfg.policy.toolRisk defn.name, integrity := .ok } := by
  unfold listOne at h
  obtain ⟨risk, hrisk, h⟩ := except_bind_eq_ok.mp h
  obtain rfl := Except.ok.inj (Env.attempt_eq_ok hrisk)
  obtain ⟨integrity, hverify, h⟩ := except_bind_eq_ok.mp h
  simp only [Bool.false_eq_true, if_false] at h
  split at h
  · cases h
  · rename_i hok
    have hok' : integrity.ok = true := by simpa using hok
    obtain ⟨decision, hcheck, h⟩ := except_bind_eq_ok.mp h
    obtain rfl := Except.ok.inj (Env.attempt_eq_ok hcheck)
    split at h
    · rename_i hallowed
      cases h
      refine ⟨pinned_of_verify (Env.attempt_eq_ok hverify) hok', hallowed, ?_⟩
      rw [show integrity.status = .ok by simpa [IntegrityResult.ok] using hok']
    · cases h

theorem listLoop_agent {envs : Nat → Env} {session : UserSession} {db : Database}
    {infos : List ToolInfo} {i : Nat} (h : listLoop cfg envs session false db i tools = .ok infos) :
    ∀ info ∈ infos, ∃ d ∈ tools, ∃ env, listOne cfg env session false d db = .ok (some info) := by
  induction tools generalizing i infos with
  | nil =>
      cases h
      simp
  | cons defn rest ih =>
      unfold listLoop at h
      obtain ⟨shown, hone, h⟩ := except_bind_eq_ok.mp h
      obtain ⟨others, hrest, h⟩ := except_bind_eq_ok.mp h
      cases h
      intro info hinfo
      rcases List.mem_append.mp hinfo with hinfo | hinfo
      · obtain rfl := Option.mem_toList.mp hinfo
        exact ⟨defn, List.mem_cons_self, envs i, hone⟩
      · obtain ⟨d, hd, hshown⟩ := ih hrest info hinfo
        exact ⟨d, List.mem_cons_of_mem defn hd, hshown⟩

end Pins

end Firewall

end AgenticFirewall
