import AgenticFirewall.Firewall.Writes

/-!
# What an approval changes

What `approve_tools` reports for a name depends on the listing and on the
pin of that name alone, and so does what it pins. The loop goes through
the names one by one and commits each pin, so an exception leaves the pins
of the names before it.
-/

namespace AgenticFirewall

open Py

namespace Firewall

section Reports

variable (cfg : Config) (tools : List ToolDefinition)

/-- The definition an approval of the name would pin: the only one listed
under it, when its scan is clean. -/
def pinnable (name : Str) : Option ToolDefinition :=
  match tools.filter fun t => t.name = name with
  | [d] => if (scanDescription cfg d).blocked then none else some d
  | _ => none

/-- The outcome of an approval of the name, over its pin before. -/
def report (pinned : Option Str) (name : Str) : ApprovalOutcome :=
  match tools.filter fun t => t.name = name with
  | [] => { tool := name, status := .notFound, reason := str "tool not exposed by upstream" }
  | [d] =>
      if (scanDescription cfg d).blocked then
        { tool := name, status := .rejected, reason := suspiciousReason (scanDescription cfg d) }
      else
        { tool := name
          status :=
            match pinned with
            | none => .approved
            | some old => if old = fingerprint cfg.sha256 d then .unchanged else .updated
          fingerprint := some (fingerprint cfg.sha256 d) }
  | _ :: _ :: _ =>
      { tool := name, status := .rejected, reason := str "duplicate definitions from upstream" }

/-- The pins after an approval of the names. -/
def pinsAfter (names : List Str) (pins : Str → Option Str) (name : Str) : Option Str :=
  if name ∈ names then ((pinnable cfg tools name).map (fingerprint cfg.sha256)).or (pins name)
  else pins name

/-- The names an approval goes through, each once, in the order of their
first occurrence. -/
def requested (names : Option (List Str)) : List Str :=
  (names.getD (tools.map (·.name))).eraseDups

variable {cfg tools} {name : Str} {d : ToolDefinition} {pins : Str → Option Str}
  {names : List Str}

theorem pinnable_eq_some_iff :
    pinnable cfg tools name = some d ↔ d.name = name ∧ Approvable cfg tools d := by
  unfold pinnable
  constructor
  · intro h
    split at h
    · rename_i e hlisted
      split at h
      · cases h
      · rename_i hclean
        cases h
        have hname := name_of_listed hlisted
        exact ⟨hname, hname ▸ hlisted, by simpa [ScanResult.blocked] using hclean⟩
    · cases h
  · rintro ⟨rfl, hunique, hclean⟩
    simp [hunique, ScanResult.blocked, hclean]

theorem wanted_eq (names : Option (List Str)) : wanted names tools = requested tools names := by
  cases names with
  | none =>
      rw [wanted, byName, Dict.keys_ofList, List.map_map]
      rfl
  | some names =>
      have hfst : (Prod.fst ∘ fun n : Str => (n, ())) = id := rfl
      rw [wanted, Dict.keys_ofList, List.map_map, hfst, List.map_id]
      rfl

theorem requested_nodup (names : Option (List Str)) : (requested tools names).Nodup := by
  rw [← wanted_eq]
  cases names with
  | none => exact (byName tools).nodup
  | some names => exact Dict.nodup _

/-- Approving one name after another. -/
theorem pinsAfter_cons (name : Str) (names : List Str) (pins : Str → Option Str) :
    pinsAfter cfg tools names (pinsAfter cfg tools [name] pins) =
      pinsAfter cfg tools (name :: names) pins := by
  funext n
  by_cases hn : n ∈ names
  · by_cases hname : n = name
    · simp only [pinsAfter, hname, List.mem_cons, true_or, if_true]
      cases pinnable cfg tools name <;> simp
    · simp [pinsAfter, hn, hname]
  · simp [pinsAfter, hn]

theorem pinsAfter_nil (pins : Str → Option Str) : pinsAfter cfg tools [] pins = pins := by
  funext n
  simp [pinsAfter]

/-- Nothing is pinned to a name that has no approvable definition. -/
theorem pinsAfter_of_none (h : pinnable cfg tools name = none) (pins : Str → Option Str) :
    pinsAfter cfg tools [name] pins = pins := by
  funext n
  by_cases hn : n = name
  · simp [pinsAfter, hn, h]
  · simp [pinsAfter, hn]

theorem pinsAfter_of_some (h : pinnable cfg tools name = some d) (pins : Str → Option Str) :
    pinsAfter cfg tools [name] pins =
      fun n => if n = name then some (fingerprint cfg.sha256 d) else pins n := by
  funext n
  by_cases hn : n = name
  · simp [pinsAfter, hn, h]
  · simp [pinsAfter, hn]

end Reports

/-! ## One name -/

section Name

variable {cfg : Config} {env : Env} {tools : List ToolDefinition} {defn : ToolDefinition}
  {approver : UserSession} {outcome : ApprovalOutcome} {name : Str} {fw fw' : Firewall}

/-- A name pinned before the approval was bound when it was looked up. -/
theorem pinned_of_approvedFingerprint {previous : Option Str}
    (h : IntegrityChecker.approvedFingerprint name fw.db = .ok previous) :
    Encodable name ∧ previous = fw.db.pinned name := by
  by_cases hn : Encodable name
  · rw [approvedFingerprint_eq hn] at h
    exact ⟨hn, (Except.ok.inj h).symm⟩
  · rw [IntegrityChecker.approvedFingerprint, Database.getFingerprint, bindText_not_encodable hn]
      at h
    cases h

/-- `_approve_one` of a definition that is listed alone. -/
theorem approveOne_effect (hu : tools.filter (fun t => t.name = defn.name) = [defn])
    (h : fw.approveOne cfg env defn approver = .ok (outcome, fw')) :
    outcome = report cfg tools (fw.db.pinned defn.name) defn.name ∧
      fw'.db.pinned = pinsAfter cfg tools [defn.name] fw.db.pinned := by
  cases approveOne_exit h with
  | refused blocked =>
      have hnone : pinnable cfg tools defn.name = none := by simp [pinnable, hu, blocked]
      exact ⟨by simp [report, hu, blocked], (pinsAfter_of_none hnone _).symm⟩
  | pinned clean looked approved =>
      have hsome : pinnable cfg tools defn.name = some defn := by simp [pinnable, hu, clean]
      obtain ⟨-, rfl⟩ := pinned_of_approvedFingerprint looked
      obtain ⟨rfl, -, hpins, -⟩ := approve_eq_ok approved
      constructor
      · cases fw.db.pinned defn.name with
        | none => simp [report, hu, clean, pinnedOutcome]
        | some old => simp [report, hu, clean, pinnedOutcome]
      · rw [pinsAfter_of_some hsome]
        exact funext hpins

/-- **What approving one name does.** -/
theorem approveName_effect (h : fw.approveName cfg env tools approver name = .ok (outcome, fw')) :
    outcome = report cfg tools (fw.db.pinned name) name ∧
      fw'.db.pinned = pinsAfter cfg tools [name] fw.db.pinned := by
  rw [approveName_eq] at h
  match hlisted : tools.filter fun t => t.name = name with
  | [] =>
      rw [hlisted] at h
      cases h
      have hnone : pinnable cfg tools name = none := by simp [pinnable, hlisted]
      exact ⟨by simp [report, hlisted], (pinsAfter_of_none hnone _).symm⟩
  | [d] =>
      obtain rfl : d.name = name := name_of_listed hlisted
      rw [hlisted] at h
      exact approveOne_effect hlisted h
  | d :: e :: l =>
      rw [hlisted] at h
      cases h
      have hnone : pinnable cfg tools name = none := by simp [pinnable, hlisted]
      exact ⟨by simp [report, hlisted], (pinsAfter_of_none hnone _).symm⟩

end Name

/-! ## The loop -/

/-- How the loop over the names can end, over the pins before and after:
it reports on every name, or stops at one, after the names before it were
recorded and approved, and that one perhaps approved. -/
inductive LoopEnd (cfg : Config) (tools : List ToolDefinition) (pins : Str → Option Str) :
    List Str → Outcome (List ApprovalOutcome) → Prop where
  | finished {names : List Str} {out : Outcome (List ApprovalOutcome)}
      (result : out.result = .ok (names.map fun n => report cfg tools (pins n) n))
      (pinned : out.fw.db.pinned = pinsAfter cfg tools names pins) :
      LoopEnd cfg tools pins names out
  | stopped (done rest : List Str) (name : Str) {names : List Str}
      {out : Outcome (List ApprovalOutcome)} (result : ∃ e, out.result = .error e)
      (split : names = done ++ name :: rest)
      (pinned : out.fw.db.pinned = pinsAfter cfg tools done pins ∨
        out.fw.db.pinned = pinsAfter cfg tools (done ++ [name]) pins)
      (recorded : out.audits.reduceOption.map SecurityEvent.tool =
        done.map fun n => some (sanitize n)) :
      LoopEnd cfg tools pins names out

section Loop

variable {cfg : Config} {tools : List ToolDefinition} {approver : UserSession}

/-- The reports on the other names are about their own pins. -/
theorem reports_pinsAfter {name : Str} {names : List Str} (hname : name ∉ names)
    (pins : Str → Option Str) :
    (names.map fun n => report cfg tools (pinsAfter cfg tools [name] pins n) n) =
      names.map fun n => report cfg tools (pins n) n := by
  refine List.map_congr_left fun n hn => ?_
  have hne : n ≠ name := fun h => hname (h ▸ hn)
  simp [pinsAfter, hne]

theorem record_effect {env : Env} {e event : SecurityEvent} {fw fw' : Firewall}
    (h : fw.record env e = .ok (event, fw')) :
    event.tool = e.tool.map sanitize ∧ fw'.db.pinned = fw.db.pinned := by
  refine ⟨?_, funext (pinned_congr (record_ok h).2.2.2)⟩
  obtain ⟨db, hrec, -⟩ := record_cases h
  exact congrArg SecurityEvent.tool (record_eq_ok hrec).1

theorem approveLoop_end (envs : Nat → Env) {names : List Str} (hn : names.Nodup) (i : Nat)
    (fw : Firewall) :
    LoopEnd cfg tools fw.db.pinned names (approveLoop cfg envs tools approver i names fw) := by
  induction names generalizing i fw with
  | nil => exact .finished rfl (pinsAfter_nil _).symm
  | cons name rest ih =>
      rw [List.nodup_cons] at hn
      unfold approveLoop
      split
      · exact .stopped [] rest name ⟨_, rfl⟩ rfl (.inl (pinsAfter_nil _).symm) rfl
      · rename_i outcome fw₁ hname
        obtain ⟨rfl, hpins⟩ := approveName_effect hname
        split
        · exact .stopped [] rest name ⟨_, rfl⟩ rfl (.inr hpins) rfl
        · rename_i risk hrisk
          split
          · exact .stopped [] rest name ⟨_, rfl⟩ rfl (.inr hpins) rfl
          · rename_i event fw₂ hrec
            obtain ⟨htool, hsame⟩ := record_effect hrec
            have hrest := ih hn.2 (i + 1) fw₂
            rw [hsame, hpins] at hrest
            cases hrest with
            | finished result pinned =>
                rw [pinsAfter_cons] at pinned
                rw [reports_pinsAfter hn.1] at result
                refine .finished ?_ pinned
                simp only [result, Except.map, List.map_cons]
            | stopped done rest' name' result split pinned recorded =>
                rw [pinsAfter_cons, pinsAfter_cons] at pinned
                refine .stopped (name :: done) rest' name' ?_ (by rw [split]; rfl) pinned ?_
                · obtain ⟨e, he⟩ := result
                  exact ⟨e, by simp only [he]; rfl⟩
                · simp only [List.reduceOption_cons_of_some, List.map_cons, recorded, htool]
                  rfl

/-! ## When it returns -/

/-- The risk recorded for a name. -/
def recordedRisk (cfg : Config) (name : Str) : Option RiskLevel :=
  if toolNameMatches name then some (RiskClassifier.classify cfg.policy.toolRisk name) else none

/-- The record of the outcome for a name can be written. -/
def OutcomeRecordable (cfg : Config) (tools : List ToolDefinition) (approver : UserSession)
    (pins : Str → Option Str) (name : Str) : Prop :=
  (approvalEvent (recordedRisk cfg name) approver name
    (report cfg tools (pins name) name)).build.Bindable

/-- The store can take the approvals: a name that is pinned, and the id of
its approver, are texts it can hold. -/
def PinsStorable (cfg : Config) (tools : List ToolDefinition) (approver : UserSession)
    (names : List Str) : Prop :=
  ∀ name ∈ names, (pinnable cfg tools name).isSome = true →
    Encodable name ∧ Encodable approver.userId

section Returns

variable {env : Env} {name : Str} {fw : Firewall}

theorem attempt_quiet {α : Type} (hq : ∀ op, env.fault op = none) (op : Op) (x : Except Exc α) :
    env.attempt op x = x := by
  rw [Env.attempt, hq]

theorem approveOne_returns (hq : ∀ op, env.fault op = none) {d : ToolDefinition}
    (hstore : (scanDescription cfg d).blocked = false →
      Encodable d.name ∧ Encodable approver.userId) :
    ∃ outcome fw', fw.approveOne cfg env d approver = .ok (outcome, fw') := by
  have hscan : cfg.scanner.scanValue .description d.modelDump (str "definition") =
      scanDescription cfg d := rfl
  simp only [approveOne, attempt_quiet hq, hscan]
  by_cases hblocked : (scanDescription cfg d).blocked = true
  · rw [if_pos hblocked]
    exact ⟨_, _, rfl⟩
  · obtain ⟨hname, hid⟩ := hstore (Bool.eq_false_of_not_eq_true hblocked)
    have hwho : ∀ s ∈ some approver.userId, Encodable s := by simpa using hid
    obtain ⟨db', happrove⟩ : ∃ db', IntegrityChecker.approve cfg.sha256 (env.time .approve) d
        (some approver.userId) fw.db = .ok (fingerprint cfg.sha256 d, db') :=
      approve_returns hname hwho
    rw [if_neg hblocked, approvedFingerprint_eq hname, happrove]
    exact ⟨_, _, rfl⟩

theorem approveName_returns (hq : ∀ op, env.fault op = none)
    (hstore : PinsStorable cfg tools approver [name]) :
    ∃ outcome fw', fw.approveName cfg env tools approver name = .ok (outcome, fw') := by
  rw [approveName_eq]
  match hlisted : tools.filter fun t => t.name = name with
  | [] =>
      rw [hlisted]
      exact ⟨_, _, rfl⟩
  | d :: e :: l =>
      rw [hlisted]
      exact ⟨_, _, rfl⟩
  | [d] =>
      obtain rfl : d.name = name := name_of_listed hlisted
      rw [hlisted]
      refine approveOne_returns hq fun hclean => ?_
      have hsome : pinnable cfg tools d.name = some d := by simp [pinnable, hlisted, hclean]
      exact hstore d.name List.mem_cons_self (by rw [hsome]; rfl)

theorem approveLoop_returns {envs : Nat → Env} (hq : ∀ i op, (envs i).fault op = none)
    {names : List Str} (hn : names.Nodup) (i : Nat) (fw : Firewall)
    (hrecord : ∀ name ∈ names, OutcomeRecordable cfg tools approver fw.db.pinned name)
    (hstore : PinsStorable cfg tools approver names) :
    ∃ outcomes, (approveLoop cfg envs tools approver i names fw).result = .ok outcomes := by
  induction names generalizing i fw with
  | nil => exact ⟨[], rfl⟩
  | cons name rest ih =>
      rw [List.nodup_cons] at hn
      rw [List.forall_mem_cons] at hrecord
      have hfirst : PinsStorable cfg tools approver [name] :=
        List.forall_mem_singleton.mpr (hstore name List.mem_cons_self)
      obtain ⟨outcome, fw₁, hname⟩ : ∃ outcome fw₁,
          fw.approveName cfg (envs i) tools approver name = .ok (outcome, fw₁) :=
        approveName_returns (hq i) hfirst
      obtain ⟨rfl, hpins⟩ := approveName_effect hname
      have hrisk : approvalRisk cfg (envs i) name = .ok (recordedRisk cfg name) := by
        rw [approvalRisk, recordedRisk, attempt_quiet (hq i)]
        split <;> rfl
      obtain ⟨event, db₂, hrec⟩ : ∃ event db₂, AuditLog.record ((envs i).time .audit)
          (approvalEvent (recordedRisk cfg name) approver name
            (report cfg tools (fw.db.pinned name) name)) fw₁.db = .ok (event, db₂) :=
        record_returns_iff.mpr hrecord.1
      have hwritten : fw₁.record (envs i) (approvalEvent (recordedRisk cfg name) approver name
          (report cfg tools (fw.db.pinned name) name)) = .ok (event, { fw₁ with db := db₂ }) := by
        rw [record, attempt_quiet (hq i), hrec]
      -- the records of the other names are about their own pins
      have hsame := (record_effect hwritten).2
      have hrecord' : ∀ n ∈ rest, OutcomeRecordable cfg tools approver
          ({ fw₁ with db := db₂ } : Firewall).db.pinned n := by
        intro n hmem
        have hne : n ≠ name := fun h => hn.1 (h ▸ hmem)
        have hpin : ({ fw₁ with db := db₂ } : Firewall).db.pinned n = fw.db.pinned n := by
          rw [hsame, hpins]
          simp [pinsAfter, hne]
        rw [OutcomeRecordable, hpin]
        exact hrecord.2 n hmem
      obtain ⟨outcomes, hout⟩ := ih hn.2 (i + 1) { fw₁ with db := db₂ } hrecord'
        fun n hmem => hstore n (List.mem_cons_of_mem name hmem)
      rw [approveLoop, hname]
      simp only [hrisk, hwritten, hout]
      exact ⟨_, rfl⟩

end Returns

end Loop

end Firewall

end AgenticFirewall
