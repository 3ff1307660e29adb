import AgenticFirewall.Firewall.Approval
import AgenticFirewall.Properties.Mediation

/-!
# What an approval reports and changes

`approve_tools` reports on each requested name once, and pins what it
reports as approved, updated or unchanged. It commits name by name: what
was approved before an exception stays.
-/

namespace AgenticFirewall

open Py

namespace Firewall

/-- The outcome says what became of its name: whether the listing has it,
whether it was refused, and how its definition compares with the pin
before. -/
structure Reported (cfg : Config) (tools : List ToolDefinition) (pins : Str → Option Str)
    (o : ApprovalOutcome) : Prop where
  notFound : o.status = .notFound ↔ ∀ t ∈ tools, t.name ≠ o.tool
  rejected : o.status = .rejected ↔ 1 < count tools o.tool ∨
    ∃ d, tools.filter (fun t => t.name = o.tool) = [d] ∧ (scanDescription cfg d).blocked = true
  approved : o.status = .approved ↔
    ∃ d, d.name = o.tool ∧ Approvable cfg tools d ∧ pins o.tool = none
  unchanged : o.status = .unchanged ↔
    ∃ d, d.name = o.tool ∧ Approvable cfg tools d ∧
      pins o.tool = some (fingerprint cfg.sha256 d)
  updated : o.status = .updated ↔
    ∃ d, d.name = o.tool ∧ Approvable cfg tools d ∧
      ∃ fp, pins o.tool = some fp ∧ fp ≠ fingerprint cfg.sha256 d

/-- The name of the outcome is pinned to its live definition. -/
def Pins (o : ApprovalOutcome) : Prop :=
  o.status = .approved ∨ o.status = .updated ∨ o.status = .unchanged

section Reports

variable {cfg : Config} {tools : List ToolDefinition} {pins : Str → Option Str} {name : Str}

theorem tool_report (pinned : Option Str) : (report cfg tools pinned name).tool = name := by
  unfold report
  split
  · rfl
  · split <;> rfl
  · rfl

theorem status_report_of_some {d : ToolDefinition} (h : pinnable cfg tools name = some d)
    (pinned : Option Str) : (report cfg tools pinned name).status =
      match pinned with
      | none => .approved
      | some old => if old = fingerprint cfg.sha256 d then .unchanged else .updated := by
  obtain ⟨rfl, hunique, hclean⟩ := pinnable_eq_some_iff.mp h
  simp only [report, hunique, ScanResult.blocked, hclean]
  cases pinned <;> rfl

/-- Why nothing can be pinned to a name: it is not listed, its definition
is suspicious, or it is listed more than once. -/
theorem listed_of_none (h : pinnable cfg tools name = none) :
    tools.filter (fun t => t.name = name) = [] ∨
      (∃ d, tools.filter (fun t => t.name = name) = [d] ∧
        (scanDescription cfg d).blocked = true) ∨
      ∃ d e l, tools.filter (fun t => t.name = name) = d :: e :: l := by
  unfold pinnable at h
  split at h
  · rename_i d hlisted
    split at h
    · rename_i hblocked
      exact .inr (.inl ⟨d, hlisted, hblocked⟩)
    · cases h
  · rename_i hlisted
    cases hl : tools.filter (fun t => t.name = name) with
    | nil => exact .inl rfl
    | cons d rest =>
        cases rest with
        | nil => exact absurd hl (hlisted d)
        | cons e l => exact .inr (.inr ⟨d, e, l, rfl⟩)

theorem status_report_of_none (h : pinnable cfg tools name = none) (pinned : Option Str) :
    (report cfg tools pinned name).status =
      if tools.filter (fun t => t.name = name) = [] then .notFound else .rejected := by
  rcases listed_of_none h with hl | ⟨d, hl, hblocked⟩ | ⟨d, e, l, hl⟩
  · simp [report, hl]
  · simp [report, hl, hblocked]
  · simp [report, hl]

/-- The only definition an approval of the name could pin. -/
theorem approvable_iff {d : ToolDefinition} (h : pinnable cfg tools name = some d)
    {e : ToolDefinition} : e.name = name ∧ Approvable cfg tools e ↔ e = d := by
  rw [← pinnable_eq_some_iff, h, Option.some.injEq, eq_comm]

theorem listed_iff : tools.filter (fun t => t.name = name) = [] ↔ ∀ t ∈ tools, t.name ≠ name := by
  simp [List.filter_eq_nil_iff]

theorem refused_iff (h : pinnable cfg tools name = none) :
    ¬ tools.filter (fun t => t.name = name) = [] ↔ 1 < count tools name ∨
      ∃ d, tools.filter (fun t => t.name = name) = [d] ∧
        (scanDescription cfg d).blocked = true := by
  rcases listed_of_none h with hl | ⟨d, hl, hblocked⟩ | ⟨d, e, l, hl⟩
  · simp [count, hl]
  · simp [hl, hblocked]
  · simp [count, hl]

theorem reported_of_none {o : ApprovalOutcome} (h : pinnable cfg tools o.tool = none)
    (hstatus : o.status =
      if tools.filter (fun t => t.name = o.tool) = [] then .notFound else .rejected) :
    Reported cfg tools pins o := by
  have hnone : ∀ d, ¬ (d.name = o.tool ∧ Approvable cfg tools d) := by
    intro d hd
    rw [← pinnable_eq_some_iff, h] at hd
    cases hd
  -- no status of a pinned name
  have hother : ∀ s, s ≠ .notFound → s ≠ .rejected → o.status ≠ s := by
    intro s hfound hrejected ho
    rw [hstatus] at ho
    split at ho
    · exact hfound ho.symm
    · exact hrejected ho.symm
  refine ⟨?_, ?_, ?_, ?_, ?_⟩
  · rw [hstatus, ← listed_iff]
    split <;> simp_all
  · rw [hstatus, ← refused_iff h]
    split <;> simp_all
  · exact iff_of_false (hother _ nofun nofun) fun ⟨d, hname, happ, _⟩ => hnone d ⟨hname, happ⟩
  · exact iff_of_false (hother _ nofun nofun) fun ⟨d, hname, happ, _⟩ => hnone d ⟨hname, happ⟩
  · exact iff_of_false (hother _ nofun nofun) fun ⟨d, hname, happ, _⟩ => hnone d ⟨hname, happ⟩

theorem reported_of_some {o : ApprovalOutcome} {d : ToolDefinition}
    (h : pinnable cfg tools o.tool = some d)
    (hstatus : o.status =
      match pins o.tool with
      | none => .approved
      | some old => if old = fingerprint cfg.sha256 d then .unchanged else .updated) :
    Reported cfg tools pins o := by
  obtain ⟨hname, hunique, hclean⟩ := pinnable_eq_some_iff.mp h
  rw [hname] at hunique
  have hmem : d ∈ tools := (List.mem_filter.mp (hunique ▸ List.mem_singleton_self d)).1
  -- the definition is listed once and clean
  have hlisted : ¬ ∀ t ∈ tools, t.name ≠ o.tool := fun hall => hall d hmem hname
  have hrefused : ¬ (1 < count tools o.tool ∨
      ∃ e, tools.filter (fun t => t.name = o.tool) = [e] ∧
        (scanDescription cfg e).blocked = true) := by
    rintro (hcount | ⟨e, he, hblocked⟩)
    · simp [count, hunique] at hcount
    · obtain rfl : d = e := by simpa [hunique] using he
      simp [ScanResult.blocked, hclean] at hblocked
  have hthe : ∀ {P : ToolDefinition → Prop},
      (∃ e, e.name = o.tool ∧ Approvable cfg tools e ∧ P e) ↔ P d := by
    intro P
    simp only [← and_assoc, approvable_iff h, exists_eq_left]
  have happroved := hthe (P := fun _ => pins o.tool = none)
  have hunchanged := hthe (P := fun e => pins o.tool = some (fingerprint cfg.sha256 e))
  have hupdated :=
    hthe (P := fun e => ∃ fp, pins o.tool = some fp ∧ fp ≠ fingerprint cfg.sha256 e)
  -- the status compares the pin before with the live fingerprint
  have hcompared : o.status ≠ .notFound ∧ o.status ≠ .rejected ∧
      (o.status = .approved ↔ pins o.tool = none) ∧
      (o.status = .unchanged ↔ pins o.tool = some (fingerprint cfg.sha256 d)) ∧
      (o.status = .updated ↔ ∃ fp, pins o.tool = some fp ∧ fp ≠ fingerprint cfg.sha256 d) := by
    rw [hstatus]
    cases pins o.tool with
    | none => simp
    | some old => by_cases hold : old = fingerprint cfg.sha256 d <;> simp [hold]
  obtain ⟨hfound, hclear, hnew, hsame, hchanged⟩ := hcompared
  exact ⟨iff_of_false hfound hlisted, iff_of_false hclear hrefused, hnew.trans happroved.symm,
    hsame.trans hunchanged.symm, hchanged.trans hupdated.symm⟩

theorem reported_report (pins : Str → Option Str) (name : Str) :
    Reported cfg tools pins (report cfg tools (pins name) name) := by
  have htool : (report cfg tools (pins name) name).tool = name := tool_report _
  cases hpinnable : pinnable cfg tools name with
  | none =>
      refine reported_of_none (by rw [htool, hpinnable]) ?_
      rw [htool]
      exact status_report_of_none hpinnable _
  | some d =>
      refine reported_of_some (by rw [htool, hpinnable]) ?_
      rw [htool]
      exact status_report_of_some hpinnable _

/-- A name is pinned exactly when its outcome says so. -/
theorem pins_report_iff (pinned : Option Str) :
    Pins (report cfg tools pinned name) ↔ (pinnable cfg tools name).isSome = true := by
  cases hpinnable : pinnable cfg tools name with
  | none =>
      rw [Pins, status_report_of_none hpinnable]
      split <;> simp
  | some d =>
      rw [Pins, status_report_of_some hpinnable]
      cases pinned with
      | none => simp
      | some old => by_cases hold : old = fingerprint cfg.sha256 d <;> simp [hold]

/-- The pins after are those before, but for the names that were pinned. -/
theorem pinsAfter_report {names : List Str} {outcomes : List ApprovalOutcome}
    (h : outcomes = names.map fun n => report cfg tools (pins n) n) :
    (∀ o ∈ outcomes, Pins o → ∃ d, d.name = o.tool ∧ Approvable cfg tools d ∧
        pinsAfter cfg tools names pins o.tool = some (fingerprint cfg.sha256 d)) ∧
      ∀ n, (∀ o ∈ outcomes, o.tool = n → ¬ Pins o) →
        pinsAfter cfg tools names pins n = pins n := by
  subst h
  constructor
  · intro o ho hpins
    obtain ⟨n, hn, rfl⟩ := List.mem_map.mp ho
    obtain ⟨d, hd⟩ := Option.isSome_iff_exists.mp ((pins_report_iff _).mp hpins)
    obtain ⟨hname, happ⟩ := pinnable_eq_some_iff.mp hd
    rw [tool_report]
    exact ⟨d, hname, happ, by simp [pinsAfter, hn, hd]⟩
  · intro n hnot
    by_cases hn : n ∈ names
    · have hreport := hnot _ (List.mem_map_of_mem hn) (tool_report _)
      rw [pins_report_iff, Option.not_isSome_iff_eq_none] at hreport
      simp [pinsAfter, hreport]
    · simp [pinsAfter, hn]

theorem tools_reports (names : List Str) (pins : Str → Option Str) :
    (names.map fun n => report cfg tools (pins n) n).map (·.tool) = names := by
  rw [List.map_map]
  conv_rhs => rw [← List.map_id names]
  exact List.map_congr_left fun n _ => tool_report _

end Reports

/-- **Approval changes exactly what it reports.** With every record
writable, every operation at work and texts the store can hold, a manager's
approval reports once on each requested name, in the order of their first
occurrence; the outcome says what became of the name, and the pins change
at the names reported as approved, updated or unchanged alone. -/
theorem approve_tools_effect (cfg : Config) (envs : Nat → Env) (approver : UserSession)
    (names : Option (List Str)) (tools : List ToolDefinition) (fw : Firewall)
    (hmanager : Authorizer.canManage cfg.policy.roles approver.role = true)
    (hquiet : ∀ i op, (envs i).fault op = none)
    (hrecord : ∀ name ∈ requested tools names,
      OutcomeRecordable cfg tools approver fw.db.pinned name)
    (hstore : PinsStorable cfg tools approver (requested tools names)) :
    approveStart cfg (envs 0) approver = .ok () ∧
      ∃ outcomes,
        (fw.approveTools cfg envs approver names (.listing tools)).result = .ok outcomes ∧
        outcomes.map (·.tool) = requested tools names ∧
        (∀ o ∈ outcomes, Reported cfg tools fw.db.pinned o) ∧
        (∀ o ∈ outcomes, Pins o → ∃ d, d.name = o.tool ∧ Approvable cfg tools d ∧
          (fw.approveTools cfg envs approver names (.listing tools)).fw.db.pinned o.tool =
            some (fingerprint cfg.sha256 d)) ∧
        ∀ n, (∀ o ∈ outcomes, o.tool = n → ¬ Pins o) →
          (fw.approveTools cfg envs approver names (.listing tools)).fw.db.pinned n =
            fw.db.pinned n := by
  constructor
  · simp [approveStart, attempt_quiet (hquiet 0), hmanager]
  · have hnodup : (requested tools names).Nodup := requested_nodup names
    simp only [approveTools, wanted_eq]
    obtain ⟨outcomes, hok⟩ := approveLoop_returns hquiet hnodup 0 fw hrecord hstore
    cases approveLoop_end envs hnodup 0 fw with
    | finished result pinned =>
        obtain ⟨hchanged, hkept⟩ := pinsAfter_report rfl
        rw [result, pinned]
        exact ⟨_, rfl, tools_reports _ _, List.forall_mem_map.mpr fun n _ => reported_report _ n,
          hchanged, hkept⟩
    | stopped _ _ _ result =>
        obtain ⟨e, he⟩ := result
        rw [hok] at he
        cases he

instance (cfg : Config) (tools : List ToolDefinition) (approver : UserSession)
    (pins : Str → Option Str) (name : Str) :
    Decidable (OutcomeRecordable cfg tools approver pins name) := by
  unfold OutcomeRecordable
  infer_instance

instance (cfg : Config) (tools : List ToolDefinition) (approver : UserSession) (names : List Str) :
    Decidable (PinsStorable cfg tools approver names) := by
  unfold PinsStorable
  infer_instance

/-- `echo` has been approved. -/
def echoApproved : Firewall :=
  ((init pairConfig {}).approveTools pairConfig (fun _ => {}) ada none (.listing [echo])).fw

/-- A listing with two definitions of one name. -/
def twinListing : List ToolDefinition :=
  [echo, { clock with name := str "twin" }, clock, { echo with name := str "twin" }]

/-- Names that are requested twice, listed twice and not listed. -/
def twinNames : List Str := [str "echo", str "twin", str "echo", str "absent", str "clock"]

/-- Ada approves these names: `clock` alone is pinned anew, and no pin but
its own and `echo`'s can have changed. -/
theorem approve_tools_effect_echo :
    approveStart pairConfig {} ada = .ok () ∧ ∃ outcomes,
      (echoApproved.approveTools pairConfig (fun _ => {}) ada (some twinNames)
        (.listing twinListing)).result = .ok outcomes ∧
      outcomes.map (fun o => (o.tool, o.status)) =
        [(str "echo", .unchanged), (str "twin", .rejected), (str "absent", .notFound),
          (str "clock", .approved)] ∧
      (∀ o ∈ outcomes, Reported pairConfig twinListing echoApproved.db.pinned o) ∧
      ∀ n, n ≠ str "echo" → n ≠ str "clock" →
        (echoApproved.approveTools pairConfig (fun _ => {}) ada (some twinNames)
          (.listing twinListing)).fw.db.pinned n = echoApproved.db.pinned n := by
  have hrecord : ∀ name ∈ requested twinListing (some twinNames),
      OutcomeRecordable pairConfig twinListing ada echoApproved.db.pinned name := by
    decide +kernel
  have htexts : ∀ name ∈ requested twinListing (some twinNames),
      Encodable name ∧ Encodable ada.userId := by
    decide
  have hstore : PinsStorable pairConfig twinListing ada (requested twinListing (some twinNames)) :=
    fun name hname _ => htexts name hname
  have hstatuses : (echoApproved.approveTools pairConfig (fun _ => {}) ada (some twinNames)
      (.listing twinListing)).result.toOption.map (List.map fun o => (o.tool, o.status)) =
        some [(str "echo", .unchanged), (str "twin", .rejected), (str "absent", .notFound),
          (str "clock", .approved)] := by
    decide +kernel
  obtain ⟨hstart, outcomes, hok, -, hreported, -, hkept⟩ := approve_tools_effect pairConfig
    (fun _ => {}) ada (some twinNames) twinListing echoApproved (by decide) (fun _ _ => rfl)
    hrecord hstore
  rw [hok] at hstatuses
  have hstatuses := Option.some.inj hstatuses
  refine ⟨hstart, outcomes, hok, hstatuses, hreported, fun n hecho hclock => hkept n ?_⟩
  intro o ho htool hpins
  have hmem : (o.tool, o.status) ∈ outcomes.map fun o => (o.tool, o.status) :=
    List.mem_map_of_mem ho
  rw [hstatuses] at hmem
  simp only [List.mem_cons, Prod.mk.injEq, List.not_mem_nil, or_false] at hmem
  rcases hmem with ⟨h, -⟩ | ⟨-, h⟩ | ⟨-, h⟩ | ⟨h, -⟩
  · exact hecho (htool.symm.trans h)
  · simp [Pins, h] at hpins
  · simp [Pins, h] at hpins
  · exact hclock (htool.symm.trans h)

/-- A tool whose name ends in a lone surrogate, beyond what a record
keeps of it. -/
def unstorable : ToolDefinition :=
  { echo with name := List.replicate 300 (ofChar 'a') ++ [(0xD800 : CodePoint)] }

/-- Its record can be written, its pin cannot: the approval raises. -/
theorem approve_tools_unstorable :
    (∀ name ∈ requested [unstorable] none,
      OutcomeRecordable echoConfig [unstorable] ada (init echoConfig {}).db.pinned name) ∧
      ∃ e, ((init echoConfig {}).approveTools echoConfig (fun _ => {}) ada none
        (.listing [unstorable])).result = .error e := by
  have hrun : (∀ name ∈ requested [unstorable] none,
        OutcomeRecordable echoConfig [unstorable] ada (init echoConfig {}).db.pinned name) ∧
      ((init echoConfig {}).approveTools echoConfig (fun _ => {}) ada none
        (.listing [unstorable])).result.isOk = false := by
    decide +kernel
  exact ⟨hrun.1, exists_error_of_isOk hrun.2⟩

/-! ## When it raises -/

end Firewall

end AgenticFirewall
