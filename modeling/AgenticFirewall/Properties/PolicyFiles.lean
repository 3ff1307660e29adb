import AgenticFirewall.Models.PolicyFile
import AgenticFirewall.Properties.Mediation

/-!
# Policies read back, and grant what they spell out

The policy the server shows reads back as the same policy, and no upstream
call is made for a tool that the document the policy was loaded from does
not name under the caller's role.
-/

namespace AgenticFirewall

open Py Py.Doc Transition

/-! ## Round trip -/

theorem RiskLevel.parse_name (level : RiskLevel) : parse (.text level.name) = some level := by
  cases level <;> decide

theorem RiskLevel.check_name (level : RiskLevel) : check (.text level.name) = .ok level := by
  rw [check, parse_name]

section Fields

variable (conv : Conversions)

theorem intBetween_dump {lo hi n : Nat} (h : lo ≤ n ∧ n ≤ hi) :
    intBetween conv lo hi (.int n) = .ok ⟨n, h⟩ := by
  have hbounds : (lo : Int) ≤ n ∧ (n : Int) ≤ hi := by omega
  simp only [intBetween, conv.int_int]
  rw [dif_pos hbounds]
  rfl

theorem intFrom_dump {lo n : Nat} (h : lo ≤ n) : intFrom conv lo (.int n) = .ok ⟨n, h⟩ := by
  have hbound : (lo : Int) ≤ n := by omega
  simp only [intFrom, conv.int_int]
  rw [dif_pos hbound]
  rfl

theorem positive_dump {q : ℚ} (h : 0 < q) : positive conv (.float q) = .ok ⟨q, h⟩ :=
  Checked.such_eq_ok.mpr (convert_eq_ok.mpr (conv.float_float q))

theorem toolNames_dump {names : List Str} (h : names.all validToolName = true) :
    toolNames conv (.list (names.map .text)) = .ok ⟨names, h⟩ := by
  have hnames : elements (convert conv.text) 0 (names.map .text) =
      (.ok names : Checked PolicyError (List Str)) :=
    elements_map (fun name => convert_eq_ok.mpr (conv.text_text name)) names 0
  simp only [toolNames, conv.list_list]
  exact Checked.such_eq_ok.mpr hnames

theorem parseToolRisk_dump (l : List (Str × RiskLevel)) :
    parseToolRisk (l.map fun kv => (.text kv.1, .text kv.2.name)) =
      .ok (l.map fun kv => (.text kv.1, kv.2)) := by
  induction l with
  | nil => rfl
  | cons kv l ih => simp [parseToolRisk, RiskLevel.parse_name, ih]

theorem toolRisk_dump (levels : Dict Str RiskLevel) :
    toolRisk conv (.dict (ofDict (fun level => .text level.name) levels)) = .ok levels := by
  rw [toolRisk, ofDict, parseToolRisk_dump]
  exact mapping_ofDict conv.text_text (fun _ => rfl) levels

end Fields

/-- The conversions of values that have the field's type already, and of an
integer where a `float` is asked for. -/
def Conversions.exact : Conversions where
  int d := match d with
    | .int n => some n
    | _ => none
  float d := match d with
    | .float q => some q
    | .int n => some n
    | _ => none
  bool d := match d with
    | .bool b => some b
    | _ => none
  text d := match d with
    | .text s => some s
    | _ => none
  list d := match d with
    | .list ds => some ds
    | _ => none
  int_int _ := rfl
  float_float _ := rfl
  bool_bool _ := rfl
  text_text _ := rfl
  list_list _ := rfl

section Models

variable (conv : Conversions)

theorem RolePolicy.validate_dump (p : RolePolicy) : validate conv p.dump = .ok p := by
  rw [validate, dump, model_record (by simp)]
  simp [fieldOr, toolNames_dump conv p.noWildcards, RiskLevel.check_name,
    convert_eq_ok.mpr (conv.bool_bool p.canManage)]

theorem RateLimitPolicy.validate_dump (p : RateLimitPolicy) : validate conv p.dump = .ok p := by
  rw [validate, dump, model_record (by simp)]
  simp [fieldOr, intFrom_dump conv p.one_le, positive_dump conv p.window_pos]

theorem CircuitBreakerPolicy.validate_dump (p : CircuitBreakerPolicy) :
    validate conv p.dump = .ok p := by
  rw [validate, dump, model_record (by simp)]
  simp [fieldOr, intFrom_dump conv p.one_le, positive_dump conv p.cooldown_pos]

theorem ScannerPolicy.validate_dump (p : ScannerPolicy) : validate conv p.dump = .ok p := by
  rw [validate, dump, model_record (by simp)]
  simp [fieldOr, intFrom_dump conv p.ge_thousand]

namespace PolicyFile

theorem roles_dump {rolePolicies : Dict Str RolePolicy} (h : rolePolicies.items ≠ []) :
    roles conv (.dict (ofDict RolePolicy.dump rolePolicies)) = .ok ⟨rolePolicies, h⟩ :=
  Checked.such_eq_ok.mpr
    (mapping_ofDict conv.text_text (RolePolicy.validate_dump conv) rolePolicies)

theorem validate_dump (file : PolicyFile) : validate conv file.dump = .ok file := by
  rw [validate, dump, model_record (by simp)]
  simp [fieldOr, field, convert_eq_ok.mpr (conv.int_int file.version),
    intBetween_dump conv file.policy.ttl_ok, positive_dump conv file.timeout_pos,
    roles_dump conv file.policy.has_role, toolRisk_dump, RateLimitPolicy.validate_dump,
    CircuitBreakerPolicy.validate_dump, ScannerPolicy.validate_dump]

/-- **A policy reads back** as it was written out. -/
theorem load_dump (file : PolicyFile) : load conv file.dump = .ok file := by
  have hvalid := validate_dump conv file
  rw [dump, record] at hvalid ⊢
  rw [load, hvalid]

/-- Two roles, overridden risks and limits of its own. -/
def teamFile : PolicyFile where
  version := 3
  upstreamTimeoutSeconds := 12
  policy :=
    { echoPolicy with
      roles := .ofList
        [(str "root",
          { allowedTools := [str "read_file", str "delete_file"], maxRisk := .critical,
            canManage := true }),
          (str "analyst", { allowedTools := [str "read_file"], maxRisk := .medium })]
      toolRisk := .ofList [(str "read_file", .low), (str "delete_file", .critical)]
      rateLimit := { maxRequests := 20, windowSeconds := 10 }
      has_role := by decide }

theorem load_dump_team : load .exact teamFile.dump = .ok teamFile := load_dump .exact teamFile

/-! ## Nothing is granted that is not spelled out -/

/-- The mapping of a role lists the tool by its exact name, and its
`max_risk`, `LOW` if it has none, is not below the risk. -/
structure Lists (role : List (Doc × Doc)) (tool : Str) (risk : RiskLevel) : Prop where
  listed : ∃ d ds entry, get "allowed_tools" role = some d ∧ conv.list d = some ds ∧
    entry ∈ ds ∧ conv.text entry = some tool
  exact_name : validToolName tool = true
  risk_le : (get "max_risk" role = none ∧ risk ≤ .low) ∨
    ∃ d level, get "max_risk" role = some d ∧ RiskLevel.parse d = some level ∧ risk ≤ level

/-- The document has a mapping for the role that lists the tool. -/
def Grants (d : Doc) (role tool : Str) (risk : RiskLevel) : Prop :=
  ∃ items roles key fields, d = .dict items ∧ get "roles" items = some (.dict roles) ∧
    (key, .dict fields) ∈ roles ∧ conv.text key = some role ∧ Lists conv fields tool risk

variable {conv} {d : Doc} {file : PolicyFile}

theorem check_eq_ok {level : RiskLevel} (h : RiskLevel.check d = .ok level) :
    RiskLevel.parse d = some level := by
  unfold RiskLevel.check at h
  split at h
  · rename_i level' hparse
    cases h
    exact hparse
  · cases h

theorem mem_of_toolNames {names : { names : List Str // names.all validToolName = true }}
    (h : toolNames conv d = .ok names) {tool : Str} (ht : tool ∈ names.val) :
    ∃ ds entry, conv.list d = some ds ∧ entry ∈ ds ∧ conv.text entry = some tool := by
  unfold toolNames at h
  split at h
  · cases h
  · rename_i ds hds
    obtain ⟨entry, hentry, hconv⟩ := mem_of_elements (Checked.such_eq_ok.mp h) ht
    exact ⟨ds, entry, hds, hentry, convert_eq_ok.mp hconv⟩

/-- A role's policy allows what its mapping lists. -/
theorem lists_of_role {p : RolePolicy} (h : RolePolicy.validate conv d = .ok p) {tool : Str}
    {risk : RiskLevel} (ht : tool ∈ p.allowedTools) (hr : risk ≤ p.maxRisk) :
    ∃ fields, d = .dict fields ∧ Lists conv fields tool risk := by
  obtain ⟨fields, rfl, hfields, -⟩ := model_eq_ok.mp h
  obtain ⟨g, manage, hg, -, rfl⟩ := Checked.seq_eq_ok.mp hfields
  obtain ⟨g', level, hg', hlevel, rfl⟩ := Checked.seq_eq_ok.mp hg
  obtain ⟨names, hnames, rfl⟩ := Checked.map_eq_ok.mp hg'
  refine ⟨fields, rfl, ?_, List.all_eq_true.mp names.property tool ht, ?_⟩
  · rcases fieldOr_eq_ok.mp hnames with ⟨-, rfl⟩ | ⟨listed, hget, hcheck⟩
    · cases ht
    · obtain ⟨ds, entry, hds, hentry, htext⟩ := mem_of_toolNames hcheck ht
      exact ⟨listed, ds, entry, hget, hds, hentry, htext⟩
  · rcases fieldOr_eq_ok.mp hlevel with ⟨hget, rfl⟩ | ⟨named, hget, hcheck⟩
    · exact .inl ⟨hget, hr⟩
    · exact .inr ⟨named, level, hget, check_eq_ok hcheck, hr⟩

/-- The roles of a policy are read from the document's `roles`. -/
theorem role_of_validate (h : validate conv d = .ok file) {role : Str} {p : RolePolicy}
    (hrole : file.policy.roles.get role = some p) :
    ∃ items rolesItems key value, d = .dict items ∧ get "roles" items = some (.dict rolesItems) ∧
      (key, value) ∈ rolesItems ∧ conv.text key = some role ∧
      RolePolicy.validate conv value = .ok p := by
  obtain ⟨items, rfl, hscanner, -⟩ := model_eq_ok.mp h
  obtain ⟨_, scanner, hbreaker, -, rfl⟩ := Checked.seq_eq_ok.mp hscanner
  obtain ⟨_, breaker, hlogin, -, rfl⟩ := Checked.seq_eq_ok.mp hbreaker
  obtain ⟨_, login, hlimit, -, rfl⟩ := Checked.seq_eq_ok.mp hlogin
  obtain ⟨_, limit, hrisks, -, rfl⟩ := Checked.seq_eq_ok.mp hlimit
  obtain ⟨_, risks, hfound, -, rfl⟩ := Checked.seq_eq_ok.mp hrisks
  obtain ⟨_, found, htimeout, hroles, rfl⟩ := Checked.seq_eq_ok.mp hfound
  obtain ⟨_, timeout, httl, -, rfl⟩ := Checked.seq_eq_ok.mp htimeout
  obtain ⟨_, ttl, hversion, -, rfl⟩ := Checked.seq_eq_ok.mp httl
  obtain ⟨version, -, rfl⟩ := Checked.map_eq_ok.mp hversion
  obtain ⟨value, hget, hcheck⟩ := field_eq_ok.mp hroles
  cases value with
  | dict rolesItems =>
      obtain ⟨kv, hkv, hkey, hvalue⟩ := mem_of_mapping (Checked.such_eq_ok.mp hcheck) hrole
      exact ⟨items, rolesItems, kv.1, kv.2, rfl, hget, hkv, hkey, hvalue⟩
  | _ => cases hcheck

theorem validate_of_load (h : load conv d = .ok file) : validate conv d = .ok file := by
  unfold load at h
  split at h
  · split at h
    · rename_i hvalid
      cases h
      exact hvalid
    · cases h
  · cases h

theorem grants_of_check (h : load conv d = .ok file) {role tool : Str} {risk : RiskLevel}
    (hallowed : ∃ p, file.policy.roles.get role = some p ∧ tool ∈ p.allowedTools ∧
      risk ≤ p.maxRisk) : Grants conv d role tool risk := by
  obtain ⟨p, hrole, ht, hr⟩ := hallowed
  obtain ⟨items, rolesItems, key, value, rfl, hget, hmem, hkey, hvalue⟩ :=
    role_of_validate (validate_of_load h) hrole
  obtain ⟨fields, rfl, hlists⟩ := lists_of_role hvalue ht hr
  exact ⟨items, rolesItems, key, fields, rfl, hget, hmem, hkey, hlists⟩

end PolicyFile

end Models

namespace System

variable {cfg : Config} {conv : Conversions} {d : Doc} {file : PolicyFile} {fw : Firewall}
  {s : System} {as : List Act} {o : List Event} {r : Nat}

/-- **Nothing is granted that is not spelled out.** In every run under a
policy that was loaded from a document, each upstream call belongs to a
request whose session had a role for which the document lists the tool by
its exact name, with a risk limit not below the tool's. -/
theorem granted_by_document (hload : PolicyFile.load conv d = .ok file)
    (hcfg : cfg.policy = file.policy) (h : (machine cfg).run { fw } as = some (s, o))
    {name : Str} {args : Obj} (hi : .issued r name args ∈ o) :
    ∃ pre s₁ env req session, At cfg fw as pre s₁ (.handle env req) ∧ s₁.tasks.length = r ∧
      Authenticator.Live cfg.sha256 (env.time .validate) req.sessionId s₁.fw.db session ∧
      PolicyFile.Grants conv d session.role name
        (RiskClassifier.classify file.policy.toolRisk name) := by
  obtain ⟨pre', a, post, s₂, o₂, s₃, o₃, rfl, hrun₂, hstep, hi'⟩ :=
    (machine cfg).mem_run_output h hi
  obtain ⟨env', tools, req, ctx, rfl, htask, rfl, rfl, hfwd⟩ := step_issued hstep hi'
  obtain ⟨pre, env, s₁, session, hat, hlen, hadm, -⟩ := run_handled hrun₂ (.inl htask)
  have hrole := hadm.role
  rw [Firewall.toolRisk, hcfg] at hrole
  exact ⟨pre, s₁, env, req, session, hat.extend _, hlen, hadm.live,
    PolicyFile.grants_of_check hload hrole⟩

end System

/-- A file for the policy of the runs above. -/
def echoFile : Doc :=
  .dict
    [(.text (str "roles"), .dict
      [(.text (str "root"), .dict
        [(.text (str "can_manage"), .bool true),
          (.text (str "allowed_tools"), .list [.text (str "echo")]),
          (.text (str "max_risk"), .text (str " medium"))]),
        (.text (str "agent"), .dict
          [(.text (str "allowed_tools"), .list [.text (str "echo")]),
            (.text (str "max_risk"), .text (str "Medium"))])])]

theorem echoFile_loads : PolicyFile.load .exact echoFile = .ok { policy := echoPolicy } := by
  rfl

theorem granted_by_document_echo : ∃ r name pre s₁ env req session,
    System.At echoConfig (.init echoConfig {}) echoCall pre s₁ (.handle env req) ∧
      s₁.tasks.length = r ∧
      Authenticator.Live echoConfig.sha256 (env.time .validate) req.sessionId s₁.fw.db session ∧
      PolicyFile.Grants .exact echoFile session.role name
        (RiskClassifier.classify echoPolicy.toolRisk name) := by
  obtain ⟨s, o, req, ctx, hrun, htask⟩ := echoCall_awaits
  exact ⟨2, req.tool, System.granted_by_document echoFile_loads rfl hrun
    (System.run_issued hrun htask)⟩

end AgenticFirewall
