import AgenticFirewall.Properties.Mediation
import AgenticFirewall.Properties.ScannerVerdict

/-!
# No poisoned definition is pinned or relayed

An approval scans the definition it pins, and an agent is shown what
matches a pin. The digest ignores the order of keys and so does the
scanner's verdict, so the definition that is shown would pass the scan
too, whatever the upstream lists at each fetch.
-/

namespace AgenticFirewall

open Py Transition

/-- The definitions an action fetches from the upstream. -/
def Act.fetched : Act → List ToolDefinition
  | .handleTools _ _ (.listing tools) => tools
  | .approveTools _ _ (.listing tools) => tools
  | .listTools _ _ (.listing tools) => tools
  | _ => []

namespace System

variable {cfg : Config} {s s' : System} {a : Act} {o : List Event} {id : Nat} {fw : Firewall}
  {as : List Act}

/-! ## Pins come from approvals -/

/-- In this step a manager's approval goes on with the listing `tools`. -/
def Approving (s : System) (a : Act) (tools : List ToolDefinition) : Prop :=
  ∃ id envs approver names, a = .approveTools id envs (.listing tools) ∧
    s.tasks[id]? = some (.approveTools approver names)

theorem Ending.pins (h : Ending cfg s a id fw o) :
    fw.db.toolFingerprints = s.fw.db.toolFingerprints ∨
      ∃ tools, Approving s a tools ∧ Firewall.PinsFrom cfg tools s.fw.db fw.db := by
  cases h with
  | answered h =>
      rename_i env req ctx x fw
      obtain ⟨-, hpins, -⟩ := Firewall.recordOrLog_logged env
        (Firewall.resultEvent req ctx (Firewall.handleResult env req ctx x)) fw
      exact .inl (hpins.trans (by rw [h.db]))
  | callCancelled hrun hf => exact .inl rfl
  | cancelled => exact .inl rfl
  | notApproving h => exact .inl rfl
  | approved hrun =>
      rename_i envs reply approver names
      cases reply with
      | raised => exact .inl rfl
      | listing tools =>
          exact .inr ⟨tools, ⟨id, envs, approver, names, rfl, hrun⟩,
            Firewall.approveTools_pins envs names tools s.fw⟩
  | notListing h => exact .inl (by rw [Firewall.listStart_db])
  | listed hrun => exact .inl rfl
  | manager => exact .inl (by rw [(Firewall.requireManager_silent cfg _ s.fw _).2])
  | login => exact .inl (Firewall.login_logged cfg _ _ _ _ _ s.fw).2

theorem step_pins (h : step cfg s a = some (s', o)) :
    s'.fw.db.toolFingerprints = s.fw.db.toolFingerprints ∨
      ∃ tools, Approving s a tools ∧ Firewall.PinsFrom cfg tools s.fw.db s'.fw.db := by
  cases step_shape h with
  | opened t ha ht hnew =>
      rcases hnew with ⟨-, hend⟩ | ⟨-, hdb, -⟩
      · exact hend.pins
      · exact .inl (by rw [hdb])
  | moved id t t' ha hid hrun hleft ht hnew =>
      rcases hnew with ⟨-, hend⟩ | ⟨env, tools, req, ctx, -, -, -, -, hdb, -⟩
      · exact hend.pins
      · exact .inl (by rw [hdb])
  | outside ha hid ht hdb ho => exact .inl hdb.2

/-- The run pinned `fp` to `name` in an approval by a manager: it is the
fingerprint of a definition that was alone of its name in the listing the
approval fetched, and in which the scan found nothing. -/
def PinnedBy (cfg : Config) (fw : Firewall) (as : List Act) (name fp : Str) : Prop :=
  ∃ pre s id envs tools approver names d,
    At cfg fw as pre s (.approveTools id envs (.listing tools)) ∧
      s.tasks[id]? = some (.approveTools approver names) ∧
      Authorizer.canManage cfg.policy.roles approver.role = true ∧
      d.name = name ∧ Firewall.Approvable cfg tools d ∧ fp = fingerprint cfg.sha256 d

theorem PinnedBy.extend {name fp : Str} (h : PinnedBy cfg fw as name fp) (more : List Act) :
    PinnedBy cfg fw (as ++ more) name fp := by
  obtain ⟨pre, s, id, envs, tools, approver, names, d, hat, h⟩ := h
  exact ⟨pre, s, id, envs, tools, approver, names, d, hat.extend more, h⟩

/-- What is approved was requested by a manager. -/
theorem run_approver (h : (machine cfg).run { fw } as = some (s, o)) {approver : UserSession}
    {names : Option (List Str)} (hrun : s.tasks[id]? = some (.approveTools approver names)) :
    Authorizer.canManage cfg.policy.roles approver.role = true := by
  obtain ⟨_, _, _, _, -, -, hstart, rfl | ⟨_, _, -, hne⟩⟩ := run_started h hrun nofun
  · cases hstart with
    | approve hm => exact hm
  · cases hne

theorem run_pinnedBy (hempty : fw.db.toolFingerprints = .empty)
    (h : (machine cfg).run { fw } as = some (s, o)) {name fp : Str}
    (hpin : s.fw.db.pinned name = some fp) : PinnedBy cfg fw as name fp := by
  revert name fp
  refine (machine cfg).run_history
    (motive := fun as s _ => ∀ {name fp : Str}, s.fw.db.pinned name = some fp →
      PinnedBy cfg fw as name fp) ?_ ?_ h
  · intro name fp hpin
    simp [Database.pinned, hempty] at hpin
  · intro as s₁ o₁ a s₂ o₂ hrun₁ ih hstep name fp hpin
    rcases step_pins hstep with hsame | ⟨tools, ⟨id, envs, approver, names, rfl, htask⟩, hpins⟩
    · rw [Firewall.pinned_congr hsame] at hpin
      exact (ih hpin).extend [a]
    · rcases hpins name with hold | ⟨d, hd, happ, hnew⟩
      · exact (ih (hold ▸ hpin)).extend _
      · obtain rfl := Option.some.inj (hpin.symm.trans hnew)
        exact ⟨as, s₁, id, envs, tools, approver, names, d, ⟨[], o₁, rfl, hrun₁⟩, htask,
          run_approver hrun₁ htask, hd, happ, rfl⟩

/-! ## What is relayed -/

/-- The list of tools that call `id` returns, to a session that was live
when the call began. Unless its role may manage, every tool shown is a
definition of the listing the call fetched, permitted to the role and free
of findings. -/
def RelayedClean (cfg : Config) (fw : Firewall) (as : List Act) (id : Nat)
    (infos : List ToolInfo) : Prop :=
  ∃ pre₀ s₀ env sessionId session pre s envs tools,
    At cfg fw as pre₀ s₀ (.list env sessionId) ∧ s₀.tasks.length = id ∧
      Authenticator.Live cfg.sha256 (env.time .validate) sessionId s₀.fw.db session ∧
      At cfg fw as pre s (.listTools id envs (.listing tools)) ∧
      (Authorizer.canManage cfg.policy.roles session.role = false → ∀ info ∈ infos,
        ∃ d ∈ tools,
          info = { name := d.name, description := d.description, inputSchema := d.inputSchema
                   risk := RiskClassifier.classify cfg.policy.toolRisk d.name
                   integrity := .ok } ∧
            (Authorizer.check cfg.policy.roles session.role d.name
              (RiskClassifier.classify cfg.policy.toolRisk d.name)).allowed = true ∧
            (Firewall.scanDescription cfg d).findings = [])

/-- A definition that matches the pin of a clean one is clean: the two are
equal up to the order of keys, which the scanner does not see. -/
theorem clean_of_fingerprint (hinj : Function.Injective cfg.sha256.hexdigest)
    {d e : ToolDefinition} (hd : d.IsJson) (he : e.IsJson)
    (hfp : fingerprint cfg.sha256 d = fingerprint cfg.sha256 e)
    (hclean : (Firewall.scanDescription cfg d).findings = []) :
    (Firewall.scanDescription cfg e).findings = [] := by
  have hjson : d.modelDump.JsonEq e.modelDump :=
    ToolDefinition.jsonEq_payload.mpr ((ToolDefinition.fingerprint_eq_iff hinj hd he).mp hfp)
  have hverdict := Scanner.scanValue_blocked_congr cfg.scanner .description hjson
    (str "definition")
  have hfree : ∀ r : ScanResult, r.findings = [] ↔ r.blocked = false := by
    intro r
    simp [ScanResult.blocked]
  rw [hfree] at hclean ⊢
  exact hverdict ▸ hclean

theorem run_relayedClean (hinj : Function.Injective cfg.sha256.hexdigest)
    (hempty : fw.db.toolFingerprints = .empty)
    (hjson : ∀ a ∈ as, ∀ d ∈ a.fetched, d.IsJson)
    (h : (machine cfg).run { fw } as = some (s, o)) {infos : List ToolInfo}
    (hl : .listed id infos ∈ o) : RelayedClean cfg fw as id infos := by
  obtain ⟨pre, a, s₁, fw', o₂, hat, hend, hmem, -⟩ := run_ending (r := id) h hl rfl rfl
  cases hend.said hmem with
  | listed ha hrun hok =>
      rename_i envs reply session manager
      subst ha
      obtain ⟨post, o₁, rfl, hpre⟩ := hat
      obtain ⟨pre₀, b, s₀, t, hat₀, hlen, hstart, rfl | ⟨_, _, -, hne⟩⟩ :=
        run_started hpre hrun nofun
      · cases hstart with
        | list hlive =>
            rename_i env sessionId
            cases reply with
            | raised => cases hok
            | listing tools =>
                have hat : At cfg fw (pre ++ .listTools id envs (.listing tools) :: post) pre s₁
                    (.listTools id envs (.listing tools)) := ⟨post, o₁, rfl, hpre⟩
                refine ⟨pre₀, s₀, env, sessionId, session, pre, s₁, envs, tools, hat₀.extend _,
                  hlen, hlive, hat, ?_⟩
                intro hagent info hinfo
                rw [hagent] at hok
                obtain ⟨d, hd, env', hone⟩ := Firewall.listLoop_agent hok info hinfo
                obtain ⟨hpin, hallowed, hinfo⟩ := Firewall.listOne_agent hone
                refine ⟨d, hd, hinfo, hallowed, ?_⟩
                -- the pin comes from an approval, whose definition was clean
                obtain ⟨_, _, _, _, tools', _, _, e, hat', -, -, -, happ, hfp⟩ :=
                  run_pinnedBy hempty hpre hpin
                have he : e ∈ tools' := by
                  have hmem : e ∈ tools'.filter fun t => t.name = e.name := by
                    rw [happ.unique]
                    exact List.mem_singleton_self e
                  exact (List.mem_filter.mp hmem).1
                exact clean_of_fingerprint hinj (hjson _ (hat'.extend _).mem e he)
                  (hjson _ hat.mem d hd) hfp.symm happ.clean
      · cases hne

/-- **No poisoned definition is pinned or relayed.** From an empty pin
store, over an upstream that may list anything JSON at every fetch and with
an injective digest, every pin is that of a definition a manager approved
from a listing in which it was alone of its name and clean, and every tool
shown to a caller who may not manage is a permitted definition of the
listing just fetched in which the scan itself finds nothing. -/
theorem never_poisoned (hinj : Function.Injective cfg.sha256.hexdigest)
    (hempty : fw.db.toolFingerprints = .empty)
    (hjson : ∀ a ∈ as, ∀ d ∈ a.fetched, d.IsJson)
    (h : (machine cfg).run { fw } as = some (s, o)) :
    (∀ name fp, s.fw.db.pinned name = some fp → PinnedBy cfg fw as name fp) ∧
      ∀ id infos, .listed id infos ∈ o → RelayedClean cfg fw as id infos :=
  ⟨fun _ _ hpin => run_pinnedBy hempty h hpin,
    fun _ _ hl => run_relayedClean hinj hempty hjson h hl⟩

end System

/-! ## An approval and a listing -/

/-- The event is a list of tools that is not empty. -/
def Event.showsTools : Event → Bool
  | .listed _ infos => !infos.isEmpty
  | _ => false

/-- An agent logs in and lists the tools, which the upstream now declares
in another order of keys. -/
def echoListed : List Act :=
  echoSetup ++
    [.registerUser (str "eve") (str "agent") (str "correct horse battery"),
      .login {} (str "tok2") (str "eve") (str "correct horse battery") (str "127.0.0.1"),
      .list {} (str "tok2"),
      .listTools 3 (fun _ => {}) (.listing [echoReordered])]

theorem never_poisoned_echo : ∃ s o fp id infos,
    (System.machine echoConfig).run { fw := .init echoConfig {} } echoListed = some (s, o) ∧
      s.fw.db.pinned (str "echo") = some fp ∧ .listed id infos ∈ o ∧ infos ≠ [] ∧
      System.PinnedBy echoConfig (.init echoConfig {}) echoListed (str "echo") fp ∧
      System.RelayedClean echoConfig (.init echoConfig {}) echoListed id infos := by
  have hrun : ((System.machine echoConfig).run { fw := .init echoConfig {} } echoListed).any
      (fun p => (p.1.fw.db.pinned (str "echo")).isSome && p.2.any Event.showsTools) = true := by
    decide +kernel
  obtain ⟨⟨s, o⟩, hrun, hboth⟩ := (Option.any_eq_true _ _).mp hrun
  obtain ⟨hpin, hshows⟩ := Bool.and_eq_true_iff.mp hboth
  obtain ⟨fp, hpin⟩ := Option.isSome_iff_exists.mp hpin
  obtain ⟨e, he, hshown⟩ := List.any_eq_true.mp hshows
  have hjson : ∀ a ∈ echoListed, ∀ d ∈ a.fetched, d.IsJson := by
    intro a ha d hd
    simp only [echoListed, echoSetup, List.cons_append, List.nil_append, List.mem_cons,
      List.not_mem_nil, or_false] at ha
    rcases ha with rfl | rfl | rfl | rfl | rfl | rfl | rfl | rfl
    case inr.inr.inr.inl =>
      rw [List.mem_singleton.mp hd]
      exact isJson_echoTool (by decide)
    case inr.inr.inr.inr.inr.inr.inr =>
      rw [List.mem_singleton.mp hd]
      exact isJson_echoTool (by decide)
    all_goals cases hd
  obtain ⟨hpinned, hrelayed⟩ :=
    System.never_poisoned (Sha256.agreeing_injective _) rfl hjson hrun
  cases e with
  | listed id infos =>
      refine ⟨s, o, fp, id, infos, hrun, hpin, he, ?_, hpinned _ _ hpin, hrelayed _ _ he⟩
      simpa [Event.showsTools] using hshown
  | _ => cases hshown

end AgenticFirewall
