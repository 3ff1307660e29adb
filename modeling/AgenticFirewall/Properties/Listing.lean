import AgenticFirewall.Firewall.Passing
import AgenticFirewall.Properties.Poisoning

/-!
# What is listed and what can be called

`list_tools` checks each definition of a listing by itself. `handle` looks
up a name over the whole listing, requires it to be a tool name and its
definition to be the only one.
-/

namespace AgenticFirewall

open Py

/-- No component operation raises. -/
def Env.Quiet (env : Env) : Prop := ∀ op, env.fault op = none

theorem Env.Quiet.attempt {env : Env} (h : env.Quiet) {α : Type} (op : Op) (x : Except Exc α) :
    env.attempt op x = x :=
  Env.attempt_none (h op) x

/-- Denied at one of the stages `list_tools` stands for. -/
def GatewayResult.Refused (result : GatewayResult) : Prop :=
  result.decision = .deny ∧
    (result.stage = .validation ∨ result.stage = .authorization ∨ result.stage = .integrity)

namespace Firewall

/-- `handle` with nothing else running at its awaits, an environment for
each segment. `none` when it is cancelled. -/
def handle (cfg : Config) (start tools reply : Env) (req : ToolRequest)
    (listing : List ToolDefinition) (answer : CallReply) (fw : Firewall) : Option GatewayResult :=
  let (r, ctx, fw) := fw.pipelineStart cfg start req
  match System.ended r with
  | some r => some (handleResult start req ctx r)
  | none =>
      let (r, fw) := fw.pipelineTools cfg tools req ctx (.listing listing)
      match System.ended r with
      | some r => some (handleResult tools req ctx r)
      | none =>
          let (r, _) := fw.pipelineReply cfg reply req ctx answer
          (System.ended r).map (handleResult reply req ctx)

/-- The role of the session may call the name. -/
def Permitted (cfg : Config) (session : UserSession) (name : Str) : Prop :=
  (Authorizer.check cfg.policy.roles session.role name
    (RiskClassifier.classify cfg.policy.toolRisk name)).allowed = true

/-- The definition is the one pinned under its name. -/
def Matches (cfg : Config) (db : Database) (d : ToolDefinition) : Prop :=
  db.pinned d.name = some (fingerprint cfg.sha256 d)

variable {cfg : Config} {env : Env} {session : UserSession} {db : Database} {d : ToolDefinition}
  {listing : List ToolDefinition} {req : ToolRequest} {ctx : Ctx} {fw : Firewall} {name : Str}

/-! ## What is listed -/

theorem verify_ok_iff (cfg : Config) (db : Database) (hn : Encodable d.name) :
    ∃ r, IntegrityChecker.verify cfg.sha256 d db = .ok r ∧ (r.ok = true ↔ Matches cfg db d) := by
  refine ⟨_, verify_eq hn, ?_⟩
  unfold Matches
  cases hp : db.pinned d.name with
  | none => simp [IntegrityResult.ok]
  | some stored =>
      by_cases heq : stored = fingerprint cfg.sha256 d
      · simp [heq, IntegrityResult.ok]
      · simp [heq, IntegrityResult.ok]

/-- A definition is shown if it matches its pin and its name is
permitted. -/
theorem listOne_shows (cfg : Config) (session : UserSession) (db : Database) (name : Str)
    (hq : env.Quiet) (hn : Encodable d.name) :
    ∃ shown, listOne cfg env session false d db = .ok shown ∧
      ((∃ info, shown = some info ∧ info.name = name) ↔
        d.name = name ∧ Matches cfg db d ∧ Permitted cfg session d.name) := by
  obtain ⟨r, hverify, hok⟩ := verify_ok_iff cfg db hn
  unfold listOne
  simp only [hq.attempt, hverify, bind, Except.bind, pure, Except.pure, Bool.false_eq_true,
    if_false]
  rw [← hok]
  by_cases hr : r.ok = true
  · simp only [hr, Bool.not_true, Bool.false_eq_true, if_false, true_and]
    unfold Permitted
    split
    · rename_i hallowed
      exact ⟨_, rfl, by simp [hallowed]⟩
    · rename_i hnot
      exact ⟨_, rfl, by simp [hnot]⟩
  · simp only [hr, Bool.not_false, if_true]
    exact ⟨_, rfl, by simp⟩

theorem listOne_encodable {shown : Option ToolInfo}
    (h : listOne cfg env session false d db = .ok shown) : Encodable d.name := by
  unfold listOne at h
  obtain ⟨_, -, h⟩ := except_bind_eq_ok.mp h
  obtain ⟨r, hverify, -⟩ := except_bind_eq_ok.mp h
  exact encodable_of_verify (Env.attempt_eq_ok hverify)

/-- The loop ends if every listed name can be stored. -/
theorem listLoop_encodable {envs : Nat → Env} {infos : List ToolInfo} {i : Nat}
    (h : listLoop cfg envs session false db i listing = .ok infos) :
    ∀ d ∈ listing, Encodable d.name := by
  induction listing generalizing i infos with
  | nil =>
      intro d hd
      cases hd
  | cons d rest ih =>
      obtain ⟨shown, hone, h⟩ := except_bind_eq_ok.mp h
      obtain ⟨infos', hrest, -⟩ := except_bind_eq_ok.mp h
      intro e he
      rcases List.mem_cons.mp he with rfl | he
      · exact listOne_encodable hone
      · exact ih hrest e he

theorem listLoop_shows (name : Str) {envs : Nat → Env} (hq : ∀ i, (envs i).Quiet)
    (hn : ∀ d ∈ listing, Encodable d.name) (i : Nat) :
    ∃ infos, listLoop cfg envs session false db i listing = .ok infos ∧
      ((∃ info ∈ infos, info.name = name) ↔
        ∃ d ∈ listing, d.name = name ∧ Matches cfg db d ∧ Permitted cfg session d.name) := by
  induction listing generalizing i with
  | nil => exact ⟨[], rfl, by simp⟩
  | cons d rest ih =>
      obtain ⟨shown, hone, hshown⟩ := listOne_shows cfg session db name (hq i)
        (hn d List.mem_cons_self)
      obtain ⟨infos, hrest, hinfos⟩ := ih (fun e he => hn e (List.mem_cons_of_mem _ he)) (i + 1)
      refine ⟨shown.toList ++ infos, ?_, ?_⟩
      · simp [listLoop, hone, hrest, bind, Except.bind, pure, Except.pure]
      · simp only [List.mem_append, Option.mem_toList, or_and_right, exists_or]
        rw [hshown, hinfos]
        simp

/-! ## What can be called -/

/-- The session is live, its user has budget left, and nothing raises. -/
structure Ready (cfg : Config) (env : Env) (sessionId : Str) (session : UserSession)
    (fw : Firewall) : Prop where
  quiet : env.Quiet
  lookup : fw.lookup cfg env sessionId = .ok session
  budget : (fw.limit env session.userId).1.allowed = true

/-- A request for the name passes validation, authorization and integrity. -/
structure Callable (cfg : Config) (session : UserSession) (db : Database)
    (listing : List ToolDefinition) (req : ToolRequest) : Prop where
  name : toolNameMatches req.tool = true
  permitted : Permitted cfg session req.tool
  defn : ∃ d, Unique req listing d ∧ Matches cfg db d

theorem Ready.badName (h : Ready cfg env req.sessionId session fw)
    (hn : ¬ toolNameMatches req.tool = true) :
    fw.pipelineStart cfg env req =
      (.ok (some (deny req (Ctx.ofSession session) .validation (str "invalid tool name") none)),
        Ctx.ofSession session, fw.counted env session.userId) := by
  have hlook := h.lookup
  have hbudget := h.budget
  unfold Firewall.lookup at hlook
  unfold limit at hbudget
  unfold pipelineStart
  rw [hlook]
  simp only [h.quiet .limiter, hbudget, hn, Bool.not_true, Bool.not_false, Bool.false_eq_true,
    if_false, if_true]
  rfl

theorem Ready.unauthorized (h : Ready cfg env req.sessionId session fw)
    (hn : toolNameMatches req.tool = true) (hp : ¬ Permitted cfg session req.tool) :
    ∃ reason, fw.pipelineStart cfg env req =
      (.ok (some (deny req (ranked cfg req session) .authorization reason none)),
        ranked cfg req session, fw.counted env session.userId) := by
  have hlook := h.lookup
  have hbudget := h.budget
  unfold Firewall.lookup at hlook
  unfold limit at hbudget
  unfold Permitted at hp
  unfold pipelineStart
  rw [hlook]
  simp only [h.quiet .limiter, hbudget, hn, h.quiet.attempt, hp, Bool.not_true, Bool.not_false,
    Bool.false_eq_true, if_false, if_true]
  exact ⟨_, rfl⟩

theorem Ready.passes (h : Ready cfg env req.sessionId session fw)
    (hn : toolNameMatches req.tool = true) (hp : Permitted cfg session req.tool) :
    StartPasses cfg env req fw session where
  lookup := h.lookup
  limiterRuns := h.quiet .limiter
  limiter := h.budget
  name := hn
  classifyRuns := h.quiet .classify
  authorizeRuns := h.quiet .authorize
  authorized := hp

/-- A listing without the one definition that is pinned is denied. -/
theorem tools_refused (ctx : Ctx) (hq : env.Quiet) (hn : Encodable req.tool)
    (hd : ¬ ∃ d, Unique req listing d ∧ Matches cfg fw.db d) :
    ∃ reason, (fw.pipelineTools cfg env req ctx (.listing listing)).1 =
      .ok (some (deny req ctx .integrity reason none)) := by
  unfold pipelineTools
  simp only
  split
  · exact ⟨_, rfl⟩
  · exact ⟨_, rfl⟩
  · rename_i d hu
    have hname : d.name = req.tool := Unique.name req hu
    obtain ⟨r, hverify, hok⟩ := verify_ok_iff cfg fw.db (hname ▸ hn)
    have hr : ¬ r.ok = true := fun hr => hd ⟨d, hu, hok.mp hr⟩
    simp only [hq.attempt, hverify, hr, Bool.not_false, if_true]
    exact ⟨_, rfl⟩

/-- With it, a denial is one of a later stage. -/
theorem tools_not_refused (hq : env.Quiet) (hn : Encodable req.tool) {d : ToolDefinition}
    (hu : Unique req listing d) (hm : Matches cfg fw.db d) :
    ∀ result, (fw.pipelineTools cfg env req ctx (.listing listing)).1 = .ok (some result) →
      ¬ result.Refused := by
  intro result h
  have hname : d.name = req.tool := Unique.name req hu
  obtain ⟨r, hverify, hok⟩ := verify_ok_iff cfg fw.db (hname ▸ hn)
  unfold Unique at hu
  simp only [pipelineTools, hu, hq.attempt, hverify, hok.mpr hm, Bool.not_true,
    Bool.false_eq_true, if_false] at h
  split at h
  · cases h
    simp [GatewayResult.Refused, deny]
  · split at h
    · cases h
    · split at h
      · split at h
        · cases h
        · cases h
          simp [GatewayResult.Refused, deny]
      · cases h

theorem reply_not_refused {answer : CallReply} {result : GatewayResult}
    (h : (fw.pipelineReply cfg env req ctx answer).1 = .ok (some result)) :
    ¬ result.Refused := by
  have hexit := pipelineReply_exit cfg env req fw ctx answer
  generalize fw.pipelineReply cfg env req ctx answer = out at hexit h
  cases hexit with
  | callFailed hr hf =>
      cases h
      simp [GatewayResult.Refused, deny]
  | outputBlocked hf hb =>
      cases h
      simp [GatewayResult.Refused, deny]
  | allowed hf hb =>
      cases h
      simp [GatewayResult.Refused, allow]
  | _ => cases h

/-- What `handle` makes of the end of its pipeline is refused as that is. -/
theorem handleResult_refused {x : Except Exc GatewayResult} :
    (handleResult env req ctx x).Refused ↔ ∃ result, x = .ok result ∧ result.Refused := by
  cases x with
  | error e => simp [handleResult, GatewayResult.Refused, deny]
  | ok result => simp [handleResult, GatewayResult.Refused]

theorem handle_refused_iff {start tools : Env} (reply : Env) (answer : CallReply)
    (h : Ready cfg start req.sessionId session fw) (hq : tools.Quiet) :
    (∃ result, fw.handle cfg start tools reply req listing answer = some result ∧
      result.Refused) ↔ ¬ Callable cfg session fw.db listing req := by
  unfold handle
  by_cases hn : toolNameMatches req.tool = true
  · by_cases hp : Permitted cfg session req.tool
    · rw [(h.passes hn hp).goes_on]
      simp only [System.ended]
      have hdb : (fw.counted start session.userId).db = fw.db := rfl
      by_cases hd : ∃ d, Unique req listing d ∧ Matches cfg fw.db d
      · -- every later end of the pipeline is one of another stage
        have hcallable : Callable cfg session fw.db listing req := ⟨hn, hp, hd⟩
        refine iff_of_false ?_ (not_not_intro hcallable)
        obtain ⟨d, hu, hm⟩ := hd
        intro ⟨result, hresult, hrefused⟩
        split at hresult
        · rename_i x hended
          cases hresult
          obtain ⟨result, rfl, hrefused⟩ := handleResult_refused.mp hrefused
          exact tools_not_refused hq (encodable_of_toolNameMatches hn) hu (hdb ▸ hm) result
            (System.ended_eq_some hended rfl) hrefused
        · obtain ⟨x, hended, rfl⟩ := Option.map_eq_some_iff.mp hresult
          obtain ⟨result, rfl, hrefused⟩ := handleResult_refused.mp hrefused
          exact reply_not_refused (System.ended_eq_some hended rfl) hrefused
      · have hcallable : ¬ Callable cfg session fw.db listing req := fun hc => hd hc.defn
        refine iff_of_true ?_ hcallable
        obtain ⟨reason, hreason⟩ := tools_refused (ranked cfg req session) hq
          (encodable_of_toolNameMatches hn) (hdb.symm ▸ hd)
        rw [hreason]
        exact ⟨_, rfl, rfl, .inr (.inr rfl)⟩
    · have hcallable : ¬ Callable cfg session fw.db listing req := fun hc => hp hc.permitted
      obtain ⟨reason, hreason⟩ := h.unauthorized hn hp
      rw [hreason]
      exact iff_of_true ⟨_, rfl, rfl, .inr (.inl rfl)⟩ hcallable
  · have hcallable : ¬ Callable cfg session fw.db listing req := fun hc => hn hc.name
    rw [h.badName hn]
    exact iff_of_true ⟨_, rfl, rfl, .inl rfl⟩ hcallable

/-! ## Where the two agree -/

/-- `list_tools` on the session shows the name. -/
def Shows (cfg : Config) (start : Env) (envs : Nat → Env) (sessionId : Str)
    (listing : List ToolDefinition) (name : Str) (fw : Firewall) : Prop :=
  ∃ session manager infos, (fw.listStart cfg start sessionId).result = .ok (session, manager) ∧
    (fw.listStart cfg start sessionId).fw.listTools cfg envs session manager (.listing listing) =
      .ok infos ∧ ∃ info ∈ infos, info.name = name

theorem Ready.listStart {sessionId : Str} (h : Ready cfg env sessionId session fw) :
    fw.listStart cfg env sessionId =
      { result := .ok (session, Authorizer.canManage cfg.policy.roles session.role)
        fw := fw.counted env session.userId } := by
  have hlook := h.lookup
  have hbudget := h.budget
  unfold Firewall.lookup at hlook
  unfold limit at hbudget
  unfold Firewall.listStart Firewall.authenticate
  rw [hlook]
  simp only [h.quiet .limiter, hbudget, h.quiet.attempt, Bool.not_true, Bool.false_eq_true,
    if_false]
  rfl

theorem shows_iff {sessionId : Str} {envs : Nat → Env} (h : Ready cfg env sessionId session fw)
    (hagent : Authorizer.canManage cfg.policy.roles session.role = false)
    (hq : ∀ i, (envs i).Quiet) :
    Shows cfg env envs sessionId listing name fw ↔ (∀ d ∈ listing, Encodable d.name) ∧
      ∃ d ∈ listing, d.name = name ∧ Matches cfg fw.db d ∧ Permitted cfg session d.name := by
  unfold Shows
  rw [h.listStart, hagent]
  constructor
  · intro ⟨_, _, infos, hstart, hinfos, hshown⟩
    cases hstart
    have hn := listLoop_encodable hinfos
    obtain ⟨infos', hinfos', hiff⟩ := listLoop_shows name hq hn 0
    obtain rfl := Except.ok.inj (hinfos.symm.trans hinfos')
    exact ⟨hn, hiff.mp hshown⟩
  · intro ⟨hn, hshown⟩
    obtain ⟨infos, hinfos, hiff⟩ := listLoop_shows name hq hn 0
    exact ⟨session, false, infos, rfl, hinfos, hiff.mpr hshown⟩

theorem callable_iff : Callable cfg session db listing req ↔
    toolNameMatches req.tool = true ∧ Permitted cfg session req.tool ∧
      count listing req.tool = 1 ∧ ∃ d ∈ listing, d.name = req.tool ∧ Matches cfg db d := by
  constructor
  · intro h
    obtain ⟨d, hu, hm⟩ := h.defn
    have hmem : d ∈ listing.filter fun t => t.name = req.tool := by
      rw [show listing.filter (fun t => t.name = req.tool) = [d] from hu]
      exact List.mem_singleton_self d
    refine ⟨h.name, h.permitted, ?_, d, (List.mem_filter.mp hmem).1, Unique.name req hu, hm⟩
    unfold count
    rw [show listing.filter (fun t => t.name = req.tool) = [d] from hu]
    rfl
  · intro ⟨hn, hp, hcount, d, hd, hname, hm⟩
    -- the one listed definition of the name is the one that matches
    obtain ⟨e, he⟩ := List.length_eq_one_iff.mp hcount
    have hmem : d ∈ listing.filter fun t => t.name = req.tool :=
      List.mem_filter.mpr ⟨hd, by simpa using hname⟩
    rw [he] at hmem
    obtain rfl := List.mem_singleton.mp hmem
    exact ⟨hn, hp, d, he, hm⟩

/-- **Listing and calling agree, except on what only `handle` checks.** For
a caller who may not manage, a name is shown exactly when a call of it
passes validation, authorization and integrity, unless the role may call
it and a listed definition of it matches the pin. Then they agree if and
only if one of two things holds: every listed name can be stored, and the
name is a tool name that is listed once; or neither is the case. -/
theorem shows_iff_not_refused_iff {fw' : Firewall} {start start' tools reply : Env}
    {envs : Nat → Env} {answer : CallReply} (hlist : Ready cfg start req.sessionId session fw)
    (hcall : Ready cfg start' req.sessionId session fw')
    (hagent : Authorizer.canManage cfg.policy.roles session.role = false)
    (hpins : fw'.db.toolFingerprints = fw.db.toolFingerprints)
    (hq : ∀ i, (envs i).Quiet) (hq' : tools.Quiet) :
    (Shows cfg start envs req.sessionId listing req.tool fw ↔
      ∀ result, fw'.handle cfg start' tools reply req listing answer = some result →
        ¬ result.Refused) ↔
    (Permitted cfg session req.tool → (∃ d ∈ listing, d.name = req.tool ∧ Matches cfg fw.db d) →
      ((∀ d ∈ listing, Encodable d.name) ↔
        toolNameMatches req.tool = true ∧ count listing req.tool = 1)) := by
  have hmatches : ∀ d, Matches cfg fw'.db d ↔ Matches cfg fw.db d := by
    intro d
    unfold Matches
    rw [pinned_congr hpins]
  have hcalled : (∀ result, fw'.handle cfg start' tools reply req listing answer = some result →
      ¬ result.Refused) ↔ Callable cfg session fw'.db listing req := by
    rw [← not_iff_not, ← handle_refused_iff reply answer hcall hq']
    simp
  have hshown : (∃ d ∈ listing, d.name = req.tool ∧ Matches cfg fw.db d ∧
      Permitted cfg session d.name) ↔ Permitted cfg session req.tool ∧
        ∃ d ∈ listing, d.name = req.tool ∧ Matches cfg fw.db d := by
    constructor
    · intro ⟨d, hd, hname, hm, hp⟩
      exact ⟨hname ▸ hp, d, hd, hname, hm⟩
    · intro ⟨hp, d, hd, hname, hm⟩
      exact ⟨d, hd, hname, hm, hname ▸ hp⟩
  rw [hcalled, callable_iff, shows_iff hlist hagent hq, hshown]
  simp only [hmatches]
  -- without the permission or a match neither side holds
  by_cases hp : Permitted cfg session req.tool
  · by_cases hm : ∃ d ∈ listing, d.name = req.tool ∧ Matches cfg fw.db d
    · simp only [hp, hm, and_true, true_and, forall_const]
    · simp only [hm, and_false, false_implies, implies_true]
  · simp only [hp, false_and, and_false, false_implies]

end Firewall

/-! ## An agent and an approved tool -/

/-- Whether an agent's session stands, with budget left and leave to call
the approved tool. -/
def echoReady (fw : Firewall) : Bool :=
  match fw.lookup echoConfig {} (str "tok2") with
  | .error _ => false
  | .ok session =>
      (fw.limit {} session.userId).1.allowed &&
        !Authorizer.canManage echoPolicy.roles session.role &&
        (Authorizer.check echoPolicy.roles session.role (str "echo")
          (RiskClassifier.classify echoPolicy.toolRisk (str "echo"))).allowed &&
        decide (fw.db.pinned (str "echo") = some (fingerprint echoSha256 echo))

theorem echo_ready : ∃ fw session, Firewall.Ready echoConfig {} (str "tok2") session fw ∧
    Authorizer.canManage echoConfig.policy.roles session.role = false ∧
    Firewall.Permitted echoConfig session (str "echo") ∧
    Firewall.Matches echoConfig fw.db echo := by
  have hrun : ((System.machine echoConfig).run { fw := .init echoConfig {} }
      (echoListed.take 6)).any (fun p => echoReady p.1.fw) = true := by
    decide +kernel
  obtain ⟨⟨s, o⟩, -, hready⟩ := (Option.any_eq_true _ _).mp hrun
  simp only [echoReady] at hready
  split at hready
  · cases hready
  · rename_i session hlook
    simp only [Bool.and_eq_true, Bool.not_eq_true', decide_eq_true_eq] at hready
    obtain ⟨⟨⟨hbudget, hagent⟩, hpermitted⟩, hpin⟩ := hready
    exact ⟨s.fw, session, ⟨fun _ => rfl, hlook, hbudget⟩, hagent, hpermitted, hpin⟩

/-- The agent's request for the tool. -/
def echoAsked : ToolRequest where
  sessionId := str "tok2"
  tool := str "echo"

/-- With the one approved definition listed, listing and calling agree. -/
theorem shows_iff_not_refused_iff_echo : ∃ fw, Firewall.Shows echoConfig {} (fun _ => {})
      (str "tok2") [echo] (str "echo") fw ↔
    ∀ result, fw.handle echoConfig {} {} {} echoAsked [echo] .raised = some result →
      ¬ result.Refused := by
  obtain ⟨fw, session, hready, hagent, -, -⟩ := echo_ready
  refine ⟨fw, ?_⟩
  have hready' : Firewall.Ready echoConfig {} echoAsked.sessionId session fw := hready
  refine (Firewall.shows_iff_not_refused_iff hready' hready' hagent rfl (fun _ _ => rfl)
    fun _ => rfl).mpr ?_
  intro _ _
  exact iff_of_true (by decide) (by decide)

/-- The approved definition with another of its name beside it. -/
def echoShadowed : List ToolDefinition :=
  [echo, echoTool "Rug pulled." "b" "a" str_b_ne_str_a]

/-- Not on every listing: of two definitions of the tool the approved one
is shown, and the call is denied. -/
theorem listing_duplicates_disagrees :
    ¬ ∀ (cfg : Config) (fw fw' : Firewall) (start start' tools reply : Env) (envs : Nat → Env)
      (session : UserSession) (listing : List ToolDefinition) (req : ToolRequest)
      (answer : Firewall.CallReply), Firewall.Ready cfg start req.sessionId session fw →
      Firewall.Ready cfg start' req.sessionId session fw' →
      Authorizer.canManage cfg.policy.roles session.role = false →
      fw'.db.toolFingerprints = fw.db.toolFingerprints → (∀ i, (envs i).Quiet) → tools.Quiet →
      (Firewall.Shows cfg start envs req.sessionId listing req.tool fw ↔
        ∀ result, fw'.handle cfg start' tools reply req listing answer = some result →
          ¬ result.Refused) := by
  intro hall
  obtain ⟨fw, session, hready, hagent, hpermitted, hmatches⟩ := echo_ready
  have hquiet : ∀ _ : Nat, ({} : Env).Quiet := fun _ _ => rfl
  have hagree := hall echoConfig fw fw {} {} {} {} (fun _ => {}) session echoShadowed echoAsked
    .raised hready hready hagent rfl hquiet (hquiet 0)
  have hshown : Firewall.Shows echoConfig {} (fun _ => {}) echoAsked.sessionId echoShadowed
      echoAsked.tool fw :=
    (Firewall.shows_iff hready hagent hquiet).mpr
      ⟨by decide, echo, List.mem_cons_self, rfl, hmatches, hpermitted⟩
  have hcallable : ¬ Firewall.Callable echoConfig session fw.db echoShadowed echoAsked := by
    intro hcallable
    have hcount := (Firewall.callable_iff.mp hcallable).2.2.1
    exact absurd hcount (by decide)
  obtain ⟨result, hresult, hrefused⟩ :=
    (Firewall.handle_refused_iff {} .raised hready (hquiet 0)).mpr hcallable
  exact hagree.mp hshown result hresult hrefused

end AgenticFirewall
