import AgenticFirewall.Properties.Mediation

/-!
# One row for each result

`handle` records every result it returns, but the insert may fail: SQLite
cannot bind a text that UTF-8 cannot encode, and `sanitize` keeps unpaired
surrogates. Which requests can be recorded is decided by the tool name and,
for those the input scanner stops, by the keys it quotes.
-/

namespace AgenticFirewall

open Py Transition

/-- The event an audit write stored. -/
def Event.stored : Event → Option SecurityEvent
  | .audit _ event => event
  | _ => none

/-- The event is the return of call `r`. -/
def Event.returns (r : Nat) : Event → Bool
  | .returned id _ => id = r
  | _ => false

/-- No statement of a request fails but by its parameters. -/
structure Env.DatabaseWorks (env : Env) : Prop where
  validate : env.fault .validate = none
  verify : env.fault .verify = none
  audit : env.fault .audit = none

/-! ## The log of a run -/

namespace System

variable {cfg : Config} {s s' : System} {a : Act} {o : List Event} {id r : Nat} {env : Env}
  {req : ToolRequest} {ctx : Ctx} {fw : Firewall} {as : List Act}

theorem filterMap_stored_close {α : Type} {returned : α → Event} (id : Nat)
    (h : ∀ x, (returned x).stored = none) (out : Outcome α) :
    (close id returned out).filterMap Event.stored = out.audits.reduceOption := by
  have haudits : ∀ l : List (Option SecurityEvent),
      (l.map (Event.audit id)).filterMap Event.stored = l.reduceOption := by
    intro l
    rw [List.filterMap_map]
    rfl
  unfold close
  rw [List.filterMap_append, haudits]
  split
  · rename_i x hx
    simp [h x]
  · simp [Event.stored]

theorem filterMap_stored_leave {x : Except Exc GatewayResult} :
    (leave id env req ctx x fw).2.filterMap Event.stored =
      (fw.auditResult env req ctx (Firewall.handleResult env req ctx x)).1.toList := by
  simp only [leave]
  generalize (fw.auditResult env req ctx (Firewall.handleResult env req ctx x)).1 = stored
  cases stored <;> rfl

/-- The log grows by what the last segment of a call stores. -/
theorem Ending.logged (h : Ending cfg s a id fw o) :
    Logged (o.filterMap Event.stored) s.fw.db fw.db := by
  cases h with
  | answered h =>
      rename_i env req ctx x fw
      obtain ⟨hlog, -, -⟩ := Firewall.recordOrLog_logged env
        (Firewall.resultEvent req ctx (Firewall.handleResult env req ctx x)) fw
      rw [h.db] at hlog
      rw [filterMap_stored_leave]
      exact hlog
  | callCancelled hrun hf => exact .none rfl
  | cancelled => exact .none rfl
  | notApproving h => exact .none rfl
  | approved hrun =>
      rw [filterMap_stored_close id fun _ => rfl]
      exact Firewall.approveTools_logged _ _ _ _
  | notListing h => exact .none (by rw [Firewall.listStart_db])
  | listed hrun =>
      rw [filterMap_stored_close id fun _ => rfl]
      exact .none rfl
  | manager =>
      rename_i env sessionId
      obtain ⟨haudits, hdb⟩ := Firewall.requireManager_silent cfg env s.fw sessionId
      rw [filterMap_stored_close _ fun _ => rfl, haudits]
      exact .none (by rw [hdb])
  | login =>
      rw [filterMap_stored_close _ fun _ => rfl]
      exact (Firewall.login_logged cfg _ _ _ _ _ s.fw).1

theorem step_logged (h : step cfg s a = some (s', o)) :
    Logged (o.filterMap Event.stored) s.fw.db s'.fw.db := by
  cases step_shape h with
  | opened t ha ht hnew =>
      rcases hnew with ⟨-, hend⟩ | ⟨-, hdb, rfl⟩
      · exact hend.logged
      · exact .none (by rw [hdb])
  | moved id t t' ha hid hrun hleft ht hnew =>
      rcases hnew with ⟨-, hend⟩ | ⟨env, tools, req, ctx, -, -, -, -, hdb, rfl⟩
      · exact hend.logged
      · exact .none (by rw [hdb])
  | outside ha hid ht hdb ho =>
      rw [ho]
      exact .none hdb.1

/-- **The log of a run** holds one row for each event that was stored, in
order, and no other new row. -/
theorem run_logged (h : (machine cfg).run s as = some (s', o)) :
    Logged (o.filterMap Event.stored) s.fw.db s'.fw.db := by
  refine (machine cfg).run_history
    (motive := fun _ s' o => Logged (o.filterMap Event.stored) s.fw.db s'.fw.db) (.none rfl) ?_ h
  intro _ s₁ o₁ a s₂ o₂ _ ih hstep
  rw [List.filterMap_append]
  exact ih.append (step_logged hstep)

/-! ## What a request may put into its row -/

/-- What is known of the caller can be stored. -/
structure Storable (ctx : Ctx) : Prop where
  userId : ∀ t ∈ ctx.userId, Encodable t
  role : ∀ t ∈ ctx.role, Encodable t
  sessionRef : ∀ t ∈ ctx.sessionRef, Encodable t

theorem storable_empty : Storable {} := ⟨nofun, nofun, nofun⟩

theorem storable_ofSession {h : Sha256} {now : ℚ} {sessionId : Str} {db : Database}
    {session : UserSession} (hl : Authenticator.Live h now sessionId db session) :
    Storable (Ctx.ofSession session) := by
  obtain ⟨huser, hrole, href⟩ := hl.encodable
  constructor
  · rintro t ⟨⟩
    exact huser
  · rintro t ⟨⟩
    exact hrole
  · rintro t ⟨⟩
    exact href

/-- Knowing the risk changes nothing about the caller. -/
theorem storable_ranked {session : UserSession} (h : Storable (Ctx.ofSession session)) :
    Storable (Firewall.ranked cfg req session) := ⟨h.userId, h.role, h.sessionRef⟩

theorem encodable_summary {r : ScanResult} (h : ∀ f ∈ r.findings, Encodable f.location) :
    Encodable r.summary := by
  refine encodable_join (encodable_str _) fun t ht => ?_
  rcases List.mem_append.mp ht with ht | ht
  · obtain ⟨f, hf, rfl⟩ := List.mem_map.mp ht
    simp [ScanResult.shown, f.category.encodable_text, f.rule.encodable_text,
      h f (List.mem_of_mem_take hf)]
  · split at ht
    · rw [List.mem_singleton.mp ht]
      simp
    · cases ht

/-- The response is one string: its findings are at the root. -/
theorem encodable_outputScanReason (r : ToolResponse) :
    Encodable (Firewall.outputScanReason (Firewall.scanOutput cfg r)) := by
  refine encodable_append.mpr ⟨encodable_str _, encodable_summary fun f hf => ?_⟩
  suffices hloc : f.location = str "response" by simp [hloc]
  simp only [Firewall.scanOutput, Scanner.scanValue, Scanner.walk, Scanner.enter,
    Scanner.scanString, Bool.false_eq_true, if_false, Nat.not_lt_zero] at hf
  split at hf
  · simp only [List.nil_append, List.mem_singleton] at hf
    rw [hf]
  · simp only [List.nil_append, List.mem_map] at hf
    obtain ⟨hit, -, rfl⟩ := hf
    rfl

/-- The request reaches the input scan, and the scan blocks it. -/
structure StopsAtInput (cfg : Config) (env : Env) (req : ToolRequest) (fw : Firewall)
    (tools : List ToolDefinition) : Prop where
  defn : ∃ d, Firewall.Unique req tools d ∧
    fw.db.pinned req.tool = some (fingerprint cfg.sha256 d)
  scans : env.fault .inputScan = none
  blocked : (Firewall.scanInput cfg req).blocked = true

theorem pipelineTools_stops {tools : List ToolDefinition}
    (h : StopsAtInput cfg env req fw tools) (hdb : env.DatabaseWorks)
    (hn : toolNameMatches req.tool = true) :
    fw.pipelineTools cfg env req ctx (.listing tools) =
      (.ok (some (deny req ctx .inputScan
        (Firewall.inputScanReason (Firewall.scanInput cfg req)) none)), fw) := by
  obtain ⟨d, hu, hpin⟩ := h.defn
  have hname := hu.name
  have hverify : IntegrityChecker.verify cfg.sha256 d fw.db =
      .ok ⟨.ok, fingerprint cfg.sha256 d⟩ := by
    rw [verify_eq (hname ▸ encodable_of_toolNameMatches hn), hname, hpin]
    simp
  have hblocked : (cfg.scanner.scanValue .input req.arguments.toValue (str "arguments")).blocked =
      true := h.blocked
  unfold Firewall.Unique at hu
  simp only [Firewall.pipelineTools, hu, Env.attempt_none hdb.verify, hverify,
    Env.attempt_none h.scans, hblocked]
  rfl

/-- A call that is past its first segment has a caller and a tool name
that can be stored. -/
def KnownCaller (s : System) (r : Nat) : Prop :=
  ∀ req ctx, (s.tasks[r]? = some (.handleTools req ctx) ∨
    s.tasks[r]? = some (.handleCall req ctx)) → Storable ctx ∧ toolNameMatches req.tool = true

theorem knownCaller_of_run (h : (machine cfg).run { fw } as = some (s, o)) (r : Nat) :
    KnownCaller s r := by
  intro req ctx hrun
  obtain ⟨pre, env, s₁, session, -, -, hadm, rfl⟩ := run_handled h hrun
  exact ⟨storable_ranked (storable_ofSession hadm.live), hadm.name⟩

/-- A request that ends in its first segment can be stored, its tool name
aside. -/
theorem recordable_of_start {r : Except Exc (Option GatewayResult)} {x : Except Exc GatewayResult}
    {fw₁ : Firewall} (h : fw.pipelineStart cfg env req = (r, ctx, fw₁)) (hx : ended r = some x)
    (hdb : env.DatabaseWorks) :
    Storable ctx ∧ Encodable (Firewall.handleResult env req ctx x).reason := by
  have hexit := Firewall.pipelineStart_exit cfg env req fw
  rw [h] at hexit
  have hlive : ∀ {session : UserSession}, fw.lookup cfg env req.sessionId = .ok session →
      Storable (Ctx.ofSession session) :=
    fun hl => storable_ofSession (Authenticator.live_of_validate (Env.attempt_eq_ok hl))
  cases hexit with
  | unauthenticated hl =>
      cases hx
      refine ⟨storable_empty, ?_⟩
      rw [Firewall.lookup, Env.attempt_none hdb.validate] at hl
      rcases Authenticator.validate_cases cfg.sha256 (env.time .validate) req.sessionId
        fw.db with ⟨_, hok, -⟩ | ⟨m, herr⟩
      · cases hl.symm.trans hok
      · cases hl.symm.trans herr
        exact encodable_str m
  | lookupRaised hl =>
      cases hx
      exact ⟨storable_empty, encodable_str _⟩
  | limiterRaised hl =>
      cases hx
      exact ⟨hlive hl, encodable_str _⟩
  | limited hl hlim =>
      cases hx
      refine ⟨hlive hl, ?_⟩
      simp [Firewall.handleResult, deny, Firewall.rateLimitReason]
  | badName hl hlim hn =>
      cases hx
      exact ⟨hlive hl, encodable_str _⟩
  | checkRaised hl hc =>
      cases hx
      refine ⟨?_, encodable_str _⟩
      rcases hc with rfl | rfl
      · exact hlive hl
      · exact storable_ranked (hlive hl)
  | unauthorized hl hlim hn ha =>
      cases hx
      refine ⟨storable_ranked (hlive hl), ?_⟩
      exact Authorizer.encodable_reason ((hlive hl).role _ rfl) (encodable_of_toolNameMatches hn)
  | passed hl hlim hn ha => cases hx

/-- So can one that ends in its second segment, if the input scan does not
stop it. -/
theorem recordable_of_tools {reply : Firewall.ToolsReply} {r : Except Exc (Option GatewayResult)}
    {x : Except Exc GatewayResult} {fw₁ : Firewall}
    (h : fw.pipelineTools cfg env req ctx reply = (r, fw₁)) (hx : ended r = some x)
    (hn : toolNameMatches req.tool = true)
    (hst : ¬ ∃ tools, reply = .listing tools ∧ StopsAtInput cfg env req fw tools) :
    Encodable (Firewall.handleResult env req ctx x).reason := by
  have hexit := Firewall.pipelineTools_exit cfg env req fw ctx reply
  rw [h] at hexit
  cases hexit with
  | listingRaised =>
      cases hx
      exact encodable_str _
  | unlisted =>
      cases hx
      exact encodable_str _
  | duplicated =>
      cases hx
      exact encodable_str _
  | checkRaised =>
      cases hx
      exact encodable_str _
  | mismatched hu hv hr =>
      rename_i verdict
      cases hx
      exact verdict.encodable_reason
  | inputBlocked hu hv hr hf hb =>
      exact absurd ⟨_, rfl, ⟨_, hu, hu.name ▸ pinned_of_verify hv hr⟩, hf, hb⟩ hst
  | waitRaised ha =>
      cases hx
      exact encodable_str _
  | circuitOpen ha =>
      cases hx
      simp [Firewall.handleResult, deny, Firewall.circuitOpenReason,
        encodable_of_toolNameMatches hn]
  | issued hu hv hr hb ha => cases hx

theorem recordable_of_reply {reply : Firewall.CallReply} {r : Except Exc (Option GatewayResult)}
    {x : Except Exc GatewayResult} {fw₁ : Firewall}
    (h : fw.pipelineReply cfg env req ctx reply = (r, fw₁)) (hx : ended r = some x) :
    Encodable (Firewall.handleResult env req ctx x).reason := by
  have hexit := Firewall.pipelineReply_exit cfg env req fw ctx reply
  rw [h] at hexit
  cases hexit with
  | recordRaised hf =>
      cases hx
      exact encodable_str _
  | cancelled hf => cases hx
  | callFailed hr hf =>
      cases hx
      exact encodable_str _
  | scanRaised hf =>
      cases hx
      exact encodable_str _
  | outputBlocked hf hb =>
      cases hx
      exact encodable_outputScanReason _
  | allowed hf hb =>
      cases hx
      simp only [Firewall.handleResult, Firewall.allow]
      split
      · exact encodable_str _
      · exact encodable_str _

/-- **What a result says** can be stored, except where it quotes what the
input scanner found. -/
theorem PipelineEnd.recordable {x : Except Exc GatewayResult}
    (h : PipelineEnd cfg s a r env req ctx x fw) (hdb : env.DatabaseWorks)
    (hknown : KnownCaller s r) :
    Storable ctx ∧
      (Encodable (Firewall.handleResult env req ctx x).reason ∨
        ∃ tools, a = .handleTools r env (.listing tools) ∧
          StopsAtInput cfg env req s.fw tools ∧ (Firewall.handleResult env req ctx x).reason =
            Firewall.inputScanReason (Firewall.scanInput cfg req)) := by
  cases h with
  | start h hx =>
      obtain ⟨hctx, hreason⟩ := recordable_of_start h hx hdb
      exact ⟨hctx, .inl hreason⟩
  | tools hrun h hx =>
      rename_i reply out
      obtain ⟨hctx, hn⟩ := hknown req ctx (.inl hrun)
      refine ⟨hctx, ?_⟩
      by_cases hst : ∃ tools, reply = .listing tools ∧ StopsAtInput cfg env req s.fw tools
      · -- where the input scan stops the request, the segment is determined
        obtain ⟨tools, rfl, hst⟩ := hst
        rw [pipelineTools_stops hst hdb hn] at h
        cases h
        cases hx
        exact .inr ⟨tools, rfl, hst, rfl⟩
      · exact .inl (recordable_of_tools h hx hn hst)
  | reply hrun h hx =>
      obtain ⟨hctx, -⟩ := hknown req ctx (.inr hrun)
      exact ⟨hctx, .inl (recordable_of_reply h hx)⟩

/-- The record of a result can be stored exactly when the sanitised tool
name and reason can. -/
theorem bindable_result {x : Except Exc GatewayResult} (hctx : Storable ctx) :
    (Firewall.resultEvent req ctx (Firewall.handleResult env req ctx x)).build.Bindable ↔
      Encodable (sanitize req.tool) ∧
        Encodable (sanitize (Firewall.handleResult env req ctx x).reason) := by
  have hopt : ∀ {t : Option Str}, (∀ u ∈ t, Encodable u) →
      ∀ u ∈ t.map sanitize, Encodable u := by
    intro t ht u hu
    obtain ⟨v, hv, rfl⟩ := Option.map_eq_some_iff.mp hu
    exact encodable_sanitize (ht v hv)
  have hrisk : ∀ u ∈ (Firewall.handleResult env req ctx x).risk.map RiskLevel.name,
      Encodable u := by
    intro u hu
    obtain ⟨level, -, rfl⟩ := Option.map_eq_some_iff.mp hu
    exact level.encodable_name
  rw [SecurityEvent.bindable_iff]
  constructor
  · intro h
    obtain ⟨-, -, -, htool, -, -, hreason⟩ := h
    exact ⟨htool _ rfl, hreason⟩
  · intro h
    obtain ⟨htool, hreason⟩ := h
    refine ⟨hopt hctx.userId, hopt hctx.sessionRef, hopt hctx.role, ?_, hopt hrisk,
      encodable_sanitize (encodable_stage _), hreason⟩
    rintro u ⟨⟩
    exact htool

/-! ## One row for each result -/

/-- The request whose pipeline ends was handled earlier in the run, or just
now. -/
theorem PipelineEnd.handled {pre : List Act} {x : Except Exc GatewayResult} {fw₁ : Firewall}
    (h : PipelineEnd cfg s a r env req ctx x fw₁) (hat : At cfg fw as pre s a) :
    ∃ pre₀ env₀ s₀, At cfg fw as pre₀ s₀ (.handle env₀ req) ∧ s₀.tasks.length = r := by
  have hearlier : s.tasks[r]? = some (.handleTools req ctx) ∨
        s.tasks[r]? = some (.handleCall req ctx) →
      ∃ pre₀ env₀ s₀, At cfg fw as pre₀ s₀ (.handle env₀ req) ∧ s₀.tasks.length = r := by
    intro hrun
    obtain ⟨post, o, rfl, hpre⟩ := hat
    obtain ⟨pre₀, env₀, s₀, _, hat₀, hlen, -, -⟩ := run_handled hpre hrun
    exact ⟨pre₀, env₀, s₀, hat₀.extend _, hlen⟩
  cases h with
  | start h hx => exact ⟨pre, env, s, hat, rfl⟩
  | tools hrun h hx => exact hearlier (.inl hrun)
  | reply hrun h hx => exact hearlier (.inr hrun)

/-- Request `r` of the run can be recorded: its sanitised tool name is
encodable and, where the input scan stops it, the sanitised quotation of
the findings too. -/
def Recordable (cfg : Config) (fw : Firewall) (as : List Act) (r : Nat) : Prop :=
  ∀ pre env req s, At cfg fw as pre s (.handle env req) → s.tasks.length = r →
    Encodable (sanitize req.tool) ∧
      ∀ pre' env' tools s', At cfg fw as pre' s' (.handleTools r env' (.listing tools)) →
        StopsAtInput cfg env' req s'.fw tools →
          Encodable (sanitize (Firewall.inputScanReason (Firewall.scanInput cfg req)))

/-- Where the input scan stops a request, that is the result it returns. -/
theorem result_of_stops (h : (machine cfg).run { fw } as = some (s, o)) {pre : List Act}
    {s₁ : System} {tools : List ToolDefinition}
    (hat : At cfg fw as pre s₁ (.handleTools r env (.listing tools)))
    (hrun : s₁.tasks[r]? = some (.handleTools req ctx))
    (hst : StopsAtInput cfg env req s₁.fw tools) (hdb : env.DatabaseWorks)
    (hn : toolNameMatches req.tool = true) {result : GatewayResult}
    (hret : .returned r result ∈ o) :
    result.reason = Firewall.inputScanReason (Firewall.scanInput cfg req) := by
  obtain ⟨o₁, s₂, o₂, post, o₃, hpre, hstep, -, -⟩ := hat.step h
  have ho₂ : o₂ = (leave r env req ctx (.ok (deny req ctx .inputScan
      (Firewall.inputScanReason (Firewall.scanInput cfg req)) none)) s₁.fw).2 := by
    simp only [step, hrun, pipelineTools_stops hst hdb hn, ended] at hstep
    cases hstep
    rfl
  have hown : .returned r (Firewall.handleResult env req ctx (.ok (deny req ctx .inputScan
      (Firewall.inputScanReason (Firewall.scanInput cfg req)) none))) ∈ o₂ := by
    simp [ho₂, leave]
  have hevents := eventsOf_ended (r := r) h hat hstep hown rfl rfl
  have hmem : .returned r result ∈ eventsOf r o := by simp [eventsOf, hret, Event.id]
  rw [hevents, hrun, ho₂] at hmem
  have hresult : result = Firewall.handleResult env req ctx (.ok (deny req ctx .inputScan
      (Firewall.inputScanReason (Firewall.scanInput cfg req)) none)) := by
    simpa [emitted, leave] using hmem
  rw [hresult]
  rfl

/-- The request a second segment belongs to is the one that was handled
under its id. -/
theorem At.request {pre₀ : List Act} {env₀ : Env} {s₀ s₁ : System} {pre : List Act}
    {reply : Firewall.ToolsReply} (h : (machine cfg).run { fw } as = some (s, o))
    (hat₀ : At cfg fw as pre₀ s₀ (.handle env₀ req)) (hlen₀ : s₀.tasks.length = r)
    (hat : At cfg fw as pre s₁ (.handleTools r env reply)) :
    toolNameMatches req.tool = true ∧ ∃ ctx, s₁.tasks[r]? = some (.handleTools req ctx) := by
  obtain ⟨_, _, _, _, _, hpre, hstep, -, -⟩ := hat.step h
  obtain ⟨req', ctx, hrun⟩ : ∃ req' ctx, s₁.tasks[r]? = some (.handleTools req' ctx) := by
    simp only [System.step] at hstep
    split at hstep
    · exact ⟨_, _, ‹_›⟩
    · cases hstep
  obtain ⟨_, _, s₂, _, hat₂, hlen₂, hadm, -⟩ := run_handled hpre (.inl hrun)
  obtain ⟨post, -, has, -⟩ := hat
  obtain ⟨-, -, heq⟩ := start_unique (has ▸ hat₂.extend _) hat₀ rfl rfl (hlen₂.trans hlen₀.symm)
  cases heq
  exact ⟨hadm.name, ctx, hrun⟩

/-- What a returned request has stored is what the one audit write of its
last segment stored. -/
theorem run_returned (h : (machine cfg).run { fw } as = some (s, o)) {result : GatewayResult}
    (hret : .returned r result ∈ o) :
    ∃ pre a s₁ env req ctx x fw₁, At cfg fw as pre s₁ a ∧
      PipelineEnd cfg s₁ a r env req ctx x fw₁ ∧ KnownCaller s₁ r ∧
      result = Firewall.handleResult env req ctx x ∧
      (eventsOf r o).filterMap Event.stored =
        (fw₁.auditResult env req ctx (Firewall.handleResult env req ctx x)).1.toList := by
  obtain ⟨pre, a, s₁, fw', o₂, hat, hend, hmem, hevents⟩ := run_ending (r := r) h hret rfl rfl
  have hknown : KnownCaller s₁ r := by
    obtain ⟨_, _, _, hpre⟩ := hat
    exact knownCaller_of_run hpre r
  have hemitted : ∀ t, (emitted r t).filterMap Event.stored = [] := by
    intro t
    unfold emitted
    split <;> rfl
  cases hend.said hmem with
  | returned hpipe ho =>
      refine ⟨pre, a, s₁, _, _, _, _, _, hat, hpipe, hknown, rfl, ?_⟩
      rw [hevents, ho, List.filterMap_append, filterMap_stored_leave]
      simp [hemitted]

/-- With the log in order, the write of a result stores its decision and
stage exactly when the sanitised tool name and reason can be stored. -/
theorem auditResult_stores_iff {x : Except Exc GatewayResult} (hctx : Storable ctx)
    (ha : env.fault .audit = none) :
    (∃ event,
        (fw.auditResult env req ctx (Firewall.handleResult env req ctx x)).1.toList = [event] ∧
          event.decision = (Firewall.handleResult env req ctx x).decision ∧
          event.stage = (Firewall.handleResult env req ctx x).stage.text) ↔
      Encodable (sanitize req.tool) ∧
        Encodable (sanitize (Firewall.handleResult env req ctx x).reason) := by
  have hsome : (fw.auditResult env req ctx (Firewall.handleResult env req ctx x)).1.isSome = true ↔
      (Firewall.resultEvent req ctx (Firewall.handleResult env req ctx x)).build.Bindable :=
    Firewall.recordOrLog_isSome ha
  have hsame : ∀ event ∈ (fw.auditResult env req ctx (Firewall.handleResult env req ctx x)).1,
      event.decision = (Firewall.handleResult env req ctx x).decision ∧
        event.stage = sanitize (Firewall.handleResult env req ctx x).stage.text :=
    (Firewall.recordOrLog_logged env
      (Firewall.resultEvent req ctx (Firewall.handleResult env req ctx x)) fw).2.2
  rw [← bindable_result hctx, ← hsome]
  generalize (fw.auditResult env req ctx (Firewall.handleResult env req ctx x)).1 = stored
    at hsame ⊢
  cases stored with
  | none => simp
  | some event =>
      obtain ⟨hdec, hstage⟩ := hsame event rfl
      refine ⟨fun _ => rfl, fun _ => ⟨event, rfl, hdec, ?_⟩⟩
      rw [hstage, sanitize_stage]

/-- **One row for each result.** While the database works, the log of a run
holds one new row for each event that was stored. A request that returned
has exactly one, with the decision and the stage of its result, if and only
if it can be recorded. -/
theorem one_row_iff (h : (machine cfg).run { fw } as = some (s, o))
    (hdb : ∀ a ∈ as, ∀ env, a.RunsIn env → env.DatabaseWorks) {result : GatewayResult}
    (hret : .returned r result ∈ o) :
    Logged (o.filterMap Event.stored) fw.db s.fw.db ∧
      ((∃ event, (eventsOf r o).filterMap Event.stored = [event] ∧
          event.decision = result.decision ∧ event.stage = result.stage.text) ↔
        Recordable cfg fw as r) := by
  refine ⟨run_logged h, ?_⟩
  obtain ⟨pre, a, s₁, env, req, ctx, x, fw₁, hat, hpipe, hknown, rfl, hstored⟩ :=
    run_returned h hret
  obtain ⟨pre₀, env₀, s₀, hat₀, hlen₀⟩ := hpipe.handled hat
  have hworks : env.DatabaseWorks := by
    refine hdb a hat.mem env ?_
    cases hpipe <;> rfl
  obtain ⟨hctx, hreason⟩ := hpipe.recordable hworks hknown
  rw [hstored, auditResult_stores_iff hctx hworks.audit]
  constructor
  · intro ⟨htool, hquote⟩ pre' env' req' s' hat' hlen'
    obtain ⟨-, -, heq⟩ := start_unique hat' hat₀ rfl rfl (hlen'.trans hlen₀.symm)
    cases heq
    refine ⟨htool, fun pre'' env'' tools s'' hat'' hst => ?_⟩
    obtain ⟨hname, ctx'', hrun⟩ := At.request h hat₀ hlen₀ hat''
    rw [← result_of_stops h hat'' hrun hst (hdb _ hat''.mem env'' rfl) hname hret]
    exact hquote
  · intro hrec
    obtain ⟨htool, hinput⟩ := hrec pre₀ env₀ req s₀ hat₀ hlen₀
    refine ⟨htool, ?_⟩
    rcases hreason with hplain | ⟨tools, rfl, hst, hquote⟩
    · exact encodable_sanitize hplain
    · rw [hquote]
      exact hinput pre env tools s₁ hat hst

end System

/-! ## A recorded and an unrecorded denial -/

/-- One request without a session, on an empty database. -/
def strangerRun (tool : Str) : Option (System × List Event) :=
  (System.machine echoConfig).run { fw := .init echoConfig {} } [.handle {} { tool }]

theorem strangerRun_works : ∀ a ∈ [Act.handle {} { tool }], ∀ env, a.RunsIn env →
    env.DatabaseWorks := by
  intro a ha env henv
  rw [List.mem_singleton.mp ha] at henv
  rw [show env = {} from henv]
  exact ⟨rfl, rfl, rfl⟩

theorem returned_of_any {o : List Event} {r : Nat} (h : o.any (Event.returns r) = true) :
    ∃ result, .returned r result ∈ o := by
  obtain ⟨e, he, hr⟩ := List.any_eq_true.mp h
  cases e with
  | returned id result =>
      obtain rfl : id = r := by simpa [Event.returns] using hr
      exact ⟨result, he⟩
  | _ => cases hr

theorem one_row_iff_echo : ∃ s o result, strangerRun (str "echo") = some (s, o) ∧
    .returned 0 result ∈ o ∧ ∃ event, (System.eventsOf 0 o).filterMap Event.stored = [event] ∧
      event.decision = result.decision ∧ event.stage = result.stage.text := by
  have hrun : (strangerRun (str "echo")).any (fun p => p.2.any (Event.returns 0)) = true := by
    decide +kernel
  obtain ⟨⟨s, o⟩, hrun, hany⟩ := (Option.any_eq_true _ _).mp hrun
  obtain ⟨result, hret⟩ := returned_of_any hany
  refine ⟨s, o, result, hrun, hret,
    (System.one_row_iff hrun strangerRun_works hret).2.mpr fun pre env req s₁ hat _ => ?_⟩
  obtain ⟨post, o₁, heq, -⟩ := hat
  cases pre with
  | cons b pre => simp at heq
  | nil =>
      cases heq
      refine ⟨encodable_sanitize (encodable_str _), fun pre' env' tools s' hat' => ?_⟩
      obtain ⟨post', o', heq', -⟩ := hat'
      cases pre' with
      | cons b pre' => simp at heq'
      | nil => cases heq'

/-- Not every returned request has its row: one whose tool name is an
unpaired surrogate has none. -/
theorem surrogate_tool_unrecorded :
    ¬ ∀ (cfg : Config) (fw : Firewall) (as : List Act) (s : System) (o : List Event) (r : Nat)
      (result : GatewayResult), (System.machine cfg).run { fw } as = some (s, o) →
      (∀ a ∈ as, ∀ env, a.RunsIn env → env.DatabaseWorks) → .returned r result ∈ o →
        ∃ event, (System.eventsOf r o).filterMap Event.stored = [event] ∧
          event.decision = result.decision ∧ event.stage = result.stage.text := by
  intro hall
  have hrun : (strangerRun [0xD800]).any (fun p => p.2.any (Event.returns 0) &&
      ((System.eventsOf 0 p.2).filterMap Event.stored).isEmpty) = true := by
    decide +kernel
  obtain ⟨⟨s, o⟩, hrun, hany⟩ := (Option.any_eq_true _ _).mp hrun
  obtain ⟨hany, hempty⟩ := Bool.and_eq_true_iff.mp hany
  obtain ⟨result, hret⟩ := returned_of_any hany
  obtain ⟨event, hone, -⟩ := hall _ _ _ _ _ _ _ hrun strangerRun_works hret
  simp [hone] at hempty

end AgenticFirewall
