import AgenticFirewall.Firewall.Passing
import AgenticFirewall.Properties.UpstreamTrace

/-!
# Fail closed

Any component operation may raise in any segment, before the upstream call,
inside an `except` handler or after the call. A request still ends with a
result, and the result is a denial unless every check of all three segments
completed and passed.
-/

namespace AgenticFirewall

open Py Transition

/-- The result an event returns. -/
def Event.result : Event → Option (Nat × GatewayResult)
  | .returned id result => some (id, result)
  | _ => none

/-- The two environments differ at most in what becomes of the audit
write. -/
structure Env.SameButAudit (env env' : Env) : Prop where
  fault : ∀ op, op ≠ .audit → env.fault op = env'.fault op
  time : ∀ op, op ≠ .audit → env.time op = env'.time op
  monotonic : env.monotonic = env'.monotonic
  latencyMs : env.latencyMs = env'.latencyMs

/-- The same segment of `handle`, up to the audit write. -/
inductive Act.SameButAudit : Act → Act → Prop where
  | handle {env env' : Env} {req : ToolRequest} (h : env.SameButAudit env') :
      SameButAudit (.handle env req) (.handle env' req)
  | handleTools {id : Nat} {env env' : Env} {reply : Firewall.ToolsReply}
      (h : env.SameButAudit env') :
      SameButAudit (.handleTools id env reply) (.handleTools id env' reply)
  | handleReply {id : Nat} {env env' : Env} {reply : Firewall.CallReply}
      (h : env.SameButAudit env') :
      SameButAudit (.handleReply id env reply) (.handleReply id env' reply)

/-! ## The audit write decides nothing -/

section Audit

variable {cfg : Config} {env env' : Env} {req : ToolRequest} {ctx : Ctx} {fw : Firewall}

theorem Env.SameButAudit.attempt {α : Type} (h : env.SameButAudit env') (op : Op)
    (hop : op ≠ .audit) (x : Except Exc α) : env.attempt op x = env'.attempt op x := by
  unfold Env.attempt
  rw [h.fault op hop]

theorem pipelineStart_sameButAudit (h : env.SameButAudit env') :
    fw.pipelineStart cfg env req = fw.pipelineStart cfg env' req := by
  simp only [Firewall.pipelineStart, h.attempt .validate (by decide),
    h.time .validate (by decide), h.fault .limiter (by decide), h.monotonic,
    h.attempt .classify (by decide), h.attempt .authorize (by decide)]

theorem pipelineTools_sameButAudit (h : env.SameButAudit env') (reply : Firewall.ToolsReply) :
    fw.pipelineTools cfg env req ctx reply = fw.pipelineTools cfg env' req ctx reply := by
  simp only [Firewall.pipelineTools, h.attempt .verify (by decide),
    h.attempt .inputScan (by decide), h.fault .breakerAllow (by decide), h.monotonic,
    h.fault .retryAfter (by decide)]

theorem pipelineReply_sameButAudit (h : env.SameButAudit env') (reply : Firewall.CallReply) :
    fw.pipelineReply cfg env req ctx reply = fw.pipelineReply cfg env' req ctx reply := by
  simp only [Firewall.pipelineReply, h.fault .recordOutcome (by decide), h.monotonic,
    h.attempt .outputScan (by decide)]

namespace System

variable {s : System}

theorem leave_result (id : Nat) (env : Env) (req : ToolRequest) (ctx : Ctx)
    (x : Except Exc GatewayResult) (fw : Firewall) :
    (leave id env req ctx x fw).2.filterMap Event.result =
      [(id, Firewall.handleResult env req ctx x)] := rfl

/-- **The audit write decides nothing**: whatever becomes of it, the same
segments follow and the same result is returned. -/
theorem step_sameButAudit (cfg : Config) (s : System) {a a' : Act} (h : a.SameButAudit a') :
    (step cfg s a).map (fun p => (p.1.tasks, p.2.filterMap Event.result)) =
      (step cfg s a').map fun p => (p.1.tasks, p.2.filterMap Event.result) := by
  have hresult : ∀ {env env' : Env}, env.SameButAudit env' → ∀ req ctx x,
      Firewall.handleResult env req ctx x = Firewall.handleResult env' req ctx x := by
    intro env env' h req ctx x
    simp only [Firewall.handleResult, h.latencyMs]
  cases h with
  | handle h =>
      simp only [step, pipelineStart_sameButAudit h]
      split
      · rfl
      · simp only [Option.map_some, leave_result, hresult h]
  | handleTools h =>
      simp only [step]
      split
      · simp only [pipelineTools_sameButAudit h]
        split
        · rfl
        · simp only [Option.map_some, leave_result, hresult h]
      · rfl
  | handleReply h =>
      simp only [step]
      split
      · simp only [pipelineReply_sameButAudit h]
        split
        · rfl
        · simp only [Option.map_some, leave_result, hresult h]
      · rfl

end System

end Audit

/-! ## The life of a request under faults -/

namespace System

variable {cfg : Config} {s s' : System} {a : Act} {o : List Event} {r : Nat} {env : Env}
  {req : ToolRequest} {ctx : Ctx} {fw : Firewall} {as : List Act}

/-- The first segment of the request completed and passed. -/
def StartPassed (cfg : Config) (fw : Firewall) (as : List Act) (r : Nat) (req : ToolRequest) :
    Prop :=
  ∃ pre env s session, At cfg fw as pre s (.handle env req) ∧ s.tasks.length = r ∧
    Firewall.StartPasses cfg env req s.fw session

/-- So did its second. -/
def ToolsPassed (cfg : Config) (fw : Firewall) (as : List Act) (r : Nat) (req : ToolRequest) :
    Prop :=
  ∃ pre env s reply tools defn integrity, At cfg fw as pre s (.handleTools r env reply) ∧
    Firewall.ToolsPass cfg env req s.fw reply tools defn integrity

/-- `call_tool` returned the response, and every check up to and including
the output scan completed and passed. -/
structure WentThrough (cfg : Config) (fw : Firewall) (as : List Act) (r : Nat) (req : ToolRequest)
    (resp : ToolResponse) : Prop where
  start : StartPassed cfg fw as r req
  tools : ToolsPassed cfg fw as r req
  reply : ∃ pre env s reply, At cfg fw as pre s (.handleReply r env reply) ∧
    Firewall.ReplyPasses cfg env reply resp

/-- The call was cancelled at one of its awaits. -/
def WasCancelled (as : List Act) (r : Nat) : Prop :=
  .cancel r ∈ as ∨ ∃ env, .handleReply r env .cancelled ∈ as

/-- The result is a denial and holds no response. -/
def Denies (result : GatewayResult) : Prop := result.decision = .deny ∧ result.response = none

/-- Where a request stands and what it has emitted, with what passed so
far. -/
inductive Life (cfg : Config) (fw : Firewall) (as : List Act) (r : Nat) (req : ToolRequest) :
    Option Task → List Event → Prop where
  | listing {ctx : Ctx} (hs : StartPassed cfg fw as r req) :
      Life cfg fw as r req (some (.handleTools req ctx)) []
  | calling {ctx : Ctx} (hs : StartPassed cfg fw as r req) (ht : ToolsPassed cfg fw as r req) :
      Life cfg fw as r req (some (.handleCall req ctx)) [.issued r req.tool req.arguments]
  | returned {t : Option Task} {stored : Option SecurityEvent} {result : GatewayResult}
      (hd : Denies result ∨ ∃ resp, WentThrough cfg fw as r req resp ∧ result.decision = .allow ∧
        result.response = some resp) :
      Life cfg fw as r req (some .left) (emitted r t ++ [.audit r stored, .returned r result])
  | cancelled {t : Option Task} (hc : WasCancelled as r) :
      Life cfg fw as r req (some .left) (emitted r t ++ [.cancelled r])

theorem StartPassed.extend (h : StartPassed cfg fw as r req) (more : List Act) :
    StartPassed cfg fw (as ++ more) r req := by
  obtain ⟨pre, env, s, session, hat, hlen, hp⟩ := h
  exact ⟨pre, env, s, session, hat.extend more, hlen, hp⟩

theorem ToolsPassed.extend (h : ToolsPassed cfg fw as r req) (more : List Act) :
    ToolsPassed cfg fw (as ++ more) r req := by
  obtain ⟨pre, env, s, reply, tools, defn, integrity, hat, hp⟩ := h
  exact ⟨pre, env, s, reply, tools, defn, integrity, hat.extend more, hp⟩

theorem WentThrough.extend {resp : ToolResponse} (h : WentThrough cfg fw as r req resp)
    (more : List Act) : WentThrough cfg fw (as ++ more) r req resp := by
  obtain ⟨pre, env, s, reply, hat, hp⟩ := h.reply
  exact ⟨h.start.extend more, h.tools.extend more, pre, env, s, reply, hat.extend more, hp⟩

theorem Life.extend {t : Option Task} (h : Life cfg fw as r req t o) (more : List Act) :
    Life cfg fw (as ++ more) r req t o := by
  cases h with
  | listing hs => exact .listing (hs.extend more)
  | calling hs ht => exact .calling (hs.extend more) (ht.extend more)
  | returned hd =>
      rcases hd with hd | ⟨resp, hw, hd⟩
      · exact .returned (.inl hd)
      · exact .returned (.inr ⟨resp, hw.extend more, hd⟩)
  | cancelled hc =>
      refine .cancelled ?_
      rcases hc with hc | ⟨env, hc⟩
      · exact .inl (List.mem_append_left _ hc)
      · exact .inr ⟨env, List.mem_append_left _ hc⟩

/-- What `handle` makes of a denial or an exception. -/
theorem denies_handleResult (env : Env) (req : ToolRequest) (ctx : Ctx)
    {x : Except Exc GatewayResult} (h : ∀ result, x = .ok result → Denies result) :
    Denies (Firewall.handleResult env req ctx x) := by
  cases x with
  | error e => exact ⟨rfl, rfl⟩
  | ok result => exact h result rfl

theorem life_start (hrun : (machine cfg).run { fw } as = some (s, o)) (hlen : s.tasks.length = r)
    {own : List Event} (hstep : step cfg s (.handle env req) = some (s', own)) :
    Life cfg fw (as ++ [.handle env req]) r req s'.tasks[r]? own := by
  subst hlen
  have hat : At cfg fw (as ++ [.handle env req]) as s (.handle env req) := ⟨[], o, rfl, hrun⟩
  simp only [step] at hstep
  split at hstep
  · rename_i hended
    cases hstep
    obtain ⟨session, hp⟩ := Firewall.startPasses_of_goes_on (ended_eq_none hended)
    simp only [List.getElem?_concat_length]
    exact .listing ⟨as, env, s, session, hat, rfl, hp⟩
  · rename_i x hended
    cases hstep
    simp only [List.getElem?_concat_length]
    have hdenies := denies_handleResult env req (s.fw.pipelineStart cfg env req).2.1
      fun result hx => Firewall.start_denies (ended_eq_some hended hx)
    exact .returned (t := none) (.inl hdenies)

theorem life_tools {reply : Firewall.ToolsReply} {own : List Event}
    (hrun : (machine cfg).run { fw } as = some (s, o)) (hl : Life cfg fw as r req s.tasks[r]? own)
    {new : List Event} (hstep : step cfg s (.handleTools r env reply) = some (s', new)) :
    Life cfg fw (as ++ [.handleTools r env reply]) r req s'.tasks[r]? (own ++ new) := by
  have hat : At cfg fw (as ++ [.handleTools r env reply]) as s (.handleTools r env reply) :=
    ⟨[], o, rfl, hrun⟩
  simp only [step] at hstep
  split at hstep
  · rename_i req' ctx htask
    have hlt := (List.getElem?_eq_some_iff.mp htask).1
    rw [htask] at hl
    cases hl with
    | listing hs =>
        split at hstep
        · rename_i hended
          cases hstep
          obtain ⟨tools, defn, integrity, hp⟩ :=
            Firewall.toolsPass_of_goes_on (ended_eq_none hended)
          simp only [List.getElem?_set_self hlt]
          exact .calling (hs.extend _) ⟨as, env, s, reply, tools, defn, integrity, hat, hp⟩
        · rename_i x hended
          cases hstep
          simp only [List.getElem?_set_self hlt]
          have hdenies := denies_handleResult env req ctx
            fun result hx => Firewall.tools_denies (ended_eq_some hended hx)
          exact .returned (t := none) (.inl hdenies)
  · cases hstep

theorem life_reply {reply : Firewall.CallReply} {own : List Event}
    (hrun : (machine cfg).run { fw } as = some (s, o)) (hl : Life cfg fw as r req s.tasks[r]? own)
    {new : List Event} (hstep : step cfg s (.handleReply r env reply) = some (s', new)) :
    Life cfg fw (as ++ [.handleReply r env reply]) r req s'.tasks[r]? (own ++ new) := by
  have hat : At cfg fw (as ++ [.handleReply r env reply]) as s (.handleReply r env reply) :=
    ⟨[], o, rfl, hrun⟩
  simp only [step] at hstep
  split at hstep
  · rename_i req' ctx htask
    have hlt := (List.getElem?_eq_some_iff.mp htask).1
    rw [htask] at hl
    cases hl with
    | calling hs ht =>
        have hissued : [.issued r req.tool req.arguments] =
          emitted r (some (.handleCall req ctx)) := rfl
        rw [hissued]
        split at hstep
        · rename_i hended
          cases hstep
          obtain ⟨rfl, -, -⟩ := Firewall.cancelled_of_reply cfg env req s.fw
            (Prod.ext (ended_eq_none hended) rfl)
          simp only [List.getElem?_set_self hlt]
          exact .cancelled (.inr ⟨env, by simp⟩)
        · rename_i x hended
          cases hstep
          simp only [List.getElem?_set_self hlt]
          refine .returned ?_
          cases x with
          | error e => exact .inl ⟨rfl, rfl⟩
          | ok result =>
              rcases Firewall.reply_allows_or_denies (ended_eq_some hended rfl) with
                ⟨resp, hp, rfl⟩ | hdenies
              · exact .inr ⟨resp, ⟨hs.extend _, ht.extend _, as, env, s, reply, hat, hp⟩, rfl, rfl⟩
              · exact .inl hdenies
  · cases hstep

/-- A step of a request that was handled before. -/
theorem life_step {own : List Event} (hrun : (machine cfg).run { fw } as = some (s, o))
    (hl : Life cfg fw as r req s.tasks[r]? own) (hlt : r < s.tasks.length) {new : List Event}
    (hstep : step cfg s a = some (s', new)) (hcall : callOf s a = some r) :
    Life cfg fw (as ++ [a]) r req s'.tasks[r]? (own ++ new) := by
  have hopens : a.opens = false := by
    by_contra hne
    rw [Bool.not_eq_false] at hne
    have hid : s.tasks.length = r := by simpa [callOf, hne] using hcall
    omega
  have htarget : a.target = some r := by simpa [callOf, hopens] using hcall
  cases a with
  | handleTools id env reply =>
      cases htarget
      exact life_tools hrun hl hstep
  | handleReply id env reply =>
      cases htarget
      exact life_reply hrun hl hstep
  | approveTools id envs reply =>
      cases htarget
      simp only [step] at hstep
      split at hstep
      · rename_i approver names htask
        rw [htask] at hl
        cases hl
      · cases hstep
  | listTools id envs reply =>
      cases htarget
      simp only [step] at hstep
      split at hstep
      · rename_i session manager htask
        rw [htask] at hl
        cases hl
      · cases hstep
  | cancel id =>
      cases htarget
      simp only [step] at hstep
      split at hstep
      · rename_i req' ctx htask
        rw [htask] at hl
        cases hstep
        cases hl with
        | listing hs =>
            simp only [List.getElem?_set_self hlt]
            exact .cancelled (t := none) (.inl (by simp))
      · rename_i approver names htask
        rw [htask] at hl
        cases hl
      · rename_i session manager htask
        rw [htask] at hl
        cases hl
      · cases hstep
  | _ => cases htarget

/-- Every request that was handled has such a life. -/
theorem life_run {pre : List Act} {s₀ : System} (h : (machine cfg).run { fw } as = some (s, o))
    (hat : At cfg fw as pre s₀ (.handle env req)) (hlen : s₀.tasks.length = r) :
    Life cfg fw as r req s.tasks[r]? (eventsOf r o) := by
  revert pre s₀ env
  refine (machine cfg).run_history
    (motive := fun as s o => ∀ {env : Env} {pre : List Act} {s₀ : System},
      At cfg fw as pre s₀ (.handle env req) → s₀.tasks.length = r →
      Life cfg fw as r req s.tasks[r]? (eventsOf r o)) ?_ ?_ h
  · intro env pre s₀ hat
    obtain ⟨post, _, heq, -⟩ := hat
    simp at heq
  · intro as s₁ o₁ a s₂ o₂ hrun ih hstep env pre s₀ hat hlen
    change step cfg s₁ a = some (s₂, o₂) at hstep
    rw [eventsOf_append]
    rcases hat.concat with ⟨rfl, rfl⟩ | hat'
    · -- the request is handled by this step
      obtain ⟨-, o₀, -, hpre⟩ := hat
      obtain ⟨rfl, rfl⟩ := Prod.mk.inj (Option.some.inj (hrun.symm.trans hpre))
      have hcall : callOf s₁ (.handle env req) = some r := by simp [callOf, Act.opens, hlen]
      have hown : ∀ e ∈ o₂, e.id = r := by
        intro e he
        have hid := (step_shape hstep).id_eq e he
        rw [hcall] at hid
        exact Option.some.inj hid
      have hbefore : eventsOf r o₁ = [] := by
        have hnone : s₁.tasks[r]? = none := List.getElem?_eq_none (by omega)
        rw [run_emitted hrun (by simp [hnone]), hnone]
        rfl
      rw [hbefore, eventsOf_own hown, List.nil_append]
      exact life_start hrun hlen hstep
    · -- it was handled before, and has its place among the calls
      have hlt : r < s₁.tasks.length := by
        obtain ⟨o', s', own, post, o'', -, hhandle, hpost, -⟩ := hat'.step hrun
        have hgrows := step_length hhandle
        have hmore := run_length hpost
        simp only [Act.opens, if_true] at hgrows
        omega
      have hl := ih hat' hlen
      by_cases hcall : callOf s₁ a = some r
      · have hown : ∀ e ∈ o₂, e.id = r := by
          intro e he
          have hid := (step_shape hstep).id_eq e he
          rw [hcall] at hid
          exact Option.some.inj hid
        rw [eventsOf_own hown]
        exact life_step hrun hl hlt hstep hcall
      · obtain ⟨hsame, hsilent⟩ := step_frame hstep hcall
        rw [hsame, eventsOf_other hsilent, List.append_nil]
        exact hl.extend [a]

/-! ## What such a life says -/

section Life

variable {t : Option Task} {own : List Event}

theorem mem_emitted {e : Event} (h : e ∈ emitted r t) : e.isIssued = true := by
  unfold emitted at h
  split at h
  · cases List.mem_singleton.mp h
    rfl
  · cases h

theorem Life.contained (hl : Life cfg fw as r req t own) (e : Exc) : .raised r e ∉ own := by
  intro hmem
  cases hl with
  | listing hs => cases hmem
  | calling hs ht => simp at hmem
  | returned hd =>
      rcases List.mem_append.mp hmem with hmem | hmem
      · cases mem_emitted hmem
      · simp at hmem
  | cancelled hc =>
      rcases List.mem_append.mp hmem with hmem | hmem
      · cases mem_emitted hmem
      · simp at hmem

/-- A request returns once. -/
theorem Life.decided (hl : Life cfg fw as r req t own) {result : GatewayResult}
    (hmem : .returned r result ∈ own) :
    (∀ result', .returned r result' ∈ own → result' = result) ∧
      (Denies result ∨ ∃ resp, WentThrough cfg fw as r req resp ∧ result.decision = .allow ∧
        result.response = some resp) := by
  cases hl with
  | listing hs => cases hmem
  | calling hs ht => simp at hmem
  | returned hd =>
      rename_i t stored last
      have hlast : ∀ result', .returned r result' ∈
          emitted r t ++ [.audit r stored, .returned r last] → result' = last := by
        intro result' h
        rcases List.mem_append.mp h with h | h
        · cases mem_emitted h
        · simpa using h
      obtain rfl := hlast result hmem
      exact ⟨hlast, hd⟩
  | cancelled hc =>
      rcases List.mem_append.mp hmem with hmem | hmem
      · cases mem_emitted hmem
      · simp at hmem

/-- It has returned or was cancelled, or it awaits a reply and takes any. -/
theorem Life.ends (hl : Life cfg fw as r req s.tasks[r]? own) :
    (∃ result, .returned r result ∈ own) ∨ WasCancelled as r ∨
      (∀ env reply, (step cfg s (.handleTools r env reply)).isSome) ∨
      ∀ env reply, (step cfg s (.handleReply r env reply)).isSome := by
  generalize htask : s.tasks[r]? = t at hl
  cases hl with
  | listing hs =>
      refine .inr (.inr (.inl fun env reply => ?_))
      simp only [step, htask]
      split
      · rfl
      · rfl
  | calling hs ht =>
      refine .inr (.inr (.inr fun env reply => ?_))
      obtain ⟨s', o', hstep⟩ := handleReply_enabled htask env reply
      rw [hstep]
      rfl
  | returned hd => exact .inl ⟨_, List.mem_append_right _ (by simp; rfl)⟩
  | cancelled hc => exact .inr (.inl hc)

end Life

/-- A request that went through has returned an allowing result. -/
theorem WentThrough.returns {resp : ToolResponse}
    (h : (machine cfg).run { fw } as = some (s, o)) (hw : WentThrough cfg fw as r req resp) :
    ∃ result, .returned r result ∈ o ∧ result.decision = .allow := by
  obtain ⟨pre, env, s₁, reply, hat, hp⟩ := hw.reply
  obtain ⟨o₁, s₂, o₂, post, o₃, -, hstep, -, rfl⟩ := hat.step h
  obtain ⟨⟨req', ctx, htask⟩, -⟩ := step_handleReply hstep
  have hend : ended (s₁.fw.pipelineReply cfg env req' ctx reply).1 =
      some (.ok (Firewall.allow req' ctx resp)) := by
    rw [hp.allows ctx]
    rfl
  simp only [System.step, htask, hend, Option.some.injEq, Prod.mk.injEq] at hstep
  obtain ⟨-, rfl⟩ := hstep
  exact ⟨Firewall.handleResult env req' ctx (.ok (Firewall.allow req' ctx resp)),
    by simp [leave], rfl⟩

/-! ## Every request fails closed -/

/-- What becomes of request `r` of a run that ended in `s` with the events
`o`. -/
structure FailsClosed (cfg : Config) (fw : Firewall) (as : List Act) (r : Nat) (req : ToolRequest)
    (s : System) (o : List Event) : Prop where
  contained : ∀ e, .raised r e ∉ o
  /-- it has returned or was cancelled, or it awaits a reply and takes any -/
  ends : (∃ result, .returned r result ∈ o) ∨ WasCancelled as r ∨
    (∀ env reply, (step cfg s (.handleTools r env reply)).isSome) ∨
    ∀ env reply, (step cfg s (.handleReply r env reply)).isSome
  decides : ∀ result, .returned r result ∈ o →
    (∃ resp, WentThrough cfg fw as r req resp ∧ result.decision = .allow ∧
      result.response = some resp) ∨
    (¬ ∃ resp, WentThrough cfg fw as r req resp) ∧ Denies result
  /-- whatever becomes of an audit write, the result is the same -/
  audit : ∀ (t : System) (a a' : Act), a.SameButAudit a' →
    (step cfg t a).map (fun p => p.2.filterMap Event.result) =
      (step cfg t a').map fun p => p.2.filterMap Event.result

/-- **Fail closed.** Whatever the component operations raise and whatever
the upstream does, no exception escapes a request, and its result allows
only when `call_tool` returned a response and every check completed and
passed. -/
theorem fail_closed {pre : List Act} {s₀ : System}
    (h : (machine cfg).run { fw } as = some (s, o))
    (hat : At cfg fw as pre s₀ (.handle env req)) (hlen : s₀.tasks.length = r) :
    FailsClosed cfg fw as r req s o := by
  have hl := life_run h hat hlen
  have hown : ∀ e, e.id = r → (e ∈ eventsOf r o ↔ e ∈ o) := by
    intro e hid
    simp [eventsOf, hid]
  refine ⟨?_, ?_, ?_, ?_⟩
  · intro e he
    exact hl.contained e ((hown _ rfl).mpr he)
  · rcases hl.ends with ⟨result, hmem⟩ | hends
    · exact .inl ⟨result, (hown _ rfl).mp hmem⟩
    · exact .inr hends
  · intro result hmem
    obtain ⟨hunique, hdenies | hallows⟩ := hl.decided ((hown _ rfl).mpr hmem)
    · -- had it gone through, it would have returned an allowing result
      refine .inr ⟨?_, hdenies⟩
      rintro ⟨resp, hw⟩
      obtain ⟨result', hmem', hallow⟩ := hw.returns h
      obtain rfl := hunique result' ((hown _ rfl).mpr hmem')
      cases hallow.symm.trans hdenies.1
    · exact .inl hallows
  · intro t a a' hsame
    have hboth := congrArg (Option.map Prod.snd) (step_sameButAudit cfg t hsame)
    simpa [Option.map_map, Function.comp_def] using hboth

end System

/-- The output scan and the audit write raise. -/
def scanFails : Env where
  fault op := if op = .outputScan ∨ op = .audit then some .other else none

/-- The tool answers two requests; the scan of the first answer raises. -/
def echoFaulty : List Act :=
  echoCall ++ [.handleReply 2 scanFails (.response { text := str "hi" }),
    .handle {} echoRequest, .handleTools 3 {} (.listing [echo]),
    .handleReply 3 {} (.response { text := str "hi" })]

/-- The first request is denied and only the second one went through. -/
theorem fail_closed_echo : ∃ s o result result' resp,
    (System.machine echoConfig).run { fw := .init echoConfig {} } echoFaulty = some (s, o) ∧
      .returned 2 result ∈ o ∧ System.Denies result ∧
      (¬ ∃ resp, System.WentThrough echoConfig (.init echoConfig {}) echoFaulty 2 echoRequest
        resp) ∧
      .returned 3 result' ∈ o ∧ result'.response = some resp ∧
      System.WentThrough echoConfig (.init echoConfig {}) echoFaulty 3 echoRequest resp := by
  have hfirst : ((System.machine echoConfig).run { fw := .init echoConfig {} }
      (echoFaulty.take 4)).any (fun p => decide (p.1.tasks.length = 2)) = true := by
    decide +kernel
  have hsecond : ((System.machine echoConfig).run { fw := .init echoConfig {} }
      (echoFaulty.take 7)).any (fun p => decide (p.1.tasks.length = 3)) = true := by
    decide +kernel
  have hdecisions : ((System.machine echoConfig).run { fw := .init echoConfig {} }
      echoFaulty).any (fun p => decide ((p.2.filterMap Event.result).map
        (fun e => (e.1, e.2.decision)) = [(2, .deny), (3, .allow)])) = true := by
    decide +kernel
  obtain ⟨⟨s₂, o₂⟩, hrun₂, hlen₂⟩ := exists_of_decide hfirst
  obtain ⟨⟨s₃, o₃⟩, hrun₃, hlen₃⟩ := exists_of_decide hsecond
  obtain ⟨⟨s, o⟩, hrun, hdecided⟩ := exists_of_decide hdecisions
  have hreturned : ∀ id decision, (id, decision) ∈ [(2, .deny), (3, .allow)] →
      ∃ result, .returned id result ∈ o ∧ result.decision = decision := by
    intro id decision hmem
    rw [← hdecided] at hmem
    obtain ⟨⟨id', result⟩, hresult, heq⟩ := List.mem_map.mp hmem
    obtain ⟨rfl, rfl⟩ := Prod.mk.inj heq
    obtain ⟨e, he, hresult⟩ := List.mem_filterMap.mp hresult
    cases e with
    | returned id result =>
        obtain ⟨rfl, rfl⟩ := Prod.mk.inj (Option.some.inj hresult)
        exact ⟨result, he, rfl⟩
    | _ => cases hresult
  obtain ⟨result, hmem, hdeny⟩ := hreturned 2 .deny (by simp)
  obtain ⟨result', hmem', hallow⟩ := hreturned 3 .allow (by simp)
  have hclosed := System.fail_closed hrun ⟨_, o₂, rfl, hrun₂⟩ hlen₂
  have hclosed' := System.fail_closed hrun ⟨_, o₃, rfl, hrun₃⟩ hlen₃
  rcases hclosed.decides result hmem with ⟨-, -, h, -⟩ | ⟨hnot, hdenies⟩
  · cases h.symm.trans hdeny
  · rcases hclosed'.decides result' hmem' with ⟨resp, hwent, -, hresp⟩ | ⟨-, h, -⟩
    · exact ⟨s, o, result, result', resp, hrun, hmem, hdenies, hnot, hmem', hresp, hwent⟩
    · cases h.symm.trans hallow

end AgenticFirewall
