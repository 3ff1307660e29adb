import AgenticFirewall.Firewall.BreakerUse
import AgenticFirewall.Properties.Mediation

/-!
# A breaker is never wedged

A `HALF_OPEN` breaker waits for the outcome of the call it let through. In
the running firewall that call is always still out: every way out of the
await records one outcome, so a tool whose calls have all ended is asked
again once its cooldown is over.
-/

namespace AgenticFirewall

open Py Transition

/-- The recording methods of a breaker do not raise: they assign its fields
and read the clock. -/
def Act.Records (a : Act) : Prop := ∀ env, a.RunsIn env → env.fault .recordOutcome = none

namespace System

/-- A request for the tool awaits the reply to its upstream call. -/
def Outstanding (s : System) (tool : Str) : Prop :=
  ∃ (r : Nat) (req : ToolRequest) (ctx : Ctx),
    s.tasks[r]? = some (.handleCall req ctx) ∧ req.tool = tool

/-- The breaker calls of one request. -/
def callsOf (r : Nat) (calls : List BreakerCall) : List BreakerCall :=
  calls.filter fun c => c.id = r

/-- The outcomes recorded for one tool. -/
def outcomesOf (tool : Str) (calls : List BreakerCall) : List BreakerCall :=
  calls.filter fun c => c.tool = tool && c.op.records

/-- What the breakers and the requests look like after a run with these
breaker calls. -/
structure Unwedged (cfg : Config) (s : System) (calls : List BreakerCall) : Prop where
  /-- the calls are all that was done to the breakers -/
  registry : s.fw.breakers = performed (Firewall.init cfg {}).breakers calls
  /-- each answer is the one the breaker gave, after the calls before it -/
  answered : ∀ pre c post, calls = pre ++ c :: post →
    c.answer = ((performed (Firewall.init cfg {}).breakers pre).perform c.tool c.op).1
  /-- an admitted request is still out, or has recorded one outcome -/
  recorded : ∀ pre c post, calls = pre ++ c :: post → c.answer = some true →
    (∃ req ctx, s.tasks[c.id]? = some (.handleCall req ctx) ∧ req.tool = c.tool ∧
        callsOf c.id post = []) ∨
      (s.tasks[c.id]? = some .left ∧
        ∃ d, callsOf c.id post = [d] ∧ d.op.records = true ∧ d.tool = c.tool)
  halfOpen : ∀ tool, (s.fw.breakers.get tool).1.state = .halfOpen → s.Outstanding tool
  /-- with nothing out, the cooldown counts from the last outcome at most -/
  reopens : calls.Pairwise (fun c d => c.op.time ≤ d.op.time) → ∀ tool now,
    ¬ s.Outstanding tool →
    (∀ d, (outcomesOf tool calls).getLast? = some d →
      d.op.time + cfg.policy.circuitBreaker.cooldownSeconds ≤ now) →
    ((s.fw.breakers.get tool).1.allow now).1 = true

variable {cfg : Config} {s s' : System} {a : Act} {o : List Event} {id r : Nat}
  {calls : List BreakerCall}

/-! ## One step -/

/-- A request that has not come to its upstream call. -/
def BeforeCall (t : Option Task) : Prop :=
  t ≠ some .left ∧ ∀ req ctx, t ≠ some (.handleCall req ctx)

/-- What a step does to the breakers and to the requests at their upstream
calls. -/
inductive StepUse (cfg : Config) (s : System) (a : Act) (s' : System) : Prop where
  | quiet (hc : breakerCalls cfg s a = []) (hb : s'.fw.breakers = s.fw.breakers)
      (ht : ∀ r : Nat, s'.tasks[r]? = s.tasks[r]? ∨ BeforeCall s.tasks[r]? ∧
        ∀ req ctx, s'.tasks[r]? ≠ some (.handleCall req ctx))
  | asked (id : Nat) (req : ToolRequest) (ctx : Ctx) (now : ℚ)
      (hrun : s.tasks[id]? = some (.handleTools req ctx))
      (hc : breakerCalls cfg s a =
        [⟨id, req.tool, .allow now, (s.fw.breakers.perform req.tool (.allow now)).1⟩])
      (hb : s'.fw.breakers = (s.fw.breakers.perform req.tool (.allow now)).2)
      (ht : s'.tasks = s.tasks.set id
        (if ((s.fw.breakers.get req.tool).1.allow now).1 = true then Task.handleCall req ctx
          else Task.left))
  | recorded (id : Nat) (req : ToolRequest) (ctx : Ctx) (op : BreakerOp)
      (hrun : s.tasks[id]? = some (.handleCall req ctx)) (hop : op.records = true)
      (hc : breakerCalls cfg s a = [⟨id, req.tool, op, none⟩])
      (hb : s'.fw.breakers = (s.fw.breakers.perform req.tool op).2)
      (ht : s'.tasks = s.tasks.set id .left)

/-- Setting a request that is before its call to anything but the call. -/
theorem before_set {t : Task} (hrun : s.tasks[id]? = some t) (hbefore : BeforeCall (some t))
    {t' : Task} (ht' : ∀ req ctx, t' ≠ .handleCall req ctx) (r : Nat) :
    (s.tasks.set id t')[r]? = s.tasks[r]? ∨ BeforeCall s.tasks[r]? ∧
      ∀ req ctx, (s.tasks.set id t')[r]? ≠ some (.handleCall req ctx) := by
  by_cases heq : id = r
  · subst heq
    right
    rw [hrun, List.getElem?_set_self (List.getElem?_eq_some_iff.mp hrun).1]
    exact ⟨hbefore, fun req ctx h => ht' req ctx (Option.some.inj h)⟩
  · left
    rw [List.getElem?_set_ne heq]

theorem before_append {t : Task} (ht : ∀ req ctx, t ≠ .handleCall req ctx) (r : Nat) :
    (s.tasks ++ [t])[r]? = s.tasks[r]? ∨ BeforeCall s.tasks[r]? ∧
      ∀ req ctx, (s.tasks ++ [t])[r]? ≠ some (.handleCall req ctx) := by
  rcases Nat.lt_trichotomy r s.tasks.length with hlt | rfl | hgt
  · left
    rw [List.getElem?_append_left hlt]
  · right
    rw [List.getElem?_concat_length, List.getElem?_eq_none (Nat.le_refl _)]
    exact ⟨⟨nofun, nofun⟩, fun req ctx h => ht req ctx (Option.some.inj h)⟩
  · left
    have hafter : (s.tasks ++ [t])[r]? = none := by
      apply List.getElem?_eq_none
      rw [List.length_append, List.length_singleton]
      omega
    have hbefore : s.tasks[r]? = none := List.getElem?_eq_none (by omega)
    rw [hafter, hbefore]

theorem handleTools_use {env : Env} {reply : Firewall.ToolsReply}
    (h : step cfg s (.handleTools id env reply) = some (s', o)) :
    StepUse cfg s (.handleTools id env reply) s' := by
  simp only [step] at h
  split at h
  · rename_i req ctx hrun
    have huse := Firewall.pipelineTools_use cfg env req s.fw ctx reply
    have hcalls : breakerCalls cfg s (.handleTools id env reply) =
        (s.fw.toolsOps cfg env req reply).map fun op =>
          ⟨id, req.tool, op, (s.fw.breakers.perform req.tool op).1⟩ := by
      simp only [breakerCalls, hrun]
    generalize s.fw.toolsOps cfg env req reply = ops at huse hcalls
    generalize s.fw.pipelineTools cfg env req ctx reply = out at huse h
    cases huse with
    | notAsked hr =>
        split at h
        · rename_i hended
          exact absurd (ended_eq_none hended) hr
        · cases h
          exact .quiet hcalls (leave_breakers id env req ctx _ _)
            (before_set hrun ⟨by simp, by simp⟩ (by simp))
    | asked hr =>
        have hb : (s.fw.asked env req).breakers =
          (s.fw.breakers.perform req.tool (.allow (env.monotonic .breakerAllow))).2 := rfl
        split at h
        · rename_i hended
          cases h
          have hadmitted : ((s.fw.breakers.get req.tool).1.allow
            (env.monotonic .breakerAllow)).1 = true := hr.mp (ended_eq_none hended)
          exact .asked id req ctx (env.monotonic .breakerAllow) hrun hcalls hb
            (by rw [if_pos hadmitted])
        · rename_i x hended
          cases h
          have hrefused : ¬ ((s.fw.breakers.get req.tool).1.allow
              (env.monotonic .breakerAllow)).1 = true := by
            intro hadmitted
            rw [hr.mpr hadmitted] at hended
            cases hended
          exact .asked id req ctx (env.monotonic .breakerAllow) hrun hcalls
            ((leave_breakers id env req ctx _ _).trans hb) (by rw [if_neg hrefused])
  · cases h

/-- Any reply, or none, records one outcome. -/
theorem replyOps_records {env : Env} (hf : env.fault .recordOutcome = none)
    (reply : Firewall.CallReply) :
    ∃ op, Firewall.replyOps env reply = [op] ∧ op.records = true := by
  have hfailure : ∀ {ops : List BreakerOp}, ops = [.failure (env.monotonic .recordOutcome)] →
      ∃ op, ops = [op] ∧ op.records = true :=
    fun h => ⟨_, h, rfl⟩
  cases reply with
  | response r =>
      by_cases hr : r.isError = true
      · exact hfailure (by simp [Firewall.replyOps, hf, hr])
      · exact ⟨.success (env.monotonic .recordOutcome), by simp [Firewall.replyOps, hf, hr], rfl⟩
  | raised => exact hfailure (by simp [Firewall.replyOps, hf])
  | timedOut => exact hfailure (by simp [Firewall.replyOps, hf])
  | cancelled => exact hfailure (by simp [Firewall.replyOps, hf])

theorem handleReply_use {env : Env} {reply : Firewall.CallReply}
    (hf : env.fault .recordOutcome = none)
    (h : step cfg s (.handleReply id env reply) = some (s', o)) :
    StepUse cfg s (.handleReply id env reply) s' := by
  simp only [step] at h
  split at h
  · rename_i req ctx hrun
    obtain ⟨op, hops, hrec⟩ := replyOps_records hf reply
    have hfw := Firewall.pipelineReply_breakers cfg env req s.fw ctx reply
    rw [hops] at hfw
    have hcalls : breakerCalls cfg s (.handleReply id env reply) = [⟨id, req.tool, op, none⟩] := by
      simp only [breakerCalls, hrun, hops]
      cases op with
      | allow now => cases hrec
      | success now => rfl
      | failure now => rfl
    split at h
    · cases h
      exact .recorded id req ctx op hrun hrec hcalls hfw rfl
    · cases h
      exact .recorded id req ctx op hrun hrec hcalls
        ((leave_breakers id env req ctx _ _).trans hfw) rfl
  · cases h

theorem step_use (hf : a.Records) (h : step cfg s a = some (s', o)) : StepUse cfg s a s' := by
  have hother : (∀ id env reply, a ≠ .handleTools id env reply) →
      (∀ id env reply, a ≠ .handleReply id env reply) → s'.fw.breakers = s.fw.breakers →
      StepUse cfg s a s' := by
    intro htools hreply hb
    have hc : breakerCalls cfg s a = [] := by
      unfold breakerCalls
      split
      · exact absurd rfl (htools _ _ _)
      · exact absurd rfl (hreply _ _ _)
      · rfl
    refine .quiet hc hb ?_
    cases step_shape h with
    | opened t ha ht hnew =>
        rw [ht]
        rcases hnew with ⟨rfl, -⟩ | ⟨hstart, -⟩
        · exact before_append nofun
        · exact before_append fun req ctx ht => by
            subst ht
            cases hstart
    | moved id t t' ha hid hrun hleft ht hnew =>
        rw [ht]
        have hbefore : BeforeCall (some t) := by
          refine ⟨fun h => hleft (Option.some.inj h), fun req ctx hcall => ?_⟩
          rw [hcall] at hrun
          obtain ⟨env, reply, rfl⟩ := step_handleCall h hid hrun
          exact hreply _ _ _ rfl
        rcases hnew with ⟨rfl, -⟩ | ⟨env, tools, req, ctx, rfl, -⟩
        · exact before_set hrun hbefore nofun
        · exact absurd rfl (htools _ _ _)
    | outside ha hid ht hdb ho => exact fun r => .inl (by rw [ht])
  cases a with
  | handleTools id env reply => exact handleTools_use h
  | handleReply id env reply => exact handleReply_use (hf env rfl) h
  | _ =>
      refine hother nofun nofun ?_
      rcases step_breakers h with ⟨_, _, _, ha⟩ | ⟨_, _, _, ha⟩ | hb
      · cases ha
      · cases ha
      · exact hb

/-! ## The ledger of a run -/

/-- The breaker calls of request `r`, by where it stands. -/
inductive Accounted (r : Nat) : Option Task → List BreakerCall → Prop where
  | before {t : Option Task} (h : BeforeCall t) : Accounted r t []
  | early : Accounted r (some .left) []
  | refused {tool : Str} {now : ℚ} :
      Accounted r (some .left) [⟨r, tool, .allow now, some false⟩]
  | out {req : ToolRequest} {ctx : Ctx} {now : ℚ} :
      Accounted r (some (.handleCall req ctx)) [⟨r, req.tool, .allow now, some true⟩]
  | done {tool : Str} {now : ℚ} {op : BreakerOp} (h : op.records = true) :
      Accounted r (some .left) [⟨r, tool, .allow now, some true⟩, ⟨r, tool, op, none⟩]

/-- What every run keeps. -/
structure Ledger (cooldown : ℚ) (s : System) (calls : List BreakerCall) : Prop where
  requests : ∀ r, Accounted r s.tasks[r]? (callsOf r calls)
  halfOpen : ∀ tool, (s.fw.breakers.get tool).1.state = .halfOpen → s.Outstanding tool
  /-- an `OPEN` breaker counts its cooldown from a recorded outcome -/
  opened : ∀ tool, (s.fw.breakers.get tool).1.state = .opened →
    ∃ d ∈ outcomesOf tool calls, d.op.time = (s.fw.breakers.get tool).1.openedAt
  cooldown : ∀ tool, (s.fw.breakers.get tool).1.cooldown = cooldown

section Ledger

variable {cooldown : ℚ}

theorem callsOf_concat (r : Nat) (calls : List BreakerCall) (c : BreakerCall) :
    callsOf r (calls ++ [c]) = callsOf r calls ++ if c.id = r then [c] else [] := by
  unfold callsOf
  rw [List.filter_append]
  by_cases h : c.id = r
  · simp [h]
  · simp [h]

theorem outcomesOf_append (tool : Str) (calls more : List BreakerCall) :
    outcomesOf tool (calls ++ more) = outcomesOf tool calls ++ outcomesOf tool more := by
  simp [outcomesOf]

/-- The request whose call is out keeps it out while others move. -/
theorem Outstanding.of_eq {tool : Str} (h : s.Outstanding tool)
    (hsame : ∀ (r : Nat) req ctx, s.tasks[r]? = some (.handleCall req ctx) → req.tool = tool →
      s'.tasks[r]? = s.tasks[r]?) : s'.Outstanding tool := by
  obtain ⟨r, req, ctx, hrun, htool⟩ := h
  exact ⟨r, req, ctx, (hsame r req ctx hrun htool).trans hrun, htool⟩

/-- One more breaker call, of the request that moved. -/
theorem requests_moved (hi : ∀ r, Accounted r s.tasks[r]? (callsOf r calls)) {task task' : Task}
    {c : BreakerCall} (hrun : s.tasks[id]? = some task) (hid : c.id = id)
    (hmoved : ∀ own, Accounted id (some task) own → Accounted id (some task') (own ++ [c]))
    (r : Nat) : Accounted r (s.tasks.set id task')[r]? (callsOf r (calls ++ [c])) := by
  rw [callsOf_concat, hid]
  by_cases heq : id = r
  · subst heq
    rw [if_pos rfl, List.getElem?_set_self (List.getElem?_eq_some_iff.mp hrun).1]
    exact hmoved _ (hrun ▸ hi id)
  · rw [if_neg heq, List.append_nil, List.getElem?_set_ne heq]
    exact hi r

theorem requests_step (hi : ∀ r, Accounted r s.tasks[r]? (callsOf r calls))
    (hu : StepUse cfg s a s') (r : Nat) :
    Accounted r s'.tasks[r]? (callsOf r (calls ++ breakerCalls cfg s a)) := by
  have hr := hi r
  cases hu with
  | quiet hc hb ht =>
      rw [hc, List.append_nil]
      rcases ht r with hsame | ⟨hbefore, hcall⟩
      · rw [hsame]
        exact hr
      · generalize s.tasks[r]? = t at hr hbefore
        generalize callsOf r calls = own at hr
        cases hr with
        | before h =>
            by_cases hleft : s'.tasks[r]? = some .left
            · rw [hleft]
              exact .early
            · exact .before ⟨hleft, hcall⟩
        | early => exact absurd rfl hbefore.1
        | refused => exact absurd rfl hbefore.1
        | out => exact absurd rfl (hbefore.2 _ _)
        | done h => exact absurd rfl hbefore.1
  | asked id req ctx now hrun hc hb ht =>
      rw [hc, ht]
      refine requests_moved hi hrun rfl (fun own hown => ?_) r
      cases hown with
      | before h =>
          have hans : (s.fw.breakers.perform req.tool (.allow now)).1 =
            some ((s.fw.breakers.get req.tool).1.allow now).1 := rfl
          rw [hans]
          cases ((s.fw.breakers.get req.tool).1.allow now).1 with
          | true => exact .out
          | false => exact .refused
  | recorded id req ctx op hrun hop hc hb ht =>
      rw [hc, ht]
      refine requests_moved hi hrun rfl (fun own hown => ?_) r
      cases hown with
      | before h => exact absurd rfl (h.2 _ _)
      | out => exact .done hop

theorem halfOpen_step
    (hi : ∀ tool, (s.fw.breakers.get tool).1.state = .halfOpen → s.Outstanding tool)
    (hu : StepUse cfg s a s') (tool : Str)
    (h : (s'.fw.breakers.get tool).1.state = .halfOpen) : s'.Outstanding tool := by
  cases hu with
  | quiet hc hb ht =>
      rw [hb] at h
      refine (hi tool h).of_eq fun r req ctx hrun _ => ?_
      rcases ht r with hsame | ⟨hbefore, -⟩
      · exact hsame
      · exact absurd hrun (hbefore.2 req ctx)
  | asked id req ctx now hrun hc hb ht =>
      have hlt := (List.getElem?_eq_some_iff.mp hrun).1
      have hkeep : (s.fw.breakers.get tool).1.state = .halfOpen → s'.Outstanding tool := by
        intro hs
        refine (hi tool hs).of_eq fun r req' ctx' hrun' _ => ?_
        have hne : id ≠ r := by
          intro heq
          rw [← heq, hrun] at hrun'
          cases hrun'
        rw [ht, List.getElem?_set_ne hne]
      rw [hb, CircuitBreakerRegistry.get_perform] at h
      split at h
      · rename_i heq
        subst heq
        by_cases hadmitted : ((s.fw.breakers.get req.tool).1.allow now).1 = true
        · refine ⟨id, req, ctx, ?_, rfl⟩
          rw [ht, if_pos hadmitted, List.getElem?_set_self hlt]
        · -- a refusal leaves the breaker as it was
          rw [Bool.not_eq_true] at hadmitted
          have hsame : ((s.fw.breakers.get req.tool).1.perform (.allow now)).2 =
            (s.fw.breakers.get req.tool).1 := CircuitBreaker.allow_refused hadmitted
          rw [hsame] at h
          exact hkeep h
      · exact hkeep h
  | recorded id req ctx op hrun hop hc hb ht =>
      rw [hb, CircuitBreakerRegistry.get_perform] at h
      split at h
      · exact absurd h (CircuitBreaker.perform_records hop)
      · rename_i hother
        refine (hi tool h).of_eq fun r req' ctx' hrun' htool => ?_
        have hne : id ≠ r := by
          intro heq
          rw [← heq, hrun] at hrun'
          cases hrun'
          exact hother htool
        rw [ht, List.getElem?_set_ne hne]

/-- A call leaves an `OPEN` breaker with the time it had, unless it trips
it. -/
theorem opened_perform {cb : CircuitBreaker} {op : BreakerOp}
    (h : (cb.perform op).2.state = .opened) :
    (cb.state = .opened ∧ (cb.perform op).2.openedAt = cb.openedAt) ∨
      op.records = true ∧ (cb.perform op).2.openedAt = op.time := by
  cases op with
  | allow now =>
      left
      refine ⟨CircuitBreaker.allow_opened h, ?_⟩
      change (cb.allow now).2.openedAt = cb.openedAt
      unfold CircuitBreaker.allow
      split
      · rfl
      · split <;> rfl
      · split <;> rfl
  | success now => cases h
  | failure now =>
      by_cases hs : cb.state = .halfOpen
      · right
        exact ⟨rfl, by rw [CircuitBreaker.perform, CircuitBreaker.recordFailure_halfOpen hs]; rfl⟩
      · by_cases hf : cb.threshold ≤ cb.failures + 1
        · right
          refine ⟨rfl, ?_⟩
          rw [CircuitBreaker.perform, CircuitBreaker.recordFailure_reaches hs hf]
          rfl
        · left
          have hbelow : cb.recordFailure now = { cb with failures := cb.failures + 1 } :=
            CircuitBreaker.recordFailure_below hs (Nat.not_le.mp hf)
          rw [CircuitBreaker.perform, hbelow] at h ⊢
          exact ⟨h, rfl⟩

theorem opened_step
    (hi : ∀ tool, (s.fw.breakers.get tool).1.state = .opened →
      ∃ d ∈ outcomesOf tool calls, d.op.time = (s.fw.breakers.get tool).1.openedAt)
    (hu : StepUse cfg s a s') (tool : Str)
    (h : (s'.fw.breakers.get tool).1.state = .opened) :
    ∃ d ∈ outcomesOf tool (calls ++ breakerCalls cfg s a),
      d.op.time = (s'.fw.breakers.get tool).1.openedAt := by
  rw [outcomesOf_append]
  have hold : (s.fw.breakers.get tool).1.state = .opened →
      (s'.fw.breakers.get tool).1.openedAt = (s.fw.breakers.get tool).1.openedAt →
      ∃ d ∈ outcomesOf tool calls ++ outcomesOf tool (breakerCalls cfg s a),
        d.op.time = (s'.fw.breakers.get tool).1.openedAt := by
    intro hs hsame
    obtain ⟨d, hd, htime⟩ := hi tool hs
    exact ⟨d, List.mem_append_left _ hd, htime.trans hsame.symm⟩
  -- one call on one breaker, with the record it leaves
  have hcall : ∀ (c : BreakerCall), breakerCalls cfg s a = [c] →
      s'.fw.breakers = (s.fw.breakers.perform c.tool c.op).2 →
      ∃ d ∈ outcomesOf tool calls ++ outcomesOf tool (breakerCalls cfg s a),
        d.op.time = (s'.fw.breakers.get tool).1.openedAt := by
    intro c hc hb
    by_cases heq : c.tool = tool
    · subst heq
      rw [hb, CircuitBreakerRegistry.get_perform_self] at h hold
      rcases opened_perform h with ⟨hs, hsame⟩ | ⟨hrec, htime⟩
      · rw [hb, CircuitBreakerRegistry.get_perform_self]
        exact hold hs hsame
      · rw [hb, CircuitBreakerRegistry.get_perform_self, hc]
        exact ⟨c, List.mem_append_right _ (by simp [outcomesOf, hrec]), htime.symm⟩
    · rw [hb, CircuitBreakerRegistry.get_perform_ne heq] at h hold ⊢
      exact hold h rfl
  cases hu with
  | quiet hc hb ht =>
      rw [hb] at h hold ⊢
      exact hold h rfl
  | asked id req ctx now hrun hc hb ht => exact hcall _ hc hb
  | recorded id req ctx op hrun hop hc hb ht => exact hcall _ hc hb

theorem cooldown_step (hi : ∀ tool, (s.fw.breakers.get tool).1.cooldown = cooldown)
    (hu : StepUse cfg s a s') (tool : Str) :
    (s'.fw.breakers.get tool).1.cooldown = cooldown := by
  have hcall : ∀ (key : Str) (op : BreakerOp),
      s'.fw.breakers = (s.fw.breakers.perform key op).2 →
      (s'.fw.breakers.get tool).1.cooldown = cooldown := by
    intro key op hb
    rw [hb, CircuitBreakerRegistry.get_perform]
    split
    · exact CircuitBreaker.perform_cooldown.trans (hi key)
    · exact hi tool
  cases hu with
  | quiet hc hb ht =>
      rw [hb]
      exact hi tool
  | asked id req ctx now hrun hc hb ht => exact hcall _ _ hb
  | recorded id req ctx op hrun hop hc hb ht => exact hcall _ _ hb

theorem ledger_step (hi : Ledger cooldown s calls) (hu : StepUse cfg s a s') :
    Ledger cooldown s' (calls ++ breakerCalls cfg s a) where
  requests := requests_step hi.requests hu
  halfOpen := halfOpen_step hi.halfOpen hu
  opened := opened_step hi.opened hu
  cooldown := cooldown_step hi.cooldown hu

theorem ledger_init (cfg : Config) (db : Database) :
    Ledger cfg.policy.circuitBreaker.cooldownSeconds { fw := .init cfg db } [] where
  requests := fun _ => .before ⟨nofun, nofun⟩
  halfOpen := fun _ h => by cases h
  opened := fun _ h => by cases h
  cooldown := fun _ => rfl

theorem ledger_run {db : Database} {as : List Act} (hf : ∀ a ∈ as, a.Records)
    (h : (breakerMachine cfg).run { fw := .init cfg db } as = some (s, calls)) :
    Ledger cfg.policy.circuitBreaker.cooldownSeconds s calls := by
  refine (breakerMachine cfg).run_history
    (motive := fun as s calls => (∀ a ∈ as, a.Records) →
      Ledger cfg.policy.circuitBreaker.cooldownSeconds s calls)
    (fun _ => ledger_init cfg db) ?_ h hf
  intro as s₁ calls₁ a s₂ calls₂ _ ih hstep hall
  obtain ⟨⟨o, htaken⟩, rfl⟩ := (machine cfg).observe_step_eq_some.mp hstep
  have hledger := ih fun b hb => hall b (List.mem_append_left _ hb)
  exact ledger_step hledger (step_use (hall a (by simp)) htaken)

/-! ## Never wedged -/

/-- The calls of a request around an admitted one. -/
theorem Accounted.admitted {t : Option Task} {pre post : List BreakerCall} {c : BreakerCall}
    (h : Accounted r t (pre ++ c :: post)) (hc : c.answer = some true) :
    (∃ req ctx, t = some (.handleCall req ctx) ∧ req.tool = c.tool ∧ post = []) ∨
      (t = some .left ∧ ∃ d, post = [d] ∧ d.op.records = true ∧ d.tool = c.tool) := by
  generalize hown : pre ++ c :: post = own at h
  cases h with
  | before h => simp at hown
  | early => simp at hown
  | refused =>
      obtain ⟨rfl, rfl, rfl⟩ : pre = [] ∧ c = _ ∧ post = [] := by
        simpa [List.append_eq_singleton_iff] using hown
      cases hc
  | out =>
      rename_i req ctx now
      obtain ⟨rfl, rfl, rfl⟩ : pre = [] ∧ c = _ ∧ post = [] := by
        simpa [List.append_eq_singleton_iff] using hown
      exact .inl ⟨req, ctx, rfl, rfl, rfl⟩
  | done hrec =>
      rename_i tool now op
      cases pre with
      | nil =>
          obtain ⟨rfl, rfl⟩ := List.cons.inj hown
          exact .inr ⟨rfl, _, rfl, hrec, rfl⟩
      | cons d pre =>
          obtain ⟨-, hrest⟩ := List.cons.inj hown
          obtain ⟨rfl, rfl, rfl⟩ : pre = [] ∧ c = _ ∧ post = [] := by
            simpa [List.append_eq_singleton_iff] using hrest
          cases hc

theorem Ledger.reopens (hi : Ledger cooldown s calls)
    (hclock : calls.Pairwise fun c d => c.op.time ≤ d.op.time) (tool : Str) (now : ℚ)
    (hnone : ¬ s.Outstanding tool)
    (hlast : ∀ d, (outcomesOf tool calls).getLast? = some d → d.op.time + cooldown ≤ now) :
    ((s.fw.breakers.get tool).1.allow now).1 = true := by
  cases hs : (s.fw.breakers.get tool).1.state with
  | closed => rw [CircuitBreaker.allow_closed hs]
  | halfOpen => exact absurd (hi.halfOpen tool hs) hnone
  | opened =>
      obtain ⟨d, hd, htime⟩ := hi.opened tool hs
      -- the trip is no later than the last outcome
      obtain ⟨pre, last, hsplit⟩ : ∃ pre last, outcomesOf tool calls = pre ++ [last] := by
        rcases List.eq_nil_or_concat (outcomesOf tool calls) with hnil | ⟨pre, last, hsplit⟩
        · rw [hnil] at hd
          cases hd
        · exact ⟨pre, last, by simpa using hsplit⟩
      have hle : d.op.time ≤ last.op.time := by
        have hsorted := hclock.sublist (List.filter_sublist
          (p := fun c : BreakerCall => c.tool = tool && c.op.records))
        change (outcomesOf tool calls).Pairwise _ at hsorted
        rw [hsplit] at hsorted hd
        rcases List.mem_append.mp hd with hd | hd
        · exact (List.pairwise_append.mp hsorted).2.2 d hd last (by simp)
        · rw [List.mem_singleton.mp hd]
      have hover := hlast last (by rw [hsplit]; simp)
      rw [CircuitBreaker.allow_opened_probe hs]
      rw [← htime, hi.cooldown tool]
      exact (add_le_add_left hle cooldown).trans hover

/-- **Never wedged.** In every run from a new firewall, whatever the calls
and however they end, the breakers are what the recorded calls make of them:
every admitted request records exactly one outcome on its tool or is still
out; a breaker is `HALF_OPEN` only while a request for its tool is out; and
with none out the tool is admitted again when its cooldown has passed since
the last outcome. -/
theorem never_wedged {db : Database} {as : List Act} (hf : ∀ a ∈ as, a.Records)
    (h : (breakerMachine cfg).run { fw := .init cfg db } as = some (s, calls)) :
    Unwedged cfg s calls := by
  have hledger := ledger_run hf h
  obtain ⟨hregistry, hanswered⟩ := run_calls h
  refine ⟨hregistry, hanswered, ?_, hledger.halfOpen, hledger.reopens⟩
  intro pre c post hcalls hc
  have hown : callsOf c.id calls = callsOf c.id pre ++ c :: callsOf c.id post := by
    rw [hcalls]
    simp [callsOf]
  exact (hown ▸ hledger.requests c.id).admitted hc

end Ledger

end System

/-- The probe fails too. -/
def pairProbed : List Act := pairProbing ++ [.handleReply 5 (.reading 41) .raised]

theorem pairProbed_records : ∀ a ∈ pairProbed, a.Records := by
  intro a ha env hin
  have hplain : ∀ a ∈ pairProbed, ∀ env, a.RunsIn env → env.fault = fun _ => none := by
    simp [pairProbed, pairProbing, echoSetup, Act.RunsIn, Env.reading]
  rw [hplain a ha env hin]

/-- `echo` trips, is refused, is probed and trips again: the probe is out
while the breaker is `HALF_OPEN`, and 30 seconds after its failure the tool is
admitted. -/
theorem never_wedged_echo : ∃ s calls s' calls',
    (System.breakerMachine pairConfig).run { fw := .init pairConfig {} } pairProbing =
        some (s, calls) ∧
      (s.fw.breakers.get (str "echo")).1.state = .halfOpen ∧ s.Outstanding (str "echo") ∧
      (System.breakerMachine pairConfig).run { fw := .init pairConfig {} } pairProbed =
        some (s', calls') ∧
      calls'.map (fun c => (c.id, c.op.time, c.answer)) =
        [(2, 0, some true), (2, 0, none), (3, 10, some false), (4, 10, some true), (4, 11, none),
          (5, 40, some true), (5, 41, none)] ∧
      System.Unwedged pairConfig s' calls' ∧
      (s'.fw.breakers.get (str "echo")).1.state = .opened ∧
      ((s'.fw.breakers.get (str "echo")).1.allow 71).1 = true := by
  have hprobing : ((System.breakerMachine pairConfig).run { fw := .init pairConfig {} }
      pairProbing).any
        (fun p => decide ((p.1.fw.breakers.get (str "echo")).1.state = .halfOpen)) = true := by
    decide +kernel
  have hprobed : ((System.breakerMachine pairConfig).run { fw := .init pairConfig {} }
      pairProbed).any (fun p => decide (
        p.2.map (fun c => (c.id, c.op.time, c.answer)) =
            [(2, 0, some true), (2, 0, none), (3, 10, some false), (4, 10, some true),
              (4, 11, none), (5, 40, some true), (5, 41, none)] ∧
          (p.1.fw.breakers.get (str "echo")).1.state = .opened ∧
          p.1.tasks.any Task.calling = false ∧
          (System.outcomesOf (str "echo") p.2).getLast?.map (·.op.time) = some 41)) = true := by
    decide +kernel
  obtain ⟨⟨s, calls⟩, hrun, hhalf⟩ := exists_of_decide hprobing
  obtain ⟨⟨s', calls'⟩, hrun', hcalls, hopened, hnone, hlast⟩ := exists_of_decide hprobed
  have hbefore := System.never_wedged
    (fun a ha => pairProbed_records a (List.mem_append_left _ ha)) hrun
  have hafter := System.never_wedged pairProbed_records hrun'
  refine ⟨s, calls, s', calls', hrun, hhalf, hbefore.halfOpen _ hhalf, hrun', hcalls, hafter,
    hopened, hafter.reopens ?_ _ _ ?_ ?_⟩
  · have htimes : (calls'.map fun c => (c.id, c.op.time, c.answer)).Pairwise
        fun c d => c.2.1 ≤ d.2.1 := by
      rw [hcalls]
      decide +kernel
    simpa only [List.pairwise_map] using htimes
  · rintro ⟨r, req, ctx, htask, -⟩
    have hcalling := List.any_eq_false.mp hnone _ (List.mem_of_getElem? htask)
    exact hcalling rfl
  · intro d hd
    have htime : d.op.time = 41 := by
      simpa [hd] using hlast
    rw [htime]
    decide +kernel

end AgenticFirewall
