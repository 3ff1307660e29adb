import AgenticFirewall.Answers
import AgenticFirewall.Deployment
import AgenticFirewall.Properties.Mediation

/-!
# The server's log

What reaches a server behind the firewall: the log of the server is the list
of the calls the firewall let through, and an `ALLOW` shows what the tool
answered to one of them.
-/

namespace AgenticFirewall

open Py Transition

namespace Deployment

variable {cfg : Config} {d d' : Deployment} {m : Move} {o : List Output} {id r : Nat} {task : Task}
  {a : Act}

/-! ## One step -/

/-- Why a call leaves its await, and what the firewall does then. -/
inductive Leaves (d : Deployment) (id : Nat) (task : Task) : Move → Act → Prop where
  | resume {envs : Nat → Env} {answer : Answer} {a : Act} (hans : d.answers id = some answer)
      (h : resumed id envs task answer = some a) : Leaves d id task (.resume id envs) a
  | fails {envs : Nat → Env} {timedOut : Bool} {a : Act}
      (h : failed id envs timedOut task = some a) : Leaves d id task (.fails id envs timedOut) a
  | cancel {env : Env} {a : Act} (h : cancelled id env task = some a) :
      Leaves d id task (.cancel id env) a

theorem Leaves.target (h : Leaves d id task m a) :
    a.target = some id ∧ a.opens = false ∧ task ≠ .left := by
  cases h with
  | resume hans h =>
      unfold resumed at h
      split at h <;> cases h <;> simp [Act.target, Act.opens]
  | fails h =>
      unfold failed at h
      split at h <;> cases h <;> simp [Act.target, Act.opens]
  | cancel h =>
      unfold cancelled at h
      split at h <;> cases h <;> simp [Act.target, Act.opens]

/-- The server is changed from outside. -/
def Move.changesServer : Move → Bool
  | .register .. | .mutate .. | .setHandler .. => true
  | _ => false

inductive Step (cfg : Config) (d : Deployment) : Move → Deployment → List Output → Prop where
  | entered {a : Act} {sys : System} {events : List Event} (ha : a.target = none)
      (h : System.step cfg d.sys a = some (sys, events)) :
      Step cfg d (.enter a) { d with sys } (events.map .firewall)
  | listed {id : Nat} {task : Task} (htask : d.sys.tasks[id]? = some task)
      (hans : d.answers id = none) (hlist : awaitsTools task = true) :
      Step cfg d (.lists id)
        { d with answers := Function.update d.answers id (some (.listing d.server.listTools)) } []
  | ran {id : Nat} {req : ToolRequest} {ctx : Ctx}
      (htask : d.sys.tasks[id]? = some (.handleCall req ctx)) (hans : d.answers id = none) :
      Step cfg d (.runs id)
        { d with
          server := (d.server.callTool req.tool req.arguments).2
          answers := Function.update d.answers id
            (some (.response (d.server.response req.tool req.arguments))) }
        [.reached id req.tool req.arguments]
  | left {m : Move} {id : Nat} {task : Task} {a : Act} {sys : System} {events : List Event}
      (htask : d.sys.tasks[id]? = some task) (hleave : Leaves d id task m a)
      (h : System.step cfg d.sys a = some (sys, events)) :
      Step cfg d m { d with sys, answers := Function.update d.answers id none }
        (events.map .firewall)
  | changed {m : Move} {server : DemoToolServer} (hm : m.changesServer = true)
      (hlog : server.callLog = d.server.callLog) : Step cfg d m { d with server } []

theorem step_left {x : Option Act} (htask : d.sys.tasks[id]? = some task)
    (hleave : ∀ a, x = some a → Leaves d id task m a) (h : d.leaves cfg id x = some (d', o)) :
    Step cfg d m d' o := by
  unfold leaves at h
  split at h
  · cases h
  · rename_i a
    split at h
    · cases h
    · rename_i hstep
      cases h
      exact .left htask (hleave a rfl) hstep

/-- **What a step can do.** -/
theorem step_step (h : step cfg d m = some (d', o)) : Step cfg d m d' o := by
  cases m with
  | enter a =>
      simp only [step] at h
      split at h
      · cases h
      · rename_i ha
        split at h
        · cases h
        · rename_i hstep
          cases h
          exact .entered ha hstep
  | lists id =>
      simp only [step] at h
      split at h
      · rename_i task htask hans
        split at h
        · rename_i hlist
          cases h
          exact .listed htask hans hlist
        · cases h
      · cases h
  | runs id =>
      simp only [step] at h
      split at h
      · rename_i req ctx htask hans
        cases h
        exact .ran htask hans
      · cases h
  | resume id envs =>
      simp only [step] at h
      split at h
      · rename_i task answer htask hans
        exact step_left htask (fun a ha => .resume hans ha) h
      · cases h
  | fails id envs timedOut =>
      simp only [step] at h
      split at h
      · rename_i task htask
        exact step_left htask (fun a ha => .fails ha) h
      · cases h
  | cancel id env =>
      simp only [step] at h
      split at h
      · rename_i task htask
        exact step_left htask (fun a ha => .cancel ha) h
      · cases h
  | register definition handler =>
      cases h
      exact .changed rfl rfl
  | mutate name changes =>
      simp only [step] at h
      split at h
      · rename_i server hserver
        cases h
        refine .changed rfl ?_
        unfold DemoToolServer.mutate at hserver
        split at hserver
        · cases hserver
        · cases hserver
          rfl
      · cases h
        exact .changed rfl rfl
  | setHandler name handler =>
      cases h
      exact .changed rfl rfl

/-! ## The firewall in it -/

/-- The firewall's part of an output. -/
def Output.event? : Output → Option Event
  | .firewall e => some e
  | .reached .. => none

@[simp] theorem filterMap_firewall (events : List Event) :
    (events.map Output.firewall).filterMap Output.event? = events := by
  simp [List.filterMap_map, Function.comp_def, Output.event?]

theorem mem_filterMap_event {e : Event} : e ∈ o.filterMap Output.event? ↔ .firewall e ∈ o := by
  rw [List.mem_filterMap]
  constructor
  · rintro ⟨x, hx, he⟩
    cases x with
    | firewall e' =>
        cases he
        exact hx
    | reached id name args => cases he
  · intro h
    exact ⟨_, h, rfl⟩

/-- **The deployment runs the firewall**: whatever the server does, it takes
steps the firewall takes on its own. -/
theorem refines_firewall (cfg : Config) :
    (machine cfg).Refines (System.machine cfg) sys Output.event? := by
  intro d m d' o hstep
  cases step_step hstep with
  | entered ha h =>
      rw [filterMap_firewall]
      exact ⟨_, (System.machine cfg).run_one h⟩
  | listed htask hans hlist => exact ⟨[], rfl⟩
  | ran htask hans => exact ⟨[], rfl⟩
  | left htask hleave h =>
      rw [filterMap_firewall]
      exact ⟨_, (System.machine cfg).run_one h⟩
  | changed hm hlog => exact ⟨[], rfl⟩

/-- An entry leaves the calls that run where they are. -/
theorem task_entered {s s' : System} {events : List Event} (ha : a.target = none)
    (h : System.step cfg s a = some (s', events)) (hr : s.tasks[r]? = some task) :
    s'.tasks[r]? = some task := by
  have hlt := (List.getElem?_eq_some_iff.mp hr).1
  have hne : System.callOf s a ≠ some r := by
    unfold System.callOf
    split
    · simp only [ne_eq, Option.some.injEq]
      omega
    · simp [ha]
  rw [(System.step_frame h hne).1, hr]

/-- So does a call that leaves its await, with the others. -/
theorem task_left {s s' : System} {events : List Event} (hleave : Leaves d id task m a)
    (h : System.step cfg s a = some (s', events)) (hr : r ≠ id) :
    s'.tasks[r]? = s.tasks[r]? := by
  obtain ⟨htarget, hopens, -⟩ := hleave.target
  have hne : System.callOf s a ≠ some r := by
    simp only [System.callOf, hopens, htarget]
    simpa using hr.symm
  exact (System.step_frame h hne).1

/-- A request whose call has been issued is done when it leaves its await. -/
theorem left_of_handleCall {s s' : System} {events : List Event} {req : ToolRequest} {ctx : Ctx}
    (h : System.step cfg s a = some (s', events)) (htarget : a.target = some id)
    (htask : s.tasks[id]? = some (.handleCall req ctx)) : s'.tasks[id]? = some .left := by
  obtain ⟨env, reply, rfl⟩ := System.step_handleCall h htarget htask
  have hlt := (List.getElem?_eq_some_iff.mp htask).1
  simp only [System.step, htask] at h
  split at h
  · cases h
    exact List.getElem?_set_self hlt
  · cases h
    exact List.getElem?_set_self hlt

/-! ## What waits for a call -/

/-- The answer is one the call awaits. -/
def fits : Answer → Task → Bool
  | .listing _, task => awaitsTools task
  | .response _, .handleCall .. => true
  | .response _, _ => false

/-- Whatever the upstream has worked out is for a call that awaits it. -/
def Waits (d : Deployment) : Prop :=
  ∀ id answer, d.answers id = some answer →
    ∃ task, d.sys.tasks[id]? = some task ∧ fits answer task = true

theorem fits_response {r : ToolResponse} (h : fits (.response r) task = true) :
    ∃ req ctx, task = .handleCall req ctx := by
  unfold fits at h
  split at h
  · rename_i heq
    cases heq
  · exact ⟨_, _, rfl⟩
  · cases h

theorem waits_step (hw : Waits d) (h : Step cfg d m d' o) : Waits d' := by
  intro i answer hans
  cases h with
  | entered ha hstep =>
      obtain ⟨task, htask, hfits⟩ := hw i answer hans
      exact ⟨task, task_entered ha hstep htask, hfits⟩
  | listed htask hnone hlist =>
      rename_i id task
      by_cases hi : i = id
      · subst hi
        simp only [Function.update_self, Option.some.injEq] at hans
        subst hans
        exact ⟨task, htask, hlist⟩
      · simp only [Function.update_of_ne hi] at hans
        exact hw i answer hans
  | ran htask hnone =>
      rename_i id req ctx
      by_cases hi : i = id
      · subst hi
        simp only [Function.update_self, Option.some.injEq] at hans
        subst hans
        exact ⟨.handleCall req ctx, htask, rfl⟩
      · simp only [Function.update_of_ne hi] at hans
        exact hw i answer hans
  | left htask hleave hstep =>
      rename_i id task a sys events
      by_cases hi : i = id
      · subst hi
        simp at hans
      · simp only [Function.update_of_ne hi] at hans
        obtain ⟨task', htask', hfits⟩ := hw i answer hans
        exact ⟨task', (task_left hleave hstep hi).trans htask', hfits⟩
  | changed hm hlog => exact hw i answer hans

theorem run_waits {ms : List Move} (hw : Waits d) (h : (machine cfg).run d ms = some (d', o)) :
    Waits d' :=
  (machine cfg).run_invariant (fun _ _ _ _ hd hstep => waits_step hd (step_step hstep)) hw h

/-! ## What reaches the server -/

/-- The entry of the log an output stands for. -/
def Output.logged : Output → Option (Str × Obj)
  | .firewall _ => none
  | .reached _ name args => some (name, args)

def Output.reachedBy (id : Nat) : Output → Bool
  | .firewall _ => false
  | .reached i _ _ => i == id

/-- The calls that reached the server are those in its log. -/
theorem run_log {ms : List Move} (h : (machine cfg).run d ms = some (d', o)) :
    d'.server.callLog = d.server.callLog ++ o.filterMap Output.logged := by
  have hsilent : ∀ events : List Event,
      (events.map Output.firewall).filterMap Output.logged = [] := by
    intro events
    simp [List.filterMap_map, Function.comp_def, Output.logged]
  refine (machine cfg).run_history
    (motive := fun _ d' o => d'.server.callLog = d.server.callLog ++ o.filterMap Output.logged)
    (List.append_nil _).symm ?_ h
  intro _ d₁ o₁ m d₂ o₂ _ ih hstep
  rw [List.filterMap_append, ← List.append_assoc, ← ih]
  cases step_step hstep with
  | entered ha h => rw [hsilent, List.append_nil]
  | listed htask hans hlist => exact (List.append_nil _).symm
  | ran htask hans => rfl
  | left htask hleave h => rw [hsilent, List.append_nil]
  | changed hm hlog => exact hlog.trans (List.append_nil _).symm

theorem countP_firewall (events : List Event) :
    (events.map Output.firewall).countP (Output.reachedBy id) = 0 := by
  rw [List.countP_eq_zero]
  intro x hx
  obtain ⟨e, -, rfl⟩ := List.mem_map.mp hx
  simp [Output.reachedBy]

/-- No call reaches the server twice; one that has reached it awaits no more,
or has its response to take. -/
theorem run_reached {ms : List Move} (hw : Waits d) (h : (machine cfg).run d ms = some (d', o)) :
    o.countP (Output.reachedBy id) ≤ 1 ∧
      (o.countP (Output.reachedBy id) = 1 →
        d'.sys.tasks[id]? = some .left ∨ ∃ r, d'.answers id = some (.response r)) := by
  refine (machine cfg).run_history
    (motive := fun _ d' o => o.countP (Output.reachedBy id) ≤ 1 ∧
      (o.countP (Output.reachedBy id) = 1 →
        d'.sys.tasks[id]? = some .left ∨ ∃ r, d'.answers id = some (.response r)))
    ⟨Nat.zero_le 1, by simp⟩ ?_ h
  intro _ d₁ o₁ m d₂ o₂ hrun ih hstep
  obtain ⟨hle, hdone⟩ := ih
  have hw₁ := run_waits hw hrun
  rw [List.countP_append]
  cases step_step hstep with
  | entered ha hact =>
      rw [countP_firewall, Nat.add_zero]
      refine ⟨hle, fun hone => ?_⟩
      exact (hdone hone).imp_left (task_entered ha hact)
  | listed htask hans hlist =>
      rename_i i task
      refine ⟨hle, fun hone => ?_⟩
      rcases hdone hone with hleft | ⟨r, hr⟩
      · exact .inl hleft
      · refine .inr ⟨r, ?_⟩
        by_cases hi : id = i
        · subst hi
          rw [hans] at hr
          cases hr
        · simpa [Function.update_of_ne hi] using hr
  | ran htask hans =>
      rename_i i req ctx
      by_cases hi : id = i
      · subst hi
        -- nothing of this call reached the server before
        have hnone : o₁.countP (Output.reachedBy id) ≠ 1 := by
          intro hone
          rcases hdone hone with hleft | ⟨r, hr⟩
          · rw [htask] at hleft
            cases hleft
          · rw [hans] at hr
            cases hr
        have hone : [Output.reached id req.tool req.arguments].countP (Output.reachedBy id) = 1 := by
          simp [Output.reachedBy]
        refine ⟨by omega, fun _ => .inr ⟨_, Function.update_self ..⟩⟩
      · have hzero : [Output.reached i req.tool req.arguments].countP (Output.reachedBy id) = 0 := by
          simp [Output.reachedBy, Ne.symm hi]
        rw [hzero, Nat.add_zero]
        refine ⟨hle, fun hone => (hdone hone).imp_right fun hr => ?_⟩
        simpa [Function.update_of_ne hi] using hr
  | left htask hleave hact =>
      rename_i i task a sys events
      rw [countP_firewall, Nat.add_zero]
      refine ⟨hle, fun hone => ?_⟩
      by_cases hi : id = i
      · subst hi
        refine .inl ?_
        obtain ⟨htarget, -, hne⟩ := hleave.target
        rcases hdone hone with hleft | ⟨r, hr⟩
        · rw [htask] at hleft
          exact absurd (Option.some.inj hleft) hne
        · obtain ⟨task', htask', hfits⟩ := hw₁ id _ hr
          obtain ⟨req, ctx, rfl⟩ := fits_response hfits
          exact left_of_handleCall hact htarget htask'
      · rw [show ({ d₁ with sys, answers := Function.update d₁.answers i none } :
          Deployment).sys.tasks[id]? = d₁.sys.tasks[id]? from task_left hleave hact hi]
        refine (hdone hone).imp_right fun hr => ?_
        simpa [Function.update_of_ne hi] using hr
  | changed hm hlog => exact ⟨hle, hdone⟩

/-! ## Where a call comes from -/

/-- Only a listing the upstream has worked out lets a request through. -/
theorem Leaves.listing {env : Env} {tools : List ToolDefinition}
    (h : Leaves d id task m (.handleTools r env (.listing tools))) :
    r = id ∧ d.answers id = some (.listing tools) ∧ ∃ envs, m = .resume id envs ∧ env = envs 0 := by
  generalize ha : Act.handleTools r env (.listing tools) = a at h
  cases h with
  | resume hans h =>
      unfold resumed at h
      split at h <;> cases h <;> cases ha
      exact ⟨rfl, hans, _, rfl, rfl⟩
  | fails h =>
      unfold failed at h
      split at h <;> cases h <;> cases ha
  | cancel h =>
      unfold cancelled at h
      split at h <;> cases h <;> cases ha

section Trace

variable {start : Deployment} {ms : List Move} {req : ToolRequest} {ctx : Ctx}

/-- The server's tools at a moment of the await. -/
def Listed (cfg : Config) (start : Deployment) (ms : List Move) (id : Nat)
    (tools : List ToolDefinition) : Prop :=
  ∃ pre d, (machine cfg).Takes start ms pre d (.lists id) ∧ tools = d.server.listTools

/-- The request went through its checks, on the tools the server had at a
moment before and with the pins as they are at this moment. -/
def Vetted (cfg : Config) (start : Deployment) (ms : List Move) (id : Nat) (req : ToolRequest) :
    Prop :=
  ∃ pre d pre' d' envs, (machine cfg).Takes start ms pre d (.lists id) ∧
    (machine cfg).Takes start ms pre' d' (.resume id envs) ∧ pre.length < pre'.length ∧
      Firewall.Forwarded cfg (envs 0) req d'.sys.fw d.server.listTools

/-- The tool ran for the request and answered. -/
def Ran (cfg : Config) (start : Deployment) (ms : List Move) (id : Nat) (req : ToolRequest)
    (r : ToolResponse) : Prop :=
  ∃ pre d ctx, (machine cfg).Takes start ms pre d (.runs id) ∧
    d.sys.tasks[id]? = some (.handleCall req ctx) ∧ r = d.server.response req.tool req.arguments

theorem Listed.extend {tools : List ToolDefinition} (h : Listed cfg start ms id tools)
    (more : List Move) : Listed cfg start (ms ++ more) id tools := by
  obtain ⟨pre, d, htakes, htools⟩ := h
  exact ⟨pre, d, htakes.extend more, htools⟩

theorem Vetted.extend (h : Vetted cfg start ms id req) (more : List Move) :
    Vetted cfg start (ms ++ more) id req := by
  obtain ⟨pre, d, pre', d', envs, htakes, htakes', hlt, hfwd⟩ := h
  exact ⟨pre, d, pre', d', envs, htakes.extend more, htakes'.extend more, hlt, hfwd⟩

theorem Ran.extend {r : ToolResponse} (h : Ran cfg start ms id req r) (more : List Move) :
    Ran cfg start (ms ++ more) id req r := by
  obtain ⟨pre, d, ctx, htakes, htask, hr⟩ := h
  exact ⟨pre, d, ctx, htakes.extend more, htask, hr⟩

/-- Only a response the upstream has worked out answers a request. -/
theorem Leaves.response {env : Env} {resp : ToolResponse}
    (h : Leaves d id task m (.handleReply r env (.response resp))) :
    r = id ∧ d.answers id = some (.response resp) := by
  generalize ha : Act.handleReply r env (.response resp) = a at h
  cases h with
  | resume hans h =>
      unfold resumed at h
      split at h <;> cases h <;> cases ha
      exact ⟨rfl, hans⟩
  | fails h =>
      rename_i envs timedOut
      cases timedOut <;> unfold failed at h <;> split at h <;> cases h <;> cases ha
  | cancel h =>
      unfold cancelled at h
      split at h <;> cases h <;> cases ha

/-- Everything that waits has its moment in the run. -/
structure Traced (cfg : Config) (start : Deployment) (ms : List Move) (d : Deployment) : Prop where
  listing : ∀ id tools, d.answers id = some (.listing tools) → Listed cfg start ms id tools
  response : ∀ id r, d.answers id = some (.response r) → ∃ req ctx,
    d.sys.tasks[id]? = some (.handleCall req ctx) ∧ Ran cfg start ms id req r
  calling : ∀ id req ctx, d.sys.tasks[id]? = some (.handleCall req ctx) →
    Vetted cfg start ms id req

/-- One request moves, and its answer is set or taken; the others keep their
moments. -/
theorem Traced.moved (ht : Traced cfg start ms d) {answer : Option Answer}
    (hanswers : d'.answers = Function.update d.answers id answer)
    (htasks : ∀ i, i ≠ id → d'.sys.tasks[i]? = d.sys.tasks[i]?)
    (hlisting : ∀ tools, answer = some (.listing tools) → Listed cfg start (ms ++ [m]) id tools)
    (hresponse : ∀ r, answer = some (.response r) → ∃ req ctx,
      d'.sys.tasks[id]? = some (.handleCall req ctx) ∧ Ran cfg start (ms ++ [m]) id req r)
    (hcalling : ∀ i req ctx, d'.sys.tasks[i]? = some (.handleCall req ctx) →
      Vetted cfg start (ms ++ [m]) i req) : Traced cfg start (ms ++ [m]) d' := by
  refine ⟨fun i tools hnew => ?_, fun i r hnew => ?_, hcalling⟩
  · rw [hanswers] at hnew
    by_cases hi : i = id
    · subst hi
      rw [Function.update_self] at hnew
      exact hlisting tools hnew
    · rw [Function.update_of_ne hi] at hnew
      exact (ht.listing i tools hnew).extend _
  · rw [hanswers] at hnew
    by_cases hi : i = id
    · subst hi
      rw [Function.update_self] at hnew
      exact hresponse r hnew
    · rw [Function.update_of_ne hi] at hnew
      obtain ⟨req, ctx, hcall, hran⟩ := ht.response i r hnew
      exact ⟨req, ctx, (htasks i hi).trans hcall, hran.extend _⟩

theorem Traced.step (ht : Traced cfg start ms d) {o₀ : List Output}
    (hrun : (machine cfg).run start ms = some (d, o₀)) (h : Step cfg d m d' o) :
    Traced cfg start (ms ++ [m]) d' := by
  cases h with
  | entered ha hact =>
      refine ⟨fun i tools hans => (ht.listing i tools hans).extend _, fun i r hans => ?_,
        fun i req ctx htask => ?_⟩
      · obtain ⟨req, ctx, htask, hran⟩ := ht.response i r hans
        exact ⟨req, ctx, task_entered ha hact htask, hran.extend _⟩
      · rcases System.calling_after hact htask with hbefore | ⟨env, tools, rfl, -⟩
        · exact (ht.calling i req ctx hbefore).extend _
        · cases ha
  | listed htask hans hlist =>
      refine ht.moved rfl (fun _ _ => rfl) (fun tools hnew => ?_) (fun r hnew => ?_)
        fun i req ctx hcall => (ht.calling i req ctx hcall).extend _
      · cases hnew
        exact ⟨ms, d, (machine cfg).takes_last hrun _, rfl⟩
      · cases hnew
  | ran htask hans =>
      rename_i id req ctx
      refine ht.moved rfl (fun _ _ => rfl) (fun tools hnew => ?_) (fun r hnew => ?_)
        fun i req' ctx' hcall => (ht.calling i req' ctx' hcall).extend _
      · cases hnew
      · cases hnew
        exact ⟨req, ctx, htask, ms, d, ctx, (machine cfg).takes_last hrun _, htask, rfl⟩
  | left htask hleave hact =>
      refine ht.moved rfl (fun i hi => task_left hleave hact hi) (fun tools hnew => ?_)
        (fun r hnew => ?_) fun i req ctx hcall => ?_
      · cases hnew
      · cases hnew
      · rcases System.calling_after hact hcall with hbefore | ⟨env, tools, rfl, hfwd⟩
        · exact (ht.calling i req ctx hbefore).extend _
        · obtain ⟨rfl, hans, envs, rfl, rfl⟩ := hleave.listing
          obtain ⟨pre, d₁, htakes, rfl⟩ := ht.listing i tools hans
          have hlt : pre.length < ms.length := by
            obtain ⟨post, _, rfl, -⟩ := htakes
            simp
          exact ⟨pre, d₁, ms, d, envs, htakes.extend _, (machine cfg).takes_last hrun _, hlt, hfwd⟩
  | changed hm hlog =>
      refine ⟨fun i tools hans => (ht.listing i tools hans).extend _, fun i r hans => ?_,
        fun i req ctx hcall => (ht.calling i req ctx hcall).extend _⟩
      obtain ⟨req, ctx, hcall, hran⟩ := ht.response i r hans
      exact ⟨req, ctx, hcall, hran.extend _⟩

theorem run_traced {fw : Firewall} {server : DemoToolServer}
    (h : (machine cfg).run { sys := { fw }, server } ms = some (d, o)) :
    Traced cfg { sys := { fw }, server } ms d := by
  refine (machine cfg).run_history
    (motive := fun ms d _ => Traced cfg { sys := { fw }, server } ms d) ?_ ?_ h
  · refine ⟨fun id tools hans => ?_, fun id r hans => ?_, fun id req ctx htask => ?_⟩
    · cases hans
    · cases hans
    · simp at htask
  · intro ms d₁ o₁ m d₂ o₂ hrun ht hstep
    exact ht.step hrun (step_step hstep)

end Trace

end Deployment

/-! ## What is stopped before the server -/

/-- A stage that stops a request before its upstream call. -/
def Stage.barred : Stage → Bool
  | .authentication | .rateLimit | .validation | .authorization | .integrity => true
  | .inputScan | .circuitBreaker => true
  | _ => false

namespace System

variable {cfg : Config} {fw : Firewall} {s : System} {as : List Act} {o : List Event} {r : Nat}
  {result : GatewayResult}

/-- No result of the last segment names such a stage. -/
theorem reply_not_barred {env : Env} {req : ToolRequest} {ctx : Ctx} {reply : Firewall.CallReply}
    {x : Except Exc GatewayResult} {fw' : Firewall} {y : Except Exc (Option GatewayResult)}
    (h : fw.pipelineReply cfg env req ctx reply = (y, fw')) (hx : ended y = some x) :
    (Firewall.handleResult env req ctx x).stage.barred = false := by
  have hexit := Firewall.pipelineReply_exit cfg env req fw ctx reply
  rw [h] at hexit
  cases hexit with
  | cancelled hf => cases hx
  | recordRaised hf =>
      cases hx
      rfl
  | callFailed hr hf =>
      cases hx
      rfl
  | scanRaised hf =>
      cases hx
      rfl
  | outputBlocked hf hb =>
      cases hx
      rfl
  | allowed hf hb =>
      cases hx
      rfl

/-- A request that is stopped at such a stage has issued nothing. -/
theorem barred_silent (h : (machine cfg).run { fw } as = some (s, o))
    (he : .returned r result ∈ o) (hb : result.stage.barred = true) (name : Str) (args : Obj) :
    .issued r name args ∉ o := by
  obtain ⟨pre, a, s₁, fw', o₂, -, hend, he₂, hevents⟩ :=
    run_ending (r := r) h he rfl rfl
  intro hi
  have hmem : .issued r name args ∈ eventsOf r o := List.mem_filter.mpr ⟨hi, decide_eq_true rfl⟩
  rw [hevents] at hmem
  rcases List.mem_append.mp hmem with hmem | hmem
  · cases hend.said he₂ with
    | returned hp ho =>
        cases hp with
        | start h hx => simp [emitted] at hmem
        | tools hrun h hx =>
            rw [hrun] at hmem
            cases hmem
        | reply hrun h hx =>
            rw [reply_not_barred h hx] at hb
            cases hb
  · cases (hend.events _ hmem).2

end System

namespace Deployment

variable {cfg : Config} {fw : Firewall} {server : DemoToolServer} {ms : List Move}
  {d : Deployment} {o : List Output}

/-- **The log of the server is the list of the calls that were let through.**
In every run, whatever is done to the server meanwhile: its log grows by
exactly the calls that reached it; a request reaches it at most once, with the
name and the arguments it issued, and only after its checks passed on a listing
the server had given; and a request that was stopped before its call never
reaches it. -/
theorem call_log_exact (h : (machine cfg).run { sys := { fw }, server } ms = some (d, o)) :
    d.server.callLog = server.callLog ++ o.filterMap Output.logged ∧
    (∀ id, o.countP (Output.reachedBy id) ≤ 1) ∧
    (∀ id name args, .reached id name args ∈ o → .firewall (.issued id name args) ∈ o ∧
      ∃ req, req.tool = name ∧ req.arguments = args ∧
        Vetted cfg { sys := { fw }, server } ms id req) ∧
    ∀ id result, .firewall (.returned id result) ∈ o → result.stage.barred = true →
      ∀ name args, .reached id name args ∉ o := by
  have hwaits : Waits { sys := { fw }, server } := by
    intro id answer hans
    cases hans
  obtain ⟨bs, hbs⟩ := (refines_firewall cfg).run h
  have hissued : ∀ id name args, .reached id name args ∈ o →
      .firewall (.issued id name args) ∈ o ∧ ∃ req, req.tool = name ∧ req.arguments = args ∧
        Vetted cfg { sys := { fw }, server } ms id req := by
    intro id name args hreached
    obtain ⟨pre, m, post, d₁, o₁, d₂, o₂, rfl, hpre, hstep, hmem⟩ :=
      (machine cfg).mem_run_output h hreached
    cases step_step hstep with
    | ran htask hans =>
        rename_i req ctx
        obtain ⟨rfl, rfl, rfl⟩ := Output.reached.inj (List.mem_singleton.mp hmem)
        obtain ⟨cs, hcs⟩ := (refines_firewall cfg).run hpre
        have hbefore := mem_filterMap_event.mp (System.run_issued hcs htask)
        obtain ⟨_, _, _, _, _, hpre', -, -, rfl⟩ := (machine cfg).run_split h
        obtain ⟨rfl, rfl⟩ := Prod.mk.inj (Option.some.inj (hpre.symm.trans hpre'))
        exact ⟨List.mem_append_left _ hbefore, req, rfl, rfl,
          ((run_traced hpre).calling _ req ctx htask).extend _⟩
    | entered ha hact => simp at hmem
    | left htask hleave hact => simp at hmem
    | listed htask hans hlist => cases hmem
    | changed hm hlog => cases hmem
  refine ⟨run_log h, fun id => (run_reached hwaits h).1, hissued, ?_⟩
  intro id result hreturned hb name args hreached
  have hsilent := System.barred_silent hbs (mem_filterMap_event.mpr hreturned) hb name args
  exact hsilent (mem_filterMap_event.mpr (hissued id name args hreached).1)

/-- The demo server with one tool. -/
def echoServer : DemoToolServer := DemoToolServer.register echo (fun _ => some (str "hi")) {}

/-- A user is registered, logs in and approves the tool. -/
def echoApproval : List Move :=
  [.enter (.registerUser ada.userId ada.role (str "correct horse battery")),
    .enter (.login {} (str "tok") ada.userId (str "correct horse battery") (str "127.0.0.1")),
    .enter (.approve {} ada none), .lists 1, .resume 1 fun _ => {}]

/-- The user calls the tool, which answers. -/
def echoAnswered : List Move :=
  echoApproval ++ [.enter (.handle {} echoRequest), .lists 2, .resume 2 fun _ => {}, .runs 2,
    .resume 2 fun _ => {}]

theorem call_log_exact_echo : ∃ d o,
    (machine echoConfig).run { sys := { fw := .init echoConfig {} }, server := echoServer }
      echoAnswered = some (d, o) ∧
    d.server.callLog = echoServer.callLog ++ o.filterMap Output.logged ∧
    d.server.callsTo (str "echo") = 1 ∧ o.countP (Output.reachedBy 2) ≤ 1 := by
  have hcalls : ((machine echoConfig).run
      { sys := { fw := .init echoConfig {} }, server := echoServer } echoAnswered).any
        (fun p => p.1.server.callsTo (str "echo") == 1) = true := by
    decide +kernel
  obtain ⟨⟨d, o⟩, hrun, hcalls⟩ := (Option.any_eq_true _ _).mp hcalls
  obtain ⟨hlog, honce, -, -⟩ := call_log_exact hrun
  exact ⟨d, o, hrun, hlog, beq_iff_eq.mp hcalls, honce 2⟩

/-! ## What an `ALLOW` shows -/

/-- A step that answers `ALLOW`. -/
theorem step_allow {d' : Deployment} {m : Move} {id : Nat} {result : GatewayResult}
    (h : Step cfg d m d' o) (he : .firewall (.returned id result) ∈ o)
    (hallow : result.decision = .allow) :
    ∃ req ctx resp, d.sys.tasks[id]? = some (.handleCall req ctx) ∧
      d.answers id = some (.response resp) ∧ result.tool = req.tool ∧
      result.response = some resp ∧ (Firewall.scanOutput cfg resp).blocked = false := by
  obtain ⟨a, sys, events, hact, hmem, hleave⟩ : ∃ a sys events,
      System.step cfg d.sys a = some (sys, events) ∧ .returned id result ∈ events ∧
        (a.target = none ∨ ∃ i task, Leaves d i task m a) := by
    cases h with
    | entered ha hact =>
        refine ⟨_, _, _, hact, ?_, .inl ha⟩
        simpa using he
    | left htask hleave hact =>
        refine ⟨_, _, _, hact, ?_, .inr ⟨_, _, hleave⟩⟩
        simpa using he
    | ran htask hans => simp at he
    | listed htask hans hlist => cases he
    | changed hm hlog => cases he
  obtain ⟨env, req, ctx, x, fw', hp, rfl, -⟩ := System.step_returned hact hmem
  obtain ⟨reply, resp, rfl, hpass, hresp⟩ := hp.allowed hallow
  obtain rfl := hpass.response
  rcases hleave with ha | ⟨i, task, hleave⟩
  · cases ha
  · obtain ⟨rfl, hans⟩ := hleave.response
    cases hp with
    | reply hrun hreply hx =>
        refine ⟨req, ctx, resp, hrun, hans, ?_, hresp, hpass.scan⟩
        cases x with
        | error e => cases hallow
        | ok result =>
            rcases Firewall.reply_allows_or_denies
                ((congrArg Prod.fst hreply).trans (System.ended_eq_some hx rfl)) with
              ⟨resp', -, rfl⟩ | ⟨hdeny, -⟩
            · rfl
            · have hallow' : result.decision = .allow := hallow
              rw [hdeny] at hallow'
              cases hallow'

/-- **An `ALLOW` is what the tool said.** In every run, whatever is done to
the server meanwhile: a request that is answered `ALLOW` has reached the
server, and the response it is shown is what the tool, as it was registered
when the call reached it, answers to the arguments of the request. -/
theorem allow_genuine {id : Nat} {result : GatewayResult}
    (h : (machine cfg).run { sys := { fw }, server } ms = some (d, o))
    (he : .firewall (.returned id result) ∈ o) (hallow : result.decision = .allow) :
    ∃ req resp, result.tool = req.tool ∧ result.response = some resp ∧
      .reached id req.tool req.arguments ∈ o ∧
      Ran cfg { sys := { fw }, server } ms id req resp ∧
      Vetted cfg { sys := { fw }, server } ms id req ∧
      (Firewall.scanOutput cfg resp).blocked = false := by
  obtain ⟨pre, m, post, d₁, o₁, d₂, o₂, rfl, hpre, hstep, hmem⟩ := (machine cfg).mem_run_output h he
  obtain ⟨req, ctx, resp, htask, hans, htool, hresp, hscan⟩ :=
    step_allow (step_step hstep) hmem hallow
  have htraced := run_traced hpre
  obtain ⟨req', ctx', htask', hran⟩ := htraced.response id resp hans
  obtain ⟨rfl, rfl⟩ := Task.handleCall.inj (Option.some.inj (htask.symm.trans htask'))
  have hran' := hran.extend (m :: post)
  have hreached : .reached id req.tool req.arguments ∈ o := by
    obtain ⟨pre', d', ctx', htakes, htask', -⟩ := hran'
    obtain ⟨d'', o', hruns, hsub⟩ := htakes.step h
    cases step_step (show step cfg d' (.runs id) = some (d'', o') from hruns) with
    | ran hcall hnone =>
        obtain ⟨rfl, -⟩ := Task.handleCall.inj (Option.some.inj (htask'.symm.trans hcall))
        exact hsub (List.mem_singleton_self _)
    | left hcall hleave hact => cases hleave
    | changed hm hlog => cases hm
  exact ⟨req, resp, htool, hresp, hreached, hran', (htraced.calling id req ctx htask).extend _, hscan⟩

def Output.allows : Output → Option (Nat × GatewayResult)
  | .firewall (.returned id result) => if result.decision = .allow then some (id, result) else none
  | _ => none

theorem Output.eq_of_allows {x : Output} {id : Nat} {result : GatewayResult}
    (h : x.allows = some (id, result)) :
    x = .firewall (.returned id result) ∧ result.decision = .allow := by
  unfold Output.allows at h
  split at h
  · split at h
    · rename_i hallow
      cases h
      exact ⟨rfl, hallow⟩
    · cases h
  · cases h

theorem allow_genuine_echo : ∃ d o id result req resp,
    (machine echoConfig).run { sys := { fw := .init echoConfig {} }, server := echoServer }
      echoAnswered = some (d, o) ∧
    .firewall (.returned id result) ∈ o ∧ result.tool = req.tool ∧ result.response = some resp ∧
      Ran echoConfig { sys := { fw := .init echoConfig {} }, server := echoServer } echoAnswered id
        req resp := by
  have hallows : ((machine echoConfig).run
      { sys := { fw := .init echoConfig {} }, server := echoServer } echoAnswered).any
        (fun p => !(p.2.filterMap Output.allows).isEmpty) = true := by
    decide +kernel
  obtain ⟨⟨d, o⟩, hrun, hallows⟩ := (Option.any_eq_true _ _).mp hallows
  obtain ⟨⟨id, result⟩, hmem⟩ : ∃ p, p ∈ o.filterMap Output.allows := by
    apply List.exists_mem_of_ne_nil
    simpa using hallows
  obtain ⟨x, hx, heq⟩ := List.mem_filterMap.mp hmem
  obtain ⟨rfl, hallow⟩ := Output.eq_of_allows heq
  obtain ⟨req, resp, htool, hresp, -, hran, -, -⟩ := allow_genuine hrun hx hallow
  exact ⟨d, o, id, result, req, resp, hrun, hx, htool, hresp, hran⟩

end Deployment

end AgenticFirewall
