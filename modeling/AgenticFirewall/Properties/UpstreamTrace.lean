import AgenticFirewall.Properties.Mediation

/-!
# The trace of an upstream call

By the time `call_tool` is awaited the call may already have had its
effect. `handle` writes its audit record after the pipeline, under
`except Exception`; a cancellation at the await is raised past it.
-/

namespace AgenticFirewall

open Py Transition

namespace System

variable {cfg : Config} {s s' : System} {o : List Event} {r : Nat} {env : Env}
  {reply : Firewall.CallReply}

/-- The call is cancelled at its await, and the breaker's
`record_failure` does not raise in turn. -/
def CancelledAtCall (env : Env) (reply : Firewall.CallReply) : Prop :=
  reply = .cancelled ∧ env.fault .recordOutcome = none

/-- The last step of a request whose call was issued. -/
theorem step_handleReply (h : step cfg s (.handleReply r env reply) = some (s', o)) :
    (∃ req ctx, s.tasks[r]? = some (.handleCall req ctx)) ∧
      ((¬ CancelledAtCall env reply ∧ ∃ stored result, o = [.audit r stored, .returned r result]) ∨
        CancelledAtCall env reply ∧ o = [.cancelled r]) := by
  cases step_shape h with
  | opened t ha ht hnew => cases ha
  | outside ha hid ht hdb ho => cases hid
  | moved id t t' ha hid hrun hleft ht hnew =>
      cases hid
      rcases hnew with ⟨rfl, hend⟩ | ⟨_, _, _, _, ha', -⟩
      · generalize s'.fw = fw at hend
        cases hend with
        | answered hpipe =>
            cases hpipe with
            | reply hcall hreply hended =>
                rename_i req ctx x _ out
                refine ⟨⟨req, ctx, hcall⟩, .inl ⟨?_, _, _, rfl⟩⟩
                -- a cancellation would have left the pipeline without a result
                intro h
                obtain ⟨rfl, hf⟩ := h
                simp only [Firewall.pipelineReply, hf, Prod.mk.injEq] at hreply
                rw [← hreply.1] at hended
                cases hended
        | callCancelled hcall hf => exact ⟨⟨_, _, hcall⟩, .inr ⟨⟨rfl, hf⟩, rfl⟩⟩
      · cases ha'

/-- A request that awaits its reply takes any reply. -/
theorem handleReply_enabled {req : ToolRequest} {ctx : Ctx}
    (hr : s.tasks[r]? = some (.handleCall req ctx)) (env : Env) (reply : Firewall.CallReply) :
    ∃ s' o, step cfg s (.handleReply r env reply) = some (s', o) := by
  simp only [step, hr]
  split
  · exact ⟨_, _, rfl⟩
  · exact ⟨_, _, rfl⟩

/-- All a request has emitted when its last segment has run. -/
theorem eventsOf_replied {fw : Firewall} {as pre : List Act} {s₁ s₂ : System} {o₂ : List Event}
    {req : ToolRequest} {ctx : Ctx} (h : (machine cfg).run { fw } as = some (s, o))
    (hat : At cfg fw as pre s₁ (.handleReply r env reply))
    (hr : s₁.tasks[r]? = some (.handleCall req ctx))
    (hstep : step cfg s₁ (.handleReply r env reply) = some (s₂, o₂)) :
    eventsOf r o = .issued r req.tool req.arguments :: o₂ := by
  have hevents : ∀ e ∈ o₂, e.id = r → e.isIssued = false →
      eventsOf r o = .issued r req.tool req.arguments :: o₂ := by
    intro e he hid hi
    rw [eventsOf_ended h hat hstep he hid hi, hr]
    rfl
  obtain ⟨-, ⟨-, stored, result, rfl⟩ | ⟨-, rfl⟩⟩ := step_handleReply hstep
  · exact hevents (.audit r stored) List.mem_cons_self rfl rfl
  · exact hevents (.cancelled r) List.mem_cons_self rfl rfl

/-- **The trace of a call.** A request whose upstream call was issued
attempts exactly one audit record by the time `handle` is left, if and only
if it was not cancelled at the await. -/
theorem call_recorded_iff {fw : Firewall} {pre post : List Act}
    (h : (machine cfg).run { fw } (pre ++ .handleReply r env reply :: post) = some (s, o)) :
    (∃ name args, .issued r name args ∈ o) ∧
      ((eventsOf r o).countP Event.isAudit = 1 ↔ ¬ CancelledAtCall env reply) := by
  obtain ⟨s₁, o₁, s₂, o₂, o₃, hpre, hstep, -, ho⟩ := (machine cfg).run_split h
  obtain ⟨⟨req, ctx, htask⟩, hcase⟩ := step_handleReply hstep
  have hissued := run_issued hpre htask
  refine ⟨⟨req.tool, req.arguments, by simp [ho, hissued]⟩, ?_⟩
  rw [eventsOf_replied h ⟨post, o₁, rfl, hpre⟩ htask hstep]
  rcases hcase with ⟨hnot, stored, result, rfl⟩ | ⟨hcancel, rfl⟩
  · exact ⟨fun _ => hnot, fun _ => rfl⟩
  · exact ⟨nofun, fun hnot => absurd hcancel hnot⟩

end System

/-- The request of `echoCall` gets the given reply. -/
def echoReplied (reply : Firewall.CallReply) : Option (System × List Event) :=
  (System.machine echoConfig).run { fw := .init echoConfig {} }
    (echoCall ++ [.handleReply 2 {} reply])

theorem echoReplied_events (reply : Firewall.CallReply) :
    ∃ (s : System) (o : List Event) (s₁ : System) (req : ToolRequest) (s₂ : System)
      (o₂ : List Event), echoReplied reply = some (s, o) ∧
      System.step echoConfig s₁ (.handleReply 2 {} reply) = some (s₂, o₂) ∧
      System.eventsOf 2 o = .issued 2 req.tool req.arguments :: o₂ := by
  obtain ⟨s₁, o₁, req, ctx, hpre, htask⟩ := echoCall_awaits
  obtain ⟨s₂, o₂, hstep⟩ : ∃ s₂ o₂,
      System.step echoConfig s₁ (.handleReply 2 {} reply) = some (s₂, o₂) :=
    System.handleReply_enabled htask {} reply
  have hrun : echoReplied reply = some (s₂, o₁ ++ o₂) :=
    ((System.machine echoConfig).run_concat_eq_some).mpr ⟨s₁, o₁, o₂, hpre, hstep, rfl⟩
  exact ⟨s₂, o₁ ++ o₂, s₁, req, s₂, o₂, hrun, hstep,
    System.eventsOf_replied hrun ⟨[], o₁, rfl, hpre⟩ htask hstep⟩

theorem call_recorded_iff_echo : ∃ s o, echoReplied (.response { text := str "hi" }) = some (s, o) ∧
    (System.eventsOf 2 o).countP Event.isAudit = 1 := by
  obtain ⟨s, o, -, -, -, -, hrun, -, -⟩ := echoReplied_events (.response { text := str "hi" })
  exact ⟨s, o, hrun, (System.call_recorded_iff hrun).2.mpr fun h => nomatch h.1⟩

/-- Not every issued call is recorded: one that is cancelled is not. -/
theorem cancelled_call_unrecorded :
    ¬ ∀ (cfg : Config) (fw : Firewall) (pre post : List Act) (r : Nat) (env : Env)
      (reply : Firewall.CallReply) (s : System) (o : List Event),
      (System.machine cfg).run { fw } (pre ++ .handleReply r env reply :: post) = some (s, o) →
        (System.eventsOf r o).countP Event.isAudit = 1 := by
  intro hall
  obtain ⟨s, o, s₁, req, s₂, o₂, hrun, hstep, hevents⟩ := echoReplied_events .cancelled
  have hone := hall _ _ _ _ _ _ _ _ _ hrun
  obtain ⟨-, ⟨hnot, -⟩ | ⟨-, rfl⟩⟩ := System.step_handleReply hstep
  · exact hnot ⟨rfl, rfl⟩
  · rw [hevents] at hone
    exact absurd hone (by simp [Event.isAudit])

end AgenticFirewall
