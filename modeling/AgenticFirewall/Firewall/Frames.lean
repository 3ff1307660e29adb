import AgenticFirewall.Firewall.Writes
import AgenticFirewall.System

/-!
# What a segment leaves alone

Each segment changes few components: the first one the limiter, the later
ones the breakers, an audit write or an approval the database. Every
statement is an equation of the components, so that a reader of any one of
them needs no other lemma.
-/

namespace AgenticFirewall

open Py

namespace Firewall

variable (cfg : Config) (env : Env) (fw : Firewall)

/-! ## Audit writes and approvals -/

variable {fw} in
theorem record_frame {e event : SecurityEvent} {fw' : Firewall}
    (h : fw.record env e = .ok (event, fw')) : fw' = { fw with db := fw'.db } := by
  obtain ⟨db, -, rfl⟩ := record_cases h
  rfl

theorem recordOrLog_frame (e : SecurityEvent) :
    (fw.recordOrLog env e).2 = { fw with db := (fw.recordOrLog env e).2.db } := by
  unfold recordOrLog
  split
  · rfl
  · rename_i event fw' h
    exact record_frame env h

section Approval

variable {cfg env fw} {tools : List ToolDefinition} {approver : UserSession}
  {outcome : ApprovalOutcome} {fw' : Firewall}

theorem approveOne_frame {defn : ToolDefinition}
    (h : fw.approveOne cfg env defn approver = .ok (outcome, fw')) :
    fw' = { fw with db := fw'.db } := by
  cases approveOne_exit h with
  | refused blocked => rfl
  | pinned clean looked approved => rfl

theorem approveName_frame {name : Str}
    (h : fw.approveName cfg env tools approver name = .ok (outcome, fw')) :
    fw' = { fw with db := fw'.db } := by
  rcases approveName_cases h with rfl | ⟨d, -, hone⟩
  · rfl
  · exact approveOne_frame hone

theorem approveLoop_frame (envs : Nat → Env) (names : List Str) (i : Nat) (fw : Firewall) :
    (approveLoop cfg envs tools approver i names fw).fw =
      { fw with db := (approveLoop cfg envs tools approver i names fw).fw.db } := by
  refine approveLoop_keeps (R := fun a b => b = { a with db := b.db }) (fun _ => rfl)
    (fun a b c hab hbc => ?_) approveName_frame (record_frame _) envs names i fw
  rw [hbc, hab]

end Approval

theorem approveTools_frame (envs : Nat → Env) (approver : UserSession)
    (names : Option (List Str)) (reply : ToolsReply) :
    (fw.approveTools cfg envs approver names reply).fw =
      { fw with db := (fw.approveTools cfg envs approver names reply).fw.db } := by
  cases reply with
  | raised => rfl
  | listing tools => exact approveLoop_frame envs (wanted names tools) 0 fw

/-! ## Sessions -/

theorem authenticate_frame (sessionId : Str) :
    (fw.authenticate cfg env sessionId).fw =
      { fw with limiter := (fw.authenticate cfg env sessionId).fw.limiter } := by
  have hexit := authenticate_exit cfg env fw sessionId
  generalize fw.authenticate cfg env sessionId = out at hexit ⊢
  cases hexit <;> rfl

/-- The check of the role changes nothing. -/
theorem requireManager_fw (sessionId : Str) :
    (fw.requireManager cfg env sessionId).fw = (fw.authenticate cfg env sessionId).fw := by
  unfold requireManager
  simp only
  split
  · rfl
  · split
    · rfl
    · split
      · rfl
      · rfl

theorem listStart_fw (sessionId : Str) :
    (fw.listStart cfg env sessionId).fw = (fw.authenticate cfg env sessionId).fw := by
  unfold listStart
  simp only
  split
  · rfl
  · split
    · rfl
    · rfl

theorem login_frame (token userId apiKey clientKey : Str) :
    (fw.login cfg env token userId apiKey clientKey).fw =
      { fw with
        db := (fw.login cfg env token userId apiKey clientKey).fw.db
        loginLimiter := (fw.login cfg env token userId apiKey clientKey).fw.loginLimiter } := by
  have hlog : ∀ (e : SecurityEvent) (fw₁ : Firewall), fw₁.limiter = fw.limiter →
      fw₁.breakers = fw.breakers →
      (fw₁.recordOrLog env e).2 =
        { fw with
          db := (fw₁.recordOrLog env e).2.db
          loginLimiter := (fw₁.recordOrLog env e).2.loginLimiter } := by
    intro e fw₁ hlimiter hbreakers
    rw [recordOrLog_frame]
    simp [hlimiter, hbreakers]
  unfold login
  split
  · rfl
  · simp only
    split
    · exact hlog _ _ rfl rfl
    · split
      · exact hlog _ _ rfl rfl
      · rfl
      · exact hlog _ _ rfl rfl

/-! ## The segments of `handle` -/

theorem pipelineStart_frame (req : ToolRequest) :
    (fw.pipelineStart cfg env req).2.2 =
      { fw with limiter := (fw.pipelineStart cfg env req).2.2.limiter } := by
  have hexit := pipelineStart_exit cfg env req fw
  generalize fw.pipelineStart cfg env req = out at hexit ⊢
  cases hexit <;> rfl

theorem pipelineTools_frame (req : ToolRequest) (ctx : Ctx) (reply : ToolsReply) :
    (fw.pipelineTools cfg env req ctx reply).2 =
      { fw with breakers := (fw.pipelineTools cfg env req ctx reply).2.breakers } := by
  have hexit := pipelineTools_exit cfg env req fw ctx reply
  generalize fw.pipelineTools cfg env req ctx reply = out at hexit ⊢
  cases hexit <;> rfl

theorem answered_frame (req : ToolRequest) (r : ToolResponse) :
    fw.answered env req r = { fw with breakers := (fw.answered env req r).breakers } := by
  unfold answered
  split <;> rfl

theorem pipelineReply_frame (req : ToolRequest) (ctx : Ctx) (reply : CallReply) :
    (fw.pipelineReply cfg env req ctx reply).2 =
      { fw with breakers := (fw.pipelineReply cfg env req ctx reply).2.breakers } := by
  have hexit := pipelineReply_exit cfg env req fw ctx reply
  generalize fw.pipelineReply cfg env req ctx reply = out at hexit ⊢
  cases hexit with
  | recordRaised hf => rfl
  | cancelled hf => rfl
  | callFailed hr hf => rfl
  | scanRaised hf => exact answered_frame env fw req _
  | outputBlocked hf hb => exact answered_frame env fw req _
  | allowed hf hb => exact answered_frame env fw req _

end Firewall

/-! ## Steps -/

namespace System

variable {cfg : Config} {s s' : System} {a : Act} {o : List Event}

/-- The firewall after the segment an action runs; a step adds the writes to
the database. -/
def segment (cfg : Config) (s : System) : Act → Firewall
  | .handle env req => (s.fw.pipelineStart cfg env req).2.2
  | .handleTools id env reply =>
      match s.tasks[id]? with
      | some (.handleTools req ctx) => (s.fw.pipelineTools cfg env req ctx reply).2
      | _ => s.fw
  | .handleReply id env reply =>
      match s.tasks[id]? with
      | some (.handleCall req ctx) => (s.fw.pipelineReply cfg env req ctx reply).2
      | _ => s.fw
  | .list env sessionId => (s.fw.authenticate cfg env sessionId).fw
  | .requireManager env sessionId => (s.fw.authenticate cfg env sessionId).fw
  | .login env token userId apiKey clientKey =>
      (s.fw.login cfg env token userId apiKey clientKey).fw
  | _ => s.fw

theorem leave_frame (id : Nat) (env : Env) (req : ToolRequest) (ctx : Ctx)
    (x : Except Exc GatewayResult) (fw : Firewall) :
    (leave id env req ctx x fw).1 = { fw with db := (leave id env req ctx x fw).1.db } :=
  Firewall.recordOrLog_frame env fw _

/-- Besides its segment, a step changes the database at most. -/
theorem step_segment (h : step cfg s a = some (s', o)) :
    s'.fw = { segment cfg s a with db := s'.fw.db } := by
  cases a with
  | handle env req =>
      simp only [step] at h
      split at h
      · cases h
        rfl
      · cases h
        exact leave_frame s.tasks.length env req _ _ _
  | handleTools id env reply =>
      simp only [step] at h
      split at h
      · rename_i req ctx hrun
        simp only [segment, hrun]
        split at h
        · cases h
          rfl
        · cases h
          exact leave_frame id env req ctx _ _
      · cases h
  | handleReply id env reply =>
      simp only [step] at h
      split at h
      · rename_i req ctx hrun
        simp only [segment, hrun]
        split at h
        · cases h
          rfl
        · cases h
          exact leave_frame id env req ctx _ _
      · cases h
  | approve env approver names =>
      simp only [step] at h
      split at h
      · cases h
        rfl
      · cases h
        rfl
  | approveTools id envs reply =>
      simp only [step] at h
      split at h
      · cases h
        exact Firewall.approveTools_frame cfg s.fw envs _ _ reply
      · cases h
  | list env sessionId =>
      simp only [segment, ← Firewall.listStart_fw]
      simp only [step] at h
      split at h
      · cases h
        rfl
      · cases h
        rfl
  | listTools id envs reply =>
      simp only [step] at h
      split at h
      · cases h
        rfl
      · cases h
  | cancel id =>
      simp only [step] at h
      split at h
      · cases h
        rfl
      · cases h
        rfl
      · cases h
        rfl
      · cases h
  | requireManager env sessionId =>
      simp only [segment, ← Firewall.requireManager_fw]
      cases h
      rfl
  | login env token userId apiKey clientKey =>
      cases h
      rfl
  | revoke sessionId =>
      simp only [step] at h
      split at h
      · cases h
        rfl
      · cases h
        rfl
  | registerUser userId role apiKey =>
      simp only [step] at h
      split at h
      · cases h
        rfl
      · cases h
        rfl
  | setRole userId role =>
      cases h
      rfl

end System

end AgenticFirewall
