import AgenticFirewall.Lifecycle
import AgenticFirewall.Properties.Pinning

/-!
# Complete mediation

No call reaches the upstream past a check: whatever runs in between the
segments of a request, each call it issues was let through by its own
first segment and by the segment that issues it.
-/

namespace AgenticFirewall

open Py Transition

namespace System

variable {cfg : Config} {s s' : System} {a : Act} {o : List Event} {r : Nat}

/-! ## The step that issues -/

/-- Only the second segment of a request issues its call, after all its
checks. -/
theorem step_issued (h : step cfg s a = some (s', o)) {name : Str} {args : Obj}
    (hi : .issued r name args ∈ o) :
    ∃ env tools req ctx, a = .handleTools r env (.listing tools) ∧
      s.tasks[r]? = some (.handleTools req ctx) ∧ name = req.tool ∧ args = req.arguments ∧
      Firewall.Forwarded cfg env req s.fw tools := by
  cases step_shape h with
  | opened t ha ht hnew =>
      rcases hnew with ⟨-, hend⟩ | ⟨-, -, rfl⟩
      · cases (hend.events _ hi).2
      · cases hi
  | moved id t t' ha hid hrun hleft ht hnew =>
      rcases hnew with ⟨-, hend⟩ | ⟨env, tools, req, ctx, rfl, hfwd, rfl, -, -, rfl⟩
      · cases (hend.events _ hi).2
      · cases List.mem_singleton.mp hi
        exact ⟨env, tools, req, ctx, rfl, hrun, rfl, rfl, hfwd⟩
  | outside ha hid ht hdb ho =>
      rw [ho] at hi
      cases hi

/-! ## At most one call for each request -/

theorem countP_emitted (t : Option Task) : (emitted r t).countP Event.isIssued ≤ 1 := by
  unfold emitted
  split
  · exact Nat.le_refl 1
  · exact Nat.zero_le 1

theorem Ending.countP {fw : Firewall} (h : Ending cfg s a r fw o) :
    o.countP Event.isIssued = 0 :=
  List.countP_eq_zero.mpr fun e he => by simp [(h.events e he).2]

theorem run_issued_once {fw : Firewall} {as : List Act}
    (h : (machine cfg).run { fw } as = some (s, o)) (r : Nat) :
    (eventsOf r o).countP Event.isIssued ≤ 1 := by
  refine (machine cfg).run_history
    (motive := fun _ _ o => (eventsOf r o).countP Event.isIssued ≤ 1) (Nat.zero_le 1) ?_ h
  intro as s₁ o₁ a s₂ o₂ hrun₁ ih hstep
  rw [eventsOf_append, List.countP_append]
  by_cases hcall : callOf s₁ a = some r
  · -- the call is not left yet, so what it emitted before is known
    have hbefore : s₁.tasks[r]? ≠ some .left := fun hleft =>
      callOf_ne_of_left hstep hleft hcall
    rw [run_emitted hrun₁ hbefore]
    have hle := countP_emitted (r := r) s₁.tasks[r]?
    cases step_shape hstep with
    | opened t ha ht hnew =>
        obtain rfl : s₁.tasks.length = r := by simpa [callOf, ha] using hcall
        rcases hnew with ⟨-, hend⟩ | ⟨-, -, rfl⟩
        · rw [eventsOf_own fun e he => (hend.events e he).1, hend.countP]
          omega
        · exact hle
    | moved id t t' ha hid hrun hne ht hnew =>
        obtain rfl : id = r := by simpa [callOf, ha, hid] using hcall
        rcases hnew with ⟨-, hend⟩ | ⟨env, tools, req, ctx, -, -, rfl, -, -, rfl⟩
        · rw [eventsOf_own fun e he => (hend.events e he).1, hend.countP]
          omega
        · rw [hrun]
          simp [emitted, eventsOf, Event.id, Event.isIssued]
    | outside ha hid ht hdb ho => simp [callOf, ha, hid] at hcall
  · rw [eventsOf_other (step_frame hstep hcall).2]
    exact ih

/-! ## Complete mediation -/

/-- The run handles `req` as request `r` after `pre`, in state `s`, and
later issues its call, with all checks of the two segments. -/
structure Mediated (cfg : Config) (fw : Firewall) (as : List Act) (r : Nat) (pre : List Act)
    (s : System) (env : Env) (req : ToolRequest) : Prop where
  handled : At cfg fw as pre s (.handle env req)
  id : s.tasks.length = r
  once : ∀ pre' s' a', At cfg fw as pre' s' a' → a'.opens = true → s'.tasks.length = r →
    pre' = pre ∧ a' = .handle env req
  admitted : ∃ session, Firewall.Admitted cfg env req s.fw session
  forwarded : ∃ mid env' tools s₂ s₃ o₃,
    At cfg fw as (pre ++ .handle env req :: mid) s₂ (.handleTools r env' (.listing tools)) ∧
      step cfg s₂ (.handleTools r env' (.listing tools)) = some (s₃, o₃) ∧
      .issued r req.tool req.arguments ∈ o₃ ∧ Firewall.Forwarded cfg env' req s₂.fw tools

/-- **Complete mediation.** In every run a request issues at most one
upstream call, and every call that is issued carries the name and the
arguments of the one request it belongs to, whose two segments checked
everything at the time they ran. -/
theorem complete_mediation {fw : Firewall} {as : List Act}
    (h : (machine cfg).run { fw } as = some (s, o)) (r : Nat) :
    (eventsOf r o).countP Event.isIssued ≤ 1 ∧
      ∀ name args, .issued r name args ∈ o → ∃ pre s₁ env req,
        name = req.tool ∧ args = req.arguments ∧ Mediated cfg fw as r pre s₁ env req := by
  refine ⟨run_issued_once h r, fun name args hi => ?_⟩
  -- the step that issues the call, then the step that handled its request
  obtain ⟨pre', a, post, s₂, o₂, s₃, o₃, rfl, hrun₂, hstep, hi'⟩ :=
    (machine cfg).mem_run_output h hi
  obtain ⟨env', tools, req, ctx, rfl, htask, rfl, rfl, hfwd⟩ := step_issued hstep hi'
  obtain ⟨pre, env, s₁, session, ⟨mid, o₁, rfl, hrun₁⟩, hlen, hadm, -⟩ :=
    run_handled hrun₂ (.inl htask)
  have hhandle : At cfg fw (pre ++ .handle env req :: mid ++
      .handleTools r env' (.listing tools) :: post) pre s₁ (.handle env req) :=
    ⟨mid ++ .handleTools r env' (.listing tools) :: post, o₁, by simp, hrun₁⟩
  refine ⟨pre, s₁, env, req, rfl, rfl, hhandle, hlen, ?_, ⟨session, hadm⟩,
    mid, env', tools, s₂, s₃, o₃, ⟨post, o₂, rfl, hrun₂⟩, hstep, hi', hfwd⟩
  intro pre'' s'' a'' hat'' hopens hlen''
  obtain ⟨rfl, -, rfl⟩ := start_unique hat'' hhandle hopens rfl (hlen''.trans hlen.symm)
  exact ⟨rfl, rfl⟩

end System

/-! ## A run that issues a call -/

def echoPolicy : Policy where
  roles := .ofList
    [(str "root", { allowedTools := [str "echo"], maxRisk := .medium, canManage := true }),
      (str "agent", { allowedTools := [str "echo"], maxRisk := .medium })]
  has_role := by decide

/-- The digests of the api key, the session ids and the definition of the
runs below. -/
def echoDigests : List (List UInt8 × List UInt8) :=
  [(encodeSurrogatepass (str "correct horse battery"),
      [0x90, 0x28, 0xea, 0x0d, 0x15, 0xde, 0xca, 0xa3, 0x5b, 0x2d, 0xa2, 0x1c, 0x02, 0x90, 0xaf,
        0x3b, 0x1a, 0x5b, 0xa0, 0xa3, 0x0a, 0x59, 0x19, 0x06, 0xf8, 0x9b, 0x50, 0x74, 0xe2, 0x09,
        0xea, 0x72]),
    (encodeSurrogatepass (str "tok"),
      [0x1a, 0x76, 0x74, 0xeb, 0x4e, 0xe7, 0x8d, 0xf7, 0xe1, 0xac, 0x43, 0x9a, 0x93, 0xc3, 0xfa,
        0x8e, 0x3c, 0x94, 0x57, 0x84, 0xd4, 0xde, 0xc9, 0xfd, 0x8e, 0x30, 0x11, 0x73, 0x8b, 0x2f,
        0x1d, 0x62]),
    (encodeSurrogatepass (str "tok2"),
      [0x86, 0x90, 0xc3, 0xaf, 0x01, 0x5e, 0x62, 0x94, 0xff, 0x67, 0xfc, 0xfd, 0x33, 0x4f, 0x18,
        0x1a, 0x47, 0x04, 0xb5, 0x79, 0xe9, 0xb2, 0xbc, 0xe7, 0x9e, 0xc9, 0x71, 0x6a, 0xc6, 0x2d,
        0xa2, 0xd6]),
    (canonicalBytes echo,
      [0xa0, 0xb7, 0x51, 0x06, 0xfb, 0x16, 0x66, 0xe1, 0x87, 0x6f, 0x39, 0xd4, 0x02, 0x09, 0x0d,
        0xdf, 0xbc, 0xf2, 0xf7, 0x84, 0xcf, 0x41, 0xc7, 0x92, 0xb9, 0x27, 0x88, 0x21, 0x46, 0xd2,
        0x6a, 0x31])]

def echoSha256 : Sha256 := .agreeing echoDigests

def echoConfig : Config where
  policy := echoPolicy
  sha256 := echoSha256
  unicode := Unicode.ascii

def ada : UserSession where
  userId := str "ada"
  role := str "root"
  sessionRef := str "1a7674eb4ee7"
  createdAt := 0
  expiresAt := 3600

/-- A user is registered, logs in and approves the tool. -/
def echoSetup : List Act :=
  [.registerUser ada.userId ada.role (str "correct horse battery"),
    .login {} (str "tok") ada.userId (str "correct horse battery") (str "127.0.0.1"),
    .approve {} ada none,
    .approveTools 1 (fun _ => {}) (.listing [echo])]

def echoRequest : ToolRequest where
  sessionId := str "tok"
  tool := str "echo"
  arguments := ⟨[(str "text", .str (str "hi"))], by decide⟩

/-- The user calls the tool. -/
def echoCall : List Act :=
  echoSetup ++ [.handle {} echoRequest, .handleTools 2 {} (.listing [echo])]

/-- The call is a request that awaits the reply of the upstream. -/
def Task.calling : Task → Bool
  | .handleCall .. => true
  | _ => false

/-- The request gets through and awaits its reply. -/
theorem echoCall_awaits : ∃ s o req ctx,
    (System.machine echoConfig).run { fw := .init echoConfig {} } echoCall = some (s, o) ∧
      s.tasks[2]? = some (.handleCall req ctx) := by
  have hrun : ((System.machine echoConfig).run { fw := .init echoConfig {} } echoCall).any
      (fun p => p.1.tasks[2]?.any Task.calling) = true := by
    decide +kernel
  obtain ⟨⟨s, o⟩, hrun, hany⟩ := (Option.any_eq_true _ _).mp hrun
  obtain ⟨t, htask, hcalling⟩ := (Option.any_eq_true _ _).mp hany
  cases t with
  | handleCall req ctx => exact ⟨s, o, req, ctx, hrun, htask⟩
  | _ => cases hcalling

theorem complete_mediation_echo : ∃ r name args pre s₁ env req,
    name = req.tool ∧ args = req.arguments ∧
      System.Mediated echoConfig (.init echoConfig {}) echoCall r pre s₁ env req := by
  obtain ⟨s, o, req, ctx, hrun, htask⟩ := echoCall_awaits
  exact ⟨2, req.tool, req.arguments,
    (System.complete_mediation hrun 2).2 _ _ (System.run_issued hrun htask)⟩

/-! ## A run with an outage -/

/-- A second tool. -/
def clock : ToolDefinition where
  name := str "clock"
  description := str "Clock."

/-- Both tools are allowed, and one failure trips a breaker. -/
def pairPolicy : Policy where
  roles := .ofList
    [(str "root",
      { allowedTools := [str "echo", str "clock"], maxRisk := .medium, canManage := true })]
  circuitBreaker :=
    { echoPolicy.circuitBreaker with failureThreshold := 1, one_le := Nat.le_refl 1 }
  has_role := by decide

/-- SHA-256 on the definition of the second tool too. -/
def pairSha256 : Sha256 := .agreeing (echoDigests ++
  [(canonicalBytes clock,
      [0xc0, 0x98, 0x1c, 0x77, 0x36, 0x8e, 0xf7, 0xb5, 0xd6, 0xcd, 0x22, 0xeb, 0x66, 0x15, 0xa3,
        0x7a, 0x64, 0xf3, 0x67, 0xb0, 0x78, 0xe5, 0xd5, 0x57, 0x71, 0x6b, 0xdb, 0x37, 0xd5, 0x9a,
        0x20, 0xa5])])

def pairConfig : Config where
  policy := pairPolicy
  sha256 := pairSha256
  unicode := Unicode.ascii

/-- An outside with this reading of the monotonic clock. -/
def Env.reading (now : ℚ) : Env where
  monotonic _ := now

def clockRequest : ToolRequest where
  sessionId := str "tok"
  tool := str "clock"

/-- The call of `echo` fails, and at 10 the tool is refused while the other
one answers. At 40 a probe is let through. -/
def pairProbing : List Act :=
  echoSetup.take 3 ++ [.approveTools 1 (fun _ => {}) (.listing [echo, clock]),
    .handle {} echoRequest, .handleTools 2 {} (.listing [echo, clock]),
    .handleReply 2 {} .raised,
    .handle {} echoRequest, .handleTools 3 (.reading 10) (.listing [echo, clock]),
    .handle {} clockRequest, .handleTools 4 (.reading 10) (.listing [echo, clock]),
    .handleReply 4 (.reading 11) (.response { text := str "noon" }),
    .handle {} echoRequest, .handleTools 5 (.reading 40) (.listing [echo, clock])]

end AgenticFirewall
