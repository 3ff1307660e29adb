import AgenticFirewall.Firewall.Accounts
import AgenticFirewall.Properties.Poisoning

/-!
# What a revocation stops

A session is checked once, when a request begins. A revocation or an expiry
refuses every later request; one that was let through before goes on across
its awaits.
-/

namespace AgenticFirewall

open Py Transition

namespace System

variable {cfg : Config} {s s' : System} {o : List Event} {fw : Firewall} {as pre : List Act}
  {env : Env} {sessionId : Str} {session : UserSession}

/-- The session stands where it is checked: before its expiry, and no
earlier revocation has found it. -/
structure Checked (cfg : Config) (fw : Firewall) (pre : List Act) (s : System) (env : Env)
    (sessionId : Str) (session : UserSession) : Prop where
  live : Authenticator.Live cfg.sha256 (env.time .validate) sessionId s.fw.db session
  unexpired : env.time .validate < session.expiresAt
  unrevoked : ∀ p t, At cfg fw pre p t (.revoke sessionId) →
    t.fw.db.sessions.get (cfg.sha256.digest sessionId) = none

/-! ## Revoked sessions stay revoked -/

theorem run_revoked (h : (machine cfg).run s as = some (s', o)) {key : Text} {row : SessionRow}
    (hrow : s.fw.db.sessions.get key = some row) (hrevoked : row.revoked = true) :
    s'.fw.db.sessions.get key = some row := by
  have hstep : ∀ (t : System) a t' o, t.fw.db.sessions.get key = some row →
      (machine cfg).step t a = some (t', o) → t'.fw.db.sessions.get key = some row := by
    intro t a t' o hrow hstep
    exact step_revoked hstep hrow hrevoked
  exact (machine cfg).run_invariant hstep hrow h

/-- A revocation marks the row it finds. -/
theorem step_revoke (h : step cfg s (.revoke sessionId) = some (s', o)) {row : SessionRow}
    (hrow : s.fw.db.sessions.get (cfg.sha256.digest sessionId) = some row) :
    s'.fw.db.sessions.get (cfg.sha256.digest sessionId) = some { row with revoked := true } := by
  simp only [step, Authenticator.revoke_eq, hrow] at h
  cases h
  simp

/-- A session that is live was not revoked. -/
theorem run_checked (h : (machine cfg).run { fw } pre = some (s, o))
    (hlive : Authenticator.Live cfg.sha256 (env.time .validate) sessionId s.fw.db session) :
    Checked cfg fw pre s env sessionId session := by
  obtain ⟨row, user, hrow, -, hnot, hlt, hsession⟩ := hlive.stored
  refine ⟨hlive, ?_, ?_⟩
  · rw [hsession]
    exact hlt
  · intro p t hat
    cases hold : t.fw.db.sessions.get (cfg.sha256.digest sessionId) with
    | none => rfl
    | some old =>
        -- a row found then would be marked, and still be marked now
        obtain ⟨o₁, t', o₂, post, o₃, -, hstep, hrest, -⟩ := hat.step h
        have hlater := run_revoked hrest (step_revoke hstep hold) rfl
        obtain rfl := Option.some.inj (hrow.symm.trans hlater)
        cases hnot

/-! ## What follows the check -/

/-- A session that `require_manager` returns is live. -/
theorem live_of_requireManager
    (h : (fw.requireManager cfg env sessionId).result = .ok session) :
    Authenticator.Live cfg.sha256 (env.time .validate) sessionId fw.db session := by
  unfold Firewall.requireManager at h
  simp only at h
  split at h
  · exact Firewall.live_of_authenticate cfg env fw h
  · split at h
    · cases h
    · split at h
      · cases h
      · exact Firewall.live_of_authenticate cfg env fw h

/-- The step belongs to an approval that has awaited its listing. Whatever
session `require_manager` returned for its approver stood then. -/
def Approves (cfg : Config) (fw : Firewall) (pre : List Act) (s : System) (a : Act) : Prop :=
  ∃ id envs tools approver names pre₀ s₀ env₀, a = .approveTools id envs (.listing tools) ∧
    s.tasks[id]? = some (.approveTools approver names) ∧
    At cfg fw pre pre₀ s₀ (.approve env₀ approver names) ∧ s₀.tasks.length = id ∧
    ∀ pre₁ s₁ env₁ sessionId, At cfg fw pre₀ pre₁ s₁ (.requireManager env₁ sessionId) →
      (s₁.fw.requireManager cfg env₁ sessionId).result = .ok approver →
      Checked cfg fw pre₁ s₁ env₁ sessionId approver

theorem At.run (hat : At cfg fw as pre s a) : ∃ o, (machine cfg).run { fw } pre = some (s, o) := by
  obtain ⟨post, o, -, hrun⟩ := hat
  exact ⟨o, hrun⟩

/-- **Revocation and expiry refuse every later request.** Each upstream
call belongs to a request whose session stood when it was handled, and each
pin to an approval whose session stood when `require_manager` returned
it. -/
theorem checked_before_effect (h : (machine cfg).run { fw } as = some (s, o)) :
    (∀ r name args, .issued r name args ∈ o → ∃ pre s₁ env req session,
      At cfg fw as pre s₁ (.handle env req) ∧ s₁.tasks.length = r ∧ name = req.tool ∧
        args = req.arguments ∧ Checked cfg fw pre s₁ env req.sessionId session) ∧
    ∀ pre s₁ a s₂ o₂, At cfg fw as pre s₁ a → step cfg s₁ a = some (s₂, o₂) →
      s₂.fw.db.toolFingerprints = s₁.fw.db.toolFingerprints ∨ Approves cfg fw pre s₁ a := by
  constructor
  · intro r name args hi
    obtain ⟨pre', a, post, s₂, o₂, s₃, o₃, rfl, hrun₂, hstep, hi'⟩ :=
      (machine cfg).mem_run_output h hi
    obtain ⟨env', tools, req, ctx, rfl, htask, rfl, rfl, -⟩ := step_issued hstep hi'
    obtain ⟨pre, env, s₁, session, hat, hlen, hadm, -⟩ := run_handled hrun₂ (.inl htask)
    obtain ⟨o₁, hrun₁⟩ := hat.run
    exact ⟨pre, s₁, env, req, session, hat.extend _, hlen, rfl, rfl, run_checked hrun₁ hadm.live⟩
  · intro pre s₁ a s₂ o₂ hat hstep
    rcases step_pins hstep with hsame | ⟨tools, ⟨id, envs, approver, names, rfl, htask⟩, -⟩
    · exact .inl hsame
    · obtain ⟨o₁, hrun₁⟩ := hat.run
      obtain ⟨pre₀, b, s₀, t, hat₀, hlen, hstart, rfl | ⟨_, _, -, hne⟩⟩ :=
        run_started hrun₁ htask nofun
      · cases hstart with
        | approve hm =>
            refine .inr ⟨id, envs, tools, approver, names, pre₀, s₀, _, rfl, htask, hat₀, hlen, ?_⟩
            intro pre₁ s₃ env₁ sessionId hat₁ hok
            obtain ⟨o₃, hrun₃⟩ := hat₁.run
            exact run_checked hrun₃ (live_of_requireManager hok)
      · cases hne

end System

/-- A manager with two sessions approves the tool, revokes the second session
and calls the tool in the first one. -/
def adaManages : List Act :=
  echoSetup.take 2 ++
    [.login {} (str "tok2") ada.userId (str "correct horse battery") (str "127.0.0.1"),
      .requireManager {} (str "tok"), .approve {} ada none,
      .approveTools 3 (fun _ => {}) (.listing [echo]), .revoke (str "tok2"),
      .handle {} echoRequest, .handleTools 4 {} (.listing [echo])]

/-- The session is checked for the pin, then for the call. -/
theorem checked_before_effect_echo : ∃ s o name args pre s₁ env req session t,
    (System.machine echoConfig).run { fw := .init echoConfig {} } adaManages = some (s, o) ∧
      .issued 4 name args ∈ o ∧
      System.At echoConfig (.init echoConfig {}) adaManages pre s₁ (.handle env req) ∧
      System.Checked echoConfig (.init echoConfig {}) pre s₁ env req.sessionId session ∧
      System.At echoConfig (.init echoConfig {}) adaManages (adaManages.take 3) t
        (.requireManager {} (str "tok")) ∧
      System.Checked echoConfig (.init echoConfig {}) (adaManages.take 3) t {} (str "tok") ada ∧
      (s.fw.db.sessions.get (echoSha256.digest (str "tok2"))).any SessionRow.revoked = true := by
  have hmanager : ((System.machine echoConfig).run { fw := .init echoConfig {} }
      (adaManages.take 3)).any (fun p => decide
        ((p.1.fw.requireManager echoConfig {} (str "tok")).result.toOption = some ada)) = true := by
    decide +kernel
  have hstart : ((System.machine echoConfig).run { fw := .init echoConfig {} }
      (adaManages.take 4)).any (fun p => decide (p.1.tasks.length = 3)) = true := by
    decide +kernel
  have hpin : ((System.machine echoConfig).run { fw := .init echoConfig {} }
      (adaManages.take 5)).any (fun p =>
        (System.step echoConfig p.1 (.approveTools 3 (fun _ => {}) (.listing [echo]))).any fun q =>
          decide (q.1.fw.db.pinned (str "echo") ≠ p.1.fw.db.pinned (str "echo"))) = true := by
    decide +kernel
  have hall : ((System.machine echoConfig).run { fw := .init echoConfig {} } adaManages).any
      (fun p => p.1.tasks[4]?.any Task.calling &&
        (p.1.fw.db.sessions.get (echoSha256.digest (str "tok2"))).any SessionRow.revoked) =
          true := by
    decide +kernel
  obtain ⟨⟨t, o₁⟩, hrun₁, hok⟩ := exists_of_decide hmanager
  obtain ⟨⟨t₂, o₂⟩, hrun₂, hlen⟩ := exists_of_decide hstart
  obtain ⟨⟨t₃, o₃⟩, hrun₃, hpin⟩ := (Option.any_eq_true _ _).mp hpin
  obtain ⟨⟨t₄, o₄⟩, hstep, hpin⟩ := exists_of_decide hpin
  obtain ⟨⟨s, o⟩, hrun, hfacts⟩ := (Option.any_eq_true _ _).mp hall
  obtain ⟨hcalling, hrevoked⟩ := Bool.and_eq_true_iff.mp hfacts
  obtain ⟨hcalls, hpins⟩ := System.checked_before_effect hrun
  -- the call
  obtain ⟨task, htask, hcalling⟩ := (Option.any_eq_true _ _).mp hcalling
  obtain ⟨req, ctx, rfl⟩ : ∃ req ctx, task = .handleCall req ctx := by
    cases task with
    | handleCall req ctx => exact ⟨req, ctx, rfl⟩
    | _ => cases hcalling
  have hissued := System.run_issued hrun htask
  obtain ⟨pre, s₁, env, req', session, hat, -, -, -, hchecked⟩ := hcalls 4 _ _ hissued
  refine ⟨s, o, req.tool, req.arguments, pre, s₁, env, req', session, t, hrun, hissued, hat,
    hchecked, ⟨_, o₁, rfl, hrun₁⟩, ?_, hrevoked⟩
  -- the pin, which only an approval can have changed
  rcases hpins (adaManages.take 5) t₃ _ t₄ o₄ ⟨_, o₃, rfl, hrun₃⟩ hstep with
    hsame | happroves
  · exact absurd (Firewall.pinned_congr hsame (str "echo")) hpin
  · obtain ⟨id, envs, tools, approver, names, pre₀, s₀, env₀, ha, -, hat₀, hlen₀, hstood⟩ :=
      happroves
    cases ha
    have hat₂ : System.At echoConfig (.init echoConfig {}) (adaManages.take 5) (adaManages.take 4)
        t₂ (.approve {} ada none) := ⟨_, o₂, rfl, hrun₂⟩
    obtain ⟨rfl, -, heq⟩ := System.start_unique hat₀ hat₂ rfl rfl
      (hlen₀.trans hlen.symm)
    obtain ⟨-, rfl, -⟩ := Act.approve.inj heq
    refine hstood _ t {} (str "tok") ⟨_, o₁, rfl, hrun₁⟩ ?_
    cases hresult : (t.fw.requireManager echoConfig {} (str "tok")).result with
    | error e =>
        rw [hresult] at hok
        cases hok
    | ok approver =>
        rw [hresult] at hok
        exact congrArg Except.ok (Option.some.inj hok)

/-! ## A revocation during the listing -/

/-- The session is revoked while its request awaits `list_tools`. -/
def revokedWhileListing : List Act :=
  echoSetup ++ [.handle {} echoRequest, .revoke (str "tok"), .handleTools 2 {} (.listing [echo])]

/-- The call still goes out, though the revocation has found the
session. -/
theorem revoked_call_issued : ¬ ∀ (cfg : Config) (fw : Firewall) (as : List Act) (s : System)
    (o : List Event), (System.machine cfg).run { fw } as = some (s, o) →
      ∀ pre s₁ r env reply name args s₂ o₂, System.At cfg fw as pre s₁ (.handleTools r env reply) →
        System.step cfg s₁ (.handleTools r env reply) = some (s₂, o₂) →
        .issued r name args ∈ o₂ →
        ∀ pre₀ s₀ env₀ req, System.At cfg fw as pre₀ s₀ (.handle env₀ req) →
          s₀.tasks.length = r →
          ∀ p t, System.At cfg fw pre p t (.revoke req.sessionId) →
            t.fw.db.sessions.get (cfg.sha256.digest req.sessionId) = none := by
  intro hall
  have hsetup : ((System.machine echoConfig).run { fw := .init echoConfig {} } echoSetup).any
      (fun p => decide (p.1.tasks.length = 2)) = true := by
    decide +kernel
  have hhandled : ((System.machine echoConfig).run { fw := .init echoConfig {} }
      (revokedWhileListing.take 5)).any
        (fun p => (p.1.fw.db.sessions.get (echoSha256.digest (str "tok"))).isSome) = true := by
    decide +kernel
  have hrevoked : ((System.machine echoConfig).run { fw := .init echoConfig {} }
      (revokedWhileListing.take 6)).any
        (fun p => (System.step echoConfig p.1 (.handleTools 2 {} (.listing [echo]))).any
          fun q => q.2.any Event.isIssued) = true := by
    decide +kernel
  obtain ⟨⟨s₀, o₀⟩, hrun₀, hlen⟩ := (Option.any_eq_true _ _).mp hsetup
  obtain ⟨⟨t, o₁⟩, hrun₁, hsession⟩ := (Option.any_eq_true _ _).mp hhandled
  obtain ⟨⟨s₁, o₂⟩, hrun₂, hstep⟩ := (Option.any_eq_true _ _).mp hrevoked
  obtain ⟨⟨s₂, o₃⟩, hstep, hissued⟩ := (Option.any_eq_true _ _).mp hstep
  obtain ⟨e, he, hissued⟩ := List.any_eq_true.mp hissued
  have hrun : (System.machine echoConfig).run { fw := .init echoConfig {} }
      (revokedWhileListing.take 6 ++ [.handleTools 2 {} (.listing [echo])]) =
        some (s₂, o₂ ++ o₃) :=
    ((System.machine echoConfig).run_concat_eq_some).mpr ⟨s₁, o₂, o₃, hrun₂, hstep, rfl⟩
  cases e with
  | issued id name args =>
      have hid : some id = some 2 := (System.step_shape hstep).id_eq _ he
      obtain rfl := Option.some.inj hid
      have hnone := hall echoConfig (.init echoConfig {}) revokedWhileListing s₂ (o₂ ++ o₃) hrun
        (revokedWhileListing.take 6) s₁ 2 {} (.listing [echo]) name args s₂ o₃ ⟨[], o₂, rfl, hrun₂⟩
        hstep he echoSetup s₀ {} echoRequest ⟨_, o₀, rfl, hrun₀⟩ (of_decide_eq_true hlen)
        (revokedWhileListing.take 5) t ⟨[], o₁, rfl, hrun₁⟩
      have hfound : t.fw.db.sessions.get (echoSha256.digest (str "tok")) = none := hnone
      simp only [hfound] at hsession
      cases hsession
  | _ => cases hissued

end AgenticFirewall
