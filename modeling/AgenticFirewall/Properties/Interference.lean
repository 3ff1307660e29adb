import AgenticFirewall.Properties.Entry
import Mathlib.Data.Nat.Count

/-!
# Users do not interfere before the breaker

Two runs are compared: one with the calls of all users in any order, and
the one that is left when everything but the calls of one user is erased.
The calls that stay are renumbered. Up to the input scan each of them is
decided alike in both.
-/

namespace AgenticFirewall

open Py Transition

/-! ## The erased run -/

/-- The number of a call once the calls that are not `mine` are gone. -/
def rank (mine : Nat → Bool) (id : Nat) : Nat := Nat.count (fun k => mine k = true) id

/-- The action on the call `id` instead of its own. -/
def Act.retarget (id : Nat) : Act → Act
  | .handleTools _ env reply => .handleTools id env reply
  | .handleReply _ env reply => .handleReply id env reply
  | .approveTools _ envs reply => .approveTools id envs reply
  | .listTools _ envs reply => .listTools id envs reply
  | .cancel _ => .cancel id
  | a => a

/-- The action as it stays when `n` calls were opened before it; `none` when
it is erased. -/
def Act.kept (mine : Nat → Bool) (n : Nat) (a : Act) : Option Act :=
  if a.opens then
    if mine n then some a else none
  else
    match a.target with
    | none => some a
    | some id => if mine id then some (a.retarget (rank mine id)) else none

/-- The run without the calls that are not `mine`, calls counted from `n`. -/
def erase (mine : Nat → Bool) (n : Nat) : List Act → List Act
  | [] => []
  | a :: as => (a.kept mine n).toList ++ erase mine (if a.opens then n + 1 else n) as

section Erase

variable {mine : Nat → Bool} {n : Nat} {a b : Act} {as : List Act} {cfg : Config} {fw : Firewall}

theorem rank_succ (id : Nat) : rank mine (id + 1) = rank mine id + if mine id then 1 else 0 :=
  Nat.count_succ _ id

theorem rank_inj {id id' : Nat} (h : mine id = true) (h' : mine id' = true)
    (heq : rank mine id = rank mine id') : id = id' :=
  Nat.count_injective h h' heq

@[simp] theorem Act.retarget_opens (id : Nat) : (a.retarget id).opens = a.opens := by
  cases a <;> rfl

theorem Act.retarget_target {id r : Nat} (h : a.target = some id) :
    (a.retarget r).target = some r := by
  cases a <;> first | rfl | cases h

@[simp] theorem Act.retarget_isRequest (id : Nat) : (a.retarget id).isRequest = a.isRequest := by
  cases a <;> rfl

@[simp] theorem Act.retarget_check (id : Nat) :
    (a.retarget id).check cfg fw = a.check cfg fw := by
  cases a <;> rfl

/-- What is kept of an action is the action, renumbered. -/
theorem Act.kept_eq (h : a.kept mine n = some b) : b = a ∨ ∃ id, b = a.retarget id := by
  unfold Act.kept at h
  split at h
  · split at h
    · cases h
      exact .inl rfl
    · cases h
  · split at h
    · cases h
      exact .inl rfl
    · split at h
      · cases h
        exact .inr ⟨_, rfl⟩
      · cases h

theorem Act.kept_isRequest (h : a.kept mine n = some b) : b.isRequest = a.isRequest := by
  rcases Act.kept_eq h with rfl | ⟨id, rfl⟩
  · rfl
  · simp

theorem Act.kept_check (h : a.kept mine n = some b) : b.check cfg fw = a.check cfg fw := by
  rcases Act.kept_eq h with rfl | ⟨id, rfl⟩
  · rfl
  · simp

/-- What is kept of the last action depends on the calls opened before it. -/
theorem erase_concat :
    erase mine n (as ++ [a]) =
      erase mine n as ++ (a.kept mine (n + as.countP Act.opens)).toList := by
  induction as generalizing n with
  | nil => simp [erase]
  | cons b bs ih =>
      have hcount : (if b.opens then n + 1 else n) + bs.countP Act.opens =
          n + (b :: bs).countP Act.opens := by
        rw [List.countP_cons]
        split
        · omega
        · omega
      simp only [List.cons_append, erase, ih, List.append_assoc, hcount]

/-- The kept calls are numbered without gaps. -/
theorem erase_opens : (erase mine 0 as).countP Act.opens = rank mine (as.countP Act.opens) := by
  induction as using List.reverseRecOn with
  | nil => simp [erase, rank]
  | append_singleton as a ih =>
      rw [erase_concat, List.countP_append, ih, List.countP_append, Nat.zero_add]
      by_cases hopens : a.opens = true
      · by_cases hmine : mine (as.countP Act.opens) = true
        · simp [Act.kept, hopens, hmine, rank_succ]
        · simp [Act.kept, hopens, hmine, rank_succ]
      · have hkept : (a.kept mine (as.countP Act.opens)).toList.countP Act.opens = 0 := by
          rw [List.countP_eq_zero]
          intro b hb
          rcases Act.kept_eq (Option.mem_toList.mp hb) with rfl | ⟨id, rfl⟩
          · exact hopens
          · simpa using hopens
        simp [hkept, hopens]

theorem erase_isRequest (h : ∀ a ∈ as, a.isRequest = true) :
    ∀ a ∈ erase mine n as, a.isRequest = true := by
  induction as generalizing n with
  | nil => simp [erase]
  | cons b bs ih =>
      intro a ha
      rcases List.mem_append.mp ha with ha | ha
      · rw [Act.kept_isRequest (Option.mem_toList.mp ha)]
        exact h b (by simp)
      · exact ih (fun c hc => h c (List.mem_cons_of_mem _ hc)) a ha

/-- The kept calls of the limiter are among those of the whole run. -/
theorem erase_checks :
    ((erase mine n as).filterMap (Act.check cfg fw)).Sublist (as.filterMap (Act.check cfg fw)) := by
  induction as generalizing n with
  | nil => simp [erase]
  | cons a as ih =>
      have hsplit : (a :: as).filterMap (Act.check cfg fw) =
          (a.check cfg fw).toList ++ as.filterMap (Act.check cfg fw) := by
        cases h : a.check cfg fw with
        | none => simp [h]
        | some c => simp [h]
      rw [erase, List.filterMap_append, hsplit]
      refine List.Sublist.append ?_ ih
      cases hkept : a.kept mine n with
      | none => simp
      | some b =>
          have hcheck : b.check cfg fw = a.check cfg fw := Act.kept_check hkept
          cases h : a.check cfg fw with
          | none => simp [h, hcheck]
          | some c => simp [h, hcheck]

/-- The calls that are `mine` are those of user `A`, as far as the session a
request enters with is anyone's. -/
def Owns (cfg : Config) (fw : Firewall) (mine : Nat → Bool) (A : Str) (as : List Act) : Prop :=
  ∀ pre a post env sessionId session, as = pre ++ a :: post → a.entry = some (env, sessionId) →
    Authenticator.Live cfg.sha256 (env.time .validate) sessionId fw.db session →
    (mine (pre.countP Act.opens) = true ↔ session.userId = A)

theorem Owns.before {A : Str} (h : Owns cfg fw mine A (as ++ [a])) : Owns cfg fw mine A as := by
  intro pre b post env sessionId session heq hentry hlive
  exact h pre b (post ++ [a]) env sessionId session (by simp [heq]) hentry hlive

/-- A call of the limiter for `A` is made by a call that is kept. -/
theorem Owns.check {A : Str} (h : Owns cfg fw mine A (as ++ [a])) {c : Check}
    (hcheck : a.check cfg fw = some c) :
    a.opens = true ∧ (mine (as.countP Act.opens) = true ↔ c.key = A) := by
  obtain ⟨⟨env, sessionId⟩, hentry, hreading⟩ := Option.bind_eq_some_iff.mp hcheck
  obtain ⟨session, hlive, hkey⟩ := Firewall.reading_eq_some hreading
  refine ⟨?_, ?_⟩
  · cases a <;> first | rfl | cases hentry
  · rw [hkey]
    exact h as a [] env sessionId session rfl hentry hlive

/-- Erasing keeps the limiter's calls for `A` as they are. -/
theorem erase_own {A : Str} (h : Owns cfg fw mine A as) :
    ((erase mine 0 as).filterMap (Act.check cfg fw)).filter (fun c => c.key = A) =
      (as.filterMap (Act.check cfg fw)).filter fun c => c.key = A := by
  induction as using List.reverseRecOn with
  | nil => rfl
  | append_singleton as a ih =>
      have hlast : ((a.kept mine (as.countP Act.opens)).toList.filterMap (Act.check cfg fw)).filter
          (fun c => c.key = A) = ([a].filterMap (Act.check cfg fw)).filter fun c => c.key = A := by
        cases hkept : a.kept mine (as.countP Act.opens) with
        | some b =>
            have hcheck : b.check cfg fw = a.check cfg fw := Act.kept_check hkept
            simp [hcheck, List.filterMap_cons]
        | none =>
            -- what is erased calls the limiter for another user, if at all
            cases hcheck : a.check cfg fw with
            | none => simp [hcheck]
            | some c =>
                obtain ⟨hopens, hiff⟩ := h.check hcheck
                have hnot : mine (as.countP Act.opens) = false := by
                  simpa [Act.kept, hopens] using hkept
                have hkey : c.key ≠ A := by
                  intro heq
                  rw [hiff.mpr heq] at hnot
                  cases hnot
                simp [hcheck, hkey]
      rw [erase_concat, List.filterMap_append, List.filter_append, List.filterMap_append,
        List.filter_append, ih h.before, Nat.zero_add, hlast]

end Erase

/-! ## What is compared -/

/-- How a request fares up to its input scan. -/
inductive Verdict where
  /-- denied at a stage up to the input scan -/
  | denied (stage : Stage) (reason : Str) (retryAfter : Option ℚ)
  /-- let on to the breaker -/
  | passed
  deriving DecidableEq

/-- The denial at an early stage that an event shows. -/
def Event.refusal : Event → Option (Nat × Verdict)
  | .returned id result =>
      if result.decision = .deny ∧ result.stage.early = true then
        some (id, .denied result.stage result.reason result.retryAfter)
      else none
  | _ => none

namespace System

/-- The request that an action lets on to the breaker. -/
def letOn (cfg : Config) (s : System) : Act → Option Nat
  | .handleTools id env reply =>
      match s.tasks[id]? with
      | some (.handleTools req ctx) =>
          if (s.fw.inspect cfg env req ctx reply).isNone then some id else none
      | _ => none
  | _ => none

/-- What a step decides about a request, by the number of its call. -/
def verdicts (cfg : Config) (s : System) (a : Act) : List (Nat × Verdict) :=
  match step cfg s a with
  | none => []
  | some (_, o) => o.filterMap Event.refusal ++ (letOn cfg s a).toList.map fun id => (id, .passed)

def verdictsOf (id : Nat) (v : List (Nat × Verdict)) : List Verdict :=
  (v.filter fun p => p.1 = id).map Prod.snd

/-- The firewall watched for what it decides before the breaker. -/
def watched (cfg : Config) : Machine System Act (Nat × Verdict) :=
  (machine cfg).observe (verdicts cfg)

/-- The request a call waits with for a listing. -/
def waiting (s : System) (id : Nat) : Option (ToolRequest × Ctx) :=
  match s.tasks[id]? with
  | some (.handleTools req ctx) => some (req, ctx)
  | _ => none

section Step

variable {cfg : Config} {s s' : System} {a : Act} {o : List Event} {id r : Nat} {env : Env}
  {req : ToolRequest} {ctx : Ctx} {v v' : List (Nat × Verdict)}

@[simp] theorem verdictsOf_nil : verdictsOf r [] = [] := rfl

theorem verdictsOf_append : verdictsOf r (v ++ v') = verdictsOf r v ++ verdictsOf r v' := by
  simp [verdictsOf]

theorem waiting_eq_some :
    waiting s id = some (req, ctx) ↔ s.tasks[id]? = some (.handleTools req ctx) := by
  unfold waiting
  split
  · rename_i h
    simp [h]
  · rename_i h
    simp only [reduceCtorEq, false_iff]
    exact h req ctx

theorem watched_step {w : List (Nat × Verdict)} (h : (watched cfg).step s a = some (s', w)) :
    (∃ o, step cfg s a = some (s', o)) ∧ w = verdicts cfg s a :=
  (machine cfg).observe_step_eq_some.mp h

theorem watched_step_eq (h : step cfg s a = some (s', o)) :
    (watched cfg).step s a = some (s', verdicts cfg s a) :=
  (machine cfg).observe_step_eq_some.mpr ⟨⟨o, h⟩, rfl⟩

theorem watched_step_eq_none : (watched cfg).step s a = none ↔ step cfg s a = none := by
  simp [watched, Machine.observe, machine]

/-- A step decides about its own call alone. -/
theorem mem_verdicts {p : Nat × Verdict} (hp : p ∈ verdicts cfg s a) : callOf s a = some p.1 := by
  unfold verdicts at hp
  split at hp
  · cases hp
  · rename_i s' o hstep
    rcases List.mem_append.mp hp with hp | hp
    · obtain ⟨e, he, hrefusal⟩ := List.mem_filterMap.mp hp
      have hid : e.id = p.1 := by
        unfold Event.refusal at hrefusal
        split at hrefusal
        · split at hrefusal
          · cases hrefusal
            rfl
          · cases hrefusal
        · cases hrefusal
      rw [← hid, (step_shape hstep).id_eq e he]
    · simp only [List.mem_map, Option.mem_toList] at hp
      obtain ⟨id, hid, rfl⟩ := hp
      unfold letOn at hid
      split at hid
      · split at hid
        · split at hid
          · cases hid
            rfl
          · cases hid
        · cases hid
      · cases hid

/-- A step leaves the other calls alone, and says nothing of them. -/
theorem step_other (h : step cfg s a = some (s', o)) (hr : callOf s a ≠ some r) :
    waiting s' r = waiting s r ∧ verdictsOf r (verdicts cfg s a) = [] := by
  refine ⟨by simp only [waiting, (step_frame h hr).1], ?_⟩
  rw [verdictsOf, List.map_eq_nil_iff, List.filter_eq_nil_iff]
  intro p hp heq
  exact hr (by rw [mem_verdicts hp, of_decide_eq_true heq])

/-- A call can always be opened. -/
theorem step_opens (cfg : Config) (s : System) (ha : a.opens = true) :
    ∃ s' o, step cfg s a = some (s', o) := by
  cases a with
  | handle env req =>
      simp only [step]
      split
      · exact ⟨_, _, rfl⟩
      · exact ⟨_, _, rfl⟩
  | approve env approver names =>
      simp only [step]
      split
      · exact ⟨_, _, rfl⟩
      · exact ⟨_, _, rfl⟩
  | list env sessionId =>
      simp only [step]
      split
      · exact ⟨_, _, rfl⟩
      · exact ⟨_, _, rfl⟩
  | requireManager env sessionId => exact ⟨_, _, rfl⟩
  | login env token userId apiKey clientKey => exact ⟨_, _, rfl⟩
  | _ => cases ha

/-! ## Steps in two firewalls -/

/-- The two firewalls decide a request that enters now alike. -/
structure Alike (cfg : Config) (a : Act) (fw fw' : Firewall) : Prop where
  accounts : SameAccounts fw.db fw'.db
  answers : ∀ c, a.check cfg fw = some c →
    (fw'.limiter.check c.now c.key).1 = (fw.limiter.check c.now c.key).1
  maxRequests : fw'.limiter.maxRequests = fw.limiter.maxRequests
  windowSeconds : fw'.limiter.windowSeconds = fw.limiter.windowSeconds

variable {t t' : System} {o' : List Event}

/-- What a request is refused with does not depend on its number, nor on the
firewall that writes the audit row. -/
theorem leave_refusals (x : Except Exc GatewayResult) (fw fw' : Firewall) :
    verdictsOf r ((leave r env req ctx x fw').2.filterMap Event.refusal) =
      verdictsOf id ((leave id env req ctx x fw).2.filterMap Event.refusal) := by
  simp only [leave, List.filterMap_cons, List.filterMap_nil, Event.refusal]
  by_cases hearly : (Firewall.handleResult env req ctx x).decision = .deny ∧
      (Firewall.handleResult env req ctx x).stage.early = true
  · simp [hearly, verdictsOf]
  · simp [hearly]

/-- Past the input scan a request is not refused early. -/
theorem stage_late {y : Except Exc (Option GatewayResult)} {x : Except Exc GatewayResult}
    (hy : Firewall.NotEarly y) (hx : ended y = some x) :
    (Firewall.handleResult env req ctx x).stage.early = false := by
  cases x with
  | error e => rfl
  | ok result => exact hy result (ended_eq_some hx rfl)

theorem handle_alike (halike : Alike cfg (.handle env req) s.fw t.fw)
    (hs : step cfg s (.handle env req) = some (s', o))
    (ht : step cfg t (.handle env req) = some (t', o')) :
    waiting t' t.tasks.length = waiting s' s.tasks.length ∧
      verdictsOf t.tasks.length (verdicts cfg t (.handle env req)) =
        verdictsOf s.tasks.length (verdicts cfg s (.handle env req)) := by
  have hlook : t.fw.lookup cfg env req.sessionId = s.fw.lookup cfg env req.sessionId :=
    Firewall.lookup_congr halike.accounts _
  obtain ⟨hresult, hctx⟩ := Firewall.pipelineStart_congr hlook halike.answers halike.maxRequests
    halike.windowSeconds
  simp only [verdicts, hs, ht, letOn]
  simp only [step] at hs ht
  rw [hresult, hctx] at ht
  cases hended : ended (s.fw.pipelineStart cfg env req).1 with
  | none =>
      rw [hended] at hs ht
      cases hs
      cases ht
      simp [waiting]
  | some x =>
      rw [hended] at hs ht
      cases hs
      cases ht
      refine ⟨by simp [waiting], ?_⟩
      simp only [Option.toList_none, List.map_nil, List.append_nil]
      exact leave_refusals x _ _

/-- Nothing is decided when a call other than a request is opened. -/
theorem open_other (h : step cfg s a = some (s', o)) (hopens : a.opens = true)
    (hnot : ∀ env req, a ≠ .handle env req) :
    waiting s' s.tasks.length = none ∧ verdictsOf s.tasks.length (verdicts cfg s a) = [] := by
  have hletOn : letOn cfg s a = none := by
    unfold letOn
    split
    · cases hopens
    · rfl
  cases step_shape h with
  | opened t ha ht hnew =>
      rcases hnew with ⟨rfl, hend⟩ | ⟨hstart, -, rfl⟩
      · refine ⟨by simp [waiting, ht], ?_⟩
        have hrefusal : o.filterMap Event.refusal = [] := by
          rw [List.filterMap_eq_nil_iff]
          intro e he
          cases hend.said he with
          | returned h ho =>
              cases h with
              | start h hx => exact absurd rfl (hnot _ _)
              | _ => cases hopens
          | _ => rfl
        simp [verdicts, h, hletOn, hrefusal]
      · cases hstart with
        | handle hadm => exact absurd rfl (hnot _ _)
        | approve hrole => simp [waiting, ht, verdicts, h, hletOn]
        | list hlive => simp [waiting, ht, verdicts, h, hletOn]
  | moved id t t' ha hid hrun hleft ht hnew =>
      rw [hopens] at ha
      cases ha
  | outside ha hid ht hdb ho =>
      rw [hopens] at ha
      cases ha

/-- **The first step**: an entry that two firewalls decide alike. -/
theorem open_alike (halike : Alike cfg a s.fw t.fw) (hopens : a.opens = true)
    (hreq : a.isRequest = true) (hs : step cfg s a = some (s', o))
    (ht : step cfg t a = some (t', o')) :
    waiting t' t.tasks.length = waiting s' s.tasks.length ∧
      verdictsOf t.tasks.length (verdicts cfg t a) =
        verdictsOf s.tasks.length (verdicts cfg s a) := by
  cases a with
  | handle env req => exact handle_alike halike hs ht
  | list env sessionId =>
      obtain ⟨hwait, hsilent⟩ := open_other hs rfl nofun
      obtain ⟨hwait', hsilent'⟩ := open_other ht rfl nofun
      exact ⟨hwait'.trans hwait.symm, hsilent'.trans hsilent.symm⟩
  | requireManager env sessionId =>
      obtain ⟨hwait, hsilent⟩ := open_other hs rfl nofun
      obtain ⟨hwait', hsilent'⟩ := open_other ht rfl nofun
      exact ⟨hwait'.trans hwait.symm, hsilent'.trans hsilent.symm⟩
  | _ => cases hreq <;> cases hopens

/-- What the second segment decides of a request that waits. -/
theorem tools_verdicts {reply : Firewall.ToolsReply}
    (hrun : s.tasks[id]? = some (.handleTools req ctx)) :
    verdicts cfg s (.handleTools id env reply) =
      match s.fw.inspect cfg env req ctx reply with
      | none => [(id, .passed)]
      | some x => (leave id env req ctx x s.fw).2.filterMap Event.refusal := by
  have hletOn : letOn cfg s (.handleTools id env reply) =
      if (s.fw.inspect cfg env req ctx reply).isNone then some id else none := by
    simp [letOn, hrun]
  unfold verdicts
  rw [hletOn]
  simp only [step, hrun, Firewall.pipelineTools_eq]
  cases hinspect : s.fw.inspect cfg env req ctx reply with
  | some x =>
      cases x with
      | error e => simp [ended]
      | ok result => simp [ended]
  | none =>
      simp only [Option.isNone_none, if_true, Option.toList_some, List.map_singleton]
      cases hended : ended (s.fw.forward env req ctx).1 with
      | none => simp [Event.refusal]
      | some x =>
          have hlate : (Firewall.handleResult env req ctx x).stage.early = false :=
            stage_late Firewall.forward_notEarly hended
          simp [leave, Event.refusal, hlate]

/-- **The second step**: a request that waits in both gets the same listing. -/
theorem tools_alike {reply : Firewall.ToolsReply}
    (hpins : t.fw.db.toolFingerprints = s.fw.db.toolFingerprints)
    (hrun : s.tasks[id]? = some (.handleTools req ctx))
    (hrun' : t.tasks[r]? = some (.handleTools req ctx)) :
    verdictsOf r (verdicts cfg t (.handleTools r env reply)) =
      verdictsOf id (verdicts cfg s (.handleTools id env reply)) := by
  rw [tools_verdicts hrun, tools_verdicts hrun', Firewall.inspect_congr hpins]
  split
  · simp [verdictsOf]
  · exact leave_refusals _ _ _

/-- A call waits for a listing only until it goes on. -/
theorem step_waited (h : step cfg s a = some (s', o)) (hopens : a.opens = false)
    (htarget : a.target = some id) : waiting s' id = none := by
  cases step_shape h with
  | opened t ha ht hnew =>
      rw [hopens] at ha
      cases ha
  | outside ha hid ht hdb ho =>
      rw [htarget] at hid
      cases hid
  | moved id' t t' ha hid hrun hleft ht hnew =>
      obtain rfl : id = id' := Option.some.inj (htarget.symm.trans hid)
      have hlt := (List.getElem?_eq_some_iff.mp hrun).1
      rcases hnew with ⟨rfl, -⟩ | ⟨env, tools, req, ctx, -, -, -, rfl, -, -⟩
      · simp [waiting, ht, hlt]
      · simp [waiting, ht, hlt]

/-- Nothing is decided about a call that does not wait for a listing. -/
theorem step_later (h : step cfg s a = some (s', o)) (hopens : a.opens = false)
    (htarget : a.target = some id) (hwait : waiting s id = none) :
    verdictsOf id (verdicts cfg s a) = [] := by
  have hnot : ∀ req ctx, s.tasks[id]? ≠ some (.handleTools req ctx) := by
    intro req ctx hrun
    rw [waiting_eq_some.mpr hrun] at hwait
    cases hwait
  have hletOn : letOn cfg s a = none := by
    unfold letOn
    split
    · cases htarget
      split
      · rename_i hrun
        exact absurd hrun (hnot _ _)
      · rfl
    · rfl
  have hrefusal : o.filterMap Event.refusal = [] := by
    rw [List.filterMap_eq_nil_iff]
    intro e he
    by_cases hissued : e.isIssued = true
    · cases e with
      | issued id name args => rfl
      | _ => cases hissued
    · obtain ⟨hend, hcall, -⟩ := step_ending h he (by simpa using hissued)
      have hid : e.id = id := by simpa [callOf, hopens, htarget] using hcall.symm
      rw [hid] at hend
      cases hend.said he with
      | returned h ho =>
          cases h with
          | start h hx => cases hopens
          | tools hrun h hx => exact absurd hrun (hnot _ _)
          | reply hrun h hx =>
              rename_i env req ctx x fw reply r _
              have hend : r = (s.fw.pipelineReply cfg env req ctx reply).1 := by rw [h]
              have hlate : (Firewall.handleResult env req ctx x).stage.early = false :=
                stage_late (hend ▸ Firewall.pipelineReply_notEarly reply) hx
              simp [Event.refusal, hlate]
      | _ => rfl
  simp [verdicts, h, hletOn, hrefusal]

/-- **A later step**: a call that waits in both, or in neither, goes on in
the second firewall if it can. -/
theorem continue_alike (hpins : t.fw.db.toolFingerprints = s.fw.db.toolFingerprints)
    (hreq : a.isRequest = true) (hopens : a.opens = false) (htarget : a.target = some id)
    (hwait : waiting t r = waiting s id) (hs : step cfg s a = some (s', o)) :
    (step cfg t (a.retarget r) = none → waiting t r = waiting s' id ∧
      verdictsOf id (verdicts cfg s a) = []) ∧
    ∀ t' o', step cfg t (a.retarget r) = some (t', o') → waiting t' r = waiting s' id ∧
      verdictsOf r (verdicts cfg t (a.retarget r)) = verdictsOf id (verdicts cfg s a) := by
  have htarget' := Act.retarget_target (r := r) htarget
  have hopens' : (a.retarget r).opens = false := by rw [Act.retarget_opens, hopens]
  have hnone := step_waited hs hopens htarget
  cases hwaits : waiting s id with
  | none =>
      -- past the listing the breakers may differ, and with them what is enabled
      rw [hwaits] at hwait
      have hsilent := step_later hs hopens htarget hwaits
      refine ⟨fun _ => ⟨hwait.trans hnone.symm, hsilent⟩, ?_⟩
      intro t' o' ht
      exact ⟨(step_waited ht hopens' htarget').trans hnone.symm,
        (step_later ht hopens' htarget' hwait).trans hsilent.symm⟩
  | some p =>
      obtain ⟨req, ctx⟩ := p
      have hrun := waiting_eq_some.mp hwaits
      have hrun' := waiting_eq_some.mp (hwait.trans hwaits)
      cases a with
      | handleTools id' env reply =>
          obtain rfl : id' = id := Option.some.inj htarget
          refine ⟨fun hdisabled => ?_, fun t' o' ht => ?_⟩
          · simp only [Act.retarget, step, hrun'] at hdisabled
            split at hdisabled <;> cases hdisabled
          · exact ⟨(step_waited ht hopens' htarget').trans hnone.symm,
              tools_alike hpins hrun hrun'⟩
      | cancel id' =>
          obtain rfl : id' = id := Option.some.inj htarget
          refine ⟨fun hdisabled => ?_, fun t' o' ht => ?_⟩
          · simp [Act.retarget, step, hrun'] at hdisabled
          · refine ⟨(step_waited ht hopens' htarget').trans hnone.symm, ?_⟩
            simp only [verdicts, Act.retarget, step, hrun, hrun', letOn]
            rfl
      | handleReply id' env reply =>
          obtain rfl : id' = id := Option.some.inj htarget
          simp [step, hrun] at hs
      | listTools id' envs reply =>
          obtain rfl : id' = id := Option.some.inj htarget
          simp [step, hrun] at hs
      | _ => cases hreq <;> cases htarget

end Step

/-! ## Two runs -/

section Runs

open SlidingWindowRateLimiter

variable {cfg : Config} {fw : Firewall} {as : List Act} {mine : Nat → Bool} {A : Str}

/-- What the requests of a run leave behind of what later ones read. -/
structure Served (cfg : Config) (fw : Firewall) (as : List Act) (s : System) : Prop where
  accounts : SameAccounts fw.db s.fw.db
  pins : s.fw.db.toolFingerprints = fw.db.toolFingerprints
  limiter : s.fw.limiter = fw.limiter.after (as.filterMap (Act.check cfg fw))
  length : s.tasks.length = as.countP Act.opens

/-- A call of the limiter is made by an action that opens a call. -/
theorem check_of_continues {a : Act} (h : a.opens = false) : a.check cfg fw = none := by
  cases a <;> first | rfl | cases h

theorem check_congr_accounts {fw' : Firewall} {a : Act} (h : SameAccounts fw.db fw'.db) :
    a.check cfg fw' = a.check cfg fw := by
  unfold Act.check
  congr 1
  funext p
  exact Firewall.reading_congr h p.2

theorem target_of_request {a : Act} (h : a.isRequest = true) (hopens : a.opens = false) :
    ∃ id, a.target = some id := by
  cases a <;> simp_all [Act.isRequest, Act.opens, Act.target]

/-- One more action of a request. -/
theorem Served.step {s s' : System} {a : Act} {o : List Event} (h : Served cfg fw as s)
    (ha : a.isRequest = true) (hstep : System.step cfg s a = some (s', o)) :
    Served cfg fw (as ++ [a]) s' := by
  obtain ⟨haccounts, hpins⟩ := step_tables hstep ha
  refine ⟨h.accounts.trans haccounts, hpins.trans h.pins, ?_, ?_⟩
  · rw [step_limiter hstep ha, h.limiter, check_congr_accounts h.accounts, List.filterMap_append,
      after_append]
    cases hcheck : a.check cfg fw with
    | none => simp [hcheck]
    | some c => simp [hcheck]
  · rw [step_length hstep, h.length]
    simp [List.countP_append, List.countP_singleton]

/-- An action that is skipped. -/
theorem Served.skip {s : System} {a : Act} (h : Served cfg fw as s)
    (hskip : System.step cfg s a = none) : Served cfg fw (as ++ [a]) s := by
  have hopens : a.opens = false := by
    by_contra hopens
    obtain ⟨s', o, hstep⟩ := step_opens cfg s (by simpa using hopens)
    rw [hskip] at hstep
    cases hstep
  refine ⟨h.accounts, h.pins, ?_, ?_⟩
  · rw [h.limiter, List.filterMap_append]
    simp [check_of_continues hopens]
  · rw [h.length, List.countP_append]
    simp [hopens]

theorem served_replay (h : ∀ a ∈ as, a.isRequest = true) :
    Served cfg fw as ((watched cfg).replay { fw } as).1 := by
  induction as using List.reverseRecOn with
  | nil => exact ⟨.refl _, rfl, rfl, rfl⟩
  | append_singleton as a ih =>
      have hbefore := ih fun b hb => h b (List.mem_append_left _ hb)
      rw [Machine.replay_concat]
      cases hstep : (watched cfg).step ((watched cfg).replay { fw } as).1 a with
      | none => exact hbefore.skip (watched_step_eq_none.mp hstep)
      | some p =>
          obtain ⟨s', w⟩ := p
          obtain ⟨⟨o, hstep'⟩, -⟩ := watched_step hstep
          exact hbefore.step (h a (by simp)) hstep'

/-- A state of the whole run and one of the erased run, with what was decided
before them, agree on the calls that are `mine`. -/
structure Agree (mine : Nat → Bool) (s t : System) (v w : List (Nat × Verdict)) : Prop where
  waiting : ∀ id, mine id = true → waiting t (rank mine id) = waiting s id
  verdicts : ∀ id, mine id = true → verdictsOf (rank mine id) w = verdictsOf id v

section Agree

variable {s s' t t' : System} {v w : List (Nat × Verdict)} {a b : Act} {o o' : List Event}
  {id : Nat}

/-- The step of a call that is erased. -/
theorem Agree.erased (h : Agree mine s t v w) (hs : System.step cfg s a = some (s', o))
    (hcall : callOf s a = some id) (hmine : mine id = false) :
    Agree mine s' t (v ++ System.verdicts cfg s a) w := by
  have hne : ∀ r, mine r = true → callOf s a ≠ some r := by
    intro r hr heq
    rw [Option.some.inj (heq.symm.trans hcall), hmine] at hr
    cases hr
  refine ⟨fun r hr => ?_, fun r hr => ?_⟩
  · rw [(step_other hs (hne r hr)).1, h.waiting r hr]
  · rw [verdictsOf_append, (step_other hs (hne r hr)).2, List.append_nil, h.verdicts r hr]

/-- The step of a call that is kept, where the erased run takes none. -/
theorem Agree.skipped (h : Agree mine s t v w) (hs : System.step cfg s a = some (s', o))
    (hcall : callOf s a = some id)
    (hwait : System.waiting t (rank mine id) = System.waiting s' id)
    (hsilent : verdictsOf id (System.verdicts cfg s a) = []) :
    Agree mine s' t (v ++ System.verdicts cfg s a) w := by
  have hne : ∀ r, r ≠ id → callOf s a ≠ some r := by
    intro r hr heq
    exact hr (Option.some.inj (heq.symm.trans hcall))
  refine ⟨fun r hr => ?_, fun r hr => ?_⟩
  · by_cases heq : r = id
    · rw [heq, hwait]
    · rw [(step_other hs (hne r heq)).1, h.waiting r hr]
  · by_cases heq : r = id
    · rw [heq, verdictsOf_append, hsilent, List.append_nil, h.verdicts id (heq ▸ hr)]
    · rw [verdictsOf_append, (step_other hs (hne r heq)).2, List.append_nil, h.verdicts r hr]

/-- The step of a call that is kept, taken in both runs. -/
theorem Agree.both (h : Agree mine s t v w) (hs : System.step cfg s a = some (s', o))
    (ht : System.step cfg t b = some (t', o')) (hmine : mine id = true)
    (hcall : callOf s a = some id) (hcall' : callOf t b = some (rank mine id))
    (hwait : System.waiting t' (rank mine id) = System.waiting s' id)
    (hsame : verdictsOf (rank mine id) (System.verdicts cfg t b) =
      verdictsOf id (System.verdicts cfg s a)) :
    Agree mine s' t' (v ++ System.verdicts cfg s a) (w ++ System.verdicts cfg t b) := by
  have hothers : ∀ r, mine r = true → r ≠ id →
      callOf s a ≠ some r ∧ callOf t b ≠ some (rank mine r) := by
    intro r hr hne
    rw [hcall, hcall']
    exact ⟨fun h => hne (Option.some.inj h).symm,
      fun h => hne (rank_inj hmine hr (Option.some.inj h)).symm⟩
  refine ⟨fun r hr => ?_, fun r hr => ?_⟩
  · by_cases heq : r = id
    · rw [heq, hwait]
    · obtain ⟨hne, hne'⟩ := hothers r hr heq
      rw [(step_other hs hne).1, (step_other ht hne').1, h.waiting r hr]
  · rw [verdictsOf_append, verdictsOf_append, h.verdicts r hr]
    by_cases heq : r = id
    · rw [heq, hsame]
    · obtain ⟨hne, hne'⟩ := hothers r hr heq
      rw [(step_other hs hne).2, (step_other ht hne').2]

end Agree

variable {limit : Nat} {window : ℚ} {one_le : 1 ≤ limit} {window_pos : 0 < window}
  {sweepThreshold : Nat} {calls : List Check}

/-- An entry of `A` finds the same in both runs: the limiter has served other
users differently, and `A` alike. -/
theorem served_alike {s t : System} {a : Act} (hs : Served cfg fw as s)
    (ht : Served cfg fw (erase mine 0 as) t)
    (hpast : fw.limiter = (new limit window one_le window_pos sweepThreshold).after calls)
    (hclock : Chronological (calls ++ (as ++ [a]).filterMap (Act.check cfg fw)))
    (howns : Owns cfg fw mine A (as ++ [a])) (hmine : mine (as.countP Act.opens) = true) :
    Alike cfg a s.fw t.fw where
  accounts := ⟨ht.accounts.1.trans hs.accounts.1.symm, ht.accounts.2.trans hs.accounts.2.symm⟩
  maxRequests := by rw [ht.limiter, hs.limiter, after_maxRequests, after_maxRequests]
  windowSeconds := by rw [ht.limiter, hs.limiter, after_windowSeconds, after_windowSeconds]
  answers := by
    intro c hcheck
    rw [check_congr_accounts hs.accounts] at hcheck
    have hkey : c.key = A := (howns.check hcheck).2.mp hmine
    have hclock' : Chronological ((calls ++ as.filterMap (Act.check cfg fw)) ++ [c]) := by
      simpa [hcheck] using hclock
    have hsub : ((calls ++ (erase mine 0 as).filterMap (Act.check cfg fw)) ++ [c]).Sublist
        ((calls ++ as.filterMap (Act.check cfg fw)) ++ [c]) :=
      (erase_checks.append_left calls).append_right [c]
    -- the limiters have served histories that differ in other keys only
    rw [ht.limiter, hs.limiter, hpast, ← after_append, ← after_append]
    refine check_congr hclock' (hclock'.sublist hsub) ?_
    rw [List.filter_append, List.filter_append, hkey, erase_own howns.before]

/-- One step of the whole run, and what is left of it in the erased run. -/
theorem Agree.step {s s' : System} {a : Act} {o : List Event} {v : List (Nat × Verdict)}
    (h : Agree mine s ((watched cfg).replay { fw } (erase mine 0 as)).1 v
      ((watched cfg).replay { fw } (erase mine 0 as)).2)
    (hserved : Served cfg fw as s) (hstep : System.step cfg s a = some (s', o))
    (hreq : ∀ b ∈ as ++ [a], b.isRequest = true)
    (hpast : fw.limiter = (new limit window one_le window_pos sweepThreshold).after calls)
    (hclock : Chronological (calls ++ (as ++ [a]).filterMap (Act.check cfg fw)))
    (howns : Owns cfg fw mine A (as ++ [a])) :
    Agree mine s' ((watched cfg).replay { fw } (erase mine 0 (as ++ [a]))).1
      (v ++ System.verdicts cfg s a)
      ((watched cfg).replay { fw } (erase mine 0 (as ++ [a]))).2 := by
  have hT : Served cfg fw (erase mine 0 as) ((watched cfg).replay { fw } (erase mine 0 as)).1 :=
    served_replay (erase_isRequest fun b hb => hreq b (List.mem_append_left _ hb))
  have ha : a.isRequest = true := hreq a (by simp)
  rw [erase_concat, Nat.zero_add]
  by_cases hopens : a.opens = true
  · have hcall : callOf s a = some (as.countP Act.opens) := by
      rw [callOf, if_pos hopens, hserved.length]
    by_cases hmine : mine (as.countP Act.opens) = true
    · have halike := served_alike hserved hT hpast hclock howns hmine
      obtain ⟨t', o', ht⟩ := step_opens cfg ((watched cfg).replay { fw } (erase mine 0 as)).1 hopens
      have hlength : ((watched cfg).replay { fw } (erase mine 0 as)).1.tasks.length =
          rank mine (as.countP Act.opens) := by rw [hT.length, erase_opens]
      obtain ⟨hwait, hsame⟩ := open_alike halike hopens ha hstep ht
      rw [hlength, hserved.length] at hwait hsame
      have hkept : a.kept mine (as.countP Act.opens) = some a := by
        simp [Act.kept, hopens, hmine]
      rw [hkept, Option.toList_some, Machine.replay_concat, watched_step_eq ht]
      exact h.both hstep ht hmine hcall (by rw [callOf, if_pos hopens, hlength]) hwait hsame
    · have hkept : a.kept mine (as.countP Act.opens) = none := by
        simp [Act.kept, hopens, hmine]
      rw [hkept, Option.toList_none, List.append_nil]
      exact h.erased hstep hcall (by simpa using hmine)
  · have hopens' : a.opens = false := by simpa using hopens
    obtain ⟨id, htarget⟩ := target_of_request ha hopens'
    have hcall : callOf s a = some id := by rw [callOf, if_neg hopens, htarget]
    by_cases hmine : mine id = true
    · have hkept : a.kept mine (as.countP Act.opens) = some (a.retarget (rank mine id)) := by
        simp [Act.kept, hopens, htarget, hmine]
      obtain ⟨hnone, hsome⟩ := continue_alike (hT.pins.trans hserved.pins.symm) ha hopens' htarget
        (h.waiting id hmine) hstep
      -- the erased run takes the step too, unless its breakers disable it
      rw [hkept, Option.toList_some, Machine.replay_concat]
      cases ht : System.step cfg ((watched cfg).replay { fw } (erase mine 0 as)).1
          (a.retarget (rank mine id)) with
      | none =>
          obtain ⟨hwait, hsilent⟩ := hnone ht
          rw [watched_step_eq_none.mpr ht]
          exact h.skipped hstep hcall hwait hsilent
      | some q =>
          obtain ⟨t', o'⟩ := q
          obtain ⟨hwait, hsame⟩ := hsome t' o' ht
          rw [watched_step_eq ht]
          refine h.both hstep ht hmine hcall ?_ hwait hsame
          rw [callOf, if_neg (by simpa using hopens), Act.retarget_target htarget]
    · have hkept : a.kept mine (as.countP Act.opens) = none := by
        simp [Act.kept, hopens, htarget, hmine]
      rw [hkept, Option.toList_none, List.append_nil]
      exact h.erased hstep hcall (by simpa using hmine)

/-- **Users do not interfere before the breaker**: in a run of requests of any
users, erasing the calls that are not of `A` changes neither what a call of
`A` is denied with up to the input scan, nor whether it is let on to the
breaker. -/
theorem no_interference {s : System} {v : List (Nat × Verdict)}
    (hrun : (watched cfg).run { fw } as = some (s, v))
    (hreq : ∀ a ∈ as, a.isRequest = true)
    (hpast : fw.limiter = (new limit window one_le window_pos sweepThreshold).after calls)
    (hclock : Chronological (calls ++ as.filterMap (Act.check cfg fw)))
    (howns : Owns cfg fw mine A as) {id : Nat} (hmine : mine id = true) :
    verdictsOf (rank mine id) ((watched cfg).replay { fw } (erase mine 0 as)).2 =
      verdictsOf id v := by
  suffices hagree : Agree mine s ((watched cfg).replay { fw } (erase mine 0 as)).1 v
      ((watched cfg).replay { fw } (erase mine 0 as)).2 by
    exact hagree.verdicts id hmine
  revert hreq hclock howns
  refine (watched cfg).run_history
    (motive := fun as s v => (∀ a ∈ as, a.isRequest = true) →
      Chronological (calls ++ as.filterMap (Act.check cfg fw)) → Owns cfg fw mine A as →
      Agree mine s ((watched cfg).replay { fw } (erase mine 0 as)).1 v
        ((watched cfg).replay { fw } (erase mine 0 as)).2)
    (fun _ _ _ => ⟨fun _ _ => rfl, fun _ _ => rfl⟩) ?_ hrun
  intro as s v a s' w hrun ih hstep hreq hclock howns
  -- the run skips nothing, so it has served what its replay has
  have hbefore : ∀ b ∈ as, b.isRequest = true := fun b hb => hreq b (List.mem_append_left _ hb)
  have hserved : Served cfg fw as s := by
    have hreplay : Served cfg fw as ((watched cfg).replay { fw } as).1 := served_replay hbefore
    rwa [(watched cfg).replay_of_run hrun] at hreplay
  obtain ⟨⟨o, hstep'⟩, rfl⟩ := watched_step hstep
  refine (ih hbefore ?_ howns.before).step hserved hstep' hreq hpast hclock howns
  rw [List.filterMap_append, ← List.append_assoc] at hclock
  exact (List.pairwise_append.mp hclock).1

end Runs

end System

/-! ## Two users -/

/-- The database once a second user has registered and logged in. -/
def sharedDb : Database :=
  ((System.machine echoConfig).replay { fw := .init echoConfig {} }
    (echoSetup ++ [.registerUser (str "bob") ada.role (str "correct horse battery"),
      .login {} (str "tok2") (str "bob") (str "correct horse battery") (str "127.0.0.1")])).1.fw.db

/-- A request of the first user among those of the second. -/
def sharedCall : List Act :=
  [.handle {} { echoRequest with sessionId := str "tok2" }, .handle {} echoRequest,
    .requireManager {} (str "tok2"), .handleTools 1 {} (.listing [echo])]

theorem shared_validate :
    (Authenticator.validate echoSha256 0 (str "tok") sharedDb).toOption.map
        UserSession.userId = some ada.userId ∧
      (Authenticator.validate echoSha256 0 (str "tok2") sharedDb).toOption.map
        UserSession.userId = some (str "bob") := by
  decide +kernel

/-- The one call of the first user is the second. -/
def adasCall (id : Nat) : Bool := id == 1

-- about any database that tells the two users apart, so that nothing evaluates the logins here
theorem sharedCall_owns {db : Database}
    (hada : (Authenticator.validate echoSha256 0 (str "tok") db).toOption.map
      UserSession.userId = some ada.userId)
    (hbob : (Authenticator.validate echoSha256 0 (str "tok2") db).toOption.map
      UserSession.userId = some (str "bob")) :
    Owns echoConfig (.init echoConfig db) adasCall ada.userId sharedCall := by
  have hfirst : ∀ {session : UserSession},
      Authenticator.Live echoSha256 0 (str "tok") db session → session.userId = ada.userId := by
    intro session hlive
    rw [Authenticator.validate_of_live hlive] at hada
    exact Option.some.inj hada
  have hsecond : ∀ {session : UserSession},
      Authenticator.Live echoSha256 0 (str "tok2") db session → session.userId ≠ ada.userId := by
    intro session hlive heq
    rw [Authenticator.validate_of_live hlive] at hbob
    exact absurd (heq.symm.trans (Option.some.inj hbob)) (by decide)
  intro pre a post env sessionId session heq hentry hlive
  rcases pre with _ | ⟨b, _ | ⟨c, _ | ⟨d, _ | ⟨e, pre⟩⟩⟩⟩
  · cases heq
    cases hentry
    exact iff_of_false (by decide) (hsecond hlive)
  · cases heq
    cases hentry
    exact iff_of_true rfl (hfirst hlive)
  · cases heq
    cases hentry
    exact iff_of_false (by decide) (hsecond hlive)
  · cases heq
    cases hentry
  · simp [sharedCall] at heq

/-- The second user's calls around it change nothing for the first. -/
theorem no_interference_shared : ∃ s v,
    (System.watched echoConfig).run { fw := .init echoConfig sharedDb } sharedCall = some (s, v) ∧
      System.verdictsOf 1 v = [.passed] ∧
      System.verdictsOf 0 ((System.watched echoConfig).replay { fw := .init echoConfig sharedDb }
        [.handle {} echoRequest, .handleTools 0 {} (.listing [echo])]).2 = [.passed] := by
  have hpassed : ((System.watched echoConfig).run { fw := .init echoConfig sharedDb }
      sharedCall).any (fun p => decide (System.verdictsOf 1 p.2 = [.passed])) = true := by
    decide +kernel
  obtain ⟨⟨s, v⟩, hrun, hv⟩ := (Option.any_eq_true _ _).mp hpassed
  have hclock : Chronological ([] ++ sharedCall.filterMap
      (Act.check echoConfig (.init echoConfig sharedDb))) := by
    unfold Chronological
    decide +kernel
  have hnew : (Firewall.init echoConfig sharedDb).limiter =
      (SlidingWindowRateLimiter.new _ _ echoPolicy.rateLimit.one_le
        echoPolicy.rateLimit.window_pos 10000).after [] := rfl
  have hsame : System.verdictsOf (rank adasCall 1)
      ((System.watched echoConfig).replay { fw := .init echoConfig sharedDb }
        (erase adasCall 0 sharedCall)).2 = System.verdictsOf 1 v :=
    System.no_interference hrun (by decide) hnew hclock
      (sharedCall_owns shared_validate.1 shared_validate.2) rfl
  have hv' : System.verdictsOf 1 v = [.passed] := of_decide_eq_true hv
  have hkept : erase adasCall 0 sharedCall =
      [.handle {} echoRequest, .handleTools 0 {} (.listing [echo])] := rfl
  have hrank : rank adasCall 1 = 0 := rfl
  rw [hkept, hrank] at hsame
  exact ⟨s, v, hrun, hv', hsame.trans hv'⟩

end AgenticFirewall
