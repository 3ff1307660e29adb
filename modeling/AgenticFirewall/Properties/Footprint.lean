import AgenticFirewall.Answers
import AgenticFirewall.Firewall.BreakerUse
import AgenticFirewall.Properties.Budgets
import AgenticFirewall.Properties.Growth
import AgenticFirewall.Properties.LimiterMemory

/-!
# What the firewall keeps in memory

The request limiter and the breakers keep something for each name they are
asked about. They are only asked about names someone has set up: users that
are registered and tools that a manager has approved. So no caller can make
these two tables grow. The login limiter is not covered: it is asked about
the client's address, before anybody is known, and what it keeps grows with
the clients until it is swept.
-/

namespace AgenticFirewall

open Py Transition

/-! ## The keys of the tables -/

theorem SlidingWindowRateLimiter.mem_keys_check {l : SlidingWindowRateLimiter} {now : ℚ}
    {key k : Str} (h : k ∈ (l.check now key).2.hits.keys) : k = key ∨ k ∈ l.hits.keys := by
  have hsweep : ∀ k, k ∈ (l.maybeSweep (now - l.windowSeconds)).hits.keys → k ∈ l.hits.keys := by
    intro k hk
    unfold maybeSweep at hk
    split at hk
    · exact (List.filter_sublist.map Prod.fst).subset hk
    · exact hk
  have hset : ∀ hits : List ℚ,
      k ∈ ((l.maybeSweep (now - l.windowSeconds)).hits.set key hits).keys →
        k = key ∨ k ∈ l.hits.keys := by
    intro hits hk
    exact (Dict.mem_of_mem_keys_set hk).imp_right (hsweep k)
  unfold check at h
  simp only at h
  split at h
  · exact hset _ h
  · exact hset _ h

namespace CircuitBreakerRegistry

variable {r : CircuitBreakerRegistry} {tool k : Str}

theorem mem_keys_get (h : k ∈ (r.get tool).2.breakers.keys) :
    k = tool ∨ k ∈ r.breakers.keys := by
  unfold get at h
  split at h
  · exact .inr h
  · exact Dict.mem_of_mem_keys_set h

theorem mem_keys_put {cb : CircuitBreaker} (h : k ∈ ((r.get tool).2.put tool cb).breakers.keys) :
    k = tool ∨ k ∈ r.breakers.keys := by
  rcases Dict.mem_of_mem_keys_set h with heq | h
  · exact .inl heq
  · exact mem_keys_get h

end CircuitBreakerRegistry

namespace Firewall

variable {cfg : Config} {env : Env} {req : ToolRequest} {ctx : Ctx} {fw : Firewall} {k : Str}

/-- The breaker of a tool is asked once its pin has been checked. -/
theorem pinned_of_toolsOps {reply : ToolsReply} (h : toolsOps cfg env req fw reply ≠ []) :
    (fw.db.pinned req.tool).isSome = true := by
  unfold toolsOps at h
  split at h
  · exact absurd rfl h
  · split at h
    · rename_i defn hunique
      split at h
      · exact absurd rfl h
      · rename_i integrity hverify
        split at h
        · exact absurd rfl h
        · rename_i hok
          have hname : defn.name = req.tool := (show Unique req _ defn from hunique).name
          have hpin := pinned_of_verify (Env.attempt_eq_ok hverify) (by simpa using hok)
          rw [hname] at hpin
          rw [hpin]
          rfl
    · exact absurd rfl h

theorem tools_keys {reply : ToolsReply}
    (h : k ∈ (fw.pipelineTools cfg env req ctx reply).2.breakers.breakers.keys) :
    (fw.db.pinned k).isSome = true ∨ k ∈ fw.breakers.breakers.keys := by
  have huse := pipelineTools_use cfg env req fw ctx reply
  have hpinned : toolsOps cfg env req fw reply ≠ [] → (fw.db.pinned req.tool).isSome = true :=
    pinned_of_toolsOps
  generalize fw.pipelineTools cfg env req ctx reply = out at h huse
  generalize toolsOps cfg env req fw reply = ops at huse hpinned
  cases huse with
  | notAsked hr => exact .inr h
  | asked hr =>
      rcases CircuitBreakerRegistry.mem_keys_put h with rfl | h
      · exact .inl (hpinned (by simp))
      · exact .inr h

theorem reply_keys {reply : CallReply}
    (h : k ∈ (fw.pipelineReply cfg env req ctx reply).2.breakers.breakers.keys) :
    k = req.tool ∨ k ∈ fw.breakers.breakers.keys := by
  have hfailed : k ∈ (fw.failed env req).breakers.breakers.keys →
      k = req.tool ∨ k ∈ fw.breakers.breakers.keys := CircuitBreakerRegistry.mem_keys_put
  have hanswered : ∀ r, k ∈ (fw.answered env req r).breakers.breakers.keys →
      k = req.tool ∨ k ∈ fw.breakers.breakers.keys := by
    intro r hk
    unfold answered at hk
    split at hk
    · exact hfailed hk
    · exact CircuitBreakerRegistry.mem_keys_put hk
  have hexit := pipelineReply_exit cfg env req fw ctx reply
  generalize fw.pipelineReply cfg env req ctx reply = out at h hexit
  cases hexit with
  | recordRaised hf => exact .inr h
  | cancelled hf => exact hfailed h
  | callFailed hr hf => exact hfailed h
  | scanRaised hf => exact hanswered _ h
  | outputBlocked hf hb => exact hanswered _ h
  | allowed hf hb => exact hanswered _ h

end Firewall

/-! ## Runs -/

namespace System

variable {cfg : Config} {db : Database} {s s' : System} {a : Act} {o : List Event}

/-- Whatever is kept is kept for a registered user or a pinned tool. -/
structure Provisioned (s : System) : Prop where
  users : ∀ key ∈ s.fw.limiter.hits.keys,
    ∃ id : Text, id.val = key ∧ (s.fw.db.users.get id).isSome = true
  tools : ∀ key ∈ s.fw.breakers.breakers.keys, (s.fw.db.pinned key).isSome = true
  calling : ∀ (id : Nat) (req : ToolRequest) (ctx : Ctx),
    s.tasks[id]? = some (.handleCall req ctx) →
      (s.fw.db.pinned req.tool).isSome = true

/-- A new key of the limiter is a user who came with a live session. -/
theorem users_step (hu : ∀ key ∈ s.fw.limiter.hits.keys,
      ∃ id : Text, id.val = key ∧ (s.fw.db.users.get id).isSome = true)
    (h : step cfg s a = some (s', o)) : ∀ key ∈ s'.fw.limiter.hits.keys,
      ∃ id : Text, id.val = key ∧ (s'.fw.db.users.get id).isSome = true := by
  intro key hkey
  have hgrows := (step_grows h).users
  have hbefore : ∃ id : Text, id.val = key ∧ (s.fw.db.users.get id).isSome = true := by
    have hlimiter : s'.fw.limiter = s.fw.limiter.after (a.check cfg s.fw).toList :=
      requestMeter_sole s a s' o h
    rw [hlimiter] at hkey
    cases hcheck : a.check cfg s.fw with
    | none =>
        rw [hcheck] at hkey
        exact hu key hkey
    | some c =>
        rw [hcheck] at hkey
        rcases SlidingWindowRateLimiter.mem_keys_check hkey with rfl | hkey
        · obtain ⟨p, -, hread⟩ := Option.bind_eq_some_iff.mp hcheck
          obtain ⟨session, hlive, huser⟩ := Firewall.reading_eq_some hread
          obtain ⟨row, user, -, hstored, -, -, rfl⟩ := hlive.stored
          exact ⟨row.userId, huser.symm, by rw [hstored]; rfl⟩
        · exact hu key hkey
  obtain ⟨id, rfl, hid⟩ := hbefore
  exact ⟨id, rfl, hgrows.isSome hid⟩

/-- A new breaker is that of a tool whose pin was checked, now or when the
call was issued. -/
theorem tools_step (ha : s.Provisioned) (h : step cfg s a = some (s', o)) :
    ∀ key ∈ s'.fw.breakers.breakers.keys, (s'.fw.db.pinned key).isSome = true := by
  intro key hkey
  apply (step_grows h).pins
  have hsegment : s'.fw.breakers = (segment cfg s a).breakers := by rw [step_segment h]
  rcases step_breakers h with ⟨id, env, reply, rfl⟩ | ⟨id, env, reply, rfl⟩ | hsame
  · rw [hsegment] at hkey
    simp only [segment] at hkey
    split at hkey
    · exact (Firewall.tools_keys hkey).elim (fun hpin => hpin) (ha.tools key)
    · exact ha.tools key hkey
  · rw [hsegment] at hkey
    simp only [segment] at hkey
    split at hkey
    · rename_i req ctx htask
      rcases Firewall.reply_keys hkey with rfl | hkey
      · exact ha.calling id req ctx htask
      · exact ha.tools key hkey
    · exact ha.tools key hkey
  · rw [hsame] at hkey
    exact ha.tools key hkey

theorem Provisioned.step (ha : s.Provisioned) (h : step cfg s a = some (s', o)) :
    s'.Provisioned where
  users := users_step ha.users h
  tools := tools_step ha h
  calling id req ctx htask := by
    apply (step_grows h).pins
    rcases calling_after h htask with hbefore | ⟨env, tools, rfl, hfwd⟩
    · exact ha.calling id req ctx hbefore
    · obtain ⟨defn, -, hpin⟩ := hfwd.defn
      rw [hpin]
      rfl

/-- Distinct keys, each the name of a row. -/
theorem size_le {α β : Type} {d : Dict Str α} {rows : Dict Text β}
    (h : ∀ key ∈ d.keys, ∃ id : Text, id.val = key ∧ (rows.get id).isSome = true) :
    d.size ≤ rows.size := by
  have hsub : d.keys ⊆ rows.keys.map Text.val := by
    intro key hkey
    obtain ⟨id, rfl, hid⟩ := h key hkey
    obtain ⟨row, hrow⟩ := Option.isSome_iff_exists.mp hid
    exact List.mem_map_of_mem (List.mem_map_of_mem (Dict.get_eq_some_iff.mp hrow))
  have hle := (List.subperm_of_subset d.nodup hsub).length_le
  simpa [Dict.keys, Dict.size] using hle

/-- **No caller can make the two tables grow.** In every run: the request
limiter keeps times for registered users only, for each at most its limit,
and a breaker is made for pinned tools only; so there are no more of them
than rows that an operator registered and a manager approved. -/
theorem tables_bounded {as : List Act}
    (h : (machine cfg).run { fw := .init cfg db } as = some (s, o)) :
    (∀ key ∈ s.fw.limiter.hits.keys,
      ∃ id : Text, id.val = key ∧ (s.fw.db.users.get id).isSome = true) ∧
    (∀ key, (s.fw.limiter.deque key).length ≤ cfg.policy.rateLimit.maxRequests) ∧
    (∀ key ∈ s.fw.breakers.breakers.keys, (s.fw.db.pinned key).isSome = true) ∧
    s.fw.limiter.hits.size ≤ s.fw.db.users.size ∧
    s.fw.breakers.breakers.size ≤ s.fw.db.toolFingerprints.size := by
  have hprovisioned : s.Provisioned := by
    refine (machine cfg).run_invariant (fun _ _ _ _ ha hstep => ha.step hstep) ?_ h
    refine ⟨fun key hkey => ?_, fun key hkey => ?_, fun id req ctx htask => ?_⟩
    · cases hkey
    · cases hkey
    · simp at htask
  have hdeque : ∀ key, (s.fw.limiter.deque key).length ≤ cfg.policy.rateLimit.maxRequests := by
    obtain ⟨es, hw⟩ : ∃ es, ((requestMeter cfg).watched cfg).run { fw := .init cfg db } as =
      some (s, es) := (machine cfg).run_observe h
    have hlimiter : s.fw.limiter = (SlidingWindowRateLimiter.new _ _ cfg.policy.rateLimit.one_le
        cfg.policy.rateLimit.window_pos 10000).after (es.map Admission.check) :=
      (requestMeter_sole.run hw).1
    intro key
    rw [hlimiter]
    refine ((SlidingWindowRateLimiter.compact_after _).deque_le key).trans_eq ?_
    exact SlidingWindowRateLimiter.after_maxRequests _ _
  refine ⟨hprovisioned.users, hdeque, hprovisioned.tools, size_le hprovisioned.users,
    size_le fun key hkey => ?_⟩
  have hpin := hprovisioned.tools key hkey
  unfold Database.pinned at hpin
  split at hpin
  · rename_i hencodable
    exact ⟨⟨key, hencodable⟩, rfl, by simpa using hpin⟩
  · cases hpin

end System

/-- One user and one tool, in spite of requests with made-up sessions and
tools. -/
theorem tables_bounded_echo : ∃ s o,
    (System.machine echoConfig).run { fw := .init echoConfig {} } (echoCall ++
      [.handle {} { echoRequest with sessionId := str "made up" },
        .handle {} { echoRequest with tool := str "made_up" }]) = some (s, o) ∧
      s.fw.limiter.hits.size ≤ s.fw.db.users.size ∧
      s.fw.breakers.breakers.size ≤ s.fw.db.toolFingerprints.size ∧
      s.fw.db.users.size = 1 ∧ s.fw.db.toolFingerprints.size = 1 := by
  have hsizes : ((System.machine echoConfig).run { fw := .init echoConfig {} } (echoCall ++
      [.handle {} { echoRequest with sessionId := str "made up" },
        .handle {} { echoRequest with tool := str "made_up" }])).any
      (fun p => p.1.fw.db.users.size == 1 && p.1.fw.db.toolFingerprints.size == 1) = true := by
    decide +kernel
  obtain ⟨⟨s, o⟩, hrun, hsizes⟩ := (Option.any_eq_true _ _).mp hsizes
  obtain ⟨husers, hpins⟩ := Bool.and_eq_true_iff.mp hsizes
  obtain ⟨-, -, -, hlimiter, hbreakers⟩ := System.tables_bounded hrun
  exact ⟨s, o, hrun, hlimiter, hbreakers, beq_iff_eq.mp husers, beq_iff_eq.mp hpins⟩

end AgenticFirewall
