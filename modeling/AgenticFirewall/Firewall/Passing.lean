import AgenticFirewall.Firewall.Segments

/-!
# What it takes to pass

For each segment of `handle`, every check it makes, and that the operation
behind it did not raise: the segment goes on (or allows) exactly when all of
them hold.
-/

namespace AgenticFirewall

open Py

namespace Firewall

variable (cfg : Config) (env : Env) (req : ToolRequest) (fw : Firewall)

/-- Steps 1 to 5 complete, and each passes. -/
structure StartPasses (session : UserSession) : Prop where
  lookup : fw.lookup cfg env req.sessionId = .ok session
  limiterRuns : env.fault .limiter = none
  limiter : (fw.limit env session.userId).1.allowed = true
  name : toolNameMatches req.tool = true
  classifyRuns : env.fault .classify = none
  authorizeRuns : env.fault .authorize = none
  authorized : (Authorizer.check cfg.policy.roles session.role req.tool
    (toolRisk cfg req)).allowed = true

/-- Steps 6 to 8 complete, and each passes. -/
structure ToolsPass (reply : ToolsReply) (tools : List ToolDefinition) (defn : ToolDefinition)
    (integrity : IntegrityResult) : Prop where
  listed : reply = .listing tools
  unique : Unique req tools defn
  verifies : env.attempt .verify (IntegrityChecker.verify cfg.sha256 defn fw.db) = .ok integrity
  ok : integrity.ok = true
  scanRuns : env.fault .inputScan = none
  scan : (scanInput cfg req).blocked = false
  allowRuns : env.fault .breakerAllow = none
  breaker : (fw.askBreaker env req).1 = true

/-- Steps 9 and 10 complete: `call_tool` returned the response, its outcome
was recorded and the scan finds nothing. -/
structure ReplyPasses (reply : CallReply) (r : ToolResponse) : Prop where
  response : reply = .response r
  recordRuns : env.fault .recordOutcome = none
  scanRuns : env.fault .outputScan = none
  scan : (scanOutput cfg r).blocked = false

variable {cfg env req fw} {ctx : Ctx}

theorem StartPasses.goes_on {session : UserSession} (h : StartPasses cfg env req fw session) :
    fw.pipelineStart cfg env req =
      (.ok none, ranked cfg req session, fw.counted env session.userId) := by
  have hlook := h.lookup
  have hlim := h.limiter
  have hauth := h.authorized
  unfold Firewall.lookup at hlook
  unfold limit at hlim
  unfold toolRisk at hauth
  unfold pipelineStart
  rw [hlook]
  simp only [h.limiterRuns, hlim, h.name, Env.attempt_none h.classifyRuns,
    Env.attempt_none h.authorizeRuns, hauth, Bool.not_true, Bool.false_eq_true, if_false]
  rfl

theorem startPasses_of_goes_on (h : (fw.pipelineStart cfg env req).1 = .ok none) :
    ∃ session, StartPasses cfg env req fw session := by
  unfold pipelineStart at h
  split at h
  · cases h
  · cases h
  · rename_i session hlook
    split at h
    · cases h
    · rename_i hlimiter
      simp only at h
      split at h
      · cases h
      · rename_i hl
        split at h
        · cases h
        · rename_i hn
          split at h
          · cases h
          · rename_i risk hrisk
            split at h
            · cases h
            · rename_i decision hd
              split at h
              · cases h
              · rename_i ha
                obtain rfl : risk = toolRisk cfg req :=
                  (Except.ok.inj (Env.attempt_eq_ok hrisk)).symm
                obtain rfl := Except.ok.inj (Env.attempt_eq_ok hd)
                exact ⟨session, hlook, hlimiter, by simpa [limit] using hl, by simpa using hn,
                  Env.fault_of_attempt_ok hrisk, Env.fault_of_attempt_ok hd, by simpa using ha⟩

theorem ToolsPass.goes_on {reply : ToolsReply} {tools : List ToolDefinition}
    {defn : ToolDefinition} {integrity : IntegrityResult}
    (h : ToolsPass cfg env req fw reply tools defn integrity) (ctx : Ctx) :
    fw.pipelineTools cfg env req ctx reply = (.ok none, fw.asked env req) := by
  have hunique := h.unique
  have hscan := h.scan
  have hasked := h.breaker
  unfold Unique at hunique
  unfold scanInput at hscan
  unfold askBreaker at hasked
  simp only [h.listed, pipelineTools, hunique, h.verifies, h.ok, Env.attempt_none h.scanRuns,
    hscan, h.allowRuns, hasked, Bool.not_true, Bool.false_eq_true, if_false]
  rfl

theorem toolsPass_of_goes_on {reply : ToolsReply}
    (h : (fw.pipelineTools cfg env req ctx reply).1 = .ok none) :
    ∃ tools defn integrity, ToolsPass cfg env req fw reply tools defn integrity := by
  unfold pipelineTools at h
  cases reply with
  | raised => cases h
  | listing tools =>
      simp only at h
      split at h
      · cases h
      · cases h
      · rename_i defn hu
        split at h
        · cases h
        · rename_i integrity hv
          split at h
          · cases h
          · rename_i hok
            split at h
            · cases h
            · rename_i scanIn hs
              obtain rfl : scanIn = scanInput cfg req :=
                (Except.ok.inj (Env.attempt_eq_ok hs)).symm
              split at h
              · cases h
              · rename_i hb
                split at h
                · cases h
                · rename_i hf
                  split at h
                  · split at h
                    · cases h
                    · cases h
                  · rename_i ha
                    exact ⟨tools, defn, integrity, rfl, hu, hv, by simpa using hok,
                      Env.fault_of_attempt_ok hs, by simpa using hb, hf,
                      by simpa [askBreaker] using ha⟩

theorem ReplyPasses.allows {reply : CallReply} {r : ToolResponse}
    (h : ReplyPasses cfg env reply r) (ctx : Ctx) :
    (fw.pipelineReply cfg env req ctx reply).1 = .ok (some (allow req ctx r)) := by
  have hscan := h.scan
  unfold scanOutput at hscan
  simp only [h.response, pipelineReply, h.recordRuns, Env.attempt_none h.scanRuns, hscan,
    Bool.false_eq_true, if_false]
  rfl

/-- The last segment allows the response it was given, or its result is a
denial without one. -/
theorem reply_allows_or_denies {reply : CallReply} {result : GatewayResult}
    (h : (fw.pipelineReply cfg env req ctx reply).1 = .ok (some result)) :
    (∃ r, ReplyPasses cfg env reply r ∧ result = allow req ctx r) ∨
      result.decision = .deny ∧ result.response = none := by
  unfold pipelineReply at h
  simp only at h
  split at h
  · cases h
  · rename_i hf
    cases reply with
    | cancelled => cases h
    | raised =>
        cases h
        exact .inr ⟨rfl, rfl⟩
    | timedOut =>
        cases h
        exact .inr ⟨rfl, rfl⟩
    | response r =>
        simp only at h
        split at h
        · cases h
        · rename_i scanOut hs
          obtain rfl : scanOut = scanOutput cfg r := (Except.ok.inj (Env.attempt_eq_ok hs)).symm
          split at h
          · cases h
            exact .inr ⟨rfl, rfl⟩
          · rename_i hb
            cases h
            exact .inl ⟨r, ⟨rfl, hf, Env.fault_of_attempt_ok hs, by simpa using hb⟩, rfl⟩

/-- The earlier segments end with denials only. -/
theorem start_denies {result : GatewayResult}
    (h : (fw.pipelineStart cfg env req).1 = .ok (some result)) :
    result.decision = .deny ∧ result.response = none := by
  have hexit := pipelineStart_exit cfg env req fw
  generalize fw.pipelineStart cfg env req = out at hexit h
  cases hexit with
  | unauthenticated hl =>
      cases h
      exact ⟨rfl, rfl⟩
  | limited hl hlim =>
      cases h
      exact ⟨rfl, rfl⟩
  | badName hl hlim hn =>
      cases h
      exact ⟨rfl, rfl⟩
  | unauthorized hl hlim hn ha =>
      cases h
      exact ⟨rfl, rfl⟩
  | _ => cases h

theorem tools_denies {reply : ToolsReply} {result : GatewayResult}
    (h : (fw.pipelineTools cfg env req ctx reply).1 = .ok (some result)) :
    result.decision = .deny ∧ result.response = none := by
  have hexit := pipelineTools_exit cfg env req fw ctx reply
  generalize fw.pipelineTools cfg env req ctx reply = out at hexit h
  cases hexit with
  | listingRaised =>
      cases h
      exact ⟨rfl, rfl⟩
  | unlisted =>
      cases h
      exact ⟨rfl, rfl⟩
  | duplicated =>
      cases h
      exact ⟨rfl, rfl⟩
  | mismatched hu hv hr =>
      cases h
      exact ⟨rfl, rfl⟩
  | inputBlocked hu hv hr hf hb =>
      cases h
      exact ⟨rfl, rfl⟩
  | circuitOpen ha =>
      cases h
      exact ⟨rfl, rfl⟩
  | _ => cases h

end Firewall

end AgenticFirewall
