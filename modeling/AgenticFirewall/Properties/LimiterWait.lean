import AgenticFirewall.Properties.RetryAfter
import AgenticFirewall.Properties.SlidingLimit

/-!
# What the limiter tells a rejected caller

A rejected call is told when the first of the hits that fill its window
expires. Pruning, sweeps and further rejected calls do not move that
instant, so the wait is both necessary and sufficient.
-/

namespace AgenticFirewall

open Py SlidingWindow

/-- A denial at the rate limit carries the limiter's answer. -/
theorem rateLimit_denial {cfg : Config} {env : Env} {req : ToolRequest} {ctx : Ctx}
    {fw fw' : Firewall} {result : GatewayResult}
    (h : fw.pipelineStart cfg env req = (.ok (some result), ctx, fw'))
    (hs : result.stage = .rateLimit) :
    ∃ key, result.userId = some key ∧ (fw.limit env key).1.allowed = false ∧
      result.retryAfter = some (fw.limit env key).1.retryAfter ∧
      result.reason = Firewall.rateLimitReason (fw.limit env key).2 (fw.limit env key).1 := by
  have hexit := Firewall.pipelineStart_exit cfg env req fw
  rw [h] at hexit
  cases hexit with
  | limited hlookup hl => exact ⟨_, rfl, hl, rfl, rfl⟩
  | _ => cases hs

namespace SlidingWindowRateLimiter

/-! ## A full window -/

section Rejected

variable {l l' : SlidingWindowRateLimiter} {log log' : Str → List ℚ} {clock now t : ℚ}
  {key : Str}

/-- Who is rejected, and what the caller is told. -/
theorem Tracks.rejected (h : Tracks l log clock) (hle : clock ≤ now)
    (hrej : (l.check now key).1.allowed = false) :
    ∃ first rest, live (now - l.windowSeconds) (log key) = first :: rest ∧
      l.maxRequests ≤ (first :: rest).length ∧
      (l.check now key).1.retryAfter = first + l.windowSeconds - now ∧
      now - l.windowSeconds < first ∧ first ≤ now := by
  have hnow := h.later hle
  have hfull : l.maxRequests ≤ (live (now - l.windowSeconds) (log key)).length := by
    rw [← not_lt, ← h.check_allowed_iff hle]
    simp [hrej]
  have hresult := l.check_result now key
  rw [hnow.liveHits, if_pos hfull] at hresult
  cases hlive : live (now - l.windowSeconds) (log key) with
  | nil =>
      rw [hlive] at hfull
      exact absurd (l.one_le.trans hfull) (by simp)
  | cons first rest =>
      have hmem : first ∈ live (now - l.windowSeconds) (log key) := by simp [hlive]
      obtain ⟨hlog, hfirst⟩ := List.mem_filter.mp hmem
      have hfirst' : now - l.windowSeconds < first := by simpa using hfirst
      refine ⟨first, rest, rfl, hlive ▸ hfull, ?_, hfirst', hnow.past key first hlog⟩
      rw [hresult, hlive]
      exact max_eq_left (sub_pos.mpr (sub_lt_iff_lt_add.mp hfirst')).le

theorem Tracks.retryAfter_pos (h : Tracks l log clock) (hle : clock ≤ now)
    (hrej : (l.check now key).1.allowed = false) :
    0 < (l.check now key).1.retryAfter ∧ (l.check now key).1.retryAfter ≤ l.windowSeconds := by
  obtain ⟨first, rest, -, -, hretry, hfirst, hpast⟩ := h.rejected hle hrej
  rw [hretry]
  constructor
  · linarith
  · linarith

/-- As long as the key is allowed nothing, it is rejected until the wait is
over and no longer. -/
theorem Tracks.reopens (h : Tracks l log clock) (hle : clock ≤ now)
    (hrej : (l.check now key).1.allowed = false) (h' : Tracks l' log' t)
    (hlimit : l'.maxRequests = l.maxRequests) (hwindow : l'.windowSeconds = l.windowSeconds)
    (hsame : log' key = log key) (ht : now ≤ t) :
    (l'.check t key).1.allowed = true ↔ now + (l.check now key).1.retryAfter ≤ t := by
  obtain ⟨first, rest, hlive, hfull, hretry, -, -⟩ := h.rejected hle hrej
  have hopen := (h.paced key).reopens (h.sorted key) ((h.later hle).past key) hlive hfull ht
  rw [h'.check_allowed_iff le_rfl, hlimit, hwindow, hsame, hopen, hretry, add_sub_cancel]

end Rejected

/-! ## Runs -/

section Wait

variable {limit : Nat} {window : ℚ} {one_le : 1 ≤ limit} {window_pos : 0 < window}
  {sweepThreshold : Nat} {calls more : List Check} {l : SlidingWindowRateLimiter} {c d : Check}

/-- What is allowed a key after one of its calls was rejected. -/
theorem allowedTimes_rejected
    (hl : l = (new limit window one_le window_pos sweepThreshold).after calls)
    (hrej : (l.check c.now c.key).1.allowed = false) :
    allowedTimes ((new limit window one_le window_pos sweepThreshold).trace
        (calls ++ c :: more)) c.key =
      allowedTimes ((new limit window one_le window_pos sweepThreshold).trace calls) c.key ++
        allowedTimes ((l.check c.now c.key).2.trace more) c.key := by
  rw [trace_append, allowedTimes_append, ← hl, trace, allowedTimes_cons]
  simp [hrej]

/-- A later call of the rejected key, when none was allowed in between. -/
theorem allowed_iff_waited
    (hl : l = (new limit window one_le window_pos sweepThreshold).after calls)
    (hc : Chronological (calls ++ c :: (more ++ [d])))
    (hrej : (l.check c.now c.key).1.allowed = false) (hkey : d.key = c.key)
    (hnone : allowedTimes ((l.check c.now c.key).2.trace more) c.key = []) :
    (((l.check c.now c.key).2.after more).check d.now d.key).1.allowed = true ↔
      c.now + (l.check c.now c.key).1.retryAfter ≤ d.now := by
  have hbefore : Chronological (calls ++ [c]) :=
    List.Pairwise.sublist ((List.Sublist.cons_cons c (List.nil_sublist _)).append_left calls) hc
  have hlater : Chronological ((calls ++ c :: more) ++ [d]) := by simpa using hc
  have hafter : (l.check c.now c.key).2.after more =
      (new limit window one_le window_pos sweepThreshold).after (calls ++ c :: more) := by
    rw [after_append, ← hl]
    rfl
  have htracks : Tracks l
      (allowedTimes ((new limit window one_le window_pos sweepThreshold).trace calls)) c.now :=
    hl ▸ tracks_after hbefore
  have htracks' : Tracks ((l.check c.now c.key).2.after more)
      (allowedTimes ((new limit window one_le window_pos sweepThreshold).trace
        (calls ++ c :: more))) d.now :=
    hafter ▸ tracks_after hlater
  have htime : c.now ≤ d.now := by
    have hsplit := List.pairwise_append.mp hlater
    exact hsplit.2.2 c (by simp) d (by simp)
  rw [hkey]
  refine htracks.reopens le_rfl hrej htracks' ?_ ?_ ?_ htime
  · simp
  · simp
  · rw [allowedTimes_rejected hl hrej, hnone, List.append_nil]

/-- Before the wait is over nothing is allowed. -/
theorem none_before
    (hl : l = (new limit window one_le window_pos sweepThreshold).after calls)
    (hc : Chronological (calls ++ c :: more))
    (hrej : (l.check c.now c.key).1.allowed = false)
    (hearly : ∀ e ∈ more, e.now < c.now + (l.check c.now c.key).1.retryAfter) :
    allowedTimes ((l.check c.now c.key).2.trace more) c.key = [] := by
  induction more using List.reverseRecOn with
  | nil => rfl
  | append_singleton more e ih =>
      have hsub : (calls ++ c :: more).Sublist (calls ++ c :: (more ++ [e])) :=
        (List.Sublist.cons_cons c (List.sublist_append_left more [e])).append_left calls
      have hnone := ih (List.Pairwise.sublist hsub hc) fun e' he' => hearly e' (by simp [he'])
      rw [trace_append, allowedTimes_append, hnone, List.nil_append, trace, allowedTimes_cons]
      by_cases hkey : e.key = c.key
      · have hstill :
            ¬ (((l.check c.now c.key).2.after more).check e.now e.key).1.allowed = true := by
          rw [allowed_iff_waited hl hc hrej hkey hnone]
          exact not_le.mpr (hearly e (by simp))
        simp [hstill, trace, allowedTimes]
      · simp [hkey, trace, allowedTimes]

/-- The wait that a rejected call `c` is told is exact. -/
structure ExactWait (limit : Nat) (window : ℚ) (l : SlidingWindowRateLimiter) (c : Check) :
    Prop where
  positive : 0 < (l.check c.now c.key).1.retryAfter
  within : (l.check c.now c.key).1.retryAfter ≤ window
  /-- before it is over, every further call of the key is rejected -/
  early : ∀ more d, Chronological (c :: (more ++ [d])) → d.key = c.key →
    d.now < c.now + (l.check c.now c.key).1.retryAfter →
      (((l.check c.now c.key).2.after more).check d.now d.key).1.allowed = false
  /-- once it is over, one is allowed unless one was before -/
  late : ∀ more d, Chronological (c :: (more ++ [d])) → d.key = c.key →
    allowedTimes ((l.check c.now c.key).2.trace more) c.key = [] →
    c.now + (l.check c.now c.key).1.retryAfter ≤ d.now →
      (((l.check c.now c.key).2.after more).check d.now d.key).1.allowed = true
  /-- whole seconds are enough -/
  ceil : 1 ≤ ⌈(l.check c.now c.key).1.retryAfter⌉ ∧
    (l.check c.now c.key).1.retryAfter ≤ ⌈(l.check c.now c.key).1.retryAfter⌉
  header : retryHeaders (some (l.check c.now c.key).1.retryAfter) =
    some ⌈(l.check c.now c.key).1.retryAfter⌉
  /-- the gateway passes the wait on, in whole seconds in its reason -/
  told : ∀ cfg env req ctx fw fw' result, fw.limiter = l → env.monotonic .limiter = c.now →
    Firewall.pipelineStart cfg env req fw = (.ok (some result), ctx, fw') →
    result.stage = .rateLimit → result.userId = some c.key →
      result.retryAfter = some (l.check c.now c.key).1.retryAfter ∧
        result.reason = str "rate limit exceeded (" ++ intStr limit ++ str " requests per " ++
          formatG window ++ str "s); retry in " ++
            intStr ⌈(l.check c.now c.key).1.retryAfter⌉ ++ str "s"

/-- **The wait is exact** in every reachable state of the limiter. -/
theorem retry_after_exact
    (hl : l = (new limit window one_le window_pos sweepThreshold).after calls)
    (hc : Chronological (calls ++ [c])) (hrej : (l.check c.now c.key).1.allowed = false) :
    ExactWait limit window l c := by
  have hlimit : l.maxRequests = limit := by simp [hl, new]
  have hwindow : l.windowSeconds = window := by simp [hl, new]
  have htracks : Tracks l
      (allowedTimes ((new limit window one_le window_pos sweepThreshold).trace calls)) c.now :=
    hl ▸ tracks_after hc
  obtain ⟨hpos, hle⟩ := htracks.retryAfter_pos le_rfl hrej
  have hone : 1 ≤ ⌈(l.check c.now c.key).1.retryAfter⌉ := Int.one_le_ceil_iff.mpr hpos
  have hwhole : ∀ {more}, Chronological (c :: more) → Chronological (calls ++ c :: more) := by
    intro more hmore
    obtain ⟨hcalls, -, hlast⟩ := List.pairwise_append.mp hc
    refine List.pairwise_append.mpr ⟨hcalls, hmore, fun b hb e he => ?_⟩
    have hbc := hlast b hb c (by simp)
    rcases List.mem_cons.mp he with rfl | he
    · exact hbc
    · exact hbc.trans (List.rel_of_pairwise_cons hmore he)
  refine ⟨hpos, hwindow ▸ hle, fun more d hmore hkey hd => ?_,
    fun more d hmore hkey hnone hd => ?_, ⟨hone, Int.le_ceil _⟩, ?_, ?_⟩
  · have hmore' := hwhole hmore
    have hnone : allowedTimes ((l.check c.now c.key).2.trace more) c.key = [] := by
      have hsub : (calls ++ c :: more).Sublist (calls ++ c :: (more ++ [d])) :=
        (List.Sublist.cons_cons c (List.sublist_append_left more [d])).append_left calls
      refine none_before hl (List.Pairwise.sublist hsub hmore') hrej fun e he => ?_
      have hed := (List.pairwise_append.mp (List.pairwise_cons.mp hmore).2).2.2 e he d (by simp)
      exact hed.trans_lt hd
    rw [← Bool.not_eq_true, allowed_iff_waited hl hmore' hrej hkey hnone]
    exact not_le.mpr hd
  · exact (allowed_iff_waited hl (hwhole hmore) hrej hkey hnone).mpr hd
  · simp [retryHeaders, hpos.ne', hone]
  · intro cfg env req ctx fw fw' result hfw htime hstart hstage huser
    obtain ⟨key, hkey, -, hretry, hreason⟩ := rateLimit_denial hstart hstage
    obtain rfl : key = c.key := Option.some.inj (hkey.symm.trans huser)
    rw [Firewall.limit, hfw, htime] at hretry hreason
    refine ⟨hretry, hreason.trans ?_⟩
    simp [Firewall.rateLimitReason, hlimit, hwindow]

/-- One call a minute: the second is told to wait for 59 seconds. -/
theorem retry_after_exact_second :
    ExactWait 1 60 ((new 1 60 (by decide) (by decide) 10000).after [⟨str "a", 0⟩])
      ⟨str "a", 1⟩ := by
  refine retry_after_exact rfl ?_ ?_
  · simp [Chronological]
  · decide +kernel

end Wait

end SlidingWindowRateLimiter

end AgenticFirewall
