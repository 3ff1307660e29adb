import AgenticFirewall.Firewall.Callers

/-!
# The cooldown under concurrent callers

A breaker that trips at `T` is meant to refuse everybody until
`T + cooldown` and to admit the first caller after that. Outcomes carry no
identity, so the outcome of a call admitted before the trip is taken at
face value: a success closes an `OPEN` breaker at once and enough failures
trip it again. Apart from these two steps the cooldown is respected.
-/

namespace AgenticFirewall

open Py Transition

namespace Callers

/-- The clock readings of the `allow()` calls, in order. -/
def allowTimes (acts : List CallerAct) : List ℚ :=
  acts.filterMap fun a => match a with
    | .allow now => some now
    | _ => none

@[simp] theorem allowTimes_append (as bs : List CallerAct) :
    allowTimes (as ++ bs) = allowTimes as ++ allowTimes bs :=
  List.filterMap_append

/-- The step takes the breaker from `CLOSED` or `HALF_OPEN` to `OPEN`. -/
def Trips (s s' : Callers) : Prop :=
  s.breaker.state ≠ .opened ∧ s'.breaker.state = .opened

/-- After a trip at `T`, in state `s'`, whatever happens in `mid`: an
`allow()` before `T + cooldown` is refused, and the first one from
`T + cooldown` on is admitted. -/
def CooldownRespected (s₀ : Callers) (acts : List CallerAct) : Prop :=
  ∀ pre a mid now post s s' t t' o₁ o₂ o₃ answer,
    acts = pre ++ a :: (mid ++ .allow now :: post) →
    machine.run s₀ pre = some (s, o₁) → machine.step s a = some (s', o₂) → Trips s s' →
    machine.run s' mid = some (t, o₃) → machine.step t (.allow now) = some (t', [answer]) →
      (now < a.time + s'.breaker.cooldown → answer = false) ∧
      (a.time + s'.breaker.cooldown ≤ now →
        (∀ u ∈ allowTimes mid, u < a.time + s'.breaker.cooldown) → answer = true)

/-- The outcome of a call admitted before the trip, acted on while `OPEN`:
a success, or the failure that reaches the threshold and moves
`opened_at`. -/
def Disturbs (s : Callers) (a : CallerAct) : Prop :=
  s.breaker.state = .opened ∧
    match a with
    | .allow _ => False
    | .success _ _ => True
    | .failure _ now =>
        s.breaker.threshold ≤ s.breaker.failures + 1 ∧ s.breaker.openedAt < now

instance (s : Callers) (a : CallerAct) : Decidable (Disturbs s a) := by
  unfold Disturbs
  cases a <;> infer_instance

/-- No step of the run disturbs the breaker. -/
def Undisturbed (s₀ : Callers) (acts : List CallerAct) : Prop :=
  machine.Along (fun s a => ¬ Disturbs s a) s₀ acts

instance (s₀ : Callers) (acts : List CallerAct) : Decidable (Undisturbed s₀ acts) :=
  machine.decidableAlong (fun s a => ¬ Disturbs s a) s₀ acts

/-! ## One step -/

section Step

variable {s s' : Callers} {a : CallerAct} {o : List Bool}

theorem step_clock (h : machine.step s a = some (s', o)) : s'.clock = a.time := by
  obtain ⟨-, ⟨now, rfl, rfl, -⟩ | ⟨i, now, rfl, -, rfl, -⟩ | ⟨i, now, rfl, -, rfl, -⟩⟩ :=
    step_cases h
  · rfl
  · rfl
  · rfl

theorem step_allow {now : ℚ} {answer : Bool}
    (h : machine.step s (.allow now) = some (s', [answer])) :
    s.clock ≤ now ∧ answer = (s.breaker.allow now).1 := by
  obtain ⟨hle, ⟨_, ha, -, ho⟩ | ⟨_, _, ha, -⟩ | ⟨_, _, ha, -⟩⟩ := step_cases h
  · cases ha
    exact ⟨hle, List.singleton_inj.mp ho⟩
  · cases ha
  · cases ha

/-- A step never changes the settings of the breaker. -/
theorem step_cooldown (h : machine.step s a = some (s', o)) :
    s'.breaker.cooldown = s.breaker.cooldown := by
  obtain ⟨-, ⟨now, rfl, rfl, -⟩ | ⟨i, now, rfl, -, rfl, -⟩ | ⟨i, now, rfl, -, rfl, -⟩⟩ :=
    step_cases h
  · rw [callAllow_breaker, CircuitBreaker.allow_cooldown]
  · rfl
  · exact CircuitBreaker.recordFailure_cooldown

/-- The step that trips the breaker sets `opened_at` to its own time. -/
theorem step_trips (h : machine.step s a = some (s', o)) (ht : Trips s s') :
    s'.breaker.openedAt = a.time := by
  obtain ⟨hs, hs'⟩ := ht
  obtain ⟨-, ⟨now, rfl, rfl, -⟩ | ⟨i, now, rfl, -, rfl, -⟩ | ⟨i, now, rfl, -, rfl, -⟩⟩ :=
    step_cases h
  · rw [callAllow_breaker] at hs'
    exact absurd (CircuitBreaker.allow_opened hs') hs
  · cases hs'
  · exact CircuitBreaker.recordFailure_opens hs hs'

/-- **One step in `OPEN`**: undisturbed, the breaker keeps its state and
its `opened_at`, unless it is the probe's `allow()`. -/
theorem step_opened (h : machine.step s a = some (s', o)) (hd : ¬ Disturbs s a)
    (hs : s.breaker.state = .opened) (hc : s.breaker.openedAt ≤ s.clock) :
    (s'.breaker.state = .opened ∧ s'.breaker.openedAt = s.breaker.openedAt) ∨
      ∃ now, a = .allow now ∧ s.breaker.openedAt + s.breaker.cooldown ≤ now := by
  obtain ⟨hle, ⟨now, rfl, rfl, -⟩ | ⟨i, now, rfl, -, rfl, -⟩ | ⟨i, now, rfl, -, rfl, -⟩⟩ :=
    step_cases h
  · by_cases ht : s.breaker.openedAt + s.breaker.cooldown ≤ now
    · exact .inr ⟨now, rfl, ht⟩
    · left
      rw [callAllow_breaker, CircuitBreaker.allow_opened_wait hs (not_le.mp ht)]
      exact ⟨hs, rfl⟩
  · exact absurd ⟨hs, trivial⟩ hd
  · left
    have hne : s.breaker.state ≠ .halfOpen := by rw [hs]; simp
    by_cases hf : s.breaker.threshold ≤ s.breaker.failures + 1
    · have hnow : now = s.breaker.openedAt :=
        le_antisymm (not_lt.mp fun hlt => hd ⟨hs, hf, hlt⟩) (hc.trans hle)
      change (s.breaker.recordFailure now).state = _ ∧ (s.breaker.recordFailure now).openedAt = _
      rw [CircuitBreaker.recordFailure_reaches hne hf]
      exact ⟨rfl, hnow⟩
    · change (s.breaker.recordFailure now).state = _ ∧ (s.breaker.recordFailure now).openedAt = _
      rw [CircuitBreaker.recordFailure_below hne (not_le.mp hf)]
      exact ⟨hs, rfl⟩

end Step

/-! ## The run after a trip -/

/-- Where an undisturbed run from a trip at `T` can be: still `OPEN` since
`T`, or past an `allow()` made when the cooldown was over. -/
def SinceTrip (T cooldown : ℚ) (acts : List CallerAct) (t : Callers) : Prop :=
  T ≤ t.clock ∧ t.breaker.cooldown = cooldown ∧
    ((t.breaker.state = .opened ∧ t.breaker.openedAt = T) ∨
      ∃ u ∈ allowTimes acts, T + cooldown ≤ u ∧ u ≤ t.clock)

theorem sinceTrip_step {T cooldown : ℚ} {acts : List CallerAct} {t t' : Callers}
    {a : CallerAct} {o : List Bool} (hi : SinceTrip T cooldown acts t)
    (h : machine.step t a = some (t', o)) (hd : ¬ Disturbs t a) :
    SinceTrip T cooldown (acts ++ [a]) t' := by
  obtain ⟨hclock, hcool, hcase⟩ := hi
  have hle : t.clock ≤ t'.clock := by
    rw [step_clock h]
    exact (step_cases h).1
  refine ⟨hclock.trans hle, (step_cooldown h).trans hcool, ?_⟩
  rcases hcase with ⟨hs, hT⟩ | ⟨u, hu, hTu, hut⟩
  · rcases step_opened h hd hs (hT ▸ hclock) with ⟨hs', hT'⟩ | ⟨now, rfl, hnow⟩
    · exact .inl ⟨hs', hT'.trans hT⟩
    · refine .inr ⟨now, by simp [allowTimes], ?_, (step_clock h).ge⟩
      rw [← hT, ← hcool]
      exact hnow
  · refine .inr ⟨u, ?_, hTu, hut.trans hle⟩
    rw [allowTimes_append]
    exact List.mem_append_left _ hu

theorem sinceTrip_run {s' t : Callers} {T : ℚ} {mid : List CallerAct} {o : List Bool}
    (h : machine.run s' mid = some (t, o)) (hd : Undisturbed s' mid)
    (hclock : s'.clock = T) (hs : s'.breaker.state = .opened) (hT : s'.breaker.openedAt = T) :
    SinceTrip T s'.breaker.cooldown mid t := by
  refine machine.run_history
    (motive := fun as u _ => Undisturbed s' as → SinceTrip T s'.breaker.cooldown as u)
    ?_ ?_ h hd
  · intro _
    exact ⟨hclock.ge, rfl, .inl ⟨hs, hT⟩⟩
  · intro as u o₁ a u' o₂ hrun ih hstep hund
    have hsteps := machine.along_iff.mp hund
    have hpre : Undisturbed s' as := machine.along_iff.mpr fun pre b post v o₃ heq =>
      hsteps pre b (post ++ [a]) v o₃ (by simp [heq])
    exact sinceTrip_step (ih hpre) hstep (hsteps as a [] u o₁ rfl hrun)

/-- **The cooldown**: without a disturbing outcome, every trip of the run
is followed by its whole cooldown and then by a probe. The readings of the
clock are exact rationals: the end of the cooldown is the exact sum, where
the float one can round to a neighbour. -/
theorem cooldown_respected {threshold : Nat} {cooldown clock : ℚ} {one_le : 1 ≤ threshold}
    {cooldown_pos : 0 < cooldown} {acts : List CallerAct}
    (hd : Undisturbed (start threshold cooldown one_le cooldown_pos clock) acts) :
    CooldownRespected (start threshold cooldown one_le cooldown_pos clock) acts := by
  intro pre a mid now post s s' t t' o₁ o₂ o₃ answer hacts hpre hstep htrip hmid hallow
  have hund : Undisturbed s' mid := by
    refine machine.along_iff.mpr fun pre' b post' v o₄ heq hv => ?_
    refine machine.along_iff.mp hd (pre ++ a :: pre') b (post' ++ .allow now :: post) v
      (o₁ ++ (o₂ ++ o₄)) ?_ ?_
    · simp [hacts, heq]
    · exact machine.run_append_eq_some.mpr ⟨s, o₁, o₂ ++ o₄, hpre,
        machine.run_cons_eq_some.mpr ⟨s', o₂, o₄, hstep, hv, rfl⟩, rfl⟩
  obtain ⟨-, hcool, hcase⟩ :=
    sinceTrip_run hmid hund (step_clock hstep) htrip.2 (step_trips hstep htrip)
  obtain ⟨hnow, rfl⟩ := step_allow hallow
  rcases hcase with ⟨hs, hT⟩ | ⟨u, hu, hTu, hut⟩
  · rw [← hcool, ← hT]
    refine ⟨fun hlt => ?_, fun hge _ => ?_⟩
    · rw [CircuitBreaker.allow_opened_wait hs hlt]
    · rw [CircuitBreaker.allow_opened_probe hs hge]
  · refine ⟨fun hlt => ?_, fun _ hfirst => absurd (hfirst u hu) (not_lt.mpr hTu)⟩
    exact absurd hlt (not_lt.mpr ((hTu.trans hut).trans hnow))

/-- A failure trips the breaker at `1`; a second call is still out and
succeeds at `2`. -/
def lateSuccess : List CallerAct :=
  [.allow 0, .allow 0, .failure 0 1, .success 1 2, .allow 3]

/-- The caller of time `3` is admitted, although the breaker tripped at `1`
and cools down for `30`. -/
theorem lateSuccess_cuts_cooldown :
    ¬ ∀ acts s o, machine.run (start 1 30 (by decide) (by decide) 0) acts = some (s, o) →
      CooldownRespected (start 1 30 (by decide) (by decide) 0) acts := by
  intro h
  have hans := h lateSuccess _ _ rfl [.allow 0, .allow 0] (.failure 0 1) [.success 1 2] 3 []
    _ _ _ _ _ _ _ true rfl rfl rfl ⟨by decide, by decide⟩ rfl rfl
  have hearly : (3 : ℚ) < 1 + 30 := by norm_num
  exact absurd (hans.1 hearly) (by decide)

/-- A trip, a refused caller, the probe when the cooldown is over, and its
outcome. -/
theorem cooldown_respected_trip :
    CooldownRespected (start 1 30 (by decide) (by decide) 0)
      [.allow 0, .failure 0 1, .allow 30, .allow 31, .success 1 32] :=
  cooldown_respected (by decide +kernel)

end Callers

end AgenticFirewall
