import AgenticFirewall.Firewall.Callers

/-!
# One probe at a time

`HALF_OPEN` is meant to wait for the outcome of the one call it let
through. The breaker cannot tell whose outcome it is given, so this holds
in exactly the runs in which no call admitted while `CLOSED` ends during a
`HALF_OPEN` period.
-/

namespace AgenticFirewall

open Py Transition

namespace Callers

/-- Call `i` was admitted while the breaker was not `CLOSED`, and is still
out. -/
def Probing (s : Callers) (i : Nat) : Prop :=
  ∃ c, s.calls[i]? = some c ∧ c.outstanding = true ∧ c.wasClosed = false

/-- At every moment of the run at most one call is probing, and the
breaker leaves `HALF_OPEN` only on the outcome of the probe. -/
structure OneProbe (s₀ : Callers) (acts : List CallerAct) : Prop where
  unique : ∀ pre post s o, acts = pre ++ post → machine.run s₀ pre = some (s, o) →
    ∀ i j, s.Probing i → s.Probing j → i = j
  leaves : ∀ pre a post s s' o o', acts = pre ++ a :: post →
    machine.run s₀ pre = some (s, o) → machine.step s a = some (s', o') →
    s.breaker.state = .halfOpen → s'.breaker.state ≠ .halfOpen →
    ∃ i, a.recorded = some i ∧ s.probe = some i

/-- An outcome recorded in `HALF_OPEN` is that of a call admitted while
the breaker was not `CLOSED`. -/
def OwnOutcome (s : Callers) (a : CallerAct) : Prop :=
  s.breaker.state = .halfOpen → ∀ i ∈ a.recorded, ∀ c ∈ s.calls[i]?, c.wasClosed = false

instance (s : Callers) (a : CallerAct) : Decidable (OwnOutcome s a) := by
  unfold OwnOutcome
  infer_instance

/-! ## The calls after one step -/

section Calls

variable {s : Callers} {i j : Nat} {now : ℚ} {b : CircuitBreaker} {c : Call}

/-- Concluding call `i` ends its probing and touches no other call. -/
theorem probing_conclude : (s.conclude i now b).Probing j ↔ j ≠ i ∧ s.Probing j := by
  unfold Probing
  rw [getElem?_conclude]
  cases s.calls[j]? with
  | none => simp
  | some c =>
      by_cases hij : i = j
      · simp [hij]
      · simp [hij, Ne.symm hij]

/-- Appending a call admitted while `CLOSED` starts no probing. -/
theorem probing_append_closed {t : Callers}
    (h : t.calls = s.calls ++ [{ wasClosed := true }]) (hp : t.Probing j) : s.Probing j := by
  obtain ⟨c, hc, ho, hw⟩ := hp
  rw [h, List.getElem?_append] at hc
  split at hc
  · exact ⟨c, hc, ho, hw⟩
  · have hmem := List.mem_of_getElem? hc
    rw [List.mem_singleton.mp hmem] at hw
    cases hw

/-- Any other appended call is the one at the end. -/
theorem probing_append {t : Callers} {d : Call} (h : t.calls = s.calls ++ [d])
    (hp : t.Probing j) : s.Probing j ∨ j = s.calls.length := by
  obtain ⟨c, hc, ho, hw⟩ := hp
  rw [h, List.getElem?_append] at hc
  split at hc
  · exact .inl ⟨c, hc, ho, hw⟩
  · right
    have hlt := (List.getElem?_eq_some_iff.mp hc).1
    simp only [List.length_singleton] at hlt
    omega

theorem Waiting.probing (hw : s.Waiting i) (h : ∀ c ∈ s.calls[i]?, c.wasClosed = false) :
    s.Probing i := by
  obtain ⟨c, hc, ho⟩ := hw
  exact ⟨c, hc, ho, h c hc⟩

end Calls

/-! ## The probe is never a call of `CLOSED` -/

/-- The recorded probe was admitted while not `CLOSED`. -/
def ProbeOpened (s : Callers) : Prop :=
  ∀ i ∈ s.probe, ∃ c, s.calls[i]? = some c ∧ c.wasClosed = false

theorem probeOpened_conclude {s : Callers} (i : Nat) (now : ℚ) (b : CircuitBreaker)
    (hi : ProbeOpened s) : ProbeOpened (s.conclude i now b) := by
  intro j hj
  obtain ⟨c, hc, hw⟩ := hi j hj
  rw [getElem?_conclude, hc]
  by_cases hij : i = j
  · exact ⟨{ c with outstanding := false }, by simp [hij], hw⟩
  · exact ⟨c, by simp [hij], hw⟩

theorem probeOpened_step (s : Callers) (a : CallerAct) (s' : Callers) (o : List Bool)
    (hi : ProbeOpened s) (h : machine.step s a = some (s', o)) : ProbeOpened s' := by
  obtain ⟨-, ⟨now, rfl, rfl, -⟩ | ⟨i, now, rfl, -, rfl, -⟩ | ⟨i, now, rfl, -, rfl, -⟩⟩ :=
    step_cases h
  · have hkeep : ∀ l : List Call, ∀ i ∈ s.probe,
        ∃ c, (s.calls ++ l)[i]? = some c ∧ c.wasClosed = false := by
      intro l i hp
      obtain ⟨c, hc, hw⟩ := hi i hp
      exact ⟨c, List.getElem?_append_left (List.getElem?_eq_some_iff.mp hc).1 ▸ hc, hw⟩
    cases hs : s.breaker.state with
    | closed =>
        rw [callAllow_closed now hs]
        exact hkeep _
    | opened =>
        rcases lt_or_ge now (s.breaker.openedAt + s.breaker.cooldown) with hlt | hge
        · rw [callAllow_rejected (CircuitBreaker.allow_opened_wait hs hlt)]
          exact hi
        · rw [callAllow_probe hs hge]
          intro i hp
          cases hp
          exact ⟨{ wasClosed := false }, by simp, rfl⟩
    | halfOpen =>
        rcases Bool.eq_false_or_eq_true s.breaker.probeInFlight with hb | hb
        · rw [callAllow_rejected (CircuitBreaker.allow_halfOpen_busy hs hb)]
          exact hi
        · rw [callAllow_halfOpen_free now hs hb]
          exact hkeep _
  · exact probeOpened_conclude i now _ hi
  · exact probeOpened_conclude i now _ hi

/-! ## One probe -/

/-- What a run of own outcomes keeps: whoever is probing is the probe the
breaker is waiting for. -/
structure ProbeHeld (s : Callers) : Prop where
  held : ∀ i, s.Probing i → s.breaker.state = .halfOpen ∧ s.probe = some i
  flagged : s.breaker.state = .halfOpen → s.breaker.probeInFlight = true

/-- Nobody is probing once its own outcome is recorded. -/
theorem ProbeHeld.none_left {s : Callers} {i : Nat} (hi : ProbeHeld s) (hw : s.Waiting i)
    (ho : s.breaker.state = .halfOpen → ∀ c ∈ s.calls[i]?, c.wasClosed = false)
    (now : ℚ) (b : CircuitBreaker) (j : Nat) : ¬ (s.conclude i now b).Probing j := by
  rw [probing_conclude]
  intro h
  obtain ⟨hne, hj⟩ := h
  obtain ⟨hs, hpj⟩ := hi.held j hj
  obtain ⟨-, hpi⟩ := hi.held i (hw.probing (ho hs))
  rw [hpj, Option.some.injEq] at hpi
  exact hne hpi

theorem probeHeld_step {s s' : Callers} {a : CallerAct} {o : List Bool} (hi : ProbeHeld s)
    (ho : OwnOutcome s a) (h : machine.step s a = some (s', o)) : ProbeHeld s' := by
  obtain ⟨-, ⟨now, rfl, rfl, -⟩ | ⟨i, now, rfl, hw, rfl, -⟩ | ⟨i, now, rfl, hw, rfl, -⟩⟩ :=
    step_cases h
  · cases hs : s.breaker.state with
    | closed =>
        rw [callAllow_closed now hs]
        refine ⟨fun i hp => ?_, hi.flagged⟩
        exact hi.held i (probing_append_closed rfl hp)
    | opened =>
        rcases lt_or_ge now (s.breaker.openedAt + s.breaker.cooldown) with hlt | hge
        · rw [callAllow_rejected (CircuitBreaker.allow_opened_wait hs hlt)]
          exact ⟨hi.held, hi.flagged⟩
        · rw [callAllow_probe hs hge]
          refine ⟨fun i hp => ?_, fun _ => rfl⟩
          rcases probing_append (s := s) rfl hp with hold | rfl
          · have hopen := (hi.held i hold).1
            rw [hs] at hopen
            cases hopen
          · exact ⟨rfl, rfl⟩
    | halfOpen =>
        rw [callAllow_rejected (CircuitBreaker.allow_halfOpen_busy hs (hi.flagged hs))]
        exact ⟨hi.held, hi.flagged⟩
  · refine ⟨fun j hp => ?_, fun hs => by cases hs⟩
    exact absurd hp (hi.none_left hw (fun hs => ho hs i rfl) now _ j)
  · refine ⟨fun j hp => ?_, fun hs => absurd hs CircuitBreaker.recordFailure_state⟩
    exact absurd hp (hi.none_left hw (fun hs => ho hs i rfl) now _ j)

theorem probeHeld_start {threshold : Nat} {cooldown clock : ℚ} {one_le : 1 ≤ threshold}
    {cooldown_pos : 0 < cooldown} :
    ProbeHeld (start threshold cooldown one_le cooldown_pos clock) :=
  ⟨fun i ⟨c, hc, _⟩ => by simp [start] at hc, fun hs => by cases hs⟩

theorem probeHeld_run {s₀ s : Callers} {acts : List CallerAct} {o : List Bool}
    (h₀ : ProbeHeld s₀) (hown : machine.Along OwnOutcome s₀ acts)
    (h : machine.run s₀ acts = some (s, o)) : ProbeHeld s := by
  refine machine.run_history
    (motive := fun as s _ => machine.Along OwnOutcome s₀ as → ProbeHeld s) ?_ ?_ h hown
  · exact fun _ => h₀
  · intro as s o a s' o' hrun ih hstep hall
    have hsteps := machine.along_iff.mp hall
    have hpre : machine.Along OwnOutcome s₀ as := machine.along_iff.mpr
      fun pre b post t o₁ heq => hsteps pre b (post ++ [a]) t o₁ (by simp [heq])
    exact probeHeld_step (ih hpre) (hsteps as a [] s o rfl hrun) hstep

/-- An outcome recorded in `HALF_OPEN` always ends the period. -/
theorem step_leaves {s s' : Callers} {a : CallerAct} {o : List Bool} {i : Nat}
    (h : machine.step s a = some (s', o)) (hr : a.recorded = some i) :
    s'.breaker.state ≠ .halfOpen := by
  obtain ⟨-, ⟨now, rfl, rfl, -⟩ | ⟨j, now, rfl, hw, rfl, -⟩ | ⟨j, now, rfl, hw, rfl, -⟩⟩ :=
    step_cases h
  · cases hr
  · simp [conclude]
  · exact CircuitBreaker.recordFailure_state

section Run

variable {threshold : Nat} {cooldown clock : ℚ} {one_le : 1 ≤ threshold}
  {cooldown_pos : 0 < cooldown} {acts : List CallerAct}

theorem ownOutcomes_of_oneProbe {s : Callers} {o : List Bool}
    (hrun : machine.run (start threshold cooldown one_le cooldown_pos clock) acts =
      some (s, o))
    (hone : OneProbe (start threshold cooldown one_le cooldown_pos clock) acts) :
    machine.Along OwnOutcome (start threshold cooldown one_le cooldown_pos clock) acts := by
  refine machine.along_iff.mpr fun pre a post t o₁ heq hpre hs i hr c hc => ?_
  subst heq
  obtain ⟨t₁, o₂, t₂, o₃, o₄, hpre', hstep, -, -⟩ := machine.run_split hrun
  rw [hpre] at hpre'
  cases hpre'
  obtain ⟨j, hj, hprobe⟩ :=
    hone.leaves pre a post t t₂ o₁ o₃ rfl hpre hstep hs (step_leaves hstep hr)
  rw [Option.mem_def.mp hr, Option.some.injEq] at hj
  subst hj
  -- the outcome is the probe's, and the probe was not admitted in `CLOSED`
  have hinv := machine.run_invariant probeOpened_step (fun k hk => by simp [start] at hk) hpre
  obtain ⟨d, hd, hw⟩ := hinv i hprobe
  rw [Option.mem_def.mp hc, Option.some.injEq] at hd
  exact hd ▸ hw

theorem oneProbe_of_ownOutcomes
    (hown : machine.Along OwnOutcome (start threshold cooldown one_le cooldown_pos clock) acts) :
    OneProbe (start threshold cooldown one_le cooldown_pos clock) acts := by
  have hsteps := machine.along_iff.mp hown
  have hheld : ∀ pre post t o₁, acts = pre ++ post →
      machine.run (start threshold cooldown one_le cooldown_pos clock) pre = some (t, o₁) →
      ProbeHeld t := by
    intro pre post t o₁ heq hpre
    refine probeHeld_run probeHeld_start (machine.along_iff.mpr ?_) hpre
    exact fun pre' b post' u o₂ heq' => hsteps pre' b (post' ++ post) u o₂ (by simp [heq, heq'])
  constructor
  · intro pre post t o₁ heq hpre i j hi hj
    have hinv := hheld pre post t o₁ heq hpre
    have hboth := (hinv.held i hi).2.symm.trans (hinv.held j hj).2
    exact Option.some.inj hboth
  · intro pre a post t t' o₁ o₂ heq hpre hstep hs hleft
    have hinv := hheld pre (a :: post) t o₁ heq hpre
    obtain ⟨-, ⟨now, rfl, rfl, -⟩ | ⟨i, now, rfl, hw, rfl, -⟩ | ⟨i, now, rfl, hw, rfl, -⟩⟩ :=
      step_cases hstep
    · rw [callAllow_rejected (CircuitBreaker.allow_halfOpen_busy hs (hinv.flagged hs))] at hleft
      exact absurd hs hleft
    · have hwas := hsteps pre _ post t o₁ heq hpre hs i rfl
      exact ⟨i, rfl, (hinv.held i (hw.probing hwas)).2⟩
    · have hwas := hsteps pre _ post t o₁ heq hpre hs i rfl
      exact ⟨i, rfl, (hinv.held i (hw.probing hwas)).2⟩

/-- **One probe**: a run has one probe at a time exactly when every outcome
recorded in `HALF_OPEN` belongs to a call admitted while the breaker was
not `CLOSED`. -/
theorem oneProbe_iff_ownOutcomes {s : Callers} {o : List Bool}
    (hrun : machine.run (start threshold cooldown one_le cooldown_pos clock) acts =
      some (s, o)) :
    OneProbe (start threshold cooldown one_le cooldown_pos clock) acts ↔
      machine.Along OwnOutcome (start threshold cooldown one_le cooldown_pos clock) acts :=
  ⟨ownOutcomes_of_oneProbe hrun, oneProbe_of_ownOutcomes⟩

end Run

/-- Two calls of `CLOSED`, a trip, a probe; the other call fails under the
probe and a second probe is let through. -/
def lateFailure : List CallerAct :=
  [.allow 0, .allow 0, .failure 0 0, .allow 30, .failure 1 30, .allow 60]

theorem lateFailure_two_probes :
    ¬ ∀ acts s o, machine.run (start 1 30 (by decide) (by decide) 0) acts = some (s, o) →
      OneProbe (start 1 30 (by decide) (by decide) 0) acts := by
  intro h
  have hsome : (machine.run (start 1 30 (by decide) (by decide) 0) lateFailure).isSome = true := by
    decide +kernel
  obtain ⟨⟨s, o⟩, hrun⟩ := Option.isSome_iff_exists.mp hsome
  have hown := ownOutcomes_of_oneProbe hrun (h lateFailure s o hrun)
  exact absurd hown (by decide +kernel)

/-- A probe that fails late, with a caller refused in between. -/
def slowProbe : List CallerAct :=
  [.allow 0, .failure 0 0, .allow 30, .allow 31, .failure 1 32]

theorem slowProbe_oneProbe : OneProbe (start 1 30 (by decide) (by decide) 0) slowProbe := by
  have hsome : (machine.run (start 1 30 (by decide) (by decide) 0) slowProbe).isSome = true := by
    decide +kernel
  obtain ⟨⟨s, o⟩, hrun⟩ := Option.isSome_iff_exists.mp hsome
  exact (oneProbe_iff_ownOutcomes hrun).mpr (by decide +kernel)

end Callers

end AgenticFirewall
