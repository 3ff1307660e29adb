import Mathlib.Data.List.Induction

/-!
# Machines with outputs

A partial, deterministic step function that emits outputs, its finite
runs, and the two rules every run argument uses: an invariant of the
state (`run_invariant`) and an induction over the run's own history
(`run_history`), in which a step may be compared with every earlier one.
-/

namespace Transition

/-- `step s a` is the state after action `a` and what the step emits;
`none` when `a` is not enabled in `s`. -/
structure Machine (σ α ε : Type) where
  step : σ → α → Option (σ × List ε)

/-- A computation that is run by `decide`: it succeeds, and the fact holds of
its value. -/
theorem exists_of_decide {α : Type} {x : Option α} {p : α → Prop} [DecidablePred p]
    (h : x.any (fun a => decide (p a)) = true) : ∃ a, x = some a ∧ p a := by
  obtain ⟨a, hx, hp⟩ := (Option.any_eq_true _ _).mp h
  exact ⟨a, hx, of_decide_eq_true hp⟩

/-- A position in a list with one more element is the last one or one of
the list before. -/
theorem split_concat {α : Type} {as pre post : List α} {a b : α}
    (h : as ++ [b] = pre ++ a :: post) :
    (pre = as ∧ a = b ∧ post = []) ∨ ∃ post', post = post' ++ [b] ∧ as = pre ++ a :: post' := by
  rcases List.eq_nil_or_concat post with rfl | ⟨post', c, rfl⟩
  · obtain ⟨rfl, hlast⟩ := List.append_inj' h rfl
    exact .inl ⟨rfl, (List.singleton_inj.mp hlast).symm, rfl⟩
  · have h' : as ++ [b] = (pre ++ a :: post') ++ [c] := by simpa using h
    obtain ⟨rfl, hlast⟩ := List.append_inj' h' rfl
    obtain rfl := List.singleton_inj.mp hlast
    exact .inr ⟨post', List.concat_eq_append, rfl⟩

namespace Machine

variable {σ α ε : Type} (M : Machine σ α ε)

/-- Run a list of actions and collect the outputs in order. -/
def run (s : σ) : List α → Option (σ × List ε)
  | [] => some (s, [])
  | a :: as =>
      match M.step s a with
      | none => none
      | some (s₁, o₁) =>
          match run s₁ as with
          | none => none
          | some (s₂, o₂) => some (s₂, o₁ ++ o₂)

@[simp] theorem run_nil (s : σ) : M.run s [] = some (s, []) := rfl

theorem run_cons_eq_some {s s' : σ} {a : α} {as : List α} {o : List ε} :
    M.run s (a :: as) = some (s', o) ↔
      ∃ s₁ o₁ o₂, M.step s a = some (s₁, o₁) ∧ M.run s₁ as = some (s', o₂) ∧
        o = o₁ ++ o₂ := by
  constructor
  · intro h
    simp only [run] at h
    cases hs : M.step s a with
    | none => simp [hs] at h
    | some p =>
        obtain ⟨s₁, o₁⟩ := p
        simp only [hs] at h
        cases hr : M.run s₁ as with
        | none => simp [hr] at h
        | some q =>
            obtain ⟨s₂, o₂⟩ := q
            simp only [hr, Option.some.injEq, Prod.mk.injEq] at h
            obtain ⟨rfl, rfl⟩ := h
            exact ⟨s₁, o₁, o₂, rfl, hr, rfl⟩
  · intro h
    obtain ⟨s₁, o₁, o₂, hs, hr, rfl⟩ := h
    simp only [run, hs, hr]

theorem run_append_eq_some {s s' : σ} {as bs : List α} {o : List ε} :
    M.run s (as ++ bs) = some (s', o) ↔
      ∃ s₁ o₁ o₂, M.run s as = some (s₁, o₁) ∧ M.run s₁ bs = some (s', o₂) ∧
        o = o₁ ++ o₂ := by
  induction as generalizing s o with
  | nil =>
      constructor
      · intro h
        exact ⟨s, [], o, rfl, h, rfl⟩
      · intro h
        obtain ⟨s₁, o₁, o₂, hs, hr, rfl⟩ := h
        simp only [run_nil, Option.some.injEq, Prod.mk.injEq] at hs
        obtain ⟨rfl, rfl⟩ := hs
        exact hr
  | cons a as ih =>
      simp only [List.cons_append, run_cons_eq_some, ih]
      constructor
      · intro h
        obtain ⟨s₁, o₁, _, hs, ⟨s₂, o₂, o₃, ha, hb, rfl⟩, rfl⟩ := h
        exact ⟨s₂, o₁ ++ o₂, o₃, ⟨s₁, o₁, o₂, hs, ha, rfl⟩, hb, by simp⟩
      · intro h
        obtain ⟨s₂, _, o₃, ⟨s₁, o₁, o₂, hs, ha, rfl⟩, hb, rfl⟩ := h
        exact ⟨s₁, o₁, o₂ ++ o₃, hs, ⟨s₂, o₂, o₃, ha, hb, rfl⟩, by simp⟩

/-- The last step of a run, exposed. -/
theorem run_concat_eq_some {s s' : σ} {as : List α} {a : α} {o : List ε} :
    M.run s (as ++ [a]) = some (s', o) ↔
      ∃ s₁ o₁ o₂, M.run s as = some (s₁, o₁) ∧ M.step s₁ a = some (s', o₂) ∧
        o = o₁ ++ o₂ := by
  rw [run_append_eq_some]
  constructor
  · intro h
    obtain ⟨s₁, o₁, o₂, ha, hb, rfl⟩ := h
    obtain ⟨s₂, p, q, hs, hn, rfl⟩ := (M.run_cons_eq_some).mp hb
    simp only [run_nil, Option.some.injEq, Prod.mk.injEq] at hn
    obtain ⟨rfl, rfl⟩ := hn
    exact ⟨s₁, o₁, p, ha, hs, by simp⟩
  · intro h
    obtain ⟨s₁, o₁, o₂, ha, hs, rfl⟩ := h
    exact ⟨s₁, o₁, o₂, ha, (M.run_cons_eq_some).mpr ⟨s', o₂, [], hs, rfl, by simp⟩, rfl⟩

/-- **The history rule**: what holds of the empty run and is kept when
one more step is taken holds of every run. The step may use the run that
led to it. -/
theorem run_history {s₀ : σ} {motive : List α → σ → List ε → Prop}
    (init : motive [] s₀ [])
    (step : ∀ as s o a s' o', M.run s₀ as = some (s, o) → motive as s o →
      M.step s a = some (s', o') → motive (as ++ [a]) s' (o ++ o')) :
    ∀ {as s o}, M.run s₀ as = some (s, o) → motive as s o := by
  intro as
  induction as using List.reverseRecOn with
  | nil =>
      intro s o h
      simp only [run_nil, Option.some.injEq, Prod.mk.injEq] at h
      obtain ⟨rfl, rfl⟩ := h
      exact init
  | append_singleton as a ih =>
      intro s o h
      obtain ⟨s₁, o₁, o₂, ha, hs, rfl⟩ := (M.run_concat_eq_some).mp h
      exact step as s₁ o₁ a s o₂ ha (ih ha) hs

/-- **The invariant rule**: a property of states that every step keeps
holds at the end of every run. -/
theorem run_invariant {Inv : σ → Prop}
    (step : ∀ s a s' o, Inv s → M.step s a = some (s', o) → Inv s')
    {s₀ s : σ} {as : List α} {o : List ε} (init : Inv s₀)
    (h : M.run s₀ as = some (s, o)) : Inv s :=
  M.run_history (motive := fun _ s _ => Inv s) init
    (fun _ s _ a s' o' _ hi hs => step s a s' o' hi hs) h

/-- Every output of a run was emitted by one of its steps. -/
theorem mem_run_output {s s' : σ} {as : List α} {o : List ε} {e : ε}
    (h : M.run s as = some (s', o)) (he : e ∈ o) :
    ∃ pre a post s₁ o₁ s₂ o₂, as = pre ++ a :: post ∧
      M.run s pre = some (s₁, o₁) ∧ M.step s₁ a = some (s₂, o₂) ∧ e ∈ o₂ := by
  induction as generalizing s o with
  | nil =>
      simp only [run_nil, Option.some.injEq, Prod.mk.injEq] at h
      obtain ⟨rfl, rfl⟩ := h
      simp at he
  | cons a as ih =>
      obtain ⟨s₁, o₁, o₂, hs, hr, rfl⟩ := (M.run_cons_eq_some).mp h
      rcases List.mem_append.mp he with he | he
      · exact ⟨[], a, as, s, [], s₁, o₁, rfl, rfl, hs, he⟩
      · obtain ⟨pre, b, post, t₁, p₁, t₂, p₂, rfl, hp, hb, hm⟩ := ih hr he
        exact ⟨a :: pre, b, post, t₁, o₁ ++ p₁, t₂, p₂, rfl,
          (M.run_cons_eq_some).mpr ⟨s₁, o₁, p₁, hs, hp, rfl⟩, hb, hm⟩

/-- A run split at one of its steps. -/
theorem run_split {s s' : σ} {pre post : List α} {a : α} {o : List ε}
    (h : M.run s (pre ++ a :: post) = some (s', o)) :
    ∃ s₁ o₁ s₂ o₂ o₃, M.run s pre = some (s₁, o₁) ∧
      M.step s₁ a = some (s₂, o₂) ∧ M.run s₂ post = some (s', o₃) ∧
      o = o₁ ++ (o₂ ++ o₃) := by
  obtain ⟨s₁, o₁, p, ha, hb, rfl⟩ := (M.run_append_eq_some).mp h
  obtain ⟨s₂, o₂, o₃, hs, hr, rfl⟩ := (M.run_cons_eq_some).mp hb
  exact ⟨s₁, o₁, s₂, o₂, o₃, ha, hs, hr, rfl⟩

/-- After `pre`, the run takes action `a` in state `s`. -/
def Takes (s₀ : σ) (as pre : List α) (s : σ) (a : α) : Prop :=
  ∃ post o, as = pre ++ a :: post ∧ M.run s₀ pre = some (s, o)

theorem Takes.extend {M : Machine σ α ε} {s₀ s : σ} {as pre : List α} {a : α}
    (h : M.Takes s₀ as pre s a) (more : List α) : M.Takes s₀ (as ++ more) pre s a := by
  obtain ⟨post, o, rfl, hrun⟩ := h
  exact ⟨post ++ more, o, by simp, hrun⟩

theorem takes_last {s₀ s : σ} {as : List α} {o : List ε} (h : M.run s₀ as = some (s, o)) (a : α) :
    M.Takes s₀ (as ++ [a]) as s a := ⟨[], o, rfl, h⟩

/-- The step taken there, and that its outputs are among those of the run. -/
theorem Takes.step {M : Machine σ α ε} {s₀ s s₁ : σ} {as pre : List α} {a : α} {o : List ε}
    (hat : M.Takes s₀ as pre s₁ a) (h : M.run s₀ as = some (s, o)) :
    ∃ s₂ o₂, M.step s₁ a = some (s₂, o₂) ∧ o₂ ⊆ o := by
  obtain ⟨post, o₁, rfl, hpre⟩ := hat
  obtain ⟨t, o₁', s₂, o₂, o₃, hpre', hstep, -, rfl⟩ := M.run_split h
  obtain ⟨rfl, rfl⟩ := Prod.mk.inj (Option.some.inj (hpre.symm.trans hpre'))
  refine ⟨s₂, o₂, hstep, fun e he => ?_⟩
  apply List.mem_append_right
  exact List.mem_append_left _ he

/-! ## Other outputs -/

section Observe

variable {β : Type} {f : σ → α → List β} {s s' : σ} {a : α} {as : List α} {b : List β}

/-- The same steps, with outputs that are read off the state before each
step. -/
def observe (f : σ → α → List β) : Machine σ α β :=
  ⟨fun s a => (M.step s a).map fun p => (p.1, f s a)⟩

theorem observe_step_eq_some :
    (M.observe f).step s a = some (s', b) ↔ (∃ o, M.step s a = some (s', o)) ∧ b = f s a := by
  simp only [observe, Option.map_eq_some_iff, Prod.mk.injEq]
  constructor
  · intro h
    obtain ⟨⟨t, o⟩, hstep, rfl, rfl⟩ := h
    exact ⟨⟨o, hstep⟩, rfl⟩
  · intro h
    obtain ⟨⟨o, hstep⟩, rfl⟩ := h
    exact ⟨(s', o), hstep, rfl, rfl⟩

/-- Every run can be watched. -/
theorem run_observe {o : List ε} (h : M.run s as = some (s', o)) :
    ∃ b, (M.observe f).run s as = some (s', b) := by
  induction as generalizing s o with
  | nil =>
      cases h
      exact ⟨[], rfl⟩
  | cons a as ih =>
      obtain ⟨s₁, o₁, o₂, hstep, hrun, rfl⟩ := M.run_cons_eq_some.mp h
      obtain ⟨b, hb⟩ := ih hrun
      exact ⟨f s a ++ b, (run_cons_eq_some _).mpr
        ⟨s₁, f s a, b, M.observe_step_eq_some.mpr ⟨⟨o₁, hstep⟩, rfl⟩, hb, rfl⟩⟩

/-- What is read off a state the run is in when it takes an action is among
the outputs. -/
theorem run_observed {pre post : List α} {s₁ : σ} {o : List ε}
    (hpre : M.run s pre = some (s₁, o))
    (h : (M.observe f).run s (pre ++ a :: post) = some (s', b)) {x : β} (hx : x ∈ f s₁ a) :
    x ∈ b := by
  obtain ⟨c, hc⟩ : ∃ c, (M.observe f).run s pre = some (s₁, c) := M.run_observe hpre
  obtain ⟨t, c', u, d, e, hc', hd, -, rfl⟩ := (M.observe f).run_split h
  obtain ⟨rfl, rfl⟩ := Prod.mk.inj (Option.some.inj (hc.symm.trans hc'))
  obtain ⟨-, rfl⟩ := M.observe_step_eq_some.mp hd
  apply List.mem_append_right
  exact List.mem_append_left _ hx

end Observe

/-! ## Replay -/

section Replay

variable {s s' : σ} {a : α} {as : List α} {o : List ε}

/-- Take the actions in order, skipping those that are not enabled. -/
def replay (s : σ) (as : List α) : σ × List ε :=
  as.foldl (fun p a => match M.step p.1 a with
    | none => p
    | some (s', o) => (s', p.2 ++ o)) (s, [])

@[simp] theorem replay_nil (s : σ) : M.replay s [] = (s, []) := rfl

theorem replay_concat (s : σ) (as : List α) (a : α) :
    M.replay s (as ++ [a]) =
      match M.step (M.replay s as).1 a with
      | none => M.replay s as
      | some (s', o) => (s', (M.replay s as).2 ++ o) := by
  simp [replay, List.foldl_append]

/-- A run skips nothing. -/
theorem replay_of_run (h : M.run s as = some (s', o)) : M.replay s as = (s', o) := by
  refine M.run_history (motive := fun as s' o => M.replay s as = (s', o)) rfl ?_ h
  intro as s₁ o₁ a s₂ o₂ _ ih hstep
  rw [replay_concat, ih]
  simp only [hstep]

end Replay

/-! ## Conditions along a run -/

/-- `P` holds before every step the run takes. -/
def Along (P : σ → α → Prop) (s : σ) : List α → Prop
  | [] => True
  | a :: as =>
      P s a ∧
        match M.step s a with
        | none => True
        | some (s₁, _) => Along P s₁ as

instance decidableAlong (P : σ → α → Prop) [∀ s a, Decidable (P s a)] :
    ∀ s as, Decidable (M.Along P s as)
  | _, [] => isTrue trivial
  | s, a :: as =>
      match h : M.step s a with
      | none => decidable_of_iff (P s a) (by simp [Along, h])
      | some (s₁, _) =>
          have := decidableAlong P s₁ as
          decidable_of_iff (P s a ∧ M.Along P s₁ as) (by simp [Along, h])

theorem along_iff {P : σ → α → Prop} {s : σ} {as : List α} :
    M.Along P s as ↔ ∀ pre a post s₁ o, as = pre ++ a :: post →
      M.run s pre = some (s₁, o) → P s₁ a := by
  induction as generalizing s with
  | nil => simp [Along]
  | cons b bs ih =>
      constructor
      · rintro ⟨hb, hbs⟩ pre a post s₁ o heq hrun
        cases pre with
        | nil =>
            obtain ⟨rfl, rfl⟩ := List.cons.inj heq
            simp only [run_nil, Option.some.injEq, Prod.mk.injEq] at hrun
            exact hrun.1 ▸ hb
        | cons c pre =>
            obtain ⟨rfl, rfl⟩ := List.cons.inj heq
            obtain ⟨s₂, o₁, o₂, hs, hr, rfl⟩ := (M.run_cons_eq_some).mp hrun
            rw [hs] at hbs
            exact ih.mp hbs pre a post s₁ o₂ rfl hr
      · intro h
        refine ⟨h [] b bs s [] rfl rfl, ?_⟩
        cases hs : M.step s b with
        | none => trivial
        | some p =>
            obtain ⟨s₂, o₁⟩ := p
            refine ih.mpr fun pre a post s₁ o heq hr => ?_
            exact h (b :: pre) a post s₁ (o₁ ++ o) (by simp [heq])
              ((M.run_cons_eq_some).mpr ⟨s₂, o₁, o, hs, hr, rfl⟩)

/-- **The history rule under a condition**: each step may also use that the
condition holds before it. -/
theorem run_along {P : σ → α → Prop} {s₀ : σ} {motive : List α → σ → List ε → Prop}
    (init : motive [] s₀ [])
    (step : ∀ as s o a s' o', M.run s₀ as = some (s, o) → P s a → motive as s o →
      M.step s a = some (s', o') → motive (as ++ [a]) s' (o ++ o'))
    {as : List α} {s : σ} {o : List ε} (hP : M.Along P s₀ as) (h : M.run s₀ as = some (s, o)) :
    motive as s o := by
  revert hP
  refine M.run_history (motive := fun as s o => M.Along P s₀ as → motive as s o)
    (fun _ => init) ?_ h
  intro as s₁ o₁ a s₂ o₂ hrun ih hstep hP
  rw [along_iff] at hP
  have hlast : P s₁ a := hP as a [] s₁ o₁ rfl hrun
  have hbefore : M.Along P s₀ as := by
    rw [along_iff]
    intro pre b post t p heq hpre
    exact hP pre b (post ++ [a]) t p (by simp [heq]) hpre
  exact step as s₁ o₁ a s₂ o₂ hrun hlast (ih hbefore) hstep

/-! ## Refinement -/

section Refinement

variable {τ β δ : Type} {N : Machine τ β δ} {abs : σ → τ} {out : ε → Option δ}

/-- Each step of `M` is a run of `N`: from the state that `abs` reads off to
the next one, with the outputs that `out` keeps. -/
def Refines (N : Machine τ β δ) (abs : σ → τ) (out : ε → Option δ) : Prop :=
  ∀ s a s' o, M.step s a = some (s', o) →
    ∃ bs, N.run (abs s) bs = some (abs s', o.filterMap out)

theorem run_one {s s' : σ} {a : α} {o : List ε} (h : M.step s a = some (s', o)) :
    M.run s [a] = some (s', o) :=
  M.run_cons_eq_some.mpr ⟨s', o, [], h, rfl, (List.append_nil o).symm⟩

/-- **The refinement rule**: then each run of `M` is a run of `N`. -/
theorem Refines.run {M : Machine σ α ε} (h : M.Refines N abs out) {s s' : σ} {as : List α} {o : List ε}
    (hrun : M.run s as = some (s', o)) :
    ∃ bs, N.run (abs s) bs = some (abs s', o.filterMap out) := by
  refine M.run_history
    (motive := fun _ s' o => ∃ bs, N.run (abs s) bs = some (abs s', o.filterMap out))
    ⟨[], rfl⟩ ?_ hrun
  intro _ s₁ o₁ a s₂ o₂ _ ih hstep
  obtain ⟨bs, hbs⟩ := ih
  obtain ⟨cs, hcs⟩ := h s₁ a s₂ o₂ hstep
  exact ⟨bs ++ cs, N.run_append_eq_some.mpr
    ⟨abs s₁, _, _, hbs, hcs, List.filterMap_append⟩⟩

end Refinement

end Machine

/-! ## Parts of a state -/

/-- A part of a state that only the calls with its own key change is what
those calls alone make of it. -/
theorem foldl_part {σ τ κ α : Type} [DecidableEq κ] (step : σ → α → σ) (part : σ → κ → τ)
    (key : α → κ) (own : τ → α → τ)
    (h : ∀ s a k, part (step s a) k = if key a = k then own (part s k) a else part s k)
    (k : κ) (as : List α) (s : σ) :
    part (as.foldl step s) k = (as.filter fun a => key a = k).foldl own (part s k) := by
  induction as generalizing s with
  | nil => rfl
  | cons a as ih =>
      rw [List.foldl_cons, ih, h]
      by_cases hk : key a = k
      · rw [if_pos hk, List.filter_cons_of_pos (by simpa using hk), List.foldl_cons]
      · rw [if_neg hk, List.filter_cons_of_neg (by simpa using hk)]

end Transition
