/-!
# Computations that may raise

What a sequence of `Except` steps returns, and which exceptions it can
raise: those of its steps. A property of exceptions that no step raises is
raised by no sequence of them.
-/

namespace Py

variable {ε α β : Type}

/-- From `x >>= f = ok b`, the intermediate value. -/
theorem except_bind_eq_ok {x : Except ε α} {f : α → Except ε β} {b : β} :
    (x >>= f) = .ok b ↔ ∃ a, x = .ok a ∧ f a = .ok b := by
  cases x with
  | error e => simp [bind, Except.bind]
  | ok a => simp [bind, Except.bind]

theorem exists_error_of_isOk {x : Except ε α} (h : x.isOk = false) : ∃ e, x = .error e := by
  cases x with
  | error e => exact ⟨e, rfl⟩
  | ok a => cases h

/-- The computation raises an exception with the property. -/
def Raises (p : ε → Prop) (x : Except ε α) : Prop := ∃ e, x = .error e ∧ p e

section Raises

variable {p : ε → Prop} {x : Except ε α}

theorem not_raises_ok (a : α) : ¬ Raises p (.ok a : Except ε α) := by
  intro h
  obtain ⟨e, he, -⟩ := h
  cases he

theorem raises_error {e : ε} : Raises p (.error e : Except ε α) ↔ p e := by
  constructor
  · intro h
    obtain ⟨e', he, hp⟩ := h
    cases he
    exact hp
  · intro hp
    exact ⟨e, rfl, hp⟩

theorem not_raises_bind {f : α → Except ε β} (hx : ¬ Raises p x)
    (hf : ∀ a, ¬ Raises p (f a)) : ¬ Raises p (x >>= f) := by
  intro h
  obtain ⟨e, he, hp⟩ := h
  cases x with
  | error e' =>
      cases he
      exact hx ⟨e, rfl, hp⟩
  | ok a => exact hf a ⟨e, he, hp⟩

theorem not_raises_map {f : α → β} (hx : ¬ Raises p x) : ¬ Raises p (x.map f) := by
  intro h
  obtain ⟨e, he, hp⟩ := h
  cases x with
  | error e' =>
      cases he
      exact hx ⟨e, rfl, hp⟩
  | ok a => cases he

/-- An exception that is raised again came from the step it left. -/
theorem not_raises_again {e : ε} (hx : ¬ Raises p x) (he : x = .error e) :
    ¬ Raises p (.error e : Except ε β) :=
  fun h => hx ⟨e, he, raises_error.mp h⟩

end Raises

end Py
