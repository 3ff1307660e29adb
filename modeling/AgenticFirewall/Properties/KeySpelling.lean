import AgenticFirewall.Mcp.Client

/-!
# Where key rewriting ends

`_snake` rewrites in one pass whose lookbehind sees the original text. A
capital that follows a rewritten capital is judged by that capital, not by
the lowercase letter it became, and stays.
-/

namespace AgenticFirewall

open Py

/-- `[a-z0-9]` and `[A-Z]` next to each other: what `_CAMEL` matches. -/
def Hump (a b : CodePoint) : Prop := isLowerDigit a = true ∧ isUpper b = true

instance (a b : CodePoint) : Decidable (Hump a b) := by
  unfold Hump
  infer_instance

/-- No lowercase letter or digit is followed by a capital. -/
def Smooth (key : Str) : Prop := key.IsChain fun a b => ¬ Hump a b

/-- A lowercase letter or digit is followed by two capitals. -/
def stacked : Str → Bool
  | a :: b :: c :: rest => isLowerDigit a && isUpper b && isUpper c || stacked (b :: c :: rest)
  | _ => false

/-! ## Character classes -/

theorem not_isLowerDigit_of_isUpper {c : CodePoint} (h : isUpper c = true) :
    isLowerDigit c = false := by
  have hA : 'A'.toNat = 0x41 := rfl
  have hZ : 'Z'.toNat = 0x5A := rfl
  have ha : 'a'.toNat = 0x61 := rfl
  have h9 : '9'.toNat = 0x39 := rfl
  simp only [isLowerDigit, isLower, isUpper, isDigit, inRange, Bool.and_eq_true,
    decide_eq_true_eq, Bool.or_eq_false_iff, Bool.and_eq_false_iff, decide_eq_false_iff_not] at h ⊢
  omega

theorem isLowerDigit_lowerAscii {c : CodePoint} (h : isUpper c = true) :
    isLowerDigit (lowerAscii c) = true := by
  have hval := val_lowerAscii h
  have hA : 'A'.toNat = 0x41 := rfl
  have hZ : 'Z'.toNat = 0x5A := rfl
  have ha : 'a'.toNat = 0x61 := rfl
  have hz : 'z'.toNat = 0x7A := rfl
  simp only [isLowerDigit, isLower, isUpper, isDigit, inRange, Bool.and_eq_true,
    Bool.or_eq_true, decide_eq_true_eq] at h ⊢
  omega

theorem not_hump_underscore_left (c : CodePoint) : ¬ Hump (ofChar '_') c :=
  fun h => absurd h.1 (by decide)

theorem not_hump_underscore_right (c : CodePoint) : ¬ Hump c (ofChar '_') :=
  fun h => absurd h.2 (by decide)

/-! ## One pass -/

theorem snakeFrom_hump {p c : CodePoint} {cs : Str} (h : Hump p c) :
    snakeFrom (some p) (c :: cs) = ofChar '_' :: lowerAscii c :: snakeFrom (some c) cs := by
  simp [snakeFrom, h.1, h.2]

theorem snakeFrom_smooth {p c : CodePoint} {cs : Str} (h : ¬ Hump p c) :
    snakeFrom (some p) (c :: cs) = c :: snakeFrom (some c) cs := by
  rw [snakeFrom, if_neg]
  simpa [Hump] using h

@[simp] theorem snakeFrom_nil (prev : Option CodePoint) : snakeFrom prev [] = [] := rfl

theorem snake_cons (c : CodePoint) (cs : Str) : snake (c :: cs) = c :: snakeFrom (some c) cs := rfl

theorem smooth_cons {c d : CodePoint} {cs : Str} :
    Smooth (c :: d :: cs) ↔ ¬ Hump c d ∧ Smooth (d :: cs) :=
  List.isChain_cons_cons

theorem stacked_cons (p c : CodePoint) (cs : Str) :
    stacked (p :: c :: cs) = false ↔
      ¬ (Hump p c ∧ ∃ d ∈ cs.head?, isUpper d = true) ∧ stacked (c :: cs) = false := by
  cases cs with
  | nil => simp [stacked]
  | cons d cs => simp [stacked, Hump]

/-- What is left to do after a character `p` that was kept, and after a
capital `p` that was rewritten. -/
theorem smooth_snakeFrom (cs : Str) :
    (∀ p, Smooth (p :: snakeFrom (some p) cs) ↔ stacked (p :: cs) = false) ∧
      ∀ p, isUpper p = true →
        (Smooth (lowerAscii p :: snakeFrom (some p) cs) ↔
          (∀ d ∈ cs.head?, isUpper d = false) ∧ stacked (p :: cs) = false) := by
  induction cs with
  | nil => simp [Smooth, stacked]
  | cons c cs ih =>
      obtain ⟨hkept, hrewritten⟩ := ih
      constructor
      · intro p
        by_cases hpc : Hump p c
        · rw [snakeFrom_hump hpc, smooth_cons, smooth_cons, hrewritten c hpc.2, stacked_cons]
          simp [hpc, not_hump_underscore_right, not_hump_underscore_left]
        · rw [snakeFrom_smooth hpc, smooth_cons, hkept c, stacked_cons]
          simp [hpc]
      · intro p hp
        have hpc : ¬ Hump p c := fun h => by
          simp [Hump, not_isLowerDigit_of_isUpper hp] at h
        have hlow : Hump (lowerAscii p) c ↔ isUpper c = true := by
          simp [Hump, isLowerDigit_lowerAscii hp]
        rw [snakeFrom_smooth hpc, smooth_cons, hkept c, stacked_cons]
        simp [hpc, hlow]

/-! ## The result -/

theorem smooth_snake_iff (key : Str) : Smooth (snake key) ↔ stacked key = false := by
  cases key with
  | nil => simp [snake, Smooth, stacked]
  | cons c cs => exact (smooth_snakeFrom cs).1 c

theorem length_snakeFrom (prev : Option CodePoint) (key : Str) :
    key.length ≤ (snakeFrom prev key).length := by
  induction key generalizing prev with
  | nil => simp
  | cons c cs ih =>
      have hrest := ih (some c)
      unfold snakeFrom
      split
      · simp only [List.length_cons]
        omega
      · simpa using hrest

/-- A key is left alone exactly when there is nothing to rewrite. -/
theorem snakeFrom_eq_self (p : CodePoint) (cs : Str) :
    snakeFrom (some p) cs = cs ↔ Smooth (p :: cs) := by
  induction cs generalizing p with
  | nil => simp [Smooth]
  | cons c cs ih =>
      by_cases hpc : Hump p c
      · have hlonger := length_snakeFrom (some c) cs
        have hne : snakeFrom (some p) (c :: cs) ≠ c :: cs := by
          intro h
          have hlen := congrArg List.length h
          rw [snakeFrom_hump hpc] at hlen
          simp only [List.length_cons] at hlen
          omega
        simp [hne, smooth_cons, hpc]
      · rw [snakeFrom_smooth hpc, smooth_cons, ← ih c]
        simp [hpc]

theorem snake_eq_self_iff (key : Str) : snake key = key ↔ Smooth key := by
  cases key with
  | nil => simp [snake, Smooth]
  | cons c cs =>
      rw [snake_cons, List.cons.injEq, snakeFrom_eq_self]
      simp

/-- **One pass is enough** exactly for the keys in which no lowercase letter
or digit is followed by two capitals. -/
theorem snake_normal_iff (key : Str) :
    (Smooth (snake key) ∧ snake (snake key) = snake key) ↔ stacked key = false := by
  rw [snake_eq_self_iff, and_self, smooth_snake_iff]

/-- `aBC` needs two passes. -/
theorem snake_needs_second_pass :
    ¬ ∀ key, Smooth (snake key) ∧ snake (snake key) = snake key := by
  intro h
  have hsame := (h (str "aBC")).2
  exact absurd hsame (by decide)

example : snake (str "aBC") = str "a_bC" ∧ snake (str "a_bC") = str "a_b_c" := by decide

end AgenticFirewall
