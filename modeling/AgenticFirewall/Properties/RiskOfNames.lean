import AgenticFirewall.Firewall.Words

/-!
# The risk of spelled and joined names

The level of a name depends on the words found in it. A spelling that
hides no word has the level of its words; joining a name to another only
adds words, and lowers the level only where the first was at the default.
-/

namespace AgenticFirewall

open Py

namespace RiskClassifier

/-! ## The cascade -/

/-- The words run code: a critical word, or a launch verb with a code
object. -/
def runsCode (ws : List Str) : Bool :=
  meets ws criticalWords || (meets ws launchVerbs && meets ws codeObjects)

/-- The level of a name with these words. -/
def riskOf (ws : List Str) : RiskLevel :=
  if runsCode ws then .critical
  else if meets ws highWords then .high
  else if meets ws mediumWords then .medium
  else if meets ws lowWords then .low
  else .medium

/-- The words only read: a low word and no medium one. -/
def onlyReads (ws : List Str) : Bool := meets ws lowWords && !meets ws mediumWords

section Cascade

variable {overrides : Dict Str RiskLevel} {name : Str} {ws gs : List Str}

theorem classify_eq_riskOf (h : overrides.get name = none) :
    classify overrides name = riskOf (words name) := by
  rw [classify, h]
  rfl

theorem riskOf_eq (ws : List Str) : riskOf ws =
    if runsCode ws then .critical
    else if meets ws highWords then .high
    else if onlyReads ws then .low
    else .medium := by
  simp only [riskOf, onlyReads]
  by_cases hmedium : meets ws mediumWords = true
  · simp [hmedium]
  · simp [hmedium]

theorem riskOf_eq_critical_iff : riskOf ws = .critical ↔ runsCode ws = true := by
  rw [riskOf_eq]
  split_ifs with hcode hhigh hreads
  all_goals simp [hcode]

theorem riskOf_eq_high_iff :
    riskOf ws = .high ↔ runsCode ws = false ∧ meets ws highWords = true := by
  rw [riskOf_eq]
  split_ifs with hcode hhigh hreads
  all_goals simp_all

theorem riskOf_eq_low_iff : riskOf ws = .low ↔
    runsCode ws = false ∧ meets ws highWords = false ∧ onlyReads ws = true := by
  rw [riskOf_eq]
  split_ifs with hcode hhigh hreads
  all_goals simp_all

theorem riskOf_eq_medium_iff : riskOf ws = .medium ↔
    runsCode ws = false ∧ meets ws highWords = false ∧ onlyReads ws = false := by
  rw [riskOf_eq]
  split_ifs with hcode hhigh hreads
  all_goals simp_all

/-- The two lists of words are read alike: in the same class of names that
run code, failing that in the same class of high names, failing that in the
same class of names that only read. -/
structure ReadAlike (ws gs : List Str) : Prop where
  code : runsCode ws = runsCode gs
  high : runsCode ws = false → meets ws highWords = meets gs highWords
  reads : runsCode ws = false → meets ws highWords = false → onlyReads ws = onlyReads gs

theorem riskOf_eq_iff : riskOf ws = riskOf gs ↔ ReadAlike ws gs := by
  constructor
  · intro h
    have hcode : runsCode ws = runsCode gs := by
      rw [Bool.eq_iff_iff, ← riskOf_eq_critical_iff, ← riskOf_eq_critical_iff, h]
    have hhigh : runsCode ws = false → meets ws highWords = meets gs highWords := by
      intro hc
      have hiff : riskOf ws = .high ↔ riskOf gs = .high := by rw [h]
      rw [riskOf_eq_high_iff, riskOf_eq_high_iff, ← hcode] at hiff
      simp only [hc, true_and] at hiff
      exact Bool.eq_iff_iff.mpr hiff
    refine ⟨hcode, hhigh, fun hc hh => ?_⟩
    have hiff : riskOf ws = .low ↔ riskOf gs = .low := by rw [h]
    rw [riskOf_eq_low_iff, riskOf_eq_low_iff, ← hcode, ← hhigh hc] at hiff
    simp only [hc, hh, true_and] at hiff
    exact Bool.eq_iff_iff.mpr hiff
  · rintro ⟨hcode, hhigh, hreads⟩
    rw [riskOf_eq, riskOf_eq gs, ← hcode]
    by_cases hc : runsCode ws = true
    · rw [if_pos hc, if_pos hc]
    · have hc' := Bool.eq_false_of_not_eq_true hc
      rw [if_neg hc, if_neg hc, ← hhigh hc']
      by_cases hh : meets ws highWords = true
      · rw [if_pos hh, if_pos hh]
      · rw [if_neg hh, if_neg hh, hreads hc' (Bool.eq_false_of_not_eq_true hh)]

theorem meets_append (ws gs list : List Str) :
    meets (ws ++ gs) list = (meets ws list || meets gs list) := by
  simp [meets]

end Cascade

/-! ## Spellings -/

/-- **Every spelling is read alike** when the camelCase spelling is. The
snake_case, kebab-case and dotted spellings always have the level of their
words; the camelCase spelling has it exactly when the words with the
one-letter words glued on are read alike, as when every word but the first
and the last has two letters. -/
theorem spelling_iff (overrides : Dict Str RiskLevel) (ws : List Str) (hws : ∀ w ∈ ws, IsWord w)
    (hfree : ∀ name ∈ [joined '_' ws, joined '-' ws, joined '.' ws, camelCase ws],
      overrides.get name = none) :
    classify overrides (joined '-' ws) = classify overrides (joined '_' ws) ∧
      classify overrides (joined '.' ws) = classify overrides (joined '_' ws) ∧
      (classify overrides (camelCase ws) = classify overrides (joined '_' ws) ↔
        ReadAlike (readBack ws) ws) ∧
      ((∀ w ∈ ws.tail.dropLast, w.length ≠ 1) →
        classify overrides (camelCase ws) = classify overrides (joined '_' ws)) := by
  simp only [List.forall_mem_cons] at hfree
  obtain ⟨hsnake, hkebab, hdotted, hcamel, -⟩ := hfree
  rw [classify_eq_riskOf hsnake, classify_eq_riskOf hkebab, classify_eq_riskOf hdotted,
    classify_eq_riskOf hcamel, words_joined (by decide) hws, words_joined (by decide) hws,
    words_joined (by decide) hws, words_camelCase hws]
  refine ⟨rfl, rfl, riskOf_eq_iff, fun hlong => ?_⟩
  cases ws with
  | nil => rfl
  | cons w ws => rw [readBack, glued_of_long (by simpa using hlong)]

theorem spelling_runCode :
    classify .empty (joined '-' [str "run", str "code"]) =
        classify .empty (joined '_' [str "run", str "code"]) ∧
      classify .empty (joined '.' [str "run", str "code"]) =
        classify .empty (joined '_' [str "run", str "code"]) ∧
      classify .empty (camelCase [str "run", str "code"]) =
        classify .empty (joined '_' [str "run", str "code"]) := by
  have h := spelling_iff .empty [str "run", str "code"]
    (by decide) (fun _ _ => rfl)
  exact ⟨h.1, h.2.1, h.2.2.2 (by decide)⟩

/-- The letter hides the word after it: `runCCode` does not run code. -/
theorem camelCase_hides_word :
    classify .empty (joined '_' [str "run", str "c", str "code"]) = .critical ∧
      classify .empty (camelCase [str "run", str "c", str "code"]) = .medium := by
  decide

/-! ## Joined names -/

/-- The words hold a verb of one of the lists. -/
def recognised (ws : List Str) : Bool :=
  meets ws criticalWords || meets ws launchVerbs || meets ws highWords || meets ws mediumWords ||
    meets ws lowWords

/-- The words hold a launch verb that is in no other list, nothing it
would launch, and no other verb. -/
def onlyLaunches (ws : List Str) : Bool :=
  meets ws launchVerbs && !meets ws codeObjects && !meets ws criticalWords &&
    !meets ws highWords && !meets ws mediumWords && !meets ws lowWords

/-- The words hold a low verb, nothing to launch and no other verb but a
launch verb that is in no other list. -/
def onlyLow (ws : List Str) : Bool :=
  meets ws lowWords && !meets ws codeObjects && !meets ws criticalWords &&
    !meets ws highWords && !meets ws mediumWords

section Joined

variable {ws vs : List Str}

theorem runsCode_append_of_left (h : runsCode ws = true) : runsCode (ws ++ vs) = true := by
  simp only [runsCode, meets_append, Bool.or_eq_true, Bool.and_eq_true] at h ⊢
  rcases h with h | h
  · exact .inl (.inl h)
  · exact .inr ⟨.inl h.1, .inl h.2⟩

/-- The level depends on which lists the words meet. -/
theorem riskOf_append_comm (ws vs : List Str) : riskOf (ws ++ vs) = riskOf (vs ++ ws) := by
  simp only [riskOf, runsCode, meets_append, Bool.or_comm]

theorem low_le (level : RiskLevel) : .low ≤ level := by
  cases level <;> decide

theorem le_critical (level : RiskLevel) : level ≤ .critical := by
  cases level <;> decide

theorem medium_le_iff {level : RiskLevel} : .medium ≤ level ↔ level ≠ .low := by
  cases level <;> decide

theorem riskOf_of_onlyLaunches (h : onlyLaunches ws = true) : riskOf ws = .medium := by
  simp only [onlyLaunches, Bool.and_eq_true, Bool.not_eq_true'] at h
  obtain ⟨⟨⟨⟨⟨-, hobject⟩, hcritical⟩, hhigh⟩, -⟩, hlow⟩ := h
  rw [riskOf_eq_medium_iff]
  simp [runsCode, onlyReads, hobject, hcritical, hhigh, hlow]

/-- Of a name at the default: only reading is left once it is joined to a
name that only reads. -/
theorem riskOf_append_eq_low_iff (h : recognised ws = true) (hws : riskOf ws = .medium) :
    riskOf (ws ++ vs) = .low ↔ onlyLaunches ws = true ∧ onlyLow vs = true := by
  obtain ⟨hcode, hhigh, hreads⟩ := riskOf_eq_medium_iff.mp hws
  rw [riskOf_eq_low_iff]
  simp only [recognised, runsCode, onlyReads, onlyLaunches, onlyLow, meets_append,
    Bool.or_eq_true, Bool.or_eq_false_iff, Bool.and_eq_true, Bool.and_eq_false_iff,
    Bool.not_eq_true'] at h hcode hhigh hreads ⊢
  grind

/-- More words are at least as dangerous, unless a name at the default
joins one that only reads. -/
theorem riskOf_le_append_iff (h : recognised ws = true) :
    riskOf ws ≤ riskOf (ws ++ vs) ↔ ¬ (onlyLaunches ws = true ∧ onlyLow vs = true) := by
  by_cases hmedium : riskOf ws = .medium
  · rw [hmedium, medium_le_iff, ne_eq, riskOf_append_eq_low_iff h hmedium]
  · have hlaunch : ¬ onlyLaunches ws = true := fun hl => hmedium (riskOf_of_onlyLaunches hl)
    refine ⟨fun _ hboth => hlaunch hboth.1, fun _ => ?_⟩
    by_cases hcode : runsCode (ws ++ vs) = true
    · rw [riskOf_eq_critical_iff.mpr hcode]
      exact le_critical _
    · have hcode' := Bool.eq_false_of_not_eq_true hcode
      cases hws : riskOf ws with
      | critical => exact absurd (runsCode_append_of_left (riskOf_eq_critical_iff.mp hws)) hcode
      | high =>
          have hhigh := (riskOf_eq_high_iff.mp hws).2
          have hsum : meets (ws ++ vs) highWords = true := by simp [meets_append, hhigh]
          rw [riskOf_eq_high_iff.mpr ⟨hcode', hsum⟩]
          decide
      | medium => exact absurd hws hmedium
      | low => exact low_le _

end Joined

/-- **The most dangerous word wins**, except over `launch`: joining a
recognised name to another lowers its level exactly when its only verb is
`launch`, which no level list holds, and the other only reads. -/
theorem joined_name_iff (overrides : Dict Str RiskLevel) (a b : Str)
    (ha : overrides.get a = none) (hab : overrides.get (a ++ ofChar '_' :: b) = none)
    (hba : overrides.get (b ++ ofChar '_' :: a) = none) (h : recognised (words a) = true) :
    (classify overrides a ≤ classify overrides (a ++ ofChar '_' :: b) ∧
        classify overrides a ≤ classify overrides (b ++ ofChar '_' :: a)) ↔
      ¬ (onlyLaunches (words a) = true ∧ onlyLow (words b) = true) := by
  have hsep : isAsciiAlnum (ofChar '_') = false := by decide
  rw [classify_eq_riskOf ha, classify_eq_riskOf hab, classify_eq_riskOf hba,
    words_append_sep a b hsep, words_append_sep b a hsep, riskOf_append_comm (words b), and_self]
  exact riskOf_le_append_iff h

theorem joined_name_delete :
    classify .empty (str "delete") ≤ classify .empty (str "delete" ++ ofChar '_' :: str "get") ∧
      classify .empty (str "delete") ≤ classify .empty (str "get" ++ ofChar '_' :: str "delete") :=
  (joined_name_iff .empty (str "delete") (str "get") rfl rfl rfl (by decide)).mpr (by decide)

/-- `launch` is MEDIUM and `launch_get` LOW. -/
theorem launch_lowered :
    recognised (words (str "launch")) = true ∧ classify .empty (str "launch") = .medium ∧
      classify .empty (str "launch" ++ ofChar '_' :: str "get") = .low := by
  decide

end RiskClassifier

end AgenticFirewall
