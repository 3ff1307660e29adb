import Mathlib.Data.List.Infix
import Mathlib.Data.List.TakeWhile

/-!
# Lines of fields

A line of unquoted `key=value` fields with a separator before each, and a
reader that takes for the value of a key what follows the first occurrence
of the key, up to the next separator. A value that holds a separator and
the key itself is what such a reader finds first.
-/

namespace Fields

variable {α : Type} [DecidableEq α]

/-- What follows the first occurrence of the pattern. -/
def textAfter (pat : List α) : List α → Option (List α)
  | [] => none
  | c :: cs =>
      if pat.isPrefixOf (c :: cs) then some ((c :: cs).drop pat.length) else textAfter pat cs

/-- The value a left-to-right reader takes for the key. -/
def readValue (sep : α) (key line : List α) : Option (List α) :=
  (textAfter (sep :: key) line).map (·.takeWhile (· ≠ sep))

/-- The fields, each with a separator before it. -/
def fieldsLine (sep : α) (fields : List (List α × List α)) : List α :=
  fields.flatMap fun f => sep :: (f.1 ++ f.2)

section Reader

variable {sep : α} {key name x y : List α}

omit [DecidableEq α] in
/-- A pattern whose only separator is its first element does not run over
the next separator. -/
theorem prefix_of_prefix_append_sep (hkey : sep ∉ key) (hx : x ≠ [])
    (hy : ∀ c ∈ y.head?, c = sep) (h : sep :: key <+: x ++ y) : sep :: key <+: x := by
  rcases List.prefix_or_prefix_of_prefix h (List.prefix_append x y) with hpre | hpre
  · exact hpre
  · obtain ⟨z, hz⟩ := hpre
    cases z with
    | nil =>
        rw [List.append_nil] at hz
        rw [hz]
    | cons c z =>
        -- the rest of the pattern would start with the separator
        rw [← hz, List.prefix_append_right_inj] at h
        obtain ⟨w, rfl⟩ := h
        have hc : c = sep := hy c rfl
        obtain ⟨d, ds, rfl⟩ := List.exists_cons_of_ne_nil hx
        rw [List.cons_append, List.cons.injEq] at hz
        exact absurd (hz.2 ▸ List.mem_append_right ds (hc ▸ List.mem_cons_self)) hkey

theorem textAfter_append (hkey : sep ∉ key) (hy : ∀ c ∈ y.head?, c = sep) :
    textAfter (sep :: key) (x ++ y) =
      ((textAfter (sep :: key) x).map (· ++ y)).or (textAfter (sep :: key) y) := by
  induction x with
  | nil => rfl
  | cons c cs ih =>
      rw [List.cons_append, textAfter, textAfter]
      by_cases hpre : (sep :: key).isPrefixOf (c :: cs) = true
      · have hpre' : (sep :: key).isPrefixOf (c :: (cs ++ y)) = true :=
          List.isPrefixOf_iff_prefix.mpr
            ((List.isPrefixOf_iff_prefix.mp hpre).trans (List.prefix_append (c :: cs) y))
        have hlen := (List.isPrefixOf_iff_prefix.mp hpre).length_le
        rw [if_pos hpre, if_pos hpre', ← List.cons_append, List.drop_append_of_le_length hlen]
        rfl
      · have hpre' : ¬ (sep :: key).isPrefixOf (c :: (cs ++ y)) = true := by
          rw [List.isPrefixOf_iff_prefix] at hpre ⊢
          exact fun h => hpre (prefix_of_prefix_append_sep hkey (List.cons_ne_nil c cs) hy h)
        rw [if_neg hpre, if_neg hpre', ih]

/-- A text without separators holds no key. -/
theorem textAfter_of_not_mem (hx : sep ∉ x) : textAfter (sep :: key) x = none := by
  induction x with
  | nil => rfl
  | cons c cs ih =>
      simp only [List.mem_cons, not_or] at hx
      rw [textAfter, ih hx.2]
      simp [hx.1]

theorem takeWhile_append_sep (x : List α) (hy : ∀ c ∈ y.head?, c = sep) :
    (x ++ y).takeWhile (· ≠ sep) = x.takeWhile (· ≠ sep) := by
  induction x with
  | nil =>
      cases y with
      | nil => rfl
      | cons c y =>
          have hc : c = sep := hy c rfl
          simp [hc]
  | cons d x ih => rw [List.cons_append, List.takeWhile_cons, List.takeWhile_cons, ih]

theorem takeWhile_of_not_mem (hx : sep ∉ x) : x.takeWhile (· ≠ sep) = x :=
  List.takeWhile_eq_self_iff.mpr fun c hc => by
    have hne : c ≠ sep := fun h => hx (h ▸ hc)
    simpa using hne

/-- **Where the reader looks**: in the first part, then in the second. -/
theorem readValue_append (hkey : sep ∉ key) (hy : ∀ c ∈ y.head?, c = sep) :
    readValue sep key (x ++ y) = (readValue sep key x).or (readValue sep key y) := by
  rw [readValue, readValue, readValue, textAfter_append hkey hy]
  cases textAfter (sep :: key) x with
  | none => rfl
  | some r => exact congrArg some (takeWhile_append_sep r hy)

theorem readValue_of_not_mem (hx : sep ∉ x) : readValue sep key x = none := by
  rw [readValue, textAfter_of_not_mem hx]
  rfl

/-- A value read holds no separator. -/
theorem not_mem_of_readValue {v : List α} (h : readValue sep key x = some v) : sep ∉ v := by
  obtain ⟨r, -, rfl⟩ := Option.map_eq_some_iff.mp h
  intro hmem
  simpa using List.mem_takeWhile_imp hmem

/-- A name that starts otherwise than the key is passed over. -/
theorem readValue_field (hname : sep ∉ name) (hne : name ≠ []) (hhead : name.head? ≠ key.head?)
    (hkey : key ≠ []) (v : List α) :
    readValue sep key (sep :: (name ++ v)) = readValue sep key v := by
  have hmiss : textAfter (sep :: key) (sep :: (name ++ v)) =
      textAfter (sep :: key) (name ++ v) := by
    obtain ⟨c, cs, rfl⟩ := List.exists_cons_of_ne_nil hne
    obtain ⟨d, ds, rfl⟩ := List.exists_cons_of_ne_nil hkey
    have hcd : d ≠ c := fun h => hhead (by simp [h])
    rw [textAfter]
    simp [hcd]
  have hskip : ∀ n : List α, sep ∉ n →
      textAfter (sep :: key) (n ++ v) = textAfter (sep :: key) v := by
    intro n hn
    induction n with
    | nil => rfl
    | cons c cs ih =>
        simp only [List.mem_cons, not_or] at hn
        rw [List.cons_append, textAfter, ih hn.2]
        simp [hn.1]
  rw [readValue, hmiss, hskip name hname, readValue]

/-- The field itself is read up to its first separator. -/
theorem readValue_self (v : List α) (hy : ∀ c ∈ y.head?, c = sep) :
    readValue sep key (sep :: (key ++ (v ++ y))) = some (v.takeWhile (· ≠ sep)) := by
  have hpre : (sep :: key).isPrefixOf (sep :: (key ++ (v ++ y))) = true := by
    rw [List.isPrefixOf_iff_prefix, ← List.cons_append]
    exact List.prefix_append _ _
  have hdrop : (sep :: (key ++ (v ++ y))).drop (sep :: key).length = v ++ y := by simp
  rw [readValue, textAfter, if_pos hpre, hdrop, Option.map_some, takeWhile_append_sep v hy]

/-- All of the value is read exactly when it holds no separator. -/
theorem takeWhile_eq_self_iff : x.takeWhile (· ≠ sep) = x ↔ sep ∉ x := by
  refine ⟨fun h hmem => ?_, takeWhile_of_not_mem⟩
  rw [← h] at hmem
  simpa using List.mem_takeWhile_imp hmem

/-- The first of the fields that holds the key is the one read, whatever
the names of the fields. -/
theorem readValue_fieldsLine (hkey : sep ∉ key) (hne : key ≠ [])
    {fields : List (List α × List α)}
    (hnames : ∀ f ∈ fields, sep ∉ f.1 ∧ f.1 ≠ [] ∧ f.1.head? ≠ key.head?)
    (hy : ∀ c ∈ y.head?, c = sep) :
    readValue sep key (fieldsLine sep fields ++ y) =
      (fields.findSome? fun f => readValue sep key f.2).or (readValue sep key y) := by
  induction fields with
  | nil => simp [fieldsLine]
  | cons f fields ih =>
      obtain ⟨hsep, hfull, hhead⟩ := hnames f List.mem_cons_self
      have hrest := ih fun g hg => hnames g (List.mem_cons_of_mem f hg)
      have hline : fieldsLine sep (f :: fields) ++ y =
          (sep :: (f.1 ++ f.2)) ++ (fieldsLine sep fields ++ y) := by
        simp [fieldsLine]
      have hhead' : ∀ c ∈ (fieldsLine sep fields ++ y).head?, c = sep := by
        cases fields with
        | nil => simpa [fieldsLine] using hy
        | cons g fields => simp [fieldsLine]
      rw [hline, readValue_append hkey hhead', readValue_field hsep hfull hhead hne, hrest,
        List.findSome?_cons]
      cases readValue sep key f.2 <;> rfl

end Reader

end Fields
