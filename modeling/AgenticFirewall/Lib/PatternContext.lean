import AgenticFirewall.Lib.Pattern

/-!
# Matching inside a longer text

A pattern that matches a text need not match a longer text that contains
it: `\b` and the lookarounds see what stands next to it. They see nothing
new when a separator stands at each seam. `Splices` is the patterns whose
matches survive there; it is closed under every operator, a lookaround
together with its neighbour.
-/

namespace Py

namespace Cursor

/-- The whole text around a position. -/
def text (c : Cursor) : Str := c.before.reverse ++ c.after

/-- The same position once `pre` stands before the text and `post` after
it. -/
def within (pre post : Str) (c : Cursor) : Cursor := ⟨c.before ++ pre.reverse, c.after ++ post⟩

/-- At the end of its text, right behind a separator. -/
def Trailing (sep : CodePoint → Bool) (c : Cursor) : Prop :=
  c.after = [] ∧ ∃ s, c.before.head? = some s ∧ sep s = true

end Cursor

namespace Pattern

variable {u : Unicode} {sep : CodePoint → Bool} {pre post : Str} {r a b : Pattern}
  {c d : Cursor}

/-! ## Repetitions -/

section Repetition

variable {R : Cursor → Cursor → Prop} {step step' : Cursor → List Cursor} {cs cs' : List Cursor}

/-- Related positions stay related when a step is taken from each. -/
theorem flatMap_related (hstep : ∀ c c', R c c' → ∀ d ∈ step c, ∃ d' ∈ step' c', R d d')
    (hcs : ∀ c ∈ cs, ∃ c' ∈ cs', R c c') :
    ∀ d ∈ cs.flatMap step, ∃ d' ∈ cs'.flatMap step', R d d' := by
  intro d hd
  obtain ⟨c, hc, hd⟩ := List.mem_flatMap.mp hd
  obtain ⟨c', hc', hR⟩ := hcs c hc
  obtain ⟨d', hd', hR'⟩ := hstep c c' hR d hd
  exact ⟨d', List.mem_flatMap.mpr ⟨c', hc', hd'⟩, hR'⟩

theorem iterate_related (hstep : ∀ c c', R c c' → ∀ d ∈ step c, ∃ d' ∈ step' c', R d d')
    (n : Nat) (hcs : ∀ c ∈ cs, ∃ c' ∈ cs', R c c') :
    ∀ d ∈ iterate step n cs, ∃ d' ∈ iterate step' n cs', R d d' := by
  induction n generalizing cs cs' with
  | zero => exact hcs
  | succ n ih => exact ih (flatMap_related hstep hcs)

/-- A larger bound reaches at least as far. -/
theorem upTo_related (hstep : ∀ c c', R c c' → ∀ d ∈ step c, ∃ d' ∈ step' c', R d d')
    {n n' : Nat} (hn : n ≤ n') (hcs : ∀ c ∈ cs, ∃ c' ∈ cs', R c c') :
    ∀ d ∈ upTo step n cs, ∃ d' ∈ upTo step' n' cs', R d d' := by
  have hmem : ∀ (k : Nat) (es : List Cursor), ∀ e ∈ es, e ∈ upTo step' k es := by
    intro k es e he
    cases k with
    | zero => exact he
    | succ k =>
        have hne : es.isEmpty = false := List.isEmpty_eq_false_iff_exists_mem.mpr ⟨e, he⟩
        simp only [upTo, hne, Bool.false_eq_true, if_false]
        exact List.mem_append_left _ he
  induction n generalizing n' cs cs' with
  | zero =>
      intro d hd
      obtain ⟨d', hd', hR⟩ := hcs d hd
      exact ⟨d', hmem n' cs' d' hd', hR⟩
  | succ n ih =>
      obtain ⟨k, rfl⟩ : ∃ k, n' = k + 1 := ⟨n' - 1, by omega⟩
      intro d hd
      simp only [upTo] at hd
      split at hd
      · simp at hd
      · rcases List.mem_append.mp hd with hd | hd
        · obtain ⟨d', hd', hR⟩ := hcs d hd
          exact ⟨d', hmem (k + 1) cs' d' hd', hR⟩
        · have hk : n ≤ k := by omega
          obtain ⟨d', hd', hR⟩ := ih hk (flatMap_related hstep hcs) d hd
          have hne : cs'.isEmpty = false := by
            rw [List.isEmpty_eq_false_iff, ne_eq]
            rintro rfl
            cases k with
            | zero => simp [upTo] at hd'
            | succ k => simp [upTo] at hd'
          refine ⟨d', ?_, hR⟩
          simp only [upTo, hne, Bool.false_eq_true, if_false]
          exact List.mem_append_right _ hd'

/-- What a repetition starts with and each round keeps holds at its end. -/
theorem rep_keeps {P : Cursor → Prop} (hr : ∀ c, P c → ∀ d ∈ ends u r c, P d) {lo : Nat}
    {hi : Option Nat} (hc : P c) : ∀ d ∈ ends u (.rep r lo hi) c, P d := by
  intro d hd
  have hstep : ∀ c c', (c = c' ∧ P c) → ∀ d ∈ ends u r c, ∃ d' ∈ ends u r c', d = d' ∧ P d := by
    rintro c c' ⟨rfl, hP⟩ d hd
    exact ⟨d, hd, rfl, hr c hP d hd⟩
  have hinit : ∀ e ∈ [c], ∃ e' ∈ [c], e = e' ∧ P e := by
    intro e he
    obtain rfl := List.mem_singleton.mp he
    exact ⟨e, he, rfl, hc⟩
  obtain ⟨_, -, -, hP⟩ :=
    upTo_related hstep (Nat.le_refl _) (iterate_related hstep lo hinit) d hd
  exact hP

end Repetition

/-! ## The text around a match -/

theorem ends_set_cases {p : CodePoint → Bool} (h : d ∈ ends u (.set p) c) :
    ∃ before x rest, c = ⟨before, x :: rest⟩ ∧ d = ⟨x :: before, rest⟩ ∧ p x = true := by
  obtain ⟨before, after⟩ := c
  cases after with
  | nil => simp [ends] at h
  | cons x rest =>
      simp only [ends] at h
      split at h
      · rename_i hx
        exact ⟨before, x, rest, rfl, List.mem_singleton.mp h, hx⟩
      · simp at h

/-- An assertion matches at the position itself. -/
theorem ends_boundary_cases (h : d ∈ ends u .boundary c) : d = c ∧ isBoundary u c = true := by
  simp only [ends] at h
  split at h
  · rename_i hb
    exact ⟨List.mem_singleton.mp h, hb⟩
  · simp at h

theorem ends_notBehind_cases {p : CodePoint → Bool} (h : d ∈ ends u (.notBehind p) c) :
    d = c ∧ c.before.head?.any p = false := by
  simp only [ends] at h
  split at h
  · simp at h
  · rename_i hp
    exact ⟨List.mem_singleton.mp h, by simpa using hp⟩

theorem ends_notAhead_cases (h : d ∈ ends u (.notAhead r) c) : d = c ∧ ends u r c = [] := by
  simp only [ends] at h
  split at h
  · rename_i he
    exact ⟨List.mem_singleton.mp h, List.isEmpty_iff.mp he⟩
  · simp at h

/-- A match moves the position and leaves the text. -/
theorem text_ends (h : d ∈ ends u r c) : d.text = c.text := by
  induction r generalizing c d with
  | set p =>
      obtain ⟨before, x, rest, rfl, rfl, -⟩ := ends_set_cases h
      simp [Cursor.text]
  | eps =>
      obtain rfl := List.mem_singleton.mp h
      rfl
  | seq a b iha ihb =>
      obtain ⟨e, he, hd⟩ := List.mem_flatMap.mp h
      exact (ihb hd).trans (iha he)
  | alt a b iha ihb =>
      rcases List.mem_append.mp h with h | h
      · exact iha h
      · exact ihb h
  | rep r lo hi ih =>
      exact rep_keeps (P := fun e => e.text = c.text) (fun e he f hf => (ih hf).trans he) rfl d h
  | boundary => rw [(ends_boundary_cases h).1]
  | notBehind p => rw [(ends_notBehind_cases h).1]
  | notAhead r => rw [(ends_notAhead_cases h).1]

/-! ## Seams -/

/-- A separator stands at each seam, on one side of it. -/
structure Seamed (sep : CodePoint → Bool) (pre text post : Str) : Prop where
  left : ∀ x ∈ pre.getLast?, sep x = true ∨ ∃ s, text.head? = some s ∧ sep s = true
  right : ∀ x ∈ post.head?, sep x = true ∨ ∃ s, text.getLast? = some s ∧ sep s = true

/-- What a class that holds no separator sees on the left has not changed,
unless the text itself starts with a separator there. -/
theorem Seamed.before (h : Seamed sep pre c.text post) {p : CodePoint → Bool}
    (hp : ∀ s, sep s = true → p s = false) :
    (c.within pre post).before.head?.any p = c.before.head?.any p ∨
      c.before = [] ∧ ∃ s, c.after.head? = some s ∧ sep s = true := by
  obtain ⟨before, after⟩ := c
  cases before with
  | cons x before => exact .inl rfl
  | nil =>
      simp only [Cursor.within, List.nil_append, List.head?_reverse]
      cases hlast : pre.getLast? with
      | none => exact .inl rfl
      | some x =>
          rcases h.left x (by simp [hlast]) with hx | ⟨s, hs, hsep⟩
          · exact .inl (by simp [hp x hx])
          · exact .inr ⟨trivial, s, by simpa [Cursor.text] using hs, hsep⟩

/-- Nor has what it sees on the right, unless the text ends in a separator
there. -/
theorem Seamed.after (h : Seamed sep pre c.text post) {p : CodePoint → Bool}
    (hp : ∀ s, sep s = true → p s = false) :
    (c.within pre post).after.head?.any p = c.after.head?.any p ∨ c.Trailing sep := by
  obtain ⟨before, after⟩ := c
  cases after with
  | cons x after => exact .inl rfl
  | nil =>
      simp only [Cursor.within, List.nil_append]
      cases hhead : post.head? with
      | none => exact .inl rfl
      | some x =>
          rcases h.right x (by simp [hhead]) with hx | ⟨s, hs, hsep⟩
          · exact .inl (by simp [hp x hx])
          · exact .inr ⟨rfl, s, by simpa [Cursor.text] using hs, hsep⟩

/-- A word boundary stays one: where the text around it changes, a
separator stands on the inner side. -/
theorem Seamed.boundary (h : Seamed sep pre c.text post)
    (hword : ∀ s, sep s = true → u.isWord s = false) (hb : isBoundary u c = true) :
    isBoundary u (c.within pre post) = true := by
  unfold isBoundary at hb ⊢
  rcases h.before hword with hl | ⟨hl, s, hs, hsep⟩
  · rcases h.after hword with hr | ⟨hr, s, hs, hsep⟩
    · rw [hl, hr]
      exact hb
    · rw [hr, hs] at hb
      simp [hword s hsep] at hb
  · rw [hl, hs] at hb
    simp [hword s hsep] at hb

/-! ## Patterns that survive -/

/-- Every match in a text is a match in each longer text whose seams have
separators. -/
def Splices (u : Unicode) (sep : CodePoint → Bool) (r : Pattern) : Prop :=
  ∀ pre post c, Seamed sep pre c.text post →
    ∀ d ∈ ends u r c, d.within pre post ∈ ends u r (c.within pre post)

/-- The pattern matches nowhere right before a separator. -/
def Leads (u : Unicode) (sep : CodePoint → Bool) (r : Pattern) : Prop :=
  ∀ c, (∃ s, c.after.head? = some s ∧ sep s = true) → ends u r c = []

/-- No match of the pattern ends the text with a separator. -/
def Closes (u : Unicode) (sep : CodePoint → Bool) (r : Pattern) : Prop :=
  ∀ c, ∀ d ∈ ends u r c, ¬ d.Trailing sep

/-- The pattern has no lookaround. -/
def plain : Pattern → Bool
  | .set _ => true
  | .eps => true
  | .seq a b => plain a && plain b
  | .alt a b => plain a && plain b
  | .rep r _ _ => plain r
  | .boundary => true
  | .notBehind _ => false
  | .notAhead _ => false

/-- A pattern of classes that hold no separator. -/
def Solid (sep : CodePoint → Bool) : Pattern → Prop
  | .set p => ∀ s, sep s = true → p s = false
  | .eps => True
  | .seq a b => Solid sep a ∧ Solid sep b
  | .alt a b => Solid sep a ∧ Solid sep b
  | _ => False

theorem Splices.seq (ha : Splices u sep a) (hb : Splices u sep b) : Splices u sep (.seq a b) := by
  intro pre post c hseam d hd
  obtain ⟨e, he, hd⟩ := List.mem_flatMap.mp hd
  refine List.mem_flatMap.mpr ⟨e.within pre post, ha pre post c hseam e he, ?_⟩
  exact hb pre post e (text_ends he ▸ hseam) d hd

theorem Splices.alt (ha : Splices u sep a) (hb : Splices u sep b) : Splices u sep (.alt a b) := by
  intro pre post c hseam d hd
  rcases List.mem_append.mp hd with hd | hd
  · exact List.mem_append_left _ (ha pre post c hseam d hd)
  · exact List.mem_append_right _ (hb pre post c hseam d hd)

theorem Splices.rep (hr : Splices u sep r) (lo : Nat) (hi : Option Nat) :
    Splices u sep (.rep r lo hi) := by
  intro pre post c hseam d hd
  have hstep : ∀ e e', (e' = e.within pre post ∧ e.text = c.text) → ∀ f ∈ ends u r e,
      ∃ f' ∈ ends u r e', f' = f.within pre post ∧ f.text = c.text := by
    rintro e e' ⟨rfl, he⟩ f hf
    exact ⟨_, hr pre post e (he ▸ hseam) f hf, rfl, (text_ends hf).trans he⟩
  have hinit : ∀ e ∈ [c], ∃ e' ∈ [c.within pre post], e' = e.within pre post ∧ e.text = c.text := by
    intro e he
    obtain rfl := List.mem_singleton.mp he
    exact ⟨_, List.mem_singleton_self _, rfl, rfl⟩
  have hiter := iterate_related hstep lo hinit
  cases hi with
  | some hi =>
      obtain ⟨_, hmem, rfl, -⟩ := upTo_related hstep (Nat.le_refl (hi - lo)) hiter d hd
      exact hmem
  | none =>
      have hlen : c.after.length ≤ (c.within pre post).after.length := by
        simp [Cursor.within]
      obtain ⟨_, hmem, rfl, -⟩ := upTo_related hstep hlen hiter d hd
      exact hmem

/-- **Without lookarounds** a pattern survives: a boundary does, and a
class only reads the text of the match. -/
theorem Splices.of_plain (hword : ∀ s, sep s = true → u.isWord s = false)
    (h : plain r = true) : Splices u sep r := by
  induction r with
  | set p =>
      intro pre post c hseam d hd
      obtain ⟨before, x, rest, rfl, rfl, hx⟩ := ends_set_cases hd
      simp [ends, Cursor.within, hx]
  | eps =>
      intro pre post c hseam d hd
      obtain rfl := List.mem_singleton.mp hd
      exact List.mem_singleton_self _
  | seq a b iha ihb =>
      obtain ⟨ha, hb⟩ := (Bool.and_eq_true _ _).mp h
      exact (iha ha).seq (ihb hb)
  | alt a b iha ihb =>
      obtain ⟨ha, hb⟩ := (Bool.and_eq_true _ _).mp h
      exact (iha ha).alt (ihb hb)
  | rep r lo hi ih => exact (ih h).rep lo hi
  | boundary =>
      intro pre post c hseam d hd
      obtain ⟨rfl, hb⟩ := ends_boundary_cases hd
      simp [ends, hseam.boundary hword hb]
  | notBehind p => cases h
  | notAhead r => cases h

/-- A lookbehind survives before a pattern that does not start with a
separator. -/
theorem Splices.behind {p : CodePoint → Bool} (hp : ∀ s, sep s = true → p s = false)
    (hlead : Leads u sep b) (hb : Splices u sep b) : Splices u sep (.seq (.notBehind p) b) := by
  intro pre post c hseam d hd
  obtain ⟨e, he, hmatch⟩ := List.mem_flatMap.mp hd
  obtain ⟨rfl, hbehind⟩ := ends_notBehind_cases he
  refine List.mem_flatMap.mpr ⟨e.within pre post, ?_, hb pre post e hseam d hmatch⟩
  rcases hseam.before hp with heq | ⟨-, hsep⟩
  · simp only [ends, heq, hbehind, Bool.false_eq_true, if_false]
    exact List.mem_singleton_self _
  · rw [hlead e hsep] at hmatch
    cases hmatch

/-- A solid pattern finds nothing new across the seam. -/
theorem Solid.within (hr : Solid sep r) (hseam : Seamed sep pre c.text post)
    (hc : ¬ c.Trailing sep) {d' : Cursor} (hd : d' ∈ ends u r (c.within pre post)) :
    ∃ d ∈ ends u r c, d' = d.within pre post ∧ ¬ d.Trailing sep := by
  induction r generalizing c d' with
  | set p =>
      obtain ⟨before, x, rest, heq, rfl, hx⟩ := ends_set_cases hd
      obtain ⟨before₀, after₀⟩ := c
      cases after₀ with
      | nil =>
          rcases hseam.after hr with hsame | htrail
          · have hx' : (Cursor.within pre post ⟨before₀, []⟩).after.head? = some x := by rw [heq]; rfl
            rw [hx'] at hsame
            simp [hx] at hsame
          · exact absurd htrail hc
      | cons y after₀ =>
          obtain ⟨rfl, hcons⟩ := Cursor.mk.inj heq
          obtain ⟨rfl, rfl⟩ := List.cons.inj hcons
          refine ⟨⟨y :: before₀, after₀⟩, by simp [ends, hx], rfl, ?_⟩
          rintro ⟨-, s, hs, hsep⟩
          obtain rfl := Option.some.inj hs
          rw [hr y hsep] at hx
          cases hx
  | eps =>
      obtain rfl := List.mem_singleton.mp hd
      exact ⟨c, List.mem_singleton_self c, rfl, hc⟩
  | seq a b iha ihb =>
      obtain ⟨e', he', hmatch'⟩ := List.mem_flatMap.mp hd
      obtain ⟨e, he, rfl, htrail⟩ := iha hr.1 hseam hc he'
      obtain ⟨d, hmatch, heq, htrail'⟩ := ihb hr.2 (text_ends he ▸ hseam) htrail hmatch'
      exact ⟨d, List.mem_flatMap.mpr ⟨e, he, hmatch⟩, heq, htrail'⟩
  | alt a b iha ihb =>
      rcases List.mem_append.mp hd with hd | hd
      · obtain ⟨d, hd, heq, htrail⟩ := iha hr.1 hseam hc hd
        exact ⟨d, List.mem_append_left _ hd, heq, htrail⟩
      · obtain ⟨d, hd, heq, htrail⟩ := ihb hr.2 hseam hc hd
        exact ⟨d, List.mem_append_right _ hd, heq, htrail⟩
  | rep r lo hi => exact hr.elim
  | boundary => exact hr.elim
  | notBehind p => exact hr.elim
  | notAhead r => exact hr.elim

/-- A negative lookahead for a solid pattern survives behind a pattern that
does not end in a separator. -/
theorem Splices.ahead (ha : Splices u sep a) (hclose : Closes u sep a) (hr : Solid sep r) :
    Splices u sep (.seq a (.notAhead r)) := by
  intro pre post c hseam d hd
  obtain ⟨e, he, hmatch⟩ := List.mem_flatMap.mp hd
  obtain ⟨rfl, hnone⟩ := ends_notAhead_cases hmatch
  refine List.mem_flatMap.mpr ⟨d.within pre post, ha pre post c hseam d he, ?_⟩
  have hnone' : ends u r (d.within pre post) = [] := by
    refine List.eq_nil_iff_forall_not_mem.mpr fun d' hd' => ?_
    have hseam' : Seamed sep pre d.text post := text_ends he ▸ hseam
    obtain ⟨f, hf, -⟩ := hr.within hseam' (hclose c d he) hd'
    rw [hnone] at hf
    cases hf
  simp only [ends, hnone', List.isEmpty_nil, if_true]
  exact List.mem_singleton_self _

/-! ## Patterns that do not start or end with a separator -/

theorem Leads.set {p : CodePoint → Bool} (hp : ∀ s, sep s = true → p s = false) :
    Leads u sep (.set p) := by
  rintro ⟨before, after⟩ ⟨s, hs, hsep⟩
  cases after with
  | nil => cases hs
  | cons x rest =>
      obtain rfl := Option.some.inj hs
      simp [ends, hp x hsep]

theorem Leads.seq (ha : Leads u sep a) : Leads u sep (.seq a b) := by
  intro c hc
  simp [ends, ha c hc]

theorem Leads.alt (ha : Leads u sep a) (hb : Leads u sep b) : Leads u sep (.alt a b) := by
  intro c hc
  simp [ends, ha c hc, hb c hc]

theorem Closes.set {p : CodePoint → Bool} (hp : ∀ s, sep s = true → p s = false) :
    Closes u sep (.set p) := by
  rintro c d hd ⟨-, s, hs, hsep⟩
  obtain ⟨before, x, rest, rfl, rfl, hx⟩ := ends_set_cases hd
  obtain rfl := Option.some.inj hs
  rw [hp x hsep] at hx
  cases hx

theorem Closes.boundary (hword : ∀ s, sep s = true → u.isWord s = false) :
    Closes u sep .boundary := by
  rintro c d hd ⟨hend, s, hs, hsep⟩
  obtain ⟨rfl, hb⟩ := ends_boundary_cases hd
  simp [isBoundary, hend, hs, hword s hsep] at hb

theorem Closes.seq (hb : Closes u sep b) : Closes u sep (.seq a b) := by
  intro c d hd
  obtain ⟨e, -, hmatch⟩ := List.mem_flatMap.mp hd
  exact hb e d hmatch

theorem Closes.alt (ha : Closes u sep a) (hb : Closes u sep b) : Closes u sep (.alt a b) := by
  intro c d hd
  rcases List.mem_append.mp hd with hd | hd
  · exact ha c d hd
  · exact hb c d hd

/-- An optional end. -/
theorem Closes.seq_rep (ha : Closes u sep a) (hr : Closes u sep r) (lo : Nat) (hi : Option Nat) :
    Closes u sep (.seq a (.rep r lo hi)) := by
  intro c d hd
  obtain ⟨e, he, hmatch⟩ := List.mem_flatMap.mp hd
  exact rep_keeps (P := fun f => ¬ f.Trailing sep) (fun f _ g hg => hr f g hg) (ha c e he) d hmatch

/-! ## Lists of patterns -/

theorem Splices.alts {rs : List Pattern} (h : ∀ r ∈ rs, Splices u sep r) :
    Splices u sep (alts rs) := by
  induction rs with
  | nil =>
      intro pre post c _ d hd
      obtain ⟨_, _, _, -, -, hx⟩ := ends_set_cases hd
      cases hx
  | cons r rs ih =>
      cases rs with
      | nil => exact h r List.mem_cons_self
      | cons r' rs =>
          exact (h r List.mem_cons_self).alt (ih fun x hx => h x (List.mem_cons_of_mem r hx))

theorem Leads.alts {rs : List Pattern} (h : ∀ r ∈ rs, Leads u sep r) :
    Leads u sep (alts rs) := by
  induction rs with
  | nil => exact .set fun _ _ => rfl
  | cons r rs ih =>
      cases rs with
      | nil => exact h r List.mem_cons_self
      | cons r' rs =>
          exact (h r List.mem_cons_self).alt (ih fun x hx => h x (List.mem_cons_of_mem r hx))

theorem Closes.alts {rs : List Pattern} (h : ∀ r ∈ rs, Closes u sep r) :
    Closes u sep (alts rs) := by
  induction rs with
  | nil => exact .set fun _ _ => rfl
  | cons r rs ih =>
      cases rs with
      | nil => exact h r List.mem_cons_self
      | cons r' rs =>
          exact (h r List.mem_cons_self).alt (ih fun x hx => h x (List.mem_cons_of_mem r hx))

section Literals

variable {s : String} (h : ∀ c ∈ str s, ∀ d, sep d = true → (foldCase d == foldCase c) = false)

include h

theorem Solid.lit : Solid sep (lit s) := by
  unfold Pattern.lit
  generalize str s = cs at h
  induction cs with
  | nil => trivial
  | cons c cs ih =>
      cases cs with
      | nil => exact h c List.mem_cons_self
      | cons c' cs =>
          exact ⟨h c List.mem_cons_self, ih fun x hx => h x (List.mem_cons_of_mem c hx)⟩

/-- A literal without separators, and not empty, neither starts nor ends
with one. -/
theorem leads_closes_lit (hne : str s ≠ []) : Leads u sep (lit s) ∧ Closes u sep (lit s) := by
  unfold Pattern.lit
  generalize str s = cs at h hne
  induction cs with
  | nil => exact absurd rfl hne
  | cons c cs ih =>
      have hc := h c List.mem_cons_self
      cases cs with
      | nil => exact ⟨.set hc, .set hc⟩
      | cons c' cs =>
          obtain ⟨-, hclose⟩ :=
            ih (fun x hx => h x (List.mem_cons_of_mem c hx)) (List.cons_ne_nil c' cs)
          exact ⟨.seq (.set hc), .seq hclose⟩

end Literals

/-! ## Searching -/

theorem searchFrom_iff {before after : Str} :
    searchFrom u r before after = true ↔
      ∃ mid rest, after = mid ++ rest ∧ ends u r ⟨mid.reverse ++ before, rest⟩ ≠ [] := by
  induction after generalizing before with
  | nil =>
      simp only [searchFrom, Bool.not_eq_true', List.isEmpty_eq_false_iff, ne_eq]
      constructor
      · intro h
        exact ⟨[], [], rfl, h⟩
      · rintro ⟨mid, rest, heq, h⟩
        obtain ⟨rfl, rfl⟩ := List.append_eq_nil_iff.mp heq.symm
        exact h
  | cons x after ih =>
      simp only [searchFrom, Bool.or_eq_true, Bool.not_eq_true', List.isEmpty_eq_false_iff, ne_eq,
        ih]
      constructor
      · rintro (h | ⟨mid, rest, rfl, h⟩)
        · exact ⟨[], x :: after, rfl, h⟩
        · exact ⟨x :: mid, rest, rfl, by simpa using h⟩
      · rintro ⟨mid, rest, heq, h⟩
        cases mid with
        | nil =>
            obtain rfl := heq
            exact .inl h
        | cons y mid =>
            obtain ⟨rfl, rfl⟩ := List.cons.inj heq
            exact .inr ⟨mid, rest, rfl, by simpa using h⟩

/-- A search finds a match at some position of the text. -/
theorem search_iff {text : Str} :
    search u r text = true ↔ ∃ c : Cursor, c.text = text ∧ ends u r c ≠ [] := by
  rw [search, searchFrom_iff]
  constructor
  · rintro ⟨mid, rest, rfl, h⟩
    exact ⟨⟨mid.reverse, rest⟩, by simp [Cursor.text], by simpa using h⟩
  · rintro ⟨c, rfl, h⟩
    exact ⟨c.before.reverse, c.after, rfl, by simpa using h⟩

/-- **What is found in a text is found in it between separators.** -/
theorem Splices.search (hr : Splices u sep r) {text : Str} (hseam : Seamed sep pre text post)
    (h : search u r text = true) : search u r (pre ++ text ++ post) = true := by
  obtain ⟨c, rfl, hne⟩ := search_iff.mp h
  obtain ⟨d, hd⟩ := List.exists_mem_of_ne_nil _ hne
  refine search_iff.mpr ⟨c.within pre post, by simp [Cursor.text, Cursor.within], ?_⟩
  exact List.ne_nil_of_mem (hr pre post c hseam d hd)

end Pattern

end Py
