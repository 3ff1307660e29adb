import AgenticFirewall.Firewall.Risk

/-!
# The words of a name

What `_words` finds in a joined name, and in the snake_case, kebab-case,
dotted and camelCase spelling of a list of words. The camelCase splitter
sees a boundary only after a lowercase letter or digit, so a one-letter
word is glued to the word after it.
-/

namespace AgenticFirewall

open Py

namespace RiskClassifier

/-! ## Boundaries -/

/-- `[a-z0-9]` before, `[A-Z]` after: where the splitter puts its
underscore. -/
def boundary (last next : Option CodePoint) : Bool :=
  last.any (fun c => isLower c || isDigit c) && next.any isUpper

theorem camelSub_append (s t : Str) : camelSub (s ++ t) =
    camelSub s ++ ((if boundary s.getLast? t.head? then [ofChar '_'] else []) ++ camelSub t) := by
  induction s with
  | nil => simp [boundary, camelSub]
  | cons a s ih =>
      cases s with
      | nil =>
          cases t with
          | nil => simp [boundary, camelSub]
          | cons b t =>
              have hlast : boundary [a].getLast? (b :: t).head? =
                  ((isLower a || isDigit a) && isUpper b) := rfl
              rw [hlast]
              simp only [List.cons_append, List.nil_append, camelSub]
              split <;> rfl
      | cons b s =>
          rw [List.getLast?_cons_cons]
          simp only [List.cons_append, camelSub] at ih ⊢
          split
          · simp [ih]
          · simp [ih]

/-- A text without uppercase letters, the first character apart, has no
boundary inside. -/
theorem camelSub_of_tail {s : Str} (h : ∀ c ∈ s.tail, isUpper c = false) : camelSub s = s := by
  induction s with
  | nil => rfl
  | cons a s ih =>
      cases s with
      | nil => rfl
      | cons b s =>
          have hb : isUpper b = false := h b (by simp)
          have hrest : camelSub (b :: s) = b :: s := ih fun c hc => h c (List.mem_of_mem_tail hc)
          simp [camelSub, hb, hrest]

/-! ## Joined names -/

/-- `_SPLIT_RE.split`. -/
def pieces (s : Str) : List Str := s.splitOnP fun c => !isAsciiAlnum c

theorem words_eq (name : Str) :
    words name = ((pieces (camelSub name)).filter (· ≠ [])).map (·.map lowerAscii) := rfl

theorem pieces_append_sep (s t : Str) {c : CodePoint} (hc : isAsciiAlnum c = false) :
    pieces (s ++ c :: t) = pieces s ++ pieces t :=
  List.splitOnP_append_cons _ _ (by simp [hc])

/-- A letter joins the first piece of what follows it. -/
theorem pieces_cons {c : CodePoint} (hc : isAsciiAlnum c = true) (s : Str) :
    ∃ p ps, pieces s = p :: ps ∧ pieces (c :: s) = (c :: p) :: ps := by
  obtain ⟨p, ps, hps⟩ : ∃ p ps, pieces s = p :: ps :=
    List.exists_cons_of_ne_nil (List.splitOnP_ne_nil _ _)
  refine ⟨p, ps, hps, ?_⟩
  rw [pieces] at hps ⊢
  rw [List.splitOnP_cons_eq_if_modifyHead, hps]
  simp [hc]

/-- A separator is no boundary of the splitter. -/
theorem boundary_of_not_alnum {c : CodePoint} (hc : isAsciiAlnum c = false) :
    (∀ last, boundary last (some c) = false) ∧ ∀ next, boundary (some c) next = false := by
  simp only [isAsciiAlnum, Bool.or_eq_false_iff] at hc
  obtain ⟨⟨hupper, hlower⟩, hdigit⟩ := hc
  exact ⟨fun last => by simp [boundary, hupper], fun next => by simp [boundary, hlower, hdigit]⟩

/-- **The words of a joined name** are those of its parts. -/
theorem words_append_sep (s t : Str) {c : CodePoint} (hc : isAsciiAlnum c = false) :
    words (s ++ c :: t) = words s ++ words t := by
  have hbound := boundary_of_not_alnum hc
  have hcamel : camelSub (s ++ c :: t) = camelSub s ++ c :: camelSub t := by
    have hhead := camelSub_append [c] t
    rw [List.getLast?_singleton, hbound.2] at hhead
    rw [camelSub_append, List.head?_cons, hbound.1]
    simpa [camelSub] using hhead
  rw [words_eq, hcamel, pieces_append_sep _ _ hc, List.filter_append, List.map_append, ← words_eq, ← words_eq]

/-! ## Spelled words -/

/-- A non-empty word of ASCII lowercase letters. -/
def IsWord (w : Str) : Prop := w ≠ [] ∧ ∀ c ∈ w, isLower c = true

instance (w : Str) : Decidable (IsWord w) :=
  have := List.decidableBAll (fun c => isLower c = true) w
  inferInstanceAs (Decidable (w ≠ [] ∧ ∀ c ∈ w, isLower c = true))

/-- The words with a separator between them. -/
def joined (sep : Char) (ws : List Str) : Str := [ofChar sep].intercalate ws

/-- `str.upper` on an ASCII lowercase letter. -/
def upperAscii (c : CodePoint) : CodePoint :=
  if isLower c then Fin.ofNat 0x110000 (c.val - 32) else c

/-- The word with its first letter capitalised. -/
def hump : Str → Str
  | [] => []
  | c :: cs => upperAscii c :: cs

/-- The words with every first letter capitalised, concatenated. -/
def humps (ws : List Str) : Str := (ws.map hump).flatten

/-- The camelCase spelling. -/
def camelCase : List Str → Str
  | [] => []
  | w :: ws => w ++ humps ws

/-- Put the text before the first word. -/
def glueHead (s : Str) : List Str → List Str
  | [] => [s]
  | w :: ws => (s ++ w) :: ws

/-- The words with each one-letter word glued to the one after it. -/
def glued : List Str → List Str
  | [] => []
  | w :: ws => if w.length = 1 then glueHead w (glued ws) else w :: glued ws

/-- What the camelCase spelling is split into: nothing is glued to the
first word, which ends in a lowercase letter. -/
def readBack : List Str → List Str
  | [] => []
  | w :: ws => w :: glued ws

theorem val_le_of_isLower {c : CodePoint} (h : isLower c = true) : 0x61 ≤ c.val ∧ c.val ≤ 0x7A := by
  simp only [isLower, inRange, Bool.and_eq_true, decide_eq_true_eq] at h
  exact h

theorem isAsciiAlnum_of_isLower {c : CodePoint} (h : isLower c = true) : isAsciiAlnum c = true := by
  simp [isAsciiAlnum, h]

theorem isUpper_of_isLower {c : CodePoint} (h : isLower c = true) : isUpper c = false := by
  have hle := val_le_of_isLower h
  by_contra hupper
  have hle' := val_le_of_isUpper (Bool.eq_true_of_not_eq_false hupper)
  omega

theorem val_upperAscii {c : CodePoint} (h : isLower c = true) :
    (upperAscii c).val = c.val - 32 := by
  have hle := val_le_of_isLower h
  rw [upperAscii, if_pos h]
  exact Nat.mod_eq_of_lt (by omega)

theorem isUpper_upperAscii {c : CodePoint} (h : isLower c = true) :
    isUpper (upperAscii c) = true := by
  have hle := val_le_of_isLower h
  have hA : 'A'.toNat = 0x41 := rfl
  have hZ : 'Z'.toNat = 0x5A := rfl
  simp only [isUpper, inRange, val_upperAscii h, hA, hZ, Bool.and_eq_true, decide_eq_true_eq]
  omega

theorem lowerAscii_upperAscii {c : CodePoint} (h : isLower c = true) :
    lowerAscii (upperAscii c) = c := by
  have hle := val_le_of_isLower h
  refine Fin.ext ?_
  rw [val_lowerAscii (isUpper_upperAscii h), val_upperAscii h]
  omega

theorem lowerAscii_of_isLower {c : CodePoint} (h : isLower c = true) : lowerAscii c = c := by
  rw [lowerAscii, isUpper_of_isLower h]
  rfl

/-! ## Reading the spellings -/

section Spelled

variable {w : Str} {ws : List Str}

theorem IsWord.alnum (h : IsWord w) : ∀ c ∈ w, isAsciiAlnum c = true :=
  fun c hc => isAsciiAlnum_of_isLower (h.2 c hc)

theorem IsWord.map_lower (h : IsWord w) : w.map lowerAscii = w := by
  conv_rhs => rw [← List.map_id w]
  exact List.map_congr_left fun c hc => lowerAscii_of_isLower (h.2 c hc)

theorem IsWord.camelSub_self (h : IsWord w) : camelSub w = w :=
  camelSub_of_tail fun c hc => isUpper_of_isLower (h.2 c (List.mem_of_mem_tail hc))

theorem pieces_of_alnum {s : Str} (h : ∀ c ∈ s, isAsciiAlnum c = true) : pieces s = [s] :=
  List.splitOnP_eq_singleton fun c hc => by simp [h c hc]

/-- A separator ends the first piece. -/
theorem pieces_alnum_sep {s : Str} (h : ∀ c ∈ s, isAsciiAlnum c = true) (t : Str) {c : CodePoint}
    (hc : isAsciiAlnum c = false) : pieces (s ++ c :: t) = s :: pieces t := by
  rw [pieces_append_sep _ _ hc, pieces_of_alnum h]
  rfl

theorem IsWord.words_self (h : IsWord w) : words w = [w] := by
  rw [words_eq, h.camelSub_self, pieces_of_alnum h.alnum]
  simp [h.1, h.map_lower]

/-- The words of a joined spelling. -/
theorem words_joined {sep : Char} (hsep : isAsciiAlnum (ofChar sep) = false)
    (hws : ∀ w ∈ ws, IsWord w) : words (joined sep ws) = ws := by
  induction ws with
  | nil => rfl
  | cons w ws ih =>
      have hw : IsWord w := hws w List.mem_cons_self
      have hrest := ih fun v hv => hws v (List.mem_cons_of_mem w hv)
      cases ws with
      | nil => simpa [joined] using hw.words_self
      | cons v ws =>
          have hsplit : joined sep (w :: v :: ws) = w ++ ofChar sep :: joined sep (v :: ws) := by
            simp [joined]
          rw [hsplit, words_append_sep _ _ hsep, hw.words_self, hrest]
          rfl

theorem IsWord.exists_cons (h : IsWord w) : ∃ c cs, w = c :: cs ∧ isLower c = true ∧
    hump w = upperAscii c :: cs := by
  obtain ⟨hne, hlower⟩ := h
  cases w with
  | nil => exact absurd rfl hne
  | cons c cs => exact ⟨c, cs, rfl, hlower c List.mem_cons_self, rfl⟩

theorem IsWord.hump_alnum (h : IsWord w) : ∀ c ∈ hump w, isAsciiAlnum c = true := by
  obtain ⟨c, cs, rfl, hc, hhump⟩ := h.exists_cons
  rw [hhump]
  refine List.forall_mem_cons.mpr ⟨?_, fun d hd => h.alnum d (List.mem_cons_of_mem c hd)⟩
  simp [isAsciiAlnum, isUpper_upperAscii hc]

theorem IsWord.camelSub_hump (h : IsWord w) : camelSub (hump w) = hump w := by
  obtain ⟨c, cs, rfl, -, hhump⟩ := h.exists_cons
  rw [hhump]
  exact camelSub_of_tail fun d hd => isUpper_of_isLower (h.2 d (List.mem_cons_of_mem c hd))

theorem IsWord.map_lower_hump (h : IsWord w) : (hump w).map lowerAscii = w := by
  obtain ⟨c, cs, rfl, hc, hhump⟩ := h.exists_cons
  have hlower := h.map_lower
  rw [List.map_cons, List.cons.injEq] at hlower
  rw [hhump, List.map_cons, lowerAscii_upperAscii hc, hlower.2]

/-- Between humps there is a boundary after a word of two letters or
more. -/
theorem boundary_hump (h : IsWord w) (hne : ws ≠ []) (hws : ∀ v ∈ ws, IsWord v) :
    boundary (hump w).getLast? (humps ws).head? = decide (w.length ≠ 1) := by
  obtain ⟨v, vs, rfl⟩ := List.exists_cons_of_ne_nil hne
  have hnext : (humps (v :: vs)).head?.any isUpper = true := by
    obtain ⟨d, ds, rfl, hd, hhump⟩ := (hws v List.mem_cons_self).exists_cons
    simp [humps, hhump, isUpper_upperAscii hd]
  obtain ⟨c, cs, rfl, hc, hhump⟩ := h.exists_cons
  rw [boundary, hnext, Bool.and_true, hhump]
  cases cs with
  | nil =>
      have hupper := isUpper_upperAscii hc
      have hlower : isLower (upperAscii c) = false := by
        by_contra hl
        rw [isUpper_of_isLower (Bool.eq_true_of_not_eq_false hl)] at hupper
        cases hupper
      have hdigit : isDigit (upperAscii c) = false := by
        have hle := val_le_of_isUpper hupper
        have h9 : '9'.toNat = 0x39 := rfl
        simp only [isDigit, inRange, h9, Bool.and_eq_false_iff, decide_eq_false_iff_not]
        omega
      simp [hlower, hdigit]
  | cons d ds =>
      have hlast : ∀ x ∈ (upperAscii c :: d :: ds).getLast?, isLower x = true := by
        rw [List.getLast?_cons_cons]
        exact fun x hx => h.2 x (List.mem_cons_of_mem c (List.mem_of_getLast? hx))
      rw [List.getLast?_eq_some_getLast (List.cons_ne_nil _ _)] at hlast ⊢
      have hlower := hlast _ rfl
      simp only [Option.any_some, hlower, Bool.true_or]
      simp

theorem humps_cons (w : Str) (ws : List Str) : humps (w :: ws) = hump w ++ humps ws := by
  simp [humps]

/-- The pieces of the humps are the glued words, capitals apart. -/
theorem pieces_humps (hne : ws ≠ []) (hws : ∀ v ∈ ws, IsWord v) :
    (∀ p ∈ pieces (camelSub (humps ws)), p ≠ []) ∧
      (pieces (camelSub (humps ws))).map (·.map lowerAscii) = glued ws := by
  induction ws with
  | nil => exact absurd rfl hne
  | cons w ws ih =>
      have hw : IsWord w := hws w List.mem_cons_self
      have hrest : ∀ v ∈ ws, IsWord v := fun v hv => hws v (List.mem_cons_of_mem w hv)
      have hhump : hump w ≠ [] := by
        obtain ⟨c, cs, -, -, hhump⟩ := hw.exists_cons
        simp [hhump]
      cases ws with
      | nil =>
          have hone : humps [w] = hump w := by simp [humps]
          rw [hone, hw.camelSub_hump, pieces_of_alnum hw.hump_alnum]
          simp [hhump, hw.map_lower_hump, glued, glueHead]
      | cons v ws =>
          obtain ⟨hfull, hmap⟩ := ih (by simp) hrest
          have hbound := boundary_hump hw (by simp) hrest
          rw [humps_cons, camelSub_append, hbound, hw.camelSub_hump, glued]
          by_cases hlen : w.length = 1
          · -- no underscore: the letter joins the next piece
            obtain ⟨c, cs, rfl, hc, hcons⟩ := hw.exists_cons
            obtain rfl : cs = [] := by simpa using hlen
            have halnum : isAsciiAlnum (upperAscii c) = true :=
              hw.hump_alnum _ (hcons ▸ List.mem_cons_self)
            obtain ⟨p, ps, hps, hpieces⟩ := pieces_cons halnum (camelSub (humps (v :: ws)))
            rw [hps] at hfull hmap
            simp only [hlen, ne_eq, not_true_eq_false, decide_false, Bool.false_eq_true, if_true,
              if_false, hcons, List.cons_append, List.nil_append]
            rw [hpieces, ← hmap]
            simp only [List.map_cons, lowerAscii_upperAscii hc, glueHead, List.cons_append,
              List.nil_append]
            refine ⟨List.forall_mem_cons.mpr ⟨List.cons_ne_nil _ _, fun q hq => ?_⟩, trivial⟩
            exact hfull q (List.mem_cons_of_mem p hq)
          · have hsep : isAsciiAlnum (ofChar '_') = false := by decide
            have hpieces := pieces_alnum_sep hw.hump_alnum (camelSub (humps (v :: ws))) hsep
            simp only [hlen, ne_eq, not_false_eq_true, decide_true, if_true, if_false,
              List.cons_append, List.nil_append]
            rw [hpieces, List.map_cons, hmap, hw.map_lower_hump]
            exact ⟨List.forall_mem_cons.mpr ⟨hhump, hfull⟩, rfl⟩

/-- **What the camelCase spelling is split into.** -/
theorem words_camelCase (hws : ∀ w ∈ ws, IsWord w) : words (camelCase ws) = readBack ws := by
  cases ws with
  | nil => rfl
  | cons w ws =>
      have hw : IsWord w := hws w List.mem_cons_self
      have hrest : ∀ v ∈ ws, IsWord v := fun v hv => hws v (List.mem_cons_of_mem w hv)
      by_cases hne : ws = []
      · subst hne
        simpa [camelCase, humps, readBack, glued] using hw.words_self
      · obtain ⟨hfull, hmap⟩ := pieces_humps hne hrest
        have hbound : boundary w.getLast? (humps ws).head? = true := by
          obtain ⟨v, vs, rfl⟩ := List.exists_cons_of_ne_nil hne
          obtain ⟨d, ds, rfl, hd, hhump⟩ := (hrest v List.mem_cons_self).exists_cons
          have hlast := List.getLast?_eq_some_getLast hw.1
          have hlower := hw.2 _ (List.getLast_mem hw.1)
          simp [boundary, hlast, hlower, humps, hhump, isUpper_upperAscii hd]
        have hsep : isAsciiAlnum (ofChar '_') = false := by decide
        have hpieces := pieces_alnum_sep hw.alnum (camelSub (humps ws)) hsep
        have hkept : (w :: pieces (camelSub (humps ws))).filter (· ≠ []) =
            w :: pieces (camelSub (humps ws)) := by
          refine List.filter_eq_self.mpr fun p hp => ?_
          rcases List.mem_cons.mp hp with rfl | hp
          · simpa using hw.1
          · simpa using hfull p hp
        rw [words_eq, camelCase, camelSub_append, hbound, hw.camelSub_self]
        simp only [if_true, List.cons_append, List.nil_append]
        rw [hpieces, hkept, List.map_cons, hw.map_lower, hmap]
        rfl

/-- Nothing is glued where every word but the last has two letters. -/
theorem glued_of_long (h : ∀ w ∈ ws.dropLast, w.length ≠ 1) : glued ws = ws := by
  induction ws with
  | nil => rfl
  | cons w ws ih =>
      cases ws with
      | nil =>
          simp only [glued, glueHead]
          split <;> rfl
      | cons v ws =>
          rw [List.dropLast_cons_cons, List.forall_mem_cons] at h
          rw [glued, if_neg h.1, ih h.2]

end Spelled

end RiskClassifier

end AgenticFirewall
