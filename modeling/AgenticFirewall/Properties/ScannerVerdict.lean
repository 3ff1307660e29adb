import AgenticFirewall.Firewall.Scanner

/-!
# The scanner's verdict

Whether a scan blocks depends on the strings of the value, their total
length and its nesting alone: not on where the walk stops, nor on the
order in which an object lists its keys.
-/

namespace AgenticFirewall

open Py

namespace Scanner

variable (s : Scanner) (direction : Direction)

/-- What a visit takes from the budget. -/
def Visit.cost : Visit → Nat
  | .text t => t.length + 1
  | .deep => 0

/-- What a list of visits takes from the budget. -/
def spent : List (Visit × Path) → Nat
  | [] => 0
  | v :: vs => v.1.cost + spent vs

/-- The total cost of scanning a list of strings. -/
def cost (texts : List Str) : Nat := (texts.map fun t => t.length + 1).sum

/-! ## Visits and strings -/

theorem guardDepth_le {depth : Nat} (h : depth ≤ s.maxDepth) (vs : List (Visit × Path)) :
    s.guardDepth depth vs = vs := by
  simp [guardDepth, Nat.not_lt.mpr h]

theorem deep_mem_guardDepth {depth : Nat} (h : s.maxDepth < depth) (vs : List (Visit × Path)) :
    (Visit.deep, []) ∈ s.guardDepth depth vs := by
  simp [guardDepth, h]

theorem under_fst (step : PathStep) (vs : List (Visit × Path)) :
    (under step vs).map Prod.fst = vs.map Prod.fst := by
  simp [under]

theorem visitsList_eq (xs : List Value) (i depth : Nat) :
    (s.visitsList xs i depth).map Prod.fst =
      xs.flatMap fun x => (s.visits x (depth + 1)).map Prod.fst := by
  induction xs generalizing i with
  | nil => rfl
  | cons x xs ih => simp [visitsList, under_fst, ih]

theorem visitsItems_eq (items : List (Str × Value)) (depth : Nat) :
    (s.visitsItems items depth).map Prod.fst =
      items.flatMap fun kv => .text kv.1 :: (s.visits kv.2 (depth + 1)).map Prod.fst := by
  induction items with
  | nil => rfl
  | cons kv items ih => simp [visitsItems, under_fst, ih]

/-- Within the depth limit the walk visits the strings, in order. -/
theorem visits_eq_texts (v : Value) :
    ∀ depth, depth + v.height ≤ s.maxDepth →
      (s.visits v depth).map Prod.fst = v.texts.map .text := by
  have hlist : ∀ xs : List Value, (∀ x ∈ xs, ∀ depth, depth + x.height ≤ s.maxDepth →
        (s.visits x depth).map Prod.fst = x.texts.map Visit.text) →
      ∀ i depth, depth + Value.heightList xs ≤ s.maxDepth →
        (s.visitsList xs i depth).map Prod.fst = (Value.textsList xs).map .text := by
    intro xs ih i depth h
    rw [visitsList_eq, Value.textsList_eq, List.map_flatMap]
    refine List.flatMap_congr fun x hx => ih x hx _ ?_
    have hle := Value.le_foldr_max (List.mem_map_of_mem (f := fun x => Value.height x + 1) hx)
    rw [← Value.heightList_eq] at hle
    omega
  induction v using Value.induct with
  | null => exact fun depth h => by rw [visits, s.guardDepth_le (by omega)]; rfl
  | bool b => exact fun depth h => by rw [visits, s.guardDepth_le (by omega)]; rfl
  | num n => exact fun depth h => by rw [visits, s.guardDepth_le (by omega)]; rfl
  | str t => exact fun depth h => by rw [visits, s.guardDepth_le (by omega)]; rfl
  | list xs ih =>
      intro depth h
      rw [visits, s.guardDepth_le (by omega), Value.texts]
      exact hlist xs ih 0 depth h
  | tuple xs ih =>
      intro depth h
      rw [visits, s.guardDepth_le (by omega), Value.texts]
      exact hlist xs ih 0 depth h
  | dict items ih =>
      intro depth h
      rw [visits, s.guardDepth_le (by omega), Value.texts, visitsItems_eq, Value.textsItems_eq,
        List.map_flatMap]
      refine List.flatMap_congr fun kv hkv => ?_
      have hle := Value.le_foldr_max
        (List.mem_map_of_mem (f := fun kv : Str × Value => Value.height kv.2 + 1) hkv)
      rw [← Value.heightItems_eq] at hle
      simp only [Value.height] at h
      rw [ih kv hkv (depth + 1) (by omega), List.map_cons]

/-- Past the depth limit it meets an over-deep node. -/
theorem deep_mem_visits (v : Value) :
    ∀ depth, s.maxDepth < depth + v.height → Visit.deep ∈ (s.visits v depth).map Prod.fst := by
  have hguard : ∀ depth vs, (s.maxDepth < depth ∨ Visit.deep ∈ vs.map Prod.fst) →
      Visit.deep ∈ (s.guardDepth depth vs).map Prod.fst := by
    intro depth vs h
    by_cases hd : s.maxDepth < depth
    · exact List.mem_map.mpr ⟨_, s.deep_mem_guardDepth hd vs, rfl⟩
    · rw [s.guardDepth_le (Nat.not_lt.mp hd)]
      exact h.resolve_left hd
  have hlist : ∀ xs : List Value, (∀ x ∈ xs, ∀ depth, s.maxDepth < depth + x.height →
        Visit.deep ∈ (s.visits x depth).map Prod.fst) →
      ∀ i depth, s.maxDepth < depth + Value.heightList xs →
        s.maxDepth < depth ∨ Visit.deep ∈ (s.visitsList xs i depth).map Prod.fst := by
    intro xs ih i depth h
    by_cases hd : s.maxDepth < depth
    · exact .inl hd
    · right
      rw [Value.heightList_eq] at h
      obtain ⟨m, hm, hlt⟩ := Value.exists_lt_of_lt_foldr_max
        (show s.maxDepth - depth < (xs.map fun x => x.height + 1).foldr max 0 by omega)
      obtain ⟨x, hx, rfl⟩ := List.mem_map.mp hm
      rw [visitsList_eq]
      exact List.mem_flatMap.mpr ⟨x, hx, ih x hx _ (by omega)⟩
  induction v using Value.induct with
  | null => exact fun depth h => hguard depth _ (.inl (by simpa [Value.height] using h))
  | bool b => exact fun depth h => hguard depth _ (.inl (by simpa [Value.height] using h))
  | num n => exact fun depth h => hguard depth _ (.inl (by simpa [Value.height] using h))
  | str t => exact fun depth h => hguard depth _ (.inl (by simpa [Value.height] using h))
  | list xs ih => exact fun depth h => hguard depth _ (hlist xs ih 0 depth h)
  | tuple xs ih => exact fun depth h => hguard depth _ (hlist xs ih 0 depth h)
  | dict items ih =>
      intro depth h
      refine hguard depth _ ?_
      by_cases hd : s.maxDepth < depth
      · exact .inl hd
      · right
        rw [Value.height, Value.heightItems_eq] at h
        obtain ⟨m, hm, hlt⟩ := Value.exists_lt_of_lt_foldr_max
          (show s.maxDepth - depth < (items.map fun kv => kv.2.height + 1).foldr max 0 by omega)
        obtain ⟨kv, hkv, rfl⟩ := List.mem_map.mp hm
        rw [visitsItems_eq]
        exact List.mem_flatMap.mpr
          ⟨kv, hkv, List.mem_cons_of_mem _ (ih kv hkv _ (by omega))⟩

/-! ## A clean scan -/

/-- Nothing is reported when every visit is a string that trips no rule and
the budget pays for all of them. -/
theorem reports_clean_iff {vs : List (Visit × Path)} {budget : Int} (hb : 0 ≤ budget) :
    (∀ r ∈ s.reports direction budget vs, r.1 = []) ↔
      (∀ w ∈ vs.map Prod.fst, ∃ t, w = .text t ∧ s.scanText direction t = []) ∧
        (spent vs : Int) ≤ budget := by
  induction vs generalizing budget with
  | nil => simpa [reports, spent] using hb
  | cons v vs ih =>
      obtain ⟨w, path⟩ := v
      cases w with
      | deep => simp [reports]
      | text t =>
          simp only [reports, List.map_cons, List.mem_cons, forall_eq_or_imp, spent, Visit.cost]
          by_cases hneg : budget - (t.length + 1) < 0
          · simp only [hneg, if_true, List.mem_singleton, forall_eq]
            constructor
            · intro h
              cases h
            · intro h
              obtain ⟨-, h⟩ := h
              push_cast at h
              omega
          · rw [if_neg hneg]
            simp only [List.mem_cons, forall_eq_or_imp, ih (Int.not_lt.mp hneg)]
            have hcost : ((t.length + 1 + spent vs : Nat) : Int) ≤ budget ↔
                (spent vs : Int) ≤ budget - (t.length + 1) := by
              push_cast
              omega
            constructor
            · intro h
              obtain ⟨ht, hall, hsum⟩ := h
              exact ⟨⟨⟨t, rfl, ht⟩, hall⟩, hcost.mpr hsum⟩
            · intro h
              obtain ⟨⟨⟨t', ht', hclean⟩, hall⟩, hsum⟩ := h
              cases ht'
              exact ⟨hclean, hall, hcost.mp hsum⟩

theorem spent_eq_cost {vs : List (Visit × Path)} {texts : List Str}
    (h : vs.map Prod.fst = texts.map .text) : spent vs = cost texts := by
  induction vs generalizing texts with
  | nil =>
      cases texts with
      | nil => rfl
      | cons t texts => cases h
  | cons v vs ih =>
      cases texts with
      | nil => cases h
      | cons t texts =>
          obtain ⟨hv, hvs⟩ := List.cons.inj h
          have hhead : v.1.cost = t.length + 1 := by rw [hv]; rfl
          simp only [spent, cost, List.map_cons, List.sum_cons, hhead, ih hvs]

/-- **The verdict**: a scan blocks exactly when some string trips a rule,
the strings cost more than the budget, or the value is nested past the
limit. -/
theorem scanValue_blocked_iff (v : Value) (root : Str) :
    (s.scanValue direction v root).blocked = true ↔
      (∃ t ∈ v.texts, s.scanText direction t ≠ []) ∨ s.maxChars < cost v.texts ∨
        s.maxDepth < v.height := by
  rw [scanValue_blocked, ← not_iff_not]
  push Not
  rw [reports_clean_iff s direction (Int.natCast_nonneg _)]
  by_cases hdeep : s.maxDepth < v.height
  · constructor
    · intro h
      obtain ⟨hall, -⟩ := h
      obtain ⟨t, ht, -⟩ := hall _ (s.deep_mem_visits v 0 (by omega))
      cases ht
    · intro h
      obtain ⟨-, -, h⟩ := h
      omega
  · have htexts := s.visits_eq_texts v 0 (by omega)
    rw [htexts, spent_eq_cost htexts]
    simp only [List.mem_map, forall_exists_index, and_imp, forall_apply_eq_imp_iff₂,
      Visit.text.injEq, exists_eq_left', Nat.cast_le]
    exact ⟨fun h => ⟨h.1, h.2, Nat.not_lt.mp hdeep⟩, fun h => ⟨h.1, h.2.1⟩⟩

/-- The order of keys, at any depth, plays no role. -/
theorem scanValue_blocked_congr {v w : Value} (h : v.JsonEq w) (root : Str) :
    (s.scanValue direction v root).blocked = (s.scanValue direction w root).blocked := by
  rw [Bool.eq_iff_iff, scanValue_blocked_iff, scanValue_blocked_iff, h.height_eq]
  have hmem : ∀ t, t ∈ v.texts ↔ t ∈ w.texts := fun t => h.texts_perm.mem_iff
  have hcost : cost v.texts = cost w.texts := (h.texts_perm.map _).sum_eq
  simp only [hmem, hcost]

/-- **The verdict is exact.** A scan blocks exactly when a key or string
held somewhere in the value trips a rule, the keys and strings cost more
than the budget, or a node lies past the depth limit; the root location and
the order of keys play no role. -/
theorem verdict_exact (v : Value) (root : Str) :
    ((s.scanValue direction v root).blocked = true ↔
      (∃ d w t, v.Node d w ∧ w.Holds t ∧ s.scanText direction t ≠ []) ∨
        s.maxChars < cost v.texts ∨ ∃ d w, v.Node d w ∧ s.maxDepth < d) ∧
      ∀ w root', v.JsonEq w →
        (s.scanValue direction w root').blocked = (s.scanValue direction v root).blocked := by
  constructor
  · rw [scanValue_blocked_iff, Value.lt_height_iff]
    apply or_congr_left
    constructor
    · intro h
      obtain ⟨t, ht, hhit⟩ := h
      obtain ⟨d, w, hw, hheld⟩ := Value.mem_texts_iff.mp ht
      exact ⟨d, w, t, hw, hheld, hhit⟩
    · intro h
      obtain ⟨d, w, t, hw, hheld, hhit⟩ := h
      exact ⟨t, Value.mem_texts_iff.mpr ⟨d, w, hw, hheld⟩, hhit⟩
  · intro w root' h
    rw [s.scanValue_blocked_congr direction h root, Bool.eq_iff_iff, scanValue_blocked_iff,
      scanValue_blocked_iff]

end Scanner

end AgenticFirewall
