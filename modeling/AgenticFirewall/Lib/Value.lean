import AgenticFirewall.Lib.Text
import Mathlib.Data.List.Forall2
import Mathlib.Data.List.Nodup
import Mathlib.Data.List.Perm.Basic

/-!
# JSON-like values

Python values of the kinds JSON has, tuples included; equality as JSON,
which ignores the order of object keys at every depth; and which values
JSON text can hold at all.
-/

namespace Py

/-- The characters `json` prints a number with. -/
def isNumChar (c : CodePoint) : Bool := isDigit c || oneOf "+-.eEINafinty" c

/-- The form of a printed number: a digit, a sign, `NaN` or `Infinity`
first, number characters throughout. -/
def isNumText : Str → Bool
  | [] => false
  | c :: cs => (isDigit c || oneOf "-NI" c) && (c :: cs).all isNumChar

/-- A number, identified with the text `json` prints for it (numbers print
injectively; `1` and `1.0` are different numbers). -/
structure Num where
  text : Str
  ok : isNumText text = true

inductive Value where
  | null
  | bool (b : Bool)
  | num (n : Num)
  | str (s : Str)
  | list (xs : List Value)
  | tuple (xs : List Value)
  | dict (items : List (Str × Value))

/-! ## Aligned lists -/

section Aligned

variable {α β γ : Type}

theorem forall₂_imp_mem {R S : α → β → Prop} {l : List α} {m : List β}
    (h : List.Forall₂ R l m) (hRS : ∀ a ∈ l, ∀ b ∈ m, R a b → S a b) :
    List.Forall₂ S l m := by
  induction h with
  | nil => exact .nil
  | cons hab _ ih =>
      exact .cons (hRS _ (by simp) _ (by simp) hab)
        (ih fun a ha b hb => hRS a (by simp [ha]) b (by simp [hb]))

theorem exists_of_forall₂ {R : α → β → Prop} {l : List α} {m : List β} (h : List.Forall₂ R l m)
    {a : α} (ha : a ∈ l) : ∃ b ∈ m, R a b := by
  induction h with
  | nil => cases ha
  | cons hab _ ih =>
      rcases List.mem_cons.mp ha with rfl | ha
      · exact ⟨_, List.mem_cons_self, hab⟩
      · obtain ⟨b, hb, hR⟩ := ih ha
        exact ⟨b, List.mem_cons_of_mem _ hb, hR⟩

theorem map_eq_of_forall₂ {f : α → γ} {g : β → γ} {l : List α} {m : List β}
    (h : List.Forall₂ (fun a b => f a = g b) l m) : l.map f = m.map g := by
  induction h with
  | nil => rfl
  | cons hab _ ih => rw [List.map_cons, List.map_cons, hab, ih]

theorem flatMap_perm_of_forall₂ {f : α → List γ} {g : β → List γ} {l : List α} {m : List β}
    (h : List.Forall₂ (fun a b => (f a).Perm (g b)) l m) :
    (l.flatMap f).Perm (m.flatMap g) := by
  induction h with
  | nil => exact .refl _
  | cons hab _ ih =>
      simp only [List.flatMap_cons]
      exact hab.append ih

end Aligned

namespace Value

/-- Structural induction with the children of a container as one
hypothesis. -/
theorem induct {P : Value → Prop} (null : P .null) (bool : ∀ b, P (.bool b))
    (num : ∀ n, P (.num n)) (str : ∀ s, P (.str s))
    (list : ∀ xs, (∀ x ∈ xs, P x) → P (.list xs))
    (tuple : ∀ xs, (∀ x ∈ xs, P x) → P (.tuple xs))
    (dict : ∀ items, (∀ kv ∈ items, P kv.2) → P (.dict items)) : ∀ v, P v := by
  refine fun v => @Value.rec P (fun xs => ∀ x ∈ xs, P x)
    (fun items => ∀ kv ∈ items, P kv.2) (fun kv => P kv.2)
    null bool num str list tuple dict ?_ ?_ ?_ ?_ ?_ v
  · simp
  · intro x xs hx hxs y hy
    rcases List.mem_cons.mp hy with rfl | hy
    · exact hx
    · exact hxs y hy
  · simp
  · intro kv items hkv hitems p hp
    rcases List.mem_cons.mp hp with rfl | hp
    · exact hkv
    · exact hitems p hp
  · exact fun k v hv => hv

/-! ## Equality as JSON -/

mutual
/-- Equal up to the order of object keys, at every depth. -/
def JsonEq : Value → Value → Prop
  | .null, .null => True
  | .bool a, .bool b => a = b
  | .num a, .num b => a = b
  | .str s, .str t => s = t
  | .list xs, .list ys => JsonEqList xs ys
  | .tuple xs, .tuple ys => JsonEqList xs ys
  | .dict a, .dict b => ∃ b', b'.Perm b ∧ JsonEqItems a b'
  | _, _ => False
termination_by structural v => v

def JsonEqList : List Value → List Value → Prop
  | [], [] => True
  | x :: xs, y :: ys => JsonEq x y ∧ JsonEqList xs ys
  | _, _ => False
termination_by structural xs => xs

def JsonEqItems : List (Str × Value) → List (Str × Value) → Prop
  | [], [] => True
  | (k, v) :: a, (l, w) :: b => k = l ∧ JsonEq v w ∧ JsonEqItems a b
  | _, _ => False
termination_by structural a => a
end

theorem jsonEqList_iff {xs ys : List Value} :
    JsonEqList xs ys ↔ List.Forall₂ JsonEq xs ys := by
  induction xs generalizing ys with
  | nil => cases ys <;> simp [JsonEqList]
  | cons x xs ih => cases ys <;> simp [JsonEqList, ih]

theorem jsonEqItems_iff {a b : List (Str × Value)} :
    JsonEqItems a b ↔ List.Forall₂ (fun p q => p.1 = q.1 ∧ JsonEq p.2 q.2) a b := by
  induction a generalizing b with
  | nil => cases b <;> simp [JsonEqItems]
  | cons p a ih => cases b <;> simp [JsonEqItems, ih, and_assoc]

theorem jsonEq_dict {a b : List (Str × Value)} :
    JsonEq (.dict a) (.dict b) ↔
      ∃ b', b'.Perm b ∧ List.Forall₂ (fun p q => p.1 = q.1 ∧ JsonEq p.2 q.2) a b' := by
  simp only [JsonEq, jsonEqItems_iff]

theorem JsonEq.refl (v : Value) : v.JsonEq v := by
  induction v using Value.induct with
  | null => trivial
  | bool b => rfl
  | num n => rfl
  | str s => rfl
  | list xs ih => exact jsonEqList_iff.mpr (List.forall₂_same.mpr ih)
  | tuple xs ih => exact jsonEqList_iff.mpr (List.forall₂_same.mpr ih)
  | dict items ih =>
      exact jsonEq_dict.mpr ⟨items, .refl _, List.forall₂_same.mpr fun kv hkv => ⟨rfl, ih kv hkv⟩⟩

/-- The order of the entries does not matter. -/
theorem jsonEq_of_perm {a b : List (Str × Value)} (h : a.Perm b) : JsonEq (.dict a) (.dict b) :=
  jsonEq_dict.mpr ⟨a, h, List.forall₂_same.mpr fun kv _ => ⟨rfl, .refl kv.2⟩⟩

/-- Equal mappings have equal values under each key. -/
theorem JsonEq.get {a b : List (Str × Value)} (h : JsonEq (.dict a) (.dict b))
    (hb : (b.map Prod.fst).Nodup) {k : Str} {v w : Value} (hv : (k, v) ∈ a) (hw : (k, w) ∈ b) :
    v.JsonEq w := by
  obtain ⟨aligned, hperm, hall⟩ := jsonEq_dict.mp h
  obtain ⟨⟨k', w'⟩, hmem, hk, heq⟩ := exists_of_forall₂ hall hv
  obtain rfl : k = k' := hk
  have hentry := List.inj_on_of_nodup_map hb (hperm.mem_iff.mp hmem) hw rfl
  cases hentry
  exact heq

/-- Renaming keys apart hides no difference. -/
theorem JsonEq.of_map_keys {f : Str → Str} {a b : List (Str × Value)}
    (hinj : ∀ p ∈ a, ∀ q ∈ b, f p.1 = f q.1 → p.1 = q.1)
    (h : JsonEq (.dict (a.map fun kv => (f kv.1, kv.2)))
      (.dict (b.map fun kv => (f kv.1, kv.2)))) : JsonEq (.dict a) (.dict b) := by
  obtain ⟨aligned, hperm, hall⟩ := jsonEq_dict.mp h
  have hunmap : Relation.Comp (fun l m : List (Str × Value) => l = m.map fun kv => (f kv.1, kv.2))
      List.Perm aligned b := by
    rw [List.eq_map_comp_perm]
    exact hperm
  obtain ⟨b', rfl, hperm'⟩ := hunmap
  rw [List.forall₂_map_left_iff, List.forall₂_map_right_iff] at hall
  refine jsonEq_dict.mpr ⟨b', hperm', forall₂_imp_mem hall fun p hp q hq hpq => ⟨?_, hpq.2⟩⟩
  exact hinj p hp q (hperm'.mem_iff.mp hq) hpq.1

/-! ## Strings and nesting -/

mutual
/-- Every mapping key and string leaf, in order. -/
def texts : Value → List Str
  | .null => []
  | .bool _ => []
  | .num _ => []
  | .str s => [s]
  | .list xs => textsList xs
  | .tuple xs => textsList xs
  | .dict items => textsItems items
termination_by structural v => v

def textsList : List Value → List Str
  | [] => []
  | x :: xs => texts x ++ textsList xs
termination_by structural xs => xs

def textsItems : List (Str × Value) → List Str
  | [] => []
  | (k, v) :: items => k :: (texts v ++ textsItems items)
termination_by structural items => items
end

mutual
/-- The depth of the deepest node; the value itself is at depth 0. -/
def height : Value → Nat
  | .null => 0
  | .bool _ => 0
  | .num _ => 0
  | .str _ => 0
  | .list xs => heightList xs
  | .tuple xs => heightList xs
  | .dict items => heightItems items
termination_by structural v => v

def heightList : List Value → Nat
  | [] => 0
  | x :: xs => max (height x + 1) (heightList xs)
termination_by structural xs => xs

def heightItems : List (Str × Value) → Nat
  | [] => 0
  | (_, v) :: items => max (height v + 1) (heightItems items)
termination_by structural items => items
end

theorem textsList_eq (xs : List Value) : textsList xs = xs.flatMap texts := by
  induction xs with
  | nil => rfl
  | cons x xs ih => simp [textsList, ih]

theorem textsItems_eq (items : List (Str × Value)) :
    textsItems items = items.flatMap fun kv => kv.1 :: texts kv.2 := by
  induction items with
  | nil => rfl
  | cons kv items ih => simp [textsItems, ih]

theorem heightList_eq (xs : List Value) :
    heightList xs = (xs.map fun x => height x + 1).foldr max 0 := by
  induction xs with
  | nil => rfl
  | cons x xs ih => simp [heightList, ih]

theorem heightItems_eq (items : List (Str × Value)) :
    heightItems items = (items.map fun kv => height kv.2 + 1).foldr max 0 := by
  induction items with
  | nil => rfl
  | cons kv items ih => simp [heightItems, ih]

/-- Values equal as JSON hold the same strings, with multiplicity. -/
theorem JsonEq.texts_perm {a b : Value} (h : a.JsonEq b) : a.texts.Perm b.texts := by
  induction a using Value.induct generalizing b with
  | null => cases b <;> simp_all [JsonEq, texts]
  | bool x => cases b <;> simp_all [JsonEq, texts]
  | num n => cases b <;> simp_all [JsonEq, texts]
  | str s => cases b <;> simp_all [JsonEq, texts]
  | list xs ih =>
      cases b with
      | list ys =>
          simp only [JsonEq, jsonEqList_iff] at h
          simp only [texts, textsList_eq]
          exact flatMap_perm_of_forall₂ (forall₂_imp_mem h fun x hx _ _ hxy => ih x hx hxy)
      | _ => simp [JsonEq] at h
  | tuple xs ih =>
      cases b with
      | tuple ys =>
          simp only [JsonEq, jsonEqList_iff] at h
          simp only [texts, textsList_eq]
          exact flatMap_perm_of_forall₂ (forall₂_imp_mem h fun x hx _ _ hxy => ih x hx hxy)
      | _ => simp [JsonEq] at h
  | dict items ih =>
      cases b with
      | dict others =>
          obtain ⟨aligned, hperm, hall⟩ := jsonEq_dict.mp h
          simp only [texts, textsItems_eq]
          refine (flatMap_perm_of_forall₂ (forall₂_imp_mem hall fun kv hkv q _ hq => ?_)).trans
            (hperm.flatMap_right _)
          rw [hq.1]
          exact (ih kv hkv hq.2).cons q.1
      | _ => simp [JsonEq] at h

theorem JsonEq.height_eq {a b : Value} (h : a.JsonEq b) : a.height = b.height := by
  induction a using Value.induct generalizing b with
  | null => cases b <;> simp_all [JsonEq, height]
  | bool x => cases b <;> simp_all [JsonEq, height]
  | num n => cases b <;> simp_all [JsonEq, height]
  | str s => cases b <;> simp_all [JsonEq, height]
  | list xs ih =>
      cases b with
      | list ys =>
          simp only [JsonEq, jsonEqList_iff] at h
          simp only [height, heightList_eq]
          rw [map_eq_of_forall₂ (forall₂_imp_mem h fun x hx _ _ hxy => by rw [ih x hx hxy])]
      | _ => simp [JsonEq] at h
  | tuple xs ih =>
      cases b with
      | tuple ys =>
          simp only [JsonEq, jsonEqList_iff] at h
          simp only [height, heightList_eq]
          rw [map_eq_of_forall₂ (forall₂_imp_mem h fun x hx _ _ hxy => by rw [ih x hx hxy])]
      | _ => simp [JsonEq] at h
  | dict items ih =>
      cases b with
      | dict others =>
          obtain ⟨aligned, hperm, hall⟩ := jsonEq_dict.mp h
          simp only [height, heightItems_eq]
          rw [map_eq_of_forall₂ (forall₂_imp_mem hall fun kv hkv _ _ hq => by rw [ih kv hkv hq.2])]
          exact (hperm.map _).foldr_eq 0
      | _ => simp [JsonEq] at h

/-! ## Nodes -/

/-- `w` is a node of the value, at the given depth below it. -/
inductive Node : Value → Nat → Value → Prop where
  | root (v : Value) : Node v 0 v
  | list {xs : List Value} {x w : Value} {d : Nat} (hx : x ∈ xs) (h : Node x d w) :
      Node (.list xs) (d + 1) w
  | tuple {xs : List Value} {x w : Value} {d : Nat} (hx : x ∈ xs) (h : Node x d w) :
      Node (.tuple xs) (d + 1) w
  | dict {items : List (Str × Value)} {kv : Str × Value} {w : Value} {d : Nat}
      (hkv : kv ∈ items) (h : Node kv.2 d w) : Node (.dict items) (d + 1) w

/-- The node is the string, or a mapping with it among its keys. -/
def Holds : Value → Str → Prop
  | .str s, t => s = t
  | .dict items, t => ∃ kv ∈ items, kv.1 = t
  | _, _ => False

theorem le_foldr_max {l : List Nat} {n : Nat} (h : n ∈ l) : n ≤ l.foldr max 0 := by
  induction l with
  | nil => cases h
  | cons m l ih =>
      rcases List.mem_cons.mp h with rfl | h
      · exact le_max_left _ _
      · exact (ih h).trans (le_max_right _ _)

theorem exists_lt_of_lt_foldr_max {l : List Nat} {n : Nat} (h : n < l.foldr max 0) :
    ∃ m ∈ l, n < m := by
  induction l with
  | nil => simp at h
  | cons m l ih =>
      rcases lt_max_iff.mp h with h | h
      · exact ⟨m, by simp, h⟩
      · obtain ⟨k, hk, hlt⟩ := ih h
        exact ⟨k, by simp [hk], hlt⟩

theorem Node.depth_le {v w : Value} {d : Nat} (h : v.Node d w) : d ≤ v.height := by
  induction h with
  | root v => exact Nat.zero_le _
  | list hx h ih =>
      have hle := le_foldr_max (List.mem_map_of_mem (f := fun x => height x + 1) hx)
      rw [← heightList_eq] at hle
      simp only [height]
      omega
  | tuple hx h ih =>
      have hle := le_foldr_max (List.mem_map_of_mem (f := fun x => height x + 1) hx)
      rw [← heightList_eq] at hle
      simp only [height]
      omega
  | dict hkv h ih =>
      have hle := le_foldr_max
        (List.mem_map_of_mem (f := fun kv : Str × Value => height kv.2 + 1) hkv)
      rw [← heightItems_eq] at hle
      simp only [height]
      omega

/-- The height is the depth of some node. -/
theorem exists_node_height (v : Value) : ∃ w, v.Node v.height w := by
  -- a container is as high as its highest child, plus one
  have hdeep : ∀ {α : Type} (f : α → Nat) (l : List α), (l.map fun a => f a + 1).foldr max 0 = 0 ∨
      ∃ a ∈ l, f a + 1 = (l.map fun a => f a + 1).foldr max 0 := by
    intro α f l
    rcases Nat.eq_zero_or_pos ((l.map fun a => f a + 1).foldr max 0) with h0 | hpos
    · exact .inl h0
    · right
      obtain ⟨m, hm, hlt⟩ := exists_lt_of_lt_foldr_max (Nat.sub_one_lt_of_lt hpos)
      have hle := le_foldr_max hm
      obtain ⟨a, ha, rfl⟩ := List.mem_map.mp hm
      exact ⟨a, ha, by omega⟩
  induction v using Value.induct with
  | null => exact ⟨_, .root _⟩
  | bool b => exact ⟨_, .root _⟩
  | num n => exact ⟨_, .root _⟩
  | str s => exact ⟨_, .root _⟩
  | list xs ih =>
      rw [height, heightList_eq]
      rcases hdeep height xs with h | ⟨x, hx, h⟩
      · rw [h]
        exact ⟨_, .root _⟩
      · obtain ⟨w, hw⟩ := ih x hx
        exact h ▸ ⟨w, .list hx hw⟩
  | tuple xs ih =>
      rw [height, heightList_eq]
      rcases hdeep height xs with h | ⟨x, hx, h⟩
      · rw [h]
        exact ⟨_, .root _⟩
      · obtain ⟨w, hw⟩ := ih x hx
        exact h ▸ ⟨w, .tuple hx hw⟩
  | dict items ih =>
      rw [height, heightItems_eq]
      rcases hdeep (fun kv : Str × Value => kv.2.height) items with h | ⟨kv, hkv, h⟩
      · rw [h]
        exact ⟨_, .root _⟩
      · obtain ⟨w, hw⟩ := ih kv hkv
        exact h ▸ ⟨w, .dict hkv hw⟩

theorem lt_height_iff {v : Value} {n : Nat} : n < v.height ↔ ∃ d w, v.Node d w ∧ n < d := by
  constructor
  · intro h
    obtain ⟨w, hw⟩ := v.exists_node_height
    exact ⟨_, w, hw, h⟩
  · intro h
    obtain ⟨d, w, hw, hlt⟩ := h
    exact hlt.trans_le hw.depth_le

/-- The texts are what the nodes hold. -/
theorem mem_texts_iff {v : Value} {t : Str} : t ∈ v.texts ↔ ∃ d w, v.Node d w ∧ w.Holds t := by
  constructor
  · induction v using Value.induct with
    | null => exact fun h => nomatch h
    | bool b => exact fun h => nomatch h
    | num n => exact fun h => nomatch h
    | str s =>
        intro h
        exact ⟨0, _, .root _, (List.mem_singleton.mp h).symm⟩
    | list xs ih =>
        intro h
        rw [texts, textsList_eq] at h
        obtain ⟨x, hx, h⟩ := List.mem_flatMap.mp h
        obtain ⟨d, w, hw, hheld⟩ := ih x hx h
        exact ⟨_, w, .list hx hw, hheld⟩
    | tuple xs ih =>
        intro h
        rw [texts, textsList_eq] at h
        obtain ⟨x, hx, h⟩ := List.mem_flatMap.mp h
        obtain ⟨d, w, hw, hheld⟩ := ih x hx h
        exact ⟨_, w, .tuple hx hw, hheld⟩
    | dict items ih =>
        intro h
        rw [texts, textsItems_eq] at h
        obtain ⟨kv, hkv, h⟩ := List.mem_flatMap.mp h
        rcases List.mem_cons.mp h with rfl | h
        · exact ⟨0, _, .root _, kv, hkv, rfl⟩
        · obtain ⟨d, w, hw, hheld⟩ := ih kv hkv h
          exact ⟨_, w, .dict hkv hw, hheld⟩
  · intro h
    obtain ⟨d, w, hw, hheld⟩ := h
    induction hw with
    | root v =>
        cases v with
        | str s => exact List.mem_singleton.mpr hheld.symm
        | dict items =>
            obtain ⟨kv, hkv, rfl⟩ := hheld
            rw [texts, textsItems_eq]
            exact List.mem_flatMap.mpr ⟨kv, hkv, List.mem_cons_self⟩
        | _ => cases hheld
    | list hx h ih =>
        rw [texts, textsList_eq]
        exact List.mem_flatMap.mpr ⟨_, hx, ih hheld⟩
    | tuple hx h ih =>
        rw [texts, textsList_eq]
        exact List.mem_flatMap.mpr ⟨_, hx, ih hheld⟩
    | dict hkv h ih =>
        rw [texts, textsItems_eq]
        exact List.mem_flatMap.mpr ⟨_, hkv, List.mem_cons_of_mem _ (ih hheld)⟩

/-! ## JSON data -/

mutual
/-- What JSON text can hold: strings of Unicode scalar values, no tuples,
and objects with distinct keys. -/
def IsJson : Value → Prop
  | .null => True
  | .bool _ => True
  | .num _ => True
  | .str s => Encodable s
  | .list xs => IsJsonList xs
  | .tuple _ => False
  | .dict items => (items.map Prod.fst).Nodup ∧ IsJsonItems items
termination_by structural v => v

def IsJsonList : List Value → Prop
  | [] => True
  | x :: xs => IsJson x ∧ IsJsonList xs
termination_by structural xs => xs

def IsJsonItems : List (Str × Value) → Prop
  | [] => True
  | (k, v) :: items => Encodable k ∧ IsJson v ∧ IsJsonItems items
termination_by structural items => items
end

theorem isJsonList_iff {xs : List Value} : IsJsonList xs ↔ ∀ x ∈ xs, IsJson x := by
  induction xs with
  | nil => simp [IsJsonList]
  | cons x xs ih => simp [IsJsonList, ih]

theorem isJsonItems_iff {items : List (Str × Value)} :
    IsJsonItems items ↔ ∀ kv ∈ items, Encodable kv.1 ∧ IsJson kv.2 := by
  induction items with
  | nil => simp [IsJsonItems]
  | cons kv items ih => simp [IsJsonItems, ih, and_assoc]

theorem isJson_list {xs : List Value} : IsJson (.list xs) ↔ ∀ x ∈ xs, IsJson x := by
  simp only [IsJson, isJsonList_iff]

theorem isJson_dict {items : List (Str × Value)} :
    IsJson (.dict items) ↔ (items.map Prod.fst).Nodup ∧
      ∀ kv ∈ items, Encodable kv.1 ∧ IsJson kv.2 := by
  simp only [IsJson, isJsonItems_iff]

end Value

/-- A `dict` with `str` keys, its entries in insertion order. -/
structure Obj where
  items : List (Str × Value)
  nodup : (items.map Prod.fst).Nodup

namespace Obj

/-- `{}`. -/
def empty : Obj := ⟨[], by simp⟩

/-- The object as a value. -/
def toValue (o : Obj) : Value := .dict o.items

theorem toValue_inj {o o' : Obj} (h : o.toValue = o'.toValue) : o = o' := by
  cases o
  cases o'
  simpa [toValue] using h

end Obj

end Py
