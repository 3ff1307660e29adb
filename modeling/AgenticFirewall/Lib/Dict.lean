import Mathlib.Data.List.Induction
import Mathlib.Data.List.Nodup

/-!
# Insertion-ordered dictionaries

Python's `dict`: an association list whose keys are distinct, carried as
a field. Writing a present key keeps its place, a new key goes last.
-/

namespace Py

section Assoc

variable {κ α : Type} [DecidableEq κ]

/-- First entry of key `k`. -/
def assocGet (k : κ) : List (κ × α) → Option α
  | [] => none
  | (k', v) :: rest => if k' = k then some v else assocGet k rest

/-- Overwrite the entry of `k`, or append one. -/
def assocSet (k : κ) (v : α) : List (κ × α) → List (κ × α)
  | [] => [(k, v)]
  | (k', v') :: rest =>
      if k' = k then (k', v) :: rest else (k', v') :: assocSet k v rest

theorem keys_assocSet (k : κ) (v : α) (l : List (κ × α)) :
    (assocSet k v l).map Prod.fst =
      if k ∈ l.map Prod.fst then l.map Prod.fst else l.map Prod.fst ++ [k] := by
  induction l with
  | nil => simp [assocSet]
  | cons p rest ih =>
      obtain ⟨k', v'⟩ := p
      by_cases hk : k' = k
      · simp [assocSet, hk]
      · have hk' : k ≠ k' := fun h => hk h.symm
        simp only [assocSet, if_neg hk, List.map_cons, ih, List.mem_cons, hk', false_or]
        split <;> simp

theorem nodup_keys_assocSet {k : κ} {v : α} {l : List (κ × α)}
    (h : (l.map Prod.fst).Nodup) : ((assocSet k v l).map Prod.fst).Nodup := by
  rw [keys_assocSet]
  split
  · exact h
  · rename_i hk
    exact List.nodup_append.mpr ⟨h, by simp, fun a ha b hb hab => hk (by simp_all)⟩

theorem assocGet_assocSet (k k' : κ) (v : α) (l : List (κ × α)) :
    assocGet k' (assocSet k v l) = if k = k' then some v else assocGet k' l := by
  induction l with
  | nil => rfl
  | cons p rest ih =>
      obtain ⟨j, w⟩ := p
      by_cases hj : j = k
      · subst hj
        by_cases hk : j = k' <;> simp [assocSet, assocGet, hk]
      · simp only [assocSet, if_neg hj, assocGet, ih]
        by_cases hk : j = k'
        · subst hk
          simp [Ne.symm hj]
        · simp [hk]

theorem assocGet_none_iff (k : κ) (l : List (κ × α)) :
    assocGet k l = none ↔ k ∉ l.map Prod.fst := by
  induction l with
  | nil => simp [assocGet]
  | cons p rest ih =>
      obtain ⟨j, w⟩ := p
      by_cases hj : j = k
      · simp [assocGet, hj]
      · simp [assocGet, hj, ih, Ne.symm hj]

/-- Writing a key that is not there appends. -/
theorem assocSet_of_not_mem {k : κ} {l : List (κ × α)} (h : k ∉ l.map Prod.fst) (v : α) :
    assocSet k v l = l ++ [(k, v)] := by
  induction l with
  | nil => rfl
  | cons p rest ih =>
      obtain ⟨j, w⟩ := p
      simp only [List.map_cons, List.mem_cons, not_or] at h
      simp [assocSet, Ne.symm h.1, ih h.2]

theorem assocSet_assocSet (k : κ) (v w : α) (l : List (κ × α)) :
    assocSet k w (assocSet k v l) = assocSet k w l := by
  induction l with
  | nil => simp [assocSet]
  | cons p rest ih =>
      obtain ⟨j, u⟩ := p
      by_cases hj : j = k
      · simp [assocSet, hj]
      · simp [assocSet, hj, ih]

/-- Writing a present key commutes with writing another. -/
theorem assocSet_comm {j k : κ} {l : List (κ × α)} (hk : k ∈ l.map Prod.fst) (hne : j ≠ k)
    (v w : α) : assocSet k w (assocSet j v l) = assocSet j v (assocSet k w l) := by
  induction l with
  | nil => simp at hk
  | cons p rest ih =>
      obtain ⟨i, u⟩ := p
      by_cases hik : i = k
      · subst hik
        simp [assocSet, Ne.symm hne]
      · have hrest : k ∈ rest.map Prod.fst := by simpa [Ne.symm hik] using hk
        by_cases hij : i = j
        · simp [assocSet, hij, hne]
        · simp [assocSet, hij, hik, ih hrest]

theorem assocGet_eq_some_iff {k : κ} {v : α} {l : List (κ × α)} (hn : (l.map Prod.fst).Nodup) :
    assocGet k l = some v ↔ (k, v) ∈ l := by
  induction l with
  | nil => simp [assocGet]
  | cons p rest ih =>
      obtain ⟨j, w⟩ := p
      simp only [List.map_cons, List.nodup_cons] at hn
      by_cases hj : j = k
      · subst hj
        have hrest : (j, v) ∉ rest := fun h => hn.1 (List.mem_map_of_mem h)
        simp [assocGet, hrest, eq_comm]
      · simp [assocGet, hj, ih hn.2, Ne.symm hj]

theorem assocGet_filter (p : κ × α → Bool) {k : κ} {l : List (κ × α)}
    (hn : (l.map Prod.fst).Nodup) :
    assocGet k (l.filter p) = (assocGet k l).filter (fun v => p (k, v)) := by
  induction l with
  | nil => rfl
  | cons q rest ih =>
      obtain ⟨j, w⟩ := q
      simp only [List.map_cons, List.nodup_cons] at hn
      by_cases hj : j = k
      · subst hj
        have hrest : assocGet j rest = none := (assocGet_none_iff j rest).mpr hn.1
        by_cases hp : p (j, w) = true
        · simp [assocGet, hp, Option.filter]
        · simp [assocGet, hp, ih hn.2, hrest, Option.filter]
      · by_cases hp : p (j, w) = true
        · simp [assocGet, hp, hj, ih hn.2]
        · simp [assocGet, hp, hj, ih hn.2]

end Assoc

/-- A dictionary: entries in insertion order, keys distinct. -/
structure Dict (κ α : Type) where
  items : List (κ × α)
  nodup : (items.map Prod.fst).Nodup

namespace Dict

variable {κ α : Type}

/-- `{}`. -/
def empty : Dict κ α := ⟨[], by simp⟩

/-- The keys, in insertion order. -/
def keys (d : Dict κ α) : List κ := d.items.map Prod.fst

/-- `len(d)`. -/
def size (d : Dict κ α) : Nat := d.items.length

/-- The entries that satisfy `p`, in place (`del` of the others). -/
def filter (d : Dict κ α) (p : κ × α → Bool) : Dict κ α :=
  ⟨d.items.filter p, List.Nodup.sublist (List.Sublist.map _ List.filter_sublist) d.nodup⟩

variable [DecidableEq κ]

/-- `d.get(k)`. -/
def get (d : Dict κ α) (k : κ) : Option α := assocGet k d.items

/-- `d[k] = v`. -/
def set (d : Dict κ α) (k : κ) (v : α) : Dict κ α :=
  ⟨assocSet k v d.items, nodup_keys_assocSet d.nodup⟩

/-- `{k: v for (k, v) in l}`: the last value of a key wins, its first
place stays. -/
def ofList (l : List (κ × α)) : Dict κ α :=
  l.foldl (fun d p => d.set p.1 p.2) empty

@[simp] theorem get_empty (k : κ) : (empty : Dict κ α).get k = none := rfl

theorem get_set (d : Dict κ α) (k k' : κ) (v : α) :
    (d.set k v).get k' = if k = k' then some v else d.get k' :=
  assocGet_assocSet k k' v d.items

@[simp] theorem get_set_self (d : Dict κ α) (k : κ) (v : α) :
    (d.set k v).get k = some v := by
  rw [get_set, if_pos rfl]

theorem get_set_ne (d : Dict κ α) {k k' : κ} (v : α) (h : k ≠ k') :
    (d.set k v).get k' = d.get k' := by
  rw [get_set, if_neg h]

theorem get_filter (d : Dict κ α) (p : κ × α → Bool) (k : κ) :
    (d.filter p).get k = (d.get k).filter (fun v => p (k, v)) :=
  assocGet_filter p d.nodup

theorem get_eq_some_iff {d : Dict κ α} {k : κ} {v : α} : d.get k = some v ↔ (k, v) ∈ d.items :=
  assocGet_eq_some_iff d.nodup

theorem keys_set (d : Dict κ α) (k : κ) (v : α) :
    (d.set k v).keys = if k ∈ d.keys then d.keys else d.keys ++ [k] :=
  keys_assocSet k v d.items

/-- Writing one key adds at most one entry. -/
theorem size_set_le (d : Dict κ α) (k : κ) (v : α) : (d.set k v).size ≤ d.size + 1 := by
  have hlen : (d.set k v).keys.length ≤ d.keys.length + 1 := by
    rw [keys_set]
    by_cases hk : k ∈ d.keys
    · simp [hk]
    · simp [hk]
  simpa [keys, size] using hlen

theorem ofList_concat (l : List (κ × α)) (p : κ × α) :
    ofList (l ++ [p]) = (ofList l).set p.1 p.2 := by
  simp [ofList]

/-- The last value of a key wins. -/
theorem get_ofList (l : List (κ × α)) (k : κ) :
    (ofList l).get k = ((l.filter fun p => p.1 = k).getLast?).map Prod.snd := by
  induction l using List.reverseRecOn with
  | nil => rfl
  | append_singleton l p ih =>
      rw [ofList_concat, get_set, List.filter_append]
      by_cases hk : p.1 = k
      · simp [hk]
      · simp [hk, ih]

/-- Each key once, where it first occurs. -/
theorem keys_ofList [BEq κ] [LawfulBEq κ] (l : List (κ × α)) :
    (ofList l).keys = (l.map Prod.fst).eraseDups := by
  induction l using List.reverseRecOn with
  | nil => rfl
  | append_singleton l p ih =>
      rw [ofList_concat, keys_set, ih, List.map_append, List.eraseDups_append]
      by_cases hk : p.1 ∈ l.map Prod.fst
      · rw [if_pos (List.mem_eraseDups.mpr hk)]
        have hgone : ([p].map Prod.fst).removeAll (l.map Prod.fst) = [] := by
          simpa [List.removeAll] using hk
        rw [hgone]
        simp
      · rw [if_neg (mt List.mem_eraseDups.mp hk)]
        have hkept : ([p].map Prod.fst).removeAll (l.map Prod.fst) = [p.1] := by
          simpa [List.removeAll] using hk
        rw [hkept]
        rfl

/-- A literal with distinct keys holds its entries as they are. -/
theorem items_ofList {l : List (κ × α)} (h : (l.map Prod.fst).Nodup) : (ofList l).items = l := by
  induction l using List.reverseRecOn with
  | nil => rfl
  | append_singleton l p ih =>
      rw [List.map_append, List.nodup_append] at h
      obtain ⟨hl, -, hp⟩ := h
      have hitems := ih hl
      have hnew : p.1 ∉ (ofList l).items.map Prod.fst := by
        rw [hitems]
        exact fun hmem => hp p.1 hmem p.1 (by simp) rfl
      rw [ofList_concat, set]
      simp only
      rw [assocSet_of_not_mem hnew, hitems]

/-! ## Overwritten entries -/

omit [DecidableEq κ] in
theorem ext {d e : Dict κ α} (h : d.items = e.items) : d = e := by
  cases d
  cases e
  cases h
  rfl

theorem mem_keys_set {d : Dict κ α} {j k : κ} (v : α) (h : k ∈ d.keys) : k ∈ (d.set j v).keys := by
  rw [keys_set]
  split
  · exact h
  · exact List.mem_append_left _ h

theorem mem_of_mem_keys_set {d : Dict κ α} {j k : κ} {v : α} (h : k ∈ (d.set j v).keys) :
    k = j ∨ k ∈ d.keys := by
  rw [keys_set] at h
  split at h
  · exact .inr h
  · rcases List.mem_append.mp h with h | h
    · exact .inr h
    · exact .inl (List.mem_singleton.mp h)

theorem mem_keys_set_self (d : Dict κ α) (k : κ) (v : α) : k ∈ (d.set k v).keys := by
  rw [keys_set]
  split
  · assumption
  · simp

/-- The two dictionaries differ in the value of `k` alone. -/
def EqExcept (k : κ) (d e : Dict κ α) : Prop :=
  k ∈ d.keys ∧ k ∈ e.keys ∧ ∀ w, d.set k w = e.set k w

theorem EqExcept.set {k : κ} {d e : Dict κ α} (h : EqExcept k d e) (j : κ) (v : α) :
    EqExcept k (d.set j v) (e.set j v) := by
  obtain ⟨hd, he, hset⟩ := h
  refine ⟨mem_keys_set v hd, mem_keys_set v he, fun w => ?_⟩
  by_cases hj : j = k
  · rw [hj, hset v]
  · have hcomm : ∀ f : Dict κ α, k ∈ f.keys → (f.set j v).set k w = (f.set k w).set j v :=
      fun f hf => Dict.ext (assocSet_comm hf hj v w)
    rw [hcomm d hd, hcomm e he, hset w]

theorem eqExcept_foldl {k : κ} {d e : Dict κ α} (h : EqExcept k d e) (l : List (κ × α)) :
    EqExcept k (l.foldl (fun d p => d.set p.1 p.2) d) (l.foldl (fun d p => d.set p.1 p.2) e) := by
  induction l generalizing d e with
  | nil => exact h
  | cons p l ih => exact ih (h.set p.1 p.2)

/-- **An entry that is overwritten later** may have had any value. -/
theorem ofList_overwritten (pre mid post : List (κ × α)) (k : κ) (v v' w : α) :
    ofList (pre ++ (k, v) :: (mid ++ (k, w) :: post)) =
      ofList (pre ++ (k, v') :: (mid ++ (k, w) :: post)) := by
  have hstart : ∀ d : Dict κ α, EqExcept k (d.set k v) (d.set k v') := by
    intro d
    refine ⟨mem_keys_set_self d k v, mem_keys_set_self d k v', fun u => Dict.ext ?_⟩
    exact (assocSet_assocSet k v u d.items).trans (assocSet_assocSet k v' u d.items).symm
  unfold ofList
  simp only [List.foldl_append, List.foldl_cons]
  rw [(eqExcept_foldl (hstart _) mid).2.2 w]

/-- What a literal holds under a key is one of its entries. -/
theorem mem_of_get_ofList {l : List (κ × α)} {k : κ} {v : α} (h : (ofList l).get k = some v) :
    (k, v) ∈ l := by
  have hfold : ∀ (l : List (κ × α)) (d : Dict κ α),
      (l.foldl (fun d kv => d.set kv.1 kv.2) d).get k = some v →
        (k, v) ∈ l ∨ d.get k = some v := by
    intro l
    induction l with
    | nil => exact fun d h => .inr h
    | cons kv l ih =>
        intro d h
        rcases ih _ h with hmem | hget
        · exact .inl (List.mem_cons_of_mem _ hmem)
        · by_cases hk : kv.1 = k
          · subst hk
            rw [get_set_self] at hget
            cases hget
            exact .inl List.mem_cons_self
          · rw [get_set_ne _ _ hk] at hget
            exact .inr hget
  rcases hfold l empty h with hmem | hget
  · exact hmem
  · cases hget

end Dict

end Py
