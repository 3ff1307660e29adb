import AgenticFirewall.Properties.DeclaredFields
import AgenticFirewall.Properties.Pinning

/-!
# What the fingerprint tells apart

Two dumps with the same keys, no two of them spelled alike, have the same
canonical bytes only when they declare the same. Where two keys are
spelled alike the value of the earlier one is not hashed at all.
-/

namespace AgenticFirewall

open Py

/-! ## Dumps with the same keys -/

/-- No two keys are spelled alike, at either level. -/
structure KeysApart (dump : Obj) : Prop where
  topLevel : ∀ k ∈ dump.items.map Prod.fst, ∀ k' ∈ dump.items.map Prod.fst,
    snake k = snake k' → k = k'
  annotations : ∀ o : Obj, (str "annotations", o.toValue) ∈ dump.items →
    ∀ k ∈ o.items.map Prod.fst, ∀ k' ∈ o.items.map Prod.fst, snake k = snake k' → k = k'

/-- The same keys, at both levels. -/
structure SameKeys (a b : Obj) : Prop where
  topLevel : ∀ k, k ∈ a.items.map Prod.fst ↔ k ∈ b.items.map Prod.fst
  annotations : ∀ o o' : Obj, (str "annotations", o.toValue) ∈ a.items →
    (str "annotations", o'.toValue) ∈ b.items →
      ∀ k, k ∈ o.items.map Prod.fst ↔ k ∈ o'.items.map Prod.fst

/-- Some value that is not empty differs as JSON. -/
def Differ (a b : Obj) : Prop :=
  ∃ k v w, (k, v) ∈ a.items ∧ (k, w) ∈ b.items ∧
    (nonEmpty v = true ∨ nonEmpty w = true) ∧ ¬ v.JsonEq w

theorem nonEmpty_of_jsonEq {v w : Value} (h : v.JsonEq w) : nonEmpty v = nonEmpty w := by
  cases v with
  | dict items =>
      cases w with
      | dict others =>
          obtain ⟨aligned, hperm, hall⟩ := Value.jsonEq_dict.mp h
          have hlen := hall.length_eq.trans hperm.length_eq
          cases items <;> cases others <;> simp_all [nonEmpty]
      | _ => simp [Value.JsonEq] at h
  | list xs =>
      cases w with
      | list ys =>
          have hlen := (Value.jsonEqList_iff.mp h).length_eq
          cases xs <;> cases ys <;> simp_all [nonEmpty]
      | _ => simp [Value.JsonEq] at h
  | tuple xs =>
      cases w with
      | tuple ys =>
          have hlen := (Value.jsonEqList_iff.mp h).length_eq
          cases xs <;> cases ys <;> simp_all [nonEmpty]
      | _ => simp [Value.JsonEq] at h
  | _ => cases w <;> simp_all [Value.JsonEq, nonEmpty]

/-- A default hides no difference from a value that is not empty. -/
theorem jsonEq_of_orDefault {v w default : Value} (hdefault : nonEmpty default = false)
    (hv : nonEmpty v = true → truthy v = true) (hw : nonEmpty w = true → truthy w = true)
    (hne : nonEmpty v = true ∨ nonEmpty w = true)
    (h : (orDefault (some v) default).JsonEq (orDefault (some w) default)) : v.JsonEq w := by
  have hempty := nonEmpty_of_jsonEq h
  simp only [orDefault] at h hempty
  by_cases htv : truthy v = true
  · by_cases htw : truthy w = true
    · simpa [htv, htw] using h
    · have hnv := nonEmpty_of_truthy htv
      simp [htv, htw, hdefault, hnv] at hempty
  · by_cases htw : truthy w = true
    · have hnw := nonEmpty_of_truthy htw
      simp [htv, htw, hdefault, hnw] at hempty
    · exact absurd hne (by simp [mt hv htv, mt hw htw])

section Pairs

variable {a b : Obj} {d e : ToolDefinition}

theorem encodable_snakeFrom {prev : Option CodePoint} {cs : Str} (h : Encodable cs) :
    Encodable (snakeFrom prev cs) := by
  induction cs generalizing prev with
  | nil => exact encodable_nil
  | cons c cs ih =>
      have hc : isSurrogate c = false := h c (by simp)
      have hrest : Encodable (snakeFrom (some c) cs) :=
        ih (h.mono fun d hd => List.mem_cons_of_mem c hd)
      unfold snakeFrom
      split
      · rename_i hhump
        have hupper : isUpper c = true := ((Bool.and_eq_true _ _).mp hhump).2
        have hlower : isSurrogate (lowerAscii c) = false := by
          have hle := (val_le_of_isUpper hupper).2
          simp only [isSurrogate, val_lowerAscii hupper, Bool.and_eq_false_iff,
            decide_eq_false_iff_not]
          omega
        exact List.forall_mem_cons.mpr ⟨by decide, List.forall_mem_cons.mpr ⟨hlower, hrest⟩⟩
      · exact List.forall_mem_cons.mpr ⟨hc, hrest⟩

theorem isJson_orDefault {x : Option Value} {default : Value} (hx : ∀ v ∈ x, v.IsJson)
    (hdefault : default.IsJson) : (orDefault x default).IsJson := by
  cases x with
  | none => exact hdefault
  | some v =>
      simp only [orDefault]
      split
      · exact hx v rfl
      · exact hdefault

theorem isJson_get {o : Obj} (h : o.toValue.IsJson) {key : Str} {v : Value}
    (hv : (snakeKeys o).get key = some v) : Encodable key ∧ v.IsJson := by
  obtain ⟨k, hmem, rfl⟩ := mem_of_get_snakeKeys hv
  obtain ⟨hk, hjson⟩ := (Value.isJson_dict.mp h).2 (k, v) hmem
  exact ⟨encodable_snakeFrom hk, hjson⟩

theorem isJson_of_fields (h : FieldsOf a d) (ha : a.toValue.IsJson) : d.IsJson := by
  have hget : ∀ key, ∀ v ∈ (snakeKeys a).get key, v.IsJson := fun key v hv => (isJson_get ha hv).2
  have hnil : (Value.str []).IsJson := encodable_nil
  have hdesc := isJson_orDefault (hget (str "description")) hnil
  have hempty : (Value.dict []).IsJson := by simp [Value.isJson_dict]
  have hschema := isJson_orDefault (hget (str "input_schema")) hempty
  obtain ⟨o, ho, hitems⟩ := h.annotations
  have hann := isJson_orDefault (hget (str "annotations")) hempty
  rw [h.description] at hdesc
  rw [h.inputSchema] at hschema
  rw [ho] at hann
  refine ⟨hget _ _ h.name, hdesc, hschema, ?_, ?_⟩
  · refine Value.isJson_dict.mpr ⟨d.annotations.nodup, fun kv hkv => ?_⟩
    rw [hitems] at hkv
    exact isJson_get hann (Dict.get_eq_some_iff.mpr hkv)
  · refine Value.isJson_dict.mpr ⟨d.extras.nodup, fun kv hkv => ?_⟩
    exact isJson_get ha (Dict.get_eq_some_iff.mpr ((h.extras kv).mp hkv).1)

/-- A key that no other key is spelled like has its own value. -/
theorem get_of_apart (hapart : KeysApart a) {k : Str} {v : Value} (h : (k, v) ∈ a.items) :
    (snakeKeys a).get (snake k) = some v := by
  rw [get_snakeKeys, lastAlike_iff_mem a.nodup]
  · exact h
  · intro k' hk' heq
    exact hapart.topLevel k' hk' k (List.mem_map_of_mem h) heq

/-- What no other key is spelled like is overwritten by nothing. -/
theorem KeysApart.unshadowed (hapart : KeysApart a) : Unshadowed a := by
  refine ⟨fun kv hkv _ => ?_, fun o ho kv hkv _ => ?_⟩
  · refine (lastAlike_iff_mem a.nodup fun k' hk' halike => ?_).mpr hkv
    exact hapart.topLevel k' hk' kv.1 (List.mem_map_of_mem hkv) halike
  · refine (lastAlike_iff_mem o.nodup fun k' hk' halike => ?_).mpr hkv
    exact hapart.annotations o ho k' hk' kv.1 (List.mem_map_of_mem hkv) halike

theorem SameKeys.apart (h : SameKeys a b) (hapart : KeysApart a)
    (hann : ∀ o' : Obj, (str "annotations", o'.toValue) ∈ b.items →
      ∃ o : Obj, (str "annotations", o.toValue) ∈ a.items) : KeysApart b := by
  refine ⟨fun k hk k' hk' => ?_, fun o' ho' k hk k' hk' => ?_⟩
  · exact hapart.topLevel k ((h.topLevel k).mpr hk) k' ((h.topLevel k').mpr hk')
  · obtain ⟨o, ho⟩ := hann o' ho'
    exact hapart.annotations o ho k ((h.annotations o o' ho ho' k).mpr hk) k'
      ((h.annotations o o' ho ho' k').mpr hk')

/-- The annotations of the definition are those of the dump, renamed. -/
theorem FieldsOf.annotations_eq (h : FieldsOf a d) {o : Obj}
    (ho : (str "annotations", o.toValue) ∈ a.items) :
    d.annotations.items = (snakeKeys o).items := by
  obtain ⟨o', ho', hitems⟩ := h.annotations
  rw [(get_annotations a).mpr ho] at ho'
  have hsame : orDefault (some o.toValue) (.dict []) = o.toValue := by
    obtain ⟨items, hn⟩ := o
    cases items <;> rfl
  rw [hsame] at ho'
  rw [hitems, Obj.toValue_inj ho']

theorem items_snakeKeys {o : Obj} (hapart : ∀ k ∈ o.items.map Prod.fst,
    ∀ k' ∈ o.items.map Prod.fst, snake k = snake k' → k = k') :
    (snakeKeys o).items = o.items.map fun kv => (snake kv.1, kv.2) := by
  refine Dict.items_ofList ?_
  rw [List.map_map]
  have hmap : (Prod.fst ∘ fun kv : Str × Value => (snake kv.1, kv.2)) = snake ∘ Prod.fst := rfl
  rw [hmap, ← List.map_map]
  exact List.Nodup.map_on hapart o.nodup

/-- With keys spelled apart, annotations are read back from those of the
definition. -/
theorem jsonEq_annotations (hd : FieldsOf a d) (he : FieldsOf b e) (hapart : KeysApart a)
    (hapart' : KeysApart b) (hsame : SameKeys a b) {o o' : Obj}
    (ho : (str "annotations", o.toValue) ∈ a.items)
    (ho' : (str "annotations", o'.toValue) ∈ b.items)
    (h : (Value.dict d.annotations.items).JsonEq (.dict e.annotations.items)) :
    o.toValue.JsonEq o'.toValue := by
  rw [hd.annotations_eq ho, he.annotations_eq ho', items_snakeKeys (hapart.annotations o ho),
    items_snakeKeys (hapart'.annotations o' ho')] at h
  refine Value.JsonEq.of_map_keys (fun p hp q hq hpq => ?_) h
  have hq' := (hsame.annotations o o' ho ho' q.1).mpr (List.mem_map_of_mem hq)
  exact hapart.annotations o ho p.1 (List.mem_map_of_mem hp) q.1 hq' hpq

theorem Typed.truthy_inputSchema (ht : Typed a) {k : Str} {v : Value} (hv : (k, v) ∈ a.items)
    (hk : snake k = str "input_schema") (hne : nonEmpty v = true) : truthy v = true := by
  obtain ⟨o, rfl⟩ := ht.inputSchema (k, v) hv hk hne
  exact hne

theorem Typed.truthy_description (ht : Typed a) {v : Value}
    (hv : (str "description", v) ∈ a.items) (hne : nonEmpty v = true) : truthy v = true := by
  obtain ⟨s, rfl⟩ := ht.description v hv hne
  exact hne

theorem not_differ_of_canonicalBytes (hd : FieldsOf a d) (he : FieldsOf b e)
    (hja : a.toValue.IsJson) (hjb : b.toValue.IsJson) (hta : Typed a) (htb : Typed b)
    (hapart : KeysApart a) (hapart' : KeysApart b) (hsame : SameKeys a b)
    (hann : ∀ v, (str "annotations", v) ∈ a.items → ∃ o : Obj, v = o.toValue)
    (hann' : ∀ v, (str "annotations", v) ∈ b.items → ∃ o : Obj, v = o.toValue)
    (h : canonicalBytes d = canonicalBytes e) : ¬ Differ a b := by
  have heq := (ToolDefinition.canonicalBytes_eq_iff (isJson_of_fields hd hja)
    (isJson_of_fields he hjb)).mp h
  obtain ⟨hname, hdesc, hschema, hannotations, hextras⟩ := heq
  intro hdiffer
  obtain ⟨k, v, w, hv, hw, hne, hneq⟩ := hdiffer
  refine hneq ?_
  have hgetv := get_of_apart hapart hv
  have hgetw := get_of_apart hapart' hw
  by_cases hres : snake k ∈ reserved
  · rcases mem_reserved.mp hres with hspelt | hspelt | hspelt | hspelt
    · obtain rfl := eq_of_snake_eq (by decide) hspelt
      obtain ⟨o, rfl⟩ := hann v hv
      obtain ⟨o', rfl⟩ := hann' w hw
      exact jsonEq_annotations hd he hapart hapart' hsame hv hw hannotations
    · rw [hspelt] at hgetv hgetw
      have hfields : (orDefault (some v) (.dict [])).JsonEq (orDefault (some w) (.dict [])) := by
        rw [← hgetv, ← hgetw, hd.inputSchema, he.inputSchema]
        exact hschema
      exact jsonEq_of_orDefault rfl (hta.truthy_inputSchema hv hspelt)
        (htb.truthy_inputSchema hw hspelt) hne hfields
    · rw [hspelt] at hgetv hgetw
      have hfields : (orDefault (some v) (.str [])).JsonEq (orDefault (some w) (.str [])) := by
        rw [← hgetv, ← hgetw, hd.description, he.description]
        exact hdesc
      obtain rfl := eq_of_snake_eq (by decide) hspelt
      exact jsonEq_of_orDefault rfl (hta.truthy_description hv) (htb.truthy_description hw) hne
        hfields
    · rw [hspelt, hd.name] at hgetv
      rw [hspelt, he.name] at hgetw
      cases hgetv
      cases hgetw
      exact hname
  · have hmem : (snake k, v) ∈ d.extras.items :=
      (hd.extras _).mpr ⟨Dict.get_eq_some_iff.mp hgetv, hres⟩
    have hmem' : (snake k, w) ∈ e.extras.items :=
      (he.extras _).mpr ⟨Dict.get_eq_some_iff.mp hgetw, hres⟩
    exact Value.JsonEq.get hextras e.extras.nodup hmem hmem'

end Pairs

/-! ## Where keys are spelled alike -/

/-- The mapping with another value under one of its keys. -/
def replaced (o : Obj) (key : Str) (u : Value) : Obj where
  items := o.items.map fun kv => (kv.1, if kv.1 = key then u else kv.2)
  nodup := by
    rw [List.map_map]
    exact o.nodup

section Replaced

variable {o : Obj} {key : Str} {u : Value}

theorem keys_replaced : (replaced o key u).items.map Prod.fst = o.items.map Prod.fst := by
  rw [replaced, List.map_map]
  rfl

theorem mem_replaced {kv : Str × Value} : kv ∈ (replaced o key u).items ↔
    (kv.1 ≠ key ∧ kv ∈ o.items) ∨ (kv.1 = key ∧ kv.2 = u ∧ key ∈ o.items.map Prod.fst) := by
  obtain ⟨k, v⟩ := kv
  simp only [replaced, List.mem_map, Prod.mk.injEq]
  constructor
  · rintro ⟨⟨j, w⟩, hmem, rfl, rfl⟩
    by_cases hj : j = key
    · subst hj
      exact .inr ⟨rfl, by simp, ⟨(j, w), hmem, rfl⟩⟩
    · simp only [hj, if_false]
      exact .inl ⟨hj, hmem⟩
  · rintro (⟨hk, hmem⟩ | ⟨rfl, rfl, ⟨⟨j, w⟩, hmem, rfl⟩⟩)
    · exact ⟨(k, v), hmem, rfl, by simp [hk]⟩
    · exact ⟨(j, w), hmem, rfl, by simp⟩

theorem mem_replaced_of_ne {k : Str} {v : Value} (h : k ≠ key) :
    (k, v) ∈ (replaced o key u).items ↔ (k, v) ∈ o.items := by
  simp [mem_replaced, h]

theorem isJson_replaced (h : o.toValue.IsJson) (hu : u.IsJson) :
    (replaced o key u).toValue.IsJson := by
  refine Value.isJson_dict.mpr ⟨(replaced o key u).nodup, fun kv hkv => ?_⟩
  rcases mem_replaced.mp hkv with ⟨-, hmem⟩ | ⟨hk, hv, hmem⟩
  · exact (Value.isJson_dict.mp h).2 kv hmem
  · obtain ⟨p, hp, hfst⟩ := List.mem_map.mp hmem
    have hjson := (Value.isJson_dict.mp h).2 p hp
    rw [hfst] at hjson
    exact ⟨hk ▸ hjson.1, hv ▸ hu⟩

/-- Of two entries one stands first. -/
theorem exists_split {l : List (Str × Value)} {p q : Str × Value} (hp : p ∈ l) (hq : q ∈ l)
    (hne : p ≠ q) : ∃ pre mid post,
      l = pre ++ p :: (mid ++ q :: post) ∨ l = pre ++ q :: (mid ++ p :: post) := by
  obtain ⟨pre, post, rfl⟩ := List.append_of_mem hp
  rcases List.mem_append.mp hq with hq | hq
  · obtain ⟨pre', mid, rfl⟩ := List.append_of_mem hq
    exact ⟨pre', mid, post, .inr (by simp)⟩
  · rcases List.mem_cons.mp hq with rfl | hq
    · exact absurd rfl hne
    · obtain ⟨mid, post', rfl⟩ := List.append_of_mem hq
      exact ⟨pre, mid, post', .inl rfl⟩

/-- Replacing the value of a key that stands once. -/
theorem replaced_of_split {pre post : List (Str × Value)} {v : Value}
    (h : o.items = pre ++ (key, v) :: post) :
    (replaced o key u).items = pre ++ (key, u) :: post := by
  have hn := o.nodup
  rw [h, List.map_append, List.map_cons, List.nodup_middle, List.nodup_cons, ← List.map_append]
    at hn
  have hrest : ∀ l ⊆ pre ++ post,
      l.map (fun kv => (kv.1, if kv.1 = key then u else kv.2)) = l := by
    intro l hl
    conv_rhs => rw [← List.map_id l]
    refine List.map_congr_left fun kv hkv => ?_
    have hmem : kv.1 ∈ (pre ++ post).map Prod.fst := List.mem_map_of_mem (hl hkv)
    have hk : kv.1 ≠ key := fun heq => hn.1 (heq ▸ hmem)
    simp [hk]
  rw [replaced]
  simp only [h, List.map_append, List.map_cons, if_true]
  rw [hrest pre (List.subset_append_left _ _), hrest post (List.subset_append_right _ _)]

/-- Of two keys spelled alike, the value of the first is not hashed. -/
theorem exists_unhashed {k k' : Str} (hk : k ∈ o.items.map Prod.fst)
    (hk' : k' ∈ o.items.map Prod.fst) (halike : snake k = snake k') (hne : k ≠ k') :
    ∃ key v, (key = k ∨ key = k') ∧ (key, v) ∈ o.items ∧
      ∀ u, snakeKeys (replaced o key u) = snakeKeys o := by
  obtain ⟨⟨_, v⟩, hv, rfl⟩ := List.mem_map.mp hk
  obtain ⟨⟨_, w⟩, hw, rfl⟩ := List.mem_map.mp hk'
  obtain ⟨pre, mid, post, hsplit | hsplit⟩ :=
    exists_split hv hw fun h => hne (congrArg Prod.fst h)
  · refine ⟨_, v, .inl rfl, hv, fun u => ?_⟩
    rw [snakeKeys, snakeKeys, replaced_of_split hsplit, hsplit]
    simp only [List.map_append, List.map_cons, halike]
    exact Dict.ofList_overwritten _ _ _ _ _ _ _
  · refine ⟨_, w, .inr rfl, hw, fun u => ?_⟩
    rw [snakeKeys, snakeKeys, replaced_of_split hsplit, hsplit]
    simp only [List.map_append, List.map_cons, halike]
    exact Dict.ofList_overwritten _ _ _ _ _ _ _

/-- Replacing a value changes only what is read under its spelling. -/
theorem get_snakeKeys_replaced {k : Str} (h : snake key ≠ k) :
    (snakeKeys (replaced o key u)).get k = (snakeKeys o).get k := by
  have hsame : ∀ kv ∈ o.items, snake kv.1 = k →
      (fun kv : Str × Value => (snake kv.1, if kv.1 = key then u else kv.2)) kv =
        (snake kv.1, kv.2) := by
    rintro kv - hk
    have hkey : kv.1 ≠ key := fun heq => h (heq ▸ hk)
    simp [hkey]
  simp only [snakeKeys, replaced, Dict.get_ofList, List.map_map, List.filter_map]
  congr 2
  refine List.map_congr_left fun kv hkv => ?_
  obtain ⟨hmem, hk⟩ := List.mem_filter.mp hkv
  exact hsame kv hmem (by simpa using hk)

end Replaced

/-- Some mapping differs as JSON from the value. -/
theorem exists_other (v : Value) :
    ∃ o : Obj, nonEmpty o.toValue = true ∧ o.toValue.IsJson ∧ ¬ v.JsonEq o.toValue := by
  let one : Obj := ⟨[(str "a", .null)], by decide⟩
  let two : Obj := ⟨[(str "a", .null), (str "b", .null)], by decide⟩
  have hjson : ∀ k ∈ [str "a", str "b"], Encodable k := by decide
  by_cases h : v.JsonEq one.toValue
  · refine ⟨two, rfl, Value.isJson_dict.mpr ⟨two.nodup, ?_⟩, fun h' => ?_⟩
    · simp [two, Value.IsJson, hjson]
    · -- no mapping has both one entry and two
      cases v with
      | dict items =>
          obtain ⟨aligned, hperm, hall⟩ := Value.jsonEq_dict.mp h
          obtain ⟨aligned', hperm', hall'⟩ := Value.jsonEq_dict.mp h'
          have hone := hall.length_eq.trans hperm.length_eq
          have htwo := hall'.length_eq.trans hperm'.length_eq
          simp only [one, two, List.length_cons, List.length_nil] at hone htwo
          omega
      | _ => simp [Value.JsonEq, Obj.toValue] at h
  · refine ⟨one, rfl, Value.isJson_dict.mpr ⟨one.nodup, ?_⟩, h⟩
    simp [one, Value.IsJson, hjson]

/-- The dump with a mapping under one of its keys. -/
def ToolDump.replaced (a : ToolDump) (key : Str) (u : Obj) : ToolDump where
  data := AgenticFirewall.replaced a.data key u.toValue
  named := by
    rw [keys_replaced]
    exact a.named
  nonNull := by
    intro kv hkv
    rcases mem_replaced.mp hkv with ⟨-, hmem⟩ | ⟨-, hv, -⟩
    · exact a.nonNull kv hmem
    · rw [hv]
      exact nofun
  annotations := by
    intro v hv
    rcases mem_replaced.mp hv with ⟨-, hmem⟩ | ⟨-, hv, -⟩
    · exact a.annotations v hmem
    · exact ⟨u, hv⟩

section Hidden

variable {a : ToolDump} {key : Str} {u : Obj}

theorem typed_replaced (h : Typed a.data) (hname : key ≠ str "name")
    (hdesc : key ≠ str "description") : Typed (a.replaced key u).data := by
  refine ⟨?_, fun v hv hne => ?_, fun kv hkv hspelt hne => ?_⟩
  · obtain ⟨s, hs⟩ := h.name
    exact ⟨s, (mem_replaced_of_ne (Ne.symm hname)).mpr hs⟩
  · exact h.description v ((mem_replaced_of_ne (Ne.symm hdesc)).mp hv) hne
  · rcases mem_replaced.mp hkv with ⟨-, hmem⟩ | ⟨-, hv, -⟩
    · exact h.inputSchema kv hmem hspelt hne
    · exact ⟨u, hv⟩

theorem sameKeys_replaced (h : key = str "annotations" → ∀ o : Obj,
    (str "annotations", o.toValue) ∈ a.data.items →
      ∀ k, k ∈ o.items.map Prod.fst ↔ k ∈ u.items.map Prod.fst) :
    SameKeys a.data (a.replaced key u).data := by
  refine ⟨fun k => ?_, fun o o' ho ho' k => ?_⟩
  · rw [ToolDump.replaced, keys_replaced]
  · rcases mem_replaced.mp ho' with ⟨-, hmem⟩ | ⟨hkey, hv, -⟩
    · have hpair := List.inj_on_of_nodup_map a.data.nodup ho hmem rfl
      rw [Obj.toValue_inj (congrArg Prod.snd hpair)]
    · rw [Obj.toValue_inj hv]
      exact h hkey.symm o ho k

/-- The definition depends on the rewritten keys alone. -/
theorem toolToDefinition_congr {x y : Obj} (h : snakeKeys x = snakeKeys y) :
    toolToDefinition x = toolToDefinition y := by
  unfold toolToDefinition
  rw [h]

theorem differ_replaced {v : Value} (hv : (key, v) ∈ a.data.items)
    (hne : nonEmpty u.toValue = true) (hneq : ¬ v.JsonEq u.toValue) :
    Differ a.data (a.replaced key u).data :=
  ⟨key, v, u.toValue, hv, mem_replaced.mpr (.inr ⟨rfl, rfl, List.mem_map_of_mem hv⟩), .inr hne,
    hneq⟩

/-- Another dump with the same keys and other values has the same
canonical bytes. -/
def Undetected (a : ToolDump) : Prop :=
  ∃ b : ToolDump, Typed b.data ∧ b.data.toValue.IsJson ∧ SameKeys a.data b.data ∧
    Differ a.data b.data ∧ ∃ d e, toolToDefinition a.data = .ok d ∧
      toolToDefinition b.data = .ok e ∧ canonicalBytes d = canonicalBytes e

theorem undetected_topLevel (ht : Typed a.data) (hj : a.data.toValue.IsJson) {k k' : Str}
    (hk : k ∈ a.data.items.map Prod.fst) (hk' : k' ∈ a.data.items.map Prod.fst)
    (halike : snake k = snake k') (hne : k ≠ k') : Undetected a := by
  obtain ⟨key, v, hkey, hv, hhidden⟩ := exists_unhashed hk hk' halike hne
  -- a key without underscore is spelled like no other
  have hfree : ∀ r, (∀ k, snake k = snake r → k = r) → key ≠ r := by
    rintro r hr rfl
    rcases hkey with rfl | rfl
    · exact hne (hr k' halike.symm).symm
    · exact hne (hr k halike)
  obtain ⟨u, hu, hju, hneq⟩ := exists_other v
  obtain ⟨d, hd⟩ := converts ht
  refine ⟨a.replaced key u, typed_replaced ht (hfree _ only_name) (hfree _ only_description),
    isJson_replaced hj hju, sameKeys_replaced fun h => absurd h (hfree _ only_annotations),
    differ_replaced hv hu hneq, d, d, hd, ?_, rfl⟩
  exact (toolToDefinition_congr (hhidden u.toValue)).trans hd

theorem extras_perm {x y : Obj} {d e : ToolDefinition} (hd : FieldsOf x d) (he : FieldsOf y e)
    (h : ∀ k ∉ reserved, (snakeKeys x).get k = (snakeKeys y).get k) :
    d.extras.items.Perm e.extras.items := by
  refine (List.perm_ext_iff_of_nodup d.extras.nodup.of_map e.extras.nodup.of_map).mpr ?_
  rintro ⟨k, v⟩
  rw [hd.extras, he.extras]
  refine and_congr_left fun hk => ?_
  rw [← Dict.get_eq_some_iff, ← Dict.get_eq_some_iff, h k hk]

/-- Dumps that differ in annotations alone which the definitions do not
show have the same canonical bytes. -/
theorem canonicalBytes_of_annotations {x y : Obj} {d e : ToolDefinition} (hd : FieldsOf x d)
    (he : FieldsOf y e) (hx : x.toValue.IsJson) (hy : y.toValue.IsJson)
    (hget : ∀ k, k ≠ str "annotations" → (snakeKeys y).get k = (snakeKeys x).get k)
    (hann : e.annotations.items = d.annotations.items) : canonicalBytes d = canonicalBytes e := by
  rw [ToolDefinition.canonicalBytes_eq_iff (isJson_of_fields hd hx) (isJson_of_fields he hy)]
  obtain ⟨-, -, -, hschema, hdesc, hname⟩ := reserved_ne
  refine ⟨?_, ?_, ?_, Value.jsonEq_of_perm (List.Perm.of_eq hann.symm), ?_⟩
  · have hname' := he.name
    rw [hget _ hname.symm, hd.name] at hname'
    exact Value.str.inj (Option.some.inj hname')
  · have hdesc' := he.description
    rw [hget _ hdesc.symm, hd.description] at hdesc'
    exact Value.str.inj hdesc'
  · have hschema' := he.inputSchema
    rw [hget _ hschema.symm, hd.inputSchema] at hschema'
    rw [Obj.toValue_inj hschema']
    exact .refl _
  · refine Value.jsonEq_of_perm (extras_perm hd he fun k hk => ?_)
    have hk' : k ≠ str "annotations" := fun h => hk (mem_reserved.mpr (.inl h))
    exact (hget k hk').symm

theorem undetected_annotations (ht : Typed a.data) (hj : a.data.toValue.IsJson) {o : Obj}
    (ho : (str "annotations", o.toValue) ∈ a.data.items) {k k' : Str}
    (hk : k ∈ o.items.map Prod.fst) (hk' : k' ∈ o.items.map Prod.fst)
    (halike : snake k = snake k') (hne : k ≠ k') : Undetected a := by
  obtain ⟨key, v, -, hv, hhidden⟩ := exists_unhashed hk hk' halike hne
  obtain ⟨u, -, hju, hneq⟩ := exists_other v
  have hjo : o.toValue.IsJson := ((Value.isJson_dict.mp hj).2 _ ho).2
  let o' := replaced o key u.toValue
  have hmem : (key, u.toValue) ∈ o'.items :=
    mem_replaced.mpr (.inr ⟨rfl, rfl, List.mem_map_of_mem hv⟩)
  have hne' : nonEmpty o'.toValue = true := by
    simpa [nonEmpty, Obj.toValue] using List.ne_nil_of_mem hmem
  have hneq' : ¬ o.toValue.JsonEq o'.toValue := fun h => hneq (h.get o'.nodup hv hmem)
  let b := a.replaced (str "annotations") o'
  have hb : Typed b.data := typed_replaced ht (by decide) (by decide)
  have hjb : b.data.toValue.IsJson := isJson_replaced hj (isJson_replaced hjo hju)
  have hsame : SameKeys a.data b.data := by
    refine sameKeys_replaced fun _ x hx k => ?_
    have hpair := List.inj_on_of_nodup_map a.data.nodup ho hx rfl
    rw [← Obj.toValue_inj (congrArg Prod.snd hpair), keys_replaced]
  obtain ⟨d, hd⟩ := converts ht
  obtain ⟨e, he⟩ := converts hb
  have hfd := fieldsOf_of_ok hd
  have hfe := fieldsOf_of_ok he
  have hget : ∀ k, k ≠ str "annotations" →
      (snakeKeys b.data).get k = (snakeKeys a.data).get k :=
    fun k hk => get_snakeKeys_replaced fun h => hk (h.symm.trans (by decide))
  have hann := hfe.annotations_eq (mem_replaced.mpr (.inr ⟨rfl, rfl, List.mem_map_of_mem ho⟩))
  rw [hhidden, ← hfd.annotations_eq ho] at hann
  exact ⟨b, hb, hjb, hsame, differ_replaced ho hne' hneq', d, e, hd, he,
    canonicalBytes_of_annotations hfd hfe hj hjb hget hann⟩

end Hidden

/-- **What escapes hashing.** Every non-empty entry of a dump is in its
definition exactly when the fields have their types and no entry is
overwritten by one spelled alike; a change of a non-empty value always
changes the canonical bytes exactly when no two keys are spelled alike. -/
theorem declared_fields_hashed_iff (a : ToolDump) :
    ((∃ d, toolToDefinition a.data = .ok d ∧ Survives a.data d) ↔
      Typed a.data ∧ Unshadowed a.data) ∧
    (Typed a.data → a.data.toValue.IsJson →
      ((∀ b : ToolDump, Typed b.data → b.data.toValue.IsJson → SameKeys a.data b.data →
          Differ a.data b.data → ∀ d e, toolToDefinition a.data = .ok d →
            toolToDefinition b.data = .ok e → canonicalBytes d ≠ canonicalBytes e) ↔
        KeysApart a.data)) := by
  refine ⟨⟨fun h => ?_, fun h => exists_survives h.1 h.2⟩, fun ht hj => ⟨?_, ?_⟩⟩
  · obtain ⟨d, hd, hs⟩ := h
    have hf := fieldsOf_of_ok hd
    exact ⟨typed_of_survives hf hs, unshadowed_of_survives hf hs⟩
  · intro h
    have hdetected : ¬ Undetected a := by
      rintro ⟨b, htb, hjb, hsame, hdiffer, d, e, hd, he, heq⟩
      exact h b htb hjb hsame hdiffer d e hd he heq
    refine ⟨fun k hk k' hk' halike => ?_, fun o ho k hk k' hk' halike => ?_⟩
    · by_contra hne
      exact hdetected (undetected_topLevel ht hj hk hk' halike hne)
    · by_contra hne
      exact hdetected (undetected_annotations ht hj ho hk hk' halike hne)
  · intro hapart b htb hjb hsame hdiffer d e hd he heq
    have hann : ∀ o' : Obj, (str "annotations", o'.toValue) ∈ b.data.items →
        ∃ o : Obj, (str "annotations", o.toValue) ∈ a.data.items := by
      intro o' ho'
      obtain ⟨⟨_, v⟩, hv, rfl⟩ := List.mem_map.mp ((hsame.topLevel _).mpr (List.mem_map_of_mem ho'))
      obtain ⟨o, rfl⟩ := a.annotations v hv
      exact ⟨o, hv⟩
    exact not_differ_of_canonicalBytes (fieldsOf_of_ok hd) (fieldsOf_of_ok he) hj hjb ht htb hapart
      (hsame.apart hapart hann) hsame a.annotations b.annotations heq hdiffer

/-! ## A schema that escapes -/

/-- `{"type": text}`. -/
def typeSchema (text : String) : Obj := ⟨[(str "type", .str (str text))], by simp⟩

theorem unannotated (keys : List Str) (hkeys : str "annotations" ∉ keys)
    {items : List (Str × Value)} (hitems : items.map Prod.fst = keys) {v : Value} :
    (str "annotations", v) ∉ items :=
  fun h => hkeys (hitems ▸ List.mem_map_of_mem (f := Prod.fst) h)

/-- A tool with a name and a schema. -/
def schemaDump (text : String) : ToolDump where
  data := ⟨[(str "name", .str (str "t")), (str "inputSchema", (typeSchema text).toValue)],
    show [str "name", str "inputSchema"].Nodup by decide⟩
  named := List.mem_cons_self
  nonNull := by simp [Obj.toValue]
  annotations := fun _ hv => absurd hv (unannotated
    [str "name", str "inputSchema"] (by decide) rfl)

/-- The same tool with an empty `input_schema` next to its `inputSchema`. -/
def shadowedDump (text : String) : ToolDump where
  data := ⟨[(str "name", .str (str "t")), (str "inputSchema", (typeSchema text).toValue),
      (str "input_schema", .dict [])],
    show [str "name", str "inputSchema", str "input_schema"].Nodup by decide⟩
  named := List.mem_cons_self
  nonNull := by simp [Obj.toValue]
  annotations := fun _ hv => absurd hv (unannotated
    [str "name", str "inputSchema", str "input_schema"] (by decide) rfl)

/-- The definition of a tool with this schema. -/
def schemaDefinition (schema : Obj) : ToolDefinition where
  name := str "t"
  description := []
  inputSchema := schema
  annotations := .empty
  extras := .empty

theorem schemaDump_definition (text : String) :
    toolToDefinition (schemaDump text).data = .ok (schemaDefinition (typeSchema text)) := by
  rfl

theorem shadowedDump_definition (text : String) :
    toolToDefinition (shadowedDump text).data = .ok (schemaDefinition .empty) := by
  rfl

theorem typed_schemaDump (text : String) : Typed (schemaDump text).data := by
  refine ⟨⟨str "t", by simp [schemaDump]⟩, fun v hv => ?_, fun kv hkv => ?_⟩
  · have hmem := List.mem_map_of_mem (f := Prod.fst) hv
    exact absurd hmem (show str "description" ∉ [str "name", str "inputSchema"] by decide)
  · rcases List.mem_pair.mp hkv with rfl | rfl
    · exact fun hspelt => absurd hspelt (show snake (str "name") ≠ str "input_schema" by decide)
    · exact fun _ _ => ⟨typeSchema text, rfl⟩

theorem isJson_schemaDump {text : String} (h : Encodable (str text)) :
    (schemaDump text).data.toValue.IsJson := by
  have hkeys : ∀ k ∈ [str "name", str "t", str "inputSchema", str "type"], Encodable k := by decide
  have hschema : (typeSchema text).toValue.IsJson := by
    simp [Obj.toValue, typeSchema, Value.isJson_dict, Value.IsJson, h, hkeys]
  refine Value.isJson_dict.mpr ⟨(schemaDump text).data.nodup, fun kv hkv => ?_⟩
  rcases List.mem_pair.mp hkv with rfl | rfl
  · exact ⟨hkeys _ (by simp), hkeys (str "t") (by simp)⟩
  · exact ⟨hkeys (str "inputSchema") (by simp), hschema⟩

theorem keysApart_schemaDump (text : String) : KeysApart (schemaDump text).data := by
  have happart : ∀ k ∈ [str "name", str "inputSchema"], ∀ k' ∈ [str "name", str "inputSchema"],
      snake k = snake k' → k = k' := by decide
  exact ⟨happart, fun _ ho => absurd ho (unannotated
    [str "name", str "inputSchema"] (by decide) rfl)⟩

theorem not_jsonEq_typeSchema {s t : String} (h : str s ≠ str t) :
    ¬ (typeSchema s).toValue.JsonEq (typeSchema t).toValue :=
  fun heq => h (Value.JsonEq.get heq (typeSchema t).nodup (k := str "type") List.mem_cons_self
    List.mem_cons_self)

/-- The schema of a tool is declared, hashed and told from another. -/
theorem declared_fields_hashed_schema :
    (∃ d, toolToDefinition (schemaDump "a").data = .ok d ∧ Survives (schemaDump "a").data d) ∧
      canonicalBytes (schemaDefinition (typeSchema "a")) ≠
        canonicalBytes (schemaDefinition (typeSchema "b")) := by
  have hapart := keysApart_schemaDump "a"
  have hja : (schemaDump "a").data.toValue.IsJson := isJson_schemaDump (by decide)
  have hjb : (schemaDump "b").data.toValue.IsJson := isJson_schemaDump (by decide)
  obtain ⟨hsurvives, hhashed⟩ := declared_fields_hashed_iff (schemaDump "a")
  refine ⟨hsurvives.mpr ⟨typed_schemaDump "a", hapart.unshadowed⟩, ?_⟩
  refine (hhashed (typed_schemaDump "a") hja).mpr hapart (schemaDump "b")
    (typed_schemaDump "b") hjb ⟨fun k => Iff.rfl, fun o o' ho => ?_⟩ ?_ _ _
    (schemaDump_definition "a") (schemaDump_definition "b")
  · exact absurd ho (unannotated [str "name", str "inputSchema"] (by decide) rfl)
  · exact ⟨_, _, _, List.mem_cons_of_mem _ List.mem_cons_self,
      List.mem_cons_of_mem _ List.mem_cons_self, .inl rfl, not_jsonEq_typeSchema (by decide)⟩

/-- An empty `input_schema` hides whatever `inputSchema` declares. -/
theorem shadowed_schema_escapes :
    (¬ ∃ d, toolToDefinition (shadowedDump "a").data = .ok d ∧
      Survives (shadowedDump "a").data d) ∧
      Differ (shadowedDump "a").data (shadowedDump "b").data ∧
        toolToDefinition (shadowedDump "a").data = toolToDefinition (shadowedDump "b").data := by
  have hmem : ∀ text, (str "inputSchema", (typeSchema text).toValue) ∈
      (shadowedDump text).data.items := fun _ => List.mem_cons_of_mem _ List.mem_cons_self
  refine ⟨?_, ⟨_, _, _, hmem "a", hmem "b", .inl rfl, not_jsonEq_typeSchema (by decide)⟩, rfl⟩
  rintro ⟨d, hd, hs⟩
  rw [shadowedDump_definition] at hd
  cases hd
  rcases hs.topLevel _ (hmem "a") rfl (by decide) with ⟨hk, -⟩ | ⟨hk, -⟩ | ⟨-, heq⟩ | hextra
  · exact absurd hk (by decide)
  · exact absurd hk (by decide)
  · cases heq
  · cases hextra

end AgenticFirewall
