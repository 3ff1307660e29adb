import AgenticFirewall.Lib.Raising
import AgenticFirewall.Mcp.Client

/-!
# What a server declares and what is hashed

`tool_to_definition` collects the rewritten keys into a dictionary. Two
keys that are spelled alike once rewritten share one entry, and the last
value wins: the earlier value is in no field and escapes the fingerprint.
-/

namespace AgenticFirewall

open Py

/-! ## Dumps -/

/-- Something is declared: not `None`, and no empty string or container. -/
def nonEmpty : Value → Bool
  | .null => false
  | .bool _ => true
  | .num _ => true
  | .str s => !s.isEmpty
  | .list xs => !xs.isEmpty
  | .tuple xs => !xs.isEmpty
  | .dict items => !items.isEmpty

/-- `tool.model_dump(mode="json", exclude_none=True)`: a tool has a name,
and its annotations are a mapping. -/
structure ToolDump where
  data : Obj
  named : str "name" ∈ data.items.map Prod.fst
  nonNull : ∀ kv ∈ data.items, kv.2 ≠ .null
  annotations : ∀ v, (str "annotations", v) ∈ data.items → ∃ o : Obj, v = o.toValue

/-- The value of the last entry that is spelled like `k` once rewritten. -/
def lastAlike (items : List (Str × Value)) (k : Str) : Option Value :=
  ((items.filter fun kv => snake kv.1 = snake k).getLast?).map Prod.snd

/-! ## The definition of a dump -/

section Fields

variable {dump : Obj} {d : ToolDefinition}

theorem get_snakeKeys (o : Obj) (k : Str) : (snakeKeys o).get (snake k) = lastAlike o.items k := by
  rw [snakeKeys, Dict.get_ofList, lastAlike, List.filter_map, List.getLast?_map, Option.map_map]
  rfl

theorem mem_of_get_snakeKeys {o : Obj} {key : Str} {v : Value}
    (h : (snakeKeys o).get key = some v) : ∃ k, (k, v) ∈ o.items ∧ snake k = key := by
  obtain ⟨⟨k, w⟩, hmem, heq⟩ := List.mem_map.mp (Dict.mem_of_get_ofList h)
  cases heq
  exact ⟨k, hmem, rfl⟩

theorem get_without (k k' : Str) (d : Dict Str Value) :
    (without k d).get k' = if k' = k then none else d.get k' := by
  rw [without, Dict.get_filter]
  by_cases hk : k' = k
  · cases d.get k' <;> simp [hk, Option.filter]
  · cases d.get k' <;> simp [hk, Option.filter]

theorem mem_without {k : Str} {kv : Str × Value} {d : Dict Str Value} :
    kv ∈ (without k d).items ↔ kv ∈ d.items ∧ kv.1 ≠ k := by
  simp [without, Dict.filter]

/-- The keys that have a field of their own. -/
def reserved : List Str := ["name", "description", "input_schema", "annotations"].map str

theorem asObj_toValue (o : Obj) : asObj o.toValue = .ok o := by
  simp [asObj, Obj.toValue, o.nodup]

theorem asObj_eq_ok {v : Value} {o : Obj} : asObj v = .ok o ↔ v = o.toValue := by
  constructor
  · intro h
    unfold asObj at h
    split at h
    · split at h
      · cases h
        rfl
      · cases h
    · cases h
  · rintro rfl
    exact asObj_toValue o

theorem asStr_eq_ok {v : Value} {s : Str} : asStr v = .ok s ↔ v = .str s := by
  cases v <;> simp [asStr]

theorem reserved_ne : str "description" ≠ str "name" ∧ str "input_schema" ≠ str "description" ∧
    str "input_schema" ≠ str "name" ∧ str "annotations" ≠ str "input_schema" ∧
    str "annotations" ≠ str "description" ∧ str "annotations" ≠ str "name" := by
  decide

theorem mem_reserved {k : Str} : k ∈ reserved ↔
    k = str "annotations" ∨ k = str "input_schema" ∨ k = str "description" ∨ k = str "name" := by
  simp only [reserved, List.map_cons, List.map_nil, List.mem_cons, List.not_mem_nil, or_false]
  constructor
  · rintro (h | h | h | h) <;> simp [h]
  · rintro (h | h | h | h) <;> simp [h]

theorem popped_eq_ok {k : Str} {v : Value} {d : Dict Str Value} :
    popped k d = .ok v ↔ d.get k = some v := by
  unfold popped
  split
  · rename_i h
    simp [h]
  · rename_i h
    simp [h]

/-- Where each field of the definition comes from. -/
structure FieldsOf (dump : Obj) (d : ToolDefinition) : Prop where
  name : (snakeKeys dump).get (str "name") = some (.str d.name)
  description : orDefault ((snakeKeys dump).get (str "description")) (.str []) =
    .str d.description
  inputSchema : orDefault ((snakeKeys dump).get (str "input_schema")) (.dict []) =
    d.inputSchema.toValue
  annotations : ∃ o : Obj,
    orDefault ((snakeKeys dump).get (str "annotations")) (.dict []) = o.toValue ∧
      d.annotations.items = (snakeKeys o).items
  extras : ∀ kv, kv ∈ d.extras.items ↔ kv ∈ (snakeKeys dump).items ∧ kv.1 ∉ reserved

theorem fieldsOf_of_ok (h : toolToDefinition dump = .ok d) : FieldsOf dump d := by
  have hne := reserved_ne
  obtain ⟨h₁, h₂, h₃, h₄, h₅, h₆⟩ := hne
  unfold toolToDefinition at h
  simp only [except_bind_eq_ok, popped_eq_ok, asStr_eq_ok, asObj_eq_ok, pure, Except.pure,
    Except.ok.injEq, get_without, h₁, h₂, h₃, h₄, h₅, h₆, if_false] at h
  obtain ⟨name, hname, o, ho, n, rfl, desc, hdesc, schema, hschema, rfl⟩ := h
  refine ⟨hname, hdesc, hschema, ⟨o, ho, rfl⟩, fun kv => ?_⟩
  rw [mem_reserved]
  simp only [mem_without, not_or]
  exact ⟨fun h => ⟨h.1.1.1.1, h.2, h.1.2, h.1.1.2, h.1.1.1.2⟩,
    fun h => ⟨⟨⟨⟨h.1, h.2.2.2.2⟩, h.2.2.2.1⟩, h.2.2.1⟩, h.2.1⟩⟩

theorem toolToDefinition_returns {name desc : Str} {schema o : Obj}
    (hname : (snakeKeys dump).get (str "name") = some (.str name))
    (hdesc : orDefault ((snakeKeys dump).get (str "description")) (.str []) = .str desc)
    (hschema : orDefault ((snakeKeys dump).get (str "input_schema")) (.dict []) = schema.toValue)
    (hann : orDefault ((snakeKeys dump).get (str "annotations")) (.dict []) = o.toValue) :
    ∃ d, toolToDefinition dump = .ok d := by
  have hne := reserved_ne
  obtain ⟨h₁, h₂, h₃, h₄, h₅, h₆⟩ := hne
  unfold toolToDefinition
  simp only [get_without, h₁, h₂, h₃, h₄, h₅, h₆, if_false, hdesc, hschema, hann,
    popped_eq_ok.mpr hname, asObj_toValue, asStr, bind, Except.bind, pure, Except.pure]
  exact ⟨_, rfl⟩

end Fields

/-! ## Spelled alike -/

section Alike

variable {items : List (Str × Value)} {k : Str} {v : Value}

theorem mem_of_lastAlike (h : lastAlike items k = some v) :
    ∃ k', (k', v) ∈ items ∧ snake k' = snake k := by
  obtain ⟨⟨k', w⟩, hlast, rfl⟩ := Option.map_eq_some_iff.mp h
  obtain ⟨hmem, hk⟩ := List.mem_filter.mp (List.mem_of_getLast? hlast)
  exact ⟨k', hmem, by simpa using hk⟩

theorem lastAlike_of_mem (h : (k, v) ∈ items) : ∃ w, lastAlike items k = some w := by
  have hmem : (k, v) ∈ items.filter fun kv => snake kv.1 = snake k := by simp [h]
  have hne := List.getLast?_eq_some_getLast (List.ne_nil_of_mem hmem)
  exact ⟨_, by rw [lastAlike, hne]; rfl⟩

/-- A key that no other is spelled like has its own value. -/
theorem lastAlike_iff_mem (hn : (items.map Prod.fst).Nodup)
    (honly : ∀ k' ∈ items.map Prod.fst, snake k' = snake k → k' = k) :
    lastAlike items k = some v ↔ (k, v) ∈ items := by
  constructor
  · intro h
    obtain ⟨k', hmem, hk'⟩ := mem_of_lastAlike h
    rwa [honly k' (List.mem_map_of_mem hmem) hk'] at hmem
  · intro h
    obtain ⟨w, hw⟩ := lastAlike_of_mem h
    obtain ⟨k', hmem, hk'⟩ := mem_of_lastAlike hw
    rw [honly k' (List.mem_map_of_mem hmem) hk'] at hmem
    have heq := List.inj_on_of_nodup_map hn hmem h rfl
    cases heq
    exact hw

theorem only_name (k' : Str) (h : snake k' = snake (str "name")) : k' = str "name" :=
  eq_of_snake_eq (by decide) h

theorem only_description (k' : Str) (h : snake k' = snake (str "description")) :
    k' = str "description" :=
  eq_of_snake_eq (by decide) h

theorem only_annotations (k' : Str) (h : snake k' = snake (str "annotations")) :
    k' = str "annotations" :=
  eq_of_snake_eq (by decide) h

/-- What is truthy is not empty; a string or mapping that is not empty is
truthy. -/
theorem nonEmpty_of_truthy (h : truthy v = true) : nonEmpty v = true := by
  cases v with
  | null => cases h
  | bool b => rfl
  | num n => rfl
  | str s => exact h
  | list xs => exact h
  | tuple xs => exact h
  | dict items => exact h

theorem orDefault_str {x : Option Value}
    (h : ∀ v ∈ x, nonEmpty v = true → ∃ s, v = .str s) : ∃ s, orDefault x (.str []) = .str s := by
  cases x with
  | none => exact ⟨[], rfl⟩
  | some v =>
      simp only [orDefault]
      split
      · rename_i ht
        exact h v rfl (nonEmpty_of_truthy ht)
      · exact ⟨[], rfl⟩

theorem orDefault_obj {x : Option Value}
    (h : ∀ v ∈ x, nonEmpty v = true → ∃ o : Obj, v = o.toValue) :
    ∃ o : Obj, orDefault x (.dict []) = o.toValue := by
  cases x with
  | none => exact ⟨.empty, rfl⟩
  | some v =>
      simp only [orDefault]
      split
      · rename_i ht
        exact h v rfl (nonEmpty_of_truthy ht)
      · exact ⟨.empty, rfl⟩

end Alike

/-! ## Surviving entries -/

/-- The definition holds the entry, in a field or among its extras. -/
def Placed (d : ToolDefinition) (kv : Str × Value) : Prop :=
  (snake kv.1 = str "name" ∧ kv.2 = .str d.name) ∨
    (snake kv.1 = str "description" ∧ kv.2 = .str d.description) ∨
    (snake kv.1 = str "input_schema" ∧ kv.2 = d.inputSchema.toValue) ∨
    (snake kv.1, kv.2) ∈ d.extras.items

/-- Every non-empty entry of the dump is found in the definition. -/
structure Survives (dump : Obj) (d : ToolDefinition) : Prop where
  topLevel : ∀ kv ∈ dump.items, nonEmpty kv.2 = true → kv.1 ≠ str "annotations" → Placed d kv
  annotations : ∀ o : Obj, (str "annotations", o.toValue) ∈ dump.items → ∀ kv ∈ o.items,
    nonEmpty kv.2 = true → (snake kv.1, kv.2) ∈ d.annotations.items

/-- Every non-empty entry has the value of the last entry spelled alike. -/
def LastAgrees (items : List (Str × Value)) : Prop :=
  ∀ kv ∈ items, nonEmpty kv.2 = true → lastAlike items kv.1 = some kv.2

/-- The fields have the types MCP gives them. -/
structure Typed (dump : Obj) : Prop where
  name : ∃ s, (str "name", .str s) ∈ dump.items
  description : ∀ v, (str "description", v) ∈ dump.items → nonEmpty v = true → ∃ s, v = .str s
  inputSchema : ∀ kv ∈ dump.items, snake kv.1 = str "input_schema" → nonEmpty kv.2 = true →
    ∃ o : Obj, kv.2 = o.toValue

/-- No declared value is overwritten by another. -/
structure Unshadowed (dump : Obj) : Prop where
  topLevel : LastAgrees dump.items
  annotations : ∀ o : Obj, (str "annotations", o.toValue) ∈ dump.items → LastAgrees o.items

section Survives

variable {dump : Obj} {d : ToolDefinition}

theorem get_name (dump : Obj) {v : Value} :
    (snakeKeys dump).get (str "name") = some v ↔ (str "name", v) ∈ dump.items := by
  rw [← lastAlike_iff_mem dump.nodup fun k' _ => only_name k', ← get_snakeKeys]
  rfl

theorem get_description (dump : Obj) {v : Value} :
    (snakeKeys dump).get (str "description") = some v ↔ (str "description", v) ∈ dump.items := by
  rw [← lastAlike_iff_mem dump.nodup fun k' _ => only_description k', ← get_snakeKeys]
  rfl

theorem get_annotations (dump : Obj) {v : Value} :
    (snakeKeys dump).get (str "annotations") = some v ↔ (str "annotations", v) ∈ dump.items := by
  rw [← lastAlike_iff_mem dump.nodup fun k' _ => only_annotations k', ← get_snakeKeys]
  rfl

theorem get_alike {o : Obj} {k key : Str} (h : snake k = key) :
    (snakeKeys o).get key = lastAlike o.items k := by
  rw [← h, get_snakeKeys]

/-- A reserved key is no extra. -/
theorem FieldsOf.not_extra (h : FieldsOf dump d) {k : Str} {v : Value} (hk : k ∈ reserved) :
    (k, v) ∉ d.extras.items :=
  fun hmem => ((h.extras (k, v)).mp hmem).2 hk

theorem typed_of_survives (h : FieldsOf dump d) (hs : Survives dump d) : Typed dump := by
  refine ⟨⟨d.name, (get_name dump).mp h.name⟩, fun v hv hne => ?_, fun kv hkv hk hne => ?_⟩
  · have hann : str "description" ≠ str "annotations" := by decide
    have hspelt : snake (str "description") = str "description" := by decide
    rcases hs.topLevel _ hv hne hann with ⟨hk, -⟩ | ⟨-, heq⟩ | ⟨hk, -⟩ | hextra
    · exact absurd (hspelt.symm.trans hk) (by decide)
    · exact ⟨_, heq⟩
    · exact absurd (hspelt.symm.trans hk) (by decide)
    · rw [hspelt] at hextra
      exact absurd hextra (h.not_extra (by decide))
  · have hann : kv.1 ≠ str "annotations" := by
      rintro heq
      rw [heq] at hk
      exact absurd hk (by decide)
    rcases hs.topLevel kv hkv hne hann with ⟨hk', -⟩ | ⟨hk', -⟩ | ⟨-, heq⟩ | hextra
    · exact absurd (hk.symm.trans hk') (by decide)
    · exact absurd (hk.symm.trans hk') (by decide)
    · exact ⟨_, heq⟩
    · rw [hk] at hextra
      exact absurd hextra (h.not_extra (by decide))

theorem unshadowed_of_survives (h : FieldsOf dump d) (hs : Survives dump d) :
    Unshadowed dump := by
  refine ⟨fun kv hkv hne => ?_, fun o ho kv hkv hne => ?_⟩
  · obtain ⟨k, v⟩ := kv
    by_cases hann : k = str "annotations"
    · subst hann
      exact (lastAlike_iff_mem dump.nodup fun k' _ => only_annotations k').mpr hkv
    · rcases hs.topLevel (k, v) hkv hne hann with ⟨hk, -⟩ | ⟨hk, -⟩ | ⟨hk, heq⟩ | hextra
      · obtain rfl := eq_of_snake_eq (by decide) hk
        exact (lastAlike_iff_mem dump.nodup fun k' _ => only_name k').mpr hkv
      · obtain rfl := eq_of_snake_eq (by decide) hk
        exact (lastAlike_iff_mem dump.nodup fun k' _ => only_description k').mpr hkv
      · -- the schema is the last one spelled alike, or empty
        obtain ⟨w, hw⟩ := lastAlike_of_mem hkv
        have hschema := h.inputSchema
        rw [get_alike hk, hw] at hschema
        simp only [orDefault] at hschema
        simp only at heq
        split at hschema
        · rw [hw, hschema, heq]
        · rw [heq, ← hschema] at hne
          cases hne
      · have hget := Dict.get_eq_some_iff.mpr ((h.extras _).mp hextra).1
        rwa [get_snakeKeys] at hget
  · obtain ⟨o', ho', hitems⟩ := h.annotations
    rw [(get_annotations dump).mpr ho] at ho'
    have htruthy : truthy o.toValue = true := by
      simpa [truthy, Obj.toValue] using List.ne_nil_of_mem hkv
    simp only [orDefault, if_pos htruthy] at ho'
    have hplaced := hs.annotations o ho kv hkv hne
    rw [hitems] at hplaced
    have hget := Dict.get_eq_some_iff.mpr hplaced
    rw [get_snakeKeys] at hget
    rwa [Obj.toValue_inj ho']

/-- Some definition comes out, whatever overwrites what. -/
theorem converts {dump : ToolDump} (ht : Typed dump.data) :
    ∃ d, toolToDefinition dump.data = .ok d := by
  obtain ⟨name, hname⟩ := ht.name
  have hdesc : ∃ s, orDefault ((snakeKeys dump.data).get (str "description")) (.str []) = .str s :=
    orDefault_str fun v hv => ht.description v ((get_description _).mp hv)
  have hschema : ∃ o : Obj,
      orDefault ((snakeKeys dump.data).get (str "input_schema")) (.dict []) = o.toValue := by
    refine orDefault_obj fun v hv hne => ?_
    obtain ⟨k, hmem, hk⟩ := mem_of_get_snakeKeys hv
    exact ht.inputSchema (k, v) hmem hk hne
  have hann : ∃ o : Obj,
      orDefault ((snakeKeys dump.data).get (str "annotations")) (.dict []) = o.toValue :=
    orDefault_obj fun v hv _ => dump.annotations v ((get_annotations _).mp hv)
  obtain ⟨desc, hdesc⟩ := hdesc
  obtain ⟨schema, hschema⟩ := hschema
  obtain ⟨o, hann⟩ := hann
  exact toolToDefinition_returns ((get_name _).mpr hname) hdesc hschema hann

theorem exists_survives {dump : ToolDump} (ht : Typed dump.data) (hu : Unshadowed dump.data) :
    ∃ d, toolToDefinition dump.data = .ok d ∧ Survives dump.data d := by
  obtain ⟨d, hd⟩ := converts ht
  refine ⟨d, hd, ?_⟩
  have h := fieldsOf_of_ok hd
  refine ⟨fun kv hkv hne hk => ?_, fun o ho kv hkv hne => ?_⟩
  · obtain ⟨k, v⟩ := kv
    have hlast := hu.topLevel (k, v) hkv hne
    simp only at hlast
    by_cases hres : snake k ∈ reserved
    · rcases mem_reserved.mp hres with hspelt | hspelt | hspelt | hspelt
      · exact absurd (eq_of_snake_eq (by decide) hspelt) hk
      · obtain ⟨o, rfl⟩ := ht.inputSchema (k, v) hkv hspelt hne
        have hfield := h.inputSchema
        rw [get_alike hspelt, hlast] at hfield
        simp only [orDefault] at hfield
        exact .inr (.inr (.inl ⟨hspelt, (if_pos hne).symm.trans hfield⟩))
      · obtain rfl := eq_of_snake_eq (by decide) hspelt
        obtain ⟨s, rfl⟩ := ht.description v hkv hne
        have hfield := h.description
        rw [(get_description _).mpr hkv] at hfield
        exact .inr (.inl ⟨hspelt, (if_pos hne).symm.trans hfield⟩)
      · obtain rfl := eq_of_snake_eq (by decide) hspelt
        have hfield := h.name
        rw [(get_name _).mpr hkv] at hfield
        exact .inl ⟨hspelt, Option.some.inj hfield⟩
    · rw [← get_snakeKeys] at hlast
      exact .inr (.inr (.inr ((h.extras _).mpr ⟨Dict.get_eq_some_iff.mp hlast, hres⟩)))
  · obtain ⟨o', ho', hitems⟩ := h.annotations
    rw [(get_annotations _).mpr ho] at ho'
    have htruthy : truthy o.toValue = true := by
      simpa [truthy, Obj.toValue] using List.ne_nil_of_mem hkv
    simp only [orDefault, if_pos htruthy] at ho'
    obtain rfl := Obj.toValue_inj ho'
    rw [hitems, ← Dict.get_eq_some_iff, get_snakeKeys]
    exact hu.annotations o ho kv hkv hne

end Survives

end AgenticFirewall
