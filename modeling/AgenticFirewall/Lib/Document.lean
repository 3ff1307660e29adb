import AgenticFirewall.Lib.Dict
import AgenticFirewall.Lib.Text

/-!
# Documents

What a YAML or JSON document holds once it is read, and checkers that build
a value from one or report every mistake with its place. Each checker has
two rules: what a value it accepts says about the document, and when it
reads back what was written.
-/

namespace Py

inductive Doc where
  | null
  | bool (b : Bool)
  | int (n : Int)
  | float (q : ℚ)
  | text (s : Str)
  | list (xs : List Doc)
  | dict (items : List (Doc × Doc))
  /-- a value of another kind, such as a date, bytes or a set -/
  | other (n : Nat)

namespace Doc

/-! ## Mistakes -/

/-- One step down into a document. -/
inductive Step where
  | key (k : Doc)
  | index (i : Nat)

/-- What is wrong at a place; `ε` is what the validators of a model raise. -/
inductive Problem (ε : Type) where
  | missing
  | extra
  | invalidKey
  | wrongType
  | outOfBounds
  | value (e : ε)

structure Mistake (ε : Type) where
  place : List Step
  problem : Problem ε

/-- The same mistake, seen from one step further up. -/
def Mistake.under {ε : Type} (step : Step) (m : Mistake ε) : Mistake ε :=
  { m with place := step :: m.place }

/-- A value, or one mistake at least. -/
inductive Checked (ε α : Type) where
  | ok (a : α)
  | wrong (first : Mistake ε) (more : List (Mistake ε))

variable {ε α β δ : Type}

namespace Checked

def map (f : α → β) : Checked ε α → Checked ε β
  | .ok a => .ok (f a)
  | .wrong m ms => .wrong m ms

/-- Both are checked, and the mistakes of both are kept. -/
def seq (f : Checked ε (α → β)) (x : Checked ε α) : Checked ε β :=
  match f, x with
  | .ok f, .ok a => .ok (f a)
  | .ok _, .wrong m ms => .wrong m ms
  | .wrong m ms, .ok _ => .wrong m ms
  | .wrong m ms, .wrong m' ms' => .wrong m (ms ++ m' :: ms')

instance : Applicative (Checked ε) where
  pure := .ok
  map := map
  seq f x := f.seq (x ())

/-- The value, unless there are these mistakes as well. -/
def besides (x : Checked ε α) : List (Mistake ε) → Checked ε α
  | [] => x
  | m :: ms =>
      match x with
      | .ok _ => .wrong m ms
      | .wrong m' ms' => .wrong m' (ms' ++ m :: ms)

/-- The same check, one step further down. -/
def under (step : Step) : Checked ε α → Checked ε α
  | .ok a => .ok a
  | .wrong m ms => .wrong (m.under step) (ms.map (Mistake.under step))

/-- The value with a property that a validator checks, and what the
validator raises without it. -/
def such (p : α → Prop) [DecidablePred p] (problem : α → Problem ε) :
    Checked ε α → Checked ε { a // p a }
  | .ok a => if h : p a then .ok ⟨a, h⟩ else .wrong ⟨[], problem a⟩ []
  | .wrong m ms => .wrong m ms

variable {x : Checked ε α}

theorem map_eq_ok {f : α → β} {b : β} : f <$> x = .ok b ↔ ∃ a, x = .ok a ∧ f a = b := by
  cases x with
  | ok a => simp [Functor.map, map]
  | wrong m ms => simp [Functor.map, map]

theorem seq_eq_ok {f : Checked ε (α → β)} {b : β} :
    f <*> x = .ok b ↔ ∃ g a, f = .ok g ∧ x = .ok a ∧ g a = b := by
  cases f with
  | ok g =>
      cases x with
      | ok a => simp [Seq.seq, seq]
      | wrong m ms => simp [Seq.seq, seq]
  | wrong m ms =>
      cases x with
      | ok a => simp [Seq.seq, seq]
      | wrong m' ms' => simp [Seq.seq, seq]

@[simp] theorem map_ok (f : α → β) (a : α) : f <$> (.ok a : Checked ε α) = .ok (f a) := rfl

@[simp] theorem seq_ok (f : α → β) (a : α) :
    (.ok f : Checked ε (α → β)) <*> .ok a = .ok (f a) := rfl

@[simp] theorem under_ok (step : Step) (a : α) : (.ok a : Checked ε α).under step = .ok a := rfl

theorem under_eq_ok {step : Step} {a : α} : x.under step = .ok a ↔ x = .ok a := by
  cases x with
  | ok b => simp [under]
  | wrong m ms => simp [under]

theorem besides_eq_ok {ms : List (Mistake ε)} {a : α} :
    x.besides ms = .ok a ↔ x = .ok a ∧ ms = [] := by
  cases ms with
  | nil => simp [besides]
  | cons m ms => cases x <;> simp [besides]

theorem such_eq_ok {p : α → Prop} [DecidablePred p] {problem : α → Problem ε}
    {a : { a // p a }} : x.such p problem = .ok a ↔ x = .ok a.val := by
  cases x with
  | wrong m ms => simp [such]
  | ok b =>
      by_cases h : p b
      · simp only [such, dif_pos h, ok.injEq]
        exact Subtype.ext_iff
      · simp only [such, dif_neg h, reduceCtorEq, ok.injEq, false_iff]
        intro hb
        exact h (hb ▸ a.property)

end Checked

/-- Reads a value from a document. -/
abbrev Checker (ε α : Type) := Doc → Checked ε α

/-- What a conversion gives, or a mistake. -/
def convert (f : Doc → Option α) : Checker ε α := fun d =>
  match f d with
  | some a => .ok a
  | none => .wrong ⟨[], .wrongType⟩ []

theorem convert_eq_ok {f : Doc → Option α} {d : Doc} {a : α} :
    convert f d = (.ok a : Checked ε α) ↔ f d = some a := by
  unfold convert
  cases f d with
  | none => simp
  | some b => simp

/-! ## Lists -/

def elements (c : Checker ε α) : Nat → List Doc → Checked ε (List α)
  | _, [] => .ok []
  | i, d :: ds => List.cons <$> (c d).under (.index i) <*> elements c (i + 1) ds

/-- Each value of the list comes from an element. -/
theorem mem_of_elements {c : Checker ε α} {i : Nat} {ds : List Doc} {as : List α} {a : α}
    (h : elements c i ds = .ok as) (ha : a ∈ as) : ∃ d ∈ ds, c d = .ok a := by
  induction ds generalizing i as with
  | nil =>
      cases h
      cases ha
  | cons d ds ih =>
      obtain ⟨g, rest, hg, hrest, rfl⟩ := Checked.seq_eq_ok.mp h
      obtain ⟨b, hb, rfl⟩ := Checked.map_eq_ok.mp hg
      rcases List.mem_cons.mp ha with rfl | ha
      · exact ⟨d, List.mem_cons_self, Checked.under_eq_ok.mp hb⟩
      · obtain ⟨d', hd', hc⟩ := ih hrest ha
        exact ⟨d', List.mem_cons_of_mem _ hd', hc⟩

theorem elements_map {c : Checker ε α} {dump : α → Doc} (h : ∀ a, c (dump a) = .ok a)
    (as : List α) (i : Nat) : elements c i (as.map dump) = .ok as := by
  induction as generalizing i with
  | nil => rfl
  | cons a as ih =>
      rw [List.map_cons, elements, h, ih]
      rfl

/-! ## Mappings -/

/-- The entries of a mapping whose keys are converted. -/
def entries (key : Doc → Option Str) (c : δ → Checked ε α) :
    List (Doc × δ) → Checked ε (List (Str × α))
  | [] => .ok []
  | (k, v) :: rest =>
      let name : Checked ε Str :=
        match key k with
        | some name => .ok name
        | none => .wrong ⟨[.key k], .invalidKey⟩ []
      (fun name a rest => (name, a) :: rest) <$> name <*> (c v).under (.key k) <*>
        entries key c rest

def mapping (key : Doc → Option Str) (c : δ → Checked ε α) (items : List (Doc × δ)) :
    Checked ε (Dict Str α) :=
  Dict.ofList <$> entries key c items

theorem mem_of_entries {key : Doc → Option Str} {c : δ → Checked ε α} {items : List (Doc × δ)}
    {l : List (Str × α)} {p : Str × α} (h : entries key c items = .ok l) (hp : p ∈ l) :
    ∃ kv ∈ items, key kv.1 = some p.1 ∧ c kv.2 = .ok p.2 := by
  induction items generalizing l with
  | nil =>
      cases h
      cases hp
  | cons kv items ih =>
      obtain ⟨k, v⟩ := kv
      obtain ⟨g, rest, hg, hrest, rfl⟩ := Checked.seq_eq_ok.mp h
      obtain ⟨g', a, hg', ha, rfl⟩ := Checked.seq_eq_ok.mp hg
      obtain ⟨name, hname, rfl⟩ := Checked.map_eq_ok.mp hg'
      rcases List.mem_cons.mp hp with rfl | hp
      · refine ⟨(k, v), List.mem_cons_self, ?_, Checked.under_eq_ok.mp ha⟩
        cases hk : key k with
        | none =>
            rw [hk] at hname
            cases hname
        | some name' =>
            rw [hk] at hname
            cases hname
            rfl
      · obtain ⟨kv, hkv, hkey⟩ := ih hrest hp
        exact ⟨kv, List.mem_cons_of_mem _ hkv, hkey⟩

/-- Each value of the mapping comes from an entry with its key. -/
theorem mem_of_mapping {key : Doc → Option Str} {c : δ → Checked ε α} {items : List (Doc × δ)}
    {d : Dict Str α} {k : Str} {a : α} (h : mapping key c items = .ok d)
    (hget : d.get k = some a) : ∃ kv ∈ items, key kv.1 = some k ∧ c kv.2 = .ok a := by
  obtain ⟨l, hl, rfl⟩ := Checked.map_eq_ok.mp h
  exact mem_of_entries hl (Dict.mem_of_get_ofList hget)

/-- A dictionary as a document. -/
def ofDict (dump : α → δ) (d : Dict Str α) : List (Doc × δ) :=
  d.items.map fun kv => (.text kv.1, dump kv.2)

theorem mapping_ofDict {key : Doc → Option Str} {c : δ → Checked ε α} {dump : α → δ}
    (hkey : ∀ k, key (.text k) = some k) (hc : ∀ a, c (dump a) = .ok a) (d : Dict Str α) :
    mapping key c (ofDict dump d) = .ok d := by
  have hentries : ∀ l : List (Str × α),
      entries key c (l.map fun kv => (Doc.text kv.1, dump kv.2)) = .ok l := by
    intro l
    induction l with
    | nil => rfl
    | cons p l ih =>
        rw [List.map_cons, entries, ih, hkey, hc]
        rfl
  rw [mapping, ofDict, hentries, Checked.map_ok]
  exact congrArg Checked.ok (Dict.ext (Dict.items_ofList d.nodup))

/-! ## Models -/

def isText (k : Str) : Doc → Bool
  | .text s => s = k
  | _ => false

/-- The entry of a field. -/
def get (k : String) : List (Doc × Doc) → Option Doc
  | [] => none
  | (k', v) :: rest => if k'.isText (str k) then some v else get k rest

def field (c : Checker ε α) (k : String) (items : List (Doc × Doc)) : Checked ε α :=
  match get k items with
  | some d => (c d).under (.key (.text (str k)))
  | none => .wrong ⟨[.key (.text (str k))], .missing⟩ []

def fieldOr (c : Checker ε α) (k : String) (default : α) (items : List (Doc × Doc)) :
    Checked ε α :=
  match get k items with
  | some d => (c d).under (.key (.text (str k)))
  | none => .ok default

/-- The keys that are no field. -/
def extras (names : List String) (items : List (Doc × Doc)) : List (Mistake ε) :=
  items.filterMap fun kv =>
    match kv.1 with
    | .text k => if k ∈ names.map str then none else some ⟨[.key kv.1], .extra⟩
    | _ => some ⟨[.key kv.1], .invalidKey⟩

/-- A model that forbids extra keys: its fields, then the other keys. -/
def model (names : List String) (fields : List (Doc × Doc) → Checked ε α) : Checker ε α
  | .dict items => (fields items).besides (extras names items)
  | _ => .wrong ⟨[], .wrongType⟩ []

section Models

variable {c : Checker ε α} {k : String} {items : List (Doc × Doc)} {a : α}

theorem field_eq_ok :
    field c k items = .ok a ↔ ∃ d, get k items = some d ∧ c d = .ok a := by
  unfold field
  cases get k items with
  | none => simp
  | some d => simp [Checked.under_eq_ok]

theorem fieldOr_eq_ok {default : α} : fieldOr c k default items = .ok a ↔
    (get k items = none ∧ a = default) ∨ ∃ d, get k items = some d ∧ c d = .ok a := by
  unfold fieldOr
  cases get k items with
  | none => simp [eq_comm]
  | some d => simp [Checked.under_eq_ok]

/-- A model is built from a mapping of its fields alone. -/
theorem model_eq_ok {names : List String} {fields : List (Doc × Doc) → Checked ε α} {d : Doc} :
    model names fields d = .ok a ↔ ∃ items, d = .dict items ∧ fields items = .ok a ∧
      ∀ kv ∈ items, ∃ name ∈ names, kv.1 = .text (str name) := by
  cases d with
  | dict items =>
      have hextras : extras names items = ([] : List (Mistake ε)) ↔
          ∀ kv ∈ items, ∃ name ∈ names, kv.1 = .text (str name) := by
        rw [extras, List.filterMap_eq_nil_iff]
        refine forall₂_congr fun kv _ => ?_
        obtain ⟨key, v⟩ := kv
        cases key with
        | text t => simp [eq_comm]
        | _ => simp
      simp [model, Checked.besides_eq_ok, hextras]
  | _ => simp [model]

end Models

/-- A model as a document, field by field. -/
def record (fields : List (String × Doc)) : Doc :=
  .dict (fields.map fun p => (.text (str p.1), p.2))

theorem model_record {names : List String} {fields : List (Doc × Doc) → Checked ε α}
    {values : List (String × Doc)} (h : values.map Prod.fst ⊆ names) :
    model names fields (record values) =
      fields (values.map fun p => (.text (str p.1), p.2)) := by
  have hextras : extras names (values.map fun p => (Doc.text (str p.1), p.2)) =
      ([] : List (Mistake ε)) := by
    rw [extras, List.filterMap_eq_nil_iff]
    intro kv hkv
    obtain ⟨p, hp, rfl⟩ := List.mem_map.mp hkv
    have hname : p.1 ∈ names := h (List.mem_map_of_mem hp)
    simp only [ite_eq_left_iff]
    intro hnot
    exact absurd (List.mem_map_of_mem hname) hnot
  rw [record, model, hextras]
  rfl

theorem ofChar_inj {a b : Char} (h : ofChar a = ofChar b) : a = b := by
  have hval : (ofChar a).val = (ofChar b).val := by rw [h]
  exact Char.toNat_inj.mp hval

theorem str_inj {s t : String} : str s = str t ↔ s = t := by
  constructor
  · intro h
    exact String.toList_inj.mp (List.map_injective_iff.mpr (fun _ _ => ofChar_inj) h)
  · intro h
    rw [h]

@[simp] theorem get_cons (k name : String) (v : Doc) (rest : List (Doc × Doc)) :
    get k ((.text (str name), v) :: rest) = if name = k then some v else get k rest := by
  simp [get, isText, str_inj]

end Doc

end Py
