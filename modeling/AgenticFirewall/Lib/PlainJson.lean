import AgenticFirewall.Lib.CanonicalJson

/-!
# JSON with its own characters

`json.dumps(v, ensure_ascii=False)`: entries in their order, a space after
each separator, and only quotes, backslashes and control characters
escaped. Every text of the value is found in the result between quotes
(`quoted_mem_texts`).
-/

namespace Py

/-- How one character of a string prints. -/
def escapePlain (c : CodePoint) : Str :=
  if c = ofChar '"' then str "\\\""
  else if c = ofChar '\\' then str "\\\\"
  else if c = ofChar '\n' then str "\\n"
  else if c = ofChar '\r' then str "\\r"
  else if c = ofChar '\t' then str "\\t"
  else if c = ofChar '\x0c' then str "\\f"
  else if c = ofChar '\x08' then str "\\b"
  else if c.val < 0x20 then unicodeEscape c.val
  else [c]

/-- A string literal, quotes included. -/
def quotePlain (s : Str) : Str := str "\"" ++ s.flatMap escapePlain ++ str "\""

/-- One item of an object, its value already printed. -/
def printEntry (p : Str × Str) : Str := quotePlain p.1 ++ str ": " ++ p.2

mutual
/-- `json.dumps(v, ensure_ascii=False)` -/
def dumpsPlain : Value → Str
  | .null => str "null"
  | .bool b => if b then str "true" else str "false"
  | .num n => n.text
  | .str s => quotePlain s
  | .list xs => str "[" ++ join (str ", ") (dumpsPlainList xs) ++ str "]"
  | .tuple xs => str "[" ++ join (str ", ") (dumpsPlainList xs) ++ str "]"
  | .dict items =>
      str "\x7b" ++ join (str ", ") ((dumpsPlainItems items).map printEntry) ++ str "\x7d"
termination_by structural v => v

def dumpsPlainList : List Value → List Str
  | [] => []
  | x :: xs => dumpsPlain x :: dumpsPlainList xs
termination_by structural xs => xs

def dumpsPlainItems : List (Str × Value) → List (Str × Str)
  | [] => []
  | (k, v) :: items => (k, dumpsPlain v) :: dumpsPlainItems items
termination_by structural items => items
end

theorem dumpsPlainList_eq_map (xs : List Value) : dumpsPlainList xs = xs.map dumpsPlain := by
  induction xs with
  | nil => rfl
  | cons x xs ih => simp [dumpsPlainList, ih]

theorem dumpsPlainItems_eq_map (items : List (Str × Value)) :
    dumpsPlainItems items = items.map fun kv => (kv.1, dumpsPlain kv.2) := by
  induction items with
  | nil => rfl
  | cons kv items ih => simp [dumpsPlainItems, ih]

/-! ## What the text contains -/

/-- A joined text holds each part, at its start or behind a separator, and
at its end or before one. -/
theorem mem_join {sep s : Str} {parts : List Str} (h : s ∈ parts) :
    ∃ pre post, join sep parts = pre ++ s ++ post ∧ (pre = [] ∨ ∃ a, pre = a ++ sep) ∧
      (post = [] ∨ ∃ b, post = sep ++ b) := by
  induction parts with
  | nil => cases h
  | cons t rest ih =>
      cases rest with
      | nil =>
          obtain rfl := List.mem_singleton.mp h
          exact ⟨[], [], by simp [join], .inl rfl, .inl rfl⟩
      | cons t' rest =>
          rcases List.mem_cons.mp h with rfl | h
          · exact ⟨[], sep ++ join sep (t' :: rest), by simp [join], .inl rfl, .inr ⟨_, rfl⟩⟩
          · obtain ⟨pre, post, heq, hpre, hpost⟩ := ih h
            refine ⟨t ++ sep ++ pre, post, by simp [join, heq], .inr ?_, hpost⟩
            rcases hpre with rfl | ⟨a, rfl⟩
            · exact ⟨t, by simp⟩
            · exact ⟨t ++ sep ++ a, by simp⟩

/-- `s` stands somewhere in `t`, between quotes. -/
def Quoted (s t : Str) : Prop := ∃ pre post, t = pre ++ quotePlain s ++ post

theorem Quoted.append {s t : Str} (h : Quoted s t) (a b : Str) : Quoted s (a ++ t ++ b) := by
  obtain ⟨pre, post, rfl⟩ := h
  exact ⟨a ++ pre, post ++ b, by simp⟩

theorem Quoted.join {s t : Str} {parts : List Str} (h : Quoted s t) (ht : t ∈ parts) (sep : Str) :
    Quoted s (join sep parts) := by
  obtain ⟨pre, post, heq, -, -⟩ := @mem_join sep t parts ht
  rw [heq]
  exact h.append pre post

/-- **Every key and every string** of the value stands in the text. -/
theorem quoted_mem_texts {v : Value} : ∀ s ∈ v.texts, Quoted s (dumpsPlain v) := by
  induction v using Value.induct with
  | null => simp [Value.texts]
  | bool b => simp [Value.texts]
  | num n => simp [Value.texts]
  | str t =>
      intro s hs
      obtain rfl : s = t := by simpa [Value.texts] using hs
      exact ⟨[], [], by simp [dumpsPlain]⟩
  | list xs ih =>
      intro s hs
      obtain ⟨x, hx, hs⟩ : ∃ x ∈ xs, s ∈ x.texts := by
        simpa [Value.texts, Value.textsList_eq] using hs
      have hmem : dumpsPlain x ∈ dumpsPlainList xs := by
        rw [dumpsPlainList_eq_map]
        exact List.mem_map_of_mem hx
      simp only [dumpsPlain]
      exact ((ih x hx s hs).join hmem _).append _ _
  | tuple xs ih =>
      intro s hs
      obtain ⟨x, hx, hs⟩ : ∃ x ∈ xs, s ∈ x.texts := by
        simpa [Value.texts, Value.textsList_eq] using hs
      have hmem : dumpsPlain x ∈ dumpsPlainList xs := by
        rw [dumpsPlainList_eq_map]
        exact List.mem_map_of_mem hx
      simp only [dumpsPlain]
      exact ((ih x hx s hs).join hmem _).append _ _
  | dict items ih =>
      intro s hs
      obtain ⟨kv, hkv, hs⟩ : ∃ kv ∈ items, s = kv.1 ∨ s ∈ kv.2.texts := by
        simpa [Value.texts, Value.textsItems_eq] using hs
      have hmem : printEntry (kv.1, dumpsPlain kv.2) ∈ (dumpsPlainItems items).map printEntry := by
        rw [dumpsPlainItems_eq_map, List.map_map]
        exact List.mem_map_of_mem (f := printEntry ∘ fun kv => (kv.1, dumpsPlain kv.2)) hkv
      have hentry : Quoted s (printEntry (kv.1, dumpsPlain kv.2)) := by
        rcases hs with rfl | hs
        · exact ⟨[], str ": " ++ dumpsPlain kv.2, by simp [printEntry]⟩
        · have happ := (ih kv hkv s hs).append (quotePlain kv.1 ++ str ": ") []
          simpa [printEntry] using happ
      simp only [dumpsPlain]
      exact (hentry.join hmem _).append _ _

/-- The characters that print as themselves. -/
def printsAsIs (c : CodePoint) : Bool :=
  decide (0x20 ≤ c.val) && c ≠ ofChar '"' && c ≠ ofChar '\\'

/-- A text of such characters stands there as it is. -/
theorem quotePlain_eq {s : Str} (h : ∀ c ∈ s, printsAsIs c = true) :
    quotePlain s = str "\"" ++ s ++ str "\"" := by
  have hone : ∀ c ∈ s, escapePlain c = [c] := by
    intro c hc
    have hc' := h c hc
    simp only [printsAsIs, Bool.and_eq_true, decide_eq_true_eq] at hc'
    obtain ⟨⟨hge, hquote⟩, hslash⟩ := hc'
    have hctrl : ∀ d : Char, d.toNat < 0x20 → c ≠ ofChar d := by
      rintro d hd rfl
      have hv : (ofChar d).val = d.toNat := rfl
      omega
    unfold escapePlain
    rw [if_neg hquote, if_neg hslash, if_neg (hctrl '\n' (by decide)),
      if_neg (hctrl '\r' (by decide)), if_neg (hctrl '\t' (by decide)),
      if_neg (hctrl '\x0c' (by decide)), if_neg (hctrl '\x08' (by decide)), if_neg (by omega)]
  have hall : s.flatMap escapePlain = s := by
    rw [List.flatMap_congr hone]
    simp
  rw [quotePlain, hall]

end Py
