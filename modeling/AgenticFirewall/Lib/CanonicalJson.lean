import AgenticFirewall.Lib.Value
import Mathlib.Data.List.Sort
import Mathlib.Data.List.Perm.Basic
import Mathlib.Data.List.Lex
import Mathlib.Order.Fin.Basic

/-!
# Canonical JSON

`json.dumps(v, sort_keys=True, separators=(",", ":"), ensure_ascii=True)`
and its two laws: the text does not depend on the order of object keys at
any depth (`dumps_congr`), and on JSON data it determines the value up to
that order (`dumps_inj`). The second is proved with a continuation: what
follows a printed value begins with a closing delimiter, so two texts that
agree split at the same place (`dumps_peel`).
-/

namespace Py

/-! ## Printing -/

/-- `\uXXXX`. -/
def unicodeEscape (n : Nat) : Str :=
  str "\\u" ++ [hexDigit (n / 0x1000 % 16), hexDigit (n / 0x100 % 16),
    hexDigit (n / 0x10 % 16), hexDigit (n % 16)]

/-- How one character prints under `ensure_ascii`: itself, a short escape,
`\uXXXX`, or the surrogate pair of a character past the BMP. -/
def escapeChar (c : CodePoint) : Str :=
  if c = ofChar '"' then str "\\\""
  else if c = ofChar '\\' then str "\\\\"
  else if c = ofChar '\n' then str "\\n"
  else if c = ofChar '\r' then str "\\r"
  else if c = ofChar '\t' then str "\\t"
  else if c = ofChar '\x0c' then str "\\f"
  else if c = ofChar '\x08' then str "\\b"
  else if 0x20 ≤ c.val ∧ c.val ≤ 0x7E then [c]
  else if c.val < 0x10000 then unicodeEscape c.val
  else
    unicodeEscape (0xD800 + (c.val - 0x10000) / 0x400) ++
      unicodeEscape (0xDC00 + (c.val - 0x10000) % 0x400)

/-- A string literal, quotes included. -/
def encodeString (s : Str) : Str := str "\"" ++ s.flatMap escapeChar ++ str "\""

/-- `sort_keys`: the items of an object in the order of their keys. -/
def sortByKey {α : Type} (items : List (Str × α)) : List (Str × α) :=
  items.insertionSort (fun p q => p.1 ≤ q.1)

/-- One item of an object, its value already printed. -/
def printItem (p : Str × Str) : Str := encodeString p.1 ++ str ":" ++ p.2

mutual
/-- `json.dumps` in canonical form. -/
def dumps : Value → Str
  | .null => str "null"
  | .bool b => if b then str "true" else str "false"
  | .num n => n.text
  | .str s => encodeString s
  | .list xs => str "[" ++ join (str ",") (dumpsList xs) ++ str "]"
  | .tuple xs => str "[" ++ join (str ",") (dumpsList xs) ++ str "]"
  | .dict items =>
      str "\x7b" ++ join (str ",") ((sortByKey (dumpsItems items)).map printItem) ++ str "\x7d"
termination_by structural v => v

def dumpsList : List Value → List Str
  | [] => []
  | x :: xs => dumps x :: dumpsList xs
termination_by structural xs => xs

def dumpsItems : List (Str × Value) → List (Str × Str)
  | [] => []
  | (k, v) :: items => (k, dumps v) :: dumpsItems items
termination_by structural items => items
end

theorem dumpsList_eq_map (xs : List Value) : dumpsList xs = xs.map dumps := by
  induction xs with
  | nil => rfl
  | cons x xs ih => simp [dumpsList, ih]

theorem dumpsItems_eq_map (items : List (Str × Value)) :
    dumpsItems items = items.map (fun kv => (kv.1, dumps kv.2)) := by
  induction items with
  | nil => rfl
  | cons kv items ih => simp [dumpsItems, ih]

/-! ## Key order does not matter -/

theorem sortByKey_perm {α : Type} (items : List (Str × α)) :
    (sortByKey items).Perm items :=
  List.perm_insertionSort _ _

theorem sortByKey_map {α β : Type} (g : α → β) (items : List (Str × α)) :
    sortByKey (items.map (fun kv => (kv.1, g kv.2))) =
      (sortByKey items).map (fun kv => (kv.1, g kv.2)) :=
  (List.map_insertionSort (fun p q : Str × α => p.1 ≤ q.1)
    (fun p q : Str × β => p.1 ≤ q.1) _ items (fun _ _ _ _ => Iff.rfl)).symm

/-- Sorting forgets the order: with distinct keys, permuted items sort to
the same list. -/
theorem sortByKey_congr {α : Type} {a b : List (Str × α)}
    (hn : (a.map Prod.fst).Nodup) (h : a.Perm b) : sortByKey a = sortByKey b := by
  have hsorted : ∀ l : List (Str × α),
      (sortByKey l).Pairwise (fun p q => p.1 ≤ q.1) := by
    intro l
    have : IsTrans (Str × α) (fun p q => p.1 ≤ q.1) := ⟨fun _ _ _ => le_trans⟩
    have : Std.Total (fun p q : Str × α => p.1 ≤ q.1) := ⟨fun p q => le_total p.1 q.1⟩
    exact List.pairwise_insertionSort _ l
  have hperm : (sortByKey a).Perm (sortByKey b) :=
    (sortByKey_perm a).trans (h.trans (sortByKey_perm b).symm)
  refine hperm.eq_of_pairwise ?_ (hsorted a) (hsorted b)
  intro p q hp hq hpq hqp
  -- equal keys in `a` belong to one entry
  have hk : p.1 = q.1 := le_antisymm hpq hqp
  have hp' : p ∈ a := (sortByKey_perm a).mem_iff.mp hp
  have hq' : q ∈ a := h.mem_iff.mpr ((sortByKey_perm b).mem_iff.mp hq)
  exact List.inj_on_of_nodup_map hn hp' hq' hk

theorem keys_dumpsItems (items : List (Str × Value)) :
    (dumpsItems items).map Prod.fst = items.map Prod.fst := by
  rw [dumpsItems_eq_map, List.map_map]
  rfl

/-- **Canonical text ignores key order**, at every depth. -/
theorem dumps_congr {a : Value} :
    ∀ {b : Value}, a.IsJson → b.IsJson → a.JsonEq b → dumps a = dumps b := by
  induction a using Value.induct with
  | null => intro b _ _ h; cases b <;> simp_all [Value.JsonEq]
  | bool x => intro b _ _ h; cases b <;> simp_all [Value.JsonEq]
  | num n => intro b _ _ h; cases b <;> simp_all [Value.JsonEq]
  | str s => intro b _ _ h; cases b <;> simp_all [Value.JsonEq]
  | tuple xs ih => intro b ha; simp [Value.IsJson] at ha
  | list xs ih =>
      intro b ha hb h
      cases b with
      | list ys =>
          rw [Value.isJson_list] at ha hb
          simp only [Value.JsonEq, Value.jsonEqList_iff] at h
          have hmap : xs.map dumps = ys.map dumps := by
            refine map_eq_of_forall₂ (forall₂_imp_mem h fun x hx y hy hxy => ?_)
            exact ih x hx (ha x hx) (hb y hy) hxy
          simp only [dumps, dumpsList_eq_map, hmap]
      | _ => simp [Value.JsonEq] at h
  | dict items ih =>
      intro b ha hb h
      cases b with
      | dict others =>
          rw [Value.isJson_dict] at ha hb
          obtain ⟨aligned, hperm, hall⟩ := Value.jsonEq_dict.mp h
          have hitems : dumpsItems items = dumpsItems aligned := by
            rw [dumpsItems_eq_map, dumpsItems_eq_map]
            refine map_eq_of_forall₂ (forall₂_imp_mem hall fun p hp q hq hpq => ?_)
            have hv := ih p hp (ha.2 p hp).2 (hb.2 q (hperm.mem_iff.mp hq)).2 hpq.2
            rw [hpq.1, hv]
          have hsort : sortByKey (dumpsItems items) = sortByKey (dumpsItems others) := by
            refine sortByKey_congr (by rw [keys_dumpsItems]; exact ha.1) ?_
            rw [hitems, dumpsItems_eq_map, dumpsItems_eq_map]
            exact hperm.map _
          simp only [dumps, hsort]
      | _ => simp [Value.JsonEq] at h

/-! ## String literals split -/

/-- Read the four digits after `\u`. -/
def readUnicode : Str → Option (Nat × Str)
  | a :: b :: c :: d :: rest =>
      some (hexVal a * 0x1000 + hexVal b * 0x100 + hexVal c * 0x10 + hexVal d, rest)
  | _ => none

/-- The character a one-letter escape stands for. -/
def shortEscape (e : CodePoint) : CodePoint :=
  if e = ofChar 'n' then ofChar '\n'
  else if e = ofChar 'r' then ofChar '\r'
  else if e = ofChar 't' then ofChar '\t'
  else if e = ofChar 'f' then ofChar '\x0c'
  else if e = ofChar 'b' then ofChar '\x08'
  else e

/-- Read one character back: the left inverse that makes `escapeChar`
unambiguous. -/
def readChar : Str → Option (CodePoint × Str)
  | [] => none
  | c :: rest =>
      if c ≠ ofChar '\\' then some (c, rest) else
      match rest with
      | [] => none
      | e :: rest =>
          if e ≠ ofChar 'u' then some (shortEscape e, rest) else
          match readUnicode rest with
          | none => none
          | some (n, rest) =>
              if 0xD800 ≤ n ∧ n ≤ 0xDBFF then
                match readUnicode (rest.drop 2) with
                | none => none
                | some (m, rest) =>
                    some (Fin.ofNat _ (0x10000 + (n - 0xD800) * 0x400 + (m - 0xDC00)), rest)
              else some (Fin.ofNat _ n, rest)

theorem readUnicode_unicodeEscape {n : Nat} (h : n < 0x10000) (r : Str) :
    readUnicode ((unicodeEscape n).drop 2 ++ r) = some (n, r) := by
  have hdrop : (unicodeEscape n).drop 2 = [hexDigit (n / 0x1000 % 16),
      hexDigit (n / 0x100 % 16), hexDigit (n / 0x10 % 16), hexDigit (n % 16)] := rfl
  rw [hdrop]
  simp only [List.cons_append, List.nil_append, readUnicode, Option.some.injEq,
    Prod.mk.injEq, and_true]
  rw [hexVal_hexDigit (by omega), hexVal_hexDigit (by omega), hexVal_hexDigit (by omega),
    hexVal_hexDigit (by omega)]
  omega

theorem readChar_unicodeEscape {n : Nat} (h : n < 0x10000) (r : Str) :
    readChar (unicodeEscape n ++ r) =
      if 0xD800 ≤ n ∧ n ≤ 0xDBFF then
        match readUnicode (r.drop 2) with
        | none => none
        | some (m, rest) =>
            some (Fin.ofNat _ (0x10000 + (n - 0xD800) * 0x400 + (m - 0xDC00)), rest)
      else some (Fin.ofNat _ n, r) := by
  have hsplit : unicodeEscape n ++ r =
      ofChar '\\' :: ofChar 'u' :: ((unicodeEscape n).drop 2 ++ r) := rfl
  rw [hsplit]
  simp only [readChar, ne_eq, not_true_eq_false, if_false, readUnicode_unicodeEscape h]

theorem readChar_escapeChar {c : CodePoint} (hc : isSurrogate c = false) (r : Str) :
    readChar (escapeChar c ++ r) = some (c, r) := by
  have hc' : c.val < 0xD800 ∨ 0xDFFF < c.val := by
    simp only [isSurrogate, Bool.and_eq_false_iff, decide_eq_false_iff_not] at hc
    omega
  unfold escapeChar
  split
  · rename_i h; subst h; rfl
  split
  · rename_i h; subst h; rfl
  split
  · rename_i h; subst h; rfl
  split
  · rename_i h; subst h; rfl
  split
  · rename_i h; subst h; rfl
  split
  · rename_i h; subst h; rfl
  split
  · rename_i h; subst h; rfl
  split
  · rename_i hslash _ _ _ _ _ _
    simp only [List.cons_append, List.nil_append, readChar, ne_eq, hslash,
      not_false_eq_true, if_true]
  split
  · rename_i hlt
    rw [readChar_unicodeEscape hlt, if_neg (by omega)]
    simp [Fin.ofNat, Nat.mod_eq_of_lt c.isLt]
  · rename_i hge
    have hlt := c.isLt
    -- past the BMP: a high surrogate, then the low one
    rw [List.append_assoc, readChar_unicodeEscape (by omega), if_pos (by omega)]
    have hdrop : (unicodeEscape (0xDC00 + (c.val - 0x10000) % 0x400) ++ r).drop 2 =
        (unicodeEscape (0xDC00 + (c.val - 0x10000) % 0x400)).drop 2 ++ r := rfl
    rw [hdrop, readUnicode_unicodeEscape (by omega)]
    simp only [Option.some.injEq, Prod.mk.injEq, and_true]
    apply Fin.ext
    simp only [Fin.ofNat]
    omega

/-- No escape begins with the quote that ends a literal. -/
theorem escapeChar_head (c : CodePoint) :
    ∃ d rest, escapeChar c = d :: rest ∧ d ≠ ofChar '"' := by
  unfold escapeChar
  repeat' split
  all_goals first
    | exact ⟨_, _, rfl, by decide⟩
    | exact ⟨_, _, rfl, ‹_›⟩

theorem escaped_peel {s t : Str} (hs : Encodable s) (ht : Encodable t) {r r' : Str}
    (h : s.flatMap escapeChar ++ ofChar '"' :: r = t.flatMap escapeChar ++ ofChar '"' :: r') :
    s = t ∧ r = r' := by
  induction s generalizing t with
  | nil =>
      cases t with
      | nil => simpa using h
      | cons d t =>
          obtain ⟨e, rest, he, hne⟩ := escapeChar_head d
          simp only [List.flatMap_nil, List.nil_append, List.flatMap_cons, he,
            List.cons_append, List.cons.injEq] at h
          exact absurd h.1.symm hne
  | cons c s ih =>
      cases t with
      | nil =>
          obtain ⟨e, rest, he, hne⟩ := escapeChar_head c
          simp only [List.flatMap_nil, List.nil_append, List.flatMap_cons, he,
            List.cons_append, List.cons.injEq] at h
          exact absurd h.1 hne
      | cons d t =>
          simp only [List.flatMap_cons, List.append_assoc] at h
          have hread := congrArg readChar h
          rw [readChar_escapeChar (hs c (by simp)), readChar_escapeChar (ht d (by simp)),
            Option.some.injEq, Prod.mk.injEq] at hread
          obtain ⟨rfl, hrest⟩ := hread
          obtain ⟨rfl, hr⟩ := ih (hs.mono fun _ => List.mem_cons_of_mem _)
            (ht.mono fun _ => List.mem_cons_of_mem _) hrest
          exact ⟨rfl, hr⟩

theorem encodeString_append (s r : Str) :
    encodeString s ++ r = ofChar '"' :: (s.flatMap escapeChar ++ ofChar '"' :: r) := by
  simp only [encodeString, List.append_assoc]
  rfl

/-- A printed string ends where its literal ends. -/
theorem encodeString_peel {s t : Str} (hs : Encodable s) (ht : Encodable t) {r r' : Str}
    (h : encodeString s ++ r = encodeString t ++ r') : s = t ∧ r = r' := by
  rw [encodeString_append, encodeString_append, List.cons.injEq] at h
  exact escaped_peel hs ht h.2

/-! ## Values split -/

/-- A delimiter that ends a value: `,`, `]` or `}`. -/
def isCloser (c : CodePoint) : Bool := oneOf ",]\x7d" c

/-- What may follow a printed value: nothing, or a closing delimiter. -/
def Closes : Str → Prop
  | [] => True
  | c :: _ => isCloser c = true

/-- Which kind of value a first character announces; `7` for none. -/
def kindOfHead (c : CodePoint) : Nat :=
  if c = ofChar 'n' then 0
  else if c = ofChar 't' ∨ c = ofChar 'f' then 1
  else if isDigit c || oneOf "-NI" c then 2
  else if c = ofChar '"' then 3
  else if c = ofChar '[' then 4
  else if c = ofChar '{' then 6
  else 7

def kind : Value → Nat
  | .null => 0
  | .bool _ => 1
  | .num _ => 2
  | .str _ => 3
  | .list _ => 4
  | .tuple _ => 4
  | .dict _ => 6

theorem kindOfHead_num {c : CodePoint} (h : (isDigit c || oneOf "-NI" c) = true) :
    kindOfHead c = 2 := by
  have hn : c ≠ ofChar 'n' := by rintro rfl; revert h; decide
  have ht : c ≠ ofChar 't' := by rintro rfl; revert h; decide
  have hf : c ≠ ofChar 'f' := by rintro rfl; revert h; decide
  simp only [kindOfHead, hn, ht, hf, if_false, or_self, h, if_true]

/-- The first character of a printed value tells its kind. -/
theorem dumps_head (v : Value) : ∃ c rest, dumps v = c :: rest ∧ kindOfHead c = kind v := by
  cases v with
  | null => exact ⟨_, _, rfl, by decide⟩
  | bool b => cases b <;> exact ⟨_, _, rfl, by decide⟩
  | num n =>
      obtain ⟨text, ok⟩ := n
      cases text with
      | nil => simp [isNumText] at ok
      | cons c cs =>
          simp only [isNumText, Bool.and_eq_true] at ok
          exact ⟨c, cs, rfl, kindOfHead_num ok.1⟩
  | str s => exact ⟨_, _, rfl, rfl⟩
  | list xs => exact ⟨_, _, rfl, rfl⟩
  | tuple xs => exact ⟨_, _, rfl, rfl⟩
  | dict items => exact ⟨_, _, rfl, rfl⟩

theorem eq_of_isCloser {c : CodePoint} (h : isCloser c = true) :
    c = ofChar ',' ∨ c = ofChar ']' ∨ c = ofChar '}' := by
  simp only [isCloser, oneOf, List.contains_iff_mem] at h
  have hmem : c ∈ [ofChar ',', ofChar ']', ofChar '}'] := h
  simpa only [List.mem_cons, List.not_mem_nil, or_false] using hmem

theorem kindOfHead_closer {c : CodePoint} (h : isCloser c = true) : kindOfHead c = 7 := by
  rcases eq_of_isCloser h with rfl | rfl | rfl <;> decide

/-- A run of one class ends where the class ends. -/
theorem class_peel {p : CodePoint → Bool} {a b r s : Str} (ha : a.all p = true)
    (hb : b.all p = true) (hr : ∀ c ∈ r.head?, p c = false)
    (hs : ∀ c ∈ s.head?, p c = false) (h : a ++ r = b ++ s) : a = b ∧ r = s := by
  induction a generalizing b with
  | nil =>
      cases b with
      | nil => exact ⟨rfl, h⟩
      | cons d b =>
          simp only [List.nil_append, List.cons_append] at h
          have hd := hr d (by simp [h])
          simp_all
  | cons c a ih =>
      cases b with
      | nil =>
          simp only [List.nil_append, List.cons_append] at h
          have hc := hs c (by simp [← h])
          simp_all
      | cons d b =>
          simp only [List.cons_append, List.cons.injEq] at h
          simp only [List.all_cons, Bool.and_eq_true] at ha hb
          obtain ⟨hab, hrs⟩ := ih ha.2 hb.2 h.2
          exact ⟨by rw [h.1, hab], hrs⟩

theorem Closes.not_num {r : Str} (h : Closes r) : ∀ c ∈ r.head?, isNumChar c = false := by
  cases r with
  | nil => simp
  | cons d r =>
      simp only [List.head?_cons, Option.mem_some_iff, forall_eq']
      rcases eq_of_isCloser h with rfl | rfl | rfl <;> decide

/-- `join` after its first part. -/
theorem join_cons (sep s : Str) (parts : List Str) :
    join sep (s :: parts) = s ++ parts.flatMap (sep ++ ·) := by
  induction parts generalizing s with
  | nil => simp [join]
  | cons t rest ih => simp [join, ih]

section Join

variable {α : Type} {f : α → Str} {R : α → α → Prop} {close : CodePoint}

/-- What follows a part of a joined text closes it. -/
theorem closes_flatMap (hclose : isCloser close = true) (zs : List α) (t : Str) :
    Closes (zs.flatMap (fun z => str "," ++ f z) ++ close :: t) := by
  cases zs with
  | nil => exact hclose
  | cons z zs => exact (by decide : isCloser (ofChar ',') = true)

/-- The parts of a joined text that follow its first one split. -/
theorem flatMap_peel {xs ys : List α} (hclose : isCloser close = true)
    (hcomma : close ≠ ofChar ',')
    (hf : ∀ x ∈ xs, ∀ y ∈ ys, ∀ {r s}, Closes r → Closes s → f x ++ r = f y ++ s →
      R x y ∧ r = s) {r s : Str}
    (h : xs.flatMap (fun x => str "," ++ f x) ++ close :: r =
      ys.flatMap (fun y => str "," ++ f y) ++ close :: s) :
    List.Forall₂ R xs ys ∧ r = s := by
  have hstr : str "," = [ofChar ','] := rfl
  induction xs generalizing ys with
  | nil =>
      cases ys with
      | nil => exact ⟨.nil, by simpa using h⟩
      | cons y ys =>
          simp only [hstr, List.flatMap_nil, List.nil_append, List.flatMap_cons,
            List.cons_append, List.cons.injEq] at h
          exact absurd h.1 hcomma
  | cons x xs ih =>
      cases ys with
      | nil =>
          simp only [hstr, List.flatMap_nil, List.nil_append, List.flatMap_cons,
            List.cons_append, List.cons.injEq] at h
          exact absurd h.1.symm hcomma
      | cons y ys =>
          simp only [List.flatMap_cons, List.append_assoc] at h
          have h' := List.append_cancel_left h
          obtain ⟨hxy, hrest⟩ :=
            hf x (by simp) y (by simp) (closes_flatMap hclose xs r)
              (closes_flatMap hclose ys s) h'
          obtain ⟨hall, hrs⟩ :=
            ih (fun a ha b hb => hf a (by simp [ha]) b (by simp [hb])) hrest
          exact ⟨.cons hxy hall, hrs⟩

/-- A joined text splits into its parts, when each part splits from what
follows it and none begins with the closing delimiter. -/
theorem join_peel {xs ys : List α} (hclose : isCloser close = true)
    (hcomma : close ≠ ofChar ',')
    (hhead : ∀ x, x ∈ xs ∨ x ∈ ys → ∃ c t, f x = c :: t ∧ c ≠ close)
    (hf : ∀ x ∈ xs, ∀ y ∈ ys, ∀ {r s}, Closes r → Closes s → f x ++ r = f y ++ s →
      R x y ∧ r = s) {r s : Str}
    (h : join (str ",") (xs.map f) ++ close :: r =
      join (str ",") (ys.map f) ++ close :: s) :
    List.Forall₂ R xs ys ∧ r = s := by
  cases xs with
  | nil =>
      cases ys with
      | nil => exact ⟨.nil, by simpa [join] using h⟩
      | cons y ys =>
          obtain ⟨c, t, hc, hne⟩ := hhead y (by simp)
          simp only [List.map_nil, join, List.nil_append, List.map_cons, join_cons, hc,
            List.cons_append, List.cons.injEq] at h
          exact absurd h.1.symm hne
  | cons x xs =>
      cases ys with
      | nil =>
          obtain ⟨c, t, hc, hne⟩ := hhead x (by simp)
          simp only [List.map_nil, join, List.nil_append, List.map_cons, join_cons, hc,
            List.cons_append, List.cons.injEq] at h
          exact absurd h.1 hne
      | cons y ys =>
          simp only [List.map_cons, join_cons, List.flatMap_map, List.append_assoc] at h
          obtain ⟨hxy, hrest⟩ :=
            hf x (by simp) y (by simp) (closes_flatMap hclose xs r)
              (closes_flatMap hclose ys s) h
          obtain ⟨hall, hrs⟩ := flatMap_peel hclose hcomma
            (fun a ha b hb => hf a (by simp [ha]) b (by simp [hb])) hrest
          exact ⟨.cons hxy hall, hrs⟩

end Join

/-- The text of `a` splits from what follows it: a value that prints the
same way up to a closing delimiter is equal to `a` as JSON. -/
def Peels (a : Value) : Prop :=
  ∀ b : Value, a.IsJson → b.IsJson → ∀ {r s : Str}, Closes r → Closes s →
    dumps a ++ r = dumps b ++ s → a.JsonEq b ∧ r = s

theorem kind_eq_of_append {a b : Value} {r s : Str} (h : dumps a ++ r = dumps b ++ s) :
    kind a = kind b := by
  obtain ⟨c, t, hc, hkc⟩ := dumps_head a
  obtain ⟨d, u, hd, hkd⟩ := dumps_head b
  rw [hc, hd, List.cons_append, List.cons_append, List.cons.injEq] at h
  rw [← hkc, ← hkd, h.1]

theorem dumps_not_closer (v : Value) {close : CodePoint} (hclose : isCloser close = true) :
    ∃ c t, dumps v = c :: t ∧ c ≠ close := by
  obtain ⟨c, t, hc, hk⟩ := dumps_head v
  refine ⟨c, t, hc, ?_⟩
  rintro rfl
  rw [kindOfHead_closer hclose] at hk
  cases v <;> simp [kind] at hk

theorem peels_list {xs : List Value} (ih : ∀ x ∈ xs, Peels x) : Peels (.list xs) := by
  intro b ha hb r s hr hs h
  have hk := kind_eq_of_append h
  cases b with
  | list ys =>
      rw [Value.isJson_list] at ha hb
      have hbracket : str "]" = [ofChar ']'] := rfl
      simp only [dumps, dumpsList_eq_map, hbracket, List.append_assoc, List.cons_append,
        List.nil_append] at h
      obtain ⟨hall, hrs⟩ := join_peel (R := Value.JsonEq)
        (show isCloser (ofChar ']') = true by decide) (by decide)
        (fun x _ => dumps_not_closer x (by decide))
        (fun x hx y hy _ _ hr' hs' => ih x hx y (ha x hx) (hb y hy) hr' hs')
        (List.append_cancel_left h)
      exact ⟨by simpa only [Value.JsonEq, Value.jsonEqList_iff] using hall, hrs⟩
  | tuple ys => simp [Value.IsJson] at hb
  | _ => simp [kind] at hk

/-- An object's items, as printed, are those of the object it equals. -/
theorem peels_dict {items : List (Str × Value)} (ih : ∀ kv ∈ items, Peels kv.2) :
    Peels (.dict items) := by
  intro b ha hb r s hr hs h
  have hk := kind_eq_of_append h
  cases b with
  | dict others =>
      rw [Value.isJson_dict] at ha hb
      have hbrace : str "\x7d" = [ofChar '}'] := rfl
      have hmem : ∀ {l : List (Str × Value)} {kv}, kv ∈ sortByKey l → kv ∈ l :=
        fun {l} {kv} hkv => (sortByKey_perm l).mem_iff.mp hkv
      have hitem : ∀ p ∈ sortByKey items, ∀ q ∈ sortByKey others, ∀ {r s : Str},
          Closes r → Closes s →
          printItem (p.1, dumps p.2) ++ r = printItem (q.1, dumps q.2) ++ s →
          (p.1 = q.1 ∧ p.2.JsonEq q.2) ∧ r = s := by
        intro p hp q hq r s hr hs hpq
        obtain ⟨hkp, hvp⟩ := ha.2 p (hmem hp)
        obtain ⟨hkq, hvq⟩ := hb.2 q (hmem hq)
        simp only [printItem, List.append_assoc] at hpq
        obtain ⟨hkey, hrest⟩ := encodeString_peel hkp hkq hpq
        obtain ⟨hv, hrs⟩ := ih p (hmem hp) q.2 hvp hvq hr hs (List.append_cancel_left hrest)
        exact ⟨⟨hkey, hv⟩, hrs⟩
      -- sorting the items and printing them commute
      simp only [dumps, dumpsItems_eq_map, sortByKey_map, List.map_map, hbrace,
        List.append_assoc, List.cons_append, List.nil_append] at h
      obtain ⟨hall, hrs⟩ := join_peel (R := fun p q => p.1 = q.1 ∧ p.2.JsonEq q.2)
        (show isCloser (ofChar '}') = true by decide) (by decide)
        (fun x _ => ⟨_, _, rfl, by decide⟩) hitem (List.append_cancel_left h)
      obtain ⟨aligned, hal, hperm⟩ :=
        List.perm_comp_forall₂ (sortByKey_perm items).symm hall
      exact ⟨Value.jsonEq_dict.mpr ⟨aligned, hperm.trans (sortByKey_perm others), hal⟩, hrs⟩
  | _ => simp [kind] at hk

/-- **Printed JSON data is unambiguous.** -/
theorem dumps_peel (a : Value) : Peels a := by
  induction a using Value.induct with
  | null =>
      intro b _ _ r s _ _ h
      have hk := kind_eq_of_append h
      cases b with
      | null => exact ⟨trivial, List.append_cancel_left h⟩
      | _ => simp [kind] at hk
  | bool x =>
      intro b _ _ r s _ _ h
      have hk := kind_eq_of_append h
      cases b with
      | bool y =>
          cases x <;> cases y
          · exact ⟨rfl, List.append_cancel_left h⟩
          · have hne : ofChar 'f' = ofChar 't' := (List.cons.inj h).1
            exact absurd hne (by decide)
          · have hne : ofChar 't' = ofChar 'f' := (List.cons.inj h).1
            exact absurd hne (by decide)
          · exact ⟨rfl, List.append_cancel_left h⟩
      | _ => simp [kind] at hk
  | num n =>
      intro b _ _ r s hr hs h
      have hk := kind_eq_of_append h
      cases b with
      | num m =>
          have hall : ∀ n : Num, n.text.all isNumChar = true := by
            intro n
            obtain ⟨text, ok⟩ := n
            cases text with
            | nil => rfl
            | cons c cs =>
                simp only [isNumText, Bool.and_eq_true] at ok
                exact ok.2
          obtain ⟨htext, hrs⟩ := class_peel (hall n) (hall m) hr.not_num hs.not_num h
          obtain ⟨nt, _⟩ := n
          obtain ⟨mt, _⟩ := m
          simp only at htext
          subst htext
          exact ⟨rfl, hrs⟩
      | _ => simp [kind] at hk
  | str t =>
      intro b ha hb r s _ _ h
      have hk := kind_eq_of_append h
      cases b with
      | str u => exact encodeString_peel ha hb h
      | _ => simp [kind] at hk
  | tuple xs ih => intro b ha; simp [Value.IsJson] at ha
  | list xs ih => exact peels_list ih
  | dict items ih => exact peels_dict ih

/-- **Canonical text determines JSON data** up to the order of object keys. -/
theorem dumps_inj {a b : Value} (ha : a.IsJson) (hb : b.IsJson) (h : dumps a = dumps b) :
    a.JsonEq b :=
  (dumps_peel a b ha hb (r := []) (s := []) trivial trivial (by simpa using h)).1

/-! ## Canonical text is ASCII -/

def IsAscii (s : Str) : Prop := ∀ c ∈ s, c.val < 0x80

instance (s : Str) : Decidable (IsAscii s) :=
  List.decidableBAll (fun c : CodePoint => c.val < 0x80) s

theorem isAscii_append {s t : Str} : IsAscii (s ++ t) ↔ IsAscii s ∧ IsAscii t := by
  simp [IsAscii, or_imp, forall_and]

theorem isAscii_flatMap {α : Type} {f : α → Str} {l : List α} (h : ∀ a ∈ l, IsAscii (f a)) :
    IsAscii (l.flatMap f) := by
  intro c hc
  obtain ⟨a, ha, hca⟩ := List.mem_flatMap.mp hc
  exact h a ha c hca

theorem isAscii_join {sep : Str} {parts : List Str} (hsep : IsAscii sep)
    (h : ∀ s ∈ parts, IsAscii s) : IsAscii (join sep parts) := by
  cases parts with
  | nil => simp [join, IsAscii]
  | cons s rest =>
      rw [join_cons, isAscii_append]
      exact ⟨h s (by simp), isAscii_flatMap fun t ht =>
        isAscii_append.mpr ⟨hsep, h t (by simp [ht])⟩⟩

theorem isAscii_hexDigit {d : Nat} (h : d < 16) : (hexDigit d).val < 0x80 := by
  have hall : ∀ d : Fin 16, (hexDigit d.val).val < 0x80 := by decide
  exact hall ⟨d, h⟩

theorem isAscii_unicodeEscape (n : Nat) : IsAscii (unicodeEscape n) := by
  refine isAscii_append.mpr ⟨by decide, ?_⟩
  intro c hc
  simp only [List.mem_cons, List.not_mem_nil, or_false] at hc
  rcases hc with rfl | rfl | rfl | rfl <;> exact isAscii_hexDigit (by omega)

theorem isAscii_escapeChar (c : CodePoint) : IsAscii (escapeChar c) := by
  unfold escapeChar
  split_ifs with _ _ _ _ _ _ _ hprint
  · decide
  · decide
  · decide
  · decide
  · decide
  · decide
  · decide
  · intro d hd
    rw [List.mem_singleton.mp hd]
    omega
  · exact isAscii_unicodeEscape _
  · exact isAscii_append.mpr ⟨isAscii_unicodeEscape _, isAscii_unicodeEscape _⟩

theorem isAscii_encodeString (s : Str) : IsAscii (encodeString s) := by
  simp only [encodeString, isAscii_append]
  exact ⟨⟨by decide, isAscii_flatMap fun c _ => isAscii_escapeChar c⟩, by decide⟩

theorem isAscii_num (n : Num) : IsAscii n.text := by
  obtain ⟨text, ok⟩ := n
  have hclass : ∀ c : CodePoint, isNumChar c = true → c.val < 0x80 := by
    intro c hc
    simp only [isNumChar, isDigit, inRange, oneOf, Bool.or_eq_true, Bool.and_eq_true,
      decide_eq_true_eq, List.contains_iff_mem] at hc
    rcases hc with hc | hc
    · have : '9'.toNat = 0x39 := rfl
      omega
    · exact (by decide : IsAscii (str "+-.eEINafinty")) c hc
  cases text with
  | nil => simp [IsAscii]
  | cons c cs =>
      simp only [isNumText, Bool.and_eq_true] at ok
      exact fun d hd => hclass d (List.all_eq_true.mp ok.2 d hd)

/-- `.encode("ascii")` never raises on canonical text. -/
theorem dumps_ascii (v : Value) : IsAscii (dumps v) := by
  induction v using Value.induct with
  | null => decide
  | bool b => cases b <;> decide
  | num n => exact isAscii_num n
  | str s => exact isAscii_encodeString s
  | list xs ih =>
      simp only [dumps, dumpsList_eq_map, isAscii_append]
      exact ⟨⟨by decide, isAscii_join (by decide) (by simpa using ih)⟩, by decide⟩
  | tuple xs ih =>
      simp only [dumps, dumpsList_eq_map, isAscii_append]
      exact ⟨⟨by decide, isAscii_join (by decide) (by simpa using ih)⟩, by decide⟩
  | dict items ih =>
      simp only [dumps, dumpsItems_eq_map, sortByKey_map, List.map_map, isAscii_append]
      refine ⟨⟨by decide, isAscii_join (by decide) fun s hs => ?_⟩, by decide⟩
      obtain ⟨kv, hkv, rfl⟩ := List.mem_map.mp hs
      have hkv' : kv ∈ items := (sortByKey_perm items).mem_iff.mp hkv
      simp only [Function.comp_apply, printItem, isAscii_append]
      exact ⟨⟨isAscii_encodeString _, by decide⟩, ih kv hkv'⟩

/-- `s.encode("ascii")`, for ASCII text. -/
def encodeAscii (s : Str) : List UInt8 := s.map fun c => UInt8.ofNat c.val

theorem encodeAscii_inj {s t : Str} (hs : IsAscii s) (ht : IsAscii t)
    (h : encodeAscii s = encodeAscii t) : s = t := by
  induction s generalizing t with
  | nil =>
      cases t with
      | nil => rfl
      | cons d t => simp [encodeAscii] at h
  | cons c s ih =>
      cases t with
      | nil => simp [encodeAscii] at h
      | cons d t =>
          simp only [encodeAscii, List.map_cons, List.cons.injEq] at h
          have hc := hs c (by simp)
          have hd := ht d (by simp)
          have hval : c.val % 256 = d.val % 256 := by
            simpa [UInt8.toNat_ofNat'] using congrArg UInt8.toNat h.1
          have hcd : c = d := Fin.ext (by omega)
          rw [hcd, ih (fun e he => hs e (List.mem_cons_of_mem _ he))
            (fun e he => ht e (List.mem_cons_of_mem _ he)) h.2]

end Py
