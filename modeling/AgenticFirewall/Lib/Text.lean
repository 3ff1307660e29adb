import Mathlib.Data.Int.Log
import Mathlib.Data.Rat.Floor

/-!
# Text

Python's `str`: a list of code points, lone surrogates included. The
character classes the patterns use, which texts UTF-8 can encode, the
`surrogatepass` encoding, and the number formats f-strings use.
-/

namespace Py

/-- A code point, surrogates included. -/
abbrev CodePoint := Fin 0x110000

/-- A Python `str`. -/
abbrev Str := List CodePoint

-- named, so that a literal or a comparison of texts carries no proof of its own
instance instNeZeroCodePoint : NeZero 0x110000 := ⟨by decide⟩

instance instLawfulBEqStr : LawfulBEq Str := inferInstance

def ofChar (c : Char) : CodePoint :=
  ⟨c.toNat, by
    have h := c.valid
    simp only [UInt32.isValidChar, Nat.isValidChar] at h
    show c.val.toNat < _
    omega⟩

/-- The `str` a literal of this file denotes. -/
def str (s : String) : Str := s.toList.map ofChar

/-! ## Character classes -/

/-- The class `[a-b]` of a pattern. -/
def inRange (a b : Char) (c : CodePoint) : Bool :=
  decide (a.toNat ≤ c.val) && decide (c.val ≤ b.toNat)

def isLower (c : CodePoint) : Bool := inRange 'a' 'z' c

def isUpper (c : CodePoint) : Bool := inRange 'A' 'Z' c

def isDigit (c : CodePoint) : Bool := inRange '0' '9' c

/-- `[A-Za-z0-9]`. -/
def isAsciiAlnum (c : CodePoint) : Bool := isUpper c || isLower c || isDigit c

/-- One of the characters of `s`, as in the class `[s]`. -/
def oneOf (s : String) (c : CodePoint) : Bool := (str s).contains c

/-- `str.lower` on ASCII text. -/
def lowerAscii (c : CodePoint) : CodePoint :=
  if isUpper c then Fin.ofNat 0x110000 (c.val + 32) else c

theorem val_le_of_isUpper {c : CodePoint} (h : isUpper c = true) : 0x41 ≤ c.val ∧ c.val ≤ 0x5A := by
  simp only [isUpper, inRange, Bool.and_eq_true, decide_eq_true_eq] at h
  exact h

theorem val_lowerAscii {c : CodePoint} (h : isUpper c = true) :
    (lowerAscii c).val = c.val + 32 := by
  have hle := (val_le_of_isUpper h).2
  rw [lowerAscii, if_pos h]
  exact Nat.mod_eq_of_lt (by omega)

/-! ## Hexadecimal digits -/

/-- Lowercase hexadecimal digit. -/
def hexDigit (d : Nat) : CodePoint :=
  Fin.ofNat 0x110000 (if d < 10 then 0x30 + d else 0x57 + d)

/-- The value of a hexadecimal digit. -/
def hexVal (c : CodePoint) : Nat := if c.val < 0x3A then c.val - 0x30 else c.val - 0x57

theorem hexVal_hexDigit {d : Nat} (h : d < 16) : hexVal (hexDigit d) = d := by
  have hall : ∀ d : Fin 16, hexVal (hexDigit d.val) = d.val := by decide
  exact hall ⟨d, h⟩

/-- `[0-9a-f]`. -/
def isHexDigit (c : CodePoint) : Bool := isDigit c || inRange 'a' 'f' c

theorem isHexDigit_hexDigit {d : Nat} (h : d < 16) : isHexDigit (hexDigit d) = true := by
  have hall : ∀ d : Fin 16, isHexDigit (hexDigit d.val) = true := by decide
  exact hall ⟨d, h⟩

/-! ## Surrogates and UTF-8 -/

/-- A code point of the surrogate block: no UTF-8 text holds one. -/
def isSurrogate (c : CodePoint) : Bool :=
  decide (0xD800 ≤ c.val) && decide (c.val ≤ 0xDFFF)

/-- `s.encode("utf-8")` does not raise. -/
def Encodable (s : Str) : Prop := ∀ c ∈ s, isSurrogate c = false

instance (s : Str) : Decidable (Encodable s) :=
  List.decidableBAll (fun c => isSurrogate c = false) s

theorem isSurrogate_ofChar (c : Char) : isSurrogate (ofChar c) = false := by
  have h := c.valid
  simp only [UInt32.isValidChar, Nat.isValidChar] at h
  have hv : (ofChar c).val = c.val.toNat := rfl
  simp only [isSurrogate, hv, Bool.and_eq_false_iff, decide_eq_false_iff_not]
  omega

@[simp] theorem encodable_nil : Encodable [] := by simp [Encodable]

@[simp] theorem encodable_str (s : String) : Encodable (str s) := by
  intro c hc
  obtain ⟨d, _, rfl⟩ := List.mem_map.mp hc
  exact isSurrogate_ofChar d

@[simp] theorem encodable_append {s t : Str} :
    Encodable (s ++ t) ↔ Encodable s ∧ Encodable t := by
  simp [Encodable, or_imp, forall_and]

theorem Encodable.mono {s t : Str} (h : Encodable s) (hs : ∀ c ∈ t, c ∈ s) :
    Encodable t :=
  fun c hc => h c (hs c hc)

/-- A text of one ASCII class, as a pattern such as `[A-Za-z0-9_]+`
matches it, is encodable. -/
theorem encodable_of_class {p : CodePoint → Bool} {s : Str}
    (hp : ∀ c, p c = true → c.val < 0x80) (hs : s.all p = true) : Encodable s := by
  intro c hc
  have hlt := hp c (List.all_eq_true.mp hs c hc)
  simp only [isSurrogate, Bool.and_eq_false_iff, decide_eq_false_iff_not]
  omega

theorem lt_of_isAsciiAlnum {c : CodePoint} (h : isAsciiAlnum c = true) : c.val < 0x80 := by
  have hz : 'z'.toNat = 0x7A := rfl
  have hZ : 'Z'.toNat = 0x5A := rfl
  have h9 : '9'.toNat = 0x39 := rfl
  simp only [isAsciiAlnum, isUpper, isLower, isDigit, inRange, Bool.or_eq_true,
    Bool.and_eq_true, decide_eq_true_eq] at h
  omega

/-- So is one of letters, digits and the characters of a literal. -/
theorem encodable_of_alnum {extra : String} {s : Str}
    (h : s.all (fun c => isAsciiAlnum c || oneOf extra c) = true) : Encodable s := by
  intro c hc
  rcases (Bool.or_eq_true _ _).mp (List.all_eq_true.mp h c hc) with halnum | hextra
  · have hlt := lt_of_isAsciiAlnum halnum
    simp only [isSurrogate, Bool.and_eq_false_iff, decide_eq_false_iff_not]
    omega
  · exact encodable_str extra c (List.contains_iff_mem.mp hextra)

/-- The UTF-8 bytes of one code point; a surrogate takes its three bytes
as any other code point of its range does (`surrogatepass`). -/
def utf8 (c : CodePoint) : List UInt8 :=
  let n := c.val
  if n < 0x80 then [UInt8.ofNat n]
  else if n < 0x800 then [UInt8.ofNat (0xC0 + n / 0x40), UInt8.ofNat (0x80 + n % 0x40)]
  else if n < 0x10000 then
    [UInt8.ofNat (0xE0 + n / 0x1000), UInt8.ofNat (0x80 + n / 0x40 % 0x40),
      UInt8.ofNat (0x80 + n % 0x40)]
  else
    [UInt8.ofNat (0xF0 + n / 0x40000), UInt8.ofNat (0x80 + n / 0x1000 % 0x40),
      UInt8.ofNat (0x80 + n / 0x40 % 0x40), UInt8.ofNat (0x80 + n % 0x40)]

/-- `s.encode("utf-8", "surrogatepass")`. -/
def encodeSurrogatepass (s : Str) : List UInt8 := s.flatMap utf8

/-- The encoding of a code point ends where its first byte says. -/
theorem utf8_append_inj {c d : CodePoint} {s t : List UInt8} (h : utf8 c ++ s = utf8 d ++ t) :
    c = d ∧ s = t := by
  have hbyte : ∀ {a b : Nat}, UInt8.ofNat a = UInt8.ofNat b → a % 256 = b % 256 := by
    intro a b hab
    simpa using congrArg UInt8.toNat hab
  have hc := c.isLt
  have hd := d.isLt
  unfold utf8 at h
  simp only at h
  split_ifs at h
  all_goals simp only [List.cons_append, List.nil_append, List.cons.injEq] at h
  -- encodings of different lengths differ in their first byte
  any_goals
    have hlead := hbyte h.1
    omega
  · obtain ⟨h₀, h⟩ := h
    have := hbyte h₀
    exact ⟨Fin.ext (by omega), h⟩
  · obtain ⟨h₀, h₁, h⟩ := h
    have := hbyte h₀
    have := hbyte h₁
    exact ⟨Fin.ext (by omega), h⟩
  · obtain ⟨h₀, h₁, h₂, h⟩ := h
    have := hbyte h₀
    have := hbyte h₁
    have := hbyte h₂
    exact ⟨Fin.ext (by omega), h⟩
  · obtain ⟨h₀, h₁, h₂, h₃, h⟩ := h
    have := hbyte h₀
    have := hbyte h₁
    have := hbyte h₂
    have := hbyte h₃
    exact ⟨Fin.ext (by omega), h⟩

theorem utf8_ne_nil (c : CodePoint) : utf8 c ≠ [] := by
  unfold utf8
  simp only
  split_ifs
  all_goals simp

theorem encodeSurrogatepass_injective : Function.Injective encodeSurrogatepass := by
  intro s
  induction s with
  | nil =>
      intro t h
      cases t with
      | nil => rfl
      | cons d t => exact absurd (List.append_eq_nil_iff.mp h.symm).1 (utf8_ne_nil d)
  | cons c s ih =>
      intro t h
      cases t with
      | nil => exact absurd (List.append_eq_nil_iff.mp h).1 (utf8_ne_nil c)
      | cons d t =>
          obtain ⟨rfl, hrest⟩ := utf8_append_inj h
          rw [ih hrest]

/-! ## Building text -/

/-- `sep.join(parts)`. -/
def join (sep : Str) : List Str → Str
  | [] => []
  | [s] => s
  | s :: t :: rest => s ++ sep ++ join sep (t :: rest)

theorem encodable_join {sep : Str} {parts : List Str} (hsep : Encodable sep)
    (h : ∀ s ∈ parts, Encodable s) : Encodable (join sep parts) := by
  induction parts with
  | nil => simp [join]
  | cons s rest ih =>
      cases rest with
      | nil => exact h s (by simp)
      | cons t rest =>
          simp only [join, encodable_append]
          exact ⟨⟨h s (by simp), hsep⟩, ih (fun u hu => h u (by simp [hu]))⟩

/-- `str(n)` of an int. -/
def intStr (n : Int) : Str := str (toString n)

/-- Drop the trailing zeros of a digit string, as `%g` does. -/
def stripZeros (ds : List Char) : List Char :=
  (ds.reverse.dropWhile (· == '0')).reverse

/-- `{q:g}`: six significant digits, ties to even, trailing zeros dropped,
exponent form below `1e-4` and from `1e6` on. -/
def formatG (q : ℚ) : Str :=
  if q = 0 then str "0" else
  let a := |q|
  let e₀ := Int.log 10 a
  -- the six digits, rounded; `999999.5` carries into the next decade
  let scaled := a / 10 ^ (e₀ - 5)
  let fl := scaled.floor
  let up := decide (1 / 2 < scaled - fl) || (decide (scaled - fl = 1 / 2) && fl % 2 == 1)
  let n₀ := if up then fl + 1 else fl
  let (e, n) := if n₀ = 1000000 then (e₀ + 1, 100000) else (e₀, n₀)
  let ds := (toString n).toList
  let body :=
    if e < -4 ∨ 6 ≤ e then
      let frac := stripZeros (ds.drop 1)
      let mantissa := ds.take 1 ++ (if frac.isEmpty then [] else '.' :: frac)
      let digits := (toString e.natAbs).toList
      mantissa ++ ['e', if e < 0 then '-' else '+'] ++
        (if digits.length < 2 then '0' :: digits else digits)
    else if e < 0 then
      "0.".toList ++ List.replicate (e.natAbs - 1) '0' ++ stripZeros ds
    else
      let frac := stripZeros (ds.drop (e.toNat + 1))
      ds.take (e.toNat + 1) ++ (if frac.isEmpty then [] else '.' :: frac)
  (if q < 0 then ['-'] else []).map ofChar ++ body.map ofChar

theorem encodable_map_ofChar (cs : List Char) : Encodable (cs.map ofChar) := by
  intro c hc
  obtain ⟨d, _, rfl⟩ := List.mem_map.mp hc
  exact isSurrogate_ofChar d

@[simp] theorem encodable_intStr (n : Int) : Encodable (intStr n) := encodable_str _

@[simp] theorem encodable_formatG (q : ℚ) : Encodable (formatG q) := by
  unfold formatG
  split
  · exact encodable_str _
  · exact encodable_append.mpr ⟨encodable_map_ofChar _, encodable_map_ofChar _⟩

end Py
