import AgenticFirewall.Lib.Text

/-!
# Patterns

The part of Python's `re` the rule table needs, as syntax and an
executable matcher. A position is the text before it (reversed) and after
it; a pattern denotes the set of positions where a match from a given one
can end. Only whether some match exists is ever asked (`search`), so
greediness and the order of alternatives play no role.
-/

namespace Py

/-- What `re` and `unicodedata` know about characters past ASCII. -/
structure Unicode where
  /-- `str.isalnum` -/
  isAlnum : CodePoint → Bool
  /-- `unicodedata.normalize("NFKC", ·)` -/
  nfkc : Str → Str
  isAlnum_ascii : ∀ c : CodePoint, c.val < 0x80 → isAlnum c = isAsciiAlnum c
  nfkc_ascii : ∀ s : Str, (∀ c ∈ s, c.val < 0x80) → nfkc s = s

/-- The tables of a text that stays within ASCII. -/
def Unicode.ascii : Unicode where
  isAlnum := isAsciiAlnum
  nfkc s := s
  isAlnum_ascii _ _ := rfl
  nfkc_ascii _ _ := rfl

/-- `\w`. -/
def Unicode.isWord (u : Unicode) (c : CodePoint) : Bool := u.isAlnum c || oneOf "_" c

/-- `\s`: the characters `str.isspace` accepts. -/
def isSpace (c : CodePoint) : Bool :=
  let n := c.val
  (decide (0x09 ≤ n) && decide (n ≤ 0x0D)) || (decide (0x1C ≤ n) && decide (n ≤ 0x20)) ||
    n == 0x85 || n == 0xA0 || n == 0x1680 || (decide (0x2000 ≤ n) && decide (n ≤ 0x200A)) ||
    n == 0x2028 || n == 0x2029 || n == 0x202F || n == 0x205F || n == 0x3000

/-- Case folding as `re.IGNORECASE` compares an ASCII letter of a pattern:
besides the other case, `İ` and `ı` match `i`, `ſ` matches `s` and the
Kelvin sign matches `k`. -/
def foldCase (c : CodePoint) : CodePoint :=
  if c.val = 0x130 ∨ c.val = 0x131 then ofChar 'i'
  else if c.val = 0x17F then ofChar 's'
  else if c.val = 0x212A then ofChar 'k'
  else lowerAscii c

inductive Pattern where
  /-- one character of a class -/
  | set (p : CodePoint → Bool)
  | eps
  | seq (a b : Pattern)
  | alt (a b : Pattern)
  /-- `r{lo,hi}`; no `hi` is `r{lo,}` -/
  | rep (r : Pattern) (lo : Nat) (hi : Option Nat)
  /-- `\b` -/
  | boundary
  /-- `(?<![p])` -/
  | notBehind (p : CodePoint → Bool)
  /-- `(?!r)` -/
  | notAhead (r : Pattern)

/-- A position in a text. -/
structure Cursor where
  before : Str
  after : Str

namespace Pattern

/-- `n` further matches of one step. -/
def iterate (step : Cursor → List Cursor) : Nat → List Cursor → List Cursor
  | 0, cs => cs
  | n + 1, cs => iterate step n (cs.flatMap step)

/-- At most `n` further matches of one step. -/
def upTo (step : Cursor → List Cursor) : Nat → List Cursor → List Cursor
  | 0, cs => cs
  | n + 1, cs => if cs.isEmpty then [] else cs ++ upTo step n (cs.flatMap step)

def isBoundary (u : Unicode) (c : Cursor) : Bool :=
  (c.before.head?.any u.isWord) != (c.after.head?.any u.isWord)

/-- Where a match that starts at a position can end. An unbounded
repetition consumes at least one character each time in every pattern
used here, so the length of the rest bounds it. -/
def ends (u : Unicode) : Pattern → Cursor → List Cursor
  | .set p, ⟨before, after⟩ =>
      match after with
      | [] => []
      | c :: rest => if p c then [⟨c :: before, rest⟩] else []
  | .eps, c => [c]
  | .seq a b, c => (ends u a c).flatMap (ends u b)
  | .alt a b, c => ends u a c ++ ends u b c
  | .rep r lo hi, c =>
      let n := match hi with
        | some hi => hi - lo
        | none => c.after.length
      upTo (ends u r) n (iterate (ends u r) lo [c])
  | .boundary, c => if isBoundary u c then [c] else []
  | .notBehind p, c => if c.before.head?.any p then [] else [c]
  | .notAhead r, c => if (ends u r c).isEmpty then [c] else []

/-- Does the pattern match somewhere at or after this position? -/
def searchFrom (u : Unicode) (r : Pattern) (before : Str) : Str → Bool
  | [] => !(ends u r ⟨before, []⟩).isEmpty
  | c :: rest => !(ends u r ⟨before, c :: rest⟩).isEmpty || searchFrom u r (c :: before) rest

/-- `pattern.search(text)` finds a match. -/
def search (u : Unicode) (r : Pattern) (text : Str) : Bool := searchFrom u r [] text

/-! ## Notation for the rule table -/

def seqs : List Pattern → Pattern
  | [] => .eps
  | [r] => r
  | r :: rs => .seq r (seqs rs)

def alts : List Pattern → Pattern
  | [] => .set fun _ => false
  | [r] => r
  | r :: rs => .alt r (alts rs)

def opt (r : Pattern) : Pattern := .rep r 0 (some 1)

def star (r : Pattern) : Pattern := .rep r 0 none

def plus (r : Pattern) : Pattern := .rep r 1 none

/-- A literal, case ignored. -/
def lit (s : String) : Pattern :=
  seqs ((str s).map fun c => .set fun d => foldCase d == foldCase c)

/-- `a|b|c` of literals. -/
def words (ws : List String) : Pattern := alts (ws.map lit)

/-- `[A-Za-z0-9]` and the characters of `extra`, case ignored. -/
def alnumOr (extra : String) (c : CodePoint) : Bool :=
  isAsciiAlnum (foldCase c) || oneOf extra c

/-- `[^s]`. -/
def noneOf (s : String) (c : CodePoint) : Bool := !(oneOf s c)

/-- `\s*` and `\s+`. -/
def ws0 : Pattern := star (.set isSpace)

def ws1 : Pattern := plus (.set isSpace)

end Pattern

end Py
