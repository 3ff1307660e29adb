import AgenticFirewall.Firewall.ScannerRules
import AgenticFirewall.Lib.Value

/-!
# Scanning a value

`scan_value` of `app/firewall/scanner.py`: a walk over a JSON-like value
with a budget of characters, a depth limit and an early stop. The walk is
proved equal to a fold over the texts and over-deep nodes it would visit
without stopping (`walk_eq_fold`).
-/

namespace AgenticFirewall

open Py

structure Finding where
  rule : RuleName
  category : Category
  location : Str
  deriving DecidableEq

structure ScanResult where
  findings : List Finding := []

namespace ScanResult

def blocked (r : ScanResult) : Bool := !r.findings.isEmpty

/-- How `summary` shows one finding. -/
def shown (f : Finding) : Str :=
  f.category.text ++ str "/" ++ f.rule.text ++ str " at " ++ f.location

/-- `summary()`: at most five findings, and how many more there are. -/
def summary (r : ScanResult) : Str :=
  let limit : Nat := 5
  let extra : Int := r.findings.length - limit
  join (str "; ") ((r.findings.take limit).map shown ++
    (if 0 < extra then [str "and " ++ intStr extra ++ str " more"] else []))

end ScanResult

/-- `_State` -/
structure ScanState where
  budget : Int
  findings : List Finding := []
  stop : Bool := false

/-- The two limits, and the `scan_text` the walk applies to each string. -/
structure Scanner where
  maxChars : Nat := 1000000
  maxDepth : Nat := 20
  scanText : Direction → Str → List Hit

namespace Scanner

/-- The scanner of the rule table. -/
def ofRules (u : Unicode) (maxChars : Nat) : Scanner :=
  { maxChars, scanText := AgenticFirewall.scanText u }

variable (s : Scanner) (direction : Direction)

/-- `_scan_string` -/
def scanString (text loc : Str) (st : ScanState) : ScanState :=
  let budget := st.budget - (text.length + 1)
  if budget < 0 then
    { budget, findings := st.findings ++ [⟨.oversizedPayload, .resourceAbuse, loc⟩], stop := true }
  else
    { st with
      budget
      findings := st.findings ++
        (s.scanText direction text).map fun h => ⟨h.rule, h.category, loc⟩ }

/-- How `_walk` starts at every node: nothing after a stop, and a stop
below the depth limit. -/
def enter (loc : Str) (depth : Nat) (st : ScanState) (body : ScanState → ScanState) : ScanState :=
  if st.stop then st
  else if s.maxDepth < depth then
    { st with
      findings := st.findings ++ [⟨.excessiveNesting, .resourceAbuse, loc⟩]
      stop := true }
  else body st

/-- Where the key of an entry is reported. -/
def keyLoc (loc : Str) : Str := loc ++ str ".<key>"

/-- Where what lies under a key is reported: 40 characters of the key. -/
def itemLoc (loc key : Str) : Str := loc ++ str "." ++ key.take 40

/-- Where an element of a list is reported. -/
def indexLoc (loc : Str) (i : Nat) : Str := loc ++ str "[" ++ intStr i ++ str "]"

mutual
/-- `_walk` -/
def walk : Value → Str → Nat → ScanState → ScanState
  | .null, loc, depth, st => s.enter loc depth st fun st => st
  | .bool _, loc, depth, st => s.enter loc depth st fun st => st
  | .num _, loc, depth, st => s.enter loc depth st fun st => st
  | .dict items, loc, depth, st => s.enter loc depth st fun st => walkItems items loc depth st
  | .list xs, loc, depth, st => s.enter loc depth st fun st => walkList xs 0 loc depth st
  | .tuple xs, loc, depth, st => s.enter loc depth st fun st => walkList xs 0 loc depth st
  | .str text, loc, depth, st => s.enter loc depth st fun st => s.scanString direction text loc st
termination_by structural v => v

/-- The loop over the entries of a mapping. -/
def walkItems : List (Str × Value) → Str → Nat → ScanState → ScanState
  | [], _, _, st => st
  | (key, item) :: rest, loc, depth, st =>
      let st := s.scanString direction key (keyLoc loc) st
      if st.stop then st
      else
        let st := walk item (itemLoc loc key) (depth + 1) st
        if st.stop then st else walkItems rest loc depth st
termination_by structural items => items

/-- The loop over the elements of a list, from index `i`. -/
def walkList : List Value → Nat → Str → Nat → ScanState → ScanState
  | [], _, _, _, st => st
  | item :: rest, i, loc, depth, st =>
      let st := walk item (indexLoc loc i) (depth + 1) st
      if st.stop then st else walkList rest (i + 1) loc depth st
termination_by structural xs => xs
end

def scanValue (value : Value) (root : Str) : ScanResult :=
  ⟨(s.walk direction value root 0 { budget := s.maxChars }).findings⟩

/-! ## What the walk visits -/

/-- A string the walk scans, or a node below the depth limit. -/
inductive Visit where
  | text (s : Str)
  | deep

/-- One step down to a visited position. -/
inductive PathStep where
  /-- the key of an entry itself -/
  | ownKey
  /-- what lies under a key -/
  | item (key : Str)
  | index (i : Nat)

abbrev Path := List PathStep

/-- The location of a step from `loc`. -/
def PathStep.locate (loc : Str) : PathStep → Str
  | .ownKey => keyLoc loc
  | .item key => itemLoc loc key
  | .index i => indexLoc loc i

/-- The location of a position under `loc`. -/
def locate (loc : Str) (path : Path) : Str := path.foldl PathStep.locate loc

/-- Visits one step further down. -/
def under (step : PathStep) (vs : List (Visit × Path)) : List (Visit × Path) :=
  vs.map fun v => (v.1, step :: v.2)

/-- The visits of a node at `depth`, given those inside it. -/
def guardDepth (depth : Nat) (vs : List (Visit × Path)) : List (Visit × Path) :=
  if s.maxDepth < depth then [(.deep, [])] else vs

mutual
/-- What a walk that never stopped would visit, in order. -/
def visits : Value → Nat → List (Visit × Path)
  | .null, depth => s.guardDepth depth []
  | .bool _, depth => s.guardDepth depth []
  | .num _, depth => s.guardDepth depth []
  | .dict items, depth => s.guardDepth depth (visitsItems items depth)
  | .list xs, depth => s.guardDepth depth (visitsList xs 0 depth)
  | .tuple xs, depth => s.guardDepth depth (visitsList xs 0 depth)
  | .str text, depth => s.guardDepth depth [(.text text, [])]
termination_by structural v => v

def visitsItems : List (Str × Value) → Nat → List (Visit × Path)
  | [], _ => []
  | (key, item) :: rest, depth =>
      (.text key, [.ownKey]) ::
        (under (.item key) (visits item (depth + 1)) ++ visitsItems rest depth)
termination_by structural items => items

def visitsList : List Value → Nat → Nat → List (Visit × Path)
  | [], _, _ => []
  | item :: rest, i, depth =>
      under (.index i) (visits item (depth + 1)) ++ visitsList rest (i + 1) depth
termination_by structural xs => xs
end

/-- One visit of a position under `loc`; none after a stop. -/
def visit (loc : Str) (st : ScanState) (v : Visit × Path) : ScanState :=
  if st.stop then st
  else
    match v.1 with
    | .text text => s.scanString direction text (locate loc v.2) st
    | .deep =>
        { st with
          findings := st.findings ++ [⟨.excessiveNesting, .resourceAbuse, locate loc v.2⟩]
          stop := true }

theorem foldl_visit_stop {st : ScanState} (h : st.stop = true) (loc : Str)
    (vs : List (Visit × Path)) : vs.foldl (s.visit direction loc) st = st := by
  induction vs with
  | nil => rfl
  | cons v vs ih =>
      rw [List.foldl_cons, show s.visit direction loc st v = st by simp [visit, h], ih]

theorem foldl_visit_under (step : PathStep) (loc : Str) (vs : List (Visit × Path))
    (st : ScanState) :
    (under step vs).foldl (s.visit direction loc) st =
      vs.foldl (s.visit direction (step.locate loc)) st := by
  simp only [under, List.foldl_map]
  rfl

/-- What `enter` does before the inside of a node, as visits. -/
theorem enter_eq_fold {body : ScanState → ScanState} {vs : List (Visit × Path)} {loc : Str}
    (h : ∀ st, st.stop = false → body st = vs.foldl (s.visit direction loc) st)
    (depth : Nat) (st : ScanState) :
    s.enter loc depth st body =
      (s.guardDepth depth vs).foldl (s.visit direction loc) st := by
  unfold enter guardDepth
  by_cases hs : st.stop = true
  · rw [if_pos hs, foldl_visit_stop s direction hs]
  · rw [if_neg hs]
    by_cases hd : s.maxDepth < depth
    · simp [hd, visit, hs, locate]
    · simp only [hd, if_false]
      exact h st (by simpa using hs)

/-- A node with nothing inside. -/
theorem enter_scalar (loc : Str) (depth : Nat) (st : ScanState) :
    s.enter loc depth st (fun st => st) =
      (s.guardDepth depth []).foldl (s.visit direction loc) st := by
  refine s.enter_eq_fold direction (fun st _ => ?_) depth st
  rfl

theorem walkList_eq_fold {xs : List Value}
    (ih : ∀ x ∈ xs, ∀ loc depth st, s.walk direction x loc depth st =
      (s.visits x depth).foldl (s.visit direction loc) st)
    (i : Nat) (loc : Str) (depth : Nat) (st : ScanState) :
    s.walkList direction xs i loc depth st =
      (s.visitsList xs i depth).foldl (s.visit direction loc) st := by
  induction xs generalizing i st with
  | nil => rfl
  | cons x xs ihxs =>
      simp only [walkList, visitsList, List.foldl_append, foldl_visit_under]
      rw [show PathStep.locate loc (.index i) = indexLoc loc i from rfl, ← ih x (by simp)]
      split
      · rename_i hstop
        rw [foldl_visit_stop s direction hstop]
      · exact ihxs (fun y hy => ih y (by simp [hy])) _ _

theorem walkItems_eq_fold {items : List (Str × Value)}
    (ih : ∀ kv ∈ items, ∀ loc depth st, s.walk direction kv.2 loc depth st =
      (s.visits kv.2 depth).foldl (s.visit direction loc) st)
    (loc : Str) (depth : Nat) (st : ScanState) (hst : st.stop = false) :
    s.walkItems direction items loc depth st =
      (s.visitsItems items depth).foldl (s.visit direction loc) st := by
  induction items generalizing st with
  | nil => rfl
  | cons kv items ihitems =>
      obtain ⟨key, item⟩ := kv
      simp only [walkItems, visitsItems, List.foldl_cons, List.foldl_append, foldl_visit_under]
      rw [show s.visit direction loc st (.text key, [.ownKey]) =
        s.scanString direction key (keyLoc loc) st by simp [visit, hst, locate, PathStep.locate]]
      split
      · rename_i hstop
        rw [foldl_visit_stop s direction hstop, foldl_visit_stop s direction hstop]
      · rw [show PathStep.locate loc (.item key) = itemLoc loc key from rfl,
          ← ih (key, item) (by simp)]
        split
        · rename_i hstop
          rw [foldl_visit_stop s direction hstop]
        · rename_i hstop
          exact ihitems (fun kv hkv => ih kv (by simp [hkv])) _ (by simpa using hstop)

/-- **The walk is a fold** over its visits. -/
theorem walk_eq_fold (v : Value) :
    ∀ loc depth st, s.walk direction v loc depth st =
      (s.visits v depth).foldl (s.visit direction loc) st := by
  induction v using Value.induct with
  | null => exact s.enter_scalar direction
  | bool b => exact s.enter_scalar direction
  | num n => exact s.enter_scalar direction
  | str text =>
      intro loc depth st
      refine s.enter_eq_fold direction (fun st hst => ?_) depth st
      simp [visit, hst, locate]
  | list xs ih =>
      intro loc depth st
      exact s.enter_eq_fold direction
        (fun st _ => s.walkList_eq_fold direction ih 0 loc depth st) depth st
  | tuple xs ih =>
      intro loc depth st
      exact s.enter_eq_fold direction
        (fun st _ => s.walkList_eq_fold direction ih 0 loc depth st) depth st
  | dict items ih =>
      intro loc depth st
      exact s.enter_eq_fold direction
        (fun st hst => s.walkItems_eq_fold direction ih loc depth st hst) depth st

/-! ## What the walk reports -/

/-- The rules reported at each position the walk reaches, in order; it ends
where the walk stops. -/
def reports : Int → List (Visit × Path) → List (List Hit × Path)
  | _, [] => []
  | _, (.deep, path) :: _ => [([⟨.excessiveNesting, .resourceAbuse⟩], path)]
  | budget, (.text text, path) :: rest =>
      let budget := budget - (text.length + 1)
      if budget < 0 then [([⟨.oversizedPayload, .resourceAbuse⟩], path)]
      else (s.scanText direction text, path) :: reports budget rest

/-- The findings of one report. -/
def located (root : Str) (r : List Hit × Path) : List Finding :=
  r.1.map fun h => ⟨h.rule, h.category, locate root r.2⟩

theorem foldl_visit_findings (root : Str) (vs : List (Visit × Path)) (st : ScanState)
    (hst : st.stop = false) :
    (vs.foldl (s.visit direction root) st).findings =
      st.findings ++ (s.reports direction st.budget vs).flatMap (located root) := by
  induction vs generalizing st with
  | nil => simp [reports]
  | cons v vs ih =>
      obtain ⟨w, path⟩ := v
      cases w with
      | deep =>
          simp only [List.foldl_cons, reports, visit, hst, Bool.false_eq_true, if_false]
          rw [foldl_visit_stop s direction rfl]
          simp [located]
      | text text =>
          simp only [List.foldl_cons, reports, visit, hst, Bool.false_eq_true, if_false,
            scanString]
          split
          · rw [foldl_visit_stop s direction rfl]
            simp [located]
          · rw [ih _ rfl]
            simp [located]

/-- **The findings** of a scan are its reports, located. -/
theorem scanValue_findings (v : Value) (root : Str) :
    (s.scanValue direction v root).findings =
      (s.reports direction s.maxChars (s.visits v 0)).flatMap (located root) := by
  simp only [scanValue, walk_eq_fold]
  rw [foldl_visit_findings s direction root _ _ rfl]
  simp

theorem scanValue_blocked (v : Value) (root : Str) :
    (s.scanValue direction v root).blocked = true ↔
      ∃ r ∈ s.reports direction s.maxChars (s.visits v 0), r.1 ≠ [] := by
  simp only [ScanResult.blocked, scanValue_findings, Bool.not_eq_true', List.isEmpty_eq_false_iff,
    ne_eq, List.flatMap_eq_nil_iff, not_forall, located, List.map_eq_nil_iff, exists_prop]

end Scanner

end AgenticFirewall
