import Mathlib.Data.List.Basic

/-!
# Reading a list page by page

A client asks a server for page after page, each with the cursor the page
before gave it, and stops at a page without one or after a number of pages
that it fixes. The server is any function of the cursor and a state of its
own: it may repeat pages, name cursors it never honours, or go on forever.
-/

namespace Paging

variable {σ κ β ε : Type}

/-- A server: the page at a cursor (`none` asks for the first one) and the
cursor of the next page, or an exception. -/
abbrev Server (σ κ β ε : Type) := Option κ → σ → Except ε (List β × Option κ) × σ

/-- The client, with `n` pages to go and what it has read so far. -/
def collect (serve : Server σ κ β ε) : Nat → Option κ → List β → σ → Except ε (List β) × σ
  | 0, _, items, s => (.ok items, s)
  | n + 1, cursor, items, s =>
      match serve cursor s with
      | (.error e, s) => (.error e, s)
      | (.ok (page, none), s) => (.ok (items ++ page), s)
      | (.ok (page, some c), s) => collect serve n (some c) (items ++ page) s

/-- The server gives these pages one after the other, the last one with
cursor `next`. -/
inductive Served (serve : Server σ κ β ε) :
    Option κ → σ → List (List β) → Option κ → σ → Prop where
  | one {cursor next : Option κ} {s s' : σ} {page : List β}
      (h : serve cursor s = (.ok (page, next), s')) : Served serve cursor s [page] next s'
  | more {cursor next : Option κ} {s s₁ s' : σ} {page : List β} {pages : List (List β)} {c : κ}
      (h : serve cursor s = (.ok (page, some c), s₁))
      (hrest : Served serve (some c) s₁ pages next s') :
      Served serve cursor s (page :: pages) next s'

variable {serve : Server σ κ β ε} {n : Nat} {cursor : Option κ} {items : List β} {s s' : σ}

/-- **What the client returns**: the pages it was served, in order, up to
the one without a cursor or to its limit. -/
theorem collect_ok_iff {all : List β} :
    collect serve (n + 1) cursor items s = (.ok all, s') ↔
      ∃ pages next, Served serve cursor s pages next s' ∧ all = items ++ pages.flatten ∧
        (next = none ∧ pages.length ≤ n + 1 ∨ pages.length = n + 1) := by
  constructor
  · intro h
    induction n generalizing cursor items s with
    | zero =>
        rw [collect] at h
        split at h
        · cases h
        · rename_i page s₁ hserve
          cases h
          exact ⟨[page], none, .one hserve, by simp, .inr rfl⟩
        · rename_i page c s₁ hserve
          cases h
          exact ⟨[page], some c, .one hserve, by simp, .inr rfl⟩
    | succ n ih =>
        rw [collect] at h
        split at h
        · cases h
        · rename_i page s₁ hserve
          cases h
          exact ⟨[page], none, .one hserve, by simp, .inl ⟨rfl, by simp⟩⟩
        · rename_i page c s₁ hserve
          obtain ⟨pages, next, hserved, rfl, hlen⟩ := ih h
          refine ⟨page :: pages, next, .more hserve hserved, by simp, ?_⟩
          rcases hlen with ⟨rfl, hle⟩ | heq
          · exact .inl ⟨rfl, by simpa using hle⟩
          · exact .inr (by simpa using heq)
  · rintro ⟨pages, next, hserved, rfl, hlen⟩
    induction hserved generalizing n items with
    | one hserve =>
        rename_i cursor next s s' page
        rw [collect, hserve]
        cases next with
        | none => simp
        | some c =>
            rcases hlen with ⟨hnone, -⟩ | heq
            · cases hnone
            · obtain rfl : n = 0 := by simpa using heq.symm
              simp [collect]
    | more hserve hrest ih =>
        rename_i cursor next s s₁ s' page pages c
        rw [collect, hserve]
        have hpos : 0 < pages.length := by
          cases hrest with
          | one h => simp
          | more h hrest => simp
        obtain ⟨m, rfl⟩ : ∃ m, n = m + 1 := by
          refine ⟨n - 1, ?_⟩
          simp only [List.length_cons] at hlen
          omega
        have hlen' : next = none ∧ pages.length ≤ m + 1 ∨ pages.length = m + 1 := by
          rcases hlen with ⟨hnone, hle⟩ | heq
          · exact .inl ⟨hnone, by simpa using hle⟩
          · exact .inr (by simpa using heq)
        have hcollect : collect serve (m + 1) (some _) (items ++ page) _ = _ := ih hlen'
        simpa using hcollect

/-- **How much it asks**: if a page costs at most `k`, `n` pages cost at
most `k * n`. -/
theorem collect_cost {cost : σ → Nat} {k : Nat}
    (h : ∀ cursor s, cost (serve cursor s).2 ≤ cost s + k) :
    cost (collect serve n cursor items s).2 ≤ cost s + k * n := by
  induction n generalizing cursor items s with
  | zero => simp [collect]
  | succ n ih =>
      have hone := h cursor s
      have hmul : k * (n + 1) = k * n + k := Nat.mul_succ k n
      rw [collect]
      split
      · rename_i e s₁ hserve
        rw [hserve] at hone
        simp only at hone ⊢
        omega
      · rename_i page s₁ hserve
        rw [hserve] at hone
        simp only at hone ⊢
        omega
      · rename_i page c s₁ hserve
        rw [hserve] at hone
        have hrest : cost (collect serve n (some c) (items ++ page) s₁).2 ≤ cost s₁ + k * n := ih
        simp only at hone
        omega

/-- The first page may cost less than the others. -/
theorem collect_cost_first {cost : σ → Nat} {k₀ k : Nat}
    (h₀ : cost (serve cursor s).2 ≤ cost s + k₀)
    (h : ∀ cursor s, cost (serve cursor s).2 ≤ cost s + k) :
    cost (collect serve (n + 1) cursor items s).2 ≤ cost s + (k₀ + k * n) := by
  rw [collect]
  split
  · rename_i e s₁ hserve
    rw [hserve] at h₀
    simp only at h₀ ⊢
    omega
  · rename_i page s₁ hserve
    rw [hserve] at h₀
    simp only at h₀ ⊢
    omega
  · rename_i page c s₁ hserve
    rw [hserve] at h₀
    have hrest : cost (collect serve n (some c) (items ++ page) s₁).2 ≤ cost s₁ + k * n :=
      collect_cost h
    simp only at h₀
    omega

/-! ## A server that serves one list -/

/-- The server holds a list cut into pages and names the place of each page
but the first. -/
structure Pages (κ β : Type) where
  first : List β
  rest : List (κ × List β)

namespace Pages

/-- All items, in order. -/
def all (p : Pages κ β) : List β := p.first ++ p.rest.flatMap Prod.snd

/-- The pages with each item replaced. -/
def map {γ : Type} (f : β → γ) (p : Pages κ β) : Pages κ γ :=
  ⟨p.first.map f, p.rest.map fun q => (q.1, q.2.map f)⟩

/-- The number of pages. -/
def length (p : Pages κ β) : Nat := p.rest.length + 1

/-- The first `n` pages. -/
def upTo (p : Pages κ β) (n : Nat) : Pages κ β := ⟨p.first, p.rest.take (n - 1)⟩

/-- From each of its pages on, the server serves the page and names the
next one. -/
def ServedBy (p : Pages κ β) (serve : Server σ κ β ε) (s : σ) : Prop :=
  serve none s = (.ok (p.first, p.rest.head?.map Prod.fst), s) ∧
    ∀ pre c page post, p.rest = pre ++ (c, page) :: post →
      serve (some c) s = (.ok (page, post.head?.map Prod.fst), s)

end Pages

theorem Pages.upTo_of_le {p : Pages κ β} (h : p.length ≤ n) : p.upTo n = p := by
  unfold Pages.length at h
  have htake : p.rest.take (n - 1) = p.rest := List.take_of_length_le (by omega)
  rw [Pages.upTo, htake]

theorem Pages.all_map {γ : Type} (f : β → γ) (p : Pages κ β) :
    (p.map f).all = p.all.map f := by
  simp [Pages.map, Pages.all, List.flatMap_map, List.map_flatMap]

theorem Pages.upTo_map {γ : Type} (f : β → γ) (p : Pages κ β) (n : Nat) :
    (p.map f).upTo n = (p.upTo n).map f := by
  simp [Pages.map, Pages.upTo, List.map_take]

/-- **Paging is invisible** up to the limit: the client reads the list the
server holds, or its first pages. -/
theorem collect_pages {p : Pages κ β} (h : p.ServedBy serve s) :
    collect serve (n + 1) none [] s = (.ok (p.upTo (n + 1)).all, s) := by
  -- from any page on, with what was read before
  have hrest : ∀ (m : Nat) (pre post : List (κ × List β)) (c : κ) (page items : List β),
      p.rest = pre ++ (c, page) :: post →
      collect serve m (some c) items s =
        (.ok (items ++ (((c, page) :: post).take m).flatMap Prod.snd), s) := by
    intro m
    induction m with
    | zero => simp [collect]
    | succ m ih =>
        intro pre post c page items heq
        rw [collect, h.2 pre c page post heq]
        cases post with
        | nil => simp
        | cons q post =>
            obtain ⟨d, next⟩ := q
            have hnext := ih (pre ++ [(c, page)]) post d next (items ++ page) (by simp [heq])
            simpa using hnext
  rw [collect, h.1]
  cases hp : p.rest with
  | nil => simp [Pages.upTo, Pages.all, hp]
  | cons q post =>
      obtain ⟨c, page⟩ := q
      have hall := hrest n [] post c page ([] ++ p.first) hp
      simp only [List.head?_cons, Option.map_some]
      rw [hall]
      simp [Pages.upTo, Pages.all, hp]

end Paging
