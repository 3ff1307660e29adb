import Mathlib.Algebra.Order.Group.Basic
import Mathlib.Data.List.Basic
import Mathlib.Data.List.Induction

/-!
# Sliding windows over a log of times

A log is a list of times, oldest first. The live part of a log at `now`
is what is younger than the window; on a sorted log it is what remains
after popping stale times from the front, and a log that grew only while
its live part was short is sparse: no window of that width holds more
than the limit.
-/

namespace SlidingWindow

variable {T : Type} [AddCommGroup T] [LinearOrder T] [IsOrderedAddMonoid T]

/-- Oldest first. -/
def Sorted (log : List T) : Prop := log.Pairwise (· ≤ ·)

/-- The times after `cutoff`. -/
def live (cutoff : T) (log : List T) : List T := log.filter (cutoff < ·)

/-- Each time of the log was added when fewer than `limit` earlier ones
were live. -/
def Paced (limit : Nat) (window : T) (log : List T) : Prop :=
  ∀ pre t post, log = pre ++ t :: post → (live (t - window) pre).length < limit

omit [AddCommGroup T] [IsOrderedAddMonoid T] in
theorem live_append (cutoff : T) (as bs : List T) :
    live cutoff (as ++ bs) = live cutoff as ++ live cutoff bs :=
  List.filter_append ..

omit [AddCommGroup T] [IsOrderedAddMonoid T] in
theorem live_eq_nil {cutoff : T} {log : List T} (h : ∀ t ∈ log, t ≤ cutoff) :
    live cutoff log = [] :=
  List.filter_eq_nil_iff.mpr fun t ht => by simpa using h t ht

omit [AddCommGroup T] [IsOrderedAddMonoid T] in
theorem live_eq_self {cutoff : T} {log : List T} (h : ∀ t ∈ log, cutoff < t) :
    live cutoff log = log :=
  List.filter_eq_self.mpr fun t ht => by simpa using h t ht

omit [AddCommGroup T] [IsOrderedAddMonoid T] in
/-- Popping stale times from the front of a sorted log leaves its live
part. -/
theorem dropWhile_eq_live {cutoff : T} {log : List T} (h : Sorted log) :
    log.dropWhile (· ≤ cutoff) = live cutoff log := by
  induction log with
  | nil => rfl
  | cons t rest ih =>
      obtain ⟨hle, hrest⟩ := List.pairwise_cons.mp h
      by_cases ht : t ≤ cutoff
      · rw [List.dropWhile_cons_of_pos (by simpa using ht), ih hrest]
        simp [live, ht]
      · rw [List.dropWhile_cons_of_neg (by simpa using ht)]
        refine (live_eq_self fun u hu => ?_).symm
        rcases List.mem_cons.mp hu with rfl | hu
        · exact not_le.mp ht
        · exact (not_le.mp ht).trans_le (hle u hu)

omit [AddCommGroup T] [IsOrderedAddMonoid T] in
/-- The last time of a sorted log is its largest. -/
theorem Sorted.le_getLast {log : List T} (h : Sorted log) {t u : T} (ht : t ∈ log)
    (hu : log.getLast? = some u) : t ≤ u := by
  obtain ⟨pre, rfl⟩ := List.getLast?_eq_some_iff.mp hu
  rcases List.mem_append.mp ht with ht | ht
  · exact (List.pairwise_append.mp h).2.2 t ht u (by simp)
  · exact (List.mem_singleton.mp ht).le

omit [IsOrderedAddMonoid T] in
theorem Paced.of_append {limit : Nat} {window : T} {as bs : List T}
    (h : Paced limit window (as ++ bs)) : Paced limit window as :=
  fun pre t post heq => h pre t (post ++ bs) (by simp [heq])

omit [IsOrderedAddMonoid T] in
theorem paced_concat {limit : Nat} {window : T} {log : List T} {t : T} :
    Paced limit window (log ++ [t]) ↔
      Paced limit window log ∧ (live (t - window) log).length < limit := by
  constructor
  · exact fun h => ⟨h.of_append, h log t [] rfl⟩
  · rintro ⟨hp, ht⟩ pre u post heq
    rcases List.eq_nil_or_concat post with rfl | ⟨post', v, rfl⟩
    · obtain ⟨rfl, rfl⟩ := List.append_singleton_inj.mp heq
      exact ht
    · refine hp pre u post' ?_
      have hcons : log ++ [t] = (pre ++ u :: post') ++ [v] := by simpa using heq
      exact (List.append_singleton_inj.mp hcons).1

/-- **A paced log is sparse**: no interval `(t - window, t]` holds more
than `limit` of its times. -/
theorem Paced.window_le {limit : Nat} {window : T} {log : List T}
    (hp : Paced limit window log) (hs : Sorted log) (t : T) :
    (log.filter fun u => t - window < u ∧ u ≤ t).length ≤ limit := by
  induction log using List.reverseRecOn with
  | nil => simp
  | append_singleton log m ih =>
      obtain ⟨hlog, hm⟩ := paced_concat.mp hp
      have hsorted := List.pairwise_append.mp hs
      by_cases hin : t - window < m ∧ m ≤ t
      · -- the earlier times of this window were live when `m` came
        have hsub : (log.filter fun u => t - window < u ∧ u ≤ t).length ≤
            (live (m - window) log).length := by
          refine (List.monotone_filter_right log fun u hu => ?_).length_le
          simp only [decide_eq_true_eq] at hu ⊢
          exact (sub_le_sub_right hin.2 window).trans_lt hu.1
        rw [List.filter_append, List.length_append, List.filter_cons_of_pos (by simpa using hin)]
        simp only [List.filter_nil, List.length_singleton]
        omega
      · rw [List.filter_append, List.filter_cons_of_neg (by simpa using hin), List.filter_nil,
          List.append_nil]
        exact ih hlog hsorted.1

/-! ## A full window -/

section Full

variable {limit : Nat} {window now t first : T} {log rest : List T}

omit [AddCommGroup T] [IsOrderedAddMonoid T] in
/-- A later cutoff looks at what an earlier one kept. -/
theorem live_live {cutoff later : T} (h : cutoff ≤ later) :
    live later (live cutoff log) = live later log := by
  unfold live
  rw [List.filter_filter]
  apply List.filter_congr
  intro u _
  by_cases hu : later < u
  · simp [hu, h.trans_lt hu]
  · simp [hu]

/-- A paced log never has more than `limit` live times. -/
theorem Paced.live_le (hp : Paced limit window log) (hs : Sorted log)
    (hpast : ∀ u ∈ log, u ≤ now) : (live (now - window) log).length ≤ limit := by
  have hall : live (now - window) log = log.filter fun u => now - window < u ∧ u ≤ now := by
    apply List.filter_congr
    intro u hu
    simp [hpast u hu]
  rw [hall]
  exact hp.window_le hs now

/-- **A full log has room again** exactly when its first live time
expires. -/
theorem Paced.reopens (hp : Paced limit window log) (hs : Sorted log)
    (hpast : ∀ u ∈ log, u ≤ now) (hlive : live (now - window) log = first :: rest)
    (hfull : limit ≤ (first :: rest).length) (hle : now ≤ t) :
    (live (t - window) log).length < limit ↔ first + window ≤ t := by
  have hsorted : Sorted (first :: rest) := hlive ▸ List.Pairwise.sublist List.filter_sublist hs
  have hlater : live (t - window) log = live (t - window) (first :: rest) := by
    rw [← hlive, live_live (sub_le_sub_right hle window)]
  have hroom : (first :: rest).length ≤ limit := hlive ▸ hp.live_le hs hpast
  rw [hlater, ← le_sub_iff_add_le]
  constructor
  · intro hlt
    by_contra hstill
    rw [live_eq_self fun u hu => ?_] at hlt
    · omega
    · rcases List.mem_cons.mp hu with rfl | hu
      · exact not_le.mp hstill
      · exact (not_le.mp hstill).trans_le (List.rel_of_pairwise_cons hsorted hu)
  · intro hgone
    have hdrop : live (t - window) (first :: rest) = live (t - window) rest :=
      List.filter_cons_of_neg (by simpa using hgone)
    have hrest : (live (t - window) rest).length ≤ rest.length := List.length_filter_le _ _
    rw [hdrop]
    simp only [List.length_cons] at hroom
    omega

end Full

end SlidingWindow
