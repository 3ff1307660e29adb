import Mathlib.Data.List.Dedup
import AgenticFirewall.Properties.SlidingLimit

/-!
# What the limiter keeps in memory

Stale keys go only when a sweep finds too many keys stored, and it judges
a key by its last hit. A key that survives a sweep was allowed a call
within the window, so the keys stored never exceed the threshold, or those
recently allowed a call, by more than the key just checked.
-/

namespace AgenticFirewall

open Py SlidingWindow

namespace SlidingWindowRateLimiter

/-- What is stored under a key is not empty and within the limit. -/
def Compact (l : SlidingWindowRateLimiter) : Prop :=
  ∀ k d, l.hits.get k = some d → d ≠ [] ∧ d.length ≤ l.maxRequests

section Step

variable {l : SlidingWindowRateLimiter} {cutoff now : ℚ} {key : Str}

theorem Compact.maybeSweep (h : l.Compact) : (l.maybeSweep cutoff).Compact := by
  unfold SlidingWindowRateLimiter.maybeSweep
  split
  · intro k d hd
    refine h k d ?_
    rw [sweep, Dict.get_filter] at hd
    exact Option.eq_some_of_filter_eq_some hd
  · exact h

/-- The deque of a key holds at most the limit, also when nothing is
stored. -/
theorem Compact.deque_le (h : l.Compact) (k : Str) : (l.deque k).length ≤ l.maxRequests := by
  unfold deque
  cases hk : l.hits.get k with
  | none => simp
  | some d => exact (h k d hk).2

/-- The hits stored under the checked key: they fill the window, or `now`
is among them. -/
theorem get_check_self (l : SlidingWindowRateLimiter) (now : ℚ) (key : Str) :
    ∃ d, (l.check now key).2.hits.get key = some d ∧
    (l.maxRequests ≤ d.length ∧ d = l.liveHits now key ∨
      (l.liveHits now key).length < l.maxRequests ∧ d = l.liveHits now key ++ [now]) := by
  unfold check liveHits
  simp only [maybeSweep_maxRequests]
  split
  · rename_i hfull
    exact ⟨_, Dict.get_set_self _ _ _, .inl ⟨hfull, rfl⟩⟩
  · rename_i hroom
    exact ⟨_, Dict.get_set_self _ _ _, .inr ⟨not_le.mp hroom, rfl⟩⟩

theorem get_check_ne {k : Str} (hne : key ≠ k) :
    (l.check now key).2.hits.get k = (l.maybeSweep (now - l.windowSeconds)).hits.get k := by
  unfold check
  simp only
  split
  · exact Dict.get_set_ne _ _ hne
  · exact Dict.get_set_ne _ _ hne

theorem Compact.check (h : l.Compact) : (l.check now key).2.Compact := by
  intro k d hd
  rw [check_maxRequests]
  by_cases hk : key = k
  · subst hk
    obtain ⟨d', hd', hcase⟩ := get_check_self l now key
    obtain rfl : d' = d := Option.some.inj (hd'.symm.trans hd)
    rcases hcase with ⟨hfull, rfl⟩ | ⟨hroom, rfl⟩
    · refine ⟨List.ne_nil_of_length_pos (l.one_le.trans hfull), ?_⟩
      -- pruning only shortens the deque
      have hkept : (l.maybeSweep (now - l.windowSeconds)).Compact := h.maybeSweep
      have hold := hkept.deque_le key
      rw [maybeSweep_maxRequests] at hold
      exact ((List.dropWhile_suffix _).length_le).trans hold
    · exact ⟨by simp, by simpa [Nat.succ_le_iff] using hroom⟩
  · rw [get_check_ne hk] at hd
    have hkept := h.maybeSweep k d hd
    rwa [maybeSweep_maxRequests] at hkept

/-- One more key than the sweep has left. -/
theorem size_check_le :
    (l.check now key).2.hits.size ≤ (l.maybeSweep (now - l.windowSeconds)).hits.size + 1 := by
  unfold check
  simp only
  split
  · exact Dict.size_set_le _ _ _
  · exact Dict.size_set_le _ _ _

/-- A sweep leaves no more keys than have a hit after the cutoff. -/
theorem size_maybeSweep_le {live : List Str}
    (hlive : ∀ k, (∃ t ∈ l.deque k, cutoff < t) → k ∈ live) :
    (l.maybeSweep cutoff).hits.size ≤ max l.sweepThreshold live.length := by
  unfold SlidingWindowRateLimiter.maybeSweep
  split
  · refine le_max_of_le_right ?_
    have hkeys : (l.sweep cutoff).hits.keys ⊆ live := by
      intro k hk
      obtain ⟨⟨k', d⟩, hmem, rfl⟩ := List.mem_map.mp hk
      obtain ⟨hstored, hlast⟩ := List.mem_filter.mp hmem
      obtain ⟨t, ht, hcut⟩ := (Option.any_eq_true _ _).mp hlast
      refine hlive k' ⟨t, ?_, by simpa using hcut⟩
      rw [deque, Dict.get_eq_some_iff.mpr hstored]
      exact List.mem_of_getLast? ht
    have hle := List.Nodup.length_le_of_subset (l.sweep cutoff).hits.nodup hkeys
    simpa [Dict.size] using hle
  · rename_i hsize
    exact le_max_of_le_left (not_lt.mp hsize)

end Step

/-! ## Runs -/

/-- The keys that were allowed a call after `cutoff`. -/
def recentKeys (cutoff : ℚ) (trace : List (Check × Bool)) : List Str :=
  ((trace.filter fun p => p.2 = true ∧ cutoff < p.1.now).map fun p => p.1.key).dedup

theorem mem_recentKeys {cutoff : ℚ} {trace : List (Check × Bool)} {k : Str}
    (h : ∃ t ∈ allowedTimes trace k, cutoff < t) : k ∈ recentKeys cutoff trace := by
  obtain ⟨t, ht, hcut⟩ := h
  obtain ⟨p, hp, rfl⟩ := List.mem_map.mp ht
  obtain ⟨hmem, hpk⟩ := List.mem_filter.mp hp
  obtain ⟨rfl, hok⟩ : p.1.key = k ∧ p.2 = true := by simpa using hpk
  refine List.mem_dedup.mpr (List.mem_map.mpr ⟨p, List.mem_filter.mpr ⟨hmem, ?_⟩, rfl⟩)
  simp [hok, hcut]

section Memory

variable {limit : Nat} {window : ℚ} {one_le : 1 ≤ limit} {window_pos : 0 < window}
  {sweepThreshold : Nat} {calls : List Check} {c : Check}

theorem compact_after (calls : List Check) :
    ((new limit window one_le window_pos sweepThreshold).after calls).Compact := by
  induction calls using List.reverseRecOn with
  | nil =>
      intro k d hd
      cases hd
  | append_singleton calls c ih =>
      rw [after_append]
      exact ih.check

@[simp] theorem after_sweepThreshold (l : SlidingWindowRateLimiter) (calls : List Check) :
    (l.after calls).sweepThreshold = l.sweepThreshold := by
  induction calls generalizing l with
  | nil => rfl
  | cons c cs ih =>
      rw [after, ih]
      unfold check maybeSweep
      simp only
      split <;> split <;> rfl

/-- **Memory is bounded by live traffic**: after each call the stored
deques are not empty, in order and within the limit, and there is at most
one key more than the threshold, or than were allowed a call within the
window before it. -/
theorem memory_bounded {l : SlidingWindowRateLimiter}
    (hl : l = (new limit window one_le window_pos sweepThreshold).after (calls ++ [c]))
    (hc : Chronological (calls ++ [c])) :
    (∀ kd ∈ l.hits.items, kd.2 ≠ [] ∧ Sorted kd.2 ∧ kd.2.length ≤ limit) ∧
      l.hits.size ≤ 1 + max sweepThreshold (recentKeys (c.now - window)
        ((new limit window one_le window_pos sweepThreshold).trace calls)).length := by
  have hcheck : l =
      (((new limit window one_le window_pos sweepThreshold).after calls).check c.now c.key).2 := by
    rw [hl, after_append]
    rfl
  have htracks : Tracks ((new limit window one_le window_pos sweepThreshold).after calls)
      (allowedTimes ((new limit window one_le window_pos sweepThreshold).trace calls)) c.now :=
    tracks_after hc
  constructor
  · intro kd hkd
    have hget : l.hits.get kd.1 = some kd.2 := Dict.get_eq_some_iff.mpr hkd
    have hcompact : l.Compact := hl ▸ compact_after (calls ++ [c])
    have hlimit : l.maxRequests = limit := by simp [hl, new]
    obtain ⟨hne, hle⟩ := hcompact kd.1 kd.2 hget
    refine ⟨hne, ?_, hlimit ▸ hle⟩
    have hend := htracks.check c le_rfl
    rw [← hcheck] at hend
    obtain ⟨stale, heq, -⟩ := hend.kept kd.1
    have hsorted := hend.sorted kd.1
    rw [heq, deque, hget] at hsorted
    exact (List.pairwise_append.mp hsorted).2.1
  · -- a key the sweep leaves has a hit of the log that is still live
    have hlive : ∀ k, (∃ t ∈ ((new limit window one_le window_pos sweepThreshold).after
        calls).deque k, c.now - window < t) → k ∈ recentKeys (c.now - window)
          ((new limit window one_le window_pos sweepThreshold).trace calls) := by
      intro k h
      obtain ⟨t, ht, hcut⟩ := h
      obtain ⟨stale, heq, -⟩ := htracks.kept k
      exact mem_recentKeys ⟨t, heq ▸ List.mem_append_right _ ht, hcut⟩
    have hswept := size_maybeSweep_le hlive
    have hone : l.hits.size ≤ _ + 1 := hcheck ▸ size_check_le
    simp only [after_sweepThreshold, after_windowSeconds] at hswept hone
    have hthreshold : (new limit window one_le window_pos sweepThreshold).sweepThreshold =
        sweepThreshold := rfl
    have hwindow : (new limit window one_le window_pos sweepThreshold).windowSeconds = window := rfl
    rw [hthreshold] at hswept
    rw [hwindow] at hone
    omega

/-- A sweep before every call: the key whose hit has expired is gone. -/
theorem memory_bounded_swept :
    ((new 1 60 (by decide) (by decide) 0).after
        ([⟨str "a", 0⟩, ⟨str "b", 30⟩] ++ [⟨str "c", 61⟩])).hits.keys = [str "b", str "c"] ∧
      ((new 1 60 (by decide) (by decide) 0).after
        ([⟨str "a", 0⟩, ⟨str "b", 30⟩] ++ [⟨str "c", 61⟩])).hits.size ≤
          1 + max 0 (recentKeys (61 - 60) ((new 1 60 (by decide) (by decide) 0).trace
            [⟨str "a", 0⟩, ⟨str "b", 30⟩])).length := by
  refine ⟨by decide +kernel, ?_⟩
  have hc : Chronological ([⟨str "a", 0⟩, ⟨str "b", 30⟩] ++ [⟨str "c", 61⟩]) := by
    simp [Chronological]
    norm_num
  exact (memory_bounded rfl hc).2

end Memory

end SlidingWindowRateLimiter

end AgenticFirewall
