import AgenticFirewall.Firewall.RateLimiter
import AgenticFirewall.Lib.SlidingWindow

/-!
# The sliding-window limit is exact

The limiter prunes lazily and forgets whole keys when it sweeps. It is
compared with one that remembers every allowed call (`remembering`): the
deques hold the live part of that log and more, so both give the same
answers, whatever is swept and when.
-/

namespace AgenticFirewall

open Py SlidingWindow

/-- One call of `check`. -/
structure Check where
  key : Str
  now : ℚ
  deriving DecidableEq

/-- The clock readings never decrease. -/
def Chronological (calls : List Check) : Prop := calls.Pairwise fun c d => c.now ≤ d.now

theorem Chronological.from_first {calls : List Check} (hc : Chronological calls) :
    ∃ clock, ∀ c ∈ calls, clock ≤ c.now := by
  cases calls with
  | nil => exact ⟨0, by simp⟩
  | cons c cs =>
      refine ⟨c.now, fun d hd => ?_⟩
      rcases List.mem_cons.mp hd with rfl | hd
      · exact le_rfl
      · exact List.rel_of_pairwise_cons hc hd

/-- Some time is past all calls. -/
theorem exists_last (clock : ℚ) (calls : List Check) :
    ∃ last, clock ≤ last ∧ ∀ c ∈ calls, c.now ≤ last := by
  induction calls with
  | nil => exact ⟨clock, le_rfl, by simp⟩
  | cons c cs ih =>
      obtain ⟨last, hclock, hlast⟩ := ih
      refine ⟨max c.now last, hclock.trans (le_max_right _ _), ?_⟩
      intro d hd
      rcases List.mem_cons.mp hd with rfl | hd
      · exact le_max_left _ _
      · exact (hlast d hd).trans (le_max_right _ _)

theorem Chronological.filter {calls : List Check} (hc : Chronological calls) (p : Check → Bool) :
    Chronological (calls.filter p) :=
  List.Pairwise.sublist List.filter_sublist hc

theorem Chronological.erase {pre post : List Check} {c : Check}
    (hc : Chronological (pre ++ c :: post)) : Chronological (pre ++ post) :=
  List.Pairwise.sublist ((List.sublist_cons_self c post).append_left pre) hc

/-- The times of the allowed calls of `key`, in order. -/
def allowedTimes (trace : List (Check × Bool)) (key : Str) : List ℚ :=
  (trace.filter fun p => p.1.key = key ∧ p.2 = true).map fun p => p.1.now

theorem allowedTimes_append (trace more : List (Check × Bool)) (key : Str) :
    allowedTimes (trace ++ more) key = allowedTimes trace key ++ allowedTimes more key := by
  simp [allowedTimes]

theorem allowedTimes_filter (trace : List (Check × Bool)) (key : Str) :
    allowedTimes (trace.filter fun p => p.1.key = key) key = allowedTimes trace key := by
  unfold allowedTimes
  rw [List.filter_filter]
  congr 1
  apply List.filter_congr
  intro p _
  by_cases hk : p.1.key = key
  · simp [hk]
  · simp [hk]

namespace SlidingWindowRateLimiter

/-- The constructor: nothing stored. -/
def new (maxRequests : Nat) (windowSeconds : ℚ) (one_le : 1 ≤ maxRequests)
    (window_pos : 0 < windowSeconds) (sweepThreshold : Nat) : SlidingWindowRateLimiter :=
  { maxRequests, windowSeconds, sweepThreshold, one_le, window_pos }

/-- The limiter after the calls. -/
def after (l : SlidingWindowRateLimiter) : List Check → SlidingWindowRateLimiter
  | [] => l
  | c :: cs => after (l.check c.now c.key).2 cs

/-- Each call with its answer. -/
def trace (l : SlidingWindowRateLimiter) : List Check → List (Check × Bool)
  | [] => []
  | c :: cs => (c, (l.check c.now c.key).1.allowed) :: trace (l.check c.now c.key).2 cs

@[simp] theorem after_maxRequests (l : SlidingWindowRateLimiter) (calls : List Check) :
    (l.after calls).maxRequests = l.maxRequests := by
  induction calls generalizing l with
  | nil => rfl
  | cons c cs ih => rw [after, ih, check_maxRequests]

@[simp] theorem after_windowSeconds (l : SlidingWindowRateLimiter) (calls : List Check) :
    (l.after calls).windowSeconds = l.windowSeconds := by
  induction calls generalizing l with
  | nil => rfl
  | cons c cs ih => rw [after, ih, check_windowSeconds]

theorem after_append (l : SlidingWindowRateLimiter) (calls more : List Check) :
    l.after (calls ++ more) = (l.after calls).after more := by
  induction calls generalizing l with
  | nil => rfl
  | cons c cs ih => exact ih _

theorem trace_append (l : SlidingWindowRateLimiter) (calls more : List Check) :
    l.trace (calls ++ more) = l.trace calls ++ (l.after calls).trace more := by
  induction calls generalizing l with
  | nil => rfl
  | cons c cs ih =>
      rw [List.cons_append, trace, ih]
      rfl

/-! ## The limiter that remembers everything -/

/-- A log of allowed times per key; a call is allowed when fewer than
`limit` times of its key are live. -/
def remembering (limit : Nat) (window : ℚ) (log : Str → List ℚ) :
    List Check → List (Check × Bool)
  | [] => []
  | c :: cs =>
      if (live (c.now - window) (log c.key)).length < limit then
        (c, true) :: remembering limit window
          (Function.update log c.key (log c.key ++ [c.now])) cs
      else (c, false) :: remembering limit window log cs

section Remembering

variable {limit : Nat} {window : ℚ} {log : Str → List ℚ} {calls : List Check}

theorem allowedTimes_cons (p : Check × Bool) (rest : List (Check × Bool)) (key : Str) :
    allowedTimes (p :: rest) key =
      (if p.1.key = key ∧ p.2 = true then [p.1.now] else []) ++ allowedTimes rest key := by
  unfold allowedTimes
  by_cases h : p.1.key = key ∧ p.2 = true
  · rw [List.filter_cons_of_pos (by simpa using h), if_pos h]
    rfl
  · rw [List.filter_cons_of_neg (by simpa using h), if_neg h]
    rfl

/-- Adding an allowed time to the log, as seen from one key. -/
theorem update_log (c : Check) (key : Str) :
    Function.update log c.key (log c.key ++ [c.now]) key =
      log key ++ (if c.key = key then [c.now] else []) := by
  by_cases h : c.key = key
  · subst h
    simp
  · simp [Function.update_of_ne (Ne.symm h), h]

/-- A call is allowed when fewer than `limit` live times of its key are in
the log or were allowed before it. -/
theorem remembering_exact {a b : List (Check × Bool)} {c : Check} {ok : Bool}
    (h : remembering limit window log calls = a ++ (c, ok) :: b) :
    ok = true ↔
      (live (c.now - window) (log c.key ++ allowedTimes a c.key)).length < limit := by
  induction calls generalizing log a with
  | nil => simp [remembering] at h
  | cons d ds ih =>
      cases a with
      | nil =>
          simp only [remembering] at h
          split at h
          · rename_i hok
            obtain ⟨hd, -⟩ := List.cons.inj h
            cases hd
            simpa [allowedTimes] using hok
          · rename_i hok
            obtain ⟨hd, -⟩ := List.cons.inj h
            cases hd
            simpa [allowedTimes] using hok
      | cons p a =>
          simp only [remembering] at h
          split at h
          · obtain ⟨rfl, hrest⟩ := List.cons.inj h
            have hih := ih hrest
            rw [update_log, List.append_assoc] at hih
            rw [allowedTimes_cons]
            simpa using hih
          · obtain ⟨rfl, hrest⟩ := List.cons.inj h
            rw [allowedTimes_cons]
            simpa using ih hrest

/-- Erasing a rejected call erases its answer and nothing else. -/
theorem remembering_erase {pre post : List Check} {c : Check} {a b : List (Check × Bool)}
    (hlen : a.length = pre.length)
    (h : remembering limit window log (pre ++ c :: post) = a ++ (c, false) :: b) :
    remembering limit window log (pre ++ post) = a ++ b := by
  induction pre generalizing log a with
  | nil =>
      obtain rfl := List.length_eq_zero_iff.mp hlen
      simp only [List.nil_append, remembering] at h ⊢
      split at h
      · cases h
      · exact (List.cons.inj h).2
  | cons d ds ih =>
      cases a with
      | nil => cases hlen
      | cons p a =>
          simp only [List.length_cons, Nat.add_right_cancel_iff] at hlen
          simp only [List.cons_append, remembering] at h ⊢
          split at h
          · rename_i hok
            obtain ⟨rfl, hrest⟩ := List.cons.inj h
            rw [if_pos hok, ih hlen hrest]
          · rename_i hok
            obtain ⟨rfl, hrest⟩ := List.cons.inj h
            rw [if_neg hok, ih hlen hrest]

/-- The answers of one key are those of a run that serves it alone. -/
theorem remembering_key {log' : Str → List ℚ} (key : Str) (hlog : log key = log' key) :
    (remembering limit window log calls).filter (fun p => p.1.key = key) =
      remembering limit window log' (calls.filter fun c => c.key = key) := by
  induction calls generalizing log log' with
  | nil => rfl
  | cons c cs ih =>
      by_cases hk : c.key = key
      · subst hk
        rw [List.filter_cons_of_pos (by simp)]
        simp only [remembering, hlog]
        split
        · rw [List.filter_cons_of_pos (by simp), ih]
          simp
        · rw [List.filter_cons_of_pos (by simp), ih hlog]
      · rw [List.filter_cons_of_neg (by simpa using hk)]
        simp only [remembering]
        split
        · rw [List.filter_cons_of_neg (by simpa using hk)]
          exact ih (by simp [update_log, hk, hlog])
        · rw [List.filter_cons_of_neg (by simpa using hk)]
          exact ih hlog

end Remembering

/-! ## The limiter follows the log -/

/-- What the limiter keeps of the log at `clock`: per key, everything but
some times that are stale by then. -/
structure Tracks (l : SlidingWindowRateLimiter) (log : Str → List ℚ) (clock : ℚ) : Prop where
  sorted : ∀ k, Sorted (log k)
  past : ∀ k, ∀ t ∈ log k, t ≤ clock
  paced : ∀ k, Paced l.maxRequests l.windowSeconds (log k)
  kept : ∀ k, ∃ stale, log k = stale ++ l.deque k ∧ ∀ t ∈ stale, t ≤ clock - l.windowSeconds

section Tracks

variable {l : SlidingWindowRateLimiter} {log : Str → List ℚ} {clock now : ℚ}

theorem tracks_new {limit : Nat} {window : ℚ} {one_le : 1 ≤ limit} {window_pos : 0 < window}
    {sweepThreshold : Nat} (clock : ℚ) :
    Tracks (new limit window one_le window_pos sweepThreshold) (fun _ => []) clock where
  sorted _ := List.Pairwise.nil
  past _ := by simp
  paced _ := fun pre t post h => by simp at h
  kept _ := ⟨[], rfl, by simp⟩

theorem Tracks.later (h : Tracks l log clock) (hle : clock ≤ now) : Tracks l log now where
  sorted := h.sorted
  past k t ht := (h.past k t ht).trans hle
  paced := h.paced
  kept k := by
    obtain ⟨stale, heq, hst⟩ := h.kept k
    exact ⟨stale, heq, fun t ht => (hst t ht).trans (sub_le_sub_right hle _)⟩

/-- A swept deque is stale to its end, because it is sorted. -/
theorem Tracks.sweep (h : Tracks l log now) : Tracks (l.sweep (now - l.windowSeconds)) log now where
  sorted := h.sorted
  past := h.past
  paced := h.paced
  kept k := by
    obtain ⟨stale, heq, hst⟩ := h.kept k
    rw [deque_sweep]
    split
    · exact ⟨stale, heq, hst⟩
    · rename_i hany
      refine ⟨log k, by simp, fun t ht => ?_⟩
      rw [heq] at ht
      rcases List.mem_append.mp ht with ht | ht
      · exact hst t ht
      · have hsorted : Sorted (l.deque k) := by
          have hlog := h.sorted k
          rw [heq] at hlog
          exact (List.pairwise_append.mp hlog).2.1
        obtain ⟨u, hu⟩ := Option.ne_none_iff_exists'.mp
          (mt List.getLast?_eq_none_iff.mp (List.ne_nil_of_mem ht))
        rw [hu] at hany
        have hstale : u ≤ now - l.windowSeconds := by simpa using hany
        exact (hsorted.le_getLast ht hu).trans hstale

theorem Tracks.maybeSweep (h : Tracks l log now) :
    Tracks (l.maybeSweep (now - l.windowSeconds)) log now := by
  unfold SlidingWindowRateLimiter.maybeSweep
  split
  · exact h.sweep
  · exact h

/-- The hits `check` counts are the live times of the log. -/
theorem Tracks.liveHits (h : Tracks l log now) (key : Str) :
    l.liveHits now key = live (now - l.windowSeconds) (log key) := by
  obtain ⟨stale, heq, hst⟩ := h.maybeSweep.kept key
  have hsorted := h.sorted key
  rw [heq] at hsorted
  rw [heq, live_append, live_eq_nil (by simpa using hst), List.nil_append,
    ← dropWhile_eq_live (List.pairwise_append.mp hsorted).2.1]
  rfl

theorem Tracks.check_allowed_iff (h : Tracks l log clock) (hle : clock ≤ now) (key : Str) :
    (l.check now key).1.allowed = true ↔
      (live (now - l.windowSeconds) (log key)).length < l.maxRequests := by
  rw [SlidingWindowRateLimiter.check_allowed_iff, (h.later hle).liveHits]

/-- A time that `live` drops from a sorted log was in front of what it
keeps. -/
theorem stale_append_live {cutoff : ℚ} {times : List ℚ} (h : Sorted times) :
    times.takeWhile (· ≤ cutoff) ++ live cutoff times = times := by
  rw [← dropWhile_eq_live h, List.takeWhile_append_dropWhile]

/-- **One call**: the limiter keeps following the log, which grows by the
call's time when the call is allowed. -/
theorem Tracks.check (h : Tracks l log clock) (c : Check) (hle : clock ≤ c.now) :
    Tracks (l.check c.now c.key).2
      (fun k => log k ++ allowedTimes [(c, (l.check c.now c.key).1.allowed)] k) c.now := by
  have hnow := h.later hle
  have hsingle : ∀ k, allowedTimes [(c, (l.check c.now c.key).1.allowed)] k =
      if c.key = k ∧ (l.check c.now c.key).1.allowed = true then [c.now] else [] := by
    intro k
    rw [allowedTimes_cons]
    simp [allowedTimes]
  refine ⟨fun k => ?_, fun k t ht => ?_, fun k => ?_, fun k => ?_⟩
  · rw [hsingle]
    split
    · exact List.pairwise_append.mpr ⟨hnow.sorted k, by simp,
        fun t ht u hu => (List.mem_singleton.mp hu) ▸ hnow.past k t ht⟩
    · simpa using hnow.sorted k
  · rw [hsingle] at ht
    rcases List.mem_append.mp ht with ht | ht
    · exact hnow.past k t ht
    · split at ht
      · exact (List.mem_singleton.mp ht).le
      · simp at ht
  · rw [hsingle, check_maxRequests, check_windowSeconds]
    split
    · rename_i hk
      obtain ⟨rfl, hok⟩ := hk
      exact paced_concat.mpr ⟨hnow.paced c.key, (h.check_allowed_iff hle c.key).mp hok⟩
    · simpa using hnow.paced k
  · rw [hsingle, check_windowSeconds]
    by_cases hk : c.key = k
    · subst hk
      refine ⟨(log c.key).takeWhile (· ≤ c.now - l.windowSeconds), ?_, fun t ht => ?_⟩
      · rw [deque_check_self, hnow.liveHits, ← List.append_assoc,
          stale_append_live (hnow.sorted c.key)]
        simp
      · have hall := List.all_takeWhile (p := (· ≤ c.now - l.windowSeconds)) (l := log c.key)
        simpa using List.all_eq_true.mp hall t ht
    · obtain ⟨stale, heq, hst⟩ := hnow.maybeSweep.kept k
      rw [deque_check_ne _ _ _ hk]
      refine ⟨stale, by simp [hk, heq], ?_⟩
      simpa using hst

theorem Tracks.after {calls : List Check} (h : Tracks l log clock)
    (hle : ∀ c ∈ calls, clock ≤ c.now) (hc : Chronological calls) {last : ℚ} (hclock : clock ≤ last)
    (hlast : ∀ c ∈ calls, c.now ≤ last) :
    Tracks (l.after calls) (fun k => log k ++ allowedTimes (l.trace calls) k) last := by
  induction calls generalizing l log clock with
  | nil => simpa [SlidingWindowRateLimiter.after, trace, allowedTimes] using h.later hclock
  | cons c cs ih =>
      obtain ⟨hfirst, hrest⟩ := List.pairwise_cons.mp hc
      have hend := ih (h.check c (hle c (by simp))) hfirst hrest (hlast c (by simp))
        fun d hd => hlast d (List.mem_cons_of_mem c hd)
      have hlog : ∀ k, log k ++ allowedTimes (l.trace (c :: cs)) k =
          (log k ++ allowedTimes [(c, (l.check c.now c.key).1.allowed)] k) ++
            allowedTimes ((l.check c.now c.key).2.trace cs) k := by
        intro k
        rw [trace, allowedTimes_cons, List.append_assoc, allowedTimes_cons]
        simp [allowedTimes]
      simp only [hlog]
      exact hend

/-- **Refinement**: the limiter answers like the one that remembers every
allowed call. -/
theorem trace_eq_remembering {calls : List Check} (h : Tracks l log clock)
    (hle : ∀ c ∈ calls, clock ≤ c.now) (hc : Chronological calls) :
    l.trace calls = remembering l.maxRequests l.windowSeconds log calls := by
  induction calls generalizing l log clock with
  | nil => rfl
  | cons c cs ih =>
      obtain ⟨hfirst, hrest⟩ := List.pairwise_cons.mp hc
      have hclock := hle c (by simp)
      have hok := h.check_allowed_iff hclock c.key
      have htail := ih (h.check c hclock) hfirst hrest
      rw [check_maxRequests, check_windowSeconds] at htail
      simp only [trace, remembering]
      by_cases hb : (l.check c.now c.key).1.allowed = true
      · rw [if_pos (hok.mp hb), htail, hb]
        congr 2
        funext k
        rw [update_log, allowedTimes_cons]
        simp [allowedTimes]
      · rw [if_neg (mt hok.mpr hb), htail]
        simp only [Bool.not_eq_true] at hb
        simp [hb, allowedTimes]

end Tracks

/-! ## The limit -/

section Limit

variable {limit : Nat} {window : ℚ} {one_le : 1 ≤ limit} {window_pos : 0 < window}
  {sweepThreshold : Nat} {calls : List Check}

/-- A new limiter answers like one that remembers every allowed call. -/
theorem trace_new (hc : Chronological calls) :
    (new limit window one_le window_pos sweepThreshold).trace calls =
      remembering limit window (fun _ => []) calls := by
  obtain ⟨clock, hle⟩ := hc.from_first
  exact trace_eq_remembering (tracks_new clock) hle hc

/-- A new limiter follows what it has allowed, at the next call too. -/
theorem tracks_after {c : Check} (hc : Chronological (calls ++ [c])) :
    Tracks ((new limit window one_le window_pos sweepThreshold).after calls)
      (allowedTimes ((new limit window one_le window_pos sweepThreshold).trace calls)) c.now := by
  obtain ⟨clock, hle⟩ := hc.from_first
  obtain ⟨hcalls, -, hlast⟩ := List.pairwise_append.mp hc
  have hnew : Tracks (new limit window one_le window_pos sweepThreshold) (fun _ => []) clock :=
    tracks_new clock
  have hend := hnew.after (fun d hd => hle d (List.mem_append_left _ hd)) hcalls
    (hle c (by simp)) fun d hd => hlast d hd c (by simp)
  simpa using hend

/-- What a call finds after the calls before it. -/
theorem liveHits_new {c : Check} (hc : Chronological (calls ++ [c])) :
    ((new limit window one_le window_pos sweepThreshold).after calls).liveHits c.now c.key =
      live (c.now - window)
        (allowedTimes ((new limit window one_le window_pos sweepThreshold).trace calls) c.key) := by
  have hwindow : ((new limit window one_le window_pos sweepThreshold).after calls).windowSeconds =
      window := after_windowSeconds _ calls
  rw [(tracks_after hc).liveHits, hwindow]

/-- Only the calls of a key say what was allowed it. -/
theorem allowedTimes_key (hc : Chronological calls) (key : Str) :
    allowedTimes ((new limit window one_le window_pos sweepThreshold).trace calls) key =
      allowedTimes ((new limit window one_le window_pos sweepThreshold).trace
        (calls.filter fun c => c.key = key)) key := by
  rw [trace_new hc, trace_new (hc.filter _), ← remembering_key key rfl, allowedTimes_filter]

/-- **No interference**: two histories that agree on a key answer its next
call alike, reason and wait. -/
theorem check_congr {others : List Check} {c : Check} (hc : Chronological (calls ++ [c]))
    (hc' : Chronological (others ++ [c]))
    (hsame : (others.filter fun d => d.key = c.key) = calls.filter fun d => d.key = c.key) :
    (((new limit window one_le window_pos sweepThreshold).after others).check c.now c.key).1 =
      (((new limit window one_le window_pos sweepThreshold).after calls).check c.now c.key).1 := by
  have hcalls := (List.pairwise_append.mp hc).1
  have hothers := (List.pairwise_append.mp hc').1
  rw [check_result, check_result, liveHits_new hc, liveHits_new hc', allowedTimes_key hcalls,
    allowedTimes_key hothers, hsame]
  simp

theorem allowedTimes_new_le (hc : Chronological calls) (key : Str) (t : ℚ) :
    ((allowedTimes ((new limit window one_le window_pos sweepThreshold).trace calls) key).filter
      fun u => t - window < u ∧ u ≤ t).length ≤ limit := by
  obtain ⟨clock, hle⟩ := hc.from_first
  have hnew : Tracks (new limit window one_le window_pos sweepThreshold) (fun _ => []) clock :=
    tracks_new clock
  obtain ⟨last, hclock, hlast⟩ := exists_last clock calls
  have hend := hnew.after hle hc hclock hlast
  have hpaced := hend.paced key
  have hlimit : ((new limit window one_le window_pos sweepThreshold).after calls).maxRequests =
      limit := after_maxRequests _ calls
  have hwindow : ((new limit window one_le window_pos sweepThreshold).after calls).windowSeconds =
      window := after_windowSeconds _ calls
  rw [hlimit, hwindow] at hpaced
  exact hpaced.window_le (hend.sorted key) t

/-- **The limit is exact**, for any calls in clock order, whatever is
swept: a call is allowed when fewer than `limit` calls of its key were
allowed within the window before it; no window holds more than `limit`
allowed calls of a key; a rejected call, the calls of other keys and the
sweeps change no answer. -/
theorem sliding_window_exact (hc : Chronological calls) :
    (∀ a c ok b,
      (new limit window one_le window_pos sweepThreshold).trace calls = a ++ (c, ok) :: b →
      (ok = true ↔ (live (c.now - window) (allowedTimes a c.key)).length < limit)) ∧
    (∀ key t,
      ((allowedTimes ((new limit window one_le window_pos sweepThreshold).trace calls) key).filter
        fun u => t - window < u ∧ u ≤ t).length ≤ limit) ∧
    (∀ pre c post a b, calls = pre ++ c :: post → a.length = pre.length →
      (new limit window one_le window_pos sweepThreshold).trace calls = a ++ (c, false) :: b →
      (new limit window one_le window_pos sweepThreshold).trace (pre ++ post) = a ++ b) ∧
    (∀ key,
      ((new limit window one_le window_pos sweepThreshold).trace calls).filter
          (fun p => p.1.key = key) =
        (new limit window one_le window_pos sweepThreshold).trace
          (calls.filter fun c => c.key = key)) ∧
    (∀ n, (new limit window one_le window_pos n).trace calls =
      (new limit window one_le window_pos sweepThreshold).trace calls) := by
  refine ⟨fun a c ok b h => ?_, allowedTimes_new_le hc, fun pre c post a b heq hlen h => ?_,
    fun key => ?_, fun n => ?_⟩
  · rw [trace_new hc] at h
    simpa using remembering_exact h
  · subst heq
    rw [trace_new hc] at h
    rw [trace_new hc.erase]
    exact remembering_erase hlen h
  · rw [trace_new hc, trace_new (hc.filter _)]
    exact remembering_key key rfl
  · rw [trace_new hc, trace_new hc]

/-- Two keys at a limit of one, the boundary of the window included, with
a sweep before every call but the first. -/
theorem sliding_window_exact_boundary :
    ((new 1 60 (by decide) (by decide) 0).trace
      [⟨str "a", 0⟩, ⟨str "b", 1⟩, ⟨str "a", 59⟩, ⟨str "a", 60⟩]).map Prod.snd =
        [true, true, false, true] ∧
      (new 1 60 (by decide) (by decide) 10000).trace
        [⟨str "a", 0⟩, ⟨str "b", 1⟩, ⟨str "a", 59⟩, ⟨str "a", 60⟩] =
      (new 1 60 (by decide) (by decide) 0).trace
        [⟨str "a", 0⟩, ⟨str "b", 1⟩, ⟨str "a", 59⟩, ⟨str "a", 60⟩] := by
  refine ⟨by decide +kernel, ?_⟩
  have hc : Chronological [⟨str "a", 0⟩, ⟨str "b", 1⟩, ⟨str "a", 59⟩, ⟨str "a", 60⟩] := by
    simp [Chronological]
    norm_num
  exact (sliding_window_exact hc).2.2.2.2 10000

end Limit

end SlidingWindowRateLimiter

end AgenticFirewall
