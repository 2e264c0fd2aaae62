import HttpRaftKv.Http.RateLimiter
import Mathlib.Data.List.Basic

/-!
# Limits of routes

Each route has limits of its own, and a request of a route should be held back only by
the requests of the same route.  The key of a limiter does not name the route: two
routes of one dimension count in one window, with the limits of the route that was asked
for first.  So the limits are those of the configuration exactly if no two routes share
a dimension other than their path, up to limits that hold back nothing or everything.
-/

namespace HttpRaftKv.Http

open SlidingLog

namespace SlidingWindow

theorem windowStart_mono (windowSize : ℤ) ⦃t u : ℤ⦄ (h : t ≤ u) :
    windowStart windowSize t ≤ windowStart windowSize u :=
  Int.sub_le_sub_right h _

/-- The window is that of the requests that were admitted at the times of the log. -/
structure Tracks (w : SlidingWindow) (log : List ℤ) (now : ℤ) : Prop where
  sorted : log.Pairwise (· ≤ ·)
  past : ∀ t ∈ log, t ≤ now
  kept : ∃ dropped, log = dropped ++ w.requests ∧
    ∀ t ∈ dropped, t < windowStart w.windowSize now
  sparse : Sparse (windowStart w.windowSize) w.maxRequests log
  shut : w.maxRequests = 0 → log = []

theorem tracks_create (maxRequests : ℕ) (windowSize now : ℤ) :
    (create maxRequests windowSize).Tracks [] now where
  sorted := .nil
  past := by simp
  kept := ⟨[], rfl, by simp⟩
  sparse := sparse_nil _ _
  shut := fun _ ↦ rfl

namespace Tracks

variable {w : SlidingWindow} {log : List ℤ} {now later : ℤ}

theorem mono (h : w.Tracks log now) (hle : now ≤ later) : w.Tracks log later where
  sorted := h.sorted
  past := fun t ht ↦ (h.past t ht).trans hle
  kept := by
    obtain ⟨dropped, hlog, hbefore⟩ := h.kept
    exact ⟨dropped, hlog, fun t ht ↦ (hbefore t ht).trans_le (windowStart_mono _ hle)⟩
  sparse := h.sparse
  shut := h.shut

/-- What is left by the cleanup is all that was admitted in the window that ends now. -/
theorem cleanup_requests (h : w.Tracks log now) :
    (w.cleanup now).requests = recent (windowStart w.windowSize now) log := by
  obtain ⟨dropped, hlog, hbefore⟩ := h.kept
  have hsorted : w.requests.Pairwise (· ≤ ·) := by
    have := h.sorted
    rw [hlog] at this
    exact (List.pairwise_append.mp this).2.1
  rw [hlog, recent_append, recent_eq_nil hbefore, List.nil_append, ← dropWhile_eq_recent hsorted]
  rfl

theorem cleanup (h : w.Tracks log now) : (w.cleanup now).Tracks log now where
  sorted := h.sorted
  past := h.past
  kept := by
    obtain ⟨dropped, hlog, hbefore⟩ := h.kept
    refine ⟨dropped ++ w.requests.takeWhile fun t ↦ t < windowStart w.windowSize now, ?_, ?_⟩
    · rw [List.append_assoc]
      exact hlog.trans (congrArg _ List.takeWhile_append_dropWhile.symm)
    · intro t ht
      rcases List.mem_append.mp ht with ht | ht
      · exact hbefore t ht
      · exact of_decide_eq_true (List.all_eq_true.mp List.all_takeWhile t ht)
  sparse := h.sparse
  shut := h.shut

theorem push (h : w.Tracks log now) (hle : now ≤ later)
    (hroom : (recent (windowStart w.windowSize now) log).length < w.maxRequests) :
    { w with requests := w.requests ++ [later] : SlidingWindow }.Tracks (log ++ [later])
      later where
  sorted := by
    refine List.pairwise_append.mpr ⟨h.sorted, List.pairwise_singleton _ _, ?_⟩
    intro t ht u hu
    rw [List.mem_singleton.mp hu]
    exact (h.past t ht).trans hle
  past := by
    intro t ht
    rcases List.mem_append.mp ht with ht | ht
    · exact (h.past t ht).trans hle
    · exact (List.mem_singleton.mp ht).le
  kept := by
    obtain ⟨dropped, hlog, hbefore⟩ := h.kept
    refine ⟨dropped, ?_, fun t ht ↦ (hbefore t ht).trans_le (windowStart_mono _ hle)⟩
    rw [hlog, List.append_assoc]
  sparse := h.sparse.snoc (windowStart_mono _) hle hroom
  shut := by
    intro hshut
    have hzero : w.maxRequests = 0 := hshut
    omega

/-- A request is accepted exactly if the window that ends now has room. -/
theorem tryAccept_iff (h : w.Tracks log now) :
    (w.tryAccept now later).1 = true ↔
      (recent (windowStart w.windowSize now) log).length < w.maxRequests := by
  rw [← h.cleanup_requests]
  simp only [SlidingWindow.tryAccept]
  split
  · rename_i hroom
    exact iff_of_true rfl hroom
  · rename_i hroom
    exact iff_of_false Bool.false_ne_true hroom

theorem tryAccept (h : w.Tracks log now) (hle : now ≤ later) :
    (w.tryAccept now later).2.Tracks
      (if (w.tryAccept now later).1 then log ++ [later] else log) later := by
  by_cases hroom : (w.cleanup now).requests.length < w.maxRequests
  · have heq : w.tryAccept now later =
        (true, { w.cleanup now with requests := (w.cleanup now).requests ++ [later] }) :=
      if_pos hroom
    rw [heq]
    rw [h.cleanup_requests] at hroom
    exact h.cleanup.push hle hroom
  · have heq : w.tryAccept now later = (false, w.cleanup now) := if_neg hroom
    rw [heq]
    exact h.cleanup.mono hle

/-- A window that is full of something is one of a size that can hold back a request. -/
theorem windowSize_nonneg (h : w.Tracks log now)
    (hfull : ¬ (recent (windowStart w.windowSize now) log).length < w.maxRequests)
    (hopen : w.maxRequests ≠ 0) : 0 ≤ w.windowSize := by
  by_contra hneg
  have hnil : recent (windowStart w.windowSize now) log = [] := by
    refine recent_eq_nil fun t ht ↦ ?_
    have := h.past t ht
    unfold windowStart
    omega
  rw [hnil, List.length_nil] at hfull
  omega

end Tracks

/-- A window that can hold back a request fills up. -/
theorem tryAccept_replicate {m n : ℕ} {size : ℤ} (hlimits : m = 0 ∨ 0 ≤ size) :
    (SlidingWindow.mk m size (List.replicate (min n m) 0)).tryAccept 0 0 =
      (decide (n < m), ⟨m, size, List.replicate (min (n + 1) m) 0⟩) := by
  have hkept : (List.replicate (min n m) (0 : ℤ)).dropWhile (fun t ↦ t < windowStart size 0) =
      List.replicate (min n m) 0 := by
    rcases hlimits with rfl | hsize
    · rw [Nat.min_zero]
      rfl
    · cases min n m with
      | zero => rfl
      | succ k =>
          rw [List.replicate_succ, List.dropWhile_cons_of_neg]
          have hstart : ¬ (0 : ℤ) < windowStart size 0 := by
            unfold windowStart
            omega
          simpa using hstart
  unfold SlidingWindow.tryAccept cleanup
  simp only [hkept, List.length_replicate]
  by_cases hroom : n < m
  · have hmin : min n m = n := by omega
    have hsucc : min (n + 1) m = n + 1 := by omega
    rw [hmin, hsucc]
    simp [hroom, List.replicate_succ']
  · have hmin : min n m = m := by omega
    have hsucc : min (n + 1) m = m := by omega
    rw [hmin, hsucc]
    simp [hroom]

end SlidingWindow

namespace RateLimiterMiddleware

/-- The route of a path: none if it has no configuration of its own. -/
def routeOf (config : RateLimiterConfig) (path : Bytes) : Option Bytes :=
  (routeEntry config path).map Prod.fst

/-- A request is limited by a window and not by a bucket. -/
def Windowed (config : RateLimiterConfig) (path : Bytes) : Prop :=
  (getConfigForRoute config path).algorithm = .slidingWindow

instance (config : RateLimiterConfig) (path : Bytes) : Decidable (Windowed config path) :=
  inferInstanceAs (Decidable (_ = _))

def keyOf (config : RateLimiterConfig) (x : Arrival) : Bytes :=
  getLimiterKey x (getConfigForRoute config x.request.path).dimension

/-- A request and what `before` threw. -/
structure Handling where
  arrival : Arrival
  thrown : Option HttpResponse

/-- The limiters and the requests so far. -/
structure Served where
  limiters : Limiters
  past : List Handling

def Served.initial : Served where
  limiters := .empty
  past := []

def handle (config : RateLimiterConfig) (s : Served) (x : Arrival) : Served :=
  let (thrown, limiters) := beforeRequest config s.limiters x
  { limiters := limiters, past := s.past ++ [⟨x, thrown⟩] }

def serve (config : RateLimiterConfig) (xs : List Arrival) : Served :=
  Runs.run (handle config) .initial xs

/-- The clock does not go back from one request to the next. -/
def Timed (xs : List Arrival) : Prop :=
  xs.Pairwise fun x y ↦ x.later ≤ y.now

/-- The times at which requests of the route were admitted that count for the key. -/
def admittedFor (config : RateLimiterConfig) (route : Option Bytes) (key : Bytes)
    (past : List Handling) : List ℤ :=
  (past.filter fun x ↦ x.thrown.isNone ∧ routeOf config x.arrival.request.path = route ∧
    keyOf config x.arrival = key).map fun x ↦ x.arrival.later

/-- In no window of a route are more requests admitted than it allows, and a request is
held back only if that many were admitted in the window before it. -/
structure Enforced (config : RateLimiterConfig) (past : List Handling) : Prop where
  bounded : ∀ path key b, Windowed config path →
    (within (SlidingWindow.windowStart (getConfigForRoute config path).windowSize b) b
      (admittedFor config (routeOf config path) key past)).length ≤
      (getConfigForRoute config path).maxRequests
  justified : ∀ earlier x, earlier ++ [x] <+: past → Windowed config x.arrival.request.path →
    x.thrown.isSome → (getConfigForRoute config x.arrival.request.path).maxRequests ≤
      (within (SlidingWindow.windowStart
        (getConfigForRoute config x.arrival.request.path).windowSize x.arrival.now) x.arrival.now
        (admittedFor config (routeOf config x.arrival.request.path) (keyOf config x.arrival)
          earlier)).length

/-- Both let nothing through, or both let everything through. -/
def Indifferent (c c' : RateLimiterConfig) : Prop :=
  (c.maxRequests = 0 ∧ c'.maxRequests = 0) ∨
    (0 < c.maxRequests ∧ 0 < c'.maxRequests ∧ c.windowSize < 0 ∧ c'.windowSize < 0)

/-- Different routes whose windows have the same dimension are told apart by the path. -/
def Isolated (config : RateLimiterConfig) : Prop :=
  ∀ p p', routeOf config p ≠ routeOf config p' → Windowed config p → Windowed config p' →
    (getConfigForRoute config p).dimension = (getConfigForRoute config p').dimension →
      (getConfigForRoute config p).dimension = .perRoute ∨
        Indifferent (getConfigForRoute config p) (getConfigForRoute config p')

/-! ## One request -/

variable {config : RateLimiterConfig}

/-- The first entry with a path is found whenever an entry with this path is. -/
theorem find?_eq_of_fst_eq {entries : List (Bytes × RateLimiterConfig)} {p p' : Bytes}
    {e e' : Bytes × RateLimiterConfig}
    (h : entries.find? (fun q ↦ q.1.isPrefixOf p) = some e)
    (h' : entries.find? (fun q ↦ q.1.isPrefixOf p') = some e') (heq : e.1 = e'.1) : e = e' := by
  have hfound := List.find?_some h
  have hfound' := List.find?_some h'
  induction entries with
  | nil => cases h
  | cons q entries ih =>
      rw [List.find?_cons] at h h'
      cases hq : q.1.isPrefixOf p <;> cases hq' : q.1.isPrefixOf p' <;>
        simp only [hq, hq', Option.some.injEq] at h h'
      · exact ih h h'
      · rw [h', ← heq] at hq
        rw [hq] at hfound
        cases hfound
      · rw [h, heq] at hq'
        rw [hq'] at hfound'
        cases hfound'
      · exact h.symm.trans h'

theorem getConfigForRoute_eq {p p' : Bytes} (h : routeOf config p = routeOf config p') :
    getConfigForRoute config p = getConfigForRoute config p' := by
  unfold routeOf at h
  unfold getConfigForRoute
  cases he : routeEntry config p with
  | none =>
      rw [he, Option.map_none, eq_comm, Option.map_eq_none_iff] at h
      rw [h]
  | some e =>
      rw [he, Option.map_some, eq_comm, Option.map_eq_some_iff] at h
      obtain ⟨e', he', hfst⟩ := h
      rw [he', find?_eq_of_fst_eq he' he hfst]

/-- The times of all requests that were counted by the window of the key. -/
def countedFor (config : RateLimiterConfig) (key : Bytes) (past : List Handling) : List ℤ :=
  (past.filter fun x ↦ x.thrown.isNone ∧ Windowed config x.arrival.request.path ∧
    keyOf config x.arrival = key).map fun x ↦ x.arrival.later

theorem countedFor_snoc (key : Bytes) (past : List Handling) (x : Handling) :
    countedFor config key (past ++ [x]) = countedFor config key past ++
      if x.thrown.isNone ∧ Windowed config x.arrival.request.path ∧ keyOf config x.arrival = key
      then [x.arrival.later] else [] := by
  unfold countedFor
  rw [List.filter_append, List.map_append, List.filter_cons, List.filter_nil]
  split <;> simp_all

theorem admittedFor_sublist {path : Bytes} (hpath : Windowed config path) (key : Bytes)
    (past : List Handling) :
    (admittedFor config (routeOf config path) key past).Sublist (countedFor config key past) := by
  refine List.Sublist.map _ (List.monotone_filter_right past fun x hx ↦ ?_)
  simp only [decide_eq_true_eq] at hx ⊢
  refine ⟨hx.1, ?_, hx.2.2⟩
  rw [Windowed, getConfigForRoute_eq hx.2.1]
  exact hpath

/-- The window that counts the request. -/
def windowFor (config : RateLimiterConfig) (s : Limiters) (x : Arrival) : SlidingWindow :=
  (s.slidingWindows (keyOf config x)).getD
    (.create (getConfigForRoute config x.request.path).maxRequests
      (getConfigForRoute config x.request.path).windowSize)

/-- The requests that were handled. -/
def Served.arrivals (s : Served) : List Arrival :=
  s.past.map Handling.arrival

@[simp] theorem handle_arrivals (s : Served) (x : Arrival) :
    (handle config s x).arrivals = s.arrivals ++ [x] := by
  simp [Served.arrivals, handle]

theorem handle_past (s : Served) (x : Arrival) :
    (handle config s x).past = s.past ++ [⟨x, (beforeRequest config s.limiters x).1⟩] :=
  rfl

theorem isNone_before (allowed : Bool) (r : HttpRequest) :
    (before allowed r).isNone = allowed := by
  cases allowed <;> rfl

section Windowed

variable {s : Served} {x : Arrival} (hx : Windowed config x.request.path)
include hx

theorem handle_slidingWindows :
    (handle config s x).limiters.slidingWindows =
      Function.update s.limiters.slidingWindows (keyOf config x)
        (some ((windowFor config s.limiters x).tryAccept x.now x.later).2) := by
  unfold Windowed at hx
  simp only [handle, beforeRequest, isAllowed, getOrCreateLimiter, hx]
  rfl

theorem isNone_beforeRequest :
    (beforeRequest config s.limiters x).1.isNone =
      ((windowFor config s.limiters x).tryAccept x.now x.later).1 := by
  unfold Windowed at hx
  simp only [beforeRequest, isAllowed, getOrCreateLimiter, hx]
  exact isNone_before _ _

end Windowed

theorem handle_slidingWindows_of_not {s : Served} {x : Arrival}
    (hx : ¬ Windowed config x.request.path) :
    (handle config s x).limiters.slidingWindows = s.limiters.slidingWindows := by
  unfold Windowed at hx
  cases halg : (getConfigForRoute config x.request.path).algorithm with
  | slidingWindow => exact absurd halg hx
  | tokenBucket => simp only [handle, beforeRequest, isAllowed, getOrCreateLimiter, halg]

/-- The limits of a window are those of the configuration of the request. -/
def LimitedBy (config : RateLimiterConfig) (w : SlidingWindow) (x : Arrival) : Prop :=
  w.maxRequests = (getConfigForRoute config x.request.path).maxRequests ∧
    w.windowSize = (getConfigForRoute config x.request.path).windowSize

theorem LimitedBy.tryAccept {w : SlidingWindow} {x : Arrival} (h : LimitedBy config w x)
    (now later : ℤ) : LimitedBy config (w.tryAccept now later).2 x := by
  unfold SlidingWindow.tryAccept
  dsimp only
  split
  · exact h
  · exact h

/-- A window is there for every key that was asked for, with the limits of one of the
requests, and is that of all requests with the key. -/
structure Accounted (config : RateLimiterConfig) (s : Served) (now : ℤ) : Prop where
  unseen : ∀ key, s.limiters.slidingWindows key = none → ∀ x ∈ s.arrivals,
    Windowed config x.request.path → keyOf config x ≠ key
  origin : ∀ key w, s.limiters.slidingWindows key = some w → ∃ x ∈ s.arrivals,
    Windowed config x.request.path ∧ keyOf config x = key ∧ LimitedBy config w x
  tracks : ∀ key w, s.limiters.slidingWindows key = some w →
    w.Tracks (countedFor config key s.past) now

namespace Accounted

variable {s : Served} {now : ℤ} {x : Arrival}

theorem mono (h : Accounted config s now) {later : ℤ} (hle : now ≤ later) :
    Accounted config s later where
  unseen := h.unseen
  origin := h.origin
  tracks := fun key w hw ↦ (h.tracks key w hw).mono hle

theorem countedFor_eq_nil (h : Accounted config s now) {key : Bytes}
    (hnone : s.limiters.slidingWindows key = none) : countedFor config key s.past = [] := by
  rw [countedFor, List.map_eq_nil_iff, List.filter_eq_nil_iff]
  intro x hx
  simp only [decide_eq_true_eq, not_and]
  exact fun _ hwindowed ↦ h.unseen key hnone x.arrival (List.mem_map_of_mem hx) hwindowed

theorem windowFor_tracks (h : Accounted config s x.now) :
    (windowFor config s.limiters x).Tracks (countedFor config (keyOf config x) s.past) x.now := by
  unfold windowFor
  cases hw : s.limiters.slidingWindows (keyOf config x) with
  | none =>
      rw [h.countedFor_eq_nil hw]
      exact SlidingWindow.tracks_create _ _ _
  | some w => exact h.tracks _ w hw

/-- The limits of the window are those of a request with the key, be it this one. -/
theorem windowFor_origin (h : Accounted config s now) (hx : Windowed config x.request.path) :
    ∃ y ∈ s.arrivals ++ [x], Windowed config y.request.path ∧ keyOf config y = keyOf config x ∧
      LimitedBy config (windowFor config s.limiters x) y := by
  unfold windowFor
  cases hw : s.limiters.slidingWindows (keyOf config x) with
  | none => exact ⟨x, List.mem_append_right _ (List.mem_singleton_self x), hx, rfl, rfl, rfl⟩
  | some w =>
      obtain ⟨y, hy, horigin⟩ := h.origin _ w hw
      exact ⟨y, List.mem_append_left _ hy, horigin⟩

theorem handle_bucket (h : Accounted config s x.now) (hx : ¬ Windowed config x.request.path) :
    Accounted config (handle config s x) x.now := by
  have hwindows := handle_slidingWindows_of_not (s := s) hx
  constructor
  · intro key hnone y hy hwindowed
    rw [hwindows] at hnone
    rw [handle_arrivals] at hy
    rcases List.mem_append.mp hy with hy | hy
    · exact h.unseen key hnone y hy hwindowed
    · rw [List.mem_singleton.mp hy] at hwindowed
      exact absurd hwindowed hx
  · intro key w hw
    rw [hwindows] at hw
    obtain ⟨y, hy, horigin⟩ := h.origin key w hw
    rw [handle_arrivals]
    exact ⟨y, List.mem_append_left _ hy, horigin⟩
  · intro key w hw
    rw [hwindows] at hw
    rw [handle_past, countedFor_snoc, if_neg fun hcounts ↦ hx hcounts.2.1, List.append_nil]
    exact h.tracks key w hw

theorem handle_window (h : Accounted config s x.now) (hx : Windowed config x.request.path) :
    Accounted config (handle config s x) x.later := by
  constructor
  · intro key hnone z hz hwindowed
    rw [handle_slidingWindows hx] at hnone
    have hne : key ≠ keyOf config x := by
      rintro rfl
      simp at hnone
    rw [Function.update_of_ne hne] at hnone
    rw [handle_arrivals] at hz
    rcases List.mem_append.mp hz with hz | hz
    · exact h.unseen key hnone z hz hwindowed
    · rw [List.mem_singleton.mp hz]
      exact hne.symm
  · intro key w hw
    rw [handle_slidingWindows hx] at hw
    rw [handle_arrivals]
    by_cases hkey : key = keyOf config x
    · subst hkey
      rw [Function.update_self, Option.some.injEq] at hw
      obtain ⟨y, hy, hywindowed, hykey, hlimits⟩ := h.windowFor_origin hx
      exact ⟨y, hy, hywindowed, hykey, hw ▸ hlimits.tryAccept _ _⟩
    · rw [Function.update_of_ne hkey] at hw
      obtain ⟨z, hz, horigin⟩ := h.origin key w hw
      exact ⟨z, List.mem_append_left _ hz, horigin⟩
  · intro key w hw
    rw [handle_slidingWindows hx] at hw
    rw [handle_past, countedFor_snoc, isNone_beforeRequest hx]
    by_cases hkey : key = keyOf config x
    · subst hkey
      rw [Function.update_self, Option.some.injEq] at hw
      have htracks := h.windowFor_tracks.tryAccept x.le
      rw [hw] at htracks
      cases hallowed : ((windowFor config s.limiters x).tryAccept x.now x.later).1 with
      | true => simpa [hallowed, hx] using htracks
      | false => simpa [hallowed] using htracks
    · rw [Function.update_of_ne hkey] at hw
      rw [if_neg fun hcounts ↦ hkey hcounts.2.2.symm, List.append_nil]
      exact (h.tracks key w hw).mono x.le

theorem handle (h : Accounted config s x.now) :
    Accounted config (handle config s x) x.later := by
  by_cases hx : Windowed config x.request.path
  · exact h.handle_window hx
  · exact (h.handle_bucket hx).mono x.le

end Accounted

/-- Requests of different routes are counted by different windows. -/
def Apart (config : RateLimiterConfig) (xs : List Arrival) : Prop :=
  ∀ x ∈ xs, ∀ y ∈ xs, Windowed config x.request.path → Windowed config y.request.path →
    keyOf config x = keyOf config y →
      routeOf config x.request.path = routeOf config y.request.path ∨
        Indifferent (getConfigForRoute config x.request.path)
          (getConfigForRoute config y.request.path)

theorem mem_admittedFor {route : Option Bytes} {key : Bytes} {past : List Handling} {t : ℤ}
    (h : t ∈ admittedFor config route key past) :
    ∃ x ∈ past.map Handling.arrival, routeOf config x.request.path = route ∧
      keyOf config x = key := by
  obtain ⟨x, hx, rfl⟩ := List.mem_map.mp h
  have hmem := List.mem_filter.mp hx
  have hcounts := of_decide_eq_true hmem.2
  exact ⟨x.arrival, List.mem_map_of_mem hmem.1, hcounts.2⟩

theorem Accounted.bounded {s : Served} {now : ℤ} (h : Accounted config s now)
    (hapart : Apart config s.arrivals) {path : Bytes} (key : Bytes) (b : ℤ)
    (hpath : Windowed config path) :
    (within (SlidingWindow.windowStart (getConfigForRoute config path).windowSize b) b
      (admittedFor config (routeOf config path) key s.past)).length ≤
      (getConfigForRoute config path).maxRequests := by
  have hsub := admittedFor_sublist hpath key s.past
  by_cases hsize : (getConfigForRoute config path).windowSize < 0
  · rw [within_eq_nil (by unfold SlidingWindow.windowStart; omega)]
    exact Nat.zero_le _
  cases hlog : admittedFor config (routeOf config path) key s.past with
  | nil => exact Nat.zero_le _
  | cons t rest =>
      obtain ⟨x, hx, hroute, hkey⟩ := mem_admittedFor (hlog ▸ List.mem_cons_self)
      have hconfig := getConfigForRoute_eq hroute
      have hwindowed : Windowed config x.request.path := by
        rw [Windowed, hconfig]
        exact hpath
      cases hw : s.limiters.slidingWindows key with
      | none => exact absurd hkey (h.unseen key hw x hx hwindowed)
      | some w =>
          obtain ⟨y, hy, hywindowed, hykey, hmax, hwindow⟩ := h.origin key w hw
          have htracks := h.tracks key w hw
          rw [← hlog]
          rcases hapart x hx y hy hwindowed hywindowed (hkey.trans hykey.symm) with hsame | hind
          · have hlimits := getConfigForRoute_eq hsame
            rw [hconfig] at hlimits
            rw [← hlimits] at hmax hwindow
            rw [← hmax, ← hwindow]
            exact (hsub.filter _).length_le.trans (htracks.sparse b)
          · rw [hconfig] at hind
            rcases hind with ⟨-, hzero⟩ | ⟨-, -, hneg, -⟩
            · -- a window without room has admitted nothing
              rw [htracks.shut (hmax.trans hzero), hlog] at hsub
              cases hsub
            · exact absurd hneg hsize

/-- Requests that share a window with one that it can hold back are of its route. -/
theorem Apart.routeOf_eq {xs : List Arrival} (h : Apart config xs) {x y : Arrival} (hx : x ∈ xs)
    (hy : y ∈ xs) (hxwindowed : Windowed config x.request.path)
    (hywindowed : Windowed config y.request.path) (hkey : keyOf config x = keyOf config y)
    (hmax : (getConfigForRoute config y.request.path).maxRequests ≠ 0)
    (hsize : 0 ≤ (getConfigForRoute config y.request.path).windowSize) :
    routeOf config x.request.path = routeOf config y.request.path := by
  rcases h x hx y hy hxwindowed hywindowed hkey with hsame | hind
  · exact hsame
  · rcases hind with ⟨-, hzero⟩ | ⟨-, -, -, hneg⟩
    · exact absurd hzero hmax
    · omega

/-- If all requests with the key are of one route, its window counts this route. -/
theorem admittedFor_eq_countedFor {path : Bytes} {key : Bytes} {past : List Handling}
    (hpath : Windowed config path)
    (hroute : ∀ x ∈ past.map Handling.arrival, Windowed config x.request.path →
      keyOf config x = key → routeOf config x.request.path = routeOf config path) :
    admittedFor config (routeOf config path) key past = countedFor config key past := by
  refine congrArg _ (List.filter_congr fun x hx ↦ decide_eq_decide.mpr ?_)
  constructor
  · rintro ⟨hthrown, hsame, hkey⟩
    refine ⟨hthrown, ?_, hkey⟩
    rw [Windowed, getConfigForRoute_eq hsame]
    exact hpath
  · rintro ⟨hthrown, hwindowed, hkey⟩
    exact ⟨hthrown, hroute x.arrival (List.mem_map_of_mem hx) hwindowed hkey, hkey⟩

theorem Accounted.justified {s : Served} {x : Arrival} (h : Accounted config s x.now)
    (hapart : Apart config (s.arrivals ++ [x])) (hx : Windowed config x.request.path)
    (hrejected : ((windowFor config s.limiters x).tryAccept x.now x.later).1 = false) :
    (getConfigForRoute config x.request.path).maxRequests ≤
      (within (SlidingWindow.windowStart
        (getConfigForRoute config x.request.path).windowSize x.now) x.now
        (admittedFor config (routeOf config x.request.path) (keyOf config x) s.past)).length := by
  have htracks := h.windowFor_tracks
  obtain ⟨y, hy, hywindowed, hykey, hmax, hwindow⟩ := h.windowFor_origin hx
  have hfull := (not_congr htracks.tryAccept_iff).mp (by rw [hrejected]; exact Bool.false_ne_true)
  have hxmem : x ∈ s.arrivals ++ [x] := List.mem_append_right _ (List.mem_singleton_self x)
  by_cases hzero : (windowFor config s.limiters x).maxRequests = 0
  · rw [hmax] at hzero
    have hnone : (getConfigForRoute config x.request.path).maxRequests = 0 := by
      rcases hapart x hxmem y hy hx hywindowed hykey.symm with hsame | hind
      · rw [getConfigForRoute_eq hsame]
        exact hzero
      · rcases hind with ⟨hxzero, -⟩ | ⟨-, hpos, -⟩
        · exact hxzero
        · omega
    rw [hnone]
    exact Nat.zero_le _
  · have hopen := htracks.windowSize_nonneg hfull hzero
    rw [hmax] at hzero
    rw [hwindow] at hopen
    have hroutes : ∀ z ∈ s.arrivals ++ [x], Windowed config z.request.path →
        keyOf config z = keyOf config x →
          routeOf config z.request.path = routeOf config y.request.path := by
      intro z hz hzwindowed hzkey
      exact hapart.routeOf_eq hz hy hzwindowed hywindowed (hzkey.trans hykey.symm) hzero hopen
    have hxroute := hroutes x hxmem hx rfl
    rw [admittedFor_eq_countedFor hx fun z hz hzwindowed hzkey ↦
      (hroutes z (List.mem_append_left _ hz) hzwindowed hzkey).trans hxroute.symm,
      within_eq_recent htracks.past, getConfigForRoute_eq hxroute, ← hmax, ← hwindow]
    exact Nat.le_of_not_lt hfull

@[simp] theorem serve_snoc (xs : List Arrival) (x : Arrival) :
    serve config (xs ++ [x]) = handle config (serve config xs) x :=
  Runs.run_snoc _ _ _ _

@[simp] theorem serve_arrivals (xs : List Arrival) : (serve config xs).arrivals = xs := by
  induction xs using List.reverseRecOn with
  | nil => rfl
  | append_singleton xs x ih => rw [serve_snoc, handle_arrivals, ih]

theorem Timed.of_snoc {xs : List Arrival} {x : Arrival} (h : Timed (xs ++ [x])) :
    Timed xs ∧ ∀ y ∈ xs, y.later ≤ x.now := by
  have hparts := List.pairwise_append.mp h
  exact ⟨hparts.1, fun y hy ↦ hparts.2.2 y hy x (List.mem_singleton_self x)⟩

theorem accounted_initial (now : ℤ) : Accounted config .initial now where
  unseen := fun _ _ _ hx ↦ absurd hx List.not_mem_nil
  origin := fun _ _ hw ↦ absurd hw (Option.some_ne_none _).symm
  tracks := fun _ _ hw ↦ absurd hw (Option.some_ne_none _).symm

theorem accounted_serve {xs : List Arrival} (htimed : Timed xs) {now : ℤ}
    (hnow : ∀ x ∈ xs, x.later ≤ now) : Accounted config (serve config xs) now := by
  induction xs using List.reverseRecOn generalizing now with
  | nil => exact accounted_initial now
  | append_singleton xs x ih =>
      obtain ⟨hpast, hbefore⟩ := htimed.of_snoc
      rw [serve_snoc]
      exact (ih hpast hbefore).handle.mono
        (hnow x (List.mem_append_right _ (List.mem_singleton_self x)))

theorem Apart.of_append {xs ys : List Arrival} (h : Apart config (xs ++ ys)) : Apart config xs :=
  fun x hx y hy ↦ h x (List.mem_append_left _ hx) y (List.mem_append_left _ hy)

theorem exists_accounted_serve {xs : List Arrival} (htimed : Timed xs) :
    ∃ now, Accounted config (serve config xs) now := by
  induction xs using List.reverseRecOn with
  | nil => exact ⟨0, accounted_initial 0⟩
  | append_singleton xs x _ =>
      obtain ⟨hpast, hbefore⟩ := htimed.of_snoc
      rw [serve_snoc]
      exact ⟨x.later, (accounted_serve hpast hbefore).handle⟩

/-- The limits hold along every run in which different routes have different windows. -/
theorem enforced_of_apart {xs : List Arrival} (htimed : Timed xs) (hapart : Apart config xs) :
    Enforced config (serve config xs).past := by
  constructor
  · intro path key b hpath
    obtain ⟨now, haccounted⟩ : ∃ now, Accounted config (serve config xs) now :=
      exists_accounted_serve htimed
    refine haccounted.bounded ?_ key b hpath
    rw [serve_arrivals]
    exact hapart
  · induction xs using List.reverseRecOn with
    | nil =>
        intro earlier x hprefix
        have := hprefix.length_le
        simp [serve, Served.initial] at this
    | append_singleton xs y ih =>
        obtain ⟨hpast, hbefore⟩ := htimed.of_snoc
        intro earlier x hprefix hx hthrown
        rw [serve_snoc, handle_past] at hprefix
        rcases Runs.snoc_isPrefix_snoc.mp hprefix with ⟨rfl, rfl⟩ | hprefix
        · refine (accounted_serve hpast hbefore).justified ?_ hx ?_
          · rw [serve_arrivals]
            exact hapart
          · rw [← isNone_beforeRequest hx, ← Option.not_isSome]
            exact congrArg (!·) hthrown
        · exact ih hpast hapart.of_append earlier x hprefix hx hthrown

/-! ## Configurations -/

/-- The keys of different dimensions are different, by their first letters. -/
theorem dimension_eq_of_getLimiterKey_eq {x y : Arrival} {d d' : RateLimiterConfig.Dimension}
    (h : getLimiterKey x d = getLimiterKey y d') : d = d' := by
  cases d <;> cases d' <;> first | rfl | simp [getLimiterKey, ascii] at h

theorem path_eq_of_getLimiterKey_eq {x y : Arrival}
    (h : getLimiterKey x .perRoute = getLimiterKey y .perRoute) :
    x.request.path = y.request.path :=
  List.append_cancel_left h

theorem Isolated.apart (h : Isolated config) (xs : List Arrival) : Apart config xs := by
  intro x _ y _ hx hy hkey
  by_cases hroute : routeOf config x.request.path = routeOf config y.request.path
  · exact .inl hroute
  · have hdimension := dimension_eq_of_getLimiterKey_eq hkey
    rcases h _ _ hroute hx hy hdimension with hperRoute | hind
    · unfold keyOf at hkey
      rw [← hdimension, hperRoute] at hkey
      exact absurd (congrArg (routeOf config) (path_eq_of_getLimiterKey_eq hkey)) hroute
    · exact .inr hind

/-- A request of the path at the time zero. -/
def visit (path : Bytes) : Arrival where
  request := HttpRequest.create.setPath path
  clientIP := []
  now := 0
  later := 0
  le := le_rfl

theorem keyOf_visit_eq {p p' : Bytes}
    (hdimension : (getConfigForRoute config p).dimension = (getConfigForRoute config p').dimension)
    (hperRoute : (getConfigForRoute config p).dimension ≠ .perRoute) :
    keyOf config (visit p') = keyOf config (visit p) := by
  have hconfig : ∀ path, keyOf config (visit path) =
      getLimiterKey (visit path) (getConfigForRoute config path).dimension := fun _ ↦ rfl
  rw [hconfig, hconfig, ← hdimension]
  cases hd : (getConfigForRoute config p).dimension with
  | global => rfl
  | perIP => rfl
  | perRoute => exact absurd hd hperRoute
  | perUser => rfl

theorem windowFor_handle {s : Served} {x y : Arrival} (hx : Windowed config x.request.path)
    (hkey : keyOf config y = keyOf config x) :
    windowFor config (handle config s x).limiters y =
      ((windowFor config s.limiters x).tryAccept x.now x.later).2 := by
  rw [windowFor, handle_slidingWindows hx, hkey, Function.update_self, Option.getD_some]

theorem windowFor_visits {path : Bytes} (hpath : Windowed config path)
    (hlimits : (getConfigForRoute config path).maxRequests = 0 ∨
      0 ≤ (getConfigForRoute config path).windowSize) (n : ℕ) :
    windowFor config (serve config (List.replicate n (visit path))).limiters (visit path) =
      ⟨(getConfigForRoute config path).maxRequests, (getConfigForRoute config path).windowSize,
        List.replicate (min n (getConfigForRoute config path).maxRequests) 0⟩ := by
  induction n with
  | zero => rfl
  | succ n ih =>
      rw [List.replicate_succ', serve_snoc, windowFor_handle hpath rfl, ih]
      exact congrArg Prod.snd (SlidingWindow.tryAccept_replicate hlimits)

theorem timed_visits (paths : List Bytes) : Timed (paths.map visit) :=
  List.pairwise_map.mpr (List.pairwise_of_forall fun _ _ ↦ le_rfl)

section Shared

variable {p p' : Bytes} (hp : Windowed config p) (hp' : Windowed config p')
  (hlimits : (getConfigForRoute config p).maxRequests = 0 ∨
    0 ≤ (getConfigForRoute config p).windowSize)

include hp hp' hlimits

/-- The requests of a route lock out another one with the same key. -/
theorem isSome_beforeRequest_of_visits (hkey : keyOf config (visit p') = keyOf config (visit p)) :
    (beforeRequest config (serve config (List.replicate
      ((getConfigForRoute config p).maxRequests + 1) (visit p))).limiters (visit p')).1.isSome := by
  rw [← Option.not_isNone, isNone_beforeRequest hp', List.replicate_succ', serve_snoc,
    windowFor_handle hp hkey, windowFor_visits hp hlimits]
  have hfilled := SlidingWindow.tryAccept_replicate
    (n := (getConfigForRoute config p).maxRequests) hlimits
  have hfull := SlidingWindow.tryAccept_replicate
    (n := (getConfigForRoute config p).maxRequests + 1) hlimits
  have hrejected : decide ((getConfigForRoute config p).maxRequests + 1 <
      (getConfigForRoute config p).maxRequests) = false := decide_eq_false (by omega)
  simp only [visit, hfilled, hfull, hrejected, Bool.not_false]

/-- So a route that can be locked out must let nothing through itself. -/
theorem maxRequests_eq_zero (hroute : routeOf config p ≠ routeOf config p')
    (hkey : keyOf config (visit p') = keyOf config (visit p))
    (henforced : ∀ xs, Timed xs → Enforced config (serve config xs).past) :
    (getConfigForRoute config p').maxRequests = 0 := by
  have hrejected := isSome_beforeRequest_of_visits hp hp' hlimits hkey
  set n := (getConfigForRoute config p).maxRequests + 1
  have htimed : Timed (List.replicate n (visit p) ++ [visit p']) := by
    simpa using timed_visits (List.replicate n p ++ [p'])
  have hnone : admittedFor config (routeOf config p') (keyOf config (visit p'))
      (serve config (List.replicate n (visit p))).past = [] := by
    refine List.eq_nil_iff_forall_not_mem.mpr fun t ht ↦ ?_
    obtain ⟨x, hx, hsame, -⟩ := mem_admittedFor ht
    have hmem : x ∈ (serve config (List.replicate n (visit p))).arrivals := hx
    rw [serve_arrivals] at hmem
    rw [List.eq_of_mem_replicate hmem] at hsame
    exact hroute hsame
  have hpast : (serve config (List.replicate n (visit p) ++ [visit p'])).past = _ :=
    (congrArg Served.past (serve_snoc _ _)).trans (handle_past _ _)
  have hjustified := (henforced _ htimed).justified _ _
    ⟨[], (List.append_nil _).trans hpast.symm⟩ hp' hrejected
  have hzero := hjustified.trans (congrArg (fun log ↦ (within _ _ log).length) hnone).le
  exact Nat.le_zero.mp hzero

end Shared

/-- The limits of the routes hold along every run exactly if no two routes of one
dimension share a window. -/
theorem enforced_iff_isolated (config : RateLimiterConfig) :
    (∀ xs, Timed xs → Enforced config (serve config xs).past) ↔ Isolated config := by
  constructor
  · intro h p p' hroute hp hp' hdimension
    by_cases hperRoute : (getConfigForRoute config p).dimension = .perRoute
    · exact .inl hperRoute
    · have hkey := keyOf_visit_eq hdimension hperRoute
      have hlocked := fun hlimits ↦ maxRequests_eq_zero hp hp' hlimits hroute hkey h
      have hlocked' := fun hlimits ↦ maxRequests_eq_zero hp' hp hlimits hroute.symm hkey.symm h
      refine .inr ?_
      by_cases hzero : (getConfigForRoute config p).maxRequests = 0
      · exact .inl ⟨hzero, hlocked (.inl hzero)⟩
      · have hzero' : (getConfigForRoute config p').maxRequests ≠ 0 :=
          fun hzero' ↦ hzero (hlocked' (.inl hzero'))
        refine .inr ⟨Nat.pos_of_ne_zero hzero, Nat.pos_of_ne_zero hzero', ?_, ?_⟩
        · exact not_le.mp fun hsize ↦ hzero' (hlocked (.inr hsize))
        · exact not_le.mp fun hsize ↦ hzero (hlocked' (.inr hsize))
  · intro h xs htimed
    exact enforced_of_apart htimed (h.apart xs)

/-- All clients may ask for ten pages in a window and log in once. -/
def loginConfig : RateLimiterConfig where
  algorithm := .slidingWindow
  routeConfigs := [(ascii "/login", { algorithm := .slidingWindow, maxRequests := 1 })]

/-- After a client has logged in, no other page is open to it. -/
theorem not_enforced_login :
    loginConfig.algorithm = .slidingWindow ∧
      loginConfig.routeConfigs.Pairwise NonPrefix ∧
      Timed [visit (ascii "/login"), visit (ascii "/menu")] ∧
      ¬ Enforced loginConfig
        (serve loginConfig [visit (ascii "/login"), visit (ascii "/menu")]).past := by
  refine ⟨rfl, List.pairwise_singleton _ _, timed_visits [_, _], fun h ↦ ?_⟩
  have hjustified := h.justified (serve loginConfig [visit (ascii "/login")]).past
    ⟨visit (ascii "/menu"), (beforeRequest loginConfig
      (serve loginConfig [visit (ascii "/login")]).limiters (visit (ascii "/menu"))).1⟩
    List.prefix_rfl (by decide +kernel) (by decide +kernel)
  revert hjustified
  decide +kernel

end RateLimiterMiddleware

end HttpRaftKv.Http
