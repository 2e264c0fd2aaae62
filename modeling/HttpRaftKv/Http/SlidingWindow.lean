import HttpRaftKv.Http.RouteLimits

/-!
# One window over all its calls

A window is asked again and again, and each call reads the clock twice: once for the
cleanup and once for the record of the request.  What was accepted so far is the log of
the calls; the window itself has forgotten all of it that is too old.
-/

namespace HttpRaftKv.Http.SlidingWindow

open SlidingLog

/-- A call with its two readings of the clock and its answer. -/
structure Asked where
  now : ℤ
  later : ℤ
  accepted : Bool
deriving DecidableEq, Repr

/-- The times at which requests were accepted. -/
def accepted (past : List Asked) : List ℤ :=
  (past.filter Asked.accepted).map Asked.later

/-- A window and the calls so far. -/
structure Watched where
  window : SlidingWindow
  past : List Asked
deriving DecidableEq, Repr

/-- One call of `tryAccept`. -/
def Watched.ask (s : Watched) (readings : ℤ × ℤ) : Watched :=
  let (accepted, window) := s.window.tryAccept readings.1 readings.2
  { window := window, past := s.past ++ [⟨readings.1, readings.2, accepted⟩] }

/-- A new window after calls with these readings. -/
def watch (maxRequests : ℕ) (windowSize : ℤ) (readings : List (ℤ × ℤ)) : Watched :=
  Runs.run Watched.ask ⟨create maxRequests windowSize, []⟩ readings

/-- The clock does not go back, neither in a call nor between two calls. -/
def Timed (readings : List (ℤ × ℤ)) : Prop :=
  (readings.flatMap fun r ↦ [r.1, r.2]).Pairwise (· ≤ ·)

instance (readings : List (ℤ × ℤ)) : Decidable (Timed readings) :=
  inferInstanceAs (Decidable (List.Pairwise _ _))

theorem accepted_snoc (past : List Asked) (x : Asked) :
    accepted (past ++ [x]) = if x.accepted then accepted past ++ [x.later] else accepted past := by
  unfold accepted
  rw [List.filter_append, List.map_append]
  by_cases hx : x.accepted = true
  · rw [if_pos hx, List.filter_cons_of_pos hx]
    rfl
  · rw [if_neg hx, List.filter_cons_of_neg hx]
    exact List.append_nil _

theorem Timed.of_snoc {readings : List (ℤ × ℤ)} {r : ℤ × ℤ} (h : Timed (readings ++ [r])) :
    Timed readings ∧ (∀ q ∈ readings, q.2 ≤ r.1) ∧ r.1 ≤ r.2 := by
  unfold Timed at h
  rw [List.flatMap_append, List.flatMap_singleton] at h
  obtain ⟨hinit, hlast, hbetween⟩ := List.pairwise_append.mp h
  refine ⟨hinit, fun q hq ↦ ?_, ?_⟩
  · have hmem : q.2 ∈ readings.flatMap fun r ↦ [r.1, r.2] :=
      List.mem_flatMap.mpr ⟨q, hq, by simp⟩
    exact hbetween q.2 hmem r.1 (by simp)
  · simpa using hlast

theorem exists_later_le (readings : List (ℤ × ℤ)) : ∃ now, ∀ r ∈ readings, r.2 ≤ now := by
  induction readings with
  | nil => exact ⟨0, by simp⟩
  | cons r readings ih =>
      obtain ⟨now, hnow⟩ := ih
      refine ⟨max r.2 now, fun q hq ↦ ?_⟩
      rcases List.mem_cons.mp hq with rfl | hq
      · exact le_max_left _ _
      · exact (hnow q hq).trans (le_max_right _ _)

/-! ## One call -/

@[simp] theorem tryAccept_maxRequests (w : SlidingWindow) (now later : ℤ) :
    (w.tryAccept now later).2.maxRequests = w.maxRequests := by
  unfold SlidingWindow.tryAccept
  dsimp only
  split
  · rfl
  · rfl

@[simp] theorem tryAccept_windowSize (w : SlidingWindow) (now later : ℤ) :
    (w.tryAccept now later).2.windowSize = w.windowSize := by
  unfold SlidingWindow.tryAccept
  dsimp only
  split
  · rfl
  · rfl

/-- A request is recorded only if there is room for it. -/
theorem length_tryAccept_le {w : SlidingWindow} (h : w.requests.length ≤ w.maxRequests)
    (now later : ℤ) : (w.tryAccept now later).2.requests.length ≤ w.maxRequests := by
  have hkept : (w.cleanup now).requests.length ≤ w.maxRequests :=
    ((List.dropWhile_sublist _).length_le).trans h
  unfold SlidingWindow.tryAccept
  dsimp only
  split
  · rename_i hroom
    rw [List.length_append, List.length_singleton]
    exact hroom
  · exact hkept

/-- A request is refused only if the window that ends now is full. -/
theorem Tracks.length_within_eq {w : SlidingWindow} {log : List ℤ} {now later : ℤ}
    (h : w.Tracks log now) (hrefused : (w.tryAccept now later).1 = false) :
    (within (windowStart w.windowSize now) now log).length = w.maxRequests := by
  have hfull : ¬ (recent (windowStart w.windowSize now) log).length < w.maxRequests := by
    have hnot : ¬ (w.tryAccept now later).1 = true := by
      rw [hrefused]
      exact Bool.false_ne_true
    exact h.tryAccept_iff.not.mp hnot
  have hbound := h.sparse now
  rw [within_eq_recent h.past] at hbound ⊢
  omega

/-! ## All calls -/

/-- What holds of a window with these limits and of the calls so far: no window of this
size has more requests in it than may be accepted, and a request was refused only if that
many had been accepted in the window that ended at the first reading of the clock. -/
structure Limited (maxRequests : ℕ) (windowSize : ℤ) (s : Watched) : Prop where
  bounded : ∀ a, (within a (a + windowSize * 1000000) (accepted s.past)).length ≤ maxRequests
  refused : ∀ earlier x, earlier ++ [x] <+: s.past → x.accepted = false →
    (within (x.now - windowSize * 1000000) x.now (accepted earlier)).length = maxRequests
  sorted : s.window.requests.Pairwise (· ≤ ·)
  short : s.window.requests.length ≤ maxRequests

/-- The window tracks what was accepted, with the limits that it was created with. -/
structure Watched.Sound (maxRequests : ℕ) (windowSize : ℤ) (s : Watched) (now : ℤ) : Prop where
  maxRequests_eq : s.window.maxRequests = maxRequests
  windowSize_eq : s.window.windowSize = windowSize
  tracks : s.window.Tracks (accepted s.past) now
  short : s.window.requests.length ≤ maxRequests
  refused : ∀ earlier x, earlier ++ [x] <+: s.past → x.accepted = false →
    (within (windowStart windowSize x.now) x.now (accepted earlier)).length = maxRequests

namespace Watched.Sound

variable {maxRequests : ℕ} {windowSize : ℤ} {s : Watched} {now : ℤ}

theorem initial (maxRequests : ℕ) (windowSize now : ℤ) :
    Sound maxRequests windowSize ⟨create maxRequests windowSize, []⟩ now where
  maxRequests_eq := rfl
  windowSize_eq := rfl
  tracks := tracks_create _ _ _
  short := Nat.zero_le _
  refused := by
    intro earlier x hpast
    have := hpast.length_le
    simp at this

theorem mono (h : s.Sound maxRequests windowSize now) {later : ℤ} (hle : now ≤ later) :
    s.Sound maxRequests windowSize later :=
  { h with tracks := h.tracks.mono hle }

theorem ask {r : ℤ × ℤ} (h : s.Sound maxRequests windowSize r.1) (hle : r.1 ≤ r.2) :
    (s.ask r).Sound maxRequests windowSize r.2 where
  maxRequests_eq := (tryAccept_maxRequests _ _ _).trans h.maxRequests_eq
  windowSize_eq := (tryAccept_windowSize _ _ _).trans h.windowSize_eq
  tracks := by
    have hpast : accepted (s.ask r).past = if (s.window.tryAccept r.1 r.2).1
        then accepted s.past ++ [r.2] else accepted s.past :=
      accepted_snoc s.past _
    rw [hpast]
    exact h.tracks.tryAccept hle
  short := by
    have hshort : s.window.requests.length ≤ s.window.maxRequests :=
      h.short.trans_eq h.maxRequests_eq.symm
    exact (length_tryAccept_le hshort r.1 r.2).trans_eq h.maxRequests_eq
  refused := by
    intro earlier x hpast hrefused
    rcases Runs.snoc_isPrefix_snoc.mp hpast with ⟨rfl, rfl⟩ | hpast
    · have hfull := h.tracks.length_within_eq hrefused
      rwa [h.windowSize_eq, h.maxRequests_eq] at hfull
    · exact h.refused earlier x hpast hrefused

theorem limited (h : s.Sound maxRequests windowSize now) : Limited maxRequests windowSize s where
  bounded := by
    intro a
    have hbound := h.tracks.sparse (a + windowSize * 1000000)
    rw [h.windowSize_eq, h.maxRequests_eq] at hbound
    unfold windowStart at hbound
    rwa [Int.add_sub_cancel] at hbound
  refused := h.refused
  sorted := by
    obtain ⟨dropped, hlog, -⟩ := h.tracks.kept
    have hsorted := h.tracks.sorted
    rw [hlog] at hsorted
    exact (List.pairwise_append.mp hsorted).2.1
  short := h.short

end Watched.Sound

/-- The window is sound at every time that none of the readings is after. -/
theorem sound_watch (maxRequests : ℕ) (windowSize : ℤ) (readings : List (ℤ × ℤ)) :
    Timed readings → ∀ now, (∀ r ∈ readings, r.2 ≤ now) →
      (watch maxRequests windowSize readings).Sound maxRequests windowSize now := by
  refine Runs.invariant_of_step Watched.ask
    (P := fun readings s ↦ Timed readings → ∀ now, (∀ r ∈ readings, r.2 ≤ now) →
      s.Sound maxRequests windowSize now)
    (fun _ now _ ↦ .initial maxRequests windowSize now) ?_ readings
  intro readings r ih htimed now hnow
  obtain ⟨hinit, hbefore, hle⟩ := htimed.of_snoc
  have hask := (ih hinit r.1 hbefore).ask hle
  exact hask.mono (hnow r (by simp))

/-- A sliding window keeps its limit over every interval of its size, however often it is
asked. -/
theorem limited_watch (maxRequests : ℕ) (windowSize : ℤ) {readings : List (ℤ × ℤ)}
    (h : Timed readings) :
    Limited maxRequests windowSize (watch maxRequests windowSize readings) := by
  obtain ⟨now, hnow⟩ := exists_later_le readings
  exact (sound_watch maxRequests windowSize readings h now hnow).limited

/-- Two requests in a second: the third is refused, the one after the second is not. -/
theorem limited_watch_four :
    Timed [(0, 1), (2, 2), (5, 6), (1000000002, 1000000003)] ∧
      Limited 2 1000 (watch 2 1000 [(0, 1), (2, 2), (5, 6), (1000000002, 1000000003)]) :=
  ⟨by decide, limited_watch 2 1000 (by decide)⟩

end HttpRaftKv.Http.SlidingWindow
