import Mathlib.Order.Lattice
import Mathlib.Order.Monotone.Defs

/-!
# Times in a moving window

The times at which something happened are a list, earliest first.  The window that
ends at `b` begins at `back b`, and `back` is monotone.  A log is sparse if no window
has more than `m` of its times in it, and it stays so if a time is added only while
the window that ends now has room.
-/

namespace HttpRaftKv.SlidingLog

variable {T : Type*} [LinearOrder T]

/-- The times that are not before `start`. -/
def recent (start : T) (log : List T) : List T :=
  log.filter fun t ↦ start ≤ t

/-- The times in the closed interval. -/
def within (a b : T) (log : List T) : List T :=
  log.filter fun t ↦ a ≤ t ∧ t ≤ b

@[simp] theorem recent_nil (start : T) : recent start [] = [] := rfl

theorem recent_append (start : T) (log more : List T) :
    recent start (log ++ more) = recent start log ++ recent start more := by
  simp [recent]

theorem recent_eq_nil {start : T} {log : List T} (h : ∀ t ∈ log, t < start) :
    recent start log = [] := by
  refine List.filter_eq_nil_iff.mpr fun t ht ↦ ?_
  simpa using h t ht

/-- What is left of the recent times when the window moves on. -/
theorem recent_recent {start later : T} (h : start ≤ later) (log : List T) :
    recent later (recent start log) = recent later log := by
  simp only [recent, List.filter_filter]
  refine List.filter_congr fun t _ ↦ ?_
  by_cases ht : later ≤ t
  · simp [ht, h.trans ht]
  · simp [ht]

/-- A log in the order of time is cleaned up from its front. -/
theorem dropWhile_eq_recent {log : List T} (hsorted : log.Pairwise (· ≤ ·)) (start : T) :
    log.dropWhile (fun t ↦ t < start) = recent start log := by
  induction log with
  | nil => rfl
  | cons t log ih =>
      obtain ⟨hfirst, hrest⟩ := List.pairwise_cons.mp hsorted
      by_cases ht : t < start
      · have hnot : ¬ start ≤ t := not_le.mpr ht
        simp only [recent, List.dropWhile_cons, ht, decide_true, if_true, hnot, decide_false,
          Bool.false_eq_true, not_false_eq_true, List.filter_cons_of_neg]
        exact ih hrest
      · have hall : ∀ u ∈ t :: log, start ≤ u := by
          intro u hu
          rcases List.mem_cons.mp hu with rfl | hu
          · exact not_lt.mp ht
          · exact (not_lt.mp ht).trans (hfirst u hu)
        rw [List.dropWhile_cons_of_neg (by simpa using ht), recent, List.filter_eq_self.mpr]
        simpa using hall

theorem within_sublist_recent (a b : T) (log : List T) :
    (within a b log).Sublist (recent a log) := by
  have heq : within a b log = (recent a log).filter fun t ↦ t ≤ b := by
    simp only [within, recent, List.filter_filter]
    exact List.filter_congr fun t _ ↦ by simp [Bool.and_comm]
  rw [heq]
  exact List.filter_sublist

/-- Up to the last time of the log the window is all that is recent. -/
theorem within_eq_recent {a b : T} {log : List T} (hlast : ∀ t ∈ log, t ≤ b) :
    within a b log = recent a log := by
  refine List.filter_congr fun t ht ↦ ?_
  simp [hlast t ht]

theorem within_eq_nil {a b : T} (h : b < a) (log : List T) : within a b log = [] := by
  refine List.filter_eq_nil_iff.mpr fun t _ ↦ ?_
  simp only [decide_eq_true_eq, not_and]
  exact fun hat htb ↦ absurd (hat.trans htb) (not_le.mpr h)

/-- No window has more than `m` times in it. -/
def Sparse (back : T → T) (m : ℕ) (log : List T) : Prop :=
  ∀ b, (within (back b) b log).length ≤ m

theorem sparse_nil (back : T → T) (m : ℕ) : Sparse back m [] :=
  fun _ ↦ Nat.zero_le m

theorem Sparse.snoc {back : T → T} (hback : Monotone back) {m : ℕ} {log : List T}
    (h : Sparse back m log) {now t : T} (hnow : now ≤ t)
    (hroom : (recent (back now) log).length < m) : Sparse back m (log ++ [t]) := by
  intro b
  by_cases hb : back b ≤ t ∧ t ≤ b
  · -- a window that has `t` in it begins no earlier than the one that was looked at
    have hstart : back now ≤ back b := hback (hnow.trans hb.2)
    have hle : (within (back b) b log).length ≤ (recent (back now) log).length := by
      refine (within_sublist_recent _ _ _).length_le.trans ?_
      rw [← recent_recent hstart]
      exact (List.filter_sublist).length_le
    have hlen : (within (back b) b (log ++ [t])).length = (within (back b) b log).length + 1 := by
      simp [within, hb]
    omega
  · have heq : within (back b) b (log ++ [t]) = within (back b) b log := by
      simp only [within, List.filter_append, List.filter_cons, hb, decide_false]
      simp
    rw [heq]
    exact h b

end HttpRaftKv.SlidingLog
