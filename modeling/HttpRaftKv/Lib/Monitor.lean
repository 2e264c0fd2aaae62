import Mathlib.Data.Finset.Card
import Mathlib.Data.Finset.Disjoint
import Mathlib.Data.List.Basic

/-!
# Monitors

A queue stands behind a lock, and a thread that finds it empty waits on a condition
variable.  A part of a thread that runs with the lock held is one step.  A thread that
has been woken is not yet running: it has to take the lock again and look again, and
until then another thread may take what it was woken for.

No wakeup is lost if every item in the queue has a thread that has been woken, as long as
some thread sleeps.
-/

namespace HttpRaftKv

/-- The items, the threads that wait and have not been woken, and the threads that have
been woken and wait for the lock. -/
structure Monitor (T α : Type*) where
  queue : List α
  sleeping : Finset T
  awake : Finset T

namespace Monitor

variable {T α : Type*}

def empty : Monitor T α :=
  ⟨[], ∅, ∅⟩

/-- The threads of the monitor are not both asleep and awake, and while one sleeps there
is a thread awake for each item. -/
structure Attended (m : Monitor T α) : Prop where
  apart : Disjoint m.sleeping m.awake
  woken : m.sleeping.Nonempty → m.queue.length ≤ m.awake.card

theorem attended_empty : (empty : Monitor T α).Attended where
  apart := Finset.disjoint_empty_left ∅
  woken := fun h ↦ absurd h Finset.not_nonempty_empty

variable [DecidableEq T]

/-- A sleeping thread is woken. -/
def wake (m : Monitor T α) (t : T) : Monitor T α :=
  { m with sleeping := m.sleeping.erase t, awake := insert t m.awake }

/-- `notify_one` can wake the thread, or there is none to wake. -/
def Notifies (m : Monitor T α) (t : T) : Prop :=
  t ∈ m.sleeping ∨ m.sleeping = ∅

instance (m : Monitor T α) (t : T) : Decidable (m.Notifies t) :=
  inferInstanceAs (Decidable (_ ∨ _))

/-- `notify_one`, which wakes the thread `t` if any. -/
def notifyOne (m : Monitor T α) (t : T) : Monitor T α :=
  if t ∈ m.sleeping then m.wake t else m

/-- An item is put behind the others, and one thread is notified. -/
def push (m : Monitor T α) (a : α) (t : T) : Monitor T α :=
  { m with queue := m.queue ++ [a] }.notifyOne t

/-- A thread with the lock goes to sleep. -/
def sleep (m : Monitor T α) (t : T) : Monitor T α :=
  { m with sleeping := insert t m.sleeping, awake := m.awake.erase t }

/-- A thread leaves the monitor. -/
def leave (m : Monitor T α) (t : T) : Monitor T α :=
  { m with sleeping := m.sleeping.erase t, awake := m.awake.erase t }

/-- A thread with the lock takes the first item and leaves, or goes to sleep. -/
def take (m : Monitor T α) (t : T) : Option α × Monitor T α :=
  match m.queue with
  | [] => (none, m.sleep t)
  | a :: rest => (some a, { m with queue := rest }.leave t)

theorem take_of_nil {m : Monitor T α} (h : m.queue = []) (t : T) :
    m.take t = (none, m.sleep t) := by
  simp only [take, h]

theorem take_of_cons {m : Monitor T α} {a : α} {rest : List α} (h : m.queue = a :: rest) (t : T) :
    m.take t = (some a, { m with queue := rest }.leave t) := by
  simp only [take, h]

@[simp] theorem queue_notifyOne (m : Monitor T α) (t : T) :
    (m.notifyOne t).queue = m.queue := by
  unfold notifyOne
  split_ifs
  · rfl
  · rfl

@[simp] theorem queue_push (m : Monitor T α) (a : α) (t : T) :
    (m.push a t).queue = m.queue ++ [a] :=
  queue_notifyOne _ t

/-- What a thread has taken was the first item. -/
theorem queue_take (m : Monitor T α) (t : T) :
    m.queue = (m.take t).1.toList ++ (m.take t).2.queue := by
  cases hqueue : m.queue with
  | nil =>
      rw [take_of_nil hqueue]
      exact hqueue.symm
  | cons a rest =>
      rw [take_of_cons hqueue]
      rfl

/-- The threads inside the monitor. -/
def waiting (m : Monitor T α) : Finset T :=
  m.sleeping ∪ m.awake

@[simp] theorem waiting_wake {m : Monitor T α} {t : T} (ht : t ∈ m.sleeping) :
    (m.wake t).waiting = m.waiting := by
  ext u
  simp only [waiting, wake, Finset.mem_union, Finset.mem_erase, Finset.mem_insert]
  grind

@[simp] theorem waiting_notifyOne (m : Monitor T α) (t : T) :
    (m.notifyOne t).waiting = m.waiting := by
  unfold notifyOne
  split_ifs with ht
  · exact waiting_wake ht
  · rfl

@[simp] theorem waiting_push (m : Monitor T α) (a : α) (t : T) :
    (m.push a t).waiting = m.waiting :=
  waiting_notifyOne _ t

theorem mem_waiting_sleep (m : Monitor T α) (t u : T) :
    u ∈ (m.sleep t).waiting ↔ u = t ∨ u ∈ m.waiting := by
  simp only [waiting, sleep, Finset.mem_union, Finset.mem_erase, Finset.mem_insert]
  grind

theorem mem_waiting_leave (m : Monitor T α) (t u : T) :
    u ∈ (m.leave t).waiting ↔ u ≠ t ∧ u ∈ m.waiting := by
  simp only [waiting, leave, Finset.mem_union, Finset.mem_erase]
  grind

/-- After `take` a thread is inside the monitor exactly if it has got nothing. -/
theorem mem_waiting_take (m : Monitor T α) (t u : T) :
    u ∈ (m.take t).2.waiting ↔ if u = t then (m.take t).1 = none else u ∈ m.waiting := by
  cases hqueue : m.queue with
  | nil =>
      rw [take_of_nil hqueue, mem_waiting_sleep]
      split_ifs with heq
      · simp [heq]
      · simp [heq]
  | cons a rest =>
      rw [take_of_cons hqueue, mem_waiting_leave]
      split_ifs with heq
      · simp [heq]
      · exact and_iff_right heq

/-! ## No wakeup is lost -/

namespace Attended

variable {m : Monitor T α}

theorem card_wake (h : m.Attended) {t : T} (ht : t ∈ m.sleeping) :
    (m.wake t).awake.card = m.awake.card + 1 :=
  Finset.card_insert_of_notMem (Finset.disjoint_left.mp h.apart ht)

/-- A thread may also be woken by nobody. -/
theorem wake (h : m.Attended) {t : T} (ht : t ∈ m.sleeping) : (m.wake t).Attended where
  apart := by
    rw [Finset.disjoint_left]
    intro u hu hawake
    obtain ⟨hne, hsleeps⟩ := Finset.mem_erase.mp hu
    rcases Finset.mem_insert.mp hawake with rfl | hawake
    · exact hne rfl
    · exact Finset.disjoint_left.mp h.apart hsleeps hawake
  woken _ := by
    rw [h.card_wake ht]
    exact (h.woken ⟨t, ht⟩).trans (Nat.le_succ _)

theorem push (h : m.Attended) (a : α) {t : T} (ht : m.Notifies t) : (m.push a t).Attended := by
  unfold Monitor.push notifyOne
  split_ifs with hsleeps
  · have hwake := h.wake hsleeps
    refine ⟨hwake.apart, fun _ ↦ ?_⟩
    have hcard := h.card_wake hsleeps
    have hlength := h.woken ⟨t, hsleeps⟩
    change (m.queue ++ [a]).length ≤ (m.wake t).awake.card
    rw [List.length_append, List.length_singleton]
    omega
  · rcases ht with hmem | hnone
    · exact absurd hmem hsleeps
    · exact ⟨h.apart, fun hnonempty ↦ absurd hnone hnonempty.ne_empty⟩

/-- A thread sleeps only if there is nothing to be taken. -/
theorem sleep (h : m.Attended) (hqueue : m.queue = []) (t : T) : (m.sleep t).Attended where
  apart := by
    rw [Finset.disjoint_left]
    intro u hu hawake
    obtain ⟨hne, hawake⟩ := Finset.mem_erase.mp hawake
    rcases Finset.mem_insert.mp hu with rfl | hu
    · exact hne rfl
    · exact Finset.disjoint_left.mp h.apart hu hawake
  woken _ := by
    have hlength : (m.sleep t).queue.length = 0 := by
      rw [List.length_eq_zero_iff]
      exact hqueue
    rw [hlength]
    exact Nat.zero_le _

theorem leave_apart (h : m.Attended) (t : T) : Disjoint (m.leave t).sleeping (m.leave t).awake :=
  h.apart.mono (Finset.erase_subset t _) (Finset.erase_subset t _)

/-- A thread that takes an item uses at most one wakeup. -/
theorem take (h : m.Attended) (t : T) : (m.take t).2.Attended := by
  cases hqueue : m.queue with
  | nil =>
      rw [take_of_nil hqueue]
      exact h.sleep hqueue t
  | cons a rest =>
      rw [take_of_cons hqueue]
      refine ⟨h.leave_apart t, fun hsleeps ↦ ?_⟩
      have hlength := h.woken (hsleeps.mono (Finset.erase_subset t _))
      have hcard := Finset.pred_card_le_card_erase (s := m.awake) (a := t)
      rw [hqueue, List.length_cons] at hlength
      change rest.length ≤ (m.awake.erase t).card
      omega

end Attended

end Monitor

end HttpRaftKv
