import HttpRaftKv.Lib.Monitor
import HttpRaftKv.Lib.Runs
import Mathlib.Data.Finset.Insert

/-!
# The queues between threads

Raft hands its messages to the server through a `LockQueue`, and the loop of the server
hands the commands to the handlers through one queue for each index.  What comes out went
in before, in the same order and once.  A reader with a deadline may be woken and leave
with nothing all the same; then what it was woken for can wait for a reader that sleeps.
With one reader this does no harm: it never sleeps while there is something to be read.
-/

namespace HttpRaftKv.Kv

/-- The queue with the threads that are in `timeOutPop`, what was pushed, and what the
calls have returned: nothing if the deadline has passed. -/
structure LockQueue (T α : Type) where
  monitor : Monitor T α
  timed : Finset T
  pushed : List α
  returned : List (T × Option α)

namespace LockQueue

variable {T α : Type}

/-- A part of a thread that runs with the lock held, with the thread that a notification
wakes, if any. -/
inductive Action (T α : Type)
  | push (data : α) (woken : T)
  | pop (t : T)
  | timeOutPop (t : T)
  | wakeUp (t : T)
  | resume (t : T)
  | timeOut (t : T)
deriving DecidableEq, Repr

/-- The thread that reads. -/
def Action.reader : Action T α → Option T
  | .push _ _ => none
  | .pop t => some t
  | .timeOutPop t => some t
  | .wakeUp t => some t
  | .resume t => some t
  | .timeOut t => some t

def initial : LockQueue T α where
  monitor := .empty
  timed := ∅
  pushed := []
  returned := []

variable [DecidableEq T]

/-- The loops of `Pop` and `timeOutPop`, up to the wait. -/
def look (s : LockQueue T α) (t : T) : LockQueue T α :=
  match s.monitor.take t with
  | (none, m) => { s with monitor := m }
  | (some data, m) =>
      { s with monitor := m, timed := s.timed.erase t, returned := s.returned ++ [(t, some data)] }

def push (s : LockQueue T α) (data : α) (woken : T) : LockQueue T α :=
  { s with monitor := s.monitor.push data woken, pushed := s.pushed ++ [data] }

/-- `wait_until` says that the deadline has passed, also to a thread that has been woken
too late.  The queue is not looked at again. -/
def timeOut (s : LockQueue T α) (t : T) : LockQueue T α :=
  { s with
    monitor := s.monitor.leave t
    timed := s.timed.erase t
    returned := s.returned ++ [(t, none)] }

/-- A step that is not possible changes nothing. -/
def step (s : LockQueue T α) : Action T α → LockQueue T α
  | .push data woken => if s.monitor.Notifies woken then s.push data woken else s
  | .pop t => if t ∈ s.monitor.waiting then s else s.look t
  | .timeOutPop t =>
      if t ∈ s.monitor.waiting then s else { s with timed := insert t s.timed }.look t
  | .wakeUp t =>
      if t ∈ s.monitor.sleeping then { s with monitor := s.monitor.wake t } else s
  | .resume t => if t ∈ s.monitor.awake then s.look t else s
  | .timeOut t => if t ∈ s.monitor.waiting ∧ t ∈ s.timed then s.timeOut t else s

def run (as : List (Action T α)) : LockQueue T α :=
  Runs.run step initial as

/-- What the calls have got. -/
def received (s : LockQueue T α) : List α :=
  s.returned.filterMap Prod.snd

/-- No thread leaves with nothing after it has been woken. -/
def Punctual (s : LockQueue T α) : Action T α → Prop
  | .timeOut t => t ∉ s.monitor.awake
  | _ => True

instance (s : LockQueue T α) (a : Action T α) : Decidable (s.Punctual a) := by
  cases a <;> unfold Punctual <;> infer_instance

/-- Nothing is lost, doubled or overtaken. -/
def Fifo (s : LockQueue T α) : Prop :=
  s.pushed = s.received ++ s.monitor.queue

variable {s : LockQueue T α}

theorem Fifo.look (h : s.Fifo) (t : T) : (s.look t).Fifo := by
  have hqueue := s.monitor.queue_take t
  unfold Fifo received LockQueue.look at *
  cases hfront : s.monitor.queue with
  | nil =>
      rw [Monitor.take_of_nil hfront] at hqueue ⊢
      rw [h, hqueue]
      rfl
  | cons data rest =>
      rw [Monitor.take_of_cons hfront] at hqueue ⊢
      rw [h, hqueue]
      simp

theorem Fifo.step (h : s.Fifo) (a : Action T α) : (s.step a).Fifo := by
  cases a with
  | push data woken =>
      unfold LockQueue.step
      dsimp only
      split_ifs
      · unfold Fifo received push at *
        rw [Monitor.queue_push, h, List.append_assoc]
      · exact h
  | pop t =>
      unfold LockQueue.step
      dsimp only
      split_ifs
      · exact h
      · exact h.look t
  | timeOutPop t =>
      unfold LockQueue.step
      dsimp only
      split_ifs
      · exact h
      · exact Fifo.look (s := { s with timed := insert t s.timed }) h t
  | wakeUp t =>
      unfold LockQueue.step
      dsimp only
      split_ifs
      · exact h
      · exact h
  | resume t =>
      unfold LockQueue.step
      dsimp only
      split_ifs
      · exact h.look t
      · exact h
  | timeOut t =>
      unfold LockQueue.step
      dsimp only
      split_ifs
      · unfold Fifo received timeOut at *
        rw [h]
        simp [Monitor.leave]
      · exact h

theorem fifo_run (as : List (Action T α)) : (run as).Fifo :=
  Runs.invariant_of_step step (P := fun _ s ↦ Fifo s) (show Fifo initial from rfl)
    (fun _ a h ↦ h.step a) as

/-! ## Readers that sleep -/

theorem attended_look (h : s.monitor.Attended) (t : T) : (s.look t).monitor.Attended := by
  have htake := h.take t
  unfold look
  cases hqueue : s.monitor.queue with
  | nil =>
      rw [Monitor.take_of_nil hqueue] at htake ⊢
      exact htake
  | cons data rest =>
      rw [Monitor.take_of_cons hqueue] at htake ⊢
      exact htake

/-- A step keeps the readers attended unless a thread leaves that has been woken. -/
theorem attended_step (h : s.monitor.Attended) {a : Action T α} (ha : s.Punctual a) :
    (s.step a).monitor.Attended := by
  cases a with
  | push data woken =>
      unfold step
      dsimp only
      split_ifs with hwoken
      · exact h.push data hwoken
      · exact h
  | pop t =>
      unfold step
      dsimp only
      split_ifs
      · exact h
      · exact attended_look h t
  | timeOutPop t =>
      unfold step
      dsimp only
      split_ifs
      · exact h
      · exact attended_look (s := { s with timed := insert t s.timed }) h t
  | wakeUp t =>
      unfold step
      dsimp only
      split_ifs with ht
      · exact h.wake ht
      · exact h
  | resume t =>
      unfold step
      dsimp only
      split_ifs
      · exact attended_look h t
      · exact h
  | timeOut t =>
      unfold step
      dsimp only
      split_ifs
      · refine ⟨h.leave_apart t, fun hsleeps ↦ ?_⟩
        have hlength := h.woken (hsleeps.mono (Finset.erase_subset t _))
        change s.monitor.queue.length ≤ (s.monitor.awake.erase t).card
        rwa [Finset.erase_eq_of_notMem ha]
      · exact h

/-- Only the thread `t` reads. -/
structure Sole (t : T) (s : LockQueue T α) : Prop where
  attended : s.monitor.Attended
  waiting : s.monitor.waiting ⊆ {t}

theorem Sole.queue {t : T} (h : s.Sole t) (ht : t ∈ s.monitor.sleeping) :
    s.monitor.queue = [] := by
  have hlength := h.attended.woken ⟨t, ht⟩
  have hawake : s.monitor.awake = ∅ := by
    rw [Finset.eq_empty_iff_forall_notMem]
    intro u hu
    have heq := Finset.mem_singleton.mp (h.waiting (Finset.mem_union_right _ hu))
    rw [heq] at hu
    exact Finset.disjoint_left.mp h.attended.apart ht hu
  rw [hawake, Finset.card_empty] at hlength
  exact List.length_eq_zero_iff.mp (Nat.le_zero.mp hlength)

theorem waiting_look (s : LockQueue T α) {t : T} (h : s.monitor.waiting ⊆ {t}) :
    (s.look t).monitor.waiting ⊆ {t} := by
  have hmonitor : (s.look t).monitor = (s.monitor.take t).2 := by
    unfold look
    cases hqueue : s.monitor.queue with
    | nil => rw [Monitor.take_of_nil hqueue]
    | cons data rest => rw [Monitor.take_of_cons hqueue]
  intro u hu
  rw [hmonitor, Monitor.mem_waiting_take] at hu
  split_ifs at hu with heq
  · exact Finset.mem_singleton.mpr heq
  · exact h hu

/-- The only reader may leave after it has been woken, for then nobody sleeps. -/
theorem Sole.step {t : T} (h : s.Sole t) {a : Action T α} (ha : ∀ u ∈ a.reader, u = t) :
    (s.step a).Sole t := by
  by_cases hpunctual : s.Punctual a
  · refine ⟨attended_step h.attended hpunctual, ?_⟩
    cases a with
    | push data woken =>
        unfold LockQueue.step
        dsimp only
        split_ifs
        · exact (Monitor.waiting_push _ data woken).trans_subset h.waiting
        · exact h.waiting
    | pop u =>
        obtain rfl := ha u rfl
        unfold LockQueue.step
        dsimp only
        split_ifs
        · exact h.waiting
        · exact waiting_look s h.waiting
    | timeOutPop u =>
        obtain rfl := ha u rfl
        unfold LockQueue.step
        dsimp only
        split_ifs
        · exact h.waiting
        · exact waiting_look { s with timed := insert u s.timed } h.waiting
    | wakeUp u =>
        unfold LockQueue.step
        dsimp only
        split_ifs with hu
        · exact (Monitor.waiting_wake hu).trans_subset h.waiting
        · exact h.waiting
    | resume u =>
        obtain rfl := ha u rfl
        unfold LockQueue.step
        dsimp only
        split_ifs
        · exact waiting_look s h.waiting
        · exact h.waiting
    | timeOut u =>
        unfold LockQueue.step
        dsimp only
        split_ifs
        · exact fun v hv ↦ h.waiting ((Monitor.mem_waiting_leave _ u v).mp hv).2
        · exact h.waiting
  · cases a with
    | timeOut u =>
        obtain rfl := ha u rfl
        have hnobody : ∀ v, v ∉ (s.monitor.leave u).waiting := by
          intro v hv
          obtain ⟨hne, hv⟩ := (Monitor.mem_waiting_leave _ u v).mp hv
          exact hne (Finset.mem_singleton.mp (h.waiting hv))
        unfold LockQueue.step
        dsimp only
        split_ifs
        · refine ⟨⟨h.attended.leave_apart u, fun hsleeps ↦ ?_⟩, fun v hv ↦ absurd hv (hnobody v)⟩
          exact absurd (Finset.mem_union_left _ hsleeps.choose_spec) (hnobody _)
        · exact h
    | push | pop | timeOutPop | wakeUp | resume => exact absurd trivial hpunctual

/-- In every run of any number of writers and readers, what has been received begins what
was pushed, and the rest is in the queue.  If no reader that has been woken gives up, then
as long as one sleeps there is a thread awake for each element of the queue; and the only
reader of a queue never sleeps while there is something to be read. -/
theorem queue_delivers (as : List (Action T α)) :
    (run as).pushed = (run as).received ++ (run as).monitor.queue ∧
    (Runs.Along step Punctual initial as → (run as).monitor.sleeping.Nonempty →
      (run as).monitor.queue.length ≤ (run as).monitor.awake.card) ∧
    ∀ t, (∀ a ∈ as, ∀ u ∈ a.reader, u = t) → t ∈ (run as).monitor.sleeping →
      (run as).monitor.queue = [] := by
  refine ⟨fifo_run as, fun hpunctual ↦ ?_, fun t hsole ↦ ?_⟩
  · have hattended := Runs.invariant_of_step_along step
      (P := fun _ (s : LockQueue T α) ↦ s.monitor.Attended) Monitor.attended_empty
      (fun _ _ h ha ↦ attended_step h ha) as hpunctual
    exact hattended.woken
  · suffices hrun : (run as).Sole t from hrun.queue
    induction as using List.reverseRecOn with
    | nil => exact ⟨Monitor.attended_empty, fun u hu ↦ absurd hu (Finset.notMem_empty u)⟩
    | append_singleton as a ih =>
        have hstep : run (as ++ [a]) = (run as).step a := Runs.run_snoc step initial as a
        rw [hstep]
        exact (ih fun b hb ↦ hsole b (List.mem_append_left _ hb)).step (hsole a (by simp))

/-- With two readers one can sleep while there is something to be read, because the other
one has been woken for it and gave up. -/
example : (run ([.timeOutPop 0, .pop 1, .push "x" 0, .timeOut 0] : List (Action ℕ String))).monitor =
    ⟨["x"], {1}, ∅⟩ := by
  rfl

end LockQueue

end HttpRaftKv.Kv
