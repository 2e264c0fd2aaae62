import HttpRaftKv.Lib.Runs
import Mathlib.Data.Nat.Notation

/-!
# The scheduler of fibers

Each thread takes a task from the queue and resumes its fiber until the fiber yields.
A fiber that sleeps or waits for an event first makes itself known, as the target of a
timer or of an event, and yields after that; `yield` first sets the state and then leaves
the stack of the fiber.  The threads take these steps in any order.  The idle fiber of a
thread is not told apart from its loop in `run`.

A failed `CondPanic` ends the process.
-/

namespace HttpRaftKv.Fiber

namespace Scheduler

inductive State
  | ready
  | running
  | term
deriving DecidableEq, Repr

/-- The texts of `CondPanic`. -/
inductive Error
  /-- "fiber task state error" -/
  | fiberTaskState
  /-- "state error" of `resume` and of `yield` -/
  | state
  /-- "state=" of `addEvent` -/
  | addEventState
deriving DecidableEq, Repr

/-- What a callback does: a timer of a sleeping fiber schedules this fiber. -/
inductive Callback
  | schedule (fiber : ℕ)
  | other
deriving DecidableEq, Repr

/-- The fiber of a callback that has a fiber to schedule still has it before it. -/
structure FiberRecord where
  state : State
  schedules : Option ℕ
deriving DecidableEq, Repr

namespace FiberRecord

def resume (f : FiberRecord) : Except Error FiberRecord :=
  if f.state = .term ∨ f.state = .running then .error .state
  else .ok { f with state := .running }

/-- `yield` up to the swap of the contexts. -/
def yield (f : FiberRecord) : Except Error FiberRecord :=
  if f.state = .ready then .error .state
  else if f.state = .term then .ok f
  else .ok { f with state := .ready }

end FiberRecord

inductive Target
  | fiber (id : ℕ)
  | cb (callback : Callback)
deriving DecidableEq, Repr

/-- The thread is that of the task if there is one (`-1` otherwise). -/
structure SchedulerTask where
  target : Target
  thread : Option ℕ
deriving DecidableEq, Repr

def SchedulerTask.eligible (task : SchedulerTask) (thread : ℕ) : Bool :=
  task.thread = none || task.thread = some thread

/-- Where a thread is. -/
inductive Place
  /-- in `run`, without a task, or in the idle fiber -/
  | looking
  /-- in `run`, with the fiber of a task that it has taken -/
  | taken (fiber : ℕ)
  | running (fiber : ℕ)
  /-- on the way from `addTimer` or `addEvent` to `yield` -/
  | published (fiber : ℕ)
  /-- in `yield`, between the change of the state and the swap of the contexts -/
  | yielding (fiber : ℕ)
deriving DecidableEq, Repr

end Scheduler

open Scheduler

/-- Fibers are numbered in the order of their creation; `timers` and `events` are the
fibers that a timer or an event is to schedule. -/
structure Scheduler where
  fibers : List FiberRecord
  tasks : List SchedulerTask
  timers : List ℕ
  events : List ℕ
  threads : List Place
  panic : Option Error
deriving DecidableEq, Repr

namespace Scheduler

def initial (threads : ℕ) : Scheduler where
  fibers := []
  tasks := []
  timers := []
  events := []
  threads := List.replicate threads .looking
  panic := none

def goto (s : Scheduler) (thread : ℕ) (place : Place) : Scheduler :=
  { s with threads := s.threads.set thread place }

def create (s : Scheduler) (schedules : Option ℕ) : Scheduler :=
  { s with fibers := s.fibers ++ [⟨.ready, schedules⟩] }

def schedule (s : Scheduler) (target : Target) (thread : Option ℕ) : Scheduler :=
  { s with tasks := s.tasks ++ [⟨target, thread⟩] }

/-- The process ends, or the fiber is changed and the thread goes on. -/
def update (s : Scheduler) (fiber thread : ℕ) (place : Place) :
    Except Error FiberRecord → Scheduler
  | .ok f => { s with fibers := s.fibers.set fiber f }.goto thread place
  | .error e => { s with panic := some e }

/-- What a callback has to schedule. -/
def Callback.schedules : Callback → Option ℕ
  | .schedule fiber => some fiber
  | .other => none

/-- A new fiber for the callback, taken by the thread. -/
def takeCallback (s : Scheduler) (thread : ℕ) (callback : Callback) : Scheduler :=
  (s.create callback.schedules).goto thread (.taken s.fibers.length)

/-- The search for a task in `run`, under the lock: the first one that the thread may run. -/
def take (s : Scheduler) (thread : ℕ) : Scheduler :=
  match s.tasks.find? (·.eligible thread) with
  | none => s
  | some task =>
      let rest := s.tasks.eraseP (·.eligible thread)
      match task.target with
      | .cb callback => { s with tasks := rest }.takeCallback thread callback
      | .fiber id =>
          if (s.fibers[id]?.map FiberRecord.state) = some .ready then
            { s with tasks := rest }.goto thread (.taken id)
          else { s with panic := some .fiberTaskState }

def resume (s : Scheduler) (thread fiber : ℕ) : Scheduler :=
  match s.fibers[fiber]? with
  | none => s
  | some f => s.update fiber thread (.running fiber) f.resume

/-- `sleep`, `usleep` and `nanosleep` before their `yield`. -/
def sleep (s : Scheduler) (thread fiber : ℕ) : Scheduler :=
  { s with timers := s.timers ++ [fiber] }.goto thread (.published fiber)

/-- `addEvent` of the running fiber in `do_io`, before its `yield`. -/
def addEvent (s : Scheduler) (thread fiber : ℕ) : Scheduler :=
  if (s.fibers[fiber]?.map FiberRecord.state) = some .running then
    { s with events := s.events ++ [fiber] }.goto thread (.published fiber)
  else { s with panic := some .addEventState }

def yield (s : Scheduler) (thread fiber : ℕ) : Scheduler :=
  match s.fibers[fiber]? with
  | none => s
  | some f => s.update fiber thread (.yielding fiber) f.yield

/-- The end of `MainFunc` and its `yield`. -/
def finish (s : Scheduler) (thread fiber : ℕ) : Scheduler :=
  match s.fibers[fiber]? with
  | none => s
  | some f => s.update fiber thread (.yielding fiber) { f with state := .term }.yield

/-- A timer that has expired: its callback becomes a task. -/
def expire (s : Scheduler) (i : ℕ) : Scheduler :=
  match s.timers[i]? with
  | none => s
  | some fiber =>
      { s with timers := s.timers.eraseIdx i }.schedule (.cb (.schedule fiber)) none

/-- `triggerEvent` for a fiber. -/
def triggerEvent (s : Scheduler) (i : ℕ) : Scheduler :=
  match s.events[i]? with
  | none => s
  | some fiber => { s with events := s.events.eraseIdx i }.schedule (.fiber fiber) none

/-- The call of `scheduler` in the callback of a timer. -/
def callback (s : Scheduler) (fiber : ℕ) : Scheduler :=
  match s.fibers[fiber]? with
  | none => s
  | some f =>
      match f.schedules with
      | none => s
      | some target =>
          { s with fibers := s.fibers.set fiber { f with schedules := none } }.schedule
            (.fiber target) none

/-- What a thread does next.  New fibers and callbacks come from anywhere; a fiber that
runs may yield, end, cancel or delete an event of any fiber. -/
inductive Action
  | createFiber (thread : Option ℕ)
  | createCallback (thread : Option ℕ)
  | take (thread : ℕ)
  | resume (thread : ℕ)
  | sleep (thread : ℕ)
  | addEvent (thread : ℕ)
  | yield (thread : ℕ)
  | finish (thread : ℕ)
  | swapcontext (thread : ℕ)
  | callback (thread : ℕ)
  | expire (thread i : ℕ)
  | triggerEvent (thread i : ℕ)
  | cancelEvent (thread i : ℕ)
  | delEvent (thread i : ℕ)
deriving DecidableEq, Repr

def advance (s : Scheduler) : Action → Scheduler
  | .createFiber thread => (s.create none).schedule (.fiber s.fibers.length) thread
  | .createCallback thread => s.schedule (.cb .other) thread
  | .take thread =>
      match s.threads[thread]? with
      | some .looking => s.take thread
      | _ => s
  | .resume thread =>
      match s.threads[thread]? with
      | some (.taken fiber) => s.resume thread fiber
      | _ => s
  | .sleep thread =>
      match s.threads[thread]? with
      | some (.running fiber) => s.sleep thread fiber
      | _ => s
  | .addEvent thread =>
      match s.threads[thread]? with
      | some (.running fiber) => s.addEvent thread fiber
      | _ => s
  | .yield thread =>
      match s.threads[thread]? with
      | some (.running fiber) => s.yield thread fiber
      | some (.published fiber) => s.yield thread fiber
      | _ => s
  | .finish thread =>
      match s.threads[thread]? with
      | some (.running fiber) => s.finish thread fiber
      | _ => s
  | .swapcontext thread =>
      match s.threads[thread]? with
      | some (.yielding _) => s.goto thread .looking
      | _ => s
  | .callback thread =>
      match s.threads[thread]? with
      | some (.running fiber) => s.callback fiber
      | _ => s
  | .expire thread i =>
      match s.threads[thread]? with
      | some .looking => s.expire i
      | _ => s
  | .triggerEvent thread i =>
      match s.threads[thread]? with
      | some .looking => s.triggerEvent i
      | _ => s
  | .cancelEvent thread i =>
      match s.threads[thread]? with
      | some (.running _) => s.triggerEvent i
      | _ => s
  | .delEvent thread i =>
      match s.threads[thread]? with
      | some (.running _) => { s with events := s.events.eraseIdx i }
      | _ => s

/-- Nothing happens after the end of the process. -/
def step (s : Scheduler) (a : Action) : Scheduler :=
  if s.panic.isSome then s else s.advance a

end Scheduler

end HttpRaftKv.Fiber
