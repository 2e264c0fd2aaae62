import HttpRaftKv.Lib.OrderedSet
import HttpRaftKv.Lib.Runs
import Mathlib.Algebra.Group.Nat.Defs
import Mathlib.Logic.Function.Basic

/-!
# Timers

A timer manager keeps its timers in a set that is ordered by the time at which they are due
and, among those that are due at the same time, by their addresses.  The time of a timer is
part of what orders the set, so a timer is taken out of it before its time is changed.  All
times are milliseconds in 64 bits.

A function that reads the clock has what it reads as an argument.
-/

namespace HttpRaftKv.Fiber

variable {κ : Type}

/-- `cb` is missing if the `std::function` is empty. -/
structure Timer (κ : Type) where
  address : ℕ
  recurring : Bool
  ms : ℕ
  next : ℕ
  cb : Option κ
deriving DecidableEq, Repr

namespace Timer

/-- `Comparator`; there are no null pointers in the set. -/
def less (lhs rhs : Timer κ) : Bool :=
  if lhs.next < rhs.next then true
  else if rhs.next < lhs.next then false
  else lhs.address < rhs.address

/-- An object that does not exist. -/
def absent : Timer κ where
  address := 0
  recurring := false
  ms := 0
  next := 0
  cb := none

end Timer

/-- The objects are known by number, and the first `created` of them exist. -/
structure TimerManager (κ : Type) where
  objects : ℕ → Timer κ
  created : ℕ
  timers : List ℕ
  tickled : Bool
  previouseTime : ℕ

namespace TimerManager

/-- A number of 64 bits. -/
def wrap (n : ℕ) : ℕ := n % 2 ^ 64

/-- The difference of two numbers of 64 bits. -/
def minus (m n : ℕ) : ℕ := wrap (m + (2 ^ 64 - n))

/-- The constructor. -/
def create (now : ℕ) : TimerManager κ where
  objects := fun _ ↦ .absent
  created := 0
  timers := []
  tickled := false
  previouseTime := now

def setTimer (s : TimerManager κ) (i : ℕ) (timer : Timer κ) : TimerManager κ :=
  { s with objects := Function.update s.objects i timer }

/-! ## The set -/

/-- `timers_.lower_bound` up to the end of the set. -/
def lowerBound (s : TimerManager κ) (timer : Timer κ) : List ℕ :=
  s.timers.dropWhile fun i ↦ (s.objects i).less timer

/-- `timers_.find`; there is no result if it is the end of the set. -/
def find (s : TimerManager κ) (timer : Timer κ) : Option ℕ :=
  (s.lowerBound timer).head?.filter fun i ↦ !timer.less (s.objects i)

def erase (s : TimerManager κ) (i : ℕ) : TimerManager κ :=
  { s with timers := s.timers.erase i }

/-- An element that is equal in the order stays in place of the timer. -/
def insert (s : TimerManager κ) (i : ℕ) : TimerManager κ :=
  if (s.find (s.objects i)).isSome then s
  else
    { s with
      timers := OrderedSet.putIn (fun j ↦ (s.objects j).less (s.objects i)) i s.timers }

/-- The private `addTimer`, which calls `OnTimerInsertedAtFront` if the first result is true. -/
def addLocked (s : TimerManager κ) (i : ℕ) : Bool × TimerManager κ :=
  let s := s.insert i
  let inserted := (s.find (s.objects i)).getD i
  let atFront := s.timers.head? = some inserted && !s.tickled
  (atFront, if atFront then { s with tickled := true } else s)

/-! ## Calls -/

/-- The allocator has put the timer at the address. -/
def addTimer (s : TimerManager κ) (now address ms : ℕ) (cb : Option κ) (recurring : Bool) :
    Bool × TimerManager κ :=
  let timer : Timer κ :=
    { address := address
      recurring := recurring
      ms := ms
      next := wrap (now + ms)
      cb := cb }
  addLocked { s.setTimer s.created timer with created := s.created + 1 } s.created

/-- There is no result if the end of the set is erased. -/
def cancel (s : TimerManager κ) (i : ℕ) : Option (Bool × TimerManager κ) :=
  let timer := s.objects i
  if timer.cb.isSome then
    let s := s.setTimer i { timer with cb := none }
    (s.find (s.objects i)).map fun j ↦ (true, s.erase j)
  else some (false, s)

def refresh (s : TimerManager κ) (now i : ℕ) : Bool × TimerManager κ :=
  let timer := s.objects i
  if timer.cb.isNone then (false, s)
  else
    match s.find timer with
    | none => (false, s)
    | some j => (true, ((s.erase j).setTimer i { timer with next := wrap (now + timer.ms) }).insert i)

/-- The second result says whether `OnTimerInsertedAtFront` is called. -/
def reset (s : TimerManager κ) (now i ms : ℕ) (fromNow : Bool) : Bool × Bool × TimerManager κ :=
  let timer := s.objects i
  if ms = timer.ms && !fromNow then (true, false, s)
  else if timer.cb.isNone then (true, false, s)
  else
    match s.find timer with
    | none => (false, false, s)
    | some j =>
        let start := if fromNow then now else minus timer.next timer.ms
        (true, ((s.erase j).setTimer i
          { timer with ms := ms, next := wrap (start + ms) }).addLocked i)

/-- The time until the first timer is due, or the greatest number. -/
def getNextTimer (s : TimerManager κ) (now : ℕ) : ℕ × TimerManager κ :=
  let s := { s with tickled := false }
  match s.timers.head? with
  | none => (2 ^ 64 - 1, s)
  | some i => (if (s.objects i).next ≤ now then 0 else (s.objects i).next - now, s)

def hasTimer (s : TimerManager κ) : Bool :=
  !s.timers.isEmpty

def detectClockRolllover (s : TimerManager κ) (now : ℕ) : Bool × TimerManager κ :=
  (now < s.previouseTime && now < minus s.previouseTime (60 * 60 * 1000),
    { s with previouseTime := now })

/-- The part of the set from `it` on: behind the timers that have expired.  `probe` is the
address of `now_timer`. -/
def unexpired (s : TimerManager κ) (now probe : ℕ) (rollover : Bool) : List ℕ :=
  (if rollover then []
  else s.lowerBound
    { address := probe
      recurring := false
      ms := 0
      next := now
      cb := none }).dropWhile fun i ↦ (s.objects i).next = now

/-- A timer that has expired goes back into the set, or it loses its callback. -/
def rearm (s : TimerManager κ) (now i : ℕ) : TimerManager κ :=
  let timer := s.objects i
  if timer.recurring then (s.setTimer i { timer with next := wrap (now + timer.ms) }).insert i
  else s.setTimer i { timer with cb := none }

/-- The timers that have expired, and the manager without them. -/
def takeExpired (s : TimerManager κ) (now probe : ℕ) : List ℕ × TimerManager κ :=
  match s.timers.head? with
  | none => ([], s)
  | some first =>
      let (rollover, s) := s.detectClockRolllover now
      if !rollover && now < (s.objects first).next then ([], s)
      else
        let rest := s.unexpired now probe rollover
        (s.timers.take (s.timers.length - rest.length), { s with timers := rest })

/-- One turn of the loop of `listExpiredCb`. -/
def collect (now : ℕ) (result : List (Option κ) × TimerManager κ) (i : ℕ) :
    List (Option κ) × TimerManager κ :=
  (result.1 ++ [(result.2.objects i).cb], result.2.rearm now i)

/-- The callbacks of the timers that have expired. -/
def listExpiredCb (s : TimerManager κ) (now probe : ℕ) : List (Option κ) × TimerManager κ :=
  let (expired, s) := s.takeExpired now probe
  expired.foldl (collect now) ([], s)

/-! ## Sequences of calls -/

inductive Call (κ : Type)
  | addTimer (address ms : ℕ) (cb : Option κ) (recurring : Bool)
  | cancel (i : ℕ)
  | refresh (i : ℕ)
  | reset (i ms : ℕ) (fromNow : Bool)
  | getNextTimer
  | listExpiredCb (probe : ℕ)
deriving DecidableEq, Repr

/-- A call and what it reads from the clock; the end of the set is not erased. -/
def call (s : TimerManager κ) (now : ℕ) : Call κ → Option (TimerManager κ)
  | .addTimer address ms cb recurring => some (s.addTimer now address ms cb recurring).2
  | .cancel i => (s.cancel i).map Prod.snd
  | .refresh i => some (s.refresh now i).2
  | .reset i ms fromNow => some (s.reset now i ms fromNow).2.2
  | .getNextTimer => some (s.getNextTimer now).2
  | .listExpiredCb probe => some (s.listExpiredCb now probe).2

end TimerManager

/-- A manager that is in use: the last reading of the clock, and whether the end of the set
has been erased. -/
structure TimerUse (κ : Type) where
  manager : TimerManager κ
  clock : ℕ
  undefined : Bool

namespace TimerUse

def start (now : ℕ) : TimerUse κ where
  manager := .create now
  clock := now
  undefined := false

/-- A call that reads `now` from the clock. -/
def step (s : TimerUse κ) (a : ℕ × TimerManager.Call κ) : TimerUse κ :=
  match s.manager.call a.1 a.2 with
  | some manager => { s with manager := manager, clock := a.1 }
  | none => { s with clock := a.1, undefined := true }

end TimerUse

end HttpRaftKv.Fiber
