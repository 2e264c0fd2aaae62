import HttpRaftKv.Lib.Runs
import HttpRaftKv.Lib.Tickets
import Mathlib.Algebra.Group.Nat.Defs

/-!
# Events of file descriptors

A thread registers a callback or the fiber that it runs for an event of a file
descriptor.  The target is scheduled when the event occurs or is cancelled.  The threads
take their steps in any order: a call looks up the context of its descriptor under the
lock of the vector and does its work later under the lock of the context; the idle loop
takes a list of events from the kernel and processes one after the other, each under
the lock of its context.

A failed `CondPanic` ends the process.
-/

namespace HttpRaftKv.Fiber

/-- What can be waited for; `NONE` is the empty set of these. -/
inductive Event
  | read
  | write
deriving DecidableEq, Repr

/-- Fibers and callbacks by number. -/
inductive Task
  | fiber (id : ℕ)
  | cb (id : ℕ)
deriving DecidableEq, Repr

/-- The target of a registration and the scheduler that gets it. -/
structure EventContext where
  scheduler : ℕ
  task : Task
deriving DecidableEq, Repr

/-- A context that is reset has none of its pointers set.  The number of a registration
is not in the source. -/
structure FdContext where
  fd : ℕ
  events : Event → Bool
  context : Event → Option (Ticket EventContext)

/-- What ends the process: the texts of `CondPanic`, or the access through a pointer
that is null. -/
inductive Panic
  | notRegistered
  | addEventError
  | contextNotReset
  | notTotallyClear
  | nullPointer
deriving DecidableEq, Repr

namespace FdContext

/-- `new FdContext`. -/
def create (fd : ℕ) : FdContext where
  fd := fd
  events := fun _ ↦ false
  context := fun _ ↦ none

def isNone (c : FdContext) : Bool :=
  !c.events .read && !c.events .write

/-- The event is registered for the target, or no more registered. -/
def assign (c : FdContext) (event : Event) (target : Option (Ticket EventContext)) : FdContext :=
  { c with
    events := Function.update c.events event target.isSome
    context := Function.update c.context event target }

/-- The target that goes to the scheduler, and the context without the event. -/
def triggerEvent (c : FdContext) (event : Event) :
    Except Panic (Ticket EventContext × FdContext) :=
  if c.events event then
    match c.context event with
    | some target => .ok (target, c.assign event none)
    | none => .error .nullPointer
  else .error .notRegistered

/-- The number of bits of `events`. -/
def bits (c : FdContext) : ℕ :=
  (c.events .read).toNat + (c.events .write).toNat

end FdContext

/-- A call of a thread. -/
inductive Request
  | addEvent (fd : ℕ) (event : Event) (target : EventContext)
  | delEvent (fd : ℕ) (event : Event)
  | cancelEvent (fd : ℕ) (event : Event)
  | cancelAll (fd : ℕ)
deriving DecidableEq, Repr

def Request.fd : Request → ℕ
  | addEvent fd _ _ => fd
  | delEvent fd _ => fd
  | cancelEvent fd _ => fd
  | cancelAll fd => fd

/-- An entry of the result of `epoll_wait`; `EPOLLERR` and `EPOLLHUP` are one flag. -/
structure EpollEvent where
  ptr : ℕ
  events : Event → Bool
  hangup : Bool

/-- Where a thread is. -/
inductive Phase
  | free
  /-- `addEvent` has found the vector too short and left its read lock. -/
  | resizing (request : Request)
  | found (ptr : ℕ) (request : Request)
  | processing (events : List EpollEvent)

/-- Contexts are never deleted while the threads run; the vector has their positions
in the list of all that were created. -/
structure IOManager where
  contexts : List FdContext
  fdContexts : List ℕ
  pendingEventCnt : ℕ
  threads : ℕ → Phase
  registered : List EventContext
  scheduled : List (Ticket EventContext)
  panic : Option Panic

namespace IOManager

/-- The places that are new get contexts of their own. -/
def contextResize (s : IOManager) (size : ℕ) : IOManager :=
  let kept := s.fdContexts.take size
  let fds := List.range' kept.length (size - kept.length)
  { s with
    contexts := s.contexts ++ fds.map .create
    fdContexts := kept ++ List.range' s.contexts.length fds.length }

def initial : IOManager :=
  contextResize
    { contexts := []
      fdContexts := []
      pendingEventCnt := 0
      threads := fun _ ↦ .free
      registered := []
      scheduled := []
      panic := none } 32

/-- `++` of a `size_t`. -/
def increment (n : ℕ) : ℕ := (n + 1) % 2 ^ 64

/-- `--` of a `size_t`. -/
def decrement (n : ℕ) : ℕ := (n + (2 ^ 64 - 1)) % 2 ^ 64

/-- `triggerEvent` of the context and the count behind it. -/
def trigger (s : IOManager) (ptr : ℕ) (event : Event) : Except Panic IOManager :=
  match s.contexts[ptr]? with
  | none => .error .nullPointer
  | some c =>
      match c.triggerEvent event with
      | .error p => .error p
      | .ok (target, c) =>
          .ok { s with
            contexts := s.contexts.set ptr c
            pendingEventCnt := decrement s.pendingEventCnt
            scheduled := s.scheduled ++ [target] }

/-- The part of `addEvent` under the lock of the context; `ok` if `epoll_ctl` succeeds. -/
def addEvent (s : IOManager) (ptr : ℕ) (event : Event) (target : EventContext) (ok : Bool) :
    Except Panic (Int × IOManager) :=
  match s.contexts[ptr]? with
  | none => .error .nullPointer
  | some c =>
      if c.events event then .error .addEventError
      else if !ok then .ok (-1, s)
      else if (c.context event).isSome then .error .contextNotReset
      else
        .ok (0, { s with
          contexts := s.contexts.set ptr (c.assign event (some ⟨s.registered.length, target⟩))
          pendingEventCnt := increment s.pendingEventCnt
          registered := s.registered ++ [target] })

def delEvent (s : IOManager) (ptr : ℕ) (event : Event) (ok : Bool) :
    Except Panic (Bool × IOManager) :=
  match s.contexts[ptr]? with
  | none => .error .nullPointer
  | some c =>
      if !c.events event then .ok (false, s)
      else if !ok then .ok (false, s)
      else
        .ok (true, { s with
          contexts := s.contexts.set ptr (c.assign event none)
          pendingEventCnt := decrement s.pendingEventCnt })

def cancelEvent (s : IOManager) (ptr : ℕ) (event : Event) (ok : Bool) :
    Except Panic (Bool × IOManager) :=
  match s.contexts[ptr]? with
  | none => .error .nullPointer
  | some c =>
      if !c.events event then .ok (false, s)
      else if !ok then .ok (false, s)
      else do
        let s ← s.trigger ptr event
        .ok (true, s)

def triggerIf (s : IOManager) (ptr : ℕ) (event : Event) (wanted : Bool) : Except Panic IOManager :=
  if wanted then s.trigger ptr event else .ok s

/-- `triggerEvent` for each of the events that are wanted, `READ` first. -/
def triggerAll (s : IOManager) (ptr : ℕ) (wanted : Event → Bool) : Except Panic IOManager := do
  let s ← s.triggerIf ptr .read (wanted .read)
  s.triggerIf ptr .write (wanted .write)

def cancelAll (s : IOManager) (ptr : ℕ) (ok : Bool) : Except Panic (Bool × IOManager) :=
  match s.contexts[ptr]? with
  | none => .error .nullPointer
  | some c =>
      if c.isNone then .ok (false, s)
      else if !ok then .ok (false, s)
      else do
        let s ← s.triggerAll ptr c.events
        if (s.contexts[ptr]?.map FdContext.isNone) = some true then .ok (true, s)
        else .error .notTotallyClear

/-- The events that `idle` takes to have occurred. -/
def realEvents (c : FdContext) (e : EpollEvent) : Event → Bool :=
  fun event ↦ e.events event || e.hangup && c.events event

/-- One entry of the result of `epoll_wait`, under the lock of its context. -/
def processEvent (s : IOManager) (e : EpollEvent) (ok : Bool) : Except Panic IOManager :=
  match s.contexts[e.ptr]? with
  | none => .error .nullPointer
  | some c =>
      let real := realEvents c e
      if !(c.events .read && real .read) && !(c.events .write && real .write) then .ok s
      else if !ok then .ok s
      else s.triggerAll e.ptr real

/-- The context is looked up, or the thread is about to make the vector longer. -/
def lookup (s : IOManager) (request : Request) : Phase :=
  match s.fdContexts[request.fd]? with
  | some ptr => .found ptr request
  | none =>
      match request with
      | .addEvent _ _ _ => .resizing request
      | _ => .free

def execute (s : IOManager) (ptr : ℕ) (ok : Bool) : Request → Except Panic IOManager
  | .addEvent _ event target => (s.addEvent ptr event target ok).map Prod.snd
  | .delEvent _ event => (s.delEvent ptr event ok).map Prod.snd
  | .cancelEvent _ event => (s.cancelEvent ptr event ok).map Prod.snd
  | .cancelAll _ => (s.cancelAll ptr ok).map Prod.snd

/-- What the threads can do next; `ok` is the result of `epoll_ctl`. -/
inductive Action
  | call (thread : ℕ) (request : Request)
  | resize (thread : ℕ)
  | lock (thread : ℕ) (ok : Bool)
  | epollWait (thread : ℕ) (events : List EpollEvent)
  | process (thread : ℕ) (ok : Bool)

/-- The kernel reports events that are registered when it is asked. -/
def reported (s : IOManager) (e : EpollEvent) : Bool :=
  match s.contexts[e.ptr]? with
  | none => false
  | some c => (!e.events .read || c.events .read) && (!e.events .write || c.events .write)

def goto (s : IOManager) (thread : ℕ) (phase : Phase) : IOManager :=
  { s with threads := Function.update s.threads thread phase }

/-- The process ends, or the thread goes on. -/
def finish (s : IOManager) (thread : ℕ) (phase : Phase) : Except Panic IOManager → IOManager
  | .ok s' => s'.goto thread phase
  | .error p => { s with panic := some p }

/-- An action that is not the thread's next one does nothing. -/
def advance (s : IOManager) : Action → IOManager
  | .call thread request =>
      match s.threads thread with
      | .free => s.goto thread (s.lookup request)
      | _ => s
  | .resize thread =>
      match s.threads thread with
      | .resizing request =>
          let s := s.contextResize (request.fd * 3 / 2)
          match s.fdContexts[request.fd]? with
          | some ptr => s.goto thread (.found ptr request)
          | none => { s with panic := some .nullPointer }
      | _ => s
  | .lock thread ok =>
      match s.threads thread with
      | .found ptr request => s.finish thread .free (s.execute ptr ok request)
      | _ => s
  | .epollWait thread events =>
      match s.threads thread with
      | .free =>
          if events.length ≤ 256 ∧ events.all s.reported then
            s.goto thread (.processing events)
          else s
      | _ => s
  | .process thread ok =>
      match s.threads thread with
      | .processing (e :: rest) => s.finish thread (.processing rest) (s.processEvent e ok)
      | .processing [] => s.goto thread .free
      | _ => s

/-- Nothing happens after the end of the process. -/
def step (s : IOManager) (a : Action) : IOManager :=
  if s.panic.isSome then s else s.advance a

end IOManager

end HttpRaftKv.Fiber
