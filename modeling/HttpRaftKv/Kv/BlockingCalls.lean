import HttpRaftKv.Kv.ExecutedLog
import Mathlib.Algebra.Group.Int.Defs

/-!
# Blocking calls

`Clerk::Put` and `Clerk::Append` make one `TryPutAppend` after another until one of
them returns `kOk`.  Each `TryPutAppend` has a request number of its own, under
which it asks the servers in turn until its time is over.  A request that has been
given up may still reach its server, and its command may still be committed: then
the next attempt is another request, and the servers execute its command as well.

One client makes its calls while other clients write.  `begun`, `attempts` and
`returned` are not part of the program.  They count the calls that have begun, and
record the command of every attempt with the number of its call, and with each call
that has returned the commands that the server which answered it has executed since
the call began.
-/

namespace HttpRaftKv.Kv

open Raft

inductive WriteKind
  | put
  | append
deriving DecidableEq, Repr

def WriteKind.operation : WriteKind → String
  | .put => "Put"
  | .append => "Append"

structure Write where
  kind : WriteKind
  key : String
  value : String
deriving DecidableEq, Repr

def Write.command (write : Write) (clientId : String) (requestId : ℤ) : Op where
  operation := write.kind.operation
  key := write.key
  value := write.value
  clientId := clientId
  requestId := requestId

theorem Write.isWrite_command (write : Write) (clientId : String) (requestId : ℤ) :
    (write.command clientId requestId).isWrite = true := by
  rcases write with ⟨_ | _, key, value⟩ <;> rfl

/-- Where a call is: before the next `TryPutAppend`, at the head of the loop of a
`TryPutAppend` with the next server to ask, or waiting for the answer of a server.
`before` counts for each server the commands that it had executed when the call began. -/
inductive Blocking (n : ℕ)
  | idle
  | looping (write : Write) (before : Fin n → ℕ)
  | trying (write : Write) (before : Fin n → ℕ) (server : Fin n)
  | waiting (write : Write) (before : Fin n → ℕ) (server : Fin n) (handler : ℕ)

structure ReturnedCall where
  number : ℕ
  write : Write
  applied : List Op
deriving DecidableEq, Repr

structure Workload (n : ℕ) where
  servers : Fin n → Server
  /-- The commands that have been started and not been committed. -/
  started : List Op
  /-- The committed commands. -/
  log : List Op
  clerk : Clerk
  blocking : Blocking n
  freshHandler : ℕ
  begun : ℕ
  attempts : List (ℕ × Op)
  returned : List ReturnedCall

inductive WorkloadStep (n : ℕ)
  | call (write : Write)
  | tryPutAppend
  | attempt
  | transportFailure
  | answer
  | expire
  | other (server : Fin n) (write : Write) (clientId : String) (requestId : ℤ)
  | start (server : Fin n) (handler : ℕ) (raftIndex : Option ℤ)
  | commit (k : ℕ)
  | server (server : Fin n) (a : Action)

namespace Workload

variable {n : ℕ}

def init (r₀ r₁ r₂ r₃ : ℕ) : Workload n where
  servers := fun _ ↦ .boot .create
  started := []
  log := []
  clerk := .create r₀ r₁ r₂ r₃
  blocking := .idle
  freshHandler := 0
  begun := 0
  attempts := []
  returned := []

def setServer (w : Workload n) (server : Fin n) (s : Server) : Workload n :=
  { w with servers := Function.update w.servers server s }

/-- A server gets a request for a write. -/
def request (w : Workload n) (server : Fin n) (op : Op) : Workload n :=
  { w.setServer server { w.servers server with
      calls := (w.servers server).calls.call w.freshHandler .putAppend op } with
    freshHandler := w.freshHandler + 1 }

/-- The command of the attempt that is being made. -/
def command (w : Workload n) (write : Write) : Op :=
  write.command w.clerk.clientId w.clerk.requestId

/-- The first part of `TryPutAppend`, with a time of one second.  If there is no server to
ask it returns `kUnavailable`, and the call goes on with the next one. -/
def tryPutAppend (w : Workload n) (write : Write) (before : Fin n → ℕ) : Workload n :=
  if h : 0 < n then
    let clerk := w.clerk.nextRequest
    { w with
      clerk := clerk
      attempts := w.attempts ++ [(w.begun, write.command clerk.clientId clerk.requestId)]
      blocking := .trying write before ⟨clerk.recentLeaderId % n, Nat.mod_lt _ h⟩ }
  else w

/-- What `TryPutAppend` does with the answer of a server. -/
def answered (w : Workload n) (write : Write) (before : Fin n → ℕ) (server : Fin n)
    (reply : Reply) : Workload n :=
  match reply.err with
  | .ok =>
      { w with
        clerk := { w.clerk with recentLeaderId := server }
        blocking := .idle
        returned := w.returned ++
          [⟨w.begun, write, (w.servers server).executed.drop (before server)⟩] }
  | .errWrongLeader | .errNoKey =>
      { w with blocking := .trying write before (Deployment.nextServer server) }

/-- The handler of a request asks the Raft node to start its command. -/
def start (w : Workload n) (server : Fin n) (handler : ℕ) (raftIndex : Option ℤ) : Workload n :=
  let s := w.servers server
  match s.calls.handlers handler with
  | some called =>
      if s.terminated = false ∧ called.state = .called then
        { w.setServer server { s with calls := s.calls.start handler raftIndex } with
          started := if raftIndex.isSome then w.started ++ [called.op] else w.started }
      else w
  | none => w

section steps

variable [TextArchive Op] [TextArchive (SkipListDump String String)] [TextArchive KvSnapshot]

/-- A `kUnavailable` brings the call back to the head of its own loop. -/
def step (w : Workload n) : WorkloadStep n → Workload n
  | .call write =>
      match w.blocking with
      | .idle =>
          { w with
            begun := w.begun + 1
            blocking := .looping write fun i ↦ (w.servers i).executed.length }
      | _ => w
  | .tryPutAppend =>
      match w.blocking with
      | .looping write before => w.tryPutAppend write before
      | _ => w
  | .attempt =>
      match w.blocking with
      | .trying write before server =>
          { w.request server (w.command write) with
            blocking := .waiting write before server w.freshHandler }
      | _ => w
  | .transportFailure =>
      match w.blocking with
      | .waiting write before server _ =>
          { w with blocking := .trying write before (Deployment.nextServer server) }
      | _ => w
  | .answer =>
      match w.blocking with
      | .waiting write before server handler =>
          match (w.servers server).calls.handlers handler with
          | some ⟨_, _, .replied reply⟩ => w.answered write before server reply
          | _ => w
      | _ => w
  | .expire =>
      match w.blocking with
      | .trying write before _ => { w with blocking := .looping write before }
      | _ => w
  | .other server write clientId requestId =>
      if clientId = w.clerk.clientId then w
      else w.request server (write.command clientId requestId)
  | .start server handler raftIndex => w.start server handler raftIndex
  | .commit k =>
      match w.started[k]? with
      | some op => { w with started := w.started.eraseIdx k, log := w.log ++ [op] }
      | none => w
  | .server server a =>
      if a.internal then w.setServer server ((w.servers server).step (messages w.log) a) else w

def run (r₀ r₁ r₂ r₃ : ℕ) (as : List (WorkloadStep n)) : Workload n :=
  Runs.run step (init r₀ r₁ r₂ r₃) as

end steps

/-- The command is that of an attempt of the call. -/
def ofCall (w : Workload n) (number : ℕ) (op : Op) : Bool :=
  (number, op) ∈ w.attempts

/-- A call that has returned has been executed once since it began, by the server that
answered it, and no server ever executes a call twice. -/
structure TakeEffectOnce (w : Workload n) : Prop where
  during : ∀ call ∈ w.returned, ∃ op, call.applied.filter (w.ofCall call.number) = [op] ∧
    op = call.write.command w.clerk.clientId op.requestId
  ever : ∀ server number, ((w.servers server).executed.filter (w.ofCall number)).length ≤ 1

/-- The request numbers do not overflow, and no command of an attempt is committed behind
one of an earlier attempt of its call, unless the servers will take it for a duplicate. -/
def Settled (w : Workload n) : WorkloadStep n → Prop
  | .tryPutAppend => w.clerk.requestId + 1 < 2 ^ 31
  | .commit k =>
      ∀ op ∈ w.started[k]?, ∀ attempt ∈ w.attempts, attempt.2 = op →
        ∀ earlier ∈ w.log, w.ofCall attempt.1 earlier = true →
          earlier.requestId < op.requestId → Covered w.log op
  | _ => True

instance (w : Workload n) : ∀ a, Decidable (w.Settled a)
  | .tryPutAppend => inferInstanceAs (Decidable (_ < _))
  | .commit k => inferInstanceAs (Decidable (∀ op ∈ w.started[k]?, ∀ attempt ∈ w.attempts,
      attempt.2 = op → ∀ earlier ∈ w.log, w.ofCall attempt.1 earlier = true →
        earlier.requestId < op.requestId → Covered w.log op))
  | .call _ | .attempt | .transportFailure | .answer | .expire | .other _ _ _ _ | .start _ _ _
  | .server _ _ => inferInstanceAs (Decidable True)

end Workload

end HttpRaftKv.Kv
