import HttpRaftKv.Kv.Archive
import HttpRaftKv.Kv.Threads

/-!
# Client processes

Client processes use a cluster one after another.  Each has one `Clerk`, which draws its
own name and numbers its requests from one on, and makes one `TryPut` after another.  A
`TryPut` asks the servers in turn until one of them answers `OK` or its time is over; a
request that has been given up may still reach its server.  The Raft nodes are not
modelled: a command that a server has started may be committed at any later moment, and
every server is given the committed commands in their one order.

`begun` and `returned` are not part of the program.  They record the requests of the
calls that have begun, and with each call that has returned the commands that the server
which answered it has executed since the call began.
-/

namespace HttpRaftKv.Kv

open Raft

inductive ClerkStatus
  | kOk
  | kNotFound
  | kUnavailable
deriving DecidableEq, Repr

structure Clerk where
  clientId : String
  requestId : ℤ
  recentLeaderId : ℕ
deriving DecidableEq, Repr

namespace Clerk

/-- The numbers are what `rand` draws. -/
def uuid (r₀ r₁ r₂ r₃ : ℕ) : String :=
  toString r₀ ++ toString r₁ ++ toString r₂ ++ toString r₃

def create (r₀ r₁ r₂ r₃ : ℕ) : Clerk where
  clientId := uuid r₀ r₁ r₂ r₃
  requestId := 0
  recentLeaderId := 0

/-- `m_requestId++` on an `int`. -/
def nextRequest (clerk : Clerk) : Clerk :=
  { clerk with requestId := (clerk.requestId + 1).bmod (2 ^ 32) }

def put (clerk : Clerk) (key value : String) : Op where
  operation := "Put"
  key := key
  value := value
  clientId := clerk.clientId
  requestId := clerk.requestId

end Clerk

/-- Where a `TryPut` is: at the head of its loop with the next server to ask, or waiting
for the answer of a server, where its request has a handler.  `before` counts for each
server the commands that it had executed when the call began. -/
inductive Calling (n : ℕ)
  | idle
  | trying (key value : String) (before : Fin n → ℕ) (server : Fin n)
  | waiting (key value : String) (before : Fin n → ℕ) (server : Fin n) (handler : ℕ)

structure Returned where
  status : ClerkStatus
  key : String
  value : String
  applied : List Op
deriving DecidableEq, Repr

structure Deployment (n : ℕ) where
  servers : Fin n → Server
  /-- The commands that have been started and not been committed. -/
  started : List Op
  /-- The committed commands. -/
  log : List ApplyMsg
  clerk : Clerk
  calling : Calling n
  freshHandler : ℕ
  begun : List (String × ℤ)
  returned : List Returned

/-- A new process is started, at any moment; the call of the process before it is lost.
The time of a call may be over at its beginning or between two attempts. -/
inductive DeploymentStep (n : ℕ)
  | newProcess (r₀ r₁ r₂ r₃ : ℕ)
  | tryPut (key value : String) (timeout : Bool)
  | attempt
  | transportFailure
  | answer
  | expire
  | start (server : Fin n) (handler : ℕ) (raftIndex : Option ℤ)
  | commit (k : ℕ)
  | server (server : Fin n) (a : Action)

/-- The steps that a server takes by itself, without those for a `Get` and those for a
snapshot. -/
def Action.internal : Action → Bool
  | .pop | .check | .execute _ | .compact _ | .send | .openChan _ | .take _ | .timeOut _ _
  | .recheck _ | .close _ => true
  | .install _ | .get _ _ _ _ | .putAppend _ _ | .start _ _ | .read _ => false

namespace Deployment

variable {n : ℕ}

/-- The first process on a new cluster. -/
def init (r₀ r₁ r₂ r₃ : ℕ) : Deployment n where
  servers := fun _ ↦ .boot .create
  started := []
  log := []
  clerk := .create r₀ r₁ r₂ r₃
  calling := .idle
  freshHandler := 0
  begun := []
  returned := []

def setServer (d : Deployment n) (server : Fin n) (s : Server) : Deployment n :=
  { d with servers := Function.update d.servers server s }

/-- `(server + 1) % m_servers.size()`. -/
def nextServer (server : Fin n) : Fin n :=
  ⟨(server + 1) % n, Nat.mod_lt _ server.pos⟩

/-- The first part of `TryPutAppend`.  There is no server to ask, or the time of the call
is over, or it is given a number and goes to its loop. -/
def tryPut (d : Deployment n) (key value : String) (timeout : Bool) : Deployment n :=
  if h : 0 < n then
    if timeout then
      { d with returned := d.returned ++ [⟨.kUnavailable, key, value, []⟩] }
    else
      let clerk := d.clerk.nextRequest
      { d with
        clerk := clerk
        begun := d.begun ++ [(clerk.clientId, clerk.requestId)]
        calling := .trying key value (fun i ↦ (d.servers i).executed.length)
          ⟨clerk.recentLeaderId % n, Nat.mod_lt _ h⟩ }
  else
    { d with returned := d.returned ++ [⟨.kUnavailable, key, value, []⟩] }

/-- What `TryPutAppend` does with the answer of a server. -/
def answered (d : Deployment n) (key value : String) (before : Fin n → ℕ) (server : Fin n)
    (reply : Reply) : Deployment n :=
  match reply.err with
  | .ok =>
      { d with
        clerk := { d.clerk with recentLeaderId := server }
        calling := .idle
        returned := d.returned ++
          [⟨.kOk, key, value, (d.servers server).executed.drop (before server)⟩] }
  | .errWrongLeader | .errNoKey =>
      { d with calling := .trying key value before (nextServer server) }

/-- The handler of a request asks the Raft node to start its command. -/
def start (d : Deployment n) (server : Fin n) (handler : ℕ) (raftIndex : Option ℤ) :
    Deployment n :=
  let s := d.servers server
  match s.calls.handlers handler with
  | some called =>
      if s.terminated = false ∧ called.state = .called then
        { d.setServer server { s with calls := s.calls.start handler raftIndex } with
          started := if raftIndex.isSome then d.started ++ [called.op] else d.started }
      else d
  | none => d

section steps

variable [TextArchive Op] [TextArchive (SkipListDump String String)] [TextArchive KvSnapshot]

/-- The next entry of the one order. -/
def entry (log : List ApplyMsg) (op : Op) : ApplyMsg where
  commandValid := true
  command := TextArchive.save op
  commandIndex := log.length + 1

def step (d : Deployment n) : DeploymentStep n → Deployment n
  | .newProcess r₀ r₁ r₂ r₃ =>
      { d with clerk := .create r₀ r₁ r₂ r₃, calling := .idle }
  | .tryPut key value timeout =>
      match d.calling with
      | .idle => d.tryPut key value timeout
      | _ => d
  | .attempt =>
      match d.calling with
      | .trying key value before server =>
          let s := d.servers server
          { d.setServer server { s with
              calls := s.calls.call d.freshHandler .putAppend (d.clerk.put key value) } with
            freshHandler := d.freshHandler + 1
            calling := .waiting key value before server d.freshHandler }
      | _ => d
  | .transportFailure =>
      match d.calling with
      | .waiting key value before server _ =>
          { d with calling := .trying key value before (nextServer server) }
      | _ => d
  | .answer =>
      match d.calling with
      | .waiting key value before server handler =>
          match (d.servers server).calls.handlers handler with
          | some ⟨_, _, .replied reply⟩ => d.answered key value before server reply
          | _ => d
      | _ => d
  | .expire =>
      match d.calling with
      | .trying key value _ _ =>
          { d with
            calling := .idle
            returned := d.returned ++ [⟨.kUnavailable, key, value, []⟩] }
      | _ => d
  | .start server handler raftIndex => d.start server handler raftIndex
  | .commit k =>
      match d.started[k]? with
      | some op => { d with started := d.started.eraseIdx k, log := d.log ++ [entry d.log op] }
      | none => d
  | .server server a =>
      if a.internal then d.setServer server ((d.servers server).step d.log a) else d

def run (r₀ r₁ r₂ r₃ : ℕ) (as : List (DeploymentStep n)) : Deployment n :=
  Runs.run step (init r₀ r₁ r₂ r₃) as

end steps

/-- A call that has time is given a request number above all those that were used under
the name of its client before. -/
def NumbersAbove (d : Deployment n) : DeploymentStep n → Prop
  | .tryPut _ _ timeout =>
      timeout = false → ∀ request ∈ d.begun, request.1 = d.clerk.clientId →
        request.2 < d.clerk.nextRequest.requestId
  | _ => True

instance (d : Deployment n) : ∀ a, Decidable (d.NumbersAbove a)
  | .tryPut _ _ timeout =>
      inferInstanceAs (Decidable (timeout = false → ∀ request ∈ d.begun, _ → _))
  | .newProcess _ _ _ _ | .attempt | .transportFailure | .answer | .expire | .start _ _ _
  | .commit _ | .server _ _ => inferInstanceAs (Decidable True)

end Deployment

end HttpRaftKv.Kv
