import HttpRaftKv.Lib.Runs
import HttpRaftKv.Raft.Node

/-!
# The cluster

A cluster is its nodes, the processes that have called `exit`, and the detached
threads with the calls they have made.  One action is one part of a function
that runs under the mutex of one node.  A call that is never delivered, or
whose reply is never received, is lost; calls and replies may be taken in any
order.  A thread receives at most one reply, the one to its own request.

If the peer closes the connection, `recv` yields no bytes, the empty text is
parsed, and the call returns a reply that has all its fields at their defaults.
Such a reply to `RequestVote` or `AppendEntries` is dropped unread, as if it had
been lost; the one to `InstallSnapshot` is the action `disconnect`.

The threads of one `doElection` share the counter `votedNum` and are named by
the node and the term of the election; the threads of one `doHeartBeat` share
`appendNums` and are named by the node and the number of its heartbeat.

`history` is not part of the program.  It records what the properties speak
about: who became leader, what was appended by `Start`, and what
`getApplyLogs` handed out.
-/

namespace HttpRaftKv.Raft

/-- A remote call as the thread that makes it sees it. -/
inductive Call (α β : Type)
  | sent (args : α)
  | replied (args : α) (reply : β)
  | returned (args : α) (reply : β)
deriving DecidableEq, Repr

/-- The call after the peer has closed its connection, if its thread still
waits for the reply. -/
def Call.disconnected {α β : Type} (reply : β) : Call α β → Option (Call α β)
  | sent args => some (replied args reply)
  | replied args _ => some (replied args reply)
  | returned _ _ => none

structure Election (n : ℕ) where
  votedNum : ℕ
  calls : Fin n → Option (Call (RequestVoteArgs n) RequestVoteReply)

/-- The thread that `doHeartBeat` starts for one peer.  A snapshot thread has
not built its request yet when it starts. -/
inductive Sender (n : ℕ)
  | appendEntries (call : Call (AppendEntriesArgs n) AppendEntriesReply)
  | snapShot (call : Option (Call (InstallSnapshotRequest n) InstallSnapshotResponse))
deriving DecidableEq, Repr

structure HeartBeat (n : ℕ) where
  appendNums : ℕ
  senders : Fin n → Option (Sender n)

inductive Event (n : ℕ)
  | elected (node : Fin n) (term : ℕ)
  | started (node : Fin n) (log : LogEntry)
  | emitted (node : Fin n) (msg : ApplyMsg)
deriving DecidableEq, Repr

structure Cluster (n : ℕ) where
  nodes : Fin n → Node n
  exited : Fin n → Bool
  elections : Fin n → ℕ → Option (Election n)
  heartBeats : Fin n → List (HeartBeat n)
  history : List (Event n)

/-- One step of one node.  `i` is the node that owns the thread, `p` its peer;
an election is named by its term, a heartbeat by its number. -/
inductive Action (n : ℕ)
  | doElection (i : Fin n)
  | requestVote (i : Fin n) (term : ℕ) (p : Fin n)
  | sendRequestVote (i : Fin n) (term : ℕ) (p : Fin n)
  | start (i : Fin n) (command : String)
  | doHeartBeat (i : Fin n)
  | appendEntries1 (i : Fin n) (beat : ℕ) (p : Fin n)
  | sendAppendEntries (i : Fin n) (beat : ℕ) (p : Fin n)
  | leaderSendSnapShot (i : Fin n) (beat : ℕ) (p : Fin n)
  | installSnapshot (i : Fin n) (beat : ℕ) (p : Fin n)
  | disconnect (i : Fin n) (beat : ℕ) (p : Fin n)
  | leaderSendSnapShotReply (i : Fin n) (beat : ℕ) (p : Fin n)
  | snapshot (i : Fin n) (index : ℕ) (snapshot : String)
  | getApplyLogs (i : Fin n)
deriving DecidableEq, Repr

namespace Cluster

variable {n : ℕ}

/-- A new process on an empty directory. -/
def init : Cluster n where
  nodes := fun _ ↦ Node.fresh (Storage.Persister.create "" "")
  exited := fun _ ↦ false
  elections := fun _ _ ↦ none
  heartBeats := fun _ ↦ []
  history := []

def exit (c : Cluster n) (i : Fin n) : Cluster n :=
  { c with exited := Function.update c.exited i true }

def setNode (c : Cluster n) (i : Fin n) (rf : Node n) : Cluster n :=
  { c with nodes := Function.update c.nodes i rf }

def setElection (c : Cluster n) (i : Fin n) (term : ℕ) (e : Election n) : Cluster n :=
  let elections := Function.update (c.elections i) term (some e)
  { c with elections := Function.update c.elections i elections }

def setHeartBeat (c : Cluster n) (i : Fin n) (beat : ℕ) (h : HeartBeat n) : Cluster n :=
  { c with heartBeats := Function.update c.heartBeats i ((c.heartBeats i).set beat h) }

def addHeartBeat (c : Cluster n) (i : Fin n) (h : HeartBeat n) : Cluster n :=
  { c with heartBeats := Function.update c.heartBeats i (c.heartBeats i ++ [h]) }

def record (c : Cluster n) (events : List (Event n)) : Cluster n :=
  { c with history := c.history ++ events }

end Cluster

def Election.setCall {n : ℕ} (e : Election n) (p : Fin n)
    (call : Call (RequestVoteArgs n) RequestVoteReply) : Election n :=
  { e with calls := Function.update e.calls p (some call) }

def HeartBeat.setSender {n : ℕ} (h : HeartBeat n) (p : Fin n) (s : Sender n) : HeartBeat n :=
  { h with senders := Function.update h.senders p (some s) }

namespace Cluster

variable {n : ℕ} [TextArchive (BoostPersistRaftNode n)]

/-- The effect of an action, or `none` where there is nothing to do: the
process has exited, or there is no such thread in the right phase. -/
def next (c : Cluster n) : Action n → Option (Cluster n)
  | .doElection i => do
      guard (c.exited i = false)
      let (rf, args) ← (c.nodes i).doElection i
      return (c.setNode i rf).setElection i rf.currentTerm {
        votedNum := 1
        calls := fun p ↦ if p = i then none else some (.sent args) }
  | .requestVote i term p => do
      guard (c.exited p = false)
      let e ← c.elections i term
      let some (.sent args) := e.calls p | none
      match (c.nodes p).requestVote args with
      | .error _ => return c.exit p
      | .ok (rf, reply) =>
          return (c.setNode p rf).setElection i term (e.setCall p (.replied args reply))
  | .sendRequestVote i term p => do
      guard (c.exited i = false)
      let e ← c.elections i term
      let some (.replied args reply) := e.calls p | none
      match (c.nodes i).sendRequestVote reply e.votedNum with
      | .error _ => return c.exit i
      | .ok (rf, votedNum, elected) =>
          return ((c.setNode i rf).setElection i term
            { e.setCall p (.returned args reply) with votedNum := votedNum }).record
              (if elected then [.elected i rf.currentTerm] else [])
  | .start i command => do
      guard (c.exited i = false)
      let (rf, log) ← (c.nodes i).start command
      return (c.setNode i rf).record [.started i log]
  | .doHeartBeat i => do
      guard (c.exited i = false)
      guard ((c.nodes i).status = .leader)
      let build : Fin n → Checked Failure (Option (Sender n)) := fun p ↦
        if p = i then .ok none
        else do
          match ← (c.nodes i).heartBeatTo i p with
          | some args => return some (.appendEntries (.sent args))
          | none => return some (.snapShot none)
      match Checked.forFin build with
      | .error _ => return c.exit i
      | .ok senders => return c.addHeartBeat i { appendNums := 1, senders := senders }
  | .appendEntries1 i beat p => do
      guard (c.exited p = false)
      let h ← (c.heartBeats i)[beat]?
      let some (.appendEntries (.sent args)) := h.senders p | none
      match (c.nodes p).appendEntries1 args with
      | .error _ => return c.exit p
      | .ok (rf, reply) =>
          return (c.setNode p rf).setHeartBeat i beat
            (h.setSender p (.appendEntries (.replied args reply)))
  | .sendAppendEntries i beat p => do
      guard (c.exited i = false)
      let h ← (c.heartBeats i)[beat]?
      let some (.appendEntries (.replied args reply)) := h.senders p | none
      match (c.nodes i).sendAppendEntries p args reply h.appendNums with
      | .error _ => return c.exit i
      | .ok (rf, appendNums) =>
          return (c.setNode i rf).setHeartBeat i beat
            { h.setSender p (.appendEntries (.returned args reply)) with
              appendNums := appendNums }
  | .leaderSendSnapShot i beat p => do
      guard (c.exited i = false)
      let h ← (c.heartBeats i)[beat]?
      let some (.snapShot none) := h.senders p | none
      let (rf, args) := (c.nodes i).leaderSendSnapShot i
      return (c.setNode i rf).setHeartBeat i beat (h.setSender p (.snapShot (some (.sent args))))
  | .installSnapshot i beat p => do
      guard (c.exited p = false)
      let h ← (c.heartBeats i)[beat]?
      let some (.snapShot (some (.sent args))) := h.senders p | none
      match (c.nodes p).installSnapshot args with
      | .error _ => return c.exit p
      | .ok (rf, reply, _) =>
          return (c.setNode p rf).setHeartBeat i beat
            (h.setSender p (.snapShot (some (.replied args reply))))
  | .disconnect i beat p => do
      let h ← (c.heartBeats i)[beat]?
      let some (.snapShot (some call)) := h.senders p | none
      let call ← call.disconnected {}
      return c.setHeartBeat i beat (h.setSender p (.snapShot (some call)))
  | .leaderSendSnapShotReply i beat p => do
      guard (c.exited i = false)
      let h ← (c.heartBeats i)[beat]?
      let some (.snapShot (some (.replied args reply))) := h.senders p | none
      return (c.setNode i ((c.nodes i).leaderSendSnapShotReply p args reply)).setHeartBeat i beat
        (h.setSender p (.snapShot (some (.returned args reply))))
  | .snapshot i index snapshot => do
      guard (c.exited i = false)
      match (c.nodes i).snapshot index snapshot with
      | .error _ => return c.exit i
      | .ok rf => return c.setNode i rf
  | .getApplyLogs i => do
      guard (c.exited i = false)
      match (c.nodes i).getApplyLogs with
      | .error _ => return c.exit i
      | .ok (rf, applyMsgs) => return (c.setNode i rf).record (applyMsgs.map (.emitted i))

def step (c : Cluster n) (a : Action n) : Cluster n :=
  (c.next a).getD c

/-- The cluster after the actions of a run, from the start. -/
def run (as : List (Action n)) : Cluster n :=
  Runs.run step init as

end Cluster

end HttpRaftKv.Raft
