import HttpRaftKv.Kv.Server
import HttpRaftKv.Lib.Runs

/-!
# The threads of a server

One thread takes the messages of the apply channel one after another, and every
remote call has a handler thread.  A step is a part of a thread that runs with
one lock held, so a run is any interleaving of such parts.  Which handler takes
the next step, what the Raft node answers and when a wait times out is free.
The messages `cmds` that the apply channel delivers are given.
-/

namespace HttpRaftKv.Kv

open Raft

inductive Rpc
  | get
  | putAppend
deriving DecidableEq, Repr

inductive Err
  | ok
  | errNoKey
  | errWrongLeader
deriving DecidableEq, Repr

structure Reply where
  err : Err
  value : String := ""
deriving DecidableEq, Repr

/-- Where a handler stands: before `Start`, before it makes its channel, before
and in `timeOutPop`, before it asks whether its request is a duplicate, before
it reads the store, and before it deletes its channel. -/
inductive HandlerState
  | called
  | accepted (raftIndex : ℤ)
  | waiting (raftIndex : ℤ) (chan : ℕ)
  | blocked (raftIndex : ℤ) (chan : ℕ)
  | timedOut (raftIndex : ℤ) (isLeader : Bool)
  | reading (raftIndex : ℤ)
  | closing (raftIndex : ℤ) (reply : Reply)
  | replied (reply : Reply)
deriving DecidableEq, Repr

structure Handler where
  rpc : Rpc
  op : Op
  state : HandlerState
deriving DecidableEq, Repr

/-- The handlers by number, and the channels by address.  A deleted channel is
`none`. -/
structure Calls where
  handlers : ℕ → Option Handler
  waitApplyCh : ℤ → Option ℕ
  chans : ℕ → Option (List Op)
  freshChan : ℕ

namespace Calls

def init : Calls where
  handlers := fun _ ↦ none
  waitApplyCh := fun _ ↦ none
  chans := fun _ ↦ none
  freshChan := 0

def setState (calls : Calls) (h : ℕ) (handler : Handler) (state : HandlerState) : Calls :=
  { calls with handlers := Function.update calls.handlers h (some { handler with state := state }) }

/-- A handler that has not run yet. -/
def call (calls : Calls) (h : ℕ) (rpc : Rpc) (op : Op) : Calls :=
  match calls.handlers h with
  | none => calls.setState h ⟨rpc, op, .called⟩ .called
  | some _ => calls

/-- The answer of `Start`: an index, or nothing if the node does not lead. -/
def start (calls : Calls) (h : ℕ) (raftIndex : Option ℤ) : Calls :=
  match calls.handlers h with
  | some handler =>
      if handler.state = .called then
        match raftIndex with
        | none => calls.setState h handler (.replied ⟨.errWrongLeader, ""⟩)
        | some index => calls.setState h handler (.accepted index)
      else
        calls
  | none => calls

def openChan (calls : Calls) (h : ℕ) : Calls :=
  match calls.handlers h with
  | some handler =>
      match handler.state with
      | .accepted index =>
          match calls.waitApplyCh index with
          | some chan => calls.setState h handler (.waiting index chan)
          | none =>
              { calls with
                waitApplyCh := Function.update calls.waitApplyCh index (some calls.freshChan)
                chans := Function.update calls.chans calls.freshChan (some [])
                freshChan := calls.freshChan + 1 }.setState h handler
                  (.waiting index calls.freshChan)
      | _ => calls
  | none => calls

/-- What a handler does with the command that has been applied at its index. -/
def received (handler : Handler) (index : ℤ) (raftCommitOp : Op) : HandlerState :=
  if raftCommitOp.clientId = handler.op.clientId ∧
      raftCommitOp.requestId = handler.op.requestId then
    match handler.rpc with
    | .get => .reading index
    | .putAppend => .closing index ⟨.ok, ""⟩
  else
    .closing index ⟨.errWrongLeader, ""⟩

/-- `timeOutPop` finds a command, or waits for one.  There is no result if the
channel has been deleted. -/
def take (calls : Calls) (h : ℕ) : Option Calls :=
  match calls.handlers h with
  | some handler =>
      match handler.state with
      | .waiting index chan | .blocked index chan => do
          match ← calls.chans chan with
          | [] => return calls.setState h handler (.blocked index chan)
          | raftCommitOp :: queue =>
              return { calls with chans := Function.update calls.chans chan (some queue) }.setState h
                handler (received handler index raftCommitOp)
      | _ => some calls
  | none => some calls

/-- `timeOutPop` gives up; a `Get` then asks whether the node still leads. -/
def timeOut (calls : Calls) (h : ℕ) (isLeader : Bool) : Calls :=
  match calls.handlers h with
  | some handler =>
      match handler.state with
      | .blocked index _ => calls.setState h handler (.timedOut index isLeader)
      | _ => calls
  | none => calls

/-- After a timeout a duplicate request is answered all the same. -/
def recheck (calls : Calls) (h : ℕ) (kv : KvServer) : Calls :=
  match calls.handlers h with
  | some handler =>
      match handler.state with
      | .timedOut index isLeader =>
          let duplicate := kv.ifRequestDuplicate handler.op.clientId handler.op.requestId
          match handler.rpc with
          | .get =>
              if duplicate && isLeader then
                calls.setState h handler (.reading index)
              else
                calls.setState h handler (.closing index ⟨.errWrongLeader, ""⟩)
          | .putAppend =>
              if duplicate then
                calls.setState h handler (.closing index ⟨.ok, ""⟩)
              else
                calls.setState h handler (.closing index ⟨.errWrongLeader, ""⟩)
      | _ => calls
  | none => calls

/-- The handler that is about to read the store, and its index. -/
def reader (calls : Calls) (h : ℕ) : Option (Handler × ℤ) :=
  match calls.handlers h with
  | some handler =>
      match handler.state with
      | .reading index => some (handler, index)
      | _ => none
  | none => none

def readReply : Option String → Reply
  | some value => ⟨.ok, value⟩
  | none => ⟨.errNoKey, ""⟩

def close (calls : Calls) (h : ℕ) : Calls :=
  match calls.handlers h with
  | some handler =>
      match handler.state with
      | .closing index reply =>
          { calls with
            waitApplyCh := Function.update calls.waitApplyCh index none
            chans := match calls.waitApplyCh index with
              | some chan => Function.update calls.chans chan none
              | none => calls.chans }.setState h handler (.replied reply)
      | _ => calls
  | none => calls

def sendMessageToWaitChan (calls : Calls) (op : Op) (raftIndex : ℤ) : Option Calls :=
  match calls.waitApplyCh raftIndex with
  | none => some calls
  | some chan => do
      let queue ← calls.chans chan
      return { calls with chans := Function.update calls.chans chan (some (queue ++ [op])) }

end Calls

/-- Where the loop over the apply channel stands: before `Pop`, before it asks
whether the request is a duplicate, before it executes the command, before it
may make a snapshot, before it wakes the handler, and before it installs a
snapshot. -/
inductive LoopState
  | idle
  | received (message : ApplyMsg) (op : Op)
  | executing (message : ApplyMsg) (op : Op)
  | compacting (message : ApplyMsg) (op : Op)
  | sending (message : ApplyMsg) (op : Op)
  | installing (message : ApplyMsg)
deriving DecidableEq, Repr

/-- The command that the loop is about to execute. -/
def LoopState.pending : LoopState → Option Op
  | .executing _ op => some op
  | _ => none

/-- No snapshot is installed, and none follows. -/
def LoopState.Clean : LoopState → Prop
  | .idle => True
  | .received message _ => message.snapshotValid = false
  | .executing message _ => message.snapshotValid = false
  | .compacting message _ => message.snapshotValid = false
  | .sending message _ => message.snapshotValid = false
  | .installing _ => False

/-- `popped` counts the messages that have been taken, and `executed` lists the
commands that have been executed on the store.  A `terminated` process takes no
more steps. -/
structure Server where
  kv : KvServer
  loop : LoopState
  popped : ℕ
  executed : List Op
  calls : Calls
  terminated : Bool

inductive Action
  | pop
  | check
  | execute (heads : ℕ)
  | compact (large : Bool)
  | send
  | install (heads : ℕ → ℕ)
  | get (h : ℕ) (key clientId : String) (requestId : ℤ)
  | putAppend (h : ℕ) (op : Op)
  | start (h : ℕ) (raftIndex : Option ℤ)
  | openChan (h : ℕ)
  | take (h : ℕ)
  | timeOut (h : ℕ) (isLeader : Bool)
  | recheck (h : ℕ)
  | read (h : ℕ)
  | close (h : ℕ)

/-- The operations that the state machine executes. -/
def Op.isWrite (op : Op) : Bool :=
  op.operation = "Put" || op.operation = "Append"

/-- The branches of `GetCommandFromRaft` on a put and on an append. -/
def KvServer.executeOnKVDB (kv : KvServer) (op : Op) (heads : ℕ) : Option KvServer :=
  if op.operation = "Put" then
    kv.executePutOpOnKVDB op heads
  else
    kv.executeAppendOpOnKVDB op heads

namespace Server

def boot (kv : KvServer) : Server where
  kv := kv
  loop := .idle
  popped := 0
  executed := []
  calls := .init
  terminated := false

/-- The loop after `GetCommandFromRaft`. -/
def afterCommand (message : ApplyMsg) : LoopState :=
  if message.snapshotValid then .installing message else .idle

theorem afterCommand_eq_idle {message : ApplyMsg} (h : message.snapshotValid = false) :
    afterCommand message = .idle := by
  simp [afterCommand, h]

/-- The first part of `GetCommandFromRaft`. -/
def check (s : Server) : Server :=
  match s.loop with
  | .received message op =>
      if message.commandIndex ≤ s.kv.lastSnapShotRaftLogIndex then
        { s with loop := afterCommand message }
      else if !s.kv.ifRequestDuplicate op.clientId op.requestId && op.isWrite then
        { s with loop := .executing message op }
      else
        { s with loop := .compacting message op }
  | _ => s

def execute (s : Server) (heads : ℕ) : Option Server :=
  match s.loop with
  | .executing message op => do
      let kv ← s.kv.executeOnKVDB op heads
      return { s with kv := kv, loop := .compacting message op, executed := s.executed ++ [op] }
  | _ => some s

def send (s : Server) : Option Server :=
  match s.loop with
  | .sending message op => do
      let calls ← s.calls.sendMessageToWaitChan op message.commandIndex
      return { s with calls := calls, loop := afterCommand message }
  | _ => some s

/-- `ExecuteGetOpOnKVDB` in a handler. -/
def read (s : Server) (h : ℕ) : Option Server :=
  match s.calls.reader h with
  | some (handler, index) => do
      let (value, kv) ← s.kv.executeGetOpOnKVDB handler.op
      return { s with
        kv := kv
        calls := s.calls.setState h handler (.closing index (Calls.readReply value)) }
  | none => some s

section archives

variable [TextArchive Op] [TextArchive (SkipListDump String String)] [TextArchive KvSnapshot]

def pop (cmds : List ApplyMsg) (s : Server) : Option Server :=
  match s.loop, cmds[s.popped]? with
  | .idle, some message =>
      if message.commandValid then do
        let op ← TextArchive.load message.command
        return { s with loop := .received message op, popped := s.popped + 1 }
      else
        some { s with loop := afterCommand message, popped := s.popped + 1 }
  | _, _ => some s

/-- `IfNeedToSendSnapShotCommand`: the server makes a snapshot if the state of
the Raft node is large.  The snapshot goes to the node. -/
def compact (s : Server) (large : Bool) : Option Server :=
  match s.loop with
  | .compacting message op =>
      if large then do
        let (_, kv) ← s.kv.makeSnapShot
        return { s with kv := kv, loop := .sending message op }
      else
        some { s with loop := .sending message op }
  | _ => some s

def install (s : Server) (heads : ℕ → ℕ) : Option Server :=
  match s.loop with
  | .installing message => do
      let kv ← s.kv.getSnapShotFromRaft message heads
      return { s with kv := kv, loop := .idle }
  | _ => some s

/-- One step, or `none` if it ends the process. -/
def next (cmds : List ApplyMsg) (s : Server) : Action → Option Server
  | .pop => s.pop cmds
  | .check => some s.check
  | .execute heads => s.execute heads
  | .compact large => s.compact large
  | .send => s.send
  | .install heads => s.install heads
  | .get h key clientId requestId =>
      some { s with calls := s.calls.call h .get ⟨"Get", key, "", clientId, requestId⟩ }
  | .putAppend h op => some { s with calls := s.calls.call h .putAppend op }
  | .start h raftIndex => some { s with calls := s.calls.start h raftIndex }
  | .openChan h => some { s with calls := s.calls.openChan h }
  | .take h => (s.calls.take h).map fun calls ↦ { s with calls := calls }
  | .timeOut h isLeader => some { s with calls := s.calls.timeOut h isLeader }
  | .recheck h => some { s with calls := s.calls.recheck h s.kv }
  | .read h => s.read h
  | .close h => some { s with calls := s.calls.close h }

def step (cmds : List ApplyMsg) (s : Server) (a : Action) : Server :=
  if s.terminated then s else (s.next cmds a).getD { s with terminated := true }

def run (cmds : List ApplyMsg) (kv : KvServer) (as : List Action) : Server :=
  Runs.run (step cmds) (boot kv) as

end archives

/-! ## What a step does to the data -/

/-- The command that a step reads the store for. -/
def reads (s : Server) : Action → Option Op
  | .read h => (s.calls.reader h).map fun p ↦ p.1.op
  | _ => none


section effect

variable [TextArchive Op] [TextArchive (SkipListDump String String)] [TextArchive KvSnapshot]

/-- What a step makes of the data, the loop, the number of taken messages and
the executed commands. -/
inductive Effect (cmds : List ApplyMsg) (s : Server) :
    Action → KvServer → LoopState → ℕ → List Op → Prop
  | same (a : Action) : Effect cmds s a s.kv s.loop s.popped s.executed
  | popped (message : ApplyMsg) (op : Op) (hloop : s.loop = .idle)
      (hmessage : cmds[s.popped]? = some message) (hvalid : message.commandValid = true)
      (hop : TextArchive.load message.command = some op) :
      Effect cmds s .pop s.kv (.received message op) (s.popped + 1) s.executed
  | passed (message : ApplyMsg) (hloop : s.loop = .idle)
      (hmessage : cmds[s.popped]? = some message) (hvalid : message.commandValid = false) :
      Effect cmds s .pop s.kv (afterCommand message) (s.popped + 1) s.executed
  | covered (message : ApplyMsg) (op : Op) (hloop : s.loop = .received message op)
      (hindex : message.commandIndex ≤ s.kv.lastSnapShotRaftLogIndex) :
      Effect cmds s .check s.kv (afterCommand message) s.popped s.executed
  | skipped (message : ApplyMsg) (op : Op) (hloop : s.loop = .received message op)
      (hindex : s.kv.lastSnapShotRaftLogIndex < message.commandIndex)
      (hskip : s.kv.ifRequestDuplicate op.clientId op.requestId = true ∨ op.isWrite = false) :
      Effect cmds s .check s.kv (.compacting message op) s.popped s.executed
  | checked (message : ApplyMsg) (op : Op) (hloop : s.loop = .received message op)
      (hindex : s.kv.lastSnapShotRaftLogIndex < message.commandIndex)
      (hfresh : s.kv.ifRequestDuplicate op.clientId op.requestId = false)
      (hwrite : op.isWrite = true) :
      Effect cmds s .check s.kv (.executing message op) s.popped s.executed
  | executed (heads : ℕ) (message : ApplyMsg) (op : Op) (kv : KvServer)
      (hloop : s.loop = .executing message op) (hkv : s.kv.write op heads = some kv) :
      Effect cmds s (.execute heads) kv (.compacting message op) s.popped (s.executed ++ [op])
  | compacted (large : Bool) (message : ApplyMsg) (op : Op) (data : String)
      (hloop : s.loop = .compacting message op) :
      Effect cmds s (.compact large) { s.kv with serializedKVData := data } (.sending message op)
        s.popped s.executed
  | sent (message : ApplyMsg) (op : Op) (hloop : s.loop = .sending message op) :
      Effect cmds s .send s.kv (afterCommand message) s.popped s.executed
  | installed (heads : ℕ → ℕ) (message : ApplyMsg) (kv : KvServer)
      (hloop : s.loop = .installing message)
      (hkv : s.kv.getSnapShotFromRaft message heads = some kv) :
      Effect cmds s (.install heads) kv .idle s.popped s.executed
  | recorded (h : ℕ) (op : Op) (hreads : s.reads (.read h) = some op) :
      Effect cmds s (.read h) (s.kv.record op) s.loop s.popped s.executed

variable {cmds : List ApplyMsg} {s s' : Server}

theorem pop_effect (h : s.pop cmds = some s') :
    Effect cmds s .pop s'.kv s'.loop s'.popped s'.executed := by
  unfold pop at h
  split at h
  next message hloop hmessage =>
    split_ifs at h with hvalid
    · obtain ⟨op, hop, heq⟩ := Option.bind_eq_some_iff.mp h
      cases heq
      exact .popped message op hloop hmessage hvalid hop
    · cases h
      exact .passed message hloop hmessage (by simpa using hvalid)
  next =>
    cases h
    exact .same .pop

theorem check_effect (cmds : List ApplyMsg) (s : Server) :
    Effect cmds s .check s.check.kv s.check.loop s.check.popped s.check.executed := by
  unfold check
  split
  next message op hloop =>
    split_ifs with hindex hfresh
    · exact .covered message op hloop hindex
    · simp only [Bool.and_eq_true, Bool.not_eq_true'] at hfresh
      exact .checked message op hloop (lt_of_not_ge hindex) hfresh.1 hfresh.2
    · refine .skipped message op hloop (lt_of_not_ge hindex) ?_
      simp only [Bool.and_eq_true, Bool.not_eq_true', not_and_or, Bool.not_eq_false,
        Bool.not_eq_true] at hfresh
      exact hfresh
  next => exact .same .check

theorem execute_effect {heads : ℕ} (h : s.execute heads = some s') :
    Effect cmds s (.execute heads) s'.kv s'.loop s'.popped s'.executed := by
  unfold execute at h
  split at h
  next message op hloop =>
    obtain ⟨kv, hkv, heq⟩ := Option.bind_eq_some_iff.mp h
    cases heq
    refine .executed heads message op kv hloop ?_
    unfold KvServer.executeOnKVDB at hkv
    split_ifs at hkv
    · exact hkv
    · exact hkv
  next =>
    cases h
    exact .same _

theorem compact_effect {large : Bool} (h : s.compact large = some s') :
    Effect cmds s (.compact large) s'.kv s'.loop s'.popped s'.executed := by
  unfold compact at h
  split at h
  next message op hloop =>
    split_ifs at h with hlarge
    · obtain ⟨⟨snapshot, kv⟩, hkv, heq⟩ := Option.bind_eq_some_iff.mp h
      cases heq
      obtain ⟨data, -, hkv⟩ := Option.bind_eq_some_iff.mp hkv
      cases hkv
      exact .compacted large message op "" hloop
    · cases h
      exact .compacted large message op s.kv.serializedKVData hloop
  next =>
    cases h
    exact .same _

theorem send_effect (h : s.send = some s') :
    Effect cmds s .send s'.kv s'.loop s'.popped s'.executed := by
  unfold send at h
  split at h
  next message op hloop =>
    obtain ⟨calls, -, heq⟩ := Option.bind_eq_some_iff.mp h
    cases heq
    exact .sent message op hloop
  next =>
    cases h
    exact .same _

theorem install_effect {heads : ℕ → ℕ} (h : s.install heads = some s') :
    Effect cmds s (.install heads) s'.kv s'.loop s'.popped s'.executed := by
  unfold install at h
  split at h
  next message hloop =>
    obtain ⟨kv, hkv, heq⟩ := Option.bind_eq_some_iff.mp h
    cases heq
    exact .installed heads message kv hloop hkv
  next =>
    cases h
    exact .same _

theorem read_effect {n : ℕ} (h : s.read n = some s') :
    Effect cmds s (.read n) s'.kv s'.loop s'.popped s'.executed := by
  unfold read at h
  split at h
  next handler index hreader =>
    obtain ⟨⟨value, kv⟩, hkv, heq⟩ := Option.bind_eq_some_iff.mp h
    cases heq
    obtain ⟨_, -, hkv⟩ := Option.bind_eq_some_iff.mp hkv
    cases hkv
    exact .recorded n handler.op (by simp [reads, hreader])
  next =>
    cases h
    exact .same _

theorem next_effect {a : Action} (h : s.next cmds a = some s') :
    Effect cmds s a s'.kv s'.loop s'.popped s'.executed := by
  cases a with
  | pop => exact pop_effect h
  | check =>
      cases h
      exact check_effect cmds s
  | execute heads => exact execute_effect h
  | compact large => exact compact_effect h
  | send => exact send_effect h
  | install heads => exact install_effect h
  | read n => exact read_effect h
  | take n =>
      obtain ⟨calls, -, heq⟩ := Option.map_eq_some_iff.mp h
      cases heq
      exact .same _
  | get n key clientId requestId =>
      cases h
      exact .same _
  | putAppend n op =>
      cases h
      exact .same _
  | start n raftIndex =>
      cases h
      exact .same _
  | openChan n =>
      cases h
      exact .same _
  | timeOut n isLeader =>
      cases h
      exact .same _
  | recheck n =>
      cases h
      exact .same _
  | close n =>
      cases h
      exact .same _

theorem step_effect (cmds : List ApplyMsg) (s : Server) (a : Action) :
    Effect cmds s a (s.step cmds a).kv (s.step cmds a).loop (s.step cmds a).popped
      (s.step cmds a).executed := by
  unfold step
  split_ifs
  · exact .same a
  · cases hnext : s.next cmds a with
    | none => exact .same a
    | some s' => exact next_effect hnext

variable {a : Action} {kv : KvServer} {loop : LoopState} {popped : ℕ} {executed : List Op}

/-- If no message carries a snapshot, none is installed. -/
theorem Effect.clean (hcmds : ∀ message ∈ cmds, message.snapshotValid = false)
    (hclean : s.loop.Clean) (h : Effect cmds s a kv loop popped executed) : loop.Clean := by
  cases h with
  | same => exact hclean
  | popped message op hloop hmessage => exact hcmds message (List.mem_of_getElem? hmessage)
  | passed message hloop hmessage =>
      rw [afterCommand_eq_idle (hcmds message (List.mem_of_getElem? hmessage))]
      trivial
  | covered message op hloop =>
      rw [hloop] at hclean
      rw [afterCommand_eq_idle hclean]
      trivial
  | skipped message op hloop =>
      rw [hloop] at hclean
      exact hclean
  | checked message op hloop =>
      rw [hloop] at hclean
      exact hclean
  | executed heads message op kv hloop =>
      rw [hloop] at hclean
      exact hclean
  | compacted large message op data hloop =>
      rw [hloop] at hclean
      exact hclean
  | sent message op hloop =>
      rw [hloop] at hclean
      rw [afterCommand_eq_idle hclean]
      trivial
  | installed => trivial
  | recorded => exact hclean

theorem clean_run (hcmds : ∀ message ∈ cmds, message.snapshotValid = false) (kv : KvServer)
    (as : List Action) : (run cmds kv as).loop.Clean := by
  refine Runs.invariant_of_step (step cmds) (P := fun _ s ↦ s.loop.Clean) ?_ ?_ as
  · trivial
  · exact fun _ a hclean ↦ (step_effect cmds _ a).clean hcmds hclean

end effect

end Server

end HttpRaftKv.Kv
