import HttpRaftKv.Lib.Archive
import HttpRaftKv.Lib.Checked
import HttpRaftKv.Storage.Persister

/-!
# One Raft node

The state of a node and the parts of its functions that run with the mutex
held, each as one function on the state.  A failed `myAssert` calls `exit`, so
a function that asserts returns the failure in place of a state.  The own
number `me` and the number `n` of peers, which `init` fixes, are parameters.
Timers are not modelled: every timeout may happen at any moment.
-/

namespace HttpRaftKv.Raft

open Storage Checked

inductive Status
  | follower
  | candidate
  | leader
deriving DecidableEq, Repr

inductive AppState
  | disconnected
  | appNormal
deriving DecidableEq, Repr

inductive VoteState
  | killed
  | voted
  | expire
  | normal
deriving DecidableEq, Repr

structure LogEntry where
  command : String
  logterm : ℕ
  logindex : ℕ
deriving DecidableEq, Repr

structure AppendEntriesArgs (n : ℕ) where
  term : ℕ
  leaderid : Fin n
  prevlogindex : ℕ
  prevlogterm : ℕ
  entries : List LogEntry
  leadercommit : ℕ
deriving DecidableEq, Repr

/-- The defaults are those of a freshly constructed message. -/
structure AppendEntriesReply where
  term : ℕ := 0
  success : Bool := false
  updatenextindex : ℤ := 0
  appstate : AppState := .disconnected
deriving DecidableEq, Repr

structure RequestVoteArgs (n : ℕ) where
  term : ℕ
  candidateid : Fin n
  lastlogindex : ℕ
  lastlogterm : ℕ
deriving DecidableEq, Repr

structure RequestVoteReply where
  term : ℕ := 0
  votegranted : Bool := false
  votestate : VoteState := .killed
deriving DecidableEq, Repr

structure InstallSnapshotRequest (n : ℕ) where
  leaderid : Fin n
  term : ℕ
  lastsnapshotincludeindex : ℕ
  lastsnapshotincludeterm : ℕ
  data : String
deriving DecidableEq, Repr

structure InstallSnapshotResponse where
  term : ℕ := 0
deriving DecidableEq, Repr

/-- What a node hands to its service over the apply channel. -/
structure ApplyMsg where
  commandValid : Bool := false
  command : String := ""
  commandIndex : ℤ := -1
  snapshotValid : Bool := false
  snapshot : String := ""
  snapshotTerm : ℤ := -1
  snapshotIndex : ℤ := -1
deriving DecidableEq, Repr

/-- The fields that `persistData` archives. -/
structure BoostPersistRaftNode (n : ℕ) where
  currentTerm : ℕ
  votedFor : Option (Fin n)
  lastSnapshotIncludeIndex : ℕ
  lastSnapshotIncludeTerm : ℕ
  logs : List LogEntry
deriving DecidableEq, Repr

/-- The assertions by the place where they stand, an access outside `m_logs`,
and an exception of the archive that nobody catches. -/
inductive Failure
  | appendEntriesTerm
  | sameIndexAndTermOtherCommand
  | appendEntriesLength
  | appendEntriesCommit
  | matchLogRange
  | logTermBelowSnapshot
  | logTermAboveLast
  | sliceBelowSnapshot
  | sliceAboveLast
  | requestVoteTerm
  | voteReplyTerm
  | twiceLeader
  | nextIndexBelowOne
  | heartBeatLength
  | appendReplyTerm
  | nextIndexAboveLast
  | leaderCommitAboveLast
  | applyCommitAboveLast
  | applyIndex
  | snapshotLength
  | outOfRange
  | archiveException
deriving DecidableEq, Repr

/-- A node.  `votedFor` is `none` where the source holds `-1`; the vectors
`m_nextIndex` and `m_matchIndex` have one slot for each peer. -/
structure Node (n : ℕ) where
  currentTerm : ℕ
  votedFor : Option (Fin n)
  logs : List LogEntry
  commitIndex : ℕ
  lastApplied : ℕ
  nextIndex : Fin n → ℤ
  matchIndex : Fin n → ℕ
  status : Status
  lastSnapshotIncludeIndex : ℕ
  lastSnapshotIncludeTerm : ℕ
  persister : Persister

namespace Node

variable {n : ℕ}

def getLastLogIndexAndTerm (rf : Node n) : ℕ × ℕ :=
  match rf.logs.getLast? with
  | none => (rf.lastSnapshotIncludeIndex, rf.lastSnapshotIncludeTerm)
  | some log => (log.logindex, log.logterm)

def getLastLogIndex (rf : Node n) : ℕ :=
  rf.getLastLogIndexAndTerm.1

def getLastLogTerm (rf : Node n) : ℕ :=
  rf.getLastLogIndexAndTerm.2

def getNewCommandIndex (rf : Node n) : ℕ :=
  rf.getLastLogIndex + 1

def upToDate (rf : Node n) (index term : ℕ) : Bool :=
  let (lastIndex, lastTerm) := rf.getLastLogIndexAndTerm
  decide (lastTerm < term) || (decide (term = lastTerm) && decide (lastIndex ≤ index))

def getSlicesIndexFromLogIndex (rf : Node n) (logIndex : ℕ) : Checked Failure ℕ := do
  require (rf.lastSnapshotIncludeIndex < logIndex) .sliceBelowSnapshot
  require (logIndex ≤ rf.getLastLogIndex) .sliceAboveLast
  return logIndex - rf.lastSnapshotIncludeIndex - 1

/-- `m_logs[i]`. -/
def logAt (rf : Node n) (i : ℕ) : Checked Failure LogEntry :=
  match rf.logs[i]? with
  | some log => .ok log
  | none => .error .outOfRange

/-- `m_logs[getSlicesIndexFromLogIndex(logIndex)]`. -/
def logFromLogIndex (rf : Node n) (logIndex : ℕ) : Checked Failure LogEntry := do
  rf.logAt (← rf.getSlicesIndexFromLogIndex logIndex)

def getLogTermFromLogIndex (rf : Node n) (logIndex : ℕ) : Checked Failure ℕ := do
  require (rf.lastSnapshotIncludeIndex ≤ logIndex) .logTermBelowSnapshot
  require (logIndex ≤ rf.getLastLogIndex) .logTermAboveLast
  if logIndex = rf.lastSnapshotIncludeIndex then
    return rf.lastSnapshotIncludeTerm
  else
    return (← rf.logFromLogIndex logIndex).logterm

def matchLog (rf : Node n) (logIndex logTerm : ℕ) : Checked Failure Bool := do
  require (rf.lastSnapshotIncludeIndex ≤ logIndex ∧ logIndex ≤ rf.getLastLogIndex) .matchLogRange
  return decide (logTerm = (← rf.getLogTermFromLogIndex logIndex))

def persistNode (rf : Node n) : BoostPersistRaftNode n where
  currentTerm := rf.currentTerm
  votedFor := rf.votedFor
  lastSnapshotIncludeIndex := rf.lastSnapshotIncludeIndex
  lastSnapshotIncludeTerm := rf.lastSnapshotIncludeTerm
  logs := rf.logs

section Persistence

variable [TextArchive (BoostPersistRaftNode n)]

def persistData (rf : Node n) : String :=
  TextArchive.save rf.persistNode

def persist (rf : Node n) : Node n :=
  { rf with persister := rf.persister.saveRaftState rf.persistData }

def readPersist (rf : Node n) (data : String) : Checked Failure (Node n) :=
  if data = "" then
    .ok rf
  else
    match (TextArchive.load data : Option (BoostPersistRaftNode n)) with
    | none => .error .archiveException
    | some stored =>
        .ok { rf with
          currentTerm := stored.currentTerm
          votedFor := stored.votedFor
          lastSnapshotIncludeIndex := stored.lastSnapshotIncludeIndex
          lastSnapshotIncludeTerm := stored.lastSnapshotIncludeTerm
          logs := stored.logs }

/-- The fields that `init` sets before it reads the persisted state. -/
def fresh (persister : Persister) : Node n where
  currentTerm := 0
  votedFor := none
  logs := []
  commitIndex := 0
  lastApplied := 0
  nextIndex := fun _ ↦ 0
  matchIndex := fun _ ↦ 0
  status := .follower
  lastSnapshotIncludeIndex := 0
  lastSnapshotIncludeTerm := 0
  persister := persister

def init (persister : Persister) : Checked Failure (Node n) := do
  let rf ← (fresh persister : Node n).readPersist persister.readRaftState
  if 0 < rf.lastSnapshotIncludeIndex then
    return { rf with lastApplied := rf.lastSnapshotIncludeIndex }
  else
    return rf

end Persistence

/-- The three changes on meeting a higher term. -/
def becomeFollower (rf : Node n) (term : ℕ) : Node n :=
  { rf with status := .follower, currentTerm := term, votedFor := none }

/-- The term check of a request that is not out of date. -/
def raiseTerm (rf : Node n) (term : ℕ) : Node n :=
  if rf.currentTerm < term then rf.becomeFollower term else rf

/-- The term check of `AppendEntries1`, where the sender leads the term. -/
def joinTerm (rf : Node n) (term : ℕ) : Node n :=
  { rf.raiseTerm term with status := .follower }

/-! ## Elections -/

section Elections

variable [TextArchive (BoostPersistRaftNode n)]

/-- The part of `doElection` under the lock: the new state and the request
that every other peer is sent, or nothing on a leader. -/
def doElection (me : Fin n) (rf : Node n) : Option (Node n × RequestVoteArgs n) :=
  if rf.status = .leader then
    none
  else
    let rf := { rf with
      status := .candidate
      currentTerm := rf.currentTerm + 1
      votedFor := some me }
    let rf := rf.persist
    let (lastLogIndex, lastLogTerm) := rf.getLastLogIndexAndTerm
    some (rf, {
      term := rf.currentTerm
      candidateid := me
      lastlogindex := lastLogIndex
      lastlogterm := lastLogTerm })

/-- The part of `RequestVote` behind the term check. -/
def requestVoteInTerm (rf : Node n) (args : RequestVoteArgs n) :
    Checked Failure (Node n × RequestVoteReply) := do
  require (args.term = rf.currentTerm) .requestVoteTerm
  let refused : RequestVoteReply := {
    term := rf.currentTerm
    votestate := .voted
    votegranted := false }
  if !rf.upToDate args.lastlogindex args.lastlogterm then
    return (rf.persist, refused)
  else if rf.votedFor ≠ none ∧ rf.votedFor ≠ some args.candidateid then
    return (rf.persist, refused)
  else
    let rf := { rf with votedFor := some args.candidateid }
    return (rf.persist, {
      term := rf.currentTerm
      votestate := .normal
      votegranted := true })

def requestVote (rf : Node n) (args : RequestVoteArgs n) :
    Checked Failure (Node n × RequestVoteReply) :=
  if args.term < rf.currentTerm then
    .ok (rf.persist, {
      term := rf.currentTerm
      votestate := .expire
      votegranted := false })
  else
    (rf.raiseTerm args.term).requestVoteInTerm args

/-- The part of `sendRequestVote` after the reply has arrived: the new state,
the shared counter, and whether `m_status = Leader` was executed. -/
def sendRequestVote (rf : Node n) (reply : RequestVoteReply) (votedNum : ℕ) :
    Checked Failure (Node n × ℕ × Bool) :=
  if rf.currentTerm < reply.term then
    .ok ((rf.becomeFollower reply.term).persist, votedNum, false)
  else if reply.term < rf.currentTerm then
    .ok (rf, votedNum, false)
  else do
    require (reply.term = rf.currentTerm) .voteReplyTerm
    if !reply.votegranted then
      return (rf, votedNum, false)
    else
      let votedNum := votedNum + 1
      if n / 2 + 1 ≤ votedNum then
        require (rf.status ≠ .leader) .twiceLeader
        let lastLogIndex := rf.getLastLogIndex
        let rf := { rf with
          status := .leader
          nextIndex := fun _ ↦ (lastLogIndex : ℤ) + 1
          matchIndex := fun _ ↦ 0 }
        return (rf.persist, 0, true)
      else
        return (rf, votedNum, false)

end Elections

/-! ## Log replication -/

/-- `Start`: nothing unless the node is the leader, else the appended entry. -/
def start [TextArchive (BoostPersistRaftNode n)] (rf : Node n) (command : String) :
    Option (Node n × LogEntry) :=
  if rf.status ≠ .leader then
    none
  else
    let newLogEntry : LogEntry := {
      command := command
      logterm := rf.currentTerm
      logindex := rf.getNewCommandIndex }
    some ({ rf with logs := rf.logs ++ [newLogEntry] }.persist, newLogEntry)

def getPrevLogInfo (rf : Node n) (server : Fin n) : Checked Failure (ℕ × ℕ) :=
  if rf.nextIndex server = (rf.lastSnapshotIncludeIndex : ℤ) + 1 then
    .ok (rf.lastSnapshotIncludeIndex, rf.lastSnapshotIncludeTerm)
  else do
    let preIndex := (rf.nextIndex server - 1).toNat
    return (preIndex, (← rf.logFromLogIndex preIndex).logterm)

/-- The entries that `doHeartBeat` sends behind `preLogIndex`. -/
def entriesBehind (rf : Node n) (preLogIndex : ℕ) : Checked Failure (List LogEntry) :=
  if preLogIndex ≠ rf.lastSnapshotIncludeIndex then do
    return rf.logs.drop ((← rf.getSlicesIndexFromLogIndex preLogIndex) + 1)
  else
    return rf.logs

/-- The request that `doHeartBeat` builds for one peer, or `none` where it
starts a `leaderSendSnapShot` thread in its place. -/
def heartBeatTo (me : Fin n) (rf : Node n) (server : Fin n) :
    Checked Failure (Option (AppendEntriesArgs n)) := do
  require (1 ≤ rf.nextIndex server) .nextIndexBelowOne
  if rf.nextIndex server ≤ rf.lastSnapshotIncludeIndex then
    return none
  else
    let (preLogIndex, prevLogTerm) ← rf.getPrevLogInfo server
    let entries ← rf.entriesBehind preLogIndex
    require (preLogIndex + entries.length = rf.getLastLogIndex) .heartBeatLength
    return some {
      term := rf.currentTerm
      leaderid := me
      prevlogindex := preLogIndex
      prevlogterm := prevLogTerm
      entries := entries
      leadercommit := rf.commitIndex }

/-- One turn of the entry loop of `AppendEntries1`.  A conflicting slot is
overwritten; nothing behind it is removed. -/
def appendEntry (rf : Node n) (log : LogEntry) : Checked Failure (Node n) :=
  if rf.getLastLogIndex < log.logindex then
    .ok { rf with logs := rf.logs ++ [log] }
  else do
    let slot ← rf.getSlicesIndexFromLogIndex log.logindex
    let old ← rf.logAt slot
    require (¬(old.logterm = log.logterm ∧ old.command ≠ log.command))
      .sameIndexAndTermOtherCommand
    if old.logterm ≠ log.logterm then
      return { rf with logs := rf.logs.set slot log }
    else
      return rf

/-- One turn of the search of `AppendEntries1` for the first index of the
conflicting term; `next` is the search from the index below. -/
def conflictTurn (rf : Node n) (prevTerm index : ℕ) (next : Checked Failure (Option ℕ)) :
    Checked Failure (Option ℕ) :=
  if index < rf.lastSnapshotIncludeIndex then
    .ok none
  else do
    let term ← rf.getLogTermFromLogIndex index
    if term ≠ prevTerm then return some (index + 1) else next

def conflictIndex (rf : Node n) (prevTerm : ℕ) : ℕ → Checked Failure (Option ℕ)
  | 0 => rf.conflictTurn prevTerm 0 (.ok none)
  | index + 1 => rf.conflictTurn prevTerm (index + 1) (rf.conflictIndex prevTerm index)

section AppendEntries

variable [TextArchive (BoostPersistRaftNode n)]

/-- The branch of `AppendEntries1` for a request that matches. -/
def appendMatched (rf : Node n) (args : AppendEntriesArgs n) (reply : AppendEntriesReply) :
    Checked Failure (Node n × AppendEntriesReply) := do
  let rf ← args.entries.foldlM appendEntry rf
  require (args.prevlogindex + args.entries.length ≤ rf.getLastLogIndex) .appendEntriesLength
  let rf :=
    if rf.commitIndex < args.leadercommit then
      { rf with commitIndex := min args.leadercommit rf.getLastLogIndex }
    else rf
  require (rf.commitIndex ≤ rf.getLastLogIndex) .appendEntriesCommit
  return (rf.persist, { reply with success := true, term := rf.currentTerm })

/-- The branch of `AppendEntries1` for a request that does not match. -/
def appendMismatched (rf : Node n) (args : AppendEntriesArgs n) (reply : AppendEntriesReply) :
    Checked Failure (Node n × AppendEntriesReply) := do
  let prevTerm ← rf.getLogTermFromLogIndex args.prevlogindex
  let found ← rf.conflictIndex prevTerm args.prevlogindex
  return (rf.persist, { reply with
    updatenextindex := (found.getD args.prevlogindex : ℕ)
    success := false
    term := rf.currentTerm })

/-- The part of `AppendEntries1` behind the term check.  The branch for a
request older than the snapshot fills the reply but does not return. -/
def appendEntriesInTerm (rf : Node n) (args : AppendEntriesArgs n) :
    Checked Failure (Node n × AppendEntriesReply) := do
  require (args.term = rf.currentTerm) .appendEntriesTerm
  if rf.getLastLogIndex < args.prevlogindex then
    return (rf.persist, {
      appstate := .appNormal
      success := false
      term := rf.currentTerm
      updatenextindex := (rf.getLastLogIndex : ℤ) + 1 })
  else
    let reply : AppendEntriesReply :=
      if args.prevlogindex < rf.lastSnapshotIncludeIndex then {
        appstate := .appNormal
        success := false
        term := rf.currentTerm
        updatenextindex := (rf.lastSnapshotIncludeIndex : ℤ) + 1 }
      else { appstate := .appNormal }
    if ← rf.matchLog args.prevlogindex args.prevlogterm then
      rf.appendMatched args reply
    else
      rf.appendMismatched args reply

def appendEntries1 (rf : Node n) (args : AppendEntriesArgs n) :
    Checked Failure (Node n × AppendEntriesReply) :=
  if args.term < rf.currentTerm then
    .ok (rf, {
      appstate := .appNormal
      success := false
      term := rf.currentTerm
      updatenextindex := -100 })
  else
    (rf.joinTerm args.term).appendEntriesInTerm args

end AppendEntries

/-- The part of `sendAppendEntries` after the reply has arrived: the new state
and the counter shared by the threads of one heartbeat. -/
def sendAppendEntries (rf : Node n) (server : Fin n) (args : AppendEntriesArgs n)
    (reply : AppendEntriesReply) (appendNums : ℕ) : Checked Failure (Node n × ℕ) :=
  if reply.appstate = .disconnected then
    .ok (rf, appendNums)
  else if rf.currentTerm < reply.term then
    .ok (rf.becomeFollower reply.term, appendNums)
  else if reply.term < rf.currentTerm then
    .ok (rf, appendNums)
  else if rf.status ≠ .leader then
    .ok (rf, appendNums)
  else do
    require (reply.term = rf.currentTerm) .appendReplyTerm
    if !reply.success then
      if reply.updatenextindex ≠ -100 then
        return ({ rf with
          nextIndex := Function.update rf.nextIndex server reply.updatenextindex }, appendNums)
      else
        return (rf, appendNums)
    else
      let appendNums := appendNums + 1
      let matched := max (rf.matchIndex server) (args.prevlogindex + args.entries.length)
      let rf := { rf with
        matchIndex := Function.update rf.matchIndex server matched
        nextIndex := Function.update rf.nextIndex server ((matched : ℤ) + 1) }
      let lastLogIndex : ℕ := rf.getLastLogIndex
      require (rf.nextIndex server ≤ (lastLogIndex : ℤ) + 1) .nextIndexAboveLast
      if 1 + n / 2 ≤ appendNums then
        let rf :=
          if args.entries.getLast?.map LogEntry.logterm = some rf.currentTerm then
            { rf with
              commitIndex := max rf.commitIndex (args.prevlogindex + args.entries.length) }
          else rf
        require (rf.commitIndex ≤ lastLogIndex) .leaderCommitAboveLast
        return (rf, 0)
      else
        return (rf, appendNums)

/-- The number of nodes that `leaderUpdateCommitIndex` counts for an index: the
node itself and the peers known to have it. -/
def replicas (me : Fin n) (rf : Node n) (index : ℕ) : ℕ :=
  (List.finRange n).foldl (fun sum i ↦
    if i = me then
      sum + 1
    else if index ≤ rf.matchIndex i then
      sum + 1
    else
      sum) 0

/-- The loop of `leaderUpdateCommitIndex` from the `k`-th index behind the
snapshot down to the first one. -/
def updateCommitLoop (me : Fin n) (rf : Node n) : ℕ → Checked Failure ℕ
  | 0 => return rf.lastSnapshotIncludeIndex
  | k + 1 => do
      let index := rf.lastSnapshotIncludeIndex + (k + 1)
      if n / 2 + 1 ≤ rf.replicas me index then
        let term ← rf.getLogTermFromLogIndex index
        if term = rf.currentTerm then
          return index
        else
          updateCommitLoop me rf k
      else
        updateCommitLoop me rf k

/-- `leaderUpdateCommitIndex`, which nothing calls. -/
def leaderUpdateCommitIndex (me : Fin n) (rf : Node n) : Checked Failure (Node n) := do
  let commitIndex ←
    rf.updateCommitLoop me (rf.getLastLogIndex - rf.lastSnapshotIncludeIndex)
  return { rf with commitIndex := commitIndex }

/-- `getApplyLogs`: the loop visits the indices after `lastApplied` up to
`commitIndex`. -/
def getApplyLogs (rf : Node n) : Checked Failure (Node n × List ApplyMsg) := do
  require (rf.commitIndex ≤ rf.getLastLogIndex) .applyCommitAboveLast
  let applyMsgs ←
    (List.range' (rf.lastApplied + 1) (rf.commitIndex - rf.lastApplied)).mapM fun index ↦ do
      let log ← rf.logFromLogIndex index
      require (log.logindex = index) .applyIndex
      return ({
        commandValid := true
        snapshotValid := false
        command := log.command
        commandIndex := index } : ApplyMsg)
  return ({ rf with lastApplied := max rf.lastApplied rf.commitIndex }, applyMsgs)

/-! ## Snapshots -/

def snapshot [TextArchive (BoostPersistRaftNode n)] (rf : Node n) (index : ℕ)
    (snapshot : String) : Checked Failure (Node n) :=
  if index ≤ rf.lastSnapshotIncludeIndex ∨ rf.commitIndex < index then
    .ok rf
  else do
    let lastLogIndex := rf.getLastLogIndex
    let newLastSnapshotIncludeTerm := (← rf.logFromLogIndex index).logterm
    let trunckedLogs ←
      (List.range' (index + 1) (lastLogIndex - index)).mapM fun i ↦ rf.logFromLogIndex i
    let rf := { rf with
      lastSnapshotIncludeIndex := index
      lastSnapshotIncludeTerm := newLastSnapshotIncludeTerm
      logs := trunckedLogs
      commitIndex := max rf.commitIndex index
      lastApplied := max rf.lastApplied index }
    let rf := { rf with persister := rf.persister.save rf.persistData snapshot }
    require (rf.logs.length + rf.lastSnapshotIncludeIndex = lastLogIndex) .snapshotLength
    return rf

/-- The first part of `leaderSendSnapShot`.  It runs in its own thread and
does not look at the status of the node. -/
def leaderSendSnapShot (me : Fin n) (rf : Node n) : Node n × InstallSnapshotRequest n :=
  let (data, persister) := rf.persister.readSnapshot
  ({ rf with persister := persister }, {
    leaderid := me
    term := rf.currentTerm
    lastsnapshotincludeindex := rf.lastSnapshotIncludeIndex
    lastsnapshotincludeterm := rf.lastSnapshotIncludeTerm
    data := data })

/-- The part of `leaderSendSnapShot` after the reply has arrived. -/
def leaderSendSnapShotReply [TextArchive (BoostPersistRaftNode n)] (rf : Node n) (server : Fin n)
    (args : InstallSnapshotRequest n) (reply : InstallSnapshotResponse) : Node n :=
  if rf.status ≠ .leader ∨ rf.currentTerm ≠ args.term then
    rf
  else if rf.currentTerm < reply.term then
    (rf.becomeFollower reply.term).persist
  else
    { rf with
      matchIndex := Function.update rf.matchIndex server args.lastsnapshotincludeindex
      nextIndex := Function.update rf.nextIndex server
        ((args.lastsnapshotincludeindex : ℤ) + 1) }

/-- The log that `InstallSnapshot` keeps: what stands behind the index of the
snapshot, without a look at the term that stands at it. -/
def logsBehind (rf : Node n) (index : ℕ) : Checked Failure (List LogEntry) :=
  if index < rf.getLastLogIndex then do
    return rf.logs.drop ((← rf.getSlicesIndexFromLogIndex index) + 1)
  else
    return []

section InstallSnapshot

variable [TextArchive (BoostPersistRaftNode n)]

/-- The term check of `InstallSnapshot`: a raised term is persisted here. -/
def joinSnapshotTerm (rf : Node n) (term : ℕ) : Node n :=
  { (if rf.currentTerm < term then (rf.becomeFollower term).persist else rf) with
    status := .follower }

/-- The part of `InstallSnapshot` behind the term check. -/
def installSnapshotInTerm (rf : Node n) (args : InstallSnapshotRequest n) :
    Checked Failure (Node n × InstallSnapshotResponse × Option ApplyMsg) :=
  if args.lastsnapshotincludeindex ≤ rf.lastSnapshotIncludeIndex then
    .ok (rf, {}, none)
  else do
    let logs ← rf.logsBehind args.lastsnapshotincludeindex
    let rf := { rf with
      logs := logs
      commitIndex := max rf.commitIndex args.lastsnapshotincludeindex
      lastApplied := max rf.lastApplied args.lastsnapshotincludeindex
      lastSnapshotIncludeIndex := args.lastsnapshotincludeindex
      lastSnapshotIncludeTerm := args.lastsnapshotincludeterm }
    let msg : ApplyMsg := {
      snapshotValid := true
      snapshot := args.data
      snapshotTerm := args.lastsnapshotincludeterm
      snapshotIndex := args.lastsnapshotincludeindex }
    let rf := { rf with persister := rf.persister.save rf.persistData args.data }
    return (rf, { term := rf.currentTerm }, some msg)

/-- `InstallSnapshot`: the new state, the reply, and the message that a
detached thread pushes to the apply channel. -/
def installSnapshot (rf : Node n) (args : InstallSnapshotRequest n) :
    Checked Failure (Node n × InstallSnapshotResponse × Option ApplyMsg) :=
  if args.term < rf.currentTerm then
    .ok (rf, { term := rf.currentTerm }, none)
  else
    (rf.joinSnapshotTerm args.term).installSnapshotInTerm args

end InstallSnapshot

end Node

end HttpRaftKv.Raft
