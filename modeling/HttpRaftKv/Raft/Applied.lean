import HttpRaftKv.Raft.Outcomes

/-!
# What moves `lastApplied`

The parts of a node that run under its mutex, seen from inside one process: what
other nodes send is free.  Only `getApplyLogs`, `InstallSnapshot` and `Snapshot` change
`lastApplied`, and the messages they hand out are numbered by it.
-/

namespace HttpRaftKv.Raft

/-- A part of a thread that hands nothing to the service. -/
inductive NodeStep (n : ℕ)
  | doElection
  | requestVote (args : RequestVoteArgs n)
  | sendRequestVote (reply : RequestVoteReply) (votedNum : ℕ)
  | start (command : String)
  | doHeartBeat
  | appendEntries1 (args : AppendEntriesArgs n)
  | sendAppendEntries (server : Fin n) (args : AppendEntriesArgs n) (reply : AppendEntriesReply)
      (appendNums : ℕ)
  | leaderSendSnapShot
  | leaderSendSnapShotReply (server : Fin n) (args : InstallSnapshotRequest n)
      (reply : InstallSnapshotResponse)

namespace Node

open Checked

variable {n : ℕ} [TextArchive (BoostPersistRaftNode n)]

/-- The node after a step.  The request of a heartbeat may fail an assertion. -/
def next (me : Fin n) (rf : Node n) : NodeStep n → Checked Failure (Node n)
  | .doElection =>
      match rf.doElection me with
      | some (rf, _) => .ok rf
      | none => .ok rf
  | .requestVote args => do
      let (rf, _) ← rf.requestVote args
      return rf
  | .sendRequestVote reply votedNum => do
      let (rf, _, _) ← rf.sendRequestVote reply votedNum
      return rf
  | .start command =>
      match rf.start command with
      | some (rf, _) => .ok rf
      | none => .ok rf
  | .doHeartBeat =>
      if rf.status = .leader then do
        let _ ← forFin fun p ↦ if p = me then .ok none else rf.heartBeatTo me p
        return rf
      else
        return rf
  | .appendEntries1 args => do
      let (rf, _) ← rf.appendEntries1 args
      return rf
  | .sendAppendEntries server args reply appendNums => do
      let (rf, _) ← rf.sendAppendEntries server args reply appendNums
      return rf
  | .leaderSendSnapShot => .ok (rf.leaderSendSnapShot me).1
  | .leaderSendSnapShotReply server args reply =>
      .ok (rf.leaderSendSnapShotReply server args reply)

variable {rf rf' : Node n}

omit [TextArchive (BoostPersistRaftNode n)] in
theorem lastApplied_appendEntry {log : LogEntry} (h : rf.appendEntry log = .ok rf') :
    rf'.lastApplied = rf.lastApplied := by
  unfold appendEntry at h
  split_ifs at h with hlast
  · cases h
    rfl
  · obtain ⟨slot, -, h⟩ := bind_eq_ok.mp h
    obtain ⟨old, -, h⟩ := bind_eq_ok.mp h
    obtain ⟨_, -, h⟩ := bind_eq_ok.mp h
    split_ifs at h with hterm
    · cases pure_eq_ok.mp h
      rfl
    · cases pure_eq_ok.mp h
      rfl

omit [TextArchive (BoostPersistRaftNode n)] in
theorem lastApplied_foldlM_appendEntry {entries : List LogEntry}
    (h : entries.foldlM appendEntry rf = .ok rf') : rf'.lastApplied = rf.lastApplied := by
  induction entries generalizing rf with
  | nil =>
      cases pure_eq_ok.mp h
      rfl
  | cons log entries ih =>
      rw [List.foldlM_cons] at h
      obtain ⟨rf₁, hlog, hentries⟩ := bind_eq_ok.mp h
      rw [ih hentries, lastApplied_appendEntry hlog]

theorem lastApplied_appendMatched {args : AppendEntriesArgs n} {reply reply' : AppendEntriesReply}
    (h : rf.appendMatched args reply = .ok (rf', reply')) : rf'.lastApplied = rf.lastApplied := by
  unfold appendMatched at h
  obtain ⟨rf₁, hentries, h⟩ := bind_eq_ok.mp h
  obtain ⟨_, -, h⟩ := bind_eq_ok.mp h
  obtain ⟨_, -, h⟩ := bind_eq_ok.mp h
  cases pure_eq_ok.mp h
  rw [← lastApplied_foldlM_appendEntry hentries]
  simp only [persist]
  split_ifs <;> rfl

theorem lastApplied_appendMismatched {args : AppendEntriesArgs n}
    {reply reply' : AppendEntriesReply} (h : rf.appendMismatched args reply = .ok (rf', reply')) :
    rf'.lastApplied = rf.lastApplied := by
  unfold appendMismatched at h
  obtain ⟨_, -, h⟩ := bind_eq_ok.mp h
  obtain ⟨_, -, h⟩ := bind_eq_ok.mp h
  cases pure_eq_ok.mp h
  rfl

theorem lastApplied_appendEntriesInTerm {args : AppendEntriesArgs n} {reply : AppendEntriesReply}
    (h : rf.appendEntriesInTerm args = .ok (rf', reply)) : rf'.lastApplied = rf.lastApplied := by
  unfold appendEntriesInTerm at h
  obtain ⟨_, -, h⟩ := bind_eq_ok.mp h
  by_cases hlast : rf.getLastLogIndex < args.prevlogindex
  · rw [if_pos hlast] at h
    cases pure_eq_ok.mp h
    rfl
  · rw [if_neg hlast] at h
    obtain ⟨found, -, h⟩ := bind_eq_ok.mp h
    cases found with
    | true => exact lastApplied_appendMatched h
    | false => exact lastApplied_appendMismatched h

theorem lastApplied_appendEntries1 {args : AppendEntriesArgs n} {reply : AppendEntriesReply}
    (h : rf.appendEntries1 args = .ok (rf', reply)) : rf'.lastApplied = rf.lastApplied := by
  unfold appendEntries1 at h
  split_ifs at h with hterm
  · cases h
    rfl
  · rw [lastApplied_appendEntriesInTerm h]
    simp [joinTerm]

theorem lastApplied_next {me : Fin n} {a : NodeStep n} (h : rf.next me a = .ok rf') :
    rf'.lastApplied = rf.lastApplied := by
  cases a with
  | doElection =>
      simp only [next] at h
      split at h
      · rename_i hsome
        cases h
        obtain ⟨-, ⟨ps, rfl⟩, -⟩ := doElection_eq_some hsome
        rfl
      · cases h
        rfl
  | requestVote args =>
      obtain ⟨⟨rf₁, reply⟩, hvote, h⟩ := bind_eq_ok.mp h
      cases pure_eq_ok.mp h
      cases requestVote_outcome hvote with
      | expire => rfl
      | refused => simp
      | granted => simp
  | sendRequestVote reply votedNum =>
      obtain ⟨⟨rf₁, votedNum', elected⟩, hvote, h⟩ := bind_eq_ok.mp h
      cases pure_eq_ok.mp h
      cases sendRequestVote_outcome hvote <;> rfl
  | start command =>
      simp only [next] at h
      split at h
      · rename_i hsome
        cases h
        obtain ⟨-, -, ps, rfl⟩ := start_eq_some hsome
        rfl
      · cases h
        rfl
  | doHeartBeat =>
      simp only [next] at h
      split_ifs at h
      · obtain ⟨_, -, h⟩ := bind_eq_ok.mp h
        cases pure_eq_ok.mp h
        rfl
      · cases pure_eq_ok.mp h
        rfl
  | appendEntries1 args =>
      obtain ⟨⟨rf₁, reply⟩, happend, h⟩ := bind_eq_ok.mp h
      cases pure_eq_ok.mp h
      exact lastApplied_appendEntries1 happend
  | sendAppendEntries server args reply appendNums =>
      obtain ⟨⟨rf₁, appendNums'⟩, happend, h⟩ := bind_eq_ok.mp h
      cases pure_eq_ok.mp h
      cases sendAppendEntries_outcome happend <;> rfl
  | leaderSendSnapShot =>
      cases h
      rfl
  | leaderSendSnapShotReply server args reply =>
      cases h
      have houtcome : LeaderSendSnapShotReplyOutcome rf server args reply
          (rf.leaderSendSnapShotReply server args reply) := leaderSendSnapShotReply_outcome
      revert houtcome
      generalize rf.leaderSendSnapShotReply server args reply = rf₁
      intro houtcome
      cases houtcome <;> rfl

omit [TextArchive (BoostPersistRaftNode n)] in
/-- The commands are those behind `lastApplied`, one after another. -/
theorem getApplyLogs_spec {msgs : List ApplyMsg} (h : rf.getApplyLogs = .ok (rf', msgs)) :
    rf'.lastApplied = max rf.lastApplied rf.commitIndex ∧
      List.Forall₂ (fun index msg ↦ ∃ command, msg =
          { commandValid := true, command := command, commandIndex := (index : ℕ) })
        (List.range' (rf.lastApplied + 1) (rf.commitIndex - rf.lastApplied)) msgs := by
  unfold getApplyLogs at h
  obtain ⟨_, -, h⟩ := bind_eq_ok.mp h
  obtain ⟨msgs', hmsgs, h⟩ := bind_eq_ok.mp h
  cases pure_eq_ok.mp h
  refine ⟨rfl, (mapM_eq_ok.mp hmsgs).imp fun index msg hmsg ↦ ?_⟩
  obtain ⟨log, -, hmsg⟩ := bind_eq_ok.mp hmsg
  obtain ⟨_, -, hmsg⟩ := bind_eq_ok.mp hmsg
  exact ⟨log.command, (pure_eq_ok.mp hmsg).symm⟩

/-- A snapshot that is handed out is counted as applied. -/
theorem installSnapshot_spec {args : InstallSnapshotRequest n} {reply : InstallSnapshotResponse}
    {msg : Option ApplyMsg} (h : rf.installSnapshot args = .ok (rf', reply, msg)) :
    msg = none ∧ rf'.lastApplied = rf.lastApplied ∨
      rf'.lastApplied = max rf.lastApplied args.lastsnapshotincludeindex ∧
        msg = some {
          snapshotValid := true
          snapshot := args.data
          snapshotTerm := args.lastsnapshotincludeterm
          snapshotIndex := args.lastsnapshotincludeindex } := by
  obtain ⟨ps, hjoin⟩ := rf.joinSnapshotTerm_eq args.term
  have happlied : (rf.joinSnapshotTerm args.term).lastApplied = rf.lastApplied := by
    simp [hjoin, joinTerm]
  unfold installSnapshot at h
  split_ifs at h with hterm
  · cases h
    exact .inl ⟨rfl, rfl⟩
  · unfold installSnapshotInTerm at h
    split_ifs at h with hindex
    · cases h
      exact .inl ⟨rfl, happlied⟩
    · obtain ⟨logs, -, h⟩ := bind_eq_ok.mp h
      cases pure_eq_ok.mp h
      exact .inr ⟨by rw [← happlied], rfl⟩

theorem lastApplied_snapshot {index : ℕ} {data : String} (h : rf.snapshot index data = .ok rf') :
    rf'.lastApplied = rf.lastApplied ∨ rf'.lastApplied = max rf.lastApplied index := by
  unfold snapshot at h
  split_ifs at h with hrange
  · cases h
    exact .inl rfl
  · obtain ⟨log, -, h⟩ := bind_eq_ok.mp h
    obtain ⟨logs, -, h⟩ := bind_eq_ok.mp h
    obtain ⟨_, -, h⟩ := bind_eq_ok.mp h
    cases pure_eq_ok.mp h
    exact .inr rfl

end Node

end HttpRaftKv.Raft
