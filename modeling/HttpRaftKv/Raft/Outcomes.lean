import HttpRaftKv.Raft.Log

/-!
# What each function can do

For every function that runs under the mutex, the list of its successful
outcomes with the conditions under which they happen.  The outcomes say
everything about the node except the state of its persister, which is left
open.  Later proofs split on outcomes and do not unfold the functions.
-/

namespace HttpRaftKv.Raft.Node

open Checked Storage

variable {n : ℕ}

section raiseTerm

variable (rf : Node n) (term : ℕ)

@[simp] theorem raiseTerm_logs : (rf.raiseTerm term).logs = rf.logs := by
  unfold raiseTerm; split <;> rfl

@[simp] theorem raiseTerm_commitIndex : (rf.raiseTerm term).commitIndex = rf.commitIndex := by
  unfold raiseTerm; split <;> rfl

@[simp] theorem raiseTerm_lastApplied : (rf.raiseTerm term).lastApplied = rf.lastApplied := by
  unfold raiseTerm; split <;> rfl

@[simp] theorem raiseTerm_nextIndex : (rf.raiseTerm term).nextIndex = rf.nextIndex := by
  unfold raiseTerm; split <;> rfl

@[simp] theorem raiseTerm_lastSnapshotIncludeIndex :
    (rf.raiseTerm term).lastSnapshotIncludeIndex = rf.lastSnapshotIncludeIndex := by
  unfold raiseTerm; split <;> rfl

@[simp] theorem raiseTerm_lastSnapshotIncludeTerm :
    (rf.raiseTerm term).lastSnapshotIncludeTerm = rf.lastSnapshotIncludeTerm := by
  unfold raiseTerm; split <;> rfl

@[simp] theorem raiseTerm_getLastLogIndexAndTerm :
    (rf.raiseTerm term).getLastLogIndexAndTerm = rf.getLastLogIndexAndTerm := by
  simp [getLastLogIndexAndTerm]

@[simp] theorem raiseTerm_upToDate (index last : ℕ) :
    (rf.raiseTerm term).upToDate index last = rf.upToDate index last := by
  simp [upToDate]

theorem raiseTerm_currentTerm : (rf.raiseTerm term).currentTerm = max rf.currentTerm term := by
  unfold raiseTerm
  split
  · simp only [becomeFollower]
    omega
  · omega

theorem raiseTerm_votedFor :
    (rf.raiseTerm term).votedFor = if rf.currentTerm < term then none else rf.votedFor := by
  unfold raiseTerm; split <;> rfl

theorem raiseTerm_status :
    (rf.raiseTerm term).status = if rf.currentTerm < term then .follower else rf.status := by
  unfold raiseTerm; split <;> rfl

end raiseTerm

section outcomes

variable [TextArchive (BoostPersistRaftNode n)] {rf : Node n}

/-! ## Elections -/

theorem doElection_eq_some {me : Fin n} {rf' : Node n} {args : RequestVoteArgs n}
    (h : rf.doElection me = some (rf', args)) :
    rf.status ≠ .leader ∧
      (∃ ps, rf' = { rf with
        status := .candidate
        currentTerm := rf.currentTerm + 1
        votedFor := some me
        persister := ps }) ∧
      args = ⟨rf.currentTerm + 1, me, rf.getLastLogIndex, rf.getLastLogTerm⟩ := by
  unfold doElection at h
  split_ifs at h with hleader
  obtain ⟨hrf, hargs⟩ := Prod.mk.inj (Option.some.inj h)
  exact ⟨hleader, ⟨_, hrf.symm⟩, hargs.symm⟩

inductive RequestVoteOutcome (rf : Node n) (args : RequestVoteArgs n) :
    Node n → RequestVoteReply → Prop
  | expire (ps : Persister) (hterm : args.term < rf.currentTerm) :
      RequestVoteOutcome rf args { rf with persister := ps } ⟨rf.currentTerm, false, .expire⟩
  | refused (ps : Persister) (hterm : rf.currentTerm ≤ args.term) :
      RequestVoteOutcome rf args { rf.raiseTerm args.term with persister := ps }
        ⟨args.term, false, .voted⟩
  | granted (ps : Persister) (hterm : rf.currentTerm ≤ args.term)
      (hlog : rf.upToDate args.lastlogindex args.lastlogterm = true)
      (hfree : (rf.raiseTerm args.term).votedFor = none ∨
        (rf.raiseTerm args.term).votedFor = some args.candidateid) :
      RequestVoteOutcome rf args
        { rf.raiseTerm args.term with votedFor := some args.candidateid, persister := ps }
        ⟨args.term, true, .normal⟩

theorem requestVote_outcome {args : RequestVoteArgs n} {rf' : Node n} {reply : RequestVoteReply}
    (h : rf.requestVote args = .ok (rf', reply)) : RequestVoteOutcome rf args rf' reply := by
  unfold requestVote at h
  by_cases hlt : args.term < rf.currentTerm
  · rw [if_pos hlt] at h
    obtain ⟨rfl, rfl⟩ := Prod.mk.inj (Except.ok.inj h)
    exact .expire _ hlt
  · have hle : rf.currentTerm ≤ args.term := Nat.le_of_not_lt hlt
    rw [if_neg hlt, requestVoteInTerm] at h
    obtain ⟨_, hterm, h⟩ := bind_eq_ok.mp h
    have hterm := require_eq_ok.mp hterm
    have hreply : ∀ granted state,
        RequestVoteReply.mk (rf.raiseTerm args.term).currentTerm granted state =
          ⟨args.term, granted, state⟩ := by
      intro granted state
      rw [← hterm]
    dsimp only at h
    split_ifs at h with hup hvoted
    · cases pure_eq_ok.mp h
      rw [hreply]
      exact .refused _ hle
    · cases pure_eq_ok.mp h
      rw [hreply]
      exact .refused _ hle
    · cases pure_eq_ok.mp h
      rw [hreply]
      exact .granted _ hle (by simpa using hup) (by tauto)

inductive SendRequestVoteOutcome (rf : Node n) (reply : RequestVoteReply) (votedNum : ℕ) :
    Node n → ℕ → Bool → Prop
  | higher (ps : Persister) (hterm : rf.currentTerm < reply.term) :
      SendRequestVoteOutcome rf reply votedNum
        { rf.becomeFollower reply.term with persister := ps } votedNum false
  | ignored : SendRequestVoteOutcome rf reply votedNum rf votedNum false
  | counted (hterm : reply.term = rf.currentTerm) (hgranted : reply.votegranted = true)
      (hfew : votedNum + 1 < n / 2 + 1) :
      SendRequestVoteOutcome rf reply votedNum rf (votedNum + 1) false
  | won (ps : Persister) (hterm : reply.term = rf.currentTerm)
      (hgranted : reply.votegranted = true) (hmany : n / 2 + 1 ≤ votedNum + 1)
      (hstatus : rf.status ≠ .leader) :
      SendRequestVoteOutcome rf reply votedNum
        { rf with
          status := .leader
          nextIndex := fun _ ↦ (rf.getLastLogIndex : ℤ) + 1
          matchIndex := fun _ ↦ 0
          persister := ps } 0 true

theorem sendRequestVote_outcome {reply : RequestVoteReply} {votedNum votedNum' : ℕ}
    {rf' : Node n} {elected : Bool}
    (h : rf.sendRequestVote reply votedNum = .ok (rf', votedNum', elected)) :
    SendRequestVoteOutcome rf reply votedNum rf' votedNum' elected := by
  unfold sendRequestVote at h
  by_cases hhigh : rf.currentTerm < reply.term
  · rw [if_pos hhigh] at h
    cases Except.ok.inj h
    exact .higher _ hhigh
  · by_cases hlow : reply.term < rf.currentTerm
    · rw [if_neg hhigh, if_pos hlow] at h
      cases Except.ok.inj h
      exact .ignored
    · rw [if_neg hhigh, if_neg hlow] at h
      obtain ⟨_, hterm, h⟩ := bind_eq_ok.mp h
      have hterm := require_eq_ok.mp hterm
      dsimp only at h
      split_ifs at h with hgranted hmany
      · cases pure_eq_ok.mp h
        exact .ignored
      · obtain ⟨_, hstatus, h⟩ := bind_eq_ok.mp h
        cases pure_eq_ok.mp h
        exact .won _ hterm (by simpa using hgranted) hmany (require_eq_ok.mp hstatus)
      · cases pure_eq_ok.mp h
        exact .counted hterm (by simpa using hgranted) (by omega)

/-! ## Log replication -/

theorem start_eq_some {command : String} {rf' : Node n} {log : LogEntry}
    (h : rf.start command = some (rf', log)) :
    rf.status = .leader ∧ log = ⟨command, rf.currentTerm, rf.getLastLogIndex + 1⟩ ∧
      ∃ ps, rf' = { rf with logs := rf.logs ++ [log], persister := ps } := by
  unfold start at h
  split_ifs at h with hleader
  obtain ⟨hrf, hlog⟩ := Prod.mk.inj (Option.some.inj h)
  exact ⟨by simpa using hleader, hlog.symm, _, by rw [← hrf, ← hlog]; rfl⟩

omit [TextArchive (BoostPersistRaftNode n)] in
/-- A request built by `doHeartBeat` carries the log behind `prevlogindex`. -/
theorem Indexed.heartBeatTo_eq_some (hindexed : rf.Indexed) {me server : Fin n}
    {args : AppendEntriesArgs n} (h : rf.heartBeatTo me server = .ok (some args)) :
    args.term = rf.currentTerm ∧ args.leaderid = me ∧ args.leadercommit = rf.commitIndex ∧
      rf.termAt args.prevlogindex = some args.prevlogterm ∧
      args.entries = rf.logs.drop (args.prevlogindex - rf.lastSnapshotIncludeIndex) ∧
      args.prevlogindex + args.entries.length = rf.getLastLogIndex := by
  unfold heartBeatTo at h
  obtain ⟨_, hone, h⟩ := bind_eq_ok.mp h
  have hone := require_eq_ok.mp hone
  split_ifs at h with hsnap
  · simp at h
  obtain ⟨⟨prev, prevTerm⟩, hprev, h⟩ := bind_eq_ok.mp h
  dsimp only at h
  obtain ⟨entries, hentries, h⟩ := bind_eq_ok.mp h
  obtain ⟨_, hlength, h⟩ := bind_eq_ok.mp h
  have hlength := require_eq_ok.mp hlength
  cases pure_eq_ok.mp h
  have hterm : rf.termAt prev = some prevTerm := by
    unfold getPrevLogInfo at hprev
    split_ifs at hprev with hfirst
    · cases Except.ok.inj hprev
      simp [termAt]
    · obtain ⟨log, hlog, hprev⟩ := bind_eq_ok.mp hprev
      cases pure_eq_ok.mp hprev
      have hentry := hindexed.logFromLogIndex_eq_ok.mp hlog
      have hlt := (hindexed.entryAt_isSome.mp ⟨log, hentry⟩).1
      rw [termAt, if_neg hlt.ne', hentry]
      rfl
  have hsuffix : entries = rf.logs.drop (prev - rf.lastSnapshotIncludeIndex) := by
    unfold entriesBehind at hentries
    split_ifs at hentries with heq
    · obtain ⟨slot, hslot, hentries⟩ := bind_eq_ok.mp hentries
      obtain ⟨hlt, -, rfl⟩ := getSlicesIndexFromLogIndex_eq_ok.mp hslot
      rw [← pure_eq_ok.mp hentries]
      congr 1
      omega
    · have heq : prev = rf.lastSnapshotIncludeIndex := by simpa using heq
      rw [← pure_eq_ok.mp hentries, heq]
      simp
  exact ⟨rfl, rfl, rfl, hterm, hsuffix, hlength⟩

/-- The commit index of a follower that has taken a request over. -/
def followerCommit (rf : Node n) (args : AppendEntriesArgs n) : ℕ :=
  if rf.commitIndex < args.leadercommit then
    min args.leadercommit
      (max rf.getLastLogIndex (args.prevlogindex + args.entries.length))
  else rf.commitIndex

inductive AppendEntriesOutcome (rf : Node n) (args : AppendEntriesArgs n) :
    Node n → AppendEntriesReply → Prop
  | stale (hterm : args.term < rf.currentTerm) :
      AppendEntriesOutcome rf args rf ⟨rf.currentTerm, false, -100, .appNormal⟩
  | short (ps : Persister) (hterm : rf.currentTerm ≤ args.term)
      (hlast : rf.getLastLogIndex < args.prevlogindex) :
      AppendEntriesOutcome rf args { rf.joinTerm args.term with persister := ps }
        ⟨args.term, false, (rf.getLastLogIndex : ℤ) + 1, .appNormal⟩
  | matched (ps : Persister) (hterm : rf.currentTerm ≤ args.term)
      (hprev : rf.termAt args.prevlogindex = some args.prevlogterm)
      (hcommand : ∀ k old log,
        rf.logs[args.prevlogindex - rf.lastSnapshotIncludeIndex + k]? = some old →
        args.entries[k]? = some log → old.logterm = log.logterm → old.command = log.command) :
      AppendEntriesOutcome rf args
        { rf.joinTerm args.term with
          logs := Node.splice rf.logs (args.prevlogindex - rf.lastSnapshotIncludeIndex) args.entries
          commitIndex := rf.followerCommit args
          persister := ps }
        ⟨args.term, true, 0, .appNormal⟩
  | mismatched (ps : Persister) (hterm : rf.currentTerm ≤ args.term) (found hint : ℕ)
      (hprev : rf.termAt args.prevlogindex = some found) (hne : args.prevlogterm ≠ found)
      (hle : hint ≤ args.prevlogindex) (hone : 1 ≤ args.prevlogindex → 1 ≤ hint) :
      AppendEntriesOutcome rf args { rf.joinTerm args.term with persister := ps }
        ⟨args.term, false, hint, .appNormal⟩

section joinTerm

variable (rf : Node n) (term : ℕ)

omit [TextArchive (BoostPersistRaftNode n)] in
@[simp] theorem joinTerm_entryAt (index : ℕ) :
    (rf.joinTerm term).entryAt index = rf.entryAt index := by
  simp [entryAt, joinTerm]

omit [TextArchive (BoostPersistRaftNode n)] in
@[simp] theorem joinTerm_termAt (index : ℕ) :
    (rf.joinTerm term).termAt index = rf.termAt index := by
  simp [termAt]
  simp [joinTerm]

omit [TextArchive (BoostPersistRaftNode n)] in
@[simp] theorem joinTerm_getLastLogIndex :
    (rf.joinTerm term).getLastLogIndex = rf.getLastLogIndex := by
  simp [getLastLogIndex, getLastLogIndexAndTerm, joinTerm]

omit [TextArchive (BoostPersistRaftNode n)] in
theorem Indexed.joinTerm {rf : Node n} (h : rf.Indexed) (term : ℕ) :
    (rf.joinTerm term).Indexed := by
  simpa [Indexed, Node.joinTerm] using h

end joinTerm

theorem Indexed.appendMatched_outcome (hindexed : rf.Indexed) {args : AppendEntriesArgs n}
    {reply reply' : AppendEntriesReply} {rf' : Node n}
    (hcons : Consecutive args.prevlogindex args.entries)
    (hprev : rf.termAt args.prevlogindex = some args.prevlogterm)
    (h : rf.appendMatched args reply = .ok (rf', reply')) :
    (∀ k old log, rf.logs[args.prevlogindex - rf.lastSnapshotIncludeIndex + k]? = some old →
        args.entries[k]? = some log → old.logterm = log.logterm → old.command = log.command) ∧
      (∃ ps, rf' = { rf with
        logs := Node.splice rf.logs (args.prevlogindex - rf.lastSnapshotIncludeIndex) args.entries
        commitIndex := rf.followerCommit args
        persister := ps }) ∧
      reply' = { reply with success := true, term := rf.currentTerm } := by
  have hlast := hindexed.getLastLogIndex_eq
  obtain ⟨hge, hle⟩ := hindexed.termAt_isSome.mp ⟨_, hprev⟩
  have hat : args.prevlogindex - rf.lastSnapshotIncludeIndex ≤ rf.logs.length := by omega
  have hsum : rf.lastSnapshotIncludeIndex + (args.prevlogindex - rf.lastSnapshotIncludeIndex) =
      args.prevlogindex := by omega
  rw [← hsum] at hcons
  unfold appendMatched at h
  obtain ⟨spliced, hfold, h⟩ := bind_eq_ok.mp h
  obtain ⟨hcommand, rfl⟩ := (hindexed.foldlM_appendEntry hat hcons).mp hfold
  have hlast' := (hindexed.splice hat hcons).getLastLogIndex_eq
  have hlen := length_splice rf.logs _ args.entries hat
  simp only at hlast'
  obtain ⟨_, _, h⟩ := bind_eq_ok.mp h
  dsimp only at h
  obtain ⟨_, _, h⟩ := bind_eq_ok.mp h
  have hcommit : min args.leadercommit (rf.lastSnapshotIncludeIndex +
      (Node.splice rf.logs (args.prevlogindex - rf.lastSnapshotIncludeIndex) args.entries).length) =
        min args.leadercommit
          (max rf.getLastLogIndex (args.prevlogindex + args.entries.length)) := by
    rw [hlen]
    omega
  rw [hlast', hcommit] at h
  cases pure_eq_ok.mp h
  refine ⟨hcommand, ?_, ?_⟩
  · unfold followerCommit
    split_ifs <;> exact ⟨_, rfl⟩
  · split_ifs <;> rfl

theorem Indexed.appendMismatched_outcome (hindexed : rf.Indexed) {args : AppendEntriesArgs n}
    {reply reply' : AppendEntriesReply} {rf' : Node n}
    (h : rf.appendMismatched args reply = .ok (rf', reply')) :
    (∃ ps, rf' = { rf with persister := ps }) ∧ ∃ hint : ℕ,
      reply' = { reply with updatenextindex := hint, success := false, term := rf.currentTerm } ∧
        hint ≤ args.prevlogindex ∧ (1 ≤ args.prevlogindex → 1 ≤ hint) := by
  unfold appendMismatched at h
  obtain ⟨prevTerm, hterm, h⟩ := bind_eq_ok.mp h
  obtain ⟨conflict, hconflict, h⟩ := bind_eq_ok.mp h
  cases pure_eq_ok.mp h
  have hterm := hindexed.getLogTermFromLogIndex_eq_ok.mp hterm
  have hbound := hindexed.conflictIndex_le hterm hconflict
  refine ⟨⟨_, rfl⟩, conflict.getD args.prevlogindex, rfl, ?_⟩
  cases conflict with
  | none => exact ⟨le_rfl, id⟩
  | some i =>
      have := hbound i rfl
      exact ⟨this.2, fun _ ↦ this.1⟩

theorem Indexed.appendEntries1_outcome (hindexed : rf.Indexed) {args : AppendEntriesArgs n}
    {rf' : Node n} {reply : AppendEntriesReply}
    (hcons : Consecutive args.prevlogindex args.entries)
    (h : rf.appendEntries1 args = .ok (rf', reply)) : AppendEntriesOutcome rf args rf' reply := by
  unfold appendEntries1 at h
  by_cases hlt : args.term < rf.currentTerm
  · rw [if_pos hlt] at h
    cases Except.ok.inj h
    exact .stale hlt
  have hle : rf.currentTerm ≤ args.term := Nat.le_of_not_lt hlt
  have hjoined := hindexed.joinTerm args.term
  rw [if_neg hlt, appendEntriesInTerm] at h
  obtain ⟨_, hterm, h⟩ := bind_eq_ok.mp h
  have hterm : (rf.joinTerm args.term).currentTerm = args.term := (require_eq_ok.mp hterm).symm
  rw [joinTerm_getLastLogIndex] at h
  by_cases hshort : rf.getLastLogIndex < args.prevlogindex
  · rw [if_pos hshort] at h
    cases pure_eq_ok.mp h
    simp only [hterm]
    exact .short _ hle hshort
  rw [if_neg hshort] at h
  dsimp only at h
  obtain ⟨matches_, hmatch, h⟩ := bind_eq_ok.mp h
  obtain ⟨found, hfound, hdecide⟩ := hjoined.matchLog_eq_ok.mp hmatch
  have hge := (hjoined.termAt_isSome.mp ⟨found, hfound⟩).1
  rw [if_neg (Nat.not_lt.mpr hge)] at h
  rw [joinTerm_termAt] at hfound
  cases matches_ with
  | true =>
      have heq : args.prevlogterm = found := by simpa using hdecide
      subst heq
      rw [if_pos rfl] at h
      obtain ⟨hcommand, ⟨ps, rfl⟩, rfl⟩ :=
        hjoined.appendMatched_outcome hcons (by rwa [joinTerm_termAt]) h
      have hcommit : (rf.joinTerm args.term).followerCommit args = rf.followerCommit args := by
        simp [followerCommit, joinTerm_getLastLogIndex]
        simp [Node.joinTerm]
      simp only [hterm, hcommit]
      have hlogs : (rf.joinTerm args.term).logs = rf.logs := by simp [Node.joinTerm]
      have hsnap : (rf.joinTerm args.term).lastSnapshotIncludeIndex =
          rf.lastSnapshotIncludeIndex := by simp [Node.joinTerm]
      simp only [hlogs, hsnap] at hcommand ⊢
      have hgoal := AppendEntriesOutcome.matched ps hle hfound hcommand
      simpa only [hterm, hsnap] using hgoal
  | false =>
      have hne : args.prevlogterm ≠ found := by simpa using hdecide
      rw [if_neg (by simp)] at h
      obtain ⟨⟨ps, rfl⟩, hint, rfl, hbound, hone⟩ :=
        hjoined.appendMismatched_outcome h
      simp only [hterm]
      have hgoal := AppendEntriesOutcome.mismatched ps hle found hint hfound hne hbound hone
      simpa only [hterm] using hgoal

/-- The node after a success reply has been entered into the two indices. -/
def replyMatched (rf : Node n) (server : Fin n) (args : AppendEntriesArgs n) : Node n :=
  let matched := max (rf.matchIndex server) (args.prevlogindex + args.entries.length)
  { rf with
    matchIndex := Function.update rf.matchIndex server matched
    nextIndex := Function.update rf.nextIndex server ((matched : ℤ) + 1) }

inductive SendAppendEntriesOutcome (rf : Node n) (server : Fin n) (args : AppendEntriesArgs n)
    (reply : AppendEntriesReply) (appendNums : ℕ) : Node n → ℕ → Prop
  | ignored : SendAppendEntriesOutcome rf server args reply appendNums rf appendNums
  | higher (hterm : rf.currentTerm < reply.term) :
      SendAppendEntriesOutcome rf server args reply appendNums
        (rf.becomeFollower reply.term) appendNums
  | rejected (hterm : reply.term = rf.currentTerm) (hstatus : rf.status = .leader)
      (hsuccess : reply.success = false) (hhint : reply.updatenextindex ≠ -100) :
      SendAppendEntriesOutcome rf server args reply appendNums
        { rf with nextIndex := Function.update rf.nextIndex server reply.updatenextindex }
        appendNums
  | counted (hterm : reply.term = rf.currentTerm) (hstatus : rf.status = .leader)
      (hsuccess : reply.success = true) (hfew : appendNums + 1 < 1 + n / 2) :
      SendAppendEntriesOutcome rf server args reply appendNums
        (rf.replyMatched server args) (appendNums + 1)
  | majority (hterm : reply.term = rf.currentTerm) (hstatus : rf.status = .leader)
      (hsuccess : reply.success = true) (hmany : 1 + n / 2 ≤ appendNums + 1)
      (hlast : args.entries.getLast?.map LogEntry.logterm ≠ some rf.currentTerm) :
      SendAppendEntriesOutcome rf server args reply appendNums (rf.replyMatched server args) 0
  | committed (hterm : reply.term = rf.currentTerm) (hstatus : rf.status = .leader)
      (hsuccess : reply.success = true) (hmany : 1 + n / 2 ≤ appendNums + 1)
      (hlast : args.entries.getLast?.map LogEntry.logterm = some rf.currentTerm)
      (hcommit : max rf.commitIndex (args.prevlogindex + args.entries.length) ≤
        rf.getLastLogIndex) :
      SendAppendEntriesOutcome rf server args reply appendNums
        { rf.replyMatched server args with
          commitIndex := max rf.commitIndex (args.prevlogindex + args.entries.length) } 0

omit [TextArchive (BoostPersistRaftNode n)] in
theorem sendAppendEntries_outcome {server : Fin n} {args : AppendEntriesArgs n}
    {reply : AppendEntriesReply} {appendNums appendNums' : ℕ} {rf' : Node n}
    (h : rf.sendAppendEntries server args reply appendNums = .ok (rf', appendNums')) :
    SendAppendEntriesOutcome rf server args reply appendNums rf' appendNums' := by
  unfold sendAppendEntries at h
  by_cases hdisconnected : reply.appstate = .disconnected
  · rw [if_pos hdisconnected] at h
    cases Except.ok.inj h
    exact .ignored
  rw [if_neg hdisconnected] at h
  by_cases hhigh : rf.currentTerm < reply.term
  · rw [if_pos hhigh] at h
    cases Except.ok.inj h
    exact .higher hhigh
  rw [if_neg hhigh] at h
  by_cases hlow : reply.term < rf.currentTerm
  · rw [if_pos hlow] at h
    cases Except.ok.inj h
    exact .ignored
  rw [if_neg hlow] at h
  by_cases hstatus : rf.status ≠ .leader
  · rw [if_pos hstatus] at h
    cases Except.ok.inj h
    exact .ignored
  have hleader : rf.status = .leader := by simpa using hstatus
  rw [if_neg hstatus] at h
  obtain ⟨_, hterm, h⟩ := bind_eq_ok.mp h
  have hterm := require_eq_ok.mp hterm
  dsimp only at h
  split_ifs at h with hsuccess hhint hmany hlast
  · cases pure_eq_ok.mp h
    exact .rejected hterm hleader (by simpa using hsuccess) hhint
  · cases pure_eq_ok.mp h
    exact .ignored
  · obtain ⟨_, -, h⟩ := bind_eq_ok.mp h
    obtain ⟨_, hcommit, h⟩ := bind_eq_ok.mp h
    cases pure_eq_ok.mp h
    exact .committed hterm hleader (by simpa using hsuccess) hmany hlast
      (require_eq_ok.mp hcommit)
  · obtain ⟨_, -, h⟩ := bind_eq_ok.mp h
    obtain ⟨_, -, h⟩ := bind_eq_ok.mp h
    cases pure_eq_ok.mp h
    exact .majority hterm hleader (by simpa using hsuccess) hmany hlast
  · obtain ⟨_, -, h⟩ := bind_eq_ok.mp h
    cases pure_eq_ok.mp h
    exact .counted hterm hleader (by simpa using hsuccess) (by omega)

omit [TextArchive (BoostPersistRaftNode n)] in
/-- What is handed out is read from the log, index by index. -/
theorem Indexed.getApplyLogs_eq_ok (hindexed : rf.Indexed) {rf' : Node n} {msgs : List ApplyMsg}
    (h : rf.getApplyLogs = .ok (rf', msgs)) :
    rf.commitIndex ≤ rf.getLastLogIndex ∧
      rf' = { rf with lastApplied := max rf.lastApplied rf.commitIndex } ∧
      List.Forall₂ (fun index msg ↦ ∃ log, rf.entryAt index = some log ∧
          msg = { commandValid := true, command := log.command, commandIndex := (index : ℕ) })
        (List.range' (rf.lastApplied + 1) (rf.commitIndex - rf.lastApplied)) msgs := by
  unfold getApplyLogs at h
  obtain ⟨_, hcommit, h⟩ := bind_eq_ok.mp h
  obtain ⟨msgs', hmsgs, h⟩ := bind_eq_ok.mp h
  cases pure_eq_ok.mp h
  refine ⟨require_eq_ok.mp hcommit, rfl, ?_⟩
  refine (mapM_eq_ok.mp hmsgs).imp fun index msg hmsg ↦ ?_
  obtain ⟨log, hlog, hmsg⟩ := bind_eq_ok.mp hmsg
  obtain ⟨_, -, hmsg⟩ := bind_eq_ok.mp hmsg
  exact ⟨log, hindexed.logFromLogIndex_eq_ok.mp hlog, (pure_eq_ok.mp hmsg).symm⟩

/-! ## Snapshots -/

omit [TextArchive (BoostPersistRaftNode n)] in
/-- Reading the log index by index behind a stored one gives a suffix. -/
theorem Indexed.mapM_logFromLogIndex (hindexed : rf.Indexed) {index : ℕ} {logs : List LogEntry}
    (hle : rf.lastSnapshotIncludeIndex ≤ index)
    (h : (List.range' (index + 1) (rf.getLastLogIndex - index)).mapM rf.logFromLogIndex =
      .ok logs) :
    logs = rf.logs.drop (index - rf.lastSnapshotIncludeIndex) := by
  have hforall := mapM_eq_ok.mp h
  have hlast := hindexed.getLastLogIndex_eq
  have hlen : rf.getLastLogIndex - index = logs.length := by
    simpa using hforall.length_eq
  refine List.ext_getElem? fun k ↦ ?_
  rw [List.getElem?_drop]
  by_cases hk : k < logs.length
  · have hentry := List.forall₂_iff_get.mp hforall |>.2 k (by simpa [hlen] using hk) hk
    have hentry := hindexed.logFromLogIndex_eq_ok.mp hentry
    obtain ⟨-, hget⟩ := entryAt_eq_some.mp hentry
    simp only [List.get_eq_getElem, List.getElem_range'] at hget
    rw [List.getElem?_eq_getElem hk, ← hget]
    congr 1
    omega
  · rw [List.getElem?_eq_none (by omega), List.getElem?_eq_none (by omega)]

theorem Indexed.snapshot_eq_ok (hindexed : rf.Indexed) {index : ℕ} {data : String} {rf' : Node n}
    (h : rf.snapshot index data = .ok rf') :
    rf' = rf ∨
      rf.lastSnapshotIncludeIndex < index ∧ index ≤ rf.commitIndex ∧
        ∃ log ps, rf.entryAt index = some log ∧
          rf' = { rf with
            lastSnapshotIncludeIndex := index
            lastSnapshotIncludeTerm := log.logterm
            logs := rf.logs.drop (index - rf.lastSnapshotIncludeIndex)
            lastApplied := max rf.lastApplied index
            persister := ps } := by
  unfold snapshot at h
  split_ifs at h with hrange
  · exact .inl (Except.ok.inj h).symm
  obtain ⟨log, hlog, h⟩ := bind_eq_ok.mp h
  obtain ⟨logs, hlogs, h⟩ := bind_eq_ok.mp h
  dsimp only at h
  obtain ⟨_, -, h⟩ := bind_eq_ok.mp h
  have hrf := pure_eq_ok.mp h
  have hsuffix := hindexed.mapM_logFromLogIndex (by omega) hlogs
  have hcommit : max rf.commitIndex index = rf.commitIndex := by omega
  rw [hcommit, hsuffix] at hrf
  exact .inr ⟨by omega, by omega, log, _, hindexed.logFromLogIndex_eq_ok.mp hlog, hrf.symm⟩

inductive LeaderSendSnapShotReplyOutcome (rf : Node n) (server : Fin n)
    (args : InstallSnapshotRequest n) (reply : InstallSnapshotResponse) : Node n → Prop
  | ignored : LeaderSendSnapShotReplyOutcome rf server args reply rf
  | higher (ps : Persister) (hterm : rf.currentTerm < reply.term) :
      LeaderSendSnapShotReplyOutcome rf server args reply
        { rf.becomeFollower reply.term with persister := ps }
  | matched (hstatus : rf.status = .leader) (hterm : rf.currentTerm = args.term)
      (hreply : reply.term ≤ rf.currentTerm) :
      LeaderSendSnapShotReplyOutcome rf server args reply
        { rf with
          matchIndex := Function.update rf.matchIndex server args.lastsnapshotincludeindex
          nextIndex := Function.update rf.nextIndex server
            ((args.lastsnapshotincludeindex : ℤ) + 1) }

theorem leaderSendSnapShotReply_outcome {server : Fin n} {args : InstallSnapshotRequest n}
    {reply : InstallSnapshotResponse} :
    LeaderSendSnapShotReplyOutcome rf server args reply
      (rf.leaderSendSnapShotReply server args reply) := by
  unfold leaderSendSnapShotReply
  split_ifs with hother hhigh
  · exact .ignored
  · exact .higher _ hhigh
  · exact .matched (by tauto) (by tauto) (Nat.le_of_not_lt hhigh)

inductive InstallSnapshotOutcome (rf : Node n) (args : InstallSnapshotRequest n) :
    Node n → InstallSnapshotResponse → Prop
  | stale (hterm : args.term < rf.currentTerm) :
      InstallSnapshotOutcome rf args rf ⟨rf.currentTerm⟩
  | outdated (ps : Persister) (hterm : rf.currentTerm ≤ args.term)
      (hindex : args.lastsnapshotincludeindex ≤ rf.lastSnapshotIncludeIndex) :
      InstallSnapshotOutcome rf args { rf.joinTerm args.term with persister := ps } ⟨0⟩
  | installed (ps : Persister) (hterm : rf.currentTerm ≤ args.term)
      (hindex : rf.lastSnapshotIncludeIndex < args.lastsnapshotincludeindex) :
      InstallSnapshotOutcome rf args
        { rf.joinTerm args.term with
          logs := rf.logs.drop (args.lastsnapshotincludeindex - rf.lastSnapshotIncludeIndex)
          commitIndex := max rf.commitIndex args.lastsnapshotincludeindex
          lastApplied := max rf.lastApplied args.lastsnapshotincludeindex
          lastSnapshotIncludeIndex := args.lastsnapshotincludeindex
          lastSnapshotIncludeTerm := args.lastsnapshotincludeterm
          persister := ps }
        ⟨args.term⟩

omit [TextArchive (BoostPersistRaftNode n)] in
theorem Indexed.logsBehind_eq_ok (hindexed : rf.Indexed) {index : ℕ} {logs : List LogEntry}
    (hlt : rf.lastSnapshotIncludeIndex < index) (h : rf.logsBehind index = .ok logs) :
    logs = rf.logs.drop (index - rf.lastSnapshotIncludeIndex) := by
  have hlast := hindexed.getLastLogIndex_eq
  unfold logsBehind at h
  split_ifs at h with hbelow
  · obtain ⟨slot, hslot, h⟩ := bind_eq_ok.mp h
    obtain ⟨-, -, rfl⟩ := getSlicesIndexFromLogIndex_eq_ok.mp hslot
    rw [← pure_eq_ok.mp h]
    congr 1
    omega
  · rw [← pure_eq_ok.mp h, List.drop_eq_nil_of_le (by omega)]

/-- Up to the persister, the term check is the one of `AppendEntries1`. -/
theorem joinSnapshotTerm_eq (rf : Node n) (term : ℕ) :
    ∃ ps, rf.joinSnapshotTerm term = { rf.joinTerm term with persister := ps } := by
  unfold joinSnapshotTerm joinTerm raiseTerm
  split_ifs <;> exact ⟨_, rfl⟩

theorem Indexed.installSnapshot_outcome (hindexed : rf.Indexed) {args : InstallSnapshotRequest n}
    {rf' : Node n} {reply : InstallSnapshotResponse} {msg : Option ApplyMsg}
    (h : rf.installSnapshot args = .ok (rf', reply, msg)) :
    InstallSnapshotOutcome rf args rf' reply := by
  unfold installSnapshot at h
  by_cases hlt : args.term < rf.currentTerm
  · rw [if_pos hlt] at h
    cases Except.ok.inj h
    exact .stale hlt
  have hle : rf.currentTerm ≤ args.term := Nat.le_of_not_lt hlt
  obtain ⟨ps, hraised⟩ := rf.joinSnapshotTerm_eq args.term
  have hjoined : Indexed { rf.joinTerm args.term with persister := ps } :=
    hindexed.joinTerm args.term
  rw [if_neg hlt, hraised, installSnapshotInTerm] at h
  have hsnap : (rf.joinTerm args.term).lastSnapshotIncludeIndex = rf.lastSnapshotIncludeIndex := by
    simp [Node.joinTerm]
  by_cases hindex : args.lastsnapshotincludeindex ≤ rf.lastSnapshotIncludeIndex
  · rw [if_pos (by simpa only [hsnap] using hindex)] at h
    cases Except.ok.inj h
    exact .outdated ps hle hindex
  · rw [if_neg (by simpa only [hsnap] using hindex)] at h
    obtain ⟨logs, hbehind, h⟩ := bind_eq_ok.mp h
    have hsuffix := hjoined.logsBehind_eq_ok (by simp only [hsnap]; omega) hbehind
    cases pure_eq_ok.mp h
    have hlogs : (rf.joinTerm args.term).logs = rf.logs := by simp [Node.joinTerm]
    have hcommit : (rf.joinTerm args.term).commitIndex = rf.commitIndex := by
      simp [Node.joinTerm]
    have happlied : (rf.joinTerm args.term).lastApplied = rf.lastApplied := by
      simp [Node.joinTerm]
    have hterm : (rf.joinTerm args.term).currentTerm = args.term := by
      simp only [Node.joinTerm, raiseTerm_currentTerm]
      omega
    simp only [hsuffix, hsnap, hlogs, hcommit, happlied, hterm]
    generalize ps.save _ _ = saved
    have hgoal := InstallSnapshotOutcome.installed saved hle (Nat.lt_of_not_le hindex)
    simpa only [hterm] using hgoal

end outcomes

end HttpRaftKv.Raft.Node
