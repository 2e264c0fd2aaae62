import HttpRaftKv.Raft.Outcomes

/-!
# What every function keeps

A node is sound if its indices are in order.  Whatever a function does to a
sound node, the node stays sound, its term and its last index do not decrease,
a vote is not changed within a term, and a node that leads afterwards has lost
nothing of its log except to its snapshot.
-/

namespace HttpRaftKv.Raft.Node

open Storage

variable {n : ℕ}

structure Sound (rf : Node n) : Prop where
  indexed : rf.Indexed
  snap_le : rf.lastSnapshotIncludeIndex ≤ rf.lastApplied
  applied_le : rf.lastApplied ≤ rf.commitIndex
  commit_le : rf.commitIndex ≤ rf.getLastLogIndex

structure Evolves (rf rf' : Node n) : Prop where
  sound : rf'.Sound
  last_le : rf.getLastLogIndex ≤ rf'.getLastLogIndex
  base_le : rf.lastSnapshotIncludeIndex ≤ rf'.lastSnapshotIncludeIndex
  term_le : rf.currentTerm ≤ rf'.currentTerm
  votedFor : rf'.currentTerm = rf.currentTerm → rf.votedFor = none ∨ rf'.votedFor = rf.votedFor
  kept : rf'.status = .leader → ∀ log ∈ rf.logs, rf'.lastSnapshotIncludeIndex < log.logindex →
    log ∈ rf'.logs

variable {rf rf' : Node n}

theorem getLastLogIndex_congr (hlogs : rf'.logs = rf.logs)
    (hsnap : rf'.lastSnapshotIncludeIndex = rf.lastSnapshotIncludeIndex) :
    rf'.getLastLogIndex = rf.getLastLogIndex := by
  unfold getLastLogIndex getLastLogIndexAndTerm
  rw [hlogs, hsnap]
  cases rf.logs.getLast? <;> rfl

theorem Indexed.congr (h : rf.Indexed) (hlogs : rf'.logs = rf.logs)
    (hsnap : rf'.lastSnapshotIncludeIndex = rf.lastSnapshotIncludeIndex) : rf'.Indexed := by
  unfold Indexed
  rw [hlogs, hsnap]
  exact h

/-- A function that touches neither the log nor the commit index. -/
theorem Sound.evolves_of_same (h : rf.Sound) (hlogs : rf'.logs = rf.logs)
    (hsnap : rf'.lastSnapshotIncludeIndex = rf.lastSnapshotIncludeIndex)
    (hcommit : rf'.commitIndex = rf.commitIndex) (happlied : rf'.lastApplied = rf.lastApplied)
    (hterm : rf.currentTerm ≤ rf'.currentTerm)
    (hvoted : rf'.currentTerm = rf.currentTerm →
      rf.votedFor = none ∨ rf'.votedFor = rf.votedFor) : rf.Evolves rf' where
  sound := by
    refine ⟨h.indexed.congr hlogs hsnap, ?_, ?_, ?_⟩
    · rw [hsnap, happlied]
      exact h.snap_le
    · rw [happlied, hcommit]
      exact h.applied_le
    · rw [hcommit, getLastLogIndex_congr hlogs hsnap]
      exact h.commit_le
  last_le := (getLastLogIndex_congr hlogs hsnap).ge
  base_le := hsnap.ge
  term_le := hterm
  votedFor := hvoted
  kept := fun _ log hlog _ ↦ by rwa [hlogs]

theorem Sound.evolves_refl (h : rf.Sound) : rf.Evolves rf :=
  h.evolves_of_same rfl rfl rfl rfl le_rfl fun _ ↦ .inr rfl

theorem raiseTerm_votedFor_of_eq {term : ℕ}
    (h : (rf.raiseTerm term).currentTerm = rf.currentTerm) :
    (rf.raiseTerm term).votedFor = rf.votedFor := by
  rw [raiseTerm_currentTerm] at h
  rw [raiseTerm_votedFor, if_neg (by omega)]

theorem Sound.evolves_becomeFollower (h : rf.Sound) {term : ℕ} (hterm : rf.currentTerm < term)
    (ps : Persister) : rf.Evolves { rf.becomeFollower term with persister := ps } :=
  h.evolves_of_same rfl rfl rfl rfl hterm.le fun heq ↦ absurd heq hterm.ne'

theorem Sound.evolves_joinTerm (h : rf.Sound) (term : ℕ) (ps : Persister) :
    rf.Evolves { rf.joinTerm term with persister := ps } := by
  refine h.evolves_of_same ?_ ?_ ?_ ?_ ?_ ?_
  · simp [joinTerm]
  · simp [joinTerm]
  · simp [joinTerm]
  · simp [joinTerm]
  · simp [joinTerm, raiseTerm_currentTerm]
  · exact fun heq ↦ .inr (raiseTerm_votedFor_of_eq heq)

theorem RequestVoteOutcome.evolves {args : RequestVoteArgs n} {reply : RequestVoteReply}
    (hout : RequestVoteOutcome rf args rf' reply) (h : rf.Sound) : rf.Evolves rf' := by
  cases hout with
  | expire => exact h.evolves_of_same rfl rfl rfl rfl le_rfl fun _ ↦ .inr rfl
  | refused ps hterm =>
      refine h.evolves_of_same (by simp) (by simp) (by simp) (by simp) ?_ ?_
      · simp [raiseTerm_currentTerm]
      · exact fun heq ↦ .inr (raiseTerm_votedFor_of_eq heq)
  | granted ps hterm hlog hfree =>
      refine h.evolves_of_same (by simp) (by simp) (by simp) (by simp) ?_ ?_
      · simp [raiseTerm_currentTerm]
      · intro heq
        rw [← raiseTerm_votedFor_of_eq heq]
        exact hfree.imp_right Eq.symm

theorem SendRequestVoteOutcome.evolves {reply : RequestVoteReply} {votedNum votedNum' : ℕ}
    {elected : Bool} (hout : SendRequestVoteOutcome rf reply votedNum rf' votedNum' elected)
    (h : rf.Sound) : rf.Evolves rf' := by
  cases hout with
  | higher ps hterm => exact h.evolves_becomeFollower hterm ps
  | ignored => exact h.evolves_refl
  | counted => exact h.evolves_refl
  | won => exact h.evolves_of_same rfl rfl rfl rfl le_rfl fun _ ↦ .inr rfl

theorem Indexed.snoc (h : rf.Indexed) {log : LogEntry} {ps : Persister}
    (hlog : log.logindex = rf.getLastLogIndex + 1) :
    Indexed { rf with logs := rf.logs ++ [log], persister := ps } := by
  have hlast := h.getLastLogIndex_eq
  intro k other hk
  dsimp only at hk ⊢
  rcases lt_trichotomy k rf.logs.length with hlt | rfl | hgt
  · rw [List.getElem?_append_left hlt] at hk
    exact h k other hk
  · have heq : log = other := by simpa using hk
    rw [← heq, hlog, hlast]
    omega
  · rw [List.getElem?_eq_none (by simp; omega)] at hk
    cases hk

theorem Sound.evolves_start (h : rf.Sound) {log : LogEntry} {ps : Persister}
    (hlog : log.logindex = rf.getLastLogIndex + 1) :
    rf.Evolves { rf with logs := rf.logs ++ [log], persister := ps } := by
  have hindexed : Indexed { rf with logs := rf.logs ++ [log], persister := ps } :=
    h.indexed.snoc hlog
  have hlast : rf.getLastLogIndex ≤
      getLastLogIndex { rf with logs := rf.logs ++ [log], persister := ps } := by
    rw [h.indexed.getLastLogIndex_eq, hindexed.getLastLogIndex_eq]
    simp
  exact {
    sound := ⟨hindexed, h.snap_le, h.applied_le, h.commit_le.trans hlast⟩
    last_le := hlast
    base_le := le_rfl
    term_le := le_rfl
    votedFor := fun _ ↦ .inr rfl
    kept := fun _ other hother _ ↦ List.mem_append_left _ hother }

theorem AppendEntriesOutcome.evolves {args : AppendEntriesArgs n} {reply : AppendEntriesReply}
    (hout : AppendEntriesOutcome rf args rf' reply) (h : rf.Sound)
    (hcons : Consecutive args.prevlogindex args.entries) : rf.Evolves rf' := by
  cases hout with
  | stale => exact h.evolves_refl
  | short ps => exact h.evolves_joinTerm args.term ps
  | mismatched ps => exact h.evolves_joinTerm args.term ps
  | matched ps hterm hprev hcommand =>
      have hjoin := h.evolves_joinTerm args.term ps
      obtain ⟨hge, hle⟩ := h.indexed.termAt_isSome.mp ⟨_, hprev⟩
      have hlast := h.indexed.getLastLogIndex_eq
      have hat : args.prevlogindex - rf.lastSnapshotIncludeIndex ≤ rf.logs.length := by omega
      have hsum : rf.lastSnapshotIncludeIndex +
          (args.prevlogindex - rf.lastSnapshotIncludeIndex) = args.prevlogindex := by omega
      have hspliced := h.indexed.splice hat (hsum.symm ▸ hcons)
      have hlen := length_splice rf.logs _ args.entries hat
      have hindexed : Indexed { rf.joinTerm args.term with
          logs := Node.splice rf.logs (args.prevlogindex - rf.lastSnapshotIncludeIndex)
            args.entries
          commitIndex := rf.followerCommit args
          persister := ps } := hspliced.congr rfl (by simp [joinTerm])
      have hlast' := hindexed.getLastLogIndex_eq
      dsimp only at hlast'
      have hsnap : (rf.joinTerm args.term).lastSnapshotIncludeIndex =
          rf.lastSnapshotIncludeIndex := by simp [joinTerm]
      have happlied : (rf.joinTerm args.term).lastApplied = rf.lastApplied := by simp [joinTerm]
      have hcommit : rf.commitIndex ≤ rf.followerCommit args ∧
          rf.followerCommit args ≤
            max rf.getLastLogIndex (args.prevlogindex + args.entries.length) := by
        have := h.commit_le
        unfold followerCommit
        split_ifs <;> omega
      have happly := h.applied_le
      refine ⟨⟨hindexed, ?_, ?_, ?_⟩, ?_, hjoin.base_le, hjoin.term_le, hjoin.votedFor, ?_⟩
      · simp only [hsnap, happlied]
        exact h.snap_le
      · simp only [happlied]
        omega
      · rw [hlast', hlen]
        dsimp only
        omega
      · rw [hlast', hlen]
        omega
      · intro hleader
        simp [joinTerm] at hleader

theorem SendAppendEntriesOutcome.evolves {server : Fin n} {args : AppendEntriesArgs n}
    {reply : AppendEntriesReply} {appendNums appendNums' : ℕ}
    (hout : SendAppendEntriesOutcome rf server args reply appendNums rf' appendNums')
    (h : rf.Sound) : rf.Evolves rf' := by
  cases hout with
  | ignored => exact h.evolves_refl
  | higher hterm => exact h.evolves_becomeFollower hterm rf.persister
  | rejected => exact h.evolves_of_same rfl rfl rfl rfl le_rfl fun _ ↦ .inr rfl
  | counted => exact h.evolves_of_same rfl rfl rfl rfl le_rfl fun _ ↦ .inr rfl
  | majority => exact h.evolves_of_same rfl rfl rfl rfl le_rfl fun _ ↦ .inr rfl
  | committed hterm hstatus hsuccess hmany hlast hcommit =>
      refine ⟨⟨h.indexed, h.snap_le, ?_, hcommit⟩, le_rfl, le_rfl, le_rfl, fun _ ↦ .inr rfl, ?_⟩
      · exact h.applied_le.trans (le_max_left _ _)
      · exact fun _ _ hlog _ ↦ hlog

/-! ## Compaction -/

theorem Indexed.compact (h : rf.Indexed) {index : ℕ}
    (hlt : rf.lastSnapshotIncludeIndex < index)
    (hlogs : rf'.logs = rf.logs.drop (index - rf.lastSnapshotIncludeIndex))
    (hsnap : rf'.lastSnapshotIncludeIndex = index) : rf'.Indexed := by
  intro k log hk
  rw [hlogs, List.getElem?_drop] at hk
  have := h _ _ hk
  omega

/-- The last index behind a snapshot of an index. -/
theorem Indexed.compact_last (h : rf.Indexed) {index : ℕ}
    (hlt : rf.lastSnapshotIncludeIndex < index)
    (hlogs : rf'.logs = rf.logs.drop (index - rf.lastSnapshotIncludeIndex))
    (hsnap : rf'.lastSnapshotIncludeIndex = index) :
    rf'.getLastLogIndex = max rf.getLastLogIndex index := by
  rw [(h.compact hlt hlogs hsnap).getLastLogIndex_eq, h.getLastLogIndex_eq, hlogs, hsnap]
  simp only [List.length_drop]
  omega

theorem Indexed.mem_drop (h : rf.Indexed) {index : ℕ} {log : LogEntry} (hlog : log ∈ rf.logs)
    (hlt : index < log.logindex) :
    log ∈ rf.logs.drop (index - rf.lastSnapshotIncludeIndex) := by
  obtain ⟨k, hk⟩ := List.mem_iff_getElem?.mp hlog
  have := h k log hk
  refine List.mem_iff_getElem?.mpr ⟨k - (index - rf.lastSnapshotIncludeIndex), ?_⟩
  rw [List.getElem?_drop, ← hk]
  congr 1
  omega

theorem Sound.evolves_snapshot (h : rf.Sound) {index term : ℕ} {ps : Persister}
    (hlt : rf.lastSnapshotIncludeIndex < index) (hle : index ≤ rf.commitIndex) :
    rf.Evolves { rf with
      lastSnapshotIncludeIndex := index
      lastSnapshotIncludeTerm := term
      logs := rf.logs.drop (index - rf.lastSnapshotIncludeIndex)
      lastApplied := max rf.lastApplied index
      persister := ps } := by
  have hlast : getLastLogIndex { rf with
      lastSnapshotIncludeIndex := index
      lastSnapshotIncludeTerm := term
      logs := rf.logs.drop (index - rf.lastSnapshotIncludeIndex)
      lastApplied := max rf.lastApplied index
      persister := ps } = _ := h.indexed.compact_last hlt rfl rfl
  have happlied := h.applied_le
  have hcommit := h.commit_le
  refine ⟨⟨h.indexed.compact hlt rfl rfl, ?_, ?_, ?_⟩, ?_, hlt.le, le_rfl, fun _ ↦ .inr rfl, ?_⟩
  · exact le_max_right _ _
  · dsimp only
    omega
  · rw [hlast]
    dsimp only
    omega
  · rw [hlast]
    omega
  · exact fun _ log hlog hindex ↦ h.indexed.mem_drop hlog hindex

theorem Sound.evolves_getApplyLogs (h : rf.Sound) :
    rf.Evolves { rf with lastApplied := max rf.lastApplied rf.commitIndex } := by
  have happlied := h.applied_le
  refine ⟨⟨h.indexed, ?_, ?_, h.commit_le⟩, le_rfl, le_rfl, le_rfl, fun _ ↦ .inr rfl, ?_⟩
  · exact h.snap_le.trans (le_max_left _ _)
  · dsimp only
    omega
  · exact fun _ _ hlog _ ↦ hlog

theorem LeaderSendSnapShotReplyOutcome.evolves {server : Fin n}
    {args : InstallSnapshotRequest n} {reply : InstallSnapshotResponse}
    (hout : LeaderSendSnapShotReplyOutcome rf server args reply rf') (h : rf.Sound) :
    rf.Evolves rf' := by
  cases hout with
  | ignored => exact h.evolves_refl
  | higher ps hterm => exact h.evolves_becomeFollower hterm ps
  | matched => exact h.evolves_of_same rfl rfl rfl rfl le_rfl fun _ ↦ .inr rfl

theorem InstallSnapshotOutcome.evolves {args : InstallSnapshotRequest n}
    {reply : InstallSnapshotResponse} (hout : InstallSnapshotOutcome rf args rf' reply)
    (h : rf.Sound) : rf.Evolves rf' := by
  cases hout with
  | stale => exact h.evolves_refl
  | outdated ps => exact h.evolves_joinTerm args.term ps
  | installed ps hterm hindex =>
      have hjoin := h.evolves_joinTerm args.term ps
      have hlast : getLastLogIndex { rf.joinTerm args.term with
          logs := rf.logs.drop (args.lastsnapshotincludeindex - rf.lastSnapshotIncludeIndex)
          commitIndex := max rf.commitIndex args.lastsnapshotincludeindex
          lastApplied := max rf.lastApplied args.lastsnapshotincludeindex
          lastSnapshotIncludeIndex := args.lastsnapshotincludeindex
          lastSnapshotIncludeTerm := args.lastsnapshotincludeterm
          persister := ps } = _ := h.indexed.compact_last hindex rfl rfl
      have happlied := h.applied_le
      have hcommit := h.commit_le
      refine ⟨⟨h.indexed.compact hindex rfl rfl, ?_, ?_, ?_⟩, ?_, hindex.le, hjoin.term_le,
        hjoin.votedFor, ?_⟩
      · exact le_max_right _ _
      · dsimp only
        omega
      · rw [hlast]
        dsimp only
        omega
      · rw [hlast]
        omega
      · intro hleader
        simp [joinTerm] at hleader

end HttpRaftKv.Raft.Node
