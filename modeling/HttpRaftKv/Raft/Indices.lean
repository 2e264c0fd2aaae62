import HttpRaftKv.Raft.Commit

/-!
# The index invariant

In every reachable cluster the stored entries of a node carry consecutive
indices from its snapshot on, the snapshot, the applied, the committed and the
last index stand in this order, and no term and no commit index decreases.  A
request in flight carries consecutive entries, and what its sender has committed
lies inside the log that the request describes.
-/

namespace HttpRaftKv.Raft

namespace Node

variable {n : ℕ} {rf rf' : Node n}

theorem commitIndex_le_followerCommit (h : rf.Sound) (args : AppendEntriesArgs n) :
    rf.commitIndex ≤ rf.followerCommit args := by
  have hcommit := h.commit_le
  unfold followerCommit
  split_ifs <;> omega

theorem RequestVoteOutcome.commitIndex_eq {args : RequestVoteArgs n} {reply : RequestVoteReply}
    (hout : RequestVoteOutcome rf args rf' reply) : rf'.commitIndex = rf.commitIndex := by
  cases hout with
  | expire => rfl
  | refused => exact raiseTerm_commitIndex rf args.term
  | granted => exact raiseTerm_commitIndex rf args.term

theorem SendRequestVoteOutcome.commitIndex_eq {reply : RequestVoteReply} {votedNum votedNum' : ℕ}
    {elected : Bool} (hout : SendRequestVoteOutcome rf reply votedNum rf' votedNum' elected) :
    rf'.commitIndex = rf.commitIndex := by
  cases hout with
  | _ => rfl

theorem AppendEntriesOutcome.commitIndex_le {args : AppendEntriesArgs n}
    {reply : AppendEntriesReply} (hout : AppendEntriesOutcome rf args rf' reply) (h : rf.Sound) :
    rf.commitIndex ≤ rf'.commitIndex := by
  cases hout with
  | stale => exact le_rfl
  | short => exact (raiseTerm_commitIndex rf args.term).ge
  | matched => exact commitIndex_le_followerCommit h args
  | mismatched => exact (raiseTerm_commitIndex rf args.term).ge

theorem SendAppendEntriesOutcome.commitIndex_le {server : Fin n} {args : AppendEntriesArgs n}
    {reply : AppendEntriesReply} {appendNums appendNums' : ℕ}
    (hout : SendAppendEntriesOutcome rf server args reply appendNums rf' appendNums') :
    rf.commitIndex ≤ rf'.commitIndex := by
  cases hout with
  | committed => exact le_max_left _ _
  | _ => exact le_rfl

theorem InstallSnapshotOutcome.commitIndex_le {args : InstallSnapshotRequest n}
    {reply : InstallSnapshotResponse} (hout : InstallSnapshotOutcome rf args rf' reply) :
    rf.commitIndex ≤ rf'.commitIndex := by
  cases hout with
  | stale => exact le_rfl
  | outdated => exact (raiseTerm_commitIndex rf args.term).ge
  | installed => exact le_max_left _ _

theorem LeaderSendSnapShotReplyOutcome.commitIndex_eq {server : Fin n}
    {args : InstallSnapshotRequest n} {reply : InstallSnapshotResponse}
    (hout : LeaderSendSnapShotReplyOutcome rf server args reply rf') :
    rf'.commitIndex = rf.commitIndex := by
  cases hout with
  | _ => rfl

end Node

namespace Cluster

variable {n : ℕ} {c c' : Cluster n} {a : Action n}

theorem Step.commitIndex_le (hstep : Step c a c') (hord : c.Ordered) (j : Fin n) :
    (c.nodes j).commitIndex ≤ (c'.nodes j).commitIndex := by
  have hone : ∀ {i : Fin n} {rf : Node n}, (c.nodes i).commitIndex ≤ rf.commitIndex →
      (c.nodes j).commitIndex ≤ (Function.update c.nodes i rf j).commitIndex := by
    intro i rf hrf
    exact (Function.forall_update_iff c.nodes fun k rf ↦
      (c.nodes k).commitIndex ≤ rf.commitIndex).mpr ⟨hrf, fun _ _ ↦ le_rfl⟩ j
  cases hstep with
  | idle => exact le_rfl
  | exit => exact le_rfl
  | doElection => exact hone le_rfl
  | requestVote i term p e args rf reply he hcall hout => exact hone hout.commitIndex_eq.ge
  | sendRequestVote i term p e args reply rf votedNum elected he hcall hout =>
      exact hone hout.commitIndex_eq.ge
  | start => exact hone le_rfl
  | doHeartBeat => exact le_rfl
  | appendEntries1 i beat p h args rf reply hbeat hcall hout =>
      exact hone (hout.commitIndex_le (hord.node p))
  | sendAppendEntries i beat p h args reply rf appendNums hbeat hcall hout =>
      exact hone hout.commitIndex_le
  | leaderSendSnapShot => exact hone le_rfl
  | installSnapshot i beat p h args rf reply hbeat hcall hout => exact hone hout.commitIndex_le
  | disconnect => exact le_rfl
  | leaderSendSnapShotReply i beat p h args reply rf hbeat hcall hout =>
      exact hone hout.commitIndex_eq.ge
  | snapshot => exact hone le_rfl
  | getApplyLogs => exact hone le_rfl

/-- What the sender has committed lies inside the log that a request describes. -/
def CommitsWithin (c : Cluster n) : Prop :=
  ∀ i beat p call, c.sender i beat p = some (.appendEntries call) →
    call.args.leadercommit ≤ call.args.lastIndex

theorem CommitsWithin.step (h : c.CommitsWithin) (hord : c.Ordered) (hstep : Step c a c') :
    c'.CommitsWithin := by
  intro i beat p call hcall
  rcases hstep.append_cases hcall with ⟨call₀, hold, hargs, -⟩ | ⟨-, -, -, -, hbuilt, -⟩
  · rw [← hargs]
    exact h i beat p call₀ hold
  · rw [hbuilt.leadercommit, hbuilt.lastIndex]
    exact (hord.node i).commit_le

/-! ## The indices that `Start` returns -/

/-- The index that an event returns to a caller of `Start` on a node. -/
def Event.startedOn (i : Fin n) : Event n → Option ℕ
  | .started j log => if j = i then some log.logindex else none
  | _ => none

/-- The indices that `Start` has returned on a node, in the order of the calls. -/
def startedOn (c : Cluster n) (i : Fin n) : List ℕ :=
  c.history.filterMap (Event.startedOn i)

theorem Step.startedOn (hstep : Step c a c') (hord : c.Ordered) (i : Fin n) :
    c'.startedOn i = c.startedOn i ∨
      c'.startedOn i = c.startedOn i ++ [(c.nodes i).getLastLogIndex + 1] ∧
        (c'.nodes i).getLastLogIndex = (c.nodes i).getLastLogIndex + 1 := by
  cases hstep with
  | sendRequestVote j term p e args reply rf votedNum elected he hcall hout =>
      apply Or.inl
      cases elected <;> simp [Cluster.startedOn, Event.startedOn]
  | start j command log ps hstatus hlog =>
      by_cases hji : j = i
      · subst hji
        apply Or.inr
        have hindexed := (hord.node j).indexed
        have hlast : log.logindex = (c.nodes j).getLastLogIndex + 1 := by rw [hlog]
        refine ⟨?_, ?_⟩
        · simp [Cluster.startedOn, Event.startedOn, hlast]
        · simp only [record_nodes, setNode_nodes, Function.update_self]
          rw [(hindexed.snoc hlast).getLastLogIndex_eq, hindexed.getLastLogIndex_eq,
            List.length_append, List.length_singleton]
          rfl
      · apply Or.inl
        simp [Cluster.startedOn, Event.startedOn, hji]
  | getApplyLogs j msgs hmsgs =>
      apply Or.inl
      simp [Cluster.startedOn, Event.startedOn, List.filterMap_map, Function.comp_def]
  | _ => exact .inl rfl

/-- `Start` returns larger and larger indices, up to the last one of the log. -/
structure StartsAscending (c : Cluster n) (i : Fin n) : Prop where
  ascending : (c.startedOn i).Pairwise (· < ·)
  le_last : ∀ index ∈ c.startedOn i, index ≤ (c.nodes i).getLastLogIndex

theorem StartsAscending.step {i : Fin n} (h : c.StartsAscending i) (hord : c.Ordered)
    (hstep : Step c a c') : c'.StartsAscending i := by
  have hlast := (hstep.evolves hord i).last_le
  rcases hstep.startedOn hord i with hsame | ⟨hnew, hnext⟩
  · refine ⟨?_, ?_⟩
    · rw [hsame]
      exact h.ascending
    · rw [hsame]
      exact fun index hindex ↦ (h.le_last index hindex).trans hlast
  · refine ⟨?_, ?_⟩
    · rw [hnew, List.pairwise_append]
      refine ⟨h.ascending, List.pairwise_singleton _ _, fun index hindex last hmem ↦ ?_⟩
      rw [List.mem_singleton.mp hmem]
      exact Nat.lt_succ_of_le (h.le_last index hindex)
    · rw [hnew, hnext]
      intro index hindex
      rcases List.mem_append.mp hindex with hold | hmem
      · exact (h.le_last index hold).trans (Nat.le_succ _)
      · exact (List.mem_singleton.mp hmem).le

section runs

variable [TextArchive (BoostPersistRaftNode n)]

theorem commitsWithin_run (as : List (Action n)) : (run as).CommitsWithin := by
  apply run_invariant
  · simp [CommitsWithin, init, sender]
  · exact fun _ _ _ hord hstep h ↦ h.step hord hstep

/-- A quantity that no step decreases does not decrease along a run. -/
theorem run_mono {f : Cluster n → ℕ} (hstep : ∀ c a c', c.Ordered → Step c a c' → f c ≤ f c')
    (as bs : List (Action n)) : f (run as) ≤ f (run (as ++ bs)) := by
  induction bs using List.reverseRecOn with
  | nil => rw [List.append_nil]
  | append_singleton bs a ih =>
      rw [← List.append_assoc]
      exact ih.trans (hstep _ a _ (ordered_run _) (run_step _ a))

/-- The index invariant. -/
theorem indices_in_order (as : List (Action n)) :
    (∀ i k log, ((run as).nodes i).logs[k]? = some log →
      log.logindex = ((run as).nodes i).lastSnapshotIncludeIndex + 1 + k) ∧
    (∀ i, ((run as).nodes i).lastSnapshotIncludeIndex ≤ ((run as).nodes i).lastApplied ∧
      ((run as).nodes i).lastApplied ≤ ((run as).nodes i).commitIndex ∧
      ((run as).nodes i).commitIndex ≤ ((run as).nodes i).getLastLogIndex) ∧
    (∀ i bs, ((run as).nodes i).currentTerm ≤ ((run (as ++ bs)).nodes i).currentTerm ∧
      ((run as).nodes i).commitIndex ≤ ((run (as ++ bs)).nodes i).commitIndex) ∧
    ∀ i beat p args, (run as).sender i beat p = some (.appendEntries (.sent args)) →
      (∀ k log, args.entries[k]? = some log → log.logindex = args.prevlogindex + 1 + k) ∧
      args.leadercommit ≤ args.prevlogindex + args.entries.length := by
  have hord := ordered_run as
  refine ⟨?_, ?_, ?_, ?_⟩
  · exact fun i ↦ (hord.node i).indexed
  · exact fun i ↦ ⟨(hord.node i).snap_le, (hord.node i).applied_le, (hord.node i).commit_le⟩
  · intro i bs
    constructor
    · apply run_mono (f := fun c ↦ (c.nodes i).currentTerm)
      exact fun _ _ _ hord hstep ↦ (hstep.evolves hord i).term_le
    · apply run_mono (f := fun c ↦ (c.nodes i).commitIndex)
      exact fun _ _ _ hord hstep ↦ hstep.commitIndex_le hord i
  · intro i beat p args hcall
    exact ⟨hord.request i beat p _ hcall, commitsWithin_run as i beat p _ hcall⟩

end runs

end Cluster

end HttpRaftKv.Raft
