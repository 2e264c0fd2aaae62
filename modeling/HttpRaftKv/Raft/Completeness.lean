import HttpRaftKv.Raft.MatchIndex

/-!
# What is committed stays

A leader only appends to its log, and compacts it.  In the runs without a stale
tail, a leader has everything that a node of no later term has committed, and
no node loses an entry that it has committed, except to its snapshot.
-/

namespace HttpRaftKv.Raft

variable {n : ℕ}

namespace Node

variable {rf rf' : Node n}

/-- What the node has committed, it still has or has compacted away. -/
def KeepsCommitted (rf rf' : Node n) : Prop :=
  ∀ index log, rf.entryAt index = some log → index ≤ rf.commitIndex →
    rf'.lastSnapshotIncludeIndex < index → rf'.entryAt index = some log

theorem keepsCommitted_of_same (hlogs : rf'.logs = rf.logs)
    (hsnap : rf'.lastSnapshotIncludeIndex = rf.lastSnapshotIncludeIndex) :
    rf.KeepsCommitted rf' := by
  intro index log hlog _ _
  unfold entryAt at hlog ⊢
  rwa [hlogs, hsnap]

theorem KeepsCommitted.refl (rf : Node n) : rf.KeepsCommitted rf :=
  keepsCommitted_of_same rfl rfl

/-- A node that appends to its log. -/
theorem keepsCommitted_of_append (more : List LogEntry) (hlogs : rf'.logs = rf.logs ++ more)
    (hsnap : rf'.lastSnapshotIncludeIndex = rf.lastSnapshotIncludeIndex) :
    rf.KeepsCommitted rf' := by
  intro index log hlog _ _
  obtain ⟨hlt, hget⟩ := entryAt_eq_some.mp hlog
  have hin := (List.getElem?_eq_some_iff.mp hget).1
  rw [entryAt_eq_some, hlogs, hsnap, List.getElem?_append_left hin]
  exact ⟨hlt, hget⟩

/-- A node that compacts its log. -/
theorem keepsCommitted_of_drop
    (hle : rf.lastSnapshotIncludeIndex ≤ rf'.lastSnapshotIncludeIndex)
    (hlogs : rf'.logs =
      rf.logs.drop (rf'.lastSnapshotIncludeIndex - rf.lastSnapshotIncludeIndex)) :
    rf.KeepsCommitted rf' := by
  intro index log hlog _ hbase
  obtain ⟨hlt, hget⟩ := entryAt_eq_some.mp hlog
  refine entryAt_eq_some.mpr ⟨hbase, ?_⟩
  rw [hlogs, List.getElem?_drop, ← hget]
  congr 1
  omega

theorem RequestVoteOutcome.keepsCommitted {args : RequestVoteArgs n} {reply : RequestVoteReply}
    (hout : RequestVoteOutcome rf args rf' reply) : rf.KeepsCommitted rf' := by
  cases hout with
  | expire => exact keepsCommitted_of_same rfl rfl
  | refused => exact keepsCommitted_of_same (by simp) (by simp)
  | granted => exact keepsCommitted_of_same (by simp) (by simp)

theorem InstallSnapshotOutcome.keepsCommitted {args : InstallSnapshotRequest n}
    {reply : InstallSnapshotResponse} (hout : InstallSnapshotOutcome rf args rf' reply) :
    rf.KeepsCommitted rf' := by
  cases hout with
  | stale => exact .refl rf
  | outdated => exact keepsCommitted_of_same (by simp [joinTerm]) (by simp [joinTerm])
  | installed ps hterm hindex => exact keepsCommitted_of_drop hindex.le rfl

end Node

open Node Cluster Replication

variable {c c' : Cluster n} {a : Action n} {s : Logs n}

/-- A request that is taken over has, at the committed indices, the entries
that stand there. -/
theorem Sim.keepsCommitted_appendEntries1 (h : Sim c s) (hord : c.Ordered) {i p : Fin n}
    {beat : ℕ} {args : AppendEntriesArgs n} {rf : Node n} {reply : AppendEntriesReply}
    (hsent : c.sender i beat p = some (.appendEntries (.sent args)))
    (hout : AppendEntriesOutcome (c.nodes p) args rf reply) :
    (c.nodes p).KeepsCommitted rf := by
  cases hout with
  | stale => exact .refl _
  | short => exact keepsCommitted_of_same (by simp [joinTerm]) (by simp [joinTerm])
  | mismatched => exact keepsCommitted_of_same (by simp [joinTerm]) (by simp [joinTerm])
  | matched ps hterm hprev hcommand =>
      have hnode := h.node p
      have hindexed := (hord.node p).indexed
      obtain ⟨l, hlead, -, hentries, -⟩ := (h.message.appends i beat p _ hsent).lead
      dsimp only [Call.args] at hlead hentries
      -- the log of the leader has what the node has committed
      have hagree : Agree (s.commit p) (s.log p) l :=
        h.inv.fixed_agree (h.inv.node p).fixed (hnode.cur.trans_le hterm) hlead
      obtain ⟨hge, hlast⟩ := hindexed.termAt_isSome.mp ⟨_, hprev⟩
      rw [hindexed.getLastLogIndex_eq] at hlast
      intro index log hlog hcommit _
      obtain ⟨hlt, hget⟩ := entryAt_eq_some.mp hlog
      refine entryAt_eq_some.mpr ⟨by simpa [joinTerm] using hlt, ?_⟩
      simp only [joinTerm, raiseTerm_lastSnapshotIncludeIndex]
      rw [splice_getElem? _ _ _ (by omega), ← hget]
      split_ifs with hin
      · obtain ⟨k, rfl⟩ : ∃ k, index = k + 1 := ⟨index - 1, by omega⟩
        have hwhole := (hnode.entryAt_eq hlog).2
        have hcommit' : k < s.commit p := by
          rw [hnode.commit]
          exact hcommit
        rw [hentries _ (by omega), hget, ← hwhole, hagree.getElem? k hcommit']
        congr 1
        omega
      · rfl

theorem Sim.keepsCommitted (h : Sim c s) (hord : c.Ordered) (hstep : Step c a c') (j : Fin n) :
    (c.nodes j).KeepsCommitted (c'.nodes j) := by
  have hone : ∀ {i : Fin n} {rf : Node n}, (c.nodes i).KeepsCommitted rf →
      (c.nodes j).KeepsCommitted (Function.update c.nodes i rf j) := by
    intro i rf hrf
    exact (Function.forall_update_iff c.nodes fun k rf ↦ (c.nodes k).KeepsCommitted rf).mpr
      ⟨hrf, fun k _ ↦ .refl (c.nodes k)⟩ j
  cases hstep with
  | idle => exact .refl _
  | exit => exact .refl _
  | doElection i => exact hone (keepsCommitted_of_same rfl rfl)
  | requestVote i term p e args rf reply he hcall hout => exact hone hout.keepsCommitted
  | sendRequestVote i term p e args reply rf votedNum elected he hcall hout =>
      exact hone (keepsCommitted_of_same (by cases hout <;> rfl) (by cases hout <;> rfl))
  | start i command log => exact hone (keepsCommitted_of_append [log] rfl rfl)
  | doHeartBeat => exact .refl _
  | appendEntries1 i beat p b args rf reply hbeat hcall hout =>
      have hsent : c.sender i beat p = some (.appendEntries (.sent args)) := by
        simp [sender, hbeat, hcall]
      exact hone (h.keepsCommitted_appendEntries1 hord hsent hout)
  | sendAppendEntries i beat p b args reply rf appendNums hbeat hcall hout =>
      exact hone (keepsCommitted_of_same (by cases hout <;> rfl) (by cases hout <;> rfl))
  | leaderSendSnapShot i => exact hone (keepsCommitted_of_same rfl rfl)
  | installSnapshot i beat p b args rf reply hbeat hcall hout => exact hone hout.keepsCommitted
  | disconnect => exact .refl _
  | leaderSendSnapShotReply i beat p b args reply rf hbeat hcall hout =>
      exact hone (keepsCommitted_of_same (by cases hout <;> rfl) (by cases hout <;> rfl))
  | snapshot i index data log ps hlt => exact hone (keepsCommitted_of_drop hlt.le rfl)
  | getApplyLogs i => exact hone (keepsCommitted_of_same rfl rfl)

namespace Cluster

variable [TextArchive (BoostPersistRaftNode n)]

/-- Every action of a run changes the nodes and their snapshots as `Evolves` says. -/
theorem run_evolves (as : List (Action n)) (a : Action n) (i : Fin n) :
    ((run as).nodes i).Evolves ((run (as ++ [a])).nodes i) :=
  (run_step as a).evolves (ordered_run as) i

/-- A node that leads a term at two moments of a run has lost nothing of its
log in between, except to its snapshot. -/
theorem leader_appends_only (us vs : List (Action n)) {i : Fin n} {term : ℕ}
    (hbefore : (run us).Leading i term) (hafter : (run (us ++ vs)).Leading i term) :
    ((run us).nodes i).getLastLogIndex ≤ ((run (us ++ vs)).nodes i).getLastLogIndex ∧
      ∀ index log, ((run us).nodes i).entryAt index = some log →
        ((run (us ++ vs)).nodes i).lastSnapshotIncludeIndex < index →
        ((run (us ++ vs)).nodes i).entryAt index = some log := by
  induction vs using List.reverseRecOn with
  | nil =>
      rw [List.append_nil]
      exact ⟨le_rfl, fun index log hlog _ ↦ hlog⟩
  | append_singleton vs a ih =>
      rw [← List.append_assoc] at hafter ⊢
      have helected : (run us).Elected i term := by
        rw [← hbefore.2]
        exact (elections_run us).leader i hbefore.1
      -- the node has led the term all the time
      have hlast : (run (us ++ vs)).Leading i term :=
        leading_of_elected (elected_of_past (List.prefix_append us vs) helected) hafter
      obtain ⟨hlength, hkept⟩ := ih hlast
      have hev := run_evolves (us ++ vs) a i
      refine ⟨hlength.trans hev.last_le, fun index log hlog hbase ↦ ?_⟩
      have hentry := hkept index log hlog (hev.base_le.trans_lt hbase)
      have hindex := ((ordered_run (us ++ vs)).node i).indexed.logindex_of_entryAt hentry
      have hmem := hev.kept hafter.1 log (mem_logs_of_entryAt hentry) (hindex ▸ hbase)
      rw [← hindex]
      exact hev.sound.indexed.entryAt_logindex hmem

section concrete

open scoped Archive

/-- Node 0 has won term 1 and appended `x`; at the end it has committed `x` and `y`. -/
theorem leader_appends_only_in_cleanRun :
    ((run ((cleanRun (0 : Fin 3) 1).take 4)).nodes 0).entryAt 1 = some ⟨"x", 1, 1⟩ ∧
      ((run ((cleanRun (0 : Fin 3) 1).take 4 ++ (cleanRun 0 1).drop 4)).nodes 0).entryAt 1 =
        some ⟨"x", 1, 1⟩ :=
  have hlog : ((run ((cleanRun (0 : Fin 3) 1).take 4)).nodes 0).entryAt 1 = some ⟨"x", 1, 1⟩ := by
    decide +kernel
  have hbefore : (run ((cleanRun (0 : Fin 3) 1).take 4)).Leading 0 1 :=
    ⟨by decide +kernel, by decide +kernel⟩
  ⟨hlog, (leader_appends_only ((cleanRun (0 : Fin 3) 1).take 4) ((cleanRun 0 1).drop 4) hbefore
    ⟨by decide +kernel, by decide +kernel⟩).2 1 _ hlog (by decide +kernel)⟩

end concrete

/-- In every run without a stale tail, a leader has what any node of no later
term has committed. -/
theorem leader_completeness (as : List (Action n))
    (hclean : Runs.Along Cluster.step NoStaleTail init as) {p q : Fin n}
    (hleader : ((run as).nodes q).status = .leader)
    (hterm : ((run as).nodes p).currentTerm ≤ ((run as).nodes q).currentTerm) :
    ((run as).nodes p).commitIndex ≤ ((run as).nodes q).getLastLogIndex ∧
      (run as).HoldsLog q p ((run as).nodes q).currentTerm ((run as).nodes p).commitIndex := by
  obtain ⟨s, h⟩ := sim_run as hclean
  have hord := ordered_run as
  have hagree : Agree (s.commit p) (s.log p) (s.log q) :=
    h.inv.fixed_agree (h.inv.node p).fixed ((h.node p).cur.trans_le hterm)
      ((h.role q).leader hleader)
  rw [(h.node p).commit] at hagree
  refine ⟨?_, h.holdsLog hord ⟨hleader, rfl⟩ hagree⟩
  rw [(h.node q).getLastLogIndex_eq (h.inv.node q) (hord.node q).indexed]
  exact hagree.le_right

section concrete

open scoped Archive

theorem leader_completeness_in_cleanRun :
    ((run (cleanRun (0 : Fin 3) 1)).nodes 1).commitIndex = 2 ∧
      ((run (cleanRun (0 : Fin 3) 1)).nodes 1).commitIndex ≤
        ((run (cleanRun (0 : Fin 3) 1)).nodes 0).getLastLogIndex :=
  ⟨by decide +kernel, (leader_completeness (cleanRun (0 : Fin 3) 1) (by decide +kernel)
    (by decide +kernel) (by decide +kernel)).1⟩

end concrete

/-- In every run without a stale tail, an entry that a node has committed stays
in its log until it is compacted. -/
theorem committed_entries_stay (us vs : List (Action n))
    (hclean : Runs.Along Cluster.step NoStaleTail init (us ++ vs)) {p : Fin n} {index : ℕ}
    {log : LogEntry} (hlog : ((run us).nodes p).entryAt index = some log)
    (hcommit : index ≤ ((run us).nodes p).commitIndex)
    (hbase : ((run (us ++ vs)).nodes p).lastSnapshotIncludeIndex < index) :
    ((run (us ++ vs)).nodes p).entryAt index = some log := by
  induction vs using List.reverseRecOn with
  | nil => rwa [List.append_nil]
  | append_singleton vs a ih =>
      rw [← List.append_assoc] at hclean hbase ⊢
      obtain ⟨hpast, -⟩ := (Runs.along_snoc step NoStaleTail init (us ++ vs) a).mp hclean
      obtain ⟨s, h⟩ := sim_run (us ++ vs) hpast
      have hord := ordered_run (us ++ vs)
      have hstep := run_step (us ++ vs) a
      have hbefore := (run_evolves (us ++ vs) a p).base_le.trans_lt hbase
      refine h.keepsCommitted hord hstep p index log (ih hpast hbefore) ?_ hbase
      refine hcommit.trans (run_mono (f := fun c ↦ (c.nodes p).commitIndex) ?_ us vs)
      exact fun _ _ _ hord hstep ↦ hstep.commitIndex_le hord p

section concrete

open scoped Archive

theorem committed_entries_stay_in_cleanRun :
    ((run ((cleanRun (0 : Fin 3) 1).take 8 ++ (cleanRun 0 1).drop 8)).nodes 0).entryAt 2 =
      some ⟨"y", 1, 2⟩ :=
  committed_entries_stay ((cleanRun (0 : Fin 3) 1).take 8) ((cleanRun 0 1).drop 8)
    (by decide +kernel) (by decide +kernel) (by decide +kernel) (by decide +kernel)

end concrete

end Cluster

end HttpRaftKv.Raft
