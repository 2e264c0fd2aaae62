import HttpRaftKv.Raft.Durability

/-!
# Persist before release

Every function of a node either leaves the persisted fields alone or hands the
raft state to the persister before it releases the mutex, with one exception:
the reply part of `sendAppendEntries` takes over a higher term and does not call
`persist`, as all other places do.  So the persister knows the state of every
node in every state of a run exactly if no such reply comes with a higher term.
-/

namespace HttpRaftKv

namespace Storage.Persister

/-- The raft state that was handed over last: what has been written to its
stream since the stream was opened. -/
def handedRaftState (p : Persister) : String :=
  p.raftStateOutStream.content ++ p.raftStateOutStream.buffer

/-- The stream is closed and opened again before it is written. -/
theorem clearRaftState_raftStateOutStream (p : Persister) :
    p.clearRaftState.raftStateOutStream = ⟨"", true, ""⟩ := by
  cases hopen : p.raftStateOutStream.isOpen with
  | true => simp [clearRaftState, OutFile.close, OutFile.openTrunc, hopen]
  | false => simp [clearRaftState, OutFile.close, OutFile.openTrunc, hopen]

@[simp] theorem handedRaftState_saveRaftState (p : Persister) (data : String) :
    (p.saveRaftState data).handedRaftState = data := by
  simp [handedRaftState, saveRaftState, clearRaftState_raftStateOutStream, OutFile.write]

@[simp] theorem handedRaftState_save (p : Persister) (raftstate snapshot : String) :
    (p.save raftstate snapshot).handedRaftState = raftstate := by
  have hstream : p.clearRaftStateAndSnapshot.raftStateOutStream = ⟨"", true, ""⟩ :=
    p.clearRaftState_raftStateOutStream
  simp [handedRaftState, save, hstream, OutFile.write]

end Storage.Persister

namespace Raft

namespace Node

open Checked

variable {n : ℕ} {rf rf' : Node n}

/-- The persisted fields and what the persister knows of them are unchanged. -/
def SameRaftState (rf rf' : Node n) : Prop :=
  rf'.persistNode = rf.persistNode ∧
    rf'.persister.handedRaftState = rf.persister.handedRaftState

/-- A process that has handed nothing over and has nothing to hand over. -/
def Untouched (rf : Node n) : Prop :=
  rf.persister.handedRaftState = "" ∧ rf.persistNode = (fresh rf.persister).persistNode

variable [TextArchive (BoostPersistRaftNode n)]

/-- The raft state that was handed over last is the one in memory. -/
def Persisted (rf : Node n) : Prop :=
  rf.persister.handedRaftState = rf.persistData

theorem persisted_persist (rf : Node n) : rf.persist.Persisted := by
  simp only [Persisted, persist, Storage.Persister.handedRaftState_saveRaftState]
  rfl

/-- What a function does to a node that was persisted before. -/
def Stores (rf rf' : Node n) : Prop :=
  rf'.Persisted ∨ rf.SameRaftState rf'

theorem stores_refl (rf : Node n) : rf.Stores rf :=
  .inr ⟨rfl, rfl⟩

/-! ## The functions -/

theorem doElection_stores {me : Fin n} {args : RequestVoteArgs n}
    (h : rf.doElection me = some (rf', args)) : rf.Stores rf' := by
  unfold doElection at h
  split_ifs at h
  cases Option.some.inj h
  exact .inl (persisted_persist _)

theorem requestVote_stores {args : RequestVoteArgs n} {reply : RequestVoteReply}
    (h : rf.requestVote args = .ok (rf', reply)) : rf.Stores rf' := by
  unfold requestVote at h
  split_ifs at h
  · cases Except.ok.inj h
    exact .inl (persisted_persist rf)
  · obtain ⟨_, -, h⟩ := bind_eq_ok.mp h
    dsimp only at h
    split_ifs at h
    · cases pure_eq_ok.mp h
      exact .inl (persisted_persist _)
    · cases pure_eq_ok.mp h
      exact .inl (persisted_persist _)
    · cases pure_eq_ok.mp h
      exact .inl (persisted_persist _)

theorem sendRequestVote_stores {reply : RequestVoteReply} {votedNum votedNum' : ℕ}
    {elected : Bool} (h : rf.sendRequestVote reply votedNum = .ok (rf', votedNum', elected)) :
    rf.Stores rf' := by
  unfold sendRequestVote at h
  by_cases hhigh : rf.currentTerm < reply.term
  · rw [if_pos hhigh] at h
    cases Except.ok.inj h
    exact .inl (persisted_persist _)
  rw [if_neg hhigh] at h
  by_cases hlow : reply.term < rf.currentTerm
  · rw [if_pos hlow] at h
    cases Except.ok.inj h
    exact stores_refl rf
  rw [if_neg hlow] at h
  obtain ⟨_, -, h⟩ := bind_eq_ok.mp h
  dsimp only at h
  split_ifs at h
  · cases pure_eq_ok.mp h
    exact stores_refl rf
  · obtain ⟨_, -, h⟩ := bind_eq_ok.mp h
    cases pure_eq_ok.mp h
    exact .inl (persisted_persist _)
  · cases pure_eq_ok.mp h
    exact stores_refl rf

theorem start_stores {command : String} {log : LogEntry}
    (h : rf.start command = some (rf', log)) : rf.Stores rf' := by
  unfold start at h
  split_ifs at h
  cases Option.some.inj h
  exact .inl (persisted_persist _)

theorem appendMatched_persisted {args : AppendEntriesArgs n} {reply reply' : AppendEntriesReply}
    (h : rf.appendMatched args reply = .ok (rf', reply')) : rf'.Persisted := by
  obtain ⟨spliced, -, h⟩ := bind_eq_ok.mp h
  obtain ⟨_, -, h⟩ := bind_eq_ok.mp h
  obtain ⟨_, -, h⟩ := bind_eq_ok.mp h
  cases pure_eq_ok.mp h
  exact persisted_persist _

theorem appendMismatched_persisted {args : AppendEntriesArgs n}
    {reply reply' : AppendEntriesReply} (h : rf.appendMismatched args reply = .ok (rf', reply')) :
    rf'.Persisted := by
  obtain ⟨prevTerm, -, h⟩ := bind_eq_ok.mp h
  obtain ⟨found, -, h⟩ := bind_eq_ok.mp h
  cases pure_eq_ok.mp h
  exact persisted_persist rf

theorem appendEntries1_stores {args : AppendEntriesArgs n} {reply : AppendEntriesReply}
    (h : rf.appendEntries1 args = .ok (rf', reply)) : rf.Stores rf' := by
  unfold appendEntries1 at h
  split_ifs at h
  · cases Except.ok.inj h
    exact stores_refl rf
  obtain ⟨_, -, h⟩ := bind_eq_ok.mp h
  by_cases hshort : (rf.joinTerm args.term).getLastLogIndex < args.prevlogindex
  · rw [if_pos hshort] at h
    cases pure_eq_ok.mp h
    exact .inl (persisted_persist _)
  rw [if_neg hshort] at h
  obtain ⟨matches_, -, h⟩ := bind_eq_ok.mp h
  cases matches_ with
  | true =>
      rw [if_pos rfl] at h
      exact .inl (appendMatched_persisted h)
  | false =>
      rw [if_neg (by simp)] at h
      exact .inl (appendMismatched_persisted h)

/-- A reply that makes the sender give up its term. -/
def StepsDown (rf : Node n) (reply : AppendEntriesReply) : Prop :=
  reply.appstate ≠ .disconnected ∧ rf.currentTerm < reply.term

instance (rf : Node n) (reply : AppendEntriesReply) : Decidable (rf.StepsDown reply) :=
  inferInstanceAs (Decidable (_ ∧ _))

omit [TextArchive (BoostPersistRaftNode n)] in
theorem sendAppendEntries_of_stepsDown {reply : AppendEntriesReply} (h : rf.StepsDown reply)
    (server : Fin n) (args : AppendEntriesArgs n) (appendNums : ℕ) :
    rf.sendAppendEntries server args reply appendNums =
      .ok (rf.becomeFollower reply.term, appendNums) := by
  rw [sendAppendEntries, if_neg h.1, if_pos h.2]

omit [TextArchive (BoostPersistRaftNode n)] in
theorem sendAppendEntries_sameRaftState {server : Fin n} {args : AppendEntriesArgs n}
    {reply : AppendEntriesReply} {appendNums appendNums' : ℕ}
    (h : rf.sendAppendEntries server args reply appendNums = .ok (rf', appendNums'))
    (hkeeps : ¬ rf.StepsDown reply) : rf.SameRaftState rf' := by
  by_cases hdisconnected : reply.appstate = .disconnected
  · rw [sendAppendEntries, if_pos hdisconnected] at h
    cases Except.ok.inj h
    exact ⟨rfl, rfl⟩
  · cases sendAppendEntries_outcome h with
    | higher hterm => exact absurd ⟨hdisconnected, hterm⟩ hkeeps
    | _ => exact ⟨rfl, rfl⟩

omit [TextArchive (BoostPersistRaftNode n)] in
theorem leaderSendSnapShot_sameRaftState (me : Fin n) :
    rf.SameRaftState (rf.leaderSendSnapShot me).1 :=
  ⟨rfl, rfl⟩

theorem leaderSendSnapShotReply_stores (server : Fin n) (args : InstallSnapshotRequest n)
    (reply : InstallSnapshotResponse) :
    rf.Stores (rf.leaderSendSnapShotReply server args reply) := by
  unfold leaderSendSnapShotReply
  split_ifs
  · exact stores_refl rf
  · exact .inl (persisted_persist _)
  · exact .inr ⟨rfl, rfl⟩

theorem installSnapshot_stores {args : InstallSnapshotRequest n}
    {reply : InstallSnapshotResponse} {msg : Option ApplyMsg}
    (h : rf.installSnapshot args = .ok (rf', reply, msg)) : rf.Stores rf' := by
  unfold installSnapshot at h
  split_ifs at h
  · cases Except.ok.inj h
    exact stores_refl rf
  unfold installSnapshotInTerm at h
  split_ifs at h
  · -- a raised term has been persisted, and the status is not
    cases Except.ok.inj h
    unfold joinSnapshotTerm
    split_ifs
    · exact .inl (persisted_persist (rf.becomeFollower args.term))
    · exact .inr ⟨rfl, rfl⟩
  · obtain ⟨logs, -, h⟩ := bind_eq_ok.mp h
    cases pure_eq_ok.mp h
    exact .inl (Storage.Persister.handedRaftState_save _ _ _)

theorem snapshot_stores {index : ℕ} {data : String} (h : rf.snapshot index data = .ok rf') :
    rf.Stores rf' := by
  unfold snapshot at h
  split_ifs at h
  · cases Except.ok.inj h
    exact stores_refl rf
  · obtain ⟨log, -, h⟩ := bind_eq_ok.mp h
    obtain ⟨logs, -, h⟩ := bind_eq_ok.mp h
    obtain ⟨_, -, h⟩ := bind_eq_ok.mp h
    cases pure_eq_ok.mp h
    exact .inl (Storage.Persister.handedRaftState_save _ _ _)

omit [TextArchive (BoostPersistRaftNode n)] in
theorem getApplyLogs_sameRaftState {msgs : List ApplyMsg}
    (h : rf.getApplyLogs = .ok (rf', msgs)) : rf.SameRaftState rf' := by
  obtain ⟨_, -, h⟩ := bind_eq_ok.mp h
  obtain ⟨msgs', -, h⟩ := bind_eq_ok.mp h
  cases pure_eq_ok.mp h
  exact ⟨rfl, rfl⟩

end Node

namespace Cluster

variable {n : ℕ} [TextArchive (BoostPersistRaftNode n)] {c c' : Cluster n} {a : Action n}

/-- The reply that an action hands to `sendAppendEntries`, with its receiver. -/
def reply (c : Cluster n) : Action n → Option (Fin n × AppendEntriesReply)
  | .sendAppendEntries i beat p =>
      match c.exited i, c.sender i beat p with
      | false, some (.appendEntries (.replied _ reply)) => some (i, reply)
      | _, _ => none
  | _ => none

/-- An action does not make a sender give up its term. -/
def KeepsTerm (c : Cluster n) (a : Action n) : Prop :=
  ∀ x ∈ c.reply a, ¬ (c.nodes x.1).StepsDown x.2

instance (c : Cluster n) (a : Action n) : Decidable (c.KeepsTerm a) :=
  inferInstanceAs (Decidable (∀ x ∈ c.reply a, ¬ (c.nodes x.1).StepsDown x.2))

/-- The persister of a node knows its raft state. -/
def Released (c : Cluster n) : Prop :=
  ∀ i, (c.nodes i).Persisted ∨ (c.nodes i).Untouched

theorem next_stores (hnext : c.next a = some c') (hkeeps : c.KeepsTerm a) (i : Fin n) :
    (c.nodes i).Stores (c'.nodes i) := by
  have hsame : (c.nodes i).Stores (c.nodes i) := Node.stores_refl _
  have hone : ∀ {j : Fin n} {rf : Node n}, (c.nodes j).Stores rf →
      (c.nodes i).Stores (Function.update c.nodes j rf i) := by
    intro j rf hrf
    exact (Function.forall_update_iff c.nodes fun k rf ↦ (c.nodes k).Stores rf).mpr
      ⟨hrf, fun k _ ↦ Node.stores_refl _⟩ i
  cases taken_of_next hnext with
  | exit => exact hsame
  | doElection j rf args hout => exact hone (Node.doElection_stores hout)
  | requestVote j term p e args rf reply he hcall hout =>
      exact hone (Node.requestVote_stores hout)
  | sendRequestVote j term p e args reply rf votedNum elected he hcall hout =>
      exact hone (Node.sendRequestVote_stores hout)
  | start j command rf log hout => exact hone (Node.start_stores hout)
  | doHeartBeat => exact hsame
  | appendEntries1 j beat p b args rf reply hbeat hcall hout =>
      exact hone (Node.appendEntries1_stores hout)
  | sendAppendEntries j beat p b args reply rf appendNums hrunning hbeat hcall hout =>
      have hreply : (j, reply) ∈ c.reply (.sendAppendEntries j beat p) := by
        simp [Cluster.reply, sender, hbeat, hcall, hrunning]
      exact hone (.inr (Node.sendAppendEntries_sameRaftState hout (hkeeps _ hreply)))
  | leaderSendSnapShot j => exact hone (.inr (Node.leaderSendSnapShot_sameRaftState j))
  | installSnapshot j beat p b args rf reply msg hbeat hcall hout =>
      exact hone (Node.installSnapshot_stores hout)
  | disconnect => exact hsame
  | leaderSendSnapShotReply => exact hone (Node.leaderSendSnapShotReply_stores _ _ _)
  | snapshot j index data rf hout => exact hone (Node.snapshot_stores hout)
  | getApplyLogs j rf msgs hout => exact hone (.inr (Node.getApplyLogs_sameRaftState hout))

theorem Released.next (h : c.Released) (hnext : c.next a = some c') (hkeeps : c.KeepsTerm a) :
    c'.Released := by
  intro i
  rcases next_stores hnext hkeeps i with hpersisted | ⟨hnode, hhanded⟩
  · exact .inl hpersisted
  · rcases h i with hpersisted | ⟨hempty, hfresh⟩
    · apply Or.inl
      rw [Node.Persisted, Node.persistData, hhanded, hnode]
      exact hpersisted
    · exact .inr ⟨hhanded.trans hempty, hnode.trans hfresh⟩

theorem Released.step (h : c.Released) (hkeeps : c.KeepsTerm a) : (c.step a).Released := by
  unfold Cluster.step
  cases hnext : c.next a with
  | none => exact h
  | some c' => exact h.next hnext hkeeps

/-- The step in which a sender gives up its term. -/
theorem step_of_stepsDown {x : Fin n × AppendEntriesReply} (hreply : x ∈ c.reply a)
    (hdown : (c.nodes x.1).StepsDown x.2) :
    (c.step a).nodes x.1 = (c.nodes x.1).becomeFollower x.2.term ∧ c.heartBeats x.1 ≠ [] := by
  cases a with
  | sendAppendEntries i beat p =>
      simp only [Cluster.reply] at hreply
      split at hreply
      · rename_i args reply hrunning hsender
        cases Option.some.inj hreply
        obtain ⟨b, hbeat, hcall⟩ := Option.bind_eq_some_iff.mp hsender
        have hnext : c.next (.sendAppendEntries i beat p) =
            some ((c.setNode i ((c.nodes i).becomeFollower reply.term)).setHeartBeat i beat
              { b.setSender p (.appendEntries (.returned args reply)) with
                appendNums := b.appendNums }) := by
          simp [next, hrunning, hbeat, hcall, Node.sendAppendEntries_of_stepsDown hdown]
        constructor
        · rw [Cluster.step, hnext]
          simp
        · intro hnil
          simp [hnil] at hbeat
      · cases hreply
  | _ => cases hreply

theorem nascent_run (as : List (Action n)) : (run as).Nascent := by
  have hboth : (run as).Elections ∧ (run as).Nascent := by
    apply run_invariant (P := fun c ↦ c.Elections ∧ c.Nascent)
    · exact ⟨elections_init, nascent_init⟩
    · exact fun _ _ _ hord hstep h ↦ ⟨h.1.step hord hstep, h.2.step hord h.1 hstep⟩
  exact hboth.2

theorem released_init : (init : Cluster n).Released :=
  fun _ ↦ .inr ⟨rfl, rfl⟩

/-- In every state of a run the persister of every node knows its raft state,
exactly if no reply to `AppendEntries` makes its receiver give up its term. -/
theorem persisted_iff_keepsTerm [LawfulTextArchive (BoostPersistRaftNode n)]
    (as : List (Action n)) :
    (∀ us, us <+: as → (run us).Released) ↔ Runs.Along Cluster.step KeepsTerm init as := by
  refine Runs.invariant_iff_along (P := fun _ c ↦ c.Released) Cluster.step released_init ?_ as
  intro us a hreleased
  refine ⟨fun hafter ↦ ?_, fun hkeeps ↦ hreleased.step hkeeps⟩
  rintro x hreply hdown
  obtain ⟨hnode, hbeats⟩ := step_of_stepsDown hreply hdown
  have hpos : 0 < ((run us).nodes x.1).currentTerm := (nascent_run us).heartBeat x.1 hbeats
  -- the sender was persisted before, and the term is not the same
  have hbefore : ((run us).nodes x.1).Persisted := by
    apply (hreleased x.1).resolve_right
    rintro ⟨-, hfresh⟩
    have hzero : ((run us).nodes x.1).currentTerm = 0 :=
      congrArg BoostPersistRaftNode.currentTerm hfresh
    omega
  have hafter := hafter x.1
  rw [hnode] at hafter
  rcases hafter with hpersisted | ⟨-, hfresh⟩
  · have hdata : TextArchive.save ((run us).nodes x.1).persistNode =
        TextArchive.save (((run us).nodes x.1).becomeFollower x.2.term).persistNode :=
      hbefore.symm.trans hpersisted
    have hload := congrArg (TextArchive.load (α := BoostPersistRaftNode n)) hdata
    rw [LawfulTextArchive.load_save, LawfulTextArchive.load_save] at hload
    have hterm := congrArg BoostPersistRaftNode.currentTerm (Option.some.inj hload)
    exact absurd hterm hdown.2.ne
  · have hzero : x.2.term = 0 := congrArg BoostPersistRaftNode.currentTerm hfresh
    have := hdown.2
    omega

section stepsDown

open scoped Archive

/-- Node `i` leads term 1 with the vote of node `j` and sends a heartbeat to node `k`,
which has started term 2 in the meantime.  The reply makes node `i` a follower of
term 2. -/
def deposedRun {n : ℕ} (i j k : Fin n) : List (Action n) :=
  [.doElection i, .requestVote i 1 j, .sendRequestVote i 1 j, .doHeartBeat i, .doElection k,
    .doElection k, .appendEntries1 i 0 k, .sendAppendEntries i 0 k]

/-- The persister of node 0 still has term 1. -/
theorem persist_missed_in_deposedRun :
    ¬ ∀ us, us <+: deposedRun (0 : Fin 3) 1 2 → (run us).Released := by
  intro h
  rcases h (deposedRun 0 1 2) List.prefix_rfl 0 with hpersisted | ⟨-, hfresh⟩
  · have hne : ((run (deposedRun (0 : Fin 3) 1 2)).nodes 0).persister.handedRaftState ≠
        ((run (deposedRun (0 : Fin 3) 1 2)).nodes 0).persistData := by decide +kernel
    exact hne hpersisted
  · have hterm : ((run (deposedRun (0 : Fin 3) 1 2)).nodes 0).persistNode.currentTerm ≠ 0 := by
      decide +kernel
    exact hterm (congrArg BoostPersistRaftNode.currentTerm hfresh)

theorem persisted_before_deposal :
    Runs.Along Cluster.step KeepsTerm init ((deposedRun (0 : Fin 3) 1 2).take 7) ∧
      ∀ us, us <+: (deposedRun (0 : Fin 3) 1 2).take 7 → (run us).Released := by
  have halong : Runs.Along Cluster.step KeepsTerm init ((deposedRun (0 : Fin 3) 1 2).take 7) := by
    decide +kernel
  exact ⟨halong, (persisted_iff_keepsTerm _).mpr halong⟩

end stepsDown

end Cluster

end Raft

end HttpRaftKv
