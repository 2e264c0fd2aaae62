import HttpRaftKv.Raft.Election

/-!
# Where the entries come from

Every entry in a log or in a request was appended by `Start` on the leader of
its term, and a leader never uses an index twice.  So an index and a term
determine the entry, and the assertion of `AppendEntries1` against two commands
under one index and term never fails.  What is left are requests that end up in
`matchLog` below the snapshot of the receiver.
-/

namespace HttpRaftKv.Raft

namespace Node

variable {n : ℕ} [TextArchive (BoostPersistRaftNode n)] {rf : Node n}

open Checked

/-- A request that matches is taken over, unless it meets another command
under an index and a term of its own. -/
theorem Sound.appendMatched_ok (h : rf.Sound) {args : AppendEntriesArgs n}
    {reply : AppendEntriesReply} (hcons : Consecutive args.prevlogindex args.entries)
    (hprev : rf.termAt args.prevlogindex = some args.prevlogterm)
    (hcommand : ∀ old log, old ∈ rf.logs → log ∈ args.entries → old.logindex = log.logindex →
      old.logterm = log.logterm → old.command = log.command) :
    ∃ result, rf.appendMatched args reply = .ok result := by
  have hlast := h.indexed.getLastLogIndex_eq
  obtain ⟨hge, hle⟩ := h.indexed.termAt_isSome.mp ⟨_, hprev⟩
  have hat : args.prevlogindex - rf.lastSnapshotIncludeIndex ≤ rf.logs.length := by omega
  have hsum : rf.lastSnapshotIncludeIndex + (args.prevlogindex - rf.lastSnapshotIncludeIndex) =
      args.prevlogindex := by omega
  have hcons' := hsum.symm ▸ hcons
  have hslots : ∀ k old log,
      rf.logs[args.prevlogindex - rf.lastSnapshotIncludeIndex + k]? = some old →
      args.entries[k]? = some log → old.logterm = log.logterm → old.command = log.command := by
    intro k old log hold hlog hterm
    refine hcommand old log (List.mem_of_getElem? hold) (List.mem_of_getElem? hlog) ?_ hterm
    have := h.indexed _ _ hold
    have := hcons _ _ hlog
    omega
  have hlast' := (h.indexed.splice hat hcons').getLastLogIndex_eq
  have hlen := length_splice rf.logs _ args.entries hat
  have hcommit := h.commit_le
  dsimp only at hlast'
  refine exists_bind_eq_ok ((h.indexed.foldlM_appendEntry hat hcons').mpr ⟨hslots, rfl⟩) ?_
  refine exists_require_bind (by rw [hlast', hlen]; omega) (exists_require_bind ?_ ⟨_, rfl⟩)
  split_ifs with hbehind
  · exact min_le_right _ _
  · rw [hlast', hlen]
    dsimp only
    omega

/-- A request that does not match is refused. -/
theorem Sound.appendMismatched_ok (h : rf.Sound) {args : AppendEntriesArgs n}
    {reply : AppendEntriesReply} {found : ℕ} (hprev : rf.termAt args.prevlogindex = some found) :
    ∃ result, rf.appendMismatched args reply = .ok result := by
  have hle := (h.indexed.termAt_isSome.mp ⟨_, hprev⟩).2
  obtain ⟨conflict, hconflict, -⟩ := h.indexed.conflictIndex_spec found hle
  refine exists_bind_eq_ok (h.indexed.getLogTermFromLogIndex_eq_ok.mpr hprev) ?_
  exact exists_bind_eq_ok hconflict ⟨_, rfl⟩

theorem Sound.appendEntries1_ok_iff (h : rf.Sound) {args : AppendEntriesArgs n}
    (hcons : Consecutive args.prevlogindex args.entries)
    (hcommand : ∀ old log, old ∈ rf.logs → log ∈ args.entries → old.logindex = log.logindex →
      old.logterm = log.logterm → old.command = log.command) :
    (∃ result, rf.appendEntries1 args = .ok result) ↔
      ¬ (rf.currentTerm ≤ args.term ∧ args.prevlogindex < rf.lastSnapshotIncludeIndex) := by
  have hlast := h.indexed.getLastLogIndex_eq
  have hjoined : (rf.joinTerm args.term).Sound :=
    (h.evolves_joinTerm args.term (rf.joinTerm args.term).persister).sound
  constructor
  · rintro ⟨⟨rf', reply⟩, hresult⟩ ⟨hterm, hbelow⟩
    -- every outcome in the term has passed `matchLog` or is too short
    cases h.indexed.appendEntries1_outcome hcons hresult with
    | stale hlt => omega
    | short ps _ hshort => omega
    | matched ps _ hprev =>
        have := (h.indexed.termAt_isSome.mp ⟨_, hprev⟩).1
        omega
    | mismatched ps _ found hint hprev =>
        have := (h.indexed.termAt_isSome.mp ⟨_, hprev⟩).1
        omega
  · intro hnot
    unfold appendEntries1
    by_cases hlt : args.term < rf.currentTerm
    · exact ⟨_, if_pos hlt⟩
    have hge : rf.lastSnapshotIncludeIndex ≤ args.prevlogindex := by omega
    have hterm : args.term = (rf.joinTerm args.term).currentTerm := by
      simp only [joinTerm, raiseTerm_currentTerm]
      omega
    rw [if_neg hlt, appendEntriesInTerm, require_bind hterm, joinTerm_getLastLogIndex]
    by_cases hshort : rf.getLastLogIndex < args.prevlogindex
    · exact ⟨_, by rw [if_pos hshort]; rfl⟩
    rw [if_neg hshort]
    obtain ⟨found, hfound⟩ := h.indexed.termAt_isSome.mpr ⟨hge, Nat.le_of_not_lt hshort⟩
    have hfound' : (rf.joinTerm args.term).termAt args.prevlogindex = some found := by
      rwa [joinTerm_termAt]
    refine exists_bind_eq_ok (hjoined.indexed.matchLog_eq_ok.mpr ⟨found, hfound', rfl⟩) ?_
    by_cases heq : args.prevlogterm = found
    · subst heq
      rw [if_pos (by simp)]
      exact hjoined.appendMatched_ok hcons hfound' (by simpa [joinTerm])
    · rw [if_neg (by simpa using heq)]
      exact hjoined.appendMismatched_ok hfound'

end Node

namespace Cluster

variable {n : ℕ} {c c' : Cluster n} {a : Action n}

/-- An entry that `Start` has appended on some node. -/
def Started (c : Cluster n) (log : LogEntry) : Prop :=
  ∃ i, .started i log ∈ c.history

theorem Step.history_mono (hstep : Step c a c') {e : Event n} (he : e ∈ c.history) :
    e ∈ c'.history := by
  cases hstep with
  | sendRequestVote => exact List.mem_append_left _ he
  | start => exact List.mem_append_left _ he
  | getApplyLogs => exact List.mem_append_left _ he
  | _ => exact he

theorem Step.started_mono (hstep : Step c a c') {log : LogEntry} (hlog : c.Started log) :
    c'.Started log :=
  hlog.imp fun _ he ↦ hstep.history_mono he

theorem Step.elected_mono (hstep : Step c a c') {i : Fin n} {term : ℕ} (h : c.Elected i term) :
    c'.Elected i term :=
  hstep.history_mono h

/-- A new entry is the one that a leader has put behind its log. -/
theorem Step.started_cases (hstep : Step c a c') {i : Fin n} {log : LogEntry}
    (hlog : .started i log ∈ c'.history) :
    .started i log ∈ c.history ∨ (c.nodes i).status = .leader ∧
      log.logterm = (c.nodes i).currentTerm ∧ log.logindex = (c.nodes i).getLastLogIndex + 1 ∧
      (c'.nodes i).logs = (c.nodes i).logs ++ [log] := by
  cases hstep with
  | sendRequestVote j term p e args reply rf votedNum elected he hcall hout =>
      rcases List.mem_append.mp hlog with hold | hnew
      · exact .inl hold
      · cases elected <;> simp at hnew
  | start j command new ps hstatus hnew =>
      rcases List.mem_append.mp hlog with hold | hlog
      · exact .inl hold
      · have heq : i = j ∧ log = new := by simpa using hlog
        obtain ⟨rfl, rfl⟩ := heq
        refine .inr ⟨hstatus, by rw [hnew], by rw [hnew], by simp⟩
  | getApplyLogs j msgs hmsgs =>
      rcases List.mem_append.mp hlog with hold | hnew
      · exact .inl hold
      · simp at hnew
  | _ => exact .inl hlog

/-- The thread of a heartbeat asks its peer to take an entry over. -/
def Sends (c : Cluster n) (i p : Fin n) (log : LogEntry) : Prop :=
  ∃ beat call, c.sender i beat p = some (.appendEntries call) ∧ log ∈ call.args.entries

theorem mem_splice {logs entries : List LogEntry} {at_ : ℕ} {log : LogEntry}
    (h : log ∈ Node.splice logs at_ entries) : log ∈ logs ∨ log ∈ entries := by
  simp only [Node.splice, List.mem_append] at h
  rcases h with (h | h) | h
  · exact .inl (List.mem_of_mem_take h)
  · exact .inr h
  · exact .inl (List.mem_of_mem_drop h)

/-- An entry in a log was there before, was sent by a leader to which the node
gives way, or is new. -/
theorem Step.mem_logs (hstep : Step c a c') {j : Fin n} {log : LogEntry}
    (hlog : log ∈ (c'.nodes j).logs) :
    log ∈ (c.nodes j).logs ∨
      (∃ i, c.Sends i j log) ∧ (c'.nodes j).status ≠ .leader ∨
      .started j log ∈ c'.history ∧ log.logindex = (c.nodes j).getLastLogIndex + 1 := by
  -- only the log of the node that acts changes
  have hone : ∀ {k : Fin n} {rf : Node n}, log ∈ (Function.update c.nodes k rf j).logs →
      (j = k → log ∈ rf.logs → log ∈ (c.nodes k).logs ∨
        (∃ i, c.Sends i k log) ∧ rf.status ≠ .leader ∨
        .started k log ∈ c'.history ∧ log.logindex = (c.nodes k).getLastLogIndex + 1) →
      log ∈ (c.nodes j).logs ∨
        (∃ i, c.Sends i j log) ∧ (Function.update c.nodes k rf j).status ≠ .leader ∨
        .started j log ∈ c'.history ∧ log.logindex = (c.nodes j).getLastLogIndex + 1 := by
    intro k rf hmem hk
    by_cases hjk : j = k
    · subst hjk
      rw [Function.update_self] at hmem ⊢
      exact hk rfl hmem
    · rw [Function.update_of_ne hjk] at hmem
      exact .inl hmem
  cases hstep with
  | idle => exact .inl hlog
  | exit => exact .inl hlog
  | doElection i ps hstatus => exact hone hlog fun _ hmem ↦ .inl hmem
  | requestVote i term p e args rf reply he hcall hout =>
      refine hone hlog fun _ hmem ↦ .inl ?_
      cases hout with
      | expire => exact hmem
      | refused => simpa using hmem
      | granted => simpa using hmem
  | sendRequestVote i term p e args reply rf votedNum elected he hcall hout =>
      refine hone hlog fun _ hmem ↦ .inl ?_
      cases hout <;> exact hmem
  | start i command new ps hstatus hnew =>
      refine hone hlog fun _ hmem ↦ ?_
      rcases List.mem_append.mp hmem with hold | hmem
      · exact .inl hold
      · refine .inr (.inr ?_)
        rw [List.mem_singleton.mp hmem]
        exact ⟨by simp, by rw [hnew]⟩
  | doHeartBeat => exact .inl hlog
  | appendEntries1 i beat p h args rf reply hbeat hcall hout =>
      refine hone hlog fun _ hmem ↦ ?_
      cases hout with
      | stale => exact .inl hmem
      | short => exact .inl (by simpa [Node.joinTerm] using hmem)
      | mismatched => exact .inl (by simpa [Node.joinTerm] using hmem)
      | matched =>
          refine (mem_splice hmem).imp id fun hsent ↦ .inl ⟨⟨i, beat, .sent args, ?_, hsent⟩, ?_⟩
          · simp [sender, hbeat, hcall]
          · exact Status.noConfusion
  | sendAppendEntries i beat p h args reply rf appendNums hbeat hcall hout =>
      refine hone hlog fun _ hmem ↦ .inl ?_
      cases hout <;> exact hmem
  | leaderSendSnapShot => exact hone hlog fun _ hmem ↦ .inl hmem
  | installSnapshot i beat p h args rf reply hbeat hcall hout =>
      refine hone hlog fun _ hmem ↦ .inl ?_
      cases hout with
      | stale => exact hmem
      | outdated => simpa [Node.joinTerm] using hmem
      | installed => exact List.mem_of_mem_drop hmem
  | disconnect => exact .inl hlog
  | leaderSendSnapShotReply i beat p h args reply rf hbeat hcall hout =>
      refine hone hlog fun _ hmem ↦ .inl ?_
      cases hout <;> exact hmem
  | snapshot => exact hone hlog fun _ hmem ↦ .inl (List.mem_of_mem_drop hmem)
  | getApplyLogs => exact hone hlog fun _ hmem ↦ .inl hmem

/-- An entry that is sent was sent before or stands in the log of the sender. -/
theorem Step.sends (hstep : Step c a c') {i p : Fin n} {log : LogEntry}
    (hsends : c'.Sends i p log) : c.Sends i p log ∨ log ∈ (c.nodes i).logs := by
  obtain ⟨beat, call, hcall, hlog⟩ := hsends
  rcases hstep.append_cases hcall with ⟨call₀, hold, hargs, -⟩ | ⟨-, -, -, -, hbuilt, -⟩
  · exact .inl ⟨beat, call₀, hold, by rwa [hargs]⟩
  · rw [hbuilt.entries] at hlog
    exact .inr (List.mem_of_mem_drop hlog)

structure Originated (c : Cluster n) : Prop where
  started : ∀ i log, .started i log ∈ c.history →
    c.Elected i log.logterm ∧ log.logindex ≤ (c.nodes i).getLastLogIndex
  unique : ∀ log log', c.Started log → c.Started log' → log.logterm = log'.logterm →
    log.logindex = log'.logindex → log = log'
  stored : ∀ i, ∀ log ∈ (c.nodes i).logs, c.Started log
  sent : ∀ i p log, c.Sends i p log → c.Started log

theorem Originated.step (h : c.Originated) (hord : c.Ordered) (helections : c.Elections)
    (hstep : Step c a c') : c'.Originated := by
  have helections' := helections.step hord hstep
  -- the leader of a term is above every index it has used
  have hfresh : ∀ {i : Fin n} {log log' : LogEntry}, c.Started log' → (c.nodes i).status = .leader →
      log.logterm = (c.nodes i).currentTerm → log.logindex = (c.nodes i).getLastLogIndex + 1 →
      log.logterm = log'.logterm → log.logindex ≠ log'.logindex := by
    rintro i log log' ⟨j, hj⟩ hleader hterm hindex hsame heq
    obtain ⟨helected, hle⟩ := h.started j log' hj
    rw [← hsame, hterm] at helected
    have hij := helections.elected_unique (helections.leader i hleader) helected
    subst hij
    omega
  refine ⟨?_, ?_, ?_, ?_⟩
  · intro i log hlog
    rcases hstep.started_cases hlog with hold | ⟨hleader, hterm, hindex, hlogs⟩
    · obtain ⟨helected, hle⟩ := h.started i log hold
      exact ⟨hstep.elected_mono helected, hle.trans (hstep.evolves hord i).last_le⟩
    · refine ⟨hterm ▸ hstep.elected_mono (helections.leader i hleader), ?_⟩
      have hmem : log ∈ (c'.nodes i).logs := by simp [hlogs]
      have hsound := (hstep.evolves hord i).sound
      exact (hsound.indexed.entryAt_isSome.mp ⟨log, hsound.indexed.entryAt_logindex hmem⟩).2
  · rintro log log' ⟨i, hi⟩ ⟨j, hj⟩ hterm hindex
    rcases hstep.started_cases hi with hi | ⟨hleader, hterm', hindex', hlogs⟩
    · rcases hstep.started_cases hj with hj | ⟨hleader, hterm', hindex', -⟩
      · exact h.unique log log' ⟨i, hi⟩ ⟨j, hj⟩ hterm hindex
      · exact absurd hindex.symm (hfresh ⟨i, hi⟩ hleader hterm' hindex' hterm.symm)
    · rcases hstep.started_cases hj with hj | ⟨hleader₂, hterm₂, -, hlogs₂⟩
      · exact absurd hindex (hfresh ⟨j, hj⟩ hleader hterm' hindex' hterm)
      · -- both are the entry that this step has appended
        have hei := hstep.elected_mono (helections.leader i hleader)
        have hej := hstep.elected_mono (helections.leader j hleader₂)
        rw [← hterm', hterm, hterm₂] at hei
        have hij := helections'.elected_unique hei hej
        subst hij
        rw [hlogs] at hlogs₂
        simpa using hlogs₂
  · intro j log hlog
    rcases hstep.mem_logs hlog with hold | ⟨⟨i, hsent⟩, -⟩ | ⟨hnew, -⟩
    · exact hstep.started_mono (h.stored j log hold)
    · exact hstep.started_mono (h.sent i j log hsent)
    · exact ⟨j, hnew⟩
  · intro i p log hsends
    rcases hstep.sends hsends with hold | hstored
    · exact hstep.started_mono (h.sent i p log hold)
    · exact hstep.started_mono (h.stored i log hstored)

theorem originated_init : (init : Cluster n).Originated := by
  refine ⟨?_, ?_, ?_, ?_⟩
  · simp [init]
  · simp [init, Started]
  · simp [init, Node.fresh]
  · simp [init, Sends, sender]

section runs

variable [TextArchive (BoostPersistRaftNode n)]

theorem originated_run (as : List (Action n)) : (run as).Originated := by
  have hboth : (run as).Elections ∧ (run as).Originated :=
    run_invariant (P := fun c ↦ c.Elections ∧ c.Originated) ⟨elections_init, originated_init⟩
      (fun _ _ _ hord hstep h ↦ ⟨h.1.step hord hstep, h.2.step hord h.1 hstep⟩) as
  exact hboth.2

/-- In every reachable cluster, a node that receives a request replies to it
exactly if the request is out of date or does not start below its snapshot. -/
theorem appendEntries1_replies_iff (as : List (Action n)) {i p : Fin n} {beat : ℕ}
    {args : AppendEntriesArgs n}
    (hcall : (run as).sender i beat p = some (.appendEntries (.sent args))) :
    (∃ result, ((run as).nodes p).appendEntries1 args = .ok result) ↔
      ¬ (((run as).nodes p).currentTerm ≤ args.term ∧
        args.prevlogindex < ((run as).nodes p).lastSnapshotIncludeIndex) := by
  have hord := ordered_run as
  have horigin := originated_run as
  have hcons := hord.request i beat p _ hcall
  refine (hord.node p).appendEntries1_ok_iff hcons fun old log hold hlog hindex hterm ↦ ?_
  have hsame := horigin.unique old log (horigin.stored p old hold)
    (horigin.sent i p log ⟨beat, _, hcall, hlog⟩) hterm hindex
  rw [hsame]

end runs

section compacted

open scoped Archive

/-- A leader sends its first entry twice to a peer; the second request is
delayed. -/
def firstBeats (i p : Fin n) : List (Action n) :=
  [.doElection i, .requestVote i 1 p, .sendRequestVote i 1 p, .start i "x", .doHeartBeat i,
    .doHeartBeat i]

def compaction (i p : Fin n) : List (Action n) :=
  [.appendEntries1 i 0 p, .sendAppendEntries i 0 p, .doHeartBeat i, .appendEntries1 i 2 p,
    .snapshot p 1 "s"]

/-- The entry is committed on both nodes, and the follower compacts its log. -/
def compactedRun (i p : Fin n) : List (Action n) :=
  firstBeats i p ++ compaction i p

def firstRequest (i : Fin n) : AppendEntriesArgs n :=
  ⟨1, i, 0, 0, [⟨"x", 1, 1⟩], 0⟩

theorem appendEntries1_replies_before_compaction :
    ∃ result, ((run (firstBeats (0 : Fin 3) 1)).nodes 1).appendEntries1 (firstRequest 0) =
      .ok result :=
  have hcall : (run (firstBeats (0 : Fin 3) 1)).sender 0 1 1 =
      some (.appendEntries (.sent (firstRequest 0))) := by decide +kernel
  (appendEntries1_replies_iff (firstBeats 0 1) hcall).mpr (by decide +kernel)

/-- The delayed request reaches `matchLog` below the snapshot, and the
follower exits. -/
theorem appendEntries1_exits_after_compaction :
    (run (compactedRun (0 : Fin 3) 1)).sender 0 1 1 =
        some (.appendEntries (.sent (firstRequest 0))) ∧
      (run (compactedRun (0 : Fin 3) 1)).exited 1 = false ∧
      (∀ result, ((run (compactedRun (0 : Fin 3) 1)).nodes 1).appendEntries1 (firstRequest 0) ≠
        .ok result) ∧
      (run (compactedRun (0 : Fin 3) 1 ++ [Action.appendEntries1 0 1 1])).exited 1 = true := by
  refine ⟨by decide +kernel, by decide +kernel, fun result hresult ↦ ?_, by decide +kernel⟩
  have hfail : (((run (compactedRun (0 : Fin 3) 1)).nodes 1).appendEntries1
      (firstRequest 0)).isOk = false := by decide +kernel
  rw [hresult] at hfail
  cases hfail

end compacted

end Cluster

end HttpRaftKv.Raft
