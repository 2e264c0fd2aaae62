import HttpRaftKv.Lib.ReplicationSteps
import HttpRaftKv.Raft.Commit

/-!
# The cluster as replicated logs

A cluster refines the replicated logs of the library as long as no
`AppendEntries1` overwrites an entry of another term and leaves entries behind
the sent ones.  The relation `Sim` reads a cluster as a state of the library:
the stored log of a node is its whole log behind the snapshot, a request
carries a part of the log of the leader of its term, a snapshot in flight is a
committed prefix, and what has been handed out is committed.
-/

namespace HttpRaftKv.Raft

open Replication

/-- A request overwrites an entry of another term and ends before the log
does.  `AppendEntries1` then keeps what stands behind. -/
def Node.LeavesStaleTail {n : ℕ} (rf : Node n) (args : AppendEntriesArgs n) : Prop :=
  rf.currentTerm ≤ args.term ∧ rf.termAt args.prevlogindex = some args.prevlogterm ∧
    args.lastIndex < rf.getLastLogIndex ∧
    ∃ log ∈ args.entries, ∃ old ∈ rf.logs,
      old.logindex = log.logindex ∧ old.logterm ≠ log.logterm

instance {n : ℕ} (rf : Node n) (args : AppendEntriesArgs n) :
    Decidable (rf.LeavesStaleTail args) :=
  inferInstanceAs (Decidable (rf.currentTerm ≤ args.term ∧
    rf.termAt args.prevlogindex = some args.prevlogterm ∧
    args.lastIndex < rf.getLastLogIndex ∧
    ∃ log ∈ args.entries, ∃ old ∈ rf.logs,
      old.logindex = log.logindex ∧ old.logterm ≠ log.logterm))

namespace Cluster

variable {n : ℕ}

/-- The request that an action hands to `AppendEntries1`, with its receiver. -/
def request (c : Cluster n) : Action n → Option (Fin n × AppendEntriesArgs n)
  | .appendEntries1 i beat p =>
      match c.sender i beat p with
      | some (.appendEntries (.sent args)) => some (p, args)
      | _ => none
  | _ => none

/-- An action that leaves no stale tail. -/
def NoStaleTail (c : Cluster n) (a : Action n) : Prop :=
  ∀ x ∈ c.request a, ¬ (c.nodes x.1).LeavesStaleTail x.2

instance (c : Cluster n) (a : Action n) : Decidable (c.NoStaleTail a) :=
  inferInstanceAs (Decidable (∀ x ∈ c.request a, ¬ (c.nodes x.1).LeavesStaleTail x.2))

end Cluster

/-- The whole logs of the nodes and of the leaders of a cluster. -/
abbrev Logs (n : ℕ) := State (Fin n) LogEntry

abbrev lastLogTerm (l : List LogEntry) : ℕ :=
  lastTerm LogEntry.logterm l

variable {n : ℕ}

/-! ## One node -/

/-- The node `p` of the logs, as the program stores it. -/
structure NodeSim (s : Logs n) (p : Fin n) (rf : Node n) : Prop where
  cur : s.cur p = rf.currentTerm
  base : s.base p = rf.lastSnapshotIncludeIndex
  commit : s.commit p = rf.commitIndex
  logs : rf.logs = (s.log p).drop rf.lastSnapshotIncludeIndex
  snapTerm : lastLogTerm ((s.log p).take rf.lastSnapshotIncludeIndex) =
    rf.lastSnapshotIncludeTerm

namespace NodeSim

variable {s : Logs n} {p : Fin n} {rf : Node n}

theorem snap_le (h : NodeSim s p rf) (hinv : s.NodeInv LogEntry.logterm p) :
    rf.lastSnapshotIncludeIndex ≤ (s.log p).length := by
  rw [← h.base]
  exact hinv.base_le.trans hinv.commit_le

theorem getLastLogIndex_eq (h : NodeSim s p rf) (hinv : s.NodeInv LogEntry.logterm p)
    (hindexed : rf.Indexed) : rf.getLastLogIndex = (s.log p).length := by
  have := h.snap_le hinv
  rw [hindexed.getLastLogIndex_eq, h.logs, List.length_drop]
  omega

theorem getLastLogTerm_eq (h : NodeSim s p rf) (hinv : s.NodeInv LogEntry.logterm p) :
    rf.getLastLogTerm = lastLogTerm (s.log p) := by
  have hle := h.snap_le hinv
  unfold Node.getLastLogTerm Node.getLastLogIndexAndTerm
  by_cases hshort : (s.log p).length ≤ rf.lastSnapshotIncludeIndex
  · rw [h.logs, List.drop_eq_nil_of_le hshort, List.getLast?_nil]
    rw [← h.snapTerm, List.take_of_length_le hshort]
  · rw [h.logs, List.getLast?_drop, if_neg hshort, lastLogTerm, lastTerm]
    cases hlast : (s.log p).getLast? with
    | none =>
        rw [List.getLast?_eq_none_iff.mp hlast] at hshort
        simp at hshort
    | some e => rfl

/-- A stored entry is the entry of the whole log. -/
theorem entryAt_eq (h : NodeSim s p rf) {k : ℕ} {log : LogEntry}
    (hlog : rf.entryAt (k + 1) = some log) :
    rf.lastSnapshotIncludeIndex ≤ k ∧ (s.log p)[k]? = some log := by
  obtain ⟨hlt, hget⟩ := Node.entryAt_eq_some.mp hlog
  rw [h.logs, List.getElem?_drop] at hget
  refine ⟨by omega, ?_⟩
  rw [← hget]
  congr 1
  omega

theorem upToDate_eq (h : NodeSim s p rf) (hinv : s.NodeInv LogEntry.logterm p)
    (hindexed : rf.Indexed) {l : List LogEntry}
    (hup : rf.upToDate l.length (lastLogTerm l) = true) :
    lastLogTerm (s.log p) < lastLogTerm l ∨
      lastLogTerm l = lastLogTerm (s.log p) ∧ (s.log p).length ≤ l.length := by
  rw [← h.getLastLogTerm_eq hinv, ← h.getLastLogIndex_eq hinv hindexed]
  simpa [Node.upToDate, Node.getLastLogTerm, Node.getLastLogIndex] using hup

end NodeSim

theorem lastTerm_take_succ {l : List LogEntry} {k : ℕ} {e : LogEntry} (hk : l[k]? = some e) :
    lastLogTerm (l.take (k + 1)) = e.logterm := by
  have hlt := (List.getElem?_eq_some_iff.mp hk).1
  rw [List.take_add_one, hk]
  simp [lastLogTerm, lastTerm]

/-! ## Messages -/

/-- A request is a part of the log of the leader of its term. -/
structure AppendSim (s : Logs n) (args : AppendEntriesArgs n) : Prop where
  lead : ∃ l, s.lead args.term = some l ∧ args.lastIndex ≤ l.length ∧
    (∀ k < args.entries.length, args.entries[k]? = l[args.prevlogindex + k]?) ∧
    lastLogTerm (l.take args.prevlogindex) = args.prevlogterm
  commit_le : args.leadercommit ≤ args.lastIndex
  commit : args.leadercommit = 0 ∨
    ∃ c m, c ≤ args.term ∧ args.leadercommit ≤ m ∧ s.Committed c m

/-- A node that replied with success has acknowledged the end of the request,
or more than that is committed. -/
def AckSim (s : Logs n) (p : Fin n) (args : AppendEntriesArgs n) : Prop :=
  ∀ l, s.lead args.term = some l → EndsIn LogEntry.logterm args.term args.lastIndex l →
    s.ack p args.term args.lastIndex ∨ ∃ m, args.lastIndex ≤ m ∧ s.Committed args.term m

/-- A snapshot in flight is a committed prefix. -/
def SnapSim (s : Logs n) (args : InstallSnapshotRequest n) : Prop :=
  args.lastsnapshotincludeindex = 0 ∨ ∃ c m lc, c ≤ args.term ∧
    args.lastsnapshotincludeindex ≤ m ∧ args.lastsnapshotincludeindex ≤ lc.length ∧
    s.Committed c m ∧ s.lead c = some lc ∧
    lastLogTerm (lc.take args.lastsnapshotincludeindex) = args.lastsnapshotincludeterm

/-- What is handed out is committed. -/
def EmitSim (s : Logs n) (msg : ApplyMsg) : Prop :=
  ∃ c m lc k log, s.Committed c m ∧ s.lead c = some lc ∧ k < m ∧ lc[k]? = some log ∧
    msg.commandIndex = (k + 1 : ℕ) ∧ msg.command = log.command

section grow

variable {s s' : Logs n} (hext : State.Extends LogEntry.logterm s s')

include hext

theorem AppendSim.grow {args : AppendEntriesArgs n} (h : AppendSim s args) :
    AppendSim s' args where
  lead := by
    obtain ⟨l, hl, hle, hentries, hprev⟩ := h.lead
    obtain ⟨r, hl', -⟩ := hext.lead _ l hl
    have hlen : args.prevlogindex + args.entries.length ≤ l.length := hle
    refine ⟨l ++ r, hl', hle.trans (by simp), fun k hk ↦ ?_, ?_⟩
    · rw [hentries k hk, List.getElem?_append_left (by omega)]
    · rw [List.take_append_of_le_length (by omega), hprev]
  commit_le := h.commit_le
  commit := by
    rcases h.commit with hzero | ⟨c, m, hc, hm, hcommitted⟩
    · exact .inl hzero
    · exact .inr ⟨c, m, hc, hm, hcommitted.grow hext⟩

theorem AckSim.grow {p : Fin n} {args : AppendEntriesArgs n} (h : AckSim s p args)
    (hargs : AppendSim s args) : AckSim s' p args := by
  intro l' hl' hends
  obtain ⟨l, hl, hle, -⟩ := hargs.lead
  obtain ⟨r, hr, -⟩ := hext.lead _ l hl
  rw [hl'] at hr
  cases Option.some.inj hr
  have hends' : EndsIn LogEntry.logterm args.term args.lastIndex l := by
    obtain ⟨k, log, hk, hget, hterm⟩ := hends
    exact ⟨k, log, hk, by rwa [List.getElem?_append_left (by omega)] at hget, hterm⟩
  rcases h l hl hends' with hack | ⟨m, hm, hc⟩
  · exact .inl (hext.ack _ _ _ hack)
  · exact .inr ⟨m, hm, hc.grow hext⟩

theorem SnapSim.grow {args : InstallSnapshotRequest n} (h : SnapSim s args) :
    SnapSim s' args := by
  rcases h with hzero | ⟨c, m, lc, hct, hm, hle, hc, hlc, hterm⟩
  · exact .inl hzero
  · obtain ⟨r, hlc', -⟩ := hext.lead c lc hlc
    refine .inr ⟨c, m, lc ++ r, hct, hm, hle.trans (by simp), hc.grow hext, hlc', ?_⟩
    rw [List.take_append_of_le_length hle, hterm]

theorem EmitSim.grow {msg : ApplyMsg} (h : EmitSim s msg) : EmitSim s' msg := by
  obtain ⟨c, m, lc, k, log, hc, hlc, hk, hget, hindex, hcommand⟩ := h
  obtain ⟨r, hlc', -⟩ := hext.lead c lc hlc
  have hlt := (List.getElem?_eq_some_iff.mp hget).1
  exact ⟨c, m, lc ++ r, k, log, hc.grow hext, hlc', hk,
    by rw [List.getElem?_append_left hlt, hget], hindex, hcommand⟩

end grow

namespace NodeSim

variable {s : Logs n} {p : Fin n} {rf : Node n}

/-- What a leader sends is a part of its log. -/
theorem appendSim (h : NodeSim s p rf) (hinv : s.NodeInv LogEntry.logterm p) (hsound : rf.Sound)
    (hlead : s.lead rf.currentTerm = some (s.log p)) {i : Fin n} {args : AppendEntriesArgs n}
    (hbuilt : Cluster.Built i rf args) : AppendSim s args where
  lead := by
    have hlast := h.getLastLogIndex_eq hinv hsound.indexed
    obtain ⟨hge, hle⟩ := hsound.indexed.termAt_isSome.mp ⟨_, hbuilt.prevlogterm⟩
    refine ⟨s.log p, by rw [hbuilt.term, hlead], (hbuilt.lastIndex.trans hlast).le, ?_, ?_⟩
    · intro k hk
      rw [hbuilt.entries, h.logs, List.drop_drop, List.getElem?_drop]
      congr 1
      omega
    · have hprev := hbuilt.prevlogterm
      unfold Node.termAt at hprev
      split_ifs at hprev with heq
      · rw [heq, h.snapTerm]
        exact Option.some.inj hprev
      · obtain ⟨log, hlog, hterm⟩ := Option.map_eq_some_iff.mp hprev
        obtain ⟨k, hk⟩ : ∃ k, args.prevlogindex = k + 1 := ⟨args.prevlogindex - 1, by omega⟩
        rw [hk] at hlog ⊢
        rw [lastTerm_take_succ (h.entryAt_eq hlog).2, hterm]
  commit_le := by
    rw [hbuilt.leadercommit, hbuilt.lastIndex]
    exact hsound.commit_le
  commit := by
    rw [hbuilt.leadercommit, hbuilt.term, ← h.commit, ← h.cur]
    rcases hinv.fixed with hzero | ⟨c, m, lc, hct, hm, hc, -, -⟩
    · exact .inl hzero
    · exact .inr ⟨c, m, hct, hm, hc⟩

/-- The snapshot of a node is a committed prefix. -/
theorem snapSim (h : NodeSim s p rf) (hinv : s.NodeInv LogEntry.logterm p)
    {args : InstallSnapshotRequest n} (hterm : args.term = rf.currentTerm)
    (hindex : args.lastsnapshotincludeindex = rf.lastSnapshotIncludeIndex)
    (hsnap : args.lastsnapshotincludeterm = rf.lastSnapshotIncludeTerm) : SnapSim s args := by
  have hbase := h.base ▸ hinv.base_le
  rcases hinv.fixed with hzero | ⟨c, m, lc, hct, hm, hc, hlc, hagree⟩
  · exact .inl (by omega)
  · have hpre := hagree.mono hbase
    refine .inr ⟨c, m, lc, by rw [hterm, ← h.cur]; exact hct, by omega,
      by rw [hindex]; exact hpre.le_right, hc, hlc, ?_⟩
    rw [hsnap, hindex, ← h.snapTerm, hpre.take_eq]

end NodeSim

structure MessageSim (c : Cluster n) (s : Logs n) : Prop where
  appends : ∀ i beat p call, c.sender i beat p = some (.appendEntries call) →
    AppendSim s call.args
  acks : ∀ i beat p call reply, c.sender i beat p = some (.appendEntries call) →
    call.reply = some reply → reply.success = true → AckSim s p call.args
  snaps : ∀ i beat p call, c.sender i beat p = some (.snapShot (some call)) →
    SnapSim s call.args
  emits : ∀ i msg, .emitted i msg ∈ c.history → EmitSim s msg

/-! ## The relation -/

structure ElectionSim (c : Cluster n) (s : Logs n) : Prop where
  elected : ∀ u, (∃ i, c.Elected i u) ↔ ∃ l, s.lead u = some l
  votes : ∀ i u p, s.lead u = none → c.Voted i u p →
    ∃ l, s.vote i u = some l ∧ s.vote p u = some l
  voters : ∀ p u l, s.vote p u = some l → ∃ i, c.Voted i u p
  ballots : ∀ i u p call, s.lead u = none → c.voteCall i u p = some call →
    ∃ l, s.vote i u = some l ∧ call.args.lastlogindex = l.length ∧
      call.args.lastlogterm = lastLogTerm l

/-- Something committed before a term is not in a log. -/
def Misses (s : Logs n) (u : ℕ) (l : List LogEntry) : Prop :=
  ∃ c m lc, c < u ∧ s.Committed c m ∧ s.lead c = some lc ∧ ¬ Agree m l lc

/-- A leader has the log of the leader of its term.  A candidate still has the
log it has asked votes for, unless it has installed a snapshot that this log
does not contain. -/
structure RoleSim (c : Cluster n) (s : Logs n) (i : Fin n) : Prop where
  leader : (c.nodes i).status = .leader → s.lead (c.nodes i).currentTerm = some (s.log i)
  candidate : s.lead (c.nodes i).currentTerm = none → c.Voted i (c.nodes i).currentTerm i →
    ∀ l, s.vote i (c.nodes i).currentTerm = some l →
      s.log i = l ∨ Misses s (c.nodes i).currentTerm l

structure Sim (c : Cluster n) (s : Logs n) : Prop where
  inv : s.Inv LogEntry.logterm
  node : ∀ p, NodeSim s p (c.nodes p)
  role : ∀ p, RoleSim c s p
  election : ElectionSim c s
  message : MessageSim c s

section frames

variable {c c' : Cluster n} {a : Action n} {s s' : Logs n}

/-- The messages of a step, but for a success reply given in it and for what it
hands out. -/
theorem MessageSim.step (h : Sim c s) (hord : c.Ordered) (hstep : Cluster.Step c a c')
    (hext : State.Extends LogEntry.logterm s s')
    (hack : ∀ i beat p call reply, a = .appendEntries1 i beat p →
      c'.sender i beat p = some (.appendEntries call) → call.reply = some reply →
      reply.success = true → AckSim s' p call.args)
    (hemit : ∀ i msg, .emitted i msg ∈ c'.history →
      .emitted i msg ∈ c.history ∨ EmitSim s' msg) : MessageSim c' s' where
  appends := by
    intro i beat p call hcall
    rcases hstep.append_cases hcall with ⟨call₀, hold, hargs, -⟩ |
      ⟨-, -, -, hstatus, hbuilt, -⟩
    · rw [← hargs]
      exact (h.message.appends i beat p call₀ hold).grow hext
    · exact ((h.node i).appendSim (h.inv.node i) (hord.node i)
        ((h.role i).leader hstatus) hbuilt).grow hext
  acks := by
    intro i beat p call reply hcall hreply hsuccess
    rcases hstep.append_cases hcall with ⟨call₀, hold, hargs, hreplies⟩ | ⟨-, hnone, -⟩
    · rcases hreplies reply hreply with hreply₀ | ⟨hact, -, -⟩
      · have hsim := h.message.acks i beat p call₀ reply hold hreply₀ hsuccess
        rw [← hargs]
        exact hsim.grow hext (h.message.appends i beat p call₀ hold)
      · exact hack i beat p call reply hact hcall hreply hsuccess
    · rw [hnone] at hreply
      cases hreply
  snaps := by
    intro i beat p call hcall
    rcases hstep.snap_cases hcall with ⟨call₀, hold, hargs⟩ | ⟨hterm, hindex, hsnap⟩
    · rw [← hargs]
      exact (h.message.snaps i beat p call₀ hold).grow hext
    · exact ((h.node i).snapSim (h.inv.node i) hterm hindex hsnap).grow hext
  emits := by
    intro i msg hmsg
    rcases hemit i msg hmsg with hold | hnew
    · exact (h.message.emits i msg hold).grow hext
    · exact hnew

/-- No vote is given and no term is won. -/
structure SameVotes (c c' : Cluster n) : Prop where
  elected : ∀ i u, c'.Elected i u ↔ c.Elected i u
  voted : ∀ i u p, c'.Voted i u p ↔ c.Voted i u p
  calls : ∀ i u p call, c'.voteCall i u p = some call →
    ∃ call₀, c.voteCall i u p = some call₀ ∧ call₀.args = call.args

theorem SameVotes.of_elections (helections : c'.elections = c.elections)
    (helected : ∀ i u, c'.Elected i u ↔ c.Elected i u) : SameVotes c c' := by
  have hcall : c'.voteCall = c.voteCall := by
    unfold Cluster.voteCall
    rw [helections]
  refine ⟨helected, fun i u p ↦ ?_, fun i u p call h ↦ ⟨call, by rw [← hcall, h], rfl⟩⟩
  unfold Cluster.Voted
  rw [hcall, helections]

theorem ElectionSim.frame (h : ElectionSim c s) (hsame : SameVotes c c')
    (hvote : s'.vote = s.vote) (hlead : ∀ u, (∃ l, s'.lead u = some l) ↔ ∃ l, s.lead u = some l) :
    ElectionSim c' s' := by
  have hnone : ∀ u, s'.lead u = none → s.lead u = none := by
    intro u hu
    rw [Option.eq_none_iff_forall_ne_some]
    intro l hl
    obtain ⟨l', hl'⟩ := (hlead u).mpr ⟨l, hl⟩
    rw [hu] at hl'
    cases hl'
  refine ⟨?_, ?_, ?_, ?_⟩
  · intro u
    rw [hlead, ← h.elected]
    exact exists_congr fun i ↦ hsame.elected i u
  · intro i u p hu hv
    rw [hvote]
    exact h.votes i u p (hnone u hu) ((hsame.voted i u p).mp hv)
  · intro p u l hl
    rw [hvote] at hl
    obtain ⟨i, hi⟩ := h.voters p u l hl
    exact ⟨i, (hsame.voted i u p).mpr hi⟩
  · intro i u p call hu hcall
    obtain ⟨call₀, hcall₀, hargs⟩ := hsame.calls i u p call hcall
    rw [hvote, ← hargs]
    exact h.ballots i u p call₀ (hnone u hu) hcall₀

theorem Misses.grow (hinv : s.Inv LogEntry.logterm)
    (hext : State.Extends LogEntry.logterm s s') {u : ℕ} {l : List LogEntry}
    (h : Misses s u l) : Misses s' u l := by
  obtain ⟨k, m, lc, hku, hc, hlc, hnot⟩ := h
  obtain ⟨lc', hlc', hends⟩ := hinv.committed_lead hc
  cases Option.some.inj (hlc.symm.trans hlc')
  obtain ⟨r, hr, -⟩ := hext.lead k lc hlc
  refine ⟨k, m, lc ++ r, hku, hc.grow hext, hr, fun hagree ↦ hnot ?_⟩
  exact hagree.trans
    ((Agree.refl hends.le_length).prefix_right (List.prefix_append lc r)).symm

/-- The role of a node that keeps its log and its votes. -/
theorem RoleSim.frame (h : Sim c s) (helections : c.Elections) {i : Fin n}
    (hext : State.Extends LogEntry.logterm s s')
    (hleads : (c.nodes i).Leads (c'.nodes i))
    (hterm : (c.nodes i).currentTerm ≤ (c'.nodes i).currentTerm)
    (hvoted : ∀ u, c'.Voted i u i → c.Voted i u i)
    (hlog : s'.log i = s.log i) (hvote : s'.vote i = s.vote i)
    (hlead : (c.nodes i).status = .leader →
      s'.lead (c.nodes i).currentTerm = s.lead (c.nodes i).currentTerm) : RoleSim c' s' i where
  leader := by
    intro hleader
    obtain ⟨hstatus, hsame⟩ := hleads hleader
    rw [hsame, hlead hstatus, hlog]
    exact (h.role i).leader hstatus
  candidate := by
    intro hnone hv l hl
    have hv := hvoted _ hv
    have hsame : (c'.nodes i).currentTerm = (c.nodes i).currentTerm := by
      have := (helections.voted i _ i hv).1
      omega
    rw [hsame] at hnone hv hl ⊢
    rw [hvote] at hl
    have hnone' : s.lead (c.nodes i).currentTerm = none := by
      rw [Option.eq_none_iff_forall_ne_some]
      intro l' hl'
      obtain ⟨r, hr, -⟩ := hext.lead _ l' hl'
      rw [hnone] at hr
      cases hr
    rw [hlog]
    exact ((h.role i).candidate hnone' hv l hl).imp_right (Misses.grow h.inv hext)

end frames

end HttpRaftKv.Raft
