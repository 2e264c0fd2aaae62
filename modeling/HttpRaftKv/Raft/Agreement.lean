import HttpRaftKv.Raft.Simulation

/-!
# Logs agree

The steps that change a log, and with them the simulation of whole runs.  In
every run whose requests leave no stale tail, what two nodes hand out at one
index is the same command, and two logs with the same entry agree below it.
`AppendEntries1` overwrites a conflicting entry and keeps what stands behind
it, so both properties fail in runs with a stale tail.
-/

namespace HttpRaftKv.Raft

open Replication Node Cluster

variable {n : ℕ} {c c' : Cluster n} {a : Action n} {s s' : Logs n} {p : Fin n} {rf : Node n}

/-- A term that two nodes lead is led by one. -/
theorem Cluster.Facts.leader_unique (h : c.Facts) {i j : Fin n}
    (hi : (c.nodes i).status = .leader) (hj : (c.nodes j).status = .leader)
    (hterm : (c.nodes i).currentTerm = (c.nodes j).currentTerm) : i = j := by
  have hei := h.elections.leader i hi
  rw [hterm] at hei
  exact h.elections.elected_unique hei (h.elections.leader j hj)

theorem Sim.start (h : Sim c s) (hfacts : c.Facts) {i : Fin n} {command : String}
    {log : LogEntry} {ps : Storage.Persister} (hstatus : (c.nodes i).status = .leader)
    (hlog : log.logterm = (c.nodes i).currentTerm)
    (hstep : Step c (.start i command) ((c.setNode i { c.nodes i with
      logs := (c.nodes i).logs ++ [log], persister := ps }).record [.started i log])) :
    ∃ s', Sim ((c.setNode i { c.nodes i with
      logs := (c.nodes i).logs ++ [log], persister := ps }).record [.started i log]) s' := by
  have hnode := h.node i
  have hinv := h.inv.node i
  have hsnap := hnode.snap_le hinv
  set u := (c.nodes i).currentTerm with hu
  have hlead : s.lead u = some (s.log i) := (h.role i).leader hstatus
  set s₁ := s.setLead u (s.log i ++ [log]) with hs₁
  have hlead₁ : s₁.lead u = some (s.log i ++ [log]) := State.setLead_eq_some.mpr (.inl ⟨rfl, rfl⟩)
  have hinv₁ : s₁.Inv LogEntry.logterm := h.inv.extend hlead hlog
  have hext₁ : State.Extends LogEntry.logterm s s₁ := State.extends_extend hlead hlog
  have hcur : s₁.cur i ≤ u := hnode.cur.le
  -- the leader takes its own entry over
  have hinv₂ := hinv₁.accept hlead₁ hcur (by simp [hs₁, State.setLead]) le_rfl
  rw [List.take_length] at hinv₂
  have hother : ∀ q, q ≠ i → (c.nodes q).status = .leader → (c.nodes q).currentTerm ≠ u :=
    fun q hq hleader hsame ↦ hq (hfacts.leader_unique hleader hstatus hsame)
  refine ⟨s₁.move i u (s.log i ++ [log]) (s₁.base i) (s₁.commit i),
    h.step_of_node hfacts hstep (p := i) ?_ (.trans ?_ State.apart_move) hinv₂
      (hext₁.trans (State.extends_move hcur)) ?_ ?_ ?_ ?_ ?_ ?_ ?_⟩
  · exact fun q hq ↦ Function.update_of_ne hq _ _
  · exact .of_eq rfl rfl rfl rfl rfl
  · simp only [record_nodes, setNode_nodes, Function.update_self]
    have hbase : s₁.base i = (c.nodes i).lastSnapshotIncludeIndex := hnode.base
    have hcommit : s₁.commit i = (c.nodes i).commitIndex := hnode.commit
    rw [hbase, hcommit]
    refine .move { c.nodes i with logs := (c.nodes i).logs ++ [log], persister := ps } ?_ ?_
    · rw [List.drop_append_of_le_length hsnap, ← hnode.logs]
    · rw [List.take_append_of_le_length hsnap]
      exact hnode.snapTerm
  · refine ⟨fun _ ↦ ?_, fun hnone ↦ ?_⟩
    · simpa [State.move] using hlead₁
    · simp only [record_nodes, setNode_nodes, Function.update_self, State.move] at hnone
      rw [← hu, hlead₁] at hnone
      cases hnone
  · refine h.election.frame (.of_elections rfl fun j w ↦ by simp [Elected]) rfl fun w ↦ ?_
    by_cases hw : w = u
    · subst hw
      exact ⟨fun _ ↦ ⟨_, hlead⟩, fun _ ↦ ⟨_, hlead₁⟩⟩
    · simp [hs₁, State.move, State.setLead, hw]
  · exact fun _ _ _ hv ↦ hv
  · exact fun q hq hleader ↦ Function.update_of_ne (hother q hq hleader) _ _
  · exact fun _ _ _ _ _ ha ↦ by cases ha
  · exact fun _ _ hmsg ↦ .inl (by simpa using hmsg)

/-! ## Taking a request over -/

section appendEntries

variable {args : AppendEntriesArgs n} {l : List LogEntry}

/-- A log that has the term of a leader at an index, and agrees with the leader
on what it has compacted, agrees with it up to that index. -/
theorem Sim.agree_of_termAt (h : Sim c s) (hindexed : (c.nodes p).Indexed) {index term u : ℕ}
    (hat : (c.nodes p).termAt index = some term) (hlead : s.lead u = some l)
    (hle : index ≤ l.length) (hlast : lastLogTerm (l.take index) = term)
    (hbase : Agree (s.base p) (s.log p) l) : Agree index (s.log p) l := by
  have hnode := h.node p
  have hinv := h.inv.node p
  have hlength := (hindexed.termAt_isSome.mp ⟨_, hat⟩).2
  rw [hnode.getLastLogIndex_eq hinv hindexed] at hlength
  unfold termAt at hat
  split_ifs at hat with heq
  · rw [heq, ← hnode.base]
    exact hbase
  · obtain ⟨log, hlog, hlogterm⟩ := Option.map_eq_some_iff.mp hat
    have hlt := (hindexed.entryAt_isSome.mp ⟨log, hlog⟩).1
    obtain ⟨k, rfl⟩ : ∃ k, index = k + 1 := ⟨index - 1, by omega⟩
    obtain ⟨hsnap, hget⟩ := hnode.entryAt_eq hlog
    -- both logs follow the leader of the term that stands there
    obtain ⟨-, lw, hlw, hstored⟩ := hinv.stored k log (hnode.base.trans_le hsnap) hget
    obtain ⟨e, he⟩ : ∃ e, l[k]? = some e := ⟨_, List.getElem?_eq_getElem hle⟩
    rw [lastTerm_take_succ he, ← hlogterm] at hlast
    obtain ⟨lw', hlw', hmatched⟩ := (h.inv.leader _ l hlead).matched k e he
    rw [hlast, hlw] at hlw'
    cases Option.some.inj hlw'
    refine hbase.of_below hlength hle fun j hbj hj ↦ ?_
    rw [hstored j hbj (by omega), hmatched.getElem? j hj]

/-- A request that matches at its first index matches below it. -/
theorem Sim.agree_prev (h : Sim c s) (hindexed : (c.nodes p).Indexed)
    (hterm : (c.nodes p).currentTerm ≤ args.term)
    (hprev : (c.nodes p).termAt args.prevlogindex = some args.prevlogterm)
    (hlead : s.lead args.term = some l) (hle : args.prevlogindex ≤ l.length)
    (hlast : lastLogTerm (l.take args.prevlogindex) = args.prevlogterm) :
    Agree args.prevlogindex (s.log p) l := by
  have hinv := h.inv.node p
  apply h.agree_of_termAt hindexed hprev hlead hle hlast
  exact h.inv.fixed_agree (hinv.fixed.mono le_rfl hinv.base_le)
    ((h.node p).cur.trans_le hterm) hlead

/-- The log that a node has after it has taken a request over: the log of the
leader up to the end of the request, or the old log if it is longer and has all
the sent entries. -/
theorem Sim.spliced (h : Sim c s) (hfacts : c.Facts) {i : Fin n} {beat : ℕ}
    (hsent : c.sender i beat p = some (.appendEntries (.sent args)))
    (hterm : (c.nodes p).currentTerm ≤ args.term)
    (hprev : (c.nodes p).termAt args.prevlogindex = some args.prevlogterm)
    (hclean : ¬ (c.nodes p).LeavesStaleTail args) (hlead : s.lead args.term = some l)
    (hle : args.lastIndex ≤ l.length)
    (hentries : ∀ k < args.entries.length, args.entries[k]? = l[args.prevlogindex + k]?)
    (hagree : Agree args.prevlogindex (s.log p) l) :
    ∃ l', (s.move p args.term l' (s.base p) (s.commit p)).Inv LogEntry.logterm ∧
      Agree args.lastIndex l' l ∧ (s.log p).length ≤ l'.length ∧
      l'.take (c.nodes p).lastSnapshotIncludeIndex =
        (s.log p).take (c.nodes p).lastSnapshotIncludeIndex ∧
      Node.splice (c.nodes p).logs (args.prevlogindex - (c.nodes p).lastSnapshotIncludeIndex)
        args.entries = l'.drop (c.nodes p).lastSnapshotIncludeIndex := by
  have hnode := h.node p
  have hinv := h.inv.node p
  have hindexed := (hfacts.ordered.node p).indexed
  have hlast := hnode.getLastLogIndex_eq hinv hindexed
  have hlogs := hindexed.getLastLogIndex_eq
  have hge := (hindexed.termAt_isSome.mp ⟨_, hprev⟩).1
  have hprevle := hagree.le_left
  have hcur : s.cur p ≤ args.term := hnode.cur.trans_le hterm
  have hend : args.lastIndex = args.prevlogindex + args.entries.length := rfl
  set base := (c.nodes p).lastSnapshotIncludeIndex with hbase
  have hat : args.prevlogindex - base ≤ (c.nodes p).logs.length := by omega
  by_cases hlong : (s.log p).length ≤ args.lastIndex
  · -- the end of the request is the end of the log
    refine ⟨l.take args.lastIndex, h.inv.accept hlead hcur hlong hle, .take hle, ?_, ?_, ?_⟩
    · rw [List.length_take]
      omega
    · rw [List.take_take, Nat.min_eq_left (by omega), (hagree.mono hge).take_eq]
    · refine List.ext_getElem? fun k ↦ ?_
      rw [splice_getElem? _ _ _ hat, hnode.logs, List.getElem?_drop, List.getElem?_drop]
      split_ifs with hin
      · rw [hentries _ (by omega), List.getElem?_take_of_lt (by omega)]
        congr 1
        omega
      · by_cases hk : base + k < args.prevlogindex
        · rw [List.getElem?_take_of_lt (by omega)]
          exact hagree.getElem? _ hk
        · rw [List.getElem?_eq_none (by omega), List.getElem?_eq_none (by simp; omega)]
  · -- every sent entry is there already
    have hsame : ∀ k log, args.entries[k]? = some log →
        (c.nodes p).logs[args.prevlogindex - base + k]? = some log := by
      intro k log hk
      have hklt := (List.getElem?_eq_some_iff.mp hk).1
      have hindex := hfacts.ordered.request i beat p _ hsent k log hk
      have hlt : args.prevlogindex - base + k < (c.nodes p).logs.length := by omega
      have hget := List.getElem?_eq_getElem hlt
      set old := (c.nodes p).logs[args.prevlogindex - base + k] with hold
      have hmem : old ∈ (c.nodes p).logs := List.mem_of_getElem? hget
      have hsent' : log ∈ args.entries := List.mem_of_getElem? hk
      have holdindex : old.logindex = log.logindex := by
        have := hindexed _ old hget
        simp only [Call.args] at hindex
        omega
      have hterms : old.logterm = log.logterm := by
        by_contra hne
        exact hclean ⟨hterm, hprev, by omega, log, hsent', old, hmem, holdindex, hne⟩
      rw [hget, hfacts.originated.unique old log (hfacts.originated.stored p old hmem)
        (hfacts.originated.sent i p log ⟨beat, _, hsent, hsent'⟩) hterms holdindex]
    refine ⟨s.log p, ?_, ?_, le_rfl, rfl, ?_⟩
    · exact h.inv.keep hcur (hinv.fixed.mono hcur le_rfl) le_rfl hinv.base_le hinv.commit_le
    · refine hagree.of_below (by omega) hle fun k hk hklt ↦ ?_
      obtain ⟨log, hlog⟩ : ∃ log, args.entries[k - args.prevlogindex]? = some log :=
        ⟨_, List.getElem?_eq_getElem (by omega)⟩
      have hstored := hsame _ log hlog
      rw [hnode.logs, List.getElem?_drop] at hstored
      rw [hentries _ (by omega)] at hlog
      have hleft : base + (args.prevlogindex - base + (k - args.prevlogindex)) = k := by omega
      have hright : args.prevlogindex + (k - args.prevlogindex) = k := by omega
      rw [hleft] at hstored
      rw [hright] at hlog
      rw [hstored, hlog]
    · rw [← hnode.logs]
      refine List.ext_getElem? fun k ↦ ?_
      rw [splice_getElem? _ _ _ hat]
      split_ifs with hin
      · obtain ⟨log, hlog⟩ : ∃ log, args.entries[k - (args.prevlogindex - base)]? = some log :=
          ⟨_, List.getElem?_eq_getElem (by omega)⟩
        have hstored := hsame _ log hlog
        have hk : args.prevlogindex - base + (k - (args.prevlogindex - base)) = k := by omega
        rw [hk] at hstored
        rw [hlog, hstored]
      · rfl

/-- The commit index of a follower is committed in the log it now has. -/
theorem fixed_followerCommit {l' : List LogEntry} (hinv : s.Inv LogEntry.logterm)
    (hsim : AppendSim s args) (hlead : s.lead args.term = some l)
    (hold : s.Fixed args.term rf.commitIndex l') (hagree : Agree args.lastIndex l' l) :
    s.Fixed args.term (rf.followerCommit args) l' := by
  unfold followerCommit
  split_ifs with hbehind
  · have hle := hsim.commit_le
    have hmin : min args.leadercommit
        (max rf.getLastLogIndex (args.prevlogindex + args.entries.length)) =
        args.leadercommit := by
      unfold AppendEntriesArgs.lastIndex at hle
      omega
    rw [hmin]
    rcases hsim.commit with hzero | ⟨k, m, hk, hm, hcommitted⟩
    · omega
    · obtain ⟨lc, hlc, -⟩ := hinv.committed_lead hcommitted
      refine .inr ⟨k, m, lc, hk, hm, hcommitted, hlc, ?_⟩
      exact (hagree.mono hle).trans ((hinv.lead_agree hk hcommitted hlc hlead).mono hm)
  · exact hold

theorem sender_replied {i : Fin n} {beat : ℕ} {b : HeartBeat n} {reply : AppendEntriesReply}
    (hbeat : (c.heartBeats i)[beat]? = some b) :
    ((c.setNode p rf).setHeartBeat i beat
      (b.setSender p (.appendEntries (.replied args reply)))).sender i beat p =
        some (.appendEntries (.replied args reply)) := by
  have hsender := sender_setHeartBeat (c := c.setNode p rf) (by exact hbeat) p
    (.appendEntries (.replied args reply)) b.appendNums i beat p
  rw [if_pos ⟨rfl, rfl, rfl⟩] at hsender
  exact hsender

/-- A node that agrees with the leader up to the end of a request acknowledges it,
unless more than that is committed. -/
theorem exists_ackSim {s₂ : Logs n} (hinv : s₂.Inv LogEntry.logterm)
    (hnode : NodeSim s₂ p rf) (hcur : s₂.cur p = args.term) (hlead : s₂.lead args.term = some l)
    (hagree : Agree args.lastIndex (s₂.log p) l) :
    ∃ s' : Logs n, s'.Inv LogEntry.logterm ∧ State.Extends LogEntry.logterm s₂ s' ∧
      State.Apart p s₂ s' ∧ NodeSim s' p rf ∧ s'.lead = s₂.lead ∧ s'.vote = s₂.vote ∧
      AckSim s' p args := by
  by_cases hends : EndsIn LogEntry.logterm args.term args.lastIndex l
  · rcases hinv.le_lastTerm_or hcur hends hagree with hlater | hcommitted
    · exact ⟨s₂.addAck p args.term args.lastIndex, hinv.addAck hcur hlead hends hagree hlater,
        State.extends_addAck,
        .of_eq rfl rfl rfl rfl rfl,
        hnode.congr rfl rfl rfl rfl, rfl, rfl, fun _ _ _ ↦ .inl (.inr ⟨rfl, rfl, rfl⟩)⟩
    · exact ⟨s₂, hinv, .refl s₂, .of_eq rfl rfl rfl rfl rfl, hnode, rfl, rfl,
        fun _ _ _ ↦ .inr hcommitted⟩
  · refine ⟨s₂, hinv, .refl s₂, .of_eq rfl rfl rfl rfl rfl, hnode, rfl, rfl,
      fun l₂ hl₂ hends₂ ↦ absurd ?_ hends⟩
    rw [hlead] at hl₂
    exact Option.some.inj hl₂ ▸ hends₂

theorem Sim.appendEntries1_matched (h : Sim c s) (hfacts : c.Facts) {i : Fin n} {beat : ℕ}
    {b : HeartBeat n} {ps : Storage.Persister} (hbeat : (c.heartBeats i)[beat]? = some b)
    (hcall : b.senders p = some (.appendEntries (.sent args)))
    (hterm : (c.nodes p).currentTerm ≤ args.term)
    (hprev : (c.nodes p).termAt args.prevlogindex = some args.prevlogterm)
    (hclean : ¬ (c.nodes p).LeavesStaleTail args)
    (hrf : rf = { (c.nodes p).joinTerm args.term with
      logs := Node.splice (c.nodes p).logs
        (args.prevlogindex - (c.nodes p).lastSnapshotIncludeIndex) args.entries
      commitIndex := (c.nodes p).followerCommit args
      persister := ps })
    (hstep : Step c (.appendEntries1 i beat p) ((c.setNode p rf).setHeartBeat i beat
      (b.setSender p (.appendEntries (.replied args ⟨args.term, true, 0, .appNormal⟩))))) :
    ∃ s', Sim ((c.setNode p rf).setHeartBeat i beat
      (b.setSender p (.appendEntries (.replied args ⟨args.term, true, 0, .appNormal⟩)))) s' := by
  have hnode := h.node p
  have hinv := h.inv.node p
  have hindexed := (hfacts.ordered.node p).indexed
  have hsent : c.sender i beat p = some (.appendEntries (.sent args)) := by
    simp [sender, hbeat, hcall]
  have hsim := h.message.appends i beat p _ hsent
  simp only [Call.args] at hsim
  obtain ⟨l, hlead, hle, hentries, hlast⟩ := hsim.lead
  have hprevle : args.prevlogindex ≤ l.length := by
    unfold AppendEntriesArgs.lastIndex at hle
    omega
  have hagree := h.agree_prev hindexed hterm hprev hlead hprevle hlast
  obtain ⟨l', hinv₁, hagree', hlong, htake, hsplice⟩ :=
    h.spliced hfacts hsent hterm hprev hclean hlead hle hentries hagree
  have hcur : s.cur p ≤ args.term := hnode.cur.trans_le hterm
  set s₁ := s.move p args.term l' (s.base p) (s.commit p) with hs₁
  have hext₁ : State.Extends LogEntry.logterm s s₁ := State.extends_move hcur
  have hlog₁ : s₁.log p = l' := by simp [hs₁, State.move]
  have hbase₁ : s₁.base p = s.base p := by simp [hs₁, State.move]
  have hcommit₁ : s₁.commit p = (c.nodes p).commitIndex := by simp [hs₁, State.move, hnode.commit]
  have hcur₁ : s₁.cur p = args.term := by simp [hs₁, State.move]
  -- the node learns what is committed
  have hold := (hinv₁.node p).fixed
  rw [hlog₁, hcur₁, hcommit₁] at hold
  have hfixed := fixed_followerCommit hinv₁ (hsim.grow hext₁) hlead hold hagree'
  have hcommitle : (c.nodes p).commitIndex ≤ (c.nodes p).followerCommit args ∧
      (c.nodes p).followerCommit args ≤ l'.length := by
    have hlen := hnode.getLastLogIndex_eq hinv hindexed
    have hcommit := (hfacts.ordered.node p).commit_le
    have hend := hagree'.le_left
    unfold AppendEntriesArgs.lastIndex at hend
    unfold followerCommit
    split_ifs <;> omega
  have hbaseCommit : s.base p ≤ (c.nodes p).commitIndex := hnode.commit ▸ hinv.base_le
  set s₂ := s₁.move p args.term l' (s.base p) ((c.nodes p).followerCommit args) with hs₂
  have hinv₂ : s₂.Inv LogEntry.logterm := by
    have hkeep := hinv₁.keep (t := args.term) (b := s.base p) hcur₁.le (by rw [hlog₁]; exact hfixed)
      hbase₁.le (hbaseCommit.trans hcommitle.1) (by rw [hlog₁]; exact hcommitle.2)
    rwa [hlog₁] at hkeep
  have hext₂ : State.Extends LogEntry.logterm s s₂ := hext₁.trans (State.extends_move hcur₁.le)
  have hlog₂ : s₂.log p = l' := by simp [hs₂, State.move]
  have hcur₂ : s₂.cur p = args.term := by simp [hs₂, State.move]
  have hlead₂ : s₂.lead args.term = some l := hlead
  have hapart₂ : State.Apart p s s₂ := State.apart_move.trans State.apart_move
  have hnode₂ : NodeSim s₂ p rf := by
    refine ⟨?_, ?_, ?_, ?_, ?_⟩
    · rw [hcur₂, hrf]
      simp only [joinTerm, raiseTerm_currentTerm]
      omega
    · simp [hs₂, State.move, hrf, joinTerm, hnode.base]
    · simp [hs₂, State.move, hrf]
    · rw [hlog₂, hrf]
      simpa [joinTerm] using hsplice
    · rw [hlog₂, hrf]
      simp only [joinTerm, raiseTerm_lastSnapshotIncludeIndex, raiseTerm_lastSnapshotIncludeTerm]
      rw [htake, hnode.snapTerm]
  -- it acknowledges the end of the request, if nothing behind it is committed
  have hagree₂ : Agree args.lastIndex (s₂.log p) l := by rwa [hlog₂]
  obtain ⟨s', hinv', hext', hapart', hnode', hlead', hvote', hack⟩ :=
    exists_ackSim hinv₂ hnode₂ hcur₂ hlead₂ hagree₂
  have hsame : s'.lead = s.lead := hlead'
  refine ⟨s', h.step_of_node hfacts hstep (p := p) ?_ (hapart₂.trans hapart') hinv'
    (hext₂.trans hext') ?_ ?_ ?_ ?_ ?_ ?_ ?_⟩
  · exact fun q hq ↦ Function.update_of_ne hq _ _
  · simpa using hnode'
  · refine ⟨fun hleader ↦ ?_, fun hnone ↦ ?_⟩
    · simp [hrf, joinTerm] at hleader
    · have hself : ((c.setNode p rf).setHeartBeat i beat (b.setSender p (.appendEntries
          (.replied args ⟨args.term, true, 0, .appNormal⟩)))).nodes p = rf := by simp
      rw [hself, ← hnode₂.cur, hcur₂, hsame, hlead] at hnone
      cases hnone
  · exact h.election.frame (.of_elections rfl fun _ _ ↦ Iff.rfl) hvote' fun _ ↦ by rw [hsame]
  · exact fun _ _ _ hv ↦ hv
  · exact fun _ _ _ ↦ by rw [hsame]
  · intro j beat' q call reply ha hq hreply _
    cases ha
    rw [sender_replied hbeat] at hq
    cases Option.some.inj hq
    exact hack
  · exact fun _ _ hmsg ↦ .inl hmsg

end appendEntries

/-! ## Committing -/

/-- A peer acknowledges more than the program sees it do. -/
theorem Sim.addAck (h : Sim c s) (hfacts : c.Facts) {u m : ℕ}
    (hinv : (s.addAck p u m).Inv LogEntry.logterm) : Sim c (s.addAck p u m) := by
  refine h.step_of_node hfacts (p := p) (.idle (.getApplyLogs p)) (fun _ _ ↦ rfl) ?_ hinv
    State.extends_addAck ((h.node p).congr rfl rfl rfl rfl) ?_ ?_ (fun _ _ _ hv ↦ hv)
    (fun _ _ _ ↦ rfl) (fun _ _ _ _ _ ha ↦ by cases ha) fun _ _ hmsg ↦ .inl hmsg
  · exact .of_eq rfl rfl rfl rfl rfl
  · exact RoleSim.frame h hfacts.elections State.extends_addAck (fun hl ↦ ⟨hl, rfl⟩) le_rfl
      (fun _ hv ↦ hv) rfl rfl fun _ ↦ rfl
  · exact h.election.frame (.of_elections rfl fun _ _ ↦ Iff.rfl) rfl fun _ ↦ Iff.rfl

/-- A majority that has taken a request over commits its end. -/
theorem Sim.committed (h : Sim c s) (hfacts : c.Facts) {i p : Fin n} {beat : ℕ}
    {b : HeartBeat n} {args : AppendEntriesArgs n} {reply : AppendEntriesReply}
    (hbeat : (c.heartBeats i)[beat]? = some b)
    (hcall : b.senders p = some (.appendEntries (.replied args reply)))
    (hterm : reply.term = (c.nodes i).currentTerm) (hstatus : (c.nodes i).status = .leader)
    (hsuccess : reply.success = true) (hmany : 1 + n / 2 ≤ b.appendNums + 1)
    (hlast : args.entries.getLast?.map LogEntry.logterm = some (c.nodes i).currentTerm) :
    ∃ s', Sim c s' ∧ s'.log i = s.log i ∧
      s'.Fixed (c.nodes i).currentTerm args.lastIndex (s'.log i) := by
  have hsender : c.sender i beat p = some (.appendEntries (.replied args reply)) := by
    simp [sender, hbeat, hcall]
  have hargs : args.term = (c.nodes i).currentTerm := by
    rw [← hterm]
    exact (hfacts.replies i beat p _ reply hsender rfl hsuccess).symm
  have hlead : s.lead args.term = some (s.log i) := by
    rw [hargs]
    exact (h.role i).leader hstatus
  -- the request ends in an entry of the term
  have hends : EndsIn LogEntry.logterm args.term args.lastIndex (s.log i) := by
    have hsim := h.message.appends i beat p _ hsender
    simp only [Call.args] at hsim
    obtain ⟨l, hl, -, hentries, -⟩ := hsim.lead
    rw [hlead] at hl
    cases Option.some.inj hl
    obtain ⟨log, hlog, hlogterm⟩ := Option.map_eq_some_iff.mp hlast
    rw [List.getLast?_eq_getElem?] at hlog
    have hlt := (List.getElem?_eq_some_iff.mp hlog).1
    rw [hentries _ hlt] at hlog
    refine ⟨_, log, ?_, hlog, hlogterm.trans hargs.symm⟩
    simp only [AppendEntriesArgs.lastIndex]
    omega
  -- the peers that have replied with success
  obtain ⟨term', index', last', hend⟩ := hfacts.same i beat
  obtain ⟨hterm', hindex', -⟩ := hend p _ hsender
  have hpeer : ∀ q ∈ insert p (tally b.senders Sender.counted), q ≠ i ∧
      (s.ack q args.term args.lastIndex ∨
        ∃ m, args.lastIndex ≤ m ∧ s.Committed args.term m) := by
    intro q hq
    obtain ⟨call, reply', hq, hreply, hsucc⟩ : ∃ call reply',
        c.sender i beat q = some (.appendEntries call) ∧ call.reply = some reply' ∧
          reply'.success = true := by
      rcases Finset.mem_insert.mp hq with rfl | hq
      · exact ⟨_, reply, hsender, rfl, hsuccess⟩
      · obtain ⟨t, ht, hcounted⟩ := mem_tally.mp hq
        obtain ⟨args', reply', rfl, hsuccess'⟩ := Sender.counted_eq_true hcounted
        exact ⟨.returned args' reply', reply', by simp [sender, hbeat, ht], rfl, hsuccess'⟩
    obtain ⟨hq1, hq2, -⟩ := hend q call hq
    have hack := h.message.acks i beat q call reply' hq hreply hsucc (s.log i)
    rw [hq1, hq2, ← hterm', ← hindex'] at hack
    exact ⟨(hfacts.led.elected i beat q call hq).1, hack hlead hends⟩
  have hfixed : ∀ {s' : Logs n} {m : ℕ}, s'.lead = s.lead → s'.log = s.log →
      args.lastIndex ≤ m → s'.Committed args.term m →
      s'.Fixed (c.nodes i).currentTerm args.lastIndex (s'.log i) := by
    intro s' m hlead' hlog' hm hcommitted
    rw [hlog']
    exact .inr ⟨args.term, m, s.log i, hargs.le, hm, hcommitted, by rw [hlead', hlead],
      .refl hends.le_length⟩
  by_cases hmore : ∃ m, args.lastIndex ≤ m ∧ s.Committed args.term m
  · obtain ⟨m, hm, hcommitted⟩ := hmore
    exact ⟨s, h, rfl, hfixed rfl rfl hm hcommitted⟩
  · have hcur : s.cur i = args.term := (h.node i).cur.trans hargs.symm
    have hself : Agree args.lastIndex (s.log i) (s.log i) := .refl hends.le_length
    have hlater := (h.inv.le_lastTerm_or hcur hends hself).resolve_right hmore
    have hinv' := h.inv.addAck hcur hlead hends hself hlater
    refine ⟨s.addAck i args.term args.lastIndex, h.addAck hfacts hinv', rfl,
      hfixed rfl rfl le_rfl ⟨insert i (insert p (tally b.senders Sender.counted)), ?_, ?_⟩⟩
    · have hnew : p ∉ tally b.senders Sender.counted := by
        rw [mem_tally]
        rintro ⟨t, ht, hcounted⟩
        rw [hcall] at ht
        cases Option.some.inj ht
        cases hcounted
      have hnot : i ∉ insert p (tally b.senders Sender.counted) := fun hi ↦ (hpeer i hi).1 rfl
      have hcount := hfacts.counts i beat b hbeat
      rw [Majority, Fintype.card_fin, Finset.card_insert_of_notMem hnot,
        Finset.card_insert_of_notMem hnew]
      omega
    · intro q hq
      rcases Finset.mem_insert.mp hq with rfl | hq
      · exact .inr ⟨rfl, rfl, rfl⟩
      · exact .inl ((hpeer q hq).2.resolve_right hmore)

/-! ## Installing a snapshot -/

theorem Sim.installed (h : Sim c s) (hfacts : c.Facts) (hstep : Step c a c')
    {args : InstallSnapshotRequest n} {ps : Storage.Persister}
    (hrf : rf = { (c.nodes p).joinTerm args.term with
      logs := (c.nodes p).logs.drop
        (args.lastsnapshotincludeindex - (c.nodes p).lastSnapshotIncludeIndex)
      commitIndex := max (c.nodes p).commitIndex args.lastsnapshotincludeindex
      lastApplied := max (c.nodes p).lastApplied args.lastsnapshotincludeindex
      lastSnapshotIncludeIndex := args.lastsnapshotincludeindex
      lastSnapshotIncludeTerm := args.lastsnapshotincludeterm
      persister := ps })
    (hsim : SnapSim s args) (hterm : (c.nodes p).currentTerm ≤ args.term)
    (hindex : (c.nodes p).lastSnapshotIncludeIndex < args.lastsnapshotincludeindex)
    (hnodes : c'.nodes = Function.update c.nodes p rf) (hquiet : Quiet s c a c') :
    ∃ s', Sim c' s' := by
  have hnode := h.node p
  rcases hsim with hzero | ⟨k, m, lc, hk, hm, hle, hcommitted, hlc, hlast⟩
  · omega
  have hcur : s.cur p ≤ args.term := hnode.cur.trans_le hterm
  have hcurrent : rf.currentTerm = args.term := by
    rw [hrf]
    simp only [joinTerm, raiseTerm_currentTerm]
    omega
  have hinv' := h.inv.install hcur hk hcommitted hlc hm (hnode.base.trans_le hindex.le)
  have hlen : (lc.take args.lastsnapshotincludeindex).length = args.lastsnapshotincludeindex := by
    simp [hle]
  refine ⟨_, h.move hfacts hstep hnodes hquiet hcur hinv' ?_ fun hext hself ↦ ?_⟩
  · refine ⟨?_, ?_, ?_, ?_, ?_⟩
    · simp [State.move, hcurrent]
    · simp [State.move, hrf]
    · simp [State.move, hrf, hnode.commit]
    · have hdrop : (c.nodes p).lastSnapshotIncludeIndex +
          (args.lastsnapshotincludeindex - (c.nodes p).lastSnapshotIncludeIndex) =
            args.lastsnapshotincludeindex := by omega
      simp only [State.move, Function.update_self, hrf]
      rw [List.drop_append_of_le_length hlen.ge, List.drop_eq_nil_of_le hlen.le, hnode.logs,
        List.drop_drop, hdrop, List.nil_append]
    · simp only [State.move, Function.update_self, hrf]
      rw [List.take_append_of_le_length hlen.ge, List.take_take, Nat.min_self, hlast]
  · refine ⟨fun hleader ↦ ?_, fun hnone hv l hl ↦ ?_⟩
    · rw [hself, hrf] at hleader
      simp [joinTerm] at hleader
    · rw [hself, hcurrent] at hnone hv hl ⊢
      change s.lead args.term = none at hnone
      have hv := (hquiet.votes.voted p _ p).mp hv
      have hterm' : (c.nodes p).currentTerm = args.term :=
        le_antisymm hterm (hfacts.elections.voted p _ p hv).1
      rw [← hterm'] at hnone hv hl ⊢
      rcases (h.role p).candidate hnone hv l hl with hlog | hmisses
      · -- the snapshot is a part of the log that was voted for, or that log misses it
        by_cases hagree : Agree m l lc
        · refine .inl ?_
          simp only [State.move, Function.update_self]
          rw [hlog, ← (hagree.mono hm).take_eq, List.take_append_drop]
        · refine .inr (Misses.grow h.inv hext ⟨k, m, lc, ?_, hcommitted, hlc, hagree⟩)
          refine lt_of_le_of_ne (hterm' ▸ hk) ?_
          rintro rfl
          rw [hlc] at hnone
          cases hnone
      · exact .inr (hmisses.grow h.inv hext)

/-! ## Every step -/

section steps

variable {i : Fin n} {beat : ℕ}

theorem Sim.exit (h : Sim c s) (i : Fin n) : Sim (c.exit i) s where
  inv := h.inv
  node := h.node
  role := fun p ↦ ⟨(h.role p).leader, (h.role p).candidate⟩
  election := ⟨h.election.elected, h.election.votes, h.election.voters, h.election.ballots⟩
  message := ⟨h.message.appends, h.message.acks, h.message.snaps, h.message.emits⟩

/-- A node joins the term of a request that it does not take over. -/
theorem Sim.keep_joined (h : Sim c s) (hfacts : c.Facts) (hstep : Step c a c') {term : ℕ}
    {ps : Storage.Persister} (hnodes : c'.nodes = Function.update c.nodes p
      { (c.nodes p).joinTerm term with persister := ps })
    (hquiet : Quiet s c a c') : ∃ s', Sim c' s' := by
  apply h.keep_same hfacts hstep hnodes hquiet
  · exact fun hl ↦ by cases hl
  · simp [joinTerm, raiseTerm_currentTerm]
  · simp [joinTerm]
  · simp [joinTerm]
  · simp [joinTerm]
  · simp [joinTerm]

theorem Sim.requestVote (h : Sim c s) (hfacts : c.Facts) {term : ℕ} {e : Election n}
    {args : RequestVoteArgs n} {reply : RequestVoteReply} (he : c.elections i term = some e)
    (hcall : e.calls p = some (.sent args))
    (hout : RequestVoteOutcome (c.nodes p) args rf reply)
    (hstep : Step c (.requestVote i term p)
      ((c.setNode p rf).setElection i term (e.setCall p (.replied args reply)))) :
    ∃ s', Sim ((c.setNode p rf).setElection i term (e.setCall p (.replied args reply))) s' := by
  -- a reply that does not grant the vote
  have hrefused : reply.votegranted = false → Quiet s c (.requestVote i term p)
      ((c.setNode p rf).setElection i term (e.setCall p (.replied args reply))) := by
    intro hnot
    refine .of_votes (by simp) (.setCall he hcall rfl (by simp [Call.reply]) ?_) rfl
    intro reply' hr hg
    cases Option.some.inj hr
    rw [hnot] at hg
    cases hg
  cases hout with
  | expire ps hterm =>
      exact h.keep_same hfacts hstep rfl (hrefused rfl) (fun hl ↦ ⟨hl, rfl⟩) le_rfl rfl rfl rfl rfl
  | refused ps hterm =>
      exact h.keep_same hfacts hstep rfl (hrefused rfl) (leads_raiseTerm args.term)
        (by simp [raiseTerm_currentTerm]) (by simp) (by simp) (by simp) (by simp)
  | granted ps hterm hlog hfree =>
      exact h.requestVote_granted hfacts he hcall hterm hlog rfl hstep

theorem Sim.sendRequestVote (h : Sim c s) (hfacts : c.Facts) {term votedNum : ℕ}
    {e : Election n} {args : RequestVoteArgs n} {reply : RequestVoteReply} {elected : Bool}
    (he : c.elections i term = some e) (hcall : e.calls p = some (.replied args reply))
    (hout : SendRequestVoteOutcome (c.nodes i) reply e.votedNum rf votedNum elected)
    (hstep : Step c (.sendRequestVote i term p) (((c.setNode i rf).setElection i term
      { e.setCall p (.returned args reply) with votedNum := votedNum }).record
        (if elected then [.elected i rf.currentTerm] else []))) :
    ∃ s', Sim (((c.setNode i rf).setElection i term
      { e.setCall p (.returned args reply) with votedNum := votedNum }).record
        (if elected then [.elected i rf.currentTerm] else [])) s' := by
  have hsame : SameVotes c ((c.setNode i rf).setElection i term
      { e.setCall p (.returned args reply) with votedNum := votedNum }) :=
    .setCall he hcall rfl (fun _ hr ↦ hr) fun _ hr _ ↦ hr
  have hquiet : Quiet s c (.sendRequestVote i term p) (((c.setNode i rf).setElection i term
      { e.setCall p (.returned args reply) with votedNum := votedNum }).record []) :=
    .of_votes (by simp) ⟨fun _ _ ↦ by simp [Elected], hsame.voted, hsame.calls⟩
      (List.append_nil _)
  cases hout with
  | higher ps hterm =>
      exact h.keep_same hfacts hstep rfl hquiet (fun hl ↦ by cases hl) hterm.le rfl rfl rfl rfl
  | ignored =>
      exact h.keep_same hfacts hstep rfl hquiet (fun hl ↦ ⟨hl, rfl⟩) le_rfl rfl rfl rfl rfl
  | counted hterm hgranted hfew =>
      exact h.keep_same hfacts hstep rfl hquiet (fun hl ↦ ⟨hl, rfl⟩) le_rfl rfl rfl rfl rfl
  | won ps hterm hgranted hmany hstatus =>
      have hcurrent : (c.nodes i).currentTerm = term := by
        rw [← hterm]
        exact hfacts.elections.reply i term p (.replied args reply) reply
          (by simp [voteCall, he, hcall]) rfl hgranted
      exact h.sendRequestVote_won hfacts he hcall hcurrent hcurrent
        (fun _ hnode ↦ ⟨hnode.cur, hnode.base, hnode.commit, hnode.logs, hnode.snapTerm⟩) hstep

theorem Sim.appendEntries1 (h : Sim c s) (hfacts : c.Facts) {b : HeartBeat n}
    {args : AppendEntriesArgs n} {reply : AppendEntriesReply}
    (hbeat : (c.heartBeats i)[beat]? = some b)
    (hcall : b.senders p = some (.appendEntries (.sent args)))
    (hout : AppendEntriesOutcome (c.nodes p) args rf reply)
    (hclean : ¬ (c.nodes p).LeavesStaleTail args)
    (hstep : Step c (.appendEntries1 i beat p) ((c.setNode p rf).setHeartBeat i beat
      (b.setSender p (.appendEntries (.replied args reply))))) :
    ∃ s', Sim ((c.setNode p rf).setHeartBeat i beat
      (b.setSender p (.appendEntries (.replied args reply)))) s' := by
  -- a reply that does not report success
  have hfailed : reply.success = false → Quiet s c (.appendEntries1 i beat p)
      ((c.setNode p rf).setHeartBeat i beat
        (b.setSender p (.appendEntries (.replied args reply)))) := by
    intro hnot
    refine ⟨.of_elections rfl fun _ _ ↦ Iff.rfl, ?_, fun _ _ hmsg ↦ .inl hmsg⟩
    intro j beat' q call reply' ha hq hreply hsuccess
    cases ha
    rw [sender_replied hbeat] at hq
    cases Option.some.inj hq
    cases Option.some.inj hreply
    rw [hnot] at hsuccess
    cases hsuccess
  cases hout with
  | stale hterm =>
      exact h.keep_same hfacts hstep rfl (hfailed rfl) (fun hl ↦ ⟨hl, rfl⟩) le_rfl rfl rfl rfl rfl
  | short ps hterm hlast => exact h.keep_joined hfacts hstep rfl (hfailed rfl)
  | mismatched ps hterm found hint hprev hne hle hone =>
      exact h.keep_joined hfacts hstep rfl (hfailed rfl)
  | matched ps hterm hprev hcommand =>
      exact h.appendEntries1_matched hfacts hbeat hcall hterm hprev hclean rfl hstep

theorem Sim.sendAppendEntries (h : Sim c s) (hfacts : c.Facts) {b : HeartBeat n}
    {args : AppendEntriesArgs n} {reply : AppendEntriesReply} {appendNums : ℕ}
    (hbeat : (c.heartBeats i)[beat]? = some b)
    (hcall : b.senders p = some (.appendEntries (.replied args reply)))
    (hout : SendAppendEntriesOutcome (c.nodes i) p args reply b.appendNums rf appendNums)
    (hstep : Step c (.sendAppendEntries i beat p) ((c.setNode i rf).setHeartBeat i beat
      { b.setSender p (.appendEntries (.returned args reply)) with appendNums := appendNums })) :
    ∃ s', Sim ((c.setNode i rf).setHeartBeat i beat
      { b.setSender p (.appendEntries (.returned args reply)) with appendNums := appendNums })
        s' := by
  have hquiet : ∀ s : Logs n, Quiet s c (.sendAppendEntries i beat p)
      ((c.setNode i rf).setHeartBeat i beat { b.setSender p (.appendEntries (.returned args reply))
        with appendNums := appendNums }) := fun _ ↦ .of_elections (by simp) rfl rfl
  cases hout with
  | ignored =>
      exact h.keep_same hfacts hstep rfl (hquiet s) (fun hl ↦ ⟨hl, rfl⟩) le_rfl rfl rfl rfl rfl
  | higher hterm =>
      exact h.keep_same hfacts hstep rfl (hquiet s) (fun hl ↦ by cases hl) hterm.le rfl rfl rfl rfl
  | rejected =>
      exact h.keep_same hfacts hstep rfl (hquiet s) (fun hl ↦ ⟨hl, rfl⟩) le_rfl rfl rfl rfl rfl
  | counted =>
      exact h.keep_same hfacts hstep rfl (hquiet s) (fun hl ↦ ⟨hl, rfl⟩) le_rfl rfl rfl rfl rfl
  | majority =>
      exact h.keep_same hfacts hstep rfl (hquiet s) (fun hl ↦ ⟨hl, rfl⟩) le_rfl rfl rfl rfl rfl
  | committed hterm hstatus hsuccess hmany hlast hcommit =>
      obtain ⟨s', h', hlog, hfixed⟩ :=
        h.committed hfacts hbeat hcall hterm hstatus hsuccess hmany hlast
      have hnode := h'.node i
      have hinv := h'.inv.node i
      have hlen := hnode.getLastLogIndex_eq hinv (hfacts.ordered.node i).indexed
      refine h'.keep hfacts hstep rfl (hquiet s') (fun hl ↦ ⟨hl, rfl⟩) le_rfl le_rfl ?_ ?_ ?_
        hnode.logs hnode.snapTerm
      · have hsnap := hinv.base_le
        rw [hnode.base, hnode.commit] at hsnap
        exact hsnap.trans (le_max_left _ _)
      · have hold := hinv.fixed
        rw [hnode.cur, hnode.commit] at hold
        rcases max_choice (c.nodes i).commitIndex (args.prevlogindex + args.entries.length)
          with heq | heq
        · exact heq.symm ▸ hold
        · exact heq.symm ▸ hfixed
      · exact hcommit.trans hlen.le

theorem Sim.leaderSendSnapShotReply (h : Sim c s) (hfacts : c.Facts) (hstep : Step c a c')
    {args : InstallSnapshotRequest n} {reply : InstallSnapshotResponse}
    (hout : LeaderSendSnapShotReplyOutcome (c.nodes i) p args reply rf)
    (hnodes : c'.nodes = Function.update c.nodes i rf) (hquiet : Quiet s c a c') :
    ∃ s', Sim c' s' := by
  cases hout with
  | ignored =>
      exact h.keep_same hfacts hstep hnodes hquiet (fun hl ↦ ⟨hl, rfl⟩) le_rfl rfl rfl rfl rfl
  | higher ps hterm =>
      exact h.keep_same hfacts hstep hnodes hquiet (fun hl ↦ by cases hl) hterm.le rfl rfl rfl rfl
  | matched =>
      exact h.keep_same hfacts hstep hnodes hquiet (fun hl ↦ ⟨hl, rfl⟩) le_rfl rfl rfl rfl rfl

/-- What is handed out is committed. -/
theorem Sim.emitSim (h : Sim c s) {index : ℕ} {log : LogEntry} {msg : ApplyMsg}
    (hpos : 0 < index) (hle : index ≤ (c.nodes i).commitIndex)
    (hlog : (c.nodes i).entryAt index = some log)
    (hmsg : msg = { commandValid := true, command := log.command, commandIndex := (index : ℕ) }) :
    EmitSim s msg := by
  obtain ⟨k, rfl⟩ : ∃ k, index = k + 1 := ⟨index - 1, by omega⟩
  have hget := ((h.node i).entryAt_eq hlog).2
  have hfixed := (h.inv.node i).fixed
  rw [(h.node i).commit] at hfixed
  rcases hfixed with hzero | ⟨t, m, lc, -, hm, hcommitted, hlc, hagree⟩
  · omega
  · refine ⟨t, m, lc, k, log, hcommitted, hlc, by omega, ?_, by rw [hmsg], by rw [hmsg]⟩
    rw [← hagree.getElem? k (by omega), hget]

theorem Sim.emitted (h : Sim c s) {msgs : List ApplyMsg} {j : Fin n} {msg : ApplyMsg}
    (hmsgs : List.Forall₂ (fun index msg ↦ ∃ log, (c.nodes i).entryAt index = some log ∧
        msg = { commandValid := true, command := log.command, commandIndex := (index : ℕ) })
      (List.range' ((c.nodes i).lastApplied + 1)
        ((c.nodes i).commitIndex - (c.nodes i).lastApplied)) msgs)
    (hmsg : .emitted j msg ∈ msgs.map (Event.emitted i)) : EmitSim s msg := by
  have hmem : msg ∈ msgs := by
    obtain ⟨msg', hmsg', heq⟩ := List.mem_map.mp hmsg
    cases heq
    exact hmsg'
  obtain ⟨k, hk⟩ := List.mem_iff_get.mp hmem
  have hlen := hmsgs.length_eq
  obtain ⟨log, hlog, heq⟩ := List.forall₂_iff_get.mp hmsgs |>.2 k (by omega) k.isLt
  simp only [List.get_eq_getElem, List.getElem_range'] at hlog heq
  rw [List.length_range'] at hlen
  apply h.emitSim (i := i) (by omega) (by omega) hlog
  rw [← hk]
  exact heq

theorem Sim.step (h : Sim c s) (hfacts : c.Facts) (hstep : Step c a c')
    (hclean : c.NoStaleTail a) : ∃ s', Sim c' s' := by
  cases hstep with
  | idle => exact ⟨s, h⟩
  | exit a i => exact ⟨s, h.exit i⟩
  | doElection i ps hstatus => exact h.doElection hfacts (.doElection i ps hstatus)
  | requestVote i term p e args rf reply he hcall hout =>
      exact h.requestVote hfacts he hcall hout (.requestVote i term p e args rf reply he hcall hout)
  | sendRequestVote i term p e args reply rf votedNum elected he hcall hout =>
      exact h.sendRequestVote hfacts he hcall hout
        (.sendRequestVote i term p e args reply rf votedNum elected he hcall hout)
  | start i command log ps hstatus hlog =>
      exact h.start hfacts hstatus (by rw [hlog]) (.start i command log ps hstatus hlog)
  | doHeartBeat i senders hstatus hsenders =>
      exact h.keep_same (p := i) hfacts (.doHeartBeat i senders hstatus hsenders)
        (Function.update_eq_self i c.nodes).symm (.of_elections (by simp) rfl rfl)
        (fun hl ↦ ⟨hl, rfl⟩) le_rfl rfl rfl rfl rfl
  | appendEntries1 i beat p b args rf reply hbeat hcall hout =>
      have hrequest : (p, args) ∈ c.request (.appendEntries1 i beat p) := by
        simp [request, sender, hbeat, hcall]
      exact h.appendEntries1 hfacts hbeat hcall hout (hclean _ hrequest)
        (.appendEntries1 i beat p b args rf reply hbeat hcall hout)
  | sendAppendEntries i beat p b args reply rf appendNums hbeat hcall hout =>
      exact h.sendAppendEntries hfacts hbeat hcall hout
        (.sendAppendEntries i beat p b args reply rf appendNums hbeat hcall hout)
  | leaderSendSnapShot i beat p b args ps hbeat hcall hterm hindex hsnap =>
      exact h.keep_same hfacts
        (.leaderSendSnapShot i beat p b args ps hbeat hcall hterm hindex hsnap) rfl
        (.of_elections (by simp) rfl rfl) (fun hl ↦ ⟨hl, rfl⟩) le_rfl rfl rfl rfl rfl
  | installSnapshot i beat p b args rf reply hbeat hcall hout =>
      have hstep := Step.installSnapshot i beat p b args rf reply hbeat hcall hout
      have hquiet : Quiet s c (.installSnapshot i beat p) ((c.setNode p rf).setHeartBeat i beat
          (b.setSender p (.snapShot (some (.replied args reply))))) :=
        .of_elections (by simp) rfl rfl
      cases hout with
      | stale hterm =>
          exact h.keep_same hfacts hstep rfl hquiet (fun hl ↦ ⟨hl, rfl⟩) le_rfl rfl rfl rfl rfl
      | outdated ps hterm hindex => exact h.keep_joined hfacts hstep rfl hquiet
      | installed ps hterm hindex =>
          have hsim := h.message.snaps i beat p (.sent args) (by simp [sender, hbeat, hcall])
          exact h.installed hfacts hstep rfl hsim hterm hindex rfl hquiet
  | disconnect i beat p b call hbeat hcall =>
      exact h.keep_same (p := i) hfacts (.disconnect i beat p b call hbeat hcall)
        (Function.update_eq_self i c.nodes).symm (.of_elections (by simp) rfl rfl)
        (fun hl ↦ ⟨hl, rfl⟩) le_rfl rfl rfl rfl rfl
  | leaderSendSnapShotReply i beat p b args reply rf hbeat hcall hout =>
      exact h.leaderSendSnapShotReply hfacts
        (.leaderSendSnapShotReply i beat p b args reply rf hbeat hcall hout) hout rfl
        (.of_elections (by simp) rfl rfl)
  | snapshot i index data log ps hlt hle hlog =>
      have hnode := h.node i
      have hinv := h.inv.node i
      obtain ⟨k, rfl⟩ : ∃ k, index = k + 1 := ⟨index - 1, by omega⟩
      refine h.keep hfacts (.snapshot i (k + 1) data log ps hlt hle hlog) rfl
        (.of_elections (by simp) rfl rfl) (fun hl ↦ ⟨hl, rfl⟩) le_rfl hlt.le hle ?_ ?_ ?_ ?_
      · exact hnode.commit ▸ hnode.cur ▸ hinv.fixed
      · exact hnode.commit ▸ hinv.commit_le
      · dsimp only
        rw [hnode.logs, List.drop_drop]
        congr 1
        omega
      · exact lastTerm_take_succ (hnode.entryAt_eq hlog).2
  | getApplyLogs i msgs hmsgs =>
      refine h.keep_same hfacts (.getApplyLogs i msgs hmsgs) rfl
        ⟨.of_elections rfl fun _ _ ↦ by simp [Elected], ?_, ?_⟩ (fun hl ↦ ⟨hl, rfl⟩) le_rfl rfl rfl
        rfl rfl
      · exact fun _ _ _ _ _ ha ↦ by cases ha
      · exact fun j msg hmsg ↦ (List.mem_append.mp hmsg).imp_right (h.emitted hmsgs)

end steps

/-! ## Every run -/

section runs

theorem sim_init : ∃ s, Sim (init : Cluster n) s := by
  refine ⟨⟨fun _ ↦ 0, fun _ ↦ [], fun _ ↦ 0, fun _ ↦ 0, fun _ _ ↦ none, fun _ ↦ none,
    fun _ _ _ ↦ False⟩, ?_, ?_, ?_, ?_, ?_⟩
  · refine ⟨fun p ↦ ⟨.inl rfl, le_rfl, le_rfl, ?_⟩, ?_, ?_, ?_, ?_⟩
    · intro k e _ hk
      simp at hk
    · exact fun _ _ hl ↦ by cases hl
    · exact fun _ _ _ hl ↦ by cases hl
    · exact fun _ _ _ hm ↦ hm.elim
    · exact fun _ _ _ _ _ hl ↦ by cases hl
  · exact fun p ↦ ⟨rfl, rfl, rfl, rfl, rfl⟩
  · refine fun p ↦ ⟨?_, ?_⟩
    · simp [Cluster.init, Node.fresh]
    · exact fun _ _ _ hl ↦ by cases hl
  · refine ⟨?_, ?_, ?_, ?_⟩
    · simp [Cluster.init, Elected]
    · simp [Cluster.init, Voted, voteCall]
    · exact fun _ _ _ hl ↦ by cases hl
    · simp [Cluster.init, voteCall]
  · refine ⟨?_, ?_, ?_, ?_⟩
    · simp [Cluster.init, sender]
    · simp [Cluster.init, sender]
    · simp [Cluster.init, sender]
    · simp [Cluster.init]

variable [TextArchive (BoostPersistRaftNode n)]

/-- Every run without a stale tail is a run of the replicated logs. -/
theorem sim_run (as : List (Action n)) (h : Runs.Along Cluster.step NoStaleTail init as) :
    ∃ s, Sim (run as) s := by
  refine Runs.invariant_of_step_along Cluster.step (P := fun _ c ↦ ∃ s, Sim c s) sim_init ?_ as h
  rintro as a ⟨s, hs⟩ hclean
  exact hs.step (facts_run as) ((ordered_run as).step_spec a) hclean

/-- In every run whose requests leave no stale tail, all nodes hand out the
same command at an index. -/
theorem Cluster.state_machine_safety (as : List (Action n))
    (hclean : Runs.Along Cluster.step NoStaleTail init as) {i j : Fin n} {msg msg' : ApplyMsg}
    (hi : .emitted i msg ∈ (run as).history) (hj : .emitted j msg' ∈ (run as).history)
    (hindex : msg.commandIndex = msg'.commandIndex) : msg.command = msg'.command := by
  obtain ⟨s, h⟩ := sim_run as hclean
  obtain ⟨t, m, lc, k, log, hc, hlc, hk, hlog, hmsg, hcommand⟩ := h.message.emits i msg hi
  obtain ⟨t', m', lc', k', log', hc', hlc', hk', hlog', hmsg', hcommand'⟩ :=
    h.message.emits j msg' hj
  have hkk : k = k' := by
    rw [hmsg, hmsg'] at hindex
    omega
  subst hkk
  have hsame := h.inv.committed_agree hc hlc hc' hlc' hk hk'
  rw [hlog, hlog'] at hsame
  rw [hcommand, hcommand', Option.some.inj hsame]

/-- In every run whose requests leave no stale tail, two logs with an entry of
the same index and term have the same entries at the indices below it that both
store. -/
theorem Cluster.log_matching (as : List (Action n))
    (hclean : Runs.Along Cluster.step NoStaleTail init as) {i j : Fin n} {log log' : LogEntry}
    (hi : log ∈ ((run as).nodes i).logs) (hj : log' ∈ ((run as).nodes j).logs)
    (hindex : log.logindex = log'.logindex) (hterm : log.logterm = log'.logterm)
    {e e' : LogEntry} (he : e ∈ ((run as).nodes i).logs) (he' : e' ∈ ((run as).nodes j).logs)
    (hlt : e.logindex < log.logindex) (hsame : e.logindex = e'.logindex) : e = e' := by
  obtain ⟨s, h⟩ := sim_run as hclean
  have hord := ordered_run as
  -- a stored entry as a position of the whole log
  have hget : ∀ {q : Fin n} {log : LogEntry}, log ∈ ((run as).nodes q).logs →
      ∃ k, log.logindex = k + 1 ∧ s.base q ≤ k ∧ (s.log q)[k]? = some log := by
    intro q log hlog
    have hentry := (hord.node q).indexed.entryAt_logindex hlog
    have hpos := ((hord.node q).indexed.entryAt_isSome.mp ⟨log, hentry⟩).1
    obtain ⟨k, hk⟩ : ∃ k, log.logindex = k + 1 := ⟨log.logindex - 1, by omega⟩
    rw [hk] at hentry
    obtain ⟨hbase, hstored⟩ := (h.node q).entryAt_eq hentry
    exact ⟨k, hk, (h.node q).base.trans_le hbase, hstored⟩
  obtain ⟨k, hk, hbk, hlog⟩ := hget hi
  obtain ⟨k', hk', hbk', hlog'⟩ := hget hj
  obtain ⟨m, hm, hbm, hem⟩ := hget he
  obtain ⟨m', hm', hbm', hem'⟩ := hget he'
  -- both logs follow the leader of the term from their snapshots on
  obtain ⟨-, lw, hlw, hfollows⟩ := (h.inv.node i).stored k log hbk hlog
  obtain ⟨-, lw', hlw', hfollows'⟩ := (h.inv.node j).stored k' log' hbk' hlog'
  rw [← hterm, hlw] at hlw'
  cases Option.some.inj hlw'
  have hmm : m = m' := by omega
  subst hmm
  rw [hfollows m hbm (by omega)] at hem
  rw [hfollows' m hbm' (by omega), hem] at hem'
  exact Option.some.inj hem'

end runs

namespace Cluster

section stale

open scoped Archive

/-- Two entries of a leader reach a peer; then they are committed and handed
out on both. -/
def cleanRun (i p : Fin n) : List (Action n) :=
  [.doElection i, .requestVote i 1 p, .sendRequestVote i 1 p, .start i "x", .start i "y",
    .doHeartBeat i, .appendEntries1 i 0 p, .sendAppendEntries i 0 p, .getApplyLogs i,
    .doHeartBeat i, .appendEntries1 i 1 p, .getApplyLogs p]

theorem state_machine_safety_in_cleanRun :
    Event.emitted 0 { commandValid := true, command := "x", commandIndex := 1 } ∈
      (run (cleanRun (0 : Fin 3) 1)).history ∧
    Event.emitted 1 { commandValid := true, command := "x", commandIndex := 1 } ∈
      (run (cleanRun (0 : Fin 3) 1)).history ∧ "x" = "x" :=
  have hi : Event.emitted 0 { commandValid := true, command := "x", commandIndex := 1 } ∈
      (run (cleanRun (0 : Fin 3) 1)).history := by decide +kernel
  have hj : Event.emitted 1 { commandValid := true, command := "x", commandIndex := 1 } ∈
      (run (cleanRun (0 : Fin 3) 1)).history := by decide +kernel
  ⟨hi, hj, state_machine_safety (cleanRun 0 1) (by decide +kernel) hi hj rfl⟩

theorem log_matching_in_cleanRun :
    LogEntry.mk "y" 1 2 ∈ ((run (cleanRun (0 : Fin 3) 1)).nodes 0).logs ∧
    LogEntry.mk "y" 1 2 ∈ ((run (cleanRun (0 : Fin 3) 1)).nodes 1).logs ∧
    LogEntry.mk "x" 1 1 = LogEntry.mk "x" 1 1 :=
  have hi : LogEntry.mk "y" 1 2 ∈ ((run (cleanRun (0 : Fin 3) 1)).nodes 0).logs := by
    decide +kernel
  have hj : LogEntry.mk "y" 1 2 ∈ ((run (cleanRun (0 : Fin 3) 1)).nodes 1).logs := by
    decide +kernel
  ⟨hi, hj, log_matching (cleanRun 0 1) (by decide +kernel) hi hj rfl rfl
    (by decide +kernel) (by decide +kernel) (by decide) rfl⟩

/-- Node 0 leads term 1 with the entries `x` and `y`, which node 2 has too.
Node 1 leads term 2 with the entry `z` and sends it to node 0, where it
replaces `x` and leaves `y` behind. -/
def staleTailRun : List (Action 5) :=
  [.doElection 0, .requestVote 0 1 2, .sendRequestVote 0 1 2, .requestVote 0 1 3,
    .sendRequestVote 0 1 3, .start 0 "x", .start 0 "y", .doHeartBeat 0, .appendEntries1 0 0 2,
    .doElection 1, .doElection 1, .requestVote 1 2 3, .sendRequestVote 1 2 3,
    .requestVote 1 2 4, .sendRequestVote 1 2 4, .start 1 "z", .doHeartBeat 1,
    .appendEntries1 1 0 0]

def divergence : List (Action 5) :=
  [.appendEntries1 1 0 3, .sendAppendEntries 1 0 0, .sendAppendEntries 1 0 3, .getApplyLogs 1,
    .doElection 2, .doElection 2, .requestVote 2 3 0, .sendRequestVote 2 3 0, .requestVote 2 3 4,
    .sendRequestVote 2 3 4, .start 2 "w", .doHeartBeat 2, .appendEntries1 2 0 0,
    .sendAppendEntries 2 0 0, .appendEntries1 2 0 4, .sendAppendEntries 2 0 4, .doHeartBeat 2,
    .appendEntries1 2 1 0, .appendEntries1 2 1 4, .sendAppendEntries 2 1 0,
    .sendAppendEntries 2 1 4, .getApplyLogs 2]

/-- Node 1 commits `z` on the nodes 0, 1 and 3 and hands it out.  Node 2 wins
term 3 with the votes of the nodes 0 and 4: the stale entry `y` makes the log of
node 0 look as old as its own.  It brings its entries to a majority and hands
out `x`. -/
def divergedRun : List (Action 5) :=
  staleTailRun ++ divergence

theorem state_machine_safety_fails_in_divergedRun :
    ∃ msg msg', Event.emitted 1 msg ∈ (run divergedRun).history ∧
      Event.emitted 2 msg' ∈ (run divergedRun).history ∧
      msg.commandIndex = msg'.commandIndex ∧ msg.command ≠ msg'.command := by
  refine ⟨{ commandValid := true, command := "z", commandIndex := 1 },
    { commandValid := true, command := "x", commandIndex := 1 }, ?_, ?_, rfl, by decide⟩
  · decide +kernel
  · decide +kernel

theorem log_matching_fails_in_staleTailRun :
    ∃ log ∈ ((run staleTailRun).nodes 0).logs, ∃ log' ∈ ((run staleTailRun).nodes 2).logs,
      log.logindex = log'.logindex ∧ log.logterm = log'.logterm ∧
      ∃ e ∈ ((run staleTailRun).nodes 0).logs, ∃ e' ∈ ((run staleTailRun).nodes 2).logs,
        e.logindex < log.logindex ∧ e.logindex = e'.logindex ∧ e ≠ e' := by
  refine ⟨⟨"y", 1, 2⟩, by decide +kernel, ⟨"y", 1, 2⟩, by decide +kernel, rfl, rfl,
    ⟨"z", 2, 1⟩, by decide +kernel, ⟨"x", 1, 1⟩, by decide +kernel, by decide, rfl, by decide⟩

end stale

end Cluster

end HttpRaftKv.Raft
