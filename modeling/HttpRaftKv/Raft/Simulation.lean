import HttpRaftKv.Raft.Refinement

/-!
# Every step is simulated

Each step of a reachable cluster that leaves no stale tail is matched by steps
of the replicated logs.  Most steps only move one node that keeps its log.  A
started election and a granted vote cast a vote, a win fixes the log of the
leader, `Start` extends it, `AppendEntries1` takes a part of it over and
acknowledges it, and the reply that completes a majority commits it.
-/

namespace HttpRaftKv.Raft

open Replication Node Cluster

variable {n : ℕ}

/-- What is known of every reachable cluster. -/
structure Cluster.Facts (c : Cluster n) : Prop where
  ordered : c.Ordered
  elections : c.Elections
  originated : c.Originated
  led : c.Led
  same : ∀ i beat, ∃ term index last, c.SameEnd i beat term index last
  counts : c.Counts
  replies : ∀ i beat p call reply, c.sender i beat p = some (.appendEntries call) →
    call.reply = some reply → reply.success = true → reply.term = call.args.term

theorem Cluster.facts_run [TextArchive (BoostPersistRaftNode n)] (as : List (Action n)) :
    (run as).Facts where
  ordered := ordered_run as
  elections := elections_run as
  originated := originated_run as
  led := led_run as
  same := (acknowledged_run as).same
  counts := (acknowledged_run as).counted
  replies := fun i beat p call reply hcall hreply hsuccess ↦
    ((acknowledged_run as).acked i beat p call reply hcall hreply hsuccess).1

variable {c c' : Cluster n} {a : Action n} {s s' : Logs n} {p : Fin n} {rf : Node n}

section parts

theorem NodeSim.congr (h : NodeSim s p rf) (hcur : s'.cur p = s.cur p) (hlog : s'.log p = s.log p)
    (hbase : s'.base p = s.base p) (hcommit : s'.commit p = s.commit p) : NodeSim s' p rf where
  cur := hcur.trans h.cur
  base := hbase.trans h.base
  commit := hcommit.trans h.commit
  logs := by rw [hlog, h.logs]
  snapTerm := by rw [hlog, h.snapTerm]

/-- The node `p` has moved to the log `l`. -/
theorem NodeSim.move (rf : Node n) {l : List LogEntry}
    (hlogs : rf.logs = l.drop rf.lastSnapshotIncludeIndex)
    (hsnap : lastLogTerm (l.take rf.lastSnapshotIncludeIndex) = rf.lastSnapshotIncludeTerm) :
    NodeSim (s.move p rf.currentTerm l rf.lastSnapshotIncludeIndex rf.commitIndex) p rf where
  cur := by simp [State.move]
  base := by simp [State.move]
  commit := by simp [State.move]
  logs := by simpa [State.move] using hlogs
  snapTerm := by simpa [State.move] using hsnap

/-- What a step of the node `p` has to show, the other nodes being as before. -/
theorem Sim.step_of_node (h : Sim c s) (hfacts : c.Facts) (hstep : Step c a c')
    (hnodes : ∀ q, q ≠ p → c'.nodes q = c.nodes q) (hapart : State.Apart p s s')
    (hinv : s'.Inv LogEntry.logterm) (hext : State.Extends LogEntry.logterm s s')
    (hnode : NodeSim s' p (c'.nodes p)) (hrole : RoleSim c' s' p) (helection : ElectionSim c' s')
    (hvoted : ∀ q, q ≠ p → ∀ u, c'.Voted q u q → c.Voted q u q)
    (hlead : ∀ q, q ≠ p → (c.nodes q).status = .leader →
      s'.lead (c.nodes q).currentTerm = s.lead (c.nodes q).currentTerm)
    (hack : ∀ i beat q call reply, a = .appendEntries1 i beat q →
      c'.sender i beat q = some (.appendEntries call) → call.reply = some reply →
      reply.success = true → AckSim s' q call.args)
    (hemit : ∀ i msg, .emitted i msg ∈ c'.history →
      .emitted i msg ∈ c.history ∨ EmitSim s' msg) : Sim c' s' where
  inv := hinv
  node := by
    intro q
    by_cases hq : q = p
    · exact hq ▸ hnode
    · rw [hnodes q hq]
      exact (h.node q).congr (hapart.cur q hq) (hapart.log q hq) (hapart.base q hq)
        (hapart.commit q hq)
  role := by
    intro q
    by_cases hq : q = p
    · exact hq ▸ hrole
    · refine RoleSim.frame h hfacts.elections hext ?_ ?_ (hvoted q hq) (hapart.log q hq)
        (hapart.vote q hq) (hlead q hq)
      · rw [hnodes q hq]
        exact fun hleader ↦ ⟨hleader, rfl⟩
      · rw [hnodes q hq]
  election := helection
  message := MessageSim.step h hfacts.ordered hstep hext hack hemit

end parts

/-! ## Steps that keep the log -/

section keep

/-- A step that gives no vote and acknowledges no request, and that hands out
only what is committed. -/
structure Quiet (s : Logs n) (c : Cluster n) (a : Action n) (c' : Cluster n) : Prop where
  votes : SameVotes c c'
  acks : ∀ i beat q call reply, a = .appendEntries1 i beat q →
    c'.sender i beat q = some (.appendEntries call) → call.reply = some reply →
    reply.success ≠ true
  emits : ∀ i msg, .emitted i msg ∈ c'.history → .emitted i msg ∈ c.history ∨ EmitSim s msg

theorem Quiet.of_votes (ha : ∀ i beat q, a ≠ .appendEntries1 i beat q) (hvotes : SameVotes c c')
    (hhistory : c'.history = c.history) : Quiet s c a c' where
  votes := hvotes
  acks := fun i beat q _ _ heq ↦ absurd heq (ha i beat q)
  emits := fun _ _ hmsg ↦ .inl (hhistory ▸ hmsg)

theorem Quiet.of_elections (ha : ∀ i beat q, a ≠ .appendEntries1 i beat q)
    (helections : c'.elections = c.elections) (hhistory : c'.history = c.history) :
    Quiet s c a c' := by
  refine .of_votes ha (.of_elections helections fun i u ↦ ?_) hhistory
  rw [Elected, Elected, hhistory]

/-- A quiet step moves a node to another term and another log. -/
theorem Sim.move (h : Sim c s) (hfacts : c.Facts) (hstep : Step c a c')
    (hnodes : c'.nodes = Function.update c.nodes p rf) (hquiet : Quiet s c a c') {term : ℕ}
    {l : List LogEntry} {base commit : ℕ} (hcur : s.cur p ≤ term)
    (hinv : (s.move p term l base commit).Inv LogEntry.logterm)
    (hnode : NodeSim (s.move p term l base commit) p rf)
    (hrole : State.Extends LogEntry.logterm s (s.move p term l base commit) →
      c'.nodes p = rf → RoleSim c' (s.move p term l base commit) p) :
    Sim c' (s.move p term l base commit) := by
  have hself : c'.nodes p = rf := by rw [hnodes, Function.update_self]
  have hext : State.Extends LogEntry.logterm s (s.move p term l base commit) :=
    State.extends_move hcur
  refine h.step_of_node hfacts hstep (p := p) ?_ State.apart_move hinv hext (hself ▸ hnode)
    (hrole hext hself) ?_ ?_ ?_ ?_ ?_
  · exact fun q hq ↦ by rw [hnodes, Function.update_of_ne hq]
  · exact h.election.frame hquiet.votes rfl fun _ ↦ Iff.rfl
  · exact fun q _ u ↦ (hquiet.votes.voted q u q).mp
  · exact fun _ _ _ ↦ rfl
  · exact fun i beat q call reply ha hcall hreply hsuccess ↦
      absurd hsuccess (hquiet.acks i beat q call reply ha hcall hreply)
  · exact fun i msg hmsg ↦ (hquiet.emits i msg hmsg).imp_right (EmitSim.grow hext)

/-- A node keeps its log.  It may raise its term, compact what it has committed
and learn that more is committed. -/
theorem Sim.keep (h : Sim c s) (hfacts : c.Facts) (hstep : Step c a c')
    (hnodes : c'.nodes = Function.update c.nodes p rf) (hquiet : Quiet s c a c')
    (hleads : (c.nodes p).Leads rf) (hterm : (c.nodes p).currentTerm ≤ rf.currentTerm)
    (hbase : (c.nodes p).lastSnapshotIncludeIndex ≤ rf.lastSnapshotIncludeIndex)
    (hsnap : rf.lastSnapshotIncludeIndex ≤ rf.commitIndex)
    (hfixed : s.Fixed rf.currentTerm rf.commitIndex (s.log p))
    (hcommit : rf.commitIndex ≤ (s.log p).length)
    (hlogs : rf.logs = (s.log p).drop rf.lastSnapshotIncludeIndex)
    (hsnapTerm : lastLogTerm ((s.log p).take rf.lastSnapshotIncludeIndex) =
      rf.lastSnapshotIncludeTerm) : ∃ s', Sim c' s' := by
  have hcur : s.cur p ≤ rf.currentTerm := (h.node p).cur.trans_le hterm
  have hinv := h.inv.keep hcur hfixed ((h.node p).base.trans_le hbase) hsnap hcommit
  refine ⟨_, h.move hfacts hstep hnodes hquiet hcur hinv (.move rf hlogs hsnapTerm) ?_⟩
  intro hext hself
  refine RoleSim.frame h hfacts.elections hext ?_ ?_ (fun u ↦ (hquiet.votes.voted p u p).mp) ?_
    rfl fun _ ↦ rfl
  · rwa [hself]
  · rwa [hself]
  · simp [State.move]

/-- A node keeps its log and everything it knows about it. -/
theorem Sim.keep_same (h : Sim c s) (hfacts : c.Facts) (hstep : Step c a c')
    (hnodes : c'.nodes = Function.update c.nodes p rf) (hquiet : Quiet s c a c')
    (hleads : (c.nodes p).Leads rf) (hterm : (c.nodes p).currentTerm ≤ rf.currentTerm)
    (hlogs : rf.logs = (c.nodes p).logs)
    (hsnap : rf.lastSnapshotIncludeIndex = (c.nodes p).lastSnapshotIncludeIndex)
    (hsnapTerm : rf.lastSnapshotIncludeTerm = (c.nodes p).lastSnapshotIncludeTerm)
    (hcommit : rf.commitIndex = (c.nodes p).commitIndex) : ∃ s', Sim c' s' := by
  have hnode := h.node p
  have hinv := h.inv.node p
  refine h.keep hfacts hstep hnodes hquiet hleads hterm hsnap.ge ?_ ?_ ?_ ?_ ?_
  · rw [hsnap, hcommit, ← hnode.base, ← hnode.commit]
    exact hinv.base_le
  · rw [hcommit, ← hnode.commit]
    exact hinv.fixed.mono (hnode.cur.trans_le hterm) le_rfl
  · rw [hcommit, ← hnode.commit]
    exact hinv.commit_le
  · rw [hlogs, hsnap, hnode.logs]
  · rw [hsnap, hsnapTerm, hnode.snapTerm]

end keep

/-! ## Elections -/

section elections

/-- The log that a node has voted for, as the vote remembers it. -/
theorem Sim.voteLog (h : Sim c s) (p : Fin n) : ∃ t b, t < s.cur p + 1 ∧ b ≤ (s.log p).length ∧
    s.Stored LogEntry.logterm t b (s.log p) ∧ s.Fixed t b (s.log p) := by
  have hinv := h.inv.node p
  exact ⟨s.cur p, s.base p, Nat.lt_succ_self _, hinv.base_le.trans hinv.commit_le, hinv.stored,
    hinv.fixed.mono le_rfl hinv.base_le⟩

/-- A node that only raises its term. -/
theorem Sim.inv_raise (h : Sim c s) {t : ℕ} (ht : (c.nodes p).currentTerm ≤ t) :
    (s.move p t (s.log p) (c.nodes p).lastSnapshotIncludeIndex (c.nodes p).commitIndex).Inv
      LogEntry.logterm := by
  have hnode := h.node p
  have hinv := h.inv.node p
  have hcur : s.cur p ≤ t := hnode.cur.trans_le ht
  refine h.inv.keep hcur ?_ hnode.base.le ?_ ?_
  · rw [← hnode.commit]
    exact hinv.fixed.mono hcur le_rfl
  · rw [← hnode.base, ← hnode.commit]
    exact hinv.base_le
  · rw [← hnode.commit]
    exact hinv.commit_le

/-- A vote is cast, be it that of a candidate for itself or one that is granted to it. -/
theorem ElectionSim.castVote (h : ElectionSim c s) {s₁ : Logs n} {i : Fin n} {term : ℕ}
    {l : List LogEntry} (hlead : s₁.lead = s.lead) (hvote : s₁.vote = s.vote)
    (hext : State.Extends LogEntry.logterm s (s₁.castVote p term l))
    (helected : ∀ j u, c'.Elected j u ↔ c.Elected j u)
    (hvoted : ∀ {j q : Fin n} {u : ℕ},
      c'.Voted j u q ↔ c.Voted j u q ∨ j = i ∧ u = term ∧ q = p)
    (hcandidate : s.lead term = none → (s₁.castVote p term l).vote i term = some l)
    (hcalls : ∀ j u q call, c'.voteCall j u q = some call → c.voteCall j u q = some call ∨
      (j = i ∧ u = term) ∧ (s.lead term = none →
        call.args.lastlogindex = l.length ∧ call.args.lastlogterm = lastLogTerm l)) :
    ElectionSim c' (s₁.castVote p term l) := by
  have hlead' : (s₁.castVote p term l).lead = s.lead := State.castVote_lead.trans hlead
  refine ⟨?_, ?_, ?_, ?_⟩
  · intro u
    rw [hlead', ← h.elected u]
    exact exists_congr fun j ↦ helected j u
  · intro j u q hnone hv
    rw [hlead'] at hnone
    rcases hvoted.mp hv with hold | ⟨rfl, rfl, rfl⟩
    · obtain ⟨l', hj, hq⟩ := h.votes j u q hnone hold
      exact ⟨l', hext.vote _ _ _ hj, hext.vote _ _ _ hq⟩
    · exact ⟨l, hcandidate hnone, State.castVote_self (by rw [hlead]; exact hnone)⟩
  · intro q u l' hl'
    rcases State.castVote_eq_some hl' with hold | ⟨-, rfl, rfl, -⟩
    · rw [hvote] at hold
      obtain ⟨j, hj⟩ := h.voters q u l' hold
      exact ⟨j, hvoted.mpr (.inl hj)⟩
    · exact ⟨i, hvoted.mpr (.inr ⟨rfl, rfl, rfl⟩)⟩
  · intro j u q call hnone hcall
    rw [hlead'] at hnone
    rcases hcalls j u q call hcall with hold | ⟨⟨rfl, rfl⟩, hargs⟩
    · obtain ⟨l', hl', hlen, hlast⟩ := h.ballots j u q call hnone hold
      exact ⟨l', hext.vote _ _ _ hl', hlen, hlast⟩
    · exact ⟨l, hcandidate hnone, hargs hnone⟩

theorem Sim.doElection (h : Sim c s) (hfacts : c.Facts) {i : Fin n} {ps : Storage.Persister}
    (hstep : Step c (.doElection i) ((c.setNode i ((c.nodes i).campaign i ps)).setElection i
      ((c.nodes i).currentTerm + 1) (.opened i ((c.nodes i).ballot i)))) :
    ∃ s', Sim ((c.setNode i ((c.nodes i).campaign i ps)).setElection i
      ((c.nodes i).currentTerm + 1) (.opened i ((c.nodes i).ballot i))) s' := by
  have hnode := h.node i
  have hinv := h.inv.node i
  set u := (c.nodes i).currentTerm + 1 with hu
  set s₁ := s.move i u (s.log i) (c.nodes i).lastSnapshotIncludeIndex (c.nodes i).commitIndex
    with hs₁
  have hinv₁ : s₁.Inv LogEntry.logterm := h.inv_raise (Nat.le_succ _)
  have hext₁ : State.Extends LogEntry.logterm s s₁ :=
    State.extends_move (hnode.cur.trans_le (Nat.le_succ _))
  have hlog : s₁.log i = s.log i := by simp [hs₁, State.move]
  -- a vote in the new term would have raised the term before
  have hfree : s.vote i u = none := by
    rw [Option.eq_none_iff_forall_ne_some]
    intro l hl
    have := (h.inv.voted i u l hl).le_cur
    rw [hnode.cur] at this
    omega
  have hext₂ : State.Extends LogEntry.logterm s₁ (s₁.castVote i u (s.log i)) :=
    State.extends_castVote fun _ ↦ hfree
  have hext := hext₁.trans hext₂
  have hnone : c.elections i u = none := by
    rw [Option.eq_none_iff_forall_ne_some]
    intro e he
    have := (hfacts.elections.voted i u i (.inl ⟨rfl, e, he⟩)).1
    omega
  refine ⟨s₁.castVote i u (s.log i), h.step_of_node hfacts hstep (p := i) ?_
    (State.apart_move.trans State.apart_castVote) ?_ hext ?_ ?_ ?_ ?_ ?_ ?_ ?_⟩
  · exact fun q hq ↦ Function.update_of_ne hq _ _
  · refine hinv₁.castVote fun hlead ↦ hinv₁.addVote ?_ hlead hfree ?_ (.inr ⟨by rw [hlog], ?_⟩)
    · simp [hs₁, State.move]
    · obtain ⟨t, b, ht, hb, hstored, hfixed⟩ := h.voteLog i
      rw [hnode.cur] at ht
      exact ⟨t, b, ht, hb, hstored.grow hext₁ le_rfl, hfixed.grow hext₁ le_rfl⟩
    · rw [hlog]
  · have hmoved : NodeSim s₁ i ((c.nodes i).campaign i ps) :=
      .move ((c.nodes i).campaign i ps) hnode.logs hnode.snapTerm
    simp only [setElection_nodes, setNode_nodes, Function.update_self]
    exact hmoved.congr (by simp) (by simp) (by simp) (by simp)
  · refine ⟨?_, ?_⟩
    · simp [campaign]
    · simp only [setElection_nodes, setNode_nodes, Function.update_self, campaign, ← hu]
      intro hlead _ l hl
      rcases State.castVote_eq_some hl with hold | ⟨-, -, -, rfl⟩
      · rw [show s₁.vote = s.vote from rfl, hfree] at hold
        cases hold
      · exact .inl (by simpa using hlog)
  · refine h.election.castVote (i := i) rfl rfl hext (fun _ _ ↦ Iff.rfl) (voted_opened hnone)
      (fun hlead ↦ State.castVote_self hlead) ?_
    intro j w q call hcall
    rcases voteCall_opened hcall with hold | ⟨⟨rfl, rfl, -⟩, rfl⟩
    · exact .inl hold
    · exact .inr ⟨⟨rfl, rfl⟩, fun _ ↦
        ⟨hnode.getLastLogIndex_eq hinv (hfacts.ordered.node j).indexed,
          hnode.getLastLogTerm_eq hinv⟩⟩
  · intro q hq w hvoted
    rcases (voted_opened hnone).mp hvoted with hold | ⟨rfl, -, -⟩
    · exact hold
    · exact absurd rfl hq
  · exact fun _ _ _ ↦ by simp [hs₁, State.move]
  · exact fun _ _ _ _ _ ha ↦ by cases ha
  · exact fun _ _ hmsg ↦ .inl hmsg

/-- A node whose only call of a term is open has not voted in this term. -/
theorem ElectionSim.vote_eq_none (h : ElectionSim c s) {i : Fin n} {term : ℕ}
    {args : RequestVoteArgs n} (hsent : c.voteCall i term p = some (.sent args)) (hne : p ≠ i)
    (honly : ∀ j, c.Voted j term p → j = i) : s.vote p term = none := by
  rw [Option.eq_none_iff_forall_ne_some]
  intro l hl
  obtain ⟨j, hj⟩ := h.voters p term l hl
  have hji := honly j hj
  subst hji
  rcases hj with ⟨hpi, -⟩ | ⟨call, reply, hcall, hreply, -⟩
  · exact hne hpi
  · rw [hsent] at hcall
    cases Option.some.inj hcall
    cases hreply

theorem Sim.requestVote_granted (h : Sim c s) (hfacts : c.Facts) {i p : Fin n} {term : ℕ}
    {e : Election n} {args : RequestVoteArgs n} {ps : Storage.Persister}
    (he : c.elections i term = some e) (hcall : e.calls p = some (.sent args))
    (hterm : (c.nodes p).currentTerm ≤ args.term)
    (hlog : (c.nodes p).upToDate args.lastlogindex args.lastlogterm = true)
    (hrf : rf = { (c.nodes p).raiseTerm args.term with
      votedFor := some args.candidateid, persister := ps })
    (hstep : Step c (.requestVote i term p) ((c.setNode p rf).setElection i term
      (e.setCall p (.replied args ⟨args.term, true, .normal⟩)))) :
    ∃ s', Sim ((c.setNode p rf).setElection i term
      (e.setCall p (.replied args ⟨args.term, true, .normal⟩))) s' := by
  have hnode := h.node p
  have hinv := h.inv.node p
  obtain ⟨hargs, -, hne⟩ := hfacts.elections.request_self he hcall
  simp only [Call.args] at hargs
  have hcurrent : rf.currentTerm = term := by
    rw [hrf]
    simp only [raiseTerm_currentTerm]
    omega
  have hsent : c.voteCall i term p = some (.sent args) := by simp [voteCall, he, hcall]
  set c' := (c.setNode p rf).setElection i term
    (e.setCall p (.replied args ⟨args.term, true, .normal⟩)) with hc'
  have hvoted : ∀ {j q : Fin n} {u : ℕ},
      c'.Voted j u q ↔ c.Voted j u q ∨ j = i ∧ u = term ∧ q = p := by
    intro j q u
    have hiff : c'.Voted j u q ↔ _ := voted_setCall he hcall (by simp [Call.reply])
    rw [hiff]
    exact or_congr_right (and_iff_left ⟨_, rfl, rfl⟩)
  have hcalls : ∀ j u q, c'.voteCall j u q = _ := voteCall_setCall he
  have hnew : c'.Voted i term p := hvoted.mpr (.inr ⟨rfl, rfl, rfl⟩)
  have helections' := hfacts.elections.step hfacts.ordered hstep
  -- the log that the candidate has asked the vote for
  obtain ⟨l, hballot⟩ : ∃ l, s.lead term = none → s.vote i term = some l ∧
      args.lastlogindex = l.length ∧ args.lastlogterm = lastLogTerm l := by
    by_cases hlead : s.lead term = none
    · obtain ⟨l, hl⟩ := h.election.ballots i term p _ hlead hsent
      exact ⟨l, fun _ ↦ hl⟩
    · exact ⟨[], fun hlead' ↦ absurd hlead' hlead⟩
  have hfree : s.vote p term = none := by
    refine h.election.vote_eq_none hsent hne fun j hj ↦ ?_
    exact helections'.unique j i term p (hvoted.mpr (.inl hj)) hnew
  set s₁ := s.move p term (s.log p) (c.nodes p).lastSnapshotIncludeIndex (c.nodes p).commitIndex
    with hs₁
  have hinv₁ : s₁.Inv LogEntry.logterm := h.inv_raise (hargs ▸ hterm)
  have hext₁ : State.Extends LogEntry.logterm s s₁ :=
    State.extends_move (hnode.cur.trans_le (hargs ▸ hterm))
  have hlog₁ : s₁.log p = s.log p := by simp [hs₁, State.move]
  have hext : State.Extends LogEntry.logterm s (s₁.castVote p term l) :=
    hext₁.trans (State.extends_castVote fun _ ↦ hfree)
  refine ⟨s₁.castVote p term l, h.step_of_node hfacts hstep (p := p) ?_
    (State.apart_move.trans State.apart_castVote) ?_ hext ?_ ?_ ?_ ?_ ?_ ?_ ?_⟩
  · exact fun q hq ↦ Function.update_of_ne hq _ _
  · refine hinv₁.castVote fun hlead ↦ ?_
    obtain ⟨hvote, hlen, hlast⟩ := hballot hlead
    refine hinv₁.addVote ?_ hlead hfree ((h.inv.voted i term l hvote).grow hext₁).log ?_
    · simp [hs₁, State.move]
    · rw [hlen, hlast] at hlog
      rw [hlog₁]
      exact hnode.upToDate_eq hinv (hfacts.ordered.node p).indexed hlog
  · have hmoved : NodeSim s₁ p rf := by
      have hsim : NodeSim (s.move p rf.currentTerm (s.log p) rf.lastSnapshotIncludeIndex
          rf.commitIndex) p rf := .move rf (by simpa [hrf] using hnode.logs)
        (by simpa [hrf] using hnode.snapTerm)
      rw [hcurrent] at hsim
      simpa [hrf] using hsim
    simp only [hc', setElection_nodes, setNode_nodes, Function.update_self]
    exact hmoved.congr (by simp) (by simp) (by simp) (by simp)
  · have hself : c'.nodes p = rf := by simp [hc']
    refine ⟨?_, ?_⟩
    · intro hleader
      have hleads : (c.nodes p).Leads rf := by
        rw [hrf]
        exact leads_raiseTerm args.term
      rw [hself] at hleader ⊢
      obtain ⟨hstatus, hsame⟩ := hleads hleader
      rw [hsame, State.castVote_lead, State.castVote_log, hlog₁]
      exact (h.role p).leader hstatus
    · -- the vote of this term is not for the node itself
      intro _ hv
      rw [hself, hcurrent] at hv
      exact absurd (helections'.unique p i term p hv hnew) hne
  · refine h.election.castVote (i := i) rfl rfl hext (fun _ _ ↦ Iff.rfl) hvoted
      (fun hlead ↦ hext.vote _ _ _ (hballot hlead).1) ?_
    intro j w q call hq
    rw [hcalls] at hq
    split_ifs at hq with hsame
    · cases Option.some.inj hq
      exact .inr ⟨⟨hsame.1, hsame.2.1⟩, fun hlead ↦ (hballot hlead).2⟩
    · exact .inl hq
  · intro q hq w hv
    rcases hvoted.mp hv with hold | ⟨-, -, rfl⟩
    · exact hold
    · exact absurd rfl hq
  · exact fun _ _ _ ↦ by simp [hs₁, State.move]
  · exact fun _ _ _ _ _ ha ↦ by cases ha
  · exact fun _ _ hmsg ↦ .inl hmsg

/-- A call moves on, and no vote is given by it. -/
theorem SameVotes.setCall {i p k : Fin n} {term votedNum : ℕ} {e : Election n}
    {call₀ call : Call (RequestVoteArgs n) RequestVoteReply} (he : c.elections i term = some e)
    (hcall : e.calls p = some call₀) (hargs : call₀.args = call.args)
    (hreply : ∀ reply, call₀.reply = some reply → call.reply = some reply)
    (hvote : ∀ reply, call.reply = some reply → reply.votegranted = true →
      call₀.reply = some reply) :
    SameVotes c ((c.setNode k rf).setElection i term
      { e.setCall p call with votedNum := votedNum }) := by
  have hold : c.voteCall i term p = some call₀ := by simp [voteCall, he, hcall]
  refine ⟨fun _ _ ↦ Iff.rfl, fun j u q ↦ ?_, fun j u q call' hq ↦ ?_⟩
  · refine (voted_setCall he hcall hreply).trans (or_iff_left_of_imp ?_)
    rintro ⟨⟨rfl, rfl, rfl⟩, reply, hr, hg⟩
    exact .inr ⟨call₀, reply, hold, hvote reply hr hg, hg⟩
  · rw [voteCall_setCall he] at hq
    split_ifs at hq with hsame
    · obtain ⟨rfl, rfl, rfl⟩ := hsame
      cases Option.some.inj hq
      exact ⟨call₀, hold, hargs⟩
    · exact ⟨call', hq, rfl⟩

/-- A term that nobody has won has no leader. -/
theorem ElectionSim.lead_eq_none (h : ElectionSim c s) {term : ℕ} (hnot : ∀ j, ¬ c.Elected j term) :
    s.lead term = none := by
  rw [Option.eq_none_iff_forall_ne_some]
  intro l hl
  obtain ⟨j, hj⟩ := (h.elected term).mpr ⟨l, hl⟩
  exact hnot j hj

/-- A majority that has voted for a candidate has chosen its log. -/
theorem ElectionSim.chosen (h : ElectionSim c s) {i : Fin n} {term : ℕ} {l : List LogEntry}
    {q : Finset (Fin n)} (hnone : s.lead term = none) (hl : s.vote i term = some l)
    (hq : Majority q) (hall : ∀ v ∈ q, c.Voted i term v) : s.Chosen term l := by
  refine ⟨q, hq, fun v hv ↦ ?_⟩
  obtain ⟨l', hl', hlv⟩ := h.votes i term v hnone (hall v hv)
  rw [hl] at hl'
  cases Option.some.inj hl'
  exact hlv

/-- The log that was chosen is that of the candidate, since it misses nothing committed. -/
theorem Sim.log_eq_of_chosen (h : Sim c s) {i : Fin n} {l : List LogEntry}
    (hnone : s.lead (c.nodes i).currentTerm = none)
    (hself : c.Voted i (c.nodes i).currentTerm i)
    (hl : s.vote i (c.nodes i).currentTerm = some l)
    (hchosen : s.Chosen (c.nodes i).currentTerm l) : s.log i = l := by
  rcases (h.role i).candidate hnone hself l hl with hsame | hmisses
  · exact hsame
  · obtain ⟨k, m, lc, hk, hcommitted, hlc, hnot⟩ := hmisses
    have hagree := h.inv.chosen_complete (h.inv.completeBelow _) hchosen hk hcommitted hlc
    exact absurd hagree hnot

theorem Sim.sendRequestVote_won (h : Sim c s) (hfacts : c.Facts) {i p : Fin n} {term : ℕ}
    {e : Election n} {args : RequestVoteArgs n} {reply : RequestVoteReply} {votedNum : ℕ}
    (he : c.elections i term = some e) (hcall : e.calls p = some (.replied args reply))
    (hterm : (c.nodes i).currentTerm = term) (hrf : rf.currentTerm = term)
    (hsim : ∀ s' : Logs n, NodeSim s' i (c.nodes i) → NodeSim s' i rf)
    (hstep : Step c (.sendRequestVote i term p) (((c.setNode i rf).setElection i term
      { e.setCall p (.returned args reply) with votedNum := votedNum }).record
        [.elected i rf.currentTerm])) :
    ∃ s', Sim (((c.setNode i rf).setElection i term
      { e.setCall p (.returned args reply) with votedNum := votedNum }).record
        [.elected i rf.currentTerm]) s' := by
  set c' := ((c.setNode i rf).setElection i term
    { e.setCall p (.returned args reply) with votedNum := votedNum }).record
      [.elected i rf.currentTerm] with hc'
  have hsame : SameVotes c ((c.setNode i rf).setElection i term
      { e.setCall p (.returned args reply) with votedNum := votedNum }) :=
    .setCall he hcall rfl (fun _ hr ↦ hr) fun _ hr _ ↦ hr
  have hvoted : ∀ {j q : Fin n} {u : ℕ}, c'.Voted j u q ↔ c.Voted j u q := hsame.voted _ _ _
  have helections' := hfacts.elections.step hfacts.ordered hstep
  have hhistory : c'.history = c.history ++ [.elected i term] := by simp [hc', hrf]
  have hwon : c'.Elected i term := by simp [Elected, hhistory]
  have helected : ∀ j u, c'.Elected j u ↔ c.Elected j u ∨ j = i ∧ u = term := by
    intro j u
    simp [Elected, hhistory]
  -- the term has no leader yet
  have hnone : s.lead term = none := by
    refine h.election.lead_eq_none fun j hj ↦ ?_
    have hji := helections'.elected_unique ((helected j term).mpr (.inl hj)) hwon
    subst hji
    have honce := helections'.once j term
    have hpos := List.count_pos_iff.mpr hj
    rw [hhistory, List.count_append, List.count_singleton_self] at honce
    omega
  have hself₀ : c.Voted i term i := .inl ⟨rfl, e, he⟩
  obtain ⟨l, hl, -⟩ := h.election.votes i term i hnone hself₀
  have hchosen : s.Chosen term l := by
    obtain ⟨q, hq, -, hall⟩ := helections'.majority i term hwon
    exact h.election.chosen hnone hl hq fun v hv ↦ hvoted.mp (hall v hv)
  have hlog : s.log i = l := by
    rw [← hterm] at hnone hself₀ hl hchosen
    exact h.log_eq_of_chosen hnone hself₀ hl hchosen
  have hext : State.Extends LogEntry.logterm s (s.setLead term l) := State.extends_win hnone
  have hself : c'.nodes i = rf := by simp [hc']
  refine ⟨s.setLead term l, h.step_of_node hfacts hstep (p := i) ?_ ?_
    (h.inv.win hnone hchosen) hext ?_ ?_ ?_ ?_ ?_ ?_ ?_⟩
  · exact fun q hq ↦ Function.update_of_ne hq _ _
  · exact .of_eq rfl rfl rfl rfl rfl
  · rw [hself]
    exact hsim _ ((h.node i).congr rfl rfl rfl rfl)
  · refine ⟨fun _ ↦ ?_, fun hlead ↦ ?_⟩
    · rw [hself, hrf]
      exact State.setLead_eq_some.mpr (.inl ⟨rfl, hlog⟩)
    · rw [hself, hrf, State.setLead_eq_some.mpr (.inl ⟨rfl, rfl⟩)] at hlead
      cases hlead
  · have hlead : ∀ {u}, (s.setLead term l).lead u = none → s.lead u = none := by
      intro u hu
      rw [Option.eq_none_iff_forall_ne_some]
      intro l' hl'
      obtain ⟨r, hr, -⟩ := hext.lead u l' hl'
      rw [hu] at hr
      cases hr
    refine ⟨?_, ?_, ?_, ?_⟩
    · intro u
      by_cases hu : u = term
      · subst hu
        exact ⟨fun _ ↦ ⟨l, State.setLead_eq_some.mpr (.inl ⟨rfl, rfl⟩)⟩, fun _ ↦ ⟨i, hwon⟩⟩
      · simpa [helected, hu, State.setLead] using h.election.elected u
    · exact fun j u q hu hv ↦ h.election.votes j u q (hlead hu) (hvoted.mp hv)
    · intro q u l' hl'
      obtain ⟨j, hj⟩ := h.election.voters q u l' hl'
      exact ⟨j, hvoted.mpr hj⟩
    · intro j u q call hu hq
      obtain ⟨call₀, hcall₀, hargs⟩ := hsame.calls j u q call hq
      rw [← hargs]
      exact h.election.ballots j u q call₀ (hlead hu) hcall₀
  · exact fun q _ u ↦ hvoted.mp
  · -- no other node leads the term that is won
    intro q hq hleader
    refine Function.update_of_ne (fun hsame ↦ hq ?_) _ _
    have hled := (helected q _).mpr (.inl (hfacts.elections.leader q hleader))
    rw [hsame] at hled
    exact helections'.elected_unique hled hwon
  · exact fun _ _ _ _ _ ha ↦ by cases ha
  · intro j msg hmsg
    rw [hhistory] at hmsg
    exact .inl (by simpa using hmsg)

end elections

end HttpRaftKv.Raft
