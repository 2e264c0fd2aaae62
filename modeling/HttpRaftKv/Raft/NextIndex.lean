import HttpRaftKv.Raft.Indices

/-!
# What a leader knows of its peers

`m_nextIndex` and `m_matchIndex` are written when an election is won, by the
reply part of `sendAppendEntries` and by the reply part of `leaderSendSnapShot`.
Whatever they are set to lies inside the log that the node had when it built the
request, and the last index of a node never decreases.  So the assertions of a
leader never fail, although some of the values come from followers and replies
may arrive late and out of order.
-/

namespace HttpRaftKv.Raft

open Storage

namespace Node

variable {n : ℕ} {rf rf' : Node n}

/-- The commit index after a success reply to a heartbeat that has counted
`appendNums` nodes before. -/
def replyCommit (rf : Node n) (args : AppendEntriesArgs n) (appendNums : ℕ) : ℕ :=
  if 1 + n / 2 ≤ appendNums + 1 ∧
      args.entries.getLast?.map LogEntry.logterm = some rf.currentTerm then
    max rf.commitIndex args.lastIndex
  else
    rf.commitIndex

/-- The node keeps what it knows of its peers. -/
def KeepsTrack (rf rf' : Node n) : Prop :=
  rf'.nextIndex = rf.nextIndex ∧ rf'.matchIndex = rf.matchIndex

theorem keepsTrack_raiseTerm (term : ℕ) : rf.KeepsTrack (rf.raiseTerm term) := by
  unfold raiseTerm
  split_ifs
  · exact ⟨rfl, rfl⟩
  · exact ⟨rfl, rfl⟩

theorem RequestVoteOutcome.keepsTrack {args : RequestVoteArgs n} {reply : RequestVoteReply}
    (hout : RequestVoteOutcome rf args rf' reply) : rf.KeepsTrack rf' := by
  cases hout with
  | expire => exact ⟨rfl, rfl⟩
  | refused => exact keepsTrack_raiseTerm args.term
  | granted => exact keepsTrack_raiseTerm args.term

theorem AppendEntriesOutcome.keepsTrack {args : AppendEntriesArgs n} {reply : AppendEntriesReply}
    (hout : AppendEntriesOutcome rf args rf' reply) : rf.KeepsTrack rf' := by
  cases hout with
  | stale => exact ⟨rfl, rfl⟩
  | short => exact keepsTrack_raiseTerm args.term
  | matched => exact keepsTrack_raiseTerm args.term
  | mismatched => exact keepsTrack_raiseTerm args.term

theorem InstallSnapshotOutcome.keepsTrack {args : InstallSnapshotRequest n}
    {reply : InstallSnapshotResponse} (hout : InstallSnapshotOutcome rf args rf' reply) :
    rf.KeepsTrack rf' := by
  cases hout with
  | stale => exact ⟨rfl, rfl⟩
  | outdated => exact keepsTrack_raiseTerm args.term
  | installed => exact keepsTrack_raiseTerm args.term

end Node

namespace Cluster

variable {n : ℕ} {c c' : Cluster n} {a : Action n}

open Node

/-- The ways in which a step changes what the node `i` knows of its peers. -/
inductive Tracks (c : Cluster n) (a : Action n) (i : Fin n) : Node n → Prop
  | kept (rf : Node n) (hleads : (c.nodes i).Leads rf) (hkeeps : (c.nodes i).KeepsTrack rf) :
      Tracks c a i rf
  | won (ps : Persister) (hstatus : (c.nodes i).status ≠ .leader)
      (hasked : ∃ term p call, c.voteCall i term p = some call) :
      Tracks c a i { c.nodes i with
        status := .leader
        nextIndex := fun _ ↦ ((c.nodes i).getLastLogIndex : ℤ) + 1
        matchIndex := fun _ ↦ 0
        persister := ps }
  | rejected (beat : ℕ) (p : Fin n) (args : AppendEntriesArgs n) (reply : AppendEntriesReply)
      (hcall : c.sender i beat p = some (.appendEntries (.replied args reply)))
      (hstatus : (c.nodes i).status = .leader) (hsuccess : reply.success = false)
      (hhint : reply.updatenextindex ≠ -100) :
      Tracks c a i { c.nodes i with
        nextIndex := Function.update (c.nodes i).nextIndex p reply.updatenextindex }
  | matched (beat : ℕ) (p : Fin n) (h : HeartBeat n) (args : AppendEntriesArgs n)
      (reply : AppendEntriesReply) (hact : a = .sendAppendEntries i beat p)
      (hbeat : (c.heartBeats i)[beat]? = some h)
      (hcall : h.senders p = some (.appendEntries (.replied args reply)))
      (hterm : reply.term = (c.nodes i).currentTerm) (hstatus : (c.nodes i).status = .leader)
      (hsuccess : reply.success = true) :
      Tracks c a i { (c.nodes i).replyMatched p args with
        commitIndex := (c.nodes i).replyCommit args h.appendNums }
  | snapShot (beat : ℕ) (p : Fin n) (args : InstallSnapshotRequest n)
      (reply : InstallSnapshotResponse) (hact : a = .leaderSendSnapShotReply i beat p)
      (hcall : c.sender i beat p = some (.snapShot (some (.replied args reply))))
      (hstatus : (c.nodes i).status = .leader) (hterm : (c.nodes i).currentTerm = args.term)
      (hreply : reply.term ≤ (c.nodes i).currentTerm) :
      Tracks c a i { c.nodes i with
        matchIndex := Function.update (c.nodes i).matchIndex p args.lastsnapshotincludeindex
        nextIndex := Function.update (c.nodes i).nextIndex p
          ((args.lastsnapshotincludeindex : ℤ) + 1) }

theorem Step.tracks (hstep : Step c a c') (i : Fin n) : Tracks c a i (c'.nodes i) := by
  have hsame : Tracks c a i (c.nodes i) := .kept _ (fun hl ↦ ⟨hl, rfl⟩) ⟨rfl, rfl⟩
  have hone : ∀ {j : Fin n} {rf : Node n}, (i = j → Tracks c a i rf) →
      Tracks c a i (Function.update c.nodes j rf i) := by
    intro j rf hrf
    by_cases hij : i = j
    · subst hij
      rw [Function.update_self]
      exact hrf rfl
    · rw [Function.update_of_ne hij]
      exact hsame
  cases hstep with
  | idle => exact hsame
  | exit => exact hsame
  | doElection => exact hone fun hij ↦ hij ▸ .kept _ Status.noConfusion ⟨rfl, rfl⟩
  | requestVote j term p e args rf reply he hcall hout =>
      refine hone fun hij ↦ ?_
      subst hij
      exact .kept _ hout.leads hout.keepsTrack
  | sendRequestVote j term p e args reply rf votedNum elected he hcall hout =>
      refine hone fun hij ↦ ?_
      subst hij
      cases hout with
      | higher => exact .kept _ Status.noConfusion ⟨rfl, rfl⟩
      | ignored => exact hsame
      | counted => exact hsame
      | won ps hterm hgranted hmany hstatus =>
          exact .won ps hstatus ⟨term, p, .replied args reply, by simp [voteCall, he, hcall]⟩
  | start => exact hone fun hij ↦ hij ▸ .kept _ (fun hl ↦ ⟨hl, rfl⟩) ⟨rfl, rfl⟩
  | doHeartBeat => exact hsame
  | appendEntries1 j beat p h args rf reply hbeat hcall hout =>
      refine hone fun hij ↦ ?_
      subst hij
      exact .kept _ hout.leads hout.keepsTrack
  | sendAppendEntries j beat p h args reply rf appendNums hbeat hcall hout =>
      refine hone fun hij ↦ ?_
      subst hij
      have hsender : c.sender i beat p = some (.appendEntries (.replied args reply)) := by
        simp [sender, hbeat, hcall]
      -- the success branch, with the commit index it ends with
      have hmatched : ∀ {commit : ℕ}, reply.term = (c.nodes i).currentTerm →
          (c.nodes i).status = .leader → reply.success = true →
          (c.nodes i).replyCommit args h.appendNums = commit →
          Tracks c (.sendAppendEntries i beat p) i
            { (c.nodes i).replyMatched p args with commitIndex := commit } := by
        rintro _ hterm hstatus hsuccess rfl
        exact .matched beat p h args reply rfl hbeat hcall hterm hstatus hsuccess
      cases hout with
      | ignored => exact hsame
      | higher => exact .kept _ Status.noConfusion ⟨rfl, rfl⟩
      | rejected hterm hstatus hsuccess hhint =>
          exact .rejected beat p args reply hsender hstatus hsuccess hhint
      | counted hterm hstatus hsuccess hfew =>
          refine hmatched hterm hstatus hsuccess (if_neg ?_)
          omega
      | majority hterm hstatus hsuccess hmany hlast =>
          exact hmatched hterm hstatus hsuccess (if_neg fun hboth ↦ hlast hboth.2)
      | committed hterm hstatus hsuccess hmany hlast hcommit =>
          exact hmatched hterm hstatus hsuccess (if_pos ⟨hmany, hlast⟩)
  | leaderSendSnapShot => exact hone fun hij ↦ hij ▸ .kept _ (fun hl ↦ ⟨hl, rfl⟩) ⟨rfl, rfl⟩
  | installSnapshot j beat p h args rf reply hbeat hcall hout =>
      refine hone fun hij ↦ ?_
      subst hij
      exact .kept _ hout.leads hout.keepsTrack
  | disconnect => exact hsame
  | leaderSendSnapShotReply j beat p h args reply rf hbeat hcall hout =>
      refine hone fun hij ↦ ?_
      subst hij
      cases hout with
      | ignored => exact hsame
      | higher => exact .kept _ Status.noConfusion ⟨rfl, rfl⟩
      | matched hstatus hterm hreply =>
          have hsender : c.sender i beat p = some (.snapShot (some (.replied args reply))) := by
            simp [sender, hbeat, hcall]
          exact .snapShot beat p args reply rfl hsender hstatus hterm hreply
  | snapshot => exact hone fun hij ↦ hij ▸ .kept _ (fun hl ↦ ⟨hl, rfl⟩) ⟨rfl, rfl⟩
  | getApplyLogs => exact hone fun hij ↦ hij ▸ .kept _ (fun hl ↦ ⟨hl, rfl⟩) ⟨rfl, rfl⟩

/-! ## Where the values come from -/

/-- A node that has no snapshot has the boundary `(0, 0)`. -/
def Origin (rf : Node n) : Prop :=
  rf.lastSnapshotIncludeIndex = 0 → rf.lastSnapshotIncludeTerm = 0

theorem Step.boundary (hstep : Step c a c') (i : Fin n) :
    ((c'.nodes i).lastSnapshotIncludeIndex = (c.nodes i).lastSnapshotIncludeIndex ∧
      (c'.nodes i).lastSnapshotIncludeTerm = (c.nodes i).lastSnapshotIncludeTerm) ∨
    (c.nodes i).lastSnapshotIncludeIndex < (c'.nodes i).lastSnapshotIncludeIndex := by
  have hone : ∀ {j : Fin n} {rf : Node n},
      (rf.lastSnapshotIncludeIndex = (c.nodes j).lastSnapshotIncludeIndex ∧
        rf.lastSnapshotIncludeTerm = (c.nodes j).lastSnapshotIncludeTerm) ∨
      (c.nodes j).lastSnapshotIncludeIndex < rf.lastSnapshotIncludeIndex →
      ((Function.update c.nodes j rf i).lastSnapshotIncludeIndex =
          (c.nodes i).lastSnapshotIncludeIndex ∧
        (Function.update c.nodes j rf i).lastSnapshotIncludeTerm =
          (c.nodes i).lastSnapshotIncludeTerm) ∨
      (c.nodes i).lastSnapshotIncludeIndex <
        (Function.update c.nodes j rf i).lastSnapshotIncludeIndex := by
    intro j rf hrf
    exact (Function.forall_update_iff c.nodes fun k rf ↦
      (rf.lastSnapshotIncludeIndex = (c.nodes k).lastSnapshotIncludeIndex ∧
        rf.lastSnapshotIncludeTerm = (c.nodes k).lastSnapshotIncludeTerm) ∨
      (c.nodes k).lastSnapshotIncludeIndex < rf.lastSnapshotIncludeIndex).mpr
      ⟨hrf, fun _ _ ↦ .inl ⟨rfl, rfl⟩⟩ i
  cases hstep with
  | idle => exact .inl ⟨rfl, rfl⟩
  | exit => exact .inl ⟨rfl, rfl⟩
  | doElection => exact hone (.inl ⟨rfl, rfl⟩)
  | requestVote j term p e args rf reply he hcall hout =>
      refine hone (.inl ?_)
      cases hout <;> simp
  | sendRequestVote j term p e args reply rf votedNum elected he hcall hout =>
      refine hone (.inl ?_)
      cases hout <;> exact ⟨rfl, rfl⟩
  | start => exact hone (.inl ⟨rfl, rfl⟩)
  | doHeartBeat => exact .inl ⟨rfl, rfl⟩
  | appendEntries1 j beat p h args rf reply hbeat hcall hout =>
      refine hone (.inl ?_)
      cases hout <;> simp [joinTerm]
  | sendAppendEntries j beat p h args reply rf appendNums hbeat hcall hout =>
      refine hone (.inl ?_)
      cases hout <;> exact ⟨rfl, rfl⟩
  | leaderSendSnapShot => exact hone (.inl ⟨rfl, rfl⟩)
  | installSnapshot j beat p h args rf reply hbeat hcall hout =>
      refine hone ?_
      cases hout with
      | stale => exact .inl ⟨rfl, rfl⟩
      | outdated => exact .inl (by simp [joinTerm])
      | installed ps hterm hindex => exact .inr hindex
  | disconnect => exact .inl ⟨rfl, rfl⟩
  | leaderSendSnapShotReply j beat p h args reply rf hbeat hcall hout =>
      refine hone (.inl ?_)
      cases hout <;> exact ⟨rfl, rfl⟩
  | snapshot j index data log ps hlt hle hlog => exact hone (.inr hlt)
  | getApplyLogs => exact hone (.inl ⟨rfl, rfl⟩)


/-- What travels between a node and its peers, and what the node keeps of it,
lies inside its log. -/
structure Bounded (c : Cluster n) : Prop where
  origin : ∀ i, Origin (c.nodes i)
  request : ∀ i beat p call, c.sender i beat p = some (.appendEntries call) →
    call.args.lastIndex ≤ (c.nodes i).getLastLogIndex ∧
      (call.args.prevlogindex = 0 → call.args.prevlogterm = 0)
  hint : ∀ i beat p call reply, c.sender i beat p = some (.appendEntries call) →
    call.reply = some reply → reply.success = false → reply.updatenextindex ≠ -100 →
    1 ≤ reply.updatenextindex ∧ reply.updatenextindex ≤ call.args.prevlogindex
  snapShot : ∀ i beat p call, c.sender i beat p = some (.snapShot (some call)) →
    call.args.lastsnapshotincludeindex ≤ (c.nodes i).getLastLogIndex
  matchIndex : ∀ i p, (c.nodes i).matchIndex p ≤ (c.nodes i).getLastLogIndex
  nextIndex : ∀ i p, (c.nodes i).nextIndex p ≤ ((c.nodes i).getLastLogIndex : ℤ) + 1
  leader : ∀ i p, (c.nodes i).status = .leader → 1 ≤ (c.nodes i).nextIndex p

/-- Two logs match at index 0.  So a follower refuses only what stands behind an
entry, and it asks for an index up to the one of that entry. -/
theorem hint_of_outcome {rf rf' : Node n} {args : AppendEntriesArgs n}
    {reply : AppendEntriesReply} (hout : AppendEntriesOutcome rf args rf' reply)
    (hindexed : rf.Indexed) (horigin : Origin rf)
    (hprev : args.prevlogindex = 0 → args.prevlogterm = 0) (hsuccess : reply.success = false)
    (hhint : reply.updatenextindex ≠ -100) :
    1 ≤ reply.updatenextindex ∧ reply.updatenextindex ≤ args.prevlogindex := by
  cases hout with
  | stale => exact absurd rfl hhint
  | short ps hterm hlast =>
      dsimp only
      omega
  | matched => cases hsuccess
  | mismatched ps hterm found hint hfound hne hle hone =>
      have hpos : 1 ≤ args.prevlogindex := by
        rw [Nat.one_le_iff_ne_zero]
        intro hzero
        have hsnap := (hindexed.termAt_isSome.mp ⟨found, hfound⟩).1
        rw [hzero, Nat.le_zero] at hsnap
        rw [termAt, if_pos (hzero.trans hsnap.symm), horigin hsnap] at hfound
        exact hne ((hprev hzero).trans (Option.some.inj hfound))
      have := hone hpos
      dsimp only
      omega

theorem Built.prevlogterm_eq_zero {i : Fin n} {rf : Node n} {args : AppendEntriesArgs n}
    (h : Built i rf args) (hindexed : rf.Indexed) (horigin : Origin rf)
    (hzero : args.prevlogindex = 0) : args.prevlogterm = 0 := by
  have hprev := h.prevlogterm
  have hsnap := (hindexed.termAt_isSome.mp ⟨_, hprev⟩).1
  rw [hzero, Nat.le_zero] at hsnap
  rw [termAt, if_pos (hzero.trans hsnap.symm), horigin hsnap] at hprev
  exact (Option.some.inj hprev).symm

theorem Bounded.step_matchIndex (h : c.Bounded) (hord : c.Ordered) (hstep : Step c a c')
    (i p : Fin n) : (c'.nodes i).matchIndex p ≤ (c'.nodes i).getLastLogIndex := by
  refine le_trans ?_ (hstep.evolves hord i).last_le
  generalize hrf : c'.nodes i = rf
  have htracks : Tracks c a i rf := hrf ▸ hstep.tracks i
  cases htracks with
  | kept _ hleads hkeeps =>
      rw [hkeeps.2]
      exact h.matchIndex i p
  | won => exact Nat.zero_le _
  | rejected => exact h.matchIndex i p
  | matched beat q b args reply hact hbeat hcall =>
      have hlast := (h.request i beat q (.replied args reply) (by simp [sender, hbeat, hcall])).1
      by_cases hpq : p = q
      · subst hpq
        simp only [replyMatched, Function.update_self]
        exact max_le (h.matchIndex i p) hlast
      · simp only [replyMatched, Function.update_of_ne hpq]
        exact h.matchIndex i p
  | snapShot beat q args reply hact hcall =>
      by_cases hpq : p = q
      · subst hpq
        simp only [Function.update_self]
        exact h.snapShot i beat p _ hcall
      · simp only [Function.update_of_ne hpq]
        exact h.matchIndex i p

theorem Bounded.step_nextIndex (h : c.Bounded) (hord : c.Ordered) (hstep : Step c a c')
    (i p : Fin n) : (c'.nodes i).nextIndex p ≤ ((c'.nodes i).getLastLogIndex : ℤ) + 1 ∧
      ((c'.nodes i).status = .leader → 1 ≤ (c'.nodes i).nextIndex p) := by
  have hlast := (hstep.evolves hord i).last_le
  have hnext := h.nextIndex i p
  have hmatch := h.matchIndex i p
  -- the bounds in the old log are bounds in the new one
  suffices hsuffices : (c'.nodes i).nextIndex p ≤ ((c.nodes i).getLastLogIndex : ℤ) + 1 ∧
      ((c'.nodes i).status = .leader → 1 ≤ (c'.nodes i).nextIndex p) by
    exact ⟨by omega, hsuffices.2⟩
  clear hlast
  generalize hrf : c'.nodes i = rf
  have htracks : Tracks c a i rf := hrf ▸ hstep.tracks i
  cases htracks with
  | kept _ hleads hkeeps =>
      rw [hkeeps.1]
      exact ⟨hnext, fun hleader ↦ h.leader i p (hleads hleader).1⟩
  | won =>
      refine ⟨le_rfl, fun _ ↦ ?_⟩
      dsimp only
      omega
  | rejected beat q args reply hcall hstatus hsuccess hhint =>
      have hlast := (h.request i beat q _ hcall).1
      have hbounds := h.hint i beat q _ reply hcall rfl hsuccess hhint
      simp only [AppendEntriesArgs.lastIndex, Call.args] at hlast hbounds
      by_cases hpq : p = q
      · subst hpq
        simp only [Function.update_self]
        exact ⟨by omega, fun _ ↦ hbounds.1⟩
      · simp only [Function.update_of_ne hpq]
        exact ⟨hnext, h.leader i p⟩
  | matched beat q b args reply hact hbeat hcall hterm hstatus =>
      have hlast := (h.request i beat q (.replied args reply) (by simp [sender, hbeat, hcall])).1
      simp only [AppendEntriesArgs.lastIndex, Call.args] at hlast
      by_cases hpq : p = q
      · subst hpq
        simp only [replyMatched, Function.update_self]
        omega
      · simp only [replyMatched, Function.update_of_ne hpq]
        exact ⟨hnext, fun _ ↦ h.leader i p hstatus⟩
  | snapShot beat q args reply hact hcall hstatus =>
      have hlast := h.snapShot i beat q _ hcall
      simp only [Call.args] at hlast
      by_cases hpq : p = q
      · subst hpq
        simp only [Function.update_self]
        omega
      · simp only [Function.update_of_ne hpq]
        exact ⟨hnext, fun _ ↦ h.leader i p hstatus⟩

theorem Bounded.step (h : c.Bounded) (hord : c.Ordered) (hstep : Step c a c') :
    c'.Bounded where
  origin := by
    intro i hzero
    rcases hstep.boundary i with ⟨hindex, hterm⟩ | hlt
    · rw [hterm]
      exact h.origin i (hindex.symm.trans hzero)
    · omega
  request := by
    intro i beat p call hcall
    have hlast := (hstep.evolves hord i).last_le
    rcases hstep.append_cases hcall with ⟨call₀, hold, hargs, -⟩ | ⟨-, -, -, -, hbuilt, -⟩
    · rw [← hargs]
      have hbounds := h.request i beat p call₀ hold
      exact ⟨hbounds.1.trans hlast, hbounds.2⟩
    · refine ⟨hbuilt.lastIndex.trans_le hlast, fun hzero ↦ ?_⟩
      exact hbuilt.prevlogterm_eq_zero (hord.node i).indexed (h.origin i) hzero
  hint := by
    intro i beat p call reply hcall hreply hsuccess hhint
    rcases hstep.append_cases hcall with ⟨call₀, hold, hargs, hreplies⟩ | ⟨-, hnone, -⟩
    · rcases hreplies reply hreply with hreply₀ | ⟨-, -, hout⟩
      · rw [← hargs]
        exact h.hint i beat p call₀ reply hold hreply₀ hsuccess hhint
      · have hprev := (h.request i beat p call₀ hold).2
        rw [hargs] at hprev
        exact hint_of_outcome hout (hord.node p).indexed (h.origin p) hprev hsuccess hhint
    · rw [hnone] at hreply
      cases hreply
  snapShot := by
    intro i beat p call hcall
    refine le_trans ?_ (hstep.evolves hord i).last_le
    rcases hstep.snap_cases hcall with ⟨call₀, hold, hargs⟩ | ⟨-, hindex, -⟩
    · rw [← hargs]
      exact h.snapShot i beat p call₀ hold
    · rw [hindex, (hord.node i).indexed.getLastLogIndex_eq]
      exact Nat.le_add_right _ _
  matchIndex := h.step_matchIndex hord hstep
  nextIndex := fun i p ↦ (h.step_nextIndex hord hstep i p).1
  leader := fun i p ↦ (h.step_nextIndex hord hstep i p).2

theorem bounded_init : (init : Cluster n).Bounded where
  origin := fun _ _ ↦ rfl
  request := by simp [init, sender]
  hint := by simp [init, sender]
  snapShot := by simp [init, sender]
  matchIndex := fun _ _ ↦ Nat.zero_le _
  nextIndex := fun _ _ ↦ by simp [init, fresh, getLastLogIndex, getLastLogIndexAndTerm]
  leader := fun _ _ hleader ↦ by cases hleader

theorem bounded_run [TextArchive (BoostPersistRaftNode n)] (as : List (Action n)) :
    (run as).Bounded := by
  apply run_invariant
  · exact bounded_init
  · exact fun _ _ _ hord hstep h ↦ h.step hord hstep

end Cluster

/-! ## No assertion of a leader fails -/

namespace Node

variable {n : ℕ} {rf : Node n}

open Checked

theorem getSlicesIndexFromLogIndex_ok {index : ℕ}
    (hlt : rf.lastSnapshotIncludeIndex < index) (hle : index ≤ rf.getLastLogIndex) :
    rf.getSlicesIndexFromLogIndex index = .ok (index - rf.lastSnapshotIncludeIndex - 1) :=
  getSlicesIndexFromLogIndex_eq_ok.mpr ⟨hlt, hle, rfl⟩

theorem Indexed.logFromLogIndex_ok (h : rf.Indexed) {index : ℕ}
    (hlt : rf.lastSnapshotIncludeIndex < index) (hle : index ≤ rf.getLastLogIndex) :
    ∃ log, rf.logFromLogIndex index = .ok log := by
  obtain ⟨log, hlog⟩ := h.entryAt_isSome.mpr ⟨hlt, hle⟩
  exact ⟨log, h.logFromLogIndex_eq_ok.mpr hlog⟩

theorem Indexed.heartBeatTo_ok (h : rf.Indexed) (me : Fin n) {server : Fin n}
    (hone : 1 ≤ rf.nextIndex server)
    (hle : rf.nextIndex server ≤ (rf.getLastLogIndex : ℤ) + 1) :
    ∃ built, rf.heartBeatTo me server = .ok built := by
  have hlast := h.getLastLogIndex_eq
  refine exists_require_bind hone ?_
  split_ifs with hsnap
  · exact ⟨none, rfl⟩
  by_cases hfirst : rf.nextIndex server = (rf.lastSnapshotIncludeIndex : ℤ) + 1
  · have hprev : rf.getPrevLogInfo server =
        .ok (rf.lastSnapshotIncludeIndex, rf.lastSnapshotIncludeTerm) := if_pos hfirst
    have hentries : rf.entriesBehind rf.lastSnapshotIncludeIndex = .ok rf.logs :=
      if_neg (not_not_intro rfl)
    refine exists_bind_eq_ok hprev (exists_bind_eq_ok hentries ?_)
    exact exists_require_bind hlast.symm ⟨_, rfl⟩
  · set prev := (rf.nextIndex server - 1).toNat with hprevdef
    have hlt : rf.lastSnapshotIncludeIndex < prev := by omega
    have hprevle : prev ≤ rf.getLastLogIndex := by omega
    obtain ⟨log, hlog⟩ := h.logFromLogIndex_ok hlt hprevle
    have hprev : rf.getPrevLogInfo server = .ok (prev, log.logterm) := by
      rw [getPrevLogInfo, if_neg hfirst]
      exact bind_eq_ok.mpr ⟨log, hlog, rfl⟩
    have hentries : rf.entriesBehind prev =
        .ok (rf.logs.drop (prev - rf.lastSnapshotIncludeIndex - 1 + 1)) := by
      rw [entriesBehind, if_pos hlt.ne']
      exact bind_eq_ok.mpr ⟨_, getSlicesIndexFromLogIndex_ok hlt hprevle, rfl⟩
    refine exists_bind_eq_ok hprev (exists_bind_eq_ok hentries ?_)
    refine exists_require_bind ?_ ⟨_, rfl⟩
    rw [List.length_drop]
    omega

/-- A snapshot is sent to a peer that needs what the log no longer has. -/
theorem heartBeatTo_none {me server : Fin n} (h : rf.heartBeatTo me server = .ok none) :
    rf.nextIndex server ≤ rf.lastSnapshotIncludeIndex := by
  unfold heartBeatTo at h
  obtain ⟨_, -, h⟩ := bind_eq_ok.mp h
  split_ifs at h with hsnap
  · exact hsnap
  · obtain ⟨prev, -, h⟩ := bind_eq_ok.mp h
    dsimp only at h
    obtain ⟨entries, -, h⟩ := bind_eq_ok.mp h
    obtain ⟨_, -, h⟩ := bind_eq_ok.mp h
    cases pure_eq_ok.mp h

/-- A request is built from the index that the leader keeps for the peer. -/
theorem heartBeatTo_nextIndex {me server : Fin n} {args : AppendEntriesArgs n}
    (h : rf.heartBeatTo me server = .ok (some args)) :
    rf.nextIndex server = (args.prevlogindex : ℤ) + 1 ∧
      (rf.lastSnapshotIncludeIndex : ℤ) < rf.nextIndex server := by
  unfold heartBeatTo at h
  obtain ⟨_, hone, h⟩ := bind_eq_ok.mp h
  have hone := require_eq_ok.mp hone
  split_ifs at h with hsnap
  · cases pure_eq_ok.mp h
  obtain ⟨⟨prev, prevTerm⟩, hprev, h⟩ := bind_eq_ok.mp h
  dsimp only at h
  obtain ⟨entries, -, h⟩ := bind_eq_ok.mp h
  obtain ⟨_, -, h⟩ := bind_eq_ok.mp h
  cases pure_eq_ok.mp h
  refine ⟨?_, by omega⟩
  unfold getPrevLogInfo at hprev
  split_ifs at hprev with hfirst
  · cases Except.ok.inj hprev
    exact hfirst
  · obtain ⟨log, -, hprev⟩ := bind_eq_ok.mp hprev
    cases pure_eq_ok.mp hprev
    dsimp only
    omega

theorem sendAppendEntries_ok {server : Fin n} {args : AppendEntriesArgs n}
    (reply : AppendEntriesReply) (appendNums : ℕ)
    (hmatch : rf.matchIndex server ≤ rf.getLastLogIndex)
    (hlast : args.lastIndex ≤ rf.getLastLogIndex) (hcommit : rf.commitIndex ≤ rf.getLastLogIndex) :
    ∃ result, rf.sendAppendEntries server args reply appendNums = .ok result := by
  unfold AppendEntriesArgs.lastIndex at hlast
  have hnext : ((max (rf.matchIndex server) (args.prevlogindex + args.entries.length) : ℕ) : ℤ) + 1
      ≤ (rf.getLastLogIndex : ℤ) + 1 := by
    omega
  unfold sendAppendEntries
  split_ifs with hdisconnected hhigh hlow hstatus hsuccess hhint
  · exact ⟨_, rfl⟩
  · exact ⟨_, rfl⟩
  · exact ⟨_, rfl⟩
  · exact ⟨_, rfl⟩
  · exact exists_require_bind (by omega) ⟨_, rfl⟩
  · exact exists_require_bind (by omega) ⟨_, rfl⟩
  · refine exists_require_bind (by omega) (exists_require_bind ?_ ?_)
    · simp only [Function.update_self]
      exact hnext
    · split_ifs with hmany hterm
      · exact exists_require_bind (max_le hcommit hlast) ⟨_, rfl⟩
      · exact exists_require_bind hcommit ⟨_, rfl⟩
      · exact ⟨_, rfl⟩

theorem Sound.getApplyLogs_ok (h : rf.Sound) : ∃ result, rf.getApplyLogs = .ok result := by
  have hsnap := h.snap_le
  have hcommit := h.commit_le
  refine exists_require_bind hcommit ?_
  obtain ⟨msgs, hmsgs⟩ : ∃ msgs, (List.range' (rf.lastApplied + 1)
      (rf.commitIndex - rf.lastApplied)).mapM (fun index ↦ do
        let log ← rf.logFromLogIndex index
        require (log.logindex = index) .applyIndex
        return ({
          commandValid := true
          snapshotValid := false
          command := log.command
          commandIndex := index } : ApplyMsg)) = .ok msgs := by
    refine exists_mapM_eq_ok fun index hindex ↦ ?_
    rw [List.mem_range'_1] at hindex
    have hlt : rf.lastSnapshotIncludeIndex < index := by omega
    obtain ⟨log, hlog⟩ := h.indexed.logFromLogIndex_ok hlt (by omega)
    refine exists_bind_eq_ok hlog (exists_require_bind ?_ ⟨_, rfl⟩)
    exact h.indexed.logindex_of_entryAt (h.indexed.logFromLogIndex_eq_ok.mp hlog)
  exact exists_bind_eq_ok hmsgs ⟨_, rfl⟩

variable [TextArchive (BoostPersistRaftNode n)]

theorem Sound.snapshot_ok (h : rf.Sound) (index : ℕ) (data : String) :
    ∃ result, rf.snapshot index data = .ok result := by
  have hcommit := h.commit_le
  have hlast := h.indexed.getLastLogIndex_eq
  unfold snapshot
  split_ifs with hrange
  · exact ⟨rf, rfl⟩
  have hlt : rf.lastSnapshotIncludeIndex < index := by omega
  obtain ⟨log, hlog⟩ := h.indexed.logFromLogIndex_ok hlt (by omega)
  obtain ⟨logs, hlogs⟩ : ∃ logs, (List.range' (index + 1)
      (rf.getLastLogIndex - index)).mapM (fun i ↦ rf.logFromLogIndex i) = .ok logs := by
    refine exists_mapM_eq_ok fun k hk ↦ ?_
    rw [List.mem_range'_1] at hk
    exact h.indexed.logFromLogIndex_ok (by omega) (by omega)
  refine exists_bind_eq_ok hlog (exists_bind_eq_ok hlogs (exists_require_bind ?_ ⟨_, rfl⟩))
  have hlength := (mapM_eq_ok.mp hlogs).length_eq
  rw [List.length_range'] at hlength
  dsimp only
  omega

theorem Sound.installSnapshot_ok (h : rf.Sound) (args : InstallSnapshotRequest n) :
    ∃ result, rf.installSnapshot args = .ok result := by
  unfold installSnapshot
  split_ifs with hlt
  · exact ⟨_, rfl⟩
  obtain ⟨ps, hjoin⟩ := rf.joinSnapshotTerm_eq args.term
  have hsound : Sound { rf.joinTerm args.term with persister := ps } :=
    (h.evolves_joinTerm args.term ps).sound
  rw [hjoin, installSnapshotInTerm]
  split_ifs with hindex
  · exact ⟨_, rfl⟩
  -- what stands behind the snapshot is read from a slot of the log
  obtain ⟨logs, hlogs⟩ : ∃ logs, logsBehind { rf.joinTerm args.term with persister := ps }
      args.lastsnapshotincludeindex = .ok logs := by
    unfold logsBehind
    split_ifs with hbehind
    · refine exists_bind_eq_ok (getSlicesIndexFromLogIndex_ok ?_ hbehind.le) ⟨_, rfl⟩
      exact Nat.lt_of_not_le hindex
    · exact ⟨_, rfl⟩
  exact exists_bind_eq_ok hlogs ⟨_, rfl⟩

/-- A request from below the snapshot fails in `matchLog`. -/
theorem Sound.appendEntries1_error (h : rf.Sound) {args : AppendEntriesArgs n}
    (hterm : rf.currentTerm ≤ args.term)
    (hbelow : args.prevlogindex < rf.lastSnapshotIncludeIndex) :
    rf.appendEntries1 args = .error .matchLogRange := by
  have hlast := h.indexed.getLastLogIndex_eq
  have hjoined : args.term = (rf.joinTerm args.term).currentTerm := by
    simp only [joinTerm, raiseTerm_currentTerm]
    omega
  have hsnap : (rf.joinTerm args.term).lastSnapshotIncludeIndex = rf.lastSnapshotIncludeIndex := by
    simp [joinTerm]
  have hmatch : (rf.joinTerm args.term).matchLog args.prevlogindex args.prevlogterm =
      .error .matchLogRange := by
    unfold matchLog require
    rw [if_neg (fun hrange ↦ absurd hrange.1 (by omega))]
    rfl
  rw [appendEntries1, if_neg hterm.not_gt, appendEntriesInTerm, require_bind hjoined,
    joinTerm_getLastLogIndex, if_neg (by omega), hmatch]
  rfl

end Node

namespace Cluster

variable {n : ℕ} [TextArchive (BoostPersistRaftNode n)]

/-- In every reachable cluster, what a leader keeps of a peer lies inside its
log, so a heartbeat to any peer is built, and a request carries the log of the
leader behind `prevlogindex`.  No reply, no round of `getApplyLogs` and no
`Snapshot` of any node fails, and a request that arrives fails in `matchLog` or
not at all. -/
theorem leader_assertions_hold (as : List (Action n)) (i : Fin n) :
    (((run as).nodes i).status = .leader → ∀ p,
      1 ≤ ((run as).nodes i).nextIndex p ∧
      ((run as).nodes i).nextIndex p ≤ (((run as).nodes i).getLastLogIndex : ℤ) + 1 ∧
      ∃ built, ((run as).nodes i).heartBeatTo i p = .ok built ∧
        ∀ args, built = some args → Built i ((run as).nodes i) args) ∧
    (∀ (beat : ℕ) (p : Fin n) (h : HeartBeat n) (args : AppendEntriesArgs n)
      (reply : AppendEntriesReply), ((run as).heartBeats i)[beat]? = some h →
      h.senders p = some (.appendEntries (.replied args reply)) →
      ∃ result, ((run as).nodes i).sendAppendEntries p args reply h.appendNums = .ok result) ∧
    (∃ result, ((run as).nodes i).getApplyLogs = .ok result) ∧
    (∀ index data, ∃ result, ((run as).nodes i).snapshot index data = .ok result) ∧
    (∀ j beat args, (run as).sender j beat i = some (.appendEntries (.sent args)) →
      (∃ result, ((run as).nodes i).appendEntries1 args = .ok result) ∨
        ((run as).nodes i).appendEntries1 args = .error .matchLogRange) ∧
    ∀ j beat args, (run as).sender j beat i = some (.snapShot (some (.sent args))) →
      ∃ result, ((run as).nodes i).installSnapshot args = .ok result := by
  have hsound := (ordered_run as).node i
  have hbounded := bounded_run as
  refine ⟨?_, ?_, ?_, ?_, ?_, ?_⟩
  · intro hleader p
    have hone := hbounded.leader i p hleader
    have hle := hbounded.nextIndex i p
    obtain ⟨built, hbuilt⟩ := hsound.indexed.heartBeatTo_ok i hone hle
    refine ⟨hone, hle, built, hbuilt, ?_⟩
    rintro args rfl
    obtain ⟨hterm, hid, hcommit, hprev, hentries, hlength⟩ :=
      hsound.indexed.heartBeatTo_eq_some hbuilt
    exact ⟨hterm, hid, hcommit, hprev, hentries, hlength⟩
  · intro beat p h args reply hbeat hcall
    apply Node.sendAppendEntries_ok
    · exact hbounded.matchIndex i p
    · exact (hbounded.request i beat p (.replied args reply) (by simp [sender, hbeat, hcall])).1
    · exact hsound.commit_le
  · exact hsound.getApplyLogs_ok
  · exact hsound.snapshot_ok
  · intro j beat args hcall
    by_cases hbelow : ((run as).nodes i).currentTerm ≤ args.term ∧
        args.prevlogindex < ((run as).nodes i).lastSnapshotIncludeIndex
    · exact .inr (hsound.appendEntries1_error hbelow.1 hbelow.2)
    · apply Or.inl
      have horigin := originated_run as
      refine (hsound.appendEntries1_ok_iff ((ordered_run as).request j beat i _ hcall) ?_).mpr hbelow
      intro old log hold hlog hindex hterm
      rw [horigin.unique old log (horigin.stored i old hold)
        (horigin.sent j i log ⟨beat, _, hcall, hlog⟩) hterm hindex]
  · exact fun _ _ args _ ↦ hsound.installSnapshot_ok args

end Cluster

end HttpRaftKv.Raft
