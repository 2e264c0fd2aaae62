import HttpRaftKv.Raft.Agreement
import HttpRaftKv.Raft.NextIndex

/-!
# What a leader believes of its peers

`m_matchIndex` of a leader says up to which index a peer has its log.  The reply
to `AppendEntries` takes the maximum, the reply to `InstallSnapshot` assigns, and
it assigns also if the peer has closed the connection.  What it says is true, and
it does not decrease, as long as no stale tail is left and every accepted reply
to a snapshot speaks of an index that the peer has and that is not below what is
known already.
-/

namespace HttpRaftKv.Raft

open Replication Storage

variable {n : ℕ}

namespace Node

/-- The log of a node matches a snapshot: its own snapshot reaches the index, or
the term at the index is the one of the snapshot. -/
def Covers (rf : Node n) (args : InstallSnapshotRequest n) : Prop :=
  args.lastsnapshotincludeindex ≤ rf.lastSnapshotIncludeIndex ∨
    rf.termAt args.lastsnapshotincludeindex = some args.lastsnapshotincludeterm

instance (rf : Node n) (args : InstallSnapshotRequest n) : Decidable (rf.Covers args) :=
  inferInstanceAs (Decidable (_ ∨ _))

end Node

namespace Cluster

/-- The node `i` leads a term. -/
def Leading (c : Cluster n) (i : Fin n) (term : ℕ) : Prop :=
  (c.nodes i).status = .leader ∧ (c.nodes i).currentTerm = term

/-- While `i` leads a term, `p` has its log up to an index: what is not in a
snapshot of one of the two is the same entry, and the boundaries of the
snapshots carry the terms that the other one has there. -/
structure HoldsLog (c : Cluster n) (i p : Fin n) (term index : ℕ) : Prop where
  leading : c.Leading i term
  last : index ≤ (c.nodes p).getLastLogIndex
  entries : ∀ k ≤ index, ∀ log log', (c.nodes p).entryAt k = some log →
    (c.nodes i).entryAt k = some log' → log = log'
  terms : ∀ k ≤ index, ∀ t t', (c.nodes p).termAt k = some t →
    (c.nodes i).termAt k = some t' → t = t'

end Cluster

open Node Cluster

variable {c c' : Cluster n} {a : Action n} {s : Logs n} {i p : Fin n}

/-! ## Logs that agree -/

/-- The term at an index is the last term up to it. -/
theorem NodeSim.lastLogTerm_eq {rf : Node n} (h : NodeSim s p rf) {index term : ℕ}
    (hat : rf.termAt index = some term) : lastLogTerm ((s.log p).take index) = term := by
  unfold termAt at hat
  split_ifs at hat with heq
  · rw [heq, h.snapTerm]
    exact Option.some.inj hat
  · obtain ⟨log, hlog, rfl⟩ := Option.map_eq_some_iff.mp hat
    have hlt := (entryAt_eq_some.mp hlog).1
    obtain ⟨k, rfl⟩ : ∃ k, index = k + 1 := ⟨index - 1, by omega⟩
    exact lastTerm_take_succ (h.entryAt_eq hlog).2

theorem Sim.holdsLog (h : Sim c s) (hord : c.Ordered) {term index : ℕ}
    (hleading : c.Leading i term) (hagree : Agree index (s.log p) (s.log i)) :
    c.HoldsLog i p term index where
  leading := hleading
  last := by
    rw [(h.node p).getLastLogIndex_eq (h.inv.node p) (hord.node p).indexed]
    exact hagree.le_left
  entries := by
    intro k hk log log' hlog hlog'
    have hlt := (entryAt_eq_some.mp hlog).1
    obtain ⟨k, rfl⟩ : ∃ j, k = j + 1 := ⟨k - 1, by omega⟩
    have hget := ((h.node p).entryAt_eq hlog).2
    rw [hagree.getElem? k hk, ((h.node i).entryAt_eq hlog').2] at hget
    exact (Option.some.inj hget).symm
  terms := by
    intro k hk t t' ht ht'
    rw [← (h.node p).lastLogTerm_eq ht, ← (h.node i).lastLogTerm_eq ht',
      (hagree.mono hk).take_eq]

/-- What a node has committed is what a snapshot in flight has up to its index. -/
theorem Sim.agree_committed (h : Sim c s) {args : InstallSnapshotRequest n} {l : List LogEntry}
    (hsnap : SnapSim s args) (hlead : s.lead args.term = some l) {k : ℕ}
    (hk : k ≤ args.lastsnapshotincludeindex) (hcommit : k ≤ s.commit p) :
    Agree k (s.log p) l := by
  rcases Nat.eq_zero_or_pos k with rfl | hpos
  · exact .zero
  rcases hsnap with hzero | ⟨u, m, lc, hut, hm, hle, hc, hlc, -⟩
  · omega
  rcases (h.inv.node p).fixed with hzero | ⟨u', m', lc', hut', hm', hc', hlc', hagree⟩
  · omega
  · have hleader := (h.inv.lead_agree hut hc hlc hlead).mono (hk.trans hm)
    refine (hagree.mono hcommit).trans ⟨?_, hleader.le_left, fun j hj ↦ ?_⟩
    · exact hcommit.trans hagree.le_right
    · rw [hleader.getElem? j hj]
      exact h.inv.committed_agree hc' hlc' hc hlc (by omega) (by omega)

/-- A log that matches a snapshot of a leader agrees with the leader up to it. -/
theorem Sim.agree_of_covers (h : Sim c s) (hindexed : (c.nodes p).Indexed)
    {args : InstallSnapshotRequest n} {l : List LogEntry} (hsnap : SnapSim s args)
    (hlead : s.lead args.term = some l) (hcovers : (c.nodes p).Covers args) :
    Agree args.lastsnapshotincludeindex (s.log p) l := by
  have hbase := (h.inv.node p).base_le
  have hnode := (h.node p).base
  rcases hcovers with hle | hat
  · exact h.agree_committed hsnap hlead le_rfl (by omega)
  · have hge := (hindexed.termAt_isSome.mp ⟨_, hat⟩).1
    rcases hsnap with hzero | ⟨u, m, lc, hut, hm, hle, hc, hlc, hterm⟩
    · rw [hzero]
      exact .zero
    · have hleader := (h.inv.lead_agree hut hc hlc hlead).mono hm
      refine h.agree_of_termAt hindexed hat hlead hleader.le_left ?_ ?_
      · rw [hleader.take_eq]
        exact hterm
      · exact h.agree_committed (.inr ⟨u, m, lc, hut, hm, hle, hc, hlc, hterm⟩) hlead
          (by omega) hbase

/-- A node that holds the end of a request in its term agrees with the leader
of the term up to it. -/
theorem Sim.agree_of_holds (h : Sim c s) (hindexed : (c.nodes p).Indexed)
    {args : AppendEntriesArgs n} {l : List LogEntry} (happend : AppendSim s args)
    (hlead : s.lead args.term = some l) (hterm : (c.nodes p).currentTerm ≤ args.term)
    (hholds : (c.nodes p).Holds args.lastIndex args.lastTerm) :
    Agree args.lastIndex (s.log p) l := by
  obtain ⟨l', hl', hle, hentries, hprev⟩ := happend.lead
  rw [hlead] at hl'
  cases Option.some.inj hl'
  have hat : (c.nodes p).termAt args.lastIndex = some args.lastTerm := by
    rcases hholds with ⟨log, hlog, hindex, hlast⟩ | ⟨hindex, hlast⟩
    · have hentry := hindexed.entryAt_logindex hlog
      have hlt := (hindexed.entryAt_isSome.mp ⟨log, hentry⟩).1
      rw [← hindex, termAt, if_neg hlt.ne', hentry, ← hlast]
      rfl
    · rw [← hindex, termAt, if_pos rfl, hlast]
  have hlast : lastLogTerm (l.take args.lastIndex) = args.lastTerm := by
    rcases List.eq_nil_or_concat' args.entries with hnil | ⟨init, log, hconcat⟩
    · simp only [AppendEntriesArgs.lastIndex, AppendEntriesArgs.lastTerm, hnil]
      exact hprev
    · have hget := hentries init.length (by simp [hconcat])
      have hend : args.lastIndex = args.prevlogindex + init.length + 1 := by
        simp [AppendEntriesArgs.lastIndex, hconcat]
        omega
      rw [hend, lastTerm_take_succ (e := log)]
      · simp [AppendEntriesArgs.lastTerm, hconcat]
      · rw [← hget, hconcat]
        simp
  have hinv := h.inv.node p
  apply h.agree_of_termAt hindexed hat hlead hle hlast
  exact h.inv.fixed_agree (hinv.fixed.mono le_rfl hinv.base_le)
    ((h.node p).cur.trans_le hterm) hlead

namespace Cluster

/-! ## One step -/

/-- A reply to a snapshot that its leader accepts. -/
structure SnapshotAcceptance (n : ℕ) where
  leader : Fin n
  peer : Fin n
  args : InstallSnapshotRequest n

/-- The reply to a snapshot that an action makes a leader accept. -/
def acceptedSnapshot (c : Cluster n) : Action n → Option (SnapshotAcceptance n)
  | .leaderSendSnapShotReply i beat p => do
      let some (.snapShot (some (.replied args reply))) := c.sender i beat p | none
      guard (c.exited i = false ∧ (c.nodes i).status = .leader ∧
        (c.nodes i).currentTerm = args.term ∧ reply.term ≤ (c.nodes i).currentTerm)
      return { leader := i, peer := p, args := args }
  | _ => none

/-- An action leaves no stale tail, and it does not make a leader believe less
of a peer, or more than the peer has. -/
def Believable (c : Cluster n) (a : Action n) : Prop :=
  c.NoStaleTail a ∧ ∀ x ∈ c.acceptedSnapshot a,
    (c.nodes x.leader).matchIndex x.peer ≤ x.args.lastsnapshotincludeindex ∧
      (c.nodes x.peer).Covers x.args

instance (c : Cluster n) (a : Action n) : Decidable (c.Believable a) :=
  inferInstanceAs (Decidable (_ ∧ ∀ x ∈ c.acceptedSnapshot a, _))

/-- What an accepted reply to a snapshot needs. -/
def BelievesSnapshot (c : Cluster n) (a : Action n) (i : Fin n) : Prop :=
  ∀ beat p args reply, a = .leaderSendSnapShotReply i beat p →
    c.sender i beat p = some (.snapShot (some (.replied args reply))) →
    (c.nodes i).status = .leader → (c.nodes i).currentTerm = args.term →
    reply.term ≤ (c.nodes i).currentTerm →
    (c.nodes i).matchIndex p ≤ args.lastsnapshotincludeindex ∧ (c.nodes p).Covers args

/-- A leader that goes on leading does not believe less of a peer. -/
theorem Step.matchIndex_le (hstep : Step c a c') (hbelieves : c.BelievesSnapshot a i)
    (hbefore : (c.nodes i).status = .leader) (p : Fin n) :
    (c.nodes i).matchIndex p ≤ (c'.nodes i).matchIndex p := by
  generalize hrf : c'.nodes i = rf
  have htracks : Tracks c a i rf := hrf ▸ hstep.tracks i
  cases htracks with
  | kept _ hleads hkeeps => rw [hkeeps.2]
  | won ps hstatus => exact absurd hbefore hstatus
  | rejected => exact le_rfl
  | matched beat q b args reply =>
      by_cases hpq : p = q
      · subst hpq
        simp only [replyMatched, Function.update_self]
        exact le_max_left _ _
      · simp only [replyMatched, Function.update_of_ne hpq]
        exact le_rfl
  | snapShot beat q args reply hact hcall hstatus hterm hreply =>
      have hle := (hbelieves beat q args reply hact hcall hstatus hterm hreply).1
      by_cases hpq : p = q
      · subst hpq
        simp only [Function.update_self]
        exact hle
      · simp only [Function.update_of_ne hpq]
        exact le_rfl

section runs

variable [TextArchive (BoostPersistRaftNode n)]

/-- At some moment of a run, while `i` led a term, `p` had its log up to an
index. -/
def Held (as : List (Action n)) (i p : Fin n) (term index : ℕ) : Prop :=
  ∃ past, past <+: as ∧ (run past).HoldsLog i p term index

theorem Held.snoc {as : List (Action n)} {term index : ℕ} (h : Held as i p term index)
    (a : Action n) : Held (as ++ [a]) i p term index := by
  obtain ⟨past, hpast, hholds⟩ := h
  exact ⟨past, hpast.trans (List.prefix_append as [a]), hholds⟩

/-- Nobody wins a term twice. -/
theorem leading_of_elected {as : List (Action n)} {term : ℕ} (helected : (run as).Elected i term)
    (hleading : (run (as ++ [a])).Leading i term) : (run as).Leading i term := by
  rcases (run_step as a).wins hleading.1 with ⟨hstatus, hsame⟩ | hwon
  · exact ⟨hstatus, hsame.symm.trans hleading.2⟩
  · have honce := (elections_run (as ++ [a])).once i term
    have hpos := List.count_pos_iff.mpr helected
    rw [hwon, hleading.2, List.count_append, List.count_singleton_self] at honce
    omega

theorem elected_of_past {as past : List (Action n)} (hpast : past <+: as) {term : ℕ}
    (helected : (run past).Elected i term) : (run as).Elected i term := by
  obtain ⟨rest, rfl⟩ := hpast
  induction rest using List.reverseRecOn with
  | nil => rwa [List.append_nil]
  | append_singleton rest a ih =>
      rw [← List.append_assoc]
      exact (run_step _ a).elected_mono ih

/-- What the match indices and the replies in flight say. -/
structure Truthful (as : List (Action n)) (c : Cluster n) : Prop where
  replied : ∀ i beat p call reply, c.sender i beat p = some (.appendEntries call) →
    call.reply = some reply → reply.success = true → c.Leading i call.args.term →
    Held as i p call.args.term call.args.lastIndex
  matchIndex : ∀ i p, (c.nodes i).status = .leader →
    Held as i p (c.nodes i).currentTerm ((c.nodes i).matchIndex p)
  mono : ∀ i p past, past <+: as → (run past).Leading i (c.nodes i).currentTerm →
    (c.nodes i).status = .leader → ((run past).nodes i).matchIndex p ≤ (c.nodes i).matchIndex p

theorem Truthful.step_replied {as : List (Action n)} (h : Truthful as (run as))
    (hclean : Runs.Along Cluster.step NoStaleTail init (as ++ [a])) {beat : ℕ}
    {call : Call (AppendEntriesArgs n) AppendEntriesReply} {reply : AppendEntriesReply}
    (hcall : (run (as ++ [a])).sender i beat p = some (.appendEntries call))
    (hreply : call.reply = some reply) (hsuccess : reply.success = true)
    (hleading : (run (as ++ [a])).Leading i call.args.term) :
    Held (as ++ [a]) i p call.args.term call.args.lastIndex := by
  have hord := ordered_run as
  rcases (run_step as a).append_cases hcall with ⟨call₀, hold, hargs, hreplies⟩ | ⟨-, hnone, -⟩
  · rcases hreplies reply hreply with hreply₀ | ⟨-, -, hout⟩
    · -- the reply was there before, and the leader has led since
      rw [← hargs] at hleading ⊢
      have hbefore := leading_of_elected ((led_run as).elected i beat p call₀ hold).2 hleading
      exact (h.replied i beat p call₀ reply hold hreply₀ hsuccess hbefore).snoc a
    · have hcons := hord.request i beat p call₀ hold
      rw [hargs] at hcons
      obtain ⟨-, hcurrent, hholds⟩ := hout.holds (hord.node p).indexed hcons hsuccess
      obtain ⟨s, hs⟩ := sim_run (as ++ [a]) hclean
      have hlead := (hs.role i).leader hleading.1
      rw [hleading.2] at hlead
      refine ⟨as ++ [a], List.prefix_rfl, hs.holdsLog (ordered_run _) hleading ?_⟩
      exact hs.agree_of_holds ((ordered_run _).node p).indexed
        (hs.message.appends i beat p call hcall) hlead hcurrent.le hholds
  · rw [hnone] at hreply
    cases hreply

theorem Truthful.step_matchIndex {as : List (Action n)} (h : Truthful as (run as))
    (hclean : Runs.Along Cluster.step NoStaleTail init (as ++ [a]))
    (hbelieves : (run as).BelievesSnapshot a i)
    (hleader : ((run (as ++ [a])).nodes i).status = .leader) (p : Fin n) :
    Held (as ++ [a]) i p ((run (as ++ [a])).nodes i).currentTerm
      (((run (as ++ [a])).nodes i).matchIndex p) := by
  have hpast := ((Runs.along_snoc Cluster.step NoStaleTail init as a).mp hclean).1
  -- a leader that has just won believes nothing yet
  have hzero : Held (as ++ [a]) i p ((run (as ++ [a])).nodes i).currentTerm 0 := by
    obtain ⟨s, hs⟩ := sim_run (as ++ [a]) hclean
    exact ⟨as ++ [a], List.prefix_rfl, hs.holdsLog (ordered_run _) ⟨hleader, rfl⟩ .zero⟩
  generalize hrf : (run (as ++ [a])).nodes i = rf at hleader hzero ⊢
  have htracks : Tracks (run as) a i rf := hrf ▸ (run_step as a).tracks i
  cases htracks with
  | kept _ hleads hkeeps =>
      obtain ⟨hstatus, hterm⟩ := hleads hleader
      rw [hkeeps.2, hterm]
      exact (h.matchIndex i p hstatus).snoc a
  | won => exact hzero
  | rejected beat q args reply hcall hstatus => exact (h.matchIndex i p hstatus).snoc a
  | matched beat q b args reply hact hbeat hcall hterm hstatus hsuccess =>
      have hold := (h.matchIndex i p hstatus).snoc a
      by_cases hpq : p = q
      · subst hpq
        have hsender : (run as).sender i beat p = some (.appendEntries (.replied args reply)) := by
          simp [sender, hbeat, hcall]
        have hargs := (facts_run as).replies i beat p _ reply hsender rfl hsuccess
        have hnew := h.replied i beat p _ reply hsender rfl hsuccess ⟨hstatus, hterm ▸ hargs⟩
        simp only [Call.args] at hargs hnew
        rw [← hargs, hterm] at hnew
        simp only [replyMatched, Function.update_self]
        rcases le_total (((run as).nodes i).matchIndex p)
          (args.prevlogindex + args.entries.length) with hle | hle
        · rw [max_eq_right hle]
          exact hnew.snoc a
        · rw [max_eq_left hle]
          exact hold
      · simp only [replyMatched, Function.update_of_ne hpq]
        exact hold
  | snapShot beat q args reply hact hcall hstatus hterm hreply =>
      by_cases hpq : p = q
      · subst hpq
        simp only [Function.update_self]
        obtain ⟨s, hs⟩ := sim_run as hpast
        have hlead := (hs.role i).leader hstatus
        rw [hterm] at hlead
        have hcovers := (hbelieves beat p args reply hact hcall hstatus hterm hreply).2
        have hagree := hs.agree_of_covers ((ordered_run as).node p).indexed
          (hs.message.snaps i beat p _ hcall) hlead hcovers
        exact Held.snoc ⟨as, List.prefix_rfl,
          hs.holdsLog (ordered_run as) ⟨hstatus, rfl⟩ hagree⟩ a
      · simp only [Function.update_of_ne hpq]
        exact (h.matchIndex i p hstatus).snoc a

theorem Truthful.step_mono {as past : List (Action n)} (h : Truthful as (run as))
    (hbelieves : (run as).BelievesSnapshot a i) (hpast : past <+: as ++ [a])
    (hleading : (run past).Leading i ((run (as ++ [a])).nodes i).currentTerm)
    (hleader : ((run (as ++ [a])).nodes i).status = .leader) (p : Fin n) :
    ((run past).nodes i).matchIndex p ≤ ((run (as ++ [a])).nodes i).matchIndex p := by
  rcases List.prefix_concat_iff.mp hpast with rfl | hpast
  · exact le_rfl
  · have helected : (run past).Elected i ((run (as ++ [a])).nodes i).currentTerm := by
      rw [← hleading.2]
      exact (elections_run past).leader i hleading.1
    obtain ⟨hstatus, hterm⟩ :=
      leading_of_elected (elected_of_past hpast helected) ⟨hleader, rfl⟩
    rw [← hterm] at hleading
    exact (h.mono i p past hpast hleading hstatus).trans
      ((run_step as a).matchIndex_le hbelieves hstatus p)

/-- Nothing happens. -/
theorem Truthful.idle {as : List (Action n)} (h : Truthful as (run as))
    (hidle : run (as ++ [a]) = run as) : Truthful (as ++ [a]) (run (as ++ [a])) where
  replied := by
    rw [hidle]
    exact fun i beat p call reply hcall hreply hsuccess hleading ↦
      (h.replied i beat p call reply hcall hreply hsuccess hleading).snoc a
  matchIndex := by
    rw [hidle]
    exact fun i p hleader ↦ (h.matchIndex i p hleader).snoc a
  mono := by
    intro i p past hpast hleading hleader
    rcases List.prefix_concat_iff.mp hpast with rfl | hpast
    · exact le_rfl
    · rw [hidle] at hleading hleader ⊢
      exact h.mono i p past hpast hleading hleader

theorem Believable.believesSnapshot (h : c.Believable a) (hidle : c.step a ≠ c) (i : Fin n) :
    c.BelievesSnapshot a i := by
  rintro beat p args reply rfl hcall hstatus hterm hreply
  have hexited : c.exited i = false := by
    by_contra hexited
    exact hidle (by simp [Cluster.step, next, hexited])
  refine h.2 ⟨i, p, args⟩ ?_
  simp only [acceptedSnapshot, hcall, Option.mem_def]
  rw [hterm] at hreply
  simp [hexited, hstatus, hterm, hreply]

theorem truthful_run (as : List (Action n)) (h : Runs.Along Cluster.step Believable init as) :
    Runs.Along Cluster.step NoStaleTail init as ∧ Truthful as (run as) := by
  refine Runs.invariant_of_step_along Cluster.step
    (P := fun as c ↦ Runs.Along Cluster.step NoStaleTail init as ∧ Truthful as c) ?_ ?_ as h
  · refine ⟨trivial, ?_, ?_, ?_⟩
    · simp [init, sender]
    · exact fun i p hleader ↦ by cases hleader
    · exact fun i p past _ _ hleader ↦ by cases hleader
  · rintro as a ⟨hpast, htruthful⟩ hbelievable
    have hclean := (Runs.along_snoc Cluster.step NoStaleTail init as a).mpr
      ⟨hpast, hbelievable.1⟩
    refine ⟨hclean, ?_⟩
    suffices hafter : Truthful (as ++ [a]) (run (as ++ [a])) by
      rwa [run_snoc] at hafter
    by_cases hidle : (run as).step a = run as
    · exact htruthful.idle ((run_snoc as a).trans hidle)
    have hbelieves := hbelievable.believesSnapshot hidle
    refine ⟨?_, ?_, ?_⟩
    · exact fun i beat p call reply hcall hreply hsuccess hleading ↦
        htruthful.step_replied hclean hcall hreply hsuccess hleading
    · exact fun i p hleader ↦ htruthful.step_matchIndex hclean (hbelieves i) hleader p
    · exact fun i p past hpast hleading hleader ↦
        htruthful.step_mono (hbelieves i) hpast hleading hleader p

/-- In every run whose actions leave no stale tail and in which every accepted
reply to a snapshot is believable, the match index of a leader never decreases
during its term, and the peer has had the log of the leader up to it. -/
theorem matchIndex_truthful (as : List (Action n))
    (h : Runs.Along Cluster.step Believable init as) {i : Fin n}
    (hleader : ((run as).nodes i).status = .leader) (p : Fin n) :
    Held as i p ((run as).nodes i).currentTerm (((run as).nodes i).matchIndex p) ∧
      ∀ past, past <+: as → (run past).Leading i ((run as).nodes i).currentTerm →
        ((run past).nodes i).matchIndex p ≤ ((run as).nodes i).matchIndex p := by
  have htruthful := (truthful_run as h).2
  exact ⟨htruthful.matchIndex i p hleader,
    fun past hpast hleading ↦ htruthful.mono i p past hpast hleading hleader⟩

end runs

section disconnected

open scoped Archive

/-- The leader `i` commits an entry with node `j` and compacts its log.  Node `k` has
nothing, so the next heartbeat starts a snapshot thread for it. -/
def snapshotRun (i j k : Fin n) : List (Action n) :=
  [.doElection i, .requestVote i 1 j, .sendRequestVote i 1 j, .start i "x", .doHeartBeat i,
    .appendEntries1 i 0 j, .sendAppendEntries i 0 j, .snapshot i 1 "s", .doHeartBeat i,
    .leaderSendSnapShot i 1 k]

/-- Node `k` installs the snapshot and replies. -/
def installedRun (i j k : Fin n) : List (Action n) :=
  snapshotRun i j k ++ [.installSnapshot i 1 k, .leaderSendSnapShotReply i 1 k]

/-- Node `k` closes the connection instead. -/
def disconnectedRun (i j k : Fin n) : List (Action n) :=
  snapshotRun i j k ++ [.disconnect i 1 k, .leaderSendSnapShotReply i 1 k]

theorem matchIndex_truthful_in_installedRun :
    ((run (installedRun (0 : Fin 3) 1 2)).nodes 0).matchIndex 2 = 1 ∧
      Held (installedRun (0 : Fin 3) 1 2) 0 2
        ((run (installedRun (0 : Fin 3) 1 2)).nodes 0).currentTerm
        (((run (installedRun (0 : Fin 3) 1 2)).nodes 0).matchIndex 2) :=
  ⟨by decide +kernel,
    (matchIndex_truthful (installedRun 0 1 2) (by decide +kernel) (by decide +kernel) 2).1⟩

/-- Node 2 never has an entry, but the leader believes that it has one. -/
theorem matchIndex_not_truthful_in_disconnectedRun :
    ¬ ∀ i p, ((run (disconnectedRun (0 : Fin 3) 1 2)).nodes i).status = .leader →
      Held (disconnectedRun (0 : Fin 3) 1 2) i p
          ((run (disconnectedRun (0 : Fin 3) 1 2)).nodes i).currentTerm
          (((run (disconnectedRun (0 : Fin 3) 1 2)).nodes i).matchIndex p) ∧
        ∀ past, past <+: disconnectedRun 0 1 2 →
          (run past).Leading i ((run (disconnectedRun (0 : Fin 3) 1 2)).nodes i).currentTerm →
          ((run past).nodes i).matchIndex p ≤
            ((run (disconnectedRun (0 : Fin 3) 1 2)).nodes i).matchIndex p := by
  intro h
  obtain ⟨⟨past, ⟨rest, hrest⟩, hholds⟩, -⟩ := h 0 2 (by decide +kernel)
  have hmatch : ((run (disconnectedRun (0 : Fin 3) 1 2)).nodes 0).matchIndex 2 = 1 := by
    decide +kernel
  have hempty : ((run (disconnectedRun (0 : Fin 3) 1 2)).nodes 2).getLastLogIndex = 0 := by
    decide +kernel
  have hlast := run_mono (f := fun c ↦ (c.nodes 2).getLastLogIndex)
    (fun _ _ _ hord hstep ↦ (hstep.evolves hord 2).last_le) past rest
  rw [hrest, hempty] at hlast
  have := hholds.last
  rw [hmatch] at this
  omega

end disconnected

end Cluster

end HttpRaftKv.Raft
