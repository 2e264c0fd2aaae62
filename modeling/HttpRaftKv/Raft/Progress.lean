import HttpRaftKv.Raft.Archive
import HttpRaftKv.Raft.NextIndex

/-!
# Rejections make progress

A follower that rejects a request names an index that is not above the one of the
request.  The leader builds the next request from it, so the index that it keeps for
the follower gets smaller with every rejection, and it stays positive.  After finitely
many rejections a request matches, or the leader needs a snapshot.
-/

namespace HttpRaftKv.Raft

open Storage Checked

namespace Node

variable {n : ℕ} {rf rf' : Node n} {args : AppendEntriesArgs n} {reply : AppendEntriesReply}

/-- The leader takes over the index of a rejection. -/
theorem nextIndex_of_rejected {server : Fin n} {appendNums appendNums' : ℕ}
    (hstatus : rf.status = .leader) (hterm : rf.currentTerm = reply.term)
    (hstate : reply.appstate = .appNormal) (hsuccess : reply.success = false)
    (hhint : reply.updatenextindex ≠ -100)
    (h : rf.sendAppendEntries server args reply appendNums = .ok (rf', appendNums')) :
    rf'.nextIndex server = reply.updatenextindex := by
  unfold sendAppendEntries at h
  rw [if_neg (by rw [hstate]; exact AppState.noConfusion), if_neg (by omega), if_neg (by omega),
    if_neg (not_not_intro hstatus), require_bind hterm.symm, hsuccess, Bool.not_false,
    if_pos rfl, if_pos hhint] at h
  cases pure_eq_ok.mp h
  exact Function.update_self ..

theorem AppendEntriesOutcome.appstate (hout : AppendEntriesOutcome rf args rf' reply) :
    reply.appstate = .appNormal := by
  cases hout with
  | _ => rfl

variable [TextArchive (BoostPersistRaftNode n)]

theorem Sound.appendMismatched_rejects (h : rf.Sound) {found : ℕ}
    (hprev : rf.termAt args.prevlogindex = some found) (reply : AppendEntriesReply) :
    ∃ rf' reply', rf.appendMismatched args reply = .ok (rf', reply') ∧ reply'.success = false := by
  obtain ⟨⟨rf', reply'⟩, hresult⟩ := h.appendMismatched_ok hprev
  obtain ⟨-, hint, hreply, -⟩ := h.indexed.appendMismatched_outcome hresult
  exact ⟨rf', reply', hresult, by rw [hreply]⟩

/-- A request that does not match is rejected; no assertion fails on the way. -/
theorem Sound.appendEntries1_rejects (h : rf.Sound) (hterm : rf.currentTerm ≤ args.term)
    (hbase : rf.lastSnapshotIncludeIndex ≤ args.prevlogindex)
    (hne : rf.termAt args.prevlogindex ≠ some args.prevlogterm) :
    ∃ rf' reply, rf.appendEntries1 args = .ok (rf', reply) ∧ reply.success = false := by
  have hjoined : (rf.joinTerm args.term).Sound :=
    (h.evolves_joinTerm args.term (rf.joinTerm args.term).persister).sound
  have hcurrent : args.term = (rf.joinTerm args.term).currentTerm := by
    simp only [joinTerm, raiseTerm_currentTerm]
    omega
  rw [appendEntries1, if_neg hterm.not_gt, appendEntriesInTerm, require_bind hcurrent,
    joinTerm_getLastLogIndex]
  by_cases hshort : rf.getLastLogIndex < args.prevlogindex
  · rw [if_pos hshort]
    exact ⟨_, _, rfl, rfl⟩
  · obtain ⟨found, hfound⟩ := h.indexed.termAt_isSome.mpr ⟨hbase, Nat.le_of_not_lt hshort⟩
    have hfound' : (rf.joinTerm args.term).termAt args.prevlogindex = some found := by
      rwa [joinTerm_termAt]
    have hother : decide (args.prevlogterm = found) = false := by
      rw [decide_eq_false_iff_not]
      rintro rfl
      exact hne hfound
    have hmatch := hjoined.indexed.matchLog_eq_ok.mpr ⟨found, hfound', hother⟩
    rw [if_neg hshort]
    dsimp only
    rw [hmatch]
    exact hjoined.appendMismatched_rejects hfound' _

end Node

namespace Cluster

open Node

variable {n : ℕ} [TextArchive (BoostPersistRaftNode n)]

/-- The peer `p` answers with a rejection to the request that the leader `i` has built for
it. -/
def Rejected (i p : Fin n) (leader follower : Node n) (args : AppendEntriesArgs n)
    (reply : AppendEntriesReply) : Prop :=
  leader.heartBeatTo i p = .ok (some args) ∧ follower.currentTerm ≤ args.term ∧
    follower.lastSnapshotIncludeIndex ≤ args.prevlogindex ∧
    (∃ rf, follower.appendEntries1 args = .ok (rf, reply)) ∧ reply.success = false

/-- The leader sends a snapshot, or the request that it has built matches. -/
def Settled (i p : Fin n) (leader follower : Node n) : Prop :=
  leader.heartBeatTo i p = .ok none ∨
    ∃ args, leader.heartBeatTo i p = .ok (some args) ∧
      follower.termAt args.prevlogindex = some args.prevlogterm

variable {as bs : List (Action n)} {i p : Fin n} {args : AppendEntriesArgs n}
  {reply : AppendEntriesReply}

theorem built_of_heartBeatTo
    (h : ((run as).nodes i).heartBeatTo i p = .ok (some args)) : Built i ((run as).nodes i) args := by
  obtain ⟨hterm, hid, hcommit, hprev, hentries, hlength⟩ :=
    ((ordered_run as).node i).indexed.heartBeatTo_eq_some h
  exact ⟨hterm, hid, hcommit, hprev, hentries, hlength⟩

/-- The index that a rejection names. -/
theorem Rejected.hint (h : Rejected i p ((run as).nodes i) ((run bs).nodes p) args reply) :
    1 ≤ reply.updatenextindex ∧ reply.updatenextindex ≤ args.prevlogindex ∧
      reply.appstate = .appNormal := by
  obtain ⟨hbuilt, hterm, hbase, ⟨rf, hanswer⟩, hsuccess⟩ := h
  have hindexed := ((ordered_run as).node i).indexed
  have hbuilt := built_of_heartBeatTo hbuilt
  have hout := ((ordered_run bs).node p).indexed.appendEntries1_outcome
    (hbuilt.consecutive hindexed) hanswer
  have hhint : reply.updatenextindex ≠ -100 := by
    cases hout with
    | stale hstale => omega
    | short => exact fun heq ↦ by simp only at heq; omega
    | matched => exact fun heq ↦ by simp only at heq; omega
    | mismatched => exact fun heq ↦ by simp only at heq; omega
  have hzero : args.prevlogindex = 0 → args.prevlogterm = 0 :=
    hbuilt.prevlogterm_eq_zero hindexed ((bounded_run as).origin i)
  obtain ⟨hone, hle⟩ := hint_of_outcome hout ((ordered_run bs).node p).indexed
    ((bounded_run bs).origin p) hzero hsuccess hhint
  exact ⟨hone, hle, hout.appstate⟩

/-- A leader that does not need a snapshot builds a request, and it is rejected unless it
matches. -/
theorem exists_rejected_of_not_settled (hleader : ((run as).nodes i).status = .leader)
    (hdomain : ∀ args, ((run as).nodes i).heartBeatTo i p = .ok (some args) →
      ((run bs).nodes p).currentTerm ≤ args.term ∧
        ((run bs).nodes p).lastSnapshotIncludeIndex ≤ args.prevlogindex)
    (h : ¬ Settled i p ((run as).nodes i) ((run bs).nodes p)) :
    ∃ args reply, Rejected i p ((run as).nodes i) ((run bs).nodes p) args reply := by
  obtain ⟨built, hbuilt⟩ := ((ordered_run as).node i).indexed.heartBeatTo_ok i
    ((bounded_run as).leader i p hleader) ((bounded_run as).nextIndex i p)
  cases built with
  | none => exact absurd (.inl hbuilt) h
  | some args =>
      obtain ⟨hterm, hbase⟩ := hdomain args hbuilt
      have hne : ((run bs).nodes p).termAt args.prevlogindex ≠ some args.prevlogterm :=
        fun hmatch ↦ h (.inr ⟨args, hbuilt, hmatch⟩)
      obtain ⟨rf, reply, hanswer, hsuccess⟩ :=
        ((ordered_run bs).node p).appendEntries1_rejects hterm hbase hne
      exact ⟨args, reply, hbuilt, hterm, hbase, ⟨rf, hanswer⟩, hsuccess⟩

/-- A rejection names an index that is positive and not above the one of the request.  The
index that the leader keeps for the peer gets smaller than the one the request was built
from, and in any sequence of rounds in which the leader goes on from the rejections a
snapshot is sent or a request matches before there were as many rounds as this index
says. -/
theorem rejections_make_progress (i p : Fin n) :
    (∀ as bs args reply, Rejected i p ((run as).nodes i) ((run bs).nodes p) args reply →
      1 ≤ reply.updatenextindex ∧ reply.updatenextindex ≤ args.prevlogindex ∧
      ∀ (rf rf' : Node n) appendNums appendNums', rf.status = .leader →
        rf.currentTerm = reply.term →
        rf.sendAppendEntries p args reply appendNums = .ok (rf', appendNums') →
        rf'.nextIndex p < ((run as).nodes i).nextIndex p) ∧
    ∀ sent answered : ℕ → List (Action n),
      (∀ k, ((run (sent k)).nodes i).status = .leader) →
      (∀ k args, ((run (sent k)).nodes i).heartBeatTo i p = .ok (some args) →
        ((run (answered k)).nodes p).currentTerm ≤ args.term ∧
          ((run (answered k)).nodes p).lastSnapshotIncludeIndex ≤ args.prevlogindex) →
      (∀ k args reply,
        Rejected i p ((run (sent k)).nodes i) ((run (answered k)).nodes p) args reply →
        ((run (sent (k + 1))).nodes i).nextIndex p = reply.updatenextindex) →
      ∃ k : ℕ, (k : ℤ) < ((run (sent 0)).nodes i).nextIndex p ∧
        Settled i p ((run (sent k)).nodes i) ((run (answered k)).nodes p) := by
  constructor
  · intro as bs args reply hrejected
    obtain ⟨hone, hle, hstate⟩ := hrejected.hint
    refine ⟨hone, hle, fun rf rf' appendNums appendNums' hstatus hterm hsend ↦ ?_⟩
    have hnext := (heartBeatTo_nextIndex hrejected.1).1
    rw [nextIndex_of_rejected hstatus hterm hstate hrejected.2.2.2.2 (by omega) hsend]
    omega
  · intro sent answered hleader hdomain hnext
    by_contra hnever
    -- As long as nothing is settled the index has lost one in each round.
    have hfalls : ∀ k : ℕ, (k : ℤ) ≤ ((run (sent 0)).nodes i).nextIndex p →
        ((run (sent k)).nodes i).nextIndex p ≤ ((run (sent 0)).nodes i).nextIndex p - k := by
      intro k
      induction k with
      | zero => intro _; omega
      | succ k ih =>
          intro hk
          have hopen : ¬ Settled i p ((run (sent k)).nodes i) ((run (answered k)).nodes p) :=
            fun hsettled ↦ hnever ⟨k, by omega, hsettled⟩
          obtain ⟨args, reply, hrejected⟩ :=
            exists_rejected_of_not_settled (hleader k) (hdomain k) hopen
          have hprev := (heartBeatTo_nextIndex hrejected.1).1
          have hle := hrejected.hint.2.1
          have := ih (by omega)
          rw [hnext k args reply hrejected]
          push_cast
          omega
    have hpos := (bounded_run (sent 0)).leader i p (hleader 0)
    obtain ⟨total, htotal⟩ : ∃ total : ℕ, ((run (sent 0)).nodes i).nextIndex p = total :=
      Int.eq_ofNat_of_zero_le (by omega)
    have hend := hfalls total (by omega)
    have hlast := (bounded_run (sent total)).leader i p (hleader total)
    omega

section rejected

open scoped Archive

/-- Node `i` leads term 1 and appends two entries.  It follows node `j` into term 2, leads
term 3, and node `k` has none of the entries. -/
def rejectedRun {n : ℕ} (i j : Fin n) : List (Action n) :=
  [.doElection i, .requestVote i 1 j, .sendRequestVote i 1 j, .start i "a", .start i "b",
    .doElection j, .requestVote j 2 i, .doElection i, .requestVote i 3 j, .sendRequestVote i 3 j]

/-- Node 2 rejects the first request of node 0. -/
theorem rejections_make_progress_first :
    ∃ args reply, Rejected (0 : Fin 3) 2 ((run (rejectedRun 0 1)).nodes 0)
        ((run (rejectedRun 0 1)).nodes 2) args reply ∧
      1 ≤ reply.updatenextindex ∧ reply.updatenextindex ≤ args.prevlogindex := by
  have hleader : ((run (rejectedRun (0 : Fin 3) 1)).nodes 0).status = .leader := by
    decide +kernel
  have hnext : ((run (rejectedRun (0 : Fin 3) 1)).nodes 0).nextIndex 2 = 3 := by decide +kernel
  have hterm : ((run (rejectedRun (0 : Fin 3) 1)).nodes 2).currentTerm = 0 := by decide +kernel
  have hbase : ((run (rejectedRun (0 : Fin 3) 1)).nodes 2).lastSnapshotIncludeIndex = 0 := by
    decide +kernel
  have hsnap : ((run (rejectedRun (0 : Fin 3) 1)).nodes 0).lastSnapshotIncludeIndex = 0 := by
    decide +kernel
  have hopen : ¬ Settled (0 : Fin 3) 2 ((run (rejectedRun 0 1)).nodes 0)
      ((run (rejectedRun 0 1)).nodes 2) := by
    rintro (hnone | ⟨args, hargs, hmatch⟩)
    · have := heartBeatTo_none hnone
      omega
    · have hprev : args.prevlogindex = 2 := by
        have := (heartBeatTo_nextIndex hargs).1
        omega
      have hshort : ((run (rejectedRun (0 : Fin 3) 1)).nodes 2).termAt 2 = none := by
        decide +kernel
      rw [hprev, hshort] at hmatch
      cases hmatch
  obtain ⟨args, reply, hrejected⟩ := exists_rejected_of_not_settled hleader
    (fun args _ ↦ ⟨by omega, by omega⟩) hopen
  have h := (rejections_make_progress (0 : Fin 3) 2).1 _ _ args reply hrejected
  exact ⟨args, reply, hrejected, h.1, h.2.1⟩

end rejected

end Cluster

end HttpRaftKv.Raft
