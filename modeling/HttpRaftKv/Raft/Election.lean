import HttpRaftKv.Lib.Majority
import HttpRaftKv.Raft.Steps

/-!
# Election safety

A vote is kept by the voter as long as it stays in the term, and by the thread
that asked for it for ever.  So each node votes at most once in a term, and the
node that wins a term has the votes of a majority.  The shared counter never
exceeds the granted votes that have returned, and together with the calls still
open it can reach the majority only once: after a win the counter starts again
at zero with too few calls left.
-/

namespace HttpRaftKv.Raft

namespace Call

variable {α β : Type}

def pending : Call α β → Bool
  | sent _ => true
  | replied _ _ => true
  | returned _ _ => false

end Call

/-- The thread has counted the vote. -/
def Call.granting {n : ℕ} : Call (RequestVoteArgs n) RequestVoteReply → Bool
  | .returned _ reply => reply.votegranted
  | _ => false

namespace Node

variable {n : ℕ} {rf rf' : Node n}

/-- A node that leads afterwards has led the same term before. -/
def Leads (rf rf' : Node n) : Prop :=
  rf'.status = .leader → rf.status = .leader ∧ rf'.currentTerm = rf.currentTerm

theorem leads_raiseTerm (term : ℕ) : rf.Leads (rf.raiseTerm term) := by
  intro hleader
  rw [raiseTerm_status] at hleader
  rw [raiseTerm_currentTerm]
  split_ifs at hleader with hlt
  exact ⟨hleader, by omega⟩

theorem RequestVoteOutcome.leads {args : RequestVoteArgs n} {reply : RequestVoteReply}
    (hout : RequestVoteOutcome rf args rf' reply) : rf.Leads rf' := by
  cases hout with
  | expire => exact fun hleader ↦ ⟨hleader, rfl⟩
  | refused => exact leads_raiseTerm args.term
  | granted => exact leads_raiseTerm args.term

theorem SendRequestVoteOutcome.leads {reply : RequestVoteReply} {votedNum votedNum' : ℕ}
    (hout : SendRequestVoteOutcome rf reply votedNum rf' votedNum' false) : rf.Leads rf' := by
  cases hout with
  | higher => exact nofun
  | ignored => exact fun hleader ↦ ⟨hleader, rfl⟩
  | counted => exact fun hleader ↦ ⟨hleader, rfl⟩

/-- The outcome as far as the counter and the record of wins are concerned. -/
theorem SendRequestVoteOutcome.counts {reply : RequestVoteReply} {votedNum votedNum' : ℕ}
    {elected : Bool} (hout : SendRequestVoteOutcome rf reply votedNum rf' votedNum' elected) :
    (elected = false ∧ rf.Leads rf' ∧ votedNum' ≤ votedNum + reply.votegranted.toNat) ∨
      (elected = true ∧ reply.votegranted = true ∧ reply.term = rf'.currentTerm ∧
        n / 2 + 1 ≤ votedNum + 1 ∧ votedNum' = 0) := by
  cases helected : elected with
  | false =>
      subst helected
      refine .inl ⟨rfl, hout.leads, ?_⟩
      cases hout with
      | higher => exact Nat.le_add_right _ _
      | ignored => exact Nat.le_add_right _ _
      | counted _ hgranted => simp [hgranted]
  | true =>
      subst helected
      cases hout with
      | won ps hterm hgranted hmany => exact .inr ⟨rfl, hgranted, hterm, hmany, rfl⟩

theorem AppendEntriesOutcome.leads {args : AppendEntriesArgs n} {reply : AppendEntriesReply}
    (hout : AppendEntriesOutcome rf args rf' reply) : rf.Leads rf' := by
  cases hout with
  | stale => exact fun hleader ↦ ⟨hleader, rfl⟩
  | short => exact nofun
  | matched => exact nofun
  | mismatched => exact nofun

theorem SendAppendEntriesOutcome.leads {server : Fin n} {args : AppendEntriesArgs n}
    {reply : AppendEntriesReply} {appendNums appendNums' : ℕ}
    (hout : SendAppendEntriesOutcome rf server args reply appendNums rf' appendNums') :
    rf.Leads rf' := by
  cases hout with
  | higher => exact nofun
  | _ => exact fun hleader ↦ ⟨hleader, rfl⟩

theorem LeaderSendSnapShotReplyOutcome.leads {server : Fin n}
    {args : InstallSnapshotRequest n} {reply : InstallSnapshotResponse}
    (hout : LeaderSendSnapShotReplyOutcome rf server args reply rf') : rf.Leads rf' := by
  cases hout with
  | higher => exact nofun
  | _ => exact fun hleader ↦ ⟨hleader, rfl⟩

theorem InstallSnapshotOutcome.leads {args : InstallSnapshotRequest n}
    {reply : InstallSnapshotResponse} (hout : InstallSnapshotOutcome rf args rf' reply) :
    rf.Leads rf' := by
  cases hout with
  | stale => exact fun hleader ↦ ⟨hleader, rfl⟩
  | outdated => exact nofun
  | installed => exact nofun

end Node

namespace Cluster

variable {n : ℕ} {c c' : Cluster n} {a : Action n}

/-- Node `p` has given its vote of a term to node `i`. -/
def Voted (c : Cluster n) (i : Fin n) (term : ℕ) (p : Fin n) : Prop :=
  (p = i ∧ ∃ e, c.elections i term = some e) ∨
    ∃ call reply, c.voteCall i term p = some call ∧ call.reply = some reply ∧
      reply.votegranted = true

def Elected (c : Cluster n) (i : Fin n) (term : ℕ) : Prop :=
  .elected i term ∈ c.history

/-- The counter of an election. -/
structure Counted (c : Cluster n) (i : Fin n) (term : ℕ) (e : Election n) : Prop where
  votedNum_le : e.votedNum ≤ 1 + (tally e.calls Call.granting).card
  room : e.votedNum + (tally e.calls Call.pending).card ≤ n
  room_elected : c.Elected i term → e.votedNum + (tally e.calls Call.pending).card ≤ n / 2

structure Elections (c : Cluster n) : Prop where
  request : ∀ i term p call, c.voteCall i term p = some call →
    call.args.term = term ∧ call.args.candidateid = i ∧ p ≠ i
  reply : ∀ i term p call reply, c.voteCall i term p = some call → call.reply = some reply →
    reply.votegranted = true → reply.term = term
  voted : ∀ i term p, c.Voted i term p → term ≤ (c.nodes p).currentTerm ∧
    ((c.nodes p).currentTerm = term → (c.nodes p).votedFor = some i)
  unique : ∀ i j term p, c.Voted i term p → c.Voted j term p → i = j
  counted : ∀ i term e, c.elections i term = some e → c.Counted i term e
  majority : ∀ i term, c.Elected i term → ∃ s : Finset (Fin n), Majority s ∧ i ∈ s ∧
    ∀ p ∈ s, c.Voted i term p
  once : ∀ i term, c.history.count (.elected i term) ≤ 1
  leader : ∀ i, (c.nodes i).status = .leader → c.Elected i (c.nodes i).currentTerm

/-- A node never changes its vote of a term. -/
theorem Elections.voted_evolves (h : c.Elections) {i p : Fin n} {term : ℕ}
    (hvoted : c.Voted i term p) (hev : (c.nodes p).Evolves (c'.nodes p)) :
    term ≤ (c'.nodes p).currentTerm ∧
      ((c'.nodes p).currentTerm = term → (c'.nodes p).votedFor = some i) := by
  obtain ⟨hle, hvote⟩ := h.voted i term p hvoted
  have hterm := hev.term_le
  refine ⟨hle.trans hterm, fun heq ↦ ?_⟩
  have hsame : (c.nodes p).currentTerm = term := by omega
  rcases hev.votedFor (heq.trans hsame.symm) with hnone | hkept
  · rw [hvote hsame] at hnone
    cases hnone
  · rw [hkept, hvote hsame]

/-- A step that touches neither the elections nor the record of wins. -/
theorem Elections.frame (h : c.Elections) (hev : ∀ j, (c.nodes j).Evolves (c'.nodes j))
    (helections : c'.elections = c.elections)
    (hcount : ∀ i term, c'.history.count (.elected i term) = c.history.count (.elected i term))
    (hleads : ∀ j, (c.nodes j).Leads (c'.nodes j)) : c'.Elections := by
  have hcall : c'.voteCall = c.voteCall := by
    unfold voteCall
    rw [helections]
  have hvoted : c'.Voted = c.Voted := by
    unfold Voted
    rw [hcall, helections]
  have helected : c'.Elected = c.Elected := by
    funext i term
    simp only [Elected, ← List.count_pos_iff, hcount]
  refine ⟨?_, ?_, ?_, ?_, ?_, ?_, ?_, ?_⟩
  · rw [hcall]
    exact h.request
  · rw [hcall]
    exact h.reply
  · rw [hvoted]
    exact fun i term p hp ↦ h.voted_evolves hp (hev p)
  · rw [hvoted]
    exact h.unique
  · intro i term e he
    rw [helections] at he
    obtain ⟨hle, hroom, hroom'⟩ := h.counted i term e he
    exact ⟨hle, hroom, by rwa [helected]⟩
  · rw [hvoted, helected]
    exact h.majority
  · intro i term
    rw [hcount]
    exact h.once i term
  · intro i hi
    obtain ⟨hstatus, hterm⟩ := hleads i hi
    rw [helected, hterm]
    exact h.leader i hstatus

/-! ## The three steps of an election -/

section setCall

variable {i p k : Fin n} {term votedNum : ℕ} {e : Election n} {rf : Node n}
  {call₀ call : Call (RequestVoteArgs n) RequestVoteReply}

theorem voteCall_setCall (he : c.elections i term = some e) (j : Fin n) (u : ℕ) (q : Fin n) :
    ((c.setNode k rf).setElection i term { e.setCall p call with votedNum := votedNum }).voteCall
      j u q = if j = i ∧ u = term ∧ q = p then some call else c.voteCall j u q :=
  voteCall_setElection (by exact he) p call votedNum j u q

theorem voted_setCall (he : c.elections i term = some e) (hcall : e.calls p = some call₀)
    (hreply : ∀ reply, call₀.reply = some reply → call.reply = some reply)
    {j q : Fin n} {u : ℕ} :
    ((c.setNode k rf).setElection i term { e.setCall p call with votedNum := votedNum }).Voted
        j u q ↔
      c.Voted j u q ∨ (j = i ∧ u = term ∧ q = p) ∧
        ∃ reply, call.reply = some reply ∧ reply.votegranted = true := by
  have hold : c.voteCall i term p = some call₀ := by simp [voteCall, he, hcall]
  unfold Voted
  rw [voteCall_setCall he, setElection_elections]
  constructor
  · rintro (⟨rfl, e', he'⟩ | ⟨call', reply, hcall', hr, hg⟩)
    · split_ifs at he' with hsame
      · obtain ⟨rfl, rfl⟩ := hsame
        exact .inl (.inl ⟨rfl, e, he⟩)
      · exact .inl (.inl ⟨rfl, e', he'⟩)
    · split_ifs at hcall' with hsame
      · cases Option.some.inj hcall'
        exact .inr ⟨hsame, reply, hr, hg⟩
      · exact .inl (.inr ⟨call', reply, hcall', hr, hg⟩)
  · rintro ((⟨rfl, e', he'⟩ | ⟨call', reply, hcall', hr, hg⟩) | ⟨hsame, reply, hr, hg⟩)
    · refine .inl ⟨rfl, ?_⟩
      split_ifs
      · exact ⟨_, rfl⟩
      · exact ⟨e', he'⟩
    · refine .inr ?_
      split_ifs with hsame
      · obtain ⟨rfl, rfl, rfl⟩ := hsame
        rw [hold] at hcall'
        cases Option.some.inj hcall'
        exact ⟨call, reply, rfl, hreply reply hr, hg⟩
      · exact ⟨call', reply, hcall', hr, hg⟩
    · exact .inr ⟨call, reply, by rw [if_pos hsame], hr, hg⟩

/-- A reply that returns gives no new vote. -/
theorem voted_returned (he : c.elections i term = some e) {args : RequestVoteArgs n}
    {reply : RequestVoteReply} (hcall : e.calls p = some (.replied args reply))
    {j q : Fin n} {u : ℕ} :
    ((c.setNode k rf).setElection i term
      { e.setCall p (.returned args reply) with votedNum := votedNum }).Voted j u q ↔
      c.Voted j u q := by
  have hold : c.voteCall i term p = some (.replied args reply) := by simp [voteCall, he, hcall]
  rw [voted_setCall he hcall (by simp [Call.reply])]
  refine or_iff_left_of_imp ?_
  rintro ⟨⟨rfl, rfl, rfl⟩, reply', hr, hg⟩
  exact .inr ⟨_, reply', hold, hr, hg⟩

end setCall

/-- The vote of a term that a node has given is the one it holds. -/
theorem Elections.request_self (h : c.Elections) {i p : Fin n} {term : ℕ} {e : Election n}
    {call : Call (RequestVoteArgs n) RequestVoteReply} (he : c.elections i term = some e)
    (hcall : e.calls p = some call) :
    call.args.term = term ∧ call.args.candidateid = i ∧ p ≠ i :=
  h.request i term p call (by simp [voteCall, he, hcall])

/-- A call that goes on keeps its request. -/
theorem Elections.request_setCall (h : c.Elections) {i p k j q : Fin n} {term u votedNum : ℕ}
    {e : Election n} {rf : Node n} {call₀ call call' : Call (RequestVoteArgs n) RequestVoteReply}
    (he : c.elections i term = some e) (hcall : e.calls p = some call₀)
    (hq : ((c.setNode k rf).setElection i term
      { e.setCall p call with votedNum := votedNum }).voteCall j u q = some call')
    (hargs : call.args = call₀.args) :
    call'.args.term = u ∧ call'.args.candidateid = j ∧ q ≠ j := by
  rw [voteCall_setCall he] at hq
  split_ifs at hq with hsame
  · obtain ⟨rfl, rfl, rfl⟩ := hsame
    cases Option.some.inj hq
    rw [hargs]
    exact h.request_self he hcall
  · exact h.request j u q call' hq

theorem voteCall_opened {i : Fin n} {term : ℕ} {rf : Node n} {args : RequestVoteArgs n}
    {j q : Fin n} {u : ℕ} {call : Call (RequestVoteArgs n) RequestVoteReply}
    (hcall : ((c.setNode i rf).setElection i term (.opened i args)).voteCall j u q =
      some call) :
    c.voteCall j u q = some call ∨ (j = i ∧ u = term ∧ q ≠ i) ∧ call = .sent args := by
  unfold voteCall at hcall
  rw [setElection_elections] at hcall
  split_ifs at hcall with hsame
  · obtain ⟨rfl, rfl⟩ := hsame
    by_cases hq : q = j
    · simp [Election.opened, hq] at hcall
    · refine .inr ⟨⟨rfl, rfl, hq⟩, ?_⟩
      simp only [Option.bind_some, Election.opened, if_neg hq, Option.some.injEq] at hcall
      exact hcall.symm
  · exact .inl hcall

theorem voted_opened {i : Fin n} {term : ℕ} {rf : Node n} {args : RequestVoteArgs n}
    (hnone : c.elections i term = none) {j q : Fin n} {u : ℕ} :
    ((c.setNode i rf).setElection i term (.opened i args)).Voted j u q ↔
      c.Voted j u q ∨ (j = i ∧ u = term ∧ q = i) := by
  have hold : ∀ q, c.voteCall i term q = none := fun q ↦ by simp [voteCall, hnone]
  constructor
  · rintro (⟨rfl, e', he'⟩ | ⟨call, reply, hcall, hr, hg⟩)
    · rw [setElection_elections] at he'
      split_ifs at he' with hsame
      · exact .inr ⟨hsame.1, hsame.2, hsame.1⟩
      · exact .inl (.inl ⟨rfl, e', he'⟩)
    · rcases voteCall_opened hcall with hcall | ⟨-, rfl⟩
      · exact .inl (.inr ⟨call, reply, hcall, hr, hg⟩)
      · cases hr
  · unfold Voted
    rw [setElection_elections]
    rintro ((⟨rfl, e', he'⟩ | ⟨call, reply, hcall, hr, hg⟩) | ⟨rfl, rfl, rfl⟩)
    · refine .inl ⟨rfl, ?_⟩
      split_ifs
      · exact ⟨_, rfl⟩
      · exact ⟨e', he'⟩
    · have hother : ¬ (j = i ∧ u = term) := by
        rintro ⟨rfl, rfl⟩
        rw [hold] at hcall
        cases hcall
      refine .inr ⟨call, reply, ?_, hr, hg⟩
      rw [voteCall, setElection_elections, if_neg hother]
      exact hcall
    · exact .inl ⟨rfl, _, if_pos ⟨rfl, rfl⟩⟩

theorem Elections.doElection (h : c.Elections) {i : Fin n} {ps : Storage.Persister}
    (hev : ∀ j, (c.nodes j).Evolves ((c.setNode i ((c.nodes i).campaign i ps)).nodes j)) :
    ((c.setNode i ((c.nodes i).campaign i ps)).setElection i ((c.nodes i).currentTerm + 1)
      (.opened i ((c.nodes i).ballot i))).Elections := by
  -- nobody has voted in the new term
  have hfresh : ∀ j, ¬ c.Voted j ((c.nodes i).currentTerm + 1) i := by
    intro j hvoted
    have := (h.voted j _ i hvoted).1
    omega
  have hnone : c.elections i ((c.nodes i).currentTerm + 1) = none := by
    cases hsome : c.elections i ((c.nodes i).currentTerm + 1) with
    | none => rfl
    | some e => exact absurd (.inl ⟨rfl, e, hsome⟩) (hfresh i)
  refine ⟨?_, ?_, ?_, ?_, ?_, ?_, h.once, ?_⟩
  · intro j u q call hcall
    rcases voteCall_opened hcall with hcall | ⟨⟨rfl, rfl, hq⟩, rfl⟩
    · exact h.request j u q call hcall
    · exact ⟨rfl, rfl, hq⟩
  · intro j u q call reply hcall hr hg
    rcases voteCall_opened hcall with hcall | ⟨-, rfl⟩
    · exact h.reply j u q call reply hcall hr hg
    · cases hr
  · intro j u q hq
    rcases (voted_opened hnone).mp hq with hq | ⟨rfl, rfl, rfl⟩
    · exact h.voted_evolves hq (hev q)
    · simp [Node.campaign]
  · intro j k u q hj hk
    rcases (voted_opened hnone).mp hj with hj' | ⟨rfl, rfl, rfl⟩
    · rcases (voted_opened hnone).mp hk with hk' | ⟨rfl, rfl, rfl⟩
      · exact h.unique j k u q hj' hk'
      · exact absurd hj' (hfresh j)
    · rcases (voted_opened hnone).mp hk with hk' | ⟨rfl, -, -⟩
      · exact absurd hk' (hfresh k)
      · rfl
  · intro j u e he
    rw [setElection_elections] at he
    split_ifs at he with hsame
    · obtain ⟨rfl, rfl⟩ := hsame
      cases Option.some.inj he
      have hpending : tally (Election.opened j ((c.nodes j).ballot j)).calls Call.pending =
          Finset.univ.erase j := by
        ext q
        by_cases hq : q = j <;> simp [mem_tally, Election.opened, hq, Call.pending]
      have hcard : (Finset.univ.erase j).card = n - 1 := by simp
      have hpos : 0 < n := j.pos
      refine ⟨Nat.le_add_right _ _, ?_, fun helected ↦ ?_⟩
      · rw [hpending, hcard]
        simp only [Election.opened]
        omega
      · -- a node that has won a term has voted for itself in it
        obtain ⟨s, -, hself, hall⟩ := h.majority j _ helected
        exact absurd (hall j hself) (hfresh j)
    · obtain ⟨hle, hroom, hroom'⟩ := h.counted j u e he
      exact ⟨hle, hroom, hroom'⟩
  · intro j u hj
    obtain ⟨s, hs, hself, hall⟩ := h.majority j u hj
    exact ⟨s, hs, hself, fun p hp ↦ (voted_opened hnone).mpr (.inl (hall p hp))⟩
  · intro j hj
    by_cases hji : j = i
    · subst hji
      simp [Node.campaign] at hj
    · simp only [setElection_nodes, setNode_nodes, Function.update_of_ne hji] at hj ⊢
      exact h.leader j hj

/-- A granted vote is the vote that the node now holds, and the first one in its term. -/
theorem Elections.granted (h : c.Elections) {i p : Fin n} {term : ℕ} {args : RequestVoteArgs n}
    {rf : Node n} {reply : RequestVoteReply} (hterm : args.term = term)
    (hcandidate : args.candidateid = i)
    (hout : Node.RequestVoteOutcome (c.nodes p) args rf reply)
    (hgranted : reply.votegranted = true) :
    reply.term = term ∧ rf.currentTerm = term ∧ rf.votedFor = some i ∧
      ∀ j, c.Voted j term p → j = i := by
  cases hout with
  | expire => cases hgranted
  | refused => cases hgranted
  | granted ps hle hlog hfree =>
      refine ⟨hterm, ?_, by rw [hcandidate], fun j hj ↦ ?_⟩
      · simp only [Node.raiseTerm_currentTerm]
        omega
      · obtain ⟨hle', hvote⟩ := h.voted j term p hj
        have hsame : (c.nodes p).currentTerm = term := by omega
        rw [Node.raiseTerm_votedFor, if_neg (by omega), hvote hsame, hcandidate] at hfree
        simpa using hfree

/-- A reply that is on its way changes no tally of its election. -/
theorem tally_replied {e : Election n} {p : Fin n} {args : RequestVoteArgs n}
    (hcall : e.calls p = some (.sent args)) (reply : RequestVoteReply) :
    tally (e.setCall p (.replied args reply)).calls Call.pending = tally e.calls Call.pending ∧
      tally (e.setCall p (.replied args reply)).calls Call.granting =
        tally e.calls Call.granting := by
  have hpending : p ∈ tally e.calls Call.pending := mem_tally.mpr ⟨_, hcall, rfl⟩
  have hgranting : p ∉ tally e.calls Call.granting := by
    rw [mem_tally]
    rintro ⟨call, hsome, hg⟩
    rw [hcall] at hsome
    cases Option.some.inj hsome
    cases hg
  exact ⟨(tally_update e.calls _ p _).trans (Finset.insert_eq_of_mem hpending),
    (tally_update e.calls _ p _).trans (Finset.erase_eq_of_notMem hgranting)⟩

theorem Elections.requestVote (h : c.Elections) {i p : Fin n} {term : ℕ} {e : Election n}
    {args : RequestVoteArgs n} {rf : Node n} {reply : RequestVoteReply}
    (he : c.elections i term = some e) (hcall : e.calls p = some (.sent args))
    (hout : Node.RequestVoteOutcome (c.nodes p) args rf reply)
    (hev : ∀ j, (c.nodes j).Evolves ((c.setNode p rf).nodes j)) :
    ((c.setNode p rf).setElection i term (e.setCall p (.replied args reply))).Elections := by
  obtain ⟨hterm, hcandidate, -⟩ := h.request_self he hcall
  have hvoted : ∀ {j q : Fin n} {u : ℕ},
      ((c.setNode p rf).setElection i term (e.setCall p (.replied args reply))).Voted j u q ↔ _ :=
    voted_setCall he hcall (by simp [Call.reply])
  have hcalls : ∀ j u q, ((c.setNode p rf).setElection i term
      (e.setCall p (.replied args reply))).voteCall j u q = _ := voteCall_setCall he
  have hgranted := h.granted hterm hcandidate hout
  refine ⟨?_, ?_, ?_, ?_, ?_, ?_, h.once, ?_⟩
  · intro j u q call hq
    exact h.request_setCall he hcall hq rfl
  · intro j u q call reply' hq hr hg
    rw [hcalls] at hq
    split_ifs at hq with hsame
    · obtain ⟨rfl, rfl, rfl⟩ := hsame
      cases Option.some.inj hq
      cases Option.some.inj hr
      exact (hgranted hg).1
    · exact h.reply j u q call reply' hq hr hg
  · intro j u q hq
    rcases hvoted.mp hq with hq | ⟨⟨rfl, rfl, rfl⟩, reply', hr, hg⟩
    · exact h.voted_evolves hq (hev q)
    · cases Option.some.inj hr
      obtain ⟨-, hcur, hvote, -⟩ := hgranted hg
      simp [hcur, hvote]
  · intro j k u q hj hk
    rcases hvoted.mp hj with hj' | ⟨⟨rfl, rfl, rfl⟩, reply', hr, hg⟩
    · rcases hvoted.mp hk with hk' | ⟨⟨rfl, rfl, rfl⟩, reply', hr, hg⟩
      · exact h.unique j k u q hj' hk'
      · cases Option.some.inj hr
        exact (hgranted hg).2.2.2 j hj'
    · cases Option.some.inj hr
      rcases hvoted.mp hk with hk' | ⟨⟨rfl, -, -⟩, -⟩
      · exact ((hgranted hg).2.2.2 k hk').symm
      · rfl
  · intro j u e' he'
    rw [setElection_elections] at he'
    split_ifs at he' with hsame
    · obtain ⟨rfl, rfl⟩ := hsame
      cases Option.some.inj he'
      obtain ⟨hle, hroom, hroom'⟩ := h.counted j u e he
      obtain ⟨hpending, hgranting⟩ := tally_replied hcall reply
      refine ⟨?_, ?_, ?_⟩
      · rw [hgranting]
        exact hle
      · rw [hpending]
        exact hroom
      · rw [hpending]
        exact hroom'
    · obtain ⟨hle, hroom, hroom'⟩ := h.counted j u e' he'
      exact ⟨hle, hroom, hroom'⟩
  · intro j u hj
    obtain ⟨s, hs, hself, hall⟩ := h.majority j u hj
    exact ⟨s, hs, hself, fun q hq ↦ hvoted.mpr (.inl (hall q hq))⟩
  · intro j hj
    by_cases hjp : j = p
    · subst hjp
      simp only [setElection_nodes, setNode_nodes, Function.update_self] at hj ⊢
      obtain ⟨hstatus, hcur⟩ := hout.leads hj
      rw [hcur]
      exact h.leader j hstatus
    · simp only [setElection_nodes, setNode_nodes, Function.update_of_ne hjp] at hj ⊢
      exact h.leader j hj

/-- What a returned call does to the two tallies of its election. -/
theorem card_tally_returned {e : Election n} {p : Fin n} {args : RequestVoteArgs n}
    {reply : RequestVoteReply} (hcall : e.calls p = some (.replied args reply)) :
    (tally (e.setCall p (.returned args reply)).calls Call.pending).card + 1 =
        (tally e.calls Call.pending).card ∧
      (tally (e.setCall p (.returned args reply)).calls Call.granting).card =
        (tally e.calls Call.granting).card + reply.votegranted.toNat := by
  have hpending : p ∈ tally e.calls Call.pending := mem_tally.mpr ⟨_, hcall, rfl⟩
  have hgranting : p ∉ tally e.calls Call.granting := by
    rw [mem_tally]
    rintro ⟨call, hsome, hg⟩
    rw [hcall] at hsome
    cases Option.some.inj hsome
    cases hg
  rw [Election.setCall, tally_update, tally_update]
  refine ⟨Finset.card_erase_add_one hpending, ?_⟩
  cases hg : reply.votegranted with
  | true => simp [Call.granting, hg, hgranting]
  | false => simp [Call.granting, hg, hgranting]

/-- A node and those whose granted replies have returned to it have voted for it. -/
theorem exists_majority {i : Fin n} {term : ℕ} {e : Election n}
    (he : c.elections i term = some e)
    (hrequest : ∀ q call, c.voteCall i term q = some call → q ≠ i)
    (hmany : n / 2 ≤ (tally e.calls Call.granting).card) :
    ∃ s : Finset (Fin n), Majority s ∧ i ∈ s ∧ ∀ q ∈ s, c.Voted i term q := by
  have hmem : ∀ q ∈ tally e.calls Call.granting, ∃ call, c.voteCall i term q = some call ∧
      call.granting = true := by
    intro q hq
    obtain ⟨call, hcall, hgranting⟩ := mem_tally.mp hq
    exact ⟨call, by simp [voteCall, he, hcall], hgranting⟩
  refine ⟨insert i (tally e.calls Call.granting), ?_, Finset.mem_insert_self _ _, fun q hq ↦ ?_⟩
  · have hself : i ∉ tally e.calls Call.granting := by
      intro hi
      obtain ⟨call, hcall, -⟩ := hmem i hi
      exact hrequest i call hcall rfl
    rw [Majority, Fintype.card_fin, Finset.card_insert_of_notMem hself]
    omega
  · rcases Finset.mem_insert.mp hq with rfl | hq
    · exact .inl ⟨rfl, e, he⟩
    · obtain ⟨call, hcall, hgranting⟩ := hmem q hq
      cases call with
      | sent => cases hgranting
      | replied => cases hgranting
      | returned args reply => exact .inr ⟨_, reply, hcall, rfl, hgranting⟩

/-- A win that is new is recorded once. -/
theorem count_record_elected {i j : Fin n} {term u : ℕ} (hnot : ¬ c.Elected i term)
    (honce : c.history.count (.elected j u) ≤ 1) :
    (c.record [.elected i term]).history.count (.elected j u) ≤ 1 := by
  rw [record_history, List.count_append]
  by_cases hsame : j = i ∧ u = term
  · obtain ⟨rfl, rfl⟩ := hsame
    rw [List.count_eq_zero_of_not_mem hnot, Nat.zero_add]
    exact List.count_le_length
  · have hother : (Event.elected i term == Event.elected j u) = false := by
      rw [beq_eq_false_iff_ne]
      rintro heq
      cases heq
      exact hsame ⟨rfl, rfl⟩
    simpa [List.count_singleton, hother] using honce

section sendRequestVote

variable {i p : Fin n} {term : ℕ} {e : Election n} {args : RequestVoteArgs n}
  {reply : RequestVoteReply} {rf : Node n} {votedNum : ℕ} {elected : Bool}

/-- An election is won in its own term, and only once. -/
theorem Elections.new_of_won (h : c.Elections) (he : c.elections i term = some e)
    (hcall : e.calls p = some (.replied args reply))
    (hout : Node.SendRequestVoteOutcome (c.nodes i) reply e.votedNum rf votedNum elected)
    (hwon : elected = true) : rf.currentTerm = term ∧ ¬ c.Elected i term := by
  obtain ⟨hpending, -⟩ := card_tally_returned hcall
  obtain ⟨-, -, hroom⟩ := h.counted i term e he
  rcases hout.counts with ⟨hlost, -⟩ | ⟨-, hg, hcur, hmany, -⟩
  · rw [hlost] at hwon
    cases hwon
  · have hold : c.voteCall i term p = some (.replied args reply) := by
      simp [voteCall, he, hcall]
    refine ⟨hcur.symm.trans (h.reply i term p _ reply hold rfl hg), fun hbefore ↦ ?_⟩
    have := hroom hbefore
    omega

/-- The counter goes on with the reply that returns. -/
theorem Elections.counted_returned (h : c.Elections) (he : c.elections i term = some e)
    (hcall : e.calls p = some (.replied args reply))
    (hout : Node.SendRequestVoteOutcome (c.nodes i) reply e.votedNum rf votedNum elected)
    {c₁ : Cluster n} (helected : c₁.Elected i term → c.Elected i term ∨ elected = true) :
    c₁.Counted i term { e.setCall p (.returned args reply) with votedNum := votedNum } := by
  obtain ⟨hpending, hgranting⟩ := card_tally_returned hcall
  obtain ⟨hle, hroom, hroom'⟩ := h.counted i term e he
  have hg := Bool.toNat_le reply.votegranted
  rcases hout.counts with ⟨hlost, -, hnum⟩ | ⟨-, -, -, hmany, hnum⟩
  · refine ⟨?_, ?_, fun hwon ↦ ?_⟩
    · dsimp only
      omega
    · dsimp only
      omega
    · rcases helected hwon with hbefore | hwon
      · have := hroom' hbefore
        dsimp only
        omega
      · rw [hlost] at hwon
        cases hwon
  · refine ⟨?_, ?_, fun _ ↦ ?_⟩
    · dsimp only
      omega
    · dsimp only
      omega
    · dsimp only
      omega

/-- The replies that were granted are those of a majority when an election is won. -/
theorem Elections.many_of_won (h : c.Elections) (he : c.elections i term = some e)
    (hcall : e.calls p = some (.replied args reply))
    (hout : Node.SendRequestVoteOutcome (c.nodes i) reply e.votedNum rf votedNum elected)
    (hwon : elected = true) :
    n / 2 ≤ (tally (e.setCall p (.returned args reply)).calls Call.granting).card := by
  obtain ⟨-, hgranting⟩ := card_tally_returned hcall
  have hle := (h.counted i term e he).votedNum_le
  rcases hout.counts with ⟨hlost, -⟩ | ⟨-, hg, -, hmany, -⟩
  · rw [hlost] at hwon
    cases hwon
  · rw [hg, Bool.toNat_true] at hgranting
    omega

theorem Elections.sendRequestVote (h : c.Elections) (he : c.elections i term = some e)
    (hcall : e.calls p = some (.replied args reply))
    (hout : Node.SendRequestVoteOutcome (c.nodes i) reply e.votedNum rf votedNum elected)
    (hev : ∀ j, (c.nodes j).Evolves ((c.setNode i rf).nodes j)) :
    (((c.setNode i rf).setElection i term
      { e.setCall p (.returned args reply) with votedNum := votedNum }).record
        (if elected then [.elected i rf.currentTerm] else [])).Elections := by
  set c₁ := (c.setNode i rf).setElection i term
    { e.setCall p (.returned args reply) with votedNum := votedNum } with hc₁
  have hold : c.voteCall i term p = some (.replied args reply) := by simp [voteCall, he, hcall]
  have hvoted : ∀ {j q : Fin n} {u : ℕ}, c₁.Voted j u q ↔ c.Voted j u q :=
    voted_returned he hcall
  have hcalls : ∀ j u q, c₁.voteCall j u q = _ := voteCall_setCall he
  have hwins := h.new_of_won he hcall hout
  have helected : ∀ j u, (c₁.record (if elected then [.elected i rf.currentTerm] else [])).Elected
      j u ↔ c.Elected j u ∨ elected = true ∧ j = i ∧ u = term := by
    intro j u
    cases elected with
    | false => simp [Elected, hc₁]
    | true => simp [Elected, hc₁, (hwins rfl).1]
  have hrequest : ∀ j u q call, c₁.voteCall j u q = some call →
      call.args.term = u ∧ call.args.candidateid = j ∧ q ≠ j := by
    intro j u q call hq
    exact h.request_setCall he hcall hq rfl
  refine ⟨hrequest, ?_, ?_, ?_, ?_, ?_, ?_, ?_⟩
  · intro j u q call reply' hq hr hg
    change c₁.voteCall j u q = _ at hq
    rw [hcalls] at hq
    split_ifs at hq with hsame
    · obtain ⟨rfl, rfl, rfl⟩ := hsame
      cases Option.some.inj hq
      exact h.reply j u q _ reply' hold hr hg
    · exact h.reply j u q call reply' hq hr hg
  · intro j u q hq
    exact h.voted_evolves (hvoted.mp hq) (hev q)
  · intro j k u q hj hk
    exact h.unique j k u q (hvoted.mp hj) (hvoted.mp hk)
  · intro j u e' he'
    change c₁.elections j u = _ at he'
    rw [hc₁, setElection_elections] at he'
    split_ifs at he' with hsame
    · obtain ⟨rfl, rfl⟩ := hsame
      cases Option.some.inj he'
      exact h.counted_returned he hcall hout fun hwon ↦ ((helected j u).mp hwon).imp_right (·.1)
    · obtain ⟨hle, hroom, hroom'⟩ := h.counted j u e' he'
      refine ⟨hle, hroom, fun hwon ↦ ?_⟩
      rcases (helected j u).mp hwon with hbefore | ⟨-, hj, hu⟩
      · exact hroom' hbefore
      · exact absurd ⟨hj, hu⟩ hsame
  · intro j u hj
    rcases (helected j u).mp hj with hbefore | ⟨hwon, rfl, rfl⟩
    · obtain ⟨s, hs, hself, hall⟩ := h.majority j u hbefore
      exact ⟨s, hs, hself, fun q hq ↦ hvoted.mpr (hall q hq)⟩
    · have he₁ : c₁.elections j u =
          some { e.setCall p (.returned args reply) with votedNum := votedNum } := by
        simp [hc₁, setElection_elections]
      exact exists_majority he₁ (fun q call hq ↦ (hrequest j u q call hq).2.2)
        (h.many_of_won he hcall hout hwon)
  · intro j u
    cases elected with
    | false => simpa [hc₁] using h.once j u
    | true =>
        obtain ⟨hcur, hnew⟩ := hwins rfl
        rw [hcur]
        exact count_record_elected (c := c₁) hnew (h.once j u)
  · intro j hj
    by_cases hji : j = i
    · subst hji
      simp only [hc₁, record_nodes, setElection_nodes, setNode_nodes, Function.update_self]
        at hj ⊢
      refine (helected j _).mpr ?_
      rcases hout.counts with ⟨-, hleads, -⟩ | ⟨hwon, -⟩
      · obtain ⟨hstatus, hcur⟩ := hleads hj
        rw [hcur]
        exact .inl (h.leader j hstatus)
      · exact .inr ⟨hwon, rfl, (hwins hwon).1⟩
    · simp only [hc₁, record_nodes, setElection_nodes, setNode_nodes,
        Function.update_of_ne hji] at hj ⊢
      exact (helected j _).mpr (.inl (h.leader j hj))

end sendRequestVote

/-! ## Runs -/

theorem Elections.step (h : c.Elections) (hord : c.Ordered) (hstep : Step c a c') :
    c'.Elections := by
  have hev := hstep.evolves hord
  -- a step of one node that leads no more than before
  have hone : ∀ {i : Fin n} {rf : Node n}, (c.nodes i).Leads rf →
      ∀ j, (c.nodes j).Leads (Function.update c.nodes i rf j) := by
    intro i rf hrf
    exact (Function.forall_update_iff _ _).mpr ⟨hrf, fun _ _ hl ↦ ⟨hl, rfl⟩⟩
  have hsame : ∀ j, (c.nodes j).Leads (c.nodes j) := fun _ hl ↦ ⟨hl, rfl⟩
  cases hstep with
  | idle => exact h
  | exit a i => exact h.frame hev rfl (fun _ _ ↦ rfl) hsame
  | doElection i ps hstatus => exact h.doElection hev
  | requestVote i term p e args rf reply he hcall hout => exact h.requestVote he hcall hout hev
  | sendRequestVote i term p e args reply rf votedNum elected he hcall hout =>
      exact h.sendRequestVote he hcall hout hev
  | start i command log ps hstatus hlog =>
      exact h.frame hev rfl (fun _ _ ↦ by simp) (hone fun hl ↦ ⟨hl, rfl⟩)
  | doHeartBeat i senders hstatus hsenders => exact h.frame hev rfl (fun _ _ ↦ rfl) hsame
  | appendEntries1 i beat p b args rf reply hbeat hcall hout =>
      exact h.frame hev rfl (fun _ _ ↦ rfl) (hone hout.leads)
  | sendAppendEntries i beat p b args reply rf appendNums hbeat hcall hout =>
      exact h.frame hev rfl (fun _ _ ↦ rfl) (hone hout.leads)
  | leaderSendSnapShot i beat p b args ps hbeat hcall hterm hindex hsnap =>
      exact h.frame hev rfl (fun _ _ ↦ rfl) (hone fun hl ↦ ⟨hl, rfl⟩)
  | installSnapshot i beat p b args rf reply hbeat hcall hout =>
      exact h.frame hev rfl (fun _ _ ↦ rfl) (hone hout.leads)
  | disconnect => exact h.frame hev rfl (fun _ _ ↦ rfl) hsame
  | leaderSendSnapShotReply i beat p b args reply rf hbeat hcall hout =>
      exact h.frame hev rfl (fun _ _ ↦ rfl) (hone hout.leads)
  | snapshot i index data log ps hlt hle hlog =>
      exact h.frame hev rfl (fun _ _ ↦ rfl) (hone fun hl ↦ ⟨hl, rfl⟩)
  | getApplyLogs i msgs hmsgs =>
      refine h.frame hev rfl (fun j term ↦ ?_) (hone fun hl ↦ ⟨hl, rfl⟩)
      have hnot : Event.elected j term ∉ msgs.map (Event.emitted i) := by simp
      rw [record_history, List.count_append, List.count_eq_zero_of_not_mem hnot]
      rfl

theorem elections_init : (init : Cluster n).Elections := by
  refine ⟨?_, ?_, ?_, ?_, ?_, ?_, ?_, ?_⟩
  · simp [init, voteCall]
  · simp [init, voteCall]
  · simp [init, Voted, voteCall]
  · simp [init, Voted, voteCall]
  · simp [init]
  · simp [init, Elected]
  · simp [init]
  · simp [init, Node.fresh]

/-- Two winners of a term have a voter in common, so they are the same node. -/
theorem Elections.elected_unique (h : c.Elections) {i j : Fin n} {term : ℕ}
    (hi : c.Elected i term) (hj : c.Elected j term) : i = j := by
  obtain ⟨s, hs, -, hsi⟩ := h.majority i term hi
  obtain ⟨t, ht, -, htj⟩ := h.majority j term hj
  obtain ⟨p, hps, hpt⟩ := hs.exists_mem_mem ht
  exact h.unique i j term p (hsi p hps) (htj p hpt)

/-- A node that has won its term cannot reach the majority again. -/
theorem Elections.not_leader_of_majority (h : c.Elections) {i p : Fin n} {term : ℕ}
    {e : Election n} {args : RequestVoteArgs n} {reply : RequestVoteReply}
    (he : c.elections i term = some e) (hcall : e.calls p = some (.replied args reply))
    (hterm : reply.term = (c.nodes i).currentTerm) (hgranted : reply.votegranted = true)
    (hmany : n / 2 + 1 ≤ e.votedNum + 1) : (c.nodes i).status ≠ .leader := by
  intro hleader
  have hvote : c.voteCall i term p = some (.replied args reply) := by simp [voteCall, he, hcall]
  have hreply := h.reply i term p _ reply hvote rfl hgranted
  have helected := h.leader i hleader
  rw [← hterm, hreply] at helected
  have hroom := (h.counted i term e he).room_elected helected
  have hpos : 0 < (tally e.calls Call.pending).card :=
    Finset.card_pos.mpr ⟨p, mem_tally.mpr ⟨_, hcall, rfl⟩⟩
  omega

variable [TextArchive (BoostPersistRaftNode n)]

theorem elections_run (as : List (Action n)) : (run as).Elections :=
  run_invariant elections_init (fun _ _ _ hord hstep h ↦ h.step hord hstep) as

/-- The reply part of `sendRequestVote` never stops at an assertion. -/
theorem Elections.sendRequestVote_ok (h : c.Elections) {i p : Fin n} {term : ℕ}
    {e : Election n} {args : RequestVoteArgs n} {reply : RequestVoteReply}
    (he : c.elections i term = some e) (hcall : e.calls p = some (.replied args reply)) :
    ∃ result, (c.nodes i).sendRequestVote reply e.votedNum = .ok result := by
  have hnot := h.not_leader_of_majority he hcall
  unfold Node.sendRequestVote
  by_cases hhigh : (c.nodes i).currentTerm < reply.term
  · exact ⟨_, if_pos hhigh⟩
  by_cases hlow : reply.term < (c.nodes i).currentTerm
  · exact ⟨_, by rw [if_neg hhigh, if_pos hlow]⟩
  have hterm : reply.term = (c.nodes i).currentTerm := by omega
  rw [if_neg hhigh, if_neg hlow, Checked.require_bind hterm]
  dsimp only
  split_ifs with hgranted hmany
  · exact ⟨_, rfl⟩
  · rw [Checked.require_bind (hnot hterm (by simpa using hgranted) hmany)]
    exact ⟨_, rfl⟩
  · exact ⟨_, rfl⟩

/-- In every run, a term has at most one winner, who wins it once, and the
assertion against winning twice is never reached. -/
theorem election_safety (as : List (Action n)) :
    (∀ i j term, .elected i term ∈ (run as).history → .elected j term ∈ (run as).history →
      i = j) ∧
    (∀ i term, (run as).history.count (.elected i term) ≤ 1) ∧
    (∀ i term p e args reply, (run as).elections i term = some e →
      e.calls p = some (.replied args reply) →
      ∃ result, ((run as).nodes i).sendRequestVote reply e.votedNum = .ok result) := by
  have h := elections_run as
  refine ⟨?_, h.once, ?_⟩
  · exact fun i j term hi hj ↦ h.elected_unique hi hj
  · exact fun i term p e args reply he hcall ↦ h.sendRequestVote_ok he hcall

end Cluster

end HttpRaftKv.Raft
