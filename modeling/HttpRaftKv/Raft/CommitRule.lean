import HttpRaftKv.Raft.NextIndex

/-!
# The commit rule of the leader

`sendAppendEntries` commits when the counter of one heartbeat reaches the
majority, and only up to the end of the request whose reply completes it.  The
function `leaderUpdateCommitIndex`, which nothing calls, counts what is known of
all peers instead.  The two agree as long as the reply that makes an entry known
on a majority is also the one that completes the count of its heartbeat, with a
request that ends in the current term.
-/

namespace HttpRaftKv.Raft

open Checked Storage

namespace Node

variable {n : ℕ} {rf : Node n} {me p : Fin n}

/-- The nodes known to have an index, the leader included. -/
def known (me : Fin n) (rf : Node n) (index : ℕ) : Finset (Fin n) :=
  Finset.univ.filter fun q ↦ q = me ∨ index ≤ rf.matchIndex q

theorem mem_known {index : ℕ} {q : Fin n} :
    q ∈ rf.known me index ↔ q = me ∨ index ≤ rf.matchIndex q := by
  simp [known]

theorem replicas_eq (me : Fin n) (rf : Node n) (index : ℕ) :
    rf.replicas me index = (rf.known me index).card := by
  have hcount : ∀ (l : List (Fin n)) (sum : ℕ), l.foldl (fun sum i ↦
      if i = me then sum + 1 else if index ≤ rf.matchIndex i then sum + 1 else sum) sum =
      sum + l.countP fun q ↦ q = me ∨ index ≤ rf.matchIndex q := by
    intro l
    induction l with
    | nil => simp
    | cons q l ih =>
        intro sum
        rw [List.foldl_cons, ih, List.countP_cons]
        by_cases hme : q = me
        · simp [hme]
          omega
        · by_cases hmatch : index ≤ rf.matchIndex q
          · simp [hme, hmatch]
            omega
          · simp [hme, hmatch]
  rw [replicas, hcount, Nat.zero_add, List.countP_eq_length_filter]
  rfl

/-- An entry of the current term that is known on a majority. -/
def Committable (me : Fin n) (rf : Node n) (log : LogEntry) : Prop :=
  log ∈ rf.logs ∧ log.logterm = rf.currentTerm ∧ Majority (rf.known me log.logindex)

theorem majority_known_iff {index : ℕ} :
    Majority (rf.known me index) ↔ n / 2 + 1 ≤ rf.replicas me index := by
  rw [Majority, Fintype.card_fin, replicas_eq]

theorem Indexed.updateCommitLoop_spec (h : rf.Indexed) (me : Fin n) {k : ℕ}
    (hk : rf.lastSnapshotIncludeIndex + k ≤ rf.getLastLogIndex) :
    ∃ index, rf.updateCommitLoop me k = .ok index ∧
      (∀ log, rf.Committable me log → log.logindex ≤ rf.lastSnapshotIncludeIndex + k →
        log.logindex ≤ index) ∧
      (index = rf.lastSnapshotIncludeIndex ∨ ∃ log, rf.Committable me log ∧ log.logindex = index) := by
  induction k with
  | zero => exact ⟨rf.lastSnapshotIncludeIndex, rfl, fun _ _ hle ↦ hle, .inl rfl⟩
  | succ k ih =>
      obtain ⟨index, hloop, hmax, hfrom⟩ := ih (by omega)
      -- an entry at the index of this turn is the only one it can find
      obtain ⟨log, hlog⟩ := h.entryAt_isSome.mpr
        ⟨(by omega : rf.lastSnapshotIncludeIndex < rf.lastSnapshotIncludeIndex + (k + 1)), hk⟩
      have hindex := h.logindex_of_entryAt hlog
      have hterm : rf.getLogTermFromLogIndex (rf.lastSnapshotIncludeIndex + (k + 1)) =
          .ok log.logterm := by
        rw [h.getLogTermFromLogIndex_eq_ok, termAt, if_neg (by omega), hlog]
        rfl
      have hskip : ¬ rf.Committable me log → ∀ log', rf.Committable me log' →
          log'.logindex ≤ rf.lastSnapshotIncludeIndex + (k + 1) → log'.logindex ≤ index := by
        intro hnot log' hcommittable hle
        rcases hle.eq_or_lt with heq | hlt
        · have hsame := h.entryAt_logindex hcommittable.1
          rw [heq, hlog] at hsame
          cases Option.some.inj hsame
          exact absurd hcommittable hnot
        · exact hmax log' hcommittable (by omega)
      have hturn : rf.updateCommitLoop me (k + 1) =
          if n / 2 + 1 ≤ rf.replicas me (rf.lastSnapshotIncludeIndex + (k + 1)) then
            if log.logterm = rf.currentTerm then .ok (rf.lastSnapshotIncludeIndex + (k + 1))
            else rf.updateCommitLoop me k
          else rf.updateCommitLoop me k := by
        rw [updateCommitLoop, hterm]
        rfl
      rw [hturn]
      by_cases hmany : n / 2 + 1 ≤ rf.replicas me (rf.lastSnapshotIncludeIndex + (k + 1))
      · rw [if_pos hmany]
        by_cases hcurrent : log.logterm = rf.currentTerm
        · refine ⟨_, if_pos hcurrent, fun _ _ hle ↦ hle, .inr ⟨log, ?_, hindex⟩⟩
          refine ⟨mem_logs_of_entryAt hlog, hcurrent, ?_⟩
          rw [hindex]
          exact majority_known_iff.mpr hmany
        · exact ⟨index, (if_neg hcurrent).trans hloop, hskip fun hc ↦ hcurrent hc.2.1, hfrom⟩
      · refine ⟨index, (if_neg hmany).trans hloop, hskip fun hc ↦ hmany ?_, hfrom⟩
        have hmajority := hc.2.2
        rw [hindex] at hmajority
        exact majority_known_iff.mp hmajority

/-- The function finds the largest index of an entry of the current term that is
known on a majority, or falls back to the snapshot. -/
theorem Indexed.leaderUpdateCommitIndex_spec (h : rf.Indexed) (me : Fin n) :
    ∃ index, rf.leaderUpdateCommitIndex me = .ok { rf with commitIndex := index } ∧
      (∀ log, rf.Committable me log → log.logindex ≤ index) ∧
      (index = rf.lastSnapshotIncludeIndex ∨
        ∃ log, rf.Committable me log ∧ log.logindex = index) := by
  have hlast := h.getLastLogIndex_eq
  have hsum : rf.lastSnapshotIncludeIndex + (rf.getLastLogIndex - rf.lastSnapshotIncludeIndex) =
      rf.getLastLogIndex := by omega
  obtain ⟨index, hloop, hmax, hfrom⟩ := h.updateCommitLoop_spec me hsum.le
  refine ⟨index, ?_, fun log hlog ↦ hmax log hlog ?_, hfrom⟩
  · rw [leaderUpdateCommitIndex, hloop]
    rfl
  · rw [hsum]
    exact (h.entryAt_isSome.mp ⟨log, h.entryAt_logindex hlog.1⟩).2

/-- The commit index is at least the one that `leaderUpdateCommitIndex` computes. -/
def KeepsUp (me : Fin n) (rf : Node n) : Prop :=
  ∃ rf', rf.leaderUpdateCommitIndex me = .ok rf' ∧ rf'.commitIndex ≤ rf.commitIndex

theorem Sound.keepsUp_iff (h : rf.Sound) :
    rf.KeepsUp me ↔ ∀ log, rf.Committable me log → log.logindex ≤ rf.commitIndex := by
  obtain ⟨index, hupdate, hmax, hfrom⟩ := h.indexed.leaderUpdateCommitIndex_spec me
  constructor
  · rintro ⟨rf', hrf', hle⟩ log hlog
    rw [hupdate] at hrf'
    cases Except.ok.inj hrf'
    exact (hmax log hlog).trans hle
  · intro hall
    refine ⟨_, hupdate, ?_⟩
    rcases hfrom with rfl | ⟨log, hlog, rfl⟩
    · exact h.snap_le.trans h.applied_le
    · exact hall log hlog

/-! ## One reply -/

/-- A success reply makes an entry of the current term known on a majority, but
it does not complete the count of its heartbeat, or its request does not end in
the current term. -/
def Strands (me p : Fin n) (rf : Node n) (args : AppendEntriesArgs n) (appendNums : ℕ) : Prop :=
  ¬ (1 + n / 2 ≤ appendNums + 1 ∧
      args.entries.getLast?.map LogEntry.logterm = some rf.currentTerm) ∧
    ∃ log ∈ rf.logs, rf.commitIndex < log.logindex ∧ log.logindex ≤ args.lastIndex ∧
      log.logterm = rf.currentTerm ∧ n / 2 + 1 ≤ (insert p (rf.known me log.logindex)).card

instance (me p : Fin n) (rf : Node n) (args : AppendEntriesArgs n) (appendNums : ℕ) :
    Decidable (rf.Strands me p args appendNums) :=
  inferInstanceAs (Decidable (_ ∧ _))

/-- The node after a success reply. -/
def replySuccess (rf : Node n) (server : Fin n) (args : AppendEntriesArgs n) (appendNums : ℕ) :
    Node n :=
  { rf.replyMatched server args with commitIndex := rf.replyCommit args appendNums }

theorem known_replySuccess (args : AppendEntriesArgs n) (appendNums index : ℕ) :
    (rf.replySuccess p args appendNums).known me index =
      if index ≤ args.lastIndex then insert p (rf.known me index) else rf.known me index := by
  ext q
  by_cases hqp : q = p
  · subst hqp
    split_ifs with hle
    · simp [mem_known, replySuccess, replyMatched, AppendEntriesArgs.lastIndex] at hle ⊢
      omega
    · simp [mem_known, replySuccess, replyMatched, AppendEntriesArgs.lastIndex] at hle ⊢
      omega
  · split_ifs
    · simp [mem_known, replySuccess, replyMatched, hqp]
    · simp [mem_known, replySuccess, replyMatched, hqp]

theorem commitIndex_le_replyCommit (args : AppendEntriesArgs n) (appendNums : ℕ) :
    rf.commitIndex ≤ rf.replyCommit args appendNums := by
  unfold replyCommit
  split_ifs
  · exact le_max_left _ _
  · exact le_rfl

/-- A success reply strands nothing exactly if it does not meet the condition. -/
theorem replySuccess_committable_iff (args : AppendEntriesArgs n) (appendNums : ℕ)
    (hbefore : ∀ log, rf.Committable me log → log.logindex ≤ rf.commitIndex) :
    (∀ log, (rf.replySuccess p args appendNums).Committable me log →
      log.logindex ≤ rf.replyCommit args appendNums) ↔ ¬ rf.Strands me p args appendNums := by
  constructor
  · rintro hafter ⟨hmissed, log, hlog, hlt, hle, hterm, hmany⟩
    have hcommittable : (rf.replySuccess p args appendNums).Committable me log := by
      refine ⟨hlog, hterm, ?_⟩
      rwa [known_replySuccess, if_pos hle, Majority, Fintype.card_fin]
    have hkept := hafter log hcommittable
    rw [replyCommit, if_neg hmissed] at hkept
    omega
  · rintro hnot log ⟨hlog, hterm, hmany⟩
    rw [known_replySuccess] at hmany
    by_cases hold : log.logindex ≤ rf.commitIndex
    · exact hold.trans (commitIndex_le_replyCommit args appendNums)
    split_ifs at hmany with hle
    · by_cases hcount : 1 + n / 2 ≤ appendNums + 1 ∧
          args.entries.getLast?.map LogEntry.logterm = some rf.currentTerm
      · rw [replyCommit, if_pos hcount]
        exact hle.trans (le_max_right _ _)
      · rw [Majority, Fintype.card_fin] at hmany
        exact absurd ⟨hcount, log, hlog, Nat.lt_of_not_le hold, hle, hterm, hmany⟩ hnot
    · exact absurd (hbefore log ⟨hlog, hterm, hmany⟩) hold

theorem sendAppendEntries_success {server : Fin n} {args : AppendEntriesArgs n}
    {reply : AppendEntriesReply} {appendNums appendNums' : ℕ} {rf' : Node n}
    (hnormal : reply.appstate ≠ .disconnected) (hterm : reply.term = rf.currentTerm)
    (hstatus : rf.status = .leader) (hsuccess : reply.success = true)
    (h : rf.sendAppendEntries server args reply appendNums = .ok (rf', appendNums')) :
    rf' = rf.replySuccess server args appendNums := by
  unfold sendAppendEntries at h
  rw [if_neg hnormal, if_neg hterm.not_gt, if_neg hterm.not_lt, if_neg (not_not_intro hstatus)] at h
  rw [require_bind hterm, hsuccess] at h
  obtain ⟨-, -, h⟩ := bind_eq_ok.mp h
  unfold replySuccess replyCommit
  split_ifs at h with hmany hlast
  · obtain ⟨-, -, h⟩ := bind_eq_ok.mp h
    rw [if_pos ⟨hmany, hlast⟩]
    cases pure_eq_ok.mp h
    rfl
  · obtain ⟨-, -, h⟩ := bind_eq_ok.mp h
    rw [if_neg fun hboth ↦ hlast hboth.2]
    cases pure_eq_ok.mp h
    rfl
  · rw [if_neg fun hboth ↦ hmany hboth.1]
    cases pure_eq_ok.mp h
    rfl

end Node

/-! ## Runs -/

/-- A success reply as its leader meets it. -/
structure Acceptance (n : ℕ) where
  leader : Fin n
  peer : Fin n
  args : AppendEntriesArgs n
  appendNums : ℕ
deriving DecidableEq

namespace Cluster

variable {n : ℕ} {c c' : Cluster n} {a : Action n}

open Node

/-- The success reply in its own term that an action hands to a leader. -/
def accepted (c : Cluster n) : Action n → Option (Acceptance n)
  | .sendAppendEntries i beat p => do
      let h ← (c.heartBeats i)[beat]?
      let some (.appendEntries (.replied args reply)) := h.senders p | none
      guard (c.exited i = false ∧ reply.appstate ≠ .disconnected ∧
        reply.term = (c.nodes i).currentTerm ∧ (c.nodes i).status = .leader ∧
        reply.success = true)
      return { leader := i, peer := p, args := args, appendNums := h.appendNums }
  | _ => none

/-- An action that leaves no entry behind that is known on a majority. -/
def StrandsNothing (c : Cluster n) (a : Action n) : Prop :=
  ∀ x ∈ c.accepted a, ¬ (c.nodes x.leader).Strands x.leader x.peer x.args x.appendNums

instance (c : Cluster n) (a : Action n) : Decidable (c.StrandsNothing a) :=
  inferInstanceAs (Decidable (∀ x ∈ c.accepted a, _))

theorem accepted_eq_some {x : Acceptance n} (hx : c.accepted a = some x) :
    ∃ beat h reply, a = .sendAppendEntries x.leader beat x.peer ∧
      (c.heartBeats x.leader)[beat]? = some h ∧
      h.senders x.peer = some (.appendEntries (.replied x.args reply)) ∧
      h.appendNums = x.appendNums ∧ c.exited x.leader = false ∧
      reply.appstate ≠ .disconnected ∧ reply.term = (c.nodes x.leader).currentTerm ∧
      (c.nodes x.leader).status = .leader ∧ reply.success = true := by
  cases a with
  | sendAppendEntries i beat p =>
      obtain ⟨h, hbeat, hx⟩ := Option.bind_eq_some_iff.mp hx
      split at hx
      · rename_i args reply hcall
        obtain ⟨_, hguard, hx⟩ := Option.bind_eq_some_iff.mp hx
        cases Option.some.inj hx
        have hall : c.exited i = false ∧ reply.appstate ≠ .disconnected ∧
            reply.term = (c.nodes i).currentTerm ∧ (c.nodes i).status = .leader ∧
            reply.success = true := by
          by_contra hnot
          simp [hnot] at hguard
        exact ⟨beat, h, reply, rfl, hbeat, hcall, rfl, hall⟩
      · cases hx
  | _ => cases hx

/-- A leader has peers, and what it knows on a majority is committed.  A
snapshot in flight covers only what is committed, and replies are complete. -/
structure KeepsUp (c : Cluster n) : Prop where
  peers : ∀ i, (c.nodes i).status = .leader → 2 ≤ n
  committed : ∀ i, (c.nodes i).status = .leader → ∀ log, (c.nodes i).Committable i log →
    log.logindex ≤ (c.nodes i).commitIndex
  snapShot : ∀ i beat p call, c.sender i beat p = some (.snapShot (some call)) →
    call.args.lastsnapshotincludeindex ≤ (c.nodes i).commitIndex
  normal : ∀ i beat p call reply, c.sender i beat p = some (.appendEntries call) →
    call.reply = some reply → reply.appstate ≠ .disconnected

/-- An index that no peer is known to have is not known on a majority. -/
theorem not_majority_known {rf : Node n} {i : Fin n} {index : ℕ} (hpeers : 2 ≤ n)
    (hmatch : ∀ q, rf.matchIndex q < index) : ¬ Majority (rf.known i index) := by
  have hknown : rf.known i index = {i} := by
    ext q
    simp [mem_known, (hmatch q).not_ge]
  rw [Majority, hknown, Finset.card_singleton, Fintype.card_fin]
  omega

theorem KeepsUp.step_snapShot (h : c.KeepsUp) (hord : c.Ordered) (hstep : Step c a c') {i p : Fin n}
    {beat : ℕ} {call : Call (InstallSnapshotRequest n) InstallSnapshotResponse}
    (hcall : c'.sender i beat p = some (.snapShot (some call))) :
    call.args.lastsnapshotincludeindex ≤ (c'.nodes i).commitIndex := by
  refine le_trans ?_ (hstep.commitIndex_le hord i)
  rcases hstep.snap_cases hcall with ⟨call₀, hold, hargs⟩ | ⟨-, hindex, -⟩
  · rw [← hargs]
    exact h.snapShot i beat p call₀ hold
  · rw [hindex]
    exact (hord.node i).snap_le.trans (hord.node i).applied_le

theorem KeepsUp.step_peers (h : c.KeepsUp) (helections : c.Elections) (hstep : Step c a c')
    {i : Fin n} (hleader : (c'.nodes i).status = .leader) : 2 ≤ n := by
  generalize hrf : c'.nodes i = rf at hleader
  have htracks : Tracks c a i rf := hrf ▸ hstep.tracks i
  cases htracks with
  | kept _ hleads => exact h.peers i (hleads hleader).1
  | won ps hstatus hasked =>
      -- the node has asked somebody else for a vote
      obtain ⟨term, p, call, hcall⟩ := hasked
      have hne := (helections.request i term p call hcall).2.2
      have hval : p.val ≠ i.val := fun heq ↦ hne (Fin.ext heq)
      omega
  | rejected beat p args reply hcall hstatus => exact h.peers i hstatus
  | matched beat p b args reply hact hbeat hcall hterm hstatus => exact h.peers i hstatus
  | snapShot beat p args reply hact hcall hstatus => exact h.peers i hstatus

theorem KeepsUp.step_committed (h : c.KeepsUp) (hord : c.Ordered) (hbounded : c.Bounded)
    (helections : c.Elections) (hstep : Step c a c') {i : Fin n}
    (hstrands : ∀ beat p b args reply, a = .sendAppendEntries i beat p →
      (c.heartBeats i)[beat]? = some b →
      b.senders p = some (.appendEntries (.replied args reply)) →
      reply.term = (c.nodes i).currentTerm → (c.nodes i).status = .leader →
      reply.success = true → ¬ (c.nodes i).Strands i p args b.appendNums)
    (hleader : (c'.nodes i).status = .leader) {log : LogEntry}
    (hlog : (c'.nodes i).Committable i log) : log.logindex ≤ (c'.nodes i).commitIndex := by
  have hpeers := h.step_peers helections hstep hleader
  have hcommit := hstep.commitIndex_le hord i
  have hindexed := (hstep.evolves hord i).sound.indexed
  have hmem := hstep.mem_logs hlog.1
  generalize hrf : c'.nodes i = rf at hleader hlog hcommit hindexed hmem
  have htracks : Tracks c a i rf := hrf ▸ hstep.tracks i
  cases htracks with
  | kept _ hleads hkeeps =>
      obtain ⟨hstatus, hterm⟩ := hleads hleader
      obtain ⟨-, hcurrent, hmany⟩ := hlog
      have hknown : rf.known i log.logindex = (c.nodes i).known i log.logindex := by
        rw [known, known, hkeeps.2]
      rw [hknown] at hmany
      rcases hmem with hold | ⟨-, hnot⟩ | ⟨-, hnew⟩
      · exact (h.committed i hstatus log ⟨hold, hcurrent.trans hterm, hmany⟩).trans hcommit
      · exact absurd hleader hnot
      · -- a new entry is above everything that is known of the peers
        refine absurd hmany (not_majority_known hpeers fun q ↦ ?_)
        have := hbounded.matchIndex i q
        omega
  | won =>
      refine absurd hlog.2.2 (not_majority_known hpeers fun q ↦ ?_)
      obtain ⟨k, hk⟩ := List.mem_iff_getElem?.mp hlog.1
      have := hindexed k log hk
      dsimp only
      omega
  | rejected beat p args reply hcall hstatus => exact h.committed i hstatus log hlog
  | matched beat p b args reply hact hbeat hcall hterm hstatus hsuccess =>
      exact (replySuccess_committable_iff args b.appendNums (h.committed i hstatus)).mpr
        (hstrands beat p b args reply hact hbeat hcall hterm hstatus hsuccess) log hlog
  | snapShot beat p args reply hact hcall hstatus =>
      by_contra hlt
      -- what is above the commit index is above the snapshot
      have hsnap := h.snapShot i beat p _ hcall
      simp only [Call.args] at hsnap
      dsimp only at hlt
      refine hlt (h.committed i hstatus log ⟨hlog.1, hlog.2.1, ?_⟩)
      refine hlog.2.2.trans (Finset.card_le_card fun q hq ↦ ?_)
      rw [mem_known] at hq ⊢
      by_cases hqp : q = p
      · subst hqp
        simp only [Function.update_self] at hq
        exact .inl (hq.resolve_right (by omega))
      · simpa only [Function.update_of_ne hqp] using hq

theorem KeepsUp.step_normal (h : c.KeepsUp) (hstep : Step c a c') {i p : Fin n} {beat : ℕ}
    {call : Call (AppendEntriesArgs n) AppendEntriesReply} {reply : AppendEntriesReply}
    (hcall : c'.sender i beat p = some (.appendEntries call)) (hreply : call.reply = some reply) :
    reply.appstate ≠ .disconnected := by
  rcases hstep.append_cases hcall with ⟨call₀, hold, -, hreplies⟩ | ⟨-, hnone, -⟩
  · rcases hreplies reply hreply with hreply₀ | ⟨-, -, hout⟩
    · exact h.normal i beat p call₀ reply hold hreply₀
    · generalize c'.nodes p = rf at hout
      cases hout <;> exact nofun
  · rw [hnone] at hreply
    cases hreply

theorem keepsUp_init : (init : Cluster n).KeepsUp where
  peers := fun _ hleader ↦ by cases hleader
  committed := fun _ hleader ↦ by cases hleader
  snapShot := by simp [init, sender]
  normal := by simp [init, sender]

section runs

variable [TextArchive (BoostPersistRaftNode n)]

theorem KeepsUp.step (h : c.KeepsUp) (hord : c.Ordered) (hbounded : c.Bounded)
    (helections : c.Elections) (hstrands : c.StrandsNothing a) : (c.step a).KeepsUp := by
  by_cases hidle : c.step a = c
  · rwa [hidle]
  have hstep := hord.step_spec a
  refine ⟨?_, ?_, ?_, ?_⟩
  · exact fun i hleader ↦ h.step_peers helections hstep hleader
  · intro i hleader log hlog
    refine h.step_committed hord hbounded helections hstep ?_ hleader hlog
    rintro beat p b args reply rfl hbeat hcall hterm hstatus hsuccess
    have hexited : c.exited i = false := by
      by_contra hexited
      exact hidle (by simp [Cluster.step, next, hexited])
    have hnormal := h.normal i beat p (.replied args reply) reply
      (by simp [sender, hbeat, hcall]) rfl
    refine hstrands ⟨i, p, args, b.appendNums⟩ ?_
    simp [accepted, hbeat, hcall, hexited, hnormal, hterm, hstatus, hsuccess]
  · exact fun i beat p call hcall ↦ h.step_snapShot hord hstep hcall
  · exact fun i beat p call reply hcall hreply ↦ h.step_normal hstep hcall hreply

/-- What a leader does with a success reply. -/
theorem step_accepted (as : List (Action n)) {x : Acceptance n}
    (hx : (run as).accepted a = some x) :
    ((run as).step a).nodes x.leader =
        ((run as).nodes x.leader).replySuccess x.peer x.args x.appendNums ∧
      ((run as).nodes x.leader).status = .leader := by
  obtain ⟨beat, h, reply, rfl, hbeat, hcall, hnums, hexited, hnormal, hterm, hstatus, hsuccess⟩ :=
    accepted_eq_some hx
  have hbounded := bounded_run as
  obtain ⟨⟨rf, appendNums⟩, hresult⟩ : ∃ result,
      ((run as).nodes x.leader).sendAppendEntries x.peer x.args reply h.appendNums = .ok result := by
    apply Node.sendAppendEntries_ok
    · exact hbounded.matchIndex x.leader x.peer
    · exact (hbounded.request x.leader beat x.peer (.replied x.args reply)
        (by simp [sender, hbeat, hcall])).1
    · exact ((ordered_run as).node x.leader).commit_le
  refine ⟨?_, hstatus⟩
  rw [← hnums, ← Node.sendAppendEntries_success hnormal hterm hstatus hsuccess hresult]
  simp [Cluster.step, next, hexited, hbeat, hcall, hresult]

/-- After every success reply that a leader processes, its commit index is at
least the one that `leaderUpdateCommitIndex` computes, exactly if every reply
that makes an entry of the current term known on a majority completes the count
of its heartbeat with a request that ends in the current term. -/
theorem keepsUp_iff_strandsNothing (as : List (Action n)) :
    (∀ us a, us ++ [a] <+: as → ∀ x, (run us).accepted a = some x →
      ((run (us ++ [a])).nodes x.leader).KeepsUp x.leader) ↔
    Runs.Along Cluster.step StrandsNothing init as := by
  refine Iff.trans ?_ (Runs.property_iff_along (P := fun _ c ↦ c.KeepsUp)
    (Q := fun bs c ↦ ∀ us a, bs = us ++ [a] → ∀ x, (run us).accepted a = some x →
      (c.nodes x.leader).KeepsUp x.leader)
    Cluster.step keepsUp_init ?_ ?_ ?_ as)
  · constructor
    · rintro h bs hbs us a rfl x hx
      exact h us a hbs x hx
    · intro h us a hus x hx
      exact h (us ++ [a]) hus us a rfl x hx
  · exact fun us a h hstrands ↦
      h.step (ordered_run us) (bounded_run us) (elections_run us) hstrands
  · rintro bs h us a rfl x hx
    obtain ⟨hnode, hstatus⟩ := step_accepted us hx
    apply ((ordered_run (us ++ [a])).node x.leader).keepsUp_iff.mpr
    refine h.committed x.leader ?_
    rw [Runs.run_snoc]
    exact (congrArg Node.status hnode).trans hstatus
  · intro us a h hafter x hx
    obtain ⟨hnode, hstatus⟩ := step_accepted us hx
    have hkeeps : (((run us).step a).nodes x.leader).KeepsUp x.leader := hafter us a rfl x hx
    have hsound := (ordered_run (us ++ [a])).node x.leader
    rw [run_snoc] at hsound
    rw [hsound.keepsUp_iff, hnode] at hkeeps
    exact (replySuccess_committable_iff x.args x.appendNums (h.committed x.leader hstatus)).mp
      hkeeps

end runs

section stranded

open scoped Archive

/-- Node `i` of five leads term 1 and appends `x`.  In the first round only node `j`
answers, and in the second one node `k`, which gets the entry, and then node `j`,
whose request is empty: three nodes have the entry, and nobody commits it. -/
def strandedRun {n : ℕ} (i j k : Fin n) : List (Action n) :=
  [.doElection i, .requestVote i 1 j, .sendRequestVote i 1 j, .requestVote i 1 k,
    .sendRequestVote i 1 k, .start i "x", .doHeartBeat i, .appendEntries1 i 0 j,
    .sendAppendEntries i 0 j, .doHeartBeat i, .appendEntries1 i 1 k, .sendAppendEntries i 1 k,
    .appendEntries1 i 1 j, .sendAppendEntries i 1 j]

theorem commit_stranded_in_strandedRun :
    ¬ ∀ us a, us ++ [a] <+: strandedRun (0 : Fin 5) 1 2 → ∀ x, (run us).accepted a = some x →
      ((run (us ++ [a])).nodes x.leader).KeepsUp x.leader := by
  intro h
  obtain ⟨rf, hupdate, hle⟩ := h ((strandedRun 0 1 2).take 13) (.sendAppendEntries 0 1 1)
    List.prefix_rfl ⟨0, 1, ⟨1, 0, 1, 1, [], 0⟩, 2⟩ (by decide +kernel)
  have hindex : (((run (strandedRun (0 : Fin 5) 1 2)).nodes 0).leaderUpdateCommitIndex 0).map
      Node.commitIndex = .ok 1 := by decide +kernel
  have hcommit : ((run (strandedRun (0 : Fin 5) 1 2)).nodes 0).commitIndex = 0 := by
    decide +kernel
  have hone : rf.commitIndex = 1 := Except.ok.inj
    ((congrArg (Except.map Node.commitIndex) hupdate).symm.trans hindex)
  exact absurd (hle.trans hcommit.le) (by omega)

end stranded

end Cluster

end HttpRaftKv.Raft
