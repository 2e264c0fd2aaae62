import HttpRaftKv.Raft.Entries

/-!
# When the leader commits

All requests of one heartbeat end at the last index that the leader had when it
built them, so a success reply to any of them says that the peer has held the
entry at that index.  The counter `appendNums` never exceeds the success
replies that have returned, the leader itself counted in.  A leader loses no
entry while it leads, so when the counter reaches the majority it still holds
the entry it commits.
-/

namespace HttpRaftKv.Raft

namespace AppendEntriesArgs

variable {n : ℕ}

/-- The last index that a request covers. -/
def lastIndex (args : AppendEntriesArgs n) : ℕ :=
  args.prevlogindex + args.entries.length

/-- The term at the last index that a request covers. -/
def lastTerm (args : AppendEntriesArgs n) : ℕ :=
  (args.entries.getLast?.map LogEntry.logterm).getD args.prevlogterm

end AppendEntriesArgs

namespace Node

variable {n : ℕ} {rf rf' : Node n}

/-- A node has an entry of an index and a term in its log or as the boundary
of its snapshot. -/
def Holds (rf : Node n) (index term : ℕ) : Prop :=
  (∃ log ∈ rf.logs, log.logindex = index ∧ log.logterm = term) ∨
    rf.lastSnapshotIncludeIndex = index ∧ rf.lastSnapshotIncludeTerm = term

theorem Indexed.holds_of_termAt (h : rf.Indexed) {index term : ℕ}
    (hterm : rf.termAt index = some term) : rf.Holds index term := by
  unfold termAt at hterm
  split_ifs at hterm with heq
  · exact .inr ⟨heq.symm, Option.some.inj hterm⟩
  · obtain ⟨log, hlog, rfl⟩ := Option.map_eq_some_iff.mp hterm
    exact .inl ⟨log, mem_logs_of_entryAt hlog, h.logindex_of_entryAt hlog, rfl⟩

/-- The last entry of a request that is not empty. -/
theorem Consecutive.getLast {prev : ℕ} {entries : List LogEntry} {log : LogEntry}
    (h : Consecutive prev entries) (hlast : entries.getLast? = some log) :
    log ∈ entries ∧ log.logindex = prev + entries.length := by
  refine ⟨List.mem_of_getLast? hlast, ?_⟩
  rw [List.getLast?_eq_getElem?] at hlast
  have hindex := h _ _ hlast
  have hlt := (List.getElem?_eq_some_iff.mp hlast).1
  omega

/-- A node that has replied with success holds the end of the request. -/
theorem AppendEntriesOutcome.holds {args : AppendEntriesArgs n} {reply : AppendEntriesReply}
    (hout : AppendEntriesOutcome rf args rf' reply) (hindexed : rf.Indexed)
    (hcons : Consecutive args.prevlogindex args.entries) (hsuccess : reply.success = true) :
    reply.term = args.term ∧ rf'.currentTerm = args.term ∧
      rf'.Holds args.lastIndex args.lastTerm := by
  cases hout with
  | stale => cases hsuccess
  | short => cases hsuccess
  | mismatched => cases hsuccess
  | matched ps hterm hprev hcommand =>
      refine ⟨rfl, ?_, ?_⟩
      · simp only [joinTerm, raiseTerm_currentTerm]
        omega
      · cases hlast : args.entries.getLast? with
        | none =>
            have hnil : args.entries = [] := List.getLast?_eq_none_iff.mp hlast
            have hold := hindexed.holds_of_termAt hprev
            simp only [AppendEntriesArgs.lastIndex, AppendEntriesArgs.lastTerm, hnil, splice_nil]
            simpa [Holds, joinTerm] using hold
        | some log =>
            obtain ⟨hmem, hindex⟩ := hcons.getLast hlast
            refine .inl ⟨log, ?_, hindex, ?_⟩
            · simp [splice, hmem]
            · simp [AppendEntriesArgs.lastTerm, hlast]

end Node

/-- The thread has counted a success reply. -/
def Sender.counted {n : ℕ} : Sender n → Bool
  | .appendEntries (.returned _ reply) => reply.success
  | _ => false

theorem Sender.counted_eq_true {n : ℕ} {s : Sender n} (h : s.counted = true) :
    ∃ args reply, s = .appendEntries (.returned args reply) ∧ reply.success = true := by
  cases s with
  | snapShot => cases h
  | appendEntries call =>
      cases call with
      | sent => cases h
      | replied => cases h
      | returned args reply => exact ⟨args, reply, rfl, h⟩

namespace Cluster

variable {n : ℕ} {c c' : Cluster n} {a : Action n}

theorem Built.lastIndex {i : Fin n} {rf : Node n} {args : AppendEntriesArgs n}
    (h : Built i rf args) : args.lastIndex = rf.getLastLogIndex :=
  h.length

theorem Built.lastTerm {i : Fin n} {rf : Node n} {args : AppendEntriesArgs n}
    (h : Built i rf args) (hindexed : rf.Indexed) :
    rf.termAt rf.getLastLogIndex = some args.lastTerm := by
  unfold AppendEntriesArgs.lastTerm
  cases hlast : args.entries.getLast? with
  | none =>
      have hnil : args.entries = [] := List.getLast?_eq_none_iff.mp hlast
      have hlength := h.length
      rw [hnil, List.length_nil, Nat.add_zero] at hlength
      rw [← hlength, h.prevlogterm]
      rfl
  | some log =>
      obtain ⟨hmem, hindex⟩ := (h.consecutive hindexed).getLast hlast
      rw [h.length] at hindex
      have hstored : log ∈ rf.logs := by
        rw [h.entries] at hmem
        exact List.mem_of_mem_drop hmem
      have hentry := hindexed.entryAt_logindex hstored
      have hlt := (hindexed.entryAt_isSome.mp ⟨log, hentry⟩).1
      rw [hindex] at hentry hlt
      rw [Node.termAt, if_neg hlt.ne', hentry]
      rfl

/-- The win of an election is recorded when it happens. -/
theorem Step.wins (hstep : Step c a c') {j : Fin n} (hleader : (c'.nodes j).status = .leader) :
    ((c.nodes j).status = .leader ∧ (c'.nodes j).currentTerm = (c.nodes j).currentTerm) ∨
      c'.history = c.history ++ [.elected j (c'.nodes j).currentTerm] := by
  -- the nodes that do not act have led before
  have hone : ∀ {i : Fin n} {rf : Node n}, (Function.update c.nodes i rf j).status = .leader →
      ((c.nodes i).Leads rf ∨ j = i ∧ c'.history = c.history ++ [.elected j rf.currentTerm]) →
      ((c.nodes j).status = .leader ∧
          (Function.update c.nodes i rf j).currentTerm = (c.nodes j).currentTerm) ∨
        c'.history = c.history ++ [.elected j (Function.update c.nodes i rf j).currentTerm] := by
    intro i rf hl hrf
    by_cases hji : j = i
    · subst hji
      rw [Function.update_self] at hl ⊢
      rcases hrf with hleads | ⟨-, hhistory⟩
      · exact .inl (hleads hl)
      · exact .inr hhistory
    · rw [Function.update_of_ne hji] at hl ⊢
      exact .inl ⟨hl, rfl⟩
  cases hstep with
  | idle => exact .inl ⟨hleader, rfl⟩
  | exit => exact .inl ⟨hleader, rfl⟩
  | doElection => exact hone hleader (.inl nofun)
  | requestVote i term p e args rf reply he hcall hout => exact hone hleader (.inl hout.leads)
  | sendRequestVote i term p e args reply rf votedNum elected he hcall hout =>
      cases elected with
      | false => exact hone hleader (.inl hout.leads)
      | true =>
          by_cases hji : j = i
          · subst hji
            exact hone hleader (.inr ⟨rfl, rfl⟩)
          · simp only [record_nodes, setElection_nodes, setNode_nodes,
              Function.update_of_ne hji] at hleader ⊢
            exact .inl ⟨hleader, trivial⟩
  | start => exact hone hleader (.inl fun hl ↦ ⟨hl, rfl⟩)
  | doHeartBeat => exact .inl ⟨hleader, rfl⟩
  | appendEntries1 i beat p b args rf reply hbeat hcall hout => exact hone hleader (.inl hout.leads)
  | sendAppendEntries i beat p b args reply rf appendNums hbeat hcall hout =>
      exact hone hleader (.inl hout.leads)
  | leaderSendSnapShot => exact hone hleader (.inl fun hl ↦ ⟨hl, rfl⟩)
  | installSnapshot i beat p b args rf reply hbeat hcall hout =>
      exact hone hleader (.inl hout.leads)
  | disconnect => exact .inl ⟨hleader, rfl⟩
  | leaderSendSnapShotReply i beat p b args reply rf hbeat hcall hout =>
      exact hone hleader (.inl hout.leads)
  | snapshot => exact hone hleader (.inl fun hl ↦ ⟨hl, rfl⟩)
  | getApplyLogs => exact hone hleader (.inl fun hl ↦ ⟨hl, rfl⟩)

/-- What a leader has sent in its term is still in its log. -/
structure Led (c : Cluster n) : Prop where
  elected : ∀ i beat p call, c.sender i beat p = some (.appendEntries call) →
    p ≠ i ∧ c.Elected i call.args.term
  kept : ∀ i beat p call, c.sender i beat p = some (.appendEntries call) →
    (c.nodes i).status = .leader → (c.nodes i).currentTerm = call.args.term →
    ∀ log ∈ call.args.entries, (c.nodes i).lastSnapshotIncludeIndex < log.logindex →
      log ∈ (c.nodes i).logs

theorem Led.step (h : c.Led) (hord : c.Ordered) (helections : c.Elections)
    (hstep : Step c a c') : c'.Led := by
  have hev := hstep.evolves hord
  have hold : ∀ i beat p call, c.sender i beat p = some (.appendEntries call) →
      (c'.nodes i).status = .leader → (c'.nodes i).currentTerm = call.args.term →
      ∀ log ∈ call.args.entries, (c'.nodes i).lastSnapshotIncludeIndex < log.logindex →
        log ∈ (c'.nodes i).logs := by
    intro i beat p call hcall hleader hterm log hlog hindex
    rcases hstep.wins hleader with ⟨hstatus, hsame⟩ | hwon
    · have hkept := h.kept i beat p call hcall hstatus (hsame.symm.trans hterm) log hlog
        ((hev i).base_le.trans_lt hindex)
      exact (hev i).kept hleader log hkept hindex
    · -- the term of the request has been won before
      have honce := (helections.step hord hstep).once i call.args.term
      have hpos := List.count_pos_iff.mpr (h.elected i beat p call hcall).2
      rw [hwon, hterm, List.count_append, List.count_singleton_self] at honce
      omega
  refine ⟨?_, ?_⟩
  · intro i beat p call hcall
    rcases hstep.append_cases hcall with ⟨call₀, hbefore, hargs, -⟩ |
      ⟨-, -, hne, hstatus, hbuilt, -⟩
    · rw [← hargs]
      exact (h.elected i beat p call₀ hbefore).imp_right hstep.elected_mono
    · refine ⟨hne, hstep.elected_mono ?_⟩
      rw [hbuilt.term]
      exact helections.leader i hstatus
  · intro i beat p call hcall hleader hterm
    rcases hstep.append_cases hcall with ⟨call₀, hbefore, hargs, -⟩ |
      ⟨-, -, -, -, hbuilt, hnodes⟩
    · rw [← hargs] at hterm ⊢
      exact hold i beat p call₀ hbefore hleader hterm
    · intro log hlog _
      rw [hbuilt.entries] at hlog
      rw [hnodes]
      exact List.mem_of_mem_drop hlog

theorem led_init : (init : Cluster n).Led := by
  refine ⟨?_, ?_⟩
  · simp [init, sender]
  · simp [init, sender]

/-! ## Acknowledgements -/

/-- The requests of one heartbeat end at the same entry. -/
def SameEnd (c : Cluster n) (i : Fin n) (beat : ℕ) (term index last : ℕ) : Prop :=
  ∀ p call, c.sender i beat p = some (.appendEntries call) →
    call.args.term = term ∧ call.args.lastIndex = index ∧ call.args.lastTerm = last

/-- The counter of a heartbeat does not exceed the success replies returned. -/
def Counts (c : Cluster n) : Prop :=
  ∀ (i : Fin n) (beat : ℕ) (h : HeartBeat n), (c.heartBeats i)[beat]? = some h →
    h.appendNums ≤ 1 + (tally h.senders Sender.counted).card

theorem Step.sameEnd (hstep : Step c a c') (hord : c.Ordered) {i : Fin n} {beat : ℕ}
    (h : ∃ term index last, c.SameEnd i beat term index last) :
    ∃ term index last, c'.SameEnd i beat term index last := by
  by_cases hnew : (c.heartBeats i)[beat]? = none
  · refine ⟨(c.nodes i).currentTerm, (c.nodes i).getLastLogIndex,
      ((c.nodes i).termAt (c.nodes i).getLastLogIndex).getD 0, fun p call hcall ↦ ?_⟩
    rcases hstep.append_cases hcall with ⟨call₀, hold, -, -⟩ | ⟨-, -, -, -, hbuilt, -⟩
    · simp [sender, hnew] at hold
    · rw [hbuilt.lastTerm (hord.node i).indexed]
      exact ⟨hbuilt.term, hbuilt.lastIndex, rfl⟩
  · obtain ⟨term, index, last, hsame⟩ := h
    refine ⟨term, index, last, fun p call hcall ↦ ?_⟩
    rcases hstep.append_cases hcall with ⟨call₀, hold, hargs, -⟩ | ⟨hnone, -⟩
    · rw [← hargs]
      exact hsame p call₀ hold
    · exact absurd hnone hnew

/-- A phase of a thread does not change the tally if the thread is not counted
before and after. -/
theorem tally_counted_eq {h : HeartBeat n} {p : Fin n} {s₀ s : Sender n}
    (hs₀ : h.senders p = some s₀) (hold : s₀.counted = false) (hnew : s.counted = false) :
    tally (h.setSender p s).senders Sender.counted = tally h.senders Sender.counted := by
  have hnot : p ∉ tally h.senders Sender.counted := by
    rw [mem_tally]
    rintro ⟨s', hs', hcounted⟩
    rw [hs₀] at hs'
    cases Option.some.inj hs'
    rw [hold] at hcounted
    cases hcounted
  rw [HeartBeat.setSender, tally_update, hnew]
  exact Finset.erase_eq_of_notMem hnot

/-- A returned reply adds to the tally if it reports success. -/
theorem card_tally_counted {h : HeartBeat n} {p : Fin n} {args : AppendEntriesArgs n}
    {reply : AppendEntriesReply}
    (hcall : h.senders p = some (.appendEntries (.replied args reply))) :
    (tally (h.setSender p (.appendEntries (.returned args reply))).senders Sender.counted).card =
      (tally h.senders Sender.counted).card + reply.success.toNat := by
  have hnot : p ∉ tally h.senders Sender.counted := by
    rw [mem_tally]
    rintro ⟨s', hs', hcounted⟩
    rw [hcall] at hs'
    cases Option.some.inj hs'
    cases hcounted
  rw [HeartBeat.setSender, tally_update]
  cases hsuccess : reply.success with
  | true => simp [Sender.counted, hsuccess, hnot]
  | false => simp [Sender.counted, hsuccess, hnot]

theorem Counts.step (h : c.Counts) (hstep : Step c a c') : c'.Counts := by
  intro i beat h' hh'
  -- only one heartbeat changes
  have hone : ∀ {j k q : Fin n} {b num : ℕ} {h₀ : HeartBeat n} {s : Sender n} {rf : Node n},
      (c.heartBeats j)[b]? = some h₀ →
      num ≤ 1 + (tally (h₀.setSender q s).senders Sender.counted).card →
      (((c.setNode k rf).setHeartBeat j b { h₀.setSender q s with appendNums := num }).heartBeats
        i)[beat]? = some h' → h'.appendNums ≤ 1 + (tally h'.senders Sender.counted).card := by
    intro j k q b num h₀ s rf hb hnum hget
    rw [setHeartBeat_getElem? _ _ _ (by exact hb)] at hget
    split_ifs at hget with hsame
    · cases Option.some.inj hget
      exact hnum
    · exact h i beat h' hget
  cases hstep with
  | doHeartBeat j senders hstatus hsenders =>
      rw [addHeartBeat_getElem?] at hh'
      split_ifs at hh' with hsame
      · cases Option.some.inj hh'
        exact Nat.le_add_right _ _
      · exact h i beat h' hh'
  | appendEntries1 j b q h₀ args rf reply hbeat hcall hout =>
      refine hone hbeat ?_ hh'
      rw [tally_counted_eq hcall rfl rfl]
      exact h j b h₀ hbeat
  | sendAppendEntries j b q h₀ args reply rf appendNums hbeat hcall hout =>
      refine hone hbeat ?_ hh'
      have hle := h j b h₀ hbeat
      rw [card_tally_counted hcall]
      cases hout with
      | counted hterm hstatus hsuccess =>
          simp only [hsuccess, Bool.toNat_true]
          omega
      | majority => exact Nat.zero_le _
      | committed => exact Nat.zero_le _
      | _ => omega
  | leaderSendSnapShot j b q h₀ args ps hbeat hcall hterm hindex hsnap =>
      refine hone hbeat ?_ hh'
      rw [tally_counted_eq hcall rfl rfl]
      exact h j b h₀ hbeat
  | installSnapshot j b q h₀ args rf reply hbeat hcall hout =>
      refine hone hbeat ?_ hh'
      rw [tally_counted_eq hcall rfl rfl]
      exact h j b h₀ hbeat
  | disconnect j b q h₀ call hbeat hcall =>
      rw [← c.setNode_self j] at hh'
      refine hone hbeat ?_ hh'
      rw [tally_counted_eq hcall rfl rfl]
      exact h j b h₀ hbeat
  | leaderSendSnapShotReply j b q h₀ args reply rf hbeat hcall hout =>
      refine hone hbeat ?_ hh'
      rw [tally_counted_eq hcall rfl rfl]
      exact h j b h₀ hbeat
  | _ => exact h i beat h' hh'

/-- The outcome by which the reply part raises the commit index. -/
theorem Step.raises (hstep : Step c a c') {i p : Fin n} {beat : ℕ}
    (ha : a = .sendAppendEntries i beat p)
    (hraise : (c.nodes i).commitIndex < (c'.nodes i).commitIndex) :
    ∃ h args reply, (c.heartBeats i)[beat]? = some h ∧
      h.senders p = some (.appendEntries (.replied args reply)) ∧
      reply.term = (c.nodes i).currentTerm ∧ (c.nodes i).status = .leader ∧
      reply.success = true ∧ n / 2 ≤ h.appendNums ∧
      args.entries.getLast?.map LogEntry.logterm = some (c.nodes i).currentTerm ∧
      (c'.nodes i).commitIndex = args.lastIndex ∧ (c'.nodes i).logs = (c.nodes i).logs ∧
      (c'.nodes i).currentTerm = (c.nodes i).currentTerm := by
  cases hstep with
  | idle => exact absurd hraise (lt_irrefl _)
  | exit => exact absurd hraise (lt_irrefl _)
  | sendAppendEntries j b q h args reply rf appendNums hbeat hcall hout =>
      cases ha
      simp only [setHeartBeat_nodes, setNode_nodes, Function.update_self] at hraise ⊢
      cases hout with
      | committed hterm hstatus hsuccess hmany hlast hcommit =>
          refine ⟨h, args, reply, hbeat, hcall, hterm, hstatus, hsuccess, by omega, hlast, ?_,
            rfl, rfl⟩
          simp only [AppendEntriesArgs.lastIndex] at hraise ⊢
          omega
      | _ => exact absurd hraise (lt_irrefl _)
  | _ => cases ha

section runs

variable [TextArchive (BoostPersistRaftNode n)]

/-- At some moment of a run, a node was in a term and held an entry. -/
def Acked (as : List (Action n)) (p : Fin n) (term index last : ℕ) : Prop :=
  ∃ past, past <+: as ∧ ((run past).nodes p).currentTerm = term ∧
    ((run past).nodes p).Holds index last

theorem Acked.snoc {as : List (Action n)} {p : Fin n} {term index last : ℕ}
    (h : Acked as p term index last) (a : Action n) : Acked (as ++ [a]) p term index last := by
  obtain ⟨past, hpast, hheld⟩ := h
  exact ⟨past, hpast.trans (List.prefix_append as [a]), hheld⟩

structure Acknowledged (as : List (Action n)) (c : Cluster n) : Prop where
  same : ∀ i beat, ∃ term index last, c.SameEnd i beat term index last
  acked : ∀ i beat p call reply, c.sender i beat p = some (.appendEntries call) →
    call.reply = some reply → reply.success = true → reply.term = call.args.term ∧
      Acked as p call.args.term call.args.lastIndex call.args.lastTerm
  counted : c.Counts

theorem acknowledged_run (as : List (Action n)) : Acknowledged as (run as) := by
  refine Runs.invariant_of_step step (P := Acknowledged) ?_ (fun as a h ↦ ?_) as
  · refine ⟨fun i beat ↦ ⟨0, 0, 0, ?_⟩, ?_, ?_⟩
    · simp [SameEnd, init, sender]
    · simp [init, sender]
    · simp [Counts, init]
  · have hstep := run_step as a
    have hord := ordered_run as
    rw [run_snoc] at hstep
    change Acknowledged as (run as) at h
    change Acknowledged (as ++ [a]) ((run as).step a)
    refine ⟨fun i beat ↦ hstep.sameEnd hord (h.same i beat), ?_, h.counted.step hstep⟩
    intro i beat p call reply hcall hreply hsuccess
    rcases hstep.append_cases hcall with ⟨call₀, hold, hargs, hreplies⟩ | ⟨-, hnone, -⟩
    · rcases hreplies reply hreply with hreply₀ | ⟨-, -, hout⟩
      · obtain ⟨hterm, hacked⟩ := h.acked i beat p call₀ reply hold hreply₀ hsuccess
        rw [← hargs]
        exact ⟨hterm, hacked.snoc a⟩
      · have hcons := hord.request i beat p call₀ hold
        rw [hargs] at hcons
        obtain ⟨hterm, hcurrent, hholds⟩ :=
          hout.holds (hord.node p).indexed hcons hsuccess
        refine ⟨hterm, as ++ [a], List.prefix_rfl, ?_, ?_⟩
        · rw [run_snoc]
          exact hcurrent
        · rw [run_snoc]
          exact hholds
    · rw [hnone] at hreply
      cases hreply

theorem led_run (as : List (Action n)) : (run as).Led := by
  have hboth : (run as).Elections ∧ (run as).Led :=
    run_invariant (P := fun c ↦ c.Elections ∧ c.Led) ⟨elections_init, led_init⟩
      (fun _ _ _ hord hstep h ↦ ⟨h.1.step hord hstep, h.2.step hord h.1 hstep⟩) as
  exact hboth.2

/-- Whenever the reply part of `sendAppendEntries` raises the commit index of a
leader, the leader has an entry of its own term there, and a majority of the
nodes has held this entry in this term. -/
theorem leader_commit_sound (as : List (Action n)) {i p : Fin n} {beat index term : ℕ}
    (hraise : ((run as).nodes i).commitIndex <
      ((run (as ++ [Action.sendAppendEntries i beat p])).nodes i).commitIndex)
    (hindex : ((run (as ++ [Action.sendAppendEntries i beat p])).nodes i).commitIndex = index)
    (hterm : ((run (as ++ [Action.sendAppendEntries i beat p])).nodes i).currentTerm = term) :
    (∃ log ∈ ((run (as ++ [Action.sendAppendEntries i beat p])).nodes i).logs,
      log.logindex = index ∧ log.logterm = term) ∧
    ∃ s : Finset (Fin n), n / 2 + 1 ≤ s.card ∧ i ∈ s ∧
      ∀ q ∈ s, Acked (as ++ [Action.sendAppendEntries i beat p]) q term index term := by
  have hord := ordered_run as
  have hled := led_run as
  have hack := acknowledged_run as
  obtain ⟨h, args, reply, hbeat, hcall, hreply, hstatus, hsuccess, hmany, hlast, hcommit,
    hlogs, hsame⟩ := (run_step as (.sendAppendEntries i beat p)).raises rfl hraise
  have hsender : (run as).sender i beat p = some (.appendEntries (.replied args reply)) := by
    simp [sender, hbeat, hcall]
  rw [hsame] at hterm
  rw [hcommit] at hindex hraise
  obtain ⟨hargs, hacked⟩ := hack.acked i beat p _ reply hsender rfl hsuccess
  simp only [Call.args] at hargs hacked
  have hargsTerm : args.term = term := by rw [← hargs, hreply, hterm]
  have hlastTerm : args.lastTerm = term := by
    rw [AppendEntriesArgs.lastTerm, hlast]
    exact hterm
  -- the leader has the last entry of the request, since it is above its snapshot
  obtain ⟨log, hlog, hlogterm⟩ := Option.map_eq_some_iff.mp hlast
  obtain ⟨hmem, hlogindex⟩ := (hord.request i beat p _ hsender).getLast hlog
  change log.logindex = args.lastIndex at hlogindex
  have hsnap := (hord.node i).snap_le.trans (hord.node i).applied_le
  have hstored : log ∈ ((run as).nodes i).logs :=
    hled.kept i beat p _ hsender hstatus (hterm.trans hargsTerm.symm) log hmem (by omega)
  have hleader : Acked as i term index term :=
    ⟨as, List.prefix_rfl, hterm,
      .inl ⟨log, hstored, hlogindex.trans hindex, hlogterm.trans hterm⟩⟩
  refine ⟨⟨log, by rwa [hlogs], hlogindex.trans hindex, hlogterm.trans hterm⟩, ?_⟩
  -- the peers that have been counted before, this one and the leader
  obtain ⟨term', index', last', hend⟩ := hack.same i beat
  obtain ⟨hterm', hindex', hlast'⟩ := hend p _ hsender
  simp only [Call.args] at hterm' hindex' hlast'
  have hpeer : ∀ q ∈ tally h.senders Sender.counted, q ≠ i ∧ Acked as q term index term := by
    intro q hq
    obtain ⟨s, hs, hcounted⟩ := mem_tally.mp hq
    obtain ⟨args', reply', rfl, hsuccess'⟩ := Sender.counted_eq_true hcounted
    have hsender' : (run as).sender i beat q =
        some (.appendEntries (.returned args' reply')) := by simp [sender, hbeat, hs]
    have hacked' := (hack.acked i beat q _ reply' hsender' rfl hsuccess').2
    obtain ⟨h1, h2, h3⟩ := hend q _ hsender'
    rw [h1, h2, h3, ← hterm', ← hindex', ← hlast', hargsTerm, hindex, hlastTerm] at hacked'
    exact ⟨(hled.elected i beat q _ hsender').1, hacked'⟩
  have hnew : p ∉ tally h.senders Sender.counted := by
    rw [mem_tally]
    rintro ⟨s, hs, hcounted⟩
    rw [hcall] at hs
    cases Option.some.inj hs
    cases hcounted
  have hself : i ∉ insert p (tally h.senders Sender.counted) := by
    rw [Finset.mem_insert]
    rintro (hip | hi)
    · exact (hled.elected i beat p _ hsender).1 hip.symm
    · exact (hpeer i hi).1 rfl
  refine ⟨insert i (insert p (tally h.senders Sender.counted)), ?_,
    Finset.mem_insert_self _ _, fun q hq ↦ Acked.snoc ?_ _⟩
  · have := hack.counted i beat h hbeat
    rw [Finset.card_insert_of_notMem hself, Finset.card_insert_of_notMem hnew]
    omega
  · rcases Finset.mem_insert.mp hq with rfl | hq
    · exact hleader
    · rcases Finset.mem_insert.mp hq with rfl | hq
      · rwa [hargsTerm, hindex, hlastTerm] at hacked
      · exact (hpeer q hq).2

end runs

section committed

open scoped Archive

/-- One entry on a leader and a peer, before the leader counts the reply. -/
def repliedRun (i p : Fin n) : List (Action n) :=
  [.doElection i, .requestVote i 1 p, .sendRequestVote i 1 p, .start i "x", .doHeartBeat i,
    .appendEntries1 i 0 p]

theorem leader_commit_sound_at_first_entry :
    (∃ log ∈ ((run (repliedRun (0 : Fin 3) 1 ++ [Action.sendAppendEntries 0 0 1])).nodes 0).logs,
      log.logindex = 1 ∧ log.logterm = 1) ∧
    ∃ s : Finset (Fin 3), 3 / 2 + 1 ≤ s.card ∧ 0 ∈ s ∧
      ∀ q ∈ s, Acked (repliedRun 0 1 ++ [Action.sendAppendEntries 0 0 1]) q 1 1 1 :=
  leader_commit_sound (repliedRun 0 1) (by decide +kernel) (by decide +kernel) (by decide +kernel)

end committed

end Cluster

end HttpRaftKv.Raft
