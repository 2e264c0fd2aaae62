import HttpRaftKv.Raft.Agreement

/-!
# What the nodes hand out

The commands that `getApplyLogs` hands out on a node are its stream.  As long as
no node makes a snapshot, the stream of a node has the commands of the indices
from 1 to `lastApplied`, one after another, and each of them has been given to
`Start`.  In the runs without a stale tail, of any two streams one begins the
other: the nodes broadcast the commands in one order.
-/

namespace HttpRaftKv.Raft

variable {n : ℕ}

/-- The action makes a snapshot. -/
def Action.compacts : Action n → Bool
  | .snapshot _ _ _ => true
  | _ => false

theorem Node.InstallSnapshotOutcome.of_empty {rf rf' : Node n} {args : InstallSnapshotRequest n}
    {reply : InstallSnapshotResponse} (hout : InstallSnapshotOutcome rf args rf' reply)
    (hempty : args.lastsnapshotincludeindex = 0) :
    rf'.lastSnapshotIncludeIndex = rf.lastSnapshotIncludeIndex ∧
      rf'.lastApplied = rf.lastApplied := by
  cases hout with
  | stale => exact ⟨rfl, rfl⟩
  | outdated => simp [joinTerm]
  | installed ps hterm hindex => omega

/-- The message of an event of a node that hands one out. -/
def Event.emittedOn (i : Fin n) : Event n → Option ApplyMsg
  | .emitted j msg => if j = i then some msg else none
  | _ => none

namespace Cluster

open Node

variable {c c' : Cluster n} {a : Action n}

/-- The commands that a node has handed out, in their order. -/
def stream (c : Cluster n) (i : Fin n) : List ApplyMsg :=
  c.history.filterMap (Event.emittedOn i)

theorem mem_stream {i : Fin n} {msg : ApplyMsg} :
    msg ∈ c.stream i ↔ .emitted i msg ∈ c.history := by
  simp only [stream, List.mem_filterMap]
  constructor
  · rintro ⟨event, hevent, hmsg⟩
    cases event with
    | emitted j msg' =>
        simp only [Event.emittedOn] at hmsg
        split_ifs at hmsg with hj
        cases hmsg
        exact hj ▸ hevent
    | _ => cases hmsg
  · exact fun h ↦ ⟨_, h, by simp [Event.emittedOn]⟩

/-- The history only grows. -/
theorem Step.history (hstep : Step c a c') : ∃ events, c'.history = c.history ++ events := by
  cases hstep with
  | sendRequestVote => exact ⟨_, rfl⟩
  | start => exact ⟨_, rfl⟩
  | getApplyLogs => exact ⟨_, rfl⟩
  | _ => exact ⟨[], (List.append_nil _).symm⟩

theorem Step.stream_grows (hstep : Step c a c') (i : Fin n) : c.stream i <+: c'.stream i := by
  obtain ⟨events, hevents⟩ := hstep.history
  rw [stream, stream, hevents, List.filterMap_append]
  exact List.prefix_append _ _

/-- A new entry has the command that `Start` is given. -/
theorem Step.started_command (hstep : Step c a c') {log : LogEntry} (hlog : c'.Started log) :
    c.Started log ∨ ∃ i, a = .start i log.command := by
  obtain ⟨j, hj⟩ := hlog
  cases hstep with
  | sendRequestVote i term p e args reply rf votedNum elected =>
      rcases List.mem_append.mp hj with hold | hnew
      · exact .inl ⟨j, hold⟩
      · cases elected <;> simp at hnew
  | start i command new ps hstatus hnew =>
      rcases List.mem_append.mp hj with hold | hlast
      · exact .inl ⟨j, hold⟩
      · have heq : j = i ∧ log = new := by simpa using hlast
        exact .inr ⟨i, by rw [heq.2, hnew]⟩
  | getApplyLogs i msgs =>
      rcases List.mem_append.mp hj with hold | hnew
      · exact .inl ⟨j, hold⟩
      · simp at hnew
  | _ => exact .inl ⟨j, hj⟩

/-! ## Nothing is compacted -/

/-- No node has a snapshot, and those in flight are empty. -/
structure Uncompacted (c : Cluster n) : Prop where
  node : ∀ i, (c.nodes i).lastSnapshotIncludeIndex = 0
  snaps : ∀ i beat p call, c.sender i beat p = some (.snapShot (some call)) →
    call.args.lastsnapshotincludeindex = 0

theorem Uncompacted.snap_empty (h : c.Uncompacted) {i p : Fin n} {beat : ℕ} {b : HeartBeat n}
    {args : InstallSnapshotRequest n} (hbeat : (c.heartBeats i)[beat]? = some b)
    (hcall : b.senders p = some (.snapShot (some (.sent args)))) :
    args.lastsnapshotincludeindex = 0 :=
  h.snaps i beat p (.sent args) (by simp [sender, hbeat, hcall])

theorem Uncompacted.step (h : c.Uncompacted) (hstep : Step c a c') (hraw : a.compacts = false) :
    c'.Uncompacted where
  node := by
    have hone : ∀ {i : Fin n} {rf : Node n}, rf.lastSnapshotIncludeIndex = 0 →
        ∀ j, (Function.update c.nodes i rf j).lastSnapshotIncludeIndex = 0 := by
      intro i rf hrf
      exact (Function.forall_update_iff c.nodes fun _ rf ↦ rf.lastSnapshotIncludeIndex = 0).mpr
        ⟨hrf, fun j _ ↦ h.node j⟩
    cases hstep with
    | idle => exact h.node
    | exit => exact h.node
    | doElection i => exact hone (h.node i)
    | requestVote i term p e args rf reply he hcall hout =>
        refine hone ?_
        cases hout with
        | expire => exact h.node p
        | refused => simpa using h.node p
        | granted => simpa using h.node p
    | sendRequestVote i term p e args reply rf votedNum elected he hcall hout =>
        refine hone ?_
        cases hout <;> exact h.node i
    | start i => exact hone (h.node i)
    | doHeartBeat => exact h.node
    | appendEntries1 i beat p b args rf reply hbeat hcall hout =>
        refine hone ?_
        cases hout with
        | stale => exact h.node p
        | _ => simpa [joinTerm] using h.node p
    | sendAppendEntries i beat p b args reply rf appendNums hbeat hcall hout =>
        refine hone ?_
        cases hout <;> exact h.node i
    | leaderSendSnapShot i => exact hone (h.node i)
    | installSnapshot i beat p b args rf reply hbeat hcall hout =>
        exact hone ((hout.of_empty (h.snap_empty hbeat hcall)).1.trans (h.node p))
    | disconnect => exact h.node
    | leaderSendSnapShotReply i beat p b args reply rf hbeat hcall hout =>
        refine hone ?_
        cases hout <;> exact h.node i
    | snapshot => cases hraw
    | getApplyLogs i => exact hone (h.node i)
  snaps := by
    intro i beat p call hcall
    rcases hstep.snap_cases hcall with ⟨call₀, hold, hargs⟩ | ⟨-, hindex, -⟩
    · rw [← hargs]
      exact h.snaps i beat p call₀ hold
    · rw [hindex]
      exact h.node i

/-! ## The streams -/

/-- The messages are the commands of the entries behind `lastApplied`. -/
def Handed (rf : Node n) (msgs : List ApplyMsg) : Prop :=
  List.Forall₂ (fun index msg ↦ ∃ log, rf.entryAt index = some log ∧
      msg = { commandValid := true, command := log.command, commandIndex := (index : ℕ) })
    (List.range' (rf.lastApplied + 1) (rf.commitIndex - rf.lastApplied)) msgs

theorem stream_record_map (c : Cluster n) (i j : Fin n) (msgs : List ApplyMsg) :
    (c.record (msgs.map (.emitted i))).stream j =
      c.stream j ++ if j = i then msgs else [] := by
  rw [stream, record_history, List.filterMap_append, List.filterMap_map]
  congr 1
  split_ifs with hj
  · simp [Event.emittedOn, hj]
  · simp [Function.comp_def, Event.emittedOn, Ne.symm hj]

/-- A step hands out the commands that the node has committed and not applied,
and nothing else moves `lastApplied`. -/
theorem Step.stream (h : c.Uncompacted) (hstep : Step c a c') (hraw : a.compacts = false)
    (j : Fin n) :
    c'.stream j = c.stream j ∧ (c'.nodes j).lastApplied = (c.nodes j).lastApplied ∨
      ∃ msgs, c'.stream j = c.stream j ++ msgs ∧ Handed (c.nodes j) msgs ∧
        (c'.nodes j).lastApplied = max (c.nodes j).lastApplied (c.nodes j).commitIndex := by
  have hone : ∀ {i : Fin n} {rf : Node n}, rf.lastApplied = (c.nodes i).lastApplied →
      (Function.update c.nodes i rf j).lastApplied = (c.nodes j).lastApplied := by
    intro i rf hrf
    exact (Function.forall_update_iff c.nodes
      fun k rf ↦ rf.lastApplied = (c.nodes k).lastApplied).mpr ⟨hrf, fun _ _ ↦ rfl⟩ j
  cases hstep with
  | idle => exact .inl ⟨rfl, rfl⟩
  | exit => exact .inl ⟨rfl, rfl⟩
  | doElection i => exact .inl ⟨rfl, hone rfl⟩
  | requestVote i term p e args rf reply he hcall hout =>
      refine .inl ⟨rfl, hone ?_⟩
      cases hout with
      | expire => rfl
      | refused => simp
      | granted => simp
  | sendRequestVote i term p e args reply rf votedNum elected he hcall hout =>
      refine .inl ⟨?_, hone (by cases hout <;> rfl)⟩
      cases elected <;> simp [Cluster.stream, Event.emittedOn]
  | start i => exact .inl ⟨by simp [Cluster.stream, Event.emittedOn], hone rfl⟩
  | doHeartBeat => exact .inl ⟨rfl, rfl⟩
  | appendEntries1 i beat p b args rf reply hbeat hcall hout =>
      refine .inl ⟨rfl, hone ?_⟩
      cases hout with
      | stale => rfl
      | _ => simp [joinTerm]
  | sendAppendEntries i beat p b args reply rf appendNums hbeat hcall hout =>
      exact .inl ⟨rfl, hone (by cases hout <;> rfl)⟩
  | leaderSendSnapShot i => exact .inl ⟨rfl, hone rfl⟩
  | installSnapshot i beat p b args rf reply hbeat hcall hout =>
      exact .inl ⟨rfl, hone (hout.of_empty (h.snap_empty hbeat hcall)).2⟩
  | disconnect => exact .inl ⟨rfl, rfl⟩
  | leaderSendSnapShotReply i beat p b args reply rf hbeat hcall hout =>
      exact .inl ⟨rfl, hone (by cases hout <;> rfl)⟩
  | snapshot => cases hraw
  | getApplyLogs i msgs hmsgs =>
      have hstream := stream_record_map (c.setNode i { c.nodes i with
        lastApplied := max (c.nodes i).lastApplied (c.nodes i).commitIndex }) i j msgs
      by_cases hj : j = i
      · subst hj
        rw [if_pos rfl] at hstream
        exact .inr ⟨msgs, hstream, hmsgs, by simp⟩
      · rw [if_neg hj, List.append_nil] at hstream
        exact .inl ⟨hstream, by simp [hj]⟩

/-- The message of an entry. -/
def messageOf (log : LogEntry) : ApplyMsg :=
  { commandValid := true, command := log.command, commandIndex := log.logindex }

/-- A stream has the messages of the entries from the index 1 to `lastApplied`. -/
structure Streamed (c : Cluster n) : Prop where
  length : ∀ i, (c.stream i).length = (c.nodes i).lastApplied
  entries : ∀ i k msg, (c.stream i)[k]? = some msg →
    ∃ log, c.Started log ∧ log.logindex = k + 1 ∧ msg = messageOf log

theorem Handed.getElem? {rf : Node n} {msgs : List ApplyMsg} (h : Handed rf msgs)
    (hindexed : rf.Indexed) {k : ℕ} {msg : ApplyMsg} (hmsg : msgs[k]? = some msg) :
    ∃ log ∈ rf.logs, log.logindex = rf.lastApplied + k + 1 ∧ msg = messageOf log := by
  obtain ⟨hlt, rfl⟩ := List.getElem?_eq_some_iff.mp hmsg
  obtain ⟨hlength, hget⟩ := List.forall₂_iff_get.mp h
  obtain ⟨log, hlog, heq⟩ := hget k (hlength ▸ hlt) hlt
  simp only [List.get_eq_getElem, List.getElem_range'] at hlog heq
  have hindex := hindexed.logindex_of_entryAt hlog
  refine ⟨log, mem_logs_of_entryAt hlog, by omega, ?_⟩
  rw [heq, messageOf, hindex]

theorem Streamed.step (h : c.Streamed) (hord : c.Ordered) (horigin : c.Originated)
    (hraw : c.Uncompacted) (hstep : Step c a c') (ha : a.compacts = false) : c'.Streamed where
  length := by
    intro i
    rcases hstep.stream hraw ha i with ⟨hstream, happlied⟩ | ⟨msgs, hstream, hmsgs, happlied⟩
    · rw [hstream, happlied, h.length i]
    · have hlength := hmsgs.length_eq
      rw [List.length_range'] at hlength
      rw [hstream, happlied, List.length_append, h.length i]
      omega
  entries := by
    intro i k msg hmsg
    rcases hstep.stream hraw ha i with ⟨hstream, -⟩ | ⟨msgs, hstream, hmsgs, -⟩
    · rw [hstream] at hmsg
      obtain ⟨log, hlog, hrest⟩ := h.entries i k msg hmsg
      exact ⟨log, hstep.started_mono hlog, hrest⟩
    · rw [hstream, List.getElem?_append] at hmsg
      split_ifs at hmsg with hold
      · obtain ⟨log, hlog, hrest⟩ := h.entries i k msg hmsg
        exact ⟨log, hstep.started_mono hlog, hrest⟩
      · obtain ⟨log, hlog, hindex, heq⟩ := hmsgs.getElem? (hord.node i).indexed hmsg
        rw [h.length i] at hold hindex
        exact ⟨log, hstep.started_mono (horigin.stored i log hlog), by omega, heq⟩

theorem uncompacted_init : (init : Cluster n).Uncompacted where
  node := fun _ ↦ rfl
  snaps := by simp [init, sender]

theorem streamed_init : (init : Cluster n).Streamed where
  length := fun _ ↦ rfl
  entries := by simp [init, stream]

end Cluster

/-! ## Two streams -/

open Cluster in
/-- Two messages at one position of two streams are the same. -/
theorem Sim.stream_agree {c : Cluster n} {s : Logs n} (h : Sim c s) (hstreamed : c.Streamed)
    {i j : Fin n} {k : ℕ} {msg msg' : ApplyMsg} (hi : (c.stream i)[k]? = some msg)
    (hj : (c.stream j)[k]? = some msg') : msg = msg' := by
  obtain ⟨log, -, hindex, rfl⟩ := hstreamed.entries i k msg hi
  obtain ⟨log', -, hindex', rfl⟩ := hstreamed.entries j k msg' hj
  obtain ⟨t, m, lc, e, entry, hc, hlc, hk, hentry, hmsg, hcommand⟩ :=
    h.message.emits i _ (mem_stream.mp (List.mem_of_getElem? hi))
  obtain ⟨t', m', lc', e', entry', hc', hlc', hk', hentry', hmsg', hcommand'⟩ :=
    h.message.emits j _ (mem_stream.mp (List.mem_of_getElem? hj))
  simp only [messageOf] at hmsg hmsg' hcommand hcommand'
  have hsame : e = e' := by omega
  subst hsame
  have hentries := h.inv.committed_agree hc hlc hc' hlc' hk hk'
  rw [hentry, hentry', Option.some.injEq] at hentries
  rw [messageOf, messageOf, hcommand, hcommand', hentries, hindex, hindex']

theorem Sim.streams_comparable {c : Cluster n} {s : Logs n} (h : Sim c s)
    (hstreamed : c.Streamed) (i j : Fin n) :
    c.stream i <+: c.stream j ∨ c.stream j <+: c.stream i := by
  have hprefix : ∀ {i j : Fin n}, (c.stream i).length ≤ (c.stream j).length →
      c.stream i <+: c.stream j := by
    intro i j hle
    have hagree : Agree (c.stream i).length (c.stream i) (c.stream j) := by
      refine ⟨le_rfl, hle, fun k hk ↦ ?_⟩
      rw [List.getElem?_eq_getElem hk, List.getElem?_eq_getElem (hk.trans_le hle),
        h.stream_agree hstreamed (List.getElem?_eq_getElem hk)
          (List.getElem?_eq_getElem (hk.trans_le hle))]
    exact hagree.prefix_of_length
  exact (le_total _ _).imp hprefix hprefix

namespace Cluster

variable [TextArchive (BoostPersistRaftNode n)]

/-- No action of the run makes a snapshot. -/
def Raw (as : List (Action n)) : Prop :=
  ∀ a ∈ as, a.compacts = false

instance (as : List (Action n)) : Decidable (Raw as) :=
  inferInstanceAs (Decidable (∀ a ∈ as, a.compacts = false))

theorem streamed_run (as : List (Action n)) (hraw : Raw as) :
    (run as).Uncompacted ∧ (run as).Streamed := by
  induction as using List.reverseRecOn with
  | nil => exact ⟨uncompacted_init, streamed_init⟩
  | append_singleton as a ih =>
      obtain ⟨huncompacted, hstreamed⟩ := ih fun b hb ↦ hraw b (List.mem_append_left _ hb)
      have ha := hraw a (by simp)
      have hstep := run_step as a
      exact ⟨huncompacted.step hstep ha, hstreamed.step (ordered_run as) (originated_run as)
        huncompacted hstep ha⟩

theorem stream_prefix_run (us vs : List (Action n)) (i : Fin n) :
    (run us).stream i <+: (run (us ++ vs)).stream i := by
  induction vs using List.reverseRecOn with
  | nil => rw [List.append_nil]
  | append_singleton vs a ih =>
      rw [← List.append_assoc]
      exact ih.trans ((run_step (us ++ vs) a).stream_grows i)

/-- In every run without a stale tail in which no node makes a snapshot, of what two nodes
have handed out, each at its moment, one begins the other, and the message in the place
`k` has the index `k + 1` and the command of an entry that `Start` has appended under
it. -/
theorem nodes_broadcast (us vs : List (Action n))
    (hclean : Runs.Along Cluster.step NoStaleTail init (us ++ vs)) (hraw : Raw (us ++ vs))
    (i j : Fin n) :
    ((run us).stream i <+: (run (us ++ vs)).stream j ∨
      (run (us ++ vs)).stream j <+: (run us).stream i) ∧
    ((run us).stream i).length = ((run us).nodes i).lastApplied ∧
    ∀ (k : ℕ) msg, ((run us).stream i)[k]? = some msg → msg.commandIndex = (k : ℤ) + 1 ∧
      ∃ log, (run us).Started log ∧ log.logindex = k + 1 ∧ log.command = msg.command := by
  obtain ⟨s, hsim⟩ := sim_run (us ++ vs) hclean
  have hlater := (streamed_run (us ++ vs) hraw).2
  have hnow := (streamed_run us fun a ha ↦ hraw a (List.mem_append_left vs ha)).2
  have hpast := stream_prefix_run us vs i
  refine ⟨?_, hnow.length i, fun k msg hmsg ↦ ?_⟩
  · rcases hsim.streams_comparable hlater i j with hij | hji
    · exact .inl (hpast.trans hij)
    · exact List.prefix_or_prefix_of_prefix hpast hji
  · obtain ⟨log, hlog, hindex, rfl⟩ := hnow.entries i k msg hmsg
    exact ⟨by simp [messageOf, hindex], log, hlog, hindex, rfl⟩

section concrete

open scoped Archive

/-- Node 0 has handed out both entries, and then node 1 hands them out too. -/
theorem nodes_broadcast_in_cleanRun :
    ((run ((cleanRun (0 : Fin 3) 1).take 9)).stream 0).length = 2 ∧
    ((run (cleanRun (0 : Fin 3) 1)).stream 1).length = 2 ∧
    ((run ((cleanRun (0 : Fin 3) 1).take 9)).stream 0 <+:
        (run ((cleanRun (0 : Fin 3) 1).take 9 ++ (cleanRun 0 1).drop 9)).stream 1 ∨
      (run ((cleanRun (0 : Fin 3) 1).take 9 ++ (cleanRun 0 1).drop 9)).stream 1 <+:
        (run ((cleanRun (0 : Fin 3) 1).take 9)).stream 0) :=
  ⟨by decide +kernel, by decide +kernel,
    (nodes_broadcast ((cleanRun (0 : Fin 3) 1).take 9) ((cleanRun 0 1).drop 9)
      (by decide +kernel) (by decide +kernel) 0 1).1⟩

end concrete

end Cluster

end HttpRaftKv.Raft
