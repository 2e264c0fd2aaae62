import HttpRaftKv.Raft.Entries

/-!
# Crashes and restarts

A process may crash between any two of its steps.  Its threads are gone then;
its requests in flight may still arrive, and nobody waits for the replies.  The
new process constructs a `Persister` on the files that are left and calls
`init`.  The constructor truncates both files before `init` reads them, so a
node always restarts with term 0, no vote and an empty log, and it keeps its
promises exactly if no node restarts after it has left term 0.
-/

namespace HttpRaftKv.Raft

open Storage

variable {n : ℕ}

/-- A request that has lost its sender. -/
inductive Request (n : ℕ)
  | requestVote (args : RequestVoteArgs n)
  | appendEntries (args : AppendEntriesArgs n)
  | installSnapshot (args : InstallSnapshotRequest n)
deriving DecidableEq, Repr

/-- What a node must not forget: a vote of a term, also the one for itself, and
an entry that it has acknowledged with success. -/
inductive Promise (n : ℕ)
  | voted (p : Fin n) (term : ℕ) (candidate : Fin n)
  | acked (p : Fin n) (log : LogEntry)
deriving DecidableEq, Repr

/-- A cluster over the lives of its processes.  Each request of `strays` comes
with its receiver.  `promises` is not part of the program. -/
structure Life (n : ℕ) where
  cluster : Cluster n
  strays : List (Fin n × Request n)
  promises : List (Promise n)

/-- A step of the cluster, a crash of a node with its restart, or the arrival
of a stray request.  The numbers say how much of the two stream buffers had
reached the files when the process crashed. -/
inductive Turn (n : ℕ)
  | act (a : Action n)
  | restart (i : Fin n) (raftState snapshot : ℕ)
  | arrive (k : ℕ)
deriving DecidableEq, Repr

namespace Cluster

/-- The requests of a node that have not arrived yet. -/
def inFlight (c : Cluster n) (i : Fin n) : List (Fin n × Request n) :=
  let votes := (List.range ((c.nodes i).currentTerm + 1)).flatMap fun term ↦
    (List.finRange n).filterMap fun p ↦
      match c.voteCall i term p with
      | some (.sent args) => some (p, .requestVote args)
      | _ => none
  let beats := (List.range (c.heartBeats i).length).flatMap fun beat ↦
    (List.finRange n).filterMap fun p ↦
      match c.sender i beat p with
      | some (.appendEntries (.sent args)) => some (p, .appendEntries args)
      | some (.snapShot (some (.sent args))) => some (p, .installSnapshot args)
      | _ => none
  votes ++ beats

/-- The promises of a step, read off its result. -/
def promised (c c' : Cluster n) : Action n → List (Promise n)
  | .doElection i =>
      if (c'.nodes i).currentTerm = (c.nodes i).currentTerm then []
      else [.voted i (c'.nodes i).currentTerm i]
  | .requestVote i term p =>
      match c.voteCall i term p, c'.voteCall i term p with
      | some (.sent args), some (.replied _ reply) =>
          if reply.votegranted then [.voted p args.term args.candidateid] else []
      | _, _ => []
  | .appendEntries1 i beat p =>
      match c.sender i beat p, c'.sender i beat p with
      | some (.appendEntries (.sent args)), some (.appendEntries (.replied _ reply)) =>
          if reply.success then args.entries.map (.acked p) else []
      | _, _ => []
  | _ => []

variable [TextArchive (BoostPersistRaftNode n)]

/-- The process of a node is replaced by a new one. -/
def restart (c : Cluster n) (i : Fin n) (raftState snapshot : ℕ) : Cluster n :=
  let old := (c.nodes i).persister
  let persister := Persister.create (old.raftStateOutStream.left raftState)
    (old.snapshotOutStream.left snapshot)
  let c := { c with
    elections := Function.update c.elections i fun _ ↦ none
    heartBeats := Function.update c.heartBeats i [] }
  match Node.init persister with
  | .error _ => c.exit i
  | .ok rf => { c.setNode i rf with exited := Function.update c.exited i false }

/-- A stray request arrives, and its reply is dropped. -/
def arrive (c : Cluster n) (p : Fin n) : Request n → Cluster n × List (Promise n)
  | .requestVote args =>
      match (c.nodes p).requestVote args with
      | .error _ => (c.exit p, [])
      | .ok (rf, reply) =>
          (c.setNode p rf, if reply.votegranted then [.voted p args.term args.candidateid] else [])
  | .appendEntries args =>
      match (c.nodes p).appendEntries1 args with
      | .error _ => (c.exit p, [])
      | .ok (rf, reply) =>
          (c.setNode p rf, if reply.success then args.entries.map (.acked p) else [])
  | .installSnapshot args =>
      match (c.nodes p).installSnapshot args with
      | .error _ => (c.exit p, [])
      | .ok (rf, _, _) => (c.setNode p rf, [])

end Cluster

namespace Life

def init : Life n where
  cluster := .init
  strays := []
  promises := []

variable [TextArchive (BoostPersistRaftNode n)]

def step (s : Life n) : Turn n → Life n
  | .act a =>
      let c := s.cluster.step a
      { s with cluster := c, promises := s.promises ++ s.cluster.promised c a }
  | .restart i raftState snapshot =>
      { s with
        cluster := s.cluster.restart i raftState snapshot
        strays := s.strays ++ s.cluster.inFlight i }
  | .arrive k =>
      match s.strays[k]? with
      | none => s
      | some (p, request) =>
          let strays := s.strays.eraseIdx k
          if s.cluster.exited p then { s with strays := strays }
          else
            let (c, promises) := s.cluster.arrive p request
            { cluster := c, strays := strays, promises := s.promises ++ promises }

def run (ts : List (Turn n)) : Life n :=
  Runs.run step init ts

/-- The promises are kept over the whole run: no term decreases, after a
restart every acknowledged entry is in the log or covered by the snapshot, and
no node has voted for two candidates in a term. -/
structure Durable (ts : List (Turn n)) : Prop where
  term_le : ∀ us t, us ++ [t] <+: ts → ∀ p,
    ((run us).cluster.nodes p).currentTerm ≤ ((run (us ++ [t])).cluster.nodes p).currentTerm
  acked : ∀ us i raftState snapshot, us ++ [Turn.restart i raftState snapshot] <+: ts →
    ∀ log, .acked i log ∈ (run us).promises →
      log ∈ ((run (us ++ [Turn.restart i raftState snapshot])).cluster.nodes i).logs ∨
      log.logindex ≤ ((run (us ++ [Turn.restart i raftState snapshot])).cluster.nodes
        i).lastSnapshotIncludeIndex
  voted : ∀ p term x y, .voted p term x ∈ (run ts).promises →
    .voted p term y ∈ (run ts).promises → x = y

/-- A node restarts only as long as it has never left term 0. -/
def FreshRestart (s : Life n) : Turn n → Prop
  | .restart i _ _ => (s.cluster.nodes i).currentTerm = 0
  | _ => True

end Life

/-! ## Term 0 -/

/-- A node that has nothing to lose. -/
structure Node.Blank (rf : Node n) : Prop where
  votedFor : rf.votedFor = none
  logs : rf.logs = []
  commitIndex : rf.commitIndex = 0
  lastApplied : rf.lastApplied = 0
  status : rf.status = .follower
  lastSnapshotIncludeIndex : rf.lastSnapshotIncludeIndex = 0

/-- A new process in the place of a node that has nothing to lose. -/
theorem Node.Blank.evolves_fresh {rf : Node n} (h : rf.Blank) (hzero : rf.currentTerm = 0)
    (ps : Persister) : rf.Evolves (Node.fresh ps) where
  sound := by
    refine ⟨fun k log hk ↦ ?_, le_rfl, le_rfl, le_rfl⟩
    simp [Node.fresh] at hk
  last_le := by
    simp [Node.getLastLogIndex, Node.getLastLogIndexAndTerm, h.logs, h.lastSnapshotIncludeIndex]
  base_le := h.lastSnapshotIncludeIndex.le
  term_le := hzero.le
  votedFor := fun _ ↦ .inl h.votedFor
  kept := nofun

section positive

open Node

variable {rf rf' : Node n}

theorem Node.RequestVoteOutcome.term_pos {args : RequestVoteArgs n} {reply : RequestVoteReply}
    (hout : RequestVoteOutcome rf args rf' reply) (hargs : 0 < args.term) :
    0 < rf'.currentTerm := by
  cases hout with
  | expire ps hterm => exact hargs.trans hterm
  | refused => exact hargs.trans_le (by simp [raiseTerm_currentTerm])
  | granted => exact hargs.trans_le (by simp [raiseTerm_currentTerm])

theorem Node.AppendEntriesOutcome.term_pos {args : AppendEntriesArgs n}
    {reply : AppendEntriesReply} (hout : AppendEntriesOutcome rf args rf' reply)
    (hargs : 0 < args.term) : 0 < rf'.currentTerm := by
  cases hout with
  | stale hterm => exact hargs.trans hterm
  | short => exact hargs.trans_le (by simp [joinTerm, raiseTerm_currentTerm])
  | matched => exact hargs.trans_le (by simp [joinTerm, raiseTerm_currentTerm])
  | mismatched => exact hargs.trans_le (by simp [joinTerm, raiseTerm_currentTerm])

theorem Node.InstallSnapshotOutcome.term_pos {args : InstallSnapshotRequest n}
    {reply : InstallSnapshotResponse} (hout : InstallSnapshotOutcome rf args rf' reply)
    (hargs : 0 < args.term) : 0 < rf'.currentTerm := by
  cases hout with
  | stale hterm => exact hargs.trans hterm
  | outdated => exact hargs.trans_le (by simp [joinTerm, raiseTerm_currentTerm])
  | installed => exact hargs.trans_le (by simp [joinTerm, raiseTerm_currentTerm])

end positive

namespace Cluster

variable {c c' : Cluster n} {a : Action n}

/-- A node in term 0 is blank and has started nothing, and every request comes
from a later term. -/
structure Nascent (c : Cluster n) : Prop where
  node : ∀ p, (c.nodes p).currentTerm = 0 → (c.nodes p).Blank
  election : ∀ i term e, c.elections i term = some e → 0 < term
  heartBeat : ∀ i, c.heartBeats i ≠ [] → 0 < (c.nodes i).currentTerm
  append : ∀ i beat p call, c.sender i beat p = some (.appendEntries call) → 0 < call.args.term
  snap : ∀ i beat p call, c.sender i beat p = some (.snapShot (some call)) → 0 < call.args.term

theorem Nascent.leader (h : c.Nascent) {i : Fin n} (hstatus : (c.nodes i).status = .leader) :
    0 < (c.nodes i).currentTerm := by
  rw [Nat.pos_iff_ne_zero]
  intro hzero
  rw [(h.node i hzero).status] at hstatus
  cases hstatus

theorem Nascent.beat_pos (h : c.Nascent) {i : Fin n} {beat : ℕ} {b : HeartBeat n}
    (hbeat : (c.heartBeats i)[beat]? = some b) : 0 < (c.nodes i).currentTerm := by
  refine h.heartBeat i fun hnil ↦ ?_
  simp [hnil] at hbeat

/-- A node that acts is in a later term afterwards, unless nothing has happened
to it or it has handed out its log. -/
theorem Nascent.step_node (h : c.Nascent) (hord : c.Ordered) (helections : c.Elections)
    (hstep : Step c a c') (p : Fin n) (hzero : (c'.nodes p).currentTerm = 0) :
    (c'.nodes p).Blank := by
  have hev := hstep.evolves hord
  have hold : (c.nodes p).currentTerm = 0 := Nat.le_zero.mp (hzero ▸ (hev p).term_le)
  have hone : ∀ {i : Fin n} {rf : Node n}, c'.nodes = Function.update c.nodes i rf →
      (0 < rf.currentTerm ∨ (rf.currentTerm = 0 → (c.nodes i).Blank → rf.Blank)) →
      (c'.nodes p).Blank := by
    intro i rf hnodes hrf
    by_cases hpi : p = i
    · subst hpi
      rw [hnodes, Function.update_self] at hzero ⊢
      rcases hrf with hpos | hblank
      · omega
      · exact hblank hzero (h.node p hold)
    · rw [hnodes, Function.update_of_ne hpi]
      exact h.node p hold
  cases hstep with
  | idle => exact h.node p hold
  | exit => exact h.node p hold
  | doElection i ps hstatus => exact hone rfl (.inl (Nat.succ_pos _))
  | requestVote i term q e args rf reply he hcall hout =>
      have hargs := (helections.request_self he hcall).1
      simp only [Call.args] at hargs
      exact hone rfl (.inl (hout.term_pos (hargs ▸ h.election i term e he)))
  | sendRequestVote i term q e args reply rf votedNum elected he hcall hout =>
      have hle := (helections.voted i term i (.inl ⟨rfl, e, he⟩)).1
      have hpos := h.election i term e he
      exact hone rfl (.inl (by have := (hout.evolves (hord.node i)).term_le; omega))
  | start i command log ps hstatus hlog => exact hone rfl (.inl (h.leader hstatus))
  | doHeartBeat => exact h.node p hold
  | appendEntries1 i beat q b args rf reply hbeat hcall hout =>
      have hpos := h.append i beat q (.sent args) (by simp [sender, hbeat, hcall])
      exact hone rfl (.inl (hout.term_pos hpos))
  | sendAppendEntries i beat q b args reply rf appendNums hbeat hcall hout =>
      exact hone rfl (.inl ((h.beat_pos hbeat).trans_le (hout.evolves (hord.node i)).term_le))
  | leaderSendSnapShot i beat q b args ps hbeat hcall hterm hindex hsnap =>
      exact hone rfl (.inl (h.beat_pos hbeat))
  | installSnapshot i beat q b args rf reply hbeat hcall hout =>
      have hpos := h.snap i beat q (.sent args) (by simp [sender, hbeat, hcall])
      exact hone rfl (.inl (hout.term_pos hpos))
  | disconnect => exact h.node p hold
  | leaderSendSnapShotReply i beat q b args reply rf hbeat hcall hout =>
      exact hone rfl (.inl ((h.beat_pos hbeat).trans_le (hout.evolves (hord.node i)).term_le))
  | snapshot i index data log ps hlt hle hlog =>
      refine hone rfl (.inr fun _ hblank ↦ ?_)
      rw [hblank.commitIndex] at hle
      omega
  | getApplyLogs i msgs hmsgs =>
      refine hone rfl (.inr fun _ hblank ↦ ⟨hblank.votedFor, hblank.logs, hblank.commitIndex, ?_,
        hblank.status, hblank.lastSnapshotIncludeIndex⟩)
      simp [hblank.lastApplied, hblank.commitIndex]

theorem Nascent.step_election (h : c.Nascent) (hstep : Step c a c') {i : Fin n} {term : ℕ}
    {e : Election n} (he : c'.elections i term = some e) : 0 < term := by
  have hset : ∀ {d : Cluster n} {j : Fin n} {u : ℕ} {e' : Election n},
      d.elections = c.elections → 0 < u → (d.setElection j u e').elections i term = some e →
      0 < term := by
    intro d j u e' hd hu hsome
    rw [setElection_elections] at hsome
    split_ifs at hsome with hsame
    · exact hsame.2 ▸ hu
    · exact h.election i term e (hd ▸ hsome)
  cases hstep with
  | doElection j ps hstatus => exact hset rfl (Nat.succ_pos _) he
  | requestVote j u q e' args rf reply he' hcall hout => exact hset rfl (h.election j u e' he') he
  | sendRequestVote j u q e' args reply rf votedNum elected he' hcall hout =>
      exact hset rfl (h.election j u e' he') he
  | _ => exact h.election i term e he

theorem Nascent.step_heartBeat (h : c.Nascent) (hord : c.Ordered) (hstep : Step c a c')
    {i : Fin n} (hne : c'.heartBeats i ≠ []) : 0 < (c'.nodes i).currentTerm := by
  have hev := (hstep.evolves hord i).term_le
  have hold : c.heartBeats i ≠ [] → 0 < (c'.nodes i).currentTerm :=
    fun hne ↦ (h.heartBeat i hne).trans_le hev
  have hset : ∀ {j : Fin n} {beat : ℕ} {b : HeartBeat n},
      Function.update c.heartBeats j ((c.heartBeats j).set beat b) i ≠ [] →
      c.heartBeats i ≠ [] := by
    intro j beat b hne hnil
    by_cases hij : i = j
    · subst hij
      simp [hnil] at hne
    · rw [Function.update_of_ne hij] at hne
      exact hne hnil
  cases hstep with
  | doHeartBeat j senders hstatus hsenders =>
      by_cases hij : i = j
      · subst hij
        exact (h.leader hstatus).trans_le hev
      · refine hold fun hnil ↦ hne ?_
        simp [addHeartBeat, hij, hnil]
  | appendEntries1 => exact hold (hset hne)
  | sendAppendEntries => exact hold (hset hne)
  | leaderSendSnapShot => exact hold (hset hne)
  | installSnapshot => exact hold (hset hne)
  | disconnect => exact hold (hset hne)
  | leaderSendSnapShotReply => exact hold (hset hne)
  | _ => exact hold hne

theorem Nascent.step (h : c.Nascent) (hord : c.Ordered) (helections : c.Elections)
    (hstep : Step c a c') : c'.Nascent where
  node := h.step_node hord helections hstep
  election := fun _ _ _ he ↦ h.step_election hstep he
  heartBeat := fun _ hne ↦ h.step_heartBeat hord hstep hne
  append := by
    intro i beat p call hcall
    rcases hstep.append_cases hcall with ⟨call₀, hold, hargs, -⟩ | ⟨-, -, -, hstatus, hbuilt, -⟩
    · rw [← hargs]
      exact h.append i beat p call₀ hold
    · rw [hbuilt.term]
      exact h.leader hstatus
  snap := by
    intro i beat p call hcall
    have hmoves := hstep.moves i beat p
    rw [hcall] at hmoves
    generalize hs : c.sender i beat p = s at hmoves
    cases hmoves with
    | kept => exact h.snap i beat p call hs
    | sentSnapShot args hterm =>
        obtain ⟨b, hbeat, -⟩ := Option.bind_eq_some_iff.mp hs
        rw [Call.args, hterm]
        exact h.beat_pos hbeat
    | repliedSnapShot args reply => exact h.snap i beat p (.sent args) hs
    | droppedSnapShot call => exact h.snap i beat p call hs
    | returnedSnapShot args reply => exact h.snap i beat p (.replied args reply) hs

theorem nascent_init : (init : Cluster n).Nascent where
  node := fun _ _ ↦ ⟨rfl, rfl, rfl, rfl, rfl, rfl⟩
  election := by simp [init]
  heartBeat := by simp [init]
  append := by simp [init, sender]
  snap := by simp [init, sender]

/-- A vote is never taken back. -/
theorem Step.voted_mono (hstep : Step c a c') (helections : c.Elections) {i p : Fin n} {term : ℕ}
    (h : c.Voted i term p) : c'.Voted i term p := by
  cases hstep with
  | doElection j ps hstatus =>
      refine (voted_opened ?_).mpr (.inl h)
      rw [Option.eq_none_iff_forall_ne_some]
      intro e he
      have := (helections.voted j _ j (.inl ⟨rfl, e, he⟩)).1
      omega
  | requestVote j u q e args rf reply he hcall hout =>
      exact (voted_setCall he hcall (by simp [Call.reply])).mpr (.inl h)
  | sendRequestVote j u q e args reply rf votedNum elected he hcall hout =>
      have hvoted : ((c.setNode j rf).setElection j u
          { e.setCall q (.returned args reply) with votedNum := votedNum }).Voted i term p :=
        (voted_setCall he hcall (by simp [Call.reply])).mpr (.inl h)
      exact hvoted
  | _ => exact h

/-- The three ways to make a promise. -/
theorem mem_promised {promise : Promise n} (h : promise ∈ c.promised c' a) :
    (∃ i, a = .doElection i ∧ (c'.nodes i).currentTerm ≠ (c.nodes i).currentTerm ∧
      promise = .voted i (c'.nodes i).currentTerm i) ∨
    (∃ i term p args args' reply, c.voteCall i term p = some (.sent args) ∧
      c'.voteCall i term p = some (.replied args' reply) ∧ reply.votegranted = true ∧
      promise = .voted p args.term args.candidateid) ∨
    ∃ i beat p args args' reply log, c.sender i beat p = some (.appendEntries (.sent args)) ∧
      c'.sender i beat p = some (.appendEntries (.replied args' reply)) ∧
      reply.success = true ∧ promise = .acked p log := by
  unfold promised at h
  split at h
  · rename_i i
    split_ifs at h with hsame
    · cases h
    · exact .inl ⟨i, rfl, hsame, List.mem_singleton.mp h⟩
  · rename_i i term p
    split at h
    · rename_i args args' reply hcall hcall'
      split_ifs at h with hgranted
      · exact .inr (.inl ⟨i, term, p, args, args', reply, hcall, hcall', hgranted,
          List.mem_singleton.mp h⟩)
      · cases h
    · cases h
  · rename_i i beat p
    split at h
    · rename_i args args' reply hcall hcall'
      split_ifs at h with hsuccess
      · obtain ⟨log, -, heq⟩ := List.mem_map.mp h
        exact .inr (.inr ⟨i, beat, p, args, args', reply, log, hcall, hcall', hsuccess, heq.symm⟩)
      · cases h
    · cases h
  · cases h

/-- A vote that a node promises is a vote of the cluster. -/
theorem Step.voted_of_promised (hstep : Step c a c') (helections : c.Elections) {p x : Fin n}
    {term : ℕ} (h : .voted p term x ∈ c.promised c' a) : c'.Voted x term p := by
  rcases mem_promised h with ⟨i, rfl, hne, heq⟩ |
    ⟨i, u, q, args, args', reply, hcall, hcall', hgranted, heq⟩ |
    ⟨i, beat, q, args, args', reply, log, -, -, -, heq⟩
  · cases heq
    cases hstep with
    | idle => exact absurd rfl hne
    | exit => exact absurd rfl hne
    | doElection i ps hstatus =>
        refine .inl ⟨rfl, _, (setElection_elections _ _ _ _ _ _).trans (if_pos ⟨rfl, ?_⟩)⟩
        simp [Node.campaign]
  · cases heq
    obtain ⟨hterm, hcandidate, -⟩ := helections.request i u p (.sent args) hcall
    simp only [Call.args] at hterm hcandidate
    rw [hterm, hcandidate]
    exact .inr ⟨_, reply, hcall', rfl, hgranted⟩
  · cases heq

/-- A node acknowledges in a later term than 0. -/
theorem Nascent.pos_of_promised (h : c.Nascent) (hstep : Step c a c') {p : Fin n} {log : LogEntry}
    (hmem : .acked p log ∈ c.promised c' a) : 0 < (c'.nodes p).currentTerm := by
  rcases mem_promised hmem with ⟨i, -, -, heq⟩ | ⟨i, u, q, args, args', reply, -, -, -, heq⟩ |
    ⟨i, beat, q, args, args', reply, log', hcall, hcall', -, heq⟩
  · cases heq
  · cases heq
  · cases heq
    rcases hstep.append_cases hcall' with ⟨call₀, hold, hargs, hreplies⟩ | ⟨-, hnone, -⟩
    · rcases hreplies reply rfl with hreply | ⟨-, -, hout⟩
      · rw [hcall] at hold
        cases Option.some.inj hold
        cases hreply
      · rw [← hargs] at hout
        exact hout.term_pos (h.append i beat p call₀ hold)
    · cases hnone

section restart

variable [TextArchive (BoostPersistRaftNode n)]

/-- The constructor of the persister empties the files that `init` reads. -/
theorem init_create (raftStateFile snapshotFile : String) :
    (Node.init (Persister.create raftStateFile snapshotFile) : Checked Failure (Node n)) =
      .ok (Node.fresh (Persister.create raftStateFile snapshotFile)) := by
  have hread : (Persister.create raftStateFile snapshotFile).readRaftState = "" := rfl
  rw [Node.init, hread, Node.readPersist, if_pos rfl]
  rfl

/-- Every restart is a restart from nothing. -/
theorem restart_eq (c : Cluster n) (i : Fin n) (raftState snapshot : ℕ) :
    ∃ ps, c.restart i raftState snapshot = {
      nodes := Function.update c.nodes i (Node.fresh ps)
      exited := Function.update c.exited i false
      elections := Function.update c.elections i fun _ ↦ none
      heartBeats := Function.update c.heartBeats i []
      history := c.history } := by
  unfold restart
  dsimp only
  rw [init_create]
  exact ⟨_, rfl⟩

/-- In term 0 there is no election, no heartbeat and no request to lose. -/
theorem Nascent.restart_eq_of_zero (h : c.Nascent) (helections : c.Elections) {i : Fin n}
    (hzero : (c.nodes i).currentTerm = 0) (raftState snapshot : ℕ) :
    c.inFlight i = [] ∧ ∃ ps, c.restart i raftState snapshot = { c with
      nodes := Function.update c.nodes i (Node.fresh ps)
      exited := Function.update c.exited i false } := by
  have helection : c.elections i = fun _ ↦ none := by
    funext term
    rw [Option.eq_none_iff_forall_ne_some]
    intro e he
    have hpos := h.election i term e he
    have hle := (helections.voted i term i (.inl ⟨rfl, e, he⟩)).1
    omega
  have hbeats : c.heartBeats i = [] := by
    by_contra hne
    have := h.heartBeat i hne
    omega
  refine ⟨by simp [inFlight, voteCall, helection, hbeats], ?_⟩
  obtain ⟨ps, heq⟩ := c.restart_eq i raftState snapshot
  refine ⟨ps, ?_⟩
  rw [heq, ← helection, ← hbeats, Function.update_eq_self, Function.update_eq_self]

end restart

/-- What a blank node leaves behind is what a new process in its place has. -/
theorem Nascent.replace (h : c.Nascent) (hord : c.Ordered) (helections : c.Elections) {i : Fin n}
    (hzero : (c.nodes i).currentTerm = 0) {ps : Persister} {exited : Fin n → Bool}
    (hc' : c' = { c with
      nodes := Function.update c.nodes i (Node.fresh ps), exited := exited }) :
    c'.Ordered ∧ c'.Elections ∧ c'.Nascent := by
  have hfresh : (c.nodes i).Evolves (Node.fresh ps) := (h.node i hzero).evolves_fresh hzero ps
  have hev : ∀ j, (c.nodes j).Evolves (c'.nodes j) := by
    rw [hc']
    exact (Function.forall_update_iff _ _).mpr ⟨hfresh, fun j _ ↦ (hord.node j).evolves_refl⟩
  have hsender : c'.sender = c.sender := by rw [hc']; rfl
  have hbeats : c'.heartBeats = c.heartBeats := by rw [hc']
  have helection : c'.elections = c.elections := by rw [hc']
  refine ⟨⟨fun j ↦ (hev j).sound, ?_⟩, ?_, ?_, ?_, ?_, ?_, ?_⟩
  · rw [hsender]
    exact hord.request
  · refine helections.frame hev helection (fun _ _ ↦ by rw [hc']) ?_
    rw [hc']
    exact (Function.forall_update_iff _ _).mpr ⟨nofun, fun _ _ hl ↦ ⟨hl, rfl⟩⟩
  · rw [hc']
    refine (Function.forall_update_iff c.nodes fun j rf ↦ rf.currentTerm = 0 → rf.Blank).mpr
      ⟨fun _ ↦ ⟨rfl, rfl, rfl, rfl, rfl, rfl⟩, fun j _ ↦ h.node j⟩
  · rw [helection]
    exact h.election
  · rw [hbeats]
    exact fun j hne ↦ (h.heartBeat j hne).trans_le (hev j).term_le
  · rw [hsender]
    exact h.append
  · rw [hsender]
    exact h.snap

end Cluster

/-! ## Whole lives -/

namespace Life

variable [TextArchive (BoostPersistRaftNode n)]

/-- As long as every restart is fresh: no request is stray, and the promises
are those of a cluster without restarts. -/
structure Unbroken (s : Life n) : Prop where
  ordered : s.cluster.Ordered
  elections : s.cluster.Elections
  nascent : s.cluster.Nascent
  strays : s.strays = []
  voted : ∀ p term x, .voted p term x ∈ s.promises → s.cluster.Voted x term p
  acked : ∀ p log, .acked p log ∈ s.promises → 0 < (s.cluster.nodes p).currentTerm

theorem Unbroken.step {s : Life n} (h : s.Unbroken) {t : Turn n} (hfresh : s.FreshRestart t) :
    (s.step t).Unbroken ∧ ∀ p, (s.cluster.nodes p).currentTerm ≤
      ((s.step t).cluster.nodes p).currentTerm := by
  cases t with
  | act a =>
      have hstep := h.ordered.step_spec a
      have hterm : ∀ p, (s.cluster.nodes p).currentTerm ≤
          ((s.cluster.step a).nodes p).currentTerm :=
        fun p ↦ (hstep.evolves h.ordered p).term_le
      refine ⟨⟨h.ordered.step hstep, h.elections.step h.ordered hstep,
        h.nascent.step h.ordered h.elections hstep, h.strays, ?_, ?_⟩, hterm⟩
      · intro p term x hmem
        rcases List.mem_append.mp hmem with hold | hnew
        · exact hstep.voted_mono h.elections (h.voted p term x hold)
        · exact hstep.voted_of_promised h.elections hnew
      · intro p log hmem
        rcases List.mem_append.mp hmem with hold | hnew
        · exact (h.acked p log hold).trans_le (hterm p)
        · exact h.nascent.pos_of_promised hstep hnew
  | restart i raftState snapshot =>
      obtain ⟨hflight, ps, heq⟩ :=
        h.nascent.restart_eq_of_zero h.elections hfresh raftState snapshot
      obtain ⟨hord, helections, hnascent⟩ := h.nascent.replace h.ordered h.elections hfresh heq
      have hterm : ∀ p, (s.cluster.nodes p).currentTerm ≤
          ((s.cluster.restart i raftState snapshot).nodes p).currentTerm := by
        rw [heq]
        exact (Function.forall_update_iff s.cluster.nodes
          fun p rf ↦ (s.cluster.nodes p).currentTerm ≤ rf.currentTerm).mpr
            ⟨hfresh.le, fun _ _ ↦ le_rfl⟩
      refine ⟨⟨hord, helections, hnascent, ?_, ?_, ?_⟩, hterm⟩
      · simp [Life.step, h.strays, hflight]
      · intro p term x hmem
        have hvoted := h.voted p term x hmem
        simp only [Life.step]
        rw [heq]
        exact hvoted
      · exact fun p log hmem ↦ (h.acked p log hmem).trans_le (hterm p)
  | arrive k =>
      have hsame : s.step (.arrive k) = s := by simp [Life.step, h.strays]
      rw [hsame]
      exact ⟨h, fun _ ↦ le_rfl⟩

omit [TextArchive (BoostPersistRaftNode n)] in
theorem unbroken_init : (init : Life n).Unbroken :=
  ⟨Cluster.ordered_init, Cluster.elections_init, Cluster.nascent_init, rfl, nofun, nofun⟩

theorem unbroken_run (ts : List (Turn n)) (h : Runs.Along step FreshRestart init ts) :
    (run ts).Unbroken :=
  Runs.invariant_of_step_along step (P := fun _ s ↦ s.Unbroken) unbroken_init
    (fun _ _ hs hfresh ↦ (hs.step hfresh).1) ts h

theorem run_snoc (ts : List (Turn n)) (t : Turn n) : run (ts ++ [t]) = (run ts).step t :=
  Runs.run_snoc step init ts t

/-- The promises are kept over a run with crashes and restarts exactly if no
node restarts after it has left term 0. -/
theorem durable_iff (ts : List (Turn n)) :
    Durable ts ↔ Runs.Along step FreshRestart init ts := by
  rw [Runs.along_iff_isPrefix]
  constructor
  · intro h us t hpre
    cases t with
    | act => trivial
    | arrive => trivial
    | restart i raftState snapshot =>
        have hle := h.term_le us _ hpre i
        obtain ⟨ps, heq⟩ := (run us).cluster.restart_eq i raftState snapshot
        rw [run_snoc, Life.step, heq] at hle
        have hzero : ((run us).cluster.nodes i).currentTerm = 0 := by
          simpa [Node.fresh] using hle
        exact hzero
  · intro h
    have hunbroken : ∀ us, us <+: ts → (run us).Unbroken := by
      intro us hus
      refine unbroken_run us ?_
      rw [Runs.along_iff_isPrefix]
      exact fun vs t hvs ↦ h vs t (hvs.trans hus)
    have hbefore : ∀ {us t}, us ++ [t] <+: ts → us <+: ts :=
      fun hpre ↦ (List.prefix_append _ _).trans hpre
    refine ⟨?_, ?_, ?_⟩
    · intro us t hpre p
      rw [run_snoc]
      exact ((hunbroken us (hbefore hpre)).step (h us t hpre)).2 p
    · -- a node in term 0 has acknowledged nothing
      intro us i raftState snapshot hpre log hmem
      have hpos := (hunbroken us (hbefore hpre)).acked i log hmem
      have hzero : ((run us).cluster.nodes i).currentTerm = 0 := h us _ hpre
      omega
    · intro p term x y hx hy
      have hlast := hunbroken ts List.prefix_rfl
      exact hlast.elections.unique x y term p (hlast.voted p term x hx) (hlast.voted p term y hy)

section forgotten

open scoped Archive

/-- A node votes for one candidate in term 1, crashes and restarts, and votes
for another one in term 1. -/
def forgottenVote (p x y : Fin n) : List (Turn n) :=
  [.act (.doElection x), .act (.doElection y), .act (.requestVote x 1 p), .restart p 1000 1000,
    .act (.requestVote y 1 p)]

theorem not_durable_forgottenVote : ¬ Durable (forgottenVote (0 : Fin 3) 1 2) := by
  intro h
  have hsame : (1 : Fin 3) = 2 := h.voted 0 1 1 2 (by decide +kernel) (by decide +kernel)
  exact absurd hsame (by decide)

end forgotten

end Life

end HttpRaftKv.Raft
