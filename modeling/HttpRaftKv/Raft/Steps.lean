import HttpRaftKv.Raft.Archive
import HttpRaftKv.Raft.Cluster
import HttpRaftKv.Raft.Evolves

/-!
# The steps of the cluster

An action that can be taken runs one function of one node and moves one call of
one thread (`Taken`).  If the indices of the cluster are in order, it is one of the
steps of the relation `Step`, which says what can come out of that function.  The
assertions appear only as the step `exit`.  The order is kept by every step, so the
relation describes every step of every run.
-/

namespace HttpRaftKv.Raft

open Storage

namespace Call

variable {α β : Type}

def args : Call α β → α
  | sent args => args
  | replied args _ => args
  | returned args _ => args

/-- The reply, from the moment at which the callee has sent it. -/
def reply : Call α β → Option β
  | sent _ => none
  | replied _ reply => some reply
  | returned _ reply => some reply

theorem eq_replied_of_disconnected {reply : β} {call call' : Call α β}
    (h : call.disconnected reply = some call') : call' = .replied call.args reply := by
  cases call with
  | sent args => exact (Option.some.inj h).symm
  | replied args _ => exact (Option.some.inj h).symm
  | returned => cases h

end Call

/-- A node that has started an election. -/
def Node.campaign {n : ℕ} (rf : Node n) (me : Fin n) (ps : Persister) : Node n :=
  { rf with
    status := .candidate
    currentTerm := rf.currentTerm + 1
    votedFor := some me
    persister := ps }

/-- The request of an election that a node starts. -/
def Node.ballot {n : ℕ} (rf : Node n) (me : Fin n) : RequestVoteArgs n :=
  ⟨rf.currentTerm + 1, me, rf.getLastLogIndex, rf.getLastLogTerm⟩

/-- An election at its start. -/
def Election.opened {n : ℕ} (i : Fin n) (args : RequestVoteArgs n) : Election n where
  votedNum := 1
  calls := fun p ↦ if p = i then none else some (.sent args)

namespace Cluster

variable {n : ℕ}

/-! ## Reading a cluster -/

/-- The call by which an election asks for the vote of a peer. -/
def voteCall (c : Cluster n) (i : Fin n) (term : ℕ) (p : Fin n) :
    Option (Call (RequestVoteArgs n) RequestVoteReply) :=
  (c.elections i term).bind fun e ↦ e.calls p

/-- The thread of a heartbeat for a peer. -/
def sender (c : Cluster n) (i : Fin n) (beat : ℕ) (p : Fin n) : Option (Sender n) :=
  (c.heartBeats i)[beat]?.bind fun h ↦ h.senders p

section updates

variable (c : Cluster n) (i : Fin n)

@[simp] theorem setNode_nodes (rf : Node n) :
    (c.setNode i rf).nodes = Function.update c.nodes i rf := rfl

theorem setNode_self : c.setNode i (c.nodes i) = c := by
  simp [setNode]

@[simp] theorem setElection_nodes (term : ℕ) (e : Election n) :
    (c.setElection i term e).nodes = c.nodes := rfl

@[simp] theorem setHeartBeat_nodes (beat : ℕ) (h : HeartBeat n) :
    (c.setHeartBeat i beat h).nodes = c.nodes := rfl

@[simp] theorem addHeartBeat_nodes (h : HeartBeat n) : (c.addHeartBeat i h).nodes = c.nodes := rfl

@[simp] theorem record_nodes (events : List (Event n)) : (c.record events).nodes = c.nodes := rfl

@[simp] theorem exit_nodes : (c.exit i).nodes = c.nodes := rfl

@[simp] theorem setNode_history (rf : Node n) : (c.setNode i rf).history = c.history := rfl

@[simp] theorem setElection_history (term : ℕ) (e : Election n) :
    (c.setElection i term e).history = c.history := rfl

@[simp] theorem setHeartBeat_history (beat : ℕ) (h : HeartBeat n) :
    (c.setHeartBeat i beat h).history = c.history := rfl

@[simp] theorem addHeartBeat_history (h : HeartBeat n) :
    (c.addHeartBeat i h).history = c.history := rfl

@[simp] theorem record_history (events : List (Event n)) :
    (c.record events).history = c.history ++ events := rfl

@[simp] theorem exit_history : (c.exit i).history = c.history := rfl

@[simp] theorem setNode_elections (rf : Node n) : (c.setNode i rf).elections = c.elections := rfl

@[simp] theorem setHeartBeat_elections (beat : ℕ) (h : HeartBeat n) :
    (c.setHeartBeat i beat h).elections = c.elections := rfl

@[simp] theorem addHeartBeat_elections (h : HeartBeat n) :
    (c.addHeartBeat i h).elections = c.elections := rfl

@[simp] theorem record_elections (events : List (Event n)) :
    (c.record events).elections = c.elections := rfl

@[simp] theorem exit_elections : (c.exit i).elections = c.elections := rfl

@[simp] theorem setNode_heartBeats (rf : Node n) :
    (c.setNode i rf).heartBeats = c.heartBeats := rfl

@[simp] theorem setElection_heartBeats (term : ℕ) (e : Election n) :
    (c.setElection i term e).heartBeats = c.heartBeats := rfl

@[simp] theorem record_heartBeats (events : List (Event n)) :
    (c.record events).heartBeats = c.heartBeats := rfl

@[simp] theorem exit_heartBeats : (c.exit i).heartBeats = c.heartBeats := rfl

theorem setElection_elections (term : ℕ) (e : Election n) (j : Fin n) (t : ℕ) :
    (c.setElection i term e).elections j t =
      if j = i ∧ t = term then some e else c.elections j t := by
  by_cases hj : j = i
  · subst hj
    by_cases ht : t = term <;> simp [setElection, ht]
  · simp [setElection, hj]

theorem setHeartBeat_getElem? {beat : ℕ} {h₀ : HeartBeat n} (h : HeartBeat n)
    (hbeat : (c.heartBeats i)[beat]? = some h₀) (j : Fin n) (b : ℕ) :
    ((c.setHeartBeat i beat h).heartBeats j)[b]? =
      if j = i ∧ b = beat then some h else (c.heartBeats j)[b]? := by
  have hlt := (List.getElem?_eq_some_iff.mp hbeat).1
  by_cases hj : j = i
  · subst hj
    by_cases hb : b = beat
    · subst hb
      simp [setHeartBeat, hlt]
    · simp [setHeartBeat, hb, List.getElem?_set_ne (Ne.symm hb)]
  · simp [setHeartBeat, hj]

theorem addHeartBeat_getElem? (h : HeartBeat n) (j : Fin n) (b : ℕ) :
    ((c.addHeartBeat i h).heartBeats j)[b]? =
      if j = i ∧ b = (c.heartBeats i).length then some h else (c.heartBeats j)[b]? := by
  by_cases hj : j = i
  · subst hj
    by_cases hb : b = (c.heartBeats j).length
    · simp [addHeartBeat, hb]
    · simp only [addHeartBeat, Function.update_self, hb, and_false, if_false]
      by_cases hlt : b < (c.heartBeats j).length
      · rw [List.getElem?_append_left hlt]
      · rw [List.getElem?_eq_none (by simp; omega), List.getElem?_eq_none (by omega)]
  · simp [addHeartBeat, hj]

end updates

/-! ## What an action calls -/

section taken

variable [TextArchive (BoostPersistRaftNode n)] {c c' : Cluster n} {a : Action n}

/-- An action that can be taken, with the function that it runs and its result. -/
inductive Taken (c : Cluster n) : Action n → Cluster n → Prop
  | exit (a : Action n) (i : Fin n) : Taken c a (c.exit i)
  | doElection (i : Fin n) (rf : Node n) (args : RequestVoteArgs n)
      (hout : (c.nodes i).doElection i = some (rf, args)) :
      Taken c (.doElection i) ((c.setNode i rf).setElection i rf.currentTerm (.opened i args))
  | requestVote (i : Fin n) (term : ℕ) (p : Fin n) (e : Election n) (args : RequestVoteArgs n)
      (rf : Node n) (reply : RequestVoteReply) (he : c.elections i term = some e)
      (hcall : e.calls p = some (.sent args))
      (hout : (c.nodes p).requestVote args = .ok (rf, reply)) :
      Taken c (.requestVote i term p)
        ((c.setNode p rf).setElection i term (e.setCall p (.replied args reply)))
  | sendRequestVote (i : Fin n) (term : ℕ) (p : Fin n) (e : Election n)
      (args : RequestVoteArgs n) (reply : RequestVoteReply) (rf : Node n) (votedNum : ℕ)
      (elected : Bool) (he : c.elections i term = some e)
      (hcall : e.calls p = some (.replied args reply))
      (hout : (c.nodes i).sendRequestVote reply e.votedNum = .ok (rf, votedNum, elected)) :
      Taken c (.sendRequestVote i term p) (((c.setNode i rf).setElection i term
        { e.setCall p (.returned args reply) with votedNum := votedNum }).record
          (if elected then [.elected i rf.currentTerm] else []))
  | start (i : Fin n) (command : String) (rf : Node n) (log : LogEntry)
      (hout : (c.nodes i).start command = some (rf, log)) :
      Taken c (.start i command) ((c.setNode i rf).record [.started i log])
  | doHeartBeat (i : Fin n) (senders : Fin n → Option (Sender n))
      (hstatus : (c.nodes i).status = .leader)
      (hsenders : ∀ p s, senders p = some s → p ≠ i ∧
        ((c.nodes i).heartBeatTo i p = .ok none ∧ s = .snapShot none ∨
          ∃ args, (c.nodes i).heartBeatTo i p = .ok (some args) ∧ s = .appendEntries (.sent args))) :
      Taken c (.doHeartBeat i) (c.addHeartBeat i { appendNums := 1, senders := senders })
  | appendEntries1 (i : Fin n) (beat : ℕ) (p : Fin n) (h : HeartBeat n)
      (args : AppendEntriesArgs n) (rf : Node n) (reply : AppendEntriesReply)
      (hbeat : (c.heartBeats i)[beat]? = some h)
      (hcall : h.senders p = some (.appendEntries (.sent args)))
      (hout : (c.nodes p).appendEntries1 args = .ok (rf, reply)) :
      Taken c (.appendEntries1 i beat p) ((c.setNode p rf).setHeartBeat i beat
        (h.setSender p (.appendEntries (.replied args reply))))
  | sendAppendEntries (i : Fin n) (beat : ℕ) (p : Fin n) (h : HeartBeat n)
      (args : AppendEntriesArgs n) (reply : AppendEntriesReply) (rf : Node n) (appendNums : ℕ)
      (hrunning : c.exited i = false) (hbeat : (c.heartBeats i)[beat]? = some h)
      (hcall : h.senders p = some (.appendEntries (.replied args reply)))
      (hout : (c.nodes i).sendAppendEntries p args reply h.appendNums = .ok (rf, appendNums)) :
      Taken c (.sendAppendEntries i beat p) ((c.setNode i rf).setHeartBeat i beat
        { h.setSender p (.appendEntries (.returned args reply)) with appendNums := appendNums })
  | leaderSendSnapShot (i : Fin n) (beat : ℕ) (p : Fin n) (h : HeartBeat n)
      (hbeat : (c.heartBeats i)[beat]? = some h) (hcall : h.senders p = some (.snapShot none)) :
      Taken c (.leaderSendSnapShot i beat p)
        ((c.setNode i ((c.nodes i).leaderSendSnapShot i).1).setHeartBeat i beat
          (h.setSender p (.snapShot (some (.sent ((c.nodes i).leaderSendSnapShot i).2)))))
  | installSnapshot (i : Fin n) (beat : ℕ) (p : Fin n) (h : HeartBeat n)
      (args : InstallSnapshotRequest n) (rf : Node n) (reply : InstallSnapshotResponse)
      (msg : Option ApplyMsg) (hbeat : (c.heartBeats i)[beat]? = some h)
      (hcall : h.senders p = some (.snapShot (some (.sent args))))
      (hout : (c.nodes p).installSnapshot args = .ok (rf, reply, msg)) :
      Taken c (.installSnapshot i beat p) ((c.setNode p rf).setHeartBeat i beat
        (h.setSender p (.snapShot (some (.replied args reply)))))
  | disconnect (i : Fin n) (beat : ℕ) (p : Fin n) (h : HeartBeat n)
      (call : Call (InstallSnapshotRequest n) InstallSnapshotResponse)
      (hbeat : (c.heartBeats i)[beat]? = some h)
      (hcall : h.senders p = some (.snapShot (some call))) :
      Taken c (.disconnect i beat p) (c.setHeartBeat i beat
        (h.setSender p (.snapShot (some (.replied call.args {})))))
  | leaderSendSnapShotReply (i : Fin n) (beat : ℕ) (p : Fin n) (h : HeartBeat n)
      (args : InstallSnapshotRequest n) (reply : InstallSnapshotResponse)
      (hbeat : (c.heartBeats i)[beat]? = some h)
      (hcall : h.senders p = some (.snapShot (some (.replied args reply)))) :
      Taken c (.leaderSendSnapShotReply i beat p)
        ((c.setNode i ((c.nodes i).leaderSendSnapShotReply p args reply)).setHeartBeat i beat
          (h.setSender p (.snapShot (some (.returned args reply)))))
  | snapshot (i : Fin n) (index : ℕ) (data : String) (rf : Node n)
      (hout : (c.nodes i).snapshot index data = .ok rf) :
      Taken c (.snapshot i index data) (c.setNode i rf)
  | getApplyLogs (i : Fin n) (rf : Node n) (msgs : List ApplyMsg)
      (hout : (c.nodes i).getApplyLogs = .ok (rf, msgs)) :
      Taken c (.getApplyLogs i) ((c.setNode i rf).record (msgs.map (.emitted i)))

open Checked

/-- The inversion lemma of `next`. -/
theorem taken_of_next (h : c.next a = some c') : Taken c a c' := by
  cases a with
  | doElection i =>
      obtain ⟨_, _, h⟩ := Option.bind_eq_some_iff.mp h
      obtain ⟨⟨rf, args⟩, hout, h⟩ := Option.bind_eq_some_iff.mp h
      cases Option.some.inj h
      exact .doElection i rf args hout
  | requestVote i term p =>
      obtain ⟨_, _, h⟩ := Option.bind_eq_some_iff.mp h
      obtain ⟨e, he, h⟩ := Option.bind_eq_some_iff.mp h
      split at h
      · rename_i args hcall
        split at h
        · cases Option.some.inj h
          exact .exit _ p
        · rename_i rf reply hout
          cases Option.some.inj h
          exact .requestVote i term p e args rf reply he hcall hout
      · cases h
  | sendRequestVote i term p =>
      obtain ⟨_, _, h⟩ := Option.bind_eq_some_iff.mp h
      obtain ⟨e, he, h⟩ := Option.bind_eq_some_iff.mp h
      split at h
      · rename_i args reply hcall
        split at h
        · cases Option.some.inj h
          exact .exit _ i
        · rename_i rf votedNum elected hout
          cases Option.some.inj h
          exact .sendRequestVote i term p e args reply rf votedNum elected he hcall hout
      · cases h
  | start i command =>
      obtain ⟨_, _, h⟩ := Option.bind_eq_some_iff.mp h
      obtain ⟨⟨rf, log⟩, hout, h⟩ := Option.bind_eq_some_iff.mp h
      cases Option.some.inj h
      exact .start i command rf log hout
  | doHeartBeat i =>
      obtain ⟨_, _, h⟩ := Option.bind_eq_some_iff.mp h
      obtain ⟨_, hstatus, h⟩ := Option.bind_eq_some_iff.mp h
      dsimp only at h
      split at h
      · cases Option.some.inj h
        exact .exit _ i
      · rename_i senders hsenders
        cases Option.some.inj h
        refine .doHeartBeat i senders (by simpa using hstatus) ?_
        intro p s hs
        have hp := forFin_eq_ok.mp hsenders p
        rw [hs] at hp
        by_cases hpi : p = i
        · simp [hpi] at hp
        · rw [if_neg hpi] at hp
          obtain ⟨built, hbuilt, hp⟩ := bind_eq_ok.mp hp
          cases built with
          | none => exact ⟨hpi, .inl ⟨hbuilt, (Option.some.inj (pure_eq_ok.mp hp)).symm⟩⟩
          | some args =>
              exact ⟨hpi, .inr ⟨args, hbuilt, (Option.some.inj (pure_eq_ok.mp hp)).symm⟩⟩
  | appendEntries1 i beat p =>
      obtain ⟨_, _, h⟩ := Option.bind_eq_some_iff.mp h
      obtain ⟨b, hbeat, h⟩ := Option.bind_eq_some_iff.mp h
      split at h
      · rename_i args hcall
        split at h
        · cases Option.some.inj h
          exact .exit _ p
        · rename_i rf reply hout
          cases Option.some.inj h
          exact .appendEntries1 i beat p b args rf reply hbeat hcall hout
      · cases h
  | sendAppendEntries i beat p =>
      obtain ⟨_, hrunning, h⟩ := Option.bind_eq_some_iff.mp h
      obtain ⟨b, hbeat, h⟩ := Option.bind_eq_some_iff.mp h
      split at h
      · rename_i args reply hcall
        split at h
        · cases Option.some.inj h
          exact .exit _ i
        · rename_i rf appendNums hout
          cases Option.some.inj h
          exact .sendAppendEntries i beat p b args reply rf appendNums (by simpa using hrunning)
            hbeat hcall hout
      · cases h
  | leaderSendSnapShot i beat p =>
      obtain ⟨_, _, h⟩ := Option.bind_eq_some_iff.mp h
      obtain ⟨b, hbeat, h⟩ := Option.bind_eq_some_iff.mp h
      split at h
      · rename_i hcall
        cases Option.some.inj h
        exact .leaderSendSnapShot i beat p b hbeat hcall
      · cases h
  | installSnapshot i beat p =>
      obtain ⟨_, _, h⟩ := Option.bind_eq_some_iff.mp h
      obtain ⟨b, hbeat, h⟩ := Option.bind_eq_some_iff.mp h
      split at h
      · rename_i args hcall
        split at h
        · cases Option.some.inj h
          exact .exit _ p
        · rename_i rf reply msg hout
          cases Option.some.inj h
          exact .installSnapshot i beat p b args rf reply msg hbeat hcall hout
      · cases h
  | disconnect i beat p =>
      obtain ⟨b, hbeat, h⟩ := Option.bind_eq_some_iff.mp h
      split at h
      · rename_i call hcall
        obtain ⟨call', hcall', h⟩ := Option.bind_eq_some_iff.mp h
        cases Option.some.inj h
        rw [Call.eq_replied_of_disconnected hcall']
        exact .disconnect i beat p b call hbeat hcall
      · cases h
  | leaderSendSnapShotReply i beat p =>
      obtain ⟨_, _, h⟩ := Option.bind_eq_some_iff.mp h
      obtain ⟨b, hbeat, h⟩ := Option.bind_eq_some_iff.mp h
      split at h
      · rename_i args reply hcall
        cases Option.some.inj h
        exact .leaderSendSnapShotReply i beat p b args reply hbeat hcall
      · cases h
  | snapshot i index data =>
      obtain ⟨_, _, h⟩ := Option.bind_eq_some_iff.mp h
      split at h
      · cases Option.some.inj h
        exact .exit _ i
      · rename_i rf hout
        cases Option.some.inj h
        exact .snapshot i index data rf hout
  | getApplyLogs i =>
      obtain ⟨_, _, h⟩ := Option.bind_eq_some_iff.mp h
      split at h
      · cases Option.some.inj h
        exact .exit _ i
      · rename_i rf msgs hout
        cases Option.some.inj h
        exact .getApplyLogs i rf msgs hout

end taken

/-! ## The step relation -/

/-- What `doHeartBeat` puts into a request. -/
structure Built (i : Fin n) (rf : Node n) (args : AppendEntriesArgs n) : Prop where
  term : args.term = rf.currentTerm
  leaderid : args.leaderid = i
  leadercommit : args.leadercommit = rf.commitIndex
  prevlogterm : rf.termAt args.prevlogindex = some args.prevlogterm
  entries : args.entries = rf.logs.drop (args.prevlogindex - rf.lastSnapshotIncludeIndex)
  length : args.prevlogindex + args.entries.length = rf.getLastLogIndex

open Node in
inductive Step (c : Cluster n) : Action n → Cluster n → Prop
  | idle (a : Action n) : Step c a c
  | exit (a : Action n) (i : Fin n) : Step c a (c.exit i)
  | doElection (i : Fin n) (ps : Persister) (hstatus : (c.nodes i).status ≠ .leader) :
      Step c (.doElection i) ((c.setNode i ((c.nodes i).campaign i ps)).setElection i
        ((c.nodes i).currentTerm + 1) (.opened i ((c.nodes i).ballot i)))
  | requestVote (i : Fin n) (term : ℕ) (p : Fin n) (e : Election n) (args : RequestVoteArgs n)
      (rf : Node n) (reply : RequestVoteReply) (he : c.elections i term = some e)
      (hcall : e.calls p = some (.sent args))
      (hout : RequestVoteOutcome (c.nodes p) args rf reply) :
      Step c (.requestVote i term p)
        ((c.setNode p rf).setElection i term (e.setCall p (.replied args reply)))
  | sendRequestVote (i : Fin n) (term : ℕ) (p : Fin n) (e : Election n)
      (args : RequestVoteArgs n) (reply : RequestVoteReply) (rf : Node n) (votedNum : ℕ)
      (elected : Bool) (he : c.elections i term = some e)
      (hcall : e.calls p = some (.replied args reply))
      (hout : SendRequestVoteOutcome (c.nodes i) reply e.votedNum rf votedNum elected) :
      Step c (.sendRequestVote i term p) (((c.setNode i rf).setElection i term
        { e.setCall p (.returned args reply) with votedNum := votedNum }).record
          (if elected then [.elected i rf.currentTerm] else []))
  | start (i : Fin n) (command : String) (log : LogEntry) (ps : Persister)
      (hstatus : (c.nodes i).status = .leader)
      (hlog : log = ⟨command, (c.nodes i).currentTerm, (c.nodes i).getLastLogIndex + 1⟩) :
      Step c (.start i command)
        ((c.setNode i { c.nodes i with logs := (c.nodes i).logs ++ [log], persister := ps }).record
          [.started i log])
  | doHeartBeat (i : Fin n) (senders : Fin n → Option (Sender n))
      (hstatus : (c.nodes i).status = .leader)
      (hsenders : ∀ p s, senders p = some s → p ≠ i ∧ (s = .snapShot none ∨
        ∃ args, s = .appendEntries (.sent args) ∧ Built i (c.nodes i) args)) :
      Step c (.doHeartBeat i) (c.addHeartBeat i { appendNums := 1, senders := senders })
  | appendEntries1 (i : Fin n) (beat : ℕ) (p : Fin n) (h : HeartBeat n)
      (args : AppendEntriesArgs n) (rf : Node n) (reply : AppendEntriesReply)
      (hbeat : (c.heartBeats i)[beat]? = some h)
      (hcall : h.senders p = some (.appendEntries (.sent args)))
      (hout : AppendEntriesOutcome (c.nodes p) args rf reply) :
      Step c (.appendEntries1 i beat p) ((c.setNode p rf).setHeartBeat i beat
        (h.setSender p (.appendEntries (.replied args reply))))
  | sendAppendEntries (i : Fin n) (beat : ℕ) (p : Fin n) (h : HeartBeat n)
      (args : AppendEntriesArgs n) (reply : AppendEntriesReply) (rf : Node n) (appendNums : ℕ)
      (hbeat : (c.heartBeats i)[beat]? = some h)
      (hcall : h.senders p = some (.appendEntries (.replied args reply)))
      (hout : SendAppendEntriesOutcome (c.nodes i) p args reply h.appendNums rf appendNums) :
      Step c (.sendAppendEntries i beat p) ((c.setNode i rf).setHeartBeat i beat
        { h.setSender p (.appendEntries (.returned args reply)) with appendNums := appendNums })
  | leaderSendSnapShot (i : Fin n) (beat : ℕ) (p : Fin n) (h : HeartBeat n)
      (args : InstallSnapshotRequest n) (ps : Persister)
      (hbeat : (c.heartBeats i)[beat]? = some h) (hcall : h.senders p = some (.snapShot none))
      (hterm : args.term = (c.nodes i).currentTerm)
      (hindex : args.lastsnapshotincludeindex = (c.nodes i).lastSnapshotIncludeIndex)
      (hsnap : args.lastsnapshotincludeterm = (c.nodes i).lastSnapshotIncludeTerm) :
      Step c (.leaderSendSnapShot i beat p)
        ((c.setNode i { c.nodes i with persister := ps }).setHeartBeat i beat
          (h.setSender p (.snapShot (some (.sent args)))))
  | installSnapshot (i : Fin n) (beat : ℕ) (p : Fin n) (h : HeartBeat n)
      (args : InstallSnapshotRequest n) (rf : Node n) (reply : InstallSnapshotResponse)
      (hbeat : (c.heartBeats i)[beat]? = some h)
      (hcall : h.senders p = some (.snapShot (some (.sent args))))
      (hout : InstallSnapshotOutcome (c.nodes p) args rf reply) :
      Step c (.installSnapshot i beat p) ((c.setNode p rf).setHeartBeat i beat
        (h.setSender p (.snapShot (some (.replied args reply)))))
  | disconnect (i : Fin n) (beat : ℕ) (p : Fin n) (h : HeartBeat n)
      (call : Call (InstallSnapshotRequest n) InstallSnapshotResponse)
      (hbeat : (c.heartBeats i)[beat]? = some h)
      (hcall : h.senders p = some (.snapShot (some call))) :
      Step c (.disconnect i beat p) (c.setHeartBeat i beat
        (h.setSender p (.snapShot (some (.replied call.args {})))))
  | leaderSendSnapShotReply (i : Fin n) (beat : ℕ) (p : Fin n) (h : HeartBeat n)
      (args : InstallSnapshotRequest n) (reply : InstallSnapshotResponse) (rf : Node n)
      (hbeat : (c.heartBeats i)[beat]? = some h)
      (hcall : h.senders p = some (.snapShot (some (.replied args reply))))
      (hout : LeaderSendSnapShotReplyOutcome (c.nodes i) p args reply rf) :
      Step c (.leaderSendSnapShotReply i beat p) ((c.setNode i rf).setHeartBeat i beat
        (h.setSender p (.snapShot (some (.returned args reply)))))
  | snapshot (i : Fin n) (index : ℕ) (data : String) (log : LogEntry) (ps : Persister)
      (hlt : (c.nodes i).lastSnapshotIncludeIndex < index)
      (hle : index ≤ (c.nodes i).commitIndex) (hlog : (c.nodes i).entryAt index = some log) :
      Step c (.snapshot i index data) (c.setNode i { c.nodes i with
        lastSnapshotIncludeIndex := index
        lastSnapshotIncludeTerm := log.logterm
        logs := (c.nodes i).logs.drop (index - (c.nodes i).lastSnapshotIncludeIndex)
        lastApplied := max (c.nodes i).lastApplied index
        persister := ps })
  | getApplyLogs (i : Fin n) (msgs : List ApplyMsg)
      (hmsgs : List.Forall₂ (fun index msg ↦ ∃ log, (c.nodes i).entryAt index = some log ∧
          msg = { commandValid := true, command := log.command, commandIndex := (index : ℕ) })
        (List.range' ((c.nodes i).lastApplied + 1)
          ((c.nodes i).commitIndex - (c.nodes i).lastApplied)) msgs) :
      Step c (.getApplyLogs i) ((c.setNode i { c.nodes i with
        lastApplied := max (c.nodes i).lastApplied (c.nodes i).commitIndex }).record
          (msgs.map (.emitted i)))

/-- The indices of the nodes and of the requests in flight are in order. -/
structure Ordered (c : Cluster n) : Prop where
  node : ∀ i, (c.nodes i).Sound
  request : ∀ i beat p call, c.sender i beat p = some (.appendEntries call) →
    Node.Consecutive call.args.prevlogindex call.args.entries

section spec

variable [TextArchive (BoostPersistRaftNode n)] {c : Cluster n}

theorem Ordered.next_spec {c' : Cluster n} {a : Action n} (hord : c.Ordered)
    (h : c.next a = some c') : Step c a c' := by
  cases taken_of_next h with
  | exit a i => exact .exit a i
  | doElection i rf args hout =>
      obtain ⟨hstatus, ⟨ps, rfl⟩, rfl⟩ := Node.doElection_eq_some hout
      exact .doElection i ps hstatus
  | requestVote i term p e args rf reply he hcall hout =>
      exact .requestVote i term p e args rf reply he hcall (Node.requestVote_outcome hout)
  | sendRequestVote i term p e args reply rf votedNum elected he hcall hout =>
      exact .sendRequestVote i term p e args reply rf votedNum elected he hcall
        (Node.sendRequestVote_outcome hout)
  | start i command rf log hout =>
      obtain ⟨hstatus, hlog, ps, rfl⟩ := Node.start_eq_some hout
      exact .start i command log ps hstatus hlog
  | doHeartBeat i senders hstatus hsenders =>
      refine .doHeartBeat i senders hstatus fun p s hs ↦ ?_
      obtain ⟨hpi, ⟨-, rfl⟩ | ⟨args, hbuilt, rfl⟩⟩ := hsenders p s hs
      · exact ⟨hpi, .inl rfl⟩
      · obtain ⟨hterm, hid, hcommit, hprev, hentries, hlength⟩ :=
          (hord.node i).indexed.heartBeatTo_eq_some hbuilt
        exact ⟨hpi, .inr ⟨args, rfl, hterm, hid, hcommit, hprev, hentries, hlength⟩⟩
  | appendEntries1 i beat p b args rf reply hbeat hcall hout =>
      have hcons := hord.request i beat p (.sent args) (by simp [sender, hbeat, hcall])
      exact .appendEntries1 i beat p b args rf reply hbeat hcall
        ((hord.node p).indexed.appendEntries1_outcome hcons hout)
  | sendAppendEntries i beat p b args reply rf appendNums hrunning hbeat hcall hout =>
      exact .sendAppendEntries i beat p b args reply rf appendNums hbeat hcall
        (Node.sendAppendEntries_outcome hout)
  | leaderSendSnapShot i beat p b hbeat hcall =>
      exact .leaderSendSnapShot i beat p b _ _ hbeat hcall rfl rfl rfl
  | installSnapshot i beat p b args rf reply msg hbeat hcall hout =>
      exact .installSnapshot i beat p b args rf reply hbeat hcall
        ((hord.node p).indexed.installSnapshot_outcome hout)
  | disconnect i beat p b call hbeat hcall => exact .disconnect i beat p b call hbeat hcall
  | leaderSendSnapShotReply i beat p b args reply hbeat hcall =>
      exact .leaderSendSnapShotReply i beat p b args reply _ hbeat hcall
        Node.leaderSendSnapShotReply_outcome
  | snapshot i index data rf hout =>
      rcases (hord.node i).indexed.snapshot_eq_ok hout with rfl | ⟨hlt, hle, log, ps, hlog, rfl⟩
      · rw [setNode_self]
        exact .idle _
      · exact .snapshot i index data log ps hlt hle hlog
  | getApplyLogs i rf msgs hout =>
      obtain ⟨-, rfl, hmsgs⟩ := (hord.node i).indexed.getApplyLogs_eq_ok hout
      exact .getApplyLogs i msgs hmsgs

theorem Ordered.step_spec (hord : c.Ordered) (a : Action n) : Step c a (c.step a) := by
  unfold step
  cases hnext : c.next a with
  | none => exact .idle a
  | some c' => exact hord.next_spec hnext

end spec

/-! ## Runs are ordered -/

section calls

variable {c : Cluster n} {i : Fin n}

theorem sender_setHeartBeat {beat : ℕ} {h : HeartBeat n}
    (hbeat : (c.heartBeats i)[beat]? = some h) (p : Fin n) (s : Sender n) (appendNums : ℕ)
    (j : Fin n) (b : ℕ) (q : Fin n) :
    (c.setHeartBeat i beat { h.setSender p s with appendNums := appendNums }).sender j b q =
      if j = i ∧ b = beat ∧ q = p then some s else c.sender j b q := by
  unfold sender
  rw [setHeartBeat_getElem? c i _ hbeat]
  by_cases hb : j = i ∧ b = beat
  · obtain ⟨rfl, rfl⟩ := hb
    by_cases hq : q = p <;> simp [HeartBeat.setSender, hq, hbeat]
  · rw [if_neg hb, if_neg (fun hall ↦ hb ⟨hall.1, hall.2.1⟩)]

theorem sender_addHeartBeat (h : HeartBeat n) (j : Fin n) (b : ℕ) (q : Fin n) :
    (c.addHeartBeat i h).sender j b q =
      if j = i ∧ b = (c.heartBeats i).length then h.senders q else c.sender j b q := by
  unfold sender
  rw [addHeartBeat_getElem?]
  split_ifs <;> rfl

theorem voteCall_setElection {term : ℕ} {e : Election n} (he : c.elections i term = some e)
    (p : Fin n) (call : Call (RequestVoteArgs n) RequestVoteReply) (votedNum : ℕ)
    (j : Fin n) (t : ℕ) (q : Fin n) :
    (c.setElection i term { e.setCall p call with votedNum := votedNum }).voteCall j t q =
      if j = i ∧ t = term ∧ q = p then some call else c.voteCall j t q := by
  unfold voteCall
  rw [setElection_elections]
  by_cases ht : j = i ∧ t = term
  · obtain ⟨rfl, rfl⟩ := ht
    by_cases hq : q = p <;> simp [Election.setCall, hq, he]
  · rw [if_neg ht, if_neg (fun hall ↦ ht ⟨hall.1, hall.2.1⟩)]

end calls

section ordered

variable {c c' : Cluster n} {a : Action n}

open Node

theorem Built.consecutive {i : Fin n} {rf : Node n} {args : AppendEntriesArgs n}
    (h : Built i rf args) (hindexed : rf.Indexed) :
    Consecutive args.prevlogindex args.entries := by
  have hge := (hindexed.termAt_isSome.mp ⟨_, h.prevlogterm⟩).1
  intro k log hk
  rw [h.entries, List.getElem?_drop] at hk
  have := hindexed _ _ hk
  omega

theorem Step.evolves (hstep : Step c a c') (hord : c.Ordered) :
    ∀ j, (c.nodes j).Evolves (c'.nodes j) := by
  -- a step changes at most one node
  have hone : ∀ (i : Fin n) (rf : Node n), (c.nodes i).Evolves rf →
      ∀ j, (c.nodes j).Evolves (Function.update c.nodes i rf j) := by
    intro i rf hrf
    exact (Function.forall_update_iff _ _).mpr ⟨hrf, fun j _ ↦ (hord.node j).evolves_refl⟩
  cases hstep with
  | idle => exact fun j ↦ (hord.node j).evolves_refl
  | exit a i => exact fun j ↦ (hord.node j).evolves_refl
  | doElection i ps hstatus =>
      refine hone i _ ((hord.node i).evolves_of_same rfl rfl rfl rfl (Nat.le_succ _) ?_)
      exact fun heq ↦ absurd heq (Nat.succ_ne_self _)
  | requestVote i term p e args rf reply he hcall hout =>
      exact hone p rf (hout.evolves (hord.node p))
  | sendRequestVote i term p e args reply rf votedNum elected he hcall hout =>
      exact hone i rf (hout.evolves (hord.node i))
  | start i command log ps hstatus hlog =>
      exact hone i _ ((hord.node i).evolves_start (by rw [hlog]))
  | doHeartBeat i senders hstatus hsenders => exact fun j ↦ (hord.node j).evolves_refl
  | appendEntries1 i beat p h args rf reply hbeat hcall hout =>
      have hcons := hord.request i beat p (.sent args) (by simp [sender, hbeat, hcall])
      exact hone p rf (hout.evolves (hord.node p) hcons)
  | sendAppendEntries i beat p h args reply rf appendNums hbeat hcall hout =>
      exact hone i rf (hout.evolves (hord.node i))
  | leaderSendSnapShot i beat p h args ps hbeat hcall hterm hindex hsnap =>
      exact hone i _ ((hord.node i).evolves_of_same rfl rfl rfl rfl le_rfl fun _ ↦ .inr rfl)
  | installSnapshot i beat p h args rf reply hbeat hcall hout =>
      exact hone p rf (hout.evolves (hord.node p))
  | disconnect => exact fun j ↦ (hord.node j).evolves_refl
  | leaderSendSnapShotReply i beat p h args reply rf hbeat hcall hout =>
      exact hone i rf (hout.evolves (hord.node i))
  | snapshot i index data log ps hlt hle hlog =>
      exact hone i _ ((hord.node i).evolves_snapshot hlt hle)
  | getApplyLogs i msgs hmsgs => exact hone i _ (hord.node i).evolves_getApplyLogs

/-- The ways in which the thread of a heartbeat for the peer `p` of `i` moves. -/
inductive Moves (c : Cluster n) (a : Action n) (c' : Cluster n) (i : Fin n) (beat : ℕ) (p : Fin n) :
    Option (Sender n) → Option (Sender n) → Prop
  | kept (s : Option (Sender n)) : Moves c a c' i beat p s s
  | created (args : AppendEntriesArgs n) (hne : p ≠ i) (hstatus : (c.nodes i).status = .leader)
      (hbuilt : Built i (c.nodes i) args) (hbeat : (c.heartBeats i)[beat]? = none)
      (hnodes : c'.nodes = c.nodes) :
      Moves c a c' i beat p none (some (.appendEntries (.sent args)))
  | createdSnapShot (hne : p ≠ i) : Moves c a c' i beat p none (some (.snapShot none))
  | replied (args : AppendEntriesArgs n) (reply : AppendEntriesReply)
      (hact : a = .appendEntries1 i beat p)
      (hout : AppendEntriesOutcome (c.nodes p) args (c'.nodes p) reply) :
      Moves c a c' i beat p (some (.appendEntries (.sent args)))
        (some (.appendEntries (.replied args reply)))
  | returned (args : AppendEntriesArgs n) (reply : AppendEntriesReply) :
      Moves c a c' i beat p (some (.appendEntries (.replied args reply)))
        (some (.appendEntries (.returned args reply)))
  | sentSnapShot (args : InstallSnapshotRequest n)
      (hterm : args.term = (c.nodes i).currentTerm)
      (hindex : args.lastsnapshotincludeindex = (c.nodes i).lastSnapshotIncludeIndex)
      (hsnap : args.lastsnapshotincludeterm = (c.nodes i).lastSnapshotIncludeTerm) :
      Moves c a c' i beat p (some (.snapShot none)) (some (.snapShot (some (.sent args))))
  | repliedSnapShot (args : InstallSnapshotRequest n) (reply : InstallSnapshotResponse)
      (hout : InstallSnapshotOutcome (c.nodes p) args (c'.nodes p) reply) :
      Moves c a c' i beat p (some (.snapShot (some (.sent args))))
        (some (.snapShot (some (.replied args reply))))
  | droppedSnapShot (call : Call (InstallSnapshotRequest n) InstallSnapshotResponse)
      (hact : a = .disconnect i beat p) :
      Moves c a c' i beat p (some (.snapShot (some call)))
        (some (.snapShot (some (.replied call.args {}))))
  | returnedSnapShot (args : InstallSnapshotRequest n) (reply : InstallSnapshotResponse) :
      Moves c a c' i beat p (some (.snapShot (some (.replied args reply))))
        (some (.snapShot (some (.returned args reply))))

theorem Step.moves (hstep : Step c a c') (i : Fin n) (beat : ℕ) (p : Fin n) :
    Moves c a c' i beat p (c.sender i beat p) (c'.sender i beat p) := by
  -- all but one of the threads are kept
  have hone : ∀ {j q : Fin n} {b : ℕ} {h : HeartBeat n} {s₀ s : Sender n} {k : Fin n}
      {rf : Node n} {appendNums : ℕ} (hbeat : (c.heartBeats j)[b]? = some h),
      h.senders q = some s₀ → (j = i → b = beat → q = p → Moves c a c' i beat p (some s₀) (some s)) →
      Moves c a c' i beat p (c.sender i beat p) (((c.setNode k rf).setHeartBeat j b
        { h.setSender q s with appendNums := appendNums }).sender i beat p) := by
    intro j q b h s₀ s k rf appendNums hbeat hs₀ hmove
    rw [sender_setHeartBeat (by exact hbeat)]
    split_ifs with hsame
    · obtain ⟨rfl, rfl, rfl⟩ := hsame
      have hsender : c.sender i beat p = some s₀ := by simp [sender, hbeat, hs₀]
      rw [hsender]
      exact hmove rfl rfl rfl
    · exact .kept _
  cases hstep with
  | doHeartBeat j senders hstatus hsenders =>
      rw [sender_addHeartBeat]
      split_ifs with hnew
      · obtain ⟨rfl, rfl⟩ := hnew
        have hnone : c.sender i (c.heartBeats i).length p = none := by simp [sender]
        rw [hnone]
        dsimp only
        cases hs : senders p with
        | none => exact .kept _
        | some s =>
            obtain ⟨hne, rfl | ⟨args, rfl, hbuilt⟩⟩ := hsenders p s hs
            · exact .createdSnapShot hne
            · exact .created args hne hstatus hbuilt (List.getElem?_eq_none le_rfl) rfl
      · exact .kept _
  | appendEntries1 j b q h args rf reply hbeat hcall hout =>
      refine hone hbeat hcall fun hj hb hq ↦ ?_
      subst hj hb hq
      exact .replied args reply rfl (by simpa using hout)
  | sendAppendEntries j b q h args reply rf appendNums hbeat hcall hout =>
      exact hone hbeat hcall fun _ _ _ ↦ .returned args reply
  | leaderSendSnapShot j b q h args ps hbeat hcall hterm hindex hsnap =>
      refine hone hbeat hcall fun hj _ _ ↦ ?_
      subst hj
      exact .sentSnapShot args hterm hindex hsnap
  | installSnapshot j b q h args rf reply hbeat hcall hout =>
      refine hone hbeat hcall fun _ _ hq ↦ .repliedSnapShot args reply ?_
      subst hq
      simpa using hout
  | disconnect j b q h call hbeat hcall =>
      have hsender := sender_setHeartBeat hbeat q (.snapShot (some (.replied call.args {})))
        h.appendNums i beat p
      refine hsender ▸ ?_
      split_ifs with hsame
      · obtain ⟨rfl, rfl, rfl⟩ := hsame
        have hold : c.sender i beat p = some (.snapShot (some call)) := by
          simp [sender, hbeat, hcall]
        rw [hold]
        exact .droppedSnapShot call rfl
      · exact .kept _
  | leaderSendSnapShotReply j b q h args reply rf hbeat hcall hout =>
      exact hone hbeat hcall fun _ _ _ ↦ .returnedSnapShot args reply
  | idle => exact .kept _
  | exit => exact .kept _
  | doElection => exact .kept _
  | requestVote => exact .kept _
  | sendRequestVote => exact .kept _
  | start => exact .kept _
  | snapshot => exact .kept _
  | getApplyLogs => exact .kept _

/-- A request was in flight before, and a reply too, unless the peer gives it
in this step; or the leader has just built the request. -/
theorem Step.append_cases (hstep : Step c a c') {i p : Fin n} {beat : ℕ}
    {call : Call (AppendEntriesArgs n) AppendEntriesReply}
    (hcall : c'.sender i beat p = some (.appendEntries call)) :
    (∃ call₀, c.sender i beat p = some (.appendEntries call₀) ∧ call₀.args = call.args ∧
      ∀ reply, call.reply = some reply → call₀.reply = some reply ∨
        a = .appendEntries1 i beat p ∧ call₀ = .sent call.args ∧
          AppendEntriesOutcome (c.nodes p) call.args (c'.nodes p) reply) ∨
    ((c.heartBeats i)[beat]? = none ∧ call.reply = none ∧ p ≠ i ∧
      (c.nodes i).status = .leader ∧ Built i (c.nodes i) call.args ∧ c'.nodes = c.nodes) := by
  have hmoves := hstep.moves i beat p
  rw [hcall] at hmoves
  generalize hs : c.sender i beat p = s at hmoves
  cases hmoves with
  | kept => exact .inl ⟨call, rfl, rfl, fun _ hr ↦ .inl hr⟩
  | created args hne hstatus hbuilt hbeat hnodes =>
      exact .inr ⟨hbeat, rfl, hne, hstatus, hbuilt, hnodes⟩
  | replied args reply hact hout =>
      refine .inl ⟨.sent args, rfl, rfl, fun reply' hr ↦ .inr ?_⟩
      cases Option.some.inj hr
      exact ⟨hact, rfl, hout⟩
  | returned args reply => exact .inl ⟨.replied args reply, rfl, rfl, fun _ hr ↦ .inl hr⟩

/-- A snapshot was in flight before or is the one of the sender. -/
theorem Step.snap_cases (hstep : Step c a c') {i p : Fin n} {beat : ℕ}
    {call : Call (InstallSnapshotRequest n) InstallSnapshotResponse}
    (hcall : c'.sender i beat p = some (.snapShot (some call))) :
    (∃ call₀, c.sender i beat p = some (.snapShot (some call₀)) ∧ call₀.args = call.args) ∨
    (call.args.term = (c.nodes i).currentTerm ∧
      call.args.lastsnapshotincludeindex = (c.nodes i).lastSnapshotIncludeIndex ∧
      call.args.lastsnapshotincludeterm = (c.nodes i).lastSnapshotIncludeTerm) := by
  have hmoves := hstep.moves i beat p
  rw [hcall] at hmoves
  generalize hs : c.sender i beat p = s at hmoves
  cases hmoves with
  | kept => exact .inl ⟨call, rfl, rfl⟩
  | sentSnapShot args hterm hindex hsnap => exact .inr ⟨hterm, hindex, hsnap⟩
  | repliedSnapShot args reply => exact .inl ⟨.sent args, rfl, rfl⟩
  | droppedSnapShot call => exact .inl ⟨call, rfl, rfl⟩
  | returnedSnapShot args reply => exact .inl ⟨.replied args reply, rfl, rfl⟩

theorem Ordered.step (hord : c.Ordered) (hstep : Step c a c') : c'.Ordered where
  node := fun i ↦ (hstep.evolves hord i).sound
  request := by
    intro i beat p call hcall
    rcases hstep.append_cases hcall with ⟨call₀, hold, hargs, -⟩ | ⟨-, -, -, -, hbuilt, -⟩
    · rw [← hargs]
      exact hord.request i beat p call₀ hold
    · exact hbuilt.consecutive (hord.node i).indexed

end ordered

theorem ordered_init : (init : Cluster n).Ordered where
  node := fun _ ↦ by
    refine ⟨fun k log hk ↦ ?_, le_rfl, le_rfl, le_rfl⟩
    simp [init, Node.fresh] at hk
  request := fun i beat p call hcall ↦ by simp [init, sender] at hcall

section runs

variable [TextArchive (BoostPersistRaftNode n)]

theorem ordered_run (as : List (Action n)) : (run as).Ordered :=
  Runs.invariant_of_step step (P := fun _ c ↦ c.Ordered) ordered_init
    (fun _ a h ↦ h.step (h.step_spec a)) as

theorem run_snoc (as : List (Action n)) (a : Action n) : run (as ++ [a]) = (run as).step a :=
  Runs.run_snoc step init as a

/-- Every action of a run is a step. -/
theorem run_step (as : List (Action n)) (a : Action n) : Step (run as) a (run (as ++ [a])) := by
  rw [run_snoc]
  exact (ordered_run as).step_spec a

/-- A property that every step of every run keeps holds along every run. -/
theorem run_invariant {P : Cluster n → Prop} (hinit : P init)
    (hstep : ∀ c a c', c.Ordered → Step c a c' → P c → P c') (as : List (Action n)) :
    P (run as) :=
  Runs.invariant_of_step step (P := fun _ c ↦ P c) hinit
    (fun as a h ↦ hstep _ a _ (ordered_run as) ((ordered_run as).step_spec a) h) as

end runs

end Cluster

end HttpRaftKv.Raft
