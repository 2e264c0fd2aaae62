import HttpRaftKv.Kv.Threads
import HttpRaftKv.Raft.Applied

/-!
# The way from the node to the store

In one process the thread of `applierTicker` takes the commands behind `lastApplied`
with the lock held and pushes them to the apply channel without it.  A snapshot that
`InstallSnapshot` accepts is counted as applied at once, but a thread of its own pushes
it at some later moment.  The loop of the server takes the messages in the order of the
channel.  The index of the state of the server is recorded with every command that is
processed and every snapshot that is installed.
-/

namespace HttpRaftKv.Kv

open Raft

/-- What the server has done with a message. -/
inductive Applied
  | command (index : ℤ)
  | snapshot (index : ℤ)
deriving DecidableEq, Repr

namespace Applied

/-- The index of the state afterwards. -/
def index : Applied → ℤ
  | .command index => index
  | .snapshot index => index

/-- A command is the next one, and a snapshot is ahead of the state. -/
def Forward (state : ℤ) : Applied → Prop
  | .command index => index = state + 1
  | .snapshot index => state < index

instance (state : ℤ) : ∀ applied, Decidable (Forward state applied)
  | .command index => inferInstanceAs (Decidable (index = state + 1))
  | .snapshot index => inferInstanceAs (Decidable (state < index))

/-- From a state on, the index of the state only moves forward. -/
structure MovesForward (state : ℤ) (applied : List Applied) : Prop where
  along : Runs.Along (fun _ a ↦ a.index) Forward state applied

instance (state : ℤ) (applied : List Applied) : Decidable (MovesForward state applied) :=
  decidable_of_iff (Runs.Along (fun _ a ↦ a.index) Forward state applied)
    ⟨fun h ↦ ⟨h⟩, fun h ↦ h.along⟩

end Applied

namespace Server

variable [TextArchive (SkipListDump String String)] [TextArchive KvSnapshot]

/-- What a step of the server does with a message.  A command that the last snapshot
covers is dropped. -/
def applies (s : Server) : Action → Option Applied
  | .check =>
      match s.loop with
      | .received message _ =>
          if message.commandIndex ≤ s.kv.lastSnapShotRaftLogIndex then none
          else some (.command message.commandIndex)
      | _ => none
  | .install heads =>
      match s.loop with
      | .installing message =>
          (s.kv.getSnapShotFromRaft message heads).map fun _ ↦ .snapshot message.snapshotIndex
      | _ => none
  | _ => none

/-- The index and the data of the snapshot that `IfNeedToSendSnapShotCommand` gives to
the node. -/
def snapshots (s : Server) : Action → Option (ℤ × String)
  | .compact true =>
      match s.loop with
      | .compacting message _ => s.kv.makeSnapShot.map fun p ↦ (message.commandIndex, p.1)
      | _ => none
  | _ => none

end Server

/-- A process.  `applyMsgs` is what `applierTicker` has still to push, `detached` are the
messages of the threads that `InstallSnapshot` has started, and `applyChan` has all that
has been pushed, of which the server counts what it has taken.  `base` is the index of
the state at the start. -/
structure Process (n : ℕ) where
  rf : Node n
  applyMsgs : List ApplyMsg
  detached : List ApplyMsg
  applyChan : List ApplyMsg
  server : Server
  exited : Bool
  base : ℤ
  applied : List Applied

inductive ProcessStep (n : ℕ)
  | raft (a : NodeStep n)
  | getApplyLogs
  | push
  | installSnapshot (args : InstallSnapshotRequest n)
  | pushMsgToKvServer (thread : ℕ)
  | kv (a : Action)

/-- The index of the state and of its last snapshot after a message. -/
def advance (state : ℤ × ℤ) (message : ApplyMsg) : ℤ × ℤ :=
  if message.commandValid then
    if message.commandIndex ≤ state.2 then state else (message.commandIndex, state.2)
  else
    (message.snapshotIndex, message.snapshotIndex)

namespace Process

variable {n : ℕ}

/-- A node starts with what its store has applied, and the constructor of the server
has loaded that. -/
def start (rf : Node n) (kv : KvServer) : Process n where
  rf := rf
  applyMsgs := []
  detached := []
  applyChan := []
  server := .boot { kv with lastSnapShotRaftLogIndex := 0 }
  exited := false
  base := rf.lastApplied
  applied := []

/-- The indices that the messages pushed so far lead to. -/
def pushed (p : Process n) : ℤ × ℤ :=
  Runs.run advance (p.base, 0) p.applyChan

/-- A message goes to the channel when it fits behind the messages that are there: a
snapshot is ahead of them, and a command is not pushed before a snapshot that lies
between them and the command. -/
def PushesInOrder (p : Process n) : ProcessStep n → Prop
  | .push =>
      ∀ message ∈ p.applyMsgs.head?, ∀ snapshot ∈ p.detached,
        snapshot.snapshotIndex < message.commandIndex → snapshot.snapshotIndex ≤ p.pushed.1
  | .pushMsgToKvServer thread =>
      ∀ message ∈ p.detached[thread]?, p.pushed.1 < message.snapshotIndex
  | _ => True

instance (p : Process n) : ∀ a, Decidable (p.PushesInOrder a)
  | .push => inferInstanceAs (Decidable (∀ message ∈ p.applyMsgs.head?, _))
  | .pushMsgToKvServer _ => inferInstanceAs (Decidable (∀ message ∈ p.detached[_]?, _))
  | .raft _ | .getApplyLogs | .installSnapshot _ | .kv _ => inferInstanceAs (Decidable True)

section steps

variable [TextArchive (BoostPersistRaftNode n)] [TextArchive Op]
  [TextArchive (SkipListDump String String)] [TextArchive KvSnapshot]

/-- The node after a step of the server. -/
def compacted (p : Process n) (a : Action) : Checked Failure (Node n) :=
  match p.server.snapshots a with
  | some (index, data) => p.rf.snapshot index.toNat data
  | none => .ok p.rf

def next (me : Fin n) (p : Process n) : ProcessStep n → Checked Failure (Process n)
  | .raft a => do
      let rf ← p.rf.next me a
      return { p with rf := rf }
  | .getApplyLogs =>
      if p.applyMsgs = [] then do
        let (rf, applyMsgs) ← p.rf.getApplyLogs
        return { p with rf := rf, applyMsgs := applyMsgs }
      else
        return p
  | .push =>
      match p.applyMsgs with
      | [] => .ok p
      | message :: applyMsgs =>
          .ok { p with applyMsgs := applyMsgs, applyChan := p.applyChan ++ [message] }
  | .installSnapshot args => do
      let (rf, _, msg) ← p.rf.installSnapshot args
      return { p with rf := rf, detached := p.detached ++ msg.toList }
  | .pushMsgToKvServer thread =>
      match p.detached[thread]? with
      | none => .ok p
      | some message =>
          .ok { p with
            detached := p.detached.eraseIdx thread
            applyChan := p.applyChan ++ [message] }
  | .kv a => do
      let rf ← p.compacted a
      return { p with
        rf := rf
        server := p.server.step p.applyChan a
        applied := p.applied ++ (p.server.applies a).toList }

/-- A failed assertion and an exception end the process. -/
def step (me : Fin n) (p : Process n) (a : ProcessStep n) : Process n :=
  if p.exited || p.server.terminated then p
  else
    match p.next me a with
    | .ok p => p
    | .error _ => { p with exited := true }

def run (me : Fin n) (rf : Node n) (kv : KvServer) (as : List (ProcessStep n)) : Process n :=
  Runs.run (step me) (start rf kv) as

end steps

end Process

/-! ## What is pushed -/

def IsCommand (message : ApplyMsg) : Prop :=
  message.commandValid = true ∧ message.snapshotValid = false

def IsSnapshot (message : ApplyMsg) : Prop :=
  message.commandValid = false ∧ message.snapshotValid = true

/-- A message moves the state forward, or it is a command that is dropped. -/
def Fits (state : ℤ × ℤ) (message : ApplyMsg) : Prop :=
  if message.commandValid then
    message.commandIndex ≤ state.2 ∨ message.commandIndex = state.1 + 1
  else
    state.1 < message.snapshotIndex

/-- The threads of a node that has applied up to an index, where the messages pushed so
far lead to `state`.  The applier has still to push the commands from `first` on.  The
index before each of these commands, and the last applied one, is reached by the messages
that are pushed, or there is a message that leads to it and has still to be pushed. -/
structure Pending (lastApplied first : ℕ) (applyMsgs detached : List ApplyMsg)
    (state : ℤ × ℤ) : Prop where
  snapshot_le : state.2 ≤ state.1
  state_le : state.1 ≤ lastApplied
  commands : ∀ message ∈ applyMsgs, IsCommand message
  numbered : applyMsgs.map ApplyMsg.commandIndex =
    (List.range' first applyMsgs.length).map Nat.cast
  first_add_le : first + applyMsgs.length ≤ lastApplied + 1
  covered : ∀ index : ℕ, first ≤ index → index < first + applyMsgs.length →
    (index : ℤ) ≤ state.1 → (index : ℤ) ≤ state.2
  reached : 0 < applyMsgs.length → (first : ℤ) - 1 ≤ state.1 ∨
    ∃ snapshot ∈ detached, snapshot.snapshotIndex = (first : ℤ) - 1
  complete : (lastApplied : ℤ) ≤ state.1 ∨
    (∃ snapshot ∈ detached, snapshot.snapshotIndex = (lastApplied : ℤ)) ∨
    0 < applyMsgs.length ∧ first + applyMsgs.length = lastApplied + 1
  detached : ∀ snapshot ∈ detached,
    IsSnapshot snapshot ∧ snapshot.snapshotIndex ≤ lastApplied

namespace Pending

variable {lastApplied first : ℕ} {applyMsgs detached : List ApplyMsg} {state : ℤ × ℤ}
  {message : ApplyMsg}

theorem start (lastApplied : ℕ) :
    Pending lastApplied (lastApplied + 1) [] [] ((lastApplied : ℤ), 0) where
  snapshot_le := by simp
  state_le := le_rfl
  commands := by simp
  numbered := rfl
  first_add_le := by simp
  covered := by
    intro index hle hlt
    simp only [List.length_nil] at hlt
    omega
  reached := by simp
  complete := .inl le_rfl
  detached := by simp

theorem commandIndex_eq
    (h : Pending lastApplied first (message :: applyMsgs) detached state) :
    message.commandIndex = first ∧
      applyMsgs.map ApplyMsg.commandIndex =
        (List.range' (first + 1) applyMsgs.length).map Nat.cast := by
  have hnumbered := h.numbered
  rwa [List.map_cons, List.length_cons, List.range'_succ, List.map_cons, List.cons_eq_cons]
    at hnumbered

/-- Either the last snapshot covers the first command, or it is the next one. -/
theorem covered_or_next (h : Pending lastApplied first (message :: applyMsgs) detached state)
    (hok : ∀ snapshot ∈ detached, snapshot.snapshotIndex < message.commandIndex →
      snapshot.snapshotIndex ≤ state.1) :
    (first : ℤ) ≤ state.2 ∧ advance state message = state ∨
      (first : ℤ) = state.1 + 1 ∧ advance state message = ((first : ℤ), state.2) := by
  have hvalid := (h.commands message List.mem_cons_self).1
  have hindex := h.commandIndex_eq.1
  have hsnapshot := h.snapshot_le
  have hreached : (first : ℤ) - 1 ≤ state.1 := by
    rcases h.reached (Nat.succ_pos _) with hle | ⟨snapshot, hmem, heq⟩
    · exact hle
    · rw [← heq]
      apply hok snapshot hmem
      omega
  rw [advance, if_pos hvalid, hindex]
  by_cases hle : (first : ℤ) ≤ state.1
  · have hcovered := h.covered first le_rfl (Nat.lt_add_of_pos_right (Nat.succ_pos _)) hle
    exact .inl ⟨hcovered, if_pos hcovered⟩
  · exact .inr ⟨by omega, if_neg (by omega)⟩

/-- The first of the commands goes to the channel. -/
theorem push (h : Pending lastApplied first (message :: applyMsgs) detached state)
    (hok : ∀ snapshot ∈ detached, snapshot.snapshotIndex < message.commandIndex →
      snapshot.snapshotIndex ≤ state.1) :
    Fits state message ∧
      Pending lastApplied (first + 1) applyMsgs detached (advance state message) := by
  have hvalid := (h.commands message List.mem_cons_self).1
  obtain ⟨hindex, hrest⟩ := h.commandIndex_eq
  have hcommands : ∀ other ∈ applyMsgs, IsCommand other := fun other hmem ↦
    h.commands other (List.mem_cons_of_mem _ hmem)
  have hcases := h.covered_or_next hok
  obtain ⟨hsnapshot, hstate, -, -, hadd, hcovered, -, hcomplete, hdetached⟩ := h
  rw [List.length_cons] at hadd hcovered hcomplete
  rw [Fits, if_pos hvalid, hindex]
  rcases hcases with ⟨hle, heq⟩ | ⟨hnext, heq⟩
  · rw [heq]
    refine ⟨.inl hle, hsnapshot, hstate, hcommands, hrest, by omega, ?_, ?_, ?_, hdetached⟩
    · intro index hfirst hlast
      exact hcovered index (by omega) (by omega)
    · intro _
      left
      omega
    · rcases hcomplete with hall | hthread | ⟨-, hlast⟩
      · exact .inl hall
      · exact .inr (.inl hthread)
      · by_cases hmore : 0 < applyMsgs.length
        · exact .inr (.inr ⟨hmore, by omega⟩)
        · exact .inl (by omega)
  · rw [heq]
    refine ⟨.inr hnext, by simp only; omega, by simp only; omega, hcommands, hrest, by omega,
      ?_, ?_, ?_, hdetached⟩
    · intro index hfirst _ hindexle
      simp only at hindexle
      omega
    · intro _
      left
      simp
    · rcases hcomplete with hall | hthread | ⟨-, hlast⟩
      · exact .inl (by simp only; omega)
      · exact .inr (.inl hthread)
      · by_cases hmore : 0 < applyMsgs.length
        · exact .inr (.inr ⟨hmore, by omega⟩)
        · exact .inl (by simp only; omega)

/-- A snapshot that is ahead of the messages in the channel goes there. -/
theorem pushSnapshot (h : Pending lastApplied first applyMsgs detached state) {thread : ℕ}
    (hthread : detached[thread]? = some message) (hok : state.1 < message.snapshotIndex) :
    Fits state message ∧
      Pending lastApplied first applyMsgs (detached.eraseIdx thread) (advance state message) := by
  have hmem : message ∈ detached := List.mem_of_getElem? hthread
  obtain ⟨⟨hinvalid, -⟩, hle⟩ := h.detached message hmem
  have hcommand : ¬ message.commandValid = true := by simp [hinvalid]
  -- what the thread leads to is reached now
  have hother : ∀ index : ℤ, (∃ snapshot ∈ detached, snapshot.snapshotIndex = index) →
      index ≤ message.snapshotIndex ∨
        ∃ snapshot ∈ detached.eraseIdx thread, snapshot.snapshotIndex = index := by
    rintro index ⟨snapshot, hsnapshot, rfl⟩
    by_cases hsame : snapshot = message
    · exact .inl (by rw [hsame])
    · right
      refine ⟨snapshot, ?_, rfl⟩
      obtain ⟨k, hk⟩ := List.mem_iff_getElem?.mp hsnapshot
      have hne : k ≠ thread := by
        rintro rfl
        rw [hthread, Option.some.injEq] at hk
        exact hsame hk.symm
      exact List.mem_eraseIdx_iff_getElem?.mpr ⟨k, hne, hk⟩
  rw [Fits, if_neg hcommand, advance, if_neg hcommand]
  refine ⟨hok, le_rfl, hle, h.commands, h.numbered, h.first_add_le, fun _ _ _ hindex ↦ hindex,
    ?_, ?_, fun snapshot hsnapshot ↦ h.detached snapshot (List.mem_of_mem_eraseIdx hsnapshot)⟩
  · intro hmore
    rcases h.reached hmore with hreached | hreached
    · exact .inl (hreached.trans hok.le)
    · exact hother _ hreached
  · rcases h.complete with hall | hall | hlast
    · exact .inl (hall.trans hok.le)
    · rcases hother _ hall with hall | hall
      · exact .inl hall
      · exact .inr (.inl hall)
    · exact .inr (.inr hlast)

theorem of_forall₂ {indices : List ℕ}
    (h : List.Forall₂ (fun (index : ℕ) msg ↦ ∃ command, msg =
        ({ commandValid := true, command := command, commandIndex := index } : ApplyMsg))
      indices applyMsgs) :
    (∀ message ∈ applyMsgs, IsCommand message) ∧
      applyMsgs.map ApplyMsg.commandIndex = indices.map Nat.cast := by
  induction h with
  | nil => simp
  | cons hhead htail ih =>
      obtain ⟨command, rfl⟩ := hhead
      refine ⟨?_, by rw [List.map_cons, List.map_cons, ih.2]⟩
      intro message hmem
      rcases List.mem_cons.mp hmem with rfl | hmem
      · exact ⟨rfl, rfl⟩
      · exact ih.1 message hmem

/-- The applier, which has pushed its commands, takes those that have been committed. -/
theorem getApplyLogs (h : Pending lastApplied first [] detached state) {commitIndex : ℕ}
    (hmsgs : List.Forall₂ (fun (index : ℕ) msg ↦ ∃ command, msg =
        ({ commandValid := true, command := command, commandIndex := index } : ApplyMsg))
      (List.range' (lastApplied + 1) (commitIndex - lastApplied)) applyMsgs) :
    Pending (max lastApplied commitIndex) (lastApplied + 1) applyMsgs detached state := by
  have hlength : commitIndex - lastApplied = applyMsgs.length := by
    simpa using hmsgs.length_eq
  have hstate := h.state_le
  obtain ⟨hcommands, hnumbered⟩ := of_forall₂ hmsgs
  rw [hlength] at hnumbered
  have hle : state.1 ≤ ((max lastApplied commitIndex : ℕ) : ℤ) := by omega
  have hadd : lastApplied + 1 + applyMsgs.length ≤ max lastApplied commitIndex + 1 := by omega
  have hpred : ((lastApplied + 1 : ℕ) : ℤ) - 1 = lastApplied := by omega
  have hreached : (lastApplied : ℤ) ≤ state.1 ∨
      ∃ snapshot ∈ detached, snapshot.snapshotIndex = (lastApplied : ℤ) := by
    rcases h.complete with hall | hall | ⟨hmore, -⟩
    · exact .inl hall
    · exact .inr hall
    · simp at hmore
  refine ⟨h.snapshot_le, hle, hcommands, hnumbered, hadd, ?_, ?_, ?_, ?_⟩
  · clear hreached
    intro index hfirst _ hindex
    omega
  · intro _
    rw [hpred]
    exact hreached
  · rcases le_or_gt commitIndex lastApplied with hnone | hsome
    · rw [max_eq_left hnone]
      exact hreached.imp_right .inl
    · clear hreached
      exact .inr (.inr ⟨by omega, by omega⟩)
  · intro snapshot hsnapshot
    obtain ⟨hkind, hle⟩ := h.detached snapshot hsnapshot
    exact ⟨hkind, by omega⟩

/-- A snapshot is counted as applied, and a thread has it. -/
theorem install (h : Pending lastApplied first applyMsgs detached state)
    (hkind : IsSnapshot message) {index : ℕ} (hindex : message.snapshotIndex = index) :
    Pending (max lastApplied index) first applyMsgs (detached ++ [message]) state := by
  obtain ⟨hsnapshot, hstate, hcommands, hnumbered, hadd, hcovered, hreached, hcomplete,
    hdetached⟩ := h
  refine ⟨hsnapshot, by omega, hcommands, hnumbered, by omega, hcovered, ?_, ?_, ?_⟩
  · intro hmore
    refine (hreached hmore).imp_right ?_
    rintro ⟨snapshot, hmem, heq⟩
    exact ⟨snapshot, List.mem_append_left _ hmem, heq⟩
  · rcases le_total lastApplied index with hle | hle
    · rw [max_eq_right hle]
      exact .inr (.inl ⟨message, by simp, hindex⟩)
    · rw [max_eq_left hle]
      rcases hcomplete with hall | ⟨snapshot, hmem, heq⟩ | hlast
      · exact .inl hall
      · exact .inr (.inl ⟨snapshot, List.mem_append_left _ hmem, heq⟩)
      · exact .inr (.inr hlast)
  · intro snapshot hmem
    rcases List.mem_append.mp hmem with hmem | hmem
    · obtain ⟨hother, hle⟩ := hdetached snapshot hmem
      exact ⟨hother, by omega⟩
    · obtain rfl := List.mem_singleton.mp hmem
      exact ⟨hkind, by omega⟩

end Pending

end HttpRaftKv.Kv
