import HttpRaftKv.Lib.Transducers
import HttpRaftKv.Storage.Persister
import Mathlib.Data.List.TakeWhile

/-!
# The persister as two registers

A persister is meant to remember the raft state and the snapshot that were
saved last.  What is saved stays in the buffer of the stream until the stream is
closed.  `ReadRaftState` never closes the stream, so it sees the empty file;
`ReadSnapshot` does, but it stops at white space and leaves an empty file.
-/

namespace HttpRaftKv.Storage

inductive Call
  | save (raftstate snapshot : String)
  | saveRaftState (data : String)
  | readRaftState
  | readSnapshot
deriving DecidableEq, Repr

/-- What a call returns, if it is a read, and the persister after it. -/
def Persister.call (p : Persister) : Call → Option String × Persister
  | .save raftstate snapshot => (none, p.save raftstate snapshot)
  | .saveRaftState data => (none, p.saveRaftState data)
  | .readRaftState => (some p.readRaftState, p)
  | .readSnapshot => (some p.readSnapshot.1, p.readSnapshot.2)

/-- The two values that were saved last.  No answer depends on `consumed`, which
says whether the snapshot has been read since it was saved. -/
structure Registers where
  raftState : String
  snapshot : String
  consumed : Bool
deriving DecidableEq, Repr

namespace Registers

def init : Registers where
  raftState := ""
  snapshot := ""
  consumed := false

/-- A register: a write replaces the value, a read returns it. -/
def call (t : Registers) : Call → Option String × Registers
  | .save raftstate snapshot => (none, ⟨raftstate, snapshot, false⟩)
  | .saveRaftState data => (none, { t with raftState := data })
  | .readRaftState => (some t.raftState, t)
  | .readSnapshot => (some t.snapshot, { t with consumed := true })

/-- The reads that the persister answers like a register: of a raft state that
is empty, and of a snapshot that is empty, or that has no white space and has
not been read before. -/
def Readable (t : Registers) : Call → Prop
  | .readRaftState => t.raftState = ""
  | .readSnapshot =>
      t.snapshot = "" ∨ (t.consumed = false ∧ ∀ c ∈ t.snapshot.toList, OutFile.isSpace c = false)
  | _ => True

instance (t : Registers) : (call : Call) → Decidable (t.Readable call)
  | .save _ _ => inferInstanceAs (Decidable True)
  | .saveRaftState _ => inferInstanceAs (Decidable True)
  | .readRaftState => inferInstanceAs (Decidable (t.raftState = ""))
  | .readSnapshot => inferInstanceAs (Decidable (t.snapshot = "" ∨
      (t.consumed = false ∧ ∀ c ∈ t.snapshot.toList, OutFile.isSpace c = false)))

end Registers

namespace OutFile

/-- A file that has been emptied, with the data in the buffer of its stream. -/
def holding (data : String) : OutFile :=
  ⟨"", true, data⟩

@[simp] theorem openTrunc_close_holding (data : String) :
    (holding data).close.openTrunc = holding "" := rfl

@[simp] theorem write_holding (data : String) : (holding "").write data = holding data := by
  simp [holding, write]

@[simp] theorem readToken_holding (data : String) : (holding data).readToken = "" := rfl

/-- `>>` gives back a text exactly if there is no white space in it. -/
theorem readToken_close_holding_eq_iff (data : String) :
    (holding data).close.readToken = data ↔ ∀ c ∈ data.toList, isSpace c = false := by
  have hcontent : (holding data).close.content = data := by
    simp [holding, close]
  unfold readToken
  rw [hcontent]
  constructor
  · intro h c hc
    rw [← h, String.toList_ofList] at hc
    simpa using List.mem_takeWhile_imp hc
  · intro h
    have hdrop : data.toList.dropWhile isSpace = data.toList := by
      cases hlist : data.toList with
      | nil => rfl
      | cons c cs => simp [h c (by simp [hlist])]
    have htake : data.toList.takeWhile (!isSpace ·) = data.toList :=
      List.takeWhile_eq_self_iff.mpr fun c hc ↦ by simp [h c hc]
    rw [hdrop, htake, String.ofList_toList]

end OutFile

/-- Both streams are open on empty files, and the buffers hold what was saved
last, unless it has been read. -/
structure Persister.Holds (p : Persister) (t : Registers) : Prop where
  raftState : p.raftStateOutStream = .holding t.raftState
  snapshot : p.snapshotOutStream = .holding (if t.consumed then "" else t.snapshot)

namespace Persister

variable {p : Persister} {t : Registers}

theorem holds_create (raftStateFile snapshotFile : String) :
    (create raftStateFile snapshotFile).Holds .init :=
  ⟨rfl, rfl⟩

theorem Holds.save (h : p.Holds t) (raftstate snapshot : String) :
    (p.save raftstate snapshot).Holds ⟨raftstate, snapshot, false⟩ := by
  refine ⟨?_, ?_⟩
  · simp [Persister.save, clearRaftStateAndSnapshot, clearRaftState, clearSnapshot, h.raftState]
  · simp [Persister.save, clearRaftStateAndSnapshot, clearRaftState, clearSnapshot, h.snapshot]

theorem Holds.saveRaftState (h : p.Holds t) (data : String) :
    (p.saveRaftState data).Holds { t with raftState := data } := by
  refine ⟨?_, h.snapshot⟩
  simp [Persister.saveRaftState, clearRaftState, h.raftState]

theorem Holds.readSnapshot (h : p.Holds t) : p.readSnapshot.2.Holds { t with consumed := true } := by
  refine ⟨h.raftState, ?_⟩
  simp [Persister.readSnapshot, h.snapshot]

theorem Holds.readRaftState_eq_iff (h : p.Holds t) :
    p.readRaftState = t.raftState ↔ t.raftState = "" := by
  rw [readRaftState, h.raftState, OutFile.readToken_holding]
  exact eq_comm

theorem Holds.readSnapshot_eq_iff (h : p.Holds t) :
    p.readSnapshot.1 = t.snapshot ↔ t.Readable .readSnapshot := by
  change p.snapshotOutStream.close.readToken = t.snapshot ↔ _
  rw [h.snapshot, Registers.Readable]
  cases t.consumed with
  | true =>
      have hempty : (OutFile.holding "").close.readToken = "" := rfl
      rw [if_pos rfl, hempty]
      simp only [Bool.true_eq_false, false_and, or_false]
      exact eq_comm
  | false =>
      simp only [Bool.false_eq_true, if_false, true_and, OutFile.readToken_close_holding_eq_iff]
      refine ⟨.inr, fun hread ↦ hread.elim (fun hempty ↦ ?_) id⟩
      simp [hempty]

theorem Holds.call (h : p.Holds t) (call : Call) : (p.call call).2.Holds (t.call call).2 := by
  cases call with
  | save raftstate snapshot => exact h.save raftstate snapshot
  | saveRaftState data => exact h.saveRaftState data
  | readRaftState => exact h
  | readSnapshot => exact h.readSnapshot

theorem Holds.call_eq_iff (h : p.Holds t) (call : Call) :
    (p.call call).1 = (t.call call).1 ↔ t.Readable call := by
  cases call with
  | save raftstate snapshot => exact iff_of_true rfl trivial
  | saveRaftState data => exact iff_of_true rfl trivial
  | readRaftState => exact Option.some_inj.trans h.readRaftState_eq_iff
  | readSnapshot => exact Option.some_inj.trans h.readSnapshot_eq_iff

/-- A persister answers a sequence of calls like two registers exactly if every
read of the sequence is one that it answers so. -/
theorem answers_eq_registers_iff (raftStateFile snapshotFile : String) (calls : List Call) :
    Transducers.answers call (create raftStateFile snapshotFile) calls =
        Transducers.answers Registers.call .init calls ↔
      Runs.Along (fun t call ↦ (Registers.call t call).2) Registers.Readable .init calls :=
  Transducers.answers_eq_iff_along (fun _ _ call h ↦ h.call_eq_iff call)
    (fun _ _ call h _ ↦ h.call call) calls _ _ (holds_create raftStateFile snapshotFile)

/-- A save, a read of the raft state and two reads of the snapshot. -/
def lossyCalls : List Call :=
  [.save "1 2" "3 4", .readRaftState, .readSnapshot, .readSnapshot]

/-- A saved raft state is not read back, a saved snapshot loses what follows its
first space, and the second read of it finds nothing. -/
theorem answers_ne_registers :
    Transducers.answers call (create "" "") lossyCalls = [none, some "", some "3", some ""] ∧
      Transducers.answers call (create "" "") lossyCalls ≠
        Transducers.answers Registers.call .init lossyCalls := by
  refine ⟨?_, ?_⟩
  · decide +kernel
  · decide +kernel

end Persister

end HttpRaftKv.Storage
