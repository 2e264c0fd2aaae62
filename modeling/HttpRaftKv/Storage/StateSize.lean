import HttpRaftKv.Storage.Registers
import Mathlib.Algebra.Group.Nat.Defs

/-!
# The size of the raft state

The persister keeps the size of the raft state beside its file, and the server decides
by it when to make a snapshot.  The helpers that empty the file set the size to zero.
`SaveRaftState` counts what it writes after that, `Save` does not: after each snapshot the
size is zero, whatever log was saved with it.
-/

namespace HttpRaftKv.Storage

/-- `GetRaftStateSize` of the node, which returns an `int`. -/
def Persister.getRaftStateSize (p : Persister) : ℤ :=
  Int.bmod p.raftStateSize (2 ^ 32)

/-- The condition of `IfNeedToSendSnapShotCommand`.  It divides the limit by ten as a
floating-point number, which is exact enough for the comparison with an integer. -/
def Persister.needsSnapshot (p : Persister) (maxRaftState : ℤ) : Bool :=
  maxRaftState < 10 * p.getRaftStateSize

/-- The raft state that a call saves, if it saves one. -/
def Call.raftState? : Call → Option String
  | .save raftstate _ => some raftstate
  | .saveRaftState data => some data
  | .readRaftState => none
  | .readSnapshot => none

/-- The last call that saves a raft state. -/
def lastSave (calls : List Call) : Option Call :=
  (calls.filter fun call ↦ call.raftState?.isSome).getLast?

/-- The raft state that was saved last. -/
def lastRaftState (calls : List Call) : String :=
  ((lastSave calls).bind Call.raftState?).getD ""

/-- The persister of a new process after these calls. -/
def Persister.after (raftStateFile snapshotFile : String) (calls : List Call) : Persister :=
  Runs.run (fun p call ↦ (p.call call).2) (create raftStateFile snapshotFile) calls

/-- The size that is kept is that of the raft state, and so is the one that the server
compares with its limit. -/
structure Persister.TracksSize (p : Persister) (raftState : String) : Prop where
  size : p.raftStateSize = raftState.utf8ByteSize
  compared : p.getRaftStateSize = raftState.utf8ByteSize
  trigger : ∀ maxRaftState, p.needsSnapshot maxRaftState = true ↔
    maxRaftState < 10 * (raftState.utf8ByteSize : ℤ)

/-- The call counts the raft state that it saves, or there is nothing to count, and an
`int` has room for the size. -/
def Call.KeepsSize : Call → Prop
  | .save raftstate _ => raftstate = ""
  | .saveRaftState data => data.utf8ByteSize < 2 ^ 31
  | .readRaftState => True
  | .readSnapshot => True

/-! ## Calls -/

theorem Call.keepsSize_of_isSome_eq_false {call : Call} (h : call.raftState?.isSome = false) :
    call.KeepsSize := by
  cases call with
  | save raftstate snapshot => cases h
  | saveRaftState data => cases h
  | readRaftState => trivial
  | readSnapshot => trivial

theorem lastSave_snoc (calls : List Call) (call : Call) :
    lastSave (calls ++ [call]) =
      if call.raftState?.isSome then some call else lastSave calls := by
  unfold lastSave
  rw [List.filter_append]
  by_cases hsaves : call.raftState?.isSome = true
  · have hkept : ([call].filter fun call ↦ call.raftState?.isSome) = [call] :=
      List.filter_cons_of_pos hsaves
    rw [hkept, if_pos hsaves]
    exact List.getLast?_concat
  · have hdropped : ([call].filter fun call ↦ call.raftState?.isSome) = [] :=
      List.filter_cons_of_neg hsaves
    rw [hdropped, if_neg hsaves, List.append_nil]

theorem mem_lastSave {calls : List Call} {call : Call} (h : call ∈ lastSave calls) :
    call ∈ calls ∧ call.raftState?.isSome = true :=
  List.mem_filter.mp (List.mem_of_getLast? h)

/-- What the call leaves as the size if it saves a raft state. -/
def Call.size : Call → ℕ
  | .saveRaftState data => data.utf8ByteSize
  | _ => 0

theorem Call.keepsSize_iff {call : Call} {raftState : String}
    (h : call.raftState? = some raftState) :
    call.KeepsSize ↔ call.size = raftState.utf8ByteSize ∧ call.size < 2 ^ 31 := by
  cases call with
  | save raftstate snapshot =>
      cases h
      have hzero : (0 = raftState.utf8ByteSize ∧ 0 < 2 ^ 31) ↔ raftState = "" := by
        rw [and_iff_left (Nat.two_pow_pos 31), eq_comm]
        exact String.utf8ByteSize_eq_zero_iff
      exact hzero.symm
  | saveRaftState data =>
      cases h
      exact (and_iff_right rfl).symm
  | readRaftState => cases h
  | readSnapshot => cases h

namespace Persister

variable {p : Persister} {raftState : String}

theorem raftStateSize_call (p : Persister) (call : Call) :
    (p.call call).2.raftStateSize =
      if call.raftState?.isSome then call.size else p.raftStateSize := by
  cases call with
  | save raftstate snapshot => rfl
  | saveRaftState data => exact Nat.zero_add _
  | readRaftState => rfl
  | readSnapshot => rfl

/-- The size depends on the last save alone. -/
theorem raftStateSize_after (raftStateFile snapshotFile : String) (calls : List Call) :
    (after raftStateFile snapshotFile calls).raftStateSize = (lastSave calls).elim 0 Call.size := by
  refine Runs.invariant_of_step _
    (P := fun calls (p : Persister) ↦ p.raftStateSize = (lastSave calls).elim 0 Call.size) rfl ?_ calls
  intro calls call ih
  rw [raftStateSize_call, lastSave_snoc]
  split_ifs
  · rfl
  · exact ih

/-- An `int` has room for the sizes below half of its values. -/
theorem bmod_eq_self_iff {n m k : ℕ} (hm : m = 2 * k) (hk : 0 < k) :
    Int.bmod n m = n ↔ n < k := by
  rw [Int.bmod_eq_iff (by omega), Int.sub_self]
  constructor
  · rintro ⟨-, hlt, -⟩
    omega
  · intro hlt
    exact ⟨by omega, by omega, Int.dvd_zero _⟩

theorem getRaftStateSize_eq_iff (p : Persister) :
    p.getRaftStateSize = p.raftStateSize ↔ p.raftStateSize < 2 ^ 31 := by
  have hdouble : 2 ^ 32 = 2 * 2 ^ 31 := Nat.pow_succ'
  exact bmod_eq_self_iff hdouble (Nat.two_pow_pos 31)

theorem tracksSize_iff_lt : p.TracksSize raftState ↔
    p.raftStateSize = raftState.utf8ByteSize ∧ p.raftStateSize < 2 ^ 31 := by
  rw [← getRaftStateSize_eq_iff]
  constructor
  · rintro ⟨hsize, hcompared, -⟩
    exact ⟨hsize, hcompared.trans (congrArg Nat.cast hsize.symm)⟩
  · rintro ⟨hsize, hint⟩
    have hcompared : p.getRaftStateSize = raftState.utf8ByteSize :=
      hint.trans (congrArg Nat.cast hsize)
    refine ⟨hsize, hcompared, fun maxRaftState ↦ ?_⟩
    rw [needsSnapshot, hcompared, decide_eq_true_eq]

theorem tracksSize_after_iff (raftStateFile snapshotFile : String) (calls : List Call) :
    (after raftStateFile snapshotFile calls).TracksSize (lastRaftState calls) ↔
      ∀ call ∈ lastSave calls, call.KeepsSize := by
  rw [tracksSize_iff_lt, raftStateSize_after, lastRaftState]
  cases hlast : lastSave calls with
  | none =>
      refine iff_of_true ⟨rfl, Nat.two_pow_pos 31⟩ ?_
      intro call hcall
      cases hcall
  | some call =>
      obtain ⟨raftState, hsaved⟩ := Option.isSome_iff_exists.mp (mem_lastSave hlast).2
      simp only [Option.elim_some, Option.bind_some, hsaved, Option.getD_some, Option.mem_some,
        forall_eq']
      exact (Call.keepsSize_iff hsaved).symm

/-- The size is right after a sequence of calls exactly if the last one that saved the raft
state kept it, and it is right all the time exactly if all of them did. -/
theorem tracksSize_iff (raftStateFile snapshotFile : String) (calls : List Call) :
    ((after raftStateFile snapshotFile calls).TracksSize (lastRaftState calls) ↔
        ∀ call ∈ lastSave calls, call.KeepsSize) ∧
      ((∀ before, before <+: calls →
          (after raftStateFile snapshotFile before).TracksSize (lastRaftState before)) ↔
        ∀ call ∈ calls, call.KeepsSize) := by
  refine ⟨tracksSize_after_iff raftStateFile snapshotFile calls, ?_⟩
  simp only [tracksSize_after_iff]
  constructor
  · intro h call hcall
    by_cases hsaves : call.raftState?.isSome = true
    · obtain ⟨before, rest, rfl⟩ := List.append_of_mem hcall
      have hlast : call ∈ lastSave (before ++ [call]) := by
        rw [lastSave_snoc, if_pos hsaves]
        exact rfl
      refine h (before ++ [call]) ⟨rest, ?_⟩ call hlast
      exact List.append_assoc before [call] rest
    · exact Call.keepsSize_of_isSome_eq_false (Bool.eq_false_iff.mpr hsaves)
  · rintro h before ⟨rest, rfl⟩ call hcall
    exact h call (List.mem_append_left rest (mem_lastSave hcall).1)

/-- A snapshot that is saved with a log leaves a size of zero. -/
theorem not_tracksSize_save :
    ¬ (after "" "" [.saveRaftState "log", .save "log" "snapshot"]).TracksSize
      (lastRaftState [.saveRaftState "log", .save "log" "snapshot"]) := by
  intro h
  have hsize := h.size
  revert hsize
  decide +kernel

end Persister

end HttpRaftKv.Storage
