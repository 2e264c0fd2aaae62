import HttpRaftKv.Lib.TextFormat
import HttpRaftKv.Raft.Node

/-!
# The archive of a node

The fields that `persistData` archives, in the order of the source, as a text
format.  The instance is scoped: the results about nodes and clusters hold for
every archive, and only their instances at a concrete run use this one.
-/

namespace HttpRaftKv.Raft.Archive

open TextFormat

def logEntry : TextFormat LogEntry :=
  (text.pair (nat.pair nat)).via (fun log ↦ (log.command, log.logterm, log.logindex))
    (fun (command, logterm, logindex) ↦ some ⟨command, logterm, logindex⟩) fun _ ↦ rfl

variable {n : ℕ}

/-- `m_votedFor`, moved up by one so that the `-1` of the source is a number. -/
def encodeVote : Option (Fin n) → ℕ
  | none => 0
  | some i => i + 1

def decodeVote : ℕ → Option (Option (Fin n))
  | 0 => some none
  | k + 1 => if h : k < n then some (some ⟨k, h⟩) else none

theorem decodeVote_encodeVote (vote : Option (Fin n)) :
    decodeVote (encodeVote vote) = some vote := by
  cases vote with
  | none => rfl
  | some i => simp [encodeVote, decodeVote]

def votedFor : TextFormat (Option (Fin n)) :=
  nat.via encodeVote decodeVote decodeVote_encodeVote

def boostPersistRaftNode : TextFormat (BoostPersistRaftNode n) :=
  (nat.pair (votedFor.pair (nat.pair (nat.pair logEntry.list)))).via
    (fun rf ↦ (rf.currentTerm, rf.votedFor, rf.lastSnapshotIncludeIndex,
      rf.lastSnapshotIncludeTerm, rf.logs))
    (fun (currentTerm, votedFor, index, term, logs) ↦
      some ⟨currentTerm, votedFor, index, term, logs⟩) fun _ ↦ rfl

scoped instance : TextArchive (BoostPersistRaftNode n) :=
  boostPersistRaftNode.archive

scoped instance : LawfulTextArchive (BoostPersistRaftNode n) :=
  boostPersistRaftNode.lawful_archive

end HttpRaftKv.Raft.Archive
