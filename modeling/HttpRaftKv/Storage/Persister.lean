import Mathlib.Data.Nat.Notation

/-!
# The persister and its two files

Each file is written through one output stream that stays open between calls.
What is written to the stream waits in its buffer until the stream is closed,
and opening the stream truncates the file.  Reading a file with `>>` skips
leading white space and stops at the next one, and sees the file only, never
the buffer.
-/

namespace HttpRaftKv.Storage

/-- A file on disk together with the one `std::ofstream` that writes it. -/
structure OutFile where
  content : String
  isOpen : Bool
  buffer : String
deriving DecidableEq, Repr

namespace OutFile

/-- `open` with the default mode or with `out | trunc`.  Opening a stream that
is open already fails and leaves the file alone. -/
def openTrunc (f : OutFile) : OutFile :=
  if f.isOpen then f else ⟨"", true, ""⟩

/-- Closing writes the buffer out. -/
def close (f : OutFile) : OutFile :=
  if f.isOpen then ⟨f.content ++ f.buffer, false, ""⟩ else f

def write (f : OutFile) (data : String) : OutFile :=
  if f.isOpen then { f with buffer := f.buffer ++ data } else f

/-- What a crash leaves in the file: of the buffer, the first `flushed`
characters have reached it. -/
def left (f : OutFile) (flushed : ℕ) : String :=
  f.content ++ String.ofList (f.buffer.toList.take flushed)

/-- The white space of the C locale. -/
def isSpace (c : Char) : Bool :=
  c == ' ' || c == '\t' || c == '\n' || c == '\r' || c == '\x0b' || c == '\x0c'

/-- `ifs >> s` on a fresh input stream of the file. -/
def readToken (f : OutFile) : String :=
  String.ofList ((f.content.toList.dropWhile isSpace).takeWhile (!isSpace ·))

end OutFile

structure Persister where
  raftStateOutStream : OutFile
  snapshotOutStream : OutFile
  raftStateSize : ℕ
deriving DecidableEq, Repr

namespace Persister

/-- The constructor, on the contents that an earlier process left in the two
files: it opens and closes both for writing, which empties them, and then binds
the streams. -/
def create (raftStateFile snapshotFile : String) : Persister :=
  let raftState := (OutFile.mk raftStateFile false "").openTrunc.close
  let snapshot := (OutFile.mk snapshotFile false "").openTrunc.close
  { raftStateOutStream := raftState.openTrunc
    snapshotOutStream := snapshot.openTrunc
    raftStateSize := 0 }

def clearRaftState (p : Persister) : Persister :=
  { p with raftStateSize := 0, raftStateOutStream := p.raftStateOutStream.close.openTrunc }

def clearSnapshot (p : Persister) : Persister :=
  { p with snapshotOutStream := p.snapshotOutStream.close.openTrunc }

def clearRaftStateAndSnapshot (p : Persister) : Persister :=
  p.clearRaftState.clearSnapshot

def save (p : Persister) (raftstate snapshot : String) : Persister :=
  let p := p.clearRaftStateAndSnapshot
  { p with
    raftStateOutStream := p.raftStateOutStream.write raftstate
    snapshotOutStream := p.snapshotOutStream.write snapshot }

def saveRaftState (p : Persister) (data : String) : Persister :=
  let p := p.clearRaftState
  { p with
    raftStateOutStream := p.raftStateOutStream.write data
    raftStateSize := p.raftStateSize + data.utf8ByteSize }

/-- The stream is closed before the file is read and opened again after it,
which truncates the file. -/
def readSnapshot (p : Persister) : String × Persister :=
  let closed := p.snapshotOutStream.close
  (closed.readToken, { p with snapshotOutStream := closed.openTrunc })

def readRaftState (p : Persister) : String :=
  p.raftStateOutStream.readToken

end Persister

end HttpRaftKv.Storage
