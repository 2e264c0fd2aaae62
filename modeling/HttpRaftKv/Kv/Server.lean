import HttpRaftKv.Raft.Node
import HttpRaftKv.Storage.SkipList
import Mathlib.Data.List.AList
import Mathlib.Data.String.Basic

/-!
# The key-value server

The data of a server and the parts of its functions that run with the mutex
held, each as one function.  A function that makes an archive throw, or that
follows a pointer of the skip list to nowhere, returns `none`: the process does
not go on from there.  `heads` is what the generator of the skip list draws.
-/

namespace HttpRaftKv.Kv

open Raft

/-- A command.  `operation` is the text that the client sends, of which `"Put"`
and `"Append"` are executed. -/
structure Op where
  operation : String
  key : String
  value : String
  clientId : String
  requestId : ℤ
deriving DecidableEq, Repr

abbrev LastRequestId := AList fun _ : String ↦ ℤ

/-- The fields that `serialize` archives. -/
structure KvSnapshot where
  serializedKVData : String
  lastRequestId : LastRequestId
deriving DecidableEq

structure KvServer where
  serializedKVData : String
  skipList : SkipList String String
  lastRequestId : LastRequestId
  lastSnapShotRaftLogIndex : ℤ

namespace KvServer

/-- A server that finds no snapshot of its own. -/
def create : KvServer where
  serializedKVData := ""
  skipList := .create 6
  lastRequestId := ∅
  lastSnapShotRaftLogIndex := 0

def record (kv : KvServer) (op : Op) : KvServer :=
  { kv with lastRequestId := kv.lastRequestId.insert op.clientId op.requestId }

/-- The common body of `ExecutePutOpOnKVDB` and `ExecuteAppendOpOnKVDB`. -/
def write (kv : KvServer) (op : Op) (heads : ℕ) : Option KvServer := do
  let skipList ← kv.skipList.insertSetElement op.key op.value heads
  return { kv with skipList := skipList }.record op

def executePutOpOnKVDB (kv : KvServer) (op : Op) (heads : ℕ) : Option KvServer :=
  kv.write op heads

/-- An append overwrites the value, as a put does. -/
def executeAppendOpOnKVDB (kv : KvServer) (op : Op) (heads : ℕ) : Option KvServer :=
  kv.write op heads

/-- The value of the key, if it exists.  A get is recorded in the table too. -/
def executeGetOpOnKVDB (kv : KvServer) (op : Op) : Option (Option String × KvServer) := do
  let value ← kv.skipList.searchElement op.key
  return (value, kv.record op)

def ifRequestDuplicate (kv : KvServer) (clientId : String) (requestId : ℤ) : Bool :=
  match kv.lastRequestId.lookup clientId with
  | none => false
  | some last => requestId ≤ last

variable [TextArchive (SkipListDump String String)] [TextArchive KvSnapshot]

def getSnapshotData (kv : KvServer) : Option (String × KvServer) := do
  let data ← kv.skipList.dumpFile
  let kv := { kv with serializedKVData := data }
  let snapshot := TextArchive.save (KvSnapshot.mk kv.serializedKVData kv.lastRequestId)
  return (snapshot, { kv with serializedKVData := "" })

/-- Reading the archive replaces the table of the server, but the dump is loaded
into the skip list that is there. -/
def parseFromString (kv : KvServer) (str : String) (heads : ℕ → ℕ) : Option KvServer := do
  let snapshot : KvSnapshot ← TextArchive.load str
  let kv := { kv with
    serializedKVData := snapshot.serializedKVData
    lastRequestId := snapshot.lastRequestId }
  let skipList ← kv.skipList.loadFile kv.serializedKVData heads
  return { kv with skipList := skipList, serializedKVData := "" }

def makeSnapShot (kv : KvServer) : Option (String × KvServer) :=
  kv.getSnapshotData

def readSnapShotToInstall (kv : KvServer) (snapshot : String) (heads : ℕ → ℕ) :
    Option KvServer :=
  if snapshot = "" then some kv else kv.parseFromString snapshot heads

/-- `CondInstallSnapshot` of the Raft node. -/
def condInstallSnapshot (_lastIncludedTerm _lastIncludedIndex : ℤ) (_snapshot : String) : Bool :=
  true

def getSnapShotFromRaft (kv : KvServer) (message : ApplyMsg) (heads : ℕ → ℕ) :
    Option KvServer :=
  if condInstallSnapshot message.snapshotTerm message.snapshotIndex message.snapshot then do
    let kv ← kv.readSnapShotToInstall message.snapshot heads
    return { kv with lastSnapShotRaftLogIndex := message.snapshotIndex }
  else
    some kv

end KvServer

end HttpRaftKv.Kv
