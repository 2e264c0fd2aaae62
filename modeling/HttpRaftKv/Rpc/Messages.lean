import HttpRaftKv.Lib.MessageType
import HttpRaftKv.Rpc.Framing
import HttpRaftKv.Rpc.MprpcChannel

/-!
# The messages of the two services

Nodes and clients call the methods of two services.  The code for their messages is
generated; each message has its fields in a row.  A message is read back as it was written,
also behind other fields, and a call brings its arguments to the method and the response
back to the caller.
-/

namespace HttpRaftKv.Rpc

open FieldCodec

namespace Messages

/-! ## `raftRPC.proto` -/

structure LogEntry where
  Command : Bytes
  LogTerm : Int32
  LogIndex : Int32
deriving DecidableEq

structure AppendEntriesArgs where
  Term : Int32
  LeaderId : Int32
  PrevLogIndex : Int32
  PrevLogTerm : Int32
  Entries : List LogEntry
  LeaderCommit : Int32
deriving DecidableEq

structure AppendEntriesReply where
  Term : Int32
  Success : Bool
  UpdateNextIndex : Int32
  AppState : Int32
deriving DecidableEq

structure RequestVoteArgs where
  Term : Int32
  CandidateId : Int32
  LastLogIndex : Int32
  LastLogTerm : Int32
deriving DecidableEq

structure RequestVoteReply where
  Term : Int32
  VoteGranted : Bool
  VoteState : Int32
deriving DecidableEq

structure InstallSnapshotRequest where
  LeaderId : Int32
  Term : Int32
  LastSnapShotIncludeIndex : Int32
  LastSnapShotIncludeTerm : Int32
  Data : Bytes
deriving DecidableEq

structure InstallSnapshotResponse where
  Term : Int32
deriving DecidableEq

/-! ## `kvServerRPC.proto` -/

structure GetArgs where
  Key : Bytes
  ClientId : Bytes
  RequestId : Int32
deriving DecidableEq

structure GetReply where
  Err : Bytes
  Value : Bytes
deriving DecidableEq

structure PutAppendArgs where
  Key : Bytes
  Value : Bytes
  Op : Bytes
  ClientId : Bytes
  RequestId : Int32
deriving DecidableEq

structure PutAppendReply where
  Err : Bytes
deriving DecidableEq

/-! ## Their fields -/

def int32 : AnyType := ⟨Int32, FieldType.int32.type⟩
def bool : AnyType := ⟨Bool, FieldType.bool.type⟩
def bytes : AnyType := ⟨Bytes, FieldType.bytes.type⟩

def LogEntry.type : MessageType LogEntry where
  types := [bytes, int32, int32]
  length_types := by decide
  toRow m := (m.Command, m.LogTerm, m.LogIndex, ())
  ofRow row := ⟨row.1, row.2.1, row.2.2.1⟩
  ofRow_toRow _ := rfl
  toRow_ofRow _ := rfl

def AppendEntriesArgs.type (groups : GroupReader) : MessageType AppendEntriesArgs where
  types := [int32, int32, int32, int32, ⟨_, .repeated groups LogEntry.type⟩, int32]
  length_types := (by decide : 6 < 2 ^ 28)
  toRow m := (m.Term, m.LeaderId, m.PrevLogIndex, m.PrevLogTerm, m.Entries, m.LeaderCommit, ())
  ofRow row :=
    ⟨row.1, row.2.1, row.2.2.1, row.2.2.2.1, row.2.2.2.2.1, row.2.2.2.2.2.1⟩
  ofRow_toRow _ := rfl
  toRow_ofRow _ := rfl

def AppendEntriesReply.type : MessageType AppendEntriesReply where
  types := [int32, bool, int32, int32]
  length_types := by decide
  toRow m := (m.Term, m.Success, m.UpdateNextIndex, m.AppState, ())
  ofRow row := ⟨row.1, row.2.1, row.2.2.1, row.2.2.2.1⟩
  ofRow_toRow _ := rfl
  toRow_ofRow _ := rfl

def RequestVoteArgs.type : MessageType RequestVoteArgs where
  types := [int32, int32, int32, int32]
  length_types := by decide
  toRow m := (m.Term, m.CandidateId, m.LastLogIndex, m.LastLogTerm, ())
  ofRow row := ⟨row.1, row.2.1, row.2.2.1, row.2.2.2.1⟩
  ofRow_toRow _ := rfl
  toRow_ofRow _ := rfl

def RequestVoteReply.type : MessageType RequestVoteReply where
  types := [int32, bool, int32]
  length_types := by decide
  toRow m := (m.Term, m.VoteGranted, m.VoteState, ())
  ofRow row := ⟨row.1, row.2.1, row.2.2.1⟩
  ofRow_toRow _ := rfl
  toRow_ofRow _ := rfl

def InstallSnapshotRequest.type : MessageType InstallSnapshotRequest where
  types := [int32, int32, int32, int32, bytes]
  length_types := by decide
  toRow m :=
    (m.LeaderId, m.Term, m.LastSnapShotIncludeIndex, m.LastSnapShotIncludeTerm, m.Data, ())
  ofRow row := ⟨row.1, row.2.1, row.2.2.1, row.2.2.2.1, row.2.2.2.2.1⟩
  ofRow_toRow _ := rfl
  toRow_ofRow _ := rfl

def InstallSnapshotResponse.type : MessageType InstallSnapshotResponse where
  types := [int32]
  length_types := by decide
  toRow m := (m.Term, ())
  ofRow row := ⟨row.1⟩
  ofRow_toRow _ := rfl
  toRow_ofRow _ := rfl

def GetArgs.type : MessageType GetArgs where
  types := [bytes, bytes, int32]
  length_types := by decide
  toRow m := (m.Key, m.ClientId, m.RequestId, ())
  ofRow row := ⟨row.1, row.2.1, row.2.2.1⟩
  ofRow_toRow _ := rfl
  toRow_ofRow _ := rfl

def GetReply.type : MessageType GetReply where
  types := [bytes, bytes]
  length_types := by decide
  toRow m := (m.Err, m.Value, ())
  ofRow row := ⟨row.1, row.2.1⟩
  ofRow_toRow _ := rfl
  toRow_ofRow _ := rfl

def PutAppendArgs.type : MessageType PutAppendArgs where
  types := [bytes, bytes, bytes, bytes, int32]
  length_types := by decide
  toRow m := (m.Key, m.Value, m.Op, m.ClientId, m.RequestId, ())
  ofRow row := ⟨row.1, row.2.1, row.2.2.1, row.2.2.2.1, row.2.2.2.2.1⟩
  ofRow_toRow _ := rfl
  toRow_ofRow _ := rfl

def PutAppendReply.type : MessageType PutAppendReply where
  types := [bytes]
  length_types := by decide
  toRow m := (m.Err, ())
  ofRow row := ⟨row.1⟩
  ofRow_toRow _ := rfl
  toRow_ofRow _ := rfl

end Messages

open Messages

/-! ## The methods -/

/-- The methods of `kvServerRpc` and `raftRpc`. -/
inductive Method
  | putAppend
  | get
  | appendEntries
  | installSnapshot
  | requestVote
deriving DecidableEq, Repr

namespace Method

def all : List Method :=
  [putAppend, get, appendEntries, installSnapshot, requestVote]

def ofName (text : String) : Bytes :=
  text.toList.map fun c ↦ UInt8.ofNat c.toNat

/-- The name of the service, and the name of the method. -/
def names : Method → Bytes × Bytes
  | putAppend => (ofName "kvServerRpc", ofName "PutAppend")
  | get => (ofName "kvServerRpc", ofName "Get")
  | appendEntries => (ofName "raftRpc", ofName "AppendEntries")
  | installSnapshot => (ofName "raftRpc", ofName "InstallSnapshot")
  | requestVote => (ofName "raftRpc", ofName "RequestVote")

def Args : Method → Type
  | putAppend => PutAppendArgs
  | get => GetArgs
  | appendEntries => AppendEntriesArgs
  | installSnapshot => InstallSnapshotRequest
  | requestVote => RequestVoteArgs

def Response : Method → Type
  | putAppend => PutAppendReply
  | get => Messages.GetReply
  | appendEntries => AppendEntriesReply
  | installSnapshot => Messages.InstallSnapshotResponse
  | requestVote => RequestVoteReply

def argsType (groups : GroupReader) : ∀ method : Method, MessageType method.Args
  | putAppend => PutAppendArgs.type
  | get => GetArgs.type
  | appendEntries => AppendEntriesArgs.type groups
  | installSnapshot => InstallSnapshotRequest.type
  | requestVote => RequestVoteArgs.type

def responseType : ∀ method : Method, MessageType method.Response
  | putAppend => PutAppendReply.type
  | get => GetReply.type
  | appendEntries => AppendEntriesReply.type
  | installSnapshot => Messages.InstallSnapshotResponse.type
  | requestVote => RequestVoteReply.type

/-- The method with the names. -/
def find (service name : Bytes) : Option Method :=
  all.find? fun method ↦ method.names = (service, name)

end Method

/-! ## What is written and read -/

/-- The messages of the two services: the entries, the arguments and the responses. -/
inductive MessageKind
  | logEntry
  | args (method : Method)
  | response (method : Method)
deriving DecidableEq, Repr

namespace MessageKind

def Message : MessageKind → Type
  | logEntry => LogEntry
  | args method => method.Args
  | response method => method.Response

def type (groups : GroupReader) : ∀ kind : MessageKind, MessageType kind.Message
  | logEntry => LogEntry.type
  | args method => method.argsType groups
  | response method => method.responseType

end MessageKind

/-- Whatever the values of a message are, it is read back from what is written for it; with
another message behind it the two are merged, any field behind it that it does not have is
skipped, and no other part of its bytes is read as this message. -/
theorem messages_survive_the_wire (groups : GroupReader) (kind : MessageKind)
    {a b : kind.Message} (ha : ((kind.type groups).serialize a).length < 2 ^ 31)
    (hb : ((kind.type groups).serialize b).length < 2 ^ 31) :
    (kind.type groups).parse groups ((kind.type groups).serialize a) = some a ∧
      (kind.type groups).parse groups
          ((kind.type groups).serialize a ++ (kind.type groups).serialize b) =
        some ((kind.type groups).merge a b) ∧
      (∀ bs field, readField groups bs = some (field, []) →
        (∀ known ∈ field, (kind.type groups).types.length < known.1) →
          (kind.type groups).parse groups ((kind.type groups).serialize a ++ bs) = some a) ∧
      ∀ bs, bs <+: (kind.type groups).serialize a → (kind.type groups).parse groups bs = some a →
        bs = (kind.type groups).serialize a := by
  have hnil : ∀ m, (kind.type groups).parseOnto groups m [] = some m := fun _ ↦ rfl
  refine ⟨(kind.type groups).parse_serialize groups ha, ?_, fun bs field hread hunknown ↦ ?_,
    fun bs ↦ (kind.type groups).eq_of_parse_part groups ha⟩
  · have hmerge := (kind.type groups).parseOnto_serialize groups a hb []
    rw [List.append_nil, hnil] at hmerge
    rw [MessageType.parse, MessageType.parseOnto_serialize _ groups _ ha,
      MessageType.merge_default, hmerge]
  · rw [MessageType.parse, MessageType.parseOnto_serialize _ groups _ ha,
      MessageType.merge_default, MessageType.parseOnto_unknown _ a hread hunknown, hnil]

/-- A reader that takes no groups. -/
def noGroups : GroupReader where
  skip _ _ := none
  length_le h := by cases h
  stable h := by cases h

/-- A number of the message with four bytes that no field has. -/
example : readField noGroups [13, 1, 2, 3, 4] = some (none, []) := by
  decide

/-- Of two heartbeats behind each other the entries are joined, and the later term counts. -/
theorem messages_survive_the_wire_in_heartbeats :
    ((MessageKind.args .appendEntries).type noGroups).parse noGroups
        (((MessageKind.args .appendEntries).type noGroups).serialize
            (⟨1, 0, 0, 0, [⟨[120], 1, 1⟩], 0⟩ : AppendEntriesArgs) ++
          ((MessageKind.args .appendEntries).type noGroups).serialize
            (⟨2, 0, 1, -1, [⟨[121], 2, 2⟩], 1⟩ : AppendEntriesArgs)) =
      some (⟨2, 0, 1, -1, [⟨[120], 1, 1⟩, ⟨[121], 2, 2⟩], 1⟩ : AppendEntriesArgs) :=
  (messages_survive_the_wire noGroups (.args .appendEntries)
    (a := (⟨1, 0, 0, 0, [⟨[120], 1, 1⟩], 0⟩ : AppendEntriesArgs))
    (b := (⟨2, 0, 1, -1, [⟨[121], 2, 2⟩], 1⟩ : AppendEntriesArgs))
    (by decide) (by decide)).2.1

/-! ## A call -/

/-- The method that is called, and its arguments. -/
def dispatch (groups : GroupReader) (call : Call) : Option (Σ method : Method, method.Args) :=
  match Method.find call.service call.method with
  | some method => ((method.argsType groups).parse groups call.args).map (⟨method, ·⟩)
  | none => none

end HttpRaftKv.Rpc
