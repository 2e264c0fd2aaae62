import HttpRaftKv.Lib.Segments
import HttpRaftKv.Rpc.Wire

/-!
# Requests on a connection

The channel writes a request as the size of its header, the header and the
arguments.  The provider is called with the bytes that have arrived and takes all
of them for one request.  So it dispatches the requests of a stream exactly if
every call gets the bytes of one request.
-/

namespace HttpRaftKv.Rpc

/-- A request by its service, its method and the bytes of its arguments. -/
structure Call where
  service : Bytes
  method : Bytes
  args : Bytes
deriving DecidableEq, Repr

namespace Call

def header (call : Call) : RpcHeader where
  service_name := call.service
  method_name := call.method
  args_size := .ofNat call.args.length

/-- What `CallMethod` sends. -/
def encode (wire : Wire) (call : Call) : Bytes :=
  let rpc_header_str := wire.header.serialize call.header
  wire.writeVarint32 (rpc_header_str.length % 2 ^ 32) ++ rpc_header_str ++ call.args

end Call

/-- The services with their methods, and whether the arguments of a method are
parsed as its request. -/
structure RpcProvider where
  serviceMap : List (Bytes × List Bytes)
  parses : Bytes → Bytes → Bytes → Bool

/-- `ReadString` of the stream: whether it succeeds, the string and the rest.  The
size is an `int`.  If the stream ends before, the string has what there was. -/
def readString (size : ℕ) (bs : Bytes) : Bool × Bytes × Bytes :=
  if 2 ^ 31 ≤ size then (false, [], bs)
  else if size ≤ bs.length then (true, bs.take size, bs.drop size)
  else (false, bs, [])

namespace RpcProvider

def registered (provider : RpcProvider) (service method : Bytes) : Bool :=
  match provider.serviceMap.lookup service with
  | none => false
  | some methods => methods.contains method

/-- The request that is dispatched, if there is one.  The result of reading the
header is not looked at. -/
def onMessage (wire : Wire) (provider : RpcProvider) (recv_buf : Bytes) : Option Call :=
  let (header_size, rest) := wire.readVarint32 recv_buf
  let (_, rpc_header_str, rest) := readString header_size rest
  match wire.header.parse rpc_header_str with
  | none => none
  | some rpcHeader =>
      let (read_args_success, args_str, _) := readString rpcHeader.args_size.toNat rest
      if !read_args_success then none
      else if !provider.registered rpcHeader.service_name rpcHeader.method_name then none
      else if !provider.parses rpcHeader.service_name rpcHeader.method_name args_str then none
      else some ⟨rpcHeader.service_name, rpcHeader.method_name, args_str⟩

end RpcProvider

/-- A request that can be sent: its service and method are registered, its
arguments are those of a message, and what is serialized has less than two
gigabytes. -/
structure Request (wire : Wire) (provider : RpcProvider) extends Call where
  registered : provider.registered service method = true
  parses : provider.parses service method args = true
  args_length : args.length < 2 ^ 31
  header_length : (wire.header.serialize toCall.header).length < 2 ^ 31

variable {wire : Wire} {provider : RpcProvider}

theorem readString_append {s : Bytes} (h : s.length < 2 ^ 31) (rest : Bytes) :
    readString s.length (s ++ rest) = (true, s, rest) := by
  unfold readString
  rw [if_neg (Nat.not_le.mpr h), if_pos (by simp)]
  simp

theorem onMessage_encode (request : Request wire provider) :
    provider.onMessage wire (request.encode wire) = some request.toCall := by
  have hheader := request.header_length
  have hargs := request.args_length
  have hsize : (wire.header.serialize request.header).length % 2 ^ 32 =
      (wire.header.serialize request.header).length := by
    omega
  have hargsSize : request.header.args_size.toNat = request.args.length := by
    rw [Call.header, UInt32.toNat_ofNat']
    omega
  unfold RpcProvider.onMessage Call.encode
  rw [List.append_assoc, hsize, wire.readVarint32_write _ (by omega)]
  simp only [readString_append hheader, wire.header.parse_serialize _ hheader, hargsSize]
  have hread := readString_append hargs []
  rw [List.append_nil] at hread
  simp [hread, Call.header, request.registered, request.parses]

/-- A string that is read is not longer than its size, and it comes from the
stream. -/
theorem readString_spec {size : ℕ} {bs s rest : Bytes} {read : Bool}
    (h : readString size bs = (read, s, rest)) :
    s.length ≤ size ∧ s.length + rest.length ≤ bs.length ∧ (read = true → s.length = size) ∧
      (2 ^ 31 ≤ size → s = []) := by
  unfold readString at h
  split_ifs at h with hnegative hsize
  · cases h
    simp
  · cases h
    simp only [List.length_take, List.length_drop]
    refine ⟨by omega, by omega, fun _ ↦ by omega, fun hlarge ↦ absurd hlarge hnegative⟩
  · cases h
    simp only [List.length_nil]
    refine ⟨by omega, by omega, fun hread ↦ by simp at hread, fun hlarge ↦ absurd hlarge hnegative⟩

/-- The header of a request that is dispatched and its arguments are in the chunk. -/
theorem onMessage_eq_some {chunk : Bytes} {call : Call}
    (h : provider.onMessage wire chunk = some call) :
    ∃ read rpc_header_str rest rest',
      readString (wire.readVarint32 chunk).1 (wire.readVarint32 chunk).2 =
        (read, rpc_header_str, rest) ∧
      wire.header.parse rpc_header_str = some call.header ∧
      readString call.header.args_size.toNat rest = (true, call.args, rest') := by
  unfold RpcProvider.onMessage at h
  rcases hread : readString (wire.readVarint32 chunk).1 (wire.readVarint32 chunk).2 with
    ⟨read, rpc_header_str, rest⟩
  simp only [hread] at h
  cases hparse : wire.header.parse rpc_header_str with
  | none => simp [hparse] at h
  | some rpcHeader =>
      simp only [hparse] at h
      rcases hargs : readString rpcHeader.args_size.toNat rest with ⟨success, args_str, rest'⟩
      simp only [hargs] at h
      split_ifs at h with hfailed hregistered hparses
      · cases h
        have hsuccess : success = true := by simpa using hfailed
        have hlength := (readString_spec hargs).2.2.1 hsuccess
        have hheader : Call.header ⟨rpcHeader.service_name, rpcHeader.method_name, args_str⟩ =
            rpcHeader := by
          simp [Call.header, hlength]
        refine ⟨read, rpc_header_str, rest, rest', rfl, by rw [hheader, hparse], ?_⟩
        rw [hheader, hargs, hsuccess]

/-- A chunk is not shorter than the request that is found in it. -/
theorem length_encode_le {chunk : Bytes} {call : Call} (hchunk : chunk ≠ [])
    (h : provider.onMessage wire chunk = some call) :
    (call.encode wire).length ≤ chunk.length := by
  obtain ⟨read, rpc_header_str, rest, rest', hread, hparse, hargs⟩ := onMessage_eq_some h
  obtain ⟨hheaderSize, hheaderLength, -, hnegative⟩ := readString_spec hread
  obtain ⟨-, hargsLength, hargsSize, -⟩ := readString_spec hargs
  have hserialize := wire.length_le_of_parse _ _ hparse
  have hmod := Nat.mod_le (wire.header.serialize call.header).length (2 ^ 32)
  simp only [Call.encode, List.length_append]
  by_cases hsize : (wire.readVarint32 chunk).1 < 2 ^ 31
  · have hvarint := wire.length_readVarint32 chunk hsize
    have hwrite := wire.length_writeVarint32_mono _ (wire.readVarint32 chunk).1
      (hmod.trans (hserialize.trans hheaderSize))
    omega
  · -- the size is negative, so the header is the one of no bytes
    obtain rfl := hnegative (not_lt.mp hsize)
    rw [wire.header.parse_nil, Option.some.injEq] at hparse
    have hempty : call.args.length = 0 := by
      rw [hargsSize rfl, ← hparse, wire.default_args_size]
      rfl
    have hzero : (wire.header.serialize call.header).length = 0 := Nat.le_zero.mp hserialize
    have hwrite := wire.length_writeVarint32_zero
    have hpos := List.length_pos_of_ne_nil hchunk
    rw [hzero, Nat.zero_mod, hwrite, hempty]
    omega

/-- Whatever the requests are and however their bytes are cut, the provider
dispatches the requests, each once and in order, exactly if every call of
`OnMessage` gets the bytes of one request. -/
theorem dispatches_iff_one_request_per_message (wire : Wire) (provider : RpcProvider)
    (requests : List (Request wire provider)) (chunks : List Bytes)
    (hchunks : ∀ chunk ∈ chunks, chunk ≠ [])
    (hstream : chunks.flatten = (requests.map fun request ↦ request.encode wire).flatten) :
    chunks.filterMap (provider.onMessage wire) = requests.map Request.toCall ↔
      chunks = requests.map fun request ↦ request.encode wire := by
  have hmap : (requests.map fun request ↦ request.encode wire) =
      (requests.map Request.toCall).map (Call.encode wire) := by
    rw [List.map_map]
    rfl
  rw [hmap] at hstream ⊢
  apply Segments.filterMap_eq_iff _ (fun chunk call ↦ length_encode_le) hchunks hstream
  intro call hcall
  obtain ⟨request, -, rfl⟩ := List.mem_map.mp hcall
  exact onMessage_encode request

/-! ## Two requests for votes -/

/-- The service `raftRpc` with its method `RequestVote`. -/
def voteProvider : RpcProvider where
  serviceMap := [([114, 97, 102, 116, 82, 112, 99],
    [[82, 101, 113, 117, 101, 115, 116, 86, 111, 116, 101]])]
  parses := fun _ _ _ ↦ true

/-- Candidate 2 asks for the vote of term 1. -/
def firstVote : Request Wire.proto3 voteProvider where
  service := [114, 97, 102, 116, 82, 112, 99]
  method := [82, 101, 113, 117, 101, 115, 116, 86, 111, 116, 101]
  args := [8, 1, 16, 2]
  registered := by decide
  parses := by decide
  args_length := by decide
  header_length := by decide

/-- Candidate 2 asks for the vote of term 2. -/
def secondVote : Request Wire.proto3 voteProvider where
  service := [114, 97, 102, 116, 82, 112, 99]
  method := [82, 101, 113, 117, 101, 115, 116, 86, 111, 116, 101]
  args := [8, 2, 16, 2]
  registered := by decide
  parses := by decide
  args_length := by decide
  header_length := by decide

theorem votes_are_dispatched_one_by_one :
    [firstVote.encode Wire.proto3, secondVote.encode Wire.proto3].filterMap
      (voteProvider.onMessage Wire.proto3) = [firstVote.toCall, secondVote.toCall] :=
  (dispatches_iff_one_request_per_message Wire.proto3 voteProvider [firstVote, secondVote]
    [firstVote.encode Wire.proto3, secondVote.encode Wire.proto3] (by decide) rfl).mpr rfl

/-- Both requests arrive before the provider is called, and the second is lost. -/
theorem second_vote_is_lost :
    (∀ chunk ∈ [firstVote.encode Wire.proto3 ++ secondVote.encode Wire.proto3], chunk ≠ []) ∧
      [firstVote.encode Wire.proto3 ++ secondVote.encode Wire.proto3].flatten =
        ([firstVote, secondVote].map fun request ↦ request.encode Wire.proto3).flatten ∧
      [firstVote.encode Wire.proto3 ++ secondVote.encode Wire.proto3].filterMap
        (voteProvider.onMessage Wire.proto3) = [firstVote.toCall] ∧
      [firstVote.toCall] ≠ [firstVote, secondVote].map Request.toCall := by
  refine ⟨by decide, rfl, by decide, by decide⟩

end HttpRaftKv.Rpc
