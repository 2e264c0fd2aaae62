import HttpRaftKv.Lib.Transducers
import HttpRaftKv.Rpc.Wire

/-!
# Responses on a connection

The provider writes a response without its size.  The channel reads once, at most
1024 bytes, and takes what it got for the response; a connection whose bytes could
not be parsed is kept.  Calls that follow each other are answered as they should be
exactly if each of them gets its response whole in that one read.
-/

namespace HttpRaftKv.Rpc

open Transducers

/-- The places of `CallMethod` that report a failure. -/
inductive CallError
  | connect
  | serialize
  | send
  | recv
  | parse
deriving DecidableEq, Repr

inductive Outcome (α : Type)
  | returned (response : α)
  | failed (error : CallError)
  /-- The call has not returned: `recv` waits for bytes that nobody sends. -/
  | blocked
deriving DecidableEq, Repr

/-- What the provider has sent and the channel has not read. -/
structure Connection where
  pending : Bytes
  closed : Bool
deriving DecidableEq, Repr

/-- Nothing is sent if the response can not be serialized. -/
def sendRpcResponse {α : Type} (codec : MessageCodec α) (response : α) : Bytes :=
  if (codec.serialize response).length < 2 ^ 31 then codec.serialize response else []

namespace Connection

def new : Connection := ⟨[], false⟩

/-- The provider handles a request; without a response it closes the connection. -/
def answer {α : Type} (connection : Connection) (codec : MessageCodec α) (response : Option α) :
    Connection :=
  if connection.closed then connection
  else
    match response with
    | none => { connection with closed := true }
    | some response =>
        { connection with pending := connection.pending ++ sendRpcResponse codec response }

/-- The one `recv` of a call, if it returns.  It waits for a byte, and it gives the
bytes that have arrived, which are some of those sent, as far as the buffer can hold
them.  A connection that is closed gives none. -/
def recv (connection : Connection) (arrived : ℕ) : Option (Bytes × Connection) :=
  if connection.pending = [] then
    if connection.closed then some ([], connection) else none
  else
    let recv_size := min 1024 (arrived + 1)
    some (connection.pending.take recv_size,
      { connection with pending := connection.pending.drop recv_size })

end Connection

variable {ι : Type} {M : ι → Type}

/-- A call of a method with what happens in it: which of its system calls succeed, the
response of the provider, if it does not close the connection before, and the number
of bytes after the first that have arrived when `recv` returns. -/
structure Invocation (M : ι → Type) where
  method : ι
  connects : Bool
  serializes : Bool
  sends : Bool
  receives : Bool
  response : Option (M method)
  arrived : ℕ

/-- The channel with its connection, if there is one.  No call follows one that has not
returned. -/
structure MprpcChannel where
  clientFd : Option Connection
  blocked : Bool

namespace MprpcChannel

def start (connectNow : Bool) : MprpcChannel where
  clientFd := if connectNow then some .new else none
  blocked := false

/-- `CallMethod` from the place where there is a connection. -/
def callOn (codec : ∀ method, MessageCodec (M method)) (connection : Connection)
    (call : Invocation M) : Outcome (Sigma M) × MprpcChannel :=
  if !call.serializes then (.failed .serialize, ⟨some connection, false⟩)
  else if !call.sends then (.failed .send, ⟨none, false⟩)
  else if !call.receives then (.failed .recv, ⟨none, false⟩)
  else
    let connection := connection.answer (codec call.method) call.response
    match connection.recv call.arrived with
    | none => (.blocked, ⟨some connection, true⟩)
    | some (recv_buf, connection) =>
        match (codec call.method).parse recv_buf with
        | some response => (.returned ⟨call.method, response⟩, ⟨some connection, false⟩)
        | none => (.failed .parse, ⟨some connection, false⟩)

def callMethod (codec : ∀ method, MessageCodec (M method)) (channel : MprpcChannel)
    (call : Invocation M) : Outcome (Sigma M) × MprpcChannel :=
  if channel.blocked then (.blocked, channel)
  else
    match channel.clientFd with
    | some connection => callOn codec connection call
    | none =>
        if call.connects then callOn codec .new call
        else (.failed .connect, channel)

end MprpcChannel

/-! ## What the calls are to answer -/

/-- A call fails if the connection does, also where the provider closes it before it
answers, and returns the response otherwise.  The state is whether there is a
connection. -/
def deliver (connected : Bool) (call : Invocation M) : Outcome (Sigma M) × Bool :=
  if !connected && !call.connects then (.failed .connect, false)
  else if !call.serializes then (.failed .serialize, true)
  else if !call.sends then (.failed .send, false)
  else if !call.receives then (.failed .recv, false)
  else
    match call.response with
    | none => (.failed .recv, false)
    | some response => (.returned ⟨call.method, response⟩, true)

/-- A call that comes to reading without a failure is answered, and the bytes of its
response fit into the buffer and have all arrived. -/
def Delivered (codec : ∀ method, MessageCodec (M method)) (connected : Bool)
    (call : Invocation M) : Prop :=
  (connected = true ∨ call.connects = true) → call.serializes = true → call.sends = true →
    call.receives = true → ∃ response ∈ call.response,
      let size := ((codec call.method).serialize response).length
      1 ≤ size ∧ size ≤ 1024 ∧ size ≤ call.arrived + 1

/-- What is cut off the end of a response is missed. -/
theorem parse_take_iff {α : Type} (codec : MessageCodec α) {a : α} (size : ℕ)
    (h : (codec.serialize a).length < 2 ^ 31) :
    codec.parse ((codec.serialize a).take size) = some a ↔ (codec.serialize a).length ≤ size := by
  constructor
  · intro hparse
    have hwhole := codec.eq_of_parse_prefix a _ (List.take_prefix _ _) hparse
    have hlength := congrArg List.length hwhole
    rw [List.length_take] at hlength
    omega
  · intro hsize
    rw [List.take_of_length_le hsize]
    exact codec.parse_serialize a h

namespace MprpcChannel

variable (codec : ∀ method, MessageCodec (M method))

/-- On a new connection the bytes of a response are the only ones. -/
theorem recv_answer_new {α : Type} (codec : MessageCodec α) {response : α} (arrived : ℕ)
    (hsize : 1 ≤ (codec.serialize response).length)
    (hlarge : (codec.serialize response).length < 2 ^ 31) :
    (Connection.new.answer codec (some response)).recv arrived =
      some ((codec.serialize response).take (min 1024 (arrived + 1)),
        ⟨(codec.serialize response).drop (min 1024 (arrived + 1)), false⟩) := by
  have hbytes : sendRpcResponse codec response = codec.serialize response := if_pos hlarge
  have hnil : codec.serialize response ≠ [] := List.ne_nil_of_length_pos hsize
  simp [Connection.new, Connection.answer, Connection.recv, hbytes, hnil]

/-- Nothing has been sent, so nothing can be read. -/
theorem recv_answer_new_eq_none {α : Type} (codec : MessageCodec α) {response : α} (arrived : ℕ)
    (h : ¬ (1 ≤ (codec.serialize response).length ∧
      (codec.serialize response).length < 2 ^ 31)) :
    (Connection.new.answer codec (some response)).recv arrived = none := by
  have hbytes : sendRpcResponse codec response = [] := by
    unfold sendRpcResponse
    split_ifs with hlarge
    · apply List.eq_nil_of_length_eq_zero
      omega
    · rfl
  simp [Connection.new, Connection.answer, Connection.recv, hbytes]

variable {codec}

/-- What a call returns on a new connection, if it comes to reading. -/
theorem callOn_new_eq_iff {call : Invocation M} (hserialize : call.serializes = true)
    (hsend : call.sends = true) (hreceive : call.receives = true) :
    (callOn codec .new call).1 = (deliver true call).1 ↔
      ∃ response ∈ call.response,
        let size := ((codec call.method).serialize response).length
        1 ≤ size ∧ size ≤ 1024 ∧ size ≤ call.arrived + 1 := by
  obtain ⟨method, connects, serializes, sends, receives, response, arrived⟩ := call
  simp only at hserialize hsend hreceive
  subst hserialize hsend hreceive
  cases response with
  | none =>
      -- the default message is returned in place of the failure
      simp [callOn, deliver, Connection.answer, Connection.new, Connection.recv,
        (codec method).parse_nil]
  | some response =>
      simp only [callOn, deliver, Bool.not_true, Bool.false_and, Bool.false_eq_true, if_false,
        Option.mem_def, Option.some.injEq, exists_eq_left']
      by_cases hsent : 1 ≤ ((codec method).serialize response).length ∧
          ((codec method).serialize response).length < 2 ^ 31
      · have hiff := parse_take_iff (codec method) (min 1024 (arrived + 1)) hsent.2
        rw [recv_answer_new (codec method) arrived hsent.1 hsent.2]
        simp only
        cases hparse : (codec method).parse
            (((codec method).serialize response).take (min 1024 (arrived + 1))) with
        | none =>
            rw [hparse] at hiff
            simp at hiff ⊢
            omega
        | some other =>
            rw [hparse] at hiff
            simp at hiff ⊢
            rw [hiff]
            omega
      · rw [recv_answer_new_eq_none (codec method) arrived hsent]
        simp
        omega

/-- A call whose response is read whole leaves nothing behind. -/
theorem callOn_new_snd {call : Invocation M} {response : M call.method}
    (hserialize : call.serializes = true) (hsend : call.sends = true)
    (hreceive : call.receives = true) (hresponse : call.response = some response)
    (hsize : 1 ≤ ((codec call.method).serialize response).length)
    (hbuffer : ((codec call.method).serialize response).length ≤ 1024)
    (harrived : ((codec call.method).serialize response).length ≤ call.arrived + 1) :
    (callOn codec .new call).2 = start true := by
  have hdrop : ((codec call.method).serialize response).drop (min 1024 (call.arrived + 1)) = [] :=
    List.drop_of_length_le (le_min hbuffer harrived)
  simp only [callOn, hserialize, hsend, hreceive, Bool.not_true, Bool.false_eq_true, if_false,
    hresponse, recv_answer_new (codec call.method) call.arrived hsize (hbuffer.trans_lt (by decide)),
    hdrop]
  split
  · rfl
  · rfl

/-- With a connection the call goes on, on a new one where there is none. -/
theorem callMethod_start (connected : Bool) {call : Invocation M}
    (h : connected = true ∨ call.connects = true) :
    callMethod codec (start connected) call = callOn codec .new call := by
  cases connected with
  | true => rfl
  | false =>
      have hconnects : call.connects = true := by simpa using h
      simp [callMethod, start, hconnects]

theorem deliver_of_connected (connected : Bool) {call : Invocation M}
    (h : connected = true ∨ call.connects = true) :
    deliver connected call = deliver true call := by
  cases connected with
  | true => rfl
  | false =>
      have hconnects : call.connects = true := by simpa using h
      simp [deliver, hconnects]

theorem callMethod_start_of_not {connected : Bool} {call : Invocation M}
    (h : ¬ (connected = true ∨ call.connects = true)) :
    callMethod codec (start connected) call = (.failed .connect, start connected) := by
  obtain ⟨hconnected, hconnects⟩ := not_or.mp h
  simp only [Bool.not_eq_true] at hconnected hconnects
  subst hconnected
  simp [callMethod, start, hconnects]

theorem deliver_of_not {connected : Bool} {call : Invocation M}
    (h : ¬ (connected = true ∨ call.connects = true)) :
    deliver connected call = (.failed .connect, connected) := by
  obtain ⟨hconnected, hconnects⟩ := not_or.mp h
  simp only [Bool.not_eq_true] at hconnected hconnects
  subst hconnected
  simp [deliver, hconnects]

theorem callMethod_eq_iff (connected : Bool) (call : Invocation M) :
    (callMethod codec (start connected) call).1 = (deliver connected call).1 ↔
      Delivered codec connected call := by
  unfold Delivered
  by_cases hconnected : connected = true ∨ call.connects = true
  · rw [callMethod_start connected hconnected, deliver_of_connected connected hconnected]
    simp only [hconnected, true_imp_iff]
    cases hserialize : call.serializes with
    | false => simp [callOn, deliver, hserialize]
    | true =>
        cases hsend : call.sends with
        | false => simp [callOn, deliver, hserialize, hsend]
        | true =>
            cases hreceive : call.receives with
            | false => simp [callOn, deliver, hserialize, hsend, hreceive]
            | true =>
                simp only [true_imp_iff]
                exact callOn_new_eq_iff hserialize hsend hreceive
  · rw [callMethod_start_of_not hconnected, deliver_of_not hconnected]
    simp [hconnected]

theorem callMethod_start_snd {connected : Bool} {call : Invocation M}
    (h : Delivered codec connected call) :
    (callMethod codec (start connected) call).2 = start (deliver connected call).2 := by
  by_cases hconnected : connected = true ∨ call.connects = true
  · rw [callMethod_start connected hconnected, deliver_of_connected connected hconnected]
    cases hserialize : call.serializes with
    | false => simp [callOn, deliver, hserialize, start]
    | true =>
        cases hsend : call.sends with
        | false => simp [callOn, deliver, hserialize, hsend, start]
        | true =>
            cases hreceive : call.receives with
            | false => simp [callOn, deliver, hserialize, hsend, hreceive, start]
            | true =>
                obtain ⟨response, hresponse, hsize, hbuffer, harrived⟩ :=
                  h hconnected hserialize hsend hreceive
                rw [callOn_new_snd hserialize hsend hreceive hresponse hsize hbuffer harrived]
                simp [deliver, hserialize, hsend, hreceive, Option.mem_def.mp hresponse]
  · rw [callMethod_start_of_not hconnected, deliver_of_not hconnected]

/-- Whatever the responses are, however their bytes arrive and whatever system call
fails, the calls on a channel are answered as they should be exactly if every call that
comes to reading is answered and gets its response, of 1 to 1024 bytes, whole. -/
theorem answers_callMethod_iff (codec : ∀ method, MessageCodec (M method)) (connectNow : Bool)
    (calls : List (Invocation M)) :
    answers (callMethod codec) (start connectNow) calls = answers deliver connectNow calls ↔
      Runs.Along (fun connected call ↦ (deliver connected call).2) (Delivered codec) connectNow
        calls := by
  apply answers_eq_iff_along (R := fun channel connected ↦ channel = start connected)
  · rintro _ connected call rfl
    exact callMethod_eq_iff connected call
  · rintro _ connected call rfl hdelivered
    exact callMethod_start_snd hdelivered
  · rfl

end MprpcChannel

/-! ## The value of a key -/

structure GetReply where
  Err : Bytes
  Value : Bytes
deriving DecidableEq, Repr

/-- The two fields have the numbers of the names in the header. -/
def GetReply.codec : MessageCodec GetReply where
  serialize reply := RpcHeader.serialize ⟨reply.Err, reply.Value, 0⟩
  parse bs := do
    let fields ← RpcHeader.parse bs
    if fields.args_size = 0 then some ⟨fields.service_name, fields.method_name⟩ else none
  parse_serialize := by
    intro reply hlength
    rw [RpcHeader.parse_serialize _ hlength]
    rfl
  eq_of_parse_prefix := by
    intro reply bs hprefix hparse
    obtain ⟨fields, hfields, hreply⟩ := Option.bind_eq_some_iff.mp hparse
    split_ifs at hreply with hsize
    cases hreply
    apply hprefix.eq_of_length_le
    rw [← hsize]
    exact RpcHeader.length_le_of_parse hfields
  default := ⟨[], []⟩
  parse_nil := rfl

/-- A call of `Get` on a connection that works. -/
def get (Value : Bytes) (arrived : ℕ) : Invocation fun _ : Unit ↦ GetReply where
  method := ()
  connects := true
  serializes := true
  sends := true
  receives := true
  response := some ⟨[79, 75], Value⟩
  arrived := arrived

namespace MprpcChannel

/-- The values are `1` and `2`.  The first `recv` gets the field `Err`, and the second
the value that the first has left. -/
theorem value_answers_next_get :
    answers (callMethod fun _ ↦ GetReply.codec) (start true) [get [49] 3, get [50] 2] =
        [.returned ⟨(), ⟨[79, 75], []⟩⟩, .returned ⟨(), ⟨[], [49]⟩⟩] ∧
      answers deliver true [get [49] 3, get [50] 2] =
        [.returned ⟨(), ⟨[79, 75], [49]⟩⟩, .returned ⟨(), ⟨[79, 75], [50]⟩⟩] ∧
      answers (callMethod fun _ ↦ GetReply.codec) (start true) [get [49] 3, get [50] 2] ≠
        answers deliver true [get [49] 3, get [50] 2] := by
  decide

end MprpcChannel

end HttpRaftKv.Rpc
