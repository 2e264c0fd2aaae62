import HttpRaftKv.Lib.Varint
import Mathlib.Data.Nat.Notation

/-!
# Frames

The parser of a frame looks at the bytes that have arrived and either needs more
of them or finds a frame.  The number of bytes that a frame takes is computed a
second time, from the bytes and from the payload.
-/

namespace HttpRaftKv.WebSocket

inductive WebSocketOpCode
  | continuation
  | text
  | binary
  | close
  | ping
  | pong
  /-- A value that has no name. -/
  | reserved (bits : ℕ)
deriving DecidableEq, Repr

namespace WebSocketOpCode

def ofBits : ℕ → WebSocketOpCode
  | 0 => .continuation
  | 1 => .text
  | 2 => .binary
  | 8 => .close
  | 9 => .ping
  | 10 => .pong
  | bits => .reserved bits

def toBits : WebSocketOpCode → ℕ
  | .continuation => 0
  | .text => 1
  | .binary => 2
  | .close => 8
  | .ping => 9
  | .pong => 10
  | .reserved bits => bits

end WebSocketOpCode

/-- The masking key is given by its bytes in memory. -/
structure WebSocketFrame where
  fin : Bool
  opCode : WebSocketOpCode
  mask : Bool
  payloadLen : ℕ
  maskingKey : Bytes
  payload : Bytes
deriving DecidableEq, Repr

/-- The number with these digits in base 256, the highest first. -/
def bigEndian (bytes : Bytes) : ℕ :=
  bytes.foldl (fun n b ↦ 256 * n + b.toNat) 0

/-- The bytes of a number in base 256, the highest first. -/
def toBigEndian : ℕ → ℕ → Bytes
  | 0, _ => []
  | size + 1, n => toBigEndian size (n / 256) ++ [UInt8.ofNat n]

/-- The loop that applies the mask, which also takes it away. -/
def applyMask (maskingKey payload : Bytes) : Bytes :=
  payload.mapIdx fun i b ↦ b ^^^ maskingKey.getD (i % 4) 0

namespace WebSocketFrame

/-- The number of bytes of the extended length. -/
def extendedSize (firstLen : ℕ) : ℕ :=
  if firstLen = 126 then 2 else if firstLen = 127 then 8 else 0

/-- What stands before the payload, and how many bytes it takes. -/
structure Header where
  fin : Bool
  opCode : WebSocketOpCode
  mask : Bool
  payloadLen : ℕ
  maskingKey : Bytes
  offset : ℕ
deriving DecidableEq, Repr

/-- The part of `parseFrame` before the payload. -/
def parseHeader : Bytes → Option Header
  | byte0 :: byte1 :: rest =>
      let firstLen := byte1.toNat % 128
      let size := extendedSize firstLen
      let mask : Bool := 128 ≤ byte1.toNat
      if rest.length < size then none
      else if mask ∧ rest.length < size + 4 then none
      else
        some {
          fin := 128 ≤ byte0.toNat
          opCode := .ofBits (byte0.toNat % 16)
          mask := mask
          payloadLen := if size = 0 then firstLen else bigEndian (rest.take size)
          maskingKey := if mask then (rest.drop size).take 4 else [0, 0, 0, 0]
          offset := 2 + size + if mask then 4 else 0 }
  | _ => none

inductive Parsed
  | incomplete
  | parsed (frame : WebSocketFrame)
  | thrown
deriving DecidableEq, Repr

/-- The sum of the offset and the length may be too large for a `size_t`; a text
with so many characters cannot be made. -/
def parseFrame (data : Bytes) : Parsed :=
  match parseHeader data with
  | none => .incomplete
  | some header =>
      if data.length < (header.offset + header.payloadLen) % 2 ^ 64 then .incomplete
      else if 2 ^ 63 ≤ header.payloadLen then .thrown
      else
        let payload := (data.drop header.offset).take header.payloadLen
        .parsed {
          fin := header.fin
          opCode := header.opCode
          mask := header.mask
          payloadLen := header.payloadLen
          maskingKey := header.maskingKey
          payload := if header.mask then applyMask header.maskingKey payload else payload }

/-- The key is random. -/
def createFrame (op : WebSocketOpCode) (payload : Bytes) (mask : Bool) (key : Bytes) :
    WebSocketFrame where
  fin := true
  opCode := op
  mask := mask
  payloadLen := payload.length
  maskingKey := if mask then key else [0, 0, 0, 0]
  payload := if mask then applyMask key payload else payload

def encodeToString (frame : WebSocketFrame) : Bytes :=
  let byte0 := (if frame.fin then 128 else 0) + frame.opCode.toBits % 16
  let bit := if frame.mask then 128 else 0
  let length := frame.payload.length
  let lengths :=
    if length ≤ 125 then [UInt8.ofNat (bit + length)]
    else if length ≤ 65535 then UInt8.ofNat (bit + 126) :: toBigEndian 2 length
    else UInt8.ofNat (bit + 127) :: toBigEndian 8 length
  UInt8.ofNat byte0 :: lengths ++ (if frame.mask then frame.maskingKey else []) ++ frame.payload

end WebSocketFrame

namespace WebSocketContext

/-- The number of bytes that `parseFrame` of the context takes from the buffer. -/
def wireSize (raw : Bytes) (frame : WebSocketFrame) : ℕ :=
  let byte1 := (raw.getD 1 0).toNat
  2 + WebSocketFrame.extendedSize (byte1 % 128) + (if 128 ≤ byte1 then 4 else 0) +
    frame.payload.length

end WebSocketContext

end HttpRaftKv.WebSocket
