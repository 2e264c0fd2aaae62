import HttpRaftKv.Http.HttpServer
import HttpRaftKv.WebSocket.Wire

/-!
# Frames that are written and read back

A frame that has been created and encoded has the format of the wire, so the
context of a connection finds it, takes its bytes and leaves what stands behind
them.  As long as a byte is missing nothing is taken.
-/

namespace HttpRaftKv.WebSocket

structure WebSocketContext where
  state : Http.WebSocketState
  currentFrame : Option WebSocketFrame
deriving DecidableEq, Repr

namespace WebSocketContext

/-- What is returned, and the context and the buffer afterwards.  There is no result
if the parser throws. -/
def parseFrame (context : WebSocketContext) (buf : Bytes) :
    Option (Bool × WebSocketContext × Bytes) :=
  if buf = [] then some (false, context, buf)
  else
    match WebSocketFrame.parseFrame buf with
    | .incomplete => some (false, context, buf)
    | .thrown => none
    | .parsed frame =>
        some (true,
          { state := if frame.opCode = .close then .closing else context.state
            currentFrame := some frame },
          buf.drop (wireSize buf frame))

variable {context : WebSocketContext} {buf rest : Bytes} {frame : WebSocketFrame}

theorem parseFrame_of_incomplete (h : WebSocketFrame.parseFrame buf = .incomplete) :
    context.parseFrame buf = some (false, context, buf) := by
  unfold parseFrame
  rw [h]
  split_ifs
  · rfl
  · rfl

/-- The context takes what the decoder of frames takes. -/
theorem parseFrame_of_nextFrame (h : nextFrame buf = some (frame, rest)) :
    context.parseFrame buf =
      some (true,
        { state := if frame.opCode = .close then .closing else context.state
          currentFrame := some frame }, rest) := by
  have hlength := frameDecoder.shorter h
  obtain ⟨hparse, rfl⟩ := nextFrame_eq_some.mp h
  have hne : buf ≠ [] := by
    rintro rfl
    exact Nat.not_lt_zero _ hlength
  unfold parseFrame
  rw [if_neg hne, hparse]

end WebSocketContext

/-! ## The frames that are written -/

namespace LengthForm

/-- The form that `encodeToString` chooses. -/
def shortest (length : ℕ) : LengthForm :=
  if length ≤ 125 then .short else if length ≤ 65535 then .medium else .long

theorem le_max_shortest {length : ℕ} (h : length < 2 ^ 63) : length ≤ (shortest length).max := by
  unfold shortest
  split_ifs with hshort hmedium
  · exact hshort
  · exact hmedium
  · exact Nat.le_sub_one_of_lt h

end LengthForm

namespace WebSocketOpCode

theorem toBits_ofBits (bits : ℕ) : (ofBits bits).toBits = bits := by
  unfold ofBits
  split
  all_goals rfl

end WebSocketOpCode

namespace Wire

/-- The frame that is created with this opcode. -/
def ofCreated (bits : Fin 16) (payload : Bytes) (mask : Bool) (key : Bytes)
    (hkey : key.length = 4) (hpayload : payload.length < 2 ^ 63) : Wire where
  byte0 := UInt8.ofNat (128 + bits)
  form := .shortest payload.length
  key := if mask then some key else none
  payload := payload
  length_key := by
    intro k hk
    cases mask with
    | false => cases hk
    | true => exact Option.some.inj hk ▸ hkey
  length_payload := LengthForm.le_max_shortest hpayload

variable {bits : Fin 16} {payload : Bytes} {mask : Bool} {key : Bytes} {hkey : key.length = 4}
  {hpayload : payload.length < 2 ^ 63}

theorem bytes_ofCreated :
    (ofCreated bits payload mask key hkey hpayload).bytes =
      (WebSocketFrame.createFrame (.ofBits bits) payload mask key).encodeToString := by
  have hbits : (WebSocketOpCode.ofBits bits).toBits % 16 = bits := by
    rw [WebSocketOpCode.toBits_ofBits, Nat.mod_eq_of_lt bits.isLt]
  have hlength : (WebSocketFrame.createFrame (.ofBits bits) payload mask key).payload.length =
      payload.length := by
    unfold WebSocketFrame.createFrame
    split_ifs
    · exact WebSocketFrame.length_applyMask key payload
    · rfl
  unfold WebSocketFrame.encodeToString
  simp only [hlength]
  simp only [bytes, sent, ofCreated, WebSocketFrame.createFrame, hbits, LengthForm.shortest]
  cases mask with
  | false =>
      simp only [Bool.false_eq_true, if_false, Option.isSome_none, Option.getD_none]
      split_ifs
      · simp [LengthForm.first, LengthForm.extended]
      · simp [LengthForm.first, LengthForm.extended]
      · simp [LengthForm.first, LengthForm.extended]
  | true =>
      simp only [if_true, Option.isSome_some, Option.getD_some]
      split_ifs
      · simp [LengthForm.first, LengthForm.extended]
      · simp [LengthForm.first, LengthForm.extended]
      · simp [LengthForm.first, LengthForm.extended]

/-- The payload of a created frame is masked, that of a frame that has been read is
not. -/
theorem frame_ofCreated :
    (ofCreated bits payload mask key hkey hpayload).frame =
      { WebSocketFrame.createFrame (.ofBits bits) payload mask key with payload := payload } := by
  have htoNat : (UInt8.ofNat (128 + bits)).toNat = 128 + bits := by
    rw [UInt8.toNat_ofNat', Nat.mod_eq_of_lt (by omega)]
  have hop : (128 + (bits : ℕ)) % 16 = bits := by omega
  simp only [frame, ofCreated, WebSocketFrame.createFrame, htoNat, hop]
  cases mask with
  | false => simp
  | true => simp

end Wire

/-! ## Reading back -/

/-- A front of the bytes of a frame has the header of the frame or none. -/
theorem Wire.parseFrame_front (w : Wire) {front behind : Bytes} (h : front ++ behind = w.bytes)
    (hbehind : behind ≠ []) : WebSocketFrame.parseFrame front = .incomplete := by
  have hshort : ¬ w.bytes.length ≤ front.length := by
    have hpos := List.length_pos_of_ne_nil hbehind
    rw [← h, List.length_append]
    omega
  have hnext : nextFrame front = none := by
    have heq : front ++ behind = w.bytes ++ [] := by rw [h, List.append_nil]
    exact (w.whole_bytes.next_eq heq).trans (if_neg hshort)
  cases hheader : WebSocketFrame.parseHeader front with
  | none => simp [WebSocketFrame.parseFrame, hheader]
  | some header =>
      -- The header is that of the whole frame, so its length is not too large for a text.
      have hwhole : WebSocketFrame.parseHeader w.bytes = some header :=
        h ▸ (WebSocketFrame.headerOf hheader).append behind
      have hlen : header.payloadLen < 2 ^ 63 := by
        rw [w.parseHeader_bytes] at hwhole
        rw [← Option.some.inj hwhole]
        exact Nat.lt_of_le_of_lt w.length_payload w.form.max_lt
      cases hparse : WebSocketFrame.parseFrame front with
      | incomplete => rfl
      | parsed frame =>
          unfold nextFrame at hnext
          rw [hparse] at hnext
          exact absurd hnext (Option.some_ne_none _)
      | thrown =>
          rw [WebSocketFrame.parseFrame_of_header hheader] at hparse
          split_ifs at hparse
          omega

/-- A frame that is created and encoded is found with its flags, its key and the
payload before the masking, whatever stands behind it.  The context takes exactly its
bytes, and takes nothing as long as one of them is missing. -/
theorem parseFrame_encodeToString (bits : Fin 16) (payload : Bytes) (mask : Bool) (key : Bytes)
    (hkey : key.length = 4) (hpayload : payload.length < 2 ^ 63) (context : WebSocketContext) :
    (∀ rest, ∃ frame,
      WebSocketFrame.parseFrame
          ((WebSocketFrame.createFrame (.ofBits bits) payload mask key).encodeToString ++ rest) =
        .parsed frame ∧
      frame.fin = true ∧ frame.opCode = .ofBits bits ∧ frame.mask = mask ∧
      frame.maskingKey = (if mask then key else [0, 0, 0, 0]) ∧
      frame.payloadLen = payload.length ∧ frame.payload = payload ∧
      ∃ state,
        context.parseFrame
            ((WebSocketFrame.createFrame (.ofBits bits) payload mask key).encodeToString ++ rest) =
          some (true, ⟨state, some frame⟩, rest)) ∧
    ∀ front behind, behind ≠ [] →
      front ++ behind =
          (WebSocketFrame.createFrame (.ofBits bits) payload mask key).encodeToString →
      WebSocketFrame.parseFrame front = .incomplete ∧
      context.parseFrame front = some (false, context, front) := by
  rw [← @Wire.bytes_ofCreated bits payload mask key hkey hpayload]
  constructor
  · intro rest
    have hwhole := (Wire.ofCreated bits payload mask key hkey hpayload).whole_bytes
    rw [Wire.frame_ofCreated] at hwhole
    have hnext := frameDecoder.stable hwhole rest
    rw [List.nil_append] at hnext
    exact ⟨_, (nextFrame_eq_some.mp hnext).1, rfl, rfl, rfl, rfl, rfl, rfl, _,
      WebSocketContext.parseFrame_of_nextFrame hnext⟩
  · intro front behind hbehind h
    have hparse := Wire.parseFrame_front _ h hbehind
    exact ⟨hparse, WebSocketContext.parseFrame_of_incomplete hparse⟩

theorem parseFrame_encodeToString_text :
    (∃ frame,
      WebSocketFrame.parseFrame
          ((WebSocketFrame.createFrame .text [104, 105] true [1, 2, 3, 4]).encodeToString ++ [7]) =
        .parsed frame ∧ frame.payload = [104, 105]) ∧
    WebSocketFrame.parseFrame [129, 130, 1, 2, 3, 4, 105] = .incomplete := by
  have h := parseFrame_encodeToString 1 [104, 105] true [1, 2, 3, 4] rfl (by decide) ⟨.isOpen, none⟩
  obtain ⟨frame, hparse, -, -, -, -, -, hpayload, -⟩ := h.1 [7]
  exact ⟨⟨frame, hparse, hpayload⟩,
    (h.2 [129, 130, 1, 2, 3, 4, 105] [107] (List.cons_ne_nil _ _) (by decide)).1⟩

end HttpRaftKv.WebSocket
