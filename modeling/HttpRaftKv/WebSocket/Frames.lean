import HttpRaftKv.Lib.Decoder
import HttpRaftKv.WebSocket.WebSocketFrame
import Mathlib.Data.List.Basic

/-!
# Frames in a stream

A frame is found in the bytes that have arrived exactly if all of its bytes are
there, and what comes behind them does not matter.  The size that is computed a
second time is the one that the parser has used.
-/

namespace HttpRaftKv.WebSocket

namespace WebSocketFrame

/-! ## Headers -/

theorem extendedSize_le (firstLen : ℕ) : extendedSize firstLen ≤ 8 := by
  unfold extendedSize
  split_ifs
  · omega
  · omega
  · omega

theorem parseHeader_cons_cons (byte0 byte1 : UInt8) (rest : Bytes) :
    parseHeader (byte0 :: byte1 :: rest) =
      if rest.length < extendedSize (byte1.toNat % 128) then none
      else if 128 ≤ byte1.toNat ∧ rest.length < extendedSize (byte1.toNat % 128) + 4 then none
      else
        some {
          fin := 128 ≤ byte0.toNat
          opCode := .ofBits (byte0.toNat % 16)
          mask := 128 ≤ byte1.toNat
          payloadLen :=
            if extendedSize (byte1.toNat % 128) = 0 then byte1.toNat % 128
            else bigEndian (rest.take (extendedSize (byte1.toNat % 128)))
          maskingKey :=
            if 128 ≤ byte1.toNat then (rest.drop (extendedSize (byte1.toNat % 128))).take 4
            else [0, 0, 0, 0]
          offset := 2 + extendedSize (byte1.toNat % 128) + if 128 ≤ byte1.toNat then 4 else 0 } := by
  simp [parseHeader]

/-- What a header says about the bytes before the payload. -/
structure HeaderOf (data : Bytes) (header : Header) : Prop where
  two_le : 2 ≤ header.offset
  le : header.offset ≤ 14
  length : header.offset ≤ data.length
  wireSize : ∀ frame, WebSocketContext.wireSize data frame = header.offset + frame.payload.length
  append : ∀ more, parseHeader (data ++ more) = some header

theorem headerOf {data : Bytes} {header : Header} (h : parseHeader data = some header) :
    HeaderOf data header := by
  match data, h with
  | byte0 :: byte1 :: rest, h =>
      have hsize := extendedSize_le (byte1.toNat % 128)
      rw [parseHeader_cons_cons] at h
      obtain ⟨hlength, h⟩ := Option.ite_none_left_eq_some.mp h
      obtain ⟨hkey, h⟩ := Option.ite_none_left_eq_some.mp h
      cases h
      refine ⟨?_, ?_, ?_, fun frame ↦ rfl, fun more ↦ ?_⟩
      · simp only
        omega
      · simp only
        split_ifs
        · omega
        · omega
      · simp only [List.length_cons]
        split_ifs with hmask
        · omega
        · omega
      · have hlong : ¬ (rest ++ more).length < extendedSize (byte1.toNat % 128) := by
          rw [List.length_append]
          omega
        have hlongKey : ¬ (128 ≤ byte1.toNat ∧
            (rest ++ more).length < extendedSize (byte1.toNat % 128) + 4) := by
          rw [List.length_append]
          omega
        rw [List.cons_append, List.cons_append, parseHeader_cons_cons, if_neg hlong,
          if_neg hlongKey, List.take_append_of_le_length (by omega),
          List.drop_append_of_le_length (by omega)]
        by_cases hmask : 128 ≤ byte1.toNat
        · rw [if_pos hmask, if_pos hmask, if_pos hmask, List.take_append_of_le_length]
          rw [List.length_drop]
          omega
        · rw [if_neg hmask, if_neg hmask, if_neg hmask]

/-! ## Frames -/

/-- The frame with this header. -/
def ofHeader (header : Header) (data : Bytes) : WebSocketFrame where
  fin := header.fin
  opCode := header.opCode
  mask := header.mask
  payloadLen := header.payloadLen
  maskingKey := header.maskingKey
  payload :=
    if header.mask then
      applyMask header.maskingKey ((data.drop header.offset).take header.payloadLen)
    else (data.drop header.offset).take header.payloadLen

theorem length_applyMask (maskingKey payload : Bytes) :
    (applyMask maskingKey payload).length = payload.length := by
  simp [applyMask]

theorem parseFrame_of_header {data : Bytes} {header : Header}
    (h : parseHeader data = some header) :
    parseFrame data =
      if data.length < (header.offset + header.payloadLen) % 2 ^ 64 then .incomplete
      else if 2 ^ 63 ≤ header.payloadLen then .thrown
      else .parsed (ofHeader header data) := by
  unfold parseFrame
  rw [h]
  rfl

theorem parseFrame_eq_parsed {data : Bytes} {frame : WebSocketFrame} :
    parseFrame data = .parsed frame ↔
      ∃ header, parseHeader data = some header ∧ header.payloadLen < 2 ^ 63 ∧
        header.offset + header.payloadLen ≤ data.length ∧ frame = ofHeader header data := by
  cases hheader : parseHeader data with
  | none => simp [parseFrame, hheader]
  | some header =>
      have hoffset := (headerOf hheader).le
      rw [parseFrame_of_header hheader]
      constructor
      · intro h
        split_ifs at h with hlength hlarge
        rw [Nat.mod_eq_of_lt (by omega)] at hlength
        exact ⟨header, rfl, by omega, by omega, (Parsed.parsed.inj h).symm⟩
      · rintro ⟨header', heq, hsmall, hlength, rfl⟩
        obtain rfl := Option.some.inj heq
        rw [Nat.mod_eq_of_lt (by omega), if_neg (by omega), if_neg (by omega)]

theorem length_payload_ofHeader {header : Header} {data : Bytes}
    (h : header.offset + header.payloadLen ≤ data.length) :
    (ofHeader header data).payload.length = header.payloadLen := by
  have hlength : ((data.drop header.offset).take header.payloadLen).length = header.payloadLen := by
    rw [List.length_take, List.length_drop]
    omega
  unfold ofHeader
  split_ifs
  · rw [length_applyMask, hlength]
  · exact hlength

theorem ofHeader_append {header : Header} {data : Bytes}
    (h : header.offset + header.payloadLen ≤ data.length) (more : Bytes) :
    ofHeader header (data ++ more) = ofHeader header data := by
  have hpayload : ((data ++ more).drop header.offset).take header.payloadLen =
      (data.drop header.offset).take header.payloadLen := by
    rw [List.drop_append_of_le_length (by omega), List.take_append_of_le_length]
    rw [List.length_drop]
    omega
  unfold ofHeader
  rw [hpayload]

/-- Where a frame ends depends only on its own bytes. -/
theorem parseFrame_wireSize {data : Bytes} {frame : WebSocketFrame}
    (h : parseFrame data = .parsed frame) :
    0 < WebSocketContext.wireSize data frame ∧
      WebSocketContext.wireSize data frame ≤ data.length ∧
      ∀ more, parseFrame (data ++ more) = .parsed frame ∧
        WebSocketContext.wireSize (data ++ more) frame = WebSocketContext.wireSize data frame := by
  obtain ⟨header, hheader, hsmall, hlength, rfl⟩ := parseFrame_eq_parsed.mp h
  have hof := headerOf hheader
  have htwo := hof.two_le
  have hpayload := length_payload_ofHeader hlength
  refine ⟨?_, ?_, fun more ↦ ⟨?_, ?_⟩⟩
  · rw [hof.wireSize]
    omega
  · rw [hof.wireSize, hpayload]
    exact hlength
  · refine parseFrame_eq_parsed.mpr ⟨header, hof.append more, hsmall, ?_, ?_⟩
    · rw [List.length_append]
      omega
    · rw [ofHeader_append hlength]
  · rw [hof.wireSize, (headerOf (hof.append more)).wireSize]

end WebSocketFrame

/-- The frame at the front of a stream, as `parseFrame` of the context takes it. -/
def nextFrame (data : Bytes) : Option (WebSocketFrame × Bytes) :=
  match WebSocketFrame.parseFrame data with
  | .parsed frame => some (frame, data.drop (WebSocketContext.wireSize data frame))
  | _ => none

theorem nextFrame_eq_some {data rest : Bytes} {frame : WebSocketFrame} :
    nextFrame data = some (frame, rest) ↔
      WebSocketFrame.parseFrame data = .parsed frame ∧
        data.drop (WebSocketContext.wireSize data frame) = rest := by
  unfold nextFrame
  cases hparse : WebSocketFrame.parseFrame data with
  | incomplete => simp
  | thrown => simp
  | parsed frame' =>
      simp only [Option.some.injEq, Prod.mk.injEq, WebSocketFrame.Parsed.parsed.injEq]
      constructor
      · rintro ⟨rfl, hrest⟩
        exact ⟨rfl, hrest⟩
      · rintro ⟨rfl, hrest⟩
        exact ⟨rfl, hrest⟩

def frameDecoder : Decoder UInt8 WebSocketFrame where
  next := nextFrame
  shorter := by
    intro data frame rest h
    obtain ⟨hparse, rfl⟩ := nextFrame_eq_some.mp h
    obtain ⟨hpos, hle, -⟩ := WebSocketFrame.parseFrame_wireSize hparse
    rw [List.length_drop]
    omega
  stable := by
    intro data frame rest h more
    obtain ⟨hparse, rfl⟩ := nextFrame_eq_some.mp h
    obtain ⟨-, hle, hmore⟩ := WebSocketFrame.parseFrame_wireSize hparse
    refine nextFrame_eq_some.mpr ⟨(hmore more).1, ?_⟩
    rw [(hmore more).2, List.drop_append_of_le_length hle]

end HttpRaftKv.WebSocket
