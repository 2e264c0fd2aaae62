import HttpRaftKv.Lib.Checked
import HttpRaftKv.WebSocket.Frames

/-!
# Where the parser of a frame reads

Here every read of the parser is checked against the end of the buffer, and a text
that is too long for a `std::string` is an exception.  No read leaves the buffer.
The sum of the offset and the length may wrap around, and the parser then throws.
-/

namespace HttpRaftKv.WebSocket

namespace WebSocketFrame

/-- What a step of the parser can do wrong. -/
inductive Fault
  | outOfBounds
  | lengthError
deriving DecidableEq, Repr

/-- The bytes that are read at a place of the buffer. -/
def readBytes (data : Bytes) (offset size : ℕ) : Checked Fault Bytes := do
  Checked.require (offset + size ≤ data.length) Fault.outOfBounds
  return (data.drop offset).take size

def readByte (data : Bytes) (offset : ℕ) : Checked Fault UInt8 :=
  match data[offset]? with
  | none => .error .outOfBounds
  | some byte => .ok byte

/-- The constructor of `std::string` from a pointer and a length. -/
def readString (data : Bytes) (offset size : ℕ) : Checked Fault Bytes := do
  Checked.require (size < 2 ^ 63) Fault.lengthError
  readBytes data offset size

/-- The length of the payload and the offset behind it. -/
def readLength (data : Bytes) (firstLen : ℕ) : Checked Fault (Option (ℕ × ℕ)) :=
  if firstLen = 126 then
    if data.length < 4 then return none
    else do
      let extLen ← readBytes data 2 2
      return some (bigEndian extLen, 4)
  else if firstLen = 127 then
    if data.length < 10 then return none
    else do
      let extLen ← readBytes data 2 8
      return some (bigEndian extLen, 10)
  else return some (firstLen, 2)

/-- The masking key and the offset behind it. -/
def readMaskingKey (data : Bytes) (mask : Bool) (offset : ℕ) :
    Checked Fault (Option (Bytes × ℕ)) :=
  if mask then
    if data.length < offset + 4 then return none
    else do
      let maskKey ← readBytes data offset 4
      return some (maskKey, offset + 4)
  else return some ([0, 0, 0, 0], offset)

/-- What is read after the first two bytes. -/
def readHeaderFrom (data : Bytes) (byte0 byte1 : UInt8) : Checked Fault (Option Header) := do
  let mask : Bool := 128 ≤ byte1.toNat
  match ← readLength data (byte1.toNat % 128) with
  | none => return none
  | some (payloadLen, offset) =>
      match ← readMaskingKey data mask offset with
      | none => return none
      | some (maskingKey, offset) =>
          return some {
            fin := 128 ≤ byte0.toNat
            opCode := .ofBits (byte0.toNat % 16)
            mask := mask
            payloadLen := payloadLen
            maskingKey := maskingKey
            offset := offset }

def readHeader (data : Bytes) : Checked Fault (Option Header) :=
  if data.length < 2 then return none
  else do
    let byte0 ← readByte data 0
    let byte1 ← readByte data 1
    readHeaderFrom data byte0 byte1

/-- `parseFrame` with its reads. -/
def readFrame (data : Bytes) : Checked Fault (Option WebSocketFrame) := do
  match ← readHeader data with
  | none => return none
  | some header =>
      if data.length < (header.offset + header.payloadLen) % 2 ^ 64 then return none
      else do
        let payload ← readString data header.offset header.payloadLen
        return some {
          fin := header.fin
          opCode := header.opCode
          mask := header.mask
          payloadLen := header.payloadLen
          maskingKey := header.maskingKey
          payload := if header.mask then applyMask header.maskingKey payload else payload }

/-! ## The reads are those of the parser -/

theorem readBytes_eq_ok {data : Bytes} {offset size : ℕ} (h : offset + size ≤ data.length) :
    readBytes data offset size = .ok ((data.drop offset).take size) :=
  Checked.require_bind h

theorem readLength_eq {data : Bytes} (h : 2 ≤ data.length) (firstLen : ℕ) :
    readLength data firstLen = .ok (
      if data.length < 2 + extendedSize firstLen then none
      else
        some (if extendedSize firstLen = 0 then firstLen
            else bigEndian ((data.drop 2).take (extendedSize firstLen)),
          2 + extendedSize firstLen)) := by
  unfold readLength
  by_cases hmedium : firstLen = 126
  · have hsize : extendedSize firstLen = 2 := by rw [extendedSize, if_pos hmedium]
    rw [if_pos hmedium, hsize, if_neg (by decide : ¬ 2 = 0)]
    split_ifs
    · rfl
    · rw [readBytes_eq_ok (by omega)]
      rfl
  · by_cases hlong : firstLen = 127
    · have hsize : extendedSize firstLen = 8 := by
        rw [extendedSize, if_neg hmedium, if_pos hlong]
      rw [if_neg hmedium, if_pos hlong, hsize, if_neg (by decide : ¬ 8 = 0)]
      split_ifs
      · rfl
      · rw [readBytes_eq_ok (by omega)]
        rfl
    · have hsize : extendedSize firstLen = 0 := by
        rw [extendedSize, if_neg hmedium, if_neg hlong]
      rw [if_neg hmedium, if_neg hlong, hsize, if_pos rfl, if_neg (by omega)]
      rfl

theorem readMaskingKey_eq (data : Bytes) (mask : Bool) (offset : ℕ) :
    readMaskingKey data mask offset = .ok (
      if mask = true ∧ data.length < offset + 4 then none
      else
        some (if mask then (data.drop offset).take 4 else [0, 0, 0, 0],
          offset + if mask then 4 else 0)) := by
  unfold readMaskingKey
  cases mask with
  | false => simp [pure, Except.pure]
  | true =>
      simp only [if_true, true_and]
      split_ifs
      · rfl
      · rw [readBytes_eq_ok (by omega)]
        rfl

theorem readHeaderFrom_eq (byte0 byte1 : UInt8) (rest : Bytes) :
    readHeaderFrom (byte0 :: byte1 :: rest) byte0 byte1 =
      .ok (parseHeader (byte0 :: byte1 :: rest)) := by
  have hlength : ∀ size, (byte0 :: byte1 :: rest).length < 2 + size ↔ rest.length < size := by
    intro size
    rw [List.length_cons, List.length_cons]
    omega
  have hdrop : ∀ size, (byte0 :: byte1 :: rest).drop (2 + size) = rest.drop size := by
    intro size
    rw [← List.drop_drop]
    rfl
  unfold readHeaderFrom
  rw [@readLength_eq (byte0 :: byte1 :: rest) (by simp), parseHeader_cons_cons]
  simp only [hlength]
  by_cases hsize : rest.length < extendedSize (byte1.toNat % 128)
  · rw [if_pos hsize, if_pos hsize]
    rfl
  · rw [if_neg hsize, if_neg hsize]
    change (readMaskingKey _ _ _ >>= _) = _
    rw [readMaskingKey_eq]
    simp only [Nat.add_assoc, hlength, hdrop, decide_eq_true_eq]
    by_cases hkey : 128 ≤ byte1.toNat ∧ rest.length < extendedSize (byte1.toNat % 128) + 4
    · rw [if_pos hkey, if_pos hkey]
      rfl
    · rw [if_neg hkey, if_neg hkey]
      rfl

/-- No read before the payload leaves the buffer. -/
theorem readHeader_eq (data : Bytes) : readHeader data = .ok (parseHeader data) := by
  match data with
  | [] => rfl
  | [_] => rfl
  | byte0 :: byte1 :: rest =>
      unfold readHeader
      rw [if_neg (by simp), ← readHeaderFrom_eq]
      rfl

/-- The result of `readFrame` for a result of `parseFrame`. -/
def Parsed.toChecked : Parsed → Checked Fault (Option WebSocketFrame)
  | .incomplete => .ok none
  | .parsed frame => .ok (some frame)
  | .thrown => .error .lengthError

/-- The reads of the payload stay inside the buffer too. -/
theorem readFrame_eq (data : Bytes) : readFrame data = (parseFrame data).toChecked := by
  unfold readFrame
  rw [readHeader_eq]
  cases hheader : parseHeader data with
  | none =>
      simp only [parseFrame, hheader]
      rfl
  | some header =>
      have hoffset := (headerOf hheader).le
      change (if _ then _ else _) = _
      rw [parseFrame_of_header hheader]
      by_cases hlength : data.length < (header.offset + header.payloadLen) % 2 ^ 64
      · rw [if_pos hlength, if_pos hlength]
        rfl
      · rw [if_neg hlength, if_neg hlength]
        by_cases hlarge : 2 ^ 63 ≤ header.payloadLen
        · rw [if_pos hlarge, readString, Checked.require, if_neg (by omega)]
          rfl
        · rw [Nat.mod_eq_of_lt (by omega)] at hlength
          rw [if_neg hlarge, readString, Checked.require_bind (by omega),
            readBytes_eq_ok (by omega)]
          rfl

/-! ## Lengths that are too large -/

/-- The number of bytes before the payload, as the second byte gives it. -/
def headerSize (data : Bytes) : ℕ :=
  let byte1 := (data.getD 1 0).toNat
  2 + extendedSize (byte1 % 128) + if 128 ≤ byte1 then 4 else 0

/-- The length of the payload, as it stands in the header. -/
def announcedLen (data : Bytes) : ℕ :=
  let firstLen := (data.getD 1 0).toNat % 128
  if extendedSize firstLen = 0 then firstLen
  else bigEndian ((data.drop 2).take (extendedSize firstLen))

theorem bigEndian_lt (bytes : Bytes) : bigEndian bytes < 256 ^ bytes.length := by
  induction bytes using List.reverseRecOn with
  | nil => decide
  | append_singleton bytes b ih =>
      have hlast : bigEndian (bytes ++ [b]) = 256 * bigEndian bytes + b.toNat := by
        simp [bigEndian]
      have hb := b.toNat_lt
      rw [hlast, List.length_append, List.length_singleton, Nat.pow_succ]
      omega

theorem announcedLen_lt (data : Bytes) : announcedLen data < 2 ^ 64 := by
  unfold announcedLen
  simp only
  split_ifs
  · omega
  · refine Nat.lt_of_lt_of_le (bigEndian_lt _) ?_
    have hlength : ((data.drop 2).take (extendedSize ((data.getD 1 0).toNat % 128))).length ≤ 8 :=
      Nat.le_trans (List.length_take_le _ _) (extendedSize_le _)
    exact Nat.pow_le_pow_right (by decide) hlength

theorem parseHeader_eq_none_iff {data : Bytes} :
    parseHeader data = none ↔ data.length < headerSize data := by
  match data with
  | [] => simp [parseHeader, headerSize, extendedSize]
  | [_] => simp [parseHeader, headerSize, extendedSize]
  | byte0 :: byte1 :: rest =>
      rw [parseHeader_cons_cons]
      simp only [headerSize, List.length_cons, List.getD_cons_succ, List.getD_cons_zero]
      split_ifs
      all_goals simp
      all_goals omega

theorem parseHeader_fields {data : Bytes} {header : Header} (h : parseHeader data = some header) :
    header.offset = headerSize data ∧ header.payloadLen = announcedLen data := by
  match data, h with
  | byte0 :: byte1 :: rest, h =>
      rw [parseHeader_cons_cons] at h
      obtain ⟨-, h⟩ := Option.ite_none_left_eq_some.mp h
      obtain ⟨-, h⟩ := Option.ite_none_left_eq_some.mp h
      cases h
      exact ⟨rfl, rfl⟩

/-- The header is complete, and the end of the payload that it announces is beyond the
largest `size_t`, or the payload is there and too long for a text. -/
def Overlong (data : Bytes) : Prop :=
  headerSize data ≤ data.length ∧
    (2 ^ 64 ≤ headerSize data + announcedLen data ∨
      2 ^ 63 ≤ announcedLen data ∧ headerSize data + announcedLen data ≤ data.length)

instance (data : Bytes) : Decidable (Overlong data) :=
  inferInstanceAs (Decidable (_ ∧ (_ ∨ _ ∧ _)))

/-- The parser needs more bytes, or finds a frame that lies inside the buffer. -/
def Inside (data : Bytes) : Prop :=
  readFrame data = .ok none ∨
    ∃ frame, readFrame data = .ok (some frame) ∧
      headerSize data + frame.payloadLen ≤ data.length

/-- The parser never reads beyond the end, and it throws exactly on an overlong
frame. -/
theorem parseFrame_eq_thrown_iff {data : Bytes} : parseFrame data = .thrown ↔ Overlong data := by
  cases hheader : parseHeader data with
  | none =>
      have hlength := parseHeader_eq_none_iff.mp hheader
      simp only [parseFrame, hheader, Overlong]
      exact iff_of_false Parsed.noConfusion (fun h ↦ Nat.not_le_of_lt hlength h.1)
  | some header =>
      obtain ⟨hoffset, hlen⟩ := parseHeader_fields hheader
      have hsmall := announcedLen_lt data
      have hof := headerOf hheader
      have hle := hof.le
      have hlength := hof.length
      rw [parseFrame_of_header hheader, hlen]
      rw [hoffset] at hle hlength ⊢
      unfold Overlong
      by_cases hwrap : 2 ^ 64 ≤ headerSize data + announcedLen data
      · -- What is left of the sum is less than the size of the header.
        rw [if_neg (by omega), if_pos (by omega)]
        exact iff_of_true rfl ⟨hlength, .inl hwrap⟩
      · rw [Nat.mod_eq_of_lt (by omega)]
        split_ifs with hshort hlarge
        · exact iff_of_false id (by omega)
        · exact iff_of_true rfl ⟨hlength, .inr ⟨hlarge, by omega⟩⟩
        · exact iff_of_false id (by omega)

/-- A frame that is found lies inside the buffer. -/
theorem headerSize_add_payloadLen_le {data : Bytes} {frame : WebSocketFrame}
    (h : parseFrame data = .parsed frame) : headerSize data + frame.payloadLen ≤ data.length := by
  obtain ⟨header, hheader, -, hlength, rfl⟩ := parseFrame_eq_parsed.mp h
  rw [← (parseHeader_fields hheader).1]
  exact hlength

theorem not_inside_of_fault {data : Bytes} {fault : Fault} (h : readFrame data = .error fault) :
    ¬ Inside data := by
  unfold Inside
  rw [h]
  rintro (h | ⟨frame, h, -⟩)
  · cases h
  · cases h

/-- The parser stays inside the buffer and does not throw exactly if no overlong frame
is announced. -/
theorem inside_iff (data : Bytes) : Inside data ↔ ¬ Overlong data := by
  rw [← parseFrame_eq_thrown_iff]
  have hreads := readFrame_eq data
  cases hparse : parseFrame data with
  | incomplete =>
      rw [hparse] at hreads
      exact iff_of_true (.inl hreads) Parsed.noConfusion
  | parsed frame =>
      rw [hparse] at hreads
      exact iff_of_true (.inr ⟨frame, hreads, headerSize_add_payloadLen_le hparse⟩)
        Parsed.noConfusion
  | thrown =>
      rw [hparse] at hreads
      exact iff_of_false (not_inside_of_fault hreads) (fun h ↦ h rfl)

/-- The length is the largest one of eight bytes, and the sum with the ten bytes of the
header is nine. -/
theorem not_inside_wrapped :
    ¬ Inside [0x82, 0x7f, 0xff, 0xff, 0xff, 0xff, 0xff, 0xff, 0xff, 0xff] := by
  have hread : readFrame [0x82, 0x7f, 0xff, 0xff, 0xff, 0xff, 0xff, 0xff, 0xff, 0xff] =
      .error .lengthError := rfl
  exact not_inside_of_fault hread

end WebSocketFrame

end HttpRaftKv.WebSocket
