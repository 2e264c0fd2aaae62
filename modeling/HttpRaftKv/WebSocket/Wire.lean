import HttpRaftKv.WebSocket.Frames

/-!
# Frames on the wire

The format of a frame, independently of the parser.  A length may be given in a
longer form than it needs.  The parser finds every frame of this format.
-/

namespace HttpRaftKv.WebSocket

/-- The three ways to give the length of a payload. -/
inductive LengthForm
  | short
  | medium
  | long
deriving DecidableEq, Repr

namespace LengthForm

/-- The largest length that can be given. -/
def max : LengthForm → ℕ
  | .short => 125
  | .medium => 2 ^ 16 - 1
  | .long => 2 ^ 63 - 1

/-- What stands in the second byte. -/
def first : LengthForm → ℕ → ℕ
  | .short, length => length
  | .medium, _ => 126
  | .long, _ => 127

/-- What stands behind the second byte. -/
def extended : LengthForm → ℕ → Bytes
  | .short, _ => []
  | .medium, length => toBigEndian 2 length
  | .long, length => toBigEndian 8 length

end LengthForm

/-- A frame, of which the first byte has the flags and the opcode.  The payload is
the one before the masking. -/
structure Wire where
  byte0 : UInt8
  form : LengthForm
  key : Option Bytes
  payload : Bytes
  length_key : ∀ k ∈ key, k.length = 4
  length_payload : payload.length ≤ form.max

namespace Wire

/-- The payload as it is sent. -/
def sent (w : Wire) : Bytes :=
  match w.key with
  | none => w.payload
  | some key => applyMask key w.payload

def bytes (w : Wire) : Bytes :=
  w.byte0 :: UInt8.ofNat ((if w.key.isSome then 128 else 0) + w.form.first w.payload.length) ::
    (w.form.extended w.payload.length ++ (w.key.getD [] ++ w.sent))

/-- The frame that is to be found. -/
def frame (w : Wire) : WebSocketFrame where
  fin := 128 ≤ w.byte0.toNat
  opCode := .ofBits (w.byte0.toNat % 16)
  mask := w.key.isSome
  payloadLen := w.payload.length
  maskingKey := w.key.getD [0, 0, 0, 0]
  payload := w.payload

end Wire

/-! ## Numbers and masks -/

theorem length_toBigEndian (size n : ℕ) : (toBigEndian size n).length = size := by
  induction size generalizing n with
  | zero => rfl
  | succ size ih => rw [toBigEndian, List.length_append, ih, List.length_singleton]

theorem bigEndian_toBigEndian (size n : ℕ) : bigEndian (toBigEndian size n) = n % 256 ^ size := by
  induction size generalizing n with
  | zero => simp [toBigEndian, bigEndian, Nat.mod_one]
  | succ size ih =>
      have hlast : bigEndian (toBigEndian (size + 1) n) =
          256 * bigEndian (toBigEndian size (n / 256)) + (UInt8.ofNat n).toNat := by
        simp [toBigEndian, bigEndian]
      rw [hlast, ih, Nat.pow_succ', Nat.mod_mul, UInt8.toNat_ofNat']
      omega

theorem applyMask_applyMask (key payload : Bytes) :
    applyMask key (applyMask key payload) = payload := by
  apply List.ext_getElem
  · simp [applyMask]
  · intro i _ _
    simp only [applyMask, List.getElem_mapIdx]
    rw [UInt8.xor_assoc, UInt8.xor_self, UInt8.xor_zero]

/-! ## Finding a frame -/

namespace LengthForm

theorem first_lt {form : LengthForm} {length : ℕ} (h : length ≤ form.max) :
    form.first length < 128 := by
  cases form with
  | short => exact Nat.lt_of_le_of_lt h (by decide)
  | medium => exact (by decide : 126 < 128)
  | long => exact (by decide : 127 < 128)

theorem extendedSize_first {form : LengthForm} {length : ℕ} (h : length ≤ form.max) :
    WebSocketFrame.extendedSize (form.first length) = (form.extended length).length := by
  cases form with
  | short =>
      change length ≤ 125 at h
      rw [first, WebSocketFrame.extendedSize, if_neg (by omega), if_neg (by omega)]
      rfl
  | medium => rfl
  | long => rfl

/-- The length is read back. -/
theorem read_length {form : LengthForm} {length : ℕ} (h : length ≤ form.max) :
    (if (form.extended length).length = 0 then form.first length
      else bigEndian (form.extended length)) = length := by
  cases form with
  | short => rfl
  | medium =>
      change length ≤ 2 ^ 16 - 1 at h
      rw [extended, length_toBigEndian, if_neg (by decide), bigEndian_toBigEndian]
      exact Nat.mod_eq_of_lt (by omega)
  | long =>
      change length ≤ 2 ^ 63 - 1 at h
      rw [extended, length_toBigEndian, if_neg (by decide), bigEndian_toBigEndian]
      exact Nat.mod_eq_of_lt (by omega)

theorem max_lt (form : LengthForm) : form.max < 2 ^ 63 := by
  cases form with
  | short => decide
  | medium => decide
  | long => decide

end LengthForm

namespace Wire

variable (w : Wire)

theorem length_sent : w.sent.length = w.payload.length := by
  unfold sent
  split
  · rfl
  · rw [WebSocketFrame.length_applyMask]

/-- The second byte has the bit of the mask and the start of the length. -/
theorem toNat_byte1 :
    ∃ byte1, w.bytes = w.byte0 :: byte1 ::
        (w.form.extended w.payload.length ++ (w.key.getD [] ++ w.sent)) ∧
      byte1.toNat % 128 = w.form.first w.payload.length ∧
      (128 ≤ byte1.toNat ↔ w.key.isSome = true) := by
  have hfirst := LengthForm.first_lt w.length_payload
  have htoNat : ∀ n < 256, (UInt8.ofNat n).toNat = n := by
    intro n hn
    rw [UInt8.toNat_ofNat', Nat.mod_eq_of_lt hn]
  refine ⟨_, rfl, ?_⟩
  cases w.key.isSome with
  | false =>
      rw [if_neg Bool.false_ne_true, htoNat _ (by omega), Nat.zero_add]
      exact ⟨Nat.mod_eq_of_lt hfirst, iff_of_false (by omega) Bool.false_ne_true⟩
  | true =>
      rw [if_pos rfl, htoNat _ (by omega)]
      exact ⟨by omega, iff_of_true (by omega) rfl⟩

theorem key_cases :
    (w.key = none ∧ w.sent = w.payload) ∨
      ∃ key, w.key = some key ∧ key.length = 4 ∧ w.sent = applyMask key w.payload := by
  unfold sent
  cases hkey : w.key with
  | none => exact .inl ⟨rfl, rfl⟩
  | some key => exact .inr ⟨key, rfl, w.length_key key hkey, rfl⟩

theorem parseHeader_bytes :
    WebSocketFrame.parseHeader w.bytes =
      some {
        fin := w.frame.fin
        opCode := w.frame.opCode
        mask := w.frame.mask
        payloadLen := w.frame.payloadLen
        maskingKey := w.frame.maskingKey
        offset := 2 + (w.form.extended w.payload.length).length + (w.key.getD []).length } := by
  obtain ⟨byte1, hbytes, hfirst, hmask⟩ := w.toNat_byte1
  have hsize := LengthForm.extendedSize_first w.length_payload
  have hlength := LengthForm.read_length w.length_payload
  rw [hbytes, WebSocketFrame.parseHeader_cons_cons, hfirst, hsize]
  simp only [hmask, List.take_left, List.drop_left, hlength]
  rw [if_neg (by rw [List.length_append]; omega)]
  rcases w.key_cases with ⟨hkey, -⟩ | ⟨key, hkey, hfour, -⟩
  · simp [frame, hkey]
  · simp [frame, hkey, hfour]

/-- What stands before the payload. -/
theorem exists_bytes_eq :
    ∃ head, w.bytes = head ++ w.sent ∧
      head.length = 2 + (w.form.extended w.payload.length).length + (w.key.getD []).length := by
  obtain ⟨byte1, hbytes, -⟩ := w.toNat_byte1
  refine ⟨w.byte0 :: byte1 :: (w.form.extended w.payload.length ++ w.key.getD []), ?_, ?_⟩
  · rw [hbytes]
    simp
  · simp only [List.length_cons, List.length_append]
    omega

/-- The parser finds the frame and its end. -/
theorem whole_bytes : frameDecoder.Whole w.bytes w.frame := by
  have hmax := Nat.lt_of_le_of_lt w.length_payload w.form.max_lt
  have hheader := w.parseHeader_bytes
  obtain ⟨head, hbytes, hhead⟩ := w.exists_bytes_eq
  have hlength : w.bytes.length = 2 + (w.form.extended w.payload.length).length +
      (w.key.getD []).length + w.payload.length := by
    rw [hbytes, List.length_append, hhead, w.length_sent]
  refine nextFrame_eq_some.mpr ⟨?_, ?_⟩
  · refine WebSocketFrame.parseFrame_eq_parsed.mpr
      ⟨_, hheader, hmax, Nat.le_of_eq hlength.symm, ?_⟩
    have hpayload : (w.bytes.drop (2 + (w.form.extended w.payload.length).length +
        (w.key.getD []).length)).take w.payload.length = w.sent := by
      rw [hbytes, ← hhead, List.drop_left, ← w.length_sent, List.take_length]
    unfold WebSocketFrame.ofHeader
    simp only [frame, hpayload]
    rcases w.key_cases with ⟨hkey, hsent⟩ | ⟨key, hkey, -, hsent⟩
    · simp [hkey, hsent]
    · simp [hkey, hsent, applyMask_applyMask]
  · rw [(WebSocketFrame.headerOf hheader).wireSize, List.drop_eq_nil_iff]
    exact Nat.le_of_eq hlength

end Wire

end HttpRaftKv.WebSocket
