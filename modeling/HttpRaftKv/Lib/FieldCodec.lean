import HttpRaftKv.Lib.Decoder
import HttpRaftKv.Lib.Varint
import Mathlib.Data.Option.Basic

/-!
# Messages of numbered fields

A message is written field by field.  In front of each payload stands a tag with the number
of the field and the kind of the payload: a number in base 128, or some bytes with their
length.  A reader takes the fields in any order and skips those that it does not know.

A message type says of each of its fields which payloads are written for a value and what
becomes of the value with one more payload.  What has been written is read back, what is
written behind it is merged into it, and no part of it is read as the message.
-/

namespace HttpRaftKv

/-- What stands behind a tag.  A number has 64 bits. -/
inductive Payload
  | number (n : ℕ)
  | bytes (bs : Bytes)
deriving DecidableEq, Repr

namespace FieldCodec

/-! ## One field -/

/-- How a field is skipped that is a group: it ends where its bytes say. -/
structure GroupReader where
  skip : ℕ → Bytes → Option Bytes
  length_le : ∀ {number bs rest}, skip number bs = some rest → rest.length ≤ bs.length
  stable : ∀ {number bs rest}, skip number bs = some rest →
    ∀ more, skip number (bs ++ more) = some (rest ++ more)

def wireType : Payload → ℕ
  | .number _ => 0
  | .bytes _ => 2

def writePayload : Payload → Bytes
  | .number n => Varint.write 10 n
  | .bytes bs => Varint.write 5 bs.length ++ bs

def writeField (field : ℕ × Payload) : Bytes :=
  Varint.write 5 (8 * field.1 + wireType field.2) ++ writePayload field.2

def writeFields (fields : List (ℕ × Payload)) : Bytes :=
  fields.flatMap writeField

/-- So many bytes at the front. -/
def readBytes (size : ℕ) (bs : Bytes) : Option (Bytes × Bytes) :=
  if size ≤ bs.length then some (bs.take size, bs.drop size) else none

/-- The payload behind a tag, or nothing where it is of a kind that no message has. -/
def readPayload (groups : GroupReader) (number kind : ℕ) (bs : Bytes) :
    Option (Option Payload × Bytes) :=
  match kind with
  | 0 => do
      let (n, rest) ← Varint.read 10 bs
      some (some (.number (n % 2 ^ 64)), rest)
  | 1 => do
      let (_, rest) ← readBytes 8 bs
      some (none, rest)
  | 2 => do
      let (size, rest) ← Varint.read 5 bs
      let (value, rest) ← readBytes size rest
      some (some (.bytes value), rest)
  | 3 => do
      let rest ← groups.skip number bs
      some (none, rest)
  | 5 => do
      let (_, rest) ← readBytes 4 bs
      some (none, rest)
  | _ => none

/-- The field at the front.  No field has the number zero. -/
def readField (groups : GroupReader) (bs : Bytes) : Option (Option (ℕ × Payload) × Bytes) := do
  let (tag, rest) ← Varint.read 5 bs
  let number := tag % 2 ^ 32 / 8
  if number = 0 then none
  else
    let (payload, rest) ← readPayload groups number (tag % 8) rest
    some (payload.map (number, ·), rest)

/-- A field that can be written. -/
structure Writable (field : ℕ × Payload) : Prop where
  number_pos : 0 < field.1
  number_lt : field.1 < 2 ^ 29
  payload_lt : match field.2 with
    | .number n => n < 2 ^ 64
    | .bytes bs => bs.length < 2 ^ 32

section

variable (groups : GroupReader)

theorem readPayload_write (number : ℕ) {p : Payload} (rest : Bytes)
    (h : match p with | .number n => n < 2 ^ 64 | .bytes bs => bs.length < 2 ^ 32) :
    readPayload groups number (wireType p) (writePayload p ++ rest) = some (some p, rest) := by
  cases p with
  | number n =>
      have hn : n < 2 ^ 64 := h
      have hread : Varint.read 10 (Varint.write 10 n ++ rest) = some (n, rest) :=
        Varint.read_write (by decide) (hn.trans (by decide)) le_rfl rest
      simp only [readPayload, wireType, writePayload, hread]
      change some (some (Payload.number (n % 2 ^ 64)), rest) = _
      rw [Nat.mod_eq_of_lt hn]
  | bytes bs =>
      have hlength : bs.length < 2 ^ 32 := h
      have hread : Varint.read 5 (Varint.write 5 bs.length ++ (bs ++ rest)) =
          some (bs.length, bs ++ rest) :=
        Varint.read_write (by decide) (hlength.trans (by decide)) le_rfl (bs ++ rest)
      rw [← List.append_assoc] at hread
      simp only [readPayload, wireType, writePayload, hread]
      change (readBytes bs.length (bs ++ rest)).bind _ = _
      rw [readBytes, if_pos (by simp), List.take_left, List.drop_left]
      rfl

/-- A field that has been written is read. -/
theorem readField_writeField {field : ℕ × Payload} (h : Writable field) (rest : Bytes) :
    readField groups (writeField field ++ rest) = some (some field, rest) := by
  obtain ⟨number, p⟩ := field
  have hpos : 0 < number := h.number_pos
  have hlt : number < 2 ^ 29 := h.number_lt
  have hkind : wireType p < 8 := by
    cases p with
    | number n => exact (by decide : 0 < 8)
    | bytes bs => exact (by decide : 2 < 8)
  have hread : Varint.read 5 (Varint.write 5 (8 * number + wireType p) ++
      (writePayload p ++ rest)) = some (8 * number + wireType p, writePayload p ++ rest) :=
    Varint.read_write (by decide) (by omega) le_rfl (writePayload p ++ rest)
  rw [← List.append_assoc] at hread
  have hnumber : (8 * number + wireType p) % 2 ^ 32 / 8 = number := by omega
  have hmod : (8 * number + wireType p) % 8 = wireType p := by omega
  unfold readField writeField
  dsimp only
  rw [hread]
  change (if _ then none else _) = _
  rw [hnumber, if_neg (by omega), hmod, readPayload_write groups number rest h.payload_lt]
  rfl

theorem readBytes_spec {size : ℕ} {bs value rest : Bytes}
    (h : readBytes size bs = some (value, rest)) :
    rest.length ≤ bs.length ∧
      ∀ more, readBytes size (bs ++ more) = some (value, rest ++ more) := by
  unfold readBytes at h
  split_ifs at h with hsize
  cases h
  refine ⟨by rw [List.length_drop]; omega, fun more ↦ ?_⟩
  rw [readBytes, if_pos (by rw [List.length_append]; omega), List.take_append_of_le_length hsize,
    List.drop_append_of_le_length hsize]

/-- A payload is not longer than what there is, and bytes behind it are not looked at. -/
theorem readPayload_spec {number kind : ℕ} {bs rest : Bytes} {p : Option Payload}
    (h : readPayload groups number kind bs = some (p, rest)) :
    rest.length ≤ bs.length ∧
      ∀ more, readPayload groups number kind (bs ++ more) = some (p, rest ++ more) := by
  unfold readPayload at h ⊢
  split at h
  · obtain ⟨⟨n, tail⟩, hread, heq⟩ := Option.bind_eq_some_iff.mp h
    cases heq
    refine ⟨(Varint.read_lt hread).1.le, fun more ↦ ?_⟩
    rw [Varint.read_append hread]
    rfl
  · obtain ⟨⟨value, tail⟩, hread, heq⟩ := Option.bind_eq_some_iff.mp h
    cases heq
    obtain ⟨hle, hmore⟩ := readBytes_spec hread
    refine ⟨hle, fun more ↦ ?_⟩
    rw [hmore]
    rfl
  · obtain ⟨⟨size, tail⟩, hread, heq⟩ := Option.bind_eq_some_iff.mp h
    obtain ⟨⟨value, tail'⟩, hvalue, heq⟩ := Option.bind_eq_some_iff.mp heq
    cases heq
    obtain ⟨hle, hmore⟩ := readBytes_spec hvalue
    refine ⟨hle.trans (Varint.read_lt hread).1.le, fun more ↦ ?_⟩
    rw [Varint.read_append hread]
    change (readBytes size (tail ++ more)).bind _ = _
    rw [hmore]
    rfl
  · obtain ⟨tail, hread, heq⟩ := Option.bind_eq_some_iff.mp h
    cases heq
    refine ⟨groups.length_le hread, fun more ↦ ?_⟩
    rw [groups.stable hread]
    rfl
  · obtain ⟨⟨value, tail⟩, hread, heq⟩ := Option.bind_eq_some_iff.mp h
    cases heq
    obtain ⟨hle, hmore⟩ := readBytes_spec hread
    refine ⟨hle, fun more ↦ ?_⟩
    rw [hmore]
    rfl
  · cases h

theorem readField_spec {bs rest : Bytes} {field : Option (ℕ × Payload)}
    (h : readField groups bs = some (field, rest)) :
    rest.length < bs.length ∧
      ∀ more, readField groups (bs ++ more) = some (field, rest ++ more) := by
  obtain ⟨⟨tag, tail⟩, hread, h⟩ := Option.bind_eq_some_iff.mp h
  dsimp only at h
  split_ifs at h with hnumber
  obtain ⟨⟨p, tail'⟩, hpayload, h⟩ := Option.bind_eq_some_iff.mp h
  cases h
  obtain ⟨hle, hmore⟩ := readPayload_spec groups hpayload
  refine ⟨hle.trans_lt (Varint.read_lt hread).1, fun more ↦ ?_⟩
  unfold readField
  rw [Varint.read_append hread]
  change (if _ then none else _) = _
  rw [if_neg hnumber, hmore]
  rfl

/-- Fields are taken from the front of what has arrived. -/
def decoder : Decoder UInt8 (Option (ℕ × Payload)) where
  next := readField groups
  shorter h := (readField_spec groups h).1
  stable h := (readField_spec groups h).2

end

/-! ## The loop over the fields -/

section Loop

variable {M : Type} (groups : GroupReader) (put : M → ℕ → Payload → Option M)

/-- A field that is not known changes nothing. -/
def putAny (m : M) : Option (ℕ × Payload) → Option M
  | none => some m
  | some field => put m field.1 field.2

def parseIn : ℕ → M → Bytes → Option M
  | _, m, [] => some m
  | 0, _, _ :: _ => none
  | size + 1, m, b :: bs => do
      let (field, rest) ← readField groups (b :: bs)
      let m ← putAny put m field
      parseIn size m rest

/-- The message with the fields that are read. -/
def parseOnto (m : M) (bs : Bytes) : Option M :=
  parseIn groups put bs.length m bs

theorem parseIn_eq {bs : Bytes} {m : M} {size size' : ℕ} (h : bs.length ≤ size)
    (h' : bs.length ≤ size') : parseIn groups put size m bs = parseIn groups put size' m bs := by
  induction size generalizing bs m size' with
  | zero =>
      obtain rfl := List.length_eq_zero_iff.mp (Nat.le_zero.mp h)
      cases size' with
      | zero => rfl
      | succ size' => rfl
  | succ size ih =>
      cases bs with
      | nil =>
          cases size' with
          | zero => rfl
          | succ size' => rfl
      | cons b bs =>
          cases size' with
          | zero => exact absurd h' (Nat.not_succ_le_zero _)
          | succ size' =>
              rw [parseIn, parseIn]
              cases hread : readField groups (b :: bs) with
              | none => rfl
              | some p =>
                  obtain ⟨field, rest⟩ := p
                  have hlength := (readField_spec groups hread).1
                  rw [List.length_cons] at h h' hlength
                  change (putAny put m field).bind _ = (putAny put m field).bind _
                  cases putAny put m field with
                  | none => rfl
                  | some m' => exact ih (by omega) (by omega)

theorem parseOnto_of_read {bs rest : Bytes} {field : Option (ℕ × Payload)}
    (h : readField groups bs = some (field, rest)) (m : M) :
    parseOnto groups put m bs =
      (putAny put m field).bind fun m ↦ parseOnto groups put m rest := by
  have hlength := (readField_spec groups h).1
  obtain ⟨b, bs, rfl⟩ := List.exists_cons_of_length_pos (Nat.zero_lt_of_lt hlength)
  unfold parseOnto
  rw [List.length_cons] at hlength ⊢
  rw [parseIn, h]
  change (putAny put m field).bind _ = _
  cases putAny put m field with
  | none => rfl
  | some m' => exact parseIn_eq groups put (by omega) le_rfl

theorem parseOnto_of_none {bs : Bytes} (hbs : bs ≠ []) (h : readField groups bs = none) (m : M) :
    parseOnto groups put m bs = none := by
  obtain ⟨b, bs, rfl⟩ := List.exists_cons_of_ne_nil hbs
  rw [parseOnto, List.length_cons, parseIn, h]
  rfl

/-- Fields that have been written are put one after another. -/
theorem parseOnto_writeFields {fields : List (ℕ × Payload)} (h : ∀ field ∈ fields, Writable field)
    (m : M) (rest : Bytes) :
    parseOnto groups put m (writeFields fields ++ rest) =
      (fields.foldlM (fun m field ↦ put m field.1 field.2) m).bind
        fun m ↦ parseOnto groups put m rest := by
  induction fields generalizing m with
  | nil => rfl
  | cons field fields ih =>
      obtain ⟨hfield, hfields⟩ := List.forall_mem_cons.mp h
      rw [writeFields, List.flatMap_cons, ← writeFields, List.append_assoc,
        parseOnto_of_read groups put (readField_writeField groups hfield _), List.foldlM_cons]
      change (put m field.1 field.2).bind _ = ((put m field.1 field.2).bind _).bind _
      cases put m field.1 field.2 with
      | none => rfl
      | some m' => exact ih hfields m'

/-- A part of some fields is read only if it ends behind one of them. -/
theorem eq_take_of_parseOnto {fields : List (ℕ × Payload)} (h : ∀ field ∈ fields, Writable field)
    {bs : Bytes} (hpart : bs <+: writeFields fields) {m m' : M}
    (hparse : parseOnto groups put m bs = some m') :
    ∃ k, bs = writeFields (fields.take k) := by
  induction fields generalizing bs m with
  | nil => exact ⟨0, List.prefix_nil.mp hpart⟩
  | cons field fields ih =>
      obtain ⟨hfield, hfields⟩ := List.forall_mem_cons.mp h
      by_cases hbs : bs = []
      · exact ⟨0, hbs⟩
      obtain ⟨more, hmore⟩ := hpart
      rw [writeFields, List.flatMap_cons, ← writeFields] at hmore
      have hwhole : (decoder groups).Whole (writeField field) (some field) := by
        have hread := readField_writeField groups hfield []
        rwa [List.append_nil] at hread
      have hnext : readField groups bs = _ := hwhole.next_eq hmore
      split_ifs at hnext with hlength
      · rw [parseOnto_of_read groups put hnext] at hparse
        obtain ⟨m'', -, hparse⟩ := Option.bind_eq_some_iff.mp hparse
        obtain ⟨rest, rfl⟩ : writeField field <+: bs :=
          List.prefix_of_prefix_length_le (hmore ▸ List.prefix_append _ _)
            (List.prefix_append bs more) hlength
        rw [List.drop_left] at hparse
        rw [List.append_assoc] at hmore
        obtain ⟨k, hk⟩ := ih hfields ⟨more, List.append_cancel_left hmore⟩ hparse
        refine ⟨k + 1, ?_⟩
        rw [hk, List.take_succ_cons, writeFields, writeFields, List.flatMap_cons]
      · rw [parseOnto_of_none groups put hbs hnext] at hparse
        cases hparse

end Loop

end FieldCodec

end HttpRaftKv
