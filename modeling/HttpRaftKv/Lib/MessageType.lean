import HttpRaftKv.Lib.FieldCodec
import Mathlib.Algebra.Order.Group.Nat
import Mathlib.Data.List.Flatten

/-!
# Message types

A type of fields says which payloads are written for a value, what a value becomes with one
more payload, and how a value is merged into another one.  A message has its fields in a
row, numbered from one.
-/

namespace HttpRaftKv

open FieldCodec

/-- The length of the payloads in bytes. -/
def payloadSize (payloads : List Payload) : ℕ :=
  (payloads.flatMap writePayload).length

/-- A type of fields.  What is written for a value can be written if it is less than two
gigabytes, it turns any value into the one with this value merged in, and no payload can
be left out of it. -/
structure FieldType (α : Type) where
  default : α
  write : α → List Payload
  add : α → Payload → Option α
  merge : α → α → α
  merge_default : ∀ a, merge default a = a
  writable : ∀ a, payloadSize (write a) < 2 ^ 31 → ∀ p ∈ write a,
    match p with
    | .number n => n < 2 ^ 64
    | .bytes bs => bs.length < 2 ^ 32
  add_write : ∀ a b, payloadSize (write b) < 2 ^ 31 →
    (write b).foldlM add a = some (merge a b)
  length_write_add : ∀ {a p b}, add a p = some b → (write b).length ≤ (write a).length + 1
  write_default : write default = []

/-- A type of fields with the type of its values. -/
structure AnyType where
  Value : Type
  type : FieldType Value

/-- The values of the fields of a message. -/
def Row : List AnyType → Type
  | [] => Unit
  | t :: ts => t.Value × Row ts

namespace Row

def default : ∀ ts, Row ts
  | [] => ()
  | t :: ts => (t.type.default, default ts)

/-- The fields that are written, of which the first has the given number. -/
def write : ∀ ts, ℕ → Row ts → List (ℕ × Payload)
  | [], _, _ => []
  | t :: ts, first, row => (t.type.write row.1).map (first, ·) ++ write ts (first + 1) row.2

/-- The field with the number gets one more payload. -/
def put : ∀ ts, ℕ → Row ts → ℕ → Payload → Option (Row ts)
  | [], _, row, _, _ => some row
  | t :: ts, first, row, number, p =>
      if number = first then (t.type.add row.1 p).map (·, row.2)
      else (put ts (first + 1) row.2 number p).map (row.1, ·)

def merge : ∀ ts, Row ts → Row ts → Row ts
  | [], _, _ => ()
  | t :: ts, row, row' => (t.type.merge row.1 row'.1, merge ts row.2 row'.2)

theorem merge_default (ts : List AnyType) (row : Row ts) : merge ts (default ts) row = row := by
  induction ts with
  | nil => rfl
  | cons t ts ih => exact Prod.ext (t.type.merge_default row.1) (ih row.2)

theorem write_default (ts : List AnyType) (first : ℕ) : write ts first (default ts) = [] := by
  induction ts generalizing first with
  | nil => rfl
  | cons t ts ih =>
      rw [write, default, t.type.write_default, ih]
      rfl

theorem number_of_mem_write {ts : List AnyType} {first : ℕ} {row : Row ts} {field : ℕ × Payload}
    (h : field ∈ write ts first row) : first ≤ field.1 ∧ field.1 < first + ts.length := by
  induction ts generalizing first with
  | nil => cases h
  | cons t ts ih =>
      rw [List.length_cons]
      rcases List.mem_append.mp h with h | h
      · obtain ⟨p, -, rfl⟩ := List.mem_map.mp h
        exact ⟨le_rfl, by omega⟩
      · have hnumber := ih h
        omega

/-- One more payload adds at most one payload to what is written. -/
theorem length_write_put {ts : List AnyType} {first number : ℕ} {row row' : Row ts} {p : Payload}
    (h : put ts first row number p = some row') :
    (write ts first row').length ≤ (write ts first row).length + 1 := by
  induction ts generalizing first with
  | nil => exact Nat.zero_le _
  | cons t ts ih =>
      rw [put] at h
      rw [write, write, List.length_append, List.length_append, List.length_map, List.length_map]
      split_ifs at h with hnumber
      · obtain ⟨value, hvalue, rfl⟩ := Option.map_eq_some_iff.mp h
        have hlength := t.type.length_write_add hvalue
        dsimp only
        omega
      · obtain ⟨rest, hrest, rfl⟩ := Option.map_eq_some_iff.mp h
        have hlength := ih hrest
        dsimp only
        omega

theorem length_write_foldlM {ts : List AnyType} {first : ℕ} (fields : List (ℕ × Payload))
    {row row' : Row ts}
    (h : fields.foldlM (fun row field ↦ put ts first row field.1 field.2) row = some row') :
    (write ts first row').length ≤ (write ts first row).length + fields.length := by
  induction fields generalizing row with
  | nil =>
      cases h
      exact le_rfl
  | cons field fields ih =>
      obtain ⟨row'', hput, h⟩ := Option.bind_eq_some_iff.mp h
      have hfirst := length_write_put hput
      have hrest := ih h
      rw [List.length_cons]
      omega

/-- Payloads of the first field change only this field. -/
theorem foldlM_first {t : AnyType} {ts : List AnyType} {first : ℕ} (payloads : List Payload)
    (row : Row (t :: ts)) :
    (payloads.map (first, ·)).foldlM
        (fun row field ↦ put (t :: ts) first row field.1 field.2) row =
      (payloads.foldlM t.type.add row.1).map (·, row.2) := by
  induction payloads generalizing row with
  | nil => rfl
  | cons p payloads ih =>
      rw [List.map_cons, List.foldlM_cons, List.foldlM_cons]
      have hput : put (t :: ts) first row first p = (t.type.add row.1 p).map (·, row.2) := by
        rw [put, if_pos rfl]
        rfl
      rw [hput]
      cases t.type.add row.1 p with
      | none => rfl
      | some value => exact ih (value, row.2)

/-- Fields with later numbers do not change the first one. -/
theorem foldlM_later {t : AnyType} {ts : List AnyType} {first : ℕ} {fields : List (ℕ × Payload)}
    (h : ∀ field ∈ fields, field.1 ≠ first) (row : Row (t :: ts)) :
    fields.foldlM (fun row field ↦ put (t :: ts) first row field.1 field.2) row =
      (fields.foldlM (fun row field ↦ put ts (first + 1) row field.1 field.2) row.2).map
        (row.1, ·) := by
  induction fields generalizing row with
  | nil => rfl
  | cons field fields ih =>
      obtain ⟨hfield, hfields⟩ := List.forall_mem_cons.mp h
      rw [List.foldlM_cons, List.foldlM_cons]
      have hput : put (t :: ts) first row field.1 field.2 =
          (put ts (first + 1) row.2 field.1 field.2).map (row.1, ·) := by
        rw [put, if_neg hfield]
        rfl
      rw [hput]
      cases put ts (first + 1) row.2 field.1 field.2 with
      | none => rfl
      | some rest => exact ih hfields (row.1, rest)

theorem payloadSize_le_writeFields {ts : List AnyType} {first : ℕ} (row : Row ts) :
    payloadSize ((write ts first row).map Prod.snd) ≤ (writeFields (write ts first row)).length := by
  unfold payloadSize writeFields
  generalize write ts first row = fields
  induction fields with
  | nil => exact le_rfl
  | cons field fields ih =>
      simp only [List.map_cons, List.flatMap_cons, List.length_append, writeField]
      omega

theorem payloadSize_append (ps qs : List Payload) :
    payloadSize (ps ++ qs) = payloadSize ps + payloadSize qs := by
  rw [payloadSize, List.flatMap_append, List.length_append]
  rfl

theorem map_snd_write (t : AnyType) (ts : List AnyType) (first : ℕ) (row : Row (t :: ts)) :
    (write (t :: ts) first row).map Prod.snd =
      t.type.write row.1 ++ (write ts (first + 1) row.2).map Prod.snd := by
  rw [write, List.map_append, List.map_map]
  congr 1
  exact List.map_id _

/-- What has been written for a row is merged into another one. -/
theorem foldlM_write {ts : List AnyType} {first : ℕ} (row row' : Row ts)
    (h : payloadSize ((write ts first row').map Prod.snd) < 2 ^ 31) :
    (write ts first row').foldlM (fun row field ↦ put ts first row field.1 field.2) row =
      some (merge ts row row') := by
  induction ts generalizing first with
  | nil => rfl
  | cons t ts ih =>
      rw [map_snd_write, payloadSize_append] at h
      rw [write, List.foldlM_append, foldlM_first,
        t.type.add_write row.1 row'.1 (by omega)]
      have hlater : ∀ field ∈ write ts (first + 1) row'.2, field.1 ≠ first := by
        intro field hfield heq
        have hnumber := (number_of_mem_write hfield).1
        omega
      refine (foldlM_later hlater (t.type.merge row.1 row'.1, row.2)).trans ?_
      rw [ih row.2 row'.2 (by omega)]
      rfl

theorem writable_of_mem_write {ts : List AnyType} {first : ℕ} {row : Row ts}
    (hfirst : 0 < first) (hlast : first + ts.length < 2 ^ 29)
    (h : payloadSize ((write ts first row).map Prod.snd) < 2 ^ 31) :
    ∀ field ∈ write ts first row, Writable field := by
  induction ts generalizing first with
  | nil => exact fun field hfield ↦ by cases hfield
  | cons t ts ih =>
      intro field hfield
      rw [map_snd_write, payloadSize_append] at h
      rw [List.length_cons] at hlast
      rcases List.mem_append.mp hfield with hfield | hfield
      · obtain ⟨p, hp, rfl⟩ := List.mem_map.mp hfield
        exact ⟨hfirst, by omega, t.type.writable row.1 (by omega) p hp⟩
      · have hnext : 0 < first + 1 := Nat.succ_pos first
        exact ih hnext (by omega) (by omega) field hfield

/-- A field with a number behind the last one changes nothing. -/
theorem put_unknown {ts : List AnyType} {first number : ℕ} (row : Row ts) (p : Payload)
    (h : first + ts.length ≤ number) : put ts first row number p = some row := by
  induction ts generalizing first with
  | nil => rfl
  | cons t ts ih =>
      rw [List.length_cons] at h
      rw [put, if_neg (by omega), ih row.2 (by omega)]
      rfl

end Row

/-- A type of messages with less than `2 ^ 28` fields, each with the number of its place. -/
structure MessageType (M : Type) where
  types : List AnyType
  length_types : types.length < 2 ^ 28
  toRow : M → Row types
  ofRow : Row types → M
  ofRow_toRow : ∀ m, ofRow (toRow m) = m
  toRow_ofRow : ∀ row, toRow (ofRow row) = row

namespace MessageType

variable {M : Type} (type : MessageType M)

def fields (m : M) : List (ℕ × Payload) :=
  Row.write type.types 1 (type.toRow m)

def serialize (m : M) : Bytes :=
  writeFields (type.fields m)

def default : M :=
  type.ofRow (Row.default type.types)

def put (m : M) (number : ℕ) (p : Payload) : Option M :=
  (Row.put type.types 1 (type.toRow m) number p).map type.ofRow

/-- The parser, on a message that may have values already. -/
def parseOnto (groups : GroupReader) (m : M) (bs : Bytes) : Option M :=
  FieldCodec.parseOnto groups type.put m bs

def parse (groups : GroupReader) (bs : Bytes) : Option M :=
  type.parseOnto groups type.default bs

/-- `MergeFrom`. -/
def merge (m m' : M) : M :=
  type.ofRow (Row.merge type.types (type.toRow m) (type.toRow m'))

theorem merge_default (m : M) : type.merge type.default m = m := by
  rw [merge, default, type.toRow_ofRow, Row.merge_default, type.ofRow_toRow]

/-- The loop on messages is the one on rows. -/
theorem foldlM_put (fields : List (ℕ × Payload)) (m : M) :
    fields.foldlM (fun m field ↦ type.put m field.1 field.2) m =
      (fields.foldlM (fun row field ↦ Row.put type.types 1 row field.1 field.2)
        (type.toRow m)).map type.ofRow := by
  induction fields generalizing m with
  | nil => exact congrArg some (type.ofRow_toRow m).symm
  | cons field fields ih =>
      rw [List.foldlM_cons, List.foldlM_cons, put]
      cases Row.put type.types 1 (type.toRow m) field.1 field.2 with
      | none => rfl
      | some row =>
          change List.foldlM _ (type.ofRow row) fields = _
          rw [ih, type.toRow_ofRow]
          rfl

theorem payloadSize_lt {m : M} (h : (type.serialize m).length < 2 ^ 31) :
    payloadSize ((type.fields m).map Prod.snd) < 2 ^ 31 :=
  (Row.payloadSize_le_writeFields _).trans_lt h

theorem writable {m : M} (h : (type.serialize m).length < 2 ^ 31) :
    ∀ field ∈ type.fields m, Writable field := by
  have hlength := type.length_types
  exact Row.writable_of_mem_write (by decide) (by omega) (type.payloadSize_lt h)

/-- A message is read back, merged into the message that was there. -/
theorem parseOnto_serialize (groups : GroupReader) (base : M) {m : M}
    (h : (type.serialize m).length < 2 ^ 31) (rest : Bytes) :
    type.parseOnto groups base (type.serialize m ++ rest) =
      type.parseOnto groups (type.merge base m) rest := by
  unfold parseOnto
  rw [serialize, parseOnto_writeFields groups type.put (type.writable h), type.foldlM_put,
    fields, Row.foldlM_write _ _ (type.payloadSize_lt h)]
  rfl

theorem parse_serialize (groups : GroupReader) {m : M} (h : (type.serialize m).length < 2 ^ 31) :
    type.parse groups (type.serialize m) = some m := by
  have hparse := type.parseOnto_serialize groups type.default h []
  rw [List.append_nil, type.merge_default] at hparse
  exact hparse

/-- A field that the type does not have is skipped, of whatever kind its payload is. -/
theorem parseOnto_unknown {groups : GroupReader} (base : M) {bs rest : Bytes}
    {field : Option (ℕ × Payload)} (hread : readField groups bs = some (field, rest))
    (hunknown : ∀ known ∈ field, type.types.length < known.1) :
    type.parseOnto groups base bs = type.parseOnto groups base rest := by
  have hput : putAny type.put base field = some base := by
    cases field with
    | none => rfl
    | some known =>
        have hnumber := hunknown known rfl
        change type.put base known.1 known.2 = some base
        rw [put, Row.put_unknown _ _ (by omega), Option.map_some, type.ofRow_toRow]
  unfold parseOnto
  rw [parseOnto_of_read groups type.put hread, hput, Option.bind_some]

/-- A part of a message is an error, or a field that was written is missing. -/
theorem eq_of_parse_part (groups : GroupReader) {m : M} {bs : Bytes}
    (hlength : (type.serialize m).length < 2 ^ 31) (hpart : bs <+: type.serialize m)
    (hparse : type.parse groups bs = some m) : bs = type.serialize m := by
  have hwritable := type.writable hlength
  obtain ⟨k, hk⟩ := eq_take_of_parseOnto groups type.put hwritable hpart hparse
  have htake : ∀ field ∈ (type.fields m).take k, Writable field :=
    fun field hfield ↦ hwritable field (List.mem_of_mem_take hfield)
  unfold parse parseOnto at hparse
  rw [hk, ← List.append_nil (writeFields _), parseOnto_writeFields groups type.put htake,
    type.foldlM_put] at hparse
  obtain ⟨m', hfold, hm'⟩ := Option.bind_eq_some_iff.mp hparse
  obtain ⟨row, hrow, rfl⟩ := Option.map_eq_some_iff.mp hfold
  cases hm'
  -- no more fields are written than have been read
  have hcount := Row.length_write_foldlM _ hrow
  have hdefault : Row.write type.types 1 (type.toRow type.default) = [] := by
    rw [default, type.toRow_ofRow, Row.write_default]
  rw [hdefault, List.length_nil, Nat.zero_add, List.length_take] at hcount
  have hfields : type.fields (type.ofRow row) = Row.write type.types 1 row := by
    rw [fields, type.toRow_ofRow]
  rw [hk, List.take_of_length_le (by rw [hfields]; omega)]
  rfl

end MessageType

/-! ## Types of fields -/

namespace FieldType

/-- A field whose value is left out if it is the default, and of which the last payload
counts. -/
structure Scalar (α : Type) [DecidableEq α] where
  default : α
  payload : α → Payload
  read : Payload → Option α
  read_payload : ∀ a, payloadSize [payload a] < 2 ^ 31 → read (payload a) = some a
  writable : ∀ a, payloadSize [payload a] < 2 ^ 31 →
    match payload a with
    | .number n => n < 2 ^ 64
    | .bytes bs => bs.length < 2 ^ 32

/-- A payload of another kind belongs to no field. -/
def Scalar.type {α : Type} [DecidableEq α] (scalar : Scalar α) : FieldType α where
  default := scalar.default
  write a := if a = scalar.default then [] else [scalar.payload a]
  add a p := some ((scalar.read p).getD a)
  merge a b := if b = scalar.default then a else b
  merge_default a := by
    split_ifs with h
    · exact h.symm
    · rfl
  writable a hsize p hp := by
    split_ifs at hsize hp with h
    · cases hp
    · rw [List.mem_singleton.mp hp]
      exact scalar.writable a hsize
  add_write a b hsize := by
    split_ifs at hsize ⊢ with h
    · rfl
    · change some ((scalar.read (scalar.payload b)).getD a) = some b
      rw [scalar.read_payload b hsize]
      rfl
  length_write_add {a p b} _ := by
    split_ifs
    · exact Nat.zero_le _
    · simp
    · simp
    · simp
  write_default := if_pos rfl

theorem payloadSize_bytes (bs : Bytes) : bs.length ≤ payloadSize [.bytes bs] := by
  simp [payloadSize, writePayload]

/-- Negative numbers are written with 64 bits, and of what is read 32 bits are taken. -/
def int32 : Scalar Int32 where
  default := 0
  payload a := .number (a.toInt % 2 ^ 64).toNat
  read
    | .number n => some (Int32.ofNat n)
    | .bytes _ => none
  read_payload a _ := by
    refine congrArg some (Int32.toInt_inj.mp ?_)
    have hlow := a.le_toInt
    have hhigh := a.toInt_lt
    have hmod : (Int32.size : ℤ) = 2 ^ 32 := rfl
    rw [Int32.toInt_ofNat', Int.toNat_of_nonneg (by omega), Int.bmod_def, hmod]
    split_ifs with h
    · omega
    · omega
  writable a _ := by
    change (a.toInt % 2 ^ 64).toNat < 2 ^ 64
    omega

def bool : Scalar Bool where
  default := false
  payload a := .number (if a then 1 else 0)
  read
    | .number n => some (n ≠ 0)
    | .bytes _ => none
  read_payload a _ := by
    cases a with
    | true => rfl
    | false => rfl
  writable a _ := by
    cases a with
    | true => exact (by decide : 1 < 2 ^ 64)
    | false => exact (by decide : 0 < 2 ^ 64)

def bytes : Scalar Bytes where
  default := []
  payload a := .bytes a
  read
    | .number _ => none
    | .bytes bs => some bs
  read_payload a _ := rfl
  writable a hsize := by
    have hlength := payloadSize_bytes a
    change a.length < 2 ^ 32
    omega

/-- A list of messages, each of which is a payload. -/
def repeated {M : Type} (groups : GroupReader) (type : MessageType M) : FieldType (List M) where
  default := []
  write ms := ms.map fun m ↦ .bytes (type.serialize m)
  add ms
    | .number _ => some ms
    | .bytes bs => (type.parse groups bs).map fun m ↦ ms ++ [m]
  merge ms ms' := ms ++ ms'
  merge_default ms := List.nil_append ms
  writable ms hsize p hp := by
    induction ms with
    | nil => cases hp
    | cons m ms ih =>
        rw [List.map_cons, ← List.singleton_append, Row.payloadSize_append] at hsize
        rw [List.map_cons, List.mem_cons] at hp
        rcases hp with rfl | hp
        · have hlength := payloadSize_bytes (type.serialize m)
          change (type.serialize m).length < 2 ^ 32
          omega
        · exact ih (by omega) hp
  add_write ms ms' hsize := by
    induction ms' generalizing ms with
    | nil => rw [List.append_nil]; rfl
    | cons m ms' ih =>
        rw [List.map_cons, ← List.singleton_append, Row.payloadSize_append] at hsize
        have hlength := payloadSize_bytes (type.serialize m)
        rw [List.map_cons, List.foldlM_cons]
        dsimp only
        rw [type.parse_serialize groups (by omega)]
        change List.foldlM _ (ms ++ [m]) _ = _
        rw [ih (ms ++ [m]) (by omega), List.append_assoc]
        rfl
  length_write_add {ms p ms'} h := by
    cases p with
    | number n =>
        cases h
        exact Nat.le_succ _
    | bytes bs =>
        obtain ⟨m, -, rfl⟩ := Option.map_eq_some_iff.mp h
        simp
  write_default := rfl

end FieldType

end HttpRaftKv
