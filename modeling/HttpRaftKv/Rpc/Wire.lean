import HttpRaftKv.Lib.Varint

/-!
# What the message library writes and reads

The message library is not part of the repository.  A message is written as
bytes and read back, and no part of its bytes is read as the message; a size is a
number in base 128.  The second half is the encoding of the header with its three
fields, as the library documents it.
-/

namespace HttpRaftKv.Rpc

/-- A type of messages.  `SerializeToString` fails above this length. -/
structure MessageCodec (α : Type) where
  serialize : α → Bytes
  parse : Bytes → Option α
  parse_serialize : ∀ a, (serialize a).length < 2 ^ 31 → parse (serialize a) = some a
  /-- Every byte of a message is needed: what is cut off is an error or a field
  that is missing. -/
  eq_of_parse_prefix : ∀ a bs, bs <+: serialize a → parse bs = some a → bs = serialize a
  /-- The fields of the message without bytes have their default values. -/
  default : α
  parse_nil : parse [] = some default

structure RpcHeader where
  service_name : Bytes
  method_name : Bytes
  args_size : UInt32
deriving DecidableEq, Repr

/-- The streams of the library and its code for the header. -/
structure Wire where
  writeVarint32 : ℕ → Bytes
  /-- What is in the variable after the call, and the rest of the stream. -/
  readVarint32 : Bytes → ℕ × Bytes
  header : MessageCodec RpcHeader
  readVarint32_write : ∀ n < 2 ^ 32, ∀ rest, readVarint32 (writeVarint32 n ++ rest) = (n, rest)
  /-- A size that can be used as one has been read, and it was not shorter than
  its written form; a failed read leaves a negative one. -/
  length_readVarint32 : ∀ bs, (readVarint32 bs).1 < 2 ^ 31 →
    (writeVarint32 (readVarint32 bs).1).length + (readVarint32 bs).2.length ≤ bs.length
  length_writeVarint32_mono : ∀ m n, m ≤ n →
    (writeVarint32 m).length ≤ (writeVarint32 n).length
  length_writeVarint32_zero : (writeVarint32 0).length = 1
  /-- No other form of a header is shorter. -/
  length_le_of_parse : ∀ bs h, header.parse bs = some h →
    (header.serialize h).length ≤ bs.length
  default_args_size : header.default.args_size = 0

namespace RpcHeader

/-! ## The three fields -/

def bytesField (tag : UInt8) (value : Bytes) : Bytes :=
  if value = [] then [] else tag :: (Varint.write 5 value.length ++ value)

def numberField (tag : UInt8) (value : ℕ) : Bytes :=
  if value = 0 then [] else tag :: Varint.write 5 value

/-- A field with its default value is left out. -/
def serialize (h : RpcHeader) : Bytes :=
  bytesField 10 h.service_name ++ bytesField 18 h.method_name ++ numberField 24 h.args_size.toNat

/-- The fields in any order, the last one of a number counts. -/
def parseFields : ℕ → RpcHeader → Bytes → Option RpcHeader
  | _, h, [] => some h
  | 0, _, _ :: _ => none
  | fuel + 1, h, tag :: bs =>
      if tag = 24 then do
        let (value, rest) ← Varint.read 10 bs
        parseFields fuel { h with args_size := .ofNat value } rest
      else do
        let (size, rest) ← Varint.read 5 bs
        if size ≤ rest.length then
          if tag = 10 then
            parseFields fuel { h with service_name := rest.take size } (rest.drop size)
          else if tag = 18 then
            parseFields fuel { h with method_name := rest.take size } (rest.drop size)
          else none
        else none

def parse (bs : Bytes) : Option RpcHeader :=
  parseFields bs.length ⟨[], [], 0⟩ bs

theorem length_bytesField_le (tag : UInt8) {limit size : ℕ} {bs rest : Bytes}
    (h : Varint.read limit bs = some (size, rest)) (hsize : size ≤ rest.length) :
    (bytesField tag (rest.take size)).length + (rest.drop size).length ≤ bs.length + 1 := by
  have hread := Varint.length_write_add_le 5 h le_rfl
  have htake : (rest.take size).length = size := List.length_take_of_le hsize
  unfold bytesField
  split_ifs with hempty
  · have hrest := (Varint.read_lt h).1
    simp only [List.length_nil, List.length_drop]
    omega
  · simp only [List.length_cons, List.length_append, htake, List.length_drop]
    omega

theorem length_numberField_le (tag : UInt8) {limit n : ℕ} {bs rest : Bytes}
    (h : Varint.read limit bs = some (n, rest)) :
    (numberField tag (UInt32.ofNat n).toNat).length + rest.length ≤ bs.length + 1 := by
  rw [UInt32.toNat_ofNat']
  have hread := Varint.length_write_add_le 5 h (Nat.mod_le n (2 ^ 32))
  unfold numberField
  split_ifs
  · have hrest := (Varint.read_lt h).1
    simp only [List.length_nil]
    omega
  · simp only [List.length_cons]
    omega

/-- Every field that is read was as long as its written form. -/
theorem length_le_of_parseFields {fuel : ℕ} {h h' : RpcHeader} {bs : Bytes}
    (hparse : parseFields fuel h bs = some h') :
    h'.serialize.length ≤ h.serialize.length + bs.length := by
  induction fuel generalizing h bs with
  | zero =>
      cases bs with
      | nil =>
          cases hparse
          exact Nat.le_add_right _ _
      | cons tag bs => simp [parseFields] at hparse
  | succ fuel ih =>
      cases bs with
      | nil =>
          cases hparse
          exact Nat.le_add_right _ _
      | cons tag bs =>
          rw [parseFields] at hparse
          by_cases htag : tag = 24
          · rw [if_pos htag] at hparse
            obtain ⟨⟨value, rest⟩, hread, hparse⟩ := Option.bind_eq_some_iff.mp hparse
            have hrest := ih hparse
            have hfield := length_numberField_le 24 hread
            simp only [serialize, List.length_append, List.length_cons] at hrest ⊢
            omega
          · rw [if_neg htag] at hparse
            obtain ⟨⟨size, rest⟩, hread, hparse⟩ := Option.bind_eq_some_iff.mp hparse
            simp only at hparse
            split_ifs at hparse with hsize hservice hmethod
            · have hrest := ih hparse
              have hfield := length_bytesField_le 10 hread hsize
              simp only [serialize, List.length_append, List.length_cons] at hrest ⊢
              omega
            · have hrest := ih hparse
              have hfield := length_bytesField_le 18 hread hsize
              simp only [serialize, List.length_append, List.length_cons] at hrest ⊢
              omega

/-! ## Reading the fields back -/

theorem read_length {value : Bytes} (hvalue : value.length < 2 ^ 31) (rest : Bytes) :
    Varint.read 5 (Varint.write 5 value.length ++ (value ++ rest)) =
      some (value.length, value ++ rest) :=
  Varint.read_write (by decide) (hvalue.trans (by decide)) le_rfl _

/-- A field of bytes in front is read into the header by `put`. -/
theorem parseFields_bytesField {tag : UInt8} {h : RpcHeader} (put : Bytes → RpcHeader)
    {value rest : Bytes} {fuel : ℕ} (hvalue : value.length < 2 ^ 31) (hdefault : put [] = h)
    (hput : ∀ fuel bs size rest, Varint.read 5 bs = some (size, rest) → size ≤ rest.length →
      parseFields (fuel + 1) h (tag :: bs) =
        parseFields fuel (put (rest.take size)) (rest.drop size))
    (hfuel : (bytesField tag value ++ rest).length ≤ fuel) :
    ∃ fuel', rest.length ≤ fuel' ∧
      parseFields fuel h (bytesField tag value ++ rest) = parseFields fuel' (put value) rest := by
  unfold bytesField at hfuel ⊢
  split_ifs at hfuel ⊢ with hempty
  · exact ⟨fuel, hfuel, by rw [hempty, hdefault, List.nil_append]⟩
  · rw [List.cons_append, List.append_assoc] at hfuel ⊢
    obtain ⟨fuel, rfl⟩ : ∃ k, fuel = k + 1 := ⟨fuel - 1, by rw [List.length_cons] at hfuel; omega⟩
    refine ⟨fuel, ?_, ?_⟩
    · simp only [List.length_cons, List.length_append] at hfuel
      omega
    · rw [hput fuel _ _ _ (read_length hvalue rest) (by simp), List.take_left, List.drop_left]

theorem parseFields_service {h : RpcHeader} {fuel size : ℕ} {bs rest : Bytes}
    (hread : Varint.read 5 bs = some (size, rest)) (hsize : size ≤ rest.length) :
    parseFields (fuel + 1) h (10 :: bs) =
      parseFields fuel { h with service_name := rest.take size } (rest.drop size) := by
  simp [parseFields, hread, hsize]

theorem parseFields_method {h : RpcHeader} {fuel size : ℕ} {bs rest : Bytes}
    (hread : Varint.read 5 bs = some (size, rest)) (hsize : size ≤ rest.length) :
    parseFields (fuel + 1) h (18 :: bs) =
      parseFields fuel { h with method_name := rest.take size } (rest.drop size) := by
  simp [parseFields, hread, hsize]

theorem parseFields_args {value : UInt32} {h : RpcHeader} {fuel : ℕ}
    (hdefault : h.args_size = 0) (hfuel : (numberField 24 value.toNat).length ≤ fuel) :
    parseFields fuel h (numberField 24 value.toNat) = some { h with args_size := value } := by
  unfold numberField at hfuel ⊢
  split_ifs at hfuel ⊢ with hzero
  · obtain rfl : value = 0 := UInt32.toNat_inj.mp hzero
    rw [← hdefault]
    cases fuel with
    | zero => rfl
    | succ fuel => rfl
  · obtain ⟨fuel, rfl⟩ : ∃ k, fuel = k + 1 := ⟨fuel - 1, by rw [List.length_cons] at hfuel; omega⟩
    have hread : Varint.read 10 (Varint.write 5 value.toNat ++ []) = some (value.toNat, []) :=
      Varint.read_write (by decide) (value.toNat_lt.trans (by decide)) (by decide) _
    rw [List.append_nil] at hread
    rw [parseFields, if_pos rfl, hread]
    cases fuel with
    | zero => simp [parseFields]
    | succ fuel => simp [parseFields]

theorem length_le_bytesField (tag : UInt8) (value : Bytes) :
    value.length ≤ (bytesField tag value).length := by
  unfold bytesField
  split_ifs with hempty
  · simp [hempty]
  · simp only [List.length_cons, List.length_append]
    omega

theorem parse_serialize (h : RpcHeader) (hlength : h.serialize.length < 2 ^ 31) :
    parse h.serialize = some h := by
  have hservice := length_le_bytesField 10 h.service_name
  have hmethod := length_le_bytesField 18 h.method_name
  unfold parse
  unfold serialize at hlength ⊢
  simp only [List.length_append] at hlength
  rw [List.append_assoc]
  obtain ⟨fuel, hfuel, hparse⟩ := parseFields_bytesField (fun value ↦ ⟨value, [], 0⟩)
    (show h.service_name.length < 2 ^ 31 by omega) rfl (fun _ _ _ _ ↦ parseFields_service)
    (le_refl (bytesField 10 h.service_name ++
      (bytesField 18 h.method_name ++ numberField 24 h.args_size.toNat)).length)
  obtain ⟨fuel', hfuel', hparse'⟩ := parseFields_bytesField
    (fun value ↦ ⟨h.service_name, value, 0⟩)
    (show h.method_name.length < 2 ^ 31 by omega) rfl (fun _ _ _ _ ↦ parseFields_method) hfuel
  rw [hparse, hparse', parseFields_args rfl hfuel']

theorem length_le_of_parse {bs : Bytes} {h : RpcHeader} (hparse : parse bs = some h) :
    h.serialize.length ≤ bs.length := by
  have hlength := length_le_of_parseFields hparse
  simpa [serialize, bytesField, numberField] using hlength

/-- The encoding of the header. -/
def codec : MessageCodec RpcHeader where
  serialize := serialize
  parse := parse
  parse_serialize := parse_serialize
  eq_of_parse_prefix := fun _ _ h hparse ↦ h.eq_of_length_le (length_le_of_parse hparse)
  default := ⟨[], [], 0⟩
  parse_nil := rfl

end RpcHeader

/-- Sizes in base 128 and the encoding of the header. -/
def Wire.proto3 : Wire where
  writeVarint32 := Varint.write 5
  readVarint32 bs :=
    match Varint.read 10 bs with
    | some (n, rest) => (n % 2 ^ 32, rest)
    | none => (2 ^ 32 - 1, bs)
  header := RpcHeader.codec
  readVarint32_write := by
    intro n hn rest
    have hread : Varint.read 10 (Varint.write 5 n ++ rest) = some (n, rest) :=
      Varint.read_write (by decide) (hn.trans (by decide)) (by decide) _
    rw [hread]
    exact congrArg (·, rest) (Nat.mod_eq_of_lt hn)
  length_readVarint32 := by
    intro bs hsize
    cases hread : Varint.read 10 bs with
    | none =>
        rw [hread] at hsize
        have hsmall : (2 : ℕ) ^ 32 - 1 < 2 ^ 31 := hsize
        exact absurd hsmall (by decide)
    | some p => exact Varint.length_write_add_le 5 hread (Nat.mod_le p.1 (2 ^ 32))
  length_writeVarint32_mono := fun _ _ h ↦ Varint.length_write_mono 5 h
  length_writeVarint32_zero := rfl
  length_le_of_parse := fun _ _ h ↦ RpcHeader.length_le_of_parse h
  default_args_size := rfl

end HttpRaftKv.Rpc
