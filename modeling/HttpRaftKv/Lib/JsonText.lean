import HttpRaftKv.Lib.Json
import Mathlib.Data.Nat.Log
import Mathlib.Data.Rat.Lemmas
import Mathlib.Data.String.Basic
import Mathlib.Tactic.NormNum
import Mathlib.Tactic.Ring
import Mathlib.Tactic.SplitIfs

/-!
# JSON texts

The JSON library is not part of the repository.  Only what it documents about
`dump` and `parse` is assumed: a value that the library can hold is parsed back
from its text, and a parsed value is one that it can hold.  Its objects are
ordered by their keys, its integers have 64 bits, and its other numbers are
finite doubles.  The second half is a writer and a reader of JSON texts that keep
these laws; a number with a fractional part is written as a fraction.
-/

namespace HttpRaftKv

namespace Json

/-! ## Values -/

/-- A number of at most `p` binary digits with at most `d` zeros behind them. -/
theorem exists_scaled_iff {p : ℕ} (hp : 0 < p) (d n : ℕ) :
    (∃ m k, m < 2 ^ p ∧ k ≤ d ∧ n = m * 2 ^ k) ↔
      n < 2 ^ (p + d) ∧ 2 ^ (n.log2 + 1 - p) ∣ n := by
  constructor
  · rintro ⟨m, k, hm, hk, rfl⟩
    have hlt : m * 2 ^ k < 2 ^ (p + k) := by
      rw [pow_add]
      exact Nat.mul_lt_mul_of_pos_right hm (Nat.two_pow_pos k)
    refine ⟨hlt.trans_le (Nat.pow_le_pow_right two_pos (by omega)), ?_⟩
    rcases Nat.eq_zero_or_pos m with rfl | hpos
    · simp
    · have hlog := (Nat.log2_lt (by positivity)).mpr hlt
      exact (pow_dvd_pow 2 (by omega)).trans (dvd_mul_left _ _)
  · rintro ⟨hlt, m, hm⟩
    have hself : 2 ^ (n.log2 + 1 - p) * m < 2 ^ (n.log2 + 1 - p) * 2 ^ p := by
      rw [← hm, ← pow_add]
      exact Nat.lt_log2_self.trans_le (Nat.pow_le_pow_right two_pos (by omega))
    refine ⟨m, n.log2 + 1 - p, Nat.lt_of_mul_lt_mul_left hself, ?_, by rw [mul_comm]; exact hm⟩
    rcases Nat.eq_zero_or_pos n with rfl | hpos
    · rw [Nat.log2_zero]
      omega
    · have hlog := (Nat.log2_lt hpos.ne').mpr hlt
      omega

/-- The values of a finite `double`. -/
def IsDouble (q : ℚ) : Prop :=
  ∃ (m : ℤ) (k : ℕ), m.natAbs < 2 ^ 53 ∧ k ≤ 2045 ∧ q * 2 ^ 1074 = m * 2 ^ k

theorem isDouble_iff (q : ℚ) :
    IsDouble q ↔ (q * 2 ^ 1074).den = 1 ∧ (q * 2 ^ 1074).num.natAbs < 2 ^ (53 + 2045) ∧
      2 ^ ((q * 2 ^ 1074).num.natAbs.log2 + 1 - 53) ∣ (q * 2 ^ 1074).num.natAbs := by
  rw [← exists_scaled_iff (by decide)]
  unfold IsDouble
  generalize q * 2 ^ 1074 = r
  constructor
  · rintro ⟨m, k, hm, hk, hr⟩
    have hint : r = ((m * 2 ^ k : ℤ) : ℚ) := by rw [hr]; push_cast; rfl
    refine ⟨by rw [hint]; exact Rat.den_intCast _, m.natAbs, k, hm, hk, ?_⟩
    rw [hint, Rat.num_intCast, Int.natAbs_mul, Int.natAbs_pow]
    rfl
  · rintro ⟨hden, m, k, hm, hk, habs⟩
    have hint : r = (r.num : ℚ) := ((Rat.den_eq_one_iff r).mp hden).symm
    rcases Int.natAbs_eq r.num with hnum | hnum
    · exact ⟨m, k, hm, hk, by rw [hint, hnum, habs]; push_cast; rfl⟩
    · refine ⟨-m, k, by rwa [Int.natAbs_neg], hk, ?_⟩
      rw [hint, hnum, habs]
      push_cast
      ring

instance (q : ℚ) : Decidable (IsDouble q) :=
  decidable_of_iff _ (isDouble_iff q).symm

example : IsDouble (2 ^ 53 + 2) ∧ ¬ IsDouble (2 ^ 53 + 1) := by decide +kernel

mutual

/-- The integers are signed or unsigned ones of 64 bits, the other numbers are
finite doubles, and every object has its keys in their order, each once. -/
def held : Json → Bool
  | .integer value => -2 ^ 63 ≤ value && value < 2 ^ 64
  | .float value => IsDouble value
  | .array items => heldItems items
  | .object fields => (fields.map Prod.fst).Pairwise (· < ·) && heldFields fields
  | _ => true

def heldItems : List Json → Bool
  | [] => true
  | item :: items => item.held && heldItems items

def heldFields : List (String × Json) → Bool
  | [] => true
  | field :: fields => field.2.held && heldFields fields

end

theorem mem_keys_setField {key key' : String} {value : Json} {fields : List (String × Json)}
    (h : key' ∈ (setField key value fields).map Prod.fst) :
    key' = key ∨ key' ∈ fields.map Prod.fst := by
  obtain ⟨field, hmem, rfl⟩ := List.mem_map.mp h
  rw [setField_eq_assign] at hmem
  rcases OrderedMap.mem_assign hmem with rfl | hmem
  · exact .inl rfl
  · exact .inr (List.mem_map_of_mem hmem)

theorem pairwise_setField {key : String} {value : Json} {fields : List (String × Json)}
    (h : (fields.map Prod.fst).Pairwise (· < ·)) :
    ((setField key value fields).map Prod.fst).Pairwise (· < ·) := by
  induction fields with
  | nil => exact List.pairwise_singleton _ _
  | cons field fields ih =>
      rw [List.map_cons, List.pairwise_cons] at h
      unfold setField
      split_ifs with hlt heq
      · refine List.pairwise_cons.mpr ⟨fun k hk ↦ ?_, List.pairwise_cons.mpr h⟩
        rcases List.mem_cons.mp hk with rfl | hk
        · exact hlt
        · exact hlt.trans (h.1 k hk)
      · exact List.pairwise_cons.mpr ⟨fun k hk ↦ heq ▸ h.1 k hk, h.2⟩
      · refine List.pairwise_cons.mpr ⟨fun k hk ↦ ?_, ih h.2⟩
        rcases mem_keys_setField hk with rfl | hk
        · exact lt_of_le_of_ne (not_lt.mp hlt) heq
        · exact h.1 k hk

theorem heldFields_setField {key : String} {value : Json} {fields : List (String × Json)}
    (hvalue : value.held = true) (h : heldFields fields = true) :
    heldFields (setField key value fields) = true := by
  induction fields with
  | nil => simpa [setField, heldFields] using hvalue
  | cons field fields ih =>
      have hfields := h
      rw [heldFields, Bool.and_eq_true] at hfields
      unfold setField
      split_ifs with hlt heq
      · rw [heldFields, Bool.and_eq_true]
        exact ⟨hvalue, h⟩
      · rw [heldFields, Bool.and_eq_true]
        exact ⟨hvalue, hfields.2⟩
      · rw [heldFields, Bool.and_eq_true]
        exact ⟨hfields.1, ih hfields.2⟩

/-- An object stays one that the library can hold when a field is set. -/
theorem held_setField {key : String} {value : Json} {fields : List (String × Json)}
    (hvalue : value.held = true) (h : (object fields).held = true) :
    (object (setField key value fields)).held = true := by
  rw [held, Bool.and_eq_true, decide_eq_true_iff] at h ⊢
  exact ⟨pairwise_setField h.1, heldFields_setField hvalue h.2⟩

end Json

/-- A value that the library can hold. -/
abbrev HeldJson := { value : Json // value.held = true }

structure JsonText where
  dump : Json → String
  parse : String → Option Json
  parse_dump : ∀ value : Json, value.held = true → parse (dump value) = some value
  held_of_parse : ∀ text value, parse text = some value → value.held = true

/-! ## A writer and a reader -/

namespace JsonText

def hexDigit (k : ℕ) : Char :=
  Nat.digitChar k

def hexValue (c : Char) : ℕ :=
  if c.isDigit then c.toNat - '0'.toNat else c.toNat - 'a'.toNat + 10

/-- Quotes, backslashes and control characters are escaped. -/
def escape (c : Char) : List Char :=
  if c = '\x22' then ['\x5c', '\x22']
  else if c = '\x5c' then ['\x5c', '\x5c']
  else if c.toNat < 32 then
    ['\x5c', 'u', '0', '0', hexDigit (c.toNat / 16), hexDigit (c.toNat % 16)]
  else [c]

/-- The characters up to the closing quote. -/
def readChars : List Char → Option (List Char × List Char)
  | [] => none
  | '\x22' :: rest => some ([], rest)
  | '\x5c' :: 'u' :: '0' :: '0' :: a :: b :: rest =>
      (readChars rest).map fun p ↦ (Char.ofNat (16 * hexValue a + hexValue b) :: p.1, p.2)
  | '\x5c' :: c :: rest => (readChars rest).map fun p ↦ (c :: p.1, p.2)
  | c :: rest => (readChars rest).map fun p ↦ (c :: p.1, p.2)

def writeString (s : String) : List Char :=
  '\x22' :: s.toList.flatMap escape ++ ['\x22']

def writeInt (z : ℤ) : List Char :=
  (if z < 0 then ['-'] else []) ++ Nat.toDigits 10 z.natAbs

def readNat (cs : List Char) : ℕ × List Char :=
  (Nat.ofDigitChars 10 (cs.takeWhile Char.isDigit) 0, cs.dropWhile Char.isDigit)

def readInt : List Char → ℤ × List Char
  | '-' :: cs => (-((readNat cs).1 : ℤ), (readNat cs).2)
  | cs => (((readNat cs).1 : ℤ), (readNat cs).2)

def readNumber (cs : List Char) : Json × List Char :=
  match (readInt cs).2 with
  | '/' :: rest => (.float ((readInt cs).1 / (readNat rest).1), (readNat rest).2)
  | rest => (.integer (readInt cs).1, rest)

mutual

def write : Json → List Char
  | .null => ['n', 'u', 'l', 'l']
  | .boolean true => ['t', 'r', 'u', 'e']
  | .boolean false => ['f', 'a', 'l', 's', 'e']
  | .integer z => writeInt z
  | .float q => writeInt q.num ++ '/' :: Nat.toDigits 10 q.den
  | .string s => writeString s
  | .array [] => ['[', ']']
  | .array (item :: items) => '[' :: write item ++ writeItems items
  | .object [] => ['\x7b', '\x7d']
  | .object (field :: fields) =>
      '\x7b' :: writeString field.1 ++ ':' :: write field.2 ++ writeFields fields

/-- The items behind the first one, and the end of the array. -/
def writeItems : List Json → List Char
  | [] => [']']
  | item :: items => ',' :: write item ++ writeItems items

def writeFields : List (String × Json) → List Char
  | [] => ['\x7d']
  | field :: fields => ',' :: writeString field.1 ++ ':' :: write field.2 ++ writeFields fields

end

mutual

/-- The reader takes no more steps than its fuel. -/
def read : ℕ → List Char → Option (Json × List Char)
  | 0, _ => none
  | fuel + 1, cs =>
      match cs with
      | 'n' :: 'u' :: 'l' :: 'l' :: rest => some (.null, rest)
      | 't' :: 'r' :: 'u' :: 'e' :: rest => some (.boolean true, rest)
      | 'f' :: 'a' :: 'l' :: 's' :: 'e' :: rest => some (.boolean false, rest)
      | '\x22' :: rest => (readChars rest).map fun p ↦ (.string (String.ofList p.1), p.2)
      | '[' :: ']' :: rest => some (.array [], rest)
      | '[' :: rest => do
          let (item, rest) ← read fuel rest
          let (items, rest) ← readItems fuel rest
          return (.array (item :: items), rest)
      | '\x7b' :: '\x7d' :: rest => some (.object [], rest)
      | '\x7b' :: rest => do
          let (field, rest) ← readField fuel rest
          let (fields, rest) ← readFields fuel rest
          return (.object (field :: fields), rest)
      | c :: rest => if c = '-' ∨ c.isDigit then some (readNumber (c :: rest)) else none
      | [] => none

def readItems : ℕ → List Char → Option (List Json × List Char)
  | 0, _ => none
  | fuel + 1, cs =>
      match cs with
      | ']' :: rest => some ([], rest)
      | ',' :: rest => do
          let (item, rest) ← read fuel rest
          let (items, rest) ← readItems fuel rest
          return (item :: items, rest)
      | _ => none

def readField : ℕ → List Char → Option ((String × Json) × List Char)
  | 0, _ => none
  | fuel + 1, cs =>
      match cs with
      | '\x22' :: rest => do
          let (key, rest) ← readChars rest
          match rest with
          | ':' :: rest => do
              let (value, rest) ← read fuel rest
              return ((String.ofList key, value), rest)
          | _ => none
      | _ => none

def readFields : ℕ → List Char → Option (List (String × Json) × List Char)
  | 0, _ => none
  | fuel + 1, cs =>
      match cs with
      | '\x7d' :: rest => some ([], rest)
      | ',' :: rest => do
          let (field, rest) ← readField fuel rest
          let (fields, rest) ← readFields fuel rest
          return (field :: fields, rest)
      | _ => none

end

theorem hexValue_hexDigit : ∀ k < 16, hexValue (hexDigit k) = k := by
  decide

theorem readChars_escape (c : Char) (rest : List Char) :
    readChars (escape c ++ rest) = (readChars rest).map fun p ↦ (c :: p.1, p.2) := by
  unfold escape
  split_ifs with hquote hslash hcontrol
  · subst hquote
    simp [readChars]
  · subst hslash
    simp [readChars]
  · have hhigh := hexValue_hexDigit (c.toNat / 16) (by omega)
    have hlow := hexValue_hexDigit (c.toNat % 16) (by omega)
    have hvalue : 16 * (c.toNat / 16) + c.toNat % 16 = c.toNat := by omega
    simp [readChars, hhigh, hlow, hvalue]
  · rw [List.singleton_append, readChars.eq_def]
    split <;> simp_all

theorem readChars_write (cs rest : List Char) :
    readChars (cs.flatMap escape ++ '\x22' :: rest) = some (cs, rest) := by
  induction cs with
  | nil => simp [readChars]
  | cons c cs ih =>
      rw [List.flatMap_cons, List.append_assoc, readChars_escape, ih]
      rfl

/-- The text behind a number does not carry it on. -/
def Ends (rest : List Char) : Prop :=
  ∀ c ∈ rest.head?, c.isDigit = false ∧ c ≠ '/'

theorem isDigit_of_mem_toDigits {k : ℕ} {c : Char} (hc : c ∈ Nat.toDigits 10 k) :
    c.isDigit = true :=
  Nat.isDigit_of_mem_toDigits (by decide) (by decide) hc

theorem readNat_write (k : ℕ) {rest : List Char} (h : ∀ c ∈ rest.head?, c.isDigit = false) :
    readNat (Nat.toDigits 10 k ++ rest) = (k, rest) := by
  have hdigit : ∀ c ∈ Nat.toDigits 10 k, c.isDigit = true := fun c ↦ isDigit_of_mem_toDigits
  have htake : rest.takeWhile Char.isDigit = [] := by
    cases rest with
    | nil => rfl
    | cons c rest => simp [h c rfl]
  have hdrop : rest.dropWhile Char.isDigit = rest := by
    cases rest with
    | nil => rfl
    | cons c rest => simp [h c rfl]
  rw [readNat, List.takeWhile_append_of_pos hdigit, List.dropWhile_append_of_pos hdigit, htake,
    hdrop, List.append_nil, Nat.ofDigitChars_ten_toDigits]

/-- What a written number starts with. -/
theorem exists_writeInt (z : ℤ) :
    ∃ c cs, writeInt z = c :: cs ∧ (c = '-' ∨ c.isDigit = true) := by
  unfold writeInt
  by_cases hz : z < 0
  · exact ⟨'-', Nat.toDigits 10 z.natAbs, by rw [if_pos hz]; rfl, .inl rfl⟩
  · rw [if_neg hz]
    cases hdigits : Nat.toDigits 10 z.natAbs with
    | nil => exact absurd hdigits (by simp)
    | cons c cs =>
        exact ⟨c, cs, rfl, .inr (isDigit_of_mem_toDigits (k := z.natAbs) (by simp [hdigits]))⟩

theorem readInt_write (z : ℤ) {rest : List Char} (h : ∀ c ∈ rest.head?, c.isDigit = false) :
    readInt (writeInt z ++ rest) = (z, rest) := by
  unfold writeInt
  by_cases hz : z < 0
  · have habs : -(z.natAbs : ℤ) = z := by omega
    rw [if_pos hz, List.singleton_append, List.cons_append, readInt, readNat_write _ h, habs]
  · have habs : (z.natAbs : ℤ) = z := by omega
    rw [if_neg hz, List.nil_append]
    have hread := readNat_write z.natAbs h
    cases hdigits : Nat.toDigits 10 z.natAbs with
    | nil => exact absurd hdigits (by simp)
    | cons c cs =>
        have hdigit := isDigit_of_mem_toDigits (k := z.natAbs) (c := c) (by simp [hdigits])
        have hsign : c ≠ '-' := by
          rintro rfl
          exact absurd hdigit (by decide)
        rw [hdigits, List.cons_append] at hread
        simp [readInt, hsign, hread, habs]

theorem readNumber_integer (z : ℤ) {rest : List Char} (h : Ends rest) :
    readNumber (writeInt z ++ rest) = (.integer z, rest) := by
  unfold readNumber
  rw [readInt_write z fun c hc ↦ (h c hc).1]
  cases rest with
  | nil => rfl
  | cons c rest =>
      have hc := (h c rfl).2
      simp [hc]

theorem readNumber_float (q : ℚ) {rest : List Char} (h : Ends rest) :
    readNumber (writeInt q.num ++ '/' :: (Nat.toDigits 10 q.den ++ rest)) = (.float q, rest) := by
  have hslash : ∀ c ∈ ('/' :: (Nat.toDigits 10 q.den ++ rest)).head?, c.isDigit = false := by
    simp
  have hden := readNat_write q.den fun c hc ↦ (h c hc).1
  unfold readNumber
  rw [readInt_write q.num hslash]
  simp [hden, Rat.num_div_den]

theorem ends_cons {c : Char} (hdigit : c.isDigit = false) (hslash : c ≠ '/') (rest : List Char) :
    Ends (c :: rest) := by
  rintro _ ⟨⟩
  exact ⟨hdigit, hslash⟩

theorem ends_writeItems (items : List Json) (rest : List Char) :
    Ends (writeItems items ++ rest) := by
  cases items with
  | nil => exact ends_cons (by decide) (by decide) _
  | cons item items => exact ends_cons (by decide) (by decide) _

theorem ends_writeFields (fields : List (String × Json)) (rest : List Char) :
    Ends (writeFields fields ++ rest) := by
  cases fields with
  | nil => exact ends_cons (by decide) (by decide) _
  | cons field fields => exact ends_cons (by decide) (by decide) _

/-- A written value is not empty and does not start as the end of an array. -/
theorem exists_write (v : Json) : ∃ c cs, write v = c :: cs ∧ c ≠ ']' := by
  have hnumber : ∀ (z : ℤ) (rest : List Char), ∃ c cs, writeInt z ++ rest = c :: cs ∧ c ≠ ']' := by
    intro z rest
    obtain ⟨c, cs, hwrite, hc⟩ := exists_writeInt z
    refine ⟨c, cs ++ rest, by rw [hwrite]; rfl, ?_⟩
    rintro rfl
    exact absurd hc (by decide)
  cases v with
  | null => exact ⟨_, _, rfl, by decide⟩
  | boolean b =>
      cases b with
      | true => exact ⟨_, _, rfl, by decide⟩
      | false => exact ⟨_, _, rfl, by decide⟩
  | integer z => simpa [write] using hnumber z []
  | float q => simpa [write] using hnumber q.num ('/' :: Nat.toDigits 10 q.den)
  | string s => exact ⟨_, _, rfl, by decide⟩
  | array items =>
      cases items with
      | nil => exact ⟨_, _, rfl, by decide⟩
      | cons item items => exact ⟨'[', _, rfl, by decide⟩
  | object fields =>
      cases fields with
      | nil => exact ⟨_, _, rfl, by decide⟩
      | cons field fields => exact ⟨'\x7b', _, rfl, by decide⟩

theorem read_number {fuel : ℕ} {c : Char} {cs : List Char} (hc : c = '-' ∨ c.isDigit = true) :
    read (fuel + 1) (c :: cs) = some (readNumber (c :: cs)) := by
  simp only [read]
  split
  case h_9 heq =>
    obtain ⟨rfl, rfl⟩ := List.cons_eq_cons.mp heq
    rw [if_pos hc]
  all_goals simp_all

theorem read_object (fuel : ℕ) (cs : List Char) :
    read (fuel + 1) ('\x7b' :: '\x22' :: cs) =
      (readField fuel ('\x22' :: cs)).bind fun p ↦
        (readFields fuel p.2).bind fun q ↦ some (.object (p.1 :: q.1), q.2) := by
  simp [read]

theorem readFields_comma (fuel : ℕ) (cs : List Char) :
    readFields (fuel + 1) (',' :: cs) =
      (readField fuel cs).bind fun p ↦
        (readFields fuel p.2).bind fun q ↦ some (p.1 :: q.1, q.2) := by
  simp [readFields]

theorem readField_write {fuel : ℕ} (key : String) {value : Json} {rest : List Char}
    (h : read fuel (write value ++ rest) = some (value, rest)) :
    readField (fuel + 1) (writeString key ++ ':' :: (write value ++ rest)) =
      some ((key, value), rest) := by
  simp [readField, writeString, readChars_write, h]

mutual

theorem read_write (v : Json) (fuel : ℕ) (rest : List Char) (hfuel : (write v).length ≤ fuel)
    (hrest : Ends rest) : read fuel (write v ++ rest) = some (v, rest) := by
  obtain ⟨c, cs, hwrite, -⟩ := exists_write v
  obtain ⟨fuel, rfl⟩ : ∃ k, fuel = k + 1 := by
    refine ⟨fuel - 1, ?_⟩
    rw [hwrite, List.length_cons] at hfuel
    omega
  match v with
  | .null => rfl
  | .boolean true => rfl
  | .boolean false => rfl
  | .integer z =>
      obtain ⟨c, cs, hz, hc⟩ := exists_writeInt z
      have hread := readNumber_integer z hrest
      rw [write]
      rw [hz, List.cons_append] at hread ⊢
      rw [read_number hc, hread]
  | .float q =>
      obtain ⟨c, cs, hz, hc⟩ := exists_writeInt q.num
      have hread := readNumber_float q hrest
      rw [write, List.append_assoc, List.cons_append]
      rw [hz, List.cons_append] at hread ⊢
      rw [read_number hc, hread]
  | .string s => simp [write, writeString, read, readChars_write]
  | .array [] => rfl
  | .array (item :: items) =>
      obtain ⟨d, ds, hitem, hd⟩ := exists_write item
      have hlength : (write item).length + (writeItems items).length ≤ fuel := by
        simpa [write] using hfuel
      have h := read_write item fuel (writeItems items ++ rest) (by omega)
        (ends_writeItems items rest)
      have h' := readItems_write items fuel rest (by omega)
      rw [hitem, List.cons_append] at h
      simp [write, read, hitem, hd, h, h']
  | .object [] => rfl
  | .object ((key, value) :: fields) =>
      have hlength : (writeString key).length + 1 + (write value).length +
          (writeFields fields).length ≤ fuel := by
        simp only [write, List.length_cons, List.length_append] at hfuel
        omega
      obtain ⟨fuel, rfl⟩ : ∃ k, fuel = k + 1 := ⟨fuel - 1, by omega⟩
      have h := read_write value fuel (writeFields fields ++ rest) (by omega)
        (ends_writeFields fields rest)
      have h' := readFields_write fields (fuel + 1) rest (by omega)
      have hfield := readField_write key h
      obtain ⟨cs, hstring⟩ : ∃ cs, writeString key = '\x22' :: cs := ⟨_, rfl⟩
      rw [hstring, List.cons_append] at hfield
      rw [write]
      simp [hstring, read_object, hfield, h']

theorem readItems_write (items : List Json) (fuel : ℕ) (rest : List Char)
    (hfuel : (writeItems items).length ≤ fuel) :
    readItems fuel (writeItems items ++ rest) = some (items, rest) := by
  match items with
  | [] =>
      obtain ⟨fuel, rfl⟩ : ∃ k, fuel = k + 1 := ⟨fuel - 1, by simp [writeItems] at hfuel; omega⟩
      rfl
  | item :: items =>
      have hlength : (write item).length + (writeItems items).length + 1 ≤ fuel := by
        simpa [writeItems] using hfuel
      obtain ⟨fuel, rfl⟩ : ∃ k, fuel = k + 1 := ⟨fuel - 1, by omega⟩
      have h := read_write item fuel (writeItems items ++ rest) (by omega)
        (ends_writeItems items rest)
      have h' := readItems_write items fuel rest (by omega)
      simp [writeItems, readItems, h, h']

theorem readFields_write (fields : List (String × Json)) (fuel : ℕ) (rest : List Char)
    (hfuel : (writeFields fields).length ≤ fuel) :
    readFields fuel (writeFields fields ++ rest) = some (fields, rest) := by
  match fields with
  | [] =>
      obtain ⟨fuel, rfl⟩ : ∃ k, fuel = k + 1 := ⟨fuel - 1, by simp [writeFields] at hfuel; omega⟩
      rfl
  | (key, value) :: fields =>
      have hlength : (writeString key).length + 1 + (write value).length +
          (writeFields fields).length + 1 ≤ fuel := by
        simp only [writeFields, List.length_cons, List.length_append] at hfuel
        omega
      obtain ⟨fuel, rfl⟩ : ∃ k, fuel = k + 2 := ⟨fuel - 2, by omega⟩
      have h := read_write value fuel (writeFields fields ++ rest) (by omega)
        (ends_writeFields fields rest)
      have h' := readFields_write fields (fuel + 1) rest (by omega)
      have hfield := readField_write key h
      rw [writeFields]
      simp [readFields_comma, hfield, h']

end

/-- The texts of this writer, read by this reader. -/
def compact : JsonText where
  dump value := String.ofList (write value)
  parse text :=
    match read text.toList.length text.toList with
    | some (value, []) => if value.held then some value else none
    | _ => none
  parse_dump := by
    intro value hvalue
    have hends : Ends [] := by simp [Ends]
    have hread := read_write value _ [] le_rfl hends
    rw [List.append_nil] at hread
    simp [hread, hvalue]
  held_of_parse := by
    intro text value hparse
    split at hparse
    · next v _ =>
        by_cases hv : v.held = true
        · rw [if_pos hv] at hparse
          exact Option.some.inj hparse ▸ hv
        · rw [if_neg hv] at hparse
          exact absurd hparse (by simp)
    · exact absurd hparse (by simp)

end JsonText

end HttpRaftKv
