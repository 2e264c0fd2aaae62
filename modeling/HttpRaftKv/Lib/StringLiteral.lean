import Mathlib.Data.List.TakeWhile
import Mathlib.Data.Nat.Notation

/-!
# String literals of JavaScript

The value of a literal in single quotes, for the text between the quotes.  The value
consists of code units of UTF-16.  Every escape is longer than what it stands for, so that
a text is its own value only if there is no escape in it.
-/

namespace HttpRaftKv.StringLiteral

/-- The code units of a code point. -/
def units (k : ℕ) : List ℕ :=
  if k < 0x10000 then [k]
  else [0xD800 + (k - 0x10000) / 0x400, 0xDC00 + (k - 0x10000) % 0x400]

/-- The code units of a text. -/
def encode (text : List Char) : List ℕ :=
  text.flatMap fun c ↦ units c.toNat

/-! ## Escapes -/

def hexDigit? (c : Char) : Option ℕ :=
  if '0' ≤ c ∧ c ≤ '9' then some (c.toNat - 48)
  else if 'a' ≤ c ∧ c ≤ 'f' then some (c.toNat - 87)
  else if 'A' ≤ c ∧ c ≤ 'F' then some (c.toNat - 55)
  else none

def hex? (digits : List Char) : Option ℕ :=
  digits.foldlM (fun k c ↦ (hexDigit? c).map (16 * k + ·)) 0

/-- A code unit in this number of hexadecimal digits. -/
def fixedHex (n : ℕ) (text : List Char) : Option (List ℕ × List Char) :=
  if text.length < n then none else (hex? (text.take n)).map fun k ↦ ([k], text.drop n)

/-- A code point in braces. -/
def codePoint (text : List Char) : Option (List ℕ × List Char) :=
  match hex? (text.takeWhile (· ≠ '\x7d')), text.dropWhile (· ≠ '\x7d') with
  | some k, _ :: rest =>
      if text.head? = some '\x7d' ∨ 0x10FFFF < k then none else some (units k, rest)
  | _, _ => none

def unicode : List Char → Option (List ℕ × List Char)
  | [] => none
  | c :: text => if c = '\x7b' then codePoint text else fixedHex 4 (c :: text)

def isOctal (c : Char) : Bool :=
  '0' ≤ c && c ≤ '7'

/-- At most three digits, and no more than fit into a byte. -/
def octal (c : Char) (text : List Char) : List ℕ × List Char :=
  let more := (text.take (if c ≤ '3' then 2 else 1)).takeWhile isOctal
  ([(c :: more).foldl (fun k d ↦ 8 * k + (d.toNat - 48)) 0], text.drop more.length)

/-- The characters of which an escape stands for a control character. -/
def control? (c : Char) : Option ℕ :=
  if c = 'b' then some 8
  else if c = 't' then some 9
  else if c = 'n' then some 10
  else if c = 'v' then some 11
  else if c = 'f' then some 12
  else if c = 'r' then some 13
  else none

/-- What an escape stands for, and the text behind it.  The end of a line stands for
nothing, and most characters stand for themselves. -/
def escape : List Char → Option (List ℕ × List Char)
  | [] => none
  | c :: text =>
      if c = 'x' then fixedHex 2 text
      else if c = 'u' then unicode text
      else if isOctal c then some (octal c text)
      else if c = '\r' then some ([], if text.head? = some '\n' then text.tail else text)
      else if c = '\n' ∨ c = '\u2028' ∨ c = '\u2029' then some ([], text)
      else some ((control? c).elim (units c.toNat) ([·]), text)

/-- No text needs more steps than it has characters. -/
def read : ℕ → List Char → Option (List ℕ)
  | _, [] => some []
  | 0, _ :: _ => none
  | n + 1, c :: text =>
      if c = '\x5c' then (escape text).bind fun parts ↦ (read n parts.2).map (parts.1 ++ ·)
      else if c = '\x27' ∨ c = '\n' ∨ c = '\r' then none
      else (read n text).map (units c.toNat ++ ·)

/-- The value of a literal, if the text is one. -/
def value (text : List Char) : Option (List ℕ) :=
  read text.length text

/-! ## Lengths -/

@[simp] theorem encode_nil : encode [] = [] := rfl

@[simp] theorem encode_cons (c : Char) (text : List Char) :
    encode (c :: text) = units c.toNat ++ encode text := rfl

theorem encode_append (text more : List Char) :
    encode (text ++ more) = encode text ++ encode more :=
  List.flatMap_append

theorem length_units (k : ℕ) : 1 ≤ (units k).length ∧ (units k).length ≤ 2 := by
  unfold units
  split_ifs
  · exact ⟨Nat.le_refl 1, Nat.le_succ 1⟩
  · exact ⟨Nat.le_succ 1, Nat.le_refl 2⟩

theorem length_le_encode (text : List Char) : text.length ≤ (encode text).length := by
  induction text with
  | nil => exact le_refl 0
  | cons c text ih =>
      have := (length_units c.toNat).1
      simp only [encode_cons, List.length_append, List.length_cons]
      omega

/-- The escape is the first part of the text, and at least as long as what it stands for. -/
def Taken (text : List Char) (parts : List ℕ × List Char) : Prop :=
  ∃ first, text = first ++ parts.2 ∧ parts.1.length ≤ (encode first).length

variable {text : List Char} {parts : List ℕ × List Char}

theorem taken_of_length (first : List Char) (htext : text = first ++ parts.2)
    (hlength : parts.1.length ≤ first.length) : Taken text parts :=
  ⟨first, htext, hlength.trans (length_le_encode first)⟩

theorem taken_fixedHex {n : ℕ} (hn : 0 < n) (h : fixedHex n text = some parts) :
    Taken text parts := by
  unfold fixedHex at h
  split_ifs at h with hshort
  obtain ⟨k, -, rfl⟩ := Option.map_eq_some_iff.mp h
  refine taken_of_length _ (List.take_append_drop n text).symm ?_
  rw [List.length_take, List.length_singleton]
  omega

theorem taken_codePoint (h : codePoint text = some parts) : Taken ('\x7b' :: text) parts := by
  unfold codePoint at h
  have hsplit : text.takeWhile (· ≠ '\x7d') ++ text.dropWhile (· ≠ '\x7d') = text :=
    List.takeWhile_append_dropWhile
  cases hdigits : hex? (text.takeWhile (· ≠ '\x7d')) with
  | none =>
      rw [hdigits] at h
      cases h
  | some k =>
      cases hrest : text.dropWhile (· ≠ '\x7d') with
      | nil =>
          rw [hdigits, hrest] at h
          cases h
      | cons c rest =>
          rw [hdigits, hrest] at h
          simp only at h
          split_ifs at h
          cases h
          rw [hrest] at hsplit
          refine taken_of_length ('\x7b' :: text.takeWhile (· ≠ '\x7d') ++ [c]) ?_ ?_
          · rw [List.cons_append, List.cons_append, List.append_assoc]
            exact congrArg ('\x7b' :: ·) hsplit.symm
          · have := (length_units k).2
            simp only [List.length_append, List.length_cons, List.length_nil]
            omega

theorem taken_unicode (h : unicode text = some parts) : Taken text parts := by
  cases text with
  | nil => cases h
  | cons c text =>
      rw [unicode] at h
      split_ifs at h with hbrace
      · rw [hbrace]
        exact taken_codePoint h
      · exact taken_fixedHex (by decide) h

/-- An escape has at least one character, and as many more as it takes. -/
theorem exists_taken_escape {c : Char} (h : escape (c :: text) = some parts) :
    ∃ first, text = first ++ parts.2 ∧ parts.1.length ≤ (encode (c :: first)).length := by
  have hfirst : ∀ first, 1 ≤ (encode (c :: first)).length := fun first ↦
    (Nat.succ_le_succ (Nat.zero_le _)).trans (length_le_encode (c :: first))
  have hnumber : Taken text parts → ∃ first, text = first ++ parts.2 ∧
      parts.1.length ≤ (encode (c :: first)).length := by
    rintro ⟨first, htext, hlength⟩
    refine ⟨first, htext, ?_⟩
    rw [encode_cons, List.length_append]
    omega
  rw [escape] at h
  split_ifs at h with hx hu hoctal hreturn hfeed hline
  · exact hnumber (taken_fixedHex (by decide) h)
  · exact hnumber (taken_unicode h)
  · cases h
    exact ⟨_, (List.take_append_drop _ text).symm, hfirst _⟩
  · cases h
    obtain ⟨rest, rfl⟩ := List.head?_eq_some_iff.mp hfeed
    exact ⟨['\n'], rfl, Nat.zero_le _⟩
  · cases h
    exact ⟨[], rfl, Nat.zero_le _⟩
  · cases h
    exact ⟨[], rfl, Nat.zero_le _⟩
  · cases h
    refine ⟨[], rfl, ?_⟩
    cases control? c with
    | none =>
        rw [encode_cons, encode_nil, List.append_nil]
        exact Nat.le_refl _
    | some k => exact hfirst []

theorem length_escape (h : escape text = some parts) : parts.2.length ≤ text.length := by
  cases text with
  | nil => cases h
  | cons c text =>
      obtain ⟨first, htext, -⟩ := exists_taken_escape h
      rw [htext, List.length_cons, List.length_append]
      omega

theorem length_encode_escape (h : escape text = some parts) :
    parts.1.length + (encode parts.2).length ≤ (encode text).length := by
  cases text with
  | nil => cases h
  | cons c text =>
      obtain ⟨first, htext, hlength⟩ := exists_taken_escape h
      rw [htext, ← List.cons_append, encode_append, List.length_append]
      exact Nat.add_le_add_right hlength _

/-! ## Values -/

/-- More steps than characters make no difference. -/
theorem read_eq {n m : ℕ} (hn : text.length ≤ n) (hm : text.length ≤ m) :
    read n text = read m text := by
  induction n generalizing m text with
  | zero =>
      rw [List.length_eq_zero_iff.mp (Nat.le_zero.mp hn)]
      cases m <;> rfl
  | succ n ih =>
      cases text with
      | nil => cases m <;> rfl
      | cons c text =>
          obtain ⟨m, rfl⟩ : ∃ k, m = k + 1 := ⟨m - 1, by simp at hm; omega⟩
          rw [List.length_cons] at hn hm
          have hrest : read n text = read m text := ih (by omega) (by omega)
          have hescape : (escape text).bind (fun parts ↦ (read n parts.2).map (parts.1 ++ ·)) =
              (escape text).bind fun parts ↦ (read m parts.2).map (parts.1 ++ ·) := by
            refine Option.bind_congr fun parts hparts ↦ ?_
            have := length_escape hparts
            rw [ih (m := m) (by omega) (by omega)]
          rw [read, read, hrest, hescape]

theorem value_escape (h : escape text = some parts) :
    value ('\x5c' :: text) = (value parts.2).map (parts.1 ++ ·) := by
  have hread : value ('\x5c' :: text) =
      (escape text).bind fun parts ↦ (read text.length parts.2).map (parts.1 ++ ·) := rfl
  rw [hread, h, Option.bind_some, read_eq (length_escape h) (Nat.le_refl _)]
  rfl

/-- A character that stands for itself in a literal. -/
def Raw (c : Char) : Prop :=
  c ≠ '\x5c' ∧ c ≠ '\x27' ∧ c ≠ '\n' ∧ c ≠ '\r'

instance : DecidablePred Raw :=
  fun _ ↦ inferInstanceAs (Decidable (_ ∧ _ ∧ _ ∧ _))

theorem value_raw {c : Char} (h : Raw c) (text : List Char) :
    value (c :: text) = (value text).map (units c.toNat ++ ·) := by
  obtain ⟨hbackslash, hquote, hfeed, hreturn⟩ := h
  rw [value, List.length_cons, read, if_neg hbackslash, if_neg (by simp [hquote, hfeed, hreturn])]
  rfl

theorem value_eq_encode (h : ∀ c ∈ text, Raw c) : value text = some (encode text) := by
  induction text with
  | nil => rfl
  | cons c text ih =>
      rw [value_raw (h c List.mem_cons_self), ih fun d hd ↦ h d (List.mem_cons_of_mem c hd)]
      rfl

/-- A literal is longer than its value if it has an escape. -/
theorem length_read {n : ℕ} {us : List ℕ} (h : read n text = some us) :
    us.length ≤ (encode text).length ∧
      (us.length = (encode text).length → ∀ c ∈ text, Raw c) := by
  induction n generalizing text us with
  | zero =>
      cases text with
      | nil =>
          cases h
          exact ⟨Nat.le_refl 0, by simp⟩
      | cons c text => cases h
  | succ n ih =>
      cases text with
      | nil =>
          cases h
          exact ⟨Nat.le_refl 0, by simp⟩
      | cons c text =>
          rw [read] at h
          have hunits := (length_units c.toNat).1
          rw [encode_cons, List.length_append]
          split_ifs at h with hbackslash hends
          · obtain ⟨parts, hparts, h⟩ := Option.bind_eq_some_iff.mp h
            obtain ⟨rest, hrest, rfl⟩ := Option.map_eq_some_iff.mp h
            have hlength := (ih hrest).1
            have hescape := length_encode_escape hparts
            rw [List.length_append]
            exact ⟨by omega, fun heq ↦ by omega⟩
          · obtain ⟨rest, hrest, rfl⟩ := Option.map_eq_some_iff.mp h
            obtain ⟨hlength, hraw⟩ := ih hrest
            rw [List.length_append]
            refine ⟨by omega, fun heq d hd ↦ ?_⟩
            rcases List.mem_cons.mp hd with rfl | hd
            · simp only [not_or] at hends
              exact ⟨hbackslash, hends⟩
            · exact hraw (by omega) d hd

theorem raw_of_value {us : List ℕ} (h : value text = some us)
    (hlength : us.length = (encode text).length) : ∀ c ∈ text, Raw c :=
  (length_read h).2 hlength

end HttpRaftKv.StringLiteral
