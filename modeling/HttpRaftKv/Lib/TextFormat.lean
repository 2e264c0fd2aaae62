import HttpRaftKv.Lib.Archive
import Mathlib.Data.Int.Notation

/-!
# Length-prefixed text formats

A format writes a value as characters and reads it back from the front of a
longer text.  A number is its decimal digits and a blank; strings and lists
carry their length in front.  A format behind the header of the archive library
is an archive that keeps its laws.
-/

namespace HttpRaftKv

structure TextFormat (α : Type) where
  write : α → List Char
  read : List Char → Option (α × List Char)
  read_write : ∀ a rest, read (write a ++ rest) = some (a, rest)

namespace TextFormat

variable {α β : Type}

def readNat (cs : List Char) : Option (ℕ × List Char) :=
  match cs.dropWhile Char.isDigit with
  | ' ' :: rest => some (Nat.ofDigitChars 10 (cs.takeWhile Char.isDigit) 0, rest)
  | _ => none

def nat : TextFormat ℕ where
  write k := Nat.toDigits 10 k ++ [' ']
  read := readNat
  read_write := by
    intro k rest
    have hdigit : ∀ c ∈ Nat.toDigits 10 k, c.isDigit = true := fun c hc ↦
      Nat.isDigit_of_mem_toDigits (by decide) (by decide) hc
    have hblank : Char.isDigit ' ' = false := by decide
    simp [readNat, List.dropWhile_append_of_pos hdigit, List.takeWhile_append_of_pos hdigit,
      hblank, Nat.ofDigitChars_ten_toDigits]

/-- A written number does not start with a sign. -/
theorem head?_write_nat (k : ℕ) (rest : List Char) : (nat.write k ++ rest).head? ≠ some '-' := by
  have hdigit : '-' ∉ Nat.toDigits 10 k := fun hmem ↦
    absurd (Nat.isDigit_of_mem_toDigits (by decide) (by decide) hmem) (by decide)
  intro hhead
  cases hdigits : Nat.toDigits 10 k with
  | nil => simp [nat, hdigits] at hhead
  | cons c cs =>
      simp only [nat, hdigits, List.cons_append, List.head?_cons, Option.some.injEq] at hhead
      rw [hdigits, hhead] at hdigit
      exact hdigit List.mem_cons_self

def int : TextFormat ℤ where
  write z := (if z < 0 then ['-'] else []) ++ nat.write z.natAbs
  read cs :=
    if cs.head? = some '-' then
      (nat.read cs.tail).map fun p ↦ (-(p.1 : ℤ), p.2)
    else
      (nat.read cs).map fun p ↦ ((p.1 : ℤ), p.2)
  read_write := by
    intro z rest
    by_cases hz : z < 0
    · have habs : -(z.natAbs : ℤ) = z := by omega
      rw [if_pos hz, List.singleton_append, List.cons_append, List.head?_cons, if_pos rfl,
        List.tail_cons, nat.read_write, Option.map_some, habs]
    · have habs : (z.natAbs : ℤ) = z := by omega
      rw [if_neg hz, List.nil_append, if_neg (head?_write_nat _ _), nat.read_write,
        Option.map_some, habs]

def text : TextFormat String where
  write s := nat.write s.toList.length ++ s.toList
  read cs := do
    let (k, rest) ← nat.read cs
    if k ≤ rest.length then return (String.ofList (rest.take k), rest.drop k) else none
  read_write := by
    intro s rest
    rw [List.append_assoc, nat.read_write]
    simp

def pair (f : TextFormat α) (g : TextFormat β) : TextFormat (α × β) where
  write p := f.write p.1 ++ g.write p.2
  read cs := do
    let (a, rest) ← f.read cs
    let (b, rest) ← g.read rest
    return ((a, b), rest)
  read_write := by
    rintro ⟨a, b⟩ rest
    simp [List.append_assoc, f.read_write, g.read_write]

def readMany (f : TextFormat α) : ℕ → List Char → Option (List α × List Char)
  | 0, cs => some ([], cs)
  | k + 1, cs => do
      let (a, rest) ← f.read cs
      let (as, rest) ← f.readMany k rest
      return (a :: as, rest)

theorem readMany_write (f : TextFormat α) (as : List α) (rest : List Char) :
    f.readMany as.length (as.flatMap f.write ++ rest) = some (as, rest) := by
  induction as with
  | nil => rfl
  | cons a as ih => simp [readMany, List.append_assoc, f.read_write, ih]

def list (f : TextFormat α) : TextFormat (List α) where
  write as := nat.write as.length ++ as.flatMap f.write
  read cs := do
    let (k, rest) ← nat.read cs
    f.readMany k rest
  read_write := by
    intro as rest
    rw [List.append_assoc, nat.read_write]
    exact f.readMany_write as rest

/-- The format of a type whose values are written as those of another. -/
def via (f : TextFormat β) (enc : α → β) (dec : β → Option α)
    (hdec : ∀ a, dec (enc a) = some a) : TextFormat α where
  write a := f.write (enc a)
  read cs := do
    let (b, rest) ← f.read cs
    let a ← dec b
    return (a, rest)
  read_write := by
    intro a rest
    simp [f.read_write, hdec]

/-- The signature and the version that the archive library writes first. -/
def header : String :=
  "22 serialization::archive 19 0 0 "

def save (f : TextFormat α) (a : α) : String :=
  header ++ String.ofList (f.write a)

def load (f : TextFormat α) (s : String) : Option α :=
  if header.toList <+: s.toList then
    (f.read (s.toList.drop header.toList.length)).map Prod.fst
  else
    none

theorem load_save (f : TextFormat α) (a : α) : f.load (f.save a) = some a := by
  have hread := f.read_write a []
  rw [List.append_nil] at hread
  simp [load, save, hread]

theorem save_ne_empty (f : TextFormat α) (a : α) : f.save a ≠ "" := by
  intro hempty
  have hheader : header = "" := (String.append_eq_empty_iff.mp hempty).1
  exact absurd hheader (by decide)

@[reducible] def archive (f : TextFormat α) : TextArchive α where
  save := f.save
  load := f.load

theorem lawful_archive (f : TextFormat α) : @LawfulTextArchive α f.archive :=
  @LawfulTextArchive.mk α f.archive f.load_save f.save_ne_empty

end TextFormat

end HttpRaftKv
