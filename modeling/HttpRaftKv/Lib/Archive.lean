import Mathlib.Data.Nat.Notation

/-!
# Text archives

The serialization library is not part of the repository.  An archive of a type
writes a value as a text and reads a text back, and reading may throw.  Only
what the library documents about it is assumed: reading a written text gives
the value back, and a written text, which starts with the archive header, is
not empty.
-/

namespace HttpRaftKv

class TextArchive (α : Type) where
  save : α → String
  load : String → Option α

class LawfulTextArchive (α : Type) [TextArchive α] : Prop where
  load_save : ∀ a : α, TextArchive.load (TextArchive.save a) = some a
  save_ne_empty : ∀ a : α, TextArchive.save a ≠ ""

attribute [simp] LawfulTextArchive.load_save LawfulTextArchive.save_ne_empty

end HttpRaftKv
