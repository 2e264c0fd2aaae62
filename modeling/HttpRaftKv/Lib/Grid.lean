import Mathlib.Data.List.Basic
import Mathlib.Data.Int.Notation
import Mathlib.Data.Nat.Notation

/-!
# Grids and lines

A grid is a list of rows.  Writing one cell changes the number of cells of a kind by
the old and the new content of this cell.  On a line with a position that belongs to a
set, the set has `size` places in a row through this position exactly if the stretches
to both sides of it are long enough.
-/

namespace HttpRaftKv

/-! ## Cells of a kind -/

section Count

variable {α : Type*} (p : α → Bool)

theorem countP_set_add {row : List α} {j : ℕ} {old : α} (h : row[j]? = some old) (new : α) :
    (row.set j new).countP p + (if p old then 1 else 0) =
      row.countP p + if p new then 1 else 0 := by
  induction row generalizing j with
  | nil => cases h
  | cons a row ih =>
      cases j with
      | zero =>
          cases h
          simp only [List.set_cons_zero, List.countP_cons]
          omega
      | succ j =>
          have := ih h
          simp only [List.set_cons_succ, List.countP_cons]
          omega

theorem countP_flatten_modify_add {grid : List (List α)} {i j : ℕ} {row : List α} {old : α}
    (hrow : grid[i]? = some row) (hold : row[j]? = some old) (new : α) :
    (grid.modify i fun row ↦ row.set j new).flatten.countP p + (if p old then 1 else 0) =
      grid.flatten.countP p + if p new then 1 else 0 := by
  induction grid generalizing i with
  | nil => cases hrow
  | cons first grid ih =>
      cases i with
      | zero =>
          cases hrow
          have := countP_set_add p hold new
          simp only [List.modify_zero_cons, List.flatten_cons, List.countP_append]
          omega
      | succ i =>
          have := ih hrow
          simp only [List.modify_succ_cons, List.flatten_cons, List.countP_append]
          omega

end Count

/-! ## Stretches of a line -/

/-- From the position 1 on, `count` places in a row belong to the set, and no more unless
this is the largest number that is looked for. -/
structure Stretch (f : ℤ → Prop) (limit count : ℕ) : Prop where
  le : count ≤ limit
  inside : ∀ i : ℕ, 1 ≤ i → i ≤ count → f i
  ends : count < limit → ¬ f (count + 1 : ℕ)

/-- A stretch is as long as the places in a row that it starts with. -/
theorem Stretch.le_of_inside {f : ℤ → Prop} {limit count k : ℕ} (h : Stretch f limit count)
    (hk : k ≤ limit) (hinside : ∀ i : ℕ, 1 ≤ i → i ≤ k → f i) : k ≤ count := by
  by_contra hlt
  exact h.ends (by omega) (hinside (count + 1) (by omega) (by omega))

theorem exists_row_iff {f : ℤ → Prop} {limit forward backward : ℕ} (hzero : f 0)
    (hforward : Stretch f limit forward) (hbackward : Stretch (fun i ↦ f (-i)) limit backward) :
    limit ≤ forward + backward ↔
      ∃ k ≤ limit, ∀ i : ℕ, i ≤ limit → f (i - k) := by
  constructor
  · intro hlong
    refine ⟨backward, hbackward.le, fun i hi ↦ ?_⟩
    rcases Nat.lt_trichotomy i backward with hlt | rfl | hgt
    · have := hbackward.inside (backward - i) (by omega) (by omega)
      rwa [Int.natCast_sub (Nat.le_of_lt hlt), Int.neg_sub] at this
    · rwa [Int.sub_self]
    · have := hforward.inside (i - backward) (by omega) (by omega)
      rwa [Int.natCast_sub (Nat.le_of_lt hgt)] at this
  · rintro ⟨k, hk, hrow⟩
    have hback : k ≤ backward := by
      apply hbackward.le_of_inside hk
      intro i hone hi
      have := hrow (k - i) (by omega)
      have hplace : ((k - i : ℕ) : ℤ) - k = -i := by omega
      rwa [hplace] at this
    have hfore : limit - k ≤ forward := by
      apply hforward.le_of_inside (by omega)
      intro i hone hi
      have := hrow (k + i) (by omega)
      have hplace : ((k + i : ℕ) : ℤ) - k = i := by omega
      rwa [hplace] at this
    omega

end HttpRaftKv
