import Mathlib.Data.Fintype.Card

/-!
# Majorities and tallies

A majority of a finite type is a set of more than half of its elements.  Two
majorities have an element in common.  A tally collects the elements whose slot
is in a given phase.
-/

namespace HttpRaftKv

def Majority {ι : Type*} [Fintype ι] (s : Finset ι) : Prop :=
  Fintype.card ι / 2 + 1 ≤ s.card

theorem Majority.exists_mem_mem {ι : Type*} [Fintype ι] {s t : Finset ι}
    (hs : Majority s) (ht : Majority t) : ∃ a ∈ s, a ∈ t := by
  classical
  unfold Majority at hs ht
  have hcard : Fintype.card ι < s.card + t.card := by omega
  obtain ⟨a, ha⟩ := Finset.inter_nonempty_of_card_lt_card_add_card
    (Finset.subset_univ s) (Finset.subset_univ t) (by rwa [Finset.card_univ])
  exact ⟨a, Finset.mem_inter.mp ha⟩

theorem Majority.nonempty {ι : Type*} [Fintype ι] {s : Finset ι} (hs : Majority s) :
    s.Nonempty :=
  Finset.card_pos.mp (lt_of_lt_of_le (Nat.succ_pos _) hs)

section tally

variable {ι α : Type*} [Fintype ι]

def tally (slots : ι → Option α) (phase : α → Bool) : Finset ι :=
  Finset.univ.filter fun i ↦ (slots i).any phase = true

theorem mem_tally {slots : ι → Option α} {phase : α → Bool} {i : ι} :
    i ∈ tally slots phase ↔ ∃ a, slots i = some a ∧ phase a = true := by
  simp [tally, Option.any_eq_true]

theorem tally_update [DecidableEq ι] (slots : ι → Option α) (phase : α → Bool) (i : ι) (a : α) :
    tally (Function.update slots i (some a)) phase =
      if phase a then insert i (tally slots phase) else (tally slots phase).erase i := by
  ext j
  by_cases hj : j = i
  · subst hj
    split_ifs with ha <;> simp [mem_tally, ha]
  · split_ifs with ha <;> simp [mem_tally, hj]

end tally

end HttpRaftKv
