import Mathlib.Data.List.Basic
import Mathlib.Order.Nat

/-!
# Lists that agree on their first elements

`Agree m l l'` says that two lists have their first `m` elements in common, and
that both have that many.
-/

namespace HttpRaftKv

variable {α : Type*} {l l' l'' : List α} {m m' : ℕ}

structure Agree (m : ℕ) (l l' : List α) : Prop where
  le_left : m ≤ l.length
  le_right : m ≤ l'.length
  getElem? : ∀ k < m, l[k]? = l'[k]?

namespace Agree

theorem refl (h : m ≤ l.length) : Agree m l l :=
  ⟨h, h, fun _ _ ↦ rfl⟩

theorem zero : Agree 0 l l' :=
  ⟨Nat.zero_le _, Nat.zero_le _, fun _ hk ↦ absurd hk (Nat.not_lt_zero _)⟩

theorem symm (h : Agree m l l') : Agree m l' l :=
  ⟨h.le_right, h.le_left, fun k hk ↦ (h.getElem? k hk).symm⟩

theorem trans (h : Agree m l l') (h' : Agree m l' l'') : Agree m l l'' :=
  ⟨h.le_left, h'.le_right, fun k hk ↦ (h.getElem? k hk).trans (h'.getElem? k hk)⟩

theorem mono (h : Agree m l l') (hle : m' ≤ m) : Agree m' l l' :=
  ⟨hle.trans h.le_left, hle.trans h.le_right, fun k hk ↦ h.getElem? k (hk.trans_le hle)⟩

theorem prefix_right (h : Agree m l l') (hp : l' <+: l'') : Agree m l l'' := by
  obtain ⟨r, rfl⟩ := hp
  refine ⟨h.le_left, h.le_right.trans (by simp), fun k hk ↦ ?_⟩
  rw [h.getElem? k hk, List.getElem?_append_left (hk.trans_le h.le_right)]

theorem prefix_left (h : Agree m l l') (hp : l <+: l'') : Agree m l'' l' :=
  (h.symm.prefix_right hp).symm

theorem of_prefix (hp : l <+: l') : Agree l.length l l' :=
  (refl le_rfl).prefix_right hp

theorem take (h : m ≤ l.length) : Agree m (l.take m) l :=
  ⟨by simp [h], h, fun _ hk ↦ List.getElem?_take_of_lt hk⟩

/-- Agreement below a position and from it on. -/
theorem of_below {a : ℕ} (h : Agree a l l') (hl : m ≤ l.length) (hl' : m ≤ l'.length)
    (hget : ∀ k, a ≤ k → k < m → l[k]? = l'[k]?) : Agree m l l' := by
  refine ⟨hl, hl', fun k hk ↦ ?_⟩
  by_cases hak : a ≤ k
  · exact hget k hak hk
  · exact h.getElem? k (Nat.lt_of_not_le hak)

theorem take_eq (h : Agree m l l') : l.take m = l'.take m := by
  refine List.ext_getElem? fun k ↦ ?_
  by_cases hk : k < m
  · rw [List.getElem?_take_of_lt hk, List.getElem?_take_of_lt hk, h.getElem? k hk]
  · rw [List.getElem?_eq_none (by simp; omega), List.getElem?_eq_none (by simp; omega)]

theorem prefix_of_length (h : Agree l.length l l') : l <+: l' := by
  rw [List.prefix_iff_eq_take, ← h.take_eq, List.take_length]

end Agree

end HttpRaftKv
