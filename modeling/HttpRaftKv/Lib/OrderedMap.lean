import Mathlib.Tactic.SplitIfs

/-!
# Maps that are ordered by their keys

A map is the list of its entries, each key once and the lesser keys first.
-/

namespace HttpRaftKv.OrderedMap

/-- The entry of a key is taken out. -/
theorem lookup_filter_ne {κ α : Type} [DecidableEq κ] [BEq κ] [LawfulBEq κ]
    (entries : List (κ × α)) (key key' : κ) :
    (entries.filter fun entry ↦ entry.1 ≠ key).lookup key' =
      if key' = key then none else entries.lookup key' := by
  induction entries with
  | nil => simp
  | cons entry entries ih =>
      obtain ⟨k, value⟩ := entry
      by_cases hk : k = key
      · rw [List.filter_cons_of_neg (by simp [hk]), ih, List.lookup_cons, hk]
        split_ifs with heq
        · rfl
        · rw [beq_eq_false_iff_ne.mpr heq]
      · rw [List.filter_cons_of_pos (by simp [hk]), List.lookup_cons, List.lookup_cons, ih]
        split_ifs with heq
        · rw [heq, beq_eq_false_iff_ne.mpr (Ne.symm hk)]
        · rfl

variable {κ α : Type} [LT κ] [DecidableLT κ] [DecidableEq κ]

/-- `map[key] = value`, at the place of the key in the order. -/
def assign (key : κ) (value : α) : List (κ × α) → List (κ × α)
  | [] => [(key, value)]
  | (k, v) :: entries =>
      if key < k then (key, value) :: (k, v) :: entries
      else if k = key then (key, value) :: entries
      else (k, v) :: assign key value entries

theorem mem_assign {key : κ} {value : α} {entries : List (κ × α)} {entry : κ × α}
    (h : entry ∈ assign key value entries) : entry = (key, value) ∨ entry ∈ entries := by
  induction entries with
  | nil => exact .inl (List.mem_singleton.mp h)
  | cons first entries ih =>
      unfold assign at h
      split_ifs at h with hlt heq
      · exact List.mem_cons.mp h
      · rcases List.mem_cons.mp h with h | h
        · exact .inl h
        · exact .inr (List.mem_cons_of_mem _ h)
      · rcases List.mem_cons.mp h with h | h
        · exact .inr (h ▸ List.mem_cons_self)
        · exact (ih h).imp_right (List.mem_cons_of_mem _)

@[simp] theorem lookup_assign [BEq κ] [LawfulBEq κ] (key key' : κ) (value : α)
    (entries : List (κ × α)) :
    (assign key value entries).lookup key' =
      if key' = key then some value else entries.lookup key' := by
  induction entries with
  | nil =>
      by_cases h : key' = key
      · simp [assign, h]
      · simp [assign, h, List.lookup_cons, beq_false_of_ne h]
  | cons entry entries ih =>
      obtain ⟨k, v⟩ := entry
      unfold assign
      by_cases h : key' = key
      · rw [if_pos h] at ih ⊢
        split_ifs with hlt heq
        · simp [h]
        · simp [h]
        · have hne : key' ≠ k := fun hk ↦ heq (hk.symm.trans h)
          rw [List.lookup_cons, beq_false_of_ne hne, ih]
      · rw [if_neg h] at ih ⊢
        split_ifs with hlt heq
        · simp [List.lookup_cons, beq_false_of_ne h]
        · subst heq
          simp [List.lookup_cons, beq_false_of_ne h]
        · rw [List.lookup_cons, List.lookup_cons, ih]

end HttpRaftKv.OrderedMap
