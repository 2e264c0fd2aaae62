import Mathlib.Data.List.Basic

/-!
# Loops that may fail

A loop over a list in which every turn may fail has the same result as the loop without
failures if no turn fails.
-/

namespace HttpRaftKv.Loops

variable {α β : Type}

theorem foldlM_eq_some {f : β → α → Option β} {g : β → α → β} {as : List α}
    (h : ∀ b, ∀ a ∈ as, f b a = some (g b a)) (b : β) :
    as.foldlM f b = some (as.foldl g b) := by
  induction as generalizing b with
  | nil => rfl
  | cons a as ih =>
      rw [List.foldlM_cons, h b a List.mem_cons_self, List.foldl_cons]
      exact ih (fun b a' ha' ↦ h b a' (List.mem_cons_of_mem a ha')) (g b a)

theorem anyM_eq_some {p : α → Option Bool} {q : α → Bool} {as : List α}
    (h : ∀ a ∈ as, p a = some (q a)) : as.anyM p = some (as.any q) := by
  induction as with
  | nil => rfl
  | cons a as ih =>
      have hrest := ih fun a' ha' ↦ h a' (List.mem_cons_of_mem a ha')
      simp only [List.anyM, h a List.mem_cons_self, List.any_cons, Option.bind_eq_bind,
        Option.bind_some]
      cases q a with
      | true => rfl
      | false => exact hrest

theorem findM?_eq_some {p : α → Option Bool} {q : α → Bool} {as : List α}
    (h : ∀ a ∈ as, p a = some (q a)) : as.findM? p = some (as.find? q) := by
  induction as with
  | nil => rfl
  | cons a as ih =>
      have hrest := ih fun a' ha' ↦ h a' (List.mem_cons_of_mem a ha')
      simp only [List.findM?, h a List.mem_cons_self, List.find?_cons, Option.bind_eq_bind,
        Option.bind_some]
      cases q a with
      | true => rfl
      | false => exact hrest

/-- A loop that collects the elements with a property. -/
theorem foldl_append_eq_filter (q : α → Bool) (as acc : List α) :
    as.foldl (fun found a ↦ if q a then found ++ [a] else found) acc = acc ++ as.filter q := by
  induction as generalizing acc with
  | nil => exact (List.append_nil acc).symm
  | cons a as ih =>
      rw [List.foldl_cons, ih]
      cases hq : q a with
      | true => rw [if_pos rfl, List.filter_cons_of_pos hq, List.append_assoc, List.singleton_append]
      | false => rw [if_neg Bool.false_ne_true, List.filter_cons_of_neg (by simp [hq])]

end HttpRaftKv.Loops
