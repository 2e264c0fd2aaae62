import Mathlib.Data.List.Basic
import Mathlib.Data.List.TakeWhile

/-!
# Sets that are kept in order

A set is the list of its elements in a strict order.  An element is looked for, and put in,
at the first place that is not before it; the elements before this place are those of which
a predicate holds that holds of everything before an element of which it holds.
-/

namespace HttpRaftKv.OrderedSet

variable {α : Type*} {r : α → α → Prop} {before : α → Bool} {x : α} {s : List α}

/-- The element at the first place that is not before it. -/
def putIn (before : α → Bool) (x : α) (s : List α) : List α :=
  s.takeWhile before ++ x :: s.dropWhile before

@[simp] theorem mem_putIn {a : α} : a ∈ putIn before x s ↔ a = x ∨ a ∈ s := by
  conv_rhs => rw [← s.takeWhile_append_dropWhile (p := before)]
  simp only [putIn, List.mem_append, List.mem_cons]
  exact or_left_comm

/-- Behind the first place that is not before it nothing is. -/
theorem not_before_of_mem_dropWhile (h : s.Pairwise r)
    (hcut : ∀ a b, r a b → before b = true → before a = true) :
    ∀ a ∈ s.dropWhile before, before a = false := by
  induction s with
  | nil => exact fun a ha ↦ absurd ha List.not_mem_nil
  | cons first s ih =>
      obtain ⟨hfirst, hrest⟩ := List.pairwise_cons.mp h
      cases hbefore : before first with
      | true =>
          rw [List.dropWhile_cons_of_pos hbefore]
          exact ih hrest
      | false =>
          rw [List.dropWhile_cons_of_neg (by simp [hbefore])]
          intro a ha
          rcases List.mem_cons.mp ha with rfl | hmem
          · exact hbefore
          · by_contra hnot
            rw [Bool.not_eq_false] at hnot
            have hpast := hcut first a (hfirst a hmem) hnot
            rw [hbefore] at hpast
            cases hpast

theorem pairwise_putIn (h : s.Pairwise r)
    (hcut : ∀ a b, r a b → before b = true → before a = true)
    (hbefore : ∀ a ∈ s, before a = true → r a x) (hafter : ∀ a ∈ s, before a = false → r x a) :
    (putIn before x s).Pairwise r := by
  have hsplit := h
  rw [← s.takeWhile_append_dropWhile (p := before), List.pairwise_append] at hsplit
  obtain ⟨hfront, hback, hacross⟩ := hsplit
  refine List.pairwise_append.mpr ⟨hfront, List.pairwise_cons.mpr ⟨fun a ha ↦ ?_, hback⟩, ?_⟩
  · exact hafter a ((List.dropWhile_sublist _).subset ha)
      (not_before_of_mem_dropWhile h hcut a ha)
  · intro a ha b hb
    rcases List.mem_cons.mp hb with rfl | hb
    · exact hbefore a ((List.takeWhile_sublist _).subset ha) (List.mem_takeWhile_imp ha)
    · exact hacross a ha b hb

/-- An element of the set is at the first place that is not before it. -/
theorem head?_dropWhile (h : s.Pairwise r) (hx : x ∈ s) (hself : before x = false)
    (hbefore : ∀ a ∈ s, r a x → before a = true) : (s.dropWhile before).head? = some x := by
  obtain ⟨front, back, rfl⟩ := List.append_of_mem hx
  have hfront : ∀ a ∈ front, before a = true := fun a ha ↦
    hbefore a (List.mem_append_left _ ha)
      ((List.pairwise_append.mp h).2.2 a ha x List.mem_cons_self)
  rw [List.dropWhile_append_of_pos hfront, List.dropWhile_cons_of_neg (by simp [hself])]
  rfl

/-- If one part of a list has a property and the rest does not, they are its two halves. -/
theorem filter_of_append {front back : List α} {p : α → Bool} (hfront : ∀ a ∈ front, p a = true)
    (hback : ∀ a ∈ back, p a = false) :
    (front ++ back).filter p = front ∧ ((front ++ back).filter fun a ↦ !p a) = back := by
  constructor
  · rw [List.filter_append, List.filter_eq_self.mpr hfront, List.filter_eq_nil_iff.mpr,
      List.append_nil]
    exact fun a ha ↦ by simp [hback a ha]
  · rw [List.filter_append, List.filter_eq_nil_iff.mpr, List.filter_eq_self.mpr, List.nil_append]
    · exact fun a ha ↦ by simp [hback a ha]
    · exact fun a ha ↦ by simp [hfront a ha]

end HttpRaftKv.OrderedSet
