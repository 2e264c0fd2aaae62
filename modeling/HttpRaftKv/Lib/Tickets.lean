import Mathlib.Data.Nat.Notation
import Mathlib.Logic.Function.Basic

/-!
# Tickets in slots

Something is registered by a ticket that is put into an empty slot.  The ticket leaves
its slot when it is redeemed or torn up.  Tickets are numbered in the order in which
they are issued, so that one can say of each of them that it is redeemed at most once.
-/

namespace HttpRaftKv

structure Ticket (α : Type*) where
  number : ℕ
  content : α
deriving DecidableEq, Repr

namespace Tickets

variable {ι α : Type*}

/-- Every ticket in a slot was issued and not redeemed, and no ticket is in two slots
or was redeemed twice. -/
structure Sound (slots : ι → Option (Ticket α)) (issued : List α) (redeemed : List (Ticket α)) :
    Prop where
  genuine : ∀ i t, slots i = some t → issued[t.number]? = some t.content
  apart : ∀ i j t u, slots i = some t → slots j = some u → t.number = u.number → i = j
  unused : ∀ i t, slots i = some t → t.number ∉ redeemed.map Ticket.number
  redeemed_genuine : ∀ t ∈ redeemed, issued[t.number]? = some t.content
  once : (redeemed.map Ticket.number).Nodup

theorem sound_empty : Sound (fun _ : ι ↦ (none : Option (Ticket α))) [] [] where
  genuine := fun _ _ h ↦ absurd h (Option.some_ne_none _).symm
  apart := fun _ _ _ _ h ↦ absurd h (Option.some_ne_none _).symm
  unused := fun _ _ h ↦ absurd h (Option.some_ne_none _).symm
  redeemed_genuine := fun _ h ↦ absurd h List.not_mem_nil
  once := List.nodup_nil

namespace Sound

variable {slots : ι → Option (Ticket α)} {issued : List α} {redeemed : List (Ticket α)}

theorem number_lt (h : Sound slots issued redeemed) {i : ι} {t : Ticket α}
    (ht : slots i = some t) : t.number < issued.length :=
  (List.getElem?_eq_some_iff.mp (h.genuine i t ht)).1

variable [DecidableEq ι]

/-- A ticket is torn up. -/
theorem void (h : Sound slots issued redeemed) (i : ι) :
    Sound (Function.update slots i none) issued redeemed := by
  have hold : ∀ j t, Function.update slots i none j = some t → slots j = some t := by
    intro j t hj
    by_cases hji : j = i
    · subst hji
      simp at hj
    · rwa [Function.update_of_ne hji] at hj
  constructor
  · exact fun j t hj ↦ h.genuine j t (hold j t hj)
  · exact fun j k t u hj hk ↦ h.apart j k t u (hold j t hj) (hold k u hk)
  · exact fun j t hj ↦ h.unused j t (hold j t hj)
  · exact h.redeemed_genuine
  · exact h.once

/-- A ticket is redeemed. -/
theorem redeem (h : Sound slots issued redeemed) {i : ι} {t : Ticket α} (ht : slots i = some t) :
    Sound (Function.update slots i none) issued (redeemed ++ [t]) := by
  have hvoid := h.void i
  constructor
  · exact hvoid.genuine
  · exact hvoid.apart
  · intro j u hu
    rw [List.map_append, List.mem_append, not_or]
    refine ⟨hvoid.unused j u hu, ?_⟩
    rw [List.map_singleton, List.mem_singleton]
    intro hnumber
    by_cases hji : j = i
    · subst hji
      simp at hu
    · rw [Function.update_of_ne hji] at hu
      exact hji (h.apart j i u t hu ht hnumber)
  · intro u hu
    rcases List.mem_append.mp hu with hu | hu
    · exact h.redeemed_genuine u hu
    · rw [List.mem_singleton.mp hu]
      exact h.genuine i t ht
  · rw [List.map_append, List.map_singleton, List.nodup_append]
    refine ⟨h.once, List.pairwise_singleton _ _, ?_⟩
    rintro n hn m hm rfl
    rw [List.mem_singleton.mp hm] at hn
    exact h.unused i t ht hn

/-- A ticket is issued. -/
theorem issue (h : Sound slots issued redeemed) (i : ι) (a : α) :
    Sound (Function.update slots i (some ⟨issued.length, a⟩)) (issued ++ [a]) redeemed := by
  have hnew : ∀ j t, Function.update slots i (some ⟨issued.length, a⟩) j = some t →
      (j = i ∧ t = ⟨issued.length, a⟩) ∨ (j ≠ i ∧ slots j = some t) := by
    intro j t hj
    by_cases hji : j = i
    · subst hji
      rw [Function.update_self, Option.some.injEq] at hj
      exact .inl ⟨rfl, hj.symm⟩
    · rw [Function.update_of_ne hji] at hj
      exact .inr ⟨hji, hj⟩
  have hgenuine : ∀ t : Ticket α, issued[t.number]? = some t.content →
      (issued ++ [a])[t.number]? = some t.content := by
    intro t ht
    rw [List.getElem?_append_left (List.getElem?_eq_some_iff.mp ht).1]
    exact ht
  constructor
  · intro j t hj
    rcases hnew j t hj with ⟨rfl, rfl⟩ | ⟨-, hj⟩
    · simp
    · exact hgenuine t (h.genuine j t hj)
  · intro j k t u hj hk hnumber
    rcases hnew j t hj with ⟨hji, hjt⟩ | ⟨-, hold⟩ <;>
      rcases hnew k u hk with ⟨hki, hku⟩ | ⟨-, hold'⟩
    · exact hji.trans hki.symm
    · rw [hjt] at hnumber
      exact absurd hnumber (Nat.ne_of_gt (h.number_lt hold'))
    · rw [hku] at hnumber
      exact absurd hnumber (Nat.ne_of_lt (h.number_lt hold))
    · exact h.apart j k t u hold hold' hnumber
  · intro j t hj hmem
    rcases hnew j t hj with ⟨-, hjt⟩ | ⟨-, hold⟩
    · obtain ⟨u, hu, hnumber⟩ := List.mem_map.mp hmem
      have hlt := (List.getElem?_eq_some_iff.mp (h.redeemed_genuine u hu)).1
      rw [hjt] at hnumber
      exact absurd hnumber (Nat.ne_of_lt hlt)
    · exact h.unused j t hold hmem
  · exact fun t ht ↦ hgenuine t (h.redeemed_genuine t ht)
  · exact h.once

end Sound

end Tickets

end HttpRaftKv
