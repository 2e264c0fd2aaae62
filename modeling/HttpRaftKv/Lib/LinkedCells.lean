import Mathlib.Data.List.GetD
import Mathlib.Data.List.Induction
import Mathlib.Order.Basic

/-!
# Cells linked by pointers

The cells of a store are named by addresses, and `next a` reads the pointer of
the cell `a`: it is `none` if the cell cannot be read, and `some none` at the
end.  `Linked next a l` says that the pointers lead from `a` through the
addresses `l` to the end.  A list of linked cells changes by one write when an
address is linked behind another or is taken out.  The loops over the levels of
such a store run over an interval of numbers and may fail.
-/

namespace HttpRaftKv

section loops

variable {σ α : Type}

/-- Write a slot of an array; there is no such slot behind its end. -/
def store (xs : List α) (i : ℕ) (x : α) : Option (List α) :=
  if i < xs.length then some (xs.set i x) else none

theorem store_eq {xs : List α} {i : ℕ} {x : α} (h : i < xs.length) :
    store xs i x = some (xs.set i x) :=
  if_pos h

/-- A loop that counts up keeps its invariant and does not fail. -/
theorem foldlM_range' {f : σ → ℕ → Option σ} {P : ℕ → σ → Prop} {a : ℕ} {s : σ} :
    ∀ {k : ℕ}, P a s →
      (∀ j t, a ≤ j → j < a + k → P j t → ∃ t', f t j = some t' ∧ P (j + 1) t') →
      ∃ t, (List.range' a k).foldlM f s = some t ∧ P (a + k) t := by
  intro k
  induction k with
  | zero => exact fun hinit _ ↦ ⟨s, rfl, hinit⟩
  | succ k ih =>
      intro hinit hstep
      obtain ⟨t, ht, hinv⟩ := ih hinit fun j t hle hlt ↦ hstep j t hle (by omega)
      obtain ⟨t', ht', hinv'⟩ := hstep (a + k) t (by omega) (by omega) hinv
      refine ⟨t', ?_, hinv'⟩
      rw [List.range'_concat, List.foldlM_append, ht]
      simpa using ht'

/-- A loop that counts down to zero. -/
theorem foldlM_range_reverse {f : σ → ℕ → Option σ} {P : ℕ → σ → Prop} :
    ∀ {k : ℕ} {s : σ}, P k s →
      (∀ j t, j < k → P (j + 1) t → ∃ t', f t j = some t' ∧ P j t') →
      ∃ t, (List.range k).reverse.foldlM f s = some t ∧ P 0 t := by
  intro k
  induction k with
  | zero => exact fun hinit _ ↦ ⟨_, rfl, hinit⟩
  | succ k ih =>
      intro s hinit hstep
      obtain ⟨t, ht, hinv⟩ := hstep k s (Nat.lt_succ_self k) hinit
      obtain ⟨t', ht', hinv'⟩ := ih hinv fun j t hlt ↦ hstep j t (by omega)
      refine ⟨t', ?_, hinv'⟩
      rw [List.range_succ, List.reverse_append, List.reverse_singleton, List.singleton_append,
        List.foldlM_cons, ht]
      exact ht'

end loops

section linked

variable {α : Type}

def Linked (next : α → Option (Option α)) : α → List α → Prop
  | a, [] => next a = some none
  | a, b :: l => next a = some (some b) ∧ Linked next b l

variable {next next' : α → Option (Option α)} {a b x : α} {l l₁ l₂ : List α}

theorem Linked.head (h : Linked next a l) : next a = some l.head? := by
  cases l with
  | nil => exact h
  | cons b l => exact h.1

/-- What stands behind the first part of a list. -/
theorem Linked.read (h : Linked next a (l₁ ++ l₂)) :
    next (l₁.getLastD a) = some l₂.head? := by
  induction l₁ generalizing a with
  | nil => exact h.head
  | cons b l ih =>
      rw [List.getLastD_cons]
      exact ih h.2

theorem Linked.drop (h : Linked next a (l₁ ++ l₂)) : Linked next (l₁.getLastD a) l₂ := by
  induction l₁ generalizing a with
  | nil => exact h
  | cons b l ih =>
      rw [List.getLastD_cons]
      exact ih h.2

/-- Only the pointers of the listed addresses matter. -/
theorem Linked.congr (h : Linked next a l) (hsame : ∀ b ∈ a :: l, next' b = next b) :
    Linked next' a l := by
  induction l generalizing a with
  | nil =>
      have hread := hsame a List.mem_cons_self
      exact hread.trans h
  | cons b l ih =>
      have hread := hsame a List.mem_cons_self
      exact ⟨hread.trans h.1, ih h.2 fun c hc ↦ hsame c (List.mem_cons_of_mem a hc)⟩

theorem getLastD_mem_cons : l.getLastD a ∈ a :: l := by
  rcases List.eq_nil_or_concat l with rfl | ⟨l, b, rfl⟩
  · simp
  · simp

/-- A new address `x` is linked behind the first part. -/
theorem Linked.insert (h : Linked next a (l₁ ++ l₂)) (hnodup : (a :: (l₁ ++ l₂)).Nodup)
    (hx : x ∉ a :: (l₁ ++ l₂)) (hnew : next' x = some l₂.head?)
    (hlast : next' (l₁.getLastD a) = some (some x))
    (hsame : ∀ b, b ≠ x → b ≠ l₁.getLastD a → next' b = next b) :
    Linked next' a (l₁ ++ x :: l₂) := by
  induction l₁ generalizing a with
  | nil =>
      rw [List.nil_append] at h hx hnodup
      have hnot := (List.nodup_cons.mp hnodup).1
      have hout : x ∉ l₂ := fun hmem ↦ hx (List.mem_cons_of_mem a hmem)
      have hkeep : ∀ c ∈ l₂, next' c = next c := by
        intro c hc
        apply hsame
        · rintro rfl
          exact hout hc
        · rintro rfl
          exact hnot hc
      refine ⟨hlast, ?_⟩
      cases l₂ with
      | nil => exact hnew
      | cons b l =>
          exact ⟨hnew, h.2.congr hkeep⟩
  | cons b l ih =>
      rw [List.cons_append] at h hx hnodup
      rw [List.getLastD_cons] at hlast hsame
      have hne : a ≠ l.getLastD b := by
        rintro heq
        have hmem : a ∈ b :: l := heq ▸ getLastD_mem_cons
        exact (List.nodup_cons.mp hnodup).1 (List.mem_append_left l₂ hmem)
      refine ⟨?_, ih h.2 (List.nodup_cons.mp hnodup).2 ?_ hlast hsame⟩
      · rw [hsame a (fun hax ↦ hx (hax ▸ List.mem_cons_self)) hne]
        exact h.1
      · exact fun hmem ↦ hx (List.mem_cons_of_mem a hmem)

/-- An address is taken out: the cell in front of it points behind it. -/
theorem Linked.remove (h : Linked next a (l₁ ++ x :: l₂)) (hnodup : (a :: (l₁ ++ x :: l₂)).Nodup)
    (hlast : next' (l₁.getLastD a) = next x)
    (hsame : ∀ b, b ≠ l₁.getLastD a → next' b = next b) : Linked next' a (l₁ ++ l₂) := by
  induction l₁ generalizing a with
  | nil =>
      rw [List.nil_append] at h hnodup
      have hkeep : ∀ c ∈ l₂, next' c = next c := by
        intro c hc
        apply hsame
        rintro rfl
        exact (List.nodup_cons.mp hnodup).1 (List.mem_cons_of_mem x hc)
      cases l₂ with
      | nil => exact hlast.trans h.2
      | cons b l => exact ⟨hlast.trans h.2.1, h.2.2.congr hkeep⟩
  | cons b l ih =>
      rw [List.cons_append] at h hnodup
      rw [List.getLastD_cons] at hlast hsame
      have hne : a ≠ l.getLastD b := by
        rintro heq
        have hmem : a ∈ b :: l := heq ▸ getLastD_mem_cons
        exact (List.nodup_cons.mp hnodup).1 (List.mem_append_left _ hmem)
      refine ⟨?_, ih h.2 (List.nodup_cons.mp hnodup).2 hlast hsame⟩
      rw [hsame a hne]
      exact h.1

/-- The last element that meets the stronger condition splits the elements that
meet the weaker one. -/
theorem exists_filter_split {β : Type} {p q : β → Bool} (f : β → α) (a : α) (l : List β)
    (hqp : ∀ b, q b = true → p b = true) :
    ∃ l₁ l₂, l.filter p = l₁ ++ l₂ ∧ (l₁.map f).getLastD a = ((l.filter q).map f).getLastD a := by
  induction l using List.reverseRecOn with
  | nil => exact ⟨[], [], rfl, rfl⟩
  | append_singleton l b ih =>
      by_cases hq : q b = true
      · refine ⟨(l ++ [b]).filter p, [], (List.append_nil _).symm, ?_⟩
        simp [List.filter_append, hq, hqp b hq]
      · obtain ⟨l₁, l₂, hsplit, hlast⟩ := ih
        refine ⟨l₁, l₂ ++ [b].filter p, ?_, ?_⟩
        · rw [List.filter_append, hsplit, List.append_assoc]
        · simpa [List.filter_append, hq] using hlast

end linked

end HttpRaftKv
