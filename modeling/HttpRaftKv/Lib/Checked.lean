import Mathlib.Data.List.Forall2
import Mathlib.Data.Fin.Tuple.Basic

/-!
# Computations that may stop at a failed check

A `Checked ε α` computation returns a value or stops at the first check that
fails, with the failure as its result.  The lemmas peel a computation that
succeeded into its successful parts, so that a proof about a checked function
never unfolds the monad.
-/

namespace HttpRaftKv

abbrev Checked (ε α : Type) := Except ε α

namespace Checked

variable {ε α β : Type}

/-- Stop with `e` unless `p` holds. -/
def require (p : Prop) [Decidable p] (e : ε) : Checked ε Unit :=
  if p then .ok () else .error e

@[simp] theorem require_eq_ok {p : Prop} [Decidable p] {e : ε} {u : Unit} :
    require p e = .ok u ↔ p := by
  unfold require
  split <;> simp_all

@[simp] theorem bind_eq_ok {x : Checked ε α} {f : α → Checked ε β} {b : β} :
    (x >>= f) = .ok b ↔ ∃ a, x = .ok a ∧ f a = .ok b := by
  cases x <;> simp [bind, Except.bind]

@[simp] theorem pure_eq_ok {a b : α} : (pure a : Checked ε α) = .ok b ↔ a = b := by
  simp [pure, Except.pure]

/-- A computation succeeds from a successful first part on. -/
theorem exists_bind_eq_ok {x : Checked ε α} {f : α → Checked ε β} {a : α} (hx : x = .ok a)
    (hf : ∃ b, f a = .ok b) : ∃ b, (x >>= f) = .ok b :=
  hf.imp fun _ hb ↦ bind_eq_ok.mpr ⟨a, hx, hb⟩

/-- A check that holds is passed. -/
theorem require_bind {p : Prop} [Decidable p] (h : p) {e : ε} {f : Unit → Checked ε β} :
    (require p e >>= f) = f () := by
  rw [require, if_pos h]
  rfl

theorem exists_require_bind {p : Prop} [Decidable p] {e : ε} {f : Unit → Checked ε β} (h : p)
    (hf : ∃ b, f () = .ok b) : ∃ b, (require p e >>= f) = .ok b := by
  rwa [require_bind h]

/-- A loop that collects one result for each element of a list. -/
theorem mapM_eq_ok {f : α → Checked ε β} {as : List α} {bs : List β} :
    as.mapM f = .ok bs ↔ List.Forall₂ (fun a b ↦ f a = .ok b) as bs := by
  induction as generalizing bs with
  | nil =>
      rw [List.mapM_nil, pure_eq_ok, List.forall₂_nil_left_iff]
      exact eq_comm
  | cons a as ih =>
      simp only [List.mapM_cons, bind_eq_ok, pure_eq_ok, List.forall₂_cons_left_iff, ih]
      constructor
      · rintro ⟨b, hb, bs', hbs', rfl⟩
        exact ⟨b, bs', hb, hbs', rfl⟩
      · rintro ⟨b, bs', hb, hbs', rfl⟩
        exact ⟨b, hb, bs', hbs', rfl⟩

/-- A loop whose turns all succeed succeeds. -/
theorem exists_mapM_eq_ok {f : α → Checked ε β} {as : List α} (h : ∀ a ∈ as, ∃ b, f a = .ok b) :
    ∃ bs, as.mapM f = .ok bs := by
  induction as with
  | nil => exact ⟨[], rfl⟩
  | cons a as ih =>
      obtain ⟨b, hb⟩ := h a List.mem_cons_self
      obtain ⟨bs, hbs⟩ := ih fun a' ha' ↦ h a' (List.mem_cons_of_mem a ha')
      exact ⟨b :: bs, mapM_eq_ok.mpr (.cons hb (mapM_eq_ok.mp hbs))⟩

/-- A loop over the indices below `n` that collects one result for each and
stops at the first failure. -/
def forFin : {n : ℕ} → (Fin n → Checked ε β) → Checked ε (Fin n → β)
  | 0, _ => .ok Fin.elim0
  | _ + 1, f => do
      let b ← f 0
      let rest ← forFin fun i ↦ f i.succ
      return Fin.cons b rest

@[simp] theorem forFin_eq_ok : ∀ {n : ℕ} {f : Fin n → Checked ε β} {g : Fin n → β},
    forFin f = .ok g ↔ ∀ i, f i = .ok (g i)
  | 0, _, _ => by
      simp only [forFin, Except.ok.injEq]
      exact ⟨fun _ i ↦ i.elim0, fun _ ↦ funext fun i ↦ i.elim0⟩
  | n + 1, f, g => by
      simp only [forFin, bind_eq_ok, forFin_eq_ok, pure_eq_ok]
      constructor
      · rintro ⟨b, hb, rest, hrest, rfl⟩ i
        refine Fin.cases ?_ (fun j ↦ ?_) i
        · exact hb
        · exact hrest j
      · intro h
        exact ⟨g 0, h 0, fun j ↦ g j.succ, fun j ↦ h j.succ, Fin.cons_self_tail g⟩

end Checked

end HttpRaftKv
