import Mathlib.Data.List.Induction

/-!
# Runs of a deterministic transition system

A system is a step function that takes a state and an action.  A run is the
list of its actions; nondeterminism is the choice of that list.  An invariant
is proved once from its initial case and its step case, either over all runs
or over the runs whose every action meets a side condition in the state in
which it is taken.
-/

namespace HttpRaftKv.Runs

variable {σ α : Type*}

/-- The state reached from `s` by the actions `as`, first action first. -/
def run (step : σ → α → σ) (s : σ) (as : List α) : σ :=
  as.foldl step s

/-- Every action of the run meets `ok` in the state in which it is taken. -/
def Along (step : σ → α → σ) (ok : σ → α → Prop) : σ → List α → Prop
  | _, [] => True
  | s, a :: as => ok s a ∧ Along step ok (step s a) as

variable (step : σ → α → σ)

@[simp] theorem run_nil (s : σ) : run step s [] = s := rfl

@[simp] theorem run_snoc (s : σ) (as : List α) (a : α) :
    run step s (as ++ [a]) = step (run step s as) a := by
  simp [run]

theorem along_snoc (ok : σ → α → Prop) (s : σ) (as : List α) (a : α) :
    Along step ok s (as ++ [a]) ↔ Along step ok s as ∧ ok (run step s as) a := by
  induction as generalizing s with
  | nil => simp [Along]
  | cons b as ih =>
      simp only [List.cons_append, Along, ih, run, List.foldl_cons]
      exact and_assoc.symm

/-- An initial part of a longer run is one of the run itself or all of it. -/
theorem snoc_isPrefix_snoc {as bs : List α} {a b : α} :
    bs ++ [b] <+: as ++ [a] ↔ (bs = as ∧ b = a) ∨ bs ++ [b] <+: as := by
  rw [List.prefix_concat_iff]
  constructor
  · rintro (heq | h)
    · obtain ⟨hinit, hlast⟩ := List.append_inj' heq rfl
      exact .inl ⟨hinit, List.singleton_inj.mp hlast⟩
    · exact .inr h
  · rintro (⟨rfl, rfl⟩ | h)
    · exact .inl rfl
    · exact .inr h

/-- The condition holds along a run exactly if it holds at the end of every
initial part. -/
theorem along_iff_isPrefix (ok : σ → α → Prop) (s : σ) (as : List α) :
    Along step ok s as ↔ ∀ bs a, bs ++ [a] <+: as → ok (run step s bs) a := by
  induction as using List.reverseRecOn with
  | nil =>
      refine ⟨fun _ bs a h ↦ ?_, fun _ ↦ trivial⟩
      have := h.length_le
      simp at this
  | append_singleton as b ih =>
      rw [along_snoc, ih]
      constructor
      · rintro ⟨hpast, hlast⟩ bs a h
        rcases snoc_isPrefix_snoc.mp h with ⟨rfl, rfl⟩ | h
        · exact hlast
        · exact hpast bs a h
      · intro h
        exact ⟨fun bs a hbs ↦ h bs a (hbs.trans (List.prefix_append _ _)), h as b List.prefix_rfl⟩

instance (ok : σ → α → Prop) [∀ s a, Decidable (ok s a)] :
    ∀ s as, Decidable (Along step ok s as)
  | _, [] => inferInstanceAs (Decidable True)
  | s, a :: as =>
      have := instDecidableAlong ok (step s a) as
      inferInstanceAs (Decidable (ok s a ∧ Along step ok (step s a) as))

/-- An invariant of the step function holds along every run.  The invariant
may mention the actions taken so far, so that it can speak of the past. -/
theorem invariant_of_step {s : σ} {P : List α → σ → Prop} (hinit : P [] s)
    (hstep : ∀ as a, P as (run step s as) → P (as ++ [a]) (step (run step s as) a)) :
    ∀ as, P as (run step s as) := by
  intro as
  induction as using List.reverseRecOn with
  | nil => exact hinit
  | append_singleton as a ih =>
      rw [run_snoc]
      exact hstep as a ih

/-- The same rule for the runs whose actions all meet the side condition. -/
theorem invariant_of_step_along {s : σ} {ok : σ → α → Prop} {P : List α → σ → Prop}
    (hinit : P [] s)
    (hstep : ∀ as a, P as (run step s as) → ok (run step s as) a →
      P (as ++ [a]) (step (run step s as) a)) :
    ∀ as, Along step ok s as → P as (run step s as) := by
  intro as
  induction as using List.reverseRecOn with
  | nil => exact fun _ ↦ hinit
  | append_singleton as a ih =>
      intro halong
      obtain ⟨hpast, hlast⟩ := (along_snoc step ok s as a).mp halong
      rw [run_snoc]
      exact hstep as a (ih hpast) hlast

/-- If a step keeps an invariant exactly under the side condition, then the
invariant holds in every state of a run exactly if every action meets it. -/
theorem invariant_iff_along {s : σ} {ok : σ → α → Prop} {P : List α → σ → Prop}
    (hinit : P [] s)
    (hstep : ∀ as a, P as (run step s as) →
      (P (as ++ [a]) (step (run step s as) a) ↔ ok (run step s as) a)) (as : List α) :
    (∀ bs, bs <+: as → P bs (run step s bs)) ↔ Along step ok s as := by
  induction as using List.reverseRecOn with
  | nil =>
      refine ⟨fun _ ↦ trivial, fun _ bs hbs ↦ ?_⟩
      rw [List.prefix_nil.mp hbs]
      exact hinit
  | append_singleton as a ih =>
      rw [along_snoc, ← ih]
      constructor
      · intro h
        have hpast : ∀ bs, bs <+: as → P bs (run step s bs) :=
          fun bs hbs ↦ h bs (hbs.trans (List.prefix_append _ _))
        refine ⟨hpast, (hstep as a (hpast as List.prefix_rfl)).mp ?_⟩
        rw [← run_snoc step s as a]
        exact h _ List.prefix_rfl
      · rintro ⟨hpast, hok⟩ bs hbs
        rcases List.prefix_concat_iff.mp hbs with rfl | hbs
        · rw [run_snoc]
          exact (hstep as a (hpast as List.prefix_rfl)).mpr hok
        · exact hpast bs hbs

/-- The same for a property that follows from the invariant and, after a step
from a state in which the invariant holds, needs the side condition. -/
theorem property_iff_along {s : σ} {ok : σ → α → Prop} {P Q : List α → σ → Prop}
    (hinit : P [] s)
    (hstep : ∀ as a, P as (run step s as) → ok (run step s as) a →
      P (as ++ [a]) (step (run step s as) a))
    (hproperty : ∀ as, P as (run step s as) → Q as (run step s as))
    (hok : ∀ as a, P as (run step s as) → Q (as ++ [a]) (step (run step s as) a) →
      ok (run step s as) a) (as : List α) :
    (∀ bs, bs <+: as → Q bs (run step s bs)) ↔ Along step ok s as := by
  have hinvariant := invariant_of_step_along step hinit hstep
  constructor
  · induction as using List.reverseRecOn with
    | nil => exact fun _ ↦ trivial
    | append_singleton as a ih =>
        intro h
        have hpast := ih fun bs hbs ↦ h bs (hbs.trans (List.prefix_append _ _))
        refine (along_snoc step ok s as a).mpr ⟨hpast, hok as a (hinvariant as hpast) ?_⟩
        rw [← run_snoc step s as a]
        exact h _ List.prefix_rfl
  · intro halong bs hbs
    obtain ⟨rest, rfl⟩ := hbs
    refine hproperty bs (hinvariant bs ?_)
    rw [along_iff_isPrefix] at halong ⊢
    exact fun cs a hcs ↦ halong cs a (hcs.trans (List.prefix_append _ _))

end HttpRaftKv.Runs
