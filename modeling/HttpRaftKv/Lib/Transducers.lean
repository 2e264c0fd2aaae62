import HttpRaftKv.Lib.Runs

/-!
# Machines that answer

A machine takes one input after another, changes its state and gives an answer
to each input.  Two machines are compared by their answers.  The rules below
derive a statement about all sequences of inputs from a relation between the
states that one input preserves.
-/

namespace HttpRaftKv.Transducers

variable {σ τ ι ο : Type*}

/-- The answers to a sequence of inputs, first input first. -/
def answers (step : σ → ι → ο × σ) : σ → List ι → List ο
  | _, [] => []
  | s, i :: is => (step s i).1 :: answers step (step s i).2 is

variable {f : σ → ι → ο × σ} {g : τ → ι → ο × τ} {R : σ → τ → Prop}

/-- If the answers to one input agree exactly under a condition, and under that
condition the relation is kept, then the answers to a sequence agree exactly if
the condition holds at each of its inputs. -/
theorem answers_eq_iff_along {ok : τ → ι → Prop}
    (hanswer : ∀ s t i, R s t → ((f s i).1 = (g t i).1 ↔ ok t i))
    (hkeep : ∀ s t i, R s t → ok t i → R (f s i).2 (g t i).2) (is : List ι) :
    ∀ s t, R s t →
      (answers f s is = answers g t is ↔ Runs.Along (fun t i ↦ (g t i).2) ok t is) := by
  induction is with
  | nil => exact fun _ _ _ ↦ iff_of_true rfl trivial
  | cons i is ih =>
      intro s t hR
      rw [answers, answers, List.cons_eq_cons, hanswer s t i hR, Runs.Along]
      exact and_congr_right fun hok ↦ ih _ _ (hkeep s t i hR hok)

/-- If every answer agrees and the relation is kept, then the answers to a
sequence agree, also where the second machine is given other inputs. -/
theorem answers_eq_answers_map {κ : Type*} {g : τ → κ → ο × τ} (translate : ι → κ)
    (hanswer : ∀ s t i, R s t → (f s i).1 = (g t (translate i)).1)
    (hkeep : ∀ s t i, R s t → R (f s i).2 (g t (translate i)).2) (is : List ι) :
    ∀ s t, R s t → answers f s is = answers g t (is.map translate) := by
  induction is with
  | nil => exact fun _ _ _ ↦ rfl
  | cons i is ih =>
      intro s t hR
      rw [List.map_cons, answers, answers, hanswer s t i hR, ih _ _ (hkeep s t i hR)]

end HttpRaftKv.Transducers
