import Mathlib.Logic.Basic

/-!
# Computations that throw

A computation changes a state and ends with a value or with an exception.  What it
has changed before it throws stays changed.  To show how a computation ends, one
goes backwards through its steps: each rule reduces a claim about a step to one
about its parts.
-/

namespace HttpRaftKv.Throwing

variable {ε σ α β : Type}

/-- There is a value and a state of which `ok` holds, or an exception and a state of
which `thrown` holds. -/
def Meets (ok : α → σ → Prop) (thrown : ε → σ → Prop) : EStateM.Result ε σ α → Prop
  | .ok a s => ok a s
  | .error e s => thrown e s

/-- The computation, started in `s`, ends so. -/
def Ends (x : EStateM ε σ α) (s : σ) (ok : α → σ → Prop) (thrown : ε → σ → Prop) : Prop :=
  Meets ok thrown (x s)

/-- The value if there is one. -/
def orThrow (value : Option α) (e : ε) : EStateM ε σ α :=
  match value with
  | some a => pure a
  | none => throw e

variable {s : σ} {ok : α → σ → Prop} {thrown : ε → σ → Prop}

@[simp] theorem ends_pure (a : α) : Ends (pure a) s ok thrown ↔ ok a s := Iff.rfl

@[simp] theorem ends_throw (e : ε) :
    Ends (throw e : EStateM ε σ α) s ok thrown ↔ thrown e s := Iff.rfl

@[simp] theorem ends_get {ok : σ → σ → Prop} :
    Ends (get : EStateM ε σ σ) s ok thrown ↔ ok s s := Iff.rfl

@[simp] theorem ends_set {ok : PUnit → σ → Prop} (s' : σ) :
    Ends (set s' : EStateM ε σ PUnit) s ok thrown ↔ ok ⟨⟩ s' := Iff.rfl

@[simp] theorem ends_modify {ok : PUnit → σ → Prop} (f : σ → σ) :
    Ends (modify f : EStateM ε σ PUnit) s ok thrown ↔ ok ⟨⟩ (f s) := Iff.rfl

@[simp] theorem ends_bind {ok : β → σ → Prop} (x : EStateM ε σ α) (f : α → EStateM ε σ β) :
    Ends (x >>= f) s ok thrown ↔ Ends x s (fun a s ↦ Ends (f a) s ok thrown) thrown := by
  show Meets ok thrown (EStateM.bind x f s) ↔ Meets _ thrown (x s)
  unfold EStateM.bind
  cases x s <;> rfl

@[simp] theorem ends_map {ok : β → σ → Prop} (f : α → β) (x : EStateM ε σ α) :
    Ends (f <$> x) s ok thrown ↔ Ends x s (fun a s ↦ ok (f a) s) thrown := by
  show Meets ok thrown (EStateM.map f x s) ↔ Meets _ thrown (x s)
  unfold EStateM.map
  cases x s <;> rfl

/-- A handler starts with what has been changed before the exception. -/
@[simp] theorem ends_tryCatch (x : EStateM ε σ α) (handle : ε → EStateM ε σ α) :
    Ends (tryCatch x handle) s ok thrown ↔
      Ends x s ok (fun e s ↦ Ends (handle e) s ok thrown) := by
  show Meets ok thrown (EStateM.tryCatch x handle s) ↔ Meets ok _ (x s)
  unfold EStateM.tryCatch
  cases x s <;> rfl

@[simp] theorem ends_ite (p : Prop) [Decidable p] (x y : EStateM ε σ α) :
    Ends (if p then x else y) s ok thrown ↔
      (p → Ends x s ok thrown) ∧ (¬ p → Ends y s ok thrown) := by
  by_cases hp : p <;> simp [hp]

@[simp] theorem ends_orThrow (value : Option α) (e : ε) :
    Ends (orThrow value e) s ok thrown ↔
      (∀ a, value = some a → ok a s) ∧ (value = none → thrown e s) := by
  cases value <;> simp [orThrow]

@[simp] theorem ends_ofExcept (value : Except ε α) :
    Ends (MonadExcept.ofExcept value : EStateM ε σ α) s ok thrown ↔
      (∀ a, value = .ok a → ok a s) ∧ (∀ e, value = .error e → thrown e s) := by
  cases value <;> simp [MonadExcept.ofExcept]

theorem Ends.mono {x : EStateM ε σ α} {ok' : α → σ → Prop} {thrown' : ε → σ → Prop}
    (h : Ends x s ok thrown) (hok : ∀ a s, ok a s → ok' a s)
    (hthrown : ∀ e s, thrown e s → thrown' e s) : Ends x s ok' thrown' := by
  unfold Ends at *
  cases hx : x s with
  | ok a s =>
      rw [hx] at h
      exact hok a s h
  | error e s =>
      rw [hx] at h
      exact hthrown e s h

/-! ## What a computation keeps -/

variable {τ : Type} {f : σ → τ}

/-- The computation keeps a value that is read from the state, however it ends. -/
def Keeps (f : σ → τ) (x : EStateM ε σ α) : Prop :=
  ∀ s, Ends x s (fun _ s' ↦ f s' = f s) fun _ s' ↦ f s' = f s

theorem keeps_pure (a : α) : Keeps f (pure a : EStateM ε σ α) :=
  fun _ ↦ rfl

theorem keeps_throw (e : ε) : Keeps f (throw e : EStateM ε σ α) :=
  fun _ ↦ rfl

theorem keeps_get : Keeps f (get : EStateM ε σ σ) :=
  fun _ ↦ rfl

theorem keeps_modify {g : σ → σ} (hg : ∀ s, f (g s) = f s) :
    Keeps f (modify g : EStateM ε σ PUnit) :=
  fun s ↦ hg s

theorem keeps_orThrow (value : Option α) (e : ε) :
    Keeps f (orThrow value e : EStateM ε σ α) := by
  cases value with
  | none => exact keeps_throw e
  | some a => exact keeps_pure a

theorem keeps_ofExcept (value : Except ε α) :
    Keeps f (MonadExcept.ofExcept value : EStateM ε σ α) := by
  cases value with
  | error e => exact keeps_throw e
  | ok a => exact keeps_pure a

/-- What follows from the end of a computation that keeps the value. -/
theorem Keeps.ends {x : EStateM ε σ α} (hx : Keeps f x) (hok : ∀ a s', f s' = f s → ok a s')
    (hthrown : ∀ e s', f s' = f s → thrown e s') : Ends x s ok thrown :=
  (hx s).mono hok hthrown

theorem Keeps.bind {x : EStateM ε σ α} {g : α → EStateM ε σ β} (hx : Keeps f x)
    (hg : ∀ a, Keeps f (g a)) : Keeps f (x >>= g) := by
  intro s
  apply (ends_bind _ _).mpr
  refine hx.ends (fun a s' hs' ↦ ?_) fun _ _ hs' ↦ hs'
  exact (hg a).ends (fun _ _ h ↦ h.trans hs') fun _ _ h ↦ h.trans hs'

/-- The state is replaced by one with the same value. -/
theorem Keeps.get_set {g : σ → σ} {x : σ → EStateM ε σ α} (hg : ∀ s, f (g s) = f s)
    (hx : ∀ s, Keeps f (x s)) : Keeps f (get >>= fun s ↦ set (g s) >>= fun _ ↦ x s) := by
  intro s
  apply (ends_bind _ _).mpr
  apply ends_get.mpr
  apply (ends_bind _ _).mpr
  apply (ends_set _).mpr
  exact (hx s).ends (fun _ _ h ↦ h.trans (hg s)) fun _ _ h ↦ h.trans (hg s)

theorem Keeps.tryCatch {x : EStateM ε σ α} {handle : ε → EStateM ε σ α} (hx : Keeps f x)
    (hhandle : ∀ e, Keeps f (handle e)) : Keeps f (tryCatch x handle) := by
  intro s
  apply (ends_tryCatch _ _).mpr
  refine hx.ends (fun _ _ hs' ↦ hs') fun e s' hs' ↦ ?_
  exact (hhandle e).ends (fun _ _ h ↦ h.trans hs') fun _ _ h ↦ h.trans hs'

theorem Keeps.ite {p : Prop} [Decidable p] {x y : EStateM ε σ α} (hx : Keeps f x)
    (hy : Keeps f y) : Keeps f (if p then x else y) := by
  split
  · exact hx
  · exact hy

/-! ## What goes on to hold -/

variable {p : σ → Prop}

/-- What holds of the state goes on to hold, however the computation ends. -/
def Stays (p : σ → Prop) (x : EStateM ε σ α) : Prop :=
  ∀ s, p s → Ends x s (fun _ s' ↦ p s') fun _ s' ↦ p s'

theorem stays_pure (a : α) : Stays p (pure a : EStateM ε σ α) :=
  fun _ hs ↦ hs

theorem stays_throw (e : ε) : Stays p (throw e : EStateM ε σ α) :=
  fun _ hs ↦ hs

theorem stays_get : Stays p (get : EStateM ε σ σ) :=
  fun _ hs ↦ hs

theorem stays_modify {g : σ → σ} (hg : ∀ s, p s → p (g s)) :
    Stays p (modify g : EStateM ε σ PUnit) :=
  fun s hs ↦ hg s hs

theorem stays_orThrow (value : Option α) (e : ε) :
    Stays p (orThrow value e : EStateM ε σ α) := by
  cases value with
  | none => exact stays_throw e
  | some a => exact stays_pure a

theorem stays_ofExcept (value : Except ε α) :
    Stays p (MonadExcept.ofExcept value : EStateM ε σ α) := by
  cases value with
  | error e => exact stays_throw e
  | ok a => exact stays_pure a

theorem Stays.bind {x : EStateM ε σ α} {g : α → EStateM ε σ β} (hx : Stays p x)
    (hg : ∀ a, Stays p (g a)) : Stays p (x >>= g) := by
  intro s hs
  apply (ends_bind _ _).mpr
  exact (hx s hs).mono (fun a s' hs' ↦ hg a s' hs') fun _ _ hs' ↦ hs'

theorem Stays.tryCatch {x : EStateM ε σ α} {handle : ε → EStateM ε σ α} (hx : Stays p x)
    (hhandle : ∀ e, Stays p (handle e)) : Stays p (tryCatch x handle) := by
  intro s hs
  apply (ends_tryCatch _ _).mpr
  exact (hx s hs).mono (fun _ _ hs' ↦ hs') fun e s' hs' ↦ hhandle e s' hs'

/-- The state is replaced by one of which the same holds. -/
theorem Stays.get_set {g : σ → σ} {x : σ → EStateM ε σ α} (hg : ∀ s, p s → p (g s))
    (hx : ∀ s, Stays p (x s)) : Stays p (get >>= fun s ↦ set (g s) >>= fun _ ↦ x s) := by
  intro s hs
  apply (ends_bind _ _).mpr
  apply ends_get.mpr
  apply (ends_bind _ _).mpr
  apply (ends_set _).mpr
  exact hx s (g s) (hg s hs)

theorem Stays.ite {q : Prop} [Decidable q] {x y : EStateM ε σ α} (hx : Stays p x)
    (hy : Stays p y) : Stays p (if q then x else y) := by
  split
  · exact hx
  · exact hy

end HttpRaftKv.Throwing
