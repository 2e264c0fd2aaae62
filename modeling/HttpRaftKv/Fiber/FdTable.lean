import HttpRaftKv.Fiber.Bookkeeping

/-!
# The table of descriptors

A thread that finds the table too short for its descriptor leaves the read lock and makes the
table half as long again as its own descriptor needs.  Another thread may have made it longer
than that in between; then the table is cut, and the contexts that were found behind the cut
are not found any more.
-/

namespace HttpRaftKv.Fiber

namespace IOManager

/-- The table has not become shorter, and every descriptor has the context that it had. -/
structure TableKept (s s' : IOManager) : Prop where
  long : s.fdContexts.length ≤ s'.fdContexts.length
  found : ∀ fd ptr : ℕ, s.fdContexts[fd]? = some ptr → s'.fdContexts[fd]? = some ptr

/-- The thread takes the write lock when the table is already longer than it is going to
make it. -/
def Shrinks (s : IOManager) : Action → Prop
  | .resize thread => s.panic = none ∧ ∃ request, s.threads thread = .resizing request ∧
      request.fd * 3 / 2 < s.fdContexts.length
  | _ => False

/-- What holds in every state. -/
structure Steady (s : IOManager) : Prop where
  sound : s.Sound
  linked : s.Linked
  inside : s.panic ≠ some .nullPointer

variable {s s' : IOManager}

theorem TableKept.refl (s : IOManager) : s.TableKept s :=
  ⟨Nat.le_refl _, fun _ _ h ↦ h⟩

theorem TableKept.trans {s s' s'' : IOManager} (h : s.TableKept s') (h' : s'.TableKept s'') :
    s.TableKept s'' :=
  ⟨Nat.le_trans h.long h'.long, fun fd ptr hptr ↦ h'.found fd ptr (h.found fd ptr hptr)⟩

theorem tableKept_of_eq (h : s'.fdContexts = s.fdContexts) : s.TableKept s' :=
  ⟨h ▸ Nat.le_refl _, fun _ _ hptr ↦ h ▸ hptr⟩

theorem tableKept_of_isPrefix (h : s.fdContexts <+: s'.fdContexts) : s.TableKept s' := by
  obtain ⟨new, hnew⟩ := h
  refine ⟨?_, fun fd ptr hptr ↦ ?_⟩
  · rw [← hnew, List.length_append]
    exact Nat.le_add_right _ _
  · rw [← hnew, List.getElem?_append_left (List.getElem?_eq_some_iff.mp hptr).1]
    exact hptr

theorem steady_initial : initial.Steady where
  sound := Orderly.initial.sound
  linked := Orderly.initial.linked
  inside := fun h ↦ by cases h

theorem Steady.step (h : s.Steady) (a : Action) : (s.step a).Steady := by
  cases hpanic : s.panic with
  | some p =>
      have hstep : s.step a = s := by simp [IOManager.step, hpanic]
      rw [hstep]
      exact h
  | none =>
      have horderly : s.Orderly := ⟨h.sound, h.linked, .inl hpanic⟩
      by_cases hup : s.Undisturbed a
      · have hnext := horderly.step a hup
        refine ⟨hnext.sound, hnext.linked, fun hnull ↦ ?_⟩
        rcases hnext.panic with hnone | herror
        · rw [hnone] at hnull
          cases hnull
        · rw [herror] at hnull
          cases hnull
      · rw [horderly.step_of_disturbed hup]
        exact ⟨⟨h.sound.consistent, h.sound.counted, h.sound.tickets⟩,
          ⟨h.linked.vector, h.linked.long, h.linked.phases⟩, fun hnull ↦ by cases hnull⟩

/-! ## Steps -/

theorem finish_fdContexts {thread : ℕ} {phase : Phase} {r : Except Panic IOManager}
    (h : ∀ s', r = .ok s' → s'.fdContexts = s.fdContexts) :
    (s.finish thread phase r).fdContexts = s.fdContexts := by
  cases r with
  | error p => rfl
  | ok s' => exact h s' rfl

/-- Only `contextResize` changes the table. -/
theorem Steady.fdContexts_step (h : s.Steady) {a : Action}
    (ha : ∀ thread request, a = .resize thread → s.panic = none →
      s.threads thread ≠ .resizing request) : (s.step a).fdContexts = s.fdContexts := by
  unfold IOManager.step
  split_ifs with hpanic
  · rfl
  cases a with
  | call thread request =>
      unfold advance
      dsimp only
      split
      · rfl
      · rfl
  | resize thread =>
      rw [Option.not_isSome_iff_eq_none] at hpanic
      unfold advance
      dsimp only
      split
      · rename_i request hphase
        exact absurd hphase (ha thread request rfl hpanic)
      · rfl
  | lock thread ok =>
      unfold advance
      dsimp only
      split
      · rename_i ptr request hphase
        have hlt : ptr < s.contexts.length := by
          have hknown := h.linked.phases thread
          rwa [hphase] at hknown
        obtain ⟨c, hc⟩ := exists_context ptr hlt
        refine finish_fdContexts fun s' hs' ↦ ?_
        rcases h.sound.execute hc ok request with herror | ⟨s'', heq, _, hframe⟩
        · rw [herror] at hs'
          cases hs'
        · rw [heq] at hs'
          cases hs'
          exact hframe.fdContexts
      · rfl
  | epollWait thread events =>
      unfold advance
      dsimp only
      split
      · split_ifs
        · rfl
        · rfl
      · rfl
  | process thread ok =>
      unfold advance
      dsimp only
      split
      · rename_i e rest hphase
        have hknown := h.linked.phases thread
        rw [hphase] at hknown
        obtain ⟨c, hc⟩ := exists_context e.ptr (hknown e List.mem_cons_self)
        refine finish_fdContexts fun s' hs' ↦ ?_
        have hup : ok = true → s.UpToDate e := by
          rintro rfl
          by_contra hnot
          rw [processEvent_of_not h.sound hc hnot] at hs'
          cases hs'
        obtain ⟨s'', heq, _, hframe⟩ := h.sound.processEvent hc ok hup
        rw [heq] at hs'
        cases hs'
        exact hframe.fdContexts
      · rfl
      · rfl

theorem fdContexts_resize {thread : ℕ} {request : Request} (hpanic : s.panic = none)
    (hphase : s.threads thread = .resizing request) :
    (s.step (.resize thread)).fdContexts =
      (s.contextResize (request.fd * 3 / 2)).fdContexts := by
  simp only [IOManager.step, hpanic, advance, hphase]
  cases (s.contextResize (request.fd * 3 / 2)).fdContexts[request.fd]? with
  | some ptr => rfl
  | none => rfl

/-- A step keeps the table exactly if it does not shrink it. -/
theorem Steady.tableKept_step_iff (h : s.Steady) (a : Action) :
    s.TableKept (s.step a) ↔ ¬ s.Shrinks a := by
  by_cases hresize : ∃ thread request, a = .resize thread ∧ s.panic = none ∧
      s.threads thread = .resizing request
  · obtain ⟨thread, request, rfl, hpanic, hphase⟩ := hresize
    have hfd : 32 ≤ request.fd := by
      have hknown := h.linked.phases thread
      rwa [hphase] at hknown
    have hlength := (h.linked.contextResize (request.fd * 3 / 2) (by omega)).2
    have hresized := fdContexts_resize hpanic hphase
    constructor
    · rintro hkept ⟨_, request', hphase', hlt⟩
      rw [hphase] at hphase'
      cases hphase'
      have hlong := hkept.long
      rw [hresized, hlength] at hlong
      omega
    · intro hnot
      have hle : s.fdContexts.length ≤ request.fd * 3 / 2 := by
        by_contra hlt
        exact hnot ⟨hpanic, request, hphase, Nat.lt_of_not_le hlt⟩
      obtain ⟨fds, _, hvector, _⟩ := contextResize_contexts s (request.fd * 3 / 2)
      refine tableKept_of_isPrefix ?_
      rw [hresized, hvector, List.take_of_length_le hle]
      exact List.prefix_append _ _
  · refine iff_of_true (tableKept_of_eq ?_) fun hshrinks ↦ ?_
    · exact h.fdContexts_step fun thread request ha hpanic hphase ↦
        hresize ⟨thread, request, ha, hpanic, hphase⟩
    · cases a with
      | resize thread =>
          obtain ⟨hpanic, request, hphase, _⟩ := hshrinks
          exact hresize ⟨thread, request, rfl, hpanic, hphase⟩
      | call | lock | epollWait | process => exact hshrinks

/-! ## Runs -/

/-- Since every earlier state the table has been kept, and no access to it, or through it,
has been out of bounds. -/
def Grown (as : List Action) (s : IOManager) : Prop :=
  (∀ bs, bs <+: as → (Runs.run step initial bs).TableKept s) ∧ s.panic ≠ some .nullPointer

/-- The table only grows along a run exactly if no thread takes the write lock for less than
the table already has. -/
theorem grown_iff (as : List Action) :
    (∀ bs, bs <+: as → Grown bs (Runs.run step initial bs)) ↔
      Runs.Along step (fun s a ↦ ¬ s.Shrinks a) initial as := by
  refine Runs.property_iff_along (P := fun as s ↦ s.Steady ∧ Grown as s) step
    ⟨steady_initial, fun bs hbs ↦ ?_, steady_initial.inside⟩ (fun as a h ha ↦ ?_)
    (fun _ h ↦ h.2) (fun as a h hgrown ↦ ?_) as
  · rw [List.prefix_nil.mp hbs]
    exact .refl _
  · have hstep := (h.1.tableKept_step_iff a).mpr ha
    refine ⟨h.1.step a, fun bs hbs ↦ ?_, (h.1.step a).inside⟩
    rcases List.prefix_concat_iff.mp hbs with rfl | hbs
    · rw [Runs.run_snoc]
      exact .refl _
    · exact (h.2.1 bs hbs).trans hstep
  · exact (h.1.tableKept_step_iff a).mp (hgrown.1 as (List.prefix_append _ _))

/-- Two threads find the table too short; the one with the greater descriptor is faster. -/
def overtaken : List Action :=
  [.call 0 (.addEvent 40 .read ⟨0, .cb 0⟩), .call 1 (.addEvent 100 .read ⟨0, .cb 1⟩),
    .resize 1, .lock 1 true, .resize 0]

/-- The event that is registered for the greater one cannot be deleted any more. -/
theorem not_grown_overtaken :
    ¬ Grown overtaken (Runs.run step initial overtaken) ∧
      (Runs.run step initial overtaken).lookup (.delEvent 100 .read) = .free := by
  have hnone : (Runs.run step initial overtaken).fdContexts[100]? = none := by decide +kernel
  refine ⟨fun h ↦ ?_, by simp [lookup, Request.fd, hnone]⟩
  have hbefore : (Runs.run step initial (overtaken.take 4)).fdContexts[100]? ≠ none := by
    decide +kernel
  obtain ⟨ptr, hptr⟩ := Option.ne_none_iff_exists'.mp hbefore
  have hafter := (h.1 (overtaken.take 4) (List.take_prefix _ _)).found 100 ptr hptr
  rw [hnone] at hafter
  cases hafter

end IOManager

end HttpRaftKv.Fiber
