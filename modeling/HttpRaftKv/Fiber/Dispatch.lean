import HttpRaftKv.Fiber.Scheduler
import HttpRaftKv.Lib.Grid

/-!
# The fibers that are dispatched

A fiber that runs is nowhere to be found; when it makes itself known, there is one way
to it, which leads through a timer, an event or a callback into the queue and to the
thread that takes it.  So a fiber in the queue is ready, unless the thread that it runs
on has not come to its `yield`, and it runs on no other thread, unless that thread has
not left its stack.
-/

namespace HttpRaftKv.Fiber.Scheduler

/-- The fiber whose stack the thread is on. -/
def Place.on : Place → Option ℕ
  | .looking => none
  | .taken _ => none
  | .running fiber => some fiber
  | .published fiber => some fiber
  | .yielding fiber => some fiber

/-- No fiber was taken that is not ready, and no fiber runs on two threads. -/
structure Dispatched (s : Scheduler) : Prop where
  ready : s.panic ≠ some .fiberTaskState
  alone : ∀ (t t' : ℕ) (p p' : Place) (f : ℕ), s.threads[t]? = some p → s.threads[t']? = some p' →
    p.on = some f → p'.on = some f → t = t'

/-- No fiber is taken before it has come to its `yield`, and none is resumed before the
thread that it ran on has left its stack. -/
def Settled (s : Scheduler) : Action → Prop
  | .take thread => s.panic = none → s.threads[thread]? = some .looking →
      ∀ task fiber, s.tasks.find? (·.eligible thread) = some task → task.target = .fiber fiber →
        ∀ other : ℕ, s.threads[other]? ≠ some (.published fiber)
  | .resume thread => s.panic = none →
      ∀ fiber, s.threads[thread]? = some (.taken fiber) →
        ∀ other : ℕ, s.threads[other]? ≠ some (.yielding fiber)
  | _ => True

/-! ## Ways to a fiber -/

def stateOf (s : Scheduler) (fiber : ℕ) : Option State :=
  s.fibers[fiber]?.map FiberRecord.state

/-- The task leads to the fiber. -/
def SchedulerTask.leadsTo (fiber : ℕ) (task : SchedulerTask) : Bool :=
  task.target = .fiber fiber || task.target = .cb (.schedule fiber)

/-- The number of ways on which the fiber can be resumed. -/
def ways (s : Scheduler) (fiber : ℕ) : ℕ :=
  s.timers.count fiber + s.events.count fiber + s.tasks.countP (·.leadsTo fiber) +
    s.fibers.countP (·.schedules = some fiber) + s.threads.countP (· = .taken fiber)

/-- What a place of a thread says about the fiber. -/
def Fits (s : Scheduler) : Place → Prop
  | .looking => True
  | .taken fiber => s.stateOf fiber = some .ready
  | .running fiber => s.stateOf fiber = some .running ∧ s.ways fiber = 0
  | .published fiber => s.stateOf fiber = some .running
  | .yielding fiber => s.stateOf fiber = some .ready ∨ s.stateOf fiber = some .term

/-- There is at most one way to a fiber, and the places of the threads agree with the
states of the fibers. -/
structure Orderly (s : Scheduler) : Prop where
  ways_le : ∀ f, s.ways f ≤ 1
  alive : ∀ f, s.ways f ≠ 0 → s.stateOf f = some .ready ∨ s.stateOf f = some .running
  fits : ∀ (t : ℕ) (p : Place), s.threads[t]? = some p → s.Fits p
  alone : ∀ (t t' : ℕ) (p p' : Place) (f : ℕ), s.threads[t]? = some p → s.threads[t']? = some p' →
    p.on = some f → p'.on = some f → t = t'
  busy : ∀ f, s.stateOf f = some .running → ∃ t : ℕ,
    s.threads[t]? = some (.running f) ∨ s.threads[t]? = some (.published f)
  panic : s.panic = none

theorem Orderly.dispatched {s : Scheduler} (h : s.Orderly) : s.Dispatched where
  ready := by
    rw [h.panic]
    exact (Option.some_ne_none _).symm
  alone := h.alone

/-- The fiber that a place is about. -/
def Place.about : Place → Option ℕ
  | .looking => none
  | .taken fiber => some fiber
  | .running fiber => some fiber
  | .published fiber => some fiber
  | .yielding fiber => some fiber

theorem Place.about_of_on {p : Place} {f : ℕ} (h : p.on = some f) : p.about = some f := by
  cases p with
  | looking => cases h
  | taken fiber => cases h
  | running fiber => exact h
  | published fiber => exact h
  | yielding fiber => exact h

theorem Place.eq_of_about {p : Place} {f g : ℕ} (h : p.about = none ∨ p.about = some g)
    (hf : p.about = some f) : f = g := by
  rcases h with hnone | hsome
  · rw [hnone] at hf
    cases hf
  · rw [hsome] at hf
    exact (Option.some.inj hf).symm

theorem Fits.congr {s s' : Scheduler} {p : Place} (h : s.Fits p)
    (hstate : ∀ f, p.about = some f → s'.stateOf f = s.stateOf f)
    (hways : ∀ f, p.about = some f → s'.ways f ≤ s.ways f) : s'.Fits p := by
  cases p with
  | looking => trivial
  | taken fiber => exact (hstate fiber rfl).trans h
  | running fiber =>
      exact ⟨(hstate fiber rfl).trans h.1, Nat.le_zero.mp (h.2 ▸ hways fiber rfl)⟩
  | published fiber => exact (hstate fiber rfl).trans h
  | yielding fiber =>
      have hsame := hstate fiber rfl
      exact h.imp hsame.trans hsame.trans

theorem Fits.stateOf_ne_none {s : Scheduler} {p : Place} (h : s.Fits p) {f : ℕ}
    (hf : p.about = some f) : s.stateOf f ≠ none := by
  intro hnone
  cases p with
  | looking => cases hf
  | taken fiber =>
      cases hf
      exact Option.some_ne_none _ (Eq.trans (Eq.symm h) hnone)
  | running fiber =>
      cases hf
      exact Option.some_ne_none _ (h.1.symm.trans hnone)
  | published fiber =>
      cases hf
      exact Option.some_ne_none _ (Eq.trans (Eq.symm h) hnone)
  | yielding fiber =>
      cases hf
      rcases h with h | h
      · exact Option.some_ne_none _ (h.symm.trans hnone)
      · exact Option.some_ne_none _ (h.symm.trans hnone)

section Steps

variable {s s' : Scheduler}

/-- One thread goes from one place to another, and both are about the same fiber. -/
theorem Orderly.move (h : s.Orderly) {t g : ℕ} {p p' : Place} (ht : s.threads[t]? = some p)
    (hthreads : s'.threads = s.threads.set t p')
    (hp : p.about = none ∨ p.about = some g) (hp' : p'.about = none ∨ p'.about = some g)
    (hstate : ∀ f, f ≠ g → s'.stateOf f = s.stateOf f) (hways : ∀ f, f ≠ g → s'.ways f ≤ s.ways f)
    (hone : s'.ways g ≤ 1)
    (halive : s'.ways g ≠ 0 → s'.stateOf g = some .ready ∨ s'.stateOf g = some .running)
    (hfits : s'.Fits p')
    (hothers : ∀ (u : ℕ) (q : Place), u ≠ t → s.threads[u]? = some q → q.about = some g →
      s'.Fits q ∧ (p'.on = some g → q.on ≠ some g))
    (hbusy : s'.stateOf g = some .running → p' = .running g ∨ p' = .published g)
    (hpanic : s'.panic = none) : s'.Orderly where
  ways_le := by
    intro f
    by_cases hf : f = g
    · rw [hf]
      exact hone
    · exact Nat.le_trans (hways f hf) (h.ways_le f)
  alive := by
    intro f hne
    by_cases hf : f = g
    · rw [hf] at hne ⊢
      exact halive hne
    · rw [hstate f hf]
      have := hways f hf
      exact h.alive f (by omega)
  fits := by
    intro u q hu
    rw [hthreads] at hu
    by_cases hut : u = t
    · subst hut
      obtain ⟨hlt, -⟩ := List.getElem?_eq_some_iff.mp ht
      rw [List.getElem?_set_self hlt, Option.some.injEq] at hu
      exact hu ▸ hfits
    · rw [List.getElem?_set_ne (Ne.symm hut)] at hu
      by_cases hq : q.about = some g
      · exact (hothers u q hut hu hq).1
      · have hne : ∀ f, q.about = some f → f ≠ g := fun f hf heq ↦ hq (heq ▸ hf)
        exact (h.fits u q hu).congr (fun f hf ↦ hstate f (hne f hf)) fun f hf ↦ hways f (hne f hf)
  alone := by
    have hnew : ∀ (u : ℕ) (q : Place) (f : ℕ), u ≠ t → s.threads[u]? = some q →
        p'.on = some f → q.on ≠ some f := by
      intro u q f hut hu hon hqon
      have hf := Place.eq_of_about hp' (Place.about_of_on hon)
      subst hf
      exact (hothers u q hut hu (Place.about_of_on hqon)).2 hon hqon
    obtain ⟨hlt, -⟩ := List.getElem?_eq_some_iff.mp ht
    intro u v q r f hu hv hqon hron
    rw [hthreads] at hu hv
    by_cases hut : u = t <;> by_cases hvt : v = t
    · exact hut.trans hvt.symm
    · rw [hut, List.getElem?_set_self hlt, Option.some.injEq] at hu
      rw [List.getElem?_set_ne (Ne.symm hvt)] at hv
      exact absurd hron (hnew v r f hvt hv (hu ▸ hqon))
    · rw [hvt, List.getElem?_set_self hlt, Option.some.injEq] at hv
      rw [List.getElem?_set_ne (Ne.symm hut)] at hu
      exact absurd hqon (hnew u q f hut hu (hv ▸ hron))
    · rw [List.getElem?_set_ne (Ne.symm hut)] at hu
      rw [List.getElem?_set_ne (Ne.symm hvt)] at hv
      exact h.alone u v q r f hu hv hqon hron
  busy := by
    obtain ⟨hlt, -⟩ := List.getElem?_eq_some_iff.mp ht
    intro f hrunning
    rw [hthreads]
    by_cases hf : f = g
    · subst hf
      refine ⟨t, ?_⟩
      rw [List.getElem?_set_self hlt, Option.some.injEq, Option.some.injEq]
      exact hbusy hrunning
    · rw [hstate f hf] at hrunning
      obtain ⟨u, hu⟩ := h.busy f hrunning
      have hut : u ≠ t := by
        rintro rfl
        rw [ht, Option.some.injEq, Option.some.injEq] at hu
        rcases hu with rfl | rfl
        · exact hf (Place.eq_of_about hp rfl)
        · exact hf (Place.eq_of_about hp rfl)
      refine ⟨u, ?_⟩
      rw [List.getElem?_set_ne (Ne.symm hut)]
      exact hu
  panic := hpanic

/-- The threads stay where they are, and a fiber is as it was or new. -/
theorem Orderly.keep (h : s.Orderly) (hthreads : s'.threads = s.threads)
    (hfibers : ∀ f, (s'.stateOf f = s.stateOf f ∧ s'.ways f ≤ s.ways f) ∨
      (s.stateOf f = none ∧ s'.stateOf f = some .ready ∧ s'.ways f ≤ 1))
    (hpanic : s'.panic = none) : s'.Orderly where
  ways_le := by
    intro f
    rcases hfibers f with ⟨-, hways⟩ | ⟨-, -, hways⟩
    · exact Nat.le_trans hways (h.ways_le f)
    · exact hways
  alive := by
    intro f hne
    rcases hfibers f with ⟨hstate, hways⟩ | ⟨-, hready, -⟩
    · rw [hstate]
      exact h.alive f (by omega)
    · exact .inl hready
  fits := by
    intro t p ht
    rw [hthreads] at ht
    have hfits := h.fits t p ht
    have hsame : ∀ f, p.about = some f → s'.stateOf f = s.stateOf f ∧ s'.ways f ≤ s.ways f := by
      intro f hf
      rcases hfibers f with hsame | ⟨hnone, -⟩
      · exact hsame
      · exact absurd hnone (hfits.stateOf_ne_none hf)
    exact hfits.congr (fun f hf ↦ (hsame f hf).1) fun f hf ↦ (hsame f hf).2
  alone := by
    rw [hthreads]
    exact h.alone
  busy := by
    intro f hrunning
    rw [hthreads]
    rcases hfibers f with ⟨hstate, -⟩ | ⟨-, hready, -⟩
    · rw [hstate] at hrunning
      exact h.busy f hrunning
    · rw [hready] at hrunning
      cases hrunning
  panic := hpanic

end Steps

/-! ## Counting the ways -/

theorem count_eraseIdx_add {l : List ℕ} {i a : ℕ} (h : l[i]? = some a) (f : ℕ) :
    (l.eraseIdx i).count f + (if a = f then 1 else 0) = l.count f := by
  induction l generalizing i with
  | nil => cases h
  | cons b l ih =>
      cases i with
      | zero =>
          cases h
          simp [List.count_cons]
      | succ i =>
          have := ih h
          simp only [List.eraseIdx_cons_succ, List.count_cons]
          omega

theorem countP_eraseP_add {α : Type*} {l : List α} {p : α → Bool} {a : α}
    (h : l.find? p = some a) (q : α → Bool) :
    (l.eraseP p).countP q + (if q a then 1 else 0) = l.countP q := by
  induction l with
  | nil => cases h
  | cons b l ih =>
      by_cases hb : p b = true
      · rw [List.find?_cons_of_pos hb, Option.some.injEq] at h
        rw [List.eraseP_cons_of_pos hb, List.countP_cons, h]
      · rw [List.find?_cons_of_neg hb] at h
        have := ih h
        rw [List.eraseP_cons_of_neg hb, List.countP_cons, List.countP_cons]
        omega

section Ways

variable (s : Scheduler) (f : ℕ)

theorem ways_goto {t : ℕ} {p : Place} (ht : s.threads[t]? = some p) (p' : Place) :
    (s.goto t p').ways f + (if p = .taken f then 1 else 0) =
      s.ways f + if p' = .taken f then 1 else 0 := by
  have := countP_set_add (fun q ↦ decide (q = Place.taken f)) ht p'
  simp only [decide_eq_true_eq] at this
  simp only [ways, goto]
  omega

theorem ways_schedule (target : Target) (thread : Option ℕ) :
    (s.schedule target thread).ways f =
      s.ways f + if target = .fiber f ∨ target = .cb (.schedule f) then 1 else 0 := by
  simp only [ways, schedule, List.countP_append, List.countP_singleton, SchedulerTask.leadsTo,
    Bool.or_eq_true, decide_eq_true_eq]
  omega

theorem ways_create (schedules : Option ℕ) :
    (s.create schedules).ways f = s.ways f + if schedules = some f then 1 else 0 := by
  simp only [ways, create, List.countP_append, List.countP_singleton, decide_eq_true_eq]
  omega

@[simp] theorem stateOf_goto (t : ℕ) (p : Place) : (s.goto t p).stateOf f = s.stateOf f :=
  rfl

@[simp] theorem stateOf_schedule (target : Target) (thread : Option ℕ) :
    (s.schedule target thread).stateOf f = s.stateOf f :=
  rfl

theorem stateOf_create (schedules : Option ℕ) :
    (s.create schedules).stateOf f =
      if f = s.fibers.length then some .ready else s.stateOf f := by
  unfold stateOf create
  rcases Nat.lt_trichotomy f s.fibers.length with hlt | rfl | hgt
  · rw [List.getElem?_append_left hlt, if_neg (Nat.ne_of_lt hlt)]
  · simp
  · rw [if_neg (Nat.ne_of_gt hgt), List.getElem?_eq_none (by simp; omega),
      List.getElem?_eq_none (by omega)]

theorem ways_setFiber {g : ℕ} {r : FiberRecord} (hr : s.fibers[g]? = some r) (r' : FiberRecord) :
    ({ s with fibers := s.fibers.set g r' } : Scheduler).ways f +
        (if r.schedules = some f then 1 else 0) =
      s.ways f + if r'.schedules = some f then 1 else 0 := by
  have := countP_set_add (fun x ↦ decide (x.schedules = some f)) hr r'
  simp only [decide_eq_true_eq] at this
  simp only [ways]
  omega

theorem stateOf_setFiber {g : ℕ} {r : FiberRecord} (hr : s.fibers[g]? = some r)
    (r' : FiberRecord) :
    ({ s with fibers := s.fibers.set g r' } : Scheduler).stateOf f =
      if f = g then some r'.state else s.stateOf f := by
  obtain ⟨hlt, -⟩ := List.getElem?_eq_some_iff.mp hr
  unfold stateOf
  by_cases hf : f = g
  · subst hf
    simp [List.getElem?_set_self hlt]
  · rw [if_neg hf, List.getElem?_set_ne (Ne.symm hf)]

theorem ways_eraseTimer {i a : ℕ} (ha : s.timers[i]? = some a) :
    ({ s with timers := s.timers.eraseIdx i } : Scheduler).ways f + (if a = f then 1 else 0) =
      s.ways f := by
  have := count_eraseIdx_add ha f
  simp only [ways]
  omega

theorem ways_eraseEvent {i a : ℕ} (ha : s.events[i]? = some a) :
    ({ s with events := s.events.eraseIdx i } : Scheduler).ways f + (if a = f then 1 else 0) =
      s.ways f := by
  have := count_eraseIdx_add ha f
  simp only [ways]
  omega

theorem ways_eraseTask {thread : ℕ} {task : SchedulerTask}
    (htask : s.tasks.find? (·.eligible thread) = some task) :
    ({ s with tasks := s.tasks.eraseP (·.eligible thread) } : Scheduler).ways f +
        (if task.target = .fiber f ∨ task.target = .cb (.schedule f) then 1 else 0) =
      s.ways f := by
  have := countP_eraseP_add htask (·.leadsTo f)
  simp only [SchedulerTask.leadsTo, Bool.or_eq_true, decide_eq_true_eq] at this
  simp only [ways, SchedulerTask.leadsTo]
  omega

theorem ways_pushTimer (g : ℕ) :
    ({ s with timers := s.timers ++ [g] } : Scheduler).ways f =
      s.ways f + if g = f then 1 else 0 := by
  simp only [ways, List.count_append, List.count_singleton, beq_iff_eq]
  omega

theorem ways_pushEvent (g : ℕ) :
    ({ s with events := s.events ++ [g] } : Scheduler).ways f =
      s.ways f + if g = f then 1 else 0 := by
  simp only [ways, List.count_append, List.count_singleton, beq_iff_eq]
  omega

end Ways

/-! ## One step -/

section Actions

variable {s : Scheduler} (h : s.Orderly)
include h

theorem Orderly.ways_eq_zero {f : ℕ} (hnone : s.stateOf f = none) : s.ways f = 0 := by
  by_contra hne
  rcases h.alive f hne with hready | hrunning
  · exact Option.some_ne_none _ (hready.symm.trans hnone)
  · exact Option.some_ne_none _ (hrunning.symm.trans hnone)

theorem Orderly.createFiber (thread : Option ℕ) :
    ((s.create none).schedule (.fiber s.fibers.length) thread).Orderly := by
  refine h.keep rfl (fun f ↦ ?_) h.panic
  have hways : ((s.create none).schedule (.fiber s.fibers.length) thread).ways f =
      s.ways f + if s.fibers.length = f then 1 else 0 := by
    rw [ways_schedule, ways_create]
    simp
  rw [hways, stateOf_schedule, stateOf_create]
  by_cases hf : f = s.fibers.length
  · subst hf
    have hnone : s.stateOf s.fibers.length = none := by simp [stateOf]
    have hzero := h.ways_eq_zero hnone
    refine .inr ⟨hnone, if_pos rfl, ?_⟩
    simp only [hzero, if_pos, Nat.zero_add, Nat.le_refl]
  · exact .inl ⟨if_neg hf, by rw [if_neg (Ne.symm hf)]; exact Nat.le_refl _⟩

theorem Orderly.createCallback (thread : Option ℕ) :
    (s.schedule (.cb .other) thread).Orderly := by
  refine h.keep rfl (fun f ↦ .inl ⟨rfl, ?_⟩) h.panic
  rw [ways_schedule]
  simp

theorem Orderly.expire (i : ℕ) : (s.expire i).Orderly := by
  unfold Scheduler.expire
  split
  · exact h
  · rename_i a ha
    refine h.keep rfl (fun f ↦ .inl ⟨rfl, ?_⟩) h.panic
    have := ways_eraseTimer s f ha
    rw [ways_schedule]
    simp only [Target.cb.injEq, Callback.schedule.injEq, reduceCtorEq, false_or]
    omega

theorem Orderly.triggerEvent (i : ℕ) : (s.triggerEvent i).Orderly := by
  unfold Scheduler.triggerEvent
  split
  · exact h
  · rename_i a ha
    refine h.keep rfl (fun f ↦ .inl ⟨rfl, ?_⟩) h.panic
    have := ways_eraseEvent s f ha
    rw [ways_schedule]
    simp only [Target.fiber.injEq, reduceCtorEq, or_false]
    omega

theorem Orderly.delEvent (i : ℕ) : { s with events := s.events.eraseIdx i }.Orderly := by
  refine h.keep rfl (fun f ↦ .inl ⟨rfl, ?_⟩) h.panic
  cases ha : s.events[i]? with
  | none =>
      have herase := List.eraseIdx_of_length_le (List.getElem?_eq_none_iff.mp ha)
      simp only [herase, Nat.le_refl]
  | some a =>
      have := ways_eraseEvent s f ha
      omega

theorem Orderly.callback (fiber : ℕ) : (s.callback fiber).Orderly := by
  unfold Scheduler.callback
  split
  · exact h
  · rename_i r hr
    split
    · exact h
    · rename_i target htarget
      refine h.keep rfl (fun f ↦ .inl ⟨?_, ?_⟩) h.panic
      · rw [stateOf_schedule, stateOf_setFiber s f hr]
        by_cases hf : f = fiber
        · subst hf
          simp [stateOf, hr]
        · exact if_neg hf
      · have := ways_setFiber s f hr { r with schedules := none }
        rw [htarget] at this
        rw [ways_schedule]
        simp only [Target.fiber.injEq, reduceCtorEq, or_false, Option.some.injEq,
          if_false] at this ⊢
        omega

theorem Orderly.take_fiber {t g : ℕ} {task : SchedulerTask}
    (ht : s.threads[t]? = some .looking)
    (htask : s.tasks.find? (·.eligible t) = some task) (hg : task.target = .fiber g)
    (hready : s.stateOf g = some .ready) :
    ({ s with tasks := s.tasks.eraseP (·.eligible t) }.goto t (.taken g)).Orderly := by
  have hways : ∀ f, ({ s with tasks := s.tasks.eraseP (·.eligible t) }.goto t (.taken g)).ways f =
      s.ways f := by
    intro f
    have herase := ways_eraseTask s f htask
    have hgoto := ways_goto { s with tasks := s.tasks.eraseP (·.eligible t) } f ht (.taken g)
    rw [hg] at herase
    simp only [Target.fiber.injEq, reduceCtorEq, or_false, if_false, Place.taken.injEq]
      at herase hgoto
    omega
  refine h.move (g := g) ht rfl (.inl rfl) (.inr rfl) (fun _ _ ↦ rfl)
    (fun f _ ↦ Nat.le_of_eq (hways f)) ?_ ?_ hready ?_ ?_ h.panic
  · rw [hways]
    exact h.ways_le g
  · exact fun _ ↦ .inl hready
  · intro u q _ hu _
    refine ⟨(h.fits u q hu).congr (fun _ _ ↦ rfl) fun f _ ↦ Nat.le_of_eq (hways f), fun hon ↦ ?_⟩
    cases hon
  · intro hrunning
    exact absurd (hready.symm.trans hrunning) (by decide)

theorem Orderly.takeCallback {t : ℕ} {task : SchedulerTask} {callback : Callback}
    (ht : s.threads[t]? = some .looking)
    (htask : s.tasks.find? (·.eligible t) = some task) (hc : task.target = .cb callback) :
    ({ s with tasks := s.tasks.eraseP (·.eligible t) }.takeCallback t callback).Orderly := by
  have hnone : s.stateOf s.fibers.length = none := by simp [stateOf]
  have hways : ∀ f,
      ({ s with tasks := s.tasks.eraseP (·.eligible t) }.takeCallback t callback).ways f =
        s.ways f + if s.fibers.length = f then 1 else 0 := by
    intro f
    have herase := ways_eraseTask s f htask
    have hcreate := ways_create { s with tasks := s.tasks.eraseP (·.eligible t) } f
      callback.schedules
    have hgoto := ways_goto ({ s with tasks := s.tasks.eraseP (·.eligible t) }.create
      callback.schedules) f ht (.taken s.fibers.length)
    rw [hc] at herase
    unfold Scheduler.takeCallback
    cases callback with
    | schedule target =>
        simp only [Callback.schedules, Target.cb.injEq, Callback.schedule.injEq, reduceCtorEq,
          false_or, if_false, Place.taken.injEq, Option.some.injEq] at herase hcreate hgoto ⊢
        omega
    | other =>
        simp only [Callback.schedules, Target.cb.injEq, reduceCtorEq,
          or_false, if_false, Place.taken.injEq] at herase hcreate hgoto ⊢
        omega
  have hstate : ∀ f,
      ({ s with tasks := s.tasks.eraseP (·.eligible t) }.takeCallback t callback).stateOf f =
        if f = s.fibers.length then some .ready else s.stateOf f :=
    fun f ↦ stateOf_create { s with tasks := s.tasks.eraseP (·.eligible t) } f callback.schedules
  have hready := (hstate s.fibers.length).trans (if_pos rfl)
  refine h.move (g := s.fibers.length) ht rfl (.inl rfl) (.inr rfl) ?_ ?_ ?_ (fun _ ↦ .inl hready)
    hready ?_ ?_ h.panic
  · intro f hf
    rw [hstate, if_neg hf]
  · intro f hf
    rw [hways, if_neg (Ne.symm hf)]
    exact Nat.le_refl _
  · simp only [hways, h.ways_eq_zero hnone, if_pos, Nat.zero_add, Nat.le_refl]
  · intro u q _ hu hq
    exact absurd hnone ((h.fits u q hu).stateOf_ne_none hq)
  · intro hrunning
    exact absurd (hready.symm.trans hrunning) (by decide)

/-- A place on the stack of the fiber that runs leaves no other thread near it. -/
theorem Orderly.others_of_running {t u g : ℕ} {p q : Place} (ht : s.threads[t]? = some p)
    (hon : p.on = some g) (hrunning : s.stateOf g = some .running) (hut : u ≠ t)
    (hu : s.threads[u]? = some q) : q.about ≠ some g := by
  intro hq
  cases q with
  | looking => cases hq
  | taken fiber =>
      cases hq
      have hready : s.stateOf g = some .ready := h.fits u _ hu
      exact absurd (hready.symm.trans hrunning) (by decide)
  | running fiber => exact hut (h.alone u t _ p g hu ht hq hon)
  | published fiber => exact hut (h.alone u t _ p g hu ht hq hon)
  | yielding fiber => exact hut (h.alone u t _ p g hu ht hq hon)

theorem Orderly.publish {s' : Scheduler} {t g : ℕ} (ht : s.threads[t]? = some (.running g))
    (hthreads : s'.threads = s.threads.set t (.published g))
    (hstate : ∀ f, s'.stateOf f = s.stateOf f)
    (hways : ∀ f, s'.ways f = s.ways f + if g = f then 1 else 0)
    (hpanic : s'.panic = none) : s'.Orderly := by
  obtain ⟨hrunning, hzero⟩ : s.stateOf g = some .running ∧ s.ways g = 0 := h.fits t _ ht
  have hrunning' := (hstate g).trans hrunning
  refine h.move (g := g) ht hthreads (.inr rfl) (.inr rfl) (fun f _ ↦ hstate f) ?_ ?_
    (fun _ ↦ .inr hrunning') hrunning' ?_ (fun _ ↦ .inr rfl) hpanic
  · intro f hf
    rw [hways, if_neg (Ne.symm hf)]
    exact Nat.le_refl _
  · simp only [hways, hzero, if_pos, Nat.zero_add, Nat.le_refl]
  · intro u q hut hu hq
    exact absurd hq (h.others_of_running ht rfl hrunning hut hu)

theorem Orderly.sleep {t g : ℕ} (ht : s.threads[t]? = some (.running g)) :
    (s.sleep t g).Orderly := by
  refine h.publish ht rfl (fun _ ↦ rfl) (fun f ↦ ?_) h.panic
  have hpush := ways_pushTimer s f g
  have hgoto := ways_goto { s with timers := s.timers ++ [g] } f ht (.published g)
  simp only [reduceCtorEq, if_false] at hgoto
  unfold Scheduler.sleep
  omega

theorem Orderly.addEvent {t g : ℕ} (ht : s.threads[t]? = some (.running g)) :
    (s.addEvent t g).Orderly := by
  have hrunning : s.stateOf g = some .running := (h.fits t _ ht).1
  have heq : s.addEvent t g = { s with events := s.events ++ [g] }.goto t (.published g) :=
    if_pos hrunning
  rw [heq]
  refine h.publish ht rfl (fun _ ↦ rfl) (fun f ↦ ?_) h.panic
  have hpush := ways_pushEvent s f g
  have hgoto := ways_goto { s with events := s.events ++ [g] } f ht (.published g)
  simp only [reduceCtorEq, if_false] at hgoto
  omega

theorem Orderly.swapcontext {t g : ℕ} (ht : s.threads[t]? = some (.yielding g)) :
    (s.goto t .looking).Orderly := by
  have hways : ∀ f, (s.goto t .looking).ways f = s.ways f := by
    intro f
    have hgoto := ways_goto s f ht .looking
    simp only [reduceCtorEq, if_false] at hgoto
    omega
  have hnot : s.stateOf g ≠ some .running := by
    intro hrunning
    rcases h.fits t _ ht with hready | hterm
    · exact absurd (hready.symm.trans hrunning) (by decide)
    · exact absurd (hterm.symm.trans hrunning) (by decide)
  refine h.move (g := g) ht rfl (.inr rfl) (.inl rfl) (fun _ _ ↦ rfl)
    (fun f _ ↦ Nat.le_of_eq (hways f)) ?_ ?_ trivial ?_ (fun hrunning ↦ absurd hrunning hnot)
    h.panic
  · rw [hways]
    exact h.ways_le g
  · rw [hways]
    exact h.alive g
  · intro u q _ hu _
    refine ⟨(h.fits u q hu).congr (fun _ _ ↦ rfl) fun f _ ↦ Nat.le_of_eq (hways f), fun hon ↦ ?_⟩
    cases hon

omit h in
theorem ways_setFiber_goto {t g : ℕ} {p : Place} {r : FiberRecord}
    (ht : s.threads[t]? = some p) (hr : s.fibers[g]? = some r) (r' : FiberRecord)
    (hschedules : r'.schedules = r.schedules) (p' : Place) (f : ℕ) :
    ({ s with fibers := s.fibers.set g r' }.goto t p').ways f +
        (if p = .taken f then 1 else 0) = s.ways f + if p' = .taken f then 1 else 0 := by
  have hset := ways_setFiber s f hr r'
  have hgoto := ways_goto { s with fibers := s.fibers.set g r' } f ht p'
  rw [hschedules] at hset
  omega

/-- On its way from the resumption to `yield` a fiber is running. -/
theorem Orderly.running_of_place {t g : ℕ} {p : Place} (ht : s.threads[t]? = some p)
    (hp : p = .running g ∨ p = .published g) : s.stateOf g = some .running := by
  rcases hp with rfl | rfl
  · exact (h.fits t _ ht).1
  · exact h.fits t _ ht

theorem Orderly.leave {t g : ℕ} {p : Place} {r r' : FiberRecord} (ht : s.threads[t]? = some p)
    (hp : p = .running g ∨ p = .published g) (hr : s.fibers[g]? = some r)
    (hschedules : r'.schedules = r.schedules)
    (hleft : r'.state = .ready ∨ (r'.state = .term ∧ s.ways g = 0)) :
    ({ s with fibers := s.fibers.set g r' }.goto t (.yielding g)).Orderly := by
  have hon : p.on = some g := by
    rcases hp with rfl | rfl
    · rfl
    · rfl
  have hrunning := h.running_of_place ht hp
  have hways : ∀ f, ({ s with fibers := s.fibers.set g r' }.goto t (.yielding g)).ways f =
      s.ways f := by
    intro f
    have hsum := ways_setFiber_goto ht hr r' hschedules (.yielding g) f
    have hnot : p ≠ .taken f := by
      rcases hp with rfl | rfl
      · exact Place.noConfusion
      · exact Place.noConfusion
    simp only [hnot, reduceCtorEq, if_false] at hsum
    omega
  have hstate : ∀ f, ({ s with fibers := s.fibers.set g r' }.goto t (.yielding g)).stateOf f =
      if f = g then some r'.state else s.stateOf f :=
    fun f ↦ stateOf_setFiber s f hr r'
  have hg := (hstate g).trans (if_pos rfl)
  refine h.move (g := g) ht rfl (.inr (Place.about_of_on hon)) (.inr rfl) ?_
    (fun f _ ↦ Nat.le_of_eq (hways f)) ?_ ?_ ?_ ?_ ?_ h.panic
  · intro f hf
    rw [hstate, if_neg hf]
  · rw [hways]
    exact h.ways_le g
  · intro hne
    rw [hways] at hne
    rcases hleft with hready | ⟨-, hzero⟩
    · exact .inl (hg.trans (congrArg some hready))
    · exact absurd hzero hne
  · rcases hleft with hready | ⟨hterm, -⟩
    · exact .inl (hg.trans (congrArg some hready))
    · exact .inr (hg.trans (congrArg some hterm))
  · intro u q hut hu hq
    exact absurd hq (h.others_of_running ht hon hrunning hut hu)
  · intro hrun
    rw [hg, Option.some.injEq] at hrun
    rcases hleft with hready | ⟨hterm, -⟩
    · rw [hrun] at hready
      cases hready
    · rw [hrun] at hterm
      cases hterm

omit h in
theorem exists_of_stateOf {f : ℕ} {state : State} (hstate : s.stateOf f = some state) :
    ∃ r, s.fibers[f]? = some r ∧ r.state = state := by
  unfold stateOf at hstate
  exact Option.map_eq_some_iff.mp hstate

theorem Orderly.yield {t g : ℕ} {p : Place} (ht : s.threads[t]? = some p)
    (hp : p = .running g ∨ p = .published g) : (s.yield t g).Orderly := by
  have hrunning := h.running_of_place ht hp
  obtain ⟨r, hr, hrun⟩ := exists_of_stateOf hrunning
  have heq : s.yield t g =
      { s with fibers := s.fibers.set g { r with state := .ready } }.goto t (.yielding g) := by
    simp only [Scheduler.yield, hr, FiberRecord.yield, hrun, reduceCtorEq, if_false]
    rfl
  rw [heq]
  exact h.leave ht hp hr rfl (.inl rfl)

theorem Orderly.finish {t g : ℕ} (ht : s.threads[t]? = some (.running g)) :
    (s.finish t g).Orderly := by
  obtain ⟨hrunning, hzero⟩ : s.stateOf g = some .running ∧ s.ways g = 0 := h.fits t _ ht
  obtain ⟨r, hr, -⟩ := exists_of_stateOf hrunning
  have heq : s.finish t g =
      { s with fibers := s.fibers.set g { r with state := .term } }.goto t (.yielding g) := by
    simp only [Scheduler.finish, hr, FiberRecord.yield, reduceCtorEq, if_false]
    rfl
  rw [heq]
  exact h.leave ht (.inl rfl) hr rfl (.inr ⟨rfl, hzero⟩)

/-- A fiber that was taken runs nowhere else, if no thread is about to leave it. -/
theorem Orderly.others_of_taken {t u g : ℕ} {q : Place} (ht : s.threads[t]? = some (.taken g))
    (hleft : ∀ other : ℕ, s.threads[other]? ≠ some (.yielding g)) (hut : u ≠ t)
    (hu : s.threads[u]? = some q) : q.about ≠ some g := by
  intro hq
  have hready : s.stateOf g = some .ready := h.fits t _ ht
  cases q with
  | looking => cases hq
  | taken fiber =>
      cases hq
      -- two threads that have taken it would be two ways to it
      have hone := h.ways_le g
      have hgoto := ways_goto s g ht .looking
      have hstill : (s.goto t .looking).threads[u]? = some (.taken g) :=
        (List.getElem?_set_ne (Ne.symm hut)).trans hu
      have hgoto' := ways_goto (s.goto t .looking) g hstill .looking
      simp only [if_true, reduceCtorEq, if_false] at hgoto hgoto'
      omega
  | running fiber =>
      cases hq
      have hrunning : s.stateOf g = some .running := (h.fits u _ hu).1
      exact absurd (hready.symm.trans hrunning) (by decide)
  | published fiber =>
      cases hq
      have hrunning : s.stateOf g = some .running := h.fits u _ hu
      exact absurd (hready.symm.trans hrunning) (by decide)
  | yielding fiber =>
      cases hq
      exact hleft u hu

omit h in
theorem resume_eq {t g : ℕ} {r : FiberRecord} (hr : s.fibers[g]? = some r)
    (hready : r.state = .ready) :
    s.resume t g =
      { s with fibers := s.fibers.set g { r with state := .running } }.goto t (.running g) := by
  simp only [Scheduler.resume, hr, FiberRecord.resume, hready, reduceCtorEq, or_self, if_false]
  rfl

theorem Orderly.resume {t g : ℕ} (ht : s.threads[t]? = some (.taken g))
    (hleft : ∀ other : ℕ, s.threads[other]? ≠ some (.yielding g)) : (s.resume t g).Orderly := by
  have hready : s.stateOf g = some .ready := h.fits t _ ht
  obtain ⟨r, hr, hrready⟩ := exists_of_stateOf hready
  rw [resume_eq hr hrready]
  have hsum := ways_setFiber_goto ht hr { r with state := .running } rfl (.running g)
  have hstate : ∀ f, ({ s with fibers := s.fibers.set g { r with state := .running } }.goto t
      (.running g)).stateOf f = if f = g then some .running else s.stateOf f :=
    fun f ↦ stateOf_setFiber s f hr { r with state := .running }
  have hg := (hstate g).trans (if_pos rfl)
  have hone := h.ways_le g
  have hgone := hsum g
  simp only [if_true, reduceCtorEq, if_false] at hgone
  refine h.move (g := g) ht rfl (.inr rfl) (.inr rfl) ?_ ?_ ?_ (fun _ ↦ .inr hg) ⟨hg, ?_⟩ ?_
    (fun _ ↦ .inl rfl) h.panic
  · intro f hf
    rw [hstate, if_neg hf]
  · intro f hf
    have hother := hsum f
    simp only [Place.taken.injEq, Ne.symm hf, reduceCtorEq, if_false] at hother
    omega
  · omega
  · omega
  · intro u q hut hu hq
    exact absurd hq (h.others_of_taken ht hleft hut hu)

/-! ## Runs -/

theorem Orderly.take {t : ℕ} (ht : s.threads[t]? = some .looking) (hsettled : s.Settled (.take t)) :
    (s.take t).Orderly := by
  unfold Scheduler.take
  split
  · exact h
  · rename_i task htask
    dsimp only
    split
    · rename_i callback hc
      exact h.takeCallback ht htask hc
    · rename_i g hg
      have hway : s.ways g ≠ 0 := by
        have herase := ways_eraseTask s g htask
        rw [hg, if_pos (.inl rfl)] at herase
        omega
      have hready : s.stateOf g = some .ready := by
        rcases h.alive g hway with hready | hrunning
        · exact hready
        · obtain ⟨u, hu⟩ := h.busy g hrunning
          rcases hu with hu | hu
          · exact absurd (h.fits u _ hu).2 hway
          · exact absurd hu (hsettled h.panic ht task g htask hg u)
      have hcheck : s.fibers[g]?.map FiberRecord.state = some .ready := hready
      rw [if_pos hcheck]
      exact h.take_fiber ht htask hg hready

theorem Orderly.advance (a : Action) (ha : s.Settled a) : (s.advance a).Orderly := by
  unfold Scheduler.advance
  cases a with
  | createFiber thread => exact h.createFiber thread
  | createCallback thread => exact h.createCallback thread
  | take t =>
      dsimp only
      split
      · rename_i ht
        exact h.take ht ha
      · exact h
  | resume t =>
      dsimp only
      split
      · rename_i g ht
        exact h.resume ht (ha h.panic g ht)
      · exact h
  | sleep t =>
      dsimp only
      split
      · rename_i g ht
        exact h.sleep ht
      · exact h
  | addEvent t =>
      dsimp only
      split
      · rename_i g ht
        exact h.addEvent ht
      · exact h
  | yield t =>
      dsimp only
      split
      · rename_i g ht
        exact h.yield ht (.inl rfl)
      · rename_i g ht
        exact h.yield ht (.inr rfl)
      · exact h
  | finish t =>
      dsimp only
      split
      · rename_i g ht
        exact h.finish ht
      · exact h
  | swapcontext t =>
      dsimp only
      split
      · rename_i g ht
        exact h.swapcontext ht
      · exact h
  | callback t =>
      dsimp only
      split
      · exact h.callback _
      · exact h
  | expire t i =>
      dsimp only
      split
      · exact h.expire i
      · exact h
  | triggerEvent t i =>
      dsimp only
      split
      · exact h.triggerEvent i
      · exact h
  | cancelEvent t i =>
      dsimp only
      split
      · exact h.triggerEvent i
      · exact h
  | delEvent t i =>
      dsimp only
      split
      · exact h.delEvent i
      · exact h

omit h in
theorem step_eq (hpanic : s.panic = none) (a : Action) : s.step a = s.advance a := by
  unfold step
  rw [hpanic]
  rfl

/-- A fiber that is taken too early is running, and one that is resumed too early runs on
two threads. -/
theorem Orderly.settled {a : Action} (hdispatched : (s.step a).Dispatched) : s.Settled a := by
  rw [step_eq h.panic] at hdispatched
  cases a with
  | take t =>
      intro _ ht task g htask hg u hu
      have hrunning : s.stateOf g = some .running := h.fits u _ hu
      have hcheck : ¬ s.fibers[g]?.map FiberRecord.state = some .ready := by
        intro hready
        exact absurd (hrunning.symm.trans hready) (by decide)
      apply hdispatched.ready
      simp only [Scheduler.advance, ht, Scheduler.take, htask, hg, hcheck, if_false]
  | resume t =>
      intro _ g ht u hu
      have hready : s.stateOf g = some .ready := h.fits t _ ht
      obtain ⟨r, hr, hrready⟩ := exists_of_stateOf hready
      have hut : u ≠ t := by
        rintro rfl
        rw [ht] at hu
        cases hu
      have hstep : s.advance (.resume t) = s.resume t g := by
        simp only [Scheduler.advance, ht]
      rw [hstep, resume_eq hr hrready] at hdispatched
      obtain ⟨hlt, -⟩ := List.getElem?_eq_some_iff.mp ht
      refine hut (hdispatched.alone u t (.yielding g) (.running g) g ?_ ?_ rfl rfl)
      · exact (List.getElem?_set_ne (Ne.symm hut)).trans hu
      · exact List.getElem?_set_self hlt
  | _ => trivial

end Actions

theorem looking_of_initial {threads t : ℕ} {p : Place}
    (ht : (initial threads).threads[t]? = some p) : p = .looking := by
  have hmem : p ∈ List.replicate threads Place.looking := List.mem_of_getElem? ht
  exact List.eq_of_mem_replicate hmem

theorem ways_initial (threads f : ℕ) : (initial threads).ways f = 0 := by
  simp [ways, initial, List.countP_replicate]

theorem orderly_initial (threads : ℕ) : (initial threads).Orderly where
  ways_le := by
    intro f
    rw [ways_initial]
    exact Nat.zero_le 1
  alive := fun f hne ↦ absurd (ways_initial threads f) hne
  fits := by
    intro t p ht
    rw [looking_of_initial ht]
    trivial
  alone := by
    intro t t' p p' f ht _ hon _
    rw [looking_of_initial ht] at hon
    cases hon
  busy := fun f hrunning ↦ absurd hrunning (Option.some_ne_none _).symm
  panic := rfl

/-- Only ready fibers are taken and none runs on two threads, along a run of any number
of threads, exactly if no fiber is taken before it has come to its `yield` or resumed
before its thread has left its stack. -/
theorem dispatched_iff_settled (threads : ℕ) (as : List Action) :
    (∀ bs, bs <+: as → (Runs.run step (initial threads) bs).Dispatched) ↔
      Runs.Along step Settled (initial threads) as := by
  refine Runs.property_iff_along (P := fun _ s ↦ s.Orderly) (Q := fun _ s ↦ s.Dispatched) step
    (orderly_initial threads) ?_ ?_ ?_ as
  · intro bs a h ha
    rw [step_eq h.panic]
    exact h.advance a ha
  · exact fun _ h ↦ h.dispatched
  · exact fun _ a h hdispatched ↦ h.settled hdispatched

/-- A fiber sleeps on the first thread; its timer expires and its callback runs on the
second one, and a third one takes the fiber before the first has come to `yield`. -/
def wokenTooEarly : List Action :=
  [.createFiber none, .take 0, .resume 0, .sleep 0, .expire 1 0, .take 1, .resume 1, .callback 1,
    .take 2]

theorem not_dispatched_wokenTooEarly :
    ¬ (Runs.run step (initial 3) wokenTooEarly).Dispatched := by
  intro h
  apply h.ready
  decide +kernel

end HttpRaftKv.Fiber.Scheduler
