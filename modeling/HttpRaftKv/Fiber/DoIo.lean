import HttpRaftKv.Fiber.Hook

/-!
# A hooked call on a descriptor

`do_io` makes the system call again and again until it has something to return.  When the
call would wait, the fiber registers itself for the event, sets a timer if the descriptor
has a timeout, and yields; the event, the timer or the end of the descriptor schedules it.

The kernel, the timers and the other threads take their steps in any order.  A timer that
has been taken from the manager runs its callback later, and cancelling it then comes too
late.
-/

namespace HttpRaftKv.Fiber

namespace Hook

/-- The values of `errno` that `do_io` asks for or sets, and the others. -/
inductive Errno
  | EAGAIN
  | EINTR
  | EBADF
  | ETIMEDOUT
  | other (n : ℕ)
deriving DecidableEq, Repr

inductive Answer
  | value (n : ℕ)
  | error (errno : Errno)
deriving DecidableEq, Repr

/-- Where the call is. -/
inductive Stage
  /-- The system call is made once, and its answer is returned. -/
  | plain
  | calling
  /-- The system call would wait, and `addEvent` is next. -/
  | adding
  | waiting
  | returned (answer : Answer)
deriving DecidableEq, Repr

/-- A call with its `timer_info`.  The timer is in the manager (`armed`) or has been taken
from it (`due`); the fiber is registered for the event or in the queue of the scheduler. -/
structure IoCall where
  stage : Stage
  timeout : UInt64
  cnacelled : Bool
  armed : Bool
  due : ℕ
  registered : Bool
  scheduled : ℕ
deriving DecidableEq, Repr

/-- `getTimeout` of a context. -/
def getTimeout (ctx : FdCtx) (recv : Bool) : UInt64 :=
  if recv then ctx.recvTimeout else ctx.sendTimeout

/-- What is done next. -/
inductive IoStep
  /-- The system call answers. -/
  | answer (answer : Answer)
  /-- `addEvent`; `failure` is the `errno` that `epoll_ctl` leaves if it fails. -/
  | addEvent (failure : Option Errno)
  /-- The timer is taken from the manager. -/
  | expire
  /-- The callback of a timer that has been taken; `ok` if `epoll_ctl` succeeds when there
  is an event to cancel. -/
  | callback (ok : Bool)
  /-- The event has occurred, or the descriptor is closed. -/
  | trigger
  /-- The scheduler takes the fiber from its queue. -/
  | resume
deriving DecidableEq, Repr

namespace IoCall

/-- The first lines of `do_io`. -/
def start (hooked : Bool) (ctx : Option FdCtx) (recv : Bool) : IoCall :=
  let call (stage : Stage) (timeout : UInt64) : IoCall :=
    ⟨stage, timeout, false, false, 0, false, 0⟩
  if !hooked then call .plain (-1)
  else
    match ctx with
    | none => call .plain (-1)
    | some ctx =>
        if ctx.isClosed then call (.returned (.error .EBADF)) (-1)
        else if !ctx.isSocket || ctx.userNonblock then call .plain (-1)
        else call .calling (getTimeout ctx recv)

/-- The call has not returned, so that its `timer_info` is there. -/
def alive (s : IoCall) : Bool :=
  match s.stage with
  | .returned _ => false
  | _ => true

/-- The fiber goes from the event to the scheduler. -/
def triggerEvent (s : IoCall) : IoCall :=
  if s.registered then { s with registered := false, scheduled := s.scheduled + 1 } else s

/-- The answer of the system call. -/
def onAnswer (s : IoCall) (answer : Answer) : IoCall :=
  match s.stage with
  | .plain => { s with stage := .returned answer }
  | .calling =>
      match answer with
      | .error .EINTR => s
      | .error .EAGAIN => { s with stage := .adding, armed := s.timeout != -1 }
      | answer => { s with stage := .returned answer }
  | _ => s

/-- The fiber yields behind an `addEvent` that succeeds; one that fails is the end of the
call, with the `errno` that it has left. -/
def onAddEvent (s : IoCall) (failure : Option Errno) : IoCall :=
  match s.stage with
  | .adding =>
      match failure with
      | none => { s with stage := .waiting, registered := true }
      | some errno => { s with stage := .returned (.error errno), armed := false }
  | _ => s

/-- The lambda of the timer. -/
def onCallback (s : IoCall) (ok : Bool) : IoCall :=
  if s.due = 0 then s
  else
    let s := { s with due := s.due - 1 }
    if !s.alive || s.cnacelled then s
    else
      let s := { s with cnacelled := true }
      if ok then s.triggerEvent else s

/-- What is behind `yield`. -/
def onResume (s : IoCall) : IoCall :=
  match s.stage with
  | .waiting =>
      if s.scheduled = 0 then s
      else
        { s with
          scheduled := s.scheduled - 1
          armed := false
          stage := if s.cnacelled then .returned (.error .ETIMEDOUT) else .calling }
  | _ => s

def step (s : IoCall) : IoStep → IoCall
  | .answer answer => s.onAnswer answer
  | .addEvent failure => s.onAddEvent failure
  | .expire => if s.armed then { s with armed := false, due := s.due + 1 } else s
  | .callback ok => s.onCallback ok
  | .trigger => s.triggerEvent
  | .resume => s.onResume

variable {s : IoCall}

/-! ## The fiber while it waits -/

/-- A fiber that waits is registered or scheduled, once; the timer belongs to the wait, and
there is none without a timeout. -/
structure Sound (s : IoCall) : Prop where
  ways : s.registered.toNat + s.scheduled = if s.stage = .waiting then 1 else 0
  timed : s.armed = true ∨ 0 < s.due ∨ s.cnacelled = true → s.timeout ≠ -1
  armed : s.armed = true → s.stage = .adding ∨ s.stage = .waiting
  pending : s.stage = .adding ∨ s.stage = .waiting → s.timeout ≠ -1 → s.cnacelled = false →
    s.armed = true ∨ 0 < s.due

namespace Sound

theorem start (hooked : Bool) (ctx : Option FdCtx) (recv : Bool) :
    (start hooked ctx recv).Sound := by
  have h : ∀ stage timeout, stage ≠ .adding → stage ≠ .waiting →
      (⟨stage, timeout, false, false, 0, false, 0⟩ : IoCall).Sound := by
    intro stage timeout hadding hwaiting
    exact ⟨by simp [hwaiting], by simp, by simp, by simp [hadding, hwaiting]⟩
  unfold IoCall.start
  split_ifs
  · exact h _ _ (by simp) (by simp)
  · cases ctx with
    | none => exact h _ _ (by simp) (by simp)
    | some ctx =>
        dsimp only
        split_ifs
        · exact h _ _ (by simp) (by simp)
        · exact h _ _ (by simp) (by simp)
        · exact h _ _ (by simp) (by simp)

/-- A fiber that is registered waits and is not scheduled. -/
theorem of_registered (h : s.Sound) (hregistered : s.registered = true) :
    s.stage = .waiting ∧ s.scheduled = 0 := by
  have hways := h.ways
  rw [hregistered] at hways
  split_ifs at hways with hwaiting
  · exact ⟨hwaiting, by simpa using hways⟩
  · simp at hways

theorem triggerEvent (h : s.Sound) : s.triggerEvent.Sound := by
  unfold IoCall.triggerEvent
  split_ifs with hregistered
  · obtain ⟨hwaiting, hscheduled⟩ := h.of_registered hregistered
    refine ⟨?_, h.timed, h.armed, h.pending⟩
    simp [hwaiting, hscheduled]
  · exact h

theorem onAnswer (h : s.Sound) (answer : Answer) : (s.onAnswer answer).Sound := by
  have hways := h.ways
  unfold IoCall.onAnswer
  cases hstage : s.stage with
  | plain =>
      have harmed : s.armed = false := by
        cases harmed : s.armed with
        | false => rfl
        | true => simpa [hstage] using h.armed harmed
      rw [hstage] at hways
      exact ⟨by simpa using hways, h.timed, by simp [harmed], by simp⟩
  | calling =>
      have harmed : s.armed = false := by
        cases harmed : s.armed with
        | false => rfl
        | true => simpa [hstage] using h.armed harmed
      rw [hstage] at hways
      have hreturn : ({ s with stage := .returned answer } : IoCall).Sound :=
        ⟨by simpa using hways, h.timed, by simp [harmed], by simp⟩
      cases answer with
      | value n => exact hreturn
      | error errno =>
          cases errno with
          | EINTR => exact h
          | EAGAIN =>
              refine ⟨by simpa using hways, ?_, fun _ ↦ .inl rfl, ?_⟩
              · rintro (hto | hdue)
                · simpa using hto
                · exact h.timed (.inr hdue)
              · intro _ hto _
                exact .inl (by simpa using hto)
          | EBADF => exact hreturn
          | ETIMEDOUT => exact hreturn
          | other n => exact hreturn
  | adding => exact h
  | waiting => exact h
  | returned answer => exact h

theorem onAddEvent (h : s.Sound) (failure : Option Errno) : (s.onAddEvent failure).Sound := by
  have hways := h.ways
  unfold IoCall.onAddEvent
  cases hstage : s.stage with
  | adding =>
      rw [hstage] at hways
      have hnone : s.registered = false ∧ s.scheduled = 0 := by
        simpa using hways
      cases failure with
      | none =>
          refine ⟨by simp [hnone.2], h.timed, fun _ ↦ .inr rfl, ?_⟩
          exact fun _ ↦ h.pending (.inl hstage)
      | some errno =>
          refine ⟨by simp [hnone.1, hnone.2], ?_, by simp, by simp⟩
          rintro (harmed | hdue)
          · cases harmed
          · exact h.timed (.inr hdue)
  | plain => exact h
  | calling => exact h
  | waiting => exact h
  | returned answer => exact h

theorem expire (h : s.Sound) : (s.step .expire).Sound := by
  rw [IoCall.step]
  split_ifs with harmed
  · have hto := h.timed (.inl harmed)
    exact ⟨h.ways, fun _ ↦ hto, by simp, fun _ _ _ ↦ .inr (Nat.succ_pos _)⟩
  · exact h

theorem onCallback (h : s.Sound) (ok : Bool) : (s.onCallback ok).Sound := by
  unfold IoCall.onCallback
  by_cases hdue : s.due = 0
  · rw [if_pos hdue]
    exact h
  rw [if_neg hdue]
  have hto := h.timed (.inr (.inl (Nat.pos_of_ne_zero hdue)))
  dsimp only
  split_ifs with hdead
  · refine ⟨h.ways, fun _ ↦ hto, h.armed, fun hstage _ hcnacelled ↦ ?_⟩
    -- the callback does nothing only behind the end of the call or after another one
    rcases hstage with hstage | hstage
    · rw [alive, hstage, show s.cnacelled = false from hcnacelled] at hdead
      simp at hdead
    · rw [alive, hstage, show s.cnacelled = false from hcnacelled] at hdead
      simp at hdead
  · exact Sound.triggerEvent ⟨h.ways, fun _ ↦ hto, h.armed, by simp⟩
  · exact ⟨h.ways, fun _ ↦ hto, h.armed, by simp⟩

theorem onResume (h : s.Sound) : s.onResume.Sound := by
  unfold IoCall.onResume
  cases hstage : s.stage with
  | waiting =>
      dsimp only
      split_ifs with hzero hcnacelled
      · exact h
      · have hways := h.ways
        rw [if_pos hstage] at hways
        refine ⟨?_, fun htimed ↦ ?_, by simp, by simp⟩
        · simp only [reduceCtorEq, if_false]
          omega
        · exact h.timed (.inr (htimed.resolve_left (by simp)))
      · have hways := h.ways
        rw [if_pos hstage] at hways
        refine ⟨?_, fun htimed ↦ ?_, by simp, by simp⟩
        · simp only [reduceCtorEq, if_false]
          omega
        · exact h.timed (.inr (htimed.resolve_left (by simp)))
  | plain => exact h
  | calling => exact h
  | adding => exact h
  | returned answer => exact h

theorem step (h : s.Sound) (a : IoStep) : (s.step a).Sound := by
  cases a with
  | answer answer => exact h.onAnswer answer
  | addEvent failure => exact h.onAddEvent failure
  | expire => exact h.expire
  | callback ok => exact h.onCallback ok
  | trigger => exact h.triggerEvent
  | resume => exact h.onResume

end Sound

theorem sound_run (hooked : Bool) (ctx : Option FdCtx) (recv : Bool) (as : List IoStep) :
    (Runs.run step (start hooked ctx recv) as).Sound :=
  Runs.invariant_of_step step (P := fun _ s ↦ s.Sound) (Sound.start hooked ctx recv)
    (fun _ a h ↦ h.step a) as

/-! ## What is returned -/

/-- What the call returns is an answer of the system call, or the timer has expired, or the
event could not be added.  A call that may wait returns no answer of the system call for
which it should have tried again.  `first` is the stage in which the call has been
started. -/
structure Accounted (first : Stage) (as : List IoStep) (s : IoCall) : Prop where
  plain : s.stage = .plain → first = .plain
  calling : s.stage = .calling ∨ s.stage = .adding ∨ s.stage = .waiting → first = .calling
  expired : 0 < s.due ∨ s.cnacelled = true → .expire ∈ as
  returned : ∀ a, s.stage = .returned a →
    first = .returned a ∨
    (.answer a ∈ as ∧ (first = .calling → a ≠ .error .EINTR ∧ a ≠ .error .EAGAIN)) ∨
    (a = .error .ETIMEDOUT ∧ s.timeout ≠ -1 ∧ .expire ∈ as) ∨
    (∃ errno, a = .error errno ∧ .addEvent (some errno) ∈ as ∧ first = .calling)

namespace Accounted

variable {first : Stage} {as : List IoStep}

/-- A step that keeps the stage, the timer and the timeout. -/
theorem keep (h : Accounted first as s) {s' : IoCall} {a : IoStep} (hstage : s'.stage = s.stage)
    (htimeout : s'.timeout = s.timeout)
    (hexpired : 0 < s'.due ∨ s'.cnacelled = true → .expire ∈ as ++ [a]) :
    Accounted first (as ++ [a]) s' where
  plain hplain := h.plain (hstage ▸ hplain)
  calling hcalling := h.calling (hstage ▸ hcalling)
  expired := hexpired
  returned b hb := by
    rw [htimeout]
    rcases h.returned b (hstage ▸ hb) with
      hfirst | ⟨hmem, hagain⟩ | ⟨hb, htimed, hmem⟩ | ⟨errno, hb, hmem, hfirst⟩
    · exact .inl hfirst
    · exact .inr (.inl ⟨List.mem_append_left _ hmem, hagain⟩)
    · exact .inr (.inr (.inl ⟨hb, htimed, List.mem_append_left _ hmem⟩))
    · exact .inr (.inr (.inr ⟨errno, hb, List.mem_append_left _ hmem, hfirst⟩))

theorem same (h : Accounted first as s) (a : IoStep) : Accounted first (as ++ [a]) s :=
  h.keep rfl rfl fun hexpired ↦ List.mem_append_left _ (h.expired hexpired)

/-- The call goes on without returning. -/
theorem goto (h : Accounted first as s) (a : IoStep) {stage : Stage} (armed registered : Bool)
    (scheduled : ℕ) (hfirst : first = .calling) (hplain : stage ≠ .plain)
    (hreturned : ∀ b, stage ≠ .returned b) :
    Accounted first (as ++ [a])
      { s with
        stage := stage
        armed := armed
        registered := registered
        scheduled := scheduled } where
  plain hstage := absurd hstage hplain
  calling _ := hfirst
  expired hexpired := List.mem_append_left _ (h.expired hexpired)
  returned b hstage := absurd hstage (hreturned b)

/-- The system call has given an answer that is returned. -/
theorem answered (h : Accounted first as s) {answer : Answer}
    (hagain : first = .calling → answer ≠ .error .EINTR ∧ answer ≠ .error .EAGAIN) :
    Accounted first (as ++ [.answer answer]) { s with stage := .returned answer } where
  plain hstage := by cases hstage
  calling hstage := by rcases hstage with hstage | hstage | hstage <;> cases hstage
  expired hexpired := List.mem_append_left _ (h.expired hexpired)
  returned b hstage := by
    cases hstage
    exact .inr (.inl ⟨by simp, hagain⟩)

theorem onAnswer (h : Accounted first as s) (answer : Answer) :
    Accounted first (as ++ [.answer answer]) (s.onAnswer answer) := by
  unfold IoCall.onAnswer
  cases hstage : s.stage with
  | plain =>
      refine h.answered fun hfirst ↦ ?_
      rw [h.plain hstage] at hfirst
      cases hfirst
  | calling =>
      cases answer with
      | value n => exact h.answered (by simp)
      | error errno =>
          cases errno with
          | EINTR => exact h.same _
          | EAGAIN => exact h.goto _ _ _ _ (h.calling (.inl hstage)) (by simp) (by simp)
          | EBADF => exact h.answered (by simp)
          | ETIMEDOUT => exact h.answered (by simp)
          | other n => exact h.answered (by simp)
  | adding => exact h.same _
  | waiting => exact h.same _
  | returned b => exact h.same _

theorem onAddEvent (h : Accounted first as s) (failure : Option Errno) :
    Accounted first (as ++ [.addEvent failure]) (s.onAddEvent failure) := by
  unfold IoCall.onAddEvent
  cases hstage : s.stage with
  | adding =>
      have hfirst := h.calling (.inr (.inl hstage))
      cases failure with
      | none => exact h.goto _ _ _ _ hfirst (by simp) (by simp)
      | some errno =>
          refine ⟨by simp, by simp, fun hexpired ↦ List.mem_append_left _ (h.expired hexpired),
            fun b hb ↦ ?_⟩
          cases hb
          exact .inr (.inr (.inr ⟨errno, rfl, by simp, hfirst⟩))
  | plain => exact h.same _
  | calling => exact h.same _
  | waiting => exact h.same _
  | returned b => exact h.same _

theorem triggerEvent (h : Accounted first as s) : Accounted first as s.triggerEvent := by
  unfold IoCall.triggerEvent
  split_ifs
  · exact ⟨h.plain, h.calling, h.expired, h.returned⟩
  · exact h

theorem onCallback (h : Accounted first as s) (ok : Bool) :
    Accounted first (as ++ [.callback ok]) (s.onCallback ok) := by
  unfold IoCall.onCallback
  by_cases hdue : s.due = 0
  · rw [if_pos hdue]
    exact h.same _
  rw [if_neg hdue]
  have hexpired : IoStep.expire ∈ as ++ [.callback ok] :=
    List.mem_append_left _ (h.expired (.inl (Nat.pos_of_ne_zero hdue)))
  dsimp only
  split_ifs
  · exact h.keep rfl rfl fun _ ↦ hexpired
  · exact Accounted.triggerEvent (h.keep rfl rfl fun _ ↦ hexpired)
  · exact h.keep rfl rfl fun _ ↦ hexpired

theorem onResume (h : Accounted first as s) (hsound : s.Sound) :
    Accounted first (as ++ [.resume]) s.onResume := by
  unfold IoCall.onResume
  cases hstage : s.stage with
  | waiting =>
      dsimp only
      split_ifs with hzero hcnacelled
      · exact h.same _
      · -- the timer has ended the wait
        have hexpired := List.mem_append_left [IoStep.resume] (h.expired (.inr hcnacelled))
        refine ⟨by simp, by simp, fun _ ↦ hexpired, fun b hb ↦ ?_⟩
        cases hb
        exact .inr (.inr (.inl ⟨rfl, hsound.timed (.inr (.inr hcnacelled)), hexpired⟩))
      · exact h.goto _ _ _ _ (h.calling (.inr (.inr hstage))) (by simp) (by simp)
  | plain => exact h.same _
  | calling => exact h.same _
  | adding => exact h.same _
  | returned b => exact h.same _

theorem step (h : Accounted first as s) (hsound : s.Sound) (a : IoStep) :
    Accounted first (as ++ [a]) (s.step a) := by
  cases a with
  | answer answer => exact h.onAnswer answer
  | addEvent ok => exact h.onAddEvent ok
  | expire =>
      rw [IoCall.step]
      split_ifs
      · exact h.keep rfl rfl fun _ ↦ by simp
      · exact h.same _
  | callback ok => exact h.onCallback ok
  | trigger => exact (h.same _).triggerEvent
  | resume => exact h.onResume hsound

end Accounted

theorem accounted_start (hooked : Bool) (ctx : Option FdCtx) (recv : Bool) :
    Accounted (start hooked ctx recv).stage [] (start hooked ctx recv) := by
  have hnew : (start hooked ctx recv).due = 0 ∧ (start hooked ctx recv).cnacelled = false ∧
      (start hooked ctx recv).stage ≠ .adding ∧ (start hooked ctx recv).stage ≠ .waiting := by
    unfold start
    split_ifs
    · simp
    · cases ctx with
      | none => simp
      | some ctx =>
          dsimp only
          split_ifs
          · simp
          · simp
          · simp
  obtain ⟨hdue, hcnacelled, hadding, hwaiting⟩ := hnew
  refine ⟨id, fun hstage ↦ ?_, by simp [hdue, hcnacelled], fun a h ↦ .inl h⟩
  rcases hstage with hcalling | hstage | hstage
  · exact hcalling
  · exact absurd hstage hadding
  · exact absurd hstage hwaiting

/-- A fiber that waits is registered or scheduled, once, and one that does not wait is
neither; and what a call returns is accounted for. -/
theorem fibers_wait_once_and_return_answers (hooked : Bool) (ctx : Option FdCtx) (recv : Bool)
    (as : List IoStep) :
    let first := start hooked ctx recv
    let s := Runs.run step first as
    (s.registered.toNat + s.scheduled = if s.stage = .waiting then 1 else 0) ∧
      Accounted first.stage as s := by
  refine ⟨(sound_run hooked ctx recv as).ways, ?_⟩
  refine (Runs.invariant_of_step step
    (P := fun as s ↦ s.Sound ∧ Accounted (start hooked ctx recv).stage as s) ?_ ?_ as).2
  · exact ⟨Sound.start hooked ctx recv, accounted_start hooked ctx recv⟩
  · exact fun _ a h ↦ ⟨h.1.step a, h.2.step h.1 a⟩

/-! ## The end of a wait -/

/-- What happens without the kernel and without other fibers: the timer is taken from the
manager, its callback cancels the event, and the fiber is resumed. -/
def Own : IoStep → Prop
  | .expire => True
  | .callback ok => ok = true
  | .resume => True
  | _ => False

/-- A wait with a timeout ends without the event. -/
def Ends (s : IoCall) : Prop :=
  s.stage = .waiting → s.timeout ≠ -1 →
    ∃ cs : List IoStep, (∀ c ∈ cs, Own c) ∧ (Runs.run step s cs).stage ≠ .waiting

/-- The fiber is scheduled, or the timer still has to cancel its event. -/
def Timed (s : IoCall) : Prop :=
  s.stage = .waiting → s.timeout ≠ -1 → s.registered = true → s.cnacelled = false

/-- The timer does not run its callback before the event has been added, and then it
succeeds in cancelling it. -/
def InTime (s : IoCall) : IoStep → Prop
  | .addEvent failure => s.stage = .adding → failure = none → s.cnacelled = false
  | .callback ok => s.registered = true → 0 < s.due → ok = true
  | _ => True

/-- The scheduler resumes a fiber that is scheduled. -/
theorem stage_onResume (hwaiting : s.stage = .waiting) (hscheduled : s.scheduled ≠ 0) :
    s.onResume.stage ≠ .waiting := by
  rw [onResume, hwaiting]
  dsimp only
  rw [if_neg hscheduled]
  split_ifs
  · simp
  · simp

/-- A timer that has been taken cancels the event and schedules the fiber. -/
theorem ends_of_due (h : s.Sound) (hwaiting : s.stage = .waiting)
    (hregistered : s.registered = true) (hcnacelled : s.cnacelled = false) (hdue : 0 < s.due) :
    (Runs.run step s [.callback true, .resume]).stage ≠ .waiting := by
  have hcallback : s.step (.callback true) =
      { s with due := s.due - 1, cnacelled := true, registered := false, scheduled := 1 } := by
    rw [step, onCallback, if_neg hdue.ne']
    simp [alive, hwaiting, hcnacelled, triggerEvent, hregistered, (h.of_registered hregistered).2]
  change ((s.step (.callback true)).onResume).stage ≠ .waiting
  rw [hcallback]
  exact stage_onResume hwaiting one_ne_zero

theorem Sound.ends (h : s.Sound) (htimed : s.Timed) : s.Ends := by
  intro hwaiting htimeout
  have hways := h.ways
  rw [if_pos hwaiting] at hways
  cases hregistered : s.registered with
  | false =>
      rw [hregistered] at hways
      refine ⟨[.resume], by simp [Own], stage_onResume hwaiting ?_⟩
      rw [show s.scheduled = 1 by simpa using hways]
      exact one_ne_zero
  | true =>
      have hcnacelled := htimed hwaiting htimeout hregistered
      rcases h.pending (.inr hwaiting) htimeout hcnacelled with harmed | hdue
      · refine ⟨[.expire, .callback true, .resume], by simp [Own], ?_⟩
        have hexpire := ends_of_due (h.step .expire)
        rw [IoCall.step, if_pos harmed] at hexpire
        rw [show Runs.run IoCall.step s [.expire, .callback true, .resume] =
          Runs.run IoCall.step (s.step .expire) [.callback true, .resume] from rfl, IoCall.step,
          if_pos harmed]
        exact hexpire hwaiting hregistered hcnacelled (Nat.succ_pos _)
      · exact ⟨[.callback true, .resume], by simp [Own],
          ends_of_due h hwaiting hregistered hcnacelled hdue⟩

/-- The timer has been spent and the fiber is still registered: only the event can end the
wait. -/
def Spent (s : IoCall) : Prop :=
  s.stage = .waiting ∧ s.registered = true ∧ s.cnacelled = true

theorem Sound.spent_step (h : s.Sound) (hspent : s.Spent) {c : IoStep} (hc : Own c) :
    (s.step c).Spent := by
  obtain ⟨hwaiting, hregistered, hcnacelled⟩ := hspent
  cases c with
  | expire =>
      rw [IoCall.step]
      split_ifs
      · exact ⟨hwaiting, hregistered, hcnacelled⟩
      · exact ⟨hwaiting, hregistered, hcnacelled⟩
  | callback ok =>
      rw [IoCall.step, IoCall.onCallback]
      by_cases hdue : s.due = 0
      · rw [if_pos hdue]
        exact ⟨hwaiting, hregistered, hcnacelled⟩
      · rw [if_neg hdue]
        dsimp only
        rw [if_pos (by rw [hcnacelled, Bool.or_true])]
        exact ⟨hwaiting, hregistered, hcnacelled⟩
  | resume =>
      rw [IoCall.step, IoCall.onResume, hwaiting]
      dsimp only
      rw [if_pos (h.of_registered hregistered).2]
      exact ⟨hwaiting, hregistered, hcnacelled⟩
  | answer _ => exact hc.elim
  | addEvent _ => exact hc.elim
  | trigger => exact hc.elim

theorem Sound.spent_run (h : s.Sound) (hspent : s.Spent) {cs : List IoStep}
    (hcs : ∀ c ∈ cs, Own c) : (Runs.run IoCall.step s cs).Spent := by
  induction cs generalizing s with
  | nil => exact hspent
  | cons c cs ih =>
      have hc := hcs c List.mem_cons_self
      exact ih (h.step c) (h.spent_step hspent hc) fun d hd ↦ hcs d (List.mem_cons_of_mem _ hd)

theorem Sound.timed_of_ends (h : s.Sound) (hends : s.Ends) : s.Timed := by
  intro hwaiting htimeout hregistered
  by_contra hcnacelled
  obtain ⟨cs, hcs, hend⟩ := hends hwaiting htimeout
  rw [Bool.not_eq_false] at hcnacelled
  exact hend (h.spent_run ⟨hwaiting, hregistered, hcnacelled⟩ hcs).1

/-- A step that leaves nothing of the wait but the timer. -/
theorem Timed.same (h : s.Timed) {s' : IoCall} (hstage : s'.stage = .waiting → s.stage = .waiting)
    (htimeout : s'.timeout = s.timeout) (hregistered : s'.registered = true → s.registered = true)
    (hcnacelled : s'.cnacelled = s.cnacelled) : s'.Timed := by
  intro hwaiting htimed hreg
  rw [hcnacelled]
  exact h (hstage hwaiting) (htimeout ▸ htimed) (hregistered hreg)

theorem Timed.onAnswer (h : s.Timed) (answer : Answer) : (s.onAnswer answer).Timed := by
  unfold IoCall.onAnswer
  cases hstage : s.stage with
  | plain => exact h.same (by simp) rfl id rfl
  | calling =>
      cases answer with
      | value n => exact h.same (by simp) rfl id rfl
      | error errno =>
          cases errno with
          | EINTR => exact h
          | EAGAIN => exact h.same (by simp) rfl id rfl
          | EBADF => exact h.same (by simp) rfl id rfl
          | ETIMEDOUT => exact h.same (by simp) rfl id rfl
          | other n => exact h.same (by simp) rfl id rfl
  | adding => exact h
  | waiting => exact h
  | returned answer => exact h

theorem Timed.onResume (h : s.Timed) : s.onResume.Timed := by
  unfold IoCall.onResume
  cases hstage : s.stage with
  | waiting =>
      dsimp only
      split_ifs
      · exact h
      · exact h.same (fun _ ↦ hstage) rfl id rfl
      · exact h.same (fun _ ↦ hstage) rfl id rfl
  | plain => exact h
  | calling => exact h
  | adding => exact h
  | returned answer => exact h

theorem Timed.triggerEvent (h : s.Timed) : s.triggerEvent.Timed := by
  unfold IoCall.triggerEvent
  split_ifs
  · exact h.same id rfl (by simp) rfl
  · exact h

theorem Timed.onAddEvent (h : s.Timed) {failure : Option Errno}
    (hintime : s.InTime (.addEvent failure)) : (s.onAddEvent failure).Timed := by
  unfold IoCall.onAddEvent
  cases hstage : s.stage with
  | adding =>
      cases failure with
      | none => exact fun _ _ _ ↦ hintime hstage rfl
      | some errno => exact h.same (by simp) rfl id rfl
  | plain => exact h
  | calling => exact h
  | waiting => exact h
  | returned answer => exact h

theorem Timed.onCallback (h : s.Timed) {ok : Bool}
    (hintime : s.InTime (.callback ok)) : (s.onCallback ok).Timed := by
  unfold IoCall.onCallback
  by_cases hdue : s.due = 0
  · rw [if_pos hdue]
    exact h
  rw [if_neg hdue]
  dsimp only
  split_ifs with hdead hok
  · exact h.same id rfl id rfl
  · -- the event is cancelled, or there is none
    unfold IoCall.triggerEvent
    split_ifs with hregistered
    · exact fun _ _ h ↦ by cases h
    · exact fun _ _ h ↦ absurd h hregistered
  · exact fun _ _ hregistered ↦ absurd (hintime hregistered (Nat.pos_of_ne_zero hdue)) hok

theorem Timed.step (h : s.Timed) {a : IoStep} (ha : s.InTime a) : (s.step a).Timed := by
  cases a with
  | answer answer => exact h.onAnswer answer
  | addEvent failure => exact h.onAddEvent ha
  | expire =>
      rw [IoCall.step]
      split_ifs
      · exact h.same id rfl id rfl
      · exact h
  | callback ok => exact h.onCallback ha
  | trigger => exact h.triggerEvent
  | resume => exact h.onResume

/-- A timer that runs its callback at the wrong moment is spent. -/
theorem Sound.inTime (hsound : s.Sound) (h : s.Timed) {a : IoStep} (hnext : (s.step a).Timed) :
    s.InTime a := by
  cases a with
  | addEvent failure =>
      rintro hstage rfl
      rw [IoCall.step, IoCall.onAddEvent, hstage] at hnext
      by_contra hcnacelled
      have htimeout := hsound.timed (.inr (.inr (Bool.eq_true_of_not_eq_false hcnacelled)))
      exact hcnacelled (hnext rfl htimeout rfl)
  | callback ok =>
      intro hregistered hdue
      have hwaiting := (hsound.of_registered hregistered).1
      have htimeout := hsound.timed (.inr (.inl hdue))
      have hcnacelled := h hwaiting htimeout hregistered
      cases ok with
      | true => rfl
      | false =>
          rw [IoCall.step, IoCall.onCallback, if_neg hdue.ne'] at hnext
          simp only [alive, hwaiting, hcnacelled, Bool.not_true, Bool.or_self,
            Bool.false_eq_true, if_false] at hnext
          exact absurd (hnext rfl htimeout hregistered) (by simp)
  | answer _ => trivial
  | expire => trivial
  | trigger => trivial
  | resume => trivial

theorem timed_start (hooked : Bool) (ctx : Option FdCtx) (recv : Bool) :
    (start hooked ctx recv).Timed := by
  intro _ _
  unfold start
  split_ifs
  · simp
  · cases ctx with
    | none => simp
    | some ctx =>
        dsimp only
        split_ifs
        · simp
        · simp
        · simp

/-- Through a whole run every wait with a timeout can end without its event, exactly if no
timer runs its callback before the event has been added and none fails to cancel it. -/
theorem timed_waits_end_iff (hooked : Bool) (ctx : Option FdCtx) (recv : Bool)
    (as : List IoStep) :
    (∀ bs, bs <+: as → (Runs.run step (start hooked ctx recv) bs).Ends) ↔
      Runs.Along step InTime (start hooked ctx recv) as := by
  refine Runs.property_iff_along (P := fun _ s ↦ s.Sound ∧ s.Timed) (Q := fun _ s ↦ s.Ends) step
    ⟨Sound.start hooked ctx recv, timed_start hooked ctx recv⟩ ?_ ?_ ?_ as
  · exact fun _ a h ha ↦ ⟨h.1.step a, h.2.step ha⟩
  · exact fun _ h ↦ h.1.ends h.2
  · exact fun _ a h hends ↦ h.1.inTime h.2 ((h.1.step a).timed_of_ends hends)

/-- The timer expires and runs its callback before the fiber has registered itself. -/
def expiredTooEarly : List IoStep :=
  [.answer (.error .EAGAIN), .expire, .callback true, .addEvent none]

example : Spent (Runs.run step
    (start true (some ⟨true, true, true, false, false, 1, -1⟩) true) expiredTooEarly) := by
  unfold Spent
  decide

end IoCall

end Hook

end HttpRaftKv.Fiber
