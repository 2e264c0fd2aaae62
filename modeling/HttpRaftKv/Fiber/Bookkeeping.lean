import HttpRaftKv.Fiber.IOManager
import Mathlib.Algebra.GroupWithZero.Nat
import Mathlib.Data.List.Basic

/-!
# The bookkeeping of events

Every change of the contexts puts the target of a registration into an empty place or
takes it out, and the counter and the queue follow it.  What `epoll_wait` has reported
may be out of date when it is processed: if one of two events was taken away in between,
it is triggered nevertheless, and the process ends.
-/

namespace HttpRaftKv.Fiber

namespace FdContext

@[simp] theorem assign_events (c : FdContext) (event : Event)
    (target : Option (Ticket EventContext)) :
    (c.assign event target).events = Function.update c.events event target.isSome :=
  rfl

@[simp] theorem assign_context (c : FdContext) (event : Event)
    (target : Option (Ticket EventContext)) :
    (c.assign event target).context = Function.update c.context event target :=
  rfl

theorem bits_assign (c : FdContext) (event : Event) (target : Option (Ticket EventContext)) :
    (c.assign event target).bits + (c.events event).toNat = c.bits + target.isSome.toNat := by
  cases event with
  | read =>
      have hwrite : (c.assign .read target).events .write = c.events .write := rfl
      have hread : (c.assign .read target).events .read = target.isSome := rfl
      simp only [bits, hwrite, hread]
      omega
  | write =>
      have hread : (c.assign .write target).events .read = c.events .read := rfl
      have hwrite : (c.assign .write target).events .write = target.isSome := rfl
      simp only [bits, hwrite, hread]
      omega

theorem isNone_iff (c : FdContext) : c.isNone = true ↔ ∀ event, c.events event = false := by
  constructor
  · intro h event
    simp only [isNone, Bool.and_eq_true, Bool.not_eq_true'] at h
    cases event
    · exact h.1
    · exact h.2
  · intro h
    simp [isNone, h]

end FdContext

namespace IOManager

/-- The number of bits that are set in the contexts. -/
def eventBits (s : IOManager) : ℕ :=
  (s.contexts.map FdContext.bits).sum

/-- The counter is right up to the width of its type, every registration is scheduled
at most once and with its own target, and `triggerEvent` has not failed. -/
structure Booked (s : IOManager) : Prop where
  counted : s.pendingEventCnt = s.eventBits % 2 ^ 64
  once : (s.scheduled.map Ticket.number).Nodup
  genuine : ∀ t ∈ s.scheduled, s.registered[t.number]? = some t.content
  quiet : s.panic ≠ some .notRegistered

/-- All the events that were reported for the context are still registered, or none of
those that are taken to have occurred is. -/
def UpToDate (s : IOManager) (e : EpollEvent) : Prop :=
  ∀ c, s.contexts[e.ptr]? = some c →
    (∀ event, e.events event → c.events event) ∨
      ∀ event, realEvents c e event → ¬ c.events event

/-- No entry of `epoll_wait` is processed after a part of its events was taken away. -/
def Undisturbed (s : IOManager) : Action → Prop
  | .process thread true => s.panic = none →
      ∀ e rest, s.threads thread = .processing (e :: rest) → s.UpToDate e
  | _ => True

/-! ## Places -/

/-- The target that is registered for the event in the context. -/
def slots (s : IOManager) (i : ℕ × Event) : Option (Ticket EventContext) :=
  s.contexts[i.1]?.bind fun c ↦ c.context i.2

theorem sum_bits_set {contexts : List FdContext} {ptr : ℕ} {c : FdContext}
    (h : contexts[ptr]? = some c) (c' : FdContext) :
    ((contexts.set ptr c').map FdContext.bits).sum + c.bits =
      (contexts.map FdContext.bits).sum + c'.bits := by
  induction contexts generalizing ptr with
  | nil => cases h
  | cons first contexts ih =>
      cases ptr with
      | zero =>
          cases h
          simp only [List.set_cons_zero, List.map_cons, List.sum_cons]
          omega
      | succ ptr =>
          have := ih h
          simp only [List.set_cons_succ, List.map_cons, List.sum_cons]
          omega

/-- The contexts, the counter and the queue agree. -/
structure Sound (s : IOManager) : Prop where
  consistent : ∀ (ptr : ℕ) (c : FdContext), s.contexts[ptr]? = some c → ∀ event,
    c.events event = (c.context event).isSome
  counted : s.pendingEventCnt = s.eventBits % 2 ^ 64
  tickets : Tickets.Sound s.slots s.registered s.scheduled

/-- Nothing but the contexts, the counter and the queue is different. -/
structure Frame (s s' : IOManager) : Prop where
  length : s'.contexts.length = s.contexts.length
  fdContexts : s'.fdContexts = s.fdContexts
  threads : s'.threads = s.threads
  panic : s'.panic = s.panic

theorem Frame.refl (s : IOManager) : Frame s s := ⟨rfl, rfl, rfl, rfl⟩

theorem Frame.trans {s s' s'' : IOManager} (h : Frame s s') (h' : Frame s' s'') :
    Frame s s'' :=
  ⟨h'.length.trans h.length, h'.fdContexts.trans h.fdContexts, h'.threads.trans h.threads,
    h'.panic.trans h.panic⟩

/-- The place of one event gets a new content. -/
theorem slots_assign {s s' : IOManager} {ptr : ℕ} {c : FdContext} {event : Event}
    {target : Option (Ticket EventContext)} (hc : s.contexts[ptr]? = some c)
    (hs' : s'.contexts = s.contexts.set ptr (c.assign event target)) :
    s'.slots = Function.update s.slots (ptr, event) target := by
  funext ⟨q, other⟩
  obtain ⟨hlt, -⟩ := List.getElem?_eq_some_iff.mp hc
  unfold slots
  rw [hs']
  by_cases hq : q = ptr
  · subst hq
    rw [List.getElem?_set_self hlt]
    by_cases he : other = event
    · subst he
      simp
    · have hne : (q, other) ≠ (q, event) := fun heq ↦ he (congrArg Prod.snd heq)
      rw [Function.update_of_ne hne, hc]
      simp [Function.update_of_ne he]
  · have hne : (q, other) ≠ (ptr, event) := fun heq ↦ hq (congrArg Prod.fst heq)
    rw [Function.update_of_ne hne, List.getElem?_set_ne (Ne.symm hq)]

theorem eventBits_assign {s s' : IOManager} {ptr : ℕ} {c : FdContext} {event : Event}
    {target : Option (Ticket EventContext)} (hc : s.contexts[ptr]? = some c)
    (hs' : s'.contexts = s.contexts.set ptr (c.assign event target)) :
    s'.eventBits + (c.events event).toNat = s.eventBits + target.isSome.toNat := by
  have hsum := sum_bits_set hc (c.assign event target)
  have hbits := c.bits_assign event target
  unfold eventBits
  rw [hs']
  omega

theorem consistent_assign {s s' : IOManager} {ptr : ℕ} {c : FdContext} {event : Event}
    {target : Option (Ticket EventContext)} (h : s.Sound) (hc : s.contexts[ptr]? = some c)
    (hs' : s'.contexts = s.contexts.set ptr (c.assign event target)) :
    ∀ (q : ℕ) (d : FdContext), s'.contexts[q]? = some d →
      ∀ other, d.events other = (d.context other).isSome := by
  intro q d hd other
  obtain ⟨hlt, -⟩ := List.getElem?_eq_some_iff.mp hc
  rw [hs'] at hd
  by_cases hq : q = ptr
  · subst hq
    rw [List.getElem?_set_self hlt, Option.some.injEq] at hd
    subst hd
    by_cases he : other = event
    · subst he
      simp
    · simpa [Function.update_of_ne he] using h.consistent q c hc other
  · rw [List.getElem?_set_ne (Ne.symm hq)] at hd
    exact h.consistent q d hd other

theorem decrement_eq {n m k : ℕ} (hn : n = k % 2 ^ 64) (hk : m + 1 = k) :
    decrement n = m % 2 ^ 64 := by
  unfold decrement
  omega

theorem increment_eq {n m k : ℕ} (hn : n = k % 2 ^ 64) (hk : m = k + 1) :
    increment n = m % 2 ^ 64 := by
  unfold increment
  omega

section Calls

variable {s s' : IOManager} {ptr : ℕ} {c : FdContext} {event : Event}

/-- An event is taken out, and its target is scheduled or not. -/
theorem Sound.take (h : s.Sound) (hc : s.contexts[ptr]? = some c) (hevent : c.events event = true)
    (hcontexts : s'.contexts = s.contexts.set ptr (c.assign event none))
    (hcount : s'.pendingEventCnt = decrement s.pendingEventCnt)
    (htickets : Tickets.Sound (Function.update s.slots (ptr, event) none) s'.registered
      s'.scheduled) : s'.Sound where
  consistent := consistent_assign h hc hcontexts
  counted := by
    have hbits := eventBits_assign hc hcontexts
    rw [hevent] at hbits
    rw [hcount]
    exact decrement_eq h.counted hbits
  tickets := by
    rw [slots_assign hc hcontexts]
    exact htickets

/-- An event is registered. -/
theorem Sound.put (h : s.Sound) (hc : s.contexts[ptr]? = some c) (hevent : c.events event = false)
    {target : EventContext}
    (hcontexts : s'.contexts =
      s.contexts.set ptr (c.assign event (some ⟨s.registered.length, target⟩)))
    (hcount : s'.pendingEventCnt = increment s.pendingEventCnt)
    (hregistered : s'.registered = s.registered ++ [target])
    (hscheduled : s'.scheduled = s.scheduled) : s'.Sound where
  consistent := consistent_assign h hc hcontexts
  counted := by
    have hbits := eventBits_assign hc hcontexts
    rw [hevent] at hbits
    rw [hcount]
    exact increment_eq h.counted hbits
  tickets := by
    rw [slots_assign hc hcontexts, hregistered, hscheduled]
    exact h.tickets.issue _ _

/-! ## Calls under the lock -/

theorem trigger_of_not (hc : s.contexts[ptr]? = some c) (hevent : c.events event = false) :
    s.trigger ptr event = .error .notRegistered := by
  simp only [trigger, hc, FdContext.triggerEvent, hevent]
  rfl

theorem Sound.trigger (h : s.Sound) (hc : s.contexts[ptr]? = some c)
    (hevent : c.events event = true) :
    ∃ s', s.trigger ptr event = .ok s' ∧ s'.Sound ∧ s.Frame s' ∧
      s'.contexts = s.contexts.set ptr (c.assign event none) := by
  have hsome := h.consistent ptr c hc event
  rw [hevent, eq_comm, Option.isSome_iff_exists] at hsome
  obtain ⟨target, htarget⟩ := hsome
  have hslot : s.slots (ptr, event) = some target := by
    simp only [slots, hc, Option.bind_some]
    exact htarget
  have heq : s.trigger ptr event = .ok { s with
      contexts := s.contexts.set ptr (c.assign event none)
      pendingEventCnt := decrement s.pendingEventCnt
      scheduled := s.scheduled ++ [target] } := by
    simp only [IOManager.trigger, hc, FdContext.triggerEvent, hevent, htarget, if_true]
  exact ⟨_, heq, h.take hc hevent rfl rfl (h.tickets.redeem hslot),
    ⟨List.length_set, rfl, rfl, rfl⟩, rfl⟩

theorem Sound.addEvent (h : s.Sound) (hc : s.contexts[ptr]? = some c) (event : Event)
    (target : EventContext) (ok : Bool) :
    s.addEvent ptr event target ok = .error .addEventError ∨
      ∃ r s', s.addEvent ptr event target ok = .ok (r, s') ∧ s'.Sound ∧ s.Frame s' := by
  cases hevent : c.events event with
  | true => exact .inl (by simp only [IOManager.addEvent, hc, hevent, if_true])
  | false =>
      right
      cases ok with
      | false =>
          have heq : s.addEvent ptr event target false = .ok (-1, s) := by
            simp only [IOManager.addEvent, hc, hevent]
            rfl
          exact ⟨_, _, heq, h, .refl s⟩
      | true =>
          have hnone := h.consistent ptr c hc event
          rw [hevent] at hnone
          have heq : s.addEvent ptr event target true = .ok (0, { s with
              contexts := s.contexts.set ptr (c.assign event (some ⟨s.registered.length, target⟩))
              pendingEventCnt := increment s.pendingEventCnt
              registered := s.registered ++ [target] }) := by
            simp only [IOManager.addEvent, hc, hevent, ← hnone]
            rfl
          exact ⟨_, _, heq, h.put hc hevent rfl rfl rfl rfl, ⟨List.length_set, rfl, rfl, rfl⟩⟩

theorem Sound.delEvent (h : s.Sound) (hc : s.contexts[ptr]? = some c) (event : Event)
    (ok : Bool) :
    ∃ r s', s.delEvent ptr event ok = .ok (r, s') ∧ s'.Sound ∧ s.Frame s' := by
  by_cases hgoes : c.events event = true ∧ ok = true
  · obtain ⟨hevent, rfl⟩ := hgoes
    have heq : s.delEvent ptr event true = .ok (true, { s with
        contexts := s.contexts.set ptr (c.assign event none)
        pendingEventCnt := decrement s.pendingEventCnt }) := by
      simp only [IOManager.delEvent, hc, hevent]
      rfl
    exact ⟨_, _, heq, h.take hc hevent rfl rfl (h.tickets.void _),
      ⟨List.length_set, rfl, rfl, rfl⟩⟩
  · have heq : s.delEvent ptr event ok = .ok (false, s) := by
      simp only [IOManager.delEvent, hc]
      split
      · rfl
      · split
        · rfl
        · simp_all
    exact ⟨_, _, heq, h, .refl s⟩

theorem Sound.cancelEvent (h : s.Sound) (hc : s.contexts[ptr]? = some c) (event : Event)
    (ok : Bool) :
    ∃ r s', s.cancelEvent ptr event ok = .ok (r, s') ∧ s'.Sound ∧ s.Frame s' := by
  by_cases hgoes : c.events event = true ∧ ok = true
  · obtain ⟨hevent, rfl⟩ := hgoes
    obtain ⟨s', htrigger, hsound, hframe, -⟩ := h.trigger hc hevent
    have heq : s.cancelEvent ptr event true = .ok (true, s') := by
      simp only [IOManager.cancelEvent, hc, hevent, htrigger]
      rfl
    exact ⟨_, _, heq, hsound, hframe⟩
  · have heq : s.cancelEvent ptr event ok = .ok (false, s) := by
      simp only [IOManager.cancelEvent, hc]
      split
      · rfl
      · split
        · rfl
        · simp_all
    exact ⟨_, _, heq, h, .refl s⟩

/-- One event is triggered if it is wanted. -/
theorem Sound.triggerIf (h : s.Sound) (hc : s.contexts[ptr]? = some c) {wanted : Bool}
    (hwanted : wanted = true → c.events event = true) :
    ∃ s' c', s.triggerIf ptr event wanted = .ok s' ∧ s'.Sound ∧ s.Frame s' ∧
      s'.contexts[ptr]? = some c' ∧ c'.events event = (c.events event && !wanted) ∧
      ∀ other, other ≠ event → c'.events other = c.events other := by
  cases wanted with
  | false => exact ⟨s, c, rfl, h, .refl s, hc, (Bool.and_true _).symm, fun _ _ ↦ rfl⟩
  | true =>
      obtain ⟨s', htrigger, hsound, hframe, hcontexts⟩ := h.trigger hc (hwanted rfl)
      obtain ⟨hlt, -⟩ := List.getElem?_eq_some_iff.mp hc
      refine ⟨s', c.assign event none, htrigger, hsound, hframe, ?_, ?_, ?_⟩
      · rw [hcontexts, List.getElem?_set_self hlt]
      · simp
      · intro other hne
        simp [Function.update_of_ne hne]

theorem Sound.triggerAll (h : s.Sound) (hc : s.contexts[ptr]? = some c) {wanted : Event → Bool}
    (hwanted : ∀ event, wanted event = true → c.events event = true) :
    ∃ s' c', s.triggerAll ptr wanted = .ok s' ∧ s'.Sound ∧ s.Frame s' ∧
      s'.contexts[ptr]? = some c' ∧
        ∀ event, c'.events event = (c.events event && !wanted event) := by
  obtain ⟨s₁, c₁, hread, hsound, hframe, hc₁, hr₁, hw₁⟩ := h.triggerIf hc (hwanted .read)
  have hstill : wanted .write = true → c₁.events .write = true := by
    rw [hw₁ .write Event.noConfusion]
    exact hwanted .write
  obtain ⟨s₂, c₂, hwrite, hsound₂, hframe₂, hc₂, hw₂, hr₂⟩ := hsound.triggerIf hc₁ hstill
  refine ⟨s₂, c₂, ?_, hsound₂, hframe.trans hframe₂, hc₂, ?_⟩
  · unfold IOManager.triggerAll
    rw [hread]
    exact hwrite
  · intro event
    cases event with
    | read => rw [hr₂ .read Event.noConfusion, hr₁]
    | write => rw [hw₂, hw₁ .write Event.noConfusion]

/-- The first event that is wanted and not registered ends the process. -/
theorem triggerAll_of_not (h : s.Sound) (hc : s.contexts[ptr]? = some c) {wanted : Event → Bool}
    (hwanted : wanted event = true) (hevent : c.events event = false) :
    s.triggerAll ptr wanted = .error .notRegistered := by
  unfold IOManager.triggerAll
  by_cases hread : wanted .read = true → c.events .read = true
  · obtain ⟨s₁, c₁, heq, hsound, hframe, hc₁, -, hw₁⟩ := h.triggerIf hc hread
    rw [heq]
    cases event with
    | read => exact absurd (hread hwanted) (by rw [hevent]; exact Bool.false_ne_true)
    | write =>
        have hnot : c₁.events .write = false := (hw₁ .write Event.noConfusion).trans hevent
        rw [hwanted]
        exact trigger_of_not hc₁ hnot
  · rw [Classical.not_imp, Bool.not_eq_true] at hread
    have htrigger : s.triggerIf ptr .read (wanted .read) = .error .notRegistered := by
      rw [hread.1]
      exact trigger_of_not hc hread.2
    rw [htrigger]
    rfl

theorem Sound.cancelAll (h : s.Sound) (hc : s.contexts[ptr]? = some c) (ok : Bool) :
    ∃ r s', s.cancelAll ptr ok = .ok (r, s') ∧ s'.Sound ∧ s.Frame s' := by
  by_cases hgoes : c.isNone = false ∧ ok = true
  · obtain ⟨hsome, rfl⟩ := hgoes
    obtain ⟨s', c', htrigger, hsound, hframe, hc', hleft⟩ := h.triggerAll hc fun _ h ↦ h
    have hclear : c'.isNone = true := c'.isNone_iff.mpr fun event ↦ by simp [hleft event]
    have heq : s.cancelAll ptr true = .ok (true, s') := by
      simp only [IOManager.cancelAll, hc, hsome, htrigger]
      simp [bind, Except.bind, hc', hclear]
    exact ⟨_, _, heq, hsound, hframe⟩
  · have heq : s.cancelAll ptr ok = .ok (false, s) := by
      simp only [IOManager.cancelAll, hc]
      split
      · rfl
      · split
        · rfl
        · simp_all
    exact ⟨_, _, heq, h, .refl s⟩

theorem Sound.execute (h : s.Sound) (hc : s.contexts[ptr]? = some c) (ok : Bool)
    (request : Request) :
    s.execute ptr ok request = .error .addEventError ∨
      ∃ s', s.execute ptr ok request = .ok s' ∧ s'.Sound ∧ s.Frame s' := by
  cases request with
  | addEvent fd event target =>
      rcases h.addEvent hc event target ok with herror | ⟨r, s', heq, hs'⟩
      · exact .inl (by simp only [IOManager.execute, herror, Except.map])
      · exact .inr ⟨s', by simp only [IOManager.execute, heq, Except.map], hs'⟩
  | delEvent fd event =>
      obtain ⟨r, s', heq, hs'⟩ := h.delEvent hc event ok
      exact .inr ⟨s', by simp only [IOManager.execute, heq, Except.map], hs'⟩
  | cancelEvent fd event =>
      obtain ⟨r, s', heq, hs'⟩ := h.cancelEvent hc event ok
      exact .inr ⟨s', by simp only [IOManager.execute, heq, Except.map], hs'⟩
  | cancelAll fd =>
      obtain ⟨r, s', heq, hs'⟩ := h.cancelAll hc ok
      exact .inr ⟨s', by simp only [IOManager.execute, heq, Except.map], hs'⟩

end Calls

/-! ## The result of `epoll_wait` -/

section Process

variable {s : IOManager} {e : EpollEvent} {c : FdContext}

theorem upToDate_iff (hc : s.contexts[e.ptr]? = some c) :
    s.UpToDate e ↔ (∀ event, e.events event → c.events event) ∨
      ∀ event, realEvents c e event → ¬ c.events event := by
  constructor
  · exact fun h ↦ h c hc
  · intro h c' hc'
    rw [hc, Option.some.injEq] at hc'
    rwa [← hc']

/-- No event is triggered if none of those that have occurred is registered. -/
theorem processEvent_skip (hc : s.contexts[e.ptr]? = some c) (ok : Bool)
    (hnone : ∀ event, realEvents c e event → ¬ c.events event) :
    s.processEvent e ok = .ok s := by
  have hskip : ∀ event, (c.events event && realEvents c e event) = false := by
    intro event
    cases hreal : realEvents c e event with
    | false => exact Bool.and_false _
    | true => simp [Bool.eq_false_iff.mpr (hnone event hreal)]
  simp only [processEvent, hc, hskip, Bool.not_false, Bool.and_self, if_true]

theorem processEvent_trigger (hc : s.contexts[e.ptr]? = some c) {event : Event}
    (hevent : c.events event = true) (hreal : realEvents c e event = true) (ok : Bool) :
    s.processEvent e ok = if ok then s.triggerAll e.ptr (realEvents c e) else .ok s := by
  have hgoes : (!(c.events .read && realEvents c e .read) &&
      !(c.events .write && realEvents c e .write)) = false := by
    cases event with
    | read => simp [hevent, hreal]
    | write => simp [hevent, hreal]
  simp only [processEvent, hc, hgoes]
  cases ok with
  | false => rfl
  | true => rfl

theorem Sound.processEvent (h : s.Sound) (hc : s.contexts[e.ptr]? = some c) (ok : Bool)
    (hup : ok = true → s.UpToDate e) :
    ∃ s', s.processEvent e ok = .ok s' ∧ s'.Sound ∧ s.Frame s' := by
  by_cases hnone : ∀ event, realEvents c e event → ¬ c.events event
  · exact ⟨s, processEvent_skip hc ok hnone, h, .refl s⟩
  · push Not at hnone
    obtain ⟨event, hreal, hevent⟩ := hnone
    rw [processEvent_trigger hc hevent hreal]
    cases ok with
    | false => exact ⟨s, rfl, h, .refl s⟩
    | true =>
        have hall : ∀ event, e.events event → c.events event := by
          rcases (upToDate_iff hc).mp (hup rfl) with hall | hnone
          · exact hall
          · exact absurd hevent (hnone event hreal)
        have hwanted : ∀ event, realEvents c e event = true → c.events event = true := by
          intro other hother
          rcases (Bool.or_eq_true _ _).mp hother with hrep | hhup
          · exact hall other hrep
          · exact ((Bool.and_eq_true _ _).mp hhup).2
        obtain ⟨s', -, heq, hsound, hframe, -⟩ := h.triggerAll hc hwanted
        exact ⟨s', heq, hsound, hframe⟩

theorem processEvent_of_not (h : s.Sound) (hc : s.contexts[e.ptr]? = some c)
    (hnot : ¬ s.UpToDate e) : s.processEvent e true = .error .notRegistered := by
  rw [upToDate_iff hc, not_or] at hnot
  push Not at hnot
  obtain ⟨⟨gone, hreported, hgone⟩, event, hreal, hevent⟩ := hnot
  rw [processEvent_trigger hc hevent hreal]
  refine triggerAll_of_not h hc ?_ (Bool.eq_false_iff.mpr hgone)
  exact (Bool.or_eq_true _ _).mpr (.inl hreported)

end Process

/-! ## Pointers -/

/-- The contexts that a thread holds are among those that were created. -/
def Known (n : ℕ) : Phase → Prop
  | .free => True
  | .resizing request => 32 ≤ request.fd
  | .found ptr _ => ptr < n
  | .processing events => ∀ e ∈ events, e.ptr < n

theorem Known.mono {n m : ℕ} (hle : n ≤ m) {phase : Phase} (h : Known n phase) :
    Known m phase := by
  cases phase with
  | free => trivial
  | resizing request => exact h
  | found ptr request => exact Nat.lt_of_lt_of_le h hle
  | processing events => exact fun e he ↦ Nat.lt_of_lt_of_le (h e he) hle

structure Linked (s : IOManager) : Prop where
  vector : ∀ ptr ∈ s.fdContexts, ptr < s.contexts.length
  long : 32 ≤ s.fdContexts.length
  phases : ∀ thread, Known s.contexts.length (s.threads thread)

section Threads

variable {s s' : IOManager}

theorem Linked.of_frame (h : s.Linked) (hframe : s.Frame s') : s'.Linked where
  vector := by
    rw [hframe.fdContexts, hframe.length]
    exact h.vector
  long := by
    rw [hframe.fdContexts]
    exact h.long
  phases := by
    rw [hframe.threads, hframe.length]
    exact h.phases

theorem Linked.goto (h : s.Linked) (thread : ℕ) {phase : Phase}
    (hphase : Known s.contexts.length phase) : (s.goto thread phase).Linked where
  vector := h.vector
  long := h.long
  phases := by
    intro other
    by_cases ht : other = thread
    · subst ht
      simpa [IOManager.goto] using hphase
    · simpa [IOManager.goto, Function.update_of_ne ht] using h.phases other

theorem Sound.goto (h : s.Sound) (thread : ℕ) (phase : Phase) : (s.goto thread phase).Sound :=
  ⟨h.consistent, h.counted, h.tickets⟩

theorem Linked.lookup (h : s.Linked) (request : Request) :
    Known s.contexts.length (s.lookup request) := by
  unfold IOManager.lookup
  cases hptr : s.fdContexts[request.fd]? with
  | some ptr => exact h.vector ptr (List.mem_of_getElem? hptr)
  | none =>
      have hle := List.getElem?_eq_none_iff.mp hptr
      cases request with
      | addEvent fd event target => exact Nat.le_trans h.long hle
      | delEvent fd event => trivial
      | cancelEvent fd event => trivial
      | cancelAll fd => trivial

theorem exists_context (ptr : ℕ) (h : ptr < s.contexts.length) : ∃ c, s.contexts[ptr]? = some c :=
  ⟨_, List.getElem?_eq_getElem h⟩

end Threads

section Resize

variable (s : IOManager) (size : ℕ)

theorem contextResize_contexts : ∃ fds : List ℕ,
    (s.contextResize size).contexts = s.contexts ++ fds.map FdContext.create ∧
      (s.contextResize size).fdContexts =
        s.fdContexts.take size ++ List.range' s.contexts.length fds.length ∧
      fds.length = size - (s.fdContexts.take size).length :=
  ⟨_, rfl, rfl, List.length_range'⟩

theorem contextResize_slots : (s.contextResize size).slots = s.slots := by
  obtain ⟨fds, hcontexts, -⟩ := contextResize_contexts s size
  funext ⟨ptr, event⟩
  unfold slots
  rw [hcontexts]
  by_cases hptr : ptr < s.contexts.length
  · rw [List.getElem?_append_left hptr]
  · have hle : s.contexts.length ≤ ptr := Nat.le_of_not_lt hptr
    have hnone : s.contexts[ptr]? = none := List.getElem?_eq_none hle
    rw [List.getElem?_append_right hle, hnone, List.getElem?_map]
    cases fds[ptr - s.contexts.length]? with
    | none => rfl
    | some fd => rfl

theorem contextResize_eventBits : (s.contextResize size).eventBits = s.eventBits := by
  obtain ⟨fds, hcontexts, -⟩ := contextResize_contexts s size
  have hfresh : ((fds.map FdContext.create).map FdContext.bits).sum = 0 := by
    clear hcontexts
    induction fds with
    | nil => rfl
    | cons fd fds ih =>
        rw [List.map_cons, List.map_cons, List.sum_cons, ih]
        rfl
  unfold eventBits
  rw [hcontexts, List.map_append, List.sum_append, hfresh, Nat.add_zero]

variable {s}

theorem Sound.contextResize (h : s.Sound) : (s.contextResize size).Sound where
  consistent := by
    obtain ⟨fds, hcontexts, -⟩ := contextResize_contexts s size
    intro ptr c hc event
    rw [hcontexts] at hc
    rcases List.mem_append.mp (List.mem_of_getElem? hc) with hold | hnew
    · obtain ⟨q, hq⟩ := List.mem_iff_getElem?.mp hold
      exact h.consistent q c hq event
    · obtain ⟨fd, -, rfl⟩ := List.mem_map.mp hnew
      rfl
  counted := by
    rw [contextResize_eventBits]
    exact h.counted
  tickets := by
    rw [contextResize_slots]
    exact h.tickets

theorem Linked.contextResize (h : s.Linked) (hsize : 32 ≤ size) :
    (s.contextResize size).Linked ∧ (s.contextResize size).fdContexts.length = size := by
  obtain ⟨fds, hcontexts, hvector, hfds⟩ := contextResize_contexts s size
  have hlength : (s.contextResize size).contexts.length = s.contexts.length + fds.length := by
    rw [hcontexts, List.length_append, List.length_map]
  have hsized : (s.contextResize size).fdContexts.length = size := by
    rw [hvector, List.length_append, List.length_range', hfds]
    have := List.length_take_le size s.fdContexts
    omega
  refine ⟨⟨?_, ?_, ?_⟩, hsized⟩
  · intro ptr hptr
    rw [hvector] at hptr
    rw [hlength]
    rcases List.mem_append.mp hptr with hold | hnew
    · have := h.vector ptr (List.mem_of_mem_take hold)
      omega
    · have := List.mem_range'_1.mp hnew
      omega
  · rw [hsized]
    exact hsize
  · intro thread
    rw [hlength]
    exact (h.phases thread).mono (Nat.le_add_right _ _)

end Resize

/-! ## Runs -/

/-- What holds as long as nothing out of date is processed. -/
structure Orderly (s : IOManager) : Prop where
  sound : s.Sound
  linked : s.Linked
  panic : s.panic = none ∨ s.panic = some .addEventError

theorem Orderly.booked {s : IOManager} (h : s.Orderly) : s.Booked where
  counted := h.sound.counted
  once := h.sound.tickets.once
  genuine := h.sound.tickets.redeemed_genuine
  quiet := by
    intro hpanic
    rcases h.panic with hnone | herror
    · rw [hnone] at hpanic
      cases hpanic
    · rw [herror] at hpanic
      cases hpanic

theorem Orderly.initial : initial.Orderly where
  sound := by
    refine Sound.contextResize 32 ⟨?_, rfl, Tickets.sound_empty⟩
    intro ptr c hc
    exact absurd hc (Option.some_ne_none c).symm
  linked := ⟨by decide, by decide, fun _ ↦ trivial⟩
  panic := .inl rfl

section Steps

variable {s s' : IOManager}

theorem Orderly.goto (h : s.Orderly) (hnone : s.panic = none) (hsound : s'.Sound)
    (hframe : s.Frame s') (thread : ℕ) {phase : Phase} (hphase : Known s.contexts.length phase) :
    (s'.goto thread phase).Orderly where
  sound := hsound.goto thread phase
  linked := (h.linked.of_frame hframe).goto thread (by rw [hframe.length]; exact hphase)
  panic := .inl (hframe.panic.trans hnone)

theorem Orderly.call (h : s.Orderly) (hnone : s.panic = none) (thread : ℕ) (request : Request) :
    (s.advance (.call thread request)).Orderly := by
  unfold advance
  dsimp only
  split
  · exact h.goto hnone h.sound (.refl s) thread (h.linked.lookup request)
  · exact h

theorem Orderly.resize (h : s.Orderly) (hnone : s.panic = none) (thread : ℕ) :
    (s.advance (.resize thread)).Orderly := by
  unfold advance
  dsimp only
  split
  · rename_i request hphase
    have hfd : 32 ≤ request.fd := by
      have := h.linked.phases thread
      rwa [hphase] at this
    obtain ⟨hlinked, hsized⟩ := h.linked.contextResize (request.fd * 3 / 2) (by omega)
    have hsound := h.sound.contextResize (request.fd * 3 / 2)
    cases hptr : (s.contextResize (request.fd * 3 / 2)).fdContexts[request.fd]? with
    | none =>
        have := List.getElem?_eq_none_iff.mp hptr
        omega
    | some ptr =>
        have hlt := hlinked.vector ptr (List.mem_of_getElem? hptr)
        exact ⟨hsound.goto thread _, hlinked.goto thread hlt, .inl hnone⟩
  · exact h

theorem Orderly.lock (h : s.Orderly) (hnone : s.panic = none) (thread : ℕ) (ok : Bool) :
    (s.advance (.lock thread ok)).Orderly := by
  unfold advance
  dsimp only
  split
  · rename_i ptr request hphase
    have hlt : ptr < s.contexts.length := by
      have := h.linked.phases thread
      rwa [hphase] at this
    obtain ⟨c, hc⟩ := exists_context ptr hlt
    rcases h.sound.execute hc ok request with herror | ⟨s', heq, hsound, hframe⟩
    · rw [herror]
      exact ⟨⟨h.sound.consistent, h.sound.counted, h.sound.tickets⟩,
        ⟨h.linked.vector, h.linked.long, h.linked.phases⟩, .inr rfl⟩
    · rw [heq]
      exact h.goto hnone hsound hframe thread trivial
  · exact h

theorem Orderly.epollWait (h : s.Orderly) (hnone : s.panic = none) (thread : ℕ)
    (events : List EpollEvent) : (s.advance (.epollWait thread events)).Orderly := by
  unfold advance
  dsimp only
  split
  · split
    · rename_i hreported
      refine h.goto hnone h.sound (.refl s) thread fun e he ↦ ?_
      have hreport := List.all_eq_true.mp hreported.2 e he
      unfold reported at hreport
      cases hc : s.contexts[e.ptr]? with
      | none =>
          rw [hc] at hreport
          cases hreport
      | some c => exact (List.getElem?_eq_some_iff.mp hc).1
    · exact h
  · exact h

theorem Orderly.process (h : s.Orderly) (hnone : s.panic = none) (thread : ℕ) (ok : Bool)
    (hup : s.Undisturbed (.process thread ok)) : (s.advance (.process thread ok)).Orderly := by
  unfold advance
  dsimp only
  split
  · rename_i e rest hphase
    have hknown := h.linked.phases thread
    rw [hphase] at hknown
    obtain ⟨c, hc⟩ := exists_context e.ptr (hknown e List.mem_cons_self)
    have hcurrent : ok = true → s.UpToDate e := by
      rintro rfl
      exact hup hnone e rest hphase
    obtain ⟨s', heq, hsound, hframe⟩ := h.sound.processEvent hc ok hcurrent
    rw [heq]
    exact h.goto hnone hsound hframe thread fun e he ↦ hknown e (List.mem_cons_of_mem _ he)
  · exact h.goto hnone h.sound (.refl s) thread trivial
  · exact h

theorem Orderly.step (h : s.Orderly) (a : Action) (ha : s.Undisturbed a) :
    (s.step a).Orderly := by
  unfold IOManager.step
  cases hpanic : s.panic with
  | some p => exact h
  | none =>
      cases a with
      | call thread request => exact h.call hpanic thread request
      | resize thread => exact h.resize hpanic thread
      | lock thread ok => exact h.lock hpanic thread ok
      | epollWait thread events => exact h.epollWait hpanic thread events
      | process thread ok => exact h.process hpanic thread ok ha

/-- What is out of date ends the process when it is processed. -/
theorem Orderly.step_of_disturbed (h : s.Orderly) {a : Action} (hnot : ¬ s.Undisturbed a) :
    s.step a = { s with panic := some .notRegistered } := by
  cases a with
  | call thread request => exact absurd trivial hnot
  | resize thread => exact absurd trivial hnot
  | lock thread ok => exact absurd trivial hnot
  | epollWait thread events => exact absurd trivial hnot
  | process thread ok =>
      cases ok with
      | false => exact absurd trivial hnot
      | true =>
          simp only [Undisturbed] at hnot
          push Not at hnot
          obtain ⟨hnone, e, rest, hphase, hlate⟩ := hnot
          have hknown := h.linked.phases thread
          rw [hphase] at hknown
          obtain ⟨c, hc⟩ := exists_context e.ptr (hknown e List.mem_cons_self)
          simp only [IOManager.step, hnone, advance, hphase, processEvent_of_not h.sound hc hlate]
          rfl

theorem Orderly.undisturbed (h : s.Orderly) {a : Action} (hquiet : (s.step a).Booked) :
    s.Undisturbed a := by
  by_contra hnot
  apply hquiet.quiet
  rw [h.step_of_disturbed hnot]

end Steps

/-- The bookkeeping is right along a run exactly if no entry of `epoll_wait` is
processed after some of its events were taken away. -/
theorem booked_iff_undisturbed (as : List Action) :
    (∀ bs, bs <+: as → (Runs.run step initial bs).Booked) ↔
      Runs.Along step Undisturbed initial as := by
  refine Runs.property_iff_along (P := fun _ s ↦ s.Orderly) (Q := fun _ s ↦ s.Booked) step
    Orderly.initial ?_ ?_ ?_ as
  · exact fun _ a h ha ↦ h.step a ha
  · exact fun _ h ↦ h.booked
  · exact fun _ a h hquiet ↦ h.undisturbed hquiet

/-- A descriptor is ready for both of its events; then one of them is deleted. -/
def deletedInBetween : List Action :=
  [.call 0 (.addEvent 5 .read ⟨0, .cb 0⟩), .lock 0 true,
    .call 0 (.addEvent 5 .write ⟨0, .cb 1⟩), .lock 0 true,
    .epollWait 1 [⟨5, fun _ ↦ true, false⟩],
    .call 0 (.delEvent 5 .read), .lock 0 true,
    .process 1 true]

theorem not_booked_deletedInBetween : ¬ (Runs.run step initial deletedInBetween).Booked := by
  intro h
  apply h.quiet
  decide +kernel

end IOManager

end HttpRaftKv.Fiber
