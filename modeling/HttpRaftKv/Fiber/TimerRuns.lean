import HttpRaftKv.Fiber.Expiry

/-!
# Timers that are in use

Over every run of calls with a clock that does not go back, the timers that have a callback
are those in the set, and a timer that has been cancelled or has expired once for all never
gives its callback again.  If the clock goes back, which it seems to do when several threads
read it before one of them has the lock, all timers may expire at once.
-/

namespace HttpRaftKv.Fiber

variable {κ : Type}

namespace TimerManager

variable {s : TimerManager κ} {now : ℕ}

/-- No sum that the call computes is greater than a number of 64 bits. -/
def InRange (s : TimerManager κ) (now : ℕ) : Call κ → Prop
  | .addTimer _ ms _ _ => now + ms < 2 ^ 64
  | .refresh i => (s.objects i).cb.isSome = true → now + (s.objects i).ms < 2 ^ 64
  | .reset i ms fromNow => (s.objects i).cb.isSome = true → s.since now i fromNow + ms < 2 ^ 64
  | .listExpiredCb _ =>
      ∀ i ∈ s.due now, (s.objects i).recurring = true → now + (s.objects i).ms < 2 ^ 64
  | .cancel _ | .getNextTimer => True

/-- Two timers that exist at the same time are at different addresses. -/
def Fresh (s : TimerManager κ) : Call κ → Prop
  | .addTimer address _ _ _ => ∀ i ∈ s.timers, (s.objects i).address ≠ address
  | _ => True

instance (s : TimerManager κ) (now : ℕ) : ∀ c, Decidable (s.InRange now c)
  | .addTimer _ ms _ _ => inferInstanceAs (Decidable (now + ms < 2 ^ 64))
  | .refresh i =>
      inferInstanceAs (Decidable ((s.objects i).cb.isSome = true → now + (s.objects i).ms < 2 ^ 64))
  | .reset i ms fromNow =>
      inferInstanceAs
        (Decidable ((s.objects i).cb.isSome = true → s.since now i fromNow + ms < 2 ^ 64))
  | .listExpiredCb _ =>
      inferInstanceAs (Decidable (∀ i ∈ s.due now,
        (s.objects i).recurring = true → now + (s.objects i).ms < 2 ^ 64))
  | .cancel _ | .getNextTimer => inferInstanceAs (Decidable True)

instance (s : TimerManager κ) : ∀ c, Decidable (s.Fresh c)
  | .addTimer address _ _ _ =>
      inferInstanceAs (Decidable (∀ i ∈ s.timers, (s.objects i).address ≠ address))
  | .cancel _ | .refresh _ | .reset _ _ _ | .getNextTimer | .listExpiredCb _ =>
      inferInstanceAs (Decidable True)

/-- The callback of the timer that the call adds. -/
def Call.given : Call κ → List (Option κ)
  | .addTimer _ _ cb _ => [cb]
  | _ => []

theorem Outside.call {cbs : List (Option κ)} (hcbs : cbs.length = s.created)
    (h : s.Outside (fun i ↦ cbs.getD i none) []) (hclock : s.previouseTime ≤ now) {c : Call κ}
    (hrange : s.InRange now c) (hfresh : s.Fresh c) :
    ∃ s', s.call now c = some s' ∧
      s'.Outside (fun i ↦ (cbs ++ c.given).getD i none) [] ∧
      s.Onward s' now c.given.length := by
  cases c with
  | addTimer address ms cb recurring =>
      refine ⟨_, rfl, h.addTimer (fun i hi ↦ ?_) ?_ hrange hfresh⟩
      · change (cbs ++ [cb]).getD i none = cbs.getD i none
        rw [List.getD_eq_getElem?_getD, List.getD_eq_getElem?_getD]
        rcases Nat.lt_or_gt_of_ne (hcbs ▸ hi) with hlt | hgt
        · rw [List.getElem?_append_left hlt]
        · rw [List.getElem?_eq_none (by simp; omega), List.getElem?_eq_none hgt.le]
      · change (cbs ++ [cb]).getD s.created none = cb
        rw [← hcbs, List.getD_eq_getElem?_getD, List.getElem?_concat_length, Option.getD_some]
  | cancel i =>
      obtain ⟨r, hr, houtside, honward, _⟩ := h.cancel now i
      refine ⟨r.2, congrArg (Option.map Prod.snd) hr, ?_, honward⟩
      simpa [Call.given] using houtside
  | refresh i =>
      obtain ⟨houtside, honward⟩ := h.refresh hrange
      exact ⟨_, rfl, by simpa [Call.given] using houtside, honward⟩
  | reset i ms fromNow =>
      obtain ⟨houtside, honward⟩ := h.reset hrange
      exact ⟨_, rfl, by simpa [Call.given] using houtside, honward⟩
  | getNextTimer =>
      obtain ⟨houtside, honward⟩ := h.getNextTimer now
      exact ⟨_, rfl, by simpa [Call.given] using houtside, honward⟩
  | listExpiredCb probe =>
      obtain ⟨_, houtside, honward⟩ := h.listExpiredCb hclock hrange probe
      exact ⟨_, rfl, by simpa [Call.given] using houtside, honward⟩

/-- The timers in the set are those that have a callback, each the one that it has been
added with; a timer that has been added with an empty one is in the set without. -/
structure Consistent (s : TimerManager κ) (cbs : List (Option κ)) : Prop where
  callbacks : ∀ i, (s.objects i).cb = if i ∈ s.timers then cbs.getD i none else none
  armed : ∀ i, (cbs.getD i none).isSome = true →
    ((s.objects i).cb.isSome = true ↔ i ∈ s.timers)
  ordered : s.timers.Pairwise s.Before

theorem Outside.consistent {cbs : List (Option κ)}
    (h : s.Outside (fun i ↦ cbs.getD i none) []) : s.Consistent cbs := by
  have hcallbacks : ∀ i, (s.objects i).cb = if i ∈ s.timers then cbs.getD i none else none := by
    intro i
    split_ifs with hi
    · exact h.kept i (live_nil.mpr hi)
    · exact h.gone i (mt live_nil.mp hi)
  refine ⟨hcallbacks, fun i hgiven ↦ ⟨h.mem_of_cb, fun hi ↦ ?_⟩, h.ordered⟩
  rw [hcallbacks i, if_pos hi]
  exact hgiven

end TimerManager

namespace TimerUse

open TimerManager Runs

/-- The callbacks with which timers have been added, first timer first. -/
def given (as : List (ℕ × Call κ)) : List (Option κ) :=
  as.flatMap fun a ↦ a.2.given

/-- The clock does not go back, nothing overflows, and a new timer is not where another one
is. -/
structure Promised (s : TimerUse κ) (a : ℕ × Call κ) : Prop where
  clock : s.clock ≤ a.1
  inRange : s.manager.InRange a.1 a.2
  fresh : s.manager.Fresh a.2

instance (s : TimerUse κ) (a : ℕ × Call κ) : Decidable (s.Promised a) :=
  decidable_of_iff (s.clock ≤ a.1 ∧ s.manager.InRange a.1 a.2 ∧ s.manager.Fresh a.2)
    ⟨fun h ↦ ⟨h.1, h.2.1, h.2.2⟩, fun h ↦ ⟨h.clock, h.inRange, h.fresh⟩⟩

/-- The call gives the callback of the timer. -/
def Returns (s : TimerUse κ) (a : ℕ × Call κ) (i : ℕ) : Prop :=
  ∃ probe, a.2 = .listExpiredCb probe ∧ i ∈ s.manager.due a.1

/-- The call cancels the timer, or the timer expires and does not recur. -/
def Ends (s : TimerUse κ) (a : ℕ × Call κ) (i : ℕ) : Prop :=
  (a.2 = .cancel i ∧ (s.manager.cancel i).map Prod.fst = some true) ∨
    s.Returns a i ∧ (s.manager.objects i).recurring = false

structure Sound (as : List (ℕ × Call κ)) (s : TimerUse κ) : Prop where
  undefined : s.undefined = false
  added : (given as).length = s.manager.created
  outside : s.manager.Outside (fun i ↦ (given as).getD i none) []
  clock : s.manager.previouseTime ≤ s.clock

variable {s : TimerUse κ} {as : List (ℕ × Call κ)} {a : ℕ × Call κ} {i : ℕ}

theorem sound_start (now : ℕ) : (start now : TimerUse κ).Sound [] where
  undefined := rfl
  added := rfl
  outside := outside_create now
  clock := Nat.le_refl now

theorem Sound.previouse_le (h : s.Sound as) (ha : s.Promised a) :
    s.manager.previouseTime ≤ a.1 :=
  h.clock.trans ha.clock

theorem Sound.step (h : s.Sound as) (ha : s.Promised a) :
    (s.step a).Sound (as ++ [a]) ∧
      s.manager.Onward (s.step a).manager a.1 a.2.given.length := by
  obtain ⟨manager, hcall, houtside, honward⟩ :=
    h.outside.call h.added (h.previouse_le ha) ha.inRange ha.fresh
  have hstep : s.step a = { s with manager := manager, clock := a.1 } := by
    rw [TimerUse.step, hcall]
  have hgiven : given (as ++ [a]) = given as ++ a.2.given := by simp [given]
  rw [hstep]
  refine ⟨⟨h.undefined, ?_, ?_, ?_⟩, honward⟩
  · rw [hgiven, List.length_append, h.added]
    exact honward.created.symm
  · rw [hgiven]
    exact houtside
  · change manager.previouseTime ≤ a.1
    rcases honward.previouseTime with hold | hnow
    · rw [hold]
      exact h.previouse_le ha
    · rw [hnow]

/-- A timer that exists and is out of the set. -/
def Gone (s : TimerUse κ) (i : ℕ) : Prop :=
  i < s.manager.created ∧ i ∉ s.manager.timers

theorem Sound.gone_step (h : s.Sound as) (ha : s.Promised a) (hi : s.Gone i) :
    (s.step a).Gone i := by
  have honward := (h.step ha).2
  refine ⟨?_, fun hmem ↦ ?_⟩
  · rw [honward.created]
    exact Nat.lt_add_right _ hi.1
  · exact (honward.timers i hmem).elim hi.2 fun heq ↦ hi.1.ne heq

theorem Sound.gone_of_ends (h : s.Sound as) (ha : s.Promised a) (hi : s.Ends a i) :
    (s.step a).Gone i := by
  obtain ⟨now, c⟩ := a
  rcases hi with ⟨rfl, hcancel⟩ | ⟨⟨probe, rfl, hdue⟩, hrecurring⟩
  · obtain ⟨r, hr, _, honward, hgone⟩ := h.outside.cancel now i
    rw [hr, Option.map_some, Option.some_inj] at hcancel
    have hstep : s.step (now, .cancel i) = { s with manager := r.2, clock := now } := by
      rw [TimerUse.step, TimerManager.call, hr]
      rfl
    rw [hstep]
    refine ⟨?_, (hgone hcancel).2⟩
    exact honward.created.symm ▸ (hgone hcancel).1
  · obtain ⟨hright, _, honward⟩ := h.outside.listExpiredCb (h.previouse_le ha) ha.inRange probe
    have hi := h.outside.created i (live_nil.mpr (mem_due.mp hdue).1)
    exact ⟨honward.created.symm ▸ hi, (hright.dropped i hdue hrecurring).1⟩

theorem Gone.not_returns (hi : s.Gone i) : ¬ s.Returns a i := by
  rintro ⟨_, _, hdue⟩
  exact hi.2 (mem_due.mp hdue).1

theorem sound_of_run (now : ℕ) :
    ∀ as : List (ℕ × Call κ), Along step Promised (start now) as →
      (run step (start now) as).Sound as :=
  invariant_of_step_along step (sound_start now) fun _ _ h ha ↦ (h.step ha).1

/-- In every state the timers in the set are those with a callback, so that `cancel` does not
erase the end of it; every `listExpiredCb` gives the callbacks that are due; and no timer gives
its callback once it has been cancelled or has expired without recurring. -/
theorem expires_right (now : ℕ) (as : List (ℕ × Call κ))
    (h : Along step Promised (start now) as) :
    (∀ bs, bs <+: as → (run step (start now) bs).undefined = false ∧
        (run step (start now) bs).manager.Consistent (given bs)) ∧
      (∀ bs t probe, bs ++ [(t, .listExpiredCb probe)] <+: as →
        (run step (start now) bs).manager.ExpiresRight t probe) ∧
      ∀ bs a cs b i, bs ++ a :: cs ++ [b] <+: as → (run step (start now) bs).Ends a i →
        ¬ (run step (start now) (bs ++ a :: cs)).Returns b i := by
  have hok := (along_iff_isPrefix step Promised (start now) as).mp h
  have hsound : ∀ bs, bs <+: as → (run step (start now) bs).Sound bs := by
    intro bs hbs
    refine sound_of_run now bs ?_
    rw [along_iff_isPrefix]
    exact fun cs a hcs ↦ hok cs a (hcs.trans hbs)
  refine ⟨fun bs hbs ↦ ⟨(hsound bs hbs).undefined, (hsound bs hbs).outside.consistent⟩,
    fun bs t probe hbs ↦ ?_, fun bs a cs b i hbs hends ↦ ?_⟩
  · have hpast := hsound bs ((List.prefix_append _ _).trans hbs)
    have hpromised := hok bs _ hbs
    exact (hpast.outside.listExpiredCb (hpast.previouse_le hpromised) hpromised.inRange probe).1
  · -- The timer is gone behind `a`, and it stays so over `cs`.
    have hgone : ∀ cs, bs ++ a :: cs <+: as → (run step (start now) (bs ++ a :: cs)).Gone i := by
      intro cs
      induction cs using List.reverseRecOn with
      | nil =>
          intro hbs
          rw [run_snoc]
          exact (hsound bs ((List.prefix_append _ _).trans hbs)).gone_of_ends
            (hok bs a hbs) hends
      | append_singleton cs c ih =>
          intro hbs
          have hsplit : bs ++ a :: (cs ++ [c]) = bs ++ a :: cs ++ [c] := by simp
          rw [hsplit] at hbs ⊢
          have hpast := (List.prefix_append _ _).trans hbs
          rw [run_snoc]
          exact (hsound _ hpast).gone_step (hok _ c hbs) (ih hpast)
    exact (hgone cs ((List.prefix_append _ _).trans hbs)).not_returns

/-- A recurring timer, a timer that expires with it and one that is cancelled. -/
def threeTimers : List (ℕ × Call ℕ) :=
  [(0, .addTimer 16 10 (some 1) true), (0, .addTimer 8 5 (some 2) false),
    (2, .addTimer 24 30 (some 3) false), (3, .cancel 2)]

theorem expires_right_threeTimers :
    (run step (start 0) threeTimers).manager.ExpiresRight 12 20 ∧
      ((run step (start 0) threeTimers).manager.listExpiredCb 12 20).1 = [some 2, some 1] ∧
      ¬ (run step (start 0) (threeTimers ++ [(12, .listExpiredCb 20)])).Returns
        (40, .listExpiredCb 20) 2 := by
  have h := expires_right 0
    (threeTimers ++ [(12, .listExpiredCb 20)] ++ [(40, .listExpiredCb 20)]) (by decide)
  refine ⟨h.2.1 threeTimers 12 20 (List.prefix_append _ _), by decide, ?_⟩
  exact h.2.2 (threeTimers.take 3) (3, .cancel 2) [(12, .listExpiredCb 20)] _ 2
    List.prefix_rfl (.inl ⟨rfl, by decide⟩)

def emptyCallback : List (ℕ × Call ℕ) :=
  [(0, .addTimer 16 10 none false)]

/-- A timer with an empty callback is in the set and cannot be cancelled. -/
theorem not_armed_emptyCallback :
    Along step Promised (start 0) emptyCallback ∧
      ¬ ∀ i, ((run step (start 0) emptyCallback).manager.objects i).cb.isSome = true ↔
        i ∈ (run step (start 0) emptyCallback).manager.timers := by
  refine ⟨by decide, fun h ↦ ?_⟩
  have hmem : 0 ∈ (run step (start 0) emptyCallback).manager.timers := by decide
  have hcb := (h 0).mpr hmem
  revert hcb
  decide

end TimerUse

/-! ## Clocks that go back -/

namespace TimerManager

/-- A timer expires before it is due only if the clock is more than an hour behind. -/
def OnTime (s : TimerManager κ) (now probe : ℕ) : Prop :=
  ∀ i ∈ (s.takeExpired now probe).1,
    now < (s.objects i).next → now + 60 * 60 * 1000 < s.previouseTime

/-- In the first hour `previouseTime_ - 60 * 60 * 1000` wraps around. -/
def Misjudged (s : TimerManager κ) (now : ℕ) : Prop :=
  now < s.previouseTime ∧ s.previouseTime < 60 * 60 * 1000 ∧
    ∃ i ∈ s.timers, now < (s.objects i).next

instance (s : TimerManager κ) (now : ℕ) : Decidable (s.Misjudged now) :=
  inferInstanceAs (Decidable (now < s.previouseTime ∧ s.previouseTime < 60 * 60 * 1000 ∧
    ∃ i ∈ s.timers, now < (s.objects i).next))

theorem takeExpired_of_rollover {s : TimerManager κ} {now : ℕ}
    (h : (s.detectClockRolllover now).1 = true) (probe : ℕ) :
    (s.takeExpired now probe).1 = s.timers := by
  have hrollover : s.detectClockRolllover now = (true, { s with previouseTime := now }) :=
    Prod.ext h rfl
  unfold takeExpired
  cases hhead : s.timers.head? with
  | none => exact (List.head?_eq_none_iff.mp hhead).symm
  | some first =>
      rw [hrollover]
      exact List.take_length

theorem due_of_mem_takeExpired {s : TimerManager κ} {now probe : ℕ}
    (h : (s.detectClockRolllover now).1 = false) :
    ∀ i ∈ (s.takeExpired now probe).1, (s.objects i).next ≤ now := by
  have hrollover : s.detectClockRolllover now = (false, { s with previouseTime := now }) :=
    Prod.ext h rfl
  obtain ⟨front, hsplit, hfront⟩ := s.unexpired_split now probe
  unfold takeExpired
  cases hhead : s.timers.head? with
  | none => exact fun i hi ↦ absurd hi List.not_mem_nil
  | some first =>
      rw [hrollover]
      dsimp only
      split_ifs
      · exact fun i hi ↦ absurd hi List.not_mem_nil
      · intro i hi
        have hmem : i ∈ s.timers.take (s.timers.length - (s.unexpired now probe false).length) :=
          hi
        rw [take_front hsplit] at hmem
        exact hfront i hmem

theorem detectClockRolllover_iff {s : TimerManager κ} {now : ℕ} :
    (s.detectClockRolllover now).1 = true ↔
      now < s.previouseTime ∧ now < minus s.previouseTime (60 * 60 * 1000) := by
  rw [detectClockRolllover, Bool.and_eq_true, decide_eq_true_eq, decide_eq_true_eq]

theorem onTime_iff {s : TimerManager κ} (hprevious : s.previouseTime < 2 ^ 64) (now probe : ℕ) :
    s.OnTime now probe ↔ ¬ s.Misjudged now := by
  have hminus : minus s.previouseTime (60 * 60 * 1000) =
      if s.previouseTime < 60 * 60 * 1000 then s.previouseTime + 2 ^ 64 - 60 * 60 * 1000
      else s.previouseTime - 60 * 60 * 1000 := by
    unfold minus wrap
    split_ifs <;> omega
  by_cases hroll : (s.detectClockRolllover now).1 = true
  · rw [OnTime, takeExpired_of_rollover hroll]
    rw [detectClockRolllover_iff, hminus] at hroll
    constructor
    · rintro h ⟨hnow, hhour, i, hi, hnext⟩
      have hbehind := h i hi hnext
      omega
    · intro h i hi hnext
      by_contra hnot
      refine h ⟨hroll.1, ?_, i, hi, hnext⟩
      by_contra hhour
      rw [if_neg hhour] at hroll
      omega
  · refine iff_of_true (fun i hi hnext ↦ ?_) fun h ↦ ?_
    · have hdue := due_of_mem_takeExpired (Bool.eq_false_iff.mpr hroll) i hi
      omega
    · obtain ⟨hnow, hhour, _⟩ := h
      rw [detectClockRolllover_iff, hminus, if_pos hhour] at hroll
      exact hroll ⟨hnow, by omega⟩

theorem foldl_collect_previouseTime (now : ℕ) (expired : List ℕ) (cbs : List (Option κ))
    (s : TimerManager κ) :
    (expired.foldl (collect now) (cbs, s)).2.previouseTime = s.previouseTime := by
  induction expired generalizing s cbs with
  | nil => rfl
  | cons i expired ih =>
      rw [List.foldl_cons, collect, ih]
      exact (s.rearm_objects now i).2.2

theorem addLocked_previouseTime (s : TimerManager κ) (i : ℕ) :
    (s.addLocked i).2.previouseTime = s.previouseTime :=
  (s.addLocked_frame i).2.2.2.trans (s.insert_frame i).2.2

/-- Only `listExpiredCb` records a time, and it is what it has read. -/
theorem call_previouseTime {s s' : TimerManager κ} {now : ℕ} {c : Call κ}
    (h : s.call now c = some s') :
    s'.previouseTime = s.previouseTime ∨ s'.previouseTime = now := by
  cases c with
  | addTimer address ms cb recurring =>
      rw [← Option.some_inj.mp h]
      exact .inl (addLocked_previouseTime _ _)
  | cancel i =>
      rw [call, TimerManager.cancel] at h
      split_ifs at h
      · rw [Option.map_map, Option.map_eq_some_iff] at h
        obtain ⟨j, _, rfl⟩ := h
        exact .inl rfl
      · rw [← Option.some_inj.mp h]
        exact .inl rfl
  | refresh i =>
      rw [← Option.some_inj.mp h, TimerManager.refresh]
      split_ifs
      · exact .inl rfl
      · split
        · exact .inl rfl
        · exact .inl (insert_frame _ _).2.2
  | reset i ms fromNow =>
      rw [← Option.some_inj.mp h, TimerManager.reset]
      split_ifs
      · exact .inl rfl
      · exact .inl rfl
      · split
        · exact .inl rfl
        · exact .inl (addLocked_previouseTime _ _)
      · split
        · exact .inl rfl
        · exact .inl (addLocked_previouseTime _ _)
  | getNextTimer =>
      rw [← Option.some_inj.mp h, TimerManager.getNextTimer]
      dsimp only
      split
      · exact .inl rfl
      · exact .inl rfl
  | listExpiredCb probe =>
      rw [← Option.some_inj.mp h, TimerManager.listExpiredCb, takeExpired]
      dsimp only
      split
      · exact .inl rfl
      · split_ifs
        · exact .inr rfl
        · exact .inr (foldl_collect_previouseTime _ _ _ _)

end TimerManager

namespace TimerUse

open TimerManager Runs

/-- The readings are 64 bits wide, so what is recorded of them is. -/
theorem previouse_lt_of_run {s : TimerUse κ} (hprevious : s.manager.previouseTime < 2 ^ 64) :
    ∀ as : List (ℕ × Call κ), Along step (fun _ a ↦ a.1 < 2 ^ 64) s as →
      (run step s as).manager.previouseTime < 2 ^ 64 := by
  refine invariant_of_step_along step (P := fun _ s ↦ s.manager.previouseTime < 2 ^ 64) hprevious
    fun as a h ha ↦ ?_
  rw [TimerUse.step]
  split
  · rename_i manager hcall
    change manager.previouseTime < 2 ^ 64
    rcases call_previouseTime hcall with heq | heq
    · rw [heq]
      exact h
    · rw [heq]
      exact ha
  · exact h

/-- The call does not expire timers, or it does not misjudge a clock that has gone back. -/
def JudgesRight (s : TimerUse κ) (a : ℕ × Call κ) : Prop :=
  match a.2 with
  | .listExpiredCb _ => ¬ s.manager.Misjudged a.1
  | _ => True

instance (s : TimerUse κ) : ∀ a : ℕ × Call κ, Decidable (s.JudgesRight a)
  | (now, .listExpiredCb _) => inferInstanceAs (Decidable (¬ s.manager.Misjudged now))
  | (_, .addTimer _ _ _ _) | (_, .cancel _) | (_, .refresh _) | (_, .reset _ _ _)
  | (_, .getNextTimer) => inferInstanceAs (Decidable True)

/-- From any state and over any readings of the clock, timers expire on time exactly if no
call misjudges a clock that has gone back. -/
theorem expires_onTime_iff (s : TimerUse κ) (hprevious : s.manager.previouseTime < 2 ^ 64)
    (as : List (ℕ × Call κ)) (hread : ∀ a ∈ as, a.1 < 2 ^ 64) :
    (∀ bs now probe, bs ++ [(now, .listExpiredCb probe)] <+: as →
        (run step s bs).manager.OnTime now probe) ↔
      Along step JudgesRight s as := by
  have hpast : ∀ bs, bs <+: as → (run step s bs).manager.previouseTime < 2 ^ 64 := by
    intro bs hbs
    refine previouse_lt_of_run hprevious bs ?_
    rw [along_iff_isPrefix]
    exact fun cs a hcs ↦ hread a (hbs.subset (hcs.subset (by simp)))
  have hiff : ∀ bs now probe, bs ++ [(now, .listExpiredCb probe)] <+: as →
      ((run step s bs).manager.OnTime now probe ↔ ¬ (run step s bs).manager.Misjudged now) :=
    fun bs now probe hbs ↦ onTime_iff (hpast bs ((List.prefix_append _ _).trans hbs)) now probe
  rw [along_iff_isPrefix]
  constructor
  · rintro h bs ⟨now, c⟩ hbs
    cases c with
    | listExpiredCb probe => exact (hiff bs now probe hbs).mp (h bs now probe hbs)
    | addTimer | cancel | refresh | reset | getNextTimer => exact trivial
  · exact fun h bs now probe hbs ↦ (hiff bs now probe hbs).mpr (h bs _ hbs)

/-- Two threads read 99 and 100, and the one that has read 100 gets the lock. -/
def readInTurn : List (ℕ × Call ℕ) :=
  [(40, .addTimer 16 5000 (some 1) false), (100, .listExpiredCb 8)]

theorem expires_onTime_iff_readInTurn :
    (run step (start 0) readInTurn).manager.OnTime 5040 8 :=
  (expires_onTime_iff (start 0) (by decide) (readInTurn ++ [(5040, .listExpiredCb 8)])
    (by decide)).mpr (by decide) readInTurn 5040 8 List.prefix_rfl

/-- Now the other one has the lock. -/
theorem not_onTime_readInTurn :
    ¬ (run step (start 0) readInTurn).manager.OnTime 99 8 := by
  intro h
  have hnot : ¬ 99 + 60 * 60 * 1000 < (run step (start 0) readInTurn).manager.previouseTime := by
    decide
  exact hnot (h 0 (by decide) (by decide))

end TimerUse

end HttpRaftKv.Fiber
