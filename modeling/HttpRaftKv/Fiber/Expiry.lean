import HttpRaftKv.Fiber.TimerManager

/-!
# When timers expire

The set of the manager stays in order because a timer is out of it whenever its time is
changed.  So a look at the set finds every timer that is in it, and the timers that have
expired are the front of the set.
-/

namespace HttpRaftKv.Fiber

variable {κ : Type}

namespace Timer

theorem less_iff {t u : Timer κ} :
    t.less u = true ↔ t.next < u.next ∨ t.next = u.next ∧ t.address < u.address := by
  unfold less
  split_ifs with hlt hgt
  · simp [hlt]
  · simp only [false_iff]
    omega
  · rw [decide_eq_true_eq]
    omega

theorem not_less_iff {t u : Timer κ} :
    t.less u = false ↔ u.next < t.next ∨ u.next = t.next ∧ u.address ≤ t.address := by
  rw [← Bool.not_eq_true, less_iff]
  omega

theorem less_self (t : Timer κ) : t.less t = false :=
  not_less_iff.mpr (.inr ⟨rfl, Nat.le_refl _⟩)

theorem less_trans {t u v : Timer κ} (h : t.less u = true) (h' : u.less v = true) :
    t.less v = true := by
  rw [less_iff] at *
  omega

end Timer

namespace TimerManager

/-- A time that fits its type. -/
theorem wrap_of_lt {time : ℕ} (h : time < 2 ^ 64) : wrap time = time :=
  Nat.mod_eq_of_lt h

/-- The order of the set. -/
def Before (s : TimerManager κ) (i j : ℕ) : Prop :=
  (s.objects i).less (s.objects j) = true

/-- In the set, or out of it for a moment. -/
def Live (s : TimerManager κ) (out : List ℕ) (i : ℕ) : Prop :=
  i ∈ s.timers ∨ i ∈ out

/-- The timers `out` are out of the set; `given` are the callbacks with which the timers have
been added. -/
structure Outside (s : TimerManager κ) (given : ℕ → Option κ) (out : List ℕ) : Prop where
  kept : ∀ i, s.Live out i → (s.objects i).cb = given i
  gone : ∀ i, ¬ s.Live out i → (s.objects i).cb = none
  ordered : s.timers.Pairwise s.Before
  separate : ∀ i ∈ out, i ∉ s.timers
  nodup : out.Nodup
  apart : ∀ i j, s.Live out i → s.Live out j →
    (s.objects i).address = (s.objects j).address → i = j
  created : ∀ i, s.Live out i → i < s.created
  inTime : ∀ i, s.Live out i →
    (s.objects i).ms ≤ (s.objects i).next ∧ (s.objects i).next < 2 ^ 64

variable {s s' : TimerManager κ} {given : ℕ → Option κ} {out : List ℕ} {i j now : ℕ}

theorem live_nil : s.Live [] i ↔ i ∈ s.timers :=
  or_iff_left List.not_mem_nil

theorem live_head : s.Live (i :: out) i :=
  .inr List.mem_cons_self

theorem outside_create (now : ℕ) : (create now).Outside given [] where
  kept := fun _ hi ↦ absurd (live_nil.mp hi) List.not_mem_nil
  gone := fun _ _ ↦ rfl
  ordered := .nil
  separate := fun _ hi ↦ absurd hi List.not_mem_nil
  nodup := .nil
  apart := fun _ _ hi ↦ absurd (live_nil.mp hi) List.not_mem_nil
  created := fun _ hi ↦ absurd (live_nil.mp hi) List.not_mem_nil
  inTime := fun _ hi ↦ absurd (live_nil.mp hi) List.not_mem_nil

theorem Outside.timers_nodup (h : s.Outside given out) : s.timers.Nodup := by
  refine h.ordered.imp fun {i j} hbefore hsame ↦ ?_
  subst hsame
  exact Bool.false_ne_true ((Timer.less_self _).symm.trans hbefore)

/-- A timer with a callback is in the set. -/
theorem Outside.mem_of_cb (h : s.Outside given []) (hi : (s.objects i).cb.isSome = true) :
    i ∈ s.timers := by
  by_contra hnot
  rw [h.gone i (mt live_nil.mp hnot)] at hi
  cases hi

/-! ## The set -/

theorem find_of_mem (h : s.timers.Pairwise s.Before) (hi : i ∈ s.timers) :
    s.find (s.objects i) = some i := by
  have hfirst : (s.lowerBound (s.objects i)).head? = some i :=
    OrderedSet.head?_dropWhile h hi (Timer.less_self _) fun j _ hbefore ↦ hbefore
  rw [find, hfirst, Option.filter_some, if_pos (by simp [Timer.less_self])]

/-- A timer that is not found has no other timer at its place in the order. -/
theorem find_eq_none (h : s.timers.Pairwise s.Before) {timer : Timer κ}
    (haddress : ∀ j ∈ s.timers, (s.objects j).address ≠ timer.address) : s.find timer = none := by
  rw [find, Option.filter_eq_none_iff]
  intro j hj
  have hmem : j ∈ s.lowerBound timer := List.mem_of_head? hj
  have hnot : (s.objects j).less timer = false :=
    OrderedSet.not_before_of_mem_dropWhile h (fun a b hab hb ↦ Timer.less_trans hab hb) j hmem
  have hne := haddress j ((List.dropWhile_sublist _).subset hmem)
  rw [Timer.not_less_iff] at hnot
  have hless : timer.less (s.objects j) = true := Timer.less_iff.mpr (by omega)
  simp [hless]

/-- The order depends on the times and the addresses only. -/
theorem ordered_congr (h : s.timers.Pairwise s.Before) (htimers : s'.timers.Sublist s.timers)
    (hsame : ∀ i ∈ s'.timers, (s'.objects i).next = (s.objects i).next ∧
      (s'.objects i).address = (s.objects i).address) : s'.timers.Pairwise s'.Before := by
  refine (h.sublist htimers).imp_of_mem fun {i j} hi hj hbefore ↦ ?_
  have hi' := hsame i hi
  have hj' := hsame j hj
  unfold Before at hbefore ⊢
  rw [Timer.less_iff] at hbefore ⊢
  rw [hi'.1, hi'.2, hj'.1, hj'.2]
  exact hbefore

@[simp] theorem setTimer_self (s : TimerManager κ) (i : ℕ) (t : Timer κ) :
    (s.setTimer i t).objects i = t := by
  simp [setTimer]

theorem setTimer_of_ne (s : TimerManager κ) (t : Timer κ) (h : j ≠ i) :
    (s.setTimer i t).objects j = s.objects j := by
  simp [setTimer, h]

theorem Outside.live_erase (h : s.Outside given out) (hi : i ∈ s.timers) :
    (s.erase i).Live (i :: out) j ↔ s.Live out j := by
  have hmem : j ∈ (s.erase i).timers ↔ j ≠ i ∧ j ∈ s.timers := h.timers_nodup.mem_erase_iff
  unfold Live
  rw [hmem, List.mem_cons]
  by_cases hj : j = i
  · simp [hj, hi]
  · simp [hj]

/-- Timers are taken out of the set, and they are as they were. -/
theorem Outside.takeOut (h : s.Outside given out) {out' : List ℕ} (hobjects : s'.objects = s.objects)
    (hcreated : s'.created = s.created) (htimers : s'.timers.Sublist s.timers)
    (hlive : ∀ i, s'.Live out' i ↔ s.Live out i) (hseparate : ∀ i ∈ out', i ∉ s'.timers)
    (hnodup : out'.Nodup) : s'.Outside given out' where
  kept := fun i hi ↦ hobjects ▸ h.kept i ((hlive i).mp hi)
  gone := fun i hi ↦ hobjects ▸ h.gone i (mt (hlive i).mpr hi)
  ordered := ordered_congr h.ordered htimers fun _ _ ↦ hobjects ▸ ⟨rfl, rfl⟩
  separate := hseparate
  nodup := hnodup
  apart := fun i j hi hj ↦ hobjects ▸ h.apart i j ((hlive i).mp hi) ((hlive j).mp hj)
  created := fun i hi ↦ hcreated ▸ h.created i ((hlive i).mp hi)
  inTime := fun i hi ↦ hobjects ▸ h.inTime i ((hlive i).mp hi)

theorem Outside.erase (h : s.Outside given out) (hi : i ∈ s.timers) :
    (s.erase i).Outside given (i :: out) := by
  refine h.takeOut rfl rfl List.erase_sublist (fun j ↦ h.live_erase hi) ?_
    (List.nodup_cons.mpr ⟨fun hmem ↦ h.separate i hmem hi, h.nodup⟩)
  intro j hj hmem
  have hmem' := h.timers_nodup.mem_erase_iff.mp hmem
  rcases List.mem_cons.mp hj with rfl | hj
  · exact hmem'.1 rfl
  · exact h.separate j hj hmem'.2

/-- A timer that is out of the set gets another time. -/
theorem Outside.setTimer (h : s.Outside given (i :: out)) {t : Timer κ}
    (haddress : t.address = (s.objects i).address) (hcb : t.cb = (s.objects i).cb)
    (htime : t.ms ≤ t.next ∧ t.next < 2 ^ 64) : (s.setTimer i t).Outside given (i :: out) := by
  have hcbs : ∀ j, ((s.setTimer i t).objects j).cb = (s.objects j).cb := by
    intro j
    by_cases hj : j = i
    · rw [hj, setTimer_self, hcb]
    · rw [setTimer_of_ne _ _ hj]
  have hsame : ∀ j, ((s.setTimer i t).objects j).address = (s.objects j).address := by
    intro j
    by_cases hj : j = i
    · rw [hj, setTimer_self, haddress]
    · rw [setTimer_of_ne _ _ hj]
  refine ⟨fun j hj ↦ (hcbs j).trans (h.kept j hj), fun j hj ↦ (hcbs j).trans (h.gone j hj), ?_,
    h.separate, h.nodup, ?_, h.created, ?_⟩
  · refine ordered_congr h.ordered (List.Sublist.refl _) fun j hj ↦ ?_
    have hne : j ≠ i := by
      rintro rfl
      exact h.separate j List.mem_cons_self hj
    rw [setTimer_of_ne _ _ hne]
    exact ⟨rfl, rfl⟩
  · intro j k hj hk hjk
    rw [hsame, hsame] at hjk
    exact h.apart j k hj hk hjk
  · intro j hj
    by_cases hji : j = i
    · rw [hji, setTimer_self]
      exact htime
    · rw [setTimer_of_ne _ _ hji]
      exact h.inTime j hj

/-- A timer that is out of the set loses its callback. -/
theorem Outside.drop (h : s.Outside given (i :: out)) :
    (s.setTimer i { s.objects i with cb := none }).Outside given out := by
  have hnodup := List.nodup_cons.mp h.nodup
  have hi := h.separate i List.mem_cons_self
  have hne : ∀ j, s.Live out j → j ≠ i := by
    rintro j (hj | hj) rfl
    · exact hi hj
    · exact hnodup.1 hj
  have hlive : ∀ j, s.Live out j → s.Live (i :: out) j := fun j hj ↦
    hj.imp_right (List.mem_cons_of_mem _)
  have hsame : ∀ j, s.Live out j →
      (s.setTimer i { s.objects i with cb := none }).objects j = s.objects j :=
    fun j hj ↦ setTimer_of_ne _ _ (hne j hj)
  refine ⟨fun j hj ↦ ?_, fun j hj ↦ ?_, ?_, fun j hj ↦ h.separate j (List.mem_cons_of_mem _ hj),
    hnodup.2, fun j k hj hk hjk ↦ ?_, fun j hj ↦ h.created j (hlive j hj), fun j hj ↦ ?_⟩
  · rw [hsame j hj]
    exact h.kept j (hlive j hj)
  · by_cases hji : j = i
    · rw [hji, setTimer_self]
    · rw [setTimer_of_ne _ _ hji]
      refine h.gone j ?_
      rintro (hmem | hmem)
      · exact hj (.inl hmem)
      · exact hj (.inr ((List.mem_cons.mp hmem).resolve_left hji))
  · exact ordered_congr h.ordered (List.Sublist.refl _) fun j hj ↦ by
      rw [hsame j (.inl hj)]
      exact ⟨rfl, rfl⟩
  · rw [hsame j hj, hsame k hk] at hjk
    exact h.apart j k (hlive j hj) (hlive k hk) hjk
  · rw [hsame j hj]
    exact h.inTime j (hlive j hj)

theorem insert_frame (s : TimerManager κ) (i : ℕ) :
    (s.insert i).objects = s.objects ∧ (s.insert i).created = s.created ∧
      (s.insert i).previouseTime = s.previouseTime := by
  unfold insert
  split_ifs
  · exact ⟨rfl, rfl, rfl⟩
  · exact ⟨rfl, rfl, rfl⟩

/-- A timer that is out of the set has a place of its own in it. -/
theorem Outside.insert_eq (h : s.Outside given (i :: out)) :
    s.insert i =
      { s with
        timers := OrderedSet.putIn (fun j ↦ (s.objects j).less (s.objects i)) i s.timers } ∧
      ∀ j ∈ s.timers, (s.objects j).address ≠ (s.objects i).address := by
  have haddress : ∀ j ∈ s.timers, (s.objects j).address ≠ (s.objects i).address := by
    intro j hj hsame
    have hji := h.apart j i (.inl hj) live_head hsame
    exact h.separate i List.mem_cons_self (hji ▸ hj)
  refine ⟨?_, haddress⟩
  rw [TimerManager.insert, find_eq_none h.ordered haddress]
  rfl

theorem Outside.mem_insert (h : s.Outside given (i :: out)) :
    j ∈ (s.insert i).timers ↔ j = i ∨ j ∈ s.timers := by
  rw [h.insert_eq.1]
  exact OrderedSet.mem_putIn

theorem Outside.insert (h : s.Outside given (i :: out)) : (s.insert i).Outside given out := by
  obtain ⟨hobjects, hcreated, _⟩ := s.insert_frame i
  have hnodup := List.nodup_cons.mp h.nodup
  have hlive : ∀ j, (s.insert i).Live out j ↔ s.Live (i :: out) j := by
    intro j
    unfold Live
    rw [h.mem_insert, List.mem_cons]
    exact or_assoc.trans or_left_comm
  refine ⟨fun j hj ↦ ?_, fun j hj ↦ ?_, ?_, fun j hj hmem ↦ ?_, hnodup.2, fun j k hj hk hjk ↦ ?_,
    fun j hj ↦ ?_, fun j hj ↦ ?_⟩
  · rw [hobjects]
    exact h.kept j ((hlive j).mp hj)
  · rw [hobjects]
    exact h.gone j (mt (hlive j).mpr hj)
  · obtain ⟨hinsert, haddress⟩ := h.insert_eq
    rw [hinsert]
    refine OrderedSet.pairwise_putIn h.ordered (fun a b hab hb ↦ Timer.less_trans hab hb)
      (fun a _ hbefore ↦ hbefore) fun a ha hnot ↦ ?_
    have hne := haddress a ha
    rw [Timer.not_less_iff] at hnot
    have hless : (s.objects i).less (s.objects a) = true := Timer.less_iff.mpr (by omega)
    exact hless
  · rcases h.mem_insert.mp hmem with rfl | hmem
    · exact hnodup.1 hj
    · exact h.separate j (List.mem_cons_of_mem _ hj) hmem
  · rw [hobjects] at hjk
    exact h.apart j k ((hlive j).mp hj) ((hlive k).mp hk) hjk
  · rw [hcreated]
    exact h.created j ((hlive j).mp hj)
  · rw [hobjects]
    exact h.inTime j ((hlive j).mp hj)

/-- The other fields do not matter. -/
theorem Outside.frame (h : s.Outside given out) (hobjects : s'.objects = s.objects)
    (htimers : s'.timers = s.timers) (hcreated : s'.created = s.created) :
    s'.Outside given out := by
  obtain ⟨objects, created, timers, tickled, previouseTime⟩ := s
  obtain ⟨objects', created', timers', tickled', previouseTime'⟩ := s'
  subst hobjects htimers hcreated
  exact ⟨h.kept, h.gone, h.ordered, h.separate, h.nodup, h.apart, h.created, h.inTime⟩

/-! ## Calls -/

/-- What a call that adds so many timers leaves of the manager: no timer comes back. -/
structure Onward (s s' : TimerManager κ) (now added : ℕ) : Prop where
  created : s'.created = s.created + added
  timers : ∀ i ∈ s'.timers, i ∈ s.timers ∨ i = s.created
  previouseTime : s'.previouseTime = s.previouseTime ∨ s'.previouseTime = now

theorem Onward.refl (s : TimerManager κ) (now : ℕ) : s.Onward s now 0 :=
  ⟨rfl, fun _ hi ↦ .inl hi, .inl rfl⟩

theorem addLocked_frame (s : TimerManager κ) (i : ℕ) :
    (s.addLocked i).2.objects = (s.insert i).objects ∧
      (s.addLocked i).2.timers = (s.insert i).timers ∧
      (s.addLocked i).2.created = (s.insert i).created ∧
      (s.addLocked i).2.previouseTime = (s.insert i).previouseTime := by
  unfold addLocked
  dsimp only
  split_ifs
  · exact ⟨rfl, rfl, rfl, rfl⟩
  · exact ⟨rfl, rfl, rfl, rfl⟩

theorem Outside.addLocked (h : s.Outside given (i :: out)) :
    (s.addLocked i).2.Outside given out := by
  obtain ⟨hobjects, htimers, hcreated, _⟩ := s.addLocked_frame i
  exact h.insert.frame hobjects htimers hcreated

theorem Outside.addTimer (h : s.Outside given []) {address ms : ℕ} {cb : Option κ}
    {recurring : Bool} {given' : ℕ → Option κ} (hother : ∀ i, i ≠ s.created → given' i = given i)
    (hcb : given' s.created = cb) (htime : now + ms < 2 ^ 64)
    (hfresh : ∀ i ∈ s.timers, (s.objects i).address ≠ address) :
    (s.addTimer now address ms cb recurring).2.Outside given' [] ∧
      s.Onward (s.addTimer now address ms cb recurring).2 now 1 := by
  let timer : Timer κ :=
    { address := address
      recurring := recurring
      ms := ms
      next := wrap (now + ms)
      cb := cb }
  let s₁ : TimerManager κ := { s.setTimer s.created timer with created := s.created + 1 }
  have hne : ∀ i ∈ s.timers, i ≠ s.created := fun i hi ↦ (h.created i (live_nil.mpr hi)).ne
  have hnew : s₁.objects s.created = timer := setTimer_self s s.created timer
  have hold : ∀ i, i ≠ s.created → s₁.objects i = s.objects i := fun i hi ↦
    setTimer_of_ne s timer hi
  have hlive : ∀ i, s₁.Live [s.created] i → i = s.created ∨ i ∈ s.timers := fun i hi ↦
    hi.symm.imp_left List.mem_singleton.mp
  have hnext : timer.next = now + ms := wrap_of_lt htime
  have houtside : s₁.Outside given' [s.created] := by
    refine ⟨fun i hi ↦ ?_, fun i hi ↦ ?_, ?_, fun i hi hmem ↦ ?_, by simp,
      fun i j hi hj hij ↦ ?_, fun i hi ↦ ?_, fun i hi ↦ ?_⟩
    · rcases hlive i hi with rfl | hmem
      · rw [hnew, hcb]
      · rw [hold i (hne i hmem), hother i (hne i hmem)]
        exact h.kept i (live_nil.mpr hmem)
    · have hi' : i ≠ s.created := fun heq ↦ hi (.inr (List.mem_singleton.mpr heq))
      rw [hold i hi']
      exact h.gone i fun hmem ↦ hi (.inl (live_nil.mp hmem))
    · exact ordered_congr h.ordered (List.Sublist.refl _) fun i hi ↦ by
        rw [hold i (hne i hi)]
        exact ⟨rfl, rfl⟩
    · exact hne i hmem (List.mem_singleton.mp hi)
    · rcases hlive i hi with rfl | hi <;> rcases hlive j hj with rfl | hj
      · rfl
      · rw [hnew, hold j (hne j hj)] at hij
        exact absurd hij.symm (hfresh j hj)
      · rw [hnew, hold i (hne i hi)] at hij
        exact absurd hij (hfresh i hi)
      · rw [hold i (hne i hi), hold j (hne j hj)] at hij
        exact h.apart i j (live_nil.mpr hi) (live_nil.mpr hj) hij
    · rcases hlive i hi with rfl | hi
      · exact Nat.lt_succ_self _
      · exact Nat.lt_succ_of_lt (h.created i (live_nil.mpr hi))
    · rcases hlive i hi with rfl | hi
      · rw [hnew, hnext]
        exact ⟨Nat.le_add_left _ _, htime⟩
      · rw [hold i (hne i hi)]
        exact h.inTime i (live_nil.mpr hi)
  obtain ⟨_, htimers, hcreated, hprevious⟩ := s₁.addLocked_frame s.created
  obtain ⟨_, hcreated', hprevious'⟩ := s₁.insert_frame s.created
  refine ⟨houtside.addLocked, ?_, fun i hi ↦ ?_, .inl (hprevious.trans hprevious')⟩
  · exact hcreated.trans hcreated'
  · have hmem : i ∈ (s₁.addLocked s.created).2.timers := hi
    rw [htimers, houtside.mem_insert] at hmem
    exact hmem.symm

/-- `cancel` takes the timer out of the set and does not erase the end of it. -/
theorem Outside.cancel (h : s.Outside given []) (now i : ℕ) :
    ∃ r, s.cancel i = some r ∧ r.2.Outside given [] ∧ s.Onward r.2 now 0 ∧
      (r.1 = true → i < s.created ∧ i ∉ r.2.timers) := by
  rw [TimerManager.cancel]
  split_ifs with hcb
  · have hi := h.mem_of_cb hcb
    have hordered : (s.setTimer i { s.objects i with cb := none }).timers.Pairwise
        (s.setTimer i { s.objects i with cb := none }).Before := by
      refine ordered_congr h.ordered (List.Sublist.refl _) fun j _ ↦ ?_
      by_cases hj : j = i
      · rw [hj, setTimer_self]
        exact ⟨rfl, rfl⟩
      · rw [setTimer_of_ne _ _ hj]
        exact ⟨rfl, rfl⟩
    have hfind := find_of_mem hordered hi
    refine ⟨_, congrArg (Option.map _) hfind, (h.erase hi).drop, ⟨rfl, fun j hj ↦ ?_,
      .inl rfl⟩, fun _ ↦ ⟨h.created i (live_nil.mpr hi), (h.erase hi).separate i List.mem_cons_self⟩⟩
    exact .inl (List.mem_of_mem_erase hj)
  · exact ⟨_, rfl, h, .refl s now, fun hfalse ↦ absurd hfalse Bool.false_ne_true⟩

/-- The timer is taken out, gets another time and goes back in. -/
theorem Outside.move (h : s.Outside given []) (now : ℕ) (hi : i ∈ s.timers) {t : Timer κ}
    (haddress : t.address = (s.objects i).address) (hcb : t.cb = (s.objects i).cb)
    (htime : t.ms ≤ t.next ∧ t.next < 2 ^ 64) :
    ((s.erase i).setTimer i t).Outside given [i] ∧
      s.Onward (((s.erase i).setTimer i t).insert i) now 0 := by
  have houtside := (h.erase hi).setTimer haddress hcb htime
  obtain ⟨_, hcreated, hprevious⟩ := ((s.erase i).setTimer i t).insert_frame i
  refine ⟨houtside, hcreated, fun j hj ↦ .inl ?_, .inl hprevious⟩
  rcases houtside.mem_insert.mp hj with rfl | hj
  · exact hi
  · exact List.mem_of_mem_erase hj

theorem Outside.refresh (h : s.Outside given [])
    (htime : (s.objects i).cb.isSome = true → now + (s.objects i).ms < 2 ^ 64) :
    (s.refresh now i).2.Outside given [] ∧ s.Onward (s.refresh now i).2 now 0 := by
  rw [TimerManager.refresh]
  split_ifs with hcb
  · exact ⟨h, .refl s now⟩
  · have hcb' : (s.objects i).cb.isSome = true := by simpa [Option.isSome_iff_ne_none] using hcb
    have hi := h.mem_of_cb hcb'
    rw [find_of_mem h.ordered hi]
    dsimp only
    rw [wrap_of_lt (htime hcb')]
    have hmove := h.move now hi (t :=
      { s.objects i with next := now + (s.objects i).ms }) rfl rfl
      ⟨Nat.le_add_left _ _, htime hcb'⟩
    exact ⟨hmove.1.insert, hmove.2⟩

/-- The time from which `reset` counts. -/
def since (s : TimerManager κ) (now i : ℕ) (fromNow : Bool) : ℕ :=
  if fromNow then now else (s.objects i).next - (s.objects i).ms

theorem Outside.reset (h : s.Outside given []) {ms : ℕ} {fromNow : Bool}
    (htime : (s.objects i).cb.isSome = true → s.since now i fromNow + ms < 2 ^ 64) :
    (s.reset now i ms fromNow).2.2.Outside given [] ∧
      s.Onward (s.reset now i ms fromNow).2.2 now 0 := by
  rw [TimerManager.reset]
  dsimp only
  by_cases hsame : (ms = (s.objects i).ms && !fromNow) = true
  · rw [if_pos hsame]
    exact ⟨h, .refl s now⟩
  rw [if_neg hsame]
  by_cases hcb : (s.objects i).cb.isNone = true
  · rw [if_pos hcb]
    exact ⟨h, .refl s now⟩
  · have hcb' : (s.objects i).cb.isSome = true := by simpa [Option.isSome_iff_ne_none] using hcb
    have hi := h.mem_of_cb hcb'
    have hin := h.inTime i (live_nil.mpr hi)
    have hstart : (if fromNow then now else minus (s.objects i).next (s.objects i).ms) =
        s.since now i fromNow := by
      unfold since minus wrap
      split_ifs
      · rfl
      · omega
    rw [if_neg hcb, find_of_mem h.ordered hi]
    dsimp only
    rw [hstart, wrap_of_lt (htime hcb')]
    have hmove := h.move now hi (t :=
      { s.objects i with
        ms := ms
        next := s.since now i fromNow + ms }) rfl rfl ⟨Nat.le_add_left _ _, htime hcb'⟩
    obtain ⟨_, htimers, hcreated, hprevious⟩ := ((s.erase i).setTimer i
      { s.objects i with
        ms := ms
        next := s.since now i fromNow + ms }).addLocked_frame i
    refine ⟨hmove.1.addLocked, ?_, fun j hj ↦ ?_, ?_⟩
    · exact hcreated.trans hmove.2.created
    · rw [htimers] at hj
      exact hmove.2.timers j hj
    · rw [hprevious]
      exact hmove.2.previouseTime

theorem Outside.getNextTimer (h : s.Outside given []) (now : ℕ) :
    (s.getNextTimer now).2.Outside given [] ∧ s.Onward (s.getNextTimer now).2 now 0 := by
  have hframe : (s.getNextTimer now).2 = { s with tickled := false } := by
    unfold TimerManager.getNextTimer
    dsimp only
    split
    · rfl
    · rfl
  rw [hframe]
  exact ⟨h.frame rfl rfl rfl, rfl, fun i hi ↦ .inl hi, .inl rfl⟩

/-! ## Expiry -/

/-- The timers that are due. -/
def due (s : TimerManager κ) (now : ℕ) : List ℕ :=
  s.timers.filter fun i ↦ (s.objects i).next ≤ now

theorem mem_due : i ∈ s.due now ↔ i ∈ s.timers ∧ (s.objects i).next ≤ now := by
  simp [due]

/-- A timer that has expired: it is due again later, or it has no callback any more. -/
def renewed (timer : Timer κ) (now : ℕ) : Timer κ :=
  if timer.recurring then { timer with next := wrap (now + timer.ms) }
  else { timer with cb := none }

theorem rearm_objects (s : TimerManager κ) (now i : ℕ) :
    (s.rearm now i).objects = Function.update s.objects i (renewed (s.objects i) now) ∧
      (s.rearm now i).created = s.created ∧
      (s.rearm now i).previouseTime = s.previouseTime := by
  unfold rearm renewed
  dsimp only
  split_ifs
  · exact insert_frame _ _
  · exact ⟨rfl, rfl, rfl⟩

theorem Outside.rearm (h : s.Outside given (i :: out)) (now : ℕ)
    (htime : (s.objects i).recurring = true → now + (s.objects i).ms < 2 ^ 64) :
    (s.rearm now i).Outside given out ∧
      ∀ j, j ∈ (s.rearm now i).timers ↔
        j ∈ s.timers ∨ j = i ∧ (s.objects i).recurring = true := by
  unfold TimerManager.rearm
  dsimp only
  split_ifs with hrecurring
  · rw [wrap_of_lt (htime hrecurring)]
    have hset := h.setTimer (t := { s.objects i with next := now + (s.objects i).ms }) rfl rfl
      ⟨Nat.le_add_left _ _, htime hrecurring⟩
    refine ⟨hset.insert, fun j ↦ hset.mem_insert.trans ?_⟩
    rw [and_iff_left hrecurring]
    exact or_comm
  · exact ⟨h.drop, fun j ↦ ⟨.inl, fun hj ↦ hj.resolve_right fun hagain ↦ hrecurring hagain.2⟩⟩

/-- What the loop of `listExpiredCb` makes of the manager. -/
structure Renews (s s' : TimerManager κ) (now : ℕ) (expired : List ℕ) : Prop where
  objects : ∀ i, s'.objects i =
    if i ∈ expired then renewed (s.objects i) now else s.objects i
  timers : ∀ i, i ∈ s'.timers ↔ i ∈ s.timers ∨ i ∈ expired ∧ (s.objects i).recurring = true
  created : s'.created = s.created
  previouseTime : s'.previouseTime = s.previouseTime

theorem Outside.foldl_collect {expired : List ℕ} (h : s.Outside given expired) (now : ℕ)
    (htime : ∀ i ∈ expired, (s.objects i).recurring = true → now + (s.objects i).ms < 2 ^ 64)
    (cbs : List (Option κ)) :
    ∃ s', expired.foldl (collect now) (cbs, s) =
        (cbs ++ expired.map fun i ↦ (s.objects i).cb, s') ∧
      s'.Outside given [] ∧ s.Renews s' now expired := by
  induction expired generalizing s cbs with
  | nil =>
      refine ⟨s, by simp, h, fun i ↦ by simp, fun i ↦ by simp, rfl, rfl⟩
  | cons i expired ih =>
      have hi := List.nodup_cons.mp h.nodup
      obtain ⟨hrearm, htimers⟩ := h.rearm now (htime i List.mem_cons_self)
      obtain ⟨hobjects, hcreated, hprevious⟩ := s.rearm_objects now i
      have hself : (s.rearm now i).objects i = renewed (s.objects i) now := by
        rw [hobjects, Function.update_self]
      have hother : ∀ j, j ≠ i → (s.rearm now i).objects j = s.objects j := fun j hj ↦ by
        rw [hobjects, Function.update_of_ne hj]
      have hne : ∀ j ∈ expired, j ≠ i := fun j hj heq ↦ hi.1 (heq ▸ hj)
      obtain ⟨s', hfold, houtside, hrenews⟩ := ih hrearm (fun j hj ↦ by
        rw [hother j (hne j hj)]
        exact htime j (List.mem_cons_of_mem _ hj)) (cbs ++ [(s.objects i).cb])
      have hcbs : expired.map (fun j ↦ ((s.rearm now i).objects j).cb) =
          expired.map fun j ↦ (s.objects j).cb :=
        List.map_congr_left fun j hj ↦ by rw [hother j (hne j hj)]
      refine ⟨s', ?_, houtside, fun j ↦ ?_, fun j ↦ ?_, hrenews.created.trans hcreated,
        hrenews.previouseTime.trans hprevious⟩
      · rw [List.foldl_cons]
        refine hfold.trans ?_
        rw [hcbs, List.map_cons, List.append_assoc, List.singleton_append]
      · rw [hrenews.objects]
        by_cases hj : j = i
        · rw [hj, if_neg hi.1, if_pos List.mem_cons_self, hself]
        · rw [hother j hj]
          simp [hj]
      · rw [hrenews.timers, htimers, List.mem_cons]
        by_cases hj : j = i
        · simp [hj, hi.1]
        · rw [hother j hj]
          simp [hj]

/-- The timers before `it` are due, whatever the address of `now_timer` is. -/
theorem unexpired_split (s : TimerManager κ) (now probe : ℕ) :
    ∃ front, s.timers = front ++ s.unexpired now probe false ∧
      ∀ i ∈ front, (s.objects i).next ≤ now := by
  let nowTimer : Timer κ :=
    { address := probe
      recurring := false
      ms := 0
      next := now
      cb := none }
  let past : ℕ → Bool := fun i ↦ (s.objects i).less nowTimer
  let atNow : ℕ → Bool := fun i ↦ (s.objects i).next = now
  have hrest : s.unexpired now probe false = (s.timers.dropWhile past).dropWhile atNow := rfl
  rw [hrest]
  refine ⟨s.timers.takeWhile past ++ (s.timers.dropWhile past).takeWhile atNow, ?_, ?_⟩
  · rw [List.append_assoc, List.takeWhile_append_dropWhile, List.takeWhile_append_dropWhile]
  · intro i hi
    rcases List.mem_append.mp hi with hi | hi
    · have hpast : past i = true := List.mem_takeWhile_imp hi
      exact (Timer.less_iff.mp hpast).elim Nat.le_of_lt fun heq ↦ heq.1.le
    · have hnow : atNow i = true := List.mem_takeWhile_imp hi
      exact (of_decide_eq_true hnow).le

theorem Outside.lt_of_mem_unexpired (h : s.Outside given out) (now probe : ℕ) :
    ∀ i ∈ s.unexpired now probe false, now < (s.objects i).next := by
  let nowTimer : Timer κ :=
    { address := probe
      recurring := false
      ms := 0
      next := now
      cb := none }
  let atNow : ℕ → Bool := fun i ↦ (s.objects i).next = now
  have hfrom : ∀ i ∈ s.lowerBound nowTimer, now ≤ (s.objects i).next := by
    intro i hi
    have hnot := OrderedSet.not_before_of_mem_dropWhile h.ordered
      (fun a b hab hb ↦ Timer.less_trans hab hb) i hi
    rw [Timer.not_less_iff] at hnot
    exact hnot.elim Nat.le_of_lt fun heq ↦ heq.1.le
  have hordered : (s.lowerBound nowTimer).Pairwise fun i j ↦
      s.Before i j ∧ now ≤ (s.objects i).next :=
    (h.ordered.sublist (List.dropWhile_sublist _)).imp_of_mem fun hi _ hij ↦ ⟨hij, hfrom _ hi⟩
  have hcut : ∀ a b, s.Before a b ∧ now ≤ (s.objects a).next → atNow b = true →
      atNow a = true := by
    intro a b hab hb
    have hless := Timer.less_iff.mp hab.1
    have hb' := of_decide_eq_true hb
    exact decide_eq_true (by omega)
  intro i hi
  have hne := of_decide_eq_false (OrderedSet.not_before_of_mem_dropWhile hordered hcut i hi)
  have hle := hfrom i ((List.dropWhile_sublist _).subset hi)
  omega

theorem take_front {front back all : List ℕ} (h : all = front ++ back) :
    all.take (all.length - back.length) = front := by
  rw [h, List.length_append, Nat.add_sub_cancel, List.take_left]

/-- The timers that have expired are those that are due. -/
theorem Outside.takeExpired (h : s.Outside given []) (hclock : s.previouseTime ≤ now)
    (probe : ℕ) :
    ∃ p, s.takeExpired now probe =
        (s.due now,
          { s with
            timers := s.timers.filter fun i ↦ !decide ((s.objects i).next ≤ now)
            previouseTime := p }) ∧
      (p = s.previouseTime ∨ p = now) := by
  have hrollover : s.detectClockRolllover now = (false, { s with previouseTime := now }) := by
    rw [detectClockRolllover, decide_eq_false (Nat.not_lt.mpr hclock), Bool.false_and]
  obtain ⟨front, hsplit, hfront⟩ := s.unexpired_split now probe
  have hback := h.lt_of_mem_unexpired now probe
  have hhalves := OrderedSet.filter_of_append (p := fun i ↦ decide ((s.objects i).next ≤ now))
    (fun i hi ↦ decide_eq_true (hfront i hi))
    (fun i hi ↦ decide_eq_false (Nat.not_le.mpr (hback i hi)))
  rw [← hsplit] at hhalves
  have hdue : s.due now = front := hhalves.1
  rw [hdue, hhalves.2]
  unfold TimerManager.takeExpired
  cases hhead : s.timers.head? with
  | none =>
      have hnil := List.head?_eq_none_iff.mp hhead
      have hempty := hsplit.symm.trans hnil
      rw [List.append_eq_nil_iff] at hempty
      refine ⟨s.previouseTime, ?_, .inl rfl⟩
      rw [hempty.1, hempty.2, ← hnil]
  | some first =>
      refine ⟨now, ?_, .inr rfl⟩
      rw [hrollover]
      dsimp only
      split_ifs with hfirst
      · -- If the first timer is not due, none is.
        rw [Bool.not_false, Bool.true_and, decide_eq_true_eq] at hfirst
        have hnil : front = [] := by
          cases front with
          | nil => rfl
          | cons i front =>
              rw [hsplit, List.cons_append, List.head?_cons, Option.some_inj] at hhead
              exact absurd (hfront i List.mem_cons_self) (by rw [hhead]; omega)
        rw [hnil, List.nil_append] at hsplit
        rw [hnil, ← hsplit]
      · exact Prod.ext (take_front hsplit) rfl

/-- A timer that is due gives its callback and is due again later or dropped; the others stay
as they are. -/
structure ExpiresRight (s : TimerManager κ) (now probe : ℕ) : Prop where
  returned : (s.listExpiredCb now probe).1 = (s.due now).map fun i ↦ (s.objects i).cb
  inTurn : (s.due now).Pairwise fun i j ↦ (s.objects i).next ≤ (s.objects j).next
  once : (s.due now).Nodup
  rearmed : ∀ i ∈ s.due now, (s.objects i).recurring = true →
    i ∈ (s.listExpiredCb now probe).2.timers ∧
      (s.listExpiredCb now probe).2.objects i =
        { s.objects i with next := now + (s.objects i).ms }
  dropped : ∀ i ∈ s.due now, (s.objects i).recurring = false →
    i ∉ (s.listExpiredCb now probe).2.timers ∧
      (s.listExpiredCb now probe).2.objects i = { s.objects i with cb := none }
  others : ∀ i, i ∉ s.due now →
    (i ∈ (s.listExpiredCb now probe).2.timers ↔ i ∈ s.timers) ∧
      (s.listExpiredCb now probe).2.objects i = s.objects i

/-- The timers that are due are out of the set. -/
theorem Outside.taken (h : s.Outside given []) (now p : ℕ) :
    Outside
      { s with
        timers := s.timers.filter fun i ↦ !decide ((s.objects i).next ≤ now)
        previouseTime := p } given (s.due now) := by
  have hrest : ∀ i, i ∈ (s.timers.filter fun i ↦ !decide ((s.objects i).next ≤ now)) ↔
      i ∈ s.timers ∧ ¬ (s.objects i).next ≤ now := fun i ↦ by simp
  refine h.takeOut rfl rfl List.filter_sublist (fun i ↦ ?_) (fun i hi hmem ↦ ?_)
    (h.timers_nodup.filter _)
  · rw [live_nil]
    refine (or_congr (hrest i) mem_due).trans ?_
    tauto
  · exact ((hrest i).mp hmem).2 (mem_due.mp hi).2

/-- A timer stays in the set unless it is due and does not recur. -/
theorem Outside.exists_renewed (h : s.Outside given []) (hclock : s.previouseTime ≤ now)
    (htime : ∀ i ∈ s.due now, (s.objects i).recurring = true → now + (s.objects i).ms < 2 ^ 64)
    (probe : ℕ) :
    ∃ s', s.listExpiredCb now probe = ((s.due now).map fun i ↦ (s.objects i).cb, s') ∧
      s'.Outside given [] ∧ s.Onward s' now 0 ∧
      (∀ i, s'.objects i = if i ∈ s.due now then renewed (s.objects i) now else s.objects i) ∧
      ∀ i, i ∈ s'.timers ↔
        i ∈ s.timers ∧ (i ∈ s.due now → (s.objects i).recurring = true) := by
  obtain ⟨p, htake, hp⟩ := h.takeExpired hclock probe
  obtain ⟨s', hfold, houtside, hrenews⟩ := (h.taken now p).foldl_collect now htime []
  have hmem : ∀ i, i ∈ s'.timers ↔
      i ∈ s.timers ∧ (i ∈ s.due now → (s.objects i).recurring = true) := by
    intro i
    rw [hrenews.timers, List.mem_filter, mem_due]
    simp only [Bool.not_eq_true', decide_eq_false_iff_not]
    tauto
  refine ⟨s', ?_, houtside, ⟨hrenews.created, fun i hi ↦ .inl ((hmem i).mp hi).1, ?_⟩,
    hrenews.objects, hmem⟩
  · rw [TimerManager.listExpiredCb, htake]
    exact hfold
  · rw [hrenews.previouseTime]
    exact hp

theorem Outside.listExpiredCb (h : s.Outside given []) (hclock : s.previouseTime ≤ now)
    (htime : ∀ i ∈ s.due now, (s.objects i).recurring = true → now + (s.objects i).ms < 2 ^ 64)
    (probe : ℕ) :
    s.ExpiresRight now probe ∧ (s.listExpiredCb now probe).2.Outside given [] ∧
      s.Onward (s.listExpiredCb now probe).2 now 0 := by
  obtain ⟨s', hresult, houtside, honward, hobjects, hmem⟩ := h.exists_renewed hclock htime probe
  rw [hresult]
  refine ⟨⟨by rw [hresult], ?_, h.timers_nodup.filter _, ?_, ?_, ?_⟩, houtside, honward⟩
  · refine (h.ordered.sublist List.filter_sublist).imp fun {i j} hbefore ↦ ?_
    exact (Timer.less_iff.mp hbefore).elim Nat.le_of_lt fun heq ↦ heq.1.le
  · intro i hi hrecurring
    rw [hresult]
    refine ⟨(hmem i).mpr ⟨(mem_due.mp hi).1, fun _ ↦ hrecurring⟩, (hobjects i).trans ?_⟩
    rw [if_pos hi, renewed, if_pos hrecurring, wrap_of_lt (htime i hi hrecurring)]
  · intro i hi hrecurring
    have hnot : ¬ (s.objects i).recurring = true := by simp [hrecurring]
    rw [hresult]
    refine ⟨fun hin ↦ hnot (((hmem i).mp hin).2 hi), (hobjects i).trans ?_⟩
    rw [if_pos hi, renewed, if_neg hnot]
  · intro i hi
    rw [hresult]
    refine ⟨(hmem i).trans ?_, (hobjects i).trans (if_neg hi)⟩
    exact and_iff_left fun hdue ↦ absurd hdue hi

end TimerManager

end HttpRaftKv.Fiber
