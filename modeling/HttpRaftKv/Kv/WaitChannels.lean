import HttpRaftKv.Kv.HandlerMoves
import HttpRaftKv.Raft.Indices

/-!
# The wait channels of a server

A handler waits for its command on a channel that it makes under the index which
`Start` has returned.  The node never returns an index twice, also if it loses
its leadership and its entries are overwritten, because its last index never
decreases.  So no two handlers meet at one index: each of them makes its own
channel, waits on it, and deletes it.
-/

namespace HttpRaftKv.Kv

open Raft

/-! ## Channels and their makers -/

namespace Calls

variable {calls calls' : Calls} {h : ℕ} {handler : Handler}

/-- The index under which the handler `h` has a channel. -/
def serving (calls : Calls) (h : ℕ) : Option ℤ :=
  (calls.handlers h).bind fun handler ↦ handler.state.serving

def raftIndex (calls : Calls) (h : ℕ) : Option ℤ :=
  (calls.handlers h).bind fun handler ↦ handler.state.raftIndex

def looksInto (calls : Calls) (h : ℕ) : Option ℕ :=
  (calls.handlers h).bind fun handler ↦ handler.state.chan

theorem raftIndex_of_serving {index : ℤ} (hserving : calls.serving h = some index) :
    calls.raftIndex h = some index := by
  obtain ⟨handler, hhandler, hstate⟩ := Option.bind_eq_some_iff.mp hserving
  rw [raftIndex, hhandler]
  exact HandlerState.raftIndex_of_serving hstate

/-- A handler that looks into a channel has made it for its index. -/
theorem serving_of_looksInto {chan : ℕ} (hlooks : calls.looksInto h = some chan) :
    ∃ index, calls.serving h = some index := by
  obtain ⟨handler, hhandler, hstate⟩ := Option.bind_eq_some_iff.mp hlooks
  rw [serving, hhandler, Option.bind_some]
  cases hs : handler.state with
  | waiting index => exact ⟨index, rfl⟩
  | blocked index => exact ⟨index, rfl⟩
  | _ =>
      rw [hs] at hstate
      cases hstate

section setState

variable (calls h handler) (state : HandlerState) (k : ℕ)

theorem serving_setState : (calls.setState h handler state).serving k =
    if k = h then state.serving else calls.serving k := by
  unfold serving
  rw [handlers_setState]
  split_ifs <;> rfl

theorem raftIndex_setState : (calls.setState h handler state).raftIndex k =
    if k = h then state.raftIndex else calls.raftIndex k := by
  unfold raftIndex
  rw [handlers_setState]
  split_ifs <;> rfl

theorem looksInto_setState : (calls.setState h handler state).looksInto k =
    if k = h then state.chan else calls.looksInto k := by
  unfold looksInto
  rw [handlers_setState]
  split_ifs <;> rfl

end setState

/-- Every entry of the table belongs to the handler that has made its channel, which
serves that index, and no two handlers that run have the same index. -/
structure Exclusive (calls : Calls) (maker : ℕ → Option ℕ) : Prop where
  entry : ∀ index chan, calls.waitApplyCh index = some chan →
    ∃ h, maker chan = some h ∧ calls.serving h = some index
  serving : ∀ h index, calls.serving h = some index →
    ∃ chan, calls.waitApplyCh index = some chan ∧ maker chan = some h ∧
      calls.chans chan ≠ none ∧ ∀ chan', calls.looksInto h = some chan' → chan' = chan
  apart : ∀ h h' index, calls.raftIndex h = some index → calls.raftIndex h' = some index → h = h'
  fresh : ∀ chan, calls.freshChan ≤ chan → calls.chans chan = none

namespace Exclusive

variable {maker : ℕ → Option ℕ}

theorem init : (init : Calls).Exclusive maker where
  entry _ _ hentry := by cases hentry
  serving _ _ hserving := by cases hserving
  apart _ _ _ hindex := by cases hindex
  fresh _ _ := rfl

/-- A handler goes on, but it keeps its index and its channel. -/
theorem congr (hexclusive : calls.Exclusive maker) (htable : calls'.waitApplyCh = calls.waitApplyCh)
    (hserving : ∀ k, calls'.serving k = calls.serving k)
    (hindex : ∀ k, calls'.raftIndex k = calls.raftIndex k)
    (hlooks : ∀ k chan, calls'.looksInto k = some chan → calls.looksInto k = some chan)
    (hchans : ∀ chan, calls'.chans chan = none ↔ calls.chans chan = none)
    (hfresh : calls'.freshChan = calls.freshChan) : calls'.Exclusive maker where
  entry index chan hentry := by
    rw [htable] at hentry
    obtain ⟨k, hmaker, hk⟩ := hexclusive.entry index chan hentry
    exact ⟨k, hmaker, (hserving k).trans hk⟩
  serving k index hk := by
    rw [hserving] at hk
    obtain ⟨chan, hentry, hmaker, halive, hown⟩ := hexclusive.serving k index hk
    refine ⟨chan, ?_, hmaker, ?_, fun chan' hchan' ↦ hown chan' (hlooks k chan' hchan')⟩
    · rw [htable]
      exact hentry
    · exact fun hnone ↦ halive ((hchans chan).mp hnone)
  apart k k' index hk hk' := by
    rw [hindex] at hk hk'
    exact hexclusive.apart k k' index hk hk'
  fresh chan hchan := by
    rw [hfresh] at hchan
    exact (hchans chan).mpr (hexclusive.fresh chan hchan)

/-- The same for a handler that changes its state only. -/
theorem goTo (hexclusive : calls.Exclusive maker) {state : HandlerState}
    (hserving : state.serving = calls.serving h) (hindex : state.raftIndex = calls.raftIndex h)
    (hlooks : ∀ chan, state.chan = some chan → calls.looksInto h = some chan) :
    (calls.setState h handler state).Exclusive maker := by
  refine hexclusive.congr rfl (fun k ↦ ?_) (fun k ↦ ?_) (fun k chan hchan ↦ ?_)
    (fun _ ↦ Iff.rfl) rfl
  · rw [serving_setState]
    split_ifs with hk
    · rw [hk, hserving]
    · rfl
  · rw [raftIndex_setState]
    split_ifs with hk
    · rw [hk, hindex]
    · rfl
  · rw [looksInto_setState] at hchan
    split_ifs at hchan with hk
    · rw [hk]
      exact hlooks chan hchan
    · exact hchan

/-- `Start` returns an index that nobody has. -/
theorem accepted (hexclusive : calls.Exclusive maker) {index : ℤ}
    (hnone : calls.serving h = none) (hfresh : ∀ k, calls.raftIndex k ≠ some index) :
    (calls.setState h handler (.accepted index)).Exclusive maker := by
  have hserving : ∀ k, (calls.setState h handler (.accepted index)).serving k =
      calls.serving k := by
    intro k
    rw [serving_setState]
    split_ifs with hk
    · rw [hk, hnone]
      rfl
    · rfl
  refine ⟨?_, ?_, ?_, hexclusive.fresh⟩
  · intro index' chan hentry
    obtain ⟨k, hmaker, hk⟩ := hexclusive.entry index' chan hentry
    exact ⟨k, hmaker, (hserving k).trans hk⟩
  · intro k index' hk
    rw [hserving] at hk
    obtain ⟨chan, hentry, hmaker, halive, hown⟩ := hexclusive.serving k index' hk
    refine ⟨chan, hentry, hmaker, halive, fun chan' hchan' ↦ hown chan' ?_⟩
    rw [looksInto_setState] at hchan'
    split_ifs at hchan' with hkh
    · cases hchan'
    · exact hchan'
  · intro k k' index' hk hk'
    rw [raftIndex_setState] at hk hk'
    split_ifs at hk hk' with hkh hkh' hkh'
    · exact hkh.trans hkh'.symm
    · cases Option.some.inj hk
      exact absurd hk' (hfresh k')
    · cases Option.some.inj hk'
      exact absurd hk (hfresh k)
    · exact hexclusive.apart k k' index' hk hk'

/-- A handler that has not opened its channel yet finds no entry. -/
theorem entry_eq_none (hexclusive : calls.Exclusive maker) {index : ℤ}
    (hindex : calls.raftIndex h = some index) (hnone : calls.serving h = none) :
    calls.waitApplyCh index = none := by
  rw [Option.eq_none_iff_forall_ne_some]
  intro chan hentry
  obtain ⟨k, -, hk⟩ := hexclusive.entry index chan hentry
  cases hexclusive.apart h k index hindex (raftIndex_of_serving hk)
  rw [hnone] at hk
  cases hk

/-- A channel in use is not a fresh one. -/
theorem ne_freshChan (hexclusive : calls.Exclusive maker) {chan : ℕ}
    (halive : calls.chans chan ≠ none) : chan ≠ calls.freshChan := by
  rintro rfl
  exact halive (hexclusive.fresh _ le_rfl)

/-- A handler makes a channel under its index. -/
theorem opened (hexclusive : calls.Exclusive maker) {index : ℤ}
    (hindex : calls.raftIndex h = some index) (hnone : calls.serving h = none) :
    ({ calls with
      waitApplyCh := Function.update calls.waitApplyCh index (some calls.freshChan)
      chans := Function.update calls.chans calls.freshChan (some [])
      freshChan := calls.freshChan + 1 }.setState h handler
        (.waiting index calls.freshChan)).Exclusive
      (Function.update maker calls.freshChan (some h)) := by
  refine ⟨?_, ?_, ?_, ?_⟩
  · intro index' chan hentry
    change Function.update calls.waitApplyCh index (some calls.freshChan) index' = some chan
      at hentry
    by_cases hii : index' = index
    · rw [hii, Function.update_self] at hentry
      cases Option.some.inj hentry
      refine ⟨h, Function.update_self .., ?_⟩
      rw [serving_setState, if_pos rfl, hii]
      rfl
    · rw [Function.update_of_ne hii] at hentry
      obtain ⟨k, hmaker, hk⟩ := hexclusive.entry index' chan hentry
      obtain ⟨chan', hentry', -, halive, -⟩ := hexclusive.serving k index' hk
      cases Option.some.inj (hentry.symm.trans hentry')
      have hkh : k ≠ h := by
        rintro rfl
        rw [hnone] at hk
        cases hk
      refine ⟨k, ?_, ?_⟩
      · rw [Function.update_of_ne (hexclusive.ne_freshChan halive)]
        exact hmaker
      · rw [serving_setState, if_neg hkh]
        exact hk
  · intro k index' hk
    rw [serving_setState] at hk
    rw [looksInto_setState]
    change ∃ chan, Function.update calls.waitApplyCh index (some calls.freshChan) index' =
        some chan ∧ Function.update maker calls.freshChan (some h) chan = some k ∧
      Function.update calls.chans calls.freshChan (some []) chan ≠ none ∧ _
    split_ifs at hk ⊢ with hkh
    · cases Option.some.inj hk
      refine ⟨calls.freshChan, Function.update_self .., ?_, ?_, ?_⟩
      · rw [Function.update_self, hkh]
      · rw [Function.update_self]
        exact nofun
      · exact fun chan' hchan' ↦ (Option.some.inj hchan').symm
    · have hk : calls.serving k = some index' := hk
      have hii : index' ≠ index := by
        rintro rfl
        exact hkh (hexclusive.apart k h index' (raftIndex_of_serving hk) hindex)
      obtain ⟨chan, hentry, hmaker, halive, hown⟩ := hexclusive.serving k index' hk
      have hfresh := hexclusive.ne_freshChan halive
      refine ⟨chan, ?_, ?_, ?_, hown⟩
      · rwa [Function.update_of_ne hii]
      · rwa [Function.update_of_ne hfresh]
      · rwa [Function.update_of_ne hfresh]
  · have hsame : ∀ k, ({ calls with
        waitApplyCh := Function.update calls.waitApplyCh index (some calls.freshChan)
        chans := Function.update calls.chans calls.freshChan (some [])
        freshChan := calls.freshChan + 1 }.setState h handler
          (.waiting index calls.freshChan)).raftIndex k = calls.raftIndex k := by
      intro k
      rw [raftIndex_setState]
      split_ifs with hk
      · rw [hk, hindex]
        rfl
      · rfl
    intro k k' index' hk hk'
    rw [hsame] at hk hk'
    exact hexclusive.apart k k' index' hk hk'
  · intro chan hchan
    change calls.freshChan + 1 ≤ chan at hchan
    change Function.update calls.chans calls.freshChan (some []) chan = none
    rw [Function.update_of_ne (by omega)]
    exact hexclusive.fresh chan (by omega)

/-- What a handler deletes is the channel it has made. -/
theorem close_eq (hexclusive : calls.Exclusive maker) {index : ℤ} {reply : Reply}
    (hhandler : calls.handlers h = some handler) (hstate : handler.state = .closing index reply) :
    ∃ chan, calls.waitApplyCh index = some chan ∧ maker chan = some h ∧
      calls.close h = { calls with
        waitApplyCh := Function.update calls.waitApplyCh index none
        chans := Function.update calls.chans chan none }.setState h handler (.replied reply) := by
  have hserving : calls.serving h = some index := by
    rw [Calls.serving, hhandler, Option.bind_some, hstate]
    rfl
  obtain ⟨chan, hentry, hmaker, -, -⟩ := hexclusive.serving h index hserving
  refine ⟨chan, hentry, hmaker, ?_⟩
  simp [close, hhandler, hstate, hentry]

theorem closed (hexclusive : calls.Exclusive maker) {index : ℤ} {chan : ℕ} {reply : Reply}
    (hserving : calls.serving h = some index) (hmaker : maker chan = some h) :
    ({ calls with
      waitApplyCh := Function.update calls.waitApplyCh index none
      chans := Function.update calls.chans chan none }.setState h handler
        (.replied reply)).Exclusive maker := by
  -- the other handlers have other indices and other channels
  have hother : ∀ k index', k ≠ h → calls.serving k = some index' → index' ≠ index := by
    rintro k index' hkh hk rfl
    exact hkh (hexclusive.apart k h index' (raftIndex_of_serving hk)
      (raftIndex_of_serving hserving))
  refine ⟨?_, ?_, ?_, ?_⟩
  · intro index' chan' hentry'
    change Function.update calls.waitApplyCh index none index' = some chan' at hentry'
    by_cases hii : index' = index
    · rw [hii, Function.update_self] at hentry'
      cases hentry'
    · rw [Function.update_of_ne hii] at hentry'
      obtain ⟨k, hmaker', hk⟩ := hexclusive.entry index' chan' hentry'
      have hkh : k ≠ h := by
        rintro rfl
        rw [hserving] at hk
        exact hii (Option.some.inj hk).symm
      refine ⟨k, hmaker', ?_⟩
      rw [serving_setState, if_neg hkh]
      exact hk
  · intro k index' hk
    rw [serving_setState] at hk
    rw [looksInto_setState]
    change ∃ chan', Function.update calls.waitApplyCh index none index' = some chan' ∧
      maker chan' = some k ∧ Function.update calls.chans chan none chan' ≠ none ∧ _
    split_ifs at hk ⊢ with hkh
    · cases hk
    · have hk : calls.serving k = some index' := hk
      obtain ⟨chan', hentry', hmaker', halive, hown⟩ := hexclusive.serving k index' hk
      have hcc : chan' ≠ chan := by
        rintro rfl
        exact hkh (Option.some.inj (hmaker'.symm.trans hmaker))
      refine ⟨chan', ?_, hmaker', ?_, hown⟩
      · rwa [Function.update_of_ne (hother k index' hkh hk)]
      · rwa [Function.update_of_ne hcc]
  · intro k k' index' hk hk'
    rw [raftIndex_setState] at hk hk'
    split_ifs at hk hk' with hkh hkh' hkh'
    · cases hk
    · cases hk
    · cases hk'
    · exact hexclusive.apart k k' index' hk hk'
  · intro chan' hchan'
    change Function.update calls.chans chan none chan' = none
    by_cases hcc : chan' = chan
    · rw [hcc, Function.update_self]
    · rw [Function.update_of_ne hcc]
      exact hexclusive.fresh chan' hchan'

end Exclusive

end Calls

/-- The handler that may make a channel in a step. -/
def Action.opens : Action → Option ℕ
  | .openChan h => some h
  | _ => none

/-- The makers of the channels after a step. -/
def Calls.makers (calls calls' : Calls) (a : Action) (maker : ℕ → Option ℕ) : ℕ → Option ℕ :=
  if calls'.freshChan = calls.freshChan then maker
  else Function.update maker calls.freshChan a.opens

namespace Server.Move

variable {s : Server} {a : Action} {calls : Calls} {maker : ℕ → Option ℕ}

/-- The step lemma of the handlers. -/
theorem exclusive (hmove : Move s a calls) (hexclusive : s.calls.Exclusive maker)
    (hstart : ∀ h index, a = .start h (some index) → ∀ k, s.calls.raftIndex k ≠ some index) :
    calls.Exclusive (s.calls.makers calls a maker) := by
  have hsame : ∀ {calls' : Calls}, calls'.freshChan = s.calls.freshChan →
      calls'.Exclusive maker → calls'.Exclusive (s.calls.makers calls' a maker) := by
    intro calls' hfresh hcalls'
    rwa [Calls.makers, if_pos hfresh]
  -- what is known of a handler is read from its state
  have hread : ∀ {h : ℕ} {handler : Handler}, s.calls.handlers h = some handler →
      s.calls.serving h = handler.state.serving ∧
        s.calls.raftIndex h = handler.state.raftIndex ∧
        s.calls.looksInto h = handler.state.chan := by
    intro h handler hhandler
    simp [Calls.serving, Calls.raftIndex, Calls.looksInto, hhandler]
  cases hmove with
  | same => exact hsame rfl hexclusive
  | called _ h handler hnone =>
      refine hsame rfl (hexclusive.goTo ?_ ?_ nofun)
      · simp [Calls.serving, hnone, HandlerState.serving]
      · simp [Calls.raftIndex, hnone, HandlerState.raftIndex, HandlerState.serving]
  | refused h handler reply hhandler hstate =>
      obtain ⟨hserving, hindex, -⟩ := hread hhandler
      rw [hstate] at hserving hindex
      exact hsame rfl (hexclusive.goTo hserving.symm hindex.symm nofun)
  | accepted h handler index hhandler hstate =>
      obtain ⟨hserving, -, -⟩ := hread hhandler
      rw [hstate] at hserving
      exact hsame rfl (hexclusive.accepted hserving (hstart h index rfl))
  | joined h handler index chan hhandler hstate hentry =>
      obtain ⟨hserving, hindex, -⟩ := hread hhandler
      rw [hstate] at hserving hindex
      rw [hexclusive.entry_eq_none hindex hserving] at hentry
      cases hentry
  | opened h handler index hhandler hstate hentry =>
      obtain ⟨hserving, hindex, -⟩ := hread hhandler
      rw [hstate] at hserving hindex
      rw [Calls.makers, if_neg]
      · exact hexclusive.opened hindex hserving
      · exact Nat.succ_ne_self _
  | moved _ h handler state index hhandler hserving hserving' hchan =>
      obtain ⟨hold, hindex, hlooks⟩ := hread hhandler
      refine hsame rfl (hexclusive.goTo ?_ ?_ fun chan hstate ↦ ?_)
      · rw [hold, hserving, hserving']
      · rw [hindex, HandlerState.raftIndex_of_serving hserving,
          HandlerState.raftIndex_of_serving hserving']
      · rw [hlooks]
        exact hchan chan hstate
  | taken h handler state index chan op queue hhandler hserving hserving' hchan hqueue =>
      obtain ⟨hold, hindex, hlooks⟩ := hread hhandler
      have hpopped : Calls.Exclusive { s.calls with
          chans := Function.update s.calls.chans chan (some queue) } maker := by
        refine hexclusive.congr rfl (fun _ ↦ rfl) (fun _ ↦ rfl) (fun _ _ hc ↦ hc) (fun chan' ↦ ?_) rfl
        by_cases hcc : chan' = chan
        · simp [hcc, hqueue]
        · simp [Function.update_of_ne hcc]
      refine hsame rfl (hpopped.goTo ?_ ?_ fun chan' hstate ↦ ?_)
      · exact hserving'.trans (hold.trans hserving).symm
      · rw [HandlerState.raftIndex_of_serving hserving']
        exact (hindex.trans (HandlerState.raftIndex_of_serving hserving)).symm
      · rw [hchan] at hstate
        cases hstate
  | closed h handler index reply hhandler hstate =>
      obtain ⟨hserving, -, -⟩ := hread hhandler
      rw [hstate] at hserving
      obtain ⟨chan, hentry, hmaker, hclose⟩ := hexclusive.close_eq hhandler hstate
      rw [hclose]
      exact hsame rfl (hexclusive.closed hserving hmaker)
  | pushed message op chan queue hloop hentry hqueue =>
      refine hsame rfl (hexclusive.congr rfl (fun _ ↦ rfl) (fun _ ↦ rfl) (fun _ _ hc ↦ hc)
        (fun chan' ↦ ?_) rfl)
      by_cases hcc : chan' = chan
      · simp [hcc, hqueue]
      · simp [Function.update_of_ne hcc]

/-- A handler that runs has kept its index, or `Start` has just returned it. -/
theorem raftIndex_cases (hmove : Move s a calls) {k : ℕ} {index : ℤ}
    (hindex : calls.raftIndex k = some index) :
    s.calls.raftIndex k = some index ∨ a = .start k (some index) := by
  -- a handler that acts keeps its index or gives it up
  have hset : ∀ {h : ℕ} {handler : Handler} {state : HandlerState} {table : ℤ → Option ℕ}
      {chans : ℕ → Option (List Op)} {fresh : ℕ},
      (Calls.setState { s.calls with
        waitApplyCh := table, chans := chans, freshChan := fresh } h handler state).raftIndex k =
          some index →
      (state.raftIndex = some index → s.calls.raftIndex h = some index ∨
        a = .start h (some index)) →
      s.calls.raftIndex k = some index ∨ a = .start k (some index) := by
    intro h handler state table chans fresh hk hstate
    rw [Calls.raftIndex_setState] at hk
    split_ifs at hk with hkh
    · rw [hkh]
      exact hstate hk
    · exact .inl hk
  have hread : ∀ {h : ℕ} {handler : Handler} {state : HandlerState} {index' : ℤ},
      s.calls.handlers h = some handler → handler.state.raftIndex = some index' →
      state.raftIndex = some index' → state.raftIndex = some index →
      s.calls.raftIndex h = some index ∨ a = .start h (some index) := by
    intro h handler state index' hhandler hold hnew hstate
    refine .inl ?_
    rw [Calls.raftIndex, hhandler, Option.bind_some, hold, ← hnew, hstate]
  cases hmove with
  | same => exact .inl hindex
  | called => exact hset hindex nofun
  | refused => exact hset hindex nofun
  | accepted h handler index' => exact hset hindex fun heq ↦ .inr (by rw [Option.some.inj heq])
  | joined h handler index' chan hhandler hstate =>
      exact hset hindex (hread hhandler (by rw [hstate]; rfl) rfl)
  | opened h handler index' hhandler hstate =>
      exact hset hindex (hread hhandler (by rw [hstate]; rfl) rfl)
  | moved _ h handler state index' hhandler hserving hserving' =>
      exact hset hindex (hread hhandler (HandlerState.raftIndex_of_serving hserving)
        (HandlerState.raftIndex_of_serving hserving'))
  | taken h handler state index' chan op queue hhandler hserving hserving' =>
      exact hset hindex (hread hhandler (HandlerState.raftIndex_of_serving hserving)
        (HandlerState.raftIndex_of_serving hserving'))
  | closed h handler index' reply hhandler hstate =>
      have hclose : s.calls.close h = Calls.setState { s.calls with
          waitApplyCh := (s.calls.close h).waitApplyCh, chans := (s.calls.close h).chans,
          freshChan := s.calls.freshChan } h handler (.replied reply) := by
        simp [Calls.close, hhandler, hstate, Calls.setState]
      rw [hclose] at hindex
      exact hset hindex nofun
  | pushed => exact .inl hindex

/-- A channel is deleted only by the handler that has made it. -/
theorem deletes (hmove : Move s a calls) (hexclusive : s.calls.Exclusive maker) {chan : ℕ}
    (halive : s.calls.chans chan ≠ none) (hdeleted : calls.chans chan = none) :
    ∃ h, a = .close h ∧ maker chan = some h := by
  have hupdate : ∀ {chan' : ℕ} {queue : List Op},
      Function.update s.calls.chans chan' (some queue) chan ≠ none := by
    intro chan' queue hnone
    by_cases hcc : chan = chan'
    · rw [hcc, Function.update_self] at hnone
      cases hnone
    · rw [Function.update_of_ne hcc] at hnone
      exact halive hnone
  cases hmove with
  | closed h handler index reply hhandler hstate =>
      obtain ⟨chan', hentry, hmaker, hclose⟩ := hexclusive.close_eq hhandler hstate
      rw [hclose] at hdeleted
      change Function.update s.calls.chans chan' none chan = none at hdeleted
      by_cases hcc : chan = chan'
      · exact ⟨h, rfl, hcc ▸ hmaker⟩
      · rw [Function.update_of_ne hcc] at hdeleted
        exact absurd hdeleted halive
  | opened => exact absurd hdeleted hupdate
  | taken => exact absurd hdeleted hupdate
  | pushed => exact absurd hdeleted hupdate
  | _ => exact absurd hdeleted halive

/-- A command is pushed only to a handler that has started its index. -/
theorem pushes (hmove : Move s a calls) (hexclusive : s.calls.Exclusive maker) {chan : ℕ}
    {queue : List Op} {op : Op} (hbefore : s.calls.chans chan = some queue)
    (hafter : calls.chans chan = some (queue ++ [op])) :
    ∃ message h, s.loop = .sending message op ∧ maker chan = some h ∧
      s.calls.serving h = some message.commandIndex := by
  have hsame : s.calls.chans chan ≠ some (queue ++ [op]) := by
    intro heq
    rw [hbefore] at heq
    have := congrArg List.length (Option.some.inj heq)
    simp at this
  cases hmove with
  | opened =>
      have halive : s.calls.chans chan ≠ none := by
        rw [hbefore]
        exact nofun
      have hcc := hexclusive.ne_freshChan halive
      change Function.update s.calls.chans s.calls.freshChan (some []) chan = _ at hafter
      rw [Function.update_of_ne hcc] at hafter
      exact absurd hafter hsame
  | taken h handler state index chan' op' queue' hhandler hserving hserving' hchan hqueue =>
      change Function.update s.calls.chans chan' (some queue') chan = _ at hafter
      by_cases hcc : chan = chan'
      · rw [hcc, Function.update_self] at hafter
        rw [hcc, hqueue] at hbefore
        have hlen := congrArg List.length (Option.some.inj hafter)
        have hlen' := congrArg List.length (Option.some.inj hbefore)
        simp at hlen hlen'
        omega
      · rw [Function.update_of_ne hcc] at hafter
        exact absurd hafter hsame
  | closed h handler index reply hhandler hstate =>
      obtain ⟨chan', hentry, hmaker, hclose⟩ := hexclusive.close_eq hhandler hstate
      rw [hclose] at hafter
      change Function.update s.calls.chans chan' none chan = _ at hafter
      by_cases hcc : chan = chan'
      · rw [hcc, Function.update_self] at hafter
        cases hafter
      · rw [Function.update_of_ne hcc] at hafter
        exact absurd hafter hsame
  | pushed message op' chan' queue' hloop hentry hqueue =>
      change Function.update s.calls.chans chan' (some (queue' ++ [op'])) chan = _ at hafter
      by_cases hcc : chan = chan'
      · subst hcc
        rw [hbefore] at hqueue
        cases Option.some.inj hqueue
        rw [Function.update_self] at hafter
        have hop : op' = op := by simpa using hafter
        obtain ⟨h, hmaker, hserving⟩ := hexclusive.entry _ _ hentry
        exact ⟨message, h, hop ▸ hloop, hmaker, hserving⟩
      · rw [Function.update_of_ne hcc] at hafter
        exact absurd hafter hsame
  | _ => exact absurd hafter hsame

end Server.Move

/-! ## A server on a node of a cluster -/

/-- A server and the cluster of its node.  `maker` is not part of the program: it
remembers which handler has made a channel. -/
structure Member (n : ℕ) where
  cluster : Cluster n
  server : Server
  maker : ℕ → Option ℕ

/-- A step of the cluster, a call of `Start` by a handler, or another step of the
server. -/
inductive MemberStep (n : ℕ)
  | raft (a : Raft.Action n)
  | start (h : ℕ)
  | serve (a : Action)

def Action.isStart : Action → Bool
  | .start _ _ => true
  | _ => false

namespace Member

variable {n : ℕ}

def boot (kv : KvServer) : Member n where
  cluster := .init
  server := .boot kv
  maker := fun _ ↦ none

variable [TextArchive (BoostPersistRaftNode n)] [TextArchive Op]
  [TextArchive (SkipListDump String String)] [TextArchive KvSnapshot]

def serve (cmds : List ApplyMsg) (m : Member n) (a : Action) : Member n :=
  let server := m.server.step cmds a
  { m with server := server, maker := m.server.calls.makers server.calls a m.maker }

/-- The handler `h` calls `Start` on its node. -/
def start (me : Fin n) (cmds : List ApplyMsg) (m : Member n) (h : ℕ) : Member n :=
  match m.server.calls.handlers h with
  | some handler =>
      if handler.state = .called then
        let command := TextArchive.save handler.op
        match (m.cluster.nodes me).start command with
        | some (_, log) =>
            { m with cluster := m.cluster.step (.start me command) }.serve cmds
              (.start h (some log.logindex))
        | none => m.serve cmds (.start h none)
      else
        m
  | none => m

/-- A process that has exited takes no steps. -/
def step (me : Fin n) (cmds : List ApplyMsg) (m : Member n) : MemberStep n → Member n
  | .raft a => { m with cluster := m.cluster.step a }
  | .start h =>
      if m.cluster.exited me = false ∧ m.server.terminated = false then m.start me cmds h else m
  | .serve a =>
      if m.cluster.exited me = false ∧ a.isStart = false then m.serve cmds a else m

def run (me : Fin n) (cmds : List ApplyMsg) (kv : KvServer) (as : List (MemberStep n)) : Member n :=
  Runs.run (step me cmds) (boot kv) as

/-- The indices of the handlers are ones that `Start` has returned. -/
structure Sound (me : Fin n) (m : Member n) : Prop where
  ordered : m.cluster.Ordered
  starts : m.cluster.StartsAscending me
  calls : m.server.calls.Exclusive m.maker
  bounded : ∀ h index, m.server.calls.raftIndex h = some index →
    index ≤ (m.cluster.nodes me).getLastLogIndex

variable {me : Fin n} {cmds : List ApplyMsg} {m : Member n}

omit [TextArchive Op] [TextArchive (SkipListDump String String)] [TextArchive KvSnapshot] in
theorem Sound.raft (hsound : m.Sound me) (a : Raft.Action n) :
    Sound me { m with cluster := m.cluster.step a } where
  ordered := hsound.ordered.step (hsound.ordered.step_spec a)
  starts := hsound.starts.step hsound.ordered (hsound.ordered.step_spec a)
  calls := hsound.calls
  bounded h index hindex := by
    have hlast := ((hsound.ordered.step_spec a).evolves hsound.ordered me).last_le
    have := hsound.bounded h index hindex
    dsimp only
    omega

omit [TextArchive (BoostPersistRaftNode n)] in
theorem Sound.serve (hsound : m.Sound me) {a : Action}
    (hstart : ∀ h index, a = .start h (some index) →
      (∀ k, m.server.calls.raftIndex k ≠ some index) ∧
        index ≤ (m.cluster.nodes me).getLastLogIndex) : (m.serve cmds a).Sound me where
  ordered := hsound.ordered
  starts := hsound.starts
  calls := (Server.step_move cmds m.server a).exclusive hsound.calls
    fun h index ha ↦ (hstart h index ha).1
  bounded h index hindex := by
    rcases (Server.step_move cmds m.server a).raftIndex_cases hindex with hold | hnew
    · exact hsound.bounded h index hold
    · exact (hstart h index hnew).2

omit [TextArchive Op] [TextArchive (SkipListDump String String)] [TextArchive KvSnapshot] in
/-- `Start` returns the next index, which then is the last one of the log. -/
theorem start_index (hord : m.cluster.Ordered) (hexited : m.cluster.exited me = false)
    {command : String} {rf : Node n} {log : LogEntry}
    (hstart : (m.cluster.nodes me).start command = some (rf, log)) :
    log.logindex = (m.cluster.nodes me).getLastLogIndex + 1 ∧
      ((m.cluster.step (.start me command)).nodes me).getLastLogIndex =
        (m.cluster.nodes me).getLastLogIndex + 1 := by
  have hnode : (m.cluster.step (.start me command)).nodes me = rf := by
    simp [Cluster.step, Cluster.next, hexited, hstart]
  obtain ⟨-, hlog, ps, rfl⟩ := Node.start_eq_some hstart
  have hindexed := (hord.node me).indexed
  have hlast : log.logindex = (m.cluster.nodes me).getLastLogIndex + 1 := by rw [hlog]
  refine ⟨hlast, ?_⟩
  rw [hnode, (hindexed.snoc hlast).getLastLogIndex_eq, hindexed.getLastLogIndex_eq,
    List.length_append, List.length_singleton]
  rfl

theorem Sound.start (hsound : m.Sound me) (hexited : m.cluster.exited me = false) (h : ℕ) :
    (m.start me cmds h).Sound me := by
  unfold Member.start
  split
  · rename_i handler hhandler
    split_ifs with hstate
    · dsimp only
      split
      · rename_i rf log hstart
        obtain ⟨hindex, hlast⟩ := start_index hsound.ordered hexited hstart
        apply (hsound.raft _).serve
        intro h' index ha
        cases ha
        refine ⟨fun k hk ↦ ?_, ?_⟩
        · have := hsound.bounded k _ hk
          omega
        · dsimp only
          omega
      · exact hsound.serve nofun
    · exact hsound
  · exact hsound

theorem Sound.step (hsound : m.Sound me) (a : MemberStep n) : (m.step me cmds a).Sound me := by
  cases a with
  | raft a => exact hsound.raft a
  | start h =>
      simp only [Member.step]
      split_ifs with hruns
      · exact hsound.start hruns.1 h
      · exact hsound
  | serve a =>
      simp only [Member.step]
      split_ifs with hruns
      · apply hsound.serve
        rintro h index rfl
        cases hruns.2
      · exact hsound

omit [TextArchive (BoostPersistRaftNode n)] [TextArchive Op]
  [TextArchive (SkipListDump String String)] [TextArchive KvSnapshot] in
theorem sound_boot (me : Fin n) (kv : KvServer) : (boot kv : Member n).Sound me where
  ordered := Cluster.ordered_init
  starts := ⟨List.Pairwise.nil, fun _ h ↦ by cases h⟩
  calls := .init
  bounded _ _ h := by cases h

theorem sound_run (me : Fin n) (cmds : List ApplyMsg) (kv : KvServer) (as : List (MemberStep n)) :
    (run me cmds kv as).Sound me := by
  refine Runs.invariant_of_step (step me cmds) (P := fun _ m ↦ m.Sound me) ?_ ?_ as
  · exact sound_boot me kv
  · exact fun _ a hsound ↦ hsound.step a

/-- What a step of the member does to the handlers is what a step of the server does. -/
theorem step_move (me : Fin n) (cmds : List ApplyMsg) (m : Member n) (e : MemberStep n) :
    ∃ a, Server.Move m.server a (m.step me cmds e).server.calls ∧
      ∀ h, a = .close h → e = .serve (.close h) := by
  cases e with
  | raft => exact ⟨.pop, .same _, nofun⟩
  | start h =>
      have hserve : ∀ (m' : Member n) (raftIndex : Option ℤ), m'.server = m.server →
          ∃ a, Server.Move m.server a (m'.serve cmds (.start h raftIndex)).server.calls ∧
            ∀ k, a ≠ .close k := by
        intro m' raftIndex hserver
        rw [← hserver]
        exact ⟨_, Server.step_move cmds m'.server _, nofun⟩
      unfold Member.step
      dsimp only
      split_ifs
      · unfold Member.start
        split
        · split_ifs
          · dsimp only
            split
            · exact hserve _ _ rfl
            · exact hserve m none rfl
          · exact ⟨.pop, .same _, nofun⟩
        · exact ⟨.pop, .same _, nofun⟩
      · exact ⟨.pop, .same _, nofun⟩
  | serve a =>
      unfold Member.step
      dsimp only
      split_ifs
      · exact ⟨a, Server.step_move cmds m.server a, fun h ha ↦ by rw [ha]⟩
      · exact ⟨.pop, .same _, nofun⟩

/-- In every run, `Start` returns larger and larger indices, every entry of the table
belongs to exactly one handler that runs, which waits on no other channel, a channel is
deleted only by the handler that has made it, and a command is pushed only to the handler
that has started its index. -/
theorem wait_channels_not_shared (me : Fin n) (cmds : List ApplyMsg) (kv : KvServer)
    (as : List (MemberStep n)) :
    ((run me cmds kv as).cluster.startedOn me).Pairwise (· < ·) ∧
    (∀ index chan, (run me cmds kv as).server.calls.waitApplyCh index = some chan →
      ∃ h, (run me cmds kv as).maker chan = some h ∧
        ∀ k, (run me cmds kv as).server.calls.serving k = some index ↔ k = h) ∧
    (∀ h chan, (run me cmds kv as).server.calls.looksInto h = some chan →
      (run me cmds kv as).maker chan = some h ∧
        (run me cmds kv as).server.calls.chans chan ≠ none) ∧
    (∀ us e, us ++ [e] <+: as → ∀ chan, (run me cmds kv us).server.calls.chans chan ≠ none →
      (run me cmds kv (us ++ [e])).server.calls.chans chan = none →
      ∃ h, e = .serve (.close h) ∧ (run me cmds kv us).maker chan = some h) ∧
    ∀ us e, us ++ [e] <+: as → ∀ chan queue op,
      (run me cmds kv us).server.calls.chans chan = some queue →
      (run me cmds kv (us ++ [e])).server.calls.chans chan = some (queue ++ [op]) →
      ∃ message h, (run me cmds kv us).server.loop = .sending message op ∧
        (run me cmds kv us).maker chan = some h ∧
        (run me cmds kv us).server.calls.serving h = some message.commandIndex := by
  have hsound := sound_run me cmds kv as
  refine ⟨hsound.starts.ascending, ?_, ?_, ?_, ?_⟩
  · intro index chan hentry
    obtain ⟨h, hmaker, hserving⟩ := hsound.calls.entry index chan hentry
    refine ⟨h, hmaker, fun k ↦ ⟨fun hk ↦ ?_, fun hk ↦ hk ▸ hserving⟩⟩
    exact hsound.calls.apart k h index (Calls.raftIndex_of_serving hk)
      (Calls.raftIndex_of_serving hserving)
  · intro h chan hlooks
    obtain ⟨index, hserving⟩ : ∃ index, (run me cmds kv as).server.calls.serving h = some index :=
      Calls.serving_of_looksInto hlooks
    obtain ⟨chan', -, hmaker, halive, hown⟩ := hsound.calls.serving h index hserving
    cases hown chan hlooks
    exact ⟨hmaker, halive⟩
  · intro us e _ chan halive hdeleted
    obtain ⟨a, hmove, hclose⟩ := step_move me cmds (run me cmds kv us) e
    have hrun : run me cmds kv (us ++ [e]) = (run me cmds kv us).step me cmds e :=
      Runs.run_snoc _ _ us e
    rw [hrun] at hdeleted
    obtain ⟨h, ha, hmaker⟩ := hmove.deletes (sound_run me cmds kv us).calls halive hdeleted
    exact ⟨h, hclose h ha, hmaker⟩
  · intro us e _ chan queue op hbefore hafter
    obtain ⟨a, hmove, -⟩ := step_move me cmds (run me cmds kv us) e
    have hrun : run me cmds kv (us ++ [e]) = (run me cmds kv us).step me cmds e :=
      Runs.run_snoc _ _ us e
    rw [hrun] at hafter
    exact hmove.pushes (sound_run me cmds kv us).calls hbefore hafter

end Member

end HttpRaftKv.Kv
