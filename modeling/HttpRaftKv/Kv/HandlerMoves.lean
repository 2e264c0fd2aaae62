import HttpRaftKv.Kv.Replies

/-!
# What a step does to the handlers

The ways in which one step of a server can change the handlers, the channels and
the table of the channels, in one list.  What the handlers keep over a whole run
is proved for each of these ways.
-/

namespace HttpRaftKv.Kv

open Raft

/-- The index under which a handler has a channel, between `openChan` and `close`. -/
def HandlerState.serving : HandlerState → Option ℤ
  | .waiting raftIndex _ | .blocked raftIndex _ | .timedOut raftIndex _ | .reading raftIndex
  | .closing raftIndex _ => some raftIndex
  | _ => none

/-- The index that `Start` has returned to a handler that still runs. -/
def HandlerState.raftIndex : HandlerState → Option ℤ
  | .accepted raftIndex => some raftIndex
  | state => state.serving

/-- The channel that a handler looks into. -/
def HandlerState.chan : HandlerState → Option ℕ
  | .waiting _ chan | .blocked _ chan => some chan
  | _ => none

theorem HandlerState.raftIndex_of_serving {state : HandlerState} {index : ℤ}
    (h : state.serving = some index) : state.raftIndex = some index := by
  cases state with
  | accepted => cases h
  | _ => exact h

namespace Server

variable {s s' : Server} {h : ℕ} {handler : Handler}

/-- What a step makes of the handlers and the channels. -/
inductive Move (s : Server) : Action → Calls → Prop
  | same (a : Action) : Move s a s.calls
  | called (a : Action) (h : ℕ) (handler : Handler) (hnone : s.calls.handlers h = none) :
      Move s a (s.calls.setState h handler .called)
  | refused (h : ℕ) (handler : Handler) (reply : Reply)
      (hhandler : s.calls.handlers h = some handler) (hstate : handler.state = .called) :
      Move s (.start h none) (s.calls.setState h handler (.replied reply))
  | accepted (h : ℕ) (handler : Handler) (index : ℤ)
      (hhandler : s.calls.handlers h = some handler) (hstate : handler.state = .called) :
      Move s (.start h (some index)) (s.calls.setState h handler (.accepted index))
  | joined (h : ℕ) (handler : Handler) (index : ℤ) (chan : ℕ)
      (hhandler : s.calls.handlers h = some handler) (hstate : handler.state = .accepted index)
      (hentry : s.calls.waitApplyCh index = some chan) :
      Move s (.openChan h) (s.calls.setState h handler (.waiting index chan))
  | opened (h : ℕ) (handler : Handler) (index : ℤ)
      (hhandler : s.calls.handlers h = some handler) (hstate : handler.state = .accepted index)
      (hentry : s.calls.waitApplyCh index = none) :
      Move s (.openChan h) ({ s.calls with
        waitApplyCh := Function.update s.calls.waitApplyCh index (some s.calls.freshChan)
        chans := Function.update s.calls.chans s.calls.freshChan (some [])
        freshChan := s.calls.freshChan + 1 }.setState h handler
          (.waiting index s.calls.freshChan))
  | moved (a : Action) (h : ℕ) (handler : Handler) (state : HandlerState) (index : ℤ)
      (hhandler : s.calls.handlers h = some handler)
      (hserving : handler.state.serving = some index) (hserving' : state.serving = some index)
      (hchan : ∀ chan, state.chan = some chan → handler.state.chan = some chan) :
      Move s a (s.calls.setState h handler state)
  | taken (h : ℕ) (handler : Handler) (state : HandlerState) (index : ℤ) (chan : ℕ) (op : Op)
      (queue : List Op) (hhandler : s.calls.handlers h = some handler)
      (hserving : handler.state.serving = some index) (hserving' : state.serving = some index)
      (hchan : state.chan = none) (hqueue : s.calls.chans chan = some (op :: queue)) :
      Move s (.take h) ({ s.calls with
        chans := Function.update s.calls.chans chan (some queue) }.setState h handler state)
  | closed (h : ℕ) (handler : Handler) (index : ℤ) (reply : Reply)
      (hhandler : s.calls.handlers h = some handler)
      (hstate : handler.state = .closing index reply) :
      Move s (.close h) (s.calls.close h)
  | pushed (message : ApplyMsg) (op : Op) (chan : ℕ) (queue : List Op)
      (hloop : s.loop = .sending message op)
      (hentry : s.calls.waitApplyCh message.commandIndex = some chan)
      (hqueue : s.calls.chans chan = some queue) :
      Move s .send { s.calls with
        chans := Function.update s.calls.chans chan (some (queue ++ [op])) }

theorem call_move (s : Server) (a : Action) (h : ℕ) (rpc : Rpc) (op : Op) :
    Move s a (s.calls.call h rpc op) := by
  unfold Calls.call
  split
  · rename_i hnone
    exact .called a h _ hnone
  · exact .same a

theorem start_move (s : Server) (h : ℕ) (raftIndex : Option ℤ) :
    Move s (.start h raftIndex) (s.calls.start h raftIndex) := by
  unfold Calls.start
  split
  · rename_i handler hhandler
    split_ifs with hstate
    · cases raftIndex with
      | none => exact .refused h handler _ hhandler hstate
      | some index => exact .accepted h handler index hhandler hstate
    · exact .same _
  · exact .same _

theorem openChan_move (s : Server) (h : ℕ) : Move s (.openChan h) (s.calls.openChan h) := by
  unfold Calls.openChan
  split
  · rename_i handler hhandler
    split
    · rename_i index hstate
      split
      · rename_i chan hentry
        exact .joined h handler index chan hhandler hstate hentry
      · rename_i hentry
        exact .opened h handler index hhandler hstate hentry
    · exact .same _
  · exact .same _

theorem serving_received (handler : Handler) (index : ℤ) (op : Op) :
    (Calls.received handler index op).serving = some index ∧
      (Calls.received handler index op).chan = none := by
  unfold Calls.received
  split_ifs
  · cases handler.rpc <;> exact ⟨rfl, rfl⟩
  · exact ⟨rfl, rfl⟩

theorem take_move {calls : Calls} (hcalls : s.calls.take h = some calls) :
    Move s (.take h) calls := by
  have hblocked : ∀ {handler : Handler} {index : ℤ} {chan : ℕ},
      s.calls.handlers h = some handler → handler.state.serving = some index →
      handler.state.chan = some chan →
      Move s (.take h) (s.calls.setState h handler (.blocked index chan)) := by
    intro handler index chan hhandler hserving hchan
    refine .moved _ h handler _ index hhandler hserving rfl fun chan' hchan' ↦ ?_
    rw [hchan]
    exact hchan'
  have hpopped : ∀ {handler : Handler} {index : ℤ} {chan : ℕ} {op : Op} {queue : List Op},
      s.calls.handlers h = some handler → handler.state.serving = some index →
      s.calls.chans chan = some (op :: queue) →
      Move s (.take h) ({ s.calls with
        chans := Function.update s.calls.chans chan (some queue) }.setState h handler
          (Calls.received handler index op)) := by
    intro handler index chan op queue hhandler hserving hqueue
    obtain ⟨hserving', hnone⟩ := serving_received handler index op
    exact .taken h handler _ index chan op queue hhandler hserving hserving' hnone hqueue
  unfold Calls.take at hcalls
  split at hcalls
  · rename_i handler hhandler
    split at hcalls
    · rename_i index chan hstate
      have hserving : handler.state.serving = some index := by rw [hstate]; rfl
      obtain ⟨queue, hqueue, hcalls⟩ := Option.bind_eq_some_iff.mp hcalls
      cases queue with
      | nil =>
          cases Option.some.inj hcalls
          exact hblocked hhandler hserving (by rw [hstate]; rfl)
      | cons op queue =>
          cases Option.some.inj hcalls
          exact hpopped hhandler hserving hqueue
    · rename_i index chan hstate
      have hserving : handler.state.serving = some index := by rw [hstate]; rfl
      obtain ⟨queue, hqueue, hcalls⟩ := Option.bind_eq_some_iff.mp hcalls
      cases queue with
      | nil =>
          cases Option.some.inj hcalls
          exact hblocked hhandler hserving (by rw [hstate]; rfl)
      | cons op queue =>
          cases Option.some.inj hcalls
          exact hpopped hhandler hserving hqueue
    · cases Option.some.inj hcalls
      exact .same _
  · cases Option.some.inj hcalls
    exact .same _

theorem timeOut_move (s : Server) (h : ℕ) (isLeader : Bool) :
    Move s (.timeOut h isLeader) (s.calls.timeOut h isLeader) := by
  unfold Calls.timeOut
  split
  · rename_i handler hhandler
    split
    · rename_i index chan hstate
      exact .moved _ h handler _ index hhandler (by rw [hstate]; rfl) rfl nofun
    · exact .same _
  · exact .same _

theorem recheck_move (s : Server) (h : ℕ) :
    Move s (.recheck h) (s.calls.recheck h s.kv) := by
  unfold Calls.recheck
  split
  · rename_i handler hhandler
    split
    · rename_i index isLeader hstate
      have hserving : handler.state.serving = some index := by rw [hstate]; rfl
      dsimp only
      cases handler.rpc with
      | get =>
          dsimp only
          split_ifs
          · exact .moved _ h handler _ index hhandler hserving rfl nofun
          · exact .moved _ h handler _ index hhandler hserving rfl nofun
      | putAppend =>
          dsimp only
          split_ifs
          · exact .moved _ h handler _ index hhandler hserving rfl nofun
          · exact .moved _ h handler _ index hhandler hserving rfl nofun
    · exact .same _
  · exact .same _

theorem read_move (hs' : s.read h = some s') : Move s (.read h) s'.calls := by
  unfold read at hs'
  split at hs'
  · rename_i handler index hreader
    obtain ⟨⟨value, kv⟩, -, heq⟩ := Option.bind_eq_some_iff.mp hs'
    cases heq
    unfold Calls.reader at hreader
    split at hreader
    · rename_i handler' hhandler
      split at hreader
      · rename_i index' hstate
        cases Option.some.inj hreader
        exact .moved _ h _ _ index hhandler (by rw [hstate]; rfl) rfl nofun
      · cases hreader
    · cases hreader
  · cases hs'
    exact .same _

theorem close_move (s : Server) (h : ℕ) : Move s (.close h) (s.calls.close h) := by
  cases hhandler : s.calls.handlers h with
  | none =>
      have hsame : s.calls.close h = s.calls := by simp [Calls.close, hhandler]
      rw [hsame]
      exact .same _
  | some handler =>
      cases hstate : handler.state with
      | closing index reply => exact .closed h handler index reply hhandler hstate
      | _ =>
          have hsame : s.calls.close h = s.calls := by simp [Calls.close, hhandler, hstate]
          rw [hsame]
          exact .same _

theorem send_move (hs' : s.send = some s') : Move s .send s'.calls := by
  unfold send at hs'
  split at hs'
  · rename_i message op hloop
    obtain ⟨calls, hcalls, heq⟩ := Option.bind_eq_some_iff.mp hs'
    cases heq
    unfold Calls.sendMessageToWaitChan at hcalls
    split at hcalls
    · cases Option.some.inj hcalls
      exact .same _
    · rename_i chan hentry
      obtain ⟨queue, hqueue, heq⟩ := Option.bind_eq_some_iff.mp hcalls
      cases heq
      exact .pushed message op chan queue hloop hentry hqueue
  · cases hs'
    exact .same _

section steps

variable [TextArchive Op] [TextArchive (SkipListDump String String)] [TextArchive KvSnapshot]
  {cmds : List ApplyMsg}

omit [TextArchive Op] in
theorem calls_install {heads : ℕ → ℕ} (hs' : s.install heads = some s') : s'.calls = s.calls := by
  unfold install at hs'
  split at hs'
  · obtain ⟨kv, -, heq⟩ := Option.bind_eq_some_iff.mp hs'
    cases heq
    rfl
  · cases hs'
    rfl

theorem next_move {a : Action} (hs' : s.next cmds a = some s') : Move s a s'.calls := by
  cases a with
  | pop => exact calls_pop hs' ▸ .same _
  | check =>
      cases hs'
      exact calls_check s ▸ .same _
  | execute heads => exact calls_execute hs' ▸ .same _
  | compact large => exact calls_compact hs' ▸ .same _
  | send => exact send_move hs'
  | install heads => exact calls_install hs' ▸ .same _
  | get k key clientId requestId =>
      cases hs'
      exact call_move s _ k .get _
  | putAppend k op =>
      cases hs'
      exact call_move s _ k .putAppend op
  | start k raftIndex =>
      cases hs'
      exact start_move s k raftIndex
  | openChan k =>
      cases hs'
      exact openChan_move s k
  | take k =>
      obtain ⟨calls, hcalls, heq⟩ := Option.map_eq_some_iff.mp hs'
      cases heq
      exact take_move hcalls
  | timeOut k isLeader =>
      cases hs'
      exact timeOut_move s k isLeader
  | recheck k =>
      cases hs'
      exact recheck_move s k
  | read k => exact read_move hs'
  | close k =>
      cases hs'
      exact close_move s k

theorem step_move (cmds : List ApplyMsg) (s : Server) (a : Action) :
    Move s a (s.step cmds a).calls := by
  unfold step
  split_ifs
  · exact .same a
  · cases hnext : s.next cmds a with
    | none => exact .same a
    | some s' => exact next_move hnext

end steps

end Server

end HttpRaftKv.Kv
