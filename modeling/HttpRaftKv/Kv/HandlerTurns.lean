import HttpRaftKv.Kv.HandlerMoves

/-!
# How one handler moves

A handler comes to read the store, or to answer `OK`, in few ways: it is woken by a
command of its own client and number, or it finds its request in the table after a
timeout.  What it finds in its channel has been sent there by the loop.
-/

namespace HttpRaftKv.Kv

open Raft

/-- The handler neither reads the store nor answers `OK`. -/
def HandlerState.Silent : HandlerState → Prop
  | .reading _ => False
  | .closing _ reply => reply.err ≠ .ok
  | .replied reply => reply.err ≠ .ok
  | _ => True

/-- A command of the same client and number. -/
def Op.SameRequest (op other : Op) : Prop :=
  op.clientId = other.clientId ∧ op.requestId = other.requestId

namespace Server

variable {s s' : Server} {h : ℕ} {handler : Handler}

/-- The ways in which the state of a handler can change. -/
inductive Turn (s : Server) (handler : Handler) : HandlerState → Prop
  | same : Turn s handler handler.state
  | silent (state : HandlerState) (hsilent : state.Silent) : Turn s handler state
  | woken (index : ℤ) (op : Op) (chan : ℕ) (queue : List Op)
      (hqueue : s.calls.chans chan = some (op :: queue)) (hsame : op.SameRequest handler.op) :
      Turn s handler (Calls.received handler index op)
  | acknowledged (index : ℤ) (hrpc : handler.rpc = .putAppend)
      (hdup : s.kv.ifRequestDuplicate handler.op.clientId handler.op.requestId = true) :
      Turn s handler (.closing index ⟨.ok, ""⟩)
  | admitted (index : ℤ) (hrpc : handler.rpc = .get)
      (hdup : s.kv.ifRequestDuplicate handler.op.clientId handler.op.requestId = true) :
      Turn s handler (.reading index)
  | read (index : ℤ) (reply : Reply) (hstate : handler.state = .reading index) :
      Turn s handler (.closing index reply)
  | replied (index : ℤ) (reply : Reply) (hstate : handler.state = .closing index reply) :
      Turn s handler (.replied reply)

/-- The command for which an action makes a handler. -/
def asks (s : Server) : Action → Option Handler
  | .get h key clientId requestId =>
      if s.calls.handlers h = none then
        some ⟨.get, ⟨"Get", key, "", clientId, requestId⟩, .called⟩
      else none
  | .putAppend h op =>
      if s.calls.handlers h = none then some ⟨.putAppend, op, .called⟩ else none
  | _ => none

/-- A handler of a step is one from before that has moved, or it is new. -/
def Turned (s : Server) (a : Action) (k : ℕ) (handler' : Handler) : Prop :=
  (∃ handler, s.calls.handlers k = some handler ∧ handler'.rpc = handler.rpc ∧
    handler'.op = handler.op ∧ Turn s handler handler'.state) ∨ s.asks a = some handler'

theorem turned_same {a : Action} {k : ℕ} (hhandler : s.calls.handlers k = some handler) :
    Turned s a k handler :=
  .inl ⟨handler, hhandler, rfl, rfl, .same⟩

/-- One handler moves. -/
theorem turned_setState {a : Action} {calls : Calls} (hcalls : calls.handlers = s.calls.handlers)
    (hhandler : s.calls.handlers h = some handler) {state : HandlerState}
    (hturn : Turn s handler state) {k : ℕ} {handler' : Handler}
    (hk : (calls.setState h handler state).handlers k = some handler') :
    Turned s a k handler' := by
  rw [Calls.handlers_setState] at hk
  split_ifs at hk with hkh
  · cases hk
    exact .inl ⟨handler, hkh ▸ hhandler, rfl, rfl, hturn⟩
  · rw [hcalls] at hk
    exact turned_same hk

theorem turned_call {a : Action} {rpc : Rpc} {op : Op}
    (hasks : s.calls.handlers h = none → s.asks a = some ⟨rpc, op, .called⟩) {k : ℕ}
    {handler' : Handler} (hk : (s.calls.call h rpc op).handlers k = some handler') :
    Turned s a k handler' := by
  unfold Calls.call at hk
  split at hk
  · rename_i hnone
    rw [Calls.handlers_setState] at hk
    split_ifs at hk
    · cases hk
      exact .inr (hasks hnone)
    · exact turned_same hk
  · exact turned_same hk

theorem turned_start {a : Action} {raftIndex : Option ℤ} {k : ℕ} {handler' : Handler}
    (hk : (s.calls.start h raftIndex).handlers k = some handler') : Turned s a k handler' := by
  unfold Calls.start at hk
  split at hk
  · rename_i handler hhandler
    split_ifs at hk
    · split at hk
      · exact turned_setState rfl hhandler (.silent _ (by simp [HandlerState.Silent])) hk
      · exact turned_setState rfl hhandler (.silent (.accepted _) trivial) hk
    · exact turned_same hk
  · exact turned_same hk

theorem turned_openChan {a : Action} {k : ℕ} {handler' : Handler}
    (hk : (s.calls.openChan h).handlers k = some handler') : Turned s a k handler' := by
  unfold Calls.openChan at hk
  split at hk
  · rename_i handler hhandler
    split at hk
    · split at hk
      · exact turned_setState rfl hhandler (.silent (.waiting _ _) trivial) hk
      · exact turned_setState rfl hhandler (.silent (.waiting _ _) trivial) hk
    · exact turned_same hk
  · exact turned_same hk

/-- A handler takes the command of another request. -/
theorem turn_received (index : ℤ) {op : Op} {chan : ℕ} {queue : List Op}
    (hqueue : s.calls.chans chan = some (op :: queue)) :
    Turn s handler (Calls.received handler index op) := by
  by_cases hsame : op.SameRequest handler.op
  · exact .woken index op chan queue hqueue hsame
  · have hstate : Calls.received handler index op = .closing index ⟨.errWrongLeader, ""⟩ :=
      if_neg hsame
    rw [hstate]
    exact .silent _ (by simp [HandlerState.Silent])

theorem turned_take {a : Action} {calls : Calls} (hcalls : s.calls.take h = some calls) {k : ℕ}
    {handler' : Handler} (hk : calls.handlers k = some handler') : Turned s a k handler' := by
  unfold Calls.take at hcalls
  split at hcalls
  · rename_i handler hhandler
    split at hcalls
    · obtain ⟨queue, hqueue, hcalls⟩ := Option.bind_eq_some_iff.mp hcalls
      cases queue with
      | nil =>
          cases hcalls
          exact turned_setState rfl hhandler (.silent (.blocked _ _) trivial) hk
      | cons op queue =>
          cases hcalls
          exact turned_setState rfl hhandler (turn_received _ hqueue) hk
    · obtain ⟨queue, hqueue, hcalls⟩ := Option.bind_eq_some_iff.mp hcalls
      cases queue with
      | nil =>
          cases hcalls
          exact turned_setState rfl hhandler (.silent (.blocked _ _) trivial) hk
      | cons op queue =>
          cases hcalls
          exact turned_setState rfl hhandler (turn_received _ hqueue) hk
    · cases hcalls
      exact turned_same hk
  · cases hcalls
    exact turned_same hk

theorem turned_timeOut {a : Action} {isLeader : Bool} {k : ℕ} {handler' : Handler}
    (hk : (s.calls.timeOut h isLeader).handlers k = some handler') : Turned s a k handler' := by
  unfold Calls.timeOut at hk
  split at hk
  · rename_i handler hhandler
    split at hk
    · exact turned_setState rfl hhandler (.silent (.timedOut _ _) trivial) hk
    · exact turned_same hk
  · exact turned_same hk

theorem turned_recheck {a : Action} {k : ℕ} {handler' : Handler}
    (hk : (s.calls.recheck h s.kv).handlers k = some handler') : Turned s a k handler' := by
  have hwrong : ∀ {handler : Handler} {index : ℤ},
      Turn s handler (.closing index ⟨.errWrongLeader, ""⟩) :=
    fun {_ _} ↦ .silent _ (by simp [HandlerState.Silent])
  unfold Calls.recheck at hk
  split at hk
  · rename_i handler hhandler
    split at hk
    · rename_i index isLeader _
      dsimp only at hk
      split at hk
      · rename_i hrpc
        split_ifs at hk with hdup
        · rw [Bool.and_eq_true] at hdup
          exact turned_setState rfl hhandler (.admitted index hrpc hdup.1) hk
        · exact turned_setState rfl hhandler hwrong hk
      · rename_i hrpc
        split_ifs at hk with hdup
        · exact turned_setState rfl hhandler (.acknowledged index hrpc hdup) hk
        · exact turned_setState rfl hhandler hwrong hk
    · exact turned_same hk
  · exact turned_same hk

theorem reader_eq_some {index : ℤ} (hreader : s.calls.reader h = some (handler, index)) :
    s.calls.handlers h = some handler ∧ handler.state = .reading index := by
  unfold Calls.reader at hreader
  split at hreader
  · rename_i handler' hhandler
    split at hreader
    · rename_i index' hstate
      cases Option.some.inj hreader
      exact ⟨hhandler, hstate⟩
    · cases hreader
  · cases hreader

theorem turned_read {a : Action} (hs' : s.read h = some s') {k : ℕ} {handler' : Handler}
    (hk : s'.calls.handlers k = some handler') : Turned s a k handler' := by
  unfold read at hs'
  split at hs'
  · rename_i handler index hreader
    obtain ⟨⟨value, kv⟩, -, heq⟩ := Option.bind_eq_some_iff.mp hs'
    cases heq
    obtain ⟨hhandler, hstate⟩ := reader_eq_some hreader
    exact turned_setState rfl hhandler (.read index _ hstate) hk
  · cases hs'
    exact turned_same hk

theorem turned_close {a : Action} {k : ℕ} {handler' : Handler}
    (hk : (s.calls.close h).handlers k = some handler') : Turned s a k handler' := by
  unfold Calls.close at hk
  split at hk
  · rename_i handler hhandler
    split at hk
    · rename_i index reply hstate
      exact turned_setState rfl hhandler (.replied index reply hstate) hk
    · exact turned_same hk
  · exact turned_same hk

theorem turned_send {a : Action} (hs' : s.send = some s') {k : ℕ} {handler' : Handler}
    (hk : s'.calls.handlers k = some handler') : Turned s a k handler' := by
  unfold send at hs'
  split at hs'
  · obtain ⟨calls, hcalls, heq⟩ := Option.bind_eq_some_iff.mp hs'
    cases heq
    unfold Calls.sendMessageToWaitChan at hcalls
    split at hcalls
    · cases hcalls
      exact turned_same hk
    · obtain ⟨queue, -, heq⟩ := Option.bind_eq_some_iff.mp hcalls
      cases heq
      exact turned_same hk
  · cases hs'
    exact turned_same hk

section steps

variable [TextArchive Op] [TextArchive (SkipListDump String String)] [TextArchive KvSnapshot]
  {cmds : List ApplyMsg} {a : Action}

theorem next_turned (hs' : s.next cmds a = some s') {k : ℕ} {handler' : Handler}
    (hk : s'.calls.handlers k = some handler') : Turned s a k handler' := by
  cases a with
  | pop => exact turned_same (calls_pop hs' ▸ hk)
  | check =>
      cases hs'
      exact turned_same (calls_check s ▸ hk)
  | execute heads => exact turned_same (calls_execute hs' ▸ hk)
  | compact large => exact turned_same (calls_compact hs' ▸ hk)
  | send => exact turned_send hs' hk
  | install heads => exact turned_same (calls_install hs' ▸ hk)
  | get j key clientId requestId =>
      cases hs'
      exact turned_call (fun hnone ↦ by simp [asks, hnone]) hk
  | putAppend j op =>
      cases hs'
      exact turned_call (fun hnone ↦ by simp [asks, hnone]) hk
  | start j raftIndex =>
      cases hs'
      exact turned_start hk
  | openChan j =>
      cases hs'
      exact turned_openChan hk
  | take j =>
      obtain ⟨calls, hcalls, heq⟩ := Option.map_eq_some_iff.mp hs'
      cases heq
      exact turned_take hcalls hk
  | timeOut j isLeader =>
      cases hs'
      exact turned_timeOut hk
  | recheck j =>
      cases hs'
      exact turned_recheck hk
  | read j => exact turned_read hs' hk
  | close j =>
      cases hs'
      exact turned_close hk

/-- The inversion lemma for one handler. -/
theorem step_turned (cmds : List ApplyMsg) (s : Server) (a : Action) {k : ℕ} {handler' : Handler}
    (hk : (s.step cmds a).calls.handlers k = some handler') : Turned s a k handler' := by
  unfold step at hk
  split_ifs at hk
  · exact turned_same hk
  · cases hnext : s.next cmds a with
    | none =>
        rw [hnext] at hk
        exact turned_same hk
    | some s' =>
        rw [hnext] at hk
        exact next_turned hnext hk

end steps

/-! ## What is in the channels -/

/-- What a handler can find has been there before, or the loop has just sent it. -/
theorem Move.queued {a : Action} {calls : Calls} (hmove : Move s a calls) {chan : ℕ}
    {queue : List Op} {op : Op} (hqueue : calls.chans chan = some queue) (hop : op ∈ queue) :
    (∃ chan' queue', s.calls.chans chan' = some queue' ∧ op ∈ queue') ∨
      ∃ message, s.loop = .sending message op := by
  -- one channel is changed, and the others are as before
  have hupdate : ∀ {chan' : ℕ} {content : Option (List Op)},
      Function.update s.calls.chans chan' content chan = some queue →
      (∀ queue', content = some queue' → op ∈ queue' →
        (∃ chan' queue', s.calls.chans chan' = some queue' ∧ op ∈ queue') ∨
          ∃ message, s.loop = .sending message op) →
      (∃ chan' queue', s.calls.chans chan' = some queue' ∧ op ∈ queue') ∨
        ∃ message, s.loop = .sending message op := by
    intro chan' content hq hnew
    rw [Function.update_apply] at hq
    split_ifs at hq
    · exact hnew queue hq hop
    · exact .inl ⟨chan, queue, hq, hop⟩
  cases hmove with
  | opened =>
      refine hupdate hqueue fun queue' heq hmem ↦ ?_
      cases heq
      cases hmem
  | taken h handler state index chan' head rest hhandler hserving hserving' hchan hold =>
      refine hupdate hqueue fun queue' heq hmem ↦ ?_
      cases heq
      exact .inl ⟨chan', _, hold, List.mem_cons_of_mem _ hmem⟩
  | closed h handler index reply hhandler hstate =>
      simp only [Calls.close, hhandler, hstate, Calls.setState] at hqueue
      cases hentry : s.calls.waitApplyCh index with
      | none =>
          rw [hentry] at hqueue
          exact .inl ⟨chan, queue, hqueue, hop⟩
      | some chan' =>
          rw [hentry] at hqueue
          exact hupdate hqueue fun queue' heq ↦ by cases heq
  | pushed message sent chan' old hloop hentry hold =>
      refine hupdate hqueue fun queue' heq hmem ↦ ?_
      cases heq
      rcases List.mem_append.mp hmem with hmem | hmem
      · exact .inl ⟨chan', old, hold, hmem⟩
      · cases List.mem_singleton.mp hmem
        exact .inr ⟨message, hloop⟩
  | _ => exact .inl ⟨chan, queue, hqueue, hop⟩

end Server

end HttpRaftKv.Kv
