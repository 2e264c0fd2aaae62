import HttpRaftKv.Kv.Clerk

/-!
# What a server acknowledges

A handler of a write answers `OK` only if a request of its client with at least its
number has been executed.  The table of the server has only numbers of requests that have
been executed, and what the loop sends to a handler has passed its check.
-/

namespace HttpRaftKv.Kv

open Raft

/-- A request of the same client with at least the number of the request is among the
commands. -/
def Covered (executed : List Op) (op : Op) : Prop :=
  ∃ other ∈ executed, other.clientId = op.clientId ∧ op.requestId ≤ other.requestId

theorem Covered.append {executed : List Op} {op : Op} (h : Covered executed op)
    (more : List Op) : Covered (executed ++ more) op := by
  obtain ⟨other, hmem, hrequest⟩ := h
  exact ⟨other, List.mem_append_left _ hmem, hrequest⟩

/-! ## The handlers of a server -/

/-- The handler is going to answer `OK`, or it has. -/
def HandlerState.Acknowledges : HandlerState → Prop
  | .closing _ reply => reply.err = .ok
  | .replied reply => reply.err = .ok
  | _ => False

/-- A handler of a write that acknowledges only what is covered. -/
structure Handler.Sound (executed : List Op) (handler : Handler) : Prop where
  putAppend : handler.rpc = .putAppend
  covered : handler.state.Acknowledges → Covered executed handler.op

namespace Calls

/-- The requests that have handlers. -/
def requests (calls : Calls) (h : ℕ) : Option Op :=
  (calls.handlers h).map Handler.op

/-- What is acknowledged, or has been sent to a handler, is covered. -/
structure Sound (executed : List Op) (calls : Calls) : Prop where
  handlers : ∀ h handler, calls.handlers h = some handler → handler.Sound executed
  chans : ∀ chan queue, calls.chans chan = some queue → ∀ op ∈ queue, Covered executed op

variable {executed : List Op} {calls : Calls} {h : ℕ} {handler : Handler}

theorem sound_init : (init : Calls).Sound executed where
  handlers _ _ h := by cases h
  chans _ _ h := by cases h

theorem Sound.append (hsound : calls.Sound executed) (more : List Op) :
    calls.Sound (executed ++ more) where
  handlers h handler hhandler :=
    have hold := hsound.handlers h handler hhandler
    ⟨hold.putAppend, fun hack ↦ (hold.covered hack).append more⟩
  chans chan queue hqueue op hop := (hsound.chans chan queue hqueue op hop).append more

theorem handlers_setState (calls : Calls) (h : ℕ) (handler : Handler) (state : HandlerState)
    (k : ℕ) : (calls.setState h handler state).handlers k =
      if k = h then some { handler with state := state } else calls.handlers k := by
  simp only [setState, Function.update_apply]

theorem requests_setState (hhandler : calls.handlers h = some handler) (state : HandlerState) :
    (calls.setState h handler state).requests = calls.requests := by
  funext k
  unfold requests
  rw [handlers_setState]
  split_ifs with hk
  · rw [hk, hhandler]
    rfl
  · rfl

/-- A handler starts or goes on. -/
theorem Sound.setState (hsound : calls.Sound executed) (h : ℕ) {state : HandlerState}
    (hstate : Handler.Sound executed { handler with state := state }) :
    (calls.setState h handler state).Sound executed := by
  refine ⟨fun k other hother ↦ ?_, hsound.chans⟩
  rw [handlers_setState] at hother
  split_ifs at hother with hk
  · cases hother
    exact hstate
  · exact hsound.handlers k other hother

/-- A handler goes on without an answer. -/
theorem Sound.goTo (hsound : calls.Sound executed) (hhandler : calls.handlers h = some handler)
    {state : HandlerState} (hstate : ¬ state.Acknowledges) :
    (calls.setState h handler state).Sound executed ∧
      (calls.setState h handler state).requests = calls.requests :=
  ⟨hsound.setState h ⟨(hsound.handlers h handler hhandler).putAppend, fun hack ↦
    absurd hack hstate⟩, requests_setState hhandler state⟩

/-- A queue with commands that are covered is put in place of another. -/
theorem Sound.covered_update (hsound : calls.Sound executed) {chan : ℕ} {queue : List Op}
    (hqueue : ∀ op ∈ queue, Covered executed op) (other : ℕ) (queue' : List Op)
    (hqueue' : Function.update calls.chans chan (some queue) other = some queue') :
    ∀ op ∈ queue', Covered executed op := by
  rw [Function.update_apply] at hqueue'
  split_ifs at hqueue'
  · cases hqueue'
    exact hqueue
  · exact hsound.chans other queue' hqueue'

theorem Sound.call (hsound : calls.Sound executed) (h : ℕ) (op : Op) :
    (calls.call h .putAppend op).Sound executed := by
  unfold Calls.call
  split
  · exact hsound.setState h ⟨rfl, fun hack ↦ hack.elim⟩
  · exact hsound

theorem requests_call (hnone : calls.requests h = none) (rpc : Rpc) (op : Op) (k : ℕ) :
    (calls.call h rpc op).requests k = if k = h then some op else calls.requests k := by
  have hhandler : calls.handlers h = none := Option.map_eq_none_iff.mp hnone
  unfold Calls.call requests
  rw [hhandler]
  simp only [handlers_setState]
  split_ifs <;> rfl

theorem Sound.start (hsound : calls.Sound executed) (h : ℕ) (raftIndex : Option ℤ) :
    (calls.start h raftIndex).Sound executed ∧
      (calls.start h raftIndex).requests = calls.requests := by
  unfold Calls.start
  split
  · rename_i handler hhandler
    split_ifs
    · split
      · exact hsound.goTo hhandler (by simp [HandlerState.Acknowledges])
      · exact hsound.goTo hhandler id
    · exact ⟨hsound, rfl⟩
  · exact ⟨hsound, rfl⟩

theorem Sound.openChan (hsound : calls.Sound executed) (h : ℕ) :
    (calls.openChan h).Sound executed ∧ (calls.openChan h).requests = calls.requests := by
  unfold Calls.openChan
  split
  · rename_i handler hhandler
    split
    · rename_i index _
      split
      · exact hsound.goTo hhandler id
      · have hnew : Sound executed { calls with
            waitApplyCh := Function.update calls.waitApplyCh index (some calls.freshChan)
            chans := Function.update calls.chans calls.freshChan (some [])
            freshChan := calls.freshChan + 1 } :=
          ⟨hsound.handlers, hsound.covered_update (by simp)⟩
        exact hnew.goTo hhandler id
    · exact ⟨hsound, rfl⟩
  · exact ⟨hsound, rfl⟩

theorem Sound.timeOut (hsound : calls.Sound executed) (h : ℕ) (isLeader : Bool) :
    (calls.timeOut h isLeader).Sound executed ∧
      (calls.timeOut h isLeader).requests = calls.requests := by
  unfold Calls.timeOut
  split
  · rename_i handler hhandler
    split
    · exact hsound.goTo hhandler id
    · exact ⟨hsound, rfl⟩
  · exact ⟨hsound, rfl⟩

/-- A handler that is woken by a command of its own client and number acknowledges it. -/
theorem sound_received (hhandler : handler.Sound executed) (index : ℤ) {raftCommitOp : Op}
    (hcovered : Covered executed raftCommitOp) :
    Handler.Sound executed { handler with state := received handler index raftCommitOp } := by
  refine ⟨hhandler.putAppend, fun hack ↦ ?_⟩
  simp only [received, hhandler.putAppend] at hack
  split_ifs at hack with hsame
  · obtain ⟨other, hmem, hclient, hrequest⟩ := hcovered
    exact ⟨other, hmem, hclient.trans hsame.1, hsame.2 ▸ hrequest⟩
  · cases hack

/-- `timeOutPop` of a handler. -/
theorem Sound.pop (hsound : calls.Sound executed) {index : ℤ} {chan : ℕ}
    (hhandler : calls.handlers h = some handler) {calls' : Calls}
    (hcalls' : ((calls.chans chan).bind fun queue ↦
      match queue with
      | [] => some (calls.setState h handler (.blocked index chan))
      | raftCommitOp :: queue =>
          some ({ calls with chans := Function.update calls.chans chan (some queue) }.setState h
            handler (received handler index raftCommitOp))) = some calls') :
    calls'.Sound executed ∧ calls'.requests = calls.requests := by
  obtain ⟨queue, hqueue, hcalls'⟩ := Option.bind_eq_some_iff.mp hcalls'
  cases queue with
  | nil =>
      cases hcalls'
      exact hsound.goTo hhandler id
  | cons raftCommitOp queue =>
      cases hcalls'
      have hops := hsound.chans chan _ hqueue
      have hnew : Sound executed
          { calls with chans := Function.update calls.chans chan (some queue) } :=
        ⟨hsound.handlers, hsound.covered_update fun op hop ↦ hops op (List.mem_cons_of_mem _ hop)⟩
      have hreceived := sound_received (hsound.handlers h handler hhandler) index
        (hops raftCommitOp List.mem_cons_self)
      exact ⟨hnew.setState h hreceived, requests_setState hhandler _⟩

theorem Sound.take (hsound : calls.Sound executed) {calls' : Calls}
    (hcalls' : calls.take h = some calls') :
    calls'.Sound executed ∧ calls'.requests = calls.requests := by
  unfold Calls.take at hcalls'
  split at hcalls'
  · rename_i handler hhandler
    split at hcalls'
    · exact hsound.pop hhandler hcalls'
    · exact hsound.pop hhandler hcalls'
    · cases hcalls'
      exact ⟨hsound, rfl⟩
  · cases hcalls'
    exact ⟨hsound, rfl⟩

/-- A handler gives an answer, which is covered if it is `OK`. -/
theorem Sound.reply (hsound : calls.Sound executed) (hhandler : calls.handlers h = some handler)
    {state : HandlerState} (hstate : state.Acknowledges → Covered executed handler.op) :
    (calls.setState h handler state).Sound executed ∧
      (calls.setState h handler state).requests = calls.requests :=
  ⟨hsound.setState h ⟨(hsound.handlers h handler hhandler).putAppend, hstate⟩,
    requests_setState hhandler state⟩

theorem Sound.recheck (hsound : calls.Sound executed) {kv : KvServer} (h : ℕ)
    (hduplicate : ∀ op : Op, kv.ifRequestDuplicate op.clientId op.requestId = true →
      Covered executed op) :
    (calls.recheck h kv).Sound executed ∧ (calls.recheck h kv).requests = calls.requests := by
  unfold Calls.recheck
  split
  · rename_i handler hhandler
    have hrpc := (hsound.handlers h handler hhandler).putAppend
    split
    · simp only [hrpc]
      split_ifs with hdup
      · exact hsound.reply hhandler fun _ ↦ hduplicate handler.op hdup
      · exact hsound.goTo hhandler (by simp [HandlerState.Acknowledges])
    · exact ⟨hsound, rfl⟩
  · exact ⟨hsound, rfl⟩

theorem Sound.close (hsound : calls.Sound executed) (h : ℕ) :
    (calls.close h).Sound executed ∧ (calls.close h).requests = calls.requests := by
  unfold Calls.close
  split
  · rename_i handler hhandler
    split
    · rename_i index reply hstate
      have hnew : ∀ chans : ℕ → Option (List Op),
          (∀ chan queue, chans chan = some queue → calls.chans chan = some queue) →
          Sound executed { calls with
            waitApplyCh := Function.update calls.waitApplyCh index none
            chans := chans } := fun chans hchans ↦
        ⟨hsound.handlers, fun chan queue hqueue ↦ hsound.chans chan queue (hchans chan queue hqueue)⟩
      refine (hnew _ fun chan queue hqueue ↦ ?_).reply hhandler fun hack ↦ ?_
      · -- the channel of the index is deleted
        cases hindex : calls.waitApplyCh index with
        | none =>
            simp only [hindex] at hqueue
            exact hqueue
        | some deleted =>
            simp only [hindex, Function.update_apply] at hqueue
            split_ifs at hqueue
            exact hqueue
      · apply (hsound.handlers h handler hhandler).covered
        rw [hstate]
        exact hack
    · exact ⟨hsound, rfl⟩
  · exact ⟨hsound, rfl⟩

theorem Sound.sendMessageToWaitChan (hsound : calls.Sound executed) {op : Op}
    (hop : Covered executed op) {raftIndex : ℤ} {calls' : Calls}
    (hcalls' : calls.sendMessageToWaitChan op raftIndex = some calls') :
    calls'.Sound executed ∧ calls'.requests = calls.requests := by
  unfold Calls.sendMessageToWaitChan at hcalls'
  split at hcalls'
  · cases hcalls'
    exact ⟨hsound, rfl⟩
  · rename_i chan _
    obtain ⟨queue, hqueue, hcalls'⟩ := Option.bind_eq_some_iff.mp hcalls'
    cases hcalls'
    refine ⟨⟨hsound.handlers, hsound.covered_update fun other hother ↦ ?_⟩, rfl⟩
    rcases List.mem_append.mp hother with hother | hother
    · exact hsound.chans chan queue hqueue other hother
    · obtain rfl := List.mem_singleton.mp hother
      exact hop

end Calls

/-! ## The loop of a server -/

/-- The commands of the loop have been committed, and the ones behind the check are
covered. -/
def LoopState.Sound (P : Op → Prop) (executed : List Op) : LoopState → Prop
  | .idle => True
  | .received message op => message.snapshotValid = false ∧ P op
  | .executing message op => message.snapshotValid = false ∧ P op
  | .compacting message op => message.snapshotValid = false ∧ Covered executed op
  | .sending message op => message.snapshotValid = false ∧ Covered executed op
  | .installing _ => False

namespace Server

/-- Every entry of the table comes from a command that has been executed. -/
structure Sound (P : Op → Prop) (s : Server) : Prop where
  table : ∀ clientId last, s.kv.lastRequestId.lookup clientId = some last →
    ∃ op ∈ s.executed, op.clientId = clientId ∧ op.requestId = last
  executed : ∀ op ∈ s.executed, P op
  loop : s.loop.Sound P s.executed
  calls : s.calls.Sound s.executed

variable {P : Op → Prop} {s s' : Server}

theorem sound_boot : (boot .create).Sound P where
  table _ _ h := by simp [boot, KvServer.create] at h
  executed _ h := by simp [boot] at h
  loop := trivial
  calls := Calls.sound_init

theorem Sound.mono {Q : Op → Prop} (h : s.Sound P) (hPQ : ∀ op, P op → Q op) : s.Sound Q := by
  refine ⟨h.table, fun op hop ↦ hPQ op (h.executed op hop), ?_, h.calls⟩
  have hloop := h.loop
  cases hs : s.loop with
  | idle => trivial
  | received message op | executing message op =>
      rw [hs] at hloop
      exact ⟨hloop.1, hPQ op hloop.2⟩
  | compacting message op | sending message op | installing message =>
      rw [hs] at hloop
      exact hloop

theorem Sound.duplicate (h : s.Sound P) (op : Op)
    (hdup : s.kv.ifRequestDuplicate op.clientId op.requestId = true) : Covered s.executed op := by
  unfold KvServer.ifRequestDuplicate at hdup
  split at hdup
  · cases hdup
  · rename_i last hlast
    obtain ⟨other, hmem, hclient, hrequest⟩ := h.table op.clientId last hlast
    exact ⟨other, hmem, hclient, hrequest ▸ of_decide_eq_true hdup⟩

theorem calls_pop [TextArchive Op] {cmds : List ApplyMsg} (h : s.pop cmds = some s') :
    s'.calls = s.calls := by
  unfold pop at h
  split at h
  · split_ifs at h
    · obtain ⟨op, -, heq⟩ := Option.bind_eq_some_iff.mp h
      cases heq
      rfl
    · cases h
      rfl
  · cases h
    rfl

theorem calls_check (s : Server) : s.check.calls = s.calls := by
  unfold check
  split
  · split_ifs <;> rfl
  · rfl

theorem calls_execute {heads : ℕ} (h : s.execute heads = some s') : s'.calls = s.calls := by
  unfold execute at h
  split at h
  · obtain ⟨kv, -, heq⟩ := Option.bind_eq_some_iff.mp h
    cases heq
    rfl
  · cases h
    rfl

theorem calls_compact [TextArchive (SkipListDump String String)] [TextArchive KvSnapshot]
    {large : Bool} (h : s.compact large = some s') : s'.calls = s.calls := by
  unfold compact at h
  split at h
  · split_ifs at h
    · obtain ⟨p, -, heq⟩ := Option.bind_eq_some_iff.mp h
      cases heq
      rfl
    · cases h
      rfl
  · cases h
    rfl

variable [TextArchive Op] [TextArchive (SkipListDump String String)] [TextArchive KvSnapshot]
  {cmds : List ApplyMsg} {a : Action}

/-- The parts of a server that the loop changes. -/
theorem Effect.sound {kv : KvServer} {loop : LoopState} {popped : ℕ} {executed : List Op}
    (heffect : Effect cmds s a kv loop popped executed) (h : s.Sound P)
    (hcmds : ∀ message ∈ cmds, message.snapshotValid = false ∧
      ∀ op, TextArchive.load message.command = some op → P op)
    (hwrite : ∀ op, P op → op.isWrite = true) (hinternal : a.internal = true) :
    (∃ more, executed = s.executed ++ more) ∧
      (∀ clientId last, kv.lastRequestId.lookup clientId = some last →
        ∃ op ∈ executed, op.clientId = clientId ∧ op.requestId = last) ∧
      (∀ op ∈ executed, P op) ∧ loop.Sound P executed := by
  have hloop := h.loop
  cases heffect with
  | same => exact ⟨⟨[], by simp⟩, h.table, h.executed, hloop⟩
  | popped message op hidle hmessage hvalid hop =>
      obtain ⟨hsnapshot, hop'⟩ := hcmds message (List.mem_of_getElem? hmessage)
      exact ⟨⟨[], by simp⟩, h.table, h.executed, hsnapshot, hop' op hop⟩
  | passed message hidle hmessage hvalid =>
      have hsnapshot := (hcmds message (List.mem_of_getElem? hmessage)).1
      rw [afterCommand_eq_idle hsnapshot]
      exact ⟨⟨[], by simp⟩, h.table, h.executed, trivial⟩
  | covered message op hreceived =>
      rw [hreceived] at hloop
      rw [afterCommand_eq_idle hloop.1]
      exact ⟨⟨[], by simp⟩, h.table, h.executed, trivial⟩
  | skipped message op hreceived hindex hskip =>
      rw [hreceived] at hloop
      refine ⟨⟨[], by simp⟩, h.table, h.executed, hloop.1, ?_⟩
      rcases hskip with hdup | hother
      · exact h.duplicate op hdup
      · rw [hwrite op hloop.2] at hother
        cases hother
  | checked message op hreceived =>
      rw [hreceived] at hloop
      exact ⟨⟨[], by simp⟩, h.table, h.executed, hloop⟩
  | executed heads message op kv hexecuting hkv =>
      rw [hexecuting] at hloop
      obtain ⟨skipList, -, heq⟩ := Option.bind_eq_some_iff.mp hkv
      cases heq
      refine ⟨⟨[op], rfl⟩, fun clientId last hlast ↦ ?_, fun other hother ↦ ?_, hloop.1, op, ?_⟩
      · by_cases hclient : clientId = op.clientId
        · subst hclient
          rw [KvServer.record, AList.lookup_insert, Option.some.injEq] at hlast
          exact ⟨op, by simp, rfl, hlast⟩
        · rw [KvServer.record, AList.lookup_insert_ne hclient] at hlast
          obtain ⟨other, hmem, hrequest⟩ := h.table clientId last hlast
          exact ⟨other, List.mem_append_left _ hmem, hrequest⟩
      · rcases List.mem_append.mp hother with hother | hother
        · exact h.executed other hother
        · obtain rfl := List.mem_singleton.mp hother
          exact hloop.2
      · simp
  | compacted large message op data hcompacting =>
      rw [hcompacting] at hloop
      exact ⟨⟨[], by simp⟩, h.table, h.executed, hloop⟩
  | sent message op hsending =>
      rw [hsending] at hloop
      rw [afterCommand_eq_idle hloop.1]
      exact ⟨⟨[], by simp⟩, h.table, h.executed, trivial⟩
  | installed => cases hinternal
  | recorded => cases hinternal

/-- The handlers after a step. -/
theorem Sound.calls_next (h : s.Sound P) (hinternal : a.internal = true)
    (hs' : s.next cmds a = some s') :
    s'.calls.Sound s.executed ∧ s'.calls.requests = s.calls.requests := by
  have hcalls := h.calls
  cases a with
  | pop =>
      rw [calls_pop hs']
      exact ⟨hcalls, rfl⟩
  | check =>
      cases hs'
      rw [calls_check]
      exact ⟨hcalls, rfl⟩
  | execute heads =>
      rw [calls_execute hs']
      exact ⟨hcalls, rfl⟩
  | compact large =>
      rw [calls_compact hs']
      exact ⟨hcalls, rfl⟩
  | send =>
      have hloop := h.loop
      simp only [next, send] at hs'
      split at hs'
      · rename_i message op hsending
        rw [hsending] at hloop
        obtain ⟨calls, hcalls', heq⟩ := Option.bind_eq_some_iff.mp hs'
        cases heq
        exact hcalls.sendMessageToWaitChan hloop.2 hcalls'
      · cases hs'
        exact ⟨hcalls, rfl⟩
  | openChan k =>
      cases hs'
      exact hcalls.openChan k
  | take k =>
      obtain ⟨calls, hcalls', heq⟩ := Option.map_eq_some_iff.mp hs'
      cases heq
      exact hcalls.take hcalls'
  | timeOut k isLeader =>
      cases hs'
      exact hcalls.timeOut k isLeader
  | recheck k =>
      cases hs'
      exact hcalls.recheck k h.duplicate
  | close k =>
      cases hs'
      exact hcalls.close k
  | install => cases hinternal
  | get => cases hinternal
  | putAppend => cases hinternal
  | start => cases hinternal
  | read => cases hinternal

/-- The step lemma of a server. -/
theorem Sound.step (h : s.Sound P)
    (hcmds : ∀ message ∈ cmds, message.snapshotValid = false ∧
      ∀ op, TextArchive.load message.command = some op → P op)
    (hwrite : ∀ op, P op → op.isWrite = true) (hinternal : a.internal = true) :
    (s.step cmds a).Sound P ∧ (s.step cmds a).calls.requests = s.calls.requests ∧
      ∃ more, (s.step cmds a).executed = s.executed ++ more := by
  unfold Server.step
  split_ifs
  · exact ⟨h, rfl, [], by simp⟩
  · cases hnext : s.next cmds a with
    | none => exact ⟨⟨h.table, h.executed, h.loop, h.calls⟩, rfl, [], by simp⟩
    | some s' =>
        obtain ⟨hcalls, hrequests⟩ := h.calls_next hinternal hnext
        obtain ⟨⟨more, hmore⟩, htable, hexecuted, hloop⟩ :=
          (next_effect hnext).sound h hcmds hwrite hinternal
        refine ⟨⟨htable, hexecuted, hloop, ?_⟩, hrequests, more, hmore⟩
        rw [Option.getD_some, hmore]
        exact hcalls.append more

end Server

end HttpRaftKv.Kv
