import HttpRaftKv.Gomoku.Leaving
import HttpRaftKv.Http.Closing
import HttpRaftKv.Http.Upgraded

/-!
# A connection and the game behind it

The callbacks of one connection are events of the game, among the events of the
other connections.  A user is gone from the game after his connection has gone if
the handler was told so, and it is told by a Close frame and by `closeConnection`
but not by the loss of the connection.
-/

namespace HttpRaftKv.Gomoku

open GomokuServer GameWsHandler
open HttpRaftKv.Http (Connection Effect HttpRequest)
open HttpRaftKv.Http.WebSocketServer (handleUpgrade validateUpgradeRequest isWebSocket)
open HttpRaftKv.Http.HttpServer (Open Closes Reopens callbacks newEffects isCallback)

/-! ## Callbacks as events -/

/-- What the handler does in a callback.  A message that is no text is rejected by
the parser. -/
def handlerEvent (conn : Conn) (userId : ℤ) (cs : Circumstances) :
    Effect → Option (GameWsHandler.Event × Circumstances)
  | .onOpen => some (.upgrade conn userId, cs)
  | .onMessage payload =>
      (String.fromUTF8? ⟨payload.toArray⟩).map fun message ↦ (.message conn message, cs)
  | .onClose => some (.close conn, cs)
  | _ => none

/-- The callbacks among the effects, each with its own circumstances. -/
def handlerEvents (conn : Conn) (userId : ℤ) :
    (ℕ → Circumstances) → List Effect → List (GameWsHandler.Event × Circumstances)
  | _, [] => []
  | cs, effect :: effects =>
      (handlerEvent conn userId (cs 0) effect).toList ++
        handlerEvents conn userId (fun n ↦ cs (n + 1)) effects

/-- A connection, and the server of the game. -/
structure Socket where
  connection : Connection
  server : GomokuServer

namespace Socket

/-- An event of the connection, where `userId` is the user who is logged in if it
brings an upgrade, or an event of another connection. -/
inductive Event
  | own (event : Http.HttpServer.Event) (userId : ℤ) (cs : ℕ → Circumstances)
  | other (event : GameWsHandler.Event) (cs : Circumstances)

def step (text : JsonText) (conn : Conn) (s : Socket) : Event → Socket
  | .own event userId cs =>
      let connection := Http.HttpServer.step s.connection event
      { connection := connection
        server := Runs.run (GameWsHandler.step text) s.server
          (handlerEvents conn userId cs (newEffects s.connection connection)) }
  | .other event cs => { s with server := GameWsHandler.step text s.server (event, cs) }

/-- The state after an upgrade.  The rest of the call of `onMessage` does what a
piece without bytes does. -/
def upgraded (c : Connection) (r : HttpRequest) (server : GomokuServer) (conn : Conn)
    (userId : ℤ) : Socket where
  connection := handleUpgrade c r
  server := handle server conn userId

/-- The connection has not gone, and the events of the others are not its own. -/
def Regular (conn : Conn) : Event → Prop
  | .own event _ _ => event ≠ .disconnect
  | .other event _ => event.conn ≠ conn

end Socket

section HandlerEvents

variable {conn : Conn} {userId : ℤ}

theorem handlerEvents_append (cs : ℕ → Circumstances) (effects more : List Effect) :
    handlerEvents conn userId cs (effects ++ more) =
      handlerEvents conn userId cs effects ++
        handlerEvents conn userId (fun n ↦ cs (n + effects.length)) more := by
  induction effects generalizing cs with
  | nil => rfl
  | cons effect effects ih =>
      rw [List.cons_append, handlerEvents, handlerEvents, ih, List.append_assoc]
      simp only [List.length_cons, Nat.add_assoc]

theorem handlerEvents_eq_nil {cs : ℕ → Circumstances} {effects : List Effect}
    (h : effects.filter isCallback = []) : handlerEvents conn userId cs effects = [] := by
  induction effects generalizing cs with
  | nil => rfl
  | cons effect effects ih =>
      obtain ⟨heffect, hrest⟩ := List.forall_mem_cons.mp (List.filter_eq_nil_iff.mp h)
      rw [handlerEvents, ih (List.filter_eq_nil_iff.mpr hrest), List.append_nil]
      cases effect
      all_goals first | rfl | exact absurd rfl heffect

theorem messages_handlerEvents {cs : ℕ → Circumstances} {effects : List Effect}
    (hclose : Effect.onClose ∉ effects) (hopen : Effect.onOpen ∉ effects) :
    ∀ event ∈ handlerEvents conn userId cs effects, ∃ message, event.1 = .message conn message := by
  induction effects generalizing cs with
  | nil => simp [handlerEvents]
  | cons effect effects ih =>
      simp only [List.mem_cons, not_or] at hclose hopen
      intro event hevent
      rw [handlerEvents, List.mem_append] at hevent
      rcases hevent with hevent | hevent
      · cases effect with
        | onMessage payload =>
            simp only [handlerEvent, Option.mem_toList, Option.map_eq_some_iff] at hevent
            obtain ⟨message, -, rfl⟩ := hevent
            exact ⟨message, rfl⟩
        | onOpen => exact absurd rfl hopen.1
        | onClose => exact absurd rfl hclose.1
        | _ => simp [handlerEvent] at hevent
      · exact ih hclose.2 hopen.2 event hevent

/-- The events of a connection that ends. -/
theorem handlerEvents_closes {cs : ℕ → Circumstances} {effects before : List Effect}
    (h : effects.filter isCallback = before ++ [.onClose]) (hclose : Effect.onClose ∉ before)
    (hopen : Effect.onOpen ∉ before) :
    ∃ messages cs', handlerEvents conn userId cs effects = messages ++ [(.close conn, cs')] ∧
      ∀ event ∈ messages, ∃ message, event.1 = .message conn message := by
  obtain ⟨l₁, l₂, rfl, hl₁, hl₂⟩ := List.filter_eq_append_iff.mp h
  obtain ⟨l₃, l₄, rfl, hl₃, -, hl₄⟩ := List.filter_eq_cons_iff.mp hl₂
  have hcallback : ∀ {effect : Effect}, isCallback effect = true → effect ∉ before →
      effect ∉ l₁ := by
    intro effect heffect hnot hmem
    exact hnot (hl₁ ▸ List.mem_filter.mpr ⟨hmem, heffect⟩)
  refine ⟨handlerEvents conn userId cs l₁, cs (l₃.length + l₁.length), ?_,
    messages_handlerEvents (hcallback rfl hclose) (hcallback rfl hopen)⟩
  rw [handlerEvents_append, handlerEvents_append, handlerEvents,
    handlerEvents_eq_nil (List.filter_eq_nil_iff.mpr hl₃), handlerEvents_eq_nil hl₄]
  simp [handlerEvent]

end HandlerEvents

namespace Socket

/-! ## What is expected -/

/-- `onClose` is called once, and nothing behind it. -/
def ClosedOnce (effects : List Effect) : Prop :=
  ∃ before, effects = before ++ [.onClose] ∧ Effect.onClose ∉ before

/-- The event ends the web socket. -/
def Ends (s : Socket) : Event → Prop
  | .own event _ _ => Open s.connection ∧ Closes s.connection event
  | .other _ _ => False

/-- The event opens the connection again. -/
def Returns (s : Socket) : Event → Prop
  | .own event _ _ => s.connection.webSocket = none ∧ Reopens s.connection event
  | .other _ _ => False

/-- One of the events ends the web socket, and none opens it again. -/
def EndsOnce (text : JsonText) (conn : Conn) (s₀ : Socket) (events : List Event) : Prop :=
  (∃ past event, past ++ [event] <+: events ∧ (Runs.run (step text conn) s₀ past).Ends event) ∧
    ∀ past event, past ++ [event] <+: events →
      ¬ (Runs.run (step text conn) s₀ past).Returns event

/-- The connection is the only one of the user when it ends, and the events of other
connections behind it spare him. -/
def EndsAlone (text : JsonText) (conn : Conn) (userId : ℤ) (s₀ : Socket)
    (events : List Event) : Prop :=
  ∀ past event, past ++ [event] <+: events → (Runs.run (step text conn) s₀ past).Ends event →
    (Runs.run (step text conn) s₀ past).server.Alone conn userId ∧
      ∀ later other cs, past ++ event :: later ++ [.other other cs] <+: events →
        Spares (Runs.run (step text conn) s₀ (past ++ event :: later)).server userId other

/-! ## Steps -/

variable {text : JsonText} {conn : Conn} {userId : ℤ} {s₀ s : Socket}

/-- The connection has been open all the time. -/
structure Alive (conn : Conn) (userId : ℤ) (s₀ s : Socket) : Prop where
  trace : s₀.connection.trace <+: s.connection.trace
  isOpen : Open s.connection
  onClose : Effect.onClose ∉ callbacks s₀.connection s.connection
  connToUserId : s.server.connToUserId conn = some userId
  sound : Sound s.server

/-- The connection has ended. -/
structure Gone (s₀ s : Socket) : Prop where
  trace : s₀.connection.trace <+: s.connection.trace
  webSocket : s.connection.webSocket = none
  closedOnce : ClosedOnce (callbacks s₀.connection s.connection)
  sound : Sound s.server

/-- Something has been called after `onClose`. -/
structure Again (s₀ s : Socket) : Prop where
  trace : s₀.connection.trace <+: s.connection.trace
  callbacks : ∃ before after, callbacks s₀.connection s.connection = before ++ .onClose :: after ∧
    after ≠ []

theorem Again.not_closedOnce (h : Again s₀ s) :
    ¬ ClosedOnce (Http.HttpServer.callbacks s₀.connection s.connection) := by
  obtain ⟨before, after, heq, hafter⟩ := h.callbacks
  rintro ⟨past, hpast, hnot⟩
  rw [heq] at hpast
  obtain ⟨last, effect, rfl⟩ := (List.eq_nil_or_concat after).resolve_left hafter
  rw [List.concat_eq_append, ← List.cons_append, ← List.append_assoc] at hpast
  obtain ⟨rfl, -⟩ := List.append_inj' hpast rfl
  exact hnot (by simp)

theorem trace_step (text : JsonText) (conn : Conn) (s : Socket) (event : Event) :
    s.connection.trace <+: (step text conn s event).connection.trace := by
  cases event with
  | own event userId cs => exact Http.HttpServer.trace_step s.connection event
  | other event cs => exact List.prefix_rfl

theorem Alive.not_returns (h : Alive conn userId s₀ s) (event : Event) : ¬ s.Returns event := by
  cases event with
  | other event cs => exact id
  | own event user cs =>
      rintro ⟨hwebSocket, -⟩
      rw [h.isOpen.webSocket] at hwebSocket
      cases hwebSocket

theorem alive_step (h : Alive conn userId s₀ s) {event : Event} (hregular : Regular conn event)
    (hends : ¬ s.Ends event) : Alive conn userId s₀ (step text conn s event) := by
  cases event with
  | own event user cs =>
      obtain ⟨hopen, hclose, hopened⟩ := Http.HttpServer.step_open h.isOpen hregular
        fun hcloses ↦ hends ⟨h.isOpen, hcloses⟩
      have htrace := Http.HttpServer.trace_step s.connection event
      have hmessages : ∀ e ∈ handlerEvents conn user cs (newEffects s.connection
          (Http.HttpServer.step s.connection event)), ∃ message, e.1 = .message conn message :=
        messages_handlerEvents (fun hmem ↦ hclose (List.mem_filter.mpr ⟨hmem, rfl⟩))
          fun hmem ↦ hopened (List.mem_filter.mpr ⟨hmem, rfl⟩)
      refine ⟨h.trace.trans htrace, hopen, ?_, ?_, h.sound.run text _⟩
      · change Effect.onClose ∉ callbacks s₀.connection (Http.HttpServer.step s.connection event)
        rw [Http.HttpServer.callbacks_trans h.trace htrace, List.mem_append]
        exact not_or.mpr ⟨h.onClose, hclose⟩
      · change (Runs.run (GameWsHandler.step text) s.server _).connToUserId conn = some userId
        rw [connToUserId_messages text s.server hmessages]
        exact h.connToUserId
  | other event cs =>
      refine ⟨h.trace, h.isOpen, h.onClose, ?_, h.sound.step text (event, cs)⟩
      refine (connToUserId_step text s.server ?_ ?_).trans h.connToUserId
      · rintro user rfl
        exact hregular rfl
      · rintro rfl
        exact hregular rfl

/-- At its end, the user is taken out of the game. -/
theorem gone_of_ends (h : Alive conn userId s₀ s) {event : Event} (hends : s.Ends event) :
    Gone s₀ (step text conn s event) ∧ (0 < userId → s.server.Alone conn userId →
      (step text conn s event).server.Absent userId) := by
  cases event with
  | other event cs => exact absurd hends id
  | own event user cs =>
      obtain ⟨hwebSocket, before, hbefore, hclose, hopened⟩ :=
        Http.HttpServer.step_closes h.isOpen hends.2
      have htrace := Http.HttpServer.trace_step s.connection event
      refine ⟨⟨h.trace.trans htrace, hwebSocket, ⟨callbacks s₀.connection s.connection ++ before,
        ?_, ?_⟩, h.sound.run text _⟩, fun hpos halone ↦ ?_⟩
      · change callbacks s₀.connection (Http.HttpServer.step s.connection event) = _
        rw [Http.HttpServer.callbacks_trans h.trace htrace, hbefore, List.append_assoc]
      · rw [List.mem_append]
        exact not_or.mpr ⟨h.onClose, hclose⟩
      · obtain ⟨messages, cs', hevents, hmessages⟩ :=
          handlerEvents_closes (show (newEffects s.connection
            (Http.HttpServer.step s.connection event)).filter isCallback = _ from hbefore)
            hclose hopened
        have hconn := connToUserId_messages text s.server hmessages
        have hserver : (step text conn s (.own event user cs)).server =
            onClose (Runs.run (GameWsHandler.step text) s.server messages) cs' conn := by
          change Runs.run (GameWsHandler.step text) s.server _ = _
          rw [hevents, Runs.run_snoc]
          rfl
        rw [hserver]
        apply absent_onClose (h.sound.run text messages)
        · rw [hconn]
          exact h.connToUserId
        · exact hpos
        · unfold Alone
          rw [hconn]
          exact halone

/-- After its end, the connection calls nothing, and a user who has gone stays away
if the event spares him. -/
theorem gone_step (h : Gone s₀ s) {event : Event} (hreturns : ¬ s.Returns event) :
    Gone s₀ (step text conn s event) ∧ (0 < userId →
      (∀ other cs, event = .other other cs → Spares s.server userId other) →
      s.server.Absent userId → (step text conn s event).server.Absent userId) := by
  cases event with
  | other event cs =>
      exact ⟨⟨h.trace, h.webSocket, h.closedOnce, h.sound.step text _⟩, fun hpos hspares habsent ↦
        absent_step habsent hpos h.sound.copies text (hspares event cs rfl)⟩
  | own event user cs =>
      have htrace := Http.HttpServer.trace_step s.connection event
      obtain ⟨hwebSocket, hnone, -⟩ := (Http.HttpServer.step_closed h.webSocket event).resolve_right
        fun hreopens ↦ hreturns ⟨h.webSocket, hreopens.2⟩
      refine ⟨⟨h.trace.trans htrace, hwebSocket, ?_, h.sound.run text _⟩, fun _ _ habsent ↦ ?_⟩
      · change ClosedOnce (callbacks s₀.connection (Http.HttpServer.step s.connection event))
        rw [Http.HttpServer.callbacks_trans h.trace htrace, hnone, List.append_nil]
        exact h.closedOnce
      · change (Runs.run (GameWsHandler.step text) s.server _).Absent userId
        rw [handlerEvents_eq_nil hnone]
        exact habsent

theorem again_of_returns (h : Gone s₀ s) {event : Event} (hreturns : s.Returns event) :
    Again s₀ (step text conn s event) := by
  cases event with
  | other event cs => exact absurd hreturns id
  | own event user cs =>
      have htrace := Http.HttpServer.trace_step s.connection event
      obtain ⟨hopened, -⟩ := (Http.HttpServer.step_closed h.webSocket event).resolve_left
        fun hclosed ↦ hclosed.2.2 hreturns.2
      obtain ⟨before, hbefore, -⟩ := h.closedOnce
      refine ⟨h.trace.trans htrace, before,
        callbacks s.connection (Http.HttpServer.step s.connection event), ?_,
        List.ne_nil_of_mem hopened⟩
      change callbacks s₀.connection (Http.HttpServer.step s.connection event) = _
      rw [Http.HttpServer.callbacks_trans h.trace htrace, hbefore, List.append_assoc]
      rfl

theorem again_step (h : Again s₀ s) (event : Event) : Again s₀ (step text conn s event) := by
  have htrace := trace_step text conn s event
  obtain ⟨before, after, heq, hafter⟩ := h.callbacks
  refine ⟨h.trace.trans htrace, before, after ++ Http.HttpServer.callbacks s.connection
    (step text conn s event).connection, ?_, by simp [hafter]⟩
  rw [Http.HttpServer.callbacks_trans h.trace htrace, heq, List.append_assoc]
  rfl

/-! ## Runs -/

/-- The phases of a connection. -/
inductive Phase (text : JsonText) (conn : Conn) (userId : ℤ) (s₀ : Socket) (events : List Event) :
    Prop
  | alive (h : Alive conn userId s₀ (Runs.run (step text conn) s₀ events))
      (hends : ∀ past event, past ++ [event] <+: events →
        ¬ (Runs.run (step text conn) s₀ past).Ends event)
      (hreturns : ∀ past event, past ++ [event] <+: events →
        ¬ (Runs.run (step text conn) s₀ past).Returns event)
  | gone (h : Gone s₀ (Runs.run (step text conn) s₀ events))
      (hends : EndsOnce text conn s₀ events)
      (habsent : 0 < userId → EndsAlone text conn userId s₀ events →
        (Runs.run (step text conn) s₀ events).server.Absent userId)
  | again (h : Again s₀ (Runs.run (step text conn) s₀ events))
      (hreturns : ∃ past event, past ++ [event] <+: events ∧
        (Runs.run (step text conn) s₀ past).Returns event)

theorem endsOnce_snoc {events : List Event} {event : Event}
    (hends : EndsOnce text conn s₀ events)
    (hreturns : ¬ (Runs.run (step text conn) s₀ events).Returns event) :
    EndsOnce text conn s₀ (events ++ [event]) := by
  obtain ⟨⟨past, e, hprefix, he⟩, hpast⟩ := hends
  refine ⟨⟨past, e, hprefix.trans (List.prefix_append _ _), he⟩, ?_⟩
  intro past e hprefix
  rcases Runs.snoc_isPrefix_snoc.mp hprefix with ⟨rfl, rfl⟩ | hprefix
  · exact hreturns
  · exact hpast past e hprefix

theorem endsAlone_of_snoc {events : List Event} {event : Event}
    (h : EndsAlone text conn userId s₀ (events ++ [event])) :
    EndsAlone text conn userId s₀ events := by
  intro past e hpast he
  obtain ⟨halone, hlater⟩ := h past e (hpast.trans (List.prefix_append _ _)) he
  exact ⟨halone, fun later other cs hother ↦
    hlater later other cs (hother.trans (List.prefix_append _ _))⟩

/-- Every run is in one of the phases. -/
theorem phase_run (h₀ : Alive conn userId s₀ s₀) {events : List Event}
    (hregular : ∀ event ∈ events, Regular conn event) : Phase text conn userId s₀ events := by
  induction events using List.reverseRecOn with
  | nil =>
      have hnot : ∀ past (event : Event), ¬ past ++ [event] <+: [] := by
        intro past event hprefix
        have hlength := hprefix.length_le
        simp at hlength
      exact .alive h₀ (fun past event hprefix ↦ absurd hprefix (hnot past event))
        fun past event hprefix ↦ absurd hprefix (hnot past event)
  | append_singleton events event ih =>
      have hphase := ih fun e he ↦ hregular e (by simp [he])
      cases hphase with
      | alive h hends hreturns =>
          have hreturns' : ∀ past e, past ++ [e] <+: events ++ [event] →
              ¬ (Runs.run (step text conn) s₀ past).Returns e := by
            intro past e hprefix
            rcases Runs.snoc_isPrefix_snoc.mp hprefix with ⟨rfl, rfl⟩ | hprefix
            · exact h.not_returns e
            · exact hreturns past e hprefix
          by_cases hends' : (Runs.run (step text conn) s₀ events).Ends event
          · obtain ⟨hgone, habsent⟩ : Gone s₀ (step text conn _ event) ∧ _ := gone_of_ends h hends'
            apply Phase.gone
            · rw [Runs.run_snoc]
              exact hgone
            · exact ⟨⟨events, event, List.prefix_rfl, hends'⟩, hreturns'⟩
            · intro hpos halone
              rw [Runs.run_snoc]
              exact habsent hpos (halone events event List.prefix_rfl hends').1
          · apply Phase.alive
            · rw [Runs.run_snoc]
              exact alive_step h (hregular event (by simp)) hends'
            · intro past e hprefix
              rcases Runs.snoc_isPrefix_snoc.mp hprefix with ⟨rfl, rfl⟩ | hprefix
              · exact hends'
              · exact hends past e hprefix
            · exact hreturns'
      | gone h hends habsent =>
          by_cases hreturns : (Runs.run (step text conn) s₀ events).Returns event
          · apply Phase.again
            · rw [Runs.run_snoc]
              exact again_of_returns h hreturns
            · exact ⟨events, event, List.prefix_rfl, hreturns⟩
          · obtain ⟨hgone, haway⟩ : Gone s₀ (step text conn _ event) ∧ (0 < userId → _) :=
              gone_step h hreturns
            apply Phase.gone
            · rw [Runs.run_snoc]
              exact hgone
            · exact endsOnce_snoc hends hreturns
            · intro hpos halone
              obtain ⟨⟨past, e, hpast, he⟩, -⟩ := hends
              obtain ⟨-, hspares⟩ := halone past e (hpast.trans (List.prefix_append _ _)) he
              obtain ⟨later, rfl⟩ := hpast
              rw [Runs.run_snoc]
              refine haway hpos ?_ (habsent hpos (endsAlone_of_snoc halone))
              rintro other cs rfl
              have h := hspares later other cs (by simp)
              rwa [List.append_cons] at h
      | again h hreturns =>
          obtain ⟨past, e, hprefix, he⟩ := hreturns
          apply Phase.again
          · rw [Runs.run_snoc]
            exact again_step h event
          · exact ⟨past, e, hprefix.trans (List.prefix_append _ _), he⟩

/-- The loss of the connection calls nothing. -/
theorem step_disconnect (text : JsonText) (conn : Conn) (s : Socket) (user : ℤ)
    (cs : ℕ → Circumstances) :
    (step text conn s (.own .disconnect user cs)).server = s.server ∧
      (step text conn s (.own .disconnect user cs)).connection.trace = s.connection.trace := by
  have htrace : (Http.HttpServer.step s.connection .disconnect).trace = s.connection.trace := by
    unfold Http.HttpServer.step
    split_ifs
    · rfl
    · simp only [Http.HttpServer.onDisconnect]
      split_ifs
      · rfl
      · rfl
  refine ⟨?_, htrace⟩
  have hnone : newEffects s.connection (Http.HttpServer.step s.connection .disconnect) = [] := by
    rw [newEffects, htrace, List.drop_length]
  change Runs.run (GameWsHandler.step text) s.server (handlerEvents conn user cs
    (newEffects s.connection (Http.HttpServer.step s.connection .disconnect))) = s.server
  rw [hnone]
  rfl

theorem alive_upgraded {c : Connection} (hrunning : c.status = .running) {r : HttpRequest}
    (hupgrade : validateUpgradeRequest r = true) {server : GomokuServer} (h : Sound server)
    (conn : Conn) (userId : ℤ) :
    Alive conn userId (upgraded c r server conn userId) (upgraded c r server conn userId) := by
  have hopened : handleUpgrade c r = { c with webSocket := some .isOpen }.did [.onOpen] :=
    if_pos hupgrade
  refine ⟨List.prefix_rfl, ⟨?_, ?_⟩, ?_, ?_, ?_⟩
  · rw [upgraded, hopened]
    exact hrunning
  · rw [upgraded, hopened]
    rfl
  · rw [Http.HttpServer.callbacks_self]
    simp
  · simp [upgraded, handle, setUserId, addToLobby]
  · obtain ⟨⟨lobby, hcopies⟩, hapart, hnodup⟩ := h
    exact ⟨⟨lobby, hcopies.holds, hcopies.stored⟩, hapart, hnodup⟩

/-- The store has been written by earlier calls, and nobody plays against himself in
a room that is recovered.  Whatever events come on an upgraded connection and on
the others until the connection is lost, `onClose` is called once and nothing is
called behind it exactly if the connection is closed before and is not opened
again.  The user is gone then if it was his only connection and the events of
other ones in between spared him. -/
theorem closed_once_iff (text : JsonText) (earlier : List (PvpGameService.Call × Faults))
    {values : Values} (hvalues : PvpGameService.run .empty earlier = some values)
    (recovery : Faults) (hapart : (GomokuServer.create values recovery).Apart)
    (history : List (GameWsHandler.Event × Circumstances)) (conn : Conn) (userId : ℤ)
    {c : Connection} (hrunning : c.status = .running) {r : HttpRequest}
    (hupgrade : validateUpgradeRequest r = true) {events : List Event}
    (hregular : ∀ event ∈ events, Regular conn event) (user : ℤ) (cs : ℕ → Circumstances)
    {s₀ s : Socket}
    (hs₀ : s₀ = upgraded c r
      (Runs.run (GameWsHandler.step text) (.create values recovery) history) conn userId)
    (hs : s = Runs.run (step text conn) s₀ (events ++ [.own .disconnect user cs])) :
    (ClosedOnce (callbacks s₀.connection s.connection) ↔ EndsOnce text conn s₀ events) ∧
      (EndsOnce text conn s₀ events → 0 < userId → EndsAlone text conn userId s₀ events →
        s.server.Absent userId) := by
  obtain ⟨_, lobby, hrun, hlobby, -⟩ := PvpGameService.run_holds Values.holds_empty earlier
  rw [hvalues] at hrun
  cases hrun
  have hsound : Sound (.create values recovery) :=
    ⟨⟨lobby, copies_create hlobby recovery⟩, hapart, List.nodup_nil⟩
  have h₀ : Alive conn userId s₀ s₀ :=
    hs₀ ▸ alive_upgraded hrunning hupgrade (hsound.run text history) conn userId
  obtain ⟨hserver, htrace⟩ :=
    step_disconnect text conn (Runs.run (step text conn) s₀ events) user cs
  rw [← Runs.run_snoc (step text conn) s₀ events, ← hs] at hserver htrace
  have hcallbacks : callbacks s₀.connection s.connection =
      callbacks s₀.connection (Runs.run (step text conn) s₀ events).connection := by
    rw [callbacks, newEffects, htrace]
    rfl
  rw [hcallbacks, hserver]
  have hphase : Phase text conn userId s₀ events := phase_run h₀ hregular
  cases hphase with
  | alive h hends hreturns =>
      have hnot : ¬ EndsOnce text conn s₀ events := by
        rintro ⟨⟨past, e, hprefix, he⟩, -⟩
        exact hends past e hprefix he
      refine ⟨iff_of_false ?_ hnot, fun hends ↦ absurd hends hnot⟩
      rintro ⟨before, hbefore, -⟩
      exact h.onClose (by simp [hbefore])
  | gone h hends habsent => exact ⟨iff_of_true h.closedOnce hends, fun _ ↦ habsent⟩
  | again h hreturns =>
      have hnot : ¬ EndsOnce text conn s₀ events := by
        obtain ⟨past, e, hprefix, he⟩ := hreturns
        exact fun hends ↦ hends.2 past e hprefix he
      exact ⟨iff_of_false h.not_closedOnce hnot, fun hends ↦ absurd hends hnot⟩

/-- User 7 has opened a connection to a new server. -/
def firstSocket : Socket :=
  upgraded .create Http.HttpServer.upgradeRequest (.create .empty .none) "a" 7

/-- The client sends a Close frame. -/
def closeFrame : Event :=
  .own (.chunk [136, 128, 1, 2, 3, 4] false) 7 fun _ ↦ ⟨0, .none, .none, 0⟩

/-- The connection is lost. -/
def lost : Event :=
  .own .disconnect 7 fun _ ↦ ⟨0, .none, .none, 0⟩

theorem user_leaves_with_closeFrame :
    ClosedOnce (callbacks firstSocket.connection
        (Runs.run (step .compact "a") firstSocket ([closeFrame] ++ [lost])).connection) ∧
      (Runs.run (step .compact "a") firstSocket ([closeFrame] ++ [lost])).server.Absent 7 := by
  have hends : firstSocket.Ends closeFrame := ⟨⟨by decide, by decide⟩, by decide +kernel⟩
  have hfirst : ∀ past (event : Event), past ++ [event] <+: [closeFrame] →
      past = [] ∧ event = closeFrame := by
    rintro past event ⟨later, hlater⟩
    cases past with
    | nil => exact ⟨rfl, (List.cons.inj hlater).1⟩
    | cons e past => simp at hlater
  have honce : EndsOnce .compact "a" firstSocket [closeFrame] := by
    refine ⟨⟨[], closeFrame, List.prefix_rfl, hends⟩, fun past event hprefix ↦ ?_⟩
    obtain ⟨rfl, rfl⟩ := hfirst past event hprefix
    rintro ⟨hwebSocket, -⟩
    exact absurd hwebSocket (by decide +kernel)
  have halone : EndsAlone .compact "a" 7 firstSocket [closeFrame] := by
    intro past event hprefix _
    obtain ⟨rfl, rfl⟩ := hfirst past event hprefix
    refine ⟨fun other hother ↦ ?_,
      fun later other cs hother ↦ absurd hother.length_le (by simp)⟩
    by_contra hne
    simp [firstSocket, upgraded, handle, setUserId, addToLobby, GomokuServer.create, hne] at hother
  have hapart : (GomokuServer.create .empty .none).Apart := by
    have hrooms : (GomokuServer.create .empty .none).gameRooms = [] := rfl
    simp [Apart, hrooms]
  have hupgrade : validateUpgradeRequest Http.HttpServer.upgradeRequest = true := by
    decide +kernel
  have hregular : ∀ event ∈ [closeFrame], Regular "a" event := by
    simp [Regular, closeFrame]
  have hfirstSocket : firstSocket = upgraded .create Http.HttpServer.upgradeRequest
      (Runs.run (GameWsHandler.step .compact) (.create .empty .none) []) "a" 7 := rfl
  obtain ⟨hiff, habsent⟩ := closed_once_iff .compact [] rfl .none hapart [] "a" 7 rfl hupgrade
    hregular 7 (fun _ ↦ ⟨0, .none, .none, 0⟩) hfirstSocket rfl
  exact ⟨hiff.mpr honce, habsent honce (by decide) halone⟩

/-- Nobody is told that the user has gone, and he stays in the lobby. -/
theorem user_stays_if_lost :
    ¬ ClosedOnce (callbacks firstSocket.connection
        (Runs.run (step .compact "a") firstSocket [lost]).connection) ∧
      ¬ (Runs.run (step .compact "a") firstSocket [lost]).server.Absent 7 := by
  have hcallbacks : callbacks firstSocket.connection
      (Runs.run (step .compact "a") firstSocket [lost]).connection = [] := by decide +kernel
  have hlobby : (7, some "a") ∈
      (Runs.run (step .compact "a") firstSocket [lost]).server.lobbyConnections := by
    decide +kernel
  constructor
  · rw [hcallbacks]
    rintro ⟨before, hbefore, -⟩
    simp at hbefore
  · exact fun habsent ↦ habsent.lobbyConnections _ hlobby

end Socket

end HttpRaftKv.Gomoku
