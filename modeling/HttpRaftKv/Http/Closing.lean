import HttpRaftKv.Http.WebSockets

/-!
# The end of a web socket

An open connection ends with a Close frame or with `closeConnection`, and then the
handler is told so.  If the network goes away, the connection is removed and the
handler is not told.  A connection that has ended is read on, and a request on it
can open it again.
-/

namespace HttpRaftKv.Http

open WebSocket

namespace HttpServer

open WebSocketServer

/-! ## What a step adds -/

/-- What has been done since `c₀`. -/
def newEffects (c₀ c : Connection) : List Effect :=
  c.trace.drop c₀.trace.length

/-- The callbacks of the handler. -/
def isCallback : Effect → Bool
  | .onOpen => true
  | .onMessage _ => true
  | .onPing _ => true
  | .onPong _ => true
  | .onClose => true
  | _ => false

def callbacks (c₀ c : Connection) : List Effect :=
  (newEffects c₀ c).filter isCallback

theorem trace_eq_append {c₀ c : Connection} (h : c₀.trace <+: c.trace) :
    c.trace = c₀.trace ++ newEffects c₀ c := by
  obtain ⟨rest, hrest⟩ := h
  rw [newEffects, ← hrest, List.drop_left]

theorem callbacks_self (c : Connection) : callbacks c c = [] := by
  simp [callbacks, newEffects]

theorem newEffects_trans {c₀ c c' : Connection} (h : c₀.trace <+: c.trace)
    (h' : c.trace <+: c'.trace) : newEffects c₀ c' = newEffects c₀ c ++ newEffects c c' := by
  have heq := trace_eq_append h'
  rw [trace_eq_append h, List.append_assoc] at heq
  rw [newEffects, heq, List.drop_left]

theorem callbacks_trans {c₀ c c' : Connection} (h : c₀.trace <+: c.trace)
    (h' : c.trace <+: c'.trace) : callbacks c₀ c' = callbacks c₀ c ++ callbacks c c' := by
  rw [callbacks, newEffects_trans h h', List.filter_append]
  rfl

theorem trace_closeConnection (c : Connection) :
    c.trace <+: (WebSocketServer.closeConnection c).trace := by
  unfold WebSocketServer.closeConnection
  simp only
  split_ifs
  · exact (List.prefix_append _ _).trans (List.prefix_append _ _)
  · exact List.prefix_append _ _

theorem trace_step (c : Connection) (event : Event) : c.trace <+: (step c event).trace := by
  cases event with
  | chunk bytes upgrade => exact trace_deliver c (bytes, upgrade)
  | closeConnection =>
      unfold step
      split_ifs
      · exact List.prefix_rfl
      · exact trace_closeConnection c
  | disconnect =>
      unfold step
      split_ifs
      · exact List.prefix_rfl
      · simp only [onDisconnect]
        split_ifs
        · exact List.prefix_rfl
        · exact List.prefix_rfl

/-! ## Events of an open connection -/

/-- Frames are expected. -/
structure Open (c : Connection) : Prop where
  status : c.status = .running
  webSocket : c.webSocket = some .isOpen

/-- The event ends the web socket: it completes a Close frame, or the server closes
the connection. -/
def Closes (c : Connection) : Event → Prop
  | .chunk bytes _ => closes (c.buf ++ bytes) = true
  | .closeConnection => True
  | .disconnect => False

instance (c : Connection) : (event : Event) → Decidable (Closes c event)
  | .chunk bytes _ => inferInstanceAs (Decidable (closes (c.buf ++ bytes) = true))
  | .closeConnection => inferInstanceAs (Decidable True)
  | .disconnect => inferInstanceAs (Decidable False)

/-- The rest of the call in which the connection was upgraded does what a piece
without bytes does. -/
theorem processRest_eq_step {c : Connection} (h : Open c) (upgrade : Bool) :
    processRest c = step c (.chunk [] upgrade) := by
  have hbuf : { c with buf := c.buf ++ [] } = c := by rw [List.append_nil]
  have hstep : step c (.chunk [] upgrade) = onMessage c [] upgrade :=
    deliver_of_running h.status ([], upgrade)
  have hsocket : isWebSocket c = true := by simp [isWebSocket, h.webSocket]
  rw [hstep, onMessage, processRest, hbuf]
  by_cases hnil : c.buf = []
  · simp [hnil]
  · simp [hnil, hsocket]

theorem onClose_notMem_frameEffects {frame : WebSocketFrame} (h : isClose frame = false) :
    Effect.onClose ∉ frameEffects frame := by
  unfold frameEffects
  split
  all_goals simp_all [isClose]

theorem onOpen_notMem_frameEffects (frame : WebSocketFrame) :
    Effect.onOpen ∉ frameEffects frame := by
  unfold frameEffects
  split
  all_goals simp

/-- The callbacks for a piece are those for its frames. -/
theorem callbacks_chunk {c : Connection} (h : Open c) (bytes : Bytes) (upgrade : Bool) :
    callbacks c (step c (.chunk bytes upgrade)) =
      ((frames (c.buf ++ bytes)).1.flatMap frameEffects).filter isCallback := by
  have hcalls : calls (step c (.chunk bytes upgrade)) = _ :=
    (drained_deliver h.status h.webSocket (bytes, upgrade)).calls
  have hnew : calls (step c (.chunk bytes upgrade)) =
      calls c ++ (newEffects c (step c (.chunk bytes upgrade))).filter isCall := by
    rw [calls, trace_eq_append (trace_step c (.chunk bytes upgrade)), List.filter_append]
    rfl
  have heq := List.append_cancel_left (hnew.symm.trans hcalls)
  have hcallback : ∀ effect, (isCallback effect && isCall effect) = isCallback effect := by
    intro effect
    cases effect
    all_goals rfl
  rw [← heq, List.filter_filter]
  simp only [hcallback]
  rfl

theorem notMem_flatMap_frameEffects {fs : List WebSocketFrame} (h : fs.any isClose = false) :
    Effect.onClose ∉ fs.flatMap frameEffects := by
  intro hmem
  obtain ⟨frame, hframe, hmem⟩ := List.mem_flatMap.mp hmem
  refine onClose_notMem_frameEffects ?_ hmem
  simpa using List.any_eq_false.mp h frame hframe

theorem onOpen_notMem_flatMap_frameEffects (fs : List WebSocketFrame) :
    Effect.onOpen ∉ fs.flatMap frameEffects := by
  intro hmem
  obtain ⟨frame, -, hmem⟩ := List.mem_flatMap.mp hmem
  exact onOpen_notMem_frameEffects frame hmem

/-- Before its end, the connection stays open and the handler is not told that it
is closed. -/
theorem step_open {c : Connection} (h : Open c) {event : Event} (hdisconnect : event ≠ .disconnect)
    (hcloses : ¬ Closes c event) :
    Open (step c event) ∧ Effect.onClose ∉ callbacks c (step c event) ∧
      Effect.onOpen ∉ callbacks c (step c event) := by
  cases event with
  | closeConnection => exact absurd trivial hcloses
  | disconnect => exact absurd rfl hdisconnect
  | chunk bytes upgrade =>
      have hopen : closes (c.buf ++ bytes) = false := by simpa [Closes] using hcloses
      have hdrained := drained_deliver h.status h.webSocket (bytes, upgrade)
      refine ⟨⟨hdrained.status.trans h.status, ?_⟩, ?_⟩
      · have hwebSocket := hdrained.webSocket
        rw [hopen, if_neg Bool.false_ne_true] at hwebSocket
        exact hwebSocket.trans h.webSocket
      · rw [callbacks_chunk h]
        exact ⟨fun hmem ↦ notMem_flatMap_frameEffects hopen (List.mem_of_mem_filter hmem),
          fun hmem ↦ onOpen_notMem_flatMap_frameEffects _ (List.mem_of_mem_filter hmem)⟩

/-- At its end, the handler is told so, after the frames that have come before. -/
theorem step_closes {c : Connection} (h : Open c) {event : Event} (hcloses : Closes c event) :
    (step c event).webSocket = none ∧ ∃ before, callbacks c (step c event) = before ++ [.onClose] ∧
      Effect.onClose ∉ before ∧ Effect.onOpen ∉ before := by
  cases event with
  | disconnect => exact absurd hcloses id
  | closeConnection =>
      have hstep : step c .closeConnection = WebSocketServer.closeConnection c := by
        simp [step, h.status]
      rw [hstep]
      refine ⟨rfl, [], ?_, by simp, by simp⟩
      simp [callbacks, newEffects, WebSocketServer.closeConnection, removeConnection,
        Connection.did, h.webSocket, isCallback]
  | chunk bytes upgrade =>
      have hdrained := drained_deliver h.status h.webSocket (bytes, upgrade)
      have hwebSocket := hdrained.webSocket
      rw [if_pos (show closes (c.buf ++ bytes) = true from hcloses)] at hwebSocket
      refine ⟨hwebSocket, ?_⟩
      obtain ⟨before, last, hframes, hlast, hbefore⟩ := frameDecoder.exists_last_of_drain hcloses
      have hclose : frameEffects last = [.send (WebSocketFrame.createFrame .close [] false
          []).encodeToString, .onClose] := by
        have hop : last.opCode = .close := by simpa [isClose] using hlast
        rw [frameEffects, hop]
      refine ⟨(before.flatMap frameEffects).filter isCallback, ?_, ?_, ?_⟩
      · rw [callbacks_chunk h, show (frames (c.buf ++ bytes)).1 = before ++ [last] from hframes,
          List.flatMap_append, List.flatMap_singleton, List.filter_append, hclose]
        rfl
      · exact fun hmem ↦ notMem_flatMap_frameEffects hbefore (List.mem_of_mem_filter hmem)
      · exact fun hmem ↦ onOpen_notMem_flatMap_frameEffects _ (List.mem_of_mem_filter hmem)

/-! ## Events of a connection that has ended -/

/-- The parser has found a request for an upgrade, which is served. -/
def Upgrades (upgrade : Bool) (outcome : Option HttpContext.Outcome) : Prop :=
  upgrade = true ∧ ∃ context rest, outcome = some (.returned true context rest) ∧
    context.state = .gotAll ∧ validateUpgradeRequest context.request = true

/-- The event opens a connection that has ended again. -/
def Reopens (c : Connection) : Event → Prop
  | .chunk bytes upgrade =>
      c.status = .running ∧ c.buf ++ bytes ≠ [] ∧
        Upgrades upgrade (c.context.parseRequest (c.buf ++ bytes))
  | .closeConnection => False
  | .disconnect => False

theorem callbacks_of_trace {c c' : Connection} {effects : List Effect}
    (h : c'.trace = c.trace ++ effects) : callbacks c c' = effects.filter isCallback := by
  rw [callbacks, newEffects, h, List.drop_left]

/-- What the rest of `onMessage` calls, on a connection that is no web socket. -/
theorem callbacks_afterParse {c : Connection} (hwebSocket : c.webSocket = none) {upgrade : Bool}
    {outcome : Option HttpContext.Outcome} (h : ¬ Upgrades upgrade outcome) :
    (afterParse c upgrade outcome).webSocket = none ∧
      callbacks c (afterParse c upgrade outcome) = [] := by
  have hsame : ∀ c' : Connection, c'.webSocket = c.webSocket → c'.trace = c.trace →
      c'.webSocket = none ∧ callbacks c c' = [] := by
    intro c' hsocket htrace
    exact ⟨hsocket.trans hwebSocket, callbacks_of_trace (htrace.trans (List.append_nil _).symm)⟩
  have hbad : ∀ c' : Connection, c'.webSocket = c.webSocket → c'.trace = c.trace ++ [.badRequest] →
      c'.webSocket = none ∧ callbacks c c' = [] := by
    intro c' hsocket htrace
    exact ⟨hsocket.trans hwebSocket, callbacks_of_trace htrace⟩
  rcases outcome with _ | ⟨ok, context, buf⟩ | ⟨context, buf⟩ | _
  · exact hsame _ rfl rfl
  · cases ok with
    | false => exact hbad _ rfl rfl
    | true =>
        by_cases hgot : context.state = .gotAll
        · have hupgrade : (upgrade && validateUpgradeRequest context.request) = false := by
            rw [Bool.eq_false_iff]
            intro hupgrade
            obtain ⟨hupgrade, hvalid⟩ := Bool.and_eq_true_iff.mp hupgrade
            exact h ⟨hupgrade, context, buf, rfl, hgot, hvalid⟩
          have hrequest : afterParse c upgrade (some (.returned true context buf)) = _ :=
            afterParse_request hwebSocket hgot hupgrade
          have htrace : (afterParse c upgrade (some (.returned true context buf))).trace =
              c.trace ++ [.request context.request] := by
            rw [hrequest]
            rfl
          refine ⟨?_, callbacks_of_trace htrace⟩
          rw [hrequest]
          exact hwebSocket
        · rw [afterParse_waits c upgrade hgot]
          exact hsame _ rfl rfl
  · exact hbad _ rfl rfl
  · exact hsame _ rfl rfl

theorem onOpen_mem_afterParse (c : Connection) {upgrade : Bool}
    {outcome : Option HttpContext.Outcome} (h : Upgrades upgrade outcome) :
    Effect.onOpen ∈ callbacks c (afterParse c upgrade outcome) := by
  obtain ⟨rfl, context, rest, rfl, hgot, hvalid⟩ := h
  have htrace : c.trace ++ [.request context.request, .onOpen] <+:
      (afterParse c true (some (.returned true context rest))).trace := by
    rw [afterParse_upgrade c hgot hvalid]
    exact trace_processRest ({ c with
      context := context.reset
      buf := rest
      webSocket := some .isOpen }.did [.request context.request, .onOpen])
  obtain ⟨later, hlater⟩ := htrace
  rw [List.append_assoc] at hlater
  rw [callbacks_of_trace hlater.symm]
  simp [isCallback]

/-- After its end, the connection stays closed and nothing is called, unless it is
opened again. -/
theorem step_closed {c : Connection} (hwebSocket : c.webSocket = none) (event : Event) :
    ((step c event).webSocket = none ∧ callbacks c (step c event) = [] ∧ ¬ Reopens c event) ∨
      (Effect.onOpen ∈ callbacks c (step c event) ∧ Reopens c event) := by
  by_cases hrunning : c.status = .running
  · cases event with
    | chunk bytes upgrade =>
        have hstep : step c (.chunk bytes upgrade) = onMessage c bytes upgrade :=
          deliver_of_running hrunning (bytes, upgrade)
        rw [hstep]
        by_cases hnil : c.buf ++ bytes = []
        · have hmessage : onMessage c bytes upgrade = { c with buf := c.buf ++ bytes } := by
            unfold onMessage
            exact if_pos hnil
          rw [hmessage]
          exact .inl ⟨hwebSocket, callbacks_self c, fun h ↦ h.2.1 hnil⟩
        · rw [onMessage_of_requests hwebSocket hnil]
          generalize hparsed : { c with buf := c.buf ++ bytes }.did [.parse (c.buf ++ bytes)] = d
          have htrace : d.trace = c.trace ++ [.parse (c.buf ++ bytes)] := by
            rw [← hparsed]
            rfl
          have hsocket : d.webSocket = none := by
            rw [← hparsed]
            exact hwebSocket
          have hcallbacks : ∀ outcome, callbacks c (afterParse d upgrade outcome) =
              callbacks d (afterParse d upgrade outcome) := by
            intro outcome
            rw [callbacks_trans (htrace ▸ List.prefix_append _ _) (trace_afterParse d _ _),
              callbacks_of_trace htrace]
            rfl
          rw [hcallbacks]
          by_cases hupgrades : Upgrades upgrade (c.context.parseRequest (c.buf ++ bytes))
          · exact .inr ⟨onOpen_mem_afterParse d hupgrades, hrunning, hnil, hupgrades⟩
          · obtain ⟨hsocket', hnone⟩ := callbacks_afterParse hsocket hupgrades
            exact .inl ⟨hsocket', hnone, fun h ↦ hupgrades h.2.2⟩
    | closeConnection =>
        refine .inl ⟨?_, ?_, id⟩
        · simp [step, hrunning, WebSocketServer.closeConnection, removeConnection]
        · simp [step, hrunning, callbacks, newEffects, WebSocketServer.closeConnection,
            removeConnection, Connection.did, hwebSocket, isCallback]
    | disconnect =>
        have hstep : step c .disconnect = c := by
          simp [step, hrunning, onDisconnect, isWebSocket, hwebSocket]
        rw [hstep]
        exact .inl ⟨hwebSocket, callbacks_self c, id⟩
  · have hstep : step c event = c := by simp [step, hrunning]
    rw [hstep]
    refine .inl ⟨hwebSocket, callbacks_self c, ?_⟩
    cases event with
    | chunk bytes upgrade => exact fun h ↦ hrunning h.1
    | closeConnection => exact id
    | disconnect => exact id

end HttpServer

end HttpRaftKv.Http
