import HttpRaftKv.Http.HttpServer
import HttpRaftKv.Lib.Runs
import HttpRaftKv.WebSocket.Frames

/-!
# Frames on a connection

As long as the connection is open, what has been called and sent is decided by the
stream alone: it is what belongs to the frames of the stream up to the first Close
frame.  With this one the connection is no web socket any more, and the bytes
behind it stay in the buffer.
-/

namespace HttpRaftKv.Http

open WebSocket

namespace WebSocketServer

def isClose (frame : WebSocketFrame) : Bool :=
  frame.opCode = .close

/-- The frames at the front of a stream up to the first Close frame, and what
stands behind them. -/
def frames (bytes : Bytes) : List WebSocketFrame × Bytes :=
  frameDecoder.drain isClose bytes

/-- A Close frame is complete. -/
def closes (bytes : Bytes) : Bool :=
  (frames bytes).1.any isClose

theorem frames_of_none {bytes : Bytes} (h : nextFrame bytes = none) : frames bytes = ([], bytes) :=
  frameDecoder.drain_of_none h

theorem frames_append (bytes more : Bytes) :
    frames (bytes ++ more) =
      if closes bytes then ((frames bytes).1, (frames bytes).2 ++ more)
      else ((frames bytes).1 ++ (frames ((frames bytes).2 ++ more)).1,
        (frames ((frames bytes).2 ++ more)).2) :=
  frameDecoder.drain_append bytes more

theorem closes_append (bytes more : Bytes) :
    closes (bytes ++ more) = (closes bytes || closes ((frames bytes).2 ++ more)) := by
  cases hcloses : closes bytes with
  | true =>
      rw [closes, frames_append, if_pos hcloses, Bool.true_or]
      exact hcloses
  | false =>
      rw [closes, frames_append, hcloses, if_neg Bool.false_ne_true, List.any_append,
        show (frames bytes).1.any isClose = false from hcloses]
      rfl

/-! ## What is recorded -/

/-- The callbacks of the handler, and the frames that are sent. -/
def isCall : Effect → Bool
  | .parse _ => false
  | .request _ => false
  | .badRequest => false
  | _ => true

def calls (c : Connection) : List Effect :=
  c.trace.filter isCall

/-- The bytes that have been given to `parseRequest`. -/
def parses (c : Connection) : List Bytes :=
  c.trace.filterMap fun effect ↦
    match effect with
    | .parse buf => some buf
    | _ => none

theorem calls_did (c : Connection) (effects : List Effect) :
    calls (c.did effects) = calls c ++ effects.filter isCall := by
  simp [calls, Connection.did]

theorem parses_did (c : Connection) (effects : List Effect) :
    parses (c.did effects) = parses c ++ effects.filterMap fun effect ↦
      match effect with
      | .parse buf => some buf
      | _ => none := by
  simp [parses, Connection.did]

theorem filter_frameEffects (frame : WebSocketFrame) :
    (frameEffects frame).filter isCall = frameEffects frame := by
  unfold frameEffects
  split
  all_goals rfl

theorem filterMap_frameEffects (frame : WebSocketFrame) :
    ((frameEffects frame).filterMap fun effect ↦
      match effect with
      | .parse buf => some buf
      | _ => none) = [] := by
  unfold frameEffects
  split
  all_goals rfl

/-! ## The loop -/

/-- The frames in the buffer have been taken. -/
structure Drained (c c' : Connection) : Prop where
  status : c'.status = c.status
  buf : c'.buf = (frames c.buf).2
  webSocket : c'.webSocket = if closes c.buf then none else c.webSocket
  calls : calls c' = calls c ++ (frames c.buf).1.flatMap frameEffects
  parses : parses c' = parses c

theorem drained_of_none {c : Connection} (h : nextFrame c.buf = none) : Drained c c := by
  have hframes := frames_of_none h
  refine ⟨rfl, ?_, ?_, ?_, rfl⟩
  · rw [hframes]
  · rw [closes, hframes]
    rfl
  · rw [hframes]
    simp

theorem drained_receive {c c' : Connection} {frame : WebSocketFrame}
    (hparse : WebSocketFrame.parseFrame c.buf = .parsed frame)
    (hclose : frame.opCode = .close → c' = removeConnection (receive c frame))
    (hother : frame.opCode ≠ .close → Drained (receive c frame) c') : Drained c c' := by
  have hnext := nextFrame_eq_some.mpr ⟨hparse, rfl⟩
  have hframes : frames c.buf = _ := frameDecoder.drain_of_some hnext
  have hcalls : calls (receive c frame) = calls c ++ frameEffects frame := by
    unfold receive
    rw [calls_did, filter_frameEffects]
    rfl
  have hparses : parses (receive c frame) = parses c := by
    unfold receive
    rw [parses_did, filterMap_frameEffects, List.append_nil]
    rfl
  by_cases hop : frame.opCode = .close
  · rw [if_pos (by simp [isClose, hop])] at hframes
    rw [hclose hop]
    refine ⟨rfl, ?_, ?_, ?_, hparses⟩
    · rw [hframes]
      rfl
    · rw [closes, hframes, if_pos (by simp [isClose, hop])]
      rfl
    · rw [hframes, List.flatMap_singleton]
      exact hcalls
  · rw [if_neg (by simp [isClose, hop])] at hframes
    obtain ⟨hstatus, hbuf, hwebSocket, hcalls', hparses'⟩ := hother hop
    have hcloses : closes c.buf = closes (receive c frame).buf := by
      rw [closes, hframes, List.any_cons, show isClose frame = false by simp [isClose, hop],
        Bool.false_or]
      rfl
    refine ⟨hstatus, ?_, ?_, ?_, hparses'.trans hparses⟩
    · rw [hbuf, hframes]
      rfl
    · rw [hwebSocket, hcloses, receive, Connection.did, if_neg hop]
    · rw [hcalls', hcalls, hframes, List.flatMap_cons, List.append_assoc]
      rfl

theorem drained_frameLoop {size : ℕ} {c : Connection} (h : c.buf.length ≤ size) :
    Drained c (frameLoop size c) := by
  induction size generalizing c with
  | zero =>
      have hbuf := List.length_eq_zero_iff.mp (Nat.le_zero.mp h)
      exact drained_of_none (hbuf ▸ frameDecoder.next_nil)
  | succ size ih =>
      unfold frameLoop
      split_ifs with hbuf
      · exact drained_of_none (hbuf ▸ frameDecoder.next_nil)
      · cases hparse : WebSocketFrame.parseFrame c.buf with
        | incomplete => exact drained_of_none (by simp [nextFrame, hparse])
        | thrown =>
            obtain ⟨hstatus, hbuf', hwebSocket, hcalls, hparses⟩ :=
              drained_of_none (c := c) (by simp [nextFrame, hparse])
            refine ⟨hstatus, hbuf', hwebSocket, ?_, ?_⟩
            · rw [calls_did]
              simpa [isCall] using hcalls
            · rw [parses_did]
              simp
        | parsed frame =>
            have hshorter := frameDecoder.shorter (nextFrame_eq_some.mpr ⟨hparse, rfl⟩)
            refine drained_receive hparse (fun hop ↦ ?_) fun hop ↦ ?_
            · exact if_pos hop
            · simp only [if_neg hop]
              apply ih
              simp only [receive, Connection.did]
              omega

theorem drained_processFrame {c : Connection} (h : c.webSocket.isSome) :
    Drained c (processFrame c) := by
  unfold processFrame
  rw [if_pos h]
  exact drained_frameLoop (Nat.le_refl _)

end WebSocketServer

/-! ## The stream -/

namespace HttpServer

open WebSocketServer

/-- A piece that arrives on an open connection. -/
theorem drained_deliver {c : Connection} (hrunning : c.status = .running)
    (hopen : c.webSocket = some .isOpen) (chunk : Bytes × Bool) :
    Drained { c with buf := c.buf ++ chunk.1 } (deliver c chunk) := by
  rw [deliver_of_running hrunning, onMessage]
  by_cases hnil : c.buf ++ chunk.1 = []
  · simp only [hnil, if_true]
    exact drained_of_none frameDecoder.next_nil
  · simp only [hnil, if_false]
    rw [if_pos (by simp [isWebSocket, hopen])]
    exact drained_processFrame (by simp [hopen])

/-- The connection `c₀` is open and the bytes have arrived on it. -/
structure Follows (c₀ : Connection) (bytes : Bytes) (c : Connection) : Prop where
  status : c.status = .running
  buf : c.buf = (frames bytes).2
  webSocket : c.webSocket = if closes bytes then none else some .isOpen
  calls : calls c = calls c₀ ++ (frames bytes).1.flatMap frameEffects
  parses : parses c = parses c₀

theorem follows_of_drained {c c' : Connection} (h : Drained c c') (hrunning : c.status = .running)
    (hopen : c.webSocket = some .isOpen) : Follows c c.buf c' :=
  ⟨h.status.trans hrunning, h.buf, by rw [h.webSocket, hopen], h.calls, h.parses⟩

/-- The rest of the call of `onMessage` in which the connection was upgraded. -/
theorem follows_processRest {c : Connection} (hrunning : c.status = .running)
    (hopen : c.webSocket = some .isOpen) : Follows c c.buf (processRest c) := by
  unfold processRest
  by_cases hbuf : c.buf = []
  · rw [if_neg (by simp [hbuf])]
    exact follows_of_drained (drained_of_none (hbuf ▸ frameDecoder.next_nil)) hrunning hopen
  · rw [if_pos (by simp [isWebSocket, hopen, hbuf])]
    exact follows_of_drained (drained_processFrame (by simp [hopen])) hrunning hopen

namespace Follows

variable {c₀ c : Connection} {bytes : Bytes}

theorem append_nil (h : Follows c₀ bytes c) : Follows c₀ (bytes ++ []) c := by
  rwa [List.append_nil]

/-- A piece that leaves nothing in the buffer of a connection does nothing. -/
theorem deliver_nil (h : Follows c₀ bytes c) {chunk : Bytes × Bool}
    (hnil : c.buf ++ chunk.1 = []) : deliver c chunk = c := by
  have hbuf := (List.append_eq_nil_iff.mp hnil).1
  rw [deliver_of_running h.status, onMessage]
  simp only [hnil, if_true]
  rw [← hbuf]

/-- The frames of a piece are taken while no Close frame has come. -/
theorem deliver (h : Follows c₀ bytes c) (hopen : closes bytes = false) (chunk : Bytes × Bool) :
    Follows c₀ (bytes ++ chunk.1) (deliver c chunk) := by
  have hwebSocket : c.webSocket = some .isOpen := by
    rw [h.webSocket, hopen]
    rfl
  have hdrained := drained_deliver h.status hwebSocket chunk
  have hframes := frames_append bytes chunk.1
  rw [hopen, if_neg Bool.false_ne_true, ← h.buf] at hframes
  refine ⟨hdrained.status.trans h.status, ?_, ?_, ?_, hdrained.parses.trans h.parses⟩
  · rw [hdrained.buf, hframes]
  · have hcloses : closes (bytes ++ chunk.1) = closes (c.buf ++ chunk.1) := by
      rw [closes_append, hopen, Bool.false_or, ← h.buf]
    rw [hcloses, ← hwebSocket]
    exact hdrained.webSocket
  · rw [hdrained.calls, hframes, List.flatMap_append, ← List.append_assoc, ← h.calls]
    rfl

end Follows

/-! ## Nothing is taken back -/

theorem trace_frameLoop (size : ℕ) (c : Connection) : c.trace <+: (frameLoop size c).trace := by
  induction size generalizing c with
  | zero => exact List.prefix_rfl
  | succ size ih =>
      unfold frameLoop
      split_ifs
      · exact List.prefix_rfl
      · split
        · exact List.prefix_rfl
        · exact List.prefix_append _ _
        · next frame _ =>
            have hreceive : c.trace <+: (receive c frame).trace := List.prefix_append _ _
            split_ifs
            · exact hreceive
            · exact hreceive.trans (ih _)

theorem trace_processFrame (c : Connection) : c.trace <+: (processFrame c).trace := by
  unfold processFrame
  split_ifs
  · exact trace_frameLoop _ c
  · exact List.prefix_rfl

theorem trace_onRequest (c : Connection) (upgrade : Bool) :
    c.trace <+: (onRequest c upgrade).trace := by
  unfold onRequest handleUpgrade
  simp only
  split_ifs
  · exact (List.prefix_append _ _).trans (List.prefix_append _ _)
  · exact List.prefix_append _ _
  · exact List.prefix_append _ _

theorem trace_processRest (c : Connection) : c.trace <+: (processRest c).trace := by
  unfold processRest
  split_ifs
  · exact trace_processFrame c
  · exact List.prefix_rfl

theorem trace_afterParse (c : Connection) (upgrade : Bool) (outcome : Option HttpContext.Outcome) :
    c.trace <+: (afterParse c upgrade outcome).trace := by
  unfold afterParse
  split
  · exact List.prefix_rfl
  · exact List.prefix_rfl
  · exact List.prefix_append _ _
  · exact List.prefix_append _ _
  · next context buf =>
      simp only
      split_ifs
      · have hrequest := trace_onRequest { c with context := context, buf := buf } upgrade
        exact hrequest.trans (trace_processRest
          { onRequest { c with context := context, buf := buf } upgrade with
            context := (onRequest { c with context := context, buf := buf } upgrade).context.reset })
      · exact List.prefix_rfl

theorem trace_deliver (c : Connection) (chunk : Bytes × Bool) :
    c.trace <+: (deliver c chunk).trace := by
  by_cases hrunning : c.status = .running
  · rw [deliver_of_running hrunning, onMessage]
    simp only
    split_ifs
    · exact List.prefix_rfl
    · exact trace_processFrame { c with buf := c.buf ++ chunk.1 }
    · have hparse : c.trace <+: ({ c with buf := c.buf ++ chunk.1 }.did
          [.parse (c.buf ++ chunk.1)]).trace := List.prefix_append _ _
      exact hparse.trans (trace_afterParse _ _ _)
  · have hself : deliver c chunk = c := by simp [deliver, step, hrunning]
    exact hself.symm ▸ List.prefix_rfl

theorem trace_run (c : Connection) (chunks : List (Bytes × Bool)) :
    c.trace <+: (Runs.run deliver c chunks).trace :=
  Runs.invariant_of_step deliver (P := fun _ c' ↦ c.trace <+: c'.trace) List.prefix_rfl
    (fun _ chunk h ↦ h.trans (trace_deliver _ chunk)) chunks

theorem parses_mono {c c' : Connection} (h : c.trace <+: c'.trace) : parses c <+: parses c' := by
  obtain ⟨rest, hrest⟩ := h
  exact ⟨_, by rw [parses, parses, ← hrest, List.filterMap_append]⟩

/-- After a Close frame, the next bytes are given to the parser of requests. -/
theorem parses_deliver_of_follows {c₀ c : Connection} {bytes : Bytes} (h : Follows c₀ bytes c)
    (hclosed : closes bytes = true) {chunk : Bytes × Bool} (hne : c.buf ++ chunk.1 ≠ []) :
    parses c ++ [c.buf ++ chunk.1] <+: parses (deliver c chunk) := by
  have hwebSocket : c.webSocket = none := by
    rw [h.webSocket, hclosed]
    rfl
  have hdeliver : HttpServer.deliver c chunk =
      afterParse ({ c with buf := c.buf ++ chunk.1 }.did [.parse (c.buf ++ chunk.1)]) chunk.2
        (c.context.parseRequest (c.buf ++ chunk.1)) := by
    rw [deliver_of_running h.status]
    simp [onMessage, hne, isWebSocket, hwebSocket]
  have hparsed : parses ({ c with buf := c.buf ++ chunk.1 }.did [.parse (c.buf ++ chunk.1)]) =
      parses c ++ [c.buf ++ chunk.1] := parses_did _ _
  rw [hdeliver, ← hparsed]
  exact parses_mono (trace_afterParse _ _ _)

end HttpServer

end HttpRaftKv.Http
