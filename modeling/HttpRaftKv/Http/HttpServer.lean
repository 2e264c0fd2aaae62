import HttpRaftKv.Http.HttpContext
import HttpRaftKv.WebSocket.WebSocketFrame
import Mathlib.Data.List.Infix

/-!
# A connection

What the server does with the bytes of one connection.  As long as the connection
is registered as a web socket they are frames, otherwise they are requests.  The
choice is made anew with every piece of the stream.  With TLS a piece is what has
been decrypted, and it may be empty.
-/

namespace HttpRaftKv.Http

open WebSocket

inductive WebSocketState
  | connecting
  | isOpen
  | closing
  | closed
deriving DecidableEq, Repr

/-- What the server does, in the order in which it does it. -/
inductive Effect
  /-- `parseRequest` is called with these bytes in the buffer. -/
  | parse (buf : Bytes)
  /-- The callback is called. -/
  | request (r : HttpRequest)
  /-- The client is told that its request is bad, and the write side is closed. -/
  | badRequest
  | onOpen
  | onMessage (payload : Bytes)
  | onPing (payload : Bytes)
  | onPong (payload : Bytes)
  | onClose
  /-- A frame is sent. -/
  | send (wireData : Bytes)
deriving DecidableEq, Repr

/-- The process may have been aborted, or a loop of it does not end. -/
inductive Status
  | running
  | aborted
  | hanging
deriving DecidableEq, Repr

structure Connection where
  buf : Bytes
  context : HttpContext
  /-- The entry of the connection among the contexts and the handlers. -/
  webSocket : Option WebSocketState
  status : Status
  trace : List Effect
deriving DecidableEq, Repr

namespace Connection

/-- A connection that has been accepted. -/
def create : Connection where
  buf := []
  context := .create
  webSocket := none
  status := .running
  trace := []

def did (c : Connection) (effects : List Effect) : Connection :=
  { c with trace := c.trace ++ effects }

end Connection

/-! ## Web sockets -/

namespace WebSocketServer

def validateUpgradeRequest (r : HttpRequest) : Bool :=
  r.method = .get && r.getHeader (ascii "Upgrade") = ascii "websocket" &&
    ascii "Upgrade" <:+: r.getHeader (ascii "Connection") &&
    r.getHeader (ascii "Sec-WebSocket-Key") ≠ [] &&
    r.getHeader (ascii "Sec-WebSocket-Version") = ascii "13"

def isWebSocket (c : Connection) : Bool :=
  c.webSocket = some .isOpen

def removeConnection (c : Connection) : Connection :=
  { c with webSocket := none }

/-- The part of `handleUpgrade` that changes the connection. -/
def handleUpgrade (c : Connection) (r : HttpRequest) : Connection :=
  if validateUpgradeRequest r then { c with webSocket := some .isOpen }.did [.onOpen] else c

/-- What is called and sent for a frame. -/
def frameEffects (frame : WebSocketFrame) : List Effect :=
  match frame.opCode with
  | .text => [.onMessage frame.payload]
  | .binary => [.onMessage frame.payload]
  | .ping =>
      [.send (WebSocketFrame.createFrame .pong frame.payload false []).encodeToString,
        .onPing frame.payload]
  | .pong => [.onPong frame.payload]
  | .close => [.send (WebSocketFrame.createFrame .close [] false []).encodeToString, .onClose]
  | .continuation => []
  | .reserved _ => []

/-- `parseFrame` of the context, and what the loop does with the frame. -/
def receive (c : Connection) (frame : WebSocketFrame) : Connection :=
  { c with
    buf := c.buf.drop (WebSocketContext.wireSize c.buf frame)
    webSocket := if frame.opCode = WebSocketOpCode.close then some .closing else c.webSocket }.did
    (frameEffects frame)

/-- The loop of `processFrame`, which takes at least two bytes with each frame.  An
exception is caught by the caller, who answers with a bad request. -/
def frameLoop : ℕ → Connection → Connection
  | 0, c => c
  | size + 1, c =>
      if c.buf = [] then c
      else
        match WebSocketFrame.parseFrame c.buf with
        | .incomplete => c
        | .thrown => c.did [.badRequest]
        | .parsed frame =>
            if frame.opCode = .close then removeConnection (receive c frame)
            else frameLoop size (receive c frame)

def processFrame (c : Connection) : Connection :=
  if c.webSocket.isSome then frameLoop c.buf.length c else c

def closeConnection (c : Connection) : Connection :=
  let c := c.did [.send (WebSocketFrame.createFrame .close [] false []).encodeToString]
  removeConnection (if c.webSocket.isSome then c.did [.onClose] else c)

end WebSocketServer

/-! ## Requests -/

namespace HttpServer

open WebSocketServer

/-- `upgrade` says whether the handler of the request asks for an upgrade. -/
def onRequest (c : Connection) (upgrade : Bool) : Connection :=
  let called := c.did [.request c.context.request]
  if upgrade then handleUpgrade called c.context.request else called

/-- The part of `onMessage` behind the response.  The first frames may have arrived
together with the request for the upgrade. -/
def processRest (c : Connection) : Connection :=
  if isWebSocket c && c.buf ≠ [] then processFrame c else c

/-- The part of `onMessage` behind `parseRequest`. -/
def afterParse (c : Connection) (upgrade : Bool) : Option HttpContext.Outcome → Connection
  | none => { c with status := .hanging }
  | some .aborted => { c with status := .aborted }
  | some (.thrown context buf) => { c with context := context, buf := buf }.did [.badRequest]
  | some (.returned false context buf) =>
      { c with context := context, buf := buf }.did [.badRequest]
  | some (.returned true context buf) =>
      let c := { c with context := context, buf := buf }
      if context.state = .gotAll then
        let c := onRequest c upgrade
        processRest { c with context := c.context.reset }
      else c

/-- `onMessage` with the bytes of the connection. -/
def onMessage (c : Connection) (chunk : Bytes) (upgrade : Bool) : Connection :=
  let c := { c with buf := c.buf ++ chunk }
  if c.buf = [] then c
  else if isWebSocket c then processFrame c
  else afterParse (c.did [.parse c.buf]) upgrade (c.context.parseRequest c.buf)

/-- `onConnection` for a connection that is gone. -/
def onDisconnect (c : Connection) : Connection :=
  if isWebSocket c then removeConnection c else c

inductive Event
  | chunk (bytes : Bytes) (upgrade : Bool)
  | closeConnection
  | disconnect
deriving DecidableEq, Repr

def step (c : Connection) (event : Event) : Connection :=
  if c.status ≠ .running then c
  else
    match event with
    | .chunk bytes upgrade => onMessage c bytes upgrade
    | .closeConnection => WebSocketServer.closeConnection c
    | .disconnect => onDisconnect c

/-- A piece arrives, and the handler of a request that it completes asks for an
upgrade or not. -/
def deliver (c : Connection) (chunk : Bytes × Bool) : Connection :=
  step c (.chunk chunk.1 chunk.2)

theorem deliver_of_running {c : Connection} (h : c.status = .running) (chunk : Bytes × Bool) :
    deliver c chunk = onMessage c chunk.1 chunk.2 := by
  simp [deliver, step, h]

theorem onMessage_of_requests {c : Connection} (hwebSocket : c.webSocket = none) {chunk : Bytes}
    (hbuf : c.buf ++ chunk ≠ []) (upgrade : Bool) :
    onMessage c chunk upgrade =
      afterParse ({ c with buf := c.buf ++ chunk }.did [.parse (c.buf ++ chunk)]) upgrade
        (c.context.parseRequest (c.buf ++ chunk)) := by
  simp [onMessage, hbuf, isWebSocket, hwebSocket]

theorem afterParse_waits (c : Connection) (upgrade : Bool) {context : HttpContext}
    (hstate : context.state ≠ .gotAll) {buf : Bytes} :
    afterParse c upgrade (some (.returned true context buf)) =
      { c with context := context, buf := buf } := by
  simp [afterParse, hstate]

theorem afterParse_request {c : Connection} (hwebSocket : c.webSocket = none) {upgrade : Bool}
    {context : HttpContext} (hgot : context.state = .gotAll)
    (hupgrade : (upgrade && validateUpgradeRequest context.request) = false) {buf : Bytes} :
    afterParse c upgrade (some (.returned true context buf)) =
      { c with context := context.reset, buf := buf }.did [.request context.request] := by
  have hcalled : onRequest { c with context := context, buf := buf } upgrade =
      { c with context := context, buf := buf }.did [.request context.request] := by
    cases upgrade with
    | false => rfl
    | true =>
        rw [Bool.true_and] at hupgrade
        simp [onRequest, handleUpgrade, Connection.did, hupgrade]
  unfold afterParse
  simp only [if_pos hgot, hcalled]
  rw [processRest, if_neg (by simp [isWebSocket, Connection.did, hwebSocket])]
  rfl

/-- The bytes behind a request for an upgrade are frames. -/
theorem afterParse_upgrade (c : Connection) {context : HttpContext}
    (hgot : context.state = .gotAll) (hupgrade : validateUpgradeRequest context.request = true)
    (buf : Bytes) :
    afterParse c true (some (.returned true context buf)) =
      processRest ({ c with context := context.reset, buf := buf, webSocket := some .isOpen }.did
        [.request context.request, .onOpen]) := by
  have hcalled : onRequest { c with context := context, buf := buf } true =
      { c with context := context, buf := buf, webSocket := some .isOpen }.did
        [.request context.request, .onOpen] := by
    simp [onRequest, handleUpgrade, Connection.did, hupgrade]
  unfold afterParse
  simp only [if_pos hgot, hcalled]
  rfl

end HttpServer

end HttpRaftKv.Http
