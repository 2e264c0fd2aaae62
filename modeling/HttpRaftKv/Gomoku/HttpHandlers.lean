import HttpRaftKv.Gomoku.AiGame
import HttpRaftKv.Gomoku.GameWsHandler
import HttpRaftKv.Http.HttpServer
import HttpRaftKv.Http.Middleware
import HttpRaftKv.Http.SessionManager
import HttpRaftKv.Lib.Throwing

/-!
# The handlers of requests

Each handler fills the response and changes the state of the server, and it may throw
an exception.  An exception is given by its text.  What the handlers do not decide is
given by the circumstances of the request: the answers of the rate limiter, the data
base and the file system, and the texts of the JSON library.
-/

namespace HttpRaftKv.Gomoku

open Http Throwing

/-! ## Texts -/

def utf8 (text : String) : Bytes :=
  text.toUTF8.data.toList

def fromUTF8? (text : Bytes) : Option String :=
  String.fromUTF8? ⟨text.toArray⟩

/-- What is not up to the handlers while they answer one request. -/
structure Surroundings where
  /-- The JSON library, with `dump` and `parse`. -/
  text : JsonText
  /-- `dump(4)`. -/
  dumpIndented : Json → String
  /-- The exception of `parse` for a text.  It may quote the bytes of the text. -/
  parseError : Bytes → Bytes
  /-- The exception of an access to a value of another type. -/
  accessError : String
  /-- The exception of `dump` for a value with a text that is not UTF-8. -/
  dumpError : Bytes → Bytes
  /-- The rate limiter lets the request pass. -/
  allowed : Bool
  useSSL : Bool
  /-- The digits of a new session. -/
  draws : Fin 32 → Fin 16
  /-- The files that can be opened. -/
  files : String → Option Bytes
  /-- The queries to the data base by their number, statement and parameters, with
  the number in the first row of the result or the text of an exception. -/
  executeQuery : ℕ → String → List String → Except Bytes (Option ℤ)
  executeUpdate : String → List String → Except Bytes Unit
  computeAcceptKey : Bytes → Bytes
  rand : ℕ
  /-- The connection of the request. -/
  conn : Conn
  game : GameWsHandler.Circumstances

/-- The state of the server while a request is answered. -/
structure Exchange where
  resp : HttpResponse
  sessions : SessionStorage
  onlineUsers : List (ℤ × Bool)
  maxOnline : ℤ
  aiGames : List (ℤ × AiGame)
  server : GomokuServer

abbrev Handling := EStateM Bytes Exchange

namespace Surroundings

variable (cs : Surroundings)

def parse (body : Bytes) : Except Bytes Json :=
  match (fromUTF8? body).bind cs.text.parse with
  | some value => .ok value
  | none => .error (cs.parseError body)

/-- `value[key]` as a value of a type of C++. -/
def field {α : Type} (get? : Json → Option α) (value : Json) (key : String) : Except Bytes α :=
  match (value.at? key).bind get? with
  | some a => .ok a
  | none => .error (utf8 cs.accessError)

/-- `dump(4)`. -/
def indented (fields : List (String × Json)) : Bytes :=
  utf8 (cs.dumpIndented (.ofFields fields))

/-- `dump()`. -/
def compact (fields : List (String × Json)) : Bytes :=
  utf8 (cs.text.dump (.ofFields fields))

end Surroundings

/-! ## Responses -/

def fill (f : HttpResponse → HttpResponse) : Handling Unit :=
  modify fun e ↦ { e with resp := f e.resp }

/-- The calls with which most handlers fill a response. -/
def reply (r : HttpRequest) (statusCode : HttpStatusCode) (statusMessage : String) (close : Bool)
    (contentType : String) (body : Bytes) : Handling Unit :=
  fill fun resp ↦
    ((((resp.setStatusLine r.version statusCode (ascii statusMessage)).setCloseConnection
      close).setContentType (ascii contentType)).setContentLength body.length).setBody body

/-- The conversion of a `size_t` to an `int`. -/
def toInt (size : ℕ) : ℤ :=
  (size : ℤ).bmod (2 ^ 32)

/-- The conversion of an `int` to a `uint64_t`. -/
def toUInt64 (k : ℤ) : ℕ :=
  (k % 2 ^ 64).toNat

/-- `packageResp`, which takes the length as an `int`.  None of its calls throws. -/
def packageResp (r : HttpRequest) (statusCode : HttpStatusCode) (statusMsg : String)
    (close : Bool) (contentType : String) (body : Bytes) : Handling Unit :=
  fill fun resp ↦
    ((((((resp.setVersion r.version).setStatusCode statusCode).setStatusMessage
      (ascii statusMsg)).setCloseConnection close).setContentType
      (ascii contentType)).setContentLength (toUInt64 (toInt body.length))).setBody body

/-- The answer to a user who is not logged in. -/
def unauthorized (cs : Surroundings) (r : HttpRequest) : Handling Unit :=
  packageResp r .k401Unauthorized "Unauthorized" true "application/json"
    (cs.indented [("status", .string "error"), ("message", .string "Unauthorized")])

/-- The text of an exception as a value of JSON; `dump` throws if it is not UTF-8. -/
def what (cs : Surroundings) (text : Bytes) : Handling Json := do
  return .string (← orThrow (fromUTF8? text) (cs.dumpError text))

/-- The answer of several handlers to an exception that they catch. -/
def badRequest (cs : Surroundings) (r : HttpRequest) (text : Bytes) : Handling Unit := do
  let message ← what cs text
  reply r .k400BadRequest "Bad Request" true "application/json"
    (cs.indented [("status", .string "error"), ("message", message)])

/-! ## Sessions -/

def getSession (cs : Surroundings) (r : HttpRequest) : Handling Bytes := do
  let e ← get
  let (sessionId, sessions, resp) :=
    SessionManager.getSession cs.useSSL cs.draws r e.sessions e.resp
  set { e with sessions := sessions, resp := resp }
  return sessionId

/-- A session that has been destroyed has no values. -/
def Exchange.session (e : Exchange) (sessionId : Bytes) : Session :=
  (e.sessions.lookup sessionId).getD .create

def getValue (sessionId : Bytes) (key : String) : Handling Bytes := do
  return ((← get).session sessionId).getValue (ascii key)

def setValue (sessionId : Bytes) (key : String) (value : Bytes) : Handling Unit :=
  modify fun e ↦
    { e with
      sessions := SessionStorage.save e.sessions sessionId
        ((e.session sessionId).setValue (ascii key) value) }

/-- `std::stoi` of the user of the session. -/
def stoiUserId (sessionId : Bytes) : Handling ℤ := do
  orThrow (stoi (← getValue sessionId "userId")) (ascii "stoi")

/-! ## Files -/

def defaultFile : String := "/Gomoku/GomokuServer/resource/NotFound.html"

def resource (name : String) : String :=
  "../WebApps/GomokuServer/resource/" ++ name

/-- The file, or the default file if it cannot be opened. -/
def Surroundings.openFile (cs : Surroundings) (name : String) : Option Bytes :=
  (cs.files (resource name)).or (cs.files defaultFile)

/-- The size of a file that is not open is the greatest number, and no vector has
this size. -/
def readFile (cs : Surroundings) (name : String) : Handling Bytes :=
  orThrow (cs.openFile name) (ascii "cannot create std::vector larger than max_size()")

/-- `<script>` in front of the end of the head. -/
def injectUser (page userId username : Bytes) : Bytes :=
  match findText (ascii "</head>") page with
  | none => page
  | some (before, rest) =>
      before ++ (ascii "<script>var INJECTED_USERID = '" ++ userId ++
        ascii "';var INJECTED_USERNAME = '" ++ username ++ ascii "';</script>") ++ rest

/-! ## Logging in and out -/

/-- The check at the start of `LoginHandler::handle` and `LogoutHandler::handle`. -/
def isJson (r : HttpRequest) : Bool :=
  r.getHeader (ascii "Content-Type") = ascii "application/json" && r.content ≠ []

/-- The name and the password of the body. -/
def Surroundings.credentials (cs : Surroundings) (body : Bytes) :
    Except Bytes (String × String) := do
  let parsed ← cs.parse body
  let username ← cs.field Json.getString? parsed "username"
  let password ← cs.field Json.getString? parsed "password"
  return (username, password)

namespace EntryHandler

def handle (cs : Surroundings) (r : HttpRequest) : Handling Unit :=
  match cs.openFile "entry.html" with
  | none =>
      reply r .k404NotFound "Not Found" true "text/html"
        (ascii "<html><body><h1>404 Not Found</h1></body></html>")
  | some page => reply r .k200Ok "OK" false "text/html" page

end EntryHandler

namespace LoginHandler

def queryUserId (cs : Surroundings) (username password : String) : Except Bytes ℤ :=
  (cs.executeQuery 0 "SELECT id FROM users WHERE username = ? AND password = ?"
    [username, password]).map fun id ↦ id.getD (-1)

/-- The part of `handle` for a user whose password is right. -/
def login (cs : Surroundings) (r : HttpRequest) (userId : ℤ) (username : String) :
    Handling Unit := do
  let e ← get
  if e.onlineUsers.lookup userId ≠ some true then
    let session ← getSession cs r
    setValue session "userId" (utf8 (toString userId))
    setValue session "username" (utf8 username)
    setValue session "isLoggedIn" (ascii "true")
    modify fun e ↦ { e with onlineUsers := assign e.onlineUsers userId true }
    modify fun e ↦ { e with maxOnline := max e.maxOnline e.onlineUsers.length }
    reply r .k200Ok "OK" false "application/json"
      (cs.indented [("success", .boolean true), ("userId", .integer userId),
        ("username", .string username)])
  else
    reply r .k403Forbidden "Forbidden" true "application/json"
      (cs.indented [("success", .boolean false), ("error", .string "账号已在其他地方登录")])

def handle (cs : Surroundings) (r : HttpRequest) : Handling Unit :=
  if !isJson r then reply r .k400BadRequest "Bad Request" true "application/json" []
  else
    tryCatch (do
      let (username, password) ← MonadExcept.ofExcept (cs.credentials r.content)
      let userId ← MonadExcept.ofExcept (queryUserId cs username password)
      if userId ≠ -1 then login cs r userId username
      else
        reply r .k401Unauthorized "Unauthorized" false "application/json"
          (cs.indented [("status", .string "error"),
            ("message", .string "Invalid username or password")])) (badRequest cs r)

end LoginHandler

namespace RegisterHandler

/-- The exception of a query is a `DbException`, and only a `SQLException` is caught. -/
def isUserExist (cs : Surroundings) (username : String) : Except Bytes Bool :=
  (cs.executeQuery 0 "SELECT id FROM users WHERE username = ?" [username]).map Option.isSome

def insertUser (cs : Surroundings) (username password : String) : Except Bytes ℤ := do
  if ← isUserExist cs username then return -1
  else
    cs.executeUpdate "INSERT INTO users (username, password) VALUES (?, ?)" [username, password]
    let id ← cs.executeQuery 1 "SELECT id FROM users WHERE username = ?" [username]
    return id.getD (-1)

def handle (cs : Surroundings) (r : HttpRequest) : Handling Unit := do
  let (username, password) ← MonadExcept.ofExcept (cs.credentials r.content)
  let userId ← MonadExcept.ofExcept (insertUser cs username password)
  if userId ≠ -1 ∧ userId ≠ -2 then
    reply r .k200Ok "OK" false "application/json"
      (cs.indented [("status", .string "success"), ("message", .string "Register successful"),
        ("userId", .integer userId)])
  else if userId = -1 then
    reply r .k409Conflict "Conflict" false "application/json"
      (cs.indented [("status", .string "error"), ("message", .string "username already exists")])
  else
    reply r .k500InternalServerError "Internal Server Error" false "application/json"
      (cs.indented [("status", .string "error"), ("message", .string "insert failed")])

end RegisterHandler

namespace LogoutHandler

def gameOver (opponentId : ℤ) : Json :=
  .ofFields [
    ("type", .string "game_over"),
    ("winner", .integer opponentId),
    ("reason", .string "opponent_left"),
    ("message", .string "对手已退出游戏，你获胜了！")]

/-- The part of `handle` that ends the game of two players.  There is no value if it
throws. -/
def endGame (s : GomokuServer) (cs : GameWsHandler.Circumstances) (userId : ℤ) :
    Option Unit × GomokuServer :=
  let roomId := s.getRoomByUserId cs.room userId
  if 0 < roomId then
    match s.getGameRoom cs.miss roomId with
    | (none, s) => (none, s)
    | (some none, s) => (some (), s)
    | (some (some room), s) =>
        let opponentId := room.getOpponent userId
        match s.finishGameRoom cs.faults roomId opponentId with
        | (none, s) => (none, s)
        | (some finished, s) =>
            if finished.status ≠ .ok then (some (), s)
            else
              let oppConn := s.getConnectionByUserId opponentId
              let s := if oppConn.any s.connected then
                  (s.sendIfConnected oppConn (gameOver opponentId)).addToLobby opponentId oppConn
                else s
              (some (), s.removeGameRoom roomId)
  else (some (), s)

/-- The part of `handle` that releases what the user holds. -/
def release (cs : Surroundings) (userId gameType : ℤ) : Handling Unit := do
  modify fun e ↦ { e with onlineUsers := e.onlineUsers.filter fun entry ↦ entry.1 ≠ userId }
  if gameType = 1 then
    modify fun e ↦ { e with aiGames := e.aiGames.filter fun entry ↦ entry.1 ≠ userId }
  else if gameType = 2 then
    let e ← get
    set { e with server := (endGame e.server cs.game userId).2 }
    orThrow (endGame e.server cs.game userId).1 (utf8 cs.accessError)
    modify fun e ↦ { e with server := (e.server.leaveQueue userId).removeFromLobby userId }

/-- The session is cleared and destroyed before the body is parsed. -/
def handle (cs : Surroundings) (r : HttpRequest) : Handling Unit :=
  if !isJson r then reply r .k400BadRequest "Bad Request" true "application/json" []
  else
    tryCatch (do
      let session ← getSession cs r
      let userId ← stoiUserId session
      modify fun e ↦ { e with sessions := SessionStorage.remove e.sessions session }
      let parsed ← MonadExcept.ofExcept (cs.parse r.content)
      let gameType ← MonadExcept.ofExcept (cs.field GameWsHandler.clientInt? parsed "gameType")
      release cs userId gameType
      reply r .k200Ok "OK" true "application/json"
        (cs.indented [("message", .string "logout successful")])) (badRequest cs r)

end LogoutHandler

namespace MenuHandler

def escapeForJsString (s : Bytes) : Bytes :=
  s.flatMap fun c ↦
    if c = 92 then [92, 92]
    else if c = 39 then [92, 39]
    else if c = 34 then [92, 34]
    else if c = 10 then [92, 110]
    else if c = 13 then [92, 114]
    else [c]

def content (page : Bytes) (userId : ℤ) (username : Bytes) : Bytes :=
  injectUser page (utf8 (toString userId)) (escapeForJsString username)

def handle (cs : Surroundings) (r : HttpRequest) : Handling Unit :=
  tryCatch (do
    let session ← getSession cs r
    if (← getValue session "isLoggedIn") ≠ ascii "true" then unauthorized cs r
    else
      let userId ← stoiUserId session
      let username ← getValue session "username"
      let page ← readFile cs "menu.html"
      packageResp r .k200Ok "OK" false "text/html" (content page userId username))
    (badRequest cs r)

end MenuHandler

/-! ## Games against the server -/

namespace AiGameStartHandler

def handle (cs : Surroundings) (r : HttpRequest) : Handling Unit := do
  let session ← getSession cs r
  if (← getValue session "isLoggedIn") ≠ ascii "true" then unauthorized cs r
  else
    let userId ← stoiUserId session
    modify fun e ↦ { e with aiGames := assign e.aiGames userId (AiGame.create userId) }
    let page ← readFile cs "ChessGameVsAi.html"
    reply r .k200Ok "OK" false "text/html" page

end AiGameStartHandler

namespace AiGameMoveHandler

/-- The two numbers of the body. -/
def coordinates (cs : Surroundings) (body : Bytes) : Except Bytes (ℤ × ℤ) := do
  let request ← cs.parse body
  let x ← cs.field GameWsHandler.clientInt? request "x"
  let y ← cs.field GameWsHandler.clientInt? request "y"
  return (x, y)

def board (game : AiGame) : Json :=
  .array (game.board.map fun row ↦ .array (row.map .string))

def lastMove (game : AiGame) : Json :=
  .ofFields [("x", .integer game.lastMove.1), ("y", .integer game.lastMove.2)]

/-- The answer to a move that ends the game, which is removed. -/
def finish (cs : Surroundings) (r : HttpRequest) (userId : ℤ) (game : AiGame) (winner : String)
    (move : List (String × Json)) : Handling Unit := do
  reply r .k200Ok "OK" false "application/json"
    (cs.compact ([("status", .string "ok"), ("board", board game), ("winner", .string winner),
      ("next_turn", .string "none")] ++ move))
  modify fun e ↦ { e with aiGames := e.aiGames.filter fun entry ↦ entry.1 ≠ userId }

/-- The part of `handle` behind the move of the player. -/
def answer (cs : Surroundings) (r : HttpRequest) (userId : ℤ) (game : AiGame) :
    Handling Unit := do
  if game.gameOver then finish cs r userId game "human" []
  else if game.isDraw then finish cs r userId game "draw" []
  else
    let game := game.aiMove cs.rand
    modify fun e ↦ { e with aiGames := assign e.aiGames userId game }
    if game.gameOver then finish cs r userId game "ai" [("last_move", lastMove game)]
    else if game.isDraw then finish cs r userId game "draw" [("last_move", lastMove game)]
    else
      reply r .k200Ok "OK" false "application/json"
        (cs.compact [("status", .string "ok"), ("board", board game), ("winner", .string "none"),
          ("next_turn", .string "human"), ("last_move", lastMove game)])

/-- The part of `handle` behind the coordinates.  A game that is missing is created. -/
def move (cs : Surroundings) (r : HttpRequest) (userId x y : ℤ) : Handling Unit := do
  let e ← get
  let (valid, game) := ((e.aiGames.lookup userId).getD (AiGame.create userId)).humanMove x y
  set { e with aiGames := assign e.aiGames userId game }
  if !valid then
    reply r .k400BadRequest "Bad Request" false "application/json"
      (cs.compact [("status", .string "error"), ("message", .string "Invalid move")])
  else answer cs r userId game

def failureBody (cs : Surroundings) (message : Json) : Bytes :=
  cs.compact [("status", .string "error"), ("message", message)]

def handle (cs : Surroundings) (r : HttpRequest) : Handling Unit :=
  tryCatch (do
    let session ← getSession cs r
    if (← getValue session "isLoggedIn") ≠ ascii "true" then unauthorized cs r
    else
      let userId ← stoiUserId session
      let (x, y) ← MonadExcept.ofExcept (coordinates cs r.content)
      move cs r userId x y)
    fun text ↦ do
      let message ← what cs text
      packageResp r .k500InternalServerError "Internal Server Error" false "application/json"
        (failureBody cs message)

end AiGameMoveHandler

namespace GomokuServer

def restartBody (cs : Surroundings) (userId : ℤ) : Bytes :=
  cs.indented [("status", .string "ok"), ("message", .string "restart successful"),
    ("userId", .integer userId)]

def restartChessGameVsAi (cs : Surroundings) (r : HttpRequest) : Handling Unit := do
  let session ← getSession cs r
  if (← getValue session "isLoggedIn") ≠ ascii "true" then unauthorized cs r
  else
    let userId ← stoiUserId session
    modify fun e ↦ { e with aiGames := assign e.aiGames userId (AiGame.create userId) }
    packageResp r .k200Ok "OK" false "application/json" (restartBody cs userId)

end GomokuServer

/-! ## The other pages -/

namespace GameBackendHandler

def handle (cs : Surroundings) (r : HttpRequest) : Handling Unit := do
  let page ← readFile cs "Backend.html"
  reply r .k200Ok "OK" false "text/html" page

end GameBackendHandler

namespace GomokuServer

def getUserCount (cs : Surroundings) : Except Bytes ℤ :=
  (cs.executeQuery 0 "SELECT COUNT(*) as count FROM users" []).map fun count ↦ count.getD 0

/-- The response to an exception has no version. -/
def getBackendData (cs : Surroundings) (r : HttpRequest) : Handling Unit :=
  tryCatch (do
    let e ← get
    let totalUser ← MonadExcept.ofExcept (getUserCount cs)
    reply r .k200Ok "OK" false "application/json"
      (cs.indented [("curOnline", .integer e.onlineUsers.length),
        ("maxOnline", .integer e.maxOnline), ("totalUser", .integer totalUser)]))
    fun text ↦ do
      let message ← what cs text
      let errorStr := cs.compact [("error", .string "Internal Server Error"), ("message", message)]
      fill fun resp ↦
        (((((resp.setStatusCode .k500InternalServerError).setStatusMessage
          (ascii "Internal Server Error")).setContentType (ascii "application/json")).setBody
          errorStr).setContentLength errorStr.length).setCloseConnection true

/-- The callback of `/api/test`. -/
def test : Handling Unit :=
  fill fun resp ↦
    (((resp.setStatusCode .k200Ok).setStatusMessage (ascii "OK")).setContentType
      (ascii "application/json")).setBody
      (ascii "\x7b\"status\": \"ok\", \"message\": \"Test endpoint\"\x7d")

/-- The callback of `/pvp`. -/
def pvp (cs : Surroundings) (r : HttpRequest) : Handling Unit := do
  let session ← getSession cs r
  if (← getValue session "isLoggedIn") ≠ ascii "true" then unauthorized cs r
  else
    let userId ← getValue session "userId"
    let username ← getValue session "username"
    match cs.files (resource "ChessGameVsPlayer.html") with
    | none =>
        fill fun resp ↦
          ((resp.setStatusCode .k404NotFound).setStatusMessage
            (ascii "Not Found")).setCloseConnection true
    | some page =>
        reply r .k200Ok "OK" false "text/html" (injectUser page userId username)

end GomokuServer

namespace GameWsHandler

/-- The part of `WebSocketServer::handleUpgrade` that fills the response. -/
def handleUpgrade (cs : Surroundings) (r : HttpRequest) (resp : HttpResponse) :
    HttpResponse :=
  if !WebSocketServer.validateUpgradeRequest r then
    ((resp.setStatusCode .k400BadRequest).setStatusMessage (ascii "Bad Request")).setCloseConnection
      true
  else
    (((((resp.setStatusCode .k101SwitchingProtocols).setStatusMessage
      (ascii "Switching Protocols")).setCloseConnection false).addHeader (ascii "Upgrade")
      (ascii "websocket")).addHeader (ascii "Connection") (ascii "Upgrade")).addHeader
      (ascii "Sec-WebSocket-Accept")
      (cs.computeAcceptKey (r.getHeader (ascii "Sec-WebSocket-Key")))

/-- The handler of `/ws`.  The connection of a request is always known. -/
def upgrade (cs : Surroundings) (r : HttpRequest) : Handling Unit := do
  let session ← getSession cs r
  if (← getValue session "isLoggedIn") ≠ ascii "true" then
    fill fun resp ↦
      ((resp.setStatusCode .k401Unauthorized).setStatusMessage
        (ascii "Unauthorized")).setCloseConnection true
  else
    let userId ← stoiUserId session
    fill (handleUpgrade cs r)
    if WebSocketServer.validateUpgradeRequest r then
      modify fun e ↦ { e with server := handle e.server cs.conn userId }

end GameWsHandler

/-! ## Routes -/

inductive Route
  | entry
  | login
  | register
  | logout
  | menu
  | aiBotStart
  | aiBotMove
  | aiBotRestart
  | backend
  | backendData
  | apiTest
  | ws
  | pvp
deriving DecidableEq, Repr

namespace Route

def handlers : List ((Method × Bytes) × Route) :=
  [((.get, ascii "/"), entry),
    ((.get, ascii "/entry"), entry),
    ((.post, ascii "/login"), login),
    ((.post, ascii "/register"), register),
    ((.post, ascii "/user/logout"), logout),
    ((.get, ascii "/menu"), menu),
    ((.get, ascii "/aiBot/start"), aiBotStart),
    ((.post, ascii "/aiBot/move"), aiBotMove),
    ((.get, ascii "/backend"), backend),
    ((.get, ascii "/ws"), ws)]

def callbacks : List ((Method × Bytes) × Route) :=
  [((.get, ascii "/aiBot/restart"), aiBotRestart),
    ((.get, ascii "/backend_data"), backendData),
    ((.get, ascii "/api/test"), apiTest),
    ((.get, ascii "/pvp"), pvp)]

def handle (cs : Surroundings) (r : HttpRequest) : Route → Handling Unit
  | entry => EntryHandler.handle cs r
  | login => LoginHandler.handle cs r
  | register => RegisterHandler.handle cs r
  | logout => LogoutHandler.handle cs r
  | menu => MenuHandler.handle cs r
  | aiBotStart => AiGameStartHandler.handle cs r
  | aiBotMove => AiGameMoveHandler.handle cs r
  | aiBotRestart => GomokuServer.restartChessGameVsAi cs r
  | backend => GameBackendHandler.handle cs r
  | backendData => GomokuServer.getBackendData cs r
  | apiTest => GomokuServer.test
  | ws => GameWsHandler.upgrade cs r
  | pvp => GomokuServer.pvp cs r

/-- The handlers are looked up before the callbacks; no path with parameters is
registered. -/
def route (r : HttpRequest) : Option Route :=
  (handlers.lookup (r.method, r.path)).or (callbacks.lookup (r.method, r.path))

end Route

/-- The part of `handleRequest` behind the middlewares. -/
def routed (cs : Surroundings) (r : HttpRequest) : Handling Unit :=
  match Route.route r with
  | some route => route.handle cs r
  | none =>
      fill fun resp ↦
        ((resp.setStatusCode .k404NotFound).setStatusMessage
          (ascii "Not Found")).setCloseConnection true

/-- A response that a middleware throws takes the place of the response; an exception
of a handler only changes the code and the body. -/
def handleRequest (cs : Surroundings) (r : HttpRequest) (e : Exchange) : Exchange :=
  match MiddlewareChain.processBefore cs.allowed r with
  | some res => { e with resp := res }
  | none =>
      match routed cs r e with
      | .ok _ e => { e with resp := MiddlewareChain.processAfter e.resp }
      | .error text e =>
          { e with resp := (e.resp.setStatusCode .k500InternalServerError).setBody text }

/-- The connection is closed behind the response unless a handler decides otherwise. -/
def checkClose (r : HttpRequest) : Bool :=
  r.getHeader (ascii "Connection") = ascii "close" ||
    (r.version = ascii "HTTP/1.0" && r.getHeader (ascii "Connection") ≠ ascii "Keep-Alive")

/-- The part of `onRequest` in front of `appendToBuffer`. -/
def onRequest (cs : Surroundings) (r : HttpRequest) (e : Exchange) : Exchange :=
  handleRequest cs r { e with resp := .create (checkClose r) }

end HttpRaftKv.Gomoku
