import HttpRaftKv.Gomoku.GomokuServer
import HttpRaftKv.Lib.JsonText

/-!
# The handlers of the web socket

What the server does with a message of a client, with a new connection and with
one that is closed.  A handler that throws ends there, and its caller goes on.
The answers are JSON values; the texts that are sent are their dumps.
-/

namespace HttpRaftKv.Gomoku

structure GameWsDelivery where
  message : Json
  broadcast : Bool

namespace GameWsMessages

def raftUnavailable (roomId : ℤ) : GameWsDelivery where
  message := .ofFields [("type", .string "raft_unavailable"), ("roomId", .integer roomId)]
  broadcast := false

def stateResult (snapshot : Json) : Json :=
  .ofFields [("type", .string "state_result"), ("state", snapshot)]

def moveResult (roomId playerId x y : ℤ) (color : String) (snapshot : Json) : GameWsDelivery where
  message := .ofFields [
    ("type", .string "move_result"),
    ("roomId", .integer roomId),
    ("x", .integer x),
    ("y", .integer y),
    ("color", .string color),
    ("userId", .integer playerId),
    ("state", snapshot)]
  broadcast := true

end GameWsMessages

namespace GameWsHandler

/-- What is not up to the handler during one event: which room of the user the
loop over the rooms meets first, how the store behaves when a room is missing
from the copies and when the handler makes its call, and the time. -/
structure Circumstances where
  room : ℤ
  miss : Faults
  faults : Faults
  now : ℤ

/-- An error that is told to the client. -/
def errorMessage (message : String) : Json :=
  .ofFields [("type", .string "error"), ("message", .string message)]

/-- `get<int>` of a number that comes from a client. -/
def clientInt? (j : Json) : Option ℤ :=
  j.getInt?.map fun k ↦ k.bmod (2 ^ 32)

/-! ## Matching -/

def matchFound (roomId opponent : ℤ) (color : String) (yourTurn : Bool) : Json :=
  .ofFields [
    ("type", .string "match_found"),
    ("roomId", .integer roomId),
    ("color", .string color),
    ("opponent", .integer opponent),
    ("yourTurn", .boolean yourTurn)]

def matchWaiting (message : String) : Json :=
  .ofFields [("type", .string "match_waiting"), ("message", .string message)]

def matchCancelled : Json :=
  .ofFields [("type", .string "match_cancelled"), ("message", .string "已取消匹配")]

/-- The branch of `handleMatchRequest` with an opponent. -/
def startGame (s : GomokuServer) (cs : Circumstances) (conn : Conn) (userId opponent : ℤ) :
    GomokuServer :=
  let oppConn := s.getConnectionByUserId opponent
  match s.createGameRoom cs.faults userId opponent with
  | (none, s) => s
  | (some roomId, s) =>
      if roomId ≤ 0 then
        s.sendMessage conn (GameWsMessages.raftUnavailable 0).message
      else
        let s := (s.removeFromLobby userId).removeFromLobby opponent
        let s := s.sendMessage conn (matchFound roomId opponent "black" true)
        s.sendIfConnected oppConn (matchFound roomId userId "white" false)

def handleMatchRequest (s : GomokuServer) (cs : Circumstances) (conn : Conn) (userId : ℤ) :
    GomokuServer :=
  let (result, s) := s.tryMatch userId
  if 0 ≤ result then
    startGame s cs conn userId result
  else if result = -1 then
    s.sendMessage conn (matchWaiting "正在寻找对手...")
  else if result = -2 then
    s.sendMessage conn (matchWaiting "已在匹配队列中，请耐心等待")
  else s

def handleMatchCancel (s : GomokuServer) (userId : ℤ) : GomokuServer :=
  let s := s.leaveQueue userId
  s.sendIfConnected (s.getConnectionByUserId userId) matchCancelled

/-! ## Playing -/

def handleStateRequest (s : GomokuServer) (cs : Circumstances) (conn : Conn) (userId : ℤ) :
    GomokuServer :=
  let roomId := s.getRoomByUserId cs.room userId
  if roomId ≤ 0 then
    s.sendMessage conn (errorMessage "你不在任何对局中")
  else
    match s.loadGameRoom cs.faults roomId with
    | (none, s) => s
    | (some result, s) =>
        if result.status = .unavailable then
          s.sendMessage conn (GameWsMessages.raftUnavailable roomId).message
        else if result.status ≠ .ok then
          s.sendMessage conn (errorMessage "房间不存在")
        else
          s.sendMessage conn (GameWsMessages.stateResult result.snapshot)

/-- `GameWsMoveFlow::submit`. -/
def submit (committed : Option PvpGameResult × GomokuServer) (roomId : ℤ) (conn : Conn) :
    Option PvpGameResult × GomokuServer :=
  match committed with
  | (none, s) => (none, s)
  | (some result, s) =>
      if result.status ≠ .unavailable then
        (some result, s)
      else
        let delivery := GameWsMessages.raftUnavailable roomId
        (some result, if !delivery.broadcast then s.sendMessage conn delivery.message else s)

/-- The fields of a move result that depend on whether the game is over. -/
def moveOutcome (message : Json) (userId : ℤ) (snapshot : Json) : Option Json := do
  if ← (← snapshot.at? "gameOver").getBool? then
    let winner ← (← snapshot.at? "winner").getInt?
    if winner = -1 then
      return ((message.set "gameOver" (.boolean true)).set "result" (.string "draw")).set
        "message" (.string "平局！")
    else
      return (((message.set "gameOver" (.boolean true)).set "winner" (.integer winner)).set
        "result" (.string (if winner = userId then "win" else "lose"))).set
        "message" (.string (if winner = userId then "你赢了！" else "你输了！"))
  else
    return (message.set "gameOver" (.boolean false)).set "nextTurn" (← snapshot.at? "currentTurn")

/-- The end of `handleMove` in a game that is over. -/
def closeGame (s : GomokuServer) (conn : Conn) (oppConn : Option Conn)
    (roomId userId opponentId : ℤ) : GomokuServer :=
  let s := s.addToLobby userId (some conn)
  let s := if oppConn.any s.connected then s.addToLobby opponentId oppConn else s
  s.removeGameRoom roomId

/-- The part of `handleMove` behind a move that has been carried out. -/
def announceMove (s : GomokuServer) (conn : Conn) (roomId userId x y : ℤ) (snapshot : Json) :
    Option GomokuServer := do
  let player1 ← (← snapshot.at? "player1").getInt?
  let player2 ← (← snapshot.at? "player2").getInt?
  let color := if userId = player1 then "black" else "white"
  let opponentId := if userId = player1 then player2 else player1
  let oppConn := s.getConnectionByUserId opponentId
  let delivery := GameWsMessages.moveResult roomId userId x y color snapshot
  let message ← moveOutcome delivery.message userId snapshot
  let s := if delivery.broadcast then
      (s.sendMessage conn message).sendIfConnected oppConn message
    else s
  if ← (← snapshot.at? "gameOver").getBool? then
    return closeGame s conn oppConn roomId userId opponentId
  else
    return s

/-- The part of `handleMove` behind the coordinates. -/
def handleMoveAt (s : GomokuServer) (cs : Circumstances) (conn : Conn) (userId roomId x y : ℤ) :
    GomokuServer :=
  match submit (s.moveGameRoom cs.faults roomId userId x y) roomId conn with
  | (none, s) => s
  | (some moveResult, s) =>
      if moveResult.status = .unavailable then s
      else if moveResult.status = .invalidMove then
        s.sendMessage conn (errorMessage "无效的落子位置")
      else if moveResult.status = .notYourTurn then
        s.sendMessage conn (errorMessage "还没轮到你落子")
      else if moveResult.status ≠ .ok then
        s.sendMessage conn (errorMessage "game is over")
      else
        (announceMove s conn roomId userId x y moveResult.snapshot).getD s

def handleMove (s : GomokuServer) (cs : Circumstances) (conn : Conn) (userId : ℤ) (msg : Json) :
    GomokuServer :=
  let roomId := s.getRoomByUserId cs.room userId
  if roomId ≤ 0 then
    s.sendMessage conn (errorMessage "你不在任何对局中")
  else
    match msg.value? clientInt? "x" (-1), msg.value? clientInt? "y" (-1) with
    | some x, some y => handleMoveAt s cs conn userId roomId x y
    | _, _ => s

/-! ## Chatting -/

def handleChatLobby (s : GomokuServer) (cs : Circumstances) (userId : ℤ) (msg : Json) :
    GomokuServer :=
  match msg.value? Json.getString? "username" "", msg.value? Json.getString? "message" "" with
  | some username, some message =>
      if message = "" then s else s.broadcastLobby cs.now userId username message
  | _, _ => s

def handleChatRoom (s : GomokuServer) (cs : Circumstances) (conn : Conn) (userId : ℤ) (msg : Json) :
    GomokuServer :=
  let roomId := s.getRoomByUserId cs.room userId
  if roomId ≤ 0 then s
  else
    match s.getGameRoom cs.miss roomId with
    | (some (some room), s) =>
        match msg.value? Json.getString? "username" "", msg.value? Json.getString? "message" "" with
        | some username, some message =>
            if message = "" then s
            else
              s.sendToRoom cs.now roomId userId username message (some conn)
                (s.getConnectionByUserId (room.getOpponent userId))
        | _, _ => s
    | (_, s) => s

/-! ## Leaving -/

def gameOverMessage (winner : ℤ) : Json :=
  .ofFields [
    ("type", .string "game_over"),
    ("winner", .integer winner),
    ("reason", .string "opponent_left"),
    ("message", .string "对手已离开，你获胜了！")]

/-- The part of `handleLeaveGame` behind the end of the game. -/
def leaveRoom (s : GomokuServer) (roomId userId opponentId : ℤ) : GomokuServer :=
  let oppConn := s.getConnectionByUserId opponentId
  let s := if oppConn.any s.connected then
      (s.sendIfConnected oppConn (gameOverMessage opponentId)).addToLobby opponentId oppConn
    else s
  let conn := s.getConnectionByUserId userId
  let s := if conn.any s.connected then s.addToLobby userId conn else s
  s.removeGameRoom roomId

def handleLeaveGame (s : GomokuServer) (cs : Circumstances) (userId : ℤ) : GomokuServer :=
  let roomId := s.getRoomByUserId cs.room userId
  if roomId ≤ 0 then s
  else
    match s.getGameRoom cs.miss roomId with
    | (some (some room), s) =>
        let opponentId := room.getOpponent userId
        match s.finishGameRoom cs.faults roomId opponentId with
        | (some result, s) =>
            if result.status ≠ .ok then s else leaveRoom s roomId userId opponentId
        | (none, s) => s
    | (_, s) => s

def opponentLeft : Json :=
  .ofFields [("type", .string "opponent_left"), ("message", .string "对手已断开连接")]

/-- The part of `onClose` behind the end of the game. -/
def abandonRoom (s : GomokuServer) (oppConn : Option Conn) (roomId opponentId : ℤ) :
    GomokuServer :=
  let s := s.sendIfConnected oppConn opponentLeft
  let s := if 0 < opponentId then s.addToLobby opponentId oppConn else s
  s.removeGameRoom roomId

/-- The part of `onClose` that ends the game of the user. -/
def disconnectGame (s : GomokuServer) (cs : Circumstances) (userId : ℤ) : GomokuServer :=
  let roomId := s.getRoomByUserId cs.room userId
  if 0 < roomId then
    match s.getGameRoom cs.miss roomId with
    | (some (some room), s) =>
        let opponentId := room.getOpponent userId
        let oppConn := s.getConnectionByUserId opponentId
        match s.finishGameRoom cs.faults roomId opponentId with
        | (some result, s) =>
            if result.status ≠ .ok then s else abandonRoom s oppConn roomId opponentId
        | (none, s) => s
    | (_, s) => s
  else s

/-! ## Events -/

/-- An upgrade of a connection that succeeds, for a user who is logged in. -/
def handle (s : GomokuServer) (conn : Conn) (userId : ℤ) : GomokuServer :=
  (s.setUserId conn userId).addToLobby userId (some conn)

def onClose (s : GomokuServer) (cs : Circumstances) (conn : Conn) : GomokuServer :=
  let userId := s.getUserId conn
  let s := if 0 < userId then
      disconnectGame ((s.leaveQueue userId).removeFromLobby userId) cs userId
    else s
  s.removeUserId conn

/-- The part of `onMessage` behind the type of the message. -/
def dispatch (s : GomokuServer) (cs : Circumstances) (conn : Conn) (msg : Json) (type : String) :
    GomokuServer :=
  let userId := s.getUserId conn
  if type = "match_request" then handleMatchRequest s cs conn userId
  else if type = "match_cancel" then handleMatchCancel s userId
  else if type = "move" then handleMove s cs conn userId msg
  else if type = "state_request" then handleStateRequest s cs conn userId
  else if type = "chat_lobby" then handleChatLobby s cs userId msg
  else if type = "chat_room" then handleChatRoom s cs conn userId msg
  else if type = "leave_game" then handleLeaveGame s cs userId
  else s

def onMessage (text : JsonText) (s : GomokuServer) (cs : Circumstances) (conn : Conn)
    (message : String) : GomokuServer :=
  match text.parse message with
  | none => s
  | some msg =>
      match msg.value? Json.getString? "type" "" with
      | none => s
      | some type => dispatch s cs conn msg type

inductive Event
  | upgrade (conn : Conn) (userId : ℤ)
  | message (conn : Conn) (message : String)
  | close (conn : Conn)
  /-- The state of a connection, which is the network's. -/
  | network (conn : Conn) (connected : Bool)
deriving DecidableEq, Repr

def step (text : JsonText) (s : GomokuServer) (event : Event × Circumstances) : GomokuServer :=
  match event.1 with
  | .upgrade conn userId => handle s conn userId
  | .message conn message => onMessage text s event.2 conn message
  | .close conn => onClose s event.2 conn
  | .network conn connected =>
      { s with connected := Function.update s.connected conn connected }

end GameWsHandler

end HttpRaftKv.Gomoku
