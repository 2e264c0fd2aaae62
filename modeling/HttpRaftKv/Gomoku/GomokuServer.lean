import HttpRaftKv.Gomoku.PvpGameService

/-!
# The rooms of the server

The server keeps a copy of every room that is played, the queue of the users who
wait for an opponent, the lobby and the connections of the users.  It runs one
handler after another.  A function that throws has no value; the changes that it
has made before stay.  The messages that have been sent are recorded together
with what the store held at that moment and the user for whom the receiver was
taken.
-/

namespace HttpRaftKv.Gomoku

/-- A connection by its name. -/
abbrev Conn := String

structure Sent where
  conn : Conn
  message : Json
  /-- The store when the message was sent. -/
  stored : Values
  /-- The user for whom the connection was registered then. -/
  user : Option ℤ

structure GomokuServer where
  values : Values
  gameRooms : List (ℤ × GameRoom)
  waitingQueue : List ℤ
  lobbyConnections : List (ℤ × Option Conn)
  connToUserId : Conn → Option ℤ
  userIdToConnPtr : ℤ → Option Conn
  connected : Conn → Bool
  sent : List Sent

/-- `map[key] = value`. -/
def assign {α : Type} (entries : List (ℤ × α)) (key : ℤ) (value : α) : List (ℤ × α) :=
  (key, value) :: entries.filter fun entry ↦ entry.1 ≠ key

namespace GomokuServer

/-! ## Messages -/

def sendMessage (s : GomokuServer) (conn : Conn) (message : Json) : GomokuServer :=
  { s with sent := s.sent ++ [⟨conn, message, s.values, s.connToUserId conn⟩] }

/-- A message to a connection that may be missing or closed. -/
def sendIfConnected (s : GomokuServer) (conn : Option Conn) (message : Json) : GomokuServer :=
  match conn with
  | some c => if s.connected c then s.sendMessage c message else s
  | none => s

/-! ## Rooms -/

/-- One turn of the loop of `recoverActiveGameRooms`; a snapshot that is not
valid is left out. -/
def recoverGameRoom (gameRooms : List (ℤ × GameRoom)) (snapshot : Json) : List (ℤ × GameRoom) :=
  match GameRoom.fromSnapshot snapshot with
  | some room => assign gameRooms room.roomId room
  | none => gameRooms

/-- The server after the constructor. -/
def create (values : Values) (faults : Faults) : GomokuServer where
  values := values
  gameRooms := (PvpGameService.recoverActiveRooms values faults).foldl recoverGameRoom []
  waitingQueue := []
  lobbyConnections := []
  connToUserId := fun _ ↦ none
  userIdToConnPtr := fun _ ↦ none
  connected := fun _ ↦ false
  sent := []

/-- The part of a room operation behind the answer of the service: the copy of
the room is renewed. -/
def keepRoom (s : GomokuServer) (roomId : ℤ) (result : PvpGameResult) :
    Option PvpGameResult × GomokuServer :=
  if result.status ≠ .ok then
    (some result, s)
  else
    match GameRoom.fromSnapshot result.snapshot with
    | none => (none, s)
    | some room => (some result, { s with gameRooms := assign s.gameRooms roomId room })

/-- The room number is zero if there is no room. -/
def createGameRoom (s : GomokuServer) (faults : Faults) (player1 player2 : ℤ) :
    Option ℤ × GomokuServer :=
  match PvpGameService.createRoom s.values faults player1 player2 with
  | none => (none, s)
  | some (created, values) =>
      let s := { s with values := values }
      if created.status ≠ .ok then
        (some 0, s)
      else
        match GameRoom.fromSnapshot created.snapshot with
        | none => (none, s)
        | some room =>
            (some room.roomId, { s with gameRooms := assign s.gameRooms room.roomId room })

/-- The pointer that is returned is null if there is no room. -/
def getGameRoom (s : GomokuServer) (faults : Faults) (roomId : ℤ) :
    Option (Option GameRoom) × GomokuServer :=
  match s.gameRooms.lookup roomId with
  | some room => (some (some room), s)
  | none =>
      let loaded := PvpGameService.load s.values faults roomId
      if loaded.status ≠ .ok then
        (some none, s)
      else
        match GameRoom.fromSnapshot loaded.snapshot with
        | none => (none, s)
        | some room => (some (some room), { s with gameRooms := assign s.gameRooms roomId room })

def moveGameRoom (s : GomokuServer) (faults : Faults) (roomId playerId x y : ℤ) :
    Option PvpGameResult × GomokuServer :=
  match PvpGameService.move s.values faults roomId playerId x y with
  | none => (none, s)
  | some (result, values) => { s with values := values }.keepRoom roomId result

def loadGameRoom (s : GomokuServer) (faults : Faults) (roomId : ℤ) :
    Option PvpGameResult × GomokuServer :=
  s.keepRoom roomId (PvpGameService.load s.values faults roomId)

def finishGameRoom (s : GomokuServer) (faults : Faults) (roomId winnerId : ℤ) :
    Option PvpGameResult × GomokuServer :=
  let (result, values) := PvpGameService.finish s.values faults roomId winnerId
  { s with values := values }.keepRoom roomId result

/-- The loop meets the rooms in an order that is not specified: `first` is the
room of the user that it meets first. -/
def getRoomByUserId (s : GomokuServer) (first userId : ℤ) : ℤ :=
  let rooms := (s.gameRooms.filter fun entry ↦
    entry.2.player1 = userId ∨ entry.2.player2 = userId).map Prod.fst
  if first ∈ rooms then first else rooms.headD 0

def removeGameRoom (s : GomokuServer) (roomId : ℤ) : GomokuServer :=
  { s with gameRooms := s.gameRooms.filter fun entry ↦ entry.1 ≠ roomId }

/-! ## The waiting queue -/

/-- The opponent, or `-1` if the user waits now, or `-2` if he waited already. -/
def tryMatch (s : GomokuServer) (userId : ℤ) : ℤ × GomokuServer :=
  if userId ∈ s.waitingQueue then
    (-2, s)
  else
    match s.waitingQueue with
    | opponent :: queue => (opponent, { s with waitingQueue := queue })
    | [] => (-1, { s with waitingQueue := [userId] })

def leaveQueue (s : GomokuServer) (userId : ℤ) : GomokuServer :=
  { s with waitingQueue := s.waitingQueue.erase userId }

/-! ## The lobby -/

def addToLobby (s : GomokuServer) (userId : ℤ) (conn : Option Conn) : GomokuServer :=
  { s with lobbyConnections := assign s.lobbyConnections userId conn }

def removeFromLobby (s : GomokuServer) (userId : ℤ) : GomokuServer :=
  { s with lobbyConnections := s.lobbyConnections.filter fun entry ↦ entry.1 ≠ userId }

def broadcastLobby (s : GomokuServer) (now senderId : ℤ) (username message : String) :
    GomokuServer :=
  let msg := Json.ofFields [
    ("type", .string "lobby_broadcast"),
    ("userId", .integer senderId),
    ("username", .string username),
    ("message", .string message),
    ("timestamp", .integer now)]
  s.lobbyConnections.foldl (fun s entry ↦ s.sendIfConnected entry.2 msg) s

def sendToRoom (s : GomokuServer) (now roomId senderId : ℤ) (username message : String)
    (conn1 conn2 : Option Conn) : GomokuServer :=
  let msg := Json.ofFields [
    ("type", .string "room_message"),
    ("roomId", .integer roomId),
    ("userId", .integer senderId),
    ("username", .string username),
    ("message", .string message),
    ("timestamp", .integer now)]
  (s.sendIfConnected conn1 msg).sendIfConnected conn2 msg

/-! ## Connections and users -/

def getUserId (s : GomokuServer) (conn : Conn) : ℤ :=
  (s.connToUserId conn).getD 0

def setUserId (s : GomokuServer) (conn : Conn) (userId : ℤ) : GomokuServer :=
  { s with
    connToUserId := Function.update s.connToUserId conn (some userId)
    userIdToConnPtr := Function.update s.userIdToConnPtr userId (some conn) }

def removeUserId (s : GomokuServer) (conn : Conn) : GomokuServer :=
  match s.connToUserId conn with
  | none => s
  | some userId =>
      { s with
        userIdToConnPtr := Function.update s.userIdToConnPtr userId none
        connToUserId := Function.update s.connToUserId conn none }

def getConnectionByUserId (s : GomokuServer) (userId : ℤ) : Option Conn :=
  s.userIdToConnPtr userId

end GomokuServer

end HttpRaftKv.Gomoku
