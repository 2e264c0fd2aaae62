import HttpRaftKv.Gomoku.GameRoom
import HttpRaftKv.Gomoku.GameStateStore

/-!
# The service of the games

The service keeps the snapshot of every room, the list of the rooms whose game
goes on and the next room number in the store.  It holds no state of its own:
every operation loads what it needs, plays on a copy of the room and writes the
result back with one `replace`.  An operation runs under one lock, so it is one
function on the values of the store.  It has no result where the source throws
to its caller or reads outside a board.
-/

namespace HttpRaftKv.Gomoku

inductive PvpGameStatus
  | ok
  | notFound
  | invalidMove
  | gameOver
  | notYourTurn
  | unavailable
deriving DecidableEq, Repr

structure PvpGameResult where
  status : PvpGameStatus
  snapshot : Json := .null

namespace PvpGameService

def roomKey (roomId : ℤ) : String :=
  "gomoku:room:" ++ toString roomId

def activeRoomIdsKey : String :=
  "gomoku:active-room-ids"

def nextRoomIdKey : String :=
  "gomoku:next-room-id"

def loadLocked (values : Values) (fails : Bool) (roomId : ℤ) : PvpGameResult :=
  match values.tryLoad fails (roomKey roomId) with
  | .notFound => ⟨.notFound, .null⟩
  | .unavailable => ⟨.unavailable, .null⟩
  | .ok value => ⟨.ok, value⟩

def load (values : Values) (faults : Faults) (roomId : ℤ) : PvpGameResult :=
  loadLocked values (faults.load 0) roomId

/-- The part of `createRoom` behind the two loads. -/
def storeRoom (values : Values) (outcome : WriteOutcome) (roomId : ℤ) (snapshot : Json)
    (activeRoomIds : List Json) : PvpGameResult × Values :=
  let (status, values) := values.tryReplace outcome [
    (roomKey roomId, snapshot),
    (activeRoomIdsKey, .array (activeRoomIds ++ [.integer roomId])),
    (nextRoomIdKey, .integer (roomId + 1))]
  if status ≠ .ok then (⟨.unavailable, .null⟩, values) else (⟨.ok, snapshot⟩, values)

/-- The part of `createRoom` behind the load of the room number. -/
def createRoomAs (values : Values) (faults : Faults) (roomId player1 player2 : ℤ) :
    PvpGameResult × Values :=
  let snapshot := (GameRoom.create roomId player1 player2).snapshot
  match values.tryLoad (faults.load 1) activeRoomIdsKey with
  | .unavailable => (⟨.unavailable, .null⟩, values)
  | .notFound => storeRoom values faults.write roomId snapshot []
  | .ok active =>
      match active.getArray? with
      | none => (⟨.unavailable, .null⟩, values)
      | some activeRoomIds => storeRoom values faults.write roomId snapshot activeRoomIds

def createRoom (values : Values) (faults : Faults) (player1 player2 : ℤ) :
    Option (PvpGameResult × Values) :=
  match values.tryLoad (faults.load 0) nextRoomIdKey with
  | .unavailable => some (⟨.unavailable, .null⟩, values)
  | .notFound => some (createRoomAs values faults 1 player1 player2)
  | .ok next => do return createRoomAs values faults (← next.getInt?) player1 player2

/-- The write of `move` in a game that goes on. -/
def storeMove (values : Values) (outcome : WriteOutcome) (roomId : ℤ) (current replacement : Json) :
    PvpGameResult × Values :=
  let (status, values) := values.tryReplace outcome [(roomKey roomId, replacement)]
  if status ≠ .ok then (⟨.unavailable, current⟩, values) else (⟨.ok, replacement⟩, values)

/-- The end of `finish`, and of `move` where the game is over: the room is
written and taken out of the list of the active rooms. -/
def storeFinished (values : Values) (faults : Faults) (roomId : ℤ) (current replacement : Json) :
    PvpGameResult × Values :=
  match values.tryLoad (faults.load 1) activeRoomIdsKey with
  | .ok active =>
      match active.getArray? with
      | none => (⟨.unavailable, current⟩, values)
      | some activeRoomIds =>
          let (status, values) := values.tryReplace faults.write [
            (roomKey roomId, replacement),
            (activeRoomIdsKey, .array (activeRoomIds.filter fun id ↦ !id.eqInt roomId))]
          if status ≠ .ok then (⟨.unavailable, current⟩, values) else (⟨.ok, replacement⟩, values)
  | _ => (⟨.unavailable, current⟩, values)

/-- The part of `move` behind the load and `fromSnapshot`. -/
def moveRoom (values : Values) (faults : Faults) (roomId : ℤ) (current : Json) (room : GameRoom)
    (playerId x y : ℤ) : Option (PvpGameResult × Values) := do
  match ← room.makeMove playerId x y with
  | (.invalidMove, _) => return (⟨.invalidMove, current⟩, values)
  | (.gameOver, _) => return (⟨.gameOver, current⟩, values)
  | (.notYourTurn, _) => return (⟨.notYourTurn, current⟩, values)
  | (.ok, room) =>
      let replacement := room.snapshot
      let gameOver ← (← replacement.at? "gameOver").getBool?
      if !gameOver then
        return storeMove values faults.write roomId current replacement
      else
        return storeFinished values faults roomId current replacement

def move (values : Values) (faults : Faults) (roomId playerId x y : ℤ) :
    Option (PvpGameResult × Values) :=
  let current := loadLocked values (faults.load 0) roomId
  if current.status ≠ .ok then
    some (current, values)
  else
    match GameRoom.fromSnapshot current.snapshot with
    | none => some (⟨.unavailable, .null⟩, values)
    | some room => moveRoom values faults roomId current.snapshot room playerId x y

/-- The part of `finish` behind the load and `fromSnapshot`. -/
def finishRoom (values : Values) (faults : Faults) (roomId : ℤ) (current : Json) (room : GameRoom)
    (winnerId : ℤ) : PvpGameResult × Values :=
  let room := if !room.gameOver then room.forfeit winnerId else room
  storeFinished values faults roomId current room.snapshot

def finish (values : Values) (faults : Faults) (roomId winnerId : ℤ) : PvpGameResult × Values :=
  let current := loadLocked values (faults.load 0) roomId
  if current.status ≠ .ok then
    (current, values)
  else
    match GameRoom.fromSnapshot current.snapshot with
    | none => (⟨.unavailable, .null⟩, values)
    | some room => finishRoom values faults roomId current.snapshot room winnerId

/-- One turn of the loop of `recoverActiveRooms`: the snapshot of a room whose
game goes on. -/
def recoverRoom (values : Values) (fails : Bool) (id : Json) : Option (List Json) := do
  let current := loadLocked values fails (← id.getInt?)
  if current.status = .ok then
    let gameOver ← (← current.snapshot.at? "gameOver").getBool?
    return if !gameOver then [current.snapshot] else []
  else
    return []

/-- The loop of `recoverActiveRooms`; the load of its `k`-th turn is the load
`k + 1` of the call. -/
def recoverRooms (values : Values) (faults : Faults) : ℕ → List Json → Option (List Json)
  | _, [] => some []
  | k, id :: ids => do
      let found ← recoverRoom values (faults.load (k + 1)) id
      return found ++ (← recoverRooms values faults (k + 1) ids)

/-- An exception in the loop is caught, and nothing is recovered. -/
def recoverActiveRooms (values : Values) (faults : Faults) : List Json :=
  match values.tryLoad (faults.load 0) activeRoomIdsKey with
  | .ok active =>
      match active.getArray? with
      | none => []
      | some ids => (recoverRooms values faults 0 ids).getD []
  | _ => []

end PvpGameService

end HttpRaftKv.Gomoku
