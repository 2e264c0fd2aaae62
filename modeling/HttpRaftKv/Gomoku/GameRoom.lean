import HttpRaftKv.Lib.Json

/-!
# A game of two players

The room of one game and its snapshot.  The board is the nested vector of the
source, so an access may miss it: such an access is undefined, and the function
that makes it has no result.
-/

namespace HttpRaftKv.Gomoku

def boardSize : ℕ := 15

def boardEmpty : String := "empty"

def boardBlack : String := "black"

def boardWhite : String := "white"

structure GameRoom where
  roomId : ℤ
  player1 : ℤ
  player2 : ℤ
  currentTurn : ℤ
  moveCount : ℤ
  gameOver : Bool
  winner : ℤ
  winnerReason : String
  lastMove : ℤ × ℤ
  board : List (List String)
deriving DecidableEq, Repr

/-- The results `0`, `-1`, `-2` and `-3` of `makeMove`. -/
inductive MoveResult
  | ok
  | invalidMove
  | gameOver
  | notYourTurn
deriving DecidableEq, Repr

namespace GameRoom

/-- The constructor.  Black, the first player, begins. -/
def create (roomId player1Id player2Id : ℤ) : GameRoom where
  roomId := roomId
  player1 := player1Id
  player2 := player2Id
  currentTurn := player1Id
  moveCount := 0
  gameOver := false
  winner := 0
  winnerReason := ""
  lastMove := (-1, -1)
  board := List.replicate boardSize (List.replicate boardSize boardEmpty)

def getOpponent (room : GameRoom) (playerId : ℤ) : ℤ :=
  if playerId = room.player1 then room.player2 else room.player1

def isInBoard (x y : ℤ) : Bool :=
  0 ≤ x && x < boardSize && 0 ≤ y && y < boardSize

/-- `board_[x][y]`. -/
def cell (room : GameRoom) (x y : ℤ) : Option String := do
  (← room.board[x.toNat]?)[y.toNat]?

def isValidMove (room : GameRoom) (x y : ℤ) : Option Bool :=
  if !isInBoard x y then
    some false
  else do
    return (← room.cell x y) = boardEmpty

/-- One of the two inner loops of `checkWin`: the stones of the player in a row
from `(x, y)` on, in the given direction. -/
def countStones (room : GameRoom) (x y : ℤ) (player : String) (dx dy : ℤ) :
    List ℕ → Option ℕ
  | [] => some 0
  | i :: is =>
      let newX := x + dx * i
      let newY := y + dy * i
      if !isInBoard newX newY then
        some 0
      else do
        if (← room.cell newX newY) ≠ player then
          return 0
        else
          return (← room.countStones x y player dx dy is) + 1

/-- The loop of `checkWin` over the directions. -/
def checkWinAlong (room : GameRoom) (x y : ℤ) (player : String) : List (ℤ × ℤ) → Option Bool
  | [] => some false
  | (dx, dy) :: directions => do
      let forward ← room.countStones x y player dx dy [1, 2, 3, 4]
      let backward ← room.countStones x y player (-dx) (-dy) [1, 2, 3, 4]
      if 5 ≤ 1 + forward + backward then
        return true
      else
        room.checkWinAlong x y player directions

def checkWin (room : GameRoom) (x y : ℤ) (player : String) : Option Bool :=
  room.checkWinAlong x y player [(1, 0), (0, 1), (1, 1), (1, -1)]

def isDraw (room : GameRoom) : Bool :=
  (boardSize * boardSize : ℕ) ≤ room.moveCount

def setCell (room : GameRoom) (x y : ℤ) (stone : String) : GameRoom :=
  { room with board := room.board.modify x.toNat fun row ↦ row.set y.toNat stone }

/-- The part of `makeMove` behind the checks. -/
def placeStone (room : GameRoom) (playerId x y : ℤ) : Option GameRoom := do
  let stoneColor := if playerId = room.player1 then boardBlack else boardWhite
  let room := { room.setCell x y stoneColor with
    moveCount := room.moveCount + 1
    lastMove := (x, y) }
  if ← room.checkWin x y stoneColor then
    return { room with gameOver := true, winner := playerId, winnerReason := "five_in_row" }
  else if room.isDraw then
    return { room with gameOver := true, winner := -1, winnerReason := "draw" }
  else
    return { room with
      currentTurn := if room.currentTurn = room.player1 then room.player2 else room.player1 }

def makeMove (room : GameRoom) (playerId x y : ℤ) : Option (MoveResult × GameRoom) :=
  if room.gameOver then
    some (.gameOver, room)
  else if playerId ≠ room.currentTurn then
    some (.notYourTurn, room)
  else do
    if !(← room.isValidMove x y) then
      return (.invalidMove, room)
    else
      return (.ok, ← room.placeStone playerId x y)

def forfeit (room : GameRoom) (winnerId : ℤ) : GameRoom :=
  { room with gameOver := true, winner := winnerId, winnerReason := "opponent_left" }

/-! ## Snapshots -/

def snapshot (room : GameRoom) : Json :=
  .ofFields [
    ("roomId", .integer room.roomId),
    ("player1", .integer room.player1),
    ("player2", .integer room.player2),
    ("currentTurn", .integer room.currentTurn),
    ("moveCount", .integer room.moveCount),
    ("gameOver", .boolean room.gameOver),
    ("winner", .integer room.winner),
    ("winnerReason", .string room.winnerReason),
    ("lastMove", .ofFields [("x", .integer room.lastMove.1), ("y", .integer room.lastMove.2)]),
    ("board", .array (room.board.map fun row ↦ .array (row.map .string)))]

/-- `get<std::vector<std::string>>`. -/
def rowFromJson (row : Json) : Option (List String) := do
  (← row.getArray?).mapM Json.getString?

def boardFromJson (board : Json) : Option (List (List String)) := do
  (← board.getArray?).mapM rowFromJson

/-- There is no result where the source throws. -/
def fromSnapshot (snapshot : Json) : Option GameRoom := do
  return {
    roomId := ← (← snapshot.at? "roomId").getInt?
    player1 := ← (← snapshot.at? "player1").getInt?
    player2 := ← (← snapshot.at? "player2").getInt?
    currentTurn := ← (← snapshot.at? "currentTurn").getInt?
    moveCount := ← (← snapshot.at? "moveCount").getInt?
    gameOver := ← (← snapshot.at? "gameOver").getBool?
    winner := ← (← snapshot.at? "winner").getInt?
    winnerReason := ← (← snapshot.at? "winnerReason").getString?
    lastMove := (← (← (← snapshot.at? "lastMove").at? "x").getInt?,
      ← (← (← snapshot.at? "lastMove").at? "y").getInt?)
    board := ← boardFromJson (← snapshot.at? "board") }

end GameRoom

end HttpRaftKv.Gomoku
