import HttpRaftKv.Gomoku.GameRoom

/-!
# A game against the server

The board of such a game is made by the constructor and always has its full size,
so no access misses it.  The stones that the server tries out are taken back; it
looks at a board with the stone and goes on with the board without it.
-/

namespace HttpRaftKv.Gomoku

def aiPlayer : String := boardWhite

def humanPlayer : String := boardBlack

structure AiGame where
  gameOver : Bool
  userId : ℤ
  moveCount : ℤ
  winner : String
  lastMove : ℤ × ℤ
  board : List (List String)
deriving DecidableEq, Repr

namespace AiGame

/-- The constructor. -/
def create (userId : ℤ) : AiGame where
  gameOver := false
  userId := userId
  moveCount := 0
  winner := "none"
  lastMove := (-1, -1)
  board := List.replicate boardSize (List.replicate boardSize boardEmpty)

def isDraw (game : AiGame) : Bool :=
  (boardSize * boardSize : ℕ) ≤ game.moveCount

def isInBoard (x y : ℤ) : Bool :=
  0 ≤ x && x < boardSize && 0 ≤ y && y < boardSize

/-- `board_[x][y]`. -/
def cell (game : AiGame) (x y : ℤ) : Option String := do
  (← game.board[x.toNat]?)[y.toNat]?

def setCell (game : AiGame) (x y : ℤ) (stone : String) : AiGame :=
  { game with board := game.board.modify x.toNat fun row ↦ row.set y.toNat stone }

def isValidMove (game : AiGame) (x y : ℤ) : Bool :=
  isInBoard x y && game.cell x y = some boardEmpty && !(game.gameOver || game.isDraw)

/-- One of the two inner loops of `checkWin`: the stones of the player in a row
from `(x, y)` on, in the given direction. -/
def countStones (game : AiGame) (x y : ℤ) (player : String) (dx dy : ℤ) : List ℕ → ℕ
  | [] => 0
  | i :: is =>
      let newX := x + dx * i
      let newY := y + dy * i
      if !isInBoard newX newY || game.cell newX newY ≠ some player then 0
      else game.countStones x y player dx dy is + 1

def checkWin (game : AiGame) (x y : ℤ) (player : String) : Bool :=
  [((1 : ℤ), (0 : ℤ)), (0, 1), (1, 1), (1, -1)].any fun direction ↦
    5 ≤ 1 + game.countStones x y player direction.1 direction.2 [1, 2, 3, 4] +
      game.countStones x y player (-direction.1) (-direction.2) [1, 2, 3, 4]

/-- A stone is placed, and the game is over if it wins. -/
def placeStone (game : AiGame) (x y : ℤ) (player winner : String) : AiGame :=
  let game := { game.setCell x y player with
    moveCount := game.moveCount + 1
    lastMove := (x, y) }
  if game.checkWin x y player then { game with gameOver := true, winner := winner } else game

/-- The answer is false if the move is not valid. -/
def humanMove (game : AiGame) (x y : ℤ) : Bool × AiGame :=
  if !game.isValidMove x y then (false, game)
  else (true, game.placeStone x y humanPlayer "human")

/-! ## The move of the server -/

/-- The stones of the player within two steps in each of the four directions. -/
def evaluateThreat (game : AiGame) (r c : ℤ) : ℤ :=
  [((1 : ℤ), (0 : ℤ)), (0, 1), (1, 1), (1, -1)].foldl (fun threat direction ↦
    threat + 1 + ([(1 : ℤ), 2].filter fun i ↦
      isInBoard (r + i * direction.1) (c + i * direction.2) &&
        game.cell (r + i * direction.1) (c + i * direction.2) = some humanPlayer).length) 0

def isNearOccupied (game : AiGame) (r c : ℤ) : Bool :=
  [((1 : ℤ), (0 : ℤ)), (-1, 0), (0, 1), (0, -1), (1, 1), (-1, -1), (1, -1), (-1, 1)].any
    fun direction ↦
      isInBoard (r + direction.1) (c + direction.2) &&
        game.cell (r + direction.1) (c + direction.2) ≠ some boardEmpty

/-- The cells in the order of the loops. -/
def cells : List (ℤ × ℤ) :=
  (List.range boardSize).flatMap fun (r : ℕ) ↦
    (List.range boardSize).map fun (c : ℕ) ↦ ((r : ℤ), (c : ℤ))

def emptyCells (game : AiGame) : List (ℤ × ℤ) :=
  cells.filter fun place ↦ game.cell place.1 place.2 = some boardEmpty

/-- A stone of the server or one of the player would win there. -/
def isUrgent (game : AiGame) (place : ℤ × ℤ) : Bool :=
  (game.setCell place.1 place.2 aiPlayer).checkWin place.1 place.2 aiPlayer ||
    (game.setCell place.1 place.2 humanPlayer).checkWin place.1 place.2 humanPlayer

/-- The first of the cells with the greatest threat. -/
def greatestThreat (game : AiGame) : ℤ × (ℤ × ℤ) :=
  game.emptyCells.foldl (fun best place ↦
    if best.1 < game.evaluateThreat place.1 place.2 then
      (game.evaluateThreat place.1 place.2, place)
    else best) (-1, (-1, -1))

/-- `rand` is what `rand()` returns.  The stone is on the board already when the
function returns.  The function is not called on a full board, on which it would miss
the board. -/
def getBestMove (game : AiGame) (rand : ℕ) : (ℤ × ℤ) × AiGame :=
  let bestMove :=
    match game.emptyCells.find? game.isUrgent with
    | some place => place
    | none =>
        let (_, bestMove) := game.greatestThreat
        if bestMove.1 = -1 then
          let nearCells := game.emptyCells.filter fun place ↦ game.isNearOccupied place.1 place.2
          if nearCells ≠ [] then nearCells.getD (rand % nearCells.length) bestMove
          else game.emptyCells.headD bestMove
        else bestMove
  (bestMove, game.setCell bestMove.1 bestMove.2 aiPlayer)

def aiMove (game : AiGame) (rand : ℕ) : AiGame :=
  if game.gameOver || game.isDraw then game
  else
    let (place, game) := game.getBestMove rand
    game.placeStone place.1 place.2 aiPlayer "ai"

end AiGame

end HttpRaftKv.Gomoku
