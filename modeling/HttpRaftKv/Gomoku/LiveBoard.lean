import HttpRaftKv.Gomoku.AiGame
import HttpRaftKv.Gomoku.Game
import HttpRaftKv.Lib.Loops

/-!
# The board under the trial stones

What a game against the server does to its board access by access: an access that misses
the board has no result, and the stones that the server tries out are put on the board
and taken back.  On a board of full size no access misses, and what comes of it is what
the game does that looks at a board with the stone and goes on with the board without it.
-/

namespace HttpRaftKv.Gomoku.AiGame

/-- The board in a room of its own; both classes look at it in the same way. -/
def room (game : AiGame) : GameRoom :=
  { GameRoom.create 0 0 0 with board := game.board }

namespace Live

/-- `board_[x][y]`. -/
def read (game : AiGame) (x y : ℤ) : Option String :=
  if x < 0 || y < 0 then none else game.cell x y

/-- An assignment to `board_[x][y]`. -/
def write (game : AiGame) (x y : ℤ) (stone : String) : Option AiGame :=
  (read game x y).map fun _ ↦ game.setCell x y stone

def isValidMove (game : AiGame) (x y : ℤ) : Option Bool :=
  if !isInBoard x y then some false
  else do
    if (← read game x y) ≠ boardEmpty then
      return false
    else
      return !(game.gameOver || game.isDraw)

/-- It is the same in both classes. -/
def checkWin (game : AiGame) (x y : ℤ) (player : String) : Option Bool :=
  game.room.checkWin x y player

def placeStone (game : AiGame) (x y : ℤ) (player winner : String) : Option AiGame := do
  let game := { ← write game x y player with
    moveCount := game.moveCount + 1
    lastMove := (x, y) }
  if ← checkWin game x y player then
    return { game with gameOver := true, winner := winner }
  else
    return game

def humanMove (game : AiGame) (x y : ℤ) : Option (Bool × AiGame) := do
  if !(← isValidMove game x y) then
    return (false, game)
  else
    return (true, ← placeStone game x y humanPlayer "human")

/-! ## The move of the server -/

/-- The inner loop of `evaluateThreat`. -/
def countHuman (game : AiGame) (r c : ℤ) (direction : ℤ × ℤ) : Option ℤ :=
  [(1 : ℤ), 2].foldlM (fun count i ↦
    let nr := r + i * direction.1
    let nc := c + i * direction.2
    if isInBoard nr nc then do
      return if (← read game nr nc) = humanPlayer then count + 1 else count
    else some count) 1

def evaluateThreat (game : AiGame) (r c : ℤ) : Option ℤ :=
  [((1 : ℤ), (0 : ℤ)), (0, 1), (1, 1), (1, -1)].foldlM (fun threat direction ↦ do
    return threat + (← countHuman game r c direction)) 0

def isNearOccupied (game : AiGame) (r c : ℤ) : Option Bool :=
  [((1 : ℤ), (0 : ℤ)), (-1, 0), (0, 1), (0, -1), (1, 1), (-1, -1), (1, -1), (-1, 1)].anyM
    fun direction ↦
      let nr := r + direction.1
      let nc := c + direction.2
      if isInBoard nr nc then do
        return (← read game nr nc) ≠ boardEmpty
      else some false

/-- One turn of the first loop: the first result says whether it returns. -/
def tryCell (game : AiGame) (r c : ℤ) : Option (Bool × AiGame) := do
  if (← read game r c) ≠ boardEmpty then
    return (false, game)
  else
    let game ← write game r c aiPlayer
    if ← checkWin game r c aiPlayer then
      return (true, game)
    else
      let game ← write game r c boardEmpty
      let game ← write game r c humanPlayer
      if ← checkWin game r c humanPlayer then
        return (true, ← write game r c aiPlayer)
      else
        return (false, ← write game r c boardEmpty)

/-- The first loop. -/
def findUrgent (game : AiGame) : List (ℤ × ℤ) → Option (Option (ℤ × ℤ) × AiGame)
  | [] => some (none, game)
  | place :: places => do
      let (found, game) ← tryCell game place.1 place.2
      if found then
        return (some place, game)
      else
        findUrgent game places

/-- The second loop. -/
def greatestThreat (game : AiGame) : Option (ℤ × (ℤ × ℤ)) :=
  cells.foldlM (fun best place ↦ do
    if (← read game place.1 place.2) ≠ boardEmpty then
      return best
    else
      let threatLevel ← evaluateThreat game place.1 place.2
      return if best.1 < threatLevel then (threatLevel, place) else best) (-1, (-1, -1))

def nearCells (game : AiGame) : Option (List (ℤ × ℤ)) :=
  cells.foldlM (fun near place ↦ do
    if (← read game place.1 place.2) = boardEmpty then
      return if ← isNearOccupied game place.1 place.2 then near ++ [place] else near
    else
      return near) []

/-- The last loop. -/
def firstEmpty (game : AiGame) : Option (Option (ℤ × ℤ)) :=
  cells.findM? fun place ↦ do
    return (← read game place.1 place.2) = boardEmpty

/-- `rand` is what `rand()` returns. -/
def getBestMove (game : AiGame) (rand : ℕ) : Option ((ℤ × ℤ) × AiGame) := do
  let (urgent, game) ← findUrgent game cells
  match urgent with
  | some place => return (place, game)
  | none =>
      let (_, bestMove) ← greatestThreat game
      if bestMove.1 = -1 then
        let near ← nearCells game
        if near ≠ [] then
          let place := near.getD (rand % near.length) bestMove
          return (place, ← write game place.1 place.2 aiPlayer)
        else
          let place := (← firstEmpty game).getD bestMove
          return (place, ← write game place.1 place.2 aiPlayer)
      else
        return (bestMove, ← write game bestMove.1 bestMove.2 aiPlayer)

def aiMove (game : AiGame) (rand : ℕ) : Option AiGame :=
  if game.gameOver || game.isDraw then some game
  else do
    let (place, game) ← getBestMove game rand
    placeStone game place.1 place.2 aiPlayer "ai"

/-- A move of the player, or of the server with what `rand()` returns to it. -/
inductive Call
  | humanMove (x y : ℤ)
  | aiMove (rand : ℕ)
deriving DecidableEq, Repr

def call (game : AiGame) : Call → Option AiGame
  | .humanMove x y => (humanMove game x y).map Prod.snd
  | .aiMove rand => aiMove game rand

end Live

end HttpRaftKv.Gomoku.AiGame
