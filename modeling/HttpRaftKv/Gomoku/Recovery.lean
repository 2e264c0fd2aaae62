import HttpRaftKv.Gomoku.Game

/-!
# Rooms from stored snapshots

`fromSnapshot` looks whether the fields are there and what types they have, and takes any
nested array for a board.  Every other function of the room relies on the size that the
constructor gives it.
-/

namespace HttpRaftKv.Gomoku.GameRoom

variable {room : GameRoom} {j : Json}

/-! ## Boards that can be played on -/

/-- There are enough rows, and they have enough places. -/
def Covers (board : List (List String)) : Prop :=
  boardSize ≤ board.length ∧ ∀ row ∈ board.take boardSize, boardSize ≤ row.length

theorem isSome_cell {x y : ℤ} :
    (∃ stone, room.cell x y = some stone) ↔
      ∃ row, room.board[x.toNat]? = some row ∧ y.toNat < row.length := by
  constructor
  · rintro ⟨stone, hstone⟩
    obtain ⟨row, hrow, hplace⟩ := cell_eq_some.mp hstone
    exact ⟨row, hrow, (List.getElem?_eq_some_iff.mp hplace).1⟩
  · rintro ⟨row, hrow, hlt⟩
    exact ⟨row[y.toNat], cell_eq_some.mpr ⟨row, hrow, List.getElem?_eq_getElem hlt⟩⟩

theorem covered_iff : room.Covered ↔ Covers room.board := by
  have hsize : 0 < boardSize := by decide
  constructor
  · intro h
    have hrow : ∀ i j : ℕ, i < boardSize → j < boardSize →
        ∃ row, room.board[i]? = some row ∧ j < row.length := fun i j hi hj ↦
      isSome_cell.mp (h i j (isInBoard_eq_true.mpr (by omega)))
    refine ⟨?_, fun row hmem ↦ ?_⟩
    · obtain ⟨row, hlast, _⟩ := hrow (boardSize - 1) 0 (by omega) hsize
      have hlt := (List.getElem?_eq_some_iff.mp hlast).1
      omega
    · obtain ⟨i, hi⟩ := List.mem_iff_getElem?.mp hmem
      have hlt := (List.getElem?_eq_some_iff.mp hi).1
      rw [List.length_take] at hlt
      rw [List.getElem?_take_of_lt (by omega)] at hi
      obtain ⟨row', hrow', hlong⟩ := hrow i (boardSize - 1) (by omega) (by omega)
      rw [hi, Option.some_inj] at hrow'
      subst hrow'
      omega
  · rintro ⟨hrows, hcolumns⟩ x y hin
    obtain ⟨hx, hx', hy, hy'⟩ := isInBoard_eq_true.mp hin
    have hlt : x.toNat < room.board.length := by omega
    refine isSome_cell.mpr ⟨room.board[x.toNat], List.getElem?_eq_getElem hlt, ?_⟩
    have hmem : room.board[x.toNat] ∈ room.board.take boardSize := by
      refine List.mem_of_getElem? (i := x.toNat) ?_
      rw [List.getElem?_take_of_lt (by omega), List.getElem?_eq_getElem hlt]
    have hlong := hcolumns _ hmem
    omega

theorem Covered.setCell (h : room.Covered) (x y : ℤ) (stone : String) :
    (room.setCell x y stone).Covered := by
  intro x' y' hin
  obtain ⟨row, hrow, hlt⟩ := isSome_cell.mp (h x' y' hin)
  refine isSome_cell.mpr ?_
  unfold GameRoom.setCell
  rw [List.getElem?_modify, hrow]
  split_ifs
  · exact ⟨row.set y.toNat stone, rfl, by rwa [List.length_set]⟩
  · exact ⟨row, rfl, hlt⟩

theorem Covered.exists_placeStone (h : room.Covered) (playerId x y : ℤ) :
    ∃ room', room.placeStone playerId x y = some room' := by
  unfold placeStone
  generalize (if playerId = room.player1 then boardBlack else boardWhite) = stone
  have hcovered : Covered { room.setCell x y stone with
      moveCount := room.moveCount + 1, lastMove := (x, y) } := h.setCell x y stone
  obtain ⟨won, hwon⟩ := hcovered.exists_checkWin x y stone
  simp only [hwon, Option.bind_eq_bind, Option.bind_some]
  split
  · exact ⟨_, rfl⟩
  · split
    · exact ⟨_, rfl⟩
    · exact ⟨_, rfl⟩

theorem Covered.exists_makeMove (h : room.Covered) (playerId x y : ℤ) :
    ∃ r, room.makeMove playerId x y = some r := by
  unfold makeMove
  split_ifs
  · exact ⟨_, rfl⟩
  · exact ⟨_, rfl⟩
  · obtain ⟨room', hplace⟩ := h.exists_placeStone playerId x y
    by_cases hin : isInBoard x y = true
    · obtain ⟨stone, hstone⟩ := h x y hin
      by_cases hempty : stone = boardEmpty
      · exact ⟨(.ok, room'), by simp [isValidMove, hin, hstone, hempty, hplace]⟩
      · exact ⟨(.invalidMove, room), by simp [isValidMove, hin, hstone, hempty]⟩
    · exact ⟨(.invalidMove, room), by simp [isValidMove, hin]⟩

/-- A move accesses no place that does not exist exactly if the game is over or the board has
a place for every move. -/
theorem exists_makeMove_iff :
    (∀ playerId x y, ∃ r, room.makeMove playerId x y = some r) ↔
      room.gameOver = true ∨ room.Covered := by
  constructor
  · intro h
    cases hover : room.gameOver with
    | true => exact .inl rfl
    | false =>
        refine .inr fun x y hin ↦ ?_
        obtain ⟨r, hr⟩ := h room.currentTurn x y
        rw [makeMove, hover, if_neg Bool.false_ne_true, if_neg (not_not.mpr rfl), isValidMove,
          if_neg (by simp [hin])] at hr
        cases hcell : room.cell x y with
        | none =>
            rw [hcell] at hr
            cases hr
        | some stone => exact ⟨stone, rfl⟩
  · rintro (hover | hcovered) playerId x y
    · exact ⟨_, if_pos hover⟩
    · exact hcovered.exists_makeMove playerId x y

/-! ## Snapshots -/

/-- `snapshot.at(key).get<T>()`. -/
def field {α : Type} (j : Json) (key : String) (get? : Json → Option α) : Option α :=
  (j.at? key).bind get?

/-- Every field that `snapshot` writes is there, with its type. -/
structure Legible (j : Json) : Prop where
  integers : ∀ key ∈ ["roomId", "player1", "player2", "currentTurn", "moveCount", "winner"],
    ∃ n, field j key Json.getInt? = some n
  gameOver : ∃ ended, field j "gameOver" Json.getBool? = some ended
  winnerReason : ∃ text, field j "winnerReason" Json.getString? = some text
  lastMove : ∀ key ∈ ["x", "y"],
    ∃ n, (field j "lastMove" fun move ↦ field move key Json.getInt?) = some n
  board : ∃ board, field j "board" boardFromJson = some board

theorem bind_field {α β : Type} (j : Json) (key : String) (get? : Json → Option α)
    (rest : α → Option β) :
    ((j.at? key).bind fun value ↦ (get? value).bind rest) = (field j key get?).bind rest :=
  (Option.bind_assoc _ _ _).symm

theorem fromSnapshot_eq (j : Json) :
    fromSnapshot j =
      (field j "roomId" Json.getInt?).bind fun roomId ↦
      (field j "player1" Json.getInt?).bind fun player1 ↦
      (field j "player2" Json.getInt?).bind fun player2 ↦
      (field j "currentTurn" Json.getInt?).bind fun currentTurn ↦
      (field j "moveCount" Json.getInt?).bind fun moveCount ↦
      (field j "gameOver" Json.getBool?).bind fun gameOver ↦
      (field j "winner" Json.getInt?).bind fun winner ↦
      (field j "winnerReason" Json.getString?).bind fun winnerReason ↦
      (field j "lastMove" fun move ↦ field move "x" Json.getInt?).bind fun x ↦
      (field j "lastMove" fun move ↦ field move "y" Json.getInt?).bind fun y ↦
      (field j "board" boardFromJson).bind fun board ↦ some
        { roomId, player1, player2, currentTurn, moveCount, gameOver, winner, winnerReason
          lastMove := (x, y)
          board } := by
  simp only [fromSnapshot, Option.bind_eq_bind, Option.pure_def, bind_field]

/-- What `fromSnapshot` accepts, and what it takes from it. -/
theorem legible_of_fromSnapshot (h : fromSnapshot j = some room) :
    Legible j ∧ field j "gameOver" Json.getBool? = some room.gameOver ∧
      field j "board" boardFromJson = some room.board := by
  rw [fromSnapshot_eq] at h
  obtain ⟨roomId, hroomId, h⟩ := Option.bind_eq_some_iff.mp h
  obtain ⟨player1, hplayer1, h⟩ := Option.bind_eq_some_iff.mp h
  obtain ⟨player2, hplayer2, h⟩ := Option.bind_eq_some_iff.mp h
  obtain ⟨currentTurn, hcurrentTurn, h⟩ := Option.bind_eq_some_iff.mp h
  obtain ⟨moveCount, hmoveCount, h⟩ := Option.bind_eq_some_iff.mp h
  obtain ⟨gameOver, hgameOver, h⟩ := Option.bind_eq_some_iff.mp h
  obtain ⟨winner, hwinner, h⟩ := Option.bind_eq_some_iff.mp h
  obtain ⟨winnerReason, hwinnerReason, h⟩ := Option.bind_eq_some_iff.mp h
  obtain ⟨x, hx, h⟩ := Option.bind_eq_some_iff.mp h
  obtain ⟨y, hy, h⟩ := Option.bind_eq_some_iff.mp h
  obtain ⟨board, hboard, h⟩ := Option.bind_eq_some_iff.mp h
  cases h
  refine ⟨⟨?_, ⟨_, hgameOver⟩, ⟨_, hwinnerReason⟩, ?_, ⟨_, hboard⟩⟩, hgameOver, hboard⟩
  · simp [hroomId, hplayer1, hplayer2, hcurrentTurn, hmoveCount, hwinner]
  · simp [hx, hy]

theorem Legible.exists_room (h : Legible j) : ∃ room, fromSnapshot j = some room := by
  obtain ⟨roomId, hroomId⟩ := h.integers "roomId" (by simp)
  obtain ⟨player1, hplayer1⟩ := h.integers "player1" (by simp)
  obtain ⟨player2, hplayer2⟩ := h.integers "player2" (by simp)
  obtain ⟨currentTurn, hcurrentTurn⟩ := h.integers "currentTurn" (by simp)
  obtain ⟨moveCount, hmoveCount⟩ := h.integers "moveCount" (by simp)
  obtain ⟨winner, hwinner⟩ := h.integers "winner" (by simp)
  obtain ⟨gameOver, hgameOver⟩ := h.gameOver
  obtain ⟨winnerReason, hwinnerReason⟩ := h.winnerReason
  obtain ⟨x, hx⟩ := h.lastMove "x" (by simp)
  obtain ⟨y, hy⟩ := h.lastMove "y" (by simp)
  obtain ⟨board, hboard⟩ := h.board
  rw [fromSnapshot_eq, hroomId, hplayer1, hplayer2, hcurrentTurn, hmoveCount, hgameOver, hwinner,
    hwinnerReason, hx, hy, hboard]
  exact ⟨_, rfl⟩

/-! ## Recovery -/

/-- The snapshot has a board with this property. -/
def HasBoard (j : Json) (p : List (List String) → Prop) : Prop :=
  ∃ board, field j "board" boardFromJson = some board ∧ p board

/-- The board is a square of the right size. -/
def IsSquare (board : List (List String)) : Prop :=
  board.length = boardSize ∧ ∀ row ∈ board, row.length = boardSize

theorem hasBoard_iff (h : fromSnapshot j = some room) (p : List (List String) → Prop) :
    HasBoard j p ↔ p room.board := by
  have hboard := (legible_of_fromSnapshot h).2.2
  constructor
  · rintro ⟨board, hboard', hp⟩
    rw [hboard, Option.some_inj] at hboard'
    exact hboard' ▸ hp
  · exact fun hp ↦ ⟨_, hboard, hp⟩

/-- Moves of a recovered room stay on its board exactly if the snapshot is not accepted, is of
a game that is over, or has a place for every move; and the board is a square of the right size
exactly if the snapshot is not accepted or has such a one. -/
theorem recovered_iff (j : Json) :
    ((∀ room, fromSnapshot j = some room →
        ∀ playerId x y, ∃ r, room.makeMove playerId x y = some r) ↔
      (Legible j → field j "gameOver" Json.getBool? = some true ∨ HasBoard j Covers)) ∧
    ((∀ room, fromSnapshot j = some room → room.WellFormed) ↔
      (Legible j → HasBoard j IsSquare)) := by
  refine ⟨⟨fun h hlegible ↦ ?_, fun h room hroom ↦ ?_⟩, fun h hlegible ↦ ?_, fun h room hroom ↦ ?_⟩
  · obtain ⟨room, hroom⟩ := hlegible.exists_room
    rw [hasBoard_iff hroom, (legible_of_fromSnapshot hroom).2.1, Option.some_inj, ← covered_iff]
    exact exists_makeMove_iff.mp (h room hroom)
  · obtain ⟨hlegible, hover, _⟩ := legible_of_fromSnapshot hroom
    have hsafe := h hlegible
    rw [hasBoard_iff hroom, hover, Option.some_inj, ← covered_iff] at hsafe
    exact exists_makeMove_iff.mpr hsafe
  · obtain ⟨room, hroom⟩ := hlegible.exists_room
    exact (hasBoard_iff hroom _).mpr ⟨(h room hroom).rows, (h room hroom).columns⟩
  · obtain ⟨hrows, hcolumns⟩ := (hasBoard_iff hroom _).mp (h (legible_of_fromSnapshot hroom).1)
    exact ⟨hrows, hcolumns⟩

/-- The snapshot of a room that has lost its rows. -/
def withoutRows : Json :=
  snapshot { create 1 7 8 with board := [] }

/-- It is accepted, and the first move misses the board. -/
theorem not_recovered_withoutRows :
    ∃ room, fromSnapshot withoutRows = some room ∧ room.makeMove 7 0 0 = none ∧
      ¬ room.WellFormed := by
  refine ⟨{ create 1 7 8 with board := [] }, fromSnapshot_snapshot _, rfl, fun h ↦ ?_⟩
  have hrows := h.rows
  revert hrows
  decide

end HttpRaftKv.Gomoku.GameRoom
