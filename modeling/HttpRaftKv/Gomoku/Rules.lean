import HttpRaftKv.Gomoku.GameRoom

/-!
# What a move does to a room

A room whose board has the right shape can always be played on: no function
reads outside its board.  A move that is refused leaves the room alone, and an
accepted move adds one stone to a game that goes on.  A snapshot loses nothing.
-/

namespace HttpRaftKv.Gomoku.GameRoom

/-- The board is a square of the right size. -/
structure WellFormed (room : GameRoom) : Prop where
  rows : room.board.length = boardSize
  columns : ∀ row ∈ room.board, row.length = boardSize

/-- The board has a place for every move, and perhaps others. -/
def Covered (room : GameRoom) : Prop :=
  ∀ x y, isInBoard x y = true → ∃ stone, room.cell x y = some stone

/-- What an accepted move keeps and what it changes. -/
structure Played (room room' : GameRoom) : Prop where
  goesOn : room.gameOver = false
  roomId : room'.roomId = room.roomId
  player1 : room'.player1 = room.player1
  player2 : room'.player2 = room.player2
  moveCount : room'.moveCount = room.moveCount + 1
  wellFormed : room'.WellFormed

theorem wellFormed_create (roomId player1 player2 : ℤ) :
    (create roomId player1 player2).WellFormed where
  rows := List.length_replicate
  columns := fun row hrow ↦ by
    rw [List.eq_of_mem_replicate hrow, List.length_replicate]

theorem WellFormed.congr {room room' : GameRoom} (h : room.WellFormed)
    (hboard : room'.board = room.board) : room'.WellFormed :=
  ⟨hboard ▸ h.rows, hboard ▸ h.columns⟩

variable {room : GameRoom}

theorem isInBoard_eq_true {x y : ℤ} :
    isInBoard x y = true ↔ 0 ≤ x ∧ x < boardSize ∧ 0 ≤ y ∧ y < boardSize := by
  simp [isInBoard, and_assoc]

theorem WellFormed.exists_cell (h : room.WellFormed) {x y : ℤ} (hin : isInBoard x y = true) :
    ∃ stone, room.cell x y = some stone := by
  obtain ⟨hx, hx', hy, hy'⟩ := isInBoard_eq_true.mp hin
  have hrow : x.toNat < room.board.length := by
    rw [h.rows]
    omega
  have hcolumn : y.toNat < room.board[x.toNat].length := by
    rw [h.columns _ (List.getElem_mem hrow)]
    omega
  refine ⟨room.board[x.toNat][y.toNat], ?_⟩
  simp [cell, List.getElem?_eq_getElem hrow, List.getElem?_eq_getElem hcolumn]

theorem WellFormed.covered (h : room.WellFormed) : room.Covered :=
  fun _ _ hin ↦ h.exists_cell hin

theorem WellFormed.setCell (h : room.WellFormed) (x y : ℤ) (stone : String) :
    (room.setCell x y stone).WellFormed where
  rows := (List.length_modify _ _ _).trans h.rows
  columns := by
    intro row hrow
    obtain ⟨i, hi, hget⟩ := List.mem_iff_getElem.mp hrow
    have hi' : i < room.board.length := by simpa [GameRoom.setCell] using hi
    rw [← hget]
    have hold := h.columns _ (List.getElem_mem hi')
    by_cases hx : x.toNat = i
    · simp [GameRoom.setCell, hx, hold]
    · simp [GameRoom.setCell, hx, hold]

theorem Covered.exists_countStones (h : room.Covered) (x y : ℤ) (player : String)
    (dx dy : ℤ) (is : List ℕ) : ∃ count, room.countStones x y player dx dy is = some count := by
  induction is with
  | nil => exact ⟨0, rfl⟩
  | cons i is ih =>
      obtain ⟨count, hcount⟩ := ih
      unfold countStones
      by_cases hin : isInBoard (x + dx * i) (y + dy * i) = true
      · obtain ⟨stone, hstone⟩ := h _ _ hin
        by_cases hplayer : stone = player
        · exact ⟨count + 1, by simp [hin, hstone, hplayer, hcount]⟩
        · exact ⟨0, by simp [hin, hstone, hplayer]⟩
      · exact ⟨0, by simp [hin]⟩

theorem Covered.exists_checkWin (h : room.Covered) (x y : ℤ) (player : String) :
    ∃ won, room.checkWin x y player = some won := by
  unfold checkWin
  generalize [((1, 0) : ℤ × ℤ), (0, 1), (1, 1), (1, -1)] = directions
  induction directions with
  | nil => exact ⟨false, rfl⟩
  | cons direction directions ih =>
      obtain ⟨dx, dy⟩ := direction
      obtain ⟨forward, hforward⟩ := h.exists_countStones x y player dx dy [1, 2, 3, 4]
      obtain ⟨backward, hbackward⟩ := h.exists_countStones x y player (-dx) (-dy) [1, 2, 3, 4]
      obtain ⟨won, hwon⟩ := ih
      by_cases hfive : 5 ≤ 1 + forward + backward
      · exact ⟨true, by simp [checkWinAlong, hforward, hbackward, hfive]⟩
      · exact ⟨won, by simp [checkWinAlong, hforward, hbackward, hfive, hwon]⟩

theorem WellFormed.exists_placeStone (h : room.WellFormed) (hgoesOn : room.gameOver = false)
    (playerId x y : ℤ) :
    ∃ room', room.placeStone playerId x y = some room' ∧ room.Played room' := by
  unfold placeStone
  generalize (if playerId = room.player1 then boardBlack else boardWhite) = stone
  have hshape : WellFormed { room.setCell x y stone with
      moveCount := room.moveCount + 1, lastMove := (x, y) } := (h.setCell x y stone).congr rfl
  obtain ⟨won, hwon⟩ := hshape.covered.exists_checkWin x y stone
  have hplayed : ∀ room' : GameRoom, room'.roomId = room.roomId → room'.player1 = room.player1 →
      room'.player2 = room.player2 → room'.moveCount = room.moveCount + 1 →
      room'.board = (room.setCell x y stone).board → room.Played room' :=
    fun room' hid h₁ h₂ hcount hboard ↦
      ⟨hgoesOn, hid, h₁, h₂, hcount, (h.setCell x y stone).congr hboard⟩
  simp only [hwon, Option.bind_eq_bind, Option.bind_some]
  cases won with
  | true => exact ⟨_, rfl, hplayed _ rfl rfl rfl rfl rfl⟩
  | false =>
      rw [if_neg Bool.false_ne_true]
      by_cases hdraw : isDraw { room.setCell x y stone with
          moveCount := room.moveCount + 1, lastMove := (x, y) } = true
      · rw [if_pos hdraw]
        exact ⟨_, rfl, hplayed _ rfl rfl rfl rfl rfl⟩
      · rw [if_neg hdraw]
        exact ⟨_, rfl, hplayed _ rfl rfl rfl rfl rfl⟩

/-- A move is refused and leaves the room alone, or it is played. -/
theorem WellFormed.makeMove_cases (h : room.WellFormed) (playerId x y : ℤ) :
    (∃ result, result ≠ .ok ∧ room.makeMove playerId x y = some (result, room)) ∨
      ∃ room', room.makeMove playerId x y = some (.ok, room') ∧ room.Played room' := by
  unfold makeMove
  cases hover : room.gameOver with
  | true => exact .inl ⟨.gameOver, by simp, rfl⟩
  | false =>
      by_cases hturn : playerId = room.currentTurn
      · subst hturn
        by_cases hin : isInBoard x y = true
        · obtain ⟨stone, hstone⟩ := h.exists_cell hin
          by_cases hempty : stone = boardEmpty
          · obtain ⟨room', hplace, hplayed⟩ := h.exists_placeStone hover room.currentTurn x y
            refine .inr ⟨room', ?_, hplayed⟩
            simp [isValidMove, hin, hstone, hempty, hplace]
          · exact .inl ⟨.invalidMove, by simp, by simp [isValidMove, hin, hstone, hempty]⟩
        · exact .inl ⟨.invalidMove, by simp, by simp [isValidMove, hin]⟩
      · exact .inl ⟨.notYourTurn, by simp, by simp [hturn]⟩

/-! ## Snapshots -/

theorem at?_gameOver_snapshot (room : GameRoom) :
    room.snapshot.at? "gameOver" = some (.boolean room.gameOver) := by
  simp [snapshot, List.lookup_cons]

theorem at?_roomId_snapshot (room : GameRoom) :
    room.snapshot.at? "roomId" = some (.integer room.roomId) := by
  simp [snapshot]

theorem at?_moveCount_snapshot (room : GameRoom) :
    room.snapshot.at? "moveCount" = some (.integer room.moveCount) := by
  simp [snapshot, List.lookup_cons]

theorem boardFromJson_array (board : List (List String)) :
    boardFromJson (.array (board.map fun row ↦ .array (row.map .string))) = some board := by
  have hrow : ∀ row : List String, rowFromJson (.array (row.map .string)) = some row := by
    intro row
    induction row with
    | nil => rfl
    | cons stone row ih => simp_all [rowFromJson, Json.getArray?, Json.getString?]
  induction board with
  | nil => rfl
  | cons row board ih => simp_all [boardFromJson, Json.getArray?]

/-- A room is restored from its snapshot with all its fields. -/
@[simp] theorem fromSnapshot_snapshot (room : GameRoom) :
    fromSnapshot room.snapshot = some room := by
  simp [fromSnapshot, snapshot, List.lookup_cons, Json.getInt?, Json.getBool?, Json.getString?,
    boardFromJson_array]

theorem snapshot_injective {room room' : GameRoom} (h : room.snapshot = room'.snapshot) :
    room = room' := by
  have hrestored := congrArg fromSnapshot h
  rw [fromSnapshot_snapshot, fromSnapshot_snapshot] at hrestored
  exact Option.some.inj hrestored

end HttpRaftKv.Gomoku.GameRoom
