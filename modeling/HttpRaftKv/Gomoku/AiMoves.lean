import HttpRaftKv.Gomoku.LiveBoard

/-!
# The moves of a game against the server

On a board of full size no access misses, and the trial stones leave no trace.  So a move
of the server puts one white stone on an empty place.  Whether it is the place where the
server wins depends on which urgent place the first loop comes to first.
-/

namespace HttpRaftKv.Gomoku.AiGame

variable {game game' : AiGame} {x y : ℤ} {stone : String}

/-- The board has its full size. -/
def Square (game : AiGame) : Prop :=
  game.room.WellFormed

theorem square_create (userId : ℤ) : (create userId).Square :=
  GameRoom.wellFormed_create 0 0 0

theorem Square.congr (h : game.Square) (hboard : game'.board = game.board) : game'.Square :=
  GameRoom.WellFormed.congr h hboard

theorem Square.setCell (h : game.Square) (x y : ℤ) (stone : String) :
    (game.setCell x y stone).Square :=
  GameRoom.WellFormed.setCell h x y stone

theorem Square.exists_cell (h : game.Square) (hin : isInBoard x y = true) :
    ∃ stone, game.cell x y = some stone :=
  GameRoom.WellFormed.exists_cell h hin

/-! ## Accesses -/

theorem read_eq (game : AiGame) (hin : isInBoard x y = true) :
    Live.read game x y = game.cell x y := by
  obtain ⟨hx, -, hy, -⟩ := GameRoom.isInBoard_eq_true.mp hin
  rw [Live.read, if_neg]
  simp [hx, hy]

theorem Square.exists_read (h : game.Square) (hin : isInBoard x y = true) :
    ∃ stone, Live.read game x y = some stone ∧ game.cell x y = some stone := by
  obtain ⟨stone, hstone⟩ := h.exists_cell hin
  exact ⟨stone, (read_eq game hin).trans hstone, hstone⟩

theorem Square.write_eq (h : game.Square) (hin : isInBoard x y = true) (stone : String) :
    Live.write game x y stone = some (game.setCell x y stone) := by
  obtain ⟨old, hold⟩ := h.exists_cell hin
  rw [Live.write, read_eq game hin, hold, Option.map_some]

theorem cell_eq_some : game.cell x y = some stone ↔
    ∃ row, game.board[x.toNat]? = some row ∧ row[y.toNat]? = some stone :=
  @GameRoom.cell_eq_some game.room x y stone

theorem cell_setCell_self {old : String} (h : game.cell x y = some old) (stone : String) :
    (game.setCell x y stone).cell x y = some stone := by
  obtain ⟨row, hrow, hold⟩ := cell_eq_some.mp h
  have hlt := (List.getElem?_eq_some_iff.mp hold).1
  refine cell_eq_some.mpr ⟨row.set y.toNat stone, ?_, ?_⟩
  · simp [setCell, hrow]
  · simp [hlt]

theorem setCell_setCell (game : AiGame) (x y : ℤ) (stone other : String) :
    (game.setCell x y other).setCell x y stone = game.setCell x y stone := by
  simp [setCell, List.modify_modify_eq, Function.comp_def]

/-- A stone that is on the board already changes nothing. -/
theorem setCell_of_cell (h : game.cell x y = some stone) : game.setCell x y stone = game := by
  obtain ⟨row, hrow, hstone⟩ := cell_eq_some.mp h
  have hset : row.set y.toNat stone = row := by
    obtain ⟨hlt, rfl⟩ := List.getElem?_eq_some_iff.mp hstone
    exact List.set_getElem_self hlt
  have hboard : (game.board.modify x.toNat fun row ↦ row.set y.toNat stone) = game.board := by
    refine List.ext_getElem? fun i ↦ ?_
    rw [List.getElem?_modify]
    by_cases hi : x.toNat = i
    · rw [← hi, hrow, Option.map_eq_map, Option.map_some, if_pos rfl, hset]
    · simp [hi]
  rw [setCell, hboard]

/-- A trial stone is taken back. -/
theorem setCell_back (h : game.cell x y = some stone) (other : String) :
    (game.setCell x y other).setCell x y stone = game := by
  rw [setCell_setCell, setCell_of_cell h]

/-! ## Looking at the board -/

theorem Square.countStones_eq (h : game.Square) (player : String) (dx dy : ℤ) (is : List ℕ) :
    game.room.countStones x y player dx dy is = some (game.countStones x y player dx dy is) := by
  induction is with
  | nil => rfl
  | cons i is ih =>
      unfold countStones GameRoom.countStones
      dsimp only
      by_cases hin : isInBoard (x + dx * i) (y + dy * i) = true
      · obtain ⟨stone, hstone⟩ := h.exists_cell hin
        have hroom : game.room.cell (x + dx * i) (y + dy * i) = some stone := hstone
        have hin' : GameRoom.isInBoard (x + dx * i) (y + dy * i) = true := hin
        by_cases hplayer : stone = player
        · simp [hin, hin', hroom, hstone, hplayer, ih]
        · simp [hin, hin', hroom, hstone, hplayer]
      · have hin' : ¬ GameRoom.isInBoard (x + dx * i) (y + dy * i) = true := hin
        simp [hin, hin']

theorem Square.checkWin_eq (h : game.Square) (x y : ℤ) (player : String) :
    Live.checkWin game x y player = some (game.checkWin x y player) := by
  unfold Live.checkWin GameRoom.checkWin checkWin
  generalize [((1, 0) : ℤ × ℤ), (0, 1), (1, 1), (1, -1)] = directions
  induction directions with
  | nil => rfl
  | cons direction directions ih =>
      obtain ⟨dx, dy⟩ := direction
      rw [GameRoom.checkWinAlong, h.countStones_eq, h.countStones_eq, ih]
      simp only [Option.bind_eq_bind, Option.bind_some, List.any_cons]
      split_ifs with hfive
      · simp [hfive]
      · simp [hfive]

/-! ## The loops -/

theorem mem_cells {place : ℤ × ℤ} :
    place ∈ cells ↔ isInBoard place.1 place.2 = true := by
  rw [show isInBoard place.1 place.2 = true ↔ _ from GameRoom.isInBoard_eq_true]
  unfold cells
  simp only [List.mem_flatMap, List.mem_map, List.mem_range]
  constructor
  · rintro ⟨r, hr, c, hc, rfl⟩
    omega
  · rintro ⟨hx, hx', hy, hy'⟩
    refine ⟨place.1.toNat, by omega, place.2.toNat, by omega, Prod.ext ?_ ?_⟩
    · exact Int.toNat_of_nonneg hx
    · exact Int.toNat_of_nonneg hy

/-- The place is empty, and a stone of one of the players would win there. -/
def Urgent (game : AiGame) (place : ℤ × ℤ) : Bool :=
  game.cell place.1 place.2 = some boardEmpty && game.isUrgent place

theorem Square.tryCell_eq (h : game.Square) {r c : ℤ} (hin : isInBoard r c = true) :
    Live.tryCell game r c =
      some (if game.Urgent (r, c) then (true, game.setCell r c aiPlayer) else (false, game)) := by
  obtain ⟨old, hread, hold⟩ := h.exists_read hin
  unfold Live.tryCell Urgent
  rw [hread, hold]
  simp only [Option.bind_eq_bind, Option.bind_some]
  by_cases hempty : old = boardEmpty
  · subst hempty
    have hself := cell_setCell_self hold
    rw [if_neg (not_not.mpr rfl), h.write_eq hin, Option.bind_some,
      (h.setCell r c aiPlayer).checkWin_eq, Option.bind_some]
    cases hwhite : (game.setCell r c aiPlayer).checkWin r c aiPlayer with
    | true => simp [isUrgent, hwhite]
    | false =>
        have hback : (game.setCell r c aiPlayer).setCell r c boardEmpty = game :=
          setCell_back hold aiPlayer
        rw [if_neg Bool.false_ne_true, (h.setCell r c aiPlayer).write_eq hin, Option.bind_some,
          hback, h.write_eq hin, Option.bind_some, (h.setCell r c humanPlayer).checkWin_eq,
          Option.bind_some]
        cases hblack : (game.setCell r c humanPlayer).checkWin r c humanPlayer with
        | true =>
            rw [if_pos rfl, (h.setCell r c humanPlayer).write_eq hin, Option.bind_some,
              setCell_setCell]
            simp [isUrgent, hblack]
        | false =>
            rw [if_neg Bool.false_ne_true, (h.setCell r c humanPlayer).write_eq hin,
              Option.bind_some, setCell_back hold]
            simp [isUrgent, hwhite, hblack]
  · simp [hempty]

/-- The first loop returns at the first urgent place, and leaves nothing else behind. -/
theorem Square.findUrgent_eq (h : game.Square) {places : List (ℤ × ℤ)}
    (hin : ∀ place ∈ places, isInBoard place.1 place.2 = true) :
    Live.findUrgent game places =
      some (places.find? game.Urgent,
        (places.find? game.Urgent).elim game fun place ↦
          game.setCell place.1 place.2 aiPlayer) := by
  induction places with
  | nil => rfl
  | cons place places ih =>
      have hrest := ih fun other hother ↦ hin other (List.mem_cons_of_mem place hother)
      rw [Live.findUrgent, h.tryCell_eq (hin place List.mem_cons_self), List.find?_cons]
      cases hurgent : game.Urgent place with
      | true => rfl
      | false => exact hrest

theorem Square.countHuman_eq (h : game.Square) (r c : ℤ) (direction : ℤ × ℤ) :
    Live.countHuman game r c direction =
      some (1 + ([(1 : ℤ), 2].filter fun i ↦
        isInBoard (r + i * direction.1) (c + i * direction.2) &&
          game.cell (r + i * direction.1) (c + i * direction.2) = some humanPlayer).length) := by
  let hit : ℤ → Bool := fun i ↦
    isInBoard (r + i * direction.1) (c + i * direction.2) &&
      game.cell (r + i * direction.1) (c + i * direction.2) = some humanPlayer
  have hturn : ∀ count : ℤ, ∀ i ∈ [(1 : ℤ), 2],
      (if isInBoard (r + i * direction.1) (c + i * direction.2) then do
        return if (← Live.read game (r + i * direction.1) (c + i * direction.2)) = humanPlayer
          then count + 1 else count
      else some count) = some (if hit i then count + 1 else count) := by
    intro count i _
    by_cases hin : isInBoard (r + i * direction.1) (c + i * direction.2) = true
    · obtain ⟨stone, hread, hstone⟩ := h.exists_read hin
      simp [hit, hin, hread, hstone]
    · simp [hit, hin]
  refine (Loops.foldlM_eq_some hturn 1).trans ?_
  change some _ = some (1 + (([(1 : ℤ), 2].filter hit).length : ℤ))
  cases hfirst : hit 1 <;> cases hsecond : hit 2 <;> simp [hfirst, hsecond]

theorem Square.evaluateThreat_eq (h : game.Square) (r c : ℤ) :
    Live.evaluateThreat game r c = some (game.evaluateThreat r c) := by
  refine Loops.foldlM_eq_some (fun threat direction _ ↦ ?_) 0
  rw [h.countHuman_eq, Int.add_assoc]
  rfl

theorem Square.isNearOccupied_eq (h : game.Square) (r c : ℤ) :
    Live.isNearOccupied game r c = some (game.isNearOccupied r c) := by
  refine Loops.anyM_eq_some fun direction _ ↦ ?_
  by_cases hin : isInBoard (r + direction.1) (c + direction.2) = true
  · obtain ⟨stone, hread, hstone⟩ := h.exists_read hin
    simp [hin, hread, hstone]
  · simp [hin]

theorem Square.greatestThreat_eq (h : game.Square) :
    Live.greatestThreat game = some game.greatestThreat := by
  unfold greatestThreat emptyCells
  rw [List.foldl_filter]
  refine Loops.foldlM_eq_some (fun best place hplace ↦ ?_) _
  have hin := mem_cells.mp hplace
  obtain ⟨stone, hread, hstone⟩ := h.exists_read hin
  by_cases hempty : stone = boardEmpty
  · simp [hread, hstone, hempty, h.evaluateThreat_eq]
  · simp [hread, hstone, hempty]

theorem Square.nearCells_eq (h : game.Square) :
    Live.nearCells game =
      some (game.emptyCells.filter fun place ↦ game.isNearOccupied place.1 place.2) := by
  unfold emptyCells
  rw [List.filter_filter, ← List.nil_append (List.filter _ cells), ← Loops.foldl_append_eq_filter]
  refine Loops.foldlM_eq_some (fun near place hplace ↦ ?_) []
  have hin := mem_cells.mp hplace
  obtain ⟨stone, hread, hstone⟩ := h.exists_read hin
  by_cases hempty : stone = boardEmpty
  · simp [hread, hstone, hempty, h.isNearOccupied_eq]
  · simp [hread, hstone, hempty]

theorem Square.firstEmpty_eq (h : game.Square) :
    Live.firstEmpty game = some game.emptyCells.head? := by
  unfold emptyCells
  rw [List.head?_filter]
  refine Loops.findM?_eq_some fun place hplace ↦ ?_
  have hin := mem_cells.mp hplace
  obtain ⟨stone, hread, hstone⟩ := h.exists_read hin
  simp [hread, hstone]

/-! ## Calls -/

theorem mem_emptyCells {place : ℤ × ℤ} :
    place ∈ game.emptyCells ↔
      isInBoard place.1 place.2 = true ∧ game.cell place.1 place.2 = some boardEmpty := by
  rw [emptyCells, List.mem_filter, mem_cells, decide_eq_true_eq]

theorem greatestThreat_mem (h : game.greatestThreat.2.1 ≠ -1) :
    game.greatestThreat.2 ∈ game.emptyCells := by
  have hcases : game.greatestThreat.2 = (-1, -1) ∨ game.greatestThreat.2 ∈ game.emptyCells := by
    refine List.foldlRecOn (motive := fun best : ℤ × (ℤ × ℤ) ↦
      best.2 = (-1, -1) ∨ best.2 ∈ game.emptyCells) game.emptyCells _ (.inl rfl) ?_
    intro best hbest place hplace
    split_ifs
    · exact .inr hplace
    · exact hbest
  refine hcases.resolve_left fun heq ↦ h ?_
  rw [heq]

/-- The place that is chosen is empty. -/
theorem getBestMove_mem (hempty : game.emptyCells ≠ []) (rand : ℕ) :
    (game.getBestMove rand).1 ∈ game.emptyCells := by
  unfold getBestMove
  dsimp only
  split
  · exact List.mem_of_find?_eq_some ‹_›
  · split_ifs with hnone hnear
    · have hlt := Nat.mod_lt rand (List.length_pos_iff.mpr hnear)
      rw [List.getD_eq_getElem?_getD, List.getElem?_eq_getElem hlt, Option.getD_some]
      exact List.mem_of_mem_filter (List.getElem_mem hlt)
    · obtain ⟨first, rest, heq⟩ := List.exists_cons_of_ne_nil hempty
      rw [heq]
      exact List.mem_cons_self
    · exact greatestThreat_mem hnone

theorem find?_isUrgent (game : AiGame) :
    game.emptyCells.find? game.isUrgent = cells.find? game.Urgent := by
  rw [emptyCells, List.find?_filter]
  congr 1
  funext place
  simp [Urgent]

theorem Square.getBestMove_eq (h : game.Square) (hempty : game.emptyCells ≠ []) (rand : ℕ) :
    Live.getBestMove game rand = some (game.getBestMove rand) := by
  have hwrite : ∀ place, (game.getBestMove rand).1 = place →
      (do return (place, ← Live.write game place.1 place.2 aiPlayer)) =
        some (game.getBestMove rand) := by
    rintro place rfl
    rw [h.write_eq (mem_emptyCells.mp (getBestMove_mem hempty rand)).1]
    rfl
  unfold Live.getBestMove
  rw [h.findUrgent_eq fun place hplace ↦ mem_cells.mp hplace]
  simp only [Option.bind_eq_bind, Option.bind_some]
  cases hfound : cells.find? game.Urgent with
  | some place =>
      have hbest : (game.getBestMove rand).1 = place := by
        rw [getBestMove, find?_isUrgent, hfound]
      rw [← hbest]
      rfl
  | none =>
      simp only [Option.elim_none]
      rw [h.greatestThreat_eq, Option.bind_some]
      by_cases hnone : game.greatestThreat.2.1 = -1
      · rw [if_pos hnone, h.nearCells_eq, Option.bind_some]
        split_ifs with hnear
        · refine hwrite _ ?_
          rw [getBestMove, find?_isUrgent, hfound]
          simp only [hnone, if_true, hnear, ne_eq, not_false_eq_true]
        · rw [h.firstEmpty_eq, Option.bind_some]
          refine hwrite _ ?_
          rw [getBestMove, find?_isUrgent, hfound]
          simp only [hnone, if_true, hnear, if_false]
          exact List.headD_eq_head?_getD
      · rw [if_neg hnone]
        refine hwrite _ ?_
        rw [getBestMove, find?_isUrgent, hfound]
        simp only [hnone, if_false]

theorem Square.placeStone_eq (h : game.Square) (hin : isInBoard x y = true)
    (player winner : String) :
    Live.placeStone game x y player winner = some (game.placeStone x y player winner) := by
  unfold Live.placeStone placeStone
  have hsquare : Square { game.setCell x y player with
      moveCount := game.moveCount + 1, lastMove := (x, y) } := (h.setCell x y player).congr rfl
  rw [h.write_eq hin]
  simp only [Option.bind_eq_bind, Option.bind_some]
  rw [hsquare.checkWin_eq, Option.bind_some]
  split_ifs
  · rfl
  · rfl

theorem Square.isValidMove_eq (h : game.Square) (x y : ℤ) :
    Live.isValidMove game x y = some (game.isValidMove x y) := by
  unfold Live.isValidMove isValidMove
  by_cases hin : isInBoard x y = true
  · obtain ⟨stone, hread, hstone⟩ := h.exists_read hin
    by_cases hempty : stone = boardEmpty
    · simp [hin, hread, hstone, hempty]
    · simp [hin, hread, hstone, hempty]
  · simp [hin]

theorem isValidMove_eq_true : game.isValidMove x y = true ↔
    isInBoard x y = true ∧ game.cell x y = some boardEmpty ∧
      game.gameOver = false ∧ game.isDraw = false := by
  simp [isValidMove, and_assoc]

theorem Square.humanMove_eq (h : game.Square) (x y : ℤ) :
    Live.humanMove game x y = some (game.humanMove x y) := by
  unfold Live.humanMove humanMove
  rw [h.isValidMove_eq]
  simp only [Option.bind_eq_bind, Option.bind_some]
  cases hvalid : game.isValidMove x y with
  | false => rfl
  | true =>
      rw [h.placeStone_eq (isValidMove_eq_true.mp hvalid).1]
      rfl

theorem Square.aiMove_eq (h : game.Square) (hempty : game.isDraw = false → game.emptyCells ≠ [])
    (rand : ℕ) : Live.aiMove game rand = some (game.aiMove rand) := by
  unfold Live.aiMove aiMove
  by_cases hends : (game.gameOver || game.isDraw) = true
  · rw [if_pos hends, if_pos hends]
  · rw [if_neg hends, if_neg hends]
    have hdraw : game.isDraw = false := by
      simp only [Bool.or_eq_true, not_or] at hends
      simpa using hends.2
    have hplaces := hempty hdraw
    have hin := (mem_emptyCells.mp (getBestMove_mem hplaces rand)).1
    rw [h.getBestMove_eq hplaces]
    simp only [Option.bind_eq_bind, Option.bind_some]
    exact (h.setCell _ _ aiPlayer).placeStone_eq hin aiPlayer "ai"

/-! ## Sequences of calls -/

/-- The counter is the number of the places that are not empty. -/
structure Counted (game : AiGame) : Prop where
  square : game.Square
  counted : game.moveCount = game.room.occupied

theorem counted_create (userId : ℤ) : (create userId).Counted where
  square := square_create userId
  counted := by
    change (0 : ℤ) = (GameRoom.create 0 0 0).occupied
    rw [GameRoom.occupied_create]
    rfl

theorem emptyCells_ne_nil_iff : game.emptyCells ≠ [] ↔ ¬ game.room.Full := by
  rw [ne_eq, List.eq_nil_iff_forall_not_mem]
  unfold GameRoom.Full
  push Not
  simp only [GameRoom.stoneAt_eq_some, mem_emptyCells]
  exact ⟨fun ⟨place, h⟩ ↦ ⟨place.1, place.2, h⟩, fun ⟨x, y, h⟩ ↦ ⟨(x, y), h⟩⟩

theorem Counted.isDraw_iff (h : game.Counted) : game.isDraw = true ↔ game.room.Full := by
  rw [h.square.full_iff, isDraw, decide_eq_true_eq, h.counted, Int.ofNat_le]

theorem Counted.emptyCells_ne_nil (h : game.Counted) (hdraw : game.isDraw = false) :
    game.emptyCells ≠ [] := by
  rw [emptyCells_ne_nil_iff, ← h.isDraw_iff, hdraw]
  exact Bool.false_ne_true

theorem placeStone_frame (game : AiGame) (x y : ℤ) (player winner : String) :
    (game.placeStone x y player winner).board = (game.room.placed player x y).board ∧
      (game.placeStone x y player winner).moveCount = game.moveCount + 1 := by
  unfold placeStone
  dsimp only
  split_ifs
  · exact ⟨rfl, rfl⟩
  · exact ⟨rfl, rfl⟩

/-- The stone is on the board already. -/
theorem aiMove_eq_placeStone (hover : game.gameOver = false) (hdraw : game.isDraw = false)
    (rand : ℕ) :
    game.aiMove rand = game.placeStone (game.getBestMove rand).1.1 (game.getBestMove rand).1.2
      aiPlayer "ai" := by
  rw [aiMove, hover, hdraw, Bool.or_false, if_neg Bool.false_ne_true]
  change ((game.setCell _ _ aiPlayer).placeStone _ _ aiPlayer "ai") = _
  unfold placeStone
  rw [setCell_setCell]
  rfl

theorem stoneAt_room (hin : isInBoard x y = true) (hcell : game.cell x y = some stone) :
    game.room.stoneAt x y = some stone :=
  GameRoom.stoneAt_eq_some.mpr ⟨hin, hcell⟩

/-- A stone on an empty place is counted. -/
theorem Counted.placeStone (h : game.Counted) (hempty : game.room.stoneAt x y = some boardEmpty)
    {player : String} (hplayer : player ≠ boardEmpty) (winner : String) :
    (game.placeStone x y player winner).Counted := by
  obtain ⟨hboard, hcount⟩ := game.placeStone_frame x y player winner
  have hshape : (game.room.placed player x y).WellFormed := h.square.placed player x y
  refine ⟨hshape.congr hboard, ?_⟩
  have hoccupied : (game.placeStone x y player winner).room.occupied =
      (game.room.placed player x y).occupied := by
    unfold GameRoom.occupied
    change (game.placeStone x y player winner).board.flatten.countP _ = _
    rw [hboard]
  rw [hoccupied, GameRoom.occupied_placed hempty hplayer, hcount, h.counted]
  rfl

theorem humanMove_rejected (h : (game.humanMove x y).1 = false) :
    (game.humanMove x y).2 = game := by
  unfold AiGame.humanMove at h ⊢
  cases hvalid : game.isValidMove x y with
  | false => rfl
  | true =>
      rw [hvalid] at h
      cases h

theorem Counted.humanMove (h : game.Counted) (x y : ℤ) : (game.humanMove x y).2.Counted := by
  unfold AiGame.humanMove
  cases hvalid : game.isValidMove x y with
  | false => exact h
  | true =>
      obtain ⟨hin, hcell, _⟩ := isValidMove_eq_true.mp hvalid
      exact h.placeStone (stoneAt_room hin hcell) (by decide) "human"

theorem Counted.aiMove (h : game.Counted) (rand : ℕ) : (game.aiMove rand).Counted := by
  by_cases hends : (game.gameOver || game.isDraw) = true
  · rw [AiGame.aiMove, if_pos hends]
    exact h
  · simp only [Bool.or_eq_true, not_or, Bool.not_eq_true] at hends
    obtain ⟨hin, hcell⟩ := mem_emptyCells.mp
      (getBestMove_mem (h.emptyCells_ne_nil hends.2) rand)
    rw [aiMove_eq_placeStone hends.1 hends.2]
    exact h.placeStone (stoneAt_room hin hcell) (by decide) "ai"

theorem Counted.call (h : game.Counted) (c : Live.Call) :
    ∃ game', Live.call game c = some game' ∧ game'.Counted := by
  cases c with
  | humanMove x y =>
      refine ⟨(game.humanMove x y).2, ?_, h.humanMove x y⟩
      rw [Live.call, h.square.humanMove_eq]
      rfl
  | aiMove rand => exact ⟨_, h.square.aiMove_eq h.emptyCells_ne_nil rand, h.aiMove rand⟩

theorem Counted.calls (h : game.Counted) (cs : List Live.Call) :
    ∃ game', cs.foldlM Live.call game = some game' ∧ game'.Counted := by
  induction cs generalizing game with
  | nil => exact ⟨game, rfl, h⟩
  | cons c cs ih =>
      obtain ⟨game₁, hcall, h₁⟩ := h.call c
      obtain ⟨game₂, hcalls, h₂⟩ := ih h₁
      refine ⟨game₂, ?_, h₂⟩
      rw [List.foldlM_cons, hcall]
      exact hcalls

/-- The empty place gets a white stone, and nothing else is different. -/
structure TurnsWhite (game game' : AiGame) (x y : ℤ) : Prop where
  square : game'.Square
  before : game.room.stoneAt x y = some boardEmpty
  after : game'.room.stoneAt x y = some aiPlayer
  others : ∀ x' y', (x', y') ≠ (x, y) → game'.room.stoneAt x' y' = game.room.stoneAt x' y'

theorem Counted.turnsWhite (h : game.Counted) (hover : game.gameOver = false)
    (hfull : ¬ game.room.Full) (rand : ℕ) :
    game.TurnsWhite (game.aiMove rand) (game.getBestMove rand).1.1
      (game.getBestMove rand).1.2 := by
  have hdraw : game.isDraw = false := Bool.eq_false_iff.mpr (mt h.isDraw_iff.mp hfull)
  obtain ⟨hin, hcell⟩ := mem_emptyCells.mp
    (getBestMove_mem (emptyCells_ne_nil_iff.mpr hfull) rand)
  have hempty := stoneAt_room hin hcell
  have hstones : ∀ x' y', (game.aiMove rand).room.stoneAt x' y' =
      (game.room.placed aiPlayer (game.getBestMove rand).1.1
        (game.getBestMove rand).1.2).stoneAt x' y' := by
    intro x' y'
    have hboard := (game.placeStone_frame (game.getBestMove rand).1.1
      (game.getBestMove rand).1.2 aiPlayer "ai").1
    rw [← aiMove_eq_placeStone hover hdraw] at hboard
    unfold GameRoom.stoneAt GameRoom.cell
    change (if _ then (game.aiMove rand).board[x'.toNat]?.bind _ else none) = _
    rw [hboard]
    rfl
  refine ⟨(h.aiMove rand).square, hempty, ?_, fun x' y' hne ↦ ?_⟩
  · rw [hstones]
    exact GameRoom.stoneAt_placed_self hempty aiPlayer
  · rw [hstones]
    exact GameRoom.stoneAt_placed_ne hin aiPlayer hne

/-- No sequence of calls misses the board; the counter is right, a move that is rejected
changes nothing, and a move of the server turns one empty place white. -/
theorem moves_legal (userId : ℤ) (cs : List Live.Call) :
    ∃ game, cs.foldlM Live.call (create userId) = some game ∧
      game.moveCount = game.room.occupied ∧
      (∀ x y, ∃ valid game', Live.humanMove game x y = some (valid, game') ∧
        (valid = false → game' = game)) ∧
      (game.gameOver = false → ¬ game.room.Full → ∀ rand, ∃ game' x y,
        Live.aiMove game rand = some game' ∧ game.TurnsWhite game' x y) := by
  obtain ⟨game, hcalls, h⟩ := (counted_create userId).calls cs
  refine ⟨game, hcalls, h.counted, fun x y ↦ ?_, fun hover hfull rand ↦ ?_⟩
  · exact ⟨_, _, h.square.humanMove_eq x y, humanMove_rejected⟩
  · exact ⟨_, _, _, h.square.aiMove_eq h.emptyCells_ne_nil rand,
      h.turnsWhite hover hfull rand⟩

end HttpRaftKv.Gomoku.AiGame
