import HttpRaftKv.Gomoku.Rules
import HttpRaftKv.Lib.Grid

/-!
# A whole game

The rules of the game, stated for the whole board: who has five stones in a row, whose
turn it is, when the board is full.  A move looks only at the lines through its own
stone, so that no player has five in a row before is what makes its look at the board
enough.
-/

namespace HttpRaftKv.Gomoku.GameRoom

variable {room room' : GameRoom}

/-! ## Places and lines -/

/-- The stone at a place, which is `none` outside the board. -/
def stoneAt (room : GameRoom) (x y : ℤ) : Option String :=
  if isInBoard x y then room.cell x y else none

/-- The directions of `checkWin`. -/
def directions : List (ℤ × ℤ) :=
  [(1, 0), (0, 1), (1, 1), (1, -1)]

/-- Place `t` of the line through `(x, y)` has a stone of this colour. -/
def OnLine (room : GameRoom) (stone : String) (x y : ℤ) (d : ℤ × ℤ) (t : ℤ) : Prop :=
  room.stoneAt (x + d.1 * t) (y + d.2 * t) = some stone

/-- Five stones of a colour in a row, one of them at this place. -/
def FiveThrough (room : GameRoom) (stone : String) (place : ℤ × ℤ) : Prop :=
  ∃ d ∈ directions, ∃ k : ℕ, k ≤ 4 ∧
    ∀ i : ℕ, i ≤ 4 → room.OnLine stone place.1 place.2 d (i - k)

/-- Five stones of a colour in a row. -/
def HasFive (room : GameRoom) (stone : String) : Prop :=
  ∃ x y, ∃ d ∈ directions, ∀ i : ℕ, i ≤ 4 → room.OnLine stone x y d i

theorem onLine_zero {stone : String} {x y : ℤ} {d : ℤ × ℤ} (h : room.stoneAt x y = some stone) :
    room.OnLine stone x y d 0 := by
  unfold OnLine
  rwa [Int.mul_zero, Int.mul_zero, Int.add_zero, Int.add_zero]

/-- A line is the same from every place on it. -/
theorem onLine_shift {stone : String} {x y : ℤ} {d : ℤ × ℤ} (s t : ℤ) :
    room.OnLine stone (x + d.1 * s) (y + d.2 * s) d t ↔ room.OnLine stone x y d (s + t) := by
  unfold OnLine
  rw [Int.mul_add, Int.mul_add, Int.add_assoc, Int.add_assoc]

/-- A row of five goes through each of its places. -/
theorem fiveThrough_of_row {stone : String} {x y : ℤ} {d : ℤ × ℤ} (hd : d ∈ directions) {k : ℕ}
    (hk : k ≤ 4) (h : ∀ i : ℕ, i ≤ 4 → room.OnLine stone x y d i) :
    room.FiveThrough stone (x + d.1 * k, y + d.2 * k) := by
  refine ⟨d, hd, k, hk, fun i hi ↦ ?_⟩
  rw [onLine_shift, Int.add_comm, Int.sub_add_cancel]
  exact h i hi

/-! ## What `checkWin` sees -/

/-- An inner loop of `checkWin` ends at the first place that has another stone. -/
theorem countStones_range' {stone : String} {x y dx dy : ℤ} {start size count : ℕ}
    (h : room.countStones x y stone dx dy (List.range' start size) = some count) :
    count ≤ size ∧ (∀ i : ℕ, start ≤ i → i < start + count → room.OnLine stone x y (dx, dy) i) ∧
      (count < size → ¬ room.OnLine stone x y (dx, dy) (start + count : ℕ)) := by
  induction size generalizing start count with
  | zero =>
      cases h
      exact ⟨Nat.le_refl _, fun i hle hlt ↦ by omega, fun hlt ↦ absurd hlt (Nat.lt_irrefl _)⟩
  | succ size ih =>
      rw [List.range'_succ, countStones] at h
      by_cases hin : isInBoard (x + dx * start) (y + dy * start) = true
      · simp only [hin, Bool.not_true, Bool.false_eq_true, if_false, Option.bind_eq_bind,
          Option.bind_eq_some_iff] at h
        obtain ⟨found, hfound, h⟩ := h
        have hplace : room.stoneAt (x + dx * start) (y + dy * start) = some found := by
          rw [stoneAt, if_pos hin, hfound]
        by_cases hne : found ≠ stone
        · rw [if_pos hne] at h
          cases h
          refine ⟨Nat.zero_le _, fun i hle hlt ↦ by omega, fun _ hon ↦ hne ?_⟩
          exact Option.some.inj (hplace.symm.trans hon)
        · rw [if_neg hne] at h
          obtain ⟨rest, hrest, h⟩ := Option.bind_eq_some_iff.mp h
          cases h
          obtain ⟨hle, hinside, hends⟩ := ih hrest
          have hfirst : room.OnLine stone x y (dx, dy) start :=
            hplace.trans (congrArg some (not_not.mp hne))
          refine ⟨by omega, fun i hi hlt ↦ ?_, fun hlt ↦ ?_⟩
          · rcases Nat.eq_or_lt_of_le hi with rfl | hgt
            · exact hfirst
            · exact hinside i hgt (by omega)
          · have := hends (by omega)
            rwa [Nat.add_right_comm] at this
      · simp only [hin, Bool.not_false, if_true] at h
        cases h
        refine ⟨Nat.zero_le _, fun i hle hlt ↦ by omega, fun _ hon ↦ ?_⟩
        have hout : room.stoneAt (x + dx * start) (y + dy * start) = none := by
          rw [stoneAt, if_neg hin]
        exact Option.some_ne_none _ (hon.symm.trans hout)

theorem stretch_countStones {stone : String} {x y dx dy : ℤ} {count : ℕ}
    (h : room.countStones x y stone dx dy [1, 2, 3, 4] = some count) :
    Stretch (room.OnLine stone x y (dx, dy)) 4 count := by
  have hrange : room.countStones x y stone dx dy (List.range' 1 4) = some count := h
  obtain ⟨hle, hinside, hends⟩ := countStones_range' hrange
  exact ⟨hle, fun i hone hi ↦ hinside i hone (by omega), fun hlt ↦ Nat.add_comm 1 count ▸ hends hlt⟩

/-- The two loops for a direction find five stones in a row through `(x, y)`. -/
theorem five_le_iff {stone : String} {x y dx dy : ℤ} {forward backward : ℕ}
    (hstone : room.stoneAt x y = some stone)
    (hforward : room.countStones x y stone dx dy [1, 2, 3, 4] = some forward)
    (hbackward : room.countStones x y stone (-dx) (-dy) [1, 2, 3, 4] = some backward) :
    5 ≤ 1 + forward + backward ↔
      ∃ k : ℕ, k ≤ 4 ∧ ∀ i : ℕ, i ≤ 4 → room.OnLine stone x y (dx, dy) (i - k) := by
  have hback : Stretch (fun t ↦ room.OnLine stone x y (dx, dy) (-t)) 4 backward := by
    have hline : (fun t ↦ room.OnLine stone x y (dx, dy) (-t)) =
        room.OnLine stone x y (-dx, -dy) := by
      funext t
      simp only [OnLine, Int.mul_neg, Int.neg_mul]
    rw [hline]
    exact stretch_countStones hbackward
  have hrow := exists_row_iff (onLine_zero hstone) (stretch_countStones hforward) hback
  rw [← hrow]
  omega

theorem checkWinAlong_eq_some {stone : String} {x y : ℤ} {ds : List (ℤ × ℤ)} {won : Bool}
    (hstone : room.stoneAt x y = some stone)
    (h : room.checkWinAlong x y stone ds = some won) :
    won = true ↔ ∃ d ∈ ds, ∃ k : ℕ, k ≤ 4 ∧
      ∀ i : ℕ, i ≤ 4 → room.OnLine stone x y d (i - k) := by
  induction ds with
  | nil =>
      cases h
      simp
  | cons d ds ih =>
      obtain ⟨dx, dy⟩ := d
      simp only [checkWinAlong, Option.bind_eq_bind, Option.bind_eq_some_iff] at h
      obtain ⟨forward, hforward, backward, hbackward, h⟩ := h
      have hfive := five_le_iff hstone hforward hbackward
      simp only [List.mem_cons, exists_eq_or_imp]
      split_ifs at h with hlong
      · cases h
        exact iff_of_true rfl (.inl (hfive.mp hlong))
      · rw [ih h, ← hfive]
        simp [hlong]

/-- `checkWin` sees whether there are five stones in a row through the last one. -/
theorem checkWin_eq_some {stone : String} {x y : ℤ} {won : Bool}
    (hstone : room.stoneAt x y = some stone) (h : room.checkWin x y stone = some won) :
    won = true ↔ room.FiveThrough stone (x, y) :=
  checkWinAlong_eq_some hstone h

/-! ## What a stone changes -/

/-- The room after a stone has been put on the board, before anybody has looked at it. -/
def placed (room : GameRoom) (stone : String) (x y : ℤ) : GameRoom :=
  { room.setCell x y stone with
    moveCount := room.moveCount + 1
    lastMove := (x, y) }

theorem stoneAt_eq_some {x y : ℤ} {stone : String} :
    room.stoneAt x y = some stone ↔ isInBoard x y = true ∧ room.cell x y = some stone := by
  unfold stoneAt
  split_ifs with hin
  · simp [hin]
  · simp [hin]

theorem cell_eq_some {x y : ℤ} {stone : String} :
    room.cell x y = some stone ↔
      ∃ row, room.board[x.toNat]? = some row ∧ row[y.toNat]? = some stone := by
  simp [cell, Option.bind_eq_some_iff]

theorem stoneAt_placed_self {x y : ℤ} {old : String} (h : room.stoneAt x y = some old)
    (stone : String) : (room.placed stone x y).stoneAt x y = some stone := by
  obtain ⟨hin, hcell⟩ := stoneAt_eq_some.mp h
  obtain ⟨row, hrow, hold⟩ := cell_eq_some.mp hcell
  have hlt := (List.getElem?_eq_some_iff.mp hold).1
  refine stoneAt_eq_some.mpr ⟨hin, cell_eq_some.mpr ⟨row.set y.toNat stone, ?_, ?_⟩⟩
  · simp [placed, setCell, hrow]
  · simp [hlt]

theorem stoneAt_placed_ne {x y x' y' : ℤ} (hin : isInBoard x y = true) (stone : String)
    (hne : (x', y') ≠ (x, y)) : (room.placed stone x y).stoneAt x' y' = room.stoneAt x' y' := by
  unfold stoneAt
  split_ifs with hin'
  · obtain ⟨hx, -, hy, -⟩ := isInBoard_eq_true.mp hin
    obtain ⟨hx', -, hy', -⟩ := isInBoard_eq_true.mp hin'
    unfold cell placed setCell
    by_cases hxx : x.toNat = x'.toNat
    · have hyy : y.toNat ≠ y'.toNat := by
        intro hyy
        exact hne (Prod.ext (by omega) (by omega))
      cases hrow : room.board[x'.toNat]? with
      | none => simp [hxx, hrow]
      | some row => simp [hxx, hrow, hyy]
    · simp [hxx]
  · rfl

/-- The number of stones of a colour. -/
def stones (room : GameRoom) (stone : String) : ℕ :=
  room.board.flatten.countP (· = stone)

/-- The number of places that are not empty. -/
def occupied (room : GameRoom) : ℕ :=
  room.board.flatten.countP (· ≠ boardEmpty)

theorem countP_placed {x y : ℤ} {old : String} (h : room.stoneAt x y = some old) (stone : String)
    (p : String → Bool) :
    (room.placed stone x y).board.flatten.countP p + (if p old then 1 else 0) =
      room.board.flatten.countP p + if p stone then 1 else 0 := by
  obtain ⟨row, hrow, hold⟩ := cell_eq_some.mp (stoneAt_eq_some.mp h).2
  exact countP_flatten_modify_add p hrow hold stone

theorem stones_placed_self {x y : ℤ} {stone : String} (h : room.stoneAt x y = some boardEmpty)
    (hstone : stone ≠ boardEmpty) : (room.placed stone x y).stones stone = room.stones stone + 1 := by
  have hcount := countP_placed h stone (· = stone)
  simpa [stones, hstone.symm] using hcount

theorem stones_placed_ne {x y : ℤ} {stone other : String}
    (h : room.stoneAt x y = some boardEmpty) (hother : other ≠ boardEmpty) (hne : stone ≠ other) :
    (room.placed stone x y).stones other = room.stones other := by
  have hcount := countP_placed h stone (· = other)
  simpa [stones, hother.symm, hne] using hcount

theorem occupied_placed {x y : ℤ} {stone : String} (h : room.stoneAt x y = some boardEmpty)
    (hstone : stone ≠ boardEmpty) : (room.placed stone x y).occupied = room.occupied + 1 := by
  have hcount := countP_placed h stone (· ≠ boardEmpty)
  simpa [occupied, hstone] using hcount

theorem WellFormed.placed (h : room.WellFormed) (stone : String) (x y : ℤ) :
    (room.placed stone x y).WellFormed :=
  (h.setCell x y stone).congr rfl

theorem WellFormed.length_flatten (h : room.WellFormed) :
    room.board.flatten.length = boardSize * boardSize := by
  have hrows : room.board.map List.length = List.replicate boardSize boardSize := by
    rw [List.eq_replicate_iff]
    refine ⟨(List.length_map _).trans h.rows, fun size hsize ↦ ?_⟩
    obtain ⟨row, hrow, rfl⟩ := List.mem_map.mp hsize
    exact h.columns row hrow
  rw [List.length_flatten, hrows, List.sum_replicate_nat]

theorem WellFormed.mem_flatten (h : room.WellFormed) {stone : String} :
    stone ∈ room.board.flatten ↔ ∃ x y, room.stoneAt x y = some stone := by
  constructor
  · intro hmem
    obtain ⟨row, hrow, hstone⟩ := List.mem_flatten.mp hmem
    obtain ⟨i, hi⟩ := List.mem_iff_getElem?.mp hrow
    obtain ⟨j, hj⟩ := List.mem_iff_getElem?.mp hstone
    have hilt := (List.getElem?_eq_some_iff.mp hi).1
    have hjlt := (List.getElem?_eq_some_iff.mp hj).1
    rw [h.rows] at hilt
    rw [h.columns row hrow] at hjlt
    refine ⟨i, j, stoneAt_eq_some.mpr ⟨isInBoard_eq_true.mpr ?_, cell_eq_some.mpr ⟨row, hi, hj⟩⟩⟩
    omega
  · rintro ⟨x, y, hstone⟩
    obtain ⟨row, hrow, hcell⟩ := cell_eq_some.mp (stoneAt_eq_some.mp hstone).2
    exact List.mem_flatten.mpr ⟨row, List.mem_of_getElem? hrow, List.mem_of_getElem? hcell⟩

/-- No place is empty. -/
def Full (room : GameRoom) : Prop :=
  ∀ x y, room.stoneAt x y ≠ some boardEmpty

/-- The board is full exactly if as many places are occupied as it has. -/
theorem WellFormed.full_iff (h : room.WellFormed) :
    room.Full ↔ boardSize * boardSize ≤ room.occupied := by
  have hle : room.occupied ≤ room.board.flatten.length := List.countP_le_length
  have hfull : room.Full ↔ ∀ stone ∈ room.board.flatten, stone ≠ boardEmpty := by
    constructor
    · rintro hfull stone hmem rfl
      obtain ⟨x, y, hstone⟩ := h.mem_flatten.mp hmem
      exact hfull x y hstone
    · intro hall x y hstone
      exact hall boardEmpty (h.mem_flatten.mpr ⟨x, y, hstone⟩) rfl
  have hall : room.occupied = room.board.flatten.length ↔
      ∀ stone ∈ room.board.flatten, stone ≠ boardEmpty := by
    unfold occupied
    rw [List.countP_eq_length]
    simp
  rw [hfull, ← hall, h.length_flatten]
  rw [h.length_flatten] at hle
  omega

/-! ## Rows of five -/

/-- The other colour gets no new row. -/
theorem HasFive.of_placed_ne {x y : ℤ} {stone other : String}
    (h : room.stoneAt x y = some boardEmpty) (hne : stone ≠ other)
    (hfive : (room.placed stone x y).HasFive other) : room.HasFive other := by
  obtain ⟨x₀, y₀, d, hd, hrow⟩ := hfive
  refine ⟨x₀, y₀, d, hd, fun i hi ↦ ?_⟩
  have hplace := hrow i hi
  unfold OnLine at hplace ⊢
  by_cases hsame : (x₀ + d.1 * i, y₀ + d.2 * i) = (x, y)
  · cases hsame
    rw [stoneAt_placed_self h] at hplace
    exact absurd (Option.some.inj hplace) hne
  · rwa [stoneAt_placed_ne (stoneAt_eq_some.mp h).1 stone hsame] at hplace

/-- A new row goes through the new stone. -/
theorem HasFive.placed_cases {x y : ℤ} {stone : String} (h : room.stoneAt x y = some boardEmpty)
    (hfive : (room.placed stone x y).HasFive stone) :
    room.HasFive stone ∨ (room.placed stone x y).FiveThrough stone (x, y) := by
  obtain ⟨x₀, y₀, d, hd, hrow⟩ := hfive
  by_cases hthrough : ∃ k : ℕ, k ≤ 4 ∧ (x₀ + d.1 * k, y₀ + d.2 * k) = (x, y)
  · obtain ⟨k, hk, hplace⟩ := hthrough
    exact .inr (hplace ▸ fiveThrough_of_row hd hk hrow)
  · refine .inl ⟨x₀, y₀, d, hd, fun i hi ↦ ?_⟩
    have hplace := hrow i hi
    unfold OnLine at hplace ⊢
    rwa [stoneAt_placed_ne (stoneAt_eq_some.mp h).1 stone fun hsame ↦ hthrough ⟨i, hi, hsame⟩]
      at hplace

/-! ## Moves -/

/-- The colour of the stones of a player. -/
def stoneColor (room : GameRoom) (playerId : ℤ) : String :=
  if playerId = room.player1 then boardBlack else boardWhite

theorem stoneColor_ne_empty (room : GameRoom) (playerId : ℤ) :
    room.stoneColor playerId ≠ boardEmpty := by
  unfold stoneColor
  split_ifs
  · decide
  · decide

/-- What becomes of a room by the stone of an accepted move. -/
inductive PlaceStoneOutcome (room : GameRoom) (playerId x y : ℤ) : GameRoom → Prop
  | won (hfive : (room.placed (room.stoneColor playerId) x y).FiveThrough
        (room.stoneColor playerId) (x, y)) :
      PlaceStoneOutcome room playerId x y
        { room.placed (room.stoneColor playerId) x y with
          gameOver := true
          winner := playerId
          winnerReason := "five_in_row" }
  | drawn (hfive : ¬ (room.placed (room.stoneColor playerId) x y).FiveThrough
        (room.stoneColor playerId) (x, y))
      (hdraw : (boardSize * boardSize : ℕ) ≤ room.moveCount + 1) :
      PlaceStoneOutcome room playerId x y
        { room.placed (room.stoneColor playerId) x y with
          gameOver := true
          winner := -1
          winnerReason := "draw" }
  | goesOn (hfive : ¬ (room.placed (room.stoneColor playerId) x y).FiveThrough
        (room.stoneColor playerId) (x, y))
      (hdraw : ¬ (boardSize * boardSize : ℕ) ≤ room.moveCount + 1) :
      PlaceStoneOutcome room playerId x y
        { room.placed (room.stoneColor playerId) x y with
          currentTurn := if room.currentTurn = room.player1 then room.player2 else room.player1 }

theorem placeStone_eq (room : GameRoom) (playerId x y : ℤ) :
    room.placeStone playerId x y =
      ((room.placed (room.stoneColor playerId) x y).checkWin x y (room.stoneColor playerId)).bind
        fun won ↦
          if won then
            some { room.placed (room.stoneColor playerId) x y with
              gameOver := true
              winner := playerId
              winnerReason := "five_in_row" }
          else if (room.placed (room.stoneColor playerId) x y).isDraw then
            some { room.placed (room.stoneColor playerId) x y with
              gameOver := true
              winner := -1
              winnerReason := "draw" }
          else
            some { room.placed (room.stoneColor playerId) x y with
              currentTurn :=
                if room.currentTurn = room.player1 then room.player2 else room.player1 } :=
  rfl

theorem isDraw_placed {stone : String} {x y : ℤ} :
    (room.placed stone x y).isDraw = true ↔ (boardSize * boardSize : ℕ) ≤ room.moveCount + 1 :=
  decide_eq_true_iff

theorem placeStone_outcome {playerId x y : ℤ} (hempty : room.stoneAt x y = some boardEmpty)
    (h : room.placeStone playerId x y = some room') :
    PlaceStoneOutcome room playerId x y room' := by
  have hstone := stoneAt_placed_self hempty (room.stoneColor playerId)
  rw [placeStone_eq] at h
  obtain ⟨won, hwon, h⟩ := Option.bind_eq_some_iff.mp h
  have hfive := checkWin_eq_some hstone hwon
  cases won with
  | true =>
      cases h
      exact .won (hfive.mp rfl)
  | false =>
      have hno := fun hthrough ↦ Bool.false_ne_true (hfive.mpr hthrough)
      rw [if_neg Bool.false_ne_true] at h
      by_cases hdraw : (room.placed (room.stoneColor playerId) x y).isDraw = true
      · rw [if_pos hdraw] at h
        cases h
        exact .drawn hno (isDraw_placed.mp hdraw)
      · rw [if_neg hdraw] at h
        cases h
        exact .goesOn hno (mt isDraw_placed.mpr hdraw)

/-- A move that is accepted is made by the player whose turn it is, on an empty place of a
game that goes on. -/
theorem makeMove_eq_ok {playerId x y : ℤ}
    (h : room.makeMove playerId x y = some (.ok, room')) :
    room.gameOver = false ∧ playerId = room.currentTurn ∧
      room.stoneAt x y = some boardEmpty ∧ PlaceStoneOutcome room playerId x y room' := by
  unfold makeMove at h
  split_ifs at h with hover hturn
  · cases h
  · cases h
  obtain ⟨valid, hvalid, h⟩ := Option.bind_eq_some_iff.mp h
  cases valid with
  | false => cases h
  | true =>
      have hempty : room.stoneAt x y = some boardEmpty := by
        unfold isValidMove at hvalid
        split_ifs at hvalid with hout
        · cases hvalid
        obtain ⟨stone, hstone, hvalid⟩ := Option.bind_eq_some_iff.mp hvalid
        have hstone' : stone = boardEmpty := of_decide_eq_true (Option.some.inj hvalid)
        exact stoneAt_eq_some.mpr ⟨by simpa using hout, hstone' ▸ hstone⟩
      obtain ⟨placed, hplaced, h⟩ := Option.bind_eq_some_iff.mp h
      cases h
      exact ⟨Bool.eq_false_iff.mpr hover, not_not.mp hturn, hempty, placeStone_outcome hempty hplaced⟩

/-! ## Games -/

/-- An accepted call of `makeMove`. -/
structure Move where
  playerId : ℤ
  x : ℤ
  y : ℤ
deriving DecidableEq, Repr

/-- A room after some calls of `makeMove`, and after a call of `forfeit` if the game had not
ended, with the moves that were accepted. -/
inductive Game (room₀ : GameRoom) : List Move → GameRoom → Prop
  | start : Game room₀ [] room₀
  | accepted {moves : List Move} {room room' : GameRoom} (move : Move)
      (hgame : Game room₀ moves room)
      (h : room.makeMove move.playerId move.x move.y = some (.ok, room')) :
      Game room₀ (moves ++ [move]) room'
  | refused {moves : List Move} {room room' : GameRoom} (playerId x y : ℤ) (result : MoveResult)
      (hgame : Game room₀ moves room) (hresult : result ≠ .ok)
      (h : room.makeMove playerId x y = some (result, room')) : Game room₀ moves room'
  | forfeited {moves : List Move} {room : GameRoom} (winnerId : ℤ) (hgame : Game room₀ moves room)
      (hover : room.gameOver = false) : Game room₀ moves (room.forfeit winnerId)

/-- What holds while the game goes on. -/
structure Undecided (room : GameRoom) : Prop where
  black : ¬ room.HasFive boardBlack
  white : ¬ room.HasFive boardWhite
  notFull : ¬ room.Full
  turn : room.currentTurn = room.player1 ↔ room.stones boardBlack = room.stones boardWhite
  seated : room.currentTurn = room.player1 ∨ room.currentTurn = room.player2
  reason : room.winnerReason = ""

/-- The last move has made five in a row, and the other player has none. -/
structure WonBy (moves : List Move) (room : GameRoom) : Prop where
  last : ∃ move, moves.getLast? = some move ∧ room.winner = move.playerId ∧
    room.lastMove = (move.x, move.y)
  five : room.FiveThrough (room.stoneColor room.winner) room.lastMove
  other : ∀ stone, stone ∈ [boardBlack, boardWhite] → stone ≠ room.stoneColor room.winner →
    ¬ room.HasFive stone

/-- The rules of the game. -/
structure Fair (moves : List Move) (room : GameRoom) : Prop where
  wellFormed : room.WellFormed
  players : room.player1 ≠ room.player2
  moveCount : room.moveCount = room.occupied
  balanced : room.stones boardBlack = room.stones boardWhite ∨
    room.stones boardBlack = room.stones boardWhite + 1
  goesOn : room.gameOver = false → room.Undecided
  won : room.winnerReason = "five_in_row" → WonBy moves room
  drawn : room.winnerReason = "draw" →
    room.Full ∧ ¬ room.HasFive boardBlack ∧ ¬ room.HasFive boardWhite

section create

variable (roomId player1 player2 : ℤ)

theorem eq_boardEmpty_of_mem_create {stone : String}
    (h : stone ∈ (create roomId player1 player2).board.flatten) : stone = boardEmpty := by
  obtain ⟨row, hrow, hstone⟩ := List.mem_flatten.mp h
  rw [List.eq_of_mem_replicate hrow] at hstone
  exact List.eq_of_mem_replicate hstone

theorem occupied_create : (create roomId player1 player2).occupied = 0 := by
  apply List.countP_eq_zero.mpr
  intro stone hstone
  rw [eq_boardEmpty_of_mem_create roomId player1 player2 hstone]
  decide

theorem stones_create {stone : String} (h : stone ≠ boardEmpty) :
    (create roomId player1 player2).stones stone = 0 := by
  apply List.countP_eq_zero.mpr
  intro other hother
  rw [eq_boardEmpty_of_mem_create roomId player1 player2 hother, decide_eq_true_iff]
  exact h.symm

theorem not_hasFive_create {stone : String} (h : stone ≠ boardEmpty) :
    ¬ (create roomId player1 player2).HasFive stone := by
  rintro ⟨x, y, d, -, hrow⟩
  refine h (eq_boardEmpty_of_mem_create roomId player1 player2 ?_)
  exact (wellFormed_create roomId player1 player2).mem_flatten.mpr ⟨_, _, hrow 0 (Nat.zero_le _)⟩

theorem fair_create (h : player1 ≠ player2) : Fair [] (create roomId player1 player2) where
  wellFormed := wellFormed_create roomId player1 player2
  players := h
  moveCount := by
    rw [occupied_create]
    rfl
  balanced := by
    rw [stones_create _ _ _ (by decide), stones_create _ _ _ (by decide)]
    exact .inl rfl
  goesOn := by
    refine fun _ ↦ ⟨not_hasFive_create _ _ _ (by decide), not_hasFive_create _ _ _ (by decide), ?_,
      ?_, .inl rfl, rfl⟩
    · rw [(wellFormed_create roomId player1 player2).full_iff, occupied_create]
      decide
    · rw [stones_create _ _ _ (by decide), stones_create _ _ _ (by decide)]
      exact iff_of_true rfl rfl
  won := fun hreason ↦ absurd hreason (by simp [create])
  drawn := fun hreason ↦ absurd hreason (by simp [create])

end create

/-! ## The rules hold in every game -/

theorem boardBlack_ne_boardWhite : boardBlack ≠ boardWhite := by decide

/-- After a stone of the player whose turn it was, the numbers of the stones differ by at
most one, and whose turn is next shows in them. -/
theorem Fair.balanced_placed {moves : List Move} (h : Fair moves room)
    (hover : room.gameOver = false) {x y : ℤ} (hempty : room.stoneAt x y = some boardEmpty) :
    (room.currentTurn = room.player1 ∧
      (room.placed (room.stoneColor room.currentTurn) x y).stones boardBlack =
        (room.placed (room.stoneColor room.currentTurn) x y).stones boardWhite + 1) ∨
    (room.currentTurn = room.player2 ∧
      (room.placed (room.stoneColor room.currentTurn) x y).stones boardBlack =
        (room.placed (room.stoneColor room.currentTurn) x y).stones boardWhite) := by
  have hopen := h.goesOn hover
  by_cases hturn : room.currentTurn = room.player1
  · have hcolor : room.stoneColor room.currentTurn = boardBlack := if_pos hturn
    rw [hcolor, stones_placed_self hempty (by decide),
      stones_placed_ne hempty (by decide) boardBlack_ne_boardWhite, hopen.turn.mp hturn]
    exact .inl ⟨hturn, rfl⟩
  · have hcolor : room.stoneColor room.currentTurn = boardWhite := if_neg hturn
    have hmore := h.balanced.resolve_left (mt hopen.turn.mpr hturn)
    rw [hcolor, stones_placed_self hempty (by decide),
      stones_placed_ne hempty (by decide) boardBlack_ne_boardWhite.symm, hmore]
    exact .inr ⟨hopen.seated.resolve_left hturn, rfl⟩

/-- If the new stone makes no five in a row then there is none on the board. -/
theorem Undecided.not_hasFive_placed (h : room.Undecided) {playerId x y : ℤ}
    (hempty : room.stoneAt x y = some boardEmpty) {stone : String}
    (hstone : stone ∈ [boardBlack, boardWhite])
    (hfive : stone = room.stoneColor playerId →
      ¬ (room.placed (room.stoneColor playerId) x y).FiveThrough stone (x, y)) :
    ¬ (room.placed (room.stoneColor playerId) x y).HasFive stone := by
  have hold : ¬ room.HasFive stone := by
    rcases List.mem_pair.mp hstone with rfl | rfl
    · exact h.black
    · exact h.white
  intro hnew
  by_cases hsame : stone = room.stoneColor playerId
  · rw [← hsame] at hnew hfive
    exact (hnew.placed_cases hempty).elim hold (hfive rfl)
  · exact hold (hnew.of_placed_ne hempty (Ne.symm hsame))

theorem Fair.moveCount_placed {moves : List Move} (h : Fair moves room) {playerId x y : ℤ}
    (hempty : room.stoneAt x y = some boardEmpty) :
    (room.placed (room.stoneColor playerId) x y).moveCount =
      (room.placed (room.stoneColor playerId) x y).occupied := by
  rw [occupied_placed hempty (room.stoneColor_ne_empty playerId), Int.natCast_add, ← h.moveCount]
  rfl

theorem Fair.full_placed_iff {moves : List Move} (h : Fair moves room) {playerId x y : ℤ}
    (hempty : room.stoneAt x y = some boardEmpty) :
    (room.placed (room.stoneColor playerId) x y).Full ↔
      (boardSize * boardSize : ℕ) ≤ room.moveCount + 1 := by
  have hcount : room.moveCount + 1 = (room.placed (room.stoneColor playerId) x y).occupied :=
    h.moveCount_placed hempty
  rw [(h.wellFormed.placed _ x y).full_iff, hcount, Int.ofNat_le]

theorem Fair.accepted {moves : List Move} (h : Fair moves room) (move : Move)
    (hmove : room.makeMove move.playerId move.x move.y = some (.ok, room')) :
    Fair (moves ++ [move]) room' := by
  obtain ⟨hover, hturn, hempty, hout⟩ := makeMove_eq_ok hmove
  have hopen := h.goesOn hover
  have hwell := h.wellFormed.placed (room.stoneColor move.playerId) move.x move.y
  have hcount : (room.placed (room.stoneColor move.playerId) move.x move.y).moveCount =
      (room.placed (room.stoneColor move.playerId) move.x move.y).occupied :=
    h.moveCount_placed hempty
  have hbalanced := h.balanced_placed hover hempty
  rw [← hturn] at hbalanced
  have hdiffer : (room.placed (room.stoneColor move.playerId) move.x move.y).stones boardBlack =
      (room.placed (room.stoneColor move.playerId) move.x move.y).stones boardWhite ∨
      (room.placed (room.stoneColor move.playerId) move.x move.y).stones boardBlack =
      (room.placed (room.stoneColor move.playerId) move.x move.y).stones boardWhite + 1 :=
    hbalanced.elim (fun hblack ↦ .inr hblack.2) (fun hwhite ↦ .inl hwhite.2)
  cases hout with
  | won hfive =>
      refine ⟨hwell.congr rfl, h.players, hcount, hdiffer, Bool.noConfusion, fun _ ↦ ?_, ?_⟩
      · refine ⟨⟨move, List.getLast?_concat, rfl, rfl⟩, hfive, fun stone hstone hne ↦ ?_⟩
        exact hopen.not_hasFive_placed hempty hstone (fun hsame ↦ absurd hsame hne)
      · exact fun hreason ↦ absurd hreason (by decide : "five_in_row" ≠ "draw")
  | drawn hfive hdraw =>
      have hno : ∀ stone ∈ [boardBlack, boardWhite],
          ¬ (room.placed (room.stoneColor move.playerId) move.x move.y).HasFive stone :=
        fun stone hstone ↦ hopen.not_hasFive_placed hempty hstone (fun hsame ↦ hsame ▸ hfive)
      refine ⟨hwell.congr rfl, h.players, hcount, hdiffer, Bool.noConfusion, ?_, fun _ ↦ ?_⟩
      · exact fun hreason ↦ absurd hreason (by decide : "draw" ≠ "five_in_row")
      · exact ⟨(h.full_placed_iff hempty).mpr hdraw, hno _ List.mem_cons_self,
          hno _ (List.mem_cons_of_mem _ List.mem_cons_self)⟩
  | goesOn hfive hdraw =>
      have hno : ∀ stone ∈ [boardBlack, boardWhite],
          ¬ (room.placed (room.stoneColor move.playerId) move.x move.y).HasFive stone :=
        fun stone hstone ↦ hopen.not_hasFive_placed hempty hstone (fun hsame ↦ hsame ▸ hfive)
      have hreason : (room.placed (room.stoneColor move.playerId) move.x move.y).winnerReason =
          "" := hopen.reason
      refine ⟨hwell.congr rfl, h.players, hcount, hdiffer, fun _ ↦ ?_, ?_, ?_⟩
      · refine ⟨hno _ List.mem_cons_self, hno _ (List.mem_cons_of_mem _ List.mem_cons_self),
          mt (h.full_placed_iff hempty).mp hdraw, ?_, ?_, hreason⟩
        · change (if room.currentTurn = room.player1 then room.player2 else room.player1) =
            room.player1 ↔ _
          rw [← hturn]
          rcases hbalanced with ⟨hfirst, hmore⟩ | ⟨hsecond, hequal⟩
          · rw [if_pos hfirst]
            exact iff_of_false h.players.symm (fun heq ↦ Nat.succ_ne_self _ (hmore.symm.trans heq))
          · rw [if_neg (fun hfirst ↦ h.players (hfirst.symm.trans hsecond))]
            exact iff_of_true rfl hequal
        · change (if room.currentTurn = room.player1 then room.player2 else room.player1) =
            room.player1 ∨ _
          split_ifs
          · exact .inr rfl
          · exact .inl rfl
      · exact fun hwon ↦ absurd (hreason.symm.trans hwon) (by decide)
      · exact fun hdrawn ↦ absurd (hreason.symm.trans hdrawn) (by decide)

/-- A game that is given up keeps its board. -/
theorem Fair.forfeited {moves : List Move} (h : Fair moves room) (winnerId : ℤ) :
    Fair moves (room.forfeit winnerId) where
  wellFormed := h.wellFormed.congr rfl
  players := h.players
  moveCount := h.moveCount
  balanced := h.balanced
  goesOn := Bool.noConfusion
  won := fun hreason ↦ absurd hreason (by decide : "opponent_left" ≠ "five_in_row")
  drawn := fun hreason ↦ absurd hreason (by decide : "opponent_left" ≠ "draw")

theorem WellFormed.makeMove_refused (h : room.WellFormed) {playerId x y : ℤ} {result : MoveResult}
    (hmove : room.makeMove playerId x y = some (result, room')) (hresult : result ≠ .ok) :
    room' = room := by
  rcases h.makeMove_cases playerId x y with ⟨result', -, hrefused⟩ | ⟨room₁, haccepted, -⟩
  · rw [hrefused] at hmove
    exact (Prod.mk.inj (Option.some.inj hmove)).2.symm
  · rw [haccepted] at hmove
    exact absurd (Prod.mk.inj (Option.some.inj hmove)).1.symm hresult

theorem Game.fair {roomId player1 player2 : ℤ} {moves : List Move}
    (h : Game (create roomId player1 player2) moves room) (hne : player1 ≠ player2) :
    Fair moves room := by
  induction h with
  | start => exact fair_create roomId player1 player2 hne
  | accepted move _ hmove ih => exact ih.accepted move hmove
  | refused playerId x y result _ hresult hmove ih =>
      rw [ih.wellFormed.makeMove_refused hmove hresult]
      exact ih
  | forfeited winnerId _ _ ih => exact ih.forfeited winnerId

/-- The rules of the game hold after any calls of `makeMove` and a call of `forfeit` on a
game that goes on, and no call of `makeMove` reads outside the board. -/
theorem game_rules {roomId player1 player2 : ℤ} {moves : List Move}
    (hne : player1 ≠ player2) (h : Game (create roomId player1 player2) moves room) :
    room.moveCount = room.occupied ∧
    (room.stones boardBlack = room.stones boardWhite ∨
      room.stones boardBlack = room.stones boardWhite + 1) ∧
    (room.gameOver = false → ¬ room.HasFive boardBlack ∧ ¬ room.HasFive boardWhite ∧
      ¬ room.Full ∧
      (room.currentTurn = room.player1 ↔ room.stones boardBlack = room.stones boardWhite)) ∧
    (room.winnerReason = "five_in_row" →
      (∃ move, moves.getLast? = some move ∧ room.winner = move.playerId ∧
        room.lastMove = (move.x, move.y)) ∧
      room.FiveThrough (room.stoneColor room.winner) room.lastMove ∧
      ∀ stone ∈ [boardBlack, boardWhite], stone ≠ room.stoneColor room.winner →
        ¬ room.HasFive stone) ∧
    (room.winnerReason = "draw" →
      room.Full ∧ ¬ room.HasFive boardBlack ∧ ¬ room.HasFive boardWhite) ∧
    ∀ playerId x y, ∃ result room', room.makeMove playerId x y = some (result, room') ∧
      (result ≠ .ok → room' = room) := by
  have hfair := h.fair hne
  refine ⟨hfair.moveCount, hfair.balanced, ?_, ?_, hfair.drawn, ?_⟩
  · intro hover
    have hopen := hfair.goesOn hover
    exact ⟨hopen.black, hopen.white, hopen.notFull, hopen.turn⟩
  · intro hreason
    have hwon := hfair.won hreason
    exact ⟨hwon.last, hwon.five, hwon.other⟩
  · intro playerId x y
    rcases hfair.wellFormed.makeMove_cases playerId x y with
      ⟨result, -, hrefused⟩ | ⟨room', haccepted, -⟩
    · exact ⟨result, room, hrefused, fun _ ↦ rfl⟩
    · exact ⟨.ok, room', haccepted, fun hresult ↦ absurd rfl hresult⟩

/-- The room behind some moves, if all of them are accepted. -/
def makeMoves (room : GameRoom) (moves : List Move) : Option GameRoom :=
  moves.foldlM (fun room move ↦
    match room.makeMove move.playerId move.x move.y with
    | some (.ok, room') => some room'
    | _ => none) room

theorem Game.of_makeMoves {first : GameRoom} {moves more : List Move} (h : Game first moves room)
    (hplay : room.makeMoves more = some room') : Game first (moves ++ more) room' := by
  induction more generalizing moves room with
  | nil =>
      cases hplay
      rw [List.append_nil]
      exact h
  | cons move more ih =>
      rw [makeMoves, List.foldlM_cons] at hplay
      split at hplay
      · rename_i next hmove
        have hnext := ih (h.accepted move hmove) hplay
        rwa [List.append_assoc, List.singleton_append] at hnext
      · cases hplay

/-- Black has five in the top row, the last of them with the ninth stone. -/
def topRow : List Move :=
  [⟨7, 0, 0⟩, ⟨8, 1, 0⟩, ⟨7, 0, 1⟩, ⟨8, 1, 1⟩, ⟨7, 0, 2⟩, ⟨8, 1, 2⟩, ⟨7, 0, 3⟩, ⟨8, 1, 3⟩,
    ⟨7, 0, 4⟩]

theorem game_rules_in_topRow :
    ∃ room, Game (create 1 7 8) topRow room ∧ room.winnerReason = "five_in_row" ∧
      room.moveCount = room.occupied ∧
      (∃ move, topRow.getLast? = some move ∧ room.winner = move.playerId ∧
        room.lastMove = (move.x, move.y)) ∧
      room.FiveThrough (room.stoneColor room.winner) room.lastMove := by
  have hwon : ((create 1 7 8).makeMoves topRow).map (fun room ↦ room.winnerReason) =
      some "five_in_row" := by decide +kernel
  obtain ⟨room, hplay, hreason⟩ := Option.map_eq_some_iff.mp hwon
  have hgame : Game (create 1 7 8) topRow room := Game.start.of_makeMoves hplay
  have hrules := game_rules (by decide) hgame
  obtain ⟨hlast, hfive, -⟩ := hrules.2.2.2.1 hreason
  exact ⟨room, hgame, hreason, hrules.1, hlast, hfive⟩

end HttpRaftKv.Gomoku.GameRoom
