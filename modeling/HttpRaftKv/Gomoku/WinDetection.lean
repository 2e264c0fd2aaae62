import HttpRaftKv.Gomoku.AiMoves

/-!
# Five in a row

`checkWin` counts the stones to both sides of a place, in four directions.  That is to see
whether five consecutive places of a row, a column or a diagonal, with this place among them,
have stones of one colour.  The two kinds of games have a copy of the function each.
-/

namespace HttpRaftKv.Gomoku.GameRoom

variable {room room' : GameRoom} {stone : String}

/-- Five consecutive places of a line. -/
def window (start d : ℤ × ℤ) : List (ℤ × ℤ) :=
  (List.range 5).map fun i : ℕ ↦ (start.1 + d.1 * i, start.2 + d.2 * i)

/-- Five consecutive places of a row, a column or a diagonal have stones of this colour, and
one of them is the place. -/
def InFive (room : GameRoom) (stone : String) (place : ℤ × ℤ) : Prop :=
  ∃ start, ∃ d ∈ directions, place ∈ window start d ∧
    ∀ p ∈ window start d, room.stoneAt p.1 p.2 = some stone

theorem mem_window {start d p : ℤ × ℤ} :
    p ∈ window start d ↔ ∃ i : ℕ, i ≤ 4 ∧ (start.1 + d.1 * i, start.2 + d.2 * i) = p := by
  unfold window
  rw [List.mem_map]
  simp only [List.mem_range, Nat.lt_succ_iff]

theorem inFive_iff {place : ℤ × ℤ} : room.InFive stone place ↔ room.FiveThrough stone place := by
  constructor
  · rintro ⟨start, d, hd, hplace, hwindow⟩
    obtain ⟨k, hk, rfl⟩ := mem_window.mp hplace
    exact fiveThrough_of_row hd hk fun i hi ↦ hwindow _ (mem_window.mpr ⟨i, hi, rfl⟩)
  · rintro ⟨d, hd, k, hk, hrow⟩
    refine ⟨(place.1 + d.1 * -k, place.2 + d.2 * -k), d, hd, mem_window.mpr ⟨k, hk, ?_⟩, ?_⟩
    · rw [Int.add_assoc, Int.add_assoc, ← Int.mul_add, ← Int.mul_add, Int.add_left_neg,
        Int.mul_zero, Int.mul_zero, Int.add_zero, Int.add_zero]
    · intro p hp
      obtain ⟨i, hi, rfl⟩ := mem_window.mp hp
      refine (onLine_shift (-k) i).mpr ?_
      rw [Int.add_comm, ← Int.sub_eq_add_neg]
      exact hrow i hi

theorem stoneAt_congr (h : room'.board = room.board) (x y : ℤ) :
    room'.stoneAt x y = room.stoneAt x y := by
  unfold stoneAt cell
  rw [h]

theorem inFive_congr (h : room'.board = room.board) {place : ℤ × ℤ} :
    room'.InFive stone place ↔ room.InFive stone place := by
  unfold InFive
  simp only [stoneAt_congr h]

/-- On a board of full size `checkWin` finds out whether a stone is one of five in a row, in
a game between two players and in a game against the server. -/
theorem checkWin_iff_inFive (hroom : room.WellFormed) {x y : ℤ}
    (hstone : room.stoneAt x y = some stone) :
    ∃ won, room.checkWin x y stone = some won ∧ (won = true ↔ room.InFive stone (x, y)) ∧
      ∀ game : AiGame, game.board = room.board →
        AiGame.Live.checkWin game x y stone = some won ∧ game.checkWin x y stone = won := by
  obtain ⟨won, hwon⟩ := hroom.covered.exists_checkWin x y stone
  have hlook : won = true ↔ room.InFive stone (x, y) :=
    (checkWin_eq_some hstone hwon).trans inFive_iff.symm
  refine ⟨won, hwon, hlook, fun game hboard ↦ ?_⟩
  have hsquare : game.Square := hroom.congr hboard
  have hcopy := hsquare.checkWin_eq x y stone
  have hsame : game.checkWin x y stone = won := by
    have hseen := checkWin_eq_some ((stoneAt_congr hboard x y).trans hstone) hcopy
    rw [Bool.eq_iff_iff, hseen, hlook, ← inFive_iff]
    exact inFive_congr hboard
  exact ⟨hcopy.trans (congrArg some hsame), hsame⟩

/-- A room with six black stones that end at a corner of the board. -/
def sixInCorner : GameRoom :=
  [(14, 14), (13, 14), (12, 14), (11, 14), (10, 14), (9, 14)].foldl
    (fun room place ↦ room.setCell place.1 place.2 boardBlack) (create 1 2 3)

theorem checkWin_sixInCorner :
    ∃ won, sixInCorner.checkWin 12 14 boardBlack = some won ∧
      (won = true ↔ sixInCorner.InFive boardBlack (12, 14)) ∧
      ∀ game : AiGame, game.board = sixInCorner.board →
        AiGame.Live.checkWin game 12 14 boardBlack = some won ∧
          game.checkWin 12 14 boardBlack = won :=
  checkWin_iff_inFive ⟨by decide +kernel, by decide +kernel⟩ (by decide +kernel)

end HttpRaftKv.Gomoku.GameRoom
