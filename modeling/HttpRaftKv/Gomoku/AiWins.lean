import HttpRaftKv.Gomoku.AiMoves

/-!
# When the server wins

The first loop of the server's move comes to the places in the order of rows and columns, and
it stops at the first one at which either colour would win.  So the server does not win if the
player's five comes before its own.
-/

namespace HttpRaftKv.Gomoku.AiGame

variable {game game' : AiGame} {place : ℤ × ℤ} {stone : String}

/-- A stone of this colour on the empty place makes five in a row. -/
def Completes (game : AiGame) (stone : String) (place : ℤ × ℤ) : Prop :=
  game.room.stoneAt place.1 place.2 = some boardEmpty ∧
    (game.room.placed stone place.1 place.2).FiveThrough stone place

/-- The order in which the loops come to the places. -/
def Precedes (place place' : ℤ × ℤ) : Prop :=
  place.1 < place'.1 ∨ place.1 = place'.1 ∧ place.2 < place'.2

/-- The server wins if it can, and otherwise it takes a place where the player would win. -/
structure NeverMisses (game game' : AiGame) : Prop where
  wins : (∃ place, game.Completes aiPlayer place) →
    game'.gameOver = true ∧ game'.winner = "ai"
  blocks : (¬ ∃ place, game.Completes aiPlayer place) →
    (∃ place, game.Completes humanPlayer place) →
      ∃ place, game.Completes humanPlayer place ∧
        game'.room.stoneAt place.1 place.2 = some aiPlayer

/-- The server could win, but before all the places for that comes one where the player would
win. -/
def Distracted (game : AiGame) : Prop :=
  (∃ place, game.Completes aiPlayer place) ∧
    ∃ place, game.Completes humanPlayer place ∧
      ∀ place', game.Completes aiPlayer place' → Precedes place place'

/-! ## Urgent places -/

theorem Square.checkWin_iff (h : game.Square) {place : ℤ × ℤ} (hin : isInBoard place.1 place.2 = true)
    (hempty : game.cell place.1 place.2 = some boardEmpty) (stone : String) :
    (game.setCell place.1 place.2 stone).checkWin place.1 place.2 stone = true ↔
      game.Completes stone place := by
  have hself : (game.setCell place.1 place.2 stone).room.stoneAt place.1 place.2 = some stone :=
    stoneAt_room hin (cell_setCell_self hempty stone)
  have hlook := GameRoom.checkWin_eq_some hself
    ((h.setCell place.1 place.2 stone).checkWin_eq place.1 place.2 stone)
  exact hlook.trans (and_iff_right (stoneAt_room hin hempty)).symm

theorem Square.urgent_iff (h : game.Square) (hin : isInBoard place.1 place.2 = true) :
    game.Urgent place = true ↔
      game.Completes aiPlayer place ∨ game.Completes humanPlayer place := by
  rw [Urgent, Bool.and_eq_true, decide_eq_true_eq]
  by_cases hempty : game.cell place.1 place.2 = some boardEmpty
  · rw [and_iff_right hempty, isUrgent, Bool.or_eq_true, h.checkWin_iff hin hempty,
      h.checkWin_iff hin hempty]
  · refine iff_of_false (fun hboth ↦ hempty hboth.1) ?_
    rintro (hcompletes | hcompletes)
    · exact hempty (GameRoom.stoneAt_eq_some.mp hcompletes.1).2
    · exact hempty (GameRoom.stoneAt_eq_some.mp hcompletes.1).2

theorem pairwise_cells : cells.Pairwise Precedes := by
  refine List.pairwise_flatMap.mpr ⟨fun r _ ↦ ?_, ?_⟩
  · refine List.pairwise_map.mpr (List.pairwise_lt_range.imp fun {c c'} hlt ↦ ?_)
    exact .inr ⟨rfl, Int.ofNat_lt.mpr hlt⟩
  · refine List.pairwise_lt_range.imp fun {r r'} hlt ↦ ?_
    intro place hplace place' hplace'
    obtain ⟨c, _, rfl⟩ := List.mem_map.mp hplace
    obtain ⟨c', _, rfl⟩ := List.mem_map.mp hplace'
    exact .inl (Int.ofNat_lt.mpr hlt)

/-- The first loop stops at the first urgent place. -/
theorem Square.first_urgent (h : game.Square) {first : ℤ × ℤ}
    (hfirst : cells.find? game.Urgent = some first) :
    (game.Completes aiPlayer first ∨ game.Completes humanPlayer first) ∧
      ∀ place, game.Completes aiPlayer place ∨ game.Completes humanPlayer place →
        place = first ∨ Precedes first place := by
  obtain ⟨hurgent, front, back, hsplit, hfront⟩ := List.find?_eq_some_iff_append.mp hfirst
  have hmem : first ∈ cells := hsplit ▸ List.mem_append_right _ List.mem_cons_self
  refine ⟨(h.urgent_iff (mem_cells.mp hmem)).mp hurgent, fun place hplace ↦ ?_⟩
  have hin : isInBoard place.1 place.2 = true := by
    rcases hplace with hplace | hplace
    · exact (GameRoom.stoneAt_eq_some.mp hplace.1).1
    · exact (GameRoom.stoneAt_eq_some.mp hplace.1).1
  have hplaceUrgent := (h.urgent_iff hin).mpr hplace
  have hpairwise := pairwise_cells
  have hcell := mem_cells.mpr hin
  rw [hsplit] at hcell hpairwise
  rcases List.mem_append.mp hcell with hbefore | hbehind
  · have hnot := hfront place hbefore
    rw [hplaceUrgent] at hnot
    cases hnot
  · refine (List.mem_cons.mp hbehind).imp_right fun hback ↦ ?_
    exact (List.pairwise_cons.mp (List.pairwise_append.mp hpairwise).2.1).1 place hback

theorem getBestMove_of_find? {first : ℤ × ℤ} (hfirst : cells.find? game.Urgent = some first)
    (rand : ℕ) : (game.getBestMove rand).1 = first := by
  rw [getBestMove, find?_isUrgent, hfirst]

/-- There is a first urgent place if there is any. -/
theorem Square.exists_first (h : game.Square) {place : ℤ × ℤ}
    (hplace : game.Completes aiPlayer place ∨ game.Completes humanPlayer place) :
    ∃ first, cells.find? game.Urgent = some first := by
  have hin : isInBoard place.1 place.2 = true := by
    rcases hplace with hplace | hplace
    · exact (GameRoom.stoneAt_eq_some.mp hplace.1).1
    · exact (GameRoom.stoneAt_eq_some.mp hplace.1).1
  rw [← Option.isSome_iff_exists, List.find?_isSome]
  exact ⟨place, mem_cells.mpr hin, (h.urgent_iff hin).mpr hplace⟩

/-! ## The move -/

/-- The move ends the game exactly if it makes five in a row. -/
theorem Counted.aiMove_wins (h : game.Counted) (hover : game.gameOver = false)
    (hfull : ¬ game.room.Full) (rand : ℕ) :
    (game.Completes aiPlayer (game.getBestMove rand).1 →
        (game.aiMove rand).gameOver = true ∧ (game.aiMove rand).winner = "ai") ∧
      (¬ game.Completes aiPlayer (game.getBestMove rand).1 →
        (game.aiMove rand).gameOver = false) := by
  have hdraw : game.isDraw = false := Bool.eq_false_iff.mpr (mt h.isDraw_iff.mp hfull)
  obtain ⟨hin, hcell⟩ := mem_emptyCells.mp
    (getBestMove_mem (emptyCells_ne_nil_iff.mpr hfull) rand)
  rw [aiMove_eq_placeStone hover hdraw]
  have hlook : ({ game.setCell (game.getBestMove rand).1.1 (game.getBestMove rand).1.2 aiPlayer with
        moveCount := game.moveCount + 1
        lastMove := (game.getBestMove rand).1 } : AiGame).checkWin (game.getBestMove rand).1.1
          (game.getBestMove rand).1.2 aiPlayer = true ↔
      game.Completes aiPlayer (game.getBestMove rand).1 :=
    h.square.checkWin_iff hin hcell aiPlayer
  unfold AiGame.placeStone
  dsimp only
  constructor
  · intro hcompletes
    rw [if_pos (hlook.mpr hcompletes)]
    exact ⟨rfl, rfl⟩
  · intro hnot
    rw [if_neg (mt hlook.mp hnot)]
    exact hover

/-- The server never misses a win or a block exactly if it is not distracted. -/
theorem never_misses_iff (h : game.Counted) (hover : game.gameOver = false)
    (hfull : ¬ game.room.Full) (rand : ℕ) :
    (∃ game', Live.aiMove game rand = some game' ∧ game.NeverMisses game') ↔
      ¬ game.Distracted := by
  have hmove := h.square.aiMove_eq h.emptyCells_ne_nil rand
  obtain ⟨hwins, hgoesOn⟩ := h.aiMove_wins hover hfull rand
  have hturns := h.turnsWhite hover hfull rand
  constructor
  · rintro ⟨game', hgame', hnever⟩ ⟨⟨win, hwin⟩, block, hblock, hbefore⟩
    rw [hmove] at hgame'
    cases hgame'
    obtain ⟨first, hfirst⟩ := h.square.exists_first (.inl hwin)
    have hbest := getBestMove_of_find? hfirst rand
    obtain ⟨_, hrest⟩ := h.square.first_urgent hfirst
    have hends := (hnever.wins ⟨win, hwin⟩).1
    rw [hbest] at hgoesOn
    by_cases hcompletes : game.Completes aiPlayer first
    · -- The place in front of all winning places is not behind this one.
      have hback := hbefore first hcompletes
      rcases hrest block (.inr hblock) with heq | hahead
      · subst heq
        unfold Precedes at hback
        omega
      · unfold Precedes at hback hahead
        omega
    · rw [hgoesOn hcompletes] at hends
      cases hends
  · intro hnot
    refine ⟨_, hmove, fun ⟨win, hwin⟩ ↦ ?_, fun hnowin ⟨block, hblock⟩ ↦ ?_⟩
    · obtain ⟨first, hfirst⟩ := h.square.exists_first (.inl hwin)
      obtain ⟨hurgent, hrest⟩ := h.square.first_urgent hfirst
      rw [getBestMove_of_find? hfirst rand] at hwins
      by_contra hends
      have hcompletes : ¬ game.Completes aiPlayer first := mt hwins hends
      refine hnot ⟨⟨win, hwin⟩, first, hurgent.resolve_left hcompletes, fun place hplace ↦ ?_⟩
      refine (hrest place (.inl hplace)).resolve_left ?_
      rintro rfl
      exact hcompletes hplace
    · obtain ⟨first, hfirst⟩ := h.square.exists_first (.inr hblock)
      obtain ⟨hurgent, _⟩ := h.square.first_urgent hfirst
      have hafter := hturns.after
      rw [getBestMove_of_find? hfirst rand] at hafter
      exact ⟨first, hurgent.resolve_left fun hwin ↦ hnowin ⟨first, hwin⟩, hafter⟩

/-- The player has four in a row in the fourth row, and the server has four on a diagonal that
ends in the fifth. -/
def crossing : AiGame :=
  ([(0, 5), (0, 6), (1, 4), (1, 5), (2, 3), (2, 5), (3, 2)] : List (ℤ × ℤ)).foldl
    (fun game place ↦ game.setCell place.1 place.2 aiPlayer)
    (([(0, 7), (1, 6), (3, 3), (3, 4), (3, 5), (3, 6), (4, 3), (6, 2)] : List (ℤ × ℤ)).foldl
      (fun game place ↦ game.setCell place.1 place.2 humanPlayer)
      { create 1 with
        moveCount := 15
        lastMove := (3, 5) })

theorem counted_crossing : crossing.Counted ∧ ¬ crossing.room.Full := by
  refine ⟨⟨⟨by decide +kernel, by decide +kernel⟩, by decide +kernel⟩, fun hfull ↦ ?_⟩
  exact hfull 4 1 (by decide +kernel)

theorem never_misses_iff_crossing :
    (∃ game', Live.aiMove crossing 0 = some game' ∧ crossing.NeverMisses game') ↔
      ¬ crossing.Distracted :=
  never_misses_iff counted_crossing.1 (by decide +kernel) counted_crossing.2 0

/-- The server blocks and does not win. -/
theorem not_never_misses_crossing :
    ¬ ∃ game', Live.aiMove crossing 0 = some game' ∧ crossing.NeverMisses game' := by
  rintro ⟨game', hmove, hnever⟩
  have hsquare := counted_crossing.1.square
  rw [hsquare.aiMove_eq counted_crossing.1.emptyCells_ne_nil] at hmove
  cases hmove
  have hcompletes : crossing.Completes aiPlayer (4, 1) := by
    refine (hsquare.checkWin_iff ?_ ?_ aiPlayer).mp ?_
    · decide
    · decide +kernel
    · decide +kernel
  have hgoesOn : (crossing.aiMove 0).gameOver = false := by decide +kernel
  have hends := (hnever.wins ⟨_, hcompletes⟩).1
  rw [hgoesOn] at hends
  cases hends

end HttpRaftKv.Gomoku.AiGame
