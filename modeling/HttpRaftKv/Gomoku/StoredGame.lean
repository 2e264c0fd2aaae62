import HttpRaftKv.Gomoku.RoomIndex

/-!
# The stored game is a played game

The snapshots that the store holds for a room, one after the other, are those of
one room object in memory that receives the moves which the service has written
and at most one forfeit.  A call that is refused changes nothing, and a call
whose outcome is unknown has done its one operation or nothing.
-/

namespace HttpRaftKv.Gomoku

/-- What a room object receives. -/
inductive Play
  | move (playerId x y : ℤ)
  | forfeit (winnerId : ℤ)
deriving DecidableEq, Repr

def Play.isForfeit : Play → Bool
  | .move _ _ _ => false
  | .forfeit _ => true

namespace GameRoom

/-- The room after a play; there is no result for a move that is refused. -/
def play (room : GameRoom) : Play → Option GameRoom
  | .move playerId x y =>
      match room.makeMove playerId x y with
      | some (.ok, room') => some room'
      | _ => none
  | .forfeit winnerId => some (room.forfeit winnerId)

/-- The states of a room object, from the present one on. -/
def playAll (room : GameRoom) : List Play → Option (List GameRoom)
  | [] => some [room]
  | p :: plays => do
      let room' ← room.play p
      return room :: (← room'.playAll plays)

end GameRoom

namespace PvpGameService

/-- What a call does to a room that it changes. -/
def Call.play : Call → Option Play
  | .move _ playerId x y => some (.move playerId x y)
  | .finish _ winnerId => some (.forfeit winnerId)
  | _ => none

open Classical in
/-- The snapshots that the calls store for a room, one for each change. -/
noncomputable def snapshots (r : ℤ) (values : Values) : List (Call × Faults) → List Json
  | [] => []
  | c :: calls =>
      match call values c.2 c.1 with
      | none => []
      | some (_, values') =>
          (if values' (roomKey r) = values (roomKey r) then [] else (values' (roomKey r)).toList) ++
            snapshots r values' calls

open Classical in
/-- The plays of the calls that change a room. -/
noncomputable def plays (r : ℤ) (values : Values) : List (Call × Faults) → List Play
  | [] => []
  | c :: calls =>
      match call values c.2 c.1 with
      | none => []
      | some (_, values') =>
          (if values' (roomKey r) = values (roomKey r) then [] else c.1.play.toList) ++
            plays r values' calls

/-! ## One call -/

/-- The room is further on in its game. -/
def Later (room room' : GameRoom) : Prop :=
  room.moveCount < room'.moveCount ∨
    (room.moveCount = room'.moveCount ∧ room.gameOver = false ∧ room'.gameOver = true)

theorem Later.trans {room room' room'' : GameRoom} (h : Later room room')
    (h' : Later room' room'') : Later room room'' := by
  rcases h with h | ⟨h, hover, hover'⟩
  · rcases h' with h' | ⟨h', -, -⟩
    · exact .inl (h.trans h')
    · exact .inl (h' ▸ h)
  · rcases h' with h' | ⟨h', hgoesOn, -⟩
    · exact .inl (h ▸ h')
    · rw [hover'] at hgoesOn
      exact absurd hgoesOn (by simp)

theorem Later.ne {room room' : GameRoom} (h : Later room room') : room ≠ room' := by
  rintro rfl
  rcases h with h | ⟨-, hover, hover'⟩
  · exact lt_irrefl _ h
  · rw [hover] at hover'
    exact absurd hover' (by simp)

variable {values values' : Values} {lobby lobby' : Lobby} {r : ℤ} {c : Call}
  {result : PvpGameResult}

/-- What a call does to a room that exists: nothing, or the play of the call,
which a room object takes too. -/
theorem Effect.room_cases (heffect : Effect values lobby c result values' lobby')
    (hr : r ∈ lobby.ids) :
    r ∈ lobby'.ids ∧ (lobby'.room r = lobby.room r ∨
      ∃ p, c.play = some p ∧ (lobby.room r).play p = some (lobby'.room r) ∧
        (lobby.room r).gameOver = false ∧ Later (lobby.room r) (lobby'.room r) ∧
        (p.isForfeit = true → (lobby'.room r).gameOver = true)) := by
  cases heffect with
  | refused => exact ⟨hr, .inl rfl⟩
  | loaded => exact ⟨hr, .inl rfl⟩
  | created player1 player2 =>
      refine ⟨?_, .inl (Lobby.room_add_of_mem hr _ _)⟩
      rw [Lobby.ids, Lobby.add, roomIds_succ]
      exact List.mem_append_left _ hr
  | moved s playerId x y room _ _ hs hmove hplayed hroomId =>
      refine ⟨hr, ?_⟩
      by_cases hrs : r = s
      · subst hrs
        have hroom : (lobby.set r room hroomId hplayed.wellFormed).room r = room :=
          Function.update_self _ _ _
        rw [hroom]
        refine .inr ⟨.move playerId x y, rfl, ?_, hplayed.goesOn, .inl ?_, ?_⟩
        · simp [GameRoom.play, hmove]
        · rw [hplayed.moveCount]
          exact lt_add_one _
        · simp [Play.isForfeit]
      · exact .inl (Function.update_of_ne hrs _ _)
  | finished s winnerId _ _ hs hroomId hwellFormed =>
      refine ⟨hr, ?_⟩
      by_cases hrs : r = s
      · subst hrs
        have hroom : (lobby.set r ((lobby.room r).closed winnerId) hroomId hwellFormed).room r =
            (lobby.room r).closed winnerId := Function.update_self _ _ _
        rw [hroom]
        cases hover : (lobby.room r).gameOver with
        | true => exact .inl (by simp [GameRoom.closed, hover])
        | false =>
            have hclosed : (lobby.room r).closed winnerId = (lobby.room r).forfeit winnerId := by
              simp [GameRoom.closed, hover]
            rw [hclosed]
            exact .inr ⟨.forfeit winnerId, rfl, rfl, rfl, .inr ⟨rfl, hover, rfl⟩, fun _ ↦ rfl⟩
      · exact .inl (Function.update_of_ne hrs _ _)

/-- A room that exists after a call and not before has been created by it. -/
theorem Effect.new_cases (heffect : Effect values lobby c result values' lobby')
    (hr : r ∉ lobby.ids) (hr' : r ∈ lobby'.ids) :
    ∃ player1 player2, c = .createRoom player1 player2 ∧
      lobby'.room r = .create r player1 player2 := by
  cases heffect with
  | refused => exact absurd hr' hr
  | loaded => exact absurd hr' hr
  | moved => exact absurd hr' hr
  | finished => exact absurd hr' hr
  | created player1 player2 =>
      refine ⟨player1, player2, rfl, ?_⟩
      rw [Lobby.ids, Lobby.add, roomIds_succ, List.mem_append, List.mem_singleton] at hr'
      obtain rfl := hr'.resolve_left hr
      exact Lobby.room_add_self lobby player1 player2

/-- A call that is neither carried out nor failed leaves the values as they are. -/
theorem Effect.unchanged (heffect : Effect values lobby c result values' lobby')
    (hok : result.status ≠ .ok) (havailable : result.status ≠ .unavailable) :
    values' = values := by
  have hreports : ∀ snapshot, ¬ Reports result snapshot := by
    rintro snapshot (rfl | h)
    · exact hok rfl
    · exact havailable h
  cases heffect with
  | refused => rfl
  | loaded => rfl
  | created player1 player2 _ _ hresult => exact absurd hresult (hreports _)
  | moved s playerId x y room _ _ _ _ _ _ hresult => exact absurd hresult (hreports _)
  | finished s winnerId _ _ _ _ _ hresult => exact absurd hresult (hreports _)

/-- The room that a call is about, if it names one. -/
def Call.roomId? : Call → Option ℤ
  | .createRoom _ _ => none
  | .load roomId => some roomId
  | .move roomId _ _ _ => some roomId
  | .finish roomId _ => some roomId

/-- A call that is carried out returns the snapshot that is stored now. -/
theorem Effect.stored (h' : values'.Holds lobby')
    (heffect : Effect values lobby c result values' lobby') (hok : result.status = .ok) :
    ∃ r, c.roomId?.getD r = r ∧ result.snapshot.at? "roomId" = some (.integer r) ∧
      values' (roomKey r) = some result.snapshot := by
  have hstored : ∀ s ∈ lobby'.ids, Reports result (lobby'.room s).snapshot →
      result.snapshot.at? "roomId" = some (.integer s) ∧
        values' (roomKey s) = some result.snapshot := by
    intro s hs hreports
    obtain rfl := hreports.resolve_right (by simp [hok])
    exact ⟨by rw [GameRoom.at?_roomId_snapshot, lobby'.roomId s hs], h'.room_of_mem hs⟩
  cases heffect with
  | refused _ _ hstatus => exact absurd hok hstatus
  | loaded s hs => exact ⟨s, rfl, hstored s hs (.inl rfl)⟩
  | created player1 player2 _ _ hresult =>
      have hmem : (lobby.count : ℤ) + 1 ∈ (lobby.add player1 player2).ids := by
        simp [Lobby.ids, Lobby.add, roomIds_succ]
      exact ⟨lobby.count + 1, rfl, hstored _ hmem (by simpa using hresult)⟩
  | moved s playerId x y room _ _ hs _ hplayed hroomId hresult =>
      exact ⟨s, rfl, hstored s hs (by simpa [Lobby.set] using hresult)⟩
  | finished s winnerId _ _ hs _ _ hresult =>
      exact ⟨s, rfl, hstored s hs (by simpa [Lobby.set] using hresult)⟩

/-! ## A write of unknown outcome -/

/-- The call has left the values as they were, or has made of them what it makes
of them when the store works. -/
def Advances (values : Values) (answer clean : Option (PvpGameResult × Values)) : Prop :=
  ∀ result values', answer = some (result, values') →
    values' = values ∨ ∃ snapshot, clean = some (⟨.ok, snapshot⟩, values')

theorem advances_refused (values : Values) (result : PvpGameResult)
    (clean : Option (PvpGameResult × Values)) : Advances values (some (result, values)) clean := by
  rintro _ _ ⟨⟩
  exact .inl rfl

theorem storeRoom_advances (values : Values) (outcome : WriteOutcome) (roomId : ℤ)
    (snapshot : Json) (ids : List Json) :
    Advances values (some (storeRoom values outcome roomId snapshot ids))
      (some (storeRoom values .committed roomId snapshot ids)) := by
  cases outcome with
  | refused => exact advances_refused values _ _
  | committed => rintro _ _ ⟨⟩; exact .inr ⟨_, rfl⟩
  | ambiguous => rintro _ _ ⟨⟩; exact .inr ⟨_, rfl⟩

theorem storeMove_advances (values : Values) (outcome : WriteOutcome) (roomId : ℤ)
    (current replacement : Json) :
    Advances values (some (storeMove values outcome roomId current replacement))
      (some (storeMove values .committed roomId current replacement)) := by
  cases outcome with
  | refused => exact advances_refused values _ _
  | committed => rintro _ _ ⟨⟩; exact .inr ⟨_, rfl⟩
  | ambiguous => rintro _ _ ⟨⟩; exact .inr ⟨_, rfl⟩

theorem storeFinished_advances (values : Values) (faults : Faults) (roomId : ℤ)
    (current replacement : Json) :
    Advances values (some (storeFinished values faults roomId current replacement))
      (some (storeFinished values .none roomId current replacement)) := by
  unfold storeFinished Values.tryLoad
  cases faults.load 1 with
  | true => exact advances_refused values _ _
  | false =>
      simp only [Faults.none, Bool.false_eq_true, if_false]
      cases values.load activeRoomIdsKey with
      | notFound => exact advances_refused values _ _
      | unavailable => exact advances_refused values _ _
      | ok active =>
          cases harray : active.getArray? with
          | none =>
              simp only [harray]
              exact advances_refused values _ _
          | some ids =>
              simp only [harray]
              cases faults.write with
              | refused => exact advances_refused values _ _
              | committed => rintro _ _ ⟨⟩; exact .inr ⟨_, rfl⟩
              | ambiguous => rintro _ _ ⟨⟩; exact .inr ⟨_, rfl⟩

theorem createRoomAs_advances (values : Values) (faults : Faults) (roomId player1 player2 : ℤ) :
    Advances values (some (createRoomAs values faults roomId player1 player2))
      (some (createRoomAs values .none roomId player1 player2)) := by
  unfold createRoomAs Values.tryLoad
  cases faults.load 1 with
  | true => exact advances_refused values _ _
  | false =>
      simp only [Faults.none, Bool.false_eq_true, if_false]
      cases values.load activeRoomIdsKey with
      | unavailable => exact advances_refused values _ _
      | notFound => exact storeRoom_advances values _ _ _ _
      | ok active =>
          cases harray : active.getArray? with
          | none =>
              simp only [harray]
              exact advances_refused values _ _
          | some ids =>
              simp only [harray]
              exact storeRoom_advances values _ _ _ _

theorem createRoom_advances (values : Values) (faults : Faults) (player1 player2 : ℤ) :
    Advances values (createRoom values faults player1 player2)
      (createRoom values .none player1 player2) := by
  unfold createRoom Values.tryLoad
  cases faults.load 0 with
  | true => exact advances_refused values _ _
  | false =>
      rw [if_neg Bool.false_ne_true, Faults.none, if_neg Bool.false_ne_true]
      cases values.load nextRoomIdKey with
      | unavailable => exact advances_refused values _ _
      | notFound => exact createRoomAs_advances values faults 1 player1 player2
      | ok next =>
          cases hnext : next.getInt? with
          | none => simp [Advances, hnext]
          | some roomId =>
              simp only [hnext, Option.pure_def, Option.bind_eq_bind, Option.bind_some]
              exact createRoomAs_advances values faults roomId player1 player2

theorem moveRoom_advances (values : Values) (faults : Faults) (roomId : ℤ) (current : Json)
    (room : GameRoom) (playerId x y : ℤ) :
    Advances values (moveRoom values faults roomId current room playerId x y)
      (moveRoom values .none roomId current room playerId x y) := by
  unfold moveRoom
  cases room.makeMove playerId x y with
  | none => simp [Advances]
  | some moved =>
      obtain ⟨result, room'⟩ := moved
      cases result with
      | invalidMove => exact advances_refused values _ _
      | gameOver => exact advances_refused values _ _
      | notYourTurn => exact advances_refused values _ _
      | ok =>
          simp only [Option.bind_eq_bind, Option.bind_some, GameRoom.at?_gameOver_snapshot,
            Json.getBool?]
          cases room'.gameOver with
          | false => exact storeMove_advances values _ _ _ _
          | true => exact storeFinished_advances values _ _ _ _

theorem move_advances (h : values.Holds lobby) (faults : Faults) (roomId playerId x y : ℤ) :
    Advances values (move values faults roomId playerId x y)
      (move values .none roomId playerId x y) := by
  unfold move
  rcases loadLocked_cases h (faults.load 0) roomId with ⟨hr, hload⟩ | hload
  · have hclean : loadLocked values (Faults.none.load 0) roomId =
        ⟨.ok, (lobby.room roomId).snapshot⟩ := loadLocked_of_mem h hr
    simp only [hload, hclean, ne_eq, not_true_eq_false, if_false, GameRoom.fromSnapshot_snapshot]
    exact moveRoom_advances values faults roomId _ _ playerId x y
  · simp only [hload, ne_eq, not_false_eq_true, if_true]
    exact advances_refused values _ _

theorem finish_advances (h : values.Holds lobby) (faults : Faults) (roomId winnerId : ℤ) :
    Advances values (some (finish values faults roomId winnerId))
      (some (finish values .none roomId winnerId)) := by
  unfold finish
  rcases loadLocked_cases h (faults.load 0) roomId with ⟨hr, hload⟩ | hload
  · have hclean : loadLocked values (Faults.none.load 0) roomId =
        ⟨.ok, (lobby.room roomId).snapshot⟩ := loadLocked_of_mem h hr
    simp only [hload, hclean, ne_eq, not_true_eq_false, if_false, GameRoom.fromSnapshot_snapshot]
    exact storeFinished_advances values faults roomId _ _
  · simp only [hload, ne_eq, not_false_eq_true, if_true]
    exact advances_refused values _ _

theorem call_advances (h : values.Holds lobby) (faults : Faults) (c : Call) :
    Advances values (call values faults c) (call values .none c) := by
  cases c with
  | createRoom player1 player2 => exact createRoom_advances values faults player1 player2
  | load roomId => exact advances_refused values _ _
  | move roomId playerId x y => exact move_advances h faults roomId playerId x y
  | finish roomId winnerId => exact finish_advances h faults roomId winnerId

/-! ## A run -/

/-- The room object takes the plays, and the snapshots are those of its states
behind the present one. -/
structure Replayed (room : GameRoom) (plays : List Play) (snapshots : List Json)
    (rooms : List GameRoom) : Prop where
  played : room.playAll plays = some (room :: rooms)
  stored : snapshots = rooms.map GameRoom.snapshot
  later : (room :: rooms).Pairwise Later
  once : plays.countP Play.isForfeit ≤ 1
  ended : room.gameOver = true → plays = []

theorem Replayed.cons {room room' : GameRoom} {ps : List Play} {stored : List Json}
    {rooms : List GameRoom} (h : Replayed room' ps stored rooms) {p : Play}
    (hplay : room.play p = some room') (hgoesOn : room.gameOver = false)
    (hlater : Later room room') (hover : p.isForfeit = true → room'.gameOver = true) :
    Replayed room (p :: ps) (room'.snapshot :: stored) (room' :: rooms) where
  played := by
    simp [GameRoom.playAll, hplay, h.played]
  stored := by
    rw [h.stored, List.map_cons]
  later := by
    refine List.pairwise_cons.mpr ⟨fun other hother ↦ ?_, h.later⟩
    rcases List.mem_cons.mp hother with rfl | hother
    · exact hlater
    · exact hlater.trans ((List.pairwise_cons.mp h.later).1 other hother)
  once := by
    rw [List.countP_cons]
    cases hforfeit : p.isForfeit with
    | true => simp [h.ended (hover hforfeit)]
    | false => simpa using h.once
  ended := fun hover ↦ absurd hover (by simp [hgoesOn])

theorem replayed_run (h : values.Holds lobby) (hr : r ∈ lobby.ids)
    (calls : List (Call × Faults)) :
    ∃ rooms, Replayed (lobby.room r) (plays r values calls) (snapshots r values calls) rooms := by
  induction calls generalizing values lobby with
  | nil => exact ⟨[], rfl, rfl, List.pairwise_singleton _ _, by simp [plays], fun _ ↦ rfl⟩
  | cons c calls ih =>
      obtain ⟨result, values', lobby', hcall, h', heffect⟩ := call_serves h c.2 c.1
      obtain ⟨hr', hcases⟩ := heffect.room_cases hr
      obtain ⟨rooms, hrooms⟩ := ih h' hr'
      simp only [plays, snapshots, hcall]
      rcases hcases with hsame | ⟨p, hp, hplay, hgoesOn, hlater, hover⟩
      · have hkey : values' (roomKey r) = values (roomKey r) := by
          rw [h.room_of_mem hr, h'.room_of_mem hr', hsame]
        rw [if_pos hkey, if_pos hkey, List.nil_append, List.nil_append, ← hsame]
        exact ⟨rooms, hrooms⟩
      · have hkey : values' (roomKey r) ≠ values (roomKey r) := by
          rw [h.room_of_mem hr, h'.room_of_mem hr']
          intro heq
          exact hlater.ne (GameRoom.snapshot_injective (Option.some.inj heq)).symm
        rw [if_neg hkey, if_neg hkey, hp, h'.room_of_mem hr']
        exact ⟨_, hrooms.cons hplay hgoesOn hlater hover⟩

/-- The run of a room that does not exist yet. -/
theorem replayed_run_of_notMem (h : values.Holds lobby) (hr : r ∉ lobby.ids)
    (calls : List (Call × Faults)) :
    (snapshots r values calls = [] ∧ plays r values calls = []) ∨
      ∃ player1 player2 rooms stored, Call.createRoom player1 player2 ∈ calls.map Prod.fst ∧
        Replayed (.create r player1 player2) (plays r values calls) stored rooms ∧
        snapshots r values calls = (GameRoom.create r player1 player2).snapshot :: stored := by
  induction calls generalizing values lobby with
  | nil => exact .inl ⟨rfl, rfl⟩
  | cons c calls ih =>
      obtain ⟨result, values', lobby', hcall, h', heffect⟩ := call_serves h c.2 c.1
      simp only [plays, snapshots, hcall]
      by_cases hr' : r ∈ lobby'.ids
      · obtain ⟨player1, player2, hc, hroom⟩ := heffect.new_cases hr hr'
        obtain ⟨rooms, hrooms⟩ := replayed_run h' hr' calls
        have hkey : values' (roomKey r) ≠ values (roomKey r) := by
          rw [h.room_of_notMem hr, h'.room_of_mem hr']
          exact Option.some_ne_none _
        rw [if_neg hkey, if_neg hkey, h'.room_of_mem hr', hc, hroom]
        rw [hroom] at hrooms
        exact .inr ⟨player1, player2, rooms, snapshots r values' calls, by simp [hc], hrooms, rfl⟩
      · have hkey : values' (roomKey r) = values (roomKey r) := by
          rw [h.room_of_notMem hr, h'.room_of_notMem hr']
        rw [if_pos hkey, if_pos hkey, List.nil_append, List.nil_append]
        refine (ih h' hr').imp_right ?_
        rintro ⟨player1, player2, rooms, stored, hmem, hrooms⟩
        exact ⟨player1, player2, rooms, stored, List.mem_cons_of_mem _ hmem, hrooms⟩

theorem Replayed.nodup {room : GameRoom} {ps : List Play} {stored : List Json}
    {rooms : List GameRoom} (h : Replayed room ps stored rooms) :
    (room.snapshot :: stored).Nodup := by
  rw [h.stored, ← List.map_cons]
  refine List.Nodup.map (fun _ _ ↦ GameRoom.snapshot_injective) ?_
  exact h.later.imp fun hlater ↦ hlater.ne

/-- A game that is over stays as it is. -/
theorem run_of_over (h : values.Holds lobby) (hr : r ∈ lobby.ids)
    (hover : (lobby.room r).gameOver = true) (calls : List (Call × Faults)) :
    ∃ values', run values calls = some values' ∧ values' (roomKey r) = values (roomKey r) := by
  induction calls generalizing values lobby with
  | nil => exact ⟨values, rfl, rfl⟩
  | cons c calls ih =>
      obtain ⟨result, values', lobby', hcall, h', heffect⟩ := call_serves h c.2 c.1
      obtain ⟨hr', hcases⟩ := heffect.room_cases hr
      have hsame : lobby'.room r = lobby.room r := by
        rcases hcases with hsame | ⟨p, -, -, hgoesOn, -⟩
        · exact hsame
        · rw [hover] at hgoesOn
          exact absurd hgoesOn (by simp)
      obtain ⟨values'', hrun, hkey⟩ := ih h' hr' (hsame ▸ hover)
      refine ⟨values'', ?_, ?_⟩
      · rw [run, List.foldlM_cons, hcall]
        exact hrun
      · rw [hkey, h.room_of_mem hr, h'.room_of_mem hr', hsame]

/-- A move that is carried out changes the room. -/
theorem Effect.move_ne (h : values.Holds lobby) (h' : values'.Holds lobby') {playerId x y : ℤ}
    (heffect : Effect values lobby (.move r playerId x y) result values' lobby')
    (hok : result.status = .ok) : values' (roomKey r) ≠ values (roomKey r) := by
  cases heffect with
  | refused _ _ hstatus => exact absurd hok hstatus
  | moved s playerId x y room _ _ hr _ hplayed hroomId =>
      have hnew := h'.room_of_mem (r := r) hr
      rw [h.room_of_mem hr, hnew]
      intro heq
      have hrooms := GameRoom.snapshot_injective (Option.some.inj heq)
      have hroom : (lobby.set r room hroomId hplayed.wellFormed).room r = room :=
        Function.update_self _ _ _
      have hcount := hplayed.moveCount
      rw [← hrooms, hroom] at hcount
      omega

/-- After any calls, with any faults of the store, the snapshots stored for a
room are, without repetition, those of one room object that takes the plays of
the calls and at most one forfeit.  Whatever the next call is: refused, it
changes nothing; of unknown outcome, it changes nothing or does what it does when
the store works; carried out, it returns what is stored now; and a game that is
over stays as it is from then on. -/
theorem stored_game_refines (calls : List (Call × Faults)) :
    ∃ values, run .empty calls = some values ∧
      (∀ r, snapshots r .empty calls = [] ∨
        ∃ player1 player2 rooms, Call.createRoom player1 player2 ∈ calls.map Prod.fst ∧
          (GameRoom.create r player1 player2).playAll (plays r .empty calls) = some rooms ∧
          snapshots r .empty calls = rooms.map GameRoom.snapshot ∧
          (snapshots r .empty calls).Nodup ∧
          (plays r .empty calls).countP Play.isForfeit ≤ 1) ∧
      (∀ faults c, ∃ result values', call values faults c = some (result, values') ∧
        (result.status ≠ .ok → result.status ≠ .unavailable → values' = values) ∧
        (result.status = .unavailable → values' = values ∨
          ∃ snapshot, call values .none c = some (⟨.ok, snapshot⟩, values')) ∧
        (result.status = .ok → ∃ r, c.roomId?.getD r = r ∧
          result.snapshot.at? "roomId" = some (.integer r) ∧
          values' (roomKey r) = some result.snapshot) ∧
        (∀ r playerId x y, c = .move r playerId x y → result.status = .ok →
          values' (roomKey r) ≠ values (roomKey r))) ∧
      ∀ r snapshot, values (roomKey r) = some snapshot →
        snapshot.at? "gameOver" = some (.boolean true) →
        ∀ later, ∃ values', run values later = some values' ∧
          values' (roomKey r) = some snapshot := by
  obtain ⟨values, lobby, hrun, h, -⟩ := run_holds Values.holds_empty calls
  refine ⟨values, hrun, fun r ↦ ?_, fun faults c ↦ ?_, fun r snapshot hsnapshot hover later ↦ ?_⟩
  · have hr : r ∉ Lobby.empty.ids := List.not_mem_nil
    rcases replayed_run_of_notMem Values.holds_empty hr calls with
      ⟨hnone, -⟩ | ⟨player1, player2, rooms, stored, hcreated, hreplayed, hsnapshots⟩
    · exact .inl hnone
    · refine .inr ⟨player1, player2, _, hcreated, hreplayed.played, ?_, ?_, hreplayed.once⟩
      · rw [hsnapshots, hreplayed.stored, List.map_cons]
      · rw [hsnapshots]
        exact hreplayed.nodup
  · obtain ⟨result, values', lobby', hcall, h', heffect⟩ := call_serves h faults c
    refine ⟨result, values', hcall, heffect.unchanged, fun _ ↦ call_advances h faults c _ _ hcall,
      heffect.stored h', ?_⟩
    rintro r playerId x y rfl hok
    exact heffect.move_ne h h' hok
  · have hr := h.mem_of_room hsnapshot
    rw [h.room_of_mem hr] at hsnapshot
    cases Option.some.inj hsnapshot
    rw [GameRoom.at?_gameOver_snapshot] at hover
    simp only [Option.some.injEq, Json.boolean.injEq] at hover
    rw [← h.room_of_mem hr]
    exact run_of_over h hr hover later

end PvpGameService

end HttpRaftKv.Gomoku
