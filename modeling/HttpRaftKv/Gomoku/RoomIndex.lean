import HttpRaftKv.Gomoku.Lobby

/-!
# The index of the active rooms

Whatever calls are made and however the store fails, the list of the active
rooms has exactly the rooms whose game goes on, every room is stored under its
own number, and a recovery finds the games that go on in the order in which
they were created.
-/

namespace HttpRaftKv.Gomoku.PvpGameService

/-- The room that a step has stored under the next number, if there is one. -/
def newRoom (values values' : Values) : List ℤ :=
  let roomId := match values nextRoomIdKey with
    | some next => next.getInt?.getD 1
    | none => 1
  if (values (roomKey roomId)).isNone && (values' (roomKey roomId)).isSome then [roomId] else []

/-- The rooms that a run creates, in the order of their creation. -/
def created (values : Values) : List (Call × Faults) → List ℤ
  | [] => []
  | c :: calls =>
      match call values c.2 c.1 with
      | none => []
      | some (_, values') => newRoom values values' ++ created values' calls

/-- The snapshot of a room whose game goes on. -/
def unfinished (values : Values) (r : ℤ) : Option Json :=
  match values (roomKey r) with
  | some snapshot =>
      match snapshot.at? "gameOver" with
      | some (.boolean false) => some snapshot
      | _ => none
  | none => none

variable {values values' : Values} {lobby lobby' : Lobby}

theorem nextRoomId_eq (h : values.Holds lobby) :
    (match values nextRoomIdKey with
      | some next => next.getInt?.getD 1
      | none => 1) = (lobby.count : ℤ) + 1 := by
  rw [h.next]
  by_cases hcount : lobby.count = 0
  · simp [hcount]
  · simp [hcount, Json.getInt?]

theorem newRoom_eq (h : values.Holds lobby) (h' : values'.Holds lobby') :
    newRoom values values' =
      if (lobby.count : ℤ) + 1 ∈ lobby'.ids then [(lobby.count : ℤ) + 1] else [] := by
  have hnew : values (roomKey (lobby.count + 1)) = none :=
    h.room_of_notMem (notMem_roomIds_self _)
  unfold newRoom
  simp only [nextRoomId_eq h, hnew, Option.isNone_none, Bool.true_and]
  rw [h'.room]
  by_cases hmem : (lobby.count : ℤ) + 1 ∈ lobby'.ids
  · simp [hmem]
  · simp [hmem]

theorem newRoom_eq_nil (h : values.Holds lobby) (h' : values'.Holds lobby')
    (hids : lobby'.ids = lobby.ids) : newRoom values values' = [] := by
  have hmem : (lobby.count : ℤ) + 1 ∉ lobby'.ids := by
    rw [hids]
    exact notMem_roomIds_self lobby.count
  rw [newRoom_eq h h', if_neg hmem]

/-- A call creates one room or none. -/
theorem Effect.ids {c : Call} {result : PvpGameResult} (heffect : Effect values lobby c result
    values' lobby') (h : values.Holds lobby) (h' : values'.Holds lobby') :
    lobby'.ids = lobby.ids ++ newRoom values values' := by
  cases heffect with
  | created player1 player2 =>
      have hids : (lobby.add player1 player2).ids = lobby.ids ++ [(lobby.count : ℤ) + 1] :=
        roomIds_succ lobby.count
      rw [newRoom_eq h h', hids, if_pos (by simp)]
  | refused => rw [newRoom_eq_nil h h' rfl, List.append_nil]
  | loaded => rw [newRoom_eq_nil h h' rfl, List.append_nil]
  | moved =>
      rw [newRoom_eq_nil h h' rfl, List.append_nil]
      rfl
  | finished =>
      rw [newRoom_eq_nil h h' rfl, List.append_nil]
      rfl

/-- A run from a store that holds rooms ends in one, and the new rooms stand
behind the old ones. -/
theorem run_holds (h : values.Holds lobby) (calls : List (Call × Faults)) :
    ∃ values' lobby', run values calls = some values' ∧ values'.Holds lobby' ∧
      lobby'.ids = lobby.ids ++ created values calls := by
  induction calls generalizing values lobby with
  | nil => exact ⟨values, lobby, rfl, h, (List.append_nil _).symm⟩
  | cons c calls ih =>
      obtain ⟨result, values₁, lobby₁, hcall, h₁, heffect⟩ := call_serves h c.2 c.1
      obtain ⟨values', lobby', hrun, h', hids⟩ := ih h₁
      refine ⟨values', lobby', ?_, h', ?_⟩
      · rw [← hrun]
        simp [run, hcall]
      · rw [hids, heffect.ids h h₁, created, hcall, List.append_assoc]

theorem recoverRoom_eq (h : values.Holds lobby) {r : ℤ} (hr : r ∈ lobby.activeIds) :
    recoverRoom values false (.integer r) = some [(lobby.room r).snapshot] := by
  obtain ⟨hmem, hgoesOn⟩ := List.mem_filter.mp hr
  simp only [Bool.not_eq_true'] at hgoesOn
  simp [recoverRoom, Json.getInt?, loadLocked_of_mem h hmem, GameRoom.at?_gameOver_snapshot,
    Json.getBool?, hgoesOn]

theorem recoverRooms_eq (h : values.Holds lobby) {faults : Faults}
    (hloads : ∀ k, faults.load k = false) (ids : List ℤ) (hids : ∀ r ∈ ids, r ∈ lobby.activeIds)
    (k : ℕ) : recoverRooms values faults k (ids.map .integer) =
      some (ids.map fun r ↦ (lobby.room r).snapshot) := by
  induction ids generalizing k with
  | nil => rfl
  | cons r ids ih =>
      have hr := recoverRoom_eq h (hids r List.mem_cons_self)
      have hrest := ih (fun s hs ↦ hids s (List.mem_cons_of_mem r hs)) (k + 1)
      simp [recoverRooms, hloads, hr, hrest]

theorem recoverActiveRooms_eq (h : values.Holds lobby) {faults : Faults}
    (hloads : ∀ k, faults.load k = false) :
    recoverActiveRooms values faults = lobby.activeIds.map fun r ↦ (lobby.room r).snapshot := by
  unfold recoverActiveRooms Values.tryLoad Values.load
  rw [hloads 0, if_neg Bool.false_ne_true, h.active]
  by_cases hcount : lobby.count = 0
  · simp [hcount, Lobby.activeIds, Lobby.ids, roomIds]
  · rw [if_neg hcount]
    simp [Json.getArray?, recoverRooms_eq h hloads lobby.activeIds (fun _ hr ↦ hr)]

theorem unfinished_eq (h : values.Holds lobby) {r : ℤ} (hr : r ∈ lobby.ids) :
    unfinished values r =
      if (lobby.room r).gameOver then none else some (lobby.room r).snapshot := by
  rw [unfinished, h.room_of_mem hr]
  cases hover : (lobby.room r).gameOver with
  | true => simp [GameRoom.at?_gameOver_snapshot, hover]
  | false => simp [GameRoom.at?_gameOver_snapshot, hover]

theorem filterMap_unfinished (h : values.Holds lobby) :
    lobby.ids.filterMap (unfinished values) =
      lobby.activeIds.map fun r ↦ (lobby.room r).snapshot := by
  have hids : ∀ r ∈ lobby.ids, unfinished values r =
      if (lobby.room r).gameOver then none else some (lobby.room r).snapshot :=
    fun r hr ↦ unfinished_eq h hr
  unfold Lobby.activeIds
  generalize lobby.ids = ids at hids
  induction ids with
  | nil => rfl
  | cons r ids ih =>
      have hr := hids r List.mem_cons_self
      have hrest := ih fun s hs ↦ hids s (List.mem_cons_of_mem r hs)
      cases hover : (lobby.room r).gameOver with
      | true => simp_all
      | false => simp_all

theorem mem_activeIds_iff (h : values.Holds lobby) (r : ℤ) :
    r ∈ lobby.activeIds ↔ ∃ snapshot, values (roomKey r) = some snapshot ∧
      snapshot.at? "gameOver" = some (.boolean false) := by
  constructor
  · intro hr
    obtain ⟨hmem, hgoesOn⟩ := List.mem_filter.mp hr
    simp only [Bool.not_eq_true'] at hgoesOn
    exact ⟨_, h.room_of_mem hmem, by rw [GameRoom.at?_gameOver_snapshot, hgoesOn]⟩
  · rintro ⟨snapshot, hsnapshot, hgoesOn⟩
    by_cases hmem : r ∈ lobby.ids
    · rw [h.room_of_mem hmem] at hsnapshot
      cases Option.some.inj hsnapshot
      rw [GameRoom.at?_gameOver_snapshot] at hgoesOn
      simp only [Option.some.injEq, Json.boolean.injEq] at hgoesOn
      exact List.mem_filter.mpr ⟨hmem, by simp [hgoesOn]⟩
    · rw [h.room_of_notMem hmem] at hsnapshot
      simp at hsnapshot

/-- After any calls, with any faults of the store, the list of the active rooms
is free of duplicates and has exactly the rooms whose game goes on; every room
is stored under its own number, which is below the next one; and a recovery
whose loads all succeed returns the snapshots of the rooms whose game goes on,
each once, in the order of creation. -/
theorem room_index_consistent (calls : List (Call × Faults)) :
    ∃ values, run .empty calls = some values ∧
      (∃ ids : List ℤ,
        values activeRoomIdsKey =
          (if ids = [] ∧ created .empty calls = [] then none
            else some (.array (ids.map .integer))) ∧
        ids.Nodup ∧
        ∀ r, r ∈ ids ↔ ∃ snapshot, values (roomKey r) = some snapshot ∧
          snapshot.at? "gameOver" = some (.boolean false)) ∧
      (∀ r snapshot, values (roomKey r) = some snapshot →
        snapshot.at? "roomId" = some (.integer r) ∧
        ∃ next, values nextRoomIdKey = some (.integer next) ∧ r < next) ∧
      (created .empty calls).Nodup ∧
      (∀ r, r ∈ created .empty calls ↔ (values (roomKey r)).isSome) ∧
      ∀ faults : Faults, (∀ k, faults.load k = false) →
        recoverActiveRooms values faults =
          (created .empty calls).filterMap (unfinished values) := by
  obtain ⟨values, lobby, hrun, h, hids⟩ := run_holds Values.holds_empty calls
  have hcreated : created .empty calls = lobby.ids := hids.symm
  rw [hcreated]
  refine ⟨values, hrun, ⟨lobby.activeIds, ?_, ?_, mem_activeIds_iff h⟩, ?_, ?_, ?_, ?_⟩
  · rw [h.active]
    refine if_congr ⟨fun hcount ↦ ?_, fun hempty ↦ ?_⟩ rfl rfl
    · simp [Lobby.activeIds, Lobby.ids, roomIds, hcount]
    · simpa [Lobby.ids, roomIds] using hempty.2
  · exact (nodup_roomIds lobby.count).filter _
  · intro r snapshot hsnapshot
    by_cases hmem : r ∈ lobby.ids
    · rw [h.room_of_mem hmem] at hsnapshot
      cases Option.some.inj hsnapshot
      refine ⟨by rw [GameRoom.at?_roomId_snapshot, lobby.roomId r hmem], lobby.count + 1, ?_, ?_⟩
      · rw [h.next, if_neg (Values.count_ne_zero_of_mem hmem)]
      · have := mem_roomIds.mp hmem
        omega
    · rw [h.room_of_notMem hmem] at hsnapshot
      simp at hsnapshot
  · exact nodup_roomIds lobby.count
  · intro r
    rw [h.room]
    by_cases hmem : r ∈ lobby.ids
    · simp [hmem]
    · simp [hmem]
  · intro faults hloads
    rw [recoverActiveRooms_eq h hloads, filterMap_unfinished h]

end HttpRaftKv.Gomoku.PvpGameService
