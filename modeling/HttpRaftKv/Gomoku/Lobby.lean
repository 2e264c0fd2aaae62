import HttpRaftKv.Gomoku.PvpGameService
import HttpRaftKv.Gomoku.Rules
import Mathlib

/-!
# The rooms behind the store

The rooms that have been created are numbered from one.  A store holds them if
it has the snapshot of every room under its key, the numbers of the rooms whose
game goes on in the order of their creation, and the next number.  Every call of
the service keeps this, whatever the store does during the call, and it does one
thing to the rooms or nothing.
-/

namespace HttpRaftKv.Gomoku

namespace PvpGameService

inductive Call
  | createRoom (player1 player2 : ℤ)
  | load (roomId : ℤ)
  | move (roomId playerId x y : ℤ)
  | finish (roomId winnerId : ℤ)
deriving DecidableEq, Repr

def call (values : Values) (faults : Faults) : Call → Option (PvpGameResult × Values)
  | .createRoom player1 player2 => createRoom values faults player1 player2
  | .load roomId => some (load values faults roomId, values)
  | .move roomId playerId x y => move values faults roomId playerId x y
  | .finish roomId winnerId => some (finish values faults roomId winnerId)

/-- The store after a sequence of calls, each with the faults of the store
during the call. -/
def run (values : Values) (calls : List (Call × Faults)) : Option Values :=
  calls.foldlM (fun values c ↦ (call values c.2 c.1).map Prod.snd) values

theorem run_snoc (values : Values) (calls : List (Call × Faults)) (c : Call × Faults) :
    run values (calls ++ [c]) =
      (run values calls).bind fun values ↦ (call values c.2 c.1).map Prod.snd := by
  simp [run, List.foldlM_append]

/-! ## Keys -/

theorem roomKey_injective : Function.Injective roomKey := by
  intro r s h
  have hrepr : toString r = toString s := by
    simpa [roomKey, String.ext_iff] using h
  exact Int.repr_injective (by simpa using hrepr)

theorem roomKey_ne_activeRoomIdsKey (roomId : ℤ) : roomKey roomId ≠ activeRoomIdsKey := by
  intro h
  have hchars := congrArg String.toList h
  simp [roomKey, activeRoomIdsKey] at hchars

theorem roomKey_ne_nextRoomIdKey (roomId : ℤ) : roomKey roomId ≠ nextRoomIdKey := by
  intro h
  have hchars := congrArg String.toList h
  simp [roomKey, nextRoomIdKey] at hchars

theorem activeRoomIdsKey_ne_nextRoomIdKey : activeRoomIdsKey ≠ nextRoomIdKey := by
  decide

end PvpGameService

/-! ## Rooms by number -/

/-- The numbers of the first `count` rooms, in the order of their creation. -/
def roomIds (count : ℕ) : List ℤ :=
  (List.range count).map fun k : ℕ ↦ (k : ℤ) + 1

theorem mem_roomIds {count : ℕ} {r : ℤ} : r ∈ roomIds count ↔ 0 < r ∧ r ≤ count := by
  constructor
  · intro h
    obtain ⟨k, hk, rfl⟩ := List.mem_map.mp h
    rw [List.mem_range] at hk
    omega
  · rintro ⟨hpos, hle⟩
    exact List.mem_map.mpr ⟨(r - 1).toNat, by rw [List.mem_range]; omega, by omega⟩

theorem roomIds_succ (count : ℕ) : roomIds (count + 1) = roomIds count ++ [(count : ℤ) + 1] := by
  simp [roomIds, List.range_succ]

theorem nodup_roomIds (count : ℕ) : (roomIds count).Nodup :=
  List.nodup_range.map fun _ _ h ↦ by simpa using h

theorem notMem_roomIds_self (count : ℕ) : (count : ℤ) + 1 ∉ roomIds count := by
  rw [mem_roomIds]
  omega

/-- The rooms that have been created. -/
structure Lobby where
  count : ℕ
  room : ℤ → GameRoom
  roomId : ∀ r ∈ roomIds count, (room r).roomId = r
  wellFormed : ∀ r ∈ roomIds count, (room r).WellFormed

namespace Lobby

def ids (lobby : Lobby) : List ℤ :=
  roomIds lobby.count

/-- The rooms whose game goes on. -/
def activeIds (lobby : Lobby) : List ℤ :=
  lobby.ids.filter fun r ↦ !(lobby.room r).gameOver

def empty : Lobby where
  count := 0
  room := fun r ↦ .create r 0 0
  roomId := fun _ _ ↦ rfl
  wellFormed := fun r _ ↦ GameRoom.wellFormed_create r 0 0

def add (lobby : Lobby) (player1 player2 : ℤ) : Lobby where
  count := lobby.count + 1
  room := Function.update lobby.room (lobby.count + 1)
    (.create (lobby.count + 1) player1 player2)
  roomId := by
    intro r hr
    rw [roomIds_succ, List.mem_append, List.mem_singleton] at hr
    rcases hr with hr | rfl
    · rw [Function.update_of_ne (ne_of_mem_of_not_mem hr (notMem_roomIds_self _))]
      exact lobby.roomId r hr
    · rw [Function.update_self]
      rfl
  wellFormed := by
    intro r hr
    rw [roomIds_succ, List.mem_append, List.mem_singleton] at hr
    rcases hr with hr | rfl
    · rw [Function.update_of_ne (ne_of_mem_of_not_mem hr (notMem_roomIds_self _))]
      exact lobby.wellFormed r hr
    · rw [Function.update_self]
      exact GameRoom.wellFormed_create _ _ _

def set (lobby : Lobby) (r : ℤ) (room : GameRoom) (hroomId : room.roomId = r)
    (hwellFormed : room.WellFormed) : Lobby where
  count := lobby.count
  room := Function.update lobby.room r room
  roomId := by
    intro s hs
    by_cases h : s = r
    · subst h
      rw [Function.update_self]
      exact hroomId
    · rw [Function.update_of_ne h]
      exact lobby.roomId s hs
  wellFormed := by
    intro s hs
    by_cases h : s = r
    · subst h
      rw [Function.update_self]
      exact hwellFormed
    · rw [Function.update_of_ne h]
      exact lobby.wellFormed s hs

variable {lobby : Lobby} {r : ℤ}

theorem room_add_of_mem (hr : r ∈ lobby.ids) (player1 player2 : ℤ) :
    (lobby.add player1 player2).room r = lobby.room r :=
  Function.update_of_ne (ne_of_mem_of_not_mem hr (notMem_roomIds_self _)) _ _

@[simp] theorem room_add_self (lobby : Lobby) (player1 player2 : ℤ) :
    (lobby.add player1 player2).room (lobby.count + 1) =
      .create (lobby.count + 1) player1 player2 :=
  Function.update_self _ _ _

theorem activeIds_add (lobby : Lobby) (player1 player2 : ℤ) :
    (lobby.add player1 player2).activeIds = lobby.activeIds ++ [(lobby.count : ℤ) + 1] := by
  have hold : ∀ r ∈ roomIds lobby.count,
      (!((lobby.add player1 player2).room r).gameOver) = !(lobby.room r).gameOver := by
    intro r hr
    rw [room_add_of_mem hr]
  change (roomIds (lobby.count + 1)).filter _ = _
  rw [roomIds_succ, List.filter_append, List.filter_congr hold]
  simp [activeIds, ids, GameRoom.create]

/-- A move in a game that goes on leaves the list of the active rooms as it is. -/
theorem activeIds_set_of_goesOn {room : GameRoom} {hroomId : room.roomId = r}
    {hwellFormed : room.WellFormed} (hbefore : (lobby.room r).gameOver = false)
    (hafter : room.gameOver = false) :
    (lobby.set r room hroomId hwellFormed).activeIds = lobby.activeIds := by
  apply List.filter_congr
  intro s _
  by_cases h : s = r
  · simp [set, h, hbefore, hafter]
  · simp [set, h]

/-- A room whose game is over is taken out of the list. -/
theorem activeIds_set_of_over {room : GameRoom} {hroomId : room.roomId = r}
    {hwellFormed : room.WellFormed} (hafter : room.gameOver = true) :
    (lobby.set r room hroomId hwellFormed).activeIds = lobby.activeIds.filter (· ≠ r) := by
  change (roomIds lobby.count).filter _ = List.filter _ ((roomIds lobby.count).filter _)
  rw [List.filter_filter]
  apply List.filter_congr
  intro s _
  by_cases h : s = r
  · simp [set, h, hafter]
  · simp [set, h]

end Lobby

/-! ## The store and the rooms -/

open PvpGameService

/-- The store holds the rooms. -/
structure Values.Holds (values : Values) (lobby : Lobby) : Prop where
  room : ∀ r, values (roomKey r) = if r ∈ lobby.ids then some (lobby.room r).snapshot else none
  active : values activeRoomIdsKey =
    if lobby.count = 0 then none else some (.array (lobby.activeIds.map .integer))
  next : values nextRoomIdKey =
    if lobby.count = 0 then none else some (.integer (lobby.count + 1))

namespace Values

variable {values : Values} {lobby : Lobby} {r : ℤ}

theorem holds_empty : empty.Holds .empty where
  room := fun r ↦ by
    have hr : r ∉ Lobby.empty.ids := List.not_mem_nil
    rw [if_neg hr]
    rfl
  active := rfl
  next := rfl

theorem Holds.room_of_mem (h : values.Holds lobby) (hr : r ∈ lobby.ids) :
    values (roomKey r) = some (lobby.room r).snapshot :=
  (h.room r).trans (if_pos hr)

theorem Holds.room_of_notMem (h : values.Holds lobby) (hr : r ∉ lobby.ids) :
    values (roomKey r) = none :=
  (h.room r).trans (if_neg hr)

theorem Holds.mem_of_room (h : values.Holds lobby) {snapshot : Json}
    (hsnapshot : values (roomKey r) = some snapshot) : r ∈ lobby.ids := by
  by_contra hr
  rw [h.room_of_notMem hr] at hsnapshot
  exact absurd hsnapshot (by simp)

theorem count_ne_zero_of_mem (hr : r ∈ lobby.ids) : lobby.count ≠ 0 := by
  have := mem_roomIds.mp hr
  omega

theorem Holds.active_of_mem (h : values.Holds lobby) (hr : r ∈ lobby.ids) :
    values activeRoomIdsKey = some (.array (lobby.activeIds.map .integer)) :=
  h.active.trans (if_neg (count_ne_zero_of_mem hr))

theorem Holds.add (h : values.Holds lobby) (player1 player2 : ℤ) :
    (values.replace [
      (roomKey (lobby.count + 1), (GameRoom.create (lobby.count + 1) player1 player2).snapshot),
      (activeRoomIdsKey, .array (lobby.activeIds.map .integer ++ [.integer (lobby.count + 1)])),
      (nextRoomIdKey, .integer (lobby.count + 1 + 1))]).Holds (lobby.add player1 player2) where
  room := by
    intro r
    simp only [replace_cons, replace_nil]
    rw [Function.update_of_ne (roomKey_ne_nextRoomIdKey r),
      Function.update_of_ne (roomKey_ne_activeRoomIdsKey r)]
    by_cases hr : r = lobby.count + 1
    · subst hr
      have hmem : (lobby.count : ℤ) + 1 ∈ (lobby.add player1 player2).ids := by
        simp [Lobby.ids, Lobby.add, roomIds_succ]
      rw [Function.update_self, if_pos hmem, Lobby.room_add_self]
    · have hids : r ∈ (lobby.add player1 player2).ids ↔ r ∈ lobby.ids := by
        simp [Lobby.ids, Lobby.add, roomIds_succ, hr]
      rw [Function.update_of_ne (roomKey_injective.ne hr), h.room, if_congr hids rfl rfl]
      by_cases hmem : r ∈ lobby.ids
      · rw [if_pos hmem, if_pos hmem, Lobby.room_add_of_mem hmem]
      · rw [if_neg hmem, if_neg hmem]
  active := by
    have hcount : (lobby.add player1 player2).count ≠ 0 := Nat.succ_ne_zero _
    simp only [replace_cons, replace_nil]
    rw [Function.update_of_ne activeRoomIdsKey_ne_nextRoomIdKey, Function.update_self,
      Lobby.activeIds_add, if_neg hcount, List.map_append, List.map_singleton]
  next := by
    simp [Lobby.add]

/-- The snapshot of a room is replaced. -/
theorem Holds.room_update (h : values.Holds lobby) (hr : r ∈ lobby.ids) (room : GameRoom)
    (hroomId : room.roomId = r) (hwellFormed : room.WellFormed) (s : ℤ) :
    Function.update values (roomKey r) (some room.snapshot) (roomKey s) =
      if s ∈ (lobby.set r room hroomId hwellFormed).ids then
        some ((lobby.set r room hroomId hwellFormed).room s).snapshot
      else none := by
  by_cases hs : s = r
  · subst hs
    have hmem : s ∈ (lobby.set s room hroomId hwellFormed).ids := hr
    rw [Function.update_self, if_pos hmem]
    simp [Lobby.set]
  · have hroom : (lobby.set r room hroomId hwellFormed).room s = lobby.room s :=
      Function.update_of_ne hs _ _
    rw [Function.update_of_ne (roomKey_injective.ne hs), h.room, hroom]
    rfl

theorem Holds.set_of_goesOn (h : values.Holds lobby) (hr : r ∈ lobby.ids) {room : GameRoom}
    (hroomId : room.roomId = r) (hwellFormed : room.WellFormed)
    (hbefore : (lobby.room r).gameOver = false) (hafter : room.gameOver = false) :
    (values.replace [(roomKey r, room.snapshot)]).Holds
      (lobby.set r room hroomId hwellFormed) where
  room := h.room_update hr room hroomId hwellFormed
  active := by
    simp only [replace_cons, replace_nil]
    rw [Function.update_of_ne (roomKey_ne_activeRoomIdsKey r).symm, h.active,
      Lobby.activeIds_set_of_goesOn hbefore hafter]
    rfl
  next := by
    simp only [replace_cons, replace_nil]
    rw [Function.update_of_ne (roomKey_ne_nextRoomIdKey r).symm, h.next]
    rfl

theorem filter_map_integer (ids : List ℤ) (r : ℤ) :
    (ids.map Json.integer).filter (fun id ↦ !id.eqInt r) =
      (ids.filter (· ≠ r)).map Json.integer := by
  rw [List.filter_map]
  congr 1
  apply List.filter_congr
  simp [Json.eqInt]

theorem Holds.set_of_over (h : values.Holds lobby) (hr : r ∈ lobby.ids) {room : GameRoom}
    (hroomId : room.roomId = r) (hwellFormed : room.WellFormed) (hafter : room.gameOver = true) :
    (values.replace [
      (roomKey r, room.snapshot),
      (activeRoomIdsKey,
        .array ((lobby.activeIds.map .integer).filter fun id ↦ !id.eqInt r))]).Holds
      (lobby.set r room hroomId hwellFormed) where
  room := by
    intro s
    simp only [replace_cons, replace_nil]
    rw [Function.update_of_ne (roomKey_ne_activeRoomIdsKey s)]
    exact h.room_update hr room hroomId hwellFormed s
  active := by
    have hcount : (lobby.set r room hroomId hwellFormed).count ≠ 0 := count_ne_zero_of_mem hr
    simp only [replace_cons, replace_nil]
    rw [Function.update_self, if_neg hcount, Lobby.activeIds_set_of_over hafter,
      filter_map_integer]
  next := by
    simp only [replace_cons, replace_nil]
    rw [Function.update_of_ne activeRoomIdsKey_ne_nextRoomIdKey.symm,
      Function.update_of_ne (roomKey_ne_nextRoomIdKey r).symm, h.next]
    rfl

end Values

/-! ## What a call does -/

/-- `finish` on a room: a game that is over stays as it is. -/
def GameRoom.closed (room : GameRoom) (winnerId : ℤ) : GameRoom :=
  if !room.gameOver then room.forfeit winnerId else room

theorem GameRoom.closed_gameOver (room : GameRoom) (winnerId : ℤ) :
    (room.closed winnerId).gameOver = true := by
  cases h : room.gameOver with
  | true => simp [closed, h]
  | false => simp [closed, h, forfeit]

theorem GameRoom.closed_roomId (room : GameRoom) (winnerId : ℤ) :
    (room.closed winnerId).roomId = room.roomId := by
  cases h : room.gameOver with
  | true => simp [closed, h]
  | false => simp [closed, h, forfeit]

theorem GameRoom.WellFormed.closed {room : GameRoom} (h : room.WellFormed) (winnerId : ℤ) :
    (room.closed winnerId).WellFormed := by
  apply h.congr
  cases hover : room.gameOver with
  | true => simp [GameRoom.closed, hover]
  | false => simp [GameRoom.closed, hover, forfeit]

/-- A write was committed: the caller is told so and gets the new snapshot, or
is told that it failed. -/
def Reports (result : PvpGameResult) (snapshot : Json) : Prop :=
  result = ⟨.ok, snapshot⟩ ∨ result.status = .unavailable

namespace PvpGameService

/-- What a call returns, and what it makes of the values and of the rooms. -/
inductive Effect (values : Values) (lobby : Lobby) :
    Call → PvpGameResult → Values → Lobby → Prop
  | refused (c : Call) (result : PvpGameResult) (hstatus : result.status ≠ .ok) :
      Effect values lobby c result values lobby
  | loaded (r : ℤ) (hr : r ∈ lobby.ids) :
      Effect values lobby (.load r) ⟨.ok, (lobby.room r).snapshot⟩ values lobby
  | created (player1 player2 : ℤ) (result : PvpGameResult) (values' : Values)
      (hresult : Reports result (GameRoom.create (lobby.count + 1) player1 player2).snapshot) :
      Effect values lobby (.createRoom player1 player2) result values' (lobby.add player1 player2)
  | moved (r playerId x y : ℤ) (room : GameRoom) (result : PvpGameResult) (values' : Values)
      (hr : r ∈ lobby.ids) (hmove : (lobby.room r).makeMove playerId x y = some (.ok, room))
      (hplayed : (lobby.room r).Played room) (hroomId : room.roomId = r)
      (hresult : Reports result room.snapshot) :
      Effect values lobby (.move r playerId x y) result values'
        (lobby.set r room hroomId hplayed.wellFormed)
  | finished (r winnerId : ℤ) (result : PvpGameResult) (values' : Values) (hr : r ∈ lobby.ids)
      (hroomId : ((lobby.room r).closed winnerId).roomId = r)
      (hwellFormed : ((lobby.room r).closed winnerId).WellFormed)
      (hresult : Reports result ((lobby.room r).closed winnerId).snapshot) :
      Effect values lobby (.finish r winnerId) result values'
        (lobby.set r ((lobby.room r).closed winnerId) hroomId hwellFormed)

variable {values : Values} {lobby : Lobby} {r : ℤ}

theorem loadLocked_of_mem (h : values.Holds lobby) (hr : r ∈ lobby.ids) :
    loadLocked values false r = ⟨.ok, (lobby.room r).snapshot⟩ := by
  simp [loadLocked, Values.tryLoad, Values.load, h.room_of_mem hr]

/-- A room is loaded, or the call ends here. -/
theorem loadLocked_cases (h : values.Holds lobby) (fails : Bool) (r : ℤ) :
    (r ∈ lobby.ids ∧ loadLocked values fails r = ⟨.ok, (lobby.room r).snapshot⟩) ∨
      (loadLocked values fails r).status ≠ .ok := by
  cases fails with
  | true => exact .inr (by simp [loadLocked, Values.tryLoad])
  | false =>
      by_cases hr : r ∈ lobby.ids
      · exact .inl ⟨hr, loadLocked_of_mem h hr⟩
      · exact .inr (by simp [loadLocked, Values.tryLoad, Values.load, h.room_of_notMem hr])

/-- A write is refused, or it puts the records in place. -/
def Written (values : Values) (snapshot : Json) (records : Records)
    (answer : PvpGameResult × Values) : Prop :=
  (answer.1.status ≠ .ok ∧ answer.2 = values) ∨
    (Reports answer.1 snapshot ∧ answer.2 = values.replace records)

theorem storeRoom_written (values : Values) (outcome : WriteOutcome) (r : ℤ) (snapshot : Json)
    (ids : List Json) :
    Written values snapshot [
        (roomKey r, snapshot),
        (activeRoomIdsKey, .array (ids ++ [.integer r])),
        (nextRoomIdKey, .integer (r + 1))]
      (storeRoom values outcome r snapshot ids) := by
  cases outcome with
  | committed => exact .inr ⟨.inl rfl, rfl⟩
  | refused => exact .inl ⟨PvpGameStatus.noConfusion, rfl⟩
  | ambiguous => exact .inr ⟨.inr rfl, rfl⟩

theorem storeMove_written (values : Values) (outcome : WriteOutcome) (r : ℤ)
    (current replacement : Json) :
    Written values replacement [(roomKey r, replacement)]
      (storeMove values outcome r current replacement) := by
  cases outcome with
  | committed => exact .inr ⟨.inl rfl, rfl⟩
  | refused => exact .inl ⟨PvpGameStatus.noConfusion, rfl⟩
  | ambiguous => exact .inr ⟨.inr rfl, rfl⟩

theorem storeFinished_written (h : values.Holds lobby) (hr : r ∈ lobby.ids) (faults : Faults)
    (current replacement : Json) :
    Written values replacement [
        (roomKey r, replacement),
        (activeRoomIdsKey,
          .array ((lobby.activeIds.map .integer).filter fun id ↦ !id.eqInt r))]
      (storeFinished values faults r current replacement) := by
  unfold storeFinished Values.tryLoad
  cases faults.load 1 with
  | true => exact .inl ⟨PvpGameStatus.noConfusion, rfl⟩
  | false =>
      rw [if_neg Bool.false_ne_true, Values.load, h.active_of_mem hr]
      cases faults.write with
      | committed => exact .inr ⟨.inl rfl, rfl⟩
      | refused => exact .inl ⟨PvpGameStatus.noConfusion, rfl⟩
      | ambiguous => exact .inr ⟨.inr rfl, rfl⟩

/-- The call has a result, its effect is one of the above, and the store still
holds the rooms. -/
def Serves (values : Values) (lobby : Lobby) (c : Call)
    (answer : Option (PvpGameResult × Values)) : Prop :=
  ∃ result values' lobby', answer = some (result, values') ∧ values'.Holds lobby' ∧
    Effect values lobby c result values' lobby'

theorem serves_refused (h : values.Holds lobby) (c : Call) {result : PvpGameResult}
    (hstatus : result.status ≠ .ok) : Serves values lobby c (some (result, values)) :=
  ⟨result, values, lobby, rfl, h, .refused c result hstatus⟩

/-- A call that ends with a write serves if the records that it puts in place do. -/
theorem Written.serves {snapshot : Json} {records : Records} {lobby' : Lobby}
    {c : Call} {answer : PvpGameResult × Values} (hwritten : Written values snapshot records answer)
    (h : values.Holds lobby) (h' : (values.replace records).Holds lobby')
    (heffect : ∀ result, Reports result snapshot →
      Effect values lobby c result (values.replace records) lobby') :
    Serves values lobby c (some answer) := by
  obtain ⟨result, values'⟩ := answer
  rcases hwritten with ⟨hstatus, rfl⟩ | ⟨hresult, rfl⟩
  · exact serves_refused h c hstatus
  · exact ⟨result, _, lobby', rfl, h', heffect result hresult⟩

theorem load_serves (h : values.Holds lobby) (faults : Faults) (r : ℤ) :
    Serves values lobby (.load r) (some (load values faults r, values)) := by
  rcases loadLocked_cases h (faults.load 0) r with ⟨hr, hload⟩ | hload
  · exact ⟨_, values, lobby, by rw [load, hload], h, .loaded r hr⟩
  · exact serves_refused h _ hload

theorem storeRoom_serves (h : values.Holds lobby) (outcome : WriteOutcome)
    (player1 player2 : ℤ) :
    Serves values lobby (.createRoom player1 player2) (some (storeRoom values outcome
      (lobby.count + 1) (GameRoom.create (lobby.count + 1) player1 player2).snapshot
      (lobby.activeIds.map .integer))) :=
  (storeRoom_written values outcome _ _ _).serves h (h.add player1 player2) fun result hresult ↦
    .created player1 player2 result _ hresult

theorem createRoomAs_serves (h : values.Holds lobby) (faults : Faults) (player1 player2 : ℤ) :
    Serves values lobby (.createRoom player1 player2)
      (some (createRoomAs values faults (lobby.count + 1) player1 player2)) := by
  unfold createRoomAs Values.tryLoad
  cases faults.load 1 with
  | true => exact serves_refused h _ (by simp)
  | false =>
      rw [if_neg Bool.false_ne_true, Values.load, h.active]
      by_cases hcount : lobby.count = 0
      · have hactive : lobby.activeIds = [] := by
          simp [Lobby.activeIds, Lobby.ids, roomIds, hcount]
        have hstore := storeRoom_serves h faults.write player1 player2
        rw [hactive] at hstore
        rw [if_pos hcount]
        exact hstore
      · rw [if_neg hcount]
        exact storeRoom_serves h faults.write player1 player2

theorem createRoom_serves (h : values.Holds lobby) (faults : Faults) (player1 player2 : ℤ) :
    Serves values lobby (.createRoom player1 player2)
      (createRoom values faults player1 player2) := by
  unfold createRoom Values.tryLoad
  cases faults.load 0 with
  | true => exact serves_refused h _ (by simp)
  | false =>
      rw [if_neg Bool.false_ne_true, Values.load, h.next]
      by_cases hcount : lobby.count = 0
      · have hcreate := createRoomAs_serves h faults player1 player2
        rw [hcount] at hcreate
        rw [if_pos hcount]
        exact hcreate
      · rw [if_neg hcount]
        exact createRoomAs_serves h faults player1 player2

theorem moveRoom_serves (h : values.Holds lobby) (hr : r ∈ lobby.ids) (faults : Faults)
    (playerId x y : ℤ) :
    Serves values lobby (.move r playerId x y)
      (moveRoom values faults r (lobby.room r).snapshot (lobby.room r) playerId x y) := by
  rcases (lobby.wellFormed r hr).makeMove_cases playerId x y with
    ⟨result, hrefused, hmove⟩ | ⟨room, hmove, hplayed⟩
  · simp only [moveRoom, hmove, Option.bind_eq_bind, Option.bind_some]
    cases result with
    | ok => exact absurd rfl hrefused
    | invalidMove => exact serves_refused h _ (by simp)
    | gameOver => exact serves_refused h _ (by simp)
    | notYourTurn => exact serves_refused h _ (by simp)
  · have hroomId : room.roomId = r := hplayed.roomId.trans (lobby.roomId r hr)
    simp only [moveRoom, hmove, Option.bind_eq_bind, Option.bind_some,
      GameRoom.at?_gameOver_snapshot, Json.getBool?]
    cases hover : room.gameOver with
    | false =>
        rw [Bool.not_false, if_pos rfl]
        apply (storeMove_written values faults.write r (lobby.room r).snapshot room.snapshot).serves
          h (h.set_of_goesOn hr hroomId hplayed.wellFormed hplayed.goesOn hover)
        intro result hresult
        exact .moved r playerId x y room result _ hr hmove hplayed hroomId hresult
    | true =>
        rw [Bool.not_true, if_neg Bool.false_ne_true]
        apply (storeFinished_written h hr faults (lobby.room r).snapshot room.snapshot).serves
          h (h.set_of_over hr hroomId hplayed.wellFormed hover)
        intro result hresult
        exact .moved r playerId x y room result _ hr hmove hplayed hroomId hresult

theorem move_serves (h : values.Holds lobby) (faults : Faults) (r playerId x y : ℤ) :
    Serves values lobby (.move r playerId x y) (move values faults r playerId x y) := by
  unfold move
  rcases loadLocked_cases h (faults.load 0) r with ⟨hr, hload⟩ | hload
  · simp only [hload, ne_eq, not_true_eq_false, if_false, GameRoom.fromSnapshot_snapshot]
    exact moveRoom_serves h hr faults playerId x y
  · simp only [hload, ne_eq, not_false_eq_true, if_true]
    exact serves_refused h _ hload

theorem finishRoom_serves (h : values.Holds lobby) (hr : r ∈ lobby.ids) (faults : Faults)
    (winnerId : ℤ) :
    Serves values lobby (.finish r winnerId) (some (finishRoom values faults r
      (lobby.room r).snapshot (lobby.room r) winnerId)) := by
  have hroomId := ((lobby.room r).closed_roomId winnerId).trans (lobby.roomId r hr)
  have hwellFormed := (lobby.wellFormed r hr).closed winnerId
  apply (storeFinished_written h hr faults (lobby.room r).snapshot
    ((lobby.room r).closed winnerId).snapshot).serves h
    (h.set_of_over hr hroomId hwellFormed ((lobby.room r).closed_gameOver winnerId))
  intro result hresult
  exact .finished r winnerId result _ hr hroomId hwellFormed hresult

theorem finish_serves (h : values.Holds lobby) (faults : Faults) (r winnerId : ℤ) :
    Serves values lobby (.finish r winnerId) (some (finish values faults r winnerId)) := by
  unfold finish
  rcases loadLocked_cases h (faults.load 0) r with ⟨hr, hload⟩ | hload
  · simp only [hload, ne_eq, not_true_eq_false, if_false, GameRoom.fromSnapshot_snapshot]
    exact finishRoom_serves h hr faults winnerId
  · simp only [hload, ne_eq, not_false_eq_true, if_true]
    exact serves_refused h _ hload

/-- A call on a store that holds rooms has a result, whatever the faults. -/
theorem call_serves (h : values.Holds lobby) (faults : Faults) (c : Call) :
    Serves values lobby c (call values faults c) := by
  cases c with
  | createRoom player1 player2 => exact createRoom_serves h faults player1 player2
  | load r => exact load_serves h faults r
  | move r playerId x y => exact move_serves h faults r playerId x y
  | finish r winnerId => exact finish_serves h faults r winnerId

end PvpGameService

end HttpRaftKv.Gomoku
