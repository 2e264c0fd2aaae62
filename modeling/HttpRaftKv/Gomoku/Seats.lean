import HttpRaftKv.Gomoku.Connections
import HttpRaftKv.Gomoku.StoredGame

/-!
# The rooms of a player

A copy of a room is renewed from the store, and its players are those of the
stored room.  A new room is made by a match, which does not ask whether the two
users play already.  So every user has at most one room exactly as long as no
match takes a user who plays.
-/

namespace HttpRaftKv.Gomoku

open PvpGameService

/-- The two rooms have the same players. -/
def GameRoom.SamePlayers (room room' : GameRoom) : Prop :=
  room.player1 = room'.player1 ∧ room.player2 = room'.player2

open GameRoom (SamePlayers)

theorem GomokuServer.plays_congr {room room' : GameRoom} (h : SamePlayers room room')
    {userId : ℤ} : Plays userId room' ↔ Plays userId room := by
  unfold Plays
  rw [h.1, h.2]

namespace PvpGameService

/-- A call leaves the players of the stored rooms as they are. -/
theorem Effect.samePlayers {values values' : Values} {lobby lobby' : Lobby} {c : Call}
    {result : PvpGameResult} (heffect : Effect values lobby c result values' lobby') {r : ℤ}
    (hr : r ∈ lobby.ids) : r ∈ lobby'.ids ∧ SamePlayers (lobby.room r) (lobby'.room r) := by
  refine ⟨(heffect.room_cases hr).1, ?_⟩
  have hset : ∀ s room hroomId hwellFormed, SamePlayers (lobby.room s) room →
      SamePlayers (lobby.room r) ((lobby.set s room hroomId hwellFormed).room r) := by
    intro s room hroomId hwellFormed hplayers
    by_cases hrs : r = s
    · subst hrs
      simpa [Lobby.set] using hplayers
    · simp [Lobby.set, hrs, SamePlayers]
  cases heffect with
  | refused => exact ⟨rfl, rfl⟩
  | loaded => exact ⟨rfl, rfl⟩
  | created player1 player2 =>
      rw [Lobby.room_add_of_mem hr]
      exact ⟨rfl, rfl⟩
  | moved s playerId x y room _ _ _ _ hplayed =>
      exact hset s room _ _ ⟨hplayed.player1.symm, hplayed.player2.symm⟩
  | finished s winnerId =>
      apply hset
      unfold GameRoom.closed
      split_ifs
      · exact ⟨rfl, rfl⟩
      · exact ⟨rfl, rfl⟩

/-! ## The store at a match -/

/-- The store serves the two loads and the write of `createRoom`. -/
def Works (faults : Faults) : Prop :=
  faults.load 0 = false ∧ faults.load 1 = false ∧ faults.write = .committed

instance (faults : Faults) : Decidable (Works faults) :=
  inferInstanceAs (Decidable (_ ∧ _ ∧ _))

theorem storeRoom_ok_iff (values : Values) (outcome : WriteOutcome) (roomId : ℤ) (snapshot : Json)
    (activeRoomIds : List Json) :
    (storeRoom values outcome roomId snapshot activeRoomIds).1.status = .ok ↔
      outcome = .committed := by
  cases outcome with
  | committed => simp [storeRoom, Values.tryReplace]
  | refused => simp [storeRoom, Values.tryReplace]
  | ambiguous => simp [storeRoom, Values.tryReplace]

theorem createRoomAs_ok_iff {values : Values} {lobby : Lobby} (h : values.Holds lobby)
    (faults : Faults) (roomId player1 player2 : ℤ) :
    (createRoomAs values faults roomId player1 player2).1.status = .ok ↔
      faults.load 1 = false ∧ faults.write = .committed := by
  unfold createRoomAs Values.tryLoad
  cases faults.load 1 with
  | true => simp
  | false =>
      rw [if_neg Bool.false_ne_true, Values.load, h.active]
      by_cases hcount : lobby.count = 0
      · rw [if_pos hcount]
        simp [storeRoom_ok_iff]
      · rw [if_neg hcount]
        simp [Json.getArray?, storeRoom_ok_iff]

/-- A room is created exactly if the store works. -/
theorem createRoom_ok_iff {values : Values} {lobby : Lobby} (h : values.Holds lobby)
    {faults : Faults} {player1 player2 : ℤ} {result : PvpGameResult} {values' : Values}
    (hcreate : createRoom values faults player1 player2 = some (result, values')) :
    result.status = .ok ↔ Works faults := by
  unfold createRoom Values.tryLoad at hcreate
  unfold Works
  cases hload : faults.load 0 with
  | true =>
      rw [hload] at hcreate
      cases hcreate
      simp
  | false =>
      rw [hload, if_neg Bool.false_ne_true, Values.load, h.next] at hcreate
      have hstatus := createRoomAs_ok_iff h faults (lobby.count + 1) player1 player2
      by_cases hcount : lobby.count = 0
      · rw [if_pos hcount] at hcreate
        rw [hcount] at hstatus
        have heq : createRoomAs values faults (((0 : ℕ) : ℤ) + 1) player1 player2 =
            (result, values') := Option.some.inj hcreate
        rw [heq] at hstatus
        simpa using hstatus
      · rw [if_neg hcount] at hcreate
        have heq : createRoomAs values faults (lobby.count + 1) player1 player2 =
            (result, values') := by simpa [Json.getInt?] using hcreate
        rw [heq] at hstatus
        simpa using hstatus

end PvpGameService

namespace GomokuServer

/-- Every copy stands for a stored room with the same players. -/
structure Copies (s : GomokuServer) (lobby : Lobby) : Prop where
  holds : s.values.Holds lobby
  stored : ∀ r room, (r, room) ∈ s.gameRooms → r ∈ lobby.ids ∧ SamePlayers room (lobby.room r)

/-- No copy is new, and none has new players. -/
def Renews (s s' : GomokuServer) : Prop :=
  ∀ lobby, s.Copies lobby → (∃ lobby', s'.Copies lobby') ∧
    ∀ r room', (r, room') ∈ s'.gameRooms → ∃ room, (r, room) ∈ s.gameRooms ∧
      SamePlayers room room'

theorem renews_of_eq {s s' : GomokuServer} (hvalues : s'.values = s.values)
    (hrooms : s'.gameRooms = s.gameRooms) : s.Renews s' := by
  intro lobby h
  refine ⟨⟨lobby, ?_, ?_⟩, ?_⟩
  · rw [hvalues]
    exact h.holds
  · rw [hrooms]
    exact h.stored
  · rw [hrooms]
    exact fun r room hroom ↦ ⟨room, hroom, rfl, rfl⟩

theorem Renews.trans {s s' s'' : GomokuServer} (h : s.Renews s') (h' : s'.Renews s'') :
    s.Renews s'' := by
  intro lobby hcopies
  obtain ⟨⟨lobby', hcopies'⟩, hold⟩ := h lobby hcopies
  obtain ⟨hcopies'', hold'⟩ := h' lobby' hcopies'
  refine ⟨hcopies'', fun r room'' hroom'' ↦ ?_⟩
  obtain ⟨room', hroom', hplayers'⟩ := hold' r room'' hroom''
  obtain ⟨room, hroom, hplayers⟩ := hold r room' hroom'
  exact ⟨room, hroom, hplayers.1.trans hplayers'.1, hplayers.2.trans hplayers'.2⟩

theorem renews_removeGameRoom (s : GomokuServer) (roomId : ℤ) :
    s.Renews (s.removeGameRoom roomId) := by
  intro lobby h
  have hold : ∀ r room, (r, room) ∈ (s.removeGameRoom roomId).gameRooms →
      (r, room) ∈ s.gameRooms := fun r room hroom ↦ List.mem_of_mem_filter hroom
  exact ⟨⟨lobby, h.holds, fun r room hroom ↦ h.stored r room (hold r room hroom)⟩,
    fun r room hroom ↦ ⟨room, hold r room hroom, rfl, rfl⟩⟩

theorem mem_assign {α : Type} {entries : List (ℤ × α)} {key key' : ℤ} {value value' : α} :
    (key', value') ∈ assign entries key value ↔
      (key' = key ∧ value' = value) ∨ (key' ≠ key ∧ (key', value') ∈ entries) := by
  simp [assign, and_comm]

/-- The copies of the rooms after a call that the handler has made. -/
theorem Copies.call {s : GomokuServer} {lobby : Lobby} (h : s.Copies lobby) {faults : Faults}
    {c : Call} {result : PvpGameResult} {values' : Values}
    (hcall : call s.values faults c = some (result, values')) :
    ∃ lobby', Effect s.values lobby c result values' lobby' ∧
      { s with values := values' }.Copies lobby' := by
  obtain ⟨_, _, lobby', hserves, h', heffect⟩ := call_serves h.holds faults c
  rw [hcall] at hserves
  cases hserves
  refine ⟨lobby', heffect, h', fun r room hroom ↦ ?_⟩
  obtain ⟨hr, hplayers⟩ := h.stored r room hroom
  obtain ⟨hr', hplayers'⟩ := heffect.samePlayers hr
  exact ⟨hr', hplayers.1.trans hplayers'.1, hplayers.2.trans hplayers'.2⟩

theorem renews_keepRoom {s : GomokuServer} {faults : Faults} {c : Call} {result : PvpGameResult}
    {values' : Values} {roomId : ℤ} (hcall : call s.values faults c = some (result, values'))
    (hc : c.roomId? = some roomId) (hlookup : (s.gameRooms.lookup roomId).isSome) :
    s.Renews ({ s with values := values' }.keepRoom roomId result).2 := by
  intro lobby h
  obtain ⟨lobby', heffect, h'⟩ := h.call hcall
  have hsame : (∃ lobby', { s with values := values' }.Copies lobby') ∧
      ∀ r room', (r, room') ∈ s.gameRooms → ∃ room, (r, room) ∈ s.gameRooms ∧
        SamePlayers room room' :=
    ⟨⟨lobby', h'⟩, fun r room hroom ↦ ⟨room, hroom, rfl, rfl⟩⟩
  unfold keepRoom
  split_ifs with hok
  · exact hsame
  · rw [not_not] at hok
    obtain ⟨r, hr, -, hstored⟩ := heffect.stored h'.holds hok
    obtain rfl : roomId = r := by simpa [hc] using hr
    have hmem := h'.holds.mem_of_room hstored
    rw [h'.holds.room_of_mem hmem] at hstored
    rw [← Option.some.inj hstored, GameRoom.fromSnapshot_snapshot]
    obtain ⟨old, hold⟩ := Option.isSome_iff_exists.mp hlookup
    have holdMem : (roomId, old) ∈ s.gameRooms := by
      obtain ⟨l₁, l₂, heq, -⟩ := List.lookup_eq_some_iff.mp hold
      simp [heq]
    refine ⟨⟨lobby', h'.holds, fun r room hroom ↦ ?_⟩, fun r room hroom ↦ ?_⟩
    · rcases mem_assign.mp hroom with ⟨rfl, rfl⟩ | ⟨-, hroom⟩
      · exact ⟨hmem, rfl, rfl⟩
      · exact h'.stored r room hroom
    · rcases mem_assign.mp hroom with ⟨rfl, rfl⟩ | ⟨-, hroom⟩
      · exact ⟨old, holdMem, (h'.stored r old holdMem).2⟩
      · exact ⟨room, hroom, rfl, rfl⟩

theorem gameRelation_renews : GameRelation Renews where
  refl := fun _ ↦ renews_of_eq rfl rfl
  trans := .trans
  sendMessage := fun _ _ _ ↦ renews_of_eq rfl rfl
  addToLobby := fun _ _ _ _ ↦ renews_of_eq rfl rfl
  removeGameRoom := renews_removeGameRoom
  loadGameRoom := by
    intro s faults roomId hlookup
    have hcall : call s.values faults (.load roomId) =
        some (load s.values faults roomId, s.values) := rfl
    exact renews_keepRoom hcall rfl hlookup
  moveGameRoom := by
    intro s faults roomId playerId x y hlookup
    unfold moveGameRoom
    split
    · exact renews_of_eq rfl rfl
    · next hmove =>
        exact renews_keepRoom (c := .move roomId playerId x y) hmove rfl hlookup
  finishGameRoom := by
    intro s faults roomId winnerId hlookup
    have hcall : call s.values faults (.finish roomId winnerId) =
        some (finish s.values faults roomId winnerId) := rfl
    exact renews_keepRoom hcall rfl hlookup

/-! ## A match -/

/-- What `createGameRoom` does: a new copy of a new room, or nothing to the
copies. -/
theorem createGameRoom_cases {s : GomokuServer} {lobby : Lobby} (h : s.Copies lobby)
    (faults : Faults) (player1 player2 : ℤ) :
    ∃ s' lobby', s'.Copies lobby' ∧
      ((Works faults ∧
          s.createGameRoom faults player1 player2 = (some ((lobby.count : ℤ) + 1), s') ∧
          s'.values (roomKey (lobby.count + 1)) =
            some (GameRoom.create (lobby.count + 1) player1 player2).snapshot ∧
          s'.gameRooms = assign s.gameRooms (lobby.count + 1)
            (.create (lobby.count + 1) player1 player2)) ∨
        (¬ Works faults ∧ s.createGameRoom faults player1 player2 = (some 0, s') ∧
          s'.gameRooms = s.gameRooms)) := by
  unfold createGameRoom
  obtain ⟨result, values', lobby', hcreate, h', heffect⟩ :=
    createRoom_serves h.holds faults player1 player2
  have hcall : call s.values faults (.createRoom player1 player2) = some (result, values') :=
    hcreate
  have hworks := createRoom_ok_iff h.holds hcreate
  obtain ⟨lobby', heffect, hcopies⟩ := h.call hcall
  rw [hcreate]
  simp only
  by_cases hok : result.status = .ok
  · have hnew : result = ⟨.ok, (GameRoom.create (lobby.count + 1) player1 player2).snapshot⟩ ∧
        lobby' = lobby.add player1 player2 := by
      cases heffect with
      | refused _ _ hstatus => exact absurd hok hstatus
      | created _ _ _ _ hresult => exact ⟨hresult.resolve_right (by simp [hok]), rfl⟩
    obtain ⟨rfl, rfl⟩ := hnew
    have hmem : (lobby.count : ℤ) + 1 ∈ (lobby.add player1 player2).ids := by
      simp [Lobby.ids, Lobby.add, roomIds_succ]
    rw [if_neg (by simp), GameRoom.fromSnapshot_snapshot]
    refine ⟨{ s with
      values := values'
      gameRooms := assign s.gameRooms (lobby.count + 1)
        (.create (lobby.count + 1) player1 player2) }, lobby.add player1 player2,
      ⟨hcopies.holds, fun r room hroom ↦ ?_⟩, .inl ⟨hworks.mp hok, rfl, ?_, rfl⟩⟩
    · rcases mem_assign.mp hroom with ⟨rfl, rfl⟩ | ⟨-, hroom⟩
      · refine ⟨hmem, ?_⟩
        simp [GameRoom.create, GameRoom.SamePlayers]
      · exact hcopies.stored r room hroom
    · have hstored := hcopies.holds.room_of_mem hmem
      rwa [Lobby.room_add_self] at hstored
  · rw [if_pos hok]
    exact ⟨_, lobby', hcopies, .inr ⟨fun hw ↦ hok (hworks.mpr hw), rfl, rfl⟩⟩

/-! ## One room for each user -/

/-- No user plays in two rooms. -/
def OneRoom (s : GomokuServer) : Prop :=
  ∀ userId r r' room room', (r, room) ∈ s.gameRooms → (r', room') ∈ s.gameRooms →
    Plays userId room → Plays userId room' → r = r'

/-- The user plays in no room. -/
def Free (s : GomokuServer) (userId : ℤ) : Prop :=
  ∀ r room, (r, room) ∈ s.gameRooms → ¬ Plays userId room

instance (s : GomokuServer) (userId : ℤ) : Decidable (s.Free userId) :=
  decidable_of_iff (∀ entry ∈ s.gameRooms, ¬ Plays userId entry.2)
    ⟨fun h r room hroom ↦ h (r, room) hroom, fun h entry hentry ↦ h entry.1 entry.2 hentry⟩

theorem Renews.oneRoom {s s' : GomokuServer} (h : s.Renews s') {lobby : Lobby}
    (hcopies : s.Copies lobby) (hone : s.OneRoom) : s'.OneRoom := by
  intro userId r₁ r₂ room₁ room₂ hroom₁ hroom₂ hplays₁ hplays₂
  obtain ⟨old₁, hold₁, hplayers₁⟩ := (h lobby hcopies).2 r₁ room₁ hroom₁
  obtain ⟨old₂, hold₂, hplayers₂⟩ := (h lobby hcopies).2 r₂ room₂ hroom₂
  exact hone userId r₁ r₂ old₁ old₂ hold₁ hold₂ ((plays_congr hplayers₁).mp hplays₁)
    ((plays_congr hplayers₂).mp hplays₂)

/-- A new room leaves every user with one room exactly if its players were free. -/
theorem OneRoom.assign_iff {s s' : GomokuServer} {lobby : Lobby} (hcopies : s.Copies lobby)
    (hone : s.OneRoom) {player1 player2 : ℤ}
    (hrooms : s'.gameRooms = assign s.gameRooms (lobby.count + 1)
      (.create (lobby.count + 1) player1 player2)) :
    s'.OneRoom ↔ s.Free player1 ∧ s.Free player2 := by
  have hnew : ((lobby.count : ℤ) + 1, GameRoom.create (lobby.count + 1) player1 player2) ∈
      s'.gameRooms := by
    rw [hrooms]
    exact mem_assign.mpr (.inl ⟨rfl, rfl⟩)
  have hne : ∀ r room, (r, room) ∈ s.gameRooms → r ≠ lobby.count + 1 := by
    rintro r room hroom rfl
    exact notMem_roomIds_self lobby.count (hcopies.stored _ room hroom).1
  have hold : ∀ r room, (r, room) ∈ s.gameRooms → (r, room) ∈ s'.gameRooms := by
    intro r room hroom
    rw [hrooms]
    exact mem_assign.mpr (.inr ⟨hne r room hroom, hroom⟩)
  constructor
  · intro hone'
    have hfree : ∀ userId, Plays userId (GameRoom.create (lobby.count + 1) player1 player2) →
        s.Free userId := by
      intro userId hplays r room hroom hplays'
      exact hne r room hroom
        (hone' userId _ _ room _ (hold r room hroom) hnew hplays' hplays)
    exact ⟨hfree player1 (.inl rfl), hfree player2 (.inr rfl)⟩
  · rintro ⟨hfree₁, hfree₂⟩ userId r r' room room' hroom hroom' hplays hplays'
    have hfree : Plays userId (GameRoom.create (lobby.count + 1) player1 player2) →
        s.Free userId := by
      rintro (rfl | rfl)
      · exact hfree₁
      · exact hfree₂
    rw [hrooms] at hroom hroom'
    rcases mem_assign.mp hroom with ⟨rfl, rfl⟩ | ⟨-, hroom⟩
    · rcases mem_assign.mp hroom' with ⟨rfl, rfl⟩ | ⟨-, hroom'⟩
      · rfl
      · exact absurd hplays' (hfree hplays r' room' hroom')
    · rcases mem_assign.mp hroom' with ⟨rfl, rfl⟩ | ⟨-, hroom'⟩
      · exact absurd hplays (hfree hplays' r room hroom)
      · exact hone userId r r' room room' hroom hroom' hplays hplays'

end GomokuServer

namespace PvpGameService

/-- What is recovered is stored. -/
theorem mem_recoverRooms {values : Values} {faults : Faults} {k : ℕ} {ids found : List Json}
    (h : recoverRooms values faults k ids = some found) {snapshot : Json}
    (hmem : snapshot ∈ found) : ∃ r, values (roomKey r) = some snapshot := by
  induction ids generalizing k found with
  | nil =>
      cases h
      simp at hmem
  | cons id ids ih =>
      simp only [recoverRooms, Option.bind_eq_bind, Option.bind_eq_some_iff] at h
      obtain ⟨first, hfirst, rest, hrest, h⟩ := h
      cases h
      rcases List.mem_append.mp hmem with hmem | hmem
      · simp only [recoverRoom, Option.bind_eq_bind, Option.bind_eq_some_iff] at hfirst
        obtain ⟨r, -, hfirst⟩ := hfirst
        refine ⟨r, ?_⟩
        unfold loadLocked Values.tryLoad Values.load at hfirst
        cases hvalue : values (roomKey r) with
        | none =>
            cases hfails : faults.load (k + 1) with
            | true => simp_all
            | false => simp_all
        | some stored =>
            cases hfails : faults.load (k + 1) with
            | true => simp_all
            | false =>
                simp only [hvalue, hfails, Bool.false_eq_true, if_false, if_true,
                  Option.bind_eq_some_iff] at hfirst
                obtain ⟨_, -, isOver, -, hfirst⟩ := hfirst
                cases isOver with
                | true => cases hfirst; simp at hmem
                | false =>
                    cases hfirst
                    rw [List.mem_singleton.mp hmem]
      · exact ih hrest hmem

theorem mem_recoverActiveRooms {values : Values} {faults : Faults} {snapshot : Json}
    (hmem : snapshot ∈ recoverActiveRooms values faults) :
    ∃ r, values (roomKey r) = some snapshot := by
  unfold recoverActiveRooms at hmem
  split at hmem
  · split at hmem
    · simp at hmem
    · next ids _ =>
        cases hrooms : recoverRooms values faults 0 ids with
        | none => simp [hrooms] at hmem
        | some found =>
            rw [hrooms] at hmem
            exact mem_recoverRooms hrooms hmem
  · simp at hmem

end PvpGameService

namespace GameWsHandler

open GomokuServer

theorem copies_create {values : Values} {lobby : Lobby} (h : values.Holds lobby)
    (recovery : Faults) : (GomokuServer.create values recovery).Copies lobby where
  holds := h
  stored := by
    have hfold : ∀ (snapshots : List Json) (gameRooms : List (ℤ × GameRoom)),
        (∀ snapshot ∈ snapshots, ∃ r, values (roomKey r) = some snapshot) →
        (∀ r room, (r, room) ∈ gameRooms → r ∈ lobby.ids ∧
          GameRoom.SamePlayers room (lobby.room r)) →
        ∀ r room, (r, room) ∈ snapshots.foldl recoverGameRoom gameRooms → r ∈ lobby.ids ∧
          GameRoom.SamePlayers room (lobby.room r) := by
      intro snapshots
      induction snapshots with
      | nil => exact fun _ _ hrooms ↦ hrooms
      | cons snapshot snapshots ih =>
          intro gameRooms hsnapshots hrooms
          apply ih _ fun snapshot hmem ↦ hsnapshots snapshot (List.mem_cons_of_mem _ hmem)
          obtain ⟨r, hr⟩ := hsnapshots snapshot List.mem_cons_self
          have hmem := h.mem_of_room hr
          rw [h.room_of_mem hmem] at hr
          rw [← Option.some.inj hr, recoverGameRoom, GameRoom.fromSnapshot_snapshot]
          simp only [lobby.roomId r hmem]
          intro r' room hroom
          rcases mem_assign.mp hroom with ⟨rfl, rfl⟩ | ⟨-, hroom⟩
          · exact ⟨hmem, rfl, rfl⟩
          · exact hrooms r' room hroom
    exact hfold _ [] (fun _ hmem ↦ mem_recoverActiveRooms hmem) (by simp)

/-! ## Events -/

theorem onClose_renews (s : GomokuServer) (cs : Circumstances) (conn : Conn) :
    s.Renews (onClose s cs conn) := by
  have hremove : ∀ s : GomokuServer, s.Renews (s.removeUserId conn) := by
    intro s
    unfold removeUserId
    split
    · exact renews_of_eq rfl rfl
    · exact renews_of_eq rfl rfl
  unfold onClose
  simp only
  split_ifs
  · have hleave : s.Renews ((s.leaveQueue (s.getUserId conn)).removeFromLobby (s.getUserId conn)) :=
      renews_of_eq rfl rfl
    have hgame := disconnectGame_rel gameRelation_renews (fun _ _ _ ↦ renews_of_eq rfl rfl)
      ((s.leaveQueue (s.getUserId conn)).removeFromLobby (s.getUserId conn)) cs (s.getUserId conn)
    exact (hleave.trans hgame).trans (hremove _)
  · exact hremove s

theorem rooms_sendIfConnected (s : GomokuServer) (conn : Option Conn) (message : Json) :
    (s.sendIfConnected conn message).values = s.values ∧
      (s.sendIfConnected conn message).gameRooms = s.gameRooms := by
  unfold sendIfConnected
  split
  · split_ifs
    · exact ⟨rfl, rfl⟩
    · exact ⟨rfl, rfl⟩
  · exact ⟨rfl, rfl⟩

/-- A match makes a new room if the store works. -/
theorem startGame_rooms {s : GomokuServer} {lobby : Lobby} (h : s.Copies lobby)
    (cs : Circumstances) (conn : Conn) (userId opponent : ℤ) :
    (∃ lobby', (startGame s cs conn userId opponent).Copies lobby') ∧
      (startGame s cs conn userId opponent).gameRooms =
        if Works cs.faults then
          assign s.gameRooms (lobby.count + 1) (.create (lobby.count + 1) userId opponent)
        else s.gameRooms := by
  obtain ⟨s', lobby', hcopies, hcases⟩ := createGameRoom_cases h cs.faults userId opponent
  unfold startGame
  rcases hcases with ⟨hworks, hcreate, -, hrooms⟩ | ⟨hworks, hcreate, hrooms⟩
  · simp only [hcreate]
    rw [if_neg (by omega), if_pos hworks]
    generalize hsent : sendMessage _ conn (matchFound _ opponent "black" true) = t
    have ht : t.values = s'.values ∧ t.gameRooms = s'.gameRooms := by
      rw [← hsent]
      exact ⟨rfl, rfl⟩
    obtain ⟨hvalues', hrooms'⟩ := rooms_sendIfConnected t (s.getConnectionByUserId opponent)
      (matchFound (lobby.count + 1) userId "white" false)
    refine ⟨⟨lobby', ?_, ?_⟩, ?_⟩
    · rw [hvalues', ht.1]
      exact hcopies.holds
    · rw [hrooms', ht.2]
      exact hcopies.stored
    · rw [hrooms', ht.2, hrooms]
  · simp only [hcreate]
    rw [if_pos le_rfl, if_neg hworks]
    exact ⟨⟨lobby', hcopies.holds, hcopies.stored⟩, hrooms⟩

/-- A match takes only users who play in no room, unless the store fails. -/
def FreePair (text : JsonText) (s : GomokuServer) (event : Event × Circumstances) : Prop :=
  match event.1 with
  | .message conn message => typeOf text message = some "match_request" →
      ∀ opponent ∈ s.waitingQueue.head?, s.getUserId conn ∉ s.waitingQueue → 0 ≤ opponent →
        Works event.2.faults → s.Free (s.getUserId conn) ∧ s.Free opponent
  | _ => True

instance (text : JsonText) (s : GomokuServer) :
    (event : Event × Circumstances) → Decidable (FreePair text s event)
  | (.message conn message, cs) => inferInstanceAs (Decidable (typeOf text message =
      some "match_request" → ∀ opponent ∈ s.waitingQueue.head?, s.getUserId conn ∉ s.waitingQueue →
        0 ≤ opponent → Works cs.faults → s.Free (s.getUserId conn) ∧ s.Free opponent))
  | (.upgrade _ _, _) => inferInstanceAs (Decidable True)
  | (.close _, _) => inferInstanceAs (Decidable True)
  | (.network _ _, _) => inferInstanceAs (Decidable True)

/-- What an event does to the rooms: it renews copies, or it is a match that makes
a room. -/
theorem step_rooms (text : JsonText) {s : GomokuServer} (event : Event × Circumstances)
    {lobby : Lobby} (h : s.Copies lobby) :
    (s.Renews (step text s event) ∧ FreePair text s event) ∨
      ∃ userId opponent, (∃ lobby', (step text s event).Copies lobby') ∧
        (step text s event).gameRooms = assign s.gameRooms (lobby.count + 1)
          (.create (lobby.count + 1) userId opponent) ∧ userId ≠ opponent ∧
        (FreePair text s event ↔ s.Free userId ∧ s.Free opponent) := by
  have hturn := turn_step text s event
  generalize step text s event = s' at hturn
  cases hturn with
  | upgrade conn userId cs => exact .inl ⟨renews_of_eq rfl rfl, trivial⟩
  | cancel conn message cs htype =>
      have hleave : s.Renews (s.leaveQueue (s.getUserId conn)) := renews_of_eq rfl rfl
      exact .inl ⟨hleave.trans (gameRelation_renews.sendIfConnected _ _ _),
        fun hrequest ↦ by simp [htype] at hrequest⟩
  | play conn message cs s' hrequest hcancel hplay =>
      exact .inl ⟨hplay _ gameRelation_renews, fun htype ↦ absurd htype hrequest⟩
  | close conn cs => exact .inl ⟨onClose_renews s cs conn, trivial⟩
  | network conn connected cs => exact .inl ⟨renews_of_eq rfl rfl, trivial⟩
  | request conn message cs htype =>
      have hrequest := request_handleMatchRequest s cs conn (s.getUserId conn)
      generalize handleMatchRequest s cs conn (s.getUserId conn) = s' at hrequest
      cases hrequest with
      | again hmem => exact .inl ⟨renews_of_eq rfl rfl, fun _ _ _ hnotMem ↦ absurd hmem hnotMem⟩
      | waits hempty => exact .inl ⟨renews_of_eq rfl rfl, fun _ ↦ by simp [hempty]⟩
      | negative opponent queue s' hmem hqueue hopponent hs' =>
          refine .inl ⟨?_, fun _ ↦ ?_⟩
          · rcases hs' with ⟨-, -, rfl⟩ | ⟨-, reason, rfl⟩
            · exact renews_of_eq rfl rfl
            · exact renews_of_eq rfl rfl
          · simp only [hqueue, List.head?_cons, Option.mem_def, Option.some.injEq]
            rintro _ rfl - hle
            omega
      | pairs opponent queue hmem hqueue hopponent =>
          have hqueued : { s with waitingQueue := queue }.Copies lobby := ⟨h.holds, h.stored⟩
          obtain ⟨hcopies, hrooms⟩ := startGame_rooms hqueued cs conn (s.getUserId conn) opponent
          by_cases hworks : Works cs.faults
          · rw [if_pos hworks] at hrooms
            have hne : s.getUserId conn ≠ opponent := by
              rintro rfl
              exact hmem (by simp [hqueue])
            refine .inr ⟨s.getUserId conn, opponent, hcopies, hrooms, hne, ?_, ?_⟩
            · exact fun hfree ↦ hfree htype opponent (by simp [hqueue]) hmem hopponent hworks
            · rintro hfree - _ hhead - - -
              rw [hqueue] at hhead
              cases hhead
              exact hfree
          · rw [if_neg hworks] at hrooms
            refine .inl ⟨fun _ _ ↦ ⟨hcopies, fun r room hroom ↦ ?_⟩,
              fun _ _ _ _ _ hw ↦ absurd hw hworks⟩
            rw [hrooms] at hroom
            exact ⟨room, hroom, rfl, rfl⟩

/-- The copies stand for stored rooms, and no user has two rooms. -/
def Seated (s : GomokuServer) : Prop :=
  (∃ lobby, s.Copies lobby) ∧ s.OneRoom

/-- A step keeps the players seated exactly under the condition. -/
theorem Seated.step_iff {s : GomokuServer} (h : Seated s) (text : JsonText)
    (event : Event × Circumstances) : Seated (step text s event) ↔ FreePair text s event := by
  obtain ⟨⟨lobby, hcopies⟩, hone⟩ := h
  rcases step_rooms text event hcopies with
    ⟨hrenews, hfree⟩ | ⟨userId, opponent, hcopies', hrooms, -, hfree⟩
  · exact iff_of_true ⟨(hrenews lobby hcopies).1, hrenews.oneRoom hcopies hone⟩ hfree
  · rw [hfree, ← OneRoom.assign_iff hcopies hone hrooms]
    exact and_iff_right hcopies'

theorem copies_run (text : JsonText) {s : GomokuServer} (h : ∃ lobby, s.Copies lobby)
    (events : List (Event × Circumstances)) :
    ∃ lobby, (Runs.run (step text) s events).Copies lobby := by
  apply Runs.invariant_of_step (P := fun _ s ↦ ∃ lobby, GomokuServer.Copies s lobby) (step text) h
  rintro past event ⟨lobby, hcopies⟩
  rcases step_rooms text event hcopies with ⟨hrenews, -⟩ | ⟨_, _, hcopies', -⟩
  · exact (hrenews lobby hcopies).1
  · exact hcopies'

/-! ## All runs -/

/-- The room of a user is found whatever room the loop meets first, and his moves
go to it. -/
structure OwnRoom (s : GomokuServer) : Prop where
  unique : s.OneRoom
  found : ∀ userId first r room, (r, room) ∈ s.gameRooms → Plays userId room →
    s.getRoomByUserId first userId = r
  moves : ∀ cs conn userId r room msg x y, (r, room) ∈ s.gameRooms → Plays userId room →
    msg.value? clientInt? "x" (-1) = some x → msg.value? clientInt? "y" (-1) = some y →
    handleMove s cs conn userId msg = handleMoveAt s cs conn userId r x y

theorem ownRoom_of_oneRoom {s : GomokuServer} {lobby : Lobby} (hcopies : s.Copies lobby)
    (h : s.OneRoom) : OwnRoom s := by
  have hfound : ∀ userId first r room, (r, room) ∈ s.gameRooms → Plays userId room →
      s.getRoomByUserId first userId = r := by
    intro userId first r room hroom hplays
    obtain ⟨room', hroom', hplays'⟩ := plays_getRoomByUserId hroom hplays first
    exact h userId _ r room' room hroom' hroom hplays' hplays
  refine ⟨h, hfound, ?_⟩
  intro cs conn userId r room msg x y hroom hplays hx hy
  have hr := (mem_roomIds.mp (hcopies.stored r room hroom).1).1
  unfold handleMove
  simp only [hfound userId cs.room r room hroom hplays, hx, hy]
  rw [if_neg (by omega)]

/-- The store has been written by earlier calls, and the rooms that are recovered
give every user at most one room.  Then, whatever events come and however the
store fails, every user has at most one room in every state, which is the room
that is found for him and to which his moves go, exactly if no match takes a
user who plays. -/
theorem one_room_iff_free_pairs (text : JsonText) (earlier : List (Call × Faults))
    {values : Values} (hvalues : PvpGameService.run .empty earlier = some values)
    (recovery : Faults) (honce : (GomokuServer.create values recovery).OneRoom)
    (events : List (Event × Circumstances)) :
    (∀ past, past <+: events →
      OwnRoom (Runs.run (step text) (.create values recovery) past)) ↔
      Runs.Along (step text) (FreePair text) (.create values recovery) events := by
  obtain ⟨_, lobby, hrun, hlobby, -⟩ := run_holds Values.holds_empty earlier
  rw [hvalues] at hrun
  cases hrun
  have hinit : Seated (.create values recovery) := ⟨⟨lobby, copies_create hlobby recovery⟩, honce⟩
  rw [← Runs.invariant_iff_along (P := fun _ s ↦ Seated s) (step text) hinit
    fun past event h ↦ h.step_iff text event]
  refine forall₂_congr fun past _ ↦ ?_
  obtain ⟨lobby, h⟩ := copies_run text hinit.1 past
  exact ⟨fun hown ↦ ⟨⟨lobby, h⟩, hown.unique⟩, fun hseated ↦ ownRoom_of_oneRoom h hseated.2⟩

/-- A message that has only a type. -/
def plainMessage (type : String) : String :=
  JsonText.compact.dump (.ofFields [("type", .string type)])

/-- Two users ask for a match. -/
def firstMatch (cs : Circumstances) : List (Event × Circumstances) :=
  [(.upgrade "a" 1, cs), (.upgrade "b" 2, cs), (.message "a" (plainMessage "match_request"), cs),
    (.message "b" (plainMessage "match_request"), cs)]

/-- One of them asks again while they play, and a third user comes. -/
def secondMatch (cs : Circumstances) : List (Event × Circumstances) :=
  firstMatch cs ++ [(.upgrade "c" 3, cs), (.message "a" (plainMessage "match_request"), cs),
    (.message "c" (plainMessage "match_request"), cs)]

theorem one_room_in_firstMatch :
    Runs.Along (step .compact) (FreePair .compact) (.create .empty .none)
        (firstMatch ⟨0, .none, .none, 0⟩) ∧
      ∀ past, past <+: firstMatch ⟨0, .none, .none, 0⟩ →
        OwnRoom (Runs.run (step .compact) (.create .empty .none) past) := by
  have halong : Runs.Along (step .compact) (FreePair .compact) (.create .empty .none)
      (firstMatch ⟨0, .none, .none, 0⟩) := by
    decide +kernel
  refine ⟨halong, ?_⟩
  exact (one_room_iff_free_pairs .compact [] rfl .none (fun _ _ _ _ _ hroom ↦
    absurd hroom List.not_mem_nil) _).mpr halong

theorem two_rooms_in_secondMatch :
    ¬ ∀ past, past <+: secondMatch ⟨0, .none, .none, 0⟩ →
      OwnRoom (Runs.run (step .compact) (.create .empty .none) past) := by
  intro h
  have hroom : ∀ r ∈ [1, 2], ∃ entry ∈ (Runs.run (step .compact) (.create .empty .none)
      (secondMatch ⟨0, .none, .none, 0⟩)).gameRooms, entry.1 = r ∧ Plays 1 entry.2 := by
    decide +kernel
  obtain ⟨entry, hentry, hr, hplays⟩ := hroom 1 (by simp)
  obtain ⟨entry', hentry', hr', hplays'⟩ := hroom 2 (by simp)
  have heq := (h _ List.prefix_rfl).unique 1 entry.1 entry'.1 entry.2 entry'.2 hentry hentry'
    hplays hplays'
  rw [hr, hr'] at heq
  exact absurd heq (by decide)

end GameWsHandler

end HttpRaftKv.Gomoku
