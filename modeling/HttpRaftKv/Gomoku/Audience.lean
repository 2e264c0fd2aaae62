import HttpRaftKv.Gomoku.Seats
import HttpRaftKv.Gomoku.ShownStates
import HttpRaftKv.Gomoku.Waiting

/-!
# Who gets the messages of a room

A message that names a room, or shows its state, goes to connections of the players of
this room only: to the one that a player has written on, and to the one that is registered
for the opponent.  Both have been opened by the users for whom they are taken, except that
a connection that is not registered is taken for the user `0`.  What goes to the lobby names
no room.
-/

namespace HttpRaftKv.Gomoku

open PvpGameService

/-- The room that a message names, or whose state it shows. -/
def roomOf (message : Json) : Option ℤ :=
  match (message.at? "roomId").bind Json.getInt? with
  | some r => some r
  | none => ((message.at? "state").bind fun snapshot ↦ snapshot.at? "roomId").bind Json.getInt?

/-- The store has a room for the user. -/
def PlaysIn (values : Values) (r userId : ℤ) : Prop :=
  ∃ room : GameRoom, values (roomKey r) = some room.snapshot ∧ GomokuServer.Plays userId room

/-- The message goes to a player of the room that it is about: to a connection that he has
opened or, if `0` plays there, to one that was not registered for anybody. -/
def Concerns (opened : Conn → ℤ → Prop) (m : Sent) : Prop :=
  ∀ r, roomOf m.message = some r → r ≠ 0 →
    ∃ userId, PlaysIn m.stored r userId ∧
      (opened m.conn userId ∨ userId = 0 ∧ m.user = none)

theorem concerns_of_none {opened : Conn → ℤ → Prop} {m : Sent} (h : roomOf m.message = none) :
    Concerns opened m := by
  intro r hr
  rw [h] at hr
  cases hr

namespace GomokuServer

theorem Copies.plays_of_playsIn {s : GomokuServer} {lobby : Lobby} (h : s.Copies lobby)
    {r userId : ℤ} (hplays : PlaysIn s.values r userId) : r ∈ lobby.ids ∧ Plays userId (lobby.room r) := by
  obtain ⟨room, hroom, hplays⟩ := hplays
  have hmem := h.holds.mem_of_room hroom
  rw [h.holds.room_of_mem hmem, Option.some.injEq] at hroom
  rw [GameRoom.snapshot_injective hroom]
  exact ⟨hmem, hplays⟩

/-- A user who plays in a copy plays in the stored room. -/
theorem Copies.playsIn {s : GomokuServer} {lobby : Lobby} (h : s.Copies lobby) {r userId : ℤ}
    {room : GameRoom} (hroom : (r, room) ∈ s.gameRooms) (hplays : Plays userId room) :
    PlaysIn s.values r userId := by
  obtain ⟨hmem, hplayers⟩ := h.stored r room hroom
  exact ⟨lobby.room r, h.holds.room_of_mem hmem, (plays_congr hplayers).mpr hplays⟩

/-- A call leaves the players where they are. -/
theorem Copies.playsIn_call {s : GomokuServer} {lobby : Lobby} (h : s.Copies lobby)
    {faults : Faults} {c : Call} {result : PvpGameResult} {values' : Values}
    (hcall : PvpGameService.call s.values faults c = some (result, values')) {r userId : ℤ}
    (hplays : PlaysIn s.values r userId) : PlaysIn values' r userId := by
  obtain ⟨lobby', heffect, h'⟩ := h.call hcall
  obtain ⟨hmem, hplays⟩ := h.plays_of_playsIn hplays
  obtain ⟨hmem', hplayers⟩ := heffect.samePlayers hmem
  exact ⟨lobby'.room r, h'.holds.room_of_mem hmem', (plays_congr hplayers).mpr hplays⟩

/-- The copies stand for stored rooms, the maps have connections that have been opened, and
every message has gone to a player of its room. -/
structure Discreet (opened : Conn → ℤ → Prop) (s : GomokuServer) : Prop where
  copies : ∃ lobby, s.Copies lobby
  users : ∀ conn userId, s.connToUserId conn = some userId → opened conn userId
  conns : ∀ userId conn, s.userIdToConnPtr userId = some conn → opened conn userId
  sent : ∀ m ∈ s.sent, Concerns opened m

variable {opened : Conn → ℤ → Prop} {s s' : GomokuServer}

/-- The connection has been opened by the user, or is not registered and taken for `0`. -/
def Owns (opened : Conn → ℤ → Prop) (s : GomokuServer) (conn : Conn) (userId : ℤ) : Prop :=
  opened conn userId ∨ userId = 0 ∧ s.connToUserId conn = none

theorem Owns.congr {conn : Conn} {userId : ℤ} (h : Owns opened s conn userId)
    (hsame : s'.connToUserId = s.connToUserId) : Owns opened s' conn userId := by
  unfold Owns
  rw [hsame]
  exact h

namespace Discreet

theorem mono (h : s.Discreet opened) {opened' : Conn → ℤ → Prop}
    (hopened : ∀ conn userId, opened conn userId → opened' conn userId) : s.Discreet opened' where
  copies := h.copies
  users conn userId hconn := hopened conn userId (h.users conn userId hconn)
  conns userId conn hconn := hopened conn userId (h.conns userId conn hconn)
  sent m hm r hr hne := by
    obtain ⟨userId, hplays, howns⟩ := h.sent m hm r hr hne
    exact ⟨userId, hplays, howns.imp_left (hopened m.conn userId)⟩

/-- A step that leaves the store, the maps and the messages alone and makes no new copy. -/
theorem congr (h : s.Discreet opened) (hvalues : s'.values = s.values)
    (hrooms : ∀ entry ∈ s'.gameRooms, entry ∈ s.gameRooms)
    (hsame : s.SameConnections s') (hsent : s'.sent = s.sent) : s'.Discreet opened where
  copies := by
    obtain ⟨lobby, hcopies⟩ := h.copies
    exact ⟨lobby, hvalues ▸ hcopies.holds, fun r room hroom ↦ hcopies.stored r room (hrooms _ hroom)⟩
  users := by
    rw [hsame.connToUserId]
    exact h.users
  conns := by
    rw [hsame.userIdToConnPtr]
    exact h.conns
  sent := by
    rw [hsent]
    exact h.sent

theorem owns_getUserId (h : s.Discreet opened) (conn : Conn) :
    Owns opened s conn (s.getUserId conn) := by
  unfold getUserId
  cases hconn : s.connToUserId conn with
  | none => exact .inr ⟨rfl, hconn⟩
  | some userId => exact .inl (h.users conn userId hconn)

/-- The connection that is registered for a user has been opened by him. -/
theorem owns_getConnectionByUserId (h : s.Discreet opened) {userId : ℤ} {conn : Conn}
    (hconn : s.getConnectionByUserId userId = some conn) : Owns opened s conn userId :=
  .inl (h.conns userId conn hconn)

/-! ## Messages -/

theorem sendMessage (h : s.Discreet opened) {conn : Conn} {message : Json}
    (hfits : Concerns opened ⟨conn, message, s.values, s.connToUserId conn⟩) :
    (s.sendMessage conn message).Discreet opened where
  copies := h.copies.imp fun _ hcopies ↦ ⟨hcopies.holds, hcopies.stored⟩
  users := h.users
  conns := h.conns
  sent m hm := by
    rcases List.mem_append.mp hm with hm | hm
    · exact h.sent m hm
    · rw [List.mem_singleton.mp hm]
      exact hfits

theorem sendIfConnected (h : s.Discreet opened) {conn : Option Conn} {message : Json}
    (hfits : ∀ c, conn = some c →
      Concerns opened ⟨c, message, s.values, s.connToUserId c⟩) :
    (s.sendIfConnected conn message).Discreet opened := by
  unfold GomokuServer.sendIfConnected
  split
  · split_ifs
    · exact h.sendMessage (hfits _ rfl)
    · exact h
  · exact h

/-- A message that names no room may go to anybody. -/
theorem sendRoomless (h : s.Discreet opened) (conn : Conn) {message : Json}
    (hnone : roomOf message = none) : (s.sendMessage conn message).Discreet opened :=
  h.sendMessage (concerns_of_none hnone)

theorem sendRoomlessIfConnected (h : s.Discreet opened) (conn : Option Conn) {message : Json}
    (hnone : roomOf message = none) : (s.sendIfConnected conn message).Discreet opened :=
  h.sendIfConnected fun _ _ ↦ concerns_of_none hnone

end Discreet

/-- A message about a room goes to one of its players. -/
theorem concerns_of_playsIn {r userId : ℤ} {conn : Conn} {message : Json}
    (hroom : roomOf message = some r) (hplays : PlaysIn s.values r userId)
    (howns : Owns opened s conn userId) :
    Concerns opened ⟨conn, message, s.values, s.connToUserId conn⟩ := by
  intro r' hr' _
  obtain rfl := Option.some.inj (hroom.symm.trans hr')
  exact ⟨userId, hplays, howns⟩

theorem opponent_plays (room : GameRoom) (userId : ℤ) :
    Plays (room.getOpponent userId) room := by
  unfold GameRoom.getOpponent
  split_ifs
  · exact .inr rfl
  · exact .inl rfl

/-! ## Rooms -/

/-- The call of the service is done, and the copy of the room is renewed. -/
theorem Discreet.keepRoom (h : s.Discreet opened) {faults : Faults} {c : Call}
    {result : PvpGameResult} {values' : Values} {roomId : ℤ}
    (hcall : call s.values faults c = some (result, values')) (hc : c.roomId? = some roomId)
    (hlookup : (s.gameRooms.lookup roomId).isSome) {kept : Option PvpGameResult}
    (hkept : { s with values := values' }.keepRoom roomId result = (kept, s')) :
    s'.Discreet opened ∧ s'.connToUserId = s.connToUserId ∧
      (∀ r userId, PlaysIn s.values r userId → PlaysIn s'.values r userId) ∧
      ∀ result', kept = some result' → result'.status = .ok →
        s'.values (roomKey roomId) = some result'.snapshot := by
  obtain ⟨lobby, hcopies⟩ := h.copies
  have hrenews := (renews_keepRoom hcall hc hlookup lobby hcopies).1
  have hframe := frame_keepRoom { s with values := values' } roomId result
  have hquiet := quiet_keepRoom { s with values := values' } roomId result
  rw [hkept] at hrenews hframe hquiet
  have hvalues : s'.values = values' := hquiet.1
  refine ⟨⟨hrenews, ?_, ?_, ?_⟩, hframe.connToUserId, fun r userId hplays ↦ ?_, ?_⟩
  · rw [hframe.connToUserId]
    exact h.users
  · rw [hframe.userIdToConnPtr]
    exact h.conns
  · rw [hquiet.2]
    exact h.sent
  · rw [hvalues]
    exact hcopies.playsIn_call hcall hplays
  · rintro result' rfl hok
    obtain rfl := eq_of_keepRoom hkept
    obtain ⟨lobby', heffect, hcopies'⟩ := hcopies.call hcall
    obtain ⟨r, hr, -, hstored⟩ := heffect.stored hcopies'.holds hok
    rw [hc, Option.getD_some] at hr
    rw [hvalues, hr]
    exact hstored

theorem Discreet.removeGameRoom (h : s.Discreet opened) (roomId : ℤ) :
    (s.removeGameRoom roomId).Discreet opened :=
  h.congr rfl (fun _ hentry ↦ List.mem_of_mem_filter hentry) ⟨rfl, rfl, rfl⟩ rfl

theorem Discreet.addToLobby (h : s.Discreet opened) (userId : ℤ) (conn : Option Conn) :
    (s.addToLobby userId conn).Discreet opened :=
  h.congr rfl (fun _ hentry ↦ hentry) ⟨rfl, rfl, rfl⟩ rfl

end GomokuServer

namespace GameWsHandler

open GomokuServer

variable {opened : Conn → ℤ → Prop} {s s' : GomokuServer} {conn : Conn} {userId : ℤ}

theorem roomOf_errorMessage (text : String) : roomOf (errorMessage text) = none := by
  simp [roomOf, errorMessage, Json.at?_ofFields, List.lookup]

theorem roomOf_raftUnavailable (roomId : ℤ) :
    roomOf (GameWsMessages.raftUnavailable roomId).message = some roomId := by
  simp [roomOf, GameWsMessages.raftUnavailable, List.lookup, Json.getInt?]

/-- The room that is found for a user is one in which he plays. -/
theorem playsIn_getRoomByUserId (h : s.Discreet opened) {first : ℤ}
    (hroom : s.getRoomByUserId first userId ≠ 0) :
    PlaysIn s.values (s.getRoomByUserId first userId) userId := by
  obtain ⟨lobby, hcopies⟩ := h.copies
  obtain ⟨room, hmem, hplays⟩ := exists_of_getRoomByUserId hroom
  exact hcopies.playsIn hmem hplays

/-! ## Playing -/

theorem handleStateRequest_discreet (h : s.Discreet opened) (cs : Circumstances)
    (howns : Owns opened s conn userId) :
    (handleStateRequest s cs conn userId).Discreet opened := by
  unfold handleStateRequest
  simp only
  split_ifs with hroomId
  · exact h.sendRoomless conn (roomOf_errorMessage _)
  have hne : s.getRoomByUserId cs.room userId ≠ 0 := by omega
  have hplays := playsIn_getRoomByUserId h hne
  have hlookup := lookup_getRoomByUserId s cs.room userId hne
  generalize s.getRoomByUserId cs.room userId = roomId at hplays hlookup
  rcases hload : s.loadGameRoom cs.faults roomId with ⟨kept, s'⟩
  have hcall : call s.values cs.faults (.load roomId) =
      some (load s.values cs.faults roomId, s.values) := rfl
  obtain ⟨h', hsame, hstays, hstored⟩ := h.keepRoom hcall rfl hlookup hload
  cases kept with
  | none => exact h'
  | some result =>
      have hplays' := hstays roomId userId hplays
      have howns' := howns.congr hsame
      simp only
      split_ifs with hunavailable hok
      · exact h'.sendMessage (concerns_of_playsIn (roomOf_raftUnavailable roomId) hplays' howns')
      · exact h'.sendRoomless conn (roomOf_errorMessage _)
      · refine h'.sendMessage (concerns_of_playsIn ?_ hplays' howns')
        obtain ⟨lobby, hcopies⟩ := h'.copies
        have hresult := hstored result rfl (not_not.mp hok)
        have hmem := hcopies.holds.mem_of_room hresult
        rw [hcopies.holds.room_of_mem hmem, Option.some.injEq] at hresult
        rw [← hresult]
        simp [roomOf, GameWsMessages.stateResult, List.lookup, Json.getInt?,
          GameRoom.at?_roomId_snapshot, lobby.roomId roomId hmem]

theorem closeGame_discreet (h : s.Discreet opened) (oppConn : Option Conn)
    (roomId opponentId : ℤ) :
    (closeGame s conn oppConn roomId userId opponentId).Discreet opened := by
  unfold closeGame
  simp only
  split_ifs
  · exact ((h.addToLobby _ _).addToLobby _ _).removeGameRoom roomId
  · exact (h.addToLobby _ _).removeGameRoom roomId

theorem announceMove_discreet (h : s.Discreet opened) {roomId x y : ℤ} {snapshot : Json}
    (hstored : s.values (roomKey roomId) = some snapshot) (hplays : PlaysIn s.values roomId userId)
    (howns : Owns opened s conn userId) :
    ((announceMove s conn roomId userId x y snapshot).getD s).Discreet opened := by
  cases hannounce : announceMove s conn roomId userId x y snapshot with
  | none => exact h
  | some s' =>
      obtain ⟨room, hroom, hplayer⟩ := hplays
      obtain rfl := Option.some.inj (hstored.symm.trans hroom)
      unfold announceMove at hannounce
      simp only [Option.bind_eq_bind, Option.bind_eq_some_iff, Option.pure_def,
        GameWsMessages.moveResult, if_true] at hannounce
      obtain ⟨_, hfirst, player1, hplayer1, _, hsecond, player2, hplayer2, message, hmessage, _, -,
        ended, -, hend⟩ := hannounce
      have hopponent : Plays (if userId = player1 then player2 else player1) room := by
        simp only [GameRoom.snapshot, Json.at?_ofFields, List.lookup] at hfirst hsecond
        cases hfirst
        cases hsecond
        cases hplayer1
        cases hplayer2
        exact opponent_plays room userId
      have hroomOf : roomOf message = some roomId := by
        rw [roomOf, at?_moveOutcome hmessage (by decide), Json.at?_ofFields]
        rfl
      generalize (if userId = player1 then player2 else player1) = opponentId at hend hopponent
      have hsent : ((s.sendMessage conn message).sendIfConnected
          (s.getConnectionByUserId opponentId) message).Discreet opened := by
        refine (h.sendMessage (concerns_of_playsIn hroomOf ⟨room, hroom, hplayer⟩
          howns)).sendIfConnected fun c hc ↦ ?_
        exact concerns_of_playsIn hroomOf ⟨room, hroom, hopponent⟩
          (h.owns_getConnectionByUserId hc)
      cases ended with
      | true =>
          cases hend
          exact closeGame_discreet hsent _ roomId opponentId
      | false =>
          cases hend
          exact hsent

theorem handleMoveAt_discreet (h : s.Discreet opened) (cs : Circumstances) {roomId : ℤ} (x y : ℤ)
    (hlookup : (s.gameRooms.lookup roomId).isSome) (hplays : PlaysIn s.values roomId userId)
    (howns : Owns opened s conn userId) :
    (handleMoveAt s cs conn userId roomId x y).Discreet opened := by
  unfold handleMoveAt submit GomokuServer.moveGameRoom
  cases hmove : move s.values cs.faults roomId userId x y with
  | none => exact h
  | some moved =>
      have hcall : call s.values cs.faults (.move roomId userId x y) = some (moved.1, moved.2) :=
        hmove
      dsimp only
      rcases hkept : { s with values := moved.2 }.keepRoom roomId moved.1 with ⟨kept, s'⟩
      obtain ⟨h', hsame, hstays, hstored⟩ := h.keepRoom hcall rfl hlookup hkept
      have hplays' := hstays roomId userId hplays
      have howns' := howns.congr hsame
      rw [hkept]
      cases kept with
      | none => exact h'
      | some result =>
          by_cases hunavailable : result.status = .unavailable
          · simp only [hunavailable, ne_eq, not_true_eq_false, if_false, if_true]
            exact h'.sendMessage
              (concerns_of_playsIn (roomOf_raftUnavailable roomId) hplays' howns')
          · simp only [hunavailable, ne_eq, not_false_eq_true, if_true, if_false]
            split_ifs with hinvalid hturn hok
            · exact h'.sendRoomless conn (roomOf_errorMessage _)
            · exact h'.sendRoomless conn (roomOf_errorMessage _)
            · exact announceMove_discreet h' (hstored result rfl hok) hplays' howns'
            · exact h'.sendRoomless conn (roomOf_errorMessage _)

theorem handleMove_discreet (h : s.Discreet opened) (cs : Circumstances)
    (howns : Owns opened s conn userId) (msg : Json) :
    (handleMove s cs conn userId msg).Discreet opened := by
  unfold handleMove
  simp only
  split_ifs with hroomId
  · exact h.sendRoomless conn (roomOf_errorMessage _)
  · have hne : s.getRoomByUserId cs.room userId ≠ 0 := by omega
    split
    · exact handleMoveAt_discreet h cs _ _ (lookup_getRoomByUserId s cs.room userId hne)
        (playsIn_getRoomByUserId h hne) howns
    · exact h

/-! ## Chatting -/

theorem handleChatLobby_discreet (h : s.Discreet opened) (cs : Circumstances) (msg : Json) :
    (handleChatLobby s cs userId msg).Discreet opened := by
  unfold handleChatLobby
  split
  · split_ifs
    · exact h
    · unfold GomokuServer.broadcastLobby
      simp only
      generalize hmsg : Json.ofFields _ = msg
      have hnone : roomOf msg = none := by
        subst hmsg
        simp [roomOf, List.lookup]
      generalize s.lobbyConnections = entries
      induction entries generalizing s with
      | nil => exact h
      | cons entry entries ih => exact ih (h.sendRoomlessIfConnected entry.2 hnone)
  · exact h

theorem handleChatRoom_discreet (h : s.Discreet opened) (cs : Circumstances)
    (howns : Owns opened s conn userId) (msg : Json) :
    (handleChatRoom s cs conn userId msg).Discreet opened := by
  unfold handleChatRoom
  simp only
  split_ifs with hroomId
  · exact h
  have hne : s.getRoomByUserId cs.room userId ≠ 0 := by omega
  have hplays := playsIn_getRoomByUserId h hne
  obtain ⟨room, hroom, hlookup⟩ := getGameRoom_of_lookup
    (lookup_getRoomByUserId s cs.room userId hne) cs.miss
  generalize s.getRoomByUserId cs.room userId = roomId at hroom hlookup hplays
  rw [hroom]
  simp only
  split
  · split_ifs
    · exact h
    · obtain ⟨lobby, hcopies⟩ := h.copies
      have hmem : (roomId, room) ∈ s.gameRooms := by
        obtain ⟨l₁, l₂, heq, -⟩ := List.lookup_eq_some_iff.mp hlookup
        simp [heq]
      have hopponent := hcopies.playsIn hmem (opponent_plays room userId)
      unfold GomokuServer.sendToRoom
      simp only
      generalize hmsg : Json.ofFields _ = msg
      have hroomOf : roomOf msg = some roomId := by
        subst hmsg
        simp [roomOf, List.lookup, Json.getInt?]
      have hfirst : (s.sendIfConnected (some conn) msg).Discreet opened := by
        refine h.sendIfConnected fun c hc ↦ ?_
        cases hc
        exact concerns_of_playsIn hroomOf hplays howns
      refine hfirst.sendIfConnected fun c hc ↦ ?_
      refine concerns_of_playsIn hroomOf ?_ (.inl (h.conns _ _ hc))
      rw [(rooms_sendIfConnected s (some conn) msg).1]
      exact hopponent
  · exact h

/-! ## Leaving -/

theorem leaveRoom_discreet (h : s.Discreet opened) (roomId opponentId : ℤ) :
    (leaveRoom s roomId userId opponentId).Discreet opened := by
  have hnone : roomOf (gameOverMessage opponentId) = none := by
    simp [roomOf, gameOverMessage, List.lookup]
  have hsend := h.sendRoomlessIfConnected (s.getConnectionByUserId opponentId) hnone
  unfold leaveRoom
  simp only
  split_ifs
  · exact ((hsend.addToLobby _ _).addToLobby _ _).removeGameRoom roomId
  · exact (hsend.addToLobby _ _).removeGameRoom roomId
  · exact (h.addToLobby _ _).removeGameRoom roomId
  · exact h.removeGameRoom roomId

theorem abandonRoom_discreet (h : s.Discreet opened) (oppConn : Option Conn)
    (roomId opponentId : ℤ) : (abandonRoom s oppConn roomId opponentId).Discreet opened := by
  have hnone : roomOf opponentLeft = none := by
    simp [roomOf, opponentLeft, List.lookup]
  have hsend := h.sendRoomlessIfConnected oppConn hnone
  unfold abandonRoom
  simp only
  split_ifs
  · exact (hsend.addToLobby _ _).removeGameRoom roomId
  · exact hsend.removeGameRoom roomId

theorem finishGameRoom_discreet (h : s.Discreet opened) (faults : Faults) {roomId : ℤ}
    (hlookup : (s.gameRooms.lookup roomId).isSome) (winnerId : ℤ) :
    (s.finishGameRoom faults roomId winnerId).2.Discreet opened := by
  have hcall : call s.values faults (.finish roomId winnerId) =
      some (finish s.values faults roomId winnerId) := rfl
  exact (h.keepRoom hcall rfl hlookup rfl).1

theorem handleLeaveGame_discreet (h : s.Discreet opened) (cs : Circumstances) :
    (handleLeaveGame s cs userId).Discreet opened := by
  unfold handleLeaveGame
  simp only
  split_ifs with hroomId
  · exact h
  have hlookup := lookup_getRoomByUserId s cs.room userId (by omega)
  obtain ⟨room, hroom, -⟩ := getGameRoom_of_lookup hlookup cs.miss
  have hfinished := finishGameRoom_discreet h cs.faults hlookup (room.getOpponent userId)
  rw [hroom]
  simp only
  split
  · next hfinish =>
      rw [hfinish] at hfinished
      split_ifs
      · exact hfinished
      · exact leaveRoom_discreet hfinished _ _
  · next hfinish =>
      rw [hfinish] at hfinished
      exact hfinished

theorem disconnectGame_discreet (h : s.Discreet opened) (cs : Circumstances) :
    (disconnectGame s cs userId).Discreet opened := by
  unfold disconnectGame
  simp only
  split_ifs with hroomId
  · have hlookup := lookup_getRoomByUserId s cs.room userId (by omega)
    obtain ⟨room, hroom, -⟩ := getGameRoom_of_lookup hlookup cs.miss
    have hfinished := finishGameRoom_discreet h cs.faults hlookup (room.getOpponent userId)
    rw [hroom]
    simp only
    split
    · next hfinish =>
        rw [hfinish] at hfinished
        split_ifs
        · exact hfinished
        · exact abandonRoom_discreet hfinished _ _ _
    · next hfinish =>
        rw [hfinish] at hfinished
        exact hfinished
  · exact h

/-! ## Matching -/

theorem roomOf_matchFound (roomId opponent : ℤ) (color : String) (yourTurn : Bool) :
    roomOf (matchFound roomId opponent color yourTurn) = some roomId := by
  simp [roomOf, matchFound, List.lookup, Json.getInt?]

theorem startGame_discreet (h : s.Discreet opened) (cs : Circumstances)
    (howns : Owns opened s conn userId) (opponent : ℤ) :
    (startGame s cs conn userId opponent).Discreet opened := by
  obtain ⟨lobby, hcopies⟩ := h.copies
  obtain ⟨s', lobby', hcopies', hcases⟩ :=
    createGameRoom_cases hcopies cs.faults userId opponent
  have hframe := s.frame_createGameRoom cs.faults userId opponent
  have hsent := sent_createGameRoom s cs.faults userId opponent
  have hmade : (s.createGameRoom cs.faults userId opponent).2 = s' := by
    rcases hcases with ⟨-, hcreate, -⟩ | ⟨-, hcreate, -⟩
    · rw [hcreate]
    · rw [hcreate]
  rw [hmade] at hframe hsent
  have h' : s'.Discreet opened := by
    refine ⟨⟨lobby', hcopies'⟩, ?_, ?_, ?_⟩
    · rw [hframe.connToUserId]
      exact h.users
    · rw [hframe.userIdToConnPtr]
      exact h.conns
    · rw [hsent]
      exact h.sent
  unfold startGame
  rcases hcases with ⟨-, hcreate, hstored, -⟩ | ⟨-, hcreate, -⟩
  · simp only [hcreate]
    rw [if_neg (by omega)]
    have hlobby : ((s'.removeFromLobby userId).removeFromLobby opponent).Discreet opened :=
      h'.congr rfl (fun _ hentry ↦ hentry) ⟨rfl, rfl, rfl⟩ rfl
    refine (hlobby.sendMessage ?_).sendIfConnected fun c hc ↦ ?_
    · exact concerns_of_playsIn (roomOf_matchFound _ _ _ _) ⟨_, hstored, .inl rfl⟩
        (howns.congr hframe.connToUserId)
    · exact concerns_of_playsIn (roomOf_matchFound _ _ _ _) ⟨_, hstored, .inr rfl⟩
        (.inl (h.conns _ _ hc))
  · simp only [hcreate]
    rw [if_pos le_rfl]
    -- the message is about no room
    refine h'.sendMessage fun r hr hne ↦ ?_
    rw [roomOf_raftUnavailable] at hr
    exact absurd (Option.some.inj hr).symm hne

theorem handleMatchRequest_discreet (h : s.Discreet opened) (cs : Circumstances)
    (howns : Owns opened s conn userId) :
    (handleMatchRequest s cs conn userId).Discreet opened := by
  have hnone : ∀ text, roomOf (matchWaiting text) = none := by
    simp [roomOf, matchWaiting, List.lookup]
  have hqueue : ∀ queue, { s with waitingQueue := queue }.Discreet opened := fun queue ↦
    h.congr rfl (fun _ hentry ↦ hentry) ⟨rfl, rfl, rfl⟩ rfl
  have hrequest := request_handleMatchRequest s cs conn userId
  generalize handleMatchRequest s cs conn userId = s' at hrequest
  cases hrequest with
  | again => exact h.sendRoomless conn (hnone _)
  | waits => exact (hqueue _).sendRoomless conn (hnone _)
  | pairs opponent queue => exact startGame_discreet (hqueue queue) cs howns opponent
  | negative opponent queue s' _ _ _ hs' =>
      rcases hs' with ⟨-, -, rfl⟩ | ⟨-, reason, rfl⟩
      · exact hqueue queue
      · exact (hqueue queue).sendRoomless conn (hnone _)

theorem handleMatchCancel_discreet (h : s.Discreet opened) :
    (handleMatchCancel s userId).Discreet opened := by
  have hleave : (s.leaveQueue userId).Discreet opened :=
    h.congr rfl (fun _ hentry ↦ hentry) ⟨rfl, rfl, rfl⟩ rfl
  exact hleave.sendRoomlessIfConnected _ (by simp [roomOf, matchCancelled, List.lookup])

/-! ## Events -/

theorem removeUserId_discreet (h : s.Discreet opened) (conn : Conn) :
    (s.removeUserId conn).Discreet opened := by
  unfold GomokuServer.removeUserId
  split
  · exact h
  · refine ⟨h.copies.imp fun _ hcopies ↦ ⟨hcopies.holds, hcopies.stored⟩, fun c u hc ↦ ?_,
      fun u c hc ↦ ?_, h.sent⟩
    · dsimp only at hc
      rw [Function.update_apply] at hc
      split_ifs at hc
      exact h.users c u hc
    · dsimp only at hc
      rw [Function.update_apply] at hc
      split_ifs at hc
      exact h.conns u c hc

theorem onClose_discreet (h : s.Discreet opened) (cs : Circumstances) (conn : Conn) :
    (onClose s cs conn).Discreet opened := by
  unfold onClose
  simp only
  split_ifs
  · have hleave : ((s.leaveQueue (s.getUserId conn)).removeFromLobby
        (s.getUserId conn)).Discreet opened :=
      h.congr rfl (fun _ hentry ↦ hentry) ⟨rfl, rfl, rfl⟩ rfl
    exact removeUserId_discreet (disconnectGame_discreet hleave cs) conn
  · exact removeUserId_discreet h conn

theorem handle_discreet (h : s.Discreet opened) (hopened : opened conn userId) :
    (handle s conn userId).Discreet opened := by
  have hset : (s.setUserId conn userId).Discreet opened := by
    refine ⟨h.copies.imp fun _ hcopies ↦ ⟨hcopies.holds, hcopies.stored⟩, fun c u hc ↦ ?_,
      fun u c hc ↦ ?_, h.sent⟩
    · by_cases heq : c = conn
      · subst heq
        obtain rfl : userId = u := by simpa [GomokuServer.setUserId] using hc
        exact hopened
      · exact h.users c u (by simpa [GomokuServer.setUserId, heq] using hc)
    · by_cases heq : u = userId
      · subst heq
        obtain rfl : conn = c := by simpa [GomokuServer.setUserId] using hc
        exact hopened
      · exact h.conns u c (by simpa [GomokuServer.setUserId, heq] using hc)
  exact hset.addToLobby userId (some conn)

theorem dispatch_discreet (h : s.Discreet opened) (cs : Circumstances) (conn : Conn) (msg : Json)
    (type : String) : (dispatch s cs conn msg type).Discreet opened := by
  have howns := h.owns_getUserId conn
  unfold dispatch
  simp only
  split_ifs
  · exact handleMatchRequest_discreet h cs howns
  · exact handleMatchCancel_discreet h
  · exact handleMove_discreet h cs howns msg
  · exact handleStateRequest_discreet h cs howns
  · exact handleChatLobby_discreet h cs msg
  · exact handleChatRoom_discreet h cs howns msg
  · exact handleLeaveGame_discreet h cs
  · exact h

theorem onMessage_discreet (text : JsonText) (h : s.Discreet opened) (cs : Circumstances)
    (conn : Conn) (message : String) : (onMessage text s cs conn message).Discreet opened := by
  unfold onMessage
  split
  · exact h
  · split
    · exact h
    · exact dispatch_discreet h cs conn _ _

theorem network_discreet (h : s.Discreet opened) (connected : Conn → Bool) :
    { s with connected := connected }.Discreet opened :=
  ⟨h.copies.imp fun _ hcopies ↦ ⟨hcopies.holds, hcopies.stored⟩, h.users, h.conns, h.sent⟩

theorem discreet_create {values : Values} {lobby : Lobby} (h : values.Holds lobby)
    (recovery : Faults) (opened : Conn → ℤ → Prop) :
    (GomokuServer.create values recovery).Discreet opened where
  copies := ⟨lobby, copies_create h recovery⟩
  users := by simp [GomokuServer.create]
  conns := by simp [GomokuServer.create]
  sent := by simp [GomokuServer.create]

/-- The connection has been upgraded for the user. -/
def Opened (events : List (Event × Circumstances)) (conn : Conn) (userId : ℤ) : Prop :=
  ∃ cs, (Event.upgrade conn userId, cs) ∈ events

/-- The step lemma: what is opened grows with the events. -/
theorem step_discreet (text : JsonText) {events : List (Event × Circumstances)}
    (h : s.Discreet (Opened events)) (event : Event × Circumstances) :
    (step text s event).Discreet (Opened (events ++ [event])) := by
  have h' : s.Discreet (Opened (events ++ [event])) :=
    h.mono fun _ _ ⟨cs, hcs⟩ ↦ ⟨cs, List.mem_append_left _ hcs⟩
  obtain ⟨event, cs⟩ := event
  cases event with
  | upgrade conn userId => exact handle_discreet h' ⟨cs, by simp⟩
  | close conn => exact onClose_discreet h' cs conn
  | network conn connected => exact network_discreet h' _
  | message conn message => exact onMessage_discreet text h' cs conn message

/-- Whatever the store holds from an earlier time and whatever events come, with whatever
faults of the store: every message that names a room or shows its state goes to a
connection that a player of this room has opened or, if the user `0` plays there, to one
that was not registered. -/
theorem room_messages_reach_players_only (text : JsonText) (earlier : List (Call × Faults)) :
    ∃ values, PvpGameService.run .empty earlier = some values ∧ ∀ recovery events,
      ∀ m ∈ (Runs.run (step text) (.create values recovery) events).sent,
        Concerns (Opened events) m := by
  obtain ⟨values, lobby, hrun, hlobby, -⟩ := run_holds Values.holds_empty earlier
  refine ⟨values, hrun, fun recovery events ↦ ?_⟩
  exact (Runs.invariant_of_step (step text) (P := fun events s ↦ s.Discreet (Opened events))
    (discreet_create hlobby recovery _) (fun _ event h ↦ step_discreet text h event) events).sent

end GameWsHandler

end HttpRaftKv.Gomoku
