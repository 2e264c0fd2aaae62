import HttpRaftKv.Gomoku.GameWsHandler

/-!
# What the handlers of a game are made of

The handlers send messages, write the lobby and work on the room that they have
found for the user.  A relation between states that these operations keep is
kept by every handler of a game, so a fact about the handlers is proved once for
each operation.
-/

namespace HttpRaftKv.Gomoku

namespace GomokuServer

/-! ## What the operations leave alone -/

/-- The connections are left alone. -/
structure SameConnections (s s' : GomokuServer) : Prop where
  connToUserId : s'.connToUserId = s.connToUserId
  userIdToConnPtr : s'.userIdToConnPtr = s.userIdToConnPtr
  connected : s'.connected = s.connected

/-- The waiting queue and the connections are left alone. -/
structure Frame (s s' : GomokuServer) : Prop extends s.SameConnections s' where
  waitingQueue : s'.waitingQueue = s.waitingQueue

theorem SameConnections.trans {s s' s'' : GomokuServer} (h : s.SameConnections s')
    (h' : s'.SameConnections s'') : s.SameConnections s'' :=
  ⟨h'.connToUserId.trans h.connToUserId, h'.userIdToConnPtr.trans h.userIdToConnPtr,
    h'.connected.trans h.connected⟩

theorem Frame.refl (s : GomokuServer) : s.Frame s :=
  ⟨⟨rfl, rfl, rfl⟩, rfl⟩

theorem Frame.trans {s s' s'' : GomokuServer} (h : s.Frame s') (h' : s'.Frame s'') :
    s.Frame s'' :=
  ⟨h.toSameConnections.trans h'.toSameConnections, h'.waitingQueue.trans h.waitingQueue⟩

theorem frame_values (s : GomokuServer) (values : Values) : s.Frame { s with values := values } :=
  ⟨⟨rfl, rfl, rfl⟩, rfl⟩

theorem frame_keepRoom (s : GomokuServer) (roomId : ℤ) (result : PvpGameResult) :
    s.Frame (s.keepRoom roomId result).2 := by
  unfold keepRoom
  split_ifs
  · exact .refl s
  · split
    · exact .refl s
    · exact ⟨⟨rfl, rfl, rfl⟩, rfl⟩

theorem frame_moveGameRoom (s : GomokuServer) (faults : Faults) (roomId playerId x y : ℤ) :
    s.Frame (s.moveGameRoom faults roomId playerId x y).2 := by
  unfold moveGameRoom
  split
  · exact .refl s
  · exact (s.frame_values _).trans (frame_keepRoom _ _ _)

theorem frame_sendIfConnected (s : GomokuServer) (conn : Option Conn) (message : Json) :
    s.Frame (s.sendIfConnected conn message) := by
  unfold sendIfConnected
  split
  · split_ifs
    · exact ⟨⟨rfl, rfl, rfl⟩, rfl⟩
    · exact .refl s
  · exact .refl s

theorem frame_addToLobby (s : GomokuServer) (userId : ℤ) (conn : Option Conn) :
    s.Frame (s.addToLobby userId conn) :=
  ⟨⟨rfl, rfl, rfl⟩, rfl⟩

theorem SameConnections.getUserId {s s' : GomokuServer} (h : s.SameConnections s') (conn : Conn) :
    s'.getUserId conn = s.getUserId conn := by
  unfold GomokuServer.getUserId
  rw [h.connToUserId]

theorem SameConnections.getConnectionByUserId {s s' : GomokuServer} (h : s.SameConnections s')
    (userId : ℤ) : s'.getConnectionByUserId userId = s.getConnectionByUserId userId :=
  congrFun h.userIdToConnPtr userId

/-- The user has opened the connection, or is reached by it. -/
def Reaches (s : GomokuServer) (userId : ℤ) (conn : Option Conn) : Prop :=
  ∃ c, conn = some c ∧ (s.getUserId c = userId ∨ s.getConnectionByUserId userId = some c)

theorem reaches_getConnectionByUserId {s : GomokuServer} {userId : ℤ} {conn : Option Conn}
    (hconn : s.getConnectionByUserId userId = conn) {p : Conn → Bool} (hany : conn.any p = true) :
    s.Reaches userId conn := by
  obtain ⟨c, hc, -⟩ := (Option.any_eq_true _ _).mp hany
  exact ⟨c, hc, .inr (hconn.trans hc)⟩

/-! ## Operations -/

/-- A relation between the state before and the state after that holds for every
operation of the handlers of a game. -/
structure GameRelation (R : GomokuServer → GomokuServer → Prop) : Prop where
  refl : ∀ s, R s s
  trans : ∀ {s s' s''}, R s s' → R s' s'' → R s s''
  sendMessage : ∀ s conn message, R s (s.sendMessage conn message)
  addToLobby : ∀ s userId conn, s.Reaches userId conn → R s (s.addToLobby userId conn)
  removeGameRoom : ∀ s roomId, R s (s.removeGameRoom roomId)
  loadGameRoom : ∀ s faults roomId, (s.gameRooms.lookup roomId).isSome →
    R s (s.loadGameRoom faults roomId).2
  moveGameRoom : ∀ s faults roomId playerId x y, (s.gameRooms.lookup roomId).isSome →
    R s (s.moveGameRoom faults roomId playerId x y).2
  finishGameRoom : ∀ s faults roomId winnerId, (s.gameRooms.lookup roomId).isSome →
    R s (s.finishGameRoom faults roomId winnerId).2

/-- The user plays in the room. -/
def Plays (userId : ℤ) (room : GameRoom) : Prop :=
  room.player1 = userId ∨ room.player2 = userId

instance (userId : ℤ) (room : GameRoom) : Decidable (Plays userId room) :=
  inferInstanceAs (Decidable (_ ∨ _))

theorem lookup_isSome_of_mem {α : Type} {entries : List (ℤ × α)} {key : ℤ} {value : α}
    (h : (key, value) ∈ entries) : (entries.lookup key).isSome := by
  rw [Option.isSome_iff_ne_none, Ne, List.lookup_eq_none_iff]
  push Not
  exact ⟨_, h, by simp⟩

/-- The room that is found for a user who plays is one in which he plays. -/
theorem plays_getRoomByUserId {s : GomokuServer} {userId r : ℤ} {room : GameRoom}
    (hroom : (r, room) ∈ s.gameRooms) (hplays : Plays userId room) (first : ℤ) :
    ∃ room', (s.getRoomByUserId first userId, room') ∈ s.gameRooms ∧ Plays userId room' := by
  unfold getRoomByUserId
  simp only
  generalize hfound : (s.gameRooms.filter fun entry ↦
    decide (entry.2.player1 = userId ∨ entry.2.player2 = userId)) = found
  have hmem : (r, room) ∈ found := by
    rw [← hfound, List.mem_filter]
    exact ⟨hroom, by simpa [Plays] using hplays⟩
  have hroomId : (if first ∈ found.map Prod.fst then first else (found.map Prod.fst).headD 0) ∈
      found.map Prod.fst := by
    split_ifs with hfirst
    · exact hfirst
    · cases found with
      | nil => simp at hmem
      | cons entry found => simp
  obtain ⟨entry, hentry, hroomId⟩ := List.mem_map.mp hroomId
  rw [← hfound, List.mem_filter] at hentry
  rw [← hroomId]
  exact ⟨entry.2, hentry.1, by simpa [Plays] using hentry.2⟩

theorem exists_of_getRoomByUserId {s : GomokuServer} {first userId : ℤ}
    (h : s.getRoomByUserId first userId ≠ 0) :
    ∃ room, (s.getRoomByUserId first userId, room) ∈ s.gameRooms ∧ Plays userId room := by
  by_cases hplays : ∃ entry ∈ s.gameRooms, Plays userId entry.2
  · obtain ⟨entry, hentry, hplays⟩ := hplays
    exact plays_getRoomByUserId hentry hplays first
  · have hfound : (s.gameRooms.filter fun entry ↦
        decide (entry.2.player1 = userId ∨ entry.2.player2 = userId)) = [] := by
      rw [List.filter_eq_nil_iff]
      intro entry hentry hplayer
      exact hplays ⟨entry, hentry, by simpa [Plays] using hplayer⟩
    unfold getRoomByUserId at h
    simp only [hfound, List.map_nil, List.not_mem_nil, if_false, List.headD_nil] at h
    exact absurd rfl h

theorem lookup_getRoomByUserId (s : GomokuServer) (first userId : ℤ)
    (h : s.getRoomByUserId first userId ≠ 0) :
    (s.gameRooms.lookup (s.getRoomByUserId first userId)).isSome := by
  obtain ⟨room, hroom, -⟩ := exists_of_getRoomByUserId h
  exact lookup_isSome_of_mem hroom

/-- A room that the server has a copy of is not loaded. -/
theorem getGameRoom_of_lookup {s : GomokuServer} {roomId : ℤ}
    (h : (s.gameRooms.lookup roomId).isSome) (faults : Faults) :
    ∃ room, s.getGameRoom faults roomId = (some (some room), s) ∧
      s.gameRooms.lookup roomId = some room := by
  obtain ⟨room, hroom⟩ := Option.isSome_iff_exists.mp h
  refine ⟨room, ?_, hroom⟩
  unfold getGameRoom
  rw [hroom]

variable {R : GomokuServer → GomokuServer → Prop}

theorem GameRelation.sendIfConnected (hR : GameRelation R) (s : GomokuServer)
    (conn : Option Conn) (message : Json) : R s (s.sendIfConnected conn message) := by
  unfold GomokuServer.sendIfConnected
  split
  · split_ifs
    · exact hR.sendMessage s _ message
    · exact hR.refl s
  · exact hR.refl s

theorem GameRelation.broadcastLobby (hR : GameRelation R) (s : GomokuServer)
    (now senderId : ℤ) (username message : String) :
    R s (s.broadcastLobby now senderId username message) := by
  unfold GomokuServer.broadcastLobby
  simp only
  generalize Json.ofFields _ = msg
  generalize s.lobbyConnections = entries
  induction entries generalizing s with
  | nil => exact hR.refl s
  | cons entry entries ih =>
      apply hR.trans (hR.sendIfConnected s entry.2 msg)
      exact ih _

theorem GameRelation.sendToRoom (hR : GameRelation R) (s : GomokuServer)
    (now roomId senderId : ℤ) (username message : String) (conn1 conn2 : Option Conn) :
    R s (s.sendToRoom now roomId senderId username message conn1 conn2) :=
  hR.trans (hR.sendIfConnected s conn1 _) (hR.sendIfConnected _ conn2 _)

end GomokuServer

namespace GameWsHandler

open GomokuServer

variable {R : GomokuServer → GomokuServer → Prop}

theorem handleStateRequest_rel (hR : GameRelation R) (s : GomokuServer) (cs : Circumstances)
    (conn : Conn) (userId : ℤ) : R s (handleStateRequest s cs conn userId) := by
  unfold handleStateRequest
  simp only
  split_ifs with hroomId
  · exact hR.sendMessage s _ _
  · have hlookup := lookup_getRoomByUserId s cs.room userId (by omega)
    have h := hR.loadGameRoom s cs.faults _ hlookup
    rcases hload : s.loadGameRoom cs.faults (s.getRoomByUserId cs.room userId) with ⟨result, s'⟩
    rw [hload] at h
    cases result with
    | none => exact h
    | some result =>
        simp only
        split_ifs
        · exact hR.trans h (hR.sendMessage s' _ _)
        · exact hR.trans h (hR.sendMessage s' _ _)
        · exact hR.trans h (hR.sendMessage s' _ _)

theorem closeGame_rel (hR : GameRelation R) {s : GomokuServer} {conn : Conn}
    {oppConn : Option Conn} {userId opponentId : ℤ} (hconn : s.getUserId conn = userId)
    (hoppConn : s.getConnectionByUserId opponentId = oppConn) (roomId : ℤ) :
    R s (closeGame s conn oppConn roomId userId opponentId) := by
  unfold closeGame
  simp only
  apply hR.trans (hR.addToLobby s userId (some conn) ⟨conn, rfl, .inl hconn⟩)
  split_ifs with hconnected
  · exact hR.trans (hR.addToLobby _ opponentId oppConn
      (reaches_getConnectionByUserId hoppConn hconnected)) (hR.removeGameRoom _ roomId)
  · exact hR.removeGameRoom _ roomId

theorem announceMove_rel (hR : GameRelation R) {s s' : GomokuServer} {conn : Conn}
    {roomId userId x y : ℤ} {snapshot : Json} (hconn : s.getUserId conn = userId)
    (h : announceMove s conn roomId userId x y snapshot = some s') : R s s' := by
  unfold announceMove at h
  simp only [Option.bind_eq_bind, Option.bind_eq_some_iff] at h
  obtain ⟨_, -, player1, -, _, -, player2, -, message, -, _, -, isOver, -, h⟩ := h
  simp only [GameWsMessages.moveResult, if_true] at h
  generalize (if userId = player1 then player2 else player1) = opponentId at h
  have hsame := (frame_sendIfConnected (s.sendMessage conn message)
    (s.getConnectionByUserId opponentId) message).toSameConnections
  have hsend : R s ((s.sendMessage conn message).sendIfConnected
      (s.getConnectionByUserId opponentId) message) :=
    hR.trans (hR.sendMessage s conn message) (hR.sendIfConnected _ _ _)
  cases isOver with
  | true =>
      cases h
      exact hR.trans hsend (closeGame_rel hR ((hsame.getUserId conn).trans hconn)
        (hsame.getConnectionByUserId opponentId) roomId)
  | false =>
      cases h
      exact hsend

theorem handleMoveAt_rel (hR : GameRelation R) {s : GomokuServer} (cs : Circumstances)
    {conn : Conn} {userId roomId : ℤ} (hconn : s.getUserId conn = userId) (x y : ℤ)
    (hlookup : (s.gameRooms.lookup roomId).isSome) :
    R s (handleMoveAt s cs conn userId roomId x y) := by
  unfold handleMoveAt submit
  have h := hR.moveGameRoom s cs.faults roomId userId x y hlookup
  have hsame := (s.frame_moveGameRoom cs.faults roomId userId x y).toSameConnections
  rcases hmove : s.moveGameRoom cs.faults roomId userId x y with ⟨result, s'⟩
  rw [hmove] at h hsame
  cases result with
  | none => exact h
  | some result =>
      simp only
      by_cases hunavailable : result.status = .unavailable
      · simp only [hunavailable, ne_eq, not_true_eq_false, if_false, if_true]
        exact hR.trans h (hR.sendMessage s' _ _)
      · simp only [hunavailable, ne_eq, not_false_eq_true, if_true, if_false]
        split_ifs
        · exact hR.trans h (hR.sendMessage s' _ _)
        · exact hR.trans h (hR.sendMessage s' _ _)
        · cases hannounce : announceMove s' conn roomId userId x y result.snapshot with
          | none => exact h
          | some announced =>
              exact hR.trans h (announceMove_rel hR ((hsame.getUserId conn).trans hconn) hannounce)
        · exact hR.trans h (hR.sendMessage s' _ _)

theorem handleMove_rel (hR : GameRelation R) {s : GomokuServer} (cs : Circumstances)
    {conn : Conn} {userId : ℤ} (hconn : s.getUserId conn = userId) (msg : Json) :
    R s (handleMove s cs conn userId msg) := by
  unfold handleMove
  simp only
  split_ifs with hroomId
  · exact hR.sendMessage s _ _
  · split
    · exact handleMoveAt_rel hR cs hconn _ _ (lookup_getRoomByUserId s _ _ (by omega))
    · exact hR.refl s

theorem handleChatLobby_rel (hR : GameRelation R) (s : GomokuServer) (cs : Circumstances)
    (userId : ℤ) (msg : Json) : R s (handleChatLobby s cs userId msg) := by
  unfold handleChatLobby
  split
  · split_ifs
    · exact hR.refl s
    · exact hR.broadcastLobby s _ _ _ _
  · exact hR.refl s

theorem handleChatRoom_rel (hR : GameRelation R) (s : GomokuServer) (cs : Circumstances)
    (conn : Conn) (userId : ℤ) (msg : Json) : R s (handleChatRoom s cs conn userId msg) := by
  unfold handleChatRoom
  simp only
  split_ifs with hroomId
  · exact hR.refl s
  · obtain ⟨room, hroom, -⟩ := getGameRoom_of_lookup
      (lookup_getRoomByUserId s cs.room userId (by omega)) cs.miss
    rw [hroom]
    simp only
    split
    · split_ifs
      · exact hR.refl s
      · exact hR.sendToRoom s _ _ _ _ _ _ _
    · exact hR.refl s

theorem leaveRoom_rel (hR : GameRelation R) (s : GomokuServer) (roomId userId opponentId : ℤ) :
    R s (leaveRoom s roomId userId opponentId) := by
  have hlobby : ∀ s : GomokuServer, R s
      (if (s.getConnectionByUserId userId).any s.connected then
        s.addToLobby userId (s.getConnectionByUserId userId) else s) := by
    intro s
    split_ifs with hconnected
    · exact hR.addToLobby s _ _ (reaches_getConnectionByUserId rfl hconnected)
    · exact hR.refl s
  unfold leaveRoom
  refine hR.trans (hR.trans ?_ (hlobby _)) (hR.removeGameRoom _ _)
  split_ifs with hconnected
  · have hsame := (frame_sendIfConnected s (s.getConnectionByUserId opponentId)
      (gameOverMessage opponentId)).toSameConnections
    exact hR.trans (hR.sendIfConnected s _ _) (hR.addToLobby _ _ _
      (reaches_getConnectionByUserId (hsame.getConnectionByUserId opponentId) hconnected))
  · exact hR.refl s

/-- The opponent is put into the lobby, with whatever connection he has. -/
theorem abandonRoom_rel (hR : GameRelation R)
    (hadd : ∀ s userId conn, R s (s.addToLobby userId conn)) (s : GomokuServer)
    (oppConn : Option Conn) (roomId opponentId : ℤ) :
    R s (abandonRoom s oppConn roomId opponentId) := by
  unfold abandonRoom
  simp only
  apply hR.trans (hR.sendIfConnected s oppConn opponentLeft)
  split_ifs
  · exact hR.trans (hadd _ _ _) (hR.removeGameRoom _ _)
  · exact hR.removeGameRoom _ _

theorem handleLeaveGame_rel (hR : GameRelation R) (s : GomokuServer) (cs : Circumstances)
    (userId : ℤ) : R s (handleLeaveGame s cs userId) := by
  unfold handleLeaveGame
  simp only
  split_ifs with hroomId
  · exact hR.refl s
  · have hlookup := lookup_getRoomByUserId s cs.room userId (by omega)
    obtain ⟨room, hroom, -⟩ := getGameRoom_of_lookup hlookup cs.miss
    have h := hR.finishGameRoom s cs.faults _ (room.getOpponent userId) hlookup
    rw [hroom]
    simp only
    split
    · next hfinish =>
        rw [hfinish] at h
        split_ifs
        · exact h
        · exact hR.trans h (leaveRoom_rel hR _ _ _ _)
    · next hfinish =>
        rw [hfinish] at h
        exact h

theorem disconnectGame_rel (hR : GameRelation R)
    (hadd : ∀ s userId conn, R s (s.addToLobby userId conn)) (s : GomokuServer)
    (cs : Circumstances) (userId : ℤ) : R s (disconnectGame s cs userId) := by
  unfold disconnectGame
  simp only
  split_ifs with hroomId
  · have hlookup := lookup_getRoomByUserId s cs.room userId (by omega)
    obtain ⟨room, hroom, -⟩ := getGameRoom_of_lookup hlookup cs.miss
    have h := hR.finishGameRoom s cs.faults _ (room.getOpponent userId) hlookup
    rw [hroom]
    simp only
    split
    · next hfinish =>
        rw [hfinish] at h
        split_ifs
        · exact h
        · exact hR.trans h (abandonRoom_rel hR hadd _ _ _ _)
    · next hfinish =>
        rw [hfinish] at h
        exact h
  · exact hR.refl s

/-! ## A request for a match -/

/-- What `handleMatchRequest` does. -/
inductive Request (s : GomokuServer) (cs : Circumstances) (conn : Conn) (userId : ℤ) :
    GomokuServer → Prop
  | again (hmem : userId ∈ s.waitingQueue) :
      Request s cs conn userId (s.sendMessage conn (matchWaiting "已在匹配队列中，请耐心等待"))
  | waits (hempty : s.waitingQueue = []) :
      Request s cs conn userId ({ s with waitingQueue := [userId] }.sendMessage conn
        (matchWaiting "正在寻找对手..."))
  | pairs (opponent : ℤ) (queue : List ℤ) (hmem : userId ∉ s.waitingQueue)
      (hqueue : s.waitingQueue = opponent :: queue) (hopponent : 0 ≤ opponent) :
      Request s cs conn userId
        (startGame { s with waitingQueue := queue } cs conn userId opponent)
  /-- The number of the opponent is taken for a result of `tryMatch`. -/
  | negative (opponent : ℤ) (queue : List ℤ) (s' : GomokuServer) (hmem : userId ∉ s.waitingQueue)
      (hqueue : s.waitingQueue = opponent :: queue) (hopponent : opponent < 0)
      (hs' : (opponent ≠ -1 ∧ opponent ≠ -2 ∧ s' = { s with waitingQueue := queue }) ∨
        ((opponent = -1 ∨ opponent = -2) ∧ ∃ reason,
          s' = { s with waitingQueue := queue }.sendMessage conn (matchWaiting reason))) :
      Request s cs conn userId s'

theorem request_handleMatchRequest (s : GomokuServer) (cs : Circumstances) (conn : Conn)
    (userId : ℤ) : Request s cs conn userId (handleMatchRequest s cs conn userId) := by
  unfold handleMatchRequest tryMatch
  by_cases hmem : userId ∈ s.waitingQueue
  · rw [if_pos hmem]
    exact .again hmem
  · rw [if_neg hmem]
    cases hqueue : s.waitingQueue with
    | nil => exact .waits hqueue
    | cons opponent queue =>
        simp only
        split_ifs with hopponent hone htwo
        · exact .pairs opponent queue hmem hqueue hopponent
        · exact .negative opponent queue _ hmem hqueue (by omega) (.inr ⟨.inl hone, _, rfl⟩)
        · exact .negative opponent queue _ hmem hqueue (by omega) (.inr ⟨.inr htwo, _, rfl⟩)
        · exact .negative opponent queue _ hmem hqueue (by omega) (.inl ⟨hone, htwo, rfl⟩)

/-! ## Events -/

/-- The type of a message of a client. -/
def typeOf (text : JsonText) (message : String) : Option String := do
  (← text.parse message).value? Json.getString? "type" ""

theorem dispatch_rel (hR : GameRelation R) (s : GomokuServer) (cs : Circumstances) (conn : Conn)
    (msg : Json) {type : String} (hrequest : type ≠ "match_request")
    (hcancel : type ≠ "match_cancel") : R s (dispatch s cs conn msg type) := by
  unfold dispatch
  simp only [hrequest, hcancel, if_false]
  split_ifs
  · exact handleMove_rel hR cs rfl msg
  · exact handleStateRequest_rel hR s cs conn _
  · exact handleChatLobby_rel hR s cs _ msg
  · exact handleChatRoom_rel hR s cs conn _ msg
  · exact handleLeaveGame_rel hR s cs _
  · exact hR.refl s

/-- What an event does. -/
inductive Turn (text : JsonText) (s : GomokuServer) : Event × Circumstances → GomokuServer → Prop
  | upgrade (conn : Conn) (userId : ℤ) (cs : Circumstances) :
      Turn text s (.upgrade conn userId, cs) (handle s conn userId)
  | request (conn : Conn) (message : String) (cs : Circumstances)
      (htype : typeOf text message = some "match_request") :
      Turn text s (.message conn message, cs) (handleMatchRequest s cs conn (s.getUserId conn))
  | cancel (conn : Conn) (message : String) (cs : Circumstances)
      (htype : typeOf text message = some "match_cancel") :
      Turn text s (.message conn message, cs) (handleMatchCancel s (s.getUserId conn))
  | play (conn : Conn) (message : String) (cs : Circumstances) (s' : GomokuServer)
      (hrequest : typeOf text message ≠ some "match_request")
      (hcancel : typeOf text message ≠ some "match_cancel")
      (hplay : ∀ R, GameRelation R → R s s') :
      Turn text s (.message conn message, cs) s'
  | close (conn : Conn) (cs : Circumstances) : Turn text s (.close conn, cs) (onClose s cs conn)
  | network (conn : Conn) (connected : Bool) (cs : Circumstances) :
      Turn text s (.network conn connected, cs)
        { s with connected := Function.update s.connected conn connected }

theorem turn_step (text : JsonText) (s : GomokuServer) (event : Event × Circumstances) :
    Turn text s event (step text s event) := by
  obtain ⟨event, cs⟩ := event
  cases event with
  | upgrade conn userId => exact .upgrade conn userId cs
  | close conn => exact .close conn cs
  | network conn connected => exact .network conn connected cs
  | message conn message =>
      change Turn text s _ (onMessage text s cs conn message)
      have hnone (h : typeOf text message = none) : Turn text s (.message conn message, cs) s :=
        .play conn message cs s (by simp [h]) (by simp [h]) fun R hR ↦ hR.refl s
      unfold onMessage
      cases hparse : text.parse message with
      | none => exact hnone (by simp [typeOf, hparse])
      | some msg =>
          simp only
          cases hvalue : msg.value? Json.getString? "type" "" with
          | none => exact hnone (by simp [typeOf, hparse, hvalue])
          | some type =>
              have htype : typeOf text message = some type := by simp [typeOf, hparse, hvalue]
              by_cases hrequest : type = "match_request"
              · subst hrequest
                exact .request conn message cs htype
              · by_cases hcancel : type = "match_cancel"
                · subst hcancel
                  exact .cancel conn message cs htype
                · refine .play conn message cs _ (by simp [htype, hrequest])
                    (by simp [htype, hcancel]) fun R hR ↦ ?_
                  exact dispatch_rel hR s cs conn msg hrequest hcancel

end GameWsHandler

end HttpRaftKv.Gomoku
