import HttpRaftKv.Gomoku.Waiting

/-!
# A user who leaves

`onClose` takes a user out of the queue and of the lobby, ends his game and
forgets his connection.  It puts the opponent back into the lobby, so the user is
gone if he does not play against himself, which no match brings about.  He stays
away until he opens a connection again, unless his game could not be ended and the
connection of his opponent is closed.
-/

namespace HttpRaftKv.Gomoku

namespace GomokuServer

/-- Nobody plays against himself. -/
def Apart (s : GomokuServer) : Prop :=
  ∀ r room, (r, room) ∈ s.gameRooms → room.player1 ≠ room.player2

/-- The user is in neither the queue, the lobby nor the maps. -/
structure Absent (s : GomokuServer) (userId : ℤ) : Prop where
  waitingQueue : userId ∉ s.waitingQueue
  lobbyConnections : ∀ conn, (userId, conn) ∉ s.lobbyConnections
  connToUserId : ∀ conn, s.connToUserId conn ≠ some userId
  userIdToConnPtr : s.userIdToConnPtr userId = none

/-- The connection is the only one of the user. -/
def Alone (s : GomokuServer) (conn : Conn) (userId : ℤ) : Prop :=
  ∀ other, s.connToUserId other = some userId → other = conn

theorem lobbyConnections_keepRoom (s : GomokuServer) (roomId : ℤ) (result : PvpGameResult) :
    (s.keepRoom roomId result).2.lobbyConnections = s.lobbyConnections := by
  unfold keepRoom
  split_ifs
  · rfl
  · split
    · rfl
    · rfl

theorem lobbyConnections_sendIfConnected (s : GomokuServer) (conn : Option Conn) (message : Json) :
    (s.sendIfConnected conn message).lobbyConnections = s.lobbyConnections := by
  unfold sendIfConnected
  split
  · split_ifs
    · rfl
    · rfl
  · rfl

theorem lobbyConnections_finishGameRoom (s : GomokuServer) (faults : Faults)
    (roomId winnerId : ℤ) :
    (s.finishGameRoom faults roomId winnerId).2.lobbyConnections = s.lobbyConnections :=
  lobbyConnections_keepRoom _ _ _

theorem lobbyConnections_moveGameRoom (s : GomokuServer) (faults : Faults)
    (roomId playerId x y : ℤ) :
    (s.moveGameRoom faults roomId playerId x y).2.lobbyConnections = s.lobbyConnections := by
  unfold moveGameRoom
  split
  · rfl
  · exact lobbyConnections_keepRoom _ _ _

theorem lobbyConnections_createGameRoom (s : GomokuServer) (faults : Faults)
    (player1 player2 : ℤ) :
    (s.createGameRoom faults player1 player2).2.lobbyConnections = s.lobbyConnections := by
  unfold createGameRoom
  split
  · rfl
  · simp only
    split_ifs
    · rfl
    · split
      · rfl
      · rfl

theorem lobbyConnections_removeUserId (s : GomokuServer) (conn : Conn) :
    (s.removeUserId conn).lobbyConnections = s.lobbyConnections := by
  unfold removeUserId
  split
  · rfl
  · rfl

theorem Absent.getUserId_ne {s : GomokuServer} {userId : ℤ} (h : s.Absent userId)
    (hpos : 0 < userId) (conn : Conn) : s.getUserId conn ≠ userId := by
  have hconn := h.connToUserId conn
  unfold getUserId
  cases huser : s.connToUserId conn with
  | none => exact fun heq ↦ hpos.ne heq
  | some user => exact fun heq ↦ hconn (by rw [huser]; exact congrArg some heq)

theorem Absent.of_frame {s s' : GomokuServer} {userId : ℤ} (h : s.Absent userId)
    (hframe : s.Frame s') (hlobby : ∀ conn, (userId, conn) ∉ s'.lobbyConnections) :
    s'.Absent userId where
  waitingQueue := hframe.waitingQueue ▸ h.waitingQueue
  lobbyConnections := hlobby
  connToUserId := hframe.connToUserId ▸ h.connToUserId
  userIdToConnPtr := hframe.userIdToConnPtr ▸ h.userIdToConnPtr

end GomokuServer

namespace GameWsHandler

open GomokuServer

/-! ## What every event keeps -/

/-- The copies stand for stored rooms, nobody plays against himself, and nobody is
twice in the queue. -/
structure Sound (s : GomokuServer) : Prop where
  copies : ∃ lobby, s.Copies lobby
  apart : s.Apart
  nodup : s.waitingQueue.Nodup

theorem Sound.step {s : GomokuServer} (h : Sound s) (text : JsonText)
    (event : Event × Circumstances) : Sound (step text s event) := by
  obtain ⟨lobby, hcopies⟩ := h.copies
  rcases step_rooms text event hcopies with
    ⟨hrenews, -⟩ | ⟨userId, opponent, hcopies', hrooms, hne, -⟩
  · obtain ⟨hcopies', hold⟩ := hrenews lobby hcopies
    refine ⟨hcopies', fun r room hroom ↦ ?_, nodup_step text h.nodup event⟩
    obtain ⟨room', hroom', hplayers⟩ := hold r room hroom
    rw [← hplayers.1, ← hplayers.2]
    exact h.apart r room' hroom'
  · refine ⟨hcopies', fun r room hroom ↦ ?_, nodup_step text h.nodup event⟩
    rw [hrooms] at hroom
    rcases mem_assign.mp hroom with ⟨-, rfl⟩ | ⟨-, hroom⟩
    · exact hne
    · exact h.apart r room hroom

theorem Sound.run {s : GomokuServer} (h : Sound s) (text : JsonText)
    (events : List (Event × Circumstances)) : Sound (Runs.run (GameWsHandler.step text) s events) :=
  Runs.invariant_of_step (P := fun _ s ↦ Sound s) (GameWsHandler.step text) h
    (fun _ event h ↦ h.step text event) events

/-- The connection of an event. -/
def Event.conn : Event → Conn
  | .upgrade conn _ => conn
  | .message conn _ => conn
  | .close conn => conn
  | .network conn _ => conn

/-- Only an upgrade and a close of a connection change whose it is. -/
theorem connToUserId_step (text : JsonText) (s : GomokuServer) {event : Event × Circumstances}
    {conn : Conn} (hupgrade : ∀ userId, event.1 ≠ .upgrade conn userId)
    (hclose : event.1 ≠ .close conn) :
    (step text s event).connToUserId conn = s.connToUserId conn := by
  have hturn := turn_step text s event
  generalize step text s event = s' at hturn
  cases hturn with
  | upgrade other userId cs =>
      have hne : conn ≠ other := fun heq ↦ hupgrade userId (by rw [heq])
      simp [handle, setUserId, addToLobby, Function.update_of_ne hne]
  | request other message cs htype =>
      rw [(handleMatchRequest_sameConnections s cs other _).connToUserId]
  | cancel other message cs htype => rw [(handleMatchCancel_sameConnections s _).connToUserId]
  | play other message cs s' hrequest hcancel hplay =>
      rw [(hplay _ gameRelation_frame).connToUserId]
  | close other cs =>
      have hne : conn ≠ other := fun heq ↦ hclose (by rw [heq])
      rw [(onClose_maps s cs other).1]
      unfold removeUserId
      split
      · rfl
      · exact Function.update_of_ne hne _ _
  | network other connected cs => rfl

theorem connToUserId_messages (text : JsonText) (s : GomokuServer)
    {events : List (Event × Circumstances)} {conn : Conn}
    (h : ∀ event ∈ events, ∃ message, event.1 = .message conn message) :
    (Runs.run (step text) s events).connToUserId = s.connToUserId := by
  induction events using List.reverseRecOn with
  | nil => rfl
  | append_singleton events event ih =>
      obtain ⟨message, hevent⟩ := h event (by simp)
      rw [Runs.run_snoc, ← ih fun event hmem ↦ h event (by simp [hmem])]
      funext other
      apply connToUserId_step
      · simp [hevent]
      · simp [hevent]

/-! ## The end of a connection -/

/-- The room that is found for a user who plays has the players of every other copy
of it. -/
theorem getGameRoom_getRoomByUserId {s : GomokuServer} (h : ∃ lobby, s.Copies lobby)
    {first userId : ℤ} (hroomId : s.getRoomByUserId first userId ≠ 0) (faults : Faults) :
    ∃ room, s.getGameRoom faults (s.getRoomByUserId first userId) = (some (some room), s) ∧
      (s.getRoomByUserId first userId, room) ∈ s.gameRooms ∧ Plays userId room := by
  obtain ⟨lobby, hcopies⟩ := h
  obtain ⟨room', hroom', hplays⟩ := exists_of_getRoomByUserId hroomId
  obtain ⟨room, hget, hlookup⟩ := getGameRoom_of_lookup (lookup_isSome_of_mem hroom') faults
  obtain ⟨l₁, l₂, heq, -⟩ := List.lookup_eq_some_iff.mp hlookup
  have hroom : (s.getRoomByUserId first userId, room) ∈ s.gameRooms := by simp [heq]
  refine ⟨room, hget, hroom, ?_⟩
  obtain ⟨-, hone, htwo⟩ := hcopies.stored _ room hroom
  obtain ⟨-, hone', htwo'⟩ := hcopies.stored _ room' hroom'
  unfold Plays at hplays ⊢
  rwa [hone, htwo, ← hone', ← htwo']

theorem lobbyConnections_disconnectGame {s : GomokuServer} (h : ∃ lobby, s.Copies lobby)
    (cs : Circumstances) {user userId : ℤ}
    (hopponent : ∀ r room, (r, room) ∈ s.gameRooms → Plays user room →
      room.getOpponent user ≠ userId)
    (hlobby : ∀ conn, (userId, conn) ∉ s.lobbyConnections) (conn : Option Conn) :
    (userId, conn) ∉ (disconnectGame s cs user).lobbyConnections := by
  unfold disconnectGame
  simp only
  split_ifs with hroomId
  · have hfound : s.getRoomByUserId cs.room user ≠ 0 := by omega
    obtain ⟨room, hroom, hmem, hplays⟩ := getGameRoom_getRoomByUserId h hfound cs.miss
    have hne := hopponent _ room hmem hplays
    have hfinish := lobbyConnections_finishGameRoom s cs.faults (s.getRoomByUserId cs.room user)
      (room.getOpponent user)
    rw [hroom]
    simp only
    generalize s.getRoomByUserId cs.room user = roomId at hfinish ⊢
    generalize s.finishGameRoom cs.faults roomId (room.getOpponent user) = finished at hfinish ⊢
    obtain ⟨result, s'⟩ := finished
    have hlobby' : ∀ conn, (userId, conn) ∉ s'.lobbyConnections := hfinish ▸ hlobby
    cases result with
    | none => exact hlobby' conn
    | some result =>
        simp only
        split_ifs
        · exact hlobby' conn
        · unfold abandonRoom
          simp only [removeGameRoom]
          split_ifs
          · rw [addToLobby, lobbyConnections_sendIfConnected, mem_assign]
            rintro (⟨heq, -⟩ | ⟨-, hmem⟩)
            · exact hne heq.symm
            · exact hlobby' conn hmem
          · rw [lobbyConnections_sendIfConnected]
            exact hlobby' conn
  · exact hlobby conn

/-- `onClose` puts nobody but the opponent of its user into the lobby. -/
theorem lobbyConnections_onClose {s : GomokuServer} (h : ∃ lobby, s.Copies lobby)
    (cs : Circumstances) {conn : Conn} {userId : ℤ}
    (hopponent : ∀ r room, (r, room) ∈ s.gameRooms → Plays (s.getUserId conn) room →
      room.getOpponent (s.getUserId conn) ≠ userId)
    (hlobby : ∀ other, (userId, other) ∈ s.lobbyConnections →
      0 < userId ∧ s.getUserId conn = userId) (other : Option Conn) :
    (userId, other) ∉ (onClose s cs conn).lobbyConnections := by
  unfold onClose
  simp only
  rw [lobbyConnections_removeUserId]
  split_ifs with hpos
  · have hcopies : ∃ lobby, ((s.leaveQueue (s.getUserId conn)).removeFromLobby
        (s.getUserId conn)).Copies lobby := by
      obtain ⟨lobby, hcopies⟩ := h
      exact ⟨lobby, hcopies.holds, hcopies.stored⟩
    refine lobbyConnections_disconnectGame hcopies cs hopponent (fun other hother ↦ ?_) other
    obtain ⟨hmem, hne⟩ := List.mem_filter.mp hother
    exact of_decide_eq_true hne (hlobby other hmem).2.symm
  · intro hmem
    obtain ⟨hpos', heq⟩ := hlobby other hmem
    exact hpos (heq ▸ hpos')

/-- A user is gone after `onClose` of his only connection. -/
theorem absent_onClose {s : GomokuServer} (h : Sound s) {conn : Conn} {userId : ℤ}
    (hconn : s.connToUserId conn = some userId) (hpos : 0 < userId) (halone : s.Alone conn userId)
    (cs : Circumstances) : (onClose s cs conn).Absent userId := by
  have hgetUserId : s.getUserId conn = userId := by simp [getUserId, hconn]
  obtain ⟨hconnToUserId, huserIdToConnPtr⟩ := onClose_maps s cs conn
  constructor
  · rw [waitingQueue_onClose, hgetUserId, if_pos hpos]
    exact h.nodup.not_mem_erase
  · refine lobbyConnections_onClose h.copies cs (fun r room hroom hplays ↦ ?_)
      fun _ _ ↦ ⟨hpos, hgetUserId⟩
    rw [hgetUserId]
    have hne := h.apart r room hroom
    unfold GameRoom.getOpponent
    split_ifs with hplayer
    · rw [hplayer]
      exact hne.symm
    · exact Ne.symm hplayer
  · intro other hother
    rw [hconnToUserId, removeUserId, hconn] at hother
    by_cases hne : other = conn
    · simp [hne] at hother
    · exact hne (halone other (by simpa [hne] using hother))
  · rw [huserIdToConnPtr, removeUserId, hconn]
    simp

/-! ## Behind the end -/

/-- A user who has gone stays away: the event is no upgrade of his, and no connection
is closed whose user is in a game with him. -/
def Spares (s : GomokuServer) (userId : ℤ) : Event → Prop
  | .upgrade _ user => user ≠ userId
  | .close conn => ∀ r room, (r, room) ∈ s.gameRooms → Plays (s.getUserId conn) room →
      ¬ Plays userId room
  | _ => True

variable {userId : ℤ}

theorem lobbyConnections_startGame {s : GomokuServer} {cs : Circumstances} {conn : Conn}
    {user opponent : ℤ} {entry : ℤ × Option Conn}
    (h : entry ∈ (startGame s cs conn user opponent).lobbyConnections) :
    entry ∈ s.lobbyConnections := by
  have hlobby := lobbyConnections_createGameRoom s cs.faults user opponent
  unfold startGame at h
  generalize s.createGameRoom cs.faults user opponent = created at h hlobby
  obtain ⟨roomId, s'⟩ := created
  rw [← hlobby]
  cases roomId with
  | none => exact h
  | some roomId =>
      simp only at h
      split_ifs at h
      · exact h
      · rw [lobbyConnections_sendIfConnected] at h
        exact List.mem_of_mem_filter (List.mem_of_mem_filter h)

theorem plays_getOpponent (user : ℤ) (room : GameRoom) : Plays (room.getOpponent user) room := by
  unfold GameRoom.getOpponent
  split_ifs
  · exact .inr rfl
  · exact .inl rfl

theorem gameRelation_absent (hpos : 0 < userId) :
    GameRelation fun s s' ↦ s.Absent userId → s'.Absent userId where
  refl := fun _ h ↦ h
  trans := fun hfirst hsecond h ↦ hsecond (hfirst h)
  sendMessage := fun _ _ _ h ↦ h.of_frame ⟨⟨rfl, rfl, rfl⟩, rfl⟩ h.lobbyConnections
  addToLobby := by
    rintro s user _ ⟨conn, rfl, hreaches⟩ h
    refine h.of_frame (frame_addToLobby s user _) fun other ↦ ?_
    rw [addToLobby, mem_assign]
    rintro (⟨rfl, -⟩ | ⟨-, hmem⟩)
    · rcases hreaches with hown | hreached
      · exact h.getUserId_ne hpos conn hown
      · exact absurd (h.userIdToConnPtr.symm.trans hreached) (by simp)
    · exact h.lobbyConnections other hmem
  removeGameRoom := fun _ _ h ↦ h.of_frame ⟨⟨rfl, rfl, rfl⟩, rfl⟩ h.lobbyConnections
  loadGameRoom := by
    intro s faults roomId _ h
    refine h.of_frame (gameRelation_frame.loadGameRoom s faults roomId ‹_›) ?_
    rw [loadGameRoom, lobbyConnections_keepRoom]
    exact h.lobbyConnections
  moveGameRoom := by
    intro s faults roomId playerId x y _ h
    refine h.of_frame (s.frame_moveGameRoom faults roomId playerId x y) ?_
    rw [lobbyConnections_moveGameRoom]
    exact h.lobbyConnections
  finishGameRoom := by
    intro s faults roomId winnerId _ h
    refine h.of_frame (gameRelation_frame.finishGameRoom s faults roomId winnerId ‹_›) ?_
    rw [lobbyConnections_finishGameRoom]
    exact h.lobbyConnections

theorem absent_upgrade {s : GomokuServer} (h : s.Absent userId) {user : ℤ} (hne : user ≠ userId)
    (conn : Conn) : (handle s conn user).Absent userId := by
  constructor
  · exact h.waitingQueue
  · intro other
    rw [handle, addToLobby, mem_assign]
    rintro (⟨heq, -⟩ | ⟨-, hmem⟩)
    · exact hne heq.symm
    · exact h.lobbyConnections other hmem
  · intro other hother
    by_cases hconn : other = conn
    · subst hconn
      simp [handle, setUserId, addToLobby, hne] at hother
    · exact h.connToUserId other (by simpa [handle, setUserId, addToLobby, hconn] using hother)
  · simpa [handle, setUserId, addToLobby, hne.symm] using h.userIdToConnPtr

/-- A request of another user takes him at most out of the queue. -/
theorem absent_request {s : GomokuServer} (h : s.Absent userId) (hpos : 0 < userId)
    (cs : Circumstances) (conn : Conn) {user : ℤ} (hne : user ≠ userId) :
    (handleMatchRequest s cs conn user).Absent userId := by
  have hqueue : ∀ queue, userId ∉ queue → ({ s with waitingQueue := queue }).Absent userId :=
    fun queue hnot ↦ ⟨hnot, h.lobbyConnections, h.connToUserId, h.userIdToConnPtr⟩
  have hrest : ∀ opponent queue, s.waitingQueue = opponent :: queue → userId ∉ queue :=
    fun opponent queue heq hmem ↦ h.waitingQueue (by simp [heq, hmem])
  have hsend := (gameRelation_absent hpos).sendMessage
  have hrequest := request_handleMatchRequest s cs conn user
  generalize handleMatchRequest s cs conn user = s' at hrequest
  cases hrequest with
  | again hmem => exact hsend s conn _ h
  | waits hempty => exact hsend _ conn _ (hqueue _ (by simpa using hne.symm))
  | pairs opponent queue hmem heq hopponent =>
      have h' := hqueue queue (hrest opponent queue heq)
      exact h'.of_frame (startGame_frame _ cs conn _ opponent) fun other hother ↦
        h'.lobbyConnections other (lobbyConnections_startGame hother)
  | negative opponent queue _ hmem heq hopponent hs' =>
      have h' := hqueue queue (hrest opponent queue heq)
      rcases hs' with ⟨-, -, rfl⟩ | ⟨-, reason, rfl⟩
      · exact h'
      · exact hsend _ conn _ h'

theorem absent_close {s : GomokuServer} (h : s.Absent userId) (hcopies : ∃ lobby, s.Copies lobby)
    (cs : Circumstances) {conn : Conn} (hspares : Spares s userId (.close conn)) :
    (onClose s cs conn).Absent userId := by
  obtain ⟨hconnToUserId, huserIdToConnPtr⟩ := onClose_maps s cs conn
  constructor
  · rw [waitingQueue_onClose]
    split_ifs
    · exact fun hmem ↦ h.waitingQueue (List.mem_of_mem_erase hmem)
    · exact h.waitingQueue
  · refine lobbyConnections_onClose hcopies cs (fun r room hroom hplays heq ↦ ?_)
      fun other hother ↦ absurd hother (h.lobbyConnections other)
    exact hspares r room hroom hplays (heq ▸ plays_getOpponent _ room)
  · intro other
    rw [hconnToUserId]
    unfold removeUserId
    split
    · exact h.connToUserId other
    · by_cases hconn : other = conn
      · simp [hconn]
      · simpa [hconn] using h.connToUserId other
  · rw [huserIdToConnPtr]
    unfold removeUserId
    split
    · exact h.userIdToConnPtr
    · next user huser =>
        by_cases heq : userId = user
        · simp [heq]
        · simpa [heq] using h.userIdToConnPtr

/-- A user who has gone does not come back by an event that spares him. -/
theorem absent_step {s : GomokuServer} (h : s.Absent userId) (hpos : 0 < userId)
    (hcopies : ∃ lobby, s.Copies lobby) (text : JsonText) {event : Event × Circumstances}
    (hspares : Spares s userId event.1) : (step text s event).Absent userId := by
  have hturn := turn_step text s event
  generalize step text s event = s' at hturn
  cases hturn with
  | upgrade conn user cs => exact absent_upgrade h hspares conn
  | request conn message cs htype => exact absent_request h hpos cs conn (h.getUserId_ne hpos conn)
  | cancel conn message cs htype =>
      apply (gameRelation_absent hpos).sendIfConnected
      exact ⟨fun hmem ↦ h.waitingQueue (List.mem_of_mem_erase hmem), h.lobbyConnections,
        h.connToUserId, h.userIdToConnPtr⟩
  | play conn message cs s' hrequest hcancel hplay =>
      exact hplay _ (gameRelation_absent hpos) h
  | close conn cs => exact absent_close h hcopies cs hspares
  | network conn connected cs =>
      exact ⟨h.waitingQueue, h.lobbyConnections, h.connToUserId, h.userIdToConnPtr⟩

end GameWsHandler

end HttpRaftKv.Gomoku
