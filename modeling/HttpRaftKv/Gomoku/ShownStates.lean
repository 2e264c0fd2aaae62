import HttpRaftKv.Gomoku.GameWsHandler
import HttpRaftKv.Gomoku.StoredGame
import HttpRaftKv.Lib.Runs

/-!
# The states that clients are shown

A handler makes at most one call of the service that changes the store, and then
it sends.  A message with the state of a game carries the snapshot that the call
returned, so it is what the store holds for the room when the message is sent,
and over a run the games in the messages only go forward.
-/

namespace HttpRaftKv.Gomoku

open PvpGameService

/-- The message shows no state of a game. -/
def Plain (message : Json) : Prop :=
  message.at? "type" ≠ some (.string "move_result") ∧
    message.at? "type" ≠ some (.string "state_result")

namespace GomokuServer

/-! ## What the operations leave alone -/

/-- The store is untouched, and nothing is sent. -/
def Quiet (s s' : GomokuServer) : Prop :=
  s'.values = s.values ∧ s'.sent = s.sent

theorem quiet_removeUserId (s : GomokuServer) (conn : Conn) : s.Quiet (s.removeUserId conn) := by
  unfold removeUserId
  split
  · exact ⟨rfl, rfl⟩
  · exact ⟨rfl, rfl⟩

theorem quiet_tryMatch (s : GomokuServer) (userId : ℤ) : s.Quiet (s.tryMatch userId).2 := by
  unfold tryMatch
  split_ifs
  · exact ⟨rfl, rfl⟩
  · split
    · exact ⟨rfl, rfl⟩
    · exact ⟨rfl, rfl⟩

theorem quiet_getGameRoom (s : GomokuServer) (faults : Faults) (roomId : ℤ) :
    s.Quiet (s.getGameRoom faults roomId).2 := by
  unfold getGameRoom
  split
  · exact ⟨rfl, rfl⟩
  · simp only
    split_ifs
    · exact ⟨rfl, rfl⟩
    · split
      · exact ⟨rfl, rfl⟩
      · exact ⟨rfl, rfl⟩

theorem quiet_keepRoom (s : GomokuServer) (roomId : ℤ) (result : PvpGameResult) :
    s.Quiet (s.keepRoom roomId result).2 := by
  unfold keepRoom
  split_ifs
  · exact ⟨rfl, rfl⟩
  · split
    · exact ⟨rfl, rfl⟩
    · exact ⟨rfl, rfl⟩

/-- What `keepRoom` returns is what it was given. -/
theorem eq_of_keepRoom {s s' : GomokuServer} {roomId : ℤ} {result result' : PvpGameResult}
    (h : s.keepRoom roomId result = (some result', s')) : result' = result := by
  unfold keepRoom at h
  split_ifs at h
  · exact (Option.some.inj (Prod.ext_iff.mp h).1).symm
  · split at h
    · exact absurd (Prod.ext_iff.mp h).1 (by simp)
    · exact (Option.some.inj (Prod.ext_iff.mp h).1).symm

/-- The store is untouched, and only plain messages are sent. -/
def Chats (s s' : GomokuServer) : Prop :=
  s'.values = s.values ∧
    ∃ new, s'.sent = s.sent ++ new ∧ ∀ m ∈ new, m.stored = s.values ∧ Plain m.message

theorem Quiet.chats {s s' : GomokuServer} (h : s.Quiet s') : s.Chats s' :=
  ⟨h.1, [], by simp [h.2], by simp⟩

theorem Chats.refl (s : GomokuServer) : s.Chats s :=
  Quiet.chats ⟨rfl, rfl⟩

theorem Chats.trans {s s' s'' : GomokuServer} (h : s.Chats s') (h' : s'.Chats s'') :
    s.Chats s'' := by
  obtain ⟨hvalues, new, hsent, hnew⟩ := h
  obtain ⟨hvalues', new', hsent', hnew'⟩ := h'
  refine ⟨hvalues'.trans hvalues, new ++ new', by rw [hsent', hsent, List.append_assoc], ?_⟩
  intro m hm
  rcases List.mem_append.mp hm with hm | hm
  · exact hnew m hm
  · rw [← hvalues]
    exact hnew' m hm

theorem Chats.quiet {s s' s'' : GomokuServer} (h : s.Chats s') (h' : s'.Quiet s'') :
    s.Chats s'' :=
  h.trans h'.chats

theorem chats_sendMessage (s : GomokuServer) (conn : Conn) {message : Json}
    (h : Plain message) : s.Chats (s.sendMessage conn message) :=
  ⟨rfl, [⟨conn, message, s.values, s.connToUserId conn⟩], rfl, by simpa using h⟩

theorem chats_sendIfConnected (s : GomokuServer) (conn : Option Conn) {message : Json}
    (h : Plain message) : s.Chats (s.sendIfConnected conn message) := by
  unfold sendIfConnected
  split
  · split_ifs
    · exact s.chats_sendMessage _ h
    · exact .refl s
  · exact .refl s

theorem chats_broadcastLobby (s : GomokuServer) (now senderId : ℤ) (username message : String) :
    s.Chats (s.broadcastLobby now senderId username message) := by
  unfold broadcastLobby
  simp only
  generalize hmsg : Json.ofFields _ = msg
  have hplain : Plain msg := by
    subst hmsg
    simp [Plain]
  generalize s.lobbyConnections = entries
  induction entries generalizing s with
  | nil => exact .refl s
  | cons entry entries ih =>
      apply (s.chats_sendIfConnected entry.2 hplain).trans
      exact ih _

theorem chats_sendToRoom (s : GomokuServer) (now roomId senderId : ℤ) (username message : String)
    (conn1 conn2 : Option Conn) :
    s.Chats (s.sendToRoom now roomId senderId username message conn1 conn2) := by
  unfold sendToRoom
  refine (s.chats_sendIfConnected conn1 ?_).trans (chats_sendIfConnected _ conn2 ?_)
  · simp [Plain]
  · simp [Plain]

end GomokuServer

namespace GameWsHandler

/-! ## What a handler does -/

/-- The message shows the state that the call of the handler returned. -/
inductive Shown (faults : Faults) (values values' : Values) : Json → Prop
  | state (roomId : ℤ) (snapshot : Json)
      (hload : call values faults (.load roomId) = some (⟨.ok, snapshot⟩, values')) :
      Shown faults values values' (GameWsMessages.stateResult snapshot)
  | move (roomId playerId x y : ℤ) (snapshot message : Json)
      (hmove : call values faults (.move roomId playerId x y) = some (⟨.ok, snapshot⟩, values'))
      (hroomId : message.at? "roomId" = some (.integer roomId))
      (hstate : message.at? "state" = some snapshot) :
      Shown faults values values' message

/-- A handler makes at most one call that changes the store.  What it sends is
plain or shows the state that the call returned, and it is sent when the call is
done. -/
structure Handled (faults : Faults) (s s' : GomokuServer) : Prop where
  values : s'.values = s.values ∨ ∃ c result, call s.values faults c = some (result, s'.values)
  sent : ∃ new, s'.sent = s.sent ++ new ∧ ∀ m ∈ new, m.stored = s'.values ∧
    (Plain m.message ∨ Shown faults s.values s'.values m.message)

variable {faults : Faults} {s s' s'' : GomokuServer}

theorem handled_of_chats (h : s.Chats s') : Handled faults s s' where
  values := .inl h.1
  sent := by
    obtain ⟨hvalues, new, hsent, hnew⟩ := h
    exact ⟨new, hsent, fun m hm ↦ ⟨(hnew m hm).1.trans hvalues.symm, .inl (hnew m hm).2⟩⟩

theorem Handled.before (h : Handled faults s' s'') (hquiet : s.Quiet s') :
    Handled faults s s'' := by
  obtain ⟨hvalues, hsent⟩ := hquiet
  obtain ⟨hvalues', hsent'⟩ := h
  rw [hvalues] at hvalues' hsent'
  rw [hsent] at hsent'
  exact ⟨hvalues', hsent'⟩

theorem Handled.chats (h : Handled faults s s') (hchats : s'.Chats s'') : Handled faults s s'' where
  values := by
    rw [hchats.1]
    exact h.values
  sent := by
    obtain ⟨hvalues, new', hsent', hnew'⟩ := hchats
    obtain ⟨new, hsent, hnew⟩ := h.sent
    refine ⟨new ++ new', by rw [hsent', hsent, List.append_assoc], fun m hm ↦ ?_⟩
    rw [hvalues]
    rcases List.mem_append.mp hm with hm | hm
    · exact hnew m hm
    · exact ⟨(hnew' m hm).1, .inl (hnew' m hm).2⟩

/-! ## Sending -/

theorem plain_errorMessage (text : String) : Plain (errorMessage text) := by
  simp [Plain, errorMessage]

theorem plain_raftUnavailable (roomId : ℤ) :
    Plain (GameWsMessages.raftUnavailable roomId).message := by
  simp [Plain, GameWsMessages.raftUnavailable]

/-- A plain message is sent when the call is done. -/
theorem Handled.sendPlain (h : Handled faults s s') (conn : Conn) {message : Json}
    (hplain : Plain message) : Handled faults s (s'.sendMessage conn message) :=
  h.chats (s'.chats_sendMessage conn hplain)

theorem handled_refl (s : GomokuServer) : Handled faults s s :=
  handled_of_chats (.refl s)

theorem Handled.send (h : Handled faults s s') (conn : Conn) {message : Json}
    (hshown : Shown faults s.values s'.values message) :
    Handled faults s (s'.sendMessage conn message) where
  values := h.values
  sent := by
    obtain ⟨new, hsent, hnew⟩ := h.sent
    refine ⟨new ++ [⟨conn, message, s'.values, s'.connToUserId conn⟩], ?_, fun m hm ↦ ?_⟩
    · simp [GomokuServer.sendMessage, hsent]
    · rcases List.mem_append.mp hm with hm | hm
      · exact hnew m hm
      · rw [List.mem_singleton.mp hm]
        exact ⟨rfl, .inr hshown⟩

theorem Handled.sendIfConnected (h : Handled faults s s') (conn : Option Conn) {message : Json}
    (hshown : Shown faults s.values s'.values message) :
    Handled faults s (s'.sendIfConnected conn message) := by
  unfold GomokuServer.sendIfConnected
  split
  · split_ifs
    · exact h.send _ hshown
    · exact h
  · exact h

/-! ## Calls of the service -/

theorem PvpGameResult.eq_of_ok {result : PvpGameResult} (h : result.status = .ok) :
    result = ⟨.ok, result.snapshot⟩ := by
  rw [← h]

/-- The call of the service is done, and the copy of the room is renewed. -/
theorem keepRoom_spec {values' : Values} {c : Call} {result : PvpGameResult}
    (hcall : call s.values faults c = some (result, values')) (roomId : ℤ) :
    ∃ kept s', { s with values := values' }.keepRoom roomId result = (kept, s') ∧
      Handled faults s s' ∧
      ∀ result', kept = some result' → call s.values faults c = some (result', s'.values) := by
  have hquiet := { s with values := values' }.quiet_keepRoom roomId result
  rcases hkeep : { s with values := values' }.keepRoom roomId result with ⟨kept, s'⟩
  rw [hkeep] at hquiet
  have hvalues : s'.values = values' := hquiet.1
  refine ⟨kept, s', hkeep, ⟨.inr ⟨c, result, ?_⟩, [], ?_, by simp⟩, ?_⟩
  · rw [hvalues]
    exact hcall
  · rw [List.append_nil]
    exact hquiet.2
  · rintro result' rfl
    rw [hvalues, GomokuServer.eq_of_keepRoom hkeep]
    exact hcall

theorem moveGameRoom_spec (s : GomokuServer) (faults : Faults) (roomId playerId x y : ℤ) :
    ∃ moved s', s.moveGameRoom faults roomId playerId x y = (moved, s') ∧
      Handled faults s s' ∧ ∀ result, moved = some result →
        call s.values faults (.move roomId playerId x y) = some (result, s'.values) := by
  unfold GomokuServer.moveGameRoom
  cases hmove : move s.values faults roomId playerId x y with
  | none => exact ⟨none, s, rfl, handled_refl s, by simp⟩
  | some moved =>
      have hcall : call s.values faults (.move roomId playerId x y) = some (moved.1, moved.2) :=
        hmove
      exact keepRoom_spec hcall roomId

theorem loadGameRoom_spec (s : GomokuServer) (faults : Faults) (roomId : ℤ) :
    ∃ loaded s', s.loadGameRoom faults roomId = (loaded, s') ∧
      Handled faults s s' ∧ ∀ result, loaded = some result →
        call s.values faults (.load roomId) = some (result, s'.values) := by
  have hcall : call s.values faults (.load roomId) =
      some (load s.values faults roomId, s.values) := rfl
  exact keepRoom_spec hcall roomId

theorem finishGameRoom_handled (s : GomokuServer) (faults : Faults) (roomId winnerId : ℤ) :
    Handled faults s (s.finishGameRoom faults roomId winnerId).2 := by
  have hcall : call s.values faults (.finish roomId winnerId) =
      some (finish s.values faults roomId winnerId) := rfl
  obtain ⟨kept, s', hkeep, hhandled, -⟩ := keepRoom_spec hcall roomId
  have hfinish : s.finishGameRoom faults roomId winnerId = (kept, s') := hkeep
  rw [hfinish]
  exact hhandled

/-! ## Matching -/

theorem createGameRoom_handled (s : GomokuServer) (faults : Faults) (player1 player2 : ℤ) :
    Handled faults s (s.createGameRoom faults player1 player2).2 := by
  unfold GomokuServer.createGameRoom
  cases hcreate : createRoom s.values faults player1 player2 with
  | none => exact handled_refl s
  | some created =>
      obtain ⟨result, values'⟩ := created
      have hcall : call s.values faults (.createRoom player1 player2) = some (result, values') :=
        hcreate
      have hdone : Handled faults s { s with values := values' } :=
        ⟨.inr ⟨_, result, hcall⟩, [], by simp, by simp⟩
      simp only
      split_ifs
      · exact hdone
      · split
        · exact hdone
        · exact hdone.chats (GomokuServer.Quiet.chats ⟨rfl, rfl⟩)

theorem startGame_handled (s : GomokuServer) (cs : Circumstances) (conn : Conn)
    (userId opponent : ℤ) : Handled cs.faults s (startGame s cs conn userId opponent) := by
  unfold startGame
  have h := createGameRoom_handled s cs.faults userId opponent
  rcases hcreate : s.createGameRoom cs.faults userId opponent with ⟨roomId, s'⟩
  rw [hcreate] at h
  cases roomId with
  | none => exact h
  | some roomId =>
      simp only
      split_ifs
      · exact h.sendPlain conn (plain_raftUnavailable 0)
      · apply h.chats
        apply GomokuServer.Chats.trans (GomokuServer.Quiet.chats ⟨rfl, rfl⟩)
        refine (GomokuServer.chats_sendMessage _ conn ?_).trans
          (GomokuServer.chats_sendIfConnected _ _ ?_)
        · simp [Plain, matchFound]
        · simp [Plain, matchFound]

theorem handleMatchRequest_handled (s : GomokuServer) (cs : Circumstances) (conn : Conn)
    (userId : ℤ) : Handled cs.faults s (handleMatchRequest s cs conn userId) := by
  unfold handleMatchRequest
  have hquiet := s.quiet_tryMatch userId
  have hplain : ∀ text, Plain (matchWaiting text) := by
    simp [Plain, matchWaiting]
  have hmatched : Handled cs.faults s (s.tryMatch userId).2 := handled_of_chats hquiet.chats
  simp only
  split_ifs
  · exact (startGame_handled _ cs conn userId _).before hquiet
  · exact hmatched.sendPlain conn (hplain _)
  · exact hmatched.sendPlain conn (hplain _)
  · exact hmatched

theorem handleMatchCancel_handled (s : GomokuServer) (userId : ℤ) :
    Handled faults s (handleMatchCancel s userId) := by
  have hquiet : s.Quiet (s.leaveQueue userId) := ⟨rfl, rfl⟩
  apply handled_of_chats
  apply hquiet.chats.trans
  apply GomokuServer.chats_sendIfConnected
  simp [Plain, matchCancelled]

/-! ## Playing -/

theorem handleStateRequest_handled (s : GomokuServer) (cs : Circumstances) (conn : Conn)
    (userId : ℤ) : Handled cs.faults s (handleStateRequest s cs conn userId) := by
  unfold handleStateRequest
  simp only
  generalize s.getRoomByUserId cs.room userId = roomId
  split_ifs
  · exact (handled_refl s).sendPlain conn (plain_errorMessage _)
  · obtain ⟨loaded, s', hload, h, hcall⟩ := loadGameRoom_spec s cs.faults roomId
    rw [hload]
    cases loaded with
    | none => exact h
    | some result =>
        simp only
        split_ifs with hunavailable hok
        · exact h.sendPlain conn (plain_raftUnavailable roomId)
        · exact h.sendPlain conn (plain_errorMessage _)
        · rw [not_not] at hok
          apply h.send
          apply Shown.state roomId
          rw [hcall result rfl, ← PvpGameResult.eq_of_ok hok]

/-- The outcome of a move is told in other fields than the state. -/
theorem at?_moveOutcome {message message' snapshot : Json} {userId : ℤ} {key : String}
    (h : moveOutcome message userId snapshot = some message')
    (hkey : key ∉ ["gameOver", "result", "message", "winner", "nextTurn"]) :
    message'.at? key = message.at? key := by
  simp only [List.mem_cons, not_or] at hkey
  obtain ⟨hover, hresult, htext, hwinner, hnext, -⟩ := hkey
  unfold moveOutcome at h
  simp only [Option.bind_eq_bind, Option.bind_eq_some_iff, Option.pure_def] at h
  obtain ⟨_, -, ended, -, h⟩ := h
  cases ended with
  | true =>
      simp only [if_true, Option.bind_eq_some_iff] at h
      obtain ⟨_, -, winner, -, h⟩ := h
      by_cases hdraw : winner = -1
      · rw [if_pos hdraw] at h
        cases h
        simp [hover, hresult, htext]
      · rw [if_neg hdraw] at h
        cases h
        simp [hover, hresult, htext, hwinner]
  | false =>
      simp only [Bool.false_eq_true, if_false, Option.bind_eq_some_iff] at h
      obtain ⟨_, -, h⟩ := h
      cases h
      simp [hover, hnext]

theorem closeGame_chats (s : GomokuServer) (conn : Conn) (oppConn : Option Conn)
    (roomId userId opponentId : ℤ) :
    s.Chats (closeGame s conn oppConn roomId userId opponentId) := by
  unfold closeGame
  simp only
  split_ifs
  · exact GomokuServer.Quiet.chats ⟨rfl, rfl⟩
  · exact GomokuServer.Quiet.chats ⟨rfl, rfl⟩

theorem announceMove_handled {roomId userId x y : ℤ} {snapshot : Json} (h : Handled faults s s')
    (hmove : call s.values faults (.move roomId userId x y) = some (⟨.ok, snapshot⟩, s'.values))
    (conn : Conn) :
    Handled faults s ((announceMove s' conn roomId userId x y snapshot).getD s') := by
  cases hannounce : announceMove s' conn roomId userId x y snapshot with
  | none => exact h
  | some s'' =>
      unfold announceMove at hannounce
      simp only [Option.bind_eq_bind, Option.bind_eq_some_iff, Option.pure_def,
        GameWsMessages.moveResult, if_true] at hannounce
      obtain ⟨_, -, player1, -, _, -, player2, -, message, hmessage, _, -, ended, -, hend⟩ :=
        hannounce
      have hshown : Shown faults s.values s'.values message := by
        apply Shown.move roomId userId x y snapshot message hmove
        · rw [at?_moveOutcome hmessage (by decide), Json.at?_ofFields]
          rfl
        · rw [at?_moveOutcome hmessage (by decide), Json.at?_ofFields]
          rfl
      generalize (if userId = player1 then player2 else player1) = opponentId at hend
      have hsent := (h.send conn hshown).sendIfConnected (s'.getConnectionByUserId opponentId)
        hshown
      cases ended with
      | true =>
          cases hend
          exact hsent.chats (closeGame_chats _ conn _ roomId userId opponentId)
      | false =>
          cases hend
          exact hsent

theorem handleMoveAt_handled (s : GomokuServer) (cs : Circumstances) (conn : Conn)
    (userId roomId x y : ℤ) :
    Handled cs.faults s (handleMoveAt s cs conn userId roomId x y) := by
  unfold handleMoveAt submit
  obtain ⟨moved, s', hmove, h, hcall⟩ := moveGameRoom_spec s cs.faults roomId userId x y
  rw [hmove]
  cases moved with
  | none => exact h
  | some result =>
      by_cases hunavailable : result.status = .unavailable
      · simp only [hunavailable, ne_eq, not_true_eq_false, if_false, if_true]
        exact h.sendPlain conn (plain_raftUnavailable roomId)
      · simp only [hunavailable, ne_eq, not_false_eq_true, if_true, if_false]
        split_ifs with hinvalid hturn hok
        · exact h.sendPlain conn (plain_errorMessage _)
        · exact h.sendPlain conn (plain_errorMessage _)
        · apply announceMove_handled h _ conn
          rw [hcall result rfl, ← PvpGameResult.eq_of_ok hok]
        · exact h.sendPlain conn (plain_errorMessage _)

theorem handleMove_handled (s : GomokuServer) (cs : Circumstances) (conn : Conn) (userId : ℤ)
    (msg : Json) : Handled cs.faults s (handleMove s cs conn userId msg) := by
  unfold handleMove
  simp only
  split_ifs
  · exact (handled_refl s).sendPlain conn (plain_errorMessage _)
  · split
    · exact handleMoveAt_handled s cs conn userId _ _ _
    · exact handled_refl s

/-! ## Chatting -/

theorem handleChatLobby_chats (s : GomokuServer) (cs : Circumstances) (userId : ℤ) (msg : Json) :
    s.Chats (handleChatLobby s cs userId msg) := by
  unfold handleChatLobby
  split
  · split_ifs
    · exact .refl s
    · exact s.chats_broadcastLobby _ _ _ _
  · exact .refl s

theorem handleChatRoom_chats (s : GomokuServer) (cs : Circumstances) (conn : Conn) (userId : ℤ)
    (msg : Json) : s.Chats (handleChatRoom s cs conn userId msg) := by
  unfold handleChatRoom
  simp only
  generalize s.getRoomByUserId cs.room userId = roomId
  split_ifs
  · exact .refl s
  · have hquiet := s.quiet_getGameRoom cs.miss roomId
    rcases hroom : s.getGameRoom cs.miss roomId with ⟨room, s'⟩
    rw [hroom] at hquiet
    apply hquiet.chats.trans
    split
    · next s' heq =>
        cases heq
        split
        · split_ifs
          · exact .refl s'
          · exact s'.chats_sendToRoom _ _ _ _ _ _ _
        · exact .refl s'
    · next heq =>
        cases heq
        exact .refl _

/-! ## Leaving -/

theorem leaveRoom_chats (s : GomokuServer) (roomId userId opponentId : ℤ) :
    s.Chats (leaveRoom s roomId userId opponentId) := by
  have hplain : Plain (gameOverMessage opponentId) := by
    simp [Plain, gameOverMessage]
  have hsend := s.chats_sendIfConnected (s.getConnectionByUserId opponentId) hplain
  unfold leaveRoom
  simp only
  split_ifs
  · exact hsend.quiet ⟨rfl, rfl⟩
  · exact hsend.quiet ⟨rfl, rfl⟩
  · exact GomokuServer.Quiet.chats ⟨rfl, rfl⟩
  · exact GomokuServer.Quiet.chats ⟨rfl, rfl⟩

theorem abandonRoom_chats (s : GomokuServer) (oppConn : Option Conn) (roomId opponentId : ℤ) :
    s.Chats (abandonRoom s oppConn roomId opponentId) := by
  have hplain : Plain opponentLeft := by
    simp [Plain, opponentLeft]
  have hsend := s.chats_sendIfConnected oppConn hplain
  unfold abandonRoom
  simp only
  split_ifs
  · exact hsend.quiet ⟨rfl, rfl⟩
  · exact hsend.quiet ⟨rfl, rfl⟩

/-- The common part of `handleLeaveGame` and `onClose`. -/
theorem finishRoom_handled (s : GomokuServer) (cs : Circumstances) (roomId opponentId : ℤ)
    {next : GomokuServer → GomokuServer} (hnext : ∀ s : GomokuServer, s.Chats (next s)) :
    Handled cs.faults s (match s.finishGameRoom cs.faults roomId opponentId with
      | (some result, s) => if result.status ≠ .ok then s else next s
      | (none, s) => s) := by
  have h := finishGameRoom_handled s cs.faults roomId opponentId
  rcases hfinish : s.finishGameRoom cs.faults roomId opponentId with ⟨result, s'⟩
  rw [hfinish] at h
  cases result with
  | none => exact h
  | some result =>
      simp only
      split_ifs
      · exact h
      · exact h.chats (hnext s')

/-- The game of a room is finished, if the room is there, and the handler goes on. -/
theorem finishFound_handled (s : GomokuServer) (cs : Circumstances) (roomId userId : ℤ)
    {next : GomokuServer → ℤ → GomokuServer → GomokuServer}
    (hnext : ∀ before opponentId s', GomokuServer.Chats s' (next before opponentId s')) :
    Handled cs.faults s (match s.getGameRoom cs.miss roomId with
      | (some (some room), s) =>
          match s.finishGameRoom cs.faults roomId (room.getOpponent userId) with
          | (some result, s') =>
              if result.status ≠ .ok then s' else next s (room.getOpponent userId) s'
          | (none, s') => s'
      | (_, s) => s) := by
  have hquiet := s.quiet_getGameRoom cs.miss roomId
  rcases hroom : s.getGameRoom cs.miss roomId with ⟨room, s'⟩
  rw [hroom] at hquiet
  refine Handled.before ?_ hquiet
  split
  · next heq =>
      cases heq
      exact finishRoom_handled _ cs roomId _ fun _ ↦ hnext _ _ _
  · next heq =>
      cases heq
      exact handled_refl _

theorem handleLeaveGame_handled (s : GomokuServer) (cs : Circumstances) (userId : ℤ) :
    Handled cs.faults s (handleLeaveGame s cs userId) := by
  unfold handleLeaveGame
  simp only
  generalize s.getRoomByUserId cs.room userId = roomId
  split_ifs
  · exact handled_refl s
  · exact finishFound_handled s cs roomId userId fun _ opponentId s' ↦
      leaveRoom_chats s' roomId userId opponentId

theorem disconnectGame_handled (s : GomokuServer) (cs : Circumstances) (userId : ℤ) :
    Handled cs.faults s (disconnectGame s cs userId) := by
  unfold disconnectGame
  simp only
  generalize s.getRoomByUserId cs.room userId = roomId
  split_ifs
  · exact finishFound_handled s cs roomId userId fun before opponentId s' ↦
      abandonRoom_chats s' (before.getConnectionByUserId opponentId) roomId opponentId
  · exact handled_refl s

/-! ## Events -/

theorem onClose_handled (s : GomokuServer) (cs : Circumstances) (conn : Conn) :
    Handled cs.faults s (onClose s cs conn) := by
  unfold onClose
  simp only
  split_ifs
  · have hquiet : s.Quiet
        ((s.leaveQueue (s.getUserId conn)).removeFromLobby (s.getUserId conn)) := ⟨rfl, rfl⟩
    have hdisconnect := (disconnectGame_handled _ cs (s.getUserId conn)).before hquiet
    exact hdisconnect.chats (GomokuServer.quiet_removeUserId _ conn).chats
  · exact handled_of_chats (s.quiet_removeUserId conn).chats

theorem dispatch_handled (s : GomokuServer) (cs : Circumstances) (conn : Conn) (msg : Json)
    (type : String) : Handled cs.faults s (dispatch s cs conn msg type) := by
  unfold dispatch
  simp only
  split_ifs
  · exact handleMatchRequest_handled s cs conn _
  · exact handleMatchCancel_handled s _
  · exact handleMove_handled s cs conn _ msg
  · exact handleStateRequest_handled s cs conn _
  · exact handled_of_chats (handleChatLobby_chats s cs _ msg)
  · exact handled_of_chats (handleChatRoom_chats s cs conn _ msg)
  · exact handleLeaveGame_handled s cs _
  · exact handled_refl s

theorem step_handled (text : JsonText) (s : GomokuServer) (event : Event × Circumstances) :
    Handled event.2.faults s (step text s event) := by
  obtain ⟨event, cs⟩ := event
  cases event with
  | upgrade conn userId => exact handled_of_chats (GomokuServer.Quiet.chats ⟨rfl, rfl⟩)
  | close conn => exact onClose_handled s cs conn
  | network conn connected => exact handled_of_chats (GomokuServer.Quiet.chats ⟨rfl, rfl⟩)
  | message conn message =>
      simp only [step, onMessage]
      split
      · exact handled_refl s
      · split
        · exact handled_refl s
        · exact dispatch_handled s cs conn _ _

/-! ## A run -/

/-- The games of the one store are at least as far in the other. -/
def Forward (values values' : Values) : Prop :=
  ∀ r snapshot, values (roomKey r) = some snapshot → ∃ snapshot' k k',
    values' (roomKey r) = some snapshot' ∧ snapshot.at? "moveCount" = some (.integer k) ∧
      snapshot'.at? "moveCount" = some (.integer k') ∧ k ≤ k'

theorem Forward.trans {values values' values'' : Values} (h : Forward values values')
    (h' : Forward values' values'') : Forward values values'' := by
  intro r snapshot hsnapshot
  obtain ⟨snapshot', k, k', hsnapshot', hk, hk', hle⟩ := h r snapshot hsnapshot
  obtain ⟨snapshot'', l, k'', hsnapshot'', hl, hk'', hle'⟩ := h' r snapshot' hsnapshot'
  rw [hk'] at hl
  cases hl
  exact ⟨snapshot'', k, k'', hsnapshot'', hk, hk'', hle.trans hle'⟩

theorem forward_of_holds {values values' : Values} {lobby lobby' : Lobby}
    (h : values.Holds lobby) (h' : values'.Holds lobby')
    (hrooms : ∀ r ∈ lobby.ids, r ∈ lobby'.ids ∧
      (lobby.room r).moveCount ≤ (lobby'.room r).moveCount) : Forward values values' := by
  intro r snapshot hsnapshot
  have hr := h.mem_of_room hsnapshot
  rw [h.room_of_mem hr] at hsnapshot
  cases hsnapshot
  exact ⟨_, _, _, h'.room_of_mem (hrooms r hr).1, GameRoom.at?_moveCount_snapshot _,
    GameRoom.at?_moveCount_snapshot _, (hrooms r hr).2⟩

/-- Every message with a state shows what was stored for its room, in the order
in which the games went on. -/
structure Committed (s : GomokuServer) : Prop where
  holds : ∃ lobby, s.values.Holds lobby
  shown : ∀ m ∈ s.sent, Plain m.message ∨ ∃ r snapshot,
    (m.message.at? "type" = some (.string "move_result") →
      m.message.at? "roomId" = some (.integer r)) ∧
    m.message.at? "state" = some snapshot ∧ snapshot.at? "roomId" = some (.integer r) ∧
    m.stored (roomKey r) = some snapshot
  ordered : s.sent.Pairwise fun m m' ↦ Forward m.stored m'.stored
  past : ∀ m ∈ s.sent, Forward m.stored s.values

/-- A call leaves a store that holds rooms, with every game as far as before. -/
theorem call_forward {values values' : Values} {lobby : Lobby} {c : Call} {result : PvpGameResult}
    (h : values.Holds lobby) (hcall : call values faults c = some (result, values')) :
    ∃ lobby', values'.Holds lobby' ∧ Effect values lobby c result values' lobby' ∧
      Forward values values' := by
  obtain ⟨_, _, lobby', hserves, h', heffect⟩ := call_serves h faults c
  rw [hcall] at hserves
  cases hserves
  refine ⟨lobby', h', heffect, forward_of_holds h h' fun r hr ↦ ?_⟩
  obtain ⟨hr', hcases⟩ := heffect.room_cases hr
  refine ⟨hr', ?_⟩
  rcases hcases with hsame | ⟨_, -, -, -, hlater | ⟨hcount, -⟩, -⟩
  · rw [hsame]
  · exact hlater.le
  · exact hcount.le

/-- What a message shows is stored when the call is done. -/
theorem Shown.stored {values values' : Values} {lobby : Lobby} {message : Json}
    (h : values.Holds lobby) (hshown : Shown faults values values' message) :
    ∃ r snapshot,
      (message.at? "type" = some (.string "move_result") →
        message.at? "roomId" = some (.integer r)) ∧
      message.at? "state" = some snapshot ∧ snapshot.at? "roomId" = some (.integer r) ∧
      values' (roomKey r) = some snapshot := by
  cases hshown with
  | state roomId snapshot hload =>
      obtain ⟨lobby', h', heffect, -⟩ := call_forward h hload
      obtain ⟨r, -, hroomId, hstored⟩ := heffect.stored h' rfl
      refine ⟨r, snapshot, ?_, ?_, hroomId, hstored⟩
      · simp [GameWsMessages.stateResult]
      · rw [GameWsMessages.stateResult, Json.at?_ofFields]
        rfl
  | move roomId playerId x y snapshot _ hmove hmessage hstate =>
      obtain ⟨lobby', h', heffect, -⟩ := call_forward h hmove
      obtain ⟨r, hr, hroomId, hstored⟩ := heffect.stored h' rfl
      obtain rfl : roomId = r := hr
      exact ⟨roomId, snapshot, fun _ ↦ hmessage, hstate, hroomId, hstored⟩

theorem Committed.handled (h : Committed s) (hhandled : Handled faults s s') : Committed s' := by
  obtain ⟨lobby, hlobby⟩ := h.holds
  obtain ⟨lobby', hlobby', hforward⟩ : ∃ lobby', s'.values.Holds lobby' ∧
      Forward s.values s'.values := by
    rcases hhandled.values with hsame | ⟨c, result, hcall⟩
    · rw [hsame]
      exact ⟨lobby, hlobby, forward_of_holds hlobby hlobby fun r hr ↦ ⟨hr, le_rfl⟩⟩
    · obtain ⟨lobby', hlobby', -, hforward⟩ := call_forward hlobby hcall
      exact ⟨lobby', hlobby', hforward⟩
  have hrefl := forward_of_holds hlobby' hlobby' fun r hr ↦ ⟨hr, le_rfl⟩
  obtain ⟨new, hsent, hnew⟩ := hhandled.sent
  constructor
  case holds => exact ⟨lobby', hlobby'⟩
  case shown =>
    rw [hsent]
    intro m hm
    rcases List.mem_append.mp hm with hm | hm
    · exact h.shown m hm
    · obtain ⟨hstored, hplain | hshown⟩ := hnew m hm
      · exact .inl hplain
      · rw [hstored]
        exact .inr (hshown.stored hlobby)
  case ordered =>
    rw [hsent, List.pairwise_append]
    refine ⟨h.ordered, ?_, ?_⟩
    · apply List.pairwise_of_forall_mem_list
      intro m hm m' hm'
      rw [(hnew m hm).1, (hnew m' hm').1]
      exact hrefl
    · intro m hm m' hm'
      rw [(hnew m' hm').1]
      exact (h.past m hm).trans hforward
  case past =>
    rw [hsent]
    intro m hm
    rcases List.mem_append.mp hm with hm | hm
    · exact (h.past m hm).trans hforward
    · rw [(hnew m hm).1]
      exact hrefl

theorem committed_create {values : Values} {lobby : Lobby} (h : values.Holds lobby)
    (faults : Faults) : Committed (.create values faults) where
  holds := ⟨lobby, h⟩
  shown := by simp [GomokuServer.create]
  ordered := List.Pairwise.nil
  past := by simp [GomokuServer.create]

theorem committed_run (text : JsonText) (h : Committed s) (events : List (Event × Circumstances)) :
    Committed (Runs.run (step text) s events) := by
  apply Runs.invariant_of_step (P := fun _ s ↦ Committed s) (step text) h
  intro _ event hpast
  exact hpast.handled (step_handled text _ event)

/-! ## Writes that fail -/

theorem storeMove_ok {values : Values} {outcome : WriteOutcome} {roomId : ℤ}
    {current replacement : Json}
    (h : (storeMove values outcome roomId current replacement).1.status = .ok) :
    outcome = .committed := by
  cases outcome with
  | committed => rfl
  | refused => simp [storeMove, Values.tryReplace] at h
  | ambiguous => simp [storeMove, Values.tryReplace] at h

theorem storeFinished_ok {values : Values} {roomId : ℤ} {current replacement : Json}
    (h : (storeFinished values faults roomId current replacement).1.status = .ok) :
    faults.write = .committed := by
  unfold storeFinished at h
  split at h
  · split at h
    · simp at h
    · cases hwrite : faults.write with
      | committed => rfl
      | refused => simp [Values.tryReplace, hwrite] at h
      | ambiguous => simp [Values.tryReplace, hwrite] at h
  · simp at h

/-- A move that is carried out has been written. -/
theorem move_ok {values values' : Values} {roomId playerId x y : ℤ} {result : PvpGameResult}
    (h : move values faults roomId playerId x y = some (result, values'))
    (hok : result.status = .ok) : faults.write = .committed := by
  unfold move at h
  simp only at h
  split_ifs at h with hload
  · cases h
    exact absurd hok hload
  · split at h
    · cases h
      simp at hok
    · unfold moveRoom at h
      simp only [Option.bind_eq_bind, Option.bind_eq_some_iff] at h
      obtain ⟨⟨outcome, room⟩, -, h⟩ := h
      cases outcome with
      | invalidMove => cases h; simp at hok
      | gameOver => cases h; simp at hok
      | notYourTurn => cases h; simp at hok
      | ok =>
          simp only [Option.bind_eq_some_iff, GameRoom.at?_gameOver_snapshot, Option.some.injEq,
            Json.getBool?, exists_eq_left'] at h
          cases hover : room.gameOver with
          | false =>
              rw [hover, Bool.not_false, if_pos rfl] at h
              have hstore := Option.some.inj h
              exact storeMove_ok (by rw [hstore]; exact hok)
          | true =>
              rw [hover, Bool.not_true, if_neg Bool.false_ne_true] at h
              have hstore := Option.some.inj h
              exact storeFinished_ok (by rw [hstore]; exact hok)

/-! ## All runs -/

def messageType (message : Json) : Option String :=
  (message.at? "type").bind Json.getString?

theorem messageType_eq_some {message : Json} {type : String} :
    messageType message = some type ↔ message.at? "type" = some (.string type) := by
  unfold messageType
  cases message.at? "type" with
  | none => simp
  | some value =>
      cases value with
      | string text => simp [Json.getString?]
      | _ => simp [Json.getString?]

/-- The number of moves in a message that shows the state of the room. -/
def shownCount (r : ℤ) (message : Json) : Option ℤ :=
  if messageType message = some "move_result" ∨ messageType message = some "state_result" then do
    let snapshot ← message.at? "state"
    if (← (← snapshot.at? "roomId").getInt?) = r then
      (← snapshot.at? "moveCount").getInt?
    else none
  else none

/-- The numbers of moves that a client is shown for a room, first message first. -/
def shownCounts (client : Conn → Bool) (r : ℤ) (sent : List Sent) : List ℤ :=
  (sent.filter fun m ↦ client m.conn).filterMap fun m ↦ shownCount r m.message

/-- A message counts moves for a room only if it shows what is stored for it. -/
theorem Committed.stored_of_shownCount (h : Committed s) {m : Sent} (hm : m ∈ s.sent) {r k : ℤ}
    (hk : shownCount r m.message = some k) :
    ∃ snapshot, m.stored (roomKey r) = some snapshot ∧
      snapshot.at? "moveCount" = some (.integer k) := by
  unfold shownCount at hk
  split_ifs at hk with htype
  · obtain hplain | ⟨r', snapshot, -, hstate, hroomId, hstored⟩ := h.shown m hm
    · rw [messageType_eq_some, messageType_eq_some] at htype
      exact absurd htype (not_or.mpr hplain)
    · obtain ⟨_, l, _, -, hl, -, -⟩ := h.past m hm r' snapshot hstored
      simp only [hstate, hroomId, hl, Json.getInt?, Option.bind_eq_bind, Option.bind_some] at hk
      split_ifs at hk with hr
      · subst hr
        cases hk
        exact ⟨snapshot, hstored, hl⟩

/-- Whatever the store holds from an earlier time and whatever events come, with
whatever faults of the store: every message with the state of a game carries what
is stored for its room when it is sent; a handler sends the result of a move only
if the move has been written; and the numbers of moves that a client is shown for
a room never decrease. -/
theorem shows_committed_states (text : JsonText) (earlier : List (Call × Faults)) :
    ∃ values, PvpGameService.run .empty earlier = some values ∧
      ∀ recovery events,
        let s := Runs.run (step text) (.create values recovery) events
        (∀ m ∈ s.sent, (messageType m.message = some "move_result" ∨
            messageType m.message = some "state_result") →
          ∃ r snapshot,
            (messageType m.message = some "move_result" →
              m.message.at? "roomId" = some (.integer r)) ∧
            m.message.at? "state" = some snapshot ∧ snapshot.at? "roomId" = some (.integer r) ∧
            m.stored (roomKey r) = some snapshot) ∧
        (∀ event, ∃ new, (step text s event).sent = s.sent ++ new ∧
          ∀ m ∈ new, m.stored = (step text s event).values ∧
            (messageType m.message = some "move_result" → event.2.faults.write = .committed ∧
              ∃ roomId playerId x y snapshot, call s.values event.2.faults
                (.move roomId playerId x y) = some (⟨.ok, snapshot⟩, (step text s event).values))) ∧
        ∀ client r, (shownCounts client r s.sent).Pairwise (· ≤ ·) := by
  obtain ⟨values, lobby, hrun, hlobby, -⟩ := run_holds Values.holds_empty earlier
  refine ⟨values, hrun, fun recovery events ↦ ?_⟩
  have h := committed_run text (committed_create hlobby recovery) events
  intro s
  refine ⟨fun m hm htype ↦ ?_, fun event ↦ ?_, fun client r ↦ ?_⟩
  · rw [messageType_eq_some, messageType_eq_some] at htype
    rw [messageType_eq_some]
    exact (h.shown m hm).resolve_left fun hplain ↦ absurd htype (not_or.mpr hplain)
  · obtain ⟨new, hsent, hnew⟩ := (step_handled text s event).sent
    refine ⟨new, hsent, fun m hm ↦ ⟨(hnew m hm).1, fun htype ↦ ?_⟩⟩
    rw [messageType_eq_some] at htype
    have hshown := (hnew m hm).2.resolve_left fun hplain ↦ hplain.1 htype
    generalize m.message = message at htype hshown
    cases hshown with
    | state => simp [GameWsMessages.stateResult] at htype
    | move roomId playerId x y snapshot _ hmove =>
        exact ⟨move_ok hmove rfl, roomId, playerId, x, y, snapshot, hmove⟩
  · apply List.pairwise_filterMap.mpr
    refine List.Pairwise.sublist List.filter_sublist (h.ordered.imp_of_mem ?_)
    intro m m' hm hm' hforward k hk k' hk'
    obtain ⟨snapshot, hstored, hcount⟩ := h.stored_of_shownCount hm hk
    obtain ⟨snapshot', hstored', hcount'⟩ := h.stored_of_shownCount hm' hk'
    obtain ⟨_, l, l', hlater, hl, hl', hle⟩ := hforward r snapshot hstored
    rw [hstored'] at hlater
    cases hlater
    rw [hcount] at hl
    rw [hcount'] at hl'
    cases hl
    cases hl'
    exact hle

end GameWsHandler

end HttpRaftKv.Gomoku
