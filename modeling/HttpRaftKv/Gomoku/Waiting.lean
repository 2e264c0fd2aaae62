import HttpRaftKv.Gomoku.Seats
import Mathlib.Data.Set.Basic

/-!
# The users who wait

A match takes the first user out of the queue before there is a room, and a
match that fails does not put him back.  A user who has been told that he waits
stays in the queue until he leaves it or has got his room, and a match that
fails leaves the queue as it was, exactly if no match fails and the user whom a
match takes can be told about it.
-/

namespace HttpRaftKv.Gomoku.GameWsHandler

open GomokuServer PvpGameService

/-! ## What a user is told -/

/-- The messages that have been sent since, with the connections they went to. -/
def newMessages (s s' : GomokuServer) : List (Conn × Json) :=
  (s'.sent.drop s.sent.length).map fun m ↦ (m.conn, m.message)

/-- The user has asked for a match and is told to wait. -/
def ToldToWait (text : JsonText) (s : GomokuServer) (event : Event × Circumstances)
    (userId : ℤ) : Prop :=
  ∃ conn message, event.1 = .message conn message ∧ typeOf text message = some "match_request" ∧
    s.getUserId conn = userId ∧
    ∃ reason, (conn, matchWaiting reason) ∈ newMessages s (step text s event)

/-- A room with the user is stored, and both players are told about it. -/
def Matched (s s' : GomokuServer) (userId : ℤ) : Prop :=
  ∃ r room, (r, room) ∈ s'.gameRooms ∧ s'.values (roomKey r) = some room.snapshot ∧
    Plays userId room ∧ ∀ player, Plays player room →
      ∃ conn color yourTurn,
        (conn, matchFound r (room.getOpponent player) color yourTurn) ∈ newMessages s s' ∧
        (s.getUserId conn = player ∨ s.getConnectionByUserId player = some conn)

/-- The user cancels, a connection of his is closed or lost, or he gets a room. -/
def Released (text : JsonText) (s : GomokuServer) (event : Event × Circumstances)
    (userId : ℤ) : Prop :=
  (∃ conn message, event.1 = .message conn message ∧ typeOf text message = some "match_cancel" ∧
      s.getUserId conn = userId) ∨
    (∃ conn, (event.1 = .close conn ∨ event.1 = .network conn false) ∧ s.getUserId conn = userId) ∨
    Matched s (step text s event) userId

/-- The event is a request for a match with a user of the queue. -/
def PairsWith (text : JsonText) (s : GomokuServer) (event : Event × Circumstances)
    (opponent : ℤ) : Prop :=
  ∃ conn message, event.1 = .message conn message ∧ typeOf text message = some "match_request" ∧
    s.getUserId conn ∉ s.waitingQueue ∧ s.waitingQueue.head? = some opponent

/-! ## Watching a run -/

/-- The server, who has been told to wait and has not been released since, and
whether every match that failed left the queue as it was. -/
structure Watch where
  server : GomokuServer
  waiting : Set ℤ
  restored : Prop

namespace Watch

def start (s : GomokuServer) : Watch where
  server := s
  waiting := ∅
  restored := True

def step (text : JsonText) (w : Watch) (event : Event × Circumstances) : Watch where
  server := GameWsHandler.step text w.server event
  waiting := { userId | ToldToWait text w.server event userId ∨
    (userId ∈ w.waiting ∧ ¬ Released text w.server event userId) }
  restored := w.restored ∧ ∀ opponent, PairsWith text w.server event opponent → 0 ≤ opponent →
    ¬ Works event.2.faults →
      (GameWsHandler.step text w.server event).waitingQueue = w.server.waitingQueue

/-- Nobody who waits has been lost. -/
def NoneLost (w : Watch) : Prop :=
  (∀ userId ∈ w.waiting, userId ∈ w.server.waitingQueue) ∧ w.restored

/-- A match creates its room, and the user whom it takes out of the queue can be
told about it if he still waits.  A negative number of a user would be taken for
a result of `tryMatch`. -/
def Careful (text : JsonText) (w : Watch) (event : Event × Circumstances) : Prop :=
  ∀ opponent, PairsWith text w.server event opponent →
    (0 ≤ opponent → Works event.2.faults ∧ (opponent ∈ w.waiting →
      (w.server.getConnectionByUserId opponent).any w.server.connected)) ∧
    (opponent < 0 → opponent ∉ w.waiting ∧ opponent ≠ -1 ∧ opponent ≠ -2)

end Watch

/-! ## A match that takes a user -/

theorem matchFound_inj {roomId roomId' opponent opponent' : ℤ} {color color' : String}
    {yourTurn yourTurn' : Bool}
    (h : matchFound roomId opponent color yourTurn =
      matchFound roomId' opponent' color' yourTurn') :
    roomId = roomId' ∧ opponent = opponent' := by
  constructor
  · simpa [matchFound, List.lookup_cons] using congrArg (fun j ↦ j.at? "roomId") h
  · simpa [matchFound, List.lookup_cons] using congrArg (fun j ↦ j.at? "opponent") h

theorem matchFound_ne_matchWaiting (roomId opponent : ℤ) (color : String) (yourTurn : Bool)
    (reason : String) : matchFound roomId opponent color yourTurn ≠ matchWaiting reason := by
  intro h
  simpa [matchFound, matchWaiting, List.lookup_cons] using congrArg (fun j ↦ j.at? "type") h

theorem sent_createGameRoom (s : GomokuServer) (faults : Faults) (player1 player2 : ℤ) :
    (s.createGameRoom faults player1 player2).2.sent = s.sent := by
  unfold createGameRoom
  split
  · rfl
  · simp only
    split_ifs
    · rfl
    · split
      · rfl
      · rfl

theorem newMessages_sendMessage {s s' : GomokuServer} (hsent : s'.sent = s.sent) (conn : Conn)
    (message : Json) : newMessages s (s'.sendMessage conn message) = [(conn, message)] := by
  simp [newMessages, sendMessage, hsent]

/-- A match that makes its room tells the user who has asked, and the opponent if
he can be reached. -/
theorem startGame_works {s : GomokuServer} {lobby : Lobby} (h : s.Copies lobby)
    {cs : Circumstances} (hworks : Works cs.faults) (conn : Conn) (userId opponent : ℤ) :
    (startGame s cs conn userId opponent).values (roomKey (lobby.count + 1)) =
        some (GameRoom.create (lobby.count + 1) userId opponent).snapshot ∧
      newMessages s (startGame s cs conn userId opponent) =
        (conn, matchFound (lobby.count + 1) opponent "black" true) ::
          ((s.getConnectionByUserId opponent).filter s.connected).toList.map fun oppConn ↦
            (oppConn, matchFound (lobby.count + 1) userId "white" false) := by
  obtain ⟨s', lobby', -, hcases⟩ := createGameRoom_cases h cs.faults userId opponent
  rcases hcases with ⟨-, hcreate, hvalue, -⟩ | ⟨hfails, -⟩
  · have hsent := sent_createGameRoom s cs.faults userId opponent
    have hconnected := (s.frame_createGameRoom cs.faults userId opponent).connected
    rw [hcreate] at hsent hconnected
    simp only at hsent hconnected
    unfold startGame
    simp only [hcreate]
    rw [if_neg (by omega)]
    cases hconn : s.getConnectionByUserId opponent with
    | none => exact ⟨hvalue, newMessages_sendMessage hsent conn _⟩
    | some oppConn =>
        simp only [sendIfConnected]
        have hsame : ((sendMessage ((s'.removeFromLobby userId).removeFromLobby opponent) conn
            (matchFound (lobby.count + 1) opponent "black" true)).connected oppConn) =
            s.connected oppConn := congrFun hconnected oppConn
        rw [hsame]
        cases hopp : s.connected oppConn with
        | true =>
            refine ⟨hvalue, ?_⟩
            simp [newMessages, sendMessage, removeFromLobby, hsent, hopp,
              Option.filter_some]
        | false =>
            refine ⟨hvalue, ?_⟩
            simp [newMessages, sendMessage, removeFromLobby, hsent, hopp]
  · exact absurd hworks hfails

/-- The opponent of a match has been told about his room exactly if he can be
reached. -/
theorem matched_startGame_iff {s : GomokuServer} {lobby : Lobby} (h : s.Copies lobby)
    {cs : Circumstances} (hworks : Works cs.faults) {conn : Conn} {opponent : ℤ}
    (hne : s.getUserId conn ≠ opponent) :
    Matched s (startGame s cs conn (s.getUserId conn) opponent) opponent ↔
      (s.getConnectionByUserId opponent).any s.connected := by
  obtain ⟨hvalue, hnew⟩ := startGame_works h hworks conn (s.getUserId conn) opponent
  obtain ⟨-, hrooms⟩ := startGame_rooms h cs conn (s.getUserId conn) opponent
  rw [if_pos hworks] at hrooms
  unfold Matched
  rw [hnew, hrooms]
  constructor
  · rintro ⟨r, room, hroom, -, hplays, htold⟩
    obtain ⟨c, color, yourTurn, hmem, hc⟩ := htold opponent hplays
    rcases List.mem_cons.mp hmem with heq | hmem
    · -- The message to the user who has asked names the opponent, not him.
      exfalso
      obtain ⟨-, hmessage⟩ := Prod.mk.inj heq
      obtain ⟨rfl, hopponent⟩ := matchFound_inj hmessage
      rcases mem_assign.mp hroom with ⟨-, rfl⟩ | ⟨hr, -⟩
      · have hother : (GameRoom.create (lobby.count + 1) (s.getUserId conn) opponent).getOpponent
            opponent = s.getUserId conn := if_neg (Ne.symm hne)
        exact hne (hother.symm.trans hopponent)
      · exact hr rfl
    · obtain ⟨oppConn, hoppConn, -⟩ := List.mem_map.mp hmem
      rw [Option.mem_toList, Option.filter_eq_some_iff] at hoppConn
      rw [hoppConn.1]
      exact hoppConn.2
  · intro hany
    rw [Option.any_eq_true] at hany
    obtain ⟨oppConn, hoppConn, hconnected⟩ := hany
    refine ⟨_, _, mem_assign.mpr (.inl ⟨rfl, rfl⟩), hvalue, .inr rfl, ?_⟩
    rintro player (rfl | rfl)
    · refine ⟨conn, "black", true, ?_, .inl rfl⟩
      simp [GameRoom.getOpponent, GameRoom.create]
    · refine ⟨oppConn, "white", false, ?_, .inr hoppConn⟩
      simp [GameRoom.getOpponent, GameRoom.create, Ne.symm hne, hoppConn, hconnected]

/-! ## The queue after an event -/

theorem waitingQueue_sendIfConnected (s : GomokuServer) (conn : Option Conn) (message : Json) :
    (s.sendIfConnected conn message).waitingQueue = s.waitingQueue :=
  (frame_sendIfConnected s conn message).waitingQueue

theorem waitingQueue_onClose (s : GomokuServer) (cs : Circumstances) (conn : Conn) :
    (onClose s cs conn).waitingQueue =
      if 0 < s.getUserId conn then s.waitingQueue.erase (s.getUserId conn)
      else s.waitingQueue := by
  have hremove : ∀ s : GomokuServer, (s.removeUserId conn).waitingQueue = s.waitingQueue := by
    intro s
    unfold removeUserId
    split
    · rfl
    · rfl
  unfold onClose
  simp only
  rw [hremove]
  split_ifs
  · exact (disconnectGame_rel gameRelation_frame frame_addToLobby _ cs _).waitingQueue
  · rfl

/-- An event that is not a request takes nobody out of the queue who is not
released by it. -/
theorem queue_of_not_request (text : JsonText) (s : GomokuServer)
    {event : Event × Circumstances}
    (hrequest : ∀ conn message, event.1 = .message conn message →
      typeOf text message ≠ some "match_request") :
    (step text s event).waitingQueue = s.waitingQueue ∨
      ∃ userId, (step text s event).waitingQueue = s.waitingQueue.erase userId ∧
        Released text s event userId := by
  have hturn := turn_step text s event
  generalize hstep : step text s event = s' at hturn
  cases hturn with
  | upgrade conn userId cs => exact .inl rfl
  | request conn message cs htype => exact absurd htype (hrequest conn message rfl)
  | cancel conn message cs htype =>
      refine .inr ⟨s.getUserId conn, ?_, .inl ⟨conn, message, rfl, htype, rfl⟩⟩
      exact waitingQueue_sendIfConnected _ _ _
  | play conn message cs s' _ _ hplay => exact .inl (hplay _ gameRelation_frame).waitingQueue
  | close conn cs =>
      rw [waitingQueue_onClose]
      split_ifs
      · exact .inr ⟨s.getUserId conn, rfl, .inr (.inl ⟨conn, .inl rfl, rfl⟩)⟩
      · exact .inl rfl
  | network conn connected cs => exact .inl rfl

theorem step_request {text : JsonText} {message : String}
    (htype : typeOf text message = some "match_request") (s : GomokuServer) (conn : Conn)
    (cs : Circumstances) :
    step text s (.message conn message, cs) = handleMatchRequest s cs conn (s.getUserId conn) := by
  have hturn := turn_step text s (.message conn message, cs)
  generalize step text s (.message conn message, cs) = s' at hturn
  cases hturn with
  | request => rfl
  | cancel _ _ _ hcancel => simp [htype] at hcancel
  | play _ _ _ _ hrequest => exact absurd htype hrequest

/-- Nobody is twice in the queue. -/
theorem nodup_step (text : JsonText) {s : GomokuServer} (h : s.waitingQueue.Nodup)
    (event : Event × Circumstances) : (step text s event).waitingQueue.Nodup := by
  by_cases hrequest : ∃ conn message, event.1 = .message conn message ∧
      typeOf text message = some "match_request"
  · obtain ⟨conn, message, hevent, htype⟩ := hrequest
    obtain ⟨event, cs⟩ := event
    cases hevent
    rw [step_request htype]
    have hrequest := request_handleMatchRequest s cs conn (s.getUserId conn)
    generalize handleMatchRequest s cs conn (s.getUserId conn) = s' at hrequest
    cases hrequest with
    | again hmem => exact h
    | waits hempty => exact List.nodup_singleton _
    | negative opponent queue s' hmem hqueue hopponent hs' =>
        rw [hqueue] at h
        rcases hs' with ⟨-, -, rfl⟩ | ⟨-, reason, rfl⟩
        · exact h.of_cons
        · exact h.of_cons
    | pairs opponent queue hmem hqueue hopponent =>
        rw [hqueue] at h
        rw [(startGame_frame _ cs conn _ opponent).waitingQueue]
        exact h.of_cons
  · have hnot : ∀ conn message, event.1 = .message conn message →
        typeOf text message ≠ some "match_request" :=
      fun conn message hevent htype ↦ hrequest ⟨conn, message, hevent, htype⟩
    rcases queue_of_not_request text s hnot with hqueue | ⟨userId, hqueue, -⟩
    · exact hqueue ▸ h
    · exact hqueue ▸ h.erase userId

/-- The invariant: the copies stand for stored rooms, nobody is twice in the queue,
and nobody who waits has been lost. -/
structure Kept (w : Watch) : Prop where
  copies : ∃ lobby, w.server.Copies lobby
  nodup : w.server.waitingQueue.Nodup
  noneLost : w.NoneLost

theorem noneLost_of_not_request {w : Watch} (h : w.NoneLost) (text : JsonText)
    {event : Event × Circumstances}
    (hrequest : ∀ conn message, event.1 = .message conn message →
      typeOf text message ≠ some "match_request") :
    (w.step text event).NoneLost := by
  have hpairs : ∀ opponent, ¬ PairsWith text w.server event opponent := by
    rintro opponent ⟨conn, message, hevent, htype, -⟩
    exact hrequest conn message hevent htype
  have htold : ∀ userId, ¬ ToldToWait text w.server event userId := by
    rintro userId ⟨conn, message, hevent, htype, -⟩
    exact hrequest conn message hevent htype
  have hrestored : (w.step text event).restored :=
    ⟨h.2, fun opponent hpair ↦ absurd hpair (hpairs opponent)⟩
  rcases queue_of_not_request text w.server hrequest with hqueue | ⟨userId, hqueue, hreleased⟩
  · refine ⟨fun v hv ↦ ?_, hrestored⟩
    obtain ⟨hwaiting, -⟩ := hv.resolve_left (htold v)
    change v ∈ (step text w.server event).waitingQueue
    rw [hqueue]
    exact h.1 v hwaiting
  · refine ⟨fun v hv ↦ ?_, hrestored⟩
    obtain ⟨hwaiting, hkept⟩ := hv.resolve_left (htold v)
    have hne : v ≠ userId := fun heq ↦ hkept (heq ▸ hreleased)
    change v ∈ (step text w.server event).waitingQueue
    rw [hqueue]
    exact (List.mem_erase_of_ne hne).mpr (h.1 v hwaiting)

/-- What it means for a request that nobody is lost. -/
theorem noneLost_request_iff {w : Watch} (h : w.NoneLost) {text : JsonText} {message : String}
    (htype : typeOf text message = some "match_request") (conn : Conn) (cs : Circumstances)
    {s' : GomokuServer}
    (hs' : handleMatchRequest w.server cs conn (w.server.getUserId conn) = s') :
    (w.step text (.message conn message, cs)).NoneLost ↔
      (∀ reason, (conn, matchWaiting reason) ∈ newMessages w.server s' →
          w.server.getUserId conn ∈ s'.waitingQueue) ∧
        (∀ userId ∈ w.waiting, ¬ Matched w.server s' userId → userId ∈ s'.waitingQueue) ∧
        ∀ opponent, w.server.getUserId conn ∉ w.server.waitingQueue →
          w.server.waitingQueue.head? = some opponent → 0 ≤ opponent → ¬ Works cs.faults →
            s'.waitingQueue = w.server.waitingQueue := by
  have hstep := (step_request htype w.server conn cs).trans hs'
  have hreleased : ∀ userId, Released text w.server (.message conn message, cs) userId ↔
      Matched w.server s' userId := by
    intro userId
    unfold Released
    rw [hstep]
    constructor
    · rintro (⟨_, _, heq, hcancel, -⟩ | ⟨_, heq | heq, -⟩ | hmatched)
      · cases heq
        simp [htype] at hcancel
      · cases heq
      · cases heq
      · exact hmatched
    · exact fun hmatched ↦ .inr (.inr hmatched)
  unfold Watch.NoneLost Watch.step ToldToWait PairsWith
  simp only [hstep, hreleased, h.2, true_and]
  constructor
  · rintro ⟨hqueue, hrestored⟩
    refine ⟨fun reason hreason ↦ ?_, fun userId huser hnot ↦ ?_, fun opponent hmem hhead ↦ ?_⟩
    · exact hqueue _ (.inl ⟨conn, message, rfl, htype, rfl, reason, hreason⟩)
    · exact hqueue userId (.inr ⟨huser, hnot⟩)
    · exact hrestored opponent ⟨conn, message, rfl, htype, hmem, hhead⟩
  · rintro ⟨htold, hqueue, hrestored⟩
    refine ⟨?_, ?_⟩
    · rintro userId (⟨_, _, heq, -, rfl, reason, hreason⟩ | ⟨huser, hnot⟩)
      · cases heq
        exact htold reason hreason
      · exact hqueue userId huser hnot
    · rintro opponent ⟨_, _, heq, -, hmem, hhead⟩
      cases heq
      exact hrestored opponent hmem hhead

/-- What the condition says about a request. -/
theorem careful_request_iff (w : Watch) {text : JsonText} {message : String}
    (htype : typeOf text message = some "match_request") (conn : Conn) (cs : Circumstances) :
    w.Careful text (.message conn message, cs) ↔
      ∀ opponent, w.server.getUserId conn ∉ w.server.waitingQueue →
        w.server.waitingQueue.head? = some opponent →
        (0 ≤ opponent → Works cs.faults ∧ (opponent ∈ w.waiting →
          (w.server.getConnectionByUserId opponent).any w.server.connected)) ∧
        (opponent < 0 → opponent ∉ w.waiting ∧ opponent ≠ -1 ∧ opponent ≠ -2) := by
  unfold Watch.Careful PairsWith
  constructor
  · intro h opponent hmem hhead
    exact h opponent ⟨conn, message, rfl, htype, hmem, hhead⟩
  · rintro h opponent ⟨_, _, heq, -, hmem, hhead⟩
    cases heq
    exact h opponent hmem hhead

/-- The same for a request that takes a user out of the queue. -/
theorem noneLost_taken_iff {w : Watch} (h : Kept w) {text : JsonText} {message : String}
    (htype : typeOf text message = some "match_request") (conn : Conn) (cs : Circumstances)
    {s' : GomokuServer}
    (hs' : handleMatchRequest w.server cs conn (w.server.getUserId conn) = s')
    {opponent : ℤ} {queue : List ℤ} (hmem : w.server.getUserId conn ∉ w.server.waitingQueue)
    (hqueue : w.server.waitingQueue = opponent :: queue) (hqueue' : s'.waitingQueue = queue) :
    (w.step text (.message conn message, cs)).NoneLost ↔
      (∀ reason, (conn, matchWaiting reason) ∉ newMessages w.server s') ∧
        (opponent ∈ w.waiting → Matched w.server s' opponent) ∧
        (0 ≤ opponent → Works cs.faults) := by
  have hnodup := h.nodup
  rw [hqueue] at hnodup
  have hnotMem : w.server.getUserId conn ∉ queue :=
    fun hin ↦ hmem (hqueue ▸ List.mem_cons_of_mem _ hin)
  rw [noneLost_request_iff h.noneLost htype conn cs hs', hqueue', hqueue]
  refine and_congr ?_ (and_congr ?_ ?_)
  · exact ⟨fun hall reason hreason ↦ hnotMem (hall reason hreason),
      fun hnone reason hreason ↦ absurd hreason (hnone reason)⟩
  · constructor
    · intro hall hwaiting
      by_contra hnot
      exact (List.nodup_cons.mp hnodup).1 (hall opponent hwaiting hnot)
    · intro hmatched userId hwaiting hnot
      have huser := h.noneLost.1 userId hwaiting
      rw [hqueue, List.mem_cons] at huser
      rcases huser with rfl | huser
      · exact absurd (hmatched hwaiting) hnot
      · exact huser
  · constructor
    · intro hall hopponent
      by_contra hfails
      have hlength := congrArg List.length
        (hall opponent (hqueue ▸ hmem) (List.head?_cons ..) hopponent hfails)
      simp at hlength
    · intro hworks opponent' _ hhead hopponent hfails
      cases hhead
      exact absurd (hworks hopponent) hfails

theorem careful_taken_iff (w : Watch) {text : JsonText} {message : String}
    (htype : typeOf text message = some "match_request") (conn : Conn) (cs : Circumstances)
    {opponent : ℤ} {queue : List ℤ} (hmem : w.server.getUserId conn ∉ w.server.waitingQueue)
    (hqueue : w.server.waitingQueue = opponent :: queue) :
    w.Careful text (.message conn message, cs) ↔
      (0 ≤ opponent → Works cs.faults ∧ (opponent ∈ w.waiting →
        (w.server.getConnectionByUserId opponent).any w.server.connected)) ∧
      (opponent < 0 → opponent ∉ w.waiting ∧ opponent ≠ -1 ∧ opponent ≠ -2) := by
  rw [careful_request_iff w htype conn cs]
  constructor
  · intro h
    exact h opponent hmem (by rw [hqueue, List.head?_cons])
  · intro h opponent' _ hhead
    rw [hqueue] at hhead
    cases hhead
    exact h

theorem not_matched_of_newMessages {s s' : GomokuServer} {userId : ℤ}
    (h : ∀ conn r opponent color yourTurn,
      (conn, matchFound r opponent color yourTurn) ∉ newMessages s s') :
    ¬ Matched s s' userId := by
  rintro ⟨r, room, -, -, hplays, htold⟩
  obtain ⟨conn, color, yourTurn, hmem, -⟩ := htold userId hplays
  exact h conn r _ color yourTurn hmem

theorem noneLost_request_careful_iff {w : Watch} (h : Kept w) {text : JsonText} {message : String}
    (htype : typeOf text message = some "match_request") (conn : Conn) (cs : Circumstances) :
    (w.step text (.message conn message, cs)).NoneLost ↔
      w.Careful text (.message conn message, cs) := by
  have hrequest := request_handleMatchRequest w.server cs conn (w.server.getUserId conn)
  generalize hs' : handleMatchRequest w.server cs conn (w.server.getUserId conn) = s' at hrequest
  cases hrequest with
  | again hmem =>
      rw [noneLost_request_iff h.noneLost htype conn cs hs', careful_request_iff w htype conn cs]
      refine iff_of_true ⟨?_, ?_, ?_⟩ ?_
      · exact fun _ _ ↦ hmem
      · exact fun userId huser _ ↦ h.noneLost.1 userId huser
      · exact fun _ hnot ↦ absurd hmem hnot
      · exact fun _ hnot ↦ absurd hmem hnot
  | waits hempty =>
      rw [noneLost_request_iff h.noneLost htype conn cs hs', careful_request_iff w htype conn cs]
      refine iff_of_true ⟨?_, ?_, ?_⟩ ?_
      · exact fun _ _ ↦ List.mem_singleton_self _
      · intro userId huser
        have hmem := h.noneLost.1 userId huser
        simp [hempty] at hmem
      · simp [hempty]
      · simp [hempty]
  | negative opponent queue s' hmem hqueue hopponent hnegative =>
      have hqueue' : s'.waitingQueue = queue := by
        rcases hnegative with ⟨-, -, rfl⟩ | ⟨-, reason, rfl⟩
        · rfl
        · rfl
      rw [noneLost_taken_iff h htype conn cs hs' hmem hqueue hqueue',
        careful_taken_iff w htype conn cs hmem hqueue]
      rcases hnegative with ⟨hone, htwo, rfl⟩ | ⟨hresult, reason, rfl⟩
      · have hnew : newMessages w.server { w.server with waitingQueue := queue } = [] := by
          simp [newMessages]
        have hnot : ¬ Matched w.server { w.server with waitingQueue := queue } opponent :=
          not_matched_of_newMessages (by simp [hnew])
        simp [hnew, hnot, hone, htwo, hopponent, not_le.mpr hopponent]
      · have hnew : newMessages w.server ({ w.server with waitingQueue := queue }.sendMessage conn
            (matchWaiting reason)) = _ := newMessages_sendMessage rfl conn _
        refine iff_of_false ?_ ?_
        · rintro ⟨hnone, -⟩
          exact hnone reason (by simp [hnew])
        · rintro ⟨-, hcareful⟩
          obtain ⟨-, hone, htwo⟩ := hcareful hopponent
          exact hresult.elim hone htwo
  | pairs opponent queue hmem hqueue hopponent =>
      obtain ⟨lobby, hcopies⟩ := h.copies
      have hqueued : { w.server with waitingQueue := queue }.Copies lobby :=
        ⟨hcopies.holds, hcopies.stored⟩
      have hqueue' := (startGame_frame { w.server with waitingQueue := queue } cs conn
        (w.server.getUserId conn) opponent).waitingQueue
      rw [noneLost_taken_iff h htype conn cs hs' hmem hqueue hqueue',
        careful_taken_iff w htype conn cs hmem hqueue]
      by_cases hworks : Works cs.faults
      · have hne : w.server.getUserId conn ≠ opponent := by
          rintro heq
          exact hmem (by rw [hqueue, heq]; exact List.mem_cons_self)
        have hmatched : Matched w.server _ opponent ↔ _ := matched_startGame_iff hqueued hworks hne
        have hnew : newMessages w.server _ = _ :=
          (startGame_works hqueued hworks conn (w.server.getUserId conn) opponent).2
        have hnone : ∀ reason, (conn, matchWaiting reason) ∉ newMessages w.server
            (startGame { w.server with waitingQueue := queue } cs conn (w.server.getUserId conn)
              opponent) := by
          intro reason hreason
          rw [hnew] at hreason
          rcases List.mem_cons.mp hreason with heq | hin
          · exact matchFound_ne_matchWaiting _ _ _ _ _ (congrArg Prod.snd heq).symm
          · obtain ⟨_, -, heq⟩ := List.mem_map.mp hin
            exact matchFound_ne_matchWaiting _ _ _ _ _ (congrArg Prod.snd heq)
        constructor
        · rintro ⟨-, htaken, -⟩
          exact ⟨fun _ ↦ ⟨hworks, fun hwaiting ↦ hmatched.mp (htaken hwaiting)⟩, by omega⟩
        · rintro ⟨hcareful, -⟩
          exact ⟨hnone, fun hwaiting ↦ hmatched.mpr ((hcareful hopponent).2 hwaiting),
            fun _ ↦ hworks⟩
      · refine iff_of_false ?_ ?_
        · exact fun hnone ↦ hworks (hnone.2.2 hopponent)
        · exact fun hcareful ↦ hworks (hcareful.1 hopponent).1

/-- A step loses nobody exactly under the condition. -/
theorem Kept.step_iff {w : Watch} (h : Kept w) (text : JsonText) (event : Event × Circumstances) :
    (Kept (w.step text event) ↔ w.Careful text event) ∧
      ((w.step text event).NoneLost ↔ w.Careful text event) := by
  have hcopies : ∃ lobby, (w.step text event).server.Copies lobby := by
    obtain ⟨lobby, hcopies⟩ := h.copies
    rcases step_rooms text event hcopies with ⟨hrenews, -⟩ | ⟨_, _, hcopies', -⟩
    · exact (hrenews lobby hcopies).1
    · exact hcopies'
  have hnone : (w.step text event).NoneLost ↔ w.Careful text event := by
    by_cases hrequest : ∃ conn message, event.1 = .message conn message ∧
        typeOf text message = some "match_request"
    · obtain ⟨conn, message, hevent, htype⟩ := hrequest
      obtain ⟨event, cs⟩ := event
      cases hevent
      exact noneLost_request_careful_iff h htype conn cs
    · have hnot : ∀ conn message, event.1 = .message conn message →
          typeOf text message ≠ some "match_request" :=
        fun conn message hevent htype ↦ hrequest ⟨conn, message, hevent, htype⟩
      refine iff_of_true (noneLost_of_not_request h.noneLost text hnot) ?_
      rintro opponent ⟨conn, message, hevent, htype, -⟩
      exact absurd htype (hnot conn message hevent)
  refine ⟨⟨fun h' ↦ hnone.mp h'.noneLost, fun hcareful ↦ ?_⟩, hnone⟩
  exact ⟨hcopies, nodup_step text h.nodup event, hnone.mpr hcareful⟩

/-! ## All runs -/

theorem Kept.run_iff {w : Watch} (h : Kept w) (text : JsonText)
    (events : List (Event × Circumstances)) :
    (∀ past, past <+: events → (Runs.run (Watch.step text) w past).NoneLost) ↔
      Runs.Along (Watch.step text) (Watch.Careful text) w events := by
  apply Runs.property_iff_along (P := fun _ w ↦ Kept w) (Q := fun _ w ↦ w.NoneLost) _ h
  · exact fun past event h hcareful ↦ (h.step_iff text event).1.mpr hcareful
  · exact fun past h ↦ h.noneLost
  · exact fun past event h hnone ↦ (h.step_iff text event).2.mp hnone

theorem kept_start {values : Values} {lobby : Lobby} (h : values.Holds lobby)
    (recovery : Faults) : Kept (.start (.create values recovery)) where
  copies := ⟨lobby, copies_create h recovery⟩
  nodup := List.nodup_nil
  noneLost := ⟨by simp [Watch.start], trivial⟩

/-- The store has been written by earlier calls.  Then, whatever events come and
however the store fails, no user who waits is lost in any state and every match
that fails leaves the queue as it was, exactly if every match creates its room
and can tell the user whom it takes. -/
theorem none_lost_iff_careful (text : JsonText) (earlier : List (Call × Faults))
    {values : Values} (hvalues : PvpGameService.run .empty earlier = some values)
    (recovery : Faults) (events : List (Event × Circumstances)) :
    (∀ past, past <+: events →
      (Runs.run (Watch.step text) (.start (.create values recovery)) past).NoneLost) ↔
      Runs.Along (Watch.step text) (Watch.Careful text) (.start (.create values recovery))
        events := by
  obtain ⟨_, lobby, hrun, hlobby, -⟩ := run_holds Values.holds_empty earlier
  rw [hvalues] at hrun
  cases hrun
  exact (kept_start hlobby recovery).run_iff text events

/-- A user asks for a match and waits. -/
def firstRequest : List (Event × Circumstances) :=
  [(.upgrade "a" 1, ⟨0, .none, .none, 0⟩), (.upgrade "b" 2, ⟨0, .none, .none, 0⟩),
    (.network "a" true, ⟨0, .none, .none, 0⟩),
    (.message "a" (plainMessage "match_request"), ⟨0, .none, .none, 0⟩)]

/-- A second user asks, and the store behaves in some way. -/
def secondRequest (faults : Faults) : Event × Circumstances :=
  (.message "b" (plainMessage "match_request"), ⟨0, .none, faults, 0⟩)

theorem careful_secondRequest_iff (faults : Faults) :
    (Runs.run (Watch.step .compact) (.start (.create .empty .none)) firstRequest).Careful .compact
      (secondRequest faults) ↔ Works faults := by
  have htype : typeOf .compact (plainMessage "match_request") = some "match_request" := by
    decide +kernel
  have hqueue : (Runs.run (Watch.step .compact) (.start (.create .empty .none))
      firstRequest).server.waitingQueue = [1] := by
    decide +kernel
  have hmem : (Runs.run (Watch.step .compact) (.start (.create .empty .none))
      firstRequest).server.getUserId "b" ∉ (Runs.run (Watch.step .compact)
        (.start (.create .empty .none)) firstRequest).server.waitingQueue := by
    decide +kernel
  have hconnected : ((Runs.run (Watch.step .compact) (.start (.create .empty .none))
      firstRequest).server.getConnectionByUserId 1).any (Runs.run (Watch.step .compact)
        (.start (.create .empty .none)) firstRequest).server.connected := by
    decide +kernel
  unfold secondRequest
  rw [careful_taken_iff _ htype "b" _ hmem hqueue]
  constructor
  · exact fun h ↦ (h.1 (by decide)).1
  · exact fun hworks ↦ ⟨fun _ ↦ ⟨hworks, fun _ ↦ hconnected⟩, fun h ↦ absurd h (by decide)⟩

theorem careful_firstRequest :
    Runs.Along (Watch.step .compact) (Watch.Careful .compact) (.start (.create .empty .none))
      firstRequest := by
  refine ⟨?_, ?_, ?_, ?_, trivial⟩
  · rintro _ ⟨_, _, hevent, -⟩
    cases hevent
  · rintro _ ⟨_, _, hevent, -⟩
    cases hevent
  · rintro _ ⟨_, _, hevent, -⟩
    cases hevent
  · rintro opponent ⟨_, _, -, -, -, hhead⟩
    cases hhead

theorem none_lost_with_secondRequest :
    Runs.Along (Watch.step .compact) (Watch.Careful .compact) (.start (.create .empty .none))
        (firstRequest ++ [secondRequest .none]) ∧
      ∀ past, past <+: firstRequest ++ [secondRequest .none] →
        (Runs.run (Watch.step .compact) (.start (.create .empty .none)) past).NoneLost := by
  have halong : Runs.Along (Watch.step .compact) (Watch.Careful .compact)
      (.start (.create .empty .none)) (firstRequest ++ [secondRequest .none]) := by
    rw [Runs.along_snoc, careful_secondRequest_iff]
    exact ⟨careful_firstRequest, by decide⟩
  exact ⟨halong, (none_lost_iff_careful .compact [] rfl .none _).mpr halong⟩

theorem user_is_lost_with_secondRequest :
    ¬ ∀ past, past <+: firstRequest ++ [secondRequest { Faults.none with write := .refused }] →
      (Runs.run (Watch.step .compact) (.start (.create .empty .none)) past).NoneLost := by
  rw [(kept_start Values.holds_empty .none).run_iff, Runs.along_snoc, careful_secondRequest_iff]
  exact fun h ↦ absurd h.2 (by decide)

end HttpRaftKv.Gomoku.GameWsHandler
