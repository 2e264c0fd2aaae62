import HttpRaftKv.Gomoku.Lockout
import HttpRaftKv.Gomoku.Waiting

/-!
# What a logout leaves behind

A logout destroys the session, then it reads the body, and then it releases what the
user holds.  Nothing is undone if one of these steps fails, so a logout that is answered
with an error may have destroyed the session, and a logout that is answered with success
may have kept the room.
-/

namespace HttpRaftKv.Gomoku

open Http Throwing

/-! ## The end of a game -/

namespace PvpGameService

variable {values : Values} {faults : Faults}

/-- The list of the active rooms can be read and written. -/
def Closable (values : Values) (faults : Faults) : Prop :=
  faults.load 1 = false ∧ ((values activeRoomIdsKey).bind Json.getArray?).isSome = true ∧
    faults.write = .committed

/-- The game of the room can be finished. -/
def Finishable (values : Values) (faults : Faults) (roomId : ℤ) : Prop :=
  faults.load 0 = false ∧ ((values (roomKey roomId)).bind GameRoom.fromSnapshot).isSome = true ∧
    Closable values faults

instance (values : Values) (faults : Faults) : Decidable (Closable values faults) :=
  inferInstanceAs (Decidable (_ ∧ _))

instance (values : Values) (faults : Faults) (roomId : ℤ) :
    Decidable (Finishable values faults roomId) :=
  inferInstanceAs (Decidable (_ ∧ _))

theorem tryLoad_eq_ok {fails : Bool} {key : String} {value : Json} :
    values.tryLoad fails key = .ok value ↔ fails = false ∧ values key = some value := by
  cases fails with
  | true => simp [Values.tryLoad]
  | false =>
      rw [Values.tryLoad, if_neg Bool.false_ne_true, Values.load]
      cases values key <;> simp

theorem storeFinished_of_closable (h : Closable values faults) (roomId : ℤ)
    (current replacement : Json) :
    (storeFinished values faults roomId current replacement).1 = ⟨.ok, replacement⟩ := by
  obtain ⟨hload, hactive, hwrite⟩ := h
  obtain ⟨ids, hids⟩ := Option.isSome_iff_exists.mp hactive
  obtain ⟨active, hvalue, hids⟩ := Option.bind_eq_some_iff.mp hids
  rw [storeFinished, tryLoad_eq_ok.mpr ⟨hload, hvalue⟩]
  simp only [hids]
  rw [hwrite]
  rfl

theorem storeFinished_of_not_closable (h : ¬ Closable values faults) (roomId : ℤ)
    (current replacement : Json) :
    (storeFinished values faults roomId current replacement).1.status ≠ .ok := by
  rw [storeFinished]
  split
  · rename_i active hread
    obtain ⟨hload, hvalue⟩ := tryLoad_eq_ok.mp hread
    split
    · exact nofun
    · rename_i ids hids
      cases hwrite : faults.write with
      | committed =>
          refine absurd ⟨hload, ?_, hwrite⟩ h
          rw [hvalue, Option.bind_some, hids]
          rfl
      | refused => exact nofun
      | ambiguous => exact nofun
  · exact nofun

/-- The answer to `finish` is a room that has been written. -/
theorem finish_of_finishable {roomId : ℤ} (h : Finishable values faults roomId) (winnerId : ℤ) :
    ∃ room : GameRoom, (finish values faults roomId winnerId).1 = ⟨.ok, room.snapshot⟩ := by
  obtain ⟨hload, hroom, hclosable⟩ := h
  obtain ⟨room, hroom⟩ := Option.isSome_iff_exists.mp hroom
  obtain ⟨current, hvalue, hroom⟩ := Option.bind_eq_some_iff.mp hroom
  have hread : loadLocked values (faults.load 0) roomId = ⟨.ok, current⟩ := by
    rw [loadLocked, tryLoad_eq_ok.mpr ⟨hload, hvalue⟩]
  refine ⟨if !room.gameOver then room.forfeit winnerId else room, ?_⟩
  simp only [finish, hread, ne_eq, not_true_eq_false, if_false, hroom]
  exact storeFinished_of_closable hclosable roomId current _

theorem finish_of_not_finishable {roomId : ℤ} (h : ¬ Finishable values faults roomId)
    (winnerId : ℤ) : (finish values faults roomId winnerId).1.status ≠ .ok := by
  cases hread : values.tryLoad (faults.load 0) (roomKey roomId) with
  | notFound => simp [finish, loadLocked, hread]
  | unavailable => simp [finish, loadLocked, hread]
  | ok current =>
      obtain ⟨hload, hvalue⟩ := tryLoad_eq_ok.mp hread
      simp only [finish, loadLocked, hread, ne_eq, not_true_eq_false, if_false]
      cases hroom : GameRoom.fromSnapshot current with
      | none =>
          intro hstatus
          cases hstatus
      | some room =>
          refine storeFinished_of_not_closable (fun hclosable ↦ h ⟨hload, ?_, hclosable⟩) roomId _ _
          rw [hvalue, Option.bind_some, hroom]
          rfl

end PvpGameService

namespace GomokuServer

variable {s : GomokuServer} {faults : Faults} {roomId : ℤ}

theorem finishGameRoom_of_finishable (h : PvpGameService.Finishable s.values faults roomId)
    (winnerId : ℤ) : ∃ (room : GameRoom) (s' : GomokuServer),
      s.finishGameRoom faults roomId winnerId = (some ⟨.ok, room.snapshot⟩, s') ∧
        s'.waitingQueue = s.waitingQueue ∧ s'.gameRooms = assign s.gameRooms roomId room := by
  obtain ⟨room, hfinish⟩ := PvpGameService.finish_of_finishable h winnerId
  refine ⟨room, ⟨(PvpGameService.finish s.values faults roomId winnerId).2,
    assign s.gameRooms roomId room, s.waitingQueue, s.lobbyConnections, s.connToUserId,
    s.userIdToConnPtr, s.connected, s.sent⟩, ?_, rfl, rfl⟩
  simp only [finishGameRoom, hfinish, keepRoom, ne_eq, not_true_eq_false, if_false,
    GameRoom.fromSnapshot_snapshot]

theorem finishGameRoom_of_not_finishable
    (h : ¬ PvpGameService.Finishable s.values faults roomId) (winnerId : ℤ) :
    ∃ (result : PvpGameResult) (values : Values), result.status ≠ .ok ∧
      s.finishGameRoom faults roomId winnerId = (some result, { s with values := values }) := by
  have hstatus := PvpGameService.finish_of_not_finishable h winnerId
  refine ⟨_, (PvpGameService.finish s.values faults roomId winnerId).2, hstatus, ?_⟩
  simp only [finishGameRoom, keepRoom, ne_eq, hstatus, not_false_eq_true, if_true]

end GomokuServer

namespace LogoutHandler

open GomokuServer GameWsHandler

/-- What `endGame` does. -/
structure Ended (s : GomokuServer) (cs : Circumstances) (userId : ℤ) (s' : GomokuServer) :
    Prop where
  waitingQueue : s'.waitingQueue = s.waitingQueue
  gameRooms : s'.gameRooms =
    if 0 < s.getRoomByUserId cs.room userId ∧
        PvpGameService.Finishable s.values cs.faults (s.getRoomByUserId cs.room userId) then
      s.gameRooms.filter fun entry ↦ entry.1 ≠ s.getRoomByUserId cs.room userId
    else s.gameRooms

/-- The room is removed behind the message to the opponent. -/
theorem ended_removeGameRoom {s s' : GomokuServer} {cs : Circumstances} {userId : ℤ}
    {room : GameRoom} (hpositive : 0 < s.getRoomByUserId cs.room userId)
    (hfinishable :
      PvpGameService.Finishable s.values cs.faults (s.getRoomByUserId cs.room userId))
    (hqueue : s'.waitingQueue = s.waitingQueue)
    (hrooms : s'.gameRooms = assign s.gameRooms (s.getRoomByUserId cs.room userId) room) :
    Ended s cs userId (s'.removeGameRoom (s.getRoomByUserId cs.room userId)) := by
  refine ⟨hqueue, ?_⟩
  rw [if_pos ⟨hpositive, hfinishable⟩, removeGameRoom]
  dsimp only
  rw [hrooms, assign, List.filter_cons_of_neg (by simp), List.filter_filter]
  simp only [Bool.and_self]

/-- It does not throw: a room that is found for the user is there. -/
theorem ended_endGame (s : GomokuServer) (cs : Circumstances) (userId : ℤ) :
    (endGame s cs userId).1 = some () ∧ Ended s cs userId (endGame s cs userId).2 := by
  by_cases hpositive : 0 < s.getRoomByUserId cs.room userId
  · obtain ⟨room, hroom, -⟩ :=
      getGameRoom_of_lookup (lookup_getRoomByUserId s cs.room userId (by omega)) cs.miss
    by_cases hfinishable :
        PvpGameService.Finishable s.values cs.faults (s.getRoomByUserId cs.room userId)
    · obtain ⟨kept, s', hfinish, hqueue, hrooms⟩ :=
        finishGameRoom_of_finishable hfinishable (room.getOpponent userId)
      simp only [endGame, hpositive, if_true, hroom, hfinish, ne_eq, not_true_eq_false,
        if_false, true_and]
      -- a message and the lobby change neither the queue nor the rooms
      split_ifs
      · refine ended_removeGameRoom hpositive hfinishable ?_
          ((rooms_sendIfConnected s' _ _).2.trans hrooms)
        exact (waitingQueue_sendIfConnected s' _ _).trans hqueue
      · exact ended_removeGameRoom hpositive hfinishable hqueue hrooms
    · obtain ⟨result, values, hstatus, hfinish⟩ :=
        finishGameRoom_of_not_finishable hfinishable (room.getOpponent userId)
      simp only [endGame, hpositive, if_true, hroom, hfinish, hstatus, ne_eq,
        not_false_eq_true, true_and]
      refine ⟨rfl, ?_⟩
      rw [if_neg fun h ↦ hfinishable h.2]
  · simp only [endGame, hpositive, if_false, true_and]
    refine ⟨rfl, ?_⟩
    rw [if_neg fun h ↦ hpositive h.1]

/-- The server holds nothing of a game of two players for the user. -/
structure Freed (userId : ℤ) (s : GomokuServer) : Prop where
  waitingQueue : userId ∉ s.waitingQueue
  gameRooms : ∀ entry ∈ s.gameRooms, ¬ Plays userId entry.2
  lobbyConnections : s.lobbyConnections.lookup userId = none

/-- The user waits at most once, and he plays at most in the room that is found for him,
whose game can be finished. -/
def Releases (s : GomokuServer) (cs : Circumstances) (userId : ℤ) : Prop :=
  userId ∉ s.waitingQueue.erase userId ∧ ∀ entry ∈ s.gameRooms, Plays userId entry.2 →
    0 < entry.1 ∧ entry.1 = s.getRoomByUserId cs.room userId ∧
      PvpGameService.Finishable s.values cs.faults entry.1

theorem freed_iff_releases (s : GomokuServer) (cs : Circumstances) (userId : ℤ) :
    Freed userId (((endGame s cs userId).2.leaveQueue userId).removeFromLobby userId) ↔
      Releases s cs userId := by
  obtain ⟨hqueue, hrooms⟩ := (ended_endGame s cs userId).2
  have hwaiting : (((endGame s cs userId).2.leaveQueue userId).removeFromLobby
      userId).waitingQueue = s.waitingQueue.erase userId := congrArg (·.erase userId) hqueue
  constructor
  · rintro ⟨hnot, hplays, -⟩
    refine ⟨hwaiting ▸ hnot, fun entry hentry hplay ↦ ?_⟩
    have hgone : entry ∉ (endGame s cs userId).2.gameRooms := fun hmem ↦ hplays entry hmem hplay
    rw [hrooms] at hgone
    split_ifs at hgone with hended
    · rw [List.mem_filter, not_and, decide_eq_true_eq, not_not] at hgone
      rw [hgone hentry]
      exact ⟨hended.1, rfl, hended.2⟩
    · exact absurd hentry hgone
  · rintro ⟨hnot, hplays⟩
    refine ⟨hwaiting ▸ hnot, fun entry hentry hplay ↦ ?_, ?_⟩
    · have hmem : entry ∈ (endGame s cs userId).2.gameRooms := hentry
      rw [hrooms] at hmem
      split_ifs at hmem with hended
      · rw [List.mem_filter, decide_eq_true_eq] at hmem
        exact hmem.2 (hplays entry hmem.1 hplay).2.1
      · obtain ⟨hpositive, hroomId, hfinishable⟩ := hplays entry hmem hplay
        rw [hroomId] at hpositive hfinishable
        exact hended ⟨hpositive, hfinishable⟩
    · exact (OrderedMap.lookup_filter_ne _ _ _).trans (if_pos rfl)

/-! ## The steps of a logout -/

variable {cs : Surroundings} {r : HttpRequest} {e : Exchange} {thrown : Bytes → Exchange → Prop}

/-- The state behind `release`. -/
def releasing (cs : Surroundings) (userId gameType : ℤ) (e : Exchange) : Exchange :=
  { e with
    onlineUsers := e.onlineUsers.filter fun entry ↦ entry.1 ≠ userId
    aiGames :=
      if gameType = 1 then e.aiGames.filter fun entry ↦ entry.1 ≠ userId else e.aiGames
    server :=
      if gameType = 2 then
        ((endGame e.server cs.game userId).2.leaveQueue userId).removeFromLobby userId
      else e.server }

theorem ends_release_iff {ok : Unit → Exchange → Prop} {userId gameType : ℤ} :
    Ends (release cs userId gameType) e ok thrown ↔ ok () (releasing cs userId gameType e) := by
  rw [release, ends_bind, ends_modify, releasing]
  by_cases hai : gameType = 1
  · subst hai
    exact Iff.rfl
  · rw [if_neg hai, if_neg hai]
    by_cases hpvp : gameType = 2
    · rw [if_pos hpvp, if_pos hpvp, ends_bind, ends_get, ends_bind, ends_set, ends_bind,
        ends_orThrow, (ended_endGame e.server cs.game userId).1]
      constructor
      · rintro ⟨h, -⟩
        exact h () rfl
      · exact fun h ↦ ⟨fun _ _ ↦ h, nofun⟩
    · rw [if_neg hpvp, if_neg hpvp]
      exact Iff.rfl

theorem load_of_loaded {session : Session} (h : e.accounts.loaded r = some session) :
    SessionManager.getSessionIdFromCookie r ≠ [] ∧
      SessionStorage.load e.sessions (SessionManager.getSessionIdFromCookie r) =
        (some session, e.sessions) := by
  obtain ⟨hlookup, hlive⟩ := Accounts.loaded_eq_some h
  refine ⟨fun hnil ↦ ?_, ?_⟩
  · rw [Accounts.loaded, hnil] at h
    cases h
  · have hstored : e.sessions.lookup (SessionManager.getSessionIdFromCookie r) = some session :=
      hlookup
    simp only [SessionStorage.load, hstored, hlive, Bool.false_eq_true, if_false]

theorem ends_getSession_of_some {ok : Bytes → Exchange → Prop} {session : Session}
    (h : e.accounts.loaded r = some session) :
    Ends (getSession cs r) e ok thrown ↔ ok (SessionManager.getSessionIdFromCookie r)
      { e with
        sessions := SessionStorage.save e.sessions (SessionManager.getSessionIdFromCookie r)
          session.refresh } := by
  obtain ⟨hnamed, hload⟩ := load_of_loaded h
  rw [getSession, ends_bind, ends_get]
  simp only [SessionManager.getSession, if_pos hnamed, hload]
  rfl

/-- The session that the request names is not there, or it has expired and is removed. -/
theorem lookup_of_not_loaded (h : e.accounts.loaded r = none) (sessionId : Bytes) :
    (if SessionManager.getSessionIdFromCookie r ≠ [] then
        SessionStorage.load e.sessions (SessionManager.getSessionIdFromCookie r)
      else (none, e.sessions)).2.lookup sessionId =
      if sessionId = SessionManager.getSessionIdFromCookie r ∧ sessionId ≠ [] then none
      else e.sessions.lookup sessionId := by
  rw [Accounts.loaded] at h
  generalize SessionManager.getSessionIdFromCookie r = named at *
  by_cases hnamed : named = []
  · rw [if_neg (not_not.mpr hnamed), if_neg fun hid ↦ hid.2 (hid.1.trans hnamed)]
  · have hload : (SessionStorage.load e.sessions named).1 = none := by
      rw [if_pos hnamed] at h
      exact h
    rw [if_pos hnamed]
    rw [SessionStorage.load] at hload ⊢
    cases hstored : e.sessions.lookup named with
    | none =>
        split_ifs with hid
        · rw [hid.1]
          exact hstored
        · rfl
    | some session =>
        rw [hstored] at hload
        dsimp only at hload ⊢
        split_ifs at hload ⊢ with hexpired hid
        · exact (OrderedMap.lookup_filter_ne _ _ _).trans (if_pos hid.1)
        · refine (OrderedMap.lookup_filter_ne _ _ _).trans (if_neg fun heq ↦ hid ⟨heq, ?_⟩)
          exact heq ▸ hnamed

/-- A new session is stored. -/
theorem ends_getSession_of_none (cs : Surroundings) (h : e.accounts.loaded r = none) :
    ∃ (sessions : SessionStorage) (resp : HttpResponse),
      (∀ sessionId, sessions.lookup sessionId =
        if sessionId = SessionManager.generateSessionId cs.draws then some .create
        else if sessionId = SessionManager.getSessionIdFromCookie r ∧ sessionId ≠ [] then none
        else e.sessions.lookup sessionId) ∧
      ∀ (ok : Bytes → Exchange → Prop) (thrown : Bytes → Exchange → Prop),
        Ends (getSession cs r) e ok thrown ↔ ok (SessionManager.generateSessionId cs.draws)
          { e with sessions := sessions, resp := resp } := by
  obtain ⟨sessions, hnamed, -⟩ := e.accounts.exists_loaded r
  rw [h] at hnamed
  refine ⟨SessionStorage.save sessions (SessionManager.generateSessionId cs.draws) .create,
    SessionManager.setSessionCookie cs.useSSL (SessionManager.generateSessionId cs.draws) e.resp,
    fun sessionId ↦ ?_, fun ok thrown ↦ ?_⟩
  · by_cases hid : sessionId = SessionManager.generateSessionId cs.draws
    · rw [if_pos hid, hid, lookup_save]
    · rw [if_neg hid, Accounts.lookup_save_of_ne _ _ hid, ← lookup_of_not_loaded h]
      exact (congrArg (fun found ↦ found.2.lookup sessionId) hnamed).symm
  · rw [getSession, ends_bind, ends_get]
    dsimp only [SessionManager.getSession]
    have hnamed' : (if SessionManager.getSessionIdFromCookie r ≠ [] then
        SessionStorage.load e.sessions (SessionManager.getSessionIdFromCookie r)
      else (none, e.sessions)) = (none, sessions) := hnamed
    rw [hnamed']
    rfl

/-! ## All or nothing -/

/-- What a logout may change is as it was. -/
structure Unchanged (e e' : Exchange) : Prop where
  sessions : ∀ sessionId, e'.sessions.lookup sessionId = e.sessions.lookup sessionId
  onlineUsers : e'.onlineUsers = e.onlineUsers
  aiGames : e'.aiGames = e.aiGames
  values : e'.server.values = e.server.values
  gameRooms : e'.server.gameRooms = e.server.gameRooms
  waitingQueue : e'.server.waitingQueue = e.server.waitingQueue

/-- The user holds no game of the type any more. -/
def Released (userId gameType : ℤ) (e' : Exchange) : Prop :=
  (gameType = 1 → e'.aiGames.lookup userId = none) ∧ (gameType = 2 → Freed userId e'.server)

/-- The session of the request is destroyed, and its user is out of the tables. -/
def LoggedOut (cs : Surroundings) (r : HttpRequest) (e e' : Exchange) : Prop :=
  e'.sessions.lookup (SessionManager.getSessionIdFromCookie r) = none ∧
    ∃ session userId game, e.accounts.loaded r = some session ∧
      stoi (session.getValue (ascii "userId")) = some userId ∧
      gameType cs r.content = .ok game ∧
      e'.onlineUsers.lookup userId = none ∧ Released userId game e'

/-- The logout is done and answered with success, or nothing is done and the answer is an
error. -/
def Settled (cs : Surroundings) (r : HttpRequest) (e e' : Exchange) : Prop :=
  (e'.resp.statusCode = .k200Ok ∧ LoggedOut cs r e e') ∨
    (e'.resp.statusCode = .k400BadRequest ∧ Unchanged e e')

/-- A logout whose exception is not caught is answered with an error, too. -/
def AllOrNothing (cs : Surroundings) (r : HttpRequest) (e : Exchange) : Prop :=
  Ends (handle cs r) e (fun _ e' ↦ Settled cs r e e') fun _ e' ↦ Unchanged e e'

/-- No step behind the first change fails: a request without a session gets one that is
there already, the body is read if the session has a user, and a game of two players is
finished. -/
def Clean (cs : Surroundings) (r : HttpRequest) (e : Exchange) : Prop :=
  isJson r = true →
    match e.accounts.loaded r with
    | none =>
        e.sessions.lookup (SessionManager.generateSessionId cs.draws) = some .create ∧
          (SessionManager.getSessionIdFromCookie r ≠ [] →
            e.sessions.lookup (SessionManager.getSessionIdFromCookie r) = none)
    | some session =>
        match stoi (session.getValue (ascii "userId")), gameType cs r.content with
        | none, _ => True
        | some _, .error _ => False
        | some userId, .ok game => game = 2 → Releases e.server cs.game userId

theorem unchanged_resp_iff (e e' : Exchange) (resp : HttpResponse) :
    Unchanged e { e' with resp := resp } ↔ Unchanged e e' :=
  ⟨fun h ↦ ⟨h.sessions, h.onlineUsers, h.aiGames, h.values, h.gameRooms, h.waitingQueue⟩,
    fun h ↦ ⟨h.sessions, h.onlineUsers, h.aiGames, h.values, h.gameRooms, h.waitingQueue⟩⟩

/-- The answer to an exception is no success. -/
theorem ends_badRequest_iff (e₀ e : Exchange) (text : Bytes) :
    Ends (badRequest cs r text) e (fun _ e' ↦ Settled cs r e₀ e')
      (fun _ e' ↦ Unchanged e₀ e') ↔ Unchanged e₀ e := by
  rw [badRequest, ends_bind, ends_what]
  have hreply : ∀ message, Ends (reply r .k400BadRequest "Bad Request" true "application/json"
      (cs.indented [("status", .string "error"), ("message", message)])) e
      (fun _ e' ↦ Settled cs r e₀ e') (fun _ e' ↦ Unchanged e₀ e') ↔ Unchanged e₀ e := by
    intro message
    constructor
    · rintro (⟨hstatus, -⟩ | ⟨-, hkept⟩)
      · exact absurd hstatus nofun
      · exact (unchanged_resp_iff _ _ _).mp hkept
    · exact fun hkept ↦ .inr ⟨rfl, (unchanged_resp_iff _ _ _).mpr hkept⟩
  simp only [hreply]
  cases fromUTF8? text with
  | none => simp
  | some message => simp

/-- The handler behind the session of the request. -/
theorem ends_body_iff {ok : Unit → Exchange → Prop} {sessionId : Bytes} :
    Ends (do
      let userId ← stoiUserId sessionId
      modify fun e ↦ { e with sessions := SessionStorage.remove e.sessions sessionId }
      let parsed ← MonadExcept.ofExcept (cs.parse r.content)
      let gameType ← MonadExcept.ofExcept (cs.field GameWsHandler.clientInt? parsed "gameType")
      release cs userId gameType
      reply r .k200Ok "OK" true "application/json"
        (cs.indented [("message", .string "logout successful")])) e ok thrown ↔
      match stoi ((e.session sessionId).getValue (ascii "userId")), gameType cs r.content with
      | none, _ => thrown (ascii "stoi") e
      | some _, .error text =>
          thrown text { e with sessions := SessionStorage.remove e.sessions sessionId }
      | some userId, .ok game =>
          Ends (reply r .k200Ok "OK" true "application/json"
            (cs.indented [("message", .string "logout successful")]))
            (releasing cs userId game
              { e with sessions := SessionStorage.remove e.sessions sessionId }) ok thrown := by
  rw [ends_bind, stoiUserId, ends_bind, ends_getValue, ends_orThrow]
  cases stoi ((e.session sessionId).getValue (ascii "userId")) with
  | none => simp
  | some userId =>
      simp only [Option.some.injEq, forall_eq', reduceCtorEq, false_implies, and_true]
      rw [ends_bind, ends_modify, ends_gameType_iff]
      cases gameType cs r.content with
      | error text => simp
      | ok game =>
          simp only [Except.ok.injEq, forall_eq', reduceCtorEq, false_implies, implies_true,
            and_true]
          rw [ends_bind, ends_release_iff]

theorem settled_success_iff {e₀ : Exchange} (body : Bytes) :
    Ends (reply r .k200Ok "OK" true "application/json" body) e
      (fun _ e' ↦ Settled cs r e₀ e') thrown ↔ LoggedOut cs r e₀ e := by
  constructor
  · rintro (⟨-, hout⟩ | ⟨hstatus, -⟩)
    · exact hout
    · exact absurd hstatus nofun
  · exact fun hout ↦ .inl ⟨rfl, hout⟩

/-- A session is new, and it was there exactly if it has the values of a new one. -/
theorem unchanged_of_none_iff (h : e.accounts.loaded r = none) {sessions : SessionStorage}
    {resp : HttpResponse} (hlookup : ∀ sessionId, sessions.lookup sessionId =
      if sessionId = SessionManager.generateSessionId cs.draws then some .create
      else if sessionId = SessionManager.getSessionIdFromCookie r ∧ sessionId ≠ [] then none
      else e.sessions.lookup sessionId) :
    Unchanged e { e with sessions := sessions, resp := resp } ↔
      e.sessions.lookup (SessionManager.generateSessionId cs.draws) = some .create ∧
        (SessionManager.getSessionIdFromCookie r ≠ [] →
          e.sessions.lookup (SessionManager.getSessionIdFromCookie r) = none) := by
  constructor
  · rintro ⟨hsessions, -⟩
    have hnew : e.sessions.lookup (SessionManager.generateSessionId cs.draws) = some .create := by
      rw [← hsessions, hlookup, if_pos rfl]
    refine ⟨hnew, fun hnamed ↦ ?_⟩
    rw [← hsessions, hlookup, if_neg, if_pos ⟨rfl, hnamed⟩]
    intro hid
    -- the request would have named the new session
    have hstored : e.accounts.sessions.lookup (SessionManager.getSessionIdFromCookie r) =
        some .create := hid ▸ hnew
    simp [Accounts.loaded, hnamed, SessionStorage.load, hstored, Session.create] at h
  · rintro ⟨hnew, hnamed⟩
    refine ⟨fun sessionId ↦ (hlookup sessionId).trans ?_, rfl, rfl, rfl, rfl, rfl⟩
    split_ifs with hid hcookie
    · rw [hid, hnew]
    · rw [hcookie.1, hnamed (hcookie.1 ▸ hcookie.2)]
    · rfl

theorem lookup_remove_save (sessions : SessionStorage) (sessionId sessionId' : Bytes)
    (session : Session) :
    (SessionStorage.remove (SessionStorage.save sessions sessionId session)
      sessionId).lookup sessionId' =
      if sessionId' = sessionId then none else sessions.lookup sessionId' := by
  rw [SessionStorage.remove, OrderedMap.lookup_filter_ne]
  split_ifs with hid
  · rfl
  · exact Accounts.lookup_save_of_ne _ _ hid

theorem lookup_save_loaded {session : Session} (h : e.accounts.loaded r = some session)
    (sessionId : Bytes) :
    (SessionStorage.save e.sessions (SessionManager.getSessionIdFromCookie r)
      session.refresh).lookup sessionId = e.sessions.lookup sessionId := by
  obtain ⟨hlookup, hlive⟩ := Accounts.loaded_eq_some h
  by_cases hid : sessionId = SessionManager.getSessionIdFromCookie r
  · rw [hid, lookup_save, Accounts.refresh_eq_self hlive]
    exact hlookup.symm
  · exact Accounts.lookup_save_of_ne _ _ hid

theorem loggedOut_releasing_iff {session : Session} (hloaded : e.accounts.loaded r = some session)
    {userId game : ℤ} (huserId : stoi (session.getValue (ascii "userId")) = some userId)
    (hgame : gameType cs r.content = .ok game) {sessions : SessionStorage}
    (hsessions : sessions.lookup (SessionManager.getSessionIdFromCookie r) = none) :
    LoggedOut cs r e (releasing cs userId game { e with sessions := sessions }) ↔
      (game = 2 → Releases e.server cs.game userId) := by
  constructor
  · rintro ⟨-, session', userId', game', hloaded', huserId', hgame', -, -, hfreed⟩ hpvp
    rw [hloaded] at hloaded'
    cases hloaded'
    rw [huserId] at huserId'
    cases huserId'
    rw [hgame] at hgame'
    cases hgame'
    have hfreed := hfreed hpvp
    rw [releasing, if_pos hpvp] at hfreed
    exact (freed_iff_releases _ _ _).mp hfreed
  · intro hreleases
    refine ⟨hsessions, session, userId, game, hloaded, huserId, hgame, ?_, fun hai ↦ ?_,
      fun hpvp ↦ ?_⟩
    · exact (OrderedMap.lookup_filter_ne _ _ _).trans (if_pos rfl)
    · rw [releasing, if_pos hai]
      exact (OrderedMap.lookup_filter_ne _ _ _).trans (if_pos rfl)
    · rw [releasing, if_pos hpvp]
      exact (freed_iff_releases _ _ _).mpr (hreleases hpvp)

theorem allOrNothing_of_none (hjson : isJson r = true) (h : e.accounts.loaded r = none) :
    AllOrNothing cs r e ↔
      e.sessions.lookup (SessionManager.generateSessionId cs.draws) = some .create ∧
        (SessionManager.getSessionIdFromCookie r ≠ [] →
          e.sessions.lookup (SessionManager.getSessionIdFromCookie r) = none) := by
  obtain ⟨sessions, resp, hlookup, hends⟩ := ends_getSession_of_none cs h
  have hvalue : ({ e with sessions := sessions, resp := resp } : Exchange).session
      (SessionManager.generateSessionId cs.draws) = .create := by
    simp [Exchange.session, hlookup]
  have hnone : stoi (Session.create.getValue (ascii "userId")) = none := by decide
  rw [AllOrNothing, handle, hjson, if_neg (by decide), ends_tryCatch, ends_bind, hends,
    ends_body_iff, hvalue, hnone]
  rw [← unchanged_of_none_iff h hlookup]
  exact ends_badRequest_iff _ _ _

theorem allOrNothing_of_some (hjson : isJson r = true) {session : Session}
    (h : e.accounts.loaded r = some session) :
    AllOrNothing cs r e ↔
      match stoi (session.getValue (ascii "userId")), gameType cs r.content with
      | none, _ => True
      | some _, .error _ => False
      | some userId, .ok game => game = 2 → Releases e.server cs.game userId := by
  have hvalue : Exchange.session
      { e with
        sessions := SessionStorage.save e.sessions (SessionManager.getSessionIdFromCookie r)
          session.refresh } (SessionManager.getSessionIdFromCookie r) = session := by
    rw [Exchange.session, lookup_save, Accounts.refresh_eq_self (Accounts.loaded_eq_some h).2]
    rfl
  rw [AllOrNothing, handle, hjson, if_neg (by decide), ends_tryCatch, ends_bind,
    ends_getSession_of_some h, ends_body_iff, hvalue]
  cases huserId : stoi (session.getValue (ascii "userId")) with
  | none =>
      refine (ends_badRequest_iff _ _ _).trans ?_
      refine iff_of_true ⟨fun sessionId ↦ ?_, rfl, rfl, rfl, rfl, rfl⟩ trivial
      exact lookup_save_loaded h sessionId
  | some userId =>
      cases hgame : gameType cs r.content with
      | error text =>
          refine (ends_badRequest_iff _ _ _).trans ?_
          -- the session is destroyed already
          refine iff_of_false (fun hkept ↦ ?_) not_false
          have hlookup := hkept.sessions (SessionManager.getSessionIdFromCookie r)
          rw [lookup_remove_save, if_pos rfl] at hlookup
          exact Option.some_ne_none session
            (hlookup.trans (Accounts.loaded_eq_some h).1).symm
      | ok game =>
          refine (settled_success_iff _).trans (loggedOut_releasing_iff h huserId hgame ?_)
          exact (lookup_remove_save _ _ _ _).trans (if_pos rfl)

/-- The session is gone, and the user is not told that he is logged out. -/
theorem not_allOrNothing_of_error (hjson : isJson r = true) {userId : ℤ}
    (huserId : (e.accounts.loaded r).map
      (fun session ↦ stoi (session.getValue (ascii "userId"))) = some (some userId))
    {text : Bytes} (herror : gameType cs r.content = .error text) : ¬ AllOrNothing cs r e := by
  obtain ⟨session, hloaded, huserId⟩ := Option.map_eq_some_iff.mp huserId
  rw [allOrNothing_of_some hjson hloaded, huserId, herror]
  exact not_false

/-- A logout is all or nothing, in every state of the server, for every request and under
all circumstances, exactly if no step behind the first change fails. -/
theorem all_or_nothing_iff (cs : Surroundings) (r : HttpRequest) (e : Exchange) :
    AllOrNothing cs r e ↔ Clean cs r e := by
  cases hjson : isJson r with
  | false =>
      refine iff_of_true ?_ fun h ↦ absurd (hjson.symm.trans h) (by decide)
      rw [AllOrNothing, handle, hjson, if_pos (by decide)]
      exact .inr ⟨rfl, fun _ ↦ rfl, rfl, rfl, rfl, rfl, rfl⟩
  | true =>
      rw [Clean, hjson]
      cases h : e.accounts.loaded r with
      | none => simpa using allOrNothing_of_none hjson h
      | some session => simpa using allOrNothing_of_some hjson h

/-- A user has logged in, and he sends the next request. -/
def oneOnline : Exchange :=
  { Exchange.afterEvents (.create .empty .none)
      [.request Exchange.oneUser (parsed Exchange.loginRequest)] with
    resp := .create (checkClose (parsed Exchange.logoutRequest)) }

/-- The body of the logout is no JSON. -/
theorem not_all_or_nothing_logoutRequest :
    .request (parsed Exchange.logoutRequest) ∈
        (Runs.run HttpServer.deliver .create [(Exchange.logoutRequest, false)]).trace ∧
      ¬ AllOrNothing Exchange.oneUser (parsed Exchange.logoutRequest) oneOnline := by
  have hjson : isJson (parsed Exchange.logoutRequest) = true := by decide +kernel
  have huserId : (oneOnline.accounts.loaded (parsed Exchange.logoutRequest)).map
      (fun session ↦ stoi (session.getValue (ascii "userId"))) = some (some 7) := by
    decide +kernel
  have herror : gameType Exchange.oneUser (parsed Exchange.logoutRequest).content =
      .error (ascii "[json.exception.parse_error.101]") := by
    decide +kernel
  exact ⟨by decide +kernel, not_allOrNothing_of_error hjson huserId herror⟩

end LogoutHandler

end HttpRaftKv.Gomoku
