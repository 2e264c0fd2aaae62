import HttpRaftKv.Gomoku.Audience
import HttpRaftKv.Gomoku.Lockout

/-!
# Users who are logged in

A request is that of a user if its session says so, and a web socket is that of the user of
the session with which it has been opened.  Only a login whose name and password the data
base knows makes a session say so.  A user is logged in with one session at most, and what
is sent about a game goes to web sockets that its players have opened with such sessions.
-/

namespace HttpRaftKv.Gomoku

open Http Throwing

/-! ## Sessions -/

/-- A session with the number of a user has been written by a login. -/
def WrittenByLogin (session : Session) : Prop :=
  session.getValue (ascii "userId") ≠ [] →
    session.getValue (ascii "isLoggedIn") = ascii "true" ∧
      ∃ userId : ℤ, session.getValue (ascii "userId") = utf8 (toString userId)

def Signed (sessions : SessionStorage) : Prop :=
  ∀ sessionId session, sessions.lookup sessionId = some session → WrittenByLogin session

theorem writtenByLogin_create : WrittenByLogin Session.create.refresh :=
  fun h ↦ absurd rfl h

theorem lookup_remove (sessions : SessionStorage) (sessionId s : Bytes) :
    (SessionStorage.remove sessions sessionId).lookup s =
      if s = sessionId then none else sessions.lookup s :=
  OrderedMap.lookup_filter_ne sessions sessionId s

namespace Signed

variable {sessions : SessionStorage}

theorem remove (h : Signed sessions) (sessionId : Bytes) :
    Signed (SessionStorage.remove sessions sessionId) := by
  intro s session hs
  rw [lookup_remove] at hs
  split_ifs at hs
  exact h s session hs

theorem save (h : ∀ s session, s ≠ sessionId → sessions.lookup s = some session →
      WrittenByLogin session) {session : Session} (hsession : WrittenByLogin session) :
    Signed (SessionStorage.save sessions sessionId session) := by
  intro s stored hs
  by_cases heq : s = sessionId
  · rw [heq, lookup_save, Option.some.injEq] at hs
    exact hs ▸ hsession
  · rw [Accounts.lookup_save_of_ne _ _ heq] at hs
    exact h s stored heq hs

theorem load (h : Signed sessions) (sessionId : Bytes) :
    Signed (SessionStorage.load sessions sessionId).2 ∧
      ∀ session, (SessionStorage.load sessions sessionId).1 = some session →
        WrittenByLogin session := by
  unfold SessionStorage.load
  split
  · exact ⟨h, fun session hs ↦ by cases hs⟩
  · rename_i stored hstored
    split_ifs
    · exact ⟨h.remove sessionId, fun session hs ↦ by cases hs⟩
    · refine ⟨h, fun session hs ↦ ?_⟩
      cases hs
      exact h sessionId stored hstored

end Signed

/-- A new session has no values, and one that is there keeps its own. -/
theorem signed_getSession {sessions : SessionStorage} (h : Signed sessions) (secureCookies : Bool)
    (draws : Fin 32 → Fin 16) (r : HttpRequest) (resp : HttpResponse) :
    Signed (SessionManager.getSession secureCookies draws r sessions resp).2.1 := by
  obtain ⟨found, sessions', hfound, hsigned, hsession⟩ : ∃ found sessions',
      (if SessionManager.getSessionIdFromCookie r ≠ [] then
        SessionStorage.load sessions (SessionManager.getSessionIdFromCookie r)
      else (none, sessions)) = (found, sessions') ∧ Signed sessions' ∧
        ∀ session, found = some session → WrittenByLogin session := by
    split_ifs
    · exact ⟨_, _, rfl, h.load _⟩
    · exact ⟨none, sessions, rfl, h, fun session hnone ↦ by cases hnone⟩
  unfold SessionManager.getSession
  dsimp only
  rw [hfound]
  cases found with
  | some session => exact .save (fun s stored _ ↦ hsigned s stored) (hsession session rfl)
  | none => exact .save (fun s stored _ ↦ hsigned s stored) writtenByLogin_create

/-! ## What the handlers keep -/

namespace Exchange

/-- The sessions have been written by logins, and the server has been discreet. -/
structure Proper (opened : Conn → ℤ → Prop) (e : Exchange) : Prop where
  signed : Signed e.sessions
  discreet : e.server.Discreet opened

end Exchange

section handlers

variable {cs : Surroundings} {r : HttpRequest} {opened : Conn → ℤ → Prop}

theorem stays_fill (f : HttpResponse → HttpResponse) : Stays (Exchange.Proper opened) (fill f) :=
  stays_modify fun _ h ↦ ⟨h.signed, h.discreet⟩

theorem stays_reply (statusCode : HttpStatusCode) (statusMessage : String) (close : Bool)
    (contentType : String) (body : Bytes) : Stays (Exchange.Proper opened)
      (reply r statusCode statusMessage close contentType body) :=
  stays_fill _

theorem stays_packageResp (statusCode : HttpStatusCode) (statusMsg : String) (close : Bool)
    (contentType : String) (body : Bytes) : Stays (Exchange.Proper opened)
      (packageResp r statusCode statusMsg close contentType body) :=
  stays_fill _

theorem stays_unauthorized : Stays (Exchange.Proper opened) (unauthorized cs r) :=
  stays_packageResp _ _ _ _ _

theorem stays_what (text : Bytes) : Stays (Exchange.Proper opened) (what cs text) :=
  (stays_orThrow _ _).bind fun _ ↦ stays_pure _

theorem stays_badRequest (text : Bytes) : Stays (Exchange.Proper opened) (badRequest cs r text) :=
  (stays_what text).bind fun _ ↦ stays_reply _ _ _ _ _

theorem stays_getSession : Stays (Exchange.Proper opened) (getSession cs r) := by
  intro e h
  apply (ends_bind _ _).mpr
  apply ends_get.mpr
  apply (ends_bind _ _).mpr
  apply (ends_set _).mpr
  exact ⟨signed_getSession h.signed _ _ _ _, h.discreet⟩

theorem stays_getValue (sessionId : Bytes) (key : String) :
    Stays (Exchange.Proper opened) (getValue sessionId key) :=
  stays_get.bind fun _ ↦ stays_pure _

theorem stays_stoiUserId (sessionId : Bytes) :
    Stays (Exchange.Proper opened) (stoiUserId sessionId) :=
  (stays_getValue _ _).bind fun _ ↦ stays_orThrow _ _

theorem stays_readFile (name : String) : Stays (Exchange.Proper opened) (readFile cs name) :=
  stays_orThrow _ _

/-- The part of a handler behind its session, for users who are logged in. -/
theorem stays_guarded {sessionId : Bytes} {out rest : Handling Unit}
    (hout : Stays (Exchange.Proper opened) out) (hrest : Stays (Exchange.Proper opened) rest) :
    Stays (Exchange.Proper opened) (do
      if (← getValue sessionId "isLoggedIn") ≠ ascii "true" then out else rest) :=
  (stays_getValue _ _).bind fun _ ↦ hout.ite hrest

theorem EntryHandler.stays_handle : Stays (Exchange.Proper opened) (handle cs r) := by
  rw [handle]
  split
  · exact stays_reply _ _ _ _ _
  · exact stays_reply _ _ _ _ _

theorem RegisterHandler.stays_handle : Stays (Exchange.Proper opened) (handle cs r) := by
  refine (stays_ofExcept _).bind fun ⟨username, password⟩ ↦ ?_
  refine (stays_ofExcept _).bind fun userId ↦ ?_
  exact (stays_reply _ _ _ _ _).ite ((stays_reply _ _ _ _ _).ite (stays_reply _ _ _ _ _))

theorem GameBackendHandler.stays_handle : Stays (Exchange.Proper opened) (handle cs r) :=
  (stays_readFile _).bind fun _ ↦ stays_reply _ _ _ _ _

theorem GomokuServer.stays_getBackendData :
    Stays (Exchange.Proper opened) (getBackendData cs r) := by
  apply Stays.tryCatch
  · refine stays_get.bind fun _ ↦ ?_
    exact (stays_ofExcept _).bind fun _ ↦ stays_reply _ _ _ _ _
  · exact fun text ↦ (stays_what text).bind fun _ ↦ stays_fill _

theorem GomokuServer.stays_test : Stays (Exchange.Proper opened) test :=
  stays_fill _

theorem MenuHandler.stays_handle : Stays (Exchange.Proper opened) (handle cs r) := by
  refine Stays.tryCatch (stays_getSession.bind fun sessionId ↦ ?_) stays_badRequest
  apply stays_guarded stays_unauthorized
  refine (stays_stoiUserId _).bind fun userId ↦ ?_
  refine (stays_getValue _ _).bind fun username ↦ ?_
  exact (stays_readFile _).bind fun page ↦ stays_packageResp _ _ _ _ _

theorem AiGameStartHandler.stays_handle : Stays (Exchange.Proper opened) (handle cs r) := by
  refine stays_getSession.bind fun sessionId ↦ ?_
  apply stays_guarded stays_unauthorized
  refine (stays_stoiUserId _).bind fun userId ↦ ?_
  refine Stays.bind (stays_modify fun _ h ↦ ⟨h.signed, h.discreet⟩) fun _ ↦ ?_
  exact (stays_readFile _).bind fun page ↦ stays_reply _ _ _ _ _

theorem AiGameMoveHandler.stays_finish (userId : ℤ) (game : AiGame) (winner : String)
    (move : List (String × Json)) :
    Stays (Exchange.Proper opened) (finish cs r userId game winner move) :=
  (stays_reply _ _ _ _ _).bind fun _ ↦ stays_modify fun _ h ↦ ⟨h.signed, h.discreet⟩

theorem AiGameMoveHandler.stays_answer (userId : ℤ) (game : AiGame) :
    Stays (Exchange.Proper opened) (answer cs r userId game) := by
  refine (stays_finish _ _ _ _).ite ((stays_finish _ _ _ _).ite ?_)
  apply Stays.bind
  · exact stays_modify fun _ h ↦ ⟨h.signed, h.discreet⟩
  intro _
  exact (stays_finish _ _ _ _).ite ((stays_finish _ _ _ _).ite (stays_reply _ _ _ _ _))

theorem AiGameMoveHandler.stays_move (userId x y : ℤ) :
    Stays (Exchange.Proper opened) (move cs r userId x y) := by
  refine Stays.get_set (fun _ h ↦ ⟨h.signed, h.discreet⟩) fun e ↦ ?_
  exact (stays_reply _ _ _ _ _).ite (stays_answer _ _)

theorem AiGameMoveHandler.stays_handle : Stays (Exchange.Proper opened) (handle cs r) := by
  refine Stays.tryCatch (stays_getSession.bind fun sessionId ↦ ?_) fun text ↦ ?_
  · apply stays_guarded stays_unauthorized
    refine (stays_stoiUserId _).bind fun userId ↦ ?_
    exact (stays_ofExcept _).bind fun ⟨x, y⟩ ↦ stays_move userId x y
  · exact (stays_what text).bind fun _ ↦ stays_packageResp _ _ _ _ _

theorem GomokuServer.stays_restartChessGameVsAi :
    Stays (Exchange.Proper opened) (restartChessGameVsAi cs r) := by
  refine stays_getSession.bind fun sessionId ↦ ?_
  apply stays_guarded stays_unauthorized
  refine (stays_stoiUserId _).bind fun userId ↦ ?_
  refine Stays.bind (stays_modify fun _ h ↦ ⟨h.signed, h.discreet⟩) fun _ ↦ ?_
  exact stays_packageResp _ _ _ _ _

theorem GomokuServer.stays_pvp : Stays (Exchange.Proper opened) (pvp cs r) := by
  refine stays_getSession.bind fun sessionId ↦ ?_
  apply stays_guarded stays_unauthorized
  refine (stays_getValue _ _).bind fun userId ↦ ?_
  refine (stays_getValue _ _).bind fun username ↦ ?_
  split
  · exact stays_fill _
  · exact stays_reply _ _ _ _ _

/-! ## Login -/

/-- Whatever the session is while a login writes it, the others have been written by logins. -/
structure SignedBut (opened : Conn → ℤ → Prop) (sessionId : Bytes) (session : Session)
    (e : Exchange) : Prop where
  session : e.session sessionId = session
  others : ∀ s stored, s ≠ sessionId → e.sessions.lookup s = some stored → WrittenByLogin stored
  discreet : e.server.Discreet opened

theorem SignedBut.setValue {sessionId : Bytes} {session : Session} {e : Exchange}
    (h : SignedBut opened sessionId session e) (key value : Bytes) :
    SignedBut opened sessionId (session.setValue key value)
      { e with
        sessions := SessionStorage.save e.sessions sessionId
          ((e.session sessionId).setValue key value) } where
  session := by
    rw [h.session, Exchange.session, lookup_save]
    rfl
  others s stored hs hstored :=
    h.others s stored hs ((Accounts.lookup_save_of_ne _ _ hs).symm.trans hstored)
  discreet := h.discreet

theorem SignedBut.proper {sessionId : Bytes} {session : Session} {e : Exchange}
    (h : SignedBut opened sessionId session e) (hsession : WrittenByLogin session) :
    e.Proper opened where
  signed s stored hstored := by
    by_cases hs : s = sessionId
    · have hlookup := h.session
      rw [Exchange.session, ← hs, hstored, Option.getD_some] at hlookup
      exact hlookup ▸ hsession
    · exact h.others s stored hs hstored
  discreet := h.discreet

theorem LoginHandler.stays_login (userId : ℤ) (username : String) :
    Stays (Exchange.Proper opened) (login cs r userId username) := by
  refine stays_get.bind fun e ↦ Stays.ite ?_ (stays_reply _ _ _ _ _)
  refine stays_getSession.bind fun sessionId e h ↦ ?_
  have hbut : SignedBut opened sessionId (e.session sessionId) e :=
    ⟨rfl, fun s stored _ ↦ h.signed s stored, h.discreet⟩
  have hwritten := ((hbut.setValue (ascii "userId") (utf8 (toString userId))).setValue
    (ascii "username") (utf8 username)).setValue (ascii "isLoggedIn") (ascii "true")
  obtain ⟨hlogged, huser⟩ := Accounts.getValue_loggedIn (e.session sessionId)
    (utf8 (toString userId)) (utf8 username)
  have hproper := hwritten.proper fun _ ↦ ⟨hlogged, userId, huser⟩
  iterate 5
    apply (ends_bind _ _).mpr
    apply (ends_modify _).mpr
  exact stays_reply _ _ _ _ _ _ ⟨hproper.signed, hproper.discreet⟩

theorem LoginHandler.stays_handle : Stays (Exchange.Proper opened) (handle cs r) := by
  refine Stays.ite (stays_reply _ _ _ _ _) (Stays.tryCatch ?_ stays_badRequest)
  refine (stays_ofExcept _).bind fun ⟨username, password⟩ ↦ ?_
  refine (stays_ofExcept _).bind fun userId ↦ ?_
  exact (stays_login userId username).ite (stays_reply _ _ _ _ _)

/-! ## Logout -/

theorem LogoutHandler.discreet_endGame {s : GomokuServer} (h : s.Discreet opened)
    (cs : GameWsHandler.Circumstances) (userId : ℤ) :
    (endGame s cs userId).2.Discreet opened := by
  have hnone : ∀ opponentId, roomOf (gameOver opponentId) = none := by
    intro opponentId
    simp [roomOf, gameOver, List.lookup]
  unfold endGame
  dsimp only
  split_ifs with hroomId
  · have hlookup := GomokuServer.lookup_getRoomByUserId s cs.room userId (by omega)
    obtain ⟨room, hroom, -⟩ := GomokuServer.getGameRoom_of_lookup hlookup cs.miss
    have hfinished :=
      GameWsHandler.finishGameRoom_discreet h cs.faults hlookup (room.getOpponent userId)
    rw [hroom]
    dsimp only
    generalize s.finishGameRoom cs.faults _ (room.getOpponent userId) = finished at hfinished
    obtain ⟨_ | result, s'⟩ := finished
    · exact hfinished
    · dsimp only
      split_ifs
      · exact hfinished
      · exact ((hfinished.sendRoomlessIfConnected _ (hnone _)).addToLobby _ _).removeGameRoom _
      · exact hfinished.removeGameRoom _
  · exact h

theorem LogoutHandler.stays_release (userId gameType : ℤ) :
    Stays (Exchange.Proper opened) (release cs userId gameType) := by
  refine Stays.bind (stays_modify fun _ h ↦ ⟨h.signed, h.discreet⟩) fun _ ↦ ?_
  apply Stays.ite
  · exact stays_modify fun _ h ↦ ⟨h.signed, h.discreet⟩
  · refine Stays.ite ?_ (stays_pure _)
    refine Stays.get_set (fun _ h ↦ ⟨h.signed, discreet_endGame h.discreet _ _⟩) fun e ↦ ?_
    refine (stays_orThrow _ _).bind fun _ ↦ stays_modify fun _ h ↦ ⟨h.signed, ?_⟩
    exact h.discreet.congr rfl (fun _ hentry ↦ hentry) ⟨rfl, rfl, rfl⟩ rfl

theorem LogoutHandler.stays_handle : Stays (Exchange.Proper opened) (handle cs r) := by
  refine Stays.ite (stays_reply _ _ _ _ _) (Stays.tryCatch ?_ stays_badRequest)
  refine stays_getSession.bind fun sessionId ↦ ?_
  refine (stays_stoiUserId _).bind fun userId ↦ ?_
  refine Stays.bind (stays_modify fun _ h ↦ ⟨h.signed.remove sessionId, h.discreet⟩) fun _ ↦ ?_
  refine (stays_ofExcept _).bind fun parsed ↦ ?_
  refine (stays_ofExcept _).bind fun gameType ↦ ?_
  exact (stays_release userId gameType).bind fun _ ↦ stays_reply _ _ _ _ _

/-! ## The upgrade -/

/-- The user whose number is read from the session of a request is logged in with it. -/
theorem Accounts.loggedInAs_of_stoi {a : Accounts} (h : Signed a.sessions) {userId : ℤ}
    (huserId : stoi (((a.loaded r).getD .create).getValue (ascii "userId")) = some userId) :
    a.LoggedInAs (a.sessionId cs r) userId := by
  cases hloaded : a.loaded r with
  | none =>
      rw [hloaded] at huserId
      exact absurd huserId (by simp [Session.create, Session.getValue, stoi])
  | some session =>
      rw [hloaded, Option.getD_some] at huserId
      obtain ⟨hlookup, hlive⟩ := loaded_eq_some hloaded
      have hvalue : session.getValue (ascii "userId") ≠ [] := by
        intro hnil
        rw [hnil] at huserId
        exact absurd huserId (by simp [stoi])
      obtain ⟨hlogged, u, hu⟩ := h _ session hlookup hvalue
      rw [hu] at huserId
      rw [eq_of_stoi_toString huserId]
      exact ⟨session, sessionId_of_some hloaded ▸ hlookup, hlive, hlogged, hu⟩

theorem Exchange.ends_getSession {e : Exchange} (h : Signed e.sessions)
    {ok : Bytes → Exchange → Prop} {thrown : Bytes → Exchange → Prop}
    (hok : ∀ e', Signed e'.sessions → e'.server = e.server →
      Accounts.Opened cs r e.accounts e'.accounts → ok (e.accounts.sessionId cs r) e') :
    Ends (getSession cs r) e ok thrown := by
  obtain ⟨hid, hopened⟩ := Accounts.opened_getSession e.accounts cs.useSSL cs r e.resp
  apply (ends_bind _ _).mpr
  apply ends_get.mpr
  apply (ends_bind _ _).mpr
  apply (ends_set _).mpr
  apply (ends_pure _).mpr
  change ok (SessionManager.getSession cs.useSSL cs.draws r e.accounts.sessions e.resp).1 _
  rw [hid]
  exact hok _ (signed_getSession h _ _ _ _) rfl hopened

/-- The request opens a web socket for the user: it is let through, it is a valid upgrade,
and he is logged in with its session. -/
structure Upgrades (cs : Surroundings) (r : HttpRequest) (e : Exchange) (userId : ℤ) : Prop where
  allowed : MiddlewareChain.processBefore cs.allowed r = none
  route : Route.route r = some .ws
  valid : WebSocketServer.validateUpgradeRequest r = true
  logged : e.accounts.LoggedInAs (e.accounts.sessionId cs r) userId

/-- The handler of an upgrade leaves the server alone, or it opens the web socket for the
user who is logged in. -/
theorem GameWsHandler.ends_upgrade {e : Exchange} (h : Signed e.sessions)
    {P : SessionStorage → GomokuServer → Prop}
    (hrefused : ∀ sessions, Signed sessions → P sessions e.server)
    (hopens : ∀ sessions userId, Signed sessions →
      WebSocketServer.validateUpgradeRequest r = true →
      e.accounts.LoggedInAs (e.accounts.sessionId cs r) userId →
        P sessions (handle e.server cs.conn userId)) :
    Ends (upgrade cs r) e (fun _ e' ↦ P e'.sessions e'.server)
      fun _ e' ↦ P e'.sessions e'.server := by
  apply (ends_bind _ _).mpr
  refine Exchange.ends_getSession h fun e₁ hsigned hserver hsession ↦ ?_
  have hrefused₁ : P e₁.sessions e₁.server := hserver ▸ hrefused e₁.sessions hsigned
  have hvalue : (e₁.session (e.accounts.sessionId cs r)).getValue (ascii "userId") =
      ((e.accounts.loaded r).getD .create).getValue (ascii "userId") := by
    have hlookup : e₁.sessions.lookup (e.accounts.sessionId cs r) = _ := hsession.session
    rw [Exchange.session, hlookup]
    rfl
  apply (ends_bind _ _).mpr
  refine (ends_bind _ _).mpr ((ends_ite _ _ _).mpr ⟨fun _ ↦ ?_, fun _ ↦ ?_⟩)
  · exact (ends_modify _).mpr hrefused₁
  apply (ends_bind _ _).mpr
  apply (ends_bind _ _).mpr
  apply (ends_orThrow _ _).mpr
  rw [hvalue]
  refine ⟨fun userId huserId ↦ ?_, fun _ ↦ hrefused₁⟩
  have hlogged : e.accounts.LoggedInAs (e.accounts.sessionId cs r) userId :=
    Accounts.loggedInAs_of_stoi h huserId
  apply (ends_bind _ _).mpr
  apply (ends_modify _).mpr
  apply (ends_ite _ _ _).mpr
  refine ⟨fun hvalid ↦ (ends_modify _).mpr ?_, fun _ ↦ hrefused₁⟩
  have hopens₁ := hopens e₁.sessions userId hsigned hvalid hlogged
  rw [← hserver] at hopens₁
  exact hopens₁

/-! ## Requests -/

theorem Route.stays_handle {route : Route} (hroute : route ≠ .ws) :
    Stays (Exchange.Proper opened) (route.handle cs r) := by
  cases route with
  | entry => exact EntryHandler.stays_handle
  | login => exact LoginHandler.stays_handle
  | register => exact RegisterHandler.stays_handle
  | logout => exact LogoutHandler.stays_handle
  | menu => exact MenuHandler.stays_handle
  | aiBotStart => exact AiGameStartHandler.stays_handle
  | aiBotMove => exact AiGameMoveHandler.stays_handle
  | aiBotRestart => exact GomokuServer.stays_restartChessGameVsAi
  | backend => exact GameBackendHandler.stays_handle
  | backendData => exact GomokuServer.stays_getBackendData
  | apiTest => exact GomokuServer.stays_test
  | ws => exact absurd rfl hroute
  | pvp => exact GomokuServer.stays_pvp

/-- What a handler leaves is what the request leaves, whether the handler throws or not. -/
theorem handleRequest_of_ends {e : Exchange} {P : SessionStorage → GomokuServer → Prop}
    (hbefore : MiddlewareChain.processBefore cs.allowed r = none)
    (hends : Ends (routed cs r) e (fun _ e' ↦ P e'.sessions e'.server)
      fun _ e' ↦ P e'.sessions e'.server) :
    P (handleRequest cs r e).sessions (handleRequest cs r e).server := by
  unfold handleRequest
  rw [hbefore]
  rw [Ends] at hends
  dsimp only
  cases hrouted : routed cs r e with
  | ok _ e' =>
      rw [hrouted] at hends
      exact hends
  | error text e' =>
      rw [hrouted] at hends
      exact hends

/-- What a request may leave: the server has stayed discreet, or it has opened a web socket
for the user. -/
def ProperOrUpgrades (opened : Conn → ℤ → Prop) (cs : Surroundings) (r : HttpRequest) (e : Exchange)
    (sessions : SessionStorage) (server : GomokuServer) : Prop :=
  Signed sessions ∧ (server.Discreet opened ∨ ∃ userId, Upgrades cs r e userId ∧
    server = GameWsHandler.handle e.server cs.conn userId)

/-- The step lemma of a request. -/
theorem properOrUpgrades_handleRequest {e : Exchange} (h : e.Proper opened) :
    ProperOrUpgrades opened cs r e (handleRequest cs r e).sessions
      (handleRequest cs r e).server := by
  cases hbefore : MiddlewareChain.processBefore cs.allowed r with
  | some res =>
      rw [handleRequest, hbefore]
      exact ⟨h.signed, .inl h.discreet⟩
  | none =>
      refine handleRequest_of_ends (P := ProperOrUpgrades opened cs r e) hbefore ?_
      have hkeeps : ∀ {x : Handling Unit}, Stays (Exchange.Proper opened) x →
          Ends x e (fun _ e' ↦ ProperOrUpgrades opened cs r e e'.sessions e'.server)
            fun _ e' ↦ ProperOrUpgrades opened cs r e e'.sessions e'.server := fun hstays ↦
        (hstays e h).mono (fun _ _ h' ↦ ⟨h'.signed, .inl h'.discreet⟩)
          fun _ _ h' ↦ ⟨h'.signed, .inl h'.discreet⟩
      rw [routed]
      cases hroute : Route.route r with
      | none => exact hkeeps (stays_fill _)
      | some route =>
          by_cases hws : route = .ws
          · rw [hws]
            refine GameWsHandler.ends_upgrade h.signed
              (fun _ hsigned ↦ ⟨hsigned, .inl h.discreet⟩) fun _ userId hsigned hvalid hlogged ↦ ?_
            exact ⟨hsigned, .inr ⟨userId, ⟨hbefore, hws ▸ hroute, hvalid, hlogged⟩, rfl⟩⟩
          · exact hkeeps (Route.stays_handle hws)

end handlers

/-! ## One session for a user -/

namespace Accounts

variable {a a' : Accounts}

/-- Who is logged in is online, with one session. -/
structure SingleSession (a : Accounts) : Prop where
  online : ∀ s u, a.LoggedInAs s u → a.Online u
  one : ∀ s s' u, a.LoggedInAs s u → a.LoggedInAs s' u → s = s'

/-- Nobody but the user of a session logs out with it. -/
def OwnLogout (a : Accounts) : Change → Prop
  | .logout sessionId userId => a.LoggedInAs sessionId userId
  | _ => True

theorem ownLogout_lose (sessionId : Bytes) : a.OwnLogout (.lose sessionId) :=
  trivial

/-- The step lemma of the accounts. -/
theorem SingleSession.step (h : a.SingleSession) {change : Change} (hown : a.OwnLogout change)
    (hchange : a.Changes a' change) : a'.SingleSession := by
  cases change with
  | keep =>
      obtain ⟨hsessions, honline⟩ := hchange
      refine ⟨fun s u hs ↦ ?_, fun s s' u hs hs' ↦ ?_⟩
      · exact (honline u).mpr (h.online s u ((hsessions s u).mp hs))
      · exact h.one s s' u ((hsessions s u).mp hs) ((hsessions s' u).mp hs')
  | lose sessionId =>
      obtain ⟨hsessions, honline⟩ := hchange
      refine ⟨fun s u hs ↦ ?_, fun s s' u hs hs' ↦ ?_⟩
      · exact (honline u).mpr (h.online s u ((hsessions s u).mp hs).2)
      · exact h.one s s' u ((hsessions s u).mp hs).2 ((hsessions s' u).mp hs').2
  | logout sessionId userId =>
      obtain ⟨hsessions, honline, -⟩ := hchange
      refine ⟨fun s u hs ↦ ?_, fun s s' u hs hs' ↦ ?_⟩
      · obtain ⟨hne, hlogged⟩ := (hsessions s u).mp hs
        refine (honline u).mpr ⟨?_, h.online s u hlogged⟩
        rintro rfl
        exact hne (h.one s sessionId u hlogged hown)
      · exact h.one s s' u ((hsessions s u).mp hs).2 ((hsessions s' u).mp hs').2
  | login sessionId userId =>
      obtain ⟨hsessions, honline, hoffline⟩ := hchange
      -- the user had no session before
      have hold : ∀ s u, a'.LoggedInAs s u → s = sessionId ∧ u = userId ∨
          u ≠ userId ∧ a.LoggedInAs s u := by
        intro s u hs
        refine ((hsessions s u).mp hs).imp_right fun ⟨_, hlogged⟩ ↦ ⟨?_, hlogged⟩
        rintro rfl
        exact hoffline (h.online s u hlogged)
      refine ⟨fun s u hs ↦ ?_, fun s s' u hs hs' ↦ ?_⟩
      · apply (honline u).mpr
        exact (hold s u hs).imp And.right fun hlogged ↦ h.online s u hlogged.2
      · rcases hold s u hs with ⟨rfl, rfl⟩ | ⟨hne, hlogged⟩
        · exact ((hold s' u hs').resolve_right fun hother ↦ hother.1 rfl).1.symm
        · exact h.one s s' u hlogged ((hold s' u hs').resolve_left fun heq ↦ hne heq.2).2

variable {cs : Surroundings} {r : HttpRequest}

/-- What a request can change: something about its own session. -/
inductive Asked (a : Accounts) (cs : Surroundings) (r : HttpRequest) : Change → Prop
  | keep : Asked a cs r .keep
  | lose : Asked a cs r (.lose (a.sessionId cs r))
  | logout (userId : ℤ)
      (h : stoi (((a.loaded r).getD .create).getValue (ascii "userId")) = some userId) :
      Asked a cs r (.logout (a.sessionId cs r) userId)
  | login (userId : ℤ) (hroute : Route.route r = some .login)
      (hquery : LoginHandler.query cs r.content = .ok userId) :
      Asked a cs r (.login (a.sessionId cs r) userId)

theorem asked_opening : a.Asked cs r (a.opening cs r) := by
  cases hloaded : a.loaded r with
  | some session =>
      rw [opening_of_some hloaded]
      exact .keep
  | none =>
      rw [opening_of_none hloaded]
      exact .lose

theorem asked_loggingIn (hroute : Route.route r = some .login) :
    a.Asked cs r (a.loggingIn cs r) := by
  unfold loggingIn
  split_ifs
  · split
    · exact .keep
    · rename_i userId hquery
      split_ifs
      · exact .login userId hroute hquery
      · exact .keep
  · exact .keep

theorem asked_loggingOut : a.Asked cs r (a.loggingOut cs r) := by
  unfold loggingOut
  split_ifs
  · split
    · exact asked_opening
    · rename_i session hloaded
      split
      · exact .keep
      · exact .lose
      · rename_i userId _ huserId _
        refine .logout userId ?_
        rw [hloaded, Option.getD_some, huserId]
  · exact .keep

theorem asked_change : a.Asked cs r (a.change cs r) := by
  unfold change
  split
  · rename_i route _ hroute
    cases route with
    | login => exact asked_loggingIn hroute
    | logout => exact asked_loggingOut
    | entry | register | backend | backendData | apiTest => exact .keep
    | menu | aiBotStart | aiBotMove | aiBotRestart | ws | pvp => exact asked_opening
  · exact .keep

theorem Asked.ownLogout {change : Change} (h : a.Asked cs r change) (hsigned : Signed a.sessions) :
    a.OwnLogout change := by
  cases h with
  | logout userId huserId => exact loggedInAs_of_stoi hsigned huserId
  | keep | lose | login => trivial

/-- The other sessions are left alone. -/
theorem Asked.others {change : Change} (h : a.Asked cs r change) (hchange : a.Changes a' change)
    {s : Bytes} (hs : s ≠ a.sessionId cs r) (u : ℤ) : a'.LoggedInAs s u ↔ a.LoggedInAs s u := by
  cases h with
  | keep => exact hchange.1 s u
  | lose => exact (hchange.1 s u).trans (and_iff_right hs)
  | logout => exact (hchange.1 s u).trans (and_iff_right hs)
  | login =>
      refine (hchange.1 s u).trans ((or_iff_right fun heq ↦ hs heq.1).trans ?_)
      exact and_iff_right hs

/-- Who is logged in behind the request has been so before, or logs in with it. -/
theorem Asked.logged {change : Change} (h : a.Asked cs r change) (hchange : a.Changes a' change)
    {s : Bytes} {u : ℤ} (hlogged : a'.LoggedInAs s u) :
    a.LoggedInAs s u ∨ Route.route r = some .login ∧
      LoginHandler.query cs r.content = .ok u ∧ a.sessionId cs r = s := by
  cases h with
  | keep => exact .inl ((hchange.1 s u).mp hlogged)
  | lose => exact .inl ((hchange.1 s u).mp hlogged).2
  | logout => exact .inl ((hchange.1 s u).mp hlogged).2
  | login userId hroute hquery =>
      rcases (hchange.1 s u).mp hlogged with ⟨rfl, rfl⟩ | ⟨-, hbefore⟩
      · exact .inr ⟨hroute, hquery, rfl⟩
      · exact .inl hbefore

end Accounts

/-! ## Runs of the application -/

/-- What happens to the application: requests, sessions that expire, and what comes on the
web sockets. -/
inductive AppEvent
  | request (cs : Surroundings) (r : HttpRequest)
  | expire (sessionId : Bytes)
  | message (cs : GameWsHandler.Circumstances) (conn : Conn) (message : String)
  | close (cs : GameWsHandler.Circumstances) (conn : Conn)
  | network (conn : Conn) (connected : Bool)

namespace Exchange

def onAppEvent (text : JsonText) (e : Exchange) : AppEvent → Exchange
  | .request cs r => onRequest cs r e
  | .expire sessionId => e.expire sessionId
  | .message cs conn message =>
      { e with server := GameWsHandler.onMessage text e.server cs conn message }
  | .close cs conn => { e with server := GameWsHandler.onClose e.server cs conn }
  | .network conn connected =>
      { e with
        server := { e.server with connected := Function.update e.server.connected conn connected } }

variable (text : JsonText) (server : GomokuServer)

def afterAppEvents (events : List AppEvent) : Exchange :=
  Runs.run (onAppEvent text) (boot server) events

/-- A login of the run has found the user and got the session for him: he was not logged in
with it before, and has been so ever since. -/
def LoggedInBy (events : List AppEvent) (sessionId : Bytes) (userId : ℤ) : Prop :=
  ∃ past cs r, past ++ [.request cs r] <+: events ∧ Route.route r = some .login ∧
    LoginHandler.query cs r.content = .ok userId ∧
    (afterAppEvents text server past).accounts.sessionId cs r = sessionId ∧
    ¬ (afterAppEvents text server past).accounts.LoggedInAs sessionId userId ∧
    ∀ since, past ++ [.request cs r] <+: since → since <+: events →
      (afterAppEvents text server since).accounts.LoggedInAs sessionId userId

/-- A request of the run has opened the web socket for the user, who was logged in with its
session. -/
def OpenedBy (events : List AppEvent) (conn : Conn) (userId : ℤ) : Prop :=
  ∃ past cs r, past ++ [.request cs r] <+: events ∧ cs.conn = conn ∧
    Upgrades cs r (afterAppEvents text server past) userId ∧
    (afterAppEvents text server (past ++ [.request cs r])).server.connToUserId conn = some userId

/-- The invariant of the runs. -/
structure Sound (events : List AppEvent) : Prop where
  proper : (afterAppEvents text server events).Proper (OpenedBy text server events)
  single : (afterAppEvents text server events).accounts.SingleSession
  logged : ∀ s u, (afterAppEvents text server events).accounts.LoggedInAs s u →
    LoggedInBy text server events s u

variable {text server}

theorem afterAppEvents_snoc (events : List AppEvent) (event : AppEvent) :
    afterAppEvents text server (events ++ [event]) =
      onAppEvent text (afterAppEvents text server events) event :=
  Runs.run_snoc ..

/-- The user has stayed logged in. -/
theorem LoggedInBy.snoc {events : List AppEvent} {s : Bytes} {u : ℤ}
    (h : LoggedInBy text server events s u) {event : AppEvent}
    (hlogged : (afterAppEvents text server (events ++ [event])).accounts.LoggedInAs s u) :
    LoggedInBy text server (events ++ [event]) s u := by
  obtain ⟨past, cs, r, hpast, hroute, hquery, hsession, hbefore, hsince⟩ := h
  refine ⟨past, cs, r, hpast.trans (List.prefix_append _ _), hroute, hquery, hsession, hbefore,
    fun since hfrom hto ↦ ?_⟩
  rcases List.prefix_concat_iff.mp hto with rfl | hto
  · exact hlogged
  · exact hsince since hfrom hto

theorem OpenedBy.snoc {events : List AppEvent} {conn : Conn} {u : ℤ}
    (h : OpenedBy text server events conn u) (event : AppEvent) :
    OpenedBy text server (events ++ [event]) conn u := by
  obtain ⟨past, cs, r, hpast, h⟩ := h
  exact ⟨past, cs, r, hpast.trans (List.prefix_append _ _), h⟩

/-- An event of a web socket leaves the accounts alone. -/
theorem Sound.socket {events : List AppEvent} (h : Sound text server events) {event : AppEvent}
    {server' : GomokuServer}
    (hnext : onAppEvent text (afterAppEvents text server events) event =
      { afterAppEvents text server events with server := server' })
    (hserver' : server'.Discreet (OpenedBy text server (events ++ [event]))) :
    Sound text server (events ++ [event]) := by
  have hafter := (afterAppEvents_snoc events event).trans hnext
  refine ⟨?_, ?_, fun s u hlogged ↦ ?_⟩
  · rw [hafter]
    exact ⟨h.proper.signed, hserver'⟩
  · rw [hafter]
    exact h.single
  · refine (h.logged s u ?_).snoc hlogged
    rw [hafter] at hlogged
    exact hlogged

theorem signed_expire {e : Exchange} (h : Signed e.sessions) (sessionId : Bytes) :
    Signed (e.expire sessionId).sessions := by
  intro s session hs
  rw [lookup_expire] at hs
  split_ifs at hs
  · obtain ⟨stored, hstored, rfl⟩ := Option.map_eq_some_iff.mp hs
    exact h s stored hstored
  · exact h s session hs

/-- The response of the request before is not read. -/
theorem changes_onRequest (cs : Surroundings) (r : HttpRequest) (e : Exchange) :
    e.accounts.Changes (onRequest cs r e).accounts (e.accounts.change cs r) :=
  changes_handleRequest cs r { e with resp := .create (checkClose r) }

/-- The step lemma of a request: who is logged in behind it has been so before, or the
request is his login. -/
theorem Sound.request {events : List AppEvent} (h : Sound text server events) (cs : Surroundings)
    (r : HttpRequest) : Sound text server (events ++ [.request cs r]) := by
  have hafter := @afterAppEvents_snoc text server events (.request cs r)
  have hchange := changes_onRequest cs r (afterAppEvents text server events)
  have hasked : (afterAppEvents text server events).accounts.Asked cs r
      ((afterAppEvents text server events).accounts.change cs r) := Accounts.asked_change
  have hdiscreet : (afterAppEvents text server events).server.Discreet
      (OpenedBy text server (events ++ [.request cs r])) :=
    h.proper.discreet.mono fun _ _ hopened ↦ hopened.snoc _
  obtain ⟨hsigned, hserver⟩ : ProperOrUpgrades (OpenedBy text server (events ++ [.request cs r]))
      cs r { afterAppEvents text server events with resp := .create (checkClose r) } _ _ :=
    properOrUpgrades_handleRequest ⟨h.proper.signed, hdiscreet⟩
  refine ⟨?_, ?_, fun s u hlogged ↦ ?_⟩
  · rw [hafter]
    refine ⟨hsigned, ?_⟩
    rcases hserver with hserver | ⟨userId, hupgrades, hserver⟩
    · exact hserver
    · change (handleRequest _ _ _).server.Discreet _
      rw [hserver]
      refine GameWsHandler.handle_discreet hdiscreet ⟨events, cs, r, List.prefix_rfl, rfl,
        ⟨hupgrades.allowed, hupgrades.route, hupgrades.valid, hupgrades.logged⟩, ?_⟩
      rw [hafter]
      change (handleRequest _ _ _).server.connToUserId _ = _
      rw [hserver]
      simp [GameWsHandler.handle, GomokuServer.setUserId, GomokuServer.addToLobby]
  · rw [hafter]
    exact h.single.step (hasked.ownLogout h.proper.signed) hchange
  · by_cases hbefore : (afterAppEvents text server events).accounts.LoggedInAs s u
    · exact (h.logged s u hbefore).snoc hlogged
    · have hlogin := hlogged
      rw [hafter] at hlogin
      obtain ⟨hroute, hquery, hsession⟩ :=
        (hasked.logged hchange hlogin).resolve_left hbefore
      refine ⟨events, cs, r, List.prefix_rfl, hroute, hquery, hsession, hbefore,
        fun since hfrom hto ↦ ?_⟩
      rw [hto.eq_of_length_le hfrom.length_le]
      exact hlogged

/-- The step lemma of the application. -/
theorem Sound.step {events : List AppEvent} (h : Sound text server events) (event : AppEvent) :
    Sound text server (events ++ [event]) := by
  have hdiscreet : (afterAppEvents text server events).server.Discreet
      (OpenedBy text server (events ++ [event])) :=
    h.proper.discreet.mono fun _ _ hopened ↦ hopened.snoc event
  cases event with
  | request cs r => exact h.request cs r
  | expire sessionId =>
      have hafter := @afterAppEvents_snoc text server events (.expire sessionId)
      have hchange := changes_expire (afterAppEvents text server events) sessionId
      refine ⟨?_, ?_, fun s u hlogged ↦ ?_⟩
      · rw [hafter]
        exact ⟨signed_expire h.proper.signed sessionId, hdiscreet⟩
      · rw [hafter]
        exact h.single.step (Accounts.ownLogout_lose _) hchange
      · refine (h.logged s u ?_).snoc hlogged
        rw [hafter] at hlogged
        exact ((hchange.1 s u).mp hlogged).2
  | message cs conn message =>
      exact h.socket rfl (GameWsHandler.onMessage_discreet text hdiscreet cs conn message)
  | close cs conn => exact h.socket rfl (GameWsHandler.onClose_discreet hdiscreet cs conn)
  | network conn connected => exact h.socket rfl (GameWsHandler.network_discreet hdiscreet _)

/-- The run lemma of the application. -/
theorem sound_run (hserver : ∀ opened, server.Discreet opened) (events : List AppEvent) :
    Sound text server events := by
  refine Runs.invariant_of_step (P := fun events _ ↦ Sound text server events) (onAppEvent text)
    (s := boot server) ?_ ?_ events
  · have hnobody : ∀ s u, ¬ (boot server).accounts.LoggedInAs s u :=
      fun s u ↦ Accounts.not_loggedInAs_of_none rfl
    refine ⟨⟨fun s session hs ↦ ?_, hserver _⟩, ⟨fun s u hs ↦ ?_, fun s s' u hs ↦ ?_⟩,
      fun s u hs ↦ ?_⟩
    · cases hs
    · exact absurd hs (hnobody s u)
    · exact absurd hs (hnobody s u)
    · exact absurd hs (hnobody s u)
  · exact fun events event h ↦ Sound.step h event

open PvpGameService in
/-- Whatever happens to an application that has been started on a store: who is logged in is
online and has one session, which a login of the run has got that has found this user, so
that he has been logged in since; and a request leaves it alone that the others are logged
in. -/
theorem users_have_one_session (text : JsonText) (earlier : List (Call × Faults)) :
    ∃ values, PvpGameService.run .empty earlier = some values ∧ ∀ recovery events,
      let e := afterAppEvents text (.create values recovery) events
      (∀ s u, e.accounts.LoggedInAs s u →
        e.accounts.Online u ∧ LoggedInBy text (.create values recovery) events s u) ∧
      (∀ s s' u, e.accounts.LoggedInAs s u → e.accounts.LoggedInAs s' u → s = s') ∧
      ∀ cs r s u, s ≠ e.accounts.sessionId cs r →
        ((onRequest cs r e).accounts.LoggedInAs s u ↔ e.accounts.LoggedInAs s u) := by
  obtain ⟨values, lobby, hrun, hlobby, -⟩ := run_holds Values.holds_empty earlier
  refine ⟨values, hrun, fun recovery events ↦ ?_⟩
  have h : Sound text (.create values recovery) events :=
    sound_run (GameWsHandler.discreet_create hlobby recovery) events
  refine ⟨fun s u hlogged ↦ ⟨h.single.online s u hlogged, h.logged s u hlogged⟩, h.single.one,
    fun cs r s u hs ↦ ?_⟩
  exact Accounts.asked_change.others (changes_onRequest cs r _) hs u

open PvpGameService in
/-- Whatever happens to an application that has been started on a store: every message that
names a room or shows its state goes to a web socket that has been opened with a session in
which one of its players was logged in or, if the user `0` plays there, to one that was not
registered. -/
theorem room_messages_reach_logged_in_players (text : JsonText) (earlier : List (Call × Faults)) :
    ∃ values, PvpGameService.run .empty earlier = some values ∧ ∀ recovery events,
      ∀ m ∈ (afterAppEvents text (.create values recovery) events).server.sent,
        Concerns (OpenedBy text (.create values recovery) events) m := by
  obtain ⟨values, lobby, hrun, hlobby, -⟩ := run_holds Values.holds_empty earlier
  refine ⟨values, hrun, fun recovery events ↦ ?_⟩
  exact (sound_run (GameWsHandler.discreet_create hlobby recovery) events).proper.discreet.sent

end Exchange

end HttpRaftKv.Gomoku
