import HttpRaftKv.Gomoku.Accounts
import HttpRaftKv.Gomoku.Framing

/-!
# Users who are locked out

What a request does to the accounts is decided by the request and the accounts before
it.  A user is locked out if his session expires, if another user logs in with it, if a
new session takes its identifier, or if he logs out with a body that cannot be read:
the session is destroyed before the body is parsed, and the user is taken from the
table of the users who are online only behind it.
-/

namespace HttpRaftKv.Gomoku

open Http Throwing

/-! ## What a request does -/

/-- What `LogoutHandler::handle` reads of the body. -/
def LogoutHandler.gameType (cs : Surroundings) (body : Bytes) : Except Bytes ℤ := do
  let parsed ← cs.parse body
  cs.field GameWsHandler.clientInt? parsed "gameType"

namespace Accounts

/-- The session that the request names. -/
def loaded (a : Accounts) (r : HttpRequest) : Option Session :=
  let sessionId := SessionManager.getSessionIdFromCookie r
  if sessionId ≠ [] then (SessionStorage.load a.sessions sessionId).1 else none

/-- The identifier of the session that the request gets. -/
def sessionId (a : Accounts) (cs : Surroundings) (r : HttpRequest) : Bytes :=
  if (a.loaded r).isSome then SessionManager.getSessionIdFromCookie r
  else SessionManager.generateSessionId cs.draws

/-- A new session takes the place of one with the same identifier. -/
def opening (a : Accounts) (cs : Surroundings) (r : HttpRequest) : Change :=
  if (a.loaded r).isSome then .keep else .lose (SessionManager.generateSessionId cs.draws)

def loggingIn (a : Accounts) (cs : Surroundings) (r : HttpRequest) : Change :=
  if isJson r then
    match LoginHandler.query cs r.content with
    | .error _ => .keep
    | .ok userId =>
        if userId ≠ -1 ∧ ¬ a.Online userId then .login (a.sessionId cs r) userId else .keep
  else .keep

def loggingOut (a : Accounts) (cs : Surroundings) (r : HttpRequest) : Change :=
  if isJson r then
    match a.loaded r with
    | none => a.opening cs r
    | some session =>
        match stoi (session.getValue (ascii "userId")), LogoutHandler.gameType cs r.content with
        | none, _ => .keep
        | some _, .error _ => .lose (a.sessionId cs r)
        | some userId, .ok _ => .logout (a.sessionId cs r) userId
  else .keep

def routing (a : Accounts) (cs : Surroundings) (r : HttpRequest) : Route → Change
  | .login => a.loggingIn cs r
  | .logout => a.loggingOut cs r
  | .menu | .aiBotStart | .aiBotMove | .aiBotRestart | .ws | .pvp => a.opening cs r
  | .entry | .register | .backend | .backendData | .apiTest => .keep

def change (a : Accounts) (cs : Surroundings) (r : HttpRequest) : Change :=
  match MiddlewareChain.processBefore cs.allowed r, Route.route r with
  | none, some route => a.routing cs r route
  | _, _ => .keep

/-! ## The session of a request -/

variable {a a' : Accounts} {cs : Surroundings} {r : HttpRequest}

/-- The accounts when the request has got its session. -/
structure Opened (cs : Surroundings) (r : HttpRequest) (a a' : Accounts) : Prop where
  session : a'.sessions.lookup (a.sessionId cs r) = some ((a.loaded r).getD .create).refresh
  others : ∀ s, s ≠ a.sessionId cs r → ∀ u, a'.LoggedInAs s u ↔ a.LoggedInAs s u
  online : a'.onlineUsers = a.onlineUsers

theorem sessionId_of_some {session : Session} (h : a.loaded r = some session) :
    a.sessionId cs r = SessionManager.getSessionIdFromCookie r := by
  rw [sessionId, h]
  rfl

theorem sessionId_of_none (h : a.loaded r = none) :
    a.sessionId cs r = SessionManager.generateSessionId cs.draws := by
  rw [sessionId, h]
  rfl

theorem opening_of_some {session : Session} (h : a.loaded r = some session) :
    a.opening cs r = .keep := by
  rw [opening, h]
  rfl

theorem opening_of_none (h : a.loaded r = none) : a.opening cs r = .lose (a.sessionId cs r) := by
  rw [opening, sessionId_of_none h, h]
  rfl

theorem loaded_eq_some {session : Session} (h : a.loaded r = some session) :
    a.sessions.lookup (SessionManager.getSessionIdFromCookie r) = some session ∧
      session.isExpired = false := by
  rw [loaded] at h
  split_ifs at h
  rw [SessionStorage.load] at h
  split at h
  · cases h
  · rename_i stored hstored
    split_ifs at h with hexpired
    cases h
    exact ⟨hstored, Bool.eq_false_of_not_eq_true hexpired⟩

theorem refresh_eq_self {session : Session} (h : session.isExpired = false) :
    session.refresh = session := by
  rw [Session.refresh, ← h]

/-- A session that is loaded away had expired. -/
theorem loggedInAs_load (a : Accounts) (named s : Bytes) (u : ℤ) :
    Accounts.LoggedInAs ⟨(SessionStorage.load a.sessions named).2, a.onlineUsers⟩ s u ↔
      a.LoggedInAs s u := by
  rw [SessionStorage.load]
  split
  · rfl
  · rename_i session hsession
    split_ifs with hexpired
    · by_cases hs : s = named
      · subst hs
        refine iff_of_false (not_loggedInAs_of_none ?_) ?_
        · exact (OrderedMap.lookup_filter_ne _ _ _).trans (if_pos rfl)
        · rintro ⟨stored, hstored, hlive, -⟩
          rw [hsession] at hstored
          cases hstored
          rw [hexpired] at hlive
          cases hlive
      · exact loggedInAs_congr ((OrderedMap.lookup_filter_ne _ _ _).trans (if_neg hs))
    · rfl

/-- Looking for the session of a request takes away at most one that had expired. -/
theorem exists_loaded (a : Accounts) (r : HttpRequest) :
    ∃ sessions, (if SessionManager.getSessionIdFromCookie r ≠ [] then
        SessionStorage.load a.sessions (SessionManager.getSessionIdFromCookie r)
      else (none, a.sessions)) = (a.loaded r, sessions) ∧
      ∀ s u, Accounts.LoggedInAs ⟨sessions, a.onlineUsers⟩ s u ↔ a.LoggedInAs s u := by
  rw [loaded]
  split_ifs
  · exact ⟨_, rfl, loggedInAs_load a _⟩
  · exact ⟨_, rfl, fun _ _ ↦ Iff.rfl⟩

theorem opened_getSession (a : Accounts) (secureCookies : Bool) (cs : Surroundings)
    (r : HttpRequest) (resp : HttpResponse) :
    (SessionManager.getSession secureCookies cs.draws r a.sessions resp).1 = a.sessionId cs r ∧
      Opened cs r a ⟨(SessionManager.getSession secureCookies cs.draws r a.sessions resp).2.1,
        a.onlineUsers⟩ := by
  obtain ⟨sessions, hnamed, hkept⟩ := a.exists_loaded r
  rw [SessionManager.getSession]
  dsimp only
  rw [hnamed]
  -- what is stored under another identifier is as it was
  have hothers : ∀ {sessionId : Bytes} {session : Session}, ∀ s, s ≠ sessionId → ∀ u,
      Accounts.LoggedInAs ⟨SessionStorage.save sessions sessionId session, a.onlineUsers⟩ s u ↔
        a.LoggedInAs s u := by
    intro sessionId session s hs u
    rw [← hkept]
    exact loggedInAs_congr (lookup_save_of_ne _ _ hs)
  cases hloaded : a.loaded r with
  | some session =>
      have hid : a.sessionId cs r = _ := sessionId_of_some hloaded
      refine ⟨hid.symm, ?_, hid ▸ hothers, rfl⟩
      rw [hid, hloaded]
      exact lookup_save _ _ _
  | none =>
      have hid : a.sessionId cs r = _ := sessionId_of_none hloaded
      refine ⟨hid.symm, ?_, hid ▸ hothers, rfl⟩
      rw [hid, hloaded]
      exact lookup_save _ _ _

theorem ends_getSession {e : Exchange} {ok : Bytes → Exchange → Prop}
    {thrown : Bytes → Exchange → Prop}
    (hok : ∀ e', Opened cs r e.accounts e'.accounts → ok (e.accounts.sessionId cs r) e') :
    Ends (getSession cs r) e ok thrown := by
  obtain ⟨hid, hopened⟩ := opened_getSession e.accounts cs.useSSL cs r e.resp
  apply (ends_bind _ _).mpr
  apply ends_get.mpr
  apply (ends_bind _ _).mpr
  apply (ends_set _).mpr
  apply (ends_pure _).mpr
  change ok (SessionManager.getSession cs.useSSL cs.draws r e.accounts.sessions e.resp).1 _
  rw [hid]
  exact hok _ hopened

theorem getValue_create (key : Bytes) : Session.create.refresh.getValue key = [] :=
  rfl

theorem Opened.online_iff (h : Opened cs r a a') (u : ℤ) : a'.Online u ↔ a.Online u := by
  rw [Online, Online, h.online]

/-- A request that gets a session keeps the accounts, or loses the one with the new
identifier. -/
theorem Opened.changes (h : Opened cs r a a') : a.Changes a' (a.opening cs r) := by
  cases hloaded : a.loaded r with
  | some session =>
      rw [opening_of_some hloaded]
      refine ⟨fun s u ↦ ?_, h.online_iff⟩
      by_cases hs : s = a.sessionId cs r
      · obtain ⟨hlookup, hlive⟩ := loaded_eq_some hloaded
        apply loggedInAs_congr
        rw [hs, h.session, hloaded, Option.getD_some, refresh_eq_self hlive,
          sessionId_of_some hloaded, hlookup]
      · exact h.others s hs u
  | none =>
      rw [opening_of_none hloaded]
      refine ⟨fun s u ↦ loggedInAs_iff_ne (fun s hs ↦ h.others s hs u) ?_ s,
        h.online_iff⟩
      rintro ⟨session, hsession, -, hlogged, -⟩
      rw [h.session, hloaded, Option.getD_none, Option.some.injEq] at hsession
      rw [← hsession, getValue_create] at hlogged
      revert hlogged
      decide

/-! ## Logging in -/

theorem getValue_setValue (session : Session) (key value key' : Bytes) :
    (session.setValue key value).getValue key' =
      if key' = key then value else session.getValue key' := by
  rw [Session.getValue, Session.setValue, Session.refresh]
  dsimp only
  rw [lookup_assignField]
  split_ifs
  · rfl
  · rfl

theorem lookup_assign_online (entries : List (ℤ × Bool)) (userId u : ℤ) :
    (assign entries userId true).lookup u = some true ↔
      u = userId ∨ entries.lookup u = some true := by
  rw [assign, List.lookup_cons]
  by_cases h : u = userId
  · rw [h, beq_self_eq_true]
    exact iff_of_true rfl (.inl rfl)
  · rw [beq_eq_false_iff_ne.mpr h, or_iff_right h]
    dsimp only
    rw [OrderedMap.lookup_filter_ne, if_neg h]

/-- Only the values of the session have been written. -/
structure Wrote (a : Accounts) (sessionId : Bytes) (session : Session) (a' : Accounts) :
    Prop where
  session : a'.sessions.lookup sessionId = some session
  others : ∀ s, s ≠ sessionId → a'.sessions.lookup s = a.sessions.lookup s
  online : a'.onlineUsers = a.onlineUsers

theorem ends_setValue {e : Exchange} {ok : Unit → Exchange → Prop}
    {thrown : Bytes → Exchange → Prop} {sessionId : Bytes} {session : Session} {key : String}
    {value : Bytes} (h : Wrote a sessionId session e.accounts)
    (hok : ∀ e', Wrote a sessionId (session.setValue (ascii key) value) e'.accounts →
      ok () e') : Ends (setValue sessionId key value) e ok thrown := by
  have hsession : e.session sessionId = session := by
    have hlookup : e.sessions.lookup sessionId = some session := h.session
    rw [Exchange.session, hlookup]
    rfl
  apply (ends_modify _).mpr
  apply hok
  refine ⟨?_, fun s hs ↦ ?_, h.online⟩
  · rw [hsession]
    exact lookup_save _ _ _
  · exact (lookup_save_of_ne _ _ hs).trans (h.others s hs)

/-- The user who has logged in has the session, and the others have kept theirs. -/
theorem Wrote.changes {session : Session} {userId : ℤ} {a'' : Accounts}
    (hopened : Opened cs r a a') (hwrote : Wrote a' (a.sessionId cs r) session a'')
    (hlive : session.isExpired = false)
    (hlogged : session.getValue (ascii "isLoggedIn") = ascii "true")
    (huser : session.getValue (ascii "userId") = utf8 (toString userId))
    (hoffline : ¬ a.Online userId) :
    a.Changes ⟨a''.sessions, assign a''.onlineUsers userId true⟩
      (.login (a.sessionId cs r) userId) := by
  refine ⟨fun s u ↦ ?_, fun u ↦ ?_, hoffline⟩
  · by_cases hs : s = a.sessionId cs r
    · refine Iff.trans ?_ (or_iff_left fun hne ↦ hne.1 hs).symm
      rw [hs, and_iff_right rfl]
      constructor
      · rintro ⟨stored, hstored, -, -, huserId⟩
        rw [hwrote.session, Option.some.injEq] at hstored
        rw [← hstored, huser] at huserId
        exact (utf8_toString_injective huserId).symm
      · rintro rfl
        exact ⟨session, hwrote.session, hlive, hlogged, huser⟩
    · refine Iff.trans ?_ (or_iff_right fun heq ↦ hs heq.1).symm
      rw [and_iff_right hs, ← hopened.others s hs u]
      exact loggedInAs_congr (hwrote.others s hs)
  · rw [Online, Online, lookup_assign_online, hwrote.online, hopened.online]

end Accounts

/-! ## What the handlers keep -/

section handlers

variable {cs : Surroundings} {r : HttpRequest} {e : Exchange}

theorem keeps_fill (f : HttpResponse → HttpResponse) : Keeps Exchange.accounts (fill f) :=
  keeps_modify fun _ ↦ rfl

theorem keeps_reply (statusCode : HttpStatusCode) (statusMessage : String) (close : Bool)
    (contentType : String) (body : Bytes) :
    Keeps Exchange.accounts (reply r statusCode statusMessage close contentType body) :=
  keeps_fill _

theorem keeps_packageResp (statusCode : HttpStatusCode) (statusMsg : String) (close : Bool)
    (contentType : String) (body : Bytes) :
    Keeps Exchange.accounts (packageResp r statusCode statusMsg close contentType body) :=
  keeps_fill _

theorem keeps_unauthorized : Keeps Exchange.accounts (unauthorized cs r) :=
  keeps_packageResp _ _ _ _ _

theorem keeps_what (text : Bytes) : Keeps Exchange.accounts (what cs text) :=
  (keeps_orThrow _ _).bind fun _ ↦ keeps_pure _

theorem keeps_badRequest (text : Bytes) : Keeps Exchange.accounts (badRequest cs r text) :=
  (keeps_what text).bind fun _ ↦ keeps_reply _ _ _ _ _

theorem keeps_getValue (sessionId : Bytes) (key : String) :
    Keeps Exchange.accounts (getValue sessionId key) :=
  keeps_get.bind fun _ ↦ keeps_pure _

theorem keeps_stoiUserId (sessionId : Bytes) : Keeps Exchange.accounts (stoiUserId sessionId) :=
  (keeps_getValue _ _).bind fun _ ↦ keeps_orThrow _ _

theorem keeps_readFile (name : String) : Keeps Exchange.accounts (readFile cs name) :=
  keeps_orThrow _ _

/-- The part of a handler behind its session, for users who are logged in. -/
theorem keeps_guarded {sessionId : Bytes} {out rest : Handling Unit}
    (hout : Keeps Exchange.accounts out) (hrest : Keeps Exchange.accounts rest) :
    Keeps Exchange.accounts (do
      if (← getValue sessionId "isLoggedIn") ≠ ascii "true" then out else rest) :=
  (keeps_getValue _ _).bind fun _ ↦ hout.ite hrest

/-- The accounts after the request have changed so. -/
def Leaves (e : Exchange) (change : Accounts.Change) (x : Handling Unit) : Prop :=
  Ends x e (fun _ e' ↦ e.accounts.Changes e'.accounts change)
    fun _ e' ↦ e.accounts.Changes e'.accounts change

theorem changes_keep {a : Accounts} : a.Changes a .keep :=
  ⟨fun _ _ ↦ Iff.rfl, fun _ ↦ Iff.rfl⟩

/-- What comes behind the change does not change the accounts any more. -/
theorem ends_of_changes {e' : Exchange} {change : Accounts.Change} {x : Handling Unit}
    (hchanges : e.accounts.Changes e'.accounts change) (hx : Keeps Exchange.accounts x) :
    Ends x e' (fun _ e'' ↦ e.accounts.Changes e''.accounts change)
      fun _ e'' ↦ e.accounts.Changes e''.accounts change :=
  hx.ends (fun _ _ h ↦ h ▸ hchanges) fun _ _ h ↦ h ▸ hchanges

theorem leaves_of_keeps {x : Handling Unit} (hx : Keeps Exchange.accounts x) :
    Leaves e .keep x :=
  ends_of_changes changes_keep hx

/-- A handler that does nothing to the accounts but to get its session. -/
theorem leaves_opening {rest : Bytes → Handling Unit}
    (hrest : ∀ sessionId, Keeps Exchange.accounts (rest sessionId)) :
    Leaves e (e.accounts.opening cs r) (getSession cs r >>= rest) := by
  apply (ends_bind _ _).mpr
  refine Accounts.ends_getSession fun e' hopened ↦ ?_
  exact ends_of_changes hopened.changes (hrest _)

/-- An exception is caught and answered. -/
theorem Leaves.tryCatch {change : Accounts.Change} {x : Handling Unit}
    {handle : Bytes → Handling Unit} (hx : Leaves e change x)
    (hhandle : ∀ text, Keeps Exchange.accounts (handle text)) :
    Leaves e change (tryCatch x handle) := by
  apply (ends_tryCatch _ _).mpr
  refine Ends.mono hx (fun _ _ h ↦ h) fun text e' he' ↦ ?_
  exact ends_of_changes he' (hhandle text)

/-! ## The handlers that only get their session -/

theorem EntryHandler.keeps_handle : Keeps Exchange.accounts (handle cs r) := by
  rw [handle]
  split
  · exact keeps_reply _ _ _ _ _
  · exact keeps_reply _ _ _ _ _

theorem RegisterHandler.keeps_handle : Keeps Exchange.accounts (handle cs r) := by
  refine (keeps_ofExcept _).bind fun ⟨username, password⟩ ↦ ?_
  refine (keeps_ofExcept _).bind fun userId ↦ ?_
  exact (keeps_reply _ _ _ _ _).ite ((keeps_reply _ _ _ _ _).ite (keeps_reply _ _ _ _ _))

theorem GameBackendHandler.keeps_handle : Keeps Exchange.accounts (handle cs r) :=
  (keeps_readFile _).bind fun _ ↦ keeps_reply _ _ _ _ _

theorem GomokuServer.keeps_getBackendData : Keeps Exchange.accounts (getBackendData cs r) := by
  apply Keeps.tryCatch
  · refine keeps_get.bind fun _ ↦ ?_
    exact (keeps_ofExcept _).bind fun _ ↦ keeps_reply _ _ _ _ _
  · exact fun text ↦ (keeps_what text).bind fun _ ↦ keeps_fill _

theorem GomokuServer.keeps_test : Keeps Exchange.accounts test :=
  keeps_fill _

theorem MenuHandler.leaves_handle : Leaves e (e.accounts.opening cs r) (handle cs r) := by
  refine Leaves.tryCatch (leaves_opening fun sessionId ↦ ?_) keeps_badRequest
  apply keeps_guarded keeps_unauthorized
  refine (keeps_stoiUserId _).bind fun userId ↦ ?_
  refine (keeps_getValue _ _).bind fun username ↦ ?_
  exact (keeps_readFile _).bind fun page ↦ keeps_packageResp _ _ _ _ _

theorem AiGameStartHandler.leaves_handle :
    Leaves e (e.accounts.opening cs r) (handle cs r) := by
  refine leaves_opening fun sessionId ↦ ?_
  apply keeps_guarded keeps_unauthorized
  refine (keeps_stoiUserId _).bind fun userId ↦ ?_
  apply Keeps.bind
  · exact keeps_modify fun _ ↦ rfl
  · exact fun _ ↦ (keeps_readFile _).bind fun page ↦ keeps_reply _ _ _ _ _

theorem AiGameMoveHandler.keeps_finish (userId : ℤ) (game : AiGame) (winner : String)
    (move : List (String × Json)) :
    Keeps Exchange.accounts (finish cs r userId game winner move) :=
  (keeps_reply _ _ _ _ _).bind fun _ ↦ keeps_modify fun _ ↦ rfl

theorem AiGameMoveHandler.keeps_answer (userId : ℤ) (game : AiGame) :
    Keeps Exchange.accounts (answer cs r userId game) := by
  refine (keeps_finish _ _ _ _).ite ((keeps_finish _ _ _ _).ite ?_)
  apply Keeps.bind
  · exact keeps_modify fun _ ↦ rfl
  · intro _
    exact (keeps_finish _ _ _ _).ite ((keeps_finish _ _ _ _).ite (keeps_reply _ _ _ _ _))

theorem AiGameMoveHandler.keeps_move (userId x y : ℤ) :
    Keeps Exchange.accounts (move cs r userId x y) := by
  refine Keeps.get_set (fun _ ↦ rfl) fun e ↦ ?_
  exact (keeps_reply _ _ _ _ _).ite (keeps_answer _ _)

theorem AiGameMoveHandler.leaves_handle : Leaves e (e.accounts.opening cs r) (handle cs r) := by
  refine Leaves.tryCatch (leaves_opening fun sessionId ↦ ?_) fun text ↦ ?_
  · apply keeps_guarded keeps_unauthorized
    refine (keeps_stoiUserId _).bind fun userId ↦ ?_
    exact (keeps_ofExcept _).bind fun ⟨x, y⟩ ↦ keeps_move userId x y
  · exact (keeps_what text).bind fun _ ↦ keeps_packageResp _ _ _ _ _

theorem GomokuServer.leaves_restartChessGameVsAi :
    Leaves e (e.accounts.opening cs r) (restartChessGameVsAi cs r) := by
  refine leaves_opening fun sessionId ↦ ?_
  apply keeps_guarded keeps_unauthorized
  refine (keeps_stoiUserId _).bind fun userId ↦ ?_
  apply Keeps.bind
  · exact keeps_modify fun _ ↦ rfl
  · exact fun _ ↦ keeps_packageResp _ _ _ _ _

theorem GomokuServer.leaves_pvp : Leaves e (e.accounts.opening cs r) (pvp cs r) := by
  refine leaves_opening fun sessionId ↦ ?_
  apply keeps_guarded keeps_unauthorized
  refine (keeps_getValue _ _).bind fun userId ↦ ?_
  refine (keeps_getValue _ _).bind fun username ↦ ?_
  split
  · exact keeps_fill _
  · exact keeps_reply _ _ _ _ _

theorem GameWsHandler.leaves_upgrade : Leaves e (e.accounts.opening cs r) (upgrade cs r) := by
  refine leaves_opening fun sessionId ↦ ?_
  apply keeps_guarded (keeps_fill _)
  refine (keeps_stoiUserId _).bind fun userId ↦ ?_
  refine (keeps_fill _).bind fun _ ↦ ?_
  apply Keeps.ite
  · exact keeps_modify fun _ ↦ rfl
  · exact keeps_pure _

/-! ## Login and logout -/

/-- What logging in writes into the session. -/
theorem Accounts.getValue_loggedIn (session : Session) (userId username : Bytes) :
    ((((session.setValue (ascii "userId") userId).setValue (ascii "username") username).setValue
        (ascii "isLoggedIn") (ascii "true")).getValue (ascii "isLoggedIn") = ascii "true" ∧
      (((session.setValue (ascii "userId") userId).setValue (ascii "username") username).setValue
        (ascii "isLoggedIn") (ascii "true")).getValue (ascii "userId") = userId) := by
  constructor
  · rw [getValue_setValue, if_pos rfl]
  · rw [getValue_setValue, if_neg (by decide), getValue_setValue, if_neg (by decide),
      getValue_setValue, if_pos rfl]

theorem LoginHandler.leaves_login (userId : ℤ) (username : String) :
    Leaves e (if ¬ e.accounts.Online userId then
        .login (e.accounts.sessionId cs r) userId else .keep)
      (login cs r userId username) := by
  apply (ends_bind _ _).mpr
  apply ends_get.mpr
  apply (ends_ite _ _ _).mpr
  refine ⟨fun hoffline ↦ ?_, fun honline ↦ ?_⟩
  · have hoffline : ¬ e.accounts.Online userId := hoffline
    rw [if_pos hoffline]
    apply (ends_bind _ _).mpr
    refine Accounts.ends_getSession fun e₁ hopened ↦ ?_
    have hwrote : Accounts.Wrote e₁.accounts (e.accounts.sessionId cs r)
        ((e.accounts.loaded r).getD .create).refresh e₁.accounts :=
      ⟨hopened.session, fun _ _ ↦ rfl, rfl⟩
    apply (ends_bind _ _).mpr
    refine Accounts.ends_setValue hwrote fun e₂ hwrote ↦ ?_
    apply (ends_bind _ _).mpr
    refine Accounts.ends_setValue hwrote fun e₃ hwrote ↦ ?_
    apply (ends_bind _ _).mpr
    refine Accounts.ends_setValue hwrote fun e₄ hwrote ↦ ?_
    obtain ⟨hlogged, huser⟩ := Accounts.getValue_loggedIn
      ((e.accounts.loaded r).getD .create).refresh (utf8 (toString userId)) (utf8 username)
    have hchanges := hwrote.changes hopened rfl hlogged huser hoffline
    apply (ends_bind _ _).mpr
    apply (ends_modify _).mpr
    apply (ends_bind _ _).mpr
    apply (ends_modify _).mpr
    exact ends_of_changes hchanges (keeps_reply _ _ _ _ _)
  · rw [if_neg (show ¬ ¬ e.accounts.Online userId from honline)]
    exact leaves_of_keeps (keeps_reply _ _ _ _ _)

theorem LoginHandler.leaves_handle : Leaves e (e.accounts.loggingIn cs r) (handle cs r) := by
  rw [handle]
  cases hjson : isJson r with
  | false =>
      rw [Accounts.loggingIn, hjson]
      exact leaves_of_keeps (keeps_reply _ _ _ _ _)
  | true =>
      rw [if_neg (by decide)]
      -- whatever is thrown in front of the login has changed nothing
      have hkeep : ∀ text, query cs r.content = .error text → ∀ a : Accounts,
          a.Changes a (a.loggingIn cs r) := by
        intro text htext a
        rw [Accounts.loggingIn, hjson, htext]
        exact changes_keep
      apply Leaves.tryCatch _ keeps_badRequest
      apply (ends_bind _ _).mpr
      apply (ends_ofExcept _).mpr
      refine ⟨fun ⟨username, password⟩ hcredentials ↦ ?_, fun text htext ↦ ?_⟩
      · have hquery : query cs r.content = queryUserId cs username password := by
          rw [query, hcredentials]
          rfl
        apply (ends_bind _ _).mpr
        apply (ends_ofExcept _).mpr
        refine ⟨fun userId huserId ↦ ?_, fun text htext ↦ ?_⟩
        · have hlogin : e.accounts.loggingIn cs r = if userId ≠ -1 ∧ ¬ e.accounts.Online userId then
              .login (e.accounts.sessionId cs r) userId else .keep := by
            rw [Accounts.loggingIn, hjson, hquery, huserId]
            rfl
          apply (ends_ite _ _ _).mpr
          refine ⟨fun hfound ↦ ?_, fun hfound ↦ ?_⟩
          · rw [hlogin]
            simp only [hfound, ne_eq, not_false_eq_true, true_and]
            exact leaves_login userId username
          · rw [hlogin, if_neg fun h ↦ hfound h.1]
            exact leaves_of_keeps (keeps_reply _ _ _ _ _)
        · exact hkeep text (hquery.trans htext) e.accounts
      · refine hkeep text ?_ e.accounts
        rw [query, htext]
        rfl

/-- The part of `release` behind the table of the users who are online. -/
theorem LogoutHandler.ends_release_accounts {userId gameType : ℤ} {ok : Unit → Exchange → Prop}
    {thrown : Bytes → Exchange → Prop}
    (hok : ∀ e', e'.accounts = ⟨e.sessions,
      e.onlineUsers.filter fun entry ↦ entry.1 ≠ userId⟩ → ok () e')
    (hthrown : ∀ text e', e'.accounts = ⟨e.sessions,
      e.onlineUsers.filter fun entry ↦ entry.1 ≠ userId⟩ → thrown text e') :
    Ends (release cs userId gameType) e ok thrown := by
  apply (ends_bind _ _).mpr
  apply (ends_modify _).mpr
  refine Keeps.ends (f := Exchange.accounts) ?_ (fun _ e' he' ↦ hok e' he')
    fun text e' he' ↦ hthrown text e' he'
  apply Keeps.ite
  · exact keeps_modify fun _ ↦ rfl
  · apply Keeps.ite
    · refine Keeps.get_set (fun _ ↦ rfl) fun e' ↦ ?_
      apply (keeps_orThrow _ _).bind
      exact fun _ ↦ keeps_modify fun _ ↦ rfl
    · exact keeps_pure _

theorem Accounts.changes_remove {a a' : Accounts} (hopened : Accounts.Opened cs r a a') :
    ∀ s u, Accounts.LoggedInAs ⟨SessionStorage.remove a'.sessions (a.sessionId cs r),
      a'.onlineUsers⟩ s u ↔ s ≠ a.sessionId cs r ∧ a.LoggedInAs s u := by
  intro s u
  apply loggedInAs_iff_ne
  · intro s hs
    rw [← hopened.others s hs u]
    exact loggedInAs_congr ((OrderedMap.lookup_filter_ne _ _ _).trans (if_neg hs))
  · exact not_loggedInAs_of_none ((OrderedMap.lookup_filter_ne _ _ _).trans (if_pos rfl))

/-- The session of a request is that of the user whose number `std::stoi` reads. -/
theorem Accounts.eq_of_loggedInAs {a : Accounts} {session : Session} {userId : ℤ}
    (hloaded : a.loaded r = some session)
    (huserId : stoi (session.getValue (ascii "userId")) = some userId) (u : ℤ)
    (h : a.LoggedInAs (a.sessionId cs r) u) : u = userId := by
  obtain ⟨stored, hstored, -, -, huser⟩ := h
  rw [sessionId_of_some hloaded, (loaded_eq_some hloaded).1] at hstored
  cases hstored
  rw [huser] at huserId
  exact (eq_of_stoi_toString huserId).symm

/-- The session of a logout is gone, whatever the body is. -/
theorem Accounts.Opened.changes_of_error {a a' : Accounts} (hopened : Accounts.Opened cs r a a')
    (hjson : isJson r = true) {session : Session} (hloaded : a.loaded r = some session)
    {userId : ℤ} (huserId : stoi (session.getValue (ascii "userId")) = some userId)
    {text : Bytes} (htext : LogoutHandler.gameType cs r.content = .error text) :
    a.Changes ⟨SessionStorage.remove a'.sessions (a.sessionId cs r), a'.onlineUsers⟩
      (a.loggingOut cs r) := by
  rw [loggingOut, hjson, if_pos rfl, hloaded]
  dsimp only
  rw [huserId, htext]
  exact ⟨changes_remove hopened, hopened.online_iff⟩

theorem Accounts.Opened.changes_of_ok {a a' : Accounts} (hopened : Accounts.Opened cs r a a')
    (hjson : isJson r = true) {session : Session} (hloaded : a.loaded r = some session)
    {userId : ℤ} (huserId : stoi (session.getValue (ascii "userId")) = some userId)
    {game : ℤ} (hgame : LogoutHandler.gameType cs r.content = .ok game) :
    a.Changes ⟨SessionStorage.remove a'.sessions (a.sessionId cs r),
      a'.onlineUsers.filter fun entry ↦ entry.1 ≠ userId⟩ (a.loggingOut cs r) := by
  rw [loggingOut, hjson, if_pos rfl, hloaded]
  dsimp only
  rw [huserId, hgame]
  refine ⟨changes_remove hopened, fun u ↦ ?_, eq_of_loggedInAs hloaded huserId⟩
  rw [Online, OrderedMap.lookup_filter_ne, ← hopened.online_iff u, Online]
  by_cases hu : u = userId
  · rw [if_pos hu]
    exact iff_of_false (Option.some_ne_none true).symm fun h ↦ h.1 hu
  · rw [if_neg hu]
    exact (and_iff_right hu).symm

/-- A logout that reads no number of a user only gets its session. -/
theorem Accounts.loggingOut_eq_opening {a : Accounts} (hjson : isJson r = true)
    (hnone : ∀ session, a.loaded r = some session →
      stoi (session.getValue (ascii "userId")) = none) :
    a.loggingOut cs r = a.opening cs r := by
  rw [loggingOut, hjson, if_pos rfl]
  cases hloaded : a.loaded r with
  | none => rfl
  | some session =>
      rw [opening_of_some hloaded]
      dsimp only
      rw [hnone session hloaded]

/-- The steps of `LogoutHandler::handle` that read the body. -/
theorem LogoutHandler.ends_gameType_iff {body : Bytes} {rest : ℤ → Handling Unit}
    {ok : Unit → Exchange → Prop} {thrown : Bytes → Exchange → Prop} :
    Ends (do
      let parsed ← MonadExcept.ofExcept (cs.parse body)
      let gameType ← MonadExcept.ofExcept (cs.field GameWsHandler.clientInt? parsed "gameType")
      rest gameType) e ok thrown ↔
      (∀ game, gameType cs body = .ok game → Ends (rest game) e ok thrown) ∧
        (∀ text, gameType cs body = .error text → thrown text e) := by
  rw [ends_bind, ends_ofExcept]
  simp only [ends_bind, ends_ofExcept]
  cases hparse : cs.parse body with
  | error text =>
      have hgame : gameType cs body = .error text := by
        rw [gameType, hparse]
        rfl
      simp [hgame]
  | ok parsed =>
      have hgame : gameType cs body =
          cs.field GameWsHandler.clientInt? parsed "gameType" := by
        rw [gameType, hparse]
        rfl
      simp [hgame]

theorem LogoutHandler.leaves_handle : Leaves e (e.accounts.loggingOut cs r) (handle cs r) := by
  rw [handle]
  cases hjson : isJson r with
  | false =>
      rw [Accounts.loggingOut, hjson]
      exact leaves_of_keeps (keeps_reply _ _ _ _ _)
  | true =>
      rw [if_neg (by decide)]
      apply Leaves.tryCatch _ keeps_badRequest
      apply (ends_bind _ _).mpr
      refine Accounts.ends_getSession fun e₁ hopened ↦ ?_
      have hvalue : (e₁.session (e.accounts.sessionId cs r)).getValue (ascii "userId") =
          ((e.accounts.loaded r).getD .create).getValue (ascii "userId") := by
        have hlookup : e₁.sessions.lookup (e.accounts.sessionId cs r) = _ := hopened.session
        rw [Exchange.session, hlookup]
        rfl
      apply (ends_bind _ _).mpr
      apply (ends_bind _ _).mpr
      apply (ends_orThrow _ _).mpr
      rw [hvalue]
      refine ⟨fun userId huserId ↦ ?_, fun hnone ↦ ?_⟩
      · obtain ⟨session, hloaded⟩ : ∃ session, e.accounts.loaded r = some session := by
          cases hloaded : e.accounts.loaded r with
          | none =>
              rw [hloaded] at huserId
              exact absurd huserId (by simp [Session.create, Session.getValue, stoi])
          | some session => exact ⟨session, rfl⟩
        rw [hloaded, Option.getD_some] at huserId
        apply (ends_bind _ _).mpr
        apply (ends_modify _).mpr
        apply ends_gameType_iff.mpr
        refine ⟨fun game hgame ↦ ?_, fun text htext ↦ ?_⟩
        · have hdone := hopened.changes_of_ok hjson hloaded huserId hgame
          apply (ends_bind _ _).mpr
          refine ends_release_accounts (fun e₂ he₂ ↦ ?_) fun _ e₂ he₂ ↦ he₂ ▸ hdone
          exact ends_of_changes (he₂ ▸ hdone) (keeps_reply _ _ _ _ _)
        · exact hopened.changes_of_error hjson hloaded huserId htext
      · rw [Accounts.loggingOut_eq_opening hjson]
        · exact hopened.changes
        · intro session hloaded
          rw [hloaded] at hnone
          exact hnone

/-! ## The whole way of a request -/

theorem Route.leaves_handle (route : Route) :
    Leaves e (e.accounts.routing cs r route) (route.handle cs r) := by
  cases route with
  | entry => exact leaves_of_keeps EntryHandler.keeps_handle
  | login => exact LoginHandler.leaves_handle
  | register => exact leaves_of_keeps RegisterHandler.keeps_handle
  | logout => exact LogoutHandler.leaves_handle
  | menu => exact MenuHandler.leaves_handle
  | aiBotStart => exact AiGameStartHandler.leaves_handle
  | aiBotMove => exact AiGameMoveHandler.leaves_handle
  | aiBotRestart => exact GomokuServer.leaves_restartChessGameVsAi
  | backend => exact leaves_of_keeps GameBackendHandler.keeps_handle
  | backendData => exact leaves_of_keeps GomokuServer.keeps_getBackendData
  | apiTest => exact leaves_of_keeps GomokuServer.keeps_test
  | ws => exact GameWsHandler.leaves_upgrade
  | pvp => exact GomokuServer.leaves_pvp

theorem changes_handleRequest (cs : Surroundings) (r : HttpRequest) (e : Exchange) :
    e.accounts.Changes (handleRequest cs r e).accounts (e.accounts.change cs r) := by
  rw [handleRequest, Accounts.change]
  cases hbefore : MiddlewareChain.processBefore cs.allowed r with
  | some res => exact changes_keep
  | none =>
      have hleaves : Leaves e (e.accounts.change cs r) (routed cs r) := by
        rw [Accounts.change, hbefore, routed]
        cases hroute : Route.route r with
        | none => exact leaves_of_keeps (keeps_fill _)
        | some route => exact route.leaves_handle
      rw [Accounts.change, hbefore, Leaves, Ends] at hleaves
      cases hrouted : routed cs r e with
      | ok _ e' =>
          rw [hrouted] at hleaves
          exact hleaves
      | error text e' =>
          rw [hrouted] at hleaves
          exact hleaves

end handlers

/-! ## Runs -/

/-- What happens to a server: a request is answered, or a session has not been used for
too long. -/
inductive AccountEvent
  | request (cs : Surroundings) (r : HttpRequest)
  | expire (sessionId : Bytes)

namespace Exchange

def expire (e : Exchange) (sessionId : Bytes) : Exchange :=
  { e with sessions := e.sessions.map fun entry ↦
      if entry.1 = sessionId then (entry.1, { entry.2 with isExpired := true }) else entry }

def onEvent (e : Exchange) : AccountEvent → Exchange
  | .request cs r => onRequest cs r e
  | .expire sessionId => e.expire sessionId

/-- The event takes his session from no user who needs it. -/
def LocksNoneOut (e : Exchange) : AccountEvent → Prop
  | .request cs r => e.accounts.Harmless (e.accounts.change cs r)
  | .expire sessionId => e.accounts.Spares sessionId

/-- The server before its first request. -/
def boot (server : GomokuServer) : Exchange :=
  { idle with server := server }

def afterEvents (server : GomokuServer) (events : List AccountEvent) : Exchange :=
  Runs.run onEvent (boot server) events

theorem lookup_expire (e : Exchange) (sessionId s : Bytes) :
    (e.expire sessionId).sessions.lookup s =
      if s = sessionId then (e.sessions.lookup s).map fun session ↦
        { session with isExpired := true } else e.sessions.lookup s := by
  rw [expire]
  dsimp only
  induction e.sessions with
  | nil => simp
  | cons entry entries ih =>
      obtain ⟨named, session⟩ := entry
      rw [List.map_cons]
      by_cases hnamed : named = sessionId
      · rw [if_pos hnamed, List.lookup_cons, List.lookup_cons, ih]
        by_cases hs : s = named
        · rw [hs, beq_self_eq_true]
          simp only [if_pos hnamed]
          rfl
        · rw [beq_eq_false_iff_ne.mpr hs]
      · rw [if_neg hnamed, List.lookup_cons, List.lookup_cons, ih]
        by_cases hs : s = named
        · rw [hs, beq_self_eq_true]
          simp only [if_neg hnamed]
        · rw [beq_eq_false_iff_ne.mpr hs]

theorem changes_expire (e : Exchange) (sessionId : Bytes) :
    e.accounts.Changes (e.expire sessionId).accounts (.lose sessionId) := by
  refine ⟨fun s u ↦ Accounts.loggedInAs_iff_ne (fun s hs ↦ ?_) ?_ s, fun _ ↦ Iff.rfl⟩
  · apply Accounts.loggedInAs_congr
    exact (lookup_expire e sessionId s).trans (if_neg hs)
  · rintro ⟨session, hsession, hlive, -⟩
    have hexpired := (lookup_expire e sessionId sessionId).symm.trans hsession
    rw [if_pos rfl, Option.map_eq_some_iff] at hexpired
    obtain ⟨stored, -, rfl⟩ := hexpired
    cases hlive

/-- The step lemma of the server. -/
theorem noLockout_onEvent_iff {e : Exchange} (h : e.accounts.NoLockout) (event : AccountEvent) :
    (e.onEvent event).accounts.NoLockout ↔ e.LocksNoneOut event := by
  cases event with
  | request cs r =>
      -- the response of the request before is not read
      exact Accounts.noLockout_iff_harmless h
        (changes_handleRequest cs r { e with resp := .create (checkClose r) })
  | expire sessionId => exact Accounts.noLockout_iff_harmless h (changes_expire e sessionId)

/-- In every run from the start of a server, whatever is requested and under all
circumstances: nobody is locked out in any state of the run exactly if no event takes
his session from a user who needs it. -/
theorem nobody_locked_out_iff (server : GomokuServer) (events : List AccountEvent) :
    (∀ past, past <+: events → (afterEvents server past).accounts.NoLockout) ↔
      Runs.Along onEvent LocksNoneOut (boot server) events := by
  refine Runs.invariant_iff_along (P := fun _ e ↦ e.accounts.NoLockout) onEvent ?_ ?_ events
  · intro u hu
    cases hu
  · intro past event h
    exact noLockout_onEvent_iff h event

theorem not_noLockout {e : Exchange} {userId : ℤ} (honline : e.accounts.Online userId)
    (hsessions : e.sessions = []) : ¬ e.accounts.NoLockout := by
  intro h
  obtain ⟨sessionId, hsession⟩ := h userId honline
  refine Accounts.not_loggedInAs_of_none ?_ hsession
  exact congrArg (List.lookup sessionId) hsessions

/-- The data base knows one user. -/
def oneUser : Surroundings :=
  { quiet with executeQuery := fun _ _ _ ↦ .ok (some 7) }

def loginRequest : Bytes :=
  ascii "POST /login HTTP/1.1\r\nContent-Type: application/json\r\nContent-Length: 34\r\n\r\n" ++
    ascii "\x7b\"password\":\"pw\",\"username\":\"ann\"\x7d"

/-- The body is no JSON. -/
def logoutRequest : Bytes :=
  ascii "POST /user/logout HTTP/1.1\r\nContent-Type: application/json\r\nContent-Length: 3\r\n" ++
    ascii "Cookie: sessionId=" ++ SessionManager.generateSessionId oneUser.draws ++
    ascii "\r\n\r\nbye"

/-- The user is online, and there is no session any more. -/
theorem locked_out_by_logoutRequest :
    .request (parsed loginRequest) ∈
        (Runs.run HttpServer.deliver .create [(loginRequest, false)]).trace ∧
      .request (parsed logoutRequest) ∈
        (Runs.run HttpServer.deliver .create [(logoutRequest, false)]).trace ∧
      ¬ (afterEvents (.create .empty .none) [.request oneUser (parsed loginRequest),
        .request oneUser (parsed logoutRequest)]).accounts.NoLockout := by
  refine ⟨by decide +kernel, by decide +kernel, fun h ↦ ?_⟩
  have hend : (afterEvents (.create .empty .none) [.request oneUser (parsed loginRequest),
        .request oneUser (parsed logoutRequest)]).accounts.Online 7 ∧
      (afterEvents (.create .empty .none) [.request oneUser (parsed loginRequest),
        .request oneUser (parsed logoutRequest)]).sessions = [] := by
    decide +kernel
  exact not_noLockout hend.1 hend.2 h

end Exchange

end HttpRaftKv.Gomoku
