import HttpRaftKv.Gomoku.HttpHandlers
import HttpRaftKv.Http.Responses
import HttpRaftKv.Http.Versions

/-!
# Which responses are framed

A response gets its version only from the handler that fills it.  Where a handler
throws, where there is no route, in the answer to a preflight request and on the way to
a web socket nothing sets it.  The other responses have a version and a length, and
the length is right unless `packageResp` has to put it into an `int` that is too small.
-/

namespace HttpRaftKv.Gomoku

open Http Throwing

/-! ## Texts and sizes -/

/-- The text can be put into a value of JSON. -/
def IsUTF8 (text : Bytes) : Prop :=
  (fromUTF8? text).isSome = true

theorem fromUTF8?_utf8 (text : String) : fromUTF8? (utf8 text) = some text := by
  unfold fromUTF8? utf8 String.fromUTF8?
  rw [Array.toArray_toList, dif_pos (show ByteArray.IsValidUTF8 ⟨text.toUTF8.data⟩ from text.isValidUTF8)]
  rfl

/-- The size survives the conversion to an `int`.  The sizes of the second kind are
greater than that of any text. -/
def FitsInt (size : ℕ) : Prop :=
  size < 2 ^ 31 ∨ 2 ^ 64 - 2 ^ 31 ≤ size ∧ size < 2 ^ 64

theorem toUInt64_toInt (size : ℕ) : toUInt64 (toInt size) = size ↔ FitsInt size := by
  unfold toUInt64 toInt FitsInt
  rw [Int.bmod_def]
  split_ifs <;> omega

/-! ## What is left of a response -/

/-- Either the version has not been set, and `p` fails, or the response is complete up
to its length, and the length is right exactly if `p` holds. -/
def Answered (p : Prop) (resp : HttpResponse) : Prop :=
  (resp.httpVersion = [] ∧ ¬ p) ∨ (resp.Versioned ∧ resp.Clean ∧ (resp.Measured ↔ p))

theorem Answered.framed_iff {p : Prop} {resp : HttpResponse} (h : Answered p resp) :
    Framed resp.closeConnection resp.appendToBuffer ↔ p := by
  rcases h with ⟨hversion, hp⟩ | ⟨hversion, hclean, hp⟩
  · exact iff_of_false (HttpResponse.not_framed_of_version hversion _) hp
  · exact (hclean.framed_iff hversion).trans hp

theorem Answered.congr {p q : Prop} {resp : HttpResponse} (h : Answered p resp) (hpq : p ↔ q) :
    Answered q resp :=
  propext hpq ▸ h

/-- A header that does not touch the length does not matter. -/
theorem Answered.addHeader {p : Prop} {resp : HttpResponse} (h : Answered p resp)
    (key : Bytes) {value : Bytes} (hheader : CleanHeader (key, value))
    (hkey : ascii "Content-Length" ≠ key) : Answered p (resp.addHeader key value) := by
  rcases h with h | ⟨hversion, hclean, hp⟩
  · exact .inl h
  · have hlookup : (resp.addHeader key value).headers.lookup (ascii "Content-Length") =
        resp.headers.lookup (ascii "Content-Length") :=
      (OrderedMap.lookup_assign key _ value resp.headers).trans (if_neg hkey)
    refine .inr ⟨hversion, ⟨hclean.message, forall_cleanHeader_assign hheader hclean.headers⟩, ?_⟩
    rw [← hp, HttpResponse.Measured, HttpResponse.Measured, hlookup]
    rfl

theorem Answered.processAfter {p : Prop} {resp : HttpResponse} (h : Answered p resp) :
    Answered p (MiddlewareChain.processAfter resp) :=
  (((h.addHeader (ascii "Access-Control-Allow-Origin") (by decide) (by decide)).addHeader
    (ascii "Access-Control-Allow-Methods") (by decide) (by decide)).addHeader
    (ascii "Access-Control-Allow-Headers") (by decide) (by decide)).addHeader
    (ascii "Access-Control-Max-Age") (by decide) (by decide)

/-! ## Filling -/

/-- Nothing but clean headers has been set. -/
structure Fresh (e : Exchange) : Prop where
  version : e.resp.httpVersion = []
  headers : ∀ header ∈ e.resp.headers, CleanHeader header

/-- The handler answers, or it throws before it has set the version and `p` fails. -/
def Answers (p : Prop) (x : Handling Unit) (e : Exchange) : Prop :=
  Ends x e (fun _ e ↦ Answered p e.resp) (fun _ e ↦ e.resp.httpVersion = [] ∧ ¬ p)

variable {cs : Surroundings} {r : HttpRequest} {e : Exchange} {p : Prop}
  {thrown : Bytes → Exchange → Prop}

/-- The common part of `reply` and `packageResp`: everything is set, and the length is
`length`. -/
theorem answered_fill {resp : HttpResponse} (hr : r.HasVersion)
    (hheaders : ∀ header ∈ resp.headers, CleanHeader header) {statusCode : HttpStatusCode}
    (hcode : statusCode ≠ .kUnknown) {statusMessage contentType : Bytes}
    (hmessage : 13 ∉ statusMessage) (htype : 13 ∉ contentType) (close : Bool) (length : ℕ)
    (body : Bytes) (hp : (close = true ∨ HasNoBody statusCode.value ∨ length = body.length) ↔ p) :
    Answered p (((((resp.setStatusLine r.version statusCode statusMessage).setCloseConnection
      close).setContentType contentType).setContentLength length).setBody body) := by
  have hctype : CleanHeader (ascii "Content-Type", contentType) :=
    ⟨show 13 ∉ ascii "Content-Type" by decide, show 58 ∉ ascii "Content-Type" by decide, htype⟩
  refine .inr ⟨⟨hr, hcode⟩, ⟨hmessage, ?_⟩, ?_⟩
  · exact forall_cleanHeader_assign (cleanHeader_contentLength length)
      (forall_cleanHeader_assign hctype hheaders)
  · rw [← hp, ← decimal_injective.eq_iff]
    unfold HttpResponse.Measured HttpResponse.setContentLength HttpResponse.addHeader
    simp [HttpResponse.setBody, HttpResponse.setContentType, HttpResponse.addHeader,
      HttpResponse.setCloseConnection, HttpResponse.setStatusLine]

theorem ends_reply (h : Fresh e) (hr : r.HasVersion) {statusCode : HttpStatusCode}
    (hcode : statusCode ≠ .kUnknown) {statusMessage contentType : String}
    (hmessage : 13 ∉ ascii statusMessage) (htype : 13 ∉ ascii contentType) (close : Bool)
    (body : Bytes) (hp : p) :
    Ends (reply r statusCode statusMessage close contentType body) e
      (fun _ e ↦ Answered p e.resp) thrown :=
  answered_fill hr h.headers hcode hmessage htype close body.length body
    (iff_of_true (.inr (.inr rfl)) hp)

theorem ends_packageResp (h : Fresh e) (hr : r.HasVersion) {statusCode : HttpStatusCode}
    (hcode : statusCode ≠ .kUnknown) (hbody : ¬ HasNoBody statusCode.value)
    {statusMsg contentType : String} (hmessage : 13 ∉ ascii statusMsg)
    (htype : 13 ∉ ascii contentType) {close : Bool} {body : Bytes}
    (hp : (close = true ∨ FitsInt body.length) ↔ p) :
    Ends (packageResp r statusCode statusMsg close contentType body) e
      (fun _ e ↦ Answered p e.resp) thrown := by
  refine answered_fill hr h.headers hcode hmessage htype close _ body ?_
  rw [toUInt64_toInt, ← hp]
  exact or_congr_right (or_iff_right hbody)

theorem ends_unauthorized (h : Fresh e) (hr : r.HasVersion) (hp : p) :
    Ends (unauthorized cs r) e (fun _ e ↦ Answered p e.resp) thrown :=
  ends_packageResp h hr (by decide) (by decide) (by decide) (by decide)
    (iff_of_true (.inl rfl) hp)

/-- A handler that sets no version. -/
theorem answers_of_version {x : Handling Unit} (hp : ¬ p)
    (h : Ends x e (fun _ e ↦ e.resp.httpVersion = []) (fun _ e ↦ e.resp.httpVersion = [])) :
    Answers p x e :=
  h.mono (fun _ _ hversion ↦ .inl ⟨hversion, hp⟩) (fun _ _ hversion ↦ ⟨hversion, hp⟩)

@[simp] theorem ends_what {text : Bytes} {ok : Json → Exchange → Prop} :
    Ends (what cs text) e ok thrown ↔
      (∀ message, fromUTF8? text = some message → ok (.string message) e) ∧
        (fromUTF8? text = none → thrown (cs.dumpError text) e) := by
  simp [what]

theorem answers_badRequest (h : Fresh e) (hr : r.HasVersion) {text : Bytes}
    (hp : p ↔ IsUTF8 text) : Answers p (badRequest cs r text) e := by
  apply (ends_bind _ _).mpr
  apply ends_what.mpr
  refine ⟨fun message hmessage ↦ ?_, fun hnone ↦ ?_⟩
  · exact ends_reply h hr (by decide) (by decide) (by decide) _ _
      (hp.mpr (by rw [IsUTF8, hmessage]; rfl))
  · exact ⟨h.version, fun hholds ↦ by simpa [IsUTF8, hnone] using hp.mp hholds⟩

/-! ## Sessions -/

/-- The session that the request names, or a new one. -/
def Exchange.current (e : Exchange) (r : HttpRequest) : Session :=
  let sessionId := SessionManager.getSessionIdFromCookie r
  (if sessionId ≠ [] then SessionStorage.load e.sessions sessionId
    else (none, e.sessions)).1.getD .create

def Exchange.LoggedIn (e : Exchange) (r : HttpRequest) : Prop :=
  (e.current r).getValue (ascii "isLoggedIn") = ascii "true"

def Exchange.userId? (e : Exchange) (r : HttpRequest) : Option ℤ :=
  stoi ((e.current r).getValue (ascii "userId"))

theorem cleanHeader_cookie (secureCookies : Bool) (draws : Fin 32 → Fin 16) :
    CleanHeader (ascii "Set-Cookie", ascii "sessionId=" ++
      SessionManager.generateSessionId draws ++ ascii "; Path=/; HttpOnly; SameSite=Lax" ++
      if secureCookies then ascii "; Secure" else []) := by
  refine ⟨show 13 ∉ ascii "Set-Cookie" by decide, show 58 ∉ ascii "Set-Cookie" by decide, ?_⟩
  have hdigit : ∀ draw : Fin 16, UInt8.ofNat (Nat.digitChar draw.val).toNat ≠ 13 := by decide
  have hid : 13 ∉ SessionManager.generateSessionId draws := by
    intro hmem
    obtain ⟨draw, -, heq⟩ := List.mem_map.mp hmem
    exact hdigit draw heq
  have hsecure : 13 ∉ (if secureCookies then ascii "; Secure" else []) := by
    cases secureCookies <;> decide
  simp only [List.mem_append, not_or]
  exact ⟨⟨⟨by decide, hid⟩, by decide⟩, hsecure⟩

theorem lookup_save (sessions : SessionStorage) (sessionId : Bytes) (session : Session) :
    (SessionStorage.save sessions sessionId session).lookup sessionId = some session := by
  simp [SessionStorage.save]

/-- A session is named, and its values are those of the session of the request. -/
structure Opened (e : Exchange) (r : HttpRequest) (sessionId : Bytes) (e' : Exchange) : Prop where
  fresh : Fresh e'
  values : ∀ key, (e'.session sessionId).getValue key = (e.current r).getValue key

theorem ends_getSession (h : Fresh e) {ok : Bytes → Exchange → Prop}
    (hok : ∀ sessionId e', Opened e r sessionId e' → ok sessionId e') :
    Ends (getSession cs r) e ok thrown := by
  have hsaved : ∀ {session : Session} {sessions : SessionStorage} {sessionId : Bytes},
      e.current r = session → ∀ {resp : HttpResponse}, resp.httpVersion = [] →
      (∀ header ∈ resp.headers, CleanHeader header) →
      Opened e r sessionId { e with
        sessions := SessionStorage.save sessions sessionId session.refresh, resp := resp } := by
    rintro session sessions sessionId rfl resp hversion hheaders
    refine ⟨⟨hversion, hheaders⟩, fun key ↦ ?_⟩
    rw [Exchange.session, lookup_save]
    rfl
  apply (ends_bind _ _).mpr
  apply ends_get.mpr
  unfold SessionManager.getSession
  simp only
  split
  next session hload =>
    exact hok _ _ (hsaved (congrArg (Option.getD · Session.create) hload) h.version h.headers)
  next hload =>
    exact hok _ _ (hsaved (congrArg (Option.getD · Session.create) hload) h.version
      (forall_cleanHeader_assign (cleanHeader_cookie cs.useSSL cs.draws) h.headers))

@[simp] theorem ends_getValue {sessionId : Bytes} {key : String} {ok : Bytes → Exchange → Prop} :
    Ends (getValue sessionId key) e ok thrown ↔
      ok ((e.session sessionId).getValue (ascii key)) e := Iff.rfl

theorem Opened.ends_stoiUserId {sessionId : Bytes} {e' : Exchange} (h : Opened e r sessionId e')
    {ok : ℤ → Exchange → Prop} :
    Ends (stoiUserId sessionId) e' ok thrown ↔
      (∀ userId, e.userId? r = some userId → ok userId e') ∧
        (e.userId? r = none → thrown (ascii "stoi") e') := by
  rw [stoiUserId, ends_bind, ends_getValue, ends_orThrow, h.values]
  rfl

/-- The start of the handlers for users who are logged in. -/
theorem ends_session (h : Fresh e) {rest : Bytes → Handling Unit} {ok : Unit → Exchange → Prop}
    (hout : ¬ e.LoggedIn r → ∀ e', Fresh e' → Ends (unauthorized cs r) e' ok thrown)
    (hin : e.LoggedIn r → ∀ sessionId e', Opened e r sessionId e' →
      Ends (rest sessionId) e' ok thrown) :
    Ends (do
      let session ← getSession cs r
      if (← getValue session "isLoggedIn") ≠ ascii "true" then unauthorized cs r
      else rest session) e ok thrown := by
  apply (ends_bind _ _).mpr
  refine ends_getSession h fun sessionId e' hopened ↦ ?_
  rw [ends_bind, ends_getValue, ends_ite, hopened.values]
  exact ⟨fun hnot ↦ hout hnot e' hopened.fresh,
    fun hlogged ↦ hin (not_not.mp hlogged) sessionId e' hopened⟩

/-! ## The conditions -/

/-- What `LoginHandler::handle` asks the data base, or the exception that it catches. -/
def LoginHandler.query (cs : Surroundings) (body : Bytes) : Except Bytes ℤ := do
  let (username, password) ← cs.credentials body
  queryUserId cs username password

/-- What `AiGameMoveHandler::handle` reads of the request, or the exception that it
catches. -/
def AiGameMoveHandler.request (cs : Surroundings) (r : HttpRequest) (e : Exchange) :
    Except Bytes (ℤ × ℤ) :=
  match e.userId? r with
  | none => .error (ascii "stoi")
  | some _ => coordinates cs r.content

namespace Route

/-- The condition for a route to set the version and the right length. -/
def Frames (cs : Surroundings) (r : HttpRequest) (e : Exchange) : Route → Prop
  | entry => True
  | login => isJson r = true →
      ∀ text, LoginHandler.query cs r.content = .error text → IsUTF8 text
  | register => ∃ username password userId, cs.credentials r.content = .ok (username, password) ∧
      RegisterHandler.insertUser cs username password = .ok userId
  | logout => isJson r = true → (e.userId? r).isSome = true →
      ∀ text, cs.parse r.content = .error text → IsUTF8 text
  | menu => e.LoggedIn r → ∀ userId page, e.userId? r = some userId →
      cs.openFile "menu.html" = some page →
      FitsInt (MenuHandler.content page userId
        ((e.current r).getValue (ascii "username"))).length
  | aiBotStart => e.LoggedIn r →
      (e.userId? r).isSome = true ∧ (cs.openFile "ChessGameVsAi.html").isSome = true
  | aiBotMove => e.LoggedIn r → ∀ text, AiGameMoveHandler.request cs r e = .error text →
      ∃ message, fromUTF8? text = some message ∧
        FitsInt (AiGameMoveHandler.failureBody cs (.string message)).length
  | aiBotRestart => e.LoggedIn r →
      ∃ userId, e.userId? r = some userId ∧ FitsInt (GomokuServer.restartBody cs userId).length
  | backend => (cs.openFile "Backend.html").isSome = true
  | backendData => ∃ count, GomokuServer.getUserCount cs = .ok count
  | apiTest => False
  | ws => False
  | pvp => e.LoggedIn r → (cs.files (resource "ChessGameVsPlayer.html")).isSome = true

end Route

/-- The condition for the response to a request to be framed. -/
def Frames (cs : Surroundings) (r : HttpRequest) (e : Exchange) : Prop :=
  cs.allowed = true → r.method ≠ .options ∧
    ∃ route, Route.route r = some route ∧ route.Frames cs r e

/-! ## The handlers -/

theorem EntryHandler.answers_handle (h : Fresh e) (hr : r.HasVersion) :
    Answers (Route.entry.Frames cs r e) (handle cs r) e := by
  unfold handle
  split
  · exact ends_reply h hr (by decide) (by decide) (by decide) _ _ trivial
  · exact ends_reply h hr (by decide) (by decide) (by decide) _ _ trivial

theorem isUTF8_utf8 (text : String) : IsUTF8 (utf8 text) := by
  rw [IsUTF8, fromUTF8?_utf8]
  rfl

theorem isUTF8_stoi : IsUTF8 (ascii "stoi") := by
  rw [show ascii "stoi" = utf8 "stoi" by decide +kernel]
  exact isUTF8_utf8 _

theorem Surroundings.field_error {α : Type} {get? : Json → Option α} {value : Json} {key : String}
    {text : Bytes} (h : cs.field get? value key = .error text) : text = utf8 cs.accessError := by
  unfold field at h
  split at h
  · cases h
  · cases h
    rfl

theorem LoginHandler.ends_login (h : Fresh e) (hr : r.HasVersion) (hp : p) (userId : ℤ)
    (username : String) :
    Ends (login cs r userId username) e (fun _ e ↦ Answered p e.resp) thrown := by
  apply (ends_bind _ _).mpr
  apply ends_get.mpr
  apply (ends_ite _ _ _).mpr
  refine ⟨fun _ ↦ ?_, fun _ ↦ ?_⟩
  · apply (ends_bind _ _).mpr
    refine ends_getSession h fun sessionId e' hopened ↦ ?_
    simp only [setValue, ends_bind, ends_modify]
    refine ends_reply ?_ hr (by decide) (by decide) (by decide) _ _ hp
    exact ⟨hopened.fresh.version, hopened.fresh.headers⟩
  · exact ends_reply h hr (by decide) (by decide) (by decide) _ _ hp

theorem LoginHandler.answers_handle (h : Fresh e) (hr : r.HasVersion) :
    Answers (Route.login.Frames cs r e) (handle cs r) e := by
  apply (ends_ite _ _ _).mpr
  refine ⟨fun hnot ↦ ?_, fun hjson ↦ ?_⟩
  · exact ends_reply h hr (by decide) (by decide) (by decide) _ _
      fun hjson ↦ by simp [hjson] at hnot
  · have hjson' : isJson r = true := by simpa using hjson
    have hcaught : ∀ text, query cs r.content = .error text →
        Answers (Route.login.Frames cs r e) (badRequest cs r text) e := by
      intro text hquery
      refine answers_badRequest h hr ⟨fun hall ↦ hall hjson' text hquery, fun hutf8 _ text' h' ↦ ?_⟩
      rw [hquery] at h'
      cases h'
      exact hutf8
    apply (ends_tryCatch _ _).mpr
    apply (ends_bind _ _).mpr
    apply (ends_ofExcept _).mpr
    refine ⟨?_, ?_⟩
    · rintro ⟨username, password⟩ hcredentials
      have hquery : query cs r.content = queryUserId cs username password := by
        rw [query, hcredentials]
        rfl
      apply (ends_bind _ _).mpr
      apply (ends_ofExcept _).mpr
      refine ⟨fun userId huserId ↦ ?_, ?_⟩
      · have hp : Route.login.Frames cs r e := by
          intro _ text htext
          rw [hquery, huserId] at htext
          cases htext
        apply (ends_ite _ _ _).mpr
        refine ⟨fun _ ↦ ends_login h hr hp userId username, fun _ ↦ ?_⟩
        exact ends_reply h hr (by decide) (by decide) (by decide) _ _ hp
      · exact fun text htext ↦ hcaught text (hquery.trans htext)
    · intro text htext
      refine hcaught text ?_
      rw [query, htext]
      rfl

theorem RegisterHandler.answers_handle (h : Fresh e) (hr : r.HasVersion) :
    Answers (Route.register.Frames cs r e) (handle cs r) e := by
  apply (ends_bind _ _).mpr
  apply (ends_ofExcept _).mpr
  refine ⟨?_, fun text htext ↦ ⟨h.version, ?_⟩⟩
  · rintro ⟨username, password⟩ hcredentials
    apply (ends_bind _ _).mpr
    apply (ends_ofExcept _).mpr
    refine ⟨fun userId huserId ↦ ?_, fun text htext ↦ ⟨h.version, ?_⟩⟩
    · have hp : Route.register.Frames cs r e := ⟨username, password, userId, hcredentials, huserId⟩
      apply (ends_ite _ _ _).mpr
      refine ⟨fun _ ↦ ?_, fun _ ↦ (ends_ite _ _ _).mpr ⟨fun _ ↦ ?_, fun _ ↦ ?_⟩⟩
      · exact ends_reply h hr (by decide) (by decide) (by decide) _ _ hp
      · exact ends_reply h hr (by decide) (by decide) (by decide) _ _ hp
      · exact ends_reply h hr (by decide) (by decide) (by decide) _ _ hp
    · rintro ⟨username', password', userId, hcredentials', huserId⟩
      rw [hcredentials] at hcredentials'
      cases hcredentials'
      rw [htext] at huserId
      cases huserId
  · rintro ⟨username, password, userId, hcredentials, -⟩
    rw [htext] at hcredentials
    cases hcredentials

theorem LogoutHandler.ends_release (h : Fresh e) {ok : Unit → Exchange → Prop} (userId gameType : ℤ)
    (hok : ∀ e', Fresh e' → ok () e') (hthrown : ∀ e', Fresh e' → thrown (utf8 cs.accessError) e') :
    Ends (release cs userId gameType) e ok thrown := by
  apply (ends_bind _ _).mpr
  apply (ends_modify _).mpr
  apply (ends_ite _ _ _).mpr
  refine ⟨fun _ ↦ ?_, fun _ ↦ ?_⟩
  · exact hok _ ⟨h.version, h.headers⟩
  · apply (ends_ite _ _ _).mpr
    refine ⟨fun _ ↦ ?_, fun _ ↦ hok _ ⟨h.version, h.headers⟩⟩
    apply (ends_bind _ _).mpr
    apply ends_get.mpr
    apply (ends_bind _ _).mpr
    apply (ends_set _).mpr
    apply (ends_bind _ _).mpr
    apply (ends_orThrow _ _).mpr
    refine ⟨fun _ _ ↦ ?_, fun _ ↦ ?_⟩
    · exact hok _ ⟨h.version, h.headers⟩
    · exact hthrown _ ⟨h.version, h.headers⟩

theorem LogoutHandler.answers_handle (h : Fresh e) (hr : r.HasVersion) :
    Answers (Route.logout.Frames cs r e) (handle cs r) e := by
  apply (ends_ite _ _ _).mpr
  refine ⟨fun hnot ↦ ?_, fun hjson ↦ ?_⟩
  · exact ends_reply h hr (by decide) (by decide) (by decide) _ _
      fun hjson ↦ by simp [hjson] at hnot
  · have hjson' : isJson r = true := by simpa using hjson
    apply (ends_tryCatch _ _).mpr
    apply (ends_bind _ _).mpr
    refine ends_getSession h ?_
    intro sessionId e' hopened
    have hcaught : Route.logout.Frames cs r e → ∀ {text}, IsUTF8 text → ∀ e', Fresh e' →
        Answers (Route.logout.Frames cs r e) (badRequest cs r text) e' :=
      fun hp text htext e' he' ↦ answers_badRequest he' hr (iff_of_true hp htext)
    apply (ends_bind _ _).mpr
    refine hopened.ends_stoiUserId.mpr ⟨fun userId huserId ↦ ?_, fun hnone ↦ ?_⟩
    · have hsome : (e.userId? r).isSome = true := by rw [huserId]; rfl
      have hfresh : Fresh { e' with sessions := SessionStorage.remove e'.sessions sessionId } :=
        ⟨hopened.fresh.version, hopened.fresh.headers⟩
      apply (ends_bind _ _).mpr
      apply (ends_modify _).mpr
      apply (ends_bind _ _).mpr
      apply (ends_ofExcept _).mpr
      refine ⟨fun parsed hparsed ↦ ?_, fun text htext ↦ ?_⟩
      · have hp : Route.logout.Frames cs r e := by
          intro _ _ text htext
          rw [hparsed] at htext
          cases htext
        apply (ends_bind _ _).mpr
        apply (ends_ofExcept _).mpr
        refine ⟨fun gameType hgameType ↦ ?_, fun text htext ↦ ?_⟩
        · apply (ends_bind _ _).mpr
          refine ends_release hfresh userId gameType (fun e'' he'' ↦ ?_)
            (hcaught hp (isUTF8_utf8 _))
          exact ends_reply he'' hr (by decide) (by decide) (by decide) _ _ hp
        · rw [Surroundings.field_error htext]
          exact hcaught hp (isUTF8_utf8 _) _ hfresh
      · have hp : Route.logout.Frames cs r e ↔ IsUTF8 text := by
          refine ⟨fun hall ↦ hall hjson' hsome text htext, fun hutf8 _ _ text' htext' ↦ ?_⟩
          rw [htext] at htext'
          cases htext'
          exact hutf8
        exact answers_badRequest hfresh hr hp
    · refine hcaught (fun _ hsome ↦ ?_) isUTF8_stoi e' hopened.fresh
      rw [hnone] at hsome
      cases hsome

@[simp] theorem ends_readFile {name : String} {ok : Bytes → Exchange → Prop} :
    Ends (readFile cs name) e ok thrown ↔
      (∀ page, cs.openFile name = some page → ok page e) ∧ (cs.openFile name = none →
        thrown (ascii "cannot create std::vector larger than max_size()") e) :=
  ends_orThrow _ _

theorem isUTF8_maxSize : IsUTF8 (ascii "cannot create std::vector larger than max_size()") := by
  rw [show ascii "cannot create std::vector larger than max_size()" =
    utf8 "cannot create std::vector larger than max_size()" by decide +kernel]
  exact isUTF8_utf8 _

theorem MenuHandler.answers_handle (h : Fresh e) (hr : r.HasVersion) :
    Answers (Route.menu.Frames cs r e) (handle cs r) e := by
  have hcaught : Route.menu.Frames cs r e → ∀ {text}, IsUTF8 text → ∀ e', Fresh e' →
      Answers (Route.menu.Frames cs r e) (badRequest cs r text) e' :=
    fun hp text htext e' he' ↦ answers_badRequest he' hr (iff_of_true hp htext)
  apply (ends_tryCatch _ _).mpr
  refine ends_session h ?_ ?_
  · intro hnot e' he'
    exact ends_unauthorized he' hr fun hlogged ↦ absurd hlogged hnot
  · intro hlogged sessionId e' hopened
    apply (ends_bind _ _).mpr
    refine hopened.ends_stoiUserId.mpr ⟨fun userId huserId ↦ ?_, fun hnone ↦ ?_⟩
    · apply (ends_bind _ _).mpr
      apply ends_getValue.mpr
      apply (ends_bind _ _).mpr
      apply ends_readFile.mpr
      refine ⟨fun page hpage ↦ ?_, fun hnone ↦ ?_⟩
      · refine ends_packageResp hopened.fresh hr (by decide) (by decide) (by decide) (by decide) ?_
        rw [hopened.values]
        constructor
        · intro hfits _ userId' page' huserId' hpage'
          rw [huserId] at huserId'
          rw [hpage] at hpage'
          cases huserId'
          cases hpage'
          exact hfits.resolve_left (by simp)
        · exact fun hall ↦ .inr (hall hlogged userId page huserId hpage)
      · refine hcaught (fun _ _ page _ hpage ↦ ?_) isUTF8_maxSize e' hopened.fresh
        rw [hnone] at hpage
        cases hpage
    · refine hcaught (fun _ userId _ huserId ↦ ?_) isUTF8_stoi e' hopened.fresh
      rw [hnone] at huserId
      cases huserId

theorem AiGameStartHandler.answers_handle (h : Fresh e) (hr : r.HasVersion) :
    Answers (Route.aiBotStart.Frames cs r e) (handle cs r) e := by
  refine ends_session h ?_ ?_
  · intro hnot e' he'
    exact ends_unauthorized he' hr fun hlogged ↦ absurd hlogged hnot
  · intro hlogged sessionId e' hopened
    apply (ends_bind _ _).mpr
    refine hopened.ends_stoiUserId.mpr
      ⟨fun userId huserId ↦ ?_, fun hnone ↦ ⟨hopened.fresh.version, fun hall ↦ ?_⟩⟩
    · have hfresh : Fresh { e' with
          aiGames := assign e'.aiGames userId (AiGame.create userId) } :=
        ⟨hopened.fresh.version, hopened.fresh.headers⟩
      apply (ends_bind _ _).mpr
      apply (ends_modify _).mpr
      apply (ends_bind _ _).mpr
      apply ends_readFile.mpr
      refine ⟨fun page hpage ↦ ?_, fun hnone ↦ ⟨hopened.fresh.version, fun hall ↦ ?_⟩⟩
      · exact ends_reply hfresh hr (by decide) (by decide) (by decide) _ _
          fun _ ↦ ⟨by rw [huserId]; rfl, by rw [hpage]; rfl⟩
      · have hsome := (hall hlogged).2
        rw [hnone] at hsome
        cases hsome
    · have hsome := (hall hlogged).1
      rw [hnone] at hsome
      cases hsome

theorem AiGameMoveHandler.ends_finish (h : Fresh e) (hr : r.HasVersion) (hp : p) (userId : ℤ)
    (game : AiGame) (winner : String) (move : List (String × Json)) :
    Ends (finish cs r userId game winner move) e (fun _ e ↦ Answered p e.resp) thrown :=
  (ends_bind _ _).mpr ((ends_reply h hr (by decide) (by decide) (by decide) _ _ hp).mono
    (fun _ _ hanswered ↦ hanswered) (fun _ _ hthrown ↦ hthrown))

theorem AiGameMoveHandler.ends_answer (h : Fresh e) (hr : r.HasVersion) (hp : p) (userId : ℤ)
    (game : AiGame) :
    Ends (answer cs r userId game) e (fun _ e ↦ Answered p e.resp) thrown := by
  apply (ends_ite _ _ _).mpr
  refine ⟨fun _ ↦ ends_finish h hr hp _ _ _ _, fun _ ↦ ?_⟩
  apply (ends_ite _ _ _).mpr
  refine ⟨fun _ ↦ ends_finish h hr hp _ _ _ _, fun _ ↦ ?_⟩
  have hmoved : Fresh { e with aiGames := assign e.aiGames userId (game.aiMove cs.rand) } :=
    ⟨h.version, h.headers⟩
  apply (ends_bind _ _).mpr
  apply (ends_modify _).mpr
  apply (ends_ite _ _ _).mpr
  refine ⟨fun _ ↦ ends_finish hmoved hr hp _ _ _ _, fun _ ↦ ?_⟩
  apply (ends_ite _ _ _).mpr
  refine ⟨fun _ ↦ ends_finish hmoved hr hp _ _ _ _, fun _ ↦ ?_⟩
  exact ends_reply hmoved hr (by decide) (by decide) (by decide) _ _ hp

theorem AiGameMoveHandler.ends_move (h : Fresh e) (hr : r.HasVersion) (hp : p) (userId x y : ℤ) :
    Ends (move cs r userId x y) e (fun _ e ↦ Answered p e.resp) thrown := by
  have hgame : ∀ game, Fresh { e with aiGames := assign e.aiGames userId game } :=
    fun _ ↦ ⟨h.version, h.headers⟩
  apply (ends_bind _ _).mpr
  apply ends_get.mpr
  apply (ends_bind _ _).mpr
  apply (ends_set _).mpr
  apply (ends_ite _ _ _).mpr
  refine ⟨fun _ ↦ ?_, fun _ ↦ ?_⟩
  · exact ends_reply (hgame _) hr (by decide) (by decide) (by decide) _ _ hp
  · exact ends_answer (hgame _) hr hp userId _

theorem AiGameMoveHandler.answers_handle (h : Fresh e) (hr : r.HasVersion) :
    Answers (Route.aiBotMove.Frames cs r e) (handle cs r) e := by
  apply (ends_tryCatch _ _).mpr
  refine ends_session h ?_ ?_
  · intro hnot e' he'
    exact ends_unauthorized he' hr fun hlogged ↦ absurd hlogged hnot
  · intro hlogged sessionId e' hopened
    have hcaught : ∀ text, request cs r e = .error text →
        Answers (Route.aiBotMove.Frames cs r e) (do
          let message ← what cs text
          packageResp r .k500InternalServerError "Internal Server Error" false
            "application/json" (failureBody cs message)) e' := by
      intro text htext
      apply (ends_bind _ _).mpr
      apply ends_what.mpr
      refine ⟨fun message hmessage ↦ ?_, fun hnone ↦ ⟨hopened.fresh.version, fun hall ↦ ?_⟩⟩
      · refine ends_packageResp hopened.fresh hr (by decide) (by decide) (by decide) (by decide) ?_
        constructor
        · intro hfits _ text' htext'
          rw [htext] at htext'
          cases htext'
          exact ⟨message, hmessage, hfits.resolve_left (by simp)⟩
        · intro hall
          obtain ⟨message', hmessage', hfits⟩ := hall hlogged text htext
          rw [hmessage] at hmessage'
          cases hmessage'
          exact .inr hfits
      · obtain ⟨message, hmessage, -⟩ := hall hlogged text htext
        rw [hnone] at hmessage
        cases hmessage
    apply (ends_bind _ _).mpr
    refine hopened.ends_stoiUserId.mpr
      ⟨fun userId huserId ↦ ?_, fun hnone ↦ hcaught _ (by rw [request, hnone])⟩
    have hrequest : request cs r e = coordinates cs r.content := by rw [request, huserId]
    apply (ends_bind _ _).mpr
    apply (ends_ofExcept _).mpr
    refine ⟨?_, fun text htext ↦ hcaught text (hrequest.trans htext)⟩
    rintro ⟨x, y⟩ hcoordinates
    refine ends_move hopened.fresh hr ?_ userId x y
    intro _ text htext
    rw [hrequest, hcoordinates] at htext
    cases htext

theorem GomokuServer.answers_restartChessGameVsAi (h : Fresh e) (hr : r.HasVersion) :
    Answers (Route.aiBotRestart.Frames cs r e) (restartChessGameVsAi cs r) e := by
  refine ends_session h ?_ ?_
  · intro hnot e' he'
    exact ends_unauthorized he' hr fun hlogged ↦ absurd hlogged hnot
  · intro hlogged sessionId e' hopened
    apply (ends_bind _ _).mpr
    refine hopened.ends_stoiUserId.mpr
      ⟨fun userId huserId ↦ ?_, fun hnone ↦ ⟨hopened.fresh.version, fun hall ↦ ?_⟩⟩
    · have hfresh : Fresh { e' with
          aiGames := assign e'.aiGames userId (AiGame.create userId) } :=
        ⟨hopened.fresh.version, hopened.fresh.headers⟩
      apply (ends_bind _ _).mpr
      apply (ends_modify _).mpr
      refine ends_packageResp hfresh hr (by decide) (by decide) (by decide) (by decide) ?_
      constructor
      · exact fun hfits _ ↦ ⟨userId, huserId, hfits.resolve_left (by simp)⟩
      · intro hall
        obtain ⟨userId', huserId', hfits⟩ := hall hlogged
        rw [huserId] at huserId'
        cases huserId'
        exact .inr hfits
    · obtain ⟨userId, huserId, -⟩ := hall hlogged
      rw [hnone] at huserId
      cases huserId

theorem GameBackendHandler.answers_handle (h : Fresh e) (hr : r.HasVersion) :
    Answers (Route.backend.Frames cs r e) (handle cs r) e := by
  apply (ends_bind _ _).mpr
  apply ends_readFile.mpr
  refine ⟨fun page hpage ↦ ?_, fun hnone ↦ ⟨h.version, fun hsome ↦ ?_⟩⟩
  · exact ends_reply h hr (by decide) (by decide) (by decide) _ _
      (show (cs.openFile "Backend.html").isSome = true by rw [hpage]; rfl)
  · rw [Route.Frames, hnone] at hsome
    cases hsome

theorem GomokuServer.answers_getBackendData (h : Fresh e) (hr : r.HasVersion) :
    Answers (Route.backendData.Frames cs r e) (getBackendData cs r) e := by
  apply (ends_tryCatch _ _).mpr
  apply (ends_bind _ _).mpr
  apply ends_get.mpr
  apply (ends_bind _ _).mpr
  apply (ends_ofExcept _).mpr
  refine ⟨fun count hcount ↦ ?_, fun text htext ↦ ?_⟩
  · exact ends_reply h hr (by decide) (by decide) (by decide) _ _ ⟨count, hcount⟩
  · have hp : ¬ Route.backendData.Frames cs r e := by
      rintro ⟨count, hcount⟩
      rw [htext] at hcount
      cases hcount
    refine answers_of_version hp ((ends_bind _ _).mpr (ends_what.mpr ⟨fun message _ ↦ ?_, fun _ ↦ ?_⟩))
    · exact h.version
    · exact h.version

theorem GomokuServer.answers_test (h : Fresh e) : Answers False test e :=
  .inl ⟨h.version, id⟩

theorem GomokuServer.answers_pvp (h : Fresh e) (hr : r.HasVersion) :
    Answers (Route.pvp.Frames cs r e) (pvp cs r) e := by
  refine ends_session h ?_ ?_
  · intro hnot e' he'
    exact ends_unauthorized he' hr fun hlogged ↦ absurd hlogged hnot
  · intro hlogged sessionId e' hopened
    apply (ends_bind _ _).mpr
    apply ends_getValue.mpr
    apply (ends_bind _ _).mpr
    apply ends_getValue.mpr
    cases hpage : cs.files (resource "ChessGameVsPlayer.html") with
    | none =>
        refine .inl ⟨hopened.fresh.version, fun hall ↦ ?_⟩
        have hsome := hall hlogged
        rw [hpage] at hsome
        cases hsome
    | some page =>
        exact ends_reply hopened.fresh hr (by decide) (by decide) (by decide) _ _
          fun _ ↦ by rw [hpage]; rfl

theorem answers_upgrade (h : Fresh e) : Answers False (GameWsHandler.upgrade cs r) e := by
  refine answers_of_version id ((ends_bind _ _).mpr (ends_getSession h fun sessionId e' hopened ↦ ?_))
  apply (ends_bind _ _).mpr
  apply ends_getValue.mpr
  apply (ends_ite _ _ _).mpr
  refine ⟨fun _ ↦ ?_, fun _ ↦ ?_⟩
  · exact hopened.fresh.version
  · apply (ends_bind _ _).mpr
    refine hopened.ends_stoiUserId.mpr
      ⟨fun userId _ ↦ ?_, fun _ ↦ hopened.fresh.version⟩
    have hversion : (GameWsHandler.handleUpgrade cs r e'.resp).httpVersion = [] := by
      unfold GameWsHandler.handleUpgrade
      split_ifs
      · exact hopened.fresh.version
      · exact hopened.fresh.version
    apply (ends_bind _ _).mpr
    apply (ends_modify _).mpr
    apply (ends_ite _ _ _).mpr
    refine ⟨fun _ ↦ ?_, fun _ ↦ ?_⟩
    · exact hversion
    · exact hversion

/-! ## The whole way of a request -/

theorem Route.answers_handle (h : Fresh e) (hr : r.HasVersion) (route : Route) :
    Answers (route.Frames cs r e) (route.handle cs r) e := by
  cases route with
  | entry => exact EntryHandler.answers_handle h hr
  | login => exact LoginHandler.answers_handle h hr
  | register => exact RegisterHandler.answers_handle h hr
  | logout => exact LogoutHandler.answers_handle h hr
  | menu => exact MenuHandler.answers_handle h hr
  | aiBotStart => exact AiGameStartHandler.answers_handle h hr
  | aiBotMove => exact AiGameMoveHandler.answers_handle h hr
  | aiBotRestart => exact GomokuServer.answers_restartChessGameVsAi h hr
  | backend => exact GameBackendHandler.answers_handle h hr
  | backendData => exact GomokuServer.answers_getBackendData h hr
  | apiTest => exact GomokuServer.answers_test h
  | ws => exact answers_upgrade h
  | pvp => exact GomokuServer.answers_pvp h hr

theorem answers_routed (h : Fresh e) (hr : r.HasVersion) :
    Answers (∃ route, Route.route r = some route ∧ route.Frames cs r e) (routed cs r) e := by
  unfold routed
  split
  next route hroute =>
    have hiff : (∃ route', some route = some route' ∧ route'.Frames cs r e) ↔
        route.Frames cs r e := by simp
    rw [hroute, hiff]
    exact route.answers_handle h hr
  next hroute =>
    refine .inl ⟨h.version, ?_⟩
    rintro ⟨route, hsome, -⟩
    rw [hroute] at hsome
    cases hsome

/-- The response that the rate limiter throws is closed behind its body. -/
theorem answered_limited (hr : r.HasVersion) {res : HttpResponse}
    (h : RateLimiterMiddleware.before false r = some res) : Answered True res := by
  cases h
  refine .inr ⟨⟨hr, ?_⟩, ⟨?_, ?_⟩, iff_of_true (.inl rfl) trivial⟩
  · exact HttpStatusCode.noConfusion
  · show 13 ∉ ascii "Too Many Requests"
    decide
  · exact forall_cleanHeader_assign (by decide)
      (forall_cleanHeader_assign (by decide) fun _ hmem ↦ absurd hmem List.not_mem_nil)

/-- The response to a preflight request has no version. -/
theorem version_preflight {res : HttpResponse}
    (h : CorsMiddleware.before .defaultConfig r = some res) : res.httpVersion = [] := by
  unfold CorsMiddleware.before at h
  split_ifs at h
  cases h
  rfl

theorem answered_handleRequest (h : Fresh e) (hr : r.HasVersion) :
    Answered (Frames cs r e) (handleRequest cs r e).resp := by
  unfold handleRequest MiddlewareChain.processBefore
  cases hallowed : cs.allowed with
  | false =>
      refine (answered_limited hr rfl).congr (iff_of_true trivial fun htrue ↦ ?_)
      rw [hallowed] at htrue
      cases htrue
  | true =>
      have hlimiter : RateLimiterMiddleware.before true r = none := rfl
      rw [hlimiter, Option.none_or]
      cases hcors : CorsMiddleware.before .defaultConfig r with
      | some res =>
          refine .inl ⟨version_preflight hcors, fun hall ↦ ?_⟩
          have hmethod := (hall hallowed).1
          simp [CorsMiddleware.before, hmethod] at hcors
      | none =>
          have hmethod : r.method ≠ .options := by
            intro hmethod
            simp [CorsMiddleware.before, hmethod] at hcors
          have hframes : (∃ route, Route.route r = some route ∧ route.Frames cs r e) ↔
              Frames cs r e :=
            ⟨fun hroute _ ↦ ⟨hmethod, hroute⟩, fun hall ↦ (hall hallowed).2⟩
          have hanswers : Answers (Frames cs r e) (routed cs r) e := by
            rw [← hframes]
            exact answers_routed h hr
          unfold Answers Ends at hanswers
          cases hrouted : routed cs r e with
          | ok _ e' =>
              rw [hrouted] at hanswers
              exact hanswers.processAfter
          | error text e' =>
              rw [hrouted] at hanswers
              exact .inl hanswers

/-- For every request that the callback gets, in every state of the server and under
all circumstances: the response is framed exactly under the condition. -/
theorem response_framed_iff (cs : Surroundings) (e : Exchange) {chunks : List (Bytes × Bool)}
    {r : HttpRequest} (hr : .request r ∈ (Runs.run HttpServer.deliver .create chunks).trace) :
    Framed (onRequest cs r e).resp.closeConnection (onRequest cs r e).resp.appendToBuffer ↔
      Frames cs r e := by
  have hfresh : Fresh { e with resp := .create (checkClose r) } :=
    ⟨rfl, fun _ hmem ↦ absurd hmem List.not_mem_nil⟩
  exact (answered_handleRequest hfresh (HttpServer.hasVersion_of_request hr)).framed_iff

/-- All is well, and the only file is the page at the entry. -/
def quiet : Surroundings where
  text := JsonText.compact
  dumpIndented := JsonText.compact.dump
  parseError := fun _ ↦ ascii "[json.exception.parse_error.101]"
  accessError := "[json.exception.type_error.302]"
  dumpError := fun _ ↦ ascii "[json.exception.type_error.316]"
  allowed := true
  useSSL := false
  draws := fun _ ↦ ⟨7, by decide⟩
  files := fun name ↦ if name = resource "entry.html" then some (ascii "<html></html>") else none
  executeQuery := fun _ _ _ ↦ .ok none
  executeUpdate := fun _ _ ↦ .ok ()
  computeAcceptKey := fun _ ↦ []
  rand := 0
  conn := "client"
  game := ⟨0, .none, .none, 0⟩

/-- A server that has just been started. -/
def idle : Exchange where
  resp := .create true
  sessions := []
  onlineUsers := []
  maxOnline := 0
  aiGames := []
  server := .create .empty .none

def entryRequest : Bytes × Bool :=
  (ascii "GET / HTTP/1.1\r\n\r\n", false)

theorem entry_framed :
    Framed (onRequest quiet (parsed entryRequest.1) idle).resp.closeConnection
      (onRequest quiet (parsed entryRequest.1) idle).resp.appendToBuffer :=
  (response_framed_iff quiet idle
    (show _ ∈ (Runs.run HttpServer.deliver .create [entryRequest]).trace by decide +kernel)).mpr
    fun _ ↦ ⟨by decide +kernel, .entry, by decide +kernel, trivial⟩

def testRequest : Bytes × Bool :=
  (ascii "GET /api/test HTTP/1.1\r\n\r\n", false)

/-- The bytes start with the blank in front of the code, and a client that keeps the
connection cannot tell where the body ends. -/
theorem test_not_framed :
    .request (parsed testRequest.1) ∈
        (Runs.run HttpServer.deliver .create [testRequest]).trace ∧
      ¬ Framed (onRequest quiet (parsed testRequest.1) idle).resp.closeConnection
        (onRequest quiet (parsed testRequest.1) idle).resp.appendToBuffer := by
  refine ⟨by decide +kernel, HttpResponse.not_framed_of_version ?_ _⟩
  decide +kernel

end HttpRaftKv.Gomoku
