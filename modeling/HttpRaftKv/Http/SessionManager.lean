import HttpRaftKv.Http.HttpResponse

/-!
# Sessions

A session is named by an identifier that the client keeps in a cookie.  A request
that does not name a stored session gets a new one.  Time is not modelled: a session
that has not been used for too long is marked as expired.
-/

namespace HttpRaftKv.Http

/-- The text in front of the first occurrence of a pattern, and the text from there
on. -/
def findText (pattern : Bytes) : Bytes → Option (Bytes × Bytes)
  | [] => if pattern = [] then some ([], []) else none
  | b :: text =>
      if pattern.isPrefixOf (b :: text) then some ([], b :: text)
      else (findText pattern text).map fun found ↦ (b :: found.1, found.2)

structure Session where
  data : List (Bytes × Bytes)
  isExpired : Bool
deriving DecidableEq, Repr

abbrev SessionStorage := List (Bytes × Session)

namespace Session

/-- The constructor. -/
def create : Session where
  data := []
  isExpired := false

def refresh (session : Session) : Session :=
  { session with isExpired := false }

/-- A value that is missing is empty. -/
def getValue (session : Session) (key : Bytes) : Bytes :=
  (session.data.lookup key).getD []

def setValue (session : Session) (key value : Bytes) : Session :=
  { session with data := assignField session.data key value }.refresh

def clear (session : Session) : Session :=
  { session with data := [] }

end Session

namespace SessionStorage

def remove (sessions : SessionStorage) (sessionId : Bytes) : SessionStorage :=
  sessions.filter fun entry ↦ entry.1 ≠ sessionId

def save (sessions : SessionStorage) (sessionId : Bytes) (session : Session) : SessionStorage :=
  (sessionId, session) :: remove sessions sessionId

/-- A session that has expired is not loaded but removed. -/
def load (sessions : SessionStorage) (sessionId : Bytes) : Option Session × SessionStorage :=
  match sessions.lookup sessionId with
  | none => (none, sessions)
  | some session =>
      if session.isExpired then (none, remove sessions sessionId) else (some session, sessions)

end SessionStorage

namespace SessionManager

def getSessionIdFromCookie (r : HttpRequest) : Bytes :=
  match findText (ascii "sessionId=") (r.getHeader (ascii "Cookie")) with
  | none => []
  | some (_, found) => (found.drop 10).takeWhile (· ≠ 59)

/-- The digits that are drawn, in hexadecimal. -/
def generateSessionId (draws : Fin 32 → Fin 16) : Bytes :=
  (List.ofFn draws).map fun draw ↦ UInt8.ofNat (Nat.digitChar draw.val).toNat

def setSessionCookie (secureCookies : Bool) (sessionId : Bytes) (resp : HttpResponse) :
    HttpResponse :=
  resp.addHeader (ascii "Set-Cookie")
    (ascii "sessionId=" ++ sessionId ++ ascii "; Path=/; HttpOnly; SameSite=Lax" ++
      if secureCookies then ascii "; Secure" else [])

/-- The identifier of the session of the request, which is stored now, and the
response, which may have got a cookie. -/
def getSession (secureCookies : Bool) (draws : Fin 32 → Fin 16) (r : HttpRequest)
    (sessions : SessionStorage) (resp : HttpResponse) : Bytes × SessionStorage × HttpResponse :=
  let sessionId := getSessionIdFromCookie r
  let (session, sessions) :=
    if sessionId ≠ [] then SessionStorage.load sessions sessionId else (none, sessions)
  match session with
  | some session => (sessionId, SessionStorage.save sessions sessionId session.refresh, resp)
  | none =>
      let sessionId := generateSessionId draws
      (sessionId, SessionStorage.save sessions sessionId Session.create.refresh,
        setSessionCookie secureCookies sessionId resp)

end SessionManager

end HttpRaftKv.Http
