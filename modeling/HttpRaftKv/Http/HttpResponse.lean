import HttpRaftKv.Http.Parsing
import HttpRaftKv.Lib.OrderedMap

/-!
# Responses

A response is filled by separate calls, and `appendToBuffer` writes what has been
filled and adds nothing of its own except the `Connection` header.  A client reads
the bytes line by line up to the empty line; what is behind it is the body.
-/

namespace HttpRaftKv.Http

inductive HttpStatusCode
  | kUnknown
  | k101SwitchingProtocols
  | k200Ok
  | k204NoContent
  | k301MovedPermanently
  | k308PermanentRedirect
  | k400BadRequest
  | k401Unauthorized
  | k403Forbidden
  | k404NotFound
  | k409Conflict
  | k429TooManyRequests
  | k408RequestTimeout
  | k500InternalServerError
deriving DecidableEq, Repr

def HttpStatusCode.value : HttpStatusCode → ℕ
  | .kUnknown => 0
  | .k101SwitchingProtocols => 101
  | .k200Ok => 200
  | .k204NoContent => 204
  | .k301MovedPermanently => 301
  | .k308PermanentRedirect => 308
  | .k400BadRequest => 400
  | .k401Unauthorized => 401
  | .k403Forbidden => 403
  | .k404NotFound => 404
  | .k409Conflict => 409
  | .k429TooManyRequests => 429
  | .k408RequestTimeout => 408
  | .k500InternalServerError => 500

/-- `std::to_string`, and `%d` of `snprintf`. -/
def decimal (n : ℕ) : Bytes :=
  (Nat.toDigits 10 n).map fun c ↦ UInt8.ofNat c.toNat

structure HttpResponse where
  httpVersion : Bytes
  statusCode : HttpStatusCode
  statusMessage : Bytes
  closeConnection : Bool
  /-- Ordered by the names, as a `std::map` is. -/
  headers : List (Bytes × Bytes)
  body : Bytes
deriving DecidableEq, Repr

namespace HttpResponse

/-- The constructor. -/
def create (close : Bool) : HttpResponse where
  httpVersion := []
  statusCode := .kUnknown
  statusMessage := []
  closeConnection := close
  headers := []
  body := []

def setVersion (resp : HttpResponse) (version : Bytes) : HttpResponse :=
  { resp with httpVersion := version }

def setStatusCode (resp : HttpResponse) (code : HttpStatusCode) : HttpResponse :=
  { resp with statusCode := code }

def setStatusMessage (resp : HttpResponse) (message : Bytes) : HttpResponse :=
  { resp with statusMessage := message }

def setCloseConnection (resp : HttpResponse) (on : Bool) : HttpResponse :=
  { resp with closeConnection := on }

def addHeader (resp : HttpResponse) (key value : Bytes) : HttpResponse :=
  { resp with headers := OrderedMap.assign key value resp.headers }

def setContentType (resp : HttpResponse) (contentType : Bytes) : HttpResponse :=
  resp.addHeader (ascii "Content-Type") contentType

def setContentLength (resp : HttpResponse) (length : ℕ) : HttpResponse :=
  resp.addHeader (ascii "Content-Length") (decimal length)

def setBody (resp : HttpResponse) (body : Bytes) : HttpResponse :=
  { resp with body := body }

def setStatusLine (resp : HttpResponse) (version : Bytes) (statusCode : HttpStatusCode)
    (statusMessage : Bytes) : HttpResponse :=
  { resp with
    httpVersion := version
    statusCode := statusCode
    statusMessage := statusMessage }

/-- The buffer of `snprintf` has room for 31 characters. -/
def statusLine (resp : HttpResponse) : Bytes :=
  (resp.httpVersion ++ [32] ++ decimal resp.statusCode.value ++ [32]).take 31 ++
    resp.statusMessage

def crlf : Bytes := [13, 10]

def headerLine (header : Bytes × Bytes) : Bytes :=
  header.1 ++ [58, 32] ++ header.2

/-- The header that `appendToBuffer` writes on its own. -/
def connectionHeader (resp : HttpResponse) : Bytes :=
  if resp.closeConnection then ascii "Connection: close" else ascii "Connection: Keep-Alive"

def appendToBuffer (resp : HttpResponse) : Bytes :=
  resp.statusLine ++ crlf ++ resp.connectionHeader ++ crlf ++
    resp.headers.flatMap (fun header ↦ headerLine header ++ crlf) ++ crlf ++ resp.body

end HttpResponse

/-! ## The client -/

/-- The name of a header is in front of the colon, its value is behind the colon
and a blank. -/
def readHeader (line : Bytes) : Bytes × Bytes :=
  (line.takeWhile (· ≠ 58), (line.dropWhile (· ≠ 58)).drop 2)

/-- The headers up to the empty line, and what is behind it. -/
def readHeaders : ℕ → Bytes → Option (List (Bytes × Bytes) × Bytes)
  | 0, _ => none
  | lines + 1, bytes =>
      match splitCRLF bytes with
      | none => none
      | some (line, rest) =>
          if line = [] then some ([], rest)
          else (readHeaders lines rest).map fun read ↦ (readHeader line :: read.1, read.2)

/-- The first line, the headers and the body. -/
def readResponse (bytes : Bytes) : Option (Bytes × List (Bytes × Bytes) × Bytes) :=
  match splitCRLF bytes with
  | none => none
  | some (line, rest) => (readHeaders rest.length rest).map fun read ↦ (line, read.1, read.2)

/-- The line starts with `HTTP/1.x`, a blank, the code of three digits and a blank. -/
def IsStatusLine (line : Bytes) (code : ℕ) : Prop :=
  ∃ x message, isdigit x = true ∧ 100 ≤ code ∧ code < 1000 ∧
    line = ascii "HTTP/1." ++ [x, 32] ++ decimal code ++ [32] ++ message

/-- A response with this code has no body. -/
def HasNoBody (code : ℕ) : Prop :=
  (100 ≤ code ∧ code < 200) ∨ code = 204

instance (code : ℕ) : Decidable (HasNoBody code) :=
  inferInstanceAs (Decidable (_ ∨ _))

/-- A client finds the status in the first line, and it finds the end of the body
unless the connection is closed behind it. -/
def Framed (closes : Bool) (bytes : Bytes) : Prop :=
  ∃ line headers body code, readResponse bytes = some (line, headers, body) ∧
    IsStatusLine line code ∧
    (closes = false → ¬ HasNoBody code →
      headers.lookup (ascii "Content-Length") = some (decimal body.length))

end HttpRaftKv.Http
