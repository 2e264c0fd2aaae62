import HttpRaftKv.Http.HttpRequest

/-!
# The parser of requests

The parser reads lines from a buffer and remembers in its state how far it has
come.  It goes on in rounds until it has a request, needs more bytes or finds an
error.  In the state behind a complete request no branch of the loop is taken,
and the loop does not end.
-/

namespace HttpRaftKv.Http

inductive HttpRequestParseState
  | expectRequestLine
  | expectHeaders
  | expectBody
  | gotAll
deriving DecidableEq, Repr

structure HttpContext where
  state : HttpRequestParseState
  request : HttpRequest
deriving DecidableEq, Repr

/-- The bytes before and behind the first CR LF, which `findCRLF` finds. -/
def splitCRLF : Bytes → Option (Bytes × Bytes)
  | [] => none
  | b :: rest =>
      if b = 13 ∧ rest.head? = some 10 then some ([], rest.tail)
      else (splitCRLF rest).map fun split ↦ (b :: split.1, split.2)

namespace HttpContext

/-- The constructor. -/
def create : HttpContext where
  state := .expectRequestLine
  request := .create

def reset (c : HttpContext) : HttpContext where
  state := .expectRequestLine
  request := c.request.swap .create

/-- The part of `processRequestLine` behind the version. -/
def processVersion (r : HttpRequest) (version : Bytes) : Bool × HttpRequest :=
  if version.length = 8 ∧ version.take 7 = ascii "HTTP/1." then
    if version.getLast? = some 49 then (true, r.setVersion (ascii "HTTP/1.1"))
    else if version.getLast? = some 48 then (true, r.setVersion (ascii "HTTP/1.0"))
    else (false, r)
  else (false, r)

/-- The part of `processRequestLine` behind the method. -/
def processTarget (r : HttpRequest) (line : Bytes) : Bool × HttpRequest :=
  if 32 ∈ line then
    let target := line.takeWhile (· ≠ 32)
    let r := if 63 ∈ target then
        (r.setPath (target.takeWhile (· ≠ 63))).setQueryParameters (target.dropWhile (· ≠ 63)).tail
      else r.setPath target
    processVersion r (line.dropWhile (· ≠ 32)).tail
  else (false, r)

/-- There is no result if the assertion of `setMethod` fails. -/
def processRequestLine (r : HttpRequest) (line : Bytes) : Option (Bool × HttpRequest) :=
  if 32 ∈ line then
    (r.setMethod (line.takeWhile (· ≠ 32))).map fun result ↦
      if result.1 then processTarget result.2 (line.dropWhile (· ≠ 32)).tail else result
  else some (false, r)

/-- How a call of `parseRequest` ends. -/
inductive Outcome
  | returned (ok : Bool) (c : HttpContext) (buf : Bytes)
  | thrown (c : HttpContext) (buf : Bytes)
  | aborted
deriving DecidableEq, Repr

/-- One round of the loop of `parseRequest`. -/
inductive Round
  | again (c : HttpContext) (buf : Bytes)
  | ends (outcome : Outcome)
deriving DecidableEq, Repr

def expectsRequestLine (c : HttpContext) (buf : Bytes) : Round :=
  match splitCRLF buf with
  | none => .ends (.returned true c buf)
  | some (line, rest) =>
      match processRequestLine c.request line with
      | none => .ends .aborted
      | some (true, r) => .again ⟨.expectHeaders, r⟩ rest
      | some (false, r) => .ends (.returned false ⟨c.state, r⟩ buf)

/-- The empty line behind the headers. -/
def endsHeaders (c : HttpContext) (buf rest : Bytes) : Round :=
  if c.request.method = .post ∨ c.request.method = .put then
    let contentLength := c.request.getHeader (ascii "Content-Length")
    if contentLength ≠ [] then
      match stoi contentLength with
      | none => .ends (.thrown c buf)
      | some length =>
          let r := c.request.setContentLength length
          if 0 < r.contentLength then .again ⟨.expectBody, r⟩ rest
          else .ends (.returned true ⟨.gotAll, r⟩ rest)
    else .ends (.returned false c rest)
  else .ends (.returned true ⟨.gotAll, c.request⟩ rest)

def expectsHeaders (c : HttpContext) (buf : Bytes) : Round :=
  match splitCRLF buf with
  | none => .ends (.returned true c buf)
  | some (line, rest) =>
      if 58 ∈ line then
        .again ⟨c.state, c.request.addHeader (line.takeWhile (· ≠ 58))
          (line.dropWhile (· ≠ 58)).tail⟩ rest
      else if line = [] then endsHeaders c buf rest
      else .ends (.returned false c rest)

def expectsBody (c : HttpContext) (buf : Bytes) : Round :=
  if buf.length < c.request.contentLength then .ends (.returned true c buf)
  else
    .ends (.returned true ⟨.gotAll, c.request.setBody (buf.take c.request.contentLength)⟩
      (buf.drop c.request.contentLength))

def round (c : HttpContext) (buf : Bytes) : Round :=
  match c.state with
  | .expectRequestLine => expectsRequestLine c buf
  | .expectHeaders => expectsHeaders c buf
  | .expectBody => expectsBody c buf
  | .gotAll => .again c buf

/-- There is no outcome as long as the loop has not ended. -/
def parseLoop : ℕ → HttpContext → Bytes → Option Outcome
  | 0, _, _ => none
  | rounds + 1, c, buf =>
      match c.round buf with
      | .again c buf => parseLoop rounds c buf
      | .ends outcome => some outcome

/-- The outcome of the loop, which needs at most one round for each byte and one
more if it ends. -/
def parseRequest (c : HttpContext) (buf : Bytes) : Option Outcome :=
  parseLoop (buf.length + 1) c buf

end HttpContext

end HttpRaftKv.Http
