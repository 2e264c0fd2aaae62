import HttpRaftKv.Http.HttpServer
import HttpRaftKv.Http.Parsing
import HttpRaftKv.Lib.Runs
import Mathlib.Data.List.Chain
import Mathlib.Data.List.Forall2

/-!
# Requests on one connection

The parser is used again for the next request.  What `reset` leaves in it are the
content and its length, and a request that does not set them shows those of an
earlier one.  Everything else that the parser does is the same as that of a new
one.
-/

namespace HttpRaftKv.Http

/-! ## What is left of an earlier request -/

/-- The request with the content and the length of an earlier one. -/
def HttpRequest.showing (r : HttpRequest) (content : Bytes) (length : ℕ) : HttpRequest :=
  { r with
    content := content
    contentLength := length }

namespace HttpRequest

variable (r : HttpRequest) (content : Bytes) (length : ℕ)

@[simp] theorem showing_method : (r.showing content length).method = r.method := rfl

@[simp] theorem showing_contentLength : (r.showing content length).contentLength = length := rfl

@[simp] theorem showing_getHeader (field : Bytes) :
    (r.showing content length).getHeader field = r.getHeader field := rfl

@[simp] theorem showing_setContentLength (n : ℤ) :
    (r.showing content length).setContentLength n =
      (r.setContentLength n).showing content (r.setContentLength n).contentLength := rfl

end HttpRequest

namespace HttpContext

/-- The content length has been set. -/
def HasLength (c : HttpContext) : Prop :=
  (c.state = .expectBody ∨ c.state = .gotAll) ∧ TakesBody c.request

instance (c : HttpContext) : Decidable c.HasLength :=
  inferInstanceAs (Decidable (_ ∧ _))

/-- What the parser has instead of `c` if it started with the content and the
length of an earlier request. -/
def leak (content : Bytes) (length : ℕ) (c : HttpContext) : HttpContext :=
  { c with
    request := c.request.showing (if c.request.content = [] then content else c.request.content)
      (if c.HasLength then c.request.contentLength else length) }

/-- The content is set last, the length behind the headers, and only a request
with a length waits for its body. -/
structure Fresh (c : HttpContext) : Prop where
  content : c.state ≠ .gotAll → c.request.content = []
  length : c.state ≠ .gotAll → c.state ≠ .expectBody → c.request.contentLength = 0
  body : c.state = .expectBody → TakesBody c.request ∧ 0 < c.request.contentLength

theorem fresh_create : create.Fresh where
  content := fun _ ↦ rfl
  length := fun _ _ ↦ rfl
  body := fun h ↦ by cases h

theorem reset_eq_leak (c : HttpContext) :
    c.reset = create.leak c.request.content c.request.contentLength := by
  have hlength : ¬ create.HasLength := by decide
  rw [leak, if_neg hlength]
  rfl

def Outcome.leak (content : Bytes) (length : ℕ) : Outcome → Outcome
  | .returned ok c buf => .returned ok (c.leak content length) buf
  | .thrown c buf => .thrown (c.leak content length) buf
  | .aborted => .aborted

def Round.leak (content : Bytes) (length : ℕ) : Round → Round
  | .again c buf => .again (c.leak content length) buf
  | .ends outcome => .ends (outcome.leak content length)

/-! ## Rounds -/

variable (content : Bytes) (length : ℕ)

theorem processVersion_showing (r : HttpRequest) (version : Bytes) :
    processVersion (r.showing content length) version =
      ((processVersion r version).1, (processVersion r version).2.showing content length) := by
  unfold processVersion
  split_ifs
  · rfl
  · rfl
  · rfl
  · rfl

theorem processTarget_showing (r : HttpRequest) (line : Bytes) :
    processTarget (r.showing content length) line =
      ((processTarget r line).1, (processTarget r line).2.showing content length) := by
  unfold processTarget
  split_ifs
  · simp only [← processVersion_showing]
    split_ifs
    · rfl
    · rfl
  · rfl

theorem setMethod_showing (r : HttpRequest) (m : Bytes) :
    (r.showing content length).setMethod m =
      (r.setMethod m).map fun p ↦ (p.1, p.2.showing content length) := by
  unfold HttpRequest.setMethod
  by_cases hmethod : r.method = .invalid
  · simp [HttpRequest.showing, hmethod]
  · simp [HttpRequest.showing, hmethod]

theorem processRequestLine_showing (r : HttpRequest) (line : Bytes) :
    processRequestLine (r.showing content length) line =
      (processRequestLine r line).map fun p ↦ (p.1, p.2.showing content length) := by
  unfold processRequestLine
  split_ifs
  · rw [setMethod_showing]
    rcases r.setMethod (line.takeWhile (· ≠ 32)) with _ | ⟨_ | _, r'⟩
    · rfl
    · rfl
    · simp [processTarget_showing]
  · rfl

theorem processRequestLine_content {r r' : HttpRequest} {line : Bytes} {ok : Bool}
    (h : processRequestLine r line = some (ok, r')) :
    r'.content = r.content ∧ r'.contentLength = r.contentLength := by
  have hself := processRequestLine_showing r.content r.contentLength r line
  rw [show r.showing r.content r.contentLength = r from rfl, h] at hself
  have heq := (Prod.mk.inj (Option.some.inj hself)).2
  exact ⟨congrArg (fun r ↦ r.content) heq, congrArg (fun r ↦ r.contentLength) heq⟩

/-- Before the content length is set, the parser has that of the earlier request. -/
theorem leak_of_not_hasLength {c : HttpContext} (hcontent : c.request.content = [])
    (hlength : ¬ c.HasLength) :
    c.leak content length = ⟨c.state, c.request.showing content length⟩ := by
  rw [leak, if_pos hcontent, if_neg hlength]

theorem leak_eq_self {c : HttpContext} (hcontent : c.request.content ≠ [])
    (hlength : c.HasLength) : c.leak content length = c := by
  rw [leak, if_neg hcontent, if_pos hlength]
  rfl

theorem leak_method (c : HttpContext) :
    (c.leak content length).request.method = c.request.method := rfl

theorem leak_getHeader (c : HttpContext) (field : Bytes) :
    (c.leak content length).request.getHeader field = c.request.getHeader field := rfl

theorem expectsRequestLine_leak {c : HttpContext} (hc : c.state = .expectRequestLine)
    (hcontent : c.request.content = []) (buf : Bytes) :
    (c.leak content length).expectsRequestLine buf =
      (c.expectsRequestLine buf).leak content length := by
  have hlength : ∀ r, ¬ HasLength ⟨.expectRequestLine, r⟩ := by simp [HasLength]
  obtain ⟨state, r⟩ := c
  obtain rfl : state = .expectRequestLine := hc
  rw [leak_of_not_hasLength content length hcontent (hlength r)]
  unfold expectsRequestLine
  cases splitCRLF buf with
  | none => simp [Round.leak, Outcome.leak, leak_of_not_hasLength content length hcontent (hlength r)]
  | some split =>
      simp only [processRequestLine_showing]
      rcases hprocess : processRequestLine r split.1 with _ | ⟨_ | _, r'⟩
      · rfl
      · have hcontent' : r'.content = [] := (processRequestLine_content hprocess).1.trans hcontent
        simp [Round.leak, Outcome.leak,
          leak_of_not_hasLength content length hcontent' (hlength r')]
      · have hcontent' : r'.content = [] := (processRequestLine_content hprocess).1.trans hcontent
        have hlength' : ¬ HasLength ⟨.expectHeaders, r'⟩ := by simp [HasLength]
        simp [Round.leak, leak_of_not_hasLength content length hcontent' hlength']

theorem endsHeaders_leak {c : HttpContext} (hc : c.state = .expectHeaders)
    (hcontent : c.request.content = []) (buf rest : Bytes) :
    (c.leak content length).endsHeaders buf rest =
      (c.endsHeaders buf rest).leak content length := by
  have hlength : ¬ c.HasLength := by simp [HasLength, hc]
  have hleak := leak_of_not_hasLength content length hcontent hlength
  have hset : ∀ s r', (s = .expectBody ∨ s = .gotAll) → TakesBody r' →
      r'.content = [] → leak content length ⟨s, r'⟩ = ⟨s, r'.showing content r'.contentLength⟩ := by
    intro s r' hs hmethod' hcontent'
    rw [leak, if_pos hcontent', if_pos ⟨hs, hmethod'⟩]
  unfold endsHeaders
  rw [leak_method, leak_getHeader]
  by_cases hmethod : c.request.method = .post ∨ c.request.method = .put
  · rw [if_pos hmethod, if_pos hmethod]
    simp only
    split_ifs
    · cases stoi (c.request.getHeader (ascii "Content-Length")) with
      | none => rfl
      | some n =>
          have hn : (c.leak content length).request.setContentLength n =
              (c.request.setContentLength n).showing content
                (c.request.setContentLength n).contentLength := by
            rw [hleak]
            rfl
          simp only [hn, HttpRequest.showing_contentLength]
          split_ifs
          · rw [← hset .expectBody (c.request.setContentLength n) (.inl rfl) hmethod hcontent]
            rfl
          · rw [← hset .gotAll (c.request.setContentLength n) (.inr rfl) hmethod hcontent]
            rfl
    · rfl
  · rw [if_neg hmethod, if_neg hmethod]
    have hnot : ¬ HasLength ⟨.gotAll, c.request⟩ := fun h ↦ hmethod h.2
    have hgot : leak content length ⟨.gotAll, c.request⟩ =
        ⟨.gotAll, c.request.showing content length⟩ :=
      leak_of_not_hasLength content length hcontent hnot
    rw [hleak, Round.leak, Outcome.leak, hgot]

theorem expectsHeaders_leak {c : HttpContext} (hc : c.state = .expectHeaders)
    (hcontent : c.request.content = []) (buf : Bytes) :
    (c.leak content length).expectsHeaders buf =
      (c.expectsHeaders buf).leak content length := by
  have hlength : ¬ c.HasLength := by simp [HasLength, hc]
  have hleak := leak_of_not_hasLength content length hcontent hlength
  unfold expectsHeaders
  cases splitCRLF buf with
  | none => rfl
  | some split =>
      simp only
      split_ifs
      · have hadd : ∀ key text, leak content length ⟨c.state, c.request.addHeader key text⟩ =
            ⟨c.state, (c.request.addHeader key text).showing content length⟩ :=
          fun key text ↦ leak_of_not_hasLength content length hcontent (by simp [HasLength, hc])
        rw [Round.leak, hadd, hleak]
        rfl
      · exact endsHeaders_leak content length hc hcontent buf split.2
      · rfl

theorem expectsBody_leak {c : HttpContext} (hc : c.state = .expectBody) (h : c.Fresh)
    (buf : Bytes) :
    (c.leak content length).expectsBody buf = (c.expectsBody buf).leak content length := by
  obtain ⟨hmethod, hpos⟩ := h.body hc
  have hlength : c.HasLength := ⟨.inl hc, hmethod⟩
  have heq : (c.leak content length).request.contentLength = c.request.contentLength := by
    rw [leak, if_pos hlength]
    rfl
  unfold expectsBody
  rw [heq]
  split_ifs with hbuf
  · rfl
  · -- The body is not empty, so it takes the place of the earlier content.
    have hbody : buf.take c.request.contentLength ≠ [] := by
      intro hnil
      have hzero := congrArg List.length hnil
      rw [List.length_take, List.length_nil] at hzero
      omega
    have hlength' : HasLength ⟨.gotAll, c.request.setBody (buf.take c.request.contentLength)⟩ :=
      ⟨.inr rfl, hmethod⟩
    have hleak : leak content length
        ⟨.gotAll, c.request.setBody (buf.take c.request.contentLength)⟩ =
        ⟨.gotAll, c.request.setBody (buf.take c.request.contentLength)⟩ :=
      leak_eq_self content length hbody hlength'
    rw [Round.leak, Outcome.leak, hleak]
    unfold leak
    rw [if_pos hlength]
    rfl

/-- The rounds of the parser are those of a new one, with what is left of the
earlier request. -/
theorem round_leak {c : HttpContext} (h : c.Fresh) (hstate : c.state ≠ .gotAll) (buf : Bytes) :
    (c.leak content length).round buf = (c.round buf).leak content length := by
  have hcontent := h.content hstate
  unfold round
  cases hc : c.state with
  | gotAll => exact absurd hc hstate
  | expectRequestLine =>
      rw [show (c.leak content length).state = .expectRequestLine from hc]
      exact expectsRequestLine_leak content length hc hcontent buf
  | expectHeaders =>
      rw [show (c.leak content length).state = .expectHeaders from hc]
      exact expectsHeaders_leak content length hc hcontent buf
  | expectBody =>
      rw [show (c.leak content length).state = .expectBody from hc]
      exact expectsBody_leak content length hc h buf

/-- A round leaves the parser fresh. -/
theorem Fresh.again {c c' : HttpContext} (h : c.Fresh) (hstate : c.state ≠ .gotAll)
    {buf buf' : Bytes} (hround : c.round buf = .again c' buf') : c'.Fresh := by
  have hcontent := h.content hstate
  have hreads := reads_round c buf
  rw [hround] at hreads
  cases hreads with
  | requestLine line rest r hline hsplit hprocess =>
      obtain ⟨hcontent', hlength'⟩ := processRequestLine_content hprocess
      have hlength := h.length hstate (by simp [hline])
      exact ⟨fun _ ↦ hcontent'.trans hcontent, fun _ _ ↦ hlength'.trans hlength, by simp⟩
  | header line rest hheaders =>
      have hlength := h.length hstate (by simp [hheaders])
      exact ⟨fun _ ↦ hcontent, fun _ _ ↦ hlength, by simp [hheaders]⟩
  | someBody rest length _ _ hmethod hlength =>
      exact ⟨fun _ ↦ hcontent, by simp, fun _ ↦ ⟨hmethod, hlength⟩⟩
  | spins hgot => exact absurd hgot hstate

/-! ## Calls -/

/-- A call of the parser is one of a new parser, with what is left of the earlier
request. -/
theorem parseRequest_leak {c : HttpContext} (h : c.Fresh) (hstate : c.state ≠ .gotAll)
    (buf : Bytes) : (c.leak content length).parseRequest buf =
      (c.parseRequest buf).map (Outcome.leak content length) := by
  refine parseRequest_induction (P := fun c buf result ↦ c.Fresh →
    (c.leak content length).parseRequest buf = result.map (Outcome.leak content length))
    ?_ ?_ hstate buf h
  · intro c buf outcome hstate hround h
    have hleak := round_leak content length h hstate buf
    rw [hround] at hleak
    rw [parseRequest_ends hleak]
    rfl
  · intro c buf c' buf' hstate hround ih h
    have hleak := round_leak content length h hstate buf
    rw [hround] at hleak
    have hstate' : (c.leak content length).state ≠ .gotAll := hstate
    rw [parseRequest_again hstate' hleak]
    exact ih (h.again hstate hround)

end HttpContext

/-! ## The body of a request -/

/-- The bytes behind the first empty line. -/
def bodyOf : Bytes → Bytes
  | [] => []
  | b :: rest => if [13, 10, 13, 10] <+: b :: rest then rest.drop 3 else bodyOf rest

/-- The same for bytes that start with a line of the headers, which may be the
empty one. -/
def bodyBehind (headers : Bytes) : Bytes :=
  if [13, 10] <+: headers then headers.drop 2 else bodyOf headers

theorem bodyOf_eq {buf line rest : Bytes} (h : splitCRLF buf = some (line, rest)) :
    bodyOf buf = bodyBehind rest := by
  induction buf generalizing line with
  | nil => cases h
  | cons b buf ih =>
      unfold splitCRLF at h
      unfold bodyOf
      split_ifs at h with hcrlf
      · cases h
        cases buf with
        | nil => simp at hcrlf
        | cons b' buf =>
            obtain ⟨rfl, hhead⟩ := hcrlf
            cases hhead
            rw [List.tail_cons, bodyBehind]
            by_cases hblank : [13, 10] <+: buf
            · rw [if_pos (by simpa using hblank), if_pos hblank]
              rfl
            · rw [if_neg (by simpa using hblank), if_neg hblank, bodyOf, if_neg (by simp)]
      · obtain ⟨⟨line', rest'⟩, hsplit, heq⟩ := Option.map_eq_some_iff.mp h
        cases heq
        rw [if_neg ?_, ih hsplit]
        rintro ⟨behind, hbehind⟩
        cases hbehind
        exact hcrlf ⟨rfl, rfl⟩

theorem bodyBehind_of_blank {buf rest : Bytes} (h : splitCRLF buf = some ([], rest)) :
    bodyBehind buf = rest := by
  rw [splitCRLF_eq_some h]
  simp [bodyBehind]

theorem bodyBehind_of_line {buf line rest : Bytes} (h : splitCRLF buf = some (line, rest))
    (hline : line ≠ []) : bodyBehind buf = bodyBehind rest := by
  have hnot : ¬ [13, 10] <+: buf := by
    rintro ⟨behind, rfl⟩
    cases h
    exact hline rfl
  rw [bodyBehind, if_neg hnot, bodyOf_eq h]

namespace HttpContext

/-- What a complete request has as its content if the parser goes on with all of
the bytes. -/
def content (c : HttpContext) (buf : Bytes) : Bytes :=
  match c.state with
  | .expectRequestLine => bodyOf buf
  | .expectHeaders => bodyBehind buf
  | .expectBody => buf
  | .gotAll => []

/-- The content of a complete request has the length that is given, and is what
stands behind the empty line. -/
theorem parse_complete {c c' : HttpContext} (h : c.Fresh) (hstate : c.state ≠ .gotAll)
    {buf rest : Bytes} (hparse : c.parseRequest buf = some (.returned true c' rest))
    (hgot : c'.state = .gotAll) :
    c'.request.contentLength = c'.request.content.length ∧
      (¬ TakesBody c'.request → c'.request.content = []) ∧
      (rest = [] → c'.request.content = c.content buf) := by
  refine parseRequest_induction (P := fun c buf result ↦ c.Fresh →
    result = some (.returned true c' rest) →
    c'.request.contentLength = c'.request.content.length ∧
      (¬ TakesBody c'.request → c'.request.content = []) ∧
      (rest = [] → c'.request.content = c.content buf)) ?_ ?_ hstate buf h hparse
  · intro c buf outcome hstate hround h hparse
    have hcontent := h.content hstate
    have hreads := reads_round c buf
    rw [hround] at hreads
    cases hparse
    cases hreads with
    | waits => exact absurd hgot hstate
    | noBody rest hheaders hsplit hmethod =>
        refine ⟨?_, fun _ ↦ hcontent, fun hrest ↦ ?_⟩
        · rw [hcontent]
          exact h.length hstate (by simp [hheaders])
        · rw [content, hheaders]
          exact hcontent.trans (hrest ▸ (bodyBehind_of_blank hsplit).symm)
    | emptyBody rest length hheaders hsplit hmethod hlength =>
        refine ⟨?_, fun hnot ↦ absurd hmethod hnot, fun hrest ↦ ?_⟩
        · rw [hlength]
          exact (congrArg List.length hcontent).symm
        · rw [content, hheaders]
          exact hcontent.trans (hrest ▸ (bodyBehind_of_blank hsplit).symm)
    | body hexpects hlength =>
        refine ⟨?_, fun hnot ↦ absurd (h.body hexpects).1 hnot, fun hrest ↦ ?_⟩
        · change c.request.contentLength = (buf.take c.request.contentLength).length
          rw [List.length_take]
          omega
        · rw [content, hexpects]
          change buf.take c.request.contentLength = buf
          exact List.take_of_length_le (List.drop_eq_nil_iff.mp hrest)
  · intro c buf c₁ buf₁ hstate hround ih h hparse
    obtain ⟨hlength, hbody, hall⟩ := ih (h.again hstate hround) hparse
    refine ⟨hlength, hbody, fun hrest ↦ (hall hrest).trans ?_⟩
    have hreads := reads_round c buf
    rw [hround] at hreads
    cases hreads with
    | requestLine line rest r hline hsplit =>
        rw [content, content, hline]
        exact (bodyOf_eq hsplit).symm
    | header line rest hheaders hsplit hcolon =>
        rw [content, content, hheaders]
        exact (bodyBehind_of_line hsplit (List.ne_nil_of_mem hcolon)).symm
    | someBody rest length hheaders hsplit =>
        rw [content, content, hheaders]
        exact (bodyBehind_of_blank hsplit).symm
    | spins hspins => exact absurd hspins hstate

end HttpContext

/-! ## The connection -/

/-- The bytes are those of one request, which a new parser reads from them. -/
def WellFormed (bytes : Bytes) (r : HttpRequest) : Prop :=
  HttpContext.create.parseRequest bytes = some (.returned true ⟨.gotAll, r⟩ [])

instance (bytes : Bytes) (r : HttpRequest) : Decidable (WellFormed bytes r) :=
  inferInstanceAs (Decidable (_ = _))

/-- The request as the callback gets it if an earlier one has left something. -/
def HttpRequest.leaked (r : HttpRequest) (content : Bytes) (length : ℕ) : HttpRequest :=
  r.showing (if r.content = [] then content else r.content)
    (if HttpContext.TakesBody r then r.contentLength else length)

theorem HttpContext.leak_gotAll (content : Bytes) (length : ℕ) (r : HttpRequest) :
    leak content length ⟨.gotAll, r⟩ = ⟨.gotAll, r.leaked content length⟩ := by
  have hlength : HasLength ⟨.gotAll, r⟩ ↔ TakesBody r := and_iff_right (.inr rfl)
  unfold leak HttpRequest.leaked
  by_cases htakes : TakesBody r
  · rw [if_pos htakes, if_pos (hlength.mpr htakes)]
  · rw [if_neg htakes, if_neg fun h ↦ htakes (hlength.mp h)]

theorem WellFormed.content {bytes : Bytes} {r : HttpRequest} (h : WellFormed bytes r) :
    r.contentLength = r.content.length ∧ (¬ HttpContext.TakesBody r → r.content = []) ∧
      r.content = bodyOf bytes := by
  obtain ⟨hlength, hbody, hall⟩ := HttpContext.parse_complete HttpContext.fresh_create
    (by simp [HttpContext.create]) h rfl
  exact ⟨hlength, hbody, hall rfl⟩

/-- Nothing of an earlier request is seen exactly if the request has a body of its
own or the earlier one had none. -/
theorem WellFormed.leaked_eq_iff {bytes : Bytes} {r : HttpRequest} (h : WellFormed bytes r)
    (content : Bytes) : r.leaked content content.length = r ↔ (content ≠ [] → bodyOf bytes ≠ []) := by
  obtain ⟨hlength, hbody, hall⟩ := h.content
  rw [← hall]
  by_cases hcontent : r.content = []
  · rw [HttpRequest.leaked, if_pos hcontent]
    constructor
    · intro heq _
      have hshown := congrArg HttpRequest.content heq
      exact absurd (hshown.trans hcontent) ‹_›
    · intro himp
      obtain rfl : content = [] := by
        by_contra hne
        exact himp hne hcontent
      have hzero : r.contentLength = 0 := by rw [hlength, hcontent, List.length_nil]
      rw [List.length_nil, hzero, ite_self, ← hcontent, ← hzero]
      rfl
  · have htakes : HttpContext.TakesBody r := by
      by_contra hnot
      exact hcontent (hbody hnot)
    rw [HttpRequest.leaked, if_neg hcontent, if_pos htakes]
    exact iff_of_true rfl fun _ ↦ hcontent

namespace HttpServer

open WebSocketServer

/-- The requests that the callback has got. -/
def requests (c : Connection) : List HttpRequest :=
  c.trace.filterMap fun effect ↦
    match effect with
    | .request r => some r
    | _ => none

/-- The connection waits for a request, with what is left of an earlier one. -/
structure Ready (content : Bytes) (length : ℕ) (c : Connection) : Prop where
  buf : c.buf = []
  context : c.context = HttpContext.create.leak content length
  webSocket : c.webSocket = none
  status : c.status = .running

theorem ready_deliver {content : Bytes} {length : ℕ} {c : Connection} (h : Ready content length c)
    {bytes : Bytes} {r : HttpRequest} (hr : WellFormed bytes r) {upgrade : Bool}
    (hupgrade : (upgrade && validateUpgradeRequest r) = false) :
    Ready (r.leaked content length).content (r.leaked content length).contentLength
        (deliver c (bytes, upgrade)) ∧
      requests (deliver c (bytes, upgrade)) = requests c ++ [r.leaked content length] := by
  have hbytes : bytes ≠ [] := by
    rintro rfl
    cases hr
  have hparse : c.context.parseRequest bytes =
      some (.returned true ⟨.gotAll, r.leaked content length⟩ []) := by
    rw [h.context, HttpContext.parseRequest_leak content length HttpContext.fresh_create
      (by simp [HttpContext.create]) bytes, hr, ← HttpContext.leak_gotAll]
    rfl
  have hnot : (upgrade && validateUpgradeRequest (r.leaked content length)) = false := hupgrade
  have hbuf : c.buf ++ bytes = bytes := by rw [h.buf, List.nil_append]
  have hne : c.buf ++ bytes ≠ [] := by
    rw [hbuf]
    exact hbytes
  have hwebSocket : ({ c with buf := bytes }.did [.parse bytes]).webSocket = none := h.webSocket
  rw [deliver_of_running h.status, onMessage_of_requests h.webSocket hne, hbuf, hparse,
    afterParse_request hwebSocket rfl hnot]
  refine ⟨⟨rfl, HttpContext.reset_eq_leak _, h.webSocket, h.status⟩, ?_⟩
  simp [requests, Connection.did]

/-- A request that is not answered with an upgrade. -/
def Plain (message : Bytes × Bool) (r : HttpRequest) : Prop :=
  WellFormed message.1 r ∧ (message.2 && validateUpgradeRequest r) = false

theorem requests_run {content : Bytes} {length : ℕ} {c : Connection} (h : Ready content length c)
    {messages : List (Bytes × Bool)} {rs : List HttpRequest}
    (hplain : List.Forall₂ Plain messages rs) :
    ∃ rs', requests (Runs.run deliver c messages) = requests c ++ rs' := by
  induction hplain generalizing content length c with
  | nil => exact ⟨[], (List.append_nil _).symm⟩
  | @cons message r messages rs hmessage _ ih =>
      obtain ⟨hready, hrequests⟩ := ready_deliver h hmessage.1 hmessage.2
      obtain ⟨rs', hrs'⟩ := ih hready
      refine ⟨r.leaked content length :: rs', hrs'.trans ?_⟩
      rw [hrequests, List.append_assoc]
      rfl

/-- The callback gets the requests as they are exactly if a body is never followed
by a request without one. -/
theorem requests_run_iff {content : Bytes} {c : Connection} (h : Ready content content.length c)
    {messages : List (Bytes × Bool)} {rs : List HttpRequest}
    (hplain : List.Forall₂ Plain messages rs) :
    requests (Runs.run deliver c messages) = requests c ++ rs ↔
      List.IsChain (fun body next ↦ body ≠ [] → next ≠ [])
        (content :: messages.map fun message ↦ bodyOf message.1) := by
  induction hplain generalizing content c with
  | nil => simp
  | @cons message r messages rs hmessage hrest ih =>
      obtain ⟨hready, hrequests⟩ := ready_deliver h hmessage.1 hmessage.2
      have hrun : Runs.run deliver c (message :: messages) =
          Runs.run deliver (deliver c message) messages := rfl
      rw [List.map_cons, List.isChain_cons_cons, ← hmessage.1.leaked_eq_iff content, hrun]
      by_cases hleaked : r.leaked content content.length = r
      · obtain ⟨hlength, -, hbody⟩ := hmessage.1.content
        rw [hleaked] at hready hrequests
        rw [hlength] at hready
        rw [and_iff_right hleaked, ← hbody, ← ih hready, hrequests, List.append_assoc]
        rfl
      · refine iff_of_false (fun heq ↦ hleaked ?_) fun hchain ↦ hleaked hchain.1
        obtain ⟨rs', hrs'⟩ := requests_run hready hrest
        rw [hrs', hrequests, List.append_assoc] at heq
        have hcons := List.append_cancel_left heq
        exact (List.cons.inj hcons).1

theorem ready_create : Ready [] 0 .create :=
  ⟨rfl, by decide, rfl, rfl⟩

end HttpServer

/-- The request that a new parser reads from the bytes. -/
def parsed (bytes : Bytes) : HttpRequest :=
  match HttpContext.create.parseRequest bytes with
  | some (.returned true c _) => c.request
  | _ => .create

namespace HttpServer

open WebSocketServer

/-- Requests that arrive one by one on a connection are seen by the callback as a
new parser reads each of them exactly if none with a body is followed by one
without a body. -/
theorem requests_isolated_iff {messages : List (Bytes × Bool)}
    (hmessages : ∀ message ∈ messages, WellFormed message.1 (parsed message.1) ∧
      (message.2 && validateUpgradeRequest (parsed message.1)) = false) :
    requests (Runs.run deliver .create messages) = messages.map (fun message ↦ parsed message.1) ↔
      messages.IsChain fun message next ↦ bodyOf message.1 ≠ [] → bodyOf next.1 ≠ [] := by
  have hplain : List.Forall₂ Plain messages (messages.map fun message ↦ parsed message.1) := by
    rw [List.forall₂_map_right_iff, List.forall₂_same]
    exact hmessages
  have hiff := requests_run_iff ready_create hplain
  rw [List.isChain_cons, List.isChain_map, show requests .create = [] from rfl] at hiff
  simpa using hiff

/-- A page, and a login with another one behind it. -/
def pageAndLogins : List (Bytes × Bool) :=
  [(ascii "GET /entry HTTP/1.1\r\n\r\n", false),
    (ascii "POST /login HTTP/1.1\r\nContent-Length: 6\r\n\r\nsecret", false),
    (ascii "POST /login HTTP/1.1\r\nContent-Length: 4\r\n\r\nname", false)]

theorem requests_isolated_in_pageAndLogins :
    requests (Runs.run deliver .create pageAndLogins) =
      pageAndLogins.map fun message ↦ parsed message.1 :=
  (requests_isolated_iff (by decide +kernel)).mpr (by decide +kernel)

/-- A login, and a page behind it. -/
def loginAndPage : List (Bytes × Bool) :=
  [(ascii "POST /login HTTP/1.1\r\nContent-Length: 6\r\n\r\nsecret", false),
    (ascii "GET /entry HTTP/1.1\r\n\r\n", false)]

theorem body_leaks_in_loginAndPage :
    (∀ message ∈ loginAndPage, WellFormed message.1 (parsed message.1)) ∧
      requests (Runs.run deliver .create loginAndPage) ≠
        loginAndPage.map fun message ↦ parsed message.1 := by
  decide +kernel

end HttpServer

end HttpRaftKv.Http
