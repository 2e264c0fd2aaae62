import HttpRaftKv.Http.KeepAlive
import HttpRaftKv.Lib.Decoder

/-!
# Requests and the pieces of the stream

The server looks at the stream when a piece of it arrives, and serves at most one
request then.  So it serves all requests of a stream exactly if the pieces do not
bring requests faster than one by one.
-/

namespace HttpRaftKv.Http

namespace HttpContext

theorem parseRequest_length {c c' : HttpContext} (hstate : c.state ≠ .gotAll) {buf rest : Bytes}
    {ok : Bool} (h : c.parseRequest buf = some (.returned ok c' rest)) :
    rest.length ≤ buf.length := by
  refine parseRequest_induction (P := fun _ buf result ↦
    result = some (.returned ok c' rest) → rest.length ≤ buf.length) ?_ ?_ hstate buf h
  · intro c buf outcome _ hround h
    have hreads := reads_round c buf
    rw [hround] at hreads
    cases h
    cases hreads with
    | waits => exact le_rfl
    | badLine => exact le_rfl
    | badHeader line rest _ hsplit => exact (splitCRLF_length hsplit).le
    | noBody rest _ hsplit => exact (splitCRLF_length hsplit).le
    | emptyBody rest _ _ hsplit => exact (splitCRLF_length hsplit).le
    | body =>
        rw [List.length_drop]
        exact Nat.sub_le _ _
  · intro c buf c₁ buf₁ hstate hround ih h
    exact (ih h).trans (round_again hstate hround).2.le

/-- A complete request has bytes. -/
theorem parseRequest_shorter {c' : HttpContext} {buf rest : Bytes}
    (h : create.parseRequest buf = some (.returned true c' rest)) (hgot : c'.state = .gotAll) :
    rest.length < buf.length := by
  have hstate : create.state ≠ .gotAll := by simp [create]
  cases hround : create.round buf with
  | again c₁ buf₁ =>
      obtain ⟨hstate₁, hshorter⟩ := round_again hstate hround
      rw [parseRequest_again hstate hround] at h
      exact (parseRequest_length hstate₁ h).trans_lt hshorter
  | ends outcome =>
      rw [parseRequest_ends hround] at h
      cases h
      have hreads := reads_round create buf
      rw [hround] at hreads
      cases hreads with
      | waits hwaits => exact absurd hgot hwaits
      | noBody _ hheaders => simp [create] at hheaders
      | emptyBody _ _ hheaders => simp [create] at hheaders
      | body hbody => simp [create] at hbody

theorem Fresh.waits {c c' : HttpContext} (h : c.Fresh) (hstate : c.state ≠ .gotAll)
    {buf buf' : Bytes} (hparse : c.parseRequest buf = some (.returned true c' buf'))
    (hstate' : c'.state ≠ .gotAll) : c'.Fresh := by
  refine parseRequest_induction (P := fun c _ result ↦ c.Fresh →
    result = some (.returned true c' buf') → c'.Fresh) ?_ ?_ hstate buf h hparse
  · intro c buf outcome _ hround h hparse
    have hreads := reads_round c buf
    rw [hround] at hreads
    cases hparse
    cases hreads with
    | waits => exact h
    | noBody => exact absurd rfl hstate'
    | emptyBody => exact absurd rfl hstate'
    | body => exact absurd rfl hstate'
  · intro c buf c₁ buf₁ hstate hround ih h
    exact ih (h.again hstate hround)

theorem Fresh.parseRequest_nil {c : HttpContext} (h : c.Fresh) (hstate : c.state ≠ .gotAll) :
    c.parseRequest [] = some (.returned true c []) := by
  apply parseRequest_ends
  unfold round
  cases hc : c.state with
  | gotAll => exact absurd hc hstate
  | expectRequestLine => rfl
  | expectHeaders => rfl
  | expectBody =>
      have hlength := (h.body hc).2
      exact if_pos hlength

end HttpContext

/-- The request at the front of a stream. -/
def nextRequest (bytes : Bytes) : Option (HttpRequest × Bytes) :=
  match HttpContext.create.parseRequest bytes with
  | some (.returned true c rest) => if c.state = .gotAll then some (c.request, rest) else none
  | _ => none

theorem nextRequest_eq_some {bytes rest : Bytes} {r : HttpRequest} :
    nextRequest bytes = some (r, rest) ↔
      HttpContext.create.parseRequest bytes = some (.returned true ⟨.gotAll, r⟩ rest) := by
  unfold nextRequest
  constructor
  · intro h
    split at h
    · next c rest' hparse =>
        split_ifs at h with hgot
        cases h
        rw [hparse, ← hgot]
    · cases h
  · intro h
    rw [h]
    rfl

theorem nextRequest_of_waits {bytes rest : Bytes} {c : HttpContext}
    (h : HttpContext.create.parseRequest bytes = some (.returned true c rest))
    (hstate : c.state ≠ .gotAll) : nextRequest bytes = none := by
  simp [nextRequest, h, hstate]

def requestDecoder : Decoder UInt8 HttpRequest where
  next := nextRequest
  shorter := fun h ↦ HttpContext.parseRequest_shorter (nextRequest_eq_some.mp h) rfl
  stable := by
    intro bytes r rest h more
    rw [nextRequest_eq_some] at h ⊢
    exact HttpContext.parseRequest_append (by simp [HttpContext.create]) h
      (by simp [HttpContext.Outcome.Waits]) more

/-! ## The connection -/

/-- The call is for the request, up to what an earlier one has left. -/
def Shows (r call : HttpRequest) : Prop :=
  ∃ content length, call = r.leaked content length

namespace HttpServer

open WebSocketServer

/-- The parser of the connection goes on as a new one would do with the pending
bytes. -/
structure Represents (content : Bytes) (length : ℕ) (pending : Bytes) (c : Connection) : Prop where
  running : c.status = .running
  webSocket : c.webSocket = none
  context : ∃ context : HttpContext, context.Fresh ∧ context.state ≠ .gotAll ∧
    c.context = context.leak content length ∧
    ∀ more, context.parseRequest (c.buf ++ more) = HttpContext.create.parseRequest (pending ++ more)

theorem represents_create : Represents [] 0 [] .create :=
  ⟨rfl, rfl, .create, HttpContext.fresh_create, by simp [HttpContext.create], by decide,
    fun _ ↦ rfl⟩

/-- A piece in a stream of requests, none of which is an upgrade. -/
theorem represents_deliver {content : Bytes} {length : ℕ} {pending : Bytes} {c : Connection}
    (h : Represents content length pending c) {chunk : Bytes × Bool}
    (hstream : pending ++ chunk.1 ≠ [] → ∃ more r rest,
      nextRequest (pending ++ chunk.1 ++ more) = some (r, rest) ∧
        validateUpgradeRequest r = false) :
    (nextRequest (pending ++ chunk.1) = none ∧
        Represents content length (pending ++ chunk.1) (deliver c chunk) ∧
        requests (deliver c chunk) = requests c) ∨
      ∃ r rest call, nextRequest (pending ++ chunk.1) = some (r, rest) ∧ Shows r call ∧
        Represents call.content call.contentLength rest (deliver c chunk) ∧
        requests (deliver c chunk) = requests c ++ [call] := by
  obtain ⟨hrunning, hwebSocket, context, hfresh, hstate, hcontext, hparse⟩ := h
  obtain ⟨chunk, upgrade⟩ := chunk
  rw [deliver_of_running hrunning]
  simp only at hstream ⊢
  by_cases hbuf : c.buf ++ chunk = []
  · obtain ⟨hnil, rfl⟩ := List.append_eq_nil_iff.mp hbuf
    have hwaits := hparse []
    rw [hnil, List.append_nil, hfresh.parseRequest_nil hstate] at hwaits
    have hself : { c with buf := c.buf ++ [] } = c := by rw [List.append_nil]
    have heq : onMessage c [] upgrade = c := by
      unfold onMessage
      rw [hself]
      exact if_pos hnil
    rw [heq, List.append_nil] at *
    exact .inl ⟨nextRequest_of_waits hwaits.symm hstate,
      ⟨hrunning, hwebSocket, context, hfresh, hstate, hcontext, hparse⟩, rfl⟩
  · have hleak : c.context.parseRequest (c.buf ++ chunk) =
        (context.parseRequest (c.buf ++ chunk)).map (HttpContext.Outcome.leak content length) := by
      rw [hcontext, HttpContext.parseRequest_leak content length hfresh hstate]
    rw [onMessage_of_requests hwebSocket hbuf, hleak]
    rcases HttpContext.parseRequest_cases hstate (c.buf ++ chunk) with
      ⟨context', buf', hstate', hwaits, hlater⟩ | ⟨outcome, hnot, hends⟩
    · rw [hwaits]
      have hcreate := (hparse chunk).symm.trans hwaits
      have hafter : (HttpContext.leak content length context').state ≠ .gotAll := hstate'
      rw [Option.map_some, HttpContext.Outcome.leak, afterParse_waits _ _ hafter]
      refine .inl ⟨nextRequest_of_waits hcreate hstate', ?_, by simp [requests, Connection.did]⟩
      refine ⟨hrunning, hwebSocket, context', hfresh.waits hstate hwaits hstate', hstate', rfl,
        fun more ↦ ?_⟩
      rw [List.append_assoc, ← hparse, ← List.append_assoc]
      exact (hlater more).symm
    · have hcreate : ∀ more, HttpContext.create.parseRequest (pending ++ chunk ++ more) =
          some (outcome.append more) := by
        intro more
        rw [List.append_assoc, ← hparse, ← List.append_assoc, hends]
      -- The parser ends in the same way on the whole stream, which starts with a request.
      have hne : pending ++ chunk ≠ [] := by
        intro hnil
        have hnone := hcreate []
        rw [hnil, HttpContext.Outcome.append_nil] at hnone
        cases hnone
        exact hnot (by simp [HttpContext.Outcome.Waits, HttpContext.create])
      obtain ⟨more, r, rest, hnext, hupgrade⟩ := hstream hne
      rw [nextRequest_eq_some, hcreate] at hnext
      obtain ⟨buf', rfl⟩ : ∃ buf', outcome = .returned true ⟨.gotAll, r⟩ buf' := by
        cases outcome with
        | returned ok context' buf' =>
            cases hnext
            exact ⟨buf', rfl⟩
        | thrown context' buf' => cases hnext
        | aborted => cases hnext
      have hhere := hends []
      have hnow := hcreate []
      rw [List.append_nil, HttpContext.Outcome.append_nil] at hhere hnow
      have hwebSocket' : ({ c with buf := c.buf ++ chunk }.did
          [.parse (c.buf ++ chunk)]).webSocket = none := hwebSocket
      have hupgrade' : (upgrade && validateUpgradeRequest (r.leaked content length)) = false := by
        rw [show validateUpgradeRequest (r.leaked content length) = false from hupgrade,
          Bool.and_false]
      rw [hhere, Option.map_some, HttpContext.Outcome.leak, HttpContext.leak_gotAll,
        afterParse_request hwebSocket' rfl hupgrade']
      refine .inr ⟨r, buf', r.leaked content length, nextRequest_eq_some.mpr hnow,
        ⟨content, length, rfl⟩, ?_, by simp [requests, Connection.did]⟩
      exact ⟨hrunning, hwebSocket, .create, HttpContext.fresh_create, by simp [HttpContext.create],
        HttpContext.reset_eq_leak _, fun _ ↦ rfl⟩

/-- The connection has served what can be taken with one request for each piece. -/
theorem represents_run {messages : List Bytes} {rs : List HttpRequest}
    (hmessages : List.Forall₂ requestDecoder.Whole messages rs)
    (hrs : ∀ r ∈ rs, validateUpgradeRequest r = false) {chunks : List (Bytes × Bool)}
    (hchunks : (chunks.map Prod.fst).flatten <+: messages.flatten) :
    ∃ content length,
      Represents content length (requestDecoder.takeAll (chunks.map Prod.fst)).left
          (Runs.run deliver .create chunks) ∧
        List.Forall₂ Shows (requestDecoder.takeAll (chunks.map Prod.fst)).taken
          (requests (Runs.run deliver .create chunks)) := by
  induction chunks using List.reverseRecOn with
  | nil => exact ⟨[], 0, represents_create, .nil⟩
  | append_singleton chunks chunk ih =>
      rw [List.map_append, List.map_singleton] at hchunks
      have hpast : (chunks.map Prod.fst).flatten <+: messages.flatten :=
        (by simp : (chunks.map Prod.fst).flatten <+:
          (chunks.map Prod.fst ++ [chunk.1]).flatten).trans hchunks
      obtain ⟨content, length, hrepresents, hshows⟩ := ih hpast
      obtain ⟨n, htaken, -⟩ := Decoder.exists_taken hmessages hpast
      rw [List.map_append, List.map_singleton, Runs.run_snoc, Decoder.takeAll, List.foldl_append]
      change ∃ content length, Represents content length
        (requestDecoder.takeOne (requestDecoder.takeAll (chunks.map Prod.fst)) chunk.1).left _ ∧
        List.Forall₂ Shows
          (requestDecoder.takeOne (requestDecoder.takeAll (chunks.map Prod.fst)) chunk.1).taken _
      have hstream : (requestDecoder.takeAll (chunks.map Prod.fst)).left ++ chunk.1 ≠ [] →
          ∃ more r rest, nextRequest ((requestDecoder.takeAll (chunks.map Prod.fst)).left ++
            chunk.1 ++ more) = some (r, rest) ∧ validateUpgradeRequest r = false := by
        intro hne
        obtain ⟨more, r, hr, rest, hnext⟩ := htaken.exists_next hmessages hchunks hne
        exact ⟨more, r, rest, hnext, hrs r hr⟩
      unfold Decoder.takeOne
      rcases represents_deliver hrepresents hstream with
        ⟨hnext, hrepresents', hrequests⟩ | ⟨r, rest, call, hnext, hcall, hrepresents', hrequests⟩
      · rw [show requestDecoder.next _ = none from hnext, hrequests]
        exact ⟨content, length, hrepresents', hshows⟩
      · rw [show requestDecoder.next _ = some (r, rest) from hnext, hrequests]
        exact ⟨_, _, hrepresents', List.rel_append hshows (.cons hcall .nil)⟩

/-- However a stream of requests is cut, the callback is called once for each of
them, in their order, exactly if at every moment all of them had arrived but as
many as there are pieces to come. -/
theorem requests_served_iff {messages : List Bytes}
    (hmessages : ∀ message ∈ messages, WellFormed message (parsed message) ∧
      validateUpgradeRequest (parsed message) = false)
    {chunks : List (Bytes × Bool)}
    (hchunks : (chunks.map Prod.fst).flatten = messages.flatten) :
    List.Forall₂ Shows (messages.map parsed) (requests (Runs.run deliver .create chunks)) ↔
      ∀ pre post, chunks = pre ++ post →
        (messages.take (messages.length - post.length)).flatten.length ≤
          (pre.map Prod.fst).flatten.length := by
  have hwhole : List.Forall₂ requestDecoder.Whole messages (messages.map parsed) := by
    rw [List.forall₂_map_right_iff, List.forall₂_same]
    intro message hmessage
    exact nextRequest_eq_some.mpr (hmessages message hmessage).1
  have hplain : ∀ r ∈ messages.map parsed, validateUpgradeRequest r = false := by
    intro r hr
    obtain ⟨message, hmessage, rfl⟩ := List.mem_map.mp hr
    exact (hmessages message hmessage).2
  have hprefix : (chunks.map Prod.fst).flatten <+: messages.flatten :=
    hchunks ▸ List.prefix_rfl
  obtain ⟨content, length, -, hshows⟩ := represents_run hwhole hplain hprefix
  obtain ⟨n, htaken, -⟩ := Decoder.exists_taken hwhole hprefix
  have hserved : List.Forall₂ Shows (messages.map parsed)
      (requests (Runs.run deliver .create chunks)) ↔
      (requestDecoder.takeAll (chunks.map Prod.fst)).taken = messages.map parsed := by
    constructor
    · intro hall
      -- The requests that have been served are the first ones, and there are as many.
      have hlength : (requestDecoder.takeAll (chunks.map Prod.fst)).taken.length =
          (messages.map parsed).length := hshows.length_eq.trans hall.length_eq.symm
      rw [htaken.taken] at hlength ⊢
      rw [List.take_eq_self_iff]
      rw [List.length_take] at hlength
      omega
    · intro hall
      rwa [hall] at hshows
  rw [hserved, Decoder.takeAll_taken_iff hwhole hchunks]
  constructor
  · rintro harrived pre post rfl
    have hpre := harrived (pre.map Prod.fst) (post.map Prod.fst) (List.map_append ..)
    rwa [List.length_map] at hpre
  · intro harrived pre post heq
    obtain ⟨pre, post, rfl, rfl, rfl⟩ := List.map_eq_append_iff.mp heq
    have hpre := harrived pre post rfl
    rwa [Decoder.Arrived, List.length_map]

/-- A page and a login. -/
def pageAndLogin : List Bytes :=
  [ascii "GET /entry HTTP/1.1\r\n\r\n",
    ascii "POST /login HTTP/1.1\r\nContent-Length: 6\r\n\r\nsecret"]

/-- The login arrives behind the page, in two pieces. -/
def pageThenLogin : List (Bytes × Bool) :=
  [(ascii "GET /entry HTTP/1.1\r\n\r\n", false),
    (ascii "POST /login HTTP/1.1\r\nContent-Le", false),
    (ascii "ngth: 6\r\n\r\nsecret", false)]

theorem requests_served_in_pageThenLogin :
    List.Forall₂ Shows (pageAndLogin.map parsed)
      (requests (Runs.run deliver .create pageThenLogin)) := by
  refine (requests_served_iff (by decide +kernel) (by decide +kernel)).mpr ?_
  intro pre post heq
  have hsplits : ∀ n < 4, (pageAndLogin.take (2 - (3 - n))).flatten.length ≤
      ((pageThenLogin.take n).map Prod.fst).flatten.length := by decide +kernel
  have hlength : 3 = pre.length + post.length := by
    rw [← List.length_append, ← heq]
    rfl
  have hpre := hsplits pre.length (by omega)
  rw [heq, List.take_left, show 3 - pre.length = post.length by omega] at hpre
  exact hpre

/-- Both arrive in one piece. -/
def pageWithLogin : List (Bytes × Bool) :=
  [(ascii "GET /entry HTTP/1.1\r\n\r\nPOST /login HTTP/1.1\r\nContent-Length: 6\r\n\r\nsecret",
    false)]

theorem login_ignored_in_pageWithLogin :
    (∀ message ∈ pageAndLogin, WellFormed message (parsed message) ∧
        validateUpgradeRequest (parsed message) = false) ∧
      (pageWithLogin.map Prod.fst).flatten = pageAndLogin.flatten ∧
      requests (Runs.run deliver .create pageWithLogin) =
        [parsed (ascii "GET /entry HTTP/1.1\r\n\r\n")] ∧
      ¬ List.Forall₂ Shows (pageAndLogin.map parsed)
        (requests (Runs.run deliver .create pageWithLogin)) := by
  have hone : (requests (Runs.run deliver .create pageWithLogin)).length = 1 := by decide +kernel
  refine ⟨by decide +kernel, by decide +kernel, by decide +kernel, fun hall ↦ ?_⟩
  have htwo := hall.length_eq
  rw [hone] at htwo
  exact absurd htwo (by decide)

end HttpServer

end HttpRaftKv.Http
