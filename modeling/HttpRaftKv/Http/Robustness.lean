import HttpRaftKv.Http.HttpServer
import HttpRaftKv.Http.Parsing
import HttpRaftKv.Lib.Runs

/-!
# Bytes that stop the server

A request line with a known method that is wrong behind the method leaves the
method in the request and the line in the buffer.  The connection can still
deliver bytes, and the next ones make the parser read the same line again, where
the assertion about the method fails.  No other bytes stop the server.
-/

namespace HttpRaftKv.Http

/-- The line starts with a known method and a blank, and what follows is not a
target with a known version. -/
def BadRequestLine (line : Bytes) : Prop :=
  ∃ m rest, line = m ++ 32 :: rest ∧ 32 ∉ m ∧ HttpRequest.methodOf m ≠ .invalid ∧
    ¬ ∃ target version, rest = target ++ 32 :: version ∧ 32 ∉ target ∧
      (version = ascii "HTTP/1.1" ∨ version = ascii "HTTP/1.0")

/-- Bytes with a separator are what stands before the first one and behind it. -/
theorem exists_eq_append_of_mem {line : Bytes} {b : UInt8} (h : b ∈ line) :
    ∃ m rest, line = m ++ b :: rest ∧ b ∉ m := by
  obtain ⟨m, rest, rfl, hm⟩ := List.eq_append_cons_of_mem h
  exact ⟨m, rest, rfl, hm⟩

namespace HttpContext

theorem exists_eq_concat {version : Bytes} {n : ℕ} (hlength : version.length = n + 1)
    {start : Bytes} (hstart : version.take n = start) : ∃ last, version = start ++ [last] := by
  obtain ⟨last, hlast⟩ : ∃ last, version.drop n = [last] :=
    List.length_eq_one_iff.mp (by rw [List.length_drop, hlength]; omega)
  exact ⟨last, by rw [← hstart, ← hlast, List.take_append_drop]⟩

theorem processVersion_fst (r : HttpRequest) (version : Bytes) :
    (processVersion r version).1 = true ↔
      version = ascii "HTTP/1.1" ∨ version = ascii "HTTP/1.0" := by
  unfold processVersion
  constructor
  · intro h
    split_ifs at h with hversion hone hzero
    · obtain ⟨last, rfl⟩ := exists_eq_concat hversion.1 hversion.2
      rw [List.getLast?_concat] at hone
      cases hone
      exact .inl rfl
    · obtain ⟨last, rfl⟩ := exists_eq_concat hversion.1 hversion.2
      rw [List.getLast?_concat] at hzero
      cases hzero
      exact .inr rfl
  · rintro (rfl | rfl)
    · rfl
    · rfl

theorem processVersion_method (r : HttpRequest) (version : Bytes) :
    (processVersion r version).2.method = r.method := by
  unfold processVersion
  split_ifs
  · rfl
  · rfl
  · rfl
  · rfl

theorem processTarget_method (r : HttpRequest) (line : Bytes) :
    (processTarget r line).2.method = r.method := by
  unfold processTarget
  split_ifs
  · simp only [processVersion_method]
    split_ifs
    · rfl
    · rfl
  · rfl

theorem processTarget_fst (r : HttpRequest) (rest : Bytes) :
    (processTarget r rest).1 = true ↔ ∃ target version, rest = target ++ 32 :: version ∧
      32 ∉ target ∧ (version = ascii "HTTP/1.1" ∨ version = ascii "HTTP/1.0") := by
  unfold processTarget
  by_cases hmem : 32 ∈ rest
  · obtain ⟨target, version, rfl, htarget⟩ := exists_eq_append_of_mem hmem
    obtain ⟨-, hdrop⟩ := takeWhile_ne_append htarget version
    simp only [if_pos hmem, processVersion_fst, hdrop, List.tail_cons]
    constructor
    · exact fun hversion ↦ ⟨target, version, rfl, htarget, hversion⟩
    · rintro ⟨target', version', heq, htarget', hversion⟩
      have hdrop' := (takeWhile_ne_append htarget' version').2
      rw [← heq, hdrop] at hdrop'
      cases hdrop'
      exact hversion
  · rw [if_neg hmem]
    refine ⟨fun h ↦ absurd h Bool.false_ne_true, ?_⟩
    rintro ⟨target, version, rfl, -⟩
    exact absurd (by simp) hmem

/-- What `processRequestLine` does with a request that has no method yet. -/
theorem processRequestLine_cases {r : HttpRequest} (hr : r.method = .invalid) (line : Bytes) :
    ∃ ok r', processRequestLine r line = some (ok, r') ∧
      (BadRequestLine line ↔ ok = false ∧ r'.method ≠ .invalid) ∧
      (ok = true → r'.method ≠ .invalid) := by
  unfold processRequestLine
  by_cases hmem : 32 ∈ line
  · obtain ⟨m, rest, rfl, hm⟩ := exists_eq_append_of_mem hmem
    obtain ⟨htake, hdrop⟩ := takeWhile_ne_append hm rest
    have hbad : BadRequestLine (m ++ 32 :: rest) ↔ HttpRequest.methodOf m ≠ .invalid ∧
        ¬ ∃ target version, rest = target ++ 32 :: version ∧ 32 ∉ target ∧
          (version = ascii "HTTP/1.1" ∨ version = ascii "HTTP/1.0") := by
      constructor
      · rintro ⟨m', rest', heq, hm', hmethod, hnot⟩
        obtain ⟨htake', hdrop'⟩ := takeWhile_ne_append hm' rest'
        rw [← heq] at htake' hdrop'
        rw [htake] at htake'
        rw [hdrop] at hdrop'
        cases hdrop'
        cases htake'
        exact ⟨hmethod, hnot⟩
      · exact fun ⟨hmethod, hnot⟩ ↦ ⟨m, rest, rfl, hm, hmethod, hnot⟩
    rw [if_pos hmem, htake, hdrop, HttpRequest.setMethod, if_neg (by simp [hr]), hbad,
      List.tail_cons]
    by_cases hmethod : HttpRequest.methodOf m = .invalid
    · refine ⟨false, { r with method := HttpRequest.methodOf m }, ?_, ?_, ?_⟩
      · simp [hmethod]
      · simp [hmethod]
      · simp
    · have hkept := processTarget_method { r with method := HttpRequest.methodOf m } rest
      refine ⟨(processTarget { r with method := HttpRequest.methodOf m } rest).1,
        (processTarget { r with method := HttpRequest.methodOf m } rest).2, by simp [hmethod], ?_,
        fun _ ↦ ?_⟩
      · rw [hkept, ← processTarget_fst { r with method := HttpRequest.methodOf m } rest,
          Bool.not_eq_true]
        exact and_comm
      · rw [hkept]
        exact hmethod
  · rw [if_neg hmem]
    refine ⟨false, r, rfl, ?_, by simp⟩
    constructor
    · rintro ⟨m, rest, rfl, -⟩
      exact absurd (by simp) hmem
    · exact fun h ↦ absurd hr h.2

/-! ## Calls of the parser -/

/-- The parser has got past the request line, and has neither thrown in a complete
request nor been aborted. -/
def Outcome.Behind : Outcome → Prop
  | .returned ok c _ => c.state ≠ .expectRequestLine ∧ (c.state = .gotAll → ok = true)
  | .thrown c _ => c.state ≠ .expectRequestLine ∧ c.state ≠ .gotAll
  | .aborted => False

theorem behind_ends {c : HttpContext} (hstate : c.state ≠ .gotAll)
    (hline : c.state ≠ .expectRequestLine) {buf : Bytes} {outcome : Outcome}
    (hround : c.round buf = .ends outcome) : outcome.Behind := by
  have hreads := reads_round c buf
  rw [hround] at hreads
  cases hreads with
  | waits => exact ⟨hline, fun h ↦ absurd h hstate⟩
  | badLine _ _ _ h => exact absurd h hline
  | aborts _ _ h => exact absurd h hline
  | badHeader => exact ⟨hline, fun h ↦ absurd h hstate⟩
  | noBody => exact ⟨by simp, fun _ ↦ rfl⟩
  | throws => exact ⟨hline, hstate⟩
  | emptyBody => exact ⟨by simp, fun _ ↦ rfl⟩
  | body => exact ⟨by simp, fun _ ↦ rfl⟩

theorem behind_again {c c' : HttpContext} (hline : c.state ≠ .expectRequestLine)
    {buf buf' : Bytes} (hround : c.round buf = .again c' buf') :
    c'.state ≠ .expectRequestLine := by
  have hreads := reads_round c buf
  rw [hround] at hreads
  cases hreads with
  | requestLine _ _ _ h => exact absurd h hline
  | header => exact hline
  | someBody => simp
  | spins => exact hline

/-- Behind the request line the parser always ends without an assertion that
fails. -/
theorem parseRequest_behind {c : HttpContext} (hstate : c.state ≠ .gotAll)
    (hline : c.state ≠ .expectRequestLine) (buf : Bytes) :
    ∃ outcome, c.parseRequest buf = some outcome ∧ outcome.Behind := by
  refine parseRequest_induction (P := fun c _ result ↦ c.state ≠ .expectRequestLine →
    ∃ outcome, result = some outcome ∧ outcome.Behind) ?_ ?_ hstate buf hline
  · intro c buf outcome hstate hround hline
    exact ⟨outcome, rfl, behind_ends hstate hline hround⟩
  · intro c buf c' buf' hstate hround ih hline
    exact ih (behind_again hline hround)

/-- The parser can be called: no request is complete, and there is no method where
the request line is still to come. -/
def Calm (c : HttpContext) : Prop :=
  c.state ≠ .gotAll ∧ (c.state = .expectRequestLine → c.request.method = .invalid)

/-- The request line is still to come, and the bytes have a bad one at the front. -/
def MeetsBadLine (c : HttpContext) (buf : Bytes) : Prop :=
  c.state = .expectRequestLine ∧ ∃ line rest, splitCRLF buf = some (line, rest) ∧
    BadRequestLine line

/-- A call from a calm state leaves a calm state or a complete request, or it has
met a bad line and leaves it. -/
theorem Calm.parseRequest {c : HttpContext} (h : c.Calm) (buf : Bytes) :
    ∃ outcome, c.parseRequest buf = some outcome ∧
      ((∃ r, r.method ≠ .invalid ∧ c.MeetsBadLine buf ∧
          outcome = .returned false ⟨.expectRequestLine, r⟩ buf) ∨
        (¬ c.MeetsBadLine buf ∧
          ((∃ ok c' buf', outcome = .returned ok c' buf' ∧
              (c'.Calm ∨ ok = true ∧ c'.state = .gotAll)) ∨
            ∃ c' buf', outcome = .thrown c' buf' ∧ c'.Calm))) := by
  have hbehind : ∀ {outcome : Outcome}, outcome.Behind →
      (∃ ok c' buf', outcome = .returned ok c' buf' ∧
          (c'.Calm ∨ ok = true ∧ c'.state = .gotAll)) ∨
        ∃ c' buf', outcome = .thrown c' buf' ∧ c'.Calm := by
    intro outcome hbehind
    cases outcome with
    | returned ok c' buf' =>
        refine .inl ⟨ok, c', buf', rfl, ?_⟩
        by_cases hgot : c'.state = .gotAll
        · exact .inr ⟨hbehind.2 hgot, hgot⟩
        · exact .inl ⟨hgot, fun hline ↦ absurd hline hbehind.1⟩
    | thrown c' buf' =>
        exact .inr ⟨c', buf', rfl, hbehind.2, fun hline ↦ absurd hline hbehind.1⟩
    | aborted => exact hbehind.elim
  by_cases hline : c.state = .expectRequestLine
  · cases hsplit : splitCRLF buf with
    | none =>
        have hround : c.round buf = .ends (.returned true c buf) := by
          simp [round, hline, expectsRequestLine, hsplit]
        refine ⟨_, parseRequest_ends hround, .inr ⟨?_, .inl ⟨_, _, _, rfl, .inl h⟩⟩⟩
        rintro ⟨-, line, rest, heq, -⟩
        rw [hsplit] at heq
        cases heq
    | some split =>
        obtain ⟨line, rest⟩ := split
        have hmeets : c.MeetsBadLine buf ↔ BadRequestLine line := by
          constructor
          · rintro ⟨-, line', rest', heq, hbad⟩
            rw [hsplit] at heq
            cases heq
            exact hbad
          · exact fun hbad ↦ ⟨hline, line, rest, hsplit, hbad⟩
        obtain ⟨ok, r, hprocess, hbad, hok⟩ := processRequestLine_cases (h.2 hline) line
        rw [hmeets, hbad]
        cases ok with
        | true =>
            have hround : c.round buf = .again ⟨.expectHeaders, r⟩ rest := by
              simp [round, hline, expectsRequestLine, hsplit, hprocess]
            obtain ⟨outcome, hparse, hout⟩ := parseRequest_behind
              (c := ⟨.expectHeaders, r⟩) (by simp) (by simp) rest
            rw [parseRequest_again h.1 hround]
            exact ⟨outcome, hparse, .inr ⟨by simp, hbehind hout⟩⟩
        | false =>
            have hround : c.round buf = .ends (.returned false ⟨.expectRequestLine, r⟩ buf) := by
              simp [round, hline, expectsRequestLine, hsplit, hprocess]
            refine ⟨_, parseRequest_ends hround, ?_⟩
            by_cases hmethod : r.method = .invalid
            · exact .inr ⟨by simp [hmethod], .inl ⟨_, _, _, rfl, .inl ⟨by simp, fun _ ↦ hmethod⟩⟩⟩
            · exact .inl ⟨r, hmethod, ⟨rfl, hmethod⟩, rfl⟩
  · obtain ⟨outcome, hparse, hout⟩ := parseRequest_behind h.1 hline buf
    exact ⟨outcome, hparse, .inr ⟨fun hmeets ↦ hline hmeets.1, hbehind hout⟩⟩

end HttpContext

/-! ## The connection -/

namespace HttpServer

open WebSocketServer

theorem frameLoop_keeps (size : ℕ) (c : Connection) :
    (frameLoop size c).context = c.context ∧ (frameLoop size c).status = c.status := by
  induction size generalizing c with
  | zero => exact ⟨rfl, rfl⟩
  | succ size ih =>
      unfold frameLoop
      split_ifs
      · exact ⟨rfl, rfl⟩
      · split
        · exact ⟨rfl, rfl⟩
        · exact ⟨rfl, rfl⟩
        · split_ifs
          · exact ⟨rfl, rfl⟩
          · exact ih _

theorem processFrame_keeps (c : Connection) :
    (processFrame c).context = c.context ∧ (processFrame c).status = c.status := by
  unfold processFrame
  split_ifs
  · exact frameLoop_keeps _ c
  · exact ⟨rfl, rfl⟩

theorem processRest_keeps (c : Connection) :
    (processRest c).context = c.context ∧ (processRest c).status = c.status := by
  unfold processRest
  split_ifs
  · exact processFrame_keeps c
  · exact ⟨rfl, rfl⟩

theorem onRequest_keeps (c : Connection) (upgrade : Bool) :
    (onRequest c upgrade).context = c.context ∧ (onRequest c upgrade).status = c.status ∧
      (onRequest c upgrade).buf = c.buf := by
  unfold onRequest handleUpgrade
  simp only
  split_ifs
  · exact ⟨rfl, rfl, rfl⟩
  · exact ⟨rfl, rfl, rfl⟩
  · exact ⟨rfl, rfl, rfl⟩

/-- The server runs and its parser can be called. -/
def Calm (c : Connection) : Prop :=
  c.status = .running ∧ c.context.Calm

/-- The parser will read the same line again, with the method already set. -/
def Stuck (c : Connection) : Prop :=
  c.status = .running ∧ isWebSocket c = false ∧ c.context.state = .expectRequestLine ∧
    c.context.request.method ≠ .invalid ∧ ∃ line rest, splitCRLF c.buf = some (line, rest) ∧ 32 ∈ line

/-- The piece completes a bad request line. -/
def MeetsBadLine (c : Connection) (chunk : Bytes) : Prop :=
  isWebSocket c = false ∧ c.context.MeetsBadLine (c.buf ++ chunk)

theorem calm_reset (context : HttpContext) : context.reset.Calm :=
  ⟨by simp [HttpContext.reset], fun _ ↦ rfl⟩

/-- A complete request leaves the parser calm, whatever follows it. -/
theorem afterParse_gotAll {c : Connection} (hc : c.status = .running) (upgrade : Bool)
    {context : HttpContext} (hgot : context.state = .gotAll) (buf : Bytes) :
    Calm (afterParse c upgrade (some (.returned true context buf))) := by
  obtain ⟨hcontext, hstatus, -⟩ := onRequest_keeps { c with context := context, buf := buf } upgrade
  unfold afterParse
  simp only [if_pos hgot, hcontext]
  obtain ⟨hcontext', hstatus'⟩ := processRest_keeps
    { onRequest { c with context := context, buf := buf } upgrade with context := context.reset }
  refine ⟨hstatus'.trans (hstatus.trans hc), ?_⟩
  rw [hcontext']
  exact calm_reset context

theorem calm_afterParse {c : Connection} (hc : c.status = .running) (upgrade : Bool)
    {outcome : HttpContext.Outcome}
    (h : (∃ ok c' buf', outcome = .returned ok c' buf' ∧
        (c'.Calm ∨ ok = true ∧ c'.state = .gotAll)) ∨
      ∃ c' buf', outcome = .thrown c' buf' ∧ c'.Calm) :
    Calm (afterParse c upgrade (some outcome)) := by
  rcases h with ⟨ok, context, buf, rfl, hcontext | ⟨rfl, hgot⟩⟩ | ⟨context, buf, rfl, hcontext⟩
  · cases ok with
    | true =>
        unfold afterParse
        simp only [if_neg hcontext.1]
        exact ⟨hc, hcontext⟩
    | false => exact ⟨hc, hcontext⟩
  · exact afterParse_gotAll hc upgrade hgot buf
  · exact ⟨hc, hcontext⟩

/-- What a piece does from a calm state. -/
theorem Calm.onMessage {c : Connection} (h : Calm c) (chunk : Bytes) (upgrade : Bool) :
    (MeetsBadLine c chunk ∧ Stuck (onMessage c chunk upgrade)) ∨
      (¬ MeetsBadLine c chunk ∧ Calm (onMessage c chunk upgrade)) := by
  unfold HttpServer.onMessage MeetsBadLine
  by_cases hbuf : c.buf ++ chunk = []
  · simp only [hbuf, if_true]
    refine .inr ⟨?_, h⟩
    rintro ⟨-, -, line, rest, hsplit, -⟩
    cases hsplit
  · simp only [if_neg hbuf]
    cases hws : isWebSocket c with
    | true =>
        have hws' : isWebSocket { c with buf := c.buf ++ chunk } = true := hws
        obtain ⟨hcontext, hstatus⟩ := processFrame_keeps { c with buf := c.buf ++ chunk }
        rw [if_pos hws']
        refine .inr ⟨by simp, hstatus.trans h.1, ?_⟩
        rw [hcontext]
        exact h.2
    | false =>
        have hws' : isWebSocket { c with buf := c.buf ++ chunk } = false := hws
        rw [if_neg (by simp [hws'])]
        generalize hd : { c with buf := c.buf ++ chunk }.did [.parse (c.buf ++ chunk)] = d
        have hstatus : d.status = .running := by
          rw [← hd]
          exact h.1
        have hwebSocket : isWebSocket d = false := by
          rw [← hd]
          exact hws
        obtain ⟨outcome, hparse, ⟨r, hmethod, hmeets, rfl⟩ | ⟨hmeets, hcalm⟩⟩ :=
          h.2.parseRequest (c.buf ++ chunk)
        · rw [hparse]
          refine .inl ⟨⟨rfl, hmeets⟩, hstatus, hwebSocket, rfl, hmethod, ?_⟩
          obtain ⟨-, line, rest, hsplit, m, rest', rfl, -⟩ := hmeets
          exact ⟨_, rest, hsplit, by simp⟩
        · rw [hparse]
          exact .inr ⟨fun hbad ↦ hmeets hbad.2, calm_afterParse hstatus upgrade hcalm⟩

/-- Whatever comes next, the assertion fails. -/
theorem Stuck.onMessage {c : Connection} (h : Stuck c) (chunk : Bytes) (upgrade : Bool) :
    (onMessage c chunk upgrade).status = .aborted := by
  obtain ⟨-, hws, hline, hmethod, line, rest, hsplit, hmem⟩ := h
  have hsplit' := splitCRLF_append hsplit chunk
  have hbuf : c.buf ++ chunk ≠ [] := by
    intro hnil
    rw [hnil] at hsplit'
    cases hsplit'
  have hws' : isWebSocket { c with buf := c.buf ++ chunk } = false := hws
  have hround : c.context.round (c.buf ++ chunk) = .ends .aborted := by
    simp [HttpContext.round, hline, HttpContext.expectsRequestLine, hsplit',
      HttpContext.processRequestLine, hmem, HttpRequest.setMethod, hmethod]
  unfold HttpServer.onMessage
  simp only [if_neg hbuf]
  rw [if_neg (by simp [hws']), HttpContext.parseRequest_ends hround]
  rfl

def Harmless (c : Connection) (chunk : Bytes × Bool) : Prop :=
  ¬ MeetsBadLine c chunk.1

theorem Calm.deliver_iff {c : Connection} (h : Calm c) (chunk : Bytes × Bool) :
    Calm (deliver c chunk) ↔ Harmless c chunk := by
  rw [deliver_of_running h.1]
  rcases h.onMessage chunk.1 chunk.2 with ⟨hmeets, hstuck⟩ | ⟨hmeets, hcalm⟩
  · exact iff_of_false (fun hcalm ↦ hstuck.2.2.2.1 (hcalm.2.2 hstuck.2.2.1)) (not_not.mpr hmeets)
  · exact iff_of_true hcalm hmeets

theorem Calm.deliver_running {c : Connection} (h : Calm c) (chunk : Bytes × Bool) :
    (deliver c chunk).status = .running := by
  rw [deliver_of_running h.1]
  rcases h.onMessage chunk.1 chunk.2 with ⟨-, hstuck⟩ | ⟨-, hcalm⟩
  · exact hstuck.1
  · exact hcalm.1

/-- A server that still runs after the next piece has not been stuck. -/
theorem Calm.calm_of_next {c : Connection} (h : Calm c) {chunk next : Bytes × Bool}
    (hnext : (deliver (deliver c chunk) next).status = .running) : Calm (deliver c chunk) := by
  rw [deliver_of_running h.1] at hnext ⊢
  rcases h.onMessage chunk.1 chunk.2 with ⟨-, hstuck⟩ | ⟨-, hcalm⟩
  · rw [deliver_of_running hstuck.1, hstuck.onMessage] at hnext
    cases hnext
  · exact hcalm

theorem calm_create : Calm .create :=
  ⟨rfl, by simp [Connection.create, HttpContext.create], fun _ ↦ rfl⟩

/-- The server still runs after every piece exactly if it was calm before the last
one. -/
theorem running_iff_calm (chunks : List (Bytes × Bool)) (chunk : Bytes × Bool) :
    (∀ past, past <+: chunks ++ [chunk] → (Runs.run deliver .create past).status = .running) ↔
      ∀ past, past <+: chunks → Calm (Runs.run deliver .create past) := by
  constructor
  · intro h past hpast
    induction past using List.reverseRecOn with
    | nil => exact calm_create
    | append_singleton past a ih =>
        obtain ⟨rest, hrest⟩ := hpast
        -- Behind the piece there is one more, with which the server still runs.
        obtain ⟨next, hnext⟩ : ∃ next, past ++ [a] ++ [next] <+: chunks ++ [chunk] := by
          cases rest with
          | nil => exact ⟨chunk, [], by rw [← hrest]; simp⟩
          | cons next rest => exact ⟨next, rest ++ [chunk], by rw [← hrest]; simp⟩
        have hcalm := ih ⟨[a] ++ rest, by rw [← hrest]; simp⟩
        have hrunning := h _ hnext
        rw [Runs.run_snoc, Runs.run_snoc] at hrunning
        rw [Runs.run_snoc]
        exact hcalm.calm_of_next hrunning
  · intro h past hpast
    rcases List.prefix_concat_iff.mp hpast with rfl | hpast
    · rw [Runs.run_snoc]
      exact (h chunks List.prefix_rfl).deliver_running chunk
    · exact (h past hpast).1

/-- Whatever pieces arrive, the parser ends on every one of them and no assertion
fails exactly if no piece follows one that completes a bad request line. -/
theorem keeps_running_iff (chunks : List (Bytes × Bool)) :
    (∀ past, past <+: chunks → (Runs.run deliver .create past).status = .running) ↔
      ∀ past chunk next, past ++ [chunk] ++ [next] <+: chunks →
        ¬ MeetsBadLine (Runs.run deliver .create past) chunk.1 := by
  rcases List.eq_nil_or_concat chunks with rfl | ⟨chunks, last, rfl⟩
  · constructor
    · rintro - past chunk next hprefix
      have hlength := hprefix.length_le
      simp at hlength
    · intro _ past hpast
      rw [List.prefix_nil.mp hpast]
      rfl
  · rw [List.concat_eq_append, running_iff_calm,
      Runs.invariant_iff_along (P := fun _ c ↦ Calm c) deliver calm_create
        fun past chunk h ↦ h.deliver_iff chunk, Runs.along_iff_isPrefix]
    constructor
    · intro h past chunk next hprefix
      refine h past chunk ?_
      rcases Runs.snoc_isPrefix_snoc.mp hprefix with ⟨heq, -⟩ | hprefix
      · exact heq ▸ List.prefix_rfl
      · exact (List.prefix_append _ _).trans hprefix
    · rintro h past chunk ⟨rest, hrest⟩
      cases rest with
      | nil => exact h past chunk last ⟨[], by rw [← hrest]; simp⟩
      | cons next rest => exact h past chunk next ⟨rest ++ [last], by rw [← hrest]; simp⟩

/-- A request for another version of the protocol, and one more byte. -/
def wrongVersion : List (Bytes × Bool) :=
  [(ascii "GET / HTTP/2.0\r\n\r\n", false), (ascii "x", false)]

theorem aborted_by_wrongVersion :
    ¬ ∀ past, past <+: wrongVersion → (Runs.run deliver .create past).status = .running := by
  intro h
  have haborted : (Runs.run deliver .create wrongVersion).status = .aborted := by decide +kernel
  rw [h _ List.prefix_rfl] at haborted
  cases haborted

end HttpServer

end HttpRaftKv.Http
