import HttpRaftKv.Http.KeepAlive
import HttpRaftKv.Http.Robustness

/-!
# The version of a request

The callback gets only requests whose version is one of the two that the parser
knows.
-/

namespace HttpRaftKv.Http

def HttpRequest.HasVersion (r : HttpRequest) : Prop :=
  r.version = ascii "HTTP/1.1" ∨ r.version = ascii "HTTP/1.0"

namespace HttpContext

theorem hasVersion_processVersion {r : HttpRequest} {version : Bytes}
    (h : (processVersion r version).1 = true) : (processVersion r version).2.HasVersion := by
  unfold processVersion at *
  split_ifs at h ⊢
  · exact .inl rfl
  · exact .inr rfl

theorem hasVersion_processTarget {r : HttpRequest} {line : Bytes}
    (h : (processTarget r line).1 = true) : (processTarget r line).2.HasVersion := by
  unfold processTarget at *
  by_cases hmem : 32 ∈ line
  · rw [if_pos hmem] at h ⊢
    exact hasVersion_processVersion h
  · rw [if_neg hmem] at h
    cases h

theorem hasVersion_processRequestLine {r r' : HttpRequest} {line : Bytes}
    (h : processRequestLine r line = some (true, r')) : r'.HasVersion := by
  unfold processRequestLine at h
  by_cases hmem : 32 ∈ line
  · rw [if_pos hmem] at h
    obtain ⟨result, -, hresult⟩ := Option.map_eq_some_iff.mp h
    by_cases hok : result.1 = true
    · rw [if_pos hok] at hresult
      have hversion := hasVersion_processTarget (congrArg Prod.fst hresult)
      rwa [hresult] at hversion
    · rw [if_neg hok] at hresult
      exact absurd (congrArg Prod.fst hresult) hok
  · rw [if_neg hmem] at h
    cases h

/-- Behind the request line the version is known. -/
def Versioned (c : HttpContext) : Prop :=
  c.state ≠ .expectRequestLine → c.request.HasVersion

def Outcome.Versioned : Outcome → Prop
  | .returned _ c _ => c.Versioned
  | .thrown c _ => c.Versioned
  | .aborted => True

theorem Versioned.ends {c : HttpContext} (h : c.Versioned) {buf : Bytes} {outcome : Outcome}
    (hround : c.round buf = .ends outcome) : outcome.Versioned := by
  have hreads := reads_round c buf
  rw [hround] at hreads
  cases hreads with
  | waits => exact h
  | badLine line rest r hline => exact fun hstate ↦ absurd hline hstate
  | aborts => trivial
  | badHeader => exact h
  | noBody rest hheaders => exact fun _ ↦ h (by simp [hheaders])
  | throws => exact h
  | emptyBody rest length hheaders => exact fun _ ↦ h (by simp [hheaders])
  | body hbody => exact fun _ ↦ h (by simp [hbody])

theorem Versioned.again {c c' : HttpContext} (h : c.Versioned) {buf buf' : Bytes}
    (hround : c.round buf = .again c' buf') : c'.Versioned := by
  have hreads := reads_round c buf
  rw [hround] at hreads
  cases hreads with
  | requestLine line rest r _ _ hprocess => exact fun _ ↦ hasVersion_processRequestLine hprocess
  | header line rest hheaders => exact fun _ ↦ h (by simp [hheaders])
  | someBody rest length hheaders => exact fun _ ↦ h (by simp [hheaders])
  | spins => exact h

theorem Versioned.parseRequest {c : HttpContext} (h : c.Versioned) {buf : Bytes}
    {outcome : Outcome} (hparse : c.parseRequest buf = some outcome) : outcome.Versioned := by
  have hstate : c.state ≠ .gotAll :=
    (exists_parseLoop_iff c buf).mp ⟨buf.length + 1, outcome, hparse⟩
  refine parseRequest_induction (P := fun c _ result ↦
    c.Versioned → ∀ outcome, result = some outcome → outcome.Versioned)
    ?_ ?_ hstate buf h outcome hparse
  · intro c buf outcome _ hround h outcome' heq
    cases heq
    exact h.ends hround
  · intro c buf c' buf' _ hround ih h
    exact ih (h.again hround)

end HttpContext

namespace HttpServer

open WebSocketServer

theorem request_mem_frameLoop {r : HttpRequest} {size : ℕ} {c : Connection}
    (h : .request r ∈ (frameLoop size c).trace) : .request r ∈ c.trace := by
  have hframe : ∀ frame, .request r ∉ frameEffects frame := by
    intro frame hmem
    unfold frameEffects at hmem
    split at hmem <;> simp at hmem
  induction size generalizing c with
  | zero => exact h
  | succ size ih =>
      unfold frameLoop at h
      split_ifs at h with hbuf
      · exact h
      · split at h
        · exact h
        · simpa [Connection.did] using h
        · next frame _ =>
            have hreceive : .request r ∈ (receive c frame).trace → .request r ∈ c.trace :=
              fun hmem ↦ (List.mem_append.mp hmem).resolve_right (hframe frame)
            split_ifs at h with hclose
            · exact hreceive h
            · exact hreceive (ih h)

theorem request_mem_processFrame {r : HttpRequest} {c : Connection}
    (h : .request r ∈ (processFrame c).trace) : .request r ∈ c.trace := by
  unfold processFrame at h
  split_ifs at h
  · exact request_mem_frameLoop h
  · exact h

theorem request_mem_processRest {r : HttpRequest} {c : Connection}
    (h : .request r ∈ (processRest c).trace) : .request r ∈ c.trace := by
  unfold processRest at h
  split_ifs at h
  · exact request_mem_processFrame h
  · exact h

theorem request_mem_onRequest {r : HttpRequest} {c : Connection} {upgrade : Bool}
    (h : .request r ∈ (onRequest c upgrade).trace) :
    .request r ∈ c.trace ∨ r = c.context.request := by
  unfold onRequest handleUpgrade at h
  simp only at h
  split_ifs at h <;> simpa [Connection.did] using h

/-- The parser and the requests that the callback has got know their versions. -/
structure Versioned (c : Connection) : Prop where
  context : c.context.Versioned
  requests : ∀ r, .request r ∈ c.trace → r.HasVersion

theorem versioned_create : Versioned .create where
  context := fun h ↦ absurd rfl h
  requests := fun _ h ↦ absurd h List.not_mem_nil

theorem Versioned.afterParse {c : Connection} (h : Versioned c) (upgrade : Bool)
    {result : Option HttpContext.Outcome}
    (hresult : ∀ outcome, result = some outcome → outcome.Versioned) :
    Versioned (afterParse c upgrade result) := by
  have hbad : ∀ context buf, context.Versioned →
      Versioned ({ c with context := context, buf := buf }.did [.badRequest]) :=
    fun context buf hcontext ↦ ⟨hcontext, fun r hr ↦ h.requests r (by simpa [Connection.did] using hr)⟩
  cases result with
  | none => exact ⟨h.context, h.requests⟩
  | some outcome =>
      have houtcome := hresult outcome rfl
      cases outcome with
      | aborted => exact ⟨h.context, h.requests⟩
      | thrown context buf => exact hbad context buf houtcome
      | returned ok context buf =>
          cases ok with
          | false => exact hbad context buf houtcome
          | true =>
              by_cases hgot : context.state = .gotAll
              · unfold HttpServer.afterParse
                simp only [if_pos hgot]
                refine ⟨?_, fun r hr ↦ ?_⟩
                · rw [(processRest_keeps _).1]
                  exact fun hstate ↦ absurd rfl hstate
                · have hcalled := request_mem_processRest hr
                  rcases request_mem_onRequest hcalled with hpast | rfl
                  · exact h.requests r hpast
                  · exact houtcome (by simp [hgot])
              · rw [afterParse_waits c upgrade hgot]
                exact ⟨houtcome, h.requests⟩

theorem Versioned.onMessage {c : Connection} (h : Versioned c) (chunk : Bytes) (upgrade : Bool) :
    Versioned (onMessage c chunk upgrade) := by
  unfold HttpServer.onMessage
  simp only
  split_ifs with hbuf hws
  · exact ⟨h.context, h.requests⟩
  · refine ⟨?_, fun r hr ↦ ?_⟩
    · rw [(processFrame_keeps _).1]
      exact h.context
    · have hpast := request_mem_processFrame hr
      exact h.requests r hpast
  · have hcalled : Versioned ({ c with buf := c.buf ++ chunk }.did [.parse (c.buf ++ chunk)]) :=
      ⟨h.context, fun r hr ↦ h.requests r (by simpa [Connection.did] using hr)⟩
    exact hcalled.afterParse upgrade fun outcome hparse ↦ h.context.parseRequest hparse

theorem Versioned.deliver {c : Connection} (h : Versioned c) (chunk : Bytes × Bool) :
    Versioned (deliver c chunk) := by
  unfold HttpServer.deliver step
  split_ifs
  · exact h
  · exact h.onMessage chunk.1 chunk.2

/-- Whatever arrives, the callback gets no request with another version. -/
theorem hasVersion_of_request {chunks : List (Bytes × Bool)} {r : HttpRequest}
    (h : .request r ∈ (Runs.run deliver .create chunks).trace) : r.HasVersion :=
  (Runs.invariant_of_step deliver (P := fun _ c ↦ Versioned c) versioned_create
    (fun _ chunk h ↦ h.deliver chunk) chunks).requests r h

end HttpServer

end HttpRaftKv.Http
