import HttpRaftKv.Http.HttpContext
import Mathlib.Tactic.SplitIfs

/-!
# How the parser goes through a stream

A call of the parser is a chain of rounds, each of which reads a line or the
body.  What the parser finds in some bytes it also finds if more bytes follow,
and a call that waits for more bytes goes on as one call on all the bytes would
have done.
-/

namespace HttpRaftKv.Http

theorem splitCRLF_eq_some {buf line rest : Bytes} (h : splitCRLF buf = some (line, rest)) :
    buf = line ++ 13 :: 10 :: rest := by
  induction buf generalizing line with
  | nil => cases h
  | cons b buf ih =>
      unfold splitCRLF at h
      split_ifs at h with hcrlf
      · cases h
        cases buf with
        | nil => simp at hcrlf
        | cons b' buf =>
            obtain ⟨rfl, hhead⟩ := hcrlf
            cases hhead
            rfl
      · obtain ⟨⟨line', rest'⟩, hsplit, heq⟩ := Option.map_eq_some_iff.mp h
        cases heq
        rw [ih hsplit, List.cons_append]

theorem splitCRLF_append {buf line rest : Bytes} (h : splitCRLF buf = some (line, rest))
    (more : Bytes) : splitCRLF (buf ++ more) = some (line, rest ++ more) := by
  induction buf generalizing line with
  | nil => cases h
  | cons b buf ih =>
      unfold splitCRLF at h
      rw [List.cons_append]
      unfold splitCRLF
      split_ifs at h with hcrlf
      · cases h
        cases buf with
        | nil => simp at hcrlf
        | cons b' buf => simpa using hcrlf
      · obtain ⟨⟨line', rest'⟩, hsplit, heq⟩ := Option.map_eq_some_iff.mp h
        cases heq
        -- The line goes on, so the rest is not empty and its head stays the head.
        have hne : buf ≠ [] := by
          rintro rfl
          cases hsplit
        obtain ⟨b', buf, rfl⟩ := List.exists_cons_of_ne_nil hne
        rw [List.cons_append, List.head?_cons] at *
        rw [if_neg hcrlf, ih hsplit]
        rfl

theorem splitCRLF_length {buf line rest : Bytes} (h : splitCRLF buf = some (line, rest)) :
    rest.length < buf.length := by
  rw [splitCRLF_eq_some h, List.length_append, List.length_cons, List.length_cons]
  omega

theorem takeWhile_ne_append {m : Bytes} {b : UInt8} (h : b ∉ m) (rest : Bytes) :
    (m ++ b :: rest).takeWhile (· ≠ b) = m ∧ (m ++ b :: rest).dropWhile (· ≠ b) = b :: rest := by
  have hpos : ∀ x ∈ m, decide (x ≠ b) = true := fun x hx ↦ by
    simpa using fun heq : x = b ↦ h (heq ▸ hx)
  rw [List.takeWhile_append_of_pos hpos, List.dropWhile_append_of_pos hpos]
  simp

/-- A line without CR LF ends at the first one behind it. -/
theorem splitCRLF_of_plain {line : Bytes} (h : ¬ [13, 10] <:+: line) (rest : Bytes) :
    splitCRLF (line ++ 13 :: 10 :: rest) = some (line, rest) := by
  induction line with
  | nil => rfl
  | cons b line ih =>
      have hline : ¬ [13, 10] <:+: line := fun hin ↦ h (hin.trans (List.suffix_cons b line).isInfix)
      rw [List.cons_append, splitCRLF, if_neg, ih hline]
      · rfl
      · rintro ⟨rfl, hhead⟩
        cases line with
        | nil => cases hhead
        | cons b' line =>
            cases hhead
            exact h (List.prefix_append [13, 10] line).isInfix

theorem splitCRLF_of_notMem {line : Bytes} (h : 13 ∉ line) (rest : Bytes) :
    splitCRLF (line ++ 13 :: 10 :: rest) = some (line, rest) :=
  splitCRLF_of_plain (fun hin ↦ h (hin.subset List.mem_cons_self)) rest

namespace HttpContext

/-! ## Rounds -/

/-- The request has a body if it has a content length. -/
def TakesBody (r : HttpRequest) : Prop :=
  r.method = .post ∨ r.method = .put

instance (r : HttpRequest) : Decidable (TakesBody r) :=
  inferInstanceAs (Decidable (_ ∨ _))

/-- What a round can do. -/
inductive Reads (c : HttpContext) (buf : Bytes) : Round → Prop
  | waits (hstate : c.state ≠ .gotAll) : Reads c buf (.ends (.returned true c buf))
  | requestLine (line rest : Bytes) (r : HttpRequest) (hstate : c.state = .expectRequestLine)
      (hsplit : splitCRLF buf = some (line, rest))
      (hline : processRequestLine c.request line = some (true, r)) :
      Reads c buf (.again ⟨.expectHeaders, r⟩ rest)
  | badLine (line rest : Bytes) (r : HttpRequest) (hstate : c.state = .expectRequestLine)
      (hsplit : splitCRLF buf = some (line, rest))
      (hline : processRequestLine c.request line = some (false, r)) :
      Reads c buf (.ends (.returned false ⟨c.state, r⟩ buf))
  | aborts (line rest : Bytes) (hstate : c.state = .expectRequestLine)
      (hsplit : splitCRLF buf = some (line, rest))
      (hline : processRequestLine c.request line = none) : Reads c buf (.ends .aborted)
  | header (line rest : Bytes) (hstate : c.state = .expectHeaders)
      (hsplit : splitCRLF buf = some (line, rest)) (hcolon : 58 ∈ line) :
      Reads c buf (.again ⟨c.state, c.request.addHeader (line.takeWhile (· ≠ 58))
        (line.dropWhile (· ≠ 58)).tail⟩ rest)
  | badHeader (line rest : Bytes) (hstate : c.state = .expectHeaders)
      (hsplit : splitCRLF buf = some (line, rest)) :
      Reads c buf (.ends (.returned false c rest))
  | noBody (rest : Bytes) (hstate : c.state = .expectHeaders)
      (hsplit : splitCRLF buf = some ([], rest)) (hmethod : ¬ TakesBody c.request) :
      Reads c buf (.ends (.returned true ⟨.gotAll, c.request⟩ rest))
  | throws (hstate : c.state = .expectHeaders) : Reads c buf (.ends (.thrown c buf))
  | emptyBody (rest : Bytes) (length : ℤ) (hstate : c.state = .expectHeaders)
      (hsplit : splitCRLF buf = some ([], rest)) (hmethod : TakesBody c.request)
      (hlength : (c.request.setContentLength length).contentLength = 0) :
      Reads c buf (.ends (.returned true ⟨.gotAll, c.request.setContentLength length⟩ rest))
  | someBody (rest : Bytes) (length : ℤ) (hstate : c.state = .expectHeaders)
      (hsplit : splitCRLF buf = some ([], rest)) (hmethod : TakesBody c.request)
      (hlength : 0 < (c.request.setContentLength length).contentLength) :
      Reads c buf (.again ⟨.expectBody, c.request.setContentLength length⟩ rest)
  | body (hstate : c.state = .expectBody) (hlength : c.request.contentLength ≤ buf.length) :
      Reads c buf (.ends (.returned true
        ⟨.gotAll, c.request.setBody (buf.take c.request.contentLength)⟩
        (buf.drop c.request.contentLength)))
  | spins (hstate : c.state = .gotAll) : Reads c buf (.again c buf)

theorem reads_endsHeaders {c : HttpContext} (hstate : c.state = .expectHeaders) {buf rest : Bytes}
    (hsplit : splitCRLF buf = some ([], rest)) : Reads c buf (c.endsHeaders buf rest) := by
  unfold endsHeaders
  by_cases hmethod : c.request.method = .post ∨ c.request.method = .put
  · rw [if_pos hmethod]
    by_cases hheader : c.request.getHeader (ascii "Content-Length") ≠ []
    · simp only [if_pos hheader]
      cases stoi (c.request.getHeader (ascii "Content-Length")) with
      | none => exact .throws hstate
      | some length =>
          by_cases hlength : 0 < (c.request.setContentLength length).contentLength
          · simp only [if_pos hlength]
            exact .someBody rest length hstate hsplit hmethod hlength
          · simp only [if_neg hlength]
            exact .emptyBody rest length hstate hsplit hmethod (by omega)
    · simp only [if_neg hheader]
      exact .badHeader [] rest hstate hsplit
  · rw [if_neg hmethod]
    exact .noBody rest hstate hsplit hmethod

theorem reads_round (c : HttpContext) (buf : Bytes) : Reads c buf (c.round buf) := by
  unfold round
  cases hstate : c.state with
  | gotAll => exact .spins hstate
  | expectRequestLine =>
      simp only [expectsRequestLine]
      cases hsplit : splitCRLF buf with
      | none => exact .waits (by simp [hstate])
      | some split =>
          simp only
          rcases hline : processRequestLine c.request split.1 with _ | ⟨_ | _, r⟩
          · exact .aborts split.1 split.2 hstate hsplit hline
          · exact .badLine split.1 split.2 r hstate hsplit hline
          · exact .requestLine split.1 split.2 r hstate hsplit hline
  | expectHeaders =>
      simp only [expectsHeaders]
      cases hsplit : splitCRLF buf with
      | none => exact .waits (by simp [hstate])
      | some split =>
          obtain ⟨line, rest⟩ := split
          simp only
          split_ifs with hcolon hline
          · exact .header line rest hstate hsplit hcolon
          · exact reads_endsHeaders hstate (hline ▸ hsplit)
          · exact .badHeader line rest hstate hsplit
  | expectBody =>
      simp only [expectsBody]
      split_ifs with hlength
      · exact .waits (by simp [hstate])
      · exact .body hstate (by omega)

/-- The parser waits for more bytes. -/
def Outcome.Waits : Outcome → Prop
  | .returned true c _ => c.state ≠ .gotAll
  | _ => False

instance : DecidablePred Outcome.Waits
  | .returned true c _ => inferInstanceAs (Decidable (c.state ≠ .gotAll))
  | .returned false _ _ => inferInstanceAs (Decidable False)
  | .thrown _ _ => inferInstanceAs (Decidable False)
  | .aborted => inferInstanceAs (Decidable False)

/-- The outcome with more bytes behind those that are left. -/
def Outcome.append : Outcome → Bytes → Outcome
  | .returned ok c buf, more => .returned ok c (buf ++ more)
  | .thrown c buf, more => .thrown c (buf ++ more)
  | .aborted, _ => .aborted

@[simp] theorem Outcome.append_nil (outcome : Outcome) : outcome.append [] = outcome := by
  cases outcome with
  | returned ok c buf => simp [append]
  | thrown c buf => simp [append]
  | aborted => rfl

/-- What the empty line behind the headers leads to does not depend on the bytes
behind. -/
theorem endsHeaders_cases (c : HttpContext) (buf rest : Bytes) :
    (∃ c' : HttpContext, c'.state ≠ .gotAll ∧
        ∀ more, c.endsHeaders (buf ++ more) (rest ++ more) = .again c' (rest ++ more)) ∨
      ∃ outcome : Outcome, ¬ outcome.Waits ∧
        ∀ more, c.endsHeaders (buf ++ more) (rest ++ more) = .ends (outcome.append more) := by
  unfold endsHeaders
  by_cases hmethod : c.request.method = .post ∨ c.request.method = .put
  · simp only [if_pos hmethod]
    by_cases hheader : c.request.getHeader (ascii "Content-Length") ≠ []
    · simp only [if_pos hheader]
      cases stoi (c.request.getHeader (ascii "Content-Length")) with
      | none => exact .inr ⟨.thrown c buf, id, fun _ ↦ rfl⟩
      | some length =>
          by_cases hlength : 0 < (c.request.setContentLength length).contentLength
          · simp only [if_pos hlength]
            exact .inl ⟨_, by simp, fun _ ↦ rfl⟩
          · simp only [if_neg hlength]
            exact .inr ⟨.returned true ⟨.gotAll, _⟩ rest, by simp [Outcome.Waits], fun _ ↦ rfl⟩
    · simp only [if_neg hheader]
      exact .inr ⟨.returned false c rest, id, fun _ ↦ rfl⟩
  · simp only [if_neg hmethod]
    exact .inr ⟨.returned true ⟨.gotAll, _⟩ rest, by simp [Outcome.Waits], fun _ ↦ rfl⟩

/-- What a round does: it waits, it reads something, or it ends.  What it reads
does not depend on the bytes behind. -/
theorem round_cases {c : HttpContext} (hstate : c.state ≠ .gotAll) (buf : Bytes) :
    c.round buf = .ends (.returned true c buf) ∨
      (∃ c' buf', c'.state ≠ .gotAll ∧ buf'.length < buf.length ∧
        ∀ more, c.round (buf ++ more) = .again c' (buf' ++ more)) ∨
      ∃ outcome : Outcome, ¬ outcome.Waits ∧
        ∀ more, c.round (buf ++ more) = .ends (outcome.append more) := by
  unfold round
  cases hc : c.state with
  | gotAll => exact absurd hc hstate
  | expectRequestLine =>
      simp only [expectsRequestLine]
      cases hsplit : splitCRLF buf with
      | none => exact .inl rfl
      | some split =>
          obtain ⟨line, rest⟩ := split
          right
          simp only [splitCRLF_append hsplit]
          rcases processRequestLine c.request line with _ | ⟨_ | _, r⟩
          · exact .inr ⟨.aborted, id, fun _ ↦ rfl⟩
          · exact .inr ⟨.returned false ⟨c.state, r⟩ buf, id, fun _ ↦ rfl⟩
          · exact .inl ⟨⟨.expectHeaders, r⟩, rest, by simp, splitCRLF_length hsplit, fun _ ↦ rfl⟩
  | expectHeaders =>
      simp only [expectsHeaders]
      cases hsplit : splitCRLF buf with
      | none => exact .inl rfl
      | some split =>
          obtain ⟨line, rest⟩ := split
          right
          simp only [splitCRLF_append hsplit]
          split_ifs
          · refine .inl ⟨⟨c.state, c.request.addHeader (line.takeWhile (· ≠ 58))
              (line.dropWhile (· ≠ 58)).tail⟩, rest, hstate, splitCRLF_length hsplit, fun _ ↦ rfl⟩
          · rcases endsHeaders_cases c buf rest with ⟨c', hc', hagain⟩ | hends
            · exact .inl ⟨c', rest, hc', splitCRLF_length hsplit, hagain⟩
            · exact .inr hends
          · exact .inr ⟨.returned false c rest, id, fun _ ↦ rfl⟩
  | expectBody =>
      simp only [expectsBody]
      by_cases hlength : buf.length < c.request.contentLength
      · rw [if_pos hlength]
        exact .inl rfl
      · refine .inr (.inr ⟨.returned true
          ⟨.gotAll, c.request.setBody (buf.take c.request.contentLength)⟩
          (buf.drop c.request.contentLength), by simp [Outcome.Waits], fun more ↦ ?_⟩)
        rw [not_lt] at hlength
        rw [if_neg (by rw [List.length_append]; omega), List.take_append_of_le_length hlength,
          List.drop_append_of_le_length hlength]
        rfl

/-! ## Calls -/

theorem round_again {c c' : HttpContext} {buf buf' : Bytes} (hstate : c.state ≠ .gotAll)
    (h : c.round buf = .again c' buf') : c'.state ≠ .gotAll ∧ buf'.length < buf.length := by
  rcases round_cases hstate buf with hwaits | ⟨_, _, hstate', hlength, hagain⟩ | ⟨_, -, hends⟩
  · rw [hwaits] at h
    cases h
  · have heq := hagain []
    rw [List.append_nil, List.append_nil, h] at heq
    cases heq
    exact ⟨hstate', hlength⟩
  · have heq := hends []
    rw [List.append_nil, h] at heq
    cases heq

/-- The number of rounds does not matter if there are enough of them. -/
theorem parseLoop_eq {c : HttpContext} (hstate : c.state ≠ .gotAll) {buf : Bytes} {m n : ℕ}
    (hm : buf.length < m) (hn : buf.length < n) : parseLoop m c buf = parseLoop n c buf := by
  induction m generalizing n c buf with
  | zero => omega
  | succ m ih =>
      cases n with
      | zero => omega
      | succ n =>
          simp only [parseLoop]
          cases hround : c.round buf with
          | ends outcome => rfl
          | again c' buf' =>
              obtain ⟨hstate', hlength⟩ := round_again hstate hround
              exact ih hstate' (by omega) (by omega)

theorem parseRequest_again {c c' : HttpContext} {buf buf' : Bytes} (hstate : c.state ≠ .gotAll)
    (h : c.round buf = .again c' buf') : c.parseRequest buf = c'.parseRequest buf' := by
  obtain ⟨hstate', hlength⟩ := round_again hstate h
  rw [parseRequest, parseLoop, h]
  exact parseLoop_eq hstate' hlength (Nat.lt_succ_self _)

theorem parseRequest_ends {c : HttpContext} {buf : Bytes} {outcome : Outcome}
    (h : c.round buf = .ends outcome) : c.parseRequest buf = some outcome := by
  rw [parseRequest, parseLoop, h]

/-- To show something of a call one shows it of a round that ends the call, and of a
round that does not from the same of the call that goes on behind it. -/
theorem parseRequest_induction {P : HttpContext → Bytes → Option Outcome → Prop}
    (hends : ∀ {c buf outcome}, c.state ≠ .gotAll → c.round buf = .ends outcome →
      P c buf (some outcome))
    (hagain : ∀ {c buf c' buf'}, c.state ≠ .gotAll → c.round buf = .again c' buf' →
      P c' buf' (c'.parseRequest buf') → P c buf (c'.parseRequest buf'))
    {c : HttpContext} (hstate : c.state ≠ .gotAll) (buf : Bytes) : P c buf (c.parseRequest buf) := by
  generalize hlength : buf.length = length
  induction length using Nat.strong_induction_on generalizing c buf with
  | h length ih =>
      cases hround : c.round buf with
      | ends outcome =>
          rw [parseRequest_ends hround]
          exact hends hstate hround
      | again c' buf' =>
          obtain ⟨hstate', hshorter⟩ := round_again hstate hround
          rw [parseRequest_again hstate hround]
          exact hagain hstate hround (ih _ (hlength ▸ hshorter) hstate' buf' rfl)

/-- What a call does: it waits, and then a later call goes on where it stopped, or
it ends, and then the bytes behind do not matter. -/
theorem parseRequest_cases {c : HttpContext} (hstate : c.state ≠ .gotAll) (buf : Bytes) :
    (∃ c' buf', c'.state ≠ .gotAll ∧ c.parseRequest buf = some (.returned true c' buf') ∧
        ∀ more, c.parseRequest (buf ++ more) = c'.parseRequest (buf' ++ more)) ∨
      ∃ outcome : Outcome, ¬ outcome.Waits ∧
        ∀ more, c.parseRequest (buf ++ more) = some (outcome.append more) := by
  generalize hlength : buf.length = length
  induction length using Nat.strong_induction_on generalizing c buf with
  | h length ih =>
      rcases round_cases hstate buf with
        hwaits | ⟨c', buf', hstate', hshorter, hagain⟩ | ⟨outcome, hnot, hends⟩
      · exact .inl ⟨c, buf, hstate, parseRequest_ends hwaits, fun _ ↦ rfl⟩
      · have hcall : ∀ more, c.parseRequest (buf ++ more) = c'.parseRequest (buf' ++ more) :=
          fun more ↦ parseRequest_again hstate (hagain more)
        rcases ih _ (hlength ▸ hshorter) hstate' buf' rfl with
          ⟨c'', buf'', hstate'', hwaits, hlater⟩ | ⟨outcome, hnot, hends⟩
        · refine .inl ⟨c'', buf'', hstate'', ?_, fun more ↦ (hcall more).trans (hlater more)⟩
          have heq := hcall []
          rw [List.append_nil, List.append_nil] at heq
          rw [heq, hwaits]
        · exact .inr ⟨outcome, hnot, fun more ↦ (hcall more).trans (hends more)⟩
      · exact .inr ⟨outcome, hnot, fun more ↦ parseRequest_ends (hends more)⟩

theorem parseRequest_isSome {c : HttpContext} (hstate : c.state ≠ .gotAll) (buf : Bytes) :
    ∃ outcome, c.parseRequest buf = some outcome := by
  rcases parseRequest_cases hstate buf with ⟨c', buf', -, hwaits, -⟩ | ⟨outcome, -, hends⟩
  · exact ⟨_, hwaits⟩
  · exact ⟨_, by simpa using hends []⟩

/-- The loop ends unless a request is complete before it starts. -/
theorem exists_parseLoop_iff (c : HttpContext) (buf : Bytes) :
    (∃ rounds outcome, parseLoop rounds c buf = some outcome) ↔ c.state ≠ .gotAll := by
  constructor
  · rintro ⟨rounds, outcome, h⟩ hstate
    have hspins : ∀ rounds, parseLoop rounds c buf = none := by
      intro rounds
      induction rounds with
      | zero => rfl
      | succ rounds ih => simpa [parseLoop, round, hstate] using ih
    rw [hspins] at h
    cases h
  · intro hstate
    exact ⟨buf.length + 1, parseRequest_isSome hstate buf⟩

/-- A call that has ended ends in the same way if more bytes follow. -/
theorem parseRequest_append {c : HttpContext} (hstate : c.state ≠ .gotAll) {buf : Bytes}
    {outcome : Outcome} (h : c.parseRequest buf = some outcome) (hnot : ¬ outcome.Waits)
    (more : Bytes) : c.parseRequest (buf ++ more) = some (outcome.append more) := by
  rcases parseRequest_cases hstate buf with ⟨c', buf', hstate', hwaits, -⟩ | ⟨outcome', -, hends⟩
  · rw [h] at hwaits
    cases hwaits
    exact absurd hstate' hnot
  · have heq := hends []
    rw [List.append_nil, Outcome.append_nil, h] at heq
    cases heq
    exact hends more

/-! ## Pieces -/

/-- The calls for the pieces of a stream, each with what the last one has left and the
next piece in the buffer.  Behind the call that ends the request no other is made, and
the pieces that are still to come are unread. -/
def parsePieces (c : HttpContext) (buf : Bytes) : List Bytes → Option Outcome
  | [] => some (.returned true c buf)
  | piece :: pieces =>
      match c.parseRequest (buf ++ piece) with
      | none => none
      | some (.returned ok c' buf') =>
          if ok = true ∧ c'.state ≠ .gotAll then parsePieces c' buf' pieces
          else some (.returned ok c' (buf' ++ pieces.flatten))
      | some (.thrown c' buf') => some (.thrown c' (buf' ++ pieces.flatten))
      | some .aborted => some .aborted

theorem parsePieces_of_waits {c c' : HttpContext} {buf buf' piece : Bytes}
    (h : c.parseRequest (buf ++ piece) = some (.returned true c' buf'))
    (hstate' : c'.state ≠ .gotAll) (pieces : List Bytes) :
    c.parsePieces buf (piece :: pieces) = c'.parsePieces buf' pieces := by
  rw [parsePieces, h]
  exact if_pos ⟨rfl, hstate'⟩

theorem parsePieces_of_ends {c : HttpContext} {buf piece : Bytes} {outcome : Outcome}
    (h : c.parseRequest (buf ++ piece) = some outcome) (hnot : ¬ outcome.Waits)
    (pieces : List Bytes) :
    c.parsePieces buf (piece :: pieces) = some (outcome.append pieces.flatten) := by
  rw [parsePieces, h]
  cases outcome with
  | returned ok c' buf' =>
      refine if_neg ?_
      rintro ⟨rfl, hstate'⟩
      exact hnot hstate'
  | thrown c' buf' => rfl
  | aborted => rfl

/-- A parser that waits gets from the pieces what it gets from all of them at once. -/
theorem parsePieces_eq {c : HttpContext} (hstate : c.state ≠ .gotAll) {buf : Bytes}
    (hwaits : c.parseRequest buf = some (.returned true c buf)) (pieces : List Bytes) :
    c.parsePieces buf pieces = c.parseRequest (buf ++ pieces.flatten) := by
  induction pieces generalizing c buf with
  | nil => rw [List.flatten_nil, List.append_nil, hwaits, parsePieces]
  | cons piece pieces ih =>
      rw [List.flatten_cons, ← List.append_assoc]
      rcases parseRequest_cases hstate (buf ++ piece) with
        ⟨c', buf', hstate', hcall, hlater⟩ | ⟨outcome, hnot, hends⟩
      · have hagain := hlater []
        rw [List.append_nil, List.append_nil, hcall] at hagain
        rw [parsePieces_of_waits hcall hstate', hlater, ih hstate' hagain.symm]
      · have hcall := hends []
        rw [List.append_nil, Outcome.append_nil] at hcall
        rw [parsePieces_of_ends hcall hnot, hends]

/-- However the bytes are cut into pieces, the parser of a new connection ends in the
same way, with the same request and the same unread bytes, as if they had all arrived
at once. -/
theorem parsePieces_create (pieces : List Bytes) :
    create.parsePieces [] pieces = create.parseRequest pieces.flatten :=
  parsePieces_eq (by decide) (by decide) pieces

end HttpContext

end HttpRaftKv.Http
