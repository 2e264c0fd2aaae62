import HttpRaftKv.Http.Parsing
import Mathlib.Data.List.DropRight
import Mathlib.Data.List.Infix
import Mathlib.Data.List.TakeWhile

/-!
# The announced length of a body

Behind the head of a request with a body the parser takes as many bytes as the head
announces.  The announcement is read by `std::stoi`, which also takes a sign in front of
the digits and anything behind them.
-/

namespace HttpRaftKv.Http

/-! ## Numbers -/

/-- The number of the digits. -/
def number (digits : Bytes) : ℤ :=
  digits.foldl (fun (value : ℤ) b ↦ 10 * value + ((b.toNat : ℤ) - 48)) 0

def sign (v : Bytes) : ℤ :=
  if v.head? = some 45 then -1 else 1

def unsigned (v : Bytes) : Bytes :=
  if v.head? = some 45 ∨ v.head? = some 43 then v.tail else v

/-- The digits behind an optional sign. -/
def leadingDigits (v : Bytes) : Bytes :=
  (unsigned v).takeWhile isdigit

def leadingNumber (v : Bytes) : ℤ :=
  sign v * number (leadingDigits v)

/-- The length that a value of `Content-Length` stands for: digits and nothing else, and a
number below `2^31`. -/
def announced (v : Bytes) : Option ℕ :=
  if v ≠ [] ∧ v.all isdigit ∧ number v < 2 ^ 31 then some (number v).toNat else none

/-- The value is not made of digits alone, but `std::stoi` finds a number in it that fits
into an `int`. -/
def Loose (v : Bytes) : Prop :=
  v.all isdigit = false ∧ leadingDigits v ≠ [] ∧ -2 ^ 31 ≤ leadingNumber v ∧
    leadingNumber v < 2 ^ 31

instance : DecidablePred Loose :=
  fun v ↦ inferInstanceAs (Decidable (_ ∧ leadingDigits v ≠ [] ∧ _))

theorem stoi_eq {v : Bytes} (hv : v.dropWhile isspace = v) :
    stoi v =
      if leadingDigits v = [] ∨ leadingNumber v < -2 ^ 31 ∨ 2 ^ 31 ≤ leadingNumber v then none
      else some (leadingNumber v) := by
  rw [stoi, hv]
  rfl

theorem number_nonneg {digits : Bytes} (h : digits.all isdigit = true) : 0 ≤ number digits := by
  unfold number
  have hfrom : ∀ value : ℤ, 0 ≤ value → 0 ≤ digits.foldl
      (fun (value : ℤ) b ↦ 10 * value + ((b.toNat : ℤ) - 48)) value := by
    induction digits with
    | nil => exact fun _ hvalue ↦ hvalue
    | cons b digits ih =>
        intro value hvalue
        rw [List.all_cons, Bool.and_eq_true] at h
        have hdigit : 48 ≤ b := by
          have hb := h.1
          rw [isdigit, Bool.and_eq_true, decide_eq_true_eq] at hb
          exact hb.1
        have hle : 48 ≤ b.toNat := hdigit
        have hnext : 0 ≤ 10 * value + ((b.toNat : ℤ) - 48) := by omega
        exact ih h.2 _ hnext
  exact hfrom 0 (Int.le_refl 0)

theorem leading_of_digits {v : Bytes} (h : v.all isdigit = true) :
    leadingDigits v = v ∧ leadingNumber v = number v := by
  have hhead : v.head? ≠ some 45 ∧ v.head? ≠ some 43 := by
    cases v with
    | nil => simp
    | cons b v =>
        rw [List.all_cons, Bool.and_eq_true] at h
        constructor
        · rintro heq
          cases heq
          exact absurd h.1 (by decide)
        · rintro heq
          cases heq
          exact absurd h.1 (by decide)
  have hunsigned : unsigned v = v := if_neg (by rintro (h | h); exacts [hhead.1 h, hhead.2 h])
  have hdigits : leadingDigits v = v := by
    rw [leadingDigits, hunsigned, List.takeWhile_eq_self_iff]
    exact List.all_eq_true.mp h
  refine ⟨hdigits, ?_⟩
  rw [leadingNumber, hdigits, sign, if_neg hhead.1, Int.one_mul]

/-- What `std::stoi` makes of a value that is not loose. -/
theorem stoi_of_not_loose {v : Bytes} (hv : v.dropWhile isspace = v) (hloose : ¬ Loose v)
    (hne : v ≠ []) : stoi v = (announced v).map Nat.cast := by
  rw [stoi_eq hv]
  by_cases hdigits : v.all isdigit = true
  · obtain ⟨hleading, hnumber⟩ := leading_of_digits hdigits
    have hnonneg := number_nonneg hdigits
    rw [hleading, hnumber, announced]
    by_cases hsmall : number v < 2 ^ 31
    · rw [if_neg, if_pos ⟨hne, hdigits, hsmall⟩, Option.map_some, Int.toNat_of_nonneg hnonneg]
      rintro (hnil | hlow | hhigh)
      · exact hne hnil
      · omega
      · omega
    · rw [if_pos (.inr (.inr (by omega))), if_neg fun h ↦ hsmall h.2.2]
      rfl
  · rw [if_pos, announced, if_neg fun h ↦ hdigits h.2.1]
    · rfl
    · by_contra hfits
      rw [not_or, not_or] at hfits
      exact hloose ⟨Bool.eq_false_iff.mpr hdigits, hfits.1, by omega, by omega⟩

theorem stoi_of_loose {v : Bytes} (hv : v.dropWhile isspace = v) (hloose : Loose v) :
    stoi v = some (leadingNumber v) := by
  obtain ⟨-, hdigits, hlow, hhigh⟩ := hloose
  rw [stoi_eq hv, if_neg]
  rintro (h | h | h)
  · exact hdigits h
  · omega
  · omega

/-- A value has no blanks in front. -/
theorem dropWhile_trim (text : Bytes) :
    (HttpRequest.trim text).dropWhile isspace = HttpRequest.trim text := by
  have hprefix : HttpRequest.trim text <+: text.dropWhile isspace :=
    List.rdropWhile_prefix isspace _
  have hhead := List.head?_dropWhile_not isspace text
  cases htrim : HttpRequest.trim text with
  | nil => rfl
  | cons b rest =>
      rw [htrim] at hprefix
      obtain ⟨behind, heq⟩ := hprefix
      rw [← heq] at hhead
      exact List.dropWhile_cons_of_neg (Bool.eq_false_iff.mp hhead)

/-! ## Heads -/

/-- The head of a request whose method has a body: the lines without the CR LF behind
them, and the request that the first one gives. -/
structure RequestHead where
  requestLine : Bytes
  fields : List (Bytes × Bytes)
  request : HttpRequest
  line_plain : ¬ [13, 10] <:+: requestLine
  fields_plain : ∀ field ∈ fields, 58 ∉ field.1 ∧ ¬ [13, 10] <:+: field.1 ++ 58 :: field.2
  accepted : HttpContext.processRequestLine .create requestLine = some (true, request)
  takesBody : HttpContext.TakesBody request

namespace RequestHead

def fieldLine (field : Bytes × Bytes) : Bytes :=
  field.1 ++ 58 :: field.2 ++ [13, 10]

def bytes (h : RequestHead) : Bytes :=
  h.requestLine ++ [13, 10] ++ h.fields.flatMap fieldLine ++ [13, 10]

/-- The value of the last `Content-Length`, which is empty if there is none. -/
def contentLength (h : RequestHead) : Bytes :=
  ((h.fields.reverse.lookup (ascii "Content-Length")).map HttpRequest.trim).getD []

/-- The request with the fields. -/
def read (h : RequestHead) : HttpRequest :=
  h.fields.foldl (fun r field ↦ r.addHeader field.1 field.2) h.request

variable {h : RequestHead}

theorem getHeader_addHeader (r : HttpRequest) (key text field : Bytes) :
    (r.addHeader key text).getHeader field =
      if field = key then HttpRequest.trim text else r.getHeader field := by
  unfold HttpRequest.getHeader HttpRequest.addHeader
  rw [lookup_assignField]
  split_ifs
  · rfl
  · rfl

theorem getHeader_foldl (fields : List (Bytes × Bytes)) (r : HttpRequest) (field : Bytes) :
    (fields.foldl (fun r field ↦ r.addHeader field.1 field.2) r).getHeader field =
      ((fields.reverse.lookup field).map HttpRequest.trim).getD (r.getHeader field) := by
  induction fields using List.reverseRecOn with
  | nil => rfl
  | append_singleton fields last ih =>
      rw [List.foldl_append, List.foldl_cons, List.foldl_nil, getHeader_addHeader, ih,
        List.reverse_append, List.reverse_singleton, List.singleton_append, List.lookup_cons]
      by_cases hsame : field = last.1
      · rw [if_pos hsame, beq_iff_eq.mpr hsame]
        rfl
      · rw [if_neg hsame, beq_eq_false_iff_ne.mpr hsame]

theorem foldl_addHeader (fields : List (Bytes × Bytes)) (r : HttpRequest) :
    (fields.foldl (fun r field ↦ r.addHeader field.1 field.2) r).method = r.method ∧
      (fields.foldl (fun r field ↦ r.addHeader field.1 field.2) r).content = r.content := by
  induction fields generalizing r with
  | nil => exact ⟨rfl, rfl⟩
  | cons field fields ih => exact ih _

end RequestHead

namespace HttpContext

section keeps

variable {α : Type} {f : HttpRequest → α}
  (hset : ∀ (r : HttpRequest) (method : Method) (version path queryString : Bytes)
    (queryParameters : List (Bytes × Bytes)),
    f { r with
      method := method
      version := version
      path := path
      queryString := queryString
      queryParameters := queryParameters } = f r)
include hset

theorem processVersion_keeps (r : HttpRequest) (version : Bytes) :
    f (processVersion r version).2 = f r := by
  unfold processVersion
  split_ifs
  · exact hset r _ _ _ _ _
  · exact hset r _ _ _ _ _
  · rfl
  · rfl

theorem processTarget_keeps (r : HttpRequest) (line : Bytes) : f (processTarget r line).2 = f r := by
  unfold processTarget
  split_ifs
  · simp only [processVersion_keeps hset]
    split_ifs
    · exact hset r _ _ _ _ _
    · exact hset r _ _ _ _ _
  · rfl

/-- The request line has no influence on what it does not set. -/
theorem processRequestLine_keeps {r r' : HttpRequest} {line : Bytes} {ok : Bool}
    (h : processRequestLine r line = some (ok, r')) : f r' = f r := by
  unfold processRequestLine at h
  split_ifs at h with hmem
  · obtain ⟨⟨known, r₁⟩, hmethod, h⟩ := Option.map_eq_some_iff.mp h
    have hr₁ : f r₁ = f r := by
      unfold HttpRequest.setMethod at hmethod
      split_ifs at hmethod
      cases hmethod
      exact hset r _ _ _ _ _
    cases known with
    | false =>
        cases h
        exact hr₁
    | true =>
        have hr' : r' = (processTarget r₁ (line.dropWhile (· ≠ 32)).tail).2 :=
          (congrArg Prod.snd h).symm
        rw [hr', processTarget_keeps hset, hr₁]
  · cases h
    rfl

end keeps

end HttpContext

namespace RequestHead

variable {h : RequestHead}

theorem getHeader_read (h : RequestHead) :
    h.read.getHeader (ascii "Content-Length") = h.contentLength := by
  have hnone : h.request.getHeader (ascii "Content-Length") = [] := by
    have hheaders : h.request.headers = HttpRequest.create.headers :=
      HttpContext.processRequestLine_keeps (fun _ _ _ _ _ _ ↦ rfl) h.accepted
    rw [HttpRequest.getHeader, hheaders]
    rfl
  rw [read, getHeader_foldl, hnone, contentLength]

theorem takesBody_read (h : RequestHead) : HttpContext.TakesBody h.read := by
  have htakes := h.takesBody
  unfold HttpContext.TakesBody at htakes ⊢
  rwa [read, (foldl_addHeader h.fields h.request).1]

theorem content_read (h : RequestHead) : h.read.content = [] := by
  have hcontent : h.request.content = HttpRequest.create.content :=
    HttpContext.processRequestLine_keeps (fun _ _ _ _ _ _ ↦ rfl) h.accepted
  rw [read, (foldl_addHeader h.fields h.request).2, hcontent]
  rfl

theorem dropWhile_contentLength (h : RequestHead) :
    h.contentLength.dropWhile isspace = h.contentLength := by
  unfold contentLength
  cases h.fields.reverse.lookup (ascii "Content-Length") with
  | none => rfl
  | some text => exact dropWhile_trim text

/-- The fields are read one after the other. -/
theorem parseRequest_fields {fields : List (Bytes × Bytes)}
    (hplain : ∀ field ∈ fields, 58 ∉ field.1 ∧ ¬ [13, 10] <:+: field.1 ++ 58 :: field.2)
    (r : HttpRequest) (rest : Bytes) :
    HttpContext.parseRequest ⟨.expectHeaders, r⟩ (fields.flatMap fieldLine ++ rest) =
      HttpContext.parseRequest
        ⟨.expectHeaders, fields.foldl (fun r field ↦ r.addHeader field.1 field.2) r⟩ rest := by
  induction fields generalizing r with
  | nil => rfl
  | cons field fields ih =>
      obtain ⟨hcolon, hline⟩ := hplain field List.mem_cons_self
      obtain ⟨htake, hdrop⟩ := takeWhile_ne_append hcolon field.2
      have hsplit := splitCRLF_of_plain hline (fields.flatMap fieldLine ++ rest)
      have hbuf : (field :: fields).flatMap fieldLine ++ rest =
          field.1 ++ 58 :: field.2 ++ 13 :: 10 :: (fields.flatMap fieldLine ++ rest) := by
        rw [List.flatMap_cons, fieldLine]
        simp only [List.append_assoc, List.cons_append, List.nil_append]
      have hround : HttpContext.round ⟨.expectHeaders, r⟩
          (field.1 ++ 58 :: field.2 ++ 13 :: 10 :: (fields.flatMap fieldLine ++ rest)) =
            .again ⟨.expectHeaders, r.addHeader field.1 field.2⟩
              (fields.flatMap fieldLine ++ rest) := by
        simp only [HttpContext.round, HttpContext.expectsHeaders, hsplit]
        rw [if_pos (by simp), htake, hdrop, List.tail_cons]
      rw [hbuf, HttpContext.parseRequest_again (by simp) hround,
        ih (fun f hf ↦ hplain f (List.mem_cons_of_mem _ hf)), List.foldl_cons]

/-- The parser has read the head up to the empty line. -/
theorem parseRequest_bytes (h : RequestHead) (more : Bytes) :
    HttpContext.create.parseRequest (h.bytes ++ more) =
      HttpContext.parseRequest ⟨.expectHeaders, h.read⟩ (13 :: 10 :: more) := by
  have hbuf : h.bytes ++ more =
      h.requestLine ++ 13 :: 10 :: (h.fields.flatMap fieldLine ++ 13 :: 10 :: more) := by
    unfold bytes
    simp only [List.append_assoc, List.cons_append, List.nil_append]
  have hround : HttpContext.create.round
      (h.requestLine ++ 13 :: 10 :: (h.fields.flatMap fieldLine ++ 13 :: 10 :: more)) =
        .again ⟨.expectHeaders, h.request⟩ (h.fields.flatMap fieldLine ++ 13 :: 10 :: more) := by
    have hsplit := splitCRLF_of_plain h.line_plain (h.fields.flatMap fieldLine ++ 13 :: 10 :: more)
    simp only [HttpContext.round, HttpContext.create, HttpContext.expectsRequestLine, hsplit,
      h.accepted]
  rw [hbuf, HttpContext.parseRequest_again (by decide) hround,
    parseRequest_fields h.fields_plain, read]

/-! ## The end of the head -/

theorem round_end (h : RequestHead) (more : Bytes) :
    HttpContext.round ⟨.expectHeaders, h.read⟩ (13 :: 10 :: more) =
      if h.contentLength = [] then .ends (.returned false ⟨.expectHeaders, h.read⟩ more)
      else
        match stoi h.contentLength with
        | none => .ends (.thrown ⟨.expectHeaders, h.read⟩ (13 :: 10 :: more))
        | some length =>
            if 0 < (h.read.setContentLength length).contentLength then
              .again ⟨.expectBody, h.read.setContentLength length⟩ more
            else .ends (.returned true ⟨.gotAll, h.read.setContentLength length⟩ more) := by
  have hsplit : splitCRLF (13 :: 10 :: more) = some ([], more) := rfl
  simp only [HttpContext.round, HttpContext.expectsHeaders, hsplit, HttpContext.endsHeaders]
  have htakes : h.read.method = .post ∨ h.read.method = .put := h.takesBody_read
  rw [if_neg List.not_mem_nil, if_pos trivial, if_pos htakes, getHeader_read]
  by_cases hnil : h.contentLength = []
  · rw [if_neg (not_not.mpr hnil), if_pos hnil]
  · refine (if_pos hnil).trans (Eq.trans ?_ (if_neg hnil).symm)
    cases stoi h.contentLength with
    | none => rfl
    | some length => rfl

/-- The call for the head and more bytes ends with an error. -/
def Rejected (h : RequestHead) (more : Bytes) : Prop :=
  (∃ c rest, HttpContext.create.parseRequest (h.bytes ++ more) = some (.returned false c rest)) ∨
    ∃ c rest, HttpContext.create.parseRequest (h.bytes ++ more) = some (.thrown c rest)

/-- The call takes the head, and the request is complete with the next `length` bytes, which
are its body. -/
def Accepted (h : RequestHead) (length : ℕ) (more : Bytes) : Prop :=
  ∃ c rest, HttpContext.create.parseRequest (h.bytes ++ more) = some (.returned true c rest) ∧
    (c.state = .gotAll ↔ length ≤ more.length) ∧
    (length ≤ more.length → c.request.content = more.take length ∧ rest = more.drop length)

/-- The head is taken if it announces a length, and it is an error otherwise. -/
def FollowsGrammar (h : RequestHead) : Prop :=
  ∀ more, match announced h.contentLength with
    | some length => h.Accepted length more
    | none => h.Rejected more

theorem not_rejected_of_accepted {length : ℕ} {more : Bytes} (h' : h.Accepted length more) :
    ¬ h.Rejected more := by
  obtain ⟨c, rest, hcall, -⟩ := h'
  rintro (⟨c', rest', hcall'⟩ | ⟨c', rest', hcall'⟩)
  · rw [hcall] at hcall'
    cases hcall'
  · rw [hcall] at hcall'
    cases hcall'

/-- The number that `std::stoi` finds is the length of the body, up to the conversion. -/
theorem accepted_of_stoi {length : ℤ} (hne : h.contentLength ≠ [])
    (hlength : stoi h.contentLength = some length) (more : Bytes) :
    h.Accepted (h.read.setContentLength length).contentLength more := by
  have hround := h.round_end more
  simp only [if_neg hne, hlength] at hround
  unfold Accepted
  rw [parseRequest_bytes]
  by_cases hpos : 0 < (h.read.setContentLength length).contentLength
  · rw [if_pos hpos] at hround
    rw [HttpContext.parseRequest_again (by simp) hround]
    by_cases hlong : more.length < (h.read.setContentLength length).contentLength
    · refine ⟨⟨.expectBody, h.read.setContentLength length⟩, more, ?_, ?_, fun hle ↦ ?_⟩
      · exact HttpContext.parseRequest_ends (if_pos hlong)
      · exact iff_of_false (by simp) (by omega)
      · omega
    · refine ⟨_, _, HttpContext.parseRequest_ends (if_neg hlong), ?_, fun _ ↦ ⟨rfl, rfl⟩⟩
      exact iff_of_true rfl (by omega)
  · rw [if_neg hpos] at hround
    have hzero : (h.read.setContentLength length).contentLength = 0 := by omega
    refine ⟨_, _, HttpContext.parseRequest_ends hround, iff_of_true rfl (by omega), fun _ ↦ ?_⟩
    rw [hzero]
    exact ⟨h.content_read, rfl⟩

theorem rejected_of_stoi (hnone : h.contentLength = [] ∨ stoi h.contentLength = none)
    (more : Bytes) : h.Rejected more := by
  have hround := h.round_end more
  unfold Rejected
  rw [parseRequest_bytes]
  by_cases hnil : h.contentLength = []
  · rw [if_pos hnil] at hround
    exact .inl ⟨_, _, HttpContext.parseRequest_ends hround⟩
  · simp only [if_neg hnil, hnone.resolve_left hnil] at hround
    exact .inr ⟨_, _, HttpContext.parseRequest_ends hround⟩

theorem contentLength_setContentLength (r : HttpRequest) {length : ℕ} (h : length < 2 ^ 31) :
    (r.setContentLength length).contentLength = length := by
  have hmod : ((length : ℤ) % 2 ^ 64).toNat = length := by omega
  exact hmod

theorem announced_lt {v : Bytes} {length : ℕ} (h : announced v = some length) :
    v ≠ [] ∧ length < 2 ^ 31 := by
  unfold announced at h
  split_ifs at h with hannounced
  cases h
  exact ⟨hannounced.1, by omega⟩

/-- The body follows the announcement exactly if it is not loose. -/
theorem followsGrammar_iff (h : RequestHead) : h.FollowsGrammar ↔ ¬ Loose h.contentLength := by
  constructor
  · intro hfollows hloose
    have hnone : announced h.contentLength = none := by
      rw [announced, if_neg]
      intro hannounced
      rw [hloose.1] at hannounced
      exact Bool.false_ne_true hannounced.2.1
    have hne : h.contentLength ≠ [] := by
      intro hnil
      have hdigits := hloose.1
      rw [hnil] at hdigits
      cases hdigits
    have hrejected := hfollows []
    simp only [hnone] at hrejected
    exact not_rejected_of_accepted
      (accepted_of_stoi hne (stoi_of_loose h.dropWhile_contentLength hloose) []) hrejected
  · intro hloose more
    cases hannounced : announced h.contentLength with
    | some length =>
        obtain ⟨hne, hlt⟩ := announced_lt hannounced
        have hstoi := stoi_of_not_loose h.dropWhile_contentLength hloose hne
        rw [hannounced] at hstoi
        have haccepted := accepted_of_stoi hne hstoi more
        rwa [contentLength_setContentLength _ hlt] at haccepted
    | none =>
        by_cases hnil : h.contentLength = []
        · exact rejected_of_stoi (.inl hnil) more
        · have hstoi := stoi_of_not_loose h.dropWhile_contentLength hloose hnil
          rw [hannounced] at hstoi
          exact rejected_of_stoi (.inr hstoi) more

/-- A login that announces five bytes, and a unit behind them. -/
def loginWithUnit : RequestHead where
  requestLine := ascii "POST /login HTTP/1.1"
  fields := [(ascii "Content-Length", ascii " 5x")]
  request :=
    { HttpRequest.create with
      method := .post
      version := ascii "HTTP/1.1"
      path := ascii "/login" }
  line_plain := by decide
  fields_plain := by decide
  accepted := by decide
  takesBody := by decide

theorem not_followsGrammar_loginWithUnit :
    loginWithUnit.contentLength = ascii "5x" ∧ loginWithUnit.Accepted 5 [] ∧
      ¬ loginWithUnit.FollowsGrammar := by
  have hfive : stoi loginWithUnit.contentLength = some 5 := by decide
  have haccepted : loginWithUnit.Accepted 5 [] := accepted_of_stoi (by decide) hfive []
  exact ⟨by decide, haccepted,
    fun hfollows ↦ not_rejected_of_accepted haccepted (hfollows [])⟩

end RequestHead

end HttpRaftKv.Http
