import HttpRaftKv.Http.HttpResponse
import Mathlib.Data.List.Basic

/-!
# What a client reads

A client reads the parts of a response back from its bytes if no part holds a
carriage return and no name of a header a colon.  Then the response is framed
exactly if its version has been set and its length has been set or is not needed.
Without a version the first byte is the blank in front of the code.
-/

namespace HttpRaftKv.Http

/-! ## Numbers -/

theorem toNat_of_mem_toDigits {n : ℕ} {c : Char} (h : c ∈ Nat.toDigits 10 n) :
    (UInt8.ofNat c.toNat).toNat = c.toNat ∧ 48 ≤ c.toNat ∧ c.toNat ≤ 57 := by
  have hdigit : '0'.toNat ≤ c.toNat ∧ c.toNat ≤ '9'.toNat :=
    Char.isDigit_iff_toNat.mp (Nat.isDigit_of_mem_toDigits (by decide) (by decide) h)
  have hle : c.toNat ≤ 57 := hdigit.2
  exact ⟨by rw [UInt8.toNat_ofNat']; omega, hdigit.1, hle⟩

theorem isdigit_of_mem_decimal {n : ℕ} {b : UInt8} (h : b ∈ decimal n) : isdigit b = true := by
  obtain ⟨c, hc, rfl⟩ := List.mem_map.mp h
  obtain ⟨heq, hge, hle⟩ := toNat_of_mem_toDigits hc
  rw [isdigit, Bool.and_eq_true, decide_eq_true_eq, decide_eq_true_eq, UInt8.le_iff_toNat_le,
    UInt8.le_iff_toNat_le, heq]
  exact ⟨hge, hle⟩

theorem notMem_decimal {n : ℕ} {b : UInt8} (h : isdigit b = false) : b ∉ decimal n :=
  fun hb ↦ Bool.noConfusion (h.symm.trans (isdigit_of_mem_decimal hb))

/-- The value of the digits. -/
theorem foldl_decimal (n : ℕ) :
    (decimal n).foldl (fun value b ↦ 10 * value + (b.toNat - 48)) 0 = n := by
  rw [decimal, List.foldl_map]
  calc (Nat.toDigits 10 n).foldl
        (fun value c ↦ 10 * value + ((UInt8.ofNat c.toNat).toNat - 48)) 0
      = (Nat.toDigits 10 n).foldl (fun value c ↦ 10 * value + (c.toNat - '0'.toNat)) 0 :=
        List.foldl_ext _ _ _ fun value c hc ↦ by rw [(toNat_of_mem_toDigits hc).1]; rfl
    _ = n := by rw [← Nat.ofDigitChars_eq_foldl, Nat.ofDigitChars_ten_toDigits]

theorem decimal_injective : Function.Injective decimal := by
  intro m n h
  rw [← foldl_decimal m, h, foldl_decimal n]

/-! ## Lines -/

/-- No carriage return is inside the header, and no colon inside its name. -/
def CleanHeader (header : Bytes × Bytes) : Prop :=
  13 ∉ header.1 ∧ 58 ∉ header.1 ∧ 13 ∉ header.2

instance (header : Bytes × Bytes) : Decidable (CleanHeader header) :=
  inferInstanceAs (Decidable (_ ∧ _ ∧ _))

theorem CleanHeader.readHeader {header : Bytes × Bytes} (h : CleanHeader header) :
    readHeader (HttpResponse.headerLine header) = header := by
  have hsplit := takeWhile_ne_append h.2.1 (32 :: header.2)
  rw [HttpResponse.headerLine, List.append_assoc]
  exact Prod.ext hsplit.1 (congrArg (List.drop 2) hsplit.2)

theorem CleanHeader.splitCRLF {header : Bytes × Bytes} (h : CleanHeader header) (rest : Bytes) :
    splitCRLF (HttpResponse.headerLine header ++ HttpResponse.crlf ++ rest) =
      some (HttpResponse.headerLine header, rest) := by
  have hclean : 13 ∉ HttpResponse.headerLine header := by
    rw [HttpResponse.headerLine, List.mem_append, List.mem_append]
    rintro ((hname | hmark) | hvalue)
    · exact h.1 hname
    · exact absurd hmark (by decide)
    · exact h.2.2 hvalue
  rw [List.append_assoc]
  exact splitCRLF_of_notMem hclean rest

theorem headerLine_ne_nil (header : Bytes × Bytes) : HttpResponse.headerLine header ≠ [] := by
  simp [HttpResponse.headerLine]

theorem readHeaders_append {headers : List (Bytes × Bytes)}
    (h : ∀ header ∈ headers, CleanHeader header) (body : Bytes) {lines : ℕ}
    (hlines : headers.length < lines) :
    readHeaders lines (headers.flatMap (fun header ↦
        HttpResponse.headerLine header ++ HttpResponse.crlf) ++ HttpResponse.crlf ++ body) =
      some (headers, body) := by
  induction headers generalizing lines with
  | nil =>
      obtain ⟨lines, rfl⟩ : ∃ k, lines = k + 1 := ⟨lines - 1, by simp at hlines; omega⟩
      rfl
  | cons header headers ih =>
      obtain ⟨lines, rfl⟩ : ∃ k, lines = k + 1 := ⟨lines - 1, by simp at hlines; omega⟩
      rw [List.forall_mem_cons] at h
      have hrest := ih h.2 (by simpa using hlines)
      rw [List.flatMap_cons, List.append_assoc, List.append_assoc, readHeaders, h.1.splitCRLF]
      simp only [headerLine_ne_nil, if_false, ← List.append_assoc, hrest, Option.map_some,
        h.1.readHeader]

/-! ## Filling a response -/

theorem forall_cleanHeader_assign {key value : Bytes} {headers : List (Bytes × Bytes)}
    (hheader : CleanHeader (key, value)) (h : ∀ header ∈ headers, CleanHeader header) :
    ∀ header ∈ OrderedMap.assign key value headers, CleanHeader header := by
  intro header hmem
  rcases OrderedMap.mem_assign hmem with rfl | hmem
  · exact hheader
  · exact h header hmem

theorem cleanHeader_contentLength (n : ℕ) : CleanHeader (ascii "Content-Length", decimal n) :=
  ⟨show 13 ∉ ascii "Content-Length" by decide, show 58 ∉ ascii "Content-Length" by decide,
    notMem_decimal rfl⟩

namespace HttpResponse

/-- No part of the response can be taken for the end of a line. -/
structure Clean (resp : HttpResponse) : Prop where
  message : 13 ∉ resp.statusMessage
  headers : ∀ header ∈ resp.headers, CleanHeader header

/-- The version has been set to one of those that a request can have. -/
def Versioned (resp : HttpResponse) : Prop :=
  (resp.httpVersion = ascii "HTTP/1.1" ∨ resp.httpVersion = ascii "HTTP/1.0") ∧
    resp.statusCode ≠ .kUnknown

theorem value_bounds {code : HttpStatusCode} (h : code ≠ .kUnknown) :
    100 ≤ code.value ∧ code.value < 1000 := by
  cases code with
  | kUnknown => exact absurd rfl h
  | _ => decide

theorem Versioned.statusLine {resp : HttpResponse} (h : resp.Versioned) :
    ∃ x, isdigit x = true ∧ resp.statusLine =
      ascii "HTTP/1." ++ [x, 32] ++ decimal resp.statusCode.value ++ [32] ++
        resp.statusMessage := by
  have hshort : (resp.httpVersion ++ [32] ++ decimal resp.statusCode.value ++ [32]).length ≤ 31 := by
    have hversion : resp.httpVersion.length = 8 := by
      obtain ⟨hversion | hversion, -⟩ := h <;> rw [hversion] <;> rfl
    have hcode : (decimal resp.statusCode.value).length ≤ 3 := by
      cases resp.statusCode <;> decide
    simp only [List.length_append, hversion, List.length_singleton]
    omega
  rw [HttpResponse.statusLine, List.take_of_length_le hshort]
  obtain ⟨hversion | hversion, -⟩ := h
  · exact ⟨49, rfl, by rw [hversion]; rfl⟩
  · exact ⟨48, rfl, by rw [hversion]; rfl⟩

theorem Versioned.isStatusLine_iff {resp : HttpResponse} (h : resp.Versioned) (code : ℕ) :
    IsStatusLine resp.statusLine code ↔ code = resp.statusCode.value := by
  obtain ⟨x, hx, hline⟩ := h.statusLine
  rw [hline]
  constructor
  · rintro ⟨y, message, -, -, -, heq⟩
    -- Behind the version both lines go on with a number and a blank.
    have hrest : decimal resp.statusCode.value ++ 32 :: resp.statusMessage =
        decimal code ++ 32 :: message := by
      simpa [ascii] using congrArg (List.drop 9) heq
    have hblank : ∀ n, 32 ∉ decimal n := fun n ↦ notMem_decimal rfl
    have hdigits := congrArg (List.takeWhile (· ≠ 32)) hrest
    rw [(takeWhile_ne_append (hblank _) _).1, (takeWhile_ne_append (hblank _) _).1] at hdigits
    exact (decimal_injective hdigits).symm
  · rintro rfl
    exact ⟨x, resp.statusMessage, hx, value_bounds h.2 |>.1, value_bounds h.2 |>.2, rfl⟩

/-- The headers that are written. -/
def written (resp : HttpResponse) : List (Bytes × Bytes) :=
  (ascii "Connection", if resp.closeConnection then ascii "close" else ascii "Keep-Alive") ::
    resp.headers

theorem appendToBuffer_eq (resp : HttpResponse) :
    resp.appendToBuffer = resp.statusLine ++ 13 :: 10 ::
      (resp.written.flatMap (fun header ↦ headerLine header ++ crlf) ++ crlf ++ resp.body) := by
  have hheader : resp.connectionHeader = headerLine (ascii "Connection",
      if resp.closeConnection then ascii "close" else ascii "Keep-Alive") := by
    unfold connectionHeader
    cases resp.closeConnection <;> rfl
  rw [appendToBuffer, written, List.flatMap_cons, hheader]
  simp [crlf]

theorem length_le_flatMap (headers : List (Bytes × Bytes)) :
    headers.length ≤ (headers.flatMap fun header ↦ headerLine header ++ crlf).length := by
  induction headers with
  | nil => exact Nat.zero_le _
  | cons header headers ih =>
      rw [List.flatMap_cons, List.length_append, List.length_append, List.length_cons]
      have hcrlf : crlf.length = 2 := rfl
      omega

theorem Clean.written {resp : HttpResponse} (h : resp.Clean) :
    ∀ header ∈ resp.written, CleanHeader header := by
  refine List.forall_mem_cons.mpr ⟨?_, h.headers⟩
  cases resp.closeConnection <;> decide

theorem Clean.statusLine {resp : HttpResponse} (h : resp.Clean) (hversion : resp.Versioned) :
    13 ∉ resp.statusLine := by
  obtain ⟨x, hx, hline⟩ := hversion.statusLine
  have hx13 : 13 ≠ x := by
    rintro rfl
    cases hx
  have hcode : 13 ∉ decimal resp.statusCode.value := notMem_decimal rfl
  rw [hline]
  simp [ascii, hx13, hcode, h.message]

theorem Clean.readResponse {resp : HttpResponse} (h : resp.Clean) (hversion : resp.Versioned) :
    readResponse resp.appendToBuffer = some (resp.statusLine, resp.written, resp.body) := by
  have hlines := length_le_flatMap resp.written
  have hcrlf : crlf.length = 2 := rfl
  rw [appendToBuffer_eq, Http.readResponse, splitCRLF_of_notMem (h.statusLine hversion)]
  dsimp only
  rw [readHeaders_append h.written _ (by simp only [List.length_append]; omega)]
  rfl

/-- The length has been set, or a client does not need it. -/
def Measured (resp : HttpResponse) : Prop :=
  resp.closeConnection = true ∨ HasNoBody resp.statusCode.value ∨
    resp.headers.lookup (ascii "Content-Length") = some (decimal resp.body.length)

theorem Clean.framed_iff {resp : HttpResponse} (h : resp.Clean) (hversion : resp.Versioned) :
    Framed resp.closeConnection resp.appendToBuffer ↔ resp.Measured := by
  have hread := h.readResponse hversion
  have hlookup : resp.written.lookup (ascii "Content-Length") =
      resp.headers.lookup (ascii "Content-Length") := rfl
  constructor
  · rintro ⟨line, headers, body, code, hparts, hline, hlength⟩
    rw [hread] at hparts
    cases hparts
    rw [hversion.isStatusLine_iff] at hline
    subst hline
    rw [hlookup] at hlength
    cases hclose : resp.closeConnection with
    | true => exact .inl hclose
    | false =>
        by_cases hcode : HasNoBody resp.statusCode.value
        · exact .inr (.inl hcode)
        · exact .inr (.inr (hlength hclose hcode))
  · intro hmeasured
    refine ⟨_, _, _, _, hread, (hversion.isStatusLine_iff _).mpr rfl, fun hclose hcode ↦ ?_⟩
    rw [hlookup]
    exact (hmeasured.resolve_left (by simp [hclose])).resolve_left hcode

theorem not_framed_of_version {resp : HttpResponse} (h : resp.httpVersion = []) (closes : Bool) :
    ¬ Framed closes resp.appendToBuffer := by
  rintro ⟨line, headers, body, code, hread, ⟨x, message, -, -, -, hline⟩, -⟩
  have hhead : resp.appendToBuffer.head? = some 32 := by
    rw [appendToBuffer_eq, statusLine, h]
    rfl
  -- The first line of the bytes starts as they do.
  have hfirst : resp.appendToBuffer.head? = some 72 := by
    unfold Http.readResponse at hread
    split at hread
    · cases hread
    · next first rest hsplit =>
        obtain ⟨read, -, heq⟩ := Option.map_eq_some_iff.mp hread
        obtain rfl : first = line := congrArg Prod.fst heq
        rw [splitCRLF_eq_some hsplit, hline]
        rfl
  rw [hhead] at hfirst
  exact absurd hfirst (by decide)

end HttpResponse

end HttpRaftKv.Http
