import HttpRaftKv.Http.Parsing
import HttpRaftKv.Http.SessionManager
import Mathlib.Data.List.Infix
import Mathlib.Data.List.TakeWhile

/-!
# The cookie of a session

The identifier of a session is not looked up among the cookies of the header, it is found
as a text in it.  So the value that is taken is that of the first cookie whose name ends in
`sessionId`, which may be another one.
-/

namespace HttpRaftKv.Http

/-! ## Finding a text -/

section findText

variable {pattern : Bytes}

theorem findText_of_prefix {text : Bytes} (h : pattern <+: text) :
    findText pattern text = some ([], text) := by
  cases text with
  | nil => exact if_pos (List.prefix_nil.mp h)
  | cons b text => exact if_pos (List.isPrefixOf_iff_prefix.mpr h)

/-- What is found is found behind a text in which the pattern does not start. -/
theorem findText_skip {skipped rest : Bytes}
    (h : ∀ suffix, suffix ≠ [] → suffix <:+ skipped → ¬ pattern <+: suffix ++ rest) :
    (findText pattern (skipped ++ rest)).map Prod.snd = (findText pattern rest).map Prod.snd := by
  induction skipped with
  | nil => rfl
  | cons b skipped ih =>
      have hstart : ¬ pattern.isPrefixOf (b :: (skipped ++ rest)) = true := by
        rw [List.isPrefixOf_iff_prefix]
        exact h (b :: skipped) (List.cons_ne_nil _ _) List.suffix_rfl
      rw [List.cons_append, findText, if_neg hstart, Option.map_map]
      exact ih fun suffix hne hsuffix ↦ h suffix hne (hsuffix.trans (List.suffix_cons b _))

variable {key front rest : Bytes}

/-- A key with the sign behind it starts a text only if it is what stands in front of
the sign. -/
theorem key_prefix_iff {sign : UInt8} (hkey : sign ∉ key) (hfront : sign ∉ front) :
    key ++ [sign] <+: front ++ sign :: rest ↔ key = front := by
  constructor
  · rintro ⟨behind, heq⟩
    rw [List.append_assoc, List.singleton_append] at heq
    have htake := (takeWhile_ne_append hkey behind).1
    rw [heq, (takeWhile_ne_append hfront rest).1] at htake
    exact htake.symm
  · rintro rfl
    exact ⟨rest, by rw [List.append_assoc, List.singleton_append]⟩

theorem not_key_prefix {sign other : UInt8} (hkey : sign ∉ key) (hother : other ∉ key)
    (hne : other ≠ sign) (hfront : sign ∉ front) :
    ¬ key ++ [sign] <+: front ++ other :: rest := by
  rintro ⟨behind, heq⟩
  rw [List.append_assoc, List.singleton_append] at heq
  have htake := (takeWhile_ne_append hkey behind).1
  have hpos : ∀ b ∈ front, decide (b ≠ sign) = true := fun b hb ↦ by
    simpa using fun hsame : b = sign ↦ hfront (hsame ▸ hb)
  rw [heq, List.takeWhile_append_of_pos hpos,
    List.takeWhile_cons_of_pos (by simpa using hne)] at htake
  exact hother (htake ▸ List.mem_append_right _ List.mem_cons_self)

end findText

/-! ## Cookies -/

structure Cookie where
  name : Bytes
  value : Bytes
  name_plain : 59 ∉ name ∧ 61 ∉ name
  value_plain : 59 ∉ value ∧ 61 ∉ value

namespace Cookie

def text (c : Cookie) : Bytes :=
  c.name ++ 61 :: c.value

/-- The value of the `Cookie` header. -/
def header (cookies : List Cookie) : Bytes :=
  (ascii "; ").intercalate (cookies.map text)

/-- The value of the first cookie named `sessionId`, which is empty if there is none. -/
def sessionId (cookies : List Cookie) : Bytes :=
  ((cookies.find? fun c ↦ c.name = ascii "sessionId").map value).getD []

def EndsInSessionId (c : Cookie) : Prop :=
  ascii "sessionId" <:+ c.name

instance : DecidablePred EndsInSessionId :=
  fun c ↦ inferInstanceAs (Decidable (ascii "sessionId" <:+ c.name))

theorem endsInSessionId_of_named {c : Cookie} (h : c.name = ascii "sessionId") :
    c.EndsInSessionId := by
  unfold EndsInSessionId
  rw [h]

/-- The first cookie whose name ends in `sessionId` has the value that is looked for. -/
def Clear (cookies : List Cookie) : Prop :=
  ∀ c ∈ cookies.find? fun c ↦ c.EndsInSessionId, c.value = sessionId cookies

instance : DecidablePred Clear :=
  fun cookies ↦ inferInstanceAs (Decidable (∀ c ∈ cookies.find? _, _))

/-- What is read behind the text that was found. -/
def readId (found : Bytes) : Bytes :=
  (found.drop 10).takeWhile (· ≠ 59)

theorem key_plain : 59 ∉ ascii "sessionId" ∧ 61 ∉ ascii "sessionId" := by
  decide

theorem pattern_eq : ascii "sessionId=" = ascii "sessionId" ++ [61] := by
  decide

/-- The text starts in a name that ends in it. -/
theorem findText_of_ends {c : Cookie} (h : c.EndsInSessionId) (rest : Bytes) :
    (findText (ascii "sessionId=") (c.text ++ rest)).map Prod.snd =
      some (ascii "sessionId=" ++ (c.value ++ rest)) := by
  obtain ⟨front, hname⟩ := h
  have htext : c.text ++ rest = front ++ (ascii "sessionId=" ++ (c.value ++ rest)) := by
    rw [text, ← hname, pattern_eq]
    simp only [List.append_assoc, List.cons_append, List.nil_append]
  rw [htext, findText_skip, findText_of_prefix (List.prefix_append _ _), Option.map_some]
  intro suffix hne hsuffix hbegins
  have hplain : 61 ∉ suffix ++ ascii "sessionId" := by
    intro hmem
    have hname' := c.name_plain.2
    rw [← hname] at hname'
    rcases List.mem_append.mp hmem with hmem | hmem
    · exact hname' (List.mem_append_left _ (hsuffix.subset hmem))
    · exact hname' (List.mem_append_right _ hmem)
  rw [pattern_eq, List.append_assoc, List.singleton_append, ← List.append_assoc,
    key_prefix_iff key_plain.2 hplain] at hbegins
  exact hne (List.self_eq_append_left.mp hbegins)

/-- The text does not start in any other cookie. -/
theorem findText_of_not {c : Cookie} (h : ¬ c.EndsInSessionId) (rest : Bytes)
    (hrest : rest = [] ∨ ∃ more, rest = 59 :: more) :
    (findText (ascii "sessionId=") (c.text ++ rest)).map Prod.snd =
      (findText (ascii "sessionId=") rest).map Prod.snd := by
  rw [text, List.append_assoc, findText_skip, List.cons_append, ← List.singleton_append,
    findText_skip, findText_skip]
  · intro suffix hne hsuffix hbegins
    have hplain : 61 ∉ suffix := fun hmem ↦ c.value_plain.2 (hsuffix.subset hmem)
    rcases hrest with rfl | ⟨more, rfl⟩
    · rw [List.append_nil] at hbegins
      exact hplain (hbegins.subset (by decide))
    · rw [pattern_eq] at hbegins
      exact not_key_prefix key_plain.2 key_plain.1 (by decide) hplain hbegins
  · intro suffix hne hsuffix hbegins
    rcases List.suffix_cons_iff.mp hsuffix with rfl | hnil
    · obtain ⟨behind, heq⟩ := hbegins
      cases heq
    · exact hne (List.suffix_nil.mp hnil)
  · intro suffix hne hsuffix hbegins
    have hplain : 61 ∉ suffix := fun hmem ↦ c.name_plain.2 (hsuffix.subset hmem)
    rw [pattern_eq, List.cons_append, key_prefix_iff key_plain.2 hplain] at hbegins
    rw [← hbegins] at hsuffix
    exact h hsuffix

/-- Nor does it start in what stands between two cookies. -/
theorem findText_separator (rest : Bytes) :
    (findText (ascii "sessionId=") (ascii "; " ++ rest)).map Prod.snd =
      (findText (ascii "sessionId=") rest).map Prod.snd := by
  apply findText_skip
  intro suffix hne hsuffix hbegins
  obtain ⟨behind, heq⟩ := hbegins
  rcases List.suffix_cons_iff.mp hsuffix with rfl | hsuffix
  · cases heq
  · rcases List.suffix_cons_iff.mp hsuffix with rfl | hnil
    · cases heq
    · exact hne (List.suffix_nil.mp hnil)

theorem header_cons (c c' : Cookie) (cookies : List Cookie) :
    header (c :: c' :: cookies) = c.text ++ (ascii "; " ++ header (c' :: cookies)) := by
  rw [header, List.map_cons, List.map_cons, List.intercalate_cons_cons, List.append_assoc]
  rfl

/-- What stands behind a cookie in the header. -/
theorem exists_header_cons (c : Cookie) (cookies : List Cookie) :
    ∃ rest, header (c :: cookies) = c.text ++ rest ∧ (rest = [] ∨ ∃ more, rest = 59 :: more) ∧
      (findText (ascii "sessionId=") rest).map Prod.snd =
        (findText (ascii "sessionId=") (header cookies)).map Prod.snd := by
  cases cookies with
  | nil => exact ⟨[], by simp [header], .inl rfl, rfl⟩
  | cons c' cookies =>
      exact ⟨_, header_cons c c' cookies, .inr ⟨_, rfl⟩, findText_separator _⟩

theorem readId_found {value rest : Bytes} (hvalue : 59 ∉ value)
    (hrest : rest = [] ∨ ∃ more, rest = 59 :: more) :
    readId (ascii "sessionId=" ++ (value ++ rest)) = value := by
  unfold readId
  rw [List.drop_left' (by decide)]
  rcases hrest with rfl | ⟨more, rfl⟩
  · rw [List.append_nil, List.takeWhile_eq_self_iff]
    exact fun b hb ↦ by simpa using fun hsame : b = 59 ↦ hvalue (hsame ▸ hb)
  · exact (takeWhile_ne_append hvalue more).1

/-- What is read from a header is the value of the first cookie whose name ends in
`sessionId`. -/
theorem readId_header (cookies : List Cookie) :
    ((findText (ascii "sessionId=") (header cookies)).map Prod.snd).elim [] readId =
      ((cookies.find? fun c ↦ c.EndsInSessionId).map value).getD [] := by
  induction cookies with
  | nil => rfl
  | cons c cookies ih =>
      obtain ⟨rest, hheader, hrest, hfind⟩ := exists_header_cons c cookies
      rw [hheader]
      by_cases hends : c.EndsInSessionId
      · rw [findText_of_ends hends, List.find?_cons_of_pos (by simpa using hends)]
        exact readId_found c.value_plain.1 hrest
      · rw [findText_of_not hends rest hrest, hfind, ih,
          List.find?_cons_of_neg (by simpa using hends)]

end Cookie

namespace SessionManager

open Cookie

variable {r : HttpRequest} {cookies : List Cookie}

theorem getSessionIdFromCookie_eq (h : r.getHeader (ascii "Cookie") = header cookies) :
    getSessionIdFromCookie r = ((cookies.find? fun c ↦ c.EndsInSessionId).map value).getD [] := by
  rw [← readId_header, getSessionIdFromCookie, h]
  cases findText (ascii "sessionId=") (header cookies) with
  | none => rfl
  | some found => rfl

/-- If the first cookie whose name ends in `sessionId` has this name, it is the one that is
looked for. -/
theorem clear_of_named {c : Cookie}
    (hfirst : cookies.find? (fun c ↦ c.EndsInSessionId) = some c)
    (hname : c.name = ascii "sessionId") : Clear cookies := by
  obtain ⟨-, before, after, rfl, hbefore⟩ := List.find?_eq_some_iff_append.mp hfirst
  have hnone : before.find? (fun c ↦ c.name = ascii "sessionId") = none := by
    rw [List.find?_eq_none]
    intro c' hc' hname'
    have hends : ¬ c'.EndsInSessionId := by simpa using hbefore c' hc'
    exact hends (endsInSessionId_of_named (of_decide_eq_true hname'))
  intro c' hc'
  rw [hfirst] at hc'
  cases hc'
  rw [sessionId, List.find?_append, hnone, Option.none_or,
    List.find?_cons_of_pos (by simpa using hname)]
  rfl

/-- The value that is found is that of the first cookie named `sessionId` exactly if no
cookie whose name only ends so gets in its way. -/
theorem getSessionIdFromCookie_iff (h : r.getHeader (ascii "Cookie") = header cookies) :
    getSessionIdFromCookie r = sessionId cookies ↔ Clear cookies := by
  rw [getSessionIdFromCookie_eq h]
  cases hfirst : cookies.find? (fun c ↦ c.EndsInSessionId) with
  | none =>
      have hnone : cookies.find? (fun c ↦ c.name = ascii "sessionId") = none := by
        rw [List.find?_eq_none] at hfirst ⊢
        intro c hc hname
        have hends : ¬ c.EndsInSessionId := by simpa using hfirst c hc
        exact hends (endsInSessionId_of_named (of_decide_eq_true hname))
      refine iff_of_true ?_ fun c hc ↦ ?_
      · simp [sessionId, hnone]
      · rw [hfirst] at hc
        cases hc
  | some c =>
      constructor
      · intro hvalue c' hc'
        rw [hfirst] at hc'
        cases hc'
        exact hvalue
      · exact fun hclear ↦ hclear c hfirst

/-- A theme and a session. -/
def themeAndSession : List Cookie :=
  [⟨ascii "theme", ascii "dark", by decide, by decide⟩,
    ⟨ascii "sessionId", ascii "4f2a", by decide, by decide⟩]

theorem getSessionIdFromCookie_iff_themeAndSession :
    getSessionIdFromCookie
        (HttpRequest.create.addHeader (ascii "Cookie") (ascii " theme=dark; sessionId=4f2a")) =
      ascii "4f2a" := by
  have hheader : (HttpRequest.create.addHeader (ascii "Cookie")
      (ascii " theme=dark; sessionId=4f2a")).getHeader (ascii "Cookie") =
        header themeAndSession := by
    decide
  exact (getSessionIdFromCookie_iff hheader).mpr (by decide)

/-- The cookie of another program is in front of that of the session. -/
def otherAndSession : List Cookie :=
  [⟨ascii "oldsessionId", ascii "77", by decide, by decide⟩,
    ⟨ascii "sessionId", ascii "4f2a", by decide, by decide⟩]

theorem getSessionIdFromCookie_otherAndSession :
    ∃ r : HttpRequest, r.getHeader (ascii "Cookie") = header otherAndSession ∧
      sessionId otherAndSession = ascii "4f2a" ∧ getSessionIdFromCookie r = ascii "77" :=
  ⟨HttpRequest.create.addHeader (ascii "Cookie") (ascii " oldsessionId=77; sessionId=4f2a"),
    by decide, by decide, by decide⟩

end SessionManager

end HttpRaftKv.Http
