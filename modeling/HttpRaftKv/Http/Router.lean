import HttpRaftKv.Http.Responses
import HttpRaftKv.Lib.Captures
import Mathlib.Data.List.Induction

/-!
# The router

A request goes to the handler that is registered for its method and its path, else to the
callback, and else to the first pattern that its path matches.  In the regular expression
of a pattern a group stands for each parameter; the rest of the pattern is taken over as it
is.  If no character of it stands for something else there, the expression matches a path
exactly if the two have as many segments and every segment that is no parameter is the same,
and the parameters are whole segments.
-/

namespace HttpRaftKv.Http

open Captures

/-- A request with the parameters of its path. -/
structure RoutedRequest extends HttpRequest where
  pathParameters : List (Bytes × Bytes)
deriving DecidableEq, Repr

namespace RoutedRequest

def ofRequest (r : HttpRequest) : RoutedRequest :=
  { r with pathParameters := [] }

def setPathParameters (r : RoutedRequest) (key value : Bytes) : RoutedRequest :=
  { r with pathParameters := assignField r.pathParameters key value }

def getPathParameters (r : RoutedRequest) (key : Bytes) : Bytes :=
  (r.pathParameters.lookup key).getD []

end RoutedRequest

/-- The characters that stand for something else in a regular expression. -/
def metacharacters : Bytes :=
  ascii "^$\\.*+?()[]\x7b\x7d|"

/-- A piece of the text of a regular expression: a character that stands for itself, or the
group that is written for a parameter. -/
inductive Piece
  | lit (b : UInt8)
  | parameter
deriving DecidableEq, Repr

namespace Piece

def text : Piece → Bytes
  | lit b => [b]
  | parameter => ascii "([^/]+)"

/-- What matches the piece. -/
def item : Piece → Item UInt8
  | lit b => .lit b
  | parameter => .group fun b ↦ b ≠ 47

end Piece

/-- `std::regex` and `regex_match`.  The constructor throws on a text that is no regular
expression.  A match gives the texts of the groups.  Of the language only this is used: an
expression of pieces is matched as the pieces are. -/
structure RegexLibrary where
  Regex : Type
  regex : Bytes → Option Regex
  regexMatch : Bytes → Regex → Option (List Bytes)
  regexMatch_pieces : ∀ pieces : List Piece,
    (∀ b, Piece.lit b ∈ pieces → b ∉ metacharacters) →
      ∃ pathRegex, regex (ascii "^" ++ pieces.flatMap Piece.text ++ ascii "$") = some pathRegex ∧
        ∀ path, regexMatch path pathRegex = fullMatch (pieces.map Piece.item) path

namespace Router

/-- The text behind a slash begins with `:([^/]+)`. -/
def startsParameter : Bytes → Bool
  | 58 :: b :: _ => b ≠ 47
  | _ => false

/-- `regex_replace`; `skip` says that the name of a parameter is being read, which ends at
the next slash. -/
def replaceParameters : Bool → Bytes → Bytes
  | _, [] => []
  | skip, b :: bs =>
      if b = 47 then
        if startsParameter bs then ascii "/([^/]+)" ++ replaceParameters true bs
        else 47 :: replaceParameters false bs
      else if skip then replaceParameters true bs
      else b :: replaceParameters false bs

def convertToRegex (library : RegexLibrary) (pathPattern : Bytes) : Option library.Regex :=
  library.regex (ascii "^" ++ replaceParameters false pathPattern ++ ascii "$")

/-- The loop of `extractPathParameters` from its pass `i` on. -/
def extractFrom : ℕ → List Bytes → RoutedRequest → RoutedRequest
  | _, [], request => request
  | i, group :: groups, request =>
      extractFrom (i + 1) groups (request.setPathParameters (ascii "param" ++ decimal i) group)

def extractPathParameters (groups : List Bytes) (request : RoutedRequest) : RoutedRequest :=
  extractFrom 1 groups request

end Router

structure Router (R H : Type) where
  handlers : List ((Method × Bytes) × H)
  callbacks : List ((Method × Bytes) × H)
  regexHandlers : List (Method × R × H)
  regexCallbacks : List (Method × R × H)

/-- One call of the server that registers a route. -/
inductive Registration (H : Type)
  | registerHandler (method : Method) (path : Bytes) (handler : H)
  | registerCallback (method : Method) (path : Bytes) (callback : H)
  | addRegexHandler (method : Method) (path : Bytes) (handler : H)
  | addRegexCallback (method : Method) (path : Bytes) (callback : H)

namespace Router

variable {R H : Type}

def empty : Router R H :=
  ⟨[], [], [], []⟩

/-- `map[key] = handler`. -/
def assign (entries : List ((Method × Bytes) × H)) (key : Method × Bytes) (handler : H) :
    List ((Method × Bytes) × H) :=
  (key, handler) :: entries.filter fun entry ↦ entry.1 ≠ key

/-- A dynamic route whose pattern throws is not registered. -/
def register (library : RegexLibrary) (router : Router library.Regex H) :
    Registration H → Router library.Regex H
  | .registerHandler method path handler =>
      { router with handlers := assign router.handlers (method, path) handler }
  | .registerCallback method path callback =>
      { router with callbacks := assign router.callbacks (method, path) callback }
  | .addRegexHandler method path handler =>
      match convertToRegex library path with
      | some pathRegex =>
          { router with regexHandlers := router.regexHandlers ++ [(method, pathRegex, handler)] }
      | none => router
  | .addRegexCallback method path callback =>
      match convertToRegex library path with
      | some pathRegex =>
          { router with
            regexCallbacks := router.regexCallbacks ++ [(method, pathRegex, callback)] }
      | none => router

/-- The router after all calls. -/
def build (library : RegexLibrary) (regs : List (Registration H)) : Router library.Regex H :=
  regs.foldl (register library) empty

/-- One of the two loops over the dynamic routes. -/
def findRegex (library : RegexLibrary) (req : HttpRequest) :
    List (Method × library.Regex × H) → Option (H × RoutedRequest)
  | [] => none
  | (method, pathRegex, handler) :: routes =>
      if method = req.method then
        match library.regexMatch req.path pathRegex with
        | some groups => some (handler, extractPathParameters groups (.ofRequest req))
        | none => findRegex library req routes
      else findRegex library req routes

/-- What is called for the request, and with which request. -/
def route (library : RegexLibrary) (router : Router library.Regex H) (req : HttpRequest) :
    Option (H × RoutedRequest) :=
  match router.handlers.lookup (req.method, req.path) with
  | some handler => some (handler, .ofRequest req)
  | none =>
      match router.callbacks.lookup (req.method, req.path) with
      | some callback => some (callback, .ofRequest req)
      | none =>
          match findRegex library req router.regexHandlers with
          | some called => some called
          | none => findRegex library req router.regexCallbacks

/-! ## What a pattern matches -/

/-- No character of the pattern stands for something else. -/
def Plain (pathPattern : Bytes) : Prop :=
  ∀ b ∈ pathPattern, b ∉ metacharacters

instance (pathPattern : Bytes) : Decidable (Plain pathPattern) :=
  inferInstanceAs (Decidable (∀ _ ∈ _, _))

/-- What the regular expression of a pattern captures. -/
def captured (library : RegexLibrary) (pathPattern path : Bytes) : Option (List Bytes) :=
  (convertToRegex library pathPattern).bind (library.regexMatch path)

/-- The segment behind a slash. -/
def segmentOf : Bytes → Segment UInt8
  | 58 :: _ :: _ => .any
  | word => .text word

/-- The segments of a pattern.  The first one has no slash in front of it. -/
def segmentsOf (pathPattern : Bytes) : List (Segment UInt8) :=
  match pathPattern.splitOn 47 with
  | [] => []
  | first :: words => .text first :: words.map segmentOf

/-- The parameters of a path that has the form of the pattern. -/
def parametersOf (pathPattern path : Bytes) : Option (List Bytes) :=
  fit (segmentsOf pathPattern) (path.splitOn 47)

theorem splitOn_cons_eq (b : UInt8) (bs : Bytes) :
    (b :: bs).splitOn 47 =
      if b = 47 then [] :: bs.splitOn 47 else (bs.splitOn 47).modifyHead (b :: ·) := by
  rw [List.splitOn_cons_eq_if_modifyHead]
  simp only [beq_iff_eq]

theorem segmentOf_eq_any_iff {bs first : Bytes} {words : List Bytes}
    (h : bs.splitOn 47 = first :: words) : startsParameter bs = true ↔ segmentOf first = .any := by
  have hnil : ∀ bs : Bytes, bs.splitOn 47 ≠ [] := fun bs ↦ List.splitOn_ne_nil 47 bs
  cases bs with
  | nil =>
      cases h
      simp [startsParameter, segmentOf]
  | cons b bs =>
      rw [splitOn_cons_eq] at h
      by_cases hb : b = 58
      · subst hb
        rw [if_neg (by decide)] at h
        cases bs with
        | nil =>
            cases h
            simp [startsParameter, segmentOf]
        | cons c bs =>
            rw [splitOn_cons_eq] at h
            obtain ⟨word, rest, hword⟩ := List.exists_cons_of_ne_nil (hnil bs)
            by_cases hc : c = 47
            · rw [if_pos hc, List.modifyHead_cons] at h
              cases h
              simp [startsParameter, segmentOf, hc]
            · rw [if_neg hc, hword, List.modifyHead_cons, List.modifyHead_cons] at h
              cases h
              simp [startsParameter, segmentOf, hc]
      · have hstart : startsParameter (b :: bs) = false := by
          unfold startsParameter
          split
          · rename_i heq
            exact absurd (List.cons.inj heq).1 hb
          · rfl
        rw [hstart]
        refine iff_of_false Bool.false_ne_true ?_
        obtain ⟨word, rest, hword⟩ := List.exists_cons_of_ne_nil (hnil bs)
        by_cases hslash : b = 47
        · rw [if_pos hslash] at h
          cases h
          exact fun heq ↦ by cases heq
        · rw [if_neg hslash, hword, List.modifyHead_cons] at h
          cases h
          unfold segmentOf
          split
          · rename_i heq
            exact absurd (List.cons.inj heq).1 hb
          · exact fun heq ↦ by cases heq

theorem segmentOf_eq_text {word : Bytes} (h : segmentOf word ≠ .any) :
    segmentOf word = .text word := by
  unfold segmentOf at h ⊢
  split
  · exact absurd rfl h
  · rfl

/-- The pieces of the expression, of which `skip` leaves out the name of a parameter. -/
def piecesOf : Bool → Bytes → List Piece
  | _, [] => []
  | skip, b :: bs =>
      if b = 47 then
        if startsParameter bs then .lit 47 :: .parameter :: piecesOf true bs
        else .lit 47 :: piecesOf false bs
      else if skip then piecesOf true bs
      else .lit b :: piecesOf false bs

theorem replaceParameters_eq (skip : Bool) (text : Bytes) :
    replaceParameters skip text = (piecesOf skip text).flatMap Piece.text := by
  induction text generalizing skip with
  | nil => rfl
  | cons b bs ih =>
      rw [replaceParameters, piecesOf]
      split_ifs
      · rw [ih]
        rfl
      · rw [ih]
        rfl
      · exact ih true
      · rw [ih]
        rfl

/-- The pieces take over characters of the pattern. -/
theorem mem_of_lit_mem_piecesOf {skip : Bool} {text : Bytes} {b : UInt8}
    (h : .lit b ∈ piecesOf skip text) : b ∈ text := by
  induction text generalizing skip with
  | nil => cases h
  | cons c bs ih =>
      rw [piecesOf] at h
      split_ifs at h with hslash hstarts hskip
      · rcases List.mem_cons.mp h with heq | h
        · cases heq
          exact hslash ▸ List.mem_cons_self
        · rcases List.mem_cons.mp h with heq | h
          · cases heq
          · exact List.mem_cons_of_mem c (ih h)
      · rcases List.mem_cons.mp h with heq | h
        · cases heq
          exact hslash ▸ List.mem_cons_self
        · exact List.mem_cons_of_mem c (ih h)
      · exact List.mem_cons_of_mem c (ih h)
      · rcases List.mem_cons.mp h with heq | h
        · cases heq
          exact List.mem_cons_self
        · exact List.mem_cons_of_mem c (ih h)

/-- The expression goes through the pattern segment by segment. -/
theorem items_piecesOf {text first : Bytes} {words : List Bytes}
    (h : text.splitOn 47 = first :: words) :
    (piecesOf false text).map Piece.item =
        first.map .lit ++ itemsOfAll 47 (words.map segmentOf) ∧
      (piecesOf true text).map Piece.item = itemsOfAll 47 (words.map segmentOf) := by
  induction text generalizing first words with
  | nil =>
      cases h
      exact ⟨rfl, rfl⟩
  | cons b bs ih =>
      obtain ⟨next, rest, hnext⟩ := List.exists_cons_of_ne_nil (List.splitOn_ne_nil 47 bs)
      obtain ⟨hread, hskip⟩ := ih hnext
      rw [splitOn_cons_eq, hnext] at h
      unfold piecesOf
      by_cases hb : b = 47
      · rw [if_pos hb] at h
        cases h
        rw [if_pos hb, if_pos hb]
        -- a slash, and behind it a segment that is a parameter or a text
        have hslash : (if startsParameter bs = true then
            Piece.lit 47 :: .parameter :: piecesOf true bs
            else Piece.lit 47 :: piecesOf false bs).map Piece.item =
              itemsOfAll 47 ((next :: rest).map segmentOf) := by
          rw [itemsOfAll, List.map_cons, List.flatMap_cons, ← itemsOfAll]
          by_cases hany : segmentOf next = .any
          · rw [if_pos ((segmentOf_eq_any_iff hnext).mpr hany), hany, List.map_cons, List.map_cons,
              hskip]
            rfl
          · rw [if_neg fun hstarts ↦ hany ((segmentOf_eq_any_iff hnext).mp hstarts),
              segmentOf_eq_text hany, List.map_cons, hread]
            rfl
        exact ⟨hslash, hslash⟩
      · rw [if_neg hb] at h
        cases h
        rw [if_neg hb, if_neg hb, if_neg Bool.false_ne_true, if_pos rfl]
        exact ⟨by rw [List.map_cons, hread]; rfl, hskip⟩

theorem segmented_map (words : List Bytes) (h : ∀ word ∈ words, (47 : UInt8) ∉ word) :
    Segmented 47 (words.map segmentOf) := by
  induction words with
  | nil => trivial
  | cons word words ih =>
      obtain ⟨hword, hwords⟩ := List.forall_mem_cons.mp h
      rw [List.map_cons]
      by_cases hany : segmentOf word = .any
      · rw [hany]
        exact ih hwords
      · rw [segmentOf_eq_text hany]
        exact ⟨hword, ih hwords⟩

theorem notMem_of_mem_splitOn {text word : Bytes} (h : word ∈ text.splitOn 47) :
    (47 : UInt8) ∉ word := by
  induction text generalizing word with
  | nil =>
      rw [List.splitOn_nil, List.mem_singleton] at h
      rw [h]
      exact List.not_mem_nil
  | cons b bs ih =>
      rw [splitOn_cons_eq] at h
      obtain ⟨next, rest, hnext⟩ := List.exists_cons_of_ne_nil (List.splitOn_ne_nil 47 bs)
      rw [hnext] at h ih
      split_ifs at h with hb
      · rcases List.mem_cons.mp h with rfl | h
        · exact List.not_mem_nil
        · exact ih h
      · rcases List.mem_cons.mp h with rfl | h
        · exact List.not_mem_cons_of_ne_of_not_mem (Ne.symm hb) (ih List.mem_cons_self)
        · exact ih (List.mem_cons_of_mem _ h)

/-- The pieces of a pattern match the paths of its form, and capture the parameters. -/
theorem fullMatch_piecesOf (pathPattern path : Bytes) :
    fullMatch ((piecesOf false pathPattern).map Piece.item) path =
      parametersOf pathPattern path := by
  obtain ⟨first, words, hsplit⟩ :=
    List.exists_cons_of_ne_nil (List.splitOn_ne_nil 47 pathPattern)
  have hnoslash : ∀ word ∈ first :: words, (47 : UInt8) ∉ word := fun word hword ↦
    notMem_of_mem_splitOn (hsplit ▸ hword)
  obtain ⟨hfirst, hwords⟩ := List.forall_mem_cons.mp hnoslash
  have hitems := (items_piecesOf hsplit).1
  have hdelimited : Delimited ((piecesOf false pathPattern).map Piece.item) := by
    rw [hitems]
    clear hitems hsplit hnoslash hfirst
    induction first with
    | nil => exact delimited_itemsOfAll 47 _
    | cons b first ih => exact ih
  refine Option.ext fun captures ↦ ?_
  unfold parametersOf segmentsOf
  rw [hsplit]
  dsimp only
  rw [fullMatch_eq_some_iff hdelimited, hitems, matches_text_append, fit_eq_some_iff]
  constructor
  · rintro ⟨later, rfl, hlater⟩
    obtain ⟨found, rfl, hfound, hfits⟩ :=
      (matches_itemsOfAll 47 (segmented_map words hwords)).mp hlater
    rw [(joinAll_eq_iff 47 hfirst hfound _).mp rfl]
    exact .text hfits
  · intro hfits
    generalize hpath : path.splitOn 47 = all at hfits
    cases hfits with
    | @text _ _ found _ hfits =>
        have hfound : ∀ word ∈ found, (47 : UInt8) ∉ word := fun word hword ↦
          notMem_of_mem_splitOn (hpath ▸ List.mem_cons_of_mem first hword)
        exact ⟨joinAll 47 found, (joinAll_eq_iff 47 hfirst hfound path).mpr hpath,
          (matches_itemsOfAll 47 (segmented_map words hwords)).mpr ⟨found, rfl, hfound, hfits⟩⟩

/-- A pattern without characters that stand for something else matches the paths of its
form, and captures the parameters. -/
theorem captured_of_plain (library : RegexLibrary) {pathPattern : Bytes}
    (hplain : Plain pathPattern) (path : Bytes) :
    captured library pathPattern path = parametersOf pathPattern path := by
  obtain ⟨pathRegex, hregex, hmatch⟩ :=
    library.regexMatch_pieces (piecesOf false pathPattern) fun b hb ↦
      hplain b (mem_of_lit_mem_piecesOf hb)
  rw [captured, convertToRegex, replaceParameters_eq, hregex, Option.bind_some, hmatch,
    fullMatch_piecesOf]

/-! ## The table of routes -/

/-- The handler that a call registers for a request. -/
def handlerFor (req : HttpRequest) : Registration H → Option H
  | .registerHandler method path handler =>
      if method = req.method ∧ path = req.path then some handler else none
  | _ => none

def callbackFor (req : HttpRequest) : Registration H → Option H
  | .registerCallback method path callback =>
      if method = req.method ∧ path = req.path then some callback else none
  | _ => none

/-- The handler that a call registers for the paths that match its pattern, with what is
captured. -/
def regexHandlerFor (library : RegexLibrary) (req : HttpRequest) :
    Registration H → Option (H × List Bytes)
  | .addRegexHandler method path handler =>
      if method = req.method then (captured library path req.path).map (handler, ·) else none
  | _ => none

def regexCallbackFor (library : RegexLibrary) (req : HttpRequest) :
    Registration H → Option (H × List Bytes)
  | .addRegexCallback method path callback =>
      if method = req.method then (captured library path req.path).map (callback, ·) else none
  | _ => none

/-- What the routes say is to be called: the last handler for the method and the path, else
the last callback, else the first handler with a pattern that the path matches, else the
first such callback. -/
def chosen (library : RegexLibrary) (regs : List (Registration H)) (req : HttpRequest) :
    Option (H × List Bytes) :=
  ((regs.reverse.findSome? (handlerFor req)).map (·, [])).or
    (((regs.reverse.findSome? (callbackFor req)).map (·, [])).or
      ((regs.findSome? (regexHandlerFor library req)).or
        (regs.findSome? (regexCallbackFor library req))))

theorem lookup_assign (entries : List ((Method × Bytes) × H)) (key key' : Method × Bytes)
    (handler : H) :
    (assign entries key handler).lookup key' =
      if key' = key then some handler else entries.lookup key' := by
  rw [assign, List.lookup_cons]
  by_cases h : key' = key
  · rw [if_pos h, h, beq_self_eq_true]
  · rw [if_neg h, beq_eq_false_iff_ne.mpr h]
    exact (OrderedMap.lookup_filter_ne entries key key').trans (if_neg h)

variable {library : RegexLibrary}

theorem findRegex_append (req : HttpRequest) (routes routes' : List (Method × library.Regex × H)) :
    findRegex library req (routes ++ routes') =
      (findRegex library req routes).or (findRegex library req routes') := by
  induction routes with
  | nil => rfl
  | cons entry routes ih =>
      obtain ⟨method, pathRegex, handler⟩ := entry
      rw [List.cons_append, findRegex, findRegex]
      split_ifs
      · cases library.regexMatch req.path pathRegex with
        | some groups => rfl
        | none => exact ih
      · exact ih

/-- One more dynamic route answers to the paths that match its pattern, if it has been
registered. -/
theorem findRegex_snoc (req : HttpRequest) (routes : List (Method × library.Regex × H))
    (method : Method) (path : Bytes) (handler : H) :
    findRegex library req
        (match convertToRegex library path with
        | some pathRegex => routes ++ [(method, pathRegex, handler)]
        | none => routes) =
      (findRegex library req routes).or
        ((if method = req.method then (captured library path req.path).map (handler, ·)
          else none).map fun p ↦ (p.1, extractPathParameters p.2 (.ofRequest req))) := by
  unfold captured
  cases hregex : convertToRegex library path with
  | none =>
      rw [Option.bind_none, Option.map_none, ite_self, Option.map_none, Option.or_none]
  | some pathRegex =>
      rw [findRegex_append, findRegex, Option.bind_some]
      congr 1
      split_ifs
      · cases library.regexMatch req.path pathRegex with
        | some groups => rfl
        | none => rfl
      · rfl

/-- The tables of the router say what the calls have registered. -/
structure Holds (router : Router library.Regex H) (regs : List (Registration H))
    (req : HttpRequest) : Prop where
  handlers : router.handlers.lookup (req.method, req.path) =
    regs.reverse.findSome? (handlerFor req)
  callbacks : router.callbacks.lookup (req.method, req.path) =
    regs.reverse.findSome? (callbackFor req)
  regexHandlers : findRegex library req router.regexHandlers =
    (regs.findSome? (regexHandlerFor library req)).map fun p ↦
      (p.1, extractPathParameters p.2 (.ofRequest req))
  regexCallbacks : findRegex library req router.regexCallbacks =
    (regs.findSome? (regexCallbackFor library req)).map fun p ↦
      (p.1, extractPathParameters p.2 (.ofRequest req))

variable {req : HttpRequest}

theorem Holds.register {router : Router library.Regex H} {regs : List (Registration H)}
    (h : router.Holds regs req) (reg : Registration H) :
    (Router.register library router reg).Holds (regs ++ [reg]) req := by
  have hkey : ∀ (method : Method) (path : Bytes),
      (req.method, req.path) = (method, path) ↔ method = req.method ∧ path = req.path :=
    fun method path ↦ by rw [Prod.mk.injEq, eq_comm, @eq_comm _ req.path]
  cases reg with
  | registerHandler method path handler =>
      refine ⟨?_, ?_, ?_, ?_⟩
      · rw [Router.register, lookup_assign, List.reverse_append, List.reverse_singleton,
          List.singleton_append, List.findSome?_cons, handlerFor, h.handlers]
        simp only [hkey]
        split_ifs
        · rfl
        · rfl
      · simpa [Router.register, callbackFor, List.findSome?_cons] using h.callbacks
      · simpa [Router.register, regexHandlerFor, List.findSome?_append] using h.regexHandlers
      · simpa [Router.register, regexCallbackFor, List.findSome?_append] using h.regexCallbacks
  | registerCallback method path callback =>
      refine ⟨?_, ?_, ?_, ?_⟩
      · simpa [Router.register, handlerFor, List.findSome?_cons] using h.handlers
      · rw [Router.register, lookup_assign, List.reverse_append, List.reverse_singleton,
          List.singleton_append, List.findSome?_cons, callbackFor, h.callbacks]
        simp only [hkey]
        split_ifs
        · rfl
        · rfl
      · simpa [Router.register, regexHandlerFor, List.findSome?_append] using h.regexHandlers
      · simpa [Router.register, regexCallbackFor, List.findSome?_append] using h.regexCallbacks
  | addRegexHandler method path handler =>
      have hsnoc := findRegex_snoc req router.regexHandlers method path handler
      rw [h.regexHandlers] at hsnoc
      rw [Router.register]
      cases hregex : convertToRegex library path with
      | some pathRegex =>
          rw [hregex] at hsnoc
          refine ⟨?_, ?_, ?_, ?_⟩
          · simpa [handlerFor, List.findSome?_cons] using h.handlers
          · simpa [callbackFor, List.findSome?_cons] using h.callbacks
          · rw [hsnoc, List.findSome?_append, ← Option.map_or, List.findSome?_singleton,
              regexHandlerFor]
          · simpa [regexCallbackFor, List.findSome?_append] using h.regexCallbacks
      | none =>
          rw [hregex, ← h.regexHandlers] at hsnoc
          refine ⟨?_, ?_, ?_, ?_⟩
          · simpa [handlerFor, List.findSome?_cons] using h.handlers
          · simpa [callbackFor, List.findSome?_cons] using h.callbacks
          · rw [hsnoc, h.regexHandlers, List.findSome?_append, ← Option.map_or,
              List.findSome?_singleton, regexHandlerFor]
          · simpa [regexCallbackFor, List.findSome?_append] using h.regexCallbacks
  | addRegexCallback method path callback =>
      have hsnoc := findRegex_snoc req router.regexCallbacks method path callback
      rw [Router.register]
      cases hregex : convertToRegex library path with
      | some pathRegex =>
          rw [hregex] at hsnoc
          refine ⟨?_, ?_, ?_, ?_⟩
          · simpa [handlerFor, List.findSome?_cons] using h.handlers
          · simpa [callbackFor, List.findSome?_cons] using h.callbacks
          · simpa [regexHandlerFor, List.findSome?_append] using h.regexHandlers
          · rw [hsnoc, h.regexCallbacks, List.findSome?_append, ← Option.map_or,
              List.findSome?_singleton, regexCallbackFor]
      | none =>
          rw [hregex] at hsnoc
          refine ⟨?_, ?_, ?_, ?_⟩
          · simpa [handlerFor, List.findSome?_cons] using h.handlers
          · simpa [callbackFor, List.findSome?_cons] using h.callbacks
          · simpa [regexHandlerFor, List.findSome?_append] using h.regexHandlers
          · rw [hsnoc, h.regexCallbacks, List.findSome?_append, ← Option.map_or,
              List.findSome?_singleton, regexCallbackFor]

theorem holds_build (regs : List (Registration H)) (req : HttpRequest) :
    (build library regs).Holds regs req := by
  induction regs using List.reverseRecOn with
  | nil => exact ⟨rfl, rfl, rfl, rfl⟩
  | append_singleton regs reg ih =>
      rw [build, List.foldl_append]
      exact ih.register reg

/-- The parameters behind the pass `i` have later names. -/
theorem getPathParameters_extractFrom (groups : List Bytes) (i k : ℕ) (r : RoutedRequest) :
    (extractFrom i groups r).getPathParameters (ascii "param" ++ decimal k) =
      if i ≤ k ∧ k < i + groups.length then groups.getD (k - i) []
      else r.getPathParameters (ascii "param" ++ decimal k) := by
  induction groups generalizing i r with
  | nil => rw [extractFrom, List.length_nil, if_neg (by omega)]
  | cons group groups ih =>
      rw [extractFrom, ih, List.length_cons]
      have hset : (r.setPathParameters (ascii "param" ++ decimal i) group).getPathParameters
          (ascii "param" ++ decimal k) =
            if k = i then group else r.getPathParameters (ascii "param" ++ decimal k) := by
        rw [RoutedRequest.getPathParameters, RoutedRequest.setPathParameters, lookup_assignField]
        by_cases hk : k = i
        · rw [if_pos (by rw [hk]), if_pos hk, Option.getD_some]
        · rw [if_neg fun heq ↦ hk (decimal_injective (List.append_cancel_left heq)), if_neg hk,
            RoutedRequest.getPathParameters]
      rw [hset]
      by_cases hk : k = i
      · subst hk
        rw [if_neg (by omega), if_pos rfl, if_pos (by omega), Nat.sub_self, List.getD_cons_zero]
      · by_cases hlater : i + 1 ≤ k ∧ k < i + 1 + groups.length
        · obtain ⟨j, rfl⟩ : ∃ j, k = i + 1 + j := ⟨k - (i + 1), by omega⟩
          rw [if_pos hlater, if_pos (by omega), show i + 1 + j - i = j + 1 by omega,
            List.getD_cons_succ, Nat.add_sub_cancel_left]
        · rw [if_neg hlater, if_neg hk, if_neg (by omega)]

theorem toHttpRequest_extractFrom (groups : List Bytes) (i : ℕ) (r : RoutedRequest) :
    (extractFrom i groups r).toHttpRequest = r.toHttpRequest := by
  induction groups generalizing i r with
  | nil => rfl
  | cons group groups ih =>
      rw [extractFrom, ih]
      rfl

/-- Whatever routes have been registered, a request is given to the handler that the table
of routes says, or to none if there is none.  The handler gets the request itself, with what
the group `k + 1` has captured under the name `param` with this number.  For a pattern
without characters that stand for something else these are the segments of its parameters. -/
theorem routed_as_registered (library : RegexLibrary) (regs : List (Registration H))
    (req : HttpRequest) :
    (route library (build library regs) req).map Prod.fst =
        (chosen library regs req).map Prod.fst ∧
      (∀ called request, route library (build library regs) req = some (called, request) →
        request.toHttpRequest = req ∧ ∃ groups, chosen library regs req = some (called, groups) ∧
          ∀ k, request.getPathParameters (ascii "param" ++ decimal (k + 1)) =
            groups.getD k []) ∧
      ∀ pathPattern, Plain pathPattern →
        ∀ path, captured library pathPattern path = parametersOf pathPattern path := by
  have h : (build library regs).Holds regs req := holds_build regs req
  have hroute : route library (build library regs) req = (chosen library regs req).map fun p ↦
      (p.1, extractPathParameters p.2 (.ofRequest req)) := by
    unfold route chosen
    rw [h.handlers, h.callbacks, h.regexHandlers, h.regexCallbacks]
    cases regs.reverse.findSome? (handlerFor req) with
    | some handler => rfl
    | none =>
        cases regs.reverse.findSome? (callbackFor req) with
        | some callback => rfl
        | none =>
            cases regs.findSome? (regexHandlerFor library req) with
            | some p => rfl
            | none => rfl
  refine ⟨?_, fun called request hcalled ↦ ?_, fun pathPattern hplain ↦
    captured_of_plain library hplain⟩
  · rw [hroute, Option.map_map]
    rfl
  · rw [hroute] at hcalled
    obtain ⟨⟨called', groups⟩, hchosen, heq⟩ := Option.map_eq_some_iff.mp hcalled
    obtain ⟨rfl, rfl⟩ := Prod.mk.inj heq
    refine ⟨toHttpRequest_extractFrom groups 1 _, groups, hchosen, fun k ↦ ?_⟩
    have hget := getPathParameters_extractFrom groups 1 (k + 1) (.ofRequest req)
    rw [Nat.add_sub_cancel] at hget
    refine hget.trans ?_
    split_ifs with hk
    · rfl
    · rw [List.getD_eq_getElem?_getD, List.getElem?_eq_none (by omega)]
      rfl

/-- A parameter is a whole segment that is not empty. -/
example : Plain (ascii "/user/:id") ∧
    parametersOf (ascii "/user/:id") (ascii "/user/42") = some [ascii "42"] ∧
    parametersOf (ascii "/user/:id") (ascii "/user/") = none ∧
    parametersOf (ascii "/user/:id") (ascii "/user/42/posts") = none := by
  decide +kernel

end Router

namespace RegexLibrary

/-- The pieces that are written in a text, if it has no others. -/
def readPieces : Bytes → Option (List Piece)
  | [] => some []
  | 40 :: 91 :: 94 :: 47 :: 93 :: 43 :: 41 :: bs => (readPieces bs).map (.parameter :: ·)
  | b :: bs => if b ∈ metacharacters then none else (readPieces bs).map (.lit b :: ·)

theorem readPieces_text {pieces : List Piece}
    (h : ∀ b, Piece.lit b ∈ pieces → b ∉ metacharacters) :
    readPieces (pieces.flatMap Piece.text) = some pieces := by
  induction pieces with
  | nil => rfl
  | cons piece pieces ih =>
      have hrest := ih fun b hb ↦ h b (List.mem_cons_of_mem piece hb)
      cases piece with
      | parameter =>
          change (readPieces (pieces.flatMap Piece.text)).map (Piece.parameter :: ·) = _
          rw [hrest, Option.map_some]
      | lit b =>
          have hb := h b List.mem_cons_self
          rw [List.flatMap_cons, Piece.text, List.singleton_append, readPieces, if_neg hb, hrest,
            Option.map_some]
          rintro bs heq -
          subst heq
          exact hb (by decide +kernel)

/-- The part of the library that knows the expressions of pieces only. -/
def ofPieces : RegexLibrary where
  Regex := List Piece
  regex text := readPieces text.tail.dropLast
  regexMatch path pieces := fullMatch (pieces.map Piece.item) path
  regexMatch_pieces pieces h := by
    refine ⟨pieces, ?_, fun _ ↦ rfl⟩
    rw [show ascii "^" = [94] by decide +kernel, show ascii "$" = [36] by decide +kernel,
      List.singleton_append, List.cons_append, List.tail_cons, List.dropLast_concat,
      readPieces_text h]

end RegexLibrary

end HttpRaftKv.Http
