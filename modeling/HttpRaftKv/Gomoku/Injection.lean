import HttpRaftKv.Gomoku.Accounts
import HttpRaftKv.Gomoku.Framing
import HttpRaftKv.Lib.ScriptMarks
import HttpRaftKv.Lib.StringLiteral

/-!
# Names in scripts

Two pages are served with the name of the user in a script.  The name should stay a value:
the script reads it back as it is, and the script element ends where the server ends it.
`MenuHandler` escapes the name for the literal, `/pvp` does not, and neither of them looks
for the marks of HTML.
-/

namespace HttpRaftKv.Gomoku

open Http Throwing

/-! ## What is asked of the pages -/

/-- The script in front of the name. -/
def scriptStart (userId : ℤ) : Bytes :=
  ascii "var INJECTED_USERID = '" ++ utf8 (toString userId) ++
    ascii "';var INJECTED_USERNAME = '"

/-- The text between the quotes is a literal with the name as its value. -/
def Decodes (text username : Bytes) : Prop :=
  ∃ body name, fromUTF8? text = some body ∧ fromUTF8? username = some name ∧
    StringLiteral.value (ScriptData.content body.toList) = some (StringLiteral.encode name.toList)

/-- The page has a script element in it that ends where it should, with a literal for the
name. -/
def Contains (page before rest : Bytes) (userId : ℤ) (username : Bytes) : Prop :=
  ∃ text, page = before ++ (ascii "<script>" ++ (scriptStart userId ++ text ++
      ascii "';</script>")) ++ rest ∧
    Decodes text username ∧
      ScriptData.element .data (scriptStart userId ++ text ++ ascii "';</script>" ++ rest) =
        some (scriptStart userId ++ text ++ ascii "';</script", ascii ">" ++ rest)

/-- A request of a user who is logged in. -/
structure Visit (r : HttpRequest) (e : Exchange) (userId : ℤ) (username : Bytes) : Prop where
  fresh : Fresh e
  loggedIn : e.LoggedIn r
  userId_eq : (e.current r).getValue (ascii "userId") = utf8 (toString userId)
  userId? : e.userId? r = some userId
  username_eq : (e.current r).getValue (ascii "username") = username

/-- A page with this body is served. -/
def Serves (x : Handling Unit) (e : Exchange) (body : Bytes → Prop) : Prop :=
  Ends x e (fun _ e' ↦ body e'.resp.body) fun _ _ ↦ False

/-- Whoever has this name and whatever the pages are, the name stays a value in both. -/
structure StaysData (username : Bytes) : Prop where
  menu : ∀ cs r e userId, Visit r e userId username → ∀ page before rest,
    cs.openFile "menu.html" = some page → findText (ascii "</head>") page = some (before, rest) →
      Serves (MenuHandler.handle cs r) e fun body ↦ Contains body before rest userId username
  pvp : ∀ cs r e userId, Visit r e userId username → ∀ page before rest,
    cs.files (resource "ChessGameVsPlayer.html") = some page →
      findText (ascii "</head>") page = some (before, rest) →
        Serves (GomokuServer.pvp cs r) e fun body ↦ Contains body before rest userId username

/-- The marks of HTML in the text neither end the script element nor hide its end. -/
def Contained (text : Bytes) : Prop :=
  ∃ level, ScriptData.Level.data.scan (text.map ScriptData.lower) = some level ∧
    level ≠ .doubleEscaped

/-- The name is a text in which no character has a meaning of its own in a literal, no null
character, and no mark of HTML that counts. -/
structure Harmless (username : Bytes) : Prop where
  isUTF8 : IsUTF8 username
  backslash : 92 ∉ username
  quote : 39 ∉ username
  lineFeed : 10 ∉ username
  carriageReturn : 13 ∉ username
  null : 0 ∉ username
  contained : Contained username

/-! ## What the handlers serve -/

theorem serves_iff {x : Handling Unit} {e : Exchange} {served : Bytes}
    (h : Serves x e (· = served)) (body : Bytes → Prop) : Serves x e body ↔ body served := by
  unfold Serves Ends at *
  cases hx : x e with
  | ok value e' =>
      rw [hx] at h
      rw [← h]
      rfl
  | error text e' =>
      rw [hx] at h
      exact h.elim

section Handlers

variable {cs : Surroundings} {r : HttpRequest} {e : Exchange} {userId : ℤ} {username page : Bytes}

theorem serves_menu (h : Visit r e userId username) (hpage : cs.openFile "menu.html" = some page) :
    Serves (MenuHandler.handle cs r) e (· = MenuHandler.content page userId username) := by
  apply (ends_tryCatch _ _).mpr
  refine ends_session h.fresh (fun hnot ↦ absurd h.loggedIn hnot) ?_
  intro _ sessionId e' hopened
  apply (ends_bind _ _).mpr
  refine hopened.ends_stoiUserId.mpr ⟨fun userId' huserId ↦ ?_, fun hnone ↦ ?_⟩
  · apply (ends_bind _ _).mpr
    apply ends_getValue.mpr
    apply (ends_bind _ _).mpr
    apply ends_readFile.mpr
    refine ⟨fun page' hpage' ↦ ?_, fun hnone ↦ ?_⟩
    · rw [h.userId?] at huserId
      rw [hpage] at hpage'
      cases huserId
      cases hpage'
      rw [hopened.values, h.username_eq]
      exact rfl
    · rw [hpage] at hnone
      cases hnone
  · rw [h.userId?] at hnone
    cases hnone

theorem serves_pvp (h : Visit r e userId username)
    (hpage : cs.files (resource "ChessGameVsPlayer.html") = some page) :
    Serves (GomokuServer.pvp cs r) e (· = injectUser page (utf8 (toString userId)) username) := by
  refine ends_session h.fresh (fun hnot ↦ absurd h.loggedIn hnot) ?_
  intro _ sessionId e' hopened
  apply (ends_bind _ _).mpr
  apply ends_getValue.mpr
  apply (ends_bind _ _).mpr
  apply ends_getValue.mpr
  rw [hpage, hopened.values, hopened.values, h.userId_eq, h.username_eq]
  exact rfl

end Handlers

/-! ## Characters and bytes -/

theorem utf8_ofList (cs : List Char) :
    utf8 (String.ofList cs) = cs.flatMap String.utf8EncodeChar := by
  rw [utf8_eq_flatMap, String.toList_ofList]

theorem eq_utf8_of_fromUTF8? {bytes : Bytes} {text : String} (h : fromUTF8? bytes = some text) :
    bytes = utf8 text := by
  unfold fromUTF8? String.fromUTF8? at h
  split_ifs at h with hvalid
  cases h
  rfl

/-- A byte of a character beyond ASCII is none of ASCII. -/
theorem utf8EncodeChar_cases (c : Char) :
    (c.toNat < 128 ∧ String.utf8EncodeChar c = [UInt8.ofNat c.toNat]) ∨
      (128 ≤ c.toNat ∧ ∀ b ∈ String.utf8EncodeChar c, 128 ≤ b.toNat) := by
  by_cases hc : c.toNat < 128
  · exact .inl ⟨hc, utf8EncodeChar_of_lt hc⟩
  · refine .inr ⟨Nat.not_lt.mp hc, fun b hb ↦ ?_⟩
    have hval : ¬ c.val.toNat ≤ 127 := fun hle ↦ hc (Nat.lt_succ_of_le hle)
    have hbyte : ∀ k : ℕ, 128 ≤ k → k < 256 → 128 ≤ (UInt8.ofNat k).toNat := by
      intro k hk hlt
      rw [UInt8.toNat_ofNat']
      omega
    unfold String.utf8EncodeChar at hb
    simp only [hval, if_false] at hb
    split_ifs at hb <;> simp only [List.mem_cons, List.not_mem_nil, or_false] at hb
    · rcases hb with rfl | rfl
      · exact hbyte _ (by omega) (by omega)
      · exact hbyte _ (by omega) (by omega)
    · rcases hb with rfl | rfl | rfl
      · exact hbyte _ (by omega) (by omega)
      · exact hbyte _ (by omega) (by omega)
      · exact hbyte _ (by omega) (by omega)
    · rcases hb with rfl | rfl | rfl | rfl
      · exact hbyte _ (by omega) (by omega)
      · exact hbyte _ (by omega) (by omega)
      · exact hbyte _ (by omega) (by omega)
      · exact hbyte _ (by omega) (by omega)

theorem mem_utf8EncodeChar_iff {d : Char} (hd : d.toNat < 128) (c : Char) :
    UInt8.ofNat d.toNat ∈ String.utf8EncodeChar c ↔ d = c := by
  have hbyte : (UInt8.ofNat d.toNat).toNat = d.toNat := by
    rw [UInt8.toNat_ofNat']
    omega
  rcases utf8EncodeChar_cases c with ⟨hc, hone⟩ | ⟨hc, hbeyond⟩
  · rw [hone, List.mem_singleton]
    constructor
    · intro h
      have hnat := congrArg UInt8.toNat h
      rw [hbyte, UInt8.toNat_ofNat', Nat.mod_eq_of_lt (by omega)] at hnat
      exact Char.toNat_inj.mp hnat
    · rintro rfl
      rfl
  · refine iff_of_false (fun h ↦ ?_) ?_
    · have := hbeyond _ h
      omega
    · rintro rfl
      omega

/-- A character of ASCII is in a text exactly if its byte is. -/
theorem mem_utf8_iff {d : Char} (hd : d.toNat < 128) (text : String) :
    UInt8.ofNat d.toNat ∈ utf8 text ↔ d ∈ text.toList := by
  rw [utf8_eq_flatMap, List.mem_flatMap]
  simp only [mem_utf8EncodeChar_iff hd]
  exact exists_eq_right'

/-! ## The escape of `MenuHandler` -/

/-- `escapeForJsString` for one character. -/
def escapeChar (c : Char) : List Char :=
  if c = '\x5c' then ['\x5c', '\x5c']
  else if c = '\x27' then ['\x5c', '\x27']
  else if c = '\x22' then ['\x5c', '\x22']
  else if c = '\n' then ['\x5c', 'n']
  else if c = '\r' then ['\x5c', 'r']
  else [c]

theorem escapeForJsString_append (s more : Bytes) :
    MenuHandler.escapeForJsString (s ++ more) =
      MenuHandler.escapeForJsString s ++ MenuHandler.escapeForJsString more :=
  List.flatMap_append

theorem escapeForJsString_eq_self {s : Bytes}
    (h : ∀ b ∈ s, b ≠ 92 ∧ b ≠ 39 ∧ b ≠ 34 ∧ b ≠ 10 ∧ b ≠ 13) :
    MenuHandler.escapeForJsString s = s := by
  have hbyte : ∀ b ∈ s, MenuHandler.escapeForJsString [b] = [b] := by
    intro b hb
    obtain ⟨hbackslash, hquote, hdouble, hfeed, hreturn⟩ := h b hb
    simp [MenuHandler.escapeForJsString, hbackslash, hquote, hdouble, hfeed, hreturn]
  induction s with
  | nil => rfl
  | cons b s ih =>
      have hrest := ih (fun c hc ↦ h c (List.mem_cons_of_mem b hc))
        fun c hc ↦ hbyte c (List.mem_cons_of_mem b hc)
      rw [← List.singleton_append, escapeForJsString_append, hbyte b List.mem_cons_self, hrest]

theorem escapeForJsString_utf8EncodeChar (c : Char) :
    MenuHandler.escapeForJsString (String.utf8EncodeChar c) =
      (escapeChar c).flatMap String.utf8EncodeChar := by
  unfold escapeChar
  split_ifs with hbackslash hquote hdouble hfeed hreturn
  · rw [hbackslash]
    decide +kernel
  · rw [hquote]
    decide +kernel
  · rw [hdouble]
    decide +kernel
  · rw [hfeed]
    decide +kernel
  · rw [hreturn]
    decide +kernel
  · rw [List.flatMap_singleton]
    refine escapeForJsString_eq_self fun b hb ↦ ?_
    have hne : ∀ d : Char, d.toNat < 128 → c ≠ d → b ≠ UInt8.ofNat d.toNat := by
      rintro d hd hcd rfl
      exact hcd ((mem_utf8EncodeChar_iff hd c).mp hb).symm
    exact ⟨hne '\x5c' (by decide) hbackslash, hne '\x27' (by decide) hquote,
      hne '\x22' (by decide) hdouble, hne '\n' (by decide) hfeed, hne '\r' (by decide) hreturn⟩

/-- The escape of a name is that of its characters. -/
theorem escapeForJsString_utf8 (name : String) :
    MenuHandler.escapeForJsString (utf8 name) =
      utf8 (String.ofList (name.toList.flatMap escapeChar)) := by
  rw [utf8_ofList, utf8_eq_flatMap]
  induction name.toList with
  | nil => rfl
  | cons c cs ih =>
      rw [List.flatMap_cons, escapeForJsString_append, ih, escapeForJsString_utf8EncodeChar,
        List.flatMap_cons, List.flatMap_append]

theorem content_append (cs more : List Char) :
    ScriptData.content (cs ++ more) = ScriptData.content cs ++ ScriptData.content more :=
  List.map_append

theorem value_content_escapeChar (c : Char) (text : List Char) :
    StringLiteral.value (ScriptData.content (escapeChar c) ++ text) =
      (StringLiteral.value text).map (StringLiteral.encode (ScriptData.content [c]) ++ ·) := by
  unfold escapeChar
  have hescape : ∀ d k, StringLiteral.escape (d :: text) = some ([k], text) →
      StringLiteral.value ('\x5c' :: d :: text) = (StringLiteral.value text).map ([k] ++ ·) :=
    fun _ _ h ↦ StringLiteral.value_escape h
  split_ifs with hbackslash hquote hdouble hfeed hreturn
  · rw [hbackslash]
    exact hescape '\x5c' 92 rfl
  · rw [hquote]
    exact hescape '\x27' 39 rfl
  · rw [hdouble]
    exact hescape '\x22' 34 rfl
  · rw [hfeed]
    exact hescape 'n' 10 rfl
  · rw [hreturn]
    exact hescape 'r' 13 rfl
  · have hraw : StringLiteral.Raw (if c = '\x00' then '\uFFFD' else c) := by
      split_ifs
      · decide
      · exact ⟨hbackslash, hquote, hfeed, hreturn⟩
    refine (StringLiteral.value_raw hraw text).trans ?_
    rw [ScriptData.content, List.map_singleton, StringLiteral.encode_cons,
      StringLiteral.encode_nil, List.append_nil]

/-- Every name is the value of its escape, but for null characters. -/
theorem value_content_escape (cs : List Char) :
    StringLiteral.value (ScriptData.content (cs.flatMap escapeChar)) =
      some (StringLiteral.encode (ScriptData.content cs)) := by
  induction cs with
  | nil => rfl
  | cons c cs ih =>
      rw [List.flatMap_cons, content_append, value_content_escapeChar, ih, Option.map_some,
        ← StringLiteral.encode_append, ← content_append, List.singleton_append]

/-! ## Literals -/

theorem content_eq_self {cs : List Char} (h : '\x00' ∉ cs) : ScriptData.content cs = cs := by
  have hid : ∀ c ∈ cs, (if c = '\x00' then '\uFFFD' else c) = id c := by
    rintro c hc
    refine if_neg ?_
    rintro rfl
    exact h hc
  exact (List.map_congr_left hid).trans (List.map_id cs)

theorem length_encode_content (cs : List Char) :
    (StringLiteral.encode (ScriptData.content cs)).length = (StringLiteral.encode cs).length := by
  induction cs with
  | nil => rfl
  | cons c cs ih =>
      have hunits : (StringLiteral.units (if c = '\x00' then '\uFFFD' else c).toNat).length =
          (StringLiteral.units c.toNat).length := by
        split_ifs with hnull
        · rw [hnull]
          rfl
        · rfl
      rw [ScriptData.content, List.map_cons, StringLiteral.encode_cons, StringLiteral.encode_cons,
        List.length_append, List.length_append, hunits]
      exact congrArg _ ih

theorem notMem_of_encode_content {cs : List Char}
    (h : StringLiteral.encode (ScriptData.content cs) = StringLiteral.encode cs) :
    '\x00' ∉ cs := by
  induction cs with
  | nil => exact List.not_mem_nil
  | cons c cs ih =>
      rw [ScriptData.content, List.map_cons, StringLiteral.encode_cons,
        StringLiteral.encode_cons] at h
      by_cases hnull : c = '\x00'
      · rw [hnull, if_pos rfl] at h
        have hfirst : some 0xFFFD = some 0 := congrArg List.head? h
        exact absurd hfirst (by decide)
      · rw [if_neg hnull] at h
        have hrest := ih (List.append_cancel_left h)
        rw [List.mem_cons, not_or]
        exact ⟨Ne.symm hnull, hrest⟩

/-- A text is its own value exactly if nothing in it is special. -/
theorem value_content_iff (cs : List Char) :
    StringLiteral.value (ScriptData.content cs) = some (StringLiteral.encode cs) ↔
      (∀ c ∈ cs, StringLiteral.Raw c) ∧ '\x00' ∉ cs := by
  constructor
  · intro h
    have hraw := StringLiteral.raw_of_value h (length_encode_content cs).symm
    have hnull : '\x00' ∉ cs := by
      refine notMem_of_encode_content (Option.some.inj ?_)
      rw [← StringLiteral.value_eq_encode hraw, h]
    rw [content_eq_self hnull] at hraw
    exact ⟨hraw, hnull⟩
  · rintro ⟨hraw, hnull⟩
    rw [content_eq_self hnull, StringLiteral.value_eq_encode hraw]

theorem raw_iff (name : String) : (∀ c ∈ name.toList, StringLiteral.Raw c) ∧ '\x00' ∉ name.toList ↔
    92 ∉ utf8 name ∧ 39 ∉ utf8 name ∧ 10 ∉ utf8 name ∧ 13 ∉ utf8 name ∧ 0 ∉ utf8 name := by
  have hbackslash : 92 ∈ utf8 name ↔ _ := mem_utf8_iff (show '\x5c'.toNat < 128 by decide) name
  have hquote : 39 ∈ utf8 name ↔ _ := mem_utf8_iff (show '\x27'.toNat < 128 by decide) name
  have hfeed : 10 ∈ utf8 name ↔ _ := mem_utf8_iff (show '\n'.toNat < 128 by decide) name
  have hreturn : 13 ∈ utf8 name ↔ _ := mem_utf8_iff (show '\r'.toNat < 128 by decide) name
  have hnull : 0 ∈ utf8 name ↔ _ := mem_utf8_iff (show '\x00'.toNat < 128 by decide) name
  rw [hbackslash, hquote, hfeed, hreturn, hnull]
  constructor
  · rintro ⟨hraw, hnone⟩
    exact ⟨fun h ↦ (hraw _ h).1 rfl, fun h ↦ (hraw _ h).2.1 rfl, fun h ↦ (hraw _ h).2.2.1 rfl,
      fun h ↦ (hraw _ h).2.2.2 rfl, hnone⟩
  · rintro ⟨h₁, h₂, h₃, h₄, hnone⟩
    refine ⟨fun c hc ↦ ⟨?_, ?_, ?_, ?_⟩, hnone⟩
    · exact fun h ↦ h₁ (h ▸ hc)
    · exact fun h ↦ h₂ (h ▸ hc)
    · exact fun h ↦ h₃ (h ▸ hc)
    · exact fun h ↦ h₄ (h ▸ hc)

theorem decodes_self_iff (s : Bytes) : Decodes s s ↔
    IsUTF8 s ∧ 92 ∉ s ∧ 39 ∉ s ∧ 10 ∉ s ∧ 13 ∉ s ∧ 0 ∉ s := by
  constructor
  · rintro ⟨body, name, hbody, hname, hvalue⟩
    obtain rfl : name = body := Option.some.inj (hname.symm.trans hbody)
    refine ⟨by rw [IsUTF8, hname]; rfl, ?_⟩
    rw [eq_utf8_of_fromUTF8? hname]
    exact (raw_iff name).mp ((value_content_iff _).mp hvalue)
  · rintro ⟨hutf8, hraw⟩
    obtain ⟨name, hname⟩ := Option.isSome_iff_exists.mp hutf8
    rw [eq_utf8_of_fromUTF8? hname] at hraw
    exact ⟨name, name, hname, hname, (value_content_iff _).mpr ((raw_iff name).mpr hraw)⟩

theorem decodes_escape {s : Bytes} (hutf8 : IsUTF8 s) (hnull : 0 ∉ s) :
    Decodes (MenuHandler.escapeForJsString s) s := by
  obtain ⟨name, hname⟩ := Option.isSome_iff_exists.mp hutf8
  have hs := eq_utf8_of_fromUTF8? hname
  have hnone : '\x00' ∉ name.toList := by
    rw [hs] at hnull
    exact (mem_utf8_iff (show '\x00'.toNat < 128 by decide) name).not.mp hnull
  refine ⟨String.ofList (name.toList.flatMap escapeChar), name, ?_, hname, ?_⟩
  · rw [hs, escapeForJsString_utf8]
    exact fromUTF8?_utf8 _
  · rw [String.toList_ofList, value_content_escape, content_eq_self hnone]

/-! ## Script elements -/

theorem contained_iff_level? (text : Bytes) : Contained text ↔
    ∃ level, (ScriptData.State.data.run text).level? = some level ∧ level ≠ .doubleEscaped := by
  have hscan : ScriptData.Level.data.scan (text.map ScriptData.lower) =
      (ScriptData.State.data.run text).level? :=
    ScriptData.scan_eq_level? (q := .data) trivial text
  rw [Contained, hscan]

/-- A plain byte behind a backslash is read as without it. -/
theorem run_backslash (q : ScriptData.State) {b : UInt8} (hb : ScriptData.Plain b) :
    q.run [92, b] = q.step b := by
  have hplain : ∀ c ∈ [92, b], ScriptData.Plain c := by
    intro c hc
    rcases List.mem_cons.mp hc with rfl | hc
    · decide
    · exact List.mem_singleton.mp hc ▸ hb
  rw [ScriptData.run_plain q hplain (by simp), ScriptData.step_plain q hb]

/-- The escape puts backslashes where no mark is, unless there are ends of lines. -/
theorem run_escapeForJsString {s : Bytes} (hfeed : 10 ∉ s) (hreturn : 13 ∉ s)
    (q : ScriptData.State) : q.run (MenuHandler.escapeForJsString s) = q.run s := by
  induction s generalizing q with
  | nil => rfl
  | cons b s ih =>
      rw [List.mem_cons, not_or] at hfeed hreturn
      have hbyte : q.run (MenuHandler.escapeForJsString [b]) = q.step b := by
        rw [MenuHandler.escapeForJsString, List.flatMap_singleton,
          if_neg (Ne.symm hfeed.1), if_neg (Ne.symm hreturn.1)]
        split_ifs with hbackslash hquote hdouble
        · rw [hbackslash]
          exact run_backslash q (by decide)
        · rw [hquote]
          exact run_backslash q (by decide)
        · rw [hdouble]
          exact run_backslash q (by decide)
        · rfl
      rw [← List.singleton_append, escapeForJsString_append, ScriptData.State.run_append, hbyte,
        ih hfeed.2 hreturn.2]
      rfl

theorem contained_escape {s : Bytes} (hfeed : 10 ∉ s) (hreturn : 13 ∉ s) :
    Contained (MenuHandler.escapeForJsString s) ↔ Contained s := by
  rw [contained_iff_level?, contained_iff_level?, run_escapeForJsString hfeed hreturn]

theorem notMem_scriptStart (userId : ℤ) : 60 ∉ (scriptStart userId).map ScriptData.lower := by
  have hnumber : 60 ∉ utf8 (toString userId) := by
    rw [utf8_toString, List.mem_append, not_or]
    refine ⟨?_, notMem_decimal (by decide)⟩
    split_ifs
    · decide
    · exact List.not_mem_nil
  intro h
  obtain ⟨b, hb, hlower⟩ := List.mem_map.mp h
  obtain rfl := (ScriptData.lower_eq_iff (k := 60) (by decide) b).mp hlower
  rw [scriptStart, List.mem_append, List.mem_append] at hb
  rcases hb with (hb | hb) | hb
  · revert hb
    decide
  · exact hnumber hb
  · revert hb
    decide

theorem element_script_iff (userId : ℤ) (text rest : Bytes) :
    ScriptData.element .data (scriptStart userId ++ text ++ ascii "';</script>" ++ rest) =
        some (scriptStart userId ++ text ++ ascii "';</script", ascii ">" ++ rest) ↔
      Contained text := by
  have hend : ascii "';</script>" = ascii "';" ++ (ScriptData.endTag ++ [62]) := by decide
  have htag : ascii "';</script" = ascii "';" ++ ScriptData.endTag := by decide
  have htail : ∀ b ∈ ascii "';", ScriptData.Plain b := by decide +kernel
  have hclose : ScriptData.isTerminator 62 = true := by decide
  have helement := ScriptData.element_endTag_iff (scriptStart userId ++ text) htail (by decide)
    hclose rest
  rw [List.map_append, ScriptData.scan_data_append (notMem_scriptStart userId)] at helement
  rw [Contained, ← helement, hend, htag]
  simp only [List.append_assoc, List.singleton_append]
  exact Iff.rfl

theorem injectUser_eq {page before rest : Bytes}
    (hpage : findText (ascii "</head>") page = some (before, rest)) (userId : ℤ) (text : Bytes) :
    injectUser page (utf8 (toString userId)) text =
      before ++ (ascii "<script>" ++ (scriptStart userId ++ text ++ ascii "';</script>")) ++ rest := by
  have hopen : ascii "<script>var INJECTED_USERID = '" =
      ascii "<script>" ++ ascii "var INJECTED_USERID = '" := by decide
  rw [injectUser, hpage, hopen, scriptStart]
  simp only [List.append_assoc]

/-- The page with a text in the place of the name. -/
theorem contains_iff {page before rest : Bytes}
    (hpage : findText (ascii "</head>") page = some (before, rest)) (userId : ℤ)
    (text username : Bytes) :
    Contains (injectUser page (utf8 (toString userId)) text) before rest userId username ↔
      Decodes text username ∧ Contained text := by
  rw [injectUser_eq hpage]
  constructor
  · rintro ⟨text', hpage', hdecodes, helement⟩
    have htext : text = text' := by
      have hscript := List.append_cancel_left (List.append_cancel_right hpage')
      exact List.append_cancel_left (List.append_cancel_right (List.append_cancel_left hscript))
    rw [htext]
    exact ⟨hdecodes, (element_script_iff userId text' rest).mp helement⟩
  · rintro ⟨hdecodes, hcontained⟩
    exact ⟨text, rfl, hdecodes, (element_script_iff userId text rest).mpr hcontained⟩

/-! ## The condition -/

theorem harmless_iff (username : Bytes) :
    Harmless username ↔ Decodes username username ∧ Contained username := by
  rw [decodes_self_iff]
  constructor
  · rintro ⟨hutf8, hbackslash, hquote, hfeed, hreturn, hnull, hcontained⟩
    exact ⟨⟨hutf8, hbackslash, hquote, hfeed, hreturn, hnull⟩, hcontained⟩
  · rintro ⟨⟨hutf8, hbackslash, hquote, hfeed, hreturn, hnull⟩, hcontained⟩
    exact ⟨hutf8, hbackslash, hquote, hfeed, hreturn, hnull, hcontained⟩

/-- A request with a cookie. -/
def cookieRequest : HttpRequest :=
  { HttpRequest.create with headers := [(ascii "Cookie", ascii "sessionId=1")] }

/-- One user is logged in. -/
def oneSession (username : Bytes) : Exchange :=
  { idle with
    sessions := [(ascii "1", ⟨[(ascii "isLoggedIn", ascii "true"), (ascii "userId", ascii "7"),
      (ascii "username", username)], false⟩)] }

/-- Every file is the same page. -/
def onePage (page : Bytes) : Surroundings :=
  { quiet with files := fun _ ↦ some page }

theorem visit_oneSession (username : Bytes) :
    Visit cookieRequest (oneSession username) 7 username := by
  have hid : SessionManager.getSessionIdFromCookie cookieRequest = ascii "1" := by decide +kernel
  have hcurrent : (oneSession username).current cookieRequest =
      ⟨[(ascii "isLoggedIn", ascii "true"), (ascii "userId", ascii "7"),
        (ascii "username", username)], false⟩ := by
    unfold Exchange.current
    rw [hid]
    rfl
  have huserId : ((oneSession username).current cookieRequest).getValue (ascii "userId") =
      ascii "7" := by
    rw [hcurrent]
    rfl
  refine ⟨⟨rfl, fun _ hmem ↦ absurd hmem List.not_mem_nil⟩, ?_, ?_, ?_, ?_⟩
  · rw [Exchange.LoggedIn, hcurrent]
    rfl
  · rw [huserId]
    decide +kernel
  · rw [Exchange.userId?, huserId]
    decide +kernel
  · rw [hcurrent]
    rfl

namespace StaysData

variable {username : Bytes} (h : StaysData username)
include h

theorem menu_contained : Contained (MenuHandler.escapeForJsString username) := by
  have hpage : findText (ascii "</head>") (ascii "</head>") = some ([], ascii "</head>") := by
    decide
  have hvisit := visit_oneSession username
  have hserves := h.menu (onePage (ascii "</head>")) _ _ 7 hvisit _ _ _ rfl hpage
  have hcontains := (serves_iff (serves_menu hvisit rfl) _).mp hserves
  exact ((contains_iff hpage 7 _ username).mp hcontains).2

theorem harmless : Harmless username := by
  have hpage : findText (ascii "</head>") (ascii "</head>") = some ([], ascii "</head>") := by
    decide
  have hvisit := visit_oneSession username
  have hserves := h.pvp (onePage (ascii "</head>")) _ _ 7 hvisit _ _ _ rfl hpage
  have hcontains := (serves_iff (serves_pvp hvisit rfl) _).mp hserves
  exact (harmless_iff username).mpr ((contains_iff hpage 7 username username).mp hcontains)

end StaysData

/-- For every name: it stays a value in both pages, whoever has it and whatever the pages
are, exactly if it is harmless. -/
theorem staysData_iff (username : Bytes) : StaysData username ↔ Harmless username := by
  constructor
  · exact StaysData.harmless
  · intro h
    have hself := (harmless_iff username).mp h
    have hescaped : Decodes (MenuHandler.escapeForJsString username) username ∧
        Contained (MenuHandler.escapeForJsString username) :=
      ⟨decodes_escape h.isUTF8 h.null,
        (contained_escape h.lineFeed h.carriageReturn).mpr h.contained⟩
    constructor
    · intro cs r e userId hvisit page before rest hfile hpage
      refine (serves_iff (serves_menu hvisit hfile) _).mpr ?_
      exact (contains_iff hpage userId _ username).mpr hescaped
    · intro cs r e userId hvisit page before rest hfile hpage
      refine (serves_iff (serves_pvp hvisit hfile) _).mpr ?_
      exact (contains_iff hpage userId _ username).mpr hself

-- a name that hides the end of the element, so that the rest of the page becomes script
example : ScriptData.Level.data.scan (ascii "<!--<script>") = some .doubleEscaped := by
  decide +kernel

/-- A name that ends the script element of the menu, and one that ends the literal of the
other page. -/
theorem not_staysData :
    ¬ StaysData (ascii "</script><script>alert(1)</script>") ∧
      ¬ StaysData (ascii "';alert(1);//") := by
  constructor
  · intro h
    obtain ⟨level, hscan, -⟩ := h.menu_contained
    revert hscan
    cases level <;> decide +kernel
  · intro h
    exact h.harmless.quote (by decide)

end HttpRaftKv.Gomoku
