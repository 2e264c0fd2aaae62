import HttpRaftKv.Lib.ScriptData

/-!
# Marks in script data

Where a script element ends can be said without the machine, by what the text has at each
place.  The marks are `<!--`, `-->`, and the tags of a script with what is behind their
name.  The machine finds exactly these marks, and so an end tag of a script is the end of
the element unless the marks before it end the element or hide the tag.
-/

namespace HttpRaftKv.ScriptData

open State

/-! ## Levels -/

/-- In `escaped` the text is behind `<!--`, in `doubleEscaped` behind another start tag of a
script besides. -/
inductive Level
  | data
  | escaped
  | doubleEscaped
deriving DecidableEq, Repr

/-- The text begins with these bytes and a terminator. -/
def beginsTag : List UInt8 → List UInt8 → Bool
  | _, [] => false
  | [], b :: _ => isTerminator b
  | a :: mark, b :: text => a == b && beginsTag mark text

def opensScript (text : List UInt8) : Bool :=
  beginsTag (60 :: script) text

def closesScript (text : List UInt8) : Bool :=
  beginsTag (60 :: 47 :: script) text

def opensComment (text : List UInt8) : Bool :=
  [60, 33, 45, 45].isPrefixOf text

def closesComment (text : List UInt8) : Bool :=
  [45, 45, 62].isPrefixOf text

/-- The level behind the first byte, unless the element ends here. -/
def Level.mark : Level → List UInt8 → Option Level
  | data, text =>
      if closesScript text then none
      else if opensComment text then some escaped
      else some data
  | escaped, text =>
      if closesScript text then none
      else if opensScript text then some doubleEscaped
      else if closesComment text then some data
      else some escaped
  | doubleEscaped, text =>
      if closesScript text then some escaped
      else if closesComment text then some data
      else some doubleEscaped

/-- The level at the end of a text in lower case, unless the element ends before. -/
def Level.scan : Level → List UInt8 → Option Level
  | level, [] => some level
  | level, b :: text => (level.mark (b :: text)).bind fun level ↦ level.scan text

def State.level? : State → Option Level
  | data | lessThan | endTagOpen | endTagName _ | escapeStart | escapeStartDash => some .data
  | escaped | escapedDash | escapedDashDash | escapedLessThan | escapedEndTagOpen
  | escapedEndTagName _ | doubleEscapeStart _ => some .escaped
  | doubleEscaped | doubleEscapedDash | doubleEscapedDashDash | doubleEscapedLessThan
  | doubleEscapeEnd _ => some .doubleEscaped
  | ended => none

/-- The bytes from which a mark may still come. -/
def State.pending : State → List UInt8
  | data | escaped | doubleEscaped | ended => []
  | lessThan | escapedLessThan | doubleEscapedLessThan => [60]
  | endTagOpen | escapedEndTagOpen => [60, 47]
  | endTagName name | escapedEndTagName name | doubleEscapeEnd name => 60 :: 47 :: name
  | doubleEscapeStart name => 60 :: name
  | escapeStart => [60, 33]
  | escapeStartDash => [60, 33, 45]
  | escapedDash | doubleEscapedDash => [45]
  | escapedDashDash | doubleEscapedDashDash => [45, 45]

theorem mark_of_ne (level : Level) {b : UInt8} (hless : b ≠ 60) (hdash : b ≠ 45)
    (text : List UInt8) : level.mark (b :: text) = some level := by
  have hless' : (60 == b) = false := beq_eq_false_iff_ne.mpr hless.symm
  have hdash' : (45 == b) = false := beq_eq_false_iff_ne.mpr hdash.symm
  cases level <;> simp [Level.mark, closesScript, opensScript, opensComment, closesComment,
    beginsTag, List.isPrefixOf, hless', hdash']

theorem scan_of_ne (level : Level) {b : UInt8} (hless : b ≠ 60) (hdash : b ≠ 45)
    (text : List UInt8) : level.scan (b :: text) = level.scan text := by
  rw [Level.scan, mark_of_ne level hless hdash, Option.bind_some]

theorem scan_data_of_ne {b : UInt8} (hless : b ≠ 60) (text : List UInt8) :
    Level.data.scan (b :: text) = Level.data.scan text := by
  have hless' : (60 == b) = false := beq_eq_false_iff_ne.mpr hless.symm
  have hmark : Level.data.mark (b :: text) = some .data := by
    simp [Level.mark, closesScript, opensComment, beginsTag, List.isPrefixOf, hless']
  rw [Level.scan, hmark, Option.bind_some]

theorem scan_data_append {first : List UInt8} (h : 60 ∉ first) (text : List UInt8) :
    Level.data.scan (first ++ text) = Level.data.scan text := by
  induction first with
  | nil => rfl
  | cons b first ih =>
      obtain ⟨hb, hfirst⟩ := not_or.mp (List.mem_cons.not.mp h)
      rw [List.cons_append, scan_data_of_ne (Ne.symm hb), ih hfirst]

/-- Letters are no marks. -/
theorem scan_name (level : Level) {name : List UInt8} (hname : ∀ b ∈ name, isAlpha b = true)
    (text : List UInt8) : level.scan (name ++ text) = level.scan text := by
  induction name with
  | nil => rfl
  | cons b name ih =>
      have hb := hname b List.mem_cons_self
      rw [List.cons_append, scan_of_ne level (ne_of_isAlpha hb rfl) (ne_of_isAlpha hb rfl)]
      exact ih fun c hc ↦ hname c (List.mem_cons_of_mem b hc)

/-- A name that goes no further is that of the tag or another one. -/
theorem beginsTag_name {mark name : List UInt8} (hmark : ∀ b ∈ mark, isAlpha b = true)
    (hname : ∀ b ∈ name, isAlpha b = true) {b : UInt8} (hb : isAlpha b = false)
    (text : List UInt8) :
    beginsTag mark (name ++ b :: text) = (isTerminator b && name = mark) := by
  induction mark generalizing name with
  | nil =>
      cases name with
      | nil => simp [beginsTag]
      | cons c name =>
          have hc := isTerminator_of_isAlpha (hname c List.mem_cons_self)
          simp [beginsTag, hc]
  | cons a mark ih =>
      have ha := hmark a List.mem_cons_self
      have hmark' := fun c hc ↦ hmark c (List.mem_cons_of_mem a hc)
      cases name with
      | nil =>
          have hab : (a == b) = false := beq_eq_false_iff_ne.mpr (ne_of_isAlpha ha hb)
          simp [beginsTag, hab]
      | cons c name =>
          have hrest := ih hmark' fun d hd ↦ hname d (List.mem_cons_of_mem c hd)
          rw [List.cons_append, beginsTag, hrest]
          by_cases hac : a = c
          · simp [hac]
          · simp [hac, Ne.symm hac]

theorem beginsTag_of_isAlpha {mark name : List UInt8} (hname : ∀ b ∈ name, isAlpha b = true) :
    beginsTag mark name = false := by
  induction name generalizing mark with
  | nil => cases mark <;> rfl
  | cons c name ih =>
      have hc := hname c List.mem_cons_self
      have hname' := fun d hd ↦ hname d (List.mem_cons_of_mem c hd)
      cases mark with
      | nil => exact isTerminator_of_isAlpha hc
      | cons a mark => rw [beginsTag, ih hname', Bool.and_false]

theorem isAlpha_script : ∀ b ∈ script, isAlpha b = true :=
  List.all_eq_true.mp rfl

theorem scan_terminator (level : Level) {b : UInt8} (hb : isTerminator b = true)
    (text : List UInt8) : level.scan (b :: text) = level.scan text := by
  have hless : b ≠ 60 := by
    rintro rfl
    cases hb
  have hdash : b ≠ 45 := by
    rintro rfl
    cases hb
  exact scan_of_ne level hless hdash text

/-- The level behind a name, with the byte that ends the name. -/
theorem scan_behind_name (p : Prop) [Decidable p] (level level' : Level) (b : UInt8)
    (text : List UInt8) :
    ((if isTerminator b && p then some level else some level').bind
        fun level ↦ level.scan (b :: text)) =
      if isTerminator b then if p then level.scan text else level'.scan text
      else level'.scan (b :: text) := by
  by_cases hterminator : isTerminator b = true
  · rw [if_pos hterminator, hterminator, Bool.true_and]
    by_cases hp : p
    · rw [if_pos (decide_eq_true hp), if_pos hp]
      exact scan_terminator level hterminator text
    · rw [if_neg (Bool.not_eq_true _ ▸ decide_eq_false hp), if_neg hp]
      exact scan_terminator level' hterminator text
  · rw [Bool.not_eq_true] at hterminator
    rw [hterminator, Bool.false_and]
    rfl

section Tags

variable {name : List UInt8} (hname : ∀ b ∈ name, isAlpha b = true)
include hname

theorem closesScript_name {b : UInt8} (hb : isAlpha b = false) (text : List UInt8) :
    closesScript (60 :: 47 :: (name ++ b :: text)) = (isTerminator b && name = script) :=
  beginsTag_name isAlpha_script hname hb text

theorem opensScript_name {b : UInt8} (hb : isAlpha b = false) (text : List UInt8) :
    opensScript (60 :: (name ++ b :: text)) = (isTerminator b && name = script) :=
  beginsTag_name isAlpha_script hname hb text

variable (b : UInt8) (text : List UInt8)

/-- A name goes on with a letter, and it is that of a tag at a terminator. -/
theorem scan_endTag {level : Level} (hlevel : level ≠ .doubleEscaped) :
    level.scan (60 :: 47 :: (name ++ b :: text)) =
      if isTerminator b && name = script then none
      else if isAlpha b then level.scan (60 :: 47 :: (name ++ [b] ++ text))
      else level.scan (b :: text) := by
  by_cases halpha : isAlpha b = true
  · rw [isTerminator_of_isAlpha halpha, Bool.false_and, if_neg Bool.false_ne_true, if_pos halpha,
      List.append_assoc, List.singleton_append]
  · have hcloses := closesScript_name hname (Bool.not_eq_true _ ▸ halpha) text
    have hmark : level.mark (60 :: 47 :: (name ++ b :: text)) =
        if isTerminator b && name = script then none else some level := by
      cases level with
      | data =>
          rw [Level.mark, hcloses]
          rfl
      | escaped =>
          rw [Level.mark, hcloses]
          rfl
      | doubleEscaped => exact absurd rfl hlevel
    rw [Level.scan, hmark, if_neg halpha]
    split_ifs
    · rfl
    · rw [Option.bind_some, scan_of_ne level (by decide) (by decide), scan_name level hname]

theorem scan_hiddenEndTag :
    Level.doubleEscaped.scan (60 :: 47 :: (name ++ b :: text)) =
      if isTerminator b then
        if name = script then Level.escaped.scan text else Level.doubleEscaped.scan text
      else if isAlpha b then Level.doubleEscaped.scan (60 :: 47 :: (name ++ [b] ++ text))
      else Level.doubleEscaped.scan (b :: text) := by
  by_cases halpha : isAlpha b = true
  · rw [isTerminator_of_isAlpha halpha, if_neg Bool.false_ne_true, if_pos halpha,
      List.append_assoc, List.singleton_append]
  · have hmark : Level.doubleEscaped.mark (60 :: 47 :: (name ++ b :: text)) =
        if isTerminator b && name = script then some .escaped else some .doubleEscaped := by
      rw [Level.mark, closesScript_name hname (Bool.not_eq_true _ ▸ halpha)]
      rfl
    have hskip : ∀ level : Level, level.scan (47 :: (name ++ b :: text)) = level.scan (b :: text) :=
      fun level ↦ (scan_of_ne level (by decide) (by decide) _).trans (scan_name level hname _)
    rw [Level.scan, hmark, if_neg halpha]
    simp only [hskip]
    exact scan_behind_name _ _ _ b text

theorem scan_startTag (hne : name ≠ []) :
    Level.escaped.scan (60 :: (name ++ b :: text)) =
      if isTerminator b then
        if name = script then Level.doubleEscaped.scan text else Level.escaped.scan text
      else if isAlpha b then Level.escaped.scan (60 :: (name ++ [b] ++ text))
      else Level.escaped.scan (b :: text) := by
  by_cases halpha : isAlpha b = true
  · rw [isTerminator_of_isAlpha halpha, if_neg Bool.false_ne_true, if_pos halpha,
      List.append_assoc, List.singleton_append]
  · have hmark : Level.escaped.mark (60 :: (name ++ b :: text)) =
        if isTerminator b && name = script then some .doubleEscaped else some .escaped := by
      obtain ⟨c, name, rfl⟩ := List.exists_cons_of_ne_nil hne
      have hc : (47 == c) = false :=
        beq_eq_false_iff_ne.mpr (ne_of_isAlpha (hname c List.mem_cons_self) rfl).symm
      have hcloses : closesScript (60 :: (c :: name ++ b :: text)) = false := by
        simp [closesScript, beginsTag, hc]
      rw [Level.mark, hcloses, opensScript_name hname (Bool.not_eq_true _ ▸ halpha)]
      rfl
    have hskip : ∀ level : Level, level.scan (name ++ b :: text) = level.scan (b :: text) :=
      fun level ↦ scan_name level hname _
    rw [Level.scan, hmark, if_neg halpha]
    simp only [hskip]
    exact scan_behind_name _ _ _ b text

end Tags

/-- `-->` ends what `<!--` began. -/
theorem scan_dash {level : Level} (hlevel : level ≠ .data) (text : List UInt8) :
    level.scan (45 :: text) =
      if closesComment (45 :: text) then Level.data.scan text else level.scan text := by
  have hmark : level.mark (45 :: text) =
      if closesComment (45 :: text) then some .data else some level := by
    cases level with
    | data => exact absurd rfl hlevel
    | escaped => rfl
    | doubleEscaped => rfl
  rw [Level.scan, hmark]
  split_ifs
  · rfl
  · rfl

/-! ## The machine finds the marks -/

/-- What the marks say of a text behind what has been read. -/
def State.scan (q : State) (text : List UInt8) : Option Level :=
  q.level?.bind fun level ↦ level.scan (q.pending ++ text)

theorem scan_dataStep (b : UInt8) (text : List UInt8) :
    Level.data.scan (b :: text) = (dataStep b).scan text := by
  unfold dataStep
  split_ifs with hless
  · rw [hless]
    rfl
  · exact scan_data_of_ne hless text

theorem scan_escapedStep (b : UInt8) (text : List UInt8) :
    Level.escaped.scan (b :: text) = (escapedStep b).scan text := by
  unfold escapedStep
  split_ifs with hdash hless
  · rw [hdash]
    rfl
  · rw [hless]
    rfl
  · exact scan_of_ne _ hless hdash text

theorem scan_doubleEscapedStep (b : UInt8) (text : List UInt8) :
    Level.doubleEscaped.scan (b :: text) = (doubleEscapedStep b).scan text := by
  unfold doubleEscapedStep
  split_ifs with hdash hless
  · rw [hdash]
    rfl
  · rw [hless]
    rfl
  · exact scan_of_ne _ hless hdash text

/-- `<` and a byte that goes on with no mark are no mark. -/
theorem scan_less {level : Level} {b : UInt8} (hslash : b ≠ 47)
    (hmark : level = .data → b ≠ 33) (halpha : level = .escaped → isAlpha b = false)
    (text : List UInt8) : level.scan (60 :: b :: text) = level.scan (b :: text) := by
  have hcloses : closesScript (60 :: b :: text) = false := by
    have hslash' : (47 == b) = false := beq_eq_false_iff_ne.mpr hslash.symm
    simp [closesScript, beginsTag, hslash']
  have hnone : level.mark (60 :: b :: text) = some level := by
    cases level with
    | data =>
        have hopens : opensComment (60 :: b :: text) = false := by
          have hmark' : (33 == b) = false := beq_eq_false_iff_ne.mpr (hmark rfl).symm
          simp [opensComment, List.isPrefixOf, hmark']
        rw [Level.mark, hcloses, hopens]
        rfl
    | escaped =>
        have hopens : opensScript (60 :: b :: text) = false := by
          have hname := @opensScript_name [] (List.forall_mem_nil _) b (halpha rfl) text
          rw [List.nil_append] at hname
          rw [hname, Bool.and_eq_false_iff]
          exact .inr rfl
        rw [Level.mark, hcloses, hopens]
        rfl
    | doubleEscaped =>
        rw [Level.mark, hcloses]
        rfl
  rw [Level.scan, hnone, Option.bind_some]

section Dashes

variable {level : Level} (hlevel : level ≠ .data) (b : UInt8) (text : List UInt8)
include hlevel

theorem scan_behind_dash : level.scan (45 :: b :: text) =
    if b = 45 then level.scan (45 :: 45 :: text) else level.scan (b :: text) := by
  split_ifs with hb
  · rw [hb]
  · have hcloses : closesComment (45 :: b :: text) = false := by
      have hb' : (45 == b) = false := beq_eq_false_iff_ne.mpr (Ne.symm hb)
      simp [closesComment, List.isPrefixOf, hb']
    rw [scan_dash hlevel, hcloses]
    rfl

theorem scan_behind_dashes : level.scan (45 :: 45 :: b :: text) =
    if b = 45 then level.scan (45 :: 45 :: text)
    else if b = 62 then Level.data.scan text
    else level.scan (b :: text) := by
  by_cases hclose : b = 62
  · rw [hclose, scan_dash hlevel]
    change Level.data.scan (45 :: 62 :: text) = Level.data.scan text
    rw [scan_data_of_ne (by decide), scan_data_of_ne (by decide)]
  · have hcloses : closesComment (45 :: 45 :: b :: text) = false := by
      have hclose' : (62 == b) = false := beq_eq_false_iff_ne.mpr (Ne.symm hclose)
      simp [closesComment, List.isPrefixOf, hclose']
    rw [scan_dash hlevel, hcloses, if_neg hclose]
    exact scan_behind_dash hlevel b text

end Dashes

section Step

variable {b : UInt8} (hb : lower b = b) (text : List UInt8)

theorem scan_lessThan : lessThan.scan (b :: text) = (step lessThan b).scan text := by
  rw [step]
  split_ifs with hslash hmark
  · rw [hslash]
    rfl
  · rw [hmark]
    rfl
  · rw [← scan_dataStep]
    exact scan_less hslash (fun _ ↦ hmark) (fun h ↦ by cases h) text

theorem scan_doubleEscapedLessThan :
    doubleEscapedLessThan.scan (b :: text) = (step doubleEscapedLessThan b).scan text := by
  rw [step]
  split_ifs with hslash
  · rw [hslash]
    rfl
  · rw [← scan_doubleEscapedStep]
    exact scan_less hslash (fun h ↦ by cases h) (fun h ↦ by cases h) text

theorem scan_escapeStart : escapeStart.scan (b :: text) = (step escapeStart b).scan text := by
  rw [step]
  split_ifs with hdash
  · rw [hdash]
    rfl
  · rw [← scan_dataStep]
    have hopens : opensComment (60 :: 33 :: b :: text) = false := by
      have hdash' : (45 == b) = false := beq_eq_false_iff_ne.mpr (Ne.symm hdash)
      simp [opensComment, List.isPrefixOf, hdash']
    have hnone : Level.data.mark (60 :: 33 :: b :: text) = some .data := by
      rw [Level.mark, hopens]
      rfl
    change Level.data.scan (60 :: 33 :: b :: text) = _
    rw [Level.scan, hnone, Option.bind_some, scan_data_of_ne (by decide)]

theorem scan_escapeStartDash :
    escapeStartDash.scan (b :: text) = (step escapeStartDash b).scan text := by
  rw [step]
  split_ifs with hdash
  · rw [hdash]
    change Level.escaped.scan (33 :: 45 :: 45 :: text) = _
    exact scan_of_ne _ (by decide) (by decide) _
  · rw [← scan_dataStep]
    have hopens : opensComment (60 :: 33 :: 45 :: b :: text) = false := by
      have hdash' : (45 == b) = false := beq_eq_false_iff_ne.mpr (Ne.symm hdash)
      simp [opensComment, List.isPrefixOf, hdash']
    have hnone : Level.data.mark (60 :: 33 :: 45 :: b :: text) = some .data := by
      rw [Level.mark, hopens]
      rfl
    change Level.data.scan (60 :: 33 :: 45 :: b :: text) = _
    rw [Level.scan, hnone, Option.bind_some, scan_data_of_ne (by decide),
      scan_data_of_ne (by decide)]

theorem scan_escapedDash : escapedDash.scan (b :: text) = (step escapedDash b).scan text := by
  refine (scan_behind_dash (show Level.escaped ≠ .data by decide) b text).trans ?_
  rw [step]
  split_ifs with hdash hless
  · rfl
  · rw [hless]
    rfl
  · exact scan_of_ne _ hless hdash text

theorem scan_doubleEscapedDash :
    doubleEscapedDash.scan (b :: text) = (step doubleEscapedDash b).scan text := by
  refine (scan_behind_dash (show Level.doubleEscaped ≠ .data by decide) b text).trans ?_
  rw [step]
  split_ifs with hdash hless
  · rfl
  · rw [hless]
    rfl
  · exact scan_of_ne _ hless hdash text

theorem scan_escapedDashDash :
    escapedDashDash.scan (b :: text) = (step escapedDashDash b).scan text := by
  refine (scan_behind_dashes (show Level.escaped ≠ .data by decide) b text).trans ?_
  rw [step]
  by_cases hless : b = 60
  · rw [hless]
    rfl
  · rw [if_neg hless]
    split_ifs with hdash
    · rfl
    · rfl
    · exact scan_of_ne _ hless hdash text

theorem scan_doubleEscapedDashDash :
    doubleEscapedDashDash.scan (b :: text) = (step doubleEscapedDashDash b).scan text := by
  refine (scan_behind_dashes (show Level.doubleEscaped ≠ .data by decide) b text).trans ?_
  rw [step]
  by_cases hless : b = 60
  · rw [hless]
    rfl
  · rw [if_neg hless]
    split_ifs with hdash
    · rfl
    · rfl
    · exact scan_of_ne _ hless hdash text

section Names

variable {name : List UInt8} (hname : ∀ b ∈ name, isAlpha b = true)
include hb hname

theorem scan_endTagName :
    (endTagName name).scan (b :: text) = (step (endTagName name) b).scan text := by
  refine (scan_endTag hname b text (show Level.data ≠ .doubleEscaped by decide)).trans ?_
  rw [step, hb]
  split_ifs
  · rfl
  · rfl
  · exact scan_dataStep b text

theorem scan_escapedEndTagName :
    (escapedEndTagName name).scan (b :: text) = (step (escapedEndTagName name) b).scan text := by
  refine (scan_endTag hname b text (show Level.escaped ≠ .doubleEscaped by decide)).trans ?_
  rw [step, hb]
  split_ifs
  · rfl
  · rfl
  · exact scan_escapedStep b text

theorem scan_doubleEscapeEnd :
    (doubleEscapeEnd name).scan (b :: text) = (step (doubleEscapeEnd name) b).scan text := by
  refine (scan_hiddenEndTag hname b text).trans ?_
  rw [step, hb]
  split_ifs
  · rfl
  · rfl
  · rfl
  · exact scan_doubleEscapedStep b text

theorem scan_doubleEscapeStart (hne : name ≠ []) :
    (doubleEscapeStart name).scan (b :: text) = (step (doubleEscapeStart name) b).scan text := by
  refine (scan_startTag hname b text hne).trans ?_
  rw [step, hb]
  split_ifs
  · rfl
  · rfl
  · rfl
  · exact scan_escapedStep b text

end Names

section Begun

include hb

theorem scan_endTagOpen : endTagOpen.scan (b :: text) = (step endTagOpen b).scan text := by
  have hempty := scan_endTagName hb text (List.forall_mem_nil _)
  refine hempty.trans (congrArg (State.scan · text) ?_)
  rw [step, step]
  simp [script]

theorem scan_escapedEndTagOpen :
    escapedEndTagOpen.scan (b :: text) = (step escapedEndTagOpen b).scan text := by
  have hempty := scan_escapedEndTagName hb text (List.forall_mem_nil _)
  refine hempty.trans (congrArg (State.scan · text) ?_)
  rw [step, step]
  simp [script]

theorem scan_escapedLessThan :
    escapedLessThan.scan (b :: text) = (step escapedLessThan b).scan text := by
  rw [step]
  split_ifs with hslash halpha
  · rw [hslash]
    rfl
  · rw [hb]
    rfl
  · rw [← scan_escapedStep]
    exact scan_less hslash (fun h ↦ by cases h) (fun _ ↦ Bool.not_eq_true _ ▸ halpha) text

end Begun

end Step

theorem scan_step {q : State} (h : q.Named) {b : UInt8} (hb : lower b = b) (text : List UInt8) :
    q.scan (b :: text) = (step q b).scan text := by
  cases q with
  | data => exact scan_dataStep b text
  | lessThan => exact scan_lessThan text
  | endTagOpen => exact scan_endTagOpen hb text
  | endTagName name => exact scan_endTagName hb text h
  | escapeStart => exact scan_escapeStart text
  | escapeStartDash => exact scan_escapeStartDash text
  | escaped => exact scan_escapedStep b text
  | escapedDash => exact scan_escapedDash text
  | escapedDashDash => exact scan_escapedDashDash text
  | escapedLessThan => exact scan_escapedLessThan hb text
  | escapedEndTagOpen => exact scan_escapedEndTagOpen hb text
  | escapedEndTagName name => exact scan_escapedEndTagName hb text h
  | doubleEscapeStart name => exact scan_doubleEscapeStart hb text h.2 h.1
  | doubleEscaped => exact scan_doubleEscapedStep b text
  | doubleEscapedDash => exact scan_doubleEscapedDash text
  | doubleEscapedDashDash => exact scan_doubleEscapedDashDash text
  | doubleEscapedLessThan => exact scan_doubleEscapedLessThan text
  | doubleEscapeEnd name => exact scan_doubleEscapeEnd hb text h
  | ended => rfl

section Unfinished

variable {name : List UInt8} (hname : ∀ b ∈ name, isAlpha b = true)
include hname

theorem scan_unfinished_endTag (level : Level) : level.scan (60 :: 47 :: name) = some level := by
  have hcloses : closesScript (60 :: 47 :: name) = false := by
    change beginsTag script name = false
    exact beginsTag_of_isAlpha hname
  have hnone : level.mark (60 :: 47 :: name) = some level := by
    cases level <;> rw [Level.mark, hcloses] <;> rfl
  rw [Level.scan, hnone, Option.bind_some, scan_of_ne level (by decide) (by decide),
    ← List.append_nil name, scan_name level hname]
  rfl

theorem scan_unfinished_startTag (hne : name ≠ []) :
    Level.escaped.scan (60 :: name) = some .escaped := by
  have hopens : opensScript (60 :: name) = false := by
    change beginsTag script name = false
    exact beginsTag_of_isAlpha hname
  have hcloses : closesScript (60 :: name) = false := by
    obtain ⟨c, name, rfl⟩ := List.exists_cons_of_ne_nil hne
    have hc : (47 == c) = false :=
      beq_eq_false_iff_ne.mpr (ne_of_isAlpha (hname c List.mem_cons_self) rfl).symm
    simp [closesScript, beginsTag, hc]
  have hnone : Level.escaped.mark (60 :: name) = some .escaped := by
    rw [Level.mark, hcloses, hopens]
    rfl
  rw [Level.scan, hnone, Option.bind_some, ← List.append_nil name, scan_name .escaped hname]
  rfl

end Unfinished

theorem scan_nil {q : State} (h : q.Named) : q.scan [] = q.level? := by
  have hpending : q.scan [] = q.level?.bind fun level ↦ level.scan q.pending := by
    rw [State.scan, List.append_nil]
  rw [hpending]
  cases q with
  | endTagName name => exact scan_unfinished_endTag h .data
  | escapedEndTagName name => exact scan_unfinished_endTag h .escaped
  | doubleEscapeEnd name => exact scan_unfinished_endTag h .doubleEscaped
  | doubleEscapeStart name => exact scan_unfinished_startTag h.2 h.1
  | _ => rfl

/-- The machine finds the marks. -/
theorem scan_eq_level? {q : State} (h : q.Named) (text : List UInt8) :
    q.scan (text.map lower) = (run q text).level? := by
  induction text generalizing q with
  | nil => exact scan_nil h
  | cons b text ih =>
      rw [List.map_cons, scan_step h (lower_lower b), step_lower]
      exact ih (named_step h b)

/-! ## The end of an element -/

/-- A byte that is in no mark and ends no name. -/
def Plain (b : UInt8) : Prop :=
  isAlpha b = false ∧ isTerminator b = false ∧ b ≠ 33 ∧ b ≠ 45 ∧ b ≠ 60

instance : DecidablePred Plain :=
  fun _ ↦ inferInstanceAs (Decidable (_ ∧ _ ∧ _ ∧ _ ∧ _))

def Level.state : Level → State
  | data => .data
  | escaped => .escaped
  | doubleEscaped => .doubleEscaped

theorem step_plain (q : State) {b : UInt8} (h : Plain b) :
    step q b = q.level?.elim ended Level.state := by
  obtain ⟨halpha, hterminator, hmark, hdash, hless⟩ := h
  have hslash : b ≠ 47 := by
    rintro rfl
    cases hterminator
  have hgreater : b ≠ 62 := by
    rintro rfl
    cases hterminator
  cases q <;> simp [step, dataStep, escapedStep, doubleEscapedStep, State.level?, Level.state,
    halpha, hterminator, hmark, hdash, hless, hslash, hgreater]

@[simp] theorem level?_state (level : Level) : level.state.level? = some level := by
  cases level <;> rfl

theorem run_plain (q : State) {text : List UInt8} (htext : ∀ b ∈ text, Plain b)
    (hne : text ≠ []) : run q text = q.level?.elim ended Level.state := by
  induction text generalizing q with
  | nil => exact absurd rfl hne
  | cons b text ih =>
      have hstep := step_plain q (htext b List.mem_cons_self)
      have hlevel : (step q b).level? = q.level? := by
        rw [hstep]
        cases q.level? with
        | none => rfl
        | some level => exact level?_state level
      rw [run_cons]
      cases text with
      | nil => exact hstep
      | cons c text =>
          rw [ih (step q b) (fun d hd ↦ htext d (List.mem_cons_of_mem b hd)) (by simp), hlevel]

/-- `</script`. -/
def endTag : List UInt8 :=
  60 :: 47 :: script

theorem step_run_endTag (level : Level) {b : UInt8} (hb : isTerminator b = true) :
    run level.state endTag ≠ ended ∧
      (step (run level.state endTag) b = ended ↔ level ≠ .doubleEscaped) := by
  cases level with
  | data =>
      have hrun : run Level.data.state endTag = endTagName script := by decide +kernel
      simp [hrun, step, hb]
  | escaped =>
      have hrun : run Level.escaped.state endTag = escapedEndTagName script := by decide +kernel
      simp [hrun, step, hb]
  | doubleEscaped =>
      have hrun : run Level.doubleEscaped.state endTag = doubleEscapeEnd script := by decide +kernel
      simp [hrun, step, hb]

/-- An end tag behind plain bytes is the end of the element exactly if the text before it
neither ends the element nor hides the tag. -/
theorem element_endTag_iff (text : List UInt8) {tail : List UInt8} (htail : ∀ b ∈ tail, Plain b)
    (hne : tail ≠ []) {b : UInt8} (hb : isTerminator b = true) (rest : List UInt8) :
    element data (text ++ tail ++ endTag ++ b :: rest) =
        some (text ++ tail ++ endTag, b :: rest) ↔
      ∃ level, Level.data.scan (text.map lower) = some level ∧ level ≠ .doubleEscaped := by
  have hscan : Level.data.scan (text.map lower) = (run data text).level? :=
    scan_eq_level? (q := data) trivial text
  have hrun : run data (text ++ tail ++ endTag) =
      run ((run data text).level?.elim ended Level.state) endTag := by
    rw [run_append, run_append, run_plain _ htail hne]
  rw [element_eq_some_iff (by decide), hscan, hrun]
  cases (run data text).level? with
  | none =>
      refine iff_of_false (fun h ↦ ?_) ?_
      · exact h.2.1 (run_ended endTag)
      · rintro ⟨level, hlevel, -⟩
        cases hlevel
  | some level =>
      obtain ⟨hopen, hends⟩ := step_run_endTag level hb
      constructor
      · rintro ⟨-, -, c, more, hrest, hstep⟩
        cases hrest
        exact ⟨level, rfl, hends.mp hstep⟩
      · rintro ⟨other, hlevel, hhidden⟩
        cases hlevel
        exact ⟨rfl, hopen, b, rest, rfl, hends.mpr hhidden⟩

end HttpRaftKv.ScriptData
