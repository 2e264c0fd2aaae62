import Mathlib.Data.List.Basic
import Mathlib.Data.Nat.Notation

/-!
# Script data

How a reader of HTML finds the end of a script element.  The text of the element is not
markup: the end tag of the element ends it, unless `<!--` and another start tag of a script
came before, which hide the next end tag.  The reader is a machine with the states of the
standard.  Only ASCII characters matter to it, so that it can read bytes.
-/

namespace HttpRaftKv.ScriptData

/-- `script`. -/
def script : List UInt8 :=
  [115, 99, 114, 105, 112, 116]

def isAlpha (b : UInt8) : Bool :=
  (65 ≤ b && b ≤ 90) || (97 ≤ b && b ≤ 122)

def lower (b : UInt8) : UInt8 :=
  if 65 ≤ b && b ≤ 90 then b + 32 else b

/-- A white space, `/` or `>`, one of which is behind the name of a tag. -/
def isTerminator (b : UInt8) : Bool :=
  b == 9 || b == 10 || b == 12 || b == 13 || b == 32 || b == 47 || b == 62

theorem isAlpha_iff (b : UInt8) : isAlpha b = true ↔
    (65 ≤ b.toNat ∧ b.toNat ≤ 90) ∨ (97 ≤ b.toNat ∧ b.toNat ≤ 122) := by
  simp [isAlpha, UInt8.le_iff_toNat_le]

theorem toNat_lower (b : UInt8) :
    (lower b).toNat = if 65 ≤ b.toNat ∧ b.toNat ≤ 90 then b.toNat + 32 else b.toNat := by
  have hrange : (65 ≤ b && b ≤ 90) = true ↔ 65 ≤ b.toNat ∧ b.toNat ≤ 90 := by
    simp [UInt8.le_iff_toNat_le]
  unfold lower
  by_cases h : 65 ≤ b.toNat ∧ b.toNat ≤ 90
  · rw [if_pos (hrange.mpr h), if_pos h, UInt8.toNat_add]
    have hthirty : (32 : UInt8).toNat = 32 := rfl
    omega
  · rw [if_neg (hrange.not.mpr h), if_neg h]

@[simp] theorem isAlpha_lower (b : UInt8) : isAlpha (lower b) = isAlpha b := by
  rw [Bool.eq_iff_iff, isAlpha_iff, isAlpha_iff, toNat_lower]
  split_ifs <;> omega

theorem lower_of_not_isAlpha {b : UInt8} (h : isAlpha b = false) : lower b = b := by
  have hnot := (isAlpha_iff b).not.mp (Bool.eq_false_iff.mp h)
  refine UInt8.toNat_inj.mp ?_
  rw [toNat_lower, if_neg]
  omega

@[simp] theorem lower_lower (b : UInt8) : lower (lower b) = lower b := by
  refine UInt8.toNat_inj.mp ?_
  rw [toNat_lower, toNat_lower]
  split_ifs <;> omega

/-- Only letters have two cases. -/
theorem lower_eq_iff {k : UInt8} (hk : isAlpha k = false) (b : UInt8) : lower b = k ↔ b = k := by
  constructor
  · rintro rfl
    rw [isAlpha_lower] at hk
    exact (lower_of_not_isAlpha hk).symm
  · rintro rfl
    exact lower_of_not_isAlpha hk

theorem ne_of_isAlpha {b k : UInt8} (hb : isAlpha b = true) (hk : isAlpha k = false) : b ≠ k := by
  rintro rfl
  rw [hb] at hk
  cases hk

theorem isTerminator_of_isAlpha {b : UInt8} (h : isAlpha b = true) : isTerminator b = false := by
  have hne : ∀ k, isAlpha k = false → (b == k) = false :=
    fun k hk ↦ beq_eq_false_iff_ne.mpr (ne_of_isAlpha h hk)
  unfold isTerminator
  rw [hne 9 rfl, hne 10 rfl, hne 12 rfl, hne 13 rfl, hne 32 rfl, hne 47 rfl, hne 62 rfl]
  rfl

@[simp] theorem isTerminator_lower (b : UInt8) : isTerminator (lower b) = isTerminator b := by
  by_cases hb : isAlpha b = true
  · rw [isTerminator_of_isAlpha hb, isTerminator_of_isAlpha ((isAlpha_lower b).trans hb)]
  · rw [lower_of_not_isAlpha (Bool.eq_false_iff.mpr hb)]

/-- Names are as far as they have been read, in lower case.  The element is over in the
state `ended`. -/
inductive State
  | data
  | lessThan
  | endTagOpen
  | endTagName (name : List UInt8)
  | escapeStart
  | escapeStartDash
  | escaped
  | escapedDash
  | escapedDashDash
  | escapedLessThan
  | escapedEndTagOpen
  | escapedEndTagName (name : List UInt8)
  | doubleEscapeStart (name : List UInt8)
  | doubleEscaped
  | doubleEscapedDash
  | doubleEscapedDashDash
  | doubleEscapedLessThan
  | doubleEscapeEnd (name : List UInt8)
  | ended
deriving DecidableEq, Repr

namespace State

def dataStep (b : UInt8) : State :=
  if b = 60 then lessThan else data

def escapedStep (b : UInt8) : State :=
  if b = 45 then escapedDash
  else if b = 60 then escapedLessThan
  else escaped

def doubleEscapedStep (b : UInt8) : State :=
  if b = 45 then doubleEscapedDash
  else if b = 60 then doubleEscapedLessThan
  else doubleEscaped

/-- A byte that does not go on with what was begun is read again in the state before it. -/
def step : State → UInt8 → State
  | data, b => dataStep b
  | lessThan, b =>
      if b = 47 then endTagOpen
      else if b = 33 then escapeStart
      else dataStep b
  | endTagOpen, b => if isAlpha b then endTagName [lower b] else dataStep b
  | endTagName name, b =>
      if isTerminator b && name = script then ended
      else if isAlpha b then endTagName (name ++ [lower b])
      else dataStep b
  | escapeStart, b => if b = 45 then escapeStartDash else dataStep b
  | escapeStartDash, b => if b = 45 then escapedDashDash else dataStep b
  | escaped, b => escapedStep b
  | escapedDash, b =>
      if b = 45 then escapedDashDash
      else if b = 60 then escapedLessThan
      else escaped
  | escapedDashDash, b =>
      if b = 45 then escapedDashDash
      else if b = 60 then escapedLessThan
      else if b = 62 then data
      else escaped
  | escapedLessThan, b =>
      if b = 47 then escapedEndTagOpen
      else if isAlpha b then doubleEscapeStart [lower b]
      else escapedStep b
  | escapedEndTagOpen, b => if isAlpha b then escapedEndTagName [lower b] else escapedStep b
  | escapedEndTagName name, b =>
      if isTerminator b && name = script then ended
      else if isAlpha b then escapedEndTagName (name ++ [lower b])
      else escapedStep b
  | doubleEscapeStart name, b =>
      if isTerminator b then if name = script then doubleEscaped else escaped
      else if isAlpha b then doubleEscapeStart (name ++ [lower b])
      else escapedStep b
  | doubleEscaped, b => doubleEscapedStep b
  | doubleEscapedDash, b =>
      if b = 45 then doubleEscapedDashDash
      else if b = 60 then doubleEscapedLessThan
      else doubleEscaped
  | doubleEscapedDashDash, b =>
      if b = 45 then doubleEscapedDashDash
      else if b = 60 then doubleEscapedLessThan
      else if b = 62 then data
      else doubleEscaped
  | doubleEscapedLessThan, b => if b = 47 then doubleEscapeEnd [] else doubleEscapedStep b
  | doubleEscapeEnd name, b =>
      if isTerminator b then if name = script then escaped else doubleEscaped
      else if isAlpha b then doubleEscapeEnd (name ++ [lower b])
      else doubleEscapedStep b
  | ended, _ => ended

/-- The state after a text. -/
def run (q : State) (text : List UInt8) : State :=
  text.foldl step q

@[simp] theorem run_nil (q : State) : run q [] = q := rfl

@[simp] theorem run_cons (q : State) (b : UInt8) (text : List UInt8) :
    run q (b :: text) = run (step q b) text := rfl

theorem run_append (q : State) (text more : List UInt8) :
    run q (text ++ more) = run (run q text) more :=
  List.foldl_append

@[simp] theorem run_ended (text : List UInt8) : run ended text = ended := by
  induction text with
  | nil => rfl
  | cons b text ih => exact ih

end State

open State

/-- The machine does not tell small letters from capital ones. -/
theorem step_lower (q : State) (b : UInt8) : step q (lower b) = step q b := by
  have hdata : dataStep (lower b) = dataStep b := by
    simp only [dataStep, lower_eq_iff (k := 60) rfl]
  have hescaped : escapedStep (lower b) = escapedStep b := by
    simp only [escapedStep, lower_eq_iff (k := 60) rfl, lower_eq_iff (k := 45) rfl]
  have hdouble : doubleEscapedStep (lower b) = doubleEscapedStep b := by
    simp only [doubleEscapedStep, lower_eq_iff (k := 60) rfl, lower_eq_iff (k := 45) rfl]
  cases q <;> simp only [step, hdata, hescaped, hdouble, isAlpha_lower, isTerminator_lower,
    lower_lower, lower_eq_iff (k := 60) rfl, lower_eq_iff (k := 45) rfl,
    lower_eq_iff (k := 47) rfl, lower_eq_iff (k := 33) rfl, lower_eq_iff (k := 62) rfl]

/-! ## Names -/

/-- A name consists of letters. -/
def State.Named : State → Prop
  | endTagName name | escapedEndTagName name | doubleEscapeEnd name =>
      ∀ b ∈ name, isAlpha b = true
  | doubleEscapeStart name => name ≠ [] ∧ ∀ b ∈ name, isAlpha b = true
  | _ => True

theorem isAlpha_append {name : List UInt8} (hname : ∀ b ∈ name, isAlpha b = true) {b : UInt8}
    (hb : isAlpha b = true) : ∀ c ∈ name ++ [lower b], isAlpha c = true := by
  intro c hc
  rcases List.mem_append.mp hc with hc | hc
  · exact hname c hc
  · rw [List.mem_singleton.mp hc, isAlpha_lower, hb]

theorem named_dataStep (b : UInt8) : (dataStep b).Named := by
  unfold dataStep
  split_ifs <;> trivial

theorem named_escapedStep (b : UInt8) : (escapedStep b).Named := by
  unfold escapedStep
  split_ifs <;> trivial

theorem named_doubleEscapedStep (b : UInt8) : (doubleEscapedStep b).Named := by
  unfold doubleEscapedStep
  split_ifs <;> trivial

/-- A choice between two states with names. -/
theorem named_ite {p : Prop} [Decidable p] {q q' : State} (h : p → q.Named)
    (h' : ¬ p → q'.Named) : (if p then q else q').Named := by
  split_ifs with hp
  · exact h hp
  · exact h' hp

theorem named_step {q : State} (h : q.Named) (b : UInt8) : (step q b).Named := by
  have hfirst : isAlpha b = true → ∀ c ∈ [lower b], isAlpha c = true :=
    fun hb ↦ @isAlpha_append [] (List.forall_mem_nil _) b hb
  cases q with
  | data => exact named_dataStep b
  | lessThan =>
      refine named_ite (fun _ ↦ trivial) fun _ ↦ ?_
      exact named_ite (fun _ ↦ trivial) fun _ ↦ named_dataStep b
  | endTagOpen => exact named_ite hfirst fun _ ↦ named_dataStep b
  | endTagName name =>
      refine named_ite (fun _ ↦ trivial) fun _ ↦ ?_
      exact named_ite (isAlpha_append h) fun _ ↦ named_dataStep b
  | escapeStart => exact named_ite (fun _ ↦ trivial) fun _ ↦ named_dataStep b
  | escapeStartDash => exact named_ite (fun _ ↦ trivial) fun _ ↦ named_dataStep b
  | escaped => exact named_escapedStep b
  | escapedDash =>
      refine named_ite (fun _ ↦ trivial) fun _ ↦ ?_
      exact named_ite (fun _ ↦ trivial) fun _ ↦ trivial
  | escapedDashDash =>
      refine named_ite (fun _ ↦ trivial) fun _ ↦ named_ite (fun _ ↦ trivial) fun _ ↦ ?_
      exact named_ite (fun _ ↦ trivial) fun _ ↦ trivial
  | escapedLessThan =>
      refine named_ite (fun _ ↦ trivial) fun _ ↦ ?_
      exact named_ite (fun hb ↦ ⟨List.cons_ne_nil _ _, hfirst hb⟩) fun _ ↦ named_escapedStep b
  | escapedEndTagOpen => exact named_ite hfirst fun _ ↦ named_escapedStep b
  | escapedEndTagName name =>
      refine named_ite (fun _ ↦ trivial) fun _ ↦ ?_
      exact named_ite (isAlpha_append h) fun _ ↦ named_escapedStep b
  | doubleEscapeStart name =>
      refine named_ite (fun _ ↦ named_ite (fun _ ↦ trivial) fun _ ↦ trivial) fun _ ↦ ?_
      exact named_ite (fun hb ↦ ⟨by simp, isAlpha_append h.2 hb⟩) fun _ ↦ named_escapedStep b
  | doubleEscaped => exact named_doubleEscapedStep b
  | doubleEscapedDash =>
      refine named_ite (fun _ ↦ trivial) fun _ ↦ ?_
      exact named_ite (fun _ ↦ trivial) fun _ ↦ trivial
  | doubleEscapedDashDash =>
      refine named_ite (fun _ ↦ trivial) fun _ ↦ named_ite (fun _ ↦ trivial) fun _ ↦ ?_
      exact named_ite (fun _ ↦ trivial) fun _ ↦ trivial
  | doubleEscapedLessThan =>
      exact named_ite (fun _ ↦ List.forall_mem_nil _) fun _ ↦ named_doubleEscapedStep b
  | doubleEscapeEnd name =>
      refine named_ite (fun _ ↦ named_ite (fun _ ↦ trivial) fun _ ↦ trivial) fun _ ↦ ?_
      exact named_ite (isAlpha_append h) fun _ ↦ named_doubleEscapedStep b
  | ended => trivial

/-! ## Elements -/

/-- What an element has in front of the byte that ends it, and the text from there on.  The
first part ends with `</script`. -/
def element (q : State) : List UInt8 → Option (List UInt8 × List UInt8)
  | [] => none
  | b :: text =>
      if step q b = ended then some ([], b :: text)
      else (element (step q b) text).map fun parts ↦ (b :: parts.1, parts.2)

theorem element_eq_some_iff {q : State} (hq : q ≠ ended) {text first rest : List UInt8} :
    element q text = some (first, rest) ↔
      text = first ++ rest ∧ run q first ≠ ended ∧
        ∃ b more, rest = b :: more ∧ step (run q first) b = ended := by
  induction text generalizing q first with
  | nil =>
      refine iff_of_false (fun h ↦ by cases h) ?_
      rintro ⟨htext, -, b, more, rfl, -⟩
      simp at htext
  | cons b text ih =>
      rw [element]
      split_ifs with hends
      · constructor
        · intro h
          cases h
          exact ⟨rfl, hq, b, text, rfl, hends⟩
        · rintro ⟨htext, hopen, c, more, rfl, hstep⟩
          cases first with
          | nil => rw [htext, List.nil_append]
          | cons d first =>
              obtain ⟨rfl, -⟩ := List.cons_eq_cons.mp htext
              rw [run_cons, hends, run_ended] at hopen
              exact absurd rfl hopen
      · constructor
        · intro h
          obtain ⟨parts, hparts, hpair⟩ := Option.map_eq_some_iff.mp h
          cases hpair
          obtain ⟨htext, hopen, hrest⟩ := (ih hends).mp hparts
          exact ⟨congrArg (b :: ·) htext, hopen, hrest⟩
        · rintro ⟨htext, hopen, c, more, rfl, hstep⟩
          cases first with
          | nil =>
              obtain ⟨rfl, -⟩ := List.cons_eq_cons.mp htext
              exact absurd hstep hends
          | cons d first =>
              obtain ⟨rfl, hrest⟩ := List.cons_eq_cons.mp htext
              have hparts := (ih hends).mpr ⟨hrest, hopen, c, more, rfl, hstep⟩
              rw [hparts]
              rfl

/-- What the script gets of its characters: a null character is replaced. -/
def content (text : List Char) : List Char :=
  text.map fun c ↦ if c = '\x00' then '\uFFFD' else c

end HttpRaftKv.ScriptData
