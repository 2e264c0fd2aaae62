import Mathlib.Data.List.TakeWhile
import Mathlib.Order.Basic
import Mathlib.Tactic.SplitIfs

/-!
# Patterns with captures

A pattern is a row of letters and of groups, and a group captures a run of letters of a
kind that is not empty.  The matcher tries the longest run first and a shorter one when
the rest does not match.  If every group is followed by a letter that it cannot capture,
there is only one way to match, so it does not matter in which order the runs are tried.

In a pattern that is cut into segments, each of which is a text or a group, the groups
capture whole segments.
-/

namespace HttpRaftKv

/-- A letter, or a group of letters of a kind. -/
inductive Item (β : Type*)
  | lit (b : β)
  | group (p : β → Bool)

namespace Captures

variable {β : Type*}

/-- The letters are matched by the items, and this is what the groups capture. -/
inductive Matches : List (Item β) → List β → List (List β) → Prop
  | nil : Matches [] [] []
  | lit {b items bs captures} (rest : Matches items bs captures) :
      Matches (.lit b :: items) (b :: bs) captures
  | group {p word items bs captures} (nonempty : word ≠ []) (kind : ∀ b ∈ word, p b = true)
      (rest : Matches items bs captures) :
      Matches (.group p :: items) (word ++ bs) (word :: captures)

/-- Runs with at most `k` letters, the longest one first. -/
def tryRuns (rest : List β → Option (List (List β))) (bs : List β) : ℕ → Option (List (List β))
  | 0 => none
  | k + 1 =>
      match rest (bs.drop (k + 1)) with
      | some captures => some (bs.take (k + 1) :: captures)
      | none => tryRuns rest bs k

section Matcher

variable [DecidableEq β]

/-- The matcher, with the captures of the first match that it finds. -/
def fullMatch : List (Item β) → List β → Option (List (List β))
  | [], [] => some []
  | [], _ :: _ => none
  | .lit _ :: _, [] => none
  | .lit a :: items, b :: bs => if a = b then fullMatch items bs else none
  | .group p :: items, bs => tryRuns (fullMatch items) bs (bs.takeWhile p).length

end Matcher

theorem tryRuns_sound {rest : List β → Option (List (List β))} {bs : List β} {k : ℕ}
    {captures : List (List β)} (h : tryRuns rest bs k = some captures) :
    ∃ j, 0 < j ∧ j ≤ k ∧ ∃ later, rest (bs.drop j) = some later ∧
      captures = bs.take j :: later := by
  induction k with
  | zero => cases h
  | succ k ih =>
      rw [tryRuns] at h
      cases hrest : rest (bs.drop (k + 1)) with
      | some later =>
          rw [hrest] at h
          exact ⟨k + 1, Nat.succ_pos k, le_rfl, later, hrest, (Option.some.inj h).symm⟩
      | none =>
          rw [hrest] at h
          obtain ⟨j, hpos, hle, hj⟩ := ih h
          exact ⟨j, hpos, hle.trans (Nat.le_succ k), hj⟩

/-- If some run fits, one is found. -/
theorem tryRuns_isSome {rest : List β → Option (List (List β))} {bs : List β} {j k : ℕ}
    (hpos : 0 < j) (hle : j ≤ k) (h : (rest (bs.drop j)).isSome) :
    (tryRuns rest bs k).isSome := by
  induction k with
  | zero => omega
  | succ k ih =>
      rw [tryRuns]
      cases hrest : rest (bs.drop (k + 1)) with
      | some later => rfl
      | none =>
          refine ih ?_
          rcases Nat.le_succ_iff.mp hle with hle | rfl
          · exact hle
          · rw [hrest] at h
            cases h

section Matcher

variable [DecidableEq β]

theorem fullMatch_sound {items : List (Item β)} {bs : List β} {captures : List (List β)}
    (h : fullMatch items bs = some captures) : Matches items bs captures := by
  induction items generalizing bs captures with
  | nil =>
      cases bs with
      | nil =>
          cases h
          exact .nil
      | cons b bs => cases h
  | cons item items ih =>
      cases item with
      | lit a =>
          cases bs with
          | nil => cases h
          | cons b bs =>
              rw [fullMatch] at h
              split_ifs at h with heq
              rw [heq]
              exact .lit (ih h)
      | group p =>
          obtain ⟨j, hpos, hle, later, hlater, rfl⟩ := tryRuns_sound h
          have hword : bs.take j <+: bs.takeWhile p :=
            List.prefix_of_prefix_length_le (List.take_prefix j bs) (List.takeWhile_prefix p)
              ((List.length_take_le j bs).trans hle)
          have hne : bs.take j ≠ [] := by
            intro hnil
            have hlength := congrArg List.length hnil
            have hbound := (List.takeWhile_prefix (l := bs) p).length_le
            rw [List.length_take, List.length_nil] at hlength
            omega
          have hmatches := Matches.group (p := p) hne
            (fun b hb ↦ List.mem_takeWhile_imp (hword.subset hb)) (ih hlater)
          rwa [List.take_append_drop] at hmatches

theorem fullMatch_isSome {items : List (Item β)} {bs : List β} {captures : List (List β)}
    (h : Matches items bs captures) : (fullMatch items bs).isSome := by
  induction h with
  | nil => rfl
  | lit _ ih =>
      rw [fullMatch, if_pos rfl]
      exact ih
  | @group p word items bs captures hne hkind _ ih =>
      rw [fullMatch]
      refine tryRuns_isSome (j := word.length) (List.length_pos_iff.mpr hne) ?_ ?_
      · rw [List.takeWhile_append_of_pos hkind, List.length_append]
        exact Nat.le_add_right _ _
      · rwa [List.drop_left]

end Matcher

/-! ## Patterns with one way to match -/

/-- Behind every group the pattern ends or has a letter that the group cannot capture. -/
def Delimited : List (Item β) → Prop
  | [] => True
  | .lit _ :: items => Delimited items
  | [.group _] => True
  | .group p :: .lit b :: items => p b = false ∧ Delimited items
  | .group _ :: .group _ :: _ => False

/-- What is behind a run that a group captures in full. -/
def Stops (p : β → Bool) : List β → Prop
  | [] => True
  | b :: _ => p b = false

theorem Delimited.tail {item : Item β} {items : List (Item β)} (h : Delimited (item :: items)) :
    Delimited items := by
  cases item with
  | lit b => exact h
  | group p =>
      cases items with
      | nil => trivial
      | cons next items =>
          cases next with
          | lit b => exact h.2
          | group q => exact h.elim

theorem Delimited.stops {p : β → Bool} {items : List (Item β)} {bs : List β}
    {captures : List (List β)} (h : Delimited (.group p :: items))
    (hmatches : Matches items bs captures) : Stops p bs := by
  cases hmatches with
  | nil => trivial
  | lit _ => exact h.1
  | group _ _ _ => exact h.elim

/-- A run that stops is the longest one. -/
theorem takeWhile_of_stops {p : β → Bool} {word bs : List β} (hkind : ∀ b ∈ word, p b = true)
    (hstops : Stops p bs) : (word ++ bs).takeWhile p = word := by
  rw [List.takeWhile_append_of_pos hkind]
  cases bs with
  | nil => simp
  | cons b bs => rw [List.takeWhile_cons_of_neg (Bool.eq_false_iff.mp hstops), List.append_nil]

theorem Matches.unique {items : List (Item β)} {bs : List β} {captures captures' : List (List β)}
    (hdelimited : Delimited items) (h : Matches items bs captures)
    (h' : Matches items bs captures') : captures = captures' := by
  induction h generalizing captures' with
  | nil =>
      cases h'
      rfl
  | lit _ ih =>
      cases h' with
      | lit rest' => exact ih hdelimited rest'
  | @group p word items bs captures hne hkind rest ih =>
      generalize hall : word ++ bs = all at h'
      cases h' with
      | @group _ word' _ bs' captures' hne' hkind' rest' =>
          have hword : word = word' := by
            rw [← takeWhile_of_stops hkind (hdelimited.stops rest), hall,
              takeWhile_of_stops hkind' (hdelimited.stops rest')]
          subst hword
          rw [List.append_cancel_left hall] at ih
          rw [ih hdelimited.tail rest']

/-- The matcher finds the match, if there is one. -/
theorem fullMatch_eq_some_iff [DecidableEq β] {items : List (Item β)} (h : Delimited items)
    {bs : List β} {captures : List (List β)} :
    fullMatch items bs = some captures ↔ Matches items bs captures := by
  refine ⟨fullMatch_sound, fun hmatches ↦ ?_⟩
  obtain ⟨found, hfound⟩ := Option.isSome_iff_exists.mp (fullMatch_isSome hmatches)
  rw [hfound, (fullMatch_sound hfound).unique h hmatches]

/-! ## Segments -/

/-- A segment of a pattern: a text, or one that stands for any text. -/
inductive Segment (β : Type*)
  | text (word : List β)
  | any

/-- The segments of a pattern fit to words, and `any` has taken these. -/
inductive Fits : List (Segment β) → List (List β) → List (List β) → Prop
  | nil : Fits [] [] []
  | text {word segments words captures} (rest : Fits segments words captures) :
      Fits (.text word :: segments) (word :: words) captures
  | any {word segments words captures} (nonempty : word ≠ [])
      (rest : Fits segments words captures) :
      Fits (.any :: segments) (word :: words) (word :: captures)

section Segments

variable [DecidableEq β] (sep : β)

/-- The words fit, and this is what `any` takes. -/
def fit : List (Segment β) → List (List β) → Option (List (List β))
  | [], [] => some []
  | .text word :: segments, word' :: words => if word = word' then fit segments words else none
  | .any :: segments, word :: words => if word = [] then none else (fit segments words).map (word :: ·)
  | _, _ => none

theorem fit_eq_some_iff {segments : List (Segment β)} {words captures : List (List β)} :
    fit segments words = some captures ↔ Fits segments words captures := by
  constructor
  · intro h
    induction segments generalizing words captures with
    | nil =>
        cases words with
        | nil =>
            cases h
            exact .nil
        | cons word words => cases h
    | cons segment segments ih =>
        cases words with
        | nil =>
            cases segment with
            | text word => cases h
            | any => cases h
        | cons word words =>
            cases segment with
            | text word' =>
                rw [fit] at h
                split_ifs at h with heq
                rw [heq]
                exact .text (ih h)
            | any =>
                rw [fit] at h
                split_ifs at h with hnil
                obtain ⟨later, hlater, rfl⟩ := Option.map_eq_some_iff.mp h
                exact .any hnil (ih hlater)
  · intro h
    induction h with
    | nil => rfl
    | text _ ih => rw [fit, if_pos rfl, ih]
    | any hne _ ih => rw [fit, if_neg hne, ih, Option.map_some]

/-- The letters of one segment. -/
def itemsOf : Segment β → List (Item β)
  | .text word => word.map .lit
  | .any => [.group fun b ↦ b ≠ sep]

/-- The segments, each with a separator in front of it. -/
def itemsOfAll (segments : List (Segment β)) : List (Item β) :=
  segments.flatMap fun segment ↦ .lit sep :: itemsOf sep segment

/-- No text of the pattern contains the separator. -/
def Segmented : List (Segment β) → Prop
  | [] => True
  | .text word :: segments => sep ∉ word ∧ Segmented segments
  | .any :: segments => Segmented segments

/-- The words, each with a separator in front of it. -/
def joinAll (words : List (List β)) : List β :=
  words.flatMap (sep :: ·)

omit [DecidableEq β] in
/-- The items of a text match this text. -/
theorem matches_text_append {word : List β} {items : List (Item β)} {bs : List β}
    {captures : List (List β)} :
    Matches (word.map .lit ++ items) bs captures ↔
      ∃ later, bs = word ++ later ∧ Matches items later captures := by
  induction word generalizing bs with
  | nil => exact ⟨fun h ↦ ⟨bs, rfl, h⟩, fun ⟨_, heq, h⟩ ↦ heq ▸ h⟩
  | cons b word ih =>
      constructor
      · intro h
        cases h with
        | lit rest =>
            obtain ⟨later, rfl, hlater⟩ := ih.mp rest
            exact ⟨later, rfl, hlater⟩
      · rintro ⟨later, rfl, hlater⟩
        exact .lit (ih.mpr ⟨later, rfl, hlater⟩)

/-- Segments match exactly the words that they fit to. -/
theorem matches_itemsOfAll {segments : List (Segment β)} (hsegmented : Segmented sep segments)
    {bs : List β} {captures : List (List β)} :
    Matches (itemsOfAll sep segments) bs captures ↔
      ∃ words, bs = joinAll sep words ∧ (∀ word ∈ words, sep ∉ word) ∧
        Fits segments words captures := by
  induction segments generalizing bs captures with
  | nil =>
      constructor
      · intro h
        cases h
        exact ⟨[], rfl, fun _ hword ↦ absurd hword List.not_mem_nil, .nil⟩
      · rintro ⟨words, rfl, -, hfits⟩
        cases hfits
        exact .nil
  | cons segment segments ih =>
      rw [itemsOfAll, List.flatMap_cons, ← itemsOfAll]
      constructor
      · intro h
        cases h with
        | lit rest =>
            cases segment with
            | text word =>
                obtain ⟨later, rfl, hlater⟩ := matches_text_append.mp rest
                obtain ⟨words, rfl, hwords, hfits⟩ := (ih hsegmented.2).mp hlater
                exact ⟨word :: words, rfl, List.forall_mem_cons.mpr ⟨hsegmented.1, hwords⟩,
                  .text hfits⟩
            | any =>
                cases rest with
                | @group _ word _ _ _ hne hkind hlater =>
                    obtain ⟨words, rfl, hwords, hfits⟩ := (ih hsegmented).mp hlater
                    refine ⟨word :: words, rfl, List.forall_mem_cons.mpr ⟨fun hmem ↦ ?_, hwords⟩,
                      .any hne hfits⟩
                    exact of_decide_eq_true (hkind sep hmem) rfl
      · rintro ⟨words, rfl, hwords, hfits⟩
        cases hfits with
        | @text word _ words _ hfits =>
            refine .lit (matches_text_append.mpr ⟨joinAll sep words, rfl, ?_⟩)
            exact (ih hsegmented.2).mpr
              ⟨words, rfl, (List.forall_mem_cons.mp hwords).2, hfits⟩
        | @any word _ words _ hne hfits =>
            obtain ⟨hword, hwords⟩ := List.forall_mem_cons.mp hwords
            refine .lit (.group hne (fun b hb ↦ ?_) ((ih hsegmented).mpr ⟨words, rfl, hwords, hfits⟩))
            exact decide_eq_true fun heq ↦ hword (heq ▸ hb)

theorem delimited_itemsOfAll (segments : List (Segment β)) :
    Delimited (itemsOfAll sep segments) := by
  induction segments with
  | nil => trivial
  | cons segment segments ih =>
      rw [itemsOfAll, List.flatMap_cons, ← itemsOfAll]
      cases segment with
      | text word =>
          change Delimited (word.map .lit ++ itemsOfAll sep segments)
          induction word with
          | nil => exact ih
          | cons b word ihword => exact ihword
      | any =>
          cases segments with
          | nil => trivial
          | cons segment segments => exact ⟨decide_eq_false fun hne ↦ hne rfl, ih⟩

/-- The words between the separators are the only ones. -/
theorem joinAll_eq_iff {word : List β} {words : List (List β)} (hword : sep ∉ word)
    (hwords : ∀ word ∈ words, sep ∉ word) (bs : List β) :
    bs = word ++ joinAll sep words ↔ bs.splitOn sep = word :: words := by
  induction words generalizing word bs with
  | nil =>
      constructor
      · rintro rfl
        rw [joinAll, List.flatMap_nil, List.append_nil]
        exact List.splitOn_eq_singleton hword
      · intro h
        have hbs : [sep].intercalate (bs.splitOn sep) = bs := List.intercalate_splitOn sep
        rw [h] at hbs
        simpa [joinAll] using hbs.symm
  | cons next words ih =>
      obtain ⟨hnext, hwords⟩ := List.forall_mem_cons.mp hwords
      constructor
      · rintro rfl
        change (word ++ sep :: (next ++ joinAll sep words)).splitOn sep = _
        rw [List.splitOn_append_cons_self_of_not_mem hword, (ih hnext hwords _).mp rfl]
      · intro h
        have hbs : [sep].intercalate (bs.splitOn sep) = bs := List.intercalate_splitOn sep
        rw [h, List.intercalate_cons_cons] at hbs
        have hrest := (ih hnext hwords ([sep].intercalate (next :: words))).mpr ?_
        · rw [← hbs, hrest, List.append_assoc]
          rfl
        · refine List.splitOn_intercalate sep ?_ (List.cons_ne_nil _ _)
          exact List.forall_mem_cons.mpr ⟨hnext, hwords⟩

end Segments

end Captures

end HttpRaftKv
