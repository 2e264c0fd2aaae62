import Mathlib.Data.List.Forall2
import Mathlib.Data.List.Induction
import Mathlib.Data.List.TakeDrop
import Mathlib.Data.Nat.Init

/-!
# Streams that arrive in pieces

A decoder takes the item at the front of a stream.  What it takes is decided by
the bytes of the item alone, so it does not matter how many bytes have arrived
behind it.  A receiver that takes all items of what has arrived gets the same
items however the stream is cut; one that takes a single item with each piece
gets them all exactly if the pieces do not run ahead of it.
-/

namespace HttpRaftKv

/-- The item at the front and what stands behind it. -/
structure Decoder (β α : Type*) where
  next : List β → Option (α × List β)
  shorter : ∀ {bs a rest}, next bs = some (a, rest) → rest.length < bs.length
  stable : ∀ {bs a rest}, next bs = some (a, rest) →
    ∀ more, next (bs ++ more) = some (a, rest ++ more)

namespace Decoder

variable {α β : Type*} (d : Decoder β α)

theorem next_nil : d.next [] = none := by
  cases hnext : d.next [] with
  | none => rfl
  | some p => exact absurd (d.shorter hnext) (Nat.not_lt_zero _)

/-- The bytes are those of the item. -/
def Whole (bytes : List β) (a : α) : Prop :=
  d.next bytes = some (a, [])

theorem Whole.pos {d : Decoder β α} {bytes : List β} {a : α} (h : d.Whole bytes a) :
    0 < bytes.length :=
  d.shorter h

/-! ## All items up to the first one of a kind -/

section Drain

variable (stop : α → Bool)

def drainIn : ℕ → List β → List α × List β
  | 0, bs => ([], bs)
  | size + 1, bs =>
      match d.next bs with
      | none => ([], bs)
      | some (a, rest) =>
          if stop a then ([a], rest)
          else (a :: (drainIn size rest).1, (drainIn size rest).2)

/-- The items at the front up to the first one for which `stop` holds, this one
included, and what stands behind them. -/
def drain (bs : List β) : List α × List β :=
  d.drainIn stop bs.length bs

theorem drainIn_eq {bs : List β} {m n : ℕ} (hm : bs.length ≤ m) (hn : bs.length ≤ n) :
    d.drainIn stop m bs = d.drainIn stop n bs := by
  induction m generalizing bs n with
  | zero =>
      obtain rfl := List.length_eq_zero_iff.mp (Nat.le_zero.mp hm)
      cases n with
      | zero => rfl
      | succ n => rw [drainIn, drainIn, next_nil]
  | succ m ih =>
      cases n with
      | zero =>
          obtain rfl := List.length_eq_zero_iff.mp (Nat.le_zero.mp hn)
          rw [drainIn, drainIn, next_nil]
      | succ n =>
          rw [drainIn, drainIn]
          cases hnext : d.next bs with
          | none => rfl
          | some p =>
              have hlength := d.shorter hnext
              simp only [ih (show p.2.length ≤ m by omega) (show p.2.length ≤ n by omega)]

variable {stop}

theorem drain_of_none {bs : List β} (h : d.next bs = none) : d.drain stop bs = ([], bs) := by
  unfold drain
  cases bs with
  | nil => rfl
  | cons b bs => rw [List.length_cons, drainIn, h]

theorem drain_of_some {bs rest : List β} {a : α} (h : d.next bs = some (a, rest)) :
    d.drain stop bs =
      if stop a then ([a], rest) else (a :: (d.drain stop rest).1, (d.drain stop rest).2) := by
  have hlength := d.shorter h
  unfold drain
  obtain ⟨size, hsize⟩ : ∃ size, bs.length = size + 1 := ⟨bs.length - 1, by omega⟩
  rw [hsize, drainIn, h]
  simp only [d.drainIn_eq stop (show rest.length ≤ size by omega) (Nat.le_refl _)]

/-- The items are taken one by one. -/
theorem drain_induction {P : List β → Prop} (hnone : ∀ bs, d.next bs = none → P bs)
    (hsome : ∀ bs a rest, d.next bs = some (a, rest) → P rest → P bs) (bs : List β) : P bs := by
  generalize hlength : bs.length = length
  induction length using Nat.strong_induction_on generalizing bs with
  | h length ih =>
      cases hnext : d.next bs with
      | none => exact hnone bs hnext
      | some p => exact hsome bs p.1 p.2 hnext (ih _ (hlength ▸ d.shorter hnext) p.2 rfl)

/-- More of the stream is decoded behind what is left, as long as the last item
was not reached. -/
theorem drain_append (bs more : List β) :
    d.drain stop (bs ++ more) =
      if (d.drain stop bs).1.any stop then ((d.drain stop bs).1, (d.drain stop bs).2 ++ more)
      else ((d.drain stop bs).1 ++ (d.drain stop ((d.drain stop bs).2 ++ more)).1,
        (d.drain stop ((d.drain stop bs).2 ++ more)).2) := by
  induction bs using d.drain_induction with
  | hnone bs hnext =>
      rw [d.drain_of_none hnext]
      rfl
  | hsome bs a rest hnext ih =>
      rw [d.drain_of_some (d.stable hnext more), d.drain_of_some hnext, ih]
      cases hstop : stop a with
      | true => simp [hstop]
      | false =>
          simp only [hstop, List.any_cons, Bool.false_or, Bool.false_eq_true, ↓reduceIte]
          split_ifs
          · rfl
          · rfl

/-- The item at which the decoder stopped is the last one. -/
theorem exists_last_of_drain {bs : List β} (h : (d.drain stop bs).1.any stop = true) :
    ∃ before last, (d.drain stop bs).1 = before ++ [last] ∧ stop last = true ∧
      before.any stop = false := by
  induction bs using d.drain_induction with
  | hnone bs hnext =>
      rw [d.drain_of_none hnext] at h
      cases h
  | hsome bs a rest hnext ih =>
      rw [d.drain_of_some hnext] at h ⊢
      split_ifs at h ⊢ with hstop
      · exact ⟨[], a, rfl, hstop, rfl⟩
      · simp only [List.any_cons, hstop, Bool.false_or] at h
        obtain ⟨before, last, heq, hlast, hbefore⟩ := ih h
        refine ⟨a :: before, last, ?_, hlast, ?_⟩
        · rw [heq]
          rfl
        · simp only [List.any_cons, hstop, Bool.false_or]
          exact hbefore

/-- The items up to the first one for which `stop` holds, this one included. -/
def upTo (stop : α → Bool) : List α → List α
  | [] => []
  | a :: as => a :: if stop a then [] else upTo stop as

theorem upTo_drain (bs : List β) : upTo stop (d.drain stop bs).1 = (d.drain stop bs).1 := by
  induction bs using d.drain_induction with
  | hnone bs hnext =>
      rw [d.drain_of_none hnext]
      rfl
  | hsome bs a rest hnext ih =>
      rw [d.drain_of_some hnext]
      split_ifs with hstop
      · simp [upTo, hstop]
      · rw [upTo, ih, if_neg hstop]

/-- From the bytes of some items one gets these items. -/
theorem drain_flatten {items : List (List β)} {as : List α} (h : List.Forall₂ d.Whole items as) :
    (d.drain stop items.flatten).1 = upTo stop as := by
  induction h with
  | nil =>
      rw [List.flatten_nil, d.drain_of_none d.next_nil]
      rfl
  | @cons bytes a items as hwhole _ ih =>
      have hnext := d.stable hwhole items.flatten
      rw [List.nil_append] at hnext
      rw [List.flatten_cons, d.drain_of_some hnext, upTo, ← ih]
      split_ifs
      · rfl
      · rfl

end Drain

/-! ## One item with each piece -/

/-- What has been taken, and what has arrived and has not been taken. -/
structure Pending (β α : Type*) where
  taken : List α
  left : List β

/-- A piece arrives, and at most one item is taken. -/
def takeOne (s : Pending β α) (piece : List β) : Pending β α :=
  match d.next (s.left ++ piece) with
  | none => ⟨s.taken, s.left ++ piece⟩
  | some (a, rest) => ⟨s.taken ++ [a], rest⟩

/-- The state after all pieces. -/
def takeAll (pieces : List (List β)) : Pending β α :=
  pieces.foldl d.takeOne ⟨[], []⟩

/-- The first items have arrived. -/
def Arrived (items : List (List β)) (n : ℕ) (pieces : List (List β)) : Prop :=
  (items.take n).flatten.length ≤ pieces.flatten.length

/-- The first `n` items have been taken, and the rest of what has arrived is left. -/
structure Taken (items : List (List β)) (as : List α) (pieces : List (List β)) (s : Pending β α)
    (n : ℕ) : Prop where
  le : n ≤ items.length
  taken : s.taken = as.take n
  left : (items.take n).flatten ++ s.left = pieces.flatten

variable {d}

/-- An item is taken once all of its bytes have arrived. -/
theorem Whole.next_eq {bytes arrived more rest : List β} {a : α} (h : d.Whole bytes a)
    (heq : arrived ++ more = bytes ++ rest) :
    d.next arrived =
      if bytes.length ≤ arrived.length then some (a, arrived.drop bytes.length) else none := by
  split_ifs with hlength
  · obtain ⟨behind, rfl⟩ : bytes <+: arrived :=
      List.prefix_of_prefix_length_le (heq ▸ List.prefix_append bytes rest)
        (List.prefix_append arrived more) hlength
    have hnext := d.stable h behind
    rw [List.nil_append] at hnext
    rw [hnext, List.drop_left]
  · cases hnext : d.next arrived with
    | none => rfl
    | some p =>
        -- The decoder would have taken the item before all of its bytes are there.
        exfalso
        obtain ⟨a', rest'⟩ := p
        obtain ⟨missing, rfl⟩ : arrived <+: bytes :=
          List.prefix_of_prefix_length_le (heq ▸ List.prefix_append arrived more)
            (List.prefix_append bytes rest) (by omega)
        have hnext' := d.stable hnext missing
        rw [show d.next (arrived ++ missing) = some (a, []) from h] at hnext'
        have hnil := congrArg (fun q ↦ (q.map fun p ↦ p.2.length)) hnext'
        simp only [Option.map_some, List.length_nil, List.length_append, Option.some.injEq] at hnil
        rw [List.length_append] at hlength
        omega

variable {items : List (List β)} {as : List α}

theorem flatten_take_succ {n : ℕ} (hn : n < items.length) :
    (items.take (n + 1)).flatten = (items.take n).flatten ++ items[n] := by
  rw [List.take_succ_eq_append_getElem hn, List.flatten_append, List.flatten_singleton]

/-- What is left with the next piece starts the items that have not been taken. -/
theorem Taken.left_append {pieces : List (List β)} {s : Pending β α} {n : ℕ}
    (hs : Taken items as pieces s n) {piece : List β}
    (hpieces : (pieces ++ [piece]).flatten <+: items.flatten) :
    (items.take n).flatten ++ (s.left ++ piece) = (pieces ++ [piece]).flatten ∧
      ∃ more, s.left ++ piece ++ more = (items.drop n).flatten := by
  have hleft : (items.take n).flatten ++ (s.left ++ piece) = (pieces ++ [piece]).flatten := by
    rw [← List.append_assoc, hs.left]
    simp
  obtain ⟨more, hmore⟩ := hpieces
  have hsplit : items.flatten = (items.take n).flatten ++ (items.drop n).flatten := by
    rw [← List.flatten_append, List.take_append_drop]
  rw [← hleft, hsplit, List.append_assoc] at hmore
  exact ⟨hleft, more, List.append_cancel_left hmore⟩

/-- What is left with the next piece is the start of an item. -/
theorem Taken.exists_next {pieces : List (List β)} {s : Pending β α} {n : ℕ}
    (hs : Taken items as pieces s n) (h : List.Forall₂ d.Whole items as) {piece : List β}
    (hpieces : (pieces ++ [piece]).flatten <+: items.flatten) (hne : s.left ++ piece ≠ []) :
    ∃ more, ∃ a ∈ as, ∃ rest, d.next (s.left ++ piece ++ more) = some (a, rest) := by
  obtain ⟨-, more, hrest⟩ := hs.left_append hpieces
  rcases Nat.lt_or_ge n items.length with hn | hn
  · have hna : n < as.length := h.length_eq ▸ hn
    have hwhole : d.Whole items[n] as[n] := (List.forall₂_iff_get.mp h).2 n hn hna
    rw [List.drop_eq_getElem_cons hn, List.flatten_cons] at hrest
    refine ⟨more, as[n], List.getElem_mem hna, [] ++ (items.drop (n + 1)).flatten, ?_⟩
    rw [hrest]
    exact d.stable hwhole _
  · rw [List.drop_eq_nil_of_le hn, List.flatten_nil, List.append_eq_nil_iff] at hrest
    exact absurd hrest.1 hne

/-- A piece lets one more item be taken if it has arrived, and none otherwise. -/
theorem Taken.takeOne {pieces : List (List β)} {s : Pending β α} {n : ℕ}
    (hs : Taken items as pieces s n) (h : List.Forall₂ d.Whole items as) {piece : List β}
    (hpieces : (pieces ++ [piece]).flatten <+: items.flatten) :
    ∃ n', Taken items as (pieces ++ [piece]) (d.takeOne s piece) n' ∧ n ≤ n' ∧ n' ≤ n + 1 ∧
      (n < items.length → Arrived items (n + 1) (pieces ++ [piece]) → n' = n + 1) := by
  obtain ⟨hleft, more, hrest⟩ := hs.left_append hpieces
  rcases Nat.lt_or_ge n items.length with hn | hn
  · have hna : n < as.length := h.length_eq ▸ hn
    have hwhole : d.Whole items[n] as[n] := (List.forall₂_iff_get.mp h).2 n hn hna
    rw [List.drop_eq_getElem_cons hn, List.flatten_cons] at hrest
    have hnext := hwhole.next_eq hrest
    have harrived : Arrived items (n + 1) (pieces ++ [piece]) ↔
        items[n].length ≤ (s.left ++ piece).length := by
      unfold Arrived
      rw [← hleft, flatten_take_succ hn, List.length_append, List.length_append]
      omega
    unfold Decoder.takeOne
    rw [hnext, harrived]
    split_ifs with hlength
    · refine ⟨n + 1, ⟨hn, ?_, ?_⟩, by omega, by omega, fun _ _ ↦ rfl⟩
      · simp only [hs.taken, List.take_succ_eq_append_getElem hna]
      · have hprefix : items[n] <+: s.left ++ piece :=
          List.prefix_of_prefix_length_le (hrest ▸ List.prefix_append items[n] _)
            (List.prefix_append _ more) hlength
        obtain ⟨behind, hbehind⟩ := hprefix
        rw [flatten_take_succ hn, List.append_assoc, ← hleft, ← hbehind, List.drop_left]
    · exact ⟨n, ⟨hs.le, hs.taken, hleft⟩, (Nat.le_refl _), by omega, fun _ hall ↦ absurd hall hlength⟩
  · rw [List.drop_eq_nil_of_le hn, List.flatten_nil, List.append_eq_nil_iff] at hrest
    unfold Decoder.takeOne
    rw [hrest.1, next_nil]
    exact ⟨n, ⟨hs.le, hs.taken, hrest.1 ▸ hleft⟩, (Nat.le_refl _), by omega, fun hlt ↦ by omega⟩

/-- After all pieces, `k` items have been taken exactly if at every moment the
items that later pieces cannot bring any more had arrived. -/
theorem exists_taken (h : List.Forall₂ d.Whole items as) {pieces : List (List β)}
    (hpieces : pieces.flatten <+: items.flatten) :
    ∃ n, Taken items as pieces (d.takeAll pieces) n ∧ ∀ k ≤ items.length,
      (k ≤ n ↔ ∀ pre post, pieces = pre ++ post → Arrived items (k - post.length) pre) := by
  induction pieces using List.reverseRecOn with
  | nil =>
      refine ⟨0, ⟨Nat.zero_le _, rfl, rfl⟩, fun k hk ↦ ?_⟩
      constructor
      · rintro hzero pre post -
        simp [Arrived, Nat.le_zero.mp hzero]
      · intro harrived
        -- The first item has bytes, so it has not arrived with no piece.
        by_contra hpos
        obtain ⟨bytes, items, rfl⟩ := List.exists_cons_of_length_pos (show 0 < items.length by omega)
        obtain ⟨k, rfl⟩ : ∃ k', k = k' + 1 := ⟨k - 1, by omega⟩
        have hzero := harrived [] [] rfl
        cases h with
        | cons hwhole _ =>
            have hlength := hwhole.pos
            simp [Arrived] at hzero
            simp [hzero.1] at hlength
  | append_singleton pieces piece ih =>
      obtain ⟨n, hs, hn⟩ := ih ((by simp : pieces.flatten <+: (pieces ++ [piece]).flatten).trans
        hpieces)
      obtain ⟨n', hs', hle, hle', hmore⟩ := hs.takeOne h hpieces
      refine ⟨n', by rwa [takeAll, List.foldl_append], fun k hk ↦ ?_⟩
      have hstep : k ≤ n' ↔ Arrived items k (pieces ++ [piece]) ∧ k - 1 ≤ n := by
        constructor
        · intro hkn
          refine ⟨?_, by omega⟩
          unfold Arrived
          rw [← hs'.left, List.length_append]
          obtain ⟨later, hlater⟩ : items.take k <+: items.take n' := List.take_prefix_take_left hkn
          rw [← hlater, List.flatten_append, List.length_append]
          omega
        · rintro ⟨harrived, hkn⟩
          rcases Nat.lt_or_ge n k with hlt | hge
          · obtain rfl : k = n + 1 := by omega
            exact Nat.le_of_eq (hmore (by omega) harrived).symm
          · omega
      rw [hstep, hn (k - 1) (by omega)]
      constructor
      · rintro ⟨hall, hpast⟩ pre post heq
        rcases List.eq_nil_or_concat post with rfl | ⟨post, last, rfl⟩
        · rw [List.append_nil] at heq
          rw [← heq]
          exact hall
        · rw [List.concat_eq_append, ← List.append_assoc] at heq
          obtain ⟨heq, -⟩ := List.append_inj' heq rfl
          have hpre := hpast pre post heq
          rw [List.concat_eq_append, List.length_append, List.length_singleton]
          rwa [Nat.sub_sub, Nat.add_comm 1] at hpre
      · intro hall
        refine ⟨by simpa using hall (pieces ++ [piece]) [] (by simp), fun pre post heq ↦ ?_⟩
        have hpre := hall pre (post ++ [piece]) (by rw [heq, List.append_assoc])
        rw [List.length_append, List.length_singleton] at hpre
        rwa [Nat.sub_sub, Nat.add_comm 1]

/-- All items are taken exactly if at every moment all items had arrived but as
many as there are pieces to come. -/
theorem takeAll_taken_iff (h : List.Forall₂ d.Whole items as) {pieces : List (List β)}
    (hpieces : pieces.flatten = items.flatten) :
    (d.takeAll pieces).taken = as ↔
      ∀ pre post, pieces = pre ++ post → Arrived items (items.length - post.length) pre := by
  obtain ⟨n, hs, hn⟩ := exists_taken h ⟨[], by rw [List.append_nil, hpieces]⟩
  rw [← hn items.length (Nat.le_refl _), hs.taken, List.take_eq_self_iff, h.length_eq]

end Decoder

end HttpRaftKv
