import HttpRaftKv.Storage.SkipListMap

/-!
# Sequences of calls of a skip list

A skip list that is used through its operations answers like a map, whatever levels
its nodes get.  Its levels are chains in the order of the keys, each a part of the one
below it, and the chain of level 0 has all keys.
-/

namespace HttpRaftKv.SkipList

variable {K V : Type}

/-- A call, with what the generator draws in it. -/
inductive Call (K V : Type)
  | insertElement (key : K) (value : V) (heads : ℕ)
  | insertSetElement (key : K) (value : V) (heads : ℕ)
  | deleteElement (key : K)
  | searchElement (key : K)
deriving DecidableEq, Repr

/-- What a call returns. -/
inductive Answer (V : Type)
  | inserted (result : ℕ)
  | found (value : Option V)
  | done
deriving DecidableEq, Repr

section calls

variable [LinearOrder K]

def call (s : SkipList K V) : Call K V → Option (Answer V × SkipList K V)
  | .insertElement key value heads => do
      let (result, s) ← s.insertElement key value heads
      return (.inserted result, s)
  | .insertSetElement key value heads => do
      let s ← s.insertSetElement key value heads
      return (.done, s)
  | .deleteElement key => do
      let s ← s.deleteElement key
      return (.done, s)
  | .searchElement key => do
      let value ← s.searchElement key
      return (.found value, s)

/-- The answers to a sequence of calls and the list after it. -/
def calls : SkipList K V → List (Call K V) → Option (List (Answer V) × SkipList K V)
  | s, [] => some ([], s)
  | s, c :: cs => do
      let (answer, s) ← s.call c
      let (answers, s) ← s.calls cs
      return (answer :: answers, s)

/-! ## Maps -/

/-- The same call of a map. -/
def mapCall (m : K → Option V) : Call K V → Answer V × (K → Option V)
  | .insertElement key value _ =>
      match m key with
      | some _ => (.inserted 1, m)
      | none => (.inserted 0, Function.update m key (some value))
  | .insertSetElement key value _ => (.done, Function.update m key (some value))
  | .deleteElement key => (.done, Function.update m key none)
  | .searchElement key => (.found (m key), m)

def mapCalls : (K → Option V) → List (Call K V) → List (Answer V) × (K → Option V)
  | m, [] => ([], m)
  | m, c :: cs =>
      let (answer, m) := mapCall m c
      let (answers, m) := mapCalls m cs
      (answer :: answers, m)

variable {s : SkipList K V} {m : K → Option V}

theorem Holds.call (h : Holds s m) (c : Call K V) :
    ∃ s', s.call c = some ((mapCall m c).1, s') ∧ Holds s' (mapCall m c).2 := by
  cases c with
  | insertElement key value heads =>
      obtain ⟨s', hinsert, hholds⟩ := h.insertElement key value heads
      refine ⟨s', ?_, ?_⟩
      · cases hkey : m key with
        | none => simp [SkipList.call, mapCall, hinsert, hkey]
        | some old => simp [SkipList.call, mapCall, hinsert, hkey]
      · cases hkey : m key with
        | none => simpa [mapCall, hkey] using hholds
        | some old => simpa [mapCall, hkey] using hholds
  | insertSetElement key value heads =>
      obtain ⟨s', hinsert, hholds⟩ := h.insertSetElement key value heads
      exact ⟨s', by simp [SkipList.call, mapCall, hinsert], hholds⟩
  | deleteElement key =>
      obtain ⟨s', hdelete, hholds⟩ := h.deleteElement key
      exact ⟨s', by simp [SkipList.call, mapCall, hdelete], hholds⟩
  | searchElement key =>
      exact ⟨s, by simp [SkipList.call, mapCall, h.searchElement key], h⟩

theorem Holds.calls (h : Holds s m) (cs : List (Call K V)) :
    ∃ s', s.calls cs = some ((mapCalls m cs).1, s') ∧ Holds s' (mapCalls m cs).2 := by
  induction cs generalizing s m with
  | nil => exact ⟨s, rfl, h⟩
  | cons c cs ih =>
      obtain ⟨s₁, hcall, h₁⟩ := h.call c
      obtain ⟨s', hcalls, h'⟩ := ih h₁
      exact ⟨s', by simp [SkipList.calls, mapCalls, hcall, hcalls], h'⟩

/-! ## Levels -/

/-- The keys of the nodes with these addresses. -/
def keysAt (s : SkipList K V) (addrs : List ℕ) : List (Option K) :=
  addrs.map fun a ↦ (s.heap a).map SkipNode.key

/-- Level `i` is the chain of these addresses, and their keys ascend. -/
structure Chain (s : SkipList K V) (i : ℕ) (addrs : List ℕ) : Prop where
  linked : Linked (s.forward · i) s.header addrs
  ascending : ∃ keys : List K, s.keysAt addrs = keys.map some ∧ keys.Pairwise (· < ·)

omit [LinearOrder K] in
theorem onLevel_succ_sublist (i : ℕ) (cs : List (Cell K V)) :
    (onLevel (i + 1) cs).Sublist (onLevel i cs) := by
  refine List.Sublist.map _ (List.monotone_filter_right cs fun c hc ↦ ?_)
  exact decide_eq_true (Nat.le_of_succ_le (of_decide_eq_true hc))

theorem Shape.chain {cs : List (Cell K V)} (h : Shape s cs) {i : ℕ} (hi : i ≤ s.maxLevel) :
    Chain s i (onLevel i cs) where
  linked := h.linked i hi
  ascending := by
    refine ⟨(cs.filter fun c ↦ i ≤ c.level).map Cell.key, ?_, ?_⟩
    · simp only [keysAt, onLevel, List.map_map]
      refine List.map_congr_left fun c hc ↦ ?_
      obtain ⟨node, hnode, hkey, -⟩ := h.node (List.mem_filter.mp hc).1
      simp [hnode, hkey]
    · exact List.pairwise_map.mpr (h.sorted.sublist List.filter_sublist)

/-- Above the level of the list the header points to nothing. -/
theorem Shape.forward_header_eq_none {cs : List (Cell K V)} (h : Shape s cs) {i : ℕ}
    (hlevel : s.skipListLevel < i) (hi : i ≤ s.maxLevel) : s.forward s.header i = some none := by
  have hlinked := h.linked i hi
  rw [onLevel_eq_nil fun c hc ↦ Nat.lt_of_le_of_lt (h.level_le c hc) hlevel] at hlinked
  exact hlinked

/-- After any calls on a new list, with any levels drawn, the answers are those of a map.
Every level is a chain of ascending keys and a part of the level below it, the header
points to nothing above the level of the list, the list has counted its keys, and the
dump has the pairs of the map in the order of the keys. -/
theorem calls_like_map [Inhabited K] [Inhabited V] [TextArchive (SkipListDump K V)] (maxLevel : ℕ)
    (cs : List (Call K V)) :
    ∃ s, (create maxLevel : SkipList K V).calls cs =
        some ((mapCalls (fun _ ↦ none) cs).1, s) ∧
      (∃ chain : ℕ → List ℕ, (∀ i ≤ s.maxLevel, Chain s i (chain i)) ∧
        ∀ i, (chain (i + 1)).Sublist (chain i)) ∧
      (∀ i, s.skipListLevel < i → i ≤ s.maxLevel → s.forward s.header i = some none) ∧
      ∃ (keys : List K) (values : List V),
        s.dumpFile = some (TextArchive.save (SkipListDump.mk keys values)) ∧
        keys.length = values.length ∧ s.elementCount = keys.length ∧ keys.Pairwise (· < ·) ∧
        ∀ key value, (mapCalls (fun _ ↦ none) cs).2 key = some value ↔
          (key, value) ∈ keys.zip values := by
  obtain ⟨s, hcalls, hholds⟩ := (holds_create (K := K) (V := V) maxLevel).calls cs
  have hdump := hholds.dump
  obtain ⟨cells, hshape, hmap⟩ := hholds
  obtain ⟨keys, values, hread, hlength, hsorted, hpairs⟩ := hdump
  refine ⟨s, hcalls, ⟨fun i ↦ onLevel i cells, fun i hi ↦ hshape.chain hi,
    fun i ↦ onLevel_succ_sublist i cells⟩, fun i ↦ hshape.forward_header_eq_none, keys, values,
    ?_, hlength, ?_, hsorted, hpairs⟩
  · rw [SkipList.dumpFile, hread]
    rfl
  · rw [hshape.dump_eq] at hread
    cases hread
    rw [hshape.count, List.length_map]

end calls

end HttpRaftKv.SkipList
