import HttpRaftKv.Storage.SkipListLevels
import Mathlib.Data.List.Sort

/-!
# A skip list is a sorted map

The operations of a skip list are those of a map from keys to values, whatever
levels its nodes get: an existing key is not overwritten by `insert_element`
and is overwritten by `insert_set_element`.  No operation follows a null or a
dangling pointer.
-/

namespace HttpRaftKv.SkipList

variable {K V : Type} [LinearOrder K] {s s' : SkipList K V} {cs front back : List (Cell K V)}
  {c : Cell K V} {key : K} {m : K → Option V}

/-! ## Cells as a map -/

section toMap

def toMap (cs : List (Cell K V)) (key : K) : Option V :=
  (cs.find? fun c ↦ c.key = key).map Cell.value

theorem toMap_eq_none (h : ∀ c ∈ cs, c.key ≠ key) : toMap cs key = none := by
  simpa [toMap] using h

theorem toMap_insert (hfront : ∀ d ∈ front, d.key ≠ c.key) (key : K) :
    toMap (front ++ c :: back) key =
      Function.update (toMap (front ++ back)) c.key (some c.value) key := by
  by_cases hkey : key = c.key
  · subst hkey
    have hnone : front.find? (fun d ↦ d.key = c.key) = none := by simpa using hfront
    simp [toMap, List.find?_append, hnone]
  · have hne : ¬ c.key = key := fun heq ↦ hkey heq.symm
    simp [toMap, List.find?_append, hkey, hne]

theorem toMap_eq_some_iff (h : cs.Pairwise fun c d ↦ c.key < d.key) {value : V} :
    toMap cs key = some value ↔ ∃ c ∈ cs, c.key = key ∧ c.value = value := by
  induction cs with
  | nil => simp [toMap]
  | cons d cs ih =>
      obtain ⟨hfirst, hsorted⟩ := List.pairwise_cons.mp h
      by_cases hkey : d.key = key
      · subst hkey
        have hother : ∀ c ∈ cs, c.key ≠ d.key := fun c hc ↦ (hfirst c hc).ne'
        simp only [toMap, List.find?_cons, decide_true, Option.map_some, Option.some.injEq,
          List.mem_cons, exists_eq_or_imp, true_and]
        refine ⟨.inl, ?_⟩
        rintro (hvalue | ⟨c, hc, heq, -⟩)
        · exact hvalue
        · exact absurd heq (hother c hc)
      · have hskip : toMap (d :: cs) key = toMap cs key := by simp [toMap, hkey]
        rw [hskip, ih hsorted]
        simp [hkey]

/-- A key stands in one cell, or between two cells. -/
theorem exists_cell_or (h : cs.Pairwise fun c d ↦ c.key < d.key) (key : K) :
    (∃ front c back, cs = front ++ c :: back ∧ c.key = key ∧ ∀ d ∈ front, d.key < c.key) ∨
      ∃ front back, cs = front ++ back ∧ (∀ d ∈ front, d.key < key) ∧ ∀ d ∈ back, key < d.key := by
  obtain ⟨front, back, rfl, hfront, hback⟩ := exists_split h key
  cases back with
  | nil => exact .inr ⟨front, [], rfl, hfront, by simp⟩
  | cons c back =>
      by_cases heq : c.key = key
      · subst heq
        exact .inl ⟨front, c, back, rfl, rfl, hfront⟩
      · have hlt : key < c.key := lt_of_le_of_ne (hback c List.mem_cons_self) (Ne.symm heq)
        obtain ⟨-, hsorted, -⟩ := List.pairwise_append.mp h
        refine .inr ⟨front, c :: back, rfl, hfront, fun d hd ↦ ?_⟩
        rcases List.mem_cons.mp hd with rfl | hd
        · exact hlt
        · exact hlt.trans ((List.pairwise_cons.mp hsorted).1 d hd)

end toMap

/-! ## Operations on cells -/

section operations

theorem Shape.hasKey_eq (h : Shape s cs) (hc : c ∈ cs) (key : K) :
    s.hasKey (some c.addr) key = some (decide (c.key = key)) := by
  obtain ⟨node, hnode, hkey, -⟩ := h.node hc
  simp [hasKey, hnode, hkey]

theorem Shape.hasKey_absent (h : Shape s (front ++ back)) (hback : ∀ c ∈ back, key < c.key) :
    s.hasKey (onLevel 0 back).head? key = some false := by
  cases back with
  | nil => rfl
  | cons d back =>
      rw [onLevel_cons_of_le (Nat.zero_le _), List.head?_cons, h.hasKey_eq (by simp)]
      simp [(hback d List.mem_cons_self).ne']

/-- A new address is none of those in use. -/
theorem Shape.fresh_notMem (h : Shape s cs) (i : ℕ) : s.fresh ∉ s.header :: onLevel i cs := by
  have hfree := h.fresh s.fresh le_rfl
  rw [List.mem_cons, mem_onLevel]
  rintro (heq | ⟨c, hc, -, heq⟩)
  · have hread := (h.linked 0 (Nat.zero_le _)).head
    rw [← heq] at hread
    simp [forward, hfree] at hread
  · obtain ⟨node, hnode, -⟩ := h.node hc
    rw [heq, hfree] at hnode
    cases hnode

theorem shape_create [Inhabited K] [Inhabited V] (maxLevel : ℕ) :
    Shape (create maxLevel : SkipList K V) [] where
  cell := by simp
  apart := by simp
  sorted := List.Pairwise.nil
  linked := by
    intro i hi
    have hlt : i < maxLevel + 1 := Nat.lt_succ_of_le hi
    simp [onLevel, Linked, forward, create, newNode, hlt]
  level_le := by simp
  top := Nat.zero_le _
  count := rfl
  fresh := by
    intro a ha
    have hne : a ≠ 0 := by
      rintro rfl
      cases ha
    simp [create, hne]

omit [LinearOrder K] in
theorem getRandomLevel_le (s : SkipList K V) (heads : ℕ) : s.getRandomLevel heads ≤ s.maxLevel := by
  unfold getRandomLevel
  dsimp only
  split_ifs <;> omega

section insertion

variable (h : Shape s (front ++ back)) (hfront : ∀ c ∈ front, c.key < key)

include h in
/-- The loop that starts the levels above the list at the header. -/
theorem Shape.raise_eq {found : ℕ × List (Option ℕ)} (hfound : Found s front 0 found) {level : ℕ}
    (hlevel : level ≤ s.maxLevel) :
    ∃ update, (List.range' (s.skipListLevel + 1) (level - s.skipListLevel)).foldlM
        (fun update i ↦ store update i (some s.header)) found.2 = some update ∧
      ∀ i ≤ level, update[i]? = some (some (s.before front i)) := by
  have htop := h.top
  obtain ⟨update, hrun, -, hupdate⟩ := foldlM_range' (a := s.skipListLevel + 1)
    (k := level - s.skipListLevel) (s := found.2)
    (f := fun update i ↦ store update i (some s.header))
    (P := fun j update ↦ update.length = s.maxLevel + 1 ∧
      ∀ i < j, update[i]? = some (some (s.before front i)))
    ⟨hfound.length, fun i hi ↦ hfound.update i (Nat.zero_le i) (Nat.le_of_lt_succ hi)⟩
    fun j update hj hlt hinv ↦ by
      obtain ⟨hlength, hupdate⟩ := hinv
      have hin : j < update.length := by omega
      refine ⟨_, store_eq hin, by simpa using hlength, fun i hi ↦ ?_⟩
      rcases Nat.eq_or_lt_of_le (Nat.le_of_lt_succ hi) with rfl | hlt
      · rw [List.getElem?_set_self hin, h.before_eq_header (by omega)]
      · rw [List.getElem?_set_ne (by omega)]
        exact hupdate i hlt
  exact ⟨update, hrun, fun i hi ↦ hupdate i (by omega)⟩

/-- The list with a new node, before it is linked. -/
def withNode (s : SkipList K V) (key : K) (value : V) (level : ℕ) : SkipList K V :=
  ({ s with skipListLevel := max s.skipListLevel level }.createNode key value level).2

include h in
theorem Shape.linking_withNode (key : K) (value : V) {level : ℕ} :
    Linking (s.withNode key value level) front back s.fresh level 0
      (s.withNode key value level) where
  same := rfl
  content := rfl
  done := fun i hi ↦ by cases hi
  left := by
    intro i _ hi
    have hlinked := h.linked i hi
    have hfresh := h.fresh_notMem i
    rw [onLevel_append] at hlinked hfresh
    refine hlinked.congr fun b hb ↦ ?_
    have hne : b ≠ s.fresh := fun heq ↦ hfresh (heq ▸ hb)
    simp [forward, withNode, createNode, hne]
  node := by
    intro i _ hi
    have hlt : i < level + 1 := Nat.lt_succ_of_le hi
    exact ⟨none, by simp [forward, withNode, createNode, newNode, hlt]⟩

include h hfront in
/-- All levels of the new node are linked. -/
theorem Shape.of_linking {value : V} {level : ℕ} (hback : ∀ c ∈ back, key < c.key)
    (hlevel : level ≤ s.maxLevel)
    (hlinked : Linking (s.withNode key value level) front back s.fresh level (level + 1) s') :
    Shape { s' with elementCount := s'.elementCount + 1 }
      (front ++ ⟨s.fresh, key, value, level⟩ :: back) := by
  have hheader : s'.header = s.header := by rw [hlinked.same]; rfl
  have hmax : s'.maxLevel = s.maxLevel := by rw [hlinked.same]; rfl
  have hlist : s'.skipListLevel = max s.skipListLevel level := by rw [hlinked.same]; rfl
  have hcontent : ∀ a, s'.content a =
      if a = s.fresh then some (key, value, level) else s.content a := by
    intro a
    rw [hlinked.content]
    split_ifs with heq
    · simp [content, withNode, createNode, newNode, heq]
    · simp [content, withNode, createNode, heq]
  have hold : ∀ c ∈ front ++ back, c.addr ≠ s.fresh := by
    intro c hc heq
    exact h.fresh_notMem 0 (List.mem_cons_of_mem _ (mem_onLevel.mpr ⟨c, hc, Nat.zero_le _, heq⟩))
  -- a cell is the new one or an old one
  have hmem : ∀ c ∈ front ++ ⟨s.fresh, key, value, level⟩ :: back,
      c = ⟨s.fresh, key, value, level⟩ ∨ c ∈ front ++ back := by
    intro c hc
    simp only [List.mem_append, List.mem_cons] at hc ⊢
    tauto
  refine ⟨?_, ?_, ?_, ?_, ?_, ?_, ?_, ?_⟩
  · intro c hc
    change s'.content c.addr = _
    rw [hcontent]
    rcases hmem c hc with rfl | hc
    · exact if_pos rfl
    · rw [if_neg (hold c hc), h.cell c hc]
  · intro c hc
    rcases hmem c hc with rfl | hc
    · intro heq
      exact h.fresh_notMem 0 (List.mem_cons.mpr (.inl (heq.trans hheader)))
    · exact fun heq ↦ h.apart c hc (heq.trans hheader)
  · obtain ⟨hf, hb, hfb⟩ := List.pairwise_append.mp h.sorted
    refine List.pairwise_append.mpr ⟨hf, List.pairwise_cons.mpr ⟨hback, hb⟩, ?_⟩
    intro c hc d hd
    rcases List.mem_cons.mp hd with rfl | hd
    · exact hfront c hc
    · exact hfb c hc d hd
  · intro i hi
    change Linked (s'.forward · i) s'.header _
    rw [onLevel_append, hheader]
    by_cases hle : i ≤ level
    · rw [onLevel_cons_of_le hle]
      exact hlinked.done i (Nat.lt_succ_of_le hle)
    · rw [onLevel_cons_of_lt (Nat.lt_of_not_le hle)]
      exact hlinked.left i (Nat.lt_of_not_le hle) (hmax ▸ hi)
  · intro c hc
    change c.level ≤ s'.skipListLevel
    rw [hlist]
    rcases hmem c hc with rfl | hc
    · exact le_max_right _ _
    · exact (h.level_le c hc).trans (le_max_left _ _)
  · change s'.skipListLevel ≤ s'.maxLevel
    rw [hlist, hmax]
    exact max_le h.top hlevel
  · have hcount : s'.elementCount = s.elementCount := by rw [hlinked.same]; rfl
    simp only [hcount, h.count, List.length_append, List.length_cons]
    omega
  · intro a ha
    have hfresh : s'.fresh = s.fresh + 1 := by rw [hlinked.same]; rfl
    change s'.fresh ≤ a at ha
    change s'.heap a = none
    rw [heap_eq_none_iff, hcontent, if_neg (by omega), ← heap_eq_none_iff]
    exact h.fresh a (by omega)

include h hfront in
theorem Shape.insertElement_new (hback : ∀ c ∈ back, key < c.key) (value : V) (heads : ℕ) :
    ∃ s', s.insertElement key value heads = some (0, s') ∧
      Shape s' (front ++ ⟨s.fresh, key, value, s.getRandomLevel heads⟩ :: back) := by
  set level := s.getRandomLevel heads with hlevel
  have hle : level ≤ s.maxLevel := getRandomLevel_le s heads
  obtain ⟨found, hfind, hfound⟩ := h.descend_eq hfront fun c hc ↦ (hback c hc).le
  have hread := h.forward_before (Nat.zero_le s.maxLevel)
  obtain ⟨update, hraise, hupdate⟩ := h.raise_eq hfound hle
  obtain ⟨s', hlink, hlinked⟩ := foldlM_range' (a := 0) (k := level + 1)
    (f := link s.fresh update) (h.linking_withNode key value) fun j t _ hj ht ↦ by
      have hnodup := h.nodup j
      have hfresh := h.fresh_notMem j
      rw [onLevel_append] at hnodup hfresh
      exact ht.link (by omega) hle (hupdate j (by omega)) hnodup hfresh
  rw [Nat.zero_add] at hlinked
  refine ⟨_, ?_, h.of_linking hfront hback hle hlinked⟩
  simp only [insertElement, hfind, hfound.current, Option.bind_eq_bind, Option.bind_some, hread,
    h.hasKey_absent hback, ← hlevel, hraise, Bool.false_eq_true, if_false]
  exact Option.bind_eq_some_iff.mpr ⟨s', hlink, rfl⟩

end insertion

section existing

variable (h : Shape s (front ++ c :: back)) (hfront : ∀ d ∈ front, d.key < c.key)

include h in
theorem Shape.le_of_mem_back : ∀ d ∈ c :: back, c.key ≤ d.key := by
  obtain ⟨-, hsorted, -⟩ := List.pairwise_append.mp h.sorted
  intro d hd
  rcases List.mem_cons.mp hd with rfl | hd
  · exact le_rfl
  · exact ((List.pairwise_cons.mp hsorted).1 d hd).le

include h in
theorem Shape.forward_cell : s.forward (s.before front 0) 0 = some (some c.addr) := by
  have hread := h.forward_before (Nat.zero_le s.maxLevel)
  rwa [onLevel_cons_of_le (Nat.zero_le _), List.head?_cons] at hread

include h in
theorem Shape.hasKey_cell : s.hasKey (some c.addr) c.key = some true := by
  rw [h.hasKey_eq (by simp)]
  simp

include h in
/-- No other cell has the address. -/
theorem Shape.addr_ne : ∀ d ∈ front ++ back, d.addr ≠ c.addr := by
  intro d hd heq
  have hnodup := (List.nodup_cons.mp (h.nodup 0)).2
  rw [onLevel_append, onLevel_cons_of_le (Nat.zero_le _), List.nodup_middle, List.nodup_cons,
    ← onLevel_append] at hnodup
  exact hnodup.1 (mem_onLevel.mpr ⟨d, hd, Nat.zero_le _, heq⟩)

include h hfront in
theorem Shape.insertElement_exists (value : V) (heads : ℕ) :
    s.insertElement c.key value heads = some (1, s) := by
  obtain ⟨found, hfind, hfound⟩ := h.descend_eq hfront h.le_of_mem_back
  simp [insertElement, hfind, hfound.current, h.forward_cell, h.hasKey_cell]

include h in
/-- The node of a cell has been taken out of all levels and is deleted. -/
theorem Shape.of_unlinking {level : ℕ}
    (hunlinked : Unlinking s front c back (s.maxLevel + 1) s') (hle : level ≤ s.skipListLevel)
    (hlevel : ∀ d ∈ front ++ back, d.level ≤ level) :
    Shape { s' with skipListLevel := level
                    heap := Function.update s'.heap c.addr none
                    elementCount := s'.elementCount - 1 } (front ++ back) := by
  have hheader : s'.header = s.header := by rw [hunlinked.same]
  have hmax : s'.maxLevel = s.maxLevel := by rw [hunlinked.same]
  have hsub : (front ++ back).Sublist (front ++ c :: back) :=
    (List.Sublist.refl front).append (List.sublist_cons_self c back)
  refine ⟨?_, ?_, h.sorted.sublist hsub, ?_, hlevel, ?_, ?_, ?_⟩
  · intro d hd
    rw [← h.cell d (hsub.subset hd), ← hunlinked.content]
    simp [content, h.addr_ne d hd]
  · exact fun d hd heq ↦ h.apart d (hsub.subset hd) (heq.trans hheader)
  · intro i hi
    have hlinked := hunlinked.done i (Nat.lt_succ_of_le (hmax ▸ hi)) (hmax ▸ hi)
    rw [← onLevel_append] at hlinked
    change Linked _ s'.header _
    rw [hheader]
    refine hlinked.congr fun b hb ↦ ?_
    have hb : b ≠ c.addr := by
      rintro rfl
      rcases List.mem_cons.mp hb with heq | hb
      · exact h.apart c (by simp) heq
      · obtain ⟨d, hd, -, heq⟩ := mem_onLevel.mp hb
        exact h.addr_ne d hd heq
    simp [forward, hb]
  · change level ≤ s'.maxLevel
    rw [hmax]
    exact hle.trans h.top
  · have hcount : s'.elementCount = s.elementCount := by rw [hunlinked.same]
    simp only [hcount, h.count, List.length_append, List.length_cons]
    omega
  · intro a ha
    have hfresh : s'.fresh = s.fresh := by rw [hunlinked.same]
    change s'.fresh ≤ a at ha
    by_cases heq : a = c.addr
    · simp [heq]
    · simp only [Function.update_of_ne heq]
      rw [heap_eq_none_iff, hunlinked.content, ← heap_eq_none_iff]
      exact h.fresh a (hfresh ▸ ha)

include h hfront in
theorem Shape.deleteElement_exists :
    ∃ s', s.deleteElement c.key = some s' ∧ Shape s' (front ++ back) := by
  obtain ⟨found, hfind, hfound⟩ := h.descend_eq hfront h.le_of_mem_back
  have hstart : Unlinking s front c back 0 s := by
    refine ⟨rfl, rfl, fun i hi ↦ absurd hi (Nat.not_lt_zero i), fun i _ hi ↦ ?_⟩
    rw [← onLevel_append]
    exact h.linked i hi
  have hnot : ∀ i, c.addr ∉ onLevel i back := by
    intro i hmem
    obtain ⟨d, hd, -, heq⟩ := mem_onLevel.mp hmem
    exact h.addr_ne d (List.mem_append_right front hd) heq
  obtain ⟨s', hunlink, hunlinked⟩ := Unlinking.unlink (k := s.skipListLevel + 1)
    (fun i hi ↦ hfound.update i (Nat.zero_le i) hi) (h.level_le c (by simp)) h.top
    (fun i ↦ onLevel_append i front (c :: back) ▸ h.nodup i) hnot hstart (Nat.zero_add _)
  have hheader : s'.header = s.header := by rw [hunlinked.same]
  have hmax : s'.maxLevel = s.maxLevel := by rw [hunlinked.same]
  have hlist : s'.skipListLevel = s.skipListLevel := by rw [hunlinked.same]
  have hlinked : ∀ i ≤ s'.maxLevel,
      Linked (s'.forward · i) s'.header (onLevel i (front ++ back)) := by
    intro i hi
    rw [hmax] at hi
    rw [hheader, onLevel_append]
    exact hunlinked.done i (Nat.lt_succ_of_le hi) hi
  have hlow : ∀ d ∈ front ++ back, d.level ≤ s'.skipListLevel := by
    intro d hd
    rw [hlist]
    exact h.level_le d (((List.Sublist.refl front).append (List.sublist_cons_self c back)).subset hd)
  have htop : s'.skipListLevel ≤ s'.maxLevel := by
    rw [hlist, hmax]
    exact h.top
  obtain ⟨level, hdrop, hle, hlevel⟩ := dropLevels_eq hlinked htop hlow
  refine ⟨_, ?_, h.of_unlinking hunlinked (hlist ▸ hle) hlevel⟩
  simp [deleteElement, hfind, hfound.current, h.forward_cell, h.hasKey_cell, hunlink, hdrop]

end existing

theorem Shape.deleteElement_absent (h : Shape s (front ++ back))
    (hfront : ∀ c ∈ front, c.key < key) (hback : ∀ c ∈ back, key < c.key) :
    s.deleteElement key = some s := by
  obtain ⟨found, hfind, hfound⟩ := h.descend_eq hfront fun c hc ↦ (hback c hc).le
  have hread := h.forward_before (Nat.zero_le s.maxLevel)
  have hkey := h.hasKey_absent hback
  cases hhead : (onLevel 0 back).head? with
  | none => simp [deleteElement, hfind, hfound.current, hread, hhead]
  | some a =>
      rw [hhead] at hkey
      simp [deleteElement, hfind, hfound.current, hread, hhead, hkey]

theorem Shape.searchElement_eq (h : Shape s cs) (key : K) :
    s.searchElement key = some (toMap cs key) := by
  obtain ⟨front, back, rfl, hfront, hback⟩ := exists_split h.sorted key
  obtain ⟨current, hfind, rfl⟩ := foldlM_range_reverse (k := s.skipListLevel + 1)
    (f := fun current i ↦ s.advance key i (s.elementCount + 1) current)
    (P := fun j current ↦ current = s.before front j)
    (h.before_eq_header (Nat.lt_succ_self _)).symm fun j current hj hcurrent ↦
      ⟨_, hcurrent ▸ h.advance_before hfront hback ((Nat.le_of_lt_succ hj).trans h.top), rfl⟩
  have hread := h.forward_before (Nat.zero_le s.maxLevel)
  have hskip : toMap (front ++ back) key = toMap back key := by
    have hnone : front.find? (fun d ↦ d.key = key) = none := by
      simpa using fun d hd ↦ (hfront d hd).ne
    simp [toMap, List.find?_append, hnone]
  rw [hskip]
  cases back with
  | nil =>
      rw [onLevel_eq_nil (by simp)] at hread
      simp [searchElement, hfind, hread, toMap]
  | cons c back =>
      rw [onLevel_cons_of_le (Nat.zero_le _), List.head?_cons] at hread
      obtain ⟨node, hnode, hkey, hvalue, -⟩ := h.node (c := c) (by simp)
      by_cases heq : c.key = key
      · simp [searchElement, hfind, hread, hnode, hkey, hvalue, heq, toMap]
      · -- the keys behind this one are larger still
        have hlt : key < c.key := lt_of_le_of_ne (hback c List.mem_cons_self) (Ne.symm heq)
        have hnone : toMap (c :: back) key = none := toMap_eq_none fun d hd ↦
          (hlt.trans_le (h.le_of_mem_back d hd)).ne'
        simp [searchElement, hfind, hread, hnode, hkey, heq, hnone]

theorem Shape.dumpFrom_eq (h : Shape s cs) {back : List (Cell K V)} (hback : ∀ c ∈ back, c ∈ cs)
    {a rounds : ℕ} (hlinked : Linked (s.forward · 0) a (back.map Cell.addr))
    (hrounds : back.length < rounds) (dumper : SkipListDump K V) :
    s.dumpFrom rounds (back.map Cell.addr).head? dumper =
      some ⟨dumper.keyDumpVt ++ back.map Cell.key, dumper.valDumpVt ++ back.map Cell.value⟩ := by
  induction back generalizing a rounds dumper with
  | nil =>
      obtain ⟨rounds, rfl⟩ : ∃ k, rounds = k + 1 := ⟨rounds - 1, by simp at hrounds; omega⟩
      simp [dumpFrom]
  | cons c back ih =>
      obtain ⟨rounds, rfl⟩ : ∃ k, rounds = k + 1 := ⟨rounds - 1, by simp at hrounds; omega⟩
      obtain ⟨node, hnode, hkey, hvalue, -⟩ := h.node (hback c List.mem_cons_self)
      have hread : s.forward c.addr 0 = some (back.map Cell.addr).head? :=
        hlinked.2.head
      have hrest := ih (fun d hd ↦ hback d (List.mem_cons_of_mem c hd)) hlinked.2
        (by simpa using hrounds) ⟨dumper.keyDumpVt ++ [c.key], dumper.valDumpVt ++ [c.value]⟩
      simp only [List.map_cons, List.head?_cons, dumpFrom, hnode, hread, hkey, hvalue,
        Option.bind_eq_bind, Option.bind_some, hrest, List.append_assoc, List.singleton_append]

theorem Shape.dump_eq (h : Shape s cs) :
    s.dump = some ⟨cs.map Cell.key, cs.map Cell.value⟩ := by
  have hlinked := h.linked 0 (Nat.zero_le _)
  rw [onLevel_zero] at hlinked
  have hread : s.forward s.header 0 = some (cs.map Cell.addr).head? := hlinked.head
  have hdump := h.dumpFrom_eq (fun _ hc ↦ hc) hlinked (Nat.lt_succ_self _) ⟨[], []⟩
  rw [← h.count] at hdump
  rw [dump, hread]
  exact hdump

end operations

/-! ## Operations on maps -/

section maps

/-- The list stores exactly the pairs of `m`. -/
def Holds (s : SkipList K V) (m : K → Option V) : Prop :=
  ∃ cs, Shape s cs ∧ toMap cs = m

theorem holds_create [Inhabited K] [Inhabited V] (maxLevel : ℕ) :
    Holds (create maxLevel : SkipList K V) fun _ ↦ none :=
  ⟨[], shape_create maxLevel, rfl⟩

theorem Holds.searchElement (h : Holds s m) (key : K) : s.searchElement key = some (m key) := by
  obtain ⟨cs, hshape, rfl⟩ := h
  exact hshape.searchElement_eq key

/-- An existing key is not overwritten. -/
theorem Holds.insertElement (h : Holds s m) (key : K) (value : V) (heads : ℕ) :
    ∃ s', s.insertElement key value heads = some (if (m key).isSome then 1 else 0, s') ∧
      Holds s' (if (m key).isSome then m else Function.update m key (some value)) := by
  obtain ⟨cs, hshape, rfl⟩ := h
  rcases exists_cell_or hshape.sorted key with ⟨front, c, back, rfl, rfl, hfront⟩ |
    ⟨front, back, rfl, hfront, hback⟩
  · have hsome : toMap (front ++ c :: back) c.key = some c.value :=
      (toMap_eq_some_iff hshape.sorted).mpr ⟨c, by simp, rfl, rfl⟩
    simp only [hsome, Option.isSome_some, if_true]
    exact ⟨s, hshape.insertElement_exists hfront value heads, _, hshape, rfl⟩
  · have hnone : toMap (front ++ back) key = none := by
      refine toMap_eq_none fun c hc ↦ ?_
      rcases List.mem_append.mp hc with hc | hc
      · exact (hfront c hc).ne
      · exact (hback c hc).ne'
    obtain ⟨s', hinsert, hshape'⟩ := hshape.insertElement_new hfront hback value heads
    simp only [hnone, Option.isSome_none, Bool.false_eq_true, if_false]
    exact ⟨s', hinsert, _, hshape', funext (toMap_insert fun d hd ↦ (hfront d hd).ne)⟩

theorem Holds.deleteElement (h : Holds s m) (key : K) :
    ∃ s', s.deleteElement key = some s' ∧ Holds s' (Function.update m key none) := by
  obtain ⟨cs, hshape, rfl⟩ := h
  rcases exists_cell_or hshape.sorted key with ⟨front, c, back, rfl, rfl, hfront⟩ |
    ⟨front, back, rfl, hfront, hback⟩
  · obtain ⟨s', hdelete, hshape'⟩ := hshape.deleteElement_exists hfront
    refine ⟨s', hdelete, _, hshape', ?_⟩
    have hnone : toMap (front ++ back) c.key = none := by
      refine toMap_eq_none fun d hd ↦ ?_
      rcases List.mem_append.mp hd with hd | hd
      · exact (hfront d hd).ne
      · obtain ⟨-, hsorted, -⟩ := List.pairwise_append.mp hshape.sorted
        exact ((List.pairwise_cons.mp hsorted).1 d hd).ne'
    rw [funext (toMap_insert fun d hd ↦ (hfront d hd).ne), Function.update_idem, ← hnone,
      Function.update_eq_self]
  · refine ⟨s, hshape.deleteElement_absent hfront hback, _, hshape, ?_⟩
    have hnone : toMap (front ++ back) key = none := by
      refine toMap_eq_none fun c hc ↦ ?_
      rcases List.mem_append.mp hc with hc | hc
      · exact (hfront c hc).ne
      · exact (hback c hc).ne'
    rw [← hnone, Function.update_eq_self]

/-- An existing key is overwritten. -/
theorem Holds.insertSetElement (h : Holds s m) (key : K) (value : V) (heads : ℕ) :
    ∃ s', s.insertSetElement key value heads = some s' ∧
      Holds s' (Function.update m key (some value)) := by
  have hsearch := h.searchElement key
  cases hkey : m key with
  | none =>
      obtain ⟨s', hinsert, hholds⟩ := h.insertElement key value heads
      rw [hkey] at hinsert hholds
      refine ⟨s', ?_, hholds⟩
      simp [SkipList.insertSetElement, hsearch, hkey, hinsert]
  | some old =>
      obtain ⟨s₁, hdelete, hholds₁⟩ := h.deleteElement key
      obtain ⟨s', hinsert, hholds⟩ := hholds₁.insertElement key value heads
      simp only [Function.update_self, Option.isSome_none, Bool.false_eq_true, if_false,
        Function.update_idem] at hinsert hholds
      refine ⟨s', ?_, hholds⟩
      simp [SkipList.insertSetElement, hsearch, hkey, hdelete, hinsert]

/-- The dumped vectors list the pairs of the map in the order of the keys. -/
theorem Holds.dump (h : Holds s m) : ∃ keys values, s.dump = some ⟨keys, values⟩ ∧
    keys.length = values.length ∧ keys.Pairwise (· < ·) ∧
      ∀ key value, m key = some value ↔ (key, value) ∈ keys.zip values := by
  obtain ⟨cs, hshape, rfl⟩ := h
  refine ⟨cs.map Cell.key, cs.map Cell.value, hshape.dump_eq, by simp, ?_, fun key value ↦ ?_⟩
  · exact List.pairwise_map.mpr hshape.sorted
  · rw [toMap_eq_some_iff hshape.sorted, List.zip_map', List.mem_map]
    simp

theorem Holds.dumpFile [TextArchive (SkipListDump K V)] (h : Holds s m) :
    ∃ dumper : SkipListDump K V, s.dumpFile = some (TextArchive.save dumper) ∧
      ∀ key, key ∈ dumper.keyDumpVt ↔ (m key).isSome := by
  obtain ⟨cs, hshape, rfl⟩ := h
  refine ⟨_, by rw [SkipList.dumpFile, hshape.dump_eq]; rfl, fun key ↦ ?_⟩
  rw [Option.isSome_iff_exists, List.mem_map]
  simp only [toMap_eq_some_iff hshape.sorted]
  constructor
  · rintro ⟨c, hc, hkey⟩
    exact ⟨c.value, c, hc, hkey, rfl⟩
  · rintro ⟨-, c, hc, hkey, -⟩
    exact ⟨c, hc, hkey⟩

/-- A map with the missing keys of a list added as their own values. -/
def withKeys (m : K → Option K) (keys : List K) (key : K) : Option K :=
  (m key).or (if key ∈ keys then some key else none)

theorem withKeys_snoc (m : K → Option K) (keys : List K) (key : K) :
    withKeys m (keys ++ [key]) = if (withKeys m keys key).isSome then withKeys m keys
      else Function.update (withKeys m keys) key (some key) := by
  funext k
  by_cases hk : k = key
  · subst hk
    cases hm : m k <;> by_cases hmem : k ∈ keys <;> simp [withKeys, hm, hmem]
  · split_ifs <;> simp [withKeys, hk]

section load

variable {s : SkipList K K} {m : K → Option K} (dumper : SkipListDump K K) (heads : ℕ → ℕ)

theorem Holds.loadKey {j : ℕ} (hj : j < dumper.keyDumpVt.length)
    (h : Holds s (withKeys m (dumper.keyDumpVt.take j))) :
    ∃ s', SkipList.loadKey dumper heads s j = some s' ∧
      Holds s' (withKeys m (dumper.keyDumpVt.take (j + 1))) := by
  have hget := List.getElem?_eq_getElem hj
  obtain ⟨s', hinsert, hholds⟩ := h.insertElement dumper.keyDumpVt[j] dumper.keyDumpVt[j] (heads j)
  rw [← withKeys_snoc, List.take_append_getElem] at hholds
  exact ⟨s', by simp [SkipList.loadKey, hget, hinsert], hholds⟩

/-- Loading a dump adds its keys to the list, and no value of it. -/
theorem Holds.loadKeys (h : Holds s m) :
    ∃ s', (List.range' 0 dumper.keyDumpVt.length).foldlM (SkipList.loadKey dumper heads) s =
      some s' ∧ Holds s' (withKeys m dumper.keyDumpVt) := by
  have hinit : Holds s (withKeys m (dumper.keyDumpVt.take 0)) := by
    have hnil : withKeys m [] = m := by
      funext key
      simp [withKeys]
    rwa [List.take_zero, hnil]
  obtain ⟨s', hrun, hholds⟩ := foldlM_range'
    (P := fun j s ↦ Holds s (withKeys m (dumper.keyDumpVt.take j)))
    (k := dumper.keyDumpVt.length) hinit
    fun j _ _ hj ht ↦ ht.loadKey dumper heads (by omega)
  rw [Nat.zero_add, List.take_length] at hholds
  exact ⟨s', hrun, hholds⟩

variable [TextArchive (SkipListDump K K)]

theorem Holds.loadFile [LawfulTextArchive (SkipListDump K K)] (h : Holds s m) :
    ∃ s', s.loadFile (TextArchive.save dumper) heads = some s' ∧
      Holds s' (withKeys m dumper.keyDumpVt) := by
  obtain ⟨s', hrun, hholds⟩ := h.loadKeys dumper heads
  refine ⟨s', ?_, hholds⟩
  simpa [SkipList.loadFile] using hrun

/-- Whatever text is loaded, the list remains a map. -/
theorem Holds.of_loadFile {s' : SkipList K K} {dumpStr : String} (h : Holds s m)
    (hload : s.loadFile dumpStr heads = some s') : ∃ m', Holds s' m' := by
  by_cases hempty : dumpStr = ""
  · simp only [SkipList.loadFile, hempty, if_true, Option.pure_def, Option.some.injEq] at hload
    exact ⟨m, hload ▸ h⟩
  · simp only [SkipList.loadFile, hempty, if_false] at hload
    obtain ⟨dumper, -, hrun⟩ := Option.bind_eq_some_iff.mp hload
    obtain ⟨t, hrun', hholds⟩ := h.loadKeys dumper heads
    rw [hrun] at hrun'
    exact ⟨_, Option.some.inj hrun' ▸ hholds⟩

end load

end maps

end HttpRaftKv.SkipList
