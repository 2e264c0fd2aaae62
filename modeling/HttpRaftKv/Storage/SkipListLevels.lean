import HttpRaftKv.Storage.SkipList
import Mathlib.Data.Nat.Basic

/-!
# The levels of a skip list

A skip list stores cells in the order of their keys, and the pointers of level
`i` link the cells whose level is at least `i`.  A search on level `i` ends at
the last of these cells with a smaller key, and from there the search on the
next lower level goes on.  Linking a new node behind these cells, and taking a
node out behind them, keeps the shape.
-/

namespace HttpRaftKv.SkipList

variable {K V : Type} [LinearOrder K]

structure Cell (K V : Type) where
  addr : ℕ
  key : K
  value : V
  level : ℕ

/-- A node without its pointers. -/
def content (s : SkipList K V) (a : ℕ) : Option (K × V × ℕ) :=
  (s.heap a).map fun node ↦ (node.key, node.value, node.nodeLevel)

/-- The addresses of the cells that reach up to level `i`. -/
def onLevel (i : ℕ) (cs : List (Cell K V)) : List ℕ :=
  (cs.filter fun c ↦ i ≤ c.level).map Cell.addr

structure Shape (s : SkipList K V) (cs : List (Cell K V)) : Prop where
  cell : ∀ c ∈ cs, s.content c.addr = some (c.key, c.value, c.level)
  apart : ∀ c ∈ cs, c.addr ≠ s.header
  sorted : cs.Pairwise fun c d ↦ c.key < d.key
  linked : ∀ i ≤ s.maxLevel, Linked (s.forward · i) s.header (onLevel i cs)
  level_le : ∀ c ∈ cs, c.level ≤ s.skipListLevel
  top : s.skipListLevel ≤ s.maxLevel
  count : s.elementCount = cs.length
  fresh : ∀ a, s.fresh ≤ a → s.heap a = none

variable {s s' : SkipList K V} {cs front back : List (Cell K V)} {c : Cell K V} {key : K} {i : ℕ}

section lists

omit [LinearOrder K]

theorem onLevel_append (i : ℕ) (front back : List (Cell K V)) :
    onLevel i (front ++ back) = onLevel i front ++ onLevel i back := by
  simp [onLevel]

theorem onLevel_cons_of_le (h : i ≤ c.level) (cs : List (Cell K V)) :
    onLevel i (c :: cs) = c.addr :: onLevel i cs := by
  simp [onLevel, h]

theorem onLevel_cons_of_lt (h : c.level < i) (cs : List (Cell K V)) :
    onLevel i (c :: cs) = onLevel i cs := by
  simp [onLevel, h]

theorem onLevel_eq_nil (h : ∀ c ∈ cs, c.level < i) : onLevel i cs = [] := by
  simpa [onLevel] using h

theorem mem_onLevel {a : ℕ} : a ∈ onLevel i cs ↔ ∃ c ∈ cs, i ≤ c.level ∧ c.addr = a := by
  simp [onLevel, and_assoc]

theorem onLevel_zero (cs : List (Cell K V)) : onLevel 0 cs = cs.map Cell.addr := by
  rw [onLevel, List.filter_eq_self.mpr fun c _ ↦ decide_eq_true (Nat.zero_le c.level)]

theorem length_onLevel_le (i : ℕ) (cs : List (Cell K V)) : (onLevel i cs).length ≤ cs.length := by
  simpa [onLevel] using List.length_filter_le _ cs

theorem getLastD_append {α : Type} (l₁ l₂ : List α) (a : α) :
    (l₁ ++ l₂).getLastD a = l₂.getLastD (l₁.getLastD a) := by
  induction l₁ generalizing a with
  | nil => rfl
  | cons b l ih => rw [List.cons_append, List.getLastD_cons, List.getLastD_cons, ih]

end lists

/-- A sorted list splits at a key. -/
theorem exists_split (h : cs.Pairwise fun c d ↦ c.key < d.key) (key : K) :
    ∃ front back, cs = front ++ back ∧ (∀ c ∈ front, c.key < key) ∧ ∀ c ∈ back, key ≤ c.key := by
  induction cs with
  | nil => exact ⟨[], [], rfl, by simp, by simp⟩
  | cons c cs ih =>
      obtain ⟨hfirst, hsorted⟩ := List.pairwise_cons.mp h
      by_cases hlt : c.key < key
      · obtain ⟨front, back, rfl, hfront, hback⟩ := ih hsorted
        refine ⟨c :: front, back, rfl, ?_, hback⟩
        intro d hd
        rcases List.mem_cons.mp hd with rfl | hd
        · exact hlt
        · exact hfront d hd
      · have hle := not_lt.mp hlt
        refine ⟨[], c :: cs, rfl, by simp, ?_⟩
        intro d hd
        rcases List.mem_cons.mp hd with rfl | hd
        · exact hle
        · exact hle.trans (hfirst d hd).le

section search

theorem Shape.node (h : Shape s cs) (hc : c ∈ cs) : ∃ node, s.heap c.addr = some node ∧
    node.key = c.key ∧ node.value = c.value ∧ node.nodeLevel = c.level := by
  obtain ⟨node, hnode, heq⟩ := Option.map_eq_some_iff.mp (h.cell c hc)
  simp only [Prod.mk.injEq] at heq
  exact ⟨node, hnode, heq⟩

/-- Different cells have different addresses. -/
theorem Shape.nodup (h : Shape s cs) (i : ℕ) : (s.header :: onLevel i cs).Nodup := by
  have haddr : (cs.map Cell.addr).Nodup := by
    refine List.pairwise_map.mpr (h.sorted.imp_of_mem fun {c d} hc hd hlt heq ↦ ?_)
    have hcell := h.cell c hc
    rw [heq, h.cell d hd] at hcell
    simp only [Option.some.injEq, Prod.mk.injEq] at hcell
    exact hlt.ne hcell.1.symm
  refine List.nodup_cons.mpr ⟨?_, haddr.sublist (List.filter_sublist.map _)⟩
  rw [mem_onLevel]
  rintro ⟨c, hc, -, heq⟩
  exact h.apart c hc heq

/-- The inner loop stops at the last cell with a smaller key. -/
theorem advance_eq {a : ℕ} {l₁ l₂ : List ℕ} (hlinked : Linked (s.forward · i) a (l₁ ++ l₂))
    (hl₁ : ∀ b ∈ l₁, ∃ node, s.heap b = some node ∧ node.key < key)
    (hl₂ : ∀ b, l₂.head? = some b → ∃ node, s.heap b = some node ∧ key ≤ node.key) {rounds : ℕ}
    (hrounds : l₁.length < rounds) : s.advance key i rounds a = some (l₁.getLastD a) := by
  induction l₁ generalizing a rounds with
  | nil =>
      obtain ⟨rounds, rfl⟩ : ∃ k, rounds = k + 1 := ⟨rounds - 1, by simp at hrounds; omega⟩
      have hread : s.forward a i = some l₂.head? := hlinked.head
      cases hhead : l₂.head? with
      | none => simp [advance, hread, hhead]
      | some b =>
          obtain ⟨node, hnode, hle⟩ := hl₂ b hhead
          simp [advance, hread, hhead, hnode, not_lt.mpr hle]
  | cons b l ih =>
      obtain ⟨rounds, rfl⟩ : ∃ k, rounds = k + 1 := ⟨rounds - 1, by simp at hrounds; omega⟩
      obtain ⟨node, hnode, hlt⟩ := hl₁ b List.mem_cons_self
      have hread : s.forward a i = some (some b) := hlinked.1
      simp only [advance, hread, hnode, Option.bind_eq_bind, Option.bind_some, if_pos hlt,
        List.getLastD_cons]
      apply ih hlinked.2
      · exact fun c hc ↦ hl₁ c (List.mem_cons_of_mem b hc)
      · simpa using hrounds

/-- The last address on level `i` in front of the key. -/
def before (s : SkipList K V) (front : List (Cell K V)) (i : ℕ) : ℕ :=
  (onLevel i front).getLastD s.header

variable (h : Shape s (front ++ back)) (hfront : ∀ c ∈ front, c.key < key)
  (hback : ∀ c ∈ back, key ≤ c.key)

include h in
theorem Shape.forward_before (hi : i ≤ s.maxLevel) :
    s.forward (s.before front i) i = some (onLevel i back).head? := by
  have hlinked := h.linked i hi
  rw [onLevel_append] at hlinked
  exact hlinked.read

include h hfront hback in
theorem Shape.advance_before (hi : i ≤ s.maxLevel) :
    s.advance key i (s.elementCount + 1) (s.before front (i + 1)) = some (s.before front i) := by
  obtain ⟨l₁, l₂, hsplit, hlast⟩ := exists_filter_split (p := fun c ↦ decide (i ≤ c.level))
    (q := fun c ↦ decide (i + 1 ≤ c.level)) Cell.addr s.header front
    (by simp only [decide_eq_true_eq]; omega)
  have hlevel : onLevel i front = l₁.map Cell.addr ++ l₂.map Cell.addr := by
    rw [onLevel, hsplit, List.map_append]
  have hbefore : s.before front (i + 1) = (l₁.map Cell.addr).getLastD s.header := hlast.symm
  have hlinked := h.linked i hi
  rw [onLevel_append, hlevel, List.append_assoc] at hlinked
  have hmem : ∀ c ∈ l₂, c ∈ front := by
    intro c hc
    have hc : c ∈ front.filter fun c ↦ decide (i ≤ c.level) := hsplit ▸ List.mem_append_right l₁ hc
    exact (List.mem_filter.mp hc).1
  have hlength : (l₂.map Cell.addr).length < s.elementCount + 1 := by
    have hle := length_onLevel_le i front
    rw [hlevel, List.length_append] at hle
    rw [h.count, List.length_append]
    omega
  rw [hbefore, advance_eq hlinked.drop ?_ ?_ hlength, before, hlevel, getLastD_append]
  · intro b hb
    obtain ⟨c, hc, rfl⟩ := List.mem_map.mp hb
    obtain ⟨node, hnode, hkey, -⟩ := h.node (List.mem_append_left back (hmem c hc))
    exact ⟨node, hnode, hkey ▸ hfront c (hmem c hc)⟩
  · intro b hb
    obtain ⟨c, hc, -, rfl⟩ := mem_onLevel.mp (List.mem_of_mem_head? hb)
    obtain ⟨node, hnode, hkey, -⟩ := h.node (List.mem_append_right front hc)
    exact ⟨node, hnode, hkey ▸ hback c hc⟩

include h in
/-- Above the level of the list a search starts at the header. -/
theorem Shape.before_eq_header (hi : s.skipListLevel < i) : s.before front i = s.header := by
  have hnil : onLevel i front = [] := onLevel_eq_nil fun c hc ↦
    Nat.lt_of_le_of_lt (h.level_le c (List.mem_append_left back hc)) hi
  rw [before, hnil, List.getLastD_nil]

/-- What the search has found on the levels from `j` on. -/
structure Found (s : SkipList K V) (front : List (Cell K V)) (j : ℕ)
    (found : ℕ × List (Option ℕ)) : Prop where
  current : found.1 = s.before front j
  length : found.2.length = s.maxLevel + 1
  update : ∀ i, j ≤ i → i ≤ s.skipListLevel → found.2[i]? = some (some (s.before front i))

include h hfront hback in
theorem Shape.descendLevel_eq {j : ℕ} {found : ℕ × List (Option ℕ)} (hj : j ≤ s.skipListLevel)
    (hfound : Found s front (j + 1) found) :
    ∃ found', s.descendLevel key found j = some found' ∧ Found s front j found' := by
  have htop := h.top
  have hadvance := h.advance_before hfront hback (hj.trans htop)
  have hlt : j < found.2.length := by
    rw [hfound.length]
    omega
  refine ⟨(s.before front j, found.2.set j (some (s.before front j))), ?_, rfl, ?_, ?_⟩
  · simp [descendLevel, hfound.current, hadvance, store_eq hlt]
  · simpa using hfound.length
  · intro i hji hi
    rcases Nat.eq_or_lt_of_le hji with rfl | hlt'
    · rw [List.getElem?_set_self hlt]
    · rw [List.getElem?_set_ne (by omega)]
      exact hfound.update i hlt' hi

include h hfront hback in
theorem Shape.descend_eq : ∃ found, s.descend key = some found ∧ Found s front 0 found := by
  refine foldlM_range_reverse (f := s.descendLevel key) ⟨?_, ?_, ?_⟩ ?_
  · exact (h.before_eq_header (Nat.lt_succ_self _)).symm
  · exact List.length_replicate
  · intro i hlt hle
    omega
  · exact fun j found hj ↦ h.descendLevel_eq hfront hback (Nat.le_of_lt_succ hj)

end search

section writes

omit [LinearOrder K]

/-- The pointer `forward[i]` of the node `a` has been written, and nothing else. -/
structure Written (a i : ℕ) (next : Option ℕ) (s s' : SkipList K V) : Prop where
  same : s' = { s with heap := s'.heap }
  content : s'.content = s.content
  forward : ∀ b j, s'.forward b j = if b = a ∧ j = i then some next else s.forward b j

theorem setForward_eq {a : ℕ} {old : Option ℕ} (h : s.forward a i = some old) (next : Option ℕ) :
    ∃ s', s.setForward a i next = some s' ∧ Written a i next s s' := by
  obtain ⟨node, hnode, hget⟩ := Option.bind_eq_some_iff.mp h
  have hlt := (List.getElem?_eq_some_iff.mp hget).1
  set node' : SkipNode K V := { node with forward := node.forward.set i next } with hnode'
  refine ⟨{ s with heap := Function.update s.heap a (some node') }, ?_, rfl, ?_, ?_⟩
  · simp [setForward, hnode, store_eq hlt, hnode']
  · funext b
    by_cases hb : b = a
    · subst hb
      simp [SkipList.content, hnode, hnode']
    · simp [SkipList.content, Function.update_of_ne hb]
  · intro b j
    by_cases hb : b = a
    · subst hb
      by_cases hj : j = i
      · subst hj
        simp [SkipList.forward, hnode', List.getElem?_set_self hlt]
      · simp [SkipList.forward, hnode, hnode', hj, List.getElem?_set_ne (Ne.symm hj)]
    · simp [SkipList.forward, hb]

theorem heap_eq_none_iff {a : ℕ} : s.heap a = none ↔ s.content a = none := by
  simp [content]

variable {x level : ℕ} {update : List (Option ℕ)}

/-- The node `x` has been linked on the levels below `j`. -/
structure Linking (s₀ : SkipList K V) (front back : List (Cell K V)) (x level j : ℕ)
    (s : SkipList K V) : Prop where
  same : s = { s₀ with heap := s.heap }
  content : s.content = s₀.content
  done : ∀ i < j, Linked (s.forward · i) s₀.header (onLevel i front ++ x :: onLevel i back)
  left : ∀ i, j ≤ i → i ≤ s₀.maxLevel →
    Linked (s.forward · i) s₀.header (onLevel i front ++ onLevel i back)
  node : ∀ i, j ≤ i → i ≤ level → ∃ old, s.forward x i = some old

theorem Linking.link {s₀ : SkipList K V} {j : ℕ} (h : Linking s₀ front back x level j s)
    (hj : j ≤ level) (hlevel : level ≤ s₀.maxLevel)
    (hupdate : update[j]? = some (some (s₀.before front j)))
    (hnodup : (s₀.header :: (onLevel j front ++ onLevel j back)).Nodup)
    (hx : x ∉ s₀.header :: (onLevel j front ++ onLevel j back)) :
    ∃ s', SkipList.link x update s j = some s' ∧ Linking s₀ front back x level (j + 1) s' := by
  have hlinked := h.left j le_rfl (hj.trans hlevel)
  have hread : s.forward (s₀.before front j) j = some (onLevel j back).head? := hlinked.read
  obtain ⟨old, hold⟩ := h.node j le_rfl hj
  obtain ⟨s₁, hs₁, hw₁⟩ := setForward_eq hold (onLevel j back).head?
  have hne : s₀.before front j ≠ x := by
    rintro rfl
    exact hx (List.mem_cons.mpr ((List.mem_cons.mp getLastD_mem_cons).imp_right
      (List.mem_append_left _)))
  have hread₁ : s₁.forward (s₀.before front j) j = some (onLevel j back).head? := by
    rw [hw₁.forward, if_neg (fun hand ↦ hne hand.1), hread]
  obtain ⟨s₂, hs₂, hw₂⟩ := setForward_eq hread₁ (some x)
  -- the other levels are as before
  have hother : ∀ i, i ≠ j → ∀ b, s₂.forward b i = s.forward b i := by
    intro i hi b
    rw [hw₂.forward, if_neg (fun hand ↦ hi hand.2), hw₁.forward, if_neg (fun hand ↦ hi hand.2)]
  refine ⟨s₂, ?_, ?_, ?_, ?_, ?_, ?_⟩
  · simp [SkipList.link, target, hupdate, hread, hs₁, hs₂]
  · rw [hw₂.same, hw₁.same, h.same]
  · rw [hw₂.content, hw₁.content, h.content]
  · intro i hi
    rcases Nat.eq_or_lt_of_le (Nat.le_of_lt_succ hi) with rfl | hlt
    · apply hlinked.insert hnodup hx
      · rw [hw₂.forward, if_neg (fun hand ↦ hne hand.1.symm), hw₁.forward, if_pos ⟨rfl, rfl⟩]
      · exact (hw₂.forward _ _).trans (if_pos ⟨rfl, rfl⟩)
      · intro b hbx hb
        rw [hw₂.forward, if_neg (fun hand ↦ hb hand.1), hw₁.forward,
          if_neg (fun hand ↦ hbx hand.1)]
    · exact (h.done i hlt).congr fun b _ ↦ hother i hlt.ne b
  · intro i hi hmax
    exact (h.left i (Nat.le_of_succ_le hi) hmax).congr fun b _ ↦ hother i (by omega) b
  · intro i hi hle
    rw [hother i (by omega)]
    exact h.node i (Nat.le_of_succ_le hi) hle

/-- The node of the cell `c` has been taken out of the levels below `j`. -/
structure Unlinking (s₀ : SkipList K V) (front : List (Cell K V)) (c : Cell K V)
    (back : List (Cell K V)) (j : ℕ) (s : SkipList K V) : Prop where
  same : s = { s₀ with heap := s.heap }
  content : s.content = s₀.content
  done : ∀ i < j, i ≤ s₀.maxLevel →
    Linked (s.forward · i) s₀.header (onLevel i front ++ onLevel i back)
  left : ∀ i, j ≤ i → i ≤ s₀.maxLevel →
    Linked (s.forward · i) s₀.header (onLevel i front ++ onLevel i (c :: back))

/-- On the levels above its own a node need not be taken out. -/
theorem Unlinking.all {s₀ : SkipList K V} {j : ℕ} (h : Unlinking s₀ front c back j s)
    (hj : c.level < j) : Unlinking s₀ front c back (s₀.maxLevel + 1) s := by
  refine ⟨h.same, h.content, fun i _ hmax ↦ ?_, fun i hi hmax ↦ by omega⟩
  by_cases hi : i < j
  · exact h.done i hi hmax
  · have hlinked := h.left i (Nat.le_of_not_lt hi) hmax
    rwa [onLevel_cons_of_lt (by omega)] at hlinked

theorem Unlinking.unlink {s₀ : SkipList K V}
    (hupdate : ∀ i ≤ s₀.skipListLevel, update[i]? = some (some (s₀.before front i)))
    (hlevel : c.level ≤ s₀.skipListLevel) (htop : s₀.skipListLevel ≤ s₀.maxLevel)
    (hnodup : ∀ i, (s₀.header :: (onLevel i front ++ onLevel i (c :: back))).Nodup)
    (hc : ∀ i, c.addr ∉ onLevel i back) :
    ∀ {k j : ℕ} {s : SkipList K V}, Unlinking s₀ front c back j s →
      j + k = s₀.skipListLevel + 1 →
      ∃ s', SkipList.unlink c.addr update k j s = some s' ∧
        Unlinking s₀ front c back (s₀.maxLevel + 1) s' := by
  intro k
  induction k with
  | zero => exact fun h hj ↦ ⟨_, rfl, h.all (by omega)⟩
  | succ k ih =>
      intro j s h hj
      have htarget : target update j = some (s₀.before front j) := by
        simp [target, hupdate j (by omega)]
      have hlinked := h.left j le_rfl (by omega)
      have hread : s.forward (s₀.before front j) j = some (onLevel j (c :: back)).head? :=
        hlinked.read
      by_cases hcj : j ≤ c.level
      · rw [onLevel_cons_of_le hcj, List.head?_cons] at hread
        rw [onLevel_cons_of_le hcj] at hlinked
        have hbehind : s.forward c.addr j = some (onLevel j back).head? := by
          have hsplit : onLevel j front ++ c.addr :: onLevel j back =
              (onLevel j front ++ [c.addr]) ++ onLevel j back := by simp
          rw [hsplit] at hlinked
          simpa using hlinked.read
        obtain ⟨s₁, hs₁, hw₁⟩ := setForward_eq hread (onLevel j back).head?
        have hother : ∀ i, i ≠ j → ∀ b, s₁.forward b i = s.forward b i := by
          intro i hi b
          rw [hw₁.forward, if_neg (fun hand ↦ hi hand.2)]
        have hnext : Unlinking s₀ front c back (j + 1) s₁ := by
          refine ⟨?_, ?_, fun i hi hmax ↦ ?_, fun i hi hmax ↦ ?_⟩
          · rw [hw₁.same, h.same]
          · rw [hw₁.content, h.content]
          · rcases Nat.eq_or_lt_of_le (Nat.le_of_lt_succ hi) with rfl | hlt
            · have hdup := hnodup i
              rw [onLevel_cons_of_le hcj] at hdup
              apply hlinked.remove hdup
              · exact (hw₁.forward _ _).trans ((if_pos ⟨rfl, rfl⟩).trans hbehind.symm)
              · exact fun b hb ↦ (hw₁.forward _ _).trans (if_neg fun hand ↦ hb hand.1)
            · exact (h.done i hlt hmax).congr fun b _ ↦ hother i hlt.ne b
          · exact (h.left i (Nat.le_of_succ_le hi) hmax).congr fun b _ ↦ hother i (by omega) b
        obtain ⟨s', hs', hall⟩ := ih hnext (by omega)
        refine ⟨s', ?_, hall⟩
        simp [SkipList.unlink, htarget, hread, hbehind, hs₁, hs']
      · rw [onLevel_cons_of_lt (by omega)] at hread
        refine ⟨s, ?_, h.all (by omega)⟩
        have hne : (onLevel j back).head? ≠ some c.addr := fun hhead ↦
          hc j (List.mem_of_mem_head? hhead)
        simp [SkipList.unlink, htarget, hread, hne]

theorem dropLevels_eq (hlinked : ∀ i ≤ s.maxLevel, Linked (s.forward · i) s.header (onLevel i cs)) :
    ∀ {level : ℕ}, level ≤ s.maxLevel → (∀ c ∈ cs, c.level ≤ level) →
      ∃ level', s.dropLevels level = some level' ∧ level' ≤ level ∧ ∀ c ∈ cs, c.level ≤ level' := by
  intro level
  induction level with
  | zero => exact fun _ hcs ↦ ⟨0, rfl, le_rfl, hcs⟩
  | succ level ih =>
      intro hle hcs
      have hread : s.forward s.header (level + 1) = some (onLevel (level + 1) cs).head? :=
        (hlinked (level + 1) hle).head
      cases hhead : (onLevel (level + 1) cs).head? with
      | none =>
          rw [List.head?_eq_none_iff] at hhead
          have hlow : ∀ c ∈ cs, c.level ≤ level := by
            intro c hc
            by_contra hnot
            have hmem : c.addr ∈ onLevel (level + 1) cs := mem_onLevel.mpr ⟨c, hc, by omega, rfl⟩
            rw [hhead] at hmem
            cases hmem
          obtain ⟨level', hdrop, hle', hcs'⟩ := ih (Nat.le_of_succ_le hle) hlow
          refine ⟨level', ?_, Nat.le_succ_of_le hle', hcs'⟩
          simp [dropLevels, hread, hhead, hdrop]
      | some a =>
          refine ⟨level + 1, ?_, le_rfl, hcs⟩
          simp [dropLevels, hread, hhead]

end writes

end HttpRaftKv.SkipList
