import HttpRaftKv.Raft.Node
import Mathlib.Tactic.SplitIfs

/-!
# Reading and splicing the log of one node

A node stores the log behind its snapshot.  As long as the stored entries carry
consecutive indices, the accessors of the source, with all their assertions,
read off the two functions `entryAt` and `termAt`, and the entry loop of
`AppendEntries1` is a splice: the sent entries replace whatever stood at their
positions and everything else stays, also what stood behind them.
-/

namespace HttpRaftKv.Raft.Node

open Checked

variable {n : ℕ} {rf : Node n}

/-- The stored entries carry consecutive indices, from the snapshot on. -/
def Indexed (rf : Node n) : Prop :=
  ∀ k log, rf.logs[k]? = some log → log.logindex = rf.lastSnapshotIncludeIndex + 1 + k

/-- The stored entry with a log index. -/
def entryAt (rf : Node n) (index : ℕ) : Option LogEntry :=
  if rf.lastSnapshotIncludeIndex < index then
    rf.logs[index - rf.lastSnapshotIncludeIndex - 1]?
  else
    none

/-- The term of a log index, where the boundary of the snapshot counts. -/
def termAt (rf : Node n) (index : ℕ) : Option ℕ :=
  if index = rf.lastSnapshotIncludeIndex then
    some rf.lastSnapshotIncludeTerm
  else
    (rf.entryAt index).map LogEntry.logterm

theorem Indexed.getLastLogIndex_eq (h : rf.Indexed) :
    rf.getLastLogIndex = rf.lastSnapshotIncludeIndex + rf.logs.length := by
  unfold getLastLogIndex getLastLogIndexAndTerm
  rcases List.eq_nil_or_concat' rf.logs with hnil | ⟨init, log, hlogs⟩
  · simp [hnil]
  · have hlast : rf.logs[init.length]? = some log := by simp [hlogs]
    have hindex := h init.length log hlast
    have hlen : rf.logs.length = init.length + 1 := by simp [hlogs]
    rw [hlen, hlogs, List.getLast?_concat]
    exact hindex.trans (by omega)

theorem entryAt_eq_some {index : ℕ} {log : LogEntry} :
    rf.entryAt index = some log ↔
      rf.lastSnapshotIncludeIndex < index ∧
        rf.logs[index - rf.lastSnapshotIncludeIndex - 1]? = some log := by
  unfold entryAt
  split_ifs with hlt <;> simp [hlt]

theorem mem_logs_of_entryAt {index : ℕ} {log : LogEntry}
    (h : rf.entryAt index = some log) : log ∈ rf.logs :=
  List.mem_of_getElem? (entryAt_eq_some.mp h).2

theorem Indexed.entryAt_logindex (h : rf.Indexed) {log : LogEntry} (hlog : log ∈ rf.logs) :
    rf.entryAt log.logindex = some log := by
  obtain ⟨k, hk⟩ := List.mem_iff_getElem?.mp hlog
  have hindex := h k log hk
  rw [entryAt_eq_some]
  refine ⟨by omega, ?_⟩
  rw [← hk]
  congr 1
  omega

theorem Indexed.logindex_of_entryAt (h : rf.Indexed) {index : ℕ} {log : LogEntry}
    (hlog : rf.entryAt index = some log) : log.logindex = index := by
  obtain ⟨hlt, hget⟩ := entryAt_eq_some.mp hlog
  have := h _ _ hget
  omega

theorem Indexed.entryAt_isSome (h : rf.Indexed) {index : ℕ} :
    (∃ log, rf.entryAt index = some log) ↔
      rf.lastSnapshotIncludeIndex < index ∧ index ≤ rf.getLastLogIndex := by
  rw [h.getLastLogIndex_eq]
  constructor
  · rintro ⟨log, hlog⟩
    obtain ⟨hlt, hget⟩ := entryAt_eq_some.mp hlog
    have := (List.getElem?_eq_some_iff.mp hget).1
    omega
  · rintro ⟨hlt, hle⟩
    have hpos : index - rf.lastSnapshotIncludeIndex - 1 < rf.logs.length := by omega
    exact ⟨_, entryAt_eq_some.mpr ⟨hlt, List.getElem?_eq_getElem hpos⟩⟩

theorem getSlicesIndexFromLogIndex_eq_ok {index slot : ℕ} :
    rf.getSlicesIndexFromLogIndex index = .ok slot ↔
      rf.lastSnapshotIncludeIndex < index ∧ index ≤ rf.getLastLogIndex ∧
        index - rf.lastSnapshotIncludeIndex - 1 = slot := by
  simp only [getSlicesIndexFromLogIndex, bind_eq_ok, require_eq_ok, pure_eq_ok]
  constructor
  · rintro ⟨-, hlt, -, hle, heq⟩
    exact ⟨hlt, hle, heq⟩
  · rintro ⟨hlt, hle, heq⟩
    exact ⟨(), hlt, (), hle, heq⟩

theorem logAt_eq_ok {slot : ℕ} {log : LogEntry} :
    rf.logAt slot = .ok log ↔ rf.logs[slot]? = some log := by
  unfold logAt
  split <;> simp_all

theorem Indexed.logFromLogIndex_eq_ok (h : rf.Indexed) {index : ℕ} {log : LogEntry} :
    rf.logFromLogIndex index = .ok log ↔ rf.entryAt index = some log := by
  simp only [logFromLogIndex, bind_eq_ok, getSlicesIndexFromLogIndex_eq_ok, logAt_eq_ok]
  constructor
  · rintro ⟨slot, ⟨hlt, -, rfl⟩, hget⟩
    exact entryAt_eq_some.mpr ⟨hlt, hget⟩
  · intro hlog
    obtain ⟨hlt, hget⟩ := entryAt_eq_some.mp hlog
    have hle := (h.entryAt_isSome.mp ⟨log, hlog⟩).2
    exact ⟨_, ⟨hlt, hle, rfl⟩, hget⟩

theorem Indexed.getLogTermFromLogIndex_eq_ok (h : rf.Indexed) {index term : ℕ} :
    rf.getLogTermFromLogIndex index = .ok term ↔ rf.termAt index = some term := by
  have hlast := h.getLastLogIndex_eq
  simp only [getLogTermFromLogIndex, bind_eq_ok, require_eq_ok, termAt]
  split_ifs with heq
  · simp only [pure_eq_ok, Option.some.injEq]
    constructor
    · rintro ⟨-, -, -, -, hterm⟩
      exact hterm
    · intro hterm
      exact ⟨(), by omega, (), by omega, hterm⟩
  · simp only [bind_eq_ok, h.logFromLogIndex_eq_ok, pure_eq_ok, Option.map_eq_some_iff]
    constructor
    · rintro ⟨-, -, -, -, log, hlog, hterm⟩
      exact ⟨log, hlog, hterm⟩
    · rintro ⟨log, hlog, hterm⟩
      obtain ⟨hlt, hle⟩ := h.entryAt_isSome.mp ⟨log, hlog⟩
      exact ⟨(), by omega, (), hle, log, hlog, hterm⟩

theorem Indexed.termAt_isSome (h : rf.Indexed) {index : ℕ} :
    (∃ term, rf.termAt index = some term) ↔
      rf.lastSnapshotIncludeIndex ≤ index ∧ index ≤ rf.getLastLogIndex := by
  have hlast := h.getLastLogIndex_eq
  unfold termAt
  split_ifs with heq
  · simp only [Option.some.injEq, exists_eq', true_iff]
    omega
  · simp only [Option.map_eq_some_iff]
    constructor
    · rintro ⟨term, log, hlog, -⟩
      obtain ⟨hlt, hle⟩ := h.entryAt_isSome.mp ⟨log, hlog⟩
      omega
    · rintro ⟨hge, hle⟩
      obtain ⟨log, hlog⟩ := h.entryAt_isSome.mpr ⟨by omega, hle⟩
      exact ⟨log.logterm, log, hlog, rfl⟩

theorem Indexed.matchLog_eq_ok (h : rf.Indexed) {index term : ℕ} {b : Bool} :
    rf.matchLog index term = .ok b ↔
      ∃ found, rf.termAt index = some found ∧ decide (term = found) = b := by
  simp only [matchLog, bind_eq_ok, require_eq_ok, h.getLogTermFromLogIndex_eq_ok, pure_eq_ok]
  constructor
  · rintro ⟨-, -, found, hfound, hb⟩
    exact ⟨found, hfound, hb⟩
  · rintro ⟨found, hfound, hb⟩
    exact ⟨(), h.termAt_isSome.mp ⟨found, hfound⟩, found, hfound, hb⟩

/-! ## The entry loop -/

/-- The entries of a request carry consecutive indices. -/
def Consecutive (prev : ℕ) (entries : List LogEntry) : Prop :=
  ∀ k log, entries[k]? = some log → log.logindex = prev + 1 + k

theorem Consecutive.head {prev : ℕ} {log : LogEntry} {entries : List LogEntry}
    (h : Consecutive prev (log :: entries)) : log.logindex = prev + 1 := by
  simpa using h 0 log rfl

theorem Consecutive.tail {prev : ℕ} {log : LogEntry} {entries : List LogEntry}
    (h : Consecutive prev (log :: entries)) : Consecutive (prev + 1) entries := by
  intro k other hk
  have := h (k + 1) other (by simpa using hk)
  omega

/-- The log with `entries` written over the positions from `at_` on. -/
def splice (logs : List LogEntry) (at_ : ℕ) (entries : List LogEntry) : List LogEntry :=
  logs.take at_ ++ entries ++ logs.drop (at_ + entries.length)

@[simp] theorem splice_nil (logs : List LogEntry) (at_ : ℕ) : splice logs at_ [] = logs := by
  simp [splice]

theorem splice_cons (logs : List LogEntry) (at_ : ℕ) (log : LogEntry) (entries : List LogEntry)
    (hat : at_ ≤ logs.length) :
    splice logs at_ (log :: entries) = splice (splice logs at_ [log]) (at_ + 1) entries := by
  have hlen : (logs.take at_ ++ [log]).length = at_ + 1 := by simp [hat]
  have htake : (splice logs at_ [log]).take (at_ + 1) = logs.take at_ ++ [log] := by
    unfold splice
    rw [List.take_append_of_le_length (by omega), ← hlen, List.take_length]
  have hdrop : (splice logs at_ [log]).drop (at_ + 1 + entries.length) =
      logs.drop (at_ + 1 + entries.length) := by
    unfold splice
    rw [List.drop_append, hlen, List.drop_eq_nil_of_le (by omega), List.drop_drop]
    simp only [List.nil_append, List.length_singleton]
    congr 1
    omega
  rw [splice, splice, htake, hdrop]
  simp [Nat.add_assoc, Nat.add_comm 1]

theorem length_splice (logs : List LogEntry) (at_ : ℕ) (entries : List LogEntry)
    (hat : at_ ≤ logs.length) :
    (splice logs at_ entries).length = max logs.length (at_ + entries.length) := by
  simp only [splice, List.length_append, List.length_take, List.length_drop]
  omega

theorem splice_getElem? (logs : List LogEntry) (at_ : ℕ) (entries : List LogEntry)
    (hat : at_ ≤ logs.length) (k : ℕ) :
    (splice logs at_ entries)[k]? =
      if at_ ≤ k ∧ k < at_ + entries.length then entries[k - at_]? else logs[k]? := by
  unfold splice
  rw [List.append_assoc, List.getElem?_append, List.length_take, Nat.min_eq_left hat]
  split_ifs with h1 h2 h2
  · omega
  · exact List.getElem?_take_of_lt h1
  · rw [List.getElem?_append_left (by omega)]
  · rw [List.getElem?_append_right (by omega), List.getElem?_drop]
    congr 1
    omega

/-- One turn of the loop at the position right behind what is known to match:
it succeeds exactly if the slot does not hold another command under the same
term, and then the slot holds the sent entry. -/
theorem Indexed.appendEntry_eq_ok (h : rf.Indexed) {log : LogEntry} {at_ : ℕ} {rf' : Node n}
    (hat : at_ ≤ rf.logs.length)
    (hlog : log.logindex = rf.lastSnapshotIncludeIndex + at_ + 1) :
    rf.appendEntry log = .ok rf' ↔
      (∀ old, rf.logs[at_]? = some old → old.logterm = log.logterm →
        old.command = log.command) ∧
      rf' = { rf with logs := splice rf.logs at_ [log] } := by
  have hlast := h.getLastLogIndex_eq
  unfold appendEntry
  split_ifs with hlt
  · have heq : at_ = rf.logs.length := by omega
    subst heq
    have hsplice : splice rf.logs rf.logs.length [log] = rf.logs ++ [log] := by
      simp [splice, List.drop_eq_nil_of_le]
    simp [hsplice, eq_comm]
  · have hpos : at_ < rf.logs.length := by omega
    obtain ⟨old, hold⟩ : ∃ old, rf.logs[at_]? = some old := ⟨_, List.getElem?_eq_getElem hpos⟩
    have hslot : rf.getSlicesIndexFromLogIndex log.logindex = .ok at_ := by
      rw [getSlicesIndexFromLogIndex_eq_ok]
      omega
    have hset : splice rf.logs at_ [log] = rf.logs.set at_ log := by
      rw [List.set_eq_take_append_cons_drop, if_pos hpos]
      simp [splice]
    simp only [bind_eq_ok, hslot, Except.ok.injEq, exists_eq_left', logAt_eq_ok, hold,
      Option.some.injEq, require_eq_ok, exists_const, forall_eq', hset]
    by_cases hterm : old.logterm = log.logterm
    · have hkeep : old.command = log.command → rf.logs.set at_ log = rf.logs := by
        intro hcmd
        have hsame : old = log := by
          have hindex := h at_ old hold
          cases old
          cases log
          simp_all
          omega
        have hget : rf.logs[at_] = log := by
          rw [← hsame]
          exact (List.getElem?_eq_some_iff.mp hold).2
        rw [← hget, List.set_getElem_self]
      simp only [hterm, true_and, ne_eq, Decidable.not_not, not_true_eq_false, if_false,
        pure_eq_ok, forall_const]
      constructor
      · rintro ⟨hcmd, rfl⟩
        exact ⟨hcmd, by rw [hkeep hcmd]⟩
      · rintro ⟨hcmd, rfl⟩
        exact ⟨hcmd, by rw [hkeep hcmd]⟩
    · simp only [hterm, false_and, not_false_eq_true, true_and, ne_eq, if_true, pure_eq_ok,
        IsEmpty.forall_iff]
      exact eq_comm

theorem Indexed.splice (h : rf.Indexed) {entries : List LogEntry} {at_ : ℕ}
    (hat : at_ ≤ rf.logs.length)
    (hcons : Consecutive (rf.lastSnapshotIncludeIndex + at_) entries) :
    Indexed { rf with logs := splice rf.logs at_ entries } := by
  intro k log hk
  rw [splice_getElem? _ _ _ hat] at hk
  split_ifs at hk with hin
  · have := hcons _ _ hk
    simp only
    omega
  · exact h k log hk

/-- The whole loop: it succeeds exactly if no slot holds another command under
the same term, and then it has spliced the sent entries in. -/
theorem Indexed.foldlM_appendEntry (h : rf.Indexed) {entries : List LogEntry} {at_ : ℕ}
    (hat : at_ ≤ rf.logs.length)
    (hcons : Consecutive (rf.lastSnapshotIncludeIndex + at_) entries) {rf' : Node n} :
    entries.foldlM appendEntry rf = .ok rf' ↔
      (∀ k old log, rf.logs[at_ + k]? = some old → entries[k]? = some log →
        old.logterm = log.logterm → old.command = log.command) ∧
      rf' = { rf with logs := Node.splice rf.logs at_ entries } := by
  induction entries generalizing rf at_ with
  | nil => simp [pure, Except.pure, eq_comm]
  | cons log entries ih =>
      have hone : Consecutive (rf.lastSnapshotIncludeIndex + at_) [log] := by
        intro k other hk
        have hk0 : k = 0 := by
          have := (List.getElem?_eq_some_iff.mp hk).1
          simpa using this
        subst hk0
        have hother : log = other := by simpa using hk
        subst hother
        exact hcons.head
      let rf₁ : Node n := { rf with logs := Node.splice rf.logs at_ [log] }
      have h₁ : rf₁.Indexed := h.splice hat hone
      have hlen₁ : at_ + 1 ≤ rf₁.logs.length := by
        have := length_splice rf.logs at_ [log] hat
        simp only [rf₁, this, List.length_singleton]
        omega
      have hih : entries.foldlM appendEntry rf₁ = .ok rf' ↔ _ := ih h₁ hlen₁ hcons.tail
      have htail : ∀ k, rf₁.logs[at_ + 1 + k]? = rf.logs[at_ + (k + 1)]? := by
        intro k
        rw [splice_getElem? _ _ _ hat, if_neg (by simp only [List.length_singleton]; omega)]
        congr 1
        omega
      have hsplice : { rf with logs := Node.splice rf.logs at_ (log :: entries) } =
          { rf₁ with logs := Node.splice rf₁.logs (at_ + 1) entries } := by
        rw [splice_cons _ _ _ _ hat]
      simp only [List.foldlM_cons, bind_eq_ok, h.appendEntry_eq_ok hat hcons.head]
      constructor
      · rintro ⟨_, ⟨hhead, rfl⟩, hrest⟩
        obtain ⟨hmatch, hrf⟩ := hih.mp hrest
        refine ⟨?_, hrf.trans hsplice.symm⟩
        intro k old other hold hother
        cases k with
        | zero =>
            have hother : log = other := by simpa using hother
            exact hother ▸ hhead old hold
        | succ k => exact hmatch k old other (by rw [htail]; exact hold) (by simpa using hother)
      · rintro ⟨hall, hrf⟩
        refine ⟨rf₁, ⟨fun old hold ↦ hall 0 old log hold rfl, rfl⟩,
          hih.mpr ⟨?_, hrf.trans hsplice⟩⟩
        intro k old other hold hother
        exact hall (k + 1) old other (by rw [← htail]; exact hold) (by simpa using hother)

/-! ## The search for a conflict -/

/-- The search goes down from an index inside the log, so it succeeds, and what
it finds is above the snapshot and not above where it started. -/
theorem Indexed.conflictIndex_spec (h : rf.Indexed) (prevTerm : ℕ) {index : ℕ}
    (hle : index ≤ rf.getLastLogIndex) :
    ∃ found, rf.conflictIndex prevTerm index = .ok found ∧
      ∀ i, found = some i → 1 ≤ i ∧ i ≤ index + 1 := by
  have hturn : ∀ index ≤ rf.getLastLogIndex, ∀ next : Checked Failure (Option ℕ),
      (∃ found, next = .ok found ∧ ∀ i, found = some i → 1 ≤ i ∧ i ≤ index + 1) →
      ∃ found, rf.conflictTurn prevTerm index next = .ok found ∧
        ∀ i, found = some i → 1 ≤ i ∧ i ≤ index + 1 := by
    intro index hle next hnext
    unfold conflictTurn
    split_ifs with hlt
    · exact ⟨none, rfl, by simp⟩
    · obtain ⟨term, hterm⟩ := h.termAt_isSome.mpr ⟨Nat.le_of_not_lt hlt, hle⟩
      have hget := h.getLogTermFromLogIndex_eq_ok.mpr hterm
      by_cases hne : term ≠ prevTerm
      · refine ⟨some (index + 1), ?_, ?_⟩
        · rw [bind_eq_ok]
          exact ⟨term, hget, by simp [hne]⟩
        · intro i hi
          have : index + 1 = i := by simpa using hi
          omega
      · obtain ⟨found, hfound, hbound⟩ := hnext
        refine ⟨found, ?_, hbound⟩
        rw [bind_eq_ok]
        exact ⟨term, hget, by rw [if_neg hne]; exact hfound⟩
  induction index with
  | zero => exact hturn 0 hle _ ⟨none, rfl, by simp⟩
  | succ index ih =>
      obtain ⟨found, hfound, hbound⟩ := ih (by omega)
      refine hturn (index + 1) hle _ ⟨found, hfound, fun i hi ↦ ?_⟩
      have := hbound i hi
      omega

/-- Started at an index of the term it looks for, the search ends below it. -/
theorem Indexed.conflictIndex_le (h : rf.Indexed) {prevTerm index : ℕ} {found : Option ℕ}
    (hterm : rf.termAt index = some prevTerm)
    (hfound : rf.conflictIndex prevTerm index = .ok found) :
    ∀ i, found = some i → 1 ≤ i ∧ i ≤ index := by
  have hget := h.getLogTermFromLogIndex_eq_ok.mpr hterm
  obtain ⟨hge, hle⟩ := h.termAt_isSome.mp ⟨_, hterm⟩
  have hturn : ∀ next, rf.conflictTurn prevTerm index next = next := by
    intro next
    unfold conflictTurn
    rw [if_neg (Nat.not_lt.mpr hge), hget]
    simp [bind, Except.bind]
  cases index with
  | zero =>
      have hnone : found = none := by
        simpa [conflictIndex, hturn, eq_comm] using hfound
      simp [hnone]
  | succ index =>
      obtain ⟨found', hfound', hbound⟩ :=
        h.conflictIndex_spec prevTerm (Nat.le_of_succ_le hle)
      have heq : found' = found := by
        rw [conflictIndex, hturn, hfound'] at hfound
        exact Except.ok.inj hfound
      exact heq ▸ hbound

end HttpRaftKv.Raft.Node
