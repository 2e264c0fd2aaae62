import HttpRaftKv.Raft.Agreement
import HttpRaftKv.Raft.NextIndex

/-!
# The terms of a log

The terms of a log, from the boundary of the snapshot on, are bounded by the
current term of its node.  They stay sorted as long as nothing older is kept
behind what a node takes over.  `AppendEntries1` keeps what stands behind the
sent entries, and `InstallSnapshot` keeps what stands behind the snapshot,
whatever its terms are, and so the last entry, which `UpToDate` compares, need
not carry the largest term.
-/

namespace HttpRaftKv.Raft

open Storage

/-- A sorted list stays sorted if a part of it is replaced by a sorted list that
starts above the element before it and ends below the elements behind it. -/
theorem pairwise_replace {l m : List ℕ} {k a : ℕ} (hl : l.Pairwise (· ≤ ·)) (ha : l[k]? = some a)
    (hm : (a :: m).Pairwise (· ≤ ·))
    (htail : ∀ y ∈ l.drop (k + 1 + m.length), ∀ x ∈ m, x ≤ y) :
    (l.take (k + 1) ++ m ++ l.drop (k + 1 + m.length)).Pairwise (· ≤ ·) := by
  have hhead : ∀ x ∈ l.take (k + 1), x ≤ a := by
    intro x hx
    obtain ⟨j, hj⟩ := List.mem_iff_getElem?.mp hx
    have hjk : j ≤ k := by
      have := (List.getElem?_eq_some_iff.mp hj).1
      rw [List.length_take] at this
      omega
    rw [List.getElem?_take_of_lt (by omega)] at hj
    obtain ⟨hjlt, rfl⟩ := List.getElem?_eq_some_iff.mp hj
    obtain ⟨hklt, rfl⟩ := List.getElem?_eq_some_iff.mp ha
    rcases hjk.eq_or_lt with rfl | hlt
    · exact le_rfl
    · exact List.pairwise_iff_getElem.mp hl j k hjlt hklt hlt
  have hrest : (l.take (k + 1) ++ l.drop (k + 1 + m.length)).Pairwise (· ≤ ·) := by
    refine hl.sublist ?_
    conv_rhs => rw [← List.take_append_drop (k + 1) l]
    rw [← List.drop_drop]
    exact (List.Sublist.refl _).append (List.drop_sublist _ _)
  rw [List.pairwise_append] at hrest
  rw [List.pairwise_append, List.pairwise_append]
  refine ⟨⟨hrest.1, (List.pairwise_cons.mp hm).2, ?_⟩, hrest.2.1, ?_⟩
  · intro x hx y hy
    exact (hhead x hx).trans ((List.pairwise_cons.mp hm).1 y hy)
  · intro x hx y hy
    rcases List.mem_append.mp hx with hx | hx
    · exact hrest.2.2 x hx y hy
    · exact htail y hy x hx

theorem le_of_getLast? {l : List ℕ} {a x : ℕ} (hl : l.Pairwise (· ≤ ·)) (ha : l.getLast? = some a)
    (hx : x ∈ l) : x ≤ a := by
  obtain ⟨init, rfl⟩ := List.getLast?_eq_some_iff.mp ha
  rcases List.mem_append.mp hx with hx | hx
  · exact (List.pairwise_append.mp hl).2.2 x hx a (List.mem_singleton_self a)
  · exact (List.mem_singleton.mp hx).le

namespace AppendEntriesArgs

variable {n : ℕ} {args : AppendEntriesArgs n}

/-- The term before the sent entries and their terms. -/
def terms (args : AppendEntriesArgs n) : List ℕ :=
  args.prevlogterm :: args.entries.map LogEntry.logterm

structure TermsSorted (args : AppendEntriesArgs n) : Prop where
  sorted : args.terms.Pairwise (· ≤ ·)
  le_term : ∀ t ∈ args.terms, t ≤ args.term

theorem getLast?_terms (args : AppendEntriesArgs n) :
    args.terms.getLast? = some args.lastTerm := by
  unfold terms lastTerm
  rcases List.eq_nil_or_concat' args.entries with hnil | ⟨init, log, hentries⟩
  · simp [hnil]
  · simp [hentries, List.getLast?_cons]

end AppendEntriesArgs

namespace Node

variable {n : ℕ} {rf rf' : Node n}

/-- The term of the snapshot and the terms of the stored entries. -/
def terms (rf : Node n) : List ℕ :=
  rf.lastSnapshotIncludeTerm :: rf.logs.map LogEntry.logterm

structure TermsSorted (rf : Node n) : Prop where
  sorted : rf.terms.Pairwise (· ≤ ·)
  le_currentTerm : ∀ t ∈ rf.terms, t ≤ rf.currentTerm

theorem terms_congr (hlogs : rf'.logs = rf.logs)
    (hterm : rf'.lastSnapshotIncludeTerm = rf.lastSnapshotIncludeTerm) : rf'.terms = rf.terms := by
  rw [terms, terms, hlogs, hterm]

theorem TermsSorted.congr (h : rf.TermsSorted) (hlogs : rf'.logs = rf.logs)
    (hsnap : rf'.lastSnapshotIncludeTerm = rf.lastSnapshotIncludeTerm)
    (hterm : rf.currentTerm ≤ rf'.currentTerm) : rf'.TermsSorted where
  sorted := by
    rw [terms_congr hlogs hsnap]
    exact h.sorted
  le_currentTerm := by
    rw [terms_congr hlogs hsnap]
    exact fun t ht ↦ (h.le_currentTerm t ht).trans hterm

theorem getLast?_terms (rf : Node n) : rf.terms.getLast? = some rf.getLastLogTerm := by
  unfold terms getLastLogTerm getLastLogIndexAndTerm
  rcases List.eq_nil_or_concat' rf.logs with hnil | ⟨init, log, hlogs⟩
  · simp [hnil]
  · simp [hlogs, List.getLast?_cons]

/-- The last entry carries the largest term. -/
theorem TermsSorted.le_getLastLogTerm (h : rf.TermsSorted) {t : ℕ} (ht : t ∈ rf.terms) :
    t ≤ rf.getLastLogTerm :=
  le_of_getLast? h.sorted rf.getLast?_terms ht

theorem getElem?_terms {index term : ℕ} (hterm : rf.termAt index = some term) :
    rf.terms[index - rf.lastSnapshotIncludeIndex]? = some term := by
  unfold termAt at hterm
  split_ifs at hterm with heq
  · rw [heq, Nat.sub_self, terms, List.getElem?_cons_zero]
    exact hterm
  · obtain ⟨log, hlog, rfl⟩ := Option.map_eq_some_iff.mp hterm
    obtain ⟨hlt, hget⟩ := entryAt_eq_some.mp hlog
    obtain ⟨k, hk⟩ : ∃ k, index - rf.lastSnapshotIncludeIndex = k + 1 :=
      ⟨index - rf.lastSnapshotIncludeIndex - 1, by omega⟩
    rw [hk, Nat.add_sub_cancel] at hget
    rw [hk, terms, List.getElem?_cons_succ, List.getElem?_map, hget]
    rfl

/-- An entry of an older term than `term` is stored behind an index. -/
def OlderBehind (rf : Node n) (index term : ℕ) : Prop :=
  ∃ log ∈ rf.logs, index < log.logindex ∧ log.logterm < term

instance (rf : Node n) (index term : ℕ) : Decidable (rf.OlderBehind index term) :=
  inferInstanceAs (Decidable (∃ log ∈ rf.logs, index < log.logindex ∧ log.logterm < term))

/-- A request is taken over, and an entry of an older term stays behind it. -/
def KeepsOlderEntries (rf : Node n) (args : AppendEntriesArgs n) : Prop :=
  rf.currentTerm ≤ args.term ∧ rf.termAt args.prevlogindex = some args.prevlogterm ∧
    rf.OlderBehind args.lastIndex args.lastTerm

instance (rf : Node n) (args : AppendEntriesArgs n) : Decidable (rf.KeepsOlderEntries args) :=
  inferInstanceAs (Decidable (_ ∧ _ ∧ _))

/-- A snapshot is installed, and an entry of an older term stays behind it. -/
def KeepsOlderThanSnapshot (rf : Node n) (args : InstallSnapshotRequest n) : Prop :=
  rf.currentTerm ≤ args.term ∧ rf.lastSnapshotIncludeIndex < args.lastsnapshotincludeindex ∧
    rf.OlderBehind args.lastsnapshotincludeindex args.lastsnapshotincludeterm

instance (rf : Node n) (args : InstallSnapshotRequest n) :
    Decidable (rf.KeepsOlderThanSnapshot args) :=
  inferInstanceAs (Decidable (_ ∧ _ ∧ _))

/-- What stands behind an index is not older than `term`. -/
theorem Indexed.le_of_not_olderBehind (h : rf.Indexed) {index term k : ℕ}
    (hnot : ¬ rf.OlderBehind index term) (hk : index ≤ rf.lastSnapshotIncludeIndex + k) {t : ℕ}
    (ht : t ∈ (rf.logs.drop k).map LogEntry.logterm) : term ≤ t := by
  obtain ⟨log, hlog, rfl⟩ := List.mem_map.mp ht
  obtain ⟨j, hj⟩ := List.mem_iff_getElem?.mp hlog
  rw [List.getElem?_drop] at hj
  have hindex := h _ log hj
  by_contra hlt
  exact hnot ⟨log, List.mem_of_mem_drop hlog, by omega, by omega⟩

theorem drop_terms (rf : Node n) (k : ℕ) :
    rf.terms.drop (k + 1) = (rf.logs.drop k).map LogEntry.logterm := by
  rw [terms, List.drop_succ_cons, List.map_drop]

/-- The terms of the sent entries replace a part of the terms. -/
theorem terms_spliced (rf : Node n) (args : AppendEntriesArgs n) (ps : Persister) (k : ℕ) :
    terms { rf.joinTerm args.term with
      logs := Node.splice rf.logs k args.entries
      commitIndex := rf.followerCommit args
      persister := ps } =
    rf.terms.take (k + 1) ++ args.entries.map LogEntry.logterm ++
      rf.terms.drop (k + 1 + (args.entries.map LogEntry.logterm).length) := by
  have hdrop : k + 1 + (args.entries.map LogEntry.logterm).length =
      k + args.entries.length + 1 := by
    rw [List.length_map]
    omega
  rw [hdrop, drop_terms]
  simp [terms, splice, joinTerm, List.map_take]

/-- What stands behind a request stays behind it. -/
theorem drop_terms_behind (rf : Node n) (args : AppendEntriesArgs n) (k : ℕ) :
    rf.terms.drop (k + 1 + (args.entries.map LogEntry.logterm).length) =
      (rf.logs.drop (k + args.entries.length)).map LogEntry.logterm := by
  rw [List.length_map, ← drop_terms]
  congr 1
  omega

theorem joinTerm_currentTerm_eq {term : ℕ} (hterm : rf.currentTerm ≤ term) :
    (rf.joinTerm term).currentTerm = term := by
  simp only [joinTerm, raiseTerm_currentTerm]
  omega

theorem TermsSorted.joinTerm (h : rf.TermsSorted) (term : ℕ) (ps : Persister) :
    TermsSorted { rf.joinTerm term with persister := ps } := by
  refine h.congr ?_ ?_ ?_
  · simp [Node.joinTerm]
  · simp [Node.joinTerm]
  · simp [Node.joinTerm, raiseTerm_currentTerm]

theorem AppendEntriesOutcome.termsSorted {args : AppendEntriesArgs n}
    {reply : AppendEntriesReply} (hout : AppendEntriesOutcome rf args rf' reply)
    (hindexed : rf.Indexed) (h : rf.TermsSorted) (hargs : args.TermsSorted)
    (hnot : ¬ rf.KeepsOlderEntries args) : rf'.TermsSorted := by
  cases hout with
  | stale => exact h
  | short ps hterm => exact h.joinTerm args.term ps
  | mismatched ps hterm => exact h.joinTerm args.term ps
  | matched ps hterm hprev hcommand =>
      have hge := (hindexed.termAt_isSome.mp ⟨_, hprev⟩).1
      have hnot : ¬ rf.OlderBehind args.lastIndex args.lastTerm :=
        fun hbehind ↦ hnot ⟨hterm, hprev, hbehind⟩
      refine ⟨?_, ?_⟩
      · rw [terms_spliced]
        apply pairwise_replace h.sorted (getElem?_terms hprev) hargs.sorted
        intro y hy x hx
        rw [drop_terms_behind] at hy
        have hlast := le_of_getLast? hargs.sorted args.getLast?_terms (List.mem_cons_of_mem _ hx)
        refine hlast.trans (hindexed.le_of_not_olderBehind hnot ?_ hy)
        unfold AppendEntriesArgs.lastIndex
        omega
      · rw [terms_spliced]
        intro t ht
        refine le_trans ?_ (joinTerm_currentTerm_eq hterm).ge
        simp only [List.mem_append] at ht
        rcases ht with (ht | ht) | ht
        · exact (h.le_currentTerm t (List.mem_of_mem_take ht)).trans hterm
        · exact hargs.le_term t (List.mem_cons_of_mem _ ht)
        · exact (h.le_currentTerm t (List.mem_of_mem_drop ht)).trans hterm

/-- An older entry that stays behind the sent ones is out of order. -/
theorem AppendEntriesOutcome.not_termsSorted {args : AppendEntriesArgs n}
    {reply : AppendEntriesReply} (hout : AppendEntriesOutcome rf args rf' reply)
    (hindexed : rf.Indexed) (hkeeps : rf.KeepsOlderEntries args) : ¬ rf'.TermsSorted := by
  obtain ⟨hterm, hprev, old, hold, hbehind, holder⟩ := hkeeps
  obtain ⟨hge, hle⟩ := hindexed.termAt_isSome.mp ⟨_, hprev⟩
  cases hout with
  | stale hlt => omega
  | short ps _ hshort => omega
  | mismatched ps _ found hint hfound hne =>
      rw [hprev] at hfound
      exact absurd (Option.some.inj hfound) hne
  | matched ps _ _ hcommand =>
      intro hsorted
      have hpairwise := hsorted.sorted
      rw [terms_spliced, drop_terms_behind, List.pairwise_append] at hpairwise
      have hlast : args.lastTerm ∈ args.terms := List.mem_of_getLast? args.getLast?_terms
      refine absurd (hpairwise.2.2 args.lastTerm ?_ old.logterm ?_) holder.not_ge
      · rcases List.mem_cons.mp hlast with heq | hmem
        · have htake : args.prevlogterm ∈
              rf.terms.take (args.prevlogindex - rf.lastSnapshotIncludeIndex + 1) := by
            apply List.mem_of_getElem? (i := args.prevlogindex - rf.lastSnapshotIncludeIndex)
            rw [List.getElem?_take_of_lt (Nat.lt_succ_self _)]
            exact getElem?_terms hprev
          rw [heq]
          exact List.mem_append_left _ htake
        · exact List.mem_append_right _ hmem
      · have hdrop := hindexed.mem_drop hold hbehind
        unfold AppendEntriesArgs.lastIndex at hdrop
        rw [Nat.sub_add_comm hge] at hdrop
        exact List.mem_map_of_mem hdrop

theorem InstallSnapshotOutcome.termsSorted {args : InstallSnapshotRequest n}
    {reply : InstallSnapshotResponse} (hout : InstallSnapshotOutcome rf args rf' reply)
    (hindexed : rf.Indexed) (h : rf.TermsSorted)
    (hargs : args.lastsnapshotincludeterm ≤ args.term)
    (hnot : ¬ rf.KeepsOlderThanSnapshot args) : rf'.TermsSorted := by
  cases hout with
  | stale => exact h
  | outdated ps hterm => exact h.joinTerm args.term ps
  | installed ps hterm hindex =>
      have hnot : ¬ rf.OlderBehind args.lastsnapshotincludeindex args.lastsnapshotincludeterm :=
        fun hbehind ↦ hnot ⟨hterm, hindex, hbehind⟩
      have hsub : ((rf.logs.drop (args.lastsnapshotincludeindex -
          rf.lastSnapshotIncludeIndex)).map LogEntry.logterm).Sublist rf.terms :=
        ((List.drop_sublist _ _).map _).trans (List.sublist_cons_self _ _)
      refine ⟨List.pairwise_cons.mpr ⟨?_, h.sorted.sublist hsub⟩, ?_⟩
      · exact fun t ht ↦ hindexed.le_of_not_olderBehind hnot (by omega) ht
      · intro t ht
        refine le_trans ?_ (joinTerm_currentTerm_eq hterm).ge
        rcases List.mem_cons.mp ht with rfl | ht
        · exact hargs
        · exact (h.le_currentTerm t (hsub.subset ht)).trans hterm

/-- An older entry that stays behind the snapshot is out of order. -/
theorem InstallSnapshotOutcome.not_termsSorted {args : InstallSnapshotRequest n}
    {reply : InstallSnapshotResponse} (hout : InstallSnapshotOutcome rf args rf' reply)
    (hindexed : rf.Indexed) (hkeeps : rf.KeepsOlderThanSnapshot args) : ¬ rf'.TermsSorted := by
  obtain ⟨hterm, hindex, old, hold, hbehind, holder⟩ := hkeeps
  cases hout with
  | stale hlt => omega
  | outdated ps _ hle => omega
  | installed ps =>
      intro hsorted
      have hhead := (List.pairwise_cons.mp hsorted.sorted).1 old.logterm
        (List.mem_map_of_mem (hindexed.mem_drop hold hbehind))
      exact absurd hhead holder.not_ge

theorem TermsSorted.start (h : rf.TermsSorted) {log : LogEntry} {ps : Persister}
    (hlog : log.logterm = rf.currentTerm) :
    TermsSorted { rf with logs := rf.logs ++ [log], persister := ps } := by
  have hterms : terms { rf with logs := rf.logs ++ [log], persister := ps } =
      rf.terms ++ [rf.currentTerm] := by
    simp [terms, hlog]
  refine ⟨?_, ?_⟩
  · rw [hterms, List.pairwise_append]
    refine ⟨h.sorted, List.pairwise_singleton _ _, fun t ht u hu ↦ ?_⟩
    rw [List.mem_singleton.mp hu]
    exact h.le_currentTerm t ht
  · rw [hterms]
    intro t ht
    rcases List.mem_append.mp ht with ht | ht
    · exact h.le_currentTerm t ht
    · exact (List.mem_singleton.mp ht).le

theorem TermsSorted.snapshot (h : rf.TermsSorted) {index : ℕ} {log : LogEntry} {ps : Persister}
    (hlog : rf.entryAt index = some log) :
    TermsSorted { rf with
      lastSnapshotIncludeIndex := index
      lastSnapshotIncludeTerm := log.logterm
      logs := rf.logs.drop (index - rf.lastSnapshotIncludeIndex)
      lastApplied := max rf.lastApplied index
      persister := ps } := by
  obtain ⟨hlt, hget⟩ := entryAt_eq_some.mp hlog
  obtain ⟨k, hk⟩ : ∃ k, index - rf.lastSnapshotIncludeIndex = k + 1 :=
    ⟨index - rf.lastSnapshotIncludeIndex - 1, by omega⟩
  rw [hk] at hget ⊢
  rw [Nat.add_sub_cancel] at hget
  have hterms : terms { rf with
      lastSnapshotIncludeIndex := index
      lastSnapshotIncludeTerm := log.logterm
      logs := rf.logs.drop (k + 1)
      lastApplied := max rf.lastApplied index
      persister := ps } = rf.terms.drop (k + 1) := by
    obtain ⟨hlen, rfl⟩ := List.getElem?_eq_some_iff.mp hget
    rw [terms, terms, List.drop_succ_cons, ← List.map_drop, List.drop_eq_getElem_cons hlen,
      List.map_cons]
  refine ⟨?_, ?_⟩
  · rw [hterms]
    exact h.sorted.sublist (List.drop_sublist _ _)
  · rw [hterms]
    exact fun t ht ↦ h.le_currentTerm t (List.mem_of_mem_drop ht)

end Node

namespace Cluster

variable {n : ℕ} {c c' : Cluster n} {a : Action n}

open Node

/-- The snapshot that an action hands to `InstallSnapshot`, with its receiver. -/
def snapshotRequest (c : Cluster n) : Action n → Option (Fin n × InstallSnapshotRequest n)
  | .installSnapshot i beat p =>
      match c.sender i beat p with
      | some (.snapShot (some (.sent args))) => some (p, args)
      | _ => none
  | _ => none

/-- An action that leaves nothing older behind what a running node takes over. -/
def DropsOlder (c : Cluster n) (a : Action n) : Prop :=
  (∀ x ∈ c.request a, c.exited x.1 = false → ¬ (c.nodes x.1).KeepsOlderEntries x.2) ∧
    ∀ x ∈ c.snapshotRequest a, c.exited x.1 = false →
      ¬ (c.nodes x.1).KeepsOlderThanSnapshot x.2

instance (c : Cluster n) (a : Action n) : Decidable (c.DropsOlder a) :=
  inferInstanceAs (Decidable (_ ∧ _))

/-- The terms of every log and of everything in flight are sorted. -/
structure TermsSorted (c : Cluster n) : Prop where
  node : ∀ i, (c.nodes i).TermsSorted
  request : ∀ i beat p call, c.sender i beat p = some (.appendEntries call) →
    call.args.TermsSorted
  snapShot : ∀ i beat p call, c.sender i beat p = some (.snapShot (some call)) →
    call.args.lastsnapshotincludeterm ≤ call.args.term

/-- What a leader sends ends with the terms of its log. -/
theorem Built.termsSorted {i : Fin n} {rf : Node n} {args : AppendEntriesArgs n}
    (hbuilt : Built i rf args) (h : rf.TermsSorted) : args.TermsSorted := by
  have hget := getElem?_terms hbuilt.prevlogterm
  obtain ⟨hlt, hhead⟩ := List.getElem?_eq_some_iff.mp hget
  have hterms : args.terms = rf.terms.drop (args.prevlogindex - rf.lastSnapshotIncludeIndex) := by
    rw [List.drop_eq_getElem_cons hlt, hhead, AppendEntriesArgs.terms, hbuilt.entries, Node.terms,
      List.drop_succ_cons, List.map_drop]
  refine ⟨?_, ?_⟩
  · rw [hterms]
    exact h.sorted.sublist (List.drop_sublist _ _)
  · rw [hterms, hbuilt.term]
    exact fun t ht ↦ h.le_currentTerm t (List.mem_of_mem_drop ht)

theorem TermsSorted.step_node (h : c.TermsSorted) (hord : c.Ordered) (hstep : Step c a c')
    (happend : ∀ x ∈ c.request a, ¬ (c.nodes x.1).KeepsOlderEntries x.2)
    (hsnap : ∀ x ∈ c.snapshotRequest a, ¬ (c.nodes x.1).KeepsOlderThanSnapshot x.2) (j : Fin n) :
    (c'.nodes j).TermsSorted := by
  have hone : ∀ {i : Fin n} {rf : Node n}, rf.TermsSorted →
      (Function.update c.nodes i rf j).TermsSorted := by
    intro i rf hrf
    exact (Function.forall_update_iff c.nodes fun _ rf ↦ rf.TermsSorted).mpr
      ⟨hrf, fun k _ ↦ h.node k⟩ j
  cases hstep with
  | idle => exact h.node j
  | exit => exact h.node j
  | doElection i => exact hone ((h.node i).congr rfl rfl (Nat.le_succ _))
  | requestVote i term p e args rf reply he hcall hout =>
      refine hone ?_
      cases hout with
      | expire => exact (h.node p).congr rfl rfl le_rfl
      | refused => exact (h.node p).congr (by simp) (by simp) (by simp [raiseTerm_currentTerm])
      | granted => exact (h.node p).congr (by simp) (by simp) (by simp [raiseTerm_currentTerm])
  | sendRequestVote i term p e args reply rf votedNum elected he hcall hout =>
      exact hone ((h.node i).congr (by cases hout <;> rfl) (by cases hout <;> rfl)
        (hout.evolves (hord.node i)).term_le)
  | start i command log ps hstatus hlog => exact hone ((h.node i).start (by rw [hlog]))
  | doHeartBeat => exact h.node j
  | appendEntries1 i beat p b args rf reply hbeat hcall hout =>
      have hsender : c.sender i beat p = some (.appendEntries (.sent args)) := by
        simp [sender, hbeat, hcall]
      refine hone (hout.termsSorted (hord.node p).indexed (h.node p)
        (h.request i beat p _ hsender) (happend (p, args) ?_))
      simp [Cluster.request, hsender]
  | sendAppendEntries i beat p b args reply rf appendNums hbeat hcall hout =>
      exact hone ((h.node i).congr (by cases hout <;> rfl) (by cases hout <;> rfl)
        (hout.evolves (hord.node i)).term_le)
  | leaderSendSnapShot i => exact hone ((h.node i).congr rfl rfl le_rfl)
  | installSnapshot i beat p b args rf reply hbeat hcall hout =>
      have hsender : c.sender i beat p = some (.snapShot (some (.sent args))) := by
        simp [sender, hbeat, hcall]
      refine hone (hout.termsSorted (hord.node p).indexed (h.node p)
        (h.snapShot i beat p _ hsender) (hsnap (p, args) ?_))
      simp [snapshotRequest, hsender]
  | disconnect => exact h.node j
  | leaderSendSnapShotReply i beat p b args reply rf hbeat hcall hout =>
      exact hone ((h.node i).congr (by cases hout <;> rfl) (by cases hout <;> rfl)
        (hout.evolves (hord.node i)).term_le)
  | snapshot i index data log ps hlt hle hlog => exact hone ((h.node i).snapshot hlog)
  | getApplyLogs i => exact hone ((h.node i).congr rfl rfl le_rfl)

theorem TermsSorted.step_of_drops (h : c.TermsSorted) (hord : c.Ordered) (hstep : Step c a c')
    (happend : ∀ x ∈ c.request a, ¬ (c.nodes x.1).KeepsOlderEntries x.2)
    (hsnap : ∀ x ∈ c.snapshotRequest a, ¬ (c.nodes x.1).KeepsOlderThanSnapshot x.2) :
    c'.TermsSorted where
  node := h.step_node hord hstep happend hsnap
  request := by
    intro i beat p call hcall
    rcases hstep.append_cases hcall with ⟨call₀, hold, hargs, -⟩ | ⟨-, -, -, -, hbuilt, -⟩
    · rw [← hargs]
      exact h.request i beat p call₀ hold
    · exact hbuilt.termsSorted (h.node i)
  snapShot := by
    intro i beat p call hcall
    rcases hstep.snap_cases hcall with ⟨call₀, hold, hargs⟩ | ⟨hterm, -, hsnap⟩
    · rw [← hargs]
      exact h.snapShot i beat p call₀ hold
    · rw [hterm, hsnap]
      exact (h.node i).le_currentTerm _ (List.mem_cons_self ..)

theorem termsSorted_init : (init : Cluster n).TermsSorted where
  node := fun i ↦ ⟨List.pairwise_singleton _ _, fun t ht ↦ (List.mem_singleton.mp ht).le⟩
  request := by simp [init, sender]
  snapShot := by simp [init, sender]

section runs

variable [TextArchive (BoostPersistRaftNode n)]

/-- A process that has exited takes nothing over. -/
theorem step_of_exited {x : Fin n × AppendEntriesArgs n} (hx : x ∈ c.request a)
    (hexited : c.exited x.1 ≠ false) : c.step a = c := by
  cases a with
  | appendEntries1 i beat p =>
      simp only [Cluster.request] at hx
      split at hx
      · cases Option.some.inj hx
        simp [Cluster.step, next, hexited]
      · cases hx
  | _ => cases hx

theorem step_of_exited_snapshot {x : Fin n × InstallSnapshotRequest n}
    (hx : x ∈ c.snapshotRequest a) (hexited : c.exited x.1 ≠ false) : c.step a = c := by
  cases a with
  | installSnapshot i beat p =>
      simp only [snapshotRequest] at hx
      split at hx
      · cases Option.some.inj hx
        simp [Cluster.step, next, hexited]
      · cases hx
  | _ => cases hx

theorem TermsSorted.step (h : c.TermsSorted) (hord : c.Ordered) (hdrops : c.DropsOlder a) :
    (c.step a).TermsSorted := by
  by_cases hidle : c.step a = c
  · rwa [hidle]
  · refine h.step_of_drops hord (hord.step_spec a) ?_ ?_
    · intro x hx
      exact hdrops.1 x hx (by_contra fun hexited ↦ hidle (step_of_exited hx hexited))
    · intro x hx
      exact hdrops.2 x hx (by_contra fun hexited ↦ hidle (step_of_exited_snapshot hx hexited))

/-- A request that a running node can take over leads to an outcome. -/
theorem exists_outcome_of_request (as : List (Action n)) {x : Fin n × AppendEntriesArgs n}
    (hx : x ∈ (run as).request a) (hexited : (run as).exited x.1 = false)
    (hge : ((run as).nodes x.1).lastSnapshotIncludeIndex ≤ x.2.prevlogindex) :
    ∃ reply, AppendEntriesOutcome ((run as).nodes x.1) x.2
      (((run as).step a).nodes x.1) reply := by
  cases a with
  | appendEntries1 i beat p =>
      simp only [Cluster.request] at hx
      split at hx
      · rename_i args hsender
        cases Option.some.inj hx
        obtain ⟨b, hbeat, hcall⟩ := Option.bind_eq_some_iff.mp hsender
        obtain ⟨⟨rf, reply⟩, hresult⟩ :=
          (appendEntries1_replies_iff as hsender).mpr fun hbelow ↦ hbelow.2.not_ge hge
        have hout := ((ordered_run as).node p).indexed.appendEntries1_outcome
          ((ordered_run as).request i beat p _ hsender) hresult
        have hnode : ((run as).step (.appendEntries1 i beat p)).nodes p = rf := by
          simp [Cluster.step, next, hexited, hbeat, hcall, hresult]
        refine ⟨reply, ?_⟩
        rw [hnode]
        exact hout
      · cases hx
  | _ => cases hx

theorem exists_outcome_of_snapshotRequest (as : List (Action n))
    {x : Fin n × InstallSnapshotRequest n} (hx : x ∈ (run as).snapshotRequest a)
    (hexited : (run as).exited x.1 = false) :
    ∃ reply, InstallSnapshotOutcome ((run as).nodes x.1) x.2
      (((run as).step a).nodes x.1) reply := by
  cases a with
  | installSnapshot i beat p =>
      simp only [snapshotRequest] at hx
      split at hx
      · rename_i args hsender
        cases Option.some.inj hx
        obtain ⟨b, hbeat, hcall⟩ := Option.bind_eq_some_iff.mp hsender
        have hsound := (ordered_run as).node p
        obtain ⟨⟨rf, reply, msg⟩, hresult⟩ := hsound.installSnapshot_ok args
        have hnode : ((run as).step (.installSnapshot i beat p)).nodes p = rf := by
          simp [Cluster.step, next, hexited, hbeat, hcall, hresult]
        refine ⟨reply, ?_⟩
        rw [hnode]
        exact hsound.indexed.installSnapshot_outcome hresult
      · cases hx
  | _ => cases hx

/-- In every state of a run the terms of every log are sorted and bounded, and
the last entry carries the largest of them, exactly if nothing older is kept
behind what a node takes over. -/
theorem terms_sorted_iff_dropsOlder (as : List (Action n)) :
    (∀ us, us <+: as → ∀ i, ((run us).nodes i).TermsSorted ∧
      ∀ t ∈ ((run us).nodes i).terms, t ≤ ((run us).nodes i).getLastLogTerm) ↔
    Runs.Along Cluster.step DropsOlder init as := by
  refine Runs.property_iff_along (P := fun _ c ↦ c.TermsSorted)
    (Q := fun _ c ↦ ∀ i, (c.nodes i).TermsSorted ∧
      ∀ t ∈ (c.nodes i).terms, t ≤ (c.nodes i).getLastLogTerm)
    Cluster.step termsSorted_init ?_ ?_ ?_ as
  · exact fun us a hsorted hdrops ↦ hsorted.step (ordered_run us) hdrops
  · exact fun us hsorted i ↦ ⟨hsorted.node i, fun t ↦ (hsorted.node i).le_getLastLogTerm⟩
  · intro us a hsorted hafter
    have hindexed := fun i ↦ ((ordered_run us).node i).indexed
    refine ⟨fun x hx hexited hkeeps ↦ ?_, fun x hx hexited hkeeps ↦ ?_⟩
    · have hge := ((hindexed x.1).termAt_isSome.mp ⟨_, hkeeps.2.1⟩).1
      obtain ⟨reply, hout⟩ := exists_outcome_of_request us hx hexited hge
      exact hout.not_termsSorted (hindexed x.1) hkeeps (hafter x.1).1
    · obtain ⟨reply, hout⟩ := exists_outcome_of_snapshotRequest us hx hexited
      exact hout.not_termsSorted (hindexed x.1) hkeeps (hafter x.1).1

end runs

section stale

open scoped Archive

/-- Behind the entry `z` of term 2, node 0 keeps the entry `y` of term 1. -/
theorem terms_not_sorted_in_staleTailRun :
    ¬ ∀ us, us <+: staleTailRun → ∀ i, ((run us).nodes i).TermsSorted ∧
      ∀ t ∈ ((run us).nodes i).terms, t ≤ ((run us).nodes i).getLastLogTerm := by
  intro h
  have hlast := (h staleTailRun List.prefix_rfl 0).2 2 (by decide +kernel)
  exact absurd hlast (by decide +kernel)

end stale

end Cluster

end HttpRaftKv.Raft
