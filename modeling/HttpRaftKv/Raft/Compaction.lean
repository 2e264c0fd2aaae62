import HttpRaftKv.Raft.Archive
import HttpRaftKv.Raft.NextIndex

/-!
# Compacting the log

`Snapshot` moves the boundary of the log.  Every index from the new boundary on
reads as before, so a peer that needs nothing below it is sent the same requests.
`InstallSnapshot` moves the boundary too, but keeps what stands behind it without
a look at the entry that stood at it.
-/

namespace HttpRaftKv.Raft

open Storage

namespace Node

variable {n : ℕ} {rf rf' : Node n}

open Checked

/-- The entries behind an index stand at the end of the log. -/
theorem Indexed.filter_logindex (h : rf.Indexed) {index : ℕ}
    (hle : rf.lastSnapshotIncludeIndex ≤ index) :
    rf.logs.filter (fun log ↦ index < log.logindex) =
      rf.logs.drop (index - rf.lastSnapshotIncludeIndex) := by
  have hfront : (rf.logs.take (index - rf.lastSnapshotIncludeIndex)).filter
      (fun log ↦ index < log.logindex) = [] := by
    rw [List.filter_eq_nil_iff]
    intro log hlog
    obtain ⟨k, hk⟩ := List.mem_iff_getElem?.mp hlog
    have hlt : k < index - rf.lastSnapshotIncludeIndex := by
      have := (List.getElem?_eq_some_iff.mp hk).1
      rw [List.length_take] at this
      omega
    rw [List.getElem?_take_of_lt hlt] at hk
    have := h k log hk
    simp only [decide_eq_true_eq]
    omega
  have hback : (rf.logs.drop (index - rf.lastSnapshotIncludeIndex)).filter
      (fun log ↦ index < log.logindex) = rf.logs.drop (index - rf.lastSnapshotIncludeIndex) := by
    rw [List.filter_eq_self]
    intro log hlog
    obtain ⟨k, hk⟩ := List.mem_iff_getElem?.mp hlog
    rw [List.getElem?_drop] at hk
    have := h _ log hk
    simp only [decide_eq_true_eq]
    omega
  calc rf.logs.filter (fun log ↦ index < log.logindex)
      = (rf.logs.take (index - rf.lastSnapshotIncludeIndex) ++
          rf.logs.drop (index - rf.lastSnapshotIncludeIndex)).filter
            (fun log ↦ index < log.logindex) := by rw [List.take_append_drop]
    _ = rf.logs.drop (index - rf.lastSnapshotIncludeIndex) := by
        rw [List.filter_append, hfront, hback, List.nil_append]

/-! ## Snapshots that the node makes -/

/-- The log of `rf'` is the one of `rf` with its boundary moved to an entry of `rf`. -/
structure Compacts (rf rf' : Node n) (index : ℕ) (log : LogEntry) : Prop where
  entry : rf.entryAt index = some log
  base : rf'.lastSnapshotIncludeIndex = index
  baseTerm : rf'.lastSnapshotIncludeTerm = log.logterm
  logs : rf'.logs = rf.logs.drop (index - rf.lastSnapshotIncludeIndex)

namespace Compacts

variable {index : ℕ} {log : LogEntry}

theorem lt (h : Compacts rf rf' index log) : rf.lastSnapshotIncludeIndex < index :=
  (entryAt_eq_some.mp h.entry).1

theorem indexed (h : Compacts rf rf' index log) (hindexed : rf.Indexed) : rf'.Indexed := by
  have hlt := h.lt
  intro k other hk
  rw [h.logs, List.getElem?_drop] at hk
  have := hindexed _ _ hk
  rw [h.base]
  omega

theorem getLastLogIndex_eq (h : Compacts rf rf' index log) (hindexed : rf.Indexed) :
    rf'.getLastLogIndex = rf.getLastLogIndex := by
  have hle := (hindexed.entryAt_isSome.mp ⟨log, h.entry⟩).2
  have hlt := h.lt
  rw [hindexed.getLastLogIndex_eq] at hle ⊢
  rw [(h.indexed hindexed).getLastLogIndex_eq, h.base, h.logs, List.length_drop]
  omega

theorem entryAt_eq (h : Compacts rf rf' index log) {i : ℕ} (hi : index < i) :
    rf'.entryAt i = rf.entryAt i := by
  have hlt := h.lt
  unfold entryAt
  rw [h.base, h.logs, if_pos hi, if_pos (hlt.trans hi), List.getElem?_drop]
  congr 1
  omega

/-- The term of the entry at the boundary is the one that the boundary keeps. -/
theorem termAt_eq (h : Compacts rf rf' index log) {i : ℕ} (hi : index ≤ i) :
    rf'.termAt i = rf.termAt i := by
  have hlt := h.lt
  unfold termAt
  rw [h.base, h.baseTerm, if_neg (show i ≠ rf.lastSnapshotIncludeIndex by omega)]
  split_ifs with heq
  · rw [heq, h.entry]
    rfl
  · rw [h.entryAt_eq (by omega)]

theorem getLogTermFromLogIndex_eq (h : Compacts rf rf' index log) (hindexed : rf.Indexed) {i : ℕ}
    (hi : index ≤ i) : rf'.getLogTermFromLogIndex i = rf.getLogTermFromLogIndex i := by
  have hindexed' := h.indexed hindexed
  have hlast := h.getLastLogIndex_eq hindexed
  have hlt := h.lt
  by_cases hle : i ≤ rf.getLastLogIndex
  · obtain ⟨term, hterm⟩ := hindexed.termAt_isSome.mpr ⟨by omega, hle⟩
    rw [hindexed.getLogTermFromLogIndex_eq_ok.mpr hterm]
    exact hindexed'.getLogTermFromLogIndex_eq_ok.mpr ((h.termAt_eq hi).trans hterm)
  · -- Both calls stop at the same assertion.
    have hstop : ∀ {rf₀ : Node n}, rf₀.lastSnapshotIncludeIndex ≤ i →
        rf₀.getLastLogIndex = rf.getLastLogIndex →
        rf₀.getLogTermFromLogIndex i = .error .logTermAboveLast := by
      intro rf₀ hbase hlast₀
      rw [getLogTermFromLogIndex, require_bind hbase, require, if_neg (by omega)]
      rfl
    rw [hstop (by omega) rfl, hstop (by rw [h.base]; exact hi) hlast]

end Compacts

/-- A peer whose next index is above the log is not sent anything. -/
theorem heartBeatTo_above {me server : Fin n}
    (hsnap : rf.lastSnapshotIncludeIndex ≤ rf.getLastLogIndex)
    (h : (rf.getLastLogIndex : ℤ) + 1 < rf.nextIndex server) :
    rf.heartBeatTo me server = .error .sliceAboveLast := by
  have hslice : rf.getSlicesIndexFromLogIndex (rf.nextIndex server - 1).toNat =
      .error .sliceAboveLast := by
    rw [getSlicesIndexFromLogIndex, require_bind (by omega), require, if_neg (by omega)]
    rfl
  have hlog : rf.logFromLogIndex (rf.nextIndex server - 1).toNat = .error .sliceAboveLast := by
    rw [logFromLogIndex, hslice]
    rfl
  have hprev : rf.getPrevLogInfo server = .error .sliceAboveLast := by
    rw [getPrevLogInfo, if_neg (by omega)]
    dsimp only
    rw [hlog]
    rfl
  rw [heartBeatTo, require_bind (by omega), if_neg (by omega), hprev]
  rfl

/-- A request is built for a peer whose next index lies behind the boundary. -/
theorem Indexed.exists_heartBeatTo (h : rf.Indexed) (me : Fin n) {server : Fin n}
    (hlt : (rf.lastSnapshotIncludeIndex : ℤ) < rf.nextIndex server)
    (hle : rf.nextIndex server ≤ (rf.getLastLogIndex : ℤ) + 1) :
    ∃ args, rf.heartBeatTo me server = .ok (some args) := by
  obtain ⟨built, hbuilt⟩ := h.heartBeatTo_ok me (by omega) hle
  cases built with
  | none => exact absurd (heartBeatTo_none hbuilt) (by omega)
  | some args => exact ⟨args, hbuilt⟩

theorem Compacts.heartBeatTo_eq {index : ℕ} {log : LogEntry} (h : Compacts rf rf' index log)
    (hindexed : rf.Indexed) (hnext : rf'.nextIndex = rf.nextIndex)
    (hcurrent : rf'.currentTerm = rf.currentTerm) (hcommit : rf'.commitIndex = rf.commitIndex)
    (me : Fin n) {server : Fin n} (hserver : (index : ℤ) < rf.nextIndex server) :
    rf'.heartBeatTo me server = rf.heartBeatTo me server := by
  have hindexed' := h.indexed hindexed
  have hlast := h.getLastLogIndex_eq hindexed
  have hlt := h.lt
  have hbase := h.base
  have hentry := (hindexed.entryAt_isSome.mp ⟨log, h.entry⟩).2
  by_cases hle : rf.nextIndex server ≤ (rf.getLastLogIndex : ℤ) + 1
  · obtain ⟨args, hargs⟩ := hindexed.exists_heartBeatTo me (by omega) hle
    obtain ⟨args', hargs'⟩ := hindexed'.exists_heartBeatTo me
      (by rw [hnext, hbase]; exact hserver) (by rw [hnext, hlast]; exact hle)
    obtain ⟨hterm, hid, hleader, hprev, hentries, -⟩ := hindexed.heartBeatTo_eq_some hargs
    obtain ⟨hterm', hid', hleader', hprev', hentries', -⟩ := hindexed'.heartBeatTo_eq_some hargs'
    have hindex := (heartBeatTo_nextIndex hargs).1
    have hindex' := (heartBeatTo_nextIndex hargs').1
    rw [hnext] at hindex'
    have hsame : args'.prevlogindex = args.prevlogindex := by omega
    have hsameTerm : args'.prevlogterm = args.prevlogterm := by
      rw [h.termAt_eq (by omega), hsame, hprev] at hprev'
      exact (Option.some.inj hprev').symm
    have hsameEntries : args'.entries = args.entries := by
      rw [hentries', hentries, h.logs, List.drop_drop, hbase, hsame]
      congr 1
      omega
    rw [hargs, hargs']
    cases args
    cases args'
    simp_all
  · have habove := Int.lt_of_not_ge hle
    rw [@heartBeatTo_above n rf me server (by omega) habove,
      @heartBeatTo_above n rf' me server (by omega) (by rw [hnext, hlast]; exact habove)]

section compaction

variable [TextArchive (BoostPersistRaftNode n)]

theorem snapshot_base {index : ℕ} {data : String} (h : rf.snapshot index data = .ok rf')
    (hlt : rf.lastSnapshotIncludeIndex < index) (hle : index ≤ rf.commitIndex) :
    rf'.lastSnapshotIncludeIndex = index := by
  unfold snapshot at h
  rw [if_neg (by omega)] at h
  obtain ⟨log, -, h⟩ := bind_eq_ok.mp h
  obtain ⟨logs, -, h⟩ := bind_eq_ok.mp h
  dsimp only at h
  obtain ⟨_, -, h⟩ := bind_eq_ok.mp h
  rw [← pure_eq_ok.mp h]

/-- A snapshot that is accepted does not change what the node reads behind it, and no
request to a peer that needs nothing below it. -/
theorem Sound.snapshot_invisible (h : rf.Sound) {index : ℕ} (data : String)
    (hlt : rf.lastSnapshotIncludeIndex < index) (hle : index ≤ rf.commitIndex) :
    ∃ rf', rf.snapshot index data = .ok rf' ∧
      rf'.getLastLogIndex = rf.getLastLogIndex ∧
      (∀ i, index ≤ i → rf'.getLogTermFromLogIndex i = rf.getLogTermFromLogIndex i) ∧
      rf'.logs = rf.logs.filter (fun log ↦ index < log.logindex) ∧
      ∀ me server, (index : ℤ) < rf.nextIndex server →
        rf'.heartBeatTo me server = rf.heartBeatTo me server := by
  have hindexed := h.indexed
  obtain ⟨rf', hrf⟩ := h.snapshot_ok index data
  refine ⟨rf', hrf, ?_⟩
  rcases hindexed.snapshot_eq_ok hrf with hsame | ⟨-, -, log, ps, hlog, hrf'⟩
  · have hbase := snapshot_base hrf hlt hle
    rw [hsame] at hbase
    omega
  · have hcompacts : Compacts rf rf' index log := by
      rw [hrf']
      exact ⟨hlog, rfl, rfl, rfl⟩
    refine ⟨hcompacts.getLastLogIndex_eq hindexed,
      fun i hi ↦ hcompacts.getLogTermFromLogIndex_eq hindexed hi, ?_, ?_⟩
    · rw [hindexed.filter_logindex hlt.le]
      exact hcompacts.logs
    · intro me server hserver
      exact hcompacts.heartBeatTo_eq hindexed (by rw [hrf']) (by rw [hrf']) (by rw [hrf']) me hserver

end compaction

/-! ## Snapshots that a leader sends -/

/-- What may stay behind a snapshot: the entries behind its index if the log has its
term there, and nothing otherwise. -/
def consistentBehind (rf : Node n) (args : InstallSnapshotRequest n) : List LogEntry :=
  if (rf.entryAt args.lastsnapshotincludeindex).map LogEntry.logterm =
      some args.lastsnapshotincludeterm then
    rf.logs.filter (fun log ↦ args.lastsnapshotincludeindex < log.logindex)
  else []

/-- The snapshot is accepted, ends inside the log, and the log has another term there. -/
def Diverges (rf : Node n) (args : InstallSnapshotRequest n) : Prop :=
  rf.currentTerm ≤ args.term ∧ rf.lastSnapshotIncludeIndex < args.lastsnapshotincludeindex ∧
    args.lastsnapshotincludeindex < rf.getLastLogIndex ∧
    (rf.entryAt args.lastsnapshotincludeindex).map LogEntry.logterm ≠
      some args.lastsnapshotincludeterm

instance (rf : Node n) (args : InstallSnapshotRequest n) : Decidable (rf.Diverges args) :=
  inferInstanceAs (Decidable (_ ∧ _ ∧ _ ∧ _ ≠ _))

theorem InstallSnapshotOutcome.logs_eq {args : InstallSnapshotRequest n}
    {reply : InstallSnapshotResponse} (hout : InstallSnapshotOutcome rf args rf' reply)
    (hindexed : rf.Indexed) (hterm : rf.currentTerm ≤ args.term)
    (hindex : rf.lastSnapshotIncludeIndex < args.lastsnapshotincludeindex) :
    rf'.logs = rf.logs.filter (fun log ↦ args.lastsnapshotincludeindex < log.logindex) := by
  cases hout with
  | stale hstale => omega
  | outdated ps _ holdIndex => omega
  | installed ps => exact (hindexed.filter_logindex hindex.le).symm

theorem InstallSnapshotOutcome.unchanged {args : InstallSnapshotRequest n}
    {reply : InstallSnapshotResponse} (hout : InstallSnapshotOutcome rf args rf' reply)
    (hrefused : args.term < rf.currentTerm ∨
      args.lastsnapshotincludeindex ≤ rf.lastSnapshotIncludeIndex) :
    rf'.logs = rf.logs ∧ rf'.commitIndex = rf.commitIndex ∧ rf'.lastApplied = rf.lastApplied := by
  cases hout with
  | stale => exact ⟨rfl, rfl, rfl⟩
  | outdated => simp [joinTerm]
  | installed ps hterm hindex => omega

/-- What stays of an accepted snapshot is consistent unless the log diverges from it. -/
theorem Indexed.filter_eq_consistentBehind_iff (h : rf.Indexed) {args : InstallSnapshotRequest n}
    (hterm : rf.currentTerm ≤ args.term)
    (hindex : rf.lastSnapshotIncludeIndex < args.lastsnapshotincludeindex) :
    rf.logs.filter (fun log ↦ args.lastsnapshotincludeindex < log.logindex) =
      rf.consistentBehind args ↔ ¬ rf.Diverges args := by
  have hlast := h.getLastLogIndex_eq
  unfold consistentBehind Diverges
  split_ifs with heq
  · exact iff_of_true rfl fun hdiverges ↦ hdiverges.2.2.2 heq
  · rw [h.filter_logindex hindex.le, List.drop_eq_nil_iff]
    constructor
    · intro hshort hdiverges
      have := hdiverges.2.2.1
      omega
    · intro hnot
      by_contra hlong
      exact hnot ⟨hterm, hindex, by omega, heq⟩

section install

variable [TextArchive (BoostPersistRaftNode n)]

/-- A snapshot that is accepted leaves only entries that are consistent with it, and
one that is not changes neither the log nor the two indices. -/
def KeepsConsistent (rf : Node n) (args : InstallSnapshotRequest n) : Prop :=
  ∃ rf' reply msg, rf.installSnapshot args = .ok (rf', reply, msg) ∧
    (rf.currentTerm ≤ args.term → rf.lastSnapshotIncludeIndex < args.lastsnapshotincludeindex →
      rf'.logs = rf.consistentBehind args) ∧
    (args.term < rf.currentTerm ∨ args.lastsnapshotincludeindex ≤ rf.lastSnapshotIncludeIndex →
      rf'.logs = rf.logs ∧ rf'.commitIndex = rf.commitIndex ∧ rf'.lastApplied = rf.lastApplied)

/-- `InstallSnapshot` keeps only consistent entries exactly if the snapshot does not end
inside a log that has another term at its index. -/
theorem Sound.keepsConsistent_iff (h : rf.Sound) (args : InstallSnapshotRequest n) :
    rf.KeepsConsistent args ↔ ¬ rf.Diverges args := by
  obtain ⟨⟨rf', reply, msg⟩, hok⟩ := h.installSnapshot_ok args
  have hout := h.indexed.installSnapshot_outcome hok
  by_cases haccepted : rf.currentTerm ≤ args.term ∧
      rf.lastSnapshotIncludeIndex < args.lastsnapshotincludeindex
  · rw [← h.indexed.filter_eq_consistentBehind_iff haccepted.1 haccepted.2,
      ← hout.logs_eq h.indexed haccepted.1 haccepted.2]
    constructor
    · rintro ⟨rf₁, reply₁, msg₁, hok₁, hkept, -⟩
      rw [hok] at hok₁
      cases hok₁
      exact hkept haccepted.1 haccepted.2
    · intro hlogs
      exact ⟨rf', reply, msg, hok, fun _ _ ↦ hlogs, hout.unchanged⟩
  · refine iff_of_true ⟨rf', reply, msg, hok, ?_, hout.unchanged⟩ ?_
    · exact fun hterm hindex ↦ absurd ⟨hterm, hindex⟩ haccepted
    · exact fun hdiverges ↦ haccepted ⟨hdiverges.1, hdiverges.2.1⟩

end install

end Node

namespace Cluster

section overtaken

open scoped Archive

/-- Node `i` leads term 1 and appends two entries.  Node `j` leads term 2 with the vote
of node `k`, commits an entry, makes a snapshot of it and sends it to node `i`. -/
def overtakenRun {n : ℕ} (i j k : Fin n) : List (Action n) :=
  [.doElection i, .requestVote i 1 j, .sendRequestVote i 1 j, .start i "a", .start i "b",
    .doElection j, .requestVote j 2 k, .sendRequestVote j 2 k, .start j "c", .doHeartBeat j,
    .appendEntries1 j 0 k, .sendAppendEntries j 0 k, .snapshot j 1 "", .doHeartBeat j,
    .leaderSendSnapShot j 1 i]

/-- The request that is on its way at the end of the run. -/
def overtakenRequest {n : ℕ} (j : Fin n) : InstallSnapshotRequest n where
  leaderid := j
  term := 2
  lastsnapshotincludeindex := 1
  lastsnapshotincludeterm := 2
  data := ""

/-- Node 0 has another entry at the index of the snapshot and keeps the one behind it. -/
theorem not_keepsConsistent_overtaken :
    (run (overtakenRun (0 : Fin 3) 1 2)).sender 1 1 0 =
        some (.snapShot (some (.sent (overtakenRequest 1)))) ∧
      ¬ ((run (overtakenRun (0 : Fin 3) 1 2)).nodes 0).KeepsConsistent (overtakenRequest 1) := by
  refine ⟨by decide +kernel, ?_⟩
  rintro ⟨rf', reply, msg, hok, hkept, -⟩
  have hindexed := ((ordered_run (overtakenRun (0 : Fin 3) 1 2)).node 0).indexed
  have hterm : ((run (overtakenRun (0 : Fin 3) 1 2)).nodes 0).currentTerm ≤ 2 := by decide +kernel
  have hindex : ((run (overtakenRun (0 : Fin 3) 1 2)).nodes 0).lastSnapshotIncludeIndex < 1 := by
    decide +kernel
  have hlogs := (hindexed.installSnapshot_outcome hok).logs_eq hindexed hterm hindex
  rw [hkept hterm hindex, eq_comm, hindexed.filter_eq_consistentBehind_iff hterm hindex] at hlogs
  exact hlogs (by decide +kernel)

/-- Node 2 has the entry at the index of the snapshot. -/
theorem keepsConsistent_iff_follower :
    ((run (overtakenRun (0 : Fin 3) 1 2)).nodes 2).KeepsConsistent (overtakenRequest 1) :=
  (((ordered_run (overtakenRun 0 1 2)).node 2).keepsConsistent_iff (overtakenRequest 1)).mpr
    (by decide +kernel)

/-- Node 1 makes its snapshot. -/
theorem snapshot_invisible_leader :
    ∃ rf', ((run ((overtakenRun (0 : Fin 3) 1 2).take 12)).nodes 1).snapshot 1 "" = .ok rf' ∧
      rf'.getLogTermFromLogIndex 1 =
        ((run ((overtakenRun (0 : Fin 3) 1 2).take 12)).nodes 1).getLogTermFromLogIndex 1 := by
  have hlt : ((run ((overtakenRun (0 : Fin 3) 1 2).take 12)).nodes 1).lastSnapshotIncludeIndex <
      1 := by decide +kernel
  have hle : 1 ≤ ((run ((overtakenRun (0 : Fin 3) 1 2).take 12)).nodes 1).commitIndex := by
    decide +kernel
  obtain ⟨rf', hrf, -, hterm, -⟩ :=
    ((ordered_run ((overtakenRun 0 1 2).take 12)).node 1).snapshot_invisible "" hlt hle
  exact ⟨rf', hrf, hterm 1 le_rfl⟩

end overtaken

end Cluster

end HttpRaftKv.Raft
