import HttpRaftKv.Kv.Service

/-!
# The service is one store

In a disciplined run without snapshots all servers execute one history: what a server
has executed begins what another one has executed, or the other way round, and its store
has the values that these writes leave.  A write that has been acknowledged is in the
history, before everything that is asked for later.  A read answers from a part of the
history that has everything which any server had executed when the read was first asked
for.
-/

namespace HttpRaftKv.Kv

open Raft

/-- A write is executed if its client has made no later one before. -/
theorem numbersIncrease_executes (log : List Op) : NumbersIncrease (executes log) := by
  induction log using List.reverseRecOn with
  | nil => exact .nil
  | append_singleton log op ih =>
      rw [executes_snoc]
      split_ifs with hcovered
      · exact ih
      · refine List.pairwise_append.mpr ⟨ih, List.pairwise_singleton _ _, ?_⟩
        intro other hother last hlast hclient
        rw [List.mem_singleton.mp hlast] at hclient ⊢
        by_contra hle
        exact hcovered ⟨other, hother, hclient, not_lt.mp hle⟩

namespace Service

section history

variable {n : ℕ} [TextArchive (BoostPersistRaftNode n)] [TextArchive Op] {s : Service n}

section moments

variable [LawfulTextArchive Op]

/-- A write that is covered has been executed itself. -/
theorem Sound.mem_executedWrites (h : s.Sound) {i : Fin n} {log : List Op}
    (hlog : log <+: commands s.cluster i) {op : Op} (hop : op ∈ s.asked)
    (hwrite : op.isWrite = true) (hcovered : Covered (executedWrites log) op) :
    op ∈ executedWrites log := by
  induction log using List.reverseRecOn with
  | nil =>
      obtain ⟨other, hother, -⟩ := hcovered
      cases hother
  | append_singleton log last ih =>
      have hpast : log <+: log ++ [last] := List.prefix_append _ _
      by_cases hbefore : Covered (executedWrites log) op
      · exact (isPrefix_executedWrites hpast).subset (ih (hpast.trans hlog) hbefore)
      · -- the last command is the first one that covers the write
        have htake : (log ++ [last]).take log.length = log := by simp
        have hlast : (log ++ [last])[log.length]? = some last := by simp
        have hsplit := executedWrites_take_succ hlast
        rw [htake, List.take_of_length_le (by simp)] at hsplit
        rw [hsplit] at hcovered ⊢
        split_ifs at hcovered ⊢ with hexecutes
        · obtain ⟨other, hother, hclient, hle⟩ := hcovered
          have heq : other = last := by
            rcases List.mem_append.mp hother with hother | hother
            · exact absurd ⟨other, hother, hclient, hle⟩ hbefore
            · exact List.mem_singleton.mp hother
          rw [heq] at hclient hle
          have hlastmem : last ∈ log ++ [last] := by simp
          have hasked := (h.stream i).2 (hlog.subset hlastmem)
          rcases hle.eq_or_lt with hsame | hlt
          · rw [h.numbered op hop last hasked ⟨hclient.symm, hsame⟩]
            simp
          · obtain ⟨part, hpart, hnew, hpartcovers⟩ :=
              (h.settled last hasked op hop hclient.symm hlt hwrite).part h.cluster hlog hlastmem
            rcases List.prefix_concat_iff.mp hpart with rfl | hpart
            · exact absurd hlastmem hnew
            · exact absurd (hpartcovers.mono (isPrefix_executedWrites hpart).subset) hbefore
        · exact absurd hcovered hbefore

theorem Sound.executed_mem_asked (h : s.Sound) (i : Fin n) : (s.servers i).executed ⊆ s.asked := by
  intro op hop
  rw [(h.servers i).data.executed_eq] at hop
  have hmem := (List.mem_filter.mp (executes_subset _ op hop)).1
  exact (h.stream i).2 (List.mem_of_mem_take hmem)

omit [LawfulTextArchive Op] in
/-- What a server has executed comes from a part of the commands of its node. -/
theorem Sound.executed_part (h : s.Sound) (i : Fin n) :
    ∃ log, log <+: commands s.cluster i ∧ (s.servers i).executed = executedWrites log :=
  ⟨_, List.take_prefix _ _, (h.servers i).data.executed_eq⟩

end moments

/-! ## Two moments of a run -/

/-- What only grows. -/
structure Grows (s s' : Service n) : Prop where
  commands : ∀ i, commands s.cluster i <+: commands s'.cluster i
  executed : ∀ i, (s.servers i).executed <+: (s'.servers i).executed
  asked : s.asked ⊆ s'.asked

omit [TextArchive (BoostPersistRaftNode n)] in
theorem Grows.refl (s : Service n) : s.Grows s :=
  ⟨fun _ ↦ List.prefix_rfl, fun _ ↦ List.prefix_rfl, List.Subset.refl _⟩

omit [TextArchive (BoostPersistRaftNode n)] in
theorem Grows.trans {s' s'' : Service n} (h : s.Grows s') (h' : s'.Grows s'') : s.Grows s'' :=
  ⟨fun i ↦ (h.commands i).trans (h'.commands i), fun i ↦ (h.executed i).trans (h'.executed i),
    fun _ hop ↦ h'.asked (h.asked hop)⟩

theorem Clean.grows_step {cluster : Cluster n} (h : Clean cluster) (a : Raft.Action n)
    (i : Fin n) : commands cluster i <+: commands (cluster.step a) i := by
  obtain ⟨as, rfl, -, -⟩ := h
  exact commands_mono ((Cluster.ordered_run as).step_spec a).stream_grows i

section runs

variable [TextArchive (SkipListDump String String)] [TextArchive KvSnapshot]

omit [TextArchive (BoostPersistRaftNode n)] in
theorem grows_serve (s : Service n) (i : Fin n) (a : Action) : s.Grows (s.serve i a) where
  commands _ := List.prefix_rfl
  executed := (Function.forall_update_iff s.servers
    fun j server ↦ (s.servers j).executed <+: server.executed).mpr
    ⟨(Server.step_effect _ _ a).isPrefix_executed, fun _ _ ↦ List.prefix_rfl⟩
  asked := List.subset_append_left _ _

theorem Clean.grows (h : Clean s.cluster) (a : ServiceStep n) : s.Grows (s.step a) := by
  have hcluster : ∀ b, s.Grows { s with cluster := s.cluster.step b } := fun b ↦
    ⟨h.grows_step b, fun _ ↦ List.prefix_rfl, List.Subset.refl _⟩
  cases a with
  | raft a =>
      unfold step
      dsimp only
      split_ifs
      · exact .refl s
      · exact hcluster a
  | start i k =>
      unfold step
      dsimp only
      split_ifs
      · unfold start
        split
        · split_ifs
          · dsimp only
            split
            · exact (hcluster _).trans (grows_serve _ i _)
            · exact grows_serve s i _
          · exact .refl s
        · exact .refl s
      · exact .refl s
  | serve i a =>
      unfold step
      dsimp only
      split_ifs
      · exact grows_serve s i a
      · exact .refl s

variable [LawfulTextArchive Op]

theorem grows_run (us vs : List (ServiceStep n))
    (hok : Runs.Along step Disciplined boot (us ++ vs)) :
    (run us).Grows (run (us ++ vs)) := by
  induction vs using List.reverseRecOn with
  | nil =>
      rw [List.append_nil]
      exact .refl _
  | append_singleton vs a ih =>
      rw [← List.append_assoc] at hok ⊢
      obtain ⟨hpast, -⟩ := (Runs.along_snoc step Disciplined boot (us ++ vs) a).mp hok
      have hrun : run (us ++ vs ++ [a]) = (run (us ++ vs)).step a := Runs.run_snoc step boot _ a
      rw [hrun]
      exact (ih hpast).trans ((sound_run _ hpast).cluster.grows a)

omit [LawfulTextArchive Op] in
/-- A part of a disciplined run is disciplined. -/
theorem along_past {us vs : List (ServiceStep n)}
    (hok : Runs.Along step Disciplined boot (us ++ vs)) : Runs.Along step Disciplined boot us := by
  rw [Runs.along_iff_isPrefix] at hok ⊢
  exact fun bs a hbs ↦ hok bs a (hbs.trans (List.prefix_append us vs))

/-- What two servers have executed, each at its moment, begins one history. -/
theorem executed_comparable (us vs : List (ServiceStep n))
    (hok : Runs.Along step Disciplined boot (us ++ vs)) (i j : Fin n) :
    ((run us).servers i).executed <+: ((run (us ++ vs)).servers j).executed ∨
      ((run (us ++ vs)).servers j).executed <+: ((run us).servers i).executed := by
  have hnow := sound_run (us ++ vs) hok
  obtain ⟨log, hlog, hi⟩ := (sound_run us (along_past hok)).executed_part i
  obtain ⟨log', hlog', hj⟩ := hnow.executed_part j
  have hlog'' := hlog.trans ((grows_run us vs hok).commands i)
  rw [hi, hj]
  have hcomparable : log <+: log' ∨ log' <+: log := by
    rcases hnow.cluster.comparable i j with hij | hji
    · exact List.prefix_or_prefix_of_prefix (hlog''.trans hij) hlog'
    · exact List.prefix_or_prefix_of_prefix hlog'' (hlog'.trans hji)
  exact hcomparable.imp isPrefix_executedWrites isPrefix_executedWrites

/-- In every disciplined run, what two servers have executed begins one history, at
whatever moments of the run, no request is executed twice, and a server that has executed
as much as another has the same values. -/
theorem servers_execute_one_history (us vs : List (ServiceStep n))
    (hok : Runs.Along step Disciplined boot (us ++ vs)) (i j : Fin n) :
    (((run us).servers i).executed <+: ((run (us ++ vs)).servers j).executed ∨
      ((run (us ++ vs)).servers j).executed <+: ((run us).servers i).executed) ∧
    NumbersIncrease ((run us).servers i).executed ∧
    (((run us).servers i).executed.length = ((run (us ++ vs)).servers j).executed.length →
      ∀ key, ((run us).servers i).kv.skipList.searchElement key =
        ((run (us ++ vs)).servers j).kv.skipList.searchElement key) := by
  have hcomparable := executed_comparable us vs hok i j
  have hi := ((sound_run us (along_past hok)).servers i).data
  have hj := ((sound_run (us ++ vs) hok).servers j).data
  refine ⟨hcomparable, ?_, fun hlength key ↦ ?_⟩
  · rw [hi.executed_eq]
    exact numbersIncrease_executes _
  · have hsame : ((run us).servers i).executed = ((run (us ++ vs)).servers j).executed :=
      hcomparable.elim (fun h ↦ h.eq_of_length hlength) fun h ↦ (h.eq_of_length hlength.symm).symm
    rw [SkipList.Holds.searchElement hi.stores, SkipList.Holds.searchElement hj.stores, hsame]

/-- In every disciplined run, a write that has been acknowledged stands in a history that
has nothing of what is asked for later, and at every later moment what a server has
executed begins this history or continues it. -/
theorem acknowledged_writes_stay (us : List (ServiceStep n)) {op : Op}
    (hok : Runs.Along step Disciplined boot us) (hop : op ∈ (run us).acknowledged) :
    ∃ history, op ∈ history ∧ history ⊆ (run us).asked ∧ ∀ vs,
      Runs.Along step Disciplined boot (us ++ vs) → ∀ j,
        ((run (us ++ vs)).servers j).executed <+: history ∨
          history <+: ((run (us ++ vs)).servers j).executed := by
  have hsound := sound_run us hok
  obtain ⟨hasked, hwrite, i, hcovered⟩ := hsound.answered op hop
  obtain ⟨log, hlog, hexecuted⟩ := hsound.executed_part i
  refine ⟨((run us).servers i).executed, ?_, hsound.executed_mem_asked i, fun vs hlater j ↦
    (executed_comparable us vs hlater i j).symm⟩
  rw [hexecuted] at hcovered ⊢
  exact hsound.mem_executedWrites hlog hasked hwrite hcovered

omit [LawfulTextArchive Op] in
/-- A read answers with the value that the executed writes leave. -/
theorem Sound.read (h : s.Sound) {i : Fin n} {k : ℕ} {handler : Handler} {index : ℤ}
    (hruns : s.Running i) (hhandler : (s.servers i).calls.handlers k = some handler)
    (hstate : handler.state = .reading index) :
    ((s.step (.serve i (.read k))).servers i).calls.handlers k = some { handler with
      state := .closing index
        (Calls.readReply (written (s.servers i).executed handler.op.key)) } := by
  have hstores := (h.servers i).data.stores
  have hreader : (s.servers i).calls.reader k = some (handler, index) := by
    simp [Calls.reader, hhandler, hstate]
  have hstep : (s.servers i).step (s.cluster.stream i) (.read k) = { s.servers i with
      kv := (s.servers i).kv.record handler.op
      calls := (s.servers i).calls.setState k handler (.closing index
        (Calls.readReply (written (s.servers i).executed handler.op.key))) } := by
    simp [Server.step, Server.next, Server.read, hruns.2, hreader, hstores.executeGetOpOnKVDB]
  rw [Service.step, if_pos ⟨hruns, rfl⟩, Service.serve]
  dsimp only
  rw [Function.update_self, hstep, Calls.handlers_setState, if_pos rfl]

/-- A server on which a handler reads has executed everything that any server had executed
before the request was asked for. -/
theorem executed_before_read (us vs : List (ServiceStep n))
    (hok : Runs.Along step Disciplined boot (us ++ vs)) {i : Fin n} {k : ℕ} {handler : Handler}
    {index : ℤ} (hhandler : ((run (us ++ vs)).servers i).calls.handlers k = some handler)
    (hstate : handler.state = .reading index)
    (hnew : ∀ other ∈ (run us).asked, other.clientId = handler.op.clientId →
      other.requestId < handler.op.requestId) (j : Fin n) :
    ((run us).servers j).executed <+: ((run (us ++ vs)).servers i).executed := by
  have hpast := sound_run us (along_past hok)
  have hnow := sound_run (us ++ vs) hok
  obtain ⟨-, later, hlater, hclient, hle⟩ := (hnow.servers i).reading k handler index hhandler hstate
  have hprefix : commands (run us).cluster j <+: (commands (run (us ++ vs)).cluster i).take
      (Server.processed ((run (us ++ vs)).servers i).popped
        ((run (us ++ vs)).servers i).loop) := by
    refine hnow.cluster.isPrefix ((grows_run us vs hok).commands j) (List.take_prefix _ _)
      (fun hmem ↦ ?_) hlater
    -- the request that has served the handler was not asked for at that time
    have hlt := hnew later ((hpast.stream j).2 hmem) hclient
    omega
  obtain ⟨log, hlog, hexecuted⟩ := hpast.executed_part j
  rw [hexecuted, (hnow.servers i).data.executed_eq]
  exact (isPrefix_executedWrites hlog).trans (isPrefix_executedWrites hprefix)

/-- In every disciplined run, a handler that reads the store does so on a server that has
executed everything that any server had executed before the request was asked for, and it
answers with the value which the executed writes leave. -/
theorem reads_see_history (us vs : List (ServiceStep n))
    (hok : Runs.Along step Disciplined boot (us ++ vs)) {i : Fin n} {k : ℕ} {handler : Handler}
    {index : ℤ} (hruns : (run (us ++ vs)).Running i)
    (hhandler : ((run (us ++ vs)).servers i).calls.handlers k = some handler)
    (hstate : handler.state = .reading index)
    (hnew : ∀ other ∈ (run us).asked, other.clientId = handler.op.clientId →
      other.requestId < handler.op.requestId) :
    (∀ j, ((run us).servers j).executed <+: ((run (us ++ vs)).servers i).executed) ∧
      ((run (us ++ vs ++ [.serve i (.read k)])).servers i).calls.handlers k =
        some { handler with state := .closing index (Calls.readReply
          (written ((run (us ++ vs)).servers i).executed handler.op.key)) } := by
  refine ⟨executed_before_read us vs hok hhandler hstate hnew, ?_⟩
  have hrun : run (us ++ vs ++ [.serve i (.read k)]) =
      (run (us ++ vs)).step (.serve i (.read k)) := Runs.run_snoc step boot _ _
  rw [hrun]
  exact (sound_run (us ++ vs) hok).read hruns hhandler hstate

end runs

end history

section concrete

open scoped Archive Raft.Archive

def put : Op :=
  ⟨"Put", "k", "v", "c", 1⟩

/-- The loop of the server `i` handles one message. -/
def handles (i : Fin 3) : List (ServiceStep 3) :=
  [.serve i .pop, .serve i .check, .serve i (.execute 0), .serve i (.compact false),
    .serve i .send]

/-- Node 0 leads, commits the command of a handler on node 1 too, and hands it out. -/
def replicates (h beat : ℕ) : List (ServiceStep 3) :=
  [.start 0 h, .serve 0 (.openChan h), .raft (.doHeartBeat 0), .raft (.appendEntries1 0 beat 1),
    .raft (.sendAppendEntries 0 beat 1), .raft (.getApplyLogs 0)]

/-- A client is answered for its put. -/
def acknowledgedPut : List (ServiceStep 3) :=
  [.raft (.doElection 0), .raft (.requestVote 0 1 1), .raft (.sendRequestVote 0 1 1),
    .serve 0 (.putAppend 0 put)] ++ replicates 0 0 ++ handles 0 ++
      [.serve 0 (.take 0), .serve 0 (.close 0)]

/-- Another client asks for the key, and the follower gets the put. -/
def askedGet : List (ServiceStep 3) :=
  [.serve 0 (.get 1 "k" "d" 1)] ++ replicates 1 1 ++ handles 0 ++
    [.serve 0 (.take 1), .raft (.getApplyLogs 1)] ++ handles 1

theorem servers_execute_one_history_in_askedGet :
    ((run acknowledgedPut).servers 0).executed = [put] ∧
      ((run (acknowledgedPut ++ askedGet)).servers 1).executed = [put] ∧
      ∀ key, ((run acknowledgedPut).servers 0).kv.skipList.searchElement key =
        ((run (acknowledgedPut ++ askedGet)).servers 1).kv.skipList.searchElement key :=
  have h₀ : ((run acknowledgedPut).servers 0).executed = [put] := by decide +kernel
  have h₁ : ((run (acknowledgedPut ++ askedGet)).servers 1).executed = [put] := by decide +kernel
  ⟨h₀, h₁, (servers_execute_one_history acknowledgedPut askedGet (by decide +kernel) 0 1).2.2
    (by rw [h₀, h₁])⟩

theorem acknowledged_writes_stay_in_acknowledgedPut :
    ∃ history, put ∈ history ∧ history ⊆ (run acknowledgedPut).asked ∧ ∀ vs,
      Runs.Along step Disciplined boot (acknowledgedPut ++ vs) → ∀ j,
        ((run (acknowledgedPut ++ vs)).servers j).executed <+: history ∨
          history <+: ((run (acknowledgedPut ++ vs)).servers j).executed :=
  acknowledged_writes_stay acknowledgedPut (by decide +kernel) (by decide +kernel)

theorem reads_see_history_in_askedGet :
    ((run (acknowledgedPut ++ askedGet ++ [.serve 0 (.read 1)])).servers 0).calls.handlers 1 =
      some ⟨.get, ⟨"Get", "k", "", "d", 1⟩, .closing 2 ⟨.ok, "v"⟩⟩ := by
  have hhandler : ((run (acknowledgedPut ++ askedGet)).servers 0).calls.handlers 1 =
      some ⟨.get, ⟨"Get", "k", "", "d", 1⟩, .reading 2⟩ := by decide +kernel
  have hexecuted : ((run (acknowledgedPut ++ askedGet)).servers 0).executed = [put] := by
    decide +kernel
  have hread := (reads_see_history acknowledgedPut askedGet (by decide +kernel) (by decide +kernel)
    hhandler rfl (by decide +kernel)).2
  rw [hexecuted] at hread
  exact hread

end concrete

end Service

end HttpRaftKv.Kv
