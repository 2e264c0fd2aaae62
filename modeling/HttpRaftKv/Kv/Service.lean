import HttpRaftKv.Kv.FollowedLog
import HttpRaftKv.Raft.Streams

/-!
# The service

Every server runs on the node of its process: a handler gives its command to `Start` of
that node, and the loop takes what the node hands out.

The servers are started with `maxraftstate` equal to `-1`: then `GetCommandFromRaft` does
not call `IfNeedToSendSnapShotCommand`, and no server makes a snapshot.  The program that
is shipped passes 500: of its runs, this is the part before the first snapshot.

The clients are given by what they ask.  A client asks for something new only if it has
been answered for the writes that it has asked for before, and numbers it higher; what it
has asked for already it may ask for again, and an old request may arrive late.

`asked` and `acknowledged` are not part of the program.  They record the requests that
have reached a server, and the writes that a server has answered with `OK`.
-/

namespace HttpRaftKv.Raft

/-- The server has the node take this step: `Start` for a handler, and `Snapshot` not at
all if `maxraftstate` is `-1`. -/
def Action.byServer {n : ℕ} : Action n → Bool
  | .start _ _ | .snapshot _ _ _ => true
  | _ => false

end HttpRaftKv.Raft

namespace HttpRaftKv.Kv

open Raft

/-- A service whose servers are started with `maxraftstate` equal to `-1`. -/
structure Service (n : ℕ) where
  cluster : Cluster n
  servers : Fin n → Server
  asked : List Op
  acknowledged : List Op

/-- A step of a node, a call of `Start` by a handler, or another step of a server. -/
inductive ServiceStep (n : ℕ)
  | raft (a : Raft.Action n)
  | start (i : Fin n) (h : ℕ)
  | serve (i : Fin n) (a : Action)

/-- A step that a server takes by itself.  With `maxraftstate` equal to `-1` it does not
ask whether the state of the node is large. -/
def Action.ownStep : Action → Bool
  | .start _ _ => false
  | .compact large => !large
  | _ => true

/-- The write that a step answers with `OK`. -/
def Server.acknowledges (s : Server) : Action → Option Op
  | .close h =>
      match s.calls.handlers h with
      | some ⟨.putAppend, op, .closing _ ⟨.ok, _⟩⟩ => some op
      | _ => none
  | _ => none

namespace Service

variable {n : ℕ}

def boot : Service n where
  cluster := .init
  servers := fun _ ↦ .boot .create
  asked := []
  acknowledged := []

section steps

variable [TextArchive (BoostPersistRaftNode n)] [TextArchive Op]
  [TextArchive (SkipListDump String String)] [TextArchive KvSnapshot]

/-- The server on the node `i` has the messages of that node. -/
def serve (s : Service n) (i : Fin n) (a : Action) : Service n :=
  { s with
    servers := Function.update s.servers i ((s.servers i).step (s.cluster.stream i) a)
    asked := s.asked ++ (((s.servers i).asks a).map Handler.op).toList
    acknowledged := s.acknowledged ++ ((s.servers i).acknowledges a).toList }

/-- The handler `h` calls `Start` on the node of its server. -/
def start (s : Service n) (i : Fin n) (h : ℕ) : Service n :=
  match (s.servers i).calls.handlers h with
  | some handler =>
      if handler.state = .called then
        let command := TextArchive.save handler.op
        match (s.cluster.nodes i).start command with
        | some (_, log) =>
            { s with cluster := s.cluster.step (.start i command) }.serve i
              (.start h (some log.logindex))
        | none => s.serve i (.start h none)
      else
        s
  | none => s

/-- The server runs as long as its process does. -/
def Running (s : Service n) (i : Fin n) : Prop :=
  s.cluster.exited i = false ∧ (s.servers i).terminated = false

instance (s : Service n) (i : Fin n) : Decidable (s.Running i) :=
  inferInstanceAs (Decidable (_ ∧ _))

def step (s : Service n) : ServiceStep n → Service n
  | .raft a => if a.byServer then s else { s with cluster := s.cluster.step a }
  | .start i h => if s.Running i then s.start i h else s
  | .serve i a => if s.Running i ∧ a.ownStep = true then s.serve i a else s

def run (as : List (ServiceStep n)) : Service n :=
  Runs.run step boot as

end steps

/-! ## What is asked of the clients -/

/-- The client asks again, or it has its answers and numbers the new request higher. -/
def Waits (s : Service n) (op : Op) : Prop :=
  op ∈ s.asked ∨ ∀ other ∈ s.asked, other.clientId = op.clientId →
    other.requestId < op.requestId ∧ (other.isWrite = true → other ∈ s.acknowledged)

instance (s : Service n) (op : Op) : Decidable (s.Waits op) :=
  inferInstanceAs (Decidable (_ ∨ ∀ other ∈ s.asked, _))

/-- The step leaves no stale tail, its client waits for its answers, and a handler of a
read does not lower the entry of its client. -/
def Disciplined (s : Service n) : ServiceStep n → Prop
  | .raft a => s.cluster.NoStaleTail a
  | .start _ _ => True
  | .serve i a =>
      (∀ handler ∈ (s.servers i).asks a, s.Waits handler.op ∧
        (handler.rpc = .putAppend ↔ handler.op.isWrite = true)) ∧
      ∀ op ∈ (s.servers i).reads a,
        ∀ last ∈ (s.servers i).kv.lastRequestId.lookup op.clientId, last ≤ op.requestId

instance (s : Service n) : ∀ a, Decidable (s.Disciplined a)
  | .raft a => inferInstanceAs (Decidable (s.cluster.NoStaleTail a))
  | .start _ _ => inferInstanceAs (Decidable True)
  | .serve i a => inferInstanceAs (Decidable ((∀ handler ∈ (s.servers i).asks a, _) ∧
      ∀ op ∈ (s.servers i).reads a,
        ∀ last ∈ (s.servers i).kv.lastRequestId.lookup op.clientId, last ≤ op.requestId))

/-! ## The commands of a node -/

section commands

variable [TextArchive Op]

/-- The commands that a node has handed out. -/
def commands (cluster : Cluster n) (i : Fin n) : List Op :=
  (cluster.stream i).filterMap fun message ↦ TextArchive.load message.command

variable [LawfulTextArchive Op] {asked : List Op}

theorem filterMap_messages (ops : List Op) :
    (messages ops).filterMap (fun message ↦ (TextArchive.load message.command : Option Op)) =
      ops := by
  induction ops using List.reverseRecOn with
  | nil => rfl
  | append_singleton ops op ih =>
      rw [messages, List.mapIdx_concat, ← messages, List.filterMap_append, ih]
      simp [delivered]

omit [LawfulTextArchive Op] in
theorem exists_messages {stream : List ApplyMsg}
    (h : ∀ k message, stream[k]? = some message → ∃ op ∈ asked, message = delivered k op) :
    ∃ ops, ops ⊆ asked ∧ stream = messages ops := by
  induction stream using List.reverseRecOn with
  | nil => exact ⟨[], List.nil_subset _, rfl⟩
  | append_singleton stream message ih =>
      obtain ⟨ops, hops, rfl⟩ := ih fun k message' hmessage ↦ by
        apply h k message'
        rw [List.getElem?_append_left (List.getElem?_eq_some_iff.mp hmessage).1, hmessage]
      have hlength : (messages ops).length = ops.length := List.length_mapIdx
      obtain ⟨op, hop, rfl⟩ := h ops.length message (by simp [← hlength])
      refine ⟨ops ++ [op], ?_, ?_⟩
      · simpa [hop] using hops
      · rw [messages, messages, List.mapIdx_concat]

/-- A node hands out the messages of commands that have been asked for. -/
theorem stream_eq_messages {cluster : Cluster n} (hstreamed : cluster.Streamed)
    (hstarted : ∀ log, cluster.Started log → ∃ op ∈ asked, log.command = TextArchive.save op)
    (i : Fin n) :
    cluster.stream i = messages (commands cluster i) ∧ commands cluster i ⊆ asked := by
  have hmessages : ∀ k message, (cluster.stream i)[k]? = some message →
      ∃ op ∈ asked, message = delivered k op := by
    intro k message hmessage
    obtain ⟨log, hlog, hindex, rfl⟩ := hstreamed.entries i k message hmessage
    obtain ⟨op, hop, hcommand⟩ := hstarted log hlog
    refine ⟨op, hop, ?_⟩
    rw [Cluster.messageOf, delivered, hcommand, hindex]
    rfl
  obtain ⟨ops, hops, hstream⟩ := exists_messages hmessages
  have hcommands : commands cluster i = ops := by
    rw [commands, hstream, filterMap_messages]
  rw [hcommands]
  exact ⟨hstream, hops⟩

omit [LawfulTextArchive Op] in
theorem commands_mono {cluster cluster' : Cluster n}
    (h : ∀ i, cluster.stream i <+: cluster'.stream i) (i : Fin n) :
    commands cluster i <+: commands cluster' i :=
  (h i).filterMap _

end commands

/-! ## What is known of every service -/

section sound

variable [TextArchive (BoostPersistRaftNode n)] [TextArchive Op]

/-- A cluster that has run without a stale tail and without a snapshot. -/
def Clean (cluster : Cluster n) : Prop :=
  ∃ as, cluster = Cluster.run as ∧ Runs.Along Cluster.step Cluster.NoStaleTail .init as ∧
    Cluster.Raw as

/-- A part of the commands of a node covers a write, and has no copy of a later request. -/
def Settled (cluster : Cluster n) (earlier later : Op) : Prop :=
  ∃ i log, log <+: commands cluster i ∧ Covered (log.filter Op.isWrite) earlier ∧ later ∉ log

structure Sound (s : Service n) : Prop where
  cluster : Clean s.cluster
  started : ∀ log, s.cluster.Started log → ∃ op ∈ s.asked, log.command = TextArchive.save op
  servers : ∀ i, (s.servers i).Serves s.asked (commands s.cluster i)
  numbered : ∀ op ∈ s.asked, ∀ other ∈ s.asked, op.SameRequest other → op = other
  answered : ∀ op ∈ s.acknowledged,
    op ∈ s.asked ∧ op.isWrite = true ∧ ∃ i, Covered (s.servers i).executed op
  settled : ∀ op ∈ s.asked, ∀ other ∈ s.asked, other.clientId = op.clientId →
    other.requestId < op.requestId → other.isWrite = true → Settled s.cluster other op

variable {s : Service n}

theorem sound_boot : (boot : Service n).Sound where
  cluster := ⟨[], rfl, trivial, nofun⟩
  started log hlog := by
    obtain ⟨i, hi⟩ := hlog
    cases hi
  servers _ := Server.serves_boot _ _
  numbered _ h := by cases h
  answered _ h := by cases h
  settled _ h := by cases h

omit [TextArchive (BoostPersistRaftNode n)] in
theorem Settled.mono {cluster cluster' : Cluster n} {earlier later : Op}
    (h : Settled cluster earlier later)
    (hmono : ∀ i, commands cluster i <+: commands cluster' i) : Settled cluster' earlier later := by
  obtain ⟨i, log, hlog, hrest⟩ := h
  exact ⟨i, log, hlog.trans (hmono i), hrest⟩

/-- Two nodes hand out their commands in one order. -/
theorem Clean.comparable {cluster : Cluster n} (h : Clean cluster) (i j : Fin n) :
    commands cluster i <+: commands cluster j ∨ commands cluster j <+: commands cluster i := by
  obtain ⟨as, rfl, hclean, hraw⟩ := h
  obtain ⟨logs, hsim⟩ := sim_run as hclean
  exact (hsim.streams_comparable (Cluster.streamed_run as hraw).2 i j).imp
    (fun h ↦ h.filterMap _) fun h ↦ h.filterMap _

/-- What a node has handed out comes before what has been handed out elsewhere only. -/
theorem Clean.isPrefix {cluster : Cluster n} (h : Clean cluster) {i j : Fin n}
    {part log : List Op} (hpart : part <+: commands cluster j) (hlog : log <+: commands cluster i)
    {later : Op} (hnew : later ∉ part) (hlater : later ∈ log) : part <+: log := by
  have hcomparable : part <+: log ∨ log <+: part := by
    rcases h.comparable i j with hij | hji
    · exact (List.prefix_or_prefix_of_prefix (hlog.trans hij) hpart).symm
    · exact List.prefix_or_prefix_of_prefix (hpart.trans hji) hlog
  exact hcomparable.resolve_right fun hbelow ↦ hnew (hbelow.subset hlater)

/-- What has settled comes before the later request in the commands of every node. -/
theorem Settled.part {cluster : Cluster n} (hclean : Clean cluster) {earlier later : Op}
    (h : Settled cluster earlier later) {i : Fin n} {log : List Op}
    (hlog : log <+: commands cluster i) (hlater : later ∈ log) :
    ∃ part, part <+: log ∧ later ∉ part ∧ Covered (executedWrites part) earlier := by
  obtain ⟨j, part, hpart, hcovered, hnew⟩ := h
  exact ⟨part, hclean.isPrefix hpart hlog hnew hlater, hnew, covered_executes_iff.mpr hcovered⟩

/-- The cluster takes a step. -/
theorem Sound.raft (h : s.Sound) {a : Raft.Action n} (hclean : s.cluster.NoStaleTail a)
    (hraw : a.compacts = false)
    (hstart : ∀ i command, a = .start i command → ∃ op ∈ s.asked, command = TextArchive.save op) :
    Sound { s with cluster := s.cluster.step a } := by
  obtain ⟨as, hrun, halong, hpast⟩ := h.cluster
  have hord := Cluster.ordered_run as
  rw [← hrun] at hord
  have hstep := hord.step_spec a
  have hmono := commands_mono hstep.stream_grows
  refine ⟨⟨as ++ [a], ?_, ?_, ?_⟩, ?_, fun i ↦ ?_, h.numbered, h.answered, ?_⟩
  · rw [Cluster.run_snoc, hrun]
  · refine (Runs.along_snoc _ _ _ as a).mpr ⟨halong, ?_⟩
    change (Cluster.run as).NoStaleTail a
    rw [← hrun]
    exact hclean
  · intro b hb
    rcases List.mem_append.mp hb with hb | hb
    · exact hpast b hb
    · rw [List.mem_singleton.mp hb]
      exact hraw
  · intro log hlog
    rcases hstep.started_command hlog with hold | ⟨i, hnew⟩
    · exact h.started log hold
    · exact hstart i log.command hnew
  · exact (h.servers i).append (List.Subset.refl _) (hmono i)
  · intro op hop other hother hclient hlt hwrite
    exact (h.settled op hop other hother hclient hlt hwrite).mono hmono

/-- What has been acknowledged is covered by the commands of a node. -/
theorem Sound.covered_commands (h : s.Sound) {op : Op} (hop : op ∈ s.acknowledged) :
    ∃ i, Covered ((commands s.cluster i).filter Op.isWrite) op := by
  obtain ⟨-, -, i, hcovered⟩ := h.answered op hop
  rw [(h.servers i).data.executed_eq, executedWrites, covered_executes_iff] at hcovered
  exact ⟨i, hcovered.mono fun other hother ↦
    ((List.take_prefix _ _).filter _).subset hother⟩

/-- A write that is answered with `OK` is covered. -/
theorem Sound.acknowledges (h : s.Sound) {i : Fin n} {a : Action} {op : Op}
    (hop : (s.servers i).acknowledges a = some op) :
    op ∈ s.asked ∧ op.isWrite = true ∧ Covered (s.servers i).executed op := by
  unfold Server.acknowledges at hop
  split at hop
  · split at hop
    · rename_i hhandler
      cases hop
      obtain ⟨hasked, hkind⟩ := (h.servers i).known _ _ hhandler
      exact ⟨hasked, hkind.mp rfl, (h.servers i).acknowledging _ _ hhandler rfl rfl⟩
    · cases hop
  · cases hop

variable [LawfulTextArchive Op]

theorem Sound.stream (h : s.Sound) (i : Fin n) :
    s.cluster.stream i = messages (commands s.cluster i) ∧ commands s.cluster i ⊆ s.asked := by
  obtain ⟨as, hrun, -, hraw⟩ := h.cluster
  exact stream_eq_messages (hrun ▸ (Cluster.streamed_run as hraw).2) h.started i

/-- The table of a server takes no write for a duplicate that is not covered. -/
theorem Sound.judges (h : s.Sound) (i : Fin n) :
    (s.servers i).Judges s.asked (commands s.cluster i) where
  committed := (h.stream i).2
  numbered := h.numbered
  duplicate := by
    intro op hop hwrite hdup
    have hdata := (h.servers i).data
    obtain ⟨other, hmem, hclient, hle⟩ := hdata.of_duplicate hdup
    have hother := (h.stream i).2 (List.mem_of_mem_take hmem)
    rw [hdata.executed_eq]
    rcases hle.eq_or_lt with heq | hlt
    · -- the other request is this one
      rw [h.numbered other hother op hop ⟨hclient, heq.symm⟩] at hmem
      exact covered_executedWrites hmem hwrite
    · have hsettled := h.settled other hother op hop hclient.symm hlt hwrite
      obtain ⟨part, hpart, -, hcovered⟩ := hsettled.part h.cluster (List.take_prefix _ _) hmem
      exact hcovered.mono (isPrefix_executedWrites hpart).subset

/-- A client asks for something. -/
theorem Sound.ask (h : s.Sound) {op : Op} (hwaits : s.Waits op) :
    Sound { s with asked := s.asked ++ [op] } := by
  have hsub : s.asked ⊆ s.asked ++ [op] := List.subset_append_left _ _
  have hcases : ∀ other ∈ s.asked ++ [op], other ∈ s.asked ∨ other = op ∧ op ∉ s.asked := by
    intro other hother
    by_cases hold : other ∈ s.asked
    · exact .inl hold
    · have heq : other = op := by simpa [hold] using hother
      exact .inr ⟨heq, heq ▸ hold⟩
  refine ⟨h.cluster, fun log hlog ↦ ?_, fun i ↦ (h.servers i).append hsub List.prefix_rfl, ?_,
    fun other hother ↦ (h.answered other hother).imp_left fun hold ↦ hsub hold, ?_⟩
  · obtain ⟨other, hother, hcommand⟩ := h.started log hlog
    exact ⟨other, hsub hother, hcommand⟩
  · intro x hx y hy hsame
    rcases hcases x hx with hxold | ⟨hxop, hnew⟩
    · rcases hcases y hy with hyold | ⟨rfl, hnew⟩
      · exact h.numbered x hxold y hyold hsame
      · have hlt := (hwaits.resolve_left hnew x hxold hsame.1).1
        exact absurd hsame.2 hlt.ne
    · rcases hcases y hy with hyold | ⟨hyop, -⟩
      · rw [hxop] at hsame
        have hlt := (hwaits.resolve_left hnew y hyold hsame.1.symm).1
        exact absurd hsame.2 hlt.ne'
      · exact hxop.trans hyop.symm
  · intro x hx y hy hclient hlt hwrite
    rcases hcases x hx with hxold | ⟨rfl, hnew⟩
    · rcases hcases y hy with hyold | ⟨rfl, hnew⟩
      · exact h.settled x hxold y hyold hclient hlt hwrite
      · -- a new request has the highest number
        have hlt' := (hwaits.resolve_left hnew x hxold hclient.symm).1
        omega
    · rcases hcases y hy with hyold | ⟨rfl, -⟩
      · have hack := (hwaits.resolve_left hnew y hyold hclient).2 hwrite
        obtain ⟨i, hcovered⟩ := h.covered_commands hack
        exact ⟨i, _, List.prefix_rfl, hcovered, fun hmem ↦ hnew ((h.stream i).2 hmem)⟩
      · exact absurd hlt (lt_irrefl _)

variable [TextArchive (SkipListDump String String)] [TextArchive KvSnapshot]

/-- A server takes a step for requests that are known. -/
theorem Sound.serveKnown (h : s.Sound) {i : Fin n} {a : Action}
    (hasks : ∀ handler, (s.servers i).asks a = some handler →
      handler.op ∈ s.asked ∧ (handler.rpc = .putAppend ↔ handler.op.isWrite = true))
    (hlate : ∀ op, (s.servers i).reads a = some op → ∀ last,
      (s.servers i).kv.lastRequestId.lookup op.clientId = some last → last ≤ op.requestId) :
    Sound { s with
      servers := Function.update s.servers i ((s.servers i).step (s.cluster.stream i) a)
      acknowledged := s.acknowledged ++ ((s.servers i).acknowledges a).toList } := by
  have hserves := (h.servers i).step (h.judges i) hasks hlate
  rw [← (h.stream i).1] at hserves
  have hexecuted := (Server.step_effect (s.cluster.stream i) (s.servers i) a).isPrefix_executed
  refine ⟨h.cluster, h.started, ?_, h.numbered, ?_, h.settled⟩
  · exact (Function.forall_update_iff s.servers
      fun j server ↦ server.Serves s.asked (commands s.cluster j)).mpr
      ⟨hserves, fun j _ ↦ h.servers j⟩
  · intro op hop
    obtain ⟨hasked, hwrite, j, hcovered⟩ :
        op ∈ s.asked ∧ op.isWrite = true ∧ ∃ j, Covered (s.servers j).executed op := by
      rcases List.mem_append.mp hop with hop | hop
      · exact h.answered op hop
      · obtain ⟨hasked, hwrite, hcovered⟩ := h.acknowledges (Option.mem_toList.mp hop)
        exact ⟨hasked, hwrite, i, hcovered⟩
    refine ⟨hasked, hwrite, j, ?_⟩
    dsimp only
    by_cases hji : j = i
    · subst hji
      rw [Function.update_self]
      exact hcovered.mono hexecuted.subset
    · rw [Function.update_of_ne hji]
      exact hcovered

theorem Sound.serve (h : s.Sound) {i : Fin n} {a : Action} (hok : s.Disciplined (.serve i a)) :
    (s.serve i a).Sound := by
  obtain ⟨hwaits, hlate⟩ := hok
  unfold Service.serve
  cases hasks : (s.servers i).asks a with
  | none =>
      have hnone := h.serveKnown (i := i) (a := a) (by simp [hasks]) hlate
      simpa using hnone
  | some handler =>
      obtain ⟨hhandler, hkind⟩ := hwaits handler hasks
      have hsome := (h.ask hhandler).serveKnown (i := i) (a := a) (by simp [hasks, hkind]) hlate
      simpa using hsome

theorem Sound.start (h : s.Sound) (i : Fin n) (k : ℕ) : (s.start i k).Sound := by
  have hserve : ∀ {s : Service n} (raftIndex : Option ℤ), s.Sound →
      (s.serve i (.start k raftIndex)).Sound :=
    fun {_} _ h ↦ h.serve ⟨nofun, nofun⟩
  unfold Service.start
  split
  · rename_i handler hhandler
    split_ifs
    · dsimp only
      split
      · refine hserve _ (h.raft (fun _ hx ↦ by cases hx) rfl ?_)
        rintro j command heq
        cases heq
        exact ⟨handler.op, ((h.servers i).known k handler hhandler).1, rfl⟩
      · exact hserve none h
    · exact h
  · exact h

/-- The step lemma of the service. -/
theorem Sound.step (h : s.Sound) {a : ServiceStep n} (hok : s.Disciplined a) :
    (s.step a).Sound := by
  cases a with
  | raft a =>
      unfold Service.step
      dsimp only
      split_ifs with hserver
      · exact h
      · refine h.raft hok ?_ ?_
        · cases a with
          | snapshot => exact absurd rfl hserver
          | _ => rfl
        · rintro i command rfl
          exact absurd rfl hserver
  | start i k =>
      unfold Service.step
      dsimp only
      split_ifs
      · exact h.start i k
      · exact h
  | serve i a =>
      unfold Service.step
      dsimp only
      split_ifs
      · exact h.serve hok
      · exact h

/-- The run lemma. -/
theorem sound_run (as : List (ServiceStep n)) (hok : Runs.Along step Disciplined boot as) :
    (run as).Sound :=
  Runs.invariant_of_step_along step (P := fun _ s ↦ s.Sound) sound_boot
    (fun _ _ h hstep ↦ h.step hstep) as hok

end sound

end Service

end HttpRaftKv.Kv
