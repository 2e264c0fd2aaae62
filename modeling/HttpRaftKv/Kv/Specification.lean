import HttpRaftKv.Kv.Archive
import HttpRaftKv.Kv.ExecutedLog
import HttpRaftKv.Kv.Snapshot

/-!
# The store and its specification

By its specification the store takes a put as the new value of its key, and an append
as a continuation of the old value, which is empty if there is none.  The server runs
an append as a put, so that only the value of the last write of a key is in the store.
The two agree if an append never has anything to continue.
-/

namespace HttpRaftKv.Kv

open Raft

/-! ## The specification -/

/-- What a command should make of the values of the keys. -/
def specified (values : String → Option String) (op : Op) : String → Option String :=
  if op.operation = "Put" then
    Function.update values op.key (some op.value)
  else if op.operation = "Append" then
    Function.update values op.key (some ((values op.key).getD "" ++ op.value))
  else values

def specification (ops : List Op) : String → Option String :=
  ops.foldl specified fun _ ↦ none

/-- The requests of a client are numbered in the order of the commands. -/
def NumbersIncrease (ops : List Op) : Prop :=
  ops.Pairwise fun op op' ↦ op.clientId = op'.clientId → op.requestId < op'.requestId

instance (ops : List Op) : Decidable (NumbersIncrease ops) :=
  inferInstanceAs (Decidable (ops.Pairwise fun op op' ↦
    op.clientId = op'.clientId → op.requestId < op'.requestId))

def writesTo (key : String) (ops : List Op) : List Op :=
  ops.filter fun op ↦ op.isWrite && op.key = key

/-- If the last write of a key is an append, and only appends come between an earlier
write of the key and it, then the earlier write has written the empty text. -/
def AppendsToEmpty (ops : List Op) : Prop :=
  ∀ key us earlier vs last, writesTo key ops = us ++ earlier :: vs ++ [last] →
    last.operation = "Append" → (∀ op ∈ vs, op.operation = "Append") → earlier.value = ""

/-! ## The writes of one key -/

section texts

variable {ws : List Op} {op : Op}

/-- The value that the writes of one key should leave. -/
def appended (ws : List Op) : Option String :=
  ws.foldl (fun text op ↦
    if op.operation = "Put" then some op.value else some (text.getD "" ++ op.value)) none

theorem appended_snoc (ws : List Op) (op : Op) :
    appended (ws ++ [op]) =
      if op.operation = "Put" then some op.value
      else some ((appended ws).getD "" ++ op.value) := by
  rw [appended, List.foldl_append]
  rfl

theorem Op.isWrite_iff : op.isWrite = true ↔ op.operation = "Put" ∨ op.operation = "Append" := by
  rw [Op.isWrite, Bool.or_eq_true, decide_eq_true_eq, decide_eq_true_eq]

theorem not_put_of_append (h : op.operation = "Append") : op.operation ≠ "Put" := by
  rw [h]
  decide

/-- Only empty texts have been written since the last put. -/
def EmptySincePut (ws : List Op) : Prop :=
  ∀ us earlier vs, ws = us ++ earlier :: vs → (∀ op ∈ vs, op.operation = "Append") →
    earlier.value = ""

theorem emptySincePut_snoc :
    EmptySincePut (ws ++ [op]) ↔
      op.value = "" ∧ (op.operation = "Append" → EmptySincePut ws) := by
  constructor
  · intro h
    refine ⟨h ws op [] rfl nofun, fun happend us earlier vs hws hvs ↦ ?_⟩
    apply h us earlier (vs ++ [op])
    · rw [hws, List.append_assoc, List.cons_append]
    · intro other hother
      rcases List.mem_append.mp hother with hother | hother
      · exact hvs other hother
      · rw [List.mem_singleton.mp hother]
        exact happend
  · rintro ⟨hvalue, hold⟩ us earlier vs hws hvs
    rcases List.eq_nil_or_concat' vs with rfl | ⟨vs, last, rfl⟩
    · obtain ⟨-, heq⟩ := List.append_inj' hws rfl
      cases heq
      exact hvalue
    · rw [← List.cons_append, ← List.append_assoc] at hws
      obtain ⟨hinit, heq⟩ := List.append_inj' hws rfl
      cases heq
      apply hold (hvs op (List.mem_append_right _ (List.mem_singleton.mpr rfl))) us earlier vs hinit
      exact fun other hother ↦ hvs other (List.mem_append_left _ hother)

theorem appended_eq_empty_iff (hws : ∀ op ∈ ws, op.isWrite = true) :
    (appended ws).getD "" = "" ↔ EmptySincePut ws := by
  induction ws using List.reverseRecOn with
  | nil =>
      refine iff_of_true rfl fun us earlier vs hnil ↦ ?_
      cases us <;> cases hnil
  | append_singleton ws op ih =>
      have hold := ih fun other hother ↦ hws other (List.mem_append_left _ hother)
      have hwrite := hws op (List.mem_append_right _ (List.mem_singleton.mpr rfl))
      rw [appended_snoc, emptySincePut_snoc]
      rcases Op.isWrite_iff.mp hwrite with hput | happend
      · rw [if_pos hput, Option.getD_some]
        exact (and_iff_left fun happend ↦ absurd hput (not_put_of_append happend)).symm
      · rw [if_neg (not_put_of_append happend), Option.getD_some, String.append_eq_empty_iff, hold]
        exact ⟨fun h ↦ ⟨h.2, fun _ ↦ h.1⟩, fun h ↦ ⟨h.2 happend, h.1⟩⟩

/-- The last value is the whole text exactly if it has nothing to continue. -/
theorem last_eq_appended_iff (hws : ∀ op ∈ ws, op.isWrite = true) :
    ws.getLast?.map Op.value = appended ws ↔
      ∀ us earlier vs last, ws = us ++ earlier :: vs ++ [last] → last.operation = "Append" →
        (∀ op ∈ vs, op.operation = "Append") → earlier.value = "" := by
  rcases List.eq_nil_or_concat' ws with rfl | ⟨ws, op, rfl⟩
  · refine iff_of_true rfl fun us earlier vs last hnil ↦ ?_
    simp at hnil
  · have hold : ∀ other ∈ ws, other.isWrite = true :=
      fun other hother ↦ hws other (List.mem_append_left _ hother)
    have hwrite := hws op (List.mem_append_right _ (List.mem_singleton.mpr rfl))
    have hlast : (∀ us earlier vs last, ws ++ [op] = us ++ earlier :: vs ++ [last] →
        last.operation = "Append" → (∀ op ∈ vs, op.operation = "Append") → earlier.value = "") ↔
        (op.operation = "Append" → EmptySincePut ws) := by
      constructor
      · intro h happend us earlier vs heq hvs
        exact h us earlier vs op (by rw [heq]) happend hvs
      · intro h us earlier vs last heq happend hvs
        obtain ⟨hinit, hop⟩ := List.append_inj' heq rfl
        cases hop
        exact h happend us earlier vs hinit hvs
    rw [hlast, List.getLast?_concat, Option.map_some, appended_snoc]
    rcases Op.isWrite_iff.mp hwrite with hput | happend
    · rw [if_pos hput]
      exact iff_of_true rfl fun happend ↦ absurd hput (not_put_of_append happend)
    · rw [if_neg (not_put_of_append happend), Option.some.injEq, eq_comm,
        String.append_eq_right_iff, appended_eq_empty_iff hold]
      exact ⟨fun h _ ↦ h, fun h ↦ h happend⟩

end texts

/-! ## The values of the keys -/

/-- What the server makes of the values. -/
def written (ops : List Op) : String → Option String :=
  ops.foldl (fun values op ↦
    if op.isWrite then Function.update values op.key (some op.value) else values) fun _ ↦ none

theorem written_snoc (ops : List Op) (op : Op) :
    written (ops ++ [op]) =
      if op.isWrite then Function.update (written ops) op.key (some op.value)
      else written ops := by
  rw [written, List.foldl_append]
  rfl

theorem specification_snoc (ops : List Op) (op : Op) :
    specification (ops ++ [op]) = specified (specification ops) op := by
  rw [specification, List.foldl_append]
  rfl

theorem writesTo_snoc (key : String) (ops : List Op) (op : Op) :
    writesTo key (ops ++ [op]) =
      if op.isWrite = true ∧ op.key = key then writesTo key ops ++ [op] else writesTo key ops := by
  rw [writesTo, List.filter_append]
  split_ifs with h
  · rw [List.filter_cons_of_pos (by simp [h]), List.filter_nil]
    rfl
  · rw [List.filter_cons_of_neg (by simpa using h), List.filter_nil, List.append_nil]
    rfl

theorem written_eq (ops : List Op) (key : String) :
    written ops key = (writesTo key ops).getLast?.map Op.value := by
  induction ops using List.reverseRecOn with
  | nil => rfl
  | append_singleton ops op ih =>
      rw [written_snoc, writesTo_snoc]
      by_cases hwrite : op.isWrite = true
      · rw [if_pos hwrite]
        by_cases hkey : op.key = key
        · rw [if_pos ⟨hwrite, hkey⟩, hkey, Function.update_self, List.getLast?_concat,
            Option.map_some]
        · rw [if_neg fun h ↦ hkey h.2, Function.update_of_ne (Ne.symm hkey)]
          exact ih
      · rw [if_neg hwrite, if_neg fun h ↦ hwrite h.1]
        exact ih

theorem specification_eq (ops : List Op) (key : String) :
    specification ops key = appended (writesTo key ops) := by
  induction ops using List.reverseRecOn with
  | nil => rfl
  | append_singleton ops op ih =>
      rw [specification_snoc, writesTo_snoc, specified]
      by_cases hput : op.operation = "Put"
      · have hwrite := Op.isWrite_iff.mpr (.inl hput)
        rw [if_pos hput]
        by_cases hkey : op.key = key
        · rw [if_pos ⟨hwrite, hkey⟩, appended_snoc, if_pos hput, hkey, Function.update_self]
        · rw [if_neg fun h ↦ hkey h.2, Function.update_of_ne (Ne.symm hkey)]
          exact ih
      · rw [if_neg hput]
        by_cases happend : op.operation = "Append"
        · have hwrite := Op.isWrite_iff.mpr (.inr happend)
          rw [if_pos happend]
          by_cases hkey : op.key = key
          · rw [if_pos ⟨hwrite, hkey⟩, appended_snoc, if_neg hput, hkey, Function.update_self, ih]
          · rw [if_neg fun h ↦ hkey h.2, Function.update_of_ne (Ne.symm hkey)]
            exact ih
        · rw [if_neg happend, if_neg]
          · exact ih
          · exact fun h ↦ (Op.isWrite_iff.mp h.1).elim hput happend

theorem written_eq_specification_iff (ops : List Op) :
    (∀ key, written ops key = specification ops key) ↔ AppendsToEmpty ops := by
  refine forall_congr' fun key ↦ ?_
  rw [written_eq, specification_eq]
  apply last_eq_appended_iff
  intro op hop
  have := (List.mem_filter.mp hop).2
  rw [Bool.and_eq_true] at this
  exact this.1

/-! ## What the server does -/

namespace KvServer

section commands

variable [TextArchive Op] [TextArchive (SkipListDump String String)] [TextArchive KvSnapshot]

/-- `GetCommandFromRaft` on the data of the server.  `heads` is what the skip list draws
for a new node, and `large` tells whether a snapshot is made. -/
def getCommandFromRaft (kv : KvServer) (message : ApplyMsg) (heads : ℕ) (large : Bool) :
    Option KvServer := do
  let op ← TextArchive.load message.command
  if message.commandIndex ≤ kv.lastSnapShotRaftLogIndex then
    some kv
  else
    let kv ← (if !kv.ifRequestDuplicate op.clientId op.requestId && op.isWrite then
        kv.executeOnKVDB op heads
      else some kv)
    if large then
      kv.makeSnapShot.map Prod.snd
    else some kv

/-- The commands are processed in their order. -/
def getCommandsFromRaft (heads : ℤ → ℕ) (large : ℤ → Bool) (kv : KvServer)
    (cmds : List ApplyMsg) : Option KvServer :=
  cmds.foldlM (fun kv message ↦
    kv.getCommandFromRaft message (heads message.commandIndex) (large message.commandIndex)) kv

/-- The server after the commands. -/
structure Processed (kv : KvServer) (ops : List Op) : Prop where
  stores : kv.Stores (written ops)
  index : kv.lastSnapShotRaftLogIndex = 0
  table : ∀ clientId last, kv.lastRequestId.lookup clientId = some last →
    ∃ op ∈ ops, op.clientId = clientId ∧ op.requestId = last

variable {kv : KvServer} {ops : List Op} {op : Op}

omit [TextArchive Op] [TextArchive (SkipListDump String String)] [TextArchive KvSnapshot] in
theorem processed_create : create.Processed [] where
  stores := stores_create
  index := rfl
  table _ _ h := by simp [create] at h

omit [TextArchive Op] [TextArchive (SkipListDump String String)] [TextArchive KvSnapshot] in
theorem executeOnKVDB_eq_write (kv : KvServer) (op : Op) (heads : ℕ) :
    kv.executeOnKVDB op heads = kv.write op heads := by
  rw [executeOnKVDB]
  split_ifs
  · rfl
  · rfl

omit [TextArchive Op] [TextArchive (SkipListDump String String)] [TextArchive KvSnapshot] in
/-- A new write is executed. -/
theorem Processed.write (h : kv.Processed ops) (hwrite : op.isWrite = true) (heads : ℕ) :
    ∃ kv', kv.executeOnKVDB op heads = some kv' ∧ kv'.Processed (ops ++ [op]) := by
  obtain ⟨kv', hkv', hstores, htable, hindex⟩ := h.stores.write op heads
  refine ⟨kv', (executeOnKVDB_eq_write kv op heads).trans hkv', ?_, hindex.trans h.index, ?_⟩
  · rw [written_snoc, if_pos hwrite]
    exact hstores
  · intro clientId last hlast
    rw [htable] at hlast
    by_cases hclient : clientId = op.clientId
    · rw [hclient, AList.lookup_insert, Option.some.injEq] at hlast
      exact ⟨op, List.mem_append_right _ (List.mem_singleton.mpr rfl), hclient.symm, hlast⟩
    · rw [AList.lookup_insert_ne hclient] at hlast
      obtain ⟨other, hother, hrequest⟩ := h.table clientId last hlast
      exact ⟨other, List.mem_append_left _ hother, hrequest⟩

omit [TextArchive Op] [TextArchive (SkipListDump String String)] [TextArchive KvSnapshot] in
/-- Other commands are passed over. -/
theorem Processed.pass (h : kv.Processed ops) (hwrite : op.isWrite = false) :
    kv.Processed (ops ++ [op]) where
  stores := by
    rw [written_snoc, hwrite]
    exact h.stores
  index := h.index
  table clientId last hlast := by
    obtain ⟨other, hother, hrequest⟩ := h.table clientId last hlast
    exact ⟨other, List.mem_append_left _ hother, hrequest⟩

omit [TextArchive Op] in
/-- A snapshot leaves the store as it is. -/
theorem Processed.makeSnapShot (h : kv.Processed ops) :
    ∃ kv', kv.makeSnapShot.map Prod.snd = some kv' ∧ kv'.Processed ops := by
  obtain ⟨dumper, -, hdata⟩ := h.stores.getSnapshotData
  refine ⟨{ kv with serializedKVData := "" }, ?_, h.stores, h.index, h.table⟩
  rw [KvServer.makeSnapShot, hdata]
  rfl

/-- The step lemma: a command with a new number is processed. -/
theorem Processed.getCommandFromRaft (h : kv.Processed ops)
    (hnew : ∀ other ∈ ops, other.clientId = op.clientId → other.requestId < op.requestId)
    {message : ApplyMsg} (hop : TextArchive.load message.command = some op)
    (hindex : 0 < message.commandIndex) (heads : ℕ) (large : Bool) :
    ∃ kv', kv.getCommandFromRaft message heads large = some kv' ∧
      kv'.Processed (ops ++ [op]) := by
  have hfresh : kv.ifRequestDuplicate op.clientId op.requestId = false := by
    rw [ifRequestDuplicate_eq_false]
    intro last hlast
    obtain ⟨other, hother, hclient, hrequest⟩ := h.table op.clientId last hlast
    rw [← hrequest]
    exact hnew other hother hclient
  obtain ⟨kv₁, hkv₁, hprocessed⟩ : ∃ kv₁,
      (if (!kv.ifRequestDuplicate op.clientId op.requestId && op.isWrite) = true then
        kv.executeOnKVDB op heads else some kv) = some kv₁ ∧ kv₁.Processed (ops ++ [op]) := by
    rw [hfresh]
    cases hwrite : op.isWrite with
    | true => exact h.write hwrite heads
    | false => exact ⟨kv, rfl, h.pass hwrite⟩
  rw [KvServer.getCommandFromRaft, hop, Option.bind_eq_bind, Option.bind_some,
    if_neg (not_le.mpr (h.index ▸ hindex)), hkv₁, Option.bind_eq_bind, Option.bind_some]
  cases large with
  | true => exact hprocessed.makeSnapShot
  | false => exact ⟨kv₁, rfl, hprocessed⟩

/-- The loop of a server does with a message what `GetCommandFromRaft` does. -/
theorem kv_turn {s : Server} {cmds : List ApplyMsg} {message : ApplyMsg} {kv' : KvServer}
    (hruns : s.terminated = false) (hidle : s.loop = .idle)
    (hmessage : cmds[s.popped]? = some message) (hvalid : message.commandValid = true)
    {heads : ℕ} {large : Bool} (hkv' : s.kv.getCommandFromRaft message heads large = some kv') :
    (Runs.run (Server.step cmds) s [.pop, .check, .execute heads, .compact large]).kv = kv' := by
  obtain ⟨op, hop, hrest⟩ := Option.bind_eq_some_iff.mp hkv'
  simp only [Runs.run, List.foldl_cons, List.foldl_nil]
  have hpop : s.step cmds .pop =
      { s with loop := .received message op, popped := s.popped + 1 } := by
    simp [Server.step, Server.next, Server.pop, hruns, hidle, hmessage, hvalid, hop]
  rw [hpop]
  by_cases hindex : message.commandIndex ≤ s.kv.lastSnapShotRaftLogIndex
  · rw [if_pos hindex] at hrest
    cases hrest
    by_cases hsnapshot : message.snapshotValid = true
    · simp [Server.step, Server.next, Server.check, Server.execute, Server.compact, hruns,
        hindex, Server.afterCommand, hsnapshot]
    · simp [Server.step, Server.next, Server.check, Server.execute, Server.compact, hruns,
        hindex, Server.afterCommand, hsnapshot]
  · rw [if_neg hindex] at hrest
    obtain ⟨kv₁, hkv₁, hlarge⟩ := Option.bind_eq_some_iff.mp hrest
    have hcompact : ∀ s₁ : Server, s₁.terminated = false →
        s₁.loop = .compacting message op → s₁.kv = kv₁ → (s₁.step cmds (.compact large)).kv = kv' := by
      intro s₁ hruns₁ hloop₁ hs₁
      cases large with
      | false =>
          cases hlarge
          simp [Server.step, Server.next, Server.compact, hruns₁, hloop₁, hs₁]
      | true =>
          obtain ⟨⟨data, kv₂⟩, hsnap, heq⟩ := Option.map_eq_some_iff.mp hlarge
          cases heq
          simp [Server.step, Server.next, Server.compact, hruns₁, hloop₁, hs₁, hsnap]
    split_ifs at hkv₁ with hnew
    · apply hcompact <;>
        simp [Server.step, Server.next, Server.check, Server.execute, hruns, hindex, hnew, hkv₁]
    · cases hkv₁
      apply hcompact <;>
        simp [Server.step, Server.next, Server.check, Server.execute, hruns, hindex, hnew]

variable [LawfulTextArchive Op]

/-- The run lemma. -/
theorem processed_getCommandsFromRaft (hops : NumbersIncrease ops) (heads : ℤ → ℕ)
    (large : ℤ → Bool) :
    ∃ kv, getCommandsFromRaft heads large create (messages ops) = some kv ∧ kv.Processed ops := by
  induction ops using List.reverseRecOn with
  | nil => exact ⟨create, rfl, processed_create⟩
  | append_singleton ops op ih =>
      obtain ⟨hold, -, hnew⟩ := List.pairwise_append.mp hops
      obtain ⟨kv, hkv, hprocessed⟩ := ih hold
      rw [getCommandsFromRaft] at hkv
      rw [getCommandsFromRaft, messages, List.mapIdx_concat, ← messages, List.foldlM_append, hkv,
        Option.bind_eq_bind, Option.bind_some, List.foldlM_cons]
      have hop : TextArchive.load (delivered ops.length op).command = some op :=
        LawfulTextArchive.load_save op
      have hindex : 0 < (delivered ops.length op).commandIndex := by
        dsimp only [delivered]
        omega
      obtain ⟨kv', hkv', hprocessed'⟩ := hprocessed.getCommandFromRaft
        (fun other hother ↦ hnew other hother op (List.mem_singleton.mpr rfl)) hop hindex
        (heads (delivered ops.length op).commandIndex)
        (large (delivered ops.length op).commandIndex)
      refine ⟨kv', ?_, hprocessed'⟩
      rw [hkv']
      rfl

/-- The server processes every sequence of commands whose requests are numbered in order,
and then it has for every key the value of the specification exactly if the last write of
no key is an append that has something to continue. -/
theorem store_meets_specification_iff (hops : NumbersIncrease ops) (heads : ℤ → ℕ)
    (large : ℤ → Bool) :
    ∃ kv, getCommandsFromRaft heads large create (messages ops) = some kv ∧
      ((∀ key, kv.skipList.searchElement key = some (specification ops key)) ↔
        AppendsToEmpty ops) := by
  obtain ⟨kv, hkv, hprocessed⟩ := processed_getCommandsFromRaft hops heads large
  refine ⟨kv, hkv, ?_⟩
  rw [← written_eq_specification_iff]
  refine forall_congr' fun key ↦ ?_
  rw [SkipList.Holds.searchElement hprocessed.stores, Option.some.injEq]

end commands

section concrete

open scoped Archive

def putThenAppend : List Op :=
  [⟨"Put", "k", "a", "c", 1⟩, ⟨"Append", "k", "b", "c", 2⟩]

/-- The append overwrites the value that it should continue. -/
theorem append_overwrites_in_putThenAppend :
    NumbersIncrease putThenAppend ∧ specification putThenAppend "k" = some "ab" ∧
      ¬ ∃ kv, getCommandsFromRaft (fun _ ↦ 0) (fun _ ↦ false) create (messages putThenAppend) =
          some kv ∧
        ∀ key, kv.skipList.searchElement key = some (specification putThenAppend key) := by
  have hspec : specification putThenAppend "k" = some "ab" := by decide +kernel
  refine ⟨by decide +kernel, hspec, ?_⟩
  rintro ⟨kv, hkv, hsearch⟩
  have hvalue : (getCommandsFromRaft (fun _ ↦ 0) (fun _ ↦ false) create
      (messages putThenAppend)).bind (fun kv ↦ kv.skipList.searchElement "k") = some (some "b") := by
    decide +kernel
  rw [hkv, Option.bind_some, hsearch "k", hspec] at hvalue
  revert hvalue
  decide

/-- The append comes to a key with the empty text, behind the commands of another key. -/
def appendFirst : List Op :=
  [⟨"Put", "k", "", "c", 1⟩, ⟨"Put", "m", "w", "d", 1⟩, ⟨"Get", "m", "", "c", 2⟩,
    ⟨"Append", "k", "b", "c", 3⟩]

theorem store_meets_specification_in_appendFirst :
    ∃ kv, getCommandsFromRaft (fun _ ↦ 0) (fun _ ↦ true) create (messages appendFirst) = some kv ∧
      ∀ key, kv.skipList.searchElement key = some (specification appendFirst key) := by
  have hops : NumbersIncrease appendFirst := by decide +kernel
  obtain ⟨kv, hkv, hiff⟩ := store_meets_specification_iff hops (fun _ ↦ 0) fun _ ↦ true
  refine ⟨kv, hkv, hiff.mpr ?_⟩
  apply (written_eq_specification_iff appendFirst).mp
  intro key
  simp [written, specification, specified, appendFirst, Op.isWrite]

end concrete

end KvServer

end HttpRaftKv.Kv
