import HttpRaftKv.Kv.Archive
import HttpRaftKv.Lib.Runs
import HttpRaftKv.Storage.SkipListMap

/-!
# Snapshots of a server

A snapshot carries the table of a server and the keys of its store.  The values
are in the snapshot too, but `load_file` inserts every key as its own value, and
it inserts into the store that is there: a key of the old store stays, with its
old value.
-/

namespace HttpRaftKv.Kv

open Raft

/-- What changes the data of a server.  `delete` stands for `delete_element` of
the skip list. -/
inductive Change
  | put (op : Op) (heads : ℕ)
  | append (op : Op) (heads : ℕ)
  | get (op : Op)
  | delete (key : String)
  | install (message : ApplyMsg) (heads : ℕ → ℕ)

namespace KvServer

/-- The store holds the pairs of `m`. -/
def Stores (kv : KvServer) (m : String → Option String) : Prop :=
  kv.skipList.Holds m

theorem stores_create : create.Stores fun _ ↦ none :=
  SkipList.holds_create 6

variable {kv kv' : KvServer} {m m' : String → Option String}

theorem Stores.write (h : kv.Stores m) (op : Op) (heads : ℕ) :
    ∃ kv', kv.write op heads = some kv' ∧
      kv'.Stores (Function.update m op.key (some op.value)) ∧
      kv'.lastRequestId = kv.lastRequestId.insert op.clientId op.requestId ∧
      kv'.lastSnapShotRaftLogIndex = kv.lastSnapShotRaftLogIndex := by
  obtain ⟨s, hset, hholds⟩ := h.insertSetElement op.key op.value heads
  refine ⟨record { kv with skipList := s } op, ?_, hholds, rfl, rfl⟩
  simp [KvServer.write, hset]

theorem Stores.executeGetOpOnKVDB (h : kv.Stores m) (op : Op) :
    kv.executeGetOpOnKVDB op = some (m op.key, kv.record op) := by
  have hsearch := SkipList.Holds.searchElement h op.key
  simp [KvServer.executeGetOpOnKVDB, hsearch]

section snapshots

variable [TextArchive (SkipListDump String String)] [TextArchive KvSnapshot]

theorem Stores.getSnapshotData (h : kv.Stores m) :
    ∃ dumper : SkipListDump String String, (∀ key, key ∈ dumper.keyDumpVt ↔ (m key).isSome) ∧
      kv.getSnapshotData = some (TextArchive.save
        (KvSnapshot.mk (TextArchive.save dumper) kv.lastRequestId),
          { kv with serializedKVData := "" }) := by
  obtain ⟨dumper, hdump, hkeys⟩ := SkipList.Holds.dumpFile h
  exact ⟨dumper, hkeys, by simp [KvServer.getSnapshotData, hdump]⟩

/-- Whatever text is parsed, the store remains a map. -/
theorem Stores.of_parseFromString {str : String} {heads : ℕ → ℕ} (h : kv.Stores m)
    (hparse : kv.parseFromString str heads = some kv') : ∃ m', kv'.Stores m' := by
  obtain ⟨snapshot, -, hrest⟩ := Option.bind_eq_some_iff.mp hparse
  obtain ⟨s, hload, heq⟩ := Option.bind_eq_some_iff.mp hrest
  cases heq
  exact SkipList.Holds.of_loadFile heads h hload

theorem Stores.of_getSnapShotFromRaft {message : ApplyMsg} {heads : ℕ → ℕ} (h : kv.Stores m)
    (hinstall : kv.getSnapShotFromRaft message heads = some kv') : ∃ m', kv'.Stores m' := by
  simp only [getSnapShotFromRaft, condInstallSnapshot, if_true] at hinstall
  obtain ⟨kv₁, hread, heq⟩ := Option.bind_eq_some_iff.mp hinstall
  cases heq
  unfold readSnapShotToInstall at hread
  split_ifs at hread
  · cases hread
    exact ⟨m, h⟩
  · obtain ⟨m', hm'⟩ := h.of_parseFromString hread
    exact ⟨m', hm'⟩

variable [LawfulTextArchive (SkipListDump String String)] [LawfulTextArchive KvSnapshot]

/-- A parsed snapshot brings its table and adds its keys to the store. -/
theorem Stores.parseFromString (h : kv.Stores m) (dumper : SkipListDump String String)
    (table : LastRequestId) (heads : ℕ → ℕ) :
    ∃ kv', kv.parseFromString (TextArchive.save (KvSnapshot.mk (TextArchive.save dumper) table))
        heads = some kv' ∧
      kv'.Stores (SkipList.withKeys m dumper.keyDumpVt) ∧ kv'.lastRequestId = table := by
  obtain ⟨s, hload, hholds⟩ := SkipList.Holds.loadFile dumper heads h
  refine ⟨{ kv with serializedKVData := "", lastRequestId := table, skipList := s }, ?_, hholds,
    rfl⟩
  simp [KvServer.parseFromString, hload]

end snapshots

/-! ## Runs -/

section runs

variable [TextArchive (SkipListDump String String)] [TextArchive KvSnapshot]

def next (kv : KvServer) : Change → Option KvServer
  | .put op heads => kv.executePutOpOnKVDB op heads
  | .append op heads => kv.executeAppendOpOnKVDB op heads
  | .get op => (kv.executeGetOpOnKVDB op).map Prod.snd
  | .delete key => (kv.skipList.deleteElement key).map fun s ↦ { kv with skipList := s }
  | .install message heads => kv.getSnapShotFromRaft message heads

/-- A change that fails ends the process, and the data stay as they are. -/
def step (kv : KvServer) (a : Change) : KvServer :=
  (kv.next a).getD kv

def run (as : List Change) : KvServer :=
  Runs.run step create as

theorem Stores.next (h : kv.Stores m) {a : Change} (hnext : kv.next a = some kv') :
    ∃ m', kv'.Stores m' := by
  cases a with
  | put op heads =>
      obtain ⟨kv₁, hwrite, hstores, -⟩ := h.write op heads
      exact ⟨_, Option.some.inj (hnext.symm.trans hwrite) ▸ hstores⟩
  | append op heads =>
      obtain ⟨kv₁, hwrite, hstores, -⟩ := h.write op heads
      exact ⟨_, Option.some.inj (hnext.symm.trans hwrite) ▸ hstores⟩
  | get op =>
      simp only [KvServer.next, h.executeGetOpOnKVDB, Option.map_some, Option.some.injEq] at hnext
      exact ⟨m, hnext ▸ h⟩
  | delete key =>
      obtain ⟨s, hdelete, hholds⟩ := SkipList.Holds.deleteElement h key
      simp only [KvServer.next, hdelete, Option.map_some] at hnext
      cases hnext
      exact ⟨_, hholds⟩
  | install message heads => exact h.of_getSnapShotFromRaft hnext

theorem Stores.step (h : kv.Stores m) (a : Change) : ∃ m', (kv.step a).Stores m' := by
  unfold KvServer.step
  cases hnext : kv.next a with
  | none => exact ⟨m, h⟩
  | some kv' => exact h.next hnext

/-- The store of every reachable server is a map. -/
theorem stores_run (as : List Change) : ∃ m, (run as).Stores m := by
  refine Runs.invariant_of_step step (P := fun _ kv ↦ ∃ m, kv.Stores m) ⟨_, stores_create⟩ ?_ as
  rintro as a ⟨m, hm⟩
  exact hm.step a

end runs

/-! ## Loading and installing -/

section install

/-- The store finds the value under the key. -/
def Finds (kv : KvServer) (key value : String) : Prop :=
  kv.skipList.searchElement key = some (some value)

theorem Stores.finds_iff (h : kv.Stores m) {key value : String} :
    kv.Finds key value ↔ m key = some value := by
  rw [Finds, SkipList.Holds.searchElement h, Option.some.injEq]

variable [TextArchive (SkipListDump String String)] [TextArchive KvSnapshot]

/-- A fresh server that loads the snapshot has the same store and the same
table. -/
def RoundTrips (kv : KvServer) (heads : ℕ → ℕ) : Prop :=
  ∃ data kv₁ kv', kv.getSnapshotData = some (data, kv₁) ∧
    create.parseFromString data heads = some kv' ∧
    (∀ key, kv'.skipList.searchElement key = kv.skipList.searchElement key) ∧
    kv'.lastRequestId = kv.lastRequestId

/-- An installed snapshot of another server replaces the store: its keys are
those of the snapshot, and no old value survives under a key that the snapshot
gives another value. -/
def ReplacedBy (kv other : KvServer) (message : ApplyMsg) (heads : ℕ → ℕ) : Prop :=
  ∃ kv', kv.getSnapShotFromRaft message heads = some kv' ∧
    (∀ key, (∃ value, kv'.Finds key value) ↔ ∃ value, other.Finds key value) ∧
    ∀ key old new, kv.Finds key old → other.Finds key new → old ≠ new → ¬ kv'.Finds key old

variable [LawfulTextArchive (SkipListDump String String)] [LawfulTextArchive KvSnapshot]

/-- What a fresh server finds after it has loaded a snapshot: every key under
itself. -/
theorem Stores.load_fresh (h : kv.Stores m) (heads : ℕ → ℕ) :
    ∃ data kv₁ kv', kv.getSnapshotData = some (data, kv₁) ∧
      create.parseFromString data heads = some kv' ∧
      (kv'.Stores fun key ↦ if (m key).isSome then some key else none) ∧
      kv'.lastRequestId = kv.lastRequestId := by
  obtain ⟨dumper, hkeys, hdata⟩ := h.getSnapshotData
  obtain ⟨kv', hparse, hstores, htable⟩ :=
    stores_create.parseFromString dumper kv.lastRequestId heads
  refine ⟨_, _, kv', hdata, hparse, ?_, htable⟩
  have hmap : SkipList.withKeys (fun _ ↦ none) dumper.keyDumpVt =
      fun key ↦ if (m key).isSome then some key else none := by
    funext key
    simp [SkipList.withKeys, hkeys]
  rwa [hmap] at hstores

/-- A snapshot of a reachable server round-trips exactly if every stored value
is its own key. -/
theorem snapshot_roundTrips_iff (as : List Change) (heads : ℕ → ℕ) :
    (run as).RoundTrips heads ↔ ∀ key value, (run as).Finds key value → value = key := by
  obtain ⟨m, hm⟩ := stores_run as
  obtain ⟨data, kv₁, kv', hdata, hparse, hstores, htable⟩ := hm.load_fresh heads
  have hsame : (∀ key, kv'.skipList.searchElement key = (run as).skipList.searchElement key) ↔
      ∀ key value, m key = some value → value = key := by
    simp only [SkipList.Holds.searchElement hstores, SkipList.Holds.searchElement hm,
      Option.some.injEq]
    refine forall_congr' fun key ↦ ?_
    cases hkey : m key with
    | none => simp
    | some value => simp [eq_comm]
  simp only [hm.finds_iff, ← hsame]
  constructor
  · rintro ⟨data', kv₁', kv'', hdata', hparse', hsearch, -⟩
    rw [hdata] at hdata'
    cases hdata'
    rw [hparse] at hparse'
    cases hparse'
    exact hsearch
  · exact fun hsearch ↦ ⟨data, kv₁, kv', hdata, hparse, hsearch, htable⟩

/-- What a server finds after it has installed a snapshot: what it has found
before, and every key of the snapshot that is new under itself. -/
theorem Stores.install {other : KvServer} {message : ApplyMsg} (h : kv.Stores m)
    (hother : other.Stores m')
    (hmessage : ∃ kv₁, other.getSnapshotData = some (message.snapshot, kv₁)) (heads : ℕ → ℕ) :
    ∃ kv', kv.getSnapShotFromRaft message heads = some kv' ∧
      kv'.Stores fun key ↦ (m key).or (if (m' key).isSome then some key else none) := by
  obtain ⟨dumper, hkeys, hdata⟩ := hother.getSnapshotData
  obtain ⟨kv₁, hsnapshot⟩ := hmessage
  rw [hdata] at hsnapshot
  have hsave : TextArchive.save (KvSnapshot.mk (TextArchive.save dumper) other.lastRequestId) =
      message.snapshot := congrArg Prod.fst (Option.some.inj hsnapshot)
  obtain ⟨kv', hparse, hstores, -⟩ := h.parseFromString dumper other.lastRequestId heads
  refine ⟨{ kv' with lastSnapShotRaftLogIndex := message.snapshotIndex }, ?_, ?_⟩
  · simp [getSnapShotFromRaft, condInstallSnapshot, readSnapShotToInstall, ← hsave, hparse]
  · have hmap : SkipList.withKeys m dumper.keyDumpVt =
        fun key ↦ (m key).or (if (m' key).isSome then some key else none) := by
      funext key
      simp [SkipList.withKeys, hkeys]
    rwa [hmap] at hstores

/-- An installed snapshot replaces the store exactly if the snapshot has every
pair of the old store. -/
theorem snapshot_replaces_iff (as bs : List Change) (message : ApplyMsg) (heads : ℕ → ℕ)
    (hmessage : ∃ kv₁, (run bs).getSnapshotData = some (message.snapshot, kv₁)) :
    (run as).ReplacedBy (run bs) message heads ↔
      ∀ key value, (run as).Finds key value → (run bs).Finds key value := by
  obtain ⟨m, hm⟩ := stores_run as
  obtain ⟨m', hm'⟩ := stores_run bs
  obtain ⟨kv', hinstall, hstores⟩ := hm.install hm' hmessage heads
  simp only [ReplacedBy, hm.finds_iff, hm'.finds_iff]
  constructor
  · rintro ⟨kv'', hinstall', hkeys, hvalues⟩ key value hkey
    rw [hinstall] at hinstall'
    cases hinstall'
    have hfinds : kv'.Finds key value := hstores.finds_iff.mpr (by simp [hkey])
    obtain ⟨new, hnew⟩ := (hkeys key).mp ⟨value, hfinds⟩
    by_contra hne
    exact hvalues key value new hkey hnew (fun heq ↦ hne (heq ▸ hnew)) hfinds
  · intro hsub
    refine ⟨kv', hinstall, fun key ↦ ?_, fun key old new hold hnew hne ↦ ?_⟩
    · simp only [hstores.finds_iff]
      cases hkey : m key with
      | none => cases hkey' : m' key <;> simp
      | some value => simp [hsub key value hkey]
    · rw [hsub key old hold] at hnew
      exact absurd (Option.some.inj hnew) hne

end install

section concrete

open scoped Archive

/-- One key is put as its own value. -/
theorem snapshot_roundTrips_of_own_value :
    (run [.put ⟨"Put", "k", "k", "c", 1⟩ 0]).RoundTrips fun _ ↦ 0 := by
  refine (snapshot_roundTrips_iff _ _).mpr fun key value hfinds ↦ ?_
  obtain ⟨kv, hwrite, hstores, -⟩ := stores_create.write ⟨"Put", "k", "k", "c", 1⟩ 0
  have hrun : run [.put ⟨"Put", "k", "k", "c", 1⟩ 0] = kv := by
    simp [run, Runs.run, step, next, executePutOpOnKVDB, hwrite]
  rw [hrun, hstores.finds_iff, Function.update_apply] at hfinds
  split_ifs at hfinds with hkey
  rw [hkey]
  exact (Option.some.inj hfinds).symm

/-- The value `v` of the key `k` is lost: the loaded store has `k` under `k`. -/
theorem snapshot_not_roundTrips :
    ¬ (run [.put ⟨"Put", "k", "v", "c", 1⟩ 0]).RoundTrips fun _ ↦ 0 := by
  rintro ⟨data, kv₁, kv', hdata, hparse, hsearch, -⟩
  have hloaded : ((run [.put ⟨"Put", "k", "v", "c", 1⟩ 0]).getSnapshotData.bind fun p ↦
      (create.parseFromString p.1 fun _ ↦ 0).bind fun kv ↦ kv.skipList.searchElement "k") =
        some (some "k") := by decide +kernel
  have hstored : (run [.put ⟨"Put", "k", "v", "c", 1⟩ 0]).skipList.searchElement "k" =
      some (some "v") := by decide +kernel
  rw [hdata, Option.bind_some, hparse, Option.bind_some, hsearch, hstored] at hloaded
  exact absurd hloaded (by decide)

def oldStore : List Change :=
  [.put ⟨"Put", "a", "1", "c", 1⟩ 0, .put ⟨"Put", "b", "2", "c", 2⟩ 1]

def newStore : List Change :=
  [.put ⟨"Put", "b", "3", "d", 1⟩ 2]

def snapshotOf (kv : KvServer) : ApplyMsg where
  snapshotValid := true
  snapshot := (kv.getSnapshotData.map Prod.fst).getD ""
  snapshotTerm := 1
  snapshotIndex := 5

/-- A server that is behind, with a store that the snapshot contains, installs it. -/
theorem snapshot_replaces_contained_store :
    (run newStore).ReplacedBy (run (newStore ++ [.put ⟨"Put", "a", "4", "d", 2⟩ 0]))
      (snapshotOf (run (newStore ++ [.put ⟨"Put", "a", "4", "d", 2⟩ 0]))) fun _ ↦ 0 := by
  refine (snapshot_replaces_iff newStore _ _ _ ?_).mpr fun key value hfinds ↦ ?_
  · obtain ⟨m, hm⟩ := stores_run (newStore ++ [.put ⟨"Put", "a", "4", "d", 2⟩ 0])
    obtain ⟨dumper, -, hdata⟩ := hm.getSnapshotData
    exact ⟨_, by rw [snapshotOf, hdata]; rfl⟩
  · obtain ⟨kv, hwrite, hstores, -⟩ := stores_create.write ⟨"Put", "b", "3", "d", 1⟩ 2
    have hrun : run newStore = kv := by
      simp [newStore, run, Runs.run, step, next, executePutOpOnKVDB, hwrite]
    rw [hrun, hstores.finds_iff, Function.update_apply] at hfinds
    split_ifs at hfinds with hkey
    rw [hkey, ← Option.some.inj hfinds]
    have hsearch : (run (newStore ++ [.put ⟨"Put", "a", "4", "d", 2⟩ 0])).skipList.searchElement
        "b" = some (some "3") := by decide +kernel
    exact hsearch

/-- The key `a` survives, and so does the old value of `b`. -/
theorem snapshot_not_replaces :
    (∃ kv₁, (run newStore).getSnapshotData = some ((snapshotOf (run newStore)).snapshot, kv₁)) ∧
      ¬ (run oldStore).ReplacedBy (run newStore) (snapshotOf (run newStore)) fun _ ↦ 0 := by
  constructor
  · obtain ⟨m, hm⟩ := stores_run newStore
    obtain ⟨dumper, -, hdata⟩ := hm.getSnapshotData
    exact ⟨_, by rw [snapshotOf, hdata]; rfl⟩
  · rintro ⟨kv', hinstall, hkeys, -⟩
    have hold : (((run oldStore).getSnapShotFromRaft (snapshotOf (run newStore)) fun _ ↦ 0).bind
        fun kv ↦ kv.skipList.searchElement "a") = some (some "1") := by decide +kernel
    have hnew : (run newStore).skipList.searchElement "a" = some none := by decide +kernel
    rw [hinstall, Option.bind_some] at hold
    obtain ⟨value, hvalue⟩ := (hkeys "a").mp ⟨"1", hold⟩
    rw [Finds, hnew] at hvalue
    cases hvalue

end concrete

end KvServer

end HttpRaftKv.Kv
