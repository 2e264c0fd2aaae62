import HttpRaftKv.Kv.AtMostOnce
import HttpRaftKv.Kv.Snapshot

/-!
# Replicas agree

The state machine that the servers replicate takes one command after the other.
A server follows it as long as no handler changes the table: then its store and
its table are those of the machine whenever its loop is idle, and two servers
that have taken the same messages agree.  A `Get` handler enters its request in
the table of the one server that serves it, so the next command may be executed
on one server and skipped on another.
-/

namespace HttpRaftKv.Kv

open Raft

/-- What the servers replicate: the values of the keys, and the last request of
every client. -/
structure Machine where
  values : String → Option String
  last : String → Option ℤ

namespace Machine

def init : Machine where
  values := fun _ ↦ none
  last := fun _ ↦ none

def write (m : Machine) (op : Op) : Machine where
  values := Function.update m.values op.key (some op.value)
  last := Function.update m.last op.clientId (some op.requestId)

/-- The client has made no such request, and no later one. -/
def Fresh (m : Machine) (op : Op) : Prop :=
  ∀ last, m.last op.clientId = some last → last < op.requestId

open Classical in
/-- Only a new write changes the machine. -/
noncomputable def apply [TextArchive Op] (m : Machine) (message : ApplyMsg) : Machine :=
  match TextArchive.load message.command with
  | none => m
  | some op =>
      if message.commandValid = true ∧ 0 < message.commandIndex ∧ op.isWrite = true ∧ m.Fresh op then
        m.write op
      else
        m

variable [TextArchive Op] {m : Machine} {message : ApplyMsg} {op : Op}

theorem apply_write (hop : TextArchive.load message.command = some op)
    (hvalid : message.commandValid = true) (hindex : 0 < message.commandIndex)
    (hwrite : op.isWrite = true) (hfresh : m.Fresh op) : m.apply message = m.write op := by
  simp [apply, hop, hvalid, hindex, hwrite, hfresh]

theorem apply_skip (hop : TextArchive.load message.command = some op)
    (hskip : message.commandIndex ≤ 0 ∨ ¬ m.Fresh op ∨ op.isWrite = false) :
    m.apply message = m := by
  simp only [apply, hop]
  refine if_neg fun hall ↦ ?_
  rcases hskip with hindex | hold | hread
  · exact absurd hall.2.1 (not_lt.mpr hindex)
  · exact hold hall.2.2.2
  · exact absurd hall.2.2.1 (by simp [hread])

theorem apply_invalid (hvalid : message.commandValid = false) : m.apply message = m := by
  unfold apply
  split
  · rfl
  · exact if_neg fun hall ↦ absurd hall.1 (by simp [hvalid])

/-- The machine after the first `k` messages. -/
noncomputable def after (cmds : List ApplyMsg) (k : ℕ) : Machine :=
  (cmds.take k).foldl apply init

theorem after_succ {cmds : List ApplyMsg} {k : ℕ} (h : cmds[k]? = some message) :
    after cmds (k + 1) = (after cmds k).apply message := by
  rw [after, List.take_add_one, h, Option.toList_some, List.foldl_append]
  rfl

end Machine

namespace KvServer

/-- The server is in the state of the machine. -/
structure Is (kv : KvServer) (m : Machine) : Prop where
  stores : kv.Stores m.values
  last : ∀ clientId, kv.lastRequestId.lookup clientId = m.last clientId
  index : kv.lastSnapShotRaftLogIndex = 0

/-- The same, up to the entry of one client. -/
structure IsBut (client : String) (kv : KvServer) (m : Machine) : Prop where
  stores : kv.Stores m.values
  last : ∀ clientId, clientId ≠ client → kv.lastRequestId.lookup clientId = m.last clientId
  index : kv.lastSnapShotRaftLogIndex = 0

variable {kv kv' : KvServer} {m : Machine} {op : Op}

theorem is_create : create.Is .init :=
  ⟨stores_create, fun _ ↦ rfl, rfl⟩

theorem Is.fresh_iff (h : kv.Is m) :
    kv.ifRequestDuplicate op.clientId op.requestId = false ↔ m.Fresh op := by
  rw [ifRequestDuplicate_eq_false, h.last, Machine.Fresh]

theorem IsBut.write (h : kv.IsBut op.clientId m) {heads : ℕ}
    (hwrite : kv.write op heads = some kv') : kv'.Is (m.write op) := by
  obtain ⟨kv₁, hwrite₁, hstores, htable, hindex⟩ := h.stores.write op heads
  rw [hwrite] at hwrite₁
  cases hwrite₁
  refine ⟨hstores, fun clientId ↦ ?_, hindex.trans h.index⟩
  rw [htable]
  by_cases heq : clientId = op.clientId
  · subst heq
    rw [AList.lookup_insert]
    simp [Machine.write]
  · rw [AList.lookup_insert_ne heq, h.last clientId heq]
    simp [Machine.write, heq]

/-- A request that is in the table already is entered again. -/
theorem lookup_record (h : kv.lastRequestId.lookup op.clientId = some op.requestId)
    (clientId : String) :
    (kv.record op).lastRequestId.lookup clientId = kv.lastRequestId.lookup clientId := by
  by_cases heq : clientId = op.clientId
  · rw [heq, h]
    exact AList.lookup_insert kv.lastRequestId
  · exact AList.lookup_insert_ne heq

end KvServer

namespace Server

/-- A handler that enters a request in the table finds it there already, or the
loop is about to overwrite the entry. -/
def GetsRecorded (s : Server) (a : Action) : Prop :=
  ∀ op ∈ s.reads a, s.kv.lastRequestId.lookup op.clientId = some op.requestId ∨
    ∃ op' ∈ s.loop.pending, op'.clientId = op.clientId

instance (s : Server) (a : Action) : Decidable (s.GetsRecorded a) :=
  inferInstanceAs (Decidable (∀ op ∈ s.reads a,
    s.kv.lastRequestId.lookup op.clientId = some op.requestId ∨
      ∃ op' ∈ s.loop.pending, op'.clientId = op.clientId))

section steps

variable [TextArchive Op]

/-- The server follows the machine through the messages: `k` have been taken,
and the loop stands where it stands in the last one. -/
def Tracks (cmds : List ApplyMsg) (kv : KvServer) (k : ℕ) : LoopState → Prop
  | .received message op => ∃ j, k = j + 1 ∧ cmds[j]? = some message ∧
      message.commandValid = true ∧ TextArchive.load message.command = some op ∧
      kv.Is (.after cmds j)
  | .executing _ op => ∃ j, Machine.after cmds k = (Machine.after cmds j).write op ∧
      kv.IsBut op.clientId (.after cmds j)
  | _ => kv.Is (.after cmds k)

variable [TextArchive (SkipListDump String String)] [TextArchive KvSnapshot]
  {cmds : List ApplyMsg} {s : Server} {a : Action} {kv kv' : KvServer} {loop : LoopState}
  {popped : ℕ} {executed : List Op}

omit [TextArchive (SkipListDump String String)] [TextArchive KvSnapshot] in
/-- Only the store, the entries of the table and the index of the last snapshot
matter. -/
theorem Tracks.congr {k : ℕ} (h : Tracks cmds kv k loop) (hlist : kv'.skipList = kv.skipList)
    (hlast : ∀ clientId, kv'.lastRequestId.lookup clientId = kv.lastRequestId.lookup clientId)
    (hindex : kv'.lastSnapShotRaftLogIndex = kv.lastSnapShotRaftLogIndex) :
    Tracks cmds kv' k loop := by
  have his : ∀ {m : Machine}, kv.Is m → kv'.Is m := by
    intro m hm
    refine ⟨?_, fun clientId ↦ (hlast clientId).trans (hm.last clientId), hindex.trans hm.index⟩
    rw [KvServer.Stores, hlist]
    exact hm.stores
  cases loop with
  | received message op =>
      obtain ⟨j, hk, hmessage, hvalid, hop, hm⟩ := h
      exact ⟨j, hk, hmessage, hvalid, hop, his hm⟩
  | executing message op =>
      obtain ⟨j, hafter, hm⟩ := h
      refine ⟨j, hafter, ?_, ?_, hindex.trans hm.index⟩
      · rw [KvServer.Stores, hlist]
        exact hm.stores
      · exact fun clientId hne ↦ (hlast clientId).trans (hm.last clientId hne)
  | idle => exact his h
  | compacting message op => exact his h
  | sending message op => exact his h
  | installing message => exact his h

omit [TextArchive (SkipListDump String String)] [TextArchive KvSnapshot] in
/-- What a handler enters is there already, or will be overwritten. -/
theorem Tracks.record {k : ℕ} {op : Op} (h : Tracks cmds kv k loop)
    (hok : kv.lastRequestId.lookup op.clientId = some op.requestId ∨
      ∃ op' ∈ loop.pending, op'.clientId = op.clientId) : Tracks cmds (kv.record op) k loop := by
  rcases hok with hlast | ⟨op', hpending, hclient⟩
  · exact h.congr rfl (KvServer.lookup_record hlast) rfl
  · cases loop with
    | executing message op'' =>
        cases Option.some.inj hpending
        obtain ⟨j, hafter, hm⟩ := h
        refine ⟨j, hafter, hm.stores, fun clientId hne ↦ ?_, hm.index⟩
        rw [← hm.last clientId hne]
        exact AList.lookup_insert_ne fun heq ↦ hne (heq.trans hclient.symm)
    | _ => cases hpending

theorem Effect.tracks (hcmds : ∀ message ∈ cmds, message.snapshotValid = false)
    (hclean : s.loop.Clean) (h : Tracks cmds s.kv s.popped s.loop) (hok : s.GetsRecorded a)
    (heffect : Effect cmds s a kv loop popped executed) : Tracks cmds kv popped loop := by
  cases heffect with
  | same => exact h
  | popped message op hloop hmessage hvalid hop =>
      rw [hloop] at h
      exact ⟨s.popped, rfl, hmessage, hvalid, hop, h⟩
  | passed message hloop hmessage hvalid =>
      rw [hloop] at h
      rw [afterCommand_eq_idle (hcmds message (List.mem_of_getElem? hmessage))]
      change s.kv.Is _
      rw [Machine.after_succ hmessage, Machine.apply_invalid hvalid]
      exact h
  | covered message op hloop hindex =>
      rw [hloop] at h hclean
      obtain ⟨j, hk, hmessage, -, hop, hm⟩ := h
      rw [afterCommand_eq_idle hclean]
      change s.kv.Is _
      rw [hk, Machine.after_succ hmessage, Machine.apply_skip hop (.inl (hm.index ▸ hindex))]
      exact hm
  | skipped message op hloop hindex hskip =>
      rw [hloop] at h
      obtain ⟨j, hk, hmessage, -, hop, hm⟩ := h
      have hnot : ¬ (Machine.after cmds j).Fresh op ∨ op.isWrite = false := by
        refine hskip.imp_left fun hdup hfresh ↦ ?_
        rw [hm.fresh_iff.mpr hfresh] at hdup
        cases hdup
      change s.kv.Is _
      rw [hk, Machine.after_succ hmessage, Machine.apply_skip hop (.inr hnot)]
      exact hm
  | checked message op hloop hindex hfresh hwrite =>
      rw [hloop] at h
      obtain ⟨j, hk, hmessage, hvalid, hop, hm⟩ := h
      refine ⟨j, ?_, hm.stores, fun clientId _ ↦ hm.last clientId, hm.index⟩
      rw [hk, Machine.after_succ hmessage]
      exact Machine.apply_write hop hvalid (hm.index ▸ hindex) hwrite (hm.fresh_iff.mp hfresh)
  | executed heads message op kv hloop hkv =>
      rw [hloop] at h
      obtain ⟨j, hafter, hm⟩ := h
      change kv.Is _
      rw [hafter]
      exact hm.write hkv
  | compacted large message op data hloop =>
      rw [hloop] at h
      exact ⟨h.stores, h.last, h.index⟩
  | sent message op hloop =>
      rw [hloop] at h hclean
      rw [afterCommand_eq_idle hclean]
      exact h
  | installed heads message kv hloop =>
      rw [hloop] at hclean
      exact hclean.elim
  | recorded n op hreads => exact h.record (hok op hreads)

theorem tracks_run (hcmds : ∀ message ∈ cmds, message.snapshotValid = false) (as : List Action)
    (hok : Runs.Along (step cmds) GetsRecorded (boot .create) as) :
    Tracks cmds (run cmds .create as).kv (run cmds .create as).popped
      (run cmds .create as).loop := by
  refine Runs.invariant_of_step_along (step cmds)
    (P := fun _ s ↦ Tracks cmds s.kv s.popped s.loop) ?_ ?_ as hok
  · exact KvServer.is_create
  · exact fun as a h hstep ↦
      (step_effect cmds _ a).tracks hcmds (clean_run hcmds .create as) h hstep

/-- Two servers that have taken the same messages have the same store and the
same table, if no handler has changed their tables. -/
theorem replicas_agree (hcmds : ∀ message ∈ cmds, message.snapshotValid = false)
    (as bs : List Action) (has : Runs.Along (step cmds) GetsRecorded (boot .create) as)
    (hbs : Runs.Along (step cmds) GetsRecorded (boot .create) bs)
    (hidle : (run cmds .create as).loop = .idle) (hidle' : (run cmds .create bs).loop = .idle)
    (hsame : (run cmds .create as).popped = (run cmds .create bs).popped) :
    (∀ key, (run cmds .create as).kv.skipList.searchElement key =
      (run cmds .create bs).kv.skipList.searchElement key) ∧
    ∀ clientId, (run cmds .create as).kv.lastRequestId.lookup clientId =
      (run cmds .create bs).kv.lastRequestId.lookup clientId := by
  have ha := tracks_run hcmds as has
  have hb := tracks_run hcmds bs hbs
  rw [hidle] at ha
  rw [hidle', ← hsame] at hb
  refine ⟨fun key ↦ ?_, fun clientId ↦ ?_⟩
  · rw [SkipList.Holds.searchElement ha.stores, SkipList.Holds.searchElement hb.stores]
  · rw [ha.last, hb.last]

end steps

section concrete

open scoped Archive

def getThenPut : List ApplyMsg :=
  [command ⟨"Get", "k", "", "c", 1⟩ 1, command ⟨"Put", "k", "v", "c", 2⟩ 2]

/-- The handler of request 1 enters it while the loop is about to enter
request 2. -/
def overwrittenGet : List Action :=
  awaitGet "k" "c" 1 1 ++ turn ++ [Action.take 0, Action.pop, Action.check, Action.read 0] ++
    [Action.execute 0, Action.compact false, Action.send]

/-- A server that handles the messages and no call agrees. -/
theorem replicas_agree_in_overwrittenGet :
    (run getThenPut .create overwrittenGet).kv.skipList.searchElement "k" = some (some "v") ∧
      ∀ key, (run getThenPut .create overwrittenGet).kv.skipList.searchElement key =
        (run getThenPut .create (turn ++ turn)).kv.skipList.searchElement key :=
  have hcmds : ∀ message ∈ getThenPut, message.snapshotValid = false := by
    simp [getThenPut, command]
  ⟨by decide +kernel, (replicas_agree hcmds overwrittenGet (turn ++ turn) (by decide +kernel)
    (by decide +kernel) (by decide +kernel) (by decide +kernel) (by decide +kernel)).1⟩

/-- Request 1 is committed behind request 2, which the client has made after it
gave request 1 up. -/
def delayedPut : List ApplyMsg :=
  [command ⟨"Get", "k", "", "c", 2⟩ 1, command ⟨"Put", "k", "v", "c", 1⟩ 2]

/-- The server that serves request 2 enters it and skips request 1. -/
def servedGet : List Action :=
  awaitGet "k" "c" 2 1 ++ turn ++ [Action.take 0, Action.read 0] ++ turn

theorem replicas_differ_in_servedGet :
    (run delayedPut .create servedGet).loop = .idle ∧
      (run delayedPut .create (turn ++ turn)).loop = .idle ∧
      (run delayedPut .create servedGet).popped =
        (run delayedPut .create (turn ++ turn)).popped ∧
      (run delayedPut .create servedGet).kv.skipList.searchElement "k" = some none ∧
      (run delayedPut .create (turn ++ turn)).kv.skipList.searchElement "k" = some (some "v") ∧
      (run delayedPut .create servedGet).kv.lastRequestId.lookup "c" = some 2 ∧
      (run delayedPut .create (turn ++ turn)).kv.lastRequestId.lookup "c" = some 1 := by
  refine ⟨?_, ?_, ?_, ?_, ?_, ?_, ?_⟩
  · decide +kernel
  · decide +kernel
  · decide +kernel
  · decide +kernel
  · decide +kernel
  · decide +kernel
  · decide +kernel

end concrete

end Server

end HttpRaftKv.Kv
