import HttpRaftKv.Kv.Archive
import HttpRaftKv.Kv.Threads

/-!
# A request is executed at most once

The loop executes a command only if the table has no later request of its
client, and then enters the request in the table.  A `Get` handler enters its
own request whenever it runs.  As long as no handler enters a request that is
older than the entry of its client, or newer than the command that the loop is
about to execute, the entries only grow and no request is executed twice.  A
late handler makes the server forget what it has executed.
-/

namespace HttpRaftKv.Kv

open Raft

/-- What the client retries under. -/
def Op.request (op : Op) : String × ℤ :=
  (op.clientId, op.requestId)

/-- The entries of a table do not decrease. -/
def LastRequestId.Le (table table' : LastRequestId) : Prop :=
  ∀ clientId last, table.lookup clientId = some last →
    ∃ last', table'.lookup clientId = some last' ∧ last ≤ last'

theorem LastRequestId.Le.refl (table : LastRequestId) : LastRequestId.Le table table :=
  fun _ last h ↦ ⟨last, h, le_rfl⟩

theorem LastRequestId.Le.trans {t₁ t₂ t₃ : LastRequestId} (h : LastRequestId.Le t₁ t₂)
    (h' : LastRequestId.Le t₂ t₃) : LastRequestId.Le t₁ t₃ := by
  intro clientId last hlast
  obtain ⟨last', hlast', hle⟩ := h clientId last hlast
  obtain ⟨last'', hlast'', hle'⟩ := h' clientId last' hlast'
  exact ⟨last'', hlast'', hle.trans hle'⟩

theorem LastRequestId.le_insert {table : LastRequestId} {clientId : String} {requestId : ℤ}
    (h : ∀ last, table.lookup clientId = some last → last ≤ requestId) :
    LastRequestId.Le table (table.insert clientId requestId) := by
  intro client last hlast
  by_cases heq : client = clientId
  · subst heq
    exact ⟨requestId, AList.lookup_insert table, h last hlast⟩
  · exact ⟨last, (AList.lookup_insert_ne heq).trans hlast, le_rfl⟩

theorem KvServer.ifRequestDuplicate_eq_false {kv : KvServer} {clientId : String} {requestId : ℤ} :
    kv.ifRequestDuplicate clientId requestId = false ↔
      ∀ last, kv.lastRequestId.lookup clientId = some last → last < requestId := by
  unfold KvServer.ifRequestDuplicate
  cases kv.lastRequestId.lookup clientId with
  | none => simp
  | some last => simp

theorem KvServer.write_eq_some {kv kv' : KvServer} {op : Op} {heads : ℕ}
    (h : kv.write op heads = some kv') :
    kv'.lastRequestId = kv.lastRequestId.insert op.clientId op.requestId := by
  obtain ⟨s, -, heq⟩ := Option.bind_eq_some_iff.mp h
  cases heq
  rfl

namespace Server

/-- A step of a handler that enters a request in the table finds no later one
there, and the loop is not about to enter an earlier one. -/
def GetsInOrder (s : Server) (a : Action) : Prop :=
  ∀ op ∈ s.reads a, (∀ last ∈ s.kv.lastRequestId.lookup op.clientId, last ≤ op.requestId) ∧
    ∀ op' ∈ s.loop.pending, op'.clientId = op.clientId → op.requestId ≤ op'.requestId

instance (s : Server) (a : Action) : Decidable (s.GetsInOrder a) :=
  inferInstanceAs (Decidable (∀ op ∈ s.reads a,
    (∀ last ∈ s.kv.lastRequestId.lookup op.clientId, last ≤ op.requestId) ∧
      ∀ op' ∈ s.loop.pending, op'.clientId = op.clientId → op.requestId ≤ op'.requestId))

/-- Every executed request has been entered in the table, no request has been
executed twice, and the one that is about to be executed is new. -/
structure Once (table : LastRequestId) (loop : LoopState) (executed : List Op) : Prop where
  entered : ∀ op ∈ executed, ∃ last, table.lookup op.clientId = some last ∧ op.requestId ≤ last
  nodup : (executed.map Op.request).Nodup
  later : ∀ op ∈ loop.pending, ∀ last, table.lookup op.clientId = some last → last ≤ op.requestId
  fresh : ∀ op ∈ loop.pending, op.request ∉ executed.map Op.request

section steps

variable {table : LastRequestId} {loop loop' : LoopState} {executed : List Op}

/-- Nothing is about to be executed. -/
theorem Once.idle (h : Once table loop executed) (hloop : loop'.pending = none) :
    Once table loop' executed where
  entered := h.entered
  nodup := h.nodup
  later := fun op hop ↦ by simp [hloop] at hop
  fresh := fun op hop ↦ by simp [hloop] at hop

theorem pending_afterCommand (message : ApplyMsg) : (afterCommand message).pending = none := by
  unfold afterCommand
  split_ifs
  · rfl
  · rfl

/-- What has been entered stays entered. -/
theorem Once.grow {table' : LastRequestId} (h : Once table loop executed)
    (hle : LastRequestId.Le table table') :
    ∀ op ∈ executed, ∃ last, table'.lookup op.clientId = some last ∧ op.requestId ≤ last := by
  intro op hop
  obtain ⟨last, hlast, hle₁⟩ := h.entered op hop
  obtain ⟨last', hlast', hle₂⟩ := hle op.clientId last hlast
  exact ⟨last', hlast', hle₁.trans hle₂⟩

theorem Once.check {message : ApplyMsg} {op : Op} (h : Once table loop executed)
    (hnew : ∀ last, table.lookup op.clientId = some last → last < op.requestId) :
    Once table (.executing message op) executed where
  entered := h.entered
  nodup := h.nodup
  later := by
    intro op' hop'
    cases Option.some.inj hop'
    exact fun last hlast ↦ (hnew last hlast).le
  fresh := by
    intro op' hop' hmem
    cases Option.some.inj hop'
    obtain ⟨done, hdone, hrequest⟩ := List.mem_map.mp hmem
    obtain ⟨hclient, hid⟩ := Prod.mk.inj hrequest
    obtain ⟨last, hlast, hle⟩ := h.entered done hdone
    rw [hclient] at hlast
    rw [hid] at hle
    exact absurd (hnew last hlast) (not_lt.mpr hle)

theorem Once.execute {message : ApplyMsg} {op : Op}
    (h : Once table (.executing message op) executed) (hloop : loop'.pending = none) :
    Once (table.insert op.clientId op.requestId) loop' (executed ++ [op]) where
  entered := by
    have hle := LastRequestId.le_insert (h.later op rfl)
    intro done hdone
    rcases List.mem_append.mp hdone with hdone | hdone
    · exact h.grow hle done hdone
    · cases List.mem_singleton.mp hdone
      exact ⟨op.requestId, AList.lookup_insert table, le_rfl⟩
  nodup := by
    rw [List.map_append, List.nodup_append]
    refine ⟨h.nodup, List.nodup_singleton _, fun request hold _ hnew heq ↦ ?_⟩
    rw [List.map_singleton, List.mem_singleton] at hnew
    exact h.fresh op rfl (hnew ▸ heq ▸ hold)
  later := fun op hop ↦ by simp [hloop] at hop
  fresh := fun op hop ↦ by simp [hloop] at hop

theorem Once.record {op : Op} (h : Once table loop executed)
    (hlast : ∀ last, table.lookup op.clientId = some last → last ≤ op.requestId)
    (hpending : ∀ op' ∈ loop.pending, op'.clientId = op.clientId → op.requestId ≤ op'.requestId) :
    Once (table.insert op.clientId op.requestId) loop executed where
  entered := h.grow (LastRequestId.le_insert hlast)
  nodup := h.nodup
  later := by
    intro op' hop' last hlookup
    by_cases heq : op'.clientId = op.clientId
    · rw [heq, AList.lookup_insert] at hlookup
      cases Option.some.inj hlookup
      exact hpending op' hop' heq
    · rw [AList.lookup_insert_ne heq] at hlookup
      exact h.later op' hop' last hlookup
  fresh := h.fresh

end steps

section runs

variable [TextArchive Op] [TextArchive (SkipListDump String String)] [TextArchive KvSnapshot]
  {cmds : List ApplyMsg} {s : Server} {a : Action} {kv : KvServer} {loop : LoopState}
  {popped : ℕ} {executed : List Op}

theorem Effect.once (hclean : s.loop.Clean) (h : Once s.kv.lastRequestId s.loop s.executed)
    (hok : s.GetsInOrder a) (heffect : Effect cmds s a kv loop popped executed) :
    Once kv.lastRequestId loop executed ∧ LastRequestId.Le s.kv.lastRequestId kv.lastRequestId := by
  cases heffect with
  | same => exact ⟨h, .refl _⟩
  | popped => exact ⟨h.idle rfl, .refl _⟩
  | passed message => exact ⟨h.idle (pending_afterCommand message), .refl _⟩
  | covered message => exact ⟨h.idle (pending_afterCommand message), .refl _⟩
  | skipped => exact ⟨h.idle rfl, .refl _⟩
  | checked message op hloop hindex hfresh =>
      exact ⟨h.check (KvServer.ifRequestDuplicate_eq_false.mp hfresh), .refl _⟩
  | executed heads message op kv hloop hkv =>
      rw [hloop] at h
      rw [KvServer.write_eq_some hkv]
      exact ⟨h.execute rfl, LastRequestId.le_insert (h.later op rfl)⟩
  | compacted => exact ⟨h.idle rfl, .refl _⟩
  | sent message => exact ⟨h.idle (pending_afterCommand message), .refl _⟩
  | installed heads message kv hloop =>
      rw [hloop] at hclean
      exact hclean.elim
  | recorded n op hreads =>
      obtain ⟨hlast, hpending⟩ := hok op hreads
      exact ⟨h.record hlast hpending, LastRequestId.le_insert hlast⟩

/-- A step that changes the store executes a command. -/
theorem Effect.skipList_eq_or (hclean : s.loop.Clean)
    (heffect : Effect cmds s a kv loop popped executed) :
    kv.skipList = s.kv.skipList ∨ ∃ op ∈ s.loop.pending, executed = s.executed ++ [op] := by
  cases heffect with
  | executed heads message op kv hloop hkv => exact .inr ⟨op, by simp [hloop, LoopState.pending], rfl⟩
  | installed heads message kv hloop =>
      rw [hloop] at hclean
      exact hclean.elim
  | _ => exact .inl rfl

theorem once_run (hcmds : ∀ message ∈ cmds, message.snapshotValid = false) (kv : KvServer)
    (as : List Action) (hok : Runs.Along (step cmds) GetsInOrder (boot kv) as) :
    Once (run cmds kv as).kv.lastRequestId (run cmds kv as).loop (run cmds kv as).executed := by
  refine Runs.invariant_of_step_along (step cmds)
    (P := fun _ s ↦ Once s.kv.lastRequestId s.loop s.executed) ?_ ?_ as hok
  · exact ⟨by simp [boot], by simp [boot], by simp [boot, LoopState.pending],
      by simp [boot, LoopState.pending]⟩
  · exact fun as a h hstep ↦ ((step_effect cmds _ a).once (clean_run hcmds kv as) h hstep).1

/-- The entries of the table only grow along a run. -/
theorem le_run (hcmds : ∀ message ∈ cmds, message.snapshotValid = false) (kv : KvServer)
    (as bs : List Action) (hok : Runs.Along (step cmds) GetsInOrder (boot kv) (as ++ bs)) :
    LastRequestId.Le (run cmds kv as).kv.lastRequestId
      (run cmds kv (as ++ bs)).kv.lastRequestId := by
  induction bs using List.reverseRecOn with
  | nil =>
      rw [List.append_nil]
      exact .refl _
  | append_singleton bs a ih =>
      rw [← List.append_assoc] at hok ⊢
      obtain ⟨hpast, hlast⟩ := (Runs.along_snoc _ _ _ _ a).mp hok
      have hstep := (step_effect cmds (run cmds kv (as ++ bs)) a).once (clean_run hcmds kv _)
        (once_run hcmds kv _ hpast) hlast
      have hrun : run cmds kv (as ++ bs ++ [a]) = (run cmds kv (as ++ bs)).step cmds a :=
        Runs.run_snoc _ _ _ a
      rw [hrun]
      exact (ih hpast).trans hstep.2

/-- In every run whose handlers enter their requests in order, each request is
executed at most once, the entries of the table never decrease, and nothing but
the execution of a request changes the store. -/
theorem at_most_once (hcmds : ∀ message ∈ cmds, message.snapshotValid = false) (kv : KvServer)
    (as : List Action) (hok : Runs.Along (step cmds) GetsInOrder (boot kv) as) :
    (∀ clientId requestId,
      ((run cmds kv as).executed.map Op.request).count (clientId, requestId) ≤ 1) ∧
    (∀ bs, bs <+: as → ∀ clientId last,
      (run cmds kv bs).kv.lastRequestId.lookup clientId = some last →
      ∃ last', (run cmds kv as).kv.lastRequestId.lookup clientId = some last' ∧ last ≤ last') ∧
    ∀ bs a, bs ++ [a] <+: as →
      (run cmds kv (bs ++ [a])).kv.skipList ≠ (run cmds kv bs).kv.skipList →
      ∃ op ∈ (run cmds kv bs).loop.pending,
        (run cmds kv (bs ++ [a])).executed = (run cmds kv bs).executed ++ [op] := by
  refine ⟨?_, ?_, ?_⟩
  · intro clientId requestId
    exact List.nodup_iff_count_le_one.mp (once_run hcmds kv as hok).nodup (clientId, requestId)
  · rintro bs ⟨cs, rfl⟩
    exact le_run hcmds kv bs cs hok
  · intro bs a _ hne
    have hrun : run cmds kv (bs ++ [a]) = (run cmds kv bs).step cmds a := Runs.run_snoc _ _ _ a
    rw [hrun] at hne ⊢
    exact ((step_effect cmds _ a).skipList_eq_or (clean_run hcmds kv bs)).resolve_left hne

end runs

section concrete

open scoped Archive

def command (op : Op) (index : ℤ) : ApplyMsg where
  commandValid := true
  command := TextArchive.save op
  commandIndex := index

/-- The loop handles one message. -/
def turn : List Action :=
  [.pop, .check, .execute 0, .compact false, .send]

/-- A handler of a `Get` waits for its command at an index. -/
def awaitGet (key clientId : String) (requestId index : ℤ) : List Action :=
  [.get 0 key clientId requestId, .start 0 (some index), .openChan 0]

def putThenGet : List ApplyMsg :=
  [command ⟨"Put", "k", "v", "c", 1⟩ 1, command ⟨"Get", "k", "", "c", 2⟩ 2]

def promptGet : List Action :=
  turn ++ awaitGet "k" "c" 2 2 ++ turn ++ [Action.take 0, Action.read 0, Action.close 0]

/-- The handler enters request 2 behind request 1. -/
theorem at_most_once_promptGet :
    (run putThenGet .create promptGet).kv.lastRequestId.lookup "c" = some 2 ∧
      ((run putThenGet .create promptGet).executed.map Op.request).count ("c", 1) ≤ 1 :=
  have hcmds : ∀ message ∈ putThenGet, message.snapshotValid = false := by
    simp [putThenGet, command]
  ⟨by decide +kernel, (at_most_once hcmds .create promptGet (by decide +kernel)).1 "c" 1⟩

/-- The client retries its request 2, and both copies are committed. -/
def retriedPut : List ApplyMsg :=
  [command ⟨"Get", "k", "", "c", 1⟩ 1, command ⟨"Put", "k", "v", "c", 2⟩ 2,
    command ⟨"Put", "k", "v", "c", 2⟩ 3]

/-- The handler of request 1 is woken, and then the loop executes request 2. -/
def overtakenGet : List Action :=
  awaitGet "k" "c" 1 1 ++ turn ++ [Action.take 0] ++ turn

/-- The handler reads the store, and the loop handles the copy of request 2. -/
def lateGet : List Action :=
  overtakenGet ++ [Action.read 0] ++ turn

theorem twice_and_lower_in_lateGet :
    ((run retriedPut .create lateGet).executed.map Op.request).count ("c", 2) = 2 ∧
      (run retriedPut .create overtakenGet).kv.lastRequestId.lookup "c" = some 2 ∧
      (run retriedPut .create (overtakenGet ++ [Action.read 0])).kv.lastRequestId.lookup "c" =
        some 1 := by
  refine ⟨?_, ?_, ?_⟩
  · decide +kernel
  · decide +kernel
  · decide +kernel

end concrete

end Server

end HttpRaftKv.Kv
