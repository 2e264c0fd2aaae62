import HttpRaftKv.Kv.ExecutedLog
import HttpRaftKv.Kv.HandlerTurns
import HttpRaftKv.Kv.Specification

/-!
# A server that follows a log of reads and writes

Where the loop of a server stands in a log, and what it has made of the commands
before: it has executed those writes that no executed one covers, the store has the
values that they leave, and the table has numbers of commands that it has taken.
The handlers of reads enter their requests too.  It is enough that they do not lower
an entry, and that the table takes no write for a duplicate that is not covered.
-/

namespace HttpRaftKv.Kv

open Raft

theorem Covered.mono {executed executed' : List Op} {op : Op} (h : Covered executed op)
    (hsub : executed ⊆ executed') : Covered executed' op :=
  h.imp fun _ hother ↦ ⟨hsub hother.1, hother.2⟩

/-- The writes that a log makes a server execute. -/
def executedWrites (log : List Op) : List Op :=
  executes (log.filter Op.isWrite)

section writes

variable {log : List Op} {op : Op}

theorem isPrefix_executedWrites {earlier : List Op} (h : earlier <+: log) :
    executedWrites earlier <+: executedWrites log := by
  obtain ⟨rest, rfl⟩ := h
  rw [executedWrites, executedWrites, List.filter_append]
  apply isPrefix_executes_append

theorem executedWrites_take_succ {taken : ℕ} (hop : log[taken]? = some op) :
    executedWrites (log.take (taken + 1)) =
      if op.isWrite = true ∧ ¬ Covered (executedWrites (log.take taken)) op then
        executedWrites (log.take taken) ++ [op]
      else executedWrites (log.take taken) := by
  rw [List.take_add_one, hop, Option.toList_some, executedWrites, List.filter_append]
  cases hwrite : op.isWrite with
  | false => simp [hwrite, executedWrites]
  | true =>
      rw [List.filter_singleton, hwrite, cond_true, executes_snoc, ← executedWrites]
      by_cases hcovered : Covered (executedWrites (log.take taken)) op
      · rw [if_pos hcovered, if_neg (by simp [hcovered])]
      · rw [if_neg hcovered, if_pos ⟨rfl, hcovered⟩]

theorem covered_executedWrites (hop : op ∈ log) (hwrite : op.isWrite = true) :
    Covered (executedWrites log) op :=
  covered_executes _ op (List.mem_filter.mpr ⟨hop, hwrite⟩)

end writes

namespace Server

/-! ## The loop -/

/-- The commands that the loop has dealt with. -/
def processed (popped : ℕ) : LoopState → ℕ
  | .received _ _ | .executing _ _ => popped - 1
  | _ => popped

/-- The loop deals with the last of the commands that it has taken. -/
def AtLog [TextArchive Op] (log : List Op) (popped : ℕ) : LoopState → Prop
  | .idle => popped ≤ log.length
  | .received message op | .executing message op | .compacting message op | .sending message op =>
      ∃ taken, popped = taken + 1 ∧ log[taken]? = some op ∧ message = delivered taken op
  | .installing _ => False

/-- Between its checks and its writes the loop has nothing to write. -/
theorem pending_of_none {loop : LoopState} {executed : List Op} (h : loop.pending = none) :
    ∀ op ∈ loop.pending, op.isWrite = true ∧ ¬ Covered executed op := by
  intro op hop
  rw [h] at hop
  cases hop

variable [TextArchive Op]

/-- The data of a server that has processed the commands of a log. -/
structure Follows (log : List Op) (kv : KvServer) (loop : LoopState) (popped : ℕ)
    (executed : List Op) : Prop where
  index : kv.lastSnapShotRaftLogIndex = 0
  stores : kv.Stores (written executed)
  place : AtLog log popped loop
  executed_eq : executed = executedWrites (log.take (processed popped loop))
  pending : ∀ op ∈ loop.pending, op.isWrite = true ∧ ¬ Covered executed op
  entered : ∀ op ∈ executed,
    ∃ last, kv.lastRequestId.lookup op.clientId = some last ∧ op.requestId ≤ last
  table : ∀ clientId last, kv.lastRequestId.lookup clientId = some last →
    ∃ op ∈ log.take (processed popped loop), op.clientId = clientId ∧ last ≤ op.requestId

variable {log : List Op} {s : Server} {a : Action} {kv : KvServer} {loop : LoopState}
  {popped : ℕ} {executed : List Op}

theorem follows_boot (log : List Op) : Follows log .create .idle 0 [] where
  index := rfl
  stores := KvServer.stores_create
  place := Nat.zero_le _
  executed_eq := rfl
  pending _ h := by cases h
  entered _ h := by cases h
  table _ _ h := by cases h

theorem AtLog.processed_le (h : AtLog log popped loop) : processed popped loop ≤ log.length := by
  cases loop with
  | idle => exact h
  | installing => exact h.elim
  | received message op | executing message op | compacting message op | sending message op =>
      obtain ⟨taken, rfl, hop, -⟩ := h
      obtain ⟨hlt, -⟩ := List.getElem?_eq_some_iff.mp hop
      simp only [processed]
      omega

theorem Follows.isPrefix_take (h : Follows log kv loop popped executed) {more : List Op}
    (hmore : log <+: more) :
    more.take (processed popped loop) = log.take (processed popped loop) := by
  obtain ⟨rest, rfl⟩ := hmore
  exact List.take_append_of_le_length h.place.processed_le

/-- More commands are committed. -/
theorem Follows.append (h : Follows log kv loop popped executed) {more : List Op}
    (hmore : log <+: more) : Follows more kv loop popped executed := by
  have htake := h.isPrefix_take hmore
  refine ⟨h.index, h.stores, ?_, htake ▸ h.executed_eq, h.pending, h.entered, htake ▸ h.table⟩
  have hplace := h.place
  cases loop with
  | idle => exact hplace.trans hmore.length_le
  | installing => exact hplace.elim
  | received message op | executing message op | compacting message op | sending message op =>
      obtain ⟨taken, hpopped, hop, hmessage⟩ := hplace
      obtain ⟨rest, rfl⟩ := hmore
      exact ⟨taken, hpopped, (getElem?_append_of_eq_some hop rest).1, hmessage⟩

/-- The table knows what has been executed. -/
theorem Follows.duplicate (h : Follows log kv loop popped executed) {op : Op}
    (hcovered : Covered executed op) :
    kv.ifRequestDuplicate op.clientId op.requestId = true := by
  obtain ⟨other, hmem, hclient, hle⟩ := hcovered
  obtain ⟨last, hlast, hle'⟩ := h.entered other hmem
  rw [hclient] at hlast
  simp only [KvServer.ifRequestDuplicate, hlast, decide_eq_true_eq]
  exact hle.trans hle'

/-- The table takes a command for a duplicate if one of its client with at least its
number has been processed. -/
theorem Follows.of_duplicate (h : Follows log kv loop popped executed) {op : Op}
    (hdup : kv.ifRequestDuplicate op.clientId op.requestId = true) :
    Covered (log.take (processed popped loop)) op := by
  unfold KvServer.ifRequestDuplicate at hdup
  split at hdup
  · cases hdup
  · rename_i last hlast
    obtain ⟨other, hmem, hclient, hle⟩ := h.table op.clientId last hlast
    exact ⟨other, hmem, hclient, (of_decide_eq_true hdup).trans hle⟩

/-- What the loop leaves behind has been processed. -/
theorem Follows.table_mono (h : Follows log kv loop popped executed) {later : ℕ}
    (hle : processed popped loop ≤ later) (clientId : String) (last : ℤ)
    (hlast : kv.lastRequestId.lookup clientId = some last) :
    ∃ op ∈ log.take later, op.clientId = clientId ∧ last ≤ op.requestId := by
  obtain ⟨op, hmem, hrest⟩ := h.table clientId last hlast
  exact ⟨op, (List.take_subset_take_left log hle) hmem, hrest⟩

/-- The write that the loop is about to execute is executed. -/
theorem Follows.execute {message : ApplyMsg} {op : Op} {kv' : KvServer} {heads : ℕ}
    (h : Follows log kv (.executing message op) popped executed)
    (hkv : kv.write op heads = some kv') :
    Follows log kv' (.compacting message op) popped (executed ++ [op]) := by
  obtain ⟨taken, rfl, hop, hmessage⟩ := h.place
  obtain ⟨hwrite, hnew⟩ := h.pending op rfl
  obtain ⟨kv₁, hkv₁, hstores, htable, hindex⟩ := h.stores.write op heads
  cases Option.some.inj (hkv.symm.trans hkv₁)
  have hexecuted : executed = executedWrites (log.take taken) := h.executed_eq
  refine ⟨hindex.trans h.index, ?_, ⟨taken, rfl, hop, hmessage⟩, ?_, nofun, ?_, ?_⟩
  · rw [written_snoc, if_pos hwrite]
    exact hstores
  · change executed ++ [op] = executedWrites (log.take (taken + 1))
    rw [executedWrites_take_succ hop, ← hexecuted, if_pos ⟨hwrite, hnew⟩]
  · intro other hother
    rw [htable]
    by_cases hclient : other.clientId = op.clientId
    · refine ⟨op.requestId, by rw [hclient, AList.lookup_insert], ?_⟩
      rcases List.mem_append.mp hother with hother | hother
      · by_contra hlt
        exact hnew ⟨other, hother, hclient, (not_le.mp hlt).le⟩
      · rw [List.mem_singleton.mp hother]
    · rw [AList.lookup_insert_ne hclient]
      rcases List.mem_append.mp hother with hother | hother
      · exact h.entered other hother
      · exact absurd (congrArg Op.clientId (List.mem_singleton.mp hother)) hclient
  · intro clientId last hlast
    rw [htable] at hlast
    by_cases hclient : clientId = op.clientId
    · rw [hclient, AList.lookup_insert, Option.some.injEq] at hlast
      refine ⟨op, ?_, hclient.symm, hlast.ge⟩
      change op ∈ log.take (taken + 1)
      rw [List.take_add_one, hop]
      simp
    · rw [AList.lookup_insert_ne hclient] at hlast
      exact h.table_mono (Nat.le_succ taken) clientId last hlast

/-- A handler enters a request. -/
theorem Follows.record {op : Op} (h : Follows log kv loop popped executed)
    (hseen : Covered (log.take (processed popped loop)) op)
    (hlast : ∀ last, kv.lastRequestId.lookup op.clientId = some last → last ≤ op.requestId) :
    Follows log (kv.record op) loop popped executed := by
  refine ⟨h.index, h.stores, h.place, h.executed_eq, h.pending, ?_, ?_⟩
  · intro other hother
    obtain ⟨last, hlookup, hle⟩ := h.entered other hother
    by_cases hclient : other.clientId = op.clientId
    · rw [hclient] at hlookup ⊢
      exact ⟨op.requestId, AList.lookup_insert _, hle.trans (hlast last hlookup)⟩
    · exact ⟨last, (AList.lookup_insert_ne hclient).trans hlookup, hle⟩
  · intro clientId last hlookup
    by_cases hclient : clientId = op.clientId
    · rw [hclient] at hlookup
      cases Option.some.inj (hlookup.symm.trans (AList.lookup_insert _))
      rw [hclient]
      exact hseen
    · exact h.table clientId last ((AList.lookup_insert_ne hclient).symm.trans hlookup)

variable [LawfulTextArchive Op] [TextArchive (SkipListDump String String)]
  [TextArchive KvSnapshot]

/-- The step lemma for the data of a server. -/
theorem Effect.follows_log (heffect : Effect (messages log) s a kv loop popped executed)
    (h : Follows log s.kv s.loop s.popped s.executed)
    (hjudge : ∀ op ∈ log, op.isWrite = true →
      s.kv.ifRequestDuplicate op.clientId op.requestId = true → Covered s.executed op)
    (hreads : ∀ op, s.reads a = some op → Covered (log.take (processed s.popped s.loop)) op ∧
      ∀ last, s.kv.lastRequestId.lookup op.clientId = some last → last ≤ op.requestId) :
    Follows log kv loop popped executed := by
  have hplace := h.place
  cases heffect with
  | same => exact h
  | popped message op hidle hmessage hvalid hop =>
      rw [hidle] at h
      rw [getElem?_messages] at hmessage
      obtain ⟨op', hop', rfl⟩ := Option.map_eq_some_iff.mp hmessage
      rw [delivered, LawfulTextArchive.load_save, Option.some.injEq] at hop
      subst hop
      exact ⟨h.index, h.stores, ⟨s.popped, rfl, hop', rfl⟩, h.executed_eq, pending_of_none rfl,
        h.entered, h.table⟩
  | passed message hidle hmessage hvalid =>
      rw [getElem?_messages] at hmessage
      obtain ⟨op', -, rfl⟩ := Option.map_eq_some_iff.mp hmessage
      cases hvalid
  | covered message op hreceived hindex =>
      rw [hreceived] at hplace
      obtain ⟨taken, -, -, rfl⟩ := hplace
      rw [h.index] at hindex
      change (taken : ℤ) + 1 ≤ 0 at hindex
      omega
  | skipped message op hreceived hindex hskip =>
      rw [hreceived] at hplace h
      obtain ⟨taken, hpopped, hop, hmessage⟩ := hplace
      rw [hpopped] at h ⊢
      have hexecuted : s.executed = executedWrites (log.take taken) := h.executed_eq
      refine ⟨h.index, h.stores, ⟨taken, rfl, hop, hmessage⟩, ?_, pending_of_none rfl,
        h.entered, h.table_mono (Nat.le_succ taken)⟩
      change s.executed = executedWrites (log.take (taken + 1))
      rw [executedWrites_take_succ hop, ← hexecuted, if_neg]
      rintro ⟨hwrite, hnew⟩
      rcases hskip with hdup | hother
      · exact hnew (hjudge op (List.mem_of_getElem? hop) hwrite hdup)
      · rw [hwrite] at hother
        cases hother
  | checked message op hreceived hindex hfresh hwrite =>
      rw [hreceived] at h hplace
      refine ⟨h.index, h.stores, hplace, h.executed_eq, ?_, h.entered, h.table⟩
      intro op' hop'
      cases Option.some.inj hop'
      refine ⟨hwrite, fun hcovered ↦ ?_⟩
      rw [h.duplicate hcovered] at hfresh
      cases hfresh
  | executed heads message op kv hexecuting hkv =>
      rw [hexecuting] at h
      exact h.execute hkv
  | compacted large message op data hcompacting =>
      rw [hcompacting] at h
      exact ⟨h.index, h.stores, h.place, h.executed_eq, pending_of_none rfl,
        h.entered, h.table⟩
  | sent message op hsending =>
      rw [hsending] at h hplace
      obtain ⟨taken, hpopped, hop, rfl⟩ := hplace
      obtain ⟨hlt, -⟩ := List.getElem?_eq_some_iff.mp hop
      exact ⟨h.index, h.stores, hpopped ▸ hlt, h.executed_eq, pending_of_none rfl,
        h.entered, h.table⟩
  | installed heads message kv hinstalling =>
      rw [hinstalling] at hplace
      exact hplace.elim
  | recorded k op hop =>
      obtain ⟨hseen, hlast⟩ := hreads op hop
      exact h.record hseen hlast

omit [LawfulTextArchive Op] in
theorem Effect.processed_le {cmds : List ApplyMsg}
    (heffect : Effect cmds s a kv loop popped executed) :
    processed s.popped s.loop ≤ processed popped loop := by
  have hafter : ∀ (popped : ℕ) (message : ApplyMsg),
      processed popped (afterCommand message) = popped := by
    intro popped message
    unfold afterCommand
    split_ifs <;> rfl
  cases heffect with
  | same => exact le_rfl
  | popped message op hidle =>
      rw [hidle]
      exact le_rfl
  | passed message hidle =>
      rw [hidle, hafter]
      exact Nat.le_succ _
  | covered message op hreceived =>
      rw [hreceived, hafter]
      exact Nat.sub_le _ _
  | skipped message op hreceived =>
      rw [hreceived]
      exact Nat.sub_le _ _
  | checked message op hreceived =>
      rw [hreceived]
      exact le_rfl
  | executed heads message op kv hexecuting =>
      rw [hexecuting]
      exact Nat.sub_le _ _
  | compacted large message op data hcompacting =>
      rw [hcompacting]
      exact le_rfl
  | sent message op hsending =>
      rw [hsending, hafter]
      exact le_rfl
  | installed heads message kv hinstalling =>
      rw [hinstalling]
      exact le_rfl
  | recorded => exact le_rfl

omit [LawfulTextArchive Op] in
theorem Effect.isPrefix_executed {cmds : List ApplyMsg}
    (heffect : Effect cmds s a kv loop popped executed) : s.executed <+: executed := by
  cases heffect with
  | executed => exact List.prefix_append _ _
  | _ => exact List.prefix_rfl

/-! ## The handlers -/

/-- A server that follows its log: a handler reads the store only behind its own
command, and a handler of a write acknowledges what is covered. -/
structure Serves (asked log : List Op) (s : Server) : Prop where
  data : Follows log s.kv s.loop s.popped s.executed
  known : ∀ h handler, s.calls.handlers h = some handler →
    handler.op ∈ asked ∧ (handler.rpc = .putAppend ↔ handler.op.isWrite = true)
  chans : ∀ chan queue, s.calls.chans chan = some queue → ∀ op ∈ queue,
    op ∈ log.take (processed s.popped s.loop)
  reading : ∀ h handler index, s.calls.handlers h = some handler →
    handler.state = .reading index →
      handler.rpc = .get ∧ Covered (log.take (processed s.popped s.loop)) handler.op
  acknowledging : ∀ h handler, s.calls.handlers h = some handler →
    handler.rpc = .putAppend → handler.state.Acknowledges → Covered s.executed handler.op

variable {asked : List Op}

omit [TextArchive (SkipListDump String String)] [TextArchive KvSnapshot]
  [LawfulTextArchive Op] in
theorem serves_boot (asked log : List Op) : (boot .create).Serves asked log where
  data := follows_boot log
  known _ _ h := by cases h
  chans _ _ h := by cases h
  reading _ _ _ h := by cases h
  acknowledging _ _ h := by cases h

omit [TextArchive (SkipListDump String String)] [TextArchive KvSnapshot]
  [LawfulTextArchive Op] in
/-- More commands are asked for and committed. -/
theorem Serves.append (h : s.Serves asked log) {asked' more : List Op} (hasked : asked ⊆ asked')
    (hmore : log <+: more) : s.Serves asked' more := by
  have htake := h.data.isPrefix_take hmore
  refine ⟨h.data.append hmore, fun k handler hk ↦ ?_, ?_, ?_, h.acknowledging⟩
  · exact ⟨hasked (h.known k handler hk).1, (h.known k handler hk).2⟩
  · rw [htake]
    exact h.chans
  · rw [htake]
    exact h.reading

/-- What a step of a server may take for granted about its log and its clients. -/
structure Judges (asked log : List Op) (s : Server) : Prop where
  committed : log ⊆ asked
  numbered : ∀ op ∈ asked, ∀ other ∈ asked, op.SameRequest other → op = other
  duplicate : ∀ op ∈ asked, op.isWrite = true →
    s.kv.ifRequestDuplicate op.clientId op.requestId = true → Covered s.executed op

omit [LawfulTextArchive Op] [TextArchive (SkipListDump String String)]
  [TextArchive KvSnapshot] [TextArchive Op] in
theorem asks_state {handler : Handler} (h : s.asks a = some handler) : handler.state = .called := by
  cases a with
  | get k key clientId requestId =>
      simp only [asks] at h
      split_ifs at h
      cases h
      rfl
  | putAppend k op =>
      simp only [asks] at h
      split_ifs at h
      cases h
      rfl
  | _ => cases h

omit [LawfulTextArchive Op] [TextArchive (SkipListDump String String)]
  [TextArchive KvSnapshot] in
/-- A handler comes to read the store behind its command. -/
theorem Serves.reading_turn (h : s.Serves asked log) {k : ℕ} {handler : Handler} {index : ℤ}
    (hhandler : s.calls.handlers k = some handler) {state : HandlerState}
    (hturn : Turn s handler state) (hstate : state = .reading index) :
    handler.rpc = .get ∧ Covered (log.take (processed s.popped s.loop)) handler.op := by
  cases hturn with
  | same => exact h.reading k handler index hhandler hstate
  | silent state hsilent =>
      rw [hstate] at hsilent
      exact hsilent.elim
  | woken index' op chan queue hqueue hsame =>
      refine ⟨?_, op, h.chans chan _ hqueue op List.mem_cons_self, hsame.1, hsame.2.ge⟩
      cases hrpc : handler.rpc with
      | get => rfl
      | putAppend =>
          simp only [Calls.received, hrpc] at hstate
          split_ifs at hstate
  | acknowledged => cases hstate
  | admitted index' hrpc hdup => exact ⟨hrpc, h.data.of_duplicate hdup⟩
  | read => cases hstate
  | replied => cases hstate

omit [LawfulTextArchive Op] [TextArchive (SkipListDump String String)]
  [TextArchive KvSnapshot] in
/-- A handler of a write comes to acknowledge what is covered. -/
theorem Serves.acknowledging_turn (h : s.Serves asked log) (hjudges : s.Judges asked log) {k : ℕ}
    {handler : Handler} (hhandler : s.calls.handlers k = some handler)
    (hrpc : handler.rpc = .putAppend) {state : HandlerState} (hturn : Turn s handler state)
    (hack : state.Acknowledges) : Covered s.executed handler.op := by
  obtain ⟨hasked, hkind⟩ := h.known k handler hhandler
  have hwrite := hkind.mp hrpc
  cases hturn with
  | same => exact h.acknowledging k handler hhandler hrpc hack
  | silent state hsilent =>
      cases state with
      | closing index reply => exact absurd hack hsilent
      | replied reply => exact absurd hack hsilent
      | _ => exact hack.elim
  | woken index op chan queue hqueue hsame =>
      -- the command that wakes the handler is its own
      have hmem := h.chans chan _ hqueue op List.mem_cons_self
      have hown := hjudges.numbered op (hjudges.committed (List.mem_of_mem_take hmem))
        handler.op hasked hsame
      rw [hown] at hmem
      rw [h.data.executed_eq]
      exact covered_executedWrites hmem hwrite
  | acknowledged index hrpc' hdup => exact hjudges.duplicate handler.op hasked hwrite hdup
  | admitted => exact hack.elim
  | read index reply hstate =>
      rw [(h.reading k handler index hhandler hstate).1] at hrpc
      cases hrpc
  | replied index reply hstate =>
      exact h.acknowledging k handler hhandler hrpc (by rw [hstate]; exact hack)

/-- The step lemma of a server. -/
theorem Serves.step (h : s.Serves asked log) (hjudges : s.Judges asked log)
    (hasks : ∀ handler, s.asks a = some handler →
      handler.op ∈ asked ∧ (handler.rpc = .putAppend ↔ handler.op.isWrite = true))
    (hlate : ∀ op, s.reads a = some op →
      ∀ last, s.kv.lastRequestId.lookup op.clientId = some last → last ≤ op.requestId) :
    (s.step (messages log) a).Serves asked log := by
  have heffect := step_effect (messages log) s a
  have htake := List.take_subset_take_left log heffect.processed_le
  have hexecuted := heffect.isPrefix_executed.subset
  -- a handler that reads has been served by the log
  have hreads : ∀ op, s.reads a = some op →
      Covered (log.take (processed s.popped s.loop)) op := by
    intro op hop
    cases a with
    | read k =>
        obtain ⟨⟨handler, index⟩, hreader, rfl⟩ := Option.map_eq_some_iff.mp hop
        obtain ⟨hhandler, hstate⟩ := reader_eq_some hreader
        exact (h.reading k handler index hhandler hstate).2
    | _ => cases hop
  refine ⟨heffect.follows_log h.data (fun op hop ↦ hjudges.duplicate op (hjudges.committed hop))
    fun op hop ↦ ⟨hreads op hop, hlate op hop⟩, ?_, ?_, ?_, ?_⟩
  · intro k handler' hk
    rcases step_turned (messages log) s a hk with ⟨handler, hhandler, hrpc, hop, -⟩ | hnew
    · rw [hrpc, hop]
      exact h.known k handler hhandler
    · exact hasks handler' hnew
  · intro chan queue hqueue op hop
    apply htake
    rcases (step_move (messages log) s a).queued hqueue hop with
      ⟨chan', queue', hold, hmem⟩ | ⟨message, hsending⟩
    · exact h.chans chan' queue' hold op hmem
    · have hplace := h.data.place
      rw [hsending] at hplace ⊢
      obtain ⟨taken, hpopped, hget, -⟩ := hplace
      change op ∈ log.take s.popped
      rw [hpopped, List.take_add_one, hget]
      simp
  · intro k handler' index hk hstate
    rcases step_turned (messages log) s a hk with ⟨handler, hhandler, hrpc, hop, hturn⟩ | hnew
    · obtain ⟨hget, hcovered⟩ := h.reading_turn hhandler hturn hstate
      rw [hrpc, hop]
      exact ⟨hget, hcovered.mono htake⟩
    · rw [asks_state hnew] at hstate
      cases hstate
  · intro k handler' hk hputAppend hack
    rcases step_turned (messages log) s a hk with ⟨handler, hhandler, hrpc, hop, hturn⟩ | hnew
    · rw [hop]
      exact (h.acknowledging_turn hjudges hhandler (hrpc ▸ hputAppend) hturn hack).mono hexecuted
    · rw [asks_state hnew] at hack
      exact hack.elim

end Server

end HttpRaftKv.Kv
