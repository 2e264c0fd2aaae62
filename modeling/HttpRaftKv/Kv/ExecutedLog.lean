import HttpRaftKv.Kv.AtMostOnce
import HttpRaftKv.Kv.Replies

/-!
# The commands that a log makes a server execute

A server takes the committed commands one after another, and executes a command
if it has not executed one of the same client with at least its number.  So what
it has executed is a function of the commands that it has taken, and it is the
same on every server that has taken them.
-/

namespace HttpRaftKv.Kv

open Raft

instance (executed : List Op) (op : Op) : Decidable (Covered executed op) :=
  inferInstanceAs (Decidable (∃ other ∈ executed, _ ∧ _))

/-- The commands that are executed, in their order. -/
def executes (log : List Op) : List Op :=
  log.foldl (fun executed op ↦ if Covered executed op then executed else executed ++ [op]) []

/-- The message of a command that has `k` commands before it. -/
def delivered [TextArchive Op] (k : ℕ) (op : Op) : ApplyMsg where
  commandValid := true
  command := TextArchive.save op
  commandIndex := k + 1

/-- The messages that the Raft nodes deliver. -/
def messages [TextArchive Op] (log : List Op) : List ApplyMsg :=
  log.mapIdx delivered

section executes

variable {log : List Op} {op : Op}

theorem executes_snoc (log : List Op) (op : Op) :
    executes (log ++ [op]) =
      if Covered (executes log) op then executes log else executes log ++ [op] := by
  rw [executes, List.foldl_append]
  rfl

theorem isPrefix_executes_append (log more : List Op) : executes log <+: executes (log ++ more) := by
  induction more using List.reverseRecOn with
  | nil => simp
  | append_singleton more op ih =>
      rw [← List.append_assoc, executes_snoc]
      split_ifs
      · exact ih
      · exact ih.trans (List.prefix_append _ _)

theorem isPrefix_executes_take (log : List Op) (k : ℕ) : executes (log.take k) <+: executes log := by
  conv_rhs => rw [← List.take_append_drop k log]
  apply isPrefix_executes_append

theorem executes_subset (log : List Op) : ∀ op ∈ executes log, op ∈ log := by
  induction log using List.reverseRecOn with
  | nil => exact fun _ h ↦ h
  | append_singleton log other ih =>
      intro op hop
      rw [executes_snoc] at hop
      split_ifs at hop
      · exact List.mem_append_left _ (ih op hop)
      · rcases List.mem_append.mp hop with hop | hop
        · exact List.mem_append_left _ (ih op hop)
        · exact List.mem_append_right _ hop

/-- Every command of the log is covered by one that is executed. -/
theorem covered_executes (log : List Op) : ∀ op ∈ log, Covered (executes log) op := by
  induction log using List.reverseRecOn with
  | nil => exact fun _ h ↦ by cases h
  | append_singleton log last ih =>
      intro op hop
      rw [executes_snoc]
      rcases List.mem_append.mp hop with hop | hop
      · split_ifs
        · exact ih op hop
        · exact (ih op hop).append [last]
      · rw [List.mem_singleton.mp hop]
        split_ifs with hcovered
        · exact hcovered
        · exact ⟨last, List.mem_append_right _ (List.mem_singleton.mpr rfl), rfl, le_rfl⟩

theorem covered_executes_iff : Covered (executes log) op ↔ Covered log op := by
  constructor
  · rintro ⟨other, hmem, hrequest⟩
    exact ⟨other, executes_subset log other hmem, hrequest⟩
  · rintro ⟨other, hmem, hclient, hle⟩
    obtain ⟨other', hmem', hclient', hle'⟩ := covered_executes log other hmem
    exact ⟨other', hmem', hclient'.trans hclient, hle.trans hle'⟩

end executes

namespace Server

/-- How far the loop is in the log. -/
def Taken (log executed : List Op) (popped : ℕ) : LoopState → Prop
  | .idle | .compacting _ _ | .sending _ _ =>
      popped ≤ log.length ∧ executed = executes (log.take popped)
  | .received message op =>
      0 < message.commandIndex ∧
        ∃ taken, popped = taken + 1 ∧ log[taken]? = some op ∧ executed = executes (log.take taken)
  | .executing _ op =>
      ¬ Covered executed op ∧
        ∃ taken, popped = taken + 1 ∧ log[taken]? = some op ∧ executed = executes (log.take taken)
  | .installing _ => False

/-- The server has executed what the log makes it execute. -/
structure ExecutesLog (log : List Op) (s : Server) : Prop where
  index : s.kv.lastSnapShotRaftLogIndex = 0
  entered : ∀ op ∈ s.executed,
    ∃ last, s.kv.lastRequestId.lookup op.clientId = some last ∧ op.requestId ≤ last
  taken : Taken log s.executed s.popped s.loop

variable {log : List Op} {s : Server}

theorem executesLog_boot : (boot .create).ExecutesLog log where
  index := rfl
  entered := by simp [boot]
  taken := ⟨Nat.zero_le _, rfl⟩

theorem getElem?_append_of_eq_some {taken : ℕ} {op : Op} (h : log[taken]? = some op)
    (more : List Op) : (log ++ more)[taken]? = some op ∧
      (log ++ more).take taken = log.take taken := by
  obtain ⟨hlt, -⟩ := List.getElem?_eq_some_iff.mp h
  refine ⟨?_, List.take_append_of_le_length hlt.le⟩
  rw [List.getElem?_append_left hlt]
  exact h

/-- More commands are committed. -/
theorem ExecutesLog.append (h : s.ExecutesLog log) (more : List Op) : s.ExecutesLog (log ++ more) := by
  refine ⟨h.index, h.entered, ?_⟩
  have htaken := h.taken
  cases hloop : s.loop with
  | idle | compacting message op | sending message op =>
      rw [hloop] at htaken
      obtain ⟨hle, hexecuted⟩ := htaken
      refine ⟨?_, ?_⟩
      · rw [List.length_append]
        omega
      · rw [List.take_append_of_le_length hle]
        exact hexecuted
  | received message op | executing message op =>
      rw [hloop] at htaken
      obtain ⟨hfirst, taken, hpopped, hop, hexecuted⟩ := htaken
      obtain ⟨hop', htake⟩ := getElem?_append_of_eq_some hop more
      exact ⟨hfirst, taken, hpopped, hop', htake ▸ hexecuted⟩
  | installing message =>
      rw [hloop] at htaken
      exact htaken

/-- What a server has executed begins what the whole log makes it execute. -/
theorem ExecutesLog.isPrefix_executed (h : s.ExecutesLog log) : s.executed <+: executes log := by
  have htaken := h.taken
  cases hloop : s.loop with
  | idle | compacting message op | sending message op =>
      rw [hloop] at htaken
      rw [htaken.2]
      apply isPrefix_executes_take
  | received message op | executing message op =>
      rw [hloop] at htaken
      obtain ⟨-, taken, -, -, hexecuted⟩ := htaken
      rw [hexecuted]
      apply isPrefix_executes_take
  | installing message =>
      rw [hloop] at htaken
      exact htaken.elim

/-- The table knows what has been executed. -/
theorem ExecutesLog.duplicate (h : s.ExecutesLog log) {op : Op} (hcovered : Covered s.executed op) :
    s.kv.ifRequestDuplicate op.clientId op.requestId = true := by
  obtain ⟨other, hmem, hclient, hle⟩ := hcovered
  obtain ⟨last, hlast, hle'⟩ := h.entered other hmem
  rw [hclient] at hlast
  simp only [KvServer.ifRequestDuplicate, hlast, decide_eq_true_eq]
  exact hle.trans hle'

/-- One more command of the log is taken. -/
theorem executes_take_succ {taken : ℕ} {op : Op} (hop : log[taken]? = some op) :
    executes (log.take (taken + 1)) =
      if Covered (executes (log.take taken)) op then executes (log.take taken)
      else executes (log.take taken) ++ [op] := by
  rw [List.take_add_one, hop, Option.toList_some, executes_snoc]

variable [TextArchive Op]

theorem getElem?_messages (log : List Op) (k : ℕ) :
    (messages log)[k]? = log[k]?.map (delivered k) := by
  rw [messages, List.getElem?_mapIdx]

theorem mem_messages {message : ApplyMsg} (h : message ∈ messages log) :
    message.snapshotValid = false ∧ ∃ op ∈ log, message.command = TextArchive.save op := by
  obtain ⟨k, hk⟩ := List.mem_iff_getElem?.mp h
  rw [getElem?_messages] at hk
  obtain ⟨op, hop, rfl⟩ := Option.map_eq_some_iff.mp hk
  exact ⟨rfl, op, List.mem_of_getElem? hop, rfl⟩

variable [LawfulTextArchive Op] [TextArchive (SkipListDump String String)]
  [TextArchive KvSnapshot] {a : Action} {kv : KvServer} {loop : LoopState} {popped : ℕ}
  {executed : List Op}

/-- The step lemma of a server. -/
theorem Effect.executesLog (heffect : Effect (messages log) s a kv loop popped executed)
    (h : s.ExecutesLog log) (hsound : s.Sound (· ∈ log)) (hwrite : ∀ op ∈ log, op.isWrite = true)
    (hinternal : a.internal = true) :
    ExecutesLog log { s with kv := kv, loop := loop, popped := popped, executed := executed } := by
  have htaken := h.taken
  have hloop := hsound.loop
  cases heffect with
  | same => exact h
  | popped message op hidle hmessage hvalid hop =>
      rw [hidle] at htaken
      rw [getElem?_messages] at hmessage
      obtain ⟨op', hop', rfl⟩ := Option.map_eq_some_iff.mp hmessage
      rw [delivered, LawfulTextArchive.load_save, Option.some.injEq] at hop
      subst hop
      refine ⟨h.index, h.entered, ?_, s.popped, rfl, hop', htaken.2⟩
      dsimp only [delivered]
      omega
  | passed message hidle hmessage hvalid =>
      rw [getElem?_messages] at hmessage
      obtain ⟨op', -, rfl⟩ := Option.map_eq_some_iff.mp hmessage
      cases hvalid
  | covered message op hreceived hindex =>
      rw [hreceived] at htaken
      rw [h.index] at hindex
      exact absurd htaken.1 (not_lt.mpr hindex)
  | skipped message op hreceived hindex hskip =>
      rw [hreceived] at htaken hloop
      obtain ⟨-, taken, hpopped, hop, hexecuted⟩ := htaken
      have hcovered : Covered s.executed op := by
        rcases hskip with hdup | hother
        · exact hsound.duplicate op hdup
        · rw [hwrite op hloop.2] at hother
          cases hother
      refine ⟨h.index, h.entered, ?_, ?_⟩
      · obtain ⟨hlt, -⟩ := List.getElem?_eq_some_iff.mp hop
        dsimp only
        omega
      · rw [hexecuted] at hcovered
        dsimp only
        rw [hpopped, executes_take_succ hop, if_pos hcovered]
        exact hexecuted
  | checked message op hreceived hindex hfresh hiswrite =>
      rw [hreceived] at htaken
      refine ⟨h.index, h.entered, fun hcovered ↦ ?_, htaken.2⟩
      rw [h.duplicate hcovered] at hfresh
      cases hfresh
  | executed heads message op kv hexecuting hkv =>
      rw [hexecuting] at htaken
      obtain ⟨hnew, taken, hpopped, hop, hexecuted⟩ := htaken
      have htable := KvServer.write_eq_some hkv
      obtain ⟨list, -, heq⟩ := Option.bind_eq_some_iff.mp hkv
      refine ⟨?_, ?_, ?_, ?_⟩
      · cases heq
        exact h.index
      · intro other hother
        dsimp only
        rw [htable]
        by_cases hclient : other.clientId = op.clientId
        · refine ⟨op.requestId, ?_, ?_⟩
          · rw [hclient, AList.lookup_insert]
          · rcases List.mem_append.mp hother with hother | hother
            · by_contra hlt
              exact hnew ⟨other, hother, hclient, (not_le.mp hlt).le⟩
            · rw [List.mem_singleton.mp hother]
        · rw [AList.lookup_insert_ne hclient]
          rcases List.mem_append.mp hother with hother | hother
          · exact h.entered other hother
          · rw [List.mem_singleton.mp hother] at hclient
            exact absurd rfl hclient
      · obtain ⟨hlt, -⟩ := List.getElem?_eq_some_iff.mp hop
        dsimp only
        omega
      · rw [hexecuted] at hnew
        dsimp only
        rw [hpopped, executes_take_succ hop, if_neg hnew, hexecuted]
  | compacted large message op data hcompacting =>
      rw [hcompacting] at htaken
      exact ⟨h.index, h.entered, htaken⟩
  | sent message op hsending =>
      rw [hsending] at htaken hloop
      rw [afterCommand_eq_idle hloop.1]
      exact ⟨h.index, h.entered, htaken⟩
  | installed => cases hinternal
  | recorded => cases hinternal

theorem ExecutesLog.step (h : s.ExecutesLog log) (hsound : s.Sound (· ∈ log))
    (hwrite : ∀ op ∈ log, op.isWrite = true) (hinternal : a.internal = true) :
    (s.step (messages log) a).ExecutesLog log := by
  obtain ⟨hindex, hentered, htaken⟩ :=
    (step_effect (messages log) s a).executesLog h hsound hwrite hinternal
  exact ⟨hindex, hentered, htaken⟩

end Server

end HttpRaftKv.Kv
