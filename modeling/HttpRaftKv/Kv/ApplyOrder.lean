import HttpRaftKv.Kv.ApplyStream
import HttpRaftKv.Kv.Archive
import HttpRaftKv.Raft.Archive

/-!
# The state of a server moves forward

If every message is pushed where it fits behind the messages in the channel, then the
server processes the next command or installs a snapshot that is ahead.  A command that
the last snapshot covers may come late, since it is dropped.
-/

namespace HttpRaftKv.Kv

open Raft

/-! ## What the server does with it -/

/-- The server has done what the messages lead to. -/
def Reached (base : ℤ) (messages : List ApplyMsg) (applied : List Applied) (kv : KvServer) :
    Prop :=
  Runs.run advance (base, 0) messages =
    (Runs.run (fun _ a ↦ a.index) base applied, kv.lastSnapShotRaftLogIndex)

/-- The server has done what the messages it has taken lead to, up to the one it holds. -/
def Follows (base : ℤ) (applyChan : List ApplyMsg) (applied : List Applied) (kv : KvServer)
    (popped : ℕ) : LoopState → Prop
  | .idle => popped ≤ applyChan.length ∧ Reached base (applyChan.take popped) applied kv
  | .received message _ =>
      ∃ taken, popped = taken + 1 ∧ applyChan[taken]? = some message ∧ IsCommand message ∧
        Reached base (applyChan.take taken) applied kv
  | .installing message =>
      ∃ taken, popped = taken + 1 ∧ applyChan[taken]? = some message ∧ IsSnapshot message ∧
        Reached base (applyChan.take taken) applied kv
  | .executing message _ | .compacting message _ | .sending message _ =>
      popped ≤ applyChan.length ∧ message ∈ applyChan ∧ IsCommand message ∧
        Reached base (applyChan.take popped) applied kv

namespace Follows

variable {base : ℤ} {applyChan : List ApplyMsg} {applied : List Applied} {kv kv' : KvServer}
  {popped : ℕ} {loop : LoopState}

/-- The channel may grow, and the last snapshot is all that matters of the data. -/
theorem mono (h : Follows base applyChan applied kv popped loop) (more : List ApplyMsg)
    (hkv : kv'.lastSnapShotRaftLogIndex = kv.lastSnapShotRaftLogIndex) :
    Follows base (applyChan ++ more) applied kv' popped loop := by
  have htake : ∀ k ≤ applyChan.length, Reached base (applyChan.take k) applied kv →
      Reached base ((applyChan ++ more).take k) applied kv' := by
    intro k hk hreached
    rw [List.take_append_of_le_length hk, Reached, hkv]
    exact hreached
  have hget : ∀ {taken : ℕ} {message : ApplyMsg}, applyChan[taken]? = some message →
      taken < applyChan.length ∧ (applyChan ++ more)[taken]? = some message := by
    intro taken message hmessage
    obtain ⟨hlt, -⟩ := List.getElem?_eq_some_iff.mp hmessage
    exact ⟨hlt, by rw [List.getElem?_append_left hlt, hmessage]⟩
  cases loop with
  | idle => exact ⟨by simpa using Nat.le_add_right_of_le h.1, htake popped h.1 h.2⟩
  | received message op | installing message =>
      obtain ⟨taken, hpopped, hmessage, hkind, hreached⟩ := h
      obtain ⟨hlt, hmessage⟩ := hget hmessage
      exact ⟨taken, hpopped, hmessage, hkind, htake taken hlt.le hreached⟩
  | executing message op | compacting message op | sending message op =>
      obtain ⟨hle, hmem, hkind, hreached⟩ := h
      exact ⟨by simpa using Nat.le_add_right_of_le hle, List.mem_append_left _ hmem, hkind,
        htake popped hle hreached⟩

theorem congr_kv (h : Follows base applyChan applied kv popped loop)
    (hkv : kv'.lastSnapShotRaftLogIndex = kv.lastSnapShotRaftLogIndex) :
    Follows base applyChan applied kv' popped loop := by
  simpa using h.mono [] hkv

end Follows

section server

variable {base : ℤ} {applyChan : List ApplyMsg} {applied : List Applied}

theorem take_succ_of_getElem? {taken : ℕ} {message : ApplyMsg}
    (h : applyChan[taken]? = some message) :
    applyChan.take (taken + 1) = applyChan.take taken ++ [message] := by
  rw [List.take_add_one, h, Option.toList_some]

/-- The messages of a channel fit behind those before them. -/
theorem fits_of_getElem? {state : ℤ × ℤ} (hfits : Runs.Along advance Fits state applyChan)
    {taken : ℕ} {message : ApplyMsg} (h : applyChan[taken]? = some message) :
    Fits (Runs.run advance state (applyChan.take taken)) message := by
  apply (Runs.along_iff_isPrefix advance Fits state applyChan).mp hfits
  rw [← take_succ_of_getElem? h]
  exact List.take_prefix _ _

/-- One more message is done. -/
theorem Reached.snoc {kv kv' : KvServer} {messages : List ApplyMsg} {message : ApplyMsg}
    (h : Reached base messages applied kv) {new : List Applied}
    (hadvance : advance (Runs.run (fun _ a ↦ a.index) base applied, kv.lastSnapShotRaftLogIndex)
      message = (Runs.run (fun _ a ↦ a.index) base (applied ++ new),
        kv'.lastSnapShotRaftLogIndex)) :
    Reached base (messages ++ [message]) (applied ++ new) kv' := by
  rw [Reached, Runs.run_snoc, h, hadvance]

theorem lastSnapShotRaftLogIndex_write {kv kv' : KvServer} {op : Op} {heads : ℕ}
    (h : kv.write op heads = some kv') :
    kv'.lastSnapShotRaftLogIndex = kv.lastSnapShotRaftLogIndex := by
  obtain ⟨skipList, -, heq⟩ := Option.bind_eq_some_iff.mp h
  cases heq
  rfl

theorem lastSnapShotRaftLogIndex_getSnapShotFromRaft [TextArchive (SkipListDump String String)]
    [TextArchive KvSnapshot] {kv kv' : KvServer} {message : ApplyMsg} {heads : ℕ → ℕ}
    (h : kv.getSnapShotFromRaft message heads = some kv') :
    kv'.lastSnapShotRaftLogIndex = message.snapshotIndex := by
  rw [KvServer.getSnapShotFromRaft, KvServer.condInstallSnapshot, if_pos rfl] at h
  obtain ⟨kv₁, -, heq⟩ := Option.bind_eq_some_iff.mp h
  cases heq
  rfl

variable [TextArchive (SkipListDump String String)] [TextArchive KvSnapshot] {s : Server}

/-- The loop looks at the index of a command. -/
theorem follows_check (hfits : Runs.Along advance Fits (base, 0) applyChan)
    (h : Follows base applyChan applied s.kv s.popped s.loop)
    (hforward : Applied.MovesForward base applied) :
    Follows base applyChan (applied ++ (s.applies .check).toList) s.check.kv s.check.popped
        s.check.loop ∧
      Applied.MovesForward base (applied ++ (s.applies .check).toList) := by
  unfold Server.check Server.applies
  cases hloop : s.loop with
  | received message op =>
      rw [hloop] at h
      obtain ⟨taken, hpopped, hmessage, hkind, hreached⟩ := h
      have hfit := fits_of_getElem? hfits hmessage
      have hmem : message ∈ applyChan := List.mem_of_getElem? hmessage
      obtain ⟨hlt, -⟩ := List.getElem?_eq_some_iff.mp hmessage
      have hle : s.popped ≤ applyChan.length := by omega
      rw [hreached, Fits, if_pos hkind.1] at hfit
      by_cases hindex : message.commandIndex ≤ s.kv.lastSnapShotRaftLogIndex
      · simp only [hindex, if_true, Option.toList_none, List.append_nil]
        rw [Server.afterCommand_eq_idle hkind.2]
        refine ⟨⟨hle, ?_⟩, hforward⟩
        rw [hpopped, take_succ_of_getElem? hmessage, ← List.append_nil applied]
        apply hreached.snoc
        rw [advance, if_pos hkind.1, if_pos hindex, List.append_nil]
      · have hnext := hfit.resolve_left hindex
        simp only [hindex, if_false, Option.toList_some]
        have hdone : Reached base (applyChan.take s.popped)
            (applied ++ [.command message.commandIndex]) s.kv := by
          rw [hpopped, take_succ_of_getElem? hmessage]
          apply hreached.snoc
          rw [advance, if_pos hkind.1, if_neg hindex, Runs.run_snoc]
          rfl
        refine ⟨?_, ?_⟩
        · split_ifs
          · exact ⟨hle, hmem, hkind, hdone⟩
          · exact ⟨hle, hmem, hkind, hdone⟩
        · exact ⟨(Runs.along_snoc ..).mpr ⟨hforward.along, hnext⟩⟩
  | _ => simpa [hloop] using And.intro h hforward

/-- The loop installs a snapshot, if that does not throw. -/
theorem follows_install (heads : ℕ → ℕ) (hfits : Runs.Along advance Fits (base, 0) applyChan)
    (h : Follows base applyChan applied s.kv s.popped s.loop)
    (hforward : Applied.MovesForward base applied) {s' : Server}
    (hs' : (s.install heads).getD { s with terminated := true } = s') :
    Follows base applyChan (applied ++ (s.applies (.install heads)).toList) s'.kv s'.popped
        s'.loop ∧
      Applied.MovesForward base (applied ++ (s.applies (.install heads)).toList) := by
  unfold Server.install at hs'
  unfold Server.applies
  cases hloop : s.loop with
  | installing message =>
      rw [hloop] at h hs'
      cases hkv : s.kv.getSnapShotFromRaft message heads with
      | none =>
          simp only [hkv, Option.bind_eq_bind, Option.bind_none, Option.getD_none] at hs'
          subst hs'
          simpa [hloop, hkv] using And.intro h hforward
      | some kv =>
          simp only [hkv, Option.bind_eq_bind, Option.bind_some, Option.pure_def, Option.getD_some]
            at hs'
          subst hs'
          obtain ⟨taken, hpopped, hmessage, hkind, hreached⟩ := h
          have hcommand : ¬ message.commandValid = true := by simp [hkind.1]
          have hfit := fits_of_getElem? hfits hmessage
          obtain ⟨hlt, -⟩ := List.getElem?_eq_some_iff.mp hmessage
          have hle : s.popped ≤ applyChan.length := by omega
          rw [hreached, Fits, if_neg hcommand] at hfit
          simp only [hkv, Option.map_some, Option.toList_some]
          refine ⟨⟨hle, ?_⟩, ?_⟩
          · rw [hpopped, take_succ_of_getElem? hmessage]
            apply hreached.snoc
            rw [advance, if_neg hcommand, Runs.run_snoc,
              lastSnapShotRaftLogIndex_getSnapShotFromRaft hkv]
            rfl
          · exact ⟨(Runs.along_snoc ..).mpr ⟨hforward.along, hfit⟩⟩
  | _ =>
      rw [hloop] at hs'
      subst hs'
      simpa [hloop] using And.intro h hforward

/-- The index of a snapshot that the server makes is that of a command it was given. -/
theorem mem_of_snapshots {kv : KvServer} {popped : ℕ} {a : Action} {index : ℤ} {data : String}
    (hsnapshots : s.snapshots a = some (index, data))
    (h : Follows base applyChan applied kv popped s.loop) :
    ∃ message ∈ applyChan, IsCommand message ∧ message.commandIndex = index := by
  unfold Server.snapshots at hsnapshots
  split at hsnapshots
  · cases hloop : s.loop with
    | compacting message op =>
        rw [hloop] at h hsnapshots
        obtain ⟨p, -, heq⟩ := Option.map_eq_some_iff.mp hsnapshots
        cases heq
        exact ⟨message, h.2.1, h.2.2.1, rfl⟩
    | _ => simp [hloop] at hsnapshots
  · cases hsnapshots

variable [TextArchive Op]

/-- The other steps only take a message or go on with one. -/
theorem Server.Effect.follows {a : Action} {kv : KvServer} {loop : LoopState} {popped : ℕ}
    {executed : List Op} (heffect : Server.Effect applyChan s a kv loop popped executed)
    (hcheck : a ≠ .check) (hinstall : ∀ heads, a ≠ .install heads)
    (hmessages : ∀ message ∈ applyChan, IsCommand message ∨ IsSnapshot message)
    (h : Follows base applyChan applied s.kv s.popped s.loop) :
    Follows base applyChan applied kv popped loop := by
  cases heffect with
  | same => exact h
  | popped message op hloop hmessage hvalid hop =>
      rw [hloop] at h
      have hkind : IsCommand message := by
        rcases hmessages message (List.mem_of_getElem? hmessage) with hkind | hkind
        · exact hkind
        · simp [hkind.1] at hvalid
      exact ⟨s.popped, rfl, hmessage, hkind, h.2⟩
  | passed message hloop hmessage hvalid =>
      rw [hloop] at h
      have hkind : IsSnapshot message := by
        rcases hmessages message (List.mem_of_getElem? hmessage) with hkind | hkind
        · simp [hkind.1] at hvalid
        · exact hkind
      rw [Server.afterCommand, if_pos hkind.2]
      exact ⟨s.popped, rfl, hmessage, hkind, h.2⟩
  | covered => exact absurd rfl hcheck
  | skipped => exact absurd rfl hcheck
  | checked => exact absurd rfl hcheck
  | executed heads message op kv hloop hkv =>
      rw [hloop] at h
      exact h.congr_kv (lastSnapShotRaftLogIndex_write hkv)
  | compacted large message op data hloop =>
      rw [hloop] at h
      exact h.congr_kv rfl
  | sent message op hloop =>
      rw [hloop] at h
      obtain ⟨hle, -, hkind, hreached⟩ := h
      rw [Server.afterCommand_eq_idle hkind.2]
      exact ⟨hle, hreached⟩
  | installed heads => exact absurd rfl (hinstall heads)
  | recorded n op hreads => exact h.congr_kv rfl

/-- The step lemma of the server. -/
theorem follows_step (hterminated : s.terminated = false)
    (hfits : Runs.Along advance Fits (base, 0) applyChan)
    (hmessages : ∀ message ∈ applyChan, IsCommand message ∨ IsSnapshot message)
    (h : Follows base applyChan applied s.kv s.popped s.loop)
    (hforward : Applied.MovesForward base applied) (a : Action) :
    Follows base applyChan (applied ++ (s.applies a).toList) (s.step applyChan a).kv
        (s.step applyChan a).popped (s.step applyChan a).loop ∧
      Applied.MovesForward base (applied ++ (s.applies a).toList) := by
  by_cases hcheck : a = .check
  · subst hcheck
    have hstep : s.step applyChan .check = s.check := by
      simp [Server.step, Server.next, hterminated]
    rw [hstep]
    exact follows_check hfits h hforward
  by_cases hinstall : ∃ heads, a = .install heads
  · obtain ⟨heads, rfl⟩ := hinstall
    apply follows_install heads hfits h hforward
    simp [Server.step, Server.next, hterminated]
  · have hnone : s.applies a = none := by
      cases a with
      | check => exact absurd rfl hcheck
      | install heads => exact absurd ⟨heads, rfl⟩ hinstall
      | _ => rfl
    rw [hnone, Option.toList_none, List.append_nil]
    exact ⟨(Server.step_effect applyChan s a).follows hcheck (not_exists.mp hinstall) hmessages h,
      hforward⟩

end server

/-! ## Runs -/

namespace Process

variable {n : ℕ}

structure InOrder (p : Process n) : Prop where
  fits : Runs.Along advance Fits (p.base, 0) p.applyChan
  messages : ∀ message ∈ p.applyChan,
    IsCommand message ∧ message.commandIndex ≤ p.rf.lastApplied ∨ IsSnapshot message
  pending : ∃ first, Pending p.rf.lastApplied first p.applyMsgs p.detached p.pushed
  follows : Follows p.base p.applyChan p.applied p.server.kv p.server.popped p.server.loop
  forward : Applied.MovesForward p.base p.applied

namespace InOrder

variable {p : Process n}

theorem start (rf : Node n) (kv : KvServer) : (start rf kv).InOrder where
  fits := trivial
  messages := by simp [Process.start]
  pending := ⟨rf.lastApplied + 1, Pending.start rf.lastApplied⟩
  follows := ⟨le_rfl, rfl⟩
  forward := ⟨trivial⟩

/-- A message that fits is added to the channel. -/
theorem snoc (h : p.InOrder) {message : ApplyMsg} {applyMsgs detached : List ApplyMsg} {first : ℕ}
    (hfits : Fits p.pushed message)
    (hmessage : IsCommand message ∧ message.commandIndex ≤ p.rf.lastApplied ∨ IsSnapshot message)
    (hpending : Pending p.rf.lastApplied first applyMsgs detached (advance p.pushed message)) :
    { p with
      applyMsgs := applyMsgs
      detached := detached
      applyChan := p.applyChan ++ [message] }.InOrder where
  fits := (Runs.along_snoc ..).mpr ⟨h.fits, hfits⟩
  messages := by
    intro other hmem
    rcases List.mem_append.mp hmem with hmem | hmem
    · exact h.messages other hmem
    · obtain rfl := List.mem_singleton.mp hmem
      exact hmessage
  pending := by
    refine ⟨first, ?_⟩
    rw [pushed, Runs.run_snoc]
    exact hpending
  follows := h.follows.mono [message] rfl
  forward := h.forward

/-- The node goes on, and what the applier and the threads have to push with it. -/
theorem of_node (h : p.InOrder) {rf : Node n} {applyMsgs detached : List ApplyMsg} {first : ℕ}
    (hle : p.rf.lastApplied ≤ rf.lastApplied)
    (hpending : Pending rf.lastApplied first applyMsgs detached p.pushed) :
    { p with rf := rf, applyMsgs := applyMsgs, detached := detached }.InOrder where
  fits := h.fits
  messages := by
    intro message hmem
    rcases h.messages message hmem with ⟨hkind, hindex⟩ | hkind
    · exact .inl ⟨hkind, hindex.trans (Int.ofNat_le.mpr hle)⟩
    · exact .inr hkind
  pending := ⟨first, hpending⟩
  follows := h.follows
  forward := h.forward

section steps

variable [TextArchive (BoostPersistRaftNode n)] [TextArchive Op]
  [TextArchive (SkipListDump String String)] [TextArchive KvSnapshot]

/-- The server goes on; a snapshot that it makes is of a command that has been applied. -/
theorem kv (h : p.InOrder) (hterminated : p.server.terminated = false) {a : Action} {rf : Node n}
    (hrf : p.compacted a = .ok rf) :
    { p with
      rf := rf
      server := p.server.step p.applyChan a
      applied := p.applied ++ (p.server.applies a).toList }.InOrder := by
  have happlied : rf.lastApplied = p.rf.lastApplied := by
    unfold compacted at hrf
    split at hrf
    · rename_i index data hsnapshots
      obtain ⟨message, hmem, hkind, rfl⟩ := mem_of_snapshots hsnapshots h.follows
      have hle : message.commandIndex ≤ p.rf.lastApplied := by
        rcases h.messages message hmem with ⟨-, hle⟩ | hother
        · exact hle
        · exact absurd (hkind.1.symm.trans hother.1) (by decide)
      rcases Node.lastApplied_snapshot hrf with hsame | hmax
      · exact hsame
      · omega
    · cases hrf
      rfl
  have hmessages : ∀ message ∈ p.applyChan, IsCommand message ∨ IsSnapshot message :=
    fun message hmem ↦ (h.messages message hmem).imp_left And.left
  obtain ⟨hfollows, hforward⟩ := follows_step hterminated h.fits hmessages h.follows h.forward a
  refine ⟨h.fits, ?_, ?_, hfollows, hforward⟩
  · simp only [happlied]
    exact h.messages
  · simp only [happlied]
    exact h.pending

theorem next (h : p.InOrder) {me : Fin n} {a : ProcessStep n} (hok : p.PushesInOrder a)
    (hterminated : p.server.terminated = false) {p' : Process n} (hp' : p.next me a = .ok p') :
    p'.InOrder ∧ p'.base = p.base := by
  obtain ⟨first, hpending⟩ := h.pending
  cases a with
  | raft a =>
      obtain ⟨rf, hrf, hp'⟩ := Checked.bind_eq_ok.mp hp'
      cases Checked.pure_eq_ok.mp hp'
      have happlied := Node.lastApplied_next hrf
      rw [← happlied] at hpending
      exact ⟨h.of_node happlied.ge hpending, rfl⟩
  | getApplyLogs =>
      simp only [Process.next] at hp'
      split_ifs at hp' with hempty
      · obtain ⟨⟨rf, applyMsgs⟩, hlogs, hp'⟩ := Checked.bind_eq_ok.mp hp'
        cases Checked.pure_eq_ok.mp hp'
        obtain ⟨happlied, hmsgs⟩ := Node.getApplyLogs_spec hlogs
        rw [hempty] at hpending
        have hnew := hpending.getApplyLogs hmsgs
        rw [← happlied] at hnew
        exact ⟨h.of_node (happlied ▸ le_max_left _ _) hnew, rfl⟩
      · cases Checked.pure_eq_ok.mp hp'
        exact ⟨h, rfl⟩
  | push =>
      simp only [Process.next] at hp'
      cases happlyMsgs : p.applyMsgs with
      | nil =>
          rw [happlyMsgs] at hp'
          cases hp'
          exact ⟨h, rfl⟩
      | cons message applyMsgs =>
          rw [happlyMsgs] at hp' hpending
          cases hp'
          obtain ⟨hfits, hrest⟩ := hpending.push (hok message (by simp [happlyMsgs]))
          have hindex := hpending.commandIndex_eq.1
          have hadd := hpending.first_add_le
          rw [List.length_cons] at hadd
          exact ⟨h.snoc hfits
            (.inl ⟨hpending.commands message List.mem_cons_self, by omega⟩) hrest, rfl⟩
  | installSnapshot args =>
      obtain ⟨⟨rf, reply, msg⟩, hinstall, hp'⟩ := Checked.bind_eq_ok.mp hp'
      cases Checked.pure_eq_ok.mp hp'
      rcases Node.installSnapshot_spec hinstall with ⟨rfl, happlied⟩ | ⟨happlied, rfl⟩
      · rw [← happlied] at hpending
        refine ⟨?_, rfl⟩
        simpa using h.of_node happlied.ge hpending
      · have hkind : IsSnapshot {
            snapshotValid := true
            snapshot := args.data
            snapshotTerm := args.lastsnapshotincludeterm
            snapshotIndex := args.lastsnapshotincludeindex } := ⟨rfl, rfl⟩
        have hnew := hpending.install hkind rfl
        rw [← happlied] at hnew
        exact ⟨h.of_node (happlied ▸ le_max_left _ _) hnew, rfl⟩
  | pushMsgToKvServer thread =>
      simp only [Process.next] at hp'
      cases hthread : p.detached[thread]? with
      | none =>
          rw [hthread] at hp'
          cases hp'
          exact ⟨h, rfl⟩
      | some message =>
          rw [hthread] at hp'
          cases hp'
          obtain ⟨hfits, hrest⟩ := hpending.pushSnapshot hthread (hok message hthread)
          exact ⟨h.snoc hfits
            (.inr (hpending.detached message (List.mem_of_getElem? hthread)).1) hrest, rfl⟩
  | kv a =>
      obtain ⟨rf, hrf, hp'⟩ := Checked.bind_eq_ok.mp hp'
      cases Checked.pure_eq_ok.mp hp'
      exact ⟨h.kv hterminated hrf, rfl⟩

theorem step (h : p.InOrder) {me : Fin n} {a : ProcessStep n} (hok : p.PushesInOrder a) :
    (p.step me a).InOrder ∧ (p.step me a).base = p.base := by
  unfold Process.step
  split_ifs with hend
  · exact ⟨h, rfl⟩
  · simp only [Bool.or_eq_true, not_or, Bool.not_eq_true] at hend
    split
    · rename_i p' hp'
      exact h.next hok hend.2 hp'
    · exact ⟨⟨h.fits, h.messages, h.pending, h.follows, h.forward⟩, rfl⟩

end steps

end InOrder

/-- Whatever the node and the server of a process do and however their threads
interleave, as long as every message is pushed where it fits, every command that the
server processes is the next one and every snapshot that it installs is ahead of its
state. -/
theorem state_index_moves_forward [TextArchive (BoostPersistRaftNode n)] [TextArchive Op]
    [TextArchive (SkipListDump String String)] [TextArchive KvSnapshot] (me : Fin n)
    (rf : Node n) (kv : KvServer) (as : List (ProcessStep n))
    (hok : Runs.Along (step me) PushesInOrder (start rf kv) as) :
    Applied.MovesForward rf.lastApplied (run me rf kv as).applied := by
  have hrun := Runs.invariant_of_step_along (step me)
    (P := fun _ p ↦ p.InOrder ∧ p.base = rf.lastApplied) ⟨InOrder.start rf kv, rfl⟩
    (fun _ _ h hstep ↦ ⟨(h.1.step hstep).1, (h.1.step hstep).2.trans h.2⟩) as hok
  have hforward := hrun.1.forward
  rw [hrun.2] at hforward
  exact hforward

/-! ## A snapshot and the command behind it -/

section concrete

open scoped Archive Raft.Archive

/-- The leader has a snapshot of two commands, and the third is committed. -/
def snapshotOfTwo (leader : Fin n) : InstallSnapshotRequest n where
  leaderid := leader
  term := 1
  lastsnapshotincludeindex := 2
  lastsnapshotincludeterm := 1
  data := TextArchive.save (KvSnapshot.mk
    (TextArchive.save (⟨["k"], ["v"]⟩ : SkipListDump String String))
    ((∅ : LastRequestId).insert "c" 2))

def thirdCommand (leader : Fin n) : AppendEntriesArgs n where
  term := 1
  leaderid := leader
  prevlogindex := 2
  prevlogterm := 1
  entries := [⟨TextArchive.save (⟨"Put", "k", "w", "c", 3⟩ : Op), 1, 3⟩]
  leadercommit := 3

def follower : Node n :=
  Node.fresh (Storage.Persister.create "" "")

/-- A follower gets both. -/
def receivesBoth (leader : Fin n) : List (ProcessStep n) :=
  [.installSnapshot (snapshotOfTwo leader), .raft (.appendEntries1 (thirdCommand leader)),
    .getApplyLogs]

def processCommand : List (ProcessStep n) :=
  [.kv .pop, .kv .check, .kv (.execute 0), .kv (.compact false), .kv .send]

def processSnapshot : List (ProcessStep n) :=
  [.kv .pop, .kv (.install fun _ ↦ 0)]

/-- The thread with the snapshot comes after the applier. -/
def snapshotComesLate (leader : Fin n) : List (ProcessStep n) :=
  receivesBoth leader ++ [.push, .pushMsgToKvServer 0] ++ processCommand ++ processSnapshot

/-- The follower skips to the third command, and then it goes back to the second. -/
theorem goes_back_in_snapshotComesLate :
    (run 1 follower .create (snapshotComesLate (0 : Fin 3))).applied =
        [.command 3, .snapshot 2] ∧
      ¬ Applied.MovesForward (follower (n := 3)).lastApplied [.command 3] ∧
      ¬ Applied.MovesForward (follower (n := 3)).lastApplied
        (run 1 follower .create (snapshotComesLate (0 : Fin 3))).applied := by
  refine ⟨?_, ?_, ?_⟩
  · decide +kernel
  · decide +kernel
  · decide +kernel

def snapshotComesFirst (leader : Fin n) : List (ProcessStep n) :=
  receivesBoth leader ++ [.pushMsgToKvServer 0, .push] ++ processSnapshot ++ processCommand

theorem moves_forward_in_snapshotComesFirst :
    (run 1 follower .create (snapshotComesFirst (0 : Fin 3))).applied =
        [.snapshot 2, .command 3] ∧
      Applied.MovesForward (follower (n := 3)).lastApplied
        (run 1 follower .create (snapshotComesFirst (0 : Fin 3))).applied :=
  ⟨by decide +kernel,
    state_index_moves_forward 1 follower .create (snapshotComesFirst (0 : Fin 3))
      (by decide +kernel)⟩

end concrete

end Process

end HttpRaftKv.Kv
