import HttpRaftKv.Kv.Archive
import HttpRaftKv.Kv.BlockingCalls

/-!
# Blocking calls that take effect once

What the servers execute is a function of the committed commands, and the attempts
of a call have increasing numbers.  As long as no attempt is committed behind an
earlier one of its call, a call has at most one command among those that are
executed; the server that answers a call has executed it, and has done so since the
call began.
-/

namespace HttpRaftKv.Kv

namespace Workload

variable {n : ℕ} {w w' : Workload n}

/-- A command that may be in the system: it is a write, and if it is of the client, then
it is the command of one of its attempts. -/
def Asked (w : Workload n) (op : Op) : Prop :=
  op.isWrite = true ∧ (op.clientId = w.clerk.clientId → ∃ number, w.ofCall number op = true)

/-- The call that is being made. -/
structure Current (w : Workload n) (write : Write) (before : Fin n → ℕ) : Prop where
  later : ∀ call ∈ w.returned, call.number < w.begun
  writes : ∀ op, w.ofCall w.begun op = true → op = write.command w.clerk.clientId op.requestId
  before_le : ∀ i, before i ≤ (w.servers i).executed.length
  notBefore : ∀ i, ∀ op ∈ (w.servers i).executed.take (before i), w.ofCall w.begun op = false

def BlockingSound (w : Workload n) : Blocking n → Prop
  | .idle => True
  | .looping write before => w.Current write before
  | .trying write before _ =>
      w.Current write before ∧ w.ofCall w.begun (w.command write) = true
  | .waiting write before server handler =>
      w.Current write before ∧ w.ofCall w.begun (w.command write) = true ∧
        (w.servers server).calls.requests handler = some (w.command write)

/-- The call has been executed once. -/
def Effected (w : Workload n) (call : ReturnedCall) : Prop :=
  ∃ op, call.applied.filter (w.ofCall call.number) = [op] ∧
    op = call.write.command w.clerk.clientId op.requestId

structure Sound (w : Workload n) : Prop where
  servers : ∀ i, (w.servers i).Sound (· ∈ w.log)
  executes : ∀ i, (w.servers i).ExecutesLog w.log
  requests : ∀ i h op, (w.servers i).calls.requests h = some op → w.Asked op
  started : ∀ op ∈ w.started, w.Asked op
  log : ∀ op ∈ w.log, w.Asked op
  fresh : ∀ i h, w.freshHandler ≤ h → (w.servers i).calls.requests h = none
  number : 0 ≤ w.clerk.requestId
  attempts : ∀ number op, w.ofCall number op = true → number ≤ w.begun ∧
    op.clientId = w.clerk.clientId ∧ op.requestId ≤ w.clerk.requestId
  distinct : ∀ number op number' op', w.ofCall number op = true → w.ofCall number' op' = true →
    op.requestId = op'.requestId → number = number' ∧ op = op'
  once : ∀ number, ((Kv.executes w.log).filter (w.ofCall number)).length ≤ 1
  blocking : w.BlockingSound w.blocking
  returned : ∀ call ∈ w.returned, call.number ≤ w.begun ∧ w.Effected call

theorem sound_init (r₀ r₁ r₂ r₃ : ℕ) : (init r₀ r₁ r₂ r₃ : Workload n).Sound where
  servers _ := Server.sound_boot
  executes _ := Server.executesLog_boot
  requests _ _ _ h := by cases h
  started _ h := by cases h
  log _ h := by cases h
  fresh _ _ _ := rfl
  number := le_rfl
  attempts _ _ h := by simp [ofCall, init] at h
  distinct _ _ _ _ h := by simp [ofCall, init] at h
  once _ := Nat.zero_le _
  blocking := trivial
  returned _ h := by cases h

/-! ## What a step keeps -/

theorem Current.mono {write : Write} {before : Fin n → ℕ} (h : w.Current write before)
    (hclient : w'.clerk.clientId = w.clerk.clientId) (hbegun : w'.begun = w.begun)
    (hattempts : w'.attempts = w.attempts) (hreturned : w'.returned = w.returned)
    (hexecuted : ∀ i, (w.servers i).executed <+: (w'.servers i).executed) :
    w'.Current write before := by
  have hof : w'.ofCall = w.ofCall := by
    funext number op
    simp only [ofCall, hattempts]
  refine ⟨?_, ?_, fun i ↦ ?_, fun i ↦ ?_⟩
  · rw [hreturned, hbegun]
    exact h.later
  · rw [hof, hbegun, hclient]
    exact h.writes
  · exact (h.before_le i).trans (hexecuted i).length_le
  · obtain ⟨more, hmore⟩ := hexecuted i
    rw [hof, hbegun, ← hmore, List.take_append_of_le_length (h.before_le i)]
    exact h.notBefore i

theorem BlockingSound.mono {blocking : Blocking n} (h : w.BlockingSound blocking)
    (hclient : w'.clerk.clientId = w.clerk.clientId)
    (hnumber : w'.clerk.requestId = w.clerk.requestId) (hbegun : w'.begun = w.begun)
    (hattempts : w'.attempts = w.attempts) (hreturned : w'.returned = w.returned)
    (hexecuted : ∀ i, (w.servers i).executed <+: (w'.servers i).executed)
    (hrequests : ∀ i k op, (w.servers i).calls.requests k = some op →
      (w'.servers i).calls.requests k = some op) : w'.BlockingSound blocking := by
  have hcommand : w'.command = w.command := by
    funext write
    simp only [command, hclient, hnumber]
  have hof : w'.ofCall = w.ofCall := by
    funext number op
    simp only [ofCall, hattempts]
  have hcurrent : ∀ {write before}, w.Current write before → w'.Current write before :=
    fun hcurrent ↦ hcurrent.mono hclient hbegun hattempts hreturned hexecuted
  cases blocking with
  | idle => trivial
  | looping write before => exact hcurrent h
  | trying write before server =>
      rw [BlockingSound, hof, hbegun, hcommand]
      exact ⟨hcurrent h.1, h.2⟩
  | waiting write before server handler =>
      rw [BlockingSound, hof, hbegun, hcommand]
      exact ⟨hcurrent h.1, h.2.1, hrequests server handler _ h.2.2⟩

theorem servers_setServer (w : Workload n) (server : Fin n) (s : Server) (i : Fin n) :
    (w.setServer server s).servers i = if i = server then s else w.servers i := by
  simp only [setServer, Function.update_apply]

/-- A property of the servers is shown for the one that has changed. -/
theorem forall_setServer {P : Fin n → Server → Prop} {server : Fin n} {s : Server}
    (hold : ∀ i, P i (w.servers i)) (hs : P server s) :
    ∀ i, P i ((w.setServer server s).servers i) := by
  intro i
  rw [servers_setServer]
  split_ifs with hi
  · rw [hi]
    exact hs
  · exact hold i

/-- A server goes on, and perhaps the command of one of its requests is started. -/
theorem Sound.setServer (h : w.Sound) {server : Fin n} {s : Server}
    (hs : s.Sound (· ∈ w.log)) (hexecutes : s.ExecutesLog w.log)
    (hrequests : s.calls.requests = (w.servers server).calls.requests)
    (hexecuted : (w.servers server).executed <+: s.executed) {started : List Op}
    (hstarted : ∀ op ∈ started, w.Asked op) :
    { w.setServer server s with started := started }.Sound := by
  have hsame : ∀ i, ((w.setServer server s).servers i).calls.requests =
      (w.servers i).calls.requests :=
    forall_setServer (P := fun i s ↦ s.calls.requests = (w.servers i).calls.requests)
      (fun _ ↦ rfl) hrequests
  refine ⟨forall_setServer h.servers hs, forall_setServer h.executes hexecutes, fun i k ↦ ?_,
    hstarted, h.log, fun i k hk ↦ ?_, h.number, h.attempts, h.distinct, h.once, ?_, h.returned⟩
  · dsimp only
    rw [hsame]
    exact h.requests i k
  · dsimp only
    rw [hsame]
    exact h.fresh i k hk
  · refine BlockingSound.mono h.blocking rfl rfl rfl rfl rfl ?_ ?_
    · exact forall_setServer (P := fun i s ↦ (w.servers i).executed <+: s.executed)
        (fun _ ↦ List.prefix_rfl) hexecuted
    · intro i k op hop
      dsimp only
      rw [hsame]
      exact hop

/-- The call is at another point. -/
theorem Sound.setBlocking (h : w.Sound) {blocking : Blocking n}
    (hblocking : w.BlockingSound blocking) : { w with blocking := blocking }.Sound where
  servers := h.servers
  executes := h.executes
  requests := h.requests
  started := h.started
  log := h.log
  fresh := h.fresh
  number := h.number
  attempts := h.attempts
  distinct := h.distinct
  once := h.once
  blocking := hblocking.mono rfl rfl rfl rfl rfl (fun _ ↦ List.prefix_rfl) fun _ _ _ h ↦ h
  returned := h.returned

/-- The call returns. -/
theorem Sound.return (h : w.Sound) (leader : ℕ) {call : ReturnedCall}
    (hnumber : call.number = w.begun) (hcall : w.Effected call) :
    { w with
      clerk := { w.clerk with recentLeaderId := leader }
      blocking := .idle
      returned := w.returned ++ [call] }.Sound where
  servers := h.servers
  executes := h.executes
  requests := h.requests
  started := h.started
  log := h.log
  fresh := h.fresh
  number := h.number
  attempts := h.attempts
  distinct := h.distinct
  once := h.once
  blocking := trivial
  returned := by
    intro other hother
    rcases List.mem_append.mp hother with hother | hother
    · exact h.returned other hother
    · rw [List.mem_singleton.mp hother]
      exact ⟨hnumber.le, hcall⟩

/-- A call begins: none of its commands is known. -/
theorem Sound.call (h : w.Sound) (write : Write) :
    { w with
      begun := w.begun + 1
      blocking := .looping write fun i ↦ (w.servers i).executed.length }.Sound := by
  have hnone : ∀ op, w.ofCall (w.begun + 1) op = false := by
    intro op
    by_contra hof
    have := (h.attempts _ op (Bool.eq_true_of_not_eq_false hof)).1
    omega
  refine ⟨h.servers, h.executes, h.requests, h.started, h.log, h.fresh, h.number,
    fun number op hof ↦ ?_, h.distinct, h.once, ⟨fun call hcall ↦ ?_, fun op hof ↦ ?_,
      fun i ↦ le_rfl, fun i op _ ↦ hnone op⟩, fun call hcall ↦ ?_⟩
  · obtain ⟨hle, hrequest⟩ := h.attempts number op hof
    exact ⟨Nat.le_succ_of_le hle, hrequest⟩
  · exact Nat.lt_succ_of_le (h.returned call hcall).1
  · exact absurd (hof.symm.trans (hnone op)) (by decide)
  · obtain ⟨hle, heffected⟩ := h.returned call hcall
    exact ⟨Nat.le_succ_of_le hle, heffected⟩

theorem requests_request (server : Fin n) (op : Op)
    (hfresh : (w.servers server).calls.requests w.freshHandler = none) (i : Fin n) (k : ℕ) :
    ((w.request server op).servers i).calls.requests k =
      if i = server ∧ k = w.freshHandler then some op
      else (w.servers i).calls.requests k := by
  simp only [request, servers_setServer]
  split_ifs with hi hk hk
  · rw [Calls.requests_call hfresh, if_pos hk.2]
  · rw [Calls.requests_call hfresh, if_neg fun heq ↦ hk ⟨hi, heq⟩, hi]
  · exact absurd hk.1 hi
  · rfl

/-- A server gets a request. -/
theorem Sound.request (h : w.Sound) (server : Fin n) {op : Op} (hop : w.Asked op) :
    (w.request server op).Sound := by
  have hrequests := requests_request server op (h.fresh server w.freshHandler le_rfl)
  have hs := h.servers server
  have hexecutes := h.executes server
  refine ⟨forall_setServer h.servers ⟨hs.table, hs.executed, hs.loop, hs.calls.call _ _⟩,
    forall_setServer h.executes ⟨hexecutes.index, hexecutes.entered, hexecutes.taken⟩,
    fun i k other hother ↦ ?_, h.started, h.log, fun i k hk ↦ ?_, h.number, h.attempts,
    h.distinct, h.once, ?_, h.returned⟩
  · rw [hrequests] at hother
    split_ifs at hother
    · cases hother
      exact hop
    · exact h.requests i k other hother
  · have hk : w.freshHandler + 1 ≤ k := hk
    rw [hrequests, if_neg (by omega)]
    exact h.fresh i k (by omega)
  · refine BlockingSound.mono h.blocking rfl rfl rfl rfl rfl ?_ ?_
    · exact forall_setServer (P := fun i s ↦ (w.servers i).executed <+: s.executed)
        (fun _ ↦ List.prefix_rfl) List.prefix_rfl
    · intro i k other hother
      rw [hrequests, if_neg, hother]
      rintro ⟨rfl, rfl⟩
      rw [h.fresh i w.freshHandler le_rfl] at hother
      cases hother

/-! ## Attempts -/

theorem nextRequest_requestId {clerk : Clerk} (hpos : 0 ≤ clerk.requestId)
    (hlt : clerk.requestId + 1 < 2 ^ 31) :
    clerk.nextRequest.requestId = clerk.requestId + 1 := by
  rw [Clerk.nextRequest]
  exact Int.bmod_eq_of_le (by omega) (by omega)

theorem Sound.tryPutAppend (h : w.Sound) {write : Write} {before : Fin n → ℕ}
    (hlooping : w.blocking = .looping write before) (hok : w.Settled .tryPutAppend) :
    (w.tryPutAppend write before).Sound := by
  have hcurrent := h.blocking
  rw [hlooping] at hcurrent
  have hid := nextRequest_requestId h.number hok
  rw [Workload.tryPutAppend]
  split_ifs with hpos
  · dsimp only
    set new := write.command w.clerk.nextRequest.clientId w.clerk.nextRequest.requestId with hnew
    have hnumber : new.requestId = w.clerk.requestId + 1 := hid
    have hof : ∀ number op,
        decide ((number, op) ∈ w.attempts ++ [(w.begun, new)]) = true ↔
          w.ofCall number op = true ∨ number = w.begun ∧ op = new := by
      simp [ofCall]
    -- no command with the new number has been used
    have hunused : ∀ number op, w.ofCall number op = true → op.requestId ≠ new.requestId := by
      intro number op hop heq
      have := (h.attempts number op hop).2.2
      omega
    have hsame : ∀ op ∈ w.log, ∀ number,
        decide ((number, op) ∈ w.attempts ++ [(w.begun, new)]) = w.ofCall number op := by
      intro op hop number
      rw [Bool.eq_iff_iff, hof]
      refine or_iff_left ?_
      rintro ⟨-, rfl⟩
      obtain ⟨number', hnumber'⟩ := (h.log new hop).2 rfl
      exact hunused number' new hnumber' rfl
    have hasked : ∀ op, w.Asked op → ({ w with
        clerk := w.clerk.nextRequest
        attempts := w.attempts ++ [(w.begun, new)]
        blocking := .trying write before ⟨w.clerk.nextRequest.recentLeaderId % n,
          Nat.mod_lt _ hpos⟩ } : Workload n).Asked op := by
      rintro op ⟨hwrite, hattempt⟩
      refine ⟨hwrite, fun hclient ↦ ?_⟩
      obtain ⟨number, hnumber⟩ := hattempt hclient
      exact ⟨number, (hof number op).mpr (.inl hnumber)⟩
    refine ⟨h.servers, h.executes, fun i k op hop ↦ hasked op (h.requests i k op hop),
      fun op hop ↦ hasked op (h.started op hop), fun op hop ↦ hasked op (h.log op hop), h.fresh,
      ?_, fun number op hop ↦ ?_, fun number op number' op' hop hop' heq ↦ ?_, fun number ↦ ?_,
      ⟨⟨hcurrent.later, fun op hop ↦ ?_, hcurrent.before_le, fun i op hop ↦ ?_⟩, ?_⟩,
      fun call hcall ↦ ?_⟩
    · have := h.number
      dsimp only
      omega
    · dsimp only
      rcases (hof number op).mp hop with hop | ⟨rfl, rfl⟩
      · obtain ⟨hle, hclient, hle'⟩ := h.attempts number op hop
        exact ⟨hle, hclient, by omega⟩
      · exact ⟨le_rfl, rfl, le_rfl⟩
    · rcases (hof number op).mp hop with hop | ⟨rfl, rfl⟩
      · rcases (hof number' op').mp hop' with hop' | ⟨rfl, rfl⟩
        · exact h.distinct number op number' op' hop hop' heq
        · exact absurd heq (hunused number op hop)
      · rcases (hof number' op').mp hop' with hop' | ⟨rfl, rfl⟩
        · exact absurd heq.symm (hunused number' op' hop')
        · exact ⟨rfl, rfl⟩
    · refine le_trans (le_of_eq ?_) (h.once number)
      congr 1
      exact List.filter_congr fun op hop ↦ hsame op (executes_subset w.log op hop) number
    · rcases (hof w.begun op).mp hop with hop | ⟨-, rfl⟩
      · exact hcurrent.writes op hop
      · rfl
    · have hmem := (h.servers i).executed op (List.mem_of_mem_take hop)
      exact (hsame op hmem w.begun).trans (hcurrent.notBefore i op hop)
    · exact (hof w.begun new).mpr (.inr ⟨rfl, rfl⟩)
    · obtain ⟨hle, op, hfilter, hop⟩ := h.returned call hcall
      refine ⟨hle, op, ?_, hop⟩
      rw [← hfilter]
      refine List.filter_congr fun other _ ↦ ?_
      rw [Bool.eq_iff_iff]
      refine (hof call.number other).trans (or_iff_left ?_)
      rintro ⟨heq, -⟩
      exact absurd heq (hcurrent.later call hcall).ne
  · exact h

/-- A list with at most one element has the one that it has. -/
theorem eq_singleton_of_mem {α : Type} {l : List α} {a : α} (hlength : l.length ≤ 1)
    (hmem : a ∈ l) : l = [a] := by
  obtain ⟨b, rfl⟩ := List.length_eq_one_iff.mp
    (le_antisymm hlength (List.length_pos_of_mem hmem))
  rw [List.mem_singleton.mp hmem]

/-- No server executes a call twice. -/
theorem Sound.executed_once (h : w.Sound) (server : Fin n) (number : ℕ) :
    ((w.servers server).executed.filter (w.ofCall number)).length ≤ 1 :=
  ((h.executes server).isPrefix_executed.sublist.filter _).length_le.trans (h.once number)

theorem Sound.answered (h : w.Sound) {write : Write} {before : Fin n → ℕ} {server : Fin n}
    {k : ℕ} {handler : Handler} {reply : Reply}
    (hwaiting : w.blocking = .waiting write before server k)
    (hhandler : (w.servers server).calls.handlers k = some handler)
    (hreply : handler.state = .replied reply) : (w.answered write before server reply).Sound := by
  have hblocking := h.blocking
  rw [hwaiting] at hblocking
  obtain ⟨hcurrent, hof, hrequest⟩ := hblocking
  rw [Workload.answered]
  split
  · rename_i hack
    have hop : handler.op = w.command write := by
      rw [Calls.requests, hhandler, Option.map_some, Option.some.injEq] at hrequest
      exact hrequest
    have hcovered := ((h.servers server).calls.handlers k handler hhandler).covered
      (by rw [hreply]; exact hack)
    rw [hop] at hcovered
    -- what covers the request is of the client, so it is the request itself
    obtain ⟨other, hmem, hclient, hle⟩ := hcovered
    obtain ⟨number, hnumber⟩ := (h.log other ((h.servers server).executed other hmem)).2 hclient
    have hle' := (h.attempts number other hnumber).2.2
    obtain ⟨rfl, rfl⟩ := h.distinct number other w.begun (w.command write) hnumber hof
      (le_antisymm hle' hle)
    have hdrop : w.command write ∈ (w.servers server).executed.drop (before server) := by
      rw [← List.take_append_drop (before server) (w.servers server).executed] at hmem
      refine (List.mem_append.mp hmem).resolve_left fun htake ↦ ?_
      rw [hcurrent.notBefore server _ htake] at hof
      cases hof
    refine h.return server rfl ⟨w.command write, ?_, rfl⟩
    apply eq_singleton_of_mem
    · exact ((List.drop_sublist _ _).filter _).length_le.trans
        (h.executed_once server w.begun)
    · exact List.mem_filter.mpr ⟨hdrop, hof⟩
  · exact h.setBlocking ⟨hcurrent, hof⟩
  · exact h.setBlocking ⟨hcurrent, hof⟩

/-! ## Commands -/

theorem Sound.start (h : w.Sound) (server : Fin n) (k : ℕ) (raftIndex : Option ℤ) :
    (w.start server k raftIndex).Sound := by
  simp only [Workload.start]
  split
  · rename_i handler hhandler
    by_cases hcalled : (w.servers server).terminated = false ∧ handler.state = .called
    · rw [if_pos hcalled]
      have hs := h.servers server
      have hexecutes := h.executes server
      obtain ⟨hcalls, hrequests⟩ := hs.calls.start k raftIndex
      have hs' : Server.Sound (· ∈ w.log)
          { w.servers server with calls := (w.servers server).calls.start k raftIndex } :=
        ⟨hs.table, hs.executed, hs.loop, hcalls⟩
      refine h.setServer hs' ⟨hexecutes.index, hexecutes.entered, hexecutes.taken⟩ hrequests
        List.prefix_rfl fun op hop ↦ ?_
      split_ifs at hop
      · rcases List.mem_append.mp hop with hop | hop
        · exact h.started op hop
        · apply h.requests server k op
          rw [Calls.requests, hhandler, List.mem_singleton.mp hop]
          rfl
      · exact h.started op hop
    · rw [if_neg hcalled]
      exact h
  · exact h

/-- A command that the servers will execute is the first of its call. -/
theorem Sound.once_snoc (h : w.Sound) {k : ℕ} {op : Op} (hop : w.started[k]? = some op)
    (hok : w.Settled (.commit k)) (number : ℕ) :
    ((Kv.executes (w.log ++ [op])).filter (w.ofCall number)).length ≤ 1 := by
  rw [executes_snoc]
  split_ifs with hcovered
  · exact h.once number
  · rw [List.filter_append, List.length_append]
    cases hof : w.ofCall number op with
    | false =>
        rw [List.filter_singleton, hof]
        exact h.once number
    | true =>
        have hnone : (Kv.executes w.log).filter (w.ofCall number) = [] := by
          rw [List.filter_eq_nil_iff]
          intro earlier hearlier hearlierOf
          have hmem := executes_subset w.log earlier hearlier
          have hclient := (h.attempts number op hof).2.1
          have hclient' := (h.attempts number earlier hearlierOf).2.1
          have hlt : earlier.requestId < op.requestId := by
            by_contra hle
            exact hcovered ⟨earlier, hearlier, hclient'.trans hclient.symm, not_lt.mp hle⟩
          apply hcovered
          apply covered_executes_iff.mpr
          exact hok op hop (number, op) (of_decide_eq_true hof) rfl earlier hmem hearlierOf hlt
        rw [hnone, List.filter_singleton, hof]
        exact le_rfl

theorem Sound.commit (h : w.Sound) {k : ℕ} {op : Op} (hop : w.started[k]? = some op)
    (hok : w.Settled (.commit k)) :
    { w with started := w.started.eraseIdx k, log := w.log ++ [op] }.Sound where
  servers i := (h.servers i).mono fun _ hmem ↦ List.mem_append_left _ hmem
  executes i := (h.executes i).append [op]
  requests := h.requests
  started other hother := h.started other (List.mem_of_mem_eraseIdx hother)
  log other hother := by
    rcases List.mem_append.mp hother with hother | hother
    · exact h.log other hother
    · rw [List.mem_singleton.mp hother]
      exact h.started op (List.mem_of_getElem? hop)
  fresh := h.fresh
  number := h.number
  attempts := h.attempts
  distinct := h.distinct
  once := h.once_snoc hop hok
  blocking := h.blocking.mono rfl rfl rfl rfl rfl (fun _ ↦ List.prefix_rfl) fun _ _ _ h ↦ h
  returned := h.returned

section runs

variable [TextArchive Op] [LawfulTextArchive Op] [TextArchive (SkipListDump String String)]
  [TextArchive KvSnapshot]

theorem Sound.server (h : w.Sound) (server : Fin n) {a : Action} (hinternal : a.internal = true) :
    (w.setServer server ((w.servers server).step (messages w.log) a)).Sound := by
  have hcmds : ∀ message ∈ messages w.log, message.snapshotValid = false ∧
      ∀ op, TextArchive.load message.command = some op → op ∈ w.log := by
    intro message hmessage
    obtain ⟨hvalid, op, hop, hcommand⟩ := Server.mem_messages hmessage
    refine ⟨hvalid, fun op' hload ↦ ?_⟩
    rw [hcommand, LawfulTextArchive.load_save, Option.some.injEq] at hload
    exact hload ▸ hop
  have hwrite : ∀ op ∈ w.log, op.isWrite = true := fun op hop ↦ (h.log op hop).1
  obtain ⟨hs, hrequests, more, hmore⟩ := (h.servers server).step hcmds hwrite hinternal
  exact h.setServer hs ((h.executes server).step (h.servers server) hwrite hinternal) hrequests
    ⟨more, hmore.symm⟩ h.started

theorem Sound.step (h : w.Sound) {a : WorkloadStep n} (hok : w.Settled a) : (w.step a).Sound := by
  cases a with
  | call write =>
      simp only [Workload.step]
      split
      · exact h.call write
      · exact h
  | tryPutAppend =>
      simp only [Workload.step]
      split
      · rename_i write before hlooping
        exact h.tryPutAppend hlooping hok
      · exact h
  | attempt =>
      simp only [Workload.step]
      split
      · rename_i write before server htrying
        have hblocking := h.blocking
        rw [htrying] at hblocking
        have hasked : w.Asked (w.command write) :=
          ⟨write.isWrite_command _ _, fun _ ↦ ⟨w.begun, hblocking.2⟩⟩
        have hrequest := h.request server hasked
        have hnew := hrequest.blocking
        apply hrequest.setBlocking
        change (w.request server (w.command write)).BlockingSound w.blocking at hnew
        rw [htrying] at hnew
        refine ⟨hnew.1, hnew.2, ?_⟩
        rw [requests_request server _ (h.fresh server w.freshHandler le_rfl), if_pos ⟨rfl, rfl⟩]
        rfl
      · exact h
  | transportFailure =>
      simp only [Workload.step]
      split
      · rename_i write before server handler hwaiting
        have hblocking := h.blocking
        rw [hwaiting] at hblocking
        exact h.setBlocking ⟨hblocking.1, hblocking.2.1⟩
      · exact h
  | answer =>
      simp only [Workload.step]
      split
      · rename_i write before server handler hwaiting
        split
        · rename_i hhandler
          exact h.answered hwaiting hhandler rfl
        · exact h
      · exact h
  | expire =>
      simp only [Workload.step]
      split
      · rename_i write before server htrying
        have hblocking := h.blocking
        rw [htrying] at hblocking
        exact h.setBlocking hblocking.1
      · exact h
  | other server write clientId requestId =>
      simp only [Workload.step]
      split_ifs with hclient
      · exact h
      · exact h.request server ⟨write.isWrite_command _ _, fun heq ↦ absurd heq hclient⟩
  | start server handler raftIndex => exact h.start server handler raftIndex
  | commit k =>
      simp only [Workload.step]
      split
      · rename_i op hop
        exact h.commit hop hok
      · exact h
  | server server a =>
      simp only [Workload.step]
      split_ifs with hinternal
      · exact h.server server hinternal
      · exact h

/-- Whatever the client calls, and however its attempts, the writes of other clients, the
failures, the answers and the commits interleave: as long as the numbers do not overflow
and no attempt is committed as a new command behind an earlier one of its call, every call
that has returned has been executed exactly once between its beginning and its return, and
no server ever executes a call twice. -/
theorem blocking_calls_take_effect_once (r₀ r₁ r₂ r₃ : ℕ) (as : List (WorkloadStep n))
    (hok : Runs.Along step Settled (init r₀ r₁ r₂ r₃) as) :
    (run r₀ r₁ r₂ r₃ as).TakeEffectOnce := by
  have hsound := Runs.invariant_of_step_along step (P := fun _ w ↦ w.Sound)
    (sound_init r₀ r₁ r₂ r₃) (fun _ _ h hstep ↦ h.step hstep) as hok
  exact ⟨fun call hcall ↦ (hsound.returned call hcall).2, hsound.executed_once⟩

end runs

/-! ## Two attempts of one call -/

section concrete

open scoped Archive

/-- A server takes the next command. -/
def processed (server : Fin n) : List (WorkloadStep n) :=
  [.server server .pop, .server server .check, .server server (.execute 0),
    .server server (.compact false), .server server .send]

/-- The handler gets its command committed and executed, and answers. -/
def handled (server : Fin n) (handler : ℕ) (raftIndex : ℤ) : List (WorkloadStep n) :=
  [.start server handler (some raftIndex), .server server (.openChan handler), .commit 0] ++
    processed server ++ [.server server (.take handler), .server server (.close handler)]

/-- The answer to the first attempt is lost, and another client writes before the second. -/
def lostAnswer (server : Fin n) : List (WorkloadStep n) :=
  [.call ⟨.put, "k", "x"⟩, .tryPutAppend, .attempt] ++ handled server 0 1 ++
  [.transportFailure, .expire, .other server ⟨.put, "k", "y"⟩ "other" 1] ++ handled server 1 2 ++
  [.tryPutAppend, .attempt] ++ handled server 2 3 ++ [.answer]

/-- The call is executed twice, and the second time overwrites the newer value. -/
theorem executed_twice_in_lostAnswer :
    ((run 1 2 3 4 (lostAnswer (0 : Fin 3))).returned =
        [⟨1, ⟨.put, "k", "x"⟩, [⟨"Put", "k", "x", "1234", 1⟩, ⟨"Put", "k", "y", "other", 1⟩,
          ⟨"Put", "k", "x", "1234", 2⟩]⟩] ∧
      ((run 1 2 3 4 (lostAnswer (0 : Fin 3))).servers 0).kv.skipList.searchElement "k" =
        some (some "x")) ∧
      ¬ (run 1 2 3 4 (lostAnswer (0 : Fin 3))).TakeEffectOnce := by
  refine ⟨by decide +kernel, fun honce ↦ ?_⟩
  have htwice : (((run 1 2 3 4 (lostAnswer (0 : Fin 3))).servers 0).executed.filter
      ((run 1 2 3 4 (lostAnswer (0 : Fin 3))).ofCall 1)).length = 2 := by decide +kernel
  have hle := honce.ever 0 1
  omega

/-- The request of the first attempt comes to the server when the call has returned and
another client has written. -/
def lateRequest (server : Fin n) : List (WorkloadStep n) :=
  [.call ⟨.append, "k", "x"⟩, .tryPutAppend, .attempt, .transportFailure, .expire,
    .tryPutAppend, .attempt, .start server 1 (some 1), .server server (.openChan 1),
    .commit 0] ++ processed server ++
  [.server server (.take 1), .server server (.close 1), .answer,
    .other server ⟨.put, "k", "y"⟩ "other" 1, .start server 2 (some 2), .commit 0] ++
  processed server ++ [.start server 0 (some 3), .commit 0] ++ processed server

theorem takes_effect_once_in_lateRequest :
    ((run 1 2 3 4 (lateRequest (0 : Fin 3))).returned =
        [⟨1, ⟨.append, "k", "x"⟩, [⟨"Append", "k", "x", "1234", 2⟩]⟩] ∧
      (run 1 2 3 4 (lateRequest (0 : Fin 3))).log.length = 3 ∧
      ((run 1 2 3 4 (lateRequest (0 : Fin 3))).servers 0).kv.skipList.searchElement "k" =
        some (some "y")) ∧
      (run 1 2 3 4 (lateRequest (0 : Fin 3))).TakeEffectOnce :=
  ⟨by decide +kernel, blocking_calls_take_effect_once 1 2 3 4 (lateRequest (0 : Fin 3))
    (by decide +kernel)⟩

end concrete

end Workload

end HttpRaftKv.Kv
