import HttpRaftKv.Kv.Replies

/-!
# Acknowledged writes

A call that returns `kOk` has been answered by a server that has executed a request of
its client with at least its number.  If no number is used twice under one name, that
request is its own, and it has been executed since the call began.
-/

namespace HttpRaftKv.Kv

open Raft

/-! ## The calls of the clients -/

namespace Deployment

variable {n : ℕ} {d : Deployment n}

/-- A request that a server has been sent. -/
def Known (d : Deployment n) (op : Op) : Prop :=
  ∃ server h, (d.servers server).calls.requests h = some op

/-- The command of the call that is being made: it has the highest number of its client,
and no server had executed it when the call began. -/
structure Current (d : Deployment n) (op : Op) (before : Fin n → ℕ) : Prop where
  begun : (op.clientId, op.requestId) ∈ d.begun
  highest : ∀ other, d.Known other → other.clientId = op.clientId →
    other.requestId < op.requestId ∨ other = op
  before_le : ∀ server, before server ≤ (d.servers server).executed.length
  notBefore : ∀ server, op ∉ (d.servers server).executed.take (before server)

/-- The call has its own command, and the handler that it waits for has it too. -/
def CallSound (d : Deployment n) : Calling n → Prop
  | .idle => True
  | .trying key value before _ => d.Current (d.clerk.put key value) before
  | .waiting key value before server handler =>
      d.Current (d.clerk.put key value) before ∧
        (d.servers server).calls.requests handler = some (d.clerk.put key value)

section soundness

variable [TextArchive Op]

/-- The command of an entry. -/
def Committed (log : List ApplyMsg) (op : Op) : Prop :=
  ∃ entry ∈ log, TextArchive.load entry.command = some op

/-- The value was written to the key, by a committed command that was applied during the
call. -/
def Wrote (log : List ApplyMsg) (call : Returned) : Prop :=
  ∃ op ∈ call.applied, Committed log op ∧ op.operation = "Put" ∧ op.key = call.key ∧
    op.value = call.value

/-- A server that has applied nothing has not written the value. -/
theorem not_wrote_nil (log : List ApplyMsg) (key value : String) :
    ¬ Wrote log ⟨.kOk, key, value, []⟩ := by
  rintro ⟨op, hop, -⟩
  cases hop

structure Sound (d : Deployment n) : Prop where
  servers : ∀ server, (d.servers server).Sound (Committed d.log)
  log : ∀ entry ∈ d.log, entry.snapshotValid = false
  committed : ∀ op, Committed d.log op → d.Known op
  started : ∀ op ∈ d.started, d.Known op
  known : ∀ op, d.Known op → op.operation = "Put" ∧ (op.clientId, op.requestId) ∈ d.begun
  fresh : ∀ server h, d.freshHandler ≤ h → (d.servers server).calls.requests h = none
  calling : d.CallSound d.calling
  returned : ∀ call ∈ d.returned, call.status = .kOk → Wrote d.log call

theorem sound_init (r₀ r₁ r₂ r₃ : ℕ) : (init r₀ r₁ r₂ r₃ : Deployment n).Sound where
  servers _ := Server.sound_boot
  log := by simp [init]
  committed := by simp [init, Committed]
  started := by simp [init]
  known := by
    rintro op ⟨server, h, hop⟩
    cases hop
  fresh _ _ _ := rfl
  calling := trivial
  returned := by simp [init]

/-! ## What a step does -/

omit [TextArchive Op] in
theorem servers_setServer (d : Deployment n) (server : Fin n) (s : Server) (i : Fin n) :
    (d.setServer server s).servers i = if i = server then s else d.servers i := by
  simp only [setServer, Function.update_apply]

omit [TextArchive Op] in
/-- The requests stay the same, and more commands are executed. -/
theorem Current.step {d' : Deployment n} {op : Op} {before : Fin n → ℕ}
    (h : d.Current op before) (hbegun : d'.begun = d.begun) (hknown : d'.Known = d.Known)
    (hexecuted : ∀ i, ∃ more, (d'.servers i).executed = (d.servers i).executed ++ more) :
    d'.Current op before := by
  refine ⟨hbegun ▸ h.begun, hknown ▸ h.highest, fun server ↦ ?_, fun server ↦ ?_⟩
  · obtain ⟨more, hmore⟩ := hexecuted server
    have hle := h.before_le server
    rw [hmore, List.length_append]
    omega
  · obtain ⟨more, hmore⟩ := hexecuted server
    rw [hmore, List.take_append_of_le_length (h.before_le server)]
    exact h.notBefore server

omit [TextArchive Op] in
theorem CallSound.step {d' : Deployment n} {calling : Calling n} (h : d.CallSound calling)
    (hclerk : d'.clerk = d.clerk) (hbegun : d'.begun = d.begun)
    (hrequests : ∀ i, (d'.servers i).calls.requests = (d.servers i).calls.requests)
    (hexecuted : ∀ i, ∃ more, (d'.servers i).executed = (d.servers i).executed ++ more) :
    d'.CallSound calling := by
  have hknown : d'.Known = d.Known := by
    funext op
    simp only [Known, hrequests]
  cases calling with
  | idle => trivial
  | trying key value before server =>
      rw [CallSound, hclerk]
      exact Current.step h hbegun hknown hexecuted
  | waiting key value before server handler =>
      rw [CallSound, hclerk, hrequests]
      exact ⟨h.1.step hbegun hknown hexecuted, h.2⟩

/-- A server goes on, and perhaps the command of one of its requests is started. -/
theorem Sound.setServer (h : d.Sound) {server : Fin n} {s : Server}
    (hs : s.Sound (Committed d.log))
    (hrequests : s.calls.requests = (d.servers server).calls.requests)
    (hexecuted : ∃ more, s.executed = (d.servers server).executed ++ more) {started : List Op}
    (hstarted : ∀ op ∈ started, d.Known op) :
    { d.setServer server s with started := started }.Sound := by
  have hservers : ∀ i, (d.setServer server s).servers i = d.servers i ∨
      i = server ∧ (d.setServer server s).servers i = s := by
    intro i
    rw [servers_setServer]
    split_ifs with hi
    · exact .inr ⟨hi, rfl⟩
    · exact .inl rfl
  have hsame : ∀ i, ((d.setServer server s).servers i).calls.requests =
      (d.servers i).calls.requests := by
    intro i
    rcases hservers i with heq | ⟨rfl, heq⟩
    · rw [heq]
    · rw [heq, hrequests]
  have hmore : ∀ i, ∃ more, ((d.setServer server s).servers i).executed =
      (d.servers i).executed ++ more := by
    intro i
    rcases hservers i with heq | ⟨rfl, heq⟩
    · exact ⟨[], by rw [heq, List.append_nil]⟩
    · rw [heq]
      exact hexecuted
  have hknown : ({ d.setServer server s with started := started } : Deployment n).Known =
      d.Known := by
    funext op
    exact congrArg (fun requests ↦ ∃ i k, requests i k = some op) (funext hsame)
  refine ⟨fun i ↦ ?_, h.log, hknown ▸ h.committed, hknown ▸ hstarted, hknown ▸ h.known,
    fun i k hk ↦ (congrFun (hsame i) k).trans (h.fresh i k hk), ?_, h.returned⟩
  · rcases hservers i with heq | ⟨rfl, heq⟩
    · rw [heq]
      exact h.servers i
    · rw [heq]
      exact hs
  · exact CallSound.step h.calling rfl rfl hsame hmore

/-- The client or its call is another one, and perhaps a call has returned. -/
theorem Sound.setCall (h : d.Sound) (clerk : Clerk) (calling : Calling n)
    (hcalling : ({ d with clerk := clerk } : Deployment n).CallSound calling)
    {returned : List Returned}
    (hreturned : ∀ call ∈ returned, call.status = .kOk → Wrote d.log call) :
    { d with clerk := clerk, calling := calling, returned := returned }.Sound where
  servers := h.servers
  log := h.log
  committed := h.committed
  started := h.started
  known := h.known
  fresh := h.fresh
  calling := hcalling.step rfl rfl (fun _ ↦ rfl) fun _ ↦ ⟨[], (List.append_nil _).symm⟩
  returned := hreturned

/-- The calls that have returned, with one more. -/
theorem Sound.returned_snoc (h : d.Sound) {call : Returned}
    (hcall : call.status = .kOk → Wrote d.log call) :
    ∀ other ∈ d.returned ++ [call], other.status = .kOk → Wrote d.log other := by
  intro other hother
  rcases List.mem_append.mp hother with hother | hother
  · exact h.returned other hother
  · exact List.mem_singleton.mp hother ▸ hcall

/-- A call is over without `kOk`. -/
theorem Sound.fail (h : d.Sound) (key value : String) :
    { d with
      calling := .idle
      returned := d.returned ++ [Returned.mk .kUnavailable key value []] }.Sound :=
  h.setCall d.clerk .idle trivial (h.returned_snoc nofun)

/-- No command with the number of a call that begins is known. -/
theorem Sound.tryPut (h : d.Sound) (key value : String) (timeout : Bool)
    (hok : d.NumbersAbove (.tryPut key value timeout)) (hidle : d.calling = .idle) :
    (d.tryPut key value timeout).Sound := by
  have hfail :
      { d with returned := d.returned ++ [Returned.mk .kUnavailable key value []] }.Sound :=
    hidle ▸ h.fail key value
  unfold Deployment.tryPut
  split_ifs with hpos htimeout
  · exact hfail
  · have hbelow : ∀ other, d.Known other → other.clientId = d.clerk.clientId →
        other.requestId < d.clerk.nextRequest.requestId := fun other hother hclient ↦
      hok (Bool.eq_false_of_not_eq_true htimeout) _ (h.known other hother).2 hclient
    have hbegun : ∀ {request}, request ∈ d.begun → request ∈ d.begun ++
        [(d.clerk.nextRequest.clientId, d.clerk.nextRequest.requestId)] :=
      fun hmem ↦ List.mem_append_left _ hmem
    refine ⟨h.servers, h.log, h.committed, h.started, fun op hop ↦ ?_, h.fresh, ?_, h.returned⟩
    · obtain ⟨hput, hmem⟩ := h.known op hop
      exact ⟨hput, hbegun hmem⟩
    · refine ⟨List.mem_append_right _ (List.mem_singleton.mpr rfl), fun other hother hclient ↦ ?_,
        fun server ↦ le_rfl, fun server hmem ↦ ?_⟩
      · exact .inl (hbelow other hother hclient)
      · have hexecuted := List.mem_of_mem_take hmem
        have hknown := h.committed _ ((h.servers server).executed _ hexecuted)
        exact lt_irrefl _ (hbelow _ hknown rfl)
  · exact hfail

omit [TextArchive Op] in
/-- A server gets a request. -/
theorem known_call {server : Fin n} (op : Op)
    (hfresh : (d.servers server).calls.requests d.freshHandler = none) (other : Op) :
    (d.setServer server { d.servers server with
        calls := (d.servers server).calls.call d.freshHandler .putAppend op }).Known other ↔
      d.Known other ∨ other = op := by
  constructor
  · rintro ⟨i, k, hother⟩
    rw [servers_setServer] at hother
    split_ifs at hother with hi
    · rw [Calls.requests_call hfresh] at hother
      split_ifs at hother with hk
      · exact .inr (Option.some.inj hother).symm
      · exact .inl ⟨server, k, hother⟩
    · exact .inl ⟨i, k, hother⟩
  · rintro (⟨i, k, hother⟩ | rfl)
    · refine ⟨i, k, ?_⟩
      rw [servers_setServer]
      split_ifs with hi
      · subst hi
        rw [Calls.requests_call hfresh, if_neg, hother]
        rintro rfl
        rw [hfresh] at hother
        cases hother
      · exact hother
    · refine ⟨server, d.freshHandler, ?_⟩
      rw [servers_setServer, if_pos rfl, Calls.requests_call hfresh, if_pos rfl]

theorem Sound.attempt (h : d.Sound) {key value : String} {before : Fin n → ℕ} {server : Fin n}
    (hcalling : d.calling = .trying key value before server) :
    { d.setServer server { d.servers server with
        calls := (d.servers server).calls.call d.freshHandler .putAppend
          (d.clerk.put key value) } with
      freshHandler := d.freshHandler + 1
      calling := .waiting key value before server d.freshHandler }.Sound := by
  have hcurrent := h.calling
  rw [hcalling] at hcurrent
  have hfresh := h.fresh server d.freshHandler le_rfl
  have hknown := known_call (d.clerk.put key value) hfresh
  have hexecuted : ∀ i, ((d.setServer server { d.servers server with
      calls := (d.servers server).calls.call d.freshHandler .putAppend
        (d.clerk.put key value) }).servers i).executed = (d.servers i).executed := by
    intro i
    rw [servers_setServer]
    split_ifs with hi
    · rw [hi]
    · rfl
  refine ⟨fun i ↦ ?_, h.log, fun op hop ↦ (hknown op).mpr (.inl (h.committed op hop)),
    fun op hop ↦ (hknown op).mpr (.inl (h.started op hop)), fun op hop ↦ ?_, fun i k hk ↦ ?_,
    ⟨⟨hcurrent.begun, fun other hother hclient ↦ ?_, fun i ↦ ?_, fun i ↦ ?_⟩, ?_⟩, h.returned⟩
  · have hs := h.servers i
    simp only [servers_setServer]
    split_ifs with hi
    · subst hi
      exact ⟨hs.table, hs.executed, hs.loop, hs.calls.call _ _⟩
    · exact hs
  · rcases (hknown op).mp hop with hop | rfl
    · exact h.known op hop
    · exact ⟨rfl, hcurrent.begun⟩
  · have hk : d.freshHandler + 1 ≤ k := hk
    simp only [servers_setServer]
    split_ifs with hi
    · subst hi
      rw [Calls.requests_call hfresh, if_neg (by omega)]
      exact h.fresh i k (by omega)
    · exact h.fresh i k (by omega)
  · rcases (hknown other).mp hother with hother | rfl
    · exact hcurrent.highest other hother hclient
    · exact .inr rfl
  · exact (hexecuted i).symm ▸ hcurrent.before_le i
  · exact (hexecuted i).symm ▸ hcurrent.notBefore i
  · simp only [servers_setServer, if_true]
    rw [Calls.requests_call hfresh, if_pos rfl]
    rfl

theorem Sound.answered (h : d.Sound) {key value : String} {before : Fin n → ℕ} {server : Fin n}
    {k : ℕ} {handler : Handler} {reply : Reply}
    (hcalling : d.calling = .waiting key value before server k)
    (hhandler : (d.servers server).calls.handlers k = some handler)
    (hreply : handler.state = .replied reply) :
    (d.answered key value before server reply).Sound := by
  have hcurrent := h.calling
  rw [hcalling] at hcurrent
  obtain ⟨hcurrent, hrequest⟩ := hcurrent
  unfold Deployment.answered
  split
  · rename_i hack
    have hop : handler.op = d.clerk.put key value := by
      rw [Calls.requests, hhandler, Option.map_some, Option.some.injEq] at hrequest
      exact hrequest
    have hcovered := ((h.servers server).calls.handlers k handler hhandler).covered
      (by rw [hreply]; exact hack)
    rw [hop] at hcovered
    -- the request that covers this one has the same number, so it is this one
    obtain ⟨other, hmem, hclient, hle⟩ := hcovered
    have hcommitted := (h.servers server).executed other hmem
    obtain rfl : other = d.clerk.put key value :=
      (hcurrent.highest other (h.committed other hcommitted) hclient).resolve_left (by omega)
    have hdrop : d.clerk.put key value ∈ (d.servers server).executed.drop (before server) := by
      rw [← List.take_append_drop (before server) (d.servers server).executed] at hmem
      exact (List.mem_append.mp hmem).resolve_left (hcurrent.notBefore server)
    apply h.setCall { d.clerk with recentLeaderId := server } .idle trivial
    exact h.returned_snoc fun _ ↦ ⟨_, hdrop, hcommitted, rfl, rfl, rfl⟩
  · exact h.setCall d.clerk (.trying key value before (nextServer server)) hcurrent h.returned
  · exact h.setCall d.clerk (.trying key value before (nextServer server)) hcurrent h.returned

/-- A command is started by the handler of a request. -/
theorem Sound.start (h : d.Sound) (server : Fin n) (k : ℕ) (raftIndex : Option ℤ) :
    (d.start server k raftIndex).Sound := by
  simp only [Deployment.start]
  split
  · rename_i handler hhandler
    by_cases hcalled : (d.servers server).terminated = false ∧ handler.state = .called
    · rw [if_pos hcalled]
      have hs := h.servers server
      obtain ⟨hcalls, hrequests⟩ := hs.calls.start k raftIndex
      have hs' : Server.Sound (Committed d.log)
          { d.servers server with calls := (d.servers server).calls.start k raftIndex } :=
        ⟨hs.table, hs.executed, hs.loop, hcalls⟩
      refine h.setServer hs' hrequests ⟨[], (List.append_nil _).symm⟩ fun op hop ↦ ?_
      split_ifs at hop
      · rcases List.mem_append.mp hop with hop | hop
        · exact h.started op hop
        · refine ⟨server, k, ?_⟩
          rw [Calls.requests, hhandler, List.mem_singleton.mp hop]
          rfl
      · exact h.started op hop
    · rw [if_neg hcalled]
      exact h
  · exact h

variable [LawfulTextArchive Op]

/-- A command that has been started is committed. -/
theorem Sound.commit (h : d.Sound) {k : ℕ} {op : Op} (hop : d.started[k]? = some op) :
    { d with started := d.started.eraseIdx k, log := d.log ++ [entry d.log op] }.Sound := by
  have hmono : ∀ other, Committed d.log other → Committed (d.log ++ [entry d.log op]) other := by
    rintro other ⟨message, hmem, hload⟩
    exact ⟨message, List.mem_append_left _ hmem, hload⟩
  refine ⟨fun server ↦ (h.servers server).mono hmono, fun message hmem ↦ ?_,
    fun other hother ↦ ?_, fun other hother ↦ h.started other (List.mem_of_mem_eraseIdx hother),
    h.known, h.fresh, h.calling.step rfl rfl (fun _ ↦ rfl) fun _ ↦ ⟨[], (List.append_nil _).symm⟩,
    fun call hcall hstatus ↦ ?_⟩
  · rcases List.mem_append.mp hmem with hmem | hmem
    · exact h.log message hmem
    · rw [List.mem_singleton.mp hmem]
      rfl
  · obtain ⟨message, hmem, hload⟩ := hother
    rcases List.mem_append.mp hmem with hmem | hmem
    · exact h.committed other ⟨message, hmem, hload⟩
    · rw [List.mem_singleton.mp hmem, entry, LawfulTextArchive.load_save, Option.some.injEq]
        at hload
      exact hload ▸ h.started op (List.mem_of_getElem? hop)
  · obtain ⟨other, hmem, hcommitted, hput⟩ := h.returned call hcall hstatus
    exact ⟨other, hmem, hmono other hcommitted, hput⟩

variable [TextArchive (SkipListDump String String)] [TextArchive KvSnapshot]

theorem Sound.step (h : d.Sound) {a : DeploymentStep n} (hok : d.NumbersAbove a) :
    (d.step a).Sound := by
  cases a with
  | newProcess r₀ r₁ r₂ r₃ =>
      exact h.setCall (.create r₀ r₁ r₂ r₃) .idle trivial h.returned
  | tryPut key value timeout =>
      simp only [Deployment.step]
      split
      · rename_i hidle
        exact h.tryPut key value timeout hok hidle
      · exact h
  | attempt =>
      simp only [Deployment.step]
      split
      · rename_i key value before server hcalling
        exact h.attempt hcalling
      · exact h
  | transportFailure =>
      simp only [Deployment.step]
      split
      · rename_i key value before server handler hcalling
        have hcurrent := h.calling
        rw [hcalling] at hcurrent
        exact h.setCall d.clerk (.trying key value before (nextServer server)) hcurrent.1
          h.returned
      · exact h
  | answer =>
      simp only [Deployment.step]
      split
      · rename_i key value before server handler hcalling
        split
        · rename_i hhandler
          exact h.answered hcalling hhandler rfl
        · exact h
      · exact h
  | expire =>
      simp only [Deployment.step]
      split
      · exact h.fail _ _
      · exact h
  | start server handler raftIndex => exact h.start server handler raftIndex
  | commit k =>
      simp only [Deployment.step]
      split
      · rename_i op hop
        exact h.commit hop
      · exact h
  | server server a =>
      simp only [Deployment.step]
      split_ifs with hinternal
      · have hcmds : ∀ message ∈ d.log, message.snapshotValid = false ∧
            ∀ op, TextArchive.load message.command = some op → Committed d.log op :=
          fun message hmem ↦ ⟨h.log message hmem, fun op hload ↦ ⟨message, hmem, hload⟩⟩
        have hwrite : ∀ op, Committed d.log op → op.isWrite = true := by
          intro op hop
          simp [Op.isWrite, (h.known op (h.committed op hop)).1]
        obtain ⟨hs, hrequests, hmore⟩ := (h.servers server).step hcmds hwrite hinternal
        exact h.setServer hs hrequests hmore h.started
      · exact h

/-- Whatever processes use the cluster one after another, whatever they call and however
the servers, the commits and the failures interleave, as long as every call is given a
number above those used before under the name of its client, every `TryPut` that has
returned `kOk` has been written to the store of the server that answered it, by a
committed command that it applied during the call. -/
theorem acknowledged_writes_take_effect (r₀ r₁ r₂ r₃ : ℕ) (as : List (DeploymentStep n))
    (hok : Runs.Along step NumbersAbove (init r₀ r₁ r₂ r₃) as) :
    ∀ call ∈ (run r₀ r₁ r₂ r₃ as).returned, call.status = .kOk →
      Wrote (run r₀ r₁ r₂ r₃ as).log call := by
  have hrun := Runs.invariant_of_step_along step (P := fun _ d ↦ d.Sound)
    (sound_init r₀ r₁ r₂ r₃) (fun _ _ h hstep ↦ h.step hstep) as hok
  exact hrun.returned

end soundness

/-! ## Two processes -/

section concrete

open scoped Archive

/-- A call that the server answers. -/
def putOn (server : Fin n) (handler : ℕ) (raftIndex : ℤ) (key value : String) :
    List (DeploymentStep n) :=
  [.tryPut key value false, .attempt, .start server handler (some raftIndex),
    .server server (.openChan handler), .commit 0, .server server .pop, .server server .check,
    .server server (.execute 0), .server server (.compact false), .server server .send,
    .server server (.take handler), .server server (.close handler), .answer]

/-- Two processes draw the first four numbers of the default seed. -/
def sameName (server : Fin n) : List (DeploymentStep n) :=
  putOn server 0 1 "k" "v" ++ [.newProcess 1804289383 846930886 1681692777 1714636915] ++
    putOn server 1 2 "k" "w"

/-- The request of the second process is taken for a duplicate, and `kOk` is returned. -/
theorem write_is_dropped_in_sameName :
    ((run 1804289383 846930886 1681692777 1714636915 (sameName (0 : Fin 3))).returned =
        [⟨.kOk, "k", "v", [⟨"Put", "k", "v", "180428938384693088616816927771714636915", 1⟩]⟩,
          ⟨.kOk, "k", "w", []⟩] ∧
      ((run 1804289383 846930886 1681692777 1714636915 (sameName (0 : Fin 3))).servers
        0).kv.skipList.searchElement "k" = some (some "v")) ∧
      ¬ Wrote (run 1804289383 846930886 1681692777 1714636915 (sameName (0 : Fin 3))).log
        ⟨.kOk, "k", "w", []⟩ :=
  ⟨by decide +kernel, not_wrote_nil _ _ _⟩

/-- The second process has seeded its generator. -/
def otherName (server : Fin n) : List (DeploymentStep n) :=
  putOn server 0 1 "k" "v" ++ [.newProcess 1 2 3 4] ++ putOn server 1 2 "k" "w"

theorem write_takes_effect_in_otherName :
    (run 1804289383 846930886 1681692777 1714636915 (otherName (0 : Fin 3))).returned.map
        Returned.status = [.kOk, .kOk] ∧
      ∀ call ∈ (run 1804289383 846930886 1681692777 1714636915 (otherName (0 : Fin 3))).returned,
        call.status = .kOk →
          Wrote (run 1804289383 846930886 1681692777 1714636915 (otherName (0 : Fin 3))).log
            call :=
  ⟨by decide +kernel, acknowledged_writes_take_effect 1804289383 846930886 1681692777 1714636915
    (otherName (0 : Fin 3)) (by decide +kernel)⟩

end concrete

end Deployment

end HttpRaftKv.Kv
