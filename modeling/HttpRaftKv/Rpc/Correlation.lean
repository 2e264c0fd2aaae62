import HttpRaftKv.Rpc.MprpcChannel
import Mathlib.Logic.Function.Basic

/-!
# Calls that share a channel

The threads of a leader call methods on one channel without a lock.  Every call sends
its request on the connection of the channel, which another call may have replaced in
between, and reads from the connection that it finds afterwards.  Nothing in a response
says which call it is for.  The steps below are the places at which `CallMethod` looks
at the descriptor, and the steps of the providers.
-/

namespace HttpRaftKv.Rpc

/-- Where a call is. -/
inductive Thread (α : Type)
  | start
  /-- It has found no connection. -/
  | connecting
  | sending
  | sent
  /-- It is in `recv` on a connection, which it keeps also if the channel gets another. -/
  | receiving (connection : ℕ)
  | done (outcome : Outcome α)
deriving DecidableEq

/-- A connection with the calls whose requests its provider has not handled.  For the
record it also has the calls that have sent a request and of which no response has been
read, in the order in which they sent. -/
structure Link (ι : Type) extends Connection where
  requests : List ι
  waiting : List ι

namespace Link

variable {ι : Type} [DecidableEq ι] {M : ι → Type}

def new : Link ι := ⟨.new, [], []⟩

def send (link : Link ι) (call : ι) : Link ι :=
  { link with requests := link.requests ++ [call], waiting := link.waiting ++ [call] }

/-- The provider answers the request that came first. -/
def serve (codec : ∀ call, MessageCodec (M call)) (respond : ∀ call, M call) (link : Link ι) :
    Link ι :=
  match link.requests with
  | [] => link
  | call :: requests =>
      if link.closed then link
      else { link with
        toConnection := link.answer (codec call) (some (respond call))
        requests := requests }

def close (link : Link ι) : Link ι :=
  { link with closed := true }

/-- A call has read from the connection. -/
def read (link : Link ι) (call : ι) (connection : Connection) : Link ι :=
  { link with toConnection := connection, waiting := link.waiting.erase call }

end Link

/-- A channel with the connections it has had and the calls that use it. -/
structure SharedChannel {ι : Type} (M : ι → Type) where
  clientFd : Option ℕ
  opened : ℕ
  links : ℕ → Link ι
  threads : ∀ call, Thread (M call)

/-- A step of a call, with what its system call answers, or of a provider. -/
inductive CallStep (ι : Type)
  | check (call : ι)
  | connect (call : ι) (success : Bool)
  | serializeFails (call : ι)
  | send (call : ι) (success : Bool)
  | recv (call : ι)
  | received (call : ι) (success : Bool) (arrived : ℕ)
  | serve (connection : ℕ)
  | close (connection : ℕ)

namespace SharedChannel

variable {ι : Type} [DecidableEq ι] {M : ι → Type}

def start (connectNow : Bool) : SharedChannel M where
  clientFd := if connectNow then some 0 else none
  opened := if connectNow then 1 else 0
  links := fun _ ↦ .new
  threads := fun _ ↦ .start

def goTo (channel : SharedChannel M) (call : ι) (thread : Thread (M call)) : SharedChannel M :=
  { channel with threads := Function.update channel.threads call thread }

def setLink (channel : SharedChannel M) (connection : ℕ) (link : Link ι) : SharedChannel M :=
  { channel with links := Function.update channel.links connection link }

/-- A system call has failed.  The descriptor that the channel has now is closed. -/
def fail (channel : SharedChannel M) (call : ι) (error : CallError) : SharedChannel M :=
  { channel.goTo call (.done (.failed error)) with clientFd := none }

/-- The bytes that a call in `recv` gets, with its connection before and after. -/
def reads (channel : SharedChannel M) (call : ι) (arrived : ℕ) :
    Option (ℕ × Bytes × Connection) :=
  match channel.threads call with
  | .receiving connection => ((channel.links connection).recv arrived).map (connection, ·)
  | _ => none

/-- The end of a call: the bytes are parsed. -/
def parsed (codec : ∀ call, MessageCodec (M call)) (call : ι) (recv_buf : Bytes) :
    Outcome (M call) :=
  match (codec call).parse recv_buf with
  | some response => .returned response
  | none => .failed .parse

def step (codec : ∀ call, MessageCodec (M call)) (respond : ∀ call, M call)
    (channel : SharedChannel M) : CallStep ι → SharedChannel M
  | .check call =>
      match channel.threads call with
      | .start => channel.goTo call (if channel.clientFd = none then .connecting else .sending)
      | _ => channel
  | .connect call success =>
      match channel.threads call, success with
      | .connecting, true =>
          { channel.goTo call .sending with
            clientFd := some channel.opened
            opened := channel.opened + 1 }
      | .connecting, false => channel.fail call .connect
      | _, _ => channel
  | .serializeFails call =>
      match channel.threads call with
      | .sending => channel.goTo call (.done (.failed .serialize))
      | _ => channel
  | .send call success =>
      match channel.threads call, channel.clientFd, success with
      | .sending, some connection, true =>
          (channel.setLink connection ((channel.links connection).send call)).goTo call .sent
      | .sending, _, _ => channel.fail call .send
      | _, _, _ => channel
  | .recv call =>
      match channel.threads call, channel.clientFd with
      | .sent, some connection => channel.goTo call (.receiving connection)
      | .sent, none => channel.fail call .recv
      | _, _ => channel
  | .received call false _ =>
      match channel.threads call with
      | .receiving _ => channel.fail call .recv
      | _ => channel
  | .received call true arrived =>
      match channel.reads call arrived with
      | some (connection, recv_buf, rest) =>
          (channel.setLink connection ((channel.links connection).read call rest)).goTo call
            (.done (parsed codec call recv_buf))
      | none => channel
  | .serve connection =>
      channel.setLink connection ((channel.links connection).serve codec respond)
  | .close connection => channel.setLink connection (channel.links connection).close

/-- A call that reads is the first of those that wait for a response of its connection,
and it gets as many bytes as its response has. -/
def ReadsItsOwn (codec : ∀ call, MessageCodec (M call)) (respond : ∀ call, M call)
    (channel : SharedChannel M) : CallStep ι → Prop
  | .received call true arrived =>
      ∀ read ∈ channel.reads call arrived,
        (channel.links read.1).waiting.head? = some call ∧
          read.2.1.length = ((codec call).serialize (respond call)).length
  | _ => True

instance (codec : ∀ call, MessageCodec (M call)) (respond : ∀ call, M call)
    (channel : SharedChannel M) : ∀ a, Decidable (channel.ReadsItsOwn codec respond a)
  | .received call true arrived =>
      inferInstanceAs (Decidable (∀ read ∈ channel.reads call arrived, _ ∧ _))
  | .received _ false _ | .check _ | .connect _ _ | .serializeFails _ | .send _ _ | .recv _
  | .serve _ | .close _ => inferInstanceAs (Decidable True)

variable {codec : ∀ call, MessageCodec (M call)} {respond : ∀ call, M call}
  {channel : SharedChannel M} {call : ι}

/-! ## What a step does -/

omit [DecidableEq ι] in
theorem links_setLink (channel : SharedChannel M) (target : ℕ) (link : Link ι) (connection : ℕ) :
    (channel.setLink target link).links connection = channel.links connection ∨
      target = connection ∧ (channel.setLink target link).links connection = link := by
  by_cases h : connection = target
  · subst h
    exact .inr ⟨rfl, Function.update_self ..⟩
  · exact .inl (Function.update_of_ne h ..)

/-- A step changes a connection in one of four ways. -/
theorem links_step (codec : ∀ call, MessageCodec (M call)) (respond : ∀ call, M call)
    (channel : SharedChannel M) (a : CallStep ι) (connection : ℕ) :
    (step codec respond channel a).links connection = channel.links connection ∨
      (∃ call, (step codec respond channel a).links connection =
        (channel.links connection).send call) ∨
      (step codec respond channel a).links connection =
        (channel.links connection).serve codec respond ∨
      (step codec respond channel a).links connection = (channel.links connection).close ∨
      ∃ call arrived recv_buf rest, a = .received call true arrived ∧
        channel.reads call arrived = some (connection, recv_buf, rest) ∧
        (step codec respond channel a).links connection =
          (channel.links connection).read call rest := by
  cases a with
  | check call =>
      left
      simp only [step]
      split <;> rfl
  | connect call success =>
      left
      simp only [step]
      split <;> rfl
  | serializeFails call =>
      left
      simp only [step]
      split <;> rfl
  | send call success =>
      simp only [step]
      split
      · rename_i target _ _
        rcases links_setLink channel target ((channel.links target).send call) connection with
          h | ⟨rfl, h⟩
        · exact .inl h
        · exact .inr (.inl ⟨call, h⟩)
      · exact .inl rfl
      · exact .inl rfl
  | recv call =>
      left
      simp only [step]
      split <;> rfl
  | received call success arrived =>
      cases success with
      | false =>
          left
          simp only [step]
          split <;> rfl
      | true =>
          simp only [step]
          cases hreads : channel.reads call arrived with
          | none => exact .inl rfl
          | some read =>
              obtain ⟨target, recv_buf, rest⟩ := read
              rcases links_setLink channel target ((channel.links target).read call rest)
                connection with h | ⟨rfl, h⟩
              · exact .inl h
              · exact .inr (.inr (.inr (.inr ⟨call, arrived, recv_buf, rest, rfl, hreads, h⟩)))
  | serve target =>
      rcases links_setLink channel target ((channel.links target).serve codec respond)
        connection with h | ⟨rfl, h⟩
      · exact .inl h
      · exact .inr (.inr (.inl h))
  | close target =>
      rcases links_setLink channel target (channel.links target).close connection with
        h | ⟨rfl, h⟩
      · exact .inl h
      · exact .inr (.inr (.inr (.inl h)))

theorem threads_goTo_self (channel : SharedChannel M) (call : ι) (thread : Thread (M call)) :
    (channel.goTo call thread).threads call = thread :=
  Function.update_self ..

theorem threads_goTo_of_ne (channel : SharedChannel M) {target : ι} (thread : Thread (M target))
    (h : call ≠ target) : (channel.goTo target thread).threads call = channel.threads call :=
  Function.update_of_ne h ..

theorem returned_of_goTo {target : ι} {thread : Thread (M target)} {response : M call}
    (hthread : ∀ response, thread ≠ .done (.returned response))
    (h : (channel.goTo target thread).threads call = .done (.returned response)) :
    channel.threads call = .done (.returned response) := by
  by_cases hcall : call = target
  · subst hcall
    rw [threads_goTo_self] at h
    exact absurd h (hthread response)
  · rwa [threads_goTo_of_ne channel thread hcall] at h

/-- A call returns in the step in which it reads. -/
theorem returned_of_step {a : CallStep ι} {response : M call}
    (h : (step codec respond channel a).threads call = .done (.returned response)) :
    channel.threads call = .done (.returned response) ∨
      ∃ arrived connection recv_buf rest, a = .received call true arrived ∧
        channel.reads call arrived = some (connection, recv_buf, rest) ∧
        (codec call).parse recv_buf = some response := by
  cases a with
  | check target =>
      left
      simp only [step] at h
      split at h
      · refine returned_of_goTo (fun response ↦ ?_) h
        split_ifs <;> simp
      · exact h
  | connect target success =>
      left
      simp only [step] at h
      split at h
      · exact returned_of_goTo (by simp) h
      · exact returned_of_goTo (by simp) h
      · exact h
  | serializeFails target =>
      left
      simp only [step] at h
      split at h
      · exact returned_of_goTo (by simp) h
      · exact h
  | send target success =>
      left
      simp only [step] at h
      split at h
      · exact returned_of_goTo (by simp) h
      · exact returned_of_goTo (by simp) h
      · exact h
  | recv target =>
      left
      simp only [step] at h
      split at h
      · exact returned_of_goTo (by simp) h
      · exact returned_of_goTo (by simp) h
      · exact h
  | received target success arrived =>
      cases success with
      | false =>
          left
          simp only [step] at h
          split at h
          · exact returned_of_goTo (by simp) h
          · exact h
      | true =>
          simp only [step] at h
          cases hreads : channel.reads target arrived with
          | none =>
              rw [hreads] at h
              exact .inl h
          | some read =>
              obtain ⟨connection, recv_buf, rest⟩ := read
              rw [hreads] at h
              by_cases hcall : call = target
              · subst hcall
                refine .inr ⟨arrived, connection, recv_buf, rest, rfl, hreads, ?_⟩
                simp only [threads_goTo_self, Thread.done.injEq, parsed] at h
                split at h
                · rename_i hparse
                  rw [hparse]
                  simpa using h
                · cases h
              · simp only [threads_goTo_of_ne _ _ hcall] at h
                exact .inl h
  | serve connection => exact .inl h
  | close connection => exact .inl h

end SharedChannel

/-! ## The responses are read in the order of the requests -/

namespace Link

variable {ι : Type} {M : ι → Type} {codec : ∀ call, MessageCodec (M call)}
  {respond : ∀ call, M call} {link : Link ι}

/-- The bytes on a connection are the responses of the first of the waiting calls; the
requests of the others are those that an open connection has not handled. -/
def InOrder (codec : ∀ call, MessageCodec (M call)) (respond : ∀ call, M call) (link : Link ι) :
    Prop :=
  ∃ answered rest, link.waiting = answered ++ rest ∧
    link.pending = answered.flatMap (fun call ↦ sendRpcResponse (codec call) (respond call)) ∧
    (link.closed = false → rest = link.requests)

theorem inOrder_new : (new : Link ι).InOrder codec respond :=
  ⟨[], [], rfl, rfl, fun _ ↦ rfl⟩

theorem InOrder.send (h : link.InOrder codec respond) (call : ι) :
    (link.send call).InOrder codec respond := by
  obtain ⟨answered, rest, hwaiting, hpending, hrequests⟩ := h
  refine ⟨answered, rest ++ [call], ?_, hpending, fun hopen ↦ ?_⟩
  · rw [Link.send, hwaiting, List.append_assoc]
  · rw [hrequests hopen, Link.send]

theorem InOrder.close (h : link.InOrder codec respond) : link.close.InOrder codec respond := by
  obtain ⟨answered, rest, hwaiting, hpending, -⟩ := h
  exact ⟨answered, rest, hwaiting, hpending, fun hopen ↦ by simp [Link.close] at hopen⟩

theorem InOrder.serve (h : link.InOrder codec respond) :
    (link.serve codec respond).InOrder codec respond := by
  unfold Link.serve
  split
  · exact h
  · rename_i call requests hlink
    split_ifs with hclosed
    · exact h
    · rw [Bool.not_eq_true] at hclosed
      obtain ⟨answered, rest, hwaiting, hpending, hrequests⟩ := h
      refine ⟨answered ++ [call], requests, ?_, ?_, fun _ ↦ rfl⟩
      · rw [hwaiting, hrequests hclosed, hlink, List.append_assoc, List.singleton_append]
      · simp [Connection.answer, hclosed, hpending]

/-- Bytes that are read from the front, by their number. -/
theorem take_drop_of_length {bs : Bytes} {n size : ℕ} (h : (bs.take n).length = size) :
    bs.take n = bs.take size ∧ bs.drop n = bs.drop size := by
  subst h
  rw [List.length_take]
  rcases le_total n bs.length with hn | hn
  · rw [min_eq_left hn]
    exact ⟨rfl, rfl⟩
  · rw [min_eq_right hn, List.take_of_length_le hn, List.drop_of_length_le hn]
    simp

/-- The first of the waiting calls that gets as many bytes as its response has gets its
response, and the others stay in order. -/
theorem InOrder.read [DecidableEq ι] (h : link.InOrder codec respond) {call : ι} {arrived : ℕ}
    {recv_buf : Bytes} {connection : Connection} (hrecv : link.recv arrived = some (recv_buf, connection))
    (hhead : link.waiting.head? = some call)
    (hlength : recv_buf.length = ((codec call).serialize (respond call)).length) :
    (codec call).parse recv_buf = some (respond call) ∧
      (link.read call connection).InOrder codec respond := by
  obtain ⟨answered, rest, hwaiting, hpending, hrequests⟩ := h
  unfold Connection.recv at hrecv
  split_ifs at hrecv with hempty hclosed
  · -- the connection has been closed, and the response has no bytes
    cases hrecv
    have hnil : (codec call).serialize (respond call) = [] :=
      List.eq_nil_of_length_eq_zero (by rw [← hlength]; rfl)
    have hparse := (codec call).parse_serialize (respond call) (by rw [hnil]; decide)
    rw [hnil] at hparse
    refine ⟨hparse, ?_⟩
    cases answered with
    | nil =>
        cases rest with
        | nil => simp [hwaiting] at hhead
        | cons first rest =>
            obtain rfl : first = call := by simpa [hwaiting] using hhead
            refine ⟨[], rest, ?_, hempty, fun hopen ↦ ?_⟩
            · simp [Link.read, hwaiting]
            · exact absurd hopen (by simp [Link.read, hclosed])
    | cons first answered =>
        obtain rfl : first = call := by simpa [hwaiting] using hhead
        refine ⟨answered, rest, ?_, ?_, hrequests⟩
        · simp [Link.read, hwaiting]
        · rw [hempty] at hpending
          have hrest := (List.append_eq_nil_iff.mp hpending.symm).2
          exact hempty.trans hrest.symm
  · cases hrecv
    cases answered with
    | nil => exact absurd hpending hempty
    | cons first answered =>
        obtain rfl : first = call := by simpa [hwaiting] using hhead
        obtain ⟨htake, hdrop⟩ := take_drop_of_length hlength
        have hsmall : ((codec first).serialize (respond first)).length < 2 ^ 31 := by
          rw [← hlength, List.length_take]
          have := min_le_left 1024 (arrived + 1)
          omega
        have hsent : sendRpcResponse (codec first) (respond first) =
            (codec first).serialize (respond first) := if_pos hsmall
        rw [List.flatMap_cons, hsent] at hpending
        rw [hpending, List.take_left] at htake
        rw [hpending, List.drop_left] at hdrop
        rw [hpending, htake, hdrop]
        refine ⟨(codec first).parse_serialize (respond first) hsmall, answered, rest, ?_, rfl,
          hrequests⟩
        simp [Link.read, hwaiting]

end Link

namespace SharedChannel

variable {ι : Type} {M : ι → Type} {codec : ∀ call, MessageCodec (M call)}
  {respond : ∀ call, M call} {channel : SharedChannel M}

theorem mem_reads {call : ι} {arrived connection : ℕ} {recv_buf : Bytes} {rest : Connection}
    (h : channel.reads call arrived = some (connection, recv_buf, rest)) :
    (channel.links connection).recv arrived = some (recv_buf, rest) := by
  unfold reads at h
  split at h
  · obtain ⟨read, hrecv, heq⟩ := Option.map_eq_some_iff.mp h
    cases heq
    exact hrecv
  · cases h

/-- The connections are in order, and what has been returned is right. -/
structure Correlated (codec : ∀ call, MessageCodec (M call)) (respond : ∀ call, M call)
    (channel : SharedChannel M) : Prop where
  links : ∀ connection, (channel.links connection).InOrder codec respond
  returned : ∀ call response, channel.threads call = .done (.returned response) →
    response = respond call

theorem correlated_start (connectNow : Bool) :
    (start connectNow : SharedChannel M).Correlated codec respond where
  links _ := Link.inOrder_new
  returned _ _ h := by cases h

variable [DecidableEq ι]

theorem Correlated.step (h : channel.Correlated codec respond) {a : CallStep ι}
    (hok : channel.ReadsItsOwn codec respond a) :
    (step codec respond channel a).Correlated codec respond := by
  constructor
  · intro connection
    rcases links_step codec respond channel a connection with
      hsame | ⟨call, hsend⟩ | hserve | hclose |
        ⟨call, arrived, recv_buf, rest, rfl, hreads, hread⟩
    · rw [hsame]
      exact h.links connection
    · rw [hsend]
      exact (h.links connection).send call
    · rw [hserve]
      exact (h.links connection).serve
    · rw [hclose]
      exact (h.links connection).close
    · rw [hread]
      obtain ⟨hhead, hlength⟩ := hok _ hreads
      exact ((h.links connection).read (mem_reads hreads) hhead hlength).2
  · intro call response hreturned
    rcases returned_of_step hreturned with
      hbefore | ⟨arrived, connection, recv_buf, rest, rfl, hreads, hparse⟩
    · exact h.returned call response hbefore
    · obtain ⟨hhead, hlength⟩ := hok _ hreads
      have hown := ((h.links connection).read (mem_reads hreads) hhead hlength).1
      rw [hparse] at hown
      exact Option.some.inj hown

/-- Whatever calls share a channel and however their steps and those of the providers
follow each other: as long as every call that reads is the first of those that wait on its
connection and gets as many bytes as its response has, a call that does not fail returns
the response to its own request. -/
theorem returns_own_response (codec : ∀ call, MessageCodec (M call)) (respond : ∀ call, M call)
    (connectNow : Bool) (steps : List (CallStep ι))
    (h : Runs.Along (step codec respond) (ReadsItsOwn codec respond) (start connectNow) steps) :
    ∀ call response,
      (Runs.run (step codec respond) (start connectNow) steps).threads call =
        .done (.returned response) → response = respond call := by
  have hrun := Runs.invariant_of_step_along (step codec respond)
    (P := fun _ channel ↦ channel.Correlated codec respond) (correlated_start connectNow)
    (fun _ _ hinv hok ↦ hinv.step hok) steps h
  exact hrun.returned

end SharedChannel

/-! ## Two snapshots on the way to a follower -/

structure InstallSnapshotResponse where
  Term : Int32
deriving DecidableEq, Repr

namespace InstallSnapshotResponse

/-- A negative number is written as one of 64 bits. -/
def signExtend (n : ℕ) : ℕ :=
  if n < 2 ^ 31 then n else n + (2 ^ 64 - 2 ^ 32)

def serialize (response : InstallSnapshotResponse) : Bytes :=
  if response.Term = 0 then []
  else 8 :: Varint.write 10 (signExtend response.Term.toUInt32.toNat)

/-- The last field counts. -/
def parseTerm : ℕ → Int32 → Bytes → Option InstallSnapshotResponse
  | _, term, [] => some ⟨term⟩
  | 0, _, _ :: _ => none
  | fuel + 1, _, tag :: bs =>
      if tag = 8 then do
        let (value, rest) ← Varint.read 10 bs
        parseTerm fuel ⟨.ofNat value⟩ rest
      else none

def parse (bs : Bytes) : Option InstallSnapshotResponse :=
  parseTerm bs.length 0 bs

theorem read_term (response : InstallSnapshotResponse) :
    Varint.read 10 (Varint.write 10 (signExtend response.Term.toUInt32.toNat)) =
      some (signExtend response.Term.toUInt32.toNat, []) := by
  have hlt : signExtend response.Term.toUInt32.toNat < 128 ^ 10 := by
    have := response.Term.toUInt32.toNat_lt
    unfold signExtend
    split_ifs <;> omega
  have hread := Varint.read_write (by decide) hlt le_rfl []
  rwa [List.append_nil] at hread

theorem ofNat_signExtend (term : UInt32) : UInt32.ofNat (signExtend term.toNat) = term := by
  apply UInt32.toNat_inj.mp
  rw [UInt32.toNat_ofNat']
  have := term.toNat_lt
  unfold signExtend
  split_ifs <;> omega

def codec : MessageCodec InstallSnapshotResponse where
  serialize := serialize
  parse := parse
  parse_serialize := by
    intro response _
    unfold serialize parse
    split_ifs with hzero
    · rw [← hzero]
      rfl
    · simp [parseTerm, read_term, ofNat_signExtend]
  eq_of_parse_prefix := by
    intro response bs hprefix hparse
    unfold serialize at hprefix ⊢
    split_ifs at hprefix ⊢ with hzero
    · exact List.prefix_nil.mp hprefix
    · cases bs with
      | nil =>
          obtain rfl := Option.some.inj hparse
          exact absurd rfl hzero
      | cons tag bs =>
          obtain ⟨rfl, more, hmore⟩ := List.cons_prefix_cons.mp hprefix
          obtain ⟨⟨value, rest⟩, hread, -⟩ := Option.bind_eq_some_iff.mp hparse
          have hwhole := Varint.read_append hread more
          rw [hmore, read_term, Option.some.injEq, Prod.mk.injEq] at hwhole
          have hnil : more = [] := (List.append_eq_nil_iff.mp hwhole.2.symm).2
          rw [← hmore, hnil, List.append_nil]
  default := ⟨0⟩
  parse_nil := rfl

end InstallSnapshotResponse

/-- The follower is in term 1 at the first request and in term 2 at the second. -/
def followerTerm (second : Bool) : InstallSnapshotResponse :=
  ⟨if second then 2 else 1⟩

namespace SharedChannel

/-- Two calls send their requests, and the provider answers both. -/
def twoSnapshots : List (CallStep Bool) :=
  [.check false, .send false true, .recv false, .check true, .send true true, .recv true,
    .serve 0, .serve 0]

/-- The second call is the first to read, and it returns the response to the first. -/
theorem reply_goes_to_second_call :
    (Runs.run (step (fun _ ↦ InstallSnapshotResponse.codec) followerTerm) (start true)
        (twoSnapshots ++ [.received true true 1])).threads true = .done (.returned ⟨1⟩) ∧
      followerTerm true ≠ ⟨1⟩ := by
  decide

/-- They read in the order of their requests. -/
theorem replies_in_order :
    Runs.Along (step (fun _ ↦ InstallSnapshotResponse.codec) followerTerm)
        (ReadsItsOwn (fun _ ↦ InstallSnapshotResponse.codec) followerTerm) (start true)
        (twoSnapshots ++ [.received false true 1, .received true true 1]) ∧
      (Runs.run (step (fun _ ↦ InstallSnapshotResponse.codec) followerTerm) (start true)
        (twoSnapshots ++ [.received false true 1, .received true true 1])).threads true =
          .done (.returned ⟨2⟩) ∧
      ⟨2⟩ = followerTerm true :=
  ⟨by decide, by decide,
    returns_own_response (fun _ ↦ InstallSnapshotResponse.codec) followerTerm true
      (twoSnapshots ++ [.received false true 1, .received true true 1]) (by decide) true ⟨2⟩
      (by decide)⟩

end SharedChannel

end HttpRaftKv.Rpc
