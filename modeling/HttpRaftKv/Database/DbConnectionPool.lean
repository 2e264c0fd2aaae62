import HttpRaftKv.Lib.Monitor
import HttpRaftKv.Lib.Runs
import Mathlib.Data.Finset.Insert
import Mathlib.Logic.ExistsUnique

/-!
# The pool of database connections

A connection stands in the queue of the pool, or a thread has taken it in `getConnection`
and checks it, or it has been lent.  Every connection is at one of these places only, and
no thread waits for a connection that it could be given.

The database is not part of the repository: whether a connection can be made, whether it
answers and whether it can be opened again are choices of the run.
-/

namespace HttpRaftKv.Database

/-- What `init` is given. -/
structure DbConfig where
  host : String
  user : String
  password : String
  database : String
deriving DecidableEq, Repr

/-- Where a thread stands that is not inside the monitor: not in `getConnection`, at the
check of the connection that it has taken, or in the handler of an exception. -/
inductive Phase
  | out
  | checking (conn : ℕ)
  | failed (conn : ℕ) (what : String)
deriving DecidableEq, Repr

/-- The connection that a thread has taken. -/
def Phase.conn : Phase → Option ℕ
  | .out => none
  | .checking conn => some conn
  | .failed conn _ => some conn

/-- The pool, with its threads and its borrowers.  A connection is its number in
`created`. -/
structure DbConnectionPool (T : Type) where
  initialized : Bool
  created : List DbConfig
  connections : Monitor T ℕ
  threads : T → Phase
  lent : Finset ℕ
  /-- The copy of the queue which the check thread goes through. -/
  connsToCheck : List ℕ
  /-- What the calls of `getConnection` have returned or thrown. -/
  returned : List (T × Except String ℕ)

/-- A part of a thread that runs with the lock held, or without the pool.  With a
notification goes the thread that it wakes, if any. -/
inductive Action (T : Type)
  | init (config : DbConfig) (poolSize : ℕ) (throwsAt : Option ℕ)
  | getConnection (t : T)
  | wakeUp (t : T)
  | resume (t : T)
  | check (t : T) (error : Option String)
  | putBack (t : T) (woken : T)
  | release (conn : ℕ) (woken : T)
  | copyConnections
  | checkNext
deriving DecidableEq, Repr

/-- The place of a connection. -/
inductive Owner (T : Type)
  | pool
  | thread (t : T)
  | borrower
deriving DecidableEq, Repr

namespace DbConnectionPool

variable {T : Type}

def initial : DbConnectionPool T where
  initialized := false
  created := []
  connections := .empty
  threads := fun _ ↦ .out
  lent := ∅
  connsToCheck := []
  returned := []

/-- `connections_.push(createConnection())`. -/
def createConnection (s : DbConnectionPool T) (config : DbConfig) : DbConnectionPool T :=
  { s with
    created := s.created ++ [config]
    connections := { s.connections with queue := s.connections.queue ++ [s.created.length] } }

/-- The loop of `init` from its pass `i` on.  If a connection cannot be made, those before
it stay and the pool is not initialized. -/
def createFrom (config : DbConfig) (throwsAt : Option ℕ) :
    ℕ → ℕ → DbConnectionPool T → DbConnectionPool T
  | _, 0, s => { s with initialized := true }
  | i, rest + 1, s =>
      if throwsAt = some i then s
      else createFrom config throwsAt (i + 1) rest (s.createConnection config)

def init (s : DbConnectionPool T) (config : DbConfig) (poolSize : ℕ) (throwsAt : Option ℕ) :
    DbConnectionPool T :=
  if s.initialized then s else createFrom config throwsAt 0 poolSize s

variable [DecidableEq T]

def setPhase (s : DbConnectionPool T) (t : T) (phase : Phase) : DbConnectionPool T :=
  { s with threads := Function.update s.threads t phase }

/-- The loop of `getConnection`, up to the check or the wait. -/
def look (s : DbConnectionPool T) (t : T) : DbConnectionPool T :=
  if s.connections.queue = [] ∧ s.initialized = false then
    { s with
      connections := s.connections.leave t
      returned := s.returned ++ [(t, .error "Connection pool not initialized")] }
  else
    match s.connections.take t with
    | (none, m) => { s with connections := m }
    | (some conn, m) => { s with connections := m }.setPhase t (.checking conn)

/-- `ping`, and `reconnect` if there is no answer.  Either the connection is lent, or
`reconnect` has thrown. -/
def check (s : DbConnectionPool T) (t : T) (conn : ℕ) : Option String → DbConnectionPool T
  | none => { s with
      lent := insert conn s.lent
      returned := s.returned ++ [(t, Except.ok conn)] }.setPhase t .out
  | some what => s.setPhase t (.failed conn what)

/-- The handler of the exception, which is thrown again. -/
def putBack (s : DbConnectionPool T) (t : T) (conn : ℕ) (what : String) (woken : T) :
    DbConnectionPool T :=
  { s with
    connections := s.connections.push conn woken
    returned := s.returned ++ [(t, Except.error what)] }.setPhase t .out

/-- What is called when the last pointer to a lent connection goes. -/
def release (s : DbConnectionPool T) (conn : ℕ) (woken : T) : DbConnectionPool T :=
  { s with
    connections := s.connections.push conn woken
    lent := s.lent.erase conn }

/-- A step that is not possible changes nothing. -/
def step (s : DbConnectionPool T) : Action T → DbConnectionPool T
  | .init config poolSize throwsAt => s.init config poolSize throwsAt
  | .getConnection t => if s.threads t = .out ∧ t ∉ s.connections.waiting then s.look t else s
  | .wakeUp t =>
      if t ∈ s.connections.sleeping then { s with connections := s.connections.wake t } else s
  | .resume t => if t ∈ s.connections.awake then s.look t else s
  | .check t error =>
      match s.threads t with
      | .checking conn => s.check t conn error
      | _ => s
  | .putBack t woken =>
      match s.threads t with
      | .failed conn what =>
          if s.connections.Notifies woken then s.putBack t conn what woken else s
      | _ => s
  | .release conn woken =>
      if conn ∈ s.lent ∧ s.connections.Notifies woken then s.release conn woken else s
  | .copyConnections => { s with connsToCheck := s.connections.queue }
  | .checkNext => { s with connsToCheck := s.connsToCheck.tail }

def run (as : List (Action T)) : DbConnectionPool T :=
  Runs.run step initial as

/-! ## Where the connections are -/

def Owns (s : DbConnectionPool T) (conn : ℕ) : Owner T → Prop
  | .pool => conn ∈ s.connections.queue
  | .thread t => (s.threads t).conn = some conn
  | .borrower => conn ∈ s.lent

/-- Exactly the connections that have been made have a place, and each has one. -/
structure Conserved (s : DbConnectionPool T) : Prop where
  known : ∀ conn o, s.Owns conn o → conn < s.created.length
  placed : ∀ conn < s.created.length, ∃! o, s.Owns conn o
  nodup : s.connections.queue.Nodup

/-- One connection changes its place. -/
structure Moved (s s' : DbConnectionPool T) (conn : ℕ) (o : Owner T) : Prop where
  created : s'.created = s.created
  owns : ∀ other place, s'.Owns other place ↔
    if other = conn then place = o else s.Owns other place

variable {s s' : DbConnectionPool T}

omit [DecidableEq T] in
theorem Conserved.eq_of_owns (h : s.Conserved) {conn : ℕ} {o o' : Owner T} (ho : s.Owns conn o)
    (ho' : s.Owns conn o') : o = o' :=
  (h.placed conn (h.known conn o ho)).unique ho ho'

omit [DecidableEq T] in
/-- A connection that one owner has, no other one has. -/
theorem Conserved.not_owns (h : s.Conserved) {conn : ℕ} {o : Owner T} (ho : s.Owns conn o)
    (o' : Owner T) (hne : o' ≠ o) : ¬ s.Owns conn o' :=
  fun ho' ↦ hne (h.eq_of_owns ho' ho)

omit [DecidableEq T] in
theorem Conserved.moved (h : s.Conserved) {conn : ℕ} {o : Owner T} (o' : Owner T)
    (hmoved : s.Moved s' conn o') (ho : s.Owns conn o) (hnodup : s'.connections.queue.Nodup) : s'.Conserved where
  known other place hother := by
    rw [hmoved.created]
    rw [hmoved.owns] at hother
    split_ifs at hother with heq
    · rw [heq]
      exact h.known conn o ho
    · exact h.known other place hother
  placed other hother := by
    rw [hmoved.created] at hother
    by_cases heq : other = conn
    · refine ⟨o', (hmoved.owns other o').mpr (by rw [if_pos heq]), fun place hplace ↦ ?_⟩
      have hplace' := (hmoved.owns other place).mp hplace
      rwa [if_pos heq] at hplace'
    · obtain ⟨place, hplace, hunique⟩ := h.placed other hother
      refine ⟨place, (hmoved.owns other place).mpr (by rwa [if_neg heq]), fun place' hplace' ↦ ?_⟩
      have hold := (hmoved.owns other place').mp hplace'
      rw [if_neg heq] at hold
      exact hunique place' hold
  nodup := hnodup

omit [DecidableEq T] in
/-- A step that leaves all connections where they are. -/
theorem Conserved.same (h : s.Conserved) (hcreated : s'.created = s.created)
    (hqueue : s'.connections.queue = s.connections.queue) (hthreads : s'.threads = s.threads)
    (hlent : s'.lent = s.lent) : s'.Conserved := by
  have howns : ∀ conn o, s'.Owns conn o ↔ s.Owns conn o := by
    rintro conn (- | t | -)
    · rw [Owns, Owns, hqueue]
    · rw [Owns, Owns, hthreads]
    · rw [Owns, Owns, hlent]
  refine ⟨fun conn o ho ↦ ?_, fun conn hconn ↦ ?_, ?_⟩
  · rw [hcreated]
    exact h.known conn o ((howns conn o).mp ho)
  · rw [hcreated] at hconn
    simpa only [howns] using h.placed conn hconn
  · rw [hqueue]
    exact h.nodup

/-- What holds in every state. -/
structure Sound (s : DbConnectionPool T) : Prop extends s.Conserved where
  attended : s.connections.Attended
  outside : ∀ t ∈ s.connections.waiting, s.threads t = .out
  /-- Nobody waits for a pool that has not been filled. -/
  filled : s.connections.waiting.Nonempty → s.initialized = true
  checked : ∀ conn ∈ s.connsToCheck, conn < s.created.length

theorem sound_initial : (initial : DbConnectionPool T).Sound where
  known conn o ho := by
    rcases o with - | t | -
    · cases ho
    · cases ho
    · exact absurd ho (Finset.notMem_empty conn)
  placed conn hconn := absurd hconn (Nat.not_lt_zero conn)
  nodup := List.nodup_nil
  attended := Monitor.attended_empty
  outside _ _ := rfl
  filled hwaiting := by
    obtain ⟨t, ht⟩ := hwaiting
    simp [initial, Monitor.empty, Monitor.waiting] at ht
  checked _ hconn := by cases hconn

namespace Sound

/-! ## Filling the pool -/

theorem createConnection (h : s.Sound) (config : DbConfig)
    (hnobody : s.connections.waiting = ∅) : (s.createConnection config).Sound where
  known conn o ho := by
    change conn < (s.created ++ [config]).length
    rw [List.length_append, List.length_singleton]
    rcases o with - | t | -
    · rcases List.mem_append.mp ho with hold | hnew
      · exact Nat.lt_succ_of_lt (h.known conn .pool hold)
      · rw [List.mem_singleton.mp hnew]
        exact Nat.lt_succ_self _
    · exact Nat.lt_succ_of_lt (h.known conn (.thread t) ho)
    · exact Nat.lt_succ_of_lt (h.known conn .borrower ho)
  placed conn hconn := by
    change conn < (s.created ++ [config]).length at hconn
    rw [List.length_append, List.length_singleton] at hconn
    have howns : ∀ o, (s.createConnection config).Owns conn o ↔
        s.Owns conn o ∨ (o = .pool ∧ conn = s.created.length) := by
      rintro (- | t | -)
      · simp [Owns, DbConnectionPool.createConnection]
      · simp [Owns, DbConnectionPool.createConnection]
      · simp [Owns, DbConnectionPool.createConnection]
    simp only [howns]
    rcases Nat.lt_succ_iff_lt_or_eq.mp hconn with hold | rfl
    · simpa [hold.ne] using h.placed conn hold
    · have hnew : ∀ o, ¬ s.Owns s.created.length o := fun o ho ↦ lt_irrefl _ (h.known _ o ho)
      simp [hnew]
  nodup := by
    refine List.nodup_append.mpr ⟨h.nodup, List.nodup_singleton _, ?_⟩
    rintro conn hconn other hother rfl
    rw [List.mem_singleton] at hother
    exact (h.known conn .pool hconn).ne hother
  attended := by
    refine ⟨h.attended.apart, fun hsleeps ↦ ?_⟩
    have hmem : s.connections.waiting.Nonempty := hsleeps.mono Finset.subset_union_left
    exact absurd hnobody hmem.ne_empty
  outside := h.outside
  filled := h.filled
  checked conn hconn := by
    change conn < (s.created ++ [config]).length
    rw [List.length_append]
    exact Nat.lt_add_right _ (h.checked conn hconn)

theorem createFrom (h : s.Sound) (config : DbConfig) (throwsAt : Option ℕ)
    (hnobody : s.connections.waiting = ∅) (i rest : ℕ) :
    (createFrom config throwsAt i rest s).Sound := by
  induction rest generalizing i s with
  | zero =>
      exact ⟨h.toConserved.same rfl rfl rfl rfl, h.attended, h.outside, fun _ ↦ rfl, h.checked⟩
  | succ rest ih =>
      unfold DbConnectionPool.createFrom
      split_ifs
      · exact h
      · exact ih (h.createConnection config hnobody) hnobody (i + 1)

theorem init (h : s.Sound) (config : DbConfig) (poolSize : ℕ) (throwsAt : Option ℕ) :
    (s.init config poolSize throwsAt).Sound := by
  unfold DbConnectionPool.init
  split_ifs with hinitialized
  · exact h
  · refine h.createFrom config throwsAt ?_ 0 poolSize
    by_contra hne
    exact hinitialized (h.filled (Finset.nonempty_iff_ne_empty.mpr hne))

/-! ## Taking a connection -/

/-- The thread that has the lock has not taken a connection before. -/
theorem look (h : s.Sound) {t : T} (ht : s.threads t = .out) : (s.look t).Sound := by
  unfold DbConnectionPool.look
  split_ifs with hempty
  · -- nobody waits here, so that nobody leaves the monitor either
    have hnobody : ∀ u, u ∉ (s.connections.leave t).waiting := by
      intro u hu
      have hfilled := h.filled ⟨u, ((s.connections.mem_waiting_leave t u).mp hu).2⟩
      rw [hempty.2] at hfilled
      cases hfilled
    refine ⟨h.toConserved.same rfl rfl rfl rfl, ⟨h.attended.leave_apart t, fun hsleeps ↦ ?_⟩,
      fun u hu ↦ absurd hu (hnobody u), fun hwaits ↦ absurd hwaits.choose_spec (hnobody _),
      h.checked⟩
    exact absurd (Finset.mem_union_left _ hsleeps.choose_spec) (hnobody _)
  · have htake := h.attended.take t
    have hmem := s.connections.mem_waiting_take t
    cases hqueue : s.connections.queue with
    | nil =>
        have hinitialized : s.initialized = true := by
          by_contra hnot
          exact hempty ⟨hqueue, Bool.eq_false_of_not_eq_true hnot⟩
        rw [Monitor.take_of_nil hqueue] at htake hmem ⊢
        refine ⟨h.toConserved.same rfl rfl rfl rfl, htake, fun u hu ↦ ?_, fun _ ↦ hinitialized,
          h.checked⟩
        rw [hmem] at hu
        split_ifs at hu with heq
        · rw [heq]
          exact ht
        · exact h.outside u hu
    | cons conn rest =>
        rw [Monitor.take_of_cons hqueue] at htake hmem ⊢
        have hpool : s.Owns conn .pool := by
          rw [Owns, hqueue]
          exact List.mem_cons_self
        have hnodup := h.nodup
        rw [hqueue, List.nodup_cons] at hnodup
        refine ⟨h.toConserved.moved (.thread t) ⟨rfl, ?_⟩ hpool hnodup.2, htake,
          fun u hu ↦ ?_, fun hwaits ↦ ?_, h.checked⟩
        · rintro other (- | u | -)
          · simp only [Owns, setPhase, Monitor.leave, hqueue, List.mem_cons]
            split_ifs with heq
            · simp [heq, hnodup.1]
            · simp [heq]
          · simp only [Owns, setPhase]
            by_cases hu : u = t
            · subst hu
              rw [Function.update_self, ht]
              split_ifs with heq
              · simp [Phase.conn, heq]
              · simp [Phase.conn, Ne.symm heq]
            · rw [Function.update_of_ne hu]
              split_ifs with heq
              · subst heq
                refine iff_of_false (h.not_owns hpool (.thread u) ?_) ?_
                · exact fun hne ↦ by cases hne
                · exact fun hne ↦ hu (Owner.thread.inj hne)
              · rfl
          · simp only [Owns, setPhase]
            split_ifs with heq
            · subst heq
              refine iff_of_false (h.not_owns hpool .borrower ?_) ?_
              · exact fun hne ↦ by cases hne
              · exact fun hne ↦ by cases hne
            · rfl
        · have hu' := (hmem u).mp hu
          split_ifs at hu' with heq
          change Function.update s.threads t _ u = _
          rw [Function.update_of_ne heq]
          exact h.outside u hu'
        · obtain ⟨u, hu⟩ := hwaits
          have hu' := (hmem u).mp hu
          split_ifs at hu' with heq
          exact h.filled ⟨u, hu'⟩

/-! ## Checking it and giving it back -/

theorem check (h : s.Sound) {t : T} {conn : ℕ} (ht : s.threads t = .checking conn)
    (error : Option String) : (s.check t conn error).Sound := by
  have hthread : s.Owns conn (.thread t) := by
    rw [Owns, ht]
    rfl
  have hnotin : t ∉ s.connections.waiting := by
    intro hmem
    rw [h.outside t hmem] at ht
    cases ht
  have houtside : ∀ phase, ∀ u ∈ s.connections.waiting,
      Function.update s.threads t phase u = .out := by
    intro phase u hu
    rw [Function.update_of_ne (ne_of_mem_of_not_mem hu hnotin)]
    exact h.outside u hu
  cases error with
  | none =>
      refine ⟨h.toConserved.moved .borrower ⟨rfl, ?_⟩ hthread h.nodup, h.attended,
        houtside .out, h.filled, h.checked⟩
      rintro other (- | u | -)
      · simp only [Owns, DbConnectionPool.check, setPhase]
        split_ifs with heq
        · subst heq
          exact iff_of_false (h.not_owns hthread .pool nofun) nofun
        · rfl
      · simp only [Owns, DbConnectionPool.check, setPhase]
        by_cases hu : u = t
        · subst hu
          rw [Function.update_self, ht]
          simp [Phase.conn, eq_comm]
        · rw [Function.update_of_ne hu]
          split_ifs with heq
          · subst heq
            refine iff_of_false (h.not_owns hthread (.thread u) ?_) nofun
            exact fun hne ↦ hu (Owner.thread.inj hne)
          · rfl
      · simp only [Owns, DbConnectionPool.check, setPhase, Finset.mem_insert]
        split_ifs with heq
        · simp [heq]
        · simp [heq]
  | some what =>
      refine ⟨h.toConserved.moved (.thread t) ⟨rfl, ?_⟩ hthread h.nodup, h.attended,
        houtside _, h.filled, h.checked⟩
      have hsame : ∀ u, (Function.update s.threads t (Phase.failed conn what) u).conn =
          (s.threads u).conn := by
        intro u
        by_cases hu : u = t
        · rw [hu, Function.update_self, ht]
          rfl
        · rw [Function.update_of_ne hu]
      intro other place
      have hplace : (s.check t conn (some what)).Owns other place ↔ s.Owns other place := by
        rcases place with - | u | -
        · rfl
        · simp only [Owns, DbConnectionPool.check, setPhase, hsame]
        · rfl
      rw [hplace]
      split_ifs with heq
      · subst heq
        exact ⟨fun ho ↦ h.eq_of_owns ho hthread, fun ho ↦ ho ▸ hthread⟩
      · rfl

theorem putBack (h : s.Sound) {t woken : T} {conn : ℕ} {what : String}
    (ht : s.threads t = .failed conn what) (hwoken : s.connections.Notifies woken) :
    (s.putBack t conn what woken).Sound := by
  have hthread : s.Owns conn (.thread t) := by
    rw [Owns, ht]
    rfl
  have hnotin : t ∉ s.connections.waiting := by
    intro hmem
    rw [h.outside t hmem] at ht
    cases ht
  have hwaiting := s.connections.waiting_push conn woken
  refine ⟨h.toConserved.moved .pool ⟨rfl, ?_⟩ hthread ?_, h.attended.push conn hwoken,
    fun u hu ↦ ?_, fun hwaits ↦ h.filled (hwaiting ▸ hwaits), h.checked⟩
  · rintro other (- | u | -)
    · simp only [Owns, DbConnectionPool.putBack, setPhase, Monitor.queue_push, List.mem_append,
        List.mem_singleton]
      split_ifs with heq
      · simp [heq]
      · simp [heq]
    · simp only [Owns, DbConnectionPool.putBack, setPhase]
      by_cases hu : u = t
      · subst hu
        rw [Function.update_self, ht]
        simp [Phase.conn, eq_comm]
      · rw [Function.update_of_ne hu]
        split_ifs with heq
        · subst heq
          refine iff_of_false (h.not_owns hthread (.thread u) ?_) nofun
          exact fun hne ↦ hu (Owner.thread.inj hne)
        · rfl
    · simp only [Owns, DbConnectionPool.putBack, setPhase]
      split_ifs with heq
      · subst heq
        exact iff_of_false (h.not_owns hthread .borrower nofun) nofun
      · rfl
  · change (s.connections.push conn woken).queue.Nodup
    rw [Monitor.queue_push, ← List.concat_eq_append]
    exact h.nodup.concat (h.not_owns hthread .pool nofun)
  · have hmem : u ∈ s.connections.waiting := hwaiting ▸ hu
    change Function.update s.threads t _ u = _
    rw [Function.update_of_ne (ne_of_mem_of_not_mem hmem hnotin)]
    exact h.outside u hmem

theorem release (h : s.Sound) {conn : ℕ} {woken : T} (hlent : conn ∈ s.lent)
    (hwoken : s.connections.Notifies woken) : (s.release conn woken).Sound := by
  have hborrower : s.Owns conn .borrower := hlent
  have hwaiting := s.connections.waiting_push conn woken
  refine ⟨h.toConserved.moved .pool ⟨rfl, ?_⟩ hborrower ?_, h.attended.push conn hwoken,
    fun u hu ↦ h.outside u (hwaiting ▸ hu), fun hwaits ↦ h.filled (hwaiting ▸ hwaits), h.checked⟩
  · rintro other (- | u | -)
    · simp only [Owns, DbConnectionPool.release, Monitor.queue_push, List.mem_append,
        List.mem_singleton]
      split_ifs with heq
      · simp [heq]
      · simp [heq]
    · simp only [Owns, DbConnectionPool.release]
      split_ifs with heq
      · subst heq
        exact iff_of_false (h.not_owns hborrower (.thread u) nofun) nofun
      · rfl
    · simp only [Owns, DbConnectionPool.release, Finset.mem_erase]
      split_ifs with heq
      · simp [heq]
      · exact and_iff_right heq
  · change (s.connections.push conn woken).queue.Nodup
    rw [Monitor.queue_push, ← List.concat_eq_append]
    exact h.nodup.concat (h.not_owns hborrower .pool nofun)

theorem step (h : s.Sound) (a : Action T) : (s.step a).Sound := by
  cases a with
  | init config poolSize throwsAt => exact h.init config poolSize throwsAt
  | getConnection t =>
      unfold DbConnectionPool.step
      dsimp only
      split_ifs with ht
      · exact h.look ht.1
      · exact h
  | wakeUp t =>
      unfold DbConnectionPool.step
      dsimp only
      split_ifs with ht
      · have hwaiting := Monitor.waiting_wake ht
        exact ⟨h.toConserved.same rfl rfl rfl rfl, h.attended.wake ht,
          fun u hu ↦ h.outside u (hwaiting ▸ hu), fun hwaits ↦ h.filled (hwaiting ▸ hwaits),
          h.checked⟩
      · exact h
  | resume t =>
      unfold DbConnectionPool.step
      dsimp only
      split_ifs with ht
      · exact h.look (h.outside t (Finset.mem_union_right _ ht))
      · exact h
  | check t error =>
      unfold DbConnectionPool.step
      dsimp only
      split
      · rename_i conn ht
        exact h.check ht error
      · exact h
  | putBack t woken =>
      unfold DbConnectionPool.step
      dsimp only
      split
      · rename_i conn what ht
        split_ifs with hwoken
        · exact h.putBack ht hwoken
        · exact h
      · exact h
  | release conn woken =>
      unfold DbConnectionPool.step
      dsimp only
      split_ifs with hconn
      · exact h.release hconn.1 hconn.2
      · exact h
  | copyConnections =>
      exact ⟨h.toConserved.same rfl rfl rfl rfl, h.attended, h.outside, h.filled,
        fun conn hconn ↦ h.known conn .pool hconn⟩
  | checkNext =>
      exact ⟨h.toConserved.same rfl rfl rfl rfl, h.attended, h.outside, h.filled,
        fun conn hconn ↦ h.checked conn (List.mem_of_mem_tail hconn)⟩

end Sound

theorem sound_run (as : List (Action T)) : (run as).Sound :=
  Runs.invariant_of_step DbConnectionPool.step (P := fun _ s ↦ s.Sound) sound_initial
    (fun _ a h ↦ h.step a) as

/-- In every run, each connection that has been made is either in the queue, once, or with
one thread that has just taken it, or lent, and never at two of these places. -/
theorem connections_have_one_owner (as : List (Action T)) :
    (∀ conn, (∃! o, (run as).Owns conn o) ↔ conn < (run as).created.length) ∧
      (run as).connections.queue.Nodup ∧
      ∀ conn ∈ (run as).connsToCheck, conn < (run as).created.length := by
  have h := sound_run as
  refine ⟨fun conn ↦ ⟨fun ho ↦ ?_, h.placed conn⟩, h.nodup, h.checked⟩
  obtain ⟨o, ho, -⟩ := ho
  exact h.known conn o ho

/-! ## Every thread that waits can be served -/

/-- Neither a wakeup by nobody nor a call of `init`. -/
def Ordinary : Action T → Prop
  | .wakeUp _ => False
  | .init _ _ _ => False
  | _ => True

/-- Ordinary steps lead to a state in which the thread has just been lent a connection. -/
def Servable (s : DbConnectionPool T) (t : T) : Prop :=
  ∃ bs, (∀ b ∈ bs, Ordinary b) ∧
    ∃ conn, (Runs.run step s bs).returned.getLast? = some (t, .ok conn)

theorem Servable.of_step {t : T} {b : Action T} (hb : Ordinary b) (h : (s.step b).Servable t) :
    s.Servable t := by
  obtain ⟨bs, hbs, hlast⟩ := h
  exact ⟨b :: bs, List.forall_mem_cons.mpr ⟨hb, hbs⟩, hlast⟩

/-- A thread at its check is lent the connection if the database answers. -/
theorem servable_of_checking {t : T} (conn : ℕ) (ht : s.threads t = .checking conn) :
    s.Servable t := by
  refine ⟨[.check t none], List.forall_mem_singleton.mpr trivial, conn, ?_⟩
  simp [Runs.run, step, ht, DbConnectionPool.check, setPhase]

theorem look_of_cons {t : T} {conn : ℕ} {rest : List ℕ}
    (hqueue : s.connections.queue = conn :: rest) :
    s.look t = { s with
      connections := { s.connections with queue := rest }.leave t }.setPhase t (.checking conn) := by
  unfold look
  rw [if_neg fun hempty ↦ List.cons_ne_nil conn rest (hqueue ▸ hempty.1),
    Monitor.take_of_cons hqueue]

/-- A thread that is awake finds what is in the queue. -/
theorem servable_of_awake {t : T} (ht : t ∈ s.connections.awake)
    (hqueue : s.connections.queue ≠ []) : s.Servable t := by
  obtain ⟨conn, rest, hqueue⟩ := List.exists_cons_of_ne_nil hqueue
  refine Servable.of_step (b := .resume t) trivial (servable_of_checking conn ?_)
  simp [step, ht, look_of_cons hqueue, setPhase]

/-- When a connection comes back, the thread can be the one that is woken. -/
theorem exists_notifies {t : T} (ht : t ∈ s.connections.waiting) (conn : ℕ) :
    ∃ woken, s.connections.Notifies woken ∧ t ∈ (s.connections.push conn woken).awake := by
  unfold Monitor.push Monitor.notifyOne
  by_cases hsleeps : t ∈ s.connections.sleeping
  · refine ⟨t, .inl hsleeps, ?_⟩
    rw [if_pos hsleeps]
    exact Finset.mem_insert_self _ _
  · have hawake := (Finset.mem_union.mp ht).resolve_left hsleeps
    obtain ⟨woken, hwoken⟩ : ∃ woken, s.connections.Notifies woken := by
      rcases s.connections.sleeping.eq_empty_or_nonempty with hnone | ⟨u, hu⟩
      · exact ⟨t, .inr hnone⟩
      · exact ⟨u, .inl hu⟩
    refine ⟨woken, hwoken, ?_⟩
    split_ifs
    · exact Finset.mem_insert_of_mem hawake
    · exact hawake

theorem queue_push_ne_nil (conn : ℕ) (woken : T) :
    (s.connections.push conn woken).queue ≠ [] := by
  rw [Monitor.queue_push]
  exact List.append_ne_nil_of_right_ne_nil _ (List.cons_ne_nil _ _)

theorem servable_of_lent {t : T} (ht : t ∈ s.connections.waiting) {conn : ℕ}
    (hconn : conn ∈ s.lent) : s.Servable t := by
  obtain ⟨woken, hwoken, hawake⟩ := exists_notifies ht conn
  refine Servable.of_step (b := .release conn woken) trivial ?_
  rw [step, if_pos ⟨hconn, hwoken⟩]
  exact servable_of_awake hawake (queue_push_ne_nil conn woken)

theorem servable_of_taken {t : T} (u : T) (conn : ℕ) (ht : t ∈ s.connections.waiting)
    (hconn : (s.threads u).conn = some conn) : s.Servable t := by
  cases hphase : s.threads u with
  | out =>
      rw [hphase] at hconn
      cases hconn
  | checking conn' =>
      refine Servable.of_step (b := .check u none) trivial ?_
      rw [step, hphase]
      exact servable_of_lent ht (Finset.mem_insert_self conn' s.lent)
  | failed conn' what =>
      obtain ⟨woken, hwoken, hawake⟩ := exists_notifies ht conn'
      refine Servable.of_step (b := .putBack u woken) trivial ?_
      rw [step, hphase]
      dsimp only
      rw [if_pos hwoken]
      exact servable_of_awake hawake (queue_push_ne_nil conn' woken)

theorem Sound.servable (h : s.Sound) {t : T} (ht : t ∈ s.connections.waiting)
    (hcreated : s.created ≠ []) : s.Servable t := by
  obtain ⟨o, ho, -⟩ := h.placed 0 (List.length_pos_of_ne_nil hcreated)
  rcases o with - | u | -
  · have hqueue : s.connections.queue ≠ [] := List.ne_nil_of_mem ho
    by_cases hawake : t ∈ s.connections.awake
    · exact servable_of_awake hawake hqueue
    · -- the connection has a thread that has been woken for it
      have hsleeps := (Finset.mem_union.mp ht).resolve_right hawake
      obtain ⟨u, hu⟩ : s.connections.awake.Nonempty := by
        have hlength := h.attended.woken ⟨t, hsleeps⟩
        exact Finset.card_pos.mp ((List.length_pos_of_ne_nil hqueue).trans_le hlength)
      obtain ⟨conn, rest, hqueue⟩ := List.exists_cons_of_ne_nil hqueue
      refine Servable.of_step (b := .resume u) trivial ?_
      rw [DbConnectionPool.step, if_pos hu, look_of_cons hqueue]
      have hne : t ≠ u := fun heq ↦ hawake (heq ▸ hu)
      refine servable_of_taken u conn ?_ ?_
      · exact (Monitor.mem_waiting_leave _ u t).mpr ⟨hne, ht⟩
      · simp [setPhase, Phase.conn]
  · exact servable_of_taken _ _ ht ho
  · exact servable_of_lent ht ho

/-- In every run, as long as a thread sleeps there is a thread awake for each connection
in the queue; and every thread that waits in a pool which has a connection can be lent one
by steps that are neither wakeups by nobody nor calls of `init`. -/
theorem waiting_threads_can_be_served (as : List (Action T)) :
    ((run as).connections.sleeping.Nonempty →
      (run as).connections.queue.length ≤ (run as).connections.awake.card) ∧
    ∀ t ∈ (run as).connections.waiting, (run as).created ≠ [] →
      ∃ bs, (∀ b ∈ bs, Ordinary b) ∧
        ∃ conn, (run (as ++ bs)).returned.getLast? = some (t, .ok conn) := by
  have h := sound_run as
  refine ⟨h.attended.woken, fun t ht hcreated ↦ ?_⟩
  obtain ⟨bs, hbs, conn, hlast⟩ := h.servable ht hcreated
  refine ⟨bs, hbs, conn, ?_⟩
  unfold run Runs.run at hlast ⊢
  rwa [List.foldl_append]

section concrete

/-- Thread 0 has the only connection, and thread 1 waits for it. -/
def contended : List (Action ℕ) :=
  [.init ⟨"localhost", "root", "", "Gomoku"⟩ 1 none, .getConnection 0, .check 0 none,
    .getConnection 1]

theorem waiting_threads_can_be_served_in_contended :
    ∃ bs, (∀ b ∈ bs, Ordinary b) ∧
      ∃ conn, (run (contended ++ bs)).returned.getLast? = some (1, .ok conn) :=
  (waiting_threads_can_be_served contended).2 1 (by decide) (by decide)

/-- The check thread goes through connections that are lent in the meantime. -/
example : (run ([.init ⟨"localhost", "root", "", "Gomoku"⟩ 1 none, .copyConnections,
    .getConnection 0, .check 0 none] : List (Action ℕ))).connsToCheck = [0] ∧
    (run ([.init ⟨"localhost", "root", "", "Gomoku"⟩ 1 none, .copyConnections,
      .getConnection 0, .check 0 none] : List (Action ℕ))).lent = {0} := by
  decide

end concrete

end DbConnectionPool

end HttpRaftKv.Database
