import HttpRaftKv.Lib.Runs
import Mathlib.Algebra.Order.Group.Nat

/-!
# The hooked system calls

In a thread with hooks a call that would wait gives the thread to another fiber.  For this
every socket is made non-blocking in the kernel, a context remembers whether the program
has asked for that, and the calls that read or set the mode go by the context.  The program
sees the mode that it has asked for as long as it does not go behind the back of the hooks.

A descriptor that has been copied shares the mode of its file with the other, but the table
of contexts does not know of it.  What the kernel answers, and when a timer fires, are
choices of the run.
-/

namespace HttpRaftKv.Fiber

namespace Hook

/-- The context of a descriptor.  A timeout of `2 ^ 64 - 1` is none. -/
structure FdCtx where
  isInit : Bool
  isSocket : Bool
  sysNonblock : Bool
  userNonblock : Bool
  isClosed : Bool
  recvTimeout : UInt64
  sendTimeout : UInt64
deriving DecidableEq, Repr

/-- An open file of the kernel, with the mode that the program has asked for last.  The
descriptors that have been copied from each other share it. -/
structure File where
  isSocket : Bool
  nonblock : Bool
  asked : Bool
deriving DecidableEq, Repr

/-- The table of contexts, and the kernel's: the file of each open descriptor, and the
files.  Files from `next` on have not been opened. -/
structure Process where
  datas : List (Option FdCtx)
  fds : ℕ → Option ℕ
  files : ℕ → File
  next : ℕ

namespace Process

def initial : Process where
  datas := List.replicate 64 none
  fds := fun _ ↦ none
  files := fun _ ↦ ⟨false, false, false⟩
  next := 0

/-- `FdManager::get` without `auto_create`. -/
def find (s : Process) (fd : ℕ) : Option FdCtx :=
  s.datas[fd]?.join

/-- The constructor of `FdCtx` with `init`: what the context of the descriptor is, and the
kernel's files. -/
def newFdCtx (s : Process) (fd : ℕ) : FdCtx × (ℕ → File) :=
  let ctx : FdCtx := ⟨false, false, false, false, false, -1, -1⟩
  match s.fds fd with
  | none => (ctx, s.files)
  | some d =>
      if (s.files d).isSocket then
        ({ ctx with isInit := true, isSocket := true, sysNonblock := true },
          Function.update s.files d { s.files d with nonblock := true })
      else ({ ctx with isInit := true }, s.files)

/-- The table with room for the descriptor. -/
def resized (datas : List (Option FdCtx)) (fd : ℕ) : List (Option FdCtx) :=
  if datas.length ≤ fd then datas ++ List.replicate (fd * 3 / 2 - datas.length) none else datas

/-- `FdManager::get` with `auto_create`. -/
def get (s : Process) (fd : ℕ) : Process :=
  match s.find fd with
  | some _ => s
  | none =>
      { s with
        datas := (resized s.datas fd).set fd (some (s.newFdCtx fd).1)
        files := (s.newFdCtx fd).2 }

def del (s : Process) (fd : ℕ) : Process :=
  if s.datas.length ≤ fd then s else { s with datas := s.datas.set fd none }

def setCtx (s : Process) (fd : ℕ) (ctx : FdCtx) : Process :=
  { s with datas := s.datas.set fd (some ctx) }

/-- A new descriptor in the kernel, with a file of its own and the mode that the program
has asked for. -/
def opened (s : Process) (fd : ℕ) (isSocket nonblock : Bool) : Process :=
  { s with
    fds := Function.update s.fds fd (some s.next)
    files := Function.update s.files s.next ⟨isSocket, nonblock, nonblock⟩
    next := s.next + 1 }

/-- The context by which a call goes. -/
def tracked (s : Process) (fd : ℕ) : Option FdCtx :=
  (s.find fd).filter fun ctx ↦ !ctx.isClosed && ctx.isSocket

/-- The kernel sets the mode of the file, which may have other descriptors. -/
def setMode (s : Process) (fd : ℕ) (nonblock : Bool) : Process :=
  match s.fds fd with
  | none => s
  | some d =>
      { s with files := Function.update s.files d { s.files d with nonblock := nonblock } }

/-- `fcntl` with `F_SETFL`. -/
def setfl (s : Process) (fd : ℕ) (arg : Bool) : Process :=
  match s.tracked fd with
  | none => s.setMode fd arg
  | some ctx => (s.setCtx fd { ctx with userNonblock := arg }).setMode fd ctx.sysNonblock

/-- What `fcntl` with `F_GETFL` says of the mode.  A descriptor that is not open is an
error. -/
def getfl (s : Process) (fd : ℕ) : Option Bool :=
  (s.fds fd).map fun d ↦
    match s.tracked fd with
    | none => (s.files d).nonblock
    | some ctx => ctx.userNonblock

/-- `fcntl` with `F_DUPFD`: the kernel's table alone has the new descriptor. -/
def dupfd (s : Process) (fd new : ℕ) : Process :=
  { s with fds := Function.update s.fds new (s.fds fd) }

/-- `ioctl` with `FIONBIO`. -/
def ioctl (s : Process) (fd : ℕ) (arg : Bool) : Process :=
  match s.tracked fd with
  | none => s.setMode fd arg
  | some ctx => (s.setCtx fd { ctx with userNonblock := arg }).setMode fd arg

/-- `setTimeout` of a context. -/
def setTimeout (ctx : FdCtx) (recv : Bool) (v : UInt64) : FdCtx :=
  if recv then { ctx with recvTimeout := v } else { ctx with sendTimeout := v }

def setsockopt (s : Process) (fd : ℕ) (recv : Bool) (v : UInt64) : Process :=
  match s.find fd with
  | none => s
  | some ctx => s.setCtx fd (setTimeout ctx recv v)

end Process

/-- A call of the program.  `hooked` is the flag of its thread; a descriptor that is opened
is one that is not open. -/
inductive Call
  | socket (hooked nonblock : Bool) (fd : ℕ)
  | accept (fd : ℕ)
  | openFile (fd : ℕ) (nonblock : Bool)
  | dupfd (fd new : ℕ)
  | close (hooked : Bool) (fd : ℕ)
  | setfl (fd : ℕ) (nonblock : Bool)
  | ioctl (fd : ℕ) (nonblock : Bool)
  | setsockopt (hooked recv : Bool) (fd : ℕ) (v : UInt64)
deriving DecidableEq, Repr

namespace Process

/-- The mode that the program asks for. -/
def ask (s : Process) (fd : ℕ) (nonblock : Bool) : Process :=
  match s.fds fd with
  | none => s
  | some d => { s with files := Function.update s.files d { s.files d with asked := nonblock } }

def step (s : Process) : Call → Process
  | .socket hooked nonblock fd =>
      if (s.fds fd).isSome then s
      else if hooked then (s.opened fd true nonblock).get fd
      else s.opened fd true nonblock
  | .accept fd => if (s.fds fd).isSome then s else (s.opened fd true false).get fd
  | .openFile fd nonblock => if (s.fds fd).isSome then s else s.opened fd false nonblock
  | .dupfd fd new => if (s.fds new).isSome then s else s.dupfd fd new
  | .close hooked fd =>
      let s := if hooked && (s.find fd).isSome then s.del fd else s
      { s with fds := Function.update s.fds fd none }
  | .setfl fd nonblock => (s.setfl fd nonblock).ask fd nonblock
  | .ioctl fd nonblock => (s.ioctl fd nonblock).ask fd nonblock
  | .setsockopt hooked recv fd v => if hooked then s.setsockopt fd recv v else s

def run (as : List Call) : Process :=
  Runs.run step initial as

/-! ## The table of contexts -/

/-- A context is in the table behind its place only if there is room. -/
theorem find_set {datas : List (Option FdCtx)} {fd : ℕ} (hfd : fd < datas.length)
    (ctx : Option FdCtx) (other : ℕ) :
    (datas.set fd ctx)[other]?.join = if other = fd then ctx else datas[other]?.join := by
  rw [List.getElem?_set]
  by_cases h : fd = other
  · rw [if_pos h, if_pos (h ▸ hfd), if_pos h.symm]
    rfl
  · rw [if_neg h, if_neg (Ne.symm h)]

theorem length_resized {datas : List (Option FdCtx)} (hlong : 64 ≤ datas.length) (fd : ℕ) :
    fd < (resized datas fd).length ∧ datas.length ≤ (resized datas fd).length := by
  unfold resized
  split_ifs with h
  · rw [List.length_append, List.length_replicate]
    omega
  · omega

theorem getElem?_resized (datas : List (Option FdCtx)) (fd other : ℕ) :
    (resized datas fd)[other]?.join = datas[other]?.join := by
  unfold resized
  split_ifs with h
  · by_cases hother : other < datas.length
    · rw [List.getElem?_append_left hother]
    · rw [List.getElem?_append_right (not_lt.mp hother), List.getElem?_eq_none (not_lt.mp hother),
        List.getElem?_replicate]
      split_ifs
      · rfl
      · rfl
  · rfl

theorem lt_length_of_find {s : Process} {fd : ℕ} {ctx : FdCtx} (h : s.find fd = some ctx) :
    fd < s.datas.length := by
  by_contra hlt
  rw [find, List.getElem?_eq_none (not_lt.mp hlt)] at h
  cases h

theorem find_setCtx {s : Process} {fd : ℕ} {ctx : FdCtx} (h : s.find fd = some ctx)
    (ctx' : FdCtx) (other : ℕ) :
    (s.setCtx fd ctx').find other = if other = fd then some ctx' else s.find other :=
  find_set (lt_length_of_find h) (some ctx') other

theorem find_del (s : Process) (fd other : ℕ) :
    (s.del fd).find other = if other = fd then none else s.find other := by
  unfold del
  split_ifs with hlength heq heq
  · rw [heq, find, List.getElem?_eq_none hlength]
    rfl
  · rfl
  · rw [find, find_set (not_le.mp hlength), if_pos heq]
  · rw [find, find_set (not_le.mp hlength), if_neg heq]
    rfl

theorem del_kernel (s : Process) (fd : ℕ) :
    (s.del fd).fds = s.fds ∧ (s.del fd).files = s.files ∧ (s.del fd).next = s.next := by
  unfold del
  split_ifs
  · exact ⟨rfl, rfl, rfl⟩
  · exact ⟨rfl, rfl, rfl⟩

theorem length_del (s : Process) (fd : ℕ) : (s.del fd).datas.length = s.datas.length := by
  unfold del
  split_ifs
  · rfl
  · exact List.length_set

theorem find_get {s : Process} (hlong : 64 ≤ s.datas.length) {fd : ℕ} (h : s.find fd = none)
    (other : ℕ) :
    (s.get fd).find other = if other = fd then some (s.newFdCtx fd).1 else s.find other := by
  rw [get, h]
  refine (find_set (length_resized hlong fd).1 _ other).trans ?_
  split_ifs
  · rfl
  · exact getElem?_resized s.datas fd other

/-! ## The mode that the program sees -/

/-- The descriptors are as the program has asked for: the mode of a file with a descriptor
without a context is the kernel's, and a descriptor with a context is a socket, non-blocking
in the kernel, with the mode in the context.  No context is left behind by a descriptor that
has been closed, and no two contexts are of one file. -/
structure Faithful (s : Process) : Prop where
  long : 64 ≤ s.datas.length
  opens : ∀ fd d, s.fds fd = some d → d < s.next
  untracked : ∀ fd d, s.fds fd = some d → s.find fd = none →
    (s.files d).nonblock = (s.files d).asked
  tracked : ∀ fd ctx, s.find fd = some ctx →
    (∃ d, s.fds fd = some d ∧ s.files d = ⟨true, true, ctx.userNonblock⟩) ∧
      ctx.isSocket = true ∧ ctx.isClosed = false ∧ ctx.sysNonblock = true
  alone : ∀ fd other, s.find fd ≠ none → s.find other ≠ none → s.fds fd = s.fds other →
    fd = other

/-- A descriptor of the file has a context. -/
def HasContext (s : Process) (d : ℕ) : Prop :=
  ∃ fd, s.fds fd = some d ∧ s.find fd ≠ none

/-- A descriptor of the file has none, since it has been copied. -/
def HasCopy (s : Process) (d : ℕ) : Prop :=
  ∃ fd, s.fds fd = some d ∧ s.find fd = none

/-- The call does not go behind the back of the hooks: a thread with hooks does not ask for
a non-blocking socket when it makes it, and a thread without hooks does not close a socket
with a context.  Where a file has a context `ioctl` does not ask for a blocking one, and
where it has a copy too neither does `fcntl`; a socket with a context is copied only while
it is to be non-blocking. -/
def Allowed (s : Process) : Call → Prop
  | .socket hooked nonblock fd =>
      s.fds fd = none → hooked = true → nonblock = false
  | .dupfd fd new => s.fds new = none →
      ∀ d, s.fds fd = some d → s.find fd ≠ none → (s.files d).asked = true
  | .close hooked fd => s.find fd ≠ none → hooked = true
  | .setfl fd nonblock =>
      ∀ d, s.fds fd = some d → s.HasContext d → s.HasCopy d → nonblock = true
  | .ioctl fd nonblock => ∀ d, s.fds fd = some d → s.HasContext d → nonblock = true
  | _ => True

variable {s : Process}

theorem faithful_initial : initial.Faithful := by
  have hnone : ∀ fd, initial.find fd = none := by
    intro fd
    rw [find, initial, List.getElem?_replicate]
    split_ifs
    · rfl
    · rfl
  refine ⟨?_, fun fd d h ↦ ?_, fun fd d h ↦ ?_, fun fd ctx h ↦ ?_, fun fd other h ↦ ?_⟩
  · rw [initial, List.length_replicate]
  · cases h
  · cases h
  · rw [hnone] at h
    cases h
  · exact absurd (hnone fd) h

theorem tracked_eq_find (h : s.Faithful) (fd : ℕ) : s.tracked fd = s.find fd := by
  unfold Process.tracked
  cases hfind : s.find fd with
  | none => rfl
  | some ctx =>
      obtain ⟨-, hsocket, hclosed, -⟩ := h.tracked fd ctx hfind
      rw [Option.filter_some, hsocket, hclosed]
      rfl

namespace Faithful

/-- The program is told the mode that it has asked for. -/
theorem getfl (h : s.Faithful) {fd d : ℕ} (hfd : s.fds fd = some d) :
    s.getfl fd = some (s.files d).asked := by
  rw [Process.getfl, hfd, tracked_eq_find h, Option.map_some]
  cases hfind : s.find fd with
  | none => exact congrArg some (h.untracked fd d hfd hfind)
  | some ctx =>
      obtain ⟨⟨d', hfd', hfile⟩, -⟩ := h.tracked fd ctx hfind
      rw [hfd] at hfd'
      cases hfd'
      rw [hfile]

/-- The kernel does not wait on the file of a descriptor with a context. -/
theorem nonblock (h : s.Faithful) {fd d : ℕ} (hfd : s.fds fd = some d)
    (hfind : s.find fd ≠ none) : (s.files d).isSocket = true ∧ (s.files d).nonblock = true := by
  obtain ⟨ctx, hctx⟩ := Option.ne_none_iff_exists'.mp hfind
  obtain ⟨⟨d', hfd', hfile⟩, -⟩ := h.tracked fd ctx hctx
  rw [hfd] at hfd'
  cases hfd'
  rw [hfile]
  exact ⟨rfl, rfl⟩

/-- No context is left behind. -/
theorem find_of_closed (h : s.Faithful) {fd : ℕ} (hfd : s.fds fd = none) : s.find fd = none := by
  cases hfind : s.find fd with
  | none => rfl
  | some ctx =>
      obtain ⟨⟨d, hopen, -⟩, -⟩ := h.tracked fd ctx hfind
      rw [hopen] at hfd
      cases hfd

/-- One file is set, and the contexts of its descriptors alone: the others do not see it. -/
theorem setFile (h : s.Faithful) {s' : Process} {d : ℕ} {file : File}
    (hlong : 64 ≤ s'.datas.length) (hfds : s'.fds = s.fds) (hnext : s'.next = s.next)
    (hfiles : s'.files = Function.update s.files d file)
    (hothers : ∀ fd, s.fds fd ≠ some d → s'.find fd = s.find fd)
    (huntracked : ∀ fd, s.fds fd = some d → s'.find fd = none → file.nonblock = file.asked)
    (htracked : ∀ fd ctx, s.fds fd = some d → s'.find fd = some ctx →
      file = ⟨true, true, ctx.userNonblock⟩ ∧
        ctx.isSocket = true ∧ ctx.isClosed = false ∧ ctx.sysNonblock = true)
    (halone : ∀ fd other, s.fds fd = some d → s.fds other = some d → s'.find fd ≠ none →
      s'.find other ≠ none → fd = other) : s'.Faithful := by
  refine ⟨hlong, ?_, fun fd e hfd hfind ↦ ?_, fun fd ctx hfind ↦ ?_,
    fun fd other hfind hother hsame ↦ ?_⟩
  · rw [hfds, hnext]
    exact h.opens
  · rw [hfds] at hfd
    rw [hfiles]
    by_cases he : e = d
    · rw [he, Function.update_self]
      exact huntracked fd (he ▸ hfd) hfind
    · rw [Function.update_of_ne he]
      rw [hothers fd (by rw [hfd]; simpa using he)] at hfind
      exact h.untracked fd e hfd hfind
  · rw [hfds, hfiles]
    by_cases hfd : s.fds fd = some d
    · obtain ⟨hfile, hctx⟩ := htracked fd ctx hfd hfind
      exact ⟨⟨d, hfd, (Function.update_self ..).trans hfile⟩, hctx⟩
    · rw [hothers fd hfd] at hfind
      obtain ⟨⟨e, hfd', hfile⟩, hctx⟩ := h.tracked fd ctx hfind
      have he : e ≠ d := fun he ↦ hfd (he ▸ hfd')
      exact ⟨⟨e, hfd', (Function.update_of_ne he ..).trans hfile⟩, hctx⟩
  · rw [hfds] at hsame
    by_cases hfd : s.fds fd = some d
    · exact halone fd other hfd (hsame ▸ hfd) hfind hother
    · rw [hothers fd hfd] at hfind
      rw [hothers other (hsame ▸ hfd)] at hother
      exact h.alone fd other hfind hother hsame

/-- A descriptor that is not open gets a file whose mode is as the program has asked for. -/
theorem setFd (h : s.Faithful) {s' : Process} {fd d : ℕ} (hfd : s.fds fd = none)
    (hdatas : s'.datas = s.datas) (hfds : s'.fds = Function.update s.fds fd (some d))
    (hnext : s.next ≤ s'.next) (hd : d < s'.next)
    (hfiles : ∀ e, e < s.next → s'.files e = s.files e)
    (hasks : (s'.files d).nonblock = (s'.files d).asked) : s'.Faithful := by
  have hfinds : ∀ other, s'.find other = s.find other := by
    intro other
    rw [find, find, hdatas]
  have hnone := h.find_of_closed hfd
  have hne : ∀ other, s'.find other ≠ none → other ≠ fd := by
    rintro other hother rfl
    rw [hfinds] at hother
    exact hother hnone
  refine ⟨by rw [hdatas]; exact h.long, fun other e hother ↦ ?_, fun other e hother hfind ↦ ?_,
    fun other ctx hfind ↦ ?_, fun first other hfirst hother hsame ↦ ?_⟩
  · rw [hfds] at hother
    by_cases heq : other = fd
    · rw [heq, Function.update_self] at hother
      cases hother
      exact hd
    · rw [Function.update_of_ne heq] at hother
      exact (h.opens other e hother).trans_le hnext
  · rw [hfds] at hother
    by_cases heq : other = fd
    · rw [heq, Function.update_self] at hother
      cases hother
      exact hasks
    · rw [Function.update_of_ne heq] at hother
      rw [hfinds] at hfind
      rw [hfiles e (h.opens other e hother)]
      exact h.untracked other e hother hfind
  · have hother := hne other (by rw [hfind]; simp)
    rw [hfinds] at hfind
    obtain ⟨⟨e, hopen, hfile⟩, hctx⟩ := h.tracked other ctx hfind
    refine ⟨⟨e, ?_, ?_⟩, hctx⟩
    · rw [hfds, Function.update_of_ne hother]
      exact hopen
    · rw [hfiles e (h.opens other e hopen)]
      exact hfile
  · rw [hfds, Function.update_of_ne (hne first hfirst), Function.update_of_ne (hne other hother)]
      at hsame
    rw [hfinds] at hfirst hother
    exact h.alone first other hfirst hother hsame

theorem opened (h : s.Faithful) {fd : ℕ} (hfd : s.fds fd = none) (isSocket nonblock : Bool) :
    (s.opened fd isSocket nonblock).Faithful := by
  refine h.setFd hfd rfl rfl (Nat.le_succ _) (Nat.lt_succ_self _) (fun e he ↦ ?_) ?_
  · exact Function.update_of_ne he.ne ..
  · simp only [Process.opened, Function.update_self]

/-- A copy has no context, so that the kernel's mode is what the program is told. -/
theorem dupfd (h : s.Faithful) {fd new : ℕ} (hnew : s.fds new = none)
    (hasks : ∀ d, s.fds fd = some d → s.find fd ≠ none → (s.files d).asked = true) :
    (s.dupfd fd new).Faithful := by
  cases hfd : s.fds fd with
  | none =>
      have hsame : s.dupfd fd new = s := by
        rw [Process.dupfd, hfd, ← hnew, Function.update_eq_self]
      rw [hsame]
      exact h
  | some d =>
      refine h.setFd hnew rfl (by rw [Process.dupfd, hfd]) le_rfl (h.opens fd d hfd)
        (fun _ _ ↦ rfl) ?_
      cases hfind : s.find fd with
      | none => exact h.untracked fd d hfd hfind
      | some ctx =>
          have hne : s.find fd ≠ none := by
            rw [hfind]
            simp
          exact (h.nonblock hfd hne).2.trans (hasks d hfd hne).symm

/-- The context of a socket that had none, and the kernel's files. -/
theorem newFdCtx_socket {fd d : ℕ} (hfd : s.fds fd = some d)
    (hsocket : (s.files d).isSocket = true) :
    s.newFdCtx fd = (⟨true, true, true, false, false, -1, -1⟩,
      Function.update s.files d ⟨true, true, (s.files d).asked⟩) := by
  simp [newFdCtx, hfd, hsocket]

theorem get_kernel {fd d : ℕ} (hfd : s.fds fd = some d) (hsocket : (s.files d).isSocket = true)
    (hfind : s.find fd = none) :
    (s.get fd).fds = s.fds ∧ (s.get fd).next = s.next ∧
      (s.get fd).files = Function.update s.files d ⟨true, true, (s.files d).asked⟩ := by
  rw [Process.get, hfind]
  exact ⟨rfl, rfl, by rw [newFdCtx_socket hfd hsocket]⟩

/-- A new context is as the program has asked for if it has asked for a blocking socket. -/
theorem get (h : s.Faithful) {fd d : ℕ} (hfd : s.fds fd = some d)
    (hsocket : (s.files d).isSocket = true) (hfind : s.find fd = none)
    (hasks : (s.files d).asked = false) (hown : ∀ other, s.fds other = some d → other = fd) :
    (s.get fd).Faithful := by
  obtain ⟨hfds, hnext, hfiles⟩ := get_kernel hfd hsocket hfind
  have hfinds := find_get h.long hfind
  have hlength : 64 ≤ (s.get fd).datas.length := by
    rw [Process.get, hfind]
    dsimp only
    rw [List.length_set]
    exact h.long.trans (length_resized h.long fd).2
  refine h.setFile hlength hfds hnext hfiles (fun other hother ↦ ?_) (fun other hother hnone ↦ ?_)
    (fun other ctx hother hctx ↦ ?_) (fun first other hfirst hother _ _ ↦ ?_)
  · have hne : other ≠ fd := by
      rintro rfl
      exact hother hfd
    rw [hfinds, if_neg hne]
  · rw [hfinds, if_pos (hown other hother)] at hnone
    cases hnone
  · rw [hfinds, if_pos (hown other hother), newFdCtx_socket hfd hsocket] at hctx
    cases hctx
    rw [hasks]
    exact ⟨rfl, rfl, rfl, rfl⟩
  · exact (hown first hfirst).trans (hown other hother).symm

/-- A new socket gets its context. -/
theorem opened_get (h : s.Faithful) {fd : ℕ} (hfd : s.fds fd = none) :
    ((s.opened fd true false).get fd).Faithful := by
  have hopened := h.opened hfd true false
  have hfile : (s.opened fd true false).files s.next = ⟨true, false, false⟩ :=
    Function.update_self ..
  refine hopened.get (Function.update_self ..) (by rw [hfile]) (h.find_of_closed hfd)
    (by rw [hfile]) fun other hother ↦ ?_
  by_contra hne
  simp only [Process.opened, Function.update_of_ne hne] at hother
  exact absurd (h.opens other s.next hother) (lt_irrefl _)

/-- The state behind a mode that is set without a context. -/
theorem ask_untracked_eq {fd d : ℕ} (hfd : s.fds fd = some d) (nonblock : Bool) :
    (s.setMode fd nonblock).ask fd nonblock =
      { s with
        files := Function.update s.files d ⟨(s.files d).isSocket, nonblock, nonblock⟩ } := by
  simp [setMode, ask, hfd]

/-- Without a context the kernel's mode is the one that has been set. -/
theorem ask_of_untracked (h : s.Faithful) {fd d : ℕ} (hfd : s.fds fd = some d)
    (hfind : s.find fd = none) {nonblock : Bool} (hmode : s.HasContext d → nonblock = true) :
    ((s.setMode fd nonblock).ask fd nonblock).Faithful := by
  rw [ask_untracked_eq hfd]
  refine h.setFile h.long rfl rfl rfl (fun _ _ ↦ rfl) (fun _ _ _ ↦ rfl)
    (fun other ctx hother hctx ↦ ?_) fun first other hfirst hother hne hne' ↦
      h.alone first other hne hne' (hfirst.trans hother.symm)
  -- the copy has been made while the socket was to be non-blocking
  have hctx' : s.find other = some ctx := hctx
  obtain ⟨⟨e, hother', hfile⟩, hrest⟩ := h.tracked other ctx hctx'
  rw [hother] at hother'
  cases hother'
  have hasked := h.untracked fd d hfd hfind
  rw [hfile] at hasked ⊢
  rw [hmode ⟨other, hother, by rw [hctx']; simp⟩, ← show true = ctx.userNonblock from hasked]
  exact ⟨rfl, hrest⟩

/-- The state behind a mode that is set with a context. -/
theorem ask_tracked_eq {fd d : ℕ} (hfd : s.fds fd = some d) (ctx : FdCtx) (mode nonblock : Bool) :
    ((s.setCtx fd ctx).setMode fd mode).ask fd nonblock =
      { s with
        datas := s.datas.set fd (some ctx)
        files := Function.update s.files d ⟨(s.files d).isSocket, mode, nonblock⟩ } := by
  simp [setMode, setCtx, ask, hfd]

/-- With a context the kernel's mode stays non-blocking, and the context has the mode that
has been set; a copy is told the kernel's. -/
theorem ask_of_tracked (h : s.Faithful) {fd d : ℕ} {ctx : FdCtx} (hfd : s.fds fd = some d)
    (hfind : s.find fd = some ctx) {mode nonblock : Bool} (hmode : mode = true)
    (hcopy : s.HasCopy d → nonblock = true) :
    (((s.setCtx fd { ctx with userNonblock := nonblock }).setMode fd mode).ask fd
      nonblock).Faithful := by
  subst hmode
  have hne : s.find fd ≠ none := by
    rw [hfind]
    simp
  rw [ask_tracked_eq hfd, (h.nonblock hfd hne).1]
  have hfinds := find_set (lt_length_of_find hfind) (some { ctx with userNonblock := nonblock })
  -- the one descriptor of the file that has a context
  have hown : ∀ other, s.fds other = some d → other ≠ fd → s.find other = none := by
    intro other hother hne'
    by_contra htracked
    exact hne' (h.alone other fd htracked hne (hother.trans hfd.symm))
  refine h.setFile (by rw [List.length_set]; exact h.long) rfl rfl rfl (fun other hother ↦ ?_)
    (fun other hother hnone ↦ ?_) (fun other ctx' hother hctx' ↦ ?_)
    (fun first other hfirst hother hne₁ hne₂ ↦ ?_)
  · have hother' : other ≠ fd := by
      rintro rfl
      exact hother hfd
    rw [find, hfinds, if_neg hother']
    rfl
  · rw [find, hfinds] at hnone
    split_ifs at hnone with hother'
    exact (hcopy ⟨other, hother, hnone⟩).symm
  · rw [find, hfinds] at hctx'
    split_ifs at hctx' with hother'
    · cases hctx'
      exact ⟨rfl, (h.tracked fd ctx hfind).2⟩
    · have hnone := hown other hother hother'
      rw [find, hctx'] at hnone
      cases hnone
  · have heq : ∀ o, s.fds o = some d →
        ({ s with datas := s.datas.set fd (some { ctx with userNonblock := nonblock }),
                  files := Function.update s.files d ⟨true, true, nonblock⟩ } :
          Process).find o ≠ none → o = fd := by
      intro o ho hfound
      by_contra hne'
      rw [find, hfinds, if_neg hne'] at hfound
      exact hfound (hown o ho hne')
    exact (heq first hfirst hne₁).trans (heq other hother hne₂).symm

/-- A timeout is nothing of the mode. -/
theorem setTimeout (h : s.Faithful) {fd : ℕ} {ctx : FdCtx} (hfind : s.find fd = some ctx)
    (recv : Bool) (v : UInt64) : (s.setCtx fd (Process.setTimeout ctx recv v)).Faithful := by
  have hsame : ∀ other, (s.setCtx fd (Process.setTimeout ctx recv v)).find other =
      if other = fd then some (Process.setTimeout ctx recv v) else s.find other :=
    find_setCtx hfind _
  have hnone : ∀ other, (s.setCtx fd (Process.setTimeout ctx recv v)).find other = none ↔
      s.find other = none := by
    intro other
    rw [hsame]
    split_ifs with hother
    · rw [hother, hfind]
      simp
    · rfl
  refine ⟨?_, h.opens, fun other d hother hfind' ↦ ?_, fun other ctx' hfind' ↦ ?_,
    fun first other hfirst hother ↦ ?_⟩
  · rw [setCtx, List.length_set]
    exact h.long
  · exact h.untracked other d hother ((hnone other).mp hfind')
  · rw [hsame] at hfind'
    split_ifs at hfind' with hother
    · cases hfind'
      rw [hother]
      unfold Process.setTimeout
      split_ifs
      · exact h.tracked fd ctx hfind
      · exact h.tracked fd ctx hfind
    · exact h.tracked other ctx' hfind'
  · exact h.alone first other (mt (hnone first).mpr hfirst) (mt (hnone other).mpr hother)

/-- A descriptor is closed that has no context any more. -/
theorem closed (h : s.Faithful) {fd : ℕ} {s' : Process} (hlong : 64 ≤ s'.datas.length)
    (hfinds : ∀ other, s'.find other = if other = fd then none else s.find other)
    (hfds : s'.fds = Function.update s.fds fd none) (hfiles : s'.files = s.files)
    (hnext : s'.next = s.next) : s'.Faithful := by
  have hopen : ∀ other d, s'.fds other = some d → other ≠ fd ∧ s.fds other = some d := by
    intro other d hother
    rw [hfds] at hother
    by_cases heq : other = fd
    · rw [heq, Function.update_self] at hother
      cases hother
    · rw [Function.update_of_ne heq] at hother
      exact ⟨heq, hother⟩
  have hfind : ∀ other ctx, s'.find other = some ctx → other ≠ fd ∧ s.find other = some ctx := by
    intro other ctx hother
    rw [hfinds] at hother
    split_ifs at hother with heq
    exact ⟨heq, hother⟩
  refine ⟨hlong, fun other d hother ↦ ?_, fun other d hother hnone ↦ ?_, fun other ctx hctx ↦ ?_,
    fun first other hfirst hother hsame ↦ ?_⟩
  · rw [hnext]
    exact h.opens other d (hopen other d hother).2
  · obtain ⟨hne, hother⟩ := hopen other d hother
    rw [hfinds, if_neg hne] at hnone
    rw [hfiles]
    exact h.untracked other d hother hnone
  · obtain ⟨hne, hctx⟩ := hfind other ctx hctx
    rw [hfds, hfiles, Function.update_of_ne hne]
    exact h.tracked other ctx hctx
  · obtain ⟨ctx, hctx⟩ := Option.ne_none_iff_exists'.mp hfirst
    obtain ⟨ctx', hctx'⟩ := Option.ne_none_iff_exists'.mp hother
    obtain ⟨hne, hctx⟩ := hfind first ctx hctx
    obtain ⟨hne', hctx'⟩ := hfind other ctx' hctx'
    rw [hfds, Function.update_of_ne hne, Function.update_of_ne hne'] at hsame
    exact h.alone first other (by rw [hctx]; simp) (by rw [hctx']; simp) hsame

end Faithful

/-! ## What the program is told -/

/-- The program is told the mode that it has asked for, no call with hooks makes its thread
wait in the kernel, and no context is left behind by a descriptor that has been closed. -/
structure Transparent (s : Process) : Prop where
  told : ∀ fd d, s.fds fd = some d → s.getfl fd = some (s.files d).asked
  waits : ∀ fd d, s.fds fd = some d → s.find fd ≠ none → (s.files d).nonblock = true
  clean : ∀ fd, s.fds fd = none → s.find fd = none

theorem Faithful.transparent (h : s.Faithful) : s.Transparent where
  told _ _ hfd := h.getfl hfd
  waits _ _ hfd hfind := (h.nonblock hfd hfind).2
  clean _ hfd := h.find_of_closed hfd

/-- A call on a descriptor that is not open changes nothing. -/
theorem Faithful.step_of_closed (h : s.Faithful) {fd : ℕ} (hfd : s.fds fd = none)
    (nonblock : Bool) :
    s.step (.setfl fd nonblock) = s ∧ s.step (.ioctl fd nonblock) = s := by
  have hnone := (tracked_eq_find h fd).trans (h.find_of_closed hfd)
  simp [Process.step, Process.setfl, Process.ioctl, hnone, setMode, ask, hfd]

/-- What a call does on a descriptor without a context. -/
theorem Faithful.step_of_untracked (h : s.Faithful) {fd : ℕ} (hfind : s.find fd = none)
    (nonblock : Bool) :
    s.step (.setfl fd nonblock) = (s.setMode fd nonblock).ask fd nonblock ∧
      s.step (.ioctl fd nonblock) = (s.setMode fd nonblock).ask fd nonblock := by
  have hnone := (tracked_eq_find h fd).trans hfind
  rw [Process.step, Process.step, Process.setfl, Process.ioctl, hnone]
  exact ⟨rfl, rfl⟩

/-- What a call does on a descriptor with a context: `ioctl` sets the kernel's mode too. -/
theorem Faithful.step_of_tracked (h : s.Faithful) {fd : ℕ} {ctx : FdCtx}
    (hfind : s.find fd = some ctx) (nonblock : Bool) :
    let set := s.setCtx fd { ctx with userNonblock := nonblock }
    s.step (.setfl fd nonblock) = (set.setMode fd true).ask fd nonblock ∧
      s.step (.ioctl fd nonblock) = (set.setMode fd nonblock).ask fd nonblock := by
  have hctx := (tracked_eq_find h fd).trans hfind
  rw [Process.step, Process.step, Process.setfl, Process.ioctl, hctx]
  dsimp only
  rw [(h.tracked fd ctx hfind).2.2.2]
  exact ⟨rfl, rfl⟩

/-- A call that does not go behind the back of the hooks keeps the modes as asked. -/
theorem Faithful.step (h : s.Faithful) {a : Call} (ha : s.Allowed a) : (s.step a).Faithful := by
  cases a with
  | socket hooked nonblock fd =>
      rw [Process.step]
      cases hfd : s.fds fd with
      | some d => exact h
      | none =>
          rw [if_neg (by simp)]
          cases hooked with
          | false => exact h.opened hfd true nonblock
          | true =>
              rw [ha hfd rfl]
              exact h.opened_get hfd
  | accept fd =>
      rw [Process.step]
      cases hfd : s.fds fd with
      | some d => exact h
      | none => exact h.opened_get hfd
  | openFile fd nonblock =>
      rw [Process.step]
      cases hfd : s.fds fd with
      | some d => exact h
      | none => exact h.opened hfd false nonblock
  | dupfd fd new =>
      rw [Process.step]
      cases hnew : s.fds new with
      | some d => exact h
      | none => exact h.dupfd hnew (ha hnew)
  | close hooked fd =>
      rw [Process.step]
      by_cases hdel : (hooked && (s.find fd).isSome) = true
      · rw [if_pos hdel]
        obtain ⟨hfds, hfiles, hnext⟩ := del_kernel s fd
        refine h.closed ?_ (find_del s fd) ?_ hfiles hnext
        · exact h.long.trans_eq (length_del s fd).symm
        · exact congrArg (Function.update · fd none) hfds
      · rw [if_neg hdel]
        have hnone : s.find fd = none := by
          by_contra hsome
          rw [ha hsome] at hdel
          exact hdel (by simpa [Option.isSome_iff_ne_none] using hsome)
        refine h.closed h.long (fun other ↦ ?_) rfl rfl rfl
        split_ifs with hother
        · rw [hother]
          exact hnone
        · rfl
  | setfl fd nonblock =>
      cases hfd : s.fds fd with
      | none =>
          rw [(h.step_of_closed hfd nonblock).1]
          exact h
      | some d =>
          cases hfind : s.find fd with
          | none =>
              rw [(h.step_of_untracked hfind nonblock).1]
              exact h.ask_of_untracked hfd hfind fun hctx ↦ ha d hfd hctx ⟨fd, hfd, hfind⟩
          | some ctx =>
              rw [(h.step_of_tracked hfind nonblock).1]
              refine h.ask_of_tracked hfd hfind rfl fun hcopy ↦ ?_
              exact ha d hfd ⟨fd, hfd, by rw [hfind]; simp⟩ hcopy
  | ioctl fd nonblock =>
      cases hfd : s.fds fd with
      | none =>
          rw [(h.step_of_closed hfd nonblock).2]
          exact h
      | some d =>
          cases hfind : s.find fd with
          | none =>
              rw [(h.step_of_untracked hfind nonblock).2]
              exact h.ask_of_untracked hfd hfind fun hctx ↦ ha d hfd hctx
          | some ctx =>
              have hmode := ha d hfd ⟨fd, hfd, by rw [hfind]; simp⟩
              rw [(h.step_of_tracked hfind nonblock).2]
              exact h.ask_of_tracked hfd hfind hmode fun _ ↦ hmode
  | setsockopt hooked recv fd v =>
      rw [Process.step]
      split_ifs
      · rw [Process.setsockopt]
        cases hfind : s.find fd with
        | none => exact h
        | some ctx => exact h.setTimeout hfind recv v
      · exact h

/-- A call that goes behind the back of the hooks is seen. -/
theorem Faithful.allowed (h : s.Faithful) {a : Call} (hnext : (s.step a).Transparent) :
    s.Allowed a := by
  cases a with
  | socket hooked nonblock fd =>
      rintro hfd rfl
      have hopened := h.opened hfd true nonblock
      have hfind : (s.opened fd true nonblock).find fd = none := h.find_of_closed hfd
      have hfd' : (s.opened fd true nonblock).fds fd = some s.next := Function.update_self ..
      have hfile : (s.opened fd true nonblock).files s.next = ⟨true, nonblock, nonblock⟩ :=
        Function.update_self ..
      have hstep : s.step (.socket true nonblock fd) = (s.opened fd true nonblock).get fd := by
        rw [Process.step, hfd]
        rfl
      rw [hstep] at hnext
      obtain ⟨hfds, -, hfiles⟩ := Faithful.get_kernel hfd' (by rw [hfile]) hfind
      -- the new context does not know of the mode that has been asked for
      have hget := find_get hopened.long hfind fd
      rw [if_pos rfl, Faithful.newFdCtx_socket hfd' (by rw [hfile])] at hget
      have htold := hnext.told fd s.next ((congrFun hfds fd).trans hfd')
      rw [Process.getfl, hfds, hfd', Process.tracked, hget, hfiles, Function.update_self, hfile]
        at htold
      exact (Option.some_inj.mp htold).symm
  | dupfd fd new =>
      intro hnew d hfd hfind
      have hstep : s.step (.dupfd fd new) = s.dupfd fd new := by
        rw [Process.step, hnew]
        rfl
      rw [hstep] at hnext
      -- the copy is told the kernel's mode
      have htold := hnext.told new d ((Function.update_self ..).trans hfd)
      have hnone : (s.dupfd fd new).find new = none := h.find_of_closed hnew
      rw [Process.getfl, Process.tracked, hnone] at htold
      simp only [Process.dupfd, Function.update_self, hfd, Option.map_some, Option.filter_none]
        at htold
      rw [← Option.some_inj.mp htold]
      exact (h.nonblock hfd hfind).2
  | close hooked fd =>
      intro hfind
      cases hooked with
      | true => rfl
      | false =>
          -- the context is left behind
          rw [Process.step] at hnext
          exact absurd (hnext.clean fd (Function.update_self ..)) hfind
  | setfl fd nonblock =>
      rintro d hfd ⟨owner, howner, hcontext⟩ ⟨copy, hcopy, hnone⟩
      cases hfind : s.find fd with
      | none =>
          -- the kernel's mode is set, and the owner would wait
          rw [(h.step_of_untracked hfind nonblock).1, Faithful.ask_untracked_eq hfd] at hnext
          have hwaits := hnext.waits owner d howner hcontext
          simpa only [Function.update_self] using hwaits
      | some ctx =>
          -- the kernel's mode is kept, and the copy is told it
          rw [(h.step_of_tracked hfind nonblock).1, Faithful.ask_tracked_eq hfd] at hnext
          have htold := hnext.told copy d hcopy
          have hne : copy ≠ fd := by
            rintro rfl
            rw [hfind] at hnone
            cases hnone
          have hfound := find_set (lt_length_of_find hfind)
            (some { ctx with userNonblock := nonblock }) copy
          rw [if_neg hne] at hfound
          rw [Process.getfl, Process.tracked, find, hfound,
            show s.datas[copy]?.join = none from hnone, hcopy] at htold
          simp only [Function.update_self, Option.map_some, Option.filter_none] at htold
          exact (Option.some_inj.mp htold).symm
  | ioctl fd nonblock =>
      rintro d hfd ⟨owner, howner, hcontext⟩
      -- the kernel's mode is set, and the owner would wait
      cases hfind : s.find fd with
      | none =>
          rw [(h.step_of_untracked hfind nonblock).2, Faithful.ask_untracked_eq hfd] at hnext
          have hwaits := hnext.waits owner d howner hcontext
          simpa only [Function.update_self] using hwaits
      | some ctx =>
          rw [(h.step_of_tracked hfind nonblock).2, Faithful.ask_tracked_eq hfd] at hnext
          have hfound := find_set (lt_length_of_find hfind)
            (some { ctx with userNonblock := nonblock }) fd
          rw [if_pos rfl] at hfound
          have hwaits := hnext.waits fd d hfd (by rw [find, hfound]; simp)
          simpa only [Function.update_self] using hwaits
  | _ => trivial

/-- The program sees the modes as it has asked for, through a whole run, exactly if no call
goes behind the back of the hooks. -/
theorem modes_as_asked_iff (as : List Call) :
    (∀ bs, bs <+: as → (run bs).Transparent) ↔ Runs.Along step Allowed initial as := by
  refine Runs.property_iff_along (P := fun _ s ↦ s.Faithful) (Q := fun _ s ↦ s.Transparent) step
    faithful_initial ?_ ?_ ?_ as
  · exact fun _ a h ha ↦ h.step ha
  · exact fun _ h ↦ h.transparent
  · exact fun _ a h hnext ↦ h.allowed hnext

/-- A thread without hooks closes a socket that has been made with them; the next one with
the number of this is taken for it. -/
def leftBehind : List Call :=
  [.socket true false 7, .setfl 7 true, .close false 7, .socket false false 7]

example : (run leftBehind).getfl 7 = some true ∧ ((run leftBehind).files 1).asked = false := by
  decide

/-- A socket is copied while it is to be blocking; the copy is told the kernel's mode. -/
def copiedTooEarly : List Call :=
  [.socket true false 7, .dupfd 7 8]

example : (run copiedTooEarly).getfl 7 = some false ∧ (run copiedTooEarly).getfl 8 = some true := by
  decide

end Process

end Hook

end HttpRaftKv.Fiber
