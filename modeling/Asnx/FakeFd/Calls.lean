import Asnx.FakeFd.Fds
import Asnx.Library.Threads

/-!
# The calls on emulated descriptors

The calls of `source/fakefd.c` as programs of interleaved threads. What a thread does without
`g_lock` is one step, and so is every section under it; `condvarWait` ends a section, and the
thread may begin the next one at any later time. `Asnx.FakeFd.Locking` has the sections access by
access, with `ensure_initialized` at the start of every call, and says when whole sections are what
happens.
-/

namespace Asnx.FakeFd

/-- The calls with their arguments; `null` says that the buffer is a null pointer. -/
inductive Call where
  | pipe (null : Bool)
  | read (fd : Int) (null : Bool) (count : Nat)
  | write (fd : Int) (null : Bool) (src : Source)
  | close (fd : Int)
  | dup (fd minFd : Int) (cloexec : Bool)
  | dup2 (oldfd newfd : Int)
  | fcntl (fd cmd arg : Int)
  | isOpen (fd : Int)
  | ready (fd : Int)

/-- What the environment decides: which call a thread makes, and what `calloc` returns if the next
section calls it. -/
inductive Choice where
  | call (c : Call)
  | step (allocated : Option Nat)

/-- What a step shows. -/
inductive Event where
  | called (c : Call)
  | section (io : Io)
  | returned (r : Ret)

def Event.begins : Event → Prop
  | .called _ => True
  | _ => False

instance : DecidablePred Event.begins := fun e => by
  cases e <;> unfold Event.begins <;> infer_instance

/-- A call that fails before it takes the lock. -/
def refuse (e : Errno) : Pc := .finished (.fail (some e))

/-- What a call does before it takes the lock. -/
def enter : Call → Pc
  | .pipe null => if null then refuse .EFAULT else .pipe
  | .read fd null count =>
      match slotFromFd fd with
      | none => refuse .EBADF
      | some slot =>
          if null = true ∧ count ≠ 0 then refuse .EFAULT
          else if count = 0 then .finished (.got []) else .readStart slot count
  | .write fd null src =>
      match slotFromFd fd with
      | none => refuse .EBADF
      | some slot =>
          if null = true ∧ src.count ≠ 0 then refuse .EFAULT
          else if src.count = 0 then .finished (.value 0) else .writeStart slot src
  | .close fd =>
      match slotFromFd fd with
      | none => refuse .EBADF
      | some slot => .close slot
  | .dup fd minFd cloexec =>
      match slotFromFd fd with
      | none => refuse .EBADF
      | some slot => .dup slot minFd cloexec
  | .dup2 oldfd newfd =>
      match slotFromFd oldfd, slotFromFd newfd with
      | some oldslot, some newslot =>
          if oldfd = newfd then .dup2Same oldslot else .dup2Check oldslot newslot
      | _, _ => refuse .EBADF
  | .fcntl fd cmd arg =>
      match slotFromFd fd with
      | none => refuse .EBADF
      | some slot =>
          if cmd = androidFDupfd ∨ cmd = androidFDupfdCloexec then
            .dup slot arg (cmd = androidFDupfdCloexec)
          else .fcntl slot cmd arg
  | .isOpen fd =>
      match slotFromFd fd with
      | none => .finished (.value 0)
      | some slot => .isOpen slot
  | .ready fd =>
      match slotFromFd fd with
      | none => .finished (.value asnxFdReadyErr.toInt)
      | some slot => .ready slot

/-- The section at which a thread stands. -/
def sectionAt (s : FdState) (allocated : Option Nat) : Pc → Outcome
  | .pipe => pipeLocked s allocated
  | .readStart slot count => readLocked s slot count
  | .readWait slot p count => readWoken s slot p count
  | .writeStart slot src => writeLocked s slot src
  | .writeWait slot p src total => writeWoken s slot p src total
  | .close slot =>
      match closeLocked s slot with
      | none => none
      | some (io, s, r) => some (io, s, .finished r)
  | .dup slot minFd cloexec => dupLocked s slot minFd cloexec
  | .dup2Same slot =>
      some (.none, s, .finished
        (if (s.gFds slot).kind ≠ .unused then .value (fdOfSlot slot) else .fail none))
  | .dup2Check oldslot newslot =>
      some (.none, s, if (s.gFds newslot).kind ≠ .unused then .dup2Close oldslot newslot
        else .dup2Clone oldslot newslot)
  | .dup2Close oldslot newslot =>
      -- what `fakefd_close` returns is ignored
      match closeLocked s newslot with
      | none => none
      | some (io, s, _) => some (io, s, .dup2Clone oldslot newslot)
  | .dup2Clone oldslot newslot => dup2Locked s oldslot newslot
  | .fcntl slot cmd arg => fcntlLocked s slot cmd arg
  | .isOpen slot =>
      some (.none, s, .finished (.value (if (s.gFds slot).kind ≠ .unused then 1 else 0)))
  | .ready slot =>
      match readyLocked s slot with
      | none => none
      | some ready => some (.none, s, .finished (.value ready.toInt))
  | .idle | .finished _ => none

/-- One step of a thread. `calloc` returns null or the address of a block that is not in use. -/
def fdNext : Choice → FdState → Pc → Option (Event × FdState × Pc)
  | .call c, s, .idle => some (.called c, s, enter c)
  | .step _, s, .finished r => some (.returned r, s, .idle)
  | .step allocated, s, l =>
      if allocated.all fun p => (s.heap p).isNone then
        match sectionAt s allocated l with
        | none => none
        | some (io, s, l) => some (.section io, s, l)
      else none
  | _, _, _ => none

/-- Threads that work on emulated descriptors. -/
def fdProgram : Threads.Program FdState Pc Choice Event := ⟨fdNext⟩

/-- The static initial state, with every thread outside the calls. -/
def fdStart (T : Type*) : Threads.Config T FdState Pc := ⟨.init, fun _ => .idle⟩

end Asnx.FakeFd
