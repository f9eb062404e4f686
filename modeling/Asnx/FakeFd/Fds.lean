import Mathlib.Logic.Function.Basic
import Mathlib.Data.Fintype.Card
import Asnx.Library.RingBuffer

/-!
# The table of emulated descriptors

The state behind the emulated pipes (`source/fakefd.c`) and the sections that its calls execute
under `g_lock`. Descriptor `900 + i` is slot `i` of the table `gFds`; an open slot points at a
`PipeState`, of which `heap` holds the live ones by address. A section that would follow a
pointer to a released pipe has no result.

The counts of readers and writers are natural numbers: there are never more than there are slots.
-/

namespace Asnx.FakeFd

open RingBuffer

/-- `PIPE_CAPACITY` -/
def pipeCapacity : Nat := 16384
/-- `ASNX_FAKE_FD_BASE` -/
def fakeFdBase : Int := 900
/-- `ASNX_FAKE_FD_COUNT` -/
abbrev fakeFdCount : Nat := 48
/-- `ANDROID_O_NONBLOCK` -/
def androidONonblock : BitVec 32 := 0x800

/-- The `errno` values of the calls. -/
inductive Errno where
  | EFAULT
  | EMFILE
  | ENOMEM
  | EBADF
  | EAGAIN
  | EPIPE
  | EBUSY
  | EINVAL
  deriving DecidableEq, Repr

/-- The kinds of slots. -/
inductive FakeFdKind where
  | unused
  | pipeRead
  | pipeWrite
  deriving DecidableEq, Repr

/-- A pipe. -/
structure PipeState where
  data : Nat → UInt8
  head : Nat
  length : Nat
  readers : Nat
  writers : Nat

/-- A slot of the table; a null pipe is `none`. -/
structure FakeFdEntry where
  kind : FakeFdKind
  pipe : Option Nat
  fdFlags : BitVec 32
  statusFlags : BitVec 32
  deriving DecidableEq, Repr

/-- A slot of zero bytes. -/
def FakeFdEntry.zero : FakeFdEntry := ⟨.unused, none, 0, 0⟩

/-- The table and the live pipes. -/
structure FdState where
  gFds : Fin fakeFdCount → FakeFdEntry
  heap : Nat → Option PipeState

/-- The static initial state. -/
def FdState.init : FdState := ⟨fun _ => .zero, fun _ => none⟩

def FdState.setFd (s : FdState) (i : Fin fakeFdCount) (e : FakeFdEntry) : FdState :=
  ⟨Function.update s.gFds i e, s.heap⟩

def FdState.setPipe (s : FdState) (p : Nat) (ps : PipeState) : FdState :=
  ⟨s.gFds, Function.update s.heap p (some ps)⟩

def FdState.freePipe (s : FdState) (p : Nat) : FdState :=
  ⟨s.gFds, Function.update s.heap p none⟩

/-- `slot_from_fd`; `none` stands for -1. -/
def slotFromFd (fd : Int) : Option (Fin fakeFdCount) :=
  if h : 0 ≤ fd - fakeFdBase ∧ fd - fakeFdBase < fakeFdCount then
    some ⟨(fd - fakeFdBase).toNat, (Int.toNat_lt h.1).2 h.2⟩
  else none

/-- The descriptor of a slot. -/
def fdOfSlot (i : Fin fakeFdCount) : Int := fakeFdBase + (i : Nat)

/-- `alloc_slot_from` -/
def allocSlotFrom (s : FdState) (minimumFd : Int) : Option (Fin fakeFdCount) :=
  let first := if minimumFd > fakeFdBase then minimumFd - fakeFdBase else 0
  if first ≥ fakeFdCount then none
  else Fin.find? fun i => decide (first ≤ (i : Nat)) && (s.gFds i).kind = .unused

/-- The descriptor was put into non-blocking mode. -/
def FdState.nonblock (s : FdState) (slot : Fin fakeFdCount) : Prop :=
  (s.gFds slot).statusFlags &&& androidONonblock ≠ 0

instance (s : FdState) (slot : Fin fakeFdCount) : Decidable (s.nonblock slot) :=
  inferInstanceAs (Decidable (_ ≠ _))

/-- A pipe with one more descriptor of the given kind. -/
def PipeState.retain (ps : PipeState) (kind : FakeFdKind) : PipeState :=
  match kind with
  | .pipeRead => { ps with readers := ps.readers + 1 }
  | .pipeWrite => { ps with writers := ps.writers + 1 }
  | .unused => ps

/-- A pipe with one descriptor of the given kind less. -/
def PipeState.drop (ps : PipeState) (kind : FakeFdKind) : PipeState :=
  match kind with
  | .pipeRead => if ps.readers ≠ 0 then { ps with readers := ps.readers - 1 } else ps
  | .pipeWrite => if ps.writers ≠ 0 then { ps with writers := ps.writers - 1 } else ps
  | .unused => ps

/-- What a section does to the bytes of a pipe, or to the pipe itself. -/
inductive Io where
  | none
  | created (p : Nat)
  | enqueued (p : Nat) (bytes : List UInt8)
  | dequeued (p : Nat) (bytes : List UInt8)
  | released (p : Nat)
  deriving DecidableEq, Repr

/-- What a call returns: -1 with its `errno`, which is left alone in one case, a value, the two
descriptors of a pipe, or the bytes that were read. -/
inductive Ret where
  | fail (e : Option Errno)
  | value (v : Int)
  | pipe (r w : Int)
  | got (bytes : List UInt8)
  deriving DecidableEq, Repr

/-- The number a call returns. -/
def Ret.toInt : Ret → Int
  | .fail _ => -1
  | .value v => v
  | .pipe _ _ => 0
  | .got bytes => bytes.length

/-- The source buffer of a write. -/
structure Source where
  byte : Nat → UInt8
  count : Nat

/-- Where a thread stands. Every constructor but `idle` and `finished` is a point before a section;
`readWait` and `writeWait` are waits on `g_cond`, from which a thread may wake at any time. -/
inductive Pc where
  | idle
  | pipe
  | readStart (slot : Fin fakeFdCount) (count : Nat)
  | readWait (slot : Fin fakeFdCount) (p : Nat) (count : Nat)
  | writeStart (slot : Fin fakeFdCount) (src : Source)
  | writeWait (slot : Fin fakeFdCount) (p : Nat) (src : Source) (total : Nat)
  | close (slot : Fin fakeFdCount)
  | dup (slot : Fin fakeFdCount) (minFd : Int) (cloexec : Bool)
  | dup2Same (slot : Fin fakeFdCount)
  | dup2Check (oldslot newslot : Fin fakeFdCount)
  | dup2Close (oldslot newslot : Fin fakeFdCount)
  | dup2Clone (oldslot newslot : Fin fakeFdCount)
  | fcntl (slot : Fin fakeFdCount) (cmd arg : Int)
  | isOpen (slot : Fin fakeFdCount)
  | ready (slot : Fin fakeFdCount)
  | finished (r : Ret)

/-- The outcome of a section. -/
abbrev Outcome := Option (Io × FdState × Pc)

/-- The call fails and the section has changed nothing. -/
def fails (s : FdState) (e : Errno) : Outcome := some (.none, s, .finished (.fail (some e)))

/-! ## The sections -/

/-- The section of `fakefd_pipe`, where `calloc` returned `allocated`. -/
def pipeLocked (s : FdState) (allocated : Option Nat) : Outcome :=
  match allocSlotFrom s fakeFdBase with
  | none => fails s .EMFILE
  | some r =>
      let reserved := s.setFd r { s.gFds r with kind := .pipeRead }
      match allocSlotFrom reserved fakeFdBase with
      | none => fails (reserved.setFd r .zero) .EMFILE
      | some w =>
          match allocated with
          | none => fails (reserved.setFd r .zero) .ENOMEM
          | some p =>
              some (.created p,
                ((reserved.setPipe p ⟨fun _ => 0, 0, 0, 1, 1⟩).setFd r
                  ⟨.pipeRead, some p, 0, 0⟩).setFd
                  w ⟨.pipeWrite, some p, 0, 0⟩,
                .finished (.pipe (fdOfSlot r) (fdOfSlot w)))

/-- The pipe after `amount` bytes have been dequeued. -/
def PipeState.dequeue (ps : PipeState) (amount : Nat) : PipeState :=
  { ps with head := (ps.head + amount) % pipeCapacity, length := ps.length - amount }

/-- The section of `fakefd_read` from its loop on. -/
def readLoop (s : FdState) (slot : Fin fakeFdCount) (p count : Nat) : Outcome :=
  match s.heap p with
  | none => none
  | some ps =>
      if ps.length = 0 ∧ ps.writers ≠ 0 then
        if s.nonblock slot then fails s .EAGAIN else some (.none, s, .readWait slot p count)
      else if ps.length = 0 ∧ ps.writers = 0 then some (.none, s, .finished (.got []))
      else
        let amount := if count < ps.length then count else ps.length
        let bytes := copyOut pipeCapacity ps.data ps.head amount
        some (.dequeued p bytes, s.setPipe p (ps.dequeue amount), .finished (.got bytes))

/-- The section of `fakefd_read` up to its first wait. -/
def readLocked (s : FdState) (slot : Fin fakeFdCount) (count : Nat) : Outcome :=
  match (s.gFds slot).pipe with
  | none => fails s .EBADF
  | some p => if (s.gFds slot).kind ≠ .pipeRead then fails s .EBADF else readLoop s slot p count

/-- The section of `fakefd_read` after a wait. -/
def readWoken (s : FdState) (slot : Fin fakeFdCount) (p count : Nat) : Outcome :=
  if (s.gFds slot).kind ≠ .pipeRead ∨ (s.gFds slot).pipe ≠ some p then fails s .EBADF
  else readLoop s slot p count

/-- What `fakefd_write` returns when it stops early, after `total` bytes. -/
def shortWrite (total : Nat) (e : Errno) : Ret :=
  if total ≠ 0 then .value total else .fail (some e)

/-- The pipe after `amount` bytes of the source from position `total` on have been enqueued. -/
def PipeState.enqueue (ps : PipeState) (src : Source) (total amount : Nat) : PipeState :=
  { ps with
    data := copyIn pipeCapacity ps.data ((ps.head + ps.length) % pipeCapacity) amount
      fun k => src.byte (total + k)
    length := ps.length + amount }

/-- The loop of `fakefd_write`, up to its end or the next wait, with the bytes it enqueues. -/
def writeLoop (slot : Fin fakeFdCount) (p : Nat) (src : Source) :
    Nat → FdState → Nat → Option (List UInt8 × FdState × Pc)
  | 0, _, _ => none
  | fuel + 1, s, total =>
      if total < src.count then
        match s.heap p with
        | none => none
        | some ps =>
            if ps.length = pipeCapacity ∧ ps.readers ≠ 0 then
              if s.nonblock slot then some ([], s, .finished (shortWrite total .EAGAIN))
              else some ([], s, .writeWait slot p src total)
            else if ps.readers = 0 then some ([], s, .finished (shortWrite total .EPIPE))
            else
              let freeSpace := pipeCapacity - ps.length
              if freeSpace = 0 then writeLoop slot p src fuel s total
              else
                let amount := if src.count - total > freeSpace then freeSpace else src.count - total
                let s := s.setPipe p (ps.enqueue src total amount)
                let bytes := slice src.byte total amount
                if s.nonblock slot then some (bytes, s, .finished (.value ↑(total + amount)))
                else
                  match writeLoop slot p src fuel s (total + amount) with
                  | none => none
                  | some (rest, s, l) => some (bytes ++ rest, s, l)
      else some ([], s, .finished (.value total))

/-- The section of `fakefd_write` from its loop on. Every round enqueues something, so there are
at most as many as there are bytes. -/
def writeFrom (s : FdState) (slot : Fin fakeFdCount) (p : Nat) (src : Source) (total : Nat) :
    Outcome :=
  match writeLoop slot p src (src.count + 1) s total with
  | none => none
  | some (bytes, s, l) => some (.enqueued p bytes, s, l)

/-- The section of `fakefd_write` up to its first wait. -/
def writeLocked (s : FdState) (slot : Fin fakeFdCount) (src : Source) : Outcome :=
  match (s.gFds slot).pipe with
  | none => fails s .EBADF
  | some p =>
      if (s.gFds slot).kind ≠ .pipeWrite then fails s .EBADF
      else
        match s.heap p with
        | none => none
        | some ps => if ps.readers = 0 then fails s .EPIPE else writeFrom s slot p src 0

/-- The section of `fakefd_write` after a wait. -/
def writeWoken (s : FdState) (slot : Fin fakeFdCount) (p : Nat) (src : Source) (total : Nat) :
    Outcome :=
  if (s.gFds slot).kind ≠ .pipeWrite ∨ (s.gFds slot).pipe ≠ some p then fails s .EBADF
  else writeFrom s slot p src total

/-- The section of `fakefd_close`, with what the call returns. -/
def closeLocked (s : FdState) (slot : Fin fakeFdCount) : Option (Io × FdState × Ret) :=
  match (s.gFds slot).pipe with
  | none => some (.none, s, .fail (some .EBADF))
  | some p =>
      if (s.gFds slot).kind = .unused then some (.none, s, .fail (some .EBADF))
      else
        match s.heap p with
        | none => none
        | some ps =>
            let ps := ps.drop (s.gFds slot).kind
            let s := (s.setPipe p ps).setFd slot .zero
            if ps.readers = 0 ∧ ps.writers = 0 then some (.released p, s.freePipe p, .value 0)
            else some (.none, s, .value 0)

/-- `clone_into_slot_locked`: the new state and the descriptor, or `none` for -1. -/
def cloneIntoSlotLocked (s : FdState) (src : FakeFdEntry) (slot : Option (Fin fakeFdCount))
    (cloexec : Bool) : Option (FdState × Option Int) :=
  match slot with
  | none => some (s, none)
  | some d =>
      if (s.gFds d).kind ≠ .unused then some (s, none)
      else
        match src.pipe with
        | none => none
        | some p =>
            match s.heap p with
            | none => none
            | some ps =>
                let entry := if cloexec then { src with fdFlags := src.fdFlags ||| 1 } else src
                some ((s.setFd d entry).setPipe p (ps.retain src.kind), some (fdOfSlot d))

/-- The sections of `fakefd_dup` and `fakefd_dup2` that clone slot `slot`, with the `errno` for a
missing target. -/
def cloneLocked (s : FdState) (slot : Fin fakeFdCount) (target : Option (Fin fakeFdCount))
    (cloexec : Bool) (e : Errno) : Outcome :=
  let src := s.gFds slot
  if src.kind = .unused ∨ src.pipe = none then fails s .EBADF
  else
    match cloneIntoSlotLocked s src target cloexec with
    | none => none
    | some (s, none) => fails s e
    | some (s, some fd) => some (.none, s, .finished (.value fd))

/-- The section of `fakefd_dup`. -/
def dupLocked (s : FdState) (slot : Fin fakeFdCount) (minFd : Int) (cloexec : Bool) : Outcome :=
  cloneLocked s slot (allocSlotFrom s minFd) cloexec .EMFILE

/-- The last section of `fakefd_dup2`. -/
def dup2Locked (s : FdState) (oldslot newslot : Fin fakeFdCount) : Outcome :=
  cloneLocked s oldslot (some newslot) false .EBUSY

/-- The commands of `fakefd_fcntl`. -/
def androidFDupfd : Int := 0
def androidFGetfd : Int := 1
def androidFSetfd : Int := 2
def androidFGetfl : Int := 3
def androidFSetfl : Int := 4
def androidFGetlk : Int := 5
def androidFSetlk : Int := 6
def androidFSetlkw : Int := 7
def androidFDupfdCloexec : Int := 1030

/-- The section of `fakefd_fcntl`. -/
def fcntlLocked (s : FdState) (slot : Fin fakeFdCount) (cmd arg : Int) : Outcome :=
  let e := s.gFds slot
  if e.kind = .unused ∨ e.pipe = none then fails s .EBADF
  else if cmd = androidFGetfd then some (.none, s, .finished (.value e.fdFlags.toInt))
  else if cmd = androidFSetfd then
    some (.none, s.setFd slot { e with fdFlags := BitVec.ofInt 32 arg }, .finished (.value 0))
  else if cmd = androidFGetfl then some (.none, s, .finished (.value e.statusFlags.toInt))
  else if cmd = androidFSetfl then
    some (.none, s.setFd slot { e with statusFlags := BitVec.ofInt 32 arg }, .finished (.value 0))
  else if cmd = androidFGetlk ∨ cmd = androidFSetlk ∨ cmd = androidFSetlkw then
    some (.none, s, .finished (.value 0))
  else fails s .EINVAL

/-- `ASNX_FD_READY_READ` and its siblings. -/
def asnxFdReadyRead : BitVec 32 := 0x01
def asnxFdReadyWrite : BitVec 32 := 0x02
def asnxFdReadyHup : BitVec 32 := 0x04
def asnxFdReadyErr : BitVec 32 := 0x08

/-- The section of `fakefd_ready`. -/
def readyLocked (s : FdState) (slot : Fin fakeFdCount) : Option (BitVec 32) :=
  let e := s.gFds slot
  match e.kind, e.pipe with
  | .unused, _ => some asnxFdReadyErr
  | _, none => some asnxFdReadyErr
  | .pipeRead, some p =>
      match s.heap p with
      | none => none
      | some ps =>
          some ((if ps.length ≠ 0 ∨ ps.writers = 0 then asnxFdReadyRead else 0) |||
            if ps.writers = 0 then asnxFdReadyHup else 0)
  | .pipeWrite, some p =>
      match s.heap p with
      | none => none
      | some ps =>
          some (if ps.readers = 0 then asnxFdReadyErr ||| asnxFdReadyHup
            else if ps.length < pipeCapacity then asnxFdReadyWrite else 0)

end Asnx.FakeFd
