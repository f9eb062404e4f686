import Asnx.FakeFd.Fds
import Asnx.FileBridge.Translate
import Asnx.Library.SlotTables
import Asnx.Library.Threads

/-!
# What is noted of the descriptors

`file_open`, `file_fclose`, `file_note_fd_closed` and `file_note_fd_duplicated` of
`source/file_bridge.c` with `nx_close`, `nx_dup` and `nx_dup2` of `source/imports.c`, as threads
that take atomic steps: a call of the host is one, and so is every section under a lock, except the
one in which `file_open` shares a `__lock` file that another descriptor has open: it calls the host
while it holds `g_unitycache_lock_mutex`.

A path comes out of a buffer of `PATH_MAX` bytes, so that it fits into another one. Of a
`PositionedFdSlot` the path is kept, which is what the calls read.
-/

namespace Asnx.FileBridge.Notes

open Files Searching SlotTables Threads
open Installer (dataRoot)

/-- A descriptor. -/
abbrev Fd := Int

/-- `POSITIONED_FD_SLOTS` -/
def positionedFdSlots : Int := 1024
/-- `UNITYCACHE_LOCK_SLOTS` -/
abbrev unitycacheLockSlots : Nat := 16
/-- `UNITYCACHE_DATA_SLOTS` -/
abbrev unitycacheDataSlots : Nat := 16

/-- A descriptor of the host: closed, open on a file with a path that `file_open` gave to the host,
or open on something else. -/
inductive HostFd where
  | closed
  | other
  | file (resolved : Bytes)
  deriving DecidableEq

/-- A `UnityCacheFileSlot`. -/
abbrev UnityCacheFileSlot := Entry Fd Bytes

/-- The descriptors of the host, and what is noted of them. -/
structure Shared (T : Type*) where
  host : Fd → HostFd
  gPositionedFd : Fd → Option Bytes
  gUnitycacheLockSlots : SlotTable unitycacheLockSlots Fd Bytes
  gUnitycacheDataSlots : SlotTable unitycacheDataSlots Fd Bytes
  gUnitycacheLockMutex : Option T

/-- What the environment answers to a call of the host that makes a descriptor, and to the
others. -/
structure Answers where
  fd : Option Fd
  /-- `fsdevGetLastResult() == 0xE02u` -/
  busy : Bool
  truncates : Bool
  fcloseRc : Int

/-- A call. A `file_open` may be refused before it calls the host; `flags & 01000` asks to
truncate. -/
inductive Request where
  | fileOpen (resolved : Bytes) (truncate : Bool)
  | fileOpenRefused
  | nxClose (fd : Fd)
  | fileFclose (fd : Fd)
  | fileFcloseNull
  | nxDup (fd : Fd)
  | nxDup2 (oldfd newfd : Fd)

/-- What the environment decides. -/
structure Choice where
  request : Request
  answers : Answers

/-- Where a thread is. -/
inductive Pc where
  | idle
  | hostOpen (resolved : Bytes) (truncate : Bool)
  | openLock (fd : Fd) (resolved : Bytes)
  | openData (fd : Fd) (resolved : Bytes)
  | openPositioned (fd : Fd) (resolved : Bytes)
  /-- The section in which a `__lock` file is shared. -/
  | shareEnter (resolved : Bytes) (truncate : Bool)
  | shareFind (resolved : Bytes) (truncate : Bool) (i : Nat)
  | shareDup (resolved : Bytes) (truncate : Bool) (existing : Fd)
  | shareTruncate (resolved : Bytes) (shared : Fd)
  | shareClose (shared : Fd)
  | shareRegister (resolved : Bytes) (shared : Fd)
  | shareLeave
  | hostClose (fd : Fd)
  | hostFclose (fd : Fd)
  | closedPositioned (fd : Fd) (r : Int)
  | closedTables (fd : Fd) (r : Int)
  | hostDup (oldfd : Fd)
  | hostDup2 (oldfd newfd : Fd)
  | dupMetadata (oldfd newfd : Fd)
  | dupPositioned (oldfd newfd : Fd) (path : Bytes)
  | dupTables (oldfd newfd : Fd)
  deriving DecidableEq

/-- A thread. -/
structure Thread (T : Type*) where
  self : T
  pc : Pc

/-- What a step is seen to do. -/
inductive Event where
  | inner
  | opened (fd : Fd) (resolved : Bytes)
  | closed (fd : Fd)
  | duplicated (oldfd newfd : Fd)
  | shared (existing fd : Fd)
  | returned (r : Int)
  deriving DecidableEq

variable {T : Type*}

/-- What a step comes to. -/
abbrev Outcome (T : Type*) := Option (Event × Shared T × Thread T)

def Thread.goto (t : Thread T) (pc : Pc) : Thread T := { t with pc := pc }

/-- A call returns. -/
def ret (s : Shared T) (t : Thread T) (r : Int) : Outcome T := some (.returned r, s, t.goto .idle)

/-! ## The host -/

def Shared.setHost (s : Shared T) (fd : Fd) (h : HostFd) : Shared T :=
  { s with host := Function.update s.host fd h }

/-- A descriptor that the host may give out. -/
def Shared.fresh (s : Shared T) (fd : Fd) : Prop :=
  0 ≤ fd ∧ fd < positionedFdSlots ∧ s.host fd = .closed

instance (s : Shared T) (fd : Fd) : Decidable (s.fresh fd) := by
  unfold Shared.fresh; infer_instance

/-! ## The positioned slots -/

/-- `fd<0||fd>=POSITIONED_FD_SLOTS` does not hold. -/
def inSlots (fd : Fd) : Prop := 0 ≤ fd ∧ fd < positionedFdSlots

instance (fd : Fd) : Decidable (inSlots fd) := by
  unfold inSlots; infer_instance

/-- `positioned_slot_clear_nolock` -/
def positionedSlotClear (s : Shared T) (fd : Fd) : Shared T :=
  if inSlots fd then { s with gPositionedFd := Function.update s.gPositionedFd fd none } else s

/-- `positioned_register` -/
def positionedRegister (s : Shared T) (fd : Fd) (resolved : Bytes) : Shared T :=
  if inSlots fd then { s with gPositionedFd := Function.update s.gPositionedFd fd (some resolved) }
  else s

/-- The path that `positioned_copy_metadata` copies. -/
def positionedCopyMetadata (s : Shared T) (fd : Fd) : Bytes :=
  if inSlots fd then (s.gPositionedFd fd).getD [] else []

/-! ## The tables of the cache -/

/-- What follows the last `/` of a path. -/
def baseName (p : Bytes) : Bytes := (p.reverse.takeWhile (· ≠ 47)).reverse

/-- `is_unitycache_named_file` -/
def isUnitycacheNamedFile (p name : Bytes) : Bool :=
  (dataRoot ++ bytes "/files/UnityCache/") <+: p ∧ baseName p = name

/-- `is_unitycache_lock_file` -/
def isUnitycacheLockFile (p : Bytes) : Bool := isUnitycacheNamedFile p (bytes "__lock")

/-- `is_unitycache_data_file` -/
def isUnitycacheDataFile (p : Bytes) : Bool := isUnitycacheNamedFile p (bytes "__data")

/-- `unitycache_lock_forget_fd_nolock` -/
def unitycacheLockForgetFd (s : Shared T) (fd : Fd) : Shared T :=
  { s with gUnitycacheLockSlots := forget (-1) s.gUnitycacheLockSlots fd }

/-- `unitycache_data_forget_fd_nolock` -/
def unitycacheDataForgetFd (s : Shared T) (fd : Fd) : Shared T :=
  { s with gUnitycacheDataSlots := forget (-1) s.gUnitycacheDataSlots fd }

/-- A slot whose descriptor turns out to be closed. -/
def unitycacheLockClear (s : Shared T) (i : Fin unitycacheLockSlots) : Shared T :=
  { s with gUnitycacheLockSlots := Function.update s.gUnitycacheLockSlots i ⟨-1, none⟩ }

/-- `unitycache_lock_register_nolock` -/
def unitycacheLockRegister (s : Shared T) (fd : Fd) (path : Bytes) : Shared T :=
  if fd < 0 then s
  else { s with gUnitycacheLockSlots := register (-1) s.gUnitycacheLockSlots fd path }

/-- `unitycache_data_register_nolock` -/
def unitycacheDataRegister (s : Shared T) (fd : Fd) (path : Bytes) : Shared T :=
  if fd < 0 then s
  else { s with gUnitycacheDataSlots := register (-1) s.gUnitycacheDataSlots fd path }

/-- The first loop over the slots in `file_note_fd_duplicated`. -/
def duplicateLock (s : Shared T) (oldfd newfd : Fd) : Shared T :=
  match valueOf s.gUnitycacheLockSlots oldfd with
  | none => s
  | some path => unitycacheLockRegister s newfd path

/-- The second. -/
def duplicateData (s : Shared T) (oldfd newfd : Fd) : Shared T :=
  match valueOf s.gUnitycacheDataSlots oldfd with
  | none => s
  | some path => unitycacheDataRegister s newfd path

/-! ## The steps -/

/-- A section of one step under `g_unitycache_lock_mutex`. -/
def locked (s : Shared T) (section' : Outcome T) : Outcome T :=
  if s.gUnitycacheLockMutex = none then section' else none

/-- `file_open` after the section for `__lock` files. -/
def afterLock (fd : Fd) (resolved : Bytes) : Pc :=
  if isUnitycacheDataFile resolved then .openData fd resolved else .openPositioned fd resolved

/-- `open` -/
def hostOpenStep (a : Answers) (s : Shared T) (t : Thread T) (resolved : Bytes) (truncate : Bool) :
    Outcome T :=
  match a.fd with
  | some fd =>
      if s.fresh fd ∧ resolved ≠ [] then
        some (.opened fd resolved, s.setHost fd (.file resolved),
          t.goto (if isUnitycacheLockFile resolved then .openLock fd resolved
            else afterLock fd resolved))
      else none
  | none =>
      if isUnitycacheLockFile resolved ∧ a.busy then
        some (.inner, s, t.goto (.shareEnter resolved truncate))
      else ret s t (-1)

/-- One slot of the loop in `unitycache_lock_find_nolock`, and its end. -/
def shareFindStep (s : Shared T) (t : Thread T) (resolved : Bytes) (truncate : Bool) (i : Nat) :
    Outcome T :=
  if h : i < unitycacheLockSlots then
    let slot := s.gUnitycacheLockSlots ⟨i, h⟩
    if slot.value = some resolved then
      if s.host slot.key ≠ .closed then
        some (.inner, s, t.goto (.shareDup resolved truncate slot.key))
      else
        some (.inner, unitycacheLockClear s ⟨i, h⟩, t.goto (.shareFind resolved truncate (i + 1)))
    else some (.inner, s, t.goto (.shareFind resolved truncate (i + 1)))
  else some (.inner, s, t.goto .shareLeave)

/-- `dup(existing)` -/
def shareDupStep (a : Answers) (s : Shared T) (t : Thread T) (resolved : Bytes) (truncate : Bool)
    (existing : Fd) : Outcome T :=
  match a.fd with
  | some fd =>
      if s.fresh fd ∧ s.host existing ≠ .closed then
        some (.shared existing fd, s.setHost fd (s.host existing),
          t.goto (if truncate then .shareTruncate resolved fd else .shareRegister resolved fd))
      else none
  | none => some (.inner, s, t.goto .shareLeave)

/-- `close`, which succeeds for an open descriptor. -/
def hostCloseStep (s : Shared T) (t : Thread T) (fd : Fd) : Outcome T :=
  if s.host fd ≠ .closed then
    some (.closed fd, s.setHost fd .closed, t.goto (.closedPositioned fd 0))
  else ret s t (-1)

/-- `fclose` on a stream with the descriptor `fileno(fp)`. -/
def hostFcloseStep (a : Answers) (s : Shared T) (t : Thread T) (fd : Fd) : Outcome T :=
  if fd < 0 then ret s t a.fcloseRc
  else if s.host fd ≠ .closed then
    some (.closed fd, s.setHost fd .closed, t.goto (.closedPositioned fd a.fcloseRc))
  else some (.inner, s, t.goto (.closedPositioned fd a.fcloseRc))

/-- `dup` -/
def hostDupStep (a : Answers) (s : Shared T) (t : Thread T) (oldfd : Fd) : Outcome T :=
  match a.fd with
  | some fd =>
      if s.fresh fd ∧ s.host oldfd ≠ .closed then
        some (.duplicated oldfd fd, s.setHost fd (s.host oldfd), t.goto (.dupMetadata oldfd fd))
      else none
  | none => ret s t (-1)

/-- `dup2`; a descriptor that is its own duplicate is left alone, by the host and by
`file_note_fd_duplicated`. -/
def hostDup2Step (a : Answers) (s : Shared T) (t : Thread T) (oldfd newfd : Fd) : Outcome T :=
  if s.host oldfd ≠ .closed ∧ inSlots newfd ∧ a.fd.isSome then
    if oldfd = newfd then ret s t newfd
    else
      some (.duplicated oldfd newfd, s.setHost newfd (s.host oldfd),
        t.goto (.dupMetadata oldfd newfd))
  else ret s t (-1)

/-- `fakefd_is_range` -/
def fakefdIsRange (fd : Fd) : Bool := (FakeFd.slotFromFd fd).isSome

/-- Where a call begins. A call for an emulated descriptor is not one for the host. -/
def requestStep (s : Shared T) (t : Thread T) : Request → Outcome T
  | .fileOpen resolved truncate => some (.inner, s, t.goto (.hostOpen resolved truncate))
  | .fileOpenRefused => ret s t (-1)
  | .nxClose fd =>
      if fakefdIsRange fd then some (.inner, s, t) else some (.inner, s, t.goto (.hostClose fd))
  | .fileFclose fd => some (.inner, s, t.goto (.hostFclose fd))
  | .fileFcloseNull => ret s t (-1)
  | .nxDup fd =>
      if fakefdIsRange fd then some (.inner, s, t) else some (.inner, s, t.goto (.hostDup fd))
  | .nxDup2 oldfd newfd =>
      if fakefdIsRange oldfd || fakefdIsRange newfd then some (.inner, s, t)
      else some (.inner, s, t.goto (.hostDup2 oldfd newfd))

/-- The next step of a thread. -/
def notesNext (x : Choice) (s : Shared T) (t : Thread T) : Outcome T :=
  match t.pc with
  | .idle => requestStep s t x.request
  | .hostOpen resolved truncate => hostOpenStep x.answers s t resolved truncate
  | .openLock fd resolved =>
      locked s (some (.inner, unitycacheLockRegister s fd resolved, t.goto (afterLock fd resolved)))
  | .openData fd resolved =>
      locked s (some (.inner, unitycacheDataRegister s fd resolved,
        t.goto (.openPositioned fd resolved)))
  | .openPositioned fd resolved => ret (positionedRegister s fd resolved) t fd
  | .shareEnter resolved truncate =>
      locked s (some (.inner, { s with gUnitycacheLockMutex := some t.self },
        t.goto (.shareFind resolved truncate 0)))
  | .shareFind resolved truncate i => shareFindStep s t resolved truncate i
  | .shareDup resolved truncate existing => shareDupStep x.answers s t resolved truncate existing
  | .shareTruncate resolved fd =>
      some (.inner, s,
        t.goto (if x.answers.truncates then .shareRegister resolved fd else .shareClose fd))
  | .shareClose fd => some (.inner, s.setHost fd .closed, t.goto .shareLeave)
  | .shareRegister resolved fd =>
      some (.inner, { unitycacheLockRegister s fd resolved with gUnitycacheLockMutex := none },
        t.goto (afterLock fd resolved))
  | .shareLeave => ret { s with gUnitycacheLockMutex := none } t (-1)
  | .hostClose fd => hostCloseStep s t fd
  | .hostFclose fd => hostFcloseStep x.answers s t fd
  | .closedPositioned fd r => some (.inner, positionedSlotClear s fd, t.goto (.closedTables fd r))
  | .closedTables fd r =>
      locked s (ret (unitycacheDataForgetFd (unitycacheLockForgetFd s fd) fd) t r)
  | .hostDup oldfd => hostDupStep x.answers s t oldfd
  | .hostDup2 oldfd newfd => hostDup2Step x.answers s t oldfd newfd
  | .dupMetadata oldfd newfd =>
      some (.inner, s, t.goto (.dupPositioned oldfd newfd (positionedCopyMetadata s oldfd)))
  | .dupPositioned oldfd newfd path =>
      some (.inner, if path ≠ [] then positionedRegister s newfd
        path else positionedSlotClear s newfd,
        t.goto (.dupTables oldfd newfd))
  | .dupTables oldfd newfd =>
      locked s (ret (duplicateData (duplicateLock
        (unitycacheDataForgetFd (unitycacheLockForgetFd s newfd) newfd) oldfd newfd) oldfd newfd)
        t newfd)

/-- The threads. -/
def notes : Program (Shared T) (Thread T) Choice Event := ⟨notesNext⟩

/-- No call has begun, nothing is noted, and no descriptor has come from `file_open`. -/
structure Initial (c : Config T (Shared T) (Thread T)) : Prop where
  self : ∀ t, (c.locals t).self = t
  idle : ∀ t, (c.locals t).pc = .idle
  host : ∀ fd, c.shared.host fd = .closed ∨ inSlots fd ∧ c.shared.host fd = .other
  positioned : ∀ fd, c.shared.gPositionedFd fd = none
  lockSlots : ∀ i, c.shared.gUnitycacheLockSlots i = ⟨0, none⟩
  dataSlots : ∀ i, c.shared.gUnitycacheDataSlots i = ⟨0, none⟩
  mutex : c.shared.gUnitycacheLockMutex = none

end Asnx.FileBridge.Notes
