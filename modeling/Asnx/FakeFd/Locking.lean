import Asnx.FakeFd.Table
import Asnx.Library.Locking

/-!
# The lock of the table

Every call of `source/fakefd.c` runs `ensure_initialized` before it takes `g_lock`, which tests and
sets `g_initialized` without a lock: a call that comes late may run `mutexInit` while another call
holds the lock. Here the sections are programs that look at one slot or one pipe at a time, and the
calls may interleave wherever the lock lets them.

As long as `mutexInit` does not run while the lock is held, a section may be taken as one step
(`fd_serves`), and every run of whole sections comes about (`fd_completes`). Otherwise two calls
may be in their sections at once, and `fakefd_pipe` may hand out a slot twice
(`pipes_share_slots`).
-/

namespace Asnx.FakeFd

open Threads Locking RingBuffer

/-! ## The sections access by access -/

/-- An access to a slot, to a pipe, or to the heap; what a section does to one of them in a row is
one access. -/
inductive FdAccess where
  | readFd (i : Fin fakeFdCount)
  | editFd (i : Fin fakeFdCount) (f : FakeFdEntry → FakeFdEntry)
  | readPipe (p : Nat)
  | editPipe (p : Nat) (f : PipeState → PipeState)
  | calloc
  | free (p : Nat)
  /-- The section follows a null pointer, or goes round without an end. -/
  | hangs

/-- What an access gives. -/
def FdAccess.Res : FdAccess → Type
  | .readFd _ => FakeFdEntry
  | .readPipe _ => PipeState
  | .calloc => Option Nat
  | .editFd _ _ | .editPipe _ _ | .free _ | .hangs => Unit

/-- What `calloc` returns if `allocated` is proposed: the address of a block that is not in use, or
null. -/
def FdState.usable (s : FdState) (allocated : Option Nat) : Option Nat :=
  allocated.filter fun p => (s.heap p).isNone

/-- What an access does. A pointer to a released pipe leads nowhere. -/
def fdEffect (allocated : Option Nat) : (i : FdAccess) → FdState → Option (i.Res × FdState)
  | .readFd i, s => some (s.gFds i, s)
  | .editFd i f, s => some ((), s.setFd i (f (s.gFds i)))
  | .readPipe p, s => (s.heap p).map fun ps => (ps, s)
  | .editPipe p f, s => (s.heap p).map fun ps => ((), s.setPipe p (f ps))
  | .calloc, s =>
      match s.usable allocated with
      | none => some (none, s)
      | some p => some (some p, s.setPipe p ⟨fun _ => 0, 0, 0, 0, 0⟩)
  | .free p, s => (s.heap p).map fun _ => ((), s.freePipe p)
  | .hangs, _ => none

/-- A part of a section. -/
abbrev FdBody := Access FdAccess FdAccess.Res

def readFd (i : Fin fakeFdCount) : FdBody FakeFdEntry := .one (FdAccess.readFd i)
def editFd (i : Fin fakeFdCount) (f : FakeFdEntry → FakeFdEntry) : FdBody Unit :=
  .one (FdAccess.editFd i f)
def readPipe (p : Nat) : FdBody PipeState := .one (FdAccess.readPipe p)
def editPipe (p : Nat) (f : PipeState → PipeState) : FdBody Unit := .one (FdAccess.editPipe p f)
def calloc : FdBody (Option Nat) := .one FdAccess.calloc
def free (p : Nat) : FdBody Unit := .one (FdAccess.free p)
def hangs : FdBody Unit := .one FdAccess.hangs

/-- The call fails. -/
def failing (e : Errno) : Io × Pc := (.none, .finished (.fail (some e)))

/-- The loop of `alloc_slot_from`. -/
def allocLoop (first : Int) : List (Fin fakeFdCount) → FdBody (Option (Fin fakeFdCount))
  | [] => pure none
  | i :: rest =>
      if first ≤ (i : Nat) then do
        let e ← readFd i
        if e.kind = .unused then pure (some i) else allocLoop first rest
      else allocLoop first rest

/-- `alloc_slot_from` -/
def allocSlotBody (minimumFd : Int) : FdBody (Option (Fin fakeFdCount)) :=
  let first := if minimumFd > fakeFdBase then minimumFd - fakeFdBase else 0
  if first ≥ fakeFdCount then pure none else allocLoop first (List.finRange fakeFdCount)

/-- The section of `fakefd_pipe`. -/
def pipeBody : FdBody (Io × Pc) := do
  match ← allocSlotBody fakeFdBase with
  | none => return failing .EMFILE
  | some r =>
      editFd r fun e => { e with kind := .pipeRead }
      match ← allocSlotBody fakeFdBase with
      | none =>
          editFd r fun _ => .zero
          return failing .EMFILE
      | some w =>
          match ← calloc with
          | none =>
              editFd r fun _ => .zero
              return failing .ENOMEM
          | some p =>
              editPipe p fun ps => { ps with readers := 1, writers := 1 }
              editFd r fun _ => ⟨.pipeRead, some p, 0, 0⟩
              editFd w fun _ => ⟨.pipeWrite, some p, 0, 0⟩
              return (.created p, .finished (.pipe (fdOfSlot r) (fdOfSlot w)))

/-- The section of `fakefd_read` from its loop on. -/
def readLoopBody (slot : Fin fakeFdCount) (p count : Nat) : FdBody (Io × Pc) := do
  let ps ← readPipe p
  if ps.length = 0 ∧ ps.writers ≠ 0 then
    let e ← readFd slot
    if e.statusFlags &&& androidONonblock ≠ 0 then return failing .EAGAIN
    else return (.none, .readWait slot p count)
  else if ps.length = 0 ∧ ps.writers = 0 then return (.none, .finished (.got []))
  else
    let amount := if count < ps.length then count else ps.length
    let bytes := copyOut pipeCapacity ps.data ps.head amount
    editPipe p fun ps => ps.dequeue amount
    return (.dequeued p bytes, .finished (.got bytes))

/-- The section of `fakefd_read` up to its first wait. -/
def readBody (slot : Fin fakeFdCount) (count : Nat) : FdBody (Io × Pc) := do
  let e ← readFd slot
  match e.pipe with
  | none => return failing .EBADF
  | some p => if e.kind ≠ .pipeRead then return failing .EBADF else readLoopBody slot p count

/-- The section of `fakefd_read` after a wait. -/
def readWokenBody (slot : Fin fakeFdCount) (p count : Nat) : FdBody (Io × Pc) := do
  let e ← readFd slot
  if e.kind ≠ .pipeRead ∨ e.pipe ≠ some p then return failing .EBADF else readLoopBody slot p count

/-- The loop of `fakefd_write`, with the bytes that it enqueues. -/
def writeLoopBody (slot : Fin fakeFdCount) (p : Nat) (src : Source) :
    Nat → Nat → FdBody (List UInt8 × Pc)
  | 0, _ => do
      hangs
      return ([], .idle)
  | fuel + 1, total =>
      if total < src.count then do
        let ps ← readPipe p
        if ps.length = pipeCapacity ∧ ps.readers ≠ 0 then
          let e ← readFd slot
          if e.statusFlags &&& androidONonblock ≠ 0 then
            return ([], .finished (shortWrite total .EAGAIN))
          else return ([], .writeWait slot p src total)
        else if ps.readers = 0 then return ([], .finished (shortWrite total .EPIPE))
        else
          let freeSpace := pipeCapacity - ps.length
          if freeSpace = 0 then writeLoopBody slot p src fuel total
          else
            let amount := if src.count - total > freeSpace then freeSpace else src.count - total
            editPipe p fun ps => ps.enqueue src total amount
            let bytes := slice src.byte total amount
            let e ← readFd slot
            if e.statusFlags &&& androidONonblock ≠ 0 then
              return (bytes, .finished (.value ↑(total + amount)))
            else
              let (rest, l) ← writeLoopBody slot p src fuel (total + amount)
              return (bytes ++ rest, l)
      else return ([], .finished (.value total))

/-- The section of `fakefd_write` from its loop on. -/
def writeFromBody (slot : Fin fakeFdCount) (p : Nat) (src : Source) (total : Nat) :
    FdBody (Io × Pc) := do
  let (bytes, l) ← writeLoopBody slot p src (src.count + 1) total
  return (.enqueued p bytes, l)

/-- The section of `fakefd_write` up to its first wait. -/
def writeBody (slot : Fin fakeFdCount) (src : Source) : FdBody (Io × Pc) := do
  let e ← readFd slot
  match e.pipe with
  | none => return failing .EBADF
  | some p =>
      if e.kind ≠ .pipeWrite then return failing .EBADF
      else
        let ps ← readPipe p
        if ps.readers = 0 then return failing .EPIPE else writeFromBody slot p src 0

/-- The section of `fakefd_write` after a wait. -/
def writeWokenBody (slot : Fin fakeFdCount) (p : Nat) (src : Source) (total : Nat) :
    FdBody (Io × Pc) := do
  let e ← readFd slot
  if e.kind ≠ .pipeWrite ∨ e.pipe ≠ some p then return failing .EBADF
  else writeFromBody slot p src total

/-- The section of `fakefd_close`, with what the call returns. -/
def closeBody (slot : Fin fakeFdCount) : FdBody (Io × Ret) := do
  let e ← readFd slot
  match e.pipe with
  | none => return (.none, .fail (some .EBADF))
  | some p =>
      if e.kind = .unused then return (.none, .fail (some .EBADF))
      else
        editPipe p fun ps => ps.drop e.kind
        editFd slot fun _ => .zero
        let ps ← readPipe p
        if ps.readers = 0 ∧ ps.writers = 0 then
          free p
          return (.released p, .value 0)
        else return (.none, .value 0)

/-- `clone_into_slot_locked`; `none` for -1. -/
def cloneIntoSlotBody (src : FakeFdEntry) (slot : Option (Fin fakeFdCount)) (cloexec : Bool) :
    FdBody (Option Int) :=
  match slot with
  | none => pure none
  | some d => do
      let e ← readFd d
      if e.kind ≠ .unused then return none
      else
        editFd d fun _ => if cloexec then { src with fdFlags := src.fdFlags ||| 1 } else src
        match src.pipe with
        | none =>
            hangs
            return none
        | some p =>
            editPipe p fun ps => ps.retain src.kind
            return some (fdOfSlot d)

/-- The sections of `fakefd_dup` and `fakefd_dup2` that clone slot `slot` into one that `target`
looks for, with the `errno` for a missing one. -/
def cloneBody (slot : Fin fakeFdCount) (target : FdBody (Option (Fin fakeFdCount))) (cloexec : Bool)
    (e : Errno) : FdBody (Io × Pc) := do
  let src ← readFd slot
  if src.kind = .unused ∨ src.pipe = none then return failing .EBADF
  else
    let d ← target
    match ← cloneIntoSlotBody src d cloexec with
    | none => return failing e
    | some fd => return (.none, .finished (.value fd))

/-- The section of `fakefd_fcntl`. -/
def fcntlBody (slot : Fin fakeFdCount) (cmd arg : Int) : FdBody (Io × Pc) := do
  let e ← readFd slot
  if e.kind = .unused ∨ e.pipe = none then return failing .EBADF
  else if cmd = androidFGetfd then return (.none, .finished (.value e.fdFlags.toInt))
  else if cmd = androidFSetfd then
    editFd slot fun e => { e with fdFlags := BitVec.ofInt 32 arg }
    return (.none, .finished (.value 0))
  else if cmd = androidFGetfl then return (.none, .finished (.value e.statusFlags.toInt))
  else if cmd = androidFSetfl then
    editFd slot fun e => { e with statusFlags := BitVec.ofInt 32 arg }
    return (.none, .finished (.value 0))
  else if cmd = androidFGetlk ∨ cmd = androidFSetlk ∨ cmd = androidFSetlkw then
    return (.none, .finished (.value 0))
  else return failing .EINVAL

/-- The section of `fakefd_ready`. -/
def readyBody (slot : Fin fakeFdCount) : FdBody (BitVec 32) := do
  let e ← readFd slot
  match e.kind, e.pipe with
  | .unused, _ => return asnxFdReadyErr
  | _, none => return asnxFdReadyErr
  | .pipeRead, some p =>
      let ps ← readPipe p
      return (if ps.length ≠ 0 ∨ ps.writers = 0 then asnxFdReadyRead else 0) |||
        if ps.writers = 0 then asnxFdReadyHup else 0
  | .pipeWrite, some p =>
      let ps ← readPipe p
      return if ps.readers = 0 then asnxFdReadyErr ||| asnxFdReadyHup
        else if ps.length < pipeCapacity then asnxFdReadyWrite else 0

/-- The section of `fakefd_is_open`. -/
def isOpenBody (slot : Fin fakeFdCount) : FdBody Bool := do
  let e ← readFd slot
  return e.kind ≠ .unused

/-- The section that a thread begins where it stands. -/
def bodyAt : Pc → Option (FdBody (Io × Pc))
  | .idle | .finished _ => none
  | .pipe => some pipeBody
  | .readStart slot count => some (readBody slot count)
  | .readWait slot p count => some (readWokenBody slot p count)
  | .writeStart slot src => some (writeBody slot src)
  | .writeWait slot p src total => some (writeWokenBody slot p src total)
  | .close slot => some do
      let (io, r) ← closeBody slot
      return (io, .finished r)
  | .dup slot minFd cloexec => some (cloneBody slot (allocSlotBody minFd) cloexec .EMFILE)
  | .dup2Same slot => some do
      let isOpen ← isOpenBody slot
      return (.none, .finished (if isOpen then .value (fdOfSlot slot) else .fail none))
  | .dup2Check oldslot newslot => some do
      let isOpen ← isOpenBody newslot
      return (.none, if isOpen then .dup2Close oldslot newslot else .dup2Clone oldslot newslot)
  | .dup2Close oldslot newslot => some do
      let (io, _) ← closeBody newslot
      return (io, .dup2Clone oldslot newslot)
  | .dup2Clone oldslot newslot => some (cloneBody oldslot (pure (some newslot)) false .EBUSY)
  | .fcntl slot cmd arg => some (fcntlBody slot cmd arg)
  | .isOpen slot => some do
      let isOpen ← isOpenBody slot
      return (.none, .finished (.value (if isOpen then 1 else 0)))
  | .ready slot => some do
      let ready ← readyBody slot
      return (.none, .finished (.value ready.toInt))

/-- The calls of `source/fakefd.c`: a thread begins one or returns from it, runs
`ensure_initialized` before each section except after a wait, and goes through the section under
`g_lock`. -/
def fdCalls : Calls FdState Pc (Option Call) (Option Nat) Event FdAccess FdAccess.Res where
  outside
    | some c, .idle => some (.called c, enter c)
    | none, .finished r => some (.returned r, .idle)
    | _, _ => none
  body l := (bodyAt l).map fun b => do
    let (io, l) ← b
    return (.section io, l)
  woken
    | .readWait _ _ _ | .writeWait _ _ _ _ => true
    | _ => false
  effect := fdEffect

/-! ## A section without interruption -/

variable {s s' : FdState} {a : Option Nat} {l l' : Pc} {io : Io}

@[simp] theorem exec_readFd (i : Fin fakeFdCount) :
    (readFd i).exec (fdEffect a) s = some (s.gFds i, s) := Access.exec_one _

@[simp] theorem exec_editFd (i : Fin fakeFdCount) (f : FakeFdEntry → FakeFdEntry) :
    (editFd i f).exec (fdEffect a) s = some ((), s.setFd i (f (s.gFds i))) := Access.exec_one _

@[simp] theorem exec_readPipe (p : Nat) :
    (readPipe p).exec (fdEffect a) s = (s.heap p).map fun ps => (ps, s) := Access.exec_one _

@[simp] theorem exec_editPipe (p : Nat) (f : PipeState → PipeState) :
    (editPipe p f).exec (fdEffect a) s = (s.heap p).map fun ps => ((), s.setPipe p (f ps)) :=
  Access.exec_one _

@[simp] theorem exec_free (p : Nat) :
    (free p).exec (fdEffect a) s = (s.heap p).map fun _ => ((), s.freePipe p) := Access.exec_one _

@[simp] theorem exec_hangs : hangs.exec (fdEffect a) s = none := Access.exec_one _

theorem exec_calloc : calloc.exec (fdEffect a) s = match s.usable a with
    | none => some (none, s)
    | some p => some (some p, s.setPipe p ⟨fun _ => 0, 0, 0, 0, 0⟩) := Access.exec_one _

/-- The outcome of a section, with the state behind it last. -/
def Outcome.split (o : Outcome) : Option ((Io × Pc) × FdState) :=
  o.map fun r => ((r.1, r.2.2), r.2.1)

@[simp] theorem split_none : Outcome.split none = none := rfl

@[simp] theorem split_some (io : Io) (s : FdState) (l : Pc) :
    Outcome.split (some (io, s, l)) = some ((io, l), s) := rfl

@[simp] theorem split_fails (s : FdState) (e : Errno) : (fails s e).split =
    some (failing e, s) := rfl

@[simp] theorem split_ite {c : Prop} [Decidable c] (o o' : Outcome) :
    (if c then o else o').split = if c then o.split else o'.split := apply_ite _ c o o'

theorem exec_allocLoop (first : Int) (slots : List (Fin fakeFdCount)) :
    (allocLoop first slots).exec (fdEffect a) s = some (slots.find? fun i =>
      decide (first ≤ ((i : Fin fakeFdCount) : Nat)) && (s.gFds i).kind = .unused, s) := by
  induction slots with
  | nil => rfl
  | cons i rest ih =>
      unfold allocLoop
      by_cases hfirst : first ≤ (i : Nat)
      case pos =>
        by_cases hunused : (s.gFds i).kind = .unused
        case pos => simp [hfirst, hunused]
        case neg => simp [hfirst, hunused, ih]
      case neg => simp [hfirst, ih]

theorem exec_allocSlotBody (minimumFd : Int) :
    (allocSlotBody minimumFd).exec (fdEffect a) s = some (allocSlotFrom s minimumFd, s) := by
  unfold allocSlotBody allocSlotFrom
  dsimp only
  rw [Access.exec_ite, exec_allocLoop, Fin.find?_eq_find?_finRange]
  exact (apply_ite (fun slot => some (slot, s)) _ none _).symm

theorem exec_pipeBody : pipeBody.exec (fdEffect a) s = (pipeLocked s (s.usable a)).split := by
  unfold pipeBody pipeLocked
  rw [Access.exec_bind, exec_allocSlotBody]
  cases hr : allocSlotFrom s fakeFdBase with
  | none => rfl
  | some r =>
      simp only [Option.bind_some, Access.exec_bind, exec_editFd, exec_allocSlotBody]
      cases hw : allocSlotFrom (s.setFd r { s.gFds r with kind := .pipeRead }) fakeFdBase with
      | none => rfl
      | some w =>
          have husable : (s.setFd r { s.gFds r with kind := .pipeRead }).usable a =
            s.usable a := rfl
          simp only [Access.exec_bind, exec_calloc, husable]
          cases s.usable a with
          | none => rfl
          | some p => simp [Outcome.split, FdState.setPipe, FdState.setFd]

theorem nonblock_iff {slot : Fin fakeFdCount} :
    (s.gFds slot).statusFlags &&& androidONonblock ≠ 0 ↔ s.nonblock slot := Iff.rfl

theorem exec_readLoopBody (slot : Fin fakeFdCount) (p count : Nat) :
    (readLoopBody slot p count).exec (fdEffect a) s = (readLoop s slot p count).split := by
  unfold readLoopBody readLoop
  cases hps : s.heap p with
  | none => simp [hps]
  | some ps =>
      simp only [Access.exec_bind, exec_readPipe, hps, Option.map_some, Option.bind_some,
        Access.exec_ite, exec_readFd, exec_editPipe, Access.exec_pure, split_ite, split_fails,
        split_some, nonblock_iff]

theorem exec_readBody (slot : Fin fakeFdCount) (count : Nat) :
    (readBody slot count).exec (fdEffect a) s = (readLocked s slot count).split := by
  unfold readBody readLocked
  simp only [Access.exec_bind, exec_readFd, Option.bind_some]
  cases (s.gFds slot).pipe with
  | none => rfl
  | some p =>
      simp only [Access.exec_ite, exec_readLoopBody, Access.exec_pure, split_ite, split_fails]

theorem exec_readWokenBody (slot : Fin fakeFdCount) (p count : Nat) :
    (readWokenBody slot p count).exec (fdEffect a) s = (readWoken s slot p count).split := by
  unfold readWokenBody readWoken
  simp only [Access.exec_bind, exec_readFd, Option.bind_some, Access.exec_ite, exec_readLoopBody,
    Access.exec_pure, split_ite, split_fails]

/-- The loop of `fakefd_write`, by induction on its rounds. -/
theorem exec_writeLoopBody (slot : Fin fakeFdCount) (p : Nat) (src : Source) (fuel total : Nat) :
    (writeLoopBody slot p src fuel total).exec (fdEffect a) s =
      (writeLoop slot p src fuel s total).map fun r => ((r.1, r.2.2), r.2.1) := by
  induction fuel generalizing s total with
  | zero => simp [writeLoopBody, writeLoop]
  | succ fuel ih =>
      unfold writeLoopBody writeLoop
      by_cases hlt : total < src.count
      case neg => simp [hlt]
      case pos =>
        cases hps : s.heap p with
        | none => simp [hlt, hps]
        | some ps =>
            simp only [if_pos hlt, Access.exec_bind, exec_readPipe, hps, Option.map_some,
              Option.bind_some, Access.exec_ite, exec_readFd, exec_editPipe, Access.exec_pure, ih,
              nonblock_iff]
            -- a full pipe, no reader, no room, and then a round of the loop
            split
            · split <;> rfl
            · split
              · rfl
              · split
                · rfl
                · generalize (if src.count - total > pipeCapacity - ps.length then
                    pipeCapacity - ps.length else src.count - total) = amount
                  split
                  · rfl
                  · generalize writeLoop slot p src fuel _ _ = rest
                    cases rest <;> rfl

theorem exec_writeFromBody (slot : Fin fakeFdCount) (p : Nat) (src : Source) (total : Nat) :
    (writeFromBody slot p src total).exec (fdEffect a) s =
      (writeFrom s slot p src total).split := by
  unfold writeFromBody writeFrom
  simp only [Access.exec_bind, exec_writeLoopBody]
  cases writeLoop slot p src (src.count + 1) s total <;> rfl

theorem exec_writeBody (slot : Fin fakeFdCount) (src : Source) :
    (writeBody slot src).exec (fdEffect a) s = (writeLocked s slot src).split := by
  unfold writeBody writeLocked
  simp only [Access.exec_bind, exec_readFd, Option.bind_some]
  cases (s.gFds slot).pipe with
  | none => rfl
  | some p =>
      simp only [Access.exec_ite, Access.exec_bind, exec_readPipe, exec_writeFromBody,
        Access.exec_pure, split_ite, split_fails]
      cases s.heap p with
      | none => rfl
      | some ps =>
          simp only [Option.map_some, Option.bind_some, split_ite, split_fails]

theorem exec_writeWokenBody (slot : Fin fakeFdCount) (p : Nat) (src : Source) (total : Nat) :
    (writeWokenBody slot p src total).exec (fdEffect a) s =
      (writeWoken s slot p src total).split := by
  unfold writeWokenBody writeWoken
  simp only [Access.exec_bind, exec_readFd, Option.bind_some, Access.exec_ite, exec_writeFromBody,
    Access.exec_pure, split_ite, split_fails]

theorem exec_closeBody (slot : Fin fakeFdCount) : (closeBody slot).exec (fdEffect a) s =
    (closeLocked s slot).map fun r => ((r.1, r.2.2), r.2.1) := by
  unfold closeBody closeLocked
  simp only [Access.exec_bind, exec_readFd, Option.bind_some]
  cases hp : (s.gFds slot).pipe with
  | none => rfl
  | some p =>
      by_cases hunused : (s.gFds slot).kind = .unused
      case pos => simp [hunused]
      case neg =>
        cases hps : s.heap p with
        | none => simp [hunused, hps]
        | some ps =>
            simp only [if_neg hunused, Access.exec_bind, exec_editPipe, hps, Option.map_some,
              Option.bind_some, exec_editFd, exec_readPipe, setFd_heap, setPipe_heap,
              Function.update_self, Access.exec_ite, exec_free, Access.exec_pure]
            split <;> rfl

theorem exec_cloneIntoSlotBody (src : FakeFdEntry) (slot : Option (Fin fakeFdCount))
    (cloexec : Bool) : (cloneIntoSlotBody src slot cloexec).exec (fdEffect a) s =
      (cloneIntoSlotLocked s src slot cloexec).map fun r => (r.2, r.1) := by
  unfold cloneIntoSlotBody cloneIntoSlotLocked
  cases slot with
  | none => rfl
  | some d =>
      simp only [Access.exec_bind, exec_readFd, Option.bind_some, Access.exec_ite, Access.exec_pure,
        exec_editFd]
      split
      · rfl
      · cases src.pipe with
        | none => simp
        | some p =>
            simp only [Access.exec_bind, exec_editPipe, setFd_heap]
            cases s.heap p <;> rfl

theorem exec_cloneBody (slot : Fin fakeFdCount) {target : FdBody (Option (Fin fakeFdCount))}
    {d : Option (Fin fakeFdCount)} (htarget : target.exec (fdEffect a) s = some (d, s))
    (cloexec : Bool) (e : Errno) : (cloneBody slot target cloexec e).exec (fdEffect a) s =
      (cloneLocked s slot d cloexec e).split := by
  unfold cloneBody cloneLocked
  simp only [Access.exec_bind, exec_readFd, Option.bind_some, Access.exec_ite, Access.exec_pure,
    htarget, exec_cloneIntoSlotBody, split_ite, split_fails]
  cases cloneIntoSlotLocked s (s.gFds slot) d cloexec with
  | none => rfl
  | some r =>
      obtain ⟨s', fd⟩ := r
      cases fd <;> rfl

theorem exec_fcntlBody (slot : Fin fakeFdCount) (cmd arg : Int) :
    (fcntlBody slot cmd arg).exec (fdEffect a) s = (fcntlLocked s slot cmd arg).split := by
  unfold fcntlBody fcntlLocked
  simp only [Access.exec_bind, exec_readFd, Option.bind_some, Access.exec_ite, Access.exec_pure,
    exec_editFd, split_ite, split_fails, split_some]

theorem exec_readyBody (slot : Fin fakeFdCount) :
    (readyBody slot).exec (fdEffect a) s = (readyLocked s slot).map fun r => (r, s) := by
  unfold readyBody readyLocked
  simp only [Access.exec_bind, exec_readFd, Option.bind_some]
  cases (s.gFds slot).kind with
  | unused => cases (s.gFds slot).pipe <;> rfl
  | pipeRead | pipeWrite =>
      cases (s.gFds slot).pipe with
      | none => rfl
      | some p =>
          simp only [Access.exec_bind, exec_readPipe]
          cases s.heap p <;> rfl

theorem exec_isOpenBody (slot : Fin fakeFdCount) : (isOpenBody slot).exec (fdEffect a) s =
    some (decide ((s.gFds slot).kind ≠ .unused), s) := by
  unfold isOpenBody
  simp only [Access.exec_bind, exec_readFd, Option.bind_some, Access.exec_pure]

/-- Without interruption a section does what it does as one step. -/
theorem exec_bodyAt {b : FdBody (Io × Pc)} (h : bodyAt l = some b) :
    b.exec (fdEffect a) s = (sectionAt s (s.usable a) l).split := by
  cases l with
  | idle | finished => cases h
  | pipe =>
      cases h
      exact exec_pipeBody
  | readStart slot count =>
      cases h
      exact exec_readBody slot count
  | readWait slot p count =>
      cases h
      exact exec_readWokenBody slot p count
  | writeStart slot src =>
      cases h
      exact exec_writeBody slot src
  | writeWait slot p src total =>
      cases h
      exact exec_writeWokenBody slot p src total
  | dup slot minFd cloexec =>
      cases h
      exact exec_cloneBody slot (exec_allocSlotBody minFd) cloexec .EMFILE
  | dup2Clone oldslot newslot =>
      cases h
      exact exec_cloneBody oldslot (Access.exec_pure _) false .EBUSY
  | fcntl slot cmd arg =>
      cases h
      exact exec_fcntlBody slot cmd arg
  | close slot | dup2Close _ slot =>
      cases h
      simp only [Access.exec_bind, exec_closeBody, sectionAt]
      cases closeLocked s slot <;> rfl
  | dup2Same slot | dup2Check _ slot | isOpen slot =>
      cases h
      simp only [Access.exec_bind, exec_isOpenBody, Option.bind_some, sectionAt, split_some,
        decide_eq_true_eq]
      rfl
  | ready slot =>
      cases h
      simp only [Access.exec_bind, exec_readyBody, sectionAt]
      cases readyLocked s slot <;> rfl

/-! ## Whole sections -/

theorem usable_fresh {p : Nat} (h : s.usable a = some p) : s.heap p = none := by
  have hfree := (Option.filter_eq_some_iff.1 h).2
  simpa using hfree

theorem usable_eq (hfresh : ∀ p, a = some p → s.heap p = none) : s.usable a = a := by
  cases a with
  | none => rfl
  | some p => simp [FdState.usable, hfresh p rfl]

/-- A section that a thread can go through is its next step. -/
theorem fdNext_section (hfresh : ∀ p, a = some p → s.heap p = none)
    (h : sectionAt s a l = some (io, s', l')) :
    fdNext (.step a) s l = some (.section io, s', l') := by
  have hall : a.all (fun p => (s.heap p).isNone) = true := by
    cases a with
    | none => rfl
    | some p => simp [hfresh p rfl]
  cases l with
  | idle | finished => cases h
  | _ => simp only [fdNext, hall, h, if_true]

theorem fd_serves : Serves fdCalls fdProgram where
  outside := by
    intro x l e l' h s
    cases x with
    | some c =>
        cases l with
        | idle =>
            cases h
            exact ⟨.call c, rfl⟩
        | _ => cases h
    | none =>
        cases l with
        | finished r =>
            cases h
            exact ⟨.step none, rfl⟩
        | _ => cases h
  inside := by
    intro l b k s e l' s' hbody hexec
    obtain ⟨b, hb, rfl⟩ := Option.map_eq_some_iff.1 hbody
    rw [show fdCalls.effect k = fdEffect k from rfl, Access.exec_bind, exec_bodyAt hb] at hexec
    cases hsection : sectionAt s (s.usable k) l with
    | none =>
        rw [hsection] at hexec
        cases hexec
    | some o =>
        rw [hsection] at hexec
        cases hexec
        exact ⟨.step (s.usable k), fdNext_section (fun _ => usable_fresh) hsection⟩

theorem fd_completes : Completes fdCalls fdProgram := by
  intro y s l e s' l' h
  rcases fd_next_cases h with ⟨call, rfl, rfl, rfl, rfl⟩ | ⟨r, rfl, rfl, rfl, rfl⟩ |
    ⟨io, allocated, rfl, hfresh, hsection⟩
  · exact .inl ⟨rfl, some call, rfl⟩
  · exact .inl ⟨rfl, none, rfl⟩
  · have hbody : ∃ b, bodyAt l = some b := by
      cases l with
      | idle | finished => cases hsection
      | _ => exact ⟨_, rfl⟩
    obtain ⟨b, hb⟩ := hbody
    refine .inr ⟨_, allocated, congrArg (Option.map _) hb, ?_⟩
    rw [show fdCalls.effect allocated = fdEffect allocated from rfl, Access.exec_bind,
      exec_bodyAt hb, usable_eq hfresh, hsection]
    rfl

/-! ## Runs -/

/-- The threads with the table and its lock. -/
abbrev LockedFds (T : Type*) := State T FdState Pc (Option Nat) Event FdAccess FdAccess.Res

/-- The static initial state, with every thread outside the calls. -/
def lockedStart (T : Type*) : LockedFds T := ⟨⟨.init, false, false, .init⟩, fun _ => .outer .idle⟩

variable {T : Type*} [DecidableEq T]

omit [DecidableEq T] in
theorem quiet_lockedStart : Quiet (lockedStart T) := ⟨rfl, fun _ => ⟨.idle, rfl⟩⟩

/-- A step that does not run `mutexInit` while a call holds the lock. -/
abbrev CalmFd : LockedFds T → T × Act Event → LockedFds T → Prop :=
  CalmStep fdCalls fun _ _ => True

variable {trace : List (T × Act Event)} {c d : LockedFds T} {t : T} {e : Act Event}

/-- What is seen of a calm run, and its last step. -/
theorem calm_seen (h : Run CalmFd (lockedStart T) trace c) : Exclusive fdCalls c ∧
    Run (Step fdProgram) (fdStart T) (shown trace) (view c) := by
  obtain ⟨hexclusive, hrun⟩ := view_run fd_serves quiet_lockedStart.exclusive h
  exact ⟨hexclusive, hrun.mono fun _ _ _ hstep => hstep.1⟩

/-- The descriptor table, in every run in which `mutexInit` does not run while a call holds the
lock, and however the accesses of the calls interleave. When the lock is free, the counts of a live
pipe are the numbers of its ends, open slots point at live pipes and unused ones at none. From one
section to the next, a pipe is released exactly when its last end has gone, only unused descriptors
are handed out as new ones, and slots that are not named are left alone. -/
theorem table_invariant (h : Run CalmFd (lockedStart T) trace c) :
    (c.shared.held = false → TableOk c.shared.data) ∧ ∀ t e d, CalmFd c (t, e) d →
      StepOk (view c).shared ((view c).locals t) (view d).shared ((view d).locals t) := by
  obtain ⟨hexclusive, hrun⟩ := calm_seen h
  obtain ⟨htable, hsteps⟩ := table_run hrun
  refine ⟨fun hfree => ?_, fun t e d hstep => ?_⟩
  · -- while the lock is free, the view shows the data themselves
    have hsettled : c.shared.settled = c.shared.data := by
      unfold Guarded.settled
      rw [hfree]
      rfl
    rw [← hsettled]
    exact htable
  · have hviewed := hexclusive.viewed fd_serves hstep.1 hstep.2.1
    cases e with
    | shows e => exact hsteps t e _ hviewed
    | inner | resets =>
        rw [show view d = view c from hviewed]
        exact stepOk_same (run_inv_run hrun).fd _

/-- One thread opens a pipe and then duplicates its read end. -/
theorem table_invariant_example : ∃ trace c, Run CalmFd (lockedStart Unit) trace c ∧
    c.shared.held = false ∧ (c.shared.data.gFds 1).kind = .pipeWrite ∧ TableOk c.shared.data ∧
    ∀ t e d, CalmFd c (t, e) d →
      StepOk (view c).shared ((view c).locals t) (view d).shared ((view d).locals t) := by
  have hexec : (fdProgram.exec (fdStart Unit) pipeThenDup).any
      (fun r => decide ((r.2.shared.gFds 1).kind = .pipeWrite)) = true := by
    decide
  obtain ⟨seen, v, hrun, hopen⟩ := Program.exec_test hexec
  have hrun : Run (fun c label d => Step fdProgram c label d ∧ True) (view (lockedStart Unit)) seen
      v := hrun.mono fun _ _ _ hstep => ⟨hstep, trivial⟩
  obtain ⟨trace, c, hcalm, -, rfl, hquiet⟩ := realized fd_serves fd_completes quiet_lockedStart hrun
  have hsettled : (view c).shared = c.shared.data := by
    show c.shared.settled = _
    unfold Guarded.settled
    rw [hquiet.held]
    rfl
  rw [hsettled] at hopen
  have htable := table_invariant hcalm
  exact ⟨trace, c, hcalm, hquiet.held, of_decide_eq_true hopen, htable.1 hquiet.held, htable.2⟩

/-- A section of a calm run goes on to its end: it follows no pointer to a released pipe, and the
loop of `fakefd_write` ends. -/
theorem inside_goes_on (h : Run CalmFd (lockedStart T) trace c) (hin : (c.locals t).Inside) :
    ∃ a d, Step fdCalls.program c (t, a) d := by
  obtain ⟨hexclusive, hrun⟩ := calm_seen h
  have hinv := (run_inv_run hrun).fd
  cases hplace : c.locals t with
  | outer | init | note | lock =>
      rw [hplace] at hin
      exact hin.elim
  | inside l k rest =>
      -- a section that has begun is never refused its turn
      have hstep : ∀ {o}, fdCalls.next (.goes k) c.shared (.inside l k rest) = some o →
          ∃ a d, Step fdCalls.program c (t, a) d := by
        rintro ⟨a, s, p⟩ hnext
        refine ⟨a, c.set t s p, .mk (x := .goes k) ?_⟩
        rw [hplace]
        exact hnext
      cases rest with
      | ret v => exact hstep rfl
      | op i next =>
          obtain ⟨b, hbody, hrest⟩ := hexclusive.going t l k _ hplace
          obtain ⟨b, hb, rfl⟩ := Option.map_eq_some_iff.1 hbody
          have hsettled : (view c).shared = c.shared.entered := by
            show c.shared.settled = _
            unfold Guarded.settled
            rw [hexclusive.held hin]
            rfl
          rw [hsettled] at hinv
          have hl : l ≠ .idle ∧ ∀ r, l ≠ .finished r := by
            refine ⟨?_, fun r => ?_⟩
            · rintro rfl
              cases hb
            · rintro rfl
              cases hb
          obtain ⟨o, ho⟩ := section_runs hinv (c.shared.entered.usable k) hl.1 hl.2
          rw [show fdCalls.effect k = fdEffect k from rfl, Access.exec_bind,
            exec_bodyAt hb, ho] at hrest
          -- what is left of the section has a result, so its next access is possible
          cases heffect : fdEffect k i c.shared.data with
          | none =>
              unfold Access.exec at hrest
              rw [heffect] at hrest
              cases hrest
          | some r => exact hstep (next_access heffect)

/-! ## A slot that is handed out twice -/

/-- Two threads make the first calls, both find the lock not initialised, and the second one
initialises it while the first one has found its first slot. -/
def lateInit : List (Bool × Turn (Option Call) (Option Nat)) :=
  [(false, .outside (some (.pipe false))), (false, .goes none),
    (true, .outside (some (.pipe false))), (true, .goes none)] ++
  List.replicate 4 (false, .goes (some 7)) ++ List.replicate 4 (true, .goes (some 8)) ++
  List.replicate 3 (false, .goes none) ++ List.replicate 3 (true, .goes none) ++
  List.replicate 5 (false, .goes none) ++ List.replicate 5 (true, .goes none)

/-- The descriptors that a thread has got from `fakefd_pipe`. -/
def gotPipe (c : LockedFds Bool) (t : Bool) : Option (Int × Int) :=
  match (c.locals t).point with
  | .finished (.pipe r w) => some (r, w)
  | _ => none

/-- Two calls of `fakefd_pipe` return the same descriptors when `mutexInit` comes late. -/
theorem pipes_share_slots : ∃ trace c, Run (Step fdCalls.program) (lockedStart Bool) trace c ∧
    gotPipe c false = some (900, 901) ∧ gotPipe c true = some (900, 901) := by
  have hexec : (fdCalls.program.exec (lockedStart Bool) lateInit).any (fun r =>
      decide (gotPipe r.2 false = some (900, 901)) && decide (gotPipe r.2 true = some (900, 901))) =
      true := by
    decide
  obtain ⟨trace, c, hrun, hgot⟩ := Program.exec_test hexec
  obtain ⟨hfalse, htrue⟩ := Bool.and_eq_true_iff.1 hgot
  exact ⟨trace, c, hrun, of_decide_eq_true hfalse, of_decide_eq_true htrue⟩

/-- A run of whole sections, and one more step, come about in a calm run. -/
theorem calm_realized {seen : List (T × Event)} {v w : Threads.Config T FdState Pc}
    {t : T} {e : Event}
    (h : Run (Step fdProgram) (fdStart T) seen v) (hstep : Step fdProgram v (t, e) w) :
    ∃ trace c d, Run CalmFd (lockedStart T) trace c ∧ view c = v ∧ CalmFd c (t, .shows e) d ∧
      view d = w := by
  have hseen : Run (fun c label d => Step fdProgram c label d ∧ True)
    (view (lockedStart T)) seen v :=
    h.mono fun _ _ _ hstep => ⟨hstep, trivial⟩
  obtain ⟨trace, c, hrun, -, rfl, hquiet⟩ := realized fd_serves fd_completes quiet_lockedStart hseen
  obtain ⟨more, c', d, hinner, hshows, rfl, -⟩ := realized_step fd_completes hquiet hstep
  have hview := (inner_run fd_serves hquiet.exclusive hinner).2.2
  have hmore : Run CalmFd c more c' := hinner.mono fun _ _ _ h =>
    ⟨h.1, h.2.1, fun e he => absurd he (h.2.2 e)⟩
  exact ⟨_, c', d, hrun.append hmore, hview, ⟨hshows, nofun, fun _ _ => trivial⟩, rfl⟩

/-- Two calls hand out descriptors that are not unused: `fakefd_dup2` of an open descriptor to
itself, also in a calm run, and `fakefd_pipe` when `mutexInit` comes late. -/
theorem descriptors_not_fresh :
    (¬ ∀ (trace : List (Unit × Act Event)) (c d : LockedFds Unit) (e : Event) (i : Fin fakeFdCount),
      Run CalmFd (lockedStart Unit) trace c → CalmFd c ((), .shows e) d →
      ((∃ slot, (view c).locals () = .dup2Same slot) ∨
        ∃ oldslot newslot, (view c).locals () = .dup2Clone oldslot newslot) →
      (view d).locals () = .finished (.value (fdOfSlot i)) →
        ((view c).shared.gFds i).kind = .unused) ∧
    ∃ trace c, Run (Step fdCalls.program) (lockedStart Bool) trace c ∧
      gotPipe c false = some (900, 901) ∧ gotPipe c true = some (900, 901) := by
  refine ⟨fun hunused => dup2_same_open ?_, pipes_share_slots⟩
  intro seen v w e i hrun hstep hat hw
  obtain ⟨trace, c, d, hcalm, rfl, hlast, rfl⟩ := calm_realized hrun hstep
  exact hunused trace c d e i hcalm hlast hat hw

end Asnx.FakeFd
