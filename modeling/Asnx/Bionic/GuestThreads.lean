import Asnx.Library.Threads
import Mathlib.Data.List.Basic

/-!
# Guest threads

`bionic_pthread_create`, `bionic_pthread_join`, `bionic_pthread_detach`, `bionic_pthread_exit`,
`guest_thread_reap_detached` and `thread_entry` of `source/bionic.c`, as threads that take atomic
steps: what is done under `g_thread_lock` is one step. A record has the name of the thread that it
is made for, and a name is given to one record only. Stack sizes, core masks, thread-local storage
and the traces have no part in what happens to the records and are left out, except for the read of
the record that the last trace of `bionic_pthread_create` makes.
-/

namespace Asnx.Bionic.Pthread

open Threads

/-- Where a record is. -/
inductive Place where
  /-- Not allocated. -/
  | none
  /-- Allocated and not in the list. -/
  | allocated
  /-- In the list. -/
  | registered
  /-- Taken out of the list. -/
  | unlinked
  | freed
  deriving DecidableEq

/-- What a kernel thread has come to. -/
inductive ThreadState where
  | none
  | created
  | started
  | ended
  deriving DecidableEq

/-- The fields of a `GuestThread` that these functions use. -/
structure GuestThread where
  ret : Nat
  pthreadId : Nat
  detached : Bool
  finished : Bool
  joining : Bool

/-- A record as `calloc` gives it. -/
def GuestThread.zero : GuestThread := ⟨0, 0, false, false, false⟩

/-- What the threads share. -/
structure Shared (T : Type*) where
  /-- `g_guest_threads` -/
  guestThreads : List T
  record : T → GuestThread
  place : T → Place
  thread : T → ThreadState
  handle : T → Nat
  /-- The threads whose handles are open. -/
  opened : List T

/-- Who takes a record out of the list and frees it. -/
inductive Remover where
  | creator
  | joiner
  | reaper
  deriving DecidableEq

/-- What a step is seen to do. -/
inductive Event (T : Type*) where
  | inner
  /-- The record of a new thread, which may be born detached. -/
  | made (g : T) (detached : Bool)
  | added (g : T)
  /-- `threadStart` has succeeded. -/
  | started (g : T)
  /-- `bionic_pthread_create` reads the record after `threadStart`. -/
  | creatorReads (g : T)
  /-- The start routine returns. -/
  | returned (v : Nat)
  /-- `bionic_pthread_exit` is called. -/
  | exited (v : Nat)
  /-- The thread has ended. -/
  | ended
  | unlinked (g : T) (by' : Remover)
  /-- The record is freed, but not by a join. -/
  | freed (g : T) (by' : Remover)
  /-- The record is freed and `bionic_pthread_join` returns 0; what it has stored, if asked to. -/
  | joined (g : T) (v : Option Nat)
  /-- `bionic_pthread_join` returns an error, for the record that it has found. -/
  | joinFailed (g : Option T)
  /-- `bionic_pthread_detach` sets `detached`. -/
  | detaches (g : T)
  /-- `bionic_pthread_detach` returns 0. -/
  | detached (g : T)
  /-- `bionic_pthread_detach` returns an error, for the record that it has found. -/
  | detachFailed (g : Option T)
  deriving DecidableEq

/-- What comes after `guest_thread_reap_detached`. -/
inductive After (T : Type*) where
  | create (detached : Bool)
  | join (t : Nat) (ret : Bool)
  | detach (g : T)
  deriving DecidableEq

/-- Where a thread is inside its current call. -/
inductive Call (T : Type*) where
  | idle
  /-- At the lock of `guest_thread_reap_detached`. -/
  | reap (after : After T)
  | reapClose (g : T) (after : After T)
  | reapFree (g : T) (after : After T)
  | createAlloc (detached : Bool)
  | createThread (g : T)
  | createAdd (g : T)
  | createStart (g : T)
  | createTrace (g : T)
  | createUnlink (g : T)
  | createClose (g : T)
  | createFree (g : T)
  | joinFind (t : Nat) (ret : Bool)
  | joinWait (g : T) (ret : Bool)
  | joinUndo (g : T)
  | joinRead (g : T) (ret : Bool)
  | joinUnlink (g : T) (v : Option Nat)
  | joinClose (g : T) (v : Option Nat)
  | joinFree (g : T) (v : Option Nat)
  | detachFind (t : Nat)
  deriving DecidableEq

/-- How far a thread is on its way from `thread_entry` to its end. -/
inductive Stage (T : Type*) where
  /-- Not yet running. -/
  | unborn
  /-- In its start routine. -/
  | running
  /-- The start routine has returned; the destructors of `thread_entry` are run. -/
  | returned (v : Nat)
  /-- In `bionic_pthread_exit`, with the record that has been found; the destructors are run. -/
  | exiting (v : Nat) (g : Option T)
  /-- About to end. -/
  | stored
  | ended
  deriving DecidableEq

/-- A thread. -/
structure Local (T : Type*) where
  self : T
  stage : Stage T
  call : Call T

/-- What guest code does next. -/
inductive Request where
  /-- `bionic_pthread_create`, with or without an `out` and an `fn` -/
  | create (given detached : Bool)
  /-- `bionic_pthread_join`, with or without a `ret` -/
  | join (t : Nat) (ret : Bool)
  | detach (t : Nat)
  | exit (v : Nat)
  /-- It returns. -/
  | finish (v : Nat)

/-- What the environment decides: what guest code does next, which waits for an ended thread
succeed, whether a call whose failure is tested succeeds, and a new thread and its handle. -/
structure Choice (T : Type*) where
  request : Request
  waits : T → Bool
  succeeds : Bool
  thread : T
  handle : Nat

namespace Shared

variable {T : Type*}

/-- `guest_thread_find_locked` -/
def find (s : Shared T) (id : Nat) : Option T :=
  s.guestThreads.find? fun g => (s.record g).pthreadId = id

/-- The loop of `guest_thread_reap_detached` over the list, for the thread with the handle
`self`. -/
def victim (s : Shared T) (self : Nat) (waits : T → Bool) : Option T :=
  s.guestThreads.find? fun g => (s.record g).detached ∧ ¬ (s.record g).joining ∧
    (s.record g).pthreadId ≠ self ∧ s.thread g = .ended ∧ waits g

variable [DecidableEq T]

@[simp] def setRecord (s : Shared T) (g : T) (r : GuestThread) : Shared T :=
  { s with record := Function.update s.record g r }

@[simp] def setPlace (s : Shared T) (g : T) (p : Place) : Shared T :=
  { s with place := Function.update s.place g p }

@[simp] def setThread (s : Shared T) (g : T) (p : ThreadState) : Shared T :=
  { s with thread := Function.update s.thread g p }

/-- `calloc` -/
@[simp] def alloc (s : Shared T) (g : T) (detached : Bool) : Shared T :=
  (s.setRecord g { GuestThread.zero with detached := detached }).setPlace g .allocated

/-- `threadCreate`, and the handle as `pthread_id` -/
@[simp] def spawn (s : Shared T) (g : T) (handle : Nat) : Shared T :=
  { (s.setRecord g { s.record g with pthreadId := handle }).setThread g .created with
    handle := Function.update s.handle g handle
    opened := g :: s.opened }

/-- `guest_thread_add` -/
@[simp] def add (s : Shared T) (g : T) : Shared T :=
  { s.setPlace g .registered with guestThreads := g :: s.guestThreads }

/-- `guest_thread_remove_locked` -/
@[simp] def unlink (s : Shared T) (g : T) : Shared T :=
  { s.setPlace g .unlinked with guestThreads := s.guestThreads.erase g }

/-- `threadClose` -/
@[simp] def close (s : Shared T) (g : T) : Shared T := { s with opened := s.opened.erase g }

/-- `free` -/
@[simp] def free (s : Shared T) (g : T) : Shared T := s.setPlace g .freed

@[simp] def setJoining (s : Shared T) (g : T) (b : Bool) : Shared T :=
  s.setRecord g { s.record g with joining := b }

@[simp] def setDetached (s : Shared T) (g : T) : Shared T :=
  s.setRecord g { s.record g with detached := true }

/-- The last lock of `thread_entry` and of `bionic_pthread_exit` -/
@[simp] def store (s : Shared T) (g : T) (v : Nat) : Shared T :=
  s.setRecord g { s.record g with ret := v, finished := true }

end Shared

section Functions

variable {T : Type*} [DecidableEq T]

/-- What a step comes to. -/
abbrev Outcome (T : Type*) := Option (Event T × Shared T × Local T)

def Local.goto (l : Local T) (call : Call T) : Local T := { l with call := call }

def Local.stageTo (l : Local T) (stage : Stage T) : Local T := { l with stage := stage }

/-- Guest code returns: from the start routine, or from the last of the destructors. -/
def finishStep (v : Nat) (s : Shared T) (l : Local T) : Outcome T :=
  match l.stage with
  | .running =>
      -- the end of a thread that these functions have not made is not theirs
      if s.place l.self = .none then none else some (.returned v, s, l.stageTo (.returned v))
  | .returned v => some (.inner, s.store l.self v, l.stageTo .stored)
  | .exiting v (some g) => some (.inner, s.store g v, l.stageTo .stored)
  | .exiting _ none => some (.inner, s, l.stageTo .stored)
  | _ => none

/-- Guest code makes a call or returns. -/
def requestStep (r : Request) (s : Shared T) (l : Local T) : Outcome T :=
  match r with
  | .create given detached =>
      some (.inner, s, l.goto (if given then .reap (.create detached) else .idle))
  | .join t ret =>
      if t = 0 ∨ t = s.handle l.self then some (.joinFailed none, s, l)
      else some (.inner, s, l.goto (.reap (.join t ret)))
  | .detach t =>
      if t = 0 then some (.detachFailed none, s, l) else some (.inner, s, l.goto (.detachFind t))
  | .exit v => some (.exited v, s, l.stageTo (.exiting v (s.find (s.handle l.self))))
  | .finish v => finishStep v s l

/-- A thread outside these functions. -/
def idleStep (x : Choice T) (s : Shared T) (l : Local T) : Outcome T :=
  match l.stage with
  | .unborn => if s.thread l.self = .started then some (.inner, s, l.stageTo .running) else none
  | .stored => some (.ended, s.setThread l.self .ended, l.stageTo .ended)
  | .ended => none
  | _ => requestStep x.request s l

/-- The lock of `guest_thread_reap_detached`. -/
def reapStep (x : Choice T) (s : Shared T) (l : Local T) (after : After T) : Outcome T :=
  match s.victim (s.handle l.self) x.waits with
  | some g => some (.unlinked g .reaper, s.unlink g, l.goto (.reapClose g after))
  | none =>
      match after with
      | .create detached => some (.inner, s, l.goto (.createAlloc detached))
      | .join t ret => some (.inner, s, l.goto (.joinFind t ret))
      | .detach g => some (.detached g, s, l.goto .idle)

/-- `calloc` of `bionic_pthread_create`. -/
def allocStep (x : Choice T) (s : Shared T) (l : Local T) (detached : Bool) : Outcome T :=
  if x.succeeds then
    if s.place x.thread = .none ∧ s.thread x.thread = .none then
      some (.made x.thread detached, s.alloc x.thread detached, l.goto (.createThread x.thread))
    else none
  else some (.inner, s, l.goto .idle)

/-- `threadCreate`; the handle is none that is open. -/
def threadStep (x : Choice T) (s : Shared T) (l : Local T) (g : T) : Outcome T :=
  if x.succeeds then
    if x.handle ∈ s.opened.map s.handle then none
    else some (.inner, s.spawn g x.handle,
      l.goto (if x.handle = 0 then .createClose g else .createAdd g))
  else some (.inner, s, l.goto (.createFree g))

/-- `threadStart` -/
def startStep (x : Choice T) (s : Shared T) (l : Local T) (g : T) : Outcome T :=
  if x.succeeds then some (.started g, s.setThread g .started, l.goto (.createTrace g))
  else some (.inner, s, l.goto (.createUnlink g))

/-- The first lock of `bionic_pthread_join` after the reaper. -/
def joinFindStep (s : Shared T) (l : Local T) (t : Nat) (ret : Bool) : Outcome T :=
  match s.find t with
  | none => some (.joinFailed none, s, l.goto .idle)
  | some g =>
      if (s.record g).detached ∨ (s.record g).joining then some
        (.joinFailed (some g), s, l.goto .idle)
      else some (.inner, s.setJoining g true, l.goto (.joinWait g ret))

/-- `threadWaitForExit`, which may fail. -/
def waitStep (x : Choice T) (s : Shared T) (l : Local T) (g : T) (ret : Bool) : Outcome T :=
  if x.succeeds then
    if s.thread g = .ended then some (.inner, s, l.goto (.joinRead g ret)) else none
  else some (.inner, s, l.goto (.joinUndo g))

/-- The lock of `bionic_pthread_detach`. -/
def detachFindStep (s : Shared T) (l : Local T) (t : Nat) : Outcome T :=
  match s.find t with
  | none => some (.detachFailed none, s, l.goto .idle)
  | some g =>
      if (s.record g).detached ∨ (s.record g).joining then
        some (.detachFailed (some g), s, l.goto .idle)
      else some (.detaches g, s.setDetached g, l.goto (.reap (.detach g)))

/-- The next step of a thread. -/
def guestNext (x : Choice T) (s : Shared T) (l : Local T) : Outcome T :=
  match l.call with
  | .idle => idleStep x s l
  | .reap after => reapStep x s l after
  | .reapClose g after => some (.inner, s.close g, l.goto (.reapFree g after))
  | .reapFree g after => some (.freed g .reaper, s.free g, l.goto (.reap after))
  | .createAlloc detached => allocStep x s l detached
  | .createThread g => threadStep x s l g
  | .createAdd g => some (.added g, s.add g, l.goto (.createStart g))
  | .createStart g => startStep x s l g
  | .createTrace g => some (.creatorReads g, s, l.goto .idle)
  | .createUnlink g => some (.unlinked g .creator, s.unlink g, l.goto (.createClose g))
  | .createClose g => some (.inner, s.close g, l.goto (.createFree g))
  | .createFree g => some (.freed g .creator, s.free g, l.goto .idle)
  | .joinFind t ret => joinFindStep s l t ret
  | .joinWait g ret => waitStep x s l g ret
  | .joinUndo g => some (.joinFailed (some g), s.setJoining g false, l.goto .idle)
  | .joinRead g ret =>
      some (.inner, s, l.goto (.joinUnlink g (if ret then some (s.record g).ret else none)))
  | .joinUnlink g v => some (.unlinked g .joiner, s.unlink g, l.goto (.joinClose g v))
  | .joinClose g v => some (.inner, s.close g, l.goto (.joinFree g v))
  | .joinFree g v => some (.joined g v, s.free g, l.goto .idle)
  | .detachFind t => detachFindStep s l t

/-- The threads of the guest. -/
def guestThreads : Program (Shared T) (Local T) (Choice T) (Event T) := ⟨guestNext⟩

/-- Before the first call: the threads that run are none of these functions' making. -/
structure Initial (c : Config T (Shared T) (Local T)) : Prop where
  self : ∀ t, (c.locals t).self = t
  idle : ∀ t, (c.locals t).call = .idle
  empty : c.shared.guestThreads = []
  places : ∀ t, c.shared.place t = .none
  foreign : ∀ t ∈ c.shared.opened, c.shared.thread t = .started ∧ (c.locals t).stage = .running
  others : ∀ t, t ∉ c.shared.opened → c.shared.thread t = .none ∧ (c.locals t).stage = .unborn
  handles : (c.shared.opened.map c.shared.handle).Nodup

end Functions

end Asnx.Bionic.Pthread
