import Asnx.Library.Threads
import Mathlib.Algebra.Group.Nat.Defs

/-!
# Mutexes with an owner

`bionic_pthread_mutex_lock`, `bionic_pthread_mutex_trylock`, `bionic_pthread_mutex_unlock`,
`bionic_pthread_cond_wait` and `bionic_pthread_cond_timedwait` of `source/bionic.c` on mutexes of
type `RECURSIVE` or `ERRORCHECK`, as threads that take atomic steps: every access to a field of a
`SyncSlot` is one. The `Mutex` of a slot is a lock that is held by one thread at a time, and
`condvarWaitTimeout` releases it and has it again when it returns. A mutex that has not been used
has no slot, and its slot gets its type from the memory of the mutex.
-/

namespace Asnx.Bionic.Sync

open Threads

/-- `BIONIC_MUTEX_RECURSIVE` and `BIONIC_MUTEX_ERRORCHECK` -/
inductive MutexKind where
  | recursive
  | errorcheck
  deriving DecidableEq

/-- A `SyncSlot` of a mutex; it has no type where `mutex_type` is `BIONIC_MUTEX_NORMAL`. -/
structure MutexSlot (T : Type*) where
  type : Option MutexKind
  known : Bool
  /-- Who holds the `Mutex`. -/
  m : Option T
  owner : Nat
  depth : Nat

/-- A slot as `slot_get` makes it. -/
def MutexSlot.fresh {T : Type*} : MutexSlot T := ⟨none, false, none, 0, 0⟩

/-- The slots: those of the mutexes, and who holds the `Mutex` in the slot of a condition
variable. -/
structure Slots (T K C : Type*) where
  mutex : K → Option (MutexSlot T)
  condLock : C → Option T

/-- What a call returns. -/
inductive Result where
  | ok
  | eperm
  | enomem
  | einval
  | ebusy
  | edeadlk
  | eagain
  | etimedout
  deriving DecidableEq

/-- A call that may make a slot. A wait carries what the thread owned of the mutex when it
called. -/
inductive Op (C : Type*) where
  | lock
  | trylock
  | wait (c : C) (timed : Bool) (n : Nat)
  deriving DecidableEq

/-- Where a thread is. -/
inductive Pc (K C : Type*) where
  | idle
  /-- At `slot_get`. -/
  | slot (op : Op C) (k : K)
  /-- In `bionic_mutex_detect_static_type`: `mutex_type_known` is read, the two fields are set. -/
  | known (op : Op C) (k : K)
  | setType (op : Op C) (k : K)
  | setKnown (op : Op C) (k : K)
  | type (op : Op C) (k : K)
  | owner (op : Op C) (k : K)
  /-- The owner locks again: the type and the depth are read, the depth is set. -/
  | again (k : K)
  | bump (k : K) (d : Nat)
  | try (op : Op C) (k : K)
  | block (k : K)
  | setDepth (k : K)
  | setOwner (k : K)
  | normalTry (op : Op C) (k : K)
  | normalBlock (k : K)
  | unlockSlot (k : K)
  | unlockType (k : K)
  | unlockNormal (k : K)
  | unlockOwner (k : K)
  | unlockDepth (k : K)
  | unlockLower (k : K) (d : Nat)
  | unlockZero (k : K)
  | unlockClear (k : K)
  | unlockRelease (k : K)
  /-- In `bionic_cond_wait_bridge`, for an owner with depth 1 or above. -/
  | waitDepth (c : C) (k : K) (n : Nat)
  | waitZero (k : K) (n : Nat)
  | waitClear (k : K) (n : Nat)
  | waitSleep (k : K) (n : Nat)
  | waitWake (k : K) (n : Nat)
  | waitSetDepth (k : K) (n : Nat)
  | waitSetOwner (k : K) (n : Nat)
  | waitLower (c : C) (k : K) (n d : Nat)
  | condLock (c : C) (k : K) (n : Nat)
  | condSleep (c : C) (k : K) (n : Nat)
  | condWake (c : C) (k : K) (n : Nat)
  | condUnlock (c : C) (k : K) (n : Nat)
  | waitRead (k : K) (n : Nat)
  | waitRaise (k : K) (n d : Nat)
  | normalSleep (k : K) (n : Nat)
  | normalWake (k : K) (n : Nat)
  deriving DecidableEq

/-- A thread. -/
structure Thread (T K C : Type*) where
  self : T
  pc : Pc K C

/-- What a step is seen to do. -/
inductive Event (K : Type*) where
  | inner
  | lockReturns (k : K) (r : Result)
  | unlockReturns (k : K) (r : Result)
  /-- A wait returns; what the thread owned of the mutex when it called. -/
  | waitReturns (k : K) (n : Nat) (r : Result)
  /-- `bionic_pthread_mutex_unlock` finds a slot without a type. -/
  | untyped (k : K)
  deriving DecidableEq

/-- A call by the guest. -/
inductive Request (K C : Type*) where
  | lock (k : K)
  | trylock (k : K)
  | unlock (k : K)
  | wait (c : C) (k : K) (timed : Bool)

/-- What the environment decides: the next call, whether there is room for a slot and a slot for
the condition variable, whether `bionic_cond_abs_timeout_ns` ends a timed wait, and what a wait
returns. -/
structure Choice (K C : Type*) where
  request : Request K C
  room : Bool
  cond : Bool
  early : Option Result
  result : Result

/-- `UINT32_MAX` -/
def uint32Max : Nat := 2 ^ 32 - 1

variable {T K C : Type*} [DecidableEq T] [DecidableEq K] [DecidableEq C]

/-- How deep a thread with the given id owns a mutex. -/
def Slots.owned (s : Slots T K C) (tid : Nat) (k : K) : Nat :=
  match s.mutex k with
  | none => 0
  | some slot => if slot.owner = tid then slot.depth else 0

/-- The slots with another slot for a mutex. -/
def Slots.put (s : Slots T K C) (k : K) (slot : MutexSlot T) : Slots T K C :=
  { s with mutex := Function.update s.mutex k (some slot) }

def Slots.putCond (s : Slots T K C) (c : C) (holder : Option T) : Slots T K C :=
  { s with condLock := Function.update s.condLock c holder }

/-- What a step comes to. -/
abbrev Outcome (T K C : Type*) := Option (Event K × Slots T K C × Thread T K C)

namespace Thread

def goto (t : Thread T K C) (pc : Pc K C) : Thread T K C := { t with pc := pc }

end Thread

/-- The call returns an error. -/
def fails (op : Op C) (k : K) (r : Result) : Event K :=
  match op with
  | .wait _ _ n => .waitReturns k n r
  | _ => .lockReturns k r

/-- A call begins. -/
def requestStep (tid : T → Nat) (x : Choice K C) (s : Slots T K C) (t : Thread T K C) :
    Outcome T K C :=
  match x.request with
  | .lock k => some (.inner, s, t.goto (.slot .lock k))
  | .trylock k => some (.inner, s, t.goto (.slot .trylock k))
  | .unlock k => some (.inner, s, t.goto (.unlockSlot k))
  | .wait c k timed => some (.inner, s, t.goto (.slot (.wait c timed (s.owned (tid t.self) k)) k))

/-- After `slot_get` has a slot for the mutex. -/
def enter (x : Choice K C) (s : Slots T K C) (t : Thread T K C) (op : Op C) (k : K) :
    Outcome T K C :=
  match op with
  | .wait _ _ _ =>
      if x.cond then some (.inner, s, t.goto (.known op k))
      else some (fails op k .einval, s, t.goto .idle)
  | _ => some (.inner, s, t.goto (.known op k))

/-- `slot_get`, which makes a slot if there is none. -/
def slotStep (x : Choice K C) (s : Slots T K C) (t : Thread T K C) (op : Op C) (k : K) :
    Outcome T K C :=
  match s.mutex k with
  | some _ => enter x s t op k
  | none =>
      if x.room then enter x (s.put k .fresh) t op k
      else
        match op with
        | .wait _ _ _ => some (fails op k .einval, s, t.goto .idle)
        | _ => some (fails op k .enomem, s, t.goto .idle)

/-- `mutex_type` is read, for a timed wait after its timeout has been computed. -/
def typeStep (x : Choice K C) (s : Slots T K C) (t : Thread T K C) (slot : MutexSlot T) (op : Op C)
    (k : K) : Outcome T K C :=
  match op, x.early with
  | .wait _ true n, some r => some (.waitReturns k n r, s, t.goto .idle)
  | _, _ =>
      match slot.type with
      | some _ => some (.inner, s, t.goto (.owner op k))
      | none =>
          match op with
          | .wait _ _ n => some (.inner, s, t.goto (.normalSleep k n))
          | _ => some (.inner, s, t.goto (.normalTry op k))

/-- `owner_tid` is read. -/
def ownerStep (tid : T → Nat) (s : Slots T K C) (t : Thread T K C) (slot : MutexSlot T) (op : Op C)
    (k : K) : Outcome T K C :=
  match op with
  | .wait c _ n =>
      if slot.owner = tid t.self then some (.inner, s, t.goto (.waitDepth c k n))
      else some (.waitReturns k n .einval, s, t.goto .idle)
  | _ =>
      if slot.owner = tid t.self then some (.inner, s, t.goto (.again k))
      else some (.inner, s, t.goto (.try op k))

/-- `mutexTryLock` -/
def tryStep (s : Slots T K C) (t : Thread T K C) (slot : MutexSlot T) (op : Op C) (k : K) :
    Outcome T K C :=
  if slot.m = none then some (.inner, s.put k { slot with m := some t.self }, t.goto (.setDepth k))
  else
    match op with
    | .trylock => some (.lockReturns k .ebusy, s, t.goto .idle)
    | _ => some (.inner, s, t.goto (.block k))

/-- `mutexTryLock` on a mutex without a type -/
def normalTryStep (s : Slots T K C) (t : Thread T K C) (slot : MutexSlot T) (op : Op C) (k : K) :
    Outcome T K C :=
  if slot.m = none then
    some (.lockReturns k .ok, s.put k { slot with m := some t.self }, t.goto .idle)
  else
    match op with
    | .trylock => some (.lockReturns k .ebusy, s, t.goto .idle)
    | _ => some (.inner, s, t.goto (.normalBlock k))

/-- A step at a place that looks at the slot of a mutex. -/
def slotNext (tid : T → Nat) (kind : K → MutexKind) (x : Choice K C) (s : Slots T K C)
    (t : Thread T K C) (slot : MutexSlot T) : Pc K C → Outcome T K C
  | .known op k =>
      some (.inner, s, t.goto (if slot.known then .type op k else .setType op k))
  | .setType op k =>
      some (.inner, s.put k { slot with type := some (kind k) }, t.goto (.setKnown op k))
  | .setKnown op k => some (.inner, s.put k { slot with known := true }, t.goto (.type op k))
  | .type op k => typeStep x s t slot op k
  | .owner op k => ownerStep tid s t slot op k
  | .again k =>
      if slot.type = some .errorcheck then some (.lockReturns k .edeadlk, s, t.goto .idle)
      else if slot.depth = uint32Max then some (.lockReturns k .eagain, s, t.goto .idle)
      else some (.inner, s, t.goto (.bump k slot.depth))
  | .bump k d => some (.lockReturns k .ok, s.put k { slot with depth := d + 1 }, t.goto .idle)
  | .try op k => tryStep s t slot op k
  | .block k =>
      if slot.m = none then some (.inner, s.put k { slot with m := some t.self },
        t.goto (.setDepth k))
      else none
  | .setDepth k => some (.inner, s.put k { slot with depth := 1 }, t.goto (.setOwner k))
  | .setOwner k =>
      some (.lockReturns k .ok, s.put k { slot with owner := tid t.self }, t.goto .idle)
  | .normalTry op k => normalTryStep s t slot op k
  | .normalBlock k =>
      if slot.m = none then
        some (.lockReturns k .ok, s.put k { slot with m := some t.self }, t.goto .idle)
      else none
  | .unlockType k =>
      match slot.type with
      | some _ => some (.inner, s, t.goto (.unlockOwner k))
      | none => some (.untyped k, s, t.goto (.unlockNormal k))
  | .unlockNormal k => some (.unlockReturns k .ok, s.put k { slot with m := none }, t.goto .idle)
  | .unlockOwner k =>
      if slot.owner = tid t.self then some (.inner, s, t.goto (.unlockDepth k))
      else some (.unlockReturns k .eperm, s, t.goto .idle)
  | .unlockDepth k =>
      if slot.depth = 0 then some (.unlockReturns k .eperm, s, t.goto .idle)
      else if slot.depth > 1 then some (.inner, s, t.goto (.unlockLower k slot.depth))
      else some (.inner, s, t.goto (.unlockZero k))
  | .unlockLower k d =>
      some (.unlockReturns k .ok, s.put k { slot with depth := d - 1 }, t.goto .idle)
  | .unlockZero k => some (.inner, s.put k { slot with depth := 0 }, t.goto (.unlockClear k))
  | .unlockClear k => some (.inner, s.put k { slot with owner := 0 }, t.goto (.unlockRelease k))
  | .unlockRelease k => some (.unlockReturns k .ok, s.put k { slot with m := none }, t.goto .idle)
  | .waitDepth c k n =>
      if slot.depth = 0 then some (.waitReturns k n .einval, s, t.goto .idle)
      else if slot.depth > 1 then some (.inner, s, t.goto (.waitLower c k n slot.depth))
      else some (.inner, s, t.goto (.waitZero k n))
  | .waitZero k n => some (.inner, s.put k { slot with depth := 0 }, t.goto (.waitClear k n))
  | .waitClear k n => some (.inner, s.put k { slot with owner := 0 }, t.goto (.waitSleep k n))
  | .waitSleep k n => some (.inner, s.put k { slot with m := none }, t.goto (.waitWake k n))
  | .waitWake k n =>
      if slot.m = none then
        some (.inner, s.put k { slot with m := some t.self }, t.goto (.waitSetDepth k n))
      else none
  | .waitSetDepth k n => some (.inner, s.put k { slot with depth := 1 }, t.goto (.waitSetOwner k n))
  | .waitSetOwner k n =>
      some (.waitReturns k n x.result, s.put k { slot with owner := tid t.self }, t.goto .idle)
  | .waitLower c k n d =>
      some (.inner, s.put k { slot with depth := d - 1 }, t.goto (.condLock c k n))
  | .waitRead k n => some (.inner, s, t.goto (.waitRaise k n slot.depth))
  | .waitRaise k n d =>
      some (.waitReturns k n x.result, s.put k { slot with depth := d + 1 }, t.goto .idle)
  | .normalSleep k n => some (.inner, s.put k { slot with m := none }, t.goto (.normalWake k n))
  | .normalWake k n =>
      if slot.m = none then
        some (.waitReturns k n x.result, s.put k { slot with m := some t.self }, t.goto .idle)
      else none
  | _ => none

/-- A step on the `Mutex` of a condition variable. -/
def condNext (s : Slots T K C) (t : Thread T K C) : Pc K C → Outcome T K C
  | .condLock c k n =>
      if s.condLock c = none then some (.inner, s.putCond c (some t.self),
        t.goto (.condSleep c k n))
      else none
  | .condSleep c k n => some (.inner, s.putCond c none, t.goto (.condWake c k n))
  | .condWake c k n =>
      if s.condLock c = none then some (.inner, s.putCond c (some t.self),
        t.goto (.condUnlock c k n))
      else none
  | .condUnlock c k n => some (.inner, s.putCond c none, t.goto (.waitRead k n))
  | _ => none

/-- The mutex that a place is about. -/
def Pc.key : Pc K C → Option K
  | .idle => none
  | .slot _ k | .known _ k | .setType _ k | .setKnown _ k | .type _ k | .owner _ k | .again k
  | .bump k _ | .try _ k | .block k | .setDepth k | .setOwner k | .normalTry _ k | .normalBlock k
  | .unlockSlot k | .unlockType k | .unlockNormal k | .unlockOwner k | .unlockDepth k
  | .unlockLower k _ | .unlockZero k | .unlockClear k | .unlockRelease k | .waitDepth _ k _
  | .waitZero k _ | .waitClear k _ | .waitSleep k _ | .waitWake k _ | .waitSetDepth k _
  | .waitSetOwner k _ | .waitLower _ k _ _ | .condLock _ k _ | .condSleep _ k _ | .condWake _ k _
  | .condUnlock _ k _ | .waitRead k _ | .waitRaise k _ _ | .normalSleep k _ | .normalWake k _ =>
      some k

/-- The next step of a thread; `tid` is what `bionic_gettid` returns and `kind` the type that is
written in the memory of a mutex. -/
def syncNext (tid : T → Nat) (kind : K → MutexKind) (x : Choice K C) (s : Slots T K C)
    (t : Thread T K C) : Outcome T K C :=
  match t.pc with
  | .idle => requestStep tid x s t
  | .slot op k => slotStep x s t op k
  | .unlockSlot k =>
      match s.mutex k with
      | none => some (.unlockReturns k .einval, s, t.goto .idle)
      | some _ => some (.inner, s, t.goto (.unlockType k))
  | .condLock c k n => condNext s t (.condLock c k n)
  | .condSleep c k n => condNext s t (.condSleep c k n)
  | .condWake c k n => condNext s t (.condWake c k n)
  | .condUnlock c k n => condNext s t (.condUnlock c k n)
  | pc =>
      match pc.key.bind s.mutex with
      | none => none
      | some slot => slotNext tid kind x s t slot pc

/-- The threads that use the mutexes. -/
def mutexes (tid : T → Nat) (kind : K → MutexKind) :
    Program (Slots T K C) (Thread T K C) (Choice K C) (Event K) :=
  ⟨syncNext tid kind⟩

/-- Before the first call: a mutex has no slot, or one that `bionic_pthread_mutex_init` has made. -/
structure Initial (kind : K → MutexKind) (c : Config T (Slots T K C) (Thread T K C)) : Prop where
  self : ∀ t, (c.locals t).self = t
  idle : ∀ t, (c.locals t).pc = .idle
  slots : ∀ k, ∀ slot ∈ c.shared.mutex k, slot = ⟨some (kind k), true, none, 0, 0⟩
  conds : ∀ k, c.shared.condLock k = none

end Asnx.Bionic.Sync
