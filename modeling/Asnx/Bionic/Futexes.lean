import Asnx.Library.Probing
import Asnx.Library.Threads

/-!
# Futexes

`futex_slot_get` and `futex_operation` of `source/bionic.c`, as threads that take steps: a lookup
in the table of slots is one, under the lock of the registry, and so is what a thread does while it
holds the `Mutex` of a slot, up to `condvarWaitTimeout`. A `FUTEX_WAIT` holds the `Mutex` between
reading the word and going to sleep, while other threads may store into the word. A thread that
sleeps is in the queue of the `CondVar`; timeouts do not end a sleep. The counters that are only
written to the log are left out, and the number of waiting threads stays below `2 ^ 32`.
-/

namespace Asnx.Bionic.Futex

open Threads Probing

/-- The address of a futex word. -/
abbrev Word := BitVec 64

/-- A `FutexSlot` in use. -/
structure FutexSlot (T : Type*) where
  key : Word
  /-- Who holds the `Mutex`. -/
  m : Option T
  /-- The threads that sleep at the `CondVar`. -/
  cv : List T
  waiters : Nat

/-- `FUTEX_SLOTS` -/
def futexSlots : Nat := 4096

/-- `futex_slot_hash` -/
def futexSlotHash (key : Word) : Nat :=
  let x := key >>> 2
  let x := x ^^^ (x >>> 17)
  let x := x ^^^ (x >>> 31)
  (x.setWidth 32).toNat &&& (futexSlots - 1)

/-- The slot that is looked at for a key, by the number of the probe. -/
def futexPlace (key : Word) (probe : Nat) : Nat :=
  (futexSlotHash key + probe) &&& (futexSlots - 1)

/-- The shared state: the futex words, and the slots in use. -/
structure Futexes (T : Type*) where
  memory : Word → Int
  slots : Nat → Option (FutexSlot T)

section Slots

variable {T : Type*}

/-- The keys of the slots in use. -/
def Futexes.keys (s : Futexes T) (i : Nat) : Option Word := (s.slots i).map FutexSlot.key

def Futexes.put (s : Futexes T) (i : Nat) (slot : FutexSlot T) : Futexes T :=
  { s with slots := Function.update s.slots i (some slot) }

/-- A slot as `futex_slot_get` makes it. -/
def FutexSlot.fresh (key : Word) : FutexSlot T := ⟨key, none, [], 0⟩

/-- `futex_slot_get` -/
def futexSlotGet (s : Futexes T) (key : Word) (create : Bool) : Option Nat × Futexes T :=
  match probe s.keys key (futexPlace key) futexSlots 0 with
  | .hit i => (some i, s)
  | .free i => if create then (some i, s.put i (.fresh key)) else (none, s)
  | .full => (none, s)

/-- `condvarWakeOne`: a thread that sleeps goes on, and `pick` says which one. -/
def wakeOne (pick : List T → Nat) (cv : List T) : List T := cv.eraseIdx (pick cv % cv.length)

/-- `condvarWakeOne` several times -/
def wakeSome (pick : List T → Nat) : Nat → List T → List T
  | 0, cv => cv
  | n + 1, cv => wakeSome pick n (wakeOne pick cv)

/-- The number of threads that `FUTEX_WAKE` counts. -/
def wakeCount (requested waiters : Nat) : Nat := if requested < waiters then requested else waiters

/-- The threads that still sleep after `FUTEX_WAKE` has woken `wake_count` of `waiters` threads. -/
def wake (pick : List T → Nat) (wake_count waiters : Nat) (cv : List T) : List T :=
  if wake_count = 1 then wakeOne pick cv
  else if wake_count > 1 then
    if wake_count ≥ waiters then []
    else wakeSome pick wake_count cv
  else cv

end Slots

/-- A `struct timespec`. -/
structure Timespec where
  sec : Int
  nsec : Int
  deriving DecidableEq

/-- A timeout that `FUTEX_WAIT` refuses. -/
def Timespec.Invalid (timeout : Timespec) : Prop :=
  timeout.sec < 0 ∨ timeout.nsec < 0 ∨ timeout.nsec ≥ 1000000000

instance (timeout : Timespec) : Decidable timeout.Invalid := inferInstanceAs (Decidable (_ ∨ _ ∨ _))

/-- Where a thread is. -/
inductive Pc where
  | idle
  /-- At `futex_slot_get` of a wait, and at the lock of the slot `i` that it has got. -/
  | waitSlot (u : Word) (val : Int) (timeout : Option Timespec)
  | waitLock (u : Word) (val : Int) (timeout : Option Timespec) (i : Nat)
  /-- The word had the value, and the thread holds the `Mutex` of the slot. -/
  | waitSleep (u : Word) (val : Int) (timeout : Option Timespec) (i : Nat)
  | asleep (u : Word) (val : Int) (i : Nat)
  /-- At `futex_slot_get` of a wake, and at the lock of the slot. -/
  | wakeSlot (u : Word) (n : Nat)
  | wakeLock (u : Word) (n : Nat) (i : Nat)
  deriving DecidableEq

/-- A thread. -/
structure Thread (T : Type*) where
  self : T
  pc : Pc

/-- What a call returns: a value, or -1 with an `errno`. -/
inductive Result where
  | value (r : Nat)
  | efault
  | enomem
  | eagain
  | einval
  | enosys
  deriving DecidableEq

/-- What a step is seen to do. -/
inductive Event where
  | inner
  | stored (u : Word) (v : Int)
  /-- A wait has found its value in the word. -/
  | checked (u : Word) (val : Int)
  | slept (u : Word) (val : Int)
  | waitReturns (u : Word) (val : Int) (r : Result)
  /-- `FUTEX_WAKE` has woken what it wakes, and returns. -/
  | wakes (u : Word) (n : Nat) (r : Result)
  | fails (r : Result)
  deriving DecidableEq

/-- What a thread does next outside a call. -/
inductive Request where
  | store (u : Word) (v : Int)
  | futex (u : Word) (op : BitVec 32) (val : Int) (timeout : Option Timespec)

/-- What the environment decides: the next request, and which sleeping threads are woken. -/
structure Choice (T : Type*) where
  request : Request
  pick : List T → Nat

variable {T : Type*} [DecidableEq T]

/-- What a step comes to. -/
abbrev Outcome (T : Type*) := Option (Event × Futexes T × Thread T)

def Thread.goto (t : Thread T) (pc : Pc) : Thread T := { t with pc := pc }

/-- `futex_operation` up to the lookup of a slot; `op` is `FUTEX_WAIT`, `FUTEX_WAIT_BITSET`,
`FUTEX_WAKE` or `FUTEX_WAKE_BITSET` under `FUTEX_CMD_MASK`. -/
def futexOperation (s : Futexes T) (t : Thread T) (u : Word) (op : BitVec 32) (val : Int)
    (timeout : Option Timespec) : Outcome T :=
  let cmd := op &&& 0x7f
  if u = 0 then some (.fails .efault, s, t)
  else if cmd = 0 ∨ cmd = 9 then some (.inner, s, t.goto (.waitSlot u val timeout))
  else if cmd = 1 ∨ cmd = 10 then
    if val ≤ 0 then some (.fails (.value 0), s, t)
    else some (.inner, s, t.goto (.wakeSlot u val.toNat))
  else some (.fails .enosys, s, t)

/-- A store, or the beginning of a call. -/
def requestStep (request : Request) (s : Futexes T) (t : Thread T) : Outcome T :=
  match request with
  | .store u v => some (.stored u v, { s with memory := Function.update s.memory u v }, t)
  | .futex u op val timeout => futexOperation s t u op val timeout

/-- A wait locks its slot and reads the word. -/
def waitLockStep (s : Futexes T) (t : Thread T) (slot : FutexSlot T) (u : Word) (val : Int)
    (timeout : Option Timespec) (i : Nat) : Outcome T :=
  if slot.m ≠ none then none
  else if s.memory u ≠ val then some (.waitReturns u val .eagain, s, t.goto .idle)
  else
    some (.checked u val, s.put i { slot with m := some t.self, waiters := slot.waiters + 1 },
      t.goto (.waitSleep u val timeout i))

/-- A wait goes to sleep, or refuses its timeout. -/
def waitSleepStep (s : Futexes T) (t : Thread T) (slot : FutexSlot T) (u : Word) (val : Int)
    (timeout : Option Timespec) (i : Nat) : Outcome T :=
  if ∃ t ∈ timeout, t.Invalid then
    some (.waitReturns u val .einval, s.put i { slot with m := none, waiters := slot.waiters - 1 },
      t.goto .idle)
  else
    some (.slept u val, s.put i { slot with m := none, cv := t.self :: slot.cv },
      t.goto (.asleep u val i))

/-- A thread that has been woken has the `Mutex` of its slot again, and returns. -/
def asleepStep (s : Futexes T) (t : Thread T) (slot : FutexSlot T) (u : Word)
    (val : Int) (i : Nat) :
    Outcome T :=
  if t.self ∈ slot.cv ∨ slot.m ≠ none then none
  else
    some (.waitReturns u val (.value 0), s.put i { slot with waiters := slot.waiters - 1 },
      t.goto .idle)

/-- A wake locks its slot and wakes threads. -/
def wakeLockStep (pick : List T → Nat) (s : Futexes T) (t : Thread T)
    (slot : FutexSlot T) (u : Word)
    (n i : Nat) : Outcome T :=
  if slot.m ≠ none then none
  else
    let count := wakeCount n slot.waiters
    some (.wakes u n (.value count),
      s.put i { slot with cv := wake pick count slot.waiters slot.cv },
      t.goto .idle)

/-- The next step of a thread. -/
def futexNext (x : Choice T) (s : Futexes T) (t : Thread T) : Outcome T :=
  match t.pc with
  | .idle => requestStep x.request s t
  | .waitSlot u val timeout =>
      match futexSlotGet s u true with
      | (none, s) => some (.waitReturns u val .enomem, s, t.goto .idle)
      | (some i, s) => some (.inner, s, t.goto (.waitLock u val timeout i))
  | .waitLock u val timeout i =>
      match s.slots i with
      | none => none
      | some slot => waitLockStep s t slot u val timeout i
  | .waitSleep u val timeout i =>
      match s.slots i with
      | none => none
      | some slot => waitSleepStep s t slot u val timeout i
  | .asleep u val i =>
      match s.slots i with
      | none => none
      | some slot => asleepStep s t slot u val i
  | .wakeSlot u n =>
      match futexSlotGet s u false with
      | (none, s) => some (.wakes u n (.value 0), s, t.goto .idle)
      | (some i, s) => some (.inner, s, t.goto (.wakeLock u n i))
  | .wakeLock u n i =>
      match s.slots i with
      | none => none
      | some slot => wakeLockStep x.pick s t slot u n i

/-- The threads that use futexes. No sleep ends by itself, so a wait without a timeout does not
return after its 16 ms here; in `waits` it does. -/
def futexes : Program (Futexes T) (Thread T) (Choice T) Event := ⟨futexNext⟩

/-- Before the first call there are no slots. -/
structure Initial (c : Config T (Futexes T) (Thread T)) : Prop where
  self : ∀ t, (c.locals t).self = t
  idle : ∀ t, (c.locals t).pc = .idle
  slots : ∀ i, c.shared.slots i = none

end Asnx.Bionic.Futex
