import Asnx.Library.Threads

/-!
# Semaphores

`bionic_sem_post`, `bionic_sem_wait`, `bionic_sem_trywait`, `bionic_sem_timedwait` and
`bionic_sem_getvalue` of `source/bionic.c`, as threads that take atomic steps: every access to the
count of the `SyncSlot` is one. The slot is there from `bionic_sem_init` on, so `slot_get` finds
it. A wait on the condition variable lets go of the `Mutex` of the slot and sleeps in one step, and
has the `Mutex` again when it returns.
-/

namespace Asnx.Bionic.Semaphore

open Threads

/-- An `int`. -/
abbrev Count := BitVec 32

/-- `INT_MAX` -/
def intMax : Count := 0x7fffffff

/-- The `SyncSlot` of a semaphore: who holds its `Mutex`, who sleeps on its `CondVar`, and its
count. -/
structure SyncSlot (T : Type*) where
  m : Option T
  cv : List T
  count : Count

/-- The slot as `bionic_sem_init` leaves it: `s->count=(int)value`. -/
def semInit {T : Type*} (value : BitVec 32) : SyncSlot T := ⟨none, [], value⟩

/-- The three calls that wait. -/
inductive Wait where
  | wait
  | trywait
  | timedwait
  deriving DecidableEq

/-- The calls. -/
inductive Op where
  | post
  | wait (w : Wait)
  | getvalue
  deriving DecidableEq

/-- What the calls set `errno` to. -/
inductive Error where
  | einval
  | eagain
  | etimedout
  deriving DecidableEq

/-- What a call returns, with the value that `bionic_sem_getvalue` stores. -/
inductive Result where
  | posted
  | waited (w : Wait)
  | value (n : Count)
  | fails (op : Op) (e : Error)
  deriving DecidableEq

/-- Where a thread is. -/
inductive Pc where
  | idle
  | lock (op : Op)
  /-- `s->count<=0` -/
  | test (w : Wait)
  /-- `s->count++`, `s->count--` and `*v=s->count` read the count, the first two then set it. -/
  | load (op : Op)
  | store (op : Op) (n : Count)
  | wakeOne
  /-- `bionic_sem_abs_timeout_ns` -/
  | timeout
  | sleep (w : Wait)
  | wake (w : Wait)
  /-- The time of a timed wait is over. -/
  | expired
  | unlock (r : Result)
  deriving DecidableEq

/-- A thread. -/
structure Thread (T : Type*) where
  self : T
  pc : Pc

/-- A call by the guest; `bionic_sem_getvalue` may be given no place for the value. -/
inductive Request where
  | call (op : Op)
  | getvalueNull

/-- What the environment decides: the next call, what `bionic_sem_abs_timeout_ns` comes to, whether
the time of a sleeping thread is over, and which of the threads that sleep is woken. -/
structure Choice where
  request : Request
  timeout : Option Error
  expires : Bool
  pick : Nat

/-- What a step is seen to do. -/
inductive Event where
  | inner
  | returns (r : Result)
  deriving DecidableEq

variable {T : Type*} [DecidableEq T]

/-- What a step comes to. -/
abbrev Outcome (T : Type*) := Option (Event × SyncSlot T × Thread T)

def Thread.goto (t : Thread T) (pc : Pc) : Thread T := { t with pc := pc }

/-- The thread takes the `Mutex`. -/
def take (s : SyncSlot T) (t : Thread T) (pc : Pc) : Outcome T :=
  if s.m = none then some (.inner, { s with m := some t.self }, t.goto pc) else none

/-- `condvarWakeOne` -/
def condvarWakeOne (s : SyncSlot T) (pick : Nat) : SyncSlot T :=
  { s with cv := s.cv.eraseIdx (pick % s.cv.length) }

/-- After the `Mutex` has been taken. -/
def Op.start : Op → Pc
  | .post => .load .post
  | .wait w => .test w
  | .getvalue => .load .getvalue

/-- `s->count<=0`, and where a thread goes then. -/
def testStep (s : SyncSlot T) (t : Thread T) (w : Wait) : Outcome T :=
  if s.count.sle 0 then
    match w with
    | .wait => some (.inner, s, t.goto (.sleep .wait))
    | .trywait => some (.inner, s, t.goto (.unlock (.fails (.wait .trywait) .eagain)))
    | .timedwait => some (.inner, s, t.goto .timeout)
  else some (.inner, s, t.goto (.load (.wait w)))

/-- The count is read. -/
def loadStep (s : SyncSlot T) (t : Thread T) : Op → Outcome T
  | .getvalue => some (.inner, s, t.goto (.unlock (.value s.count)))
  | op => some (.inner, s, t.goto (.store op s.count))

/-- The count is set. -/
def storeStep (s : SyncSlot T) (t : Thread T) (n : Count) : Op → Outcome T
  | .post => some (.inner, { s with count := n + 1 }, t.goto .wakeOne)
  | .wait w => some (.inner, { s with count := n - 1 }, t.goto (.unlock (.waited w)))
  | .getvalue => none

/-- A thread that sleeps goes on when it is woken or its time is over. -/
def wakeStep (x : Choice) (s : SyncSlot T) (t : Thread T) (w : Wait) : Outcome T :=
  if t.self ∉ s.cv then take s t (.test w)
  else if w = .timedwait ∧ x.expires then
    some (.inner, { s with cv := s.cv.erase t.self }, t.goto .expired)
  else none

/-- The next step of a thread. -/
def semaphoreNext (x : Choice) (s : SyncSlot T) (t : Thread T) : Outcome T :=
  match t.pc with
  | .idle =>
      match x.request with
      | .call op => some (.inner, s, t.goto (.lock op))
      | .getvalueNull => some (.returns (.fails .getvalue .einval), s, t)
  | .lock op => take s t op.start
  | .test w => testStep s t w
  | .load op => loadStep s t op
  | .store op n => storeStep s t n op
  | .wakeOne => some (.inner, condvarWakeOne s x.pick, t.goto (.unlock .posted))
  | .timeout =>
      match x.timeout with
      | some e => some (.inner, s, t.goto (.unlock (.fails (.wait .timedwait) e)))
      | none => some (.inner, s, t.goto (.sleep .timedwait))
  | .sleep w => some (.inner, { s with m := none, cv := s.cv ++ [t.self] }, t.goto (.wake w))
  | .wake w => wakeStep x s t w
  | .expired => take s t (.unlock (.fails (.wait .timedwait) .etimedout))
  | .unlock r => some (.returns r, { s with m := none }, t.goto .idle)

/-- The threads that use the semaphore. -/
def semaphore : Program (SyncSlot T) (Thread T) Choice Event := ⟨semaphoreNext⟩

/-- The semaphore has just been initialised with a value, and no other call has begun. -/
structure Initial (value : BitVec 32) (c : Config T (SyncSlot T) (Thread T)) : Prop where
  self : ∀ t, (c.locals t).self = t
  idle : ∀ t, (c.locals t).pc = .idle
  shared : c.shared = semInit value

end Asnx.Bionic.Semaphore
