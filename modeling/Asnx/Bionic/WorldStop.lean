import Mathlib.Logic.Function.Basic
import Mathlib.Data.Fin.Basic

/-!
# Stopping the world

`bionic_pthread_kill` of `source/bionic.c` with the two signals by which the collector stops and
restarts the other threads: `boehm_horizon_suspend`, `boehm_horizon_restart` and the table of paused
threads. A thread is named by its handle, which is what its pthread id is. What a call reads of the
guest and what the kernel answers are arguments. The copy of the registers on the stack of the
paused thread is left out.
-/

namespace Asnx.Bionic.Boehm

abbrev Word := BitVec 64
abbrev Handle := BitVec 32

/-- `BOEHM_PAUSED_MAX` -/
abbrev boehmPausedMax : Nat := 64
/-- `OFF_IL2CPP_GC_SUSPEND_HANDLER` -/
def offIl2cppGcSuspendHandler : Word := 0x010AE688
/-- `OFF_IL2CPP_GC_RESTART_HANDLER` -/
def offIl2cppGcRestartHandler : Word := 0x010AE7FC

/-- A `BoehmThreadRecordCompat` in the memory of the collector. -/
structure BoehmThreadRecord where
  pthreadId : Word
  suspendState : Word
  stackPtr : Word
  deriving DecidableEq

/-- A `BoehmPausedThread`. -/
structure BoehmPausedThread where
  used : Bool
  pthreadId : Word
  il2cppBase : Word
  record : Word
  marker : Word

/-- An entry of zero bytes. -/
def BoehmPausedThread.zero : BoehmPausedThread := ⟨false, 0, 0, 0, 0⟩

/-- The table `g_boehm_paused`, the threads that it pauses, and the number of posts to the semaphore
on which the collector waits. -/
structure State where
  gBoehmPaused : Fin boehmPausedMax → BoehmPausedThread
  paused : Handle → Bool
  acks : Nat

/-- Before the first call. -/
def State.init : State := ⟨fun _ => .zero, fun _ => false, 0⟩

/-- The part of a `MemoryInfo` that is read. -/
structure MemoryInfo where
  addr : Word
  size : Word
  writable : Bool

/-- What a call finds. -/
structure Outcomes where
  /-- `svcGetThreadId` succeeds, in `bionic_pthread_kill` and once more below it. -/
  known : Bool
  validates : Bool
  /-- `bionic_pthread_self` -/
  self : Word
  /-- The chains of the collector's thread table, with their null pointers, and its records. -/
  table : BitVec 8 → List Word
  records : Word → BoehmThreadRecord
  worldMarker : Word
  restartAckEnabled : Bool
  /-- `svcSetThreadActivity` pauses a thread that runs. -/
  pauses : Bool
  /-- The stack pointer that `svcGetThreadContext3` yields, and `sizeof(ThreadContext)`. -/
  context : Option Word
  contextBytes : Word
  /-- What `svcQueryMemory` yields for an address. -/
  queries : Word → Option MemoryInfo
  /-- `bionic_sem_post` succeeds. -/
  posts : Bool
  /-- `svcSetThreadActivity` lets a paused thread run, after a failure and in a restart. -/
  unpauses : Bool
  resumes : Bool

/-- What the calls return: 0 or an `errno`. -/
inductive Result where
  | ok
  | esrch
  | einval
  | eagain
  deriving DecidableEq

/-- What a call comes to, with the records as it leaves them. -/
structure Return where
  result : Result
  state : State
  records : Word → BoehmThreadRecord

/-- `(Handle)tid` -/
def handleOf (tid : Word) : Handle := tid.setWidth 32

/-- The pthread id of a thread. -/
def idOf (thread : Handle) : Word := thread.setWidth 64

def State.setEntry (s : State) (i : Fin boehmPausedMax) (e : BoehmPausedThread) : State :=
  { s with gBoehmPaused := Function.update s.gBoehmPaused i e }

/-- `ps->used=0` -/
def State.release (s : State) (i : Fin boehmPausedMax) : State :=
  s.setEntry i { s.gBoehmPaused i with used := false }

/-- `svcSetThreadActivity`, which fails for a thread that is as it should become. -/
def State.setActivity (s : State) (thread : Handle) (paused ok : Bool) : Option State :=
  if ok ∧ s.paused thread ≠ paused then
    some { s with paused := Function.update s.paused thread paused }
  else none

/-- `svcSetThreadActivity` after a failure, whose result is not looked at. -/
def State.unpause (s : State) (thread : Handle) (ok : Bool) : State :=
  (s.setActivity thread false ok).getD s

/-- `boehm_find_record` -/
def boehmFindRecord (o : Outcomes) (tid : Word) : Option Word :=
  let h := ((tid >>> 8).setWidth 32 : BitVec 32) ^^^ tid.setWidth 32
  let h := h ^^^ (h >>> 16)
  ((o.table (h.setWidth 8)).takeWhile (· ≠ 0)).find? fun r => (o.records r).pthreadId = tid

/-- `boehm_pause_find` -/
def boehmPauseFind (s : State) (tid : Word) : Option (Fin boehmPausedMax) :=
  Fin.find? fun i => (s.gBoehmPaused i).used && decide ((s.gBoehmPaused i).pthreadId = tid)

/-- The first entry that is not in use. -/
def boehmPauseFree (s : State) : Option (Fin boehmPausedMax) :=
  Fin.find? fun i => !(s.gBoehmPaused i).used

/-- `boehm_pause_alloc` -/
def boehmPauseAlloc (s : State) (tid : Word) : Option (Fin boehmPausedMax × State) :=
  match boehmPauseFind s tid with
  | some i => some (i, s)
  | none =>
      match boehmPauseFree s with
      | some i =>
          some (i, s.setEntry i { BoehmPausedThread.zero with used := true, pthreadId := tid })
      | none => none

/-- `boehm_validate_thread` -/
def boehmValidateThread (tid : Word) (ok : Bool) : Option Result :=
  if tid = 0 ∨ !ok then some .esrch else none

/-- Where the registers are put on the stack of a thread. -/
def snapshot (o : Outcomes) (sp : Word) : Word := (sp - o.contextBytes) &&& ~~~0xf#64

/-- The registers fit on the stack. -/
def snapshotFits (o : Outcomes) (sp : Word) : Bool :=
  match o.queries (snapshot o sp) with
  | none => false
  | some mi => !decide (snapshot o sp < mi.addr) && !decide (sp > mi.addr + mi.size) && mi.writable

/-- The record of a thread that is suspended. -/
def suspended (o : Outcomes) (rec sp : Word) : Word → BoehmThreadRecord :=
  Function.update o.records rec
    { o.records rec with stackPtr := snapshot o sp, suspendState := o.worldMarker }

/-- `boehm_horizon_suspend` from the pause on. -/
def suspendPaused (s : State) (o : Outcomes) (tid base rec : Word) : Return :=
  match o.context with
  | none => ⟨.einval, s.unpause (handleOf tid) o.unpauses, o.records⟩
  | some sp =>
      match boehmPauseAlloc s tid with
      | none => ⟨.eagain, s.unpause (handleOf tid) o.unpauses, o.records⟩
      | some (i, s) =>
          let s := s.setEntry i
            { s.gBoehmPaused i with il2cppBase := base, record := rec, marker := o.worldMarker }
          if !snapshotFits o sp then
            ⟨.einval, (s.release i).unpause (handleOf tid) o.unpauses, o.records⟩
          else if !o.posts then
            ⟨.einval, (s.release i).unpause (handleOf tid) o.unpauses, suspended o rec sp⟩
          else ⟨.ok, { s with acks := s.acks + 1 }, suspended o rec sp⟩

/-- `boehm_horizon_suspend` -/
def boehmHorizonSuspend (s : State) (o : Outcomes) (tid base : Word) : Return :=
  match boehmValidateThread tid o.validates with
  | some e => ⟨e, s, o.records⟩
  | none =>
      if tid = o.self then ⟨.einval, s, o.records⟩
      else
        match boehmFindRecord o tid with
        | none => ⟨.esrch, s, o.records⟩
        | some rec =>
            match s.setActivity (handleOf tid) true o.pauses with
            | none => ⟨.einval, s, o.records⟩
            | some s => suspendPaused s o tid base rec

/-- `memset(ps,0,sizeof(*ps))`, if there is an entry. -/
def State.clear (s : State) : Option (Fin boehmPausedMax) → State
  | none => s
  | some i => s.setEntry i .zero

/-- `boehm_horizon_restart` from the last kernel call on. -/
def restartResume (s : State) (o : Outcomes) (tid : Word) (ps : Option (Fin boehmPausedMax))
    (records : Word → BoehmThreadRecord) : Return :=
  match s.setActivity (handleOf tid) false o.resumes with
  | none => ⟨.einval, s, records⟩
  | some s => ⟨.ok, s.clear ps, records⟩

/-- The entry for which a restart posts. -/
def restartAcks (s : State) (o : Outcomes) (tid base : Word) : Option (Fin boehmPausedMax) :=
  match boehmPauseFind s tid with
  | none => none
  | some i =>
      if (s.gBoehmPaused i).il2cppBase = base ∧ (s.gBoehmPaused i).record ≠ 0 ∧
        o.restartAckEnabled then
        some i
      else none

/-- The record of a thread that is restarted. -/
def restarted (o : Outcomes) (ps : BoehmPausedThread) : Word → BoehmThreadRecord :=
  Function.update o.records ps.record { o.records ps.record with suspendState := ps.marker ||| 1 }

/-- `boehm_horizon_restart` -/
def boehmHorizonRestart (s : State) (o : Outcomes) (tid base : Word) : Return :=
  match boehmValidateThread tid o.validates with
  | some e => ⟨e, s, o.records⟩
  | none =>
      if tid = o.self then ⟨.einval, s, o.records⟩
      else
        match restartAcks s o tid base with
        | none => restartResume s o tid (boehmPauseFind s tid) o.records
        | some i =>
            if !o.posts then ⟨.einval, s, restarted o (s.gBoehmPaused i)⟩
            else
              restartResume { s with acks := s.acks + 1 } o tid (boehmPauseFind s tid)
                (restarted o (s.gBoehmPaused i))

/-- The base of the library of the collector, and the signals that it has recorded. -/
structure Signals where
  base : Word
  suspendSig : Int
  restartSig : Int
  suspendHandler : Word
  restartHandler : Word

/-- `bionic_pthread_kill` -/
def bionicPthreadKill (s : State) (o : Outcomes) (signals : Signals) (t : Word)
    (sig : Int) : Return :=
  match boehmValidateThread t o.known with
  | some e => ⟨e, s, o.records⟩
  | none =>
      if sig = 0 then ⟨.ok, s, o.records⟩
      else if signals.base ≠ 0 ∧ sig = signals.suspendSig ∧
          signals.suspendHandler = signals.base + offIl2cppGcSuspendHandler then
        boehmHorizonSuspend s o t signals.base
      else if signals.base ≠ 0 ∧ sig = signals.restartSig ∧
          signals.restartHandler = signals.base + offIl2cppGcRestartHandler then
        boehmHorizonRestart s o t signals.base
      else ⟨.einval, s, o.records⟩

end Asnx.Bionic.Boehm
