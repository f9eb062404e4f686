import Asnx.Library.Threads

/-!
# The clock of Unity

`time_update_hook`, `clock_tick`, `clock_thread_main`, `unity_patches_start` and
`unity_patches_stop` of `source/unity_patches.c`, as threads that take atomic steps: any number of
threads of the game that call the hook, the clock thread, and the thread that starts and stops it.
What `clock_gettime` answers is up to the environment, but it does not go back. So are the flag
that a quit has been asked for, what threads can be made, and the pause byte, which like the
counters is in the memory of the game.
-/

namespace Asnx.Unity.Clock

open Threads

/-- Nanoseconds, in 64 bits. -/
abbrev Time := BitVec 64

abbrev Pointer := BitVec 64

/-- What a thread is for. -/
inductive Role (G : Type*) where
  | game (g : G)
  | clock
  | control
  deriving DecidableEq

/-- The life of `g_clock_thread`. -/
inductive ClockThread where
  | closed
  | created
  | started
  | running
  | exited
  deriving DecidableEq

/-- The static variables, and the last answer of `clock_gettime`. -/
structure Shared (G : Type*) where
  monotonic : Time
  gTimeManager : Pointer
  gLastMainTickNs : Time
  gClockBaseNs : Time
  gVsyncCounter : BitVec 64
  gClockLock : Option (Role G)
  gStop : Bool
  gStarted : Bool
  gClockThread : ClockThread

/-- Where a thread is in `clock_tick`, up to the `mutexUnlock` after it. -/
inductive Tick where
  | now
  | base (now : Time)
  | setBase (now : Time)
  | wall (now : Time)
  | body
  | unlock
  deriving DecidableEq

/-- Where a thread is. The clock thread carries its `last_choreo` along. -/
inductive Place where
  | outside
  /-- `time_update_hook` -/
  | manager (tm : Pointer)
  | lastTick (tm : Pointer)
  | setLastTick (tm : Pointer) (now : Time)
  | counts (tm : Pointer)
  | pause (tm : Pointer)
  | lock (tm : Pointer)
  /-- `clock_tick` with the lock held, by the clock thread if there is a `last_choreo`. -/
  | tick (tm : Pointer) (lastChoreo : Option Time) (p : Tick)
  /-- `clock_thread_main` -/
  | asleep
  | loop (lastChoreo : Time)
  | sleep (lastChoreo : Time)
  | vsync (lastChoreo : Time)
  | readTime (lastChoreo : Time)
  | choreo (lastChoreo now : Time)
  | getManager (lastChoreo now : Time)
  | hasTicked (lastChoreo now : Time) (tm : Pointer)
  | stale (lastChoreo now : Time) (tm : Pointer)
  | tryLock (lastChoreo : Time) (tm : Pointer)
  /-- `unity_patches_start` and `unity_patches_stop` -/
  | control
  | startStop
  | startCreate
  | startRun
  | startMark
  | stopSet
  | stopWait
  | stopClose
  | stopMark
  deriving DecidableEq

/-- A thread. -/
structure Thread (G : Type*) where
  self : Role G
  place : Place

inductive Request where
  | hook (tm : Pointer)
  | start
  | stop

/-- What the environment decides: the next call, the answer of `clock_gettime`, and a test or a
result of the system. -/
structure Choice where
  request : Request
  time : Time
  yes : Bool

/-- What a step is seen to do. -/
inductive Event where
  | inner
  /-- The clock thread begins. -/
  | begins
  | choreographer (now : Time)
  /-- `g_update_body` is called, with the time since the base in nanoseconds. -/
  | updateBody (tm : Pointer) (elapsed : Time)
  deriving DecidableEq

variable {G : Type*}

/-- What a step comes to. -/
abbrev Outcome (G : Type*) := Option (Event × Shared G × Thread G)

/-- A step that only moves the thread. -/
def move (s : Shared G) (t : Thread G) (e : Event) (p : Place) : Outcome G :=
    some (e, s, { t with place := p })

/-- `now_ns` -/
def nowNs (x : Choice) (s : Shared G) (t : Thread G) (p : Time → Place) : Outcome G :=
  if s.monotonic ≤ x.time then move { s with monotonic := x.time } t .inner (p x.time) else none

/-- `mutexLock(&g_clock_lock)` -/
def lockStep (s : Shared G) (t : Thread G) (p : Place) : Outcome G :=
  if s.gClockLock = none then move { s with gClockLock := some t.self } t .inner p else none

/-- Where a thread goes after `mutexUnlock`. -/
def afterTick : Option Time → Place
  | none => .outside
  | some lastChoreo => .loop lastChoreo

/-- `clock_tick`, for a library with an update body or without -/
def tickStep (updateBody : Bool) (x : Choice) (s : Shared G) (t : Thread G) (tm : Pointer)
    (lastChoreo : Option Time) :
    Tick → Outcome G
  | .now => nowNs x s t fun now => .tick tm lastChoreo (.base now)
  | .base now =>
      if s.gClockBaseNs = 0 then move s t .inner (.tick tm lastChoreo (.setBase now))
      else move s t .inner (.tick tm lastChoreo (.wall now))
  | .setBase now => move { s with gClockBaseNs := now } t .inner (.tick tm lastChoreo (.wall now))
  | .wall now =>
      if updateBody then move s t (.updateBody tm (now - s.gClockBaseNs))
        (.tick tm lastChoreo .body)
      else move s t .inner (.tick tm lastChoreo .unlock)
  | .body => move s t .inner (.tick tm lastChoreo .unlock)
  | .unlock => move { s with gClockLock := none } t .inner (afterTick lastChoreo)

/-- What the thread that starts and stops the clock does with a request. -/
def requestStep (installed : Bool) (s : Shared G) (t : Thread G) : Request → Outcome G
  | .hook _ => none
  | .start =>
      if s.gStarted = false ∧ installed = true then move s t .inner .startStop else move s t
        .inner .control
  | .stop => if s.gStarted then move s t .inner .stopSet else move s t .inner .control

/-- The next step of a thread. -/
def clockNext (installed updateBody : Bool) (x : Choice) (s : Shared G)
    (t : Thread G) : Outcome G :=
  match t.place with
  | .outside =>
      match x.request with
      | .hook tm => move s t .inner (.manager tm)
      | _ => none
  | .manager tm => move { s with gTimeManager := tm } t .inner (.lastTick tm)
  | .lastTick tm => nowNs x s t (.setLastTick tm)
  | .setLastTick tm now => move { s with gLastMainTickNs := now } t .inner (.counts tm)
  | .counts tm => move s t .inner (.pause tm)
  | .pause tm => if x.yes then move s t .inner .outside else move s t .inner (.lock tm)
  | .lock tm => lockStep s t (.tick tm none .now)
  | .tick tm lastChoreo p => tickStep updateBody x s t tm lastChoreo p
  | .asleep =>
      if s.gClockThread = .started then move { s with gClockThread := .running } t .begins
        (.loop 0) else none
  | .loop lastChoreo =>
      -- jni_quit_requested is read only if g_stop is not set
      if s.gStop = true ∨ x.yes = true then move { s with gClockThread := .exited } t .inner .asleep
      else move s t .inner (.sleep lastChoreo)
  | .sleep lastChoreo => move s t .inner (.vsync lastChoreo)
  | .vsync lastChoreo =>
      move { s with gVsyncCounter := s.gVsyncCounter + 1 } t .inner (.readTime lastChoreo)
  | .readTime lastChoreo => nowNs x s t (.choreo lastChoreo)
  | .choreo lastChoreo now =>
      if 16000000 ≤ now - lastChoreo then move s t (.choreographer now) (.getManager now now)
      else move s t .inner (.getManager lastChoreo now)
  | .getManager lastChoreo now =>
      if s.gTimeManager ≠ 0 ∧ updateBody = true then move s t .inner
        (.hasTicked lastChoreo now s.gTimeManager)
      else move s t .inner (.loop lastChoreo)
  | .hasTicked lastChoreo now tm =>
      if s.gLastMainTickNs ≠ 0 then move s t .inner (.stale lastChoreo now tm) else move s t .inner
        (.loop lastChoreo)
  | .stale lastChoreo now tm =>
      if 100000000 < now - s.gLastMainTickNs then move s t .inner (.tryLock lastChoreo tm)
      else move s t .inner (.loop lastChoreo)
  | .tryLock lastChoreo tm =>
      if s.gClockLock = none then lockStep s t (.tick tm (some lastChoreo) .now) else move s t
        .inner (.loop lastChoreo)
  | .control => requestStep installed s t x.request
  | .startStop => move { s with gStop := false } t .inner .startCreate
  | .startCreate =>
      if x.yes then move { s with gClockThread := .created } t .inner .startRun else move s t
        .inner .control
  | .startRun =>
      if x.yes then move { s with gClockThread := .started } t .inner .startMark
      else move { s with gClockThread := .closed } t .inner .control
  | .startMark => move { s with gStarted := true } t .inner .control
  | .stopSet => move { s with gStop := true } t .inner .stopWait
  | .stopWait => if s.gClockThread = .exited then move s t .inner .stopClose else none
  | .stopClose => move { s with gClockThread := .closed } t .inner .stopMark
  | .stopMark => move { s with gStarted := false } t .inner .control

/-- The threads. -/
def clockProgram (installed updateBody : Bool) : Program (Shared G) (Thread G) Choice Event :=
  ⟨clockNext installed updateBody⟩

/-- Where a thread is at first. -/
def Role.place : Role G → Place
  | .game _ => .outside
  | .clock => .asleep
  | .control => .control

/-- Before the first call. -/
def start (monotonic : Time) : Config (Role G) (Shared G) (Thread G) :=
  ⟨⟨monotonic, 0, 0, 0, 0, none, false, false, .closed⟩, fun r => ⟨r, r.place⟩⟩

end Asnx.Unity.Clock
