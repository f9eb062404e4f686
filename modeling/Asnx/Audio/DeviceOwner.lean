import Asnx.Audio.Streams
import Asnx.Library.Threads

/-!
# The owner of the output device

`aaudio_bridge_builder_open_stream` and `aaudio_bridge_stream_close` of `source/aaudio_bridge.c`,
as threads that take atomic steps. What is allocated and what the device answers is up to the
environment. A stream is the address of its `NxAAudioStream`; it is valid while it is allocated,
since `close` clears `magic` before it frees. No stream here has an output thread, and the list
that is kept for the log is left out.
-/

namespace Asnx.Audio

/-- What `aaudio_bridge_builder_open_stream` returns before it looks at the device, if anything. -/
def Builder.refusal (b : Builder) (allocated bufferAllocated : Bool) : Option AAudioError :=
  if b.direction ≠ aaudioDirectionOutput then some .unimplemented
  else if !b.hasDataCallback then some .illegalArgument
  else if !allocated then some .noMemory
  else
    let sampleRate := if b.sampleRate > 0 then b.sampleRate else 48000
    let channels := if b.channels > 0 then b.channels else 2
    let format := if b.format = aaudioFormatUnspecified then aaudioFormatPcmFloat else b.format
    if sampleRate < 8000 ∨ sampleRate > 192000 ∨ channels < 1 ∨ channels > 8 ∨
        (format ≠ aaudioFormatPcmFloat ∧ format ≠ aaudioFormatPcmI16) then some .illegalArgument
    else if !bufferAllocated then some .noMemory
    else none

namespace Owner

open Threads

/-- The static variables, and the streams that are allocated, each with its `audout_initialized`. -/
structure Bridge (T I : Type*) where
  gAudoutOwnerLock : Option T
  gAudoutOwnerLockReady : Bool
  gAudoutOwner : Option I
  streams : I → Option Bool

/-- Who gives the device up: an `open` that finds no memory for the output, or a `close`. -/
inductive Leave where
  | giveUp
  | close
  deriving DecidableEq

/-- Why the lock of the owner is taken: to take the device or to give it up. -/
inductive Use where
  | take
  | leave (l : Leave)
  deriving DecidableEq

/-- Where a thread is in a call, and for which stream. -/
inductive Pc (I : Type*) where
  | idle
  | opening (b : Builder)
  /-- `audout_owner_lock_init` -/
  | lockReady (i : I) (u : Use)
  | lockInit (i : I) (u : Use)
  | lockSet (i : I) (u : Use)
  | lock (i : I) (u : Use)
  /-- `if (g_audout_owner)` -/
  | owner (i : I)
  | audoutInitialize (i : I)
  | format (i : I)
  | exitFormat (i : I)
  /-- `mutexUnlock` of an `open` that fails. -/
  | refuse (i : I)
  | own (i : I)
  | owned (i : I)
  /-- `memalign` of the output buffers. -/
  | buffers (i : I)
  /-- `if (g_audout_owner == s) g_audout_owner = NULL` -/
  | disown (i : I) (l : Leave)
  | disowned (i : I) (l : Leave)
  | exit (i : I) (l : Leave)
  | failed (i : I) (e : AAudioError)
  | register (i : I)
  /-- `stream_valid` -/
  | close (i : I)
  | closing (i : I)
  | closed (i : I)

/-- A thread. -/
structure Thread (T I : Type*) where
  self : T
  pc : Pc I

/-- A call by the guest. -/
inductive Request (I : Type*) where
  | openNull
  | open (b : Builder)
  | closeNull
  | close (i : I)

/-- What the environment decides: the next call, the stream that `calloc` gives, and whether the
other allocation, `audoutInitialize`, the format of the device and the output buffers are as they
should be. -/
structure Choice (I : Type*) where
  request : Request I
  stream : Option I
  bufferAllocated : Bool
  initialized : Bool
  format : Bool
  outputAllocated : Bool

/-- What a step is seen to do. -/
inductive Event (I : Type*) where
  | inner
  /-- `audout_owner_lock_init` finds that `g_audout_owner_lock_ready` is not set. -/
  | unready
  /-- An `open` has looked at the owner: whether there is one. -/
  | asks (owned : Bool)
  /-- `audoutInitialize` succeeds. -/
  | initializes
  | exits
  | openFails (e : Option AAudioError)
  | opened (i : I)
  | closes (i : I)
  /-- A `close` has given up the device. -/
  | gives (i : I)
  | closeFails
  | closed (i : I)
  deriving DecidableEq

variable {T I : Type*} [DecidableEq T] [DecidableEq I]

/-- What a step comes to. -/
abbrev Outcome (T I : Type*) := Option (Event I × Bridge T I × Thread T I)

/-- A step that only moves the thread. -/
def move (s : Bridge T I) (t : Thread T I) (e : Event I) (pc : Pc I) : Outcome T I :=
  some (e, s, { t with pc := pc })

/-- The beginning of `aaudio_bridge_builder_open_stream`, up to `callback_buffer`. -/
def openingStep (x : Choice I) (s : Bridge T I) (t : Thread T I) (b : Builder) : Outcome T I :=
  match b.refusal x.stream.isSome x.bufferAllocated with
  | some e => move s t (.openFails (some e)) .idle
  | none =>
      match x.stream with
      | none => none
      | some i =>
          if s.streams i = none then
            move { s with streams := Function.update s.streams i (some false) } t .inner
              (.lockReady i .take)
          else none

/-- `mutexLock(&g_audout_owner_lock)` -/
def lockStep (s : Bridge T I) (t : Thread T I) (pc : Pc I) : Outcome T I :=
  if s.gAudoutOwnerLock = none then
    move { s with gAudoutOwnerLock := some t.self } t .inner pc
  else none

/-- `mutexUnlock(&g_audout_owner_lock)` -/
def unlockStep (s : Bridge T I) (t : Thread T I) (pc : Pc I) : Outcome T I :=
  move { s with gAudoutOwnerLock := none } t .inner pc

/-- `if (g_audout_owner == s) g_audout_owner = NULL` -/
def disownStep (s : Bridge T I) (t : Thread T I) (i : I) (l : Leave) : Outcome T I :=
  let owner := if s.gAudoutOwner = some i then none else s.gAudoutOwner
  move { s with gAudoutOwner := owner } t (if l = .close then .gives i else .inner) (.disowned i l)

/-- `free(s)` -/
def Bridge.free (s : Bridge T I) (i : I) : Bridge T I :=
  { s with streams := Function.update s.streams i none }

/-- `s->audout_initialized = initialized` -/
def Bridge.setInitialized (s : Bridge T I) (i : I) (initialized : Bool) : Bridge T I :=
  { s with streams := Function.update s.streams i (some initialized) }

/-- Where a thread goes once it has the lock. -/
def Use.locked (i : I) : Use → Pc I
  | .take => .owner i
  | .leave l => .disown i l

/-- Where a thread goes after `audoutExit` at the end of a stream. -/
def Leave.exited (i : I) : Leave → Pc I
  | .giveUp => .failed i .noMemory
  | .close => .closed i

/-- The next step of a thread. -/
def ownerNext (x : Choice I) (s : Bridge T I) (t : Thread T I) : Outcome T I :=
  match t.pc with
  | .idle =>
      match x.request with
      | .openNull => move s t (.openFails none) .idle
      | .open b => move s t .inner (.opening b)
      | .closeNull => move s t .closeFails .idle
      | .close i => move s t (.closes i) (.close i)
  | .opening b => openingStep x s t b
  | .lockReady i u =>
      if s.gAudoutOwnerLockReady then move s t .inner (.lock i u) else move s t .unready
        (.lockInit i u)
  | .lockInit i u => move { s with gAudoutOwnerLock := none } t .inner (.lockSet i u)
  | .lockSet i u => move { s with gAudoutOwnerLockReady := true } t .inner (.lock i u)
  | .lock i u => lockStep s t (u.locked i)
  | .owner i =>
      if s.gAudoutOwner.isSome then move s t (.asks true) (.refuse i)
      else move s t (.asks false) (.audoutInitialize i)
  | .audoutInitialize i =>
      if x.initialized then move (s.setInitialized i true) t .initializes (.format i)
      else move s t .inner (.refuse i)
  | .format i =>
      if x.format then move s t .inner (.own i) else move s t .inner (.exitFormat i)
  | .exitFormat i => move (s.setInitialized i false) t .exits (.refuse i)
  | .refuse i => unlockStep s t (.failed i .unavailable)
  | .own i => move { s with gAudoutOwner := some i } t .inner (.owned i)
  | .owned i => unlockStep s t (.buffers i)
  | .buffers i =>
      if x.outputAllocated then move s t .inner (.register i) else move s t .inner
        (.lock i (.leave .giveUp))
  | .disown i l => disownStep s t i l
  | .disowned i l => unlockStep s t (.exit i l)
  | .exit i l =>
      move (if l = .close then s.setInitialized i false else s) t .exits (l.exited i)
  | .failed i e => move (s.free i) t (.openFails (some e)) .idle
  | .register i => move s t (.opened i) .idle
  | .close i =>
      if (s.streams i).isSome then move s t .inner (.closing i) else move s t .closeFails .idle
  | .closing i =>
      if s.streams i = some true then move s t .inner (.lockReady i (.leave .close)) else move s t
        .inner (.closed i)
  | .closed i => move (s.free i) t (.closed i) .idle

/-- The threads that open and close streams. -/
def ownership : Program (Bridge T I) (Thread T I) (Choice I) (Event I) := ⟨ownerNext⟩

/-- No stream has been opened, and no call has begun. -/
structure Initial (c : Config T (Bridge T I) (Thread T I)) : Prop where
  self : ∀ t, (c.locals t).self = t
  idle : ∀ t, (c.locals t).pc = .idle
  shared : c.shared = ⟨none, false, none, fun _ => none⟩

end Owner

end Asnx.Audio
