import Asnx.Library.Threads

/-!
# The output thread of a stream

`aaudio_bridge_stream_request_start`, `aaudio_bridge_stream_request_stop` and
`aaudio_bridge_stream_close` of `source/aaudio_bridge.c`, called by one thread, beside the threads
that run `aaudio_output_thread`. Every access to a field of the stream that both sides use is a
step. What `audout` and the guest's callbacks answer, and whether `jni_quit_requested` is set, is
decided by the environment; the counters, which only the log reads, are left out.

A thread has an id from `bionic_pthread_create` on, which gives it or fails, and exists until it has
ended; `bionic_pthread_join` returns when it has. A stream that has been freed is read as
`aaudio_bridge_stream_close` leaves it.
-/

namespace Asnx.Audio.Output

open Threads

/-- `NX_AUDOUT_BUFFER_COUNT` -/
def nxAudoutBufferCount : Nat := 3

/-- `AAUDIO_STREAM_STATE_OPEN` and those after it. -/
inductive StreamState where
  | opened
  | starting
  | started
  | stopping
  | stopped
  | closing
  | closed
  deriving DecidableEq

/-- The fields of a `NxAAudioStream`, and which threads exist. -/
structure Stream (I : Type*) where
  /-- `s->magic == NX_AAUDIO_MAGIC` -/
  magic : Bool
  state : StreamState
  stopRequested : Bool
  threadStarted : Bool
  threadExited : Bool
  pthreadId : Option I
  audoutStarted : Bool
  alive : I → Bool

/-- A stream as `aaudio_bridge_builder_open_stream` returns it. -/
def Stream.openStream {I : Type*} : Stream I :=
  ⟨true, .opened, false, false, false, none, false, fun _ => false⟩

/-- The calls of the controlling thread. -/
inductive Op where
  | requestStart
  | requestStop
  | close
  deriving DecidableEq

/-- What they return: `AAUDIO_OK` or an error. -/
inductive Result where
  | ok
  | invalidHandle
  | invalidState
  | internal
  deriving DecidableEq

/-- Who calls `aaudio_bridge_stream_request_stop`. -/
inductive Caller where
  | guest
  | close
  deriving DecidableEq

/-- Where the controlling thread is. -/
inductive CtlPc (I : Type*) where
  | idle
  /-- `stream_valid` -/
  | valid (op : Op)
  | startStarted
  | startExited
  | reapJoin
  | reapId
  | reapStarted
  | reapExited
  /-- `s->thread_started || (s->state != OPEN && s->state != STOPPED)` -/
  | startCheck
  | startOpen
  | startStopped
  | startStop
  | startClear
  | startState
  | startAudout
  | startDevice
  | create
  | startFailed
  | startId (i : I)
  | startFlag
  | stopValid
  | stopStarted (c : Caller)
  | stopOpen (c : Caller)
  | stopStopped (c : Caller)
  | stopState (c : Caller)
  | stopFlag (c : Caller)
  | stopJoin (c : Caller)
  | stopId (c : Caller)
  | stopClear (c : Caller)
  | stopExited (c : Caller)
  | stopDone (c : Caller)
  | closeStarted
  | closing
  | closeMagic
  | closed
  | ret (op : Op) (r : Result)

/-- Who calls `prime_audout`: the start of the thread, and `recover_audout` for a device that
releases nothing and for a buffer that was not appended. -/
inductive Prime where
  | first
  | noRelease
  | appendFailed
  deriving DecidableEq

/-- Who calls `fill_and_append`: `prime_audout` for a buffer, and the loop that has drained some. -/
inductive Fill where
  | prime (p : Prime) (i : Nat)
  | drain (drained : Nat)
  deriving DecidableEq

/-- Where an output thread is. -/
inductive OutPc where
  | entry
  | setStarted
  | callback (f : Fill)
  | append (f : Fill)
  /-- `audoutStartAudioOut` -/
  | startAudioOut (p : Prime)
  | setAudout (p : Prime)
  /-- The error callback. -/
  | disconnected (p : Prime)
  | loop
  | wait
  | waitFailed
  /-- Whether the device is to be recovered. -/
  | query
  | recover (p : Prime)
  | drain (drained : Nat)
  | getReleased (drained : Nat)
  | setStop
  | leave
  | leaveAudout
  | setStopped
  | setExited
  | ending
  deriving DecidableEq

/-- The threads: the one that controls the stream, and those that run `aaudio_output_thread`. -/
inductive Actor (I : Type*) where
  | controller
  | output (i : I)
  deriving DecidableEq

/-- What a thread knows. -/
inductive Local (I : Type*) where
  | ctl (pc : CtlPc I)
  | out (self : I) (pc : OutPc)

/-- What the environment decides: the next call, what `bionic_pthread_create` gives, what the data
callback and `audout` answer, whether the device is to be recovered, and `jni_quit_requested`. -/
structure Choice (I : Type*) where
  op : Op
  tid : Option I
  stops : Bool
  fails : Bool
  released : Bool
  recovers : Bool
  quit : Bool

/-- What a step is seen to do. -/
inductive Event (I : Type*) where
  | inner
  | created (i : I)
  | notCreated
  | callback
  | returned (op : Op) (r : Result)
  deriving DecidableEq

variable {I : Type*} [DecidableEq I]

/-- What a step comes to. -/
abbrev Outcome (I : Type*) := Option (Event I × Stream I × Local I)

/-! ## The output thread -/

/-- Where `prime_audout` returns to when the callback has stopped, and after the error callback. -/
def Prime.ended : Prime → OutPc
  | .first => .leave
  | .noRelease => .leave
  | .appendFailed => .setStop

/-- Where `fill_and_append` returns to when the callback has stopped. -/
def Fill.stopped : Fill → OutPc
  | .prime p _ => p.ended
  | .drain _ => .setStop

/-- Where `fill_and_append` returns to when the buffer was not appended. -/
def Fill.failed : Fill → OutPc
  | .prime p _ => .disconnected p
  | .drain _ => .recover .appendFailed

/-- Where `fill_and_append` returns to when the buffer was appended. -/
def Fill.appended : Fill → OutPc
  | .prime p i =>
      if i + 1 < nxAudoutBufferCount then .callback (.prime p (i + 1)) else .startAudioOut p
  | .drain n => if n + 1 < nxAudoutBufferCount then .getReleased (n + 1) else .loop

/-- `s->stop_requested || jni_quit_requested` -/
def halts (x : Choice I) (s : Stream I) : Bool := s.stopRequested || x.quit

/-- The event, the stream and the place after a step of `aaudio_output_thread`. -/
def outputStep (x : Choice I) (s : Stream I) (self : I) : OutPc → Event I × Stream I × OutPc
  | .entry => (.inner, { s with threadExited := false }, .setStarted)
  | .setStarted => (.inner, { s with state := .started }, .callback (.prime .first 0))
  | .callback f => (.callback, s, if x.stops then f.stopped else .append f)
  | .append f => (.inner, s, if x.fails then f.failed else f.appended)
  | .startAudioOut p => (.inner, s, if x.fails then .disconnected p else .setAudout p)
  | .setAudout _ => (.inner, { s with audoutStarted := true }, .loop)
  | .disconnected p => (.inner, s, p.ended)
  | .loop => (.inner, s, if halts x s then .leave else .wait)
  | .wait =>
      (.inner, s, if x.fails then .waitFailed else if x.released then .drain 0 else .loop)
  | .waitFailed => (.inner, s, if halts x s then .leave else .query)
  | .query => (.inner, s, if x.recovers then .recover .noRelease else .loop)
  | .recover p => (.inner, { s with audoutStarted := false }, .callback (.prime p 0))
  | .drain n => (.inner, s, if halts x s then .loop else .callback (.drain n))
  | .getReleased n => (.inner, s, if x.fails || !x.released then .loop else .drain n)
  | .setStop => (.inner, { s with stopRequested := true }, .loop)
  | .leave => (.inner, s, if s.audoutStarted then .leaveAudout else .setStopped)
  | .leaveAudout => (.inner, { s with audoutStarted := false }, .setStopped)
  | .setStopped => (.inner, { s with state := .stopped }, .setExited)
  | .setExited => (.inner, { s with threadExited := true }, .ending)
  | .ending => (.inner, { s with alive := Function.update s.alive self false }, .entry)

/-- The next step of an output thread, if it exists. -/
def outputNext (x : Choice I) (s : Stream I) (self : I) (pc : OutPc) : Outcome I :=
  if s.alive self then
    match outputStep x s self pc with
    | (e, s, pc) => some (e, s, .out self pc)
  else none

/-! ## The controlling thread -/

/-- Where a call begins. -/
def Op.start : Op → CtlPc I
  | .requestStart => .startStarted
  | .requestStop => .stopStarted .guest
  | .close => .closeStarted

/-- Where `aaudio_bridge_stream_request_stop` returns to. -/
def Caller.back (r : Result) : Caller → CtlPc I
  | .guest => .ret .requestStop r
  | .close => .closing

/-- `if (s->pthread_id) bionic_pthread_join(s->pthread_id, NULL)` -/
def joinStep (s : Stream I) (pc : CtlPc I) : Outcome I :=
  match s.pthreadId with
  | none => some (.inner, s, .ctl pc)
  | some i => if s.alive i then none else some (.inner, s, .ctl pc)

/-- `bionic_pthread_create` -/
def createStep (x : Choice I) (s : Stream I) : Outcome I :=
  match x.tid with
  | none => some (.notCreated, s, .ctl .startFailed)
  | some i =>
      if s.alive i then none
      else some (.created i, { s with alive := Function.update s.alive i true }, .ctl (.startId i))

/-- A step that is neither seen nor waits. -/
def step (s : Stream I) (pc : CtlPc I) : Outcome I := some (.inner, s, .ctl pc)

/-- The next step of the controlling thread. -/
def controllerNext (x : Choice I) (s : Stream I) : CtlPc I → Outcome I
  | .idle => step s (.valid x.op)
  | .valid op => step s (if s.magic then op.start else .ret op .invalidHandle)
  | .startStarted => step s (if s.threadStarted then .startExited else .startCheck)
  | .startExited => step s (if s.threadExited then .reapJoin else .startCheck)
  | .reapJoin => joinStep s .reapId
  | .reapId => step { s with pthreadId := none } .reapStarted
  | .reapStarted => step { s with threadStarted := false } .reapExited
  | .reapExited => step { s with threadExited := false } .startCheck
  | .startCheck => step s (if s.threadStarted then .ret .requestStart .invalidState else .startOpen)
  | .startOpen => step s (if s.state = .opened then .startStop else .startStopped)
  | .startStopped =>
      step s (if s.state = .stopped then .startStop else .ret .requestStart .invalidState)
  | .startStop => step { s with stopRequested := false } .startClear
  | .startClear => step { s with threadExited := false } .startState
  | .startState => step { s with state := .starting } .startAudout
  | .startAudout => step s (if s.audoutStarted then .startDevice else .create)
  | .startDevice => step { s with audoutStarted := false } .create
  | .create => createStep x s
  | .startFailed => step { s with state := .opened } (.ret .requestStart .internal)
  | .startId i => step { s with pthreadId := some i } .startFlag
  | .startFlag => step { s with threadStarted := true } (.ret .requestStart .ok)
  | .stopValid => step s (if s.magic then .stopStarted .close else .closing)
  | .stopStarted c => step s (if s.threadStarted then .stopState c else .stopOpen c)
  | .stopOpen c => step s (if s.state = .opened then c.back .ok else .stopStopped c)
  | .stopStopped c => step s (if s.state = .stopped then c.back .ok else c.back .invalidState)
  | .stopState c => step { s with state := .stopping } (.stopFlag c)
  | .stopFlag c => step { s with stopRequested := true } (.stopJoin c)
  | .stopJoin c => joinStep s (.stopId c)
  | .stopId c => step { s with pthreadId := none } (.stopClear c)
  | .stopClear c => step { s with threadStarted := false } (.stopExited c)
  | .stopExited c => step { s with threadExited := false } (.stopDone c)
  | .stopDone c => step { s with state := .stopped } (c.back .ok)
  | .closeStarted => step s (if s.threadStarted then .stopValid else .closing)
  | .closing => step { s with state := .closing } .closeMagic
  | .closeMagic => step { s with magic := false } .closed
  | .closed => step { s with state := .closed } (.ret .close .ok)
  | .ret op r => some (.returned op r, s, .ctl .idle)

/-- The next step of a thread. -/
def streamNext (x : Choice I) (s : Stream I) : Local I → Outcome I
  | .ctl pc => controllerNext x s pc
  | .out self pc => outputNext x s self pc

/-- The threads of the stream. -/
def stream : Program (Stream I) (Local I) (Choice I) (Event I) := ⟨streamNext⟩

/-- The stream has just been opened, and no call has begun. -/
structure Initial (c : Config (Actor I) (Stream I) (Local I)) : Prop where
  shared : c.shared = .openStream
  controller : c.locals .controller = .ctl .idle
  output : ∀ i, c.locals (.output i) = .out i .entry

end Asnx.Audio.Output
