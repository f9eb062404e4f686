import Mathlib.Logic.Function.Basic
import Mathlib.Algebra.GroupWithZero.Nat

/-!
# Audio streams

How `aaudio_bridge_builder_open_stream` of `source/aaudio_bridge.c` makes a stream from the
settings of a builder, and how `convert_callback_to_audout` turns the frames of a data callback
into frames of the hardware. What is only measured for the log is left out, and so are the numbers
of a stream that nothing here reads.
-/

namespace Asnx.Audio

/-- The errors of `aaudio_bridge_builder_open_stream`. -/
inductive AAudioError where
  | illegalArgument
  | unimplemented
  | unavailable
  | noMemory
  deriving DecidableEq

/-- `AAUDIO_DIRECTION_OUTPUT` -/
def aaudioDirectionOutput : Int := 0
/-- `AAUDIO_FORMAT_UNSPECIFIED` and the two formats -/
def aaudioFormatUnspecified : Int := 0
def aaudioFormatPcmI16 : Int := 1
def aaudioFormatPcmFloat : Int := 2

/-- The settings of an `NxAAudioBuilder` that a stream depends on. -/
structure Builder where
  sampleRate : Int
  channels : Int
  format : Int
  direction : Int
  framesPerCallback : Int
  hasDataCallback : Bool

/-- What `aaudio_bridge_builder_open_stream` finds: whether there is memory, whether another stream
owns the hardware, whether `audoutInitialize` succeeds, and the format of the hardware. -/
structure Device where
  allocated : Bool
  bufferAllocated : Bool
  owned : Bool
  initialized : Bool
  rate : Nat
  channels : Nat
  int16 : Bool
  outputAllocated : Bool

/-- The fields of an `NxAAudioStream` that conversion uses. -/
structure Stream where
  sampleRate : Nat
  channels : Nat
  format : Int
  framesPerCallback : Nat
  callbackBytes : Nat
  audoutRate : Nat
  outCapacityFrames : Nat
  outAllocBytes : Nat
  resampleRemainder : Nat

/-- `align_up_0x1000` -/
def alignUp0x1000 (n : Nat) : Nat := (n + 0xfff) / 0x1000 * 0x1000

/-- The bytes of a sample of the callback. -/
def bytesPerSample (format : Int) : Nat := if format = aaudioFormatPcmFloat then 4 else 2

/-- The frames of a callback within their bounds. -/
def clampFrames (frames : Int) : Int :=
  let frames := if frames > 0 then frames else 1024
  let frames := if frames < 32 then 32 else frames
  if frames > 8192 then 8192 else frames

/-- A callback has between 32 and 8192 frames. -/
theorem clampFrames_bounds (frames : Int) : 32 ≤ clampFrames frames ∧
    clampFrames frames ≤ 8192 := by
  simp only [clampFrames]
  omega

/-- `aaudio_bridge_builder_open_stream` -/
def openStream (b : Builder) (device : Device) : Except AAudioError Stream :=
  if b.direction ≠ aaudioDirectionOutput then .error .unimplemented
  else if !b.hasDataCallback then .error .illegalArgument
  else if !device.allocated then .error .noMemory
  else
    let sampleRate := if b.sampleRate > 0 then b.sampleRate else 48000
    let channels := if b.channels > 0 then b.channels else 2
    let format := if b.format = aaudioFormatUnspecified then aaudioFormatPcmFloat else b.format
    if sampleRate < 8000 ∨ sampleRate > 192000 ∨ channels < 1 ∨ channels > 8 ∨
        (format ≠ aaudioFormatPcmFloat ∧ format ≠ aaudioFormatPcmI16) then .error .illegalArgument
    else
      let frames := (clampFrames b.framesPerCallback).toNat
      let callbackBytes := frames * channels.toNat * bytesPerSample format
      if !device.bufferAllocated then .error .noMemory
      else if device.owned then .error .unavailable
      else if !device.initialized then .error .unavailable
      else if device.rate ≠ 48000 ∨ device.channels ≠ 2 ∨ !device.int16 then .error .unavailable
      else
        let maxOutFrames := (frames * device.rate + sampleRate.toNat - 1) / sampleRate.toNat
        if !device.outputAllocated then .error .noMemory
        else
          .ok {
            sampleRate := sampleRate.toNat
            channels := channels.toNat
            format := format
            framesPerCallback := frames
            callbackBytes := callbackBytes
            audoutRate := device.rate
            outCapacityFrames := maxOutFrames
            outAllocBytes := alignUp0x1000 (maxOutFrames * 2 * 2)
            resampleRemainder := 0 }

/-! ## Conversion -/

/-- The index of a sample of a frame in the callback buffer. -/
def Stream.sampleIndex (s : Stream) (frame channel : Nat) : Nat :=
  let srcCh := if s.channels ≤ 1 then 0 else if channel ≥ s.channels then s.channels -
    1 else channel
  frame * s.channels + srcCh

/-- A frame that is written: the frame it is copied from, and the two samples that are read. -/
structure Copied where
  source : Nat
  left : Nat
  right : Nat
  deriving DecidableEq

/-- The frame of the callback that an output frame is copied from, before it is held inside. -/
def Stream.sourceFrame (s : Stream) (frame : Nat) : Nat := frame * s.sampleRate / s.audoutRate

/-- The number of output frames, before it is held between 1 and the capacity. -/
def Stream.wantedFrames (s : Stream) : Nat :=
  (s.framesPerCallback * s.audoutRate + s.resampleRemainder) / s.sampleRate

/-- `convert_callback_to_audout`: the output frames in their order, and the stream after it. -/
def convertCallbackToAudout (s : Stream) (dstCapacityFrames : Nat) : List Copied × Stream :=
  let numer := s.framesPerCallback * s.audoutRate + s.resampleRemainder
  let outFrames := s.wantedFrames
  let outFrames := if outFrames < 1 then 1 else outFrames
  let outFrames := if outFrames > dstCapacityFrames then dstCapacityFrames else outFrames
  let copy (frame : Nat) : Copied :=
    let source := s.sourceFrame frame
    let source := if source ≥ s.framesPerCallback then s.framesPerCallback - 1 else source
    ⟨source, s.sampleIndex source 0, s.sampleIndex source (if s.channels > 1 then 1 else 0)⟩
  ((List.range outFrames).map copy, { s with resampleRemainder := numer % s.sampleRate })

/-- Successive calls for `n` callbacks, with the output frames of each. -/
def convertCalls (s : Stream) : Nat → List (List Copied) × Stream
  | 0 => ([], s)
  | n + 1 =>
      let (calls, s) := convertCalls s n
      let (frames, s) := convertCallbackToAudout s s.outCapacityFrames
      (calls ++ [frames], s)

/-- The input frames that the output frames of the calls are copied from, counted over all callbacks
of `size` frames, the first of which is number `n`. -/
def globalSources (size : Nat) : Nat → List (List Copied) → List Nat
  | _, [] => []
  | n, frames :: calls =>
      frames.map (fun f => n * size + f.source) ++ globalSources size (n + 1) calls

end Asnx.Audio
