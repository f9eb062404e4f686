import Mathlib.Data.List.Induction
import Mathlib.Tactic.ByContra
import Mathlib.Tactic.SplitIfs
import Asnx.Audio.Streams

/-!
# The size of a stream's buffer

What `aaudio_bridge_builder_open_stream` makes of the capacity that was asked for, and what
`aaudio_bridge_stream_set_buffer_size` makes of a size. The one holds the size under the capacity
last, the other raises it to a burst last; a burst is larger than the capacity of a `Cramped`
builder.
-/

namespace Asnx.Audio

/-- The settings of an `NxAAudioBuilder`, with the capacity that is asked for. -/
structure BufferBuilder extends Builder where
  bufferCapacityFrames : Int

/-- The fields of an `NxAAudioStream` that bound its buffer. `magic` says whether `stream_valid`. -/
structure StreamBuffer where
  magic : Bool
  framesPerBurst : Int
  bufferCapacityFrames : Int
  bufferSizeFrames : Int
  deriving DecidableEq

/-- The sizes that `aaudio_bridge_builder_open_stream` gives a stream. -/
def BufferBuilder.buffer (b : BufferBuilder) : StreamBuffer :=
  let framesPerCallback := clampFrames b.framesPerCallback
  let framesPerBurst := 1024
  let capacity := if b.bufferCapacityFrames > 0 then b.bufferCapacityFrames else framesPerBurst * 4
  let capacity := if capacity < framesPerCallback * 2 then framesPerCallback * 2 else capacity
  let size := framesPerBurst * 4
  let size := if size > capacity then capacity else size
  ⟨true, framesPerBurst, capacity, size⟩

/-- `aaudio_bridge_builder_open_stream`, as far as the sizes go. -/
def openBuffer (b : BufferBuilder) (device : Device) : Except AAudioError StreamBuffer :=
  (openStream b.toBuilder device).map fun _ => b.buffer

/-- The errors of `aaudio_bridge_stream_set_buffer_size`. -/
inductive SizeError where
  | invalidHandle
  | outOfRange
  deriving DecidableEq

/-- `aaudio_bridge_stream_set_buffer_size` -/
def setBufferSize (s : StreamBuffer) (frames : Int) : Except SizeError Int × StreamBuffer :=
  if !s.magic then (.error .invalidHandle, s)
  else if frames < 0 then (.error .outOfRange, s)
  else
    let frames := if frames > s.bufferCapacityFrames then s.bufferCapacityFrames else frames
    let frames := if frames < s.framesPerBurst then s.framesPerBurst else frames
    (.ok frames, { s with bufferSizeFrames := frames })

/-- The stream after calls of `aaudio_bridge_stream_set_buffer_size`. -/
def setBufferSizes (s : StreamBuffer) (calls : List Int) : StreamBuffer :=
  calls.foldl (fun s frames => (setBufferSize s frames).2) s

/-! ## Bounds -/

/-- The size is positive and at most the capacity. -/
def StreamBuffer.Within (s : StreamBuffer) : Prop :=
  0 < s.bufferSizeFrames ∧ s.bufferSizeFrames ≤ s.bufferCapacityFrames

instance (s : StreamBuffer) : Decidable s.Within := by
  unfold StreamBuffer.Within
  infer_instance

/-- What every call leaves as it is. -/
structure StreamBuffer.Same (s s' : StreamBuffer) : Prop where
  magic : s'.magic = s.magic
  burst : s'.framesPerBurst = s.framesPerBurst
  capacity : s'.bufferCapacityFrames = s.bufferCapacityFrames

/-- The capacity that is asked for and twice the frames of a callback are both less than a burst. -/
def BufferBuilder.Cramped (b : BufferBuilder) : Prop :=
  (0 < b.bufferCapacityFrames ∧ b.bufferCapacityFrames < 1024) ∧
    0 < b.framesPerCallback ∧ b.framesPerCallback < 512

/-- A burst is larger than the capacity of a cramped builder, and of no other. -/
theorem BufferBuilder.cramped_iff (b : BufferBuilder) :
    b.Cramped ↔ b.buffer.bufferCapacityFrames < 1024 := by
  unfold Cramped buffer clampFrames
  dsimp only
  split_ifs <;> omega

/-- The size of a stream that has just been opened is within its bounds. -/
theorem BufferBuilder.buffer_within (b : BufferBuilder) : b.buffer.Within := by
  have hclamp := clampFrames_bounds b.framesPerCallback
  unfold StreamBuffer.Within buffer
  dsimp only
  split_ifs <;> omega

theorem BufferBuilder.burst_pos (b : BufferBuilder) : 0 < b.buffer.framesPerBurst := by
  show (0 : Int) < 1024
  decide

/-- An accepted builder gives its sizes. -/
theorem openBuffer_ok {b : BufferBuilder} {device : Device} {s : StreamBuffer}
    (h : openBuffer b device = .ok s) : s = b.buffer := by
  unfold openBuffer at h
  cases hopen : openStream b.toBuilder device with
  | error e =>
      rw [hopen] at h
      cases h
  | ok stream =>
      rw [hopen] at h
      cases h
      rfl

/-! ## One call -/

section Calls

variable {s : StreamBuffer} {frames : Int}

/-- A call keeps all but the size. -/
theorem setBufferSize_same (s : StreamBuffer) (frames : Int) :
    s.Same (setBufferSize s frames).2 := by
  unfold setBufferSize
  split_ifs <;> exact ⟨rfl, rfl, rfl⟩

/-- A call that succeeds returns the size that is then in force. -/
theorem setBufferSize_returns {r : Int} (h : (setBufferSize s frames).1 = .ok r) :
    (setBufferSize s frames).2.bufferSizeFrames = r := by
  unfold setBufferSize at h ⊢
  by_cases hmagic : s.magic = true
  case neg =>
    rw [if_pos (by simpa using hmagic)] at h
    cases h
  case pos =>
    rw [if_neg (by simpa using hmagic)] at h ⊢
    by_cases hframes : frames < 0
    case pos =>
      rw [if_pos hframes] at h
      cases h
    case neg =>
      rw [if_neg hframes] at h ⊢
      cases h
      rfl

/-- A call with a negative size changes nothing. -/
theorem setBufferSize_negative (hframes : frames < 0) : (setBufferSize s frames).2 = s := by
  unfold setBufferSize
  split_ifs <;> rfl

/-- Where a burst fits, a call keeps the bounds. -/
theorem StreamBuffer.Within.set (h : s.Within) (hpos : 0 < s.framesPerBurst)
    (hfits : s.framesPerBurst ≤ s.bufferCapacityFrames) : (setBufferSize s frames).2.Within := by
  unfold setBufferSize
  split
  case isTrue => exact h
  case isFalse =>
    split
    case isTrue => exact h
    case isFalse =>
      unfold StreamBuffer.Within
      dsimp only
      split_ifs <;> omega

/-- Where a burst does not fit, a call with a size of any kind leaves more than the capacity. -/
theorem not_within_set (hmagic : s.magic = true) (hframes : 0 ≤ frames)
    (hcramped : s.bufferCapacityFrames < s.framesPerBurst) :
    ¬ (setBufferSize s frames).2.Within := by
  unfold setBufferSize
  rw [hmagic]
  rw [if_neg (by decide), if_neg (by omega)]
  unfold StreamBuffer.Within
  dsimp only
  split_ifs <;> omega

end Calls

/-! ## All calls -/

/-- Before and after every one of the calls the size is within its bounds, and every call that
succeeds returns the size that it leaves. -/
def SizesRight (s : StreamBuffer) (calls : List Int) : Prop :=
  ∀ before after, calls = before ++ after → (setBufferSizes s before).Within ∧
    ∀ frames rest r, after = frames :: rest →
      (setBufferSize (setBufferSizes s before) frames).1 = .ok r →
        (setBufferSizes s (before ++ [frames])).bufferSizeFrames = r

theorem setBufferSizes_concat (s : StreamBuffer) (calls : List Int) (frames : Int) :
    setBufferSizes s (calls ++ [frames]) = (setBufferSize (setBufferSizes s calls) frames).2 := by
  unfold setBufferSizes
  rw [List.foldl_append]
  rfl

/-- No calls change anything but the size. -/
theorem setBufferSizes_same (s : StreamBuffer) (calls : List Int) :
    s.Same (setBufferSizes s calls) := by
  induction calls using List.reverseRecOn with
  | nil => exact ⟨rfl, rfl, rfl⟩
  | append_singleton calls frames ih =>
      have hlast := setBufferSize_same (setBufferSizes s calls) frames
      rw [setBufferSizes_concat]
      exact ⟨hlast.magic.trans ih.magic, hlast.burst.trans ih.burst,
        hlast.capacity.trans ih.capacity⟩

/-- Where a burst fits, or every size is negative, the calls keep the bounds. -/
theorem setBufferSizes_within {s : StreamBuffer} (h : s.Within) (hpos : 0 < s.framesPerBurst)
    {calls : List Int} (hcalls : s.framesPerBurst ≤ s.bufferCapacityFrames ∨
      ∀ frames ∈ calls, frames < 0) :
    (setBufferSizes s calls).Within := by
  induction calls using List.reverseRecOn with
  | nil => exact h
  | append_singleton calls frames ih =>
      have hsame := setBufferSizes_same s calls
      have hbefore : (setBufferSizes s calls).Within :=
        ih (hcalls.imp_right fun hall frames hmem => hall frames (List.mem_append_left _ hmem))
      rw [setBufferSizes_concat]
      rcases hcalls with hfits | hall
      · refine hbefore.set ?_ ?_
        · rw [hsame.burst]
          exact hpos
        · rw [hsame.burst, hsame.capacity]
          exact hfits
      · rw [setBufferSize_negative (hall frames (by simp))]
        exact hbefore

/-- After a builder has been accepted, the size stays positive and at most the capacity through any
calls of `aaudio_bridge_stream_set_buffer_size` if and only if the builder is not cramped or the
calls all have a negative size. Every call that succeeds returns the size then in force. -/
theorem buffer_sizes_right_iff {b : BufferBuilder} {device : Device} {s : StreamBuffer}
    (hopen : openBuffer b device = .ok s) (calls : List Int) :
    SizesRight s calls ↔ ¬ b.Cramped ∨ ∀ frames ∈ calls, frames < 0 := by
  obtain rfl := openBuffer_ok hopen
  rw [b.cramped_iff, Int.not_lt]
  constructor
  · intro hright
    by_contra hnot
    obtain ⟨hcramped, hsome⟩ := not_or.1 hnot
    simp only [not_forall] at hsome
    obtain ⟨frames, hmem, hframes⟩ := hsome
    obtain ⟨before, rest, rfl⟩ := List.append_of_mem hmem
    have hsame := setBufferSizes_same b.buffer before
    have hafter := (hright (before ++ [frames]) rest (by simp)).1
    rw [setBufferSizes_concat] at hafter
    refine not_within_set ?_ (Int.not_lt.1 hframes) ?_ hafter
    · exact hsame.magic
    · rw [hsame.capacity, hsame.burst]
      exact Int.not_le.1 hcramped
  · rintro hcalls before after rfl
    refine ⟨?_, fun frames rest r _ hr => ?_⟩
    · refine setBufferSizes_within b.buffer_within b.burst_pos ?_
      exact hcalls.imp_right fun hall frames hmem => hall frames (List.mem_append_left _ hmem)
    · rw [setBufferSizes_concat]
      exact setBufferSize_returns hr

/-- A builder that asks for callbacks of `framesPerCallback` frames and room for `capacity`. -/
def sizedBuilder (framesPerCallback capacity : Int) : BufferBuilder :=
  ⟨⟨48000, 2, aaudioFormatPcmI16, aaudioDirectionOutput, framesPerCallback, true⟩, capacity⟩

/-- The hardware as it usually is, with nothing that fails. -/
def freeDevice : Device := ⟨true, true, false, true, 48000, 2, true, true⟩

/-- A stream with the usual callbacks takes every size. -/
theorem buffer_sizes_right_usual :
    SizesRight (sizedBuilder 1024 0).buffer [10, 100000] ∧
      (setBufferSizes (sizedBuilder 1024 0).buffer [10, 100000]).bufferSizeFrames = 4096 := by
  have hopen : openBuffer (sizedBuilder 1024 0) freeDevice = .ok (sizedBuilder 1024 0).buffer := rfl
  refine ⟨(buffer_sizes_right_iff hopen _).2 (.inl ?_), rfl⟩
  rintro ⟨⟨hpos, -⟩, -⟩
  cases hpos

/-- With callbacks of 32 frames and room for 64, a size of 10 frames becomes 1024. -/
theorem buffer_size_over_capacity :
    openBuffer (sizedBuilder 32 64) freeDevice = .ok (sizedBuilder 32 64).buffer ∧
      (setBufferSizes (sizedBuilder 32 64).buffer [10]).bufferSizeFrames = 1024 ∧
      (setBufferSizes (sizedBuilder 32 64).buffer [10]).bufferCapacityFrames = 64 ∧
      ¬ SizesRight (sizedBuilder 32 64).buffer [10] := by
  refine ⟨rfl, rfl, rfl, ?_⟩
  intro hright
  exact absurd (hright [10] [] rfl).1 (by decide)

end Asnx.Audio
