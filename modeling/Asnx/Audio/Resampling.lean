import Asnx.Audio.Streams
import Asnx.Library.Carry

/-!
# Resampling has no drift

The number of output frames of `n` callbacks is that of one long conversion, rounded down, because
each call carries its remainder into the next. No bound in `convertCallbackToAudout` has an effect,
and each output frame is copied from next to where it belongs in the input (`resampling_exact`).
-/

namespace Asnx.Audio

/-! ## Accepted streams -/

/-- A stream that `openStream` accepts, with any remainder that conversion leaves. -/
structure Stream.Accepted (s : Stream) : Prop where
  rate_ge : 8000 ≤ s.sampleRate
  rate_le : s.sampleRate ≤ 192000
  channels : 1 ≤ s.channels
  frames_ge : 32 ≤ s.framesPerCallback
  frames_le : s.framesPerCallback ≤ 8192
  hardware : s.audoutRate = 48000
  capacity : s.outCapacityFrames =
    (s.framesPerCallback * s.audoutRate + s.sampleRate - 1) / s.sampleRate
  bytes : s.callbackBytes = s.framesPerCallback * s.channels * bytesPerSample s.format
  alloc : s.outCapacityFrames * 4 ≤ s.outAllocBytes
  remainder : s.resampleRemainder < s.sampleRate

theorem le_alignUp (n : Nat) : n ≤ alignUp0x1000 n := by
  unfold alignUp0x1000
  omega

/-- What is returned past a check has passed it. -/
theorem passed {ε α : Type} {p : Prop} [Decidable p] {error : ε} {x : Except ε α} {a : α}
    (h : (if p then .error error else x) = .ok a) : ¬ p ∧ x = .ok a := by
  by_cases hp : p
  · rw [if_pos hp] at h
    cases h
  · rw [if_neg hp] at h
    exact ⟨hp, h⟩

/-- An opened stream is accepted, and starts with the remainder 0. -/
theorem openStream_accepted {b : Builder} {device : Device} {s : Stream}
    (h : openStream b device = .ok s) : s.Accepted ∧ s.resampleRemainder = 0 := by
  have hframes := clampFrames_bounds b.framesPerCallback
  unfold openStream at h
  generalize (if b.sampleRate > 0 then b.sampleRate else 48000) = rate at h
  generalize (if b.channels > 0 then b.channels else 2) = channels at h
  generalize (if b.format = aaudioFormatUnspecified then aaudioFormatPcmFloat else b.format) =
    format
    at h
  obtain ⟨-, h⟩ := passed h
  obtain ⟨-, h⟩ := passed h
  obtain ⟨-, h⟩ := passed h
  obtain ⟨hbounds, h⟩ := passed h
  obtain ⟨-, h⟩ := passed h
  obtain ⟨-, h⟩ := passed h
  obtain ⟨-, h⟩ := passed h
  obtain ⟨hdevice, h⟩ := passed h
  obtain ⟨-, h⟩ := passed h
  cases h
  refine ⟨⟨?_, ?_, ?_, ?_, ?_, ?_, rfl, rfl, ?_, ?_⟩, rfl⟩ <;> dsimp only
  · omega
  · omega
  · omega
  · omega
  · omega
  · exact not_not.1 fun hne => hdevice (.inl hne)
  · rw [← Nat.mul_assoc _ 2 2]
    exact le_alignUp _
  · omega

/-! ## One call -/

namespace Stream

variable {s : Stream}

/-- No bound on the number of output frames has an effect. -/
theorem Accepted.wantedFrames_bounds (h : s.Accepted) :
    1 ≤ s.wantedFrames ∧ s.wantedFrames ≤ s.outCapacityFrames := by
  have hrate : 0 < s.sampleRate := by
    have := h.rate_ge
    omega
  constructor
  · rw [wantedFrames, Nat.one_le_div_iff hrate]
    have hframes := Nat.mul_le_mul_right 48000 h.frames_ge
    have hle := h.rate_le
    rw [h.hardware]
    omega
  · rw [h.capacity]
    exact Carry.div_le_ceil h.remainder

/-- The bound on the source of an output frame has no effect. -/
theorem Accepted.sourceFrame_lt (h : s.Accepted) {frame : Nat} (hframe : frame < s.wantedFrames) :
    s.sourceFrame frame < s.framesPerCallback := by
  have hrate : 0 < s.sampleRate := by
    have := h.rate_ge
    omega
  have hhardware : 0 < s.audoutRate := by
    rw [h.hardware]
    decide
  -- The end of the frame is inside what the call converts, and the remainder is less than a frame.
  have hend : (frame + 1) * s.sampleRate ≤ s.framesPerCallback * s.audoutRate +
    s.resampleRemainder :=
    (Nat.le_div_iff_mul_le hrate).1 hframe
  have hremainder := h.remainder
  rw [sourceFrame, Nat.div_lt_iff_lt_mul hhardware]
  rw [Nat.succ_mul] at hend
  omega

/-- An output frame as it is copied when no bound has an effect. -/
def copied (s : Stream) (frame : Nat) : Copied :=
  ⟨s.sourceFrame frame, s.sampleIndex (s.sourceFrame frame) 0,
    s.sampleIndex (s.sourceFrame frame) (if s.channels > 1 then 1 else 0)⟩

/-- The stream after a call. -/
def next (s : Stream) : Stream :=
  { s with resampleRemainder :=
      (s.framesPerCallback * s.audoutRate + s.resampleRemainder) % s.sampleRate }

/-- What a call does. -/
theorem Accepted.convert (h : s.Accepted) : convertCallbackToAudout s s.outCapacityFrames =
    ((List.range s.wantedFrames).map s.copied, s.next) := by
  obtain ⟨hpos, hle⟩ := h.wantedFrames_bounds
  simp only [convertCallbackToAudout]
  rw [if_neg (Nat.not_lt.2 hpos), if_neg (Nat.not_lt.2 hle)]
  refine Prod.ext (List.map_congr_left fun frame hframe => ?_) rfl
  have hsource := h.sourceFrame_lt (List.mem_range.1 hframe)
  rw [if_neg (Nat.not_le.2 hsource)]
  rfl

theorem Accepted.next (h : s.Accepted) : s.next.Accepted :=
  ⟨h.rate_ge, h.rate_le, h.channels, h.frames_ge, h.frames_le, h.hardware, h.capacity,
    h.bytes, h.alloc,
    Nat.mod_lt _ (by have := h.rate_ge; show 0 < s.sampleRate; omega)⟩

/-- The samples of a frame are inside the callback buffer. -/
theorem Accepted.sampleIndex_lt (h : s.Accepted) {frame channel : Nat}
    (hframe : frame < s.framesPerCallback) :
    (s.sampleIndex frame channel + 1) * bytesPerSample s.format ≤ s.callbackBytes := by
  have hchannels := h.channels
  have hindex : s.sampleIndex frame channel < (frame + 1) * s.channels := by
    simp only [sampleIndex, Nat.succ_mul]
    split_ifs <;> omega
  have hbuffer := Nat.mul_le_mul_right s.channels (Nat.succ_le_of_lt hframe)
  rw [h.bytes]
  exact Nat.mul_le_mul_right _ (Nat.le_trans hindex hbuffer)

end Stream

/-! ## Successive calls -/

namespace Stream

variable {s : Stream}

/-- The stream after `n` calls. -/
def after (s : Stream) (n : Nat) : Stream :=
  { s with resampleRemainder := n * (s.framesPerCallback * s.audoutRate) % s.sampleRate }

/-- The output frames of the call after `n` calls. -/
def callFrames (s : Stream) (n : Nat) : List Copied :=
  (List.range (s.after n).wantedFrames).map (s.after n).copied

theorem Accepted.rate_pos (h : s.Accepted) : 0 < s.sampleRate :=
    Nat.lt_of_lt_of_le (by decide) h.rate_ge

theorem Accepted.after (h : s.Accepted) (n : Nat) : (s.after n).Accepted :=
  ⟨h.rate_ge, h.rate_le, h.channels, h.frames_ge, h.frames_le, h.hardware, h.capacity,
    h.bytes, h.alloc,
    Nat.mod_lt _ h.rate_pos⟩

/-- One more call. -/
theorem after_next (n : Nat) : (s.after n).next = s.after (n + 1) := by
  simp only [after, next, Carry.mod_succ]

/-- What the calls do, one by one. -/
theorem Accepted.convertCalls (h : s.Accepted) (hzero : s.resampleRemainder = 0) (n : Nat) :
    convertCalls s n = ((List.range n).map s.callFrames, s.after n) := by
  induction n with
  | zero =>
      have hstart : s.after 0 = s := by
        rw [Stream.after, Nat.zero_mul, Nat.zero_mod, ← hzero]
      rw [hstart]
      rfl
  | succ n ih =>
      have hcapacity : (s.after n).outCapacityFrames = s.outCapacityFrames := rfl
      simp only [Audio.convertCalls, ih, (h.after n).convert, List.range_succ, List.map_append,
        List.map_singleton, after_next]
      rfl

/-- The frames of the calls add up to those of one long conversion, rounded down. -/
theorem Accepted.sum_frames (h : s.Accepted) (n : Nat) :
    (((List.range n).map s.callFrames).map List.length).sum =
      n * (s.framesPerCallback * s.audoutRate) / s.sampleRate := by
  induction n with
  | zero => simp
  | succ n ih =>
      rw [List.range_succ, List.map_append, List.map_append, List.sum_append, ih,
        ← Carry.div_succ h.rate_pos]
      simp only [List.map_singleton, List.sum_singleton, callFrames, List.length_map,
        List.length_range]
      rfl

end Stream

theorem globalSources_append (size n : Nat) (first second : List (List Copied)) :
    globalSources size n (first ++ second) =
      globalSources size n first ++ globalSources size (n + first.length) second := by
  induction first generalizing n with
  | nil => rfl
  | cons frames first ih =>
      rw [List.cons_append, globalSources, globalSources, ih, List.append_assoc, List.length_cons,
        Nat.add_right_comm, Nat.add_assoc]

theorem length_globalSources (size n : Nat) (calls : List (List Copied)) :
    (globalSources size n calls).length = (calls.map List.length).sum := by
  induction calls generalizing n with
  | nil => rfl
  | cons frames calls ih => simp [globalSources, ih]

namespace Stream

variable {s : Stream}

/-- Where an output frame of a call is copied from, counted over all callbacks. -/
theorem Accepted.source_near (h : s.Accepted) (n frame : Nat) :
    let k := n * (s.framesPerCallback * s.audoutRate) / s.sampleRate + frame
    k * s.sampleRate / s.audoutRate ≤ n * s.framesPerCallback + (s.after n).sourceFrame frame ∧
      n * s.framesPerCallback + (s.after n).sourceFrame frame ≤
        k * s.sampleRate / s.audoutRate + (s.sampleRate + s.audoutRate - 1) / s.audoutRate := by
  intro k
  have hhardware : 0 < s.audoutRate := by
    rw [h.hardware]
    decide
  -- What the calls before have left over is where the two positions differ.
  have hposition : n * s.framesPerCallback + (s.after n).sourceFrame frame =
      (k * s.sampleRate + n * (s.framesPerCallback * s.audoutRate) % s.sampleRate) /
        s.audoutRate := by
    have hsplit := Nat.mod_add_div (n * (s.framesPerCallback * s.audoutRate)) s.sampleRate
    have hk : k * s.sampleRate + n * (s.framesPerCallback * s.audoutRate) % s.sampleRate =
        frame * s.sampleRate + s.audoutRate * (n * s.framesPerCallback) := by
      rw [Nat.add_mul, Nat.mul_comm _ s.sampleRate, Nat.mul_comm s.audoutRate, Nat.mul_assoc]
      omega
    rw [hk, Nat.add_mul_div_left _ _ hhardware, Nat.add_comm]
    rfl
  rw [hposition]
  have hremainder := Nat.mod_lt (n * (s.framesPerCallback * s.audoutRate)) h.rate_pos
  refine ⟨Nat.div_le_div_right (Nat.le_add_right _ _), ?_⟩
  refine Nat.le_trans (Carry.add_div_le hhardware _ _) (Nat.add_le_add_left ?_ _)
  exact Nat.div_le_div_right (by omega)

end Stream

/-! ## All calls -/

/-- What holds of `n` successive calls for a stream. -/
structure Exact (s : Stream) (n : Nat) : Prop where
  /-- The number of output frames. -/
  total : ((convertCalls s n).1.map List.length).sum =
    n * s.framesPerCallback * 48000 / s.sampleRate
  /-- No bound has an effect in any call. -/
  bounds : ∀ m < n, 1 ≤ (convertCalls s m).2.wantedFrames ∧
    (convertCalls s m).2.wantedFrames ≤ s.outCapacityFrames ∧
    ∀ frame < (convertCalls s m).2.wantedFrames,
      (convertCalls s m).2.sourceFrame frame < s.framesPerCallback
  /-- The samples that are read are in the callback buffer. -/
  reads : ∀ frames ∈ (convertCalls s n).1, ∀ f ∈ frames,
    (f.left + 1) * bytesPerSample s.format ≤ s.callbackBytes ∧
      (f.right + 1) * bytesPerSample s.format ≤ s.callbackBytes
  /-- The frames that are written, of two samples of two bytes, are in the output buffer. -/
  writes : ∀ frames ∈ (convertCalls s n).1,
    frames.length ≤ s.outCapacityFrames ∧ frames.length * 4 ≤ s.outAllocBytes
  /-- Output frame number `k` is copied from an input frame near `k * sampleRate / 48000`. -/
  near : ∀ k g, (globalSources s.framesPerCallback 0 (convertCalls s n).1)[k]? = some g →
    k * s.sampleRate / 48000 ≤ g ∧ g ≤ k * s.sampleRate / 48000 + (s.sampleRate + 47999) / 48000

namespace Stream

variable {s : Stream}

/-- The frames of all calls are near where they belong. -/
theorem Accepted.sources_near (h : s.Accepted) (n k g : Nat)
    (hk : (globalSources s.framesPerCallback 0 ((List.range n).map s.callFrames))[k]? = some g) :
    k * s.sampleRate / s.audoutRate ≤ g ∧
      g ≤ k * s.sampleRate / s.audoutRate + (s.sampleRate + s.audoutRate - 1) / s.audoutRate := by
  induction n with
  | zero => cases hk
  | succ n ih =>
      rw [List.range_succ, List.map_append, globalSources_append, List.length_map,
        List.length_range,
        Nat.zero_add, List.map_singleton, globalSources, globalSources, List.append_nil] at hk
      have hlength := length_globalSources s.framesPerCallback 0 ((List.range n).map s.callFrames)
      rw [h.sum_frames] at hlength
      by_cases hbefore : k < n * (s.framesPerCallback * s.audoutRate) / s.sampleRate
      · rw [List.getElem?_append_left (by rwa [hlength])] at hk
        exact ih hk
      · rw [List.getElem?_append_right (by rw [hlength]; omega), hlength] at hk
        simp only [callFrames, List.map_map, List.getElem?_map, Option.map_eq_some_iff] at hk
        obtain ⟨frame, hframe, rfl⟩ := hk
        have hnear := h.source_near n frame
        obtain ⟨hlt, rfl⟩ := List.getElem?_eq_some_iff.1 hframe
        rw [List.getElem_range] at hnear ⊢
        rw [Nat.add_sub_cancel' (Nat.not_lt.1 hbefore)] at hnear
        exact hnear

/-- The samples of the frames of a call are in the callback buffer. -/
theorem Accepted.callFrames_reads (h : s.Accepted) {n : Nat} {f : Copied}
    (hf : f ∈ s.callFrames n) :
    (f.left + 1) * bytesPerSample s.format ≤ s.callbackBytes ∧
      (f.right + 1) * bytesPerSample s.format ≤ s.callbackBytes := by
  obtain ⟨frame, hframe, rfl⟩ := List.mem_map.1 hf
  have hsource := (h.after n).sourceFrame_lt (List.mem_range.1 hframe)
  exact ⟨(h.after n).sampleIndex_lt hsource, (h.after n).sampleIndex_lt hsource⟩

/-- The frames of a call are in the output buffer. -/
theorem Accepted.callFrames_writes (h : s.Accepted) (n : Nat) :
    (s.callFrames n).length ≤ s.outCapacityFrames ∧ (s.callFrames n).length * 4 ≤
      s.outAllocBytes := by
  have hle : (s.callFrames n).length ≤ s.outCapacityFrames := by
    rw [callFrames, List.length_map, List.length_range]
    exact (h.after n).wantedFrames_bounds.2
  exact ⟨hle, Nat.le_trans (Nat.mul_le_mul_right 4 hle) h.alloc⟩

end Stream

/-- For every stream that is opened and every number of callbacks. -/
theorem resampling_exact {b : Builder} {device : Device} {s : Stream}
    (hopen : openStream b device = .ok s) (n : Nat) : Exact s n := by
  obtain ⟨h, hzero⟩ := openStream_accepted hopen
  have hcalls := h.convertCalls hzero
  refine ⟨?_, fun m _ => ?_, fun frames hframes f hf => ?_, fun frames hframes => ?_, ?_⟩
  · rw [hcalls, h.sum_frames, h.hardware, Nat.mul_assoc]
  · rw [hcalls]
    obtain ⟨hpos, hle⟩ := (h.after m).wantedFrames_bounds
    exact ⟨hpos, hle, fun frame => (h.after m).sourceFrame_lt⟩
  · rw [hcalls] at hframes
    obtain ⟨m, -, rfl⟩ := List.mem_map.1 hframes
    exact h.callFrames_reads hf
  · rw [hcalls] at hframes
    obtain ⟨m, -, rfl⟩ := List.mem_map.1 hframes
    exact h.callFrames_writes m
  · intro k g hk
    rw [hcalls] at hk
    have hnear := h.sources_near n k g hk
    have hround : s.sampleRate + 48000 - 1 = s.sampleRate + 47999 := by omega
    rwa [h.hardware, hround] at hnear

/-- A stream of 44100 frames a second, over three callbacks. -/
theorem resampling_exact_example : Exact ⟨44100, 2, 2, 256, 2048, 48000, 279, 4096, 0⟩ 3 := by
  have hopen : openStream ⟨44100, 2, 0, 0, 256, true⟩
    ⟨true, true, false, true, 48000, 2, true, true⟩ =
      .ok ⟨44100, 2, 2, 256, 2048, 48000, 279, 4096, 0⟩ := rfl
  exact resampling_exact hopen 3

end Asnx.Audio
