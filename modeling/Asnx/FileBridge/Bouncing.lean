import Asnx.FileBridge.PositionedReads
import Mathlib.Algebra.Order.Group.Nat

/-!
# Transfers through the bounce buffer

`positioned_native_read` and `positioned_native_write` of `source/file_bridge.c` go through a
buffer of their own when the native call refuses the buffer of the caller. Either way the same
bytes are transferred (`bounced_alike`). A native read gives what there is of the file up to the
count, a native write writes all or fails. A file has less than 2^63 bytes, so no offset here
wraps.
-/

namespace Asnx.FileBridge

/-- The result `0xD401`, with which a native call refuses a buffer. -/
def refusesBuffer : Nat := 0xD401

/-- The size of `bounce`. -/
def bounceSize : Nat := 0x1000

/-! ## Writes -/

section Write

variable {σ : Type*} (fsFileWrite : Int → List UInt8 → σ → Except Nat Unit × σ)

/-- The loop of `positioned_native_write`. Every turn writes something, or is the last one. -/
def bounceWriteLoop (buf : List UInt8) (offset : Int) : Nat → Nat → σ → Except Int Nat × σ
  | 0, done, s => (.ok done, s)
  | turns + 1, done, s =>
      if done < buf.length then
        let want := min (buf.length - done) bounceSize
        match fsFileWrite (offset + done) ((buf.drop done).take want) s with
        | (.error _, s) => if done ≠ 0 then (.ok done, s) else (.error eio, s)
        | (.ok _, s) => bounceWriteLoop buf offset turns (done + want) s
      else (.ok done, s)

/-- `positioned_native_write` of the buffer. -/
def positionedNativeWrite (buf : List UInt8) (offset : Int) (s : σ) : Except Int Nat × σ :=
  if buf.length = 0 then (.ok 0, s)
  else
    match fsFileWrite offset buf s with
    | (.ok _, s) => (.ok buf.length, s)
    | (.error rc, s) =>
        if rc ≠ refusesBuffer then (.error eio, s)
        else bounceWriteLoop fsFileWrite buf offset buf.length 0 s

end Write

/-! ## Native files -/

/-- What the native calls answer, one after the other: the result of a call that fails. -/
abbrev Answers := Nat → Option Nat

/-- The bytes of a file from an offset on, up to a count. -/
def available (file : List UInt8) (off count : Nat) : List UInt8 := (file.drop off).take count

/-- The content of a file after a write. What lies before it and past the end becomes zeros. -/
def overwrite (file : List UInt8) (off : Nat) (bytes : List UInt8) : List UInt8 :=
  (file ++ List.replicate (off - file.length) 0).take off ++ bytes ++ file.drop (off + bytes.length)

/-- A native file for reading, whose state counts the calls. -/
def nativeReads (file : List UInt8) (answers : Answers) : Host Nat file where
  snapshot s := (true, s)
  fsFileRead want off s :=
    match answers s with
    | some rc => (.error rc, s + 1)
    | none => (.ok (available file off.toNat want), s + 1)
  tell s := (.error eio, s)
  seek _ s := (.error eio, s)
  read _ s := (.error eio, s)
  pos _ := 0
  fsFileRead_gives want off s _ := by
    cases answers s with
    | some rc => exact trivial
    | none =>
        refine ⟨List.take_prefix _ _, List.length_take_le _ _, ?_⟩
        intro hnil hpos
        have hlength := congrArg List.length hnil
        unfold available at hlength
        rw [List.length_take, List.length_drop, List.length_nil] at hlength
        omega
  seek_pos _ _ h := by cases h
  read_gives _ _ _ := trivial

/-- A native file for writing, with the calls counted. -/
structure NativeFile where
  content : List UInt8
  calls : Nat

/-- `fsFileWrite` -/
def nativeWrite (answers : Answers) (off : Int) (bytes : List UInt8) (s : NativeFile) :
    Except Nat Unit × NativeFile :=
  match answers s.calls with
  | some rc => (.error rc, ⟨s.content, s.calls + 1⟩)
  | none => (.ok (), ⟨overwrite s.content off.toNat bytes, s.calls + 1⟩)

variable {file : List UInt8} {answers : Answers} {off count k : Nat}

theorem length_available : (available file off count).length = min count (file.length - off) := by
  unfold available
  rw [List.length_take, List.length_drop]

/-- A piece of what is available, and the piece after it. -/
theorem available_append (file : List UInt8) (off : Nat) {count done : Nat} (want : Nat)
    (hdone : done + want ≤ count) :
    (available file off count).take done ++ available file (off + done) want =
      (available file off count).take (done + want) := by
  unfold available
  rw [List.take_take, List.take_take, Nat.min_eq_left (by omega), Nat.min_eq_left hdone,
    List.take_add,
    List.drop_drop]

/-- Two writes in a row are one. -/
theorem overwrite_append (file : List UInt8) (off : Nat) (a b : List UInt8) :
    overwrite (overwrite file off a) (off + a.length) b = overwrite file off (a ++ b) := by
  unfold overwrite
  generalize hbefore : (file ++ List.replicate (off - file.length) 0).take off = before
  have hlength : before.length = off := by
    rw [← hbefore, List.length_take, List.length_append, List.length_replicate]
    omega
  have hsplit : (before ++ a).length = off + a.length := by
    rw [List.length_append, hlength]
  have htake : (before ++ a ++ file.drop (off + a.length) ++
      List.replicate (off + a.length - (before ++ a ++ file.drop (off + a.length)).length) 0).take
        (off + a.length) = before ++ a := by
    rw [List.append_assoc, ← hsplit, List.take_left]
  have hdrop : (before ++ a ++ file.drop (off + a.length)).drop (off + a.length + b.length) =
      file.drop (off + (a ++ b).length) := by
    rw [← List.drop_drop, ← hsplit, List.drop_left, hsplit, List.drop_drop, List.length_append,
      Nat.add_assoc]
  rw [htake, hdrop, List.append_assoc before a b]

/-! ## Bounced reads -/

/-- The call number `k` of the loop of a read is made when those before it have succeeded. -/
def ReadCall (file : List UInt8) (off count k : Nat) : Prop :=
  k * bounceSize < count ∧ k * bounceSize ≤ (available file off count).length

/-- What the loop has read after `k` calls. -/
def readSoFar (file : List UInt8) (off count k : Nat) : List UInt8 :=
  (available file off count).take (k * bounceSize)

theorem ReadCall.length_readSoFar (h : ReadCall file off count k) :
    (readSoFar file off count k).length = k * bounceSize := by
  unfold readSoFar
  rw [List.length_take, Nat.min_eq_left h.2]

/-- A call of the loop that succeeds: it was the last, or the loop goes on with the next. -/
theorem bounceLoop_turn (turns : Nat) (h : ReadCall file off count k)
    (hcall : answers (k + 1) = none)
    (hturns : count ≤ k * bounceSize + (turns + 1)) :
    ((bounceLoop (nativeReads file answers) count off (turns + 1) (readSoFar file off count k)
        (k + 1)).1 = .ok (available file off count) ∧ ¬ ReadCall file off count (k + 1)) ∨
    ReadCall file off count (k + 1) ∧
      bounceLoop (nativeReads file answers) count off (turns + 1)
        (readSoFar file off count k) (k + 1) =
        bounceLoop (nativeReads file answers) count off turns (readSoFar file off count (k + 1))
          (k + 2) := by
  have hlength := h.length_readSoFar
  have hnext : (k + 1) * bounceSize = k * bounceSize + bounceSize := Nat.succ_mul _ _
  obtain ⟨hlt, hle⟩ := h
  rw [bounceLoop, hlength, if_pos hlt]
  dsimp only
  generalize hwant : min (count - k * bounceSize) 0x1000 = want
  have hread : (nativeReads file answers).fsFileRead want
    ((off : Int) + (k * bounceSize : Nat)) (k + 1) =
      (.ok (available file (off + k * bounceSize) want), k + 2) := by
    show (match answers (k + 1) with | some rc => _ | none => _) = _
    rw [hcall]
    have hposition : ((off : Int) + (k * bounceSize : Nat)).toNat = off + k * bounceSize := by omega
    rw [hposition]
  rw [hread]
  dsimp only
  have happend : readSoFar file off count k ++ available file (off + k * bounceSize) want =
      (available file off count).take (k * bounceSize + want) :=
    available_append file off want (by omega)
  rw [happend, length_available]
  have hall : (available file off count).length = min count (file.length - off) := length_available
  have hsize : bounceSize = 0x1000 := rfl
  split
  case isTrue hshort =>
    -- the end of the file
    left
    refine ⟨?_, fun hcall' => ?_⟩
    · rw [List.take_of_length_le (by omega)]
    · obtain ⟨-, hle'⟩ := hcall'
      omega
  case isFalse hfull =>
    by_cases hmore : (k + 1) * bounceSize < count
    · right
      have hlast : want = bounceSize := by omega
      refine ⟨⟨hmore, by omega⟩, ?_⟩
      unfold readSoFar
      rw [hnext, hlast]
    · -- what was read fills the count
      left
      have hwhole : (available file off count).take (k * bounceSize + want) =
        available file off count :=
        List.take_of_length_le (by omega)
      refine ⟨?_, fun hcall' => hmore hcall'.1⟩
      rw [hwhole]
      cases turns with
      | zero => rfl
      | succ turns =>
          rw [bounceLoop, if_neg (by omega)]

/-- A call of the loop that fails. -/
theorem bounceLoop_error (turns : Nat) {rc : Nat} (h : ReadCall file off count k)
    (hcall : answers (k + 1) = some rc) :
    (bounceLoop (nativeReads file answers) count off (turns + 1) (readSoFar file off count k)
      (k + 1)).1 = if k = 0 then .error eio else .ok (readSoFar file off count k) := by
  have hlength := h.length_readSoFar
  have hnil : readSoFar file off count k ≠ [] ↔ k ≠ 0 := by
    rw [← List.length_pos_iff_ne_nil, hlength]
    unfold bounceSize
    omega
  rw [bounceLoop, hlength, if_pos h.1]
  dsimp only
  have hread : ∀ want pos, (nativeReads file answers).fsFileRead want pos (k + 1) =
      (.error rc, k + 2) := by
    intro want pos
    show (match answers (k + 1) with | some rc => _ | none => _) = _
    rw [hcall]
  rw [hread]
  dsimp only
  by_cases hk : k = 0
  · rw [if_neg (mt hnil.1 (not_not.2 hk)), if_pos hk]
  · rw [if_pos (hnil.2 hk), if_neg hk]

/-- When no call fails the loop reads all that is available. -/
theorem bounceLoop_all (turns : Nat) (h : ReadCall file off count k)
    (hcalls : ∀ j, k ≤ j → ReadCall file off count j → answers (j + 1) = none)
    (hturns : count ≤ k * bounceSize + turns) :
    (bounceLoop (nativeReads file answers) count off turns (readSoFar file off count k) (k + 1)).1 =
      .ok (available file off count) := by
  induction turns generalizing k with
  | zero => exact absurd h.1 (by omega)
  | succ turns ih =>
      rcases bounceLoop_turn turns h (hcalls k le_rfl h) hturns with ⟨hdone, -⟩ | ⟨hnext, heq⟩
      · exact hdone
      · have hsize : (k + 1) * bounceSize = k * bounceSize + 0x1000 := Nat.succ_mul _ _
        rw [heq]
        exact ih hnext (fun j hj => hcalls j (by omega)) (by omega)

/-- When the call number `j` is the first that fails the loop has read what is before it. -/
theorem bounceLoop_stops (turns : Nat) {j rc : Nat} (hkj : k ≤ j) (hj : ReadCall file off count j)
    (hbefore : ∀ i, k ≤ i → i < j → answers (i + 1) = none) (hfails : answers (j + 1) = some rc)
    (hturns : count ≤ k * bounceSize + turns) :
    (bounceLoop (nativeReads file answers) count off turns (readSoFar file off count k) (k + 1)).1 =
      if j = 0 then .error eio else .ok (readSoFar file off count j) := by
  have hmono : k * bounceSize ≤ j * bounceSize := Nat.mul_le_mul_right _ hkj
  have h : ReadCall file off count k := ⟨hmono.trans_lt hj.1, hmono.trans hj.2⟩
  induction turns generalizing k with
  | zero => exact absurd h.1 (by omega)
  | succ turns ih =>
      rcases Nat.eq_or_lt_of_le hkj with rfl | hlt
      · exact bounceLoop_error turns h hfails
      · have hnextj : (k + 1) * bounceSize ≤ j * bounceSize := Nat.mul_le_mul_right _ hlt
        have hnext : ReadCall file off count (k + 1) := ⟨hnextj.trans_lt hj.1, hnextj.trans hj.2⟩
        rcases bounceLoop_turn turns h (hbefore k le_rfl hlt) hturns with ⟨-, hnot⟩ | ⟨-, heq⟩
        · exact absurd hnext hnot
        · have hsize : (k + 1) * bounceSize = k * bounceSize + 0x1000 := Nat.succ_mul _ _
          rw [heq]
          exact ih hlt (fun i hi => hbefore i (by omega)) (by omega) hnextj hnext

/-! ## Bounced writes -/

section BouncedWrites

variable {buf : List UInt8}

/-- The file after `k` calls of the loop of a write. -/
def writtenSoFar (file : List UInt8) (off : Nat) (buf : List UInt8) (k : Nat) : List UInt8 :=
  if k = 0 then file else overwrite file off (buf.take (k * bounceSize))

/-- A call of the loop of a write that succeeds. -/
theorem nativeWrite_chunk (h : k * bounceSize < buf.length) (hcall : answers (k + 1) = none) :
    nativeWrite answers ((off : Int) + (k * bounceSize : Nat))
        ((buf.drop (k * bounceSize)).take (min (buf.length - k * bounceSize) bounceSize))
        ⟨writtenSoFar file off buf k, k + 1⟩ =
      (.ok (), ⟨writtenSoFar file off buf (k + 1), k + 2⟩) := by
  have hnext : (k + 1) * bounceSize = k * bounceSize + bounceSize := Nat.succ_mul _ _
  have hchunk : (buf.drop (k * bounceSize)).take (min (buf.length - k * bounceSize) bounceSize) =
      (buf.drop (k * bounceSize)).take bounceSize := by
    rw [← List.length_drop, Nat.min_comm, ← List.take_eq_take_min]
  have hposition : ((off : Int) + (k * bounceSize : Nat)).toNat = off + k * bounceSize := by omega
  unfold nativeWrite
  dsimp only
  rw [hcall, hchunk, hposition]
  dsimp only
  unfold writtenSoFar
  rw [if_neg (Nat.succ_ne_zero k), hnext, List.take_add]
  by_cases hk : k = 0
  · subst hk
    simp
  · have hlength : (buf.take (k * bounceSize)).length = k * bounceSize := by
      rw [List.length_take]
      omega
    rw [if_neg hk, ← overwrite_append, hlength]

/-- When no call fails the loop writes the whole buffer. -/
theorem bounceWriteLoop_all (turns : Nat) (h : k * bounceSize < buf.length)
    (hcalls : ∀ j, k ≤ j → j * bounceSize < buf.length → answers (j + 1) = none)
    (hturns : buf.length ≤ k * bounceSize + turns) :
    ∃ calls, bounceWriteLoop (nativeWrite answers) buf off turns (k * bounceSize)
      ⟨writtenSoFar file off buf k, k + 1⟩ = (.ok buf.length, ⟨overwrite file off buf, calls⟩) := by
  have hsize : (k + 1) * bounceSize = k * bounceSize + 0x1000 := Nat.succ_mul _ _
  have hbounce : bounceSize = 0x1000 := rfl
  induction turns generalizing k with
  | zero => exact absurd h (by omega)
  | succ turns ih =>
      rw [bounceWriteLoop, if_pos h]
      dsimp only
      rw [nativeWrite_chunk h (hcalls k le_rfl h)]
      dsimp only
      by_cases hmore : (k + 1) * bounceSize < buf.length
      · have hdone : k * bounceSize + min (buf.length - k * bounceSize) bounceSize =
            (k + 1) * bounceSize := by omega
        rw [hdone]
        exact ih hmore (fun j hj => hcalls j (by omega)) (by omega) (Nat.succ_mul _ _)
      · have hdone : k * bounceSize + min (buf.length - k * bounceSize) bounceSize =
          buf.length := by
          omega
        have hwhole : writtenSoFar file off buf (k + 1) = overwrite file off buf := by
          unfold writtenSoFar
          rw [if_neg (Nat.succ_ne_zero k), List.take_of_length_le (by omega)]
        rw [hdone, hwhole]
        refine ⟨k + 2, ?_⟩
        cases turns with
        | zero => rfl
        | succ turns => rw [bounceWriteLoop, if_neg (by omega)]

/-- When the call number `j` is the first that fails the loop has written what is before it. -/
theorem bounceWriteLoop_stops (turns : Nat) {j rc : Nat} (hkj : k ≤ j)
    (hj : j * bounceSize < buf.length) (hbefore : ∀ i, k ≤ i → i < j → answers (i + 1) = none)
    (hfails : answers (j + 1) = some rc) (hturns : buf.length ≤ k * bounceSize + turns) :
    ∃ calls, bounceWriteLoop (nativeWrite answers) buf off turns (k * bounceSize)
      ⟨writtenSoFar file off buf k, k + 1⟩ =
        (if j = 0 then .error eio else .ok (j * bounceSize),
          ⟨writtenSoFar file off buf j, calls⟩) := by
  have hbounce : bounceSize = 0x1000 := rfl
  induction turns generalizing k with
  | zero =>
      have hmono : k * bounceSize ≤ j * bounceSize := Nat.mul_le_mul_right _ hkj
      exact absurd hj (by omega)
  | succ turns ih =>
      have hmono : k * bounceSize ≤ j * bounceSize := Nat.mul_le_mul_right _ hkj
      rw [bounceWriteLoop, if_pos (hmono.trans_lt hj)]
      dsimp only
      rcases Nat.eq_or_lt_of_le hkj with rfl | hlt
      · have hwrite : ∀ pos bytes, nativeWrite answers pos bytes
          ⟨writtenSoFar file off buf k, k + 1⟩ =
            (.error rc, ⟨writtenSoFar file off buf k, k + 2⟩) := by
          intro pos bytes
          unfold nativeWrite
          dsimp only
          rw [hfails]
        rw [hwrite]
        dsimp only
        refine ⟨k + 2, ?_⟩
        by_cases hk : k = 0
        · subst hk
          rfl
        · rw [if_neg hk, if_pos (Nat.mul_ne_zero hk (by decide))]
      · have hnextj : (k + 1) * bounceSize ≤ j * bounceSize := Nat.mul_le_mul_right _ hlt
        have hsize : (k + 1) * bounceSize = k * bounceSize + 0x1000 := Nat.succ_mul _ _
        have hdone : k * bounceSize + min (buf.length - k * bounceSize) bounceSize =
            (k + 1) * bounceSize := by omega
        rw [nativeWrite_chunk (hmono.trans_lt hj) (hbefore k le_rfl hlt)]
        dsimp only
        rw [hdone]
        exact ih hlt (fun i hi => hbefore i (by omega)) (by omega)

end BouncedWrites

/-! ## Either way -/

/-- A read at an offset, with its result. -/
def readResult (file : List UInt8) (answers : Answers) (count off : Nat) :
    Except Int (List UInt8) :=
  (positionedNativeRead (nativeReads file answers) count off 0).1

/-- A read gives the same bytes through the buffer of the caller and through the bounce buffer, and
the bytes before the first bounced call that fails. -/
structure ReadsAlike (file : List UInt8) (answers : Answers) (count off : Nat) : Prop where
  direct : answers 0 = none → readResult file answers count off = .ok (available file off count)
  bounced : answers 0 = some refusesBuffer →
    (∀ k, ReadCall file off count k → answers (k + 1) = none) →
      readResult file answers count off = .ok (available file off count)
  stops : answers 0 = some refusesBuffer → ∀ k rc, ReadCall file off count k →
    answers (k + 1) = some rc → (∀ j < k, answers (j + 1) = none) →
      readResult file answers count off =
        if k = 0 then .error eio else .ok ((available file off count).take (k * bounceSize))

/-- A write at an offset, with its result and the file after it. -/
def writeResult (file : List UInt8) (answers : Answers) (buf : List UInt8) (off : Nat) :
    Except Int Nat × List UInt8 :=
  let (result, s) := positionedNativeWrite (nativeWrite answers) buf off ⟨file, 0⟩
  (result, s.content)

/-- A write leaves the same file through the buffer of the caller and through the bounce buffer, and
the bytes before the first bounced call that fails. -/
structure WritesAlike (file : List UInt8) (answers : Answers) (buf : List UInt8) (off : Nat) :
    Prop where
  direct : answers 0 = none → buf ≠ [] →
    writeResult file answers buf off = (.ok buf.length, overwrite file off buf)
  bounced : answers 0 = some refusesBuffer → buf ≠ [] →
    (∀ k, k * bounceSize < buf.length → answers (k + 1) = none) →
      writeResult file answers buf off = (.ok buf.length, overwrite file off buf)
  stops : answers 0 = some refusesBuffer → ∀ k rc, k * bounceSize < buf.length →
    answers (k + 1) = some rc → (∀ j < k, answers (j + 1) = none) →
      writeResult file answers buf off =
        if k = 0 then (.error eio, file)
        else (.ok (k * bounceSize), overwrite file off (buf.take (k * bounceSize)))
  empty : writeResult file answers [] off = (.ok 0, file)

theorem readResult_refused (hcount : count ≠ 0) (hrefused : answers 0 = some refusesBuffer) :
    readResult file answers count off =
      (bounceLoop (nativeReads file answers) count off count (readSoFar file off count 0) 1).1 := by
  unfold readResult positionedNativeRead
  rw [if_neg hcount]
  have hread : (nativeReads file answers).fsFileRead count off 0 = (.error refusesBuffer, 1) := by
    show (match answers 0 with | some rc => _ | none => _) = _
    rw [hrefused]
  rw [hread]
  dsimp only
  rw [if_neg (by decide)]
  rfl

theorem reads_alike (file : List UInt8) (answers : Answers) (count off : Nat) :
    ReadsAlike file answers count off := by
  by_cases hcount : count = 0
  case pos =>
    subst hcount
    have hempty : readResult file answers 0 off = .ok (available file off 0) := by
      unfold available
      rw [List.take_zero]
      rfl
    exact ⟨fun _ => hempty, fun _ _ => hempty, fun _ k _ hcall =>
      absurd hcall.1 (Nat.not_lt_zero _)⟩
  case neg =>
    have hfirst : ReadCall file off count 0 := by
      unfold ReadCall
      omega
    refine ⟨fun hdirect => ?_, fun hrefused hcalls => ?_, fun hrefused k rc hk hfails hbefore => ?_⟩
    · unfold readResult positionedNativeRead
      rw [if_neg hcount]
      have hread : (nativeReads file answers).fsFileRead count off 0 =
          (.ok (available file off count), 1) := by
        show (match answers 0 with | some rc => _ | none => _) = _
        rw [hdirect]
        rfl
      rw [hread]
    · rw [readResult_refused hcount hrefused]
      exact bounceLoop_all count hfirst (fun j _ => hcalls j) (by omega)
    · rw [readResult_refused hcount hrefused]
      exact bounceLoop_stops count (Nat.zero_le k) hk (fun i _ => hbefore i) hfails (by omega)

theorem writeResult_refused {buf : List UInt8} (hbuf : buf ≠ [])
    (hrefused : answers 0 = some refusesBuffer) {result : Except Int Nat} {content : List UInt8}
    (h : ∃ calls, bounceWriteLoop (nativeWrite answers) buf off buf.length (0 * bounceSize)
      ⟨writtenSoFar file off buf 0, 1⟩ = (result, ⟨content, calls⟩)) :
    writeResult file answers buf off = (result, content) := by
  obtain ⟨calls, h⟩ := h
  have hwrite : nativeWrite answers off buf ⟨file, 0⟩ = (.error refusesBuffer, ⟨file, 1⟩) := by
    unfold nativeWrite
    dsimp only
    rw [hrefused]
  unfold writeResult positionedNativeWrite
  rw [if_neg (mt List.length_eq_zero_iff.1 hbuf), hwrite]
  dsimp only
  rw [if_neg (not_not.2 rfl)]
  rw [Nat.zero_mul] at h
  rw [show writtenSoFar file off buf 0 = file from rfl] at h
  rw [h]

theorem writes_alike (file : List UInt8) (answers : Answers) (buf : List UInt8) (off : Nat) :
    WritesAlike file answers buf off where
  direct hdirect hbuf := by
    have hwrite : nativeWrite answers off buf ⟨file, 0⟩ =
        (.ok (), ⟨overwrite file off buf, 1⟩) := by
      unfold nativeWrite
      dsimp only
      rw [hdirect]
      rfl
    unfold writeResult positionedNativeWrite
    rw [if_neg (mt List.length_eq_zero_iff.1 hbuf), hwrite]
  bounced hrefused hbuf hcalls := by
    have hpos : 0 * bounceSize < buf.length := by
      rw [Nat.zero_mul]
      exact List.length_pos_iff.2 hbuf
    exact writeResult_refused hbuf hrefused
      (bounceWriteLoop_all buf.length hpos (fun j _ => hcalls j) (by omega))
  stops hrefused k rc hk hfails hbefore := by
    have hbuf : buf ≠ [] := by
      rintro rfl
      exact absurd hk (Nat.not_lt_zero _)
    rw [writeResult_refused hbuf hrefused (bounceWriteLoop_stops buf.length (Nat.zero_le k) hk
      (fun i _ => hbefore i) hfails (by omega))]
    unfold writtenSoFar
    split <;> rfl
  empty := rfl

/-- Whatever the file holds and at every offset, for every count and every buffer: a positioned read
and a positioned write transfer the same whether the native call takes the buffer of the caller or
refuses it, and a bounced transfer that fails on the way has transferred the bytes it returns. -/
theorem bounced_alike (file : List UInt8) (answers : Answers) (off : Nat) :
    (∀ count, ReadsAlike file answers count off) ∧ ∀ buf, WritesAlike file answers buf off :=
  ⟨fun count => reads_alike file answers count off, fun buf => writes_alike file answers buf off⟩

end Asnx.FileBridge
