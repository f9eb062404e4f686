import Asnx.FakeFd.Fifo
import Asnx.FakeFd.Waiting

/-!
# Messages on a pipe

A section of `fakefd_write` puts as many of the next bytes into the ring as there is room for, all
of them in a row. So a message arrives in one piece if there is room for all of it when the call
first puts bytes into the pipe, and is cut otherwise, also when it is small (`message_pieces`).
-/

namespace Asnx.FakeFd

open RingBuffer Threads

variable {T : Type*} [DecidableEq T]

variable {s s' : FdState} {l l' : Pc} {slot : Fin fakeFdCount} {src : Source} {p total : Nat}
  {bytes : List UInt8}

/-- What a section of `fakefd_write` does that finds room: it puts the rest of the message into the
pipe and returns, or as much as there is room for, and then a non-blocking call returns and another
one waits. -/
structure Piece (s : FdState) (slot : Fin fakeFdCount) (p : Nat) (src : Source) (total free : Nat)
    (bytes : List UInt8) (l' : Pc) : Prop where
  whole : src.count - total ≤ free → bytes = slice src.byte total (src.count - total) ∧
    l' = .finished (.value src.count)
  cut : free < src.count - total → bytes = slice src.byte total free ∧
    l' = if s.nonblock slot then .finished (.value ↑(total + free))
      else .writeWait slot p src (total + free)

/-- At the end of the message the loop returns. -/
theorem write_loop_done {fuel : Nat} (hdone : total = src.count)
    (h : writeLoop slot p src fuel s total = some (bytes, s', l')) :
    bytes = [] ∧ l' = .finished (.value src.count) := by
  subst hdone
  cases fuel with
  | zero => cases h
  | succ fuel =>
      rw [writeLoop, if_neg (Nat.lt_irrefl _)] at h
      cases h
      exact ⟨rfl, rfl⟩

/-- With a full ring and a reader the loop waits. -/
theorem write_loop_full {fuel : Nat} {ps : PipeState} (hless : total < src.count)
    (hps : s.heap p = some ps) (hfull : ps.length = pipeCapacity) (hreaders : ps.readers ≠ 0)
    (hblock : ¬ s.nonblock slot) (h : writeLoop slot p src fuel s total = some (bytes, s', l')) :
    bytes = [] ∧ l' = .writeWait slot p src total := by
  cases fuel with
  | zero => cases h
  | succ fuel =>
      rw [writeLoop, if_pos hless, hps] at h
      simp only at h
      rw [if_pos ⟨hfull, hreaders⟩, if_neg hblock] at h
      cases h
      exact ⟨rfl, rfl⟩

/-- The loop puts one piece into the pipe. -/
theorem write_loop_piece {fuel : Nat} {ps : PipeState} (hps : s.heap p = some ps)
    (hok : ps.length ≤ pipeCapacity) (hbytes : bytes ≠ [])
    (h : writeLoop slot p src fuel s total = some (bytes, s', l')) :
    Piece s slot p src total (pipeCapacity - ps.length) bytes l' := by
  cases fuel with
  | zero => cases h
  | succ fuel =>
      rw [writeLoop] at h
      split at h
      · rename_i hless
        rw [hps] at h
        simp only at h
        split at h
        · split at h
          · cases h
            exact absurd rfl hbytes
          · cases h
            exact absurd rfl hbytes
        · rename_i hroom
          split at h
          · cases h
            exact absurd rfl hbytes
          · rename_i hreaders
            split at h
            · rename_i hfree
              exact absurd ⟨by omega, hreaders⟩ hroom
            · rename_i hfree
              by_cases hfits : src.count - total ≤ pipeCapacity - ps.length
              · -- the rest of the message has room
                have hamount : ¬ src.count - total > pipeCapacity - ps.length := by omega
                simp only [if_neg hamount] at h
                have hend : total + (src.count - total) = src.count := by omega
                refine ⟨fun _ => ?_, fun hlt => absurd hfits (by omega)⟩
                split at h
                · cases h
                  exact ⟨rfl, by rw [hend]⟩
                · split at h
                  · cases h
                  · rename_i hloop
                    cases h
                    obtain ⟨rfl, rfl⟩ := write_loop_done hend hloop
                    exact ⟨List.append_nil _, rfl⟩
              · -- it fills the ring
                have hamount : src.count - total > pipeCapacity - ps.length := by omega
                simp only [if_pos hamount] at h
                refine ⟨fun hle => absurd hle hfits, fun _ => ?_⟩
                split at h
                · rename_i hnonblock
                  cases h
                  exact ⟨rfl, (if_pos hnonblock).symm⟩
                · rename_i hblock
                  split at h
                  · cases h
                  · rename_i hloop
                    cases h
                    have hfull : (ps.enqueue src total (pipeCapacity - ps.length)).length =
                        pipeCapacity := by
                      show ps.length + (pipeCapacity - ps.length) = pipeCapacity
                      omega
                    obtain ⟨rfl, rfl⟩ := write_loop_full (by omega) (Function.update_self ..) hfull
                      hreaders hblock hloop
                    exact ⟨List.append_nil _, (if_neg hblock).symm⟩
      · cases h
        exact absurd rfl hbytes

/-- The section of a call that writes. -/
theorem writes_section {allocated : Option Nat} (hwrites : l.Writes slot src total)
    (h : sectionAt s allocated l = some (.enqueued p bytes, s', l')) :
    ∃ fuel, writeLoop slot p src fuel s total = some (bytes, s', l') := by
  have hfrom : ∀ q, writeFrom s slot q src total = some (.enqueued p bytes, s', l') →
      ∃ fuel, writeLoop slot p src fuel s total = some (bytes, s', l') := by
    intro q hq
    unfold writeFrom at hq
    split at hq
    · cases hq
    · rename_i hloop
      cases hq
      exact ⟨_, hloop⟩
  cases l with
  | writeStart slot' src' =>
      obtain ⟨rfl, rfl, rfl⟩ := hwrites
      simp only [sectionAt, writeLocked] at h
      split at h
      · cases h
      · split at h
        · cases h
        · split at h
          · cases h
          · split at h
            · cases h
            · exact hfrom _ h
  | writeWait slot' q src' total' =>
      obtain ⟨rfl, rfl, rfl⟩ := hwrites
      simp only [sectionAt, writeWoken] at h
      split at h
      · cases h
      · exact hfrom _ h
  | _ => exact hwrites.elim

/-! ## Runs -/

variable {c d : Threads.Config T FdState Pc} {t : T}

/-- Whenever a section of a write puts bytes into a pipe, in any run, they follow in one piece what
has been written to the pipe before. They are the whole rest of the message, and the call returns
the length of the message, if there is room for it; else they are as many of the next bytes as
there is room for, and the call returns if it is non-blocking and waits if it is not. So a message
arrives whole if there is room for it when the call first puts bytes into the pipe. -/
theorem message_pieces {trace : List (T × Event)} (h : Run (Step fdProgram) (fdStart T) trace c)
    (hwrites : (c.locals t).Writes slot src total) (hbytes : bytes ≠ [])
    (hstep : Step fdProgram c (t, .section (.enqueued p bytes)) d) :
    written p (trace ++ [(t, .section (.enqueued p bytes))]) = written p trace ++ bytes ∧
    ∃ ps, c.shared.heap p = some ps ∧
      Piece c.shared slot p src total (pipeCapacity - ps.length) bytes (d.locals t) := by
  have hinv := run_inv_run h
  obtain ⟨allocated, hsection⟩ := step_section hstep
  obtain ⟨fuel, hloop⟩ := writes_section hwrites hsection
  refine ⟨?_, ?_⟩
  · rw [written_snoc]
    simp [Event.collect, Io.enqueuedAt]
  · cases hps : c.shared.heap p with
    | none =>
        -- the loop looks at the pipe before it puts anything into it
        generalize d.shared = s' at hloop
        generalize d.locals t = l' at hloop
        cases fuel with
        | zero => cases hloop
        | succ fuel =>
            rw [writeLoop, hps] at hloop
            split at hloop
            · cases hloop
            · cases hloop
              exact absurd rfl hbytes
    | some ps =>
        exact ⟨ps, rfl, write_loop_piece hps (hinv.fd.ring p ps hps).2 hbytes hloop⟩

/-- What a step is seen to put into a pipe. -/
def Event.put : Event → Option (Nat × List UInt8)
  | .section (.enqueued p bytes) => some (p, bytes)
  | _ => none

theorem put_eq {e : Event} (h : e.put = some (p, bytes)) : e = .section (.enqueued p bytes) := by
  cases e with
  | called => cases h
  | returned => cases h
  | «section» io =>
      cases io with
      | enqueued q put =>
          cases h
          rfl
      | _ => cases h

/-- The thread is about to write a message of `n` bytes. -/
def atWrite (slot : Fin fakeFdCount) (n : Nat) : Pc → Bool
  | .writeStart slot' src => decide (slot' = slot ∧ src.count = n)
  | _ => false

theorem atWrite_writes {n : Nat} (h : atWrite slot n l = true) :
    ∃ src : Source, src.count = n ∧ l.Writes slot src 0 := by
  cases l with
  | writeStart slot' src =>
      have hwrite := of_decide_eq_true h
      exact ⟨src, hwrite.2, hwrite.1, rfl, rfl⟩
  | _ => cases h

/-- A thread opens a pipe. -/
def openPipe : List (Unit × Choice) :=
  [((), .call (.pipe false)), ((), .step (some 7)), ((), .step none)]

/-- A thread calls `fakefd_write` with `n` bytes. -/
def callWrite (n : Nat) : Unit × Choice :=
    ((), .call (.write 901 false ⟨fun k => UInt8.ofNat k, n⟩))

/-- After a schedule that ends with the call of a write of `n` bytes, the call puts these bytes
into the pipe. -/
theorem writes_after (schedule : List (Unit × Choice)) (n : Nat) (got : List UInt8)
    (h : (fdProgram.exec (fdStart Unit) schedule).any (fun r => atWrite 1 n (r.2.locals ()) &&
      (fdProgram.exec r.2 [((), .step none)]).any fun q =>
        q.1.all fun e => decide (e.2.put = some (7, got))) = true) :
    ∃ trace, ∃ c d : Threads.Config Unit FdState Pc, ∃ src : Source,
      Run (Step fdProgram) (fdStart Unit) trace c ∧ src.count = n ∧
      (c.locals ()).Writes 1 src 0 ∧ Step fdProgram c ((), .section (.enqueued 7 got)) d := by
  obtain ⟨trace, c, hrun, hrest⟩ := Program.exec_test h
  obtain ⟨hwrite, hlast⟩ := Bool.and_eq_true_iff.1 hrest
  obtain ⟨e, d, hstep, hput⟩ := Program.exec_one hlast
  have hput : e.put = some (7, got) := by simpa using hput
  rw [put_eq hput] at hstep
  obtain ⟨src, hcount, hwrites⟩ := atWrite_writes hwrite
  exact ⟨trace, c, d, src, hrun, hcount, hwrites, hstep⟩

theorem message_pieces_example : ∃ trace, ∃ c d : Threads.Config Unit FdState Pc, ∃ src : Source,
    Run (Step fdProgram) (fdStart Unit) trace c ∧ src.count = 3 ∧
    Step fdProgram c ((), .section (.enqueued 7 [0, 1, 2])) d ∧
    ∃ ps, c.shared.heap 7 = some ps ∧
      Piece c.shared 1 7 src 0 (pipeCapacity - ps.length) [0, 1, 2] (d.locals ()) := by
  obtain ⟨trace, c, d, src, hrun, hcount, hwrites, hstep⟩ :=
    writes_after (openPipe ++ [callWrite 3]) 3 [0, 1, 2] (by decide)
  exact ⟨trace, c, d, src, hrun, hcount, hstep, (message_pieces hrun hwrites (by simp) hstep).2⟩

/-- A non-blocking write of two bytes puts one byte into a ring that has room for one. -/
theorem message_torn : ∃ trace, ∃ c d : Threads.Config Unit FdState Pc, ∃ src : Source,
    Run (Step fdProgram) (fdStart Unit) trace c ∧ src.count = 2 ∧ (c.locals ()).Writes 1 src 0 ∧
    Step fdProgram c ((), .section (.enqueued 7 [0])) d ∧ [0] ≠ slice src.byte 0 src.count := by
  have hfull : ∃ trace, ∃ c d : Threads.Config Unit FdState Pc, ∃ src : Source,
      Run (Step fdProgram) (fdStart Unit) trace c ∧ src.count = 2 ∧
      (c.locals ()).Writes 1 src 0 ∧ Step fdProgram c ((), .section (.enqueued 7 [0])) d :=
    writes_after (openPipe ++ [((), .call (.fcntl 901 4 0x800)), ((), .step none),
      ((), .step none), callWrite 16383, ((), .step none), ((), .step none), callWrite 2]) 2 [0]
      (by decide)
  obtain ⟨trace, c, d, src, hrun, hcount, hwrites, hstep⟩ := hfull
  refine ⟨trace, c, d, src, hrun, hcount, hwrites, hstep, fun heq => ?_⟩
  have hlength := congrArg List.length heq
  rw [length_slice, hcount] at hlength
  cases hlength

end Asnx.FakeFd
