import Asnx.FakeFd.Table

/-!
# Pipes are queues

`written` and `readBack` collect from a run, for every pipe, the bytes that the sections of
`fakefd_write` have put into it and those that the sections of `fakefd_read` have taken out of it
since it was created. However the threads interleave, what was put in is what was taken out
followed by what the ring holds (`pipe_fifo`).
-/

namespace Asnx.FakeFd

open RingBuffer Threads

/-! ## What has passed through a pipe -/

/-- The bytes that a section puts into the pipe at `p`. -/
def Io.enqueuedAt (p : Nat) : Io → List UInt8
  | .enqueued q bytes => if q = p then bytes else []
  | _ => []

/-- The bytes that a section takes out of the pipe at `p`. -/
def Io.dequeuedAt (p : Nat) : Io → List UInt8
  | .dequeued q bytes => if q = p then bytes else []
  | _ => []

/-- Goes on with the bytes collected for the pipe at `p`; a new pipe at that address begins
without any. -/
def Event.collect (p : Nat) (moved : Io → List UInt8) (bytes : List UInt8) : Event → List UInt8
  | .section io => if io = .created p then [] else bytes ++ moved io
  | .called _ | .returned _ => bytes

variable {T : Type*}

/-- The bytes put into the pipe at `p` since its creation, in order. -/
def written (p : Nat) (trace : List (T × Event)) : List UInt8 :=
  trace.foldl (fun bytes e => e.2.collect p (Io.enqueuedAt p) bytes) []

/-- The bytes taken out of the pipe at `p` since its creation, in order. -/
def readBack (p : Nat) (trace : List (T × Event)) : List UInt8 :=
  trace.foldl (fun bytes e => e.2.collect p (Io.dequeuedAt p) bytes) []

@[simp] theorem written_snoc (p : Nat) (trace : List (T × Event)) (e : T × Event) :
    written p (trace ++ [e]) = e.2.collect p (Io.enqueuedAt p) (written p trace) :=
  List.foldl_concat ..

@[simp] theorem readBack_snoc (p : Nat) (trace : List (T × Event)) (e : T × Event) :
    readBack p (trace ++ [e]) = e.2.collect p (Io.dequeuedAt p) (readBack p trace) :=
  List.foldl_concat ..

/-! ## One section -/

variable {s s' : FdState} {l l' : Pc} {io : Io}

/-- A section that takes nothing out of a pipe and puts nothing into it. -/
def Io.passes (p : Nat) (io : Io) : Prop :=
  io ≠ .created p ∧ io.enqueuedAt p = [] ∧ io.dequeuedAt p = []

/-- What a section does to the queue of a pipe that is live afterwards. -/
def QueueStep (s : FdState) (io : Io) (p : Nat) (ps' : PipeState) : Prop :=
  (io = .created p ∧ ps'.queue = []) ∨
    (io ≠ .created p ∧ ∃ ps, s.heap p = some ps ∧
      ps.queue ++ io.enqueuedAt p = io.dequeuedAt p ++ ps'.queue)

/-- The queue of a pipe that a section passes by. -/
theorem QueueStep.pass {p : Nat} {ps ps' : PipeState} (hpass : io.passes p)
    (hps : s.heap p = some ps) (hqueue : ps'.queue = ps.queue) : QueueStep s io p ps' := by
  obtain ⟨hnew, henqueued, hdequeued⟩ := hpass
  refine .inr ⟨hnew, ps, hps, ?_⟩
  rw [henqueued, hdequeued, hqueue, List.append_nil, List.nil_append]

theorem passes_none (p : Nat) : Io.none.passes p := ⟨by simp, rfl, rfl⟩

theorem passes_released (p q : Nat) : (Io.released q).passes p := ⟨by simp, rfl, rfl⟩

theorem queue_retain (ps : PipeState) (kind : FakeFdKind) : (ps.retain kind).queue = ps.queue := by
  cases kind <;> rfl

theorem queue_drop (ps : PipeState) (kind : FakeFdKind) : (ps.drop kind).queue = ps.queue := by
  cases kind <;> simp only [PipeState.drop] <;> split <;> rfl

/-- Every section moves the bytes that it says it moves, and no others. -/
theorem section_queue (hinv : FdInv s) (hstep : SectionStep s l io s' l') {p : Nat}
    {ps' : PipeState} (hps' : s'.heap p = some ps') : QueueStep s io p ps' := by
  cases hstep with
  | stays | flagged => exact .pass (passes_none p) hps' rfl
  | @piped r w q =>
      rw [setFd_heap, setFd_heap] at hps'
      rcases setPipe_heap_some hps' with ⟨rfl, rfl⟩ | ⟨hne, hps⟩
      · exact .inl ⟨rfl, rfl⟩
      · exact .pass ⟨by simpa using hne.symm, rfl, rfl⟩ hps rfl
  | @dequeued _ _ q ps n _ _ hps hn =>
      rcases setPipe_heap_some hps' with ⟨rfl, rfl⟩ | ⟨hne, hps⟩
      · obtain ⟨-, hrest, -⟩ := (hinv.ring _ _ hps).dequeue hn
        refine .inr ⟨by simp, ps, hps, ?_⟩
        rw [hrest, Io.dequeuedAt, if_pos rfl, List.take_append_drop]
        exact List.append_nil _
      · exact .pass ⟨by simp, rfl, if_neg hne.symm⟩ hps rfl
  | @enqueued _ _ _ _ q ps _ n bytes _ _ _ hps hwritten =>
      rcases setPipe_heap_some hps' with ⟨rfl, rfl⟩ | ⟨hne, hps⟩
      · refine .inr ⟨by simp, ps, hps, ?_⟩
        rw [hwritten.queue, Io.enqueuedAt, if_pos rfl]
        rfl
      · exact .pass ⟨by simp, if_neg hne.symm, rfl⟩ hps rfl
  | @dropped _ _ _ q ps _ _ _ hps =>
      rw [setFd_heap] at hps'
      rcases setPipe_heap_some hps' with ⟨rfl, rfl⟩ | ⟨-, hps⟩
      · exact .pass (passes_none _) hps (queue_drop ..)
      · exact .pass (passes_none _) hps rfl
  | @released _ _ _ q ps _ _ _ hps =>
      rw [freePipe_heap] at hps'
      by_cases hne : p = q
      · subst hne
        rw [Function.update_self] at hps'
        cases hps'
      · rw [Function.update_of_ne hne, setFd_heap, setPipe_heap, Function.update_of_ne hne] at hps'
        exact .pass (passes_released p q) hps' rfl
  | @cloned _ _ _ q ps _ _ _ _ hps =>
      rcases setPipe_heap_some hps' with ⟨rfl, rfl⟩ | ⟨-, hps⟩
      · exact .pass (passes_none _) hps (queue_retain ..)
      · exact .pass (passes_none _) hps rfl

/-- What a section moves is what its call reads, or the next bytes of what its call writes. -/
def Carries (l : Pc) : Io → Pc → Prop
  | .dequeued _ bytes, l' => l' = .finished (.got bytes)
  | .enqueued p bytes, l' => ∃ slot src total, l.Writes slot src total ∧
      bytes = slice src.byte total bytes.length ∧
      (l' = .writeWait slot p src (total + bytes.length) ∨
        l' = .finished (.value ↑(total + bytes.length)) ∨
        (total + bytes.length = 0 ∧ ∃ e, l' = .finished (.fail (some e))))
  | _, _ => True

theorem section_carries (hstep : SectionStep s l io s' l') : Carries l io l' := by
  cases hstep with
  | stays | flagged | piped | dropped | released | cloned => trivial
  | dequeued => rfl
  | enqueued hwrites _ _ hwritten =>
      obtain rfl := hwritten.taken
      refine ⟨_, _, _, hwrites, ?_, ?_⟩
      · rw [length_slice]
      · rw [length_slice]
        exact hwritten.next

/-! ## Runs -/

variable [DecidableEq T] {c : Threads.Config T FdState Pc}

/-- The queue of every live pipe is what was put into it without what was taken out of it. -/
structure FifoInv (trace : List (T × Event)) (c : Threads.Config T FdState Pc) : Prop where
  run : RunInv c
  fifo : ∀ p ps, c.shared.heap p = some ps → written p trace = readBack p trace ++ ps.queue

/-- A section keeps the two collections in step with the queue. -/
theorem QueueStep.collect {p : Nat} {ps' : PipeState} {put got : List UInt8}
    (h : QueueStep s io p ps')
    (hfifo : ∀ ps, s.heap p = some ps → put = got ++ ps.queue) :
    (Event.section io).collect p (Io.enqueuedAt p) put =
      (Event.section io).collect p (Io.dequeuedAt p) got ++ ps'.queue := by
  simp only [Event.collect]
  rcases h with ⟨hnew, hqueue⟩ | ⟨hnew, ps, hps, hqueue⟩
  · rw [if_pos hnew, if_pos hnew, hqueue]
    rfl
  · rw [if_neg hnew, if_neg hnew, hfifo ps hps, List.append_assoc, hqueue, List.append_assoc]

theorem fifo_inv_step {trace : List (T × Event)} {d : Threads.Config T FdState Pc}
    {label : T × Event} (hinv : FifoInv trace c) (h : Step fdProgram c label d) :
    FifoInv (trace ++ [label]) d := by
  obtain ⟨t, e⟩ := label
  refine ⟨run_inv_step hinv.run h, fun p ps' hps' => ?_⟩
  rw [written_snoc, readBack_snoc]
  rcases fd_step_cases hinv.run h with ⟨hsame, -, hother, -⟩ | ⟨io, rfl, hstep⟩
  · rw [hsame] at hps'
    cases e with
    | called | returned => exact hinv.fifo p ps' hps'
    | «section» io => exact absurd rfl (hother io)
  · exact (section_queue hinv.run.fd hstep hps').collect (hinv.fifo p)

/-- The pipes are queues, in every run and however the threads interleave: what was put into a pipe
since its creation is what was taken out of it followed by what its ring holds, and the ring lies
within the buffer. What is taken out is what a `fakefd_read` returns, and what is put in are the
next bytes of what a `fakefd_write` was given. -/
theorem pipe_fifo {trace : List (T × Event)} (h : Run (Step fdProgram) (fdStart T) trace c) :
    (∀ p ps, c.shared.heap p = some ps →
      written p trace = readBack p trace ++ contents pipeCapacity ps.data ps.head ps.length ∧
        ps.head < pipeCapacity ∧ ps.length ≤ pipeCapacity) ∧
      ∀ t io d, Step fdProgram c (t, .section io) d → Carries (c.locals t) io (d.locals t) := by
  have hinv : FifoInv trace c := by
    refine h.invariant_trace ⟨run_inv_start, ?_⟩ fun _ _ _ _ => fifo_inv_step
    intro p ps hp
    cases hp
  refine ⟨fun p ps hp => ⟨hinv.fifo p ps hp, hinv.run.fd.ring p ps hp⟩, fun t io d hstep => ?_⟩
  rcases fd_step_cases hinv.run hstep with ⟨-, -, hother, -⟩ | ⟨io', hio, hsection⟩
  · exact absurd rfl (hother io)
  · cases hio
    exact section_carries hsection

/-- One thread opens a pipe, writes three bytes to it and reads two. -/
def pipeWriteRead : List (Unit × Choice) :=
  [((), .call (.pipe false)), ((), .step (some 7)), ((), .step none),
    ((), .call (.write 901 false ⟨fun k => UInt8.ofNat k, 3⟩)), ((), .step none), ((), .step none),
    ((), .call (.read 900 false 2)), ((), .step none)]

theorem pipe_fifo_example : ∃ trace c, Run (Step fdProgram) (fdStart Unit) trace c ∧
    readBack 7 trace = [0, 1] ∧
    (∀ p ps, c.shared.heap p = some ps →
      written p trace = readBack p trace ++ contents pipeCapacity ps.data ps.head ps.length ∧
        ps.head < pipeCapacity ∧ ps.length ≤ pipeCapacity) ∧
      ∀ t io d, Step fdProgram c (t, .section io) d → Carries (c.locals t) io (d.locals t) := by
  have hexec : (fdProgram.exec (fdStart Unit) pipeWriteRead).any
      (fun r => decide (readBack 7 r.1 = [0, 1])) = true := by
    decide
  obtain ⟨trace, c, hrun, hread⟩ := Program.exec_test hexec
  exact ⟨trace, c, hrun, of_decide_eq_true hread, pipe_fifo hrun⟩

end Asnx.FakeFd
