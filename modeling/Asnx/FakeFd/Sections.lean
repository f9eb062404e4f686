import Asnx.FakeFd.Calls
import Asnx.Library.Counting

/-!
# What one section can do

`FdInv` says how the table and the live pipes fit together, and `SectionStep` lists what a section
may do in a state that satisfies it. No section then follows a pointer to a released pipe
(`section_runs`).
-/

namespace Asnx.FakeFd

open RingBuffer Counting

/-! ## The invariant -/

/-- The number of slots of a kind that point at a pipe. -/
def FdState.ends (s : FdState) (kind : FakeFdKind) (p : Nat) : Nat :=
  count s.gFds fun e => e.kind = kind ∧ e.pipe = some p

/-- The ring lies within the buffer. -/
def PipeState.Ok (ps : PipeState) : Prop := ps.head < pipeCapacity ∧ ps.length ≤ pipeCapacity

/-- The bytes in the pipe, in order. -/
def PipeState.queue (ps : PipeState) : List UInt8 := contents pipeCapacity ps.data ps.head ps.length

/-- The count that the pipe keeps of its descriptors of a kind. -/
def PipeState.refs (ps : PipeState) : FakeFdKind → Nat
  | .pipeRead => ps.readers
  | .pipeWrite => ps.writers
  | .unused => 0

/-- The table and the live pipes fit together. -/
structure FdInv (s : FdState) : Prop where
  unused : ∀ i, (s.gFds i).kind = .unused → s.gFds i = .zero
  opened : ∀ i, (s.gFds i).kind ≠ .unused → ∃ p ps, (s.gFds i).pipe = some p ∧ s.heap p = some ps
  refs : ∀ p ps kind, s.heap p = some ps → kind ≠ .unused → ps.refs kind = s.ends kind p
  held : ∀ p ps, s.heap p = some ps → ps.readers ≠ 0 ∨ ps.writers ≠ 0
  ring : ∀ p ps, s.heap p = some ps → ps.Ok

/-! ## Sections -/

/-- The section at `l` ends its call with `l'` by handing out new descriptors. -/
def HandsOut : Pc → Pc → Prop
  | .pipe, .finished (.pipe _ _) | .dup _ _ _, .finished (.value _)
  | .dup2Clone _ _, .finished (.value _) => True
  | _, _ => False

/-- The section at `l` works on the read end in the slot. -/
def Pc.Reads (slot : Fin fakeFdCount) : Pc → Prop
  | .readStart slot' _ | .readWait slot' _ _ => slot' = slot
  | _ => False

/-- The section at `l` writes from position `total` of the source to the write end in the slot. -/
def Pc.Writes (slot : Fin fakeFdCount) (src : Source) (total : Nat) : Pc → Prop
  | .writeStart slot' src' => slot' = slot ∧ src' = src ∧ total = 0
  | .writeWait slot' _ src' total' => slot' = slot ∧ src' = src ∧ total' = total
  | _ => False

/-- A thread that waits in `fakefd_write` has not written more than its source. -/
def Pc.Ok : Pc → Prop
  | .writeWait _ _ src total => total ≤ src.count
  | _ => True

/-- The section at `l` closes the slot and goes on to `l'`. -/
def Closes (slot : Fin fakeFdCount) (l l' : Pc) : Prop :=
  (l = .close slot ∧ l' = .finished (.value 0)) ∨
    ∃ oldslot, l = .dup2Close oldslot slot ∧ l' = .dup2Clone oldslot slot

/-- The section at `l` clones the slot into slot `d`. -/
def Clones (slot d : Fin fakeFdCount) (l : Pc) : Prop :=
  (∃ minFd cloexec, l = .dup slot minFd cloexec ∧ minFd ≤ fdOfSlot d) ∨ l = .dup2Clone slot d

/-- What the loop of `fakefd_write` does from position `total` of the source: it enqueues the next
`n` bytes, and then waits, returns what it has written, or fails if that is nothing. -/
structure Written (slot : Fin fakeFdCount) (p : Nat) (src : Source) (total : Nat) (ps : PipeState)
    (n : Nat) (bytes : List UInt8) (ps' : PipeState) (l' : Pc) : Prop where
  taken : bytes = slice src.byte total n
  bound : total + n ≤ src.count
  ok : ps'.Ok
  queue : ps'.queue = ps.queue ++ bytes
  readers : ps'.readers = ps.readers
  writers : ps'.writers = ps.writers
  same : n = 0 → ps' = ps
  next : l' = .writeWait slot p src (total + n) ∨ l' = .finished (.value ↑(total + n)) ∨
    (total + n = 0 ∧ ∃ e, l' = .finished (.fail (some e)))

/-- What a section may do. -/
inductive SectionStep (s : FdState) : Pc → Io → FdState → Pc → Prop where
  | stays {l l'} : l'.Ok → ¬ HandsOut l l' → SectionStep s l .none s l'
  | flagged {slot cmd arg e} : (s.gFds slot).kind ≠ .unused → e.kind = (s.gFds slot).kind →
      e.pipe = (s.gFds slot).pipe →
      SectionStep s (.fcntl slot cmd arg) .none (s.setFd slot e) (.finished (.value 0))
  | piped {r w p} : r ≠ w → (s.gFds r).kind = .unused → (s.gFds w).kind = .unused →
      s.heap p = none →
      SectionStep s .pipe (.created p)
        (((s.setPipe p ⟨fun _ => 0, 0, 0, 1, 1⟩).setFd r ⟨.pipeRead, some p, 0, 0⟩).setFd w
          ⟨.pipeWrite, some p, 0, 0⟩)
        (.finished (.pipe (fdOfSlot r) (fdOfSlot w)))
  | dequeued {l slot p ps n} : l.Reads slot → (s.gFds slot).pipe = some p → s.heap p = some ps →
      n ≤ ps.length →
      SectionStep s l (.dequeued p (ps.queue.take n)) (s.setPipe p (ps.dequeue n))
        (.finished (.got (ps.queue.take n)))
  | enqueued {l slot src total p ps ps' n bytes l'} : l.Writes slot src total →
      (s.gFds slot).pipe = some p → s.heap p = some ps →
      Written slot p src total ps n bytes ps' l' →
      SectionStep s l (.enqueued p bytes) (s.setPipe p ps') l'
  | dropped {slot l l' p ps} : Closes slot l l' → (s.gFds slot).kind ≠ .unused →
      (s.gFds slot).pipe = some p → s.heap p = some ps →
      ¬ ((ps.drop (s.gFds slot).kind).readers = 0 ∧ (ps.drop (s.gFds slot).kind).writers = 0) →
      SectionStep s l .none ((s.setPipe p (ps.drop (s.gFds slot).kind)).setFd slot .zero) l'
  | released {slot l l' p ps} : Closes slot l l' → (s.gFds slot).kind ≠ .unused →
      (s.gFds slot).pipe = some p → s.heap p = some ps →
      (ps.drop (s.gFds slot).kind).readers = 0 ∧ (ps.drop (s.gFds slot).kind).writers = 0 →
      SectionStep s l (.released p)
        (((s.setPipe p (ps.drop (s.gFds slot).kind)).setFd slot .zero).freePipe p) l'
  | cloned {slot d l p ps e} : Clones slot d l → (s.gFds slot).kind ≠ .unused →
      (s.gFds slot).pipe = some p → s.heap p = some ps → (s.gFds d).kind = .unused →
      e.kind = (s.gFds slot).kind → e.pipe = some p →
      SectionStep s l .none ((s.setFd d e).setPipe p (ps.retain (s.gFds slot).kind))
        (.finished (.value (fdOfSlot d)))

variable {s s' : FdState} {l l' : Pc} {io : Io}

/-! ## Small facts -/

@[simp] theorem setFd_gFds (s : FdState) (i : Fin fakeFdCount) (e : FakeFdEntry) :
    (s.setFd i e).gFds = Function.update s.gFds i e := rfl

@[simp] theorem setFd_heap (s : FdState) (i : Fin fakeFdCount) (e : FakeFdEntry) :
    (s.setFd i e).heap = s.heap := rfl

@[simp] theorem setPipe_gFds (s : FdState) (p : Nat) (ps : PipeState) :
    (s.setPipe p ps).gFds = s.gFds := rfl

@[simp] theorem setPipe_heap (s : FdState) (p : Nat) (ps : PipeState) :
    (s.setPipe p ps).heap = Function.update s.heap p (some ps) := rfl

@[simp] theorem freePipe_gFds (s : FdState) (p : Nat) : (s.freePipe p).gFds = s.gFds := rfl

@[simp] theorem freePipe_heap (s : FdState) (p : Nat) :
    (s.freePipe p).heap = Function.update s.heap p none := rfl

theorem setPipe_self {p : Nat} {ps : PipeState} (h : s.heap p = some ps) : s.setPipe p ps = s := by
  unfold FdState.setPipe
  rw [← h, Function.update_eq_self]

/-- The descriptor of a slot leads back to the slot. -/
theorem slot_of_fd_of_slot (i : Fin fakeFdCount) : slotFromFd (fdOfSlot i) = some i := by
  have hi := i.isLt
  unfold slotFromFd fdOfSlot
  rw [dif_pos (by omega)]
  congr 1
  exact Fin.ext (by simp)

/-- The slot found for a new descriptor is unused and not below the least descriptor asked for. -/
theorem alloc_slot_some {minimumFd : Int} {i : Fin fakeFdCount}
    (h : allocSlotFrom s minimumFd = some i) :
    (s.gFds i).kind = .unused ∧ minimumFd ≤ fdOfSlot i := by
  unfold allocSlotFrom at h
  generalize hfirst : (if minimumFd > fakeFdBase then minimumFd - fakeFdBase else 0) = first at h
  simp only [ge_iff_le, Option.ite_none_left_eq_some] at h
  have hfound := (Fin.find?_eq_some_iff.1 h.2).1
  simp only [Bool.and_eq_true, decide_eq_true_eq] at hfound
  refine ⟨hfound.2, ?_⟩
  have hle := hfound.1
  unfold fdOfSlot
  split at hfirst <;> omega

/-! ## The sections one by one -/

/-- A section that fails without a change. -/
theorem fails_step {e : Errno} (hnew : ¬ HandsOut l (.finished (.fail (some e))))
    (h : fails s e = some (io, s', l')) : SectionStep s l io s' l' := by
  cases h
  exact .stays trivial hnew

/-- Marking an unused slot and clearing it again changes nothing. -/
theorem reserve_undone (hinv : FdInv s) {r : Fin fakeFdCount} (hr : (s.gFds r).kind = .unused) :
    (s.setFd r { s.gFds r with kind := .pipeRead }).setFd r .zero = s := by
  rw [← hinv.unused r hr]
  unfold FdState.setFd
  simp

theorem pipe_step (hinv : FdInv s) {allocated : Option Nat}
    (hfresh : ∀ p, allocated = some p → s.heap p = none)
    (h : pipeLocked s allocated = some (io, s', l')) : SectionStep s .pipe io s' l' := by
  unfold pipeLocked at h
  split at h
  · exact fails_step (by simp [HandsOut]) h
  · rename_i r hr
    have hunused := (alloc_slot_some hr).1
    simp only at h
    split at h
    · rw [reserve_undone hinv hunused] at h
      exact fails_step (by simp [HandsOut]) h
    · rename_i w hw
      have hw := (alloc_slot_some hw).1
      have hne : r ≠ w := by
        rintro rfl
        simp at hw
      rw [setFd_gFds, Function.update_of_ne hne.symm] at hw
      split at h
      · rw [reserve_undone hinv hunused] at h
        exact fails_step (by simp [HandsOut]) h
      · rename_i p
        cases h
        have htwice : ((s.setFd r { s.gFds r with kind := .pipeRead }).setPipe p
            ⟨fun _ => 0, 0, 0, 1, 1⟩).setFd r ⟨.pipeRead, some p, 0, 0⟩ =
            (s.setPipe p ⟨fun _ => 0, 0, 0, 1, 1⟩).setFd r ⟨.pipeRead, some p, 0, 0⟩ := by
          simp [FdState.setFd, FdState.setPipe]
        rw [htwice]
        exact .piped hne hunused hw (hfresh p rfl)

/-- Dequeuing takes bytes off the front of the queue. -/
theorem PipeState.Ok.dequeue {ps : PipeState} (h : ps.Ok) {n : Nat} (hn : n ≤ ps.length) :
    (ps.dequeue n).Ok ∧ (ps.dequeue n).queue = ps.queue.drop n ∧
      copyOut pipeCapacity ps.data ps.head n = ps.queue.take n := by
  obtain ⟨hhead, hlength⟩ := h
  refine ⟨⟨position_lt hhead n, (Nat.sub_le _ _).trans hlength⟩, ?_, ?_⟩
  · exact (contents_drop ps.data hn).symm
  · rw [copyOut_eq ps.data hhead (hn.trans hlength)]
    exact (contents_take ps.data hn).symm

/-- Enqueuing puts bytes of the source at the back of the queue. -/
theorem PipeState.Ok.enqueue {ps : PipeState} (h : ps.Ok) (src : Source) (total : Nat) {n : Nat}
    (hn : ps.length + n ≤ pipeCapacity) :
    (ps.enqueue src total n).Ok ∧
      (ps.enqueue src total n).queue = ps.queue ++ slice src.byte total n := by
  refine ⟨⟨h.1, hn⟩, ?_⟩
  show contents pipeCapacity (copyIn pipeCapacity ps.data _ n _) ps.head (ps.length + n) = _
  rw [contents_copyIn ps.data _ h.1 hn]
  congr 1
  refine List.map_congr_left fun k _ => ?_
  rw [Nat.zero_add]

theorem read_loop_step (hinv : FdInv s) {slot : Fin fakeFdCount} {p count : Nat}
    (hreads : l.Reads slot) (hpipe : (s.gFds slot).pipe = some p)
    (h : readLoop s slot p count = some (io, s', l')) : SectionStep s l io s' l' := by
  have hnew : ∀ l', ¬ HandsOut l l' := by
    cases l <;> simp [HandsOut, Pc.Reads] at hreads ⊢
  unfold readLoop at h
  split at h
  · cases h
  · rename_i ps hps
    split at h
    · split at h
      · exact fails_step (hnew _) h
      · cases h
        exact .stays trivial (hnew _)
    · split at h
      · cases h
        exact .stays trivial (hnew _)
      · simp only at h
        generalize hn : (if count < ps.length then count else ps.length) = n at h
        have hle : n ≤ ps.length := by
          split at hn <;> omega
        obtain ⟨-, -, hbytes⟩ := (hinv.ring p ps hps).dequeue hle
        rw [hbytes] at h
        cases h
        exact .dequeued hreads hpipe hps hle

theorem read_step (hinv : FdInv s) {slot : Fin fakeFdCount} {count : Nat}
    (h : readLocked s slot count = some (io, s', l')) :
    SectionStep s (.readStart slot count) io s' l' := by
  unfold readLocked at h
  split at h
  · exact fails_step (by simp [HandsOut]) h
  · rename_i p hp
    split at h
    · exact fails_step (by simp [HandsOut]) h
    · exact read_loop_step hinv rfl hp h

theorem read_woken_step (hinv : FdInv s) {slot : Fin fakeFdCount} {p count : Nat}
    (h : readWoken s slot p count = some (io, s', l')) :
    SectionStep s (.readWait slot p count) io s' l' := by
  unfold readWoken at h
  split at h
  · exact fails_step (by simp [HandsOut]) h
  · rename_i hcheck
    push Not at hcheck
    exact read_loop_step hinv rfl hcheck.2 h

section Written

variable {slot : Fin fakeFdCount} {p : Nat} {src : Source} {total : Nat} {ps : PipeState}

/-- The loop stops before it has enqueued anything. -/
theorem Written.nothing (hok : ps.Ok) (htotal : total ≤ src.count)
    (hnext : l' = .writeWait slot p src total ∨ l' = .finished (.value total) ∨
      (total = 0 ∧ ∃ e, l' = .finished (.fail (some e)))) :
    Written slot p src total ps 0 [] ps l' :=
  ⟨rfl, htotal, hok, (List.append_nil _).symm, rfl, rfl, fun _ => rfl, hnext⟩

/-- The loop returns what it has written, or fails if that is nothing. -/
theorem Written.short (hok : ps.Ok) (htotal : total ≤ src.count) (e : Errno) :
    Written slot p src total ps 0 [] ps (.finished (shortWrite total e)) := by
  refine .nothing hok htotal ?_
  unfold shortWrite
  split
  · exact .inr (.inl rfl)
  · exact .inr (.inr ⟨by omega, e, rfl⟩)

/-- A round of the loop in front of what the rest of it does. -/
theorem Written.round {amount n : Nat} {bytes : List UInt8} {ps' : PipeState} (hok : ps.Ok)
    (hpos : 0 < amount) (hfits : ps.length + amount ≤ pipeCapacity)
    (h : Written slot p src (total + amount) (ps.enqueue src total amount) n bytes ps' l') :
    Written slot p src total ps (amount + n) (slice src.byte total amount ++ bytes) ps' l' := by
  have hqueue := (hok.enqueue src total hfits).2
  have hsum : total + (amount + n) = total + amount + n := (Nat.add_assoc ..).symm
  refine ⟨?_, ?_, h.ok, ?_, h.readers, h.writers, by omega, ?_⟩
  · rw [h.taken, slice_append]
  · rw [hsum]
    exact h.bound
  · rw [h.queue, hqueue, List.append_assoc]
  · rw [hsum]
    exact h.next

/-- The loop of `fakefd_write`, by induction on its rounds. -/
theorem write_loop_written {fuel : Nat} {s s' : FdState} {bytes : List UInt8}
    (hps : s.heap p = some ps) (hok : ps.Ok) (htotal : total ≤ src.count)
    (h : writeLoop slot p src fuel s total = some (bytes, s', l')) :
    ∃ n ps', s' = s.setPipe p ps' ∧ Written slot p src total ps n bytes ps' l' := by
  induction fuel generalizing s total ps bytes with
  | zero => cases h
  | succ fuel ih =>
      have hself := (setPipe_self hps).symm
      simp only [writeLoop] at h
      split at h
      · rename_i hlt
        rw [hps] at h
        simp only at h
        split at h
        · split at h
          · cases h
            exact ⟨0, ps, hself, .short hok htotal _⟩
          · cases h
            exact ⟨0, ps, hself, .nothing hok htotal (.inl rfl)⟩
        · split at h
          · cases h
            exact ⟨0, ps, hself, .short hok htotal _⟩
          · split at h
            · exact ih hps hok htotal h
            · -- the round that enqueues: its amount is positive and fits in the ring
              rename_i hfree
              generalize hamount : (if src.count - total > pipeCapacity - ps.length then
                pipeCapacity - ps.length else src.count - total) = amount at h
              have hlength := hok.2
              have hpos : 0 < amount := by
                split at hamount <;> omega
              have hfits : ps.length + amount ≤ pipeCapacity := by
                split at hamount <;> omega
              have hbound : total + amount ≤ src.count := by
                split at hamount <;> omega
              have hok' := (hok.enqueue src total hfits).1
              split at h
              · cases h
                have hlast : Written slot p src (total + amount) (ps.enqueue src total amount) 0 []
                    (ps.enqueue src total amount) (.finished (.value ↑(total + amount))) :=
                  .nothing hok' hbound (.inr (.inl rfl))
                have hround := hlast.round hok hpos hfits
                rw [List.append_nil] at hround
                exact ⟨_, _, rfl, hround⟩
              · split at h
                · cases h
                · rename_i hrest
                  cases h
                  have hps' : (s.setPipe p (ps.enqueue src total amount)).heap p =
                      some (ps.enqueue src total amount) := Function.update_self ..
                  obtain ⟨n, ps', rfl, hwritten⟩ := ih hps' hok' hbound hrest
                  refine ⟨amount + n, ps', ?_, hwritten.round hok hpos hfits⟩
                  unfold FdState.setPipe
                  simp
      · cases h
        exact ⟨0, ps, hself, .nothing hok htotal (.inr (.inl rfl))⟩

end Written

/-- What the section of `fakefd_write` from its loop on does. -/
theorem write_from_written (hinv : FdInv s) {slot : Fin fakeFdCount} {p total : Nat} {src : Source}
    (hpipe : (s.gFds slot).pipe = some p) (hopen : (s.gFds slot).kind ≠ .unused)
    (htotal : total ≤ src.count) (h : writeFrom s slot p src total = some (io, s', l')) :
    ∃ ps n bytes ps', s.heap p = some ps ∧ io = .enqueued p bytes ∧ s' = s.setPipe p ps' ∧
      Written slot p src total ps n bytes ps' l' := by
  obtain ⟨q, ps, hq, hps⟩ := hinv.opened slot hopen
  obtain rfl := Option.some.inj (hq.symm.trans hpipe)
  unfold writeFrom at h
  split at h
  · cases h
  · rename_i hloop
    cases h
    obtain ⟨n, ps', rfl, hwritten⟩ := write_loop_written hps (hinv.ring _ _ hps) htotal hloop
    exact ⟨ps, n, _, ps', hps, rfl, rfl, hwritten⟩

theorem write_from_step (hinv : FdInv s) {slot : Fin fakeFdCount} {p total : Nat} {src : Source}
    (hwrites : l.Writes slot src total) (hpipe : (s.gFds slot).pipe = some p)
    (hopen : (s.gFds slot).kind ≠ .unused) (htotal : total ≤ src.count)
    (h : writeFrom s slot p src total = some (io, s', l')) :
    SectionStep s l io s' l' := by
  obtain ⟨ps, n, bytes, ps', hps, rfl, rfl, hwritten⟩ :=
    write_from_written hinv hpipe hopen htotal h
  exact .enqueued hwrites hpipe hps hwritten

theorem write_step (hinv : FdInv s) {slot : Fin fakeFdCount} {src : Source}
    (h : writeLocked s slot src = some (io, s', l')) :
    SectionStep s (.writeStart slot src) io s' l' := by
  unfold writeLocked at h
  split at h
  · exact fails_step (by simp [HandsOut]) h
  · rename_i p hp
    split at h
    · exact fails_step (by simp [HandsOut]) h
    · rename_i hkind
      split at h
      · cases h
      · split at h
        · exact fails_step (by simp [HandsOut]) h
        · have hopen : (s.gFds slot).kind ≠ .unused := by
            rw [not_not] at hkind
            rw [hkind]
            decide
          exact write_from_step hinv ⟨rfl, rfl, rfl⟩ hp hopen (Nat.zero_le _) h

theorem write_woken_step (hinv : FdInv s) {slot : Fin fakeFdCount} {p total : Nat} {src : Source}
    (htotal : total ≤ src.count) (h : writeWoken s slot p src total = some (io, s', l')) :
    SectionStep s (.writeWait slot p src total) io s' l' := by
  unfold writeWoken at h
  split at h
  · exact fails_step (by simp [HandsOut]) h
  · rename_i hcheck
    push Not at hcheck
    have hopen : (s.gFds slot).kind ≠ .unused := by
      rw [hcheck.1]
      decide
    exact write_from_step hinv ⟨rfl, rfl, rfl⟩ hcheck.2 hopen htotal h

/-- The section of `fakefd_close` either changes nothing or closes the slot. -/
theorem close_locked_step {slot : Fin fakeFdCount} {r : Ret}
    (h : closeLocked s slot = some (io, s', r)) :
    (io = .none ∧ s' = s ∧ r = .fail (some .EBADF)) ∨
      (r = .value 0 ∧ ∀ l l', Closes slot l l' → SectionStep s l io s' l') := by
  unfold closeLocked at h
  split at h
  · cases h
    exact .inl ⟨rfl, rfl, rfl⟩
  · rename_i p hp
    split at h
    · cases h
      exact .inl ⟨rfl, rfl, rfl⟩
    · rename_i hopen
      split at h
      · cases h
      · rename_i ps hps
        simp only at h
        split at h
        · rename_i hlast
          cases h
          exact .inr ⟨rfl, fun _ _ hcloses => .released hcloses hopen hp hps hlast⟩
        · rename_i hmore
          cases h
          exact .inr ⟨rfl, fun _ _ hcloses => .dropped hcloses hopen hp hps hmore⟩

/-- A section that clones a slot into the one given, if that is unused. -/
theorem clone_step {slot : Fin fakeFdCount} {target : Option (Fin fakeFdCount)} {cloexec : Bool}
    {e : Errno} (hnew : ∀ e, ¬ HandsOut l (.finished (.fail (some e))))
    (hclones : ∀ d, target = some d → Clones slot d l)
    (h : cloneLocked s slot target cloexec e = some (io, s', l')) : SectionStep s l io s' l' := by
  unfold cloneLocked at h
  simp only at h
  split at h
  · exact fails_step (hnew _) h
  · rename_i hcheck
    push Not at hcheck
    unfold cloneIntoSlotLocked at h
    cases target with
    | none => exact fails_step (hnew _) h
    | some d =>
        simp only at h
        by_cases hd : (s.gFds d).kind ≠ .unused
        · rw [if_pos hd] at h
          exact fails_step (hnew _) h
        · rw [if_neg hd] at h
          obtain ⟨p, hp⟩ := Option.ne_none_iff_exists'.1 hcheck.2
          rw [hp] at h
          simp only at h
          cases hps : s.heap p with
          | none =>
              rw [hps] at h
              cases h
          | some ps =>
              rw [hps] at h
              cases h
              refine .cloned (hclones d rfl) hcheck.1 hp hps (not_not.1 hd) ?_ ?_
              · split <;> rfl
              · split
                · rfl
                · exact hp

theorem fcntl_step {slot : Fin fakeFdCount} {cmd arg : Int}
    (h : fcntlLocked s slot cmd arg = some (io, s', l')) :
    SectionStep s (.fcntl slot cmd arg) io s' l' := by
  unfold fcntlLocked at h
  simp only at h
  split at h
  · exact fails_step (by simp [HandsOut]) h
  · rename_i hcheck
    push Not at hcheck
    split at h
    · cases h
      exact .stays trivial (by simp [HandsOut])
    · split at h
      · cases h
        exact .flagged hcheck.1 rfl rfl
      · split at h
        · cases h
          exact .stays trivial (by simp [HandsOut])
        · split at h
          · cases h
            exact .flagged hcheck.1 rfl rfl
          · split at h
            · cases h
              exact .stays trivial (by simp [HandsOut])
            · exact fails_step (by simp [HandsOut]) h

/-- Every section is one of the listed steps. -/
theorem section_step (hinv : FdInv s) (hok : l.Ok) {allocated : Option Nat}
    (hfresh : ∀ p, allocated = some p → s.heap p = none)
    (h : sectionAt s allocated l = some (io, s', l')) : SectionStep s l io s' l' := by
  cases l with
  | idle | finished => cases h
  | pipe => exact pipe_step hinv hfresh h
  | readStart => exact read_step hinv h
  | readWait => exact read_woken_step hinv h
  | writeStart => exact write_step hinv h
  | writeWait => exact write_woken_step hinv hok h
  | dup slot minFd cloexec =>
      refine clone_step (by simp [HandsOut]) (fun d hd => .inl ⟨minFd, cloexec, rfl, ?_⟩) h
      exact (alloc_slot_some hd).2
  | dup2Clone oldslot newslot =>
      refine clone_step (by simp [HandsOut]) (fun d hd => .inr ?_) h
      rw [Option.some.inj hd]
  | fcntl => exact fcntl_step h
  | dup2Same | isOpen =>
      cases h
      exact .stays trivial (by simp [HandsOut])
  | dup2Check =>
      cases h
      split
      · exact .stays trivial (by simp [HandsOut])
      · exact .stays trivial (by simp [HandsOut])
  | ready slot =>
      simp only [sectionAt] at h
      split at h
      · cases h
      · cases h
        exact .stays trivial (by simp [HandsOut])
  | close slot =>
      simp only [sectionAt] at h
      split at h
      · cases h
      · rename_i hclose
        cases h
        -- a slot that is not open is left alone
        rcases close_locked_step hclose with ⟨rfl, rfl, -⟩ | ⟨rfl, hstep⟩
        · exact .stays trivial (by simp [HandsOut])
        · exact hstep _ _ (.inl ⟨rfl, rfl⟩)
  | dup2Close oldslot newslot =>
      simp only [sectionAt] at h
      split at h
      · cases h
      · rename_i hclose
        cases h
        rcases close_locked_step hclose with ⟨rfl, rfl, -⟩ | ⟨-, hstep⟩
        · exact .stays trivial (by simp [HandsOut])
        · exact hstep _ _ (.inr ⟨_, rfl, rfl⟩)

end Asnx.FakeFd
