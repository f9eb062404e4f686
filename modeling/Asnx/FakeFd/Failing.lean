import Asnx.FakeFd.Locking

/-!
# Failing calls

A call that returns -1 should have changed nothing. Two calls change something in one section and
may still fail in a later one: `fakefd_write`, which fails after a wait if its descriptor has been
closed or reused, although it may have put bytes into the pipe before the wait; and `fakefd_dup2`,
which closes its target before it looks at its source. As long as `mutexInit` does not run while a
call holds the lock these are the only two ways (`failing_unchanged`).
-/

namespace Asnx.FakeFd

open Threads Locking

variable {T : Type*} [DecidableEq T]

/-- What a call has changed so far: a section of it led to another state. -/
def addChange (changed : Prop) (s s' : FdState) : Prop := changed ∨ s' ≠ s

/-- Threads together with the note whether the current call of each has changed the state. -/
abbrev NotedFds (T : Type*) := Tracked T FdState Pc Prop

/-- A step of the threads that keeps the notes. -/
abbrev NotedFdStep : NotedFds T → T × Event → NotedFds T → Prop :=
  Tracked.Step fdProgram Event.begins False addChange

/-- The start, at which no thread has a call. -/
def notedStart (T : Type*) : NotedFds T := ⟨fdStart T, fun _ => False⟩

/-- What a call that has changed the state still needs for not failing: `fakefd_write` finds the end
it writes to in its slot, and `fakefd_dup2` finds its source open and its target unused. -/
def MayGoOn (s : FdState) : Pc → Prop
  | .writeWait slot p _ _ => (s.gFds slot).kind = .pipeWrite ∧ (s.gFds slot).pipe = some p
  | .dup2Clone oldslot newslot =>
      (s.gFds oldslot).kind ≠ .unused ∧ (s.gFds newslot).kind = .unused
  | _ => True

instance (s : FdState) : DecidablePred (MayGoOn s) := fun l => by
  cases l <;> unfold MayGoOn <;> infer_instance

/-- A call that has changed the state finds what it needs. -/
def Undisturbed (c : NotedFds T) (t : T) : Prop :=
  c.note t → MayGoOn c.config.shared (c.config.locals t)

/-- Where a call may stand that has changed the state: it waits in `fakefd_write` with some bytes
written, it has closed the target of `fakefd_dup2`, or it has not failed. -/
def NoteOk (l : Pc) (changed : Prop) : Prop :=
  changed →
    match l with
    | .writeWait _ _ _ total => total ≠ 0
    | .finished r => r.toInt ≠ -1
    | .idle | .dup2Clone _ _ => True
    | _ => False

/-! ## One section -/

variable {s s' : FdState} {l l' : Pc} {io : Io} {changed : Prop}

theorem noteOk_finished {r : Ret} (h : 0 ≤ r.toInt) : NoteOk (.finished r) changed := by
  intro _
  show r.toInt ≠ -1
  omega

/-- A call that has enqueued something can wait for more room, or return how much. -/
theorem noteOk_written {slot : Fin fakeFdCount} {p total n : Nat} {src : Source}
    {ps ps' : PipeState}
    {bytes : List UInt8} (hwritten : Written slot p src total ps n bytes ps' l')
    (hsome : changed → total + n ≠ 0) : NoteOk l' changed := by
  rcases hwritten.next with rfl | rfl | ⟨hnone, -⟩
  · exact hsome
  · exact noteOk_finished (Int.natCast_nonneg _)
  · exact fun hchanged => absurd hnone (hsome hchanged)

/-- A section that changes something does not make its call fail. -/
theorem section_change (hstep : SectionStep s l io s' l') : NoteOk l' (s' ≠ s) := by
  cases hstep with
  | stays => exact fun hchange => absurd rfl hchange
  | flagged => exact noteOk_finished (Int.le_refl 0)
  | piped => exact noteOk_finished (Int.le_refl 0)
  | dequeued => exact noteOk_finished (Int.natCast_nonneg _)
  | enqueued _ _ hps hwritten =>
      refine noteOk_written hwritten fun hchange hnone => hchange ?_
      rw [hwritten.same (by omega), setPipe_self hps]
  | dropped hcloses | released hcloses =>
      rcases hcloses with ⟨-, rfl⟩ | ⟨_, -, rfl⟩
      · exact noteOk_finished (Int.le_refl 0)
      · exact fun _ => trivial
  | @cloned _ d =>
      refine noteOk_finished ?_
      show 0 ≤ fdOfSlot d
      unfold fdOfSlot fakeFdBase
      omega

/-- The clone at the end of `fakefd_dup2` succeeds if the source is open and the target unused. -/
theorem clone_succeeds (hinv : FdInv s) {oldslot newslot : Fin fakeFdCount}
    (hgo : MayGoOn s (.dup2Clone oldslot newslot))
    (h : dup2Locked s oldslot newslot = some (io, s', l')) :
    l' = .finished (.value (fdOfSlot newslot)) := by
  obtain ⟨hold, hnew⟩ := hgo
  obtain ⟨p, ps, hp, hps⟩ := hinv.opened oldslot hold
  unfold dup2Locked cloneLocked cloneIntoSlotLocked at h
  simp only [hp, hold, hnew, hps, reduceCtorEq, or_self, if_false, ne_eq, not_true_eq_false,
    Option.some.injEq, Prod.mk.injEq] at h
  exact h.2.2.symm

/-- A section of a call that has changed something does not make it fail if it finds what it
needs. -/
theorem section_goes_on (hinv : FdInv s) (hok : l.Ok) (hnote : NoteOk l True) (hgo : MayGoOn s l)
    {allocated : Option Nat} (h : sectionAt s allocated l = some (io, s', l')) :
    NoteOk l' True := by
  have hnote := hnote trivial
  cases l with
  | writeWait slot p src total =>
      obtain ⟨hkind, hpipe⟩ := hgo
      have hopen : (s.gFds slot).kind ≠ .unused := by
        rw [hkind]
        decide
      have hwoken : writeWoken s slot p src total = writeFrom s slot p src total :=
        if_neg (by simp [hkind, hpipe])
      obtain ⟨ps, n, bytes, ps', -, -, -, hwritten⟩ :=
        write_from_written hinv hpipe hopen hok (hwoken.symm.trans h)
      refine noteOk_written hwritten fun _ => ?_
      have htotal : total ≠ 0 := hnote
      omega
  | dup2Clone oldslot newslot =>
      rw [clone_succeeds hinv hgo h]
      refine noteOk_finished ?_
      show 0 ≤ fdOfSlot newslot
      unfold fdOfSlot fakeFdBase
      omega
  | idle | finished => cases h
  | _ => exact absurd hnote id

/-- A section of a call that has changed something makes it fail if it does not find what it
needs. -/
theorem section_fails (hgo : ¬ MayGoOn s l) {allocated : Option Nat}
    (h : sectionAt s allocated l = some (io, s', l')) : ∃ e, l' = .finished (.fail (some e)) := by
  cases l with
  | writeWait slot p src total =>
      have hcheck : (s.gFds slot).kind ≠ .pipeWrite ∨ (s.gFds slot).pipe ≠ some p :=
        not_and_or.1 hgo
      have hwoken : writeWoken s slot p src total = fails s .EBADF := if_pos hcheck
      cases hwoken.symm.trans h
      exact ⟨_, rfl⟩
  | dup2Clone oldslot newslot =>
      simp only [sectionAt, dup2Locked, cloneLocked] at h
      split at h
      · cases h
        exact ⟨_, rfl⟩
      · rename_i hcheck
        push Not at hcheck
        have hnew : (s.gFds newslot).kind ≠ .unused := fun hnew => hgo ⟨hcheck.1, hnew⟩
        simp only [cloneIntoSlotLocked, if_pos hnew] at h
        cases h
        exact ⟨_, rfl⟩
  | _ => exact absurd trivial hgo

/-! ## Runs -/

variable {c d : NotedFds T} {t : T} {e : Event}

/-- The invariant of a run in which no call is disturbed. -/
structure NotedInv (c : NotedFds T) : Prop where
  run : RunInv c.config
  notes : ∀ t, NoteOk (c.config.locals t) (c.note t)

/-- The note of a thread after one of its sections. -/
theorem section_note (hinv : FdInv s) (hok : l.Ok) (hnote : NoteOk l changed)
    (hgo : changed → MayGoOn s l) {allocated : Option Nat}
    (hfresh : ∀ p, allocated = some p → s.heap p = none)
    (h : sectionAt s allocated l = some (io, s', l')) : NoteOk l' (addChange changed s s') := by
  rintro (hchanged | hchange)
  · exact section_goes_on hinv hok (fun _ => hnote hchanged) (hgo hchanged) h trivial
  · exact section_change (section_step hinv hok hfresh h) hchange

theorem noted_inv_step (hinv : NotedInv c) (h : NotedFdStep c (t, e) d) (hgo : Undisturbed c t) :
    NotedInv d := by
  cases h with
  | @mk c d note _ _ hmove =>
      refine ⟨run_inv_step hinv.run hmove, fun u => ?_⟩
      cases hmove with
      | @mk _ x _ s l hnext =>
          show NoteOk ((c.set t s l).locals u) (Function.update note t _ u)
          by_cases hu : u = t
          · subst hu
            rw [Config.set_locals_self, Function.update_self, Config.set_shared]
            rcases fd_next_cases hnext with ⟨call, -, rfl, rfl, -⟩ | ⟨r, -, -, -, rfl⟩ |
              ⟨io, allocated, rfl, hfresh, hsection⟩
            · rintro (hchanged | hchange)
              · exact absurd hchanged (by simp [Event.begins])
              · exact absurd rfl hchange
            · exact fun _ => trivial
            · exact section_note hinv.run.fd (hinv.run.ok u) (hinv.notes u) hgo hfresh hsection
          · rw [Config.set_locals_other _ hu, Function.update_of_ne hu]
            exact hinv.notes u

omit [DecidableEq T] in
theorem noted_inv_start : NotedInv (notedStart T) :=
  ⟨run_inv_start, fun _ hchanged => hchanged.elim⟩

/-- A call that is disturbed after it has changed something fails. -/
theorem disturbed_fails (h : NotedFdStep c (t, e) d) (hgo : ¬ Undisturbed c t) :
    (∃ r, d.config.locals t = .finished r ∧ r.toInt = -1) ∧ d.note t := by
  simp only [Undisturbed, not_forall] at hgo
  obtain ⟨hchanged, hgo⟩ := hgo
  cases h with
  | @mk c d note _ _ hmove =>
      cases hmove with
      | @mk _ x _ s l hnext =>
          show (∃ r, (c.set t s l).locals t = .finished r ∧ r.toInt = -1) ∧
            Function.update note t _ t
          rw [Config.set_locals_self, Function.update_self, Config.set_shared]
          rcases fd_next_cases hnext with
            ⟨call, hl, -⟩ | ⟨r, hl, -⟩ | ⟨io, allocated, rfl, -, hsection⟩
          · exact absurd (by rw [hl]; trivial) hgo
          · exact absurd (by rw [hl]; trivial) hgo
          · obtain ⟨e, rfl⟩ := section_fails hgo hsection
            exact ⟨⟨_, rfl, rfl⟩, .inl hchanged⟩

/-- Calls that return -1 have changed nothing, in any run of whole sections that disturbs no call
that has changed something. -/
theorem noted_unchanged {trace : List (T × Event)}
    (h : Run (fun c label d => NotedFdStep c label d ∧ Undisturbed c label.1)
    (notedStart T) trace c)
    {r : Ret} (hl : c.config.locals t = .finished r) (hfail : r.toInt = -1) : ¬ c.note t := by
  have hinv : NotedInv c :=
    h.invariant noted_inv_start fun _ _ _ hinv hstep => noted_inv_step hinv hstep.1 hstep.2
  intro hchanged
  have hnote := hinv.notes t hchanged
  rw [hl] at hnote
  exact hnote hfail

theorem addChange_same (changed : Prop) (s : FdState) : addChange changed s s = changed := by
  simp [addChange]

/-- Threads with the lock and their notes. -/
abbrev NotedLocked (T : Type*) := Noted T Prop FdState Pc (Option Nat) Event FdAccess FdAccess.Res

/-- A step that keeps the notes: the current call of a thread has changed something when what the
table and the pipes are between two sections has changed. -/
abbrev LockedStep : NotedLocked T → T × Act Event → NotedLocked T → Prop :=
  NotedStep fdCalls Event.begins False addChange

/-- The start, at which no thread has a call. -/
def lockedNotedStart (T : Type*) : NotedLocked T := ⟨lockedStart T, fun _ => False⟩

/-- A step that does not run `mutexInit` while a call holds the lock, and ends no section of a call
that has changed something without having found what it needs. -/
abbrev CalmLocked : NotedLocked T → T × Act Event → NotedLocked T → Prop :=
  CalmNoted fdCalls Event.begins False addChange fun c label => Undisturbed c label.1

/-- In every run in which `mutexInit` does not run while a call holds the lock, and whose sections
disturb no call that has changed something, calls that return -1 have changed nothing, neither the
table nor a count nor a byte of a pipe. And whenever such a call is disturbed, it returns -1
although it has changed something. -/
theorem failing_unchanged {trace : List (T × Act Event)} {c : NotedLocked T}
    (h : Run CalmLocked (lockedNotedStart T) trace c) :
    (∀ t r, (viewNoted c).config.locals t = .finished r → r.toInt = -1 → ¬ c.note t) ∧
      ∀ t e d, LockedStep c (t, .shows e) d → ¬ Undisturbed (viewNoted c) t →
        (∃ r, (viewNoted d).config.locals t = .finished r ∧ r.toInt = -1) ∧ d.note t := by
  obtain ⟨hexclusive, hrun⟩ := noted_run addChange_same fd_serves quiet_lockedStart.exclusive h
  refine ⟨fun t r hl hfail => noted_unchanged hrun hl hfail, fun t e d hstep hgo => ?_⟩
  have hviewed : NotedFdStep (viewNoted c) (t, e) (viewNoted d) :=
    (viewed_noted addChange_same fd_serves hexclusive hstep nofun).2
  exact disturbed_fails hviewed hgo

/-- One thread has returned from a failed call. -/
def hasFailed (c : Threads.Config Unit FdState Pc) : Bool :=
  match c.locals () with
  | .finished (.fail _) => true
  | _ => false

/-- One thread opens a pipe, puts its read end in the place of its write end, and then fails to
duplicate a descriptor that is not open. -/
def dup2ThenFail : List (Unit × Choice) :=
  [((), .call (.pipe false)), ((), .step (some 7)), ((), .step none),
    ((), .call (.dup2 900 901)), ((), .step none), ((), .step none), ((), .step none),
    ((), .step none), ((), .call (.dup 905 0 false)), ((), .step none)]

theorem failing_unchanged_example : ∃ trace, ∃ c : NotedLocked Unit,
    Run CalmLocked (lockedNotedStart Unit) trace c ∧ hasFailed (viewNoted c).config = true ∧
      (∀ t r, (viewNoted c).config.locals t = .finished r → r.toInt = -1 → ¬ c.note t) ∧
      ∀ t e d, LockedStep c (t, .shows e) d → ¬ Undisturbed (viewNoted c) t →
        (∃ r, (viewNoted d).config.locals t = .finished r ∧ r.toInt = -1) ∧ d.note t := by
  have hexec : (fdProgram.execIf (fun c label => decide (MayGoOn c.shared (c.locals label.1)))
      (fdStart Unit) dup2ThenFail).any (fun r => hasFailed r.2) = true := by
    decide
  obtain ⟨⟨seen, v⟩, hexec, hfailed⟩ := (Option.any_eq_true _ _).1 hexec
  have hnoted : ∃ note, Run (fun c label d => NotedFdStep c label d ∧ _) (notedStart Unit) seen
      ⟨v, note⟩ :=
    Tracked.exists_run_of (Program.exec_if_run hexec) (fun _ _ _ hstep => hstep.1) fun _ => False
  obtain ⟨note, hseen⟩ := hnoted
  have hseen : Run (fun c label d => NotedFdStep c label d ∧ Undisturbed c label.1)
      (viewNoted (lockedNotedStart Unit)) seen ⟨v, note⟩ :=
    hseen.mono fun _ _ _ hstep => ⟨hstep.1, fun _ => of_decide_eq_true hstep.2.2⟩
  obtain ⟨trace, c, hcalm, -, hview, -⟩ :=
    noted_realized addChange_same fd_serves fd_completes quiet_lockedStart hseen
  have hconfig : (viewNoted c).config = v := congrArg Tracked.config hview
  exact ⟨trace, c, hcalm, (congrArg hasFailed hconfig).trans hfailed, failing_unchanged hcalm⟩

/-- One thread opens a pipe and is about to close its read end, to put a descriptor in its place
that is not open. -/
def dup2Closed : List (Unit × Choice) :=
  [((), .call (.pipe false)), ((), .step (some 7)), ((), .step none),
    ((), .call (.dup2 905 900)), ((), .step none)]

/-- A run of whole sections in which `fakefd_dup2` returns -1 after it has closed its target. -/
theorem dup2_closed_before : ¬ ∀ (trace : List (Unit × Event)) (c : NotedFds Unit),
    Run NotedFdStep (notedStart Unit) trace c →
    ∀ t r, c.config.locals t = .finished r → r.toInt = -1 → ¬ c.note t := by
  intro hunchanged
  have hexec : (fdProgram.exec (fdStart Unit) dup2Closed).any (fun r =>
      (fdProgram.exec r.2 [((), .step none)]).any fun q =>
        decide (q.2.shared.gFds 0 ≠ r.2.shared.gFds 0) &&
          (fdProgram.exec q.2 [((), .step none)]).any fun w =>
            hasFailed w.2 && w.1.all fun label => !decide label.2.begins) = true := by
    decide
  obtain ⟨trace, c, hrun, hsteps⟩ := Program.exec_test hexec
  obtain ⟨e, d, hclose, hsteps⟩ := Program.exec_one hsteps
  obtain ⟨hchange, hsteps⟩ := Bool.and_eq_true_iff.1 hsteps
  obtain ⟨e', d', hclone, hfailed⟩ := Program.exec_one hsteps
  obtain ⟨hfailed, hbegins⟩ := Bool.and_eq_true_iff.1 hfailed
  have hnoted : ∃ note, Run NotedFdStep (notedStart Unit) trace ⟨c, note⟩ :=
    Tracked.exists_run hrun fun _ => False
  obtain ⟨note, hrun⟩ := hnoted
  have hnext : ∃ note', NotedFdStep ⟨c, note⟩ ((), e) ⟨d, note'⟩ ∧ note' () = addChange _ _ _ :=
    Tracked.exists_step hclose note
  obtain ⟨note', hnext, hnote'⟩ := hnext
  have hlast : ∃ note'', NotedFdStep ⟨d, note'⟩ ((), e') ⟨d', note''⟩ ∧
    note'' () = addChange _ _ _ :=
    Tracked.exists_step hclone note'
  obtain ⟨note'', hlast, hnote''⟩ := hlast
  -- the closing section has changed the slot, and the call has gone on since
  have hclosed : d.shared ≠ c.shared := by
    intro hsame
    rw [hsame] at hchange
    exact of_decide_eq_true hchange rfl
  have hgoing : ¬ e'.begins := by
    simpa using hbegins
  have hchanged : note'' () := by
    rw [hnote'', if_neg hgoing, hnote']
    exact .inl (.inr hclosed)
  simp only [hasFailed] at hfailed
  split at hfailed
  · rename_i r hl
    exact hunchanged _ _ ((hrun.snoc hnext).snoc hlast) () _ hl rfl hchanged
  · cases hfailed

/-- `fakefd_dup2` returns -1 after it has closed its target, although its source is not open. -/
theorem dup2_fails_closed : ¬ ∀ (trace : List (Unit × Act Event)) (c : NotedLocked Unit),
    Run (fun c label d => LockedStep c label d ∧ Calm c.config label)
      (lockedNotedStart Unit) trace c →
    ∀ t r, (viewNoted c).config.locals t = .finished r → r.toInt = -1 → ¬ c.note t := by
  intro hunchanged
  refine dup2_closed_before fun seen v hseen t r hl hfail => ?_
  have hseen : Run (fun c label d => NotedFdStep c label d ∧ True)
    (viewNoted (lockedNotedStart Unit))
      seen v := hseen.mono fun _ _ _ hstep => ⟨hstep, trivial⟩
  obtain ⟨trace, c, hcalm, -, rfl, -⟩ :=
    noted_realized addChange_same fd_serves fd_completes quiet_lockedStart hseen
  exact hunchanged trace c (hcalm.mono fun _ _ _ hstep => ⟨hstep.1, hstep.2.1⟩) t r hl hfail

end Asnx.FakeFd
