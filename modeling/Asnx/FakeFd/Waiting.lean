import Asnx.FakeFd.Locking

/-!
# Waiting on a pipe

`fakefd_read` and `fakefd_write` look after every wait whether their slot still points at the
address of their pipe. A slot that has been closed may point at that address again, for the same
pipe or for a later one. In a run in which nobody fills the slot of a waiting call again with such
an end (`Refills`), and `mutexInit` does not run while a call holds the lock, a call stays on its
own pipe (`waits_on_own_pipe`).
-/

namespace Asnx.FakeFd

open Threads Locking

variable {T : Type*} [DecidableEq T]

/-- Where a thread waits: its slot, the kind of the end in it, and the address of the pipe. -/
def Pc.waits : Pc → Option (Fin fakeFdCount × FakeFdKind × Nat)
  | .readWait slot p _ => some (slot, .pipeRead, p)
  | .writeWait slot p _ _ => some (slot, .pipeWrite, p)
  | _ => none

/-- The slot holds an end of a kind at an address. -/
def FdState.Holds (s : FdState) (slot : Fin fakeFdCount) (kind : FakeFdKind) (p : Nat) : Prop :=
  (s.gFds slot).kind = kind ∧ (s.gFds slot).pipe = some p

instance (s : FdState) (slot : Fin fakeFdCount) (kind : FakeFdKind) (p : Nat) :
    Decidable (s.Holds slot kind p) := inferInstanceAs (Decidable (_ ∧ _))

/-- The state in which `fakefd_pipe` looks for its second slot. -/
def FdState.reserve (s : FdState) (r : Fin fakeFdCount) : FdState :=
  s.setFd r { s.gFds r with kind := .pipeRead }

/-- The section at `l` puts an end of a kind at an address into an unused slot. -/
def Fills (s : FdState) (l : Pc) (io : Io) (slot : Fin fakeFdCount) (kind : FakeFdKind) (p : Nat) :
    Prop :=
  match l with
  | .pipe =>
      io = .created p ∧ (kind = .pipeRead ∧ allocSlotFrom s fakeFdBase = some slot ∨
        kind = .pipeWrite ∧ ∃ r ∈ allocSlotFrom s fakeFdBase,
          allocSlotFrom (s.reserve r) fakeFdBase = some slot)
  | .dup oldslot minFd _ => allocSlotFrom s minFd = some slot ∧ s.Holds oldslot kind p
  | .dup2Clone oldslot newslot =>
      newslot = slot ∧ (s.gFds slot).kind = .unused ∧ s.Holds oldslot kind p
  | _ => False

/-- A step fills the slot of a waiting call again, with an end like the one that the call waits
on. -/
def Refills (c : Threads.Config T FdState Pc) (label : T × Event) : Prop :=
  ∃ io u slot kind p, label.2 = .section io ∧ (c.locals u).waits = some (slot, kind, p) ∧
    Fills c.shared (c.locals label.1) io slot kind p

/-! ## One section -/

variable {s s' : FdState} {l l' : Pc} {io : Io} {slot : Fin fakeFdCount}
    {kind : FakeFdKind} {p : Nat}

/-- A slot that is written holds what was written, any other one what it held. -/
theorem holds_setFd {i : Fin fakeFdCount} {e : FakeFdEntry} (h : (s.setFd i e).Holds slot kind p) :
    (i = slot ∧ e.kind = kind ∧ e.pipe = some p) ∨ (slot ≠ i ∧ s.Holds slot kind p) := by
  unfold FdState.Holds at h
  rw [setFd_gFds] at h
  by_cases hslot : slot = i
  · subst hslot
    rw [Function.update_self] at h
    exact .inl ⟨rfl, h⟩
  · rw [Function.update_of_ne hslot] at h
    exact .inr ⟨hslot, h⟩

theorem holds_zero (hkind : kind ≠ .unused) {i : Fin fakeFdCount}
    (h : (s.setFd i .zero).Holds slot kind p) : s.Holds slot kind p := by
  rcases holds_setFd h with ⟨-, hunused, -⟩ | ⟨-, hheld⟩
  · exact absurd hunused.symm hkind
  · exact hheld

/-- What `fakefd_pipe` puts into the slots. -/
theorem pipe_fills (hkind : kind ≠ .unused) {allocated : Option Nat}
    (h : pipeLocked s allocated = some (io, s', l')) (hholds : s'.Holds slot kind p) :
    s.Holds slot kind p ∨ Fills s .pipe io slot kind p := by
  unfold pipeLocked at h
  split at h
  · cases h
    exact .inl hholds
  · rename_i r hr
    have hundone : ∀ q, ((s.reserve r).setFd r .zero).Holds slot kind q → s.Holds slot kind q := by
      intro q hheld
      have hzero : (s.reserve r).setFd r .zero = s.setFd r .zero := by
        simp [FdState.reserve, FdState.setFd]
      rw [hzero] at hheld
      exact holds_zero hkind hheld
    simp only at h
    split at h
    · cases h
      exact .inl (hundone p hholds)
    · rename_i w hw
      cases allocated with
      | none =>
          cases h
          exact .inl (hundone p hholds)
      | some q =>
          cases h
          rcases holds_setFd hholds with ⟨rfl, rfl, hq⟩ | ⟨-, hholds⟩
          · cases hq
            exact .inr ⟨rfl, .inr ⟨rfl, r, hr, hw⟩⟩
          · rcases holds_setFd hholds with ⟨rfl, rfl, hq⟩ | ⟨hne, hholds⟩
            · cases hq
              exact .inr ⟨rfl, .inl ⟨rfl, hr⟩⟩
            · rcases holds_setFd (s := s) hholds with ⟨rfl, -⟩ | ⟨-, hholds⟩
              · exact absurd rfl hne
              · exact .inl hholds

/-- What `fakefd_dup` and `fakefd_dup2` put into a slot. -/
theorem clone_fills {oldslot : Fin fakeFdCount} {target : Option (Fin fakeFdCount)} {cloexec : Bool}
    {e : Errno} (h : cloneLocked s oldslot target cloexec e = some (io, s', l'))
    (hholds : s'.Holds slot kind p) :
    s.Holds slot kind p ∨
      (target = some slot ∧ (s.gFds slot).kind = .unused ∧ s.Holds oldslot kind p) := by
  unfold cloneLocked cloneIntoSlotLocked at h
  simp only at h
  split at h
  · cases h
    exact .inl hholds
  · cases target with
    | none =>
        cases h
        exact .inl hholds
    | some d =>
        simp only at h
        by_cases hd : (s.gFds d).kind ≠ .unused
        · rw [if_pos hd] at h
          cases h
          exact .inl hholds
        · rw [if_neg hd] at h
          cases hq : (s.gFds oldslot).pipe with
          | none =>
              rw [hq] at h
              cases h
          | some q =>
              rw [hq] at h
              simp only at h
              cases hps : s.heap q with
              | none =>
                  rw [hps] at h
                  cases h
              | some ps =>
                  rw [hps] at h
                  cases h
                  have hentry : ∀ e : FakeFdEntry, e.kind = (s.gFds oldslot).kind →
                      e.pipe = (s.gFds oldslot).pipe → (s.setFd d e).Holds slot kind p →
                      s.Holds slot kind p ∨ (some d = some slot ∧ (s.gFds slot).kind = .unused ∧
                        s.Holds oldslot kind p) := by
                    intro e hkind hpipe hheld
                    rcases holds_setFd hheld with ⟨rfl, rfl, hp⟩ | ⟨-, hheld⟩
                    · exact .inr ⟨rfl, not_not.1 hd, hkind.symm, hpipe ▸ hp⟩
                    · exact .inl hheld
                  refine hentry _ ?_ ?_ hholds
                  · split <;> rfl
                  · split
                    · exact hq.symm
                    · rfl

/-- A slot holds what it held, unless the section fills it. -/
theorem section_fills (hkind : kind ≠ .unused) {allocated : Option Nat}
    (h : sectionAt s allocated l = some (io, s', l')) (hstep : SectionStep s l io s' l')
    (hholds : s'.Holds slot kind p) : s.Holds slot kind p ∨ Fills s l io slot kind p := by
  cases hstep with
  | stays => exact .inl hholds
  | flagged _ hsame hpipe =>
      rcases holds_setFd hholds with ⟨rfl, hk, hp⟩ | ⟨-, hheld⟩
      · exact .inl ⟨hsame ▸ hk, hpipe ▸ hp⟩
      · exact .inl hheld
  | piped => exact pipe_fills hkind h hholds
  | dequeued => exact .inl hholds
  | enqueued => exact .inl hholds
  | dropped => exact .inl (holds_zero hkind hholds)
  | released => exact .inl (holds_zero hkind hholds)
  | cloned hclones =>
      rcases hclones with ⟨minFd, cloexec, rfl, -⟩ | rfl
      · rcases clone_fills h hholds with hheld | ⟨htarget, -, hold⟩
        · exact .inl hheld
        · exact .inr ⟨htarget, hold⟩
      · rcases clone_fills h hholds with hheld | ⟨htarget, hunused, hold⟩
        · exact .inl hheld
        · exact .inr ⟨Option.some.inj htarget, hunused, hold⟩

/-! ## A waiting call -/

/-- The bytes that a section moves. -/
def Io.moved : Io → List UInt8
  | .enqueued _ bytes | .dequeued _ bytes => bytes
  | _ => []

/-- The pipe whose bytes a section moves. -/
def Io.address : Io → Option Nat
  | .enqueued p _ | .dequeued p _ => some p
  | _ => Option.none

/-- A call whose slot does not hold its end any more fails. -/
theorem waits_fails {allocated : Option Nat} (hwaits : l.waits = some (slot, kind, p))
    (hlost : ¬ s.Holds slot kind p) (h : sectionAt s allocated l = some (io, s', l')) :
    io = .none ∧ l' = .finished (.fail (some .EBADF)) := by
  unfold FdState.Holds at hlost
  cases l with
  | readWait slot' q count =>
      cases hwaits
      simp only [sectionAt, readWoken] at h
      rw [if_pos (by tauto)] at h
      cases h
      exact ⟨rfl, rfl⟩
  | writeWait slot' q src total =>
      cases hwaits
      simp only [sectionAt, writeWoken] at h
      rw [if_pos (by tauto)] at h
      cases h
      exact ⟨rfl, rfl⟩
  | _ => cases hwaits

theorem read_loop_next {count : Nat} (h : readLoop s slot p count = some (io, s', l')) :
    (∀ q ∈ io.address, q = p) ∧
      (l'.waits = some (slot, .pipeRead, p) ∨ ∃ r, l' = .finished r) := by
  unfold readLoop at h
  split at h
  · cases h
  · split at h
    · split at h
      · cases h
        exact ⟨nofun, .inr ⟨_, rfl⟩⟩
      · cases h
        exact ⟨nofun, .inl rfl⟩
    · split at h
      · cases h
        exact ⟨nofun, .inr ⟨_, rfl⟩⟩
      · cases h
        exact ⟨fun q hq => (Option.some.inj hq).symm, .inr ⟨_, rfl⟩⟩

/-- A call that goes on moves bytes of its own pipe, and waits at the same place or ends. -/
theorem waits_section (hinv : FdInv s) (hok : l.Ok) {allocated : Option Nat}
    (hwaits : l.waits = some (slot, kind, p)) (h : sectionAt s allocated l = some (io, s', l')) :
    (∀ q ∈ io.address, q = p) ∧
      (l'.waits = some (slot, kind, p) ∨ ∃ r, l' = .finished r) := by
  by_cases hlost : s.Holds slot kind p
  · cases l with
    | readWait slot' q count =>
        cases hwaits
        simp only [sectionAt, readWoken] at h
        rw [if_neg (by unfold FdState.Holds at hlost; tauto)] at h
        exact read_loop_next h
    | writeWait slot' q src total =>
        cases hwaits
        simp only [sectionAt, writeWoken] at h
        rw [if_neg (by unfold FdState.Holds at hlost; tauto)] at h
        have hopen : (s.gFds slot).kind ≠ .unused := by
          rw [hlost.1]
          decide
        obtain ⟨ps, n, bytes, ps', -, rfl, -, hwritten⟩ :=
          write_from_written hinv hlost.2 hopen hok h
        refine ⟨fun q hq => (Option.some.inj hq).symm, ?_⟩
        rcases hwritten.next with rfl | rfl | ⟨-, e, rfl⟩
        · exact .inl rfl
        · exact .inr ⟨_, rfl⟩
        · exact .inr ⟨_, rfl⟩
    | _ => cases hwaits
  · obtain ⟨rfl, rfl⟩ := waits_fails hwaits hlost h
    refine ⟨fun q hq => ?_, .inr ⟨_, rfl⟩⟩
    cases hq

/-! ## Runs -/

variable {c d : Threads.Config T FdState Pc} {t u : T} {e : Event} {label : T × Event}

/-- A run in which no slot of a waiting call is filled again with an end like the one it waits
on. -/
abbrev Steady (T : Type*) [DecidableEq T] (c : Threads.Config T FdState Pc) (label : T × Event)
    (d : Threads.Config T FdState Pc) : Prop := Step fdProgram c label d ∧ ¬ Refills c label

/-- A thread begins a call, returns from one, or executes a section. -/
theorem step_own (h : Step fdProgram c (t, e) d) :
    (∃ call, e = .called call) ∨ d.locals t = .idle ∨
      ∃ io allocated, e = .section io ∧
        sectionAt c.shared allocated (c.locals t) = some (io, d.shared, d.locals t) := by
  cases h with
  | @mk _ x _ s l hnext =>
      rw [Config.set_locals_self, Config.set_shared]
      rcases fd_next_cases hnext with ⟨call, -, he, -⟩ | ⟨r, -, -, -, hidle⟩ |
        ⟨io, allocated, he, -, hsection⟩
      · exact .inl ⟨call, he⟩
      · exact .inr (.inl hidle)
      · exact .inr (.inr ⟨io, allocated, he, hsection⟩)

/-- The section of a step. -/
theorem step_section (h : Step fdProgram c (t, .section io) d) : ∃ allocated,
    sectionAt c.shared allocated (c.locals t) = some (io, d.shared, d.locals t) := by
  cases h with
  | @mk _ x _ s l hnext =>
      rw [Config.set_locals_self, Config.set_shared]
      rcases fd_next_cases hnext with ⟨call, -, he, -⟩ | ⟨r, -, he, -⟩ |
        ⟨io', allocated, he, -, hsection⟩
      · cases he
      · cases he
      · cases he
        exact ⟨allocated, hsection⟩

/-- Where a call waits, its slot holds its end only if it has held it all along. -/
theorem steady_holds (hinv : RunInv c) (h : Steady T c label d) (hkind : kind ≠ .unused)
    (hwaits : (c.locals u).waits = some (slot, kind, p)) (hholds : d.shared.Holds slot kind p) :
    c.shared.Holds slot kind p := by
  obtain ⟨t, e⟩ := label
  obtain ⟨hstep, hsteady⟩ := h
  rcases fd_step_cases hinv hstep with ⟨hsame, -⟩ | ⟨io, rfl, hsection⟩
  · rwa [hsame] at hholds
  · obtain ⟨allocated, hsec⟩ := step_section hstep
    rcases section_fills hkind hsec hsection hholds with hheld | hfills
    · exact hheld
    · exact absurd ⟨io, u, slot, kind, p, rfl, hwaits, hfills⟩ hsteady

/-- A pipe that a slot points at is not created. -/
theorem holds_not_created (hinv : RunInv c) (hkind : kind ≠ .unused)
    (hholds : c.shared.Holds slot kind p) (h : Step fdProgram c label d) :
    label.2 ≠ .section (.created p) := by
  obtain ⟨t, e⟩ := label
  rintro rfl
  rcases fd_step_cases hinv h with ⟨-, -, hother, -⟩ | ⟨io, hio, hsection⟩
  · exact hother _ rfl
  · cases hio
    generalize c.locals t = l at hsection
    generalize d.locals t = l' at hsection
    generalize d.shared = s' at hsection
    cases hsection with
    | piped _ _ _ hfree =>
        obtain ⟨q, ps, hq, hps⟩ := hinv.fd.opened slot (by rw [hholds.1]; exact hkind)
        rw [hholds.2] at hq
        cases hq
        rw [hfree] at hps
        cases hps

/-- Where a call is that has waited in the slot: it waits there still, or it has returned. While it
waits and its slot holds its end, no pipe has been created at its address. -/
structure Stays (t : T) (slot : Fin fakeFdCount) (kind : FakeFdKind) (p : Nat)
    (trace : List (T × Event)) (c : Threads.Config T FdState Pc) : Prop where
  run : RunInv c
  place : (c.locals t).waits = some (slot, kind, p) ∨ (∃ r, c.locals t = .finished r) ∨
    c.locals t = .idle
  own : (c.locals t).waits = some (slot, kind, p) → c.shared.Holds slot kind p →
    ∀ e ∈ trace, e.2 ≠ .section (.created p)

/-- Another thread's place. -/
theorem step_other (h : Step fdProgram c (t, e) d) (hu : u ≠ t) : d.locals u = c.locals u := by
  cases h with
  | mk => exact c.set_locals_other hu _ _

/-- After a step that does not begin a call of the thread, it waits only if it did before. -/
theorem Stays.place_step {trace : List (T × Event)} (h : Stays u slot kind p trace c)
    (hstep : Step fdProgram c label d) (hcall : label.1 = u → ∀ call, label.2 ≠ .called call) :
    (d.locals u).waits = some (slot, kind, p) ∧ (c.locals u).waits = some (slot, kind, p) ∨
      (∃ r, d.locals u = .finished r) ∨ d.locals u = .idle := by
  obtain ⟨t, e⟩ := label
  by_cases hu : u = t
  · subst hu
    rcases step_own hstep with ⟨call, rfl⟩ | hidle | ⟨io, allocated, rfl, hsec⟩
    · exact absurd rfl (hcall rfl call)
    · exact .inr (.inr hidle)
    · rcases h.place with hwaits | ⟨r, hr⟩ | hidle
      · obtain ⟨-, hnext⟩ := waits_section h.run.fd (h.run.ok u) hwaits hsec
        rcases hnext with hnext | hnext
        · exact .inl ⟨hnext, hwaits⟩
        · exact .inr (.inl hnext)
      · rw [hr] at hsec
        cases hsec
      · rw [hidle] at hsec
        cases hsec
  · rw [step_other hstep hu]
    rcases h.place with hwaits | hrest
    · exact .inl ⟨hwaits, hwaits⟩
    · exact .inr hrest

theorem Stays.waits_before {trace : List (T × Event)} (h : Stays u slot kind p trace c)
    (hstep : Step fdProgram c label d) (hcall : label.1 = u → ∀ call, label.2 ≠ .called call)
    (hwaits : (d.locals u).waits = some (slot, kind, p)) :
    (c.locals u).waits = some (slot, kind, p) := by
  rcases h.place_step hstep hcall with ⟨-, hbefore⟩ | ⟨r, hr⟩ | hidle
  · exact hbefore
  · rw [hr] at hwaits
    cases hwaits
  · rw [hidle] at hwaits
    cases hwaits

/-- A step that does not begin a call of the thread keeps it where it is. -/
theorem Stays.step {trace : List (T × Event)} (h : Stays u slot kind p trace c)
    (hkind : kind ≠ .unused) (hstep : Steady T c label d)
    (hcall : label.1 = u → ∀ call, label.2 ≠ .called call) :
    Stays u slot kind p (trace ++ [label]) d := by
  refine ⟨run_inv_step h.run hstep.1, ?_, fun hwaits hholds e he => ?_⟩
  · rcases h.place_step hstep.1 hcall with ⟨hwaits, -⟩ | hrest
    · exact .inl hwaits
    · exact .inr hrest
  · have hbefore := h.waits_before hstep.1 hcall hwaits
    have hheld := steady_holds h.run hstep hkind hbefore hholds
    rcases List.mem_append.1 he with hmem | hmem
    · exact h.own hbefore hheld e hmem
    · rw [List.mem_singleton.1 hmem]
      exact holds_not_created h.run hkind hheld hstep.1

/-- A call that has waited stays, over the rest of a run until the thread begins another call. -/
theorem Stays.run_on {before trace : List (T × Event)} (h : Stays t slot kind p before c)
    (hkind : kind ≠ .unused) (hrun : Run (Steady T) c trace d)
    (hcall : ∀ e ∈ trace, e.1 = t → ∀ call, e.2 ≠ .called call) :
    Stays t slot kind p (before ++ trace) d := by
  refine (hrun.invariant_trace (I := fun trace d =>
    (∀ e ∈ trace, e.1 = t → ∀ call, e.2 ≠ .called call) →
      Stays t slot kind p (before ++ trace) d) (fun _ => by simpa using h) ?_) hcall
  intro trace c label d hstays hstep hcall
  have hlast := (hstays fun e he => hcall e (List.mem_append_left _ he)).step hkind hstep
    (hcall label (by simp))
  rwa [List.append_assoc] at hlast

/-- A slot that does not hold the end of a waiting call does not hold it later. -/
theorem Stays.lost_run {trace : List (T × Event)} (h : Stays t slot kind p [] c)
    (hkind : kind ≠ .unused) (hlost : ¬ c.shared.Holds slot kind p)
    (hrun : Run (Steady T) c trace d) (hcall : ∀ e ∈ trace, e.1 = t → ∀ call, e.2 ≠ .called call)
    (hwaits : (d.locals t).waits = some (slot, kind, p)) : ¬ d.shared.Holds slot kind p := by
  refine (hrun.invariant_trace (I := fun trace d =>
    (∀ e ∈ trace, e.1 = t → ∀ call, e.2 ≠ .called call) → Stays t slot kind p trace d ∧
      ((d.locals t).waits = some (slot, kind, p) → ¬ d.shared.Holds slot kind p))
    (fun _ => ⟨h, fun _ => hlost⟩) ?_ hcall).2 hwaits
  intro trace c label d hbefore hstep hcall
  obtain ⟨hstays, hlost⟩ := hbefore fun e he => hcall e (List.mem_append_left _ he)
  have hlast := hcall label (by simp)
  refine ⟨hstays.step hkind hstep hlast, fun hwaits hholds => ?_⟩
  have hwaited := hstays.waits_before hstep.1 hlast hwaits
  exact hlost hwaited (steady_holds hstays.run hstep hkind hwaited hholds)

/-- The kinds of the ends that calls wait on. -/
theorem waits_kind {l : Pc} (h : l.waits = some (slot, kind, p)) : kind ≠ .unused := by
  cases l with
  | readWait => cases h; decide
  | writeWait => cases h; decide
  | _ => cases h

/-- A call stays on its own pipe, in every run of whole sections that fills no slot of a waiting
call again. -/
theorem stays_on_own_pipe {trace later : List (T × Event)} {c c' d : Threads.Config T FdState Pc}
    (hrun : Run (Steady T) (fdStart T) trace c) (hwaits : (c.locals t).waits = some (slot, kind, p))
    (hlater : Run (Steady T) c later c') (hcall : ∀ e ∈ later, e.1 = t → ∀ call, e.2 ≠ .called call)
    (hstep : Steady T c' (t, .section io) d) :
    (∀ q ∈ io.address, q = p ∧ ∀ e ∈ later, e.2 ≠ .section (.created p)) ∧
    ∀ first second closed, later = first ++ second → Run (Steady T) c first closed →
      Run (Steady T) closed second c' → (closed.shared.gFds slot).kind = .unused →
      io.moved = [] ∧ ∃ r, d.locals t = .finished r ∧ r.toInt = -1 := by
  have hkind := waits_kind hwaits
  have hinv : RunInv c := run_inv_run (hrun.mono fun _ _ _ h => h.1)
  have hstart : Stays t slot kind p [] c := ⟨hinv, .inl hwaits, fun _ _ => nofun⟩
  have hstays := hstart.run_on hkind hlater hcall
  obtain ⟨allocated, hsec⟩ := step_section hstep.1
  have hwaits' : (c'.locals t).waits = some (slot, kind, p) := by
    rcases hstays.place with hwaits' | ⟨r, hr⟩ | hidle
    · exact hwaits'
    · rw [hr] at hsec
      cases hsec
    · rw [hidle] at hsec
      cases hsec
  refine ⟨fun q hq => ?_, fun first second closed hsplit hfirst hsecond hclosed => ?_⟩
  · refine ⟨(waits_section hstays.run.fd (hstays.run.ok t) hwaits' hsec).1 q hq, ?_⟩
    refine hstays.own hwaits' ?_
    by_contra hlost
    obtain ⟨rfl, -⟩ := waits_fails hwaits' hlost hsec
    cases hq
  · subst hsplit
    have hmiddle := hstart.run_on hkind hfirst fun e he => hcall e (List.mem_append_left _ he)
    have hlost : ¬ closed.shared.Holds slot kind p := fun hholds =>
      hkind (hholds.1.symm.trans hclosed)
    have hgone : ¬ c'.shared.Holds slot kind p :=
      Stays.lost_run ⟨hmiddle.run, hmiddle.place, fun _ _ => nofun⟩ hkind hlost hsecond
        (fun e he => hcall e (List.mem_append_right _ he)) hwaits'
    obtain ⟨rfl, hfail⟩ := waits_fails hwaits' hgone hsec
    exact ⟨rfl, _, hfail, rfl⟩

/-- A step that does not run `mutexInit` while a call holds the lock, and fills no slot of a
waiting call again. -/
abbrev CalmSteady : LockedFds T → T × Act Event → LockedFds T → Prop :=
  CalmStep fdCalls fun c label => ¬ Refills c label

/-- A call stays on its own pipe, in every run in which `mutexInit` does not run while a call holds
the lock and no slot of a waiting call is filled again with an end like the one it waits on. From
any time at which the call waits until it returns, it moves bytes of the pipe that it waits on and
no pipe is created at the address of that one before; and when its slot has been closed, it moves
nothing more and returns -1. -/
theorem waits_on_own_pipe {trace later : List (T × Act Event)} {c c' d : LockedFds T}
    (hrun : Run CalmSteady (lockedStart T) trace c)
    (hwaits : ((view c).locals t).waits = some (slot, kind, p)) (hlater : Run CalmSteady c later c')
    (hcall : ∀ e ∈ later, e.1 = t → ∀ call, e.2 ≠ .shows (.called call))
    (hstep : CalmSteady c' (t, .shows (.section io)) d) :
    (∀ q ∈ io.address, q = p ∧ ∀ e ∈ later, e.2 ≠ .shows (.section (.created p))) ∧
    ∀ first second closed, later = first ++ second → Run CalmSteady c first closed →
      Run CalmSteady closed second c' → ((view closed).shared.gFds slot).kind = .unused →
      io.moved = [] ∧ ∃ r, (view d).locals t = .finished r ∧ r.toInt = -1 := by
  obtain ⟨hexclusive, hseen⟩ := view_run fd_serves quiet_lockedStart.exclusive hrun
  obtain ⟨hexclusive', hseenLater⟩ := view_run fd_serves hexclusive hlater
  have hseenStep : Steady T (view c') (t, .section io) (view d) :=
    ⟨hexclusive'.viewed fd_serves hstep.1 hstep.2.1, hstep.2.2 _ rfl⟩
  have hseenCall : ∀ e ∈ shown later, e.1 = t → ∀ call, e.2 ≠ .called call := by
    rintro ⟨u, e⟩ he rfl call rfl
    exact hcall _ (mem_shown.1 he) rfl call rfl
  obtain ⟨hown, hclosed⟩ := stays_on_own_pipe hseen hwaits hseenLater hseenCall hseenStep
  refine ⟨fun q hq => ⟨(hown q hq).1, ?_⟩,
    fun first second closed hsplit hfirst hsecond hunused => ?_⟩
  · rintro ⟨u, a⟩ he rfl
    exact (hown q hq).2 _ (mem_shown.2 he) rfl
  · obtain ⟨hexclusive'', hseenFirst⟩ := view_run fd_serves hexclusive hfirst
    refine hclosed _ _ _ ?_ hseenFirst (view_run fd_serves hexclusive'' hsecond).2 hunused
    rw [hsplit, shown_append]

/-! ## A wait that ends well, and one that does not -/

/-- A step that cannot fill a slot, or at which nobody waits. -/
def isHarmless (c : Threads.Config Bool FdState Pc) (label : Bool × Event) : Bool :=
  (match c.locals label.1 with
    | .pipe | .dup _ _ _ | .dup2Clone _ _ => false
    | _ => true) || ((c.locals true).waits.isNone && (c.locals false).waits.isNone)

theorem not_refills {c : Threads.Config Bool FdState Pc} {label : Bool × Event}
    (h : isHarmless c label = true) (e : Event) : ¬ Refills c (label.1, e) := by
  rintro ⟨io, u, slot, kind, p, -, hwaits, hfills⟩
  unfold isHarmless at h
  rw [Bool.or_eq_true, Bool.and_eq_true] at h
  rcases h with h | ⟨htrue, hfalse⟩
  · generalize c.locals label.1 = l at h hfills
    cases l with
    | pipe => cases h
    | dup => cases h
    | dup2Clone => cases h
    | _ => exact hfills
  · cases u with
    | true => simp [hwaits] at htrue
    | false => simp [hwaits] at hfalse

/-- What a step is seen to take out of a pipe. -/
def Event.taken : Event → Option (Nat × List UInt8)
  | .section (.dequeued p bytes) => some (p, bytes)
  | _ => none

theorem taken_eq {e : Event} {bytes : List UInt8} (h : e.taken = some (p, bytes)) :
    e = .section (.dequeued p bytes) := by
  cases e with
  | called => cases h
  | returned => cases h
  | «section» io =>
      cases io with
      | dequeued q got =>
          cases h
          rfl
      | _ => cases h

/-- A step creates a pipe at an address. -/
def Event.creates (p : Nat) : Event → Bool
  | .section (.created q) => decide (q = p)
  | _ => false

/-- No step of a schedule begins a call of the thread `true`. -/
def keepsCall (trace : List (Bool × Event)) : Bool :=
  trace.all fun e => !e.1 || match e.2 with
    | .called _ => false
    | _ => true

theorem keepsCall_iff {trace : List (Bool × Event)} (h : keepsCall trace = true) :
    ∀ e ∈ trace, e.1 = true → ∀ call, e.2 ≠ .called call := by
  intro e he hself call hcall
  have hkeeps := List.all_eq_true.1 h e he
  simp [hself, hcall] at hkeeps

/-- The thread `true` opens a pipe and waits for bytes. -/
def readAndWait : List (Bool × Choice) :=
  [(true, .call (.pipe false)), (true, .step (some 7)), (true, .step none),
    (true, .call (.read 900 false 4)), (true, .step none)]

/-- The thread `false` writes three bytes. -/
def writeThree : List (Bool × Choice) :=
  [(false, .call (.write 901 false ⟨fun k => UInt8.ofNat k, 3⟩)), (false, .step none),
    (false, .step none)]

/-- The thread `false` closes both ends and opens a pipe, which is allocated at the same address. -/
def closeAndReopen : List (Bool × Choice) :=
  [(false, .call (.close 900)), (false, .step none), (false, .step none),
    (false, .call (.close 901)), (false, .step none), (false, .step none),
    (false, .call (.pipe false)), (false, .step (some 7)), (false, .step none)]

/-- The thread that waits reads the three bytes after some steps of the other one. -/
def readsAfter (schedule : List (Bool × Choice))
    (ok : Threads.Config Bool FdState Pc → Bool × Event → Bool)
    (p : List (Bool × Event) → Threads.Config Bool FdState Pc → Bool) : Bool :=
  (fdProgram.execIf isHarmless (fdStart Bool) readAndWait).any fun r =>
    decide ((r.2.locals true).waits = some (0, .pipeRead, 7)) &&
      (fdProgram.execIf ok r.2 schedule).any fun q => keepsCall q.1 && p q.1 q.2 &&
        (fdProgram.exec q.2 [(true, .step none)]).any fun w =>
          w.1.all fun e => decide (e.2.taken = some (7, [0, 1, 2]))

theorem readsAfter_run {schedule : List (Bool × Choice)}
    {ok : Threads.Config Bool FdState Pc → Bool × Event → Bool}
    {p : List (Bool × Event) → Threads.Config Bool FdState Pc → Bool}
    (h : readsAfter schedule ok p = true) :
    ∃ trace later, ∃ c c' d : Threads.Config Bool FdState Pc,
      Run (Steady Bool) (fdStart Bool) trace c ∧
      (c.locals true).waits = some (0, .pipeRead, 7) ∧
      Run (fun c label d => Step fdProgram c label d ∧ ok c label = true) c later c' ∧
      (∀ e ∈ later, e.1 = true → ∀ call, e.2 ≠ .called call) ∧ p later c' = true ∧
      Step fdProgram c' (true, .section (.dequeued 7 [0, 1, 2])) d := by
  obtain ⟨⟨trace, c⟩, hfirst, hrest⟩ := (Option.any_eq_true _ _).1 h
  obtain ⟨hwaits, hrest⟩ := Bool.and_eq_true_iff.1 hrest
  obtain ⟨⟨later, c'⟩, hlater, hrest⟩ := (Option.any_eq_true _ _).1 hrest
  obtain ⟨hrest, hlast⟩ := Bool.and_eq_true_iff.1 hrest
  obtain ⟨hkeeps, hp⟩ := Bool.and_eq_true_iff.1 hrest
  obtain ⟨e, d, hstep, htaken⟩ := Program.exec_one hlast
  have htaken : e.taken = some (7, [0, 1, 2]) := by simpa using htaken
  rw [taken_eq htaken] at hstep
  exact ⟨trace, later, c, c', d,
    (Program.exec_if_run hfirst).mono fun _ _ _ h => ⟨h.1, not_refills h.2 _⟩,
    of_decide_eq_true hwaits, Program.exec_if_run hlater, keepsCall_iff hkeeps, hp, hstep⟩

/-- Steps of whole sections come about in steps that are calm, with any condition that they meet. -/
theorem reads_realized {Q : Threads.Config Bool FdState Pc → Bool × Event → Prop}
    {trace later : List (Bool × Event)} {v v' w : Threads.Config Bool FdState Pc} {io : Io}
    (hrun : Run (fun c label d => Step fdProgram c label d ∧ Q c label) (fdStart Bool) trace v)
    (hlater : Run (fun c label d => Step fdProgram c label d ∧ Q c label) v later v')
    (hcall : ∀ e ∈ later, e.1 = true → ∀ call, e.2 ≠ .called call)
    (hstep : Step fdProgram v' (true, .section io) w) (hQ : Q v' (true, .section io)) :
    ∃ trace' later', ∃ c c' d : LockedFds Bool, Run (CalmStep fdCalls Q)
      (lockedStart Bool) trace' c ∧
      view c = v ∧ Run (CalmStep fdCalls Q) c later' c' ∧ (∀ e, e ∈ shown later' ↔ e ∈ later) ∧
      (∀ e ∈ later', e.1 = true → ∀ call, e.2 ≠ .shows (.called call)) ∧
      CalmStep fdCalls Q c' (true, .shows (.section io)) d := by
  obtain ⟨trace', c, hcalm, -, rfl, hquiet⟩ :=
    realized fd_serves fd_completes quiet_lockedStart hrun
  obtain ⟨later', c', hcalm', rfl, rfl, hquiet'⟩ := realized fd_serves fd_completes hquiet hlater
  obtain ⟨more, c'', d, hinner, hshows, -, -⟩ := realized_step fd_completes hquiet' hstep
  obtain ⟨-, hshown, hview⟩ := inner_run fd_serves hquiet'.exclusive hinner
  have hmore : Run (CalmStep fdCalls Q) c' more c'' := hinner.mono fun _ _ _ h =>
    ⟨h.1, h.2.1, fun e he => absurd he (h.2.2 e)⟩
  have hsame : shown (later' ++ more) = shown later' := by
    rw [shown_append, hshown, List.append_nil]
  refine ⟨trace', later' ++ more, c, c'', d, hcalm, rfl, hcalm'.append hmore,
    fun e => by rw [hsame],
    ?_, hshows, nofun, fun e he => ?_⟩
  · rintro ⟨u, a⟩ he rfl call rfl
    refine hcall (true, .called call) ?_ rfl call rfl
    rw [← hsame]
    exact mem_shown.2 he
  · cases he
    rw [hview]
    exact hQ

theorem waits_on_own_pipe_example : ∃ trace later, ∃ c c' d : LockedFds Bool,
    Run CalmSteady (lockedStart Bool) trace c ∧ Run CalmSteady c later c' ∧
    CalmSteady c' (true, .shows (.section (.dequeued 7 [0, 1, 2]))) d ∧
    ∀ e ∈ later, e.2 ≠ .shows (.section (.created 7)) := by
  have hreads : readsAfter writeThree isHarmless
      (fun _ c => isHarmless c (true, .returned (.value 0))) = true := by
    decide
  obtain ⟨trace, later, v, v', w, hrun, hwaits, hlater, hkeeps, hharmless, hstep⟩ :=
    readsAfter_run hreads
  have hlater : Run (Steady Bool) v later v' :=
    hlater.mono fun _ _ _ h => ⟨h.1, not_refills h.2 _⟩
  obtain ⟨trace', later', c, c', d, hcalm, rfl, hcalm', -, hkeeps', hlast⟩ :=
    reads_realized hrun hlater hkeeps hstep (not_refills hharmless _)
  exact ⟨trace', later', c, c', d, hcalm, hcalm', hlast,
    ((waits_on_own_pipe hcalm hwaits hcalm' hkeeps' hlast).1 7 rfl).2⟩

/-- The waiting thread reads bytes that were written to a pipe that was created while it waited. -/
theorem waits_on_later_pipe : ∃ trace later, ∃ c c' d : LockedFds Bool,
    Run CalmFd (lockedStart Bool) trace c ∧
    ((view c).locals true).waits = some (0, .pipeRead, 7) ∧ Run CalmFd c later c' ∧
    (∀ e ∈ later, e.1 = true → ∀ call, e.2 ≠ .shows (.called call)) ∧
    (∃ e ∈ later, e.2 = .shows (.section (.created 7))) ∧
    CalmFd c' (true, .shows (.section (.dequeued 7 [0, 1, 2]))) d := by
  have hreads : readsAfter (closeAndReopen ++ writeThree) (fun _ _ => true)
      (fun trace _ => trace.any fun e => e.2.creates 7) = true := by
    decide
  obtain ⟨trace, later, v, v', w, hrun, hwaits, hlater, hkeeps, hcreates, hstep⟩ :=
    readsAfter_run hreads
  obtain ⟨trace', later', c, c', d, hcalm, rfl, hcalm', hseen, hkeeps', hlast⟩ :=
    reads_realized (hrun.mono fun _ _ _ h => ⟨h.1, trivial⟩)
      (hlater.mono fun _ _ _ h => ⟨h.1, trivial⟩) hkeeps hstep trivial
  refine ⟨trace', later', c, c', d, hcalm, hwaits, hcalm', hkeeps', ?_, hlast⟩
  obtain ⟨⟨t, e⟩, he, hcreate⟩ := List.any_eq_true.1 hcreates
  refine ⟨_, mem_shown.1 ((hseen _).2 he), ?_⟩
  cases e with
  | called => cases hcreate
  | returned => cases hcreate
  | «section» io =>
      cases io with
      | created q => rw [of_decide_eq_true hcreate]
      | _ => cases hcreate

end Asnx.FakeFd
