import Asnx.Audio.OutputThread

/-!
# One output thread per stream

At most one output thread of a stream exists, whatever the order of the steps of the controlling
thread and the output threads: a new one is created only where none exists, and `thread_exited` is
set only by a thread that has nothing left to do but to end. Once a stop or a close has returned
there is none until the next is created.

A stop that succeeds leaves the state `STOPPED` when an output thread has been created since the
last creation that failed, and `OPEN` otherwise: then there is nothing to stop.
-/

namespace Asnx.Audio.Output

open Threads

variable {I : Type*} [DecidableEq I]

/-! ## What a run has done -/

/-- An output thread is created. -/
def Event.creates : Event I → Prop
  | .created _ => True
  | _ => False

/-- A creation fails. -/
def Event.fails : Event I → Prop
  | .notCreated => True
  | _ => False

/-- A call returns. -/
def Event.returns : Event I → Prop
  | .returned _ _ => True
  | _ => False

/-- A stop or a close returns. -/
def Event.halts : Event I → Prop
  | .returned .requestStop _ => True
  | .returned .close _ => True
  | _ => False

/-- An output thread has been created, and no creation has failed since. -/
def Started (trace : List (Actor I × Event I)) : Prop :=
  Since (fun e => e.2.creates) (fun e => e.2.fails) trace

/-- The last call has created an output thread. -/
def Created (trace : List (Actor I × Event I)) : Prop :=
  Since (fun e => e.2.creates) (fun e => e.2.returns) trace

/-- A stop or a close has returned, and no output thread has been created since. -/
def Halted (trace : List (Actor I × Event I)) : Prop :=
  Since (fun e => e.2.halts) (fun e => e.2.creates) trace

omit [DecidableEq I] in
theorem Event.halts.returned {e : Event I} (h : e.halts) :
    ∃ op r, e = .returned op r ∧ op ≠ .requestStart := by
  cases e with
  | returned op r =>
      refine ⟨op, r, rfl, fun hop => ?_⟩
      subst hop
      exact h
  | _ => exact h.elim

/-! ## The invariant -/

/-- No output thread exists, and none is recorded. -/
structure Bare (s : Stream I) : Prop where
  alive : ∀ i, s.alive i = false
  threadStarted : s.threadStarted = false
  pthreadId : s.pthreadId = none

/-- No output thread exists, and the next may be created. -/
structure Settled (started : Prop) (s : Stream I) : Prop extends Bare s where
  magic : s.magic = true
  stopped : started → s.state = .stopped
  opened : ¬ started → s.state = .opened

/-- Of the output threads only `i` may exist. While it does it has not set `thread_exited`, unless
it is about to end, and `STOPPED` is the last state that it sets. -/
structure Worker (s : Stream I) (outs : I → OutPc) (i : I) : Prop where
  only : ∀ j, s.alive j = true → j = i
  leaving : s.alive i = true → outs i = .setExited → s.state = .stopped
  exited : s.threadExited = true → s.state = .stopped ∧ (s.alive i = true → outs i = .ending)

/-- The output thread `i` is recorded. -/
structure Running (s : Stream I) (outs : I → OutPc) (i : I) : Prop extends Worker s outs i where
  magic : s.magic = true
  threadStarted : s.threadStarted = true
  pthreadId : s.pthreadId = some i

/-- The output thread `i` is being stopped. -/
structure Stopping (s : Stream I) (i : I) : Prop where
  only : ∀ j, s.alive j = true → j = i
  magic : s.magic = true
  pthreadId : s.pthreadId = some i

/-- The stream is at rest, or its output thread is recorded. -/
def Usable (started : Prop) (s : Stream I) (outs : I → OutPc) : Prop :=
  Settled started s ∨ ∃ i, started ∧ Running s outs i

/-- The stream has been closed. -/
def Freed (s : Stream I) : Prop := Bare s ∧ s.magic = false

/-- What holds at a place of the controlling thread. -/
def Stage (started : Prop) (s : Stream I) (outs : I → OutPc) : CtlPc I → Prop
  | .idle | .valid _ => Usable started s outs ∨ Freed s
  | .startStarted | .startCheck | .stopStarted _ | .closeStarted => Usable started s outs
  | .stopValid => Usable started s outs
  | .startExited => ∃ i, started ∧ Running s outs i
  | .reapJoin => ∃ i, started ∧ Running s outs i ∧ s.threadExited = true
  | .reapId => started ∧ s.magic = true ∧ s.state = .stopped ∧ ∀ i, s.alive i = false
  | .reapStarted =>
      started ∧ s.magic = true ∧ s.state = .stopped ∧ (∀ i, s.alive i = false) ∧ s.pthreadId = none
  | .reapExited | .startOpen | .startStopped | .startStop | .startClear => Settled started s
  | .stopOpen _ | .stopStopped _ => Settled started s
  | .startState => Settled started s ∧ s.threadExited = false
  | .startAudout | .startDevice | .create => Bare s ∧ s.magic = true ∧ s.threadExited = false
  | .startFailed => ¬ started ∧ Bare s ∧ s.magic = true
  | .startId i => started ∧ Worker s outs i ∧ s.magic = true
  | .startFlag => ∃ i, started ∧ Worker s outs i ∧ s.magic = true ∧ s.pthreadId = some i
  | .stopState _ | .stopFlag _ | .stopJoin _ => ∃ i, started ∧ Stopping s i
  | .stopId _ => started ∧ s.magic = true ∧ ∀ i, s.alive i = false
  | .stopClear _ => started ∧ s.magic = true ∧ (∀ i, s.alive i = false) ∧ s.pthreadId = none
  | .stopExited _ | .stopDone _ => started ∧ s.magic = true ∧ Bare s
  | .closing | .closeMagic => Bare s
  | .closed => Freed s
  | .ret op r =>
      (Usable started s outs ∨ Freed s) ∧ (op ≠ .requestStart → Bare s) ∧
        (op = .requestStop → r = .ok → Settled started s)

/-- The controlling thread has created an output thread in the call in which it is. -/
def CtlPc.created : CtlPc I → Prop
  | .startId _ => True
  | .startFlag => True
  | .ret .requestStart .ok => True
  | _ => False

/-- The invariant of the threads of a stream, for the places where they are. -/
structure Inv (trace : List (Actor I × Event I)) (c : Config (Actor I) (Stream I) (Local I))
    (pc : CtlPc I) (outs : I → OutPc) : Prop where
  controller : c.locals .controller = .ctl pc
  output : ∀ i, c.locals (.output i) = .out i (outs i)
  /-- A thread that does not exist is at its beginning. -/
  dormant : ∀ i, c.shared.alive i = false → outs i = .entry
  stage : Stage (Started trace) c.shared outs pc
  created : Created trace ↔ pc.created
  halted : Halted trace → ∀ i, c.shared.alive i = false

/-! ## A step of an output thread -/

section OutputStep

variable {x : Choice I} {s s' : Stream I} {outs : I → OutPc} {i j : I} {e : Event I}
  {pc pc' : OutPc} {started : Prop}

/-- The place is before `STOPPED` is set, or at it. -/
def OutPc.busy (pc : OutPc) : Prop := pc ≠ .setExited ∧ pc ≠ .ending

/-- What a step of the output thread `j` does to what both sides use. -/
inductive OutMove (s : Stream I) (j : I) : OutPc → Event I → Stream I → OutPc → Prop where
  | busy {pc : OutPc} {e : Event I} {s' : Stream I} {pc' : OutPc} : pc.busy → pc'.busy →
      (e = .inner ∨ e = .callback) → s'.magic = s.magic → s'.threadStarted = s.threadStarted →
      s'.pthreadId = s.pthreadId → s'.alive = s.alive →
      (s'.threadExited = true → s.threadExited = true) → OutMove s j pc e s' pc'
  | stopped : OutMove s j .setStopped .inner { s with state := .stopped } .setExited
  | exited : OutMove s j .setExited .inner { s with threadExited := true } .ending
  | ended : OutMove s j .ending .inner { s with alive := Function.update s.alive j false } .entry

theorem Prime.ended_busy (p : Prime) : p.ended.busy := by
  cases p <;> exact ⟨nofun, nofun⟩

theorem Fill.stopped_busy (f : Fill) : f.stopped.busy := by
  cases f with
  | prime p => exact p.ended_busy
  | drain => exact ⟨nofun, nofun⟩

theorem Fill.failed_busy (f : Fill) : f.failed.busy := by
  cases f <;> exact ⟨nofun, nofun⟩

theorem Fill.appended_busy (f : Fill) : f.appended.busy := by
  cases f <;> simp only [appended] <;> split <;> exact ⟨nofun, nofun⟩

/-- A choice between two places is before `STOPPED` is set when both are. -/
theorem OutPc.busy_ite {b : Bool} {pc pc' : OutPc} (h : pc.busy) (h' : pc'.busy) :
    (if b then pc else pc').busy := by
  cases b
  · exact h'
  · exact h

theorem output_move (x : Choice I) (s : Stream I) (j : I) (pc : OutPc) :
    OutMove s j pc (outputStep x s j pc).1 (outputStep x s j pc).2.1 (outputStep x s j pc).2.2 := by
  cases pc with
  | setStopped => exact .stopped
  | setExited => exact .exited
  | ending => exact .ended
  | entry =>
      exact .busy ⟨nofun, nofun⟩ ⟨nofun, nofun⟩ (.inl rfl) rfl rfl rfl rfl (by simp [outputStep])
  | callback f =>
      exact .busy ⟨nofun, nofun⟩ (OutPc.busy_ite f.stopped_busy ⟨nofun, nofun⟩) (.inr rfl)
        rfl rfl rfl rfl id
  | append f =>
      exact .busy ⟨nofun, nofun⟩ (OutPc.busy_ite f.failed_busy f.appended_busy) (.inl rfl)
        rfl rfl rfl rfl id
  | disconnected p =>
      exact .busy ⟨nofun, nofun⟩ p.ended_busy (.inl rfl) rfl rfl rfl rfl id
  | wait =>
      exact .busy ⟨nofun, nofun⟩
        (OutPc.busy_ite ⟨nofun, nofun⟩ (OutPc.busy_ite ⟨nofun, nofun⟩ ⟨nofun, nofun⟩)) (.inl rfl)
        rfl rfl rfl rfl id
  | startAudioOut | loop | waitFailed | query | drain | getReleased | leave =>
      exact .busy ⟨nofun, nofun⟩ (OutPc.busy_ite ⟨nofun, nofun⟩ ⟨nofun, nofun⟩) (.inl rfl)
        rfl rfl rfl rfl id
  | setStarted | setAudout | recover | setStop | leaveAudout =>
      exact .busy ⟨nofun, nofun⟩ ⟨nofun, nofun⟩ (.inl rfl) rfl rfl rfl rfl id

/-- A step of an output thread leaves what is recorded of the threads. -/
theorem OutMove.frame (h : OutMove s j pc e s' pc') :
    s'.magic = s.magic ∧ s'.threadStarted = s.threadStarted ∧ s'.pthreadId = s.pthreadId := by
  cases h with
  | busy _ _ _ hmagic hstarted hid => exact ⟨hmagic, hstarted, hid⟩
  | stopped | exited | ended => exact ⟨rfl, rfl, rfl⟩

/-- No step of an output thread creates one. -/
theorem OutMove.alive (h : OutMove s j pc e s' pc') {k : I} (hk : s'.alive k = true) :
    s.alive k = true := by
  cases h with
  | busy _ _ _ _ _ _ halive => rwa [halive] at hk
  | stopped | exited => exact hk
  | ended =>
      by_cases hkj : k = j
      · simp [hkj] at hk
      · simpa [Function.update_of_ne hkj] using hk

/-- An output thread is seen to call the data callback and nothing else. -/
theorem OutMove.event (h : OutMove s j pc e s' pc') :
    ¬ e.creates ∧ ¬ e.fails ∧ ¬ e.returns ∧ ¬ e.halts := by
  cases h with
  | busy _ _ hevent =>
      rcases hevent with rfl | rfl
      · exact ⟨id, id, id, id⟩
      · exact ⟨id, id, id, id⟩
  | stopped | exited | ended => exact ⟨id, id, id, id⟩

/-- A thread that no longer exists is at its beginning. -/
theorem OutMove.dormant (h : OutMove s j pc e s' pc')
    (hdormant : ∀ k, s.alive k = false → outs k = .entry)
    (halive : s.alive j = true) {k : I} (hk : s'.alive k = false) :
    Function.update outs j pc' k = .entry := by
  by_cases hkj : k = j
  · subst hkj
    rw [Function.update_self]
    cases h with
    | busy _ _ _ _ _ _ hsame => rw [hsame, halive] at hk; cases hk
    | stopped | exited => rw [show s.alive k = false from hk] at halive; cases halive
    | ended => rfl
  · rw [Function.update_of_ne hkj]
    refine hdormant k ?_
    cases h with
    | busy _ _ _ _ _ _ hsame => rwa [hsame] at hk
    | stopped | exited => exact hk
    | ended => simpa [Function.update_of_ne hkj] using hk

/-- The one output thread keeps what is known of it. -/
theorem Worker.move (h : Worker s outs i) (halive : s.alive i = true)
    (hmove : OutMove s i (outs i) e s' pc') : Worker s' (Function.update outs i pc') i := by
  refine ⟨fun k hk => h.only k (hmove.alive hk), fun _ hpc => ?_, fun hexited => ?_⟩
  · rw [Function.update_self] at hpc
    subst hpc
    generalize hat : outs i = at' at hmove
    cases hmove with
    | busy _ hbusy => exact absurd rfl hbusy.1
    | stopped => rfl
  · rw [Function.update_self]
    generalize hat : outs i = at' at hmove
    cases hmove with
    | busy hbusy _ _ _ _ _ _ hkept =>
        exact absurd (hat ▸ (h.exited (hkept hexited)).2 halive) hbusy.2
    | stopped =>
        have hend : outs i = .ending := (h.exited hexited).2 halive
        rw [hat] at hend
        cases hend
    | exited => exact ⟨h.leaving halive hat, fun _ => rfl⟩
    | ended => exact ⟨(h.exited hexited).1, fun hgone => by simp at hgone⟩

/-- Once `thread_exited` is set the one output thread leaves it so. -/
theorem Worker.move_exited (h : Worker s outs i) (halive : s.alive i = true)
    (hmove : OutMove s i (outs i) e s' pc') (hexited : s.threadExited = true) :
    s'.threadExited = true := by
  rw [(h.exited hexited).2 halive] at hmove
  cases hmove with
  | busy hbusy => exact absurd rfl hbusy.2
  | ended => exact hexited

theorem Running.move (h : Running s outs i) (halive : s.alive i = true)
    (hmove : OutMove s i (outs i) e s' pc') : Running s' (Function.update outs i pc') i := by
  obtain ⟨hmagic, hstarted, hid⟩ := hmove.frame
  exact ⟨h.toWorker.move halive hmove, hmagic.trans h.magic, hstarted.trans h.threadStarted,
    hid.trans h.pthreadId⟩

theorem Stopping.move (h : Stopping s i) (hmove : OutMove s j pc e s' pc') : Stopping s' i := by
  obtain ⟨hmagic, -, hid⟩ := hmove.frame
  exact ⟨fun k hk => h.only k (hmove.alive hk), hmagic.trans h.magic, hid.trans h.pthreadId⟩

omit [DecidableEq I] in
/-- Where no output thread exists none steps. -/
theorem Bare.not_alive (h : Bare s) (halive : s.alive j = true) : False := by
  rw [h.alive j] at halive
  cases halive

theorem Usable.move (h : Usable started s outs) (halive : s.alive j = true)
    (hmove : OutMove s j (outs j) e s' pc') : Usable started s' (Function.update outs j pc') := by
  rcases h with hsettled | ⟨i, hstarted, hrunning⟩
  · exact (hsettled.toBare.not_alive halive).elim
  · obtain rfl := hrunning.only j halive
    exact .inr ⟨j, hstarted, hrunning.move halive hmove⟩

/-- A step of an output thread keeps what holds at the place of the controlling thread. -/
theorem Stage.move {at' : CtlPc I} (h : Stage started s outs at') (halive : s.alive j = true)
    (hmove : OutMove s j (outs j) e s' pc') :
    Stage started s' (Function.update outs j pc') at' := by
  cases at' with
  | idle | valid =>
      rcases h with h | h
      · exact .inl (h.move halive hmove)
      · exact (h.1.not_alive halive).elim
  | startStarted | startCheck | stopStarted | closeStarted | stopValid =>
      exact Usable.move h halive hmove
  -- the thread that steps is the one alive
  | startExited =>
      obtain ⟨i, hstarted, hrunning⟩ := h
      obtain rfl := hrunning.only j halive
      exact ⟨j, hstarted, hrunning.move halive hmove⟩
  | reapJoin =>
      obtain ⟨i, hstarted, hrunning, hexited⟩ := h
      obtain rfl := hrunning.only j halive
      exact ⟨j, hstarted, hrunning.move halive hmove,
        hrunning.toWorker.move_exited halive hmove hexited⟩
  -- behind a join no thread is alive
  | reapId => exact absurd halive (by simp [h.2.2.2 j])
  | reapStarted => exact absurd halive (by simp [h.2.2.2.1 j])
  | reapExited | startOpen | startStopped | startStop | startClear | stopOpen | stopStopped =>
      exact (Settled.toBare h).not_alive halive |>.elim
  | startState => exact (h.1.toBare.not_alive halive).elim
  | startAudout | startDevice | create => exact (h.1.not_alive halive).elim
  | startFailed => exact (h.2.1.not_alive halive).elim
  | startId i =>
      obtain ⟨hstarted, hworker, hmagic⟩ := h
      obtain rfl := hworker.only j halive
      exact ⟨hstarted, hworker.move halive hmove, hmove.frame.1.trans hmagic⟩
  | startFlag =>
      obtain ⟨i, hstarted, hworker, hmagic, hid⟩ := h
      obtain rfl := hworker.only j halive
      exact ⟨j, hstarted, hworker.move halive hmove, hmove.frame.1.trans hmagic,
        hmove.frame.2.2.trans hid⟩
  | stopState | stopFlag | stopJoin =>
      obtain ⟨i, hstarted, hstopping⟩ := h
      exact ⟨i, hstarted, hstopping.move hmove⟩
  | stopId => exact absurd halive (by simp [h.2.2 j])
  | stopClear => exact absurd halive (by simp [h.2.2.1 j])
  | stopExited | stopDone => exact (h.2.2.not_alive halive).elim
  | closing | closeMagic => exact (Bare.not_alive h halive).elim
  | closed => exact (h.1.not_alive halive).elim
  | ret op r =>
      obtain ⟨huse, hbare, hsettled⟩ := h
      refine ⟨?_, fun hop => ((hbare hop).not_alive halive).elim,
        fun hop hr => ((hsettled hop hr).toBare.not_alive halive).elim⟩
      rcases huse with huse | hfreed
      · exact .inl (huse.move halive hmove)
      · exact (hfreed.1.not_alive halive).elim

end OutputStep

/-! ## A step of the controlling thread -/

section ControllerStep

variable {x : Choice I} {s s' : Stream I} {outs : I → OutPc} {pc pc' : CtlPc I} {e : Event I}
  {l : Local I} {started : Prop}

/-- An output thread has been created, and no creation has failed since, after the event `e`. -/
def Event.startedAfter (e : Event I) (started : Prop) : Prop := e.creates ∨ started ∧ ¬ e.fails

omit [DecidableEq I] in
@[simp] theorem Event.inner_started : (Event.inner : Event I).startedAfter started ↔ started := by
  simp [Event.startedAfter, creates, fails]

omit [DecidableEq I] in
@[simp] theorem Event.returned_started {op : Op} {r : Result} :
    (Event.returned op r : Event I).startedAfter started ↔ started := by
  simp [Event.startedAfter, creates, fails]

/-- The threads of a stream that has just been created. -/
theorem Bare.worker (h : Bare s) (hexited : s.threadExited = false)
    (hdormant : ∀ k, s.alive k = false → outs k = .entry) (i : I) :
    Worker { s with alive := Function.update s.alive i true } outs i := by
  refine ⟨fun k hk => ?_, fun _ hpc => ?_, fun hset => ?_⟩
  · by_contra hki
    have hgone : s.alive k = true := by simpa [Function.update_of_ne hki] using hk
    exact h.not_alive hgone
  · rw [hdormant i (h.alive i)] at hpc
    cases hpc
  · exact absurd (show s.threadExited = true from hset) (by simp [hexited])

omit [DecidableEq I] in
/-- Where a stop returns to. -/
theorem Settled.back (h : Settled started s) (c : Caller) (r : Result) :
    Stage started s outs (c.back r) := by
  cases c with
  | guest => exact ⟨.inl (.inl h), fun _ => h.toBare, fun _ _ => h⟩
  | close => exact h.toBare

omit [DecidableEq I] in
/-- A thread that has been joined does not exist. -/
theorem join_alive {i : I} (hid : s.pthreadId = some i) (honly : ∀ k, s.alive k = true → k = i)
    (hnext : joinStep s pc = some (e, s', l)) :
    e = .inner ∧ s' = s ∧ l = .ctl pc ∧ ∀ k, s.alive k = false := by
  simp only [joinStep, hid] at hnext
  split at hnext
  · cases hnext
  · rename_i hgone
    cases hnext
    refine ⟨rfl, rfl, rfl, fun k => ?_⟩
    by_contra hk
    have halive : s.alive k = true := by simpa using hk
    exact hgone (honly k halive ▸ halive)

omit [DecidableEq I] in
/-- What holds after a step that is not seen. -/
theorem step_stage {s₁ : Stream I} (hnext : step s₁ pc = some (e, s', l))
    (h : Stage started s₁ outs pc) :
    ∃ pc', l = .ctl pc' ∧ Stage (e.startedAfter started) s' outs pc' := by
  cases hnext
  refine ⟨pc, rfl, ?_⟩
  rwa [Event.inner_started]

omit [DecidableEq I] in
/-- What holds after one of two steps that are not seen. -/
theorem ite_stage {s₁ : Stream I} {b : Prop} [Decidable b]
    (hnext : step s₁ (if b then pc else pc') = some (e, s', l))
    (h : b → Stage started s₁ outs pc) (h' : ¬ b → Stage started s₁ outs pc') :
    ∃ pc', l = .ctl pc' ∧ Stage (e.startedAfter started) s' outs pc' := by
  refine step_stage hnext ?_
  split
  · rename_i hb
    exact h hb
  · rename_i hb
    exact h' hb

/-- After `bionic_pthread_create`. -/
theorem create_stage (hdormant : ∀ k, s.alive k = false → outs k = .entry) (h : Bare s)
    (hmagic : s.magic = true) (hexited : s.threadExited = false)
    (hnext : createStep x s = some (e, s', l)) :
    ∃ pc', l = .ctl pc' ∧ Stage (e.startedAfter started) s' outs pc' := by
  simp only [createStep] at hnext
  split at hnext
  · cases hnext
    refine ⟨_, rfl, ?_, h, hmagic⟩
    simp [Event.startedAfter, Event.creates, Event.fails]
  · rename_i i _
    split at hnext
    · cases hnext
    · cases hnext
      exact ⟨_, rfl, .inl trivial, h.worker hexited hdormant i, hmagic⟩

/-- A step of the controlling thread leads to a place where what holds there does hold. -/
theorem controller_stage (hdormant : ∀ k, s.alive k = false → outs k = .entry)
    (h : Stage started s outs pc) (hnext : controllerNext x s pc = some (e, s', l)) :
    ∃ pc', l = .ctl pc' ∧ Stage (e.startedAfter started) s' outs pc' := by
  cases pc with
  | idle => exact step_stage hnext h
  | valid op =>
      -- a magic that is missing means that the stream has been freed
      refine ite_stage hnext (fun hmagic => ?_) (fun hmagic => ?_)
      · have huse : Usable started s outs := by
          rcases h with h | h
          · exact h
          · exact absurd hmagic (by simp [h.2])
        cases op <;> exact huse
      · have hfreed : Freed s := by
          rcases h with (h | ⟨i, -, h⟩) | h
          · exact absurd h.magic hmagic
          · exact absurd h.magic hmagic
          · exact h
        exact ⟨.inr hfreed, fun _ => hfreed.1, nofun⟩
  | startStarted =>
      refine ite_stage hnext (fun hset => ?_) (fun _ => h)
      rcases h with h | h
      · exact absurd hset (by simp [h.threadStarted])
      · exact h
  | startExited =>
      -- the flag of the exit is set by the worker; it may be looked at too early
      obtain ⟨i, hstarted, hrunning⟩ := h
      exact ite_stage hnext (fun hset => ⟨i, hstarted, hrunning, hset⟩)
        fun _ => .inr ⟨i, hstarted, hrunning⟩
  | reapJoin =>
      obtain ⟨i, hstarted, hrunning, hexited⟩ := h
      -- the join waits for the one thread alive, and no thread is left
      obtain ⟨rfl, rfl, rfl, hgone⟩ := join_alive hrunning.pthreadId hrunning.only hnext
      refine ⟨_, rfl, ?_⟩
      rw [Event.inner_started]
      exact ⟨hstarted, hrunning.magic, (hrunning.exited hexited).1, hgone⟩
  | reapId =>
      obtain ⟨hstarted, hmagic, hstate, hgone⟩ := h
      exact step_stage hnext ⟨hstarted, hmagic, hstate, hgone, rfl⟩
  | reapStarted =>
      obtain ⟨hstarted, hmagic, hstate, hgone, hid⟩ := h
      exact step_stage hnext
        ⟨⟨hgone, rfl, hid⟩, hmagic, fun _ => hstate, fun hnot => absurd hstarted hnot⟩
  | reapExited =>
      exact step_stage hnext (.inl ⟨⟨h.alive, h.threadStarted, h.pthreadId⟩, h.magic,
        h.stopped, h.opened⟩)
  | startCheck =>
      refine ite_stage hnext (fun _ => ⟨.inl h, fun hop => absurd rfl hop, nofun⟩) (fun hset => ?_)
      rcases h with h | ⟨i, -, h⟩
      · exact h
      · exact absurd h.threadStarted hset
  | startOpen => exact ite_stage hnext (fun _ => h) (fun _ => h)
  | startStopped =>
      exact ite_stage hnext (fun _ => h) fun _ => ⟨.inl (.inl h), fun hop => absurd rfl hop, nofun⟩
  | startStop =>
      exact step_stage hnext ⟨⟨h.alive, h.threadStarted, h.pthreadId⟩, h.magic, h.stopped, h.opened⟩
  | startClear =>
      exact step_stage hnext
        ⟨⟨⟨h.alive, h.threadStarted, h.pthreadId⟩, h.magic, h.stopped, h.opened⟩, rfl⟩
  | startState =>
      obtain ⟨hsettled, hexited⟩ := h
      exact step_stage hnext
        ⟨⟨hsettled.alive, hsettled.threadStarted, hsettled.pthreadId⟩, hsettled.magic, hexited⟩
  | startAudout => exact ite_stage hnext (fun _ => h) (fun _ => h)
  | startDevice =>
      obtain ⟨hbare, hmagic, hexited⟩ := h
      exact step_stage hnext ⟨⟨hbare.alive, hbare.threadStarted, hbare.pthreadId⟩, hmagic, hexited⟩
  -- the only step that brings a thread to life; none is alive before it
  | create => exact create_stage hdormant h.1 h.2.1 h.2.2 hnext
  | startFailed =>
      obtain ⟨hnot, hbare, hmagic⟩ := h
      refine step_stage hnext ⟨.inl
        (.inl ⟨⟨hbare.alive, hbare.threadStarted, hbare.pthreadId⟩, hmagic,
        fun hstarted => absurd hstarted hnot, fun _ => rfl⟩), fun hop => absurd rfl hop, nofun⟩
  -- between the creation and the flag the thread is known by its number only
  | startId i =>
      obtain ⟨hstarted, hworker, hmagic⟩ := h
      exact step_stage hnext
        ⟨i, hstarted, ⟨hworker.only, hworker.leaving, hworker.exited⟩, hmagic, rfl⟩
  | startFlag =>
      obtain ⟨i, hstarted, hworker, hmagic, hid⟩ := h
      exact step_stage hnext
        ⟨.inl (.inr ⟨i, hstarted, ⟨hworker.only, hworker.leaving, hworker.exited⟩,
          hmagic, rfl, hid⟩),
          fun hop => absurd rfl hop, nofun⟩
  | stopValid =>
      refine ite_stage hnext (fun _ => h) (fun hmagic => ?_)
      rcases h with h | ⟨i, -, h⟩
      · exact absurd h.magic hmagic
      · exact absurd h.magic hmagic
  | stopStarted c =>
      refine ite_stage hnext (fun hset => ?_) (fun hset => ?_)
      · rcases h with h | ⟨i, hstarted, h⟩
        · exact absurd hset (by simp [h.threadStarted])
        · exact ⟨i, hstarted, h.only, h.magic, h.pthreadId⟩
      · rcases h with h | ⟨i, -, h⟩
        · exact h
        · exact absurd h.threadStarted hset
  | stopOpen c => exact ite_stage hnext (fun _ => Settled.back h c .ok) (fun _ => h)
  | stopStopped c =>
      exact ite_stage hnext (fun _ => Settled.back h c .ok) fun _ => Settled.back h c .invalidState
  | stopState | stopFlag =>
      obtain ⟨i, hstarted, hstopping⟩ := h
      exact step_stage hnext ⟨i, hstarted, hstopping.only, hstopping.magic, hstopping.pthreadId⟩
  | stopJoin c =>
      obtain ⟨i, hstarted, hstopping⟩ := h
      -- as in the reaping: behind the join no thread is left
      obtain ⟨rfl, rfl, rfl, hgone⟩ := join_alive hstopping.pthreadId hstopping.only hnext
      refine ⟨_, rfl, ?_⟩
      rw [Event.inner_started]
      exact ⟨hstarted, hstopping.magic, hgone⟩
  | stopId =>
      obtain ⟨hstarted, hmagic, hgone⟩ := h
      exact step_stage hnext ⟨hstarted, hmagic, hgone, rfl⟩
  | stopClear =>
      obtain ⟨hstarted, hmagic, hgone, hid⟩ := h
      exact step_stage hnext ⟨hstarted, hmagic, hgone, rfl, hid⟩
  | stopExited =>
      obtain ⟨hstarted, hmagic, hbare⟩ := h
      exact step_stage hnext ⟨hstarted, hmagic, hbare.alive, hbare.threadStarted, hbare.pthreadId⟩
  | stopDone c =>
      obtain ⟨hstarted, hmagic, hbare⟩ := h
      have hsettled : Settled started { s with state := .stopped } :=
        ⟨⟨hbare.alive, hbare.threadStarted, hbare.pthreadId⟩, hmagic, fun _ => rfl,
          fun hnot => absurd hstarted hnot⟩
      exact step_stage hnext (hsettled.back c .ok)
  | closeStarted =>
      refine ite_stage hnext (fun _ => h) (fun hset => ?_)
      rcases h with h | ⟨i, -, h⟩
      · exact h.toBare
      · exact absurd h.threadStarted hset
  | closing => exact step_stage hnext ⟨h.alive, h.threadStarted, h.pthreadId⟩
  | closeMagic => exact step_stage hnext ⟨⟨h.alive, h.threadStarted, h.pthreadId⟩, rfl⟩
  | closed =>
      obtain ⟨hbare, hmagic⟩ := h
      have hbare' : Bare { s with state := .closed } :=
        ⟨hbare.alive, hbare.threadStarted, hbare.pthreadId⟩
      exact step_stage hnext ⟨.inr ⟨hbare', hmagic⟩, fun _ => hbare', nofun⟩
  | ret op r =>
      cases hnext
      refine ⟨_, rfl, ?_⟩
      rw [Event.returned_started]
      exact h.1

omit [DecidableEq I] in
theorem Op.start_created (op : Op) : ¬ (op.start : CtlPc I).created := by
  cases op <;> exact id

omit [DecidableEq I] in
theorem Caller.back_created (c : Caller) (r : Result) : ¬ (c.back r : CtlPc I).created := by
  cases c <;> exact id

/-- The controlling thread has created an output thread in its call when it did so before or does so
now. -/
theorem controller_created (hnext : controllerNext x s pc = some (e, s', .ctl pc')) :
    pc'.created ↔ e.creates ∨ pc.created ∧ ¬ e.returns := by
  cases pc with
  | create =>
      simp only [controllerNext, createStep] at hnext
      split at hnext
      · cases hnext
        simp [Event.creates, CtlPc.created]
      · split at hnext
        · cases hnext
        · cases hnext
          simp [Event.creates, CtlPc.created]
  | reapJoin | stopJoin =>
      simp only [controllerNext, joinStep] at hnext
      split at hnext
      · cases hnext
        simp [Event.creates, CtlPc.created]
      · split at hnext
        · cases hnext
        · cases hnext
          simp [Event.creates, CtlPc.created]
  | valid op =>
      cases hnext
      refine iff_of_false ?_ (by simp [Event.creates, CtlPc.created])
      split
      · exact op.start_created
      · cases op <;> exact id
  | stopOpen c =>
      cases hnext
      refine iff_of_false ?_ (by simp [Event.creates, CtlPc.created])
      split
      · exact c.back_created .ok
      · exact id
  | stopStopped c =>
      cases hnext
      refine iff_of_false ?_ (by simp [Event.creates, CtlPc.created])
      split <;> exact c.back_created _
  | stopDone c =>
      cases hnext
      exact iff_of_false (c.back_created .ok) (by simp [Event.creates, CtlPc.created])
  | startStarted | startExited | startCheck | startOpen | startStopped | startAudout | stopValid
  | stopStarted | closeStarted =>
      cases hnext
      split <;> simp [Event.creates, CtlPc.created]
  | _ =>
      cases hnext
      simp [Event.creates, Event.returns, CtlPc.created]

/-- A step of the controlling thread makes a thread exist only by creating it, and ends none. -/
theorem controller_alive (hnext : controllerNext x s pc = some (e, s', l)) :
    (¬ e.creates → s'.alive = s.alive) ∧ ∀ k, s'.alive k = false → s.alive k = false := by
  cases pc with
  | create =>
      simp only [controllerNext, createStep] at hnext
      split at hnext
      · cases hnext
        exact ⟨fun _ => rfl, fun _ hk => hk⟩
      · split at hnext
        · cases hnext
        · rename_i i _ hgone
          cases hnext
          refine ⟨fun hnot => absurd trivial hnot, fun k hk => ?_⟩
          by_cases hki : k = i
          · rw [hki]
            simpa using hgone
          · simpa [Function.update_of_ne hki] using hk
  | reapJoin | stopJoin =>
      simp only [controllerNext, joinStep] at hnext
      split at hnext
      · cases hnext
        exact ⟨fun _ => rfl, fun _ hk => hk⟩
      · split at hnext
        · cases hnext
        · cases hnext
          exact ⟨fun _ => rfl, fun _ hk => hk⟩
  | _ =>
      cases hnext
      exact ⟨fun _ => rfl, fun _ hk => hk⟩

/-- A call returns where it has come to its end. -/
theorem controller_returned {op : Op} {r : Result}
    (hnext : controllerNext x s pc = some (.returned op r, s', l)) : pc = .ret op r ∧ s' = s := by
  cases pc with
  | ret =>
      cases hnext
      exact ⟨rfl, rfl⟩
  | create =>
      simp only [controllerNext, createStep] at hnext
      split at hnext
      · cases hnext
      · split at hnext <;> cases hnext
  | reapJoin | stopJoin =>
      simp only [controllerNext, joinStep] at hnext
      split at hnext
      · cases hnext
      · split at hnext <;> cases hnext
  | _ => cases hnext

/-- The controlling thread does not call the data callback. -/
theorem controller_not_callback : controllerNext x s pc ≠ some (.callback, s', l) := by
  intro hnext
  cases pc with
  | create =>
      simp only [controllerNext, createStep] at hnext
      split at hnext
      · cases hnext
      · split at hnext <;> cases hnext
  | reapJoin | stopJoin =>
      simp only [controllerNext, joinStep] at hnext
      split at hnext
      · cases hnext
      · split at hnext <;> cases hnext
  | _ => cases hnext

end ControllerStep

/-! ## Runs -/

section Runs

variable {trace : List (Actor I × Event I)} {c d : Config (Actor I) (Stream I) (Local I)}
  {pc : CtlPc I} {outs : I → OutPc}

omit [DecidableEq I] in
theorem Initial.inv (h : Initial c) : Inv [] c .idle fun _ => .entry := by
  refine ⟨h.controller, h.output, fun _ _ => rfl, ?_, ?_, fun hhalted => ?_⟩
  · rw [h.shared]
    exact .inl (.inl ⟨⟨fun _ => rfl, rfl, rfl⟩, rfl, fun hstarted => absurd hstarted not_since_nil,
      fun _ => rfl⟩)
  · exact iff_of_false not_since_nil id
  · exact absurd hhalted not_since_nil

/-- A step of the controlling thread keeps the invariant. -/
theorem Inv.controller_step {x : Choice I} {e : Event I} {s : Stream I} {l : Local I}
    (h : Inv trace c pc outs) (hnext : controllerNext x c.shared pc = some (e, s, l)) :
    ∃ pc', Inv (trace ++ [(.controller, e)]) (c.set .controller s l) pc' outs := by
  obtain ⟨pc', rfl, hstage⟩ := controller_stage h.dormant h.stage hnext
  obtain ⟨hsame, hgrows⟩ := controller_alive hnext
  refine ⟨pc', c.set_locals_self _ _ _, fun i => ?_, fun k hk =>
    h.dormant k (hgrows k hk), ?_, ?_, ?_⟩
  · rw [c.set_locals_other (t := .controller) (u := .output i) (by simp)]
    exact h.output i
  · show Stage (Started (trace ++ [(.controller, e)])) s outs pc'
    have hiff : Started (trace ++ [(.controller, e)]) = e.startedAfter (Started trace) :=
      propext since_snoc
    rwa [hiff]
  · show Since _ _ _ ↔ _
    rw [since_snoc, controller_created hnext]
    exact or_congr_right (and_congr_left' h.created)
  · show Since _ _ _ → ∀ i, s.alive i = false
    rw [since_snoc]
    intro hhalted
    rcases hhalted with hhalts | ⟨hhalted, hnot⟩
    · obtain ⟨op, r, rfl, hop⟩ := hhalts.returned
      obtain ⟨rfl, rfl⟩ := controller_returned hnext
      exact (h.stage.2.1 hop).alive
    · rw [hsame hnot]
      exact h.halted hhalted

/-- A step of an output thread keeps the invariant. -/
theorem Inv.output_step {x : Choice I} {e : Event I} {s : Stream I} {l : Local I} {i : I}
    (h : Inv trace c pc outs) (hnext : outputNext x c.shared i (outs i) = some (e, s, l)) :
    ∃ outs', Inv (trace ++ [(.output i, e)]) (c.set (.output i) s l) pc outs' := by
  simp only [outputNext] at hnext
  split at hnext
  · rename_i halive
    obtain ⟨rfl, rfl, rfl⟩ : _ ∧ _ ∧ _ := by simpa using hnext
    have hmove := output_move x c.shared i (outs i)
    obtain ⟨hcreates, hfails, hreturns, hhalts⟩ := hmove.event
    refine ⟨Function.update outs i (outputStep x c.shared i (outs i)).2.2, ?_, fun k => ?_,
      fun k => hmove.dormant h.dormant halive, ?_, ?_, ?_⟩
    · rw [c.set_locals_other (t := .output i) (u := .controller) (by simp)]
      exact h.controller
    · by_cases hki : k = i
      · subst hki
        rw [c.set_locals_self, Function.update_self]
      · rw [c.set_locals_other (t := .output i) (u := .output k) (by simpa using hki),
          Function.update_of_ne hki]
        exact h.output k
    · show Stage (Since _ _ _) _ _ pc
      simp only [since_snoc, hcreates, hfails, not_false_eq_true, and_true, false_or]
      exact h.stage.move halive hmove
    · show Since _ _ _ ↔ _
      simp only [since_snoc, hcreates, hreturns, not_false_eq_true, and_true, false_or]
      exact h.created
    · show Since _ _ _ → ∀ k, _
      simp only [since_snoc, hhalts, hcreates, not_false_eq_true, and_true, false_or]
      intro hhalted k
      by_contra hk
      have hbefore := hmove.alive (by simpa using hk)
      rw [h.halted hhalted k] at hbefore
      cases hbefore
  · cases hnext

/-- Every step keeps the invariant. -/
theorem Inv.step {t : Actor I} {e : Event I} (h : Inv trace c pc outs)
    (hstep : Step stream c (t, e) d) : ∃ pc' outs', Inv (trace ++ [(t, e)]) d pc' outs' := by
  cases hstep with
  | @mk _ x _ s l hnext =>
      cases t with
      | controller =>
          rw [h.controller] at hnext
          obtain ⟨pc', hinv⟩ := h.controller_step hnext
          exact ⟨pc', outs, hinv⟩
      | output i =>
          rw [h.output] at hnext
          obtain ⟨outs', hinv⟩ := h.output_step hnext
          exact ⟨pc, outs', hinv⟩

omit [DecidableEq I] in
theorem Bare.one {s : Stream I} (h : Bare s) (i j : I) (hi : s.alive i = true) : i = j :=
  (h.not_alive hi).elim

omit [DecidableEq I] in
theorem Worker.one {s : Stream I} {k : I} (h : Worker s outs k) (i j : I) (hi : s.alive i = true)
    (hj : s.alive j = true) : i = j :=
  (h.only i hi).trans (h.only j hj).symm

omit [DecidableEq I] in
theorem Usable.one {s : Stream I} {started : Prop} (h : Usable started s outs) (i j : I)
    (hi : s.alive i = true) (hj : s.alive j = true) : i = j := by
  rcases h with h | ⟨k, -, h⟩
  · exact h.toBare.one i j hi
  · exact h.toWorker.one i j hi hj

omit [DecidableEq I] in
/-- Wherever the controlling thread is, at most one output thread exists. -/
theorem Stage.one {s : Stream I} {started : Prop} (h : Stage started s outs pc) (i j : I)
    (hi : s.alive i = true) (hj : s.alive j = true) : i = j := by
  cases pc with
  | idle | valid =>
      rcases h with h | h
      · exact h.one i j hi hj
      · exact h.1.one i j hi
  | startStarted | startCheck | stopStarted | closeStarted | stopValid =>
      exact Usable.one h i j hi hj
  | startExited =>
      obtain ⟨k, -, h⟩ := h
      exact h.toWorker.one i j hi hj
  | reapJoin =>
      obtain ⟨k, -, h, -⟩ := h
      exact h.toWorker.one i j hi hj
  | reapId => exact absurd hi (by simp [h.2.2.2 i])
  | reapStarted => exact absurd hi (by simp [h.2.2.2.1 i])
  | reapExited | startOpen | startStopped | startStop | startClear | stopOpen | stopStopped =>
      exact (Settled.toBare h).one i j hi
  | startState => exact h.1.toBare.one i j hi
  | startAudout | startDevice | create => exact h.1.one i j hi
  | startFailed => exact h.2.1.one i j hi
  | startId k => exact h.2.1.one i j hi hj
  | startFlag =>
      obtain ⟨k, -, h, -⟩ := h
      exact h.one i j hi hj
  | stopState | stopFlag | stopJoin =>
      obtain ⟨k, -, h⟩ := h
      exact (h.only i hi).trans (h.only j hj).symm
  | stopId => exact absurd hi (by simp [h.2.2 i])
  | stopClear => exact absurd hi (by simp [h.2.2.1 i])
  | stopExited | stopDone => exact h.2.2.one i j hi
  | closing | closeMagic => exact Bare.one h i j hi
  | closed => exact h.1.one i j hi
  | ret =>
      rcases h.1 with h | h
      · exact h.one i j hi hj
      · exact h.1.one i j hi

/-- Only an output thread that exists calls the data callback. -/
theorem Inv.callback {t : Actor I} (h : Inv trace c pc outs)
    (hstep : Step stream c (t, .callback) d) :
    ¬ Halted trace := by
  intro hhalted
  cases hstep with
  | @mk _ x _ s l hnext =>
      cases t with
      | controller =>
          rw [h.controller] at hnext
          exact controller_not_callback hnext
      | output i =>
          rw [h.output] at hnext
          simp only [stream, streamNext, outputNext, h.halted hhalted i] at hnext
          cases hnext

/-- A call returns where the controlling thread has come to its end. -/
theorem Inv.returned {t : Actor I} {op : Op} {r : Result} (h : Inv trace c pc outs)
    (hstep : Step stream c (t, .returned op r) d) : pc = .ret op r ∧ d.shared = c.shared := by
  cases hstep with
  | @mk _ x _ s l hnext =>
      cases t with
      | controller =>
          rw [h.controller] at hnext
          exact controller_returned hnext
      | output i =>
          rw [h.output] at hnext
          simp only [stream, streamNext, outputNext] at hnext
          split at hnext
          · obtain ⟨hevent, -⟩ : _ ∧ _ := by simpa using hnext
            have hquiet := (output_move x c.shared i (outs i)).event.2.2.1
            rw [hevent] at hquiet
            exact (hquiet trivial).elim
          · cases hnext

/-- What holds of the output threads of a stream after a run. -/
structure OneThread (trace : List (Actor I × Event I)) (d : Config (Actor I) (Stream I) (Local I)) :
    Prop where
  /-- At most one exists. -/
  one : ∀ i j, d.shared.alive i = true → d.shared.alive j = true → i = j
  /-- None does from the return of a stop or a close until one is created. -/
  gone : Halted trace → ∀ i, d.shared.alive i = false
  /-- The data callback is not called there. -/
  silent : Always (fun before e => e.2 = .callback → ¬ Halted before) trace
  /-- A start succeeds when it has created an output thread. -/
  start : Always (fun before e => ∀ r, e.2 = .returned .requestStart r → (r = .ok ↔ Created before))
    trace
  /-- The state that a stop leaves that succeeds. -/
  stop : ∀ t d', Step stream d (t, .returned .requestStop .ok) d' →
    (Started trace → d'.shared.state = .stopped) ∧ (¬ Started trace → d'.shared.state = .opened)

/-- A stream has at most one output thread, and none once it has been stopped or closed. -/
theorem one_output_thread (h0 : Initial c) (h : Run (Step stream) c trace d) :
    OneThread trace d := by
  have hrun := h.invariant_trace (I := fun trace d => (∃ pc outs, Inv trace d pc outs) ∧
    Always (fun before e => e.2 = .callback → ¬ Halted before) trace ∧
    Always (fun before e => ∀ r, e.2 = .returned .requestStart r →
      (r = .ok ↔ Created before)) trace)
    ⟨⟨_, _, h0.inv⟩, always_nil, always_nil⟩ fun trace c label d hbefore hstep => by
      obtain ⟨⟨pc, outs, hinv⟩, hsilent, hstart⟩ := hbefore
      obtain ⟨t, e⟩ := label
      refine ⟨hinv.step hstep, always_snoc hsilent fun he => ?_, always_snoc hstart fun r he => ?_⟩
      · obtain rfl : e = .callback := he
        exact hinv.callback hstep
      · obtain rfl : e = .returned .requestStart r := he
        obtain ⟨rfl, -⟩ := hinv.returned hstep
        rw [hinv.created]
        cases r <;> simp [CtlPc.created]
  obtain ⟨⟨pc, outs, hinv⟩, hsilent, hstart⟩ := hrun
  refine ⟨hinv.stage.one, hinv.halted, hsilent, hstart, fun t d' hstep => ?_⟩
  obtain ⟨rfl, hshared⟩ := hinv.returned hstep
  have hsettled := hinv.stage.2.2 rfl rfl
  rw [hshared]
  exact ⟨hsettled.stopped, hsettled.opened⟩

end Runs

/-! ## A stream that has just been opened -/

/-- The threads of a stream that has just been opened. -/
def freshStream : Config (Actor Bool) (Stream Bool) (Local Bool) :=
  ⟨.openStream, fun
    | .controller => .ctl .idle
    | .output i => .out i .entry⟩

theorem initial_freshStream : Initial freshStream := ⟨rfl, rfl, fun _ => rfl⟩

/-- `n` steps of the controlling thread in a call. -/
def control (op : Op) (n : Nat) : List (Actor Bool × Choice Bool) :=
  List.replicate n (.controller, ⟨op, some true, false, false, false, false, false⟩)

/-- The output thread calls the data callback, which stops it, and ends. -/
def outputRun : List (Actor Bool × Choice Bool) :=
  List.replicate 7 (.output true, ⟨.close, none, true, false, false, false, false⟩)

/-- A thread that has ended by itself is reaped by the next start, and the one that this creates is
stopped. -/
theorem one_output_thread_example : ∃ trace d, Run (Step stream) freshStream trace d ∧
    (.output true, .callback) ∈ trace ∧ (.controller, .returned .requestStop .ok) ∈ trace ∧
    OneThread trace d := by
  have hexec : (stream.exec freshStream (control .requestStart 13 ++ outputRun ++
      control .requestStart 19 ++ control .requestStop 5 ++ outputRun ++
        control .requestStop 6)).any
      (fun r => decide ((.output true, .callback) ∈ r.1 ∧
        (.controller, .returned .requestStop .ok) ∈ r.1)) = true := by
    decide
  obtain ⟨trace, d, hrun, hseen⟩ := Program.exec_test hexec
  obtain ⟨hcallback, hstop⟩ := of_decide_eq_true hseen
  exact ⟨trace, d, hrun, hcallback, hstop, one_output_thread initial_freshStream hrun⟩

/-- A stop of a stream that has not been started succeeds and leaves the state `OPEN`. -/
theorem stop_leaves_open : ∃ trace c d, Run (Step stream) freshStream trace c ∧
    Step stream c (.controller, .returned .requestStop .ok) d ∧ d.shared.state ≠ .stopped := by
  have hexec : (stream.exec freshStream (control .requestStop 4)).any
      (fun r => (stream.exec r.2 (control .requestStop 1)).any fun q =>
        decide (q.1 = [(.controller, .returned .requestStop .ok)] ∧ q.2.shared.state = .opened)) =
      true := by
    decide
  obtain ⟨trace, c, hrun, hlast⟩ := Program.exec_test hexec
  obtain ⟨e, d, hstep, hseen⟩ := Program.exec_one hlast
  obtain ⟨hlabel, hstate⟩ := of_decide_eq_true hseen
  obtain rfl : e = .returned .requestStop .ok := by simpa using hlabel
  refine ⟨trace, c, d, hrun, hstep, fun hstopped => ?_⟩
  rw [show d.shared.state = .opened from hstate] at hstopped
  cases hstopped

end Asnx.Audio.Output
