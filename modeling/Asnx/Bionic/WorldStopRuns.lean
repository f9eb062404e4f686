import Mathlib.Data.Fin.Tuple.Basic
import Mathlib.Data.List.TakeWhile
import Asnx.Bionic.WorldStop
import Asnx.Library.Threads

/-!
# The bookkeeping of stopped threads

Over every sequence of calls of `bionic_pthread_kill` the table holds one entry for every thread
that this layer has paused and none for any other (`Booked`). What the collector sees of a sequence
of suspensions and restarts is compared with what these return: a call that fails should have posted
nothing and left the records alone, which it does when it is `Clear`.
-/

namespace Asnx.Bionic.Boehm

open Asnx.Threads (Run)

variable {s s' : State} {o : Outcomes} {thread : Handle} {tid base rec : Word}
variable {i : Fin boehmPausedMax} {e : BoehmPausedThread}

/-! ## The table -/

@[simp] theorem handleOf_idOf (thread : Handle) : handleOf (idOf thread) = thread := by
  simp [handleOf, idOf]

@[simp] theorem State.setEntry_paused : (s.setEntry i e).paused = s.paused := rfl

@[simp] theorem State.setEntry_acks : (s.setEntry i e).acks = s.acks := rfl

@[simp] theorem State.setEntry_self : (s.setEntry i e).gBoehmPaused i = e := by
  simp [setEntry]

@[simp] theorem State.setEntry_setEntry {e' : BoehmPausedThread} :
    (s.setEntry i e).setEntry i e' = s.setEntry i e' := by
  simp [setEntry]

theorem State.setEntry_other {j : Fin boehmPausedMax} (h : j ≠ i) :
    (s.setEntry i e).gBoehmPaused j = s.gBoehmPaused j := by
  simp [setEntry, h]

/-- The entry of a thread is in use and carries its id. -/
theorem pause_find_some (h : boehmPauseFind s tid = some i) :
    (s.gBoehmPaused i).used = true ∧ (s.gBoehmPaused i).pthreadId = tid := by
  have hfound := (Fin.find?_eq_some_iff.1 h).1
  simpa using hfound

/-- A thread without an entry is in no entry that is in use. -/
theorem pause_find_none (h : boehmPauseFind s tid = none) (hused : (s.gBoehmPaused i).used = true) :
    (s.gBoehmPaused i).pthreadId ≠ tid := by
  have hnone := Fin.find?_eq_none_iff.1 h i
  simpa [hused] using hnone

/-- An entry is allocated for a thread without one where none is in use. -/
theorem pause_alloc_fresh (hnone : boehmPauseFind s tid = none)
    (h : boehmPauseAlloc s tid = some (i, s')) :
    (s.gBoehmPaused i).used = false ∧
      s' = s.setEntry i { BoehmPausedThread.zero with used := true, pthreadId := tid } := by
  unfold boehmPauseAlloc at h
  rw [hnone] at h
  cases hfind : boehmPauseFree s with
  | none => simp [hfind] at h
  | some j =>
      have hfree := (Fin.find?_eq_some_iff.1 hfind).1
      simp only [hfind, Option.some.injEq, Prod.mk.injEq] at h
      obtain ⟨rfl, rfl⟩ := h
      exact ⟨by simpa using hfree, rfl⟩

/-- The kernel changes a thread that is not yet as it should become. -/
theorem State.set_activity_some {paused ok : Bool} (h : s.setActivity thread paused ok = some s') :
    ok = true ∧ s.paused thread ≠ paused ∧
      s' = { s with paused := Function.update s.paused thread paused } := by
  unfold setActivity at h
  split at h
  · rename_i hok
    cases h
    exact ⟨hok.1, hok.2, rfl⟩
  · cases h

/-- A paused thread is let go. -/
theorem State.unpause_paused (hpaused : s.paused thread = true) :
    s.unpause thread true = { s with paused := Function.update s.paused thread false } := by
  simp [unpause, setActivity, hpaused]

/-! ## One entry for every paused thread -/

/-- The entries in use are those of the paused threads, one for each. -/
structure Booked (s : State) : Prop where
  unique : ∀ i j, (s.gBoehmPaused i).used = true → (s.gBoehmPaused j).used = true →
    (s.gBoehmPaused i).pthreadId = (s.gBoehmPaused j).pthreadId → i = j
  iff_paused : ∀ thread, s.paused thread = true ↔
    ∃ i, (s.gBoehmPaused i).used = true ∧ (s.gBoehmPaused i).pthreadId = idOf thread

theorem booked_init : Booked .init where
  unique i j hi := by cases hi
  iff_paused thread := by simp [State.init, BoehmPausedThread.zero]

/-- A post does not touch the bookkeeping. -/
theorem Booked.ack (h : Booked s) (acks : Nat) : Booked { s with acks := acks } :=
  ⟨h.unique, h.iff_paused⟩

/-- A thread that runs has no entry. -/
theorem Booked.find_none (h : Booked s) (hruns : s.paused thread = false) :
    boehmPauseFind s (idOf thread) = none := by
  cases hfind : boehmPauseFind s (idOf thread) with
  | none => rfl
  | some i =>
      have hpaused := (h.iff_paused thread).2 ⟨i, pause_find_some hfind⟩
      rw [hruns] at hpaused
      cases hpaused

/-- An entry that is not in use may be overwritten by another one. -/
theorem Booked.set_unused (h : Booked s) (hfree : (s.gBoehmPaused i).used = false)
    (hunused : e.used = false) : Booked (s.setEntry i e) := by
  have hkeeps : ∀ j, ((s.setEntry i e).gBoehmPaused j).used = true →
      (s.setEntry i e).gBoehmPaused j = s.gBoehmPaused j := by
    intro j hj
    by_cases hji : j = i
    · subst hji
      rw [State.setEntry_self, hunused] at hj
      cases hj
    · exact State.setEntry_other hji
  refine ⟨fun j k hj hk heq => ?_, fun thread => ?_⟩
  · have hkj := hkeeps j hj
    have hkk := hkeeps k hk
    rw [hkj] at hj heq
    rw [hkk] at hk heq
    exact h.unique j k hj hk heq
  · rw [State.setEntry_paused, h.iff_paused]
    refine exists_congr fun j => ⟨fun hj => ?_, fun hj => ?_⟩
    · have hji : j ≠ i := by
        rintro rfl
        rw [hfree] at hj
        cases hj.1
      rwa [State.setEntry_other hji]
    · have hkj := hkeeps j hj.1
      rwa [hkj] at hj

/-- A thread that runs is paused and entered where no entry is in use. -/
theorem Booked.enter (h : Booked s) (hruns : s.paused thread = false)
    (hfree : (s.gBoehmPaused i).used = false) (hused : e.used = true)
    (hid : e.pthreadId = idOf thread) :
    Booked { s.setEntry i e with paused := Function.update s.paused thread true } := by
  have hnone := h.find_none hruns
  refine ⟨fun j k hj hk heq => ?_, fun other => ?_⟩
  · by_cases hji : j = i
    · by_cases hki : k = i
      · rw [hji, hki]
      · subst hji
        simp only [State.setEntry_self, State.setEntry_other hki] at hj hk heq
        exact absurd (heq.symm.trans hid) (pause_find_none hnone hk)
    · by_cases hki : k = i
      · subst hki
        simp only [State.setEntry_self, State.setEntry_other hji] at hj hk heq
        exact absurd (heq.trans hid) (pause_find_none hnone hj)
      · simp only [State.setEntry_other hji, State.setEntry_other hki] at hj hk heq
        exact h.unique j k hj hk heq
  · show Function.update s.paused thread true other = true ↔ _
    by_cases hother : other = thread
    · subst hother
      rw [Function.update_self]
      refine ⟨fun _ => ⟨i, ?_⟩, fun _ => rfl⟩
      simp only [State.setEntry_self]
      exact ⟨hused, hid⟩
    · rw [Function.update_of_ne hother, h.iff_paused]
      refine exists_congr fun j => ?_
      by_cases hji : j = i
      · subst hji
        have hne : idOf thread ≠ idOf other := fun heq => hother <| by
          have := congrArg handleOf heq
          simpa using this.symm
        simp [hfree, hid, hne]
      · simp only [State.setEntry_other hji]

/-- A paused thread is let go together with its entry. -/
theorem Booked.leave (h : Booked s) (hused : (s.gBoehmPaused i).used = true)
    (hid : (s.gBoehmPaused i).pthreadId = idOf thread) (hunused : e.used = false) :
    Booked { s.setEntry i e with paused := Function.update s.paused thread false } := by
  have hkeeps : ∀ j, ((s.setEntry i e).gBoehmPaused j).used = true →
      j ≠ i ∧ (s.setEntry i e).gBoehmPaused j = s.gBoehmPaused j := by
    intro j hj
    by_cases hji : j = i
    · subst hji
      rw [State.setEntry_self, hunused] at hj
      cases hj
    · exact ⟨hji, State.setEntry_other hji⟩
  refine ⟨fun j k hj hk heq => ?_, fun other => ?_⟩
  · obtain ⟨-, hkj⟩ := hkeeps j hj
    obtain ⟨-, hkk⟩ := hkeeps k hk
    simp only [hkj, hkk] at hj hk heq
    exact h.unique j k hj hk heq
  · show Function.update s.paused thread false other = true ↔ _
    by_cases hother : other = thread
    · subst hother
      rw [Function.update_self]
      refine ⟨nofun, fun ⟨j, hj, hjd⟩ => ?_⟩
      obtain ⟨hji, hkj⟩ := hkeeps j hj
      simp only [hkj] at hj hjd
      exact absurd (h.unique j i hj hused (hjd.trans hid.symm)) hji
    · rw [Function.update_of_ne hother, h.iff_paused]
      refine exists_congr fun j => ⟨fun hj => ?_, fun hj => ?_⟩
      · have hji : j ≠ i := by
          rintro rfl
          have := congrArg handleOf (hid.symm.trans hj.2)
          exact hother (by simpa using this.symm)
        simp only [State.setEntry_other hji]
        exact hj
      · obtain ⟨-, hkj⟩ := hkeeps j hj.1
        simp only [hkj] at hj
        exact hj

/-! ## Every call keeps the table -/

/-- What a call leaves after a pause that it takes back. -/
theorem Booked.undone (h : Booked s) (hruns : s.paused thread = false) :
    Booked (({ s with paused := Function.update s.paused thread true } : State).unpause
      thread true) := by
  have hback : Function.update s.paused thread false = s.paused := by
    rw [← hruns, Function.update_eq_self]
  rw [State.unpause_paused (by simp)]
  simpa [hback] using h

/-- From the pause of a thread that runs on, a suspension keeps the bookkeeping. -/
theorem Booked.suspend_paused (h : Booked s) (hruns : s.paused thread = false)
    (hunpauses : o.unpauses = true) :
    Booked (suspendPaused { s with paused := Function.update s.paused thread true } o
      (idOf thread) base rec).state := by
  unfold suspendPaused
  simp only [handleOf_idOf, hunpauses]
  split
  · exact h.undone hruns
  · split
    · exact h.undone hruns
    · rename_i i _ halloc
      have hnone : boehmPauseFind { s with paused := Function.update s.paused thread true }
        (idOf thread) = none := h.find_none hruns
      obtain ⟨hfree, rfl⟩ := pause_alloc_fresh hnone halloc
      -- both failures that are left take the entry back before the pause
      have hfails : ∀ e : BoehmPausedThread, e.used = false → Booked ((({ s with
          paused := Function.update s.paused thread true } : State).setEntry i e).unpause
            thread true) := fun e he =>
        Booked.undone (s := s.setEntry i e) (h.set_unused hfree he) hruns
      simp only [State.release, State.setEntry_self, State.setEntry_setEntry]
      split
      · exact hfails _ rfl
      · split
        · exact hfails _ rfl
        · exact (h.enter hruns hfree rfl rfl).ack _

/-- A suspension keeps the bookkeeping. -/
theorem Booked.suspend (h : Booked s) (hunpauses : o.unpauses = true) :
    Booked (boehmHorizonSuspend s o (idOf thread) base).state := by
  unfold boehmHorizonSuspend
  split
  · exact h
  · split
    · exact h
    · split
      · exact h
      · split
        · exact h
        · rename_i hactivity
          obtain ⟨-, hruns, rfl⟩ := State.set_activity_some hactivity
          rw [handleOf_idOf] at hruns ⊢
          exact h.suspend_paused (by simpa using hruns) hunpauses

/-- A restart that lets its thread go takes its entry out. -/
theorem Booked.resume (h : Booked s) (records : Word → BoehmThreadRecord) :
    Booked (restartResume s o (idOf thread) (boehmPauseFind s (idOf thread)) records).state := by
  unfold restartResume
  split
  · exact h
  · rename_i hactivity
    obtain ⟨-, hpaused, rfl⟩ := State.set_activity_some hactivity
    rw [handleOf_idOf] at hpaused ⊢
    obtain ⟨i, hused, hid⟩ := (h.iff_paused thread).1 (by simpa using hpaused)
    cases hfind : boehmPauseFind s (idOf thread) with
    | none => exact absurd hid (pause_find_none hfind hused)
    | some j =>
        obtain ⟨hjused, hjid⟩ := pause_find_some hfind
        exact h.leave hjused hjid rfl

/-- A restart keeps the bookkeeping. -/
theorem Booked.restart (h : Booked s) :
    Booked (boehmHorizonRestart s o (idOf thread) base).state := by
  unfold boehmHorizonRestart
  split
  · exact h
  · split
    · exact h
    · split
      · exact h.resume _
      · split
        · exact h
        · exact (h.ack (s.acks + 1)).resume _

/-- Every call keeps the bookkeeping. -/
theorem Booked.kill (h : Booked s) (hunpauses : o.unpauses = true) (signals : Signals) (sig : Int) :
    Booked (bionicPthreadKill s o signals (idOf thread) sig).state := by
  unfold bionicPthreadKill
  split
  · exact h
  · split
    · exact h
    · split
      · exact h.suspend hunpauses
      · split
        · exact h.restart
        · exact h

/-! ## Sequences of calls -/

/-- A call of `bionic_pthread_kill`, with what it finds. -/
structure Kill where
  thread : Handle
  sig : Int
  signals : Signals
  outcomes : Outcomes

/-- One call. -/
inductive Killed : State → Kill → State → Prop where
  | mk (s : State) (k : Kill) :
      Killed s k (bionicPthreadKill s k.outcomes k.signals (idOf k.thread) k.sig).state

/-- After every sequence of calls in which a thread is let go whenever a call fails after its pause,
the table has at most one entry in use for a thread, and the paused threads are those with an entry
in use. -/
theorem stopped_booked {s : State} {calls : List Kill}
    (h : Run (fun s k s' => k.outcomes.unpauses = true ∧ Killed s k s') .init calls s) :
    (∀ i j, (s.gBoehmPaused i).used = true → (s.gBoehmPaused j).used = true →
      (s.gBoehmPaused i).pthreadId = (s.gBoehmPaused j).pthreadId → i = j) ∧
    ∀ thread, s.paused thread = true ↔
      ∃ i, (s.gBoehmPaused i).used = true ∧ (s.gBoehmPaused i).pthreadId = idOf thread := by
  have hbooked : Booked s := h.invariant booked_init fun s k s' hs hstep => by
    obtain ⟨hunpauses, hkilled⟩ := hstep
    cases hkilled with
    | mk => exact hs.kill hunpauses k.signals k.sig
  exact ⟨hbooked.unique, hbooked.iff_paused⟩

/-- A thread whose stack has room, with a record of its own. -/
def sampleOutcomes : Outcomes where
  known := true
  validates := true
  self := 1
  table _ := [4096, 0]
  records _ := ⟨5, 0, 0⟩
  worldMarker := 2
  restartAckEnabled := true
  pauses := true
  context := some 4096
  contextBytes := 800
  queries _ := some ⟨0, 8192, true⟩
  posts := true
  unpauses := true
  resumes := true

/-- The signals of a library at address 65536. -/
def sampleSignals : Signals :=
  ⟨65536, 30, 31, 65536 + offIl2cppGcSuspendHandler, 65536 + offIl2cppGcRestartHandler⟩

theorem stopped_booked_example : ∃ s,
    Run (fun s k s' => k.outcomes.unpauses = true ∧ Killed s k s') .init
      [⟨5, 30, sampleSignals, sampleOutcomes⟩] s ∧
    s.paused 5 = true ∧
    ∀ thread, s.paused thread = true ↔
      ∃ i, (s.gBoehmPaused i).used = true ∧ (s.gBoehmPaused i).pthreadId = idOf thread := by
  have hrun : Run (fun s k s' => k.outcomes.unpauses = true ∧ Killed s k s') .init
      [⟨5, 30, sampleSignals, sampleOutcomes⟩] _ := (Run.refl _).snoc ⟨rfl, .mk _ _⟩
  exact ⟨_, hrun, by decide, (stopped_booked hrun).2⟩

/-! ## Failed calls and acknowledgements -/

/-- The two calls on a thread. -/
inductive Op where
  | suspend
  | restart
  deriving DecidableEq

/-- A call, with what it finds. -/
structure Event where
  op : Op
  tid : Word
  outcomes : Outcomes
  before : State

/-- What a call comes to. -/
def Event.ret (base : Word) (e : Event) : Return :=
  match e.op with
  | .suspend => boehmHorizonSuspend e.before e.outcomes e.tid base
  | .restart => boehmHorizonRestart e.before e.outcomes e.tid base

/-- One call for the library at `base`. -/
inductive Called (base : Word) : State → Event → State → Prop where
  | mk (e : Event) : Called base e.before e (e.ret base).state

/-- A call that fails posts nothing and leaves the records as they are. -/
def Event.Invisible (base : Word) (e : Event) : Prop :=
  (e.ret base).result ≠ .ok →
    (e.ret base).state.acks = e.before.acks ∧ (e.ret base).records = e.outcomes.records

/-- The calls that the collector waits for: suspensions, and restarts of suspended threads with
restart acknowledgement. -/
def Event.acknowledged (base : Word) (e : Event) : Bool :=
  decide ((e.ret base).result = .ok) &&
    match e.op with
    | .suspend => true
    | .restart => (boehmPauseFind e.before e.tid).isSome && e.outcomes.restartAckEnabled

/-- A suspension comes to its post, with the record `rec` and the stack pointer `sp`. -/
structure SuspendPosts (s : State) (o : Outcomes) (tid rec sp : Word) : Prop where
  valid : boehmValidateThread tid o.validates = none
  other : tid ≠ o.self
  found : boehmFindRecord o tid = some rec
  runs : s.paused (handleOf tid) = false
  pauses : o.pauses = true
  context : o.context = some sp
  room : (boehmPauseAlloc s tid).isSome
  fits : snapshotFits o sp = true

/-- A restart comes to its post, for the entry `i`. -/
structure RestartPosts (s : State) (o : Outcomes) (tid base : Word) (i : Fin boehmPausedMax) :
    Prop where
  valid : boehmValidateThread tid o.validates = none
  other : tid ≠ o.self
  acks : restartAcks s o tid base = some i

/-- A suspension that comes to its post succeeds in it, and a restart that comes to its post
succeeds in it and can then let its thread go. Otherwise the post fails, and the values that were
written before it were in the record already. -/
def Event.Clear (base : Word) (e : Event) : Prop :=
  match e.op with
  | .suspend => ∀ rec sp, SuspendPosts e.before e.outcomes e.tid rec sp →
      e.outcomes.posts = true ∨ suspended e.outcomes rec sp = e.outcomes.records
  | .restart => ∀ i, RestartPosts e.before e.outcomes e.tid base i →
      if e.outcomes.posts then
        e.outcomes.resumes = true ∧ e.before.paused (handleOf e.tid) = true
      else restarted e.outcomes (e.before.gBoehmPaused i) = e.outcomes.records

/-! ## What one call does -/

@[simp] theorem State.unpause_acks (ok : Bool) : (s.unpause thread ok).acks = s.acks := by
  unfold unpause setActivity
  split <;> rfl

@[simp] theorem State.release_acks : (s.release i).acks = s.acks := rfl

theorem pause_alloc_acks (h : boehmPauseAlloc s tid = some (i, s')) : s'.acks = s.acks := by
  unfold boehmPauseAlloc at h
  split at h
  · cases h
    rfl
  · split at h
    · cases h
      rfl
    · cases h

/-- What a suspension comes to, as far as the collector sees it. -/
inductive SuspendSeen (s : State) (o : Outcomes) (tid : Word) (r : Return) : Prop where
  | fails : r.result ≠ .ok → r.state.acks = s.acks → r.records = o.records →
      (∀ rec sp, ¬ SuspendPosts s o tid rec sp) → SuspendSeen s o tid r
  | postFails (rec sp : Word) : SuspendPosts s o tid rec sp → o.posts = false → r.result ≠ .ok →
      r.state.acks = s.acks → r.records = suspended o rec sp → SuspendSeen s o tid r
  | posts (rec sp : Word) : SuspendPosts s o tid rec sp → o.posts = true → r.result = .ok →
      r.state.acks = s.acks + 1 → SuspendSeen s o tid r

/-- Whether there is room for an entry does not depend on what is paused. -/
theorem pause_alloc_room (s : State) (tid : Word) (paused : Handle → Bool) :
    (boehmPauseAlloc { s with paused := paused } tid).isSome = (boehmPauseAlloc s tid).isSome := by
  have hfind : boehmPauseFind { s with paused := paused } tid = boehmPauseFind s tid := rfl
  have hfree : boehmPauseFree { s with paused := paused } = boehmPauseFree s := rfl
  unfold boehmPauseAlloc
  rw [hfind, hfree]
  cases boehmPauseFind s tid with
  | some i => rfl
  | none => cases boehmPauseFree s <;> rfl

/-- A suspension that has paused its thread. -/
theorem suspend_paused_seen (hvalid : boehmValidateThread tid o.validates = none)
    (hother : tid ≠ o.self) (hfound : boehmFindRecord o tid = some rec) (hpauses : o.pauses = true)
    (hruns : s.paused (handleOf tid) = false) (paused : Handle → Bool) :
    SuspendSeen s o tid (suspendPaused { s with paused := paused } o tid base rec) := by
  unfold suspendPaused
  cases hcontext : o.context with
  | none =>
      refine .fails nofun (State.unpause_acks _) rfl fun rec sp h => ?_
      rw [h.context] at hcontext
      cases hcontext
  | some sp =>
      cases halloc : boehmPauseAlloc { s with paused := paused } tid with
      | none =>
          refine .fails nofun (State.unpause_acks _) rfl fun rec sp h => ?_
          have hroom := h.room
          rw [← pause_alloc_room s tid paused, halloc] at hroom
          cases hroom
      | some entry =>
          obtain ⟨i, entered⟩ := entry
          have hacks := pause_alloc_acks halloc
          have hroom : (boehmPauseAlloc s tid).isSome := by
            rw [← pause_alloc_room s tid paused, halloc]
            rfl
          cases hfits : snapshotFits o sp with
          | false =>
              simp only [hfits, Bool.not_false, if_true]
              refine .fails nofun ?_ rfl fun rec sp' h => ?_
              · simpa using hacks
              · have hfits' := h.fits
                rw [Option.some.inj (h.context.symm.trans hcontext), hfits] at hfits'
                cases hfits'
          | true =>
              have hposts : SuspendPosts s o tid rec sp :=
                ⟨hvalid, hother, hfound, hruns, hpauses, hcontext, hroom, hfits⟩
              simp only [hfits, Bool.not_true]
              cases hpost : o.posts with
              | false => exact .postFails rec sp hposts hpost nofun (by simpa using hacks) rfl
              | true => exact .posts rec sp hposts hpost rfl (congrArg (· + 1) hacks)

/-- A suspension fails without a trace, fails in its post, or posts. -/
theorem suspend_seen (s : State) (o : Outcomes) (tid base : Word) :
    SuspendSeen s o tid (boehmHorizonSuspend s o tid base) := by
  unfold boehmHorizonSuspend
  cases hvalid : boehmValidateThread tid o.validates with
  | some e =>
      refine .fails ?_ rfl rfl fun rec sp h => ?_
      · unfold boehmValidateThread at hvalid
        split at hvalid
        · cases hvalid
          nofun
        · cases hvalid
      · rw [h.valid] at hvalid
        cases hvalid
  | none =>
      by_cases hself : tid = o.self
      · simp only [hself, if_true]
        exact .fails nofun rfl rfl fun rec sp h => absurd rfl (hself ▸ h.other)
      · simp only [hself, if_false]
        cases hfind : boehmFindRecord o tid with
        | none =>
            refine .fails nofun rfl rfl fun rec sp h => ?_
            rw [h.found] at hfind
            cases hfind
        | some rec =>
            cases hactivity : s.setActivity (handleOf tid) true o.pauses with
            | none =>
                refine .fails nofun rfl rfl fun rec sp h => ?_
                simp [State.setActivity, h.runs, h.pauses] at hactivity
            | some paused =>
                obtain ⟨hpauses, hruns, rfl⟩ := State.set_activity_some hactivity
                exact suspend_paused_seen hvalid hself hfind hpauses (by simpa using hruns) _

/-- What a restart comes to, as far as the collector sees it. -/
inductive RestartSeen (s : State) (o : Outcomes) (tid base : Word) (r : Return) : Prop where
  | silent : r.state.acks = s.acks → r.records = o.records →
      (r.result = .ok → restartAcks s o tid base = none) →
      (∀ i, ¬ RestartPosts s o tid base i) → RestartSeen s o tid base r
  | postFails (i : Fin boehmPausedMax) : RestartPosts s o tid base i → o.posts = false →
      r.result ≠ .ok → r.state.acks = s.acks → r.records = restarted o (s.gBoehmPaused i) →
      RestartSeen s o tid base r
  | posts (i : Fin boehmPausedMax) : RestartPosts s o tid base i → o.posts = true →
      (r.result = .ok ↔ o.resumes = true ∧ s.paused (handleOf tid) = true) →
      r.state.acks = s.acks + 1 → RestartSeen s o tid base r

@[simp] theorem State.clear_acks (ps : Option (Fin boehmPausedMax)) :
    (s.clear ps).acks = s.acks := by
  cases ps <;> rfl

/-- The last kernel call of a restart. -/
theorem restart_resume_seen (s : State) (o : Outcomes) (tid : Word)
    (ps : Option (Fin boehmPausedMax)) (records : Word → BoehmThreadRecord) :
    (restartResume s o tid ps records).state.acks = s.acks ∧
      (restartResume s o tid ps records).records = records ∧
      ((restartResume s o tid ps records).result = .ok ↔
        o.resumes = true ∧ s.paused (handleOf tid) = true) := by
  unfold restartResume
  cases hactivity : s.setActivity (handleOf tid) false o.resumes with
  | none =>
      refine ⟨rfl, rfl, nofun, fun ⟨hresumes, hpaused⟩ => ?_⟩
      simp [State.setActivity, hresumes, hpaused] at hactivity
  | some resumed =>
      obtain ⟨hresumes, hpaused, rfl⟩ := State.set_activity_some hactivity
      exact ⟨State.clear_acks ps, rfl, fun _ => ⟨hresumes, by simpa using hpaused⟩, fun _ => rfl⟩

/-- A restart posts nothing, fails in its post, or posts. -/
theorem restart_seen (s : State) (o : Outcomes) (tid base : Word) :
    RestartSeen s o tid base (boehmHorizonRestart s o tid base) := by
  unfold boehmHorizonRestart
  cases hvalid : boehmValidateThread tid o.validates with
  | some e =>
      refine .silent rfl rfl (fun hok => ?_) fun i h => ?_
      · unfold boehmValidateThread at hvalid
        split at hvalid
        · cases hvalid
          cases hok
        · cases hvalid
      · rw [h.valid] at hvalid
        cases hvalid
  | none =>
      by_cases hself : tid = o.self
      · simp only [hself, if_true]
        exact .silent rfl rfl nofun fun i h => absurd rfl (hself ▸ h.other)
      · simp only [hself, if_false]
        cases hacks : restartAcks s o tid base with
        | none =>
            obtain ⟨hkept, hrecords, -⟩ :=
              restart_resume_seen s o tid (boehmPauseFind s tid) o.records
            refine .silent hkept hrecords (fun _ => hacks) fun i h => ?_
            rw [h.acks] at hacks
            cases hacks
        | some i =>
            have hposts : RestartPosts s o tid base i := ⟨hvalid, hself, hacks⟩
            cases hpost : o.posts with
            | false => exact .postFails i hposts hpost nofun rfl rfl
            | true =>
                obtain ⟨hacked, -, hok⟩ := restart_resume_seen { s with acks := s.acks + 1 } o tid
                  (boehmPauseFind s tid) (restarted o (s.gBoehmPaused i))
                exact .posts i hposts hpost hok hacked

/-! ## The entries in use are those of one library -/

/-- Every entry in use was made for the library at `base` and has a record. -/
def Entered (base : Word) (s : State) : Prop :=
  ∀ i, (s.gBoehmPaused i).used = true →
    (s.gBoehmPaused i).il2cppBase = base ∧ (s.gBoehmPaused i).record ≠ 0

/-- An entry that is not in use, or that is as it should be, may be written. -/
theorem Entered.setEntry (h : Entered base s)
    (he : e.used = true → e.il2cppBase = base ∧ e.record ≠ 0) : Entered base (s.setEntry i e) := by
  intro j hj
  by_cases hji : j = i
  · subst hji
    rw [State.setEntry_self] at hj ⊢
    exact he hj
  · rw [State.setEntry_other hji] at hj ⊢
    exact h j hj

theorem Entered.unpause (h : Entered base s) (ok : Bool) : Entered base (s.unpause thread ok) := by
  unfold State.unpause State.setActivity
  split <;> exact h

/-- A record that is found is not null. -/
theorem find_record_ne_zero (h : boehmFindRecord o tid = some rec) : rec ≠ 0 := by
  have hmem := List.mem_takeWhile_imp (List.mem_of_find?_eq_some h)
  simpa using hmem

/-- The entry of a thread apart, an allocation leaves the table alone. -/
theorem pause_alloc_others (h : boehmPauseAlloc s tid = some (i, s')) :
    ∃ e, s' = s.setEntry i e := by
  unfold boehmPauseAlloc at h
  split at h
  · cases h
    exact ⟨s.gBoehmPaused i, by simp [State.setEntry]⟩
  · split at h
    · cases h
      exact ⟨_, rfl⟩
    · cases h

theorem Entered.suspend (h : Entered base s) (o : Outcomes) (tid : Word) :
    Entered base (boehmHorizonSuspend s o tid base).state := by
  unfold boehmHorizonSuspend
  split
  · exact h
  · split
    · exact h
    · split
      · exact h
      · rename_i hfound
        split
        · exact h
        · rename_i hactivity
          obtain ⟨-, -, rfl⟩ := State.set_activity_some hactivity
          have hpaused : Entered base { s with
            paused := Function.update s.paused (handleOf tid) true } := h
          unfold suspendPaused
          split
          · exact hpaused.unpause _
          · split
            · exact hpaused.unpause _
            · rename_i halloc
              obtain ⟨e, rfl⟩ := pause_alloc_others halloc
              simp only [State.release, State.setEntry_self, State.setEntry_setEntry]
              split
              · exact (hpaused.setEntry (by simp)).unpause _
              · split
                · exact (hpaused.setEntry (by simp)).unpause _
                · exact hpaused.setEntry fun _ => ⟨rfl, find_record_ne_zero hfound⟩

theorem Entered.restart (h : Entered base s) (o : Outcomes) (tid : Word) :
    Entered base (boehmHorizonRestart s o tid base).state := by
  have hresume : ∀ s ps records, Entered base s →
      Entered base (restartResume s o tid ps records).state := by
    intro s ps records h
    unfold restartResume
    split
    · exact h
    · rename_i hactivity
      obtain ⟨-, -, rfl⟩ := State.set_activity_some hactivity
      cases ps with
      | none => exact h
      | some i => exact Entered.setEntry h nofun
  unfold boehmHorizonRestart
  split
  · exact h
  · split
    · exact h
    · split
      · exact hresume _ _ _ h
      · split
        · exact h
        · exact hresume _ _ _ h

/-- A restart posts for every thread that has an entry. -/
theorem Entered.restart_acks (h : Entered base s) (o : Outcomes) (tid : Word) :
    (restartAcks s o tid base).isSome =
      ((boehmPauseFind s tid).isSome && o.restartAckEnabled) := by
  unfold restartAcks
  cases hfind : boehmPauseFind s tid with
  | none => rfl
  | some i =>
      obtain ⟨hbase, hrecord⟩ := h i (pause_find_some hfind).1
      cases henabled : o.restartAckEnabled with
      | false => simp
      | true => simp only [hbase, ne_eq, hrecord, not_false_eq_true, and_self, if_true,
          Option.isSome_some, Bool.and_self]

/-! ## What the collector sees of a run -/

/-- A call that fails is invisible just when it is clear. -/
theorem invisible_iff_clear (base : Word) (e : Event) : e.Invisible base ↔ e.Clear base := by
  obtain ⟨op, tid, o, s⟩ := e
  cases op with
  | suspend =>
      show ((boehmHorizonSuspend s o tid base).result ≠ .ok → _ ∧ _) ↔ ∀ rec sp, _ → _ ∨ _
      cases suspend_seen s o tid base with
      | fails _ hacks hrecords hnone =>
          exact ⟨fun _ rec sp h => absurd h (hnone rec sp), fun _ _ => ⟨hacks, hrecords⟩⟩
      | postFails rec sp hposts hpost hfails hacks hrecords =>
          refine ⟨fun h rec' sp' hposts' => .inr ?_, fun h _ => ⟨hacks, ?_⟩⟩
          · obtain rfl := Option.some.inj (hposts.found.symm.trans hposts'.found)
            obtain rfl := Option.some.inj (hposts.context.symm.trans hposts'.context)
            exact hrecords.symm.trans (h hfails).2
          · have hwritten := (h rec sp hposts).resolve_left (by simp [hpost])
            exact hrecords.trans hwritten
      | posts rec sp _ hpost hok _ =>
          exact ⟨fun _ _ _ _ => .inl hpost, fun _ hfails => absurd hok hfails⟩
  | restart =>
      show ((boehmHorizonRestart s o tid base).result ≠ .ok → _ ∧ _) ↔ ∀ i, _ → ite _ _ _
      cases restart_seen s o tid base with
      | silent hacks hrecords _ hnone =>
          exact ⟨fun _ i h => absurd h (hnone i), fun _ _ => ⟨hacks, hrecords⟩⟩
      | postFails i hposts hpost hfails hacks hrecords =>
          refine ⟨fun h j hposts' => ?_, fun h _ => ⟨hacks, ?_⟩⟩
          · obtain rfl := Option.some.inj (hposts.acks.symm.trans hposts'.acks)
            simpa [hpost] using hrecords.symm.trans (h hfails).2
          · have hwritten := h i hposts
            simp only [hpost, Bool.false_eq_true, if_false] at hwritten
            exact hrecords.trans hwritten
      | posts i hposts hpost hok hacks =>
          refine ⟨fun h j _ => ?_, fun h hfails => ?_⟩
          · have hresult : (boehmHorizonRestart s o tid base).result = .ok := by
              by_contra hfails
              have hkept : (boehmHorizonRestart s o tid base).state.acks = s.acks := (h hfails).1
              omega
            simpa [hpost] using hok.1 hresult
          · have hresumes := h i hposts
            simp only [hpost, if_true] at hresumes
            exact absurd (hok.2 hresumes) hfails

/-- A call that is clear posts just when the collector waits for it. -/
theorem clear_acks (e : Event) (hentered : Entered base e.before) (hclear : e.Clear base) :
    (e.ret base).state.acks = e.before.acks + if e.acknowledged base then 1 else 0 := by
  obtain ⟨op, tid, o, s⟩ := e
  unfold Event.acknowledged
  cases op with
  | suspend =>
      show (boehmHorizonSuspend s o tid base).state.acks = s.acks +
        if (decide ((boehmHorizonSuspend s o tid base).result = .ok) && true) then 1 else 0
      cases suspend_seen s o tid base with
      | fails hfails hacks _ _ => simp [hfails, hacks]
      | postFails rec sp _ _ hfails hacks _ => simp [hfails, hacks]
      | posts rec sp _ _ hok hacks => simp [hok, hacks]
  | restart =>
      show (boehmHorizonRestart s o tid base).state.acks = s.acks +
        if (decide ((boehmHorizonRestart s o tid base).result = .ok) &&
          ((boehmPauseFind s tid).isSome && o.restartAckEnabled)) then 1 else 0
      rw [← hentered.restart_acks o tid]
      cases restart_seen s o tid base with
      | silent hacks _ hnone _ =>
          by_cases hok : (boehmHorizonRestart s o tid base).result = .ok
          · simp [hacks, hnone hok]
          · simp [hacks, hok]
      | postFails i _ _ hfails hacks _ => simp [hfails, hacks]
      | posts i hposts hpost hok hacks =>
          have hresumes := hclear i hposts
          simp only [hpost, if_true] at hresumes
          simp [hacks, hok.2 hresumes, hposts.acks]

/-- Over every sequence of calls, each call that fails is invisible to the collector and the
acknowledgements are as many as the calls that it waits for, if and only if every call is clear. -/
theorem acknowledgements_exact {base : Word} {s : State} {calls : List Event}
    (h : Run (Called base) .init calls s) :
    ((∀ e ∈ calls, e.Invisible base) ∧ s.acks = calls.countP (Event.acknowledged base)) ↔
      ∀ e ∈ calls, e.Clear base := by
  refine ⟨fun hseen e he => (invisible_iff_clear base e).1 (hseen.1 e he), fun hclear =>
    ⟨fun e he => (invisible_iff_clear base e).2 (hclear e he), ?_⟩⟩
  refine (h.invariant_trace (I := fun calls s => Entered base s ∧
    ((∀ e ∈ calls, e.Clear base) → s.acks = calls.countP (Event.acknowledged base)))
    ⟨nofun, fun _ => rfl⟩ ?_).2 hclear
  intro calls s e s' hbefore hstep
  obtain ⟨hentered, hcount⟩ := hbefore
  cases hstep with
  | mk =>
      refine ⟨?_, fun hclear => ?_⟩
      · obtain ⟨op, tid, o, s⟩ := e
        cases op with
        | suspend => exact hentered.suspend o tid
        | restart => exact hentered.restart o tid
      · have hlast := clear_acks e hentered (hclear e (by simp))
        have hbefore := hcount fun e he => hclear e (List.mem_append_left _ he)
        rw [hlast, hbefore, List.countP_append, List.countP_singleton]

/-- A suspension of thread 5, and what it leaves. -/
def sampleSuspend : Event := ⟨.suspend, 5, sampleOutcomes, .init⟩

theorem acknowledgements_exact_example : ∃ s, Run (Called 65536) .init [sampleSuspend] s ∧
    s.acks = 1 ∧
    (((∀ e ∈ [sampleSuspend], e.Invisible 65536) ∧
        s.acks = [sampleSuspend].countP (Event.acknowledged 65536)) ↔
      ∀ e ∈ [sampleSuspend], e.Clear 65536) := by
  have hrun : Run (Called 65536) .init [sampleSuspend] _ := (Run.refl _).snoc (.mk sampleSuspend)
  exact ⟨_, hrun, by decide, acknowledgements_exact hrun⟩

/-- A restart of the suspended thread that the kernel then does not let go. -/
def sampleRestart : Event :=
  ⟨.restart, 5, { sampleOutcomes with resumes := false }, (sampleSuspend.ret 65536).state⟩

/-- A suspension whose post fails. -/
def samplePostFails : Event := ⟨.suspend, 5, { sampleOutcomes with posts := false }, .init⟩

/-- A restart that fails after its post leaves one acknowledgement too many, and a suspension that
fails in its post leaves a changed record. -/
theorem acknowledgements_not_exact :
    (∃ s, Run (Called 65536) .init [sampleSuspend, sampleRestart] s ∧
      s.acks = 2 ∧ [sampleSuspend, sampleRestart].countP (Event.acknowledged 65536) = 1 ∧
      ¬ sampleRestart.Invisible 65536) ∧
    (∃ s, Run (Called 65536) .init [samplePostFails] s ∧ ¬ samplePostFails.Invisible 65536) := by
  have hrun : Run (Called 65536) .init [sampleSuspend] _ := (Run.refl _).snoc (.mk sampleSuspend)
  refine ⟨⟨_, hrun.snoc (.mk sampleRestart), by decide, by decide, fun h => ?_⟩,
    _, (Run.refl _).snoc (.mk samplePostFails), fun h => ?_⟩
  · have hacks := (h (by decide)).1
    exact absurd hacks (by decide)
  · have hrecord := congrFun (h (by decide)).2 4096
    exact absurd hrecord (by decide)

end Asnx.Bionic.Boehm
