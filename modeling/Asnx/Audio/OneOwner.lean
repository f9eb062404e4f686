import Asnx.Audio.DeviceOwner
import Asnx.Library.Holding
import Mathlib.Data.Set.Card

/-!
# One owner of the output device

A stream is open from the return of its `open` until its `close` has given the device up. As long
as the lock of the owner is initialised once and a stream is closed once, one stream at a time is
open, and the device is initialised as often as streams are open (`one_owner`).
`audout_owner_lock_init` does not see to the first: two threads that come to it at once may both
take the device (`two_owners`).
-/

namespace Asnx.Audio.Owner

open Threads Holding

variable {T I : Type*}

/-! ## What has happened -/

/-- The stream is open: an `open` has returned it, and no `close` has given up the device since. -/
def IsOpen (trace : List (T × Event I)) (i : I) : Prop :=
  Since (fun e => e.2 = .opened i) (fun e => e.2 = .gives i) trace

/-- An `open` has returned the stream, and no `close` has been called since. -/
def Unclosed (trace : List (T × Event I)) (i : I) : Prop :=
  Since (fun e => e.2 = .opened i) (fun e => e.2 = .closes i) trace

/-- An `open` returns. -/
def Event.answers : Event I → Prop
  | .openFails _ | .opened _ => True
  | _ => False

/-- The thread has found an owner in its current `open`. -/
def Turned (t : T) (trace : List (T × Event I)) : Prop :=
  Since (fun e => e.1 = t ∧ e.2 = .asks true) (fun e => e.1 = t ∧ e.2.answers) trace

/-- What an event adds to the successful calls of `audoutInitialize` less those of `audoutExit`. -/
def Event.session : Event I → Int
  | .initializes => 1
  | .exits => -1
  | _ => 0

/-- The successful calls of `audoutInitialize` less those of `audoutExit`. -/
def sessions (trace : List (T × Event I)) : Int := (trace.map fun e => e.2.session).sum

/-- A step that finds the lock not initialised is the first, and a `close` is of a stream that
`open` has returned and no `close` has been called for since. -/
def Proper (before : List (T × Event I)) (e : T × Event I) : Prop :=
  (e.2 = .unready → ¬ Seen (fun e => e.2 = .unready) before) ∧
    ∀ i, e.2 = .closes i → Unclosed before i

section Trace

variable {trace : List (T × Event I)} {t : T} {e : Event I} {i : I}

theorem isOpen_snoc :
    IsOpen (trace ++ [(t, e)]) i ↔ e = .opened i ∨ IsOpen trace i ∧ e ≠ .gives i :=
  since_snoc

theorem unclosed_snoc :
    Unclosed (trace ++ [(t, e)]) i ↔ e = .opened i ∨ Unclosed trace i ∧ e ≠ .closes i :=
  since_snoc

theorem turned_snoc {u : T} : Turned u (trace ++ [(t, e)]) ↔
    (t = u ∧ e = .asks true) ∨ Turned u trace ∧ ¬ (t = u ∧ e.answers) :=
  since_snoc

theorem sessions_snoc : sessions (trace ++ [(t, e)]) = sessions trace + e.session := by
  simp [sessions]

end Trace

/-! ## Places -/

/-- The thread has the lock of the owner. -/
def Pc.holds : Pc I → Bool
  | .owner _ | .audoutInitialize _ | .format _ | .exitFormat _ | .refuse _ | .own _ | .owned _
  | .disown _ _ | .disowned _ _ => true
  | _ => false

/-- The thread initialises the lock. -/
def Pc.initializing : Pc I → Bool
  | .lockInit _ _ | .lockSet _ _ => true
  | _ => false

/-- The thread has not come past `audout_owner_lock_init`. -/
def Pc.early : Pc I → Bool
  | .idle | .opening _ | .lockReady _ _ | .lockInit _ _ | .lockSet _ _ => true
  | _ => false

/-- The stream that the thread has in hand. -/
def Pc.stream : Pc I → Option I
  | .idle | .opening _ => none
  | .lockReady i _ | .lockInit i _ | .lockSet i _ | .lock i _ | .owner i | .audoutInitialize
    i | .format i
  | .exitFormat i | .refuse i | .own i | .owned i | .buffers i | .disown i _ | .disowned i _
  | .exit i _ | .failed i _ | .register i | .close i | .closing i | .closed i => some i

/-- The stream that owns the device on its way to be open, when the thread is to give it up or
not. -/
def Use.opens (i : I) : Use → Option I
  | .leave .giveUp => some i
  | _ => none

/-- The stream that owns the device and is to be closed. -/
def Use.shuts (i : I) : Use → Option I
  | .leave .close => some i
  | _ => none

/-- The stream in hand owns the device and is not open yet. -/
def Pc.opens : Pc I → Option I
  | .owned i | .buffers i | .register i => some i
  | .lockReady i u | .lockInit i u | .lockSet i u | .lock i u => u.opens i
  | .disown i l => (Use.leave l).opens i
  | _ => none

/-- The stream in hand is open and is being closed. -/
def Pc.shuts : Pc I → Option I
  | .close i | .closing i => some i
  | .lockReady i u | .lockInit i u | .lockSet i u | .lock i u => u.shuts i
  | .disown i l => (Use.leave l).shuts i
  | _ => none

/-- The thread has found that nobody owns the device. -/
def Pc.clear : Pc I → Bool
  | .audoutInitialize _ | .format _ | .exitFormat _ | .own _ => true
  | _ => false

/-- The stream in hand has initialised the device. -/
def Pc.started : Pc I → Option I
  | .format i | .own i | .owned i | .buffers i | .register i => some i
  | _ => none

/-- The thread has initialised the device, and no stream owns it for that. -/
def Pc.spare : Pc I → Bool
  | .format _ | .exitFormat _ | .own _ | .disowned _ _ | .exit _ _ => true
  | _ => false

/-- The `open` of the thread is to return `AAUDIO_ERROR_UNAVAILABLE`. -/
def Pc.refusing : Pc I → Prop
  | .refuse _ | .failed _ .unavailable => True
  | _ => False

/-- The thread is in an `open`. -/
def Pc.inOpen : Pc I → Prop
  | .opening _ | .owner _ | .audoutInitialize _ | .format _ | .exitFormat _ | .refuse
    _ | .own _ | .owned _
  | .buffers _ | .failed _ _ | .register _ => True
  | .lockReady _ u | .lockInit _ u | .lockSet _ u | .lock _ u => u ≠ .leave .close
  | .disown _ l | .disowned _ l | .exit _ l => l ≠ .close
  | .idle | .close _ | .closing _ | .closed _ => False

/-! ## What a step can do -/

/-- The steps of the thread `t`. -/
inductive Move [DecidableEq I] (t : T) (s : Bridge T I) :
    Pc I → Event I → Bridge T I → Pc I → Prop where
  | openNull : Move t s .idle (.openFails none) s .idle
  | open (b : Builder) : Move t s .idle .inner s (.opening b)
  | closeNull : Move t s .idle .closeFails s .idle
  | close (i : I) : Move t s .idle (.closes i) s (.close i)
  | refused (b : Builder) (e : AAudioError) : Move t s (.opening b) (.openFails (some e)) s .idle
  | allocate (b : Builder) {i : I} (hnew : s.streams i = none) :
      Move t s (.opening b) .inner { s with streams := Function.update s.streams i (some false) }
        (.lockReady i .take)
  | ready (i : I) (u : Use) (hready : s.gAudoutOwnerLockReady = true) :
      Move t s (.lockReady i u) .inner s (.lock i u)
  | unready (i : I) (u : Use) (hready : s.gAudoutOwnerLockReady = false) :
      Move t s (.lockReady i u) .unready s (.lockInit i u)
  | lockInit (i : I) (u : Use) :
      Move t s (.lockInit i u) .inner { s with gAudoutOwnerLock := none } (.lockSet i u)
  | lockSet (i : I) (u : Use) :
      Move t s (.lockSet i u) .inner { s with gAudoutOwnerLockReady := true } (.lock i u)
  | take (i : I) (hfree : s.gAudoutOwnerLock = none) :
      Move t s (.lock i .take) .inner { s with gAudoutOwnerLock := some t } (.owner i)
  | takeToLeave (i : I) (l : Leave) (hfree : s.gAudoutOwnerLock = none) :
      Move t s (.lock i (.leave l)) .inner { s with gAudoutOwnerLock := some t } (.disown i l)
  | turned (i : I) (howner : s.gAudoutOwner.isSome = true) :
      Move t s (.owner i) (.asks true) s (.refuse i)
  | free (i : I) (howner : s.gAudoutOwner = none) :
      Move t s (.owner i) (.asks false) s (.audoutInitialize i)
  | audoutInitialize (i : I) :
      Move t s (.audoutInitialize i) .initializes (s.setInitialized i true) (.format i)
  | audoutFails (i : I) : Move t s (.audoutInitialize i) .inner s (.refuse i)
  | format (i : I) : Move t s (.format i) .inner s (.own i)
  | badFormat (i : I) : Move t s (.format i) .inner s (.exitFormat i)
  | exitFormat (i : I) :
      Move t s (.exitFormat i) .exits (s.setInitialized i false) (.refuse i)
  | refuse (i : I) :
      Move t s (.refuse i) .inner { s with gAudoutOwnerLock := none } (.failed i .unavailable)
  | own (i : I) : Move t s (.own i) .inner { s with gAudoutOwner := some i } (.owned i)
  | owned (i : I) : Move t s (.owned i) .inner { s with gAudoutOwnerLock := none } (.buffers i)
  | buffers (i : I) : Move t s (.buffers i) .inner s (.register i)
  | noBuffers (i : I) : Move t s (.buffers i) .inner s (.lock i (.leave .giveUp))
  | giveUp (i : I) {owner : Option I}
      (howner : owner = if s.gAudoutOwner = some i then none else s.gAudoutOwner) :
      Move t s (.disown i .giveUp) .inner { s with gAudoutOwner := owner } (.disowned i .giveUp)
  | give (i : I) {owner : Option I}
      (howner : owner = if s.gAudoutOwner = some i then none else s.gAudoutOwner) :
      Move t s (.disown i .close) (.gives i) { s with gAudoutOwner := owner } (.disowned i .close)
  | disowned (i : I) (l : Leave) :
      Move t s (.disowned i l) .inner { s with gAudoutOwnerLock := none } (.exit i l)
  | exitOpen (i : I) : Move t s (.exit i .giveUp) .exits s (.failed i .noMemory)
  | exitClose (i : I) :
      Move t s (.exit i .close) .exits (s.setInitialized i false) (.closed i)
  | failed (i : I) (e : AAudioError) :
      Move t s (.failed i e) (.openFails (some e)) (s.free i) .idle
  | register (i : I) : Move t s (.register i) (.opened i) s .idle
  | valid (i : I) : Move t s (.close i) .inner s (.closing i)
  | invalid (i : I) (hstream : s.streams i = none) : Move t s (.close i) .closeFails s .idle
  | initialized (i : I) : Move t s (.closing i) .inner s (.lockReady i (.leave .close))
  | uninitialized (i : I) (hstream : s.streams i ≠ some true) :
      Move t s (.closing i) .inner s (.closed i)
  | closed (i : I) : Move t s (.closed i) (.closed i) (s.free i) .idle

/-- A step of the program is one of these. -/
theorem next_move [DecidableEq T] [DecidableEq I] {x : Choice I} {s s' : Bridge T I}
    {t t' : Thread T I} {e : Event I} (h : ownerNext x s t = some (e, s', t')) :
    Move t.self s t.pc e s' t'.pc ∧ t'.self = t.self := by
  obtain ⟨self, pc⟩ := t
  unfold ownerNext move at h
  dsimp only at h ⊢
  cases pc with
  | idle =>
      dsimp only at h
      cases hrequest : x.request with
      | openNull =>
          rw [hrequest] at h
          cases h
          exact ⟨.openNull, rfl⟩
      | «open» b =>
          rw [hrequest] at h
          cases h
          exact ⟨.open b, rfl⟩
      | closeNull =>
          rw [hrequest] at h
          cases h
          exact ⟨.closeNull, rfl⟩
      | close i =>
          rw [hrequest] at h
          cases h
          exact ⟨.close i, rfl⟩
  | opening b =>
      unfold openingStep move at h
      dsimp only at h
      split at h
      · cases h
        exact ⟨.refused b _, rfl⟩
      · split at h
        · cases h
        · split at h
          · rename_i hnew
            cases h
            exact ⟨.allocate b hnew, rfl⟩
          · cases h
  -- the lock of the owner is initialised without synchronisation
  | lockReady i u =>
      dsimp only at h
      split at h
      · rename_i hready
        cases h
        exact ⟨.ready i u hready, rfl⟩
      · rename_i hready
        cases h
        exact ⟨.unready i u (Bool.eq_false_iff.2 hready), rfl⟩
  | lockInit i u =>
      cases h
      exact ⟨.lockInit i u, rfl⟩
  | lockSet i u =>
      cases h
      exact ⟨.lockSet i u, rfl⟩
  | lock i u =>
      unfold lockStep move at h
      dsimp only at h
      split at h
      · rename_i hfree
        cases h
        cases u with
        | take => exact ⟨.take i hfree, rfl⟩
        | leave l => exact ⟨.takeToLeave i l hfree, rfl⟩
      · cases h
  | owner i =>
      dsimp only at h
      split at h
      · rename_i howner
        cases h
        exact ⟨.turned i howner, rfl⟩
      · rename_i howner
        cases h
        exact ⟨.free i (by simpa using howner), rfl⟩
  | audoutInitialize i =>
      dsimp only at h
      split at h
      · cases h
        exact ⟨.audoutInitialize i, rfl⟩
      · cases h
        exact ⟨.audoutFails i, rfl⟩
  | format i =>
      dsimp only at h
      split at h
      · cases h
        exact ⟨.format i, rfl⟩
      · cases h
        exact ⟨.badFormat i, rfl⟩
  | exitFormat i =>
      cases h
      exact ⟨.exitFormat i, rfl⟩
  | refuse i =>
      cases h
      exact ⟨.refuse i, rfl⟩
  | own i =>
      cases h
      exact ⟨.own i, rfl⟩
  | owned i =>
      cases h
      exact ⟨.owned i, rfl⟩
  | buffers i =>
      dsimp only at h
      split at h
      · cases h
        exact ⟨.buffers i, rfl⟩
      · cases h
        exact ⟨.noBuffers i, rfl⟩
  -- an open that fails and a close both give up the stream in this way
  | disown i l =>
      unfold disownStep move at h
      cases l with
      | giveUp =>
          cases h
          exact ⟨.giveUp i rfl, rfl⟩
      | close =>
          cases h
          exact ⟨.give i rfl, rfl⟩
  | disowned i l =>
      cases h
      exact ⟨.disowned i l, rfl⟩
  | exit i l =>
      cases l with
      | giveUp =>
          cases h
          exact ⟨.exitOpen i, rfl⟩
      | close =>
          cases h
          exact ⟨.exitClose i, rfl⟩
  | failed i e =>
      cases h
      exact ⟨.failed i e, rfl⟩
  | register i =>
      cases h
      exact ⟨.register i, rfl⟩
  | close i =>
      dsimp only at h
      split at h
      · cases h
        exact ⟨.valid i, rfl⟩
      · rename_i hstream
        cases h
        exact ⟨.invalid i (by simpa using hstream), rfl⟩
  | closing i =>
      dsimp only at h
      split at h
      · cases h
        exact ⟨.initialized i, rfl⟩
      · rename_i hstream
        cases h
        exact ⟨.uninitialized i hstream, rfl⟩
  | closed i =>
      cases h
      exact ⟨.closed i, rfl⟩

/-! ## The lock -/

section Lock

variable [DecidableEq I] {trace : List (T × Event I)} {t : T} {e : Event I}
  {s s' : Bridge T I} {pc pc' : Pc I} {at' : T → Pc I}

/-- Nobody is past `audout_owner_lock_init` before the lock is ready, and one thread makes it so. -/
structure LockInv (trace : List (T × Event I)) (s : Bridge T I) (at' : T → Pc I) : Prop where
  held : Held s.gAudoutOwnerLock fun t => (at' t).holds
  early : s.gAudoutOwnerLockReady = false → ∀ t, (at' t).early = true
  unclosed : s.gAudoutOwnerLockReady = false → ∀ i, ¬ Unclosed trace i
  unready : ∀ t, (at' t).initializing = true →
    s.gAudoutOwnerLockReady = false ∧ Seen (fun e => e.2 = .unready) trace
  alone : ∀ t u, (at' t).initializing = true → (at' u).initializing = true → t = u

/-- Only a thread that initialises the lock makes it ready. -/
theorem Move.ready_or (h : Move t s pc e s' pc') :
    s'.gAudoutOwnerLockReady = s.gAudoutOwnerLockReady ∨ pc.initializing = true := by
  cases h
  case lockSet => exact .inr rfl
  all_goals exact .inl rfl

/-- A lock that is not ready was not ready before. -/
theorem Move.unready_before (h : Move t s pc e s' pc') (hready : s'.gAudoutOwnerLockReady = false) :
    s.gAudoutOwnerLockReady = false := by
  cases h
  case lockSet => cases hready
  all_goals exact hready

/-- Only a `close`, or a lock that is ready, leads past `audout_owner_lock_init`. -/
theorem Move.early_after (h : Move t s pc e s' pc') (hready : s'.gAudoutOwnerLockReady = false)
    (hpc : pc.early = true) : pc'.early = true ∨ ∃ i, e = .closes i := by
  cases h
  case close i => exact .inr ⟨i, rfl⟩
  case ready i u hset =>
    rw [hset] at hready
    cases hready
  case lockSet => cases hready
  all_goals first | exact .inl rfl | exact absurd hpc Bool.false_ne_true

/-- A thread initialises the lock when it has found it not ready, or has already begun. -/
theorem Move.initializing_after (h : Move t s pc e s' pc') (hpc : pc'.initializing = true) :
    pc.initializing = true ∨ e = .unready ∧ s.gAudoutOwnerLockReady = false := by
  cases h
  case unready i u hready => exact .inr ⟨rfl, hready⟩
  case lockInit => exact .inl rfl
  all_goals cases hpc

omit [DecidableEq I] in
/-- Nobody has the lock before it is ready. -/
theorem LockInv.free (h : LockInv trace s at') (hready : s.gAudoutOwnerLockReady = false) :
    s.gAudoutOwnerLock = none := by
  refine Option.eq_none_iff_forall_ne_some.2 fun t hlock => ?_
  have hearly := h.early hready t
  have hholds : (at' t).holds = true := (h.held t).1 hlock
  generalize at' t = pc at hearly hholds
  cases pc <;> first | exact Bool.false_ne_true hearly | exact Bool.false_ne_true hholds

/-- A step changes the lock as its place says. -/
theorem LockInv.held_step [DecidableEq T] (h : LockInv trace s at')
    (hmove : Move t s (at' t) e s' pc') :
    Held s'.gAudoutOwnerLock fun u => (Function.update at' t pc' u).holds := by
  have hheld := h.held
  have hunready := h.unready t
  generalize hpc : at' t = pc at hmove hunready
  cases hmove
  case take i hfree =>
    rw [hfree] at hheld
    exact hheld.take rfl
  case takeToLeave i l hfree =>
    rw [hfree] at hheld
    exact hheld.take rfl
  case lockInit i u =>
    rw [h.free (hunready rfl).1] at hheld
    exact hheld.keep (congrArg Pc.holds hpc).symm
  case refuse | owned | disowned => exact hheld.free (congrArg Pc.holds hpc) rfl
  all_goals exact hheld.keep (congrArg Pc.holds hpc).symm

theorem LockInv.step [DecidableEq T] (h : LockInv trace s at') (hmove : Move t s (at' t) e s' pc')
    (hproper : Proper trace (t, e)) :
    LockInv (trace ++ [(t, e)]) s' (Function.update at' t pc') where
  held := h.held_step hmove
  early hready u := by
    have hbefore := hmove.unready_before hready
    by_cases hu : u = t
    · subst hu
      rw [Function.update_self]
      rcases hmove.early_after hready (h.early hbefore u) with hearly | ⟨i, rfl⟩
      · exact hearly
      · exact absurd (hproper.2 i rfl) (h.unclosed hbefore i)
    · rw [Function.update_of_ne hu]
      exact h.early hbefore u
  unclosed hready i := by
    have hbefore := hmove.unready_before hready
    have hearly := h.early hbefore t
    rw [unclosed_snoc]
    rintro (rfl | ⟨hunclosed, -⟩)
    · -- `open` returns a stream from a place behind the lock
      generalize at' t = pc at hmove hearly
      cases hmove
      cases hearly
    · exact h.unclosed hbefore i hunclosed
  unready u hu := by
    rw [seen_snoc]
    by_cases hut : u = t
    · subst hut
      rw [Function.update_self] at hu
      rcases hmove.initializing_after hu with hbegun | ⟨rfl, hready⟩
      · obtain ⟨hready, hseen⟩ := h.unready u hbegun
        refine ⟨?_, .inl hseen⟩
        generalize at' u = pc at hmove hbegun
        cases hmove
        case lockInit => exact hready
        all_goals first | exact absurd hu Bool.false_ne_true | exact absurd hbegun Bool.false_ne_true
      · refine ⟨?_, .inr rfl⟩
        generalize at' u = pc at hmove
        cases hmove
        exact hready
    · rw [Function.update_of_ne hut] at hu
      obtain ⟨hready, hseen⟩ := h.unready u hu
      refine ⟨?_, .inl hseen⟩
      rcases hmove.ready_or with hsame | hbegun
      · rw [hsame]
        exact hready
      · exact absurd (h.alone u t hu hbegun) hut
  alone u v hu hv := by
    -- whoever finds the lock not ready is the first, so no other thread has begun
    have hother : ∀ w, w ≠ t → (at' w).initializing = true → pc'.initializing = true → w = t := by
      intro w hw hwbegun hpc'
      rcases hmove.initializing_after hpc' with hbegun | ⟨rfl, -⟩
      · exact h.alone w t hwbegun hbegun
      · exact absurd (h.unready w hwbegun).2 (hproper.1 rfl)
    by_cases hut : u = t <;> by_cases hvt : v = t
    · exact hut.trans hvt.symm
    · subst hut
      rw [Function.update_self] at hu
      rw [Function.update_of_ne hvt] at hv
      exact (hother v hvt hv hu).symm
    · subst hvt
      rw [Function.update_self] at hv
      rw [Function.update_of_ne hut] at hu
      exact hother u hut hu hv
    · rw [Function.update_of_ne hut] at hu
      rw [Function.update_of_ne hvt] at hv
      exact h.alone u v hu hv

end Lock

/-! ## The streams -/

section Streams

variable [DecidableEq I] {trace : List (T × Event I)} {t : T} {e : Event I}
  {s s' : Bridge T I} {pc pc' : Pc I} {at' : T → Pc I} {i : I}

/-- Every stream in hand is allocated and in nobody else's hand, and it is open when it is to be
closed. -/
structure StreamInv (trace : List (T × Event I)) (s : Bridge T I) (at' : T → Pc I) : Prop where
  distinct : Distinct fun t => (at' t).stream
  allocated : ∀ t i, (at' t).stream = some i → s.streams i ≠ none
  started : ∀ t i, (at' t).started = some i → s.streams i = some true
  opened : ∀ i, IsOpen trace i → s.streams i = some true
  shuts : ∀ t i, (at' t).stream = some i → (IsOpen trace i ↔ (at' t).shuts = some i)
  unclosed : ∀ i, Unclosed trace i → IsOpen trace i ∧ ∀ t, (at' t).stream ≠ some i

/-- A thread has just allocated the stream, and has not opened it. -/
structure Fresh (s : Bridge T I) (e : Event I) (s' : Bridge T I) (pc' : Pc I) (i : I) : Prop where
  new : s.streams i = none
  inner : e = .inner
  allocated : s'.streams i = some false
  shuts : pc'.shuts = none

/-- A thread has just called `close` for the stream. -/
structure Closes (s : Bridge T I) (e : Event I) (s' : Bridge T I) (pc' : Pc I) (i : I) : Prop where
  closes : e = .closes i
  same : s' = s
  shuts : pc'.shuts = some i

/-- A stream in hand was so before, or has been allocated, or is to be closed. -/
theorem Move.got (h : Move t s pc e s' pc') (hi : pc'.stream = some i) :
    pc.stream = some i ∨ Fresh s e s' pc' i ∨ Closes s e s' pc' i := by
  cases h
  case allocate b j hnew =>
    cases hi
    exact .inr (.inl ⟨hnew, rfl, Function.update_self .., rfl⟩)
  case close j =>
    cases hi
    exact .inr (.inr ⟨rfl, rfl, rfl⟩)
  all_goals first | exact .inl hi | exact absurd hi nofun

/-- A step changes no stream but the one in hand. -/
theorem Move.streams_other (h : Move t s pc e s' pc') (hi : pc.stream ≠ some i)
    (hi' : pc'.stream ≠ some i) : s'.streams i = s.streams i := by
  cases h
  case allocate | audoutInitialize | exitFormat | exitClose | failed | closed =>
    first
      | exact Function.update_of_ne (fun heq => hi (congrArg some heq.symm)) ..
      | exact Function.update_of_ne (fun heq => hi' (congrArg some heq.symm)) ..
  all_goals rfl

/-- A stream that stays in hand stays allocated. -/
theorem Move.streams_kept (h : Move t s pc e s' pc') (hi : pc.stream = some i)
    (hi' : pc'.stream = some i) (hallocated : s.streams i ≠ none) : s'.streams i ≠ none := by
  cases h
  case allocate => cases hi
  case audoutInitialize | exitFormat | exitClose =>
    cases hi
    exact ne_of_eq_of_ne (Function.update_self ..) (Option.some_ne_none _)
  case failed | closed => cases hi'
  all_goals exact hallocated

/-- A stream that is to be closed stays as it is. -/
theorem Move.streams_shuts (h : Move t s pc e s' pc') (hi : pc.shuts = some i) :
    s'.streams i = s.streams i := by
  cases h
  case allocate | audoutInitialize | exitFormat | exitClose | failed | closed => cases hi
  all_goals rfl

omit [DecidableEq I] in
theorem Pc.stream_of_started (h : pc.started = some i) : pc.stream = some i := by
  cases pc <;> first | exact h | cases h

/-- A stream that has initialised the device has just done so, or had before. -/
theorem Move.started_after (h : Move t s pc e s' pc') (hi : pc'.started = some i) :
    s'.streams i = some true ∨ pc.started = some i ∧ s'.streams i = s.streams i := by
  cases h
  case audoutInitialize =>
    cases hi
    exact .inl (Function.update_self ..)
  all_goals first | exact .inr ⟨hi, rfl⟩ | cases hi

/-- A stream is opened from where it has initialised the device, and is given out of hand. -/
theorem Move.opened_at (h : Move t s pc (.opened i) s' pc') :
    pc.started = some i ∧ s' = s ∧ pc'.stream = none := by
  cases h
  exact ⟨rfl, rfl, rfl⟩

/-- A stream is given up by the thread that has it in hand. -/
theorem Move.gives_at (h : Move t s pc (.gives i) s' pc') : pc.stream = some i := by
  cases h
  rfl

/-- A stream that stays in hand is to be closed as before, until it is given up. -/
theorem Move.shuts_after (h : Move t s pc e s' pc') (hi : pc.stream = some i)
    (hi' : pc'.stream = some i) (hopen : pc.shuts = some i → s.streams i = some true) :
    pc'.shuts = some i ↔ pc.shuts = some i ∧ e ≠ .gives i := by
  cases h
  case uninitialized j hstream =>
    cases hi
    exact absurd (hopen rfl) hstream
  case give j howner =>
    cases hi
    exact iff_of_false nofun fun hgives => hgives.2 rfl
  case allocate => cases hi
  case close => cases hi
  all_goals first | exact ⟨fun hshuts => ⟨hshuts, nofun⟩, fun hshuts => hshuts.1⟩ | cases hi'

variable (h : StreamInv trace s at') (hmove : Move t s (at' t) e s' pc')
  (hproper : Proper trace (t, e))

include h hmove hproper

/-- A stream that a thread gets is in nobody else's hand. -/
theorem StreamInv.got_alone (hi : pc'.stream = some i) {u : T} (hu : u ≠ t) :
    (at' u).stream ≠ some i := by
  intro hui
  rcases hmove.got hi with hold | hfresh | hcloses
  · exact hu (h.distinct u t i hui hold)
  · exact h.allocated u i hui hfresh.new
  · exact (h.unclosed i (hproper.2 i hcloses.closes)).2 u hui

/-- A step of another thread leaves a stream in hand as it is. -/
theorem StreamInv.streams_of_other {u : T} (hu : u ≠ t) (hui : (at' u).stream = some i) :
    s'.streams i = s.streams i :=
  hmove.streams_other (fun hi => hu (h.distinct u t i hui hi))
    fun hi => h.got_alone hmove hproper hi hu hui

omit hproper in
/-- A step of another thread neither opens a stream in hand nor gives it up. -/
theorem StreamInv.isOpen_of_other {u : T} (hu : u ≠ t) (hui : (at' u).stream = some i) :
    IsOpen (trace ++ [(t, e)]) i ↔ IsOpen trace i := by
  rw [isOpen_snoc]
  constructor
  · rintro (rfl | ⟨hopen, -⟩)
    · exact absurd (h.distinct u t i hui (Pc.stream_of_started hmove.opened_at.1)) hu
    · exact hopen
  · refine fun hopen => .inr ⟨hopen, ?_⟩
    rintro rfl
    exact hu (h.distinct u t i hui hmove.gives_at)

omit hproper in
/-- A stream that is open keeps its `audout_initialized`. -/
theorem StreamInv.streams_of_open (hopen : IsOpen trace i) : s'.streams i = s.streams i := by
  have hstream := h.opened i hopen
  by_cases hi : (at' t).stream = some i
  · exact hmove.streams_shuts ((h.shuts t i hi).1 hopen)
  · by_cases hi' : pc'.stream = some i
    · rcases hmove.got hi' with hold | hfresh | hcloses
      · exact absurd hold hi
      · rw [hfresh.new] at hstream
        cases hstream
      · rw [hcloses.same]
    · exact hmove.streams_other hi hi'

theorem StreamInv.step [DecidableEq T] : StreamInv (trace ++ [(t, e)]) s'
    (Function.update at' t pc') where
  distinct := h.distinct.update fun _ hi _ hu => h.got_alone hmove hproper hi hu
  allocated u i hui := by
    by_cases hu : u = t
    · subst hu
      rw [Function.update_self] at hui
      -- a thread gets a stream by allocating it or by beginning to close it
      rcases hmove.got hui with hold | hfresh | hcloses
      · exact hmove.streams_kept hold hui (h.allocated u i hold)
      · rw [hfresh.allocated]
        exact Option.some_ne_none _
      · rw [hcloses.same, h.opened i (h.unclosed i (hproper.2 i hcloses.closes)).1]
        exact Option.some_ne_none _
    · rw [Function.update_of_ne hu] at hui
      rw [h.streams_of_other hmove hproper hu hui]
      exact h.allocated u i hui
  started u i hui := by
    by_cases hu : u = t
    · subst hu
      rw [Function.update_self] at hui
      rcases hmove.started_after hui with hnow | ⟨hbefore, hsame⟩
      · exact hnow
      · rw [hsame]
        exact h.started u i hbefore
    · rw [Function.update_of_ne hu] at hui
      rw [h.streams_of_other hmove hproper hu (Pc.stream_of_started hui)]
      exact h.started u i hui
  opened i hopen := by
    rw [isOpen_snoc] at hopen
    rcases hopen with rfl | ⟨hopen, -⟩
    · -- this step opened the stream
      obtain ⟨hstarted, rfl, -⟩ := hmove.opened_at
      exact h.started t i hstarted
    · -- an open stream keeps its flag whatever the step does
      rw [h.streams_of_open hmove hopen]
      exact h.opened i hopen
  shuts u i hui := by
    by_cases hu : u = t
    · subst hu
      rw [Function.update_self] at hui ⊢
      rw [isOpen_snoc]
      rcases hmove.got hui with hold | hfresh | hcloses
      · have hshuts := h.shuts u i hold
        rw [hmove.shuts_after hold hui fun hpc => h.opened i (hshuts.2 hpc), hshuts]
        refine or_iff_right ?_
        rintro rfl
        rw [hmove.opened_at.2.2] at hui
        cases hui
      · -- a record that was just allocated is of a stream that was never open
        have hnot : ¬ IsOpen trace i := by
          intro hopen
          have hstream := h.opened i hopen
          rw [hfresh.new] at hstream
          cases hstream
        rw [hfresh.inner, hfresh.shuts]
        exact iff_of_false (fun hopen => hopen.elim nofun fun hopen => hnot hopen.1) nofun
      · have hopen := (h.unclosed i (hproper.2 i hcloses.closes)).1
        rw [hcloses.closes, hcloses.shuts]
        exact iff_of_true (.inr ⟨hopen, nofun⟩) rfl
    · rw [Function.update_of_ne hu] at hui ⊢
      rw [h.isOpen_of_other hmove hu hui]
      exact h.shuts u i hui
  unclosed i hunclosed := by
    rw [unclosed_snoc] at hunclosed
    rw [isOpen_snoc]
    rcases hunclosed with rfl | ⟨hunclosed, hnot⟩
    · obtain ⟨hstarted, -, hnone⟩ := hmove.opened_at
      refine ⟨.inl rfl, fun u hui => ?_⟩
      by_cases hu : u = t
      · subst hu
        rw [Function.update_self, hnone] at hui
        cases hui
      · rw [Function.update_of_ne hu] at hui
        exact hu (h.distinct u t i hui (Pc.stream_of_started hstarted))
    · -- a stream that was unclosed before still is unless this step gives it to a close
      obtain ⟨hopen, hnobody⟩ := h.unclosed i hunclosed
      have hstream := h.opened i hopen
      refine ⟨.inr ⟨hopen, ?_⟩, fun u hui => ?_⟩
      · rintro rfl
        exact hnobody t hmove.gives_at
      · by_cases hu : u = t
        · subst hu
          rw [Function.update_self] at hui
          rcases hmove.got hui with hold | hfresh | hcloses
          · exact hnobody u hold
          · rw [hfresh.new] at hstream
            cases hstream
          · exact hnot hcloses.closes
        · rw [Function.update_of_ne hu] at hui
          exact hnobody u hui

end Streams

/-! ## The owner -/

section OwnerSteps

variable [DecidableEq I] {trace : List (T × Event I)} {t : T} {e : Event I}
  {s s' : Bridge T I} {pc pc' : Pc I} {at' : T → Pc I} {i : I}

/-- The owner is the stream that is open or on its way to be. -/
structure OwnerInv (trace : List (T × Event I)) (s : Bridge T I) (at' : T → Pc I) : Prop where
  owner : ∀ i, s.gAudoutOwner = some i ↔ IsOpen trace i ∨ ∃ t, (at' t).opens = some i
  clear : ∀ t, (at' t).clear = true → s.gAudoutOwner = none

/-- A stream is open or on its way to be as before. -/
def Event.Quiet (e : Event I) : Prop := ∀ i, e ≠ .opened i ∧ e ≠ .gives i

/-- What a step does to the owner. -/
inductive OwnerMove (s : Bridge T I) : Pc I → Event I → Bridge T I → Pc I → Prop where
  | same {pc : Pc I} {e : Event I} {s' : Bridge T I} {pc' : Pc I}
      (howner : s'.gAudoutOwner = s.gAudoutOwner) (hopens : pc'.opens = pc.opens)
      (hquiet : e.Quiet) (hclear : pc'.clear = true → pc.clear = true ∨ s.gAudoutOwner = none) :
      OwnerMove s pc e s' pc'
  | own (i : I) : OwnerMove s (.own i) .inner { s with gAudoutOwner := some i } (.owned i)
  | register (i : I) : OwnerMove s (.register i) (.opened i) s .idle
  | leave (i : I) (l : Leave) {e : Event I} {s' : Bridge T I}
      (howner : s'.gAudoutOwner = if s.gAudoutOwner = some i then none else s.gAudoutOwner)
      (hevent : e = if l = .close then .gives i else .inner) :
      OwnerMove s (.disown i l) e s' (.disowned i l)

theorem Move.owner (h : Move t s pc e s' pc') : OwnerMove s pc e s' pc' := by
  cases h
  case own i => exact .own i
  case register i => exact .register i
  case giveUp i owner howner => exact .leave i .giveUp howner rfl
  case give i owner howner => exact .leave i .close howner rfl
  case free i howner => exact .same rfl rfl (fun _ => ⟨nofun, nofun⟩) fun _ => .inr howner
  case audoutInitialize | format | badFormat =>
    exact .same rfl rfl (fun _ => ⟨nofun, nofun⟩) fun _ => .inl rfl
  all_goals exact .same rfl rfl (fun _ => ⟨nofun, nofun⟩) nofun

omit [DecidableEq I] in
theorem Pc.stream_of_opens (h : pc.opens = some i) : pc.stream = some i := by
  cases pc with
  | owned | buffers | register => exact h
  | lockReady j u | lockInit j u | lockSet j u | lock j u =>
      cases u with
      | take => cases h
      | leave l => cases l <;> first | exact h | cases h
  | disown j l => cases l <;> first | exact h | cases h
  | _ => cases h

omit [DecidableEq I] in
theorem Pc.holds_of_clear (h : pc.clear = true) : pc.holds = true := by
  cases pc <;> first | rfl | exact absurd h Bool.false_ne_true

omit [DecidableEq I] in
/-- The owner is the stream that a thread is to give up. -/
theorem OwnerInv.owner_of_disown {l : Leave} (h : OwnerInv trace s at')
    (hstreams : StreamInv trace s at') (hpc : at' t = .disown i l) : s.gAudoutOwner = some i := by
  refine (h.owner i).2 ?_
  cases l with
  | giveUp => exact .inr ⟨t, congrArg Pc.opens hpc⟩
  | close => exact .inl ((hstreams.shuts t i (congrArg Pc.stream hpc)).2 (congrArg Pc.shuts hpc))

theorem OwnerInv.step [DecidableEq T] (h : OwnerInv trace s at') (hlock : LockInv trace s at')
    (hstreams : StreamInv trace s at') (hmove : Move t s (at' t) e s' pc') :
    OwnerInv (trace ++ [(t, e)]) s' (Function.update at' t pc') := by
  have howner := hmove.owner
  generalize hpc : at' t = pc at howner
  cases howner with
  | same howner hopens hquiet hclear =>
      refine ⟨fun i => ?_, fun u hu => ?_⟩
      · have hopen : IsOpen (trace ++ [(t, e)]) i ↔ IsOpen trace i := by
          rw [isOpen_snoc, or_iff_right (hquiet i).1, and_iff_left (hquiet i).2]
        have hsame : ∀ u, (Function.update at' t pc' u).opens = (at' u).opens := by
          intro u
          by_cases hu : u = t
          · subst hu
            rw [Function.update_self, hopens, hpc]
          · rw [Function.update_of_ne hu]
        simp only [howner, hopen, hsame]
        exact h.owner i
      · rw [howner]
        by_cases hut : u = t
        · subst hut
          rw [Function.update_self] at hu
          rcases hclear hu with hbefore | hnone
          · rw [← hpc] at hbefore
            exact h.clear u hbefore
          · exact hnone
        · rw [Function.update_of_ne hut] at hu
          exact h.clear u hu
  -- the owner was empty when this thread looked, and the lock kept it so
  | own i =>
      have hnone : s.gAudoutOwner = none := h.clear t (congrArg Pc.clear hpc)
      refine ⟨fun j => ?_, fun u hu => ?_⟩
      · have hnobody := h.owner j
        rw [hnone, iff_comm, iff_false_right nofun] at hnobody
        push Not at hnobody
        constructor
        · rintro ⟨⟩
          exact .inr ⟨t, by rw [Function.update_self]; rfl⟩
        · rintro (hopen | ⟨u, hu⟩)
          · rw [isOpen_snoc] at hopen
            exact hopen.elim nofun fun hopen => absurd hopen.1 hnobody.1
          · by_cases hut : u = t
            · subst hut
              rw [Function.update_self] at hu
              exact hu
            · rw [Function.update_of_ne hut] at hu
              exact absurd hu (hnobody.2 u)
      · by_cases hut : u = t
        · subst hut
          rw [Function.update_self] at hu
          cases hu
        · -- the lock is held here, so nobody else has looked at the owner
          rw [Function.update_of_ne hut] at hu
          exact absurd (hlock.held.unique (Pc.holds_of_clear hu) (congrArg Pc.holds hpc)) hut
  -- the stream goes from being opened to being open, and the owner stays
  | register i =>
      refine ⟨fun j => ?_, fun u hu => ?_⟩
      · rw [h.owner j, isOpen_snoc]
        constructor
        · rintro (hopen | ⟨u, hu⟩)
          · exact .inl (.inr ⟨hopen, nofun⟩)
          · by_cases hut : u = t
            · subst hut
              rw [hpc] at hu
              cases hu
              exact .inl (.inl rfl)
            · exact .inr ⟨u, by rw [Function.update_of_ne hut]; exact hu⟩
        · rintro ((heq | ⟨hopen, -⟩) | ⟨u, hu⟩)
          · cases heq
            exact .inr ⟨t, congrArg Pc.opens hpc⟩
          · exact .inl hopen
          · by_cases hut : u = t
            · subst hut
              rw [Function.update_self] at hu
              cases hu
            · rw [Function.update_of_ne hut] at hu
              exact .inr ⟨u, hu⟩
      · by_cases hut : u = t
        · subst hut
          rw [Function.update_self] at hu
          cases hu
        · rw [Function.update_of_ne hut] at hu
          exact h.clear u hu
  | leave i l howner hevent =>
      have hown := h.owner_of_disown hstreams hpc
      rw [hown, if_pos rfl] at howner
      -- there is one owner, so every stream that is open or being opened is `i`
      have honly : ∀ j, IsOpen trace j ∨ (∃ u, (at' u).opens = some j) → j = i := by
        intro j hj
        have hj := (h.owner j).2 hj
        rw [hown] at hj
        exact (Option.some.inj hj).symm
      refine ⟨fun j => ?_, fun u hu => howner⟩
      rw [howner]
      refine iff_of_false nofun ?_
      rintro (hopen | ⟨u, hu⟩)
      · rw [isOpen_snoc, hevent] at hopen
        have hshuts := hstreams.shuts t i (congrArg Pc.stream hpc)
        rw [hpc] at hshuts
        cases l with
        -- an open that failed: the stream has not been open
        | giveUp =>
            rcases hopen with hopen | ⟨hopen, -⟩
            · cases hopen
            · cases honly j (.inl hopen)
              cases hshuts.1 hopen
        | close =>
            rcases hopen with hopen | ⟨hopen, hnot⟩
            · cases hopen
            · cases honly j (.inl hopen)
              exact hnot rfl
      · by_cases hut : u = t
        · subst hut
          rw [Function.update_self] at hu
          cases hu
        · rw [Function.update_of_ne hut] at hu
          cases honly j (.inr ⟨u, hu⟩)
          exact hut (hstreams.distinct u t i (Pc.stream_of_opens hu) (congrArg Pc.stream hpc))

/-! ## The sessions -/

/-- The device is initialised once for its owner. -/
def Bridge.ownerSession (s : Bridge T I) : Nat := if s.gAudoutOwner = none then 0 else 1

/-- A session is the owner's or in the hand of a thread, before a step and after it. -/
theorem Move.session (h : Move t s pc e s' pc') (hclear : pc.clear = true → s.gAudoutOwner = none)
    (hdisown : ∀ i l, pc = .disown i l → s.gAudoutOwner = some i) :
    e.session + s.ownerSession + pc.spare.toNat = s'.ownerSession + pc'.spare.toNat := by
  cases h
  case own i =>
    unfold Bridge.ownerSession
    rw [hclear rfl]
    rfl
  case giveUp i owner howner =>
    rw [hdisown i .giveUp rfl, if_pos rfl] at howner
    unfold Bridge.ownerSession
    rw [hdisown i .giveUp rfl, howner]
    rfl
  case give i owner howner =>
    rw [hdisown i .close rfl, if_pos rfl] at howner
    unfold Bridge.ownerSession
    rw [hdisown i .close rfl, howner]
    rfl
  all_goals
    show _ + (s.ownerSession : Int) + _ = (s.ownerSession : Int) + _
    simp only [Event.session, Pc.spare, Bool.toNat_true, Bool.toNat_false]
    omega

end OwnerSteps

/-! ## All steps -/

section Runs

variable [DecidableEq T] [DecidableEq I] {trace : List (T × Event I)} {t : T} {e : Event I}
  {c d : Config T (Bridge T I) (Thread T I)} {pc pc' : Pc I} {s s' : Bridge T I}

/-- Where a thread is. -/
def pcs (c : Config T (Bridge T I) (Thread T I)) (t : T) : Pc I := (c.locals t).pc

/-- The invariant of the threads that open and close streams. -/
structure Inv (trace : List (T × Event I)) (c : Config T (Bridge T I) (Thread T I)) : Prop where
  self : ∀ t, (c.locals t).self = t
  lock : LockInv trace c.shared (pcs c)
  streams : StreamInv trace c.shared (pcs c)
  owner : OwnerInv trace c.shared (pcs c)
  turned : ∀ t, Turned t trace → (pcs c t).refusing
  sessions : ∃ n, Summed (fun t => (pcs c t).spare.toNat) n ∧
    sessions trace = c.shared.ownerSession + n

omit [DecidableEq T] in
/-- An `open` that has found an owner returns `AAUDIO_ERROR_UNAVAILABLE`. -/
theorem Move.refusing_after (h : Move t s pc e s' pc') (hpc : pc.refusing) :
    pc'.refusing ∨ e = .openFails (some .unavailable) := by
  cases h
  case refuse => exact .inl trivial
  case failed i e =>
    cases e with
    | unavailable => exact .inr rfl
    | illegalArgument | unimplemented | noMemory => exact hpc.elim
  all_goals exact hpc.elim

omit [DecidableEq T] in
theorem Move.refusing_of_asks (h : Move t s pc (.asks true) s' pc') : pc'.refusing := by
  cases h
  exact trivial

omit [DecidableEq T] in
/-- A thread that returns has nothing more to return. -/
theorem Move.refusing_of_answers (h : Move t s pc e s' pc') (hpc : pc.refusing) (he : e.answers) :
    e = .openFails (some .unavailable) := by
  cases h
  case failed i e =>
    cases e with
    | unavailable => rfl
    | illegalArgument | unimplemented | noMemory => exact hpc.elim
  all_goals first | exact he.elim | exact hpc.elim

omit [DecidableEq T] in
/-- A step that looks at the owner tells whether there is one. -/
theorem Move.owner_of_asks (h : Move t s pc (.asks false) s' pc') : s.gAudoutOwner = none := by
  cases h
  assumption

theorem Inv.step (h : Inv trace c) (hstep : Step ownership c (t, e) d)
    (hproper : Proper trace (t, e)) : Inv (trace ++ [(t, e)]) d := by
  cases hstep with
  | @mk _ _ _ s l hnext =>
      obtain ⟨hmove, hself⟩ := next_move hnext
      rw [h.self t] at hmove hself
      have hpcs : pcs (c.set t s l) = Function.update (pcs c) t l.pc := by
        funext u
        exact (Function.apply_update (fun _ (l : Thread T I) => l.pc) c.locals t l u)
      refine ⟨fun u => ?_, ?_, ?_, ?_, fun u hu => ?_, ?_⟩
      · by_cases hu : u = t
        · subst hu
          rw [Config.set_locals_self]
          exact hself
        · rw [Config.set_locals_other _ hu]
          exact h.self u
      · rw [hpcs]
        exact h.lock.step hmove hproper
      · rw [hpcs]
        exact h.streams.step hmove hproper
      · rw [hpcs]
        exact h.owner.step h.lock h.streams hmove
      · rw [hpcs]
        rw [turned_snoc] at hu
        by_cases hut : u = t
        · subst hut
          rw [Function.update_self]
          rcases hu with ⟨-, rfl⟩ | ⟨hturned, hnot⟩
          · exact hmove.refusing_of_asks
          · rcases hmove.refusing_after (h.turned u hturned) with hafter | rfl
            · exact hafter
            · exact absurd ⟨rfl, trivial⟩ hnot
        · rw [Function.update_of_ne hut]
          rcases hu with ⟨heq, -⟩ | ⟨hturned, -⟩
          · exact absurd heq.symm hut
          · exact h.turned u hturned
      · obtain ⟨n, hsummed, hsessions⟩ := h.sessions
        -- sessions that are spare with some thread are counted along
        obtain ⟨m, hsummed', hcount⟩ := hsummed.update (w := fun pc : Pc I => pc.spare.toNat) t l.pc
        have hsession := hmove.session (h.owner.clear t)
          fun i l hpc => h.owner.owner_of_disown h.streams hpc
        refine ⟨m, ?_, ?_⟩
        · rw [hpcs]
          exact hsummed'
        · rw [sessions_snoc, hsessions]
          have hcount : (m : Int) + (pcs c t).spare.toNat = n + l.pc.spare.toNat := by
            exact_mod_cast hcount
          have hsession : e.session + c.shared.ownerSession + ((pcs c t).spare.toNat : Int) =
            s.ownerSession + l.pc.spare.toNat := hsession
          show _ = (s.ownerSession : Int) + m
          omega

omit [DecidableEq T] [DecidableEq I] in
theorem Initial.inv (h : Initial c) : Inv [] c where
  self := h.self
  lock := by
    have hpc : ∀ t, pcs c t = .idle := h.idle
    rw [h.shared]
    refine ⟨fun t => ?_, fun _ t => ?_, fun _ i => not_since_nil, fun t ht => ?_, fun t u ht => ?_⟩
    · simp [hpc, Pc.holds]
    · rw [hpc]
      rfl
    · rw [hpc] at ht
      cases ht
    · rw [hpc] at ht
      cases ht
  streams := by
    have hpc : ∀ t, pcs c t = .idle := h.idle
    refine ⟨fun t u i ht => ?_, fun t i ht => ?_, fun t i ht => ?_, fun i hi =>
      ?_, fun t i ht => ?_,
      fun i hi => ?_⟩
    · dsimp only at ht
      rw [hpc] at ht
      cases ht
    · rw [hpc] at ht
      cases ht
    · rw [hpc] at ht
      cases ht
    · exact absurd hi not_since_nil
    · rw [hpc] at ht
      cases ht
    · exact absurd hi not_since_nil
  owner := by
    have hpc : ∀ t, pcs c t = .idle := h.idle
    rw [h.shared]
    refine ⟨fun i => iff_of_false nofun ?_, fun t ht => rfl⟩
    rintro (hopen | ⟨t, ht⟩)
    · exact not_since_nil hopen
    · rw [hpc] at ht
      cases ht
  turned t ht := absurd ht not_since_nil
  sessions := by
    refine ⟨0, summed_zero fun t => ?_, ?_⟩
    · rw [show pcs c t = .idle from h.idle t]
      rfl
    · rw [h.shared]
      rfl

/-! ## One owner -/

/-- At most one stream is open; an `open` that looks at the owner while one is returns
`AAUDIO_ERROR_UNAVAILABLE`; nobody owns the device when no stream is open and no `open` is in
progress; and when no call is in progress the device has been initialised as often as streams are
open. -/
structure OneOwner (trace : List (T × Event I)) (d : Config T (Bridge T I) (Thread T I)) :
    Prop where
  one : ∀ i j, IsOpen trace i → IsOpen trace j → i = j
  asks : Always (fun before e => e.2 = .asks false → ∀ i, ¬ IsOpen before i) trace
  unavailable : Always (fun before e => e.2.answers → Turned e.1 before →
    e.2 = .openFails (some .unavailable)) trace
  owner : (∀ i, ¬ IsOpen trace i) → (∀ t, ¬ (pcs d t).inOpen) → d.shared.gAudoutOwner = none
  sessions : (∀ t, pcs d t = .idle) → sessions trace = {i | IsOpen trace i}.ncard

omit [DecidableEq T] [DecidableEq I] in
theorem Pc.inOpen_of_opens {i : I} (h : pc.opens = some i) : pc.inOpen := by
  cases pc with
  | owned | buffers | register => trivial
  | lockReady j u | lockInit j u | lockSet j u | lock j u =>
      rintro rfl
      cases h
  | disown j l =>
      rintro rfl
      cases h
  | _ => cases h

omit [DecidableEq T] [DecidableEq I] in
/-- The streams that are open are counted by the session of the owner, when no thread is in a
call. -/
theorem OwnerInv.card_open {at' : T → Pc I} (h : OwnerInv trace s at')
    (hidle : ∀ t, at' t = .idle) :
    {i | IsOpen trace i}.ncard = s.ownerSession := by
  have hiff : ∀ i, IsOpen trace i ↔ s.gAudoutOwner = some i := by
    intro i
    rw [h.owner i]
    refine (or_iff_left ?_).symm
    rintro ⟨t, ht⟩
    rw [hidle t] at ht
    cases ht
  unfold Bridge.ownerSession
  cases howner : s.gAudoutOwner with
  | none =>
      have hempty : {i | IsOpen trace i} = ∅ := by
        refine Set.eq_empty_of_forall_notMem fun i hi => ?_
        rw [Set.mem_ofPred_eq, hiff, howner] at hi
        cases hi
      rw [hempty, Set.ncard_empty]
      rfl
  | some i =>
      have hsingle : {i | IsOpen trace i} = {i} := by
        ext j
        rw [Set.mem_ofPred_eq, hiff, howner, Set.mem_singleton_iff, Option.some_inj]
        exact eq_comm
      rw [hsingle, Set.ncard_singleton]
      rfl

omit [DecidableEq T] [DecidableEq I] in
/-- The invariant says what is wanted of the state. -/
theorem Inv.oneOwner (h : Inv trace d)
    (hasks : Always (fun before e => e.2 = .asks false → ∀ i, ¬ IsOpen before i) trace)
    (hunavailable : Always (fun before e => e.2.answers → Turned e.1 before →
      e.2 = .openFails (some .unavailable)) trace) : OneOwner trace d where
  one i j hi hj := by
    have hi := (h.owner.owner i).2 (.inl hi)
    have hj := (h.owner.owner j).2 (.inl hj)
    exact Option.some.inj (hi.symm.trans hj)
  asks := hasks
  unavailable := hunavailable
  owner hnone hout := by
    refine Option.eq_none_iff_forall_ne_some.2 fun i hi => ?_
    rcases (h.owner.owner i).1 hi with hopen | ⟨t, ht⟩
    · exact hnone i hopen
    · exact hout t (Pc.inOpen_of_opens ht)
  sessions hidle := by
    obtain ⟨n, hsummed, hsessions⟩ := h.sessions
    have hzero : n = 0 := hsummed.eq_zero fun t => by
      rw [hidle t]
      rfl
    rw [hsessions, hzero, h.owner.card_open hidle]
    rfl

/-- In every run in which the lock of the owner is initialised once, and a stream is closed once,
the output device has one owner and balanced sessions. -/
theorem one_owner (hinit : Initial c) (hrun : Run (Step ownership) c trace d)
    (hproper : Always Proper trace) : OneOwner trace d := by
  have hinv : Inv trace d ∧
      Always (fun before e => e.2 = .asks false → ∀ i, ¬ IsOpen before i) trace ∧
      Always (fun before e => e.2.answers → Turned e.1 before →
        e.2 = .openFails (some .unavailable)) trace := by
    induction hrun with
    | refl => exact ⟨hinit.inv, always_nil, always_nil⟩
    | @snoc _ _ trace label hrun hlast ih =>
        obtain ⟨hinv, hasks, hunavailable⟩ := ih (always_of_append hproper)
        obtain ⟨t, e⟩ := label
        have hlabel : Proper trace (t, e) := hproper trace (t, e) [] rfl
        refine ⟨hinv.step hlast hlabel, always_snoc hasks ?_, always_snoc hunavailable ?_⟩
        · rintro rfl i hopen
          cases hlast with
          | mk hnext =>
              have hnone := (next_move hnext).1.owner_of_asks
              rw [(hinv.owner.owner i).2 (.inl hopen)] at hnone
              cases hnone
        · intro hanswers hturned
          cases hlast with
          | mk hnext =>
              exact (next_move hnext).1.refusing_of_answers (hinv.turned t hturned) hanswers
  exact hinv.1.oneOwner hinv.2.1 hinv.2.2

end Runs

/-! ## Two threads -/

instance (before : List (Bool × Event Bool)) (e : Bool × Event Bool) :
    Decidable (Proper before e) := by
  unfold Proper Unclosed
  infer_instance

instance (trace : List (Bool × Event Bool)) (i : Bool) : Decidable (IsOpen trace i) := by
  unfold IsOpen
  infer_instance

/-- Two threads before their first call. -/
def twoThreads : Config Bool (Bridge Bool Bool) (Thread Bool Bool) :=
  ⟨⟨none, false, none, fun _ => none⟩, fun t => ⟨t, .idle⟩⟩

theorem initial_twoThreads : Initial twoThreads := ⟨fun _ => rfl, fun _ => rfl, rfl⟩

/-- The environment lets everything succeed; the thread `t` opens its own stream, or closes one. -/
def opens (t : Bool) : Bool × Choice Bool :=
  (t, ⟨.open ⟨48000, 2, aaudioFormatPcmI16, aaudioDirectionOutput, 1024, true⟩, some t, true,
    true, true, true⟩)

def closes (t i : Bool) : Bool × Choice Bool :=
  (t, ⟨.close i, none, true, true, true, true⟩)

/-- One thread opens a stream, the other is refused, and the first closes its stream. -/
theorem one_owner_example : ∃ trace d, Run (Step ownership) twoThreads trace d ∧
    (true, .openFails (some .unavailable)) ∈ trace ∧ (false, .closed false) ∈ trace ∧
    OneOwner trace d := by
  have htest : (ownership.exec twoThreads (List.replicate 13 (opens false) ++
      List.replicate 7 (opens true) ++ List.replicate 9 (closes false false))).any (fun r =>
        decide ((true, .openFails (some .unavailable)) ∈ r.1 ∧ (false, .closed false) ∈ r.1 ∧
          Always Proper r.1)) = true := by decide +kernel
  obtain ⟨trace, d, hrun, hp⟩ := Program.exec_test htest
  obtain ⟨hrefused, hclosed, hproper⟩ := of_decide_eq_true hp
  exact ⟨trace, d, hrun, hrefused, hclosed, one_owner initial_twoThreads hrun hproper⟩

/-- Two threads open a stream each, and the second initialises the lock again while the first has
it: both take the device. -/
theorem two_owners : ∃ trace d, Run (Step ownership) twoThreads trace d ∧
    (∀ e ∈ trace, ∀ i, e.2 ≠ .closes i) ∧ IsOpen trace false ∧ IsOpen trace true ∧
    ¬ OneOwner trace d := by
  have htest : (ownership.exec twoThreads (List.replicate 3 (opens false) ++
      List.replicate 3 (opens true) ++ List.replicate 6 (opens false) ++
      List.replicate 8 (opens true) ++ List.replicate 4 (opens false) ++
      List.replicate 2 (opens true))).any (fun r =>
        decide ((∀ e ∈ r.1, ∀ i, e.2 ≠ .closes i) ∧ IsOpen r.1 false ∧ IsOpen r.1 true)) =
          true := by
    decide +kernel
  obtain ⟨trace, d, hrun, hp⟩ := Program.exec_test htest
  obtain ⟨hnone, hfalse, htrue⟩ := of_decide_eq_true hp
  exact ⟨trace, d, hrun, hnone, hfalse, htrue, fun h =>
    Bool.false_ne_true (h.one false true hfalse htrue)⟩

end Asnx.Audio.Owner
