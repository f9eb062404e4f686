import Asnx.FakeFd.Polling
import Asnx.Library.Threads

/-!
# Loopers

`ALooper_addFd`, `ALooper_removeFd`, `ALooper_wake` and `ALooper_pollOnce` of
`source/android_ndk.c` on one looper, as threads whose steps are the sections under the lock `m`.
The thread that owns the looper polls it; while it is inside a callback it makes calls of its own,
and the other threads make theirs at any time. A poll removes by its descriptor what a callback
that returned 0 was invoked for, so it removes only that as long as nothing has been registered for
the descriptor since (`looper_iff`).
-/

namespace Asnx.Ndk.Looper

open Threads
open FakeFd (fakefdIsRange has asnxFdReadyRead asnxFdReadyWrite asnxFdReadyErr asnxFdReadyHup)

/-- `ALOOPER_POLL_WAKE` -/
def alooperPollWake : Int := -1
/-- `ALOOPER_POLL_CALLBACK` -/
def alooperPollCallback : Int := -2
/-- `ALOOPER_POLL_TIMEOUT` -/
def alooperPollTimeout : Int := -3
/-- `ALOOPER_EVENT_INPUT` -/
def alooperEventInput : BitVec 32 := 0x01
/-- `ALOOPER_EVENT_OUTPUT` -/
def alooperEventOutput : BitVec 32 := 0x02
/-- `ALOOPER_EVENT_ERROR` -/
def alooperEventError : BitVec 32 := 0x04
/-- `ALOOPER_EVENT_HANGUP` -/
def alooperEventHangup : BitVec 32 := 0x08
/-- `ALOOPER_EVENT_INVALID` -/
def alooperEventInvalid : BitVec 32 := 0x10

/-- A pointer of the game; 0 is `NULL`. -/
abbrev Pointer := BitVec 64

/-- A used `ALooperReg`. -/
structure ALooperReg where
  fd : Int
  ident : Int
  events : BitVec 32
  cb : Pointer
  data : Pointer
  deriving DecidableEq, Repr

/-- The number of registrations of a looper. -/
abbrev looperRegs : Nat := 16

/-- The registrations; `none` is an unused one. -/
abbrev Regs := Fin looperRegs → Option ALooperReg

/-- What the functions use of an `ALooper`. -/
structure ALooper (T : Type*) where
  owner : T
  signaled : Bool
  regs : Regs

/-- What the emulated descriptors say when they are asked. -/
structure Readiness where
  isOpen : Int → Bool
  ready : Int → BitVec 32

/-- `looper_ready_events` of a used registration. -/
def looperReadyEvents (x : Readiness) (r : ALooperReg) : BitVec 32 :=
  if fakefdIsRange r.fd = false then 0
  else if x.isOpen r.fd = false then alooperEventInvalid
  else
    let st := x.ready r.fd
    (if has st asnxFdReadyRead ∧ has r.events alooperEventInput then alooperEventInput else 0) |||
      (if has st asnxFdReadyWrite ∧
        has r.events alooperEventOutput then alooperEventOutput else 0) |||
      (if has st asnxFdReadyErr then alooperEventError else 0) |||
      if has st asnxFdReadyHup then alooperEventHangup else 0

/-! ## The sections -/

/-- A registration is for a descriptor. -/
def isFor (fd : Int) (r : Option ALooperReg) : Bool := r.any fun r => r.fd = fd

/-- The first slot with a property. -/
def firstSlot (p : Fin looperRegs → Bool) : Option (Fin looperRegs) :=
    (List.finRange looperRegs).find? p

/-- The loop of `ALooper_addFd`, with the first unused slot so far. -/
def addSlot (regs : Regs) (fd : Int) :
    List (Fin looperRegs) → Option (Fin looperRegs) → Option (Fin looperRegs)
  | [], freeSlot => freeSlot
  | i :: is, freeSlot =>
      if isFor fd (regs i) then some i
      else addSlot regs fd is (if freeSlot = none ∧ regs i = none then some i else freeSlot)

/-- The section of `ALooper_addFd`. -/
def addFd (regs : Regs) (r : ALooperReg) : Option Regs :=
  (addSlot regs r.fd (List.finRange looperRegs) none).map fun i => Function.update regs i (some r)

/-- The section of `ALooper_removeFd`. -/
def removeFd (regs : Regs) (fd : Int) : Option Regs :=
  (firstSlot fun i => isFor fd (regs i)).map fun i => Function.update regs i none

/-- The loop of `ALooper_pollOnce` over the registrations: the first one with events. -/
def firstReady (x : Readiness) (regs : Regs) : Option (ALooperReg × BitVec 32) :=
  (List.finRange looperRegs).findSome? fun i =>
    match regs i with
    | none => none
    | some r => if looperReadyEvents x r = 0 then none else some (r, looperReadyEvents x r)

/-! ## The threads -/

/-- Where a thread is. `poll` is before a section of `ALooper_pollOnce`, and `waiting` in
`condvarWaitTimeout`. -/
inductive Pc where
  | idle
  | poll (ms remaining : Int)
  | waiting (ms remaining waitMs : Int)
  /-- A registration has been copied, and the lock is dropped. -/
  | invoking (r : ALooperReg) (ev : BitVec 32)
  | calling (r : ALooperReg)
  | removing (r : ALooperReg)
  deriving DecidableEq

/-- A thread. -/
structure Thread (T : Type*) where
  self : T
  pc : Pc

/-- A call that a thread makes from outside of the looper, or from a callback. -/
inductive LooperCall where
  | addFd (r : ALooperReg)
  | removeFd (fd : Int)
  | wake

/-- What the environment decides: which call a thread makes, what a callback returns, and what the
descriptors say. -/
inductive Choice where
  | call (c : LooperCall)
  | pollOnce (ms : Int)
  | returns (keep : Int)
  | goesOn (x : Readiness)

/-- What `ALooper_pollOnce` returns, with `*outFd`, `*outEvents` and `*outData`. -/
structure PollResult where
  ret : Int
  outFd : Int
  outEvents : BitVec 32
  outData : Pointer
  deriving DecidableEq

/-- A result with nothing in the outputs. -/
def PollResult.plain (v : Int) : PollResult := ⟨v, 0, 0, 0⟩

/-- What a step is seen to do. -/
inductive Event where
  | inner
  | woken
  | added (r : ALooperReg)
  | removed (fd : Int)
  | failed
  /-- A callback begins. -/
  | invoked (r : ALooperReg) (ev : BitVec 32)
  | returned (p : PollResult)
  /-- The removal after a callback that returned 0. -/
  | pollRemoved (r : ALooperReg)
  deriving DecidableEq

variable {T : Type*}

/-- What a step comes to. -/
abbrev Outcome (T : Type*) := Option (Event × ALooper T × Thread T)

def Thread.goto (t : Thread T) (pc : Pc) : Thread T := { t with pc := pc }

/-- A call that is one section. -/
def callStep (l : ALooper T) (t : Thread T) : LooperCall → Outcome T
  | .addFd r =>
      if r.fd < 0 then some (.failed, l, t)
      else
        match addFd l.regs r with
        | none => some (.failed, l, t)
        | some regs => some (.added r, { l with regs }, t)
  | .removeFd fd =>
      match removeFd l.regs fd with
      | none => some (.failed, l, t)
      | some regs => some (.removed fd, { l with regs }, t)
  | .wake => some (.woken, { l with signaled := true }, t)

/-- A section of `ALooper_pollOnce`. -/
def pollStep (x : Readiness) (l : ALooper T) (t : Thread T) (ms remaining : Int) : Outcome T :=
  if l.signaled then some (.returned (.plain alooperPollWake), { l with signaled := false },
    t.goto .idle)
  else
    match firstReady x l.regs with
    | some (r, ev) =>
        if r.cb ≠ 0 then some (.inner, l, t.goto (.invoking r ev))
        else some (.returned ⟨r.ident, r.fd, ev, r.data⟩, l, t.goto .idle)
    | none =>
        if ms = 0 then some (.returned (.plain alooperPollTimeout), l, t.goto .idle)
        else
          let waitMs := if ms < 0 ∨ remaining > 1 then 1 else remaining
          if waitMs ≤ 0 then some (.returned (.plain alooperPollTimeout), l, t.goto .idle)
          else some (.inner, l, t.goto (.waiting ms remaining waitMs))

/-- After the wait. -/
def waitedStep (l : ALooper T) (t : Thread T) (ms remaining waitMs : Int) : Outcome T :=
  if ms > 0 then
    let remaining := remaining - waitMs
    if remaining ≤ 0 then some (.returned (.plain alooperPollTimeout), l, t.goto .idle)
    else some (.inner, l, t.goto (.poll ms remaining))
  else some (.inner, l, t.goto (.poll ms remaining))

/-- `ALooper_removeFd(l,r.fd)` in `ALooper_pollOnce` -/
def removingStep (l : ALooper T) (t : Thread T) (r : ALooperReg) : Outcome T :=
  some (.pollRemoved r, { l with regs := (removeFd l.regs r.fd).getD l.regs }, t.goto .idle)

/-- The next step of a thread. -/
def looperNext [DecidableEq T] (x : Choice) (l : ALooper T) (t : Thread T) : Outcome T :=
  match t.pc, x with
  | .idle, .call c => callStep l t c
  | .idle, .pollOnce ms => if t.self = l.owner then some (.inner, l, t.goto (.poll ms ms)) else none
  | .poll ms remaining, .goesOn x => pollStep x l t ms remaining
  | .waiting ms remaining waitMs, .goesOn _ => waitedStep l t ms remaining waitMs
  | .invoking r ev, .goesOn _ => some (.invoked r ev, l, t.goto (.calling r))
  | .calling _, .call c => callStep l t c
  | .calling r, .returns keep =>
      if keep = 0 then some (.inner, l, t.goto (.removing r))
      else some (.returned (.plain alooperPollCallback), l, t.goto .idle)
  | .removing r, .goesOn _ => removingStep l t r
  | _, _ => none

/-- The threads. -/
def looper [DecidableEq T] : Program (ALooper T) (Thread T) Choice Event := ⟨looperNext⟩

/-- A looper as `loop_get` makes it, before any call. -/
structure Initial (c : Config T (ALooper T) (Thread T)) : Prop where
  self : ∀ t, (c.locals t).self = t
  idle : ∀ t, (c.locals t).pc = .idle
  regs : ∀ i, c.shared.regs i = none

/-! ## What a callback that returns 0 should do -/

/-- No two used registrations are for one descriptor. -/
def Unique (regs : Regs) : Prop :=
  ∀ i j r r', regs i = some r → regs j = some r' → r.fd = r'.fd → i = j

/-- A registration is there. -/
def Present (regs : Regs) (r : ALooperReg) : Prop := ∃ i, regs i = some r

/-- The registrations that have been made since the last callback began and neither replaced nor
removed by a call, by their descriptors. -/
abbrev NewRegs := Int → Option ALooperReg

/-- What a step does to them. -/
def NewRegs.after (new : NewRegs) : Event → NewRegs
  | .invoked _ _ => fun _ => none
  | .added r => Function.update new r.fd (some r)
  | .removed fd => Function.update new fd none
  | _ => new

/-- The new registrations after a run. -/
def newRegs (trace : List (T × Event)) : NewRegs :=
  trace.foldl (fun new label => new.after label.2) fun _ => none

/-- What is there after the removal that follows a callback: the registration the callback was
invoked for is not, and all that is new is. -/
structure RemovesItself (new : NewRegs) (r : ALooperReg) (regs : Regs) : Prop where
  gone : new r.fd = none → ∀ i, isFor r.fd (regs i) = false
  kept : ∀ fd r', new fd = some r' → Present regs r'

/-- What should hold after a step that follows on a run. -/
def Right (before : List (T × Event)) (label : T × Event) (regs : Regs) : Prop :=
  Unique regs ∧ ∀ r, label.2 = .pollRemoved r → RemovesItself (newRegs before) r regs

/-- A removal after a callback finds nothing new for the descriptor. -/
def RemovesOld (before : List (T × Event)) (label : T × Event) : Prop :=
  ∀ r, label.2 = .pollRemoved r → newRegs before r.fd = none

/-! ## What the sections do to the registrations -/

section Sections

variable {regs regs' : Regs} {r r' : ALooperReg} {fd : Int} {i : Fin looperRegs}

theorem isFor_iff {o : Option ALooperReg} : isFor fd o = true ↔ ∃ r, o = some r ∧ r.fd = fd := by
  cases o with
  | none => simp [isFor]
  | some r => simp [isFor]

/-- The slot that the loop of `ALooper_addFd` ends with: the one for the descriptor, or an unused
one if there is none. -/
theorem addSlot_spec {is : List (Fin looperRegs)} {free : Option (Fin looperRegs)}
    (hfree : ∀ j, free = some j → regs j = none) (h : addSlot regs fd is free = some i) :
    isFor fd (regs i) = true ∨ regs i = none ∧ ∀ j ∈ is, isFor fd (regs j) = false := by
  induction is generalizing free with
  | nil => exact .inr ⟨hfree i h, by simp⟩
  | cons j is ih =>
      rw [addSlot] at h
      by_cases hj : isFor fd (regs j) = true
      case pos =>
        rw [if_pos hj] at h
        obtain rfl := Option.some.inj h
        exact .inl hj
      case neg =>
        rw [if_neg hj] at h
        have hfree' : ∀ k, (if free = none ∧ regs j = none then some j else free) = some k →
            regs k = none := by
          intro k hk
          split at hk
          · rename_i hnone
            obtain rfl := Option.some.inj hk
            exact hnone.2
          · exact hfree k hk
        rcases ih hfree' h with hfor | ⟨hnone, hothers⟩
        · exact .inl hfor
        · refine .inr ⟨hnone, fun k hk => ?_⟩
          rcases List.mem_cons.1 hk with rfl | hk
          · simpa using hj
          · exact hothers k hk

/-- `ALooper_addFd` writes to a slot that is unused or for the descriptor, and no other one is for
it. -/
theorem addFd_spec (hunique : Unique regs) (h : addFd regs r = some regs') :
    ∃ i, regs' = Function.update regs i (some r) ∧ (regs i = none ∨ isFor r.fd (regs i) = true) ∧
      ∀ j, j ≠ i → isFor r.fd (regs j) = false := by
  obtain ⟨i, hi, rfl⟩ := Option.map_eq_some_iff.1 h
  rcases addSlot_spec (fun j hj => by simp at hj) hi with hfor | ⟨hnone, hothers⟩
  · refine ⟨i, rfl, .inr hfor, fun j hj => ?_⟩
    by_contra hforj
    obtain ⟨ri, hri, hfdi⟩ := isFor_iff.1 hfor
    obtain ⟨rj, hrj, hfdj⟩ := isFor_iff.1 (by simpa using hforj)
    exact hj (hunique j i rj ri hrj hri (hfdj.trans hfdi.symm))
  · exact ⟨i, rfl, .inl hnone, fun j _ => hothers j (List.mem_finRange j)⟩

/-- `ALooper_removeFd` clears a slot that is for the descriptor. -/
theorem removeFd_spec (h : removeFd regs fd = some regs') :
    ∃ i, regs' = Function.update regs i none ∧ isFor fd (regs i) = true := by
  obtain ⟨i, hi, rfl⟩ := Option.map_eq_some_iff.1 h
  exact ⟨i, rfl, List.find?_some (p := fun i => isFor fd (regs i)) hi⟩

theorem removeFd_none (h : removeFd regs fd = none) (i : Fin looperRegs) :
    isFor fd (regs i) = false := by
  have hfind := List.find?_eq_none.1 (Option.map_eq_none_iff.1 h) i (List.mem_finRange i)
  simpa using hfind

theorem Unique.clear (h : Unique regs) (i : Fin looperRegs) :
    Unique (Function.update regs i none) := by
  intro j k r r' hj hk hfd
  have hji : j ≠ i := fun heq => by simp [heq] at hj
  have hki : k ≠ i := fun heq => by simp [heq] at hk
  rw [Function.update_of_ne hji] at hj
  rw [Function.update_of_ne hki] at hk
  exact h j k r r' hj hk hfd

theorem Unique.addFd (h : Unique regs) (hadd : addFd regs r = some regs') : Unique regs' := by
  obtain ⟨i, rfl, -, hothers⟩ := addFd_spec h hadd
  have hnew : ∀ j r', j ≠ i → regs j = some r' → r'.fd ≠ r.fd := by
    intro j r' hj hr' hfd
    have hfor : isFor r.fd (regs j) = true := isFor_iff.2 ⟨r', hr', hfd⟩
    rw [hothers j hj] at hfor
    exact Bool.noConfusion hfor
  intro j k rj rk hj hk hfd
  by_cases hji : j = i
  all_goals by_cases hki : k = i
  · rw [hji, hki]
  · rw [hji, Function.update_self] at hj
    rw [Function.update_of_ne hki] at hk
    obtain rfl := Option.some.inj hj
    exact absurd hfd.symm (hnew k rk hki hk)
  · rw [Function.update_of_ne hji] at hj
    rw [hki, Function.update_self] at hk
    obtain rfl := Option.some.inj hk
    exact absurd hfd (hnew j rj hji hj)
  · rw [Function.update_of_ne hji] at hj
    rw [Function.update_of_ne hki] at hk
    exact h j k rj rk hj hk hfd

theorem Unique.removeFd (h : Unique regs) (hremove : removeFd regs fd = some regs') :
    Unique regs' := by
  obtain ⟨i, rfl, -⟩ := removeFd_spec hremove
  exact h.clear i

/-- A registration for another descriptor stays. -/
theorem Present.removeFd (h : Present regs r') (hfd : r'.fd ≠ fd)
    (hremove : removeFd regs fd = some regs') : Present regs' r' := by
  obtain ⟨i, rfl, hfor⟩ := removeFd_spec hremove
  obtain ⟨j, hj⟩ := h
  have hji : j ≠ i := by
    rintro rfl
    obtain ⟨r, hr, rfl⟩ := isFor_iff.1 hfor
    rw [hj] at hr
    exact hfd (congrArg ALooperReg.fd (Option.some.inj hr))
  exact ⟨j, by rwa [Function.update_of_ne hji]⟩

theorem Present.addFd (hunique : Unique regs) (h : Present regs r') (hfd : r'.fd ≠ r.fd)
    (hadd : addFd regs r = some regs') : Present regs' r' := by
  obtain ⟨i, rfl, hslot, -⟩ := addFd_spec hunique hadd
  obtain ⟨j, hj⟩ := h
  have hji : j ≠ i := by
    rintro rfl
    rcases hslot with hnone | hfor
    · rw [hj] at hnone
      exact nomatch hnone
    · obtain ⟨r, hr, hrfd⟩ := isFor_iff.1 hfor
      rw [hj] at hr
      exact hfd ((congrArg ALooperReg.fd (Option.some.inj hr)).trans hrfd)
  exact ⟨j, by rwa [Function.update_of_ne hji]⟩

theorem present_addFd (hunique : Unique regs) (hadd : addFd regs r = some regs') :
    Present regs' r := by
  obtain ⟨i, rfl, -, -⟩ := addFd_spec hunique hadd
  exact ⟨i, Function.update_self ..⟩

/-- After a removal nothing is left for the descriptor. -/
theorem gone_removeFd (hunique : Unique regs) (fd : Int) (i : Fin looperRegs) :
    isFor fd (((removeFd regs fd).getD regs) i) = false := by
  cases hremove : Looper.removeFd regs fd with
  | none => exact removeFd_none hremove i
  | some regs' =>
      obtain ⟨j, rfl, hfor⟩ := removeFd_spec hremove
      show isFor fd (Function.update regs j none i) = false
      by_cases hij : i = j
      case pos =>
        rw [hij, Function.update_self]
        rfl
      case neg =>
        rw [Function.update_of_ne hij]
        by_contra hfori
        obtain ⟨ri, hri, hfdi⟩ := isFor_iff.1 (by simpa using hfori)
        obtain ⟨rj, hrj, hfdj⟩ := isFor_iff.1 hfor
        exact hij (hunique i j ri rj hri hrj (hfdi.trans hfdj.symm))

end Sections

/-! ## Runs -/

section Steps

variable {l l' : ALooper T} {t t' : Thread T} {e : Event}

/-- An event that says nothing about the registrations. -/
def Event.Quiet : Event → Prop
  | .inner | .woken | .failed | .returned _ => True
  | _ => False

/-- What a step does to the registrations, by its event. -/
inductive Changes : Event → Regs → Regs → Prop where
  | quiet {e : Event} {regs : Regs} : e.Quiet → Changes e regs regs
  | invoked {r : ALooperReg} {ev : BitVec 32} {regs : Regs} : Changes (.invoked r ev) regs regs
  | added {r : ALooperReg} {regs regs' : Regs} : addFd regs r = some regs' →
      Changes (.added r) regs regs'
  | removed {fd : Int} {regs regs' : Regs} : removeFd regs fd = some regs' →
      Changes (.removed fd) regs regs'
  | pollRemoved {r : ALooperReg} {regs : Regs} :
      Changes (.pollRemoved r) regs ((removeFd regs r.fd).getD regs)

theorem callStep_changes {c : LooperCall} (h : callStep l t c = some (e, l', t')) :
    Changes e l.regs l'.regs := by
  cases c with
  | addFd r =>
      simp only [callStep] at h
      split at h
      · cases h
        exact .quiet trivial
      split at h
      · cases h
        exact .quiet trivial
      · rename_i hadd
        cases h
        exact .added hadd
  | removeFd fd =>
      simp only [callStep] at h
      split at h
      · cases h
        exact .quiet trivial
      · rename_i hremove
        cases h
        exact .removed hremove
  | wake =>
      cases h
      exact .quiet trivial

theorem pollStep_changes {x : Readiness} {ms remaining : Int}
    (h : pollStep x l t ms remaining = some (e, l', t')) : Changes e l.regs l'.regs := by
  simp only [pollStep] at h
  generalize (if ms < 0 ∨ remaining > 1 then 1 else remaining) = waitMs at h
  split at h
  · cases h
    exact .quiet trivial
  split at h
  · split at h <;> cases h <;> exact .quiet trivial
  split at h
  · cases h
    exact .quiet trivial
  · split at h <;> cases h <;> exact .quiet trivial

theorem waitedStep_changes {ms remaining waitMs : Int}
    (h : waitedStep l t ms remaining waitMs = some (e, l', t')) : Changes e l.regs l'.regs := by
  simp only [waitedStep] at h
  split at h
  · split at h <;> cases h <;> exact .quiet trivial
  · cases h
    exact .quiet trivial

theorem looperNext_changes [DecidableEq T] {x : Choice} (h : looperNext x l t = some (e, l', t')) :
    Changes e l.regs l'.regs := by
  unfold looperNext at h
  split at h
  case h_1 => exact callStep_changes h
  case h_2 =>
    split at h
    · cases h
      exact .quiet trivial
    · exact nomatch h
  case h_3 => exact pollStep_changes h
  case h_4 => exact waitedStep_changes h
  case h_5 =>
    cases h
    exact .invoked
  case h_6 => exact callStep_changes h
  case h_7 => split at h <;> cases h <;> exact .quiet trivial
  case h_8 =>
    cases h
    exact .pollRemoved
  case h_9 => exact nomatch h

end Steps

section Runs

variable {c d : Config T (ALooper T) (Thread T)} {trace : List (T × Event)}
  {new : NewRegs} {regs regs' : Regs} {e : Event}

theorem newRegs_snoc (trace : List (T × Event)) (label : T × Event) :
    newRegs (trace ++ [label]) = (newRegs trace).after label.2 := by
  unfold newRegs
  rw [List.foldl_append]
  rfl

/-- The new registrations are there, each under its descriptor. -/
def Kept (new : NewRegs) (regs : Regs) : Prop := ∀ fd r, new fd = some r → r.fd = fd ∧
    Present regs r

theorem Changes.unique (h : Changes e regs regs') (hunique : Unique regs) : Unique regs' := by
  cases h with
  | quiet => exact hunique
  | invoked => exact hunique
  | added hadd => exact hunique.addFd hadd
  | removed hremove => exact hunique.removeFd hremove
  | @pollRemoved r =>
      cases hremove : removeFd regs r.fd with
      | none => exact hunique
      | some regs' => exact hunique.removeFd hremove

/-- What a poll removes keeps what is new for the other descriptors. -/
theorem kept_pollRemoved {r : ALooperReg} (hkept : Kept new regs) {fd : Int} (hfd : fd ≠ r.fd)
    {r' : ALooperReg} (hr' : new fd = some r') :
    Present ((removeFd regs r.fd).getD regs) r' := by
  obtain ⟨rfl, hpresent⟩ := hkept fd r' hr'
  cases hremove : removeFd regs r.fd with
  | none => exact hpresent
  | some regs' => exact hpresent.removeFd hfd hremove

/-- A step keeps the new registrations, if it is not a removal of one of them by a poll. -/
theorem Changes.kept (h : Changes e regs regs') (hunique : Unique regs) (hkept : Kept new regs)
    (hold : ∀ r, e = .pollRemoved r → new r.fd = none) : Kept (new.after e) regs' := by
  cases h with
  | quiet hquiet =>
      cases e with
      | inner | woken | failed | returned => exact hkept
      | _ => exact hquiet.elim
  | invoked =>
      intro fd r hr
      have hnone : (none : Option ALooperReg) = some r := hr
      exact nomatch hnone
  | @added r _ _ hadd =>
      intro fd r' hr'
      by_cases hfd : fd = r.fd
      case pos =>
        rw [hfd, NewRegs.after, Function.update_self] at hr'
        obtain rfl := Option.some.inj hr'
        exact ⟨hfd.symm, present_addFd hunique hadd⟩
      case neg =>
        rw [NewRegs.after, Function.update_of_ne hfd] at hr'
        obtain ⟨rfl, hpresent⟩ := hkept fd r' hr'
        exact ⟨rfl, hpresent.addFd hunique hfd hadd⟩
  | @removed fd' _ _ hremove =>
      intro fd r' hr'
      by_cases hfd : fd = fd'
      case pos => simp [hfd, NewRegs.after] at hr'
      case neg =>
        rw [NewRegs.after, Function.update_of_ne hfd] at hr'
        obtain ⟨rfl, hpresent⟩ := hkept fd r' hr'
        exact ⟨rfl, hpresent.removeFd hfd hremove⟩
  | @pollRemoved r =>
      intro fd r' hr'
      have hfd : fd ≠ r.fd := by
        rintro rfl
        have hnone : new r.fd = some r' := hr'
        rw [hold r rfl] at hnone
        exact nomatch hnone
      exact ⟨(hkept fd r' hr').1, kept_pollRemoved hkept hfd hr'⟩

/-- A removal by a poll does what it should exactly if nothing is new for the descriptor. -/
theorem removesItself_iff {r : ALooperReg} (hunique : Unique regs) (hkept : Kept new regs) :
    RemovesItself new r ((removeFd regs r.fd).getD regs) ↔ new r.fd = none := by
  refine ⟨fun h => ?_, fun hnone => ⟨fun _ => gone_removeFd hunique r.fd, fun fd r' hr' => ?_⟩⟩
  · by_contra hne
    obtain ⟨r', hr'⟩ := Option.ne_none_iff_exists'.1 hne
    obtain ⟨i, hi⟩ := h.kept r.fd r' hr'
    have hfor : isFor r.fd (((removeFd regs r.fd).getD regs) i) = true :=
      isFor_iff.2 ⟨r', hi, (hkept r.fd r' hr').1⟩
    rw [gone_removeFd hunique] at hfor
    exact Bool.noConfusion hfor
  · refine kept_pollRemoved hkept ?_ hr'
    rintro rfl
    rw [hnone] at hr'
    exact nomatch hr'

variable [DecidableEq T]

theorem step_changes {label : T × Event} (h : Step looper c label d) :
    Changes label.2 c.shared.regs d.shared.regs := by
  cases h with
  | mk hnext => exact looperNext_changes hnext

/-- At most one registration for a descriptor, in every state of every run. -/
theorem run_unique (hc : Initial c) (h : Run (Step looper) c trace d) : Unique d.shared.regs := by
  refine h.invariant (fun i _ r _ hi => ?_) fun _ _ _ hunique hstep =>
    (step_changes hstep).unique hunique
  rw [hc.regs] at hi
  exact nomatch hi

/-- As long as the removals find nothing new, all that is new is there. -/
theorem run_kept (hc : Initial c) (h : Run (Step looper) c trace d)
    (hold : Always RemovesOld trace) : Kept (newRegs trace) d.shared.regs := by
  induction h with
  | refl => exact fun _ _ hr => nomatch hr
  | @snoc d e trace label hrun hlast ih =>
      rw [newRegs_snoc]
      exact (step_changes hlast).kept (run_unique hc hrun) (ih (always_of_append hold))
        (hold trace label [] rfl)

/-- After the first step behind a run in which the removals found nothing new. -/
theorem right_iff {label : T × Event} {e : Config T (ALooper T) (Thread T)} (hc : Initial c)
    (h : Run (Step looper) c trace d) (hold : Always RemovesOld trace)
    (hstep : Step looper d label e) :
    Right trace label e.shared.regs ↔ RemovesOld trace label := by
  have hunique := run_unique hc (h.snoc hstep)
  have hchanges := step_changes hstep
  refine ⟨fun hright r hr => ?_, fun hremoves => ⟨hunique, fun r hr => ?_⟩⟩
  all_goals
    rw [hr] at hchanges
    obtain heq : e.shared.regs = (removeFd d.shared.regs r.fd).getD d.shared.regs := by
      generalize d.shared.regs = regs at hchanges
      generalize e.shared.regs = regs' at hchanges
      cases hchanges with
      | quiet hquiet => exact hquiet.elim
      | pollRemoved => rfl
    have hiff := removesItself_iff (r := r) (run_unique hc h) (run_kept hc h hold)
    rw [← heq] at hiff
  · exact hiff.1 (hright.2 r hr)
  · exact hiff.2 (hremoves r hr)

/-- In a run of a looper, the registrations for a descriptor are never two, and what a callback
that returned 0 was invoked for is gone with all that is new still there, exactly if no removal
finds a new registration for its descriptor. -/
theorem looper_iff (hc : Initial c) (h : Run (Step looper) c trace d) :
    Always (fun before label => ∀ d', Run (Step looper) c (before ++ [label]) d' →
      Right before label d'.shared.regs) trace ↔ Always RemovesOld trace := by
  refine ⟨fun hright => ?_, fun hold before label after hsplit d' hrun => ?_⟩
  · induction h with
    | refl => exact always_nil
    | @snoc d e trace label hrun hlast ih =>
        have hold := ih (always_of_append hright)
        exact always_snoc hold ((right_iff hc hrun hold hlast).1
          (hright trace label [] rfl e (hrun.snoc hlast)))
  · subst hsplit
    have hbefore : Always RemovesOld before := always_of_append hold
    obtain ⟨d, hrun, hlast⟩ := hrun.last
    exact (right_iff hc hrun hbefore hlast).2 (hold before label after rfl)

end Runs

/-! ## A registration that is replaced during its callback -/

/-- A looper of thread `false`. -/
def start : Config Bool (ALooper Bool) (Thread Bool) :=
  ⟨⟨false, false, fun _ => none⟩, fun t => ⟨t, .idle⟩⟩

theorem start_initial : Initial start := ⟨fun _ => rfl, fun _ => rfl, fun _ => rfl⟩

/-- The registration that the callback is invoked for. -/
def firstReg : ALooperReg := ⟨900, 1, alooperEventInput, 1, 0⟩

/-- The one that replaces it. -/
def secondReg : ALooperReg := ⟨900, 2, alooperEventInput, 2, 0⟩

/-- All descriptors are open and can be read from. -/
def allReady : Readiness := ⟨fun _ => true, fun _ => asnxFdReadyRead⟩

/-- While the callback runs, the other thread registers the descriptor anew. -/
def replacing : List (Bool × Choice) :=
  [(false, .call (.addFd firstReg)), (false, .pollOnce 0), (false, .goesOn allReady),
    (false, .goesOn allReady), (true, .call (.addFd secondReg)), (false, .returns 0),
    (false, .goesOn allReady)]

/-- What is seen of it before the removal. -/
def replacingTrace : List (Bool × Event) :=
  [(false, .added firstReg), (false, .inner), (false, .inner),
    (false, .invoked firstReg alooperEventInput), (true, .added secondReg), (false, .inner)]

theorem looper_iff_replacing : ∃ trace d, Run (Step looper) start trace d ∧
    (Always (fun before label => ∀ d', Run (Step looper) start (before ++ [label]) d' →
      Right before label d'.shared.regs) trace ↔ Always RemovesOld trace) := by
  have hexec : (looper.exec start replacing).any (fun _ => true) = true := by decide +kernel
  obtain ⟨trace, d, hrun, -⟩ := Program.exec_test hexec
  exact ⟨trace, d, hrun, looper_iff start_initial hrun⟩

theorem not_right_replacing : ∃ trace d, Run (Step looper) start trace d ∧
    ¬ Always (fun before label => ∀ d', Run (Step looper) start (before ++ [label]) d' →
      Right before label d'.shared.regs) trace := by
  have hexec : (looper.exec start replacing).any
      (fun r => decide (r.1 = replacingTrace ++ [(false, .pollRemoved firstReg)]) &&
        (List.finRange looperRegs).all fun i => r.2.shared.regs i = none) =
          true := by decide +kernel
  obtain ⟨trace, d, hrun, htest⟩ := Program.exec_test hexec
  rw [Bool.and_eq_true, List.all_eq_true] at htest
  obtain ⟨htrace, hempty⟩ := htest
  obtain rfl := of_decide_eq_true htrace
  refine ⟨_, d, hrun, fun hright => ?_⟩
  have hlast := hright replacingTrace _ [] rfl d hrun
  obtain ⟨i, hi⟩ := (hlast.2 firstReg rfl).kept 900 secondReg (by decide +kernel)
  have hnone := of_decide_eq_true (hempty i (List.mem_finRange i))
  rw [hi] at hnone
  exact nomatch hnone

end Asnx.Ndk.Looper
