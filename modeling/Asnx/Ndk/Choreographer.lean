import Asnx.Library.Threads
import Mathlib.Data.List.Basic
import Mathlib.Data.Fintype.Basic

/-!
# The choreographer

`AChoreographer_postFrameCallback`, its variant for 64 bits and `choreographer_tick` of
`source/android_ndk.c`, as threads that look at one slot of the table at a time. The lock is the
`Mutex` as it is: initialising it once more, as `choreo_init` may do when two threads come first,
takes it away from its holder. A post or a tick counts from its work on the table. Every callback
is run once and in order, as long as no post finds the table full and the lock is not initialised
while it is held (`frames_right`).
-/

namespace Asnx.Ndk.Choreographer

open Threads

/-- A pointer of the game. -/
abbrev Pointer := BitVec 64

/-- A used `ChCb`. -/
structure ChCb where
  is64 : Bool
  cb : Pointer
  data : Pointer
  deriving DecidableEq, Repr

/-- The size of `g_callbacks`. -/
abbrev callbackSlots : Nat := 32

/-- `g_callbacks`; `none` is an unused slot. -/
abbrev Table := Fin callbackSlots → Option ChCb

/-- The shared state. -/
structure Choreo (T : Type*) where
  gChoreoInit : Bool
  /-- Who holds `g_choreo_lock`. -/
  lock : Option T
  gCallbacks : Table

/-- A call: one of the two posts, by the callback that they enter, or a tick. -/
inductive FrameCall where
  | post (k : ChCb)
  | tick (now : Int)
  deriving DecidableEq

/-- `AChoreographer_postFrameCallback` -/
def postFrameCallback (cb data : Pointer) : FrameCall := .post ⟨false, cb, data⟩

/-- `AChoreographer_postFrameCallback64` -/
def postFrameCallback64 (cb data : Pointer) : FrameCall := .post ⟨true, cb, data⟩

/-- Where a thread is in a call. `initCheck`, `initMutex` and `initSet` are the steps of
`choreo_init`. -/
inductive Pc where
  | idle
  | initCheck (f : FrameCall)
  | initMutex (f : FrameCall)
  | initSet (f : FrameCall)
  | lock (f : FrameCall)
  | postScan (k : ChCb) (i : Nat)
  | postFill (k : ChCb) (i : Fin callbackSlots)
  | unlockPost
  | tickCopy (now : Int) (i : Nat) (copied : List ChCb)
  | unlockTick (now : Int) (copied : List ChCb)
  deriving DecidableEq

/-- A tick that runs callbacks: the ones it still has to run, and whether it is inside one. -/
structure Running where
  now : Int
  rest : List ChCb
  inside : Bool
  deriving DecidableEq

/-- A thread. -/
structure Thread (T : Type*) where
  self : T
  pc : Pc
  running : Option Running

/-- What the environment decides. -/
inductive Choice where
  | call (f : FrameCall)
  | goesOn

/-- What a step is seen to do. -/
inductive Event where
  | inner
  /-- A post has entered its callback, or has not found a slot for it. -/
  | posted (k : ChCb) (stored : Bool)
  | took (l : List ChCb)
  | invoked (k : ChCb) (now : Int)
  | tickReturned
  deriving DecidableEq

variable {T : Type*}

/-- What a step comes to. -/
abbrev Outcome (T : Type*) := Option (Event × Choreo T × Thread T)

def Thread.goto (t : Thread T) (pc : Pc) : Thread T := { t with pc := pc }

def Choreo.set (s : Choreo T) (i : Fin callbackSlots) (k : Option ChCb) : Choreo T :=
  { s with gCallbacks := Function.update s.gCallbacks i k }

/-- A thread makes a call; from inside a callback it posts. -/
def callStep (s : Choreo T) (t : Thread T) (f : FrameCall) : Outcome T :=
  match t.running, f with
  | none, f => some (.inner, s, t.goto (.initCheck f))
  | some r, .post k => if r.inside then some (.inner, s, t.goto (.initCheck (.post k))) else none
  | some _, .tick _ => none

/-- The loop of a tick over what it has taken. -/
def runStep (s : Choreo T) (t : Thread T) : Outcome T :=
  match t.running with
  | none => none
  | some r =>
      if r.inside then some (.inner, s, { t with running := some { r with inside := false } })
      else
        match r.rest with
        | [] => some (.tickReturned, s, { t with running := none })
        | k :: rest => some (.invoked k r.now, s, { t with running := some ⟨r.now, rest, true⟩ })

/-- Where the section of a call begins. -/
def FrameCall.section : FrameCall → Pc
  | .post k => .postScan k 0
  | .tick now => .tickCopy now 0 []

/-- `mutexLock` -/
def lockStep [DecidableEq T] (s : Choreo T) (t : Thread T) (f : FrameCall) : Outcome T :=
  if s.lock = none then some (.inner, { s with lock := some t.self }, t.goto f.section) else none

/-- One slot of the loop of a post, and its end without an unused slot. -/
def postScanStep (s : Choreo T) (t : Thread T) (k : ChCb) (i : Nat) : Outcome T :=
  if h : i < callbackSlots then
    if s.gCallbacks ⟨i, h⟩ = none then some (.inner, s, t.goto (.postFill k ⟨i, h⟩))
    else some (.inner, s, t.goto (.postScan k (i + 1)))
  else some (.posted k false, s, t.goto .unlockPost)

/-- One slot of the loop of a tick, and its end. -/
def tickCopyStep (s : Choreo T) (t : Thread T) (now : Int) (i : Nat) (copied : List ChCb) :
    Outcome T :=
  if h : i < callbackSlots then
    match s.gCallbacks ⟨i, h⟩ with
    | none => some (.inner, s, t.goto (.tickCopy now (i + 1) copied))
    | some k => some (.inner, s.set ⟨i, h⟩ none, t.goto (.tickCopy now (i + 1) (copied ++ [k])))
  else some (.took copied, s, t.goto (.unlockTick now copied))

/-- The next step of a thread. -/
def choreoNext [DecidableEq T] (x : Choice) (s : Choreo T) (t : Thread T) : Outcome T :=
  match t.pc, x with
  | .idle, .call f => callStep s t f
  | .idle, .goesOn => runStep s t
  | .initCheck f, .goesOn =>
      some (.inner, s, t.goto (if s.gChoreoInit then .lock f else .initMutex f))
  | .initMutex f, .goesOn => some (.inner, { s with lock := none }, t.goto (.initSet f))
  | .initSet f, .goesOn => some (.inner, { s with gChoreoInit := true }, t.goto (.lock f))
  | .lock f, .goesOn => lockStep s t f
  | .postScan k i, .goesOn => postScanStep s t k i
  | .postFill k i, .goesOn => some (.posted k true, s.set i (some k), t.goto .unlockPost)
  | .unlockPost, .goesOn => some (.inner, { s with lock := none }, t.goto .idle)
  | .tickCopy now i copied, .goesOn => tickCopyStep s t now i copied
  | .unlockTick now copied, .goesOn =>
      some (.inner, { s with lock := none },
        { t with pc := .idle, running := some ⟨now, copied, false⟩ })
  | _, .call _ => none

/-- The threads. -/
def choreographer [DecidableEq T] : Program (Choreo T) (Thread T) Choice Event := ⟨choreoNext⟩

/-- Nothing has been called, and the static data are zero. -/
structure Initial (c : Config T (Choreo T) (Thread T)) : Prop where
  thread : ∀ t, c.locals t = ⟨t, .idle, none⟩
  shared : c.shared = ⟨false, none, fun _ => none⟩

/-! ## What should be seen -/

/-- A run of events. -/
abbrev Trace (T : Type*) := List (T × Event)

/-- The callbacks posted since the last tick took some, in order. -/
def pendingAfter (pending : List ChCb) : Event → List ChCb
  | .posted k _ => pending ++ [k]
  | .took _ => []
  | _ => pending

def pending (trace : Trace T) : List ChCb := trace.foldl (fun p label => pendingAfter p label.2) []

/-- All callbacks that have been posted. -/
def postsAfter (posts : List ChCb) : Event → List ChCb
  | .posted k _ => posts ++ [k]
  | _ => posts

def posts (trace : Trace T) : List ChCb := trace.foldl (fun p label => postsAfter p label.2) []

/-- All callbacks that ticks have taken. -/
def takenAfter (taken : List ChCb) : Event → List ChCb
  | .took l => taken ++ l
  | _ => taken

def taken (trace : Trace T) : List ChCb := trace.foldl (fun p label => takenAfter p label.2) []

/-- What a tick has taken and what it has run of it. -/
structure TickRun where
  took : List ChCb
  ran : List ChCb

def TickRun.after (r : TickRun) : Event → TickRun
  | .took l => ⟨l, []⟩
  | .invoked k _ => { r with ran := r.ran ++ [k] }
  | _ => r

/-- The last tick of a thread. -/
def lastTick [DecidableEq T] (t : T) (trace : Trace T) : TickRun :=
  trace.foldl (fun r label => if label.1 = t then r.after label.2 else r) ⟨[], []⟩

/-- Every callback posted is taken once, by the first tick after the post; a tick runs what it has
taken in order, and all of it before it returns. -/
structure FramesRight [DecidableEq T] (trace : Trace T) : Prop where
  once : posts trace = taken trace ++ pending trace
  first : Always (fun before label => ∀ l, label.2 = .took l → l = pending before) trace
  order : ∀ t, (lastTick t trace).ran <+: (lastTick t trace).took
  complete : Always (fun before label => label.2 = .tickReturned →
    (lastTick label.1 before).ran = (lastTick label.1 before).took) trace

/-- A post that takes the lock finds an unused slot, and a thread that initialises the lock does
not take it away. -/
def FineAt (s : Choreo T) : Pc → Prop
  | .lock (.post _) => ∃ i, s.gCallbacks i = none
  | .initMutex _ => s.lock = none
  | _ => True

instance [DecidableEq T] (s : Choreo T) : (pc : Pc) → Decidable (FineAt s pc)
  | .lock (.post _) => inferInstanceAs (Decidable (∃ i, s.gCallbacks i = none))
  | .initMutex _ => inferInstanceAs (Decidable (s.lock = none))
  | .lock (.tick _) | .idle | .initCheck _ | .initSet _ | .postScan _ _ | .postFill _
    _ | .unlockPost
  | .tickCopy _ _ _ | .unlockTick _ _ => .isTrue trivial

def Fine (c : Config T (Choreo T) (Thread T)) (t : T) : Prop := FineAt c.shared (c.locals t).pc

/-- A step of which this holds. -/
def FineStep [DecidableEq T] (c : Config T (Choreo T) (Thread T)) (label : T × Event)
    (d : Config T (Choreo T) (Thread T)) : Prop :=
  Step choreographer c label d ∧ Fine c label.1

/-! ## One thread -/

section Threads

variable {x : Choice} {s s' : Choreo T} {l l' : Thread T} {e : Event} {r : TickRun}

/-- A thread that holds the lock. -/
def Pc.InSection : Pc → Prop
  | .postScan .. | .postFill .. | .unlockPost | .tickCopy .. | .unlockTick .. => True
  | _ => False

def FrameCall.IsTick : FrameCall → Prop
  | .post _ => False
  | .tick _ => True

/-- A thread in a tick that has nothing to run yet. -/
def Pc.InTick : Pc → Prop
  | .initCheck f | .initMutex f | .initSet f | .lock f => f.IsTick
  | .tickCopy .. | .unlockTick .. => True
  | _ => False

/-- What a thread has taken before it is free to run it. -/
def Pc.copied : Pc → List ChCb
  | .unlockTick _ copied => copied
  | _ => []

/-- What a thread has taken and not run. -/
def Thread.left (l : Thread T) : List ChCb := l.running.elim l.pc.copied Running.rest

/-- A thread has run what it has taken and has not left. -/
structure ThreadOk (r : TickRun) (l : Thread T) : Prop where
  left : r.ran ++ l.left = r.took
  fresh : l.pc.InTick → l.running = none

/-- A step that takes and runs nothing and stays outside of the end of a tick. -/
theorem ThreadOk.goto (h : ThreadOk r l) (pc : Pc) (hcopied : pc.copied = l.pc.copied)
    (hfresh : pc.InTick → l.running = none) : ThreadOk r (l.goto pc) := by
  refine ⟨?_, hfresh⟩
  have hleft : (l.goto pc).left = l.left := by
    unfold Thread.left Thread.goto
    rw [hcopied]
  rw [hleft]
  exact h.left

theorem callStep_ok {f : FrameCall} (h : ThreadOk r l) (hidle : l.pc = .idle)
    (hnext : callStep s l f = some (e, s', l')) : ThreadOk (r.after e) l' := by
  unfold callStep at hnext
  split at hnext
  · rename_i hnone
    cases hnext
    exact h.goto _ (by rw [hidle]; rfl) fun _ => hnone
  · split at hnext
    · cases hnext
      exact h.goto _ (by rw [hidle]; rfl) fun hin => hin.elim
    · exact nomatch hnext
  · exact nomatch hnext

theorem runStep_ok (h : ThreadOk r l) (hidle : l.pc = .idle)
    (hnext : runStep s l = some (e, s', l')) : ThreadOk (r.after e) l' := by
  have hleft := h.left
  have hcopied : l.pc.copied = [] := by rw [hidle]; rfl
  have hfresh : ¬ l.pc.InTick := by rw [hidle]; exact id
  unfold runStep at hnext
  unfold Thread.left at hleft
  split at hnext
  · exact nomatch hnext
  rename_i running hrunning
  rw [hrunning] at hleft
  split at hnext
  · cases hnext
    exact ⟨hleft, fun hin => absurd hin hfresh⟩
  split at hnext
  · rename_i hrest
    cases hnext
    refine ⟨?_, fun hin => absurd hin hfresh⟩
    show r.ran ++ l.pc.copied = r.took
    rw [← hleft, hcopied]
    exact congrArg _ hrest.symm
  · rename_i k rest hrest
    cases hnext
    refine ⟨?_, fun hin => absurd hin hfresh⟩
    show r.ran ++ [k] ++ rest = r.took
    rw [List.append_assoc, ← hleft]
    exact congrArg _ hrest.symm

theorem section_inTick (f : FrameCall) : f.section.InTick ↔ f.IsTick := by
  cases f <;> exact Iff.rfl

theorem section_copied (f : FrameCall) : f.section.copied = [] := by
  cases f <;> rfl

/-- A step keeps what a tick has run and has left to run together. -/
theorem choreoNext_ok [DecidableEq T] (h : ThreadOk r l)
    (hnext : choreoNext x s l = some (e, s', l')) : ThreadOk (r.after e) l' := by
  have hfresh := h.fresh
  have hleft := h.left
  unfold Thread.left at hleft
  unfold choreoNext at hnext
  split at hnext
  case h_1 _ _ _ hpc => exact callStep_ok h hpc hnext
  case h_2 _ _ hpc => exact runStep_ok h hpc hnext
  -- initialising and taking the mutex leaves a tick alone
  case h_3 _ _ f hpc =>
    cases hnext
    rw [hpc] at hfresh
    split
    · exact h.goto _ (by rw [hpc]; rfl) hfresh
    · exact h.goto _ (by rw [hpc]; rfl) hfresh
  case h_4 _ _ f hpc =>
    cases hnext
    rw [hpc] at hfresh
    exact h.goto _ (by rw [hpc]; rfl) hfresh
  case h_5 _ _ f hpc =>
    cases hnext
    rw [hpc] at hfresh
    exact h.goto _ (by rw [hpc]; rfl) hfresh
  case h_6 _ _ f hpc =>
    unfold lockStep at hnext
    split at hnext
    · cases hnext
      rw [hpc] at hfresh
      exact h.goto _ (by rw [hpc, section_copied]; rfl) fun hin => hfresh ((section_inTick f).1 hin)
    · exact nomatch hnext
  -- the section of a post
  case h_7 _ _ k i hpc =>
    unfold postScanStep at hnext
    split at hnext
    · split at hnext <;> cases hnext <;> exact h.goto _ (by rw [hpc]; rfl) fun hin => hin.elim
    · cases hnext
      exact h.goto _ (by rw [hpc]; rfl) fun hin => hin.elim
  case h_8 _ _ k i hpc =>
    cases hnext
    exact h.goto _ (by rw [hpc]; rfl) fun hin => hin.elim
  case h_9 _ _ hpc =>
    cases hnext
    exact h.goto _ (by rw [hpc]; rfl) fun hin => hin.elim
  -- the section of a tick: what is copied will be left to run
  case h_10 _ _ now i copied hpc =>
    have hrunning : l.running = none := hfresh (by rw [hpc]; trivial)
    unfold tickCopyStep at hnext
    split at hnext
    · split at hnext <;> cases hnext <;> exact h.goto _ (by rw [hpc]; rfl) fun _ => hrunning
    · cases hnext
      refine ⟨?_, fun _ => hrunning⟩
      show [] ++ l.running.elim copied Running.rest = copied
      rw [hrunning]
      rfl
  -- with the lock given back the copies are run
  case h_11 _ _ now copied hpc =>
    have hrunning : l.running = none := hfresh (by rw [hpc]; trivial)
    cases hnext
    rw [hpc, hrunning] at hleft
    exact ⟨hleft, fun hin => hin.elim⟩
  case h_12 => exact nomatch hnext

end Threads

/-! ## The table -/

section Tables

variable {p : List ChCb} {table : Table} {x : Choice} {s s' : Choreo T}
    {l l' : Thread T} {e : Event}

/-- The table has the pending callbacks in its first slots. -/
def TableIs (p : List ChCb) (table : Table) : Prop := ∀ j : Fin callbackSlots, table j = p[j.val]?

/-- What holds of the table while the holder of the lock is at `pc`. -/
def SectionOk (p : List ChCb) (table : Table) : Pc → Prop
  | .postScan _ i => TableIs p table ∧ i ≤ p.length ∧ p.length < callbackSlots
  | .postFill _ i => TableIs p table ∧ i.val = p.length
  | .tickCopy _ i copied => i ≤ callbackSlots ∧ copied = p.take i ∧
      ∀ j : Fin callbackSlots, table j = if j.val < i then none else p[j.val]?
  | _ => TableIs p table

theorem sectionOk_outside {pc : Pc} (h : ¬ pc.InSection) : SectionOk p table pc ↔
    TableIs p table := by
  cases pc with
  | postScan | postFill | tickCopy | unlockPost | unlockTick => exact absurd trivial h
  | _ => exact Iff.rfl

/-- An unused slot is one behind the pending callbacks. -/
theorem TableIs.eq_none_iff (h : TableIs p table) (j : Fin callbackSlots) :
    table j = none ↔ p.length ≤ j := by
  rw [h j, List.getElem?_eq_none_iff]

/-- A callback goes into the slot behind the others. -/
theorem TableIs.fill (h : TableIs p table) {i : Fin callbackSlots} (hi : i.val = p.length)
    (k : ChCb) : TableIs (p ++ [k]) (Function.update table i (some k)) := by
  intro j
  by_cases hji : j = i
  case pos => rw [hji, Function.update_self, hi, List.getElem?_concat_length]
  case neg =>
    have hne : j.val ≠ p.length := fun heq => hji (Fin.ext (heq.trans hi.symm))
    rw [Function.update_of_ne hji, h j, List.getElem?_append]
    split
    · rfl
    · rename_i hlt
      rw [List.getElem?_eq_none_iff.2 (by omega), List.getElem?_eq_none_iff.2 (by
        rw [List.length_singleton]; omega)]

/-- One slot of a post: it passes the used ones. -/
theorem postScan_ok {k : ChCb} {i : Nat} (h : SectionOk p s.gCallbacks (.postScan k i))
    (hnext : postScanStep s l k i = some (e, s', l')) :
    e = .inner ∧ s' = s ∧ SectionOk p s.gCallbacks l'.pc := by
  obtain ⟨htable, hle, hlt⟩ := h
  unfold postScanStep at hnext
  split at hnext
  · rename_i hi
    split at hnext
    · rename_i hnone
      cases hnext
      have hlast := (htable.eq_none_iff ⟨i, hi⟩).1 hnone
      exact ⟨rfl, rfl, htable, Nat.le_antisymm hle hlast⟩
    · rename_i hsome
      cases hnext
      have hnotlast : ¬ p.length ≤ i := fun hge => hsome ((htable.eq_none_iff ⟨i, hi⟩).2 hge)
      exact ⟨rfl, rfl, htable, by omega, hlt⟩
  · omega

/-- One slot of a tick: what was in it is copied and it is unused. -/
theorem tickCopy_ok {now : Int} {i : Nat} {copied : List ChCb} (hshort : p.length ≤ callbackSlots)
    (h : SectionOk p s.gCallbacks (.tickCopy now i copied))
    (hnext : tickCopyStep s l now i copied = some (e, s', l')) :
    s'.lock = s.lock ∧ SectionOk (pendingAfter p e) s'.gCallbacks l'.pc ∧ l'.pc.InSection ∧
      (e = .inner ∨ e = .took p) := by
  obtain ⟨hi, rfl, htable⟩ := h
  unfold tickCopyStep at hnext
  split at hnext
  · rename_i hlt
    have hslot := htable ⟨i, hlt⟩
    rw [if_neg (Nat.lt_irrefl i)] at hslot
    have hrest : ∀ j : Fin callbackSlots, j ≠ ⟨i, hlt⟩ →
        s.gCallbacks j = if j.val < i + 1 then none else p[j.val]? := by
      intro j hj
      have hne : j.val ≠ i := fun heq => hj (Fin.ext heq)
      rw [htable j]
      by_cases hji : j.val < i
      case pos => rw [if_pos hji, if_pos (by omega)]
      case neg => rw [if_neg hji, if_neg (by omega)]
    split at hnext
    · rename_i hnone
      cases hnext
      rw [hnone] at hslot
      refine ⟨rfl, ⟨hlt, ?_, fun j => ?_⟩, trivial, .inl rfl⟩
      · show p.take i = p.take (i + 1)
        rw [List.take_add_one, ← hslot]
        simp
      · by_cases hj : j = ⟨i, hlt⟩
        case pos => rw [hj, hnone, if_pos (Nat.lt_succ_self i)]
        case neg => exact hrest j hj
    · rename_i k hsome
      cases hnext
      rw [hsome] at hslot
      refine ⟨rfl, ⟨hlt, ?_, fun j => ?_⟩, trivial, .inl rfl⟩
      · show p.take i ++ [k] = p.take (i + 1)
        rw [List.take_add_one, ← hslot]
        rfl
      · show Function.update s.gCallbacks ⟨i, hlt⟩ none j = _
        by_cases hj : j = ⟨i, hlt⟩
        case pos => rw [hj, Function.update_self, if_pos (Nat.lt_succ_self i)]
        case neg =>
          rw [Function.update_of_ne hj, hrest j hj]
          rfl
  · rename_i hge
    cases hnext
    rw [List.take_of_length_le (by omega)]
    refine ⟨rfl, fun j => ?_, trivial, .inr rfl⟩
    rw [htable j, if_pos (by omega)]
    rfl

/-- A step of a thread without the lock: it leaves the table alone, and the lock too or takes it. -/
theorem outside_ok [DecidableEq T] (hout : ¬ l.pc.InSection)
    (hnext : choreoNext x s l = some (e, s', l')) :
    pendingAfter p e = p ∧ (∀ l, e ≠ .took l) ∧ s'.gCallbacks = s.gCallbacks ∧
      (¬ l'.pc.InSection ∧ (s'.lock = s.lock ∨ ∃ f, l.pc = .initMutex f ∧ s'.lock = none) ∨
        ∃ f, l.pc = .lock f ∧ s.lock = none ∧ s'.lock = some l.self ∧ l'.pc = f.section) := by
  unfold choreoNext at hnext
  split at hnext
  case h_1 _ _ f hpc =>
    unfold callStep at hnext
    split at hnext
    · cases hnext
      exact ⟨rfl, fun _ => Event.noConfusion, rfl, .inl ⟨id, .inl rfl⟩⟩
    · split at hnext
      · cases hnext
        exact ⟨rfl, fun _ => Event.noConfusion, rfl, .inl ⟨id, .inl rfl⟩⟩
      · exact nomatch hnext
    · exact nomatch hnext
  case h_2 _ _ hpc =>
    unfold runStep at hnext
    split at hnext
    · exact nomatch hnext
    split at hnext
    · cases hnext
      exact ⟨rfl, fun _ => Event.noConfusion, rfl, .inl ⟨hout, .inl rfl⟩⟩
    split at hnext
    · cases hnext
      exact ⟨rfl, fun _ => Event.noConfusion, rfl, .inl ⟨hout, .inl rfl⟩⟩
    · cases hnext
      exact ⟨rfl, fun _ => Event.noConfusion, rfl, .inl ⟨hout, .inl rfl⟩⟩
  case h_3 _ _ f hpc =>
    cases hnext
    refine ⟨rfl, fun _ => Event.noConfusion, rfl, .inl ⟨?_, .inl rfl⟩⟩
    split <;> exact id
  -- the initialisation sets the lock free, held or not
  case h_4 _ _ f hpc =>
    cases hnext
    exact ⟨rfl, fun _ => Event.noConfusion, rfl, .inl ⟨id, .inr ⟨f, hpc, rfl⟩⟩⟩
  case h_5 _ _ f hpc =>
    cases hnext
    exact ⟨rfl, fun _ => Event.noConfusion, rfl, .inl ⟨id, .inl rfl⟩⟩
  case h_6 _ _ f hpc =>
    unfold lockStep at hnext
    split at hnext
    · rename_i hfree
      cases hnext
      exact ⟨rfl, fun _ => Event.noConfusion, rfl, .inr ⟨f, hpc, hfree, rfl, rfl⟩⟩
    · exact nomatch hnext
  -- the rest are points in a section
  case h_7 _ _ k i hpc => exact absurd (by rw [hpc]; trivial) hout
  case h_8 _ _ k i hpc => exact absurd (by rw [hpc]; trivial) hout
  case h_9 _ _ hpc => exact absurd (by rw [hpc]; trivial) hout
  case h_10 _ _ now i copied hpc => exact absurd (by rw [hpc]; trivial) hout
  case h_11 _ _ now copied hpc => exact absurd (by rw [hpc]; trivial) hout
  case h_12 => exact nomatch hnext

/-- A step of the thread that holds the lock. -/
theorem inside_ok [DecidableEq T] (hin : l.pc.InSection) (hshort : p.length ≤ callbackSlots)
    (h : SectionOk p s.gCallbacks l.pc) (hnext : choreoNext x s l = some (e, s', l')) :
    (∀ l, e = .took l → l = p) ∧ (pendingAfter p e).length ≤ callbackSlots ∧
      (s'.lock = s.lock ∧ l'.pc.InSection ∧ SectionOk (pendingAfter p e) s'.gCallbacks l'.pc ∨
        s'.lock = none ∧ ¬ l'.pc.InSection ∧ TableIs (pendingAfter p e) s'.gCallbacks) := by
  unfold choreoNext at hnext
  split at hnext
  case h_7 _ _ k i hpc =>
    rw [hpc] at h
    have hscan := postScan_ok h hnext
    -- a scan ends in the section as well, with a slot or without
    have hin' : l'.pc.InSection := by
      unfold postScanStep at hnext
      split at hnext
      · split at hnext <;> cases hnext <;> trivial
      · cases hnext
        trivial
    obtain ⟨rfl, rfl, hsection⟩ := hscan
    exact ⟨fun _ => Event.noConfusion, hshort, .inl ⟨rfl, hin', hsection⟩⟩
  case h_8 _ _ k i hpc =>
    rw [hpc] at h
    obtain ⟨htable, hi⟩ := h
    cases hnext
    refine ⟨fun _ => Event.noConfusion, ?_, .inl ⟨rfl, trivial, htable.fill hi k⟩⟩
    show (p ++ [k]).length ≤ callbackSlots
    rw [List.length_append, List.length_singleton, ← hi]
    exact i.isLt
  case h_9 _ _ hpc =>
    rw [hpc] at h
    cases hnext
    exact ⟨fun _ => Event.noConfusion, hshort, .inr ⟨rfl, id, h⟩⟩
  case h_10 _ _ now i copied hpc =>
    rw [hpc] at h
    -- the last copy takes what was pending
    obtain ⟨hlock, hsection, hin', rfl | rfl⟩ := tickCopy_ok hshort h hnext
    · exact ⟨fun _ => Event.noConfusion, hshort, .inl ⟨hlock, hin', hsection⟩⟩
    · refine ⟨fun l hl => ?_, Nat.zero_le _, .inl ⟨hlock, hin', hsection⟩⟩
      injection hl with hl
      exact hl.symm
  case h_11 _ _ now copied hpc =>
    rw [hpc] at h
    cases hnext
    exact ⟨fun _ => Event.noConfusion, hshort, .inr ⟨rfl, id, h⟩⟩
  case h_12 => exact nomatch hnext
  all_goals
    rename_i hpc
    rw [hpc] at hin
    exact hin.elim

theorem next_self [DecidableEq T] (hnext : choreoNext x s l = some (e, s', l')) :
    l'.self = l.self := by
  simp only [choreoNext, callStep, runStep, lockStep, postScanStep, tickCopyStep] at hnext
  repeat' split at hnext
  all_goals cases hnext <;> rfl

end Tables

/-! ## Runs -/

section Runs

variable {c d : Config T (Choreo T) (Thread T)} {trace : Trace T}
  {label : T × Event}

theorem pending_snoc (trace : Trace T) (label : T × Event) :
    pending (trace ++ [label]) = pendingAfter (pending trace) label.2 := by
  unfold pending
  rw [List.foldl_append]
  rfl

theorem posts_snoc (trace : Trace T) (label : T × Event) :
    posts (trace ++ [label]) = postsAfter (posts trace) label.2 := by
  unfold posts
  rw [List.foldl_append]
  rfl

theorem taken_snoc (trace : Trace T) (label : T × Event) :
    taken (trace ++ [label]) = takenAfter (taken trace) label.2 := by
  unfold taken
  rw [List.foldl_append]
  rfl

/-- Where the thread is that holds the lock. -/
def holder (c : Config T (Choreo T) (Thread T)) : Pc :=
  c.shared.lock.elim .idle fun t => (c.locals t).pc

theorem holder_of_lock {t : T} (h : c.shared.lock = some t) : holder c = (c.locals t).pc := by
  unfold holder
  rw [h]
  rfl

variable [DecidableEq T]

theorem lastTick_snoc (t : T) (trace : Trace T) (label : T × Event) :
    lastTick t (trace ++ [label]) =
      if label.1 = t then (lastTick t trace).after label.2 else lastTick t trace := by
  unfold lastTick
  rw [List.foldl_append]
  rfl

/-- What holds after every run of fine steps. -/
structure Inv (trace : Trace T) (c : Config T (Choreo T) (Thread T)) : Prop where
  self : ∀ t, (c.locals t).self = t
  held : ∀ t, (c.locals t).pc.InSection → c.shared.lock = some t
  short : (pending trace).length ≤ callbackSlots
  table : SectionOk (pending trace) c.shared.gCallbacks (holder c)
  threads : ∀ t, ThreadOk (lastTick t trace) (c.locals t)

theorem Initial.inv (h : Initial c) : Inv [] c := by
  have hholder : holder c = .idle := by
    unfold holder
    rw [h.shared]
    rfl
  refine ⟨fun t => by rw [h.thread], fun t hin => ?_, Nat.zero_le _, ?_, fun t => ?_⟩
  · rw [h.thread] at hin
    exact hin.elim
  · rw [hholder, h.shared]
    exact fun _ => rfl
  · rw [h.thread]
    exact ⟨rfl, fun _ => rfl⟩

/-- A step of a thread that is not in a section. -/
theorem Inv.outside {t : T} {x : Choice} {e : Event} {s : Choreo T} {l : Thread T}
    (h : Inv trace c) (hout : ¬ (c.locals t).pc.InSection) (hfine : Fine c t)
    (hnext : choreoNext x c.shared (c.locals t) = some (e, s, l)) :
    (∀ u, ((c.set t s l).locals u).pc.InSection → (c.set t s l).shared.lock = some u) ∧
      SectionOk (pending trace) (c.set t s l).shared.gCallbacks (holder (c.set t s l)) := by
  obtain ⟨-, -, htable, hcase⟩ := outside_ok (p := pending trace) hout hnext
  rcases hcase with ⟨hout', hlock⟩ | ⟨f, hpc, hfree, hlock, hsection⟩
  · -- an initialisation finds the lock free, so it changes nothing
    have hsame : s.lock = c.shared.lock := by
      rcases hlock with hlock | ⟨f, hpc, hlock⟩
      · exact hlock
      · rw [Fine, hpc] at hfine
        exact hlock.trans hfine.symm
    refine ⟨fun u hin => ?_, ?_⟩
    · by_cases hu : u = t
      case pos =>
        rw [hu, Config.set_locals_self] at hin
        exact absurd hin hout'
      case neg =>
        rw [Config.set_locals_other _ hu] at hin
        exact hsame.trans (h.held u hin)
    · rw [Config.set_shared, htable]
      have hsection := h.table
      unfold holder at hsection ⊢
      rw [Config.set_shared, hsame]
      cases hholder : c.shared.lock with
      | none => rwa [hholder] at hsection
      | some u =>
          rw [hholder] at hsection
          show SectionOk _ _ ((c.set t s l).locals u).pc
          by_cases hu : u = t
          case pos =>
            rw [hu, Config.set_locals_self, sectionOk_outside hout']
            rw [hu] at hsection
            exact (sectionOk_outside hout).1 hsection
          case neg =>
            rw [Config.set_locals_other _ hu]
            exact hsection
  · have hlock : s.lock = some t := by rw [hlock, h.self t]
    -- the lock was free, so the table was in order
    have hsectionOk : TableIs (pending trace) c.shared.gCallbacks := by
      have hholder : holder c = .idle := by
        unfold holder
        rw [hfree]
        rfl
      have hidle := h.table
      rwa [hholder] at hidle
    refine ⟨fun u hin => ?_, ?_⟩
    · by_cases hu : u = t
      case pos => rw [hu, Config.set_shared, hlock]
      case neg =>
        rw [Config.set_locals_other _ hu] at hin
        rw [h.held u hin] at hfree
        exact nomatch hfree
    · rw [holder_of_lock hlock, Config.set_locals_self, Config.set_shared, htable, hsection]
      cases f with
      | post k =>
          rw [Fine, hpc] at hfine
          -- a post finds a slot, for there are fewer callbacks than slots
          obtain ⟨i, hi⟩ := hfine
          have hle := (hsectionOk.eq_none_iff i).1 hi
          exact ⟨hsectionOk, Nat.zero_le _, Nat.lt_of_le_of_lt hle i.isLt⟩
      | tick now => exact ⟨Nat.zero_le _, rfl, hsectionOk⟩

/-- A step of the thread that is in its section. -/
theorem Inv.inside {t : T} {x : Choice} {e : Event} {s : Choreo T} {l : Thread T}
    (h : Inv trace c) (hin : (c.locals t).pc.InSection)
    (hnext : choreoNext x c.shared (c.locals t) = some (e, s, l)) :
    (∀ l, e = .took l → l = pending trace) ∧
      (pendingAfter (pending trace) e).length ≤ callbackSlots ∧
      (∀ u, ((c.set t s l).locals u).pc.InSection → (c.set t s l).shared.lock = some u) ∧
      SectionOk (pendingAfter (pending trace) e) (c.set t s l).shared.gCallbacks
        (holder (c.set t s l)) := by
  have hlock := h.held t hin
  have hsection := h.table
  rw [holder_of_lock hlock] at hsection
  obtain ⟨htook, hshort, hcase⟩ := inside_ok hin h.short hsection hnext
  have hothers : ∀ u, u ≠ t → ¬ (c.locals u).pc.InSection := by
    intro u hu hin'
    have hlock' := h.held u hin'
    rw [hlock] at hlock'
    exact hu (Option.some.inj hlock').symm
  refine ⟨htook, hshort, fun u hu => ?_, ?_⟩
  · by_cases hut : u = t
    case pos =>
      rw [hut, Config.set_locals_self] at hu
      rcases hcase with ⟨hsame, -, -⟩ | ⟨-, hout, -⟩
      · rw [hut]
        exact hsame.trans hlock
      · exact absurd hu hout
    case neg =>
      rw [Config.set_locals_other _ hut] at hu
      exact absurd hu (hothers u hut)
  · rcases hcase with ⟨hsame, -, hsection'⟩ | ⟨hnone, -, htable⟩
    · have hholder : holder (c.set t s l) = l.pc := by
        rw [holder_of_lock (t := t) (hsame.trans hlock), Config.set_locals_self]
      rw [hholder]
      exact hsection'
    · have hholder : holder (c.set t s l) = .idle := by
        unfold holder
        rw [Config.set_shared, hnone]
        rfl
      rw [hholder]
      exact htable

/-- A fine step keeps the invariant, and a tick takes all that is pending. -/
theorem Inv.step (h : Inv trace c) (hstep : FineStep c label d) :
    Inv (trace ++ [label]) d ∧ ∀ l, label.2 = .took l → l = pending trace := by
  obtain ⟨hstep, hfine⟩ := hstep
  cases hstep with
  | @mk t x e s l hnext =>
      have hself : ∀ u, ((c.set t s l).locals u).self = u := by
        intro u
        by_cases hu : u = t
        case pos => rw [hu, Config.set_locals_self, next_self hnext, h.self]
        case neg => rw [Config.set_locals_other _ hu, h.self]
      have hthreads : ∀ u, ThreadOk (lastTick u (trace ++ [(t, e)])) ((c.set t s l).locals u) := by
        intro u
        rw [lastTick_snoc]
        by_cases hu : u = t
        case pos =>
          rw [hu, if_pos rfl, Config.set_locals_self]
          exact choreoNext_ok (h.threads t) hnext
        case neg =>
          rw [if_neg (Ne.symm hu), Config.set_locals_other _ hu]
          exact h.threads u
      by_cases hin : (c.locals t).pc.InSection
      case pos =>
        obtain ⟨htook, hshort, hheld, htable⟩ := h.inside hin hnext
        exact ⟨⟨hself, hheld, by rwa [pending_snoc], by rwa [pending_snoc], hthreads⟩, htook⟩
      case neg =>
        obtain ⟨hpending, htook, -, -⟩ := outside_ok (p := pending trace) hin hnext
        obtain ⟨hheld, htable⟩ := h.outside hin hfine hnext
        have hsame : pending (trace ++ [(t, e)]) = pending trace :=
          (pending_snoc ..).trans hpending
        exact ⟨⟨hself, hheld, by rw [hsame]; exact h.short, by rwa [hsame], hthreads⟩,
          fun l hl => absurd hl (htook l)⟩

omit [DecidableEq T] in
/-- The callbacks that have been posted are the ones taken and the ones pending. -/
theorem posts_step (h : posts trace = taken trace ++ pending trace)
    (htook : ∀ l, label.2 = .took l → l = pending trace) :
    posts (trace ++ [label]) = taken (trace ++ [label]) ++ pending (trace ++ [label]) := by
  rw [posts_snoc, taken_snoc, pending_snoc, h]
  obtain ⟨t, e⟩ := label
  cases e with
  | posted k stored => exact List.append_assoc ..
  | took l =>
      show _ = taken trace ++ l ++ []
      rw [htook l rfl, List.append_nil]
      rfl
  | inner | invoked | tickReturned => rfl

/-- A tick returns when nothing of what it has taken is left. -/
theorem left_of_returned {x : Choice} {s s' : Choreo T} {l l' : Thread T}
    (hnext : choreoNext x s l = some (.tickReturned, s', l')) : l.left = [] := by
  simp only [choreoNext, callStep, lockStep, postScanStep, tickCopyStep] at hnext
  split at hnext
  case h_2 =>
    unfold runStep at hnext
    unfold Thread.left
    split at hnext
    · exact nomatch hnext
    rename_i r hrunning
    split at hnext
    · exact nomatch hnext
    split at hnext
    · rename_i hrest
      rw [hrunning]
      exact hrest
    · exact nomatch hnext
  all_goals
    repeat' split at hnext
    all_goals exact nomatch hnext

/-- In every run in which no post finds the table full and the lock is not initialised while it is
held, every callback is run once, by the first tick after its post, and in order. -/
theorem frames_right (hc : Initial c) (h : Run FineStep c trace d) : FramesRight trace := by
  have hall : Inv trace d ∧ posts trace = taken trace ++ pending trace ∧
      Always (fun before label => ∀ l, label.2 = .took l → l = pending before) trace ∧
      Always (fun before label => label.2 = .tickReturned →
        (lastTick label.1 before).ran = (lastTick label.1 before).took) trace := by
    induction h with
    | refl => exact ⟨hc.inv, rfl, always_nil, always_nil⟩
    | @snoc d e trace label hrun hlast ih =>
        obtain ⟨hinv, honce, hfirst, hcomplete⟩ := ih
        obtain ⟨hinv', htook⟩ := hinv.step hlast
        refine ⟨hinv', posts_step honce htook, always_snoc hfirst htook,
          always_snoc hcomplete fun hreturned => ?_⟩
        obtain ⟨hstep, -⟩ := hlast
        cases hstep with
        | @mk t x e s l hnext =>
            have hreturned : e = .tickReturned := hreturned
            subst hreturned
            have hleft := (hinv.threads t).left
            rwa [left_of_returned hnext, List.append_nil] at hleft
  obtain ⟨hinv, honce, hfirst, hcomplete⟩ := hall
  exact ⟨honce, hfirst, fun t => ⟨_, (hinv.threads t).left⟩, hcomplete⟩

end Runs

/-! ## A full table -/

/-- One thread, before anything has been called. -/
def start : Config Unit (Choreo Unit) (Thread Unit) :=
  ⟨⟨false, none, fun _ => none⟩, fun t => ⟨t, .idle, none⟩⟩

theorem start_initial : Initial start := ⟨fun _ => rfl, rfl⟩

/-- A call and the steps of the thread after it. -/
def callSteps (f : FrameCall) (steps : Nat) : List (Unit × Choice) :=
  ((), .call f) :: List.replicate steps ((), .goesOn)

/-- Two posts and a tick that runs both. -/
def twoPosts : List (Unit × Choice) :=
  callSteps (postFrameCallback 1 2) 7 ++ callSteps (postFrameCallback64 3 4) 6 ++
    callSteps (.tick 5) 41

theorem frames_right_two_posts : ∃ trace d, Run FineStep start trace d ∧
    posts trace = [⟨false, 1, 2⟩, ⟨true, 3, 4⟩] ∧ FramesRight trace := by
  have hexec : (choreographer.execIf
      (fun c label => decide (FineAt c.shared (c.locals label.1).pc)) start twoPosts).any
      (fun r => decide (posts r.1 = [⟨false, 1, 2⟩, ⟨true, 3, 4⟩])) = true := by decide +kernel
  obtain ⟨⟨trace, d⟩, hrun, hposts⟩ := (Option.any_eq_true _ _).1 hexec
  have hfine : Run FineStep start trace d :=
    (Program.exec_if_run hrun).mono fun _ _ _ h => ⟨h.1, of_decide_eq_true (p := FineAt _ _) h.2⟩
  exact ⟨trace, d, hfine, of_decide_eq_true hposts, frames_right start_initial hfine⟩

/-- One post more than there are slots, and a tick. -/
def overfull : List (Unit × Choice) :=
  callSteps (postFrameCallback 1 2) 7 ++
    (List.range 31).flatMap (fun n => callSteps (postFrameCallback 1 2) (n + 6)) ++
    callSteps (postFrameCallback 1 2) 36 ++ callSteps (.tick 5) 35

theorem not_frames_right_overfull : ∃ trace d, Run (Step choreographer) start trace d ∧
    ¬ FramesRight trace := by
  have hexec : (choreographer.exec start overfull).any (fun r =>
      (posts r.1).length != (taken r.1 ++ pending r.1).length) = true := by decide +kernel
  obtain ⟨trace, d, hrun, hlength⟩ := Program.exec_test hexec
  refine ⟨trace, d, hrun, fun h => ?_⟩
  rw [h.once] at hlength
  simp at hlength

end Asnx.Ndk.Choreographer
