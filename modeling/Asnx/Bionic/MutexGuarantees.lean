import Asnx.Bionic.MutexOwners

/-!
# What a mutex with an owner guarantees

In every run one thread at most has a mutex, its depth is the number of times that it has locked the
mutex and not unlocked it, an unlock by another thread is refused, and a wait gives back what the
thread had (`mutex_sound`). It rests on ids of threads that are different and not 0, which is the
owner of a free mutex, and on unlocks that find the type of the mutex in its slot.
-/

namespace Asnx.Bionic.Sync

open Threads

variable {T K C : Type*} [DecidableEq T] [DecidableEq K] [DecidableEq C]

/-- The thread sleeps in a wait, without the mutex. -/
def Pc.Asleep (k : K) : Pc K C → Prop
  | .waitWake k' _ => k' = k
  | _ => False

/-- How far an unlock of a mutex has come. -/
def Pc.unlockStage : Pc K C → Option (K × Nat)
  | .unlockSlot k => some (k, 0)
  | .unlockType k => some (k, 1)
  | .unlockOwner k => some (k, 2)
  | .unlockNormal k | .unlockDepth k | .unlockLower k _ | .unlockZero k | .unlockClear k
  | .unlockRelease k => some (k, 3)
  | _ => none

/-- The next step of an unlock by a thread that does not have the mutex: the unlock goes on, or it
is refused. A mutex that has not been used has no slot. -/
def Refuses (s : Slots T K C) (k : K) (stage : Nat) (e : Event K) (pc' : Pc K C) : Prop :=
  e = .inner ∧ stage < 2 ∧ pc'.unlockStage = some (k, stage + 1) ∨
    stage = 2 ∧ e = .unlockReturns k .eperm ∧ pc' = .idle ∨
    stage = 0 ∧ s.mutex k = none ∧ e = .unlockReturns k .einval ∧ pc' = .idle

/-- What holds after a run. -/
structure Sound (tid : T → Nat) (kind : K → MutexKind) (trace : List (T × Event K))
    (c : Config T (Slots T K C) (Thread T K C)) : Prop where
  /-- Two threads have a mutex only if one of them sleeps in a wait. -/
  exclusive : ∀ k t u, unlocked trace t k < acquired trace t k →
    unlocked trace u k < acquired trace u k →
    ¬ (c.locals t).pc.Asleep k → ¬ (c.locals u).pc.Asleep k → t = u
  /-- The depth of a mutex for a thread that is not in a call about it. -/
  depth : ∀ t k, (c.locals t).pc.key ≠ some k →
    acquired trace t k = unlocked trace t k + c.shared.owned (tid t) k
  /-- An unlock by a thread that does not have the mutex can take its next step, which changes
  nothing, and is refused. -/
  refused : ∀ t k stage, acquired trace t k ≤ unlocked trace t k →
    (c.locals t).pc.unlockStage = some (k, stage) →
    (∃ e d, Step (mutexes tid kind) c (t, e) d) ∧ ∀ e d, Orderly tid kind c (t, e) d →
      d.shared = c.shared ∧ Refuses c.shared k stage e (d.locals t).pc
  /-- A wait returns with the mutex as deep as it was called. -/
  waited : ∀ t k n r d, Orderly tid kind c (t, .waitReturns k n r) d →
    acquired trace t k = unlocked trace t k + n ∧ d.shared.owned (tid t) k = n

section Sound

variable {tid : T → Nat} {kind : K → MutexKind} {c d : Config T (Slots T K C) (Thread T K C)}
  {s : Slots T K C} {l : Thread T K C} {k : K} {h : Nat} {t u : T} {trace : List (T × Event K)}

omit [DecidableEq T] [DecidableEq C] in
/-- A thread that has a mutex and does not sleep holds the `Mutex` of its slot. -/
theorem Position.holds (hposition : Position tid kind s l k h) (hpos : 0 < h)
    (hawake : ¬ l.pc.Asleep k) : ∃ slot, s.mutex k = some slot ∧ slot.m = some l.self := by
  have hhas {owner depth : Nat} (hhas : s.Has l.self k owner depth) :
      ∃ slot, s.mutex k = some slot ∧ slot.m = some l.self :=
    hhas.imp fun slot hslot => ⟨hslot.1, hslot.2.1⟩
  have hsteady (hsteady : Steady tid s l.self k h) :
      ∃ slot, s.mutex k = some slot ∧ slot.m = some l.self :=
    hhas (hsteady.resolve_left fun hlacks => absurd hlacks.1 (Nat.ne_of_gt hpos)).2
  unfold Position at hposition
  split at hposition
  · rename_i hkey
    cases hpc : l.pc <;> rw [hpc] at hposition
    case waitWake k' n =>
      rw [hpc] at hkey hawake
      exact absurd (Option.some.inj hkey) hawake
    case idle | unlockSlot => exact hsteady hposition
    case slot | known | setType | setKnown | type | owner | unlockType | unlockOwner =>
      exact hsteady hposition.1
    case «try» | block | setDepth | setOwner => exact absurd hposition.1 (Nat.ne_of_gt hpos)
    case normalTry | normalBlock | unlockNormal | normalSleep | normalWake => exact hposition.elim
    case again | unlockDepth | unlockZero | unlockClear | unlockRelease => exact hhas hposition.2
    case waitSetDepth => exact hposition.2.2.elim fun _ => hhas
    case bump | waitLower | waitRaise => exact hhas hposition.2.2.2
    all_goals exact hhas hposition.2.2
  · exact hsteady hposition

omit [DecidableEq C] in
/-- Two threads do not have a mutex at the same time. -/
theorem Inv.exclusive (hinv : Inv tid kind trace c) (ht : unlocked trace t k < acquired trace t k)
    (hu : unlocked trace u k < acquired trace u k) (htawake : ¬ (c.locals t).pc.Asleep k)
    (huawake : ¬ (c.locals u).pc.Asleep k) : t = u := by
  obtain ⟨h, -, hcount, hposition⟩ := hinv.position t k
  obtain ⟨h', -, hcount', hposition'⟩ := hinv.position u k
  obtain ⟨slot, hslot, hm⟩ := hposition.holds (by omega) htawake
  obtain ⟨slot', hslot', hm'⟩ := hposition'.holds (by omega) huawake
  obtain rfl : slot = slot' := Option.some.inj (hslot.symm.trans hslot')
  have hself := Option.some.inj (hm.symm.trans hm')
  rwa [hinv.self, hinv.self] at hself

omit [DecidableEq C] in
/-- The depth is what the thread has locked and not unlocked. -/
theorem Inv.depth (hinv : Inv tid kind trace c) (hkey : (c.locals t).pc.key ≠ some k) :
    acquired trace t k = unlocked trace t k + c.shared.owned (tid t) k := by
  obtain ⟨h, -, hcount, hposition⟩ := hinv.position t k
  have hsteady := (position_other hkey).1 hposition
  rw [hinv.self] at hsteady
  rw [hsteady.owned, hcount]

omit [DecidableEq T] in
/-- What an unlock of a mutex that the thread does not have may do. -/
theorem refused_next {stage : Nat} (hposition : Position tid kind s l k 0)
    (hstage : l.pc.unlockStage = some (k, stage)) :
    (∀ x : Choice K C, ∃ step, syncNext tid kind x s l = some step) ∧ ∀ x e s' l',
      syncNext tid kind x s l = some (e, s', l') → e ≠ .untyped k →
        s' = s ∧ Refuses s k stage e l'.pc := by
  have hbusy (hkey : l.pc.key = some k) := (position_busy hkey).1 hposition
  cases hpc : l.pc with
  | unlockSlot k' =>
      rw [hpc] at hstage
      cases hstage
      simp only [syncNext, hpc]
      cases hslot : s.mutex k with
      | none =>
          refine ⟨fun x => ⟨_, rfl⟩, fun x e s' l' hnext _ => ?_⟩
          cases hnext
          exact ⟨rfl, .inr (.inr ⟨rfl, hslot, rfl, rfl⟩)⟩
      | some slot =>
          refine ⟨fun x => ⟨_, rfl⟩, fun x e s' l' hnext _ => ?_⟩
          cases hnext
          exact ⟨rfl, .inl ⟨rfl, Nat.succ_pos 1, rfl⟩⟩
  | unlockType k' =>
      rw [hpc] at hstage
      cases hstage
      rw [hpc] at hbusy
      obtain ⟨-, slot, hslot⟩ := hbusy rfl
      simp only [syncNext, hpc, Pc.key, Option.bind_some, hslot, slotNext]
      cases slot.type with
      | none =>
          refine ⟨fun x => ⟨_, rfl⟩, fun x e s' l' hnext htyped => ?_⟩
          cases hnext
          exact absurd rfl htyped
      | some type =>
          refine ⟨fun x => ⟨_, rfl⟩, fun x e s' l' hnext _ => ?_⟩
          cases hnext
          exact ⟨rfl, .inl ⟨rfl, Nat.lt_succ_self 1, rfl⟩⟩
  -- the owner is another thread or nobody, so the unlock is refused here
  | unlockOwner k' =>
      rw [hpc] at hstage
      cases hstage
      rw [hpc] at hbusy
      obtain ⟨hsteady, slot, hslot⟩ := hbusy rfl
      have howner : slot.owner ≠ tid l.self := fun howner =>
        absurd (hsteady.of_owner hslot howner).1 (Nat.lt_irrefl 0)
      simp only [syncNext, hpc, Pc.key, Option.bind_some, hslot, slotNext, if_neg howner]
      refine ⟨fun x => ⟨_, rfl⟩, fun x e s' l' hnext _ => ?_⟩
      cases hnext
      exact ⟨rfl, .inr (.inl ⟨rfl, rfl, rfl⟩)⟩
  -- the points behind the check of the owner are reached by owners only
  | unlockNormal k' | unlockDepth k' | unlockLower k' d | unlockZero k' | unlockClear k'
  | unlockRelease k' =>
      rw [hpc] at hstage hbusy
      cases hstage
      have hok := hbusy rfl
      simp [Pc.Ok] at hok
  | _ =>
      rw [hpc] at hstage
      cases hstage

/-- A thread that does not have the mutex is refused. -/
theorem Inv.refused (hinv : Inv tid kind trace c) (hfew : acquired trace t k ≤ unlocked trace t k)
    {stage : Nat} (hstage : (c.locals t).pc.unlockStage = some (k, stage)) :
    (∃ e d, Step (mutexes tid kind) c (t, e) d) ∧ ∀ e d, Orderly tid kind c (t, e) d →
      d.shared = c.shared ∧ Refuses c.shared k stage e (d.locals t).pc := by
  obtain ⟨h, -, hcount, hposition⟩ := hinv.position t k
  obtain rfl : h = 0 := by omega
  obtain ⟨hpossible, hnext⟩ := refused_next hposition hstage
  refine ⟨?_, ?_⟩
  · obtain ⟨⟨e, s, l⟩, hstep⟩ := hpossible ⟨.lock k, true, true, none, .ok⟩
    exact ⟨e, _, .mk hstep⟩
  · rintro e d ⟨hstep, htyped⟩
    cases hstep with
    | mk hstep =>
        rw [Config.set_shared, Config.set_locals_self]
        exact hnext _ _ _ _ hstep (htyped k)

/-- A wait gives back what the thread had. -/
theorem Inv.waited (hzero : ∀ t, tid t ≠ 0) (hinv : Inv tid kind trace c) {n : Nat} {r : Result}
    (hstep : Orderly tid kind c (t, .waitReturns k n r) d) :
    acquired trace t k = unlocked trace t k + n ∧ d.shared.owned (tid t) k = n := by
  obtain ⟨hstep, htyped⟩ := hstep
  cases hstep with
  | @mk _ x _ s l hnext =>
      have hself := hinv.self t
      cases hkey : (c.locals t).pc.key with
      | none =>
          simp only [mutexes, syncNext, Pc.key_eq_none.1 hkey] at hnext
          cases (request_position kind hnext).2.2.1
      | some k' =>
          obtain ⟨h, hle, hcount, hposition⟩ := hinv.position t k'
          obtain ⟨hl, hmoved⟩ := sync_next_moved (by rw [hself]; exact hzero t) hkey (hinv.slots k')
            hle ((position_busy hkey).1 hposition) hnext (htyped k')
          have hidle : l.pc = .idle := by
            rcases hmoved.place with hidle | ⟨hinner, -⟩
            · exact hidle
            · cases hinner
          obtain ⟨h', -, hok, rfl, rfl, rfl⟩ := hmoved.after
          rw [hidle, hself] at hok
          exact ⟨hcount, Steady.owned hok⟩

/-- After every run in which each unlock finds the type of the mutex. -/
theorem mutex_sound (hinj : Function.Injective tid) (hzero : ∀ t, tid t ≠ 0)
    (hinit : Initial kind c)
    (hrun : Run (Orderly tid kind) c trace d) : Sound tid kind trace d := by
  have hinv := Inv.run hinj hzero hinit hrun
  exact ⟨fun k t u => hinv.exclusive, fun t k => hinv.depth,
    fun t k stage hfew hstage => hinv.refused hfew hstage, fun t k n r d => hinv.waited hzero⟩

end Sound

/-! ## Runs of two threads -/

/-- Two threads with the given ids and a recursive mutex without a slot. -/
def unused : Config Bool (Slots Bool Unit Unit) (Thread Bool Unit Unit) :=
  ⟨⟨fun _ => none, fun _ => none⟩, fun t => ⟨t, .idle⟩⟩

theorem initial_unused : Initial (fun _ => .recursive) unused :=
  ⟨fun _ => rfl, fun _ => rfl, fun _ _ h => (nomatch h), fun _ => rfl⟩

/-- A call and its steps, with room for its slots. -/
def calling (t : Bool) (request : Request Unit Unit) (steps : Nat) :
    List (Bool × Choice Unit Unit) :=
  List.replicate (steps + 1) (t, ⟨request, true, true, none, .ok⟩)

/-- A thread locks the mutex twice and waits; then another thread tries to unlock it. -/
theorem mutex_sound_example : ∃ trace d,
    Run (Orderly (fun t => if t then 2 else 1) fun _ => .recursive) unused trace d ∧
    (false, .waitReturns () 2 .ok) ∈ trace ∧ (true, .unlockReturns () .eperm) ∈ trace ∧
    Sound (fun t => if t then 2 else 1) (fun _ => .recursive) trace d := by
  have hrun : ((mutexes (fun t => if t then 2 else 1) fun _ => .recursive).execIf
      (fun _ label => decide (label.2 ≠ .untyped ())) unused
      (calling false (.lock ()) 9 ++ calling false (.lock ()) 6 ++ calling false
        (.wait () () false) 12 ++
        calling true (.unlock ()) 3)).any (fun r => decide ((false, .waitReturns () 2 .ok) ∈ r.1 ∧
          (true, .unlockReturns () .eperm) ∈ r.1)) = true := by
    decide
  obtain ⟨⟨trace, d⟩, hexec, hmem⟩ := (Option.any_eq_true _ _).1 hrun
  have horderly : Run (Orderly (fun t => if t then 2 else 1) fun _ => .recursive) unused trace d :=
    (Program.exec_if_run hexec).mono fun _ _ _ h => ⟨h.1, fun _ => of_decide_eq_true h.2⟩
  obtain ⟨hwait, hunlock⟩ := of_decide_eq_true hmem
  exact ⟨trace, d, horderly, hwait, hunlock,
    mutex_sound (by unfold Function.Injective; decide) (by decide) initial_unused horderly⟩

/-- An unlock of a recursive mutex that has not been used does not return `EPERM`; two threads have
a mutex at the same time if the id of one of them is 0; and an unlock by a thread that does not
have the mutex succeeds if it comes before the type of the mutex is written. -/
theorem mutex_not_sound :
    (∃ trace d, Run (Step (mutexes (fun t => if t then 2 else 1) fun _ => .recursive))
      unused trace d ∧
      trace = [(false, .inner), (false, .unlockReturns () .einval)]) ∧
    (∃ trace d, Run (Step (mutexes (fun t => if t then 1 else 0) fun _ => .recursive))
      unused trace d ∧
      ∀ t, acquired trace t () = 1 ∧ unlocked trace t () = 0 ∧ (d.locals t).pc = .idle) ∧
    ∃ trace d, Run (Step (mutexes (fun t => if t then 2 else 1) fun _ => .recursive))
      unused trace d ∧
      acquired trace true () = 0 ∧ (true, .unlockReturns () .ok) ∈ trace := by
  refine ⟨?_, ?_, ?_⟩
  · have hrun : ((mutexes (fun t => if t then 2 else 1) fun _ => .recursive).exec unused
        (calling false (.unlock ()) 1)).any (fun r => decide (r.1 =
          [(false, .inner), (false, .unlockReturns () .einval)])) = true := by
      decide
    obtain ⟨trace, d, hrun, htrace⟩ := Program.exec_test hrun
    exact ⟨trace, d, hrun, of_decide_eq_true htrace⟩
  · have hrun : ((mutexes (fun t => if t then 1 else 0) fun _ => .recursive).exec unused
        (calling false (.lock ()) 8 ++ calling true (.lock ()) 7)).any (fun r => decide
          (∀ t, acquired r.1 t () = 1 ∧ unlocked r.1 t () = 0 ∧ (r.2.locals t).pc = .idle)) =
            true := by
      decide
    obtain ⟨trace, d, hrun, htrace⟩ := Program.exec_test hrun
    exact ⟨trace, d, hrun, of_decide_eq_true htrace⟩
  · have hrun : ((mutexes (fun t => if t then 2 else 1) fun _ => .recursive).exec unused
        (calling false (.lock ()) 1 ++ calling true (.unlock ()) 3)).any (fun r => decide
          (acquired r.1 true () = 0 ∧ (true, .unlockReturns () .ok) ∈ r.1)) = true := by
      decide
    obtain ⟨trace, d, hrun, htrace⟩ := Program.exec_test hrun
    exact ⟨trace, d, hrun, of_decide_eq_true htrace⟩

end Asnx.Bionic.Sync
