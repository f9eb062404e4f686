import Asnx.Bionic.Futexes
import Mathlib.Data.Finset.Card
import Mathlib.Data.List.Nodup

/-!
# The queue of a futex

`FutexSlot.Ok` says who may be in the queue of a slot and what its number of waiting threads
counts: the threads in the queue, those that have been woken and have not gone on, and the one
between reading the word and going to sleep, which holds the `Mutex`. Every step keeps it for every
slot (`Inv.step`).
-/

namespace Asnx.Bionic.Futex

open Threads Probing

variable {T : Type*}

/-! ## Waking -/

section Wake

variable {pick : List T → Nat} {cv : List T} {n waiters : Nat}

theorem wakeOne_sublist : (wakeOne pick cv).Sublist cv := List.eraseIdx_sublist ..

theorem length_wakeOne : (wakeOne pick cv).length = cv.length - 1 := by
  cases cv with
  | nil => rfl
  | cons t cv => exact List.length_eraseIdx_of_lt (Nat.mod_lt _ (Nat.succ_pos _))

theorem wakeSome_sublist : (wakeSome pick n cv).Sublist cv := by
  induction n generalizing cv with
  | zero => exact List.Sublist.refl cv
  | succ n ih => exact ih.trans wakeOne_sublist

theorem length_wakeSome : (wakeSome pick n cv).length = cv.length - n := by
  induction n generalizing cv with
  | zero => rfl
  | succ n ih =>
      rw [wakeSome, ih, length_wakeOne]
      omega

theorem wake_sublist : (wake pick n waiters cv).Sublist cv := by
  unfold wake
  split
  · exact wakeOne_sublist
  · split
    · split
      · exact List.nil_sublist cv
      · exact wakeSome_sublist
    · exact List.Sublist.refl cv

/-- Where every thread in the queue is counted, `FUTEX_WAKE` wakes as many as it should. -/
theorem length_wake (hle : cv.length ≤ waiters) :
    (wake pick (wakeCount n waiters) waiters cv).length + min n cv.length = cv.length := by
  unfold wake wakeCount
  split
  · split
    · rw [length_wakeOne]
      omega
    · split
      · split
        · rw [List.length_nil]
          omega
        · rw [length_wakeSome]
          omega
      · omega
  · split
    · rw [length_wakeOne]
      omega
    · split
      · rw [if_pos (Nat.le_refl _), List.length_nil]
        omega
      · omega

end Wake

/-! ## What a step does -/

/-- The steps of a thread, from place to place. -/
inductive Turn (s : Futexes T) (t : T) : Pc → Event → Futexes T → Pc → Prop where
  | store (u v) : Turn s t .idle (.stored u v)
    { s with memory := Function.update s.memory u v } .idle
  | fails (r) : Turn s t .idle (.fails r) s .idle
  | callWait (u val timeout) : Turn s t .idle .inner s (.waitSlot u val timeout)
  | callWake (u n) : 0 < n → Turn s t .idle .inner s (.wakeSlot u n)
  | waitFound (u val timeout i) : s.keys i = some u →
      Turn s t (.waitSlot u val timeout) .inner s (.waitLock u val timeout i)
  | waitEntered (u val timeout i) : probe s.keys u (futexPlace u) futexSlots 0 = .free i →
      Turn s t (.waitSlot u val timeout) .inner (s.put i (.fresh u)) (.waitLock u val timeout i)
  | waitFull (u val timeout) : Turn s t (.waitSlot u val timeout)
    (.waitReturns u val .enomem) s .idle
  | differs (u val timeout i) : s.memory u ≠ val →
      Turn s t (.waitLock u val timeout i) (.waitReturns u val .eagain) s .idle
  | checks (u val timeout i slot) : s.slots i = some slot → slot.m = none → s.memory u = val →
      Turn s t (.waitLock u val timeout i) (.checked u val)
        (s.put i { slot with m := some t, waiters := slot.waiters + 1 })
          (.waitSleep u val timeout i)
  | refuses (u val timeout i slot) : s.slots i = some slot →
      Turn s t (.waitSleep u val timeout i) (.waitReturns u val .einval)
        (s.put i { slot with m := none, waiters := slot.waiters - 1 }) .idle
  | sleeps (u val timeout i slot) : s.slots i = some slot →
      Turn s t (.waitSleep u val timeout i) (.slept u val)
        (s.put i { slot with m := none, cv := t :: slot.cv }) (.asleep u val i)
  | leaves (u val i slot) : s.slots i = some slot → t ∉ slot.cv →
      Turn s t (.asleep u val i) (.waitReturns u val (.value 0))
        (s.put i { slot with waiters := slot.waiters - 1 }) .idle
  | wakeFound (u n i) : s.keys i = some u → Turn s t (.wakeSlot u n) .inner s (.wakeLock u n i)
  | wakeNone (u n) : (∀ i, probe s.keys u (futexPlace u) futexSlots 0 ≠ .hit i) →
      Turn s t (.wakeSlot u n) (.wakes u n (.value 0)) s .idle
  | wakes (u n i slot pick) : s.slots i = some slot → slot.m = none →
      Turn s t (.wakeLock u n i) (.wakes u n (.value (wakeCount n slot.waiters)))
        (s.put i { slot with cv := wake pick (wakeCount n slot.waiters) slot.waiters slot.cv })
          .idle

/-! ## Slots -/

/-- The slot that a thread uses, and its word. -/
def Pc.slot : Pc → Option (Word × Nat)
  | .waitLock u _ _ i | .waitSleep u _ _ i | .asleep u _ i | .wakeLock u _ i => some (u, i)
  | _ => none

/-- The slot in which a thread is counted. -/
def Pc.counted : Pc → Option Nat
  | .waitSleep _ _ _ i | .asleep _ _ i => some i
  | _ => none

/-- What holds of a slot when the threads are at the given places. -/
structure FutexSlot.Ok (pcs : T → Pc) (i : Nat) (slot : FutexSlot T) : Prop where
  holder : ∀ t, slot.m = some t ↔ ∃ u val timeout, pcs t = .waitSleep u val timeout i
  nodup : slot.cv.Nodup
  asleep : ∀ t ∈ slot.cv, ∃ u val, pcs t = .asleep u val i
  waiters : ∃ s : Finset T, s.card = slot.waiters ∧ ∀ t, t ∈ s ↔ (pcs t).counted = some i

section Ok

variable [DecidableEq T] {pcs : T → Pc} {i : Nat} {slot : FutexSlot T} {t : T} {pc : Pc} {u : Word}
  {val : Int} {timeout : Option Timespec}

omit [DecidableEq T] in
/-- The queue is not longer than the number of waiting threads. -/
theorem FutexSlot.Ok.length_le (hok : slot.Ok pcs i) : slot.cv.length ≤ slot.waiters := by
  classical
  obtain ⟨s, hcard, hs⟩ := hok.waiters
  rw [← hcard, ← List.toFinset_card_of_nodup hok.nodup]
  refine Finset.card_le_card fun t ht => (hs t).2 ?_
  obtain ⟨u, val, hpc⟩ := hok.asleep t (List.mem_toFinset.1 ht)
  rw [hpc]
  rfl

omit [DecidableEq T] in
/-- A new slot. -/
theorem FutexSlot.fresh_ok (key : Word) (hcounted : ∀ t, (pcs t).counted ≠ some i) :
    (FutexSlot.fresh key).Ok pcs i where
  holder t := by
    refine ⟨nofun, ?_⟩
    rintro ⟨u, val, timeout, hpc⟩
    exact absurd (by rw [hpc]; rfl) (hcounted t)
  nodup := List.nodup_nil
  asleep _ ht := nomatch ht
  waiters := ⟨∅, rfl, fun t => ⟨fun ht => absurd ht (Finset.notMem_empty t),
    fun ht => absurd ht (hcounted t)⟩⟩

/-- A step of a thread that is not counted in the slot, before and after. -/
theorem FutexSlot.Ok.frame (hok : slot.Ok pcs i) (hbefore : (pcs t).counted ≠ some i)
    (hafter : pc.counted ≠ some i) : slot.Ok (Function.update pcs t pc) i where
  holder v := by
    by_cases hv : v = t
    · subst hv
      rw [Function.update_self, hok.holder v]
      constructor
      · rintro ⟨u, val, timeout, hpc⟩
        exact absurd (by rw [hpc]; rfl) hbefore
      · rintro ⟨u, val, timeout, hpc⟩
        exact absurd (by rw [hpc]; rfl) hafter
    · rw [Function.update_of_ne hv, hok.holder v]
  nodup := hok.nodup
  asleep v hv := by
    obtain ⟨u, val, hpc⟩ := hok.asleep v hv
    have hne : v ≠ t := by
      rintro rfl
      exact absurd (by rw [hpc]; rfl) hbefore
    exact ⟨u, val, by rw [Function.update_of_ne hne, hpc]⟩
  waiters := by
    obtain ⟨s, hcard, hs⟩ := hok.waiters
    refine ⟨s, hcard, fun v => ?_⟩
    by_cases hv : v = t
    · subst hv
      rw [Function.update_self, hs v]
      exact ⟨fun h => absurd h hbefore, fun h => absurd h hafter⟩
    · rw [Function.update_of_ne hv, hs v]

/-- The threads that are counted after one more is. -/
theorem FutexSlot.Ok.waiters_insert (hok : slot.Ok pcs i) (hbefore : (pcs t).counted ≠ some i)
    (hafter : pc.counted = some i) : ∃ s : Finset T, s.card = slot.waiters + 1 ∧
      ∀ v, v ∈ s ↔ (Function.update pcs t pc v).counted = some i := by
  obtain ⟨s, hcard, hs⟩ := hok.waiters
  have ht : t ∉ s := fun ht => hbefore ((hs t).1 ht)
  refine ⟨insert t s, by rw [Finset.card_insert_of_notMem ht, hcard], fun v => ?_⟩
  rw [Finset.mem_insert]
  by_cases hv : v = t
  · subst hv
    rw [Function.update_self]
    exact ⟨fun _ => hafter, fun _ => .inl rfl⟩
  · rw [Function.update_of_ne hv, ← hs v]
    exact ⟨fun h => h.resolve_left hv, .inr⟩

/-- The threads that are counted after one has left. -/
theorem FutexSlot.Ok.waiters_erase (hok : slot.Ok pcs i) (hbefore : (pcs t).counted = some i)
    (hafter : pc.counted ≠ some i) : ∃ s : Finset T, s.card = slot.waiters - 1 ∧
      ∀ v, v ∈ s ↔ (Function.update pcs t pc v).counted = some i := by
  obtain ⟨s, hcard, hs⟩ := hok.waiters
  refine ⟨s.erase t, by rw [Finset.card_erase_of_mem ((hs t).2 hbefore), hcard], fun v => ?_⟩
  rw [Finset.mem_erase]
  by_cases hv : v = t
  · subst hv
    rw [Function.update_self]
    exact ⟨fun h => absurd rfl h.1, fun h => absurd h hafter⟩
  · rw [Function.update_of_ne hv, ← hs v]
    exact ⟨fun h => h.2, fun h => ⟨hv, h⟩⟩

omit [DecidableEq T] in
/-- The thread that holds the `Mutex` is not in the queue. -/
theorem FutexSlot.Ok.not_mem (hok : slot.Ok pcs i) (hpc : ∀ u val, pcs t ≠ .asleep u val i) :
    t ∉ slot.cv := fun ht => by
  obtain ⟨u, val, h⟩ := hok.asleep t ht
  exact hpc u val h

/-- A wait has found its value. -/
theorem FutexSlot.Ok.check (hok : slot.Ok pcs i) (hfree : slot.m = none)
    (hbefore : (pcs t).counted = none) :
    FutexSlot.Ok (Function.update pcs t (.waitSleep u val timeout i)) i
      { slot with m := some t, waiters := slot.waiters + 1 } where
  holder v := by
    by_cases hv : v = t
    · subst hv
      rw [Function.update_self]
      exact ⟨fun _ => ⟨u, val, timeout, rfl⟩, fun _ => rfl⟩
    · rw [Function.update_of_ne hv, ← hok.holder v, hfree]
      exact ⟨fun h => absurd (Option.some.inj h).symm hv, nofun⟩
  nodup := hok.nodup
  asleep v hv := by
    obtain ⟨u', val', hpc⟩ := hok.asleep v hv
    have hne : v ≠ t := by
      rintro rfl
      rw [hpc] at hbefore
      cases hbefore
    exact ⟨u', val', by rw [Function.update_of_ne hne, hpc]⟩
  waiters := hok.waiters_insert (by rw [hbefore]; exact nofun) rfl

/-- Nobody holds the `Mutex` after its holder has gone on. -/
theorem FutexSlot.Ok.released (hok : slot.Ok pcs i) (hm : slot.m = some t)
    (hafter : ∀ u val timeout, pc ≠ .waitSleep u val timeout i) (v : T) :
    (none : Option T) = some v ↔ ∃ u val timeout, Function.update pcs t pc v =
      .waitSleep u val timeout i := by
  refine ⟨nofun, ?_⟩
  rintro ⟨u, val, timeout, hpc⟩
  by_cases hv : v = t
  · subst hv
    rw [Function.update_self] at hpc
    exact absurd hpc (hafter u val timeout)
  · rw [Function.update_of_ne hv] at hpc
    have hv' := (hok.holder v).2 ⟨u, val, timeout, hpc⟩
    exact absurd (Option.some.inj (hv'.symm.trans hm)) hv

/-- A wait refuses its timeout. -/
theorem FutexSlot.Ok.refuse (hok : slot.Ok pcs i) (hpc : pcs t = .waitSleep u val timeout i) :
    FutexSlot.Ok (Function.update pcs t .idle) i
      { slot with m := none, waiters := slot.waiters - 1 } where
  holder := hok.released ((hok.holder t).2 ⟨u, val, timeout, hpc⟩) nofun
  nodup := hok.nodup
  asleep v hv := by
    obtain ⟨u', val', hpc'⟩ := hok.asleep v hv
    have hne : v ≠ t := by
      rintro rfl
      rw [hpc] at hpc'
      cases hpc'
    exact ⟨u', val', by rw [Function.update_of_ne hne, hpc']⟩
  waiters := hok.waiters_erase (by rw [hpc]; rfl) nofun

/-- A wait goes to sleep. -/
theorem FutexSlot.Ok.sleep (hok : slot.Ok pcs i) (hpc : pcs t = .waitSleep u val timeout i) :
    FutexSlot.Ok (Function.update pcs t (.asleep u val i)) i
      { slot with m := none, cv := t :: slot.cv } where
  holder := hok.released ((hok.holder t).2 ⟨u, val, timeout, hpc⟩) nofun
  nodup := List.nodup_cons.2 ⟨hok.not_mem fun u' val' h => (nomatch hpc.symm.trans h), hok.nodup⟩
  asleep v hv := by
    rcases List.mem_cons.1 hv with rfl | hv
    · exact ⟨u, val, Function.update_self ..⟩
    · obtain ⟨u', val', hpc'⟩ := hok.asleep v hv
      have hne : v ≠ t := by
        rintro rfl
        rw [hpc] at hpc'
        cases hpc'
      exact ⟨u', val', by rw [Function.update_of_ne hne, hpc']⟩
  waiters := by
    obtain ⟨s, hcard, hs⟩ := hok.waiters
    refine ⟨s, hcard, fun v => ?_⟩
    by_cases hv : v = t
    · subst hv
      rw [Function.update_self, hs v, hpc]
      rfl
    · rw [Function.update_of_ne hv, hs v]

/-- A thread that has been woken goes on. -/
theorem FutexSlot.Ok.leave (hok : slot.Ok pcs i) (hpc : pcs t = .asleep u val i)
    (ht : t ∉ slot.cv) :
    FutexSlot.Ok (Function.update pcs t .idle) i { slot with waiters := slot.waiters - 1 } where
  holder v := by
    by_cases hv : v = t
    · subst hv
      rw [Function.update_self, hok.holder v, hpc]
      exact ⟨fun ⟨_, _, _, h⟩ => (nomatch h), fun ⟨_, _, _, h⟩ => (nomatch h)⟩
    · rw [Function.update_of_ne hv, ← hok.holder v]
  nodup := hok.nodup
  asleep v hv := by
    have hne : v ≠ t := by
      rintro rfl
      exact ht hv
    rw [Function.update_of_ne hne]
    exact hok.asleep v hv
  waiters := hok.waiters_erase (by rw [hpc]; rfl) nofun

omit [DecidableEq T] in
/-- Threads leave the queue. -/
theorem FutexSlot.Ok.shorten (hok : slot.Ok pcs i) {cv : List T} (hcv : cv.Sublist slot.cv) :
    FutexSlot.Ok pcs i { slot with cv := cv } where
  holder := hok.holder
  nodup := hok.nodup.sublist hcv
  asleep v hv := hok.asleep v (hcv.subset hv)
  waiters := hok.waiters

end Ok

/-! ## The invariant -/

section Invariant

variable [DecidableEq T]

/-- Where the threads are. -/
def pcs (c : Config T (Futexes T) (Thread T)) (t : T) : Pc := (c.locals t).pc

/-- The invariant. -/
structure Inv (c : Config T (Futexes T) (Thread T)) : Prop where
  self : ∀ t, (c.locals t).self = t
  findable : Findable c.shared.keys futexPlace futexSlots
  located : ∀ t u i, (pcs c t).slot = some (u, i) → c.shared.keys i = some u
  slots : ∀ i slot, c.shared.slots i = some slot → slot.Ok (pcs c) i

variable {c d : Config T (Futexes T) (Thread T)} {s s' : Futexes T} {l l' : Thread T} {t : T}
  {e : Event} {i : Nat} {slot slot' : FutexSlot T} {pc : Pc} {u : Word} {val : Int}
  {timeout : Option Timespec} {x : Choice T}

theorem pcs_set : pcs (c.set t s (l.goto pc)) = Function.update (pcs c) t pc := by
  funext v
  by_cases hv : v = t
  · subst hv
    simp [pcs, Thread.goto]
  · simp [pcs, Function.update_of_ne hv, Config.set_locals_other _ hv]

/-- After a step every thread knows itself. -/
theorem Inv.self_step (hinv : Inv c) (v : T) :
    ((c.set t s ((c.locals t).goto pc)).locals v).self = v := by
  by_cases hv : v = t
  · subst hv
    rw [Config.set_locals_self]
    exact hinv.self v
  · rw [Config.set_locals_other _ hv]
    exact hinv.self v

omit [DecidableEq T] in
theorem slot_of_counted {pc : Pc} (h : pc.counted = some i) : ∃ u, pc.slot = some (u, i) := by
  cases pc <;> cases h <;> exact ⟨_, rfl⟩

/-- A step to a new place that leaves the slots alone. -/
theorem Inv.keep (hinv : Inv c) (hs : s.slots = c.shared.slots) (hbefore : (pcs c t).counted = none)
    (hafter : pc.counted = none) (hlocated : ∀ u i, pc.slot = some (u, i) → s.keys i = some u) :
    Inv (c.set t s ((c.locals t).goto pc)) where
  self := hinv.self_step
  findable := by
    have hkeys : s.keys = c.shared.keys := by
      funext i
      rw [Futexes.keys, hs]
      rfl
    rw [Config.set_shared, hkeys]
    exact hinv.findable
  located v u i hv := by
    rw [pcs_set] at hv
    by_cases hvt : v = t
    · subst hvt
      rw [Function.update_self] at hv
      exact hlocated u i hv
    · rw [Function.update_of_ne hvt] at hv
      rw [Config.set_shared, Futexes.keys, hs]
      exact hinv.located v u i hv
  slots i slot hslot := by
    rw [Config.set_shared, hs] at hslot
    rw [pcs_set]
    exact (hinv.slots i slot hslot).frame (by rw [hbefore]; exact nofun)
      (by rw [hafter]; exact nofun)

omit [DecidableEq T] in
@[simp] theorem put_slots_self : (s.put i slot).slots i = some slot := Function.update_self ..

omit [DecidableEq T] in
theorem put_slots_other {j : Nat} (hj : j ≠ i) : (s.put i slot).slots j = s.slots j :=
  Function.update_of_ne hj ..

omit [DecidableEq T] in
/-- The keys after a slot has been written. -/
theorem keys_put_eq : (s.put i slot).keys = Function.update s.keys i (some slot.key) := by
  funext j
  by_cases hj : j = i
  · subst hj
    simp [Futexes.keys]
  · simp [Futexes.keys, put_slots_other hj, Function.update_of_ne hj]

omit [DecidableEq T] in
/-- The keys stay when a slot keeps its key. -/
theorem keys_put (hslot : s.slots i = some slot) (hkey : slot'.key = slot.key) :
    (s.put i slot').keys = s.keys := by
  rw [keys_put_eq, hkey]
  exact Function.update_eq_self_iff.2 (by simp [Futexes.keys, hslot])

/-- A step that writes the slot that the thread uses. -/
theorem Inv.put (hinv : Inv c) (hslot : c.shared.slots i = some slot) (hkey : slot'.key = slot.key)
    (hbefore : ∀ j, (pcs c t).counted = some j → j = i)
    (hafter : pc = .idle ∨ pc.slot = (pcs c t).slot) (hcounted : ∀ j, pc.counted = some j → j = i)
    (hok : slot'.Ok (Function.update (pcs c) t pc) i) :
    Inv (c.set t (c.shared.put i slot') ((c.locals t).goto pc)) where
  self := hinv.self_step
  findable := by
    rw [Config.set_shared, keys_put hslot hkey]
    exact hinv.findable
  located v u j hv := by
    rw [Config.set_shared, keys_put hslot hkey]
    rw [pcs_set] at hv
    by_cases hvt : v = t
    · subst hvt
      rw [Function.update_self] at hv
      rcases hafter with rfl | hafter
      · cases hv
      · exact hinv.located v u j (hafter.symm.trans hv)
    · rw [Function.update_of_ne hvt] at hv
      exact hinv.located v u j hv
  slots j slot hj := by
    rw [pcs_set]
    rw [Config.set_shared] at hj
    by_cases hji : j = i
    · subst hji
      rw [put_slots_self] at hj
      cases hj
      exact hok
    · rw [put_slots_other hji] at hj
      exact (hinv.slots j slot hj).frame (fun h => hji (hbefore j h)) (fun h => hji (hcounted j h))

omit [DecidableEq T] in
/-- What `futex_slot_get` may come to. -/
theorem futexSlotGet_cases (s : Futexes T) (u : Word) (create : Bool) :
    (∃ i, futexSlotGet s u create = (some i, s) ∧ s.keys i = some u) ∨
    (∃ i, futexSlotGet s u create = (some i, s.put i (.fresh u)) ∧
      probe s.keys u (futexPlace u) futexSlots 0 = .free i) ∨
    (futexSlotGet s u create = (none, s) ∧
      ∀ i, probe s.keys u (futexPlace u) futexSlots 0 ≠ .hit i) := by
  unfold futexSlotGet
  cases hprobe : probe s.keys u (futexPlace u) futexSlots 0 with
  | hit i => exact .inl ⟨i, rfl, probe_hit hprobe⟩
  | full => exact .inr (.inr ⟨rfl, nofun⟩)
  | free i =>
      cases create with
      | true => exact .inr (.inl ⟨i, rfl, rfl⟩)
      | false => exact .inr (.inr ⟨rfl, nofun⟩)

/-- A step that enters a slot for a word. -/
theorem Inv.enter (hinv : Inv c)
    (hfree : probe c.shared.keys u (futexPlace u) futexSlots 0 = .free i)
    (hbefore : (pcs c t).counted = none) (hafter : pc.counted = none)
    (hpc : pc.slot = some (u, i)) :
    Inv (c.set t (c.shared.put i (.fresh u)) ((c.locals t).goto pc)) where
  self := hinv.self_step
  findable := by
    rw [Config.set_shared, keys_put_eq]
    exact hinv.findable.enter hfree
  located v u' j hv := by
    rw [Config.set_shared, keys_put_eq]
    rw [pcs_set] at hv
    by_cases hvt : v = t
    · subst hvt
      rw [Function.update_self, hpc] at hv
      cases hv
      exact Function.update_self ..
    · rw [Function.update_of_ne hvt] at hv
      have hkey := hinv.located v u' j hv
      have hji : j ≠ i := by
        rintro rfl
        rw [probe_free hfree] at hkey
        cases hkey
      rw [Function.update_of_ne hji]
      exact hkey
  slots j slot hj := by
    rw [pcs_set]
    rw [Config.set_shared] at hj
    by_cases hji : j = i
    · subst hji
      rw [put_slots_self] at hj
      cases hj
      refine FutexSlot.Ok.frame (FutexSlot.fresh_ok u fun v hv => ?_) (by rw [hbefore]; exact nofun)
        (by rw [hafter]; exact nofun)
      obtain ⟨u', hu'⟩ := slot_of_counted hv
      have hkey := hinv.located v u' j hu'
      rw [probe_free hfree] at hkey
      cases hkey
    · rw [put_slots_other hji] at hj
      exact (hinv.slots j slot hj).frame (by rw [hbefore]; exact nofun)
        (by rw [hafter]; exact nofun)

/-! ## Every step -/

omit [DecidableEq T] in
theorem goto_eq (h : l.pc = pc) : l.goto pc = l := by
  obtain ⟨self, pc'⟩ := l
  cases h
  rfl

omit [DecidableEq T] in
/-- What a thread does outside a call. -/
theorem requestStep_turn {request : Request} (hidle : l.pc = .idle)
    (hnext : requestStep request s l = some (e, s', l')) :
    Turn s l.self .idle e s' l'.pc ∧ l' = l.goto l'.pc := by
  cases request with
  | store u v =>
      cases hnext
      rw [hidle]
      exact ⟨.store u v, (goto_eq hidle).symm⟩
  | futex u op val timeout =>
      simp only [requestStep, futexOperation] at hnext
      split at hnext
      · cases hnext
        rw [hidle]
        exact ⟨.fails _, (goto_eq hidle).symm⟩
      · split at hnext
        · cases hnext
          exact ⟨.callWait u val timeout, rfl⟩
        · split at hnext
          · split at hnext
            · cases hnext
              rw [hidle]
              exact ⟨.fails _, (goto_eq hidle).symm⟩
            · cases hnext
              exact ⟨.callWake u _ (by omega), rfl⟩
          · cases hnext
            rw [hidle]
            exact ⟨.fails _, (goto_eq hidle).symm⟩

/-- Every step is one of the steps. -/
theorem futexNext_turn (hnext : futexNext x s l = some (e, s', l')) :
    Turn s l.self l.pc e s' l'.pc ∧ l' = l.goto l'.pc := by
  unfold futexNext at hnext
  -- the points of a call in the order of `Pc`: waiting first, then waking
  split at hnext
  · rename_i hpc
    rw [hpc]
    exact requestStep_turn hpc hnext
  · rename_i u val timeout hpc
    rw [hpc]
    rcases futexSlotGet_cases s u true with ⟨i, hget, hkey⟩ | ⟨i, hget, hfree⟩ | ⟨hget, -⟩ <;>
      rw [hget] at hnext <;> cases hnext
    · exact ⟨.waitFound u val timeout i hkey, rfl⟩
    · exact ⟨.waitEntered u val timeout i hfree, rfl⟩
    · exact ⟨.waitFull u val timeout, rfl⟩
  · rename_i u val timeout i hpc
    rw [hpc]
    split at hnext
    · cases hnext
    · rename_i slot hslot
      simp only [waitLockStep] at hnext
      split at hnext
      · cases hnext
      · rename_i hm
        split at hnext
        · rename_i hval
          cases hnext
          exact ⟨.differs u val timeout i hval, rfl⟩
        · rename_i hval
          cases hnext
          exact ⟨.checks u val timeout i slot hslot (not_not.1 hm) (not_not.1 hval), rfl⟩
  · rename_i u val timeout i hpc
    rw [hpc]
    split at hnext
    · cases hnext
    · rename_i slot hslot
      simp only [waitSleepStep] at hnext
      split at hnext
      · cases hnext
        exact ⟨.refuses u val timeout i slot hslot, rfl⟩
      · cases hnext
        exact ⟨.sleeps u val timeout i slot hslot, rfl⟩
  · rename_i u val i hpc
    rw [hpc]
    split at hnext
    · cases hnext
    · rename_i slot hslot
      simp only [asleepStep] at hnext
      split at hnext
      · cases hnext
      · rename_i hwoken
        cases hnext
        exact ⟨.leaves u val i slot hslot fun h => hwoken (.inl h), rfl⟩
  · rename_i u n hpc
    rw [hpc]
    rcases futexSlotGet_cases s u false with ⟨i, hget, hkey⟩ | ⟨i, hget, hfree⟩ | ⟨hget, hmiss⟩
    · rw [hget] at hnext
      cases hnext
      exact ⟨.wakeFound u n i hkey, rfl⟩
    · simp only [futexSlotGet, hfree] at hget
      cases hget
    · rw [hget] at hnext
      cases hnext
      exact ⟨.wakeNone u n hmiss, rfl⟩
  · rename_i u n i hpc
    rw [hpc]
    split at hnext
    · cases hnext
    · rename_i slot hslot
      simp only [wakeLockStep] at hnext
      split at hnext
      · cases hnext
      · rename_i hm
        cases hnext
        exact ⟨.wakes u n i slot x.pick hslot (not_not.1 hm), rfl⟩

/-- A step of the threads. -/
theorem Inv.turn (hinv : Inv c) (hstep : Step futexes c (t, e) d) :
    ∃ s pc, Turn c.shared t (pcs c t) e s pc ∧ d = c.set t s ((c.locals t).goto pc) := by
  cases hstep with
  | @mk _ x _ s l hnext =>
      obtain ⟨hturn, hl⟩ := futexNext_turn hnext
      rw [hinv.self t] at hturn
      exact ⟨s, l.pc, hturn, by rw [← hl]⟩

/-- Every step keeps the invariant. -/
theorem Inv.step (hinv : Inv c) (hstep : Step futexes c (t, e) d) : Inv d := by
  obtain ⟨s, pc, hturn, rfl⟩ := hinv.turn hstep
  generalize hpc : pcs c t = pc₀ at hturn
  have hcounted (h : pc₀.counted = none) : (pcs c t).counted = none := by rw [hpc, h]
  have hlocated := hinv.located t
  rw [hpc] at hlocated
  cases hturn with
  | store | fails | callWait | callWake | waitFull | wakeNone =>
      exact hinv.keep rfl (hcounted rfl) rfl nofun
  | waitFound u val timeout i hkey | wakeFound u n i hkey =>
      refine hinv.keep rfl (hcounted rfl) rfl fun u' i' h => ?_
      cases h
      exact hkey
  | waitEntered u val timeout i hfree => exact hinv.enter hfree (hcounted rfl) rfl rfl
  | differs => exact hinv.keep rfl (hcounted rfl) rfl nofun
  | checks u val timeout i slot hslot hm hval =>
      refine hinv.put hslot rfl (by rw [hpc]; exact nofun) (.inr (by rw [hpc]; rfl))
        (fun j hj => (Option.some.inj hj).symm) ((hinv.slots i slot hslot).check hm (hcounted rfl))
  | refuses u val timeout i slot hslot =>
      refine hinv.put hslot rfl (fun j hj => ?_) (.inl rfl) nofun
        ((hinv.slots i slot hslot).refuse hpc)
      rw [hpc] at hj
      exact (Option.some.inj hj).symm
  | sleeps u val timeout i slot hslot =>
      refine hinv.put hslot rfl (fun j hj => ?_) (.inr (by rw [hpc]; rfl))
        (fun j hj => (Option.some.inj hj).symm) ((hinv.slots i slot hslot).sleep hpc)
      rw [hpc] at hj
      exact (Option.some.inj hj).symm
  | leaves u val i slot hslot ht =>
      refine hinv.put hslot rfl (fun j hj => ?_) (.inl rfl) nofun
        ((hinv.slots i slot hslot).leave hpc ht)
      rw [hpc] at hj
      exact (Option.some.inj hj).symm
  | wakes u n i slot pick hslot hm =>
      exact hinv.put hslot rfl (by rw [hpc]; exact nofun) (.inl rfl) nofun
        (((hinv.slots i slot hslot).shorten wake_sublist).frame (by rw [hpc]; exact nofun) nofun)

omit [DecidableEq T] in
/-- The invariant holds before the first call. -/
theorem Initial.inv (hinit : Initial c) : Inv c where
  self := hinit.self
  findable i key h := by
    rw [Futexes.keys, hinit.slots i] at h
    cases h
  located t u i h := by
    rw [pcs, hinit.idle t] at h
    cases h
  slots i slot h := by
    rw [hinit.slots i] at h
    cases h

end Invariant

end Asnx.Bionic.Futex
