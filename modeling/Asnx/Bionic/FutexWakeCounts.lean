import Asnx.Bionic.FutexWakes
import Mathlib.Algebra.BigOperators.Group.List.Basic

/-!
# What a wake returns

`FUTEX_WAKE` returns the number of threads that it counts as waiting, up to the number it is asked
for. A thread is counted until it has the `Mutex` of its slot again, so the value is the number of
threads that the call has released exactly if no thread that an earlier call has released is still
on its way out, or enough threads sleep (`wakes_tell`).
-/

namespace Asnx.Bionic.Futex

open Threads Probing

variable {T : Type*}

/-! ## Threads on their way out -/

/-- The threads that have been released from their sleep on a word and have not returned yet. -/
def leaving (c : Config T (Futexes T) (Thread T)) (u : Word) : Set T :=
  { t | ∃ val i slot, pcs c t = .asleep u val i ∧ c.shared.slots i = some slot ∧ t ∉ slot.cv }

/-- A `FUTEX_WAKE` that finds no thread on its way out, or enough that sleep. -/
def Fresh (c : Config T (Futexes T) (Thread T)) (label : T × Event) : Prop :=
  ∀ u n r, label.2 = .wakes u n r → leaving c u = ∅ ∨ n ≤ (asleep c u).ncard

/-- A `FUTEX_WAKE` returns the number of threads that it releases. -/
def Tells (c : Config T (Futexes T) (Thread T)) (label : T × Event)
    (d : Config T (Futexes T) (Thread T)) : Prop :=
  ∀ u n r, label.2 = .wakes u n r → r = .value (asleep c u \ asleep d u).ncard

/-- The number of threads that hold the `Mutex` of a slot. -/
def FutexSlot.held (slot : FutexSlot T) : Nat := if slot.m = none then 0 else 1

section Leaving

variable [DecidableEq T] {c d : Config T (Futexes T) (Thread T)} {t : T} {e : Event} {u : Word}
  {i : Nat} {slot : FutexSlot T}

omit [DecidableEq T] in
/-- A thread at a slot sleeps, is on its way out or holds the `Mutex`. -/
theorem Inv.exists_leaving (hinv : Inv c) (hslot : c.shared.slots i = some slot)
    (hkey : slot.key = u) : ∃ out : Finset T, leaving c u = ↑out ∧
      slot.waiters = slot.cv.length + out.card + slot.held := by
  classical
  have hok := hinv.slots i slot hslot
  obtain ⟨s, hcard, hs⟩ := hok.waiters
  have hkeyi : c.shared.keys i = some u := by rw [keys_of_slot hslot, hkey]
  -- the holder of the mutex is not asleep
  have hholder : ∀ v, slot.m = some v → v ∉ slot.cv := by
    intro v hv hmem
    obtain ⟨u', val, timeout, hpc⟩ := (hok.holder v).1 hv
    obtain ⟨u'', val', hpc'⟩ := hok.asleep v hmem
    rw [hpc] at hpc'
    cases hpc'
  -- those on their way out are the counted ones that neither sleep nor hold the mutex
  have hleaving : leaving c u = ↑((s \ slot.cv.toFinset) \ slot.m.toFinset) := by
    ext v
    simp only [Finset.coe_sdiff, Set.mem_sdiff, Finset.mem_coe, hs, List.mem_toFinset,
      Option.mem_toFinset, Option.mem_def]
    constructor
    · rintro ⟨val, j, slot', hpc, hslot', hv⟩
      have hkeyj := hinv.located v u j (by rw [hpc]; rfl)
      obtain rfl : j = i := hinv.findable.unique hkeyj hkeyi
      rw [hslot] at hslot'
      cases hslot'
      refine ⟨⟨by rw [hpc]; rfl, hv⟩, fun hm => ?_⟩
      obtain ⟨u', val', timeout, hpc'⟩ := (hok.holder v).1 hm
      rw [hpc] at hpc'
      cases hpc'
    · rintro ⟨⟨hcounted, hv⟩, hm⟩
      cases hpc : pcs c v with
      | asleep u' val j =>
          rw [hpc] at hcounted
          cases hcounted
          have hkeyv := hinv.located v u' i (by rw [hpc]; rfl)
          rw [hkeyi] at hkeyv
          cases hkeyv
          exact ⟨val, i, slot, hpc, hslot, hv⟩
      | waitSleep u' val timeout j =>
          rw [hpc] at hcounted
          cases hcounted
          exact absurd ((hok.holder v).2 ⟨u', val, timeout, hpc⟩) hm
      | idle | waitSlot | waitLock | wakeSlot | wakeLock =>
          rw [hpc] at hcounted
          cases hcounted
  have hcv : slot.cv.toFinset ⊆ s := fun v hv => by
    obtain ⟨u', val, hpc⟩ := hok.asleep v (List.mem_toFinset.1 hv)
    exact (hs v).2 (by rw [hpc]; rfl)
  have hm : slot.m.toFinset ⊆ s \ slot.cv.toFinset := fun v hv => by
    have hv := Option.mem_toFinset.1 hv
    obtain ⟨u', val, timeout, hpc⟩ := (hok.holder v).1 hv
    exact Finset.mem_sdiff.2 ⟨(hs v).2 (by rw [hpc]; rfl), fun h =>
      hholder v hv (List.mem_toFinset.1 h)⟩
  have hheld : slot.m.toFinset.card = slot.held := by
    unfold FutexSlot.held
    cases slot.m with
    | none => rfl
    | some v => rfl
  -- both differences are of subsets, so the sizes subtract
  have hfirst := Finset.card_sdiff_add_card_eq_card hcv
  have hsecond := Finset.card_sdiff_add_card_eq_card hm
  rw [List.toFinset_card_of_nodup hok.nodup] at hfirst
  exact ⟨_, hleaving, by omega⟩

omit [DecidableEq T] in
theorem Inv.waiters_eq (hinv : Inv c) (hslot : c.shared.slots i = some slot) (hkey : slot.key = u) :
    slot.waiters = slot.cv.length + (leaving c u).ncard + slot.held := by
  obtain ⟨out, hleaving, hwaiters⟩ := hinv.exists_leaving hslot hkey
  rw [hleaving, Set.ncard_coe_finset, hwaiters]

omit [DecidableEq T] in
/-- Nobody sleeps on a word without a slot, and nobody is on the way out. -/
theorem Inv.nobody (hinv : Inv c) (h : ∀ i, c.shared.keys i ≠ some u) :
    asleep c u = ∅ ∧ leaving c u = ∅ := by
  constructor
  · refine Set.eq_empty_of_forall_notMem ?_
    rintro v ⟨val, i, slot, hv, -⟩
    exact h i (hinv.located v u i (by rw [hv]; rfl))
  · refine Set.eq_empty_of_forall_notMem ?_
    rintro v ⟨val, i, slot, hv, -⟩
    exact h i (hinv.located v u i (by rw [hv]; rfl))

/-- What a wake returns, and what it releases. -/
theorem Inv.wakes_cases (hinv : Inv c) (hstep : Step futexes c (t, e) d) {n : Nat} {r : Result}
    (he : e = .wakes u n r) :
    (r = .value 0 ∧ asleep c u = ∅ ∧ leaving c u = ∅) ∨
      (r = .value (min n ((asleep c u).ncard + (leaving c u).ncard)) ∧ (leaving c u).Finite) := by
  obtain ⟨s, pc, hturn, rfl⟩ := hinv.turn hstep
  generalize hpc : pcs c t = pc₀ at hturn
  cases hturn with
  | wakeNone u' n' hmiss =>
      cases he
      obtain ⟨hasleep, hleaving⟩ := hinv.nobody (hinv.findable.absent hmiss)
      exact .inl ⟨rfl, hasleep, hleaving⟩
  | wakes u' n' i slot pick hslot hm =>
      cases he
      have hkeyi := hinv.located t u i (by rw [hpc]; rfl)
      have hkey : slot.key = u := by
        rw [keys_of_slot hslot] at hkeyi
        exact Option.some.inj hkeyi
      have hwaiters := hinv.waiters_eq hslot hkey
      rw [FutexSlot.held, if_pos hm, Nat.add_zero] at hwaiters
      obtain ⟨out, hleaving, -⟩ := hinv.exists_leaving hslot hkey
      refine .inr ⟨?_, by rw [hleaving]; exact out.finite_toSet⟩
      rw [hinv.asleep_eq hslot hkey, ncard_mem (hinv.slots i slot hslot).nodup, ← hwaiters]
      unfold wakeCount
      congr 1
      split <;> omega
  | _ => cases he

/-- A wake returns the number of threads that it releases exactly if it finds none on its way out,
or enough that sleep. -/
theorem Inv.tells_iff (hinv : Inv c) {label : T × Event} (hstep : Step futexes c label d) :
    Tells c label d ↔ Fresh c label := by
  obtain ⟨t, e⟩ := label
  have heach : ∀ u n r, e = .wakes u n r →
      (r = .value (asleep c u \ asleep d u).ncard ↔ leaving c u = ∅ ∨ n ≤ (asleep c u).ncard) := by
    rintro u n r rfl
    have hreleased := (hinv.releases hstep).released
    rw [hreleased]
    rcases hinv.wakes_cases hstep rfl with ⟨rfl, hasleep, hleaving⟩ | ⟨rfl, hfinite⟩
    · rw [hasleep, Set.ncard_empty, Nat.min_zero]
      exact iff_of_true rfl (.inl hleaving)
    · rw [← Set.ncard_eq_zero hfinite]
      constructor
      · intro h
        have := Result.value.inj h
        omega
      · intro h
        congr 1
        omega
  constructor
  · intro h u n r he
    exact (heach u n r he).1 (h u n r he)
  · intro h u n r he
    exact (heach u n r he).2 (h u n r he)

end Leaving

/-! ## What all wakes return -/

/-- What an event returns as a number of threads woken on a word. -/
def Event.told (u : Word) : Event → Nat
  | .wakes u' _ (.value k) => if u' = u then k else 0
  | _ => 0

/-- An event ends a wait on a word that has slept. -/
def Event.ended (u : Word) : Event → Nat
  | .waitReturns u' _ (.value _) => if u' = u then 1 else 0
  | _ => 0

/-- The sum of what the wakes of a trace have returned on a word. -/
def told (u : Word) (trace : List (T × Event)) : Nat := (trace.map fun e => e.2.told u).sum

/-- The number of waits on a word that have slept and returned. -/
def ended (u : Word) (trace : List (T × Event)) : Nat := (trace.map fun e => e.2.ended u).sum

theorem told_snoc (u : Word) (trace : List (T × Event)) (t : T) (e : Event) :
    told u (trace ++ [(t, e)]) = told u trace + e.told u := by
  simp [told]

theorem ended_snoc (u : Word) (trace : List (T × Event)) (t : T) (e : Event) :
    ended u (trace ++ [(t, e)]) = ended u trace + e.ended u := by
  simp [ended]

/-- What a slot owes: the waits that have ended and the threads it counts are what the wakes have
returned and the threads that sleep or hold the `Mutex`. -/
def Owes (trace : List (T × Event)) (slot : FutexSlot T) : Prop :=
  told slot.key trace + slot.cv.length + slot.held = ended slot.key trace + slot.waiters

/-- The books of all words. -/
structure Balanced (trace : List (T × Event)) (c : Config T (Futexes T) (Thread T)) : Prop where
  slots : ∀ i slot, c.shared.slots i = some slot → Owes trace slot
  others : ∀ u, (∀ i, c.shared.keys i ≠ some u) → told u trace = ended u trace

section Balance

variable [DecidableEq T] {c d : Config T (Futexes T) (Thread T)} {t : T} {e : Event} {u : Word}
  {i : Nat} {slot : FutexSlot T} {trace : List (T × Event)}

/-- An event is in no books. -/
def Event.Unbooked (e : Event) (u : Word) : Prop := e.told u = 0 ∧ e.ended u = 0

omit [DecidableEq T] in
/-- What a slot owes after an event. -/
theorem owes_iff : Owes (trace ++ [(t, e)]) slot ↔
    told slot.key trace + e.told slot.key + slot.cv.length + slot.held =
      ended slot.key trace + e.ended slot.key + slot.waiters := by
  unfold Owes
  rw [told_snoc, ended_snoc]

omit [DecidableEq T] in
theorem owes_snoc (h : Event.Unbooked e slot.key) :
    Owes (trace ++ [(t, e)]) slot ↔ Owes trace slot := by
  rw [owes_iff, h.1, h.2]
  exact Iff.rfl

/-- A step that leaves the slots alone. -/
theorem Balanced.keep (hbalanced : Balanced trace c) {s : Futexes T} {l : Thread T}
    (hslots : s.slots = c.shared.slots) (he : ∀ u, e.Unbooked u) :
    Balanced (trace ++ [(t, e)]) (c.set t s l) where
  slots j slot hslot := by
    rw [Config.set_shared, hslots] at hslot
    exact (owes_snoc (he _)).2 (hbalanced.slots j slot hslot)
  others u hu := by
    rw [told_snoc, ended_snoc, (he u).1, (he u).2]
    refine hbalanced.others u fun j hj => hu j ?_
    rw [Config.set_shared, Futexes.keys, hslots]
    exact hj

/-- A step that writes a slot in use. -/
theorem Balanced.put (hbalanced : Balanced trace c) (hinv : Inv c) {slot' : FutexSlot T}
    {l : Thread T} (hslot : c.shared.slots i = some slot) (hkey : slot'.key = slot.key)
    (he : ∀ u, u ≠ slot.key → e.Unbooked u) (howes : Owes (trace ++ [(t, e)]) slot') :
    Balanced (trace ++ [(t, e)]) (c.set t (c.shared.put i slot') l) where
  slots j slot'' hslot'' := by
    rw [Config.set_shared] at hslot''
    by_cases hji : j = i
    · subst hji
      rw [put_slots_self] at hslot''
      cases hslot''
      exact howes
    · rw [put_slots_other hji] at hslot''
      have hne : slot''.key ≠ slot.key := fun h =>
        hji (hinv.findable.unique (keys_of_slot hslot'') (by rw [keys_of_slot hslot, h]))
      exact (owes_snoc (he _ hne)).2 (hbalanced.slots j slot'' hslot'')
  others u hu := by
    rw [Config.set_shared, keys_put hslot hkey] at hu
    have hne : u ≠ slot.key := by
      rintro rfl
      exact hu i (keys_of_slot hslot)
    rw [told_snoc, ended_snoc, (he u hne).1, (he u hne).2]
    exact hbalanced.others u hu

/-- A step that enters a slot for a word. -/
theorem Balanced.enter (hbalanced : Balanced trace c) (hinv : Inv c) {l : Thread T}
    (hfree : probe c.shared.keys u (futexPlace u) futexSlots 0 = .free i)
    (he : ∀ u, e.Unbooked u) :
    Balanced (trace ++ [(t, e)]) (c.set t (c.shared.put i (.fresh u)) l) where
  slots j slot hslot := by
    rw [Config.set_shared] at hslot
    rw [owes_snoc (he _)]
    by_cases hji : j = i
    · subst hji
      rw [put_slots_self] at hslot
      cases hslot
      exact hbalanced.others u (hinv.findable.absent (by rw [hfree]; exact nofun))
    · rw [put_slots_other hji] at hslot
      exact hbalanced.slots j slot hslot
  others u' hu' := by
    rw [Config.set_shared, keys_put_eq] at hu'
    rw [told_snoc, ended_snoc, (he u').1, (he u').2]
    refine hbalanced.others u' fun j hj => ?_
    by_cases hji : j = i
    · subst hji
      rw [probe_free hfree] at hj
      cases hj
    · exact hu' j (by rwa [Function.update_of_ne hji])

/-- A step keeps the books, if a wake finds no thread on its way out or enough that sleep. -/
theorem Balanced.step (hbalanced : Balanced trace c) (hinv : Inv c)
    (hstep : Step futexes c (t, e) d) (hfresh : Fresh c (t, e)) :
    Balanced (trace ++ [(t, e)]) d := by
  obtain ⟨s, pc, hturn, rfl⟩ := hinv.turn hstep
  generalize hpc : pcs c t = pc₀ at hturn
  -- the slot that the thread uses is the slot of its word
  have hword : ∀ u i slot, (pcs c t).slot = some (u, i) → c.shared.slots i = some slot →
      slot.key = u := by
    intro u i slot hused hslot
    have hkey := hinv.located t u i hused
    rw [keys_of_slot hslot] at hkey
    exact Option.some.inj hkey
  rw [hpc] at hword
  have hheld : ∀ u val timeout i slot, pcs c t = .waitSleep u val timeout i →
      c.shared.slots i = some slot → slot.held = 1 := by
    intro u val timeout i slot hsleep hslot
    have hm := ((hinv.slots i slot hslot).holder t).2 ⟨u, val, timeout, hsleep⟩
    rw [FutexSlot.held, hm, if_neg nofun]
  have howes : ∀ i slot, c.shared.slots i = some slot → Owes trace slot := hbalanced.slots
  cases hturn with
  | store | fails | callWait | callWake | waitFound | waitFull | differs | wakeFound =>
      exact hbalanced.keep rfl fun u => ⟨rfl, rfl⟩
  | wakeNone u n hmiss =>
      refine hbalanced.keep rfl fun u' => ⟨?_, rfl⟩
      exact ite_self _
  | waitEntered u val timeout i hfree => exact hbalanced.enter hinv hfree fun u => ⟨rfl, rfl⟩
  | checks u val timeout i slot hslot hm hval =>
      refine hbalanced.put hinv hslot rfl (fun u _ => ⟨rfl, rfl⟩) ?_
      have hbefore : told _ _ + _ + slot.held = _ := howes i slot hslot
      rw [FutexSlot.held, if_pos hm] at hbefore
      refine owes_iff.2 ?_
      show told slot.key trace + 0 + slot.cv.length + 1 =
        ended slot.key trace + 0 + (slot.waiters + 1)
      omega
  | refuses u val timeout i slot hslot =>
      refine hbalanced.put hinv hslot rfl (fun u _ => ⟨rfl, rfl⟩) (owes_iff.2 ?_)
      have hbefore : told _ _ + _ + slot.held = _ := howes i slot hslot
      rw [hheld u val timeout i slot hpc hslot] at hbefore
      have hwaiters := hinv.waiters_eq hslot rfl
      rw [hheld u val timeout i slot hpc hslot] at hwaiters
      show told slot.key trace + 0 + slot.cv.length + 0 =
        ended slot.key trace + 0 + (slot.waiters - 1)
      omega
  | sleeps u val timeout i slot hslot =>
      refine hbalanced.put hinv hslot rfl (fun u _ => ⟨rfl, rfl⟩) (owes_iff.2 ?_)
      have hbefore : told _ _ + _ + slot.held = _ := howes i slot hslot
      rw [hheld u val timeout i slot hpc hslot] at hbefore
      show told slot.key trace + 0 + (slot.cv.length + 1) + 0 =
        ended slot.key trace + 0 + slot.waiters
      omega
  | leaves u val i slot hslot ht =>
      have hkey := hword u i slot rfl hslot
      refine hbalanced.put hinv hslot rfl (fun u' hu' => ⟨rfl, if_neg ?_⟩) (owes_iff.2 ?_)
      · rw [hkey] at hu'
        exact hu'.symm
      have hbefore : told _ _ + _ + slot.held = _ := howes i slot hslot
      -- the thread itself is counted
      have hpositive : 0 < slot.waiters := by
        obtain ⟨out, hcard, hmem⟩ := (hinv.slots i slot hslot).waiters
        rw [← hcard]
        exact Finset.card_pos.2 ⟨t, (hmem t).2 (by rw [hpc]; rfl)⟩
      have hended : Event.ended slot.key (.waitReturns u val (.value 0)) = 1 := if_pos hkey.symm
      show told slot.key trace + 0 + slot.cv.length + slot.held =
        ended slot.key trace + Event.ended slot.key _ + (slot.waiters - 1)
      rw [hended]
      omega
  | wakes u n i slot pick hslot hm =>
      have hkey := hword u i slot rfl hslot
      refine hbalanced.put hinv hslot rfl (fun u' hu' => ⟨if_neg ?_, rfl⟩) (owes_iff.2 ?_)
      · rw [hkey] at hu'
        exact hu'.symm
      have hbefore : told _ _ + _ + slot.held = _ := howes i slot hslot
      have hwaiters := hinv.waiters_eq hslot hkey
      have hlength : (wake pick (wakeCount n slot.waiters) slot.waiters slot.cv).length +
          min n slot.cv.length = slot.cv.length :=
        length_wake (hinv.slots i slot hslot).length_le
      have htold : Event.told slot.key (.wakes u n (.value (wakeCount n slot.waiters))) =
          wakeCount n slot.waiters := if_pos hkey.symm
      have hcount : wakeCount n slot.waiters = min n slot.cv.length := by
        rw [FutexSlot.held, if_pos hm] at hwaiters
        have henough := hfresh u n _ rfl
        rw [hinv.asleep_eq hslot hkey, ncard_mem (hinv.slots i slot hslot).nodup] at henough
        rcases henough with hnobody | henough
        · rw [hnobody, Set.ncard_empty] at hwaiters
          unfold wakeCount
          split <;> omega
        · unfold wakeCount
          split <;> omega
      show told slot.key trace + Event.told slot.key _ +
        (wake pick (wakeCount n slot.waiters) slot.waiters slot.cv).length + slot.held =
          ended slot.key trace + 0 + slot.waiters
      rw [htold]
      omega

omit [DecidableEq T] in
/-- By the books, what the wakes have returned are the waits that have ended and the threads on
their way out. -/
theorem Balanced.told_eq (hbalanced : Balanced trace c) (hinv : Inv c) (u : Word) :
    told u trace = ended u trace + (leaving c u).ncard := by
  by_cases hslot : ∃ i slot, c.shared.slots i = some slot ∧ slot.key = u
  · obtain ⟨i, slot, hslot, rfl⟩ := hslot
    have howes : told _ _ + _ + slot.held = _ := hbalanced.slots i slot hslot
    have hwaiters := hinv.waiters_eq hslot rfl
    omega
  · have hnone : ∀ i, c.shared.keys i ≠ some u := by
      intro i hi
      obtain ⟨slot, hs, hkey⟩ := Option.map_eq_some_iff.1 hi
      exact hslot ⟨i, slot, hs, hkey⟩
    rw [(hinv.nobody hnone).2, Set.ncard_empty]
    exact hbalanced.others u hnone

end Balance

/-! ## Runs -/

/-- In every run a wake returns the number of threads that it releases exactly if it finds no
thread on its way out or enough that sleep. If all wakes of the run do, they have returned as many
threads as there are waits that a wake has ended. -/
theorem wakes_tell [DecidableEq T] {c d : Config T (Futexes T) (Thread T)}
    {trace : List (T × Event)} (hinit : Initial c) (hrun : Run (Step futexes) c trace d) :
    (∀ label d', Step futexes d label d' → (Tells d label d' ↔ Fresh d label)) ∧
      (Run (fun c label d => Step futexes c label d ∧ Fresh c label) c trace d →
        ∀ u, told u trace = ended u trace + (leaving d u).ncard) := by
  have hinv : Inv d := hrun.invariant hinit.inv fun _ _ _ hinv hstep => hinv.step hstep
  refine ⟨fun label d' hstep => hinv.tells_iff hstep, fun hfresh => ?_⟩
  have hall : Inv d ∧ Balanced trace d := by
    refine hfresh.invariant_trace (I := fun trace d => Inv d ∧ Balanced trace d)
      ⟨hinit.inv, fun i slot hslot => ?_, fun u _ => rfl⟩ ?_
    · rw [hinit.slots i] at hslot
      cases hslot
    · rintro trace c ⟨t, e⟩ d ⟨hinv, hbalanced⟩ ⟨hstep, hfresh⟩
      exact ⟨hinv.step hstep, hbalanced.step hinv hstep hfresh⟩
  exact hall.2.told_eq hinv

/-- Two threads wait for the word 4096, and one of them is woken. -/
theorem wakes_tell_example : ∃ trace d, Run (Step futexes) threeThreads trace d ∧
    (2, .wakes 4096 1 (.value 1)) ∈ trace ∧
    (∀ label d', Step futexes d label d' → (Tells d label d' ↔ Fresh d label)) ∧
    (Run (fun c label d => Step futexes c label d ∧ Fresh c label) threeThreads trace d →
      ∀ u, told u trace = ended u trace + (leaving d u).ncard) := by
  have hrun : (futexes.exec threeThreads waking).any
      (fun r => decide ((2, .wakes 4096 1 (.value 1)) ∈ r.1)) = true := by
    decide
  obtain ⟨trace, d, hrun, hmem⟩ := Program.exec_test hrun
  exact ⟨trace, d, hrun, of_decide_eq_true hmem, wakes_tell initial_threeThreads hrun⟩

/-- The thread is in the queue of the slot at which it waits. -/
def sleeps (c : Config (Fin 3) (Futexes (Fin 3)) (Thread (Fin 3))) (t : Fin 3) : Bool :=
  match (c.locals t).pc with
  | .asleep _ _ i => (c.shared.slots i).any fun slot => decide (t ∈ slot.cv)
  | _ => false

theorem asleep_of_sleeps {c : Config (Fin 3) (Futexes (Fin 3)) (Thread (Fin 3))}
    (h : ∀ t, sleeps c t = false) (u : Word) : asleep c u = ∅ := by
  refine Set.eq_empty_of_forall_notMem ?_
  rintro t ⟨val, i, slot, hpc, hslot, ht⟩
  have hnot := h t
  unfold sleeps at hnot
  rw [show (c.locals t).pc = .asleep u val i from hpc] at hnot
  dsimp only at hnot
  rw [hslot, Option.any_some, decide_eq_false_iff_not] at hnot
  exact hnot ht

/-- The next wake returns 1 and releases nobody: the wakes have returned 2, and one wait has been
ended. -/
theorem wake_tells_too_much : ∃ trace d d', Run (Step futexes) threeThreads trace d ∧
    told 4096 trace = 1 ∧ Step futexes d (2, .wakes 4096 1 (.value 1)) d' ∧ asleep d 4096 = ∅ := by
  have hexec : (futexes.exec threeThreads wakingTwice).any (fun r =>
      decide (told 4096 r.1 = 1) && decide (∀ t, sleeps r.2 t = false) &&
        (futexes.exec r.2 [(2, ⟨.futex 4096 1 1 none, fun _ => 0⟩)]).any fun r =>
          decide (r.1 = [(2, .wakes 4096 1 (.value 1))])) = true := by
    decide
  obtain ⟨trace, d, hrun, htest⟩ := Program.exec_test hexec
  obtain ⟨htest, hnext⟩ := Bool.and_eq_true_iff.1 htest
  obtain ⟨htold, hnobody⟩ := Bool.and_eq_true_iff.1 htest
  obtain ⟨e, d', hstep, hwakes⟩ := Program.exec_one hnext
  cases of_decide_eq_true hwakes
  exact ⟨trace, d, d', hrun, of_decide_eq_true htold, hstep,
    asleep_of_sleeps (of_decide_eq_true hnobody) _⟩

end Asnx.Bionic.Futex
