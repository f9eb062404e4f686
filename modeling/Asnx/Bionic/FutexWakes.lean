import Asnx.Bionic.FutexQueues
import Mathlib.Data.Set.Card

/-!
# Wake-ups are not lost

A `FUTEX_WAKE` releases as many of the threads that sleep on its word as it is asked for, or all of
them, and it finds no wait between its check and its sleep. A wait checks its word before it goes to
sleep, and does not pass its check after the word has got another value (`futex_sound`).
-/

namespace Asnx.Bionic.Futex

open Threads Probing

variable {T : Type*}

/-! ## Waking -/

/-- The threads that sleep on a word. -/
def asleep (c : Config T (Futexes T) (Thread T)) (u : Word) : Set T :=
  { t | ∃ val i slot, pcs c t = .asleep u val i ∧ c.shared.slots i = some slot ∧ t ∈ slot.cv }

/-- What a `FUTEX_WAKE` of `n` threads does. -/
structure Releases (c : Config T (Futexes T) (Thread T)) (u : Word) (n : Nat)
    (d : Config T (Futexes T) (Thread T)) : Prop where
  finite : (asleep c u).Finite
  /-- Nobody goes to sleep, and as many threads as possible, up to `n`, are released. -/
  subset : asleep d u ⊆ asleep c u
  released : (asleep c u \ asleep d u).ncard = min n (asleep c u).ncard
  /-- The threads that sleep on other words go on sleeping. -/
  others : ∀ u', u' ≠ u → asleep d u' = asleep c u'
  /-- No wait has passed its check and is not yet asleep. -/
  settled : ∀ t val timeout i, pcs c t ≠ .waitSleep u val timeout i

section Waking

variable [DecidableEq T] {c d : Config T (Futexes T) (Thread T)} {t : T} {e : Event} {u u' : Word}
  {n i : Nat} {slot : FutexSlot T} {r : Result} {s : Futexes T} {pc : Pc}

omit [DecidableEq T] in
theorem keys_of_slot (hslot : c.shared.slots i = some slot) : c.shared.keys i = some slot.key := by
  rw [Futexes.keys, hslot]
  rfl

omit [DecidableEq T] in
/-- The threads that sleep on a word are those in the queue of its slot. -/
theorem Inv.asleep_eq (hinv : Inv c) (hslot : c.shared.slots i = some slot) (hkey : slot.key = u) :
    asleep c u = { t | t ∈ slot.cv } := by
  ext t
  constructor
  · rintro ⟨val, j, slot', hpc, hslot', ht⟩
    have hkeyj := hinv.located t u j (by rw [hpc]; rfl)
    obtain rfl : j = i := hinv.findable.unique hkeyj (by rw [keys_of_slot hslot, hkey])
    rw [hslot] at hslot'
    cases hslot'
    exact ht
  · intro ht
    obtain ⟨u', val, hpc⟩ := (hinv.slots i slot hslot).asleep t ht
    have hkeyi := hinv.located t u' i (by rw [hpc]; rfl)
    rw [keys_of_slot hslot, hkey] at hkeyi
    cases hkeyi
    exact ⟨val, i, slot, hpc, hslot, ht⟩

omit [DecidableEq T] in
theorem ncard_mem {cv : List T} (hcv : cv.Nodup) : { t | t ∈ cv }.ncard = cv.length := by
  classical
  rw [← List.toFinset_card_of_nodup hcv, ← Set.ncard_coe_finset]
  congr 1
  ext t
  simp

/-- The threads that sleep on a word after a thread that does not sleep has taken a step that leaves
the slot of the word alone. -/
theorem Inv.asleep_step (hinv : Inv c) (hbefore : ∀ val i, pcs c t ≠ .asleep u val i)
    (hafter : ∀ val i, pc ≠ .asleep u val i)
    (hslots : ∀ i, c.shared.keys i = some u → s.slots i = c.shared.slots i) :
    asleep (c.set t s ((c.locals t).goto pc)) u = asleep c u := by
  ext v
  constructor
  · rintro ⟨val, i, slot, hpc, hslot, hv⟩
    rw [pcs_set] at hpc
    by_cases hvt : v = t
    · subst hvt
      rw [Function.update_self] at hpc
      exact absurd hpc (hafter val i)
    · rw [Function.update_of_ne hvt] at hpc
      rw [Config.set_shared, hslots i (hinv.located v u i (by rw [hpc]; rfl))] at hslot
      exact ⟨val, i, slot, hpc, hslot, hv⟩
  · rintro ⟨val, i, slot, hpc, hslot, hv⟩
    have hvt : v ≠ t := by
      rintro rfl
      exact hbefore val i hpc
    refine ⟨val, i, slot, ?_, ?_, hv⟩
    · rw [pcs_set, Function.update_of_ne hvt, hpc]
    · rw [Config.set_shared, hslots i (hinv.located v u i (by rw [hpc]; rfl)), hslot]

/-- A wake that finds no slot. -/
theorem Inv.releases_none (hinv : Inv c) (hpc : pcs c t = .wakeSlot u n)
    (hmiss : ∀ i, probe c.shared.keys u (futexPlace u) futexSlots 0 ≠ .hit i) :
    Releases c u n (c.set t c.shared ((c.locals t).goto .idle)) := by
  have habsent := hinv.findable.absent hmiss
  have hnobody : asleep c u = ∅ := by
    ext v
    refine ⟨?_, fun h => h.elim⟩
    rintro ⟨val, i, slot, hpc, -⟩
    exact habsent i (hinv.located v u i (by rw [hpc]; rfl))
  have hstay (u') : asleep (c.set t c.shared ((c.locals t).goto .idle)) u' = asleep c u' :=
    hinv.asleep_step (by rw [hpc]; exact nofun) nofun fun _ _ => rfl
  refine ⟨by rw [hnobody]; exact Set.finite_empty, by rw [hstay], ?_, fun u' _ => hstay u', ?_⟩
  · rw [hstay, hnobody]
    simp
  · intro v val timeout i hv
    exact habsent i (hinv.located v u i (by rw [hv]; rfl))

/-- A wake that finds the slot of its word. -/
theorem Inv.releases_slot (hinv : Inv c) (hpc : pcs c t = .wakeLock u n i)
    (hslot : c.shared.slots i = some slot) (hm : slot.m = none) (pick : List T → Nat)
    (hnext : Inv (c.set t (c.shared.put i { slot with
      cv := wake pick (wakeCount n slot.waiters) slot.waiters slot.cv }) ((c.locals t).goto .idle))) :
    Releases c u n (c.set t (c.shared.put i { slot with
      cv := wake pick (wakeCount n slot.waiters) slot.waiters slot.cv })
      ((c.locals t).goto .idle)) := by
  have hkeyi := hinv.located t u i (by rw [hpc]; rfl)
  have hkey : slot.key = u := by
    rw [keys_of_slot hslot] at hkeyi
    exact Option.some.inj hkeyi
  have hok := hinv.slots i slot hslot
  have hbefore := hinv.asleep_eq hslot hkey
  have hafter := hnext.asleep_eq (put_slots_self ..) hkey
  have hfinite : { v | v ∈ slot.cv }.Finite := List.finite_toSet slot.cv
  have hsubset : { v | v ∈ wake pick (wakeCount n slot.waiters) slot.waiters slot.cv } ⊆
      { v | v ∈ slot.cv } := fun v hv => wake_sublist.subset hv
  refine ⟨by rwa [hbefore], by rw [hbefore, hafter]; exact hsubset, ?_, fun u' hu' => ?_, ?_⟩
  · rw [hbefore, hafter, Set.ncard_sdiff hsubset (hfinite.subset hsubset), ncard_mem hok.nodup,
      ncard_mem (hok.nodup.sublist wake_sublist)]
    have hlength : (wake pick (wakeCount n slot.waiters) slot.waiters slot.cv).length +
        min n slot.cv.length = slot.cv.length := length_wake hok.length_le
    omega
  · refine hinv.asleep_step (by rw [hpc]; exact nofun) nofun fun j hj => put_slots_other ?_
    rintro rfl
    rw [hkeyi] at hj
    exact hu' (Option.some.inj hj).symm
  · intro v val timeout j hv
    obtain rfl : j = i := hinv.findable.unique (hinv.located v u j (by rw [hv]; rfl)) hkeyi
    have hheld := (hok.holder v).2 ⟨u, val, timeout, hv⟩
    rw [hm] at hheld
    cases hheld

/-- Every `FUTEX_WAKE` releases the threads that it should. -/
theorem Inv.releases (hinv : Inv c) (hstep : Step futexes c (t, .wakes u n r) d) :
    Releases c u n d := by
  have hnext := hinv.step hstep
  obtain ⟨s, pc, hturn, rfl⟩ := hinv.turn hstep
  generalize hpc : pcs c t = pc₀ at hturn
  cases hturn with
  | wakeNone u n hmiss => exact hinv.releases_none hpc hmiss
  | wakes u n i slot pick hslot hm => exact hinv.releases_slot hpc hslot hm pick hnext

/-- A thread that sleeps goes on sleeping while no thread wakes it. -/
theorem Inv.stays (hinv : Inv c) (hstep : Step futexes c (t, e) d)
    (hwake : ∀ u n r, e ≠ .wakes u n r) :
    asleep c u ⊆ asleep d u := by
  have hnext := hinv.step hstep
  obtain ⟨s, pc, hturn, rfl⟩ := hinv.turn hstep
  rintro v ⟨val, i, slot, hpc, hslot, hv⟩
  -- The thread that takes the step is not in a queue.
  have hvt : v ≠ t := by
    rintro rfl
    rw [hpc] at hturn
    cases hturn with
    | leaves u val i slot' hslot' hleft =>
        rw [hslot] at hslot'
        cases hslot'
        exact hleft hv
  have hqueue : ∃ slot', s.slots i = some slot' ∧ v ∈ slot'.cv := by
    have hput (j : Nat) (slot' slot'' : FutexSlot T) (hslot' : c.shared.slots j = some slot')
        (hcv : ∀ v ∈ slot'.cv, v ∈ slot''.cv) :
        ∃ slot₁, (c.shared.put j slot'').slots i = some slot₁ ∧ v ∈ slot₁.cv := by
      by_cases hji : i = j
      · subst hji
        rw [hslot] at hslot'
        cases hslot'
        exact ⟨slot'', put_slots_self .., hcv v hv⟩
      · exact ⟨slot, (put_slots_other hji).trans hslot, hv⟩
    generalize pcs c t = pc₀ at hturn
    cases hturn with
    | store | fails | callWait | callWake | waitFound | waitFull | differs | wakeFound | wakeNone =>
        exact ⟨slot, hslot, hv⟩
    | waitEntered u' val' timeout j hfree =>
        have hji : i ≠ j := by
          rintro rfl
          have hnone := probe_free hfree
          rw [keys_of_slot hslot] at hnone
          cases hnone
        exact ⟨slot, (put_slots_other hji).trans hslot, hv⟩
    | checks _ _ _ j slot' hslot' => exact hput j slot' _ hslot' fun _ => id
    | refuses _ _ _ j slot' hslot' => exact hput j slot' _ hslot' fun _ => id
    | sleeps _ _ _ j slot' hslot' => exact hput j slot' _ hslot' fun _ => List.mem_cons_of_mem t
    | leaves _ _ j slot' hslot' => exact hput j slot' _ hslot' fun _ => id
    | wakes u' n => exact absurd rfl (hwake u' n _)
  obtain ⟨slot', hslot', hv'⟩ := hqueue
  exact ⟨val, i, slot', by rw [pcs_set, Function.update_of_ne hvt, hpc], hslot', hv'⟩

end Waking

/-! ## Checking -/

/-- The words after the stores of a trace. -/
def memoryAfter (memory : Word → Int) : List (T × Event) → Word → Int
  | [] => memory
  | (_, .stored u v) :: rest => memoryAfter (Function.update memory u v) rest
  | _ :: rest => memoryAfter memory rest

/-- A wait that goes to sleep has passed its check before; one that passes its check finds its
value in the word. -/
def Checks (memory : Word → Int) (before : List (T × Event)) : T × Event → Prop
  | (t, .slept u val) => ∃ early late, before = early ++ (t, .checked u val) :: late ∧
      ∀ e ∈ late, e.1 ≠ t
  | (_, .checked u val) => memoryAfter memory before u = val
  | _ => True

/-- What the trace of a run says about the places of the threads and the words. -/
structure Known (memory : Word → Int) (trace : List (T × Event))
    (c : Config T (Futexes T) (Thread T)) : Prop where
  memory : c.shared.memory = memoryAfter memory trace
  checked : ∀ t u val timeout i, pcs c t = .waitSleep u val timeout i →
    ∃ early late, trace = early ++ (t, .checked u val) :: late ∧ ∀ e ∈ late, e.1 ≠ t

section Checking

variable {memory : Word → Int} {trace : List (T × Event)} {u : Word} {v val : Int} {t : T}

theorem memoryAfter_append (first second : List (T × Event)) :
    memoryAfter memory (first ++ second) = memoryAfter (memoryAfter memory first) second := by
  induction first generalizing memory with
  | nil => rfl
  | cons head first ih =>
      obtain ⟨t, e⟩ := head
      cases e <;> exact ih

/-- A value that is in a word in the end and was not there at first has been stored. -/
theorem stored_of_memoryAfter (hbefore : memory u ≠ val)
    (hafter : memoryAfter memory trace u = val) :
    ∃ t, (t, .stored u val) ∈ trace := by
  induction trace generalizing memory with
  | nil => exact absurd hafter hbefore
  | cons head trace ih =>
      obtain ⟨t, e⟩ := head
      cases e with
      | stored u' v =>
          by_cases hstored : u' = u ∧ v = val
          · obtain ⟨rfl, rfl⟩ := hstored
            exact ⟨t, List.mem_cons_self⟩
          · have hne : Function.update memory u' v u ≠ val := by
              by_cases hu : u = u'
              · subst hu
                rw [Function.update_self]
                exact fun hv => hstored ⟨rfl, hv⟩
              · rwa [Function.update_of_ne hu]
            obtain ⟨w, hw⟩ := ih hne hafter
            exact ⟨w, List.mem_cons_of_mem _ hw⟩
      | _ =>
          obtain ⟨w, hw⟩ := ih hbefore hafter
          exact ⟨w, List.mem_cons_of_mem _ hw⟩

variable [DecidableEq T] {c d : Config T (Futexes T) (Thread T)} {e : Event}

/-- A step keeps what the trace says. -/
theorem Known.step (hknown : Known memory trace c) (hinv : Inv c)
    (hstep : Step futexes c (t, e) d) :
    Known memory (trace ++ [(t, e)]) d ∧ Checks memory trace (t, e) := by
  obtain ⟨s, pc, hturn, rfl⟩ := hinv.turn hstep
  have hothers (hpc : ∀ u val timeout i, pc = .waitSleep u val timeout i → e = .checked u val) :
      ∀ w u val timeout i, pcs (c.set t s ((c.locals t).goto pc)) w = .waitSleep u val timeout i →
        ∃ early late, trace ++ [(t, e)] = early ++ (w, .checked u val) :: late ∧
          ∀ e ∈ late, e.1 ≠ w := by
    intro w u val timeout i hw
    rw [pcs_set] at hw
    by_cases hwt : w = t
    · subst hwt
      rw [Function.update_self] at hw
      rw [hpc u val timeout i hw]
      exact ⟨trace, [], rfl, nofun⟩
    · rw [Function.update_of_ne hwt] at hw
      obtain ⟨early, late, rfl, hlate⟩ := hknown.checked w u val timeout i hw
      refine ⟨early, late ++ [(t, e)], by simp, fun e' he' => ?_⟩
      rcases List.mem_append.1 he' with he' | he'
      · exact hlate e' he'
      · rw [List.mem_singleton.1 he']
        exact fun h => hwt h.symm
  generalize hpc : pcs c t = pc₀ at hturn
  have hchecked := hknown.checked t
  rw [hpc] at hchecked
  have hmemory := hknown.memory
  cases hturn with
  | store u v =>
      refine ⟨⟨?_, hothers nofun⟩, trivial⟩
      rw [Config.set_shared, memoryAfter_append, ← hmemory]
      rfl
  | sleeps u val timeout i slot hslot =>
      refine ⟨⟨?_, hothers nofun⟩, hchecked u val timeout i rfl⟩
      rw [memoryAfter_append, ← hmemory]
      rfl
  | checks u val timeout i slot hslot hm hval =>
      refine ⟨⟨?_, hothers fun u' val' _ _ h => by cases h; rfl⟩, ?_⟩
      · rw [memoryAfter_append, ← hmemory]
        rfl
      · show memoryAfter memory trace u = val
        rw [← hmemory, hval]
  | _ =>
      refine ⟨⟨?_, hothers nofun⟩, trivial⟩
      rw [memoryAfter_append, ← hmemory]
      rfl

end Checking

/-! ## Runs -/

/-- What holds of a run. -/
structure Sound [DecidableEq T] (memory : Word → Int) (trace : List (T × Event))
    (c : Config T (Futexes T) (Thread T)) : Prop where
  /-- A `FUTEX_WAKE` releases the threads that sleep, up to the number it is asked for. -/
  releases : ∀ t u n r d, Step futexes c (t, .wakes u n r) d → Releases c u n d
  /-- Nothing else releases a thread. -/
  stays : ∀ t e d u, Step futexes c (t, e) d → (∀ u n r, e ≠ .wakes u n r) → asleep c u ⊆ asleep d u
  checks : Always (Checks memory) trace
  /-- After a store of another value no wait passes its check, before its value is stored again. -/
  later : ∀ before w u v between t val after, v ≠ val →
    trace = before ++ (w, .stored u v) :: (between ++ (t, .checked u val) :: after) →
    ∃ w', (w', .stored u val) ∈ between

/-- A check after a store of another value. -/
theorem later_check {memory : Word → Int} {trace : List (T × Event)}
    (hchecks : Always (Checks memory) trace)
    {before between after : List (T × Event)} {w t : T} {u : Word} {v val : Int} (hv : v ≠ val)
    (htrace : trace = before ++ (w, .stored u v) :: (between ++ (t, .checked u val) :: after)) :
    ∃ w', (w', .stored u val) ∈ between := by
  have hval := hchecks (before ++ (w, .stored u v) :: between) (t, .checked u val) after
    (by rw [htrace]; simp)
  have hval : memoryAfter memory (before ++ (w, .stored u v) :: between) u = val := hval
  rw [memoryAfter_append] at hval
  refine stored_of_memoryAfter ?_ hval
  rw [Function.update_self]
  exact hv

/-- What holds of every run. -/
theorem futex_sound [DecidableEq T] {c d : Config T (Futexes T) (Thread T)}
    {trace : List (T × Event)}
    (hinit : Initial c) (hrun : Run (Step futexes) c trace d) : Sound c.shared.memory trace d := by
  have hall : Always (Checks c.shared.memory) trace ∧ Inv d ∧ Known c.shared.memory trace d := by
    refine hrun.invariant_trace
      (I := fun trace d => Always (Checks c.shared.memory) trace ∧ Inv d ∧
        Known c.shared.memory trace d)
      ⟨always_nil, hinit.inv, rfl, fun t u val timeout i h => ?_⟩ ?_
    · rw [pcs, hinit.idle t] at h
      cases h
    · rintro trace c ⟨t, e⟩ d ⟨hchecks, hinv, hknown⟩ hstep
      obtain ⟨hknown', hcheck⟩ := hknown.step hinv hstep
      exact ⟨always_snoc hchecks hcheck, hinv.step hstep, hknown'⟩
  obtain ⟨hchecks, hinv, -⟩ := hall
  exact ⟨fun t u n r d => hinv.releases, fun t e d u => hinv.stays, hchecks,
    fun _ _ _ _ _ _ _ _ hv htrace => later_check hchecks hv htrace⟩

/-! ## A run -/

/-- Three threads before their first calls; every word is 0. -/
def threeThreads : Config (Fin 3) (Futexes (Fin 3)) (Thread (Fin 3)) :=
  ⟨⟨fun _ => 0, fun _ => none⟩, fun t => ⟨t, .idle⟩⟩

theorem initial_threeThreads : Initial threeThreads := ⟨fun _ => rfl, fun _ => rfl, fun _ => rfl⟩

/-- Two threads wait for the word 4096, the third one stores 1 into it and wakes one of them. -/
def waking : List (Fin 3 × Choice (Fin 3)) :=
  let wait : Choice (Fin 3) := ⟨.futex 4096 0 0 none, fun _ => 0⟩
  let wake : Choice (Fin 3) := ⟨.futex 4096 1 1 none, fun _ => 0⟩
  List.replicate 4 (0, wait) ++ List.replicate 4 (1, wait) ++
    (2, ⟨.store 4096 1, fun _ => 0⟩) :: List.replicate 3 (2, wake)

theorem futex_sound_example : ∃ trace d, Run (Step futexes) threeThreads trace d ∧
    (2, .wakes 4096 1 (.value 1)) ∈ trace ∧ Sound threeThreads.shared.memory trace d := by
  have hrun : (futexes.exec threeThreads waking).any
      (fun r => decide ((2, .wakes 4096 1 (.value 1)) ∈ r.1)) = true := by
    decide
  obtain ⟨trace, d, hrun, hmem⟩ := Program.exec_test hrun
  exact ⟨trace, d, hrun, of_decide_eq_true hmem, futex_sound initial_threeThreads hrun⟩

/-- A thread waits for the word 4096 and is woken, and before it goes on the third thread comes to
its next wake. -/
def wakingTwice : List (Fin 3 × Choice (Fin 3)) :=
  List.replicate 4 (0, ⟨.futex 4096 0 0 none, fun _ => 0⟩) ++
    List.replicate 5 (2, ⟨.futex 4096 1 1 none, fun _ => 0⟩)

end Asnx.Bionic.Futex
