import Asnx.Bionic.MmapBookkeeping

/-!
# Unity's aligned regions

How Unity's virtual memory uses the mmap layer: a thread reserves a 64 MiB window, a direct
64 MiB region or a 256 MiB window, trims a window down to its aligned region, and finally
unmaps exactly the region it kept. `reserveRole` is this protocol, for any number of threads and
any number of rounds.

`bionic_munmap` looks for the first record whose live interval contains the start address. An
untrimmed 64 MiB window is twice as long as the memory behind it, so this may be the record of
another thread (`munmap_steals`). Where no earlier record has the start address live, every
`bionic_munmap` works on the record of its caller (`munmap_own_record`).
-/

namespace Asnx.Bionic

open Ownership Bits Threads

/-! ## The protocol -/

/-- The size of the aligned region of a reservation. -/
def MmapPlan.kept (m : MmapPlan) : Nat := m.arenaKeepCount * unityDynamicRegionBytes

/-- Where a thread stands with its reservation. `holding m i p trimmed` has the mapping that
`bionic_mmap` recorded as record `i` at address `p`; a direct region counts as trimmed. -/
inductive Role where
  | ready
  | reserving (m : MmapPlan)
  | holding (m : MmapPlan) (i : Fin mmapSlots) (p : Nat) (trimmed : Bool)
  | trimming (m : MmapPlan) (i : Fin mmapSlots) (p : Nat)
  | releasing (m : MmapPlan) (i : Fin mmapSlots) (p : Nat)
  deriving DecidableEq, Repr

/-- The protocol. A thread can only name ranges that lie in the address space. -/
def reserveRole : Role → Event → Option Role
  | .ready, .callMmap a =>
      match mmapPlan a with
      | .ok m => if m.unityReserve then some (.reserving m) else none
      | .error _ => none
  | .ready, .internal => some .ready
  | .ready, .returned _ => some .ready
  | .reserving m, .internal => some (.reserving m)
  | .reserving m, .recorded i p => some (.holding m i p m.unityDynamicDirect)
  | .reserving _, .returned _ => some .ready
  | .holding m i p trimmed, .returned _ => some (.holding m i p trimmed)
  | .holding m i p false, .callMunmap q n =>
      if q = p + m.kept ∧ n = m.logicalSize - m.kept ∧ p + m.logicalSize < 2 ^ 64 then
        some (.trimming m i p)
      else none
  | .holding m i p true, .callMunmap q n =>
      if q = p ∧ n = m.kept ∧ p + m.logicalSize < 2 ^ 64 then some (.releasing m i p) else none
  | .trimming m i p, .unmapped _ _ => some (.holding m i p true)
  | .releasing _ _ _, .unmapped _ _ => some .ready
  | _, _ => none

/-- The record a thread has, with the plan and the address of its mapping and whether the mapping
has been trimmed. -/
def Role.owned : Role → Option (MmapPlan × Fin mmapSlots × Nat × Bool)
  | .holding m i p trimmed => some (m, i, p, trimmed)
  | .trimming m i p => some (m, i, p, false)
  | .releasing m i p => some (m, i, p, true)
  | .ready | .reserving _ => none

/-- Threads that follow the protocol. -/
abbrev reserveProgram : Program Shared (Pc × Role) Choice Event := mmapProgram.under reserveRole

/-- The start of the threads, with an arena set up. -/
def reserveStart (T : Type*) (base size : Nat) : Config T Shared (Pc × Role) :=
  ⟨⟨bionicSetMmapArena .init base size, []⟩, fun _ => (.idle, .ready)⟩

/-- The section of `bionic_munmap` has changed no record but `i`, and has freed the arena slots
that record `i` no longer stands for. -/
def OnlyRecord (s s' : MmapState) (i : Fin mmapSlots) : Prop :=
  (∀ j, j ≠ i → s'.gMmaps j = s.gMmaps j) ∧
    bits s'.gUnityArenaUsed = bits s.gUnityArenaUsed \ ((s.gMmaps i).run \ (s'.gMmaps i).run)

/-- What the `bionic_munmap` of a thread ought to do: it changes only the record of the thread,
and the last one leaves it unused and its slots free. -/
def UnmapsOwn (role : Role) (s s' : MmapState) : Prop :=
  match role with
  | .trimming _ i _ => OnlyRecord s s' i
  | .releasing _ i _ => OnlyRecord s s' i ∧ (s'.gMmaps i).used = false ∧
      Disjoint (s.gMmaps i).run (bits s'.gUnityArenaUsed)
  | .ready | .reserving _ | .holding _ _ _ _ => True

/-- No used record before record `i` has the address live. -/
def NoEarlier (s : MmapState) (i : Fin mmapSlots) (start : Nat) : Prop :=
  ∀ j < i, (s.gMmaps j).used = true →
    ¬ ((s.gMmaps j).liveLo ≤ start ∧ start < (s.gMmaps j).liveHi)

instance (s : MmapState) (i : Fin mmapSlots) (start : Nat) : Decidable (NoEarlier s i start) :=
  inferInstanceAs (Decidable (∀ j, j < i → _))

variable {T : Type*} [DecidableEq T]

/-- If a thread with a mapping takes the section of `bionic_munmap`, no record before its own has
the start address live. -/
def FindsOwn (c : Config T Shared (Pc × Role)) (label : T × Event) : Prop :=
  match label.2, (c.locals label.1).2.owned with
  | .unmapped start _, some (_, i, _, _) => NoEarlier c.shared.mm i start
  | _, _ => True

instance (c : Config T Shared (Pc × Role)) (label : T × Event) : Decidable (FindsOwn c label) := by
  unfold FindsOwn
  split <;> infer_instance

/-- A step of the threads at which `bionic_munmap` finds the record of its caller. -/
def ReserveStep (c : Config T Shared (Pc × Role)) (label : T × Event)
    (d : Config T Shared (Pc × Role)) : Prop :=
  Step reserveProgram c label d ∧ FindsOwn c label

/-! ## Where a thread stands -/

/-- The plan of the `bionic_mmap` a thread is in. -/
def Pc.plan : Pc → Option MmapPlan
  | .reserve m | .allocate m _ | .countFallback m _ | .prepare m _ | .record m _
  | .giveBack m _ _ | .discard m _ _ => some m
  | .idle | .unmap _ _ | .freeBlock _ | .finished _ => none

/-- The thread is at a point of the code where it can have the role. -/
def Role.At : Role → Pc → Prop
  | .ready, l => l = .idle ∨ (∃ b, l = .freeBlock b) ∨ ∃ r, l = .finished r
  | .reserving m, l =>
      m.unityReserve = true ∧ (l.plan = some m ∨ ∃ e, l = .finished (.mmapFailed e))
  | .holding m _ _ trimmed, l => m.unityReserve = true ∧
      (m.unityDynamicDirect = true → trimmed = true) ∧ (l = .idle ∨ ∃ r, l = .finished r)
  | .trimming m _ p, l => m.unityReserve = true ∧ m.unityDynamicDirect = false ∧
      p + m.logicalSize < 2 ^ 64 ∧ l = .unmap (p + m.kept) (p + m.logicalSize)
  | .releasing m _ p, l => m.unityReserve = true ∧ p + m.logicalSize < 2 ^ 64 ∧
      l = .unmap p (p + m.kept)

/-- The record of a mapping that has not been unmapped. -/
structure Kept (r : MmapSlot) (m : MmapPlan) (p : Nat) (trimmed : Bool) : Prop where
  used : r.used = true
  base : r.base = p
  logicalSize : r.logicalSize = m.logicalSize
  arenaKeepCount : r.arenaKeepCount = m.arenaKeepCount
  liveLo : r.liveLo = p
  liveHi : r.liveHi = wrap (p + if trimmed then m.kept else m.logicalSize)

/-- The records of the threads are those of their mappings, and no two threads share one. -/
structure RoleInv (c : Config T Shared (Pc × Role)) : Prop where
  stands : ∀ t, (c.locals t).2.At (c.locals t).1
  kept : ∀ t m i p trimmed, (c.locals t).2.owned = some (m, i, p, trimmed) →
    Kept (c.shared.mm.gMmaps i) m p trimmed
  own : ∀ t u m i p trimmed m' i' p' trimmed', t ≠ u →
    (c.locals t).2.owned = some (m, i, p, trimmed) →
    (c.locals u).2.owned = some (m', i', p', trimmed') → i ≠ i'

/-- The geometry of the three kinds of reservation. -/
theorem MmapPlan.geometry {m : MmapPlan} (h : m.unityReserve = true) :
    0 < m.kept ∧ m.kept ≤ m.logicalSize ∧ m.kept % 0x1000 = 0 ∧ m.logicalSize % 0x1000 = 0 ∧
      (m.unityDynamicDirect = true → m.kept = m.logicalSize) ∧
      (m.unityDynamicDirect = false → m.kept < m.logicalSize) := by
  have hfile := not_file_backed h
  simp only [unityReserve, unityDynamicWindow, unityDynamicDirect, unityAligned256, kept,
    arenaKeepCount, hfile, Bool.not_false, Bool.true_and, Bool.or_eq_true, decide_eq_true_eq,
    decide_eq_false_iff_not] at h ⊢
  rcases h with (hwindow | hdirect) | haligned
  · simp [hwindow, unityDynamicReserveLogical, unityDynamicDirectLogical, unityDynamicRegionBytes]
  · simp [hdirect, unityDynamicReserveLogical, unityDynamicDirectLogical, unityDynamicRegionBytes]
  · simp [haligned, unityDynamicReserveLogical, unityDynamicDirectLogical, unityDynamicRegionBytes,
      unityAligned256ReserveLogical, unityAligned256LiveSlots]

/-- A range of whole pages inside the address space is accepted as it is. -/
theorem munmap_range_of_pages {p n : Nat} (hp : 0 < p) (hn : 0 < n) (hpages : n % 0x1000 = 0)
    (hend : p + n < 2 ^ 64) : munmapRange p n = some (p, p + n) := by
  have hsize : pageUpSize n = n := by
    unfold pageUpSize
    rw [if_neg (by omega)]
    omega
  have hwrap : wrap (p + n) = p + n := wrap_of_lt hend
  unfold munmapRange
  rw [hsize, hwrap, if_neg (by omega), if_neg (by omega), if_neg (by omega)]

/-! ## One step -/

variable {A : Arena} {c : Config T Shared (Pc × Role)} {t : T} {s : Shared} {l : Pc} {r : Role}

/-- What a step of thread `t` must keep: its own record is that of its mapping, and the records
of the other threads are left alone. -/
theorem RoleInv.move (h : RoleInv c) (hstands : r.At l)
    (hkept : ∀ m i p trimmed, r.owned = some (m, i, p, trimmed) →
      Kept (s.mm.gMmaps i) m p trimmed)
    (hother : ∀ u, u ≠ t → ∀ m i p trimmed, (c.locals u).2.owned = some (m, i, p, trimmed) →
      s.mm.gMmaps i = c.shared.mm.gMmaps i ∧
        ∀ m' i' p' trimmed', r.owned = some (m', i', p', trimmed') → i' ≠ i) :
    RoleInv (c.set t s (l, r)) := by
  refine ⟨fun u => ?_, fun u m i p trimmed hu => ?_, ?_⟩
  · by_cases hut : u = t
    · subst hut
      rwa [Config.set_locals_self]
    · rw [c.set_locals_other hut]
      exact h.stands u
  · by_cases hut : u = t
    · subst hut
      rw [Config.set_locals_self] at hu
      exact hkept m i p trimmed hu
    · rw [c.set_locals_other hut] at hu
      rw [Config.set_shared, (hother u hut m i p trimmed hu).1]
      exact h.kept u m i p trimmed hu
  · intro u v m i p trimmed m' i' p' trimmed' hne hu hv
    by_cases hut : u = t
    · subst hut
      rw [Config.set_locals_self] at hu
      rw [c.set_locals_other hne.symm] at hv
      exact (hother v hne.symm _ _ _ _ hv).2 _ _ _ _ hu
    · rw [c.set_locals_other hut] at hu
      by_cases hvt : v = t
      · subst hvt
        rw [Config.set_locals_self] at hv
        exact ((hother u hut _ _ _ _ hu).2 _ _ _ _ hv).symm
      · rw [c.set_locals_other hvt] at hv
        exact h.own u v m i p trimmed m' i' p' trimmed' hne hu hv

/-- A step that writes no record and gives the thread no new mapping. -/
theorem RoleInv.same (h : RoleInv c) (hstands : r.At l)
    (hrecords : s.mm.gMmaps = c.shared.mm.gMmaps)
    (howned : ∀ x, r.owned = some x → (c.locals t).2.owned = some x) :
    RoleInv (c.set t s (l, r)) := by
  refine h.move hstands (fun m i p trimmed hr => ?_) (fun u hu m i p trimmed hx => ⟨?_, ?_⟩)
  · rw [hrecords]
    exact h.kept t m i p trimmed (howned _ hr)
  · rw [hrecords]
  · intro m' i' p' trimmed' hr
    exact h.own t u _ _ _ _ _ _ _ _ hu.symm (howned _ hr) hx

/-- A thread inside `bionic_mmap` stays in it until it has a mapping or fails. -/
theorem reserving_step {s s' : Shared} {l l' : Pc} {m : MmapPlan}
    (h : MmapStep s l .internal s' l') (hunity : m.unityReserve = true) (hplan : l.plan = some m) :
    (Role.reserving m).At l' := by
  cases h with
  | noMemory | runGivenBack | blockGivenBack | discarded => exact ⟨hunity, .inr ⟨_, rfl⟩⟩
  | reserved | notReserved | fallbackCounted | misaligned | readFailed | prepared | tableFull =>
      exact ⟨hunity, .inl hplan⟩
  | allocated =>
      refine ⟨hunity, .inl ?_⟩
      split <;> exact hplan
  | freed => cases hplan

theorem Kept.cut {r : MmapSlot} {m : MmapPlan} {p hi : Nat} {trimmed : Bool}
    (h : Kept r m p trimmed)
    (hhi : hi = wrap (p + m.kept)) : Kept (r.withLiveHi hi) m p true :=
  ⟨h.used, h.base, h.logicalSize, h.arenaKeepCount, h.liveLo, hhi⟩

theorem Kept.keepPart {r : MmapSlot} {m : MmapPlan} {p : Nat} {trimmed : Bool}
    (h : Kept r m p trimmed) : Kept r.keepPart m p trimmed :=
  ⟨h.used, h.base, h.logicalSize, h.arenaKeepCount, h.liveLo, h.liveHi⟩

/-- Unmapping the tail of a window cuts its record down to the aligned region. -/
theorem trimming_unmapped {s mm : MmapState} {i : Fin mmapSlots} {m : MmapPlan} {p : Nat}
    {b : Option Block} (hunity : m.unityReserve = true) (hdirect : m.unityDynamicDirect = false)
    (hend : p + m.logicalSize < 2 ^ 64) (hkept : Kept (s.gMmaps i) m p false)
    (hfirst : NoEarlier s i (p + m.kept))
    (h : Unmapped s (p + m.kept) (p + m.logicalSize) mm b) :
    munmapMatch s (p + m.kept) = some i ∧ b = none ∧ Kept (mm.gMmaps i) m p true := by
  obtain ⟨hpos, -, -, -, -, hlt⟩ := m.geometry hunity
  have hlt := hlt hdirect
  have hlo := hkept.liveLo
  have hhi : (s.gMmaps i).liveHi = p + m.logicalSize := by
    rw [hkept.liveHi, if_neg Bool.false_ne_true, wrap_of_lt hend]
  have hlimit : (s.gMmaps i).limit = p + m.logicalSize := by
    rw [MmapSlot.limit, hkept.base, hkept.logicalSize, wrap_of_lt hend]
  have hclamp : (s.gMmaps i).clamp (p + m.logicalSize) = p + m.logicalSize := by
    rw [MmapSlot.clamp, hlimit, if_neg (by omega)]
  have hmatch : munmapMatch s (p + m.kept) = some i :=
    munmap_match_some.2 ⟨⟨hkept.used, by omega, by omega⟩, hfirst⟩
  have hcut : p + m.kept = wrap (p + m.kept) := (wrap_of_lt (by omega)).symm
  refine ⟨hmatch, ?_⟩
  cases h with
  | missed hmissed => exact absurd (hmissed.symm.trans hmatch) (by simp)
  | @runReleased k hk hcover | @blockReleased k hk hcover =>
      obtain rfl := Option.some.inj (hk.symm.trans hmatch)
      have := hcover.1
      omega
  | @headCut k hk _ hstart =>
      obtain rfl := Option.some.inj (hk.symm.trans hmatch)
      omega
  | @hole k hk hclamped =>
      obtain rfl := Option.some.inj (hk.symm.trans hmatch)
      omega
  | @tailCut k hk | @trimmed k hk =>
      obtain rfl := Option.some.inj (hk.symm.trans hmatch)
      refine ⟨rfl, ?_⟩
      simp only [uncharge_gMmaps, set_record_gMmaps, Function.update_self]
      first
        | exact hkept.cut hcut
        | exact (hkept.cut hcut).keepPart

/-- Unmapping the aligned region clears the record. -/
theorem releasing_unmapped {s mm : MmapState} {i : Fin mmapSlots} {m : MmapPlan} {p : Nat}
    {b : Option Block} (hunity : m.unityReserve = true) (hend : p + m.logicalSize < 2 ^ 64)
    (hkept : Kept (s.gMmaps i) m p true) (hfirst : NoEarlier s i p)
    (h : Unmapped s p (p + m.kept) mm b) :
    munmapMatch s p = some i ∧ mm.gMmaps i = .cleared := by
  obtain ⟨hpos, hle, -⟩ := m.geometry hunity
  have hlo := hkept.liveLo
  have hhi : (s.gMmaps i).liveHi = p + m.kept := by
    rw [hkept.liveHi, if_pos rfl, wrap_of_lt (by omega)]
  have hlimit : (s.gMmaps i).limit = p + m.logicalSize := by
    rw [MmapSlot.limit, hkept.base, hkept.logicalSize, wrap_of_lt hend]
  have hclamp : (s.gMmaps i).clamp (p + m.kept) = p + m.kept := by
    rw [MmapSlot.clamp, hlimit, if_neg (by omega)]
  have hmatch : munmapMatch s p = some i :=
    munmap_match_some.2 ⟨⟨hkept.used, by omega, by omega⟩, hfirst⟩
  refine ⟨hmatch, ?_⟩
  cases h with
  | missed hmissed => exact absurd (hmissed.symm.trans hmatch) (by simp)
  | @runReleased k hk | @blockReleased k hk =>
      obtain rfl := Option.some.inj (hk.symm.trans hmatch)
      simp
  | @headCut k hk hcover =>
      obtain rfl := Option.some.inj (hk.symm.trans hmatch)
      exact absurd ⟨hlo.ge, by omega⟩ hcover
  | @tailCut k hk hstart | @trimmed k hk hstart =>
      obtain rfl := Option.some.inj (hk.symm.trans hmatch)
      omega
  | @hole k hk hclamped =>
      obtain rfl := Option.some.inj (hk.symm.trans hmatch)
      omega

/-- A step that writes no record takes the thread to a point that fits its new role, with the
mapping it had. -/
theorem role_same {s s' : Shared} {l l' : Pc} {e : Event} {ρ r : Role} (hstands : ρ.At l)
    (hstep : MmapStep s l e s' l') (hrole : reserveRole ρ e = some r)
    (haddress : ∀ m i p trimmed, ρ.owned = some (m, i, p, trimmed) → 0 < p)
    (hrecorded : ∀ i p, e ≠ .recorded i p) (hunmapped : ∀ a b, e ≠ .unmapped a b) :
    r.At l' ∧ ∀ x, r.owned = some x → ρ.owned = some x := by
  cases e with
  | recorded => exact absurd rfl (hrecorded _ _)
  | unmapped => exact absurd rfl (hunmapped _ _)
  -- a call is made as the role says, so its arguments pass the first checks
  | callMmap a =>
      cases ρ with
      | ready =>
          cases hstep with
          | mmapRejected hplan => simp [reserveRole, hplan] at hrole
          | @mmapAccepted _ m hplan =>
              simp only [reserveRole, hplan, Option.ite_none_right_eq_some] at hrole
              obtain ⟨hunity, hr⟩ := hrole
              cases hr
              exact ⟨⟨hunity, .inl rfl⟩, fun _ hx => hx⟩
      | reserving | holding | trimming | releasing => cases hrole
  | callMunmap q n =>
      cases ρ with
      | ready | reserving | trimming | releasing => cases hrole
      | holding m i p trimmed =>
          obtain ⟨hunity, hdirect, -⟩ := hstands
          obtain ⟨hpos, hle, hpages, hpages', -, hlt⟩ := m.geometry hunity
          have hp := haddress m i p trimmed rfl
          cases trimmed with
          | false =>
              simp only [reserveRole, Option.ite_none_right_eq_some] at hrole
              obtain ⟨⟨rfl, rfl, hend⟩, hr⟩ := hrole
              cases hr
              -- not trimmed yet: the call gives back what lies behind the part to keep
              have hlt := hlt (by simpa using hdirect)
              have hrange : munmapRange (p + m.kept) (m.logicalSize - m.kept) =
                  some (p + m.kept, p + m.logicalSize) := by
                rw [munmap_range_of_pages (by omega) (by omega) (by omega) (by omega)]
                congr 2
                omega
              cases hstep with
              | munmapRejected hnone => exact absurd (hnone.symm.trans hrange) (by simp)
              | munmapAccepted hsome =>
                  cases hsome.symm.trans hrange
                  exact ⟨⟨hunity, by simpa using hdirect, hend, rfl⟩, fun _ hx => hx⟩
          | true =>
              simp only [reserveRole, Option.ite_none_right_eq_some] at hrole
              obtain ⟨⟨rfl, rfl, hend⟩, hr⟩ := hrole
              cases hr
              -- trimmed: the call gives back the part that was kept
              have hrange := munmap_range_of_pages hp hpos hpages (by omega)
              cases hstep with
              | munmapRejected hnone => exact absurd (hnone.symm.trans hrange) (by simp)
              | munmapAccepted hsome =>
                  cases hsome.symm.trans hrange
                  exact ⟨⟨hunity, hend, rfl⟩, fun _ hx => hx⟩
  | internal =>
      cases ρ with
      | ready =>
          cases hrole
          refine ⟨?_, fun _ hx => hx⟩
          rcases hstands with rfl | ⟨b, rfl⟩ | ⟨r, rfl⟩
          · cases hstep
          · cases hstep
            exact .inr (.inr ⟨_, rfl⟩)
          · cases hstep
      | reserving m =>
          cases hrole
          refine ⟨?_, fun _ hx => hx⟩
          obtain ⟨hunity, hplan | ⟨e, rfl⟩⟩ := hstands
          · exact reserving_step hstep hunity hplan
          · cases hstep
      | holding | trimming | releasing => cases hrole
  | returned ret =>
      cases hstep
      cases ρ with
      | ready | reserving =>
          cases hrole
          exact ⟨.inl rfl, fun _ hx => hx⟩
      | holding =>
          cases hrole
          exact ⟨⟨hstands.1, hstands.2.1, .inl rfl⟩, fun _ hx => hx⟩
      | trimming | releasing => cases hrole

omit [DecidableEq T] in
/-- The mapping of a thread is not at the null address. -/
theorem RoleInv.address (hinv : MmapInv A c.inner) (h : RoleInv c) {m : MmapPlan}
    {i : Fin mmapSlots} {p : Nat} {trimmed : Bool}
    (howned : (c.locals t).2.owned = some (m, i, p, trimmed)) : 0 < p := by
  have hkept := h.kept t m i p trimmed howned
  have hbounds := hinv.sound.backing_bounds (o := .inl i) (hold_of_used hkept.used)
  rw [backing_hold_of] at hbounds
  exact hkept.base ▸ hbounds.1

/-- The record that `bionic_mmap` fills in is that of the thread's mapping. -/
theorem kept_record {m : MmapPlan} (hunity : m.unityReserve = true) (v : MmapVars) :
    Kept (mmapRecord m v) m v.p m.unityDynamicDirect := by
  obtain ⟨-, -, -, -, hdirect, -⟩ := m.geometry hunity
  refine ⟨rfl, rfl, rfl, rfl, rfl, ?_⟩
  show wrap (v.p + m.logicalSize) = _
  split
  · rename_i h
    rw [hdirect h]
  · rfl

/-- The last section of `bionic_mmap` gives the thread a record that was unused. -/
theorem role_recorded {s s' : Shared} {l l' : Pc} {ρ r : Role} {i : Fin mmapSlots} {p : Nat}
    (hstands : ρ.At l) (hstep : MmapStep s l (.recorded i p) s' l')
    (hrole : reserveRole ρ (.recorded i p) = some r) :
    r.At l' ∧ (s.mm.gMmaps i).used = false ∧ (∀ j, j ≠ i → s'.mm.gMmaps j = s.mm.gMmaps j) ∧
      ∃ m, r.owned = some (m, i, p, m.unityDynamicDirect) ∧
        Kept (s'.mm.gMmaps i) m p m.unityDynamicDirect := by
  cases hstep with
  | @recorded m v mm i hinsert =>
      obtain ⟨hunused, rfl⟩ := mmap_insert_some hinsert
      cases ρ with
      | ready | holding | trimming | releasing => cases hrole
      | reserving m' =>
          cases hrole
          obtain ⟨hunity, hplan | ⟨e, hfinished⟩⟩ := hstands
          · cases hplan
            refine ⟨⟨hunity, id, .inr ⟨_, rfl⟩⟩, hunused, fun j hj => ?_, m, rfl, ?_⟩
            · exact Function.update_of_ne hj _ _
            · show Kept (Function.update s.mm.gMmaps i (mmapRecord m v) i) _ _ _
              rw [Function.update_self]
              exact kept_record hunity v
          · cases hfinished

omit [DecidableEq T] in
/-- The section of `bionic_munmap`, for a thread that has the address in its own record and finds
no earlier one. -/
theorem role_unmapped {c : Config T Shared Pc} (hinv : MmapInv A c) {s' : Shared} {l l' : Pc}
    {ρ r : Role} {start «end» : Nat} (hstands : ρ.At l)
    (hstep : MmapStep c.shared l (.unmapped start «end») s' l')
    (hrole : reserveRole ρ (.unmapped start «end») = some r)
    (hkept : ∀ m i p trimmed, ρ.owned = some (m, i, p, trimmed) →
      Kept (c.shared.mm.gMmaps i) m p trimmed)
    (hfirst : ∀ m i p trimmed, ρ.owned = some (m, i, p, trimmed) →
      NoEarlier c.shared.mm i start) :
    r.At l' ∧ UnmapsOwn ρ c.shared.mm s'.mm ∧ ∃ m i p trimmed, ρ.owned = some (m, i, p, trimmed) ∧
      (∀ j, j ≠ i → s'.mm.gMmaps j = c.shared.mm.gMmaps j) ∧
      ∀ x, r.owned = some x → x = (m, i, p, true) ∧ Kept (s'.mm.gMmaps i) m p true := by
  cases ρ with
  | ready | reserving | holding => cases hrole
  -- the part behind the one to keep goes, by the same record
  | trimming m i p =>
      cases hrole
      obtain ⟨hunity, hdirect, hend, rfl⟩ := hstands
      have hkept := hkept m i p false rfl
      have hfirst := hfirst m i p false rfl
      cases hstep with
      | unmapped hlocked =>
          have hunmap := munmap_locked_unmapped hlocked
          obtain ⟨hmatch, -, htrimmed⟩ :=
            trimming_unmapped hunity hdirect hend hkept hfirst hunmap
          have honly := hinv.unmapped_record hunmap hmatch
          refine ⟨⟨hunity, fun _ => rfl, .inr ⟨_, rfl⟩⟩, honly, m, i, p, false, rfl, honly.1, ?_⟩
          rintro x ⟨⟩
          exact ⟨rfl, htrimmed⟩
      | unmappedBlock hlocked =>
          have := trimming_unmapped hunity hdirect hend hkept hfirst (munmap_locked_unmapped hlocked)
          -- a trim gives back slots of the arena, never a block
          exact absurd this.2.1 (by simp)
  | releasing m i p =>
      cases hrole
      obtain ⟨hunity, hend, hl⟩ := hstands
      obtain ⟨rfl, rfl⟩ : p = start ∧ p + m.kept = «end» := by
        subst hl
        cases hstep <;> exact ⟨rfl, rfl⟩
      have hkept := hkept m i p true rfl
      have hfirst := hfirst m i p true rfl
      -- the record is cleared with what it kept
      have hown : ∀ mm b, Unmapped c.shared.mm p (p + m.kept) mm b →
          UnmapsOwn (.releasing m i p) c.shared.mm mm := by
        intro mm b hunmap
        obtain ⟨hmatch, hcleared⟩ := releasing_unmapped hunity hend hkept hfirst hunmap
        have honly := hinv.unmapped_record hunmap hmatch
        refine ⟨honly, by rw [hcleared]; rfl, ?_⟩
        rw [honly.2, hcleared, run_cleared, Set.sdiff_empty]
        exact Set.disjoint_sdiff_right
      cases hstep with
      | unmapped hlocked =>
          have hown := hown _ _ (munmap_locked_unmapped hlocked)
          exact ⟨.inr (.inr ⟨_, rfl⟩), hown, m, i, p, true, rfl, hown.1.1, fun _ hx => by cases hx⟩
      | unmappedBlock hlocked =>
          have hown := hown _ _ (munmap_locked_unmapped hlocked)
          exact ⟨.inr (.inl ⟨_, rfl⟩), hown, m, i, p, true, rfl, hown.1.1, fun _ hx => by cases hx⟩

/-- Every step at which `bionic_munmap` finds no earlier record keeps the records of the threads
apart, and works on the record of the thread. -/
theorem reserve_step {d : Config T Shared (Pc × Role)} {e : Event} (hinv : MmapInv A c.inner)
    (hroles : RoleInv c) (h : ReserveStep c (t, e) d) :
    RoleInv d ∧ ∀ start «end», e = .unmapped start «end» →
      UnmapsOwn (c.locals t).2 c.shared.mm d.shared.mm := by
  obtain ⟨hstep, hfirst⟩ := h
  obtain ⟨x, s, l, r, hnext, hrole, rfl⟩ := Program.under_step hstep
  have hstep := mmap_next_step hnext
  have hstands := hroles.stands t
  cases e with
  | callMmap | callMunmap | internal | returned =>
      refine ⟨?_, by simp⟩
      obtain ⟨hat, howned⟩ := role_same hstands hstep hrole
        (fun _ _ _ _ => hroles.address hinv) (by simp) (by simp)
      exact hroles.same hat (step_records hstep (by simp) (by simp)) howned
  | recorded i p =>
      refine ⟨?_, by simp⟩
      obtain ⟨hat, hunused, hrecords, m, hr, hkept⟩ := role_recorded hstands hstep hrole
      -- the record was unused, so nobody else owns it
      have hne : ∀ u, u ≠ t → ∀ m' i' p' trimmed',
          (c.locals u).2.owned = some (m', i', p', trimmed') → i' ≠ i := by
        rintro u - m' i' p' trimmed' hu rfl
        have := (hroles.kept u m' i' p' trimmed' hu).used
        rw [hunused] at this
        cases this
      refine hroles.move hat (fun m' i' p' trimmed' hx => ?_) fun u hu m' i' p' trimmed' hx =>
        ⟨hrecords _ (hne u hu _ _ _ _ hx), fun _ _ _ _ hy => ?_⟩
      · cases hr.symm.trans hx
        exact hkept
      · cases hr.symm.trans hy
        exact (hne u hu _ _ _ _ hx).symm
  | unmapped start «end» =>
      obtain ⟨hat, hown, m, i, p, trimmed, howned, hrecords, hr⟩ :=
        role_unmapped hinv hstands hstep hrole (hroles.kept t) fun m i p trimmed hx => by
          simp only [FindsOwn, hx] at hfirst
          exact hfirst
      refine ⟨?_, fun _ _ _ => hown⟩
      have hne : ∀ u, u ≠ t → ∀ m' i' p' trimmed',
          (c.locals u).2.owned = some (m', i', p', trimmed') → i' ≠ i :=
        fun u hu _ _ _ _ hx => (hroles.own t u _ _ _ _ _ _ _ _ hu.symm howned hx).symm
      refine hroles.move hat (fun m' i' p' trimmed' hx => ?_) fun u hu m' i' p' trimmed' hx =>
        ⟨hrecords _ (hne u hu _ _ _ _ hx), fun _ _ _ _ hy => ?_⟩
      · obtain ⟨heq, hkept⟩ := hr _ hx
        cases heq
        exact hkept
      · obtain ⟨heq, -⟩ := hr _ hy
        cases heq
        exact (hne u hu _ _ _ _ hx).symm

/-- In a run in which `bionic_munmap` never finds an earlier record with the address live, the
records of the threads stay apart. -/
theorem reserve_run {base size : Nat} (hfits : base + size ≤ 2 ^ 64)
    {trace : List (T × Event)} (h : Run ReserveStep (reserveStart T base size) trace c) :
    ∃ A, MmapInv A c.inner ∧ RoleInv c := by
  obtain ⟨A, hinv⟩ := mmap_inv_start (T := T) hfits
  refine ⟨A, h.invariant (I := fun c => MmapInv A c.inner ∧ RoleInv c) ⟨hinv, ?_⟩ ?_⟩
  · refine ⟨fun _ => .inl rfl, ?_, ?_⟩
    · intro t m i p trimmed hx
      cases hx
    · intro t u m i p trimmed m' i' p' trimmed' _ hx
      cases hx
  · rintro c ⟨t, e⟩ d ⟨hinv, hroles⟩ hstep
    exact ⟨mmap_inv_step hinv (Program.under_step_inner hstep.1),
      (reserve_step hinv hroles hstep).1⟩

/-- In every run of threads that reserve, trim and release regions, in which no section of
`bionic_munmap` finds the address live in a record before the caller's, each of these sections
changes only the record of the calling thread, and the last one of a mapping leaves its record
unused and its arena slots free. -/
theorem munmap_own_record {base size : Nat} (hfits : base + size ≤ 2 ^ 64)
    {trace : List (T × Event)} {d : Config T Shared (Pc × Role)} {start «end» : Nat}
    (h : Run ReserveStep (reserveStart T base size) trace c)
    (hstep : ReserveStep c (t, .unmapped start «end») d) :
    UnmapsOwn (c.locals t).2 c.shared.mm d.shared.mm := by
  obtain ⟨A, hinv, hroles⟩ := reserve_run hfits h
  exact (reserve_step hinv hroles hstep).2 start «end» rfl

/-- A thread reserves a window in the first arena slot, another maps the second slot directly and
is about to unmap it. -/
def windowAndDirect : List (Bool × Choice) :=
  [(false, .callMmap ⟨0x07fff000, 0x20, -1, 0⟩), (false, .go), (false, .fileRead none),
    (false, .go), (false, .go), (true, .callMmap ⟨0x04000000, 0x20, -1, 0⟩), (true, .go),
    (true, .fileRead none), (true, .go), (true, .go), (true, .callMunmap 0x44000000 0x04000000)]

/-- The live interval of the untrimmed window reaches over the second slot, so the section of
`bionic_munmap` cuts the record of the window and leaves that of its caller used. -/
theorem munmap_steals : ¬ ∀ (trace : List (Bool × Event)) (c d : Config Bool Shared (Pc × Role))
    (t : Bool) (start «end» : Nat),
    Run (Step reserveProgram) (reserveStart Bool 0x40000000 0x08000000) trace c →
    Step reserveProgram c (t, .unmapped start «end») d →
    UnmapsOwn (c.locals t).2 c.shared.mm d.shared.mm := by
  intro h
  have htest : (reserveProgram.exec (reserveStart Bool 0x40000000 0x08000000) windowAndDirect).any
      (fun r => (reserveProgram.exec r.2 [(true, .go)]).any fun q =>
        decide (q.1 = [(true, .unmapped 0x44000000 0x48000000)] ∧
          (r.2.locals true).2 = .releasing ⟨0x04000000, 0x04000000, false, by decide⟩ 1 0x44000000 ∧
          (q.2.shared.mm.gMmaps 1).used = true)) = true := by decide +kernel
  obtain ⟨trace, c, hrun, hlast⟩ := Program.exec_test htest
  obtain ⟨⟨last, d⟩, hexec, hstep⟩ := (Option.any_eq_true _ _).1 hlast
  obtain ⟨rfl, hrole, hused⟩ := of_decide_eq_true hstep
  have hown := h _ _ _ _ _ _ hrun (Program.exec_step hexec)
  rw [hrole] at hown
  exact absurd (hused.symm.trans hown.2.1) (by decide)

/-- One thread reserves a window, trims it and releases it, and another maps the second slot once
the window has been trimmed. -/
def windowThenDirect : List (Bool × Choice) :=
  [(false, .callMmap ⟨0x07fff000, 0x20, -1, 0⟩), (false, .go), (false, .fileRead none),
    (false, .go), (false, .go), (false, .callMunmap 0x44000000 0x03fff000), (false, .go),
    (false, .go), (true, .callMmap ⟨0x04000000, 0x20, -1, 0⟩), (true, .go),
    (true, .fileRead none), (true, .go), (true, .go), (true, .callMunmap 0x44000000 0x04000000)]

/-- After the trim the second thread unmaps its own mapping. -/
theorem munmap_own_record_example : ∃ (trace : List (Bool × Event))
    (c d : Config Bool Shared (Pc × Role)),
    Run ReserveStep (reserveStart Bool 0x40000000 0x08000000) trace c ∧
      ReserveStep c (true, .unmapped 0x44000000 0x48000000) d ∧
      (c.shared.mm.gMmaps 0).used = true ∧ OnlyRecord c.shared.mm d.shared.mm 1 ∧
      (d.shared.mm.gMmaps 1).used = false ∧
      Disjoint (c.shared.mm.gMmaps 1).run (bits d.shared.mm.gUnityArenaUsed) := by
  have htest : (reserveProgram.execIf (fun c label => decide (FindsOwn c label))
      (reserveStart Bool 0x40000000 0x08000000) windowThenDirect).any
      (fun r => (reserveProgram.exec r.2 [(true, .go)]).any fun q =>
        decide (q.1 = [(true, .unmapped 0x44000000 0x48000000)] ∧
          (r.2.locals true).2 = .releasing ⟨0x04000000, 0x04000000, false, by decide⟩ 1 0x44000000 ∧
          (r.2.shared.mm.gMmaps 0).used = true ∧
          FindsOwn r.2 (true, .unmapped 0x44000000 0x48000000))) = true := by decide +kernel
  obtain ⟨⟨trace, c⟩, hrun, hlast⟩ := (Option.any_eq_true _ _).1 htest
  obtain ⟨⟨last, d⟩, hexec, hstep⟩ := (Option.any_eq_true _ _).1 hlast
  obtain ⟨rfl, hrole, hused, hfinds⟩ := of_decide_eq_true hstep
  have hrun : Run ReserveStep _ trace c :=
    (Program.exec_if_run hrun).mono fun _ _ _ h => ⟨h.1, of_decide_eq_true h.2⟩
  have hstep : ReserveStep c _ d := ⟨Program.exec_step hexec, hfinds⟩
  have hown := munmap_own_record (by decide) hrun hstep
  rw [hrole] at hown
  exact ⟨trace, c, d, hrun, hstep, hused, hown.1, hown.2.1, hown.2.2⟩

end Asnx.Bionic
