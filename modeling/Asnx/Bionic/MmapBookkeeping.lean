import Asnx.Bionic.MmapInvariant

/-!
# The bookkeeping of the mmap layer between calls

When no call is in progress, the threads hold nothing and the ledger speaks about the record
table alone. To see what a failing `bionic_mmap` has done, every thread carries the footprint of
its current call.
-/

namespace Asnx.Bionic

open Ownership Bits Threads

/-- The arena slots of a record. -/
def MmapSlot.run (r : MmapSlot) : Set Nat :=
  if r.used ∧ r.arenaIndex ≥ 0 then Set.Ico r.arenaIndex.toNat (r.arenaIndex.toNat + r.arenaCount)
  else ∅

/-- The addresses of the memory behind a record. -/
def MmapSlot.backing (r : MmapSlot) : Set Nat := Set.Ico r.base (r.base + r.backingSize)

/-! ## Footprints -/

/-- What the steps of one call have done: whether one of them changed the record table or the
byte counter, and the bits of the bitmap that were toggled an odd number of times. -/
structure Footprint where
  table : Prop
  bytes : Prop
  toggled : BitVec 64

/-- The footprint of a call that has not begun. -/
def Footprint.none : Footprint := ⟨False, False, 0⟩

/-- The footprint after one more step. -/
def Footprint.add (f : Footprint) (s s' : Shared) : Footprint where
  table := f.table ∨ s'.mm.gMmaps ≠ s.mm.gMmaps
  bytes := f.bytes ∨ s'.mm.gMmapBackingBytes ≠ s.mm.gMmapBackingBytes
  toggled := f.toggled ^^^ (s.mm.gUnityArenaUsed ^^^ s'.mm.gUnityArenaUsed)

/-- The record table and the byte counter were not touched, and exactly the given bits of the
bitmap were toggled. -/
structure Footprint.Only (f : Footprint) (slots : Set Nat) : Prop where
  table : ¬ f.table
  bytes : ¬ f.bytes
  toggled : bits f.toggled = slots

/-- The call has left the record table, the bitmap and the byte counter as they were. -/
def Footprint.Nothing (f : Footprint) : Prop := ¬ f.table ∧ ¬ f.bytes ∧ f.toggled = 0

/-- The threads of the mmap layer, each with the footprint of its current call. -/
abbrev MmapCallStep {T : Type*} [DecidableEq T] :
    Tracked T Shared Pc Footprint → T × Event → Tracked T Shared Pc Footprint → Prop :=
  Tracked.Step mmapProgram Event.begins Footprint.none Footprint.add

theorem Footprint.only_none : Footprint.none.Only ∅ :=
  ⟨id, id, bits_zero⟩

/-- A step that changes none of the three. -/
theorem Footprint.Only.same {f : Footprint} {slots : Set Nat} {s s' : Shared} (h : f.Only slots)
    (htable : s'.mm.gMmaps = s.mm.gMmaps)
    (hbytes : s'.mm.gMmapBackingBytes = s.mm.gMmapBackingBytes)
    (hused : s'.mm.gUnityArenaUsed = s.mm.gUnityArenaUsed) : (f.add s s').Only slots := by
  refine ⟨?_, ?_, ?_⟩
  · simpa [add, htable] using h.table
  · simpa [add, hbytes] using h.bytes
  · simpa [add, hused] using h.toggled

/-- A step that takes a free run. -/
theorem Footprint.Only.take {f : Footprint} {slots : Set Nat} {s s' : Shared} (h : f.Only ∅)
    (htable : s'.mm.gMmaps = s.mm.gMmaps)
    (hbytes : s'.mm.gMmapBackingBytes = s.mm.gMmapBackingBytes)
    (hused : bits s'.mm.gUnityArenaUsed = bits s.mm.gUnityArenaUsed ∪ slots)
    (hfree : Disjoint slots (bits s.mm.gUnityArenaUsed)) : (f.add s s').Only slots := by
  refine ⟨?_, ?_, ?_⟩
  · simpa [add, htable] using h.table
  · simpa [add, hbytes] using h.bytes
  · rw [add, bits_xor, bits_xor, h.toggled, hused]
    ext k
    have hk : k ∈ slots → k ∉ bits s.mm.gUnityArenaUsed := fun hk => Set.disjoint_left.1 hfree hk
    simp only [Set.mem_symmDiff, Set.mem_union, Set.mem_empty_iff_false]
    tauto

/-- A step that gives back the run taken before. -/
theorem Footprint.Only.giveBack {f : Footprint} {slots : Set Nat} {s s' : Shared}
    (h : f.Only slots) (htable : s'.mm.gMmaps = s.mm.gMmaps)
    (hbytes : s'.mm.gMmapBackingBytes = s.mm.gMmapBackingBytes)
    (hused : bits s'.mm.gUnityArenaUsed = bits s.mm.gUnityArenaUsed \ slots)
    (hheld : slots ⊆ bits s.mm.gUnityArenaUsed) : (f.add s s').Only ∅ := by
  refine ⟨?_, ?_, ?_⟩
  · simpa [add, htable] using h.table
  · simpa [add, hbytes] using h.bytes
  · rw [add, bits_xor, bits_xor, h.toggled, hused]
    ext k
    have hk := @hheld k
    simp only [Set.mem_symmDiff, Set.mem_sdiff, Set.mem_empty_iff_false]
    tauto

/-- What the footprint of a `bionic_mmap` that has not recorded its mapping is: the run it holds. -/
def Pc.Noted (f : Footprint) : Pc → Prop
  | .idle | .unmap _ _ | .freeBlock _ | .finished (.mmapped _) | .finished .munmapFailed
  | .finished .munmapped => True
  | l => f.Only (slotsOf l.hold)

variable {T : Type*} [DecidableEq T] {A : Arena} {c : Config T Shared Pc} {t : T} {e : Event}
  {s : Shared} {l : Pc} {f : Footprint}

/-- A thread that holds a block of the allocator holds no arena slot. -/
theorem slots_of_vars_block {m : MmapPlan} {v : MmapVars} (h : ¬ v.arenaIndex ≥ 0) :
    slotsOf (some (v.hold m)) = ∅ := by
  rw [MmapVars.hold, hold_of_block h]
  rfl

omit [DecidableEq T] in
theorem slots_of_hold (h : MmapInv A c) (t : T) :
    slotsOf (c.locals t).hold ⊆ bits c.shared.mm.gUnityArenaUsed :=
  h.sound.slots.subset_used (.inr t)

omit [DecidableEq T] in
/-- The footprint of the current call stays the run that the call holds. -/
theorem step_noted (hinv : MmapInv A c) (hnoted : (c.locals t).Noted f)
    (h : MmapStep c.shared (c.locals t) e s l) :
    l.Noted ((if e.begins then Footprint.none else f).add c.shared s) := by
  have hok := hinv.ok t
  have hheld := slots_of_hold hinv t
  have hslots : c.shared.mm.gUnityArenaSlots ≤ 64 := hinv.slots ▸ A.slots_le.trans (by decide)
  generalize hl : c.locals t = l₀ at h hnoted hok hheld
  cases h with
  | mmapRejected | mmapAccepted => exact Footprint.only_none.same rfl rfl rfl
  | munmapRejected | munmapAccepted | recorded | unmapped | unmappedBlock | freed | returned =>
      trivial
  | noMemory | misaligned | readFailed | prepared | tableFull | fallbackCounted =>
      exact Footprint.Only.same hnoted rfl rfl rfl
  | @reserved m mm v hreserve hp =>
      rcases mmap_reserve_cases hslots hreserve with ⟨-, hzero, -⟩ | hrun
      · exact absurd hzero hp
      · obtain ⟨i, -, hindex, -, -, hfree, rfl, hbits, -, -⟩ := hrun
        -- the reservation took the run that the call now holds
        have hslots : slotsOf (some (v.hold m)) = Set.Ico i (i + m.arenaCount) := by
          rw [MmapVars.hold, hindex, hold_of_run (by omega), Int.toNat_natCast]
          rfl
        show Footprint.Only _ (slotsOf (some (v.hold m)))
        rw [hslots]
        exact Footprint.Only.take hnoted rfl rfl hbits hfree
  | notReserved hreserve hp =>
      obtain ⟨rfl, -⟩ := hinv.not_reserved hreserve hp
      exact Footprint.Only.same hnoted rfl rfl rfl
  | @allocated m v p =>
      have hnone := slots_of_vars_block (m := m) (v := ⟨p, m.memalignBytes, v.arenaIndex⟩)
        (not_le.2 hok)
      have hsame : (f.add c.shared ⟨c.shared.mm, ⟨p, m.memalignBytes⟩ :: c.shared.heap⟩).Only ∅ :=
        Footprint.Only.same hnoted rfl rfl rfl
      rw [← hnone] at hsame
      by_cases hunity : m.unityReserve = true
      · rw [if_pos hunity]
        exact hsame
      · rw [if_neg hunity]
        exact hsame
  | @runGivenBack m v _ hindex =>
      obtain ⟨hpos, hfits⟩ := hinv.vars_run (t := t) (by rw [hl]; rfl) hindex
      -- the run given back is the one that was taken
      have hrun : slotsOf (some (v.hold m)) =
          Set.Ico v.arenaIndex.toNat (v.arenaIndex.toNat + m.arenaCount) := by
        rw [MmapVars.hold, hold_of_run hindex]
        rfl
      refine Footprint.Only.giveBack hnoted (by simp) (by simp) ?_ hheld
      rw [show slotsOf (Pc.giveBack m v _).hold = _ from hrun]
      exact bits_unity_arena_release_run _ hpos hfits
  | @blockGivenBack m v e hindex =>
      have hnone : slotsOf (Pc.giveBack m v e).hold = ∅ := slots_of_vars_block hindex
      have honly : Footprint.Only f _ := hnoted
      rw [hnone] at honly
      exact honly.same rfl rfl rfl
  | @discarded m v e =>
      -- a block of the heap has no slots
      have hnone : slotsOf (Pc.discard m v e).hold = ∅ := slots_of_vars_block (not_le.2 hok)
      have honly : Footprint.Only f _ := hnoted
      rw [hnone] at honly
      exact honly.same rfl rfl rfl

/-! ## The state between calls -/

omit [DecidableEq T] in
/-- The slots a record holds are the run it stands for. -/
theorem slots_of_record (r : MmapSlot) : slotsOf r.hold = r.run := by
  unfold MmapSlot.hold MmapSlot.run holdOf
  by_cases hused : r.used = true
  · by_cases hindex : r.arenaIndex ≥ 0
    · simp [hused, hindex]
    · simp [hused, hindex]
  · simp [hused]

omit [DecidableEq T] in
/-- When no call is in progress the slots belong to the records. -/
theorem MmapInv.runs (h : MmapInv A c) (hquiet : ∀ t, c.locals t = .idle) :
    Partition (fun i => (c.shared.mm.gMmaps i).run) (bits c.shared.mm.gUnityArenaUsed) := by
  refine ⟨fun i j hne => ?_, ?_⟩
  · have := h.sound.slots.disjoint (.inl i) (.inl j) (Sum.inl_injective.ne hne)
    simpa only [ledger_hold_inl, slots_of_record] using this
  · have hcover := h.sound.slots.cover
    rw [Set.iUnion_sum] at hcover
    simp only [ledger_hold_inl, slots_of_record, ledger_hold_inr, hquiet, Pc.hold, slots_of_none,
      Set.iUnion_empty, Set.union_empty] at hcover
    exact hcover

theorem run_of_arena {r : MmapSlot} (hused : r.used = true) (hindex : r.arenaIndex ≥ 0) :
    r.run = Set.Ico r.arenaIndex.toNat (r.arenaIndex.toNat + r.arenaCount) :=
  if_pos ⟨hused, hindex⟩

theorem run_of_block {r : MmapSlot} (hindex : ¬ r.arenaIndex ≥ 0) : r.run = ∅ :=
  if_neg fun h => hindex h.2

@[simp] theorem run_cleared : MmapSlot.cleared.run = ∅ := if_neg (by decide)

omit [DecidableEq T] in
/-- The lock-held section of `bionic_munmap` writes at most the record it matched, and frees
exactly the slots that this record no longer stands for. -/
theorem MmapInv.unmapped_record (h : MmapInv A c) {start «end» : Nat} {mm : MmapState}
    {b : Option Block} (hunmap : Unmapped c.shared.mm start «end» mm b) {i : Fin mmapSlots}
    (hmatch : munmapMatch c.shared.mm start = some i) :
    (∀ j, j ≠ i → mm.gMmaps j = c.shared.mm.gMmaps j) ∧
      bits mm.gUnityArenaUsed = bits c.shared.mm.gUnityArenaUsed \
        ((c.shared.mm.gMmaps i).run \ (mm.gMmaps i).run) := by
  have hused := (munmap_match_some.1 hmatch).1.1
  cases hunmap with
  | missed hmissed => exact absurd (hmissed.symm.trans hmatch) (by simp)
  | hole => exact ⟨fun _ _ => rfl, by simp⟩
  | @runReleased k hk _ hindex =>
      obtain rfl := Option.some.inj (hk.symm.trans hmatch)
      obtain ⟨hpos, hfits, -⟩ := h.record_run hused hindex
      refine ⟨fun j hj => by simp [hj], ?_⟩
      rw [set_record_gMmaps, Function.update_self, run_cleared, run_of_arena hused hindex,
        if_pos (by omega), set_record_gUnityArenaUsed, bits_unity_arena_release_run _ hpos hfits,
        uncharge_gUnityArenaUsed, Set.sdiff_empty]
  | @blockReleased k hk _ hindex =>
      obtain rfl := Option.some.inj (hk.symm.trans hmatch)
      refine ⟨fun j hj => by simp [hj], ?_⟩
      rw [run_of_block hindex, Set.empty_sdiff, Set.sdiff_empty]
      rfl
  | @headCut k hk | @tailCut k hk =>
      obtain rfl := Option.some.inj (hk.symm.trans hmatch)
      refine ⟨fun j hj => by simp [hj], ?_⟩
      rw [set_record_gMmaps, Function.update_self]
      show _ = _ \ ((c.shared.mm.gMmaps k).run \ (c.shared.mm.gMmaps k).run)
      rw [Set.sdiff_self, Set.sdiff_empty]
      rfl
  | @trimmed k hk _ _ htrims =>
      obtain rfl := Option.some.inj (hk.symm.trans hmatch)
      obtain ⟨hindex, hkeep, hcount, -, -⟩ := htrims
      obtain ⟨hpos, hfits, -⟩ := h.record_run hused hindex
      have hend : (c.shared.mm.gMmaps k).arenaIndex.toNat + (c.shared.mm.gMmaps k).arenaKeepCount +
          ((c.shared.mm.gMmaps k).arenaCount - (c.shared.mm.gMmaps k).arenaKeepCount) =
          (c.shared.mm.gMmaps k).arenaIndex.toNat + (c.shared.mm.gMmaps k).arenaCount := by
        omega
      have hbits := bits_unity_arena_release_run c.shared.mm (Nat.sub_pos_of_lt hcount)
        (hend ▸ hfits)
      have hrun := run_of_arena (r := ((c.shared.mm.gMmaps k).withLiveHi start).keepPart) hused
        hindex
      refine ⟨fun j hj => by simp [hj], ?_⟩
      rw [uncharge_gMmaps, set_record_gMmaps, Function.update_self, run_of_arena hused hindex, hrun,
        uncharge_gUnityArenaUsed, set_record_gUnityArenaUsed, hbits, hend]
      exact congrArg _ (run_sdiff_kept ..).symm

omit [DecidableEq T] in
/-- The memory behind two used records does not overlap. -/
theorem MmapInv.backings (h : MmapInv A c) {i j : Fin mmapSlots} (hne : i ≠ j)
    (hi : (c.shared.mm.gMmaps i).used = true) (hj : (c.shared.mm.gMmaps j).used = true) :
    Disjoint (c.shared.mm.gMmaps i).backing (c.shared.mm.gMmaps j).backing := by
  have hapart := h.sound.backing_apart (Sum.inl_injective.ne hne) (hold_of_used hi)
    (hold_of_used hj)
  simp only [backing_hold_of, Block.Apart] at hapart
  rw [Set.disjoint_left]
  intro a ha hb
  simp only [MmapSlot.backing, Set.mem_Ico] at ha hb
  omega

/-- What holds at every point of a run, of the footprints as well. -/
theorem mmap_noted_run {base size : Nat} (hfits : base + size ≤ 2 ^ 64)
    {trace : List (T × Event)} {c : Tracked T Shared Pc Footprint}
    (h : Run MmapCallStep ⟨mmapStart T base size, fun _ => .none⟩ trace c) :
    ∃ A, MmapInv A c.config ∧ ∀ t, (c.config.locals t).Noted (c.note t) := by
  obtain ⟨A, hinv⟩ := mmap_inv_start (T := T) hfits
  exact ⟨A, Tracked.invariant (I := MmapInv A) (N := fun l f => l.Noted f) h hinv
    (fun _ => trivial) (fun _ _ _ => mmap_inv_step)
    fun _ _ _ _ _ _ _ hinv hnoted hnext => step_noted hinv hnoted (mmap_next_step hnext)⟩

/-- A call that returns has finished before and changes nothing more. -/
theorem returned_step {c d : Tracked T Shared Pc Footprint} {r : Ret}
    (h : MmapCallStep c (t, .returned r) d) :
    c.config.locals t = .finished r ∧
      d.note t = (c.note t).add c.config.shared c.config.shared := by
  rcases h with @⟨c, _, note, _, _, hmove⟩
  cases hmove with
  | @mk _ x _ s l hnext =>
      have hstep := mmap_next_step hnext
      generalize hl : c.locals t = l₀ at hstep
      cases hstep with
      | returned => exact ⟨rfl, Function.update_self ..⟩

/-- After `bionic_set_mmap_arena`, whatever calls the threads make and
however these interleave: in a state with no call in progress the used slots are the disjoint
union of the runs of the records, the byte counter is the sum of their backing sizes and the
memory behind them does not overlap; and a `bionic_mmap` that fails has changed neither the
record table nor the byte counter, and has toggled every bit of the bitmap an even number of
times. -/
theorem mmap_bookkeeping {base size : Nat} (hfits : base + size ≤ 2 ^ 64)
    {trace : List (T × Event)} {c : Tracked T Shared Pc Footprint}
    (h : Run MmapCallStep ⟨mmapStart T base size, fun _ => .none⟩ trace c) :
    ((∀ t, c.config.locals t = .idle) →
      Partition (fun i => (c.config.shared.mm.gMmaps i).run)
        (bits c.config.shared.mm.gUnityArenaUsed) ∧
      c.config.shared.mm.gMmapBackingBytes = ∑ i, (c.config.shared.mm.gMmaps i).charged ∧
      ∀ i j, i ≠ j → (c.config.shared.mm.gMmaps i).used = true →
        (c.config.shared.mm.gMmaps j).used = true →
        Disjoint (c.config.shared.mm.gMmaps i).backing (c.config.shared.mm.gMmaps j).backing) ∧
    ∀ t e d, MmapCallStep c (t, .returned (.mmapFailed e)) d → (d.note t).Nothing := by
  obtain ⟨A, hinv, hnoted⟩ := mmap_noted_run hfits h
  refine ⟨fun hquiet => ⟨hinv.runs hquiet, hinv.bytes, fun i j => hinv.backings⟩, ?_⟩
  intro t e d hreturn
  obtain ⟨hl, hnote⟩ := returned_step hreturn
  have honly := hnoted t
  rw [hl] at honly
  have hsame := Footprint.Only.same (s := c.config.shared) honly rfl rfl rfl
  rw [hnote]
  refine ⟨hsame.table, hsame.bytes, eq_of_bits_eq ?_⟩
  rw [hsame.toggled]
  exact bits_zero.symm

/-- One thread reserves a window of the arena while another maps a page. -/
def mmapExample : List (Bool × Choice) :=
  [(false, .callMmap ⟨0x07fff000, 0x20, -1, 0⟩), (true, .callMmap ⟨0x1000, 0x20, -1, 0⟩),
    (false, .go), (true, .go), (true, .memalign (some 0x1000)), (false, .fileRead none),
    (true, .fileRead none), (false, .go), (true, .go), (false, .go), (true, .go)]

/-- The bookkeeping after two mappings of two threads. -/
theorem mmap_bookkeeping_example : ∃ trace c,
    Run MmapCallStep ⟨mmapStart Bool 0x40000000 0x08000000, fun _ => .none⟩ trace c ∧
    (∀ t, c.config.locals t = .idle) ∧ (c.config.shared.mm.gMmaps 1).used = true ∧
    Partition (fun i => (c.config.shared.mm.gMmaps i).run)
      (bits c.config.shared.mm.gUnityArenaUsed) ∧
    c.config.shared.mm.gMmapBackingBytes = ∑ i, (c.config.shared.mm.gMmaps i).charged ∧
    Disjoint (c.config.shared.mm.gMmaps 0).backing (c.config.shared.mm.gMmaps 1).backing := by
  have htest : (mmapProgram.exec (mmapStart Bool 0x40000000 0x08000000) mmapExample).any (fun r =>
      decide ((∀ t, r.2.locals t = .idle) ∧ (r.2.shared.mm.gMmaps 0).used = true ∧
        (r.2.shared.mm.gMmaps 1).used = true)) = true := by decide +kernel
  obtain ⟨trace, d, hrun, htest⟩ := Program.exec_test htest
  obtain ⟨hquiet, hzero, hone⟩ := of_decide_eq_true htest
  obtain ⟨note, hrun⟩ : ∃ note, Run MmapCallStep _ trace ⟨d, note⟩ :=
    Tracked.exists_run hrun fun _ => Footprint.none
  obtain ⟨hpartition, hbytes, hdisjoint⟩ :=
    (mmap_bookkeeping (by decide) hrun).1 hquiet
  exact ⟨_, _, hrun, hquiet, hone, hpartition, hbytes, hdisjoint 0 1 (by decide) hzero hone⟩

end Asnx.Bionic
