import Mathlib.Algebra.BigOperators.Fin
import Asnx.Bionic.Ledger
import Asnx.Bionic.MmapSteps
import Asnx.Library.Counting

/-!
# The bookkeeping of the mmap layer

`Config.ledger` reads off what every record and every thread holds, and every step of a thread
is a move of that ledger (`step_move`). With the ledger sound, the bitmap, the record table
and the byte counter agree (`MmapInv`), which every interleaving of the two calls preserves
(`mmap_inv_run`).
-/

namespace Asnx.Bionic

open Ownership Bits Threads Counting

/-! ## The ledger of a configuration -/

/-- The holding described by a block, an `arena_index` and an `arena_count`. -/
def holdOf (b : Block) (index : Int) (count : Nat) : Hold :=
  if index ≥ 0 then .run b index.toNat count else .block b

/-- What a record holds. -/
def MmapSlot.hold (r : MmapSlot) : Option Hold :=
  if r.used then some (holdOf ⟨r.base, r.backingSize⟩ r.arenaIndex r.arenaCount) else none

/-- What `bionic_mmap` holds in its local variables. -/
def MmapVars.hold (m : MmapPlan) (v : MmapVars) : Hold :=
  holdOf ⟨v.p, v.backingSize⟩ v.arenaIndex m.arenaCount

/-- What a thread holds between two steps of a call. -/
def Pc.hold : Pc → Option Hold
  | .countFallback m v | .prepare m v | .record m v | .giveBack m v _ | .discard m v _ =>
      some (v.hold m)
  | .freeBlock b => some (.block b)
  | .idle | .reserve _ | .allocate _ _ | .unmap _ _ | .finished _ => none

variable {T : Type*} [DecidableEq T]

omit [DecidableEq T] in
/-- The holdings of all records and all threads, the used slots and the live blocks. -/
def ledger (c : Config T Shared Pc) : Ledger (Fin mmapSlots ⊕ T) where
  hold := Sum.elim (fun i => (c.shared.mm.gMmaps i).hold) fun t => (c.locals t).hold
  slots := bits c.shared.mm.gUnityArenaUsed
  heap := {b | b ∈ c.shared.heap}

/-- What is known of the local variables of a thread: a block comes from the allocator where it
is freed without a look at `arena_index`. -/
def Pc.Ok : Pc → Prop
  | .allocate _ v | .countFallback _ v | .discard _ v _ => v.arenaIndex < 0
  | .prepare m v => m.fileBacked = true → v.arenaIndex < 0
  | _ => True

/-- The bytes a record is charged for. -/
def MmapSlot.charged (r : MmapSlot) : Nat := if r.used then r.backingSize else 0

omit [DecidableEq T] in
/-- The bookkeeping invariant: the arena is the accepted one, the ledger is sound, and the byte
counter is the sum over the used records. -/
structure MmapInv (A : Arena) (c : Config T Shared Pc) : Prop where
  base : c.shared.mm.gUnityArenaBase = A.base
  slots : c.shared.mm.gUnityArenaSlots = A.slots
  ok : ∀ t, (c.locals t).Ok
  sound : (ledger c).Sound A
  bytes : c.shared.mm.gMmapBackingBytes = ∑ i, (c.shared.mm.gMmaps i).charged

omit [DecidableEq T] in
@[simp] theorem ledger_hold_inl (c : Config T Shared Pc) (i : Fin mmapSlots) :
    (ledger c).hold (.inl i) = (c.shared.mm.gMmaps i).hold := rfl

omit [DecidableEq T] in
@[simp] theorem ledger_hold_inr (c : Config T Shared Pc) (t : T) :
    (ledger c).hold (.inr t) = (c.locals t).hold := rfl

@[simp] theorem hold_cleared : MmapSlot.cleared.hold = none := rfl

@[simp] theorem hold_with_live_lo (r : MmapSlot) (lo : Nat) : (r.withLiveLo lo).hold = r.hold := rfl

@[simp] theorem hold_with_live_hi (r : MmapSlot) (hi : Nat) : (r.withLiveHi hi).hold = r.hold := rfl

@[simp] theorem hold_mmap_record (m : MmapPlan) (v : MmapVars) :
    (mmapRecord m v).hold = some (v.hold m) := rfl

theorem hold_of_run {b : Block} {index : Int} (h : index ≥ 0) (count : Nat) :
    holdOf b index count = .run b index.toNat count := if_pos h

theorem hold_of_block {b : Block} {index : Int} (h : ¬ index ≥ 0) (count : Nat) :
    holdOf b index count = .block b := if_neg h

/-- A used record holds the memory behind it. -/
theorem hold_of_used {r : MmapSlot} (h : r.used = true) :
    r.hold = some (holdOf ⟨r.base, r.backingSize⟩ r.arenaIndex r.arenaCount) := if_pos h

theorem hold_of_unused {r : MmapSlot} (h : r.used = false) : r.hold = none := by
  simp [MmapSlot.hold, h]

theorem hold_keep_part {r : MmapSlot} (hused : r.used = true) (hindex : r.arenaIndex ≥ 0) :
    r.keepPart.hold = some (.run ⟨r.base, r.arenaKeepCount * unityDynamicRegionBytes⟩
      r.arenaIndex.toNat r.arenaKeepCount) :=
  (if_pos hused).trans (congrArg some (if_pos hindex))

theorem hold_with_live_hi_keep_part (r : MmapSlot) (hi : Nat) :
    (r.withLiveHi hi).keepPart.hold = r.keepPart.hold := rfl

@[simp] theorem backing_hold_of (b : Block) (index : Int) (count : Nat) :
    (holdOf b index count).backing = b := by
  unfold holdOf
  split <;> rfl

/-- A thread moves and the records hold what they held. -/
theorem ledger_set {c : Config T Shared Pc} {t : T} {s : Shared} {l : Pc}
    (hrecords : ∀ i, (s.mm.gMmaps i).hold = (c.shared.mm.gMmaps i).hold) :
    ledger (c.set t s l) =
      ⟨Function.update (ledger c).hold (.inr t) l.hold, bits s.mm.gUnityArenaUsed,
        {b | b ∈ s.heap}⟩ := by
  unfold ledger
  congr 1
  funext o
  rcases o with i | u
  · simp [hrecords i]
  · by_cases hu : u = t
    · subst hu
      simp
    · simp [c.set_locals_other hu, hu]

/-- A thread moves and one record changes. -/
theorem ledger_set_record {c : Config T Shared Pc} {t : T} {s : Shared} {l : Pc}
    (i : Fin mmapSlots) (r : MmapSlot)
    (hrecords : s.mm.gMmaps = Function.update c.shared.mm.gMmaps i r) :
    ledger (c.set t s l) =
      ⟨Function.update (Function.update (ledger c).hold (.inr t) l.hold) (.inl i) r.hold,
        bits s.mm.gUnityArenaUsed, {b | b ∈ s.heap}⟩ := by
  unfold ledger
  congr 1
  funext o
  rcases o with j | u
  · by_cases hj : j = i
    · subst hj
      rw [Function.update_self, Sum.elim_inl, Config.set_shared, hrecords, Function.update_self]
    · rw [Function.update_of_ne (Sum.inl_injective.ne hj), Function.update_of_ne Sum.inl_ne_inr,
        Sum.elim_inl, Config.set_shared, hrecords, Function.update_of_ne hj]
      rfl
  · rw [Function.update_of_ne Sum.inr_ne_inl, Sum.elim_inr]
    by_cases hu : u = t
    · subst hu
      rw [Function.update_self, Config.set_locals_self]
    · rw [Function.update_of_ne (Sum.inr_injective.ne hu), c.set_locals_other hu]
      rfl

/-- One record changes and the thread that moves holds what it held. -/
theorem ledger_set_only_record {c : Config T Shared Pc} {t : T} {s : Shared} {l : Pc}
    (i : Fin mmapSlots) (r : MmapSlot)
    (hrecords : s.mm.gMmaps = Function.update c.shared.mm.gMmaps i r)
    (hhold : l.hold = (c.locals t).hold) :
    ledger (c.set t s l) =
      ⟨Function.update (ledger c).hold (.inl i) r.hold, bits s.mm.gUnityArenaUsed,
        {b | b ∈ s.heap}⟩ := by
  rw [ledger_set_record i r hrecords, hhold, ← ledger_hold_inr, Function.update_eq_self]

/-- Nothing that the ledger sees changes. -/
theorem ledger_set_same {c : Config T Shared Pc} {t : T} {s : Shared} {l : Pc}
    (hrecords : ∀ i, (s.mm.gMmaps i).hold = (c.shared.mm.gMmaps i).hold)
    (hused : s.mm.gUnityArenaUsed = c.shared.mm.gUnityArenaUsed)
    (hheap : s.heap = c.shared.heap) (hhold : l.hold = (c.locals t).hold) :
    ledger (c.set t s l) = ledger c := by
  rw [ledger_set hrecords, hused, hheap, hhold, ← ledger_hold_inr, Function.update_eq_self]
  rfl

/-! ## Every step is a move -/

/-- A reservation either takes a free run of the arena or changes nothing. -/
theorem mmap_reserve_cases {s mm : MmapState} {m : MmapPlan} {v : MmapVars}
    (hslots : s.gUnityArenaSlots ≤ 64) (h : mmapReserve s m = (mm, v)) :
    (mm = s ∧ v.p = 0 ∧ v.arenaIndex < 0) ∨
      ∃ i : Nat, m.unityReserve = true ∧ v.arenaIndex = i ∧ 0 < m.arenaCount ∧
        i + m.arenaCount ≤ s.gUnityArenaSlots ∧
        Disjoint (Set.Ico i (i + m.arenaCount)) (bits s.gUnityArenaUsed) ∧
        mm = s.occupy (unityArenaMask i m.arenaCount) ∧
        bits mm.gUnityArenaUsed = bits s.gUnityArenaUsed ∪ Set.Ico i (i + m.arenaCount) ∧
        v.p = wrap (s.gUnityArenaBase + i * unityDynamicRegionBytes) ∧
        v.backingSize = m.arenaCount * unityDynamicRegionBytes := by
  unfold mmapReserve at h
  split at h
  · rename_i hreserve
    split at h <;> cases h
    · rename_i htake
      obtain ⟨hpos, hfits, hfree, hocc, hbits, hp⟩ := unity_arena_take_run_some hslots htake
      exact .inr ⟨_, hreserve, rfl, hpos, hfits, hfree, hocc, hbits, hp, rfl⟩
    · exact .inl ⟨rfl, rfl, Int.negSucc_lt_zero 0⟩
  · cases h
    exact .inl ⟨rfl, rfl, Int.negSucc_lt_zero 0⟩

/-- The block that `memalign` is asked for is not empty. -/
theorem MmapPlan.memalign_bytes_pos (m : MmapPlan) : 0 < m.memalignBytes := by
  unfold memalignBytes
  split
  · decide
  · exact m.logicalSize_pos

/-- A Unity reservation is not backed by a file. -/
theorem MmapPlan.not_file_backed {m : MmapPlan} (h : m.unityReserve = true) :
    m.fileBacked = false := by
  simp only [unityReserve, unityDynamicWindow, unityDynamicDirect, unityAligned256,
    Bool.or_eq_true, Bool.and_eq_true, Bool.not_eq_true'] at h
  tauto

variable {A : Arena} {c : Config T Shared Pc} {t : T} {e : Event} {s : Shared} {l : Pc}

omit [DecidableEq T] in
/-- The run behind a record lies in the arena. -/
theorem MmapInv.record_run (h : MmapInv A c) {i : Fin mmapSlots}
    (hused : (c.shared.mm.gMmaps i).used = true)
    (hindex : (c.shared.mm.gMmaps i).arenaIndex ≥ 0) :
    0 < (c.shared.mm.gMmaps i).arenaCount ∧
      (c.shared.mm.gMmaps i).arenaIndex.toNat + (c.shared.mm.gMmaps i).arenaCount ≤ 33 ∧
      (c.shared.mm.gMmaps i).backingSize =
        (c.shared.mm.gMmaps i).arenaCount * unityDynamicRegionBytes := by
  have hhold : (ledger c).hold (.inl i) = some _ := hold_of_used hused
  rw [hold_of_run hindex] at hhold
  obtain ⟨hpos, hfits, hblock⟩ := h.sound.inArena _ _ hhold
  have hle : A.slots ≤ 33 := A.slots_le
  exact ⟨hpos, by omega, congrArg Block.size hblock⟩

omit [DecidableEq T] in
/-- What a thread holds as a run lies in the arena. -/
theorem MmapInv.vars_run (h : MmapInv A c) {m : MmapPlan} {v : MmapVars}
    (hhold : (c.locals t).hold = some (v.hold m)) (hindex : v.arenaIndex ≥ 0) :
    0 < m.arenaCount ∧ v.arenaIndex.toNat + m.arenaCount ≤ 33 := by
  rw [MmapVars.hold, hold_of_run hindex] at hhold
  obtain ⟨hpos, hfits, -⟩ := h.sound.inArena (.inr t) _ hhold
  have hle : A.slots ≤ 33 := A.slots_le
  exact ⟨hpos, by omega⟩

omit [DecidableEq T] in
/-- A run of the accepted arena does not wrap around the address space. -/
theorem MmapInv.run_address (h : MmapInv A c) {i count : Nat} (hpos : 0 < count)
    (hfits : i + count ≤ A.slots) :
    wrap (c.shared.mm.gUnityArenaBase + i * unityDynamicRegionBytes) =
      A.base + i * unityDynamicRegionBytes := by
  have hend := A.fits
  rw [h.base]
  apply wrap_of_lt
  simp only [unityDynamicRegionBytes] at *
  omega

omit [DecidableEq T] in
/-- A reservation that ends with a null pointer has changed nothing: the arena does not contain
the null address. -/
theorem MmapInv.not_reserved (h : MmapInv A c) {m : MmapPlan} {mm : MmapState} {v : MmapVars}
    (hreserve : mmapReserve c.shared.mm m = (mm, v)) (hp : v.p = 0) :
    mm = c.shared.mm ∧ v.arenaIndex < 0 := by
  have hslots : c.shared.mm.gUnityArenaSlots ≤ 64 := h.slots ▸ A.slots_le.trans (by decide)
  rcases mmap_reserve_cases hslots hreserve with ⟨rfl, -, hindex⟩ | hrun
  · exact ⟨rfl, hindex⟩
  · obtain ⟨i, -, -, hpos, hfits, -, -, -, haddr, -⟩ := hrun
    rw [h.slots] at hfits
    rw [h.run_address hpos hfits] at haddr
    have := A.base_pos (by omega)
    omega

/-- The record that `bionic_mmap` fills in was unused. -/
theorem mmap_insert_hold {s mm : MmapState} {m : MmapPlan} {v : MmapVars} {i : Fin mmapSlots}
    (h : mmapInsert s m v = some (mm, i)) : (s.gMmaps i).hold = none :=
  hold_of_unused (mmap_insert_some h).1

/-- A thread that frees the block it holds gives it back. -/
theorem step_free {b : Block} (hhold : (ledger c).hold (.inr t) = some (.block b))
    (hl : l.hold = none) :
    Ledger.Move A (ledger c) (ledger (c.set t (c.shared.free b.base) l)) := by
  have hheap : {a | a ∈ (c.shared.free b.base).heap} =
      {a | a ∈ (ledger c).heap ∧ a.base ≠ b.base} := by
    ext a
    simp [Shared.free, ledger]
  rw [ledger_set]
  · rw [hheap, hl]
    exact .giveBlock _ _ _ hhold
  · exact fun _ => rfl

/-- Every step of a thread is a move of the ledger. -/
theorem step_move (hinv : MmapInv A c) (h : MmapStep c.shared (c.locals t) e s l) :
    Ledger.Move A (ledger c) (ledger (c.set t s l)) := by
  have hok := hinv.ok t
  have hslots : c.shared.mm.gUnityArenaSlots ≤ 33 := hinv.slots ▸ A.slots_le
  have hinr := ledger_hold_inr c t
  generalize hl : c.locals t = l₀ at h hok hinr
  cases h with
  | mmapRejected | mmapAccepted | munmapRejected | munmapAccepted | noMemory | fallbackCounted
  | misaligned | readFailed | prepared | tableFull | returned =>
      rw [ledger_set_same]
      case hhold => exact hl ▸ rfl
      all_goals first | exact .stay _ | exact fun _ => rfl | rfl
  | notReserved hreserve hp =>
      obtain ⟨rfl, -⟩ := hinv.not_reserved hreserve hp
      rw [ledger_set_same (fun _ => rfl) rfl rfl (by rw [hl]; rfl)]
      exact .stay _
  -- the slots that the reservation marks are the bits of its run, and they were free
  | @reserved m mm v hreserve hp =>
      rcases mmap_reserve_cases (by omega) hreserve with ⟨-, hzero, -⟩ | hrun
      · exact absurd hzero hp
      · obtain ⟨i, -, hindex, hpos, hfits, hfree, hocc, hbits, haddr, hsize⟩ := hrun
        rw [hinv.slots] at hfits
        rw [hinv.run_address hpos hfits] at haddr
        have hhold : v.hold m = .run (A.runBlock i m.arenaCount) i m.arenaCount := by
          rw [MmapVars.hold, hindex, hold_of_run (by omega), haddr, hsize, Int.toNat_natCast]
          rfl
        rw [ledger_set (by rw [hocc]; exact fun _ => rfl), hbits, Pc.hold, hhold]
        exact .takeRun _ _ i m.arenaCount hinr hpos hfits hfree
  -- the allocator promises a block apart from the arena and from every live block
  | @allocated m v p hfresh =>
      obtain ⟨hbase, hend, harena, hapart⟩ := hfresh
      have hindex : ¬ v.arenaIndex ≥ 0 := not_le.2 hok
      have hblock : c.shared.mm.arena = A.block := by
        rw [MmapState.arena, hinv.base, hinv.slots]
        rfl
      have hheap : {b | b ∈ (⟨p, m.memalignBytes⟩ : Block) :: c.shared.heap} =
          {b | b ∈ c.shared.heap} ∪ {⟨p, m.memalignBytes⟩} := by
        ext b
        simp [or_comm]
      have hhold : (if m.unityReserve = true then
          Pc.countFallback m { v with p, backingSize := m.memalignBytes }
          else .prepare m { v with p, backingSize := m.memalignBytes }).hold =
          some (.block ⟨p, m.memalignBytes⟩) := by
        split <;> rw [Pc.hold, MmapVars.hold, hold_of_block hindex]
      rw [ledger_set]
      · rw [hheap, hhold]
        exact .takeBlock _ _ _ hinr hbase m.memalign_bytes_pos hend (hblock ▸ harena) hapart
      · exact fun _ => rfl
  -- what the thread held goes to the record, which held nothing
  | @recorded m v mm i hinsert =>
      have hnone := mmap_insert_hold hinsert
      obtain ⟨-, rfl⟩ := mmap_insert_some hinsert
      rw [ledger_set_record i (mmapRecord m v) rfl, hold_mmap_record]
      exact .handOver _ _ _ _ Sum.inr_ne_inl hinr hnone
  -- no room for a record: the run or the block goes back
  | @runGivenBack m v _ hindex =>
      obtain ⟨hpos, hfits⟩ := hinv.vars_run (t := t) (by rw [hl]; rfl) hindex
      rw [Pc.hold, MmapVars.hold, hold_of_run hindex] at hinr
      rw [ledger_set]
      · rw [bits_unity_arena_release_run _ hpos hfits]
        exact .giveRun _ _ _ _ _ hinr
      · simp
  | @blockGivenBack m v _ hindex =>
      rw [Pc.hold, MmapVars.hold, hold_of_block hindex] at hinr
      exact step_free hinr rfl
  | @discarded m v _ =>
      rw [Pc.hold, MmapVars.hold, hold_of_block (not_le.2 hok)] at hinr
      exact step_free hinr rfl
  | freed => exact step_free hinr rfl
  | unmapped hunmap =>
      cases munmap_locked_unmapped hunmap with
      | missed | hole =>
          rw [ledger_set_same (fun _ => rfl) rfl rfl (by rw [hl]; rfl)]
          exact .stay _
      -- a whole mapping is gone, and its slots are free again
      | @runReleased i hmatch _ hindex =>
          have hused := (munmap_match_some.1 hmatch).1.1
          obtain ⟨hpos, hfits, -⟩ := hinv.record_run hused hindex
          have hhold : (ledger c).hold (.inl i) = some _ := hold_of_used hused
          rw [hold_of_run hindex] at hhold
          rw [ledger_set_only_record i .cleared (by simp)
            (by rw [hl]; rfl), if_pos (by omega)]
          have hbits := bits_unity_arena_release_run
            (c.shared.mm.uncharge (c.shared.mm.gMmaps i).backingSize) hpos hfits
          rw [set_record_gUnityArenaUsed, hbits]
          exact .giveRun _ _ _ _ _ hhold
      -- a cut at one end changes what lives, not what the record holds
      | @headCut i hmatch | @tailCut i hmatch =>
          rw [ledger_set_only_record i _ rfl (by rw [hl]; rfl)]
          simp only [hold_with_live_lo, hold_with_live_hi, ← ledger_hold_inl,
            Function.update_eq_self]
          exact .stay _
      -- only the slots behind the part that is kept go back
      | @trimmed i hmatch _ _ htrims =>
          have hused := (munmap_match_some.1 hmatch).1.1
          obtain ⟨hindex, hkeep, hcount, -, -⟩ := htrims
          obtain ⟨hpos, hfits, -⟩ := hinv.record_run hused hindex
          have hhold : (ledger c).hold (.inl i) = some _ := hold_of_used hused
          rw [hold_of_run hindex] at hhold
          have hend : (c.shared.mm.gMmaps i).arenaIndex.toNat +
              (c.shared.mm.gMmaps i).arenaKeepCount +
              ((c.shared.mm.gMmaps i).arenaCount - (c.shared.mm.gMmaps i).arenaKeepCount) =
              (c.shared.mm.gMmaps i).arenaIndex.toNat + (c.shared.mm.gMmaps i).arenaCount := by
            omega
          have hbits := bits_unity_arena_release_run c.shared.mm (Nat.sub_pos_of_lt hcount)
            (hend ▸ hfits)
          rw [hend] at hbits
          rw [ledger_set_only_record i ((c.shared.mm.gMmaps i).withLiveHi _).keepPart (by simp; rfl)
            (by rw [hl]; rfl), hold_with_live_hi_keep_part, hold_keep_part hused hindex,
            uncharge_gUnityArenaUsed, set_record_gUnityArenaUsed, hbits]
          exact .trimRun _ _ _ _ _ _ hhold hkeep hcount
  | unmappedBlock hunmap =>
      cases munmap_locked_unmapped hunmap with
      | @blockReleased i hmatch _ hindex =>
          have hused := (munmap_match_some.1 hmatch).1.1
          have hhold : (ledger c).hold (.inl i) = some _ := hold_of_used hused
          rw [hold_of_block hindex] at hhold
          -- the record hands its block to the thread, which frees it outside the lock
          rw [ledger_set_record i .cleared rfl, Function.update_comm Sum.inr_ne_inl]
          exact .handOver _ _ _ _ Sum.inl_ne_inr hhold hinr

/-! ## The byte counter -/

theorem charged_of_used {r : MmapSlot} (h : r.used = true) : r.charged = r.backingSize := if_pos h

@[simp] theorem charged_cleared : MmapSlot.cleared.charged = 0 := rfl

/-- The sum of the charges after one record has been written. -/
theorem sum_charged_update (f : Fin mmapSlots → MmapSlot) (i : Fin mmapSlots) (r : MmapSlot) :
    (∑ j, (Function.update f i r j).charged) + (f i).charged =
      (∑ j, (f j).charged) + r.charged :=
  sum_map_update f MmapSlot.charged i r

/-- One record is charged no more than all of them. -/
theorem charged_le_sum (f : Fin mmapSlots → MmapSlot) (i : Fin mmapSlots) :
    (f i).charged ≤ ∑ j, (f j).charged :=
  le_sum (fun j => (f j).charged) i

omit [DecidableEq T] in
/-- The memory behind the used records fits into the address space, so the byte counter does
not wrap. -/
theorem sum_charged_lt (h : (ledger c).Sound A) :
    ∑ i, (c.shared.mm.gMmaps i).charged < 2 ^ 64 := by
  let range : Fin mmapSlots → Finset Nat := fun i =>
    if (c.shared.mm.gMmaps i).used then Finset.Ico (c.shared.mm.gMmaps i).base
      ((c.shared.mm.gMmaps i).base + (c.shared.mm.gMmaps i).backingSize) else ∅
  have hcard : ∀ i, (range i).card = (c.shared.mm.gMmaps i).charged := fun i => by
    simp only [range, MmapSlot.charged]
    split <;> simp
  have hdisjoint : ∀ i ∈ Finset.univ, ∀ j ∈ Finset.univ, i ≠ j → Disjoint (range i) (range j) := by
    intro i _ j _ hne
    simp only [range]
    split
    · split
      · rename_i hi hj
        have hapart := h.backing_apart (Sum.inl_injective.ne hne)
          (hold_of_used hi) (hold_of_used hj)
        simp only [backing_hold_of, Block.Apart] at hapart
        rw [Finset.disjoint_left]
        intro a ha hb
        simp only [Finset.mem_Ico] at ha hb
        omega
      · exact Finset.disjoint_empty_right _
    · exact Finset.disjoint_empty_left _
  have hsubset : Finset.univ.biUnion range ⊆ Finset.Ico 1 (2 ^ 64) := by
    intro a ha
    obtain ⟨i, -, hi⟩ := Finset.mem_biUnion.1 ha
    simp only [range] at hi
    split at hi
    · rename_i hused
      have hbounds := h.backing_bounds (o := .inl i) (hold_of_used hused)
      simp only [backing_hold_of] at hbounds
      simp only [Finset.mem_Ico] at hi ⊢
      omega
    · exact absurd hi (Finset.notMem_empty a)
  have hle := Finset.card_le_card hsubset
  rw [Finset.card_biUnion hdisjoint, Nat.card_Ico] at hle
  simp only [hcard] at hle
  omega

/-- Every step keeps the byte counter equal to the sum over the used records. -/
theorem step_bytes (hinv : MmapInv A c) (h : MmapStep c.shared (c.locals t) e s l)
    (hsound : (ledger (c.set t s l)).Sound A) :
    s.mm.gMmapBackingBytes = ∑ i, (s.mm.gMmaps i).charged := by
  have hbytes := hinv.bytes
  generalize hl : c.locals t = l₀ at h
  cases h with
  | mmapRejected | mmapAccepted | munmapRejected | munmapAccepted | noMemory | fallbackCounted
  | misaligned | readFailed | prepared | tableFull | returned | allocated | blockGivenBack
  | discarded | freed => exact hbytes
  | @reserved m mm v hreserve | @notReserved m mm v hreserve =>
      rcases mmap_reserve_cases (hinv.slots ▸ A.slots_le.trans (by decide)) hreserve with
        ⟨rfl, -, -⟩ | ⟨_, -, -, -, -, -, rfl, -⟩ <;> exact hbytes
  | runGivenBack => simpa using hbytes
  | @recorded m v mm i hinsert =>
      obtain ⟨hunused, rfl⟩ := mmap_insert_some hinsert
      have hsum := sum_charged_update c.shared.mm.gMmaps i (mmapRecord m v)
      have hold : (c.shared.mm.gMmaps i).charged = 0 := by simp [MmapSlot.charged, hunused]
      have hnew : (mmapRecord m v).charged = v.backingSize := rfl
      -- the sum is below the size of the address space, so the counter does not wrap
      have hlt := sum_charged_lt hsound
      change wrap (c.shared.mm.gMmapBackingBytes + v.backingSize) =
        ∑ j, (Function.update c.shared.mm.gMmaps i (mmapRecord m v) j).charged
      change ∑ j, (Function.update c.shared.mm.gMmaps i (mmapRecord m v) j).charged < _ at hlt
      rw [wrap_of_lt (by omega)]
      omega
  | @unmapped start _ _ hunmap =>
      cases munmap_locked_unmapped hunmap with
      | missed | hole => exact hbytes
      | @runReleased i hmatch =>
          have hused := (munmap_match_some.1 hmatch).1.1
          have hsum := sum_charged_update c.shared.mm.gMmaps i .cleared
          have hle := charged_le_sum c.shared.mm.gMmaps i
          rw [charged_of_used hused] at hsum hle
          rw [charged_cleared] at hsum
          simp only [set_record_gMmaps, set_record_gMmapBackingBytes,
            unity_arena_release_run_gMmapBackingBytes, unity_arena_release_run_gMmaps,
            uncharge_gMmaps]
          rw [uncharge_gMmapBackingBytes (by omega)]
          omega
      | @headCut i hmatch | @tailCut i hmatch =>
          rw [set_record_gMmaps, set_record_gMmapBackingBytes]
          have hsum := sum_charged_update c.shared.mm.gMmaps i
          -- the cut record is charged with the same number of bytes
          have hsame : ∀ r : MmapSlot, r.charged = (c.shared.mm.gMmaps i).charged →
              c.shared.mm.gMmapBackingBytes =
                ∑ j, (Function.update c.shared.mm.gMmaps i r j).charged := by
            intro r hr
            have := hsum r
            omega
          exact hsame _ rfl
      | @trimmed i hmatch _ _ htrims =>
          have hused := (munmap_match_some.1 hmatch).1.1
          obtain ⟨hindex, hkeep, hcount, -, -⟩ := htrims
          obtain ⟨-, hfits, hsize⟩ := hinv.record_run hused hindex
          generalize hr : c.shared.mm.gMmaps i = r at *
          have hkept : (r.withLiveHi start).keepPart.charged =
              r.arenaKeepCount * unityDynamicRegionBytes := if_pos hused
          have hsum := sum_charged_update c.shared.mm.gMmaps i (r.withLiveHi start).keepPart
          have hle := charged_le_sum c.shared.mm.gMmaps i
          rw [hr, charged_of_used hused] at hsum hle
          have hpart : (r.withLiveHi start).keepPart.backingSize =
              r.arenaKeepCount * unityDynamicRegionBytes := rfl
          -- the kept part is no larger than the whole, so the difference does not wrap
          have hdiff : wrap (r.backingSize + 2 ^ 64 - (r.withLiveHi start).keepPart.backingSize) =
              r.backingSize - r.arenaKeepCount * unityDynamicRegionBytes := by
            rw [hpart, hsize]
            unfold wrap
            simp only [unityDynamicRegionBytes]
            omega
          rw [hdiff]
          rw [hkept] at hsum
          simp only [uncharge_gMmaps, set_record_gMmaps, unity_arena_release_run_gMmaps]
          rw [uncharge_gMmapBackingBytes]
          · simp only [set_record_gMmapBackingBytes, unity_arena_release_run_gMmapBackingBytes]
            simp only [unityDynamicRegionBytes] at *
            omega
          · simp only [set_record_gMmapBackingBytes, unity_arena_release_run_gMmapBackingBytes]
            omega
  | unmappedBlock hunmap =>
      cases munmap_locked_unmapped hunmap with
      | @blockReleased i hmatch =>
          have hused := (munmap_match_some.1 hmatch).1.1
          have hsum := sum_charged_update c.shared.mm.gMmaps i .cleared
          have hle := charged_le_sum c.shared.mm.gMmaps i
          rw [charged_of_used hused] at hsum hle
          rw [charged_cleared] at hsum
          simp only [set_record_gMmaps, set_record_gMmapBackingBytes, uncharge_gMmaps]
          rw [uncharge_gMmapBackingBytes (by omega)]
          omega

/-! ## The invariant of a run -/

omit [DecidableEq T] in
/-- The thread that moves is known to be where it says it is. -/
theorem step_ok (hinv : MmapInv A c) (h : MmapStep c.shared (c.locals t) e s l) : l.Ok := by
  have hok := hinv.ok t
  have hslots : c.shared.mm.gUnityArenaSlots ≤ 64 := hinv.slots ▸ A.slots_le.trans (by decide)
  generalize hl : c.locals t = l₀ at h hok
  cases h with
  | mmapRejected | mmapAccepted | munmapRejected | munmapAccepted | noMemory | misaligned
  | prepared | tableFull | recorded | runGivenBack | blockGivenBack | discarded | unmapped
  | unmappedBlock | freed | returned => trivial
  | reserved hreserve hp =>
      intro hfile
      rcases mmap_reserve_cases hslots hreserve with ⟨-, hzero, -⟩ | ⟨_, hunity, -⟩
      · exact absurd hzero hp
      · rw [MmapPlan.not_file_backed hunity] at hfile
        cases hfile
  | notReserved hreserve hp => exact (hinv.not_reserved hreserve hp).2
  | @allocated m v =>
      split
      · exact hok
      · exact fun _ => hok
  | fallbackCounted => exact fun _ => hok
  | readFailed hfile => exact hok hfile

omit [DecidableEq T] in
/-- The calls do not touch the arena's base and size. -/
theorem step_arena (hinv : MmapInv A c) (h : MmapStep c.shared (c.locals t) e s l) :
    s.mm.gUnityArenaBase = A.base ∧ s.mm.gUnityArenaSlots = A.slots := by
  have hslots : c.shared.mm.gUnityArenaSlots ≤ 64 := hinv.slots ▸ A.slots_le.trans (by decide)
  rw [← hinv.base, ← hinv.slots]
  generalize c.locals t = l₀ at h
  cases h with
  | mmapRejected | mmapAccepted | munmapRejected | munmapAccepted | noMemory | fallbackCounted
  | misaligned | readFailed | prepared | tableFull | returned | allocated | blockGivenBack
  | discarded | freed => exact ⟨rfl, rfl⟩
  | reserved hreserve | notReserved hreserve =>
      rcases mmap_reserve_cases hslots hreserve with
        ⟨rfl, -, -⟩ | ⟨_, -, -, -, -, -, rfl, -⟩ <;> exact ⟨rfl, rfl⟩
  | runGivenBack => simp
  | recorded hinsert =>
      obtain ⟨-, rfl⟩ := mmap_insert_some hinsert
      exact ⟨rfl, rfl⟩
  | unmapped hunmap | unmappedBlock hunmap =>
      cases munmap_locked_unmapped hunmap <;> simp

/-- Every step of a thread keeps the bookkeeping invariant. -/
theorem mmap_inv_step {d : Config T Shared Pc} {label : T × Event} (hinv : MmapInv A c)
    (h : Step mmapProgram c label d) : MmapInv A d := by
  cases h with
  | @mk t x e s l hnext =>
      have hstep := mmap_next_step hnext
      obtain ⟨hbase, hslots⟩ := step_arena hinv hstep
      have hsound := hinv.sound.move (step_move hinv hstep)
      refine ⟨hbase, hslots, fun u => ?_, hsound, step_bytes hinv hstep hsound⟩
      by_cases hu : u = t
      · subst hu
        rw [Config.set_locals_self]
        exact step_ok hinv hstep
      · rw [c.set_locals_other hu]
        exact hinv.ok u

/-- Every run of the threads keeps the bookkeeping invariant. -/
theorem mmap_inv_run {d : Config T Shared Pc} {trace : List (T × Event)} (hinv : MmapInv A c)
    (h : Run (Step mmapProgram) c trace d) : MmapInv A d :=
  h.invariant hinv fun _ _ _ => mmap_inv_step

/-- The arena after `bionic_set_mmap_arena`, which is empty where it was not accepted. -/
theorem arena_of_start {base size : Nat} (hfits : base + size ≤ 2 ^ 64) :
    ∃ A : Arena, (bionicSetMmapArena .init base size).gUnityArenaBase = A.base ∧
      (bionicSetMmapArena .init base size).gUnityArenaSlots = A.slots := by
  by_cases hok : base ≠ 0 ∧ size / unityDynamicRegionBytes % 2 ^ 32 > 0 ∧
      size / unityDynamicRegionBytes % 2 ^ 32 ≤ unityArenaMaxSlots ∧
      base % unityDynamicRegionBytes = 0 ∧ size % unityDynamicRegionBytes = 0
  · refine ⟨⟨base, size / unityDynamicRegionBytes % 2 ^ 32, fun _ => Nat.pos_of_ne_zero hok.1,
      hok.2.2.1, ?_⟩, if_pos hok, if_pos hok⟩
    have hmod := Nat.mod_le (size / unityDynamicRegionBytes) (2 ^ 32)
    have hmul := Nat.div_mul_le_self size unityDynamicRegionBytes
    have hslots := Nat.mul_le_mul_right unityDynamicRegionBytes hmod
    omega
  · exact ⟨⟨0, 0, fun h => h, Nat.zero_le _, by simp⟩, if_neg hok, if_neg hok⟩

omit [DecidableEq T] in
/-- At the start the arena is unused and no record is used. -/
theorem mmap_inv_start {base size : Nat} (hfits : base + size ≤ 2 ^ 64) :
    ∃ A, MmapInv A (mmapStart T base size) := by
  obtain ⟨A, hbase, hslots⟩ := arena_of_start hfits
  have hnone : ∀ o, (ledger (mmapStart T base size)).hold o = none := by
    rintro (i | t) <;> rfl
  refine ⟨A, hbase, hslots, fun _ => trivial, ⟨?_, ?_, ?_, ?_, ?_⟩, ?_⟩
  · intro o x hx
    rw [hnone] at hx
    cases hx
  · have hbits : (ledger (mmapStart T base size)).slots = ∅ := bits_zero
    rw [hbits]
    exact Partition.empty.same fun o => by rw [hnone, slots_of_none]
  · have hheap : (ledger (mmapStart T base size)).heap = ∅ := by
      simp [ledger, mmapStart]
    rw [hheap]
    exact Partition.empty.same fun o => by rw [hnone, blocks_of_none]
  · intro b hb
    cases hb
  · intro b hb
    cases hb
  · simp [mmapStart, bionicSetMmapArena, MmapState.init, MmapSlot.zero, MmapSlot.charged]

end Asnx.Bionic
