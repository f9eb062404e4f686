import Mathlib.Data.List.Range
import Mathlib.Data.Int.Notation
import Asnx.Library.Bits
import Mathlib.Algebra.Group.Nat.Defs

/-!
# The Unity arena of the mmap layer

The records and counters behind `bionic_mmap` and `bionic_munmap` (`source/bionic.c`), and the
bitmap allocator of the Unity arena. The arena consists of at most 33 slots of 64 MiB; a run
of slots is taken by setting its bits in `gUnityArenaUsed` and released by clearing them.

Addresses and sizes are natural numbers, reduced modulo `2 ^ 64` where the source computes on
`uintptr_t` or `size_t`. A null pointer is the address 0.
-/

namespace Asnx.Bionic

open Bits

/-- `MMAP_SLOTS` -/
abbrev mmapSlots : Nat := 256
/-- `UNITY_DYNAMIC_RESERVE_LOGICAL` -/
def unityDynamicReserveLogical : Nat := 0x07fff000
/-- `UNITY_DYNAMIC_REGION_BYTES` -/
def unityDynamicRegionBytes : Nat := 0x04000000
/-- `UNITY_DYNAMIC_DIRECT_LOGICAL` -/
def unityDynamicDirectLogical : Nat := unityDynamicRegionBytes
/-- `UNITY_ALIGNED256_RESERVE_LOGICAL` -/
def unityAligned256ReserveLogical : Nat := 0x13fff000
/-- `UNITY_ALIGNED256_LIVE_SLOTS` -/
def unityAligned256LiveSlots : Nat := 4
/-- `UNITY_ARENA_MAX_SLOTS` -/
def unityArenaMaxSlots : Nat := 33

/-- Arithmetic on `uintptr_t` and `size_t`. -/
def wrap (n : Nat) : Nat := n % 2 ^ 64

theorem wrap_of_lt {n : Nat} (h : n < 2 ^ 64) : wrap n = n := Nat.mod_eq_of_lt h

/-- A record of the table `g_mmaps`. -/
structure MmapSlot where
  base : Nat
  logicalSize : Nat
  backingSize : Nat
  liveLo : Nat
  liveHi : Nat
  used : Bool
  unityAlignedReserve : Bool
  arenaIndex : Int
  arenaCount : Nat
  arenaKeepCount : Nat
  deriving DecidableEq, Repr

/-- A record of zero bytes. -/
def MmapSlot.zero : MmapSlot := ⟨0, 0, 0, 0, 0, false, false, 0, 0, 0⟩

/-- The static variables of the mmap layer, all guarded by `g_mmap_lock`. -/
structure MmapState where
  gMmaps : Fin mmapSlots → MmapSlot
  gMmapBackingBytes : Nat
  gUnityArenaBase : Nat
  gUnityArenaSlots : Nat
  gUnityArenaUsed : BitVec 64
  gUnityArenaPeakSlots : Nat
  gUnityFallbackCount : Nat

/-- The static initial state. -/
def MmapState.init : MmapState := ⟨fun _ => .zero, 0, 0, 0, 0, 0, 0⟩

/-- `bionic_set_mmap_arena`; the slot count is truncated to `unsigned`. -/
def bionicSetMmapArena (s : MmapState) (base size : Nat) : MmapState :=
  let slots := size / unityDynamicRegionBytes % 2 ^ 32
  let ok := base ≠ 0 ∧ slots > 0 ∧ slots ≤ unityArenaMaxSlots ∧
    base % unityDynamicRegionBytes = 0 ∧ size % unityDynamicRegionBytes = 0
  { s with
    gUnityArenaBase := if ok then base else 0
    gUnityArenaSlots := if ok then slots else 0
    gUnityArenaUsed := 0
    gUnityArenaPeakSlots := 0
    gUnityFallbackCount := 0 }

/-- `page_up_size`; zero stands for an overflow. -/
def pageUpSize (n : Nat) : Nat :=
  if n > 2 ^ 64 - 1 - 0xfff then 0 else (n + 0xfff) / 0x1000 * 0x1000

/-- `unity_arena_mask` -/
def unityArenaMask (first count : Nat) : BitVec 64 :=
  if count = 0 ∨ count > 64 ∨ first ≥ 64 ∨ first + count > 64 then 0
  else (if count = 64 then BitVec.allOnes 64 else 1#64 <<< count - 1#64) <<< first

/-- The run of slots that starts at `first` is free. -/
def MmapState.runFree (s : MmapState) (count first : Nat) : Bool :=
  let mask := unityArenaMask first count
  mask ≠ 0 && s.gUnityArenaUsed &&& mask = 0

/-- The first indices in the order in which `unity_arena_take_run` tries them. -/
def MmapState.candidates (s : MmapState) (count : Nat) (fromHigh : Bool) : List Nat :=
  let indices := List.range (s.gUnityArenaSlots - count + 1)
  if fromHigh then indices.reverse else indices

/-- Set the bits of `mask` in the bitmap and keep the peak up to date. -/
def MmapState.occupy (s : MmapState) (mask : BitVec 64) : MmapState :=
  let used := s.gUnityArenaUsed ||| mask
  let slots := used.cpop.toNat
  { s with
    gUnityArenaUsed := used
    gUnityArenaPeakSlots := if slots > s.gUnityArenaPeakSlots then slots else s.gUnityArenaPeakSlots }

/-- `unity_arena_take_run`: the new state, the index of the run and its address, or `none`
where the source returns -1 and stores a null pointer. -/
def unityArenaTakeRun (s : MmapState) (count : Nat) (fromHigh : Bool) :
    Option (MmapState × Nat × Nat) :=
  if count = 0 ∨ count > unityArenaMaxSlots ∨ s.gUnityArenaBase = 0 ∨
    s.gUnityArenaSlots < count then
    none
  else
    match (s.candidates count fromHigh).find? (s.runFree count) with
    | none => none
    | some i =>
        some (s.occupy (unityArenaMask i count), i,
          wrap (s.gUnityArenaBase + i * unityDynamicRegionBytes))

/-- `unity_arena_release_run` -/
def unityArenaReleaseRun (s : MmapState) (first count : Nat) : MmapState :=
  if count = 0 ∨ first ≥ unityArenaMaxSlots ∨ first + count > unityArenaMaxSlots then s
  else { s with gUnityArenaUsed := s.gUnityArenaUsed &&& ~~~(unityArenaMask first count) }

/-! ## What the bitmap operations do -/

/-- The mask of a run inside the bitmap has its bits at the positions of the run. -/
theorem bits_unity_arena_mask {first count : Nat} (hpos : 0 < count) (h : first + count ≤ 64) :
    bits (unityArenaMask first count) = Set.Ico first (first + count) := by
  have hguard : ¬ (count = 0 ∨ count > 64 ∨ first ≥ 64 ∨ first + count > 64) := by omega
  rw [unityArenaMask, if_neg hguard]
  split
  · rename_i hcount
    have hall : BitVec.allOnes 64 = 1#64 <<< count - 1#64 := by
      subst hcount
      rfl
    rw [hall, bits_run h]
  · exact bits_run h

/-- A free run has all its bits clear. -/
theorem MmapState.runFree_iff (s : MmapState) {count first : Nat} (hpos : 0 < count)
    (h : first + count ≤ 64) :
    s.runFree count first = true ↔
      Disjoint (Set.Ico first (first + count)) (bits s.gUnityArenaUsed) := by
  have hmask := bits_unity_arena_mask hpos h
  have hne : unityArenaMask first count ≠ 0 := by
    intro hzero
    have : first ∈ bits (unityArenaMask first count) := by
      rw [hmask]
      exact ⟨Nat.le_refl _, by omega⟩
    simp [hzero] at this
  simp only [runFree, ne_eq, hne, not_false_eq_true, decide_true, Bool.true_and,
    decide_eq_true_eq, ← hmask]
  exact and_eq_zero_iff.trans disjoint_comm

@[simp] theorem MmapState.occupy_gMmaps (s : MmapState) (mask : BitVec 64) :
    (s.occupy mask).gMmaps = s.gMmaps := rfl

@[simp] theorem MmapState.occupy_gMmapBackingBytes (s : MmapState) (mask : BitVec 64) :
    (s.occupy mask).gMmapBackingBytes = s.gMmapBackingBytes := rfl

@[simp] theorem MmapState.occupy_gUnityArenaBase (s : MmapState) (mask : BitVec 64) :
    (s.occupy mask).gUnityArenaBase = s.gUnityArenaBase := rfl

@[simp] theorem MmapState.occupy_gUnityArenaSlots (s : MmapState) (mask : BitVec 64) :
    (s.occupy mask).gUnityArenaSlots = s.gUnityArenaSlots := rfl

@[simp] theorem MmapState.occupy_gUnityArenaUsed (s : MmapState) (mask : BitVec 64) :
    (s.occupy mask).gUnityArenaUsed = s.gUnityArenaUsed ||| mask := rfl

/-- Every candidate leaves room for the run. -/
theorem MmapState.candidate_bound {s : MmapState} {count i : Nat} {fromHigh : Bool}
    (hcount : count ≤ s.gUnityArenaSlots) (hi : i ∈ s.candidates count fromHigh) :
    i + count ≤ s.gUnityArenaSlots := by
  have : i < s.gUnityArenaSlots - count + 1 := by
    unfold candidates at hi
    cases fromHigh <;> simpa using hi
  omega

/-- What a successful `unity_arena_take_run` does: the run lies in the arena, was free, and its
bits are set. -/
theorem unity_arena_take_run_some {s s' : MmapState} {count i p : Nat} {fromHigh : Bool}
    (hslots : s.gUnityArenaSlots ≤ 64)
    (h : unityArenaTakeRun s count fromHigh = some (s', i, p)) :
    0 < count ∧ i + count ≤ s.gUnityArenaSlots ∧
      Disjoint (Set.Ico i (i + count)) (bits s.gUnityArenaUsed) ∧
      s' = s.occupy (unityArenaMask i count) ∧
      bits s'.gUnityArenaUsed = bits s.gUnityArenaUsed ∪ Set.Ico i (i + count) ∧
      p = wrap (s.gUnityArenaBase + i * unityDynamicRegionBytes) := by
  unfold unityArenaTakeRun at h
  split at h
  · cases h
  · rename_i hguard
    push Not at hguard
    split at h
    · cases h
    · rename_i hfind
      cases h
      have hpos : 0 < count := Nat.pos_of_ne_zero hguard.1
      have hbound := MmapState.candidate_bound hguard.2.2.2 (List.mem_of_find?_eq_some hfind)
      have hfree := (s.runFree_iff hpos (by omega)).1 (List.find?_some hfind)
      refine ⟨hpos, hbound, hfree, rfl, ?_, rfl⟩
      rw [MmapState.occupy_gUnityArenaUsed, bits_or, bits_unity_arena_mask hpos (by omega)]

@[simp] theorem unity_arena_release_run_gMmaps (s : MmapState) (first count : Nat) :
    (unityArenaReleaseRun s first count).gMmaps = s.gMmaps := by
  unfold unityArenaReleaseRun
  split <;> rfl

@[simp] theorem unity_arena_release_run_gMmapBackingBytes (s : MmapState) (first count : Nat) :
    (unityArenaReleaseRun s first count).gMmapBackingBytes = s.gMmapBackingBytes := by
  unfold unityArenaReleaseRun
  split <;> rfl

@[simp] theorem unity_arena_release_run_gUnityArenaBase (s : MmapState) (first count : Nat) :
    (unityArenaReleaseRun s first count).gUnityArenaBase = s.gUnityArenaBase := by
  unfold unityArenaReleaseRun
  split <;> rfl

@[simp] theorem unity_arena_release_run_gUnityArenaSlots (s : MmapState) (first count : Nat) :
    (unityArenaReleaseRun s first count).gUnityArenaSlots = s.gUnityArenaSlots := by
  unfold unityArenaReleaseRun
  split <;> rfl

/-- Releasing a run inside the arena clears exactly its bits. -/
theorem bits_unity_arena_release_run (s : MmapState) {first count : Nat} (hpos : 0 < count)
    (h : first + count ≤ unityArenaMaxSlots) :
    bits (unityArenaReleaseRun s first count).gUnityArenaUsed =
      bits s.gUnityArenaUsed \ Set.Ico first (first + count) := by
  have hmax : first + count ≤ 33 := h
  have hguard : ¬ (count = 0 ∨ first ≥ unityArenaMaxSlots ∨
      first + count > unityArenaMaxSlots) := by
    unfold unityArenaMaxSlots
    omega
  rw [unityArenaReleaseRun, if_neg hguard, bits_and_not, bits_unity_arena_mask hpos (by omega)]

end Asnx.Bionic
