import Mathlib.Data.Set.Lattice
import Mathlib.Order.CompletePartialOrder
import Mathlib.Order.Interval.Set.Basic
import Mathlib.Algebra.Group.Nat.Defs
import Asnx.Bionic.Arena

/-!
# The division of the heap at start

`__libnx_initheap` (`source/runtime.c`) obtains the heap of the process and cuts it into three
consecutive regions: the heap of newlib, the arena of the Android modules and the Unity arena,
which is handed to `bionic_set_mmap_arena` later. The Unity arena is tried with 33 slots first and
loses one slot after the other until the rest fits below it.

A division is described without machine arithmetic by `Layout`. The code finds the division with
the largest Unity arena, and aborts if there is none (`divideHeap_geometry`), for the heap bases to
which `MIN_NEWLIB_HEAP_BYTES` can be added without an overflow and no others (`heap_geometry_iff`).
Addresses of a process end far below.
-/

namespace Asnx.Runtime

open Asnx.Bionic

/-- `HOST_PROCESS_HEADROOM_BYTES` -/
def hostProcessHeadroomBytes : Nat := 0
/-- `SO_ARENA_BYTES` -/
def soArenaBytes : Nat := 96 * 1024 * 1024
/-- `UNITY_MMAP_ARENA_BYTES` -/
def unityMmapArenaBytes : Nat := 2112 * 1024 * 1024
/-- `UNITY_MMAP_SLOT_BYTES` -/
def unityMmapSlotBytes : Nat := 64 * 1024 * 1024
/-- `MIN_NEWLIB_HEAP_BYTES` -/
def minNewlibHeapBytes : Nat := 768 * 1024 * 1024

/-- Subtraction on `uintptr_t` and `size_t`. -/
def minus (a b : Nat) : Nat := wrap (a + 2 ^ 64 - b)

/-! ## The code -/

/-- What the loader and the kernel answer: the heap override of the environment with its address
and size, the memory of the process in total and in use, and the base that `svcSetHeapSize` gives
for a size, if it succeeds. -/
structure HeapEnv where
  override : Option (Nat × Nat)
  total : Nat
  used : Nat
  svcSetHeapSize : Nat → Option Nat

/-- The size that is asked for where there is no override. -/
def requestedSize (total used : Nat) : Nat :=
  let reserve := 0x400000 + hostProcessHeadroomBytes
  let size :=
    if total > wrap (used + reserve) then minus (minus total used) reserve / 0x200000 * 0x200000
    else 0
  if size < 0x20000000 then 0x20000000 else size

/-- The first half of `__libnx_initheap`: base and size of the heap. The headroom is zero, so
`runtime_release_override_headroom` returns before it changes anything. A failing
`svcSetHeapSize` aborts. -/
def heapRegion (e : HeapEnv) : Option (Nat × Nat) :=
  match e.override with
  | some (addr, size) => some (addr, size)
  | none =>
      let size := requestedSize e.total e.used
      (e.svcSetHeapSize size).map fun addr => (addr, size)

/-- The test of the loop: the heap ends above the arenas, and below them newlib has its minimum. -/
abbrev FitsAt (heapLo mmapHi mmapBytes : Nat) : Prop :=
  mmapHi ≥ wrap (wrap (heapLo + mmapBytes) + soArenaBytes) ∧
    minus (minus mmapHi mmapBytes) soArenaBytes ≥ wrap (heapLo + minNewlibHeapBytes)

/-- The loop over `mmap_bytes`. -/
def shrink (heapLo mmapHi mmapBytes : Nat) : Nat :=
  if mmapBytes ≥ unityMmapSlotBytes then
    if FitsAt heapLo mmapHi mmapBytes then mmapBytes
    else shrink heapLo mmapHi (mmapBytes - unityMmapSlotBytes)
  else mmapBytes
termination_by mmapBytes
decreasing_by
  simp only [unityMmapSlotBytes] at *
  omega

/-- The variables that `__libnx_initheap` sets. -/
structure RuntimeHeap where
  fakeHeapStart : Nat
  fakeHeapEnd : Nat
  gNewlibHeapSize : Nat
  gSoArena : Nat
  gSoArenaSize : Nat
  gUnityMmapArena : Nat
  gUnityMmapArenaSize : Nat
  gHeapTotal : Nat
  deriving DecidableEq, Repr

/-- The second half of `__libnx_initheap`; `none` where it aborts for lack of memory. -/
def divideHeap (heapLo size : Nat) : Option RuntimeHeap :=
  let heapHi := wrap (heapLo + size)
  let mmapHi := heapHi / unityMmapSlotBytes * unityMmapSlotBytes
  let mmapBytes := shrink heapLo mmapHi unityMmapArenaBytes
  if mmapBytes < unityMmapSlotBytes then none
  else
    let mmapLo := minus mmapHi mmapBytes
    let soLo := minus mmapLo soArenaBytes
    some
      { fakeHeapStart := heapLo
        fakeHeapEnd := soLo
        gNewlibHeapSize := minus soLo heapLo
        gSoArena := soLo
        gSoArenaSize := soArenaBytes
        gUnityMmapArena := mmapLo
        gUnityMmapArenaSize := mmapBytes
        gHeapTotal := size }

/-- `__libnx_initheap` -/
def libnxInitheap (e : HeapEnv) : Option RuntimeHeap :=
  (heapRegion e).bind fun region => divideHeap region.1 region.2

/-! ## What the division should be -/

/-- The last slot boundary of a heap that ends at `hi`. -/
abbrev lastBoundary (hi : Nat) : Nat := hi / unityMmapSlotBytes * unityMmapSlotBytes

/-- A division of the heap from `lo` to `hi`: the module arena starts at `soLo`, and the Unity
arena has `mmapBytes` bytes from `mmapLo` on, in whole slots and below the last slot boundary of
the heap. -/
structure Layout (lo hi soLo mmapLo mmapBytes : Nat) : Prop where
  newlib : lo + minNewlibHeapBytes ≤ soLo
  modules : soLo + soArenaBytes = mmapLo
  aligned : unityMmapSlotBytes ∣ mmapLo
  slots : unityMmapSlotBytes ∣ mmapBytes
  least : unityMmapSlotBytes ≤ mmapBytes
  most : mmapBytes ≤ unityMmapArenaBytes
  below : mmapLo + mmapBytes ≤ lastBoundary hi

/-- The heap of newlib. -/
def RuntimeHeap.newlibRegion (h : RuntimeHeap) : Set Nat := Set.Ico h.fakeHeapStart h.fakeHeapEnd

/-- The arena of the modules. -/
def RuntimeHeap.soRegion (h : RuntimeHeap) : Set Nat :=
  Set.Ico h.gSoArena (h.gSoArena + h.gSoArenaSize)

/-- The Unity arena. -/
def RuntimeHeap.unityRegion (h : RuntimeHeap) : Set Nat :=
  Set.Ico h.gUnityMmapArena (h.gUnityMmapArena + h.gUnityMmapArenaSize)

/-- The variables describe the division of the heap from `lo` to `hi` with the largest Unity arena:
its regions follow each other from `lo` on, and `bionic_set_mmap_arena` takes all of the Unity
arena. -/
structure Divides (lo hi : Nat) (h : RuntimeHeap) : Prop where
  layout : Layout lo hi h.gSoArena h.gUnityMmapArena h.gUnityMmapArenaSize
  start : h.fakeHeapStart = lo
  newlibEnd : h.fakeHeapEnd = h.gSoArena
  newlibSize : lo + h.gNewlibHeapSize = h.gSoArena
  soSize : h.gSoArenaSize = soArenaBytes
  soEnd : h.gSoArena + h.gSoArenaSize = h.gUnityMmapArena
  total : lo + h.gHeapTotal = hi
  disjoint : [h.newlibRegion, h.soRegion, h.unityRegion].Pairwise Disjoint
  inside : h.newlibRegion ∪ h.soRegion ∪ h.unityRegion ⊆ Set.Ico lo hi
  largest : ∀ soLo mmapLo mmapBytes, Layout lo hi soLo mmapLo mmapBytes →
    mmapBytes ≤ h.gUnityMmapArenaSize
  accepted : ∀ s,
    (bionicSetMmapArena s h.gUnityMmapArena h.gUnityMmapArenaSize).gUnityArenaBase =
        h.gUnityMmapArena ∧
      (bionicSetMmapArena s h.gUnityMmapArena h.gUnityMmapArenaSize).gUnityArenaSlots *
        unityDynamicRegionBytes = h.gUnityMmapArenaSize

/-- The outcome for a heap of `size` bytes from `lo` on is right: an abort exactly if no division
exists, otherwise the largest one. -/
structure Geometry (lo size : Nat) (outcome : Option RuntimeHeap) : Prop where
  aborts : outcome = none ↔
    ¬ ∃ soLo mmapLo mmapBytes, Layout lo (lo + size) soLo mmapLo mmapBytes
  divides : ∀ h, outcome = some h → Divides lo (lo + size) h

/-! ## The loop -/

variable {lo hi size soLo mmapLo mmapBytes n m : Nat}

theorem slot_pos : 0 < unityMmapSlotBytes := by decide

/-- The loop keeps a number of whole slots, no more than it started with. -/
theorem shrink_slots (h : unityMmapSlotBytes ∣ n) :
    unityMmapSlotBytes ∣ shrink lo hi n ∧ shrink lo hi n ≤ n := by
  fun_induction shrink lo hi n with
  | case1 n hslot hfits => exact ⟨h, le_rfl⟩
  | case2 n hslot hfits ih =>
      obtain ⟨hdvd, hle⟩ := ih (Nat.dvd_sub h (Nat.dvd_refl _))
      exact ⟨hdvd, hle.trans (Nat.sub_le _ _)⟩
  | case3 n hslot => exact ⟨h, le_rfl⟩

/-- Where the loop ends with at least one slot, the arena fits. -/
theorem shrink_fits (h : unityMmapSlotBytes ≤ shrink lo hi n) : FitsAt lo hi (shrink lo hi n) := by
  fun_induction shrink lo hi n with
  | case1 n hslot hfits => exact hfits
  | case2 n hslot hfits ih => exact ih h
  | case3 n hslot => exact absurd h hslot

/-- Every whole number of slots that the loop passes over does not fit. -/
theorem shrink_largest (hn : unityMmapSlotBytes ∣ n) (hm : unityMmapSlotBytes ∣ m) (hle : m ≤ n)
    (hfits : FitsAt lo hi m) : m ≤ shrink lo hi n := by
  fun_induction shrink lo hi n with
  | case1 n hslot hfits => exact hle
  | case2 n hslot hnot ih =>
      have hne : m ≠ n := by
        rintro rfl
        exact hnot hfits
      have hstep : m + unityMmapSlotBytes ≤ n := by
        obtain ⟨a, rfl⟩ := hn
        obtain ⟨b, rfl⟩ := hm
        have hlt : b < a := Nat.lt_of_mul_lt_mul_left (lt_of_le_of_ne hle hne)
        exact Nat.mul_le_mul_left _ hlt
      exact ih (Nat.dvd_sub hn (Nat.dvd_refl _)) (Nat.le_sub_of_add_le hstep)
  | case3 n hslot => exact hle

/-! ## The test of the loop without machine arithmetic -/

/-- As long as the minimum of newlib can be added to the base, the test of the loop decides whether
the three regions fit below the last boundary. -/
theorem fitsAt_iff (hsum : lo + size < 2 ^ 64) (hmin : lo + minNewlibHeapBytes < 2 ^ 64)
    (hmost : n ≤ unityMmapArenaBytes) :
    FitsAt lo (lastBoundary (lo + size)) n ↔
      lo + minNewlibHeapBytes + soArenaBytes + n ≤ lastBoundary (lo + size) := by
  have hbelow : lastBoundary (lo + size) ≤ lo + size := Nat.div_mul_le_self _ _
  have habove : lo + size < lastBoundary (lo + size) + unityMmapSlotBytes :=
    Nat.lt_div_mul_add slot_pos
  simp only [FitsAt, minus, wrap]
  generalize lastBoundary (lo + size) = last at *
  simp only [unityMmapSlotBytes, unityMmapArenaBytes, soArenaBytes, minNewlibHeapBytes] at *
  omega

/-- Where the minimum of newlib cannot be added, the test passes for the whole Unity arena. -/
theorem fitsAt_of_overflow (hsum : lo + size < 2 ^ 64) (hmin : 2 ^ 64 ≤ lo + minNewlibHeapBytes) :
    FitsAt lo (lastBoundary (lo + size)) unityMmapArenaBytes := by
  have hbelow : lastBoundary (lo + size) ≤ lo + size := Nat.div_mul_le_self _ _
  have habove : lo + size < lastBoundary (lo + size) + unityMmapSlotBytes :=
    Nat.lt_div_mul_add slot_pos
  simp only [FitsAt, minus, wrap]
  generalize lastBoundary (lo + size) = last at *
  simp only [unityMmapSlotBytes, unityMmapArenaBytes, soArenaBytes, minNewlibHeapBytes] at *
  omega

/-! ## Divisions -/

/-- The sum of the three regions bounds the Unity arena of a division. -/
theorem Layout.le (h : Layout lo hi soLo mmapLo mmapBytes) :
    lo + minNewlibHeapBytes + soArenaBytes + mmapBytes ≤ lastBoundary hi := by
  have hmodules := h.modules
  have hnewlib := h.newlib
  have hbelow := h.below
  omega

/-- The division that ends at the last boundary. -/
theorem layout_of_le (hslots : unityMmapSlotBytes ∣ n) (hleast : unityMmapSlotBytes ≤ n)
    (hmost : n ≤ unityMmapArenaBytes)
    (hle : lo + minNewlibHeapBytes + soArenaBytes + n ≤ lastBoundary hi) :
    Layout lo hi (lastBoundary hi - n - soArenaBytes) (lastBoundary hi - n) n where
  newlib := by omega
  modules := by omega
  aligned := Nat.dvd_sub (Nat.dvd_mul_left _ _) hslots
  slots := hslots
  least := hleast
  most := hmost
  below := (Nat.sub_add_cancel (by omega)).le

/-- A heap with room for the minimum of newlib: the loop ends with the largest Unity arena of a
division, if there is a division at all. -/
theorem shrink_layout (hsum : lo + size < 2 ^ 64) (hmin : lo + minNewlibHeapBytes < 2 ^ 64)
    (h : Layout lo (lo + size) soLo mmapLo mmapBytes) :
    mmapBytes ≤ shrink lo (lastBoundary (lo + size)) unityMmapArenaBytes :=
  shrink_largest (by decide) h.slots h.most ((fitsAt_iff hsum hmin h.most).2 h.le)

/-- Where the loop ends with a slot, the code computes the division at the last boundary. -/
theorem divideHeap_some (hsum : lo + size < 2 ^ 64) (hmin : lo + minNewlibHeapBytes < 2 ^ 64)
    (hn : shrink lo (lastBoundary (lo + size)) unityMmapArenaBytes = n)
    (hleast : unityMmapSlotBytes ≤ n) :
    Layout lo (lo + size) (lastBoundary (lo + size) - n - soArenaBytes)
        (lastBoundary (lo + size) - n) n ∧
      divideHeap lo size = some
        { fakeHeapStart := lo
          fakeHeapEnd := lastBoundary (lo + size) - n - soArenaBytes
          gNewlibHeapSize := lastBoundary (lo + size) - n - soArenaBytes - lo
          gSoArena := lastBoundary (lo + size) - n - soArenaBytes
          gSoArenaSize := soArenaBytes
          gUnityMmapArena := lastBoundary (lo + size) - n
          gUnityMmapArenaSize := n
          gHeapTotal := size } := by
  have hwhole : unityMmapSlotBytes ∣ unityMmapArenaBytes := by decide
  obtain ⟨hslots, hmost⟩ : unityMmapSlotBytes ∣ n ∧ n ≤ unityMmapArenaBytes := by
    rw [← hn]
    exact shrink_slots hwhole
  have hfits : FitsAt lo (lastBoundary (lo + size)) n := by
    rw [← hn] at hleast ⊢
    exact shrink_fits hleast
  have hle := (fitsAt_iff hsum hmin hmost).1 hfits
  have hlast : lastBoundary (lo + size) < 2 ^ 64 := lt_of_le_of_lt (Nat.div_mul_le_self _ _) hsum
  refine ⟨layout_of_le hslots hleast hmost hle, ?_⟩
  have hminus : ∀ {a b : Nat}, b ≤ a → a < 2 ^ 64 → minus a b = a - b := by
    intro a b hb ha
    simp only [minus, wrap]
    omega
  have hmmap : minus (lastBoundary (lo + size)) n = lastBoundary (lo + size) - n :=
    hminus (by omega) hlast
  have hso : minus (lastBoundary (lo + size) - n) soArenaBytes =
      lastBoundary (lo + size) - n - soArenaBytes := hminus (by omega) (by omega)
  have hnewlib : minus (lastBoundary (lo + size) - n - soArenaBytes) lo =
      lastBoundary (lo + size) - n - soArenaBytes - lo := hminus (by omega) (by omega)
  simp only [divideHeap, wrap_of_lt hsum]
  rw [hn, if_neg (Nat.not_lt.2 hleast), hmmap, hso, hnewlib]

/-- Where the loop ends without a slot, the code aborts. -/
theorem divideHeap_none (hsum : lo + size < 2 ^ 64)
    (h : shrink lo (lastBoundary (lo + size)) unityMmapArenaBytes < unityMmapSlotBytes) :
    divideHeap lo size = none := by
  simp only [divideHeap, wrap_of_lt hsum]
  rw [if_pos h]

/-- `bionic_set_mmap_arena` takes all of an arena of a division. -/
theorem Layout.accepted (h : Layout lo hi soLo mmapLo mmapBytes) (s : MmapState) :
    (bionicSetMmapArena s mmapLo mmapBytes).gUnityArenaBase = mmapLo ∧
      (bionicSetMmapArena s mmapLo mmapBytes).gUnityArenaSlots * unityDynamicRegionBytes =
        mmapBytes := by
  obtain ⟨hnewlib, hmodules, haligned, ⟨k, hk⟩, hleast, hmost, -⟩ := h
  obtain ⟨j, hj⟩ := haligned
  have hok : mmapLo ≠ 0 ∧ mmapBytes / unityDynamicRegionBytes % 2 ^ 32 > 0 ∧
      mmapBytes / unityDynamicRegionBytes % 2 ^ 32 ≤ unityArenaMaxSlots ∧
      mmapLo % unityDynamicRegionBytes = 0 ∧ mmapBytes % unityDynamicRegionBytes = 0 ∧
      mmapBytes / unityDynamicRegionBytes % 2 ^ 32 * unityDynamicRegionBytes = mmapBytes := by
    simp only [unityMmapSlotBytes, unityMmapArenaBytes, soArenaBytes, minNewlibHeapBytes,
      unityDynamicRegionBytes, unityArenaMaxSlots] at *
    omega
  obtain ⟨hbase, hpos, hmax, hbaseSlot, hsizeSlot, hslots⟩ := hok
  simp only [bionicSetMmapArena]
  rw [if_pos ⟨hbase, hpos, hmax, hbaseSlot, hsizeSlot⟩,
    if_pos ⟨hbase, hpos, hmax, hbaseSlot, hsizeSlot⟩]
  exact ⟨rfl, hslots⟩

/-- A division with the largest Unity arena, stored in the variables of the runtime. -/
theorem Layout.divides (h : Layout lo (lo + size) soLo mmapLo mmapBytes)
    (hlargest : ∀ soLo' mmapLo' mmapBytes', Layout lo (lo + size) soLo' mmapLo' mmapBytes' →
      mmapBytes' ≤ mmapBytes) :
    Divides lo (lo + size)
      { fakeHeapStart := lo
        fakeHeapEnd := soLo
        gNewlibHeapSize := soLo - lo
        gSoArena := soLo
        gSoArenaSize := soArenaBytes
        gUnityMmapArena := mmapLo
        gUnityMmapArenaSize := mmapBytes
        gHeapTotal := size } where
  layout := h
  start := rfl
  newlibEnd := rfl
  newlibSize := Nat.add_sub_cancel' (by have := h.newlib; omega)
  soSize := rfl
  soEnd := h.modules
  total := rfl
  disjoint := by
    have hmodules := h.modules
    simp only [List.pairwise_cons, List.mem_cons, List.not_mem_nil, or_false, forall_eq_or_imp,
      forall_eq, RuntimeHeap.newlibRegion, RuntimeHeap.soRegion, RuntimeHeap.unityRegion]
    refine ⟨⟨?_, ?_⟩, ?_, fun _ => False.elim, .nil⟩ <;>
      refine Set.disjoint_left.2 fun a ha hb => ?_ <;>
      rw [Set.mem_Ico] at ha hb <;> omega
  inside := by
    have hnewlib := h.newlib
    have hmodules := h.modules
    have hbelow : mmapLo + mmapBytes ≤ lo + size := h.below.trans (Nat.div_mul_le_self _ _)
    rintro a ((ha | ha) | ha)
    all_goals
      simp only [RuntimeHeap.newlibRegion, RuntimeHeap.soRegion, RuntimeHeap.unityRegion,
        Set.mem_Ico] at ha
      rw [Set.mem_Ico]
      omega
  largest := hlargest
  accepted := h.accepted

/-! ## The outcome -/

/-- The outcome is right for every heap base to which the minimum of newlib can be added. -/
theorem geometry_of_room (hsum : lo + size < 2 ^ 64) (hmin : lo + minNewlibHeapBytes < 2 ^ 64) :
    Geometry lo size (divideHeap lo size) := by
  by_cases hleast : unityMmapSlotBytes ≤ shrink lo (lastBoundary (lo + size)) unityMmapArenaBytes
  case pos =>
    obtain ⟨hlayout, hsome⟩ := divideHeap_some hsum hmin rfl hleast
    refine ⟨iff_of_false (by simp [hsome]) fun h => h ⟨_, _, _, hlayout⟩, ?_⟩
    rw [hsome]
    rintro _ ⟨⟩
    exact hlayout.divides fun _ _ _ h => shrink_layout hsum hmin h
  case neg =>
    have hnone := divideHeap_none hsum (Nat.lt_of_not_le hleast)
    refine ⟨iff_of_true hnone ?_, by simp [hnone]⟩
    rintro ⟨soLo, mmapLo, mmapBytes, h⟩
    exact hleast (h.least.trans (shrink_layout hsum hmin h))

/-- Where the minimum of newlib cannot be added to the base, the code does not abort although there
is no division. -/
theorem not_geometry (hsum : lo + size < 2 ^ 64) (hmin : 2 ^ 64 ≤ lo + minNewlibHeapBytes) :
    ¬ Geometry lo size (divideHeap lo size) := by
  have hshrink : shrink lo (lastBoundary (lo + size)) unityMmapArenaBytes =
      unityMmapArenaBytes := by
    rw [shrink, if_pos (by decide), if_pos (fitsAt_of_overflow hsum hmin)]
  have hsome : divideHeap lo size ≠ none := by
    simp only [divideHeap, wrap_of_lt hsum]
    rw [hshrink, if_neg (by decide)]
    exact Option.some_ne_none _
  intro h
  refine hsome (h.aborts.2 ?_)
  rintro ⟨soLo, mmapLo, mmapBytes, hlayout⟩
  have hle : lo + minNewlibHeapBytes + soArenaBytes + mmapBytes ≤ lo + size :=
    hlayout.le.trans (Nat.div_mul_le_self _ _)
  omega

/-- What the environment answers matters through the heap region only. -/
theorem libnxInitheap_eq {e : HeapEnv} (h : heapRegion e = some (lo, size)) :
    libnxInitheap e = divideHeap lo size := by
  rw [libnxInitheap, h, Option.bind_some]

/-- `__libnx_initheap` divides the heap correctly exactly if `MIN_NEWLIB_HEAP_BYTES` can be added to
the base of the heap without an overflow. -/
theorem heap_geometry_iff {e : HeapEnv} (h : heapRegion e = some (lo, size))
    (hsum : lo + size < 2 ^ 64) :
    Geometry lo size (libnxInitheap e) ↔ lo + minNewlibHeapBytes < 2 ^ 64 := by
  rw [libnxInitheap_eq h]
  refine ⟨fun hgeometry => ?_, geometry_of_room hsum⟩
  by_contra hmin
  exact not_geometry hsum (Nat.le_of_not_lt hmin) hgeometry

/-- `__libnx_initheap` divides every heap whose base leaves the address space room for the minimum
of newlib. -/
theorem divideHeap_geometry {e : HeapEnv} (h : heapRegion e = some (lo, size))
    (hsum : lo + size < 2 ^ 64) (hmin : lo + minNewlibHeapBytes < 2 ^ 64) :
    Geometry lo size (libnxInitheap e) :=
  (heap_geometry_iff h hsum).2 hmin

/-- A heap of 3 GiB from 32 GiB on, given by an override. -/
def overrideEnv : HeapEnv := ⟨some (0x800000000, 0xc0000000), 0, 0, fun _ => none⟩

theorem divideHeap_geometry_override :
    Geometry 0x800000000 0xc0000000 (libnxInitheap overrideEnv) :=
  divideHeap_geometry (e := overrideEnv) rfl (by decide) (by decide)

end Asnx.Runtime
