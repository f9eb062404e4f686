import Mathlib.Algebra.BigOperators.Fin
import Mathlib.Logic.Function.Basic
import Asnx.Bionic.Arena
import Asnx.Library.Threads

/-!
# `bionic_mmap` and `bionic_munmap`

The two calls of `source/bionic.c` as programs of interleaved threads. Every section under
`g_mmap_lock` is one atomic step; `memalign`, `free` and the file read are steps between them.
The contents of the mapped memory are not modelled: they do not influence the bookkeeping.

The allocator is part of the environment. It may fail, and otherwise returns any block that is
apart from every live block and from the arena. Only the blocks that `bionic_mmap` obtained are
recorded, so the other users of the allocator merely restrict its choice further.
-/

namespace Asnx.Bionic

/-! ## The lock-held sections -/

/-- The `errno` values of the two calls; `io` is one left by a failed file read. -/
inductive Errno where
  | EINVAL
  | ENOMEM
  | io (code : Int)
  deriving DecidableEq, Repr

/-- The arguments `bionic_mmap` looks at; it ignores the address hint and the protection. -/
structure MmapArgs where
  n : Nat
  flags : BitVec 32
  fd : Int
  off : Int
  deriving DecidableEq, Repr

/-- The local variables of `bionic_mmap` once its arguments have been accepted. -/
structure MmapPlan where
  n : Nat
  logicalSize : Nat
  fileBacked : Bool
  logicalSize_pos : 0 < logicalSize
  deriving DecidableEq, Repr

/-- The argument checks at the head of `bionic_mmap`. -/
def mmapPlan (a : MmapArgs) : Except Errno MmapPlan :=
  if a.n = 0 then .error .EINVAL
  else if h : pageUpSize a.n = 0 then .error .ENOMEM
  else
    let fileBacked := decide (0 ≤ a.fd) && a.flags &&& 0x20 = 0
    if fileBacked && a.off < 0 then .error .EINVAL
    else .ok ⟨a.n, pageUpSize a.n, fileBacked, Nat.pos_of_ne_zero h⟩

namespace MmapPlan

/-- `unity_dynamic_window` -/
def unityDynamicWindow (m : MmapPlan) : Bool :=
  !m.fileBacked && m.logicalSize = unityDynamicReserveLogical

/-- `unity_dynamic_direct` -/
def unityDynamicDirect (m : MmapPlan) : Bool :=
  !m.fileBacked && m.logicalSize = unityDynamicDirectLogical

/-- `unity_aligned256` -/
def unityAligned256 (m : MmapPlan) : Bool :=
  !m.fileBacked && m.logicalSize = unityAligned256ReserveLogical

/-- `unity_reserve` -/
def unityReserve (m : MmapPlan) : Bool :=
  m.unityDynamicWindow || m.unityDynamicDirect || m.unityAligned256

/-- `arena_keep_count` -/
def arenaKeepCount (m : MmapPlan) : Nat :=
  if m.unityDynamicWindow || m.unityDynamicDirect then 1
  else if m.unityAligned256 then unityAligned256LiveSlots else 0

/-- `arena_count` -/
def arenaCount (m : MmapPlan) : Nat :=
  if m.unityDynamicWindow || m.unityDynamicDirect then 1
  else if m.arenaKeepCount ≠ 0 then m.arenaKeepCount + 1 else 0

/-- The size asked of `memalign` when the arena gives nothing. -/
def memalignBytes (m : MmapPlan) : Nat :=
  if m.unityDynamicWindow || m.unityDynamicDirect then unityDynamicRegionBytes else m.logicalSize

end MmapPlan

/-- The local variables `p`, `backing_size` and `arena_index`. -/
structure MmapVars where
  p : Nat
  backingSize : Nat
  arenaIndex : Int
  deriving DecidableEq, Repr

/-- The first lock-held section: take a run of the arena for a Unity reservation. -/
def mmapReserve (s : MmapState) (m : MmapPlan) : MmapState × MmapVars :=
  if m.unityReserve then
    match unityArenaTakeRun s m.arenaCount false with
    | some (s', i, p) => (s', ⟨p, m.arenaCount * unityDynamicRegionBytes, i⟩)
    | none => (s, ⟨0, m.logicalSize, -1⟩)
  else (s, ⟨0, m.logicalSize, -1⟩)

def MmapState.setRecord (s : MmapState) (i : Fin mmapSlots) (r : MmapSlot) : MmapState :=
  { s with gMmaps := Function.update s.gMmaps i r }

/-- The record that the last section of `bionic_mmap` fills in. -/
def mmapRecord (m : MmapPlan) (v : MmapVars) : MmapSlot where
  base := v.p
  logicalSize := m.logicalSize
  backingSize := v.backingSize
  liveLo := v.p
  liveHi := wrap (v.p + m.logicalSize)
  used := true
  unityAlignedReserve := m.unityDynamicWindow || m.unityAligned256
  arenaIndex := v.arenaIndex
  arenaCount := m.arenaCount
  arenaKeepCount := m.arenaKeepCount

/-- The last lock-held section: fill in the first unused record, if there is one. -/
def mmapInsert (s : MmapState) (m : MmapPlan) (v : MmapVars) :
    Option (MmapState × Fin mmapSlots) :=
  match Fin.find? fun i => !(s.gMmaps i).used with
  | none => none
  | some i =>
      some ({ s.setRecord i (mmapRecord m v) with
        gMmapBackingBytes := wrap (s.gMmapBackingBytes + v.backingSize) }, i)

/-- A block of the allocator. -/
structure Block where
  base : Nat
  size : Nat
  deriving DecidableEq, Repr

/-- The argument checks of `bionic_munmap`: the range `start`, `end`. -/
def munmapRange (p n : Nat) : Option (Nat × Nat) :=
  if p = 0 ∨ n = 0 then none
  else if pageUpSize n = 0 then none
  else if wrap (p + pageUpSize n) < p then none
  else some (p, wrap (p + pageUpSize n))

/-- The record at which the scan of `bionic_munmap` stops: the first used one whose live interval
contains `start`. -/
def munmapMatch (s : MmapState) (start : Nat) : Option (Fin mmapSlots) :=
  Fin.find? fun i =>
    (s.gMmaps i).used && !(decide (start < (s.gMmaps i).liveLo) || decide
      (start ≥ (s.gMmaps i).liveHi))

/-- Subtract from `g_mmap_backing_bytes`, stopping at zero. -/
def MmapState.uncharge (s : MmapState) (n : Nat) : MmapState :=
  { s with gMmapBackingBytes := if s.gMmapBackingBytes ≥ n then s.gMmapBackingBytes - n else 0 }

/-- A record just cleared by `bionic_munmap`. -/
def MmapSlot.cleared : MmapSlot := { MmapSlot.zero with arenaIndex := -1 }

/-- The branch of `bionic_munmap` for a range that covers the whole live interval. The second
component is the block to be freed after the section. -/
def munmapRelease (s : MmapState) (i : Fin mmapSlots) : MmapState × Option Block :=
  let r := s.gMmaps i
  let s := s.uncharge r.backingSize
  if r.arenaIndex ≥ 0 then
    let count := if r.arenaCount ≠ 0 then r.arenaCount else 1
    ((unityArenaReleaseRun s r.arenaIndex.toNat count).setRecord i .cleared, none)
  else (s.setRecord i .cleared, some ⟨r.base, r.backingSize⟩)

/-- The record with a new start of its live interval. -/
def MmapSlot.withLiveLo (r : MmapSlot) (lo : Nat) : MmapSlot := { r with liveLo := lo }

/-- The record with a new end of its live interval. -/
def MmapSlot.withLiveHi (r : MmapSlot) (hi : Nat) : MmapSlot := { r with liveHi := hi }

/-- The record reduced to the part of its run that is kept. -/
def MmapSlot.keepPart (r : MmapSlot) : MmapSlot :=
  { r with
    arenaCount := r.arenaKeepCount
    backingSize := r.arenaKeepCount * unityDynamicRegionBytes }

/-- The unmapped tail is the whole part of the reservation that is not kept. -/
def MmapSlot.trims (r : MmapSlot) (start «end» limit : Nat) : Prop :=
  r.arenaIndex ≥ 0 ∧ r.arenaKeepCount > 0 ∧ r.arenaCount > r.arenaKeepCount ∧
    start = wrap (r.base + r.arenaKeepCount * unityDynamicRegionBytes) ∧ «end» ≥ limit

instance (r : MmapSlot) (start «end» limit : Nat) : Decidable (r.trims start «end» limit) :=
  inferInstanceAs (Decidable (_ ∧ _))

/-- The branch of `bionic_munmap` for a range that reaches the end of the live interval. -/
def munmapTail (s : MmapState) (i : Fin mmapSlots) (start «end» limit : Nat) : MmapState :=
  let r := s.gMmaps i
  let r' := r.withLiveHi (if start > r.liveLo then start else r.liveLo)
  if r.trims start «end» limit then
    let s := unityArenaReleaseRun s (r.arenaIndex.toNat + r.arenaKeepCount)
      (r.arenaCount - r.arenaKeepCount)
    (s.setRecord i r'.keepPart).uncharge
      (wrap (r.backingSize + 2 ^ 64 - r'.keepPart.backingSize))
  else s.setRecord i r'

/-- The lock-held section of `bionic_munmap`. -/
def munmapLocked (s : MmapState) (start «end» : Nat) : MmapState × Option Block :=
  match munmapMatch s start with
  | none => (s, none)
  | some i =>
      let r := s.gMmaps i
      let limit := wrap (r.base + r.logicalSize)
      let «end» := if «end» > limit then limit else «end»
      if start ≤ r.liveLo ∧ «end» ≥ r.liveHi then munmapRelease s i
      else if start ≤ r.liveLo ∧ «end» > r.liveLo then
        (s.setRecord i (r.withLiveLo (if «end» < r.liveHi then «end» else r.liveHi)), none)
      else if «end» ≥ r.liveHi ∧ start < r.liveHi then (munmapTail s i start «end» limit, none)
      -- a hole in the middle of the live interval is not recorded
      else (s, none)

/-! ## The threads -/

/-- What the threads share: the static variables and the live blocks obtained from `memalign`. -/
structure Shared where
  mm : MmapState
  heap : List Block

/-- Two blocks do not overlap. -/
def Block.Apart (b c : Block) : Prop :=
  b.base + b.size ≤ c.base ∨ c.base + c.size ≤ b.base

instance (b c : Block) : Decidable (b.Apart c) := inferInstanceAs (Decidable (_ ∨ _))

/-- The arena as a block. -/
def MmapState.arena (s : MmapState) : Block :=
  ⟨s.gUnityArenaBase, s.gUnityArenaSlots * unityDynamicRegionBytes⟩

/-- `memalign` may return the block: it lies in the address space, apart from every live block
and from the arena. Its alignment is not relied upon. -/
def Shared.Fresh (s : Shared) (b : Block) : Prop :=
  0 < b.base ∧ b.base + b.size ≤ 2 ^ 64 ∧ b.Apart s.mm.arena ∧ ∀ c ∈ s.heap, b.Apart c

instance (s : Shared) (b : Block) : Decidable (s.Fresh b) :=
  inferInstanceAs (Decidable (_ ∧ _))

def Shared.free (s : Shared) (p : Nat) : Shared :=
  { s with heap := s.heap.filter fun b => b.base ≠ p }

/-- What a call returns. -/
inductive Ret where
  | mmapFailed (e : Errno)
  | mmapped (p : Nat)
  | munmapFailed
  | munmapped
  deriving DecidableEq, Repr

/-- Where a thread stands. Every constructor but `idle` is a point inside a call, named for what
comes next: `reserve`, `countFallback`, `record` and `unmap` are lock-held sections, `allocate`
is the call of `memalign`, `prepare` the alignment check and the file read, `giveBack` the
rollback of a reservation, and `discard` and `freeBlock` are calls of `free`. -/
inductive Pc where
  | idle
  | reserve (m : MmapPlan)
  | allocate (m : MmapPlan) (v : MmapVars)
  | countFallback (m : MmapPlan) (v : MmapVars)
  | prepare (m : MmapPlan) (v : MmapVars)
  | record (m : MmapPlan) (v : MmapVars)
  | giveBack (m : MmapPlan) (v : MmapVars) (e : Errno)
  | discard (m : MmapPlan) (v : MmapVars) (e : Errno)
  | unmap (start «end» : Nat)
  | freeBlock (b : Block)
  | finished (r : Ret)
  deriving DecidableEq, Repr

/-- What the environment decides: which call a thread makes, what `memalign` returns and whether
the file read fails. -/
inductive Choice where
  | callMmap (a : MmapArgs)
  | callMunmap (p n : Nat)
  | memalign (p : Option Nat)
  | fileRead (error : Option Int)
  | go
  deriving DecidableEq, Repr

/-- What a step shows. -/
inductive Event where
  | callMmap (a : MmapArgs)
  | callMunmap (p n : Nat)
  | internal
  | recorded (i : Fin mmapSlots) (p : Nat)
  | unmapped (start «end» : Nat)
  | returned (r : Ret)
  deriving DecidableEq, Repr

def Event.begins : Event → Prop
  | .callMmap _ | .callMunmap _ _ => True
  | _ => False

instance : DecidablePred Event.begins := fun e => by
  cases e <;> unfold Event.begins <;> infer_instance

/-- One atomic step of a thread. -/
def mmapNext : Choice → Shared → Pc → Option (Event × Shared × Pc)
  | .callMmap a, s, .idle =>
      match mmapPlan a with
      | .error e => some (.callMmap a, s, .finished (.mmapFailed e))
      | .ok m => some (.callMmap a, s, .reserve m)
  | .callMunmap p n, s, .idle =>
      match munmapRange p n with
      | none => some (.callMunmap p n, s, .finished .munmapFailed)
      | some (start, «end») => some (.callMunmap p n, s, .unmap start «end»)
  | .go, s, .reserve m =>
      let (mm, v) := mmapReserve s.mm m
      some (.internal, { s with mm }, if v.p = 0 then .allocate m v else .prepare m v)
  | .memalign none, s, .allocate _ _ => some (.internal, s, .finished (.mmapFailed .ENOMEM))
  | .memalign (some p), s, .allocate m v =>
      let v := { v with p, backingSize := m.memalignBytes }
      if s.Fresh ⟨p, m.memalignBytes⟩ then
        some (.internal, { s with heap := ⟨p, m.memalignBytes⟩ :: s.heap },
          if m.unityReserve then .countFallback m v else .prepare m v)
      else none
  | .go, s, .countFallback m v =>
      let count := (s.mm.gUnityFallbackCount + 1) % 2 ^ 32
      some (.internal, { s with mm := { s.mm with gUnityFallbackCount := count } }, .prepare m v)
  | .fileRead error, s, .prepare m v =>
      if m.unityReserve ∧ v.p % unityDynamicRegionBytes ≠ 0 then
        some (.internal, s, .giveBack m v .ENOMEM)
      else if m.fileBacked then
        match error with
        | some code => some (.internal, s, .discard m v (.io code))
        | none => some (.internal, s, .record m v)
      else some (.internal, s, .record m v)
  | .go, s, .record m v =>
      match mmapInsert s.mm m v with
      | none => some (.internal, s, .giveBack m v .ENOMEM)
      | some (mm, i) => some (.recorded i v.p, { s with mm }, .finished (.mmapped v.p))
  | .go, s, .giveBack m v e =>
      if v.arenaIndex ≥ 0 then
        some (.internal, { s with mm := unityArenaReleaseRun s.mm v.arenaIndex.toNat m.arenaCount },
          .finished (.mmapFailed e))
      else some (.internal, s.free v.p, .finished (.mmapFailed e))
  | .go, s, .discard _ v e => some (.internal, s.free v.p, .finished (.mmapFailed e))
  | .go, s, .unmap start «end» =>
      let (mm, toFree) := munmapLocked s.mm start «end»
      match toFree with
      | some b => some (.unmapped start «end», { s with mm }, .freeBlock b)
      | none => some (.unmapped start «end», { s with mm }, .finished .munmapped)
  | .go, s, .freeBlock b => some (.internal, s.free b.base, .finished .munmapped)
  | .go, s, .finished r => some (.returned r, s, .idle)
  | _, _, _ => none

/-- Threads that call `bionic_mmap` and `bionic_munmap`. -/
def mmapProgram : Threads.Program Shared Pc Choice Event := ⟨mmapNext⟩

/-- The state after `bionic_set_mmap_arena` was called on the static initial state, with every
thread outside the two calls. -/
def mmapStart (T : Type*) (base size : Nat) : Threads.Config T Shared Pc :=
  ⟨⟨bionicSetMmapArena .init base size, []⟩, fun _ => .idle⟩

/-! ## What the lock-held sections do -/

@[simp] theorem set_record_gMmaps (s : MmapState) (i : Fin mmapSlots) (r : MmapSlot) :
    (s.setRecord i r).gMmaps = Function.update s.gMmaps i r := rfl

@[simp] theorem set_record_gUnityArenaUsed (s : MmapState) (i : Fin mmapSlots) (r : MmapSlot) :
    (s.setRecord i r).gUnityArenaUsed = s.gUnityArenaUsed := rfl

@[simp] theorem set_record_gMmapBackingBytes (s : MmapState) (i : Fin mmapSlots) (r : MmapSlot) :
    (s.setRecord i r).gMmapBackingBytes = s.gMmapBackingBytes := rfl

@[simp] theorem set_record_gUnityArenaBase (s : MmapState) (i : Fin mmapSlots) (r : MmapSlot) :
    (s.setRecord i r).gUnityArenaBase = s.gUnityArenaBase := rfl

@[simp] theorem set_record_gUnityArenaSlots (s : MmapState) (i : Fin mmapSlots) (r : MmapSlot) :
    (s.setRecord i r).gUnityArenaSlots = s.gUnityArenaSlots := rfl

@[simp] theorem uncharge_gUnityArenaBase (s : MmapState) (n : Nat) :
    (s.uncharge n).gUnityArenaBase = s.gUnityArenaBase := rfl

@[simp] theorem uncharge_gUnityArenaSlots (s : MmapState) (n : Nat) :
    (s.uncharge n).gUnityArenaSlots = s.gUnityArenaSlots := rfl

@[simp] theorem uncharge_gMmaps (s : MmapState) (n : Nat) : (s.uncharge n).gMmaps = s.gMmaps := rfl

@[simp] theorem uncharge_gUnityArenaUsed (s : MmapState) (n : Nat) :
    (s.uncharge n).gUnityArenaUsed = s.gUnityArenaUsed := rfl

/-- A charge that is on the counter is taken off exactly. -/
theorem uncharge_gMmapBackingBytes {s : MmapState} {n : Nat} (h : n ≤ s.gMmapBackingBytes) :
    (s.uncharge n).gMmapBackingBytes = s.gMmapBackingBytes - n := if_pos h

/-- The scan of `bionic_munmap` stops at the first used record that has `start` live. -/
theorem munmap_match_some {s : MmapState} {start : Nat} {i : Fin mmapSlots} :
    munmapMatch s start = some i ↔
      ((s.gMmaps i).used = true ∧ (s.gMmaps i).liveLo ≤ start ∧ start < (s.gMmaps i).liveHi) ∧
        ∀ j < i, (s.gMmaps j).used = true →
          ¬ ((s.gMmaps j).liveLo ≤ start ∧ start < (s.gMmaps j).liveHi) := by
  rw [munmapMatch, Fin.find?_eq_some_iff]
  simp

theorem mmap_insert_some {s s' : MmapState} {m : MmapPlan} {v : MmapVars} {i : Fin mmapSlots}
    (h : mmapInsert s m v = some (s', i)) :
    (s.gMmaps i).used = false ∧
      s' = { s.setRecord i (mmapRecord m v) with
        gMmapBackingBytes := wrap (s.gMmapBackingBytes + v.backingSize) } := by
  unfold mmapInsert at h
  split at h
  · cases h
  · rename_i hfind
    cases h
    have := (Fin.find?_eq_some_iff.1 hfind).1
    exact ⟨by simpa using this, rfl⟩

end Asnx.Bionic
