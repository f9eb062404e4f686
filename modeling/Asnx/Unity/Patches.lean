import Asnx.Library.A64
import Asnx.Loader.Elf

/-!
# The patches of the Unity library

`unity_patches_install` of `source/unity_patches.c`, with the words of code that it expects and
those that it puts in their place, from `source/config.h`. Every place is checked before it is
changed, and where a place may have been changed already, the new words are accepted as well.
Addresses are those that the code runs at, from `load_virtbase` on.
-/

namespace Asnx.Unity

open A64 ByteMemory Loader

/-! ## Words of code -/

/-- `so_read_word` -/
def soReadWord (m : SoModule) (mem : Memory) (offset : Word) : BitVec 32 :=
  if m.loadVirtbase = 0 ∨ m.loadSize < offset + 4 then 0 else wordAt32 mem (m.loadVirtbase + offset)

/-- What `so_patch_code` meets when it maps the pages once more to write to them. -/
inductive Mapping where
  | mapped
  | noAlias
  | notMapped
  deriving DecidableEq

/-- `so_patch_code`, given words -/
def soPatchCode (m : SoModule) (answer : Mapping) (offset : Word) (data : List (BitVec 32))
    (mem : Memory) :
    Int × Memory :=
  if m.loadVirtbase = 0 ∨ data = [] ∨ m.loadSize < offset + BitVec.ofNat 64
    (4 * data.length) then (-1, mem)
  else match answer with
    | .noAlias => (-2, mem)
    | .notMapped => (-3, mem)
    | .mapped => (0, storeRow mem (m.loadVirtbase + offset) 4 (data.map BitVec.toNat))

/-! ## Places and words -/

/-- A word of code and the one that takes its place. -/
structure HeapPatch where
  off : Word
  orig : BitVec 32
  repl : BitVec 32

def offUnityCpuCountReturn : Word := 0x01886BDC
def unityCpuCountReturnOrig : BitVec 32 := 0xB9400660

def offTimeManagerUpdateEntry : Word := 0x008CF61C
def offTimeManagerUpdateBody : Word := 0x008CF640

def offChoreographerWaitSite : Word := 0x00A9F4A0
def choreographerWaitFrom : BitVec 32 := 0x17FFFFF9
def choreographerWaitTo : BitVec 32 := 0x14000001

def offFmodPartialReleasePrologue : Word := 0x01961740
def offFmodPartialReleaseNullCleanup : Word := 0x01961D30

def offUnityLowAllocCheck : Word := 0x0100BBB8
def offUnityLowAllocFail : Word := 0x0100BC04
def unityLowAllocMinBytes : Word := 0x00400000

def offDynamicHeapVmAlignment : Word := 0x010095A4
def dynamicHeapAlign256m : BitVec 32 := 0x52A20008
def dynamicHeapAlign64m : BitVec 32 := 0x52A08008
def dynamicHeapAlign4k : BitVec 32 := 0x52820008

def fmodFrom : List (BitVec 32) :=
    [0xF940C408, 0x5293B309, 0xAA0003F3, 0x910103FD, 0xF8696915, 0x2A0103F4]

def fmodTo : List (BitVec 32) :=
    [0xAA0003F3, 0x2A0103F4, 0xF940C668, 0xB4002F28, 0x5293B309, 0xF8696915]

/-- `hp`: the places where the code depends on the size of a region of the heap -/
def heapPatches : List HeapPatch :=
  [⟨0x01007878, 0x52A20009, 0x52A08009⟩,
   ⟨0x01007D44, 0x12BE000D, 0x12BF800D⟩,
   ⟨0x01007D70, 0x92648D36, 0x92669536⟩,
   ⟨0x010094F4, 0x9240DC28, 0x9240D428⟩,
   ⟨0x010094F8, 0xD35CDC33, 0xD35AD433⟩,
   ⟨0x01009500, 0xD35CFD15, 0xD35AFD15⟩,
   ⟨0x010097D4, 0xD35CFC28, 0xD35AFC28⟩,
   ⟨0x010097E4, 0x92646C28, 0x92666C28⟩,
   ⟨0x010097EC, 0xD35C9C2A, 0xD35A942A⟩,
   ⟨0x01009800, 0xD35CDC29, 0xD35AD429⟩,
   ⟨0x01009804, 0xB25C6FEB, 0xB25E77EB⟩,
   ⟨0x01009808, 0xF2A2000B, 0xF2A0800B⟩,
   ⟨0x0100984C, 0xCB0A7108, 0xCB0A6908⟩,
   ⟨0x01009860, 0xD368FC28, 0xD366FC28⟩,
   ⟨0x01009870, 0xD35C9C29, 0xD35A9429⟩,
   ⟨0x0100B2A4, 0xD368FC28, 0xD366FC28⟩,
   ⟨0x0100B2BC, 0xD35C9E89, 0xD35A9689⟩]

/-- `offs`, `expect` and `repl` -/
def lowAllocPatches : List HeapPatch :=
  [⟨offUnityLowAllocCheck, 0xB4000260, 0xF150001F⟩,
   ⟨offUnityLowAllocCheck + 4, 0x93407E88, 0x54000243⟩,
   ⟨offUnityLowAllocCheck + 0x10, 0x8B080009, 0x8B140009⟩,
   ⟨offUnityLowAllocCheck + 0x14, 0xCB0803E8, 0xCB1403E8⟩]

/-- `want` of `verify_time_prologue` -/
def timePrologue : List (BitVec 32) :=
  [0xf940b008, 0xb9416809, 0x3946a00a, 0x91000508, 0x11000529, 0xf900b008, 0xb9016809, 0x3400004a]

/-- `stub`, for the address of `time_update_hook` -/
def timeStub (hook : Word) : List (BitVec 32) :=
  [0x58000050, 0xd61f0200, hook.setWidth 32, (hook >>> 32).setWidth 32]

/-! ## Installing -/

/-- What does not change from run to run: the answer of `svcGetInfo` about the core mask, and the
address of `time_update_hook`. -/
structure Host where
  coreMask : Option Word
  timeUpdateHook : Word

/-- The memory, and the number of calls of `so_patch_code` so far. -/
structure Patching where
  mem : Memory
  calls : Nat

/-- A part of a run, which may end it with what `unity_patches_install` returns. -/
abbrev Install := ExceptT Int (StateM Patching)

/-- A check, which ends the run if it finds the condition. -/
def failIf (c : Prop) [Decidable c] (code : Int) : Install Unit := if c then throw code else return

-- what each call of `so_patch_code` meets in a run
variable (H : Host) (answers : Nat → Mapping) (m : SoModule)

def readWord (offset : Word) : Install (BitVec 32) := do
  return soReadWord m (← get).mem offset

/-- Whether the words from a place on are the given ones. -/
def wordsAre (offset : Word) : List (BitVec 32) → Install Bool
  | [] => return true
  | w :: ws => do
      let got ← readWord m offset
      let rest ← wordsAre (offset + 4) ws
      return got = w && rest

/-- A call of `so_patch_code`, whose failure ends the run. -/
def patchCode (offset : Word) (data : List (BitVec 32)) (code : Int) : Install Unit := do
  let s ← get
  let (r, mem) := soPatchCode m (answers s.calls) offset data s.mem
  set (Patching.mk mem (s.calls + 1))
  failIf (r < 0) code

def patchCodeIf (c : Prop) [Decidable c] (offset : Word) (data : List (BitVec 32)) (code : Int) :
    Install Unit :=
  if c then patchCode answers m offset data code else return

/-- The instruction that returns the number of cores, `mov w0, #count`. -/
def cpuCountWord (mask : Word) : BitVec 32 := 0x52800000 ||| (mask.cpop.setWidth 32 <<< 5)

/-- `install_cpu_count_fix`, whose failures all end the run with -7 -/
def installCpuCountFix : Install Unit :=
  let mask := H.coreMask.getD 0
  if mask = 0 then return
  else do
    let count := mask.cpop.toNat
    failIf (count = 0 ∨ 0xffff < count) (-7)
    let got ← readWord m offUnityCpuCountReturn
    failIf (got ≠ unityCpuCountReturnOrig ∧ got ≠ cpuCountWord mask) (-7)
    patchCodeIf answers m (got = unityCpuCountReturnOrig) offUnityCpuCountReturn
      [cpuCountWord mask] (-7)

/-- The part under `ENABLE_FMOD_PARTIAL_RELEASE_GUARD` -/
def installFmodGuard : Install Unit := do
  let isFrom ← wordsAre m offFmodPartialReleasePrologue fmodFrom
  let isTo ← wordsAre m offFmodPartialReleasePrologue fmodTo
  failIf (isFrom = false ∧ isTo = false) (-8)
  patchCodeIf answers m (isFrom = true) offFmodPartialReleasePrologue fmodTo (-9)

/-- The loop that checks places. -/
def verifyPatches (code : Int) : List HeapPatch → Install Unit
  | [] => return
  | p :: ps => do
      let got ← readWord m p.off
      failIf (got ≠ p.orig ∧ got ≠ p.repl) code
      verifyPatches code ps

/-- The loop that changes places. -/
def applyPatches (code : Int) : List HeapPatch → Install Unit
  | [] => return
  | p :: ps => do
      let got ← readWord m p.off
      patchCodeIf answers m (got = p.orig) p.off [p.repl] code
      applyPatches code ps

/-- The part under `ENABLE_DYNAMIC_HEAP_REGION_PATCH` -/
def installHeapRegions : Install Unit := do
  verifyPatches m (-5) heapPatches
  let vmAlign ← readWord m offDynamicHeapVmAlignment
  failIf (vmAlign ≠ dynamicHeapAlign256m ∧ vmAlign ≠ dynamicHeapAlign64m ∧
    vmAlign ≠ dynamicHeapAlign4k) (-5)
  applyPatches answers m (-6) heapPatches
  patchCodeIf answers m (vmAlign ≠ dynamicHeapAlign64m) offDynamicHeapVmAlignment
    [dynamicHeapAlign64m] (-6)

/-- The part under `ENABLE_UNITY_LOW_ALLOC_GUARD` -/
def installLowAllocGuard : Install Unit := do
  verifyPatches m (-12) lowAllocPatches
  applyPatches answers m (-13) lowAllocPatches

/-- The part under `ENABLE_CHOREOGRAPHER_WAIT_PATCH` -/
def installChoreographerWait : Install Unit := do
  let branch ← readWord m offChoreographerWaitSite
  if branch = choreographerWaitFrom then
    patchCode answers m offChoreographerWaitSite [choreographerWaitTo] (-1)
  else throw (-2)

/-- The part under `ENABLE_UNITY_TIME_FIX` -/
def installTimeHook : Install Unit := do
  -- verify_time_prologue
  let same ← wordsAre m offTimeManagerUpdateEntry timePrologue
  failIf (same = false) (-3)
  patchCode answers m offTimeManagerUpdateEntry (timeStub H.timeUpdateHook) (-4)

/-- The parts that accept their own words. -/
def installGuards : Install Unit := do
  installCpuCountFix H answers m
  installFmodGuard answers m
  installHeapRegions answers m
  installLowAllocGuard answers m

def installAll : Install Unit := do
  installGuards H answers m
  installChoreographerWait answers m
  installTimeHook H answers m

/-- `unity_patches_install`: what it returns, and the memory -/
def unityPatchesInstall (mem : Memory) : Int × Memory :=
  match (installAll H answers m).run ⟨mem, 0⟩ with
  | (.ok _, s) => (0, s.mem)
  | (.error code, s) => (code, s.mem)

end Asnx.Unity
