import Mathlib.Algebra.Group.Nat.Defs
import Asnx.Library.Blockwise
import Asnx.Textures.Blocks

/-!
# Transcoding of compressed textures

`etc2_bc_image_size` and `etc2_bc_transcode` of `source/etc2_bc.c`. An image consists of blocks of
4 by 4 pixels, also where its size is not a multiple of 4; the blocks are transcoded one after the
other.

The size never overflows for an `int` width and height (`blocks_le`), so the guards of the code
decide the same as the mathematical size (`etc2BcImageSize_eq`). What the loops do then follows
from the rules for loops over blocks.
-/

namespace Asnx.Textures

open ByteMemory Blockwise

/-! ## The code -/

/-- `ETC2_BC_RGB8` -/
def etc2BcRgb8 : BitVec 32 := 1

/-- `ETC2_BC_RGBA8` -/
def etc2BcRgba8 : BitVec 32 := 2

/-- `SIZE_MAX` -/
def sizeMax : Nat := 2 ^ 64 - 1

/-- `((size_t)n+3u)/4u` for an `int` -/
def blocksAlong (n : BitVec 32) : Nat := ((n.signExtend 64).toNat + 3) % 2 ^ 64 / 4

/-- The bytes of a block, 0 for an unknown mode. -/
def blockBytes (mode : BitVec 32) : Nat :=
  if mode = etc2BcRgb8 then 8 else if mode = etc2BcRgba8 then 16 else 0

/-- `etc2_bc_image_size` -/
def etc2BcImageSize (mode width height : BitVec 32) : Nat :=
  if width.toInt ≤ 0 ∨ height.toInt ≤ 0 then 0
  else
    let bx := blocksAlong width
    let bY := blocksAlong height
    let block := blockBytes mode
    if block = 0 ∨ bx > sizeMax / bY then 0
    else
      let n := bx * bY % 2 ^ 64
      if n > sizeMax / block then 0 else n * block % 2 ^ 64

/-- The body of the loop for `ETC2_BC_RGB8`. -/
def rgb8Step : BlockStep Pixels where
  size := 8
  run px := do
    let px ← decodeEtc2RgbBlock px
    return (px, [(0, encodeBc1Color px)])

/-- The body of the loop for `ETC2_BC_RGBA8`; the alpha comes first in a block. -/
def rgba8Step : BlockStep Pixels where
  size := 16
  run px := do
    let px ← (decodeEtc2RgbBlock px).shift 8
    let px ← decodeEtc2AlphaBlock px
    return (px, [(0, encodeBc3Alpha px), (8, encodeBc1Color px)])

/-- What a call returns, the memory behind it and its accesses. -/
structure Transcoded where
  ret : Int
  mem : Memory
  accesses : List BlockAccess

/-- `etc2_bc_transcode`; `px` is what the local array holds at the start. -/
def etc2BcTranscode (px : Pixels) (mem : Memory) (dst dstSize src srcSize : Word)
    (width height mode : BitVec 32) : Transcoded :=
  let need := etc2BcImageSize mode width height
  if dst = 0 ∨ src = 0 ∨ need = 0 ∨ dstSize.toNat < need ∨ srcSize.toNat < need then ⟨0, mem, []⟩
  else
    let blocks := blocksAlong width * blocksAlong height % 2 ^ 64
    if mode = etc2BcRgb8 then
      let r := eachBlock rgb8Step blocks mem px src dst
      ⟨1, r.1, r.2⟩
    else if mode = etc2BcRgba8 then
      let r := eachBlock rgba8Step blocks mem px src dst
      ⟨1, r.1, r.2⟩
    else ⟨0, mem, []⟩

/-! ## What a call should do -/

/-- The least number of blocks of 4 pixels that cover `n` pixels. -/
def ceilQuarter (n : Int) : Nat := (n.toNat + 3) / 4

/-- The number of blocks of an image. -/
def imageBlocks (width height : BitVec 32) : Nat :=
  ceilQuarter width.toInt * ceilQuarter height.toInt

/-- The bytes of an image. -/
def imageBytes (mode width height : BitVec 32) : Nat :=
  imageBlocks width height * blockBytes mode

/-- What a block becomes: it is decoded, and the pixels are encoded. -/
def transcodeBlock (mode : BitVec 32) (block : List UInt8) : List UInt8 :=
  let blank : Pixels := Vector.replicate 16 0
  let data (i : Nat) : UInt8 := block.getD i 0
  if mode = etc2BcRgb8 then encodeBc1Color ((decodeEtc2RgbBlock blank).value data)
  else
    let px := (decodeEtc2AlphaBlock (((decodeEtc2RgbBlock blank).shift 8).value data)).value data
    encodeBc3Alpha px ++ encodeBc1Color px

/-- An access stays within the first `need` bytes: a read within those of the source, a write within
those of the destination. -/
def Bounded (dst src : Word) (need : Nat) : BlockAccess → Prop
  | .read a n => span a n ⊆ span src need
  | .write a n => span a n ⊆ span dst need

/-- A call is right. The blocks are those of a destination that does not overlap later blocks of the
source, such as a buffer of its own. -/
structure RightTranscoding (mem : Memory) (dst dstSize src srcSize : Word)
    (width height mode : BitVec 32) (t : Transcoded) : Prop where
  size : etc2BcImageSize mode width height =
    if width.toInt ≤ 0 ∨ height.toInt ≤ 0 ∨ blockBytes mode = 0 ∨
      sizeMax < imageBytes mode width height then 0 else imageBytes mode width height
  returns : t.ret = 0 ∨ t.ret = 1
  succeeds : t.ret = 1 ↔ dst ≠ 0 ∧ src ≠ 0 ∧ 0 < etc2BcImageSize mode width height ∧
    etc2BcImageSize mode width height ≤ dstSize.toNat ∧
    etc2BcImageSize mode width height ≤ srcSize.toNat
  fails : t.ret = 0 → t.mem = mem ∧ t.accesses = []
  bounded : ∀ access ∈ t.accesses, Bounded dst src (etc2BcImageSize mode width height) access
  frame : ∀ x ∉ span dst (etc2BcImageSize mode width height), t.mem x = mem x
  blocks : t.ret = 1 → Ahead dst src (blockBytes mode) (imageBlocks width height) →
    ∀ i < imageBlocks width height,
      bytesAt t.mem (blockAt dst (blockBytes mode) i) (blockBytes mode) =
        transcodeBlock mode (bytesAt mem (blockAt src (blockBytes mode) i) (blockBytes mode))

variable {mem : Memory} {px : Pixels} {dst dstSize src srcSize : Word}
  {width height mode : BitVec 32}

/-! ## Sizes -/

/-- `ceilQuarter` is the rounded up quarter. -/
theorem ceilQuarter_le_iff {n : Int} {k : Nat} : ceilQuarter n ≤ k ↔ n ≤ 4 * k := by
  unfold ceilQuarter
  omega

/-- The blocks along a positive side. -/
theorem blocksAlong_eq (h : 0 < width.toInt) :
    blocksAlong width = ceilQuarter width.toInt ∧ 0 < ceilQuarter width.toInt ∧
      ceilQuarter width.toInt ≤ 2 ^ 29 := by
  have hlt : width.toInt < 2 ^ 31 := BitVec.toInt_lt
  have hextend : (width.signExtend 64).toNat = width.toInt.toNat := by
    have htoInt : (width.signExtend 64).toInt = width.toInt :=
      BitVec.toInt_signExtend_of_le (by decide)
    rw [← htoInt, BitVec.toInt_eq_toNat_of_msb, Int.toNat_natCast]
    rw [← Bool.not_eq_true, BitVec.msb_eq_toInt, decide_eq_true_eq, htoInt]
    omega
  rw [blocksAlong, hextend, ceilQuarter]
  omega

theorem blockBytes_cases (mode : BitVec 32) :
    mode = etc2BcRgb8 ∧ blockBytes mode = 8 ∨ mode = etc2BcRgba8 ∧ blockBytes mode = 16 ∨
      mode ≠ etc2BcRgb8 ∧ mode ≠ etc2BcRgba8 ∧ blockBytes mode = 0 := by
  by_cases hrgb : mode = etc2BcRgb8
  · exact .inl ⟨hrgb, if_pos hrgb⟩
  by_cases hrgba : mode = etc2BcRgba8
  · exact .inr (.inl ⟨hrgba, (if_neg hrgb).trans (if_pos hrgba)⟩)
  · exact .inr (.inr ⟨hrgb, hrgba, (if_neg hrgb).trans (if_neg hrgba)⟩)

/-- No image has more blocks than a `size_t` can count the bytes of. -/
theorem blocks_le (hwidth : 0 < width.toInt) (hheight : 0 < height.toInt) :
    0 < imageBlocks width height ∧ imageBlocks width height ≤ 2 ^ 58 := by
  obtain ⟨-, hpos, hle⟩ := blocksAlong_eq hwidth
  obtain ⟨-, hpos', hle'⟩ := blocksAlong_eq hheight
  exact ⟨Nat.mul_pos hpos hpos', (Nat.mul_le_mul hle hle').trans (by decide)⟩

theorem blockBytes_le (mode : BitVec 32) : blockBytes mode ≤ 16 := by
  rcases blockBytes_cases mode with ⟨-, h⟩ | ⟨-, h⟩ | ⟨-, -, h⟩ <;> rw [h] <;> decide

theorem imageBytes_lt (hwidth : 0 < width.toInt) (hheight : 0 < height.toInt) :
    imageBytes mode width height ≤ 2 ^ 62 :=
  (Nat.mul_le_mul (blocks_le hwidth hheight).2 (blockBytes_le mode)).trans (by decide)

/-- The size of an image with positive sides: the guards against overflows never fire. -/
theorem etc2BcImageSize_pos (hwidth : 0 < width.toInt) (hheight : 0 < height.toInt) :
    etc2BcImageSize mode width height = imageBytes mode width height := by
  obtain ⟨hx, hxpos, hxle⟩ := blocksAlong_eq hwidth
  obtain ⟨hy, hypos, hyle⟩ := blocksAlong_eq hheight
  obtain ⟨hpos, hle⟩ := blocks_le hwidth hheight
  have hsides : ¬ (width.toInt ≤ 0 ∨ height.toInt ≤ 0) := by omega
  rw [etc2BcImageSize, if_neg hsides]
  dsimp only
  rw [hx, hy, show ceilQuarter width.toInt * ceilQuarter height.toInt =
    imageBlocks width height from rfl,
    Nat.mod_eq_of_lt (show imageBlocks width height < 2 ^ 64 by omega)]
  have hguard : ¬ ceilQuarter width.toInt > sizeMax / ceilQuarter height.toInt := by
    rw [gt_iff_lt, Nat.not_lt, Nat.le_div_iff_mul_le hypos]
    exact hle.trans (by decide)
  rcases blockBytes_cases mode with ⟨-, h⟩ | ⟨-, h⟩ | ⟨-, -, h⟩
  · rw [h, if_neg (by simpa using hguard), if_neg (by unfold sizeMax; omega), imageBytes, h,
      Nat.mod_eq_of_lt (by omega)]
  · rw [h, if_neg (by simpa using hguard), if_neg (by unfold sizeMax; omega), imageBytes, h,
      Nat.mod_eq_of_lt (by omega)]
  · rw [h, if_pos (.inl rfl), imageBytes, h, Nat.mul_zero]

/-- `etc2_bc_image_size` is exact. -/
theorem etc2BcImageSize_eq (mode width height : BitVec 32) :
    etc2BcImageSize mode width height =
      if width.toInt ≤ 0 ∨ height.toInt ≤ 0 ∨ blockBytes mode = 0 ∨
        sizeMax < imageBytes mode width height then 0 else imageBytes mode width height := by
  by_cases hsides : width.toInt ≤ 0 ∨ height.toInt ≤ 0
  case pos =>
    rw [etc2BcImageSize, if_pos hsides, if_pos (hsides.imp_right .inl)]
  case neg =>
    obtain ⟨hwidth, hheight⟩ := not_or.1 hsides
    rw [etc2BcImageSize_pos (by omega) (by omega)]
    have hle : imageBytes mode width height ≤ 2 ^ 62 := imageBytes_lt (by omega) (by omega)
    by_cases hmode : blockBytes mode = 0
    · rw [if_pos (.inr (.inr (.inl hmode))), imageBytes, hmode, Nat.mul_zero]
    · rw [if_neg]
      rintro (h | h | h | h)
      · exact hwidth h
      · exact hheight h
      · exact hmode h
      · have hmax : sizeMax = 2 ^ 64 - 1 := rfl
        omega

/-! ## The loops -/

theorem rgb8Step_stateless : rgb8Step.Stateless where
  within := fun st => within_decodeEtc2RgbBlock.bind fun _ => Reads.within_pure _
  writes := fun st bytes => by
    simp only [rgb8Step, Reads.value_bind, Reads.value_pure, Consecutive, length_encodeBc1Color]
    decide
  forgets := fun bytes st st' => by
    simp only [rgb8Step, Reads.value_bind, Reads.value_pure]
    rw [@decodeEtc2RgbBlock_forgets bytes st st']

theorem rgba8Step_stateless : rgba8Step.Stateless where
  within := fun st => (within_decodeEtc2RgbBlock.shift (k := 8)).bind fun _ =>
    (within_decodeEtc2AlphaBlock.mono (by decide)).bind fun _ => Reads.within_pure _
  writes := fun st bytes => by
    simp only [rgba8Step, Reads.value_bind, Reads.value_pure, Consecutive, length_encodeBc1Color,
      length_encodeBc3Alpha]
    decide
  forgets := fun bytes st st' => by
    simp only [rgba8Step, Reads.value_bind, Reads.value_pure, Reads.value_shift]
    rw [@decodeEtc2RgbBlock_forgets (fun i => bytes (8 + i)) st st']

/-- What the bodies make of a block. -/
theorem rgb8Step_block (st : Pixels) (block : List UInt8) :
    rgb8Step.block st block = transcodeBlock etc2BcRgb8 block := by
  rw [block_forgets rgb8Step_stateless st (Vector.replicate 16 0), transcodeBlock, if_pos rfl,
    BlockStep.block]
  simp [rgb8Step, piecesBytes]

theorem rgba8Step_block (st : Pixels) (block : List UInt8) :
    rgba8Step.block st block = transcodeBlock etc2BcRgba8 block := by
  rw [block_forgets rgba8Step_stateless st (Vector.replicate 16 0), transcodeBlock,
    if_neg (by decide), BlockStep.block]
  simp [rgba8Step, piecesBytes]

/-- A call that transcodes. -/
def runLoop (b : BlockStep Pixels) (blocks : Nat) (mem : Memory) (px : Pixels) (src dst : Word) :
    Transcoded :=
  ⟨1, (eachBlock b blocks mem px src dst).1, (eachBlock b blocks mem px src dst).2⟩

/-- A call with two buffers that are large enough runs the loop of its mode over all blocks; any
other call returns 0. -/
theorem etc2BcTranscode_cases (px : Pixels) (mem : Memory) (dst dstSize src srcSize : Word)
    (width height mode : BitVec 32) :
    (∃ b : BlockStep Pixels, b.Stateless ∧ b.size = blockBytes mode ∧
        (∀ st block, b.block st block = transcodeBlock mode block) ∧
        dst ≠ 0 ∧ src ≠ 0 ∧ 0 < etc2BcImageSize mode width height ∧
        etc2BcImageSize mode width height ≤ dstSize.toNat ∧
        etc2BcImageSize mode width height ≤ srcSize.toNat ∧
        etc2BcTranscode px mem dst dstSize src srcSize width height mode =
          runLoop b (imageBlocks width height) mem px src dst) ∨
      ¬ (dst ≠ 0 ∧ src ≠ 0 ∧ 0 < etc2BcImageSize mode width height ∧
          etc2BcImageSize mode width height ≤ dstSize.toNat ∧
          etc2BcImageSize mode width height ≤ srcSize.toNat) ∧
        etc2BcTranscode px mem dst dstSize src srcSize width height mode = ⟨0, mem, []⟩ := by
  by_cases hguard : dst = 0 ∨ src = 0 ∨ etc2BcImageSize mode width height = 0 ∨
      dstSize.toNat < etc2BcImageSize mode width height ∨
      srcSize.toNat < etc2BcImageSize mode width height
  case pos =>
    refine .inr ⟨?_, if_pos hguard⟩
    rintro ⟨hdst, hsrc, hpos, hdstSize, hsrcSize⟩
    rcases hguard with h | h | h | h | h
    · exact hdst h
    · exact hsrc h
    · exact absurd h (Nat.ne_of_gt hpos)
    · exact absurd hdstSize (Nat.not_le.2 h)
    · exact absurd hsrcSize (Nat.not_le.2 h)
  case neg =>
    simp only [not_or, Nat.not_lt] at hguard
    obtain ⟨hdst, hsrc, hsize, hdstSize, hsrcSize⟩ := hguard
    have hsides : ¬ (width.toInt ≤ 0 ∨ height.toInt ≤ 0) := by
      intro h
      exact hsize (if_pos h)
    obtain ⟨hwidth, hheight⟩ := not_or.1 hsides
    -- the number of blocks does not wrap
    have hblocks : blocksAlong width * blocksAlong height % 2 ^ 64 = imageBlocks width height := by
      rw [(blocksAlong_eq (Int.not_le.1 hwidth)).1, (blocksAlong_eq (Int.not_le.1 hheight)).1]
      refine Nat.mod_eq_of_lt (lt_of_le_of_lt (blocks_le ?_ ?_).2 (by decide))
      · exact Int.not_le.1 hwidth
      · exact Int.not_le.1 hheight
    have hgo : etc2BcTranscode px mem dst dstSize src srcSize width height mode =
        if mode = etc2BcRgb8 then runLoop rgb8Step (imageBlocks width height) mem px src dst
        else if mode = etc2BcRgba8 then runLoop rgba8Step (imageBlocks width height) mem px src dst
        else ⟨0, mem, []⟩ := by
      rw [etc2BcTranscode, if_neg
        (by simp only [not_or, Nat.not_lt]; exact ⟨hdst, hsrc, hsize, hdstSize, hsrcSize⟩),
        hblocks]
      rfl
    left
    rcases blockBytes_cases mode with ⟨rfl, h⟩ | ⟨rfl, h⟩ | ⟨-, -, h⟩
    · exact ⟨rgb8Step, rgb8Step_stateless, h.symm, rgb8Step_block, hdst, hsrc,
        Nat.pos_of_ne_zero hsize, hdstSize, hsrcSize, hgo.trans (if_pos rfl)⟩
    · exact ⟨rgba8Step, rgba8Step_stateless, h.symm, rgba8Step_block, hdst, hsrc,
        Nat.pos_of_ne_zero hsize, hdstSize, hsrcSize,
        hgo.trans ((if_neg (by decide)).trans (if_pos rfl))⟩
    · -- an unknown mode has size 0, and the guard has refused that
      refine absurd ?_ hsize
      rw [etc2BcImageSize_pos (Int.not_le.1 hwidth) (Int.not_le.1 hheight), imageBytes, h,
        Nat.mul_zero]

/-- A positive size is the size of all blocks. -/
theorem size_of_pos (h : 0 < etc2BcImageSize mode width height) :
    etc2BcImageSize mode width height = imageBlocks width height * blockBytes mode ∧
      imageBlocks width height * blockBytes mode ≤ 2 ^ 64 := by
  have hsides : ¬ (width.toInt ≤ 0 ∨ height.toInt ≤ 0) :=
    fun hsides => absurd (if_pos hsides) (Nat.ne_of_gt h)
  obtain ⟨hwidth, hheight⟩ := not_or.1 hsides
  refine ⟨etc2BcImageSize_pos (Int.not_le.1 hwidth) (Int.not_le.1 hheight), ?_⟩
  exact (imageBytes_lt (Int.not_le.1 hwidth) (Int.not_le.1 hheight)).trans (by decide)

/-- `etc2_bc_transcode` is blockwise and bounded. -/
theorem etc2_bc_transcode_right (px : Pixels) (mem : Memory) (dst dstSize src srcSize : Word)
    (width height mode : BitVec 32) :
    RightTranscoding mem dst dstSize src srcSize width height mode
      (etc2BcTranscode px mem dst dstSize src srcSize width height mode) := by
  have hone : (1 : Int) ≠ 0 := by decide
  rcases etc2BcTranscode_cases px mem dst dstSize src srcSize width height mode with
    ⟨b, hb, hsize, hrun, hdst, hsrc, hpos, hdstSize, hsrcSize, heq⟩ | ⟨hnot, heq⟩
  · obtain ⟨hbytes, hle⟩ := size_of_pos hpos
    rw [← hsize] at hbytes hle
    rw [heq]
    refine ⟨etc2BcImageSize_eq .., .inr rfl, iff_of_true rfl ⟨hdst, hsrc, hpos, hdstSize, hsrcSize⟩,
      fun h => absurd h hone, fun access haccess => ?_, fun x hx => ?_, fun _ hahead i hi => ?_⟩
    · rw [hbytes]
      rcases eachBlock_accesses hb access haccess with ⟨i, hi, k, hk, rfl⟩ | ⟨i, hi, k, l, hkl, rfl⟩
      · exact (span_part_subset hk).trans (span_blockAt_subset hi)
      · exact (span_part_subset hkl).trans (span_blockAt_subset hi)
    · rw [hbytes] at hx
      exact eachBlock_of_notMem hb hle hx
    · rw [← hsize] at hahead ⊢
      rw [← hrun px]
      exact bytesAt_eachBlock hb hle hahead px hi
  · rw [heq]
    refine ⟨etc2BcImageSize_eq .., .inl rfl, iff_of_false hone.symm hnot, fun _ => ⟨rfl, rfl⟩,
      fun access haccess => absurd haccess List.not_mem_nil, fun _ _ => rfl,
      fun h => absurd h hone.symm⟩

/-- A destination that does not overlap the source is ahead of it. -/
theorem ahead_of_separate (h : Disjoint (span dst (etc2BcImageSize mode width height))
      (span src (etc2BcImageSize mode width height)))
    (hpos : 0 < etc2BcImageSize mode width height) :
    Ahead dst src (blockBytes mode) (imageBlocks width height) := by
  rw [(size_of_pos hpos).1] at h
  exact ahead_of_disjoint h

end Asnx.Textures
