import Mathlib.Data.Int.Notation
import Mathlib.Data.List.Basic
import Mathlib.Algebra.Group.Nat.Defs
import Asnx.Library.Blockwise

/-!
# Blocks of compressed textures

`source/etc2_bc.c` as far as it works on one block: an ETC2 block of 8 bytes, or of 16 with alpha,
is decoded to 16 pixels, and the pixels are encoded as a BC1 or BC3 block of the same size.

A decoder gets at its block by reading it, byte by byte (`dataAt`), and reads no byte behind it
(`within_decodeEtc2RgbBlock`). A byte in an expression of C is a natural number, as it is promoted
to `int` there; `u8` is the cast back. The pixels are a local array of the caller that is not
cleared between two blocks, so a decoder takes the array it finds. It overwrites all of it
(`decodeEtc2RgbBlock_forgets`).
-/

namespace Asnx.Textures

open Blockwise

/-! ## Tables -/

def kWriteOrder : List Nat := [0, 4, 8, 12, 1, 5, 9, 13, 2, 6, 10, 14, 3, 7, 11, 15]

def kWriteOrderRev : List Nat := [15, 11, 7, 3, 14, 10, 6, 2, 13, 9, 5, 1, 12, 8, 4, 0]

def kEtc1Modifier : List (List Nat) :=
  [[2, 8], [5, 17], [9, 29], [13, 42], [18, 60], [24, 80], [33, 106], [47, 183]]

def kEtc1Subblock : List (List Nat) :=
  [[0, 0, 0, 0, 0, 0, 0, 0, 1, 1, 1, 1, 1, 1, 1, 1],
    [0, 0, 1, 1, 0, 0, 1, 1, 0, 0, 1, 1, 0, 0, 1, 1]]

def kEtc2Distance : List Nat := [3, 6, 11, 16, 23, 32, 41, 64]

def kEtc2AlphaMod : List (List Int) :=
  [[-3, -6, -9, -15, 2, 5, 8, 14], [-3, -7, -10, -13, 2, 6, 9, 12],
    [-2, -5, -8, -13, 1, 4, 7, 12], [-2, -4, -6, -13, 1, 3, 5, 12],
    [-3, -6, -8, -12, 2, 5, 7, 11], [-3, -7, -9, -11, 2, 6, 8, 10],
    [-4, -7, -8, -11, 3, 6, 7, 10], [-3, -5, -8, -11, 2, 4, 7, 10],
    [-2, -6, -8, -10, 1, 5, 7, 9], [-2, -5, -8, -10, 1, 4, 7, 9],
    [-2, -4, -8, -10, 1, 3, 7, 9], [-2, -5, -7, -10, 1, 4, 6, 9],
    [-3, -4, -7, -10, 2, 3, 6, 9], [-1, -2, -3, -10, 0, 1, 2, 9],
    [-4, -6, -8, -9, 3, 5, 7, 8], [-3, -5, -7, -9, 2, 4, 6, 8]]

/-! ## Colours and pixels -/

/-- The cast to `uint8_t`. -/
def u8 (n : Nat) : UInt8 := UInt8.ofNat n

/-- `clamp_u8` -/
def clampU8 (n : Int) : UInt8 := if n < 0 then 0 else if n > 255 then 255 else u8 n.toNat

/-- Three bytes of a colour, as in a row of the array `c`. -/
structure Color where
  r : UInt8
  g : UInt8
  b : UInt8
  deriving DecidableEq, Repr

/-- `pack_bgra` -/
def packBgra (r g b a : UInt8) : UInt32 :=
  b.toUInt32 ||| g.toUInt32 <<< 8 ||| r.toUInt32 <<< 16 ||| a.toUInt32 <<< 24

/-- `apply_color` -/
def applyColor (c : Color) (m : Int) : UInt32 :=
  packBgra (clampU8 (c.r.toNat + m)) (clampU8 (c.g.toNat + m)) (clampU8 (c.b.toNat + m)) 255

/-- `raw_color` -/
def rawColor (c : Color) : UInt32 := packBgra c.r c.g c.b 255

/-- The array of 16 pixels. -/
abbrev Pixels := Vector UInt32 16

/-- `out[order[i]]=...` in a loop over `i`; the new pixel may depend on the old one. -/
def writeAll (order : List Nat) (pixel : Nat → UInt32 → UInt32) (out : Pixels) : Pixels :=
  (List.range 16).foldl (fun out i =>
    out.setIfInBounds (order.getD i 0) (pixel i (out.toList.getD (order.getD i 0) 0))) out

/-! ## The decoder of colours -/

/-- `data[i]`, promoted to `int` -/
def dataAt (i : Nat) : Reads Nat := do return (← Reads.one i).toNat

/-- `data[6]<<8|data[7]` -/
def lowBits : Reads Nat := do return (← dataAt 6) <<< 8 ||| (← dataAt 7)

/-- `data[4]<<8|data[5]` -/
def highBits : Reads Nat := do return (← dataAt 4) <<< 8 ||| (← dataAt 5)

/-- The difference of a component, `((x<<3)&0x18)-((x<<3)&0x20)`. -/
def difference (x : Nat) : Int := ((x <<< 3 &&& 0x18 : Nat) : Int) - (x <<< 3 &&& 0x20 : Nat)

/-- A component and its difference leave the range of a byte. -/
def overflows (x : Nat) : Bool :=
  (x &&& 0xf8 : Nat) + difference x < 0 || (x &&& 0xf8 : Nat) + difference x > 255

/-- The loop `out[kWriteOrder[i]]=set[(k&2)|(j&1)]` with `k` shifted left before. -/
def paintSet (j k : Nat) (set : List UInt32) (out : Pixels) : Pixels :=
  writeAll kWriteOrder (fun i _ => set.getD (((k <<< 1) >>> i &&& 2) ||| (j >>> i &&& 1)) 0) out

/-- The branch for a red component that overflows. -/
def decodeT (j k : Nat) (out : Pixels) : Reads Pixels := do
  let d0 ← dataAt 0
  let d1 ← dataAt 1
  let d2 ← dataAt 2
  let d3 ← dataAt 3
  let c0 : Color :=
    ⟨u8 ((d0 <<< 3 &&& 0xc0) ||| (d0 <<< 4 &&& 0x30) ||| (d0 >>> 1 &&& 0x0c) ||| (d0 &&& 3)),
      u8 ((d1 &&& 0xf0) ||| d1 >>> 4), u8 ((d1 &&& 0x0f) ||| d1 <<< 4)⟩
  let c1 : Color := ⟨u8 ((d2 &&& 0xf0) ||| d2 >>> 4), u8 ((d2 &&& 0x0f) ||| d2 <<< 4),
    u8 ((d3 &&& 0xf0) ||| d3 >>> 4)⟩
  let d : Int := kEtc2Distance.getD ((d3 >>> 1 &&& 6) ||| (d3 &&& 1)) 0
  return paintSet j k [rawColor c0, applyColor c1 d, rawColor c1, applyColor c1 (-d)] out

/-- `c|=c>>n` -/
def orRight (c : UInt8) (n : Nat) : UInt8 := u8 (c.toNat ||| c.toNat >>> n)

/-- `c|=c<<n` -/
def orLeft (c : UInt8) (n : Nat) : UInt8 := u8 (c.toNat ||| c.toNat <<< n)

/-- The branch for a green component that overflows. -/
def decodeH (j k : Nat) (out : Pixels) : Reads Pixels := do
  let d0 ← dataAt 0
  let d1 ← dataAt 1
  let d2 ← dataAt 2
  let d3 ← dataAt 3
  let c0 : Color := ⟨u8 ((d0 <<< 1 &&& 0xf0) ||| (d0 >>> 3 &&& 0x0f)),
    orRight (u8 ((d0 <<< 5 &&& 0xe0) ||| (d1 &&& 0x10))) 4,
    orLeft (u8 ((d1 &&& 8) ||| (d1 <<< 1 &&& 6) ||| d2 >>> 7)) 4⟩
  let c1 : Color := ⟨u8 ((d2 <<< 1 &&& 0xf0) ||| (d2 >>> 3 &&& 0x0f)),
    orRight (u8 ((d2 <<< 5 &&& 0xe0) ||| (d3 >>> 3 &&& 0x10))) 4,
    u8 ((d3 <<< 1 &&& 0xf0) ||| (d3 >>> 3 &&& 0x0f))⟩
  let larger := c0.r > c1.r ∨ (c0.r = c1.r ∧ (c0.g > c1.g ∨ (c0.g = c1.g ∧ c0.b ≥ c1.b)))
  let index := ((d3 &&& 4) ||| (d3 <<< 1 &&& 2)) + if larger then 1 else 0
  let d : Int := kEtc2Distance.getD index 0
  return paintSet j k [applyColor c0 d, applyColor c0 (-d), applyColor c1 d, applyColor c1 (-d)] out

/-- A component in the plane through three colours. -/
def planar (x y : Nat) (c0 c1 c2 : UInt8) : UInt8 :=
  clampU8 ((x * ((c1.toNat : Int) - c0.toNat) + y * ((c2.toNat : Int) - c0.toNat) + 4 *
    c0.toNat + 2) >>>
    (2 : Nat))

/-- The branch for a blue component that overflows. -/
def decodePlanar (out : Pixels) : Reads Pixels := do
  let d0 ← dataAt 0
  let d1 ← dataAt 1
  let d2 ← dataAt 2
  let d3 ← dataAt 3
  let d4 ← dataAt 4
  let d5 ← dataAt 5
  let d6 ← dataAt 6
  let d7 ← dataAt 7
  let c0 : Color := ⟨u8 ((d0 <<< 1 &&& 0xfc) ||| (d0 >>> 5 &&& 3)),
    u8 ((d0 <<< 7 &&& 0x80) ||| (d1 &&& 0x7e) ||| (d0 &&& 1)),
    orRight (u8 ((d1 <<< 7 &&& 0x80) ||| (d2 <<< 2 &&& 0x60) ||| (d2 <<< 3 &&& 0x18) |||
      (d3 >>> 5 &&& 4))) 6⟩
  let c1 : Color := ⟨u8 ((d3 <<< 1 &&& 0xf8) ||| (d3 <<< 2 &&& 4) ||| (d3 >>> 5 &&& 3)),
    u8 ((d4 &&& 0xfe) ||| d4 >>> 7),
    orRight (u8 ((d4 <<< 7 &&& 0x80) ||| (d5 >>> 1 &&& 0x7c))) 6⟩
  let c2 : Color := ⟨u8 ((d5 <<< 5 &&& 0xe0) ||| (d6 >>> 3 &&& 0x1c) ||| (d5 >>> 1 &&& 3)),
    u8 ((d6 <<< 3 &&& 0xf8) ||| (d7 >>> 5 &&& 6) ||| (d6 >>> 4 &&& 1)),
    u8 (d7 <<< 2 ||| (d7 >>> 4 &&& 3))⟩
  return writeAll (List.range 16) (fun i _ => packBgra (planar (i % 4) (i / 4) c0.r c1.r c2.r)
    (planar (i % 4) (i / 4) c0.g c1.g c2.g) (planar (i % 4) (i / 4) c0.b c1.b c2.b) 255) out

/-- The loop of the two remaining branches, over the subblocks with the base colours `c`; `d3` is
`data[3]`. -/
def paintSubblocks (j k d3 : Nat) (c : List Color) (out : Pixels) : Pixels :=
  let code := [d3 >>> 5, d3 >>> 2 &&& 7]
  let table := kEtc1Subblock.getD (d3 &&& 1) []
  writeAll kWriteOrder (fun i _ =>
    let s := table.getD i 0
    let m : Int := (kEtc1Modifier.getD (code.getD s 0) []).getD (j >>> i &&& 1) 0
    applyColor (c.getD s ⟨0, 0, 0⟩) (if k >>> i &&& 1 ≠ 0 then -m else m)) out

/-- The base colour of a component without a difference: `x&0xf8` with its upper bits repeated. -/
def widen5 (x : Nat) : UInt8 := u8 ((x &&& 0xf8) ||| (x &&& 0xf8) >>> 5)

/-- The branch for differences that do not overflow. -/
def decodeDifferential (j k : Nat) (out : Pixels) : Reads Pixels := do
  let second (x : Nat) : UInt8 := orRight (u8 ((x &&& 0xf8 : Nat) + difference x).toNat) 5
  let d0 ← dataAt 0
  let d1 ← dataAt 1
  let d2 ← dataAt 2
  let d3 ← dataAt 3
  return paintSubblocks j k d3
    [⟨widen5 d0, widen5 d1, widen5 d2⟩, ⟨second d0, second d1, second d2⟩] out

/-- The branch for colours of 4 bits. -/
def decodeIndividual (j k : Nat) (out : Pixels) : Reads Pixels := do
  let first (x : Nat) : UInt8 := u8 ((x &&& 0xf0) ||| x >>> 4)
  let second (x : Nat) : UInt8 := u8 ((x &&& 0x0f) ||| x <<< 4)
  let d0 ← dataAt 0
  let d1 ← dataAt 1
  let d2 ← dataAt 2
  let d3 ← dataAt 3
  return paintSubblocks j k d3
    [⟨first d0, first d1, first d2⟩, ⟨second d0, second d1, second d2⟩] out

/-- `decode_etc2_rgb_block` -/
def decodeEtc2RgbBlock (out : Pixels) : Reads Pixels := do
  let j ← lowBits
  let k ← highBits
  let d3 ← dataAt 3
  if d3 &&& 2 ≠ 0 then do
    let d0 ← dataAt 0
    let d1 ← dataAt 1
    let d2 ← dataAt 2
    if overflows d0 then decodeT j k out
    else if overflows d1 then decodeH j k out
    else if overflows d2 then decodePlanar out
    else decodeDifferential j k out
  else decodeIndividual j k out

/-! ## The decoder of alpha -/

/-- The loop of `read_be64`, from the bytes `is` on. -/
def readBe (v : Nat) : List Nat → Reads Nat
  | [] => return v
  | i :: is => do readBe (v <<< 8 ||| (← dataAt i)) is

/-- `read_be64` -/
def readBe64 : Reads Nat := readBe 0 (List.range 8)

/-- `(p&0x00ffffffu)|((uint32_t)a<<24)` -/
def withAlpha (p : UInt32) (a : UInt8) : UInt32 :=
  (p &&& (0x00ffffff : UInt32)) ||| a.toUInt32 <<< 24

/-- `decode_etc2_alpha_block` -/
def decodeEtc2AlphaBlock (out : Pixels) : Reads Pixels := do
  let d1 ← dataAt 1
  if d1 &&& 0xf0 ≠ 0 then do
    let mul : Int := (d1 >>> 4 : Nat)
    let table := kEtc2AlphaMod.getD (d1 &&& 0x0f) []
    let l ← readBe64
    let d0 ← dataAt 0
    return writeAll kWriteOrderRev (fun i p =>
      withAlpha p (clampU8 (d0 + mul * table.getD (l >>> (3 * i) &&& 7) 0))) out
  else do
    let d0 ← dataAt 0
    return writeAll (List.range 16) (fun _ p => withAlpha p (u8 d0)) out

/-! ## The encoders -/

/-- `(int)(px[i]&255)` and its neighbours: a byte of a pixel. -/
def channel (shift : UInt32) (p : UInt32) : Int := ((p >>> shift) &&& (255 : UInt32)).toNat

def blue : UInt32 → Int := channel 0

def green : UInt32 → Int := channel 8

def red : UInt32 → Int := channel 16

def alpha : UInt32 → Int := channel 24

/-- `if(v<min)min=v` in a loop over the pixels. -/
def lowest (value : UInt32 → Int) (px : Pixels) : Int :=
  px.toList.foldl (fun least p => if value p < least then value p else least) 255

/-- `if(v>max)max=v` in a loop over the pixels. -/
def highest (value : UInt32 → Int) (px : Pixels) : Int :=
  px.toList.foldl (fun most p => if value p > most then value p else most) 0

/-- `rgb565`, with the casts of its arguments -/
def rgb565 (r g b : Int) : Nat :=
  let byte (n : Int) : Nat := (n % 256).toNat
  (byte r >>> 3 <<< 11 ||| byte g >>> 2 <<< 5 ||| byte b >>> 3) % 2 ^ 16

/-- `rgb_from_565` -/
def rgbFrom565 (c : Nat) : List Nat :=
  [(c >>> 11 &&& 31) * 255 / 31, (c >>> 5 &&& 63) * 255 / 63, (c &&& 31) * 255 / 31]

/-- `best` after `if(d<bestd){bestd=d;best=q;}` in a loop over `q`. -/
def bestOf (distance : Nat → Int) (count : Nat) (limit : Int) : Nat :=
  ((List.range count).foldl (fun best q =>
    if distance q < best.2 then (q, distance q) else best) (0, limit)).1

/-- The bits `best<<(width*i)` of all pixels. -/
def indexBits (px : Pixels) (width : Nat) (best : UInt32 → Nat) : Nat :=
  (List.range 16).foldl (fun bits i => bits ||| best (px.toList.getD i 0) <<< (width * i)) 0

/-- `(uint8_t)(v>>(8*i))` for `count` bytes, as in `put16le` and `put32le`. -/
def bytesLe (count v : Nat) : List UInt8 := (List.range count).map fun i => u8 (v >>> (8 * i))

/-- The two colours at the ends of a palette, the larger one first and never equal. -/
def endpoints (px : Pixels) : Nat × Nat :=
  let ir := (highest red px - lowest red px) >>> (4 : Nat)
  let ig := (highest green px - lowest green px) >>> (4 : Nat)
  let ib := (highest blue px - lowest blue px) >>> (4 : Nat)
  let c0 := rgb565 (highest red px - ir) (highest green px - ig) (highest blue px - ib)
  let c1 := rgb565 (lowest red px + ir) (lowest green px + ig) (lowest blue px + ib)
  let (c0, c1) := if c0 < c1 then (c1, c0) else (c0, c1)
  if c0 = c1 then
    if c0 < 0xffff then (c0 + 1, c1) else if c1 ≠ 0 then (c0, c1 - 1) else (c0, c1)
  else (c0, c1)

/-- `encode_bc1_color` -/
def encodeBc1Color (px : Pixels) : List UInt8 :=
  let (c0, c1) := endpoints px
  let p0 := rgbFrom565 c0
  let p1 := rgbFrom565 c1
  let p2 := List.zipWith (fun a b => (2 * a + b + 1) / 3) p0 p1
  let p3 := List.zipWith (fun a b => (a + 2 * b + 1) / 3) p0 p1
  let distance (p : UInt32) (q : Nat) : Int :=
    let color := [p0, p1, p2, p3].getD q []
    let dr := red p - color.getD 0 0
    let dg := green p - color.getD 1 0
    let db := blue p - color.getD 2 0
    dr * dr + dg * dg + db * db
  bytesLe 2 c0 ++ bytesLe 2 c1 ++
    bytesLe 4 (indexBits px 2 fun p => bestOf (distance p) 4 0x7fffffff)

/-- `encode_bc3_alpha` -/
def encodeBc3Alpha (px : Pixels) : List UInt8 :=
  let amin := (lowest alpha px).toNat
  let amax := (highest alpha px).toNat
  let pal :=
    if amax > amin then
      [amax, amin] ++ (List.range' 1 6).map fun i => ((7 - i) * amax + i * amin + 3) / 7
    else
      [amax, amin] ++ ((List.range' 1 4).map fun i =>
        ((5 - i) * amax + i * amin + 2) / 5) ++ [0, 255]
  let distance (p : UInt32) (q : Nat) : Int := (alpha p - pal.getD q 0).natAbs
  [u8 amax, u8 amin] ++ bytesLe 6 (indexBits px 3 fun p => bestOf (distance p) 8 1000)

/-! ## Whole blocks -/

section Forgets

variable {order : List Nat}

/-- Pixels that the loop overwrites do not matter, by induction on the loop. -/
theorem foldl_set_forgets (v : Nat → UInt32) (is : List Nat) {out out' : Pixels}
    (h : ∀ q, (hq : q < 16) → q ∈ is.map (order.getD · 0) ∨ out[q] = out'[q]) :
    is.foldl (fun out i => out.setIfInBounds (order.getD i 0) (v i)) out =
      is.foldl (fun out i => out.setIfInBounds (order.getD i 0) (v i)) out' := by
  induction is generalizing out out' with
  | nil =>
      refine Vector.ext fun q hq => ?_
      exact (h q hq).resolve_left List.not_mem_nil
  | cons i is ih =>
      rw [List.foldl_cons, List.foldl_cons]
      refine ih fun q hq => ?_
      rw [Vector.getElem_setIfInBounds hq, Vector.getElem_setIfInBounds hq]
      by_cases heq : order.getD i 0 = q
      case pos =>
        rw [if_pos heq, if_pos heq]
        exact .inr rfl
      case neg =>
        rw [if_neg heq, if_neg heq]
        rcases h q hq with hmem | hsame
        · rw [List.map_cons, List.mem_cons] at hmem
          exact .inl (hmem.resolve_left fun hq => heq hq.symm)
        · exact .inr hsame

/-- A loop that writes all pixels forgets what they were. -/
theorem writeAll_forgets (horder : ∀ q < 16, q ∈ (List.range 16).map (order.getD · 0))
    (v : Nat → UInt32) (out out' : Pixels) :
    writeAll order (fun i _ => v i) out = writeAll order (fun i _ => v i) out' :=
  foldl_set_forgets v _ fun q hq => .inl (horder q hq)

end Forgets

/-- `kWriteOrder` names all pixels. -/
theorem kWriteOrder_all : ∀ q < 16, q ∈ (List.range 16).map (kWriteOrder.getD · 0) := by decide

theorem paintSet_forgets (j k : Nat) (set : List UInt32) (out out' : Pixels) :
    paintSet j k set out = paintSet j k set out' :=
  writeAll_forgets kWriteOrder_all _ out out'

theorem paintSubblocks_forgets (j k d3 : Nat) (c : List Color) (out out' : Pixels) :
    paintSubblocks j k d3 c out = paintSubblocks j k d3 c out' :=
  writeAll_forgets kWriteOrder_all _ out out'

section Reading

variable {bytes : Nat → UInt8} {out out' : Pixels} {j k : Nat}

@[simp] theorem value_dataAt (i : Nat) : (dataAt i).value bytes = (bytes i).toNat := by
  rw [dataAt, Reads.value_bind]
  rfl

theorem decodePlanar_forgets : (decodePlanar out).value bytes =
    (decodePlanar out').value bytes := by
  have hplanar : ∀ q < 16, q ∈ (List.range 16).map ((List.range 16).getD · 0) := by decide
  simp only [decodePlanar, Reads.value_bind, Reads.value_pure]
  exact writeAll_forgets hplanar _ out out'

/-- The decoder of colours overwrites all pixels. -/
theorem decodeEtc2RgbBlock_forgets :
    (decodeEtc2RgbBlock out).value bytes = (decodeEtc2RgbBlock out').value bytes := by
  simp only [decodeEtc2RgbBlock, decodeT, decodeH, decodeDifferential, decodeIndividual,
    Reads.value_bind, Reads.value_ite, Reads.value_pure, @decodePlanar_forgets bytes out out',
    paintSet_forgets _ _ _ out out', paintSubblocks_forgets _ _ _ _ out out']

theorem within_dataAt {i n : Nat} (h : i < n) : (dataAt i).Within n :=
  (Reads.within_one h).bind fun _ => Reads.within_pure _

theorem within_lowBits : lowBits.Within 8 :=
  (within_dataAt (by decide)).bind fun _ =>
    (within_dataAt (by decide)).bind fun _ => Reads.within_pure _

theorem within_highBits : highBits.Within 8 :=
  (within_dataAt (by decide)).bind fun _ =>
    (within_dataAt (by decide)).bind fun _ => Reads.within_pure _

/-- The bytes of a branch that uses the first four. -/
theorem within_four {f : Nat → Nat → Nat → Nat → Pixels} :
    (do return f (← dataAt 0) (← dataAt 1) (← dataAt 2) (← dataAt 3) : Reads Pixels).Within 8 :=
  (within_dataAt (by decide)).bind fun _ => (within_dataAt (by decide)).bind fun _ =>
    (within_dataAt (by decide)).bind fun _ => (within_dataAt (by decide)).bind fun _ =>
      Reads.within_pure _

theorem within_decodePlanar : (decodePlanar out).Within 8 := by
  unfold decodePlanar
  iterate 8 refine (within_dataAt (by decide)).bind fun _ => ?_
  exact Reads.within_pure _

/-- The decoder of colours reads the 8 bytes of its block. -/
theorem within_decodeEtc2RgbBlock : (decodeEtc2RgbBlock out).Within 8 := by
  refine within_lowBits.bind fun j => within_highBits.bind fun k => ?_
  refine (within_dataAt (by decide)).bind fun d3 => Reads.Within.ite ?_ within_four
  refine (within_dataAt (by decide)).bind fun d0 => ?_
  refine (within_dataAt (by decide)).bind fun d1 => ?_
  refine (within_dataAt (by decide)).bind fun d2 => ?_
  exact within_four.ite (within_four.ite (within_decodePlanar.ite within_four))

/-- By induction on the bytes that are left. -/
theorem within_readBe {n v : Nat} {is : List Nat} (h : ∀ i ∈ is, i < n) :
    (readBe v is).Within n := by
  induction is generalizing v with
  | nil => exact Reads.within_pure v
  | cons i is ih =>
      refine (within_dataAt (h i List.mem_cons_self)).bind fun b => ?_
      exact ih fun i hi => h i (List.mem_cons_of_mem _ hi)

/-- The decoder of alpha reads the 8 bytes of its block. -/
theorem within_decodeEtc2AlphaBlock : (decodeEtc2AlphaBlock out).Within 8 := by
  refine (within_dataAt (by decide)).bind fun d1 => Reads.Within.ite ?_ ?_
  · refine Reads.Within.bind (within_readBe fun i hi => List.mem_range.1 hi) fun l => ?_
    exact (within_dataAt (by decide)).bind fun _ => Reads.within_pure _
  · exact (within_dataAt (by decide)).bind fun _ => Reads.within_pure _

end Reading

theorem length_bytesLe (count v : Nat) : (bytesLe count v).length = count := by
  rw [bytesLe, List.length_map, List.length_range]

/-- `encode_bc1_color` writes 8 bytes. -/
theorem length_encodeBc1Color (px : Pixels) : (encodeBc1Color px).length = 8 := by
  simp only [encodeBc1Color, List.length_append, length_bytesLe]

/-- `encode_bc3_alpha` writes 8 bytes. -/
theorem length_encodeBc3Alpha (px : Pixels) : (encodeBc3Alpha px).length = 8 := by
  simp only [encodeBc3Alpha, List.length_append, length_bytesLe, List.length_cons, List.length_nil]

end Asnx.Textures
