import Asnx.Library.Palettes
import Asnx.Textures.Blocks
import Mathlib.Algebra.Order.Ring.Abs
import Mathlib.Algebra.Order.Ring.Int
import Mathlib.Data.List.GetD
import Mathlib.Tactic.IntervalCases

/-!
# What the encoded blocks decode to

A BC1 block names two colours and a BC3 block two alpha values, from which a decoder computes a
palette, and for each pixel an index into it. The encoder computes the same palette and takes the
nearest entries: no pixel of a block of colours is transparent (`encode_bc1_color_optimal`), and the
alpha of a pixel is off by half the distance of two entries at most (`encode_bc3_alpha_error`).
-/

namespace Asnx.Textures

open Palettes

/-! ## The parts of the encoders -/

theorem indexBits_eq (px : Pixels) (width : Nat) (best : UInt32 → Nat) :
    indexBits px width best = packed width (fun i => best (px.toList.getD i 0)) 16 := rfl

theorem ofBytes_bytesLe (count v : Nat) : ofBytes (bytesLe count v) = v % 256 ^ count :=
  ofBytes_map_shiftRight count v

/-- A byte of a pixel. -/
theorem channel_bounds (shift p : UInt32) : 0 ≤ channel shift p ∧ channel shift p ≤ 255 := by
  unfold channel
  refine ⟨Int.natCast_nonneg _, ?_⟩
  rw [UInt32.toNat_and]
  have hmask : (p >>> shift).toNat &&& (255 : UInt32).toNat ≤ (255 : UInt32).toNat :=
    Nat.and_le_right
  exact_mod_cast hmask

/-- The indices that an encoder packs are read back, if they fit. -/
theorem indexBits_read {px : Pixels} {width : Nat} {best : UInt32 → Nat}
    (hfits : ∀ p, best p < 2 ^ width) {i : Nat} (hi : i < 16) :
    indexBits px width best >>> (width * i) % 2 ^ width = best (px[i]) := by
  rw [indexBits_eq, packed_field (fun i _ => hfits _) hi]
  rw [List.getD_eq_getElem _ _ (by rw [Vector.length_toList]; exact hi), Vector.getElem_toList]

/-- All indices together have `width` bits for each pixel. -/
theorem indexBits_lt {px : Pixels} {width : Nat} {best : UInt32 → Nat}
    (hfits : ∀ p, best p < 2 ^ width) : indexBits px width best < 2 ^ (width * 16) := by
  rw [indexBits_eq]
  exact packed_lt fun i _ => hfits _

/-! ## Colours -/

/-- The first colour of a BC1 block. -/
def firstColor (block : List UInt8) : Nat := ofBytes (block.take 2)

/-- The second colour of a BC1 block. -/
def secondColor (block : List UInt8) : Nat := ofBytes ((block.drop 2).take 2)

/-- The index of a pixel in a BC1 block. -/
def colorIndex (block : List UInt8) (i : Nat) : Nat :=
  ofBytes ((block.drop 4).take 4) >>> (2 * i) % 2 ^ 2

/-- The four colours between two. -/
def colorPalette (c0 c1 : Nat) : List (List Nat) :=
  [rgbFrom565 c0, rgbFrom565 c1,
    List.zipWith (fun a b => (2 * a + b + 1) / 3) (rgbFrom565 c0) (rgbFrom565 c1),
    List.zipWith (fun a b => (a + 2 * b + 1) / 3) (rgbFrom565 c0) (rgbFrom565 c1)]

/-- The squared distance of a pixel from a colour. -/
def colorDistance (p : UInt32) (color : List Nat) : Int :=
  (red p - color.getD 0 0) * (red p - color.getD 0 0) +
    (green p - color.getD 1 0) * (green p - color.getD 1 0) +
    (blue p - color.getD 2 0) * (blue p - color.getD 2 0)

/-- A pixel of a BC1 block is transparent: the block is not in the mode with four colours, and the
index is the one that stands for no colour there. -/
def Transparent (block : List UInt8) (i : Nat) : Prop :=
  firstColor block ≤ secondColor block ∧ colorIndex block i = 3

theorem rgb565_lt (r g b : Int) : rgb565 r g b < 2 ^ 16 := Nat.mod_lt _ (by decide)

/-- The endpoints are different, the larger one comes first, and they have 16 bits. -/
theorem endpoints_ordered (px : Pixels) :
    (endpoints px).2 < (endpoints px).1 ∧ (endpoints px).1 < 2 ^ 16 := by
  unfold endpoints
  dsimp only
  generalize hc0 : rgb565 (highest red px - _) _ _ = c0
  generalize hc1 : rgb565 (lowest red px + _) _ _ = c1
  have h0 : c0 < 2 ^ 16 := hc0 ▸ rgb565_lt _ _ _
  have h1 : c1 < 2 ^ 16 := hc1 ▸ rgb565_lt _ _ _
  by_cases hswap : c0 < c1
  · rw [if_pos hswap]
    dsimp only
    rw [if_neg (Nat.ne_of_gt hswap)]
    exact ⟨hswap, h1⟩
  · rw [if_neg hswap]
    dsimp only
    by_cases heq : c0 = c1
    · rw [if_pos heq]
      split
      · dsimp only
        omega
      · rw [if_pos (by omega)]
        dsimp only
        omega
    · rw [if_neg heq]
      dsimp only
      omega

theorem rgbFrom565_le (c k : Nat) : (rgbFrom565 c).getD k 0 ≤ 255 := by
  have hr : c >>> 11 &&& 31 ≤ 31 := Nat.and_le_right
  have hg : c >>> 5 &&& 63 ≤ 63 := Nat.and_le_right
  have hb : c &&& 31 ≤ 31 := Nat.and_le_right
  unfold rgbFrom565
  match k with
  | 0 => show (c >>> 11 &&& 31) * 255 / 31 ≤ 255; omega
  | 1 => show (c >>> 5 &&& 63) * 255 / 63 ≤ 255; omega
  | 2 => show (c &&& 31) * 255 / 31 ≤ 255; omega
  | k + 3 => exact Nat.zero_le _

/-- The distance from the first colour is below the limit of the search. -/
theorem colorDistance_lt (p : UInt32) (c : Nat) : colorDistance p (rgbFrom565 c) < 0x7fffffff := by
  have hsquare : ∀ shift k, (channel shift p - (rgbFrom565 c).getD k 0) *
      (channel shift p - (rgbFrom565 c).getD k 0) ≤ 255 * 255 := by
    intro shift k
    obtain ⟨hlow, hhigh⟩ := channel_bounds shift p
    have hentry := rgbFrom565_le c k
    rw [← abs_mul_abs_self]
    have habs : |channel shift p - ((rgbFrom565 c).getD k 0 : Nat)| ≤ 255 := by
      rw [abs_le]
      omega
    exact mul_le_mul habs habs (abs_nonneg _) (by decide)
  have hr := hsquare 16 0
  have hg := hsquare 8 1
  have hb := hsquare 0 2
  unfold colorDistance red green blue
  omega

/-- What a BC1 block is for its pixels: the larger colour comes first, so that none is transparent,
and each index is the lowest of a nearest entry. -/
structure OptimalColors (px : Pixels) (block : List UInt8) : Prop where
  ordered : secondColor block < firstColor block
  colored : ∀ i, ¬ Transparent block i
  nearest : ∀ i (hi : i < 16), IsNearest (fun q => colorDistance (px[i])
    ((colorPalette (firstColor block) (secondColor block)).getD q [])) 4 (colorIndex block i)

/-- The index of a pixel, of a palette of colours with 16 bits. -/
def bestColor (c0 c1 : Nat) (p : UInt32) : Nat :=
  bestOf (fun q => colorDistance p ((colorPalette c0 c1).getD q [])) 4 0x7fffffff

theorem isNearest_bestColor (c0 c1 : Nat) (p : UInt32) :
    IsNearest (fun q => colorDistance p ((colorPalette c0 c1).getD q [])) 4 (bestColor c0 c1 p) :=
  (isNearest_nearest (colorDistance_lt p c0) 3).1

theorem encodeBc1Color_eq (px : Pixels) : encodeBc1Color px =
    bytesLe 2 (endpoints px).1 ++ bytesLe 2 (endpoints px).2 ++
      bytesLe 4 (indexBits px 2 (bestColor (endpoints px).1 (endpoints px).2)) := rfl

/-- `encode_bc1_color` writes two colours, the larger one first, and for each pixel the lowest index
of the colours of the palette that are nearest to it. -/
theorem encode_bc1_color_optimal (px : Pixels) : OptimalColors px (encodeBc1Color px) := by
  obtain ⟨hordered, hfits⟩ := endpoints_ordered px
  have hbest : ∀ p, bestColor (endpoints px).1 (endpoints px).2 p < 2 ^ 2 := fun p =>
    (isNearest_bestColor _ _ p).lt
  have hfirst : firstColor (encodeBc1Color px) = (endpoints px).1 := by
    unfold firstColor
    rw [encodeBc1Color_eq, List.append_assoc, List.take_left' (length_bytesLe 2 _), ofBytes_bytesLe]
    exact Nat.mod_eq_of_lt hfits
  have hsecond : secondColor (encodeBc1Color px) = (endpoints px).2 := by
    unfold secondColor
    rw [encodeBc1Color_eq, List.append_assoc, List.drop_left' (length_bytesLe 2 _),
      List.take_left' (length_bytesLe 2 _), ofBytes_bytesLe]
    exact Nat.mod_eq_of_lt (hordered.trans hfits)
  have hindex : ∀ i (hi : i < 16), colorIndex (encodeBc1Color px) i =
      bestColor (endpoints px).1 (endpoints px).2 (px[i]) := by
    intro i hi
    have hlength : (bytesLe 2 (endpoints px).1 ++ bytesLe 2 (endpoints px).2).length = 4 := by
      rw [List.length_append, length_bytesLe, length_bytesLe]
    have hbits : indexBits px 2 (bestColor (endpoints px).1 (endpoints px).2) < 256 ^ 4 :=
      indexBits_lt hbest
    unfold colorIndex
    rw [encodeBc1Color_eq, List.drop_left' hlength,
      List.take_of_length_le (Nat.le_of_eq (length_bytesLe 4 _)), ofBytes_bytesLe,
      Nat.mod_eq_of_lt hbits, indexBits_read hbest hi]
  have hcolors : secondColor (encodeBc1Color px) < firstColor (encodeBc1Color px) := by
    rw [hfirst, hsecond]
    exact hordered
  refine ⟨hcolors, fun i htransparent => Nat.not_le_of_lt hcolors htransparent.1, fun i hi => ?_⟩
  rw [hfirst, hsecond, hindex i hi]
  exact isNearest_bestColor _ _ _

/-! ## Alpha -/

/-- The eight values between two that differ, the larger one first. -/
def alphaPalette (amax amin : Nat) : List Nat :=
  [amax, amin] ++ (List.range' 1 6).map fun i => ((7 - i) * amax + i * amin + 3) / 7

/-- The index of a pixel in a block of alpha. -/
def alphaIndex (block : List UInt8) (i : Nat) : Nat := ofBytes (block.drop 2) >>> (3 * i) % 2 ^ 3

/-- A byte of a block, promoted to `int`. -/
def byteOf (data : List UInt8) (i : Nat) : Nat := (data.getD i 0).toNat

/-- The alpha of a pixel in a block of alpha. -/
def decodeBc3Alpha (block : List UInt8) (i : Nat) : Nat :=
  let a0 := byteOf block 0
  let a1 := byteOf block 1
  if a0 = a1 then a0 else (alphaPalette a0 a1).getD (alphaIndex block i) 0

section Bounds

variable {value : UInt32 → Int} {px : Pixels}

/-- The loop for the lowest value, by induction on the pixels. -/
theorem foldl_lowest (value : UInt32 → Int) (ps : List UInt32) (start : Int) :
    (∀ p ∈ ps, ps.foldl (fun least p => if value p < least then value p else least)
      start ≤ value p) ∧
      ps.foldl (fun least p => if value p < least then value p else least) start ≤ start ∧
      (ps.foldl (fun least p => if value p < least then value p else least) start = start ∨
        ∃ p ∈ ps, ps.foldl (fun least p => if value p < least then value p else least) start =
          value p) := by
  induction ps generalizing start with
  | nil => exact ⟨fun _ hp => absurd hp List.not_mem_nil, Int.le_refl _, .inl rfl⟩
  | cons q ps ih =>
      obtain ⟨hall, hstart, hattained⟩ := ih (if value q < start then value q else start)
      rw [List.foldl_cons]
      have hq : (if value q < start then value q else start) ≤ value q := by split <;> omega
      have hs : (if value q < start then value q else start) ≤ start := by split <;> omega
      refine ⟨fun p hp => ?_, hstart.trans hs, ?_⟩
      · rcases List.mem_cons.1 hp with rfl | hp
        · exact hstart.trans hq
        · exact hall p hp
      · rcases hattained with hsame | ⟨p, hp, hvalue⟩
        · by_cases hless : value q < start
          · rw [if_pos hless] at hsame ⊢
            exact .inr ⟨q, List.mem_cons_self, hsame⟩
          · rw [if_neg hless] at hsame ⊢
            exact .inl hsame
        · exact .inr ⟨p, List.mem_cons_of_mem _ hp, hvalue⟩

theorem highest_eq_neg_lowest (value : UInt32 → Int) (ps : List UInt32) (start : Int) :
    ps.foldl (fun most p => if value p > most then value p else most) start =
      -ps.foldl (fun least p => if -value p < least then -value p else least) (-start) := by
  induction ps generalizing start with
  | nil => exact (Int.neg_neg start).symm
  | cons q ps ih =>
      rw [List.foldl_cons, List.foldl_cons, ih]
      congr 2
      by_cases hmore : value q > start
      · rw [if_pos hmore, if_pos (Int.neg_lt_neg hmore)]
      · rw [if_neg hmore, if_neg fun h => hmore (Int.neg_lt_neg_iff.1 h)]

theorem toList_ne_nil (px : Pixels) : ∃ p, p ∈ px.toList := by
  refine List.exists_mem_of_length_pos ?_
  rw [Vector.length_toList]
  decide

/-- The lowest value of the pixels is one of them, and no other is lower. -/
theorem lowest_spec (hle : ∀ p, value p ≤ 255) :
    (∀ p ∈ px.toList, lowest value px ≤ value p) ∧ ∃ p ∈ px.toList, lowest value px = value p := by
  obtain ⟨hall, hstart, hattained⟩ := foldl_lowest value px.toList 255
  refine ⟨hall, ?_⟩
  rcases hattained with hsame | hattained
  · obtain ⟨p, hp⟩ := toList_ne_nil px
    refine ⟨p, hp, ?_⟩
    have hlowest := hall p hp
    have := hle p
    unfold lowest
    omega
  · exact hattained

/-- The highest value of the pixels is one of them, and no other is higher. -/
theorem highest_spec (hge : ∀ p, 0 ≤ value p) :
    (∀ p ∈ px.toList, value p ≤ highest value px) ∧ ∃ p ∈ px.toList, highest value px =
      value p := by
  obtain ⟨hall, hstart, hattained⟩ := foldl_lowest (fun p => -value p) px.toList (-0)
  have heq : highest value px = _ := highest_eq_neg_lowest value px.toList 0
  refine ⟨fun p hp => ?_, ?_⟩
  · have := hall p hp
    omega
  · rcases hattained with hsame | ⟨p, hp, hvalue⟩
    · obtain ⟨p, hp⟩ := toList_ne_nil px
      have hhighest := hall p hp
      have := hge p
      exact ⟨p, hp, by omega⟩
    · exact ⟨p, hp, by omega⟩

end Bounds

/-- The step `i` of seven from `span` down to 0. -/
def sevenths (span i : Nat) : Nat := ((7 - i) * span + 3) / 7

/-- Neighbouring steps are a seventh apart, rounded up, at most. -/
theorem sevenths_gap (span : Nat) {i : Nat} (hi : i < 7) :
    sevenths span i ≤ sevenths span (i + 1) + (span + 6) / 7 := by
  have hstep : (7 - i) * span = (7 - (i + 1)) * span + span := by
    rw [← Nat.succ_mul]
    congr 1
    omega
  unfold sevenths
  rw [hstep]
  omega

/-- What lies between the ends of a descending scale lies between two neighbours, by induction on
the steps. -/
theorem exists_between (scale : Nat → Nat) {t : Nat} (hstart : t ≤ scale 0) (n : Nat)
    (hend : scale n ≤ t) : t = scale 0 ∨ ∃ i < n, scale (i + 1) ≤ t ∧ t ≤ scale i := by
  induction n with
  | zero => exact .inl (Nat.le_antisymm hstart hend)
  | succ n ih =>
      by_cases hbefore : scale n ≤ t
      · rcases ih hbefore with heq | ⟨i, hi, hbetween⟩
        · exact .inl heq
        · exact .inr ⟨i, Nat.lt_succ_of_lt hi, hbetween⟩
      · exact .inr ⟨n, Nat.lt_succ_self n, hend, Nat.le_of_not_le hbefore⟩

/-- Some step is near enough to a value. -/
theorem exists_near {span t : Nat} (ht : t ≤ span) :
    ∃ i ≤ 7, 2 * ((t : Int) - sevenths span i).natAbs ≤ (span + 6) / 7 := by
  have hstart : sevenths span 0 = span := by
    unfold sevenths
    omega
  have hend : sevenths span 7 = 0 := by
    unfold sevenths
    omega
  rcases exists_between (sevenths span) (hstart.symm ▸ ht) 7 (hend ▸ Nat.zero_le t) with
    heq | ⟨i, hi, hlow, hhigh⟩
  · refine ⟨0, Nat.zero_le 7, ?_⟩
    rw [heq]
    omega
  · have hgap := sevenths_gap span hi
    by_cases hcloser : 2 * (sevenths span i - t) ≤ (span + 6) / 7
    · exact ⟨i, Nat.le_of_lt hi, by omega⟩
    · exact ⟨i + 1, hi, by omega⟩

/-- The place of a step in the palette, where the second end comes second. -/
def paletteIndex (i : Nat) : Nat := if i = 0 then 0 else if i = 7 then 1 else i + 1

theorem alphaPalette_step (amin span : Nat) {i : Nat} (hi : i ≤ 7) :
    (alphaPalette (amin + span) amin).getD (paletteIndex i) 0 = amin + sevenths span i := by
  unfold sevenths
  have height : ∀ k, ((7 - k) * (amin + span) + k * amin + 3) / 7 =
      ((7 - k) * span + (7 - k + k) * amin + 3) / 7 := by
    intro k
    congr 2
    ring
  interval_cases i
  · show amin + span = _
    omega
  iterate 6
    · refine (height _).trans ?_
      omega
  · show amin = _
    omega

/-- An entry of the palette is near enough to a value between the ends. -/
theorem exists_near_entry {amin amax a : Nat} (hlow : amin ≤ a) (hhigh : a ≤ amax) :
    ∃ q < 8, 2 * ((a : Int) - (alphaPalette amax amin).getD q 0).natAbs ≤
      (amax - amin + 6) / 7 := by
  obtain ⟨span, rfl⟩ := Nat.exists_eq_add_of_le (hlow.trans hhigh)
  obtain ⟨t, rfl⟩ := Nat.exists_eq_add_of_le hlow
  obtain ⟨i, hi, hnear⟩ := exists_near (Nat.le_of_add_le_add_left hhigh : t ≤ span)
  refine ⟨paletteIndex i, ?_, ?_⟩
  · unfold paletteIndex
    split
    · decide
    · split <;> omega
  · rw [alphaPalette_step amin span hi]
    omega

section Decoding

variable {px : Pixels} {i : Nat}

theorem alpha_bounds (p : UInt32) : 0 ≤ alpha p ∧ alpha p ≤ 255 := channel_bounds 24 p

/-- The ends of the palette of a block. -/
theorem alpha_ends (px : Pixels) : ∃ amin amax : Nat, lowest alpha px = amin ∧
    highest alpha px = amax ∧ amin ≤ amax ∧ amax ≤ 255 := by
  obtain ⟨hall, p, -, hp⟩ := @lowest_spec alpha px fun p => (alpha_bounds p).2
  obtain ⟨hall', p', hp'mem, hp'⟩ := @highest_spec alpha px fun p => (alpha_bounds p).1
  have hpos := (alpha_bounds p).1
  have hle := (alpha_bounds p').2
  have hbetween := hall p' hp'mem
  refine ⟨(lowest alpha px).toNat, (highest alpha px).toNat, ?_, ?_, ?_, ?_⟩ <;> omega

theorem pixel_mem (px : Pixels) (hi : i < 16) : px[i] ∈ px.toList := by
  rw [← Vector.getElem_toList (by rw [Vector.length_toList]; exact hi)]
  exact List.getElem_mem _

/-- A block whose ends are equal decodes to them. -/
theorem decodeBc3Alpha_equal {a : Nat} (hlow : lowest alpha px = a) (hhigh : highest alpha px = a)
    (ha : a ≤ 255) : decodeBc3Alpha (encodeBc3Alpha px) i = a := by
  have hbytes : byteOf (encodeBc3Alpha px) 0 = a ∧ byteOf (encodeBc3Alpha px) 1 = a := by
    unfold encodeBc3Alpha
    rw [hlow, hhigh]
    exact ⟨Nat.mod_eq_of_lt (by omega), Nat.mod_eq_of_lt (by omega)⟩
  unfold decodeBc3Alpha
  dsimp only
  rw [hbytes.1, hbytes.2, if_pos rfl]

/-- The index of a pixel, of the palette between two values. -/
def bestAlpha (amax amin : Nat) (p : UInt32) : Nat :=
  bestOf (fun q => (alpha p - (alphaPalette amax amin).getD q 0).natAbs) 8 1000

theorem encodeBc3Alpha_eq {amin amax : Nat} (hlow : lowest alpha px = amin)
    (hhigh : highest alpha px = amax) (hlt : amin < amax) : encodeBc3Alpha px =
      [u8 amax, u8 amin] ++ bytesLe 6 (indexBits px 3 (bestAlpha amax amin)) := by
  unfold encodeBc3Alpha
  rw [hlow, hhigh]
  dsimp only [Int.toNat_natCast]
  rw [if_pos hlt]
  rfl

theorem isNearest_bestAlpha {amin amax : Nat} (hle : amax ≤ 255) (p : UInt32) :
    IsNearest (fun q => (alpha p - (alphaPalette amax amin).getD q 0).natAbs) 8
      (bestAlpha amax amin p) := by
  refine (isNearest_nearest ?_ 7).1
  have hfirst : (alphaPalette amax amin).getD 0 0 = amax := rfl
  obtain ⟨hlow, hhigh⟩ := alpha_bounds p
  rw [hfirst]
  omega

/-- A block whose ends differ decodes to the entries that are nearest. -/
theorem decodeBc3Alpha_nearest {amin amax : Nat} (hlow : lowest alpha px = amin)
    (hhigh : highest alpha px = amax) (hlt : amin < amax) (hle : amax ≤ 255) (hi : i < 16) {q : Nat}
    (hq : q < 8) : (alpha (px[i]) - decodeBc3Alpha (encodeBc3Alpha px) i).natAbs ≤
      (alpha (px[i]) - (alphaPalette amax amin).getD q 0).natAbs := by
  have hbest : ∀ p, bestAlpha amax amin p < 2 ^ 3 := fun p => (isNearest_bestAlpha hle p).lt
  have hmax : byteOf (encodeBc3Alpha px) 0 = amax := by
    rw [encodeBc3Alpha_eq hlow hhigh hlt]
    exact Nat.mod_eq_of_lt (by omega)
  have hmin : byteOf (encodeBc3Alpha px) 1 = amin := by
    rw [encodeBc3Alpha_eq hlow hhigh hlt]
    exact Nat.mod_eq_of_lt (by omega)
  have hbits : indexBits px 3 (bestAlpha amax amin) < 256 ^ 6 := indexBits_lt hbest
  have hindex : alphaIndex (encodeBc3Alpha px) i = bestAlpha amax amin (px[i]) := by
    have hlength : [u8 amax, u8 amin].length = 2 := rfl
    unfold alphaIndex
    rw [encodeBc3Alpha_eq hlow hhigh hlt, List.drop_left' hlength, ofBytes_bytesLe,
      Nat.mod_eq_of_lt hbits, indexBits_read hbest hi]
  have hdecoded : decodeBc3Alpha (encodeBc3Alpha px) i =
      (alphaPalette amax amin).getD (bestAlpha amax amin (px[i])) 0 := by
    unfold decodeBc3Alpha
    dsimp only
    rw [hmax, hmin, if_neg (Nat.ne_of_gt hlt), hindex]
  rw [hdecoded]
  exact_mod_cast (isNearest_bestAlpha hle (px[i])).least q hq

/-- A pixel whose alpha is an end of the range keeps it. -/
theorem decodeBc3Alpha_end (hi : i < 16)
    (hend : alpha (px[i]) = lowest alpha px ∨ alpha (px[i]) = highest alpha px) :
    (decodeBc3Alpha (encodeBc3Alpha px) i : Int) = alpha (px[i]) := by
  obtain ⟨amin, amax, hlow, hhigh, hle, hmax⟩ := alpha_ends px
  rcases Nat.eq_or_lt_of_le hle with rfl | hlt
  · rw [decodeBc3Alpha_equal hlow hhigh hmax]
    omega
  · have hfirst : (alphaPalette amax amin).getD 0 0 = amax := rfl
    have hsecond : (alphaPalette amax amin).getD 1 0 = amin := rfl
    have hnear0 := decodeBc3Alpha_nearest hlow hhigh hlt hmax hi (by decide : 0 < 8)
    have hnear1 := decodeBc3Alpha_nearest hlow hhigh hlt hmax hi (by decide : 1 < 8)
    rw [hfirst] at hnear0
    rw [hsecond] at hnear1
    omega

end Decoding

/-- `encode_bc3_alpha` changes the alpha of no pixel by more than half of the seventh part, rounded
up, of a range that all alphas lie in; and where they take two values only, it changes none. -/
theorem encode_bc3_alpha_error (px : Pixels) {lo hi : Int}
    (hrange : ∀ p ∈ px.toList, lo ≤ alpha p ∧ alpha p ≤ hi) :
    (∀ i (hi' : i < 16), 2 * |(decodeBc3Alpha (encodeBc3Alpha px) i : Int) - alpha (px[i])| ≤
      (hi - lo + 6) / 7) ∧
    ((∀ p ∈ px.toList, alpha p = lo ∨ alpha p = hi) → ∀ i (hi' : i < 16),
      (decodeBc3Alpha (encodeBc3Alpha px) i : Int) = alpha (px[i])) := by
  obtain ⟨amin, amax, hlow, hhigh, hle, hmax⟩ := alpha_ends px
  obtain ⟨hall, p, hp, hpeq⟩ := @lowest_spec alpha px fun p => (alpha_bounds p).2
  obtain ⟨hall', p', hp', hpeq'⟩ := @highest_spec alpha px fun p => (alpha_bounds p).1
  refine ⟨fun i hi' => ?_, fun htwo i hi' => ?_⟩
  · have hmem := pixel_mem px hi'
    have hlo : lo ≤ lowest alpha px := hpeq ▸ (hrange p hp).1
    have hhi : highest alpha px ≤ hi := hpeq' ▸ (hrange p' hp').2
    have hbelow := hall _ hmem
    have habove := hall' _ hmem
    rcases Nat.eq_or_lt_of_le hle with rfl | hlt
    · have hend : alpha (px[i]) = lowest alpha px := by omega
      rw [decodeBc3Alpha_end hi' (.inl hend), Int.sub_self, abs_zero]
      omega
    · obtain ⟨q, hq, hnear⟩ := exists_near_entry (a := (alpha (px[i])).toNat)
        (by omega : amin ≤ _) (by omega : _ ≤ amax)
      have hnearest := decodeBc3Alpha_nearest hlow hhigh hlt hmax hi' hq
      rw [Int.toNat_of_nonneg (alpha_bounds _).1] at hnear
      rw [Int.abs_eq_natAbs]
      omega
  · have hmem := pixel_mem px hi'
    refine decodeBc3Alpha_end hi' ?_
    have hbelow := hall _ hmem
    have habove := hall' _ hmem
    have h1 := htwo _ hmem
    have h2 := htwo p hp
    have h3 := htwo p' hp'
    omega

/-- A block whose pixels have the alphas 100 and 0 in turn. -/
def twoAlphas : Pixels := Vector.ofFn fun k => if k.val % 2 = 0 then 0x64000000 else 0

theorem mem_twoAlphas {p : UInt32} (h : p ∈ twoAlphas.toList) : p = 0x64000000 ∨ p = 0 := by
  rw [Vector.mem_toList_iff] at h
  obtain ⟨k, hk, rfl⟩ := Vector.mem_iff_getElem.1 h
  unfold twoAlphas
  rw [Vector.getElem_ofFn]
  split
  · exact .inl rfl
  · exact .inr rfl

theorem encode_bc3_alpha_error_two :
    (∀ p ∈ twoAlphas.toList, alpha p = 0 ∨ alpha p = 100) ∧
    2 * |(decodeBc3Alpha (encodeBc3Alpha twoAlphas) 1 : Int) - alpha (twoAlphas[1])| ≤ 15 ∧
    (decodeBc3Alpha (encodeBc3Alpha twoAlphas) 0 : Int) = alpha (twoAlphas[0]) := by
  have hrange : ∀ p ∈ twoAlphas.toList, 0 ≤ alpha p ∧ alpha p ≤ 100 := by
    intro p hp
    rcases mem_twoAlphas hp with rfl | rfl <;> decide
  have htwo : ∀ p ∈ twoAlphas.toList, alpha p = 0 ∨ alpha p = 100 := by
    intro p hp
    rcases mem_twoAlphas hp with rfl | rfl <;> decide
  obtain ⟨herror, hexact⟩ := encode_bc3_alpha_error twoAlphas hrange
  exact ⟨htwo, herror 1 (by decide), hexact htwo 0 (by decide)⟩

end Asnx.Textures
