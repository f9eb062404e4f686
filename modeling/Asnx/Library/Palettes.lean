import Mathlib.Data.List.Basic
import Mathlib.Algebra.Group.Nat.Defs
import Mathlib.Tactic.Ring

/-!
# Indices into palettes

A block of values is encoded by a palette and, for each value, the index of the nearest entry. The
indices lie in fields of a fixed width in one number (`packed`), which is written byte by byte.
-/

namespace Asnx.Palettes

/-! ## The nearest entry -/

/-- The index is the lowest one below `count` at which the distance is least. -/
structure IsNearest (distance : Nat → Int) (count best : Nat) : Prop where
  lt : best < count
  least : ∀ q < count, distance best ≤ distance q
  lowest : ∀ q < best, distance best < distance q

/-- The search that keeps the first of the least distances, below a limit. -/
def nearest (distance : Nat → Int) (count : Nat) (limit : Int) : Nat × Int :=
  (List.range count).foldl (fun best q =>
    if distance q < best.2 then (q, distance q) else best) (0, limit)

theorem nearest_succ (distance : Nat → Int) (count : Nat) (limit : Int) :
    nearest distance (count + 1) limit =
      if distance count < (nearest distance count limit).2 then (count, distance count)
      else nearest distance count limit := by
  unfold nearest
  rw [List.range_succ, List.foldl_append]
  rfl

/-- One more entry. -/
theorem IsNearest.succ {distance : Nat → Int} {count best : Nat}
    (h : IsNearest distance count best) :
    IsNearest distance (count + 1) (if distance count < distance best then count else best) := by
  split
  · rename_i hcloser
    refine ⟨Nat.lt_succ_self count, fun q hq => ?_, fun q hq => ?_⟩
    · rcases Nat.lt_succ_iff_lt_or_eq.1 hq with hq | rfl
      · exact hcloser.le.trans (h.least q hq)
      · exact Int.le_refl _
    · exact Int.lt_of_lt_of_le hcloser (h.least q hq)
  · rename_i hnot
    refine ⟨Nat.lt_succ_of_lt h.lt, fun q hq => ?_, h.lowest⟩
    rcases Nat.lt_succ_iff_lt_or_eq.1 hq with hq | rfl
    · exact h.least q hq
    · exact Int.not_lt.1 hnot

/-- The search finds the nearest entry when some entry is within the limit, by induction on the
number of entries. -/
theorem isNearest_nearest {distance : Nat → Int} {limit : Int} (hlimit : distance 0 < limit)
    (count : Nat) : IsNearest distance (count + 1) (nearest distance (count + 1) limit).1 ∧
      (nearest distance (count + 1) limit).2 =
        distance (nearest distance (count + 1) limit).1 := by
  induction count with
  | zero =>
      have hfirst : nearest distance 1 limit = (0, distance 0) := by
        rw [nearest_succ]
        exact if_pos hlimit
      rw [hfirst]
      refine ⟨⟨Nat.zero_lt_one, fun q hq => ?_, fun q hq => absurd hq (Nat.not_lt_zero q)⟩, rfl⟩
      rw [Nat.lt_one_iff.1 hq]
  | succ count ih =>
      obtain ⟨hnearest, hdistance⟩ := ih
      rw [nearest_succ, hdistance]
      have hstep := hnearest.succ
      split
      · rename_i hcloser
        rw [if_pos hcloser] at hstep
        exact ⟨hstep, rfl⟩
      · rename_i hnot
        rw [if_neg hnot] at hstep
        exact ⟨hstep, hdistance⟩

/-! ## Fields of a number -/

/-- The fields `field 0`, `field 1` and so on, of `width` bits each, from the lowest bit on. -/
def packed (width : Nat) (field : Nat → Nat) (count : Nat) : Nat :=
  (List.range count).foldl (fun bits i => bits ||| field i <<< (width * i)) 0

section Fields

variable {width : Nat} {field : Nat → Nat} {count : Nat}

theorem packed_succ (width : Nat) (field : Nat → Nat) (count : Nat) :
    packed width field (count + 1) = packed width field count ||| field count <<<
      (width * count) := by
  unfold packed
  rw [List.range_succ, List.foldl_append]
  rfl

/-- The fields fill the number and nothing else, by induction on their number. -/
theorem packed_lt (h : ∀ i < count, field i < 2 ^ width) :
    packed width field count < 2 ^ (width * count) := by
  induction count with
  | zero => exact Nat.pow_pos Nat.two_pos
  | succ count ih =>
      rw [packed_succ]
      have hlow : packed width field count < 2 ^ (width * (count + 1)) :=
        (ih fun i hi => h i (Nat.lt_succ_of_lt hi)).trans_le
          (Nat.pow_le_pow_right Nat.two_pos (Nat.mul_le_mul_left _ (Nat.le_succ _)))
      refine Nat.or_lt_two_pow hlow ?_
      rw [Nat.shiftLeft_eq, Nat.mul_succ, Nat.pow_add, Nat.mul_comm (2 ^ _)]
      exact Nat.mul_lt_mul_of_pos_right (h count (Nat.lt_succ_self _)) (Nat.pow_pos Nat.two_pos)

theorem packed_succ_eq_add (h : ∀ i < count, field i < 2 ^ width) :
    packed width field (count + 1) =
      field count * 2 ^ (width * count) + packed width field count := by
  rw [packed_succ, Nat.or_comm, ← Nat.shiftLeft_add_eq_or_of_lt (packed_lt h), Nat.shiftLeft_eq]

/-- A field reads back. -/
theorem packed_field (h : ∀ i < count, field i < 2 ^ width) {i : Nat} (hi : i < count) :
    packed width field count >>> (width * i) % 2 ^ width = field i := by
  induction count with
  | zero => exact absurd hi (Nat.not_lt_zero i)
  | succ count ih =>
      have hlow : ∀ i < count, field i < 2 ^ width := fun i hi => h i (Nat.lt_succ_of_lt hi)
      rw [packed_succ_eq_add hlow, Nat.shiftRight_eq_div_pow]
      rcases Nat.lt_succ_iff_lt_or_eq.1 hi with hi | rfl
      · -- the new field lies above the one that is read
        obtain ⟨k, rfl⟩ := Nat.exists_eq_add_of_lt hi
        have habove : field (i + k + 1) * 2 ^ (width * (i + k + 1)) =
            2 ^ (width * i) * (2 ^ width * (2 ^ (width * k) * field (i + k + 1))) := by
          rw [Nat.mul_succ, Nat.mul_add, Nat.pow_add, Nat.pow_add]
          ring
        have hread := ih hlow hi
        rw [Nat.shiftRight_eq_div_pow] at hread
        rw [habove, Nat.mul_add_div (Nat.pow_pos Nat.two_pos), Nat.mul_add_mod, hread]
      · rw [Nat.mul_comm (field i), Nat.mul_add_div (Nat.pow_pos Nat.two_pos),
          Nat.div_eq_of_lt (packed_lt hlow), Nat.add_zero,
          Nat.mod_eq_of_lt (h i (Nat.lt_succ_self i))]

end Fields

/-! ## Bytes of a number -/

/-- The number that the bytes spell, the lowest one first. -/
def ofBytes : List UInt8 → Nat
  | [] => 0
  | b :: bs => b.toNat + 256 * ofBytes bs

/-- The bytes of a number spell what fits in them. -/
theorem ofBytes_map_shiftRight (count v : Nat) :
    ofBytes ((List.range count).map fun i => UInt8.ofNat (v >>> (8 * i))) = v % 256 ^ count := by
  induction count generalizing v with
  | zero => rw [Nat.pow_zero, Nat.mod_one]; rfl
  | succ count ih =>
      have hshift : ∀ i, v >>> (8 * (i + 1)) = (v / 256) >>> (8 * i) := by
        intro i
        rw [Nat.shiftRight_eq_div_pow, Nat.shiftRight_eq_div_pow, Nat.div_div_eq_div_mul,
          Nat.mul_succ, Nat.pow_add, Nat.mul_comm (2 ^ (8 * i))]
      rw [List.range_succ_eq_map, List.map_cons, List.map_map]
      show (UInt8.ofNat v).toNat + 256 * ofBytes ((List.range count).map fun i =>
        UInt8.ofNat (v >>> (8 * (i + 1)))) = _
      simp only [hshift]
      rw [ih, Nat.pow_succ', Nat.mod_mul, UInt8.toNat_ofNat']

end Asnx.Palettes
