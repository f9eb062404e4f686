import Mathlib.Algebra.Group.Nat.Defs
import Mathlib.Data.Set.Lattice
import Mathlib.Data.Set.SymmDiff
import Mathlib.Order.Interval.Set.Basic
import Mathlib.Order.CompletePartialOrder
import Mathlib.Order.ConditionallyCompleteLattice.Basic

/-!
# Bit vectors as sets of bit positions

`bits v` is the set of positions at which `v` has a one. The lemmas turn the bitwise
operations of a bitmap allocator into operations on sets.
-/

namespace Asnx.Bits

variable {w : Nat}

/-- The positions of the ones of `v`. -/
def bits (v : BitVec w) : Set Nat := {k | v.getLsbD k = true}

@[simp] theorem mem_bits {v : BitVec w} {k : Nat} : k ∈ bits v ↔ v.getLsbD k = true := Iff.rfl

@[simp] theorem bits_zero : bits (0#w) = ∅ := by
  ext k
  simp

@[simp] theorem bits_or (u v : BitVec w) : bits (u ||| v) = bits u ∪ bits v := by
  ext k
  simp

/-- Clearing the ones of `v` removes its positions. -/
@[simp] theorem bits_and_not (u v : BitVec w) : bits (u &&& ~~~v) = bits u \ bits v := by
  ext k
  simp only [mem_bits, BitVec.getLsbD_and, BitVec.getLsbD_not, Bool.and_eq_true, decide_eq_true_eq,
    Bool.not_eq_true', Set.mem_sdiff, Bool.not_eq_true]
  exact ⟨fun h => ⟨h.1, h.2.2⟩, fun h => ⟨h.1, BitVec.lt_of_getLsbD h.1, h.2⟩⟩

/-- Toggling the ones of `v`. -/
@[simp] theorem bits_xor (u v : BitVec w) : bits (u ^^^ v) = symmDiff (bits u) (bits v) := by
  ext k
  simp only [mem_bits, BitVec.getLsbD_xor, Set.mem_symmDiff]
  cases u.getLsbD k <;> cases v.getLsbD k <;> simp

/-- Two bit vectors have no common one exactly when their conjunction is zero. -/
theorem and_eq_zero_iff {u v : BitVec w} : u &&& v = 0#w ↔ Disjoint (bits u) (bits v) := by
  rw [Set.disjoint_left]
  constructor
  · intro h k hu hv
    have hk : (u &&& v).getLsbD k = true := by
      rw [BitVec.getLsbD_and, mem_bits.1 hu, mem_bits.1 hv]
      rfl
    simp [h] at hk
  · intro h
    apply BitVec.eq_of_getLsbD_eq
    intro k _
    rw [BitVec.getLsbD_and, BitVec.getLsbD_zero]
    by_contra hk
    simp only [Bool.not_eq_false, Bool.and_eq_true] at hk
    exact h hk.1 hk.2

/-- Equal positions make equal bit vectors. -/
theorem eq_of_bits_eq {u v : BitVec w} (h : bits u = bits v) : u = v := by
  apply BitVec.eq_of_getLsbD_eq
  intro k _
  exact Bool.eq_iff_iff.2 (Set.ext_iff.1 h k)

/-- `(1 << count) - 1` has exactly its low `count` bits set. -/
theorem getLsbD_one_shiftLeft_sub_one {count : Nat} (h : count ≤ w) (k : Nat) :
    (1#w <<< count - 1#w).getLsbD k = decide (k < count) := by
  rcases Nat.eq_or_lt_of_le h with rfl | hlt
  · rw [BitVec.shiftLeft_eq_zero (Nat.le_refl _), BitVec.zero_sub, BitVec.neg_one_eq_allOnes,
      BitVec.getLsbD_allOnes]
  · have hpow : 2 ^ count < 2 ^ w := Nat.pow_lt_pow_right (by omega) hlt
    have hpos : 0 < 2 ^ count := Nat.two_pow_pos _
    have hone : (1#w).toNat = 1 := by
      rw [BitVec.toNat_ofNat]
      exact Nat.mod_eq_of_lt (by omega)
    have hnat : (1#w <<< count - 1#w).toNat = 2 ^ count - 1 := by
      rw [BitVec.toNat_sub, BitVec.toNat_shiftLeft, hone, Nat.shiftLeft_eq, Nat.one_mul,
        Nat.mod_eq_of_lt hpow,
        show 2 ^ w - 1 + 2 ^ count = (2 ^ count - 1) + 2 ^ w by omega, Nat.add_mod_right,
        Nat.mod_eq_of_lt (by omega)]
    rw [← BitVec.testBit_toNat, hnat, Nat.testBit_two_pow_sub_one]

/-- A run of `count` ones starting at position `first`. -/
theorem bits_run {first count : Nat} (h : first + count ≤ w) :
    bits ((1#w <<< count - 1#w) <<< first) = Set.Ico first (first + count) := by
  ext k
  rw [mem_bits, BitVec.getLsbD_shiftLeft, getLsbD_one_shiftLeft_sub_one (by omega)]
  simp only [Bool.and_eq_true, decide_eq_true_eq, Bool.not_eq_true', decide_eq_false_iff_not,
    Set.mem_Ico]
  omega

/-! ## Counting ones -/

theorem getLsbD_of_cpopNatRec {v : BitVec w} {n : Nat} (h : v.cpopNatRec n 0 = 0) : ∀ k < n,
    v.getLsbD k = false := by
  induction n with
  | zero => exact fun k hk => absurd hk (Nat.not_lt_zero k)
  | succ n ih =>
      rw [BitVec.cpopNatRec_succ, Nat.zero_add, BitVec.cpopNatRec_eq, Nat.add_eq_zero_iff] at h
      intro k hk
      rcases Nat.lt_succ_iff_lt_or_eq.1 hk with hlt | rfl
      · exact ih h.1 k hlt
      · cases hbit : v.getLsbD k with
        | false => rfl
        | true => simp [hbit] at h

/-- What has no ones is zero. -/
theorem eq_zero_of_cpop {v : BitVec w} (h : v.cpop.toNat = 0) : v = 0 := by
  rw [BitVec.toNat_cpop] at h
  refine BitVec.eq_of_getLsbD_eq fun k hk => ?_
  rw [getLsbD_of_cpopNatRec h k hk]
  simp

/-! ## Fields of numbers -/

/-- Masking with `n` ones at position `k`. -/
theorem and_mask (v n k : Nat) : v &&& (2 ^ n - 1) * 2 ^ k = v / 2 ^ k % 2 ^ n * 2 ^ k := by
  apply Nat.eq_of_testBit_eq
  intro i
  rw [Nat.testBit_and, ← Nat.shiftLeft_eq, ← Nat.shiftLeft_eq, Nat.testBit_shiftLeft,
    Nat.testBit_shiftLeft,
    Nat.testBit_two_pow_sub_one, Nat.testBit_mod_two_pow, ← Nat.shiftRight_eq_div_pow,
      Nat.testBit_shiftRight]
  by_cases hk : k ≤ i
  · rw [Nat.add_sub_cancel' hk, decide_eq_true hk, Bool.true_and, Bool.true_and, Bool.and_comm]
  · rw [decide_eq_false hk, Bool.false_and, Bool.false_and, Bool.and_false]

/-- Masking with all ones from position `k` on. -/
theorem toNat_and_high {v mask : BitVec w} {k : Nat} (hk : k ≤ w)
    (hmask : mask.toNat = (2 ^ (w - k) - 1) * 2 ^ k) :
    (v &&& mask).toNat = v.toNat / 2 ^ k * 2 ^ k := by
  have hlt : v.toNat / 2 ^ k < 2 ^ (w - k) := by
    rw [Nat.div_lt_iff_lt_mul (Nat.two_pow_pos k), ← Nat.pow_add, Nat.sub_add_cancel hk]
    exact v.isLt
  rw [BitVec.toNat_and, hmask, and_mask, Nat.mod_eq_of_lt hlt]

end Asnx.Bits
