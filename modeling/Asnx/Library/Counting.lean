import Mathlib.Algebra.BigOperators.Fin

/-!
# Counting the entries of a table

`count f P` is the number of entries of the finite table `f` that satisfy `P`. Writing one entry
of a table changes a sum over the table, and so a count, by the difference at that entry.
-/

namespace Asnx.Counting

variable {ι α : Type*} [Fintype ι] [DecidableEq ι]

/-- Writing one summand changes a sum by the difference. -/
theorem sum_update (f : ι → Nat) (i : ι) (n : Nat) :
    (∑ j, Function.update f i n j) + f i = (∑ j, f j) + n := by
  rw [Finset.sum_update_of_mem (Finset.mem_univ i), ← Finset.erase_eq,
    ← Finset.add_sum_erase Finset.univ f (Finset.mem_univ i)]
  omega

/-- Writing one entry of a table changes a sum over the table by the difference. -/
theorem sum_map_update (f : ι → α) (g : α → Nat) (i : ι) (a : α) :
    (∑ j, g (Function.update f i a j)) + g (f i) = (∑ j, g (f j)) + g a := by
  have hupdate : ∀ j, g (Function.update f i a j) = Function.update (fun j => g (f j)) i (g a) j :=
    fun j => Function.apply_update (fun _ => g) f i a j
  simp only [hupdate]
  exact sum_update _ i _

/-- One summand is at most the sum. -/
theorem le_sum (f : ι → Nat) (i : ι) : f i ≤ ∑ j, f j := by
  rw [← Finset.add_sum_erase Finset.univ f (Finset.mem_univ i)]
  exact Nat.le_add_right _ _

/-- The number of entries that satisfy `P`. -/
def count (f : ι → α) (P : α → Prop) [DecidablePred P] : Nat := ∑ i, if P (f i) then 1 else 0

/-- Writing one entry changes the count by the difference at that entry. -/
theorem count_update (f : ι → α) (P : α → Prop) [DecidablePred P] (i : ι) (a : α) :
    count (Function.update f i a) P + (if P (f i) then 1 else 0) =
      count f P + if P a then 1 else 0 :=
  sum_map_update f (fun a => if P a then 1 else 0) i a

omit [DecidableEq ι] in
/-- Nothing is counted when no entry satisfies `P`. -/
theorem count_eq_zero (f : ι → α) (P : α → Prop) [DecidablePred P] (h : ∀ i, ¬ P (f i)) :
    count f P = 0 :=
  Finset.sum_eq_zero fun i _ => if_neg (h i)

/-- An entry that satisfies `P` is counted. -/
theorem count_pos {f : ι → α} {P : α → Prop} [DecidablePred P] {i : ι} (h : P (f i)) :
    0 < count f P := by
  have hle := le_sum (fun j => if P (f j) then 1 else 0) i
  rw [if_pos h] at hle
  exact hle

omit [DecidableEq ι] in
/-- The count is the number of indices in the usual sense. -/
theorem count_eq_card (f : ι → α) (P : α → Prop) [DecidablePred P] :
    count f P = (Finset.univ.filter fun i => P (f i)).card := by
  rw [Finset.card_filter]
  rfl

end Asnx.Counting
