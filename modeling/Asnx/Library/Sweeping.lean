import Mathlib.Data.List.Basic

/-!
# Sweeps over a list

A loop that goes through the positions of a list and reports the stretches of positions that hold
one value. Each position with the value lies in exactly one of the stretches, and no other position
lies in any (`countP_sweep`).
-/

namespace Asnx.Sweeping

/-- The positions from `first` on that are less than `last`. -/
structure Stretch where
  first : Nat
  last : Nat
  deriving DecidableEq, Repr

/-- A position lies in a stretch. -/
def Stretch.has (s : Stretch) (q : Nat) : Bool := s.first ≤ q && q < s.last

variable {α : Type*} [DecidableEq α]

/-- The first position from `e` on that does not hold the value. -/
def runEnd (x : List α) (want : α) (e : Nat) : Nat :=
  if e < x.length ∧ x[e]? = some want then runEnd x want (e + 1) else e
termination_by x.length - e

variable {x : List α} {want : α} {p q e : Nat}

theorem le_runEnd : e ≤ runEnd x want e := by
  fun_induction runEnd x want e with
  | case1 e hwant ih => exact Nat.le_trans (Nat.le_succ e) ih
  | case2 e hwant => exact Nat.le_refl _

/-- The stretches from position `p` on that hold the value. -/
def sweep (x : List α) (want : α) (p : Nat) : List Stretch :=
  if p < x.length then
    if x[p]? ≠ some want then sweep x want (p + 1)
    else ⟨p, runEnd x want (p + 1)⟩ :: sweep x want (runEnd x want (p + 1))
  else []
termination_by x.length - p
decreasing_by
  · omega
  · have hle : p + 1 ≤ runEnd x want (p + 1) := le_runEnd
    omega

theorem runEnd_le (h : e ≤ x.length) : runEnd x want e ≤ x.length := by
  fun_induction runEnd x want e with
  | case1 e hwant ih => exact ih hwant.1
  | case2 e hwant => exact h

/-- The positions up to the end of a run hold the value. -/
theorem getElem?_of_lt_runEnd (hle : e ≤ q) (hlt : q < runEnd x want e) : x[q]? = some want := by
  fun_induction runEnd x want e with
  | case1 e hwant ih =>
      rcases Nat.eq_or_lt_of_le hle with rfl | hlt'
      · exact hwant.2
      · exact ih hlt' hlt
  | case2 e hwant => exact absurd (Nat.lt_of_le_of_lt hle hlt) (Nat.lt_irrefl e)

/-- A sweep reports stretches of the list that are not empty. -/
theorem bounds_of_mem_sweep {s : Stretch} (h : s ∈ sweep x want p) :
    s.first < s.last ∧ s.last ≤ x.length := by
  fun_induction sweep x want p with
  | case1 p hlt hwant ih => exact ih h
  | case2 p hlt hwant ih =>
      rcases List.mem_cons.1 h with rfl | h
      · exact ⟨le_runEnd, runEnd_le hlt⟩
      · exact ih h
  | case3 p hge => exact absurd h List.not_mem_nil

/-- The number of reported stretches that a position lies in: one for a position behind the start
that holds the value, none for any other. -/
theorem countP_sweep (q : Nat) :
    (sweep x want p).countP (fun s => s.has q) = if p ≤ q ∧ x[q]? = some want then 1 else 0 := by
  fun_induction sweep x want p with
  | case1 p hlt hwant ih =>
      rw [ih]
      refine if_congr ⟨fun h => ⟨Nat.le_trans (Nat.le_succ p) h.1, h.2⟩, fun h => ⟨?_, h.2⟩⟩ rfl rfl
      refine Nat.lt_of_le_of_ne h.1 ?_
      rintro rfl
      exact hwant h.2
  | case2 p hlt hwant ih =>
      have hrun : p + 1 ≤ runEnd x want (p + 1) := le_runEnd
      have hhead : x[p]? = some want := not_not.1 hwant
      rw [List.countP_cons, ih]
      by_cases hin : p ≤ q ∧ q < runEnd x want (p + 1)
      case pos =>
        have hvalue : x[q]? = some want := by
          rcases Nat.eq_or_lt_of_le hin.1 with rfl | hlt'
          · exact hhead
          · exact getElem?_of_lt_runEnd hlt' hin.2
        have hhas : Stretch.has ⟨p, runEnd x want (p + 1)⟩ q = true := by
          simpa [Stretch.has] using hin
        rw [if_neg fun h => absurd hin.2 (Nat.not_lt.2 h.1), if_pos hhas, if_pos ⟨hin.1, hvalue⟩]
      case neg =>
        have hhas : ¬ Stretch.has ⟨p, runEnd x want (p + 1)⟩ q = true := by
          simpa [Stretch.has] using hin
        rw [if_neg hhas, Nat.add_zero]
        refine if_congr ⟨fun h => ⟨by omega, h.2⟩, fun h => ⟨by omega, h.2⟩⟩ rfl rfl
  | case3 p hge =>
      rw [List.countP_nil, if_neg]
      rintro ⟨hle, hvalue⟩
      rw [List.getElem?_eq_none (by omega)] at hvalue
      exact Option.some_ne_none _ hvalue.symm

end Asnx.Sweeping
