import Mathlib.Order.Basic

/-!
# Divisions with a carried remainder

A quantity `a` is divided by `d` again and again, and each division carries its remainder into the
next one. Nothing is lost: after `n` divisions the quotients add up to `n * a / d`, and the
remainder is `n * a % d`.
-/

namespace Asnx.Carry

variable {a d : Nat}

/-- The remainder after one more division. -/
theorem mod_succ (n : Nat) : (a + n * a % d) % d = (n + 1) * a % d := by
  rw [Nat.add_mod_mod, Nat.succ_mul, Nat.add_comm]

/-- The quotients after one more division. -/
theorem div_succ (hd : 0 < d) (n : Nat) : n * a / d + (a + n * a % d) / d = (n + 1) * a / d := by
  have hsplit : (n + 1) * a = a + n * a % d + d * (n * a / d) := by
    have := Nat.mod_add_div (n * a) d
    rw [Nat.succ_mul]
    omega
  rw [hsplit, Nat.add_mul_div_left _ _ hd, Nat.add_comm]

/-- A quotient with a carried remainder is at most the quotient that is rounded up. -/
theorem div_le_ceil {r : Nat} (hr : r < d) : (a + r) / d ≤ (a + d - 1) / d :=
  Nat.div_le_div_right (by omega)

/-- How far the quotient of a sum is above the quotient of a summand. -/
theorem add_div_le (hd : 0 < d) (y r : Nat) : (y + r) / d ≤ y / d + (r + d - 1) / d := by
  have hy := Nat.lt_div_mul_add (a := y) hd
  have hr := Nat.lt_div_mul_add (a := r + d - 1) hd
  refine Nat.lt_succ_iff.1 ((Nat.div_lt_iff_lt_mul hd).2 ?_)
  rw [Nat.succ_mul, Nat.add_mul]
  omega

end Asnx.Carry
