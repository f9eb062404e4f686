import Mathlib.Algebra.BigOperators.Group.Finset.Basic

/-!
# What threads have in hand

What the places of the threads say about what they hold: a lock that exactly one of them has
(`Held`), resources that no two of them have (`Distinct`), and numbers that they all together have
(`Summed`). Each comes with what one thread's next place does to it.
-/

namespace Asnx.Holding

variable {T I P : Type*} [DecidableEq T]

/-! ## Locks -/

/-- The lock is held by the thread whose place says so, and by no other. -/
def Held (lock : Option T) (holds : T → Bool) : Prop := ∀ t, lock = some t ↔ holds t = true

variable {lock : Option T} {f : P → Bool} {at' : T → P} {t u : T} {p : P}

/-- A thread that neither takes the lock nor lets go of it. -/
theorem Held.keep (h : Held lock fun u => f (at' u)) (hp : f p = f (at' t)) :
    Held lock fun u => f (Function.update at' t p u) := by
  intro u
  by_cases hu : u = t
  · subst hu
    simp only [Function.update_self, hp]
    exact h u
  · simp only [Function.update_of_ne hu]
    exact h u

/-- A thread takes the lock that nobody has. -/
theorem Held.take (h : Held none fun u => f (at' u)) (hp : f p = true) :
    Held (some t) fun u => f (Function.update at' t p u) := by
  intro u
  by_cases hu : u = t
  · subst hu
    simp [hp]
  · have hfree : f (at' u) = false := by simpa using (h u).not.1 nofun
    simp [Function.update_of_ne hu, hfree, Ne.symm hu]

/-- The thread that has the lock lets go of it. -/
theorem Held.free (h : Held lock fun u => f (at' u)) (ht : f (at' t) = true) (hp : f p = false) :
    Held none fun u => f (Function.update at' t p u) := by
  intro u
  by_cases hu : u = t
  · subst hu
    simp [hp]
  · have hfree : f (at' u) ≠ true := by
      intro hholds
      have hlock := (h u).2 hholds
      rw [(h t).2 ht] at hlock
      exact hu (Option.some.inj hlock).symm
    simpa [Function.update_of_ne hu] using hfree

omit [DecidableEq T] in
/-- No two threads hold the lock. -/
theorem Held.unique {holds : T → Bool} (h : Held lock holds) (ht : holds t = true)
    (hu : holds u = true) : t = u :=
  Option.some.inj (((h t).2 ht).symm.trans ((h u).2 hu))

/-! ## Resources -/

/-- No two threads have the same resource in hand. -/
def Distinct (hand : T → Option I) : Prop := ∀ t u i, hand t = some i → hand u = some i → t = u

variable {g : P → Option I}

/-- A thread gets a resource that no other has, or has none afterwards. -/
theorem Distinct.update (h : Distinct fun u => g (at' u))
    (hp : ∀ i, g p = some i → ∀ u, u ≠ t → g (at' u) ≠ some i) :
    Distinct fun u => g (Function.update at' t p u) := by
  intro u v i hu hv
  by_cases hut : u = t <;> by_cases hvt : v = t
  · exact hut.trans hvt.symm
  · subst hut
    simp only [Function.update_self, Function.update_of_ne hvt] at hu hv
    exact absurd hv (hp i hu v hvt)
  · subst hvt
    simp only [Function.update_self, Function.update_of_ne hut] at hu hv
    exact absurd hu (hp i hv u hut)
  · simp only [Function.update_of_ne hut, Function.update_of_ne hvt] at hu hv
    exact h u v i hu hv

/-- A thread that gets nothing new. -/
theorem Distinct.keep (h : Distinct fun u => g (at' u)) (hp : g p = g (at' t) ∨ g p = none) :
    Distinct fun u => g (Function.update at' t p u) := by
  refine h.update ?_
  rintro i hi u hu hui
  rcases hp with hp | hp
  · rw [hp] at hi
    exact hu (h u t i hui hi)
  · rw [hp] at hi
    cases hi

/-! ## Numbers -/

/-- What the threads have, which is nothing for all but some of them, comes to `n`. -/
def Summed (has : T → Nat) (n : Nat) : Prop :=
  ∃ S : Finset T, (∀ t, t ∉ S → has t = 0) ∧ ∑ t ∈ S, has t = n

omit [DecidableEq T] in
/-- Nobody has anything. -/
theorem summed_zero {has : T → Nat} (h : ∀ t, has t = 0) : Summed has 0 :=
  ⟨∅, fun t _ => h t, Finset.sum_empty⟩

omit [DecidableEq T] in
/-- Where nobody has anything it comes to 0. -/
theorem Summed.eq_zero {has : T → Nat} {n : Nat} (h : Summed has n) (hnone : ∀ t, has t = 0) :
    n = 0 := by
  obtain ⟨S, -, rfl⟩ := h
  exact Finset.sum_eq_zero fun t _ => hnone t

/-- The sum changes by what one thread has more or less than before. -/
theorem Summed.update {w : P → Nat} {n : Nat} (h : Summed (fun u => w (at' u)) n) (t : T) (p : P) :
    ∃ m, Summed (fun u => w (Function.update at' t p u)) m ∧ m + w (at' t) = n + w p := by
  obtain ⟨S, hS, rfl⟩ := h
  dsimp only at hS ⊢
  have hmem : t ∈ insert t S := Finset.mem_insert_self t S
  have hgrown : ∑ u ∈ insert t S, w (at' u) = ∑ u ∈ S, w (at' u) := by
    by_cases ht : t ∈ S
    · rw [Finset.insert_eq_of_mem ht]
    · rw [Finset.sum_insert ht, hS t ht, Nat.zero_add]
  have hothers : ∑ u ∈ (insert t S).erase t, w (Function.update at' t p u) =
      ∑ u ∈ (insert t S).erase t, w (at' u) := by
    refine Finset.sum_congr rfl fun u hu => ?_
    rw [Function.update_of_ne (Finset.ne_of_mem_erase hu)]
  refine ⟨_, ⟨insert t S, fun u hu => ?_, rfl⟩, ?_⟩
  · rw [Finset.mem_insert, not_or] at hu
    dsimp only
    rw [Function.update_of_ne hu.1]
    exact hS u hu.2
  · have hafter := Finset.add_sum_erase (insert t S) (fun u => w (Function.update at' t p u)) hmem
    have hbefore := Finset.add_sum_erase (insert t S) (fun u => w (at' u)) hmem
    rw [hothers] at hafter
    rw [hgrown] at hbefore
    simp only [Function.update_self] at hafter
    dsimp only
    omega

end Asnx.Holding
