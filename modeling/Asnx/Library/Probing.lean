import Mathlib.Logic.Function.Basic

/-!
# Tables with open addressing

A key is looked for at a sequence of places, up to the first place that is free or holds it, and is
entered at that free place. Keys are not taken out again. Then every key in the table is found
(`Findable`), which entering one more key keeps.
-/

namespace Asnx.Probing

variable {ι κ : Type*} [DecidableEq κ]

/-- What a search ends with. -/
inductive Probe (ι : Type*) where
  | hit (i : ι)
  | free (i : ι)
  | full
  deriving DecidableEq

/-- Look for a key at the places `place p`, `place (p + 1)`, …, at most `left` of them. -/
def probe (table : ι → Option κ) (key : κ) (place : Nat → ι) : Nat → Nat → Probe ι
  | 0, _ => .full
  | left + 1, p =>
      match table (place p) with
      | some k => if k = key then .hit (place p) else probe table key place left (p + 1)
      | none => .free (place p)

variable {table : ι → Option κ} {key key' : κ} {place : Nat → ι} {left p : Nat} {i j : ι}

/-- A key is at the place where it is found. -/
theorem probe_hit (h : probe table key place left p = .hit i) : table i = some key := by
  induction left generalizing p with
  | zero => cases h
  | succ left ih =>
      rw [probe] at h
      split at h
      · rename_i k hk
        split at h
        · rename_i heq
          cases h
          rw [hk, heq]
        · exact ih h
      · cases h

/-- A free place that is found is free. -/
theorem probe_free (h : probe table key place left p = .free i) : table i = none := by
  induction left generalizing p with
  | zero => cases h
  | succ left ih =>
      rw [probe] at h
      split at h
      · split at h
        · cases h
        · exact ih h
      · rename_i hnone
        cases h
        exact hnone

/-- A search that finds neither has gone past all places, which hold other keys. -/
theorem probe_full (h : probe table key place left p = .full) {k : Nat} (hk : k < left) :
    ∃ other, other ≠ key ∧ table (place (p + k)) = some other := by
  induction left generalizing p k with
  | zero => exact absurd hk (Nat.not_lt_zero k)
  | succ left ih =>
      rw [probe] at h
      split at h
      · rename_i other hother
        split at h
        · cases h
        · rename_i hne
          cases k with
          | zero => exact ⟨other, hne, hother⟩
          | succ k =>
              rw [Nat.add_succ, ← Nat.succ_add]
              exact ih h (Nat.lt_of_succ_lt_succ hk)
      · cases h

variable [DecidableEq ι]

/-- A key is still found after another one has been entered at a free place. -/
theorem probe_update_hit (hfree : table j = none) (h : probe table key place left p = .hit i) :
    probe (Function.update table j (some key')) key place left p = .hit i := by
  induction left generalizing p with
  | zero => cases h
  | succ left ih =>
      rw [probe] at h ⊢
      by_cases hj : place p = j
      · rw [hj, hfree] at h
        cases h
      · rw [Function.update_of_ne hj]
        split at h
        · split at h
          · rename_i heq
            rw [if_pos heq]
            exact h
          · rename_i hne
            rw [if_neg hne]
            exact ih h
        · cases h

/-- A key is found where it has been entered. -/
theorem probe_update_free (h : probe table key place left p = .free j) :
    probe (Function.update table j (some key)) key place left p = .hit j := by
  induction left generalizing p with
  | zero => cases h
  | succ left ih =>
      have hnone := probe_free h
      rw [probe] at h ⊢
      split at h
      · rename_i k hk
        have hj : place p ≠ j := by
          rintro rfl
          rw [hnone] at hk
          cases hk
        split at h
        · cases h
        · rename_i hne
          rw [Function.update_of_ne hj, hk]
          show (if k = key then _ else _) = _
          rw [if_neg hne]
          exact ih h
      · cases h
        rw [Function.update_self]
        exact if_pos rfl

/-- Every key in the table is found, at the places that belong to it. -/
def Findable (table : ι → Option κ) (place : κ → Nat → ι) (size : Nat) : Prop :=
  ∀ i key, table i = some key → probe table key (place key) size 0 = .hit i

omit [DecidableEq ι] in
/-- A key is at one place only. -/
theorem Findable.unique {place : κ → Nat → ι} {size : Nat} (h : Findable table place size)
    (hi : table i = some key) (hj : table j = some key) : i = j := by
  have hhit := (h i key hi).symm.trans (h j key hj)
  cases hhit
  rfl

/-- Entering a key keeps all keys findable. -/
theorem Findable.enter {place : κ → Nat → ι} {size : Nat} (h : Findable table place size)
    (hfree : probe table key (place key) size 0 = .free j) :
    Findable (Function.update table j (some key)) place size := by
  intro i k hk
  by_cases hij : i = j
  · subst hij
    rw [Function.update_self] at hk
    cases hk
    exact probe_update_free hfree
  · rw [Function.update_of_ne hij] at hk
    exact probe_update_hit (probe_free hfree) (h i k hk)

omit [DecidableEq ι] in
/-- A key that is not found is not in the table. -/
theorem Findable.absent {place : κ → Nat → ι} {size : Nat} (h : Findable table place size)
    (hmiss : ∀ i, probe table key (place key) size 0 ≠ .hit i) (i : ι) : table i ≠ some key :=
  fun hi => hmiss i (h i key hi)

end Asnx.Probing
