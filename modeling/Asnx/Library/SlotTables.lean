import Mathlib.Data.Set.Card
import Mathlib.Logic.Function.Basic

/-!
# Tables of a few slots

A table of `n` slots, each with a key and perhaps a value, where a key is entered at the first slot
without a value. `Represents` says that the table is the partial map `m`: forgetting a key takes it
out of the map (`Represents.forget`), and registering it enters it, when there is room for one key
more (`Represents.register`).
-/

namespace Asnx.SlotTables

/-- A slot. -/
structure Entry (κ ν : Type*) where
  key : κ
  value : Option ν

/-- A table. -/
abbrev SlotTable (n : Nat) (κ ν : Type*) := Fin n → Entry κ ν

variable {n : Nat} {κ ν : Type*}

/-- The first slot without a value. -/
def firstFree (t : SlotTable n κ ν) : Option (Fin n) :=
  (List.finRange n).find? fun i => (t i).value.isNone

/-- The table is the partial map `m`, and has no key twice. -/
structure Represents (t : SlotTable n κ ν) (m : κ → Option ν) : Prop where
  holds : ∀ k v, (∃ i, t i = ⟨k, some v⟩) ↔ m k = some v
  once : ∀ i j, (t i).value ≠ none → (t j).value ≠ none → (t i).key = (t j).key → i = j

variable {t : SlotTable n κ ν} {m : κ → Option ν} {unused k : κ} {v : ν} {i : Fin n}

/-- A table without values is the empty map. -/
theorem represents_empty (h : ∀ i, (t i).value = none) : Represents t fun _ => none := by
  refine ⟨fun k v => iff_of_false ?_ nofun, fun i _ hi => absurd (h i) hi⟩
  intro hheld
  obtain ⟨i, hi⟩ := hheld
  have hnone := h i
  rw [hi] at hnone
  cases hnone

/-- What a slot holds the map has. -/
theorem Represents.get (h : Represents t m) (hi : (t i).value = some v) : m (t i).key = some v := by
  refine (h.holds _ _).1 ⟨i, ?_⟩
  rw [← hi]

/-- The keys of the map are those of the slots with a value. -/
theorem Represents.ne_none_iff (h : Represents t m) :
    m k ≠ none ↔ ∃ i, (t i).key = k ∧ (t i).value ≠ none := by
  constructor
  · intro hk
    obtain ⟨v, hv⟩ := Option.ne_none_iff_exists'.1 hk
    obtain ⟨i, hi⟩ := (h.holds k v).2 hv
    exact ⟨i, by rw [hi], by rw [hi]; exact nofun⟩
  · intro hheld
    obtain ⟨i, rfl, hi⟩ := hheld
    obtain ⟨v, hv⟩ := Option.ne_none_iff_exists'.1 hi
    rw [h.get hv]
    exact nofun

/-- The slot that is found has no value. -/
theorem firstFree_eq_some (h : firstFree t = some i) : (t i).value = none := by
  simpa using List.find?_some h

/-- None is found only where every slot has a value. -/
theorem firstFree_eq_none (h : firstFree t = none) (i : Fin n) : (t i).value ≠ none := by
  have hall := List.find?_eq_none.1 h i (List.mem_finRange i)
  simpa using hall

/-- A key that is not in the table has a slot, when there is room for it. -/
theorem Represents.exists_free (h : Represents t m) (hk : m k = none)
    (hroom : (insert k {k' | m k' ≠ none}).encard ≤ n) : ∃ i, firstFree t = some i := by
  by_contra hfull
  have hnone : firstFree t = none := Option.not_isSome_iff_eq_none.1 fun hsome =>
    hfull (Option.isSome_iff_exists.1 hsome)
  have hvalue := firstFree_eq_none hnone
  have hinj : Function.Injective fun i => (t i).key := fun i j hij =>
    h.once i j (hvalue i) (hvalue j) hij
  have hsub : Set.range (fun i => (t i).key) ⊆ {k' | m k' ≠ none} := by
    intro k' hk'
    obtain ⟨i, rfl⟩ := hk'
    obtain ⟨v, hv⟩ := Option.ne_none_iff_exists'.1 (hvalue i)
    show m (t i).key ≠ none
    rw [h.get hv]
    exact nofun
  have hnot : k ∉ Set.range fun i => (t i).key := fun hmem => hsub hmem hk
  have hrange : (n : ℕ∞) ≤ (Set.range fun i => (t i).key).encard := by
    have hle := hinj.encard_range
    rwa [ENat.card_eq_coe_fintype_card, Fintype.card_fin] at hle
  have hcard : (n : ℕ∞) + 1 ≤ n := calc
    (n : ℕ∞) + 1 ≤ (Set.range fun i => (t i).key).encard + 1 := by gcongr
    _ = (insert k (Set.range fun i => (t i).key)).encard := (Set.encard_insert_of_notMem hnot).symm
    _ ≤ (insert k {k' | m k' ≠ none}).encard := Set.encard_le_encard (Set.insert_subset_insert hsub)
    _ ≤ n := hroom
  exact absurd hcard (by norm_cast; omega)

/-! ## Forgetting and registering -/

variable [DecidableEq κ]

/-- The slots with the key `k` are emptied; `unused` is then their key. -/
def forget (unused : κ) (t : SlotTable n κ ν) (k : κ) : SlotTable n κ ν :=
  fun i => if (t i).key = k then ⟨unused, none⟩ else t i

/-- The key is forgotten, and entered at the first slot without a value. -/
def register (unused : κ) (t : SlotTable n κ ν) (k : κ) (v : ν) : SlotTable n κ ν :=
  match firstFree (forget unused t k) with
  | none => forget unused t k
  | some i => Function.update (forget unused t k) i ⟨k, some v⟩

/-- The value in the first slot that has the key and a value. -/
def valueOf (t : SlotTable n κ ν) (k : κ) : Option ν :=
  (List.finRange n).findSome? fun i => if (t i).key = k then (t i).value else none

/-- The slots with a value that are left after `k` has been forgotten. -/
theorem forget_eq_some {k' : κ} : forget unused t k i = ⟨k', some v⟩ ↔
    t i = ⟨k', some v⟩ ∧ k' ≠ k := by
  unfold forget
  constructor
  · intro h
    split at h
    · cases h
    · rename_i hkey
      rw [h] at hkey
      exact ⟨h, hkey⟩
  · intro h
    rw [if_neg (by rw [h.1]; exact h.2)]
    exact h.1

/-- A slot that has a value after `k` has been forgotten had it before, with another key. -/
theorem forget_value (hi : (forget unused t k i).value ≠ none) :
    forget unused t k i = t i ∧ (t i).key ≠ k := by
  unfold forget at hi ⊢
  split at hi
  · exact absurd rfl hi
  · rename_i hkey
    exact ⟨if_neg hkey, hkey⟩

theorem Represents.forget (h : Represents t m) (unused k : κ) :
    Represents (forget unused t k) (Function.update m k none) := by
  refine ⟨fun k' v => ?_, fun i j hi hj hkey => ?_⟩
  · simp only [forget_eq_some, exists_and_right, h.holds]
    by_cases hk : k' = k
    · subst hk
      simp
    · simp [hk]
  · obtain ⟨hi', -⟩ := forget_value hi
    obtain ⟨hj', -⟩ := forget_value hj
    rw [hi', hj'] at hkey
    exact h.once i j (hi' ▸ hi) (hj' ▸ hj) hkey

/-- A slot that loses its value takes its key out of the map. -/
theorem Represents.clear (h : Represents t m) (hi : t i = ⟨k, some v⟩) (unused : κ) :
    Represents (Function.update t i ⟨unused, none⟩) (Function.update m k none) := by
  have heq : Function.update t i ⟨unused, none⟩ = fun j =>
    if j = i then ⟨unused, none⟩ else t j := by
    funext j
    by_cases hj : j = i
    · simp [hj]
    · simp [hj]
  -- no other slot has the key, for each key is there once
  have hother : ∀ j, j ≠ i → (t j).value ≠ none → (t j).key ≠ k := by
    intro j hj hvalue hkey
    exact hj (h.once j i hvalue (by simp [hi]) (by simp [hi, hkey]))
  rw [heq]
  refine ⟨fun k' v' => ?_, fun j j' hj hj' hkey => ?_⟩
  · by_cases hk : k' = k
    · subst hk
      refine iff_of_false ?_ (by simp)
      intro hheld
      obtain ⟨j, hj⟩ := hheld
      split at hj
      · cases hj
      · rename_i hne
        exact hother j hne (by simp [hj]) (by simp [hj])
    · rw [Function.update_of_ne hk, ← h.holds]
      constructor
      · intro hheld
        obtain ⟨j, hj⟩ := hheld
        split at hj
        · cases hj
        · exact ⟨j, hj⟩
      · intro hheld
        obtain ⟨j, hj⟩ := hheld
        have hne : j ≠ i := by
          intro hji
          rw [hji, hi] at hj
          cases hj
          exact hk rfl
        exact ⟨j, by rw [if_neg hne]; exact hj⟩
  · by_cases hji : j = i
    · rw [if_pos hji] at hj
      exact absurd rfl hj
    · by_cases hji' : j' = i
      · rw [if_pos hji'] at hj'
        exact absurd rfl hj'
      · rw [if_neg hji] at hj hkey
        rw [if_neg hji'] at hj' hkey
        exact h.once j j' hj hj' hkey

/-- A slot without a value takes a key that is not in the map. -/
theorem Represents.put (h : Represents t m) (hk : m k = none) (hi : (t i).value = none) (v : ν) :
    Represents (Function.update t i ⟨k, some v⟩) (Function.update m k (some v)) := by
  -- the key is in no slot, for it is not in the map
  have hkey : ∀ j, (t j).value ≠ none → (t j).key ≠ k := by
    intro j hj hjk
    obtain ⟨v', hv'⟩ := Option.ne_none_iff_exists'.1 hj
    have hget := h.get hv'
    rw [hjk, hk] at hget
    cases hget
  refine ⟨fun k' v' => ?_, fun j j' hj hj' heq => ?_⟩
  · by_cases hkk : k' = k
    · subst hkk
      rw [Function.update_self]
      constructor
      · intro hheld
        obtain ⟨j, hj⟩ := hheld
        by_cases hji : j = i
        · rw [hji, Function.update_self] at hj
          cases hj
          rfl
        · rw [Function.update_of_ne hji] at hj
          exact absurd (by rw [hj]) (hkey j (by simp [hj]))
      · intro hv
        cases hv
        exact ⟨i, Function.update_self ..⟩
    · rw [Function.update_of_ne hkk, ← h.holds]
      constructor
      · intro hheld
        obtain ⟨j, hj⟩ := hheld
        by_cases hji : j = i
        · rw [hji, Function.update_self] at hj
          cases hj
          exact absurd rfl hkk
        · exact ⟨j, by rwa [Function.update_of_ne hji] at hj⟩
      · intro hheld
        obtain ⟨j, hj⟩ := hheld
        have hji : j ≠ i := by
          intro hji
          rw [hji] at hj
          rw [hj] at hi
          cases hi
        exact ⟨j, by rwa [Function.update_of_ne hji]⟩
  · by_cases hji : j = i
    · by_cases hji' : j' = i
      · rw [hji, hji']
      · rw [hji, Function.update_self, Function.update_of_ne hji'] at heq
        rw [Function.update_of_ne hji'] at hj'
        exact absurd heq.symm (hkey j' hj')
    · by_cases hji' : j' = i
      · rw [hji', Function.update_self, Function.update_of_ne hji] at heq
        rw [Function.update_of_ne hji] at hj
        exact absurd heq (hkey j hj)
      · rw [Function.update_of_ne hji] at hj heq
        rw [Function.update_of_ne hji'] at hj' heq
        exact h.once j j' hj hj' heq

theorem Represents.register (h : Represents t m) (unused : κ) (v : ν)
    (hroom : (insert k {k' | m k' ≠ none}).encard ≤ n) :
    Represents (register unused t k v) (Function.update m k (some v)) := by
  have hforgotten := h.forget unused k
  have hsub : {k' | Function.update m k none k' ≠ none} ⊆ {k' | m k' ≠ none} := by
    intro k' hk'
    by_cases hkk : k' = k
    · subst hkk
      exact absurd (Function.update_self ..) hk'
    · simpa [Function.update_of_ne hkk] using hk'
  obtain ⟨i, hi⟩ := hforgotten.exists_free (Function.update_self ..)
    ((Set.encard_le_encard (Set.insert_subset_insert hsub)).trans hroom)
  have hput := hforgotten.put (Function.update_self ..) (firstFree_eq_some hi) v
  rw [Function.update_idem] at hput
  simpa only [SlotTables.register, hi] using hput

/-- The value of a key in the table is that in the map. -/
theorem Represents.valueOf_eq (h : Represents t m) (k : κ) : valueOf t k = m k := by
  cases hfound : valueOf t k with
  | none =>
      cases hm : m k with
      | none => rfl
      | some v =>
          obtain ⟨i, hi⟩ := (h.holds k v).2 hm
          have hnone := List.findSome?_eq_none_iff.1 hfound i (List.mem_finRange i)
          simp [hi] at hnone
  | some v =>
      obtain ⟨i, -, hi⟩ := List.exists_of_findSome?_eq_some hfound
      split at hi
      · rename_i hkey
        rw [← hkey, h.get hi]
      · cases hi

end Asnx.SlotTables
