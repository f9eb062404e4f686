import Mathlib.Data.Set.Lattice
import Mathlib.Logic.Pairwise
import Mathlib.Order.CompletePartialOrder

/-!
# Exclusive ownership of a pool of resources

A pool of resources of type `α` is shared out among owners of type `ι`: `own i` is the set
that owner `i` holds. `Partition own used` says that nobody shares a resource and that the
resources held are exactly the used ones, so nothing is held twice and nothing is leaked.
The lemmas say what taking, handing over and giving back do to such a partition.
-/

namespace Asnx.Ownership

variable {ι α : Type*}

/-- The sets `own i` are pairwise disjoint and together make up `used`. -/
structure Partition (own : ι → Set α) (used : Set α) : Prop where
  disjoint : ∀ i j, i ≠ j → Disjoint (own i) (own j)
  cover : ⋃ i, own i = used

namespace Partition

variable {own own' : ι → Set α} {used : Set α}

/-- What an owner holds is used. -/
theorem subset_used (h : Partition own used) (i : ι) : own i ⊆ used := by
  rw [← h.cover]
  exact Set.subset_iUnion own i

/-- A used resource has an owner. -/
theorem exists_owner (h : Partition own used) {a : α} (ha : a ∈ used) : ∃ i, a ∈ own i := by
  rw [← h.cover] at ha
  exact Set.mem_iUnion.1 ha

/-- A resource has at most one owner. -/
theorem owner_unique (h : Partition own used) {a : α} {i j : ι} (hi : a ∈ own i)
    (hj : a ∈ own j) : i = j := by
  by_contra hne
  exact Set.disjoint_left.1 (h.disjoint i j hne) hi hj

/-- With nobody holding anything, nothing is used. -/
theorem empty : Partition (fun _ : ι => (∅ : Set α)) ∅ where
  disjoint _ _ _ := Set.disjoint_empty _
  cover := by simp

/-- A partition depends only on what each owner holds. -/
theorem same (h : Partition own used) (hsame : ∀ i, own' i = own i) : Partition own' used := by
  rwa [show own' = own from funext hsame]

/-- One owner changes its share to `s`, which overlaps only what it held or what was free. -/
theorem change (h : Partition own used) (i : ι) (s : Set α)
    (hself : own' i = s) (hother : ∀ j, j ≠ i → own' j = own j)
    (hs : Disjoint s (used \ own i)) :
    Partition own' ((used \ own i) ∪ s) := by
  have houtside : ∀ j, j ≠ i → own j ⊆ used \ own i := fun j hj a ha =>
    ⟨h.subset_used j ha, fun hi => hj (h.owner_unique ha hi)⟩
  refine ⟨fun j k hjk => ?_, ?_⟩
  · by_cases hj : j = i
    · subst hj
      rw [hself, hother k hjk.symm]
      exact hs.mono_right (houtside k hjk.symm)
    · by_cases hk : k = i
      · subst hk
        rw [hself, hother j hj]
        exact (hs.mono_right (houtside j hj)).symm
      · rw [hother j hj, hother k hk]
        exact h.disjoint j k hjk
  · ext a
    simp only [Set.mem_iUnion, Set.mem_union, Set.mem_sdiff]
    constructor
    · rintro ⟨j, hj⟩
      by_cases hji : j = i
      · subst hji
        exact .inr (hself ▸ hj)
      · rw [hother j hji] at hj
        exact .inl (houtside j hji hj)
    · rintro (⟨ha, hni⟩ | ha)
      · obtain ⟨j, hj⟩ := h.exists_owner ha
        have hji : j ≠ i := by
          rintro rfl
          exact hni hj
        exact ⟨j, by rwa [hother j hji]⟩
      · exact ⟨i, by rwa [hself]⟩

/-- An owner that held nothing takes a free set. -/
theorem take (h : Partition own used) (i : ι) (s : Set α) (hempty : own i = ∅)
    (hself : own' i = s) (hother : ∀ j, j ≠ i → own' j = own j) (hfree : Disjoint s used) :
    Partition own' (used ∪ s) := by
  have := h.change i s hself hother (by simpa [hempty] using hfree)
  simpa [hempty] using this

/-- An owner gives back all it held. -/
theorem release (h : Partition own used) (i : ι)
    (hself : own' i = ∅) (hother : ∀ j, j ≠ i → own' j = own j) :
    Partition own' (used \ own i) := by
  simpa using h.change i ∅ hself hother (Set.empty_disjoint _)

/-- An owner keeps the part `s` of what it held and gives back the rest. -/
theorem shrink (h : Partition own used) (i : ι) (s : Set α) (hs : s ⊆ own i)
    (hself : own' i = s) (hother : ∀ j, j ≠ i → own' j = own j) :
    Partition own' (used \ (own i \ s)) := by
  have hchange := h.change i s hself hother
    (Set.disjoint_left.2 fun a ha hd => hd.2 (hs ha))
  have hsets : (used \ own i) ∪ s = used \ (own i \ s) := by
    ext a
    have hsu : a ∈ s → a ∈ used := fun ha => h.subset_used i (hs ha)
    have hso : a ∈ s → a ∈ own i := fun ha => hs ha
    simp only [Set.mem_union, Set.mem_sdiff]
    tauto
  rwa [hsets] at hchange

/-- An owner hands all it held over to one that held nothing. -/
theorem move (h : Partition own used) (i j : ι) (hne : i ≠ j) (hempty : own j = ∅)
    (hfrom : own' i = ∅) (hto : own' j = own i)
    (hother : ∀ k, k ≠ i → k ≠ j → own' k = own k) : Partition own' used := by
  classical
  have hrelease : Partition (Function.update own i ∅) (used \ own i) :=
    h.release i (by simp) (fun k hk => by simp [hk])
  have htake : Partition own' ((used \ own i) ∪ own i) :=
    hrelease.take j (own i) (by simp [hne.symm, hempty]) hto
      (fun k hk => by
        by_cases hki : k = i
        · subst hki
          simp [hfrom]
        · simp [hki, hother k hki hk])
      (Set.disjoint_left.2 fun a ha hd => hd.2 ha)
  rwa [Set.sdiff_union_of_subset (h.subset_used i)] at htake

end Partition

end Asnx.Ownership
