import Mathlib.Data.List.Basic

/-!
# Splitting a list along a pattern

A pattern is a list of items, and each item takes a piece of the list. Whether it may take a piece
depends on what comes before it and what comes after it. `Splits` says that the list is the pieces,
in order, with a remainder that is allowed.
-/

namespace Asnx.Splitting

variable {α ι : Type*}

/-- Behind the part `before`, the items take pieces of the list one after the other, up to a
remainder with `rest`. -/
inductive Splits (takes : List α → ι → List α → List α → Prop) (rest : List α → Prop) :
    List α → List ι → List α → Prop where
  | done {before s : List α} : rest s → Splits takes rest before [] s
  | item {before piece after : List α} {i : ι} {items : List ι} :
      takes before i piece after → Splits takes rest (before ++ piece) items after →
        Splits takes rest before (i :: items) (piece ++ after)

section Rules

variable {takes takes' : List α → ι → List α → List α → Prop} {rest : List α → Prop}
  {before s : List α} {i : ι} {items : List ι}

theorem splits_nil : Splits takes rest before [] s ↔ rest s := by
  refine ⟨fun h => ?_, .done⟩
  cases h with
  | done h => exact h

theorem splits_cons : Splits takes rest before (i :: items) s ↔
    ∃ piece after, s = piece ++ after ∧ takes before i piece after ∧
      Splits takes rest (before ++ piece) items after := by
  refine ⟨fun h => ?_, fun ⟨piece, after, hs, htakes, hrest⟩ => hs ▸ .item htakes hrest⟩
  cases h with
  | item htakes hrest => exact ⟨_, _, rfl, htakes, hrest⟩

/-- An item that takes single elements. -/
theorem splits_one {P : List α → α → List α → Prop}
    (h : ∀ before piece after, takes before i piece after ↔ ∃ c, piece = [c] ∧ P before c after) :
    Splits takes rest before (i :: items) s ↔
      ∃ c after, s = c :: after ∧ P before c after ∧
        Splits takes rest (before ++ [c]) items after := by
  rw [splits_cons]
  constructor
  · rintro ⟨piece, after, rfl, htakes, hrest⟩
    obtain ⟨c, rfl, hc⟩ := (h before piece after).1 htakes
    exact ⟨c, after, rfl, hc, hrest⟩
  · rintro ⟨c, after, rfl, hc, hrest⟩
    exact ⟨[c], after, rfl, (h before [c] after).2 ⟨c, rfl, hc⟩, hrest⟩

/-- A pattern whose items may take more splits more. -/
theorem Splits.mono (h : Splits takes rest before items s)
    (htakes : ∀ before i piece after, takes before i piece after → takes' before i piece after) :
    Splits takes' rest before items s := by
  induction h with
  | done hrest => exact .done hrest
  | item htake _ ih => exact .item (htakes _ _ _ _ htake) ih

end Rules

end Asnx.Splitting
