import Mathlib.Computability.Language

/-!
# Gestures of a pointer

A pointer goes down, moves, and goes up again. Words of actions that are beginnings of sequences of
such gestures are those that a machine with one bit accepts (`wellFormed_iff`): the bit says whether
the pointer is down.
-/

namespace Asnx.Gestures

open Computability

/-- What a pointer does. -/
inductive Action where
  | down
  | up
  | move
  deriving DecidableEq, Repr

/-- One gesture: down, any number of moves, and up. -/
def gesture : Language Action := {[.down]} * {[.move]}∗ * {[.up]}

/-- The actions are the beginning of a sequence of gestures. -/
def WellFormed (w : List Action) : Prop := ∃ g ∈ gesture∗, w <+: g

/-- A beginning of what is well formed is well formed. -/
theorem WellFormed.of_isPrefix {w w' : List Action} (h : WellFormed w') (hw : w <+: w') :
    WellFormed w := by
  obtain ⟨g, hg, hprefix⟩ := h
  exact ⟨g, hg, hw.trans hprefix⟩

/-- The machine that follows the gestures; its state says whether the pointer is down. -/
def next : Bool → Action → Option Bool
  | false, .down => some true
  | true, .move => some true
  | true, .up => some false
  | _, _ => none

/-- Whether the pointer is down after the given actions; `none` if they are not well formed. -/
def downAfter (w : List Action) : Option Bool := w.foldlM next false

theorem downAfter_append (w w' : List Action) :
    downAfter (w ++ w') = (downAfter w).bind fun b => w'.foldlM next b :=
  List.foldlM_append

theorem downAfter_concat (w : List Action) (a : Action) :
    downAfter (w ++ [a]) = (downAfter w).bind fun b => next b a := by
  rw [downAfter_append]
  congr 1
  funext b
  show (next b a >>= pure) = _
  exact bind_pure _

/-- Moves keep the pointer down. -/
theorem foldlM_moves {moves : List Action} (h : moves ∈ ({[.move]} : Language Action)∗) :
    moves.foldlM next true = some true := by
  obtain ⟨parts, rfl, hparts⟩ := h
  induction parts with
  | nil => rfl
  | cons part parts ih =>
      have hpart : part = [.move] := hparts part (List.mem_cons_self ..)
      rw [hpart, List.flatten_cons, List.singleton_append, List.foldlM_cons]
      exact ih fun y hy => hparts y (List.mem_cons_of_mem _ hy)

/-- A gesture leaves the pointer up. -/
theorem foldlM_gesture {g : List Action} (h : g ∈ gesture) : g.foldlM next false = some false := by
  obtain ⟨_, ⟨_, rfl, moves, hmoves, rfl⟩, _, rfl, rfl⟩ := h
  show List.foldlM next true (moves ++ [.up]) = _
  rw [List.foldlM_append, foldlM_moves hmoves]
  rfl

theorem downAfter_gestures {g : List Action} (h : g ∈ gesture∗) : downAfter g = some false := by
  obtain ⟨parts, rfl, hparts⟩ := h
  induction parts with
  | nil => rfl
  | cons part parts ih =>
      rw [List.flatten_cons, downAfter_append]
      have hpart : downAfter part = some false :=
        foldlM_gesture (hparts part (List.mem_cons_self ..))
      rw [hpart]
      exact ih fun y hy => hparts y (List.mem_cons_of_mem _ hy)

theorem append_mem_gestures {g g' : List Action} (h : g ∈ gesture∗) (h' : g' ∈ gesture) :
    g ++ g' ∈ gesture∗ := by
  rw [← Language.one_add_kstar_mul_self_eq_kstar]
  exact (Language.mem_add _ _ _).2 (.inr (Language.append_mem_mul h h'))

theorem gesture_of_moves {moves : List Action} (h : moves ∈ ({[.move]} : Language Action)∗) :
    .down :: moves ++ [.up] ∈ gesture :=
  ⟨.down :: moves, ⟨[.down], rfl, moves, h, rfl⟩, [.up], rfl, rfl⟩

/-- What the machine accepts, by its state: whole gestures, followed by the beginning of one if the
pointer is down. -/
def Shape (w : List Action) : Bool → Prop
  | false => w ∈ gesture∗
  | true => ∃ g ∈ gesture∗, ∃ moves ∈ ({[.move]} : Language Action)∗, w = g ++ .down :: moves

/-- By induction on the actions from the end. -/
theorem shape_of_downAfter {w : List Action} {b : Bool} (h : downAfter w = some b) : Shape w b := by
  induction w using List.reverseRecOn generalizing b with
  | nil =>
      obtain rfl : false = b := Option.some.inj h
      exact Language.nil_mem_kstar _
  | append_singleton w a ih =>
      rw [downAfter_concat] at h
      obtain ⟨b', hb', hnext⟩ := Option.bind_eq_some_iff.1 h
      have hw := ih hb'
      cases b' with
      | false =>
          cases a with
          | down =>
              obtain rfl : true = b := Option.some.inj hnext
              exact ⟨w, hw, [], Language.nil_mem_kstar _, rfl⟩
          | up => cases hnext
          | move => cases hnext
      | true =>
          obtain ⟨g, hg, moves, hmoves, rfl⟩ := hw
          cases a with
          | down => cases hnext
          | up =>
              obtain rfl : false = b := Option.some.inj hnext
              show _ ++ _ ++ _ ∈ _
              rw [List.append_assoc]
              exact append_mem_gestures hg (gesture_of_moves hmoves)
          | move =>
              obtain rfl : true = b := Option.some.inj hnext
              refine ⟨g, hg, moves ++ [.move], ?_, by simp⟩
              rw [← Language.one_add_kstar_mul_self_eq_kstar]
              exact (Language.mem_add _ _ _).2 (.inr (Language.append_mem_mul hmoves rfl))

/-- The machine accepts the well-formed sequences of actions. -/
theorem wellFormed_iff (w : List Action) : WellFormed w ↔ (downAfter w).isSome := by
  constructor
  · rintro ⟨g, hg, rest, rfl⟩
    have hend := downAfter_gestures hg
    rw [downAfter_append] at hend
    obtain ⟨b, hb, -⟩ := Option.bind_eq_some_iff.1 hend
    rw [hb]
    rfl
  · intro h
    obtain ⟨b, hb⟩ := Option.isSome_iff_exists.1 h
    have hshape := shape_of_downAfter hb
    cases b with
    | false => exact ⟨w, hshape, List.prefix_refl _⟩
    | true =>
        obtain ⟨g, hg, moves, hmoves, rfl⟩ := hshape
        refine ⟨g ++ (.down :: moves ++ [.up]),
          append_mem_gestures hg (gesture_of_moves hmoves), [.up], ?_⟩
        rw [List.append_assoc]

end Asnx.Gestures
