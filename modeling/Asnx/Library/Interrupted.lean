import Mathlib.Order.Defs.Unbundled

/-!
# Programs that may be cut off

A `Prog ω α` works on a world `ω` in atomic steps. What the environment decides about a step is a
`Decision`: the step may fail, and it may be the last one because the power is lost after it. A
program that is cut off has no result, and the world stays as it is.

`Spec P p Q C` says of all decisions: from a world in `P`, the program ends with a result in `Q`,
or it is cut off in a world in `C`. `Keeps I p` is the case of an invariant, and `Moves R p`
relates the world before to the one after, cut off or not.
-/

namespace Asnx.Interrupted

/-- What the environment decides about one step; `amount` is for what else is left open. -/
structure Decision where
  powerLoss : Bool
  fails : Bool
  amount : Nat

/-- Nothing fails and the power stays on. -/
def Decision.good : Decision := ⟨false, false, 0⟩

/-- A world with the decisions to come. -/
structure Machine (ω : Type*) where
  world : ω
  decisions : Nat → Decision
  now : Nat

/-- A program; `none` says that it was cut off. -/
def Prog (ω α : Type*) := Machine ω → Option α × Machine ω

section Programs

variable {ω : Type*} {α β : Type}

instance : Monad (Prog ω) where
  pure a := fun m => (some a, m)
  bind p f := fun m =>
    match p m with
    | (some a, m) => f a m
    | (none, m) => (none, m)

/-- One step. -/
def step (f : Decision → ω → α × ω) : Prog ω α := fun m =>
  let d := m.decisions m.now
  let r := f d m.world
  (if d.powerLoss then none else some r.1, ⟨r.2, m.decisions, m.now + 1⟩)

/-- A step without an effect that succeeds or fails. -/
def chance : Prog ω Bool := step fun d w => (!d.fails, w)

/-- A change of the world that is no step of its own. -/
def update (f : ω → α × ω) : Prog ω α := fun m =>
  let r := f m.world
  (some r.1, ⟨r.2, m.decisions, m.now⟩)

/-- The program never comes to an end, until the power is lost. -/
def hang : Prog ω α := fun m => (none, m)

/-- The result and the world that a program leads to under the given decisions. -/
def Prog.run (p : Prog ω α) (decisions : Nat → Decision) (w : ω) : Option α × ω :=
  let r := p ⟨w, decisions, 0⟩
  (r.1, r.2.world)

/-! ## Specifications -/

/-- From a world in `P` the program ends in `Q` or is cut off in `C`. -/
def Spec (P : ω → Prop) (p : Prog ω α) (Q : α → ω → Prop) (C : ω → Prop) : Prop :=
  ∀ m, P m.world →
    match p m with
    | (some a, m) => Q a m.world
    | (none, m) => C m.world

variable {P P' : ω → Prop} {Q Q' : α → ω → Prop} {C C' : ω → Prop} {p : Prog ω α}

/-- What a specification says about one run. -/
theorem Spec.run (h : Spec P p Q C) (decisions : Nat → Decision) {w : ω} (hw : P w) :
    (∀ a, (p.run decisions w).1 = some a → Q a (p.run decisions w).2) ∧
      ((p.run decisions w).1 = none → C (p.run decisions w).2) := by
  have hrun := h ⟨w, decisions, 0⟩ hw
  unfold Prog.run
  split at hrun
  · rename_i a m hp
    rw [hp]
    refine ⟨?_, by simp⟩
    rintro _ ⟨⟩
    exact hrun
  · rename_i m hp
    rw [hp]
    exact ⟨by simp, fun _ => hrun⟩

/-- What holds after a program, whether it ends or is cut off. -/
theorem spec_always : Spec P p (fun _ => C) C ↔ ∀ m, P m.world → C (p m).2.world := by
  refine forall_congr' fun m => imp_congr_right fun _ => ?_
  cases hresult : p m with
  | mk result m' =>
      cases result with
      | none => exact Iff.rfl
      | some a => exact Iff.rfl

/-- What holds of the world after a run, cut off or not. -/
theorem Spec.world (h : Spec P p (fun _ => C) C) (decisions : Nat → Decision) {w : ω} (hw : P w) :
    C (p.run decisions w).2 :=
  spec_always.1 h ⟨w, decisions, 0⟩ hw

theorem Spec.mono (h : Spec P p Q C) (hP : ∀ w, P' w → P w) (hQ : ∀ a w, Q a w → Q' a w)
    (hC : ∀ w, C w → C' w) : Spec P' p Q' C' := by
  intro m hm
  have hrun := h m (hP _ hm)
  split at hrun
  · exact hQ _ _ hrun
  · exact hC _ hrun

/-- A stronger precondition. -/
theorem Spec.pre (h : Spec P p Q C) (hP : ∀ w, P' w → P w) : Spec P' p Q C :=
  h.mono hP (fun _ _ hw => hw) fun _ hw => hw

/-- A weaker postcondition. -/
theorem Spec.post (h : Spec P p Q C) (hQ : ∀ a w, Q a w → Q' a w) : Spec P p Q' C :=
  h.mono (fun _ hw => hw) hQ fun _ hw => hw

/-- What is known of the world before may be assumed. -/
theorem Spec.assume {φ : Prop} (h : φ → Spec P p Q C) : Spec (fun w => φ ∧ P w) p Q C :=
  fun m hm => h hm.1 m hm.2

theorem Spec.exists {ι : Sort*} {P : ι → ω → Prop} (h : ∀ i, Spec (P i) p Q C) :
    Spec (fun w => ∃ i, P i w) p Q C := by
  rintro m ⟨i, hm⟩
  exact h i m hm

/-- Two specifications of one program. -/
theorem Spec.and (h : Spec P p Q C) (h' : Spec P' p Q' C') :
    Spec (fun w => P w ∧ P' w) p (fun a w => Q a w ∧ Q' a w) fun w => C w ∧ C' w := by
  intro m hm
  have hrun := h m hm.1
  have hrun' := h' m hm.2
  split at hrun
  · rename_i hp
    rw [hp] at hrun'
    exact ⟨hrun, hrun'⟩
  · rename_i hp
    rw [hp] at hrun'
    exact ⟨hrun, hrun'⟩

theorem spec_pure {a : α} (h : ∀ w, P w → Q a w) : Spec P (pure a : Prog ω α) Q C :=
  fun m hm => h m.world hm

theorem spec_bind {q : Prog ω β} {f : β → Prog ω α} {R : β → ω → Prop} (hq : Spec P q R C)
    (hf : ∀ b, Spec (R b) (f b) Q C) : Spec P (q >>= f) Q C := by
  intro m hm
  have hrun := hq m hm
  show match (match q m with
    | (some b, m) => f b m
    | (none, m) => (none, m)) with
    | (some a, m) => Q a m.world
    | (none, m) => C m.world
  split at hrun
  · exact hf _ _ hrun
  · exact hrun

/-- The rule for a step. -/
theorem spec_step {f : Decision → ω → α × ω}
    (h : ∀ d w, P w → Q (f d w).1 (f d w).2 ∧ C (f d w).2) : Spec P (step f) Q C := by
  intro m hm
  obtain ⟨hQ, hC⟩ := h (m.decisions m.now) m.world hm
  unfold step
  cases hpower : (m.decisions m.now).powerLoss
  · simpa [hpower] using hQ
  · simpa [hpower] using hC

theorem spec_update {f : ω → α × ω} (h : ∀ w, P w → Q (f w).1 (f w).2) : Spec P (update f) Q C :=
  fun m hm => h m.world hm

theorem spec_hang (h : ∀ w, P w → C w) : Spec P (hang : Prog ω α) Q C :=
  fun m hm => h m.world hm

theorem spec_ite {c : Prop} [Decidable c] {q : Prog ω α} (hp : c → Spec P p Q C)
    (hq : ¬ c → Spec P q Q C) : Spec P (if c then p else q) Q C := by
  split
  · exact hp ‹_›
  · exact hq ‹_›

/-! ## Invariants -/

/-- The program keeps `I` at every step, whatever the environment decides. -/
def Keeps (I : ω → Prop) (p : Prog ω α) : Prop := Spec I p (fun _ => I) I

/-- The world before and the one after, cut off or not, are related. -/
def Moves (R : ω → ω → Prop) (p : Prog ω α) : Prop := ∀ m, R m.world (p m).2.world

variable {I : ω → Prop} {R : ω → ω → Prop}

theorem Keeps.run (h : Keeps I p) (decisions : Nat → Decision) {w : ω} (hw : I w) :
    I (p.run decisions w).2 :=
  Spec.world h decisions hw

/-- A program keeps what its moves keep. -/
theorem Moves.keeps (h : Moves R p) (hI : ∀ w w', R w w' → I w → I w') : Keeps I p :=
  spec_always.2 fun m => hI _ _ (h m)

theorem Moves.mono {R' : ω → ω → Prop} (h : Moves R p) (hR : ∀ w w', R w w' → R' w w') :
    Moves R' p :=
  fun m => hR _ _ (h m)

theorem moves_pure [Std.Refl R] (a : α) : Moves R (pure a : Prog ω α) :=
  fun m => Std.Refl.refl m.world

/-- A program and what comes after it, for the results that it can have. -/
theorem moves_bind_of [IsTrans ω R] {q : Prog ω β} {f : β → Prog ω α} {φ : β → Prop}
    (hq : Moves R q) (hφ : Spec (fun _ => True) q (fun b _ => φ b) fun _ => True)
    (hf : ∀ b, φ b → Moves R (f b)) : Moves R (q >>= f) := by
  intro m
  have hfirst := hq m
  have hresult := hφ m trivial
  show R m.world (match q m with
    | (some b, m) => f b m
    | (none, m) => (none, m)).2.world
  split
  · rename_i b m' hrun
    rw [hrun] at hfirst hresult
    exact IsTrans.trans _ _ _ hfirst (hf b hresult m')
  · rename_i m' hrun
    rw [hrun] at hfirst
    exact hfirst

theorem moves_bind [IsTrans ω R] {q : Prog ω β} {f : β → Prog ω α} (hq : Moves R q)
    (hf : ∀ b, Moves R (f b)) : Moves R (q >>= f) := by
  refine moves_bind_of (φ := fun _ => True) hq (fun m _ => ?_) fun b _ => hf b
  split <;> trivial

theorem moves_update {f : ω → α × ω} (h : ∀ w, R w (f w).2) : Moves R (update f) :=
  fun m => h m.world

theorem moves_ite {c : Prop} [Decidable c] {q : Prog ω α} (hp : c → Moves R p)
    (hq : ¬ c → Moves R q) : Moves R (if c then p else q) := by
  split
  · exact hp ‹_›
  · exact hq ‹_›

end Programs

/-- What holds after a call that may fail: `failed`, or `done` of what it returns. -/
def OrFailed {ε α σ : Type*} (failed : σ → Prop) (done : α → σ → Prop) : Except ε α → σ → Prop
  | .error _, v => failed v
  | .ok a, v => done a v

end Asnx.Interrupted
