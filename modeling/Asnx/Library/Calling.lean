import Mathlib.Data.List.Basic

/-!
# Programs that call

A `Program C A α` makes calls `C`, gets an answer `A` to each of them, which may be any, and
returns an `α`. `Runs p log v` says that `p` may return `v` after the calls and answers of `log`.
`Sound allowed Q log p` says that what `p` does after `log` is allowed by what has happened before
it, and that `Q` holds in the end; it is proved along the program (`sound_bind`), and holds of
every run (`Sound.run`).
-/

namespace Asnx.Calling

/-- A program that makes calls. -/
inductive Program (C A α : Type) where
  | ret (v : α)
  | call (c : C) (next : A → Program C A α)

variable {C A α β : Type}

namespace Program

/-- One program after another. -/
def andThen : Program C A α → (α → Program C A β) → Program C A β
  | ret v, f => f v
  | call c next, f => call c fun a => (next a).andThen f

instance : Monad (Program C A) where
  pure := ret
  bind := andThen

/-- One call, and its answer. -/
def ask (c : C) : Program C A A := call c ret

end Program

/-- The runs of a program, with the calls and their answers in order. -/
inductive Runs : Program C A α → List (C × A) → α → Prop where
  | ret (v : α) : Runs (.ret v) [] v
  | call (c : C) (a : A) {next : A → Program C A α} {log : List (C × A)} {v : α}
      (h : Runs (next a) log v) : Runs (.call c next) ((c, a) :: log) v

/-- One program after another, by induction on the run of the first one. -/
theorem Runs.andThen {p : Program C A α} {f : α → Program C A β}
    {first second : List (C × A)} {v : α}
    {w : β} (hp : Runs p first v) (hf : Runs (f v) second w) :
    Runs (p >>= f) (first ++ second) w := by
  induction hp with
  | ret v => exact hf
  | call c a _ ih => exact Runs.call c a (ih hf)

/-- After `log` the program makes calls only that are allowed when they are made, and `Q` holds of
all that has happened and of what is returned. -/
def Sound (allowed : List (C × A) → C → Prop) (Q : List (C × A) → α → Prop) :
    List (C × A) → Program C A α → Prop
  | log, .ret v => Q log v
  | log, .call c next => allowed log c ∧ ∀ a, Sound allowed Q (log ++ [(c, a)]) (next a)

section Rules

variable {allowed : List (C × A) → C → Prop} {Q : List (C × A) → α → Prop}
  {R : List (C × A) → β → Prop} {log : List (C × A)} {p : Program C A α}

theorem sound_pure {v : α} (h : Q log v) : Sound allowed Q log (pure v : Program C A α) := h

theorem sound_ask {c : C} {Q : List (C × A) → A → Prop} (hallowed : allowed log c)
    (h : ∀ a, Q (log ++ [(c, a)]) a) : Sound allowed Q log (Program.ask c) := ⟨hallowed, h⟩

/-- One program after another, by induction on the first one. -/
theorem sound_bind {f : α → Program C A β}
    (h : Sound allowed (fun log v => Sound allowed R log (f v)) log p) :
    Sound allowed R log (p >>= f) := by
  induction p generalizing log with
  | ret v => exact h
  | call c next ih =>
      obtain ⟨hallowed, hnext⟩ := h
      exact ⟨hallowed, fun a => ih a (hnext a)⟩

/-- A call and what comes after it. -/
theorem sound_call {c : C} {f : A → Program C A β} (hallowed : allowed log c)
    (h : ∀ a, Sound allowed R (log ++ [(c, a)]) (f a)) :
    Sound allowed R log (Program.ask c >>= f) := sound_bind (sound_ask hallowed h)

/-- What holds in the end may be less. -/
theorem Sound.weaken {Q' : List (C × A) → α → Prop} (h : Sound allowed Q log p)
    (hQ : ∀ log v, Q log v → Q' log v) : Sound allowed Q' log p := by
  induction p generalizing log with
  | ret v => exact hQ log v h
  | call c next ih => exact ⟨h.1, fun a => ih a (h.2 a)⟩

/-- Every run makes calls only that are allowed by those before them. By induction on the run. -/
theorem Sound.run {v : α} {more : List (C × A)} (h : Sound allowed Q log p) (hrun : Runs p more v) :
    (∀ before c a after, more = before ++ (c, a) :: after → allowed (log ++ before) c) ∧
      Q (log ++ more) v := by
  induction hrun generalizing log with
  | ret v =>
      refine ⟨fun before c a after hmore => ?_, ?_⟩
      · exact absurd hmore.symm (List.append_ne_nil_of_right_ne_nil _ (List.cons_ne_nil _ _))
      · rwa [List.append_nil]
  | call c a hnext ih =>
      obtain ⟨hallowed, hsound⟩ := h
      obtain ⟨hcalls, hend⟩ := ih (hsound a)
      refine ⟨fun before c' a' after hmore => ?_, ?_⟩
      · cases before with
        | nil =>
            obtain ⟨heq, -⟩ := List.cons.inj hmore
            obtain ⟨rfl, -⟩ := Prod.mk.inj heq
            rwa [List.append_nil]
        | cons first before =>
            obtain ⟨rfl, hrest⟩ := List.cons.inj hmore
            have hstep := hcalls before c' a' after hrest
            rwa [List.append_assoc, List.singleton_append] at hstep
      · rwa [List.append_assoc, List.singleton_append] at hend

end Rules

end Asnx.Calling
