import Mathlib.Data.List.Basic

/-!
# Programs that report their accesses

A `Traced σ A ε α` works on a state, reports each access to memory that it makes, and may end early
with an `ε`. `Runs good p φ v c` says of such a program that it returns exactly if `φ`, that it then
returns `v`, and that its accesses are then all good exactly if `c`. `Ensures good P p Q` says that
from a state with `P` it makes good accesses only and returns, with a value and a state with `Q`.
`Gives p s v s'` says what it comes to from one state.
-/

namespace Asnx.Tracing

/-- A program with state `σ` that reports accesses `A`. -/
def Traced (σ A ε α : Type) := σ → Except ε α × σ × List A

variable {σ A ε α β : Type}

instance : Monad (Traced σ A ε) where
  pure a := fun s => (.ok a, s, [])
  bind p f := fun s =>
    match p s with
    | (.ok a, s, log) => ((f a s).1, (f a s).2.1, log ++ (f a s).2.2)
    | (.error e, s, log) => (.error e, s, log)

/-- What comes after a program that returns. -/
theorem bind_of_ok {p : Traced σ A ε α} {f : α → Traced σ A ε β} {s : σ} {v : α}
    (h : (p s).1 = .ok v) : (p >>= f) s =
      ((f v (p s).2.1).1, (f v (p s).2.1).2.1, (p s).2.2 ++ (f v (p s).2.1).2.2) := by
  show (match p s with
    | (.ok a, s, log) => ((f a s).1, (f a s).2.1, log ++ (f a s).2.2)
    | (.error e, s, log) => (.error e, s, log)) = _
  generalize p s = r at h
  obtain ⟨r, s', log⟩ := r
  obtain rfl : r = .ok v := h
  rfl

/-- An access. -/
def access (a : A) : Traced σ A ε Unit := fun s => (.ok (), s, [a])

/-- A change of the state. -/
def modify (f : σ → σ) : Traced σ A ε Unit := fun s => (.ok (), f s, [])

/-- What is in the state. -/
def look (f : σ → α) : Traced σ A ε α := fun s => (.ok (f s), s, [])

/-- The end of the program. -/
def fail (e : ε) : Traced σ A ε α := fun s => (.error e, s, [])

/-- From every state the program returns exactly if `φ`, it returns `v`, and if it does then its
accesses are all good exactly if `c`. -/
def Runs (good : A → Prop) (p : Traced σ A ε α) (φ : Prop) (v : α) (c : Prop) : Prop :=
  ∀ s, (φ → (p s).1 = .ok v ∧ ((∀ a ∈ (p s).2.2, good a) ↔ c)) ∧ (¬ φ → ∃ e, (p s).1 = .error e)

section Rules

variable {good : A → Prop} {p : Traced σ A ε α} {φ ψ c d : Prop} {v : α} {w : β}

theorem runs_pure : Runs good (pure v : Traced σ A ε α) True v True :=
  fun _ => ⟨fun _ => ⟨rfl, by
    show (∀ a ∈ [], good a) ↔ True
    simp⟩, fun h => absurd trivial h⟩

theorem runs_access (a : A) : Runs good (access a : Traced σ A ε Unit) True () (good a) :=
  fun _ => ⟨fun _ => ⟨rfl, by
    show (∀ a' ∈ [a], good a') ↔ good a
    simp⟩, fun h => absurd trivial h⟩

theorem runs_modify (f : σ → σ) : Runs good (modify f : Traced σ A ε Unit) True () True :=
  fun _ => ⟨fun _ => ⟨rfl, by
    show (∀ a ∈ [], good a) ↔ True
    simp⟩, fun h => absurd trivial h⟩

/-- One program after another: what the second one does is asked for what the first one returns. -/
theorem runs_bind {f : α → Traced σ A ε β} (hp : Runs good p φ v c) (hf : Runs good (f v) ψ w d) :
    Runs good (p >>= f) (φ ∧ ψ) w (c ∧ d) := by
  intro s
  obtain ⟨hok, herror⟩ := hp s
  rcases hrun : p s with ⟨_ | a, s', log⟩
  · have hbind : ((p >>= f) s).1 = .error ‹ε› := by
      show (match p s with
        | (.ok a, s, log) => ((f a s).1, (f a s).2.1, log ++ (f a s).2.2)
        | (.error e, s, log) => (.error e, s, log)).1 = _
      rw [hrun]
    rw [hrun] at hok
    refine ⟨fun h => ?_, fun _ => ⟨_, hbind⟩⟩
    cases (hok h.1).1
  · have hbind : (p >>= f) s = ((f a s').1, (f a s').2.1, log ++ (f a s').2.2) := by
      show (match p s with
        | (.ok a, s, log) => ((f a s).1, (f a s).2.1, log ++ (f a s).2.2)
        | (.error e, s, log) => (.error e, s, log)) = _
      rw [hrun]
    rw [hrun] at hok herror
    have hφ : φ := by
      by_contra h
      obtain ⟨e, he⟩ := herror h
      cases he
    obtain ⟨hvalue, hlog⟩ := hok hφ
    obtain rfl : a = v := Except.ok.inj hvalue
    obtain ⟨hok', herror'⟩ := hf s'
    rw [hbind]
    refine ⟨fun h => ⟨(hok' h.2).1, ?_⟩, fun h => herror' fun hψ => h ⟨hφ, hψ⟩⟩
    rw [← (hok' h.2).2, ← hlog]
    exact List.forall_mem_append

/-- A first program that always returns. -/
theorem runs_step {f : α → Traced σ A ε β} (hp : Runs good p True v c)
    (hf : Runs good (f v) ψ w d) : Runs good (p >>= f) ψ w (c ∧ d) := by
  have hbind := runs_bind hp hf
  rwa [true_and] at hbind

theorem runs_if_pos {b : Prop} [Decidable b] {q : Traced σ A ε α} (hb : b)
    (hp : Runs good p φ v c) :
    Runs good (if b then p else q) φ v c := by
  rwa [if_pos hb]

theorem runs_if_neg {b : Prop} [Decidable b] {q : Traced σ A ε α} (hb : ¬ b)
    (hp : Runs good p φ v c) : Runs good (if b then q else p) φ v c := by
  rwa [if_neg hb]

/-- A check that ends the program. -/
theorem runs_check {b : Prop} [Decidable b] {e : ε} (hp : ¬ b → Runs good p φ v c) :
    Runs good (if b then fail e else p) (¬ b ∧ φ) v c := by
  split
  · rename_i hb
    exact fun s => ⟨fun h => absurd hb h.1, fun _ => ⟨e, rfl⟩⟩
  · rename_i hb
    intro s
    obtain ⟨hok, herror⟩ := hp hb s
    exact ⟨fun h => hok h.2, fun h => herror fun hφ => h ⟨hb, hφ⟩⟩

/-- The conditions may be put in other words, the second one where the program returns. -/
theorem Runs.congr (h : Runs good p φ v c) (hφ : φ ↔ ψ) (hc : ψ → (c ↔ d)) :
    Runs good p ψ v d := by
  intro s
  obtain ⟨hok, herror⟩ := h s
  refine ⟨fun hψ => ?_, fun hψ => herror fun h' => hψ (hφ.1 h')⟩
  obtain ⟨hvalue, hlog⟩ := hok (hφ.2 hψ)
  exact ⟨hvalue, hlog.trans (hc hψ)⟩

/-- The same, with the value in other words too. -/
theorem Runs.of_eq {u : α} (h : Runs good p φ v c) (hv : v = u) (hφ : φ ↔ ψ) (hc : ψ → (c ↔ d)) :
    Runs good p ψ u d := by
  rw [← hv]
  exact h.congr hφ hc

end Rules

/-- From every state with `P` the accesses of the program are all good, and it returns, with a value
and a state with `Q`. -/
def Ensures (good : A → Prop) (P : σ → Prop) (p : Traced σ A ε α) (Q : α → σ → Prop) : Prop :=
  ∀ s, P s → (∀ a ∈ (p s).2.2, good a) ∧ ∃ v, (p s).1 = .ok v ∧ Q v (p s).2.1

section Triples

variable {good : A → Prop} {P P' : σ → Prop} {p q : Traced σ A ε α} {Q Q' : α → σ → Prop}

theorem ensures_pure {v : α} (h : ∀ s, P s → Q v s) :
    Ensures good P (pure v : Traced σ A ε α) Q :=
  fun s hs => ⟨fun _ ha => absurd ha List.not_mem_nil, v, rfl, h s hs⟩

theorem ensures_access {a : A} (hgood : good a) :
    Ensures good P (access a : Traced σ A ε Unit) fun _ => P :=
  fun _ hs => ⟨fun _ ha => List.mem_singleton.1 ha ▸ hgood, (), rfl, hs⟩

theorem ensures_modify {f : σ → σ} {R : Unit → σ → Prop} (h : ∀ s, P s → R () (f s)) :
    Ensures good P (modify f : Traced σ A ε Unit) R :=
  fun s hs => ⟨fun _ ha => absurd ha List.not_mem_nil, (), rfl, h s hs⟩

theorem ensures_look {f : σ → α} (h : ∀ s, P s → Q (f s) s) :
    Ensures good P (look f : Traced σ A ε α) Q :=
  fun s hs => ⟨fun _ ha => absurd ha List.not_mem_nil, f s, rfl, h s hs⟩

/-- One program after another. -/
theorem ensures_bind {f : α → Traced σ A ε β} {R : β → σ → Prop} (hp : Ensures good P p Q)
    (hf : ∀ v, Ensures good (Q v) (f v) R) : Ensures good P (p >>= f) R := by
  intro s hs
  obtain ⟨hlog, v, hvalue, hQ⟩ := hp s hs
  obtain ⟨hlog', w, hvalue', hR⟩ := hf v (p s).2.1 hQ
  rw [bind_of_ok hvalue]
  exact ⟨List.forall_mem_append.2 ⟨hlog, hlog'⟩, w, hvalue', hR⟩

theorem ensures_ite {b : Prop} [Decidable b] (hp : b → Ensures good P p Q)
    (hq : ¬ b → Ensures good P q Q) : Ensures good P (if b then p else q) Q := by
  split
  · exact hp ‹_›
  · exact hq ‹_›

/-- What is known before and does not speak of the state. -/
theorem ensures_assume {φ : Prop} (h : φ → Ensures good P p Q) :
    Ensures good (fun s => φ ∧ P s) p Q := fun s hs => h hs.1 s hs.2

theorem Ensures.weaken (h : Ensures good P p Q) (hP : ∀ s, P' s → P s)
    (hQ : ∀ v s, Q v s → Q' v s) : Ensures good P' p Q' := by
  intro s hs
  obtain ⟨hlog, v, hvalue, hpost⟩ := h s (hP s hs)
  exact ⟨hlog, v, hvalue, hQ v _ hpost⟩

end Triples

/-- From `s` the program returns `v`, with the state `s'`. -/
def Gives (p : Traced σ A ε α) (s : σ) (v : α) (s' : σ) : Prop :=
  (p s).1 = .ok v ∧ (p s).2.1 = s'

section Outcomes

variable {p q : Traced σ A ε α} {s s' s'' : σ} {v : α} {w : β}

theorem gives_pure (v : α) (s : σ) : Gives (pure v : Traced σ A ε α) s v s := ⟨rfl, rfl⟩

theorem gives_access (a : A) (s : σ) : Gives (access a : Traced σ A ε Unit) s () s := ⟨rfl, rfl⟩

theorem gives_modify (f : σ → σ) (s : σ) : Gives (modify f : Traced σ A ε Unit) s () (f s) :=
  ⟨rfl, rfl⟩

theorem gives_look (f : σ → α) (s : σ) : Gives (look f : Traced σ A ε α) s (f s) s := ⟨rfl, rfl⟩

/-- One program after another. -/
theorem gives_bind {f : α → Traced σ A ε β} (hp : Gives p s v s') (hf : Gives (f v) s' w s'') :
    Gives (p >>= f) s w s'' := by
  obtain ⟨hvalue, rfl⟩ := hp
  obtain ⟨hvalue', rfl⟩ := hf
  unfold Gives
  rw [bind_of_ok hvalue]
  exact ⟨hvalue', rfl⟩

theorem gives_if_pos {b : Prop} [Decidable b] (hb : b) (hp : Gives p s v s') :
    Gives (if b then p else q) s v s' := by
  rwa [if_pos hb]

theorem gives_if_neg {b : Prop} [Decidable b] (hb : ¬ b) (hq : Gives q s v s') :
    Gives (if b then p else q) s v s' := by
  rwa [if_neg hb]

/-- A program has one outcome. -/
theorem Gives.unique {v' : α} (h : Gives p s v s') (h' : Gives p s v' s'') : v = v' ∧ s' = s'' :=
  ⟨Except.ok.inj (h.1.symm.trans h'.1), h.2.symm.trans h'.2⟩

end Outcomes

end Asnx.Tracing
