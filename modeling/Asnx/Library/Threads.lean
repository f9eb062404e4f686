import Mathlib.Data.List.Induction
import Mathlib.Logic.Function.Basic

/-!
# Interleaved threads

`Run R c trace d` is a finite run of the labelled transition relation `R`. A `Program` says
what a thread does next: from the shared state, its own local state and a choice of the
environment it takes one atomic step. `Step` lets any thread of a `Config` take its next
step, so a run of `Step` is an interleaving of the threads, in any order.

`Tracked` adds to a run what each thread's current call has done so far, and
`Program.under` restricts the calls of every thread to a protocol.
-/

namespace Asnx.Threads

/-! ## Runs of a transition relation -/

section Runs

variable {κ ε : Type*} {R S : κ → ε → κ → Prop}

/-- Finitely many transitions, with their labels. -/
inductive Run (R : κ → ε → κ → Prop) : κ → List ε → κ → Prop where
  | refl (c) : Run R c [] c
  | snoc {c d e : κ} {trace : List ε} {label : ε} :
      Run R c trace d → R d label e → Run R c (trace ++ [label]) e

/-- A property of the trace and the state that every step keeps holds after every run. -/
theorem Run.invariant_trace {I : List ε → κ → Prop} {c d : κ} {trace : List ε}
    (h : Run R c trace d) (hstart : I [] c)
    (hstep : ∀ trace c label d, I trace c → R c label d → I (trace ++ [label]) d) :
    I trace d := by
  induction h with
  | refl => exact hstart
  | snoc _ hlast ih => exact hstep _ _ _ _ ih hlast

/-- A property that every step keeps holds after every run. -/
theorem Run.invariant {I : κ → Prop} {c d : κ} {trace : List ε}
    (h : Run R c trace d) (hstart : I c)
    (hstep : ∀ c label d, I c → R c label d → I d) : I d :=
  h.invariant_trace (I := fun _ c => I c) hstart (fun _ c label d => hstep c label d)

/-- A run is a run of every larger relation. -/
theorem Run.mono {c d : κ} {trace : List ε} (h : Run R c trace d)
    (hRS : ∀ c label d, R c label d → S c label d) : Run S c trace d := by
  induction h with
  | refl => exact .refl _
  | snoc _ hlast ih => exact ih.snoc (hRS _ _ _ hlast)

/-- A run may be lengthened at its front. -/
theorem Run.cons {c d e : κ} {label : ε} {trace : List ε} (hfirst : R c label d)
    (h : Run R d trace e) : Run R c (label :: trace) e := by
  induction h with
  | refl => exact (Run.refl c).snoc hfirst
  | snoc _ hlast ih => exact ih.snoc hlast

/-- A run goes on with another one. -/
theorem Run.append {c d e : κ} {trace trace' : List ε} (h : Run R c trace d)
    (h' : Run R d trace' e) : Run R c (trace ++ trace') e := by
  induction h' with
  | refl =>
      rw [List.append_nil]
      exact h
  | snoc _ hlast ih =>
      rw [← List.append_assoc]
      exact ih.snoc hlast

/-- The last transition of a run. -/
theorem Run.last {c e : κ} {label : ε} {trace : List ε} (h : Run R c (trace ++ [label]) e) :
    ∃ d, Run R c trace d ∧ R d label e := by
  generalize hfull : trace ++ [label] = full at h
  cases h with
  | refl => simp at hfull
  | snoc hrun hlast =>
      obtain ⟨rfl, hlabel⟩ := List.append_inj' hfull rfl
      obtain rfl : label = _ := by simpa using hlabel
      exact ⟨_, hrun, hlast⟩

/-- The trace has an element with `p`. -/
def Seen (p : ε → Prop) (trace : List ε) : Prop := ∃ e ∈ trace, p e

@[simp] theorem seen_snoc {p : ε → Prop} {trace : List ε} {e : ε} :
    Seen p (trace ++ [e]) ↔ Seen p trace ∨ p e := by
  simp [Seen, or_and_right, exists_or]

theorem not_seen_nil {p : ε → Prop} : ¬ Seen p [] := by
  simp [Seen]

/-- `P` holds of every element of the trace and what comes before it. -/
def Always (P : List ε → ε → Prop) (trace : List ε) : Prop :=
  ∀ before e after, trace = before ++ e :: after → P before e

theorem always_nil {P : List ε → ε → Prop} : Always P [] := fun before e after h => by
  simp at h

theorem always_snoc {P : List ε → ε → Prop} {trace : List ε} {e : ε} (h : Always P trace)
    (he : P trace e) : Always P (trace ++ [e]) := by
  intro before e' after hsplit
  rcases List.eq_nil_or_concat after with rfl | ⟨after, last, rfl⟩
  · obtain ⟨rfl, rfl⟩ := List.concat_inj.1 (by simpa using hsplit)
    exact he
  · have hsplit : trace ++ [e] = (before ++ e' :: after) ++ [last] := by simpa using hsplit
    exact h before e' after (List.append_inj_left' hsplit rfl)

/-- What holds throughout a trace holds throughout its beginning. -/
theorem always_of_append {P : List ε → ε → Prop} {trace after : List ε}
    (h : Always P (trace ++ after)) : Always P trace := by
  rintro before e rest rfl
  exact h before e (rest ++ after) (by simp)

/-- The trace has an element with `p`, and none with `q` after it. -/
def Since (p q : ε → Prop) (trace : List ε) : Prop :=
  ∃ before e after, trace = before ++ e :: after ∧ p e ∧ ∀ f ∈ after, ¬ q f

theorem not_since_nil {p q : ε → Prop} : ¬ Since p q [] := by
  simp [Since]

theorem since_snoc {p q : ε → Prop} {trace : List ε} {e : ε} :
    Since p q (trace ++ [e]) ↔ p e ∨ Since p q trace ∧ ¬ q e := by
  constructor
  · intro h
    obtain ⟨before, e', after, hsplit, hp, hafter⟩ := h
    rcases List.eq_nil_or_concat after with rfl | ⟨after, last, rfl⟩
    · obtain ⟨rfl, rfl⟩ := List.concat_inj.1 (by simpa using hsplit)
      exact .inl hp
    · have hsplit : trace ++ [e] = (before ++ e' :: after) ++ [last] := by simpa using hsplit
      obtain ⟨rfl, hlast⟩ := List.append_inj' hsplit rfl
      obtain rfl : e = last := by simpa using hlast
      refine .inr ⟨⟨before, e', after, rfl, hp, fun f hf => hafter f ?_⟩, hafter e ?_⟩
      · simp [hf]
      · simp
  · intro h
    rcases h with hp | ⟨⟨before, e', after, rfl, hp, hafter⟩, hq⟩
    · exact ⟨trace, e, [], rfl, hp, by simp⟩
    · refine ⟨before, e', after ++ [e], by simp, hp, fun f hf => ?_⟩
      rcases List.mem_append.1 hf with hf | hf
      · exact hafter f hf
      · rw [List.mem_singleton.1 hf]
        exact hq

/-! What a trace says can be evaluated. -/

instance {p : ε → Prop} [DecidablePred p] (trace : List ε) : Decidable (Seen p trace) :=
  inferInstanceAs (Decidable (∃ e ∈ trace, p e))

theorem since_iff_foldl {p q : ε → Prop} [DecidablePred p] [DecidablePred q] (trace : List ε) :
    Since p q trace ↔ trace.foldl (fun b e => decide (p e) || b && !decide (q e)) false = true := by
  induction trace using List.reverseRecOn with
  | nil => exact iff_of_false not_since_nil Bool.false_ne_true
  | append_singleton trace e ih =>
      rw [since_snoc, ih, List.foldl_append]
      simp

instance {p q : ε → Prop} [DecidablePred p] [DecidablePred q] (trace : List ε) :
    Decidable (Since p q trace) :=
  decidable_of_iff _ (since_iff_foldl trace).symm

theorem always_iff_lt {P : List ε → ε → Prop} {es : List ε} :
    Always P es ↔ ∀ n (h : n < es.length), P (es.take n) es[n] := by
  constructor
  · intro h n hn
    refine h _ _ (es.drop (n + 1)) ?_
    rw [List.getElem_cons_drop, List.take_append_drop]
  · rintro h before e after rfl
    simpa using h before.length (by simp)

instance {P : List ε → ε → Prop} [∀ before e, Decidable (P before e)] (trace : List ε) :
    Decidable (Always P trace) :=
  decidable_of_iff _ always_iff_lt.symm

end Runs

/-! ## Threads -/

/-- What a thread does: under the choice `x` of the environment, `next x s l` is the next
atomic step from the shared state `s` and the local state `l`, with its event, or `none`
when there is no such step. -/
structure Program (σ ℓ χ ε : Type*) where
  next : χ → σ → ℓ → Option (ε × σ × ℓ)

/-- The shared state together with the local state of every thread. -/
structure Config (T σ ℓ : Type*) where
  shared : σ
  locals : T → ℓ

section Threads

variable {T σ ℓ χ ε : Type*} [DecidableEq T]

/-- The configuration after thread `t` has moved to `s` and `l`. -/
def Config.set (c : Config T σ ℓ) (t : T) (s : σ) (l : ℓ) : Config T σ ℓ :=
  ⟨s, Function.update c.locals t l⟩

@[simp] theorem Config.set_shared (c : Config T σ ℓ) (t : T) (s : σ) (l : ℓ) :
    (c.set t s l).shared = s := rfl

@[simp] theorem Config.set_locals_self (c : Config T σ ℓ) (t : T) (s : σ) (l : ℓ) :
    (c.set t s l).locals t = l := by
  simp [set]

theorem Config.set_locals_other (c : Config T σ ℓ) {t u : T} (h : u ≠ t) (s : σ) (l : ℓ) :
    (c.set t s l).locals u = c.locals u := by
  simp [set, h]

/-- Some thread takes its next atomic step. -/
inductive Step (P : Program σ ℓ χ ε) : Config T σ ℓ → T × ε → Config T σ ℓ → Prop where
  | mk {c : Config T σ ℓ} {t : T} {x : χ} {e : ε} {s : σ} {l : ℓ} :
      P.next x c.shared (c.locals t) = some (e, s, l) → Step P c (t, e) (c.set t s l)

/-- The run in which the threads step in the given order under the given choices, as long as
every step passes the test `ok`. -/
def Program.execIf (P : Program σ ℓ χ ε) (ok : Config T σ ℓ → T × ε → Bool) :
    Config T σ ℓ → List (T × χ) → Option (List (T × ε) × Config T σ ℓ)
  | c, [] => some ([], c)
  | c, (t, x) :: rest =>
      match P.next x c.shared (c.locals t) with
      | none => none
      | some (e, s, l) =>
          if ok c (t, e) then
            match P.execIf ok (c.set t s l) rest with
            | none => none
            | some (trace, d) => some ((t, e) :: trace, d)
          else none

/-- The run in which the threads step in the given order under the given choices. -/
def Program.exec (P : Program σ ℓ χ ε) (c : Config T σ ℓ) (schedule : List (T × χ)) :
    Option (List (T × ε) × Config T σ ℓ) :=
  P.execIf (fun _ _ => true) c schedule

/-- An executed schedule is a run whose steps pass the test. -/
theorem Program.exec_if_run {P : Program σ ℓ χ ε} {ok : Config T σ ℓ → T × ε → Bool}
    {c d : Config T σ ℓ} {schedule : List (T × χ)} {trace : List (T × ε)}
    (h : P.execIf ok c schedule = some (trace, d)) :
    Run (fun c label d => Step P c label d ∧ ok c label = true) c trace d := by
  induction schedule generalizing c trace with
  | nil =>
      cases h
      exact .refl _
  | cons head rest ih =>
      obtain ⟨t, x⟩ := head
      simp only [execIf] at h
      split at h
      · cases h
      · rename_i hnext
        split at h
        · rename_i hok
          split at h
          · cases h
          · rename_i hrest
            cases h
            exact .cons ⟨.mk hnext, hok⟩ (ih hrest)
        · cases h

/-- An executed schedule is a run. -/
theorem Program.exec_run {P : Program σ ℓ χ ε} {c d : Config T σ ℓ} {schedule : List (T × χ)}
    {trace : List (T × ε)} (h : P.exec c schedule = some (trace, d)) :
    Run (Step P) c trace d :=
  (exec_if_run h).mono fun _ _ _ h => h.1

/-- A schedule of one step is a step. -/
theorem Program.exec_step {P : Program σ ℓ χ ε} {c d : Config T σ ℓ} {t : T} {x : χ}
    {label : T × ε} (h : P.exec c [(t, x)] = some ([label], d)) : Step P c label d := by
  simp only [exec, execIf] at h
  split at h
  · cases h
  · rename_i hnext
    cases h
    exact .mk hnext

/-- A schedule that can be executed with a result that passes the test `p` gives such a run. -/
theorem Program.exec_test {P : Program σ ℓ χ ε} {c : Config T σ ℓ} {schedule : List (T × χ)}
    {p : List (T × ε) × Config T σ ℓ → Bool} (h : (P.exec c schedule).any p = true) :
    ∃ trace d, Run (Step P) c trace d ∧ p (trace, d) = true := by
  obtain ⟨⟨trace, d⟩, hexec, hp⟩ := (Option.any_eq_true _ _).1 h
  exact ⟨trace, d, exec_run hexec, hp⟩

/-- A step that can be executed with a result that passes the test `p`. -/
theorem Program.exec_one {P : Program σ ℓ χ ε} {c : Config T σ ℓ} {t : T} {x : χ}
    {p : List (T × ε) × Config T σ ℓ → Bool} (h : (P.exec c [(t, x)]).any p = true) :
    ∃ e d, Step P c (t, e) d ∧ p ([(t, e)], d) = true := by
  obtain ⟨⟨trace, d⟩, hexec, hp⟩ := (Option.any_eq_true _ _).1 h
  simp only [exec, execIf] at hexec
  split at hexec
  · cases hexec
  · rename_i hnext
    cases hexec
    exact ⟨_, _, .mk hnext, hp⟩

/-! ## What the current call has done -/

/-- A configuration together with a note for every thread about its current call. -/
structure Tracked (T σ ℓ μ : Type*) where
  config : Config T σ ℓ
  note : T → μ

/-- A step of the threads that also updates the note of the thread that moved. The note is
reset to `zero` by a step that begins a call, and `add` enters the step into it. -/
inductive Tracked.Step {μ : Type*} (P : Program σ ℓ χ ε) (begins : ε → Prop) [DecidablePred begins]
    (zero : μ) (add : μ → σ → σ → μ) : Tracked T σ ℓ μ → T × ε → Tracked T σ ℓ μ → Prop where
  | mk {c d : Config T σ ℓ} {note : T → μ} {t : T} {e : ε} :
      Threads.Step P c (t, e) d →
      Tracked.Step P begins zero add ⟨c, note⟩ (t, e)
        ⟨d, Function.update note t (add (if begins e then zero else note t) c.shared d.shared)⟩

/-- The note that a step of the threads leads to. -/
theorem Tracked.exists_step {μ : Type*} {P : Program σ ℓ χ ε} {begins : ε → Prop}
    [DecidablePred begins] {zero : μ} {add : μ → σ → σ → μ} {c d : Config T σ ℓ} {t : T} {e : ε}
    (h : Threads.Step P c (t, e) d) (note : T → μ) :
    ∃ note', Tracked.Step P begins zero add ⟨c, note⟩ (t, e) ⟨d, note'⟩ ∧
      note' t = add (if begins e then zero else note t) c.shared d.shared :=
  ⟨_, .mk h, Function.update_self ..⟩

/-- Every run of some of the steps of the threads can carry notes. -/
theorem Tracked.exists_run_of {μ : Type*} {P : Program σ ℓ χ ε} {begins : ε → Prop}
    [DecidablePred begins] {zero : μ} {add : μ → σ → σ → μ}
    {R : Config T σ ℓ → T × ε → Config T σ ℓ → Prop} {c d : Config T σ ℓ} {trace : List (T × ε)}
    (h : Run R c trace d) (hR : ∀ c label d, R c label d → Threads.Step P c label d)
    (note : T → μ) :
    ∃ note', Run (fun c label d => Tracked.Step P begins zero add c label d ∧
      R c.config label d.config) ⟨c, note⟩ trace ⟨d, note'⟩ := by
  induction h with
  | refl => exact ⟨note, .refl _⟩
  | snoc _ hlast ih =>
      obtain ⟨note', hrun⟩ := ih
      exact ⟨_, hrun.snoc ⟨.mk (hR _ _ _ hlast), hlast⟩⟩

/-- Every run of the threads can carry notes. -/
theorem Tracked.exists_run {μ : Type*} {P : Program σ ℓ χ ε} {begins : ε → Prop}
    [DecidablePred begins] {zero : μ} {add : μ → σ → σ → μ} {c d : Config T σ ℓ}
    {trace : List (T × ε)} (h : Run (Threads.Step P) c trace d) (note : T → μ) :
    ∃ note', Run (Tracked.Step P begins zero add) ⟨c, note⟩ trace ⟨d, note'⟩ := by
  have hcarried : ∃ note', Run (fun c label d => Tracked.Step P begins zero add c label d ∧
      Threads.Step P c.config label d.config) ⟨c, note⟩ trace ⟨d, note'⟩ :=
    exists_run_of h (fun _ _ _ => id) note
  obtain ⟨note', hrun⟩ := hcarried
  exact ⟨note', hrun.mono fun _ _ _ hstep => hstep.1⟩

/-- An invariant `I` of the configurations and a relation `N` between a thread's local state and
its note hold after every run, when a step of a thread keeps both. -/
theorem Tracked.invariant {μ : Type*} {P : Program σ ℓ χ ε} {begins : ε → Prop}
    [DecidablePred begins] {zero : μ} {add : μ → σ → σ → μ} {I : Config T σ ℓ → Prop}
    {N : ℓ → μ → Prop} {c d : Tracked T σ ℓ μ} {trace : List (T × ε)}
    (h : Run (Tracked.Step P begins zero add) c trace d)
    (hstart : I c.config) (hnotes : ∀ t, N (c.config.locals t) (c.note t))
    (hstep : ∀ c label d, I c → Threads.Step P c label d → I d)
    (hnote : ∀ c t x e s l m, I c → N (c.locals t) m →
      P.next x c.shared (c.locals t) = some (e, s, l) →
      N l (add (if begins e then zero else m) c.shared s)) :
    I d.config ∧ ∀ t, N (d.config.locals t) (d.note t) := by
  refine h.invariant (I := fun c => I c.config ∧ ∀ t, N (c.config.locals t) (c.note t))
    ⟨hstart, hnotes⟩ ?_
  rintro _ _ _ ⟨hinv, hnotes⟩ (@⟨c, d, note, t, e, hmove⟩)
  refine ⟨hstep _ _ _ hinv hmove, fun u => ?_⟩
  cases hmove with
  | @mk _ x _ s l hnext =>
      show N ((c.set t s l).locals u) (Function.update note t _ u)
      by_cases hu : u = t
      · subst hu
        rw [Config.set_locals_self, Function.update_self]
        exact hnote c u x e s l _ hinv (hnotes u) hnext
      · rw [Config.set_locals_other _ hu, Function.update_of_ne hu]
        exact hnotes u

/-! ## Protocols -/

/-- The program whose events must follow the automaton `δ`, whose state joins the local state. -/
def Program.under {q : Type*} (P : Program σ ℓ χ ε) (δ : q → ε → Option q) :
    Program σ (ℓ × q) χ ε where
  next x s l :=
    match P.next x s l.1 with
    | none => none
    | some (e, s', l') =>
        match δ l.2 e with
        | none => none
        | some q' => some (e, s', (l', q'))

/-- The configuration without the protocol states. -/
def Config.inner {q : Type*} (c : Config T σ (ℓ × q)) : Config T σ ℓ :=
  ⟨c.shared, fun t => (c.locals t).1⟩

omit [DecidableEq T] in
@[simp] theorem Config.inner_shared {q : Type*} (c : Config T σ (ℓ × q)) :
    c.inner.shared = c.shared := rfl

omit [DecidableEq T] in
@[simp] theorem Config.inner_locals {q : Type*} (c : Config T σ (ℓ × q)) (t : T) :
    c.inner.locals t = (c.locals t).1 := rfl

theorem Config.inner_set {q : Type*} (c : Config T σ (ℓ × q)) (t : T) (s : σ) (l : ℓ × q) :
    (c.set t s l).inner = c.inner.set t s l.1 := by
  unfold inner set
  congr 1
  funext u
  exact Function.apply_update (fun _ => Prod.fst) c.locals t l u

/-- A step under a protocol is a step of the program that the protocol allows. -/
theorem Program.under_step {q : Type*} {P : Program σ ℓ χ ε} {δ : q → ε → Option q}
    {c d : Config T σ (ℓ × q)} {t : T} {e : ε} (h : Step (P.under δ) c (t, e) d) :
    ∃ x s l r, P.next x c.shared (c.locals t).1 = some (e, s, l) ∧
      δ (c.locals t).2 e = some r ∧ d = c.set t s (l, r) := by
  cases h with
  | @mk _ x _ s l hnext =>
      simp only [under] at hnext
      split at hnext
      · cases hnext
      · rename_i hprogram
        split at hnext
        · cases hnext
        · rename_i hprotocol
          cases hnext
          exact ⟨x, s, _, _, hprogram, hprotocol, rfl⟩

/-- Without the protocol states, a step under a protocol is a step of the program. -/
theorem Program.under_step_inner {q : Type*} {P : Program σ ℓ χ ε} {δ : q → ε → Option q}
    {c d : Config T σ (ℓ × q)} {label : T × ε} (h : Step (P.under δ) c label d) :
    Step P c.inner label d.inner := by
  obtain ⟨x, s, l, r, hnext, -, rfl⟩ := under_step h
  rw [Config.inner_set]
  exact .mk hnext

end Threads

end Asnx.Threads
