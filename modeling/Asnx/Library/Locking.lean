import Asnx.Library.Threads

/-!
# Sections under a lock that is initialised late

Threads that work on shared data in sections under a lock. A section is a program that gets at the
data by single accesses (`Access`), and other threads may act between any two of them. Before a
section a thread looks whether the lock has been initialised, and initialises it if not. It does so
without a lock, so a thread that comes late may make a lock free that another thread holds
(`Act.resets`).

As long as no thread does that (`Calm`) the sections may be taken as single steps: the data as they
were when the lock was last taken, with the points at which the threads stand (`view`), go through
a run of the program whose steps are whole sections (`view_run`), and every run of that program
comes about in this way (`realized`).
-/

namespace Asnx.Locking

open Threads

/-! ## Programs that work on shared data -/

/-- A program that gets at shared data by accesses of the kind `ι`, with results of the type
`res`. -/
inductive Access (ι : Type) (res : ι → Type) (α : Type) where
  | ret (v : α)
  | op (i : ι) (next : res i → Access ι res α)

namespace Access

variable {ι : Type} {res : ι → Type} {α β σ : Type}

/-- One program after another. -/
def andThen : Access ι res α → (α → Access ι res β) → Access ι res β
  | ret v, f => f v
  | op i next, f => op i fun r => (next r).andThen f

instance : Monad (Access ι res) where
  pure := ret
  bind := andThen

/-- One access. -/
def one (i : ι) : Access ι res (res i) := op i ret

/-- What the program returns and leaves behind when no other thread acts in between, where `effect`
says what an access does; `none` if one of them is not possible. -/
def exec (effect : (i : ι) → σ → Option (res i × σ)) : Access ι res α → σ → Option (α × σ)
  | ret v, s => some (v, s)
  | op i next, s => (effect i s).bind fun r => (next r.1).exec effect r.2

variable {effect : (i : ι) → σ → Option (res i × σ)} {s : σ}

@[simp] theorem exec_ret (v : α) : (ret v : Access ι res α).exec effect s = some (v, s) := rfl

@[simp] theorem exec_pure (v : α) : (pure v : Access ι res α).exec effect s = some (v, s) := rfl

@[simp] theorem exec_one (i : ι) : (one i : Access ι res (res i)).exec effect s = effect i s := by
  show ((effect i s).bind fun r => some (r.1, r.2)) = effect i s
  cases effect i s <;> rfl

@[simp] theorem exec_bind (p : Access ι res α) (f : α → Access ι res β) :
    (p >>= f).exec effect s = (p.exec effect s).bind fun r => (f r.1).exec effect r.2 := by
  induction p generalizing s with
  | ret v => rfl
  | op i next ih =>
      show ((effect i s).bind fun r => ((next r.1).andThen f).exec effect r.2) = _
      have hnext : ∀ r : res i × σ, ((next r.1).andThen f).exec effect r.2 =
          ((next r.1).exec effect r.2).bind fun r => (f r.1).exec effect r.2 := fun r => ih r.1
      simp only [hnext, exec, Option.bind_assoc]

@[simp] theorem exec_ite {c : Prop} [Decidable c] (p q : Access ι res α) :
    (if c then p else q).exec effect s = if c then p.exec effect s else q.exec effect s := by
  split <;> rfl

end Access

/-! ## Threads -/

/-- The data behind a lock, and the lock. -/
structure Guarded (σ : Type) where
  data : σ
  initialized : Bool
  held : Bool
  /-- What the data were when the lock was last taken. -/
  entered : σ

variable {σ ℓ χ κ ε ι : Type} {res : ι → Type}

/-- What the data are between two sections: a section that has begun does not count before its
end. -/
def Guarded.settled (s : Guarded σ) : σ := if s.held then s.entered else s.data

/-- What threads do: the steps of a thread that take no lock, the section that begins at a point,
and what an access does. The environment chooses between steps by a `χ`, and what it decides for a
section is a `κ`. -/
structure Calls (σ ℓ χ κ ε ι : Type) (res : ι → Type) where
  outside : χ → ℓ → Option (ε × ℓ)
  body : ℓ → Option (Access ι res (ε × ℓ))
  /-- The thread has waited under the lock and only takes it again. -/
  woken : ℓ → Bool
  effect : κ → (i : ι) → σ → Option (res i × σ)

/-- Where a thread is: outside of sections, before it initialises the lock or notes that it has,
before it takes the lock, or in a section, with what is left of it. -/
inductive Place (ℓ κ ε ι : Type) (res : ι → Type) where
  | outer (l : ℓ)
  | init (l : ℓ)
  | note (l : ℓ)
  | lock (l : ℓ)
  | inside (l : ℓ) (k : κ) (rest : Access ι res (ε × ℓ))

/-- What the environment decides. -/
inductive Turn (χ κ : Type) where
  | outside (x : χ)
  | goes (k : κ)

/-- What a step does: something that is seen, the initialisation of the lock, or neither. -/
inductive Act (ε : Type) where
  | inner
  | resets
  | shows (e : ε)
  deriving DecidableEq

variable {C : Calls σ ℓ χ κ ε ι res}

/-- The next step of a thread. -/
def Calls.next (C : Calls σ ℓ χ κ ε ι res) : Turn χ κ → Guarded σ → Place ℓ κ ε ι res →
    Option (Act ε × Guarded σ × Place ℓ κ ε ι res)
  | .outside x, s, .outer l =>
      match C.outside x l with
      | none => none
      | some (e, l) => some (.shows e, s, .outer l)
  | .goes _, s, .outer l =>
      match C.body l with
      | none => none
      | some _ => some (.inner, s, if C.woken l ∨ s.initialized then .lock l else .init l)
  | .goes _, s, .init l => some (.resets, { s with held := false }, .note l)
  | .goes _, s, .note l => some (.inner, { s with initialized := true }, .lock l)
  | .goes k, s, .lock l =>
      match s.held, C.body l with
      | false, some b => some (.inner, { s with held := true, entered := s.data }, .inside l k b)
      | _, _ => none
  | .goes _, s, .inside l k (.op i next) =>
      match C.effect k i s.data with
      | none => none
      | some (r, data) => some (.inner, { s with data := data }, .inside l k (next r))
  | .goes _, s, .inside _ _ (.ret (e, l)) => some (.shows e, { s with held := false }, .outer l)
  | .outside _, _, _ => none

/-- The threads. -/
def Calls.program (C : Calls σ ℓ χ κ ε ι res) :
    Program (Guarded σ) (Place ℓ κ ε ι res) (Turn χ κ) (Act ε) := ⟨C.next⟩

/-- The threads with the data and the lock. -/
abbrev State (T : Type*) (σ ℓ κ ε ι : Type) (res : ι → Type) :=
    Config T (Guarded σ) (Place ℓ κ ε ι res)

/-- The point at which a thread stands. -/
def Place.point : Place ℓ κ ε ι res → ℓ
  | .outer l | .init l | .note l | .lock l | .inside l _ _ => l

def Place.Inside : Place ℓ κ ε ι res → Prop
  | .inside .. => True
  | _ => False

/-- The data between two sections, and the points at which the threads stand. -/
def view {T : Type*} (c : State T σ ℓ κ ε ι res) : Config T σ ℓ :=
  ⟨c.shared.settled, fun t => (c.locals t).point⟩

/-- The step does not initialise a lock that is held. -/
def Calm {T : Type*} (c : State T σ ℓ κ ε ι res) (label : T × Act ε) : Prop :=
  label.2 = .resets → c.shared.held = false

/-- What is seen of a run. -/
def shown {T : Type*} (trace : List (T × Act ε)) : List (T × ε) :=
  trace.filterMap fun label =>
    match label.2 with
    | .shows e => some (label.1, e)
    | _ => none

/-- The steps of the program are whole sections of the threads. -/
structure Serves (C : Calls σ ℓ χ κ ε ι res) {χ' : Type} (P : Program σ ℓ χ' ε) : Prop where
  outside : ∀ {x l e l'}, C.outside x l = some (e, l') → ∀ s, ∃ y, P.next y s l = some (e, s, l')
  inside : ∀ {l b k s e l' s'}, C.body l = some b → b.exec (C.effect k) s = some ((e, l'), s') →
    ∃ y, P.next y s l = some (e, s', l')

/-- The threads can do all steps of the program. -/
def Completes (C : Calls σ ℓ χ κ ε ι res) {χ' : Type} (P : Program σ ℓ χ' ε) : Prop :=
  ∀ y s l e s' l', P.next y s l = some (e, s', l') →
    (s' = s ∧ ∃ x, C.outside x l = some (e, l')) ∨
      ∃ b k, C.body l = some b ∧ b.exec (C.effect k) s = some ((e, l'), s')

/-! ## One step -/

/-- What a step of a thread does. -/
inductive Moves (C : Calls σ ℓ χ κ ε ι res) (s : Guarded σ) :
    Place ℓ κ ε ι res → Act ε → Guarded σ → Place ℓ κ ε ι res → Prop where
  | outside {x l e l'} : C.outside x l = some (e, l') →
      Moves C s (.outer l) (.shows e) s (.outer l')
  | prepares {p a initialized held p'} : ¬ p.Inside → ¬ p'.Inside → p'.point = p.point →
      (∀ e, a ≠ .shows e) → (held = s.held ∨ a = .resets ∧ held = false) →
      Moves C s p a { s with initialized := initialized, held := held } p'
  | takes {l k b} : s.held = false → C.body l = some b →
      Moves C s (.lock l) .inner { s with held := true, entered := s.data } (.inside l k b)
  | accesses {l k i next r data} : C.effect k i s.data = some (r, data) →
      Moves C s (.inside l k (.op i next)) .inner { s with data := data } (.inside l k (next r))
  | leaves {l k e l'} :
      Moves C s (.inside l k (.ret (e, l'))) (.shows e) { s with held := false } (.outer l')

theorem next_moves {x : Turn χ κ} {s s' : Guarded σ} {p p' : Place ℓ κ ε ι res} {a : Act ε}
    (h : C.next x s p = some (a, s', p')) : Moves C s p a s' p' := by
  unfold Calls.next at h
  -- one branch for each kind of place, in the order of `Calls.next`
  split at h
  · split at h
    · cases h
    · rename_i hout
      cases h
      exact .outside hout
  · split at h
    · cases h
    · cases h
      refine .prepares id ?_ ?_ nofun (.inl rfl)
      · split <;> exact id
      · split <;> rfl
  · cases h
    exact .prepares id id rfl nofun (.inr ⟨rfl, rfl⟩)
  · cases h
    exact .prepares id id rfl nofun (.inl rfl)
  · split at h
    · rename_i hheld hbody
      cases h
      exact .takes hheld hbody
    · cases h
  · split at h
    · cases h
    · rename_i heffect
      cases h
      exact .accesses heffect
  · cases h
    exact .leaves
  · cases h

/-- A section goes on with its next access. -/
theorem next_access {x k : κ} {s : Guarded σ} {l : ℓ} {i : ι} {next : res i → Access ι res (ε × ℓ)}
    {r : res i} {data : σ} (h : C.effect k i s.data = some (r, data)) :
    C.next (.goes x) s (.inside l k (.op i next)) =
      some (.inner, { s with data := data }, .inside l k (next r)) := by
  simp only [Calls.next, h]

section Views

variable {T : Type*} [DecidableEq T] {c c' d : State T σ ℓ κ ε ι res} {t u : T} {a : Act ε} {e : ε}
  {s s' : Guarded σ} {p p' : Place ℓ κ ε ι res}

theorem view_set (c : State T σ ℓ κ ε ι res) (t : T) (s : Guarded σ) (p : Place ℓ κ ε ι res) :
    view (c.set t s p) = (view c).set t s.settled p.point := by
  unfold view Config.set
  congr 1
  funext u
  exact Function.apply_update (fun _ => Place.point) c.locals t p u

/-- A step that leaves the data and the point alone is not seen. -/
theorem view_set_same (hs : s.settled = c.shared.settled) (hp : p.point = (c.locals t).point) :
    view (c.set t s p) = view c := by
  rw [view_set, hs, hp]
  unfold view Config.set
  congr 1
  exact Function.update_eq_self t _

/-- One thread at a time is in a section, and only with the lock; and what is left of the section
leads to what all of it does to the data from when the lock was taken. -/
structure Exclusive (C : Calls σ ℓ χ κ ε ι res) (c : State T σ ℓ κ ε ι res) : Prop where
  free : c.shared.held = false → ∀ t, ¬ (c.locals t).Inside
  alone : ∀ t u, (c.locals t).Inside → (c.locals u).Inside → t = u
  going : ∀ t l k rest, c.locals t = .inside l k rest → ∃ b, C.body l = some b ∧
    rest.exec (C.effect k) c.shared.data = b.exec (C.effect k) c.shared.entered

theorem inside_other (hp : ¬ p.Inside) (h : ((c.set t s p).locals u).Inside) :
    u ≠ t ∧ (c.locals u).Inside := by
  by_cases hu : u = t
  case pos =>
    subst hu
    rw [Config.set_locals_self] at h
    exact absurd h hp
  case neg =>
    rw [Config.set_locals_other _ hu] at h
    exact ⟨hu, h⟩

omit [DecidableEq T] in
theorem Exclusive.held (h : Exclusive C c) (hin : (c.locals t).Inside) : c.shared.held = true := by
  by_contra hfree
  exact h.free (Bool.eq_false_iff.2 hfree) t hin

/-- A thread outside of sections that leaves the data and the lock alone. -/
theorem Exclusive.set (h : Exclusive C c) (hp : ¬ p.Inside) (hheld : s.held = c.shared.held)
    (hdata : s.data = c.shared.data) (hentered : s.entered = c.shared.entered) :
    Exclusive C (c.set t s p) := by
  refine ⟨fun hfree u hu => ?_, fun u v hu hv => ?_, fun u l k rest hu => ?_⟩
  · exact h.free (hheld.symm.trans hfree) u (inside_other hp hu).2
  · exact h.alone u v (inside_other hp hu).2 (inside_other hp hv).2
  · obtain ⟨hne, -⟩ := inside_other (s := s) (u := u) (c := c) (t := t) hp (by rw [hu]; trivial)
    rw [Config.set_locals_other _ hne] at hu
    rw [Config.set_shared, hdata, hentered]
    exact h.going u l k rest hu

/-- A thread that enters or goes on with a section, while no other thread is in one. -/
theorem Exclusive.set_inside {l : ℓ} {k : κ} {rest b : Access ι res (ε × ℓ)}
    (hothers : ∀ u, u ≠ t → ¬ (c.locals u).Inside) (hheld : s.held = true)
    (hbody : C.body l = some b)
    (hrest : rest.exec (C.effect k) s.data = b.exec (C.effect k) s.entered) :
    Exclusive C (c.set t s (.inside l k rest)) := by
  have hself : ∀ u, ((c.set t s (.inside l k rest)).locals u).Inside → u = t := by
    intro u hu
    by_contra hne
    rw [Config.set_locals_other _ hne] at hu
    exact hothers u hne hu
  refine ⟨fun hfree => ?_, fun u v hu hv => (hself u hu).trans (hself v hv).symm,
    fun u l' k' rest' hu => ?_⟩
  · rw [Config.set_shared, hheld] at hfree
    cases hfree
  · obtain rfl : u = t := hself u (by rw [hu]; trivial)
    rw [Config.set_locals_self] at hu
    cases hu
    exact ⟨b, hbody, hrest⟩

/-- The last thread in a section leaves it. -/
theorem Exclusive.set_free (hothers : ∀ u, u ≠ t → ¬ (c.locals u).Inside) (hp : ¬ p.Inside) :
    Exclusive C (c.set t s p) := by
  have hnone : ∀ u, ¬ ((c.set t s p).locals u).Inside := fun u hu =>
    hothers u (inside_other hp hu).1 (inside_other hp hu).2
  refine ⟨fun _ => hnone, fun u v hu => absurd hu (hnone u), fun u l k rest hu => ?_⟩
  exact absurd (by rw [hu]; trivial) (hnone u)

/-- A calm step keeps the sections apart. -/
theorem Exclusive.step (h : Exclusive C c) (hstep : Step C.program c (t, a) d)
    (hcalm : Calm c (t, a)) : Exclusive C d := by
  cases hstep with
  | @mk _ x _ s p hnext =>
      have hmoves := next_moves hnext
      generalize hp : c.locals t = q at hmoves
      have hothers : q.Inside → ∀ u, u ≠ t → ¬ (c.locals u).Inside := fun hq u hu hin =>
        hu (h.alone u t hin (by rwa [hp]))
      cases hmoves with
      | outside => exact h.set id rfl rfl rfl
      | prepares _ hp' _ _ hheld =>
          -- a calm reset finds the lock free, so it takes it from nobody
          refine h.set hp' ?_ rfl rfl
          rcases hheld with hheld | ⟨hresets, hheld⟩
          · exact hheld
          · exact hheld.trans (hcalm hresets).symm
      | takes hheld hbody =>
          exact .set_inside (fun u _ => h.free hheld u) rfl hbody rfl
      | @accesses l k i next r data heffect =>
          -- the rest of the section still leads to what all of it does
          obtain ⟨b, hbody, hrest⟩ := h.going t _ _ _ hp
          refine .set_inside (hothers trivial) (h.held (t := t) (by rw [hp]; trivial)) hbody ?_
          rw [← hrest]
          show _ = (C.effect k i c.shared.data).bind _
          rw [heffect]
          rfl
      | leaves => exact .set_free (hothers trivial) id

/-- How a step is seen. -/
def Viewed {χ' : Type} (P : Program σ ℓ χ' ε) (c : State T σ ℓ κ ε ι res) (label : T × Act ε)
    (d : State T σ ℓ κ ε ι res) : Prop :=
  match label.2 with
  | .shows e => Step P (view c) (label.1, e) (view d)
  | _ => view d = view c

variable {χ' : Type} {P : Program σ ℓ χ' ε}

/-- A calm step is not seen, or it is a step of the program. -/
theorem Exclusive.viewed (hP : Serves C P) (h : Exclusive C c) (hstep : Step C.program c (t, a) d)
    (hcalm : Calm c (t, a)) : Viewed P c (t, a) d := by
  cases hstep with
  | @mk _ x _ s p hnext =>
      have hmoves := next_moves hnext
      generalize hp : c.locals t = q at hmoves
      have hpoint : (view c).locals t = q.point := congrArg Place.point hp
      cases hmoves with
      | @outside x l e l' hout =>
          obtain ⟨y, hnext⟩ := hP.outside hout c.shared.settled
          show Step P (view c) (t, e) (view (c.set t c.shared (.outer l')))
          rw [view_set]
          refine .mk (x := y) ?_
          rw [hpoint]
          exact hnext
      | @prepares _ _ initialized held _ _ _ hsame ha hheld =>
          have hheld' : held = c.shared.held := by
            rcases hheld with hheld | ⟨hresets, hheld⟩
            · exact hheld
            · exact hheld.trans (hcalm hresets).symm
          have hview : view (c.set t ⟨c.shared.data, initialized, held, c.shared.entered⟩ p) =
              view c := by
            refine view_set_same ?_ (hsame.trans (congrArg Place.point hp).symm)
            unfold Guarded.settled
            rw [hheld']
          cases a with
          | inner | resets => exact hview
          | shows e => exact absurd rfl (ha e)
      | takes hheld =>
          -- from here on the data are seen as they are now
          refine view_set_same ?_ (congrArg Place.point hp).symm
          unfold Guarded.settled
          rw [hheld]
          rfl
      | accesses =>
          refine view_set_same ?_ (congrArg Place.point hp).symm
          have hheld := h.held (t := t) (by rw [hp]; trivial)
          unfold Guarded.settled
          rw [hheld]
          rfl
      | @leaves l k e l' =>
          -- the whole section is seen now, as one step
          obtain ⟨b, hbody, hrest⟩ := h.going t _ _ _ hp
          obtain ⟨y, hnext⟩ := hP.inside hbody hrest.symm
          have hsettled : c.shared.settled = c.shared.entered := by
            unfold Guarded.settled
            rw [h.held (t := t) (by rw [hp]; trivial)]
            rfl
          show Step P (view c) (t, e) (view (c.set t _ (.outer l')))
          rw [view_set]
          refine .mk (x := y) ?_
          rw [hpoint]
          show P.next y c.shared.settled l = _
          rw [hsettled]
          exact hnext

/-! ## Runs -/

/-- A step that is calm, and meets a condition on the view if it is seen. -/
def CalmStep (C : Calls σ ℓ χ κ ε ι res) (Q : Config T σ ℓ → T × ε → Prop)
    (c : State T σ ℓ κ ε ι res) (label : T × Act ε) (d : State T σ ℓ κ ε ι res) : Prop :=
  Step C.program c label d ∧ Calm c label ∧ ∀ e, label.2 = .shows e → Q (view c) (label.1, e)

/-- A step that is calm and not seen. -/
def Inner (C : Calls σ ℓ χ κ ε ι res) (c : State T σ ℓ κ ε ι res) (label : T × Act ε)
    (d : State T σ ℓ κ ε ι res) : Prop :=
  Step C.program c label d ∧ Calm c label ∧ ∀ e, label.2 ≠ .shows e

variable {Q : Config T σ ℓ → T × ε → Prop} {trace : List (T × Act ε)}

omit [DecidableEq T] in
theorem shown_shows (trace : List (T × Act ε)) (t : T) (e : ε) :
    shown (trace ++ [(t, .shows e)]) = shown trace ++ [(t, e)] := by
  simp [shown]

omit [DecidableEq T] in
theorem shown_inner {label : T × Act ε} (h : ∀ e, label.2 ≠ .shows e) (trace : List (T × Act ε)) :
    shown (trace ++ [label]) = shown trace := by
  obtain ⟨t, a⟩ := label
  cases a with
  | inner | resets => simp [shown]
  | shows e => exact absurd rfl (h e)

omit [DecidableEq T] in
theorem shown_append (trace more : List (T × Act ε)) :
    shown (trace ++ more) = shown trace ++ shown more := List.filterMap_append

omit [DecidableEq T] in
theorem mem_shown : (t, e) ∈ shown trace ↔ (t, .shows e) ∈ trace := by
  unfold shown
  rw [List.mem_filterMap]
  constructor
  · rintro ⟨⟨u, a⟩, hmem, hshows⟩
    cases a with
    | inner | resets => cases hshows
    | shows e' =>
        cases hshows
        exact hmem
  · exact fun hmem => ⟨_, hmem, rfl⟩

/-- What is seen of a calm run is a run of the program. -/
theorem view_run (hP : Serves C P) (hc : Exclusive C c) (h : Run (CalmStep C Q) c trace d) :
    Exclusive C d ∧
      Run (fun c label d => Step P c label d ∧ Q c label) (view c) (shown trace) (view d) := by
  induction h with
  | refl => exact ⟨hc, .refl _⟩
  | @snoc _ _ _ label _ hlast ih =>
      obtain ⟨hexclusive, hrun⟩ := ih
      obtain ⟨t, a⟩ := label
      obtain ⟨hstep, hcalm, hQ⟩ := hlast
      have hviewed := hexclusive.viewed hP hstep hcalm
      refine ⟨hexclusive.step hstep hcalm, ?_⟩
      cases a with
      | inner | resets =>
          rw [shown_inner nofun, show view _ = view _ from hviewed]
          exact hrun
      | shows e =>
          rw [shown_shows]
          exact hrun.snoc ⟨hviewed, hQ e rfl⟩

/-! ## Every run comes about -/

/-- No thread is in a section or on its way into one. -/
structure Quiet (c : State T σ ℓ κ ε ι res) : Prop where
  held : c.shared.held = false
  outer : ∀ t, ∃ l, c.locals t = .outer l

omit [DecidableEq T] in
theorem Quiet.exclusive (h : Quiet c) : Exclusive C c := by
  have hnone : ∀ t, ¬ (c.locals t).Inside := by
    intro t
    obtain ⟨l, hl⟩ := h.outer t
    rw [hl]
    exact id
  refine ⟨fun _ => hnone, fun t u ht => absurd ht (hnone t), fun t l k rest ht => ?_⟩
  exact absurd (by rw [ht]; trivial) (hnone t)

theorem Quiet.set (h : Quiet c) (hs : s.held = false) (l : ℓ) : Quiet (c.set t s (.outer l)) := by
  refine ⟨hs, fun u => ?_⟩
  by_cases hu : u = t
  case pos =>
    subst hu
    exact ⟨l, Config.set_locals_self ..⟩
  case neg =>
    rw [Config.set_locals_other _ hu]
    exact h.outer u

theorem set_set (c : State T σ ℓ κ ε ι res) (t : T) (s s' : Guarded σ) (p p' : Place ℓ κ ε ι res) :
    (c.set t s p).set t s' p' = c.set t s' p' := by
  unfold Config.set
  rw [Function.update_idem]

/-- A step of the thread from where it has come to. -/
theorem step_set {x : Turn χ κ} (h : C.next x s p = some (a, s', p')) :
    Step C.program (c.set t s p) (t, a) (c.set t s' p') := by
  rw [← set_set c t s s' p p']
  refine .mk (x := x) ?_
  rw [Config.set_locals_self]
  exact h

/-- The accesses of a section, by induction on what is left of it. -/
theorem inside_run {l : ℓ} {k : κ} {rest : Access ι res (ε × ℓ)} {v : ε × ℓ} {data : σ}
    (h : rest.exec (C.effect k) s.data = some (v, data)) : ∃ trace, Run (Inner C)
      (c.set t s (.inside l k rest)) trace
        (c.set t { s with data := data } (.inside l k (.ret v))) := by
  induction rest generalizing s with
  | ret w =>
      cases h
      exact ⟨[], .refl _⟩
  | op i next ih =>
      obtain ⟨⟨r, data'⟩, heffect, hrest⟩ := Option.bind_eq_some_iff.1 h
      obtain ⟨trace, hrun⟩ := ih r (s := { s with data := data' }) hrest
      exact ⟨_, hrun.cons ⟨step_set (x := .goes k) (next_access heffect), nofun, nofun⟩⟩

/-- A thread gets into its section while the lock is free. -/
theorem begin_run {l : ℓ} {b : Access ι res (ε × ℓ)} (hbody : C.body l = some b)
    (hheld : s.held = false) (k : κ) : ∃ trace s', Run (Inner C) (c.set t s (.outer l)) trace
      (c.set t s' (.inside l k b)) ∧ s'.data = s.data := by
  have htakes : ∀ s : Guarded σ, s.held = false → Inner C (c.set t s (.lock l)) (t, .inner)
      (c.set t { s with held := true, entered := s.data } (.inside l k b)) := by
    intro s hs
    refine ⟨step_set (x := .goes k) ?_, nofun, nofun⟩
    simp only [Calls.next, hs, hbody]
  have hlooks : Inner C (c.set t s (.outer l)) (t, .inner)
      (c.set t s (if C.woken l ∨ s.initialized then .lock l else .init l)) := by
    refine ⟨step_set (x := .goes k) ?_, nofun, nofun⟩
    simp only [Calls.next, hbody]
  by_cases hready : C.woken l ∨ s.initialized
  case pos =>
    rw [if_pos hready] at hlooks
    exact ⟨_, _, ((Run.refl _).snoc hlooks).snoc (htakes s hheld), rfl⟩
  case neg =>
    rw [if_neg hready] at hlooks
    -- no thread is in a section, so this initialisation is calm
    have hresets : Inner C (c.set t s (.init l)) (t, .resets)
        (c.set t { s with held := false } (.note l)) :=
      ⟨step_set (x := .goes k) rfl, fun _ => hheld, nofun⟩
    have hnotes : Inner C (c.set t { s with held := false } (.note l)) (t, .inner)
        (c.set t { s with held := false, initialized := true } (.lock l)) :=
      ⟨step_set (x := .goes k) rfl, nofun, nofun⟩
    exact ⟨_, _, ((((Run.refl _).snoc hlooks).snoc hresets).snoc hnotes).snoc (htakes _ rfl), rfl⟩

/-- A step of the program is what is seen of some steps of the thread. -/
theorem realized_step (hC : Completes C P) (hc : Quiet c) {v : Config T σ ℓ}
    (h : Step P (view c) (t, e) v) : ∃ trace c₁ c', Run (Inner C) c trace c₁ ∧
      Step C.program c₁ (t, .shows e) c' ∧ view c' = v ∧ Quiet c' := by
  cases h with
  | @mk _ y _ s' l' hnext =>
      obtain ⟨l, hl⟩ := hc.outer t
      have hpoint : (view c).locals t = l := congrArg Place.point hl
      have hsettled : (view c).shared = c.shared.data := by
        show c.shared.settled = c.shared.data
        unfold Guarded.settled
        rw [hc.held]
        rfl
      have hself : c.set t c.shared (.outer l) = c := by
        rw [← hl]
        unfold Config.set
        rw [Function.update_eq_self]
      rw [hpoint] at hnext
      rcases hC _ _ _ _ _ _ hnext with ⟨rfl, x, hout⟩ | ⟨b, k, hbody, hexec⟩
      · -- a step outside the lock is one step of the thread
        refine ⟨[], c, c.set t c.shared (.outer l'), .refl _, ?_, view_set .., hc.set hc.held l'⟩
        have hshows : C.next (.outside x) c.shared (.outer l) =
            some (.shows e, c.shared, .outer l') := by
          simp only [Calls.next, hout]
        have hstep := step_set (c := c) (t := t) hshows
        rwa [hself] at hstep
      · -- a section is the way to the lock, its accesses, and its end
        obtain ⟨first, s₁, hbegin, hdata⟩ : ∃ first s₁, Run (Inner C) (c.set t c.shared (.outer l))
            first (c.set t s₁ (.inside l k b)) ∧ _ := begin_run hbody hc.held k
        rw [hself] at hbegin
        rw [hsettled, ← hdata] at hexec
        obtain ⟨second, hinside⟩ : ∃ second, Run (Inner C) (c.set t s₁ (.inside l k b)) second _ :=
          inside_run hexec
        refine ⟨first ++ second, _, c.set t ⟨s', s₁.initialized, false, s₁.entered⟩ (.outer l'),
          hbegin.append hinside, step_set (x := .goes k) rfl, view_set .., hc.set rfl l'⟩

/-- Steps that are not seen leave the view alone. -/
theorem inner_run (hP : Serves C P) (hc : Exclusive C c) (h : Run (Inner C) c trace d) :
    Exclusive C d ∧ shown trace = [] ∧ view d = view c := by
  refine h.invariant_trace (I := fun trace d => Exclusive C d ∧ shown trace = [] ∧ view d = view c)
    ⟨hc, rfl, rfl⟩ ?_
  rintro trace d ⟨t, a⟩ d' ⟨hexclusive, hshown, hview⟩ ⟨hstep, hcalm, hinner⟩
  have hviewed := hexclusive.viewed hP hstep hcalm
  refine ⟨hexclusive.step hstep hcalm, (shown_inner hinner trace).trans hshown, ?_⟩
  cases a with
  | inner | resets => exact Eq.trans hviewed hview
  | shows e => exact absurd rfl (hinner e)

/-- Every run of the program is what is seen of a calm run. -/
theorem realized (hP : Serves C P) (hC : Completes C P) (hc : Quiet c) {seen : List (T × ε)}
    {v : Config T σ ℓ} (h : Run (fun c label d => Step P c label d ∧ Q c label) (view c) seen v) :
    ∃ trace d, Run (CalmStep C Q) c trace d ∧ shown trace = seen ∧ view d = v ∧ Quiet d := by
  generalize hv : view c = first at h
  induction h with
  | refl => exact ⟨[], c, .refl _, rfl, hv, hc⟩
  | @snoc _ _ _ label _ hlast ih =>
      obtain ⟨trace, d, hrun, rfl, rfl, hquiet⟩ := ih
      obtain ⟨t, e⟩ := label
      obtain ⟨hstep, hQ⟩ := hlast
      obtain ⟨more, d₁, d', hinner, hshows, rfl, hquiet'⟩ := realized_step hC hquiet hstep
      obtain ⟨-, hmore, hview⟩ := inner_run hP hquiet.exclusive hinner
      have hcalm : Run (CalmStep C Q) d more d₁ := hinner.mono fun _ _ _ h =>
        ⟨h.1, h.2.1, fun e he => absurd he (h.2.2 e)⟩
      have hlast : CalmStep C Q d₁ (t, .shows e) d' := by
        refine ⟨hshows, nofun, fun e' he' => ?_⟩
        cases he'
        rw [hview]
        exact hQ
      refine ⟨_, d', (hrun.append hcalm).snoc hlast, ?_, rfl, hquiet'⟩
      rw [shown_shows, shown_append, hmore, List.append_nil]

end Views

/-! ## What calls have done -/

section Notes

variable {T μ : Type*} {χ' : Type} [DecidableEq T] {begins : ε → Prop} [DecidablePred begins]
  {zero : μ} {add : μ → σ → σ → μ}

/-- A step that begins a call. -/
def Act.Begins (begins : ε → Prop) : Act ε → Prop
  | .shows e => begins e
  | .inner | .resets => False

instance : DecidablePred (Act.Begins begins)
  | .shows e => inferInstanceAs (Decidable (begins e))
  | .inner | .resets => .isFalse id

/-- The threads with notes. -/
abbrev Noted (T μ : Type*) (σ ℓ κ ε ι : Type) (res : ι → Type) :=
  Tracked T (Guarded σ) (Place ℓ κ ε ι res) μ

variable {P : Program σ ℓ χ' ε} {Q : Tracked T σ ℓ μ → T × ε → Prop}
  {c d : Noted T μ σ ℓ κ ε ι res} {t : T} {a : Act ε}

/-- A step that enters into the note of a call what it does to the data between two sections. -/
def NotedStep (C : Calls σ ℓ χ κ ε ι res) (begins : ε → Prop) [DecidablePred begins] (zero : μ)
    (add : μ → σ → σ → μ) : Noted T μ σ ℓ κ ε ι res → T × Act ε → Noted T μ σ ℓ κ ε ι res → Prop :=
  Tracked.Step C.program (Act.Begins begins) zero fun n s s' => add n s.settled s'.settled

/-- The view, with the notes. -/
def viewNoted (c : Noted T μ σ ℓ κ ε ι res) : Tracked T σ ℓ μ := ⟨view c.config, c.note⟩

/-- How a step is seen that keeps notes. -/
theorem viewed_noted (hadd : ∀ n s, add n s s = n)
    (hP : Serves C P) (hc : Exclusive C c.config) (h : NotedStep C begins zero add c (t, a) d)
    (hcalm : Calm c.config (t, a)) :
    Exclusive C d.config ∧ match a with
      | .shows e => Tracked.Step P begins zero add (viewNoted c) (t, e) (viewNoted d)
      | _ => viewNoted d = viewNoted c := by
  cases h with
  | @mk c d note _ _ hmove =>
      have hviewed := hc.viewed hP hmove hcalm
      refine ⟨hc.step hmove hcalm, ?_⟩
      cases a with
      | shows e => exact .mk hviewed
      | inner | resets =>
          have hview : view d = view c := hviewed
          have hsettled : d.shared.settled = c.shared.settled := congrArg Config.shared hview
          show (⟨view d, Function.update note t (add (note t) c.shared.settled d.shared.settled)⟩ :
            Tracked T σ ℓ μ) = ⟨view c, note⟩
          rw [hview, hsettled, hadd, Function.update_eq_self]

/-- A step that keeps notes, is calm, and meets a condition on the view if it is seen. -/
def CalmNoted (C : Calls σ ℓ χ κ ε ι res) (begins : ε → Prop) [DecidablePred begins] (zero : μ)
    (add : μ → σ → σ → μ) (Q : Tracked T σ ℓ μ → T × ε → Prop) (c : Noted T μ σ ℓ κ ε ι res)
    (label : T × Act ε) (d : Noted T μ σ ℓ κ ε ι res) : Prop :=
  NotedStep C begins zero add c label d ∧ Calm c.config label ∧
    ∀ e, label.2 = .shows e → Q (viewNoted c) (label.1, e)

variable {trace : List (T × Act ε)}

/-- What is seen of a calm run, with its notes, is a run of the program. -/
theorem noted_run (hadd : ∀ n s, add n s s = n) (hP : Serves C P) (hc : Exclusive C c.config)
    (h : Run (CalmNoted C begins zero add Q) c trace d) : Exclusive C d.config ∧
      Run (fun c label d => Tracked.Step P begins zero add c label d ∧ Q c label) (viewNoted c)
        (shown trace) (viewNoted d) := by
  induction h with
  | refl => exact ⟨hc, .refl _⟩
  | @snoc _ _ _ label _ hlast ih =>
      obtain ⟨hexclusive, hrun⟩ := ih
      obtain ⟨t, a⟩ := label
      obtain ⟨hstep, hcalm, hQ⟩ := hlast
      obtain ⟨hexclusive', hviewed⟩ := viewed_noted hadd hP hexclusive hstep hcalm
      refine ⟨hexclusive', ?_⟩
      cases a with
      | inner | resets =>
          rw [shown_inner nofun, show viewNoted _ = viewNoted _ from hviewed]
          exact hrun
      | shows e =>
          rw [shown_shows]
          exact hrun.snoc ⟨hviewed, hQ e rfl⟩

/-- Steps that are not seen leave the notes alone. -/
theorem inner_noted (hadd : ∀ n s, add n s s = n) (hP : Serves C P) (hc : Exclusive C c.config)
    (h : Run (fun c label d => NotedStep C begins zero add c label d ∧
      Inner C c.config label d.config) c trace d) : shown trace = [] ∧
        viewNoted d = viewNoted c := by
  refine (h.invariant_trace (I := fun trace d => Exclusive C d.config ∧ shown trace = [] ∧
    viewNoted d = viewNoted c) ⟨hc, rfl, rfl⟩ ?_).2
  rintro trace d ⟨t, a⟩ d' ⟨hexclusive, hshown, hview⟩ ⟨hstep, -, hcalm, hinner⟩
  obtain ⟨hexclusive', hviewed⟩ := viewed_noted hadd hP hexclusive hstep hcalm
  refine ⟨hexclusive', (shown_inner hinner trace).trans hshown, ?_⟩
  cases a with
  | inner | resets => exact Eq.trans hviewed hview
  | shows e => exact absurd rfl (hinner e)

/-- Every run of the program with notes is what is seen of a calm run. -/
theorem noted_realized (hadd : ∀ n s, add n s s = n) (hP : Serves C P) (hC : Completes C P)
    (hc : Quiet c.config) {seen : List (T × ε)} {v : Tracked T σ ℓ μ}
    (h : Run (fun c label d => Tracked.Step P begins zero add c label d ∧ Q c label) (viewNoted c)
      seen v) :
    ∃ trace d, Run (CalmNoted C begins zero add Q) c trace d ∧ shown trace = seen ∧
      viewNoted d = v ∧ Quiet d.config := by
  generalize hv : viewNoted c = first at h
  induction h with
  | refl => exact ⟨[], c, .refl _, rfl, hv, hc⟩
  | @snoc _ _ _ label _ hlast ih =>
      obtain ⟨trace, d, hrun, rfl, rfl, hquiet⟩ := ih
      obtain ⟨hstep, hQ⟩ := hlast
      obtain ⟨d, note⟩ := d
      cases hstep with
      | @mk _ v _ t e hmove =>
          obtain ⟨more, d₁, d', hinner, hshows, rfl, hquiet'⟩ := realized_step hC hquiet hmove
          obtain ⟨note₁, hmore⟩ : ∃ note₁,
            Run (fun c label d => NotedStep C begins zero add c label d ∧
              Inner C c.config label d.config) ⟨d, note⟩ more ⟨d₁, note₁⟩ :=
            Tracked.exists_run_of hinner (fun _ _ _ h => h.1) note
          obtain ⟨hshown, hview⟩ := inner_noted hadd hP hquiet.exclusive hmore
          obtain ⟨hconfig, rfl⟩ : view d₁ = view d ∧ note = note₁ :=
            (Tracked.mk.inj hview).imp_right Eq.symm
          have hcalm : Run (CalmNoted C begins zero add Q) ⟨d, note⟩ more ⟨d₁, note⟩ :=
            hmore.mono fun _ _ _ h => ⟨h.1, h.2.2.1, fun e he => absurd he (h.2.2.2 e)⟩
          have hsettled : d₁.shared.settled = d.shared.settled := congrArg Config.shared hconfig
          refine ⟨_, _, (hrun.append hcalm).snoc ⟨.mk hshows, nofun, fun e' he' => ?_⟩, ?_, ?_,
            hquiet'⟩
          · cases he'
            rw [hview]
            exact hQ
          · rw [shown_shows, shown_append, hshown, List.append_nil]
          · show (⟨view d', Function.update note t (add _ d₁.shared.settled _)⟩ :
              Tracked T σ ℓ μ) = _
            rw [hsettled]
            rfl

end Notes

end Asnx.Locking
