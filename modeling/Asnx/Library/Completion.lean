import Asnx.Library.Files

/-!
# Programs that come to an end

`Total E P p Q` is total correctness: while the power stays on and the environment decides as `E`
says, the program comes to an end, with a result in `Q`. In a `Calm` environment nothing fails that
could succeed, so that the result of an operation on files is known.
-/

namespace Asnx.Interrupted

/-- The power stays on, and the environment decides as `E` says. -/
def Powered (E : Decision → Prop) (decisions : Nat → Decision) : Prop :=
  ∀ i, (decisions i).powerLoss = false ∧ E (decisions i)

/-- The decision lets the step succeed. -/
def Calm (d : Decision) : Prop := d.fails = false

/-- Anything may be decided. -/
def Anyhow (_ : Decision) : Prop := True

section Totality

variable {ω : Type*} {α β : Type} {E : Decision → Prop} {P P' : ω → Prop} {Q Q' : α → ω → Prop}
  {p : Prog ω α}

/-- From a world in `P` the program comes to an end in `Q`. -/
def Total (E : Decision → Prop) (P : ω → Prop) (p : Prog ω α) (Q : α → ω → Prop) : Prop :=
  ∀ m, Powered E m.decisions → P m.world →
    ∃ a m', p m = (some a, m') ∧ m'.decisions = m.decisions ∧ Q a m'.world

/-- What comes after a program that has ended. -/
theorem bind_of_some {q : Prog ω β} {f : β → Prog ω α} {b : β} {m m' : Machine ω}
    (h : q m = (some b, m')) : (q >>= f) m = f b m' := by
  simp only [bind, h]

/-- Nothing comes after a program that has not. -/
theorem bind_of_none {q : Prog ω β} {f : β → Prog ω α} {m m' : Machine ω}
    (h : q m = (none, m')) : (q >>= f) m = (none, m') := by
  simp only [bind, h]

/-- A sequence that has ended has gone through an end of its first part. -/
theorem bind_eq_some {q : Prog ω β} {f : β → Prog ω α} {a : α} {m m' : Machine ω}
    (h : (q >>= f) m = (some a, m')) : ∃ b m₁, q m = (some b, m₁) ∧ f b m₁ = (some a, m') := by
  rcases hfirst : q m with ⟨_ | b, m₁⟩
  · rw [bind_of_none hfirst] at h
    cases h
  · rw [bind_of_some hfirst] at h
    exact ⟨b, m₁, rfl, h⟩

/-- A stronger condition before and a weaker one behind. -/
theorem Total.mono (h : Total E P p Q) (hP : ∀ w, P' w → P w) (hQ : ∀ a w, Q a w → Q' a w) :
    Total E P' p Q' := by
  intro m hm hw
  obtain ⟨a, m', hrun, hdecisions, hpost⟩ := h m hm (hP _ hw)
  exact ⟨a, m', hrun, hdecisions, hQ _ _ hpost⟩

theorem Total.pre (h : Total E P p Q) (hP : ∀ w, P' w → P w) : Total E P' p Q :=
  h.mono hP fun _ _ hw => hw

theorem Total.post (h : Total E P p Q) (hQ : ∀ a w, Q a w → Q' a w) : Total E P p Q' :=
  h.mono (fun _ hw => hw) hQ

theorem Total.assume {φ : Prop} (h : φ → Total E P p Q) : Total E (fun w => φ ∧ P w) p Q :=
  fun m hm hw => h hw.1 m hm hw.2

theorem total_pure {a : α} (h : ∀ w, P w → Q a w) : Total E P (pure a : Prog ω α) Q :=
  fun m _ hw => ⟨a, m, rfl, rfl, h _ hw⟩

/-- What follows on a program that completes. -/
theorem total_bind {q : Prog ω β} {f : β → Prog ω α} {R : β → ω → Prop} (hq : Total E P q R)
    (hf : ∀ b, Total E (R b) (f b) Q) : Total E P (q >>= f) Q := by
  intro m hm hw
  obtain ⟨b, m₁, hfirst, hdecisions, hmid⟩ := hq m hm hw
  obtain ⟨a, m₂, hsecond, hdecisions', hpost⟩ := hf b m₁ (hdecisions ▸ hm) hmid
  exact ⟨a, m₂, (bind_of_some hfirst).trans hsecond, hdecisions'.trans hdecisions, hpost⟩

/-- A program whose result is known, and what comes after it. -/
theorem total_bind_eq {R : ω → Prop} {q : Prog ω β} {f : β → Prog ω α} {b : β}
    (hq : Total E P q fun r w => r = b ∧ R w) (hf : Total E R (f b) Q) :
    Total E P (q >>= f) Q := by
  refine total_bind hq fun r => .assume ?_
  rintro rfl
  exact hf

/-- The rule for a step. -/
theorem total_step {f : Decision → ω → α × ω}
    (h : ∀ d w, E d → P w → Q (f d w).1 (f d w).2) : Total E P (step f) Q := by
  intro m hm hw
  obtain ⟨hpower, hE⟩ := hm m.now
  refine ⟨(f (m.decisions m.now) m.world).1,
    ⟨(f (m.decisions m.now) m.world).2, m.decisions, m.now + 1⟩, ?_, rfl, h _ _ hE hw⟩
  show (if (m.decisions m.now).powerLoss then none else some _, _) = _
  rw [hpower]
  rfl

theorem total_update {f : ω → α × ω} (h : ∀ w, P w → Q (f w).1 (f w).2) :
    Total E P (update f) Q :=
  fun m _ hw => ⟨_, _, rfl, rfl, h m.world hw⟩

/-- Both branches complete. -/
theorem total_ite {c : Prop} [Decidable c] {q : Prog ω α} (hp : c → Total E P p Q)
    (hq : ¬ c → Total E P q Q) : Total E P (if c then p else q) Q := by
  split
  · exact hp ‹_›
  · exact hq ‹_›

/-! ## Coming to an end -/

/-- The program comes to an end from every world, as long as the power stays on. -/
def Ends (p : Prog ω α) : Prop := Total Anyhow (fun _ => True) p fun _ _ => True

/-- A program that ends, whatever is decided. -/
theorem ends_pure (a : α) : Ends (pure a : Prog ω α) := total_pure fun _ _ => trivial

theorem ends_bind {q : Prog ω β} {f : β → Prog ω α} (hq : Ends q) (hf : ∀ b, Ends (f b)) :
    Ends (q >>= f) :=
  total_bind hq hf

theorem ends_step {f : Decision → ω → α × ω} : Ends (step f) := total_step fun _ _ _ _ => trivial

theorem ends_update {f : ω → α × ω} : Ends (update f) := total_update fun _ _ => trivial

theorem ends_ite {c : Prop} [Decidable c] {q : Prog ω α} (hp : c → Ends p) (hq : ¬ c → Ends q) :
    Ends (if c then p else q) :=
  total_ite hp hq

/-- The run of a program that comes to an end. -/
theorem Ends.run (h : Ends p) {m : Machine ω} (hm : Powered Anyhow m.decisions) :
    ∃ a m', p m = (some a, m') ∧ m'.decisions = m.decisions := by
  obtain ⟨a, m', hrun, hdecisions, -⟩ := h m hm trivial
  exact ⟨a, m', hrun, hdecisions⟩

/-! ## Runs that have come to an end -/

/-- If the program comes to an end from a machine in `P`, then in `Q`. Other than a specification of
the world this can speak of the decisions. -/
def Returning (P : Machine ω → Prop) (p : Prog ω α) (Q : α → Machine ω → Prop) : Prop :=
  ∀ m, P m → ∀ a m', p m = (some a, m') → Q a m'

section Returning

variable {P P' : Machine ω → Prop} {Q Q' : α → Machine ω → Prop}

/-- A stronger condition before and a weaker one behind. -/
theorem Returning.mono (h : Returning P p Q) (hP : ∀ m, P' m → P m) (hQ : ∀ a m, Q a m → Q' a m) :
    Returning P' p Q' :=
  fun m hm a m' hrun => hQ _ _ (h m (hP m hm) a m' hrun)

theorem Returning.pre (h : Returning P p Q) (hP : ∀ m, P' m → P m) : Returning P' p Q :=
  h.mono hP fun _ _ hm => hm

/-- Nothing is said of what is returned. -/
theorem returning_any : Returning P p fun _ _ => True := fun _ _ _ _ _ => trivial

theorem returning_pure {a : α} (h : ∀ m, P m → Q a m) : Returning P (pure a : Prog ω α) Q := by
  rintro m hm _ _ ⟨⟩
  exact h m hm

/-- What follows on a program that returns. -/
theorem returning_bind {q : Prog ω β} {f : β → Prog ω α} {R : β → Machine ω → Prop}
    (hq : Returning P q R) (hf : ∀ b, Returning (R b) (f b) Q) : Returning P (q >>= f) Q := by
  intro m hm a m' hrun
  obtain ⟨b, m₁, hfirst, hsecond⟩ := bind_eq_some hrun
  exact hf b m₁ (hq m hm b m₁ hfirst) a m' hsecond

/-- What a step that has returned has done. -/
theorem step_eq_some {f : Decision → ω → α × ω} {m m' : Machine ω} {a : α}
    (h : step f m = (some a, m')) : a = (f (m.decisions m.now) m.world).1 ∧
      m' = ⟨(f (m.decisions m.now) m.world).2, m.decisions, m.now + 1⟩ := by
  have hrun : (if (m.decisions m.now).powerLoss then none
      else some (f (m.decisions m.now) m.world).1, (⟨(f (m.decisions m.now) m.world).2, m.decisions,
        m.now + 1⟩ : Machine ω)) = (some a, m') := h
  split at hrun
  · cases hrun
  · cases hrun
    exact ⟨rfl, rfl⟩

/-- A step, with the decision at hand. -/
theorem returning_step {f : Decision → ω → α × ω} (h : ∀ m, P m →
      Q (f (m.decisions m.now) m.world).1
        ⟨(f (m.decisions m.now) m.world).2, m.decisions, m.now + 1⟩) :
    Returning P (step f) Q := by
  intro m hm a m' hrun
  obtain ⟨rfl, rfl⟩ := step_eq_some hrun
  exact h m hm

theorem returning_update {f : ω → α × ω}
    (h : ∀ m, P m → Q (f m.world).1 ⟨(f m.world).2, m.decisions, m.now⟩) :
    Returning P (update f) Q := by
  rintro m hm _ _ ⟨⟩
  exact h m hm

theorem returning_ite {c : Prop} [Decidable c] {q : Prog ω α} (hp : c → Returning P p Q)
    (hq : ¬ c → Returning P q Q) : Returning P (if c then p else q) Q := by
  split
  · exact hp ‹_›
  · exact hq ‹_›

/-- What is kept by all moves is kept by a run that returns. -/
theorem Moves.returning {R : ω → ω → Prop} (h : Moves R p) {I : ω → Prop}
    (hI : ∀ w w', R w w' → I w → I w') :
    Returning (fun m => I m.world) p fun _ m => I m.world := by
  intro m hm a m' hrun
  have hmoved := h m
  rw [hrun] at hmoved
  exact hI _ _ hmoved hm

/-- A program that comes to an end keeps what its moves keep. -/
theorem Ends.total (h : Ends p) {R : ω → ω → Prop} (hmoves : Moves R p) {I : ω → Prop}
    (hI : ∀ w w', R w w' → I w → I w') : Total Anyhow I p fun _ => I := by
  intro m hm hw
  obtain ⟨a, m', hrun, hdecisions⟩ := h.run hm
  exact ⟨a, m', hrun, hdecisions, hmoves.returning hI m hw a m' hrun⟩

end Returning

/-! ## The decisions that matter -/

/-- What the program does depends only on the decisions about its own steps. -/
def Local (p : Prog ω α) : Prop :=
  ∀ m, ((p m).2.decisions = m.decisions ∧ m.now ≤ (p m).2.now) ∧ ∀ decisions : Nat → Decision,
    (∀ i, m.now ≤ i → i < (p m).2.now → decisions i = m.decisions i) →
    p ⟨m.world, decisions, m.now⟩ = ((p m).1, ⟨(p m).2.world, decisions, (p m).2.now⟩)

/-- A program that decides nothing is local. -/
theorem local_pure (a : α) : Local (pure a : Prog ω α) :=
  fun m => ⟨⟨rfl, Nat.le_refl m.now⟩, fun _ _ => rfl⟩

/-- A step looks at the decision at hand only. -/
theorem local_step {f : Decision → ω → α × ω} : Local (step f) := by
  intro m
  refine ⟨⟨rfl, Nat.le_succ m.now⟩, fun decisions hsame => ?_⟩
  have hnow : decisions m.now = m.decisions m.now :=
    hsame m.now (Nat.le_refl _) (Nat.lt_succ_self _)
  unfold step
  dsimp only
  rw [hnow]

/-- What comes after a program has the later decisions. -/
theorem local_bind {q : Prog ω β} {f : β → Prog ω α} (hq : Local q) (hf : ∀ b, Local (f b)) :
    Local (q >>= f) := by
  intro m
  obtain ⟨⟨hkept, hle⟩, hfirst⟩ := hq m
  rcases hresult : q m with ⟨_ | b, m₁⟩
  · rw [hresult] at hkept hle hfirst
    rw [bind_of_none hresult]
    exact ⟨⟨hkept, hle⟩, fun decisions hsame => bind_of_none (hfirst decisions hsame)⟩
  · rw [hresult] at hkept hle hfirst
    obtain ⟨⟨hkept', hle'⟩, hsecond⟩ := hf b m₁
    rw [bind_of_some hresult]
    dsimp only at hkept hle hfirst
    refine ⟨⟨hkept'.trans hkept, Nat.le_trans hle hle'⟩, fun decisions hsame => ?_⟩
    rw [bind_of_some (hfirst decisions fun i hi hlt => hsame i hi (Nat.lt_of_lt_of_le hlt hle'))]
    refine hsecond decisions fun i hi hlt => ?_
    rw [hkept]
    exact hsame i (Nat.le_trans hle hi) hlt

theorem local_ite {c : Prop} [Decidable c] {q : Prog ω α} (hp : c → Local p) (hq : ¬ c → Local q) :
    Local (if c then p else q) := by
  split
  · exact hp ‹_›
  · exact hq ‹_›

/-- When all is calm, a call does not fail. -/
theorem total_chance : Total Calm P (chance : Prog ω Bool) fun r w => r = true ∧ P w :=
  total_step fun d w hd hw => by
    rw [show d.fails = false from hd]
    exact ⟨rfl, hw⟩

end Totality

end Asnx.Interrupted

namespace Asnx.Files

open Interrupted

section Calm

variable {γ : Type} {P : World γ → Prop} {name : Bytes}

/-- An operation does what it does when it does not fail. -/
theorem total_operation {β : Type} {f : World γ → Except Errno β × World γ}
    {Q : Except Errno β → World γ → Prop} (h : ∀ w, P w → Q (f w).1 (f w).2) :
    Total Calm P (operation f) Q :=
  total_step fun d w hd hw => by
    rw [if_neg (by rw [show d.fails = false from hd]; decide)]
    exact h w hw

/-- An operation that may fail does nothing then. -/
theorem total_attempt {β : Type} {E : Decision → Prop} {f : World γ → Except Errno β × World γ}
    {Q : Except Errno β → World γ → Prop} (hfail : ∀ w, P w → Q (.error .eio) w)
    (hstep : ∀ w, P w → Q (f w).1 (f w).2) : Total E P (operation f) Q :=
  total_step fun d w _ hw => by
    split
    · exact hfail w hw
    · exact hstep w hw

/-- An operation ends, whatever is decided. -/
theorem ends_operation {β : Type} (f : World γ → Except Errno β × World γ) : Ends (operation f) :=
  ends_step

/-- What an operation that has returned has done: nothing if it has failed. -/
theorem returning_operation {β : Type} {f : World γ → Except Errno β × World γ}
    {P : Machine (World γ) → Prop} {Q : Except Errno β → Machine (World γ) → Prop}
    (hfail : ∀ m, P m → (m.decisions m.now).fails = true →
      Q (.error .eio) ⟨m.world, m.decisions, m.now + 1⟩)
    (hstep : ∀ m, P m → Q (f m.world).1 ⟨(f m.world).2, m.decisions, m.now + 1⟩) :
    Returning P (operation f) Q :=
  returning_step fun m hm => by
    split
    · exact hfail m hm ‹_›
    · exact hstep m hm

/-- The file at a path holds `content`. -/
def Holding (path : Path) (content : Bytes) (w : World γ) : Prop := w.fs.file path = some content

/-- A file that is there is opened. -/
theorem total_fopenRead (h : ∀ w, P w → ∃ content, w.fs.file (resolve name) = some content) :
    Total Calm P (fopenRead name) fun r w => r = .ok ⟨resolve name, 0, false⟩ ∧ P w :=
  total_operation fun w hw => by
    obtain ⟨content, hcontent⟩ := h w hw
    simp only [hcontent]
    exact ⟨trivial, hw⟩

/-- All that is left is read. -/
theorem total_fread {content : Bytes} {f : InFile} {n : Nat}
    (h : ∀ w, P w → w.fs.file f.path = some content) :
    Total Calm P (fread f n) fun r w =>
      r = ((content.drop f.pos).take n,
        ⟨f.path, f.pos + ((content.drop f.pos).take n).length, f.err⟩) ∧ P w :=
  total_step fun d w hd hw => by
    simp only [h w hw, show d.fails = false from hd, Option.getD_some, Bool.false_eq_true,
      if_false, Bool.or_false]
    exact ⟨trivial, hw⟩

theorem total_fseek {f : InFile} {n : Nat} :
    Total Calm P (fseek f (some n)) fun r w => r = some { f with pos := n } ∧ P w :=
  total_step fun d w hd hw => by
    simp only [show d.fails = false from hd, Bool.false_eq_true, if_false]
    exact ⟨trivial, hw⟩

/-- The end of a file is found. -/
theorem total_fseekEnd {content : Bytes} {f : InFile}
    (h : ∀ w, P w → w.fs.file f.path = some content) :
    Total Calm P (fseekEnd f) fun r w => r = some { f with pos := content.length } ∧ P w :=
  total_step fun d w hd hw => by
    simp only [h w hw, show d.fails = false from hd, Bool.false_eq_true, if_false,
      Option.getD_some]
    exact ⟨trivial, hw⟩

theorem total_ftell {f : InFile} : Total Calm P (ftell f) fun r w => r = some f.pos ∧ P w :=
  total_step fun d w hd hw => by
    simp only [show d.fails = false from hd, Bool.false_eq_true, if_false]
    exact ⟨trivial, hw⟩

theorem total_fcloseRead {E : Decision → Prop} {f : InFile} :
    Total E P (fcloseRead f) fun _ w => P w :=
  total_step fun _ _ _ hw => hw

/-! ## Operations that change files -/

/-- A write of a file leaves the directories alone. -/
theorem isDir_put {fs : Fs} {p q : Path} (h : q ≠ p) (content : Bytes) :
    (fs.put p content).isDir q = fs.isDir q := by
  unfold Fs.isDir Fs.put
  rw [AList.lookup_insert_ne h]

theorem isDir_delete {fs : Fs} {p q : Path} (h : q ≠ p) : (fs.delete p).isDir q = fs.isDir q := by
  unfold Fs.isDir Fs.delete
  rw [AList.lookup_erase_ne h]

/-- A file does not become a directory, whatever file is written or removed. -/
theorem isDir_put_false {fs : Fs} {q : Path} (h : fs.isDir q = false) (p : Path) (content : Bytes) :
    (fs.put p content).isDir q = false := by
  by_cases hq : q = p
  · subst hq
    have hroot : q ≠ [] := fun hroot => by
      rw [hroot] at h
      cases h
    unfold Fs.isDir Fs.put
    rw [AList.lookup_insert]
    exact decide_eq_false (not_or.2 ⟨hroot, nofun⟩)
  · rw [isDir_put hq]
    exact h

/-- A removal makes no directory. -/
theorem isDir_delete_false {fs : Fs} {q : Path} (h : fs.isDir q = false) (p : Path) :
    (fs.delete p).isDir q = false := by
  by_cases hq : q = p
  · subst hq
    have hroot : q ≠ [] := fun hroot => by
      rw [hroot] at h
      cases h
    unfold Fs.isDir Fs.delete
    rw [AList.lookup_erase]
    exact decide_eq_false (not_or.2 ⟨hroot, nofun⟩)
  · rw [isDir_delete hq]
    exact h

/-- Where there is a file there is no directory. -/
theorem isDir_of_file {fs : Fs} {q : Path} {content : Bytes} (h : fs.file q = some content)
    (hroot : q ≠ []) : fs.isDir q = false := by
  refine decide_eq_false (not_or.2 ⟨hroot, fun hdir => ?_⟩)
  unfold Fs.file at h
  rw [hdir] at h
  cases h

theorem isDir_insert_dir {fs : Fs} {p q : Path} (h : q ≠ p) :
    Fs.isDir (fs.insert p .dir) q = fs.isDir q := by
  unfold Fs.isDir
  rw [AList.lookup_insert_ne h]

theorem isDir_insert_self (fs : Fs) (p : Path) : Fs.isDir (fs.insert p .dir) p = true := by
  unfold Fs.isDir
  rw [AList.lookup_insert]
  exact decide_eq_true (.inr rfl)

/-- A directory is made when its parent is there. -/
theorem total_mkdir {Q : Except Errno Unit → World γ → Prop}
    (hold : ∀ w, P w → (w.fs.lookup (resolve name)).isSome → Q (.error .eexist) w)
    (hnew : ∀ w, P w → w.fs.lookup (resolve name) = none →
      w.fs.isDir (resolve name).dropLast = true ∧
        Q (.ok ()) { w with fs := w.fs.insert (resolve name) .dir }) :
    Total Calm P (mkdir name) Q :=
  total_operation fun w hw => by
    split
    · exact hold w hw ‹_›
    · rename_i hnone
      obtain ⟨hparent, hQ⟩ := hnew w hw (Option.not_isSome_iff_eq_none.1 hnone)
      rw [if_pos hparent]
      exact hQ

/-- A file is emptied, or made in a directory that is there. -/
theorem total_fopenWrite {Q : Except Errno OutFile → World γ → Prop}
    (h : ∀ w, P w → w.fs.isDir (resolve name) = false ∧
      w.fs.isDir (resolve name).dropLast = true ∧
        Q (.ok ⟨resolve name⟩) { w with fs := w.fs.put (resolve name) [] }) :
    Total Calm P (fopenWrite name) Q :=
  total_operation fun w hw => by
    obtain ⟨hfree, hparent, hQ⟩ := h w hw
    rw [if_neg (by rw [hfree]; decide), if_pos hparent]
    exact hQ

/-- All of the bytes are appended. -/
theorem total_fwrite {Q : Bool → World γ → Prop} {f : OutFile} {content : Bytes}
    (h : ∀ w, P w → ∃ old, w.fs.file f.path = some old ∧
      Q true { w with fs := w.fs.put f.path (old ++ content) }) :
    Total Calm P (fwrite f content) Q :=
  total_step fun d w hd hw => by
    obtain ⟨old, hold, hQ⟩ := h w hw
    simp only [hold, show d.fails = false from hd, Bool.false_eq_true, if_false]
    exact hQ

theorem total_flush {f : OutFile} : Total Calm P (flush f) fun r w => r = true ∧ P w :=
  total_step fun d w hd hw => by
    rw [if_neg (by rw [show d.fails = false from hd]; decide)]
    exact ⟨rfl, hw⟩

/-- A removal may fail, even when all is calm: there may be nothing to remove. -/
theorem total_remove {Q : Except Errno Unit → World γ → Prop} (hnone : ∀ w e, P w → Q (.error e) w)
    (hfile : ∀ w, P w → Q (.ok ()) { w with fs := w.fs.delete (resolve name) }) :
    Total Calm P (remove name) Q :=
  total_operation fun w hw => by
    split
    · exact hnone w _ hw
    · exact hnone w _ hw
    · exact hfile w hw

/-- A file is moved over another one. -/
theorem total_rename {Q : Except Errno Unit → World γ → Prop} {src dst : Bytes}
    (h : ∀ w, P w → ∃ content, w.fs.file (resolve src) = some content ∧
      w.fs.isDir (resolve dst) = false ∧ w.fs.isDir (resolve dst).dropLast = true ∧
        Q (.ok ()) ⟨(w.fs.delete (resolve src)).put (resolve dst) content,
          w.renames ++ [(resolve src, resolve dst)], w.rest⟩) :
    Total Calm P (rename src dst) Q :=
  total_operation fun w hw => by
    obtain ⟨content, hcontent, hfree, hparent, hQ⟩ := h w hw
    simp only [hcontent, hfree, hparent, Bool.false_eq_true, if_false, if_true]
    exact hQ

end Calm

end Asnx.Files
