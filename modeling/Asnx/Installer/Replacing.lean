import Asnx.Installer.Copying

/-!
# Replacing files

The helpers that write a sibling first and rename it at the end. They remove the old file before the
rename, so that it is lost when the removal succeeds and the rename fails; in every other run a
failing helper leaves the file as it was, and a helper that succeeds leaves the complete new file
(`replacements_keep_iff`).
-/

namespace Asnx.Installer

open Interrupted Files Zlib

/-! ## The sibling is cleaned up -/

section Tidying

variable {α : Type} {target : Bytes} {P : Machine (World Memory) → Prop}

/-- The sibling of a target is as it was found. -/
def Untouched (target : Bytes) (old : Option Bytes) (m : Machine (World Memory)) : Prop :=
  m.world.fs.file (resolve (tmpOf target)) = old

/-- The sibling is gone, unless the last step has failed. -/
def Tidied (target : Bytes) (m : Machine (World Memory)) : Prop :=
  (m.decisions (m.now - 1)).fails = false → m.world.fs.file (resolve (tmpOf target)) = none

/-- A failing program leaves no sibling behind that it has created. -/
def Tidies (target : Bytes) (p : Install Bool) : Prop :=
  ∀ old, Returning (Untouched target old) p fun r m =>
    r = false → Untouched target old m ∨ Tidied target m

/-- A program that changes no files leaves the sibling alone. -/
theorem returning_untouched {p : Install α} (h : Stays ∅ SameNotes p) (old : Option Bytes) :
    Returning (Untouched target old) p fun _ => Untouched target old :=
  Moves.returning h fun _ _ hmoved hw => (hmoved.files _ id).trans hw

/-- The removal at the end of a failing helper. -/
theorem returning_discard {format : String} {args : List Arg} :
    Returning P (discard target format args) fun r m => r = false ∧ Tidied target m := by
  refine returning_bind (R := fun _ => Tidied target)
    (returning_operation (fun m _ hfails => ?_) fun m _ _ => ?_) fun _ => ?_
  · intro hgood
    rw [show (m.decisions (m.now + 1 - 1)).fails = true from hfails] at hgood
    cases hgood
  · dsimp only
    split
    · rename_i hnone
      simp [Fs.file, hnone]
    · rename_i hdir
      simp [Fs.file, hdir]
    · exact (congrFun (file_delete _ _) _).trans (Function.update_self ..)
  · exact returning_bind (R := fun _ => Tidied target) (returning_update fun m hm => hm) fun _ =>
      returning_pure fun m hm => ⟨rfl, hm⟩

/-- A helper that fails before it opens the sibling. -/
theorem returning_fails {format : String} {args : List Arg} {old : Option Bytes} :
    Returning (Untouched target old) (fails format args)
      fun r m => r = false → Untouched target old m ∨ Tidied target m :=
  (returning_untouched stays_fails old).mono (fun _ hm => hm) fun _ _ hm _ => .inl hm

/-- A helper that fails after it has opened the sibling. -/
theorem returning_discards {format : String} {args : List Arg} {old : Option Bytes} :
    Returning P (discard target format args)
      fun r m => r = false → Untouched target old m ∨ Tidied target m :=
  returning_discard.mono (fun _ hm => hm) fun _ _ hm _ => .inr hm.2

/-- Opening the sibling: when that fails it is untouched. -/
theorem returning_fopenWrite (old : Option Bytes) :
    Returning (Untouched target old) (fopenWrite (tmpOf target)) fun r m =>
      ∀ e, r = .error e → Untouched target old m := by
  refine returning_operation (fun m hm _ _ _ => hm) fun m hm => ?_
  split
  · exact fun _ _ => hm
  · split
    · exact fun _ he => by cases he
    · exact fun _ _ => hm

/-! ## Each helper tidies up -/

theorem tidies_fillInstallMarker (files : Nat) : Tidies installMarker
    (fillInstallMarker files) := by
  intro old
  refine returning_ite (fun _ => returning_fails) fun _ => ?_
  refine returning_bind (returning_untouched stays_createParentDirectories old) fun made => ?_
  refine returning_ite (fun _ => returning_pure fun m hm _ => .inl hm) fun _ => ?_
  refine returning_bind (returning_fopenWrite old) ?_
  rintro (e | out)
  · exact returning_fails.pre fun m hm => hm e rfl
  refine returning_bind returning_any fun printed => returning_bind returning_any fun flushed =>
    returning_bind returning_any fun closed => ?_
  exact returning_ite (fun _ => returning_discards) fun _ =>
    returning_pure fun m _ hr => by cases hr

theorem tidies_fillGuidMarker (guid : Bytes) : Tidies guidMarker (fillGuidMarker guid) := by
  intro old
  refine returning_bind (returning_untouched stays_createParentDirectories old) fun made => ?_
  refine returning_ite (fun _ => returning_pure fun m hm _ => .inl hm) fun _ => ?_
  refine returning_ite (fun _ => returning_fails) fun _ => ?_
  refine returning_bind (returning_fopenWrite old) ?_
  rintro (e | out)
  · exact returning_discards
  refine returning_bind returning_any fun wrote => returning_bind returning_any fun closed => ?_
  exact returning_ite (fun _ => returning_discards) fun _ =>
    returning_pure fun m _ hr => by cases hr

theorem tidies_fillCopy (rounds : Nat) (src dst : Bytes) :
    Tidies dst (fillCopy rounds src dst) := by
  intro old
  refine returning_bind (returning_untouched stays_createParentDirectories old) fun made => ?_
  refine returning_ite (fun _ => returning_pure fun m hm _ => .inl hm) fun _ => ?_
  refine returning_bind (returning_untouched stays_fopenRead old) ?_
  rintro (e | input)
  · exact returning_fails
  refine returning_ite (fun _ => ?_) fun _ => ?_
  · exact returning_bind (returning_untouched stays_fcloseRead old) fun _ => returning_fails
  refine returning_bind (returning_fopenWrite old) ?_
  rintro (e | out)
  · exact (returning_bind (returning_untouched stays_fcloseRead old) fun _ => returning_fails).pre
      fun m hm => hm e rfl
  refine returning_bind returning_any fun buf => returning_bind returning_any fun ok =>
    returning_bind returning_any fun closed => returning_bind returning_any fun _ => ?_
  exact returning_ite (fun _ => returning_discards) fun _ =>
    returning_pure fun m _ hr => by cases hr

theorem returning_checkEntry {old : Option Bytes} {e : ZipEntry} {out : OutFile} {c : Copied} :
    Returning P (checkEntry e target out c)
      fun r m => r = false → Untouched target old m ∨ Tidied target m := by
  refine returning_bind returning_any fun closed => ?_
  refine returning_ite (fun _ => returning_discards) fun _ => ?_
  exact returning_ite (fun _ => returning_discards) fun _ =>
    returning_pure fun m _ hr => by cases hr

/-- The result of a part of `extract_entry` that comes with the archive. -/
theorem returning_with {old : Option Bytes} {p : Install Bool} {fp : InFile}
    (h : Returning P p fun r m => r = false → Untouched target old m ∨ Tidied target m) :
    Returning P (do let r ← p; pure (r, fp) : Install (Bool × InFile))
      fun r m => r.1 = false → Untouched target old m ∨ Tidied target m :=
  returning_bind h fun _ => returning_pure fun _ hm => hm

theorem returning_fillSibling {Z : Inflater} {rounds : Nat} {fp : InFile} {e : ZipEntry}
    (old : Option Bytes) :
    Returning (Untouched target old) (fillSibling Z rounds fp e target)
      fun r m => r.1 = false → Untouched target old m ∨ Tidied target m := by
  refine returning_bind (returning_fopenWrite old) ?_
  rintro (e | out)
  · exact (returning_with returning_fails).pre fun m hm => hm e rfl
  refine returning_bind returning_any fun input => returning_bind returning_any fun output => ?_
  refine returning_ite (fun _ => ?_) fun _ => ?_
  · exact returning_bind returning_any fun _ => returning_with returning_discards
  · exact returning_bind returning_any fun c => returning_with returning_checkEntry

theorem returning_fillEntry {Z : Inflater} {rounds : Nat} {fp : InFile} {e : ZipEntry}
    (old : Option Bytes) :
    Returning (Untouched target old) (fillEntry Z rounds fp e target)
      fun r m => r.1 = false → Untouched target old m ∨ Tidied target m := by
  refine returning_ite (fun _ => returning_with returning_fails) fun _ => ?_
  refine returning_ite (fun _ => returning_with returning_fails) fun _ => ?_
  refine returning_bind (returning_untouched stays_fseek old) ?_
  rintro (_ | fp₁)
  · exact returning_with returning_fails
  refine returning_bind (returning_untouched stays_fread old) ?_
  rintro ⟨lh, fp₂⟩
  refine returning_ite (fun _ => returning_with returning_fails) fun _ => ?_
  refine returning_bind (returning_untouched stays_fseek old) ?_
  rintro (_ | fp₃)
  · exact returning_pure fun m hm _ => .inl hm
  refine returning_bind (returning_untouched stays_createParentDirectories old) fun made => ?_
  refine returning_ite (fun _ => returning_pure fun m hm _ => .inl hm) fun _ => ?_
  exact returning_ite (fun _ => returning_with returning_fails) fun _ => returning_fillSibling old

/-- `extract_entry` up to the replacement, with the note that it is being extracted. -/
def extractFilled (Z : Inflater) (rounds : Nat) (fp : InFile) (e : ZipEntry) (target : Bytes) :
    Install Bool := do
  note fun files => .extracting files e
  let (filled, _) ← fillEntry Z rounds fp e target
  pure filled

theorem tidies_extractFilled (Z : Inflater) (rounds : Nat) (fp : InFile) (e : ZipEntry)
    (target : Bytes) : Tidies target (extractFilled Z rounds fp e target) := by
  intro old
  refine returning_bind (R := fun _ => Untouched target old) (returning_update fun m hm => hm)
    fun _ => ?_
  exact returning_bind (returning_fillEntry old) fun r => returning_pure fun m hm => hm

end Tidying

/-! ## What the sibling holds -/

section Filling

variable {files₀ : Contents} {notes₀ : List Note} {target : Bytes} {sibling path : Path}
  {good : Bytes → Prop}

/-- What a filling helper ends with: the sibling holds something good, or anything when the helper
has failed. -/
def Filler (files₀ : Contents) (notes₀ : List Note) (sibling : Path) (good : Bytes → Prop)
    (r : Bool) (v : View Memory) : Prop :=
  if r then ∃ content, good content ∧ At (Filling files₀ notes₀ sibling content) v
  else At (Attempted files₀ notes₀ sibling fun _ => True) v

theorem prefixClosed_true : PrefixClosed fun _ => True := fun _ _ _ _ => trivial

/-- A helper that gives up before it opens the sibling. -/
theorem triple_givesUp {format : String} {args : List Arg} :
    Triple (At (Exactly files₀ notes₀)) (fails format args) (Filler files₀ notes₀ sibling good)
      (At (Attempted files₀ notes₀ sibling fun _ => True)) :=
  triple_fails.post fun r v hv => by
    rw [hv.1]
    exact Exactly.attempted hv.2

/-- A helper that gives up and removes the sibling. -/
theorem triple_discards {format : String} {args : List Arg} :
    Triple (At (Attempted files₀ notes₀ (resolve (tmpOf target)) fun _ => True))
      (discard target format args) (Filler files₀ notes₀ (resolve (tmpOf target)) good)
      (At (Attempted files₀ notes₀ (resolve (tmpOf target)) fun _ => True)) :=
  triple_discard.post fun r v hv => by
    rw [hv.1]
    exact hv.2

/-- Opening the sibling empties it. -/
theorem triple_fopenWrite_sibling :
    Triple (At (Exactly files₀ notes₀)) (fopenWrite (tmpOf target))
      (fun r v => match r with
        | .error _ => At (Exactly files₀ notes₀) v
        | .ok out => out = ⟨resolve (tmpOf target)⟩ ∧
            At (Filling files₀ notes₀ (resolve (tmpOf target)) []) v)
      (At (Attempted files₀ notes₀ (resolve (tmpOf target)) fun _ => True)) := by
  refine triple_fopenWrite (fun v _ hv => ⟨hv, hv.attempted⟩) fun v hv => ?_
  have hopened : At (Filling files₀ notes₀ (resolve (tmpOf target)) [])
      (v.set (resolve (tmpOf target)) (some [])) := by
    refine ⟨?_, hv.2⟩
    rw [set_files, hv.1]
  exact ⟨⟨rfl, hopened⟩, (hopened.toSome trivial).attempted⟩

/-- Closing the sibling: it is whole unless that fails. -/
theorem triple_flush_sibling {ok : Bool} {content : Bytes} :
    Triple (fun v => if ok then At (Filling files₀ notes₀ sibling content) v
        else At (SomeFilling files₀ notes₀ sibling fun _ => True) v) (flush ⟨sibling⟩)
      (fun closed v => if ok && closed then At (Filling files₀ notes₀ sibling content) v
        else At (SomeFilling files₀ notes₀ sibling fun _ => True) v)
      (At (Attempted files₀ notes₀ sibling fun _ => True)) := by
  have hsome : ∀ v : View Memory, (if ok then At (Filling files₀ notes₀ sibling content) v
      else At (SomeFilling files₀ notes₀ sibling fun _ => True) v) →
      At (SomeFilling files₀ notes₀ sibling fun _ => True) v := by
    intro v hv
    cases ok with
    | false => exact hv
    | true => exact Filling.toSome hv trivial
  refine triple_flush (fun v old n hv hold => ?_) fun v b hv => ⟨?_, (hsome v hv).attempted⟩
  · obtain ⟨content', -, hfilling⟩ := hsome v hv
    have hpart : At (SomeFilling files₀ notes₀ sibling fun _ => True)
        (v.set sibling (some (old.take n))) := (Filling.set hfilling).toSome trivial
    rw [Bool.and_false]
    exact ⟨hpart, hpart.attempted⟩
  · cases b with
    | false =>
        rw [Bool.and_false]
        exact hsome v hv
    | true =>
        rw [Bool.and_true]
        exact hv

/-- The end of a helper that has closed the sibling. -/
theorem triple_finish {whole : Bool} {content : Bytes} (hgood : good content) {format : String}
    {args : List Arg} :
    Triple (fun v => if whole then At (Filling files₀ notes₀ (resolve (tmpOf target)) content) v
        else At (SomeFilling files₀ notes₀ (resolve (tmpOf target)) fun _ => True) v)
      (if !whole then discard target format args else pure true)
      (Filler files₀ notes₀ (resolve (tmpOf target)) good)
      (At (Attempted files₀ notes₀ (resolve (tmpOf target)) fun _ => True)) := by
  cases whole with
  | false => exact triple_discards.pre fun v hv => SomeFilling.attempted hv
  | true => exact triple_pure fun v hv => ⟨content, hgood, hv⟩

/-- Making the directories changes no file. -/
theorem triple_makeDirectories {filename : Bytes} :
    Triple (At (Exactly files₀ notes₀)) (createParentDirectories filename)
      (fun _ => At (Exactly files₀ notes₀)) (At (Attempted files₀ notes₀ sibling fun _ => True)) :=
  Triple.mono (triple_of_stays_empty (P := Exactly files₀ notes₀) stays_createParentDirectories)
    (fun _ hv => hv) (fun _ _ hv => hv) fun _ hv => Exactly.attempted hv

/-- Writing to the sibling of a helper that allows anything. -/
theorem triple_fwrite_sibling {content more : Bytes} :
    Triple (At (Filling files₀ notes₀ sibling content)) (fwrite ⟨sibling⟩ more)
      (fun ok v => if ok then At (Filling files₀ notes₀ sibling (content ++ more)) v
        else At (SomeFilling files₀ notes₀ sibling fun _ => True) v)
      (At (Attempted files₀ notes₀ sibling fun _ => True)) :=
  Triple.mono (triple_fwrite_filling prefixClosed_true trivial) (fun _ hv => hv) (fun _ _ hv => hv)
    fun _ hv => SomeFilling.attempted hv

theorem triple_fillInstallMarker (files : Nat) :
    Triple (At (Exactly files₀ notes₀)) (fillInstallMarker files)
      (Filler files₀ notes₀ (resolve (tmpOf installMarker)) (· = markerText files))
      (At (Attempted files₀ notes₀ (resolve (tmpOf installMarker)) fun _ => True)) := by
  refine triple_ite (fun _ => triple_givesUp) fun _ => ?_
  refine triple_bind triple_makeDirectories fun made => ?_
  refine triple_ite (fun _ => triple_pure fun v hv => Exactly.attempted hv) fun _ => ?_
  refine triple_bind triple_fopenWrite_sibling ?_
  rintro (e | out)
  · exact triple_givesUp
  refine .assume ?_
  rintro rfl
  refine triple_bind triple_fwrite_sibling fun printed => ?_
  refine triple_bind triple_flush_sibling fun flushed =>
    triple_bind triple_flush_sibling fun closed => ?_
  exact triple_finish (by rfl)

theorem triple_fillGuidMarker (guid : Bytes) :
    Triple (At (Exactly files₀ notes₀)) (fillGuidMarker guid)
      (Filler files₀ notes₀ (resolve (tmpOf guidMarker)) (· = guid))
      (At (Attempted files₀ notes₀ (resolve (tmpOf guidMarker)) fun _ => True)) := by
  refine triple_bind triple_makeDirectories fun made => ?_
  refine triple_ite (fun _ => triple_pure fun v hv => Exactly.attempted hv) fun _ => ?_
  refine triple_ite (fun _ => triple_givesUp) fun _ => ?_
  refine triple_bind triple_fopenWrite_sibling ?_
  rintro (e | out)
  · exact triple_discards.pre fun v hv => Exactly.attempted hv
  refine .assume ?_
  rintro rfl
  refine triple_bind triple_fwrite_sibling fun wrote =>
    triple_bind triple_flush_sibling fun closed => ?_
  exact triple_finish (by rfl)

/-- `copy_file_atomic` up to the replacement: the sibling holds the source. -/
theorem triple_fillCopy (rounds : Nat) {src dst : Bytes}
    (hsrc : resolve src ≠ resolve (tmpOf dst)) :
    Triple (At (Exactly files₀ notes₀)) (fillCopy rounds src dst)
      (Filler files₀ notes₀ (resolve (tmpOf dst)) fun content =>
        files₀ (resolve src) = some content)
      (At (Attempted files₀ notes₀ (resolve (tmpOf dst)) fun _ => True)) := by
  refine Triple.mono (triple_fillCopy_beginning rounds hsrc) (fun _ hv => hv) (fun r v hv => ?_)
    fun v hv => Attempted.mono hv fun _ _ => trivial
  cases r with
  | false => exact Attempted.mono hv fun _ _ => trivial
  | true => exact hv

/-- `extract_entry` up to the replacement: the sibling holds what has passed the checks. -/
theorem triple_extractFilled {Z : Inflater} {apk : Bytes} {e : ZipEntry} (rounds : Nat)
    (hZ : EntryYields Z apk e good) {fp : InFile} (hpath : fp.path ≠ resolve (tmpOf target))
    (hapk : files₀ fp.path = some apk) :
    Triple (At (Exactly files₀ notes₀)) (extractFilled Z rounds fp e target)
      (Filler files₀ (notes₀ ++ [.extracting files₀ e]) (resolve (tmpOf target)) (Passed good e))
      (At fun _ _ => True) := by
  refine triple_bind (R := fun _ => At (Exactly files₀ (notes₀ ++ [.extracting files₀ e])))
    (triple_note fun v hv => ?_) fun _ => ?_
  · refine ⟨hv.1, ?_⟩
    show v.rest.notes ++ _ = _
    rw [hv.2, hv.1]
  refine triple_bind (Triple.mono (triple_fillEntry hZ rfl hpath hapk) (fun v hv => hv)
    (fun r v hv => hv) fun v hv => trivial) ?_
  rintro ⟨filled, fp'⟩
  refine triple_pure fun v hv => ?_
  obtain ⟨-, hready⟩ := hv
  cases filled with
  | false =>
      obtain ⟨⟨content, hfiles, -⟩, hnotes⟩ := hready
      exact ⟨⟨content, hfiles, fun _ _ => .inl trivial⟩, hnotes⟩
  | true =>
      obtain ⟨content, hpassed, -, hfilling⟩ := hready
      exact ⟨content, hpassed, hfilling⟩

end Filling

/-! ## The replacement -/

section Replacement

variable {target : Bytes} {good : Bytes → Prop} {m m₁ m' : Machine (World Memory)} {r : Bool}

/-- What a helper has come to before the replacement. -/
structure Prepared (target : Bytes) (good : Bytes → Prop) (m : Machine (World Memory)) (r : Bool)
    (m' : Machine (World Memory)) : Prop where
  others : ∀ q, q ≠ resolve (tmpOf target) → m'.world.fs.file q = m.world.fs.file q
  content : r = true →
    ∃ content, good content ∧ m'.world.fs.file (resolve (tmpOf target)) = some content
  tidied : r = false →
    Untouched target (m.world.fs.file (resolve (tmpOf target))) m' ∨ Tidied target m'

/-- What a helper that replaces a file should do: on success the file has the new content, and on
failure it is as it was and no sibling is left over. -/
structure KeepsPromise (target : Bytes) (good : Bytes → Prop)
    (m : Machine (World Memory)) (r : Bool)
    (m' : Machine (World Memory)) : Prop where
  succeeded : r = true → ∃ content, good content ∧ Holding (resolve target) content m'.world
  failed : r = false → m'.world.fs.file (resolve target) = m.world.fs.file (resolve target)
  tidied : r = false →
    Untouched target (m.world.fs.file (resolve (tmpOf target))) m' ∨ Tidied target m'

/-- The removal of the file succeeds, and the rename after it fails. -/
def LosesAt (target : Bytes) (m : Machine (World Memory)) : Prop :=
  ∃ m₂ m₃ e, remove target m = (some (.ok ()), m₂) ∧
    rename (tmpOf target) target m₂ = (some (.error e), m₃)

/-- The helper comes to the replacement, and loses the file there. -/
def Loses (fill : Install Bool) (target : Bytes) (m : Machine (World Memory)) : Prop :=
  ∃ m₁, fill m = (some true, m₁) ∧ LosesAt target m₁

theorem prepared {fill : Install Bool} {notes : List Note} {C : View Memory → Prop}
    (htriple : Triple (At (Exactly m.world.fs.file m.world.rest.notes)) fill
      (Filler m.world.fs.file notes (resolve (tmpOf target)) good) C)
    (htidies : Tidies target fill) (hrun : fill m = (some r, m')) :
    Prepared target good m r m' := by
  have hfiller := htriple m ⟨rfl, rfl⟩
  rw [hrun] at hfiller
  refine ⟨fun q hq => ?_, ?_, htidies _ m rfl r m' hrun⟩
  · cases r with
    | false =>
        obtain ⟨⟨content, hfiles, -⟩, -⟩ := hfiller
        rw [show m'.world.fs.file = _ from hfiles, Function.update_of_ne hq]
    | true =>
        obtain ⟨content, -, hfiles, -⟩ := hfiller
        rw [show m'.world.fs.file = _ from hfiles, Function.update_of_ne hq]
  · rintro rfl
    obtain ⟨content, hgood, hfiles, -⟩ := hfiller
    exact ⟨content, hgood, by rw [show m'.world.fs.file = _ from hfiles, Function.update_self]⟩

/-- What a removal has done. -/
theorem remove_run {name : Bytes} {r : Except Errno Unit} (hrun : remove name m = (some r, m')) :
    (∃ e, r = .error e ∧ m'.world.fs.file = m.world.fs.file) ∨
      (r = .ok () ∧ (∃ old, m.world.fs.file (resolve name) = some old) ∧
        m'.world.fs.file = Function.update m.world.fs.file (resolve name) none) := by
  have htriple : Triple (fun v => v = m.world.view) (remove name)
      (fun r v => (∃ e, r = .error e ∧ v.files = m.world.fs.file) ∨
        (r = .ok () ∧ (∃ old, m.world.fs.file (resolve name) = some old) ∧
          v.files = Function.update m.world.fs.file (resolve name) none)) fun _ => True := by
    refine triple_remove (fun v e hv => ⟨.inl ⟨e, rfl, ?_⟩, trivial⟩) fun v old hv hold =>
      ⟨.inr ⟨rfl, ?_, ?_⟩, trivial⟩
    · rw [hv, view_files]
    · rw [hv, view_files] at hold
      exact ⟨old, hold⟩
    · rw [set_files, hv, view_files]
  have hdone := htriple m rfl
  rwa [hrun] at hdone

/-- What a rename has done. -/
theorem rename_run {src dst : Bytes} {r : Except Errno Unit}
    (hrun : rename src dst m = (some r, m')) :
    (∃ e, r = .error e ∧ m'.world.fs.file = m.world.fs.file) ∨
      (r = .ok () ∧ m'.world.fs.file (resolve dst) = m.world.fs.file (resolve src)) := by
  have htriple : Triple (fun v => v = m.world.view) (rename src dst)
      (fun r v => (∃ e, r = .error e ∧ v.files = m.world.fs.file) ∨
        (r = .ok () ∧ v.files (resolve dst) = m.world.fs.file (resolve src))) fun _ => True := by
    refine triple_rename (fun v e hv => ⟨.inl ⟨e, rfl, ?_⟩, trivial⟩) fun v content hv hcontent =>
      ⟨.inr ⟨rfl, ?_⟩, trivial⟩
    · rw [hv, view_files]
    · rw [hv, view_files] at hcontent
      rw [move_files, Function.update_self, hcontent]
  have hdone := htriple m rfl
  rwa [hrun] at hdone

/-- What the end of a failing helper has done. -/
theorem discard_run {format : String} {args : List Arg}
    (hrun : discard target format args m = (some r, m')) :
    r = false ∧ Tidied target m' ∧ ∀ q, q ≠ resolve (tmpOf target) →
      m'.world.fs.file q = m.world.fs.file q := by
  have hstays : Stays {resolve (tmpOf target)} SameNotes (discard target format args) :=
    stays_bind (stays_remove rfl) fun _ => stays_fails
  have hmoved := hstays m
  rw [hrun] at hmoved
  obtain ⟨hr, htidied⟩ :=
    returning_discard (P := fun _ => True) m trivial r m' hrun
  exact ⟨hr, htidied, hmoved.files⟩

/-- A replacement keeps the promise exactly if it does not lose the file. -/
theorem replaceFile_iff {format : String} {args : List Arg} (h : Prepared target good m true m₁)
    (hrun : replaceFile target format args m₁ = (some r, m')) :
    KeepsPromise target good m r m' ↔ ¬ LosesAt target m₁ := by
  have hother : resolve target ≠ resolve (tmpOf target) := (tmpOf_ne target).symm
  obtain ⟨removed, m₂, hremove, hrest⟩ := bind_eq_some hrun
  obtain ⟨renamed, m₃, hrename, hrest⟩ := bind_eq_some hrest
  have hloses : LosesAt target m₁ ↔ removed = .ok () ∧ ∃ e, renamed = .error e := by
    constructor
    · rintro ⟨_, _, e, hremove', hrename'⟩
      rw [hremove] at hremove'
      cases hremove'
      rw [hrename] at hrename'
      cases hrename'
      exact ⟨rfl, e, rfl⟩
    · rintro ⟨rfl, e, rfl⟩
      exact ⟨m₂, m₃, e, hremove, hrename⟩
  rw [hloses]
  cases renamed with
  | ok =>
      cases hrest
      obtain ⟨content, hgood, hcontent⟩ := h.content rfl
      have hsibling : m₂.world.fs.file (resolve (tmpOf target)) = some content := by
        rcases remove_run hremove with ⟨e, -, hfiles⟩ | ⟨-, -, hfiles⟩
        · rw [hfiles, hcontent]
        · rw [hfiles, Function.update_of_ne (tmpOf_ne target), hcontent]
      rcases rename_run hrename with ⟨e, he, -⟩ | ⟨-, hmoved⟩
      · cases he
      · refine iff_of_true ⟨fun _ => ⟨content, hgood, hmoved.trans hsibling⟩, by simp, by simp⟩ ?_
        rintro ⟨-, e, he⟩
        cases he
  | error e =>
      obtain ⟨rfl, htidied, hothers⟩ := discard_run hrest
      have hfiles : m'.world.fs.file (resolve target) = m₂.world.fs.file (resolve target) := by
        rcases rename_run hrename with ⟨_, -, hsame⟩ | ⟨he, -⟩
        · rw [hothers _ hother, hsame]
        · cases he
      have hkept := h.others _ hother
      rcases remove_run hremove with ⟨e', rfl, hsame⟩ | ⟨rfl, ⟨old, hold⟩, hgone⟩
      · refine iff_of_true ⟨by simp, fun _ => ?_, fun _ => .inr htidied⟩ fun hlost => ?_
        · rw [hfiles, hsame, hkept]
        · cases hlost.1
      · refine iff_of_false (fun hkeeps => ?_) fun hnot => hnot ⟨rfl, e, rfl⟩
        have hfailed := hkeeps.failed rfl
        rw [hfiles, hgone, Function.update_self, ← hkept, hold] at hfailed
        cases hfailed

/-- A helper that fails before the replacement keeps its promise. -/
theorem Prepared.keepsPromise (h : Prepared target good m false m') :
    KeepsPromise target good m false m' :=
  ⟨by simp, fun _ => h.others _ (tmpOf_ne target).symm, h.tidied⟩

/-- The promise does not speak of notes. -/
theorem KeepsPromise.congr {m₂ : Machine (World Memory)} (h : KeepsPromise target good m r m')
    (hfs : m₂.world.fs = m'.world.fs) (hdecisions : m₂.decisions = m'.decisions)
    (hnow : m₂.now = m'.now) : KeepsPromise target good m r m₂ := by
  refine ⟨fun hr => ?_, fun hr => ?_, fun hr => ?_⟩
  · obtain ⟨content, hgood, hcontent⟩ := h.succeeded hr
    exact ⟨content, hgood, (congrArg (Fs.file · (resolve target)) hfs).trans hcontent⟩
  · rw [hfs]
    exact h.failed hr
  · have htidied := h.tidied hr
    unfold Untouched Tidied at htidied ⊢
    rwa [hfs, hdecisions, hnow]

/-- A helper that fills a sibling and replaces a file by it. -/
def replacing (fill : Install Bool) (target : Bytes) (format : String) (args : List Arg) :
    Install Bool := do
  if !(← fill) then pure false
  else replaceFile target format args

/-- Such a helper keeps the promise exactly if it does not lose the file. -/
theorem replacing_iff {fill : Install Bool} {format : String} {args : List Arg}
    (hfill : ∀ r m', fill m = (some r, m') → Prepared target good m r m')
    (hrun : replacing fill target format args m = (some r, m')) :
    KeepsPromise target good m r m' ↔ ¬ Loses fill target m := by
  obtain ⟨filled, m₁, hfilled, hrest⟩ := bind_eq_some hrun
  have hprepared := hfill filled m₁ hfilled
  cases filled with
  | false =>
      cases hrest
      refine iff_of_true hprepared.keepsPromise ?_
      rintro ⟨_, hfilled', -⟩
      rw [hfilled] at hfilled'
      cases hfilled'
  | true =>
      rw [replaceFile_iff hprepared hrest]
      refine not_congr ⟨fun h => ⟨m₁, hfilled, h⟩, ?_⟩
      rintro ⟨_, hfilled', h⟩
      rw [hfilled] at hfilled'
      cases hfilled'
      exact h

end Replacement

/-! ## Coming to an end -/

section Ending

variable {sibling path : Path} {content : Bytes}

theorem ends_fillInstallMarker (files : Nat) : Ends (fillInstallMarker files) := by
  refine ends_ite (fun _ => ends_fails) fun _ => ends_bind (ends_createParentDirectories _) fun _ =>
    ends_ite (fun _ => ends_pure _) fun _ => ends_bind (ends_operation _) fun r => ?_
  cases r with
  | error => exact ends_fails
  | ok m =>
      refine ends_bind ends_step fun _ => ends_bind ends_step fun _ =>
        ends_bind ends_step fun _ => ?_
      exact ends_ite (fun _ => ends_discard) fun _ => ends_pure _

theorem ends_fillGuidMarker (guid : Bytes) : Ends (fillGuidMarker guid) := by
  refine ends_bind (ends_createParentDirectories _) fun _ =>
    ends_ite (fun _ => ends_pure _) fun _ =>
    ends_ite (fun _ => ends_fails) fun _ => ends_bind (ends_operation _) fun r => ?_
  cases r with
  | error => exact ends_discard
  | ok m =>
      refine ends_bind ends_step fun _ => ends_bind ends_step fun _ => ?_
      exact ends_ite (fun _ => ends_discard) fun _ => ends_pure _

/-- The loop of `copy_file_atomic` comes to an end: it reads on with every round. -/
theorem total_copyLoop (hpath : path ≠ sibling) (rounds pos : Nat) (err : Bool)
    (hpos : pos ≤ content.length) (hrounds : content.length < rounds + pos) :
    Total Anyhow (Holding path content) (copyLoop ⟨sibling⟩ rounds ⟨path, pos, err⟩)
      fun _ _ => True := by
  induction rounds generalizing pos err with
  | zero => omega
  | succ rounds ih =>
      unfold copyLoop
      refine total_bind (R := fun r w => (∃ err, r.2 = ⟨path, pos + r.1.length, err⟩ ∧
        pos + r.1.length ≤ content.length) ∧ Holding path content w) (total_step ?_) ?_
      · intro d w _ hw
        refine ⟨⟨_, rfl, ?_⟩, hw⟩
        dsimp only
        rw [hw, Option.getD_some]
        have hrest : ((content.drop pos).take zipIoBytes).length ≤ content.length - pos := by
          rw [List.length_take, List.length_drop]
          exact Nat.min_le_right _ _
        split
        · have hpart := List.length_take_le' (min d.amount (zipIoBytes - 1))
            ((content.drop pos).take zipIoBytes)
          omega
        · omega
      rintro ⟨got, fp⟩
      refine .assume ?_
      rintro ⟨err', hfp, hgot⟩
      dsimp only at hfp hgot
      subst hfp
      refine total_bind (R := fun _ => Holding path content) (total_ite (fun _ => ?_) fun _ =>
        total_pure fun w hw => hw) fun wrote => ?_
      · refine total_step fun d w _ hw => ?_
        have hput : ∀ new, Fs.file (w.fs.put sibling new) path = some content := fun new => by
          rw [file_put, Function.update_of_ne hpath, hw]
        split
        · exact hw
        · split
          · exact hput _
          · exact hput _
      refine total_ite (fun _ => total_pure fun _ _ => trivial) fun _ =>
        total_ite (fun _ => total_pure fun _ _ => trivial) fun hfull => ih _ _ hgot ?_
      unfold zipIoBytes at hfull
      omega

/-- With enough rounds the copying of a file comes to an end. -/
theorem total_fillCopy {src dst : Bytes} (hsrc : resolve src ≠ resolve (tmpOf dst))
    {old : Option Bytes} {rounds : Nat} (hrounds : (old.getD []).length < rounds) :
    Total Anyhow (fun w => w.fs.file (resolve src) = old) (fillCopy rounds src dst)
      fun _ _ => True := by
  have hkept : ∀ w w' : World Memory, Within ∅ SameNotes w.view w'.view →
      w.fs.file (resolve src) = old → w'.fs.file (resolve src) = old := fun w w' hw hold =>
    (hw.files _ id).trans hold
  have hends : ∀ {α : Type} {p : Install α} {P : World Memory → Prop}, Ends p →
      Total Anyhow P p fun _ _ => True := fun h => h.pre fun _ _ => trivial
  refine total_bind ((ends_createParentDirectories dst).total stays_createParentDirectories hkept)
    fun made => total_ite (fun _ => total_pure fun _ _ => trivial) fun _ => ?_
  refine total_bind (R := fun r w => (∀ input, r = .ok input → ∃ content,
    old = some content ∧ input = ⟨resolve src, 0, false⟩) ∧ w.fs.file (resolve src) = old)
    (total_attempt (fun w hw => ⟨by simp, hw⟩) fun w hw => ?_) ?_
  · split
    · exact ⟨by simp, hw⟩
    · rename_i content hcontent
      refine ⟨?_, hw⟩
      rintro _ ⟨⟩
      exact ⟨content, hw.symm.trans hcontent, rfl⟩
  rintro (e | input)
  · exact hends ends_fails
  refine .assume fun hinput => ?_
  obtain ⟨content, rfl, rfl⟩ := hinput input rfl
  refine total_ite (fun _ => hends (ends_bind ends_step fun _ => ends_fails)) fun _ => ?_
  refine total_bind (R := fun r w => (∀ out, r = .ok out → out = ⟨resolve (tmpOf dst)⟩) ∧
    Holding (resolve src) content w) (total_attempt (fun w hw => ⟨by simp, hw⟩) fun w hw => ?_) ?_
  · split
    · exact ⟨by simp, hw⟩
    · split
      · refine ⟨by simp, ?_⟩
        show Fs.file (Fs.put w.fs (resolve (tmpOf dst)) []) (resolve src) = some content
        rw [file_put, Function.update_of_ne hsrc, hw]
      · exact ⟨by simp, hw⟩
  rintro (e | out)
  · exact hends (ends_bind ends_step fun _ => ends_fails)
  refine .assume fun hout => ?_
  obtain rfl := hout out rfl
  refine total_bind (R := fun _ => Holding (resolve src) content) (total_step fun _ _ _ hw => hw)
    fun buf => total_bind (R := fun _ _ => True) (total_ite (fun _ => ?_) fun _ =>
      total_pure fun _ _ => trivial) fun ok => ?_
  · exact total_copyLoop hsrc rounds 0 false (Nat.zero_le _) hrounds
  · exact ends_bind ends_step fun _ => ends_bind ends_step fun _ =>
      ends_ite (fun _ => ends_discard) fun _ => ends_pure _

theorem total_replacing {fill : Install Bool} {target : Bytes} {P : World Memory → Prop}
    {format : String} {args : List Arg} (h : Total Anyhow P fill fun _ _ => True) :
    Total Anyhow P (replacing fill target format args) fun _ _ => True :=
  total_bind h fun _ => ends_ite (fun _ => ends_pure _) fun _ => ends_replaceFile

end Ending

/-! ## The promise -/

/-- `extract_entry` is a helper that fills a sibling and replaces a file by it. -/
theorem extractEntry_replacing {Z : Inflater} {rounds : Nat} {fp fp' : InFile} {e : ZipEntry}
    {target : Bytes} {m m' : Machine (World Memory)} {r : Bool}
    (hrun : extractEntry Z rounds fp e target m = (some (r, fp'), m')) :
    ∃ m₂, replacing (extractFilled Z rounds fp e target) target
        "Could not finalize extracted file:\n%s\nerrno=%d (%s)" [.name target, .errno] m =
          (some r, m₂) ∧
      m₂.world.fs = m'.world.fs ∧ m₂.decisions = m'.decisions ∧ m₂.now = m'.now := by
  obtain ⟨_, m₀, hnote, hrest⟩ := bind_eq_some hrun
  obtain ⟨⟨filled, fp₁⟩, m₁, hfill, hrest⟩ := bind_eq_some hrest
  have hfilled : extractFilled Z rounds fp e target m = (some filled, m₁) :=
    (bind_of_some hnote).trans (bind_of_some hfill)
  cases filled with
  | false =>
      cases hrest
      exact ⟨_, bind_of_some hfilled, rfl, rfl, rfl⟩
  | true =>
      obtain ⟨replaced, m₂, hreplace, hrest⟩ := bind_eq_some hrest
      refine ⟨m₂, (bind_of_some hfilled).trans ?_, ?_⟩
      · cases replaced with
        | false =>
            cases hrest
            exact hreplace
        | true =>
            obtain ⟨_, m₃, _, hend⟩ := bind_eq_some hrest
            cases hend
            exact hreplace
      · cases replaced with
        | false =>
            cases hrest
            exact ⟨rfl, rfl, rfl⟩
        | true =>
            cases hrest
            exact ⟨rfl, rfl, rfl⟩

/-- `extract_entry` keeps the promise exactly if it does not lose the target. -/
theorem extractEntry_keeps_iff {Z : Inflater} {good : Bytes → Prop} {apk : Bytes} {e : ZipEntry}
    (hZ : EntryYields Z apk e good) {rounds : Nat} {fp fp' : InFile} {target : Bytes}
    {m m' : Machine (World Memory)} {r : Bool} (hsibling : fp.path ≠ resolve (tmpOf target))
    (hapk : Holding fp.path apk m.world)
    (hrun : extractEntry Z rounds fp e target m = (some (r, fp'), m')) :
    KeepsPromise target (Passed good e) m r m' ↔
      ¬ Loses (extractFilled Z rounds fp e target) target m := by
  obtain ⟨m₂, hreplacing, hfs, hdecisions, hnow⟩ := extractEntry_replacing hrun
  rw [← replacing_iff (fun _ _ => prepared (triple_extractFilled rounds hZ hsibling hapk)
    (tidies_extractFilled Z rounds fp e target)) hreplacing]
  exact ⟨fun h => h.congr hfs hdecisions hnow, fun h => h.congr hfs.symm hdecisions.symm hnow.symm⟩

/-- Each of the helpers that write a sibling first comes to an end, and on its end keeps its promise
exactly if it has not removed the file and then failed to rename the sibling. -/
theorem replacements_keep_iff {Z : Inflater} {decode : Bytes → Option Bytes}
    (hdecodes : Z.Decodes decode) (hprogress : Z.Progresses) (hbounded : Z.Bounded)
    (m : Machine (World Memory)) (hm : Powered Anyhow m.decisions) :
    (∀ (e : ZipEntry) (target : Bytes), ∃ enough, ∀ rounds, enough ≤ rounds →
      ∀ apk (fp : InFile), Holding fp.path apk m.world → fp.path ≠ resolve (tmpOf target) →
        ∃ r fp' m', extractEntry Z rounds fp e target m = (some (r, fp'), m') ∧
          (KeepsPromise target (Passed (fun content => entryBytes decode apk e = some content) e)
              m r m' ↔
            ¬ Loses (extractFilled Z rounds fp e target) target m)) ∧
    (∀ src dst : Bytes, resolve src ≠ resolve (tmpOf dst) → ∃ enough, ∀ rounds, enough ≤ rounds →
      ∃ r m', copyFileAtomic rounds src dst m = (some r, m') ∧
        (KeepsPromise dst (fun content => m.world.fs.file (resolve src) = some content) m r m' ↔
          ¬ Loses (fillCopy rounds src dst) dst m)) ∧
    (∀ files : Nat, ∃ r m', writeRuntimeInstallMarker files m = (some r, m') ∧
      (KeepsPromise installMarker (fun content => content = markerText files) m r m' ↔
        ¬ Loses (fillInstallMarker files) installMarker m)) ∧
    (∀ guid : Bytes, ∃ r m', writeGuidMarker guid m = (some r, m') ∧
      (KeepsPromise guidMarker (fun content => content = guid) m r m' ↔
        ¬ Loses (fillGuidMarker guid) guidMarker m)) := by
  refine ⟨fun e target => ?_, fun src dst hsrc => ?_, fun files => ?_, fun guid => ?_⟩
  · obtain ⟨bound, hbound⟩ := hbounded e.csize
    refine ⟨e.csize + bound + 1, fun rounds hrounds apk fp hapk hsibling => ?_⟩
    obtain ⟨⟨r, fp'⟩, m', hrun, -⟩ :=
      (ends_extractEntry hprogress rounds hbound (by omega) fp target).run hm
    exact ⟨r, fp', m', hrun,
      extractEntry_keeps_iff (entryYields_of_decodes hdecodes apk e) hsibling hapk hrun⟩
  · refine ⟨((m.world.fs.file (resolve src)).getD []).length + 1, fun rounds hrounds => ?_⟩
    obtain ⟨r, m', hrun, -⟩ := total_replacing (total_fillCopy hsrc hrounds) m hm rfl
    exact ⟨r, m', hrun, replacing_iff (fun _ _ => prepared (triple_fillCopy rounds hsrc)
      (tidies_fillCopy rounds src dst)) hrun⟩
  · obtain ⟨r, m', hrun, -⟩ := total_replacing (ends_fillInstallMarker files) m hm trivial
    exact ⟨r, m', hrun, replacing_iff (fun _ _ => prepared (triple_fillInstallMarker files)
      (tidies_fillInstallMarker files)) hrun⟩
  · obtain ⟨r, m', hrun, -⟩ := total_replacing (ends_fillGuidMarker guid) m hm trivial
    exact ⟨r, m', hrun, replacing_iff (fun _ _ => prepared (triple_fillGuidMarker guid)
      (tidies_fillGuidMarker guid)) hrun⟩

/-- A machine on which nothing fails, with an archive whose first entry is deflated. -/
def calmMachine : Machine (World Memory) :=
  ⟨runtimeWorld [[97]] (smallArchive deflatedA), fun _ => .good, 0⟩

/-- The helpers on such a machine. -/
theorem replacements_keep_calm :
    (∃ enough, ∀ rounds, enough ≤ rounds → ∃ r fp' m',
      extractEntry (.ofStream deflatedA [97]) rounds ⟨[[97]], 0, false⟩ (smallEntry 8 3 1 0xE8B7BE43)
          (inDataRoot manifestName) calmMachine = (some (r, fp'), m') ∧
        (KeepsPromise (inDataRoot manifestName) (Passed (fun content =>
            entryBytes (decodeStream deflatedA [97]) (smallArchive deflatedA)
              (smallEntry 8 3 1 0xE8B7BE43) = some content) (smallEntry 8 3 1 0xE8B7BE43))
            calmMachine r m' ↔
          ¬ Loses (extractFilled (.ofStream deflatedA [97]) rounds ⟨[[97]], 0, false⟩
            (smallEntry 8 3 1 0xE8B7BE43) (inDataRoot manifestName)) (inDataRoot manifestName)
            calmMachine)) ∧
    (∃ enough, ∀ rounds, enough ≤ rounds → ∃ r m',
      copyFileAtomic rounds [97] (inDataRoot manifestName) calmMachine = (some r, m') ∧
        (KeepsPromise (inDataRoot manifestName)
            (fun content => calmMachine.world.fs.file (resolve [97]) = some content)
              calmMachine r m' ↔
          ¬ Loses (fillCopy rounds [97] (inDataRoot manifestName)) (inDataRoot manifestName)
            calmMachine)) ∧
    (∃ r m', writeRuntimeInstallMarker 1 calmMachine = (some r, m') ∧
      (KeepsPromise installMarker (fun content => content = markerText 1) calmMachine r m' ↔
        ¬ Loses (fillInstallMarker 1) installMarker calmMachine)) ∧
    ∃ r m', writeGuidMarker [97] calmMachine = (some r, m') ∧
      (KeepsPromise guidMarker (fun content => content = [97]) calmMachine r m' ↔
        ¬ Loses (fillGuidMarker [97]) guidMarker calmMachine) := by
  have hpowered : Powered Anyhow calmMachine.decisions := fun _ => ⟨rfl, trivial⟩
  have hsibling : [[97]] ≠ resolve (tmpOf (inDataRoot manifestName)) := by decide +kernel
  have hsource : resolve [97] ≠ resolve (tmpOf (inDataRoot manifestName)) := by decide +kernel
  obtain ⟨hextract, hcopy, hinstall, hguid⟩ := replacements_keep_iff
    (Inflater.ofStream_decodes : (Inflater.ofStream deflatedA [97]).Decodes _)
    Inflater.ofStream_progresses Inflater.ofStream_bounded calmMachine hpowered
  refine ⟨?_, hcopy _ _ hsource, hinstall _, hguid _⟩
  obtain ⟨enough, henough⟩ := hextract (smallEntry 8 3 1 0xE8B7BE43) (inDataRoot manifestName)
  exact ⟨enough, fun rounds hrounds => henough rounds hrounds _ _
    (holding_runtimeWorld _ _) hsibling⟩

/-- The runtime directory with an archive of one stored byte, and an old file at the target. -/
def updateWorld : World Memory :=
  ⟨(runtimeWorld [[97]] (smallArchive [97])).fs.put (resolve (inDataRoot manifestName)) [9], [],
    .init⟩

/-- The extraction over the old file, when the given steps fail. -/
def extractUpdate (failing : Nat → Bool) : Option (Bool × InFile) × Machine (World Memory) :=
  extractEntry (.ofStream [] []) 0 ⟨[[97]], 0, false⟩ (smallEntry 0 1 1 0xE8B7BE43)
    (inDataRoot manifestName) ⟨updateWorld, fun i => ⟨false, failing i, 0⟩, 0⟩

/-- `extract_entry` fails because of its rename, and the old file is gone. -/
theorem extraction_loses_target :
    ((extractUpdate fun i => i = 10).1.map Prod.fst = some false ∧
      (extractUpdate fun i => i = 10).2.world.fs.file (resolve (tmpOf (inDataRoot manifestName))) =
        none) ∧
    updateWorld.fs.file (resolve (inDataRoot manifestName)) = some [9] ∧
    (extractUpdate fun i => i = 10).2.world.fs.file (resolve (inDataRoot manifestName)) = none := by
  decide +kernel

end Asnx.Installer
