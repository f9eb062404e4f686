import Asnx.Installer.Working

/-!
# What the notes of a run tell

The parts of `installer_prepare_game_files` that extract entries take notes of nothing else, and
each note has the files that the part does not change as they were when it began (`Works`). Up to
the removal of `game.apk` a run is of this kind, and changes files of the runtime directory only.
-/

namespace Asnx.Installer

open Interrupted Files Tracing Credits Zlib

/-! ## Notes of extractions -/

/-- An element of a list with one more is the last one, or one of the list. -/
theorem split_snoc {α : Type} {as before after : List α} {last a : α}
    (hsplit : as ++ [last] = before ++ a :: after) :
    (before = as ∧ a = last) ∨ ∃ between, as = before ++ a :: between := by
  rcases List.eq_nil_or_concat after with rfl | ⟨between, last', rfl⟩
  · obtain ⟨rfl, hlast⟩ := List.append_inj' hsplit rfl
    exact .inl ⟨rfl, (List.cons.inj hlast).1.symm⟩
  · rw [List.concat_eq_append, ← List.cons_append, ← List.append_assoc] at hsplit
    exact .inr ⟨between, (List.append_inj' hsplit rfl).1⟩

/-- An element that is none of the last ones. -/
theorem split_append {α : Type} {as more before after : List α} {a : α}
    (hsplit : as ++ more = before ++ a :: after)
    (ha : a ∉ more) : ∃ between, as = before ++ a :: between := by
  induction more using List.reverseRecOn generalizing after with
  | nil => exact ⟨after, by rwa [List.append_nil] at hsplit⟩
  | append_singleton more last ih =>
      rw [← List.append_assoc] at hsplit
      rcases split_snoc hsplit with ⟨-, rfl⟩ | ⟨between, hbetween⟩
      · exact absurd (List.mem_append_right _ List.mem_cons_self) ha
      · exact ih hbetween fun hmem => ha (List.mem_append_left _ hmem)

/-- The note is of an extraction, and the files outside `K` were then as given. -/
def Note.Of (K : Set Path) (files : Contents) : Note → Prop
  | .extracting f _ => ∀ q, q ∉ K → f q = files q
  | .extracted f _ _ => ∀ q, q ∉ K → f q = files q
  | _ => False

/-- Files outside `K` are as they were, and all new notes are of extractions; unless one has begun,
the files in `L` are as they were, too. -/
structure Worked (K L : Set Path) (v v' : View Memory) : Prop where
  files : ∀ q, q ∉ K → v'.files q = v.files q
  notes : ∃ more, v'.rest.notes = v.rest.notes ++ more ∧ (∀ n ∈ more, n.Of K v.files) ∧
    ((∀ f e, .extracting f e ∉ more) → ∀ q ∈ L, v'.files q = v.files q)

/-- The program changes no file outside `K`, takes notes of extractions only, and changes no file
in `L` unless it extracts. -/
def Works {α : Type} (K L : Set Path) (p : Install α) : Prop :=
  Moves (fun w w' => Worked K L w.view w'.view) p

section Rules

variable {K L : Set Path} {α β : Type} {p : Install α}

/-- A note of some contents fits others that agree with them outside the paths. -/
theorem Note.Of.of_eq {n : Note} {files files' : Contents} (h : n.Of K files')
    (hfiles : ∀ q, q ∉ K → files' q = files q) : n.Of K files := by
  cases n with
  | extracting f e => exact fun q hq => (h q hq).trans (hfiles q hq)
  | extracted f e target => exact fun q hq => (h q hq).trans (hfiles q hq)
  | placed | started | fastPath | removing => exact h

instance : Std.Refl fun w w' : World Memory => Worked K L w.view w'.view :=
  ⟨fun _ => ⟨fun _ _ => rfl, [], (List.append_nil _).symm, nofun, fun _ _ _ => rfl⟩⟩

instance : IsTrans (World Memory) fun w w' => Worked K L w.view w'.view := by
  refine ⟨fun w w' w'' h h' => ?_⟩
  obtain ⟨hfiles, more, hnotes, hof, hquiet⟩ := h
  obtain ⟨hfiles', more', hnotes', hof', hquiet'⟩ := h'
  refine ⟨fun q hq => (hfiles' q hq).trans (hfiles q hq), more ++ more', ?_, fun n hn =>
    ?_, fun hnone q hq => ?_⟩
  · rw [hnotes', hnotes, List.append_assoc]
  · rcases List.mem_append.1 hn with hn | hn
    · exact hof n hn
    · exact (hof' n hn).of_eq hfiles
  · rw [hquiet' (fun f e hmem => hnone f e (List.mem_append_right _ hmem)) q hq]
    exact hquiet (fun f e hmem => hnone f e (List.mem_append_left _ hmem)) q hq

theorem works_pure (a : α) : Works K L (pure a : Install α) := moves_pure a

/-- What follows on a program that works. -/
theorem works_bind {q : Install β} {f : β → Install α} (hq : Works K L q)
    (hf : ∀ b, Works K L (f b)) :
    Works K L (q >>= f) := moves_bind hq hf

/-- A program that takes no notes. -/
theorem works_of_stays (h : Stays (K \ L) SameNotes p) : Works K L p := fun m =>
  ⟨fun q hq => (h m).files q fun hmem =>
    hq hmem.1, [], by rw [List.append_nil]; exact (h m).rest, nofun,
    fun _ q hq => (h m).files q fun hmem => hmem.2 hq⟩

/-- A note of the contents at hand. -/
theorem works_note {f : Contents → Note} (h : ∀ files, (f files).Of K files) :
    Works K L (note f) := by
  refine moves_update fun w =>
    ⟨fun _ _ => rfl, [f w.fs.file], rfl, fun n hn => ?_, fun _ _ _ => rfl⟩
  rw [List.mem_singleton.1 hn]
  exact h _

/-- What comes after the note that an extraction begins. -/
theorem works_extracting {e : ZipEntry} (h : Works K ∅ p) :
    Works K L (do note fun files => .extracting files e; p) := by
  intro m
  have hnote : Works K ∅ (note fun files => .extracting files e) := works_note fun _ _ _ => rfl
  obtain ⟨hfiles, more, hnotes, hof, -⟩ := works_bind hnote (fun _ => h) m
  have hfirst := h ⟨(note (fun files => .extracting files e) m).2.world, m.decisions, m.now⟩
  obtain ⟨-, later, hlater, -⟩ := hfirst
  have hmore : more = .extracting m.world.fs.file e :: later := by
    refine List.append_cancel_left (hnotes.symm.trans ?_)
    exact hlater.trans (List.append_assoc ..)
  refine ⟨hfiles, more, hnotes, hof, fun hnone => ?_⟩
  exact absurd (hmore ▸ List.mem_cons_self) (hnone m.world.fs.file e)

/-- The rule for the loop of `zip_visit`. -/
theorem works_visitRecords {visitor : ZipVisitor α} (h : ∀ fp e user, Works K L (visitor fp e user))
    (n : Nat) (fp : InFile) (user : α) : Works K L (visitRecords visitor n fp user) := by
  induction n generalizing fp user with
  | zero => exact works_pure _
  | succ n ih =>
      refine works_bind (works_of_stays stays_readRecord) fun r => ?_
      cases r with
      | none => exact works_pure _
      | some r =>
          refine works_bind (works_of_stays stays_ftell) fun next =>
            works_bind (h _ _ _) fun r => ?_
          refine moves_ite (fun _ => works_pure _) fun _ =>
            works_bind (works_of_stays stays_fseek) fun r => ?_
          cases r with
          | none => exact works_pure _
          | some fp => exact ih _ _

/-- The entries of an archive, one after the other. -/
theorem works_zipVisit {visitor : ZipVisitor α} (h : ∀ fp e user, Works K L (visitor fp e user))
    (z : ZipArchive) (user : α) : Works K L (zipVisit z visitor user) := by
  refine works_bind (works_of_stays stays_fseek) fun r => ?_
  cases r with
  | none => exact works_pure _
  | some fp => exact works_visitRecords h _ _ _

/-! ## The parts of the installer -/

/-- What the names of the files that entries are extracted to begin with. -/
def payloadNames : List Bytes := [bytes "assets", manifestName, libMain, libUnity, libIl2cpp]

/-- The files that entries are extracted to. -/
def Payload : Set Path := fun p =>
  ∃ rest, p = resolve dataRoot ++ rest ∧ rest.head? ∈ payloadNames.map some

/-- `K` has all files of the runtime directory, perhaps but for the install marker, and `L` has
only files that entries are extracted to. -/
structure Roomy (K L : Set Path) : Prop where
  mem : ∀ rel, resolve (inDataRoot rel) ≠ resolve installMarker → resolve (inDataRoot rel) ∈ K
  payload : L ⊆ Payload

/-- The name is neither that of the marker nor of a file that an entry is extracted to. -/
def Spare (rel : Bytes) : Prop :=
  resolve rel ≠ [bytes ".installed-1.2.8.1"] ∧ (resolve rel).head? ∉ payloadNames.map some

instance (rel : Bytes) : Decidable (Spare rel) := inferInstanceAs (Decidable (_ ∧ _))

/-- A file that is not the marker, in the runtime directory. -/
theorem resolve_ne_marker {rel : Bytes} (h : resolve rel ≠ [bytes ".installed-1.2.8.1"]) :
    resolve (inDataRoot rel) ≠ resolve installMarker := by
  have hmarker : resolve installMarker = resolve dataRoot ++ [bytes ".installed-1.2.8.1"] := by
    decide +kernel
  rw [resolve_inDataRoot, hmarker]
  exact fun heq => h (List.append_cancel_left heq)

section Parts

variable {Z : Inflater} {rounds : Nat} {data : CreditsData} {fp : InFile} {e : ZipEntry}
  {target : Bytes}

/-- An entry is unpacked, and noted. -/
theorem works_extractEntry (h : resolve target ∈ K) (htmp : resolve (tmpOf target) ∈ K) :
    Works K L (extractEntry Z rounds fp e target) := by
  refine works_extracting ?_
  refine works_bind (works_of_stays (stays_fillEntry ⟨htmp, id⟩)) fun r =>
    moves_ite (fun _ => works_pure _)
    fun _ => ?_
  refine works_bind (works_of_stays (stays_replaceFile ⟨h, id⟩ ⟨htmp, id⟩)) fun r => moves_ite
    (fun _ => works_pure _) fun _ => ?_
  exact works_bind (works_note fun _ _ _ => rfl) fun _ => works_pure _

/-- An entry is selected for a file of the runtime directory. -/
theorem target_cases (htarget : (installEntryTarget e).target = some target) :
    ∃ rel, target = inDataRoot rel ∧ Selects e.name rel := by
  cases hselection : installEntryTarget e with
  | select target' required =>
      rw [hselection] at htarget
      rw [← Option.some.inj htarget]
      exact selected_cases hselection
  | error => rw [hselection] at htarget; cases htarget
  | skip => rw [hselection] at htarget; cases htarget

/-- What an entry is extracted to is not the marker. -/
theorem Selects.resolve_ne_marker {name rel : Bytes} (h : Selects name rel) :
    resolve rel ≠ [bytes ".installed-1.2.8.1"] ∧ resolve (tmpOf rel) ≠
      [bytes ".installed-1.2.8.1"] := by
  have hassets : ∀ rest, resolve (bytes "assets/" ++ rest) ≠ [bytes ".installed-1.2.8.1"] := by
    intro rest heq
    have hsplit : bytes "assets/" ++ rest = bytes "assets" ++ 47 :: rest := by
      rw [show bytes "assets/" = bytes "assets" ++ [47] by decide +kernel, List.append_assoc]
      rfl
    rw [hsplit, resolve_append] at heq
    rw [show resolve (bytes "assets") = [bytes "assets"] by decide +kernel] at heq
    have hhead : bytes "assets" = bytes ".installed-1.2.8.1" := (List.cons.inj heq).1
    revert hhead
    decide +kernel
  cases h with
  | manifest _ => exact ⟨by decide +kernel, by decide +kernel⟩
  | asset hprefix _ _ =>
      obtain ⟨rest, rfl⟩ := hprefix
      refine ⟨hassets rest, ?_⟩
      unfold tmpOf
      rw [List.append_assoc]
      exact hassets _
  | library lib _ hmem =>
      simp only [selectedLibraries, List.mem_cons, List.not_mem_nil, or_false] at hmem
      rcases hmem with rfl | rfl | rfl
      · exact ⟨by decide +kernel, by decide +kernel⟩
      · exact ⟨by decide +kernel, by decide +kernel⟩
      · exact ⟨by decide +kernel, by decide +kernel⟩

/-- A target and its `.tmp` are among the paths. -/
theorem Roomy.mem_target (h : Roomy K L) (htarget : (installEntryTarget e).target = some target) :
    resolve target ∈ K ∧ resolve (tmpOf target) ∈ K := by
  obtain ⟨rel, rfl, hselects⟩ := target_cases htarget
  obtain ⟨hne, hne'⟩ := hselects.resolve_ne_marker
  rw [tmpOf_inDataRoot]
  exact ⟨h.mem _ (resolve_ne_marker hne), h.mem _ (resolve_ne_marker hne')⟩

/-- One entry of the game. -/
theorem works_installVisitor (hK : Roomy K L) {state : InstallState} :
    Works K L (installVisitor Z rounds fp e state) := by
  unfold installVisitor
  cases hselection : installEntryTarget e with
  | error m => exact works_bind (works_of_stays stays_fails) fun _ => works_pure _
  | skip => exact works_pure _
  | select target required =>
      obtain ⟨hmem, htmp⟩ := hK.mem_target (by rw [hselection]; rfl)
      exact works_bind (works_extractEntry hmem htmp) fun r =>
        moves_ite (fun _ => works_pure _) fun _ =>
        works_pure _

/-- The manifest is parsed, and unpacked before when it is not there. -/
theorem works_loadManifestMetadata (hK : Roomy K L) :
    Works K L (loadManifestMetadata Z rounds) := by
  have hmem : resolve (inDataRoot manifestName) ∈ K :=
    hK.mem _ (resolve_ne_marker (by decide +kernel))
  have htmp : resolve (tmpOf (inDataRoot manifestName)) ∈ K := by
    rw [tmpOf_inDataRoot]
    exact hK.mem _ (resolve_ne_marker (by decide +kernel))
  have hextract : Works K L (extractManifest Z rounds) := by
    refine works_bind (works_of_stays stays_zipOpen) fun r => ?_
    cases r with
    | none => exact works_pure _
    | some z =>
        refine works_bind (works_zipVisit (fun fp e found => ?_) z false) fun _ =>
          works_of_stays stays_fcloseRead
        refine moves_ite (fun _ => works_pure _) fun _ => ?_
        exact works_bind (works_extractEntry hmem htmp) fun _ => works_pure _
  refine works_bind (works_of_stays stays_fileExistsNonempty) fun there => ?_
  refine moves_ite (fun _ => ?_) fun _ => ?_
  · refine works_bind (works_of_stays stays_fileExistsNonempty) fun _ =>
      moves_ite (fun _ => ?_) fun _ => ?_
    · exact works_bind hextract fun _ => works_of_stays stays_parseManifestFile
    · exact works_of_stays stays_parseManifestFile
  · exact works_of_stays stays_parseManifestFile

/-- A name outside the payload directories is no payload. -/
theorem not_mem_payload {rel : Bytes} (h : (resolve rel).head? ∉ payloadNames.map some) :
    resolve (inDataRoot rel) ∉ Payload := by
  rintro ⟨rest, heq, hhead⟩
  rw [resolve_inDataRoot] at heq
  obtain rfl := List.append_cancel_left heq
  exact h hhead

theorem Roomy.mem_spare (h : Roomy K L) {rel : Bytes} (hrel : Spare rel) :
    resolve (inDataRoot rel) ∈ K \ L :=
  ⟨h.mem _ (resolve_ne_marker hrel.1), fun hmem => not_mem_payload hrel.2 (h.payload hmem)⟩

/-- A file that is none of these, and its sibling. -/
theorem Roomy.mem_spares (h : Roomy K L) {rel : Bytes} (hrel : Spare rel ∧ Spare (tmpOf rel)) :
    resolve (inDataRoot rel) ∈ K \ L ∧ resolve (tmpOf (inDataRoot rel)) ∈ K \ L := by
  rw [tmpOf_inDataRoot]
  exact ⟨h.mem_spare hrel.1, h.mem_spare hrel.2⟩

theorem Roomy.stays_prepareIl2cppCache (h : Roomy K L) :
    Stays (K \ L) SameNotes (prepareIl2cppCache rounds) := by
  have hguid := @Roomy.mem_spares _ _ h (bytes "files/il2cpp/unity.ver") (by decide +kernel)
  refine Installer.stays_prepareIl2cppCache hguid.1 hguid.2 ?_
  exact List.forall_mem_cons.2 ⟨h.mem_spares (by decide +kernel), List.forall_mem_cons.2
    ⟨h.mem_spares (by decide +kernel), List.forall_mem_cons.2 ⟨h.mem_spares (by decide +kernel),
      List.forall_mem_cons.2 ⟨h.mem_spares (by decide +kernel), fun _ hfile => absurd hfile
        List.not_mem_nil⟩⟩⟩⟩

theorem Roomy.stays_seedEnglishLocalizationCache (h : Roomy K L) :
    Stays (K \ L) SameNotes (seedEnglishLocalizationCache rounds) := by
  have henglish := @Roomy.mem_spares _ _ h (bytes "files/downloaded/live_English.bytes")
    (by decide +kernel)
  exact Installer.stays_seedEnglishLocalizationCache henglish.1 henglish.2

/-- The caches. -/
theorem works_prepareCaches (hK : Roomy K L) {checkManifest : Install Bool}
    (h : Works K L checkManifest) :
    Works K L (prepareCaches Z rounds checkManifest) := by
  refine works_bind (works_loadManifestMetadata hK) fun _ => ?_
  refine works_bind (works_of_stays stays_validateManifestMetadata) fun _ => moves_ite
    (fun _ => works_pure _) fun _ => ?_
  refine works_bind h fun _ => moves_ite (fun _ => works_pure _) fun _ => ?_
  refine works_bind (works_of_stays hK.stays_prepareIl2cppCache) fun _ =>
    moves_ite (fun _ => works_pure _)
    fun _ => ?_
  exact works_of_stays hK.stays_seedEnglishLocalizationCache

theorem works_creditsPatchApply (hK : Roomy K ∅) : Works K ∅ (creditsPatchApply data) := by
  refine works_of_stays (stays_creditsPatchApply ⟨?_, id⟩ ⟨?_, id⟩ ⟨?_, id⟩)
  · exact hK.mem dataName (resolve_ne_marker (by decide +kernel))
  · exact hK.mem (dataName ++ bytes ".porttmp") (resolve_ne_marker (by decide +kernel))
  · exact hK.mem (dataName ++ bytes ".portbak") (resolve_ne_marker (by decide +kernel))

/-- The checks before the installation. -/
theorem works_installerPreflight (hK : Roomy K L) {z : ZipArchive} :
    Works K L (installerPreflight z) := by
  have hplan : Works K L (buildInstallSpacePlan z) := by
    refine works_bind (works_zipVisit (fun _ _ _ => works_of_stays stays_installSpaceVisitor) z _)
      fun r => ?_
    refine moves_ite (fun _ => works_bind (works_of_stays stays_failsUnlessSet) fun _ =>
      works_pure _)
      fun _ => moves_ite (fun _ => ?_) fun _ => works_pure _
    exact works_bind (works_of_stays stays_fails) fun _ => works_pure _
  have hprobe : probePath ∈ K \ L := hK.mem_spare (by decide +kernel)
  refine works_bind (works_of_stays (stays_verifyInstallLocationWritable hprobe)) fun _ => moves_ite
    (fun _ => works_pure _) fun _ => works_bind hplan fun r => ?_
  cases r with
  | none => exact works_pure _
  | some plan =>
      refine works_bind (works_of_stays stays_querySdSpace) fun r => ?_
      cases r with
      | none => exact works_pure _
      | some free => exact moves_ite (fun _ => works_of_stays stays_fails) fun _ => works_pure _

/-- The whole of the game. -/
theorem works_extractGame (hK : Roomy K L) : Works K L (extractGame Z rounds) := by
  refine works_bind (works_of_stays stays_zipOpen) fun r => ?_
  cases r with
  | none => exact works_bind (works_of_stays stays_fails) fun _ => works_pure _
  | some z =>
      refine works_bind (works_installerPreflight hK) fun _ => moves_ite (fun _ => ?_) fun _ => ?_
      · exact works_bind (works_of_stays stays_fcloseRead) fun _ => works_pure _
      refine works_bind (works_zipVisit (fun _ _ _ => works_installVisitor hK) z _) fun r => ?_
      refine works_bind (works_of_stays stays_fcloseRead) fun _ => ?_
      refine works_bind (moves_ite (fun _ => works_of_stays (stays_allPresent _)) fun _ =>
        works_pure _)
        fun _ => moves_ite (fun _ => ?_) fun _ => works_pure _
      exact works_bind (works_of_stays stays_failsUnlessSet) fun _ => works_pure _

end Parts

end Rules

end Asnx.Installer
