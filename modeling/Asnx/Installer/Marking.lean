import Asnx.Installer.Patching
import Asnx.Installer.Removing

/-!
# What the install marker stands for

The marker is written when an archive has been extracted, and the fast path only looks at it and at
seven files. As long as nothing is extracted while there is a marker, it stands for the archive
that was being extracted last (`marker_sound`): the patch of the credits can lose the bundle, which
is one of the seven. But the marker of an earlier installation is not withdrawn, and an extraction
that is cut off under it leaves files missing that nobody looks for (`marker_unsound_interrupted`).
-/

namespace Asnx.Installer

open Interrupted Files Tracing Credits Zlib

/-! ## What the marker should stand for -/

section Statements

variable (data : CreditsData) (decode : Bytes → Option Bytes)

/-- The install marker is there. -/
def Marked (files : Contents) : Prop := ∃ content, files (resolve installMarker) =
    some content ∧ content ≠ []

/-- The archive was being extracted last. -/
def LastFrom (notes : List Note) (apk : Bytes) : Prop :=
  ∃ earlier files e later, notes = earlier ++ .extracting files e :: later ∧
    (∀ f e', .extracting f e' ∉ later) ∧ files (resolve installApk) = some apk

/-- The file at the path holds the content of its entry; the bundle may have been patched. -/
def InFull (content : Bytes) (p : Path) (file : Option Bytes) : Prop :=
  file = some content ∨ (p = resolve bundlePath ∧ AcceptedBundle content ∧
    file = some (spliced data content))

/-- All selected entries of the archive are there in full, but for those whose files are in
`missing`. -/
def PresentBut (missing : Set Path) (apk : Bytes) (es : List ZipEntry) (files : Contents) : Prop :=
  ∀ e ∈ es, ∀ target, (installEntryTarget e).target = some target →
    ∃ content, entryBytes decode apk e = some content ∧
      (InFull data content (resolve target) (files (resolve target)) ∨
        (resolve target ∈ missing ∧ files (resolve target) = none))

/-- All selected entries of the archive are there in full. -/
def Present (apk : Bytes) (es : List ZipEntry) (files : Contents) : Prop :=
  ∀ e ∈ es, ∀ target, (installEntryTarget e).target = some target →
    ∃ content, entryBytes decode apk e = some content ∧
      InFull data content (resolve target) (files (resolve target))

/-- The archive has a bundle that the patch of the credits refuses. -/
def BundleRefused (apk : Bytes) (es : List ZipEntry) : Prop :=
  ∃ e ∈ es, ∃ target content, (installEntryTarget e).target = some target ∧
    resolve target = resolve bundlePath ∧
    entryBytes decode apk e = some content ∧ ¬ AcceptedBundle content

/-- The archive keeps what is extracted from it, and unless its bundle is refused, no entry is
extracted to a sibling of the bundle, which the patch of the credits takes. -/
def Tidy (apk : Bytes) (es : List ZipEntry) : Prop :=
  Kept decode apk es ∧ (BundleRefused decode apk es ∨
    ∀ e ∈ es, ∀ target, (installEntryTarget e).target = some target →
      resolve target ≠ resolve bundleTmp ∧ resolve target ≠ resolve bundleBak)

/-- Each time a run took the fast path, all selected entries of the archive that was being
extracted last were there in full. -/
def MarkerSound (notes : List Note) : Prop :=
  ∀ before files after, notes = before ++ .fastPath files :: after →
    ∃ apk es, LastFrom before apk ∧ apkEntries apk = some es ∧ Present data decode apk es files

/-- No entry is extracted while there is an install marker. -/
def Careful (notes : List Note) : Prop := ∀ files e, .extracting files e ∈ notes → ¬ Marked files

/-- All archives that entries are extracted from are tidy. -/
def TidyArchives (notes : List Note) : Prop :=
  ∀ files e apk es, .extracting files e ∈ notes → files (resolve installApk) = some apk →
    apkEntries apk = some es → Tidy decode apk es

/-- What the marker stands for: the archive that was being extracted last is there, if it is a tidy
one, but for what is in `missing`. -/
def Settled (missing : Set Path) (files : Contents) (notes : List Note) : Prop :=
  ∃ apk es, LastFrom notes apk ∧ apkEntries apk = some es ∧
    (Tidy decode apk es → PresentBut data decode missing apk es files)

/-- Each time a run took the fast path, the last archive was there. -/
def FastPathSound (notes : List Note) : Prop :=
  ∀ before files after, notes = before ++ .fastPath files :: after →
    Settled data decode ∅ files before

/-- What holds after every event of a careful history: the fast path was sound, and the marker
stands for an archive. -/
def Sound : Assertion := fun files notes =>
  Careful notes → FastPathSound data decode notes ∧
    (Marked files → Settled data decode {resolve bundlePath} files notes)

end Statements

section Soundness

variable {data : CreditsData} {decode : Bytes → Option Bytes} {K L : Set Path} {v v' : View Memory}
  {notes more : List Note} {files : Contents} {apk : Bytes} {es : List ZipEntry}
    {missing : Set Path}

theorem Careful.of_append (h : Careful (notes ++ more)) : Careful notes :=
  fun f e hmem => h f e (List.mem_append_left _ hmem)

theorem LastFrom.append (h : LastFrom notes apk) (hmore : ∀ f e, .extracting f e ∉ more) :
    LastFrom (notes ++ more) apk := by
  obtain ⟨earlier, f, e, later, rfl, hlater, hapk⟩ := h
  refine ⟨earlier, f, e, later ++
    more, by rw [List.append_assoc, List.cons_append], fun f' e' hmem => ?_, hapk⟩
  rcases List.mem_append.1 hmem with hmem | hmem
  · exact hlater f' e' hmem
  · exact hmore f' e' hmem

/-- Extractions from one archive, the last of which makes it the last archive. -/
theorem lastFrom_append (hsome : ∃ f e, .extracting f e ∈ more)
    (hapk : ∀ f e, .extracting f e ∈ more → f (resolve installApk) = some apk) :
    LastFrom (notes ++ more) apk := by
  obtain ⟨f, e, hmem⟩ := hsome
  obtain ⟨before, last, after, rfl, ⟨f', e', rfl⟩, hafter⟩ :=
    exists_last (p := fun n => ∃ f e, n = .extracting f e) ⟨_, hmem, f, e, rfl⟩
  refine ⟨notes ++ before, f', e',
    after, by rw [List.append_assoc], fun f e hmem => hafter _ hmem ⟨f, e, rfl⟩,
    hapk f' e' (by simp)⟩

theorem FastPathSound.snoc {n : Note} (h : FastPathSound data decode notes)
    (hn : ∀ files, n = .fastPath files → Settled data decode ∅ files notes) :
    FastPathSound data decode (notes ++ [n]) := by
  intro before files after hsplit
  rcases split_snoc hsplit with ⟨rfl, hlast⟩ | ⟨between, hbetween⟩
  · exact hn files hlast.symm
  · exact h before files between hbetween

theorem FastPathSound.append (h : FastPathSound data decode notes)
    (hmore : ∀ n ∈ more, ∀ files, n ≠ .fastPath files) :
    FastPathSound data decode (notes ++ more) := by
  intro before files after hsplit
  obtain ⟨between, hbetween⟩ := split_append hsplit fun hmem => hmore _ hmem files rfl
  exact h before files between hbetween

/-- What a fast path is sound for, when the archives are tidy. -/
theorem FastPathSound.markerSound (h : FastPathSound data decode notes)
    (htidy : TidyArchives decode notes) :
    MarkerSound data decode notes := by
  intro before files after hsplit
  obtain ⟨apk, es, hlast, hes, hpresent⟩ := h before files after hsplit
  refine ⟨apk, es, hlast, hes, fun e he target htarget => ?_⟩
  obtain ⟨earlier, files', e', later, rfl, -, hapk⟩ := hlast
  have hmem : Note.extracting files' e' ∈ notes := by
    rw [hsplit]
    simp
  obtain ⟨content, hbytes, hstate⟩ :=
    hpresent (htidy files' e' apk es hmem hapk hes) e he target htarget
  exact ⟨content, hbytes, hstate.resolve_right fun hnone => hnone.1⟩

/-! ## What keeps it so -/

/-- All files but `game.apk` and the install marker. -/
def besidesMarker : Set Path := fun p => p ≠ resolve installApk ∧ p ≠ resolve installMarker

theorem roomy_besidesMarker : Roomy besidesMarker Payload :=
  ⟨fun rel hrel => ⟨(installApk_ne rel).symm, hrel⟩, Set.Subset.refl _⟩

/-- The name of a file that an entry is extracted to. -/
theorem Selects.head_mem {name rel : Bytes} (h : Selects name rel) :
    (resolve rel).head? ∈ payloadNames.map some := by
  cases h with
  | manifest _ => decide +kernel
  | asset hprefix _ _ =>
      obtain ⟨rest, rfl⟩ := hprefix
      have hsplit : bytes "assets/" ++ rest = bytes "assets" ++ 47 :: rest := by
        rw [show bytes "assets/" = bytes "assets" ++ [47] by decide +kernel, List.append_assoc]
        rfl
      rw [hsplit, resolve_append, show resolve (bytes "assets") =
        [bytes "assets"] by decide +kernel]
      exact List.mem_cons_self
  | library lib _ hmem =>
      simp only [selectedLibraries, List.mem_cons, List.not_mem_nil, or_false] at hmem
      rcases hmem with rfl | rfl | rfl
      · decide +kernel
      · decide +kernel
      · decide +kernel

theorem target_mem_payload {e : ZipEntry} {target : Bytes}
    (h : (installEntryTarget e).target = some target) :
    resolve target ∈ Payload := by
  obtain ⟨rel, rfl, hselects⟩ := target_cases h
  exact ⟨resolve rel, resolve_inDataRoot rel, hselects.head_mem⟩

theorem PresentBut.of_eq {files' : Contents} (h : PresentBut data decode missing apk es files)
    (heq : ∀ q ∈ Payload, files' q = files q) : PresentBut data decode missing apk es files' := by
  intro e he target htarget
  rw [heq _ (target_mem_payload htarget)]
  exact h e he target htarget

theorem Note.Of.ne_fastPath {n : Note} (h : n.Of K files) (f : Contents) : n ≠ .fastPath f := by
  rintro rfl
  exact h

/-- The archive that was being extracted last stays the last one while `game.apk` is extracted. -/
theorem Worked.lastFrom (h : Worked K L v v') (hK : resolve installApk ∉ K)
    (hapk : v.files (resolve installApk) = some apk) (hlast : LastFrom v.rest.notes apk) :
    LastFrom v'.rest.notes apk := by
  obtain ⟨-, more, hnotes, hof, -⟩ := h
  rw [hnotes]
  by_cases hsome : ∃ f e, .extracting f e ∈ more
  · exact lastFrom_append hsome fun f e hmem => (hof _ hmem _ hK).trans hapk
  · exact hlast.append fun f e hmem => hsome ⟨f, e, hmem⟩

/-- Extractions, and whatever changes neither what they are for nor the marker. -/
theorem Sound.worked (h : At (Sound data decode) v) (hw : Worked besidesMarker Payload v v') :
    At (Sound data decode) v' := by
  obtain ⟨hfiles, more, hnotes, hof, hquiet⟩ := hw
  unfold At
  rw [hnotes]
  intro hcareful
  obtain ⟨hfast, hsettled⟩ := h hcareful.of_append
  have hmarker : ∀ f : Contents, f (resolve installMarker) =
    v.files (resolve installMarker) → Marked f →
      Marked v.files := by
    rintro f hf ⟨content, hcontent, hne⟩
    exact ⟨content, hf.symm.trans hcontent, hne⟩
  have hfixed : resolve installMarker ∉ besidesMarker := fun hmem => hmem.2 rfl
  refine ⟨hfast.append fun n hn => (hof n hn).ne_fastPath, fun hmarked => ?_⟩
  have hmarked := hmarker _ (hfiles _ hfixed) hmarked
  -- the marker was there all the time, so nothing has been extracted
  have hnone : ∀ f e, .extracting f e ∉ more := by
    intro f e hmem
    refine hcareful f e (List.mem_append_right _ hmem) ?_
    obtain ⟨content, hcontent, hne⟩ := hmarked
    exact ⟨content, (hof _ hmem _ hfixed).trans hcontent, hne⟩
  obtain ⟨apk, es, hlast, hes, hpresent⟩ := hsettled hmarked
  exact ⟨apk, es, hlast.append hnone, hes, fun htidy => (hpresent htidy).of_eq (hquiet hnone)⟩

theorem Works.sound {α : Type} {p : Install α} (h : Works besidesMarker Payload p) :
    Triple (At (Sound data decode)) p (fun _ => At (Sound data decode)) (At (Sound data decode)) :=
  Moves.keeps h fun _ _ hworked hv => Sound.worked hv hworked

/-- A bundle that is refused stays so. -/
theorem PresentBut.refused (h : PresentBut data decode missing apk es files)
    (hrefused : BundleRefused decode apk es) {old : Bytes}
    (hold : files (resolve bundlePath) = some old) :
    ¬ AcceptedBundle old := by
  obtain ⟨e, he, target, content, htarget, htaken, hbytes, hnot⟩ := hrefused
  obtain ⟨content', hbytes', hstate⟩ := h e he target htarget
  obtain rfl : content = content' := Option.some.inj (hbytes.symm.trans hbytes')
  rw [htaken, hold] at hstate
  rcases hstate with (hcontent | ⟨-, haccepted, -⟩) | ⟨-, hnone⟩
  · rwa [Option.some.inj hcontent]
  · exact absurd haccepted hnot
  · cases hnone

/-- The patch takes the bundle only, and what it makes of the bundle is in full or missing. -/
theorem PresentBut.patched (h : PresentBut data decode missing apk es v.files)
    (hbundle : resolve bundlePath ∈ missing) (htidy : Tidy decode apk es)
    (hpatching : Patching data v v') : PresentBut data decode missing apk es v'.files := by
  intro e he target htarget
  obtain ⟨content, hbytes, hstate⟩ := h e he target htarget
  refine ⟨content, hbytes, ?_⟩
  by_cases htaken : resolve target = resolve bundlePath
  · rw [htaken] at hstate ⊢
    rcases hpatching.bundle with hsame | ⟨old, hold, haccepted, hnew⟩
    · rw [hsame]
      exact hstate
    rw [hold] at hstate
    rcases hstate with (hcontent | ⟨-, haccepted', hspliced⟩) | ⟨-, hnone⟩
    · obtain rfl := Option.some.inj hcontent
      exact hnew.symm.imp (fun hspliced => .inr ⟨rfl, haccepted, hspliced⟩) fun hnone =>
        ⟨hbundle, hnone⟩
    · -- a bundle that has been patched is not patched again
      have hlength := haccepted.1
      rw [Option.some.inj hspliced, length_spliced haccepted'.1] at hlength
      exact absurd hlength (by decide)
    · cases hnone
  -- the patch changes the siblings of the bundle only if it accepts the bundle
  · rcases htidy.2 with hrefused | hsiblings
    · rw [hpatching.refused fun old hold => h.refused hrefused hold]
      exact hstate
    · obtain ⟨htmp, hbak⟩ := hsiblings e he target htarget
      rw [hpatching.within.files _ fun hmem => hmem.elim htaken fun hmem => hmem.elim htmp hbak]
      exact hstate

theorem Sound.patching (h : At (Sound data decode) v) (hpatching : Patching data v v') :
    At (Sound data decode) v' := by
  unfold At
  rw [show v'.rest.notes = v.rest.notes from hpatching.within.rest]
  intro hcareful
  obtain ⟨hfast, hsettled⟩ := h hcareful
  refine ⟨hfast, fun hmarked => ?_⟩
  have hfixed : resolve installMarker ∉ bundleFiles := by
    show ¬ (_ ∨ _ ∨ _)
    decide +kernel
  obtain ⟨content, hcontent, hne⟩ := hmarked
  rw [hpatching.within.files _ hfixed] at hcontent
  obtain ⟨apk, es, hlast, hes, hpresent⟩ := hsettled ⟨content, hcontent, hne⟩
  exact ⟨apk, es, hlast, hes, fun htidy => (hpresent htidy).patched rfl htidy hpatching⟩

end Soundness

/-! ## Extracting the archive -/

section Unpacking

variable {Z : Inflater} {data : CreditsData} {decode : Bytes → Option Bytes} {rounds : Nat}
  {apk : Bytes} {es : List ZipEntry} {e : ZipEntry} {fp : InFile} {base : List Note}
  {missing : Set Path} {v v' : View Memory}

/-- `game.apk` has been extracted; what is in `missing` may be missing. -/
def Unpacked (data : CreditsData) (decode : Bytes → Option Bytes) (missing : Set Path) (apk : Bytes)
    (es : List ZipEntry) : Assertion := fun files notes =>
  files (resolve installApk) = some apk ∧ (Careful notes → FastPathSound data decode notes ∧
    LastFrom notes apk ∧ (Tidy decode apk es → PresentBut data decode missing apk es files))

/-- The files in the end are what the entries leave. -/
theorem triple_extractGame_through (hdecodes : Z.Decodes decode) :
    Triple (fun _ => True) (extractGame Z rounds)
      (fun r v => r.isSome → ∃ apk es, ∃ st : InstallState, apkEntries apk = some es ∧
        st.seen ≠ [] ∧
        At (fun files _ => files (resolve installApk) = some apk ∧
          ∃ files₀, files = extractAll decode apk files₀ es) v) fun _ => True := by
  refine triple_extractGame_of (A := fun apk files _ => files (resolve installApk) = some apk)
    (B := fun apk es _ files _ => files (resolve installApk) = some apk ∧
      ∃ files₀, files = extractAll decode apk files₀ es) (fun v apk _ hapk => hapk)
        (fun apk z => ?_)
    fun apk z hpath hdirectory => ?_
  · exact Triple.mono (Moves.keeps (works_installerPreflight roomy_besidesApk)
      fun w w' hworked hw =>
      hworked.apk_eq.trans hw) (fun _ hv => hv) (fun _ _ hv => hv) fun _ _ => trivial
  · refine Triple.pre (P := fun v => ∃ files₀ : Contents, files₀ (resolve installApk) = some apk ∧
      At (fun files _ => files = files₀) v) (.exists fun files₀ => .assume fun hapk =>
        ?_) fun v hv =>
        ⟨v.files, hv, rfl⟩
    refine (triple_install hdecodes rounds hpath hapk ⟨0, []⟩).mono (fun _ hv => hv)
      (fun r v hv hr => ?_)
      fun _ _ => trivial
    obtain ⟨es, hes, hfiles, -⟩ := hv hr
    refine ⟨es, ?_, ?_, files₀, hfiles⟩
    · unfold apkEntries
      rw [hdirectory]
      exact hes
    · rw [hfiles, extractAll_other (fun _ _ => not_takes_installApk), hapk]

/-- An installation that has extracted the archive keeps what a marker would stand for. -/
theorem triple_extractGame_unpacked (hdecodes : Z.Decodes decode) :
    Triple (At (Sound data decode)) (extractGame Z rounds)
      (fun r v => At (Sound data decode) v ∧ (r.isSome → ∃ apk es, apkEntries apk = some es ∧
        At (Unpacked data decode {resolve bundlePath} apk es) v)) (At (Sound data decode)) := by
  refine Triple.pre (P := fun v => ∃ v₀, At (Sound data decode) v₀ ∧ v = v₀)
    (.exists fun v₀ => .assume fun hsound => ?_) fun v hv => ⟨v, hv, rfl⟩
  have hnoted := @triple_extractGame_notes Z decode rounds v₀.rest.notes hdecodes
  refine ((hnoted.and (triple_extractGame_through hdecodes)).and
    (triple_of_moves (works_extractGame roomy_besidesMarker) v₀)).mono (fun v hv => ?_)
    (fun r v hv => ?_)
    fun v hv => Sound.worked hsound hv.2
  · rw [hv]
    exact ⟨⟨rfl, trivial⟩, rfl⟩
  · obtain ⟨⟨hextracted, hthrough⟩, hworked⟩ := hv
    have hsound' := Sound.worked hsound hworked
    refine ⟨hsound', fun hr => ?_⟩
    obtain ⟨apk, es, st, hes, hseen, hapk, during, hnotes, -, hbegun⟩ := hextracted hr
    obtain ⟨apk', es', -, hes', -, hapk', files₀, hfiles⟩ := hthrough hr
    obtain rfl : apk' = apk := Option.some.inj (hapk'.symm.trans hapk)
    obtain rfl : es' = es := Option.some.inj (hes'.symm.trans hes)
    obtain ⟨hothers, more, hmore, hof, -⟩ := hworked
    have hfixed : resolve installApk ∉ besidesMarker := fun hmem => hmem.1 rfl
    obtain rfl : during = more := List.append_cancel_left (hnotes.symm.trans hmore)
    have hlast : LastFrom v.rest.notes apk' := by
      rw [hmore]
      exact lastFrom_append (hbegun hseen) fun f e hmem =>
        (hof _ hmem _ hfixed).trans ((hothers _ hfixed).symm.trans hapk)
    refine ⟨apk', es', hes, hapk, fun hcareful =>
      ⟨(hsound' hcareful).1, hlast, fun htidy e he target htarget => ?_⟩⟩
    rw [hfiles]
    obtain ⟨content, hbytes, hcontent⟩ :=
      (installed_extractAll files₀).2 htidy.1 e he target htarget
    exact ⟨content, hbytes, .inl (.inl hcontent)⟩

end Unpacking

/-! ## The manifest -/

section Manifests

variable {Z : Inflater} {data : CreditsData} {decode : Bytes → Option Bytes} {rounds : Nat}
  {apk : Bytes} {es : List ZipEntry} {e : ZipEntry} {fp : InFile} {missing missing' : Set Path}
  {files : Contents}

theorem PresentBut.mono (h : PresentBut data decode missing apk es files)
    (hsubset : missing ⊆ missing') :
    PresentBut data decode missing' apk es files := by
  intro e he target htarget
  obtain ⟨content, hbytes, hstate⟩ := h e he target htarget
  exact ⟨content, hbytes, hstate.imp_right fun hnone => ⟨hsubset hnone.1, hnone.2⟩⟩

/-- Entries that are extracted to the same file have the same bytes. -/
theorem Kept.agree (h : Kept decode apk es) {e' : ZipEntry} {target target' : Bytes} (he : e ∈ es)
    (he' : e' ∈ es)
    (htarget : (installEntryTarget e).target = some target)
    (htarget' : (installEntryTarget e').target = some target')
    (hsame : resolve target = resolve target') :
    entryBytes decode apk e = entryBytes decode apk e' := by
  obtain ⟨content, hbytes, hends⟩ := h e he target htarget
  obtain ⟨content', hbytes', hends'⟩ := h e' he' target' htarget'
  have hcontent := (extractAll_eq_some_iff ⟨e, he, takes_target htarget⟩ fun _ => none).2 hends
  rw [hsame, (extractAll_eq_some_iff ⟨e', he', takes_target htarget'⟩ fun _ => none).2
    hends'] at hcontent
  rw [hbytes, hbytes', hcontent]

/-- The manifest is there in full, or may be missing, too. -/
def manifestMissing : Set Path := {resolve bundlePath, resolve (inDataRoot manifestName)}

/-- What holds while the manifest is extracted again. -/
def Reextracting (data : CreditsData) (decode : Bytes → Option Bytes) (apk : Bytes)
    (es : List ZipEntry) : Assertion :=
  fun files notes => Sound data decode files notes ∧
    Unpacked data decode manifestMissing apk es files notes

theorem target_of_manifest (h : e.name = manifestName) :
    (installEntryTarget e).target = some (inDataRoot manifestName) := by
  unfold installEntryTarget selectTarget
  rw [if_pos h, if_neg (by decide +kernel)]
  rfl

/-- A manifest that has been extracted again, or is underway. -/
theorem PresentBut.reextract {files' : Contents} {notes' : List Note}
    (h : PresentBut data decode manifestMissing apk es files) (hkept : Kept decode apk es)
    (he : e ∈ es)
    (hname : e.name = manifestName)
    (hothers : ∀ q, q ≠ resolve (tmpOf (inDataRoot manifestName)) →
      q ≠ resolve (inDataRoot manifestName) →
      files' q = files q)
    (hwhole : TargetWhole files (inDataRoot manifestName)
      (Passed (fun content => entryBytes decode apk e = some content) e) files' notes') :
    PresentBut data decode manifestMissing apk es files' := by
  intro e' he' target htarget
  obtain ⟨content, hbytes, hstate⟩ := h e' he' target htarget
  refine ⟨content, hbytes, ?_⟩
  by_cases hmanifest : resolve target = resolve (inDataRoot manifestName)
  · rw [hmanifest] at hstate ⊢
    rcases hwhole with hsame | hnone | ⟨content', hpassed, hcontent'⟩
    · rw [hsame]
      exact hstate
    · exact .inr ⟨.inr rfl, hnone⟩
    · rw [hkept.agree he' he htarget (target_of_manifest hname) hmanifest, hpassed.good] at hbytes
      exact .inl (.inl (hcontent'.trans hbytes))
  · have hsibling : resolve target ≠ resolve (tmpOf (inDataRoot manifestName)) := by
      rw [tmpOf_inDataRoot]
      exact ne_of_mem_of_not_mem (target_mem_payload htarget) (not_mem_payload (by decide +kernel))
    rw [hothers _ hsibling hmanifest]
    exact hstate

/-- `manifest_visitor` leaves the manifest whole or missing. -/
theorem triple_manifestVisitor (hdecodes : Z.Decodes decode)
    (hpath : fp.path = resolve installApk) (he : e ∈ es) (found : Bool) :
    Triple (At (Reextracting data decode apk es)) (manifestVisitor Z rounds fp e found)
      (fun r v => r.2.1.path = resolve installApk ∧ At (Reextracting data decode apk es) v)
      (At (Reextracting data decode apk es)) := by
  refine triple_ite (fun _ => triple_pure fun v hv => ⟨hpath, hv⟩) fun hname => ?_
  have hname : e.name = manifestName := not_not.1 hname
  have hmem := roomy_besidesMarker.mem_target (target_of_manifest hname)
  have hsibling : fp.path ≠ resolve (tmpOf (inDataRoot manifestName)) := by
    rw [hpath, tmpOf_inDataRoot]
    exact installApk_ne _
  refine triple_bind (R := fun r v => r.2.path = resolve installApk ∧
    At (Reextracting data decode apk es) v) ?_
    fun r => triple_pure fun v hv => hv
  refine Triple.pre (P := fun v => ∃ v₀, At (Reextracting data decode apk es) v₀ ∧
    (At (Exactly v₀.files v₀.rest.notes) v ∧ v = v₀)) (.exists fun v₀ => .assume fun hbefore =>
      ?_) fun v hv =>
      ⟨v, hv, ⟨rfl, rfl⟩, rfl⟩
  -- two views of one extraction: where its notes and files may differ, and what the target ends as
  have hafter : ∀ v : View Memory, Worked besidesMarker Payload v₀ v →
      (∀ q, q ≠ resolve (tmpOf (inDataRoot manifestName)) → q ≠ resolve (inDataRoot manifestName) →
        v.files q = v₀.files q) →
      TargetWhole v₀.files (inDataRoot manifestName)
        (Passed (fun content => entryBytes decode apk e = some content) e)
        v.files v.rest.notes → At (Reextracting data decode apk es) v := by
    intro v hworked hothers hwhole
    have hsound := Sound.worked hbefore.1 hworked
    have hfixed : resolve installApk ∉ besidesMarker := fun hmem => hmem.1 rfl
    refine ⟨hsound, (hworked.files _ hfixed).trans hbefore.2.1, fun hcareful => ?_⟩
    have hcareful₀ : Careful v₀.rest.notes := by
      obtain ⟨more, hmore, -⟩ := hworked.notes
      rw [hmore] at hcareful
      exact hcareful.of_append
    obtain ⟨-, hlast, hpresent⟩ := hbefore.2.2 hcareful₀
    have hlast' := hworked.lastFrom hfixed hbefore.2.1 hlast
    exact ⟨(hsound hcareful).1, hlast', fun htidy =>
      (hpresent htidy).reextract htidy.1 he hname hothers hwhole⟩
  have hextract : Triple (At (Exactly v₀.files v₀.rest.notes)) _ _ _ :=
    triple_extractEntry rounds (inDataRoot manifestName)
      (entryYields_of_decodes hdecodes apk e) hsibling
      (hpath ▸ hbefore.2.1)
  have hworks : Works besidesMarker Payload
    (extractEntry Z rounds fp e (inDataRoot manifestName)) :=
    works_extractEntry hmem.1 hmem.2
  refine (hextract.and (triple_of_moves hworks v₀)).mono (fun _ hv => hv) (fun r v hv => ?_)
    fun v hv => hafter v hv.2 hv.1.1.disturbed.1 hv.1.2
  · obtain ⟨⟨hpath', hv⟩, hworked⟩ := hv
    refine ⟨hpath'.trans hpath, ?_⟩
    split at hv
    · obtain ⟨content, hpassed, -, hreplaced⟩ := hv
      have hfiles : v.files = _ := hreplaced
      refine hafter v hworked (fun q hq hq' => ?_) (.inr (.inr ⟨content, hpassed, ?_⟩))
      · rw [hfiles, Function.update_of_ne hq', Function.update_of_ne hq]
      · rw [hfiles, Function.update_self]
    · exact hafter v hworked hv.1.disturbed.1 hv.2

theorem triple_extractManifest (hdecodes : Z.Decodes decode) (hes : apkEntries apk = some es) :
    Triple (At (Reextracting data decode apk es)) (extractManifest Z rounds)
      (fun _ => At (Reextracting data decode apk es)) (At (Reextracting data decode apk es)) := by
  refine triple_bind triple_zipOpen fun r => ?_
  cases r with
  | none => exact triple_pure fun v hv => hv.2
  | some z =>
      refine Triple.pre (P := fun v => (z.fp.path = resolve installApk ∧
        zipDirectory apk = some (z.entries, z.cdOffset)) ∧ At (Reextracting data decode apk es) v)
        (.assume fun hopened => ?_) fun v hv => by
          obtain ⟨hpath, apk', hapk', hdirectory⟩ := hv.1 z rfl
          rw [hv.2.2.1] at hapk'
          exact ⟨⟨hpath, Option.some.inj hapk' ▸ hdirectory⟩, hv.2⟩
      have hreadable : readableEntries apk z.cdOffset z.entries = es := by
        unfold apkEntries at hes
        rw [hopened.2] at hes
        exact readableEntries_of_centralEntries hes
      refine triple_bind (R := fun _ => At (Reextracting data decode apk es)) ?_ fun _ =>
        triple_fcloseRead fun v hv => ⟨hv, hv⟩
      refine (triple_zipVisit (I := fun _ _ => Reextracting data decode apk es)
        (F := Reextracting data decode apk es) (fun _ _ _ _ h => h.2.1) (fun _ _ _ _ h => h)
          (fun _ _ h => h)
        (fun _ found e fp he hfp => ?_) hopened.1).post fun r v hv => ?_
      · rw [hreadable] at he
        refine (triple_manifestVisitor hdecodes hfp (he.subset (by simp)) found).post fun r v hv =>
          ⟨hv.1, ?_⟩
        split
        · exact hv.2
        · exact hv.2
      · split at hv
        · obtain ⟨-, -, hv⟩ := hv
          exact hv
        · exact hv

/-- A manifest that is missing has no package. -/
theorem parse_missing {call : ManifestCall} (h : call.file = none) (s : ManifestState) :
    arrayText (manifestOf (parseAndroidManifest call s).2.1).package = [] := by
  obtain ⟨file, told, rewound, allocated, readWhole⟩ := call
  obtain rfl : file = none := h
  have hfirst : (parseAndroidManifest ⟨none, told, rewound, allocated, readWhole⟩ s).2.1.chars
    .package 0 = 0 := rfl
  unfold arrayText manifestOf
  dsimp only
  rw [show List.range Chars.package.size =
    0 :: List.range' 1 127 by decide +kernel, List.map_cons, hfirst]
  rfl

theorem triple_manifestCall {P : Assertion} {path : Bytes} :
    Triple (At P) (manifestCall path)
      (fun call v => At P v ∧ (v.files (resolve path) = none → call.file = none)) (At P) := by
  have hmissing : Triple (At fun files _ => files (resolve path) = none) (manifestCall path)
      (fun call _ => call.file = none) fun _ => True := by
    refine triple_bind (R := fun r _ => ∃ e, r = .error e)
      (triple_fopenRead (fun v e _ => ⟨⟨e, rfl⟩, trivial⟩)
      fun v content hv hcontent => ?_) fun r => ?_
    · rw [show v.files (resolve path) = none from hv] at hcontent
      cases hcontent
    · cases r with
      | error => exact triple_pure fun _ _ => rfl
      | ok =>
          exact Triple.pre (.exists fun e => .assume fun h => nomatch h) fun v ⟨e, he⟩ =>
            ⟨e, he, trivial⟩
  refine Triple.pre (P := fun v =>
    ∃ file, At (fun files notes => files (resolve path) = file ∧ P files notes) v)
    (.exists fun file => ?_) fun v hv => ⟨_, rfl, hv⟩
  have hkeeps := keeps_of_stays (P := fun files notes => files (resolve path) = file ∧
    P files notes)
    (@stays_manifestCall ∅ path)
  cases file with
  | some content =>
      refine hkeeps.mono (fun _ hv => hv) (fun call v hv => ⟨hv.2, fun hnone => ?_⟩) fun v hv =>
        hv.2
      rw [hv.1] at hnone
      cases hnone
  | none =>
      exact (hkeeps.and hmissing).mono (fun v hv => ⟨hv, hv.1⟩)
        (fun call v hv => ⟨hv.1.2, fun _ => hv.2⟩)
        fun v hv => hv.1.2

/-- The package is empty if there is no manifest. -/
def Parsed (path : Bytes) (v : View Memory) : Prop :=
  v.files (resolve path) = none → arrayText v.rest.gManifest.package = []

theorem triple_parseManifestFile {P : Assertion} {path : Bytes} :
    Triple (At P) (parseManifestFile path) (fun _ v => Parsed path v ∧ At P v) (At P) := by
  refine triple_bind triple_manifestCall fun call => triple_update fun w hw =>
    ⟨fun hnone => ?_, hw.1⟩
  exact parse_missing (hw.2 hnone) _

theorem triple_validateManifestMetadata {P : Assertion} {path : Bytes} :
    Triple (fun v => Parsed path v ∧ At P v) validateManifestMetadata
      (fun r v => (r = true → v.files (resolve path) ≠ none) ∧ At P v) (At P) := by
  refine triple_bind (R := fun m v =>
    (v.files (resolve path) = none → arrayText m.gManifest.package = []) ∧ At P v)
    (triple_update fun w hw => hw) fun m => ?_
  have hfail : ∀ format args,
      Triple (fun v => (v.files (resolve path) = none → arrayText m.gManifest.package = []) ∧
        At P v)
        (fails format args) (fun r v => (r = true → v.files (resolve path) ≠ none) ∧ At P v)
          (At P) := fun _ _ =>
    (triple_fails (P := P) (C := P)).mono (fun v hv => hv.2)
      (fun r v hv => ⟨fun hr => absurd (hv.1.symm.trans hr) Bool.false_ne_true, hv.2⟩) fun _ hv =>
        hv
  refine triple_ite (fun _ => hfail _ _) fun hpackage => triple_ite (fun _ => hfail _ _) fun _ => ?_
  exact triple_pure fun v hv => ⟨fun _ hnone => hpackage (hv.1 hnone), hv.2⟩

theorem triple_loadManifestMetadata (hdecodes : Z.Decodes decode) (hes : apkEntries apk = some es) :
    Triple (At (Reextracting data decode apk es)) (loadManifestMetadata Z rounds)
      (fun _ v => Parsed (inDataRoot manifestName) v ∧ At (Reextracting data decode apk es) v)
      (At (Reextracting data decode apk es)) := by
  have hlook : ∀ name, Triple (At (Reextracting data decode apk es)) (fileExistsNonempty name)
      (fun _ => At (Reextracting data decode apk es)) (At (Reextracting data decode apk es)) :=
        fun _ =>
    keeps_of_stays stays_fileExistsNonempty
  refine triple_bind (hlook _) fun _ => triple_ite (fun _ => ?_) fun _ => triple_parseManifestFile
  refine triple_bind (hlook _) fun _ => triple_ite (fun _ => ?_) fun _ => triple_parseManifestFile
  exact triple_bind (triple_extractManifest hdecodes hes) fun _ => triple_parseManifestFile

end Manifests

/-! ## The runs -/

section Runs

variable {Z : Inflater} {data : CreditsData} {decode : Bytes → Option Bytes} {rounds : Nat}
  {apk : Bytes} {es : List ZipEntry} {α : Type} {p : Install α} {K missing : Set Path}
  {files files' : Contents} {notes more : List Note} {v v' : View Memory}

/-- The note is neither of an extraction nor of the fast path. -/
def Note.IsOther : Note → Prop
  | .placed _ | .started | .removing _ => True
  | _ => False

/-- Neither the marker nor what entries are extracted to has changed, and nothing has been noted
about them. -/
theorem Sound.of_eq (h : Sound data decode files notes)
    (hmarker : files' (resolve installMarker) = files (resolve installMarker))
    (hpayload : ∀ q ∈ Payload, files' q = files q) (hmore : ∀ n ∈ more, n.IsOther) :
    Sound data decode files' (notes ++ more) := by
  intro hcareful
  obtain ⟨hfast, hsettled⟩ := h hcareful.of_append
  refine ⟨hfast.append fun n hn f heq => ?_, fun hmarked => ?_⟩
  · rw [heq] at hn
    exact hmore _ hn
  obtain ⟨content, hcontent, hne⟩ := hmarked
  obtain ⟨apk, es, hlast, hes, hpresent⟩ := hsettled ⟨content, hmarker.symm.trans hcontent, hne⟩
  exact ⟨apk, es, hlast.append fun f e hmem => hmore _ hmem, hes, fun htidy =>
    (hpresent htidy).of_eq hpayload⟩

theorem installApk_not_mem : resolve installApk ∉ Payload := by
  rintro ⟨rest, heq, -⟩
  have hfour := congrArg (List.take 4) heq
  rw [List.take_left' (show (resolve dataRoot).length = 4 by decide +kernel)] at hfour
  revert hfour
  decide +kernel

/-- The marker and its sibling. -/
theorem installMarker_apart : resolve installMarker ≠ resolve installApk ∧
    resolve (tmpOf installMarker) ≠ resolve installApk := by decide +kernel

theorem installMarker_not_mem : resolve installMarker ∉ Payload ∧
    resolve (tmpOf installMarker) ∉ Payload := by
  have hmarker : installMarker = inDataRoot (bytes ".installed-1.2.8.1") := by decide +kernel
  rw [hmarker, tmpOf_inDataRoot]
  exact ⟨not_mem_payload (by decide +kernel), not_mem_payload (by decide +kernel)⟩

/-- What is in place would do for a marker. -/
theorem Unpacked.sound (h : Unpacked data decode {resolve bundlePath} apk es files notes)
    (hes : apkEntries apk = some es) : Sound data decode files notes := by
  intro hcareful
  obtain ⟨hfast, hlast, hpresent⟩ := h.2 hcareful
  exact ⟨hfast, fun _ => ⟨apk, es, hlast, hes, hpresent⟩⟩

/-- A part of a run that leaves alone what has been extracted. -/
theorem Unpacked.stays (h : Stays K SameNotes p) (hK : ∀ q ∈ K, q ≠ resolve installApk ∧
    q ∉ Payload) :
    Triple (At (Unpacked data decode missing apk es)) p (fun _ =>
      At (Unpacked data decode missing apk es))
      (At (Unpacked data decode missing apk es)) := by
  refine h.keeps fun v v' hwithin hv => ?_
  have hsame : ∀ q, q = resolve installApk ∨ q ∈ Payload → v'.files q = v.files q := fun q hq =>
    hwithin.files q fun hmem => hq.elim (hK q hmem).1 (hK q hmem).2
  unfold At
  rw [show v'.rest.notes = v.rest.notes from hwithin.rest]
  refine ⟨(hsame _ (.inl rfl)).trans hv.1, fun hcareful => ?_⟩
  obtain ⟨hfast, hlast, hpresent⟩ := hv.2 hcareful
  exact ⟨hfast, hlast, fun htidy => (hpresent htidy).of_eq fun q hq => hsame q (.inr hq)⟩

/-- The patch of the credits keeps what is in place. -/
theorem Unpacked.patch :
    Triple (At (Unpacked data decode {resolve bundlePath} apk es)) (creditsPatchApply data)
      (fun _ => At (Unpacked data decode {resolve bundlePath} apk es))
      (At (Unpacked data decode {resolve bundlePath} apk es)) := by
  refine Moves.keeps moves_creditsPatchApply fun w w' hpatching hw => ?_
  have hfixed : resolve installApk ∉ bundleFiles := by
    show ¬ (_ ∨ _ ∨ _)
    decide +kernel
  refine ⟨(hpatching.within.files _ hfixed).trans hw.1, fun hcareful => ?_⟩
  have hnotes : w'.rest.notes = w.rest.notes := hpatching.within.rest
  rw [view_rest, hnotes] at hcareful
  obtain ⟨hfast, hlast, hpresent⟩ := hw.2 hcareful
  rw [view_rest, hnotes]
  exact ⟨hfast, hlast, fun htidy => (hpresent htidy).patched rfl htidy hpatching⟩

/-- The steps before the patch keep what is in place, or fail. -/
theorem triple_prepareCaches (hdecodes : Z.Decodes decode) (hes : apkEntries apk = some es)
    {checkManifest : Install Bool} (hcheck : Stays ∅ SameNotes checkManifest) :
    Triple (At (Unpacked data decode {resolve bundlePath} apk es))
      (prepareCaches Z rounds checkManifest)
      (fun r v => if r then At (Unpacked data decode {resolve bundlePath} apk es) v else At
        (Sound data decode) v)
      (At (Sound data decode)) := by
  have hfail : ∀ {P : View Memory → Prop}, (∀ v, P v → At (Sound data decode) v) →
      Triple P (pure false : Install Bool) (fun r v => if r then
        At (Unpacked data decode {resolve bundlePath} apk es) v else At (Sound data decode) v)
        (At (Sound data decode)) := fun hP => triple_pure fun v hv => hP v hv
  -- what the caches may change is neither the archive nor payload
  have hspare : ∀ q ∈ besidesMarker \ Payload, q ≠ resolve installApk ∧ q ∉ Payload := fun q hq =>
    ⟨hq.1.1, hq.2⟩
  have hsound : ∀ {p : Install Bool},
    Triple (At (Unpacked data decode {resolve bundlePath} apk es)) p
      (fun _ => At (Unpacked data decode {resolve bundlePath} apk es))
      (At (Unpacked data decode {resolve bundlePath} apk es)) →
      Triple (At (Unpacked data decode {resolve bundlePath} apk es)) p
        (fun _ => At (Unpacked data decode {resolve bundlePath} apk es)) (At (Sound data decode)) :=
          fun h =>
    h.mono (fun _ hv => hv) (fun _ _ hv => hv) fun _ hv => Unpacked.sound hv hes
  refine triple_bind (((triple_loadManifestMetadata hdecodes hes).pre fun v hv => ?_).mono
    (fun _ hv => hv)
    (fun _ _ hv => hv) fun v hv => hv.1) fun _ => ?_
  · exact ⟨Unpacked.sound hv hes, hv.1, fun hcareful => ⟨(hv.2 hcareful).1, (hv.2 hcareful).2.1,
      fun htidy => ((hv.2 hcareful).2.2 htidy).mono fun q hq => .inl hq⟩⟩
  refine triple_bind (triple_validateManifestMetadata.mono (fun _ hv => hv) (fun _ _ hv => hv)
    fun v hv => hv.1)
    fun valid => triple_ite (fun _ => hfail fun v hv => hv.2.1) fun hvalid => ?_
  have hvalid : valid = true := by simpa using hvalid
  refine Triple.pre (P := At (Unpacked data decode {resolve bundlePath} apk es)) ?_ fun v hv => ?_
  · refine triple_bind (hsound (Unpacked.stays hcheck nofun)) fun _ => triple_ite
      (fun _ => hfail fun v hv => Unpacked.sound hv hes) fun _ => ?_
    refine triple_bind (hsound (Unpacked.stays roomy_besidesMarker.stays_prepareIl2cppCache hspare))
      fun _ =>
      triple_ite (fun _ => hfail fun v hv => Unpacked.sound hv hes) fun _ => ?_
    refine (hsound (Unpacked.stays roomy_besidesMarker.stays_seedEnglishLocalizationCache
      hspare)).post
      fun r v hv => ?_
    split
    · exact hv
    · exact Unpacked.sound hv hes
  · refine ⟨hv.2.2.1, fun hcareful => ?_⟩
    obtain ⟨hfast, hlast, hpresent⟩ := hv.2.2.2 hcareful
    refine ⟨hfast, hlast, fun htidy e he target htarget => ?_⟩
    obtain ⟨content, hbytes, hstate⟩ := hpresent htidy e he target htarget
    refine ⟨content, hbytes, hstate.imp_right fun hnone =>
      ⟨hnone.1.resolve_right fun hmanifest => ?_, hnone.2⟩⟩
    exact hv.1 hvalid (hmanifest ▸ hnone.2)

/-- The archive is removed whatever it was. -/
theorem triple_removeInstallMedia :
    Triple (At (Sound data decode)) removeInstallMediaIfSafe (fun _ => At (Sound data decode))
      (At (Sound data decode)) := by
  have hleave : Triple (At (Sound data decode)) (pure () : Install Unit)
    (fun _ => At (Sound data decode))
      (At (Sound data decode)) := triple_pure fun v hv => hv
  have hlook : ∀ name, Triple (At (Sound data decode)) (fileExistsNonempty name)
      (fun _ => At (Sound data decode)) (At (Sound data decode)) := fun _ =>
        keeps_of_stays stays_fileExistsNonempty
  refine triple_bind (hlook _) fun _ => triple_ite (fun _ => hleave) fun _ => ?_
  refine triple_bind (hlook _) fun _ => triple_ite (fun _ => hleave) fun _ => ?_
  refine triple_bind (keeps_of_stays (stays_allPresent _)) fun _ =>
    triple_ite (fun _ => hleave) fun _ => ?_
  refine triple_bind (hlook _) fun _ => triple_ite (fun _ => hleave) fun _ => ?_
  refine triple_bind (R := fun _ => At (Sound data decode)) (triple_update fun w hw => ?_)
    fun _ => ?_
  · exact Sound.of_eq hw rfl (fun _ _ => rfl) (List.forall_mem_singleton.2 trivial)
  · refine triple_bind (R := fun _ => At (Sound data decode)) ?_ fun _ => hleave
    have hstays : Stays {resolve installApk} SameNotes (remove installApk : Install _) :=
      stays_remove rfl
    refine hstays.keeps fun v v' hwithin hv => ?_
    unfold At
    rw [show v'.rest.notes = v.rest.notes from hwithin.rest, ← List.append_nil v.rest.notes]
    exact Sound.of_eq hv (hwithin.files _ installMarker_apart.1) (fun q hq =>
      hwithin.files q (ne_of_mem_of_not_mem hq installApk_not_mem)) (List.forall_mem_nil _)

/-- A first installation writes the marker when all is in place. -/
theorem triple_installGame_sound (hdecodes : Z.Decodes decode) :
    Triple (At (Sound data decode)) (installGame Z data rounds) (fun _ => At (Sound data decode))
      (At (Sound data decode)) := by
  have hfail : ∀ {P : View Memory → Prop} {b : Bool},
    (∀ v, P v → At (Sound data decode) v) → Triple P
      (pure b : Install Bool) (fun _ => At (Sound data decode)) (At (Sound data decode)) :=
        fun hP =>
    triple_pure fun v hv => hP v hv
  have hdirectory : ∀ name, Triple (At (Sound data decode)) (ensureDirectory name)
      (fun _ => At (Sound data decode)) (At (Sound data decode)) := fun _ =>
        keeps_of_stays stays_ensureDirectory
  refine triple_bind (keeps_of_stays stays_verifyGameApkBasic) fun _ =>
    triple_ite (fun _ => hfail fun _ hv => hv)
    fun _ => ?_
  refine triple_bind (hdirectory _) fun _ => triple_ite (fun _ => hfail fun _ hv => hv) fun _ => ?_
  refine triple_bind (hdirectory _) fun _ => triple_ite (fun _ => hfail fun _ hv => hv) fun _ => ?_
  refine triple_bind (triple_extractGame_unpacked hdecodes) fun r => ?_
  cases r with
  | none => exact hfail fun v hv => hv.1
  | some st =>
      refine Triple.pre (P := fun v => ∃ apk es, apkEntries apk = some es ∧
        At (Unpacked data decode {resolve bundlePath} apk es) v)
          (.exists fun apk => .exists fun es =>
          .assume fun hes => ?_) fun v hv => hv.2 rfl
      have hkeep : ∀ {α : Type} {p : Install α},
        Triple (At (Unpacked data decode {resolve bundlePath} apk es)) p
          (fun _ => At (Unpacked data decode {resolve bundlePath} apk es))
          (At (Unpacked data decode {resolve bundlePath} apk es)) →
          Triple (At (Unpacked data decode {resolve bundlePath} apk es)) p
            (fun _ => At (Unpacked data decode {resolve bundlePath} apk es))
              (At (Sound data decode)) := fun h =>
        h.mono (fun _ hv => hv) (fun _ _ hv => hv) fun _ hv => Unpacked.sound hv hes
      refine triple_bind (triple_prepareCaches hdecodes hes ?_) fun ready => triple_ite
        (fun hready => hfail fun v hv => ?_) fun hready => ?_
      · refine stays_bind stays_fileExistsNonempty fun _ =>
          moves_ite (fun _ => stays_fails) fun _ => stays_pure _
      · rw [if_neg (by simpa using hready)] at hv
        exact hv
      refine Triple.pre (P := At (Unpacked data decode {resolve bundlePath} apk es)) ?_
        fun v hv => by
        rw [if_pos (by simpa using hready)] at hv
        exact hv
      -- neither the patch nor the marker touches what has been extracted, but for the bundle
      refine triple_bind (hkeep Unpacked.patch) fun _ => ?_
      refine triple_bind (hkeep
        (Unpacked.stays (K := {resolve installMarker, resolve (tmpOf installMarker)})
        (stays_writeRuntimeInstallMarker (.inl rfl) (.inr rfl)) ?_)) fun _ =>
          triple_ite (fun _ => hfail fun v hv => Unpacked.sound hv hes) fun _ => ?_
      · rintro q (rfl | rfl)
        · exact ⟨installMarker_apart.1, installMarker_not_mem.1⟩
        · exact ⟨installMarker_apart.2, installMarker_not_mem.2⟩
      exact triple_bind (triple_removeInstallMedia.pre fun v hv => Unpacked.sound hv hes) fun _ =>
        triple_pure fun v hv => hv

/-- The fast path is taken when all is there that the marker stands for. -/
theorem Sound.fastPath (h : Sound data decode files notes) (hcomplete : Complete files) :
    Sound data decode files (notes ++ [.fastPath files]) := by
  intro hcareful
  obtain ⟨hfast, hsettled⟩ := h hcareful.of_append
  obtain ⟨apk, es, hlast, hes, hpresent⟩ := hsettled (hcomplete _ List.mem_cons_self)
  refine ⟨hfast.snoc fun files' hfiles => ?_, fun _ =>
    ⟨apk, es, hlast.append (by simp), hes, hpresent⟩⟩
  obtain rfl := Note.fastPath.inj hfiles
  refine ⟨apk, es, hlast, hes, fun htidy e he target htarget => ?_⟩
  obtain ⟨content, hbytes, hstate⟩ := hpresent htidy e he target htarget
  refine ⟨content, hbytes, .inl (hstate.resolve_right fun hnone => ?_)⟩
  -- only the bundle could be missing, and it is one of the files that have been looked for
  have hbundle : bundlePath ∈ installMarker :: runtimeFiles := by decide +kernel
  obtain ⟨bundle, hfile, -⟩ := hcomplete _ hbundle
  rw [← show resolve target = resolve bundlePath from hnone.1, hnone.2] at hfile
  cases hfile

/-- Whatever fails, a run of a careful history is sound. -/
theorem triple_prepare_sound (hdecodes : Z.Decodes decode) :
    Triple (At (Sound data decode)) (installerPrepareGameFiles Z data rounds)
      (fun _ => At (Sound data decode))
      (At (Sound data decode)) := by
  refine triple_bind (R := fun _ => At (Sound data decode)) (triple_update fun w hw =>
    Sound.of_eq hw rfl (fun _ _ => rfl) (List.forall_mem_singleton.2 trivial)) fun _ => ?_
  refine triple_bind (keeps_of_stays (stays_modifyMemory fun _ => rfl)) fun _ => ?_
  refine triple_bind triple_fileExistsNonempty fun marked => ?_
  refine triple_bind (R := fun present v => (present = true → Complete v.files) ∧
    At (Sound data decode) v)
    (triple_ite (fun hmarked => ?_) fun _ =>
      triple_pure fun v hv => ⟨fun h => absurd h Bool.false_ne_true, hv.2⟩) fun present => ?_
  · refine (triple_allPresent runtimeFiles).mono (fun _ hv => hv)
      (fun present v hv => ⟨fun hpresent => ?_, hv.2.2⟩)
      fun v hv => hv.2
    exact List.forall_mem_cons.2 ⟨hv.2.1 hmarked, hv.1 hpresent⟩
  refine triple_ite (fun hpresent => ?_) fun _ =>
    (triple_installGame_sound hdecodes).pre fun v hv => hv.2
  refine triple_bind (R := fun _ => At (Sound data decode)) (triple_update fun w hw =>
    Sound.fastPath hw.2 (hw.1 hpresent)) fun _ => ?_
  refine triple_bind (works_prepareCaches roomy_besidesMarker (works_pure _)).sound fun _ =>
    triple_ite
    (fun _ => triple_pure fun v hv => hv) fun _ => ?_
  refine triple_bind (Moves.keeps moves_creditsPatchApply fun w w' hpatching hw =>
    Sound.patching hw hpatching)
    fun _ => ?_
  exact triple_bind triple_removeInstallMedia fun _ => triple_pure fun v hv => hv

theorem Sound.event (hdecodes : Z.Decodes decode) {w w' : World Memory}
    (h : At (Sound data decode) w.view)
    (hevent : Event Z data w w') : At (Sound data decode) w'.view := by
  cases hevent with
  | placed apk =>
      refine Sound.of_eq h ?_ (fun q hq => ?_) (List.forall_mem_singleton.2 trivial)
      · show (w.fs.put _ apk).file _ = _
        rw [file_put, Function.update_of_ne installMarker_apart.1]
        rfl
      · show (w.fs.put _ apk).file _ = _
        rw [file_put, Function.update_of_ne (ne_of_mem_of_not_mem hq installApk_not_mem)]
        rfl
  | run rounds decisions =>
      exact Spec.world (triple_prepare_sound hdecodes) decisions (w := restart w) h

theorem Sound.history (hdecodes : Z.Decodes decode) {w w' : World Memory}
    (h : At (Sound data decode) w.view)
    (hhistory : History Z data w w') : At (Sound data decode) w'.view := by
  induction hhistory with
  | refl => exact h
  | tail _ hevent ih => exact Sound.event hdecodes ih hevent

end Runs

/-- In every history of runs from an empty runtime directory, with failures and power losses
anywhere: if no entry is extracted while there is an install marker, and all archives that are
extracted are tidy, then each time a run takes the fast path, all selected entries of the archive
that was being extracted last are there in full. -/
theorem marker_sound {Z : Inflater} {decode : Bytes → Option Bytes} (hdecodes : Z.Decodes decode)
    (data : CreditsData) {w₀ w : World Memory} (hfresh : w₀.rest.notes = [])
    (hempty : ∀ rel, w₀.fs.file (resolve (inDataRoot rel)) = none) (hhistory : History Z data w₀ w)
    (hcareful : Careful w.rest.notes) (htidy : TidyArchives decode w.rest.notes) :
    MarkerSound data decode w.rest.notes := by
  have hstart : At (Sound data decode) w₀.view := by
    refine fun _ => ⟨fun before files after hsplit => ?_, fun hmarked => ?_⟩
    · rw [view_rest, hfresh] at hsplit
      cases before <;> cases hsplit
    · obtain ⟨content, hcontent, -⟩ := hmarked
      have hmarker : installMarker = inDataRoot (bytes ".installed-1.2.8.1") := by decide +kernel
      rw [hmarker, view_files, hempty] at hcontent
      cases hcontent
  exact (Sound.history hdecodes hstart hhistory hcareful).1.markerSound htidy

/-! ## An interrupted installation -/

/-- The directory records of files, the first of which has its local header at the offset. -/
def directoryRecords : Nat → List (Bytes × Bytes) → Bytes
  | _, [] => []
  | offset, (name, content) :: files =>
      let size := (bigEndian 4 content.length).reverse
      [0x50, 0x4b, 0x01, 0x02] ++ List.replicate 12 0 ++
        (bigEndian 4 (crc32 0 content).toNat).reverse ++
        size ++ size ++ (bigEndian 2 name.length).reverse ++ List.replicate 12 0 ++
        (bigEndian 4 offset).reverse ++ name ++ directoryRecords
          (offset + 30 + content.length) files

/-- An archive of files that are stored as they are. -/
def archiveOf (files : List (Bytes × Bytes)) : Bytes :=
  let contents := (files.map fun file => smallArchive file.2).flatten
  let count := (bigEndian 2 files.length).reverse
  contents ++ directoryRecords 0 files ++ [0x50, 0x4b, 0x05, 0x06, 0, 0, 0, 0] ++ count ++ count ++
    [0, 0, 0, 0] ++ (bigEndian 4 contents.length).reverse ++ [0, 0]

/-- An archive with the required entries only; most of them have one byte. -/
def requiredArchive : Bytes :=
  archiveOf ((mscorlibName, [97]) :: (manifestName, plainManifest) ::
    (guidName, List.replicate 36 97) ::
    [bytes "lib/arm64-v8a/" ++ libMain, bytes "lib/arm64-v8a/" ++ libUnity,
      bytes "lib/arm64-v8a/" ++ libIl2cpp,
      metadataName, dataName, resourcesName, systemDataName, systemDrawingName,
        englishName].map fun name =>
        (name, [97]))

/-- The directory of the applications is there, and nothing else. -/
def emptyWorld : World Memory :=
  ⟨[bytes "sdmc:", bytes "sdmc:/switch"].foldl (fun fs name => fs.insert (resolve name) .dir)
    ∅, [], .init⟩

/-- The archive is put in place and the installer is started; one step may fail, and the power may
be lost after one. -/
def installOnce (failing last : Option Nat) (w : World Memory) : World Memory :=
  runInstaller (.ofStream [] []) noCredits 5 (fun i => ⟨last = some i, failing = some i, 2 ^ 30⟩)
    (place requiredArchive w)

/-- The installer is started, and the power is lost when it has looked for the marker and the
runtime files. -/
def launch (w : World Memory) : World Memory :=
  runInstaller (.ofStream [] []) noCredits 5 (fun i => ⟨i = 8, false, 2 ^ 30⟩) w

/-- An installation without failures. -/
def launchedWorld : World Memory := launch (installOnce none none emptyWorld)

/-- After such an installation, a run does not find the marker, and the power is lost when it has
removed the file of the first entry. -/
def interruptedWorld : World Memory :=
    launch (installOnce (some 0) (some 134) (installOnce none none emptyWorld))

theorem file_emptyWorld (p : Path) : emptyWorld.fs.file p = none := by
  have hempty : Fs.file ∅ p = none := rfl
  show Fs.file (AList.insert _ .dir (AList.insert _ .dir ∅)) p = none
  rw [file_insert_dir (by decide +kernel), file_insert_dir (by decide +kernel), hempty]

theorem history_launchedWorld : History (.ofStream [] []) noCredits emptyWorld launchedWorld :=
  .tail (.tail (.single (.placed _)) (.run _ _)) (.run _ _)

theorem history_interruptedWorld : History (.ofStream [] []) noCredits emptyWorld
    interruptedWorld :=
  .tail (.tail (.tail (.tail (.single (.placed _)) (.run _ _)) (.placed _)) (.run _ _)) (.run _ _)

/-- Unless the note is of an extraction, there is no marker. -/
def Note.isCareful : Note → Bool
  | .extracting files _ => (files (resolve installMarker)).all List.isEmpty
  | _ => true

/-- The note is of no extraction from another archive. -/
def Note.extractsFrom (apk : Bytes) : Note → Bool
  | .extracting files _ => files (resolve installApk) = some apk
  | _ => true

/-- The note is of the fast path, and there is no file at the path. -/
def Note.lacks (p : Path) : Note → Bool
  | .fastPath files => (files p).isNone
  | _ => false

theorem careful_of_all {notes : List Note} (h : notes.all Note.isCareful) : Careful notes := by
  rintro files e hmem ⟨content, hcontent, hne⟩
  have hcareful := List.all_eq_true.1 h _ hmem
  rw [Note.isCareful, hcontent, Option.all_some, List.isEmpty_iff] at hcareful
  exact hne hcareful

theorem extracted_from {notes : List Note} {apk : Bytes} (h : notes.all (Note.extractsFrom apk))
    {files : Contents}
    {e : ZipEntry} (hmem : .extracting files e ∈ notes) : files (resolve installApk) = some apk :=
  of_decide_eq_true (List.all_eq_true.1 h _ hmem)

theorem fastPath_lacking {notes : List Note} {p : Path} (h : notes.any (Note.lacks p)) :
    ∃ files, .fastPath files ∈ notes ∧ files p = none := by
  obtain ⟨n, hmem, hn⟩ := List.any_eq_true.1 h
  cases n with
  | fastPath files => exact ⟨files, hmem, Option.isNone_iff_eq_none.1 hn⟩
  | placed | started | extracting | extracted | removing => cases hn

set_option maxRecDepth 4000 in
theorem requiredArchive_apart : ∀ es ∈ apkEntries requiredArchive,
    (∃ e ∈ es, (installEntryTarget e).target = some (inDataRoot mscorlibName)) ∧
    es.Pairwise TargetsDiffer ∧ es.Pairwise SparedBy ∧
      Readable (decodeStream [] []) requiredArchive es ∧
    ∀ e ∈ es, ∀ target ∈ (installEntryTarget e).target,
      resolve target ≠ resolve bundleTmp ∧ resolve target ≠ resolve bundleBak := by
  decide +kernel

theorem tidy_requiredArchive {notes : List Note}
    (h : notes.all (Note.extractsFrom requiredArchive)) :
    TidyArchives (decodeStream [] []) notes := by
  intro files e apk es hmem hapk hes
  obtain rfl : requiredArchive = apk := Option.some.inj ((extracted_from h hmem).symm.trans hapk)
  obtain ⟨-, hdiffer, hspared, hreadable, hsiblings⟩ := requiredArchive_apart es hes
  exact ⟨(kept_iff_spared hdiffer hreadable).2 hspared, .inr hsiblings⟩

set_option maxRecDepth 4000 in
/-- What the histories come to. -/
theorem notes_evaluated : (launchedWorld.rest.notes.all Note.isCareful ∧
      launchedWorld.rest.notes.all (Note.extractsFrom requiredArchive) ∧
      launchedWorld.rest.notes.any (Note.lacks (resolve installApk))) ∧
    interruptedWorld.rest.notes.all (Note.extractsFrom requiredArchive) ∧
    interruptedWorld.rest.notes.any (Note.lacks (resolve (inDataRoot mscorlibName))) := by
  decide +kernel

theorem marker_sound_launched :
    (∃ files, .fastPath files ∈ launchedWorld.rest.notes ∧ files (resolve installApk) = none) ∧
    MarkerSound noCredits (decodeStream [] []) launchedWorld.rest.notes :=
  ⟨fastPath_lacking notes_evaluated.1.2.2,
    @marker_sound _ _ Inflater.ofStream_decodes noCredits emptyWorld _ rfl
      (fun _ => file_emptyWorld _)
      history_launchedWorld (careful_of_all notes_evaluated.1.1)
        (tidy_requiredArchive notes_evaluated.1.2.1)⟩

/-- The archive is a tidy one, and the fast path is taken although one of its files is gone. -/
theorem marker_unsound_interrupted :
    TidyArchives (decodeStream [] []) interruptedWorld.rest.notes ∧
    ¬ ∀ (Z : Inflater) (decode : Bytes → Option Bytes) (data : CreditsData) (w₀ w : World Memory),
      Z.Decodes decode → w₀.rest.notes = [] →
        (∀ rel, w₀.fs.file (resolve (inDataRoot rel)) = none) →
      History Z data w₀ w → MarkerSound data decode w.rest.notes := by
  obtain ⟨hfrom, hlacks⟩ := notes_evaluated.2
  refine ⟨tidy_requiredArchive hfrom, fun h => ?_⟩
  have hsound : MarkerSound noCredits (decodeStream [] []) interruptedWorld.rest.notes :=
    h _ _ noCredits emptyWorld _ Inflater.ofStream_decodes rfl (fun _ => file_emptyWorld _)
      history_interruptedWorld
  obtain ⟨files, hmem, hgone⟩ := fastPath_lacking hlacks
  obtain ⟨before, after, hnotes⟩ := List.append_of_mem hmem
  obtain ⟨apk, es, hlast, hes, hpresent⟩ := hsound before files after hnotes
  obtain ⟨earlier, files', e', later, rfl, -, hapk⟩ := hlast
  have hextracting : .extracting files' e' ∈ interruptedWorld.rest.notes := by
    rw [hnotes]
    simp
  obtain rfl : requiredArchive = apk :=
    Option.some.inj ((extracted_from hfrom hextracting).symm.trans hapk)
  obtain ⟨⟨e, he, htarget⟩, -⟩ := requiredArchive_apart es hes
  obtain ⟨content, -, hcontent | ⟨-, -, hcontent⟩⟩ := hpresent e he _ htarget
  · rw [hgone] at hcontent
    cases hcontent
  · rw [hgone] at hcontent
    cases hcontent

end Asnx.Installer
