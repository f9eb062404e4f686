import Asnx.Installer.Noting
import Mathlib.Data.Set.Basic
import Mathlib.Logic.Relation

/-!
# Removing the archive

A run that extracts `game.apk` has taken a note of every selected entry when it comes to remove the
file (`triple_extractGame_notes`), and a run on the fast path has found the installation complete.
So each removal in a history of runs is justified (`removal_justified`), but a `game.apk` that is
put in place when the installation is complete is removed unextracted (`reinstalled_unextracted`).
-/

namespace Asnx.Installer

open Interrupted Files Tracing Credits Zlib

/-! ## Opening the archive -/

/-- An archive that has been opened is the one at `name`, with its directory. -/
def Opened (name : Bytes) (r : Option ZipArchive) (v : View Memory) : Prop :=
  ∀ z, r = some z → z.fp.path = resolve name ∧ ∃ apk, v.files (resolve name) = some apk ∧
    zipDirectory apk = some (z.entries, z.cdOffset)

/-- `zip_open` finds the directory of the archive, or fails. -/
theorem triple_zipOpen {P : View Memory → Prop} {name : Bytes} :
    Triple P (zipOpen name) (fun r v => Opened name r v ∧ P v) P := by
  -- the two ways to fail: without a file, and with one that is closed first
  have hnone : ∀ {Q : View Memory → Prop}, (∀ v, Q v → P v) → Triple Q
      (pure none : Install (Option ZipArchive)) (fun r v => Opened name r v ∧ P v) P :=
    fun hQ => triple_pure fun v hv => ⟨nofun, hQ v hv⟩
  have hbad : ∀ {Q : View Memory → Prop} (fp : InFile), (∀ v, Q v → P v) → Triple Q
      (do fcloseRead fp; pure none : Install (Option ZipArchive))
        (fun r v => Opened name r v ∧ P v) P :=
    fun fp hQ => triple_bind (triple_fcloseRead fun v hv => ⟨hQ v hv, hQ v hv⟩) fun _ =>
      hnone fun _ h => h
  refine triple_bind (R := fun r v => (∀ fp, r = .ok fp → fp.path = resolve name ∧
    ∃ apk, v.files (resolve name) = some apk) ∧ P v) ?_ fun r => ?_
  · refine triple_fopenRead (fun v e hv => ⟨⟨nofun, hv⟩, hv⟩) fun v apk hv hapk =>
      ⟨⟨fun fp hfp => ?_, hv⟩, hv⟩
    rw [← Except.ok.inj hfp]
    exact ⟨rfl, apk, hapk⟩
  -- from here on the file is open, at the end of the archive after the seek
  cases r with
  | error => exact hnone fun v hv => hv.2
  | ok fp =>
      refine Triple.pre (P := fun v => ∃ apk, fp.path = resolve name ∧
        v.files (resolve name) = some apk ∧ P v) (.exists fun apk => .assume fun hpath => ?_)
          fun v hv => by
          obtain ⟨hfile, hv⟩ := hv
          obtain ⟨hpath, apk, hapk⟩ := hfile fp rfl
          exact ⟨apk, hpath, hapk, hv⟩
      refine triple_bind (R := fun r v => (∀ fp', r = some fp' → fp'.path = resolve name ∧
        fp'.pos = apk.length) ∧ v.files (resolve name) = some apk ∧ P v) ?_ fun r => ?_
      · refine triple_quiet fun d w hw => ⟨rfl, ⟨fun fp' hfp' => ?_, hw⟩, hw.2⟩
        have hfile : w.fs.file (resolve name) = some apk := hw.1
        rw [hpath, hfile] at hfp'
        split at hfp'
        · cases hfp'
        · rw [← Option.some.inj hfp']
          exact ⟨rfl, rfl⟩
      cases r with
      | none => exact hbad _ fun v hv => hv.2.2
      | some fp =>
          refine .assume fun hfp => ?_
          obtain ⟨hpath, hpos⟩ := hfp fp rfl
          refine triple_bind (R := fun r v => (∀ n, r = some n → n = apk.length) ∧
            v.files (resolve name) = some apk ∧ P v) (triple_ftell fun v n hv hn =>
              ⟨⟨fun k hk => ?_, hv⟩, hv.2⟩)
            fun r => ?_
          · rw [hn k hk, hpos]
          cases r with
          | none => exact hbad _ fun v hv => hv.2.2
          -- the size is that of the archive, whose last bytes are read now
          | some size =>
              refine .assume fun hsize => ?_
              obtain rfl := hsize size rfl
              refine triple_ite (fun _ => hbad _ fun v hv => hv.2) fun hlong => ?_
              refine triple_bind (R := fun _ v => v.files (resolve name) = some apk ∧ P v)
                (triple_chance fun v b hv => ⟨hv, hv.2⟩) fun b =>
                  triple_ite (fun _ => hbad _ fun v hv => hv.2)
                fun _ => ?_
              refine triple_bind (R := fun r v => (∀ fp', r = some fp' → fp'.path = resolve name ∧
                fp'.pos = apk.length - min apk.length tailBytes) ∧
                  v.files (resolve name) = some apk ∧ P v)
                (triple_fseek (fun v hv => ⟨⟨nofun, hv⟩, hv.2⟩) fun v n hv hn =>
                  ⟨⟨fun fp' hfp' => ?_, hv⟩,
                  hv.2⟩) fun r => ?_
              · rw [← Option.some.inj hfp']
                exact ⟨hpath, (Option.some.inj hn).symm⟩
              cases r with
              | none => exact hbad _ fun v hv => hv.2.2
              | some fp =>
                  refine .assume fun hfp => ?_
                  obtain ⟨hpath, hpos⟩ := hfp fp rfl
                  refine triple_bind (R := fun r v => (r.2.path = resolve name ∧
                    (r.1.length = min apk.length tailBytes →
                      r.1 = apk.drop (apk.length - min apk.length tailBytes))) ∧
                    v.files (resolve name) = some apk ∧ P v)
                      (triple_fread fun v got err hv hprefix _ =>
                      ⟨⟨⟨hpath, fun hgot => ?_⟩, hv⟩, hv.2⟩) fun r => .assume fun hread => ?_
                  · -- a read of full length has given exactly the tail
                    rw [hpath, hv.1, hpos] at hprefix
                    have hslice := slice_of_prefix hprefix hgot
                    rw [hslice]
                    refine List.take_of_length_le ?_
                    show (apk.drop _).length ≤ _
                    rw [List.length_drop]
                    omega
                  obtain ⟨tail, fp⟩ := r
                  obtain ⟨hpath, htail⟩ := hread
                  dsimp only at hpath htail ⊢
                  refine triple_ite (fun _ => hbad _ fun v hv => hv.2) fun hlength => ?_
                  have htail := htail (not_not.1 hlength)
                  split
                  · exact hbad _ fun v hv => hv.2
                  · -- the directory was found in that tail, as `zipDirectory` finds it
                    rename_i entries cdOffset hdirectory
                    refine triple_pure fun v hv => ⟨fun z hz => ?_, hv.2⟩
                    rw [← Option.some.inj hz]
                    refine ⟨hpath, apk, hv.1, ?_⟩
                    unfold zipDirectory
                    rw [if_neg hlong, ← htail, hdirectory]

/-! ## What has been extracted -/

section Extracting

variable {Z : Inflater} {decode : Bytes → Option Bytes} {rounds : Nat} {apk : Bytes} {e : ZipEntry}
  {es : List ZipEntry} {target : Bytes} {fp : InFile} {base during more : List Note}
    {st st' : InstallState}

/-- The notes tell that the entry of the archive has been extracted to its target. -/
def ExtractedTo (decode : Bytes → Option Bytes) (apk : Bytes) (during : List Note) (e : ZipEntry)
    (target : Bytes) : Prop :=
  ∃ files content, .extracted files e target ∈ during ∧ files (resolve installApk) = some apk ∧
    entryBytes decode apk e = some content ∧ files (resolve target) = some content

/-- The notes tell that all selected entries have been extracted. -/
def ExtractedAll (decode : Bytes → Option Bytes) (apk : Bytes) (es : List ZipEntry)
    (during : List Note) :
    Prop :=
  ∀ e ∈ es, ∀ target, (installEntryTarget e).target = some target →
    ExtractedTo decode apk during e target

theorem ExtractedTo.append (h : ExtractedTo decode apk during e target) (more : List Note) :
    ExtractedTo decode apk (during ++ more) e target := by
  obtain ⟨files, content, hmem, h⟩ := h
  exact ⟨files, content, List.mem_append_left _ hmem, h⟩

theorem ExtractedAll.append (h : ExtractedAll decode apk es during) (more : List Note) :
    ExtractedAll decode apk es (during ++ more) :=
  fun e he target htarget => (h e he target htarget).append more

/-- `game.apk` is the archive, and the notes since `base` tell that the entries have been
extracted, and that an extraction has begun if a required entry has been seen. -/
def Extracting (decode : Bytes → Option Bytes) (apk : Bytes) (base : List Note) (es : List ZipEntry)
    (st : InstallState) : Assertion :=
  fun files notes => files (resolve installApk) = some apk ∧
    ∃ during, notes = base ++ during ∧ ExtractedAll decode apk es during ∧
      (st.seen ≠ [] → ∃ f e, .extracting f e ∈ during)

/-- An entry that has been extracted is one more. -/
theorem Extracting.extract {files files' : Contents} {notes notes' : List Note} {content : Bytes}
    (h : Extracting decode apk base es st files notes)
    (htarget : (installEntryTarget e).target = some target)
    (hbytes : entryBytes decode apk e = some content)
    (hreplaced : Replaced files target content files' notes')
    (hnotes : ∃ during, notes' = notes ++ during ∧ .extracted files' e target ∈ during ∧
      ∃ f, .extracting f e ∈ during) :
    Extracting decode apk base (es ++ [e]) st' files' notes' := by
  obtain ⟨hapk, before, rfl, hall, -⟩ := h
  obtain ⟨during, rfl, hmem, f, hbegun⟩ := hnotes
  have hfiles : files' = _ := hreplaced
  have hapk' : files' (resolve installApk) = some apk := by
    rw [hfiles, Function.update_of_ne fun hp => not_takes_installApk ⟨target, htarget, .inl hp⟩,
      Function.update_of_ne fun hp => not_takes_installApk ⟨target, htarget, .inr hp⟩, hapk]
  refine ⟨hapk', before ++ during, List.append_assoc .., fun e' he' target' htarget' => ?_, fun _ =>
    ⟨f, e, List.mem_append_right _ hbegun⟩⟩
  rcases List.mem_append.1 he' with he' | he'
  · exact (hall e' he' target' htarget').append during
  · obtain rfl := List.mem_singleton.1 he'
    obtain rfl : target = target' := Option.some.inj (htarget.symm.trans htarget')
    refine ⟨files', content, List.mem_append_right _ hmem, hapk', hbytes, ?_⟩
    rw [hfiles, Function.update_self]

/-- What is extracted is noted at the beginning and at the end. -/
theorem triple_extractEntry_notes (notes₀ : List Note) :
    Triple (fun v => v.rest.notes = notes₀) (extractEntry Z rounds fp e target)
      (fun r v => r.1 = true → ∃ during, v.rest.notes = notes₀ ++ during ∧
        .extracted v.files e target ∈ during ∧ ∃ files, .extracting files e ∈ during)
          fun _ => True := by
  have hkeeps : ∀ {α : Type} {p : Install α} {notes : List Note}, Stays Set.univ SameNotes p →
      Triple (fun v => v.rest.notes = notes) p (fun _ v => v.rest.notes = notes) fun _ => True :=
    fun h => Triple.mono (h.keeps (I := fun v => v.rest.notes = _) fun v v' hw hv =>
      hw.rest.trans hv)
      (fun _ h => h) (fun _ _ h => h) fun _ _ => trivial
  refine triple_bind (R := fun _ v => ∃ files, v.rest.notes = notes₀ ++ [.extracting files e])
    (triple_update fun w hw => ⟨w.fs.file, ?_⟩) fun _ => .exists fun files => ?_
  · show w.rest.notes ++ _ = _
    rw [show w.rest.notes = notes₀ from hw]
  refine triple_bind (hkeeps (stays_fillEntry (Set.mem_univ _))) fun r => ?_
  refine triple_ite (fun _ => triple_pure fun v hv => nofun) fun _ => ?_
  refine triple_bind (hkeeps (stays_replaceFile (Set.mem_univ _) (Set.mem_univ _))) fun r' => ?_
  refine triple_ite (fun _ => triple_pure fun v hv => nofun) fun _ => ?_
  refine triple_bind (R := fun _ v => ∃ during, v.rest.notes = notes₀ ++ during ∧
    .extracted v.files e target ∈ during ∧ ∃ files, .extracting files e ∈ during)
    (triple_update fun w hw => ?_) fun _ => triple_pure fun v hv _ => hv
  refine ⟨[.extracting files e, .extracted w.fs.file e target],
    ?_, by simp, files, List.mem_cons_self⟩
  show w.rest.notes ++ _ = _
  rw [show w.rest.notes = _ from hw, List.append_assoc]
  rfl

/-- One entry more has been extracted, or the visit fails. -/
theorem triple_extracting (hdecodes : Z.Decodes decode) (hpath : fp.path = resolve installApk)
    (st : InstallState) :
    Triple (At (Extracting decode apk base es st)) (installVisitor Z rounds fp e st)
      (fun r v => r.2.1.path = resolve installApk ∧
        if r.1 then At (Extracting decode apk base (es ++ [e]) r.2.2) v else At (fun _ _ => True) v)
      (At fun _ _ => True) := by
  unfold installVisitor
  cases hselection : installEntryTarget e with
  | error m =>
      refine triple_bind (triple_fails (P := Extracting decode apk base es st)) fun r =>
        triple_pure fun v hv => ⟨hpath, ?_⟩
      rw [hv.1]
      exact trivial
  | skip =>
      refine triple_pure fun v hv => ⟨hpath, hv.1, ?_⟩
      obtain ⟨during, hnotes, hall, hbegun⟩ := hv.2
      refine ⟨during, hnotes, fun e' he' target htarget => ?_, hbegun⟩
      rcases List.mem_append.1 he' with he' | he'
      · exact hall e' he' target htarget
      · rw [List.mem_singleton.1 he', hselection] at htarget
        cases htarget
  | select target required =>
      have htarget : (installEntryTarget e).target = some target := by rw [hselection]; rfl
      -- the archive is not the sibling of any target
      have hsibling : fp.path ≠ resolve (tmpOf target) := fun hp =>
        not_takes_installApk ⟨target, htarget, .inr (hpath ▸ hp)⟩
      have hextract : Triple (At (Extracting decode apk base es st))
        (extractEntry Z rounds fp e target)
          (fun r v => r.2.path = resolve installApk ∧
            if r.1 then ∀ st', At (Extracting decode apk base (es ++ [e]) st') v else At
              (fun _ _ => True) v)
          (At fun _ _ => True) := by
        -- the files and the notes from before the entry are fixed, to speak of what it changes
        refine Triple.pre (P := fun v =>
          ∃ files notes, Extracting decode apk base es st files notes ∧
          (At (Exactly files notes) v ∧ v.rest.notes = notes)) (.exists fun files =>
            .exists fun notes =>
            .assume fun hbefore => ?_) fun v hv => ⟨_, _, hv, ⟨rfl, rfl⟩, rfl⟩
        refine ((triple_extractEntry rounds target (entryYields_of_decodes hdecodes apk e) hsibling
          (hpath ▸ hbefore.1)).and (triple_extractEntry_notes notes)).mono (fun _ hv => hv) ?_
          fun _ _ => trivial
        rintro ⟨ok, fp'⟩ v ⟨⟨hpath', hv⟩, hnotes⟩
        refine ⟨hpath'.trans hpath, ?_⟩
        cases ok with
        | false => exact trivial
        | true =>
            obtain ⟨content, hpassed, -, hreplaced⟩ := hv
            exact fun st' => hbefore.extract htarget hpassed.good hreplaced (hnotes rfl)
      refine triple_bind hextract ?_
      rintro ⟨ok, fp'⟩
      cases ok with
      | false => exact triple_pure fun v hv => hv
      | true => exact triple_pure fun v hv => ⟨hv.1, hv.2 _⟩

/-- All files but `game.apk`. -/
def besidesApk : Set Path := fun p => p ≠ resolve installApk

theorem roomy_besidesApk : Roomy besidesApk ∅ :=
  ⟨fun rel _ => (installApk_ne rel).symm, Set.empty_subset _⟩

theorem Worked.apk_eq {v v' : View Memory} (h : Worked besidesApk ∅ v v') :
    v'.files (resolve installApk) = v.files (resolve installApk) :=
  h.files _ fun hne => hne rfl

theorem Works.extracting {α : Type} {p : Install α} (h : Works besidesApk ∅ p) :
    Triple (At (Extracting decode apk base es st)) p (fun _ =>
      At (Extracting decode apk base es st))
      (At (Extracting decode apk base es st)) := by
  refine Moves.keeps h fun w w' hworked hw => ?_
  obtain ⟨hapk, during, hnotes, hall, hbegun⟩ := hw
  obtain ⟨more, hmore, -⟩ := hworked.notes
  refine ⟨hworked.apk_eq.trans hapk,
    during ++ more, by rw [hmore, hnotes, List.append_assoc], hall.append more,
    fun hseen => ?_⟩
  obtain ⟨f, e, hmem⟩ := hbegun hseen
  exact ⟨f, e, List.mem_append_left _ hmem⟩

/-- What `zip_visit` with `install_visitor` has extracted is noted. -/
theorem triple_visit_notes (hdecodes : Z.Decodes decode) {z : ZipArchive}
    (hpath : z.fp.path = resolve installApk)
    (hdirectory : zipDirectory apk = some (z.entries, z.cdOffset)) :
    Triple (At (Extracting decode apk base [] st)) (zipVisit z (installVisitor Z rounds) st)
      (fun r v => r.1 = true → ∃ es, apkEntries apk = some es ∧
        At (Extracting decode apk base es r.2) v)
      fun _ => True := by
  refine Triple.mono (triple_zipVisit (I := fun es st => Extracting decode apk base es st)
    (F := fun _ _ => True) (fun _ _ _ _ h => h.1) (fun _ _ _ _ _ => trivial) (fun _ _ h => h)
    (fun es st e fp _ hfp => triple_extracting hdecodes hfp st) hpath) (fun _ hv => hv) ?_
      fun _ _ => trivial
  rintro ⟨ok, st'⟩ v hv rfl
  obtain ⟨es, hes, hv⟩ := hv
  refine ⟨es, ?_, hv⟩
  unfold apkEntries
  rw [hdirectory]
  exact hes

/-- The rule for the installation of `game.apk`: `A` holds until the archive is visited, and `B`
afterwards. -/
theorem triple_extractGame_of {P : View Memory → Prop} {A : Bytes → Assertion}
    {B : Bytes → List ZipEntry → InstallState → Assertion}
    (hopened : ∀ v apk, P v → v.files (resolve installApk) = some apk → At (A apk) v)
    (hpreflight : ∀ apk z, Triple (At (A apk)) (installerPreflight z) (fun _ => At (A apk)) fun _ =>
      True)
    (hvisit : ∀ apk z, z.fp.path = resolve installApk → zipDirectory apk =
      some (z.entries, z.cdOffset) →
      Triple (At (A apk)) (zipVisit z (installVisitor Z rounds) ⟨0, []⟩)
        (fun r v => r.1 = true → ∃ es, apkEntries apk = some es ∧ At (B apk es r.2) v) fun _ =>
          True) :
    Triple P (extractGame Z rounds)
      (fun r v => r.isSome → ∃ apk es st, apkEntries apk = some es ∧ st.seen ≠ [] ∧
        At (B apk es st) v)
      fun _ => True := by
  have hnone : ∀ {P : View Memory → Prop}, Triple P (pure none : Install (Option InstallState))
      (fun r v => r.isSome → ∃ apk es st, apkEntries apk = some es ∧ st.seen ≠ [] ∧
        At (B apk es st) v)
      fun _ => True := triple_pure fun v hv => nofun
  have hany : ∀ {α : Type} {P : View Memory → Prop} {p : Install α},
      Triple P p (fun _ _ => True) fun _ => True := fun m _ => by split <;> trivial
  refine triple_bind (Triple.mono (triple_zipOpen (P := P)) (fun _ hv => hv) (fun _ _ hv => hv)
    fun _ _ => trivial) fun r => ?_
  cases r with
  | none => exact triple_bind hany fun _ => hnone
  | some z =>
      refine Triple.pre (P := fun v => ∃ apk, (z.fp.path = resolve installApk ∧
        zipDirectory apk = some (z.entries, z.cdOffset)) ∧ At (A apk) v)
        (.exists fun apk => .assume fun hdirectory => ?_) fun v hv => by
          obtain ⟨hpath, apk, hapk, hdirectory⟩ := hv.1 z rfl
          exact ⟨apk, ⟨hpath, hdirectory⟩, hopened v apk hv.2 hapk⟩
      refine triple_bind (hpreflight apk z) fun ready => triple_ite
        (fun _ => triple_bind hany fun _ => hnone) fun _ => ?_
      refine triple_bind (hvisit apk z hdirectory.1 hdirectory.2) fun r => ?_
      obtain ⟨ok, st⟩ := r
      refine triple_bind (R := fun _ v => ok = true → ∃ es, apkEntries apk = some es ∧
        At (B apk es st) v)
        (triple_fcloseRead fun v hv => ⟨hv, trivial⟩) fun _ => ?_
      refine triple_bind (R := fun present v => present = true → ∃ es, apkEntries apk = some es ∧
        At (B apk es st) v) (triple_ite (fun hok => ?_) fun _ => triple_pure fun v hv => nofun)
        fun present => triple_ite (fun _ => triple_bind hany fun _ => hnone) fun hpresent =>
          triple_pure fun v hv _ => ?_
      · exact (triple_allPresent runtimeFiles).mono (fun v hv => hv hok) (fun _ _ hv _ => hv.2)
          fun _ _ => trivial
      · rw [not_or, Bool.not_eq_true, Bool.not_eq_false'] at hpresent
        obtain ⟨es, hes, hv⟩ := hv hpresent.1
        refine ⟨apk, es, st, hes, fun hnone => hpresent.2 ?_, hv⟩
        rw [hnone]
        rfl

/-- What the installation of `game.apk` has extracted is noted. -/
theorem triple_extractGame_notes (hdecodes : Z.Decodes decode) :
    Triple (fun v => v.rest.notes = base) (extractGame Z rounds)
      (fun r v => r.isSome → ∃ apk es st, apkEntries apk = some es ∧ st.seen ≠ [] ∧
        At (Extracting decode apk base es st) v)
      fun _ => True := by
  refine triple_extractGame_of (A := fun apk => Extracting decode apk base [] ⟨0, []⟩)
    (B := fun apk es st => Extracting decode apk base es st) (fun v apk hv hapk => ?_)
    (fun apk z => ?_)
    fun apk z hpath hdirectory => triple_visit_notes hdecodes hpath hdirectory
  · exact ⟨hapk, [], by rw [List.append_nil]; exact hv, nofun, fun hseen => absurd rfl hseen⟩
  · exact (works_installerPreflight roomy_besidesApk).extracting.mono (fun _ hv => hv)
      (fun _ _ hv => hv)
      fun _ _ => trivial

end Extracting

/-! ## Removing what has been extracted -/

/-- The installation is marked complete, and the files that are asked for are there. -/
def Complete (files : Contents) : Prop :=
  ∀ name ∈ installMarker :: runtimeFiles, ∃ content, files (resolve name) =
    some content ∧ content ≠ []

/-- The note is of the work of a run. -/
def Note.IsWork : Note → Prop
  | .extracting _ _ | .extracted _ _ _ | .fastPath _ => True
  | _ => False

/-- A run with these notes may remove `game.apk`: it has found an installation that is complete, or
has extracted all entries of that very file. -/
def MayRemove (decode : Bytes → Option Bytes) (apk : Option Bytes) (during : List Note) : Prop :=
  (∃ files, .fastPath files ∈ during ∧ Complete files) ∨
    ∃ content es, apk = some content ∧ apkEntries content = some es ∧
      ExtractedAll decode content es during

section Removing

variable {Z : Inflater} {data : CreditsData} {decode : Bytes → Option Bytes} {rounds : Nat}
  {apk : Option Bytes} {notes₀ during more : List Note} {φ : List Note → Prop} {α : Type}
    {p : Install α}

/-- The run that began after the notes `notes₀` has left `game.apk` alone so far. -/
def Working (notes₀ : List Note) (apk : Option Bytes) (φ : List Note → Prop)
    (v : View Memory) : Prop :=
  ∃ during, v.rest.notes = notes₀ ++ .started :: during ∧ (∀ n ∈ during, n.IsWork) ∧
    v.files (resolve installApk) = apk ∧ φ during

/-- The run has come to remove `game.apk`. -/
def Removing (decode : Bytes → Option Bytes) (notes₀ : List Note) (apk : Option Bytes)
    (v : View Memory) :
    Prop :=
  ∃ during files, v.rest.notes = notes₀ ++ .started :: during ++ [.removing files] ∧
    (∀ n ∈ during, n.IsWork) ∧ files (resolve installApk) = apk ∧ MayRemove decode apk during

/-- What a run can lead to. -/
def RunEnds (decode : Bytes → Option Bytes) (notes₀ : List Note) (apk : Option Bytes)
    (v : View Memory) :
    Prop :=
  Working notes₀ apk (fun _ => True) v ∨ Removing decode notes₀ apk v

theorem MayRemove.append (h : MayRemove decode apk during) (more : List Note) :
    MayRemove decode apk (during ++ more) := by
  rcases h with ⟨files, hmem, h⟩ | ⟨content, es, hapk, hes, hall⟩
  · exact .inl ⟨files, List.mem_append_left _ hmem, h⟩
  · exact .inr ⟨content, es, hapk, hes, hall.append more⟩

theorem Note.Of.isWork {K : Set Path} {files : Contents} {n : Note} (h : n.Of K files) :
    n.IsWork := by
  cases n with
  | extracting | extracted | fastPath => trivial
  | placed | started | removing => exact h

theorem Working.ends {v : View Memory} (h : Working notes₀ apk φ v) :
    RunEnds decode notes₀ apk v := by
  obtain ⟨during, hnotes, hwork, hapk, -⟩ := h
  exact .inl ⟨during, hnotes, hwork, hapk, trivial⟩

theorem Works.working (h : Works besidesApk ∅ p) (hφ : ∀ during more, φ during →
    φ (during ++ more)) :
    Triple (Working notes₀ apk φ) p (fun _ => Working notes₀ apk φ) (Working notes₀ apk φ) := by
  refine Moves.keeps h fun w w' hworked hw => ?_
  obtain ⟨during, hnotes, hwork, hapk, hφ'⟩ := hw
  obtain ⟨more, hmore, hof, -⟩ := hworked.notes
  refine ⟨during ++ more, ?_, fun n hn => ?_, hworked.apk_eq.trans hapk, hφ _ _ hφ'⟩
  · rw [hmore, hnotes, List.append_assoc, List.cons_append]
  · rcases List.mem_append.1 hn with hn | hn
    · exact hwork n hn
    · exact (hof n hn).isWork

/-- The rule for a part of the run. -/
theorem triple_work {β : Type} {f : α → Install β} {Q : β → View Memory → Prop}
    (h : Works besidesApk ∅ p) (hφ : ∀ during more, φ during → φ (during ++ more))
    (hf : ∀ a, Triple (Working notes₀ apk φ) (f a) Q (RunEnds decode notes₀ apk)) :
    Triple (Working notes₀ apk φ) (p >>= f) Q (RunEnds decode notes₀ apk) :=
  triple_bind ((h.working hφ).mono (fun _ hv => hv) (fun _ _ hv => hv) fun _ hv => hv.ends) hf

/-- `remove_install_media_if_safe` removes what may be removed. -/
theorem triple_removeInstallMediaIfSafe :
    Triple (Working notes₀ apk (MayRemove decode apk)) removeInstallMediaIfSafe
      (fun _ => RunEnds decode notes₀ apk) (RunEnds decode notes₀ apk) := by
  have hleave : Triple (Working notes₀ apk (MayRemove decode apk)) (pure () : Install Unit)
      (fun _ => RunEnds decode notes₀ apk) (RunEnds decode notes₀ apk) :=
        triple_pure fun v hv => hv.ends
  have hlook : ∀ name, Works besidesApk ∅ (fileExistsNonempty name) := fun _ =>
    works_of_stays stays_fileExistsNonempty
  have hφ : ∀ during more, MayRemove decode apk during → MayRemove decode apk (during ++ more) :=
    fun _ more h => h.append more
  refine triple_work (hlook _) hφ fun _ => triple_ite (fun _ => hleave) fun _ => ?_
  refine triple_work (hlook _) hφ fun _ => triple_ite (fun _ => hleave) fun _ => ?_
  refine triple_work (works_of_stays (stays_allPresent _)) hφ fun _ =>
    triple_ite (fun _ => hleave) fun _ => ?_
  refine triple_work (hlook _) hφ fun _ => triple_ite (fun _ => hleave) fun _ => ?_
  refine triple_bind (R := fun _ => Removing decode notes₀ apk)
    (triple_update fun w hw => ?_) fun _ => ?_
  · obtain ⟨during, hnotes, hwork, hapk, hmay⟩ := hw
    refine ⟨during, w.fs.file, ?_, hwork, hapk, hmay⟩
    show w.rest.notes ++ _ = _
    rw [show w.rest.notes = _ from hnotes]
  · exact triple_bind (R := fun _ => Removing decode notes₀ apk)
      (triple_remove (fun v e hv => ⟨hv, .inr hv⟩)
      fun v content hv _ => ⟨hv, .inr hv⟩) fun _ => triple_pure fun v hv => .inr hv

/-- An installation that has extracted `game.apk` may remove it. -/
theorem triple_extractGame (hdecodes : Z.Decodes decode) :
    Triple (Working notes₀ apk fun _ => True) (extractGame Z rounds)
      (fun r v => if r.isSome then Working notes₀ apk (MayRemove decode apk) v
        else Working notes₀ apk (fun _ => True) v) (RunEnds decode notes₀ apk) := by
  refine Triple.pre (P := fun v => ∃ before, (∀ n ∈ before, n.IsWork) ∧
    (v.rest.notes = notes₀ ++ .started :: before ∧ Working notes₀ apk (fun _ => True) v))
    (.exists fun before => .assume fun hbefore => ?_) fun v hv => by
      obtain ⟨before, hnotes, hwork, hv⟩ := hv
      exact ⟨before, hwork, hnotes, before, hnotes, hwork, hv⟩
  refine ((triple_extractGame_notes hdecodes).and ((works_extractGame roomy_besidesApk).working
    fun _ _ _ => trivial)).mono (fun _ hv => hv) (fun r v hv => ?_) fun v hv => hv.2.ends
  obtain ⟨hextracted, hworking⟩ := hv
  cases r with
  | none => exact hworking
  | some st =>
      obtain ⟨content, es, st', hes, -, hcontent, during, hnotes, hall, -⟩ := hextracted rfl
      obtain ⟨during', hnotes', hwork, hapk, -⟩ := hworking
      refine ⟨during', hnotes', hwork, hapk, .inr ⟨content, es, hapk.symm.trans hcontent, hes, ?_⟩⟩
      have hduring : during' = before ++ during := by
        rw [hnotes, List.append_assoc, List.cons_append] at hnotes'
        exact (List.cons.inj (List.append_cancel_left hnotes')).2.symm
      intro e he target htarget
      obtain ⟨files, content', hmem, h⟩ := hall e he target htarget
      exact ⟨files, content', hduring ▸ List.mem_append_right _ hmem, h⟩

/-- The first installation removes only what it has extracted. -/
theorem triple_installGame (hdecodes : Z.Decodes decode) :
    Triple (Working notes₀ apk fun _ => True) (installGame Z data rounds)
      (fun _ => RunEnds decode notes₀ apk)
      (RunEnds decode notes₀ apk) := by
  have hfail : ∀ {φ : List Note → Prop} {b : Bool},
    Triple (Working notes₀ apk φ) (pure b : Install Bool)
      (fun _ => RunEnds decode notes₀ apk) (RunEnds decode notes₀ apk) :=
        triple_pure fun v hv => hv.ends
  have htrue : ∀ during more : List Note, True → True := fun _ _ _ => trivial
  have hφ : ∀ during more, MayRemove decode apk during → MayRemove decode apk (during ++ more) :=
    fun _ more h => h.append more
  have hdirectory : ∀ name, Works besidesApk ∅ (ensureDirectory name) := fun _ =>
    works_of_stays stays_ensureDirectory
  refine triple_work (works_of_stays stays_verifyGameApkBasic) htrue fun _ =>
    triple_ite (fun _ => hfail)
    fun _ => ?_
  refine triple_work (hdirectory _) htrue fun _ => triple_ite (fun _ => hfail) fun _ => ?_
  refine triple_work (hdirectory _) htrue fun _ => triple_ite (fun _ => hfail) fun _ => ?_
  refine triple_bind (triple_extractGame hdecodes) fun r => ?_
  cases r with
  | none => exact hfail.pre fun v hv => hv
  | some st =>
      refine Triple.pre (P := Working notes₀ apk (MayRemove decode apk)) ?_ fun v hv => hv
      refine triple_work (works_prepareCaches roomy_besidesApk ?_) hφ fun _ =>
        triple_ite (fun _ => hfail)
        fun _ => ?_
      · refine works_bind (works_of_stays stays_fileExistsNonempty) fun _ => moves_ite (fun _ => ?_)
          fun _ => works_pure _
        exact works_of_stays stays_fails
      refine triple_work (works_creditsPatchApply roomy_besidesApk) hφ fun _ => ?_
      refine triple_work (works_of_stays (stays_writeRuntimeInstallMarker ?_ ?_)) hφ fun _ =>
        triple_ite
        (fun _ => hfail) fun _ => ?_
      · exact ⟨show resolve installMarker ≠ resolve installApk by decide +kernel, id⟩
      · exact ⟨show resolve (tmpOf installMarker) ≠ resolve installApk by decide +kernel, id⟩
      exact triple_bind triple_removeInstallMediaIfSafe fun _ => triple_pure fun v hv => hv

/-- Whatever fails, a run removes only what it may. -/
theorem triple_prepare (hdecodes : Z.Decodes decode) :
    Triple (fun v => v.rest.notes = notes₀ ∧ v.files (resolve installApk) = apk)
      (installerPrepareGameFiles Z data rounds) (fun _ => RunEnds decode notes₀ apk)
      (RunEnds decode notes₀ apk) := by
  have htrue : ∀ during more : List Note, True → True := fun _ _ _ => trivial
  have hφ : ∀ during more, MayRemove decode apk during → MayRemove decode apk (during ++ more) :=
    fun _ more h => h.append more
  refine triple_bind (R := fun _ => Working notes₀ apk fun _ => True)
    (triple_update fun w hw => ?_) fun _ => ?_
  · refine ⟨[], ?_, List.forall_mem_nil _, hw.2, trivial⟩
    show w.rest.notes ++ _ = _
    rw [show w.rest.notes = _ from hw.1]
  refine triple_work (works_of_stays (stays_modifyMemory fun _ => rfl)) htrue fun _ => ?_
  refine triple_bind (triple_fileExistsNonempty.mono (fun _ hv => hv) (fun _ _ hv => hv) fun _ hv =>
    hv.ends)
    fun marked => ?_
  refine triple_bind (R := fun present v => (present = true → Complete v.files) ∧
    Working notes₀ apk (fun _ => True) v) (triple_ite (fun hmarked => ?_) fun _ =>
      triple_pure fun v hv => ⟨fun h => absurd h Bool.false_ne_true, hv.2⟩) fun present => ?_
  · refine (triple_allPresent runtimeFiles).mono (fun _ hv => hv)
      (fun present v hv => ⟨fun hpresent => ?_, hv.2.2⟩)
      fun v hv => hv.2.ends
    exact List.forall_mem_cons.2 ⟨hv.2.1 hmarked, hv.1 hpresent⟩
  refine triple_ite (fun hpresent => ?_) fun _ => (triple_installGame hdecodes).pre fun v hv => hv.2
  refine triple_bind (R := fun _ => Working notes₀ apk (MayRemove decode apk))
    (triple_update fun w hw => ?_)
    fun _ => ?_
  · obtain ⟨hcomplete, during, hnotes, hwork, hapk, -⟩ := hw
    refine ⟨during ++ [.fastPath w.fs.file], ?_, fun n hn =>
      ?_, hapk, .inl ⟨w.fs.file, by simp, hcomplete hpresent⟩⟩
    · show w.rest.notes ++ _ = _
      rw [show w.rest.notes = _ from hnotes, List.append_assoc, List.cons_append]
    · rcases List.mem_append.1 hn with hn | hn
      · exact hwork n hn
      · rw [List.mem_singleton.1 hn]
        trivial
  refine triple_work (works_prepareCaches roomy_besidesApk (works_pure _)) hφ fun _ => triple_ite
    (fun _ => triple_pure fun v hv => hv.ends) fun _ => ?_
  refine triple_work (works_creditsPatchApply roomy_besidesApk) hφ fun _ => ?_
  exact triple_bind triple_removeInstallMediaIfSafe fun _ => triple_pure fun v hv => hv

end Removing

/-! ## Histories -/

/-- The user puts a `game.apk` in place. -/
def place (apk : Bytes) (w : World Memory) : World Memory :=
  let fs := w.fs.put (resolve installApk) apk
  ⟨fs, w.renames, { w.rest with notes := w.rest.notes ++ [.placed fs.file] }⟩

/-- The installer is started: its variables have their initial values. -/
def restart (w : World Memory) : World Memory :=
  { w with rest := { Memory.init with notes := w.rest.notes } }

/-- A run of the installer. -/
def runInstaller (Z : Inflater) (data : CreditsData) (rounds : Nat) (decisions : Nat → Decision)
    (w : World Memory) : World Memory :=
  ((installerPrepareGameFiles Z data rounds).run decisions (restart w)).2

/-- What happens next: another `game.apk`, or a run of the installer. -/
inductive Event (Z : Inflater) (data : CreditsData) (w : World Memory) : World Memory → Prop
  | placed (apk : Bytes) : Event Z data w (place apk w)
  | run (rounds : Nat) (decisions : Nat → Decision) :
    Event Z data w (runInstaller Z data rounds decisions w)

/-- One event after the other. -/
def History (Z : Inflater) (data : CreditsData) : World Memory → World Memory → Prop :=
  Relation.ReflTransGen (Event Z data)

/-- Each time `game.apk` has been removed, the run had found a complete installation or had
extracted all selected entries of that very file. -/
def Justified (decode : Bytes → Option Bytes) (notes : List Note) : Prop :=
  ∀ before files after, notes = before ++ .removing files :: after →
    ∃ earlier during, before = earlier ++ .started :: during ∧ (∀ n ∈ during, n.IsWork) ∧
      MayRemove decode (files (resolve installApk)) during

section Histories

variable {Z : Inflater} {data : CreditsData} {decode : Bytes → Option Bytes} {notes : List Note}

theorem Justified.snoc {n : Note} (h : Justified decode notes)
    (hn : ∀ files, n = .removing files → ∃ earlier during, notes = earlier ++ .started :: during ∧
      (∀ n ∈ during, n.IsWork) ∧ MayRemove decode (files (resolve installApk)) during) :
    Justified decode (notes ++ [n]) := by
  intro before files after hsplit
  rcases split_snoc hsplit with ⟨rfl, hlast⟩ | ⟨between, hbetween⟩
  · exact hn files hlast.symm
  · exact h before files between hbetween

/-- Notes of other things. -/
theorem Justified.append {more : List Note} (h : Justified decode notes)
    (hmore : ∀ n ∈ more, ∀ files, n ≠ .removing files) : Justified decode (notes ++ more) := by
  intro before files after hsplit
  obtain ⟨between, hbetween⟩ := split_append hsplit fun hmem => hmore _ hmem files rfl
  exact h before files between hbetween

theorem Note.IsWork.ne_removing {n : Note} (h : n.IsWork) (files : Contents) : n ≠
    .removing files := by
  rintro rfl
  exact h

theorem Justified.working {during : List Note} (h : Justified decode notes)
    (hwork : ∀ n ∈ during, n.IsWork) : Justified decode (notes ++ .started :: during) := by
  refine h.append fun n hn files => ?_
  rcases List.mem_cons.1 hn with rfl | hn
  · nofun
  · exact (hwork n hn).ne_removing files

/-- A run leaves `game.apk` alone, or removes what it may. -/
theorem runInstaller_ends (hdecodes : Z.Decodes decode) (rounds : Nat) (decisions : Nat → Decision)
    (w : World Memory) : RunEnds decode w.rest.notes (w.fs.file (resolve installApk))
      (runInstaller Z data rounds decisions w).view :=
  Spec.world (triple_prepare hdecodes) decisions (w := restart w) ⟨rfl, rfl⟩

/-- The step: what happens next. -/
theorem Justified.event (hdecodes : Z.Decodes decode) {w w' : World Memory}
    (h : Justified decode w.rest.notes) (hevent : Event Z data w w') :
    Justified decode w'.rest.notes := by
  cases hevent with
  | placed apk =>
      refine h.append fun n hn files => ?_
      rw [List.mem_singleton.1 hn]
      nofun
  | run rounds decisions =>
      have hends : RunEnds decode w.rest.notes _ (runInstaller Z data rounds decisions w).view :=
        runInstaller_ends hdecodes rounds decisions w
      rcases hends with hworking | hremoving
      · obtain ⟨during, hnotes, hwork, -⟩ := hworking
        rw [show (runInstaller Z data rounds decisions w).rest.notes = _ from hnotes]
        exact h.working hwork
      · obtain ⟨during, files, hnotes, hwork, hapk, hmay⟩ := hremoving
        rw [show (runInstaller Z data rounds decisions w).rest.notes = _ from hnotes]
        refine (h.working hwork).snoc fun files' hfiles => ⟨w.rest.notes, during, rfl, hwork, ?_⟩
        obtain rfl := Note.removing.inj hfiles
        rw [hapk]
        exact hmay

theorem Justified.history (hdecodes : Z.Decodes decode) {w w' : World Memory}
    (h : Justified decode w.rest.notes) (hhistory : History Z data w w') :
    Justified decode w'.rest.notes := by
  induction hhistory with
  | refl => exact h
  | tail _ hevent ih => exact ih.event hdecodes hevent

end Histories

/-- In every history, whatever fails, each removal of `game.apk` by `remove_install_media_if_safe`
is justified, and no run takes it away in another way. -/
theorem removal_justified {Z : Inflater} {decode : Bytes → Option Bytes}
    (hdecodes : Z.Decodes decode)
    (data : CreditsData) {w₀ w : World Memory} (hfresh : w₀.rest.notes = [])
    (hhistory : History Z data w₀ w) :
    Justified decode w.rest.notes ∧
    ∀ rounds decisions apk, Holding (resolve installApk) apk w →
      ¬ Holding (resolve installApk) apk (runInstaller Z data rounds decisions w) →
      ∃ during files, (runInstaller Z data rounds decisions w).rest.notes =
          w.rest.notes ++ .started :: during ++ [.removing files] ∧
        files (resolve installApk) = some apk := by
  have hnone : Justified decode w₀.rest.notes := by
    intro before files after hsplit
    rw [hfresh] at hsplit
    cases before <;> cases hsplit
  refine ⟨hnone.history hdecodes hhistory, fun rounds decisions apk hthere hgone => ?_⟩
  have hends : RunEnds decode w.rest.notes _ (runInstaller Z data rounds decisions w).view :=
    runInstaller_ends hdecodes rounds decisions w
  rcases hends with hworking | hremoving
  · obtain ⟨during, -, -, hapk, -⟩ := hworking
    exact absurd (hapk.trans hthere) hgone
  · obtain ⟨during, files, hnotes, -, hapk, -⟩ := hremoving
    exact ⟨during, files, hnotes, hapk.trans hthere⟩

/-! ## Removing what has not been extracted -/

/-- A manifest with nothing but the package of the game. -/
def plainManifest : Bytes :=
  -- the file, and the pool with its three strings
  [0x03, 0, 0x08, 0, 156, 0, 0, 0] ++
    [0x01, 0, 0x1c, 0, 92, 0, 0, 0, 3, 0, 0, 0, 0, 0, 0, 0, 0, 1, 0, 0, 40, 0, 0, 0, 0, 0, 0, 0] ++
    [0, 0, 0, 0, 11, 0, 0, 0, 21, 0, 0, 0] ++
    [8, 8] ++ bytes "manifest" ++ [0] ++
    [7, 7] ++ bytes "package" ++ [0] ++
    [26, 26] ++ gamePackage ++ [0, 0, 0] ++
    -- the element with its attribute
    [0x02, 0x01, 0x10, 0, 56, 0, 0, 0, 0, 0, 0, 0, 0, 0, 0, 0] ++
    [0xff, 0xff, 0xff, 0xff, 0, 0, 0, 0, 20, 0, 20, 0, 1, 0, 0, 0, 0, 0, 0, 0] ++
    [0xff, 0xff, 0xff, 0xff, 1, 0, 0, 0, 2, 0, 0, 0, 8, 0, 0, 3, 2, 0, 0, 0]

/-- What is in the runtime directory when an installation is complete; most files have one byte. -/
def completeFiles : List (Bytes × Bytes) :=
  let guid := List.replicate 36 97
  [(manifestName, plainManifest), (guidName, guid), (bytes "files/il2cpp/unity.ver", guid),
    (bytes ".installed-1.2.8.1", markerText 12)] ++
  [libMain, libUnity, libIl2cpp, metadataName, dataName, resourcesName, mscorlibName,
    systemDataName,
    systemDrawingName, englishName, bytes "files/il2cpp/Metadata/global-metadata.dat",
    bytes "files/il2cpp/Resources/mscorlib.dll-resources.dat",
    bytes "files/il2cpp/Resources/System.Data.dll-resources.dat",
    bytes "files/il2cpp/Resources/System.Drawing.dll-resources.dat",
    bytes "files/downloaded/live_English.bytes"].map fun name => (name, [97])

/-- The directories of these files. -/
def completeDirectories : List Bytes :=
  [bytes "sdmc:", bytes "sdmc:/switch", gameHome, dataRoot] ++
  [bytes "assets", bytes "assets/bin", bytes "assets/bin/Data", bytes "assets/bin/Data/Managed",
    bytes "assets/bin/Data/Managed/Metadata", bytes "assets/bin/Data/Managed/Resources",
    bytes "assets/local", bytes "files", bytes "files/il2cpp", bytes "files/il2cpp/Metadata",
    bytes "files/il2cpp/Resources", bytes "files/downloaded"].map inDataRoot

/-- The world that an installation leaves when the power stays on and nothing fails. -/
def completeWorld : World Memory :=
  ⟨completeFiles.foldl (fun fs file => fs.put (resolve (inDataRoot file.1)) file.2)
    (completeDirectories.foldl (fun fs name => fs.insert (resolve name) .dir) ∅), [], .init⟩

def noCredits : CreditsData where
  gCreditsBlockinfo := List.replicate creditsNewCbiSize 0
  gCreditsBlock325 := List.replicate creditsNewBlockSize 0
  blockinfo_size := List.length_replicate
  block_size := List.length_replicate

/-- Another `game.apk` is put in place of the one that has been installed, and the installer is
started. -/
def reinstalledWorld : World Memory :=
  runInstaller (.ofStream [] []) noCredits 0 (fun _ => .good)
    (place (archiveOfA [manifestName]) completeWorld)

theorem history_reinstalledWorld : History (.ofStream [] []) noCredits completeWorld
    reinstalledWorld :=
  .tail (.single (.placed _)) (.run _ _)

theorem removal_justified_reinstalled : Justified (decodeStream [] [])
    reinstalledWorld.rest.notes :=
  (removal_justified Inflater.ofStream_decodes noCredits (w := reinstalledWorld) rfl
    history_reinstalledWorld).1

/-- Whenever `game.apk` is removed, all selected entries of that very file have been extracted
since the file was put in place. -/
def ExtractedFirst (decode : Bytes → Option Bytes) (notes : List Note) : Prop :=
  ∀ before files after apk es, notes = before ++ .removing files :: after →
    files (resolve installApk) = some apk → apkEntries apk = some es →
    ∃ earlier since, before = earlier ++ since ∧ (∀ n ∈ since, ∀ files, n ≠ .placed files) ∧
      ExtractedAll decode apk es since

/-- What a note says of the file that is removed. -/
def Note.removed : Note → Option Bytes
  | .removing files => files (resolve installApk)
  | _ => none

def Note.isExtraction : Note → Bool
  | .extracted _ _ _ => true
  | _ => false

/-- The archive that has been put in place is removed, and nothing of it has been extracted. -/
theorem reinstalled_unextracted : reinstalledWorld.fs.file (resolve installApk) = none ∧
    ¬ ∀ (Z : Inflater) (decode : Bytes → Option Bytes) (data : CreditsData) (w₀ w : World Memory),
      Z.Decodes decode → w₀.rest.notes = [] → History Z data w₀ w →
        ExtractedFirst decode w.rest.notes := by
  refine ⟨by decide +kernel, fun h => ?_⟩
  have hfirst : ExtractedFirst (decodeStream [] []) reinstalledWorld.rest.notes :=
    h _ _ noCredits completeWorld _ Inflater.ofStream_decodes rfl history_reinstalledWorld
  have hremoved : reinstalledWorld.rest.notes.map Note.removed =
      [none, none, none] ++ [some (archiveOfA [manifestName])] := by decide +kernel
  have hnothing : reinstalledWorld.rest.notes.all (fun n => !n.isExtraction) = true := by
    decide +kernel
  have htargets : (apkEntries (archiveOfA [manifestName])).map (List.map fun e =>
    (installEntryTarget e).target) =
      some [some (inDataRoot manifestName)] := by decide +kernel
  obtain ⟨before, last, hnotes, -, hlast⟩ := List.map_eq_append_iff.1 hremoved
  obtain ⟨n, rfl, hn⟩ := List.map_eq_singleton_iff.1 hlast
  obtain ⟨es, hes, htargets⟩ := Option.map_eq_some_iff.1 htargets
  obtain ⟨e, rfl, htarget⟩ := List.map_eq_singleton_iff.1 htargets
  cases n with
  | removing files =>
      obtain ⟨earlier, since, rfl, -, hall⟩ := hfirst before files [] _ _ hnotes hn hes
      obtain ⟨files', content, hmem, -⟩ := hall e List.mem_cons_self _ htarget
      rw [hnotes] at hnothing
      have hextracted := List.all_eq_true.1 hnothing (.extracted files' e (inDataRoot manifestName))
        (List.mem_append_left _ (List.mem_append_right _ hmem))
      cases hextracted
  | placed | started | fastPath | extracting | extracted => cases hn

end Asnx.Installer
