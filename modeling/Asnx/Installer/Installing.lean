import Asnx.Installer.ValidEntries

/-!
# Installing an archive

What the entries of an archive leave behind when all of them have been extracted (`triple_install`).
Each is written through the `.tmp` sibling of its target, and the sibling may be the target of
another entry. So an entry keeps its file unless a later one takes it, and the entries that come
later decide (`install_postcondition_iff`).
-/

namespace Asnx.Installer

open Interrupted Files Zlib

/-- The target of a selected entry. -/
def Selection.target : Selection → Option Bytes
  | .select target _ => some target
  | _ => none

section Installing

variable {Z : Inflater} {decode : Bytes → Option Bytes} {apk : Bytes} {files₀ : Contents}
  {e : ZipEntry} {es : List ZipEntry} {target : Bytes} {p : Path} {content : Bytes}

/-! ## One entry after the other -/

/-- The files after an entry has been extracted. -/
def extractOne (decode : Bytes → Option Bytes) (apk : Bytes) (files : Contents) (e : ZipEntry) :
    Contents :=
  match (installEntryTarget e).target with
  | some target => Function.update (Function.update files (resolve (tmpOf target)) none)
      (resolve target) (entryBytes decode apk e)
  | none => files

/-- The files after the entries have been extracted in order. -/
def extractAll (decode : Bytes → Option Bytes) (apk : Bytes) (files : Contents)
    (es : List ZipEntry) : Contents :=
  es.foldl (extractOne decode apk) files

/-- Extracting the entry writes to the file at `p`, as its target or as the sibling. -/
def Takes (e : ZipEntry) (p : Path) : Prop :=
  ∃ target, (installEntryTarget e).target = some target ∧
    (p = resolve target ∨ p = resolve (tmpOf target))

theorem extractOne_target (h : (installEntryTarget e).target = some target) (files : Contents) :
    extractOne decode apk files e (resolve target) = entryBytes decode apk e := by
  unfold extractOne
  rw [h]
  exact Function.update_self ..

theorem extractOne_sibling (h : (installEntryTarget e).target = some target) (files : Contents) :
    extractOne decode apk files e (resolve (tmpOf target)) = none := by
  unfold extractOne
  rw [h]
  dsimp only
  rw [Function.update_of_ne (tmpOf_ne target), Function.update_self]

theorem extractOne_other (h : ¬ Takes e p) (files : Contents) :
    extractOne decode apk files e p = files p := by
  unfold extractOne
  cases htarget : (installEntryTarget e).target with
  | none => rfl
  | some target =>
      have hne : p ≠ resolve target := fun hp => h ⟨target, htarget, .inl hp⟩
      have hne' : p ≠ resolve (tmpOf target) := fun hp => h ⟨target, htarget, .inr hp⟩
      dsimp only
      rw [Function.update_of_ne hne, Function.update_of_ne hne']

theorem extractAll_other (h : ∀ e ∈ es, ¬ Takes e p) (files : Contents) :
    extractAll decode apk files es p = files p := by
  induction es generalizing files with
  | nil => rfl
  | cons e es ih =>
      have hrest := ih (fun e' he' => h e' (List.mem_cons_of_mem _ he'))
        (extractOne decode apk files e)
      rw [extractOne_other (h e List.mem_cons_self)] at hrest
      exact hrest

/-- The last entry that takes a file decides about it. -/
theorem extractAll_last {before after : List ZipEntry} (h : ∀ e ∈ after, ¬ Takes e p)
    (files : Contents) : extractAll decode apk files (before ++ e :: after) p =
      extractOne decode apk (extractAll decode apk files before) e p := by
  unfold extractAll
  rw [List.foldl_append, List.foldl_cons]
  exact extractAll_other h _

/-- Of the elements with a property there is a last one. -/
theorem exists_last {α : Type} {p : α → Prop} {as : List α} (h : ∃ a ∈ as, p a) :
    ∃ before last after, as = before ++ last :: after ∧ p last ∧ ∀ a ∈ after, ¬ p a := by
  induction as with
  | nil =>
      obtain ⟨a, ha, -⟩ := h
      cases ha
  | cons first as ih =>
      by_cases hlater : ∃ a ∈ as, p a
      · obtain ⟨before, last, after, rfl, hlast, hafter⟩ := ih hlater
        exact ⟨first :: before, last, after, rfl, hlast, hafter⟩
      · have hafter : ∀ a ∈ as, ¬ p a := fun a ha hpa => hlater ⟨a, ha, hpa⟩
        obtain ⟨a, ha, hpa⟩ := h
        rcases List.mem_cons.1 ha with rfl | ha
        · exact ⟨[], a, as, rfl, hpa, hafter⟩
        · exact absurd hpa (hafter a ha)

/-! ## Who keeps a file -/

/-- The last entry that takes the file at `p` has it as its target, with these bytes. -/
def EndsWith (decode : Bytes → Option Bytes) (apk : Bytes) (es : List ZipEntry) (p : Path)
    (content : Bytes) : Prop :=
  ∃ before last after target, es = before ++ last :: after ∧ (∀ e ∈ after, ¬ Takes e p) ∧
    (installEntryTarget last).target = some target ∧ resolve target = p ∧
    entryBytes decode apk last = some content

/-- No later entry takes the target of a selected entry, or the last one that does has it as its own
target and has the same bytes. -/
def Kept (decode : Bytes → Option Bytes) (apk : Bytes) (es : List ZipEntry) : Prop :=
  ∀ e ∈ es, ∀ target, (installEntryTarget e).target = some target →
    ∃ content, entryBytes decode apk e = some content ∧
      EndsWith decode apk es (resolve target) content

/-- The target of every selected entry holds the bytes of the entry. -/
def Installed (decode : Bytes → Option Bytes) (apk : Bytes) (es : List ZipEntry)
    (files : Contents) : Prop :=
  ∀ e ∈ es, ∀ target, (installEntryTarget e).target = some target →
    ∃ content, entryBytes decode apk e = some content ∧ files (resolve target) = some content

theorem takes_target (h : (installEntryTarget e).target = some target) : Takes e (resolve target) :=
  ⟨target, h, .inl rfl⟩

/-- A file that some entry takes holds in the end what the last one leaves there. -/
theorem extractAll_eq_some_iff (h : ∃ e ∈ es, Takes e p) (files : Contents) :
    extractAll decode apk files es p = some content ↔ EndsWith decode apk es p content := by
  constructor
  · intro hcontent
    obtain ⟨before, last, after, rfl, ⟨target, htarget, hp⟩, hafter⟩ := exists_last h
    rw [extractAll_last hafter] at hcontent
    rcases hp with rfl | rfl
    · rw [extractOne_target htarget] at hcontent
      exact ⟨before, last, after, target, rfl, hafter, htarget, rfl, hcontent⟩
    · rw [extractOne_sibling htarget] at hcontent
      cases hcontent
  · rintro ⟨before, last, after, target, rfl, hafter, htarget, rfl, hbytes⟩
    rw [extractAll_last hafter, extractOne_target htarget, hbytes]

/-- Every selected entry keeps its file if and only if the condition on the archive holds. -/
theorem installed_extractAll (files : Contents) :
    Installed decode apk es (extractAll decode apk files es) ↔ Kept decode apk es := by
  refine forall₂_congr fun e he => forall₂_congr fun target htarget => exists_congr fun content =>
    and_congr_right fun _ => ?_
  exact extractAll_eq_some_iff ⟨e, he, takes_target htarget⟩ files

/-- Two entries have targets that are different files. -/
def TargetsDiffer (e e' : ZipEntry) : Prop :=
  ∀ target target', (installEntryTarget e).target = some target →
    (installEntryTarget e').target = some target' → resolve target ≠ resolve target'

/-- The first of two entries has another target than the `.tmp` sibling of the second one. -/
def SparedBy (e later : ZipEntry) : Prop :=
  ∀ target target', (installEntryTarget e).target = some target →
    (installEntryTarget later).target = some target' → resolve target ≠ resolve (tmpOf target')

instance : DecidableRel TargetsDiffer := fun e e' =>
  decidable_of_iff (∀ target ∈ (installEntryTarget e).target,
    ∀ target' ∈ (installEntryTarget e').target,
    resolve target ≠ resolve target')
    ⟨fun h target target' htarget htarget' => h target htarget target' htarget',
      fun h target htarget target' htarget' => h target target' htarget htarget'⟩

instance : DecidableRel SparedBy := fun e later =>
  decidable_of_iff (∀ target ∈ (installEntryTarget e).target,
    ∀ target' ∈ (installEntryTarget later).target,
    resolve target ≠ resolve (tmpOf target'))
    ⟨fun h target target' htarget htarget' => h target htarget target' htarget',
      fun h target htarget target' htarget' => h target target' htarget htarget'⟩

theorem sparedBy_iff {later : ZipEntry} (h : TargetsDiffer e later)
    (htarget : (installEntryTarget e).target = some target) :
    SparedBy e later ↔ ¬ Takes later (resolve target) := by
  constructor
  · rintro hspared ⟨target', htarget', heq | heq⟩
    · exact h _ _ htarget htarget' heq
    · exact hspared _ _ htarget htarget' heq
  · intro htakes target₁ target' htarget₁ htarget' heq
    obtain rfl : target = target₁ := Option.some.inj (htarget.symm.trans htarget₁)
    exact htakes ⟨target', htarget', .inr heq⟩

/-- Every selected entry has bytes. -/
def Readable (decode : Bytes → Option Bytes) (apk : Bytes) (es : List ZipEntry) : Prop :=
  ∀ e ∈ es, ∀ target, (installEntryTarget e).target = some target →
    ∃ content, entryBytes decode apk e = some content

instance : Decidable (Readable decode apk es) :=
  decidable_of_iff (∀ e ∈ es, ∀ target ∈ (installEntryTarget e).target,
    (entryBytes decode apk e).isSome)
    ⟨fun h e he target htarget => Option.isSome_iff_exists.1 (h e he target htarget),
      fun h e he target htarget => Option.isSome_iff_exists.2 (h e he target htarget)⟩

theorem pairwise_split {R : ZipEntry → ZipEntry → Prop} {before after : List ZipEntry}
    (h : (before ++ e :: after).Pairwise R) : ∀ later ∈ after, R e later :=
  (List.pairwise_cons.1 (List.pairwise_append.1 h).2.1).1

/-- Where all targets are different files, the last entry that takes the target of an entry is that
entry or a later one whose sibling it is. -/
theorem EndsWith.spared {before after : List ZipEntry} {later : ZipEntry}
    (hdiffer : (before ++ e :: after).Pairwise TargetsDiffer)
    (h : EndsWith decode apk (before ++ e :: after) (resolve target) content)
    (htarget : (installEntryTarget e).target = some target) (hlater : later ∈ after) :
    ¬ Takes later (resolve target) := by
  obtain ⟨before', last, after', target', hsplit, hafter, hlast, hp, -⟩ := h
  have hsame : ∀ x ∈ after, (installEntryTarget x).target = some target' → False := fun x hx hx' =>
    pairwise_split hdiffer x hx _ _ htarget hx' hp.symm
  rcases List.append_eq_append_iff.1 hsplit with
    ⟨_ | ⟨x, middle⟩, -, hrest⟩ | ⟨_ | ⟨x, middle⟩, -, hrest⟩
  · obtain ⟨rfl, rfl⟩ := List.cons.inj hrest
    exact hafter later hlater
  · obtain ⟨rfl, rfl⟩ := List.cons.inj hrest
    exact (hsame last (List.mem_append_right _ List.mem_cons_self) hlast).elim
  · obtain ⟨rfl, rfl⟩ := List.cons.inj hrest
    exact hafter later hlater
  · obtain ⟨rfl, rfl⟩ := List.cons.inj hrest
    exact absurd (takes_target htarget) (hafter e (List.mem_append_right _ List.mem_cons_self))

/-- Where all targets are different files, the condition is that no entry is followed by one whose
sibling is its target. -/
theorem kept_iff_spared (hdiffer : es.Pairwise TargetsDiffer) (hreadable : Readable decode apk es) :
    Kept decode apk es ↔ es.Pairwise SparedBy := by
  constructor
  · intro hkept
    refine List.pairwise_iff_forall_sublist.2 fun {e later} hsub => ?_
    obtain ⟨front, rest, rfl, he, hrest⟩ := List.cons_sublist_iff.1 hsub
    obtain ⟨before, middle, rfl⟩ := List.append_of_mem he
    have hlater : later ∈ middle ++ rest :=
      List.mem_append_right _ (List.singleton_sublist.1 hrest)
    intro target target' htarget htarget' heq
    obtain ⟨content, -, hends⟩ := hkept e (List.mem_append_left _ he) target htarget
    rw [List.append_assoc, List.cons_append] at hends hdiffer
    exact hends.spared hdiffer htarget hlater ⟨target', htarget', .inr heq⟩
  · intro hspared e he target htarget
    obtain ⟨content, hcontent⟩ := hreadable e he target htarget
    obtain ⟨before, after, rfl⟩ := List.append_of_mem he
    refine ⟨content, hcontent, before, e, after, target, rfl, fun later hlater => ?_, htarget, rfl,
      hcontent⟩
    exact (sparedBy_iff (pairwise_split hdiffer later hlater) htarget).1
      (pairwise_split hspared later hlater)

/-! ## The run -/

/-- What is known after the entries have been extracted. -/
def Through (decode : Bytes → Option Bytes) (apk : Bytes) (files₀ : Contents) (es : List ZipEntry) :
    Assertion :=
  fun files _ => files = extractAll decode apk files₀ es ∧ Readable decode apk es

/-- Entries that are not selected leave everything as it is. -/
theorem Through.skip {files : Contents} {notes : List Note}
    (h : Through decode apk files₀ es files notes) (he : (installEntryTarget e).target = none) :
    Through decode apk files₀ (es ++ [e]) files notes := by
  refine ⟨?_, fun e' he' target htarget => ?_⟩
  · unfold extractAll
    rw [List.foldl_append, List.foldl_cons, List.foldl_nil, extractOne, he]
    exact h.1
  · rcases List.mem_append.1 he' with he' | he'
    · exact h.2 e' he' target htarget
    · rw [List.mem_singleton.1 he', he] at htarget
      cases htarget

/-- One entry more has been extracted. -/
theorem Through.extract {files files' : Contents} {notes notes' : List Note}
    (h : Through decode apk files₀ es files notes)
    (htarget : (installEntryTarget e).target = some target)
    (hbytes : entryBytes decode apk e = some content)
    (hreplaced : Replaced files target content files' notes') :
    Through decode apk files₀ (es ++ [e]) files' notes' := by
  refine ⟨?_, fun e' he' target' htarget' => ?_⟩
  · unfold extractAll
    rw [List.foldl_append, List.foldl_cons, List.foldl_nil, extractOne, htarget]
    dsimp only
    rw [hbytes, show files' = _ from hreplaced, h.1]
    rfl
  · rcases List.mem_append.1 he' with he' | he'
    · exact h.2 e' he' target' htarget'
    · rw [List.mem_singleton.1 he']
      exact ⟨content, hbytes⟩

/-- Targets and siblings lie in the runtime directory, and the archive does not. -/
theorem not_takes_installApk : ¬ Takes e (resolve installApk) := by
  rintro ⟨target, htarget, hp⟩
  have hselect : ∃ required, installEntryTarget e = .select target required := by
    cases hselection : installEntryTarget e with
    | select target' required =>
        rw [hselection] at htarget
        exact ⟨required, by rw [Option.some.inj htarget]⟩
    | error => rw [hselection] at htarget; cases htarget
    | skip => rw [hselection] at htarget; cases htarget
  obtain ⟨required, hselect⟩ := hselect
  obtain ⟨rel, rfl, -⟩ := selected_cases hselect
  rcases hp with hp | hp
  · exact installApk_ne rel hp
  · rw [tmpOf_inDataRoot] at hp
    exact installApk_ne _ hp

/-- `install_visitor` extracts one entry more or fails. -/
theorem triple_installVisitor (hdecodes : Z.Decodes decode) (rounds : Nat) {fp : InFile}
    (hpath : fp.path = resolve installApk) (hapk : files₀ (resolve installApk) = some apk)
    (state : InstallState) :
    Triple (At (Through decode apk files₀ es)) (installVisitor Z rounds fp e state)
      (fun r v => r.2.1.path = resolve installApk ∧
        if r.1 then At (Through decode apk files₀ (es ++ [e])) v else At (fun _ _ => True) v)
      (At fun _ _ => True) := by
  unfold installVisitor
  cases hselection : installEntryTarget e with
  | error m =>
      refine triple_bind (triple_fails (P := Through decode apk files₀ es)) fun r =>
        triple_pure fun v hv => ⟨hpath, ?_⟩
      rw [hv.1]
      exact trivial
  | skip => exact triple_pure fun v hv => ⟨hpath, hv.skip (by rw [hselection]; rfl)⟩
  | select target required =>
      have htarget : (installEntryTarget e).target = some target := by rw [hselection]; rfl
      have hsibling : fp.path ≠ resolve (tmpOf target) := fun hp =>
        not_takes_installApk ⟨target, htarget, .inr (hpath ▸ hp)⟩
      have hfile : extractAll decode apk files₀ es fp.path = some apk := by
        rw [hpath, extractAll_other (fun _ _ => not_takes_installApk), hapk]
      have hextract : Triple (At (Through decode apk files₀ es))
          (extractEntry Z rounds fp e target)
          (fun r v => r.2.path = resolve installApk ∧
            if r.1 then At (Through decode apk files₀ (es ++ [e])) v else At (fun _ _ => True) v)
          (At fun _ _ => True) := by
        refine Triple.pre (P := fun v => ∃ notes, Readable decode apk es ∧
          At (Exactly (extractAll decode apk files₀ es) notes) v) (.exists fun notes => .assume
            fun hreadable => ?_) fun v hv => ⟨_, hv.2, hv.1, rfl⟩
        refine Triple.mono (triple_extractEntry rounds target
          (entryYields_of_decodes hdecodes apk e)
          hsibling hfile) (fun _ hv => hv) ?_ fun _ _ => trivial
        rintro ⟨ok, fp'⟩ v ⟨hpath', hv⟩
        refine ⟨hpath'.trans hpath, ?_⟩
        cases ok with
        | false => exact trivial
        | true =>
            obtain ⟨content, hpassed, -, hreplaced⟩ := hv
            have hbefore : Through decode apk files₀ es (extractAll decode apk files₀ es) [] :=
              ⟨rfl, hreadable⟩
            exact hbefore.extract htarget hpassed.good hreplaced
      refine triple_bind hextract ?_
      rintro ⟨ok, fp'⟩
      cases ok with
      | false => exact triple_pure fun v hv => hv
      | true => exact triple_pure fun v hv => hv

/-- `zip_visit` with `install_visitor` extracts all entries in order or fails. -/
theorem triple_install (hdecodes : Z.Decodes decode) (rounds : Nat) {z : ZipArchive}
    (hpath : z.fp.path = resolve installApk) (hapk : files₀ (resolve installApk) = some apk)
    (state : InstallState) :
    Triple (At fun files _ => files = files₀) (zipVisit z (installVisitor Z rounds) state)
      (fun r v => r.1 = true → ∃ es, centralEntries apk z.cdOffset z.entries = some es ∧
        At (Through decode apk files₀ es) v) (At fun _ _ => True) := by
  have hsame : ∀ es (_ : InstallState) files notes, Through decode apk files₀ es files notes →
      files (resolve installApk) = some apk := by
    rintro es - files notes ⟨rfl, -⟩
    rw [extractAll_other (fun _ _ => not_takes_installApk), hapk]
  refine Triple.mono (triple_zipVisit (I := fun es _ => Through decode apk files₀ es) hsame
    (fun _ _ _ _ _ => trivial) (fun _ _ h => h)
    (fun es state e fp _ hfp => triple_installVisitor hdecodes rounds hfp hapk state) hpath)
    (fun v hv => ⟨hv, fun _ he => by cases he⟩) ?_ fun _ hv => hv
  · rintro ⟨ok, state'⟩ v hv rfl
    exact hv

end Installing

/-- When `zip_visit` with `install_visitor` returns 0, whatever failed on the way and whatever was
there before, the target of every selected entry holds the bytes of the entry if and only if the
last entry that writes to it, as its target or as its `.tmp` sibling, has it as its target and has
the same bytes. Where all targets are different files, that is to say that no entry comes before one
whose sibling it is. -/
theorem install_postcondition_iff {Z : Inflater} {decode : Bytes → Option Bytes}
    (hdecodes : Z.Decodes decode) (rounds : Nat) {apk : Bytes} {z : ZipArchive}
    (hpath : z.fp.path = resolve installApk) {state state' : InstallState}
    {m m' : Machine (World Memory)} (hapk : Holding (resolve installApk) apk m.world)
    (hrun : zipVisit z (installVisitor Z rounds) state m = (some (true, state'), m')) :
    ∃ es, centralEntries apk z.cdOffset z.entries = some es ∧
      (Installed decode apk es m'.world.fs.file ↔ Kept decode apk es) ∧
      (es.Pairwise TargetsDiffer → (Kept decode apk es ↔ es.Pairwise SparedBy)) := by
  have htriple := triple_install hdecodes rounds hpath hapk state m rfl
  rw [hrun] at htriple
  obtain ⟨es, hes, hfiles, hreadable⟩ := htriple rfl
  refine ⟨es, hes, ?_, fun hdiffer => kept_iff_spared hdiffer hreadable⟩
  rw [show m'.world.fs.file = _ from hfiles]
  exact installed_extractAll _

deriving instance DecidableEq for InstallState

/-- The directory record of an entry with the one byte `a` and its local header at the beginning. -/
def recordOfA (name : Bytes) : Bytes :=
  [0x50, 0x4b, 0x01, 0x02] ++ List.replicate 12 0 ++
    [0x43, 0xbe, 0xb7, 0xe8, 1, 0, 0, 0, 1, 0, 0, 0,
    UInt8.ofNat name.length, 0] ++ List.replicate 16 0 ++ name

/-- An archive of such entries. -/
def archiveOfA (names : List Bytes) : Bytes :=
  smallArchive [97] ++ (names.map recordOfA).flatten ++
    ([0x50, 0x4b, 0x05, 0x06, 0, 0, 0, 0, UInt8.ofNat names.length, 0,
      UInt8.ofNat names.length, 0] ++
      [0, 0, 0, 0, 31, 0, 0, 0, 0, 0])

/-- The installation of such an archive while nothing fails. -/
def installOfA (names : List Bytes) : Option (Bool × InstallState) × Machine (World Memory) :=
  zipVisit ⟨⟨resolve installApk, 0, false⟩, names.length, 31⟩
    (installVisitor (.ofStream [] []) 0) ⟨0, []⟩
    ⟨runtimeWorld (resolve installApk) (archiveOfA names), fun _ => .good, 0⟩

/-- The installation of an archive with the manifest only. -/
theorem install_postcondition_manifest :
    (Inflater.ofStream [] []).Decodes (decodeStream [] []) ∧
    (installOfA [manifestName]).1 = some (true, ⟨1, [.manifest]⟩) ∧
    ∃ es, centralEntries (archiveOfA [manifestName]) 31 1 = some es ∧
      (Installed (decodeStream [] []) (archiveOfA [manifestName]) es
          (installOfA [manifestName]).2.world.fs.file ↔
        Kept (decodeStream [] []) (archiveOfA [manifestName]) es) ∧
      (es.Pairwise TargetsDiffer → (Kept (decodeStream [] []) (archiveOfA [manifestName]) es ↔
        es.Pairwise SparedBy)) := by
  have hrun : (installOfA [manifestName]).1 = some (true, ⟨1, [.manifest]⟩) := by decide +kernel
  have hapk : Holding (resolve installApk) (archiveOfA [manifestName])
      (runtimeWorld (resolve installApk) (archiveOfA [manifestName])) := holding_runtimeWorld _ _
  have hrun' : zipVisit ⟨⟨resolve installApk, 0, false⟩, 1, 31⟩ (installVisitor (.ofStream [] []) 0)
      ⟨0, []⟩ ⟨runtimeWorld (resolve installApk) (archiveOfA [manifestName]), fun _ => .good, 0⟩ =
      (some (true, ⟨1, [.manifest]⟩), (installOfA [manifestName]).2) := by
    show installOfA [manifestName] = _
    rw [← hrun]
  exact ⟨Inflater.ofStream_decodes, hrun,
    install_postcondition_iff Inflater.ofStream_decodes 0 rfl hapk hrun'⟩

/-- Two entries of an archive, the first of which is the sibling of the second one. -/
def siblingNames : List Bytes := [bytes "assets/x.tmp", bytes "assets/x"]

/-- Both entries are extracted, and the file of the first one is gone. -/
theorem install_loses_sibling :
    zipDirectory (archiveOfA siblingNames) = some (2, 31) ∧
    (centralEntries (archiveOfA siblingNames) 31 2).map (List.map fun e =>
      (e.name, (installEntryTarget e).target, entryBytes (decodeStream [] [])
        (archiveOfA siblingNames) e)) =
      some (siblingNames.map fun name => (name, some (inDataRoot name), some [97])) ∧
    siblingNames.Nodup ∧
    (installOfA siblingNames).1 = some (true, ⟨2, []⟩) ∧
    (installOfA siblingNames).2.world.fs.file (resolve (inDataRoot (bytes "assets/x.tmp"))) =
      none := by
  decide +kernel

end Asnx.Installer
