import Asnx.Installer.Footprints
import Asnx.Installer.Installing
import Asnx.Installer.Preparing

/-!
# What the parts of the installer leave alone

The parts of `installer_prepare_game_files` that extract nothing take no notes, and change no files
but their own (`Stays`): the looks at files and at the archive, the replacements of files by their
siblings, the caches, the patch of the credits and the reader of the manifest.
-/

namespace Asnx.Installer

open Interrupted Files Tracing Credits Zlib

section Footprints

variable {K : Set Path} {α : Type} {name : Bytes}

/-! ## Looking at files -/

/-- What changes no file and takes no note keeps every assertion. -/
theorem keeps_of_stays {p : Install α} {P : Assertion} (h : Stays ∅ SameNotes p) :
    Triple (At P) p (fun _ => At P) (At P) := by
  refine h.keeps fun v v' hwithin hv => ?_
  have hfiles : v'.files = v.files := funext fun q => hwithin.files q id
  unfold At
  rw [hfiles, show v'.rest.notes = v.rest.notes from hwithin.rest]
  exact hv

theorem stays_getMemory : Stays K SameNotes getMemory := stays_update fun _ => ⟨rfl, rfl⟩

/-- The error text is noted, unless there is one. -/
theorem stays_failsUnlessSet {format : String} : Stays K SameNotes (failsUnlessSet format) :=
  stays_modifyMemory fun m => by split <;> rfl

/-- A check of a file reads only. -/
theorem stays_fileExistsNonempty : Stays K SameNotes (fileExistsNonempty name) := by
  refine stays_bind stays_stat fun r => ?_
  cases r with
  | error => exact stays_pure _
  | ok => exact stays_pure _

/-- So does a check of a list of files, one after the other. -/
theorem stays_allPresent (names : List Bytes) : Stays K SameNotes (allPresent names) := by
  induction names with
  | nil => exact stays_pure _
  | cons name names ih =>
      exact stays_bind stays_fileExistsNonempty fun _ =>
        moves_ite (fun _ => stays_pure _) fun _ => ih

/-- Making a directory changes no file. -/
theorem stays_ensureDirectory : Stays K SameNotes (ensureDirectory name) := by
  refine stays_bind stays_stat fun r => ?_
  cases r with
  | ok => exact moves_ite (fun _ => stays_pure _) fun _ => stays_fails
  | error =>
      refine stays_bind stays_mkdir fun r => ?_
      cases r with
      | ok => exact stays_pure _
      | error => exact stays_fails

/-- The first look at the archive reads only. -/
theorem stays_verifyGameApkBasic : Stays K SameNotes verifyGameApkBasic := by
  refine stays_bind stays_stat fun r => ?_
  cases r with
  | error => exact stays_fails
  | ok =>
      exact moves_ite (fun _ => stays_fails) fun _ =>
        moves_ite (fun _ => stays_fails) fun _ => stays_pure _

/-- The probe of the install location writes its own file and removes it. -/
theorem stays_verifyInstallLocationWritable (h : probePath ∈ K) :
    Stays K SameNotes verifyInstallLocationWritable := by
  refine stays_bind stays_ensureDirectory fun _ => moves_ite (fun _ => stays_pure _) fun _ => ?_
  refine stays_bind stays_ensureDirectory fun _ => moves_ite (fun _ => stays_pure _) fun _ => ?_
  refine stays_opened h (fun _ => stays_fails) ?_
  refine stays_bind (stays_fwrite h) fun wrote => ?_
  refine stays_bind (moves_ite (fun _ => stays_flush h) fun _ => stays_pure _) fun _ => ?_
  refine stays_bind (stays_flush h) fun _ => stays_bind (stays_remove h) fun _ => ?_
  exact moves_ite (fun _ => stays_pure _) fun _ => stays_fails

theorem stays_querySdSpace : Stays K SameNotes querySdSpace := by
  have hfails : ∀ format args, Stays K SameNotes
      (do let _ ← fails format args; pure none : Install (Option Nat)) := fun _ _ =>
    stays_bind stays_fails fun _ => stays_pure _
  refine stays_bind stays_chance fun _ => moves_ite (fun _ => hfails _ _) fun _ => ?_
  refine stays_bind (stays_of_triple fun _ => triple_quiet fun _ _ hw =>
    ⟨rfl, within_same hw⟩) fun r => ?_
  cases r with
  | none => exact hfails _ _
  | some free =>
      exact stays_bind stays_chance fun _ => moves_ite (fun _ => hfails _ _) fun _ => stays_pure _

/-! ## Looking at the archive -/

/-- Opening an archive reads only. -/
theorem stays_zipOpen : Stays K SameNotes (zipOpen name) := by
  have hbad : ∀ fp, Stays K SameNotes
      (do fcloseRead fp; pure none : Install (Option ZipArchive)) := fun _ =>
    stays_bind stays_fcloseRead fun _ => stays_pure _
  refine stays_bind stays_fopenRead fun r => ?_
  cases r with
  | error => exact stays_pure _
  | ok fp =>
      refine stays_bind stays_fseekEnd fun r => ?_
      cases r with
      | none => exact hbad _
      | some fp =>
          refine stays_bind stays_ftell fun r => ?_
          cases r with
          | none => exact hbad _
          | some size =>
              refine moves_ite (fun _ => hbad _) fun _ => ?_
              refine stays_bind stays_chance fun _ => moves_ite (fun _ => hbad _) fun _ => ?_
              refine stays_bind stays_fseek fun r => ?_
              cases r with
              | none => exact hbad _
              | some fp =>
                  refine stays_bind stays_fread fun r => moves_ite (fun _ => hbad _) fun _ => ?_
                  split
                  · exact hbad _
                  · exact stays_pure _

/-- So does a record of the directory. -/
theorem stays_readRecord {fp : InFile} : Stays K SameNotes (readRecord fp) := by
  refine stays_bind stays_fread fun r => moves_ite (fun _ => stays_pure _) fun _ => ?_
  refine moves_ite (fun _ => stays_bind stays_fails fun _ => stays_pure _) fun _ => ?_
  refine stays_bind stays_fread fun r => moves_ite (fun _ => stays_pure _) fun _ => ?_
  refine stays_bind stays_fseek fun r => ?_
  cases r with
  | none => exact stays_pure _
  | some => exact stays_pure _

/-- The credit for a file that is there already comes from its size. -/
theorem stays_existingCreditForFile {expected : Nat} :
    Stays K SameNotes (existingCreditForFile name expected) := by
  refine stays_bind stays_stat fun r => ?_
  cases r with
  | error => exact stays_pure _
  | ok => exact moves_ite (fun _ => stays_pure _) fun _ => stays_pure _

theorem stays_replacePeak {size : Nat} {p : InstallSpacePlan} :
    Stays K SameNotes (replacePeak name size p) :=
  stays_bind stays_fileExistsNonempty fun _ =>
    moves_ite (fun _ => stays_pure _) fun _ => stays_pure _

/-- The plan for one entry reads the sizes of what is there. -/
theorem stays_installSpaceVisitor {fp : InFile} {e : ZipEntry} {p : InstallSpacePlan} :
    Stays K SameNotes (installSpaceVisitor fp e p) := by
  unfold installSpaceVisitor
  split
  · exact stays_bind stays_fails fun _ => stays_pure _
  · exact stays_pure _
  · refine stays_bind stays_existingCreditForFile fun _ => stays_bind stays_replacePeak fun _ => ?_
    split
    · exact stays_pure _
    · exact stays_bind stays_existingCreditForFile fun _ => stays_bind stays_replacePeak fun _ =>
        stays_pure _

/-! ## Writing files -/

/-- A discarded target loses its `.tmp`. -/
theorem stays_discard {format : String} {args : List Arg} (h : resolve (tmpOf name) ∈ K) :
    Stays K SameNotes (discard name format args) :=
  stays_bind (stays_remove h) fun _ => stays_fails

/-- Replacing a file moves its `.tmp` over it. -/
theorem stays_replaceFile {format : String} {args : List Arg} (h : resolve name ∈ K)
    (htmp : resolve (tmpOf name) ∈ K) : Stays K SameNotes (replaceFile name format args) := by
  refine stays_bind (stays_remove h) fun _ => stays_bind (stays_rename htmp h) fun r => ?_
  cases r with
  | error => exact stays_discard htmp
  | ok => exact stays_pure _

section Extraction

variable {Z : Inflater} {rounds : Nat} {fp : InFile} {e : ZipEntry} {target : Bytes} {out : OutFile}

/-- The loop over a stored entry writes to the output file. -/
theorem stays_copyStored (hout : out.path ∈ K) (fuel left : Nat) (c : Copied) :
    Stays K SameNotes (copyStored out fuel left c) := by
  induction fuel generalizing left c with
  | zero => exact stays_pure _
  | succ fuel ih =>
      refine moves_ite (fun _ => stays_pure _) fun _ => stays_bind stays_fread fun r => ?_
      refine moves_ite (fun _ => stays_pure _) fun _ => stays_bind (stays_fwrite hout) fun _ => ?_
      exact moves_ite (fun _ => stays_pure _) fun _ => ih _ _

theorem stays_hang : Stays K SameNotes (hang : Install α) := fun m => Within.refl m.world.view

/-- So does the loop over a deflated one, whatever the inflater answers. -/
theorem stays_copyInflated (hout : out.path ∈ K) (fuel : Nat) (s : Z.State)
    (avail : Bytes) (left : Nat)
    (c : Copied) : Stays K SameNotes (copyInflated Z out fuel s avail left c) := by
  induction fuel generalizing s avail left c with
  | zero => exact stays_hang
  | succ fuel ih =>
      refine stays_bind (moves_ite (fun _ => stays_fread) fun _ => stays_pure _) fun r => ?_
      refine moves_ite (fun _ => stays_pure _) fun _ => ?_
      obtain ⟨status, s', consumed, made⟩ :=
        Z.inflate s (avail ++ r.1) zipIoBytes (left - refill avail left = 0)
      refine stays_bind (moves_ite (fun _ => stays_fwrite hout) fun _ => stays_pure _)
        fun wrote => ?_
      refine moves_ite (fun _ => stays_pure _) fun _ => ?_
      cases status with
      | ok => exact ih _ _ _ _
      | streamEnd => exact stays_pure _
      | failed => exact stays_pure _
      | bufError => exact moves_ite (fun _ => stays_pure _) fun _ => ih _ _ _ _

/-- An entry is unpacked into the `.tmp` of its target. -/
theorem stays_fillEntry (h : resolve (tmpOf target) ∈ K) :
    Stays K SameNotes (fillEntry Z rounds fp e target) := by
  have hfails : ∀ format args (fp : InFile), Stays K SameNotes
      (do let r ← fails format args; pure (r, fp) : Install (Bool × InFile)) := fun _ _ _ =>
    stays_bind stays_fails fun _ => stays_pure _
  have hcheck : ∀ c, Stays K SameNotes (checkEntry e target ⟨resolve (tmpOf target)⟩ c) := fun c =>
    stays_bind (stays_flush h) fun _ => moves_ite (fun _ => stays_discard h) fun _ =>
      moves_ite (fun _ => stays_discard h) fun _ => stays_pure _
  have hcopy : ∀ fp, Stays K SameNotes (copyEntry Z rounds fp e ⟨resolve (tmpOf target)⟩) :=
    fun fp =>
    moves_ite (fun _ => stays_copyStored h _ _ _) fun _ => stays_bind stays_chance fun _ =>
      moves_ite (fun _ => stays_pure _) fun _ => stays_copyInflated h _ _ _ _ _
  have hsibling : ∀ fp, Stays K SameNotes (fillSibling Z rounds fp e target) := by
    intro fp
    refine stays_opened h (fun _ => hfails _ _ _) ?_
    refine stays_bind stays_chance fun _ => stays_bind stays_chance fun _ =>
      moves_ite (fun _ => ?_) fun _ => ?_
    · exact stays_bind (stays_flush h) fun _ => stays_bind (stays_discard h) fun _ => stays_pure _
    · exact stays_bind (hcopy _) fun c => stays_bind (hcheck _) fun _ => stays_pure _
  refine moves_ite (fun _ => hfails _ _ _) fun _ => moves_ite (fun _ => hfails _ _ _) fun _ => ?_
  refine stays_bind stays_fseek fun r => ?_
  cases r with
  | none => exact hfails _ _ _
  | some fp₁ =>
      refine stays_bind stays_fread fun r => moves_ite (fun _ => hfails _ _ _) fun _ => ?_
      refine stays_bind stays_fseek fun r => ?_
      cases r with
      | none => exact stays_pure _
      | some fp₃ =>
          refine stays_bind stays_createParentDirectories fun _ => moves_ite (fun _ => stays_pure _)
            fun _ => ?_
          exact moves_ite (fun _ => hfails _ _ _) fun _ => hsibling _

end Extraction

/-! ## Caches and markers -/

section Caches

variable {rounds : Nat} {src dst : Bytes}

/-- The loop of a copy writes to the copy. -/
theorem stays_copyLoop {out : OutFile} (hout : out.path ∈ K) (rounds : Nat) (fp : InFile) :
    Stays K SameNotes (copyLoop out rounds fp) := by
  induction rounds generalizing fp with
  | zero => exact stays_hang
  | succ rounds ih =>
      refine stays_bind stays_fread fun r => ?_
      refine stays_bind (moves_ite (fun _ => stays_fwrite hout) fun _ => stays_pure _) fun _ => ?_
      refine moves_ite (fun _ => stays_pure _) fun _ =>
        moves_ite (fun _ => stays_pure _) fun _ => ih _

/-- A copy goes into the `.tmp` of its target, and over the target. -/
theorem stays_copyFileAtomic (h : resolve dst ∈ K) (htmp : resolve (tmpOf dst) ∈ K) :
    Stays K SameNotes (copyFileAtomic rounds src dst) := by
  have hfill : Stays K SameNotes (fillCopy rounds src dst) := by
    refine stays_bind stays_createParentDirectories fun _ =>
      moves_ite (fun _ => stays_pure _) fun _ => ?_
    refine stays_bind stays_fopenRead fun r => ?_
    cases r with
    | error => exact stays_fails
    | ok input =>
        refine moves_ite (fun _ => stays_bind stays_fcloseRead fun _ => stays_fails) fun _ => ?_
        refine stays_opened htmp (fun _ => stays_bind stays_fcloseRead fun _ => stays_fails) ?_
        refine stays_bind stays_chance fun buf => ?_
        refine stays_bind (moves_ite (fun _ => stays_copyLoop htmp _ _) fun _ =>
          stays_pure _) fun _ => ?_
        refine stays_bind (stays_flush htmp) fun _ => stays_bind stays_fcloseRead fun _ => ?_
        exact moves_ite (fun _ => stays_discard htmp) fun _ => stays_pure _
  exact stays_bind hfill fun _ => moves_ite (fun _ => stays_pure _) fun _ =>
    stays_replaceFile h htmp

theorem stays_readGuid {fp : InFile} : Stays K SameNotes (readGuid fp) :=
  stays_bind stays_fread fun _ => stays_bind stays_fread fun _ =>
    stays_bind stays_fcloseRead fun _ =>
    stays_pure _

/-- Two sizes are compared. -/
theorem stays_filesHaveSameSize {a b : Bytes} : Stays K SameNotes (filesHaveSameSize a b) := by
  refine stays_bind stays_stat fun r => ?_
  cases r with
  | error => exact stays_pure _
  | ok sa =>
      refine stays_bind stays_stat fun r => ?_
      cases r with
      | error => exact stays_pure _
      | ok sb => exact stays_pure _

theorem stays_cachesReady (ready : Bool) (files : List (Bytes × Bytes)) :
    Stays K SameNotes (cachesReady ready files) := by
  induction files generalizing ready with
  | nil => exact stays_pure _
  | cons file files ih => exact stays_bind stays_filesHaveSameSize fun _ => ih _

/-- The caches are copied one after the other, each to its own target. -/
theorem stays_copyCaches {files : List (Bytes × Bytes)}
    (h : ∀ file ∈ files, resolve file.2 ∈ K ∧ resolve (tmpOf file.2) ∈ K) :
    Stays K SameNotes (copyCaches rounds files) := by
  induction files with
  | nil => exact stays_pure _
  | cons file files ih =>
      obtain ⟨hdst, htmp⟩ := h file List.mem_cons_self
      refine stays_bind stays_fileExistsNonempty fun _ =>
        moves_ite (fun _ => stays_fails) fun _ => ?_
      refine stays_bind (stays_copyFileAtomic hdst htmp) fun _ =>
        moves_ite (fun _ => stays_pure _) fun _ => ?_
      exact ih fun file hfile => h file (List.mem_cons_of_mem _ hfile)

/-- The marker of a GUID goes through its `.tmp`. -/
theorem stays_writeGuidMarker {guid : Bytes} (h : resolve guidMarker ∈ K)
    (htmp : resolve (tmpOf guidMarker) ∈ K) : Stays K SameNotes (writeGuidMarker guid) := by
  have hfill : Stays K SameNotes (fillGuidMarker guid) := by
    refine stays_bind stays_createParentDirectories fun _ =>
      moves_ite (fun _ => stays_pure _) fun _ => ?_
    refine moves_ite (fun _ => stays_fails) fun _ =>
      stays_opened htmp (fun _ => stays_discard htmp) ?_
    refine stays_bind (stays_fwrite htmp) fun _ => stays_bind (stays_flush htmp) fun _ => ?_
    exact moves_ite (fun _ => stays_discard htmp) fun _ => stays_pure _
  exact stays_bind hfill fun _ => moves_ite (fun _ => stays_pure _) fun _ =>
    stays_replaceFile h htmp

/-- The caches of IL2CPP: the files of the list and the marker. -/
theorem stays_prepareIl2cppCache (hguid : resolve guidMarker ∈ K)
    (htmp : resolve (tmpOf guidMarker) ∈ K)
    (h : ∀ file ∈ il2cppCacheFiles, resolve file.2 ∈ K ∧ resolve (tmpOf file.2) ∈ K) :
    Stays K SameNotes (prepareIl2cppCache rounds) := by
  have hmatches : ∀ guid, Stays K SameNotes (il2cppMarkerMatches guid) := by
    intro guid
    refine stays_bind stays_fopenRead fun r => ?_
    cases r with
    | error => exact stays_pure _
    | ok fp => exact stays_bind stays_readGuid fun _ => stays_pure _
  refine stays_bind stays_fopenRead fun r => ?_
  cases r with
  | error => exact stays_fails
  | ok fp =>
      refine stays_bind stays_readGuid fun r => moves_ite (fun _ => stays_fails) fun _ => ?_
      refine stays_bind (hmatches _) fun ready => stays_bind (stays_cachesReady _ _) fun _ => ?_
      refine moves_ite (fun _ => stays_pure _) fun _ => stays_bind (stays_copyCaches h) fun _ => ?_
      exact moves_ite (fun _ => stays_pure _) fun _ => stays_writeGuidMarker hguid htmp

/-- The cache of the English texts. -/
def englishCache : Bytes := inDataRoot (bytes "files/downloaded/live_English.bytes")

/-- The cache of the English texts is one file. -/
theorem stays_seedEnglishLocalizationCache (h : resolve englishCache ∈ K)
    (htmp : resolve (tmpOf englishCache) ∈ K) :
    Stays K SameNotes (seedEnglishLocalizationCache rounds) := by
  refine stays_bind stays_stat fun r => ?_
  cases r with
  | error => exact stays_fails
  | ok srcSt =>
      refine moves_ite (fun _ => stays_fails) fun _ => stays_bind stays_stat fun dstSt => ?_
      refine moves_ite (fun _ => stays_pure _) fun _ => ?_
      refine stays_bind (stays_copyFileAtomic h htmp) fun _ =>
        moves_ite (fun _ => stays_pure _) fun _ => ?_
      refine stays_bind stays_stat fun r => ?_
      cases r with
      | error => exact stays_fails
      | ok dstSt => exact moves_ite (fun _ => stays_fails) fun _ => stays_pure _

/-- The marker of the installation goes through its `.tmp`. -/
theorem stays_writeRuntimeInstallMarker {files : Nat} (h : resolve installMarker ∈ K)
    (htmp : resolve (tmpOf installMarker) ∈ K) :
    Stays K SameNotes (writeRuntimeInstallMarker files) := by
  have hfill : Stays K SameNotes (fillInstallMarker files) := by
    refine moves_ite (fun _ => stays_fails) fun _ => ?_
    refine stays_bind stays_createParentDirectories fun _ =>
      moves_ite (fun _ => stays_pure _) fun _ => ?_
    refine stays_opened htmp (fun _ => stays_fails) ?_
    refine stays_bind (stays_fwrite htmp) fun _ => stays_bind (stays_flush htmp) fun _ => ?_
    refine stays_bind (stays_flush htmp) fun _ => ?_
    exact moves_ite (fun _ => stays_discard htmp) fun _ => stays_pure _
  exact stays_bind hfill fun _ => moves_ite (fun _ => stays_pure _) fun _ =>
    stays_replaceFile h htmp

end Caches

/-! ## The patch of the credits -/

section Patching

variable {data : CreditsData} {header : Bytes} {src : InFile} {dst : OutFile}

/-- The loop of an exact copy writes to the bundle. -/
theorem stays_copyExactLoop (h : dst.path ∈ K) (n : Nat) (src : InFile) :
    Stays K SameNotes (copyExactLoop dst n src) := by
  induction n using Nat.strong_induction_on generalizing src with
  | _ n ih =>
      unfold copyExactLoop
      refine moves_ite (fun _ => stays_pure _) fun hn => stays_bind stays_fread fun r => ?_
      refine moves_ite (fun _ => stays_pure _) fun _ => stays_bind (stays_fwrite h) fun _ => ?_
      exact moves_ite (fun _ => stays_pure _) fun _ => ih _ (by split <;> omega) _

/-- A part of the old bundle is copied to the new one. -/
theorem stays_copyFrom (h : dst.path ∈ K) (src : InFile) (pos n : Nat) :
    Stays K SameNotes (copyFrom src pos dst n) := by
  refine stays_bind stays_fseek fun r => ?_
  cases r with
  | none => exact stays_pure _
  | some src =>
      exact stays_bind stays_chance fun _ => moves_ite (fun _ => stays_pure _) fun _ =>
        stays_copyExactLoop h n src

/-- The padding goes to the new bundle. -/
theorem stays_padLoop (h : dst.path ∈ K) (here : Nat) : Stays K SameNotes (padLoop dst here) := by
  induction hleft : creditsNewDataPos - here using Nat.strong_induction_on generalizing here with
  | _ left ih =>
      unfold padLoop
      refine moves_ite (fun hlt => stays_bind (stays_fwrite h) fun _ => ?_) fun _ => stays_pure _
      exact moves_ite (fun _ => stays_pure _) fun _ => ih _ (by split <;> omega) _ rfl

/-- The new bundle: its header, its directory and its nodes. -/
theorem stays_writeBundle (h : dst.path ∈ K) :
    Stays K SameNotes (writeBundle data header src dst) := by
  have hpad : Stays K SameNotes (padToData dst) := by
    refine stays_bind stays_ftellWrite fun r => ?_
    cases r with
    | none => exact stays_pure _
    | some here => exact stays_padLoop h here
  refine stays_bind (stays_fwrite h) fun _ => moves_ite (fun _ => stays_pure _) fun _ => ?_
  refine stays_bind (stays_fwrite h) fun _ => moves_ite (fun _ => stays_pure _) fun _ => ?_
  refine stays_bind hpad fun _ => moves_ite (fun _ => stays_pure _) fun _ => ?_
  refine stays_bind (stays_copyFrom h _ _ _) fun _ => moves_ite (fun _ => stays_pure _) fun _ => ?_
  refine stays_bind (stays_fwrite h) fun _ => moves_ite (fun _ => stays_pure _) fun _ => ?_
  refine stays_bind (stays_copyFrom h _ _ _) fun _ => moves_ite (fun _ => stays_pure _) fun _ => ?_
  exact stays_bind (stays_flush h) fun _ => moves_ite (fun _ => stays_pure _) fun _ => stays_flush h

/-- It is built as a `.tmp`; an older one and an older backup are removed. -/
theorem stays_buildBundle (htmp : resolve bundleTmp ∈ K) (hbak : resolve bundleBak ∈ K) :
    Stays K SameNotes (buildBundle data) := by
  have hdiscard : Stays K SameNotes (do let _ ← remove bundleTmp; pure false : Install Bool) :=
    stays_bind (stays_remove htmp) fun _ => stays_pure _
  have hpatch : ∀ header src, Stays K SameNotes (patchBundle data header src) := by
    intro header src
    refine stays_bind (stays_remove htmp) fun _ => stays_bind (stays_remove hbak) fun _ => ?_
    refine stays_opened htmp (fun _ => stays_bind stays_fcloseRead fun _ => stays_pure _) ?_
    refine stays_bind (stays_writeBundle htmp) fun ok =>
      stays_bind (stays_flush htmp) fun closed => ?_
    refine stays_bind stays_fcloseRead fun _ => moves_ite (fun _ => hdiscard) fun _ => ?_
    refine stays_bind stays_stat fun r => ?_
    cases r with
    | error => exact hdiscard
    | ok st => exact moves_ite (fun _ => hdiscard) fun _ => stays_pure _
  refine stays_bind stays_stat fun r => ?_
  cases r with
  | error => exact stays_pure _
  | ok st =>
      refine moves_ite (fun _ => stays_pure _) fun _ =>
        moves_ite (fun _ => stays_pure _) fun _ => ?_
      refine stays_bind stays_fopenRead fun r => ?_
      cases r with
      | error => exact stays_pure _
      | ok src =>
          refine stays_bind stays_fread fun r => moves_ite (fun _ => ?_) fun _ => hpatch _ _
          exact stays_bind stays_fcloseRead fun _ => stays_pure _

/-- The patch works on the bundle, its `.tmp` and its backup. -/
theorem stays_creditsPatchApply (h : resolve bundlePath ∈ K) (htmp : resolve bundleTmp ∈ K)
    (hbak : resolve bundleBak ∈ K) : Stays K SameNotes (creditsPatchApply data) := by
  have hdiscard : Stays K SameNotes (do let _ ← remove bundleTmp; pure 0 : Install Int) :=
    stays_bind (stays_remove htmp) fun _ => stays_pure _
  have hfinish : Stays K SameNotes finishSwap := by
    refine stays_bind (stays_rename htmp h) fun r => ?_
    cases r with
    | error => exact stays_bind (stays_rename hbak h) fun _ => hdiscard
    | ok => exact stays_bind (stays_remove hbak) fun _ => stays_pure _
  refine stays_bind (stays_buildBundle htmp hbak) fun _ =>
    moves_ite (fun _ => stays_pure _) fun _ => ?_
  refine stays_bind (stays_rename h hbak) fun r => ?_
  cases r with
  | error => exact hdiscard
  | ok => exact hfinish

end Patching

/-! ## The manifest -/

/-- A call of the manifest parser reads only. -/
theorem stays_manifestCall {path : Bytes} : Stays K SameNotes (manifestCall path) := by
  have hrefused : ∀ f, Stays K SameNotes (do
      fcloseRead f
      pure ⟨some [], false, false, false, false⟩ : Install ManifestCall) := fun _ =>
    stays_bind stays_fcloseRead fun _ => stays_pure _
  refine stays_bind stays_fopenRead fun r => ?_
  cases r with
  | error => exact stays_pure _
  | ok f =>
      refine stays_bind stays_fseekEnd fun r => ?_
      cases r with
      | none => exact hrefused _
      | some f =>
          refine stays_bind stays_ftell fun r => ?_
          cases r with
          | none => exact hrefused _
          | some z =>
              refine moves_ite (fun _ => hrefused _) fun _ => stays_bind stays_fseek fun r => ?_
              cases r with
              | none => exact hrefused _
              | some f =>
                  refine stays_bind stays_chance fun _ =>
                    moves_ite (fun _ => hrefused _) fun _ => ?_
                  exact stays_bind stays_fread fun _ =>
                    stays_bind stays_fcloseRead fun _ => stays_pure _

theorem stays_parseManifestFile {path : Bytes} : Stays K SameNotes (parseManifestFile path) :=
  stays_bind stays_manifestCall fun _ => stays_update fun _ => ⟨rfl, rfl⟩

/-- The check of the manifest reads only. -/
theorem stays_validateManifestMetadata : Stays K SameNotes validateManifestMetadata :=
  stays_bind stays_getMemory fun _ => moves_ite (fun _ => stays_fails) fun _ =>
    moves_ite (fun _ => stays_fails) fun _ => stays_pure _

end Footprints

end Asnx.Installer
