import Asnx.Installer.Caches
import Asnx.Installer.CreditsPatch
import Asnx.Installer.Manifest

/-!
# Preparing the game files

`installer_prepare_game_files`: a complete installation takes the fast path, and otherwise
`game.apk` is checked, measured against the free space and extracted, before the caches and the
marker are written. What is only shown on the console is left out.
-/

namespace Asnx.Installer

open Interrupted Files Tracing Credits Zlib

/-! ## The manifest -/

/-- The `g_manifest_*` variables as the reader of the manifest has them; its other arrays are
local. -/
def manifestStateOf (m : Manifest) : ManifestState where
  chars
    | .package => fun i => m.package.getD i 0
    | .versionName => fun i => m.versionName.getD i 0
    | _ => fun _ => 0
  versionCode := m.versionCode
  minSdk := m.minSdk
  targetSdk := m.targetSdk

def manifestOf (s : ManifestState) : Manifest where
  package := (List.range Chars.package.size).map (s.chars .package)
  versionName := (List.range Chars.versionName.size).map (s.chars .versionName)
  versionCode := s.versionCode
  minSdk := s.minSdk
  targetSdk := s.targetSdk

/-- The calls of `parse_android_manifest`, up to its first look at the buffer. -/
def manifestCall (path : Bytes) : Install ManifestCall := do
  match ← fopenRead path with
  | .error _ => pure ⟨none, false, false, false, false⟩
  | .ok f =>
      let refused : Install ManifestCall := do
        fcloseRead f
        pure ⟨some [], false, false, false, false⟩
      match ← fseekEnd f with
      | none => refused
      | some f =>
          match ← ftell f with
          | none => refused
          | some z =>
              if z < 8 ∨ z > 8 * 1024 * 1024 then refused
              else
                match ← fseek f (some 0) with
                | none => refused
                | some f =>
                    if !(← chance) then refused
                    else
                      let (buf, f) ← fread f z
                      fcloseRead f
                      pure ⟨some buf, true, true, true, buf.length = z⟩

/-- `parse_android_manifest` -/
def parseManifestFile (path : Bytes) : Install Bool := do
  let call ← manifestCall path
  update fun w =>
    let (r, s, _) := parseAndroidManifest call (manifestStateOf w.rest.gManifest)
    (match r with
      | .ok ok => ok
      | .error _ => false, { w with rest := { w.rest with gManifest := manifestOf s } })

/-- `manifest_visitor` -/
def manifestVisitor (Z : Inflater) (rounds : Nat) : ZipVisitor Bool := fun fp e found =>
  if e.name ≠ manifestName then pure (true, fp, found)
  else do
    let (ok, fp) ← extractEntry Z rounds fp e (inDataRoot manifestName)
    pure (ok, fp, true)

/-- The part of `load_manifest_metadata` that extracts a manifest that is missing. -/
def extractManifest (Z : Inflater) (rounds : Nat) : Install Unit := do
  match ← zipOpen installApk with
  | none => pure ()
  | some z =>
      let _ ← zipVisit z (manifestVisitor Z rounds) false
      fcloseRead z.fp

/-- `load_manifest_metadata` -/
def loadManifestMetadata (Z : Inflater) (rounds : Nat) : Install Bool := do
  let cached := inDataRoot manifestName
  if !(← fileExistsNonempty cached) then
    if ← fileExistsNonempty installApk then extractManifest Z rounds
  parseManifestFile cached

/-- The text of an array of characters. -/
def arrayText (b : Bytes) : Bytes := b.takeWhile (· ≠ 0)

/-- `validate_manifest_metadata` -/
def validateManifestMetadata : Install Bool := do
  let m ← getMemory
  let pkg := arrayText m.gManifest.package
  if pkg = [] then
    fails "Could not parse the extracted AndroidManifest.xml. game.apk may be incomplete or corrupted." []
  else if pkg ≠ gamePackage then
    fails "Wrong game.apk package.\n\nExpected: %s\nFound:    %s" [.name gamePackage, .name pkg]
  else pure true

/-! ## The space -/

/-- `cache_target_for_apk_entry` -/
def cacheTargetForApkEntry (name : Bytes) : Option Bytes :=
  if name = metadataName then some (inDataRoot (bytes "files/il2cpp/Metadata/global-metadata.dat"))
  else if name = mscorlibName then
    some (inDataRoot (bytes "files/il2cpp/Resources/mscorlib.dll-resources.dat"))
  else if name = systemDataName then
    some (inDataRoot (bytes "files/il2cpp/Resources/System.Data.dll-resources.dat"))
  else if name = systemDrawingName then
    some (inDataRoot (bytes "files/il2cpp/Resources/System.Drawing.dll-resources.dat"))
  else if name = englishName then some (inDataRoot (bytes "files/downloaded/live_English.bytes"))
  else none

/-- `InstallSpacePlan`; `required` lists what is set in `required_mask`. -/
structure InstallSpacePlan where
  finalPayloadBytes : Nat
  existingPayloadCredit : Nat
  cacheBytes : Nat
  existingCacheCredit : Nat
  replacePeakBytes : Nat
  files : Nat
  required : List Required

/-- The plan that `build_install_space_plan` begins with. -/
def InstallSpacePlan.empty : InstallSpacePlan := ⟨0, 0, 0, 0, 0, 0, []⟩

/-- `existing_credit_for_file` -/
def existingCreditForFile (path : Bytes) (expected : Nat) : Install Nat := do
  match ← stat path with
  | .error _ => pure 0
  | .ok st => if st.isDir ∨ st.size = 0 then pure 0 else pure (min st.size expected)

/-- The part of `install_space_visitor` on the replacement of a file. -/
def replacePeak (path : Bytes) (size : Nat) (p : InstallSpacePlan) : Install InstallSpacePlan := do
  let there ← fileExistsNonempty path
  if there ∧ size > p.replacePeakBytes then pure { p with replacePeakBytes := size } else pure p

/-- `install_space_visitor` -/
def installSpaceVisitor : ZipVisitor InstallSpacePlan := fun fp e p =>
  match installEntryTarget e with
  | .error m => do
      let r ← fails m.format m.args
      pure (r, fp, p)
  | .skip => pure (true, fp, p)
  | .select target required => do
      let size := e.usize
      let credit ← existingCreditForFile target size
      let p := { p with
        finalPayloadBytes := p.finalPayloadBytes + size
        existingPayloadCredit := p.existingPayloadCredit + credit }
      let p ← replacePeak target size p
      let p := { p with files := p.files + 1, required := p.required ++ required.toList }
      match cacheTargetForApkEntry e.name with
      | none => pure (true, fp, p)
      | some cacheTarget =>
          let credit ← existingCreditForFile cacheTarget size
          let p := { p with
            cacheBytes := p.cacheBytes + size
            existingCacheCredit := p.existingCacheCredit + credit }
          let p ← replacePeak cacheTarget size p
          pure (true, fp, p)

/-- What `build_install_space_plan` makes of the sums. -/
def InstallSpacePlan.requiredExtra (p : InstallSpacePlan) : Nat :=
  let payloadGrowth :=
    if p.finalPayloadBytes > p.existingPayloadCredit then p.finalPayloadBytes -
      p.existingPayloadCredit
    else 0
  let cacheGrowth :=
    if p.cacheBytes > p.existingCacheCredit then p.cacheBytes - p.existingCacheCredit else 0
  payloadGrowth + cacheGrowth + p.replacePeakBytes + installSpaceReserveBytes

/-- Sets an error unless there is one. -/
def failsUnlessSet (format : String) : Install Unit :=
  modifyMemory fun m => if m.gError.isSome then m else { m with gError := some ⟨format, []⟩ }

/-- `build_install_space_plan`; `none` stands for -1. -/
def buildInstallSpacePlan (z : ZipArchive) : Install (Option (InstallSpacePlan × Nat)) := do
  let (ok, p) ← zipVisit z installSpaceVisitor .empty
  if !ok then
    failsUnlessSet "Could not inspect game.apk contents for the install size check."
    pure none
  else if !allRequired.all (p.required.contains ·) then
    let _ ← fails
      "game.apk is missing one or more required ARM64 Unity/IL2CPP/cache files. Verify that the correct APK was copied and is complete."
      []
    pure none
  else pure (some (p, p.requiredExtra))

/-- `bytes_to_mib_ceil` -/
def bytesToMibCeil (n : Nat) : Nat := (n + 1024 * 1024 - 1) / (1024 * 1024)

/-- `installer_preflight` -/
def installerPreflight (z : ZipArchive) : Install Bool := do
  if !(← verifyInstallLocationWritable) then pure false
  else
    match ← buildInstallSpacePlan z with
    | none => pure false
    | some (_, requiredExtra) =>
        match ← querySdSpace with
        | none => pure false
        | some freeBytes =>
            if freeBytes < requiredExtra then
              fails
                "Not enough free space on the SD card.\n\nAvailable: %llu MiB\nRequired:  %llu MiB\n\nFree at least %llu MiB more and try again."
                [.number (bytesToMibCeil freeBytes), .number (bytesToMibCeil requiredExtra),
                  .number (bytesToMibCeil (requiredExtra - freeBytes))]
            else pure true

/-! ## The installer -/

/-- `verify_game_apk_basic` -/
def verifyGameApkBasic : Install Bool := do
  match ← stat installApk with
  | .error _ =>
      fails "Missing game.apk for first installation:\n%s\nerrno=%d (%s)" [.name installApk, .errno]
  | .ok st =>
      if st.isDir then fails "game.apk is not a regular file:\n%s" [.name installApk]
      else if st.size < 22 then
        fails "game.apk is empty or too small to be a valid APK (%lld bytes)." [.number st.size]
      else pure true

/-- The steps that both paths have in common, up to the patch of the credits. -/
def prepareCaches (Z : Inflater) (rounds : Nat) (checkManifest : Install Bool) : Install Bool := do
  let _ ← loadManifestMetadata Z rounds
  if !(← validateManifestMetadata) then pure false
  else if !(← checkManifest) then pure false
  else if !(← prepareIl2cppCache rounds) then pure false
  else seedEnglishLocalizationCache rounds

/-- The part of the first installation that extracts the archive; `none` stands for a failure. -/
def extractGame (Z : Inflater) (rounds : Nat) : Install (Option InstallState) := do
  match ← zipOpen installApk with
  | none =>
      let _ ← fails "game.apk is not a supported ZIP/APK or its central directory is damaged." []
      pure none
  | some z =>
      if !(← installerPreflight z) then
        fcloseRead z.fp
        pure none
      else
        let (ok, st) ← zipVisit z (installVisitor Z rounds) ⟨0, []⟩
        fcloseRead z.fp
        let present ← (if ok then runtimeFilesPresent else pure false)
        if !present ∨ !([Required.manifest, .main, .unity, .il2cpp, .metadata, .data,
          .resources].all
            (st.seen.contains ·)) then
          failsUnlessSet "game.apk does not contain the required ARM64 Unity 6000 files."
          pure none
        else pure (some st)

/-- The first installation. -/
def installGame (Z : Inflater) (data : CreditsData) (rounds : Nat) : Install Bool := do
  if !(← verifyGameApkBasic) then pure false
  else if !(← ensureDirectory gameHome) then pure false
  else if !(← ensureDirectory dataRoot) then pure false
  else
    match ← extractGame Z rounds with
    | none => pure false
    | some st =>
        let checkManifest : Install Bool := do
          if !(← fileExistsNonempty (inDataRoot manifestName)) then
            fails "Extracted AndroidManifest.xml is missing." []
          else pure true
        if !(← prepareCaches Z rounds checkManifest) then pure false
        else
          let _ ← creditsPatchApply data
          if !(← writeRuntimeInstallMarker st.files) then pure false
          else
            removeInstallMediaIfSafe
            pure true

/-- `installer_prepare_game_files` -/
def installerPrepareGameFiles (Z : Inflater) (data : CreditsData) (rounds : Nat) :
    Install Bool := do
  note fun _ => .started
  modifyMemory fun m => { m with gError := none }
  let marked ← fileExistsNonempty installMarker
  let present ← (if marked then runtimeFilesPresent else pure false)
  if present then
    note .fastPath
    if !(← prepareCaches Z rounds (pure true)) then pure false
    else
      let _ ← creditsPatchApply data
      removeInstallMediaIfSafe
      pure true
  else installGame Z data rounds

end Asnx.Installer
