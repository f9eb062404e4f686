import Asnx.Installer.Extract

/-!
# Caches and markers

What the installer writes besides the entries: the install marker, the caches of il2cpp with their
marker, and the cache of the English texts. All of it is written to a sibling that then takes the
place of the file.
-/

namespace Asnx.Installer

open Interrupted Files

/-! ## The install marker -/

/-- The files that `runtime_files_present` asks for. -/
def runtimeFiles : List Bytes :=
  [libMain, libUnity, libIl2cpp, metadataName, dataName, resourcesName, guidName].map inDataRoot

/-- The loop of `runtime_files_present` -/
def allPresent : List Bytes → Install Bool
  | [] => pure true
  | file :: files => do
      if !(← fileExistsNonempty file) then pure false
      else allPresent files

/-- `runtime_files_present` -/
def runtimeFilesPresent : Install Bool := allPresent runtimeFiles

/-- What `file_exists_nonempty` finds is there. -/
theorem triple_fileExistsNonempty {P : View Memory → Prop} {name : Bytes} :
    Triple P (fileExistsNonempty name)
      (fun r v => (r = true → ∃ content, v.files (resolve name) = some content ∧ content ≠ []) ∧
        P v)
      P := by
  refine triple_bind triple_stat fun r => ?_
  cases r with
  | error => exact triple_pure fun v hv => ⟨nofun, hv.2⟩
  | ok st =>
      refine triple_pure fun v hv => ⟨fun hsize => ?_, hv.2⟩
      have hpos : 0 < st.size := of_decide_eq_true hsize
      rcases hv.1 with ⟨content, hcontent, rfl⟩ | ⟨-, rfl⟩
      · exact ⟨content, hcontent, List.ne_nil_of_length_pos hpos⟩
      · exact absurd hpos (Nat.lt_irrefl 0)

/-- What `runtime_files_present` finds is there. -/
theorem triple_allPresent {P : View Memory → Prop} (names : List Bytes) :
    Triple P (allPresent names)
      (fun r v => (r = true → ∀ name ∈ names, ∃ content, v.files (resolve name) = some content ∧
        content ≠ []) ∧ P v) P := by
  induction names generalizing P with
  | nil => exact triple_pure fun v hv => ⟨fun _ => nofun, hv⟩
  | cons name names ih =>
      refine triple_bind triple_fileExistsNonempty fun r => ?_
      cases r with
      | false => exact triple_pure fun v hv => ⟨nofun, hv.2⟩
      | true =>
          refine (ih (P := fun v =>
            (∃ content, v.files (resolve name) = some content ∧ content ≠ []) ∧
            P v)).mono (fun v hv => ⟨hv.1 rfl, hv.2⟩) (fun r v hv => ⟨fun hr => ?_, hv.2.2⟩)
            fun v hv => hv.2
          exact List.forall_mem_cons.2 ⟨hv.2.1, hv.1 hr⟩

/-- The text of the install marker. -/
def markerText (files : Nat) : Bytes :=
  bytes "Unity " ++ unityVersion ++ bytes "\nfiles=" ++ bytes (Nat.repr files) ++ [10]

/-- `write_runtime_install_marker` up to the replacement. -/
def fillInstallMarker (files : Nat) : Install Bool := do
  if (tmpOf installMarker).length ≥ pathMax + 5 then fails "Install marker path is too long." []
  else if !(← createParentDirectories installMarker) then pure false
  else
    match ← fopenWrite (tmpOf installMarker) with
    | .error _ => fails "Could not create the install marker." []
    | .ok m =>
        let printed ← fwrite m (markerText files)
        let flushed ← flush m
        let closed ← flush m
        if !(printed && flushed && closed) then
          discard installMarker "Could not write the install marker." []
        else pure true

/-- `write_runtime_install_marker` -/
def writeRuntimeInstallMarker (files : Nat) : Install Bool := do
  if !(← fillInstallMarker files) then pure false
  else replaceFile installMarker "Could not finalize the install marker." []

/-- `remove_install_media_if_safe` -/
def removeInstallMediaIfSafe : Install Unit := do
  if !(← fileExistsNonempty installApk) then pure ()
  else if !(← fileExistsNonempty installMarker) then pure ()
  else if !(← runtimeFilesPresent) then pure ()
  else if !(← fileExistsNonempty (inDataRoot manifestName)) then pure ()
  else
    note .removing
    let _ ← remove installApk

/-! ## Copies -/

/-- `files_have_same_size` -/
def filesHaveSameSize (a b : Bytes) : Install Bool := do
  match ← stat a with
  | .error _ => pure false
  | .ok sa =>
      match ← stat b with
      | .error _ => pure false
      | .ok sb => pure (decide (sa.size > 0 ∧ sa.size = sb.size))

/-- The loop of `copy_file_atomic`. A loop that goes round more often is taken to be one without
end. -/
def copyLoop (out : OutFile) : Nat → InFile → Install Bool
  | 0, _ => hang
  | rounds + 1, fp => do
      let (got, fp) ← fread fp zipIoBytes
      let wrote ← (if got ≠ [] then fwrite out got else pure true)
      if !wrote then pure false
      else if got.length < zipIoBytes then pure (!fp.err)
      else copyLoop out rounds fp

/-- `copy_file_atomic` up to the replacement. -/
def fillCopy (rounds : Nat) (src dst : Bytes) : Install Bool := do
  if !(← createParentDirectories dst) then pure false
  else
    match ← fopenRead src with
    | .error _ =>
        fails "Could not open extracted runtime resource:\n%s\nerrno=%d (%s)" [.name src, .errno]
    | .ok input =>
        if (tmpOf dst).length ≥ pathMax + 5 then
          fcloseRead input
          fails "IL2CPP cache path is too long." []
        else
          match ← fopenWrite (tmpOf dst) with
          | .error _ =>
              fcloseRead input
              fails "Could not create runtime cache file:\n%s\nerrno=%d (%s)"
                [.name (tmpOf dst), .errno]
          | .ok out =>
              let buf ← chance
              let ok ← (if buf then copyLoop out rounds input else pure false)
              let closed ← flush out
              fcloseRead input
              if !(ok && closed) then
                discard dst "Could not copy runtime resource:\n%s\n-> %s\nerrno=%d (%s)"
                  [.name src, .name dst, .errno]
              else pure true

/-- `copy_file_atomic` -/
def copyFileAtomic (rounds : Nat) (src dst : Bytes) : Install Bool := do
  if !(← fillCopy rounds src dst) then pure false
  else
    replaceFile dst "Could not finalize runtime cache file:\n%s\nerrno=%d (%s)" [.name dst, .errno]

/-! ## The caches -/

/-- `il2cpp_cache_files`, each with its source. -/
def il2cppCacheFiles : List (Bytes × Bytes) :=
  [(inDataRoot metadataName, inDataRoot (bytes "files/il2cpp/Metadata/global-metadata.dat")),
    (inDataRoot mscorlibName,
      inDataRoot (bytes "files/il2cpp/Resources/mscorlib.dll-resources.dat")),
    (inDataRoot systemDataName,
      inDataRoot (bytes "files/il2cpp/Resources/System.Data.dll-resources.dat")),
    (inDataRoot systemDrawingName,
      inDataRoot (bytes "files/il2cpp/Resources/System.Drawing.dll-resources.dat"))]

/-- The marker of the il2cpp caches. -/
def guidMarker : Bytes := inDataRoot (bytes "files/il2cpp/unity.ver")

/-- Reads up to 36 bytes of a file and closes it; with whether that was all. -/
def readGuid (fp : InFile) : Install (Bytes × Bool) := do
  let (got, fp) ← fread fp 36
  let (extra, fp) ← fread fp 1
  fcloseRead fp
  pure (got, extra = [])

/-- `il2cpp_marker_matches` -/
def il2cppMarkerMatches (guid : Bytes) : Install Bool := do
  match ← fopenRead guidMarker with
  | .error _ => pure false
  | .ok fp =>
      let (got, whole) ← readGuid fp
      pure (decide (got.length = 36 ∧ whole ∧ got = guid))

/-- The loop of `prepare_il2cpp_cache` that compares sizes. -/
def cachesReady (ready : Bool) : List (Bytes × Bytes) → Install Bool
  | [] => pure ready
  | (src, dst) :: files => do
      let same ← filesHaveSameSize src dst
      cachesReady (ready && same) files

/-- The loop of `prepare_il2cpp_cache` that copies. -/
def copyCaches (rounds : Nat) : List (Bytes × Bytes) → Install Bool
  | [] => pure true
  | (src, dst) :: files => do
      if !(← fileExistsNonempty src) then
        fails "An extracted Managed IL2CPP resource is missing." []
      else if !(← copyFileAtomic rounds src dst) then pure false
      else copyCaches rounds files

/-- The step of `prepare_il2cpp_cache` that writes its marker, up to the replacement. -/
def fillGuidMarker (guid : Bytes) : Install Bool := do
  if !(← createParentDirectories guidMarker) then pure false
  else if (tmpOf guidMarker).length ≥ pathMax + 5 then fails "IL2CPP marker path is too long." []
  else
    match ← fopenWrite (tmpOf guidMarker) with
    | .error _ => discard guidMarker "Could not write IL2CPP unity.ver." []
    | .ok m =>
        let wrote ← fwrite m guid
        let closed ← flush m
        if !(wrote && closed) then discard guidMarker "Could not write IL2CPP unity.ver." []
        else pure true

/-- The step of `prepare_il2cpp_cache` that writes its marker. -/
def writeGuidMarker (guid : Bytes) : Install Bool := do
  if !(← fillGuidMarker guid) then pure false
  else replaceFile guidMarker "Could not finalize IL2CPP unity.ver." []

/-- `prepare_il2cpp_cache` -/
def prepareIl2cppCache (rounds : Nat) : Install Bool := do
  match ← fopenRead (inDataRoot guidName) with
  | .error _ => fails "Missing extracted unity_app_guid." []
  | .ok fp =>
      let (guid, whole) ← readGuid fp
      if guid.length ≠ 36 ∨ !whole then fails "Extracted unity_app_guid is invalid." []
      else
        let ready ← il2cppMarkerMatches guid
        if ← cachesReady ready il2cppCacheFiles then pure true
        else if !(← copyCaches rounds il2cppCacheFiles) then pure false
        else writeGuidMarker guid

/-- `seed_english_localization_cache` -/
def seedEnglishLocalizationCache (rounds : Nat) : Install Bool := do
  let src := inDataRoot englishName
  let dst := inDataRoot (bytes "files/downloaded/live_English.bytes")
  match ← stat src with
  | .error _ => fails "Missing packaged assets/local/live_English.bytes." []
  | .ok srcSt =>
      if srcSt.isDir ∨ srcSt.size = 0 then
        fails "Missing packaged assets/local/live_English.bytes." []
      else
        let dstSt ← stat dst
        if dstSt = .ok srcSt then pure true
        else if !(← copyFileAtomic rounds src dst) then pure false
        else
          match ← stat dst with
          | .error _ => fails "Seeded live_English.bytes cache file is invalid." []
          | .ok dstSt =>
              if dstSt.size ≠ srcSt.size ∨ dstSt.size = 0 then
                fails "Seeded live_English.bytes cache file is invalid." []
              else pure true

end Asnx.Installer
