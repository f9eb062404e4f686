import Asnx.Installer.Zip
import Asnx.Library.Checksums

/-!
# Extracting entries

Which entries are selected, where they go (`install_entry_target`), and how an entry is extracted
(`extract_entry`): into a sibling whose name ends in `.tmp`, which then takes the place of the
target. What zlib decodes is a parameter.
-/

namespace Asnx.Installer

open Interrupted Files Zlib

/-! ## Targets -/

/-- The entries that an archive must have, each with its `INSTALL_REQ_` bit. -/
inductive Required where
  | manifest
  | main
  | unity
  | il2cpp
  | metadata
  | data
  | resources
  | guid
  | mscorlib
  | systemData
  | systemDrawing
  | english
  deriving DecidableEq, Repr

/-- All required entries. -/
def allRequired : List Required :=
  [.manifest, .main, .unity, .il2cpp, .metadata, .data, .resources, .guid, .mscorlib, .systemData,
    .systemDrawing, .english]

def manifestName : Bytes := bytes "AndroidManifest.xml"
/-- `LIB_MAIN` -/
def libMain : Bytes := bytes "libmain.so"
/-- `LIB_UNITY` -/
def libUnity : Bytes := bytes "libunity.so"
/-- `LIB_IL2CPP` -/
def libIl2cpp : Bytes := bytes "libil2cpp.so"
def metadataName : Bytes := bytes "assets/bin/Data/Managed/Metadata/global-metadata.dat"
def dataName : Bytes := bytes "assets/bin/Data/data.unity3d"
def resourcesName : Bytes := bytes "assets/bin/Data/resources.resource"
def guidName : Bytes := bytes "assets/bin/Data/unity_app_guid"
def mscorlibName : Bytes := bytes "assets/bin/Data/Managed/Resources/mscorlib.dll-resources.dat"
def systemDataName : Bytes :=
    bytes "assets/bin/Data/Managed/Resources/System.Data.dll-resources.dat"
def systemDrawingName : Bytes :=
  bytes "assets/bin/Data/Managed/Resources/System.Drawing.dll-resources.dat"
def englishName : Bytes := bytes "assets/local/live_English.bytes"

/-- The required assets. -/
def requiredAsset (name : Bytes) : Option Required :=
  if name = metadataName then some .metadata
  else if name = dataName then some .data
  else if name = resourcesName then some .resources
  else if name = guidName then some .guid
  else if name = mscorlibName then some .mscorlib
  else if name = systemDataName then some .systemData
  else if name = systemDrawingName then some .systemDrawing
  else if name = englishName then some .english
  else none

/-- The required libraries. -/
def requiredLibrary (name : Bytes) : Option Required :=
  if name = libMain then some .main
  else if name = libUnity then some .unity
  else if name = libIl2cpp then some .il2cpp
  else none

/-- What `install_entry_target` returns: -1 with its message, 0, or 1 with the target and the
required bit. -/
inductive Selection where
  | error (m : Message)
  | skip
  | select (target : Bytes) (required : Option Required)

/-- A target that fits in its array. -/
def selectTarget (name : Bytes) (required : Option Required) (tooLong : Message) : Selection :=
  if (inDataRoot name).length ≥ pathMax then .error tooLong else .select (inDataRoot name) required

/-- `install_entry_target` -/
def installEntryTarget (e : ZipEntry) : Selection :=
  if e.name = manifestName then
    selectTarget manifestName (some .manifest) ⟨"AndroidManifest.xml target path is too long.", []⟩
  else if (bytes "assets/").isPrefixOf e.name then
    if hasTrailingSlash e.name then .skip
    else if !isSafeRelativePath e.name then
      .error ⟨"Unsafe path found in game.apk:\n%s", [.name e.name]⟩
    else
      selectTarget e.name (requiredAsset e.name)
        ⟨"Extracted asset path is too long:\n%s", [.name e.name]⟩
  else if (bytes "lib/arm64-v8a/").isPrefixOf e.name then
    let name := e.name.drop 14
    if name ≠ libMain ∧ name ≠ libUnity ∧ name ≠ libIl2cpp then .skip
    else
      selectTarget name (requiredLibrary name)
        ⟨"Extracted library path is too long:\n%s", [.name e.name]⟩
  else .skip

/-! ## The content of an entry -/

/-- The position of the bytes of an entry behind its local header. -/
def dataPos (apk : Bytes) (e : ZipEntry) : Nat :=
  let lh := slice apk e.localOffset 30
  e.localOffset + 30 + (rd16 lh 26 + rd16 lh 28)

/-- The uncompressed bytes of an entry. -/
def entryBytes (decode : Bytes → Option Bytes) (apk : Bytes) (e : ZipEntry) : Option Bytes :=
  let data := slice apk (dataPos apk e) e.csize
  if e.method = 0 then if data.length = e.csize then some data else none else decode data

/-! ## The code -/

/-- What the loops of `extract_entry` end with: `ok`, the number of bytes written, their checksum,
and the position of the archive. -/
structure Copied where
  ok : Bool
  written : Nat
  crc : UInt32
  fp : InFile

/-- The loop for a stored entry, with `left` bytes left. It goes round at most that often. -/
def copyStored (out : OutFile) : Nat → Nat → Copied → Install Copied
  | 0, _, c => pure c
  | fuel + 1, left, c =>
      if left = 0 then pure c
      else do
        let n := if left < zipIoBytes then left else zipIoBytes
        let (got, fp) ← fread c.fp n
        if got.length ≠ n then pure { c with ok := false, fp := fp }
        else if !(← fwrite out got) then
          pure { c with ok := false, crc := Zlib.crc32 c.crc got, fp := fp }
        else copyStored out fuel (left - n) ⟨c.ok, c.written + n, Zlib.crc32 c.crc got, fp⟩

/-- How much of the `left` bytes the loop for a deflated entry reads next: nothing as long as the
decoder has not consumed what was read before. -/
def refill (avail : Bytes) (left : Nat) : Nat :=
  if avail = [] ∧ left ≠ 0 then if left < zipIoBytes then left else zipIoBytes else 0

/-- A round of the loop for a deflated entry after its call of `inflate`: it writes what was made,
and goes on with `more` unless the decoding has ended. -/
def afterInflate {State : Type} (out : OutFile) (c : Copied) (avail : Bytes) (left : Nat)
    (more : State → Bytes → Copied → Install Copied) :
    Status × State × Nat × Bytes → Install Copied
  | (status, s, consumed, made) => do
      let wrote ← (if made ≠ [] then fwrite out made else pure true)
      let crc := if made ≠ [] then Zlib.crc32 c.crc made else c.crc
      if !wrote then pure { c with ok := false, crc := crc }
      else
        match status with
        | .streamEnd => pure ⟨c.ok, c.written + made.length, crc, c.fp⟩
        | .failed => pure ⟨false, c.written + made.length, crc, c.fp⟩
        | .bufError =>
            if left = 0 ∧ avail.drop consumed = [] then
              pure ⟨false, c.written + made.length, crc, c.fp⟩
            else more s (avail.drop consumed) ⟨c.ok, c.written + made.length, crc, c.fp⟩
        | .ok => more s (avail.drop consumed) ⟨c.ok, c.written + made.length, crc, c.fp⟩

/-- The loop for a deflated entry: `avail` is the input that the decoder has not consumed, and
`left` the number of bytes still to read. Beyond the given number of rounds the loop is taken to be
one without end. -/
def copyInflated (Z : Inflater) (out : OutFile) :
    Nat → Z.State → Bytes → Nat → Copied → Install Copied
  | 0, _, _, _, _ => hang
  | fuel + 1, s, avail, left, c => do
      let (got, fp) ← (if refill avail left ≠ 0 then fread c.fp (refill avail left)
        else pure ([], c.fp))
      if got.length ≠ refill avail left then pure { c with ok := false, fp := fp }
      else
        afterInflate out { c with fp := fp } (avail ++ got) (left - refill avail left)
          (fun s avail' c => copyInflated Z out fuel s avail' (left - refill avail left) c)
          (Z.inflate s (avail ++ got) zipIoBytes (left - refill avail left = 0))

/-- The part of `extract_entry` that fills the `.tmp` file. The loop for a deflated entry has
`rounds` rounds. -/
def copyEntry (Z : Inflater) (rounds : Nat) (fp : InFile) (e : ZipEntry) (out : OutFile) :
    Install Copied := do
  if e.method = 0 then copyStored out e.csize e.csize ⟨true, 0, 0, fp⟩
  else if !(← chance) then pure ⟨false, 0, 0, fp⟩
  else copyInflated Z out rounds Z.start [] e.csize ⟨true, 0, 0, fp⟩

/-- Removes the `.tmp` sibling of a file and fails. -/
def discard (target : Bytes) (format : String) (args : List Arg) : Install Bool := do
  let _ ← remove (tmpOf target)
  fails format args

/-- The part of `extract_entry` that closes the `.tmp` file and checks what has been written. -/
def checkEntry (e : ZipEntry) (target : Bytes) (out : OutFile) (c : Copied) : Install Bool := do
  let closed ← flush out
  if !(c.ok && closed) ∨ c.written ≠ e.usize then
    discard target
      "APK extraction failed or was truncated:\n%s\nexpected=%llu bytes, wrote=%llu bytes\nerrno=%d (%s)"
      [.name e.name, .number e.usize, .number c.written, .errno]
  else if c.crc ≠ e.crc32 then
    discard target
      "APK CRC check failed for:\n%s\nexpected=%08x got=%08x\n\ngame.apk may be incomplete or corrupted."
      [.name e.name, .number e.crc32.toNat, .number c.crc.toNat]
  else pure true

/-- The part of `extract_entry` that begins with the `.tmp` file and ends with its checks. -/
def fillSibling (Z : Inflater) (rounds : Nat) (fp : InFile) (e : ZipEntry) (target : Bytes) :
    Install (Bool × InFile) := do
  match ← fopenWrite (tmpOf target) with
  | .error _ =>
      let r ← fails "Could not create extracted file:\n%s\nerrno=%d (%s)"
        [.name (tmpOf target), .errno]
      pure (r, fp)
  | .ok out =>
      let input ← chance
      let output ← chance
      if !(input && output) then
        let _ ← flush out
        let r ← discard target "Not enough memory for the APK extraction buffers." []
        pure (r, fp)
      else
        let c ← copyEntry Z rounds fp e out
        let r ← checkEntry e target out c
        pure (r, c.fp)

/-- `extract_entry` up to the replacement of the target. -/
def fillEntry (Z : Inflater) (rounds : Nat) (fp : InFile) (e : ZipEntry) (target : Bytes) :
    Install (Bool × InFile) := do
  if e.flags &&& 1 ≠ 0 then
    let r ← fails "Encrypted ZIP entries are unsupported." []
    pure (r, fp)
  else if e.method ≠ 0 ∧ e.method ≠ 8 then
    let r ← fails "game.apk uses an unsupported ZIP compression method." []
    pure (r, fp)
  else
    match ← fseek fp (some e.localOffset) with
    | none =>
        let r ← fails "Bad APK local ZIP header." []
        pure (r, fp)
    | some fp =>
        let (lh, fp) ← fread fp 30
        if lh.length ≠ 30 ∨ rd32 lh 0 ≠ 0x04034b50 then
          let r ← fails "Bad APK local ZIP header." []
          pure (r, fp)
        else
          match ← fseek fp (some (fp.pos + (rd16 lh 26 + rd16 lh 28))) with
          | none => pure (false, fp)
          | some fp =>
              if !(← createParentDirectories target) then pure (false, fp)
              else if (tmpOf target).length ≥ pathMax + 5 then
                let r ← fails "Extracted file path is too long." []
                pure (r, fp)
              else fillSibling Z rounds fp e target

/-- The replacement of a file by its `.tmp` sibling, with the message of its failure: the end of
`extract_entry` and of the other functions that write a sibling first. -/
def replaceFile (target : Bytes) (format : String) (args : List Arg) : Install Bool := do
  let _ ← remove target
  match ← rename (tmpOf target) target with
  | .error _ => discard target format args
  | .ok _ => pure true

/-- `extract_entry` -/
def extractEntry (Z : Inflater) (rounds : Nat) (fp : InFile) (e : ZipEntry) (target : Bytes) :
    Install (Bool × InFile) := do
  note fun files => .extracting files e
  let (filled, fp) ← fillEntry Z rounds fp e target
  if !filled then pure (false, fp)
  else
    let r ← replaceFile target "Could not finalize extracted file:\n%s\nerrno=%d (%s)"
      [.name target, .errno]
    if !r then pure (false, fp)
    else
      note fun files => .extracted files e target
      pure (true, fp)

/-- The number of files extracted, and which required entries have been seen. -/
structure InstallState where
  files : Nat
  seen : List Required

/-- `install_visitor` -/
def installVisitor (Z : Inflater) (rounds : Nat) : ZipVisitor InstallState := fun fp e s =>
  match installEntryTarget e with
  | .error m => do
      let r ← fails m.format m.args
      pure (r, fp, s)
  | .skip => pure (true, fp, s)
  | .select target required => do
      let s := { s with seen := s.seen ++ required.toList }
      let (ok, fp) ← extractEntry Z rounds fp e target
      if !ok then pure (false, fp, s) else pure (true, fp, { s with files := s.files + 1 })

end Asnx.Installer
