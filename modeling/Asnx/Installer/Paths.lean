import Asnx.Library.Files
import Mathlib.Data.List.Infix

/-!
# What the installer works on

The paths of `source/config.h`, the memory of `source/installer.c`, and its helpers for paths and
directories. Besides the variables of the source the memory keeps `notes`, which no code reads: they
record for the theorems what the installer was doing, with the files at that time.

The console and the log are left out.
-/

namespace Asnx.Installer

open Interrupted Files

/-! ## Paths -/

/-- `GAME_HOME` -/
def gameHome : Bytes := bytes "sdmc:/switch/angrybirdas_nx"
/-- `INSTALL_APK` -/
def installApk : Bytes := bytes "sdmc:/switch/angrybirdas_nx/game.apk"
/-- `DATA_ROOT` -/
def dataRoot : Bytes := bytes "sdmc:/switch/angrybirdas_nx/runtime"
/-- `INSTALL_MARKER` -/
def installMarker : Bytes := bytes "sdmc:/switch/angrybirdas_nx/runtime/.installed-1.2.8.1"

/-- `DATA_ROOT "/..."` -/
def inDataRoot (name : Bytes) : Bytes := dataRoot ++ 47 :: name

/-- The sibling that a file is written to before it is renamed. -/
def tmpOf (name : Bytes) : Bytes := name ++ bytes ".tmp"

/-- `PATH_MAX` of the platform -/
def pathMax : Nat := 1024
/-- `GAME_PACKAGE` -/
def gamePackage : Bytes := bytes "com.dripmissouri.refreshed"
/-- `UNITY_VERSION` -/
def unityVersion : Bytes := bytes "6000.3.5f2"
/-- `ZIP_IO_BYTES` -/
def zipIoBytes : Nat := 128 * 1024
/-- `INSTALL_SPACE_RESERVE_BYTES` -/
def installSpaceReserveBytes : Nat := 64 * 1024 * 1024

/-! ## Memory -/

/-- An argument of an error message; `errno` stands for the two of the current error number. -/
inductive Arg where
  | name (b : Bytes)
  | number (n : Nat)
  | errno

/-- The text of `g_error`, with the arguments of its format. -/
structure Message where
  format : String
  args : List Arg

/-- A ZIP entry; its name is a C string. -/
structure ZipEntry where
  name : Bytes
  flags : Nat
  method : Nat
  crc32 : UInt32
  csize : Nat
  usize : Nat
  localOffset : Nat
  deriving DecidableEq

/-- What the manifest says; the two texts are arrays of 128 bytes. -/
structure Manifest where
  package : Bytes
  versionName : Bytes
  versionCode : Int
  minSdk : Int
  targetSdk : Int

/-- The contents of all files. -/
abbrev Contents := Path → Option Bytes

/-- What the installer was doing at some time. -/
inductive Note where
  /-- The user has put another `game.apk` in place. -/
  | placed (files : Contents)
  /-- The installer has started. -/
  | started
  /-- It has found an installation that is complete. -/
  | fastPath (files : Contents)
  /-- It begins to extract an entry. -/
  | extracting (files : Contents) (e : ZipEntry)
  /-- It has extracted an entry to the given path. -/
  | extracted (files : Contents) (e : ZipEntry) (target : Bytes)
  /-- It is about to remove `game.apk`. -/
  | removing (files : Contents)

/-- The variables of the installer, and the notes. -/
structure Memory where
  gError : Option Message
  gManifest : Manifest
  notes : List Note

/-- The static initial values. -/
def Memory.init : Memory :=
  ⟨none, ⟨List.replicate 128 0, List.replicate 128 0, -1, -1, -1⟩, []⟩

abbrev Install := Prog (World Memory)

/-- Sets variables. -/
def modifyMemory (f : Memory → Memory) : Install Unit :=
  update fun w => ((), { w with rest := f w.rest })

def getMemory : Install Memory := update fun w => (w.rest, w)

/-- Takes a note. -/
def note (f : Contents → Note) : Install Unit :=
  update fun w => ((), { w with rest := { w.rest with notes := w.rest.notes ++ [f w.fs.file] } })

/-- `installer_set_error` and `installer_set_errorf`, followed by the return of -1 -/
def fails (format : String) (args : List Arg) : Install Bool := do
  modifyMemory fun m => { m with gError := some ⟨format, args⟩ }
  pure false

/-! ## Files and directories -/

/-- `file_exists_nonempty` -/
def fileExistsNonempty (p : Bytes) : Install Bool := do
  match ← stat p with
  | .ok s => pure (decide (s.size > 0))
  | .error _ => pure false

/-- `is_safe_relative_path` -/
def isSafeRelativePath (p : Bytes) : Bool :=
  p ≠ [] ∧ p.head? ≠ some 47 ∧ ¬ bytes ".." <:+: p ∧ 92 ∉ p

/-- `has_trailing_slash` -/
def hasTrailingSlash (p : Bytes) : Bool := p.getLast? = some 47

/-- `ensure_directory` -/
def ensureDirectory (path : Bytes) : Install Bool := do
  match ← stat path with
  | .ok s =>
      if s.isDir then pure true
      else fails "Install path exists but is not a directory:\n%s" [.name path]
  | .error _ =>
      match ← mkdir path with
      | .ok _ => pure true
      | .error _ =>
          fails "Could not create install directory:\n%s\nerrno=%d (%s)" [.name path, .errno]

/-- `verify_install_location_writable` -/
def verifyInstallLocationWritable : Install Bool := do
  if !(← ensureDirectory gameHome) then pure false
  else if !(← ensureDirectory dataRoot) then pure false
  else
    let probe := inDataRoot (bytes ".installer_write_test.tmp")
    match ← fopenWrite probe with
    | .error _ =>
        fails "The SD card/runtime directory is not writable:\n%s\nerrno=%d (%s)"
          [.name dataRoot, .errno]
    | .ok f =>
        let wrote ← fwrite f [0x5a]
        let flushed ← (if wrote then flush f else pure false)
        let closed ← flush f
        let removed ← remove probe
        if flushed ∧ closed ∧ (removed = .ok () ∨ removed = .error .enoent) then pure true
        else
          fails "Write test failed in the runtime directory. The SD card may be full, read-only, or damaged.\nerrno=%d (%s)"
            [.errno]

/-- `query_sd_space`, with the free space in bytes; what it says of the whole space is only
shown. -/
def querySdSpace : Install (Option Nat) := do
  if !(← chance) then
    let _ ← fails "The SD card filesystem is not mounted (sdmc unavailable)." []
    pure none
  else
    match ← step fun d w => (if d.fails then none else some d.amount, w) with
    | none =>
        let _ ← fails "Could not query free SD-card space (Result 0x%08x)." [.errno]
        pure none
    | some free =>
        if !(← chance) then
          let _ ← fails "Could not query total SD-card space (Result 0x%08x)." [.errno]
          pure none
        else pure (some free)

/-- The loop of `create_parent_directories` over what is left of the path. -/
def createDirectories (done : Bytes) : Bytes → Install Bool
  | [] => pure true
  | c :: rest =>
      if c ≠ 47 then createDirectories (done ++ [c]) rest
      else do
        match ← mkdir done with
        | .ok _ | .error .eexist => createDirectories (done ++ [c]) rest
        | .error _ =>
            fails "Could not create runtime directory:\n%s\nerrno=%d (%s)" [.name done, .errno]

/-- `create_parent_directories` -/
def createParentDirectories (filename : Bytes) : Install Bool :=
  let p := filename.take (pathMax - 1)
  if !dataRoot.isPrefixOf p ∨
    (p[dataRoot.length]?.getD 0 ≠ 47 ∧ p[dataRoot.length]?.getD 0 ≠ 0) then
    fails "Refusing to extract outside the runtime directory." []
  else
    let start := dataRoot.length + if p[dataRoot.length]?.getD 0 = 47 then 1 else 0
    createDirectories (p.take start) (p.drop start)

end Asnx.Installer
