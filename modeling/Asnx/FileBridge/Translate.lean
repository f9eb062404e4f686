import Asnx.Installer.Paths
import Asnx.Library.Searching

/-!
# Paths of the guest

`file_translate` of `source/file_bridge.c`, which maps the paths that the guest uses for its files
to paths below `DATA_ROOT`. A C string is its bytes without the zero at the end.
-/

namespace Asnx.FileBridge

open Files Searching
open Installer (dataRoot installApk)

/-- `ANDROID_DATA_DIR` -/
def androidDataDir : Bytes := bytes "/data/data/com.dripmissouri.refreshed"
/-- `ANDROID_FILES_DIR` -/
def androidFilesDir : Bytes := androidDataDir ++ bytes "/files"
/-- `ANDROID_EXTERNAL_FILES_DIR` -/
def androidExternalFilesDir : Bytes :=
  bytes "/storage/emulated/0/Android/data/com.dripmissouri.refreshed/files"

/-- `.apk/assets/` and `.apk!/assets/` -/
def apkMarker : Bytes := bytes ".apk/assets/"
def apkMarkerBang : Bytes := bytes ".apk!/assets/"

/-- The paths that have a file of their own name below `DATA_ROOT`. -/
def virtualPaths : List Bytes :=
  [bytes "/proc/cpuinfo", bytes "/proc/meminfo", bytes "/sys/devices/system/cpu/present",
    bytes "/sys/devices/system/cpu/possible"]

/-- `p[n]=='/'||p[n]=='\0'` -/
def endsHere (rest : Bytes) : Bool := rest = [] ∨ rest.head? = some 47

/-- What a path has below a directory. -/
def below (dir p : Bytes) : Option Bytes := (after dir p).filter endsHere

/-- A path below one of the two directories of the guest. -/
def isAndroid (p : Bytes) : Bool :=
  (below androidDataDir p).isSome ∨ (below androidExternalFilesDir p).isSome

/-- `strip_runtime_prefixed_android_path` -/
def stripRuntimePrefixedAndroidPath (p : Bytes) : Bytes :=
  match below dataRoot p with
  | none => p
  | some nested => if isAndroid nested then nested else p

/-- `/sys/devices/system/cpu/cpu` and somewhere `/cpu_capacity` -/
def isCpuCapacity (p : Bytes) : Bool :=
  bytes "/sys/devices/system/cpu/cpu" <+: p ∧ (strstr (bytes "/cpu_capacity") p).isSome

/-- The paths of the system, and the APK. -/
def systemPath (p : Bytes) : Option Bytes :=
  if p ∈ virtualPaths then some (dataRoot ++ p)
  else if isCpuCapacity p then some (dataRoot ++ p)
  else if p = installApk then some dataRoot
  else none

/-- What follows the first marker, where `.apk/assets/` goes before `.apk!/assets/`. -/
def apkAssets (p : Bytes) : Option Bytes :=
  match strstr apkMarker p with
  | some found => some (found.drop apkMarker.length)
  | none => (strstr apkMarkerBang p).map (List.drop apkMarkerBang.length)

/-- The paths of assets. -/
def assetPath (p : Bytes) : Option Bytes :=
  match apkAssets p with
  | some rest => some (dataRoot ++ bytes "/assets/" ++ rest)
  | none =>
      match after (bytes "/assets/") p with
      | some rest => some (dataRoot ++ bytes "/assets/" ++ rest)
      | none => if bytes "assets/" <+: p then some (dataRoot ++ bytes "/" ++ p) else none

/-- The paths below the directories of the guest. -/
def androidPath (p : Bytes) : Option Bytes :=
  match below androidDataDir (stripRuntimePrefixedAndroidPath p) with
  | some rest => some (dataRoot ++ rest)
  | none =>
      match below androidExternalFilesDir (stripRuntimePrefixedAndroidPath p) with
      | some rest => some (dataRoot ++ bytes "/files" ++ rest)
      | none => none

/-- The loop that drops `DATA_ROOT` before another one; every turn shortens the path. -/
def collapse : Nat → Bytes → Bytes
  | 0, host => host
  | turns + 1, host =>
      match after (dataRoot ++ [47]) host with
      | none => host
      | some nested => if (below dataRoot nested).isSome then collapse turns nested else host

/-- The host path without nested roots. -/
def hostPath (p : Bytes) : Bytes := collapse p.length p

/-- What `file_translate` prints, and what it returns. -/
def translation (p : Bytes) : Bytes × Bool :=
  match systemPath p, assetPath p, androidPath p with
  | some out, _, _ => (out, true)
  | none, some out, _ => (out, true)
  | none, none, some out => (out, true)
  | none, none, none => (hostPath p, decide (hostPath p ≠ p))

/-- `file_translate`; the buffer stays as it is when it has no room at all. -/
def fileTranslate (p : Bytes) (cap : Nat) : Option Bytes × Bool :=
  if cap = 0 then (none, false)
  else (some ((translation p).1.take (cap - 1)), (translation p).2)

end Asnx.FileBridge
