import Asnx.Installer.Paths

/-!
# Reading the archive

`zip_open` and `zip_visit`, and what they should find: `zipDirectory` and `centralEntries` read the
directory of an archive off its content.
-/

namespace Asnx.Installer

open Interrupted Files

/-- `rd16` -/
def rd16 (b : Bytes) (i : Nat) : Nat := (b[i]?.getD 0).toNat + 2 ^ 8 * (b[i + 1]?.getD 0).toNat

/-- `rd32` -/
def rd32 (b : Bytes) (i : Nat) : Nat := rd16 b i + 2 ^ 16 * rd16 b (i + 2)

theorem rd16_lt (b : Bytes) (i : Nat) : rd16 b i < 2 ^ 16 := by
  have hlow := (b[i]?.getD 0).toNat_lt
  have hhigh := (b[i + 1]?.getD 0).toNat_lt
  unfold rd16
  omega

theorem rd32_lt (b : Bytes) (i : Nat) : rd32 b i < 2 ^ 32 := by
  have hlow := rd16_lt b i
  have hhigh := rd16_lt b (i + 2)
  unfold rd32
  omega

/-- `ZIP_NAME_MAX` -/
def zipNameMax : Nat := 768

def uint32Max : Nat := 2 ^ 32 - 1

structure ZipArchive where
  fp : InFile
  entries : Nat
  cdOffset : Nat

/-- `n` bytes of a file from a position on, as far as it has them. -/
def slice (content : Bytes) (pos n : Nat) : Bytes := (content.drop pos).take n

/-! ## The directory of an archive -/

/-- The loop of `zip_open` that looks for the end record, from a position downwards. -/
def findEndRecord (tail : Bytes) (pos : Nat) : Option Nat :=
  if rd32 tail pos = 0x06054b50 then some pos
  else
    match pos with
    | 0 => none
    | pos + 1 => findEndRecord tail pos

/-- The number of entries and the offset of the directory, from the end of the archive. -/
def directoryOf (tail : Bytes) : Option (Nat × Nat) :=
  match findEndRecord tail (tail.length - 22) with
  | none => none
  | some pos =>
      if rd16 tail (pos + 10) = 0 ∨ rd32 tail (pos + 16) = uint32Max then none
      else some (rd16 tail (pos + 10), rd32 tail (pos + 16))

/-- The most that `zip_open` reads. -/
def tailBytes : Nat := 0x10016

/-- The number of entries and the offset of the directory of an archive. -/
def zipDirectory (apk : Bytes) : Option (Nat × Nat) :=
  if apk.length < 22 then none
  else directoryOf (apk.drop (apk.length - min apk.length tailBytes))

/-- The header of a record of the directory is one that is accepted. -/
def acceptable (h : Bytes) : Bool :=
  h.length = 46 ∧ rd32 h 0 = 0x02014b50 ∧ rd16 h 28 ≠ 0 ∧ rd16 h 28 < zipNameMax

/-- A size or an offset of a record is in another place. -/
def isZip64 (h : Bytes) : Bool :=
  rd32 h 20 = uint32Max ∨ rd32 h 24 = uint32Max ∨ rd32 h 42 = uint32Max

/-- The entry of a record; its name ends at the first zero byte. -/
def entryOf (h name : Bytes) : ZipEntry where
  name := name.takeWhile (· ≠ 0)
  flags := rd16 h 8
  method := rd16 h 10
  crc32 := UInt32.ofNat (rd32 h 16)
  csize := rd32 h 20
  usize := rd32 h 24
  localOffset := rd32 h 42

/-- The entry whose record is at a position, and the position of the next record. -/
def centralEntry (apk : Bytes) (pos : Nat) : Option (ZipEntry × Nat) :=
  let h := slice apk pos 46
  let name := slice apk (pos + 46) (rd16 h 28)
  if acceptable h ∧ ¬ isZip64 h ∧ name.length = rd16 h 28 then
    some (entryOf h name, pos + 46 + rd16 h 28 + (rd16 h 30 + rd16 h 32))
  else none

/-- The entries of `n` records from a position on. -/
def centralEntries (apk : Bytes) : Nat → Nat → Option (List ZipEntry)
  | _, 0 => some []
  | pos, n + 1 =>
      match centralEntry apk pos with
      | none => none
      | some (e, next) =>
          match centralEntries apk next n with
          | none => none
          | some es => some (e :: es)

/-- The entries of the records up to the first that cannot be read, of `n` records from a position
on. -/
def readableEntries (apk : Bytes) : Nat → Nat → List ZipEntry
  | _, 0 => []
  | pos, n + 1 =>
      match centralEntry apk pos with
      | none => []
      | some (e, next) => e :: readableEntries apk next n

/-- The entries of an archive. -/
def apkEntries (apk : Bytes) : Option (List ZipEntry) :=
  match zipDirectory apk with
  | none => none
  | some (entries, cdOffset) => centralEntries apk cdOffset entries

/-! ## The code -/

/-- `zip_open`; `none` stands for -1. -/
def zipOpen (path : Bytes) : Install (Option ZipArchive) := do
  match ← fopenRead path with
  | .error _ => pure none
  | .ok fp =>
      let bad : Install (Option ZipArchive) := do
        fcloseRead fp
        pure none
      match ← fseekEnd fp with
      | none => bad
      | some fp =>
          match ← ftell fp with
          | none => bad
          | some size =>
              if size < 22 then bad
              else
                let tailN := min size tailBytes
                if !(← chance) then bad
                else
                  match ← fseek fp (some (size - tailN)) with
                  | none => bad
                  | some fp =>
                      let (tail, fp) ← fread fp tailN
                      if tail.length ≠ tailN then bad
                      else
                        match directoryOf tail with
                        | none => bad
                        | some (entries, cdOffset) => pure (some ⟨fp, entries, cdOffset⟩)

/-- The part of the loop of `zip_visit` that reads a record and skips what follows its name. -/
def readRecord (fp : InFile) : Install (Option (ZipEntry × InFile)) := do
  let (h, fp) ← fread fp 46
  if !acceptable h then pure none
  else if isZip64 h then
    let _ ← fails "ZIP64 game.apk files are not supported by this installer." []
    pure none
  else
    let (name, fp) ← fread fp (rd16 h 28)
    if name.length ≠ rd16 h 28 then pure none
    else
      match ← fseek fp (some (fp.pos + (rd16 h 30 + rd16 h 32))) with
      | none => pure none
      | some fp => pure (some (entryOf h name, fp))

/-- A visitor works on an entry, and may move the position of the archive. -/
abbrev ZipVisitor (α : Type) := InFile → ZipEntry → α → Install (Bool × InFile × α)

/-- The loop of `zip_visit` over the records that are left. -/
def visitRecords {α : Type} (visitor : ZipVisitor α) : Nat → InFile → α → Install (Bool × α)
  | 0, _, user => pure (true, user)
  | n + 1, fp, user => do
      match ← readRecord fp with
      | none => pure (false, user)
      | some (e, fp) =>
          let next ← ftell fp
          let (ok, fp, user) ← visitor fp e user
          if !ok then pure (false, user)
          else
            match ← fseek fp next with
            | none => pure (false, user)
            | some fp => visitRecords visitor n fp user

/-- `zip_visit` -/
def zipVisit {α : Type} (z : ZipArchive) (visitor : ZipVisitor α) (user : α) :
    Install (Bool × α) := do
  match ← fseek z.fp (some z.cdOffset) with
  | none => pure (false, user)
  | some fp => visitRecords visitor z.entries fp user

end Asnx.Installer
