import Asnx.Library.Accesses
import Asnx.Loader.Elf

/-!
# Loading modules

`so_load` and `so_check_build_id` of `source/so_util.c`. They report every read from the image of
the file and every write to the memory that the module is loaded to. An address that lies outside
the image wraps around as the pointer does, and what is read there is left open (`outside`).
-/

namespace Asnx.Loader

open ByteMemory Files Tracing

/-- A read of the image, or a write to the memory at `load_base`, of a number of bytes. -/
inductive Access where
  | read (a : Word) (n : Nat)
  | write (a : Word) (n : Nat)

/-- What `so_load` is called with, and what the calls that it makes come to: the content of the file
(`none` if it cannot be opened), whether its size is told, whether the image is allocated and the
file is read in full, what lies around the image, and what `virtmemFindCodeMemory` (0 for none) and
`virtmemAddReservation` return. -/
structure LoadCall where
  file : Option Bytes
  told : Bool
  allocated : Bool
  readWhole : Bool
  outside : Memory
  base : Word
  maxSize : Word
  virtbase : Word
  reserved : Bool

/-- The state is the memory at `load_base`; an early return has its number. -/
abbrev Load := Traced Memory Access Int

/-- The image of a file, and what lies around it. -/
def imageOf (file : Bytes) (outside : Memory) : Memory := fun a =>
  if a.toNat < file.length then file.getD a.toNat 0 else outside a

section Reads

variable (image : Memory)

/-- Reads a number of `n` bytes. -/
def readNum (a : Word) (n : Nat) : Load Nat := do
  access (.read a n)
  pure (load image a n)

/-- Reads a word. -/
def readWord (a : Word) : Load Word := do
  access (.read a 8)
  pure (load64 image a)

/-- `strcmp` of the string at an address with a constant, and whether there is no difference -/
def compare (a : Word) : Bytes → Load Bool
  | [] => do
      access (.read a 1)
      pure (decide (image a = 0))
  | c :: cs => do
      access (.read a 1)
      if image a = c then compare (a + 1) cs else pure false

end Reads

/-- `EM_AARCH64` -/
def emAarch64 : Nat := 183
/-- `SO_MAX_SEGMENTS` -/
def soMaxSegments : Nat := 16
/-- The four bytes of `ELFMAG` -/
def elfMag : Nat := 0x464c457f

/-- `ALIGN_MEM` of a `size_t` for a power of 2 -/
def alignMem (x : Word) (k : Nat) : Word :=
    BitVec.ofNat 64 ((x + BitVec.ofNat 64 (2 ^ k - 1)).toNat / 2 ^ k * 2 ^ k)

/-- The loop of `so_load` for the end of the segments, over what is left of the headers. -/
def findEnd (image : Memory) (headers : Word) : List Nat → Word → Load Word
  | [], hi => pure hi
  | i :: is, hi => do
      let type ← readNum image (entry headers 56 i) 4
      if type = ptLoad then
        let vaddr ← readWord image (entry headers 56 i + 16)
        let memsz ← readWord image (entry headers 56 i + 40)
        findEnd image headers is (if vaddr + memsz > hi then vaddr + memsz else hi)
      else findEnd image headers is hi

/-- `memcpy` of a part of the image -/
def copyFrom (image : Memory) (dst src : Word) (n : Nat) : Load Unit := do
  access (.read src n)
  access (.write dst n)
  modify fun mem x => if (x - dst).toNat < n then image (x - dst + src) else mem x

/-- The loop of `so_load` that copies the segments. -/
def copySegments (image : Memory) (size : Nat) (headers : Word) : List Nat → Load Unit
  | [] => pure ()
  | i :: is => do
      let type ← readNum image (entry headers 56 i) 4
      if type = ptLoad then
        let filesz ← readWord image (entry headers 56 i + 32)
        if filesz ≠ 0 then
          let offset ← readWord image (entry headers 56 i + 8)
          if (offset + filesz).toNat > size then fail (-9)
          else
            let vaddr ← readWord image (entry headers 56 i + 16)
            copyFrom image vaddr offset filesz.toNat
            copySegments image size headers is
        else copySegments image size headers is
      else copySegments image size headers is

/-- What the loop over the sections has found: the offsets of the symbols and of their names, and
the number of the symbols. -/
structure Found where
  syms : Option Word
  numSyms : Int
  dynstrtab : Option Word

/-- The loop of `so_load` over the sections. -/
def findSections (image : Memory) (sections names : Word) : List Nat → Found → Load Found
  | [], found => do
      let _ ← readNum image 60 2
      pure found
  | i :: is, found => do
      let _ ← readNum image 60 2
      let name ← readNum image (entry sections 64 i) 4
      if ← compare image (names + BitVec.ofNat 64 name) (bytes ".dynsym") then
        let addr ← readWord image (entry sections 64 i + 16)
        let size ← readWord image (entry sections 64 i + 32)
        findSections image sections names is
          { found with syms := some addr, numSyms := toInt (size.toNat / 24) }
      else if ← compare image (names + BitVec.ofNat 64 name) (bytes ".dynstr") then
        let addr ← readWord image (entry sections 64 i + 16)
        findSections image sections names is { found with dynstrtab := some addr }
      else findSections image sections names is found

/-- The pointer to something at an offset from `load_base`; a null pointer for nothing. -/
def pointer (base : Word) : Option Word → Word
  | none => 0
  | some a => base + a

/-- `so_load` from the check of the magic number on, for a file of the given size. -/
def loadImage (C : LoadCall) (image : Memory) (size : Nat) : Load SoModule := do
  let magic ← readNum image 0 4
  if magic ≠ elfMag then fail (-5)
  else
    let machine ← readNum image 18 2
    if machine ≠ emAarch64 then fail (-6)
    else
      let phnum ← readNum image 56 2
      if phnum > soMaxSegments then fail (-6)
      else
        let headers ← readWord image 32
        let sections ← readWord image 40
        let shstrndx ← readNum image 62 2
        let names ← readWord image (entry sections 64 shstrndx + 24)
        access (.read headers (56 * phnum))
        let hi ← findEnd image headers (List.range phnum) 0
        if C.base = 0 ∨ alignMem hi 12 > C.maxSize then fail (-7)
        else
          access (.write 0 (alignMem hi 12).toNat)
          modify fun mem x => if x.toNat < (alignMem hi 12).toNat then 0 else mem x
          if C.virtbase = 0 ∨ C.reserved = false then fail (-8)
          else
            copySegments image size headers (List.range phnum)
            let found ← findSections image sections names (List.range (load image 60 2))
              ⟨none, 0, none⟩
            if pointer C.base found.syms = 0 ∨ pointer C.base found.dynstrtab = 0 then fail (-10)
            else
              pure {
                loadVirtbase := C.virtbase
                loadSize := alignMem hi 12
                phdr := (List.range phnum).map fun i => phdrAt image (entry headers 56 i)
                image := image
                soSize := size
                secHdr := sections
                syms := found.syms.getD 0
                numSyms := found.numSyms
                shstrtab := names
                dynstrtab := found.dynstrtab.getD 0 }

/-- `so_load`; the list of the loaded modules, which the module is appended to, is left out. -/
def soLoad (C : LoadCall) : Load SoModule :=
  match C.file with
  | none => fail (-1)
  | some file =>
      -- ftello fails with -1, for one where an off_t does not hold the size
      if C.told = false ∨ 2 ^ 63 ≤ file.length ∨ file.length = 0 then fail (-2)
      else if C.allocated = false then fail (-3)
      else if C.readWhole = false then fail (-4)
      else loadImage C (imageOf file C.outside) file.length

/-! ## Build ids -/

/-- `so_check_build_id`'s `ALIGN_MEM` of a 32-bit number for 4 -/
def align4 (n : Nat) : Nat := (n + 3) / 4 * 4

/-- A hexadecimal digit. -/
def hexDigit (n : Nat) : UInt8 := (bytes "0123456789abcdef").getD n 0

/-- The first `n` bytes at an address in hexadecimal digits. -/
def hexOf (image : Memory) (a : Word) (n : Nat) : Bytes :=
  (List.range n).flatMap fun k =>
    let b := (image (a + BitVec.ofNat 64 k)).toNat
    [hexDigit (b / 16), hexDigit (b % 16)]

/-- The loop over the notes of a segment, from address `p` on with `rest` bytes left; it goes round
at most that often. `none` says that no build id has been found. -/
def checkNotes (image : Memory) (expected : Bytes) : Nat → Word → Nat → Load (Option Bool)
  | 0, _, _ => pure none
  | fuel + 1, p, rest =>
      if rest < 12 then pure none
      else do
        let namesz ← readNum image p 4
        let descsz ← readNum image (p + 4) 4
        if align4 namesz > rest - 12 ∨ align4 descsz > rest - 12 - align4 namesz then pure none
        else
          let type ← readNum image (p + 8) 4
          let name ← (if type = 3 ∧ namesz ≥ 3 then do
              access (.read (p + 12) 3)
              pure (some (load image (p + 12) 3))
            else pure none : Load (Option Nat))
          -- the bytes of "GNU"
          if name = some 0x554e47 then
            let desc := p + 12 + BitVec.ofNat 64 (align4 namesz)
            let n := min descsz 64
            access (.read desc n)
            pure (some (decide (hexOf image desc n = expected)))
          else
            checkNotes image expected fuel
              (p + 12 + BitVec.ofNat 64 (align4 namesz + align4 descsz))
              (rest - 12 - (align4 namesz + align4 descsz))

/-- The loop of `so_check_build_id` over the segments. -/
def checkSegments (image : Memory) (size : Nat) (expected : Bytes) : List Phdr → Load Bool
  | [] => pure false
  | p :: ps =>
      if p.type ≠ ptNote ∨ (p.offset + p.filesz).toNat > size then checkSegments image
        size expected ps
      else do
        match ← checkNotes image expected (p.filesz.toNat + 1) p.offset p.filesz.toNat with
        | some same => pure same
        | none => checkSegments image size expected ps

/-- `so_check_build_id` of a module that has its image, for an expected string that is not null -/
def soCheckBuildId (m : SoModule) (expected : Bytes) : Load Bool :=
  if expected = [] then pure false else checkSegments m.image m.soSize expected m.phdr

end Asnx.Loader
