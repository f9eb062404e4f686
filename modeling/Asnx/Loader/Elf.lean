import Asnx.Library.ByteMemory
import Asnx.Library.Files

/-!
# ELF files and loaded modules

The structures of `elf.h` as far as `source/so_util.c` reads them, and its record of a module. An
address is the offset in the object that it points into: the image of the file (`so_base`) or the
memory that the module is loaded to (`load_base`).
-/

namespace Asnx.Loader

open ByteMemory Files

/-! ## Structures -/

/-- `Elf64_Phdr`, as far as it is read -/
structure Phdr where
  type : Nat
  offset : Word
  vaddr : Word
  filesz : Word
  memsz : Word

/-- `Elf64_Shdr`, as far as it is read -/
structure Shdr where
  name : Nat
  addr : Word
  offset : Word
  size : Word

/-- `Elf64_Sym`, as far as it is read -/
structure Sym where
  name : Nat
  info : Nat
  shndx : Nat
  value : Word

/-- `Elf64_Rela` -/
structure Rela where
  offset : Word
  info : Word
  addend : Word

def ptLoad : Nat := 1
def ptDynamic : Nat := 2
def ptNote : Nat := 4
def shnUndef : Nat := 0
def stbLocal : Nat := 0
def stbWeak : Nat := 2
def rAarch64None : Nat := 0
def rAarch64Abs64 : Nat := 257
def rAarch64GlobDat : Nat := 1025
def rAarch64JumpSlot : Nat := 1026
def rAarch64Relative : Nat := 1027
def dtNull : Word := 0
def dtRelrsz : Word := 35
def dtRelr : Word := 36
/-- `DT_ANDROID_RELR` -/
def dtAndroidRelr : Word := 0x6fffe000
/-- `DT_ANDROID_RELRSZ` -/
def dtAndroidRelrsz : Word := 0x6fffe001

/-- The entry with the given index of a table. -/
def entry (table : Word) (size i : Nat) : Word := table + BitVec.ofNat 64 (size * i)

def phdrAt (m : Memory) (a : Word) : Phdr :=
  ⟨load m a 4, load64 m (a + 8), load64 m (a + 16), load64 m (a + 32), load64 m (a + 40)⟩

def shdrAt (m : Memory) (a : Word) : Shdr :=
  ⟨load m a 4, load64 m (a + 16), load64 m (a + 24), load64 m (a + 32)⟩

def symAt (m : Memory) (a : Word) : Sym :=
  ⟨load m a 4, load m (a + 4) 1, load m (a + 6) 2, load64 m (a + 8)⟩

def relaAt (m : Memory) (a : Word) : Rela := ⟨load64 m a, load64 m (a + 8), load64 m (a + 16)⟩

/-- `ELF64_R_SYM` -/
def Rela.sym (r : Rela) : Nat := r.info.toNat / 2 ^ 32
/-- `ELF64_R_TYPE` -/
def Rela.type (r : Rela) : Nat := r.info.toNat % 2 ^ 32
/-- `ELF64_ST_BIND` -/
def Sym.bind (s : Sym) : Nat := s.info / 16

/-! ## Strings -/

/-- `strcmp` of the string at an address with a constant finds no difference. -/
def stringIs (m : Memory) (a : Word) : Bytes → Bool
  | [] => m a = 0
  | c :: cs => m a = c ∧ stringIs m (a + 1) cs

/-- The string at an address, up to its end if that comes within the given number of bytes. -/
def stringUpTo (m : Memory) (a : Word) : Nat → Bytes
  | 0 => []
  | n + 1 => if m a = 0 then [] else m a :: stringUpTo m (a + 1) n

/-- The string at an address. -/
def stringAt (m : Memory) (a : Word) : Bytes := stringUpTo m a (2 ^ 64)

/-! ## Modules -/

/-- `so_module`: `image` is what `so_base` points to, and `secHdr` and `shstrtab` are offsets in it;
`syms` and `dynstrtab` are offsets from `load_base`. There are `phnum` program headers. -/
structure SoModule where
  loadVirtbase : Word
  loadSize : Word
  phdr : List Phdr
  image : Memory
  soSize : Nat
  secHdr : Word
  syms : Word
  numSyms : Int
  shstrtab : Word
  dynstrtab : Word

/-- `elf_hdr->e_shnum` -/
def SoModule.shnum (m : SoModule) : Nat := load m.image 60 2

/-- `sec_hdr[i]` -/
def SoModule.section (m : SoModule) (i : Nat) : Shdr := shdrAt m.image (entry m.secHdr 64 i)

/-- A section has the given name. -/
def SoModule.sectionIs (m : SoModule) (i : Nat) (name : Bytes) : Bool :=
  stringIs m.image (m.shstrtab + BitVec.ofNat 64 (m.section i).name) name

/-- `syms[i]`, in the memory that the module has been loaded to -/
def SoModule.sym (m : SoModule) (mem : Memory) (i : Nat) : Sym := symAt mem (entry m.syms 24 i)

/-- The name of a symbol. -/
def SoModule.symName (m : SoModule) (mem : Memory) (s : Sym) : Bytes :=
  stringAt mem (m.dynstrtab + BitVec.ofNat 64 s.name)

/-- The conversion of a `size_t` to an `int`. -/
def toInt (n : Nat) : Int := (BitVec.ofNat 32 n).toInt

/-- The entries of `dynamic_tag`'s loop over one dynamic section, from an offset in the image;
`none` if the loop goes on for ever. -/
def dynamicFrom (m : SoModule) (tag a : Word) : Nat → Option (Option Word)
  | 0 => none
  | n + 1 =>
      if load64 m.image a = dtNull then some none
      else if load64 m.image a = tag then some (some (load64 m.image (a + 8)))
      else dynamicFrom m tag (a + 16) n

/-- The loop of `dynamic_tag` over the program headers. A loop that has gone through all addresses
goes on for ever. -/
def dynamicTagIn (m : SoModule) (tag : Word) : List Phdr → Option Word
  | [] => some 0
  | p :: ps =>
      if p.type = ptDynamic then
        match dynamicFrom m tag p.offset (2 ^ 60) with
        | none => none
        | some none => dynamicTagIn m tag ps
        | some (some val) => some val
      else dynamicTagIn m tag ps

/-- `dynamic_tag` -/
def dynamicTag (m : SoModule) (tag : Word) : Option Word := dynamicTagIn m tag m.phdr

end Asnx.Loader
