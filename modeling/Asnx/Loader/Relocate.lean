import Asnx.Loader.Elf

/-!
# Relocation of modules

`so_relocate` and `so_resolve` of `source/so_util.c`, with the memory of the module as state.
-/

namespace Asnx.Loader

open ByteMemory Files

/-- A module with the memory that it has been loaded to. -/
structure Loaded where
  module : SoModule
  mem : Memory

/-- `DynLibFunction` -/
structure DynLibFunction where
  symbol : Bytes
  func : Word

/-- The sections that the relocations are taken from. -/
def relaSections (m : SoModule) : List Nat :=
  (List.range m.shnum).filter fun i =>
    m.sectionIs i (bytes ".rela.dyn") ∨ m.sectionIs i (bytes ".rela.plt")

/-- The offsets of the relocations in the order of the loops. -/
def relaEntries (m : SoModule) : List Word :=
  (relaSections m).flatMap fun i =>
    (List.range (toInt ((m.section i).size.toNat / 24)).toNat).map fun j =>
      entry (m.section i).addr 24 j

/-! ## The first pass -/

/-- The body of `so_relocate`'s loops; `none` is the return of -1. -/
def relocateEntry (m : SoModule) (mem : Memory) (e : Word) : Option Memory :=
  let r := relaAt mem e
  let s := m.sym mem r.sym
  if r.type = rAarch64Relative then some (store64 mem r.offset (m.loadVirtbase + r.addend))
  else if r.type = rAarch64Abs64 then
    if s.shndx ≠ shnUndef then
      some (store64 mem r.offset (m.loadVirtbase + s.value + r.addend))
    else some (store64 mem r.offset r.addend)
  else if r.type = rAarch64GlobDat ∨ r.type = rAarch64JumpSlot then
    if s.shndx ≠ shnUndef then
      some (store64 mem r.offset (m.loadVirtbase + s.value + r.addend))
    else some mem
  else if r.type ≠ rAarch64None then none
  else some mem

/-- The loops of `so_relocate`, and whether they came to their end. -/
def relocateEntries (m : SoModule) : List Word → Memory → Bool × Memory
  | [], mem => (true, mem)
  | e :: es, mem =>
      match relocateEntry m mem e with
      | none => (false, mem)
      | some mem => relocateEntries m es mem

/-- `*where += load_virtbase` -/
def growWord (m : SoModule) (mem : Memory) (a : Word) : Memory :=
  store64 mem a (load64 mem a + m.loadVirtbase)

/-- The addresses that the bits 1 to 63 of an entry denote. -/
def bitmapWords (e place : Word) : List Word :=
  ((List.range' 1 63).filter fun bit => e.getLsbD bit).map fun bit => entry place 8 (bit - 1)

/-- The loop of `process_relr` over `n` entries. -/
def processRelrFrom (m : SoModule) (mem : Memory) (r place : Word) : Nat → Memory
  | 0 => mem
  | n + 1 =>
      let e := load64 mem r
      if e.getLsbD 0 = false then processRelrFrom m (growWord m mem e) (r + 8) (e + 8) n
      else
        processRelrFrom m ((bitmapWords e place).foldl (growWord m) mem) (r + 8) (place + 63 * 8) n

/-- `process_relr` -/
def processRelr (m : SoModule) (mem : Memory) (r : Word) (size : Word) : Memory :=
  processRelrFrom m mem r 0 (size.toNat / 8)

/-- The offset and the size of the table of relative relocations; `none` if the search does not
end. -/
def relrTable (m : SoModule) : Option (Word × Word) := do
  let off ← dynamicTag m dtRelr
  let size ← dynamicTag m dtRelrsz
  if off = 0 then
    let off ← dynamicTag m dtAndroidRelr
    let size ← dynamicTag m dtAndroidRelrsz
    pure (off, size)
  else pure (off, size)

/-- `so_relocate`; `none` if it does not return. -/
def soRelocate (m : SoModule) (mem : Memory) : Option (Int × Memory) :=
  match relocateEntries m (relaEntries m) mem with
  | (false, mem) => some (-1, mem)
  | (true, mem) => do
      let (off, size) ← relrTable m
      pure (0, if off ≠ 0 ∧ size ≠ 0 then processRelr m mem off size else mem)

/-! ## The second pass -/

/-- `lookup_export` -/
def lookupExport (l : Loaded) (name : Bytes) : Word :=
  let found := (List.range l.module.numSyms.toNat).find? fun i =>
    let s := l.module.sym l.mem i
    ¬ (s.shndx = shnUndef ∨ s.bind = stbLocal) ∧ l.module.symName l.mem s = name
  match found with
  | some i => l.module.loadVirtbase + (l.module.sym l.mem i).value
  | none => 0

/-- The loop of `resolve_one` over the loaded modules, from number `k` on; the one with number
`self` is left out. -/
def lookupModules (self : Nat) (name : Bytes) : List Loaded → Nat → Word
  | [], _ => 0
  | l :: ls, k =>
      if k ≠ self ∧ lookupExport l name ≠ 0 then lookupExport l name
      else lookupModules self name ls (k + 1)

/-- What `so_resolve` is called with: the number of the module among the loaded ones, and its other
arguments. -/
structure Resolver where
  modules : List Loaded
  self : Nat
  funcs : List DynLibFunction
  fallback : Word
  extraLookup : Option (Bytes → Word)

/-- `resolve_one` -/
def resolveOne (R : Resolver) (name : Bytes) : Word :=
  match R.funcs.find? fun f => f.symbol = name with
  | some f => f.func
  | none =>
      if lookupModules R.self name R.modules 0 ≠ 0 then lookupModules R.self name R.modules 0
      else
        match R.extraLookup with
        | some lookup => lookup name
        | none => 0

/-- The body of `so_resolve`'s loops, and whether the symbol is missing. -/
def resolveEntry (R : Resolver) (m : SoModule) (mem : Memory) (e : Word) : Bool × Memory :=
  let r := relaAt mem e
  let s := m.sym mem r.sym
  if r.type ≠ rAarch64Abs64 ∧ r.type ≠ rAarch64GlobDat ∧ r.type ≠ rAarch64JumpSlot then (false, mem)
  else if s.shndx ≠ shnUndef then (false, mem)
  else
    let a := resolveOne R (m.symName mem s)
    if a = 0 then
      if s.bind = stbWeak then (false, store64 mem r.offset r.addend)
      else (true, store64 mem r.offset (R.fallback + r.addend))
    else (false, store64 mem r.offset (a + r.addend))

/-- The loops of `so_resolve`, with the number of missing symbols. -/
def resolveEntries (R : Resolver) (m : SoModule) : List Word → Nat → Memory → Nat × Memory
  | [], missing, mem => (missing, mem)
  | e :: es, missing, mem =>
      let (lost, mem) := resolveEntry R m mem e
      resolveEntries R m es (if lost then missing + 1 else missing) mem

/-- `so_resolve` -/
def soResolve (R : Resolver) (m : SoModule) (mem : Memory) : Nat × Memory :=
  resolveEntries R m (relaEntries m) 0 mem

end Asnx.Loader
