import Asnx.Loader.Relocate

/-!
# Relocation is complete and exact

Both passes make a list of changes that the tables of the module determine (`soRelocate_eq`,
`soResolve_eq`), as long as no word that they write to overlaps the tables. From the list
`relocation_exact` reads off what every word holds in the end.
-/

namespace Asnx.Loader

open ByteMemory Files

/-! ## What the tables say -/

/-- The words that `n` entries of a table of relative relocations denote: an even entry denotes a
word, and an odd one is a bitmap of the 63 words behind the last one. -/
def relrWordsFrom (mem : Memory) (r place : Word) : Nat → List Word
  | 0 => []
  | n + 1 =>
      let e := load64 mem r
      if e.getLsbD 0 = false then e :: relrWordsFrom mem (r + 8) (e + 8) n
      else bitmapWords e place ++ relrWordsFrom mem (r + 8) (place + 63 * 8) n

/-- The words that the table of relative relocations denotes, once for each denotation. -/
def relrWords (m : SoModule) (mem : Memory) : List Word :=
  match relrTable m with
  | some (off, size) =>
      if off ≠ 0 ∧ size ≠ 0 then relrWordsFrom mem off 0 (size.toNat / 8) else []
  | none => []

/-- The symbol of a relocation. -/
def relaSym (m : SoModule) (mem : Memory) (e : Word) : Sym := m.sym mem (relaAt mem e).sym

/-- A relocation that names a word to write to. -/
def Writes (mem : Memory) (e : Word) : Prop := (relaAt mem e).type ≠ rAarch64None

/-- A relocation of one of the types that refer to a symbol. -/
def Symbolic (mem : Memory) (e : Word) : Prop :=
  (relaAt mem e).type = rAarch64Abs64 ∨ (relaAt mem e).type = rAarch64GlobDat ∨
    (relaAt mem e).type = rAarch64JumpSlot

/-- The addresses that the passes read the tables at: the relocations, their symbols with their
names, and the table of relative relocations. -/
def tables (m : SoModule) (mem : Memory) : Set Word := {x |
  (∃ e ∈ relaEntries m, x ∈ span e 24 ∨ x ∈ span (entry m.syms 24 (relaAt mem e).sym) 24 ∨
    ∃ k ≤ (m.symName mem (relaSym m mem e)).length,
      x = m.dynstrtab + BitVec.ofNat 64 (relaSym m mem e).name + BitVec.ofNat 64 k) ∨
  ∃ off size, relrTable m = some (off, size) ∧ x ∈ span off (8 * (size.toNat / 8))}

/-- A word that one of the tables names as one to be written to. -/
def Written (m : SoModule) (mem : Memory) (a : Word) : Prop :=
  (∃ e ∈ relaEntries m, Writes mem e ∧ (relaAt mem e).offset = a) ∨ a ∈ relrWords m mem

/-- The words that the tables name do not overlap one another and not the tables; the same word may
be denoted by the table of relative relocations more than once. -/
structure Separate (m : SoModule) (mem : Memory) : Prop where
  targets : ((relaEntries m).filter fun e => (relaAt mem e).type ≠ rAarch64None).Pairwise
    fun e e' =>
    Apart (relaAt mem e).offset (relaAt mem e').offset
  targets_relr : ∀ e ∈ relaEntries m, Writes mem e → ∀ a ∈ relrWords m mem,
    Apart (relaAt mem e).offset a
  relr : ∀ a ∈ relrWords m mem, ∀ b ∈ relrWords m mem, a = b ∨ Apart a b
  tables : ∀ a, Written m mem a → Disjoint (wordAt a) (tables m mem)

/-- Where `so_resolve` takes the address of a symbol from: the first entry of the import table with
its name, else the first other module that exports it, else the last resort. -/
inductive AddressFrom (R : Resolver) (name : Bytes) (a : Word) : Prop where
  | funcs (before after : List DynLibFunction) (f : DynLibFunction) :
      R.funcs = before ++ f :: after → (∀ g ∈ before, g.symbol ≠ name) → f.symbol = name →
      a = f.func → AddressFrom R name a
  | module (before after : List Loaded) (l : Loaded) :
      (∀ f ∈ R.funcs, f.symbol ≠ name) → R.modules = before ++ l :: after →
      before.length ≠ R.self → lookupExport l name = a → a ≠ 0 →
      (∀ k l', before[k]? = some l' → k ≠ R.self → lookupExport l' name = 0) →
      AddressFrom R name a
  | extra (lookup : Bytes → Word) :
      (∀ f ∈ R.funcs, f.symbol ≠ name) →
      (∀ k l, R.modules[k]? = some l → k ≠ R.self → lookupExport l name = 0) →
      R.extraLookup = some lookup → a = lookup name → AddressFrom R name a

/-- Nothing but the null address is found for a symbol. -/
def Unresolved (R : Resolver) (name : Bytes) : Prop := ∀ a, AddressFrom R name a → a = 0

/-- What relocation is to do to the memory of a module. -/
structure Relocated (R : Resolver) (m : SoModule) (mem mem' : Memory) : Prop where
  types : ∀ e ∈ relaEntries m, (relaAt mem e).type = rAarch64Relative ∨ Symbolic mem e ∨
    (relaAt mem e).type = rAarch64None
  relative : ∀ e ∈ relaEntries m, (relaAt mem e).type = rAarch64Relative →
    load64 mem' (relaAt mem e).offset = m.loadVirtbase + (relaAt mem e).addend
  symbolDefined : ∀ e ∈ relaEntries m, Symbolic mem e → (relaSym m mem e).shndx ≠ shnUndef →
    load64 mem' (relaAt mem e).offset =
      m.loadVirtbase + (relaSym m mem e).value + (relaAt mem e).addend
  symbolUndefined : ∀ e ∈ relaEntries m, Symbolic mem e → (relaSym m mem e).shndx = shnUndef →
    (∃ a ≠ 0, AddressFrom R (m.symName mem (relaSym m mem e)) a ∧
      load64 mem' (relaAt mem e).offset = a + (relaAt mem e).addend) ∨
    (Unresolved R (m.symName mem (relaSym m mem e)) ∧ (relaSym m mem e).bind = stbWeak ∧
      load64 mem' (relaAt mem e).offset = (relaAt mem e).addend)
  relr : ∀ a ∈ relrWords m mem, load64 mem' a =
    load64 mem a + BitVec.ofNat 64 ((relrWords m mem).count a) * m.loadVirtbase
  others : ∀ x, (∀ a, Written m mem a → x ∉ wordAt a) → mem' x = mem x

/-! ## Reading the tables -/

/-- The memories agree on the tables. -/
def SameTables (m : SoModule) (mem₀ mem : Memory) : Prop := ∀ x ∈ tables m mem₀, mem x = mem₀ x

section Reading

variable {m : SoModule} {mem₀ mem : Memory} {e : Word}

/-- A word within a table that agrees. -/
theorem load_entry {T : Set Word} (h : ∀ x ∈ T, mem x = mem₀ x) {a : Word} {size off n : Nat}
    (hT : span a size ⊆ T) (hoff : off + n ≤ size) (hsize : size ≤ 2 ^ 64) :
    load mem (a + BitVec.ofNat 64 off) n = load mem₀ (a + BitVec.ofNat 64 off) n := by
  refine load_congr fun k hk => h _ (hT ?_)
  rw [BitVec.add_assoc, ← BitVec.ofNat_add]
  exact mem_span_offset (by omega) hsize

theorem relaAt_eq (h : ∀ x ∈ span e 24, mem x = mem₀ x) : relaAt mem e = relaAt mem₀ e := by
  have hload : ∀ off, off + 8 ≤ 24 → load64 mem (e + BitVec.ofNat 64 off) =
      load64 mem₀ (e + BitVec.ofNat 64 off) := fun off hoff =>
    congrArg (BitVec.ofNat 64) (load_entry h (Set.Subset.refl _) hoff (by omega))
  have hfirst := hload 0 (by omega)
  rw [BitVec.add_zero] at hfirst
  unfold relaAt
  rw [hfirst]
  exact congrArg₂ (Rela.mk _) (hload 8 (by omega)) (hload 16 (by omega))

theorem symAt_eq (h : ∀ x ∈ span e 24, mem x = mem₀ x) : symAt mem e = symAt mem₀ e := by
  have hload : ∀ off n, off + n ≤ 24 → load mem (e + BitVec.ofNat 64 off) n =
      load mem₀ (e + BitVec.ofNat 64 off) n := fun off n hoff =>
    load_entry h (Set.Subset.refl _) hoff (by omega)
  have hname := hload 0 4 (by omega)
  rw [BitVec.add_zero] at hname
  have hinfo : load mem (e + 4) 1 = load mem₀ (e + 4) 1 := hload 4 1 (by omega)
  have hshndx : load mem (e + 6) 2 = load mem₀ (e + 6) 2 := hload 6 2 (by omega)
  have hvalue : load64 mem (e + 8) = load64 mem₀ (e + 8) :=
    congrArg (BitVec.ofNat 64) (hload 8 8 (by omega))
  unfold symAt
  rw [hname, hinfo, hshndx, hvalue]

/-- A string is determined by its bytes and the one that ends it. -/
theorem stringUpTo_eq {a : Word} {n : Nat}
    (h : ∀ k ≤ (stringUpTo mem₀ a n).length, mem (a + BitVec.ofNat 64 k) =
      mem₀ (a + BitVec.ofNat 64 k)) :
    stringUpTo mem a n = stringUpTo mem₀ a n := by
  induction n generalizing a with
  | zero => rfl
  | succ n ih =>
      have hfirst : mem a = mem₀ a := by
        have hzero := h 0 (Nat.zero_le _)
        rwa [BitVec.add_zero] at hzero
      unfold stringUpTo at h ⊢
      rw [hfirst]
      split
      · rfl
      · rename_i hne
        rw [if_neg hne, List.length_cons] at h
        congr 1
        refine ih fun k hk => ?_
        rw [add_one_add]
        exact h (k + 1) (by omega)

theorem SameTables.rela (h : SameTables m mem₀ mem) (he : e ∈ relaEntries m) :
    relaAt mem e = relaAt mem₀ e :=
  relaAt_eq fun x hx => h x (.inl ⟨e, he, .inl hx⟩)

theorem SameTables.sym (h : SameTables m mem₀ mem) (he : e ∈ relaEntries m) :
    m.sym mem (relaAt mem₀ e).sym = relaSym m mem₀ e :=
  symAt_eq fun x hx => h x (.inl ⟨e, he, .inr (.inl hx)⟩)

theorem SameTables.symName (h : SameTables m mem₀ mem) (he : e ∈ relaEntries m) :
    m.symName mem (relaSym m mem₀ e) = m.symName mem₀ (relaSym m mem₀ e) :=
  stringUpTo_eq fun k hk => h _ (.inl ⟨e, he, .inr (.inr ⟨k, hk, rfl⟩)⟩)

/-- Writing where the tables say keeps the tables. -/
theorem SameTables.applyAll (h : SameTables m mem₀ mem) (hsep : Separate m mem₀)
    {changes : List Change} (hchanges : ∀ c ∈ changes, Written m mem₀ c.address) :
    SameTables m mem₀ (applyAll changes mem) := by
  intro x hx
  rw [applyAll_of_notMem, h x hx]
  rintro ⟨c, hc, hxc⟩
  exact Set.disjoint_left.1 (hsep.tables _ (hchanges c hc)) hxc hx

end Reading

/-! ## The first pass -/

/-- A word gets a value. -/
def setTo (a v : Word) : Change := ⟨a, fun _ => v⟩

/-- What `so_relocate` changes for a relocation. -/
def relocateChanges (m : SoModule) (mem : Memory) (e : Word) : List Change :=
  let r := relaAt mem e
  let s := relaSym m mem e
  if r.type = rAarch64Relative then [setTo r.offset (m.loadVirtbase + r.addend)]
  else if r.type = rAarch64Abs64 then
    if s.shndx ≠ shnUndef then [setTo r.offset (m.loadVirtbase + s.value + r.addend)]
    else [setTo r.offset r.addend]
  else if r.type = rAarch64GlobDat ∨ r.type = rAarch64JumpSlot then
    if s.shndx ≠ shnUndef then [setTo r.offset (m.loadVirtbase + s.value + r.addend)] else []
  else []

/-- A type that `so_relocate` knows. -/
def Known (mem : Memory) (e : Word) : Prop :=
  (relaAt mem e).type = rAarch64Relative ∨ Symbolic mem e ∨ (relaAt mem e).type = rAarch64None

section FirstPass

variable {m : SoModule} {mem₀ mem mem' : Memory} {e : Word}

theorem relocateChanges_address {c : Change} (hc : c ∈ relocateChanges m mem₀ e) :
    Writes mem₀ e ∧ c.address = (relaAt mem₀ e).offset := by
  have hconstants : rAarch64Relative ≠ rAarch64None ∧ rAarch64Abs64 ≠ rAarch64None ∧
      rAarch64GlobDat ≠ rAarch64None ∧ rAarch64JumpSlot ≠ rAarch64None := by decide
  unfold relocateChanges at hc
  unfold Writes
  dsimp only at hc
  split at hc
  · rename_i htype
    rw [htype, List.mem_singleton.1 hc]
    exact ⟨hconstants.1, rfl⟩
  split at hc
  · rename_i htype
    rw [htype]
    split at hc
    · rw [List.mem_singleton.1 hc]
      exact ⟨hconstants.2.1, rfl⟩
    · rw [List.mem_singleton.1 hc]
      exact ⟨hconstants.2.1, rfl⟩
  split at hc
  · rename_i htype
    split at hc
    · rw [List.mem_singleton.1 hc]
      rcases htype with htype | htype
      · rw [htype]
        exact ⟨hconstants.2.2.1, rfl⟩
      · rw [htype]
        exact ⟨hconstants.2.2.2, rfl⟩
    · cases hc
  · cases hc

theorem relocateEntry_eq (h : SameTables m mem₀ mem) (he : e ∈ relaEntries m)
    (hrun : relocateEntry m mem e = some mem') :
    mem' = applyAll (relocateChanges m mem₀ e) mem ∧ Known mem₀ e := by
  unfold relocateEntry at hrun
  rw [h.rela he] at hrun
  dsimp only at hrun
  rw [h.sym he] at hrun
  unfold relocateChanges Known Symbolic
  dsimp only at hrun ⊢
  split at hrun
  · rename_i htype
    rw [if_pos htype]
    exact ⟨(Option.some.inj hrun).symm, .inl htype⟩
  rename_i hrelative
  rw [if_neg hrelative]
  split at hrun
  · rename_i htype
    rw [if_pos htype]
    split at hrun
    · rename_i hdefined
      rw [if_pos hdefined]
      exact ⟨(Option.some.inj hrun).symm, .inr (.inl (.inl htype))⟩
    · rename_i hundefined
      rw [if_neg hundefined]
      exact ⟨(Option.some.inj hrun).symm, .inr (.inl (.inl htype))⟩
  rename_i habs
  rw [if_neg habs]
  split at hrun
  · rename_i htype
    rw [if_pos htype]
    split at hrun
    · rename_i hdefined
      rw [if_pos hdefined]
      exact ⟨(Option.some.inj hrun).symm, .inr (.inl (.inr htype))⟩
    · rename_i hundefined
      rw [if_neg hundefined]
      exact ⟨(Option.some.inj hrun).symm, .inr (.inl (.inr htype))⟩
  rename_i hslot
  rw [if_neg hslot]
  split at hrun
  · cases hrun
  · rename_i htype
    exact ⟨(Option.some.inj hrun).symm, .inr (.inr (not_not.1 htype))⟩

/-- The loops over the relocations, by induction on what is left of them. -/
theorem relocateEntries_eq (hsep : Separate m mem₀) {es : List Word} (hes : es ⊆ relaEntries m)
    (h : SameTables m mem₀ mem) (hrun : relocateEntries m es mem = (true, mem')) :
    mem' = applyAll (es.flatMap (relocateChanges m mem₀)) mem ∧ ∀ e ∈ es, Known mem₀ e := by
  induction es generalizing mem with
  | nil =>
      cases hrun
      exact ⟨rfl, fun _ he => nomatch he⟩
  | cons e es ih =>
      unfold relocateEntries at hrun
      split at hrun
      · cases hrun
      · rename_i mem₁ hentry
        have he := hes (List.mem_cons_self ..)
        obtain ⟨hmem, hknown⟩ := relocateEntry_eq h he hentry
        have hsame : SameTables m mem₀ mem₁ := by
          rw [hmem]
          refine h.applyAll hsep fun c hc => ?_
          obtain ⟨hwrites, haddress⟩ := relocateChanges_address hc
          exact .inl ⟨e, he, hwrites, haddress.symm⟩
        obtain ⟨hmem', hrest⟩ := ih (fun x hx => hes (List.mem_cons_of_mem _ hx)) hsame hrun
        refine ⟨?_, List.forall_mem_cons.2 ⟨hknown, hrest⟩⟩
        rw [List.flatMap_cons, applyAll_append, ← hmem, hmem']

end FirstPass

/-! ## Relative relocations -/

/-- A word grows by the address that the module runs at. -/
def grow (m : SoModule) (a : Word) : Change := ⟨a, fun w => w + m.loadVirtbase⟩

section Relr

variable {m : SoModule} {mem₀ mem : Memory}

theorem foldl_growWord (words : List Word) :
    words.foldl (growWord m) mem = applyAll (words.map (grow m)) mem := by
  unfold applyAll
  rw [List.foldl_map]
  rfl

theorem span_tail {r : Word} {n : Nat} :
    span (r + 8) (8 * n) ⊆ span r (8 * (n + 1)) := by
  intro x hx
  have hlt : (x - (r + 8)).toNat < 8 * n := hx
  have hsub : x - r = x - (r + 8) + 8 := by bv_omega
  show (x - r).toNat < 8 * (n + 1)
  rw [hsub, BitVec.toNat_add]
  exact lt_of_le_of_lt (Nat.mod_le _ _) (by
    have height : (8 : Word).toNat = 8 := rfl
    omega)

theorem wordAt_head {r : Word} {n : Nat} : wordAt r ⊆ span r (8 * (n + 1)) := by
  intro x hx
  have hlt : (x - r).toNat < 8 := hx
  show (x - r).toNat < 8 * (n + 1)
  omega

/-- The loop of `process_relr`, by induction on the entries that are left. -/
theorem processRelrFrom_eq (hsep : Separate m mem₀) {r place : Word} {n : Nat}
    (hn : 8 * n ≤ 2 ^ 64) (htable : span r (8 * n) ⊆ tables m mem₀)
    (hwords : relrWordsFrom mem₀ r place n ⊆ relrWords m mem₀) (h : SameTables m mem₀ mem) :
    processRelrFrom m mem r place n =
      applyAll ((relrWordsFrom mem₀ r place n).map (grow m)) mem := by
  induction n generalizing r place mem with
  | zero => rfl
  | succ n ih =>
      have hentry : load64 mem r = load64 mem₀ r :=
        load64_eq_of_eqOn fun x hx => h x (htable (wordAt_head hx))
      have htail := span_tail.trans htable
      unfold processRelrFrom
      unfold relrWordsFrom at hwords ⊢
      dsimp only at hwords ⊢
      rw [hentry]
      split
      · rename_i heven
        rw [if_pos heven] at hwords
        have hhead := hwords (List.mem_cons_self ..)
        have hsame : SameTables m mem₀ (growWord m mem (load64 mem₀ r)) :=
          SameTables.applyAll h hsep fun c (hc : c ∈ [grow m (load64 mem₀ r)]) => by
            rw [List.mem_singleton.1 hc]
            exact .inr hhead
        rw [ih (by omega) htail (fun x hx => hwords (List.mem_cons_of_mem _ hx)) hsame]
        rfl
      · rename_i hodd
        rw [if_neg hodd] at hwords
        have hsame : SameTables m mem₀
            ((bitmapWords (load64 mem₀ r) place).foldl (growWord m) mem) := by
          rw [foldl_growWord]
          refine h.applyAll hsep fun c hc => ?_
          obtain ⟨a, ha, rfl⟩ := List.mem_map.1 hc
          exact .inr (hwords (List.mem_append_left _ ha))
        rw [ih (by omega) htail (fun x hx => hwords (List.mem_append_right _ hx)) hsame,
          foldl_growWord, List.map_append, applyAll_append]

/-- `process_relr`'s part of the first pass -/
theorem processRelr_eq (hsep : Separate m mem₀) (h : SameTables m mem₀ mem) {off size : Word}
    (htable : relrTable m = some (off, size)) :
    (if off ≠ 0 ∧ size ≠ 0 then processRelr m mem off size else mem) =
      applyAll ((relrWords m mem₀).map (grow m)) mem := by
  have hwords : relrWords m mem₀ =
      if off ≠ 0 ∧ size ≠ 0 then relrWordsFrom mem₀ off 0 (size.toNat / 8) else [] := by
    unfold relrWords
    rw [htable]
  split
  · rename_i hpresent
    rw [if_pos hpresent] at hwords
    have hsize := size.isLt
    rw [hwords]
    refine processRelrFrom_eq hsep (by omega) (fun x hx => .inr ⟨off, size, htable, hx⟩) ?_ h
    rw [hwords]
    exact List.Subset.refl _
  · rename_i habsent
    rw [hwords, if_neg habsent]
    rfl

end Relr

/-- `so_relocate` makes the changes that the tables determine. -/
theorem soRelocate_eq {m : SoModule} {mem mem' : Memory} (hsep : Separate m mem)
    (hrun : soRelocate m mem = some (0, mem')) :
    mem' = applyAll ((relaEntries m).flatMap (relocateChanges m mem) ++
      (relrWords m mem).map (grow m)) mem ∧ ∀ e ∈ relaEntries m, Known mem e := by
  unfold soRelocate at hrun
  split at hrun
  · cases hrun
  · rename_i mem₁ hentries
    obtain ⟨hmem₁, hknown⟩ := relocateEntries_eq hsep (List.Subset.refl _) (fun _ _ => rfl) hentries
    obtain ⟨⟨off, size⟩, htable, hresult⟩ := Option.bind_eq_some_iff.1 hrun
    have hresult : (if off ≠ 0 ∧ size ≠ 0 then processRelr m mem₁ off size else mem₁) = mem' :=
      (Prod.mk.inj (Option.some.inj hresult)).2
    refine ⟨?_, hknown⟩
    have hsame : SameTables m mem mem₁ := by
      rw [hmem₁]
      refine SameTables.applyAll (fun _ _ => rfl) hsep fun c hc => ?_
      obtain ⟨e, he, hce⟩ := List.mem_flatMap.1 hc
      obtain ⟨hwrites, haddress⟩ := relocateChanges_address hce
      exact .inl ⟨e, he, hwrites, haddress.symm⟩
    rw [← hresult, processRelr_eq hsep hsame htable, applyAll_append, ← hmem₁]

/-! ## The second pass -/

section Addresses

variable {R : Resolver} {name : Bytes}

/-- No module but the one left out exports a name. -/
def NoneExports (self : Nat) (name : Bytes) (modules : List Loaded) (k : Nat) : Prop :=
  ∀ j l, modules[j]? = some l → k + j ≠ self → lookupExport l name = 0

theorem NoneExports.tail {self k : Nat} {l : Loaded} {ls : List Loaded}
    (h : NoneExports self name (l :: ls) k) : NoneExports self name ls (k + 1) := by
  intro j l' hj hne
  refine h (j + 1) l' hj ?_
  omega

theorem NoneExports.cons {self k : Nat} {l : Loaded} {ls : List Loaded}
    (hl : k ≠ self → lookupExport l name = 0) (h : NoneExports self name ls (k + 1)) :
    NoneExports self name (l :: ls) k := by
  intro j l' hj hne
  cases j with
  | zero =>
      obtain rfl : l = l' := Option.some.inj hj
      exact hl hne
  | succ j => exact h j l' hj (by omega)

/-- The first other module that exports a name decides, by induction on the modules before it. -/
theorem lookupModules_eq {self k : Nat} {before after : List Loaded} {l : Loaded}
    (hl : lookupExport l name ≠ 0) (hself : k + before.length ≠ self)
    (hbefore : NoneExports self name before k) :
    lookupModules self name (before ++ l :: after) k = lookupExport l name := by
  induction before generalizing k with
  | nil => exact if_pos ⟨hself, hl⟩
  | cons l' before ih =>
      have hskip : ¬ (k ≠ self ∧ lookupExport l' name ≠ 0) := fun ⟨hk, hne⟩ =>
        hne (hbefore 0 l' rfl hk)
      rw [List.cons_append, lookupModules, if_neg hskip]
      refine ih ?_ hbefore.tail
      rw [List.length_cons] at hself
      omega

theorem lookupModules_of_noneExports {self k : Nat} {modules : List Loaded}
    (h : NoneExports self name modules k) : lookupModules self name modules k = 0 := by
  induction modules generalizing k with
  | nil => rfl
  | cons l modules ih =>
      have hskip : ¬ (k ≠ self ∧ lookupExport l name ≠ 0) := fun ⟨hk, hne⟩ => hne (h 0 l rfl hk)
      rw [lookupModules, if_neg hskip]
      exact ih h.tail

theorem lookupModules_cases (self : Nat) (name : Bytes) (modules : List Loaded) (k : Nat) :
    NoneExports self name modules k ∨ ∃ before l after, modules = before ++ l :: after ∧
      k + before.length ≠ self ∧ lookupExport l name ≠ 0 ∧ NoneExports self name before k := by
  induction modules generalizing k with
  | nil => exact .inl fun j l hj => by simp at hj
  | cons l modules ih =>
      by_cases hl : k ≠ self ∧ lookupExport l name ≠ 0
      · exact .inr ⟨[], l, modules, rfl, hl.1, hl.2, fun j l hj => by simp at hj⟩
      · have hl : k ≠ self → lookupExport l name = 0 := fun hk => by_contra fun hne => hl ⟨hk, hne⟩
        rcases ih (k + 1) with hnone | ⟨before, l', after, rfl, hself, hne, hbefore⟩
        · exact .inl (hnone.cons hl)
        · refine .inr ⟨l :: before, l', after, rfl, ?_, hne, hbefore.cons hl⟩
          rw [List.length_cons]
          omega

/-- `resolve_one` finds what there is to find. -/
theorem AddressFrom.eq {a : Word} (h : AddressFrom R name a) : resolveOne R name = a := by
  have hnone : (∀ f ∈ R.funcs, f.symbol ≠ name) → R.funcs.find? (fun f => f.symbol = name) = none :=
    fun h => List.find?_eq_none.2 fun f hf => by simpa using h f hf
  unfold resolveOne
  cases h with
  | funcs before after f hfuncs hbefore hname ha =>
      have hfind : R.funcs.find? (fun f => f.symbol = name) = some f := by
        rw [hfuncs, List.find?_append, List.find?_eq_none.2 fun g hg => by simpa using hbefore g hg]
        simp [hname]
      rw [hfind, ha]
  | module before after l hfuncs hmodules hself hl ha hbefore =>
      have hlookup : lookupModules R.self name R.modules 0 = a := by
        rw [hmodules, ← hl]
        refine lookupModules_eq (by rwa [hl]) (by rwa [Nat.zero_add]) fun j l' hj hne => ?_
        exact hbefore j l' hj (by rwa [Nat.zero_add] at hne)
      rw [hnone hfuncs]
      dsimp only
      rw [hlookup, if_pos ha]
  | extra lookup hfuncs hmodules hlookup ha =>
      have hzero : lookupModules R.self name R.modules 0 = 0 :=
        lookupModules_of_noneExports fun j l hj hne =>
          hmodules j l hj (by rwa [Nat.zero_add] at hne)
      rw [hnone hfuncs]
      dsimp only
      rw [hzero, if_neg (not_not.2 rfl), hlookup, ha]

/-- What `resolve_one` finds comes from where it is to come from. -/
theorem addressFrom_resolveOne (h : resolveOne R name ≠ 0) :
    AddressFrom R name (resolveOne R name) := by
  generalize ha : resolveOne R name = a at h
  unfold resolveOne at ha
  split at ha
  · rename_i f hfind
    obtain ⟨hname, before, after, hfuncs, hbefore⟩ := List.find?_eq_some_iff_append.1 hfind
    exact .funcs before after f hfuncs (fun g hg => by simpa using hbefore g hg)
      (by simpa using hname)
      ha.symm
  · rename_i hfind
    have hfuncs : ∀ f ∈ R.funcs, f.symbol ≠ name := fun f hf => by
      simpa using List.find?_eq_none.1 hfind f hf
    rcases lookupModules_cases R.self name R.modules 0 with
      hnone | ⟨before, l, after, hmodules, hself, hne, hbefore⟩
    · rw [lookupModules_of_noneExports hnone, if_neg (not_not.2 rfl)] at ha
      split at ha
      · rename_i lookup hlookup
        refine .extra lookup hfuncs (fun k l hk hne => ?_) hlookup ha.symm
        exact hnone k l hk (by rwa [Nat.zero_add])
      · exact absurd ha.symm h
    · have hlookup : lookupModules R.self name (before ++ l :: after) 0 = lookupExport l name :=
        lookupModules_eq hne hself hbefore
      rw [hmodules, hlookup, if_pos hne] at ha
      refine .module before after l hfuncs hmodules (by rwa [Nat.zero_add] at hself) ha h
        fun k l' hk hne' => ?_
      exact hbefore k l' hk (by rwa [Nat.zero_add])

theorem unresolved_of_resolveOne (h : resolveOne R name = 0) : Unresolved R name :=
  fun _ ha => ha.eq.symm.trans h

end Addresses

/-- What `so_resolve` changes for a relocation whose symbol is not missing. -/
def resolveChanges (R : Resolver) (m : SoModule) (mem : Memory) (e : Word) : List Change :=
  let r := relaAt mem e
  let s := relaSym m mem e
  if r.type ≠ rAarch64Abs64 ∧ r.type ≠ rAarch64GlobDat ∧ r.type ≠ rAarch64JumpSlot then []
  else if s.shndx ≠ shnUndef then []
  else [setTo r.offset (resolveOne R (m.symName mem s) + r.addend)]

section SecondPass

variable {R : Resolver} {m : SoModule} {mem₀ mem : Memory} {e : Word}

theorem resolveChanges_address {c : Change} (hc : c ∈ resolveChanges R m mem₀ e) :
    Writes mem₀ e ∧ c.address = (relaAt mem₀ e).offset := by
  unfold resolveChanges at hc
  dsimp only at hc
  split at hc
  · cases hc
  rename_i htype
  split at hc
  · cases hc
  · rw [List.mem_singleton.1 hc]
    refine ⟨fun hnone => htype ?_, rfl⟩
    rw [hnone]
    decide

theorem resolveEntry_eq (h : SameTables m mem₀ mem) (he : e ∈ relaEntries m)
    (hfound : (resolveEntry R m mem e).1 = false) :
    (resolveEntry R m mem e).2 = applyAll (resolveChanges R m mem₀ e) mem ∧
      (Symbolic mem₀ e → (relaSym m mem₀ e).shndx = shnUndef →
        resolveOne R (m.symName mem₀ (relaSym m mem₀ e)) = 0 →
        (relaSym m mem₀ e).bind = stbWeak) := by
  unfold resolveEntry at hfound ⊢
  unfold resolveChanges Symbolic
  rw [h.rela he] at hfound ⊢
  dsimp only at hfound ⊢
  rw [h.sym he, h.symName he] at hfound ⊢
  split
  · rename_i htype
    refine ⟨rfl, fun hsym => ?_⟩
    obtain ⟨habs, hglob, hjump⟩ := htype
    rcases hsym with hsym | hsym | hsym
    · exact absurd hsym habs
    · exact absurd hsym hglob
    · exact absurd hsym hjump
  rename_i htype
  rw [if_neg htype] at hfound
  split
  · rename_i hdefined
    exact ⟨rfl, fun _ hundefined => absurd hundefined hdefined⟩
  rename_i hundefined
  rw [if_neg hundefined] at hfound
  split
  · rename_i hzero
    rw [if_pos hzero] at hfound
    split
    · rename_i hweak
      refine ⟨?_, fun _ _ _ => hweak⟩
      have hadd : (0 : Word) + (relaAt mem₀ e).addend = (relaAt mem₀ e).addend := BitVec.zero_add _
      rw [hzero, hadd]
      rfl
    · rename_i hweak
      rw [if_neg hweak] at hfound
      cases hfound
  · rename_i hne
    exact ⟨rfl, fun _ _ hzero => absurd hzero hne⟩

theorem resolveEntries_cons (es : List Word) (missing : Nat) :
    resolveEntries R m (e :: es) missing mem =
      resolveEntries R m es (if (resolveEntry R m mem e).1 then missing + 1 else missing)
        (resolveEntry R m mem e).2 := by
  rw [resolveEntries]

/-- The number of missing symbols does not go down. -/
theorem le_resolveEntries (es : List Word) (missing : Nat) (mem : Memory) :
    missing ≤ (resolveEntries R m es missing mem).1 := by
  induction es generalizing missing mem with
  | nil => exact Nat.le_refl _
  | cons e es ih =>
      rw [resolveEntries_cons]
      refine Nat.le_trans ?_ (ih _ _)
      split <;> omega

/-- The loops over the relocations, by induction on what is left of them. -/
theorem resolveEntries_eq (hsep : Separate m mem₀) {es : List Word} (hes : es ⊆ relaEntries m)
    (h : SameTables m mem₀ mem) (hmissing : (resolveEntries R m es 0 mem).1 = 0) :
    (resolveEntries R m es 0 mem).2 = applyAll (es.flatMap (resolveChanges R m mem₀)) mem ∧
      ∀ e ∈ es, Symbolic mem₀ e → (relaSym m mem₀ e).shndx = shnUndef →
        resolveOne R (m.symName mem₀ (relaSym m mem₀ e)) = 0 →
        (relaSym m mem₀ e).bind = stbWeak := by
  induction es generalizing mem with
  | nil => exact ⟨rfl, fun _ he => nomatch he⟩
  | cons e es ih =>
      have he := hes (List.mem_cons_self ..)
      have hfound : (resolveEntry R m mem e).1 = false := by
        by_contra hlost
        have hle := le_resolveEntries (R := R) (m := m) es 1 (resolveEntry R m mem e).2
        rw [resolveEntries_cons, if_pos (Bool.eq_true_of_not_eq_false hlost),
          Nat.zero_add] at hmissing
        omega
      obtain ⟨hmem, hweak⟩ := resolveEntry_eq h he hfound
      have hsame : SameTables m mem₀ (resolveEntry R m mem e).2 := by
        rw [hmem]
        refine h.applyAll hsep fun c hc => ?_
        obtain ⟨hwrites, haddress⟩ := resolveChanges_address hc
        exact .inl ⟨e, he, hwrites, haddress.symm⟩
      have hrest : resolveEntries R m (e :: es) 0 mem =
          resolveEntries R m es 0 (resolveEntry R m mem e).2 := by
        rw [resolveEntries_cons, hfound]
        rfl
      rw [hrest] at hmissing ⊢
      obtain ⟨hmem', hweak'⟩ := ih (fun x hx => hes (List.mem_cons_of_mem _ hx)) hsame hmissing
      refine ⟨?_, List.forall_mem_cons.2 ⟨hweak, hweak'⟩⟩
      rw [hmem', hmem, List.flatMap_cons, applyAll_append]

end SecondPass

/-! ## Both passes -/

/-- All changes, in their order. -/
def allChanges (R : Resolver) (m : SoModule) (mem : Memory) : List Change :=
  (relaEntries m).flatMap (relocateChanges m mem) ++ (relrWords m mem).map (grow m) ++
    (relaEntries m).flatMap (resolveChanges R m mem)

section BothPasses

variable {R : Resolver} {m : SoModule} {mem : Memory}

theorem written_of_mem_allChanges {c : Change} (hc : c ∈ allChanges R m mem) :
    Written m mem c.address := by
  unfold allChanges at hc
  rcases List.mem_append.1 hc with hc | hc
  · rcases List.mem_append.1 hc with hc | hc
    · obtain ⟨e, he, hce⟩ := List.mem_flatMap.1 hc
      obtain ⟨hwrites, haddress⟩ := relocateChanges_address hce
      exact .inl ⟨e, he, hwrites, haddress.symm⟩
    · obtain ⟨a, ha, rfl⟩ := List.mem_map.1 hc
      exact .inr ha
  · obtain ⟨e, he, hce⟩ := List.mem_flatMap.1 hc
    obtain ⟨hwrites, haddress⟩ := resolveChanges_address hce
    exact .inl ⟨e, he, hwrites, haddress.symm⟩

/-- Two relocations that write are one or do not overlap. -/
theorem Separate.eq_or_apart (hsep : Separate m mem) {e e' : Word} (he : e ∈ relaEntries m)
    (he' : e' ∈ relaEntries m) (hw : Writes mem e) (hw' : Writes mem e') :
    e = e' ∨ Apart (relaAt mem e).offset (relaAt mem e').offset := by
  have hsymm : Std.Symm fun e e' => Apart (relaAt mem e).offset (relaAt mem e').offset :=
    ⟨fun _ _ h => h.symm⟩
  by_cases heq : e = e'
  · exact .inl heq
  · refine .inr (hsep.targets.forall ?_ ?_ heq)
    · exact List.mem_filter.2 ⟨he, decide_eq_true hw⟩
    · exact List.mem_filter.2 ⟨he', decide_eq_true hw'⟩

/-- The words that are written to are the same or do not overlap. -/
theorem Separate.written (hsep : Separate m mem) {a b : Word} (ha : Written m mem a)
    (hb : Written m mem b) : a = b ∨ Apart a b := by
  rcases ha with ⟨e, he, hw, rfl⟩ | ha
  · rcases hb with ⟨e', he', hw', rfl⟩ | hb
    · rcases hsep.eq_or_apart he he' hw hw' with rfl | hapart
      · exact .inl rfl
      · exact .inr hapart
    · exact .inr (hsep.targets_relr e he hw b hb)
  · rcases hb with ⟨e', he', hw', rfl⟩ | hb
    · exact .inr (hsep.targets_relr e' he' hw' a ha).symm
    · exact hsep.relr a ha b hb

/-- A word that is only ever set to one value. -/
theorem foldl_setTo {changes : List Change} {a v : Word} (hne : changes ≠ [])
    (h : ∀ c ∈ changes, c = setTo a v) (w : Word) :
    changes.foldl (fun w c => c.effect w) w = v := by
  induction changes generalizing w with
  | nil => exact absurd rfl hne
  | cons c changes ih =>
      rw [List.foldl_cons, h c (List.mem_cons_self ..)]
      cases changes with
      | nil => rfl
      | cons c' changes => exact ih (by simp) (fun x hx => h x (List.mem_cons_of_mem _ hx)) _

/-- Of changes that are made for the relocations, those to the word that one of them names are those
for this one. -/
theorem filter_flatMap (hsep : Separate m mem) {e : Word} (he : e ∈ relaEntries m)
    (hw : Writes mem e) {f : Word → List Change}
    (hf : ∀ e c, c ∈ f e → Writes mem e ∧ c.address = (relaAt mem e).offset) {c : Change}
    (hc : c ∈ ((relaEntries m).flatMap f).filter (·.address = (relaAt mem e).offset)) :
    c ∈ f e := by
  obtain ⟨hmem, haddress⟩ := List.mem_filter.1 hc
  obtain ⟨e', he', hce⟩ := List.mem_flatMap.1 hmem
  obtain ⟨hw', hoffset⟩ := hf e' c hce
  rcases hsep.eq_or_apart he' he hw' hw with rfl | hapart
  · exact hce
  · rw [← hoffset, of_decide_eq_true haddress] at hapart
    exact absurd hapart (not_apart_self _)

theorem filter_flatMap_ne_nil {e : Word} (he : e ∈ relaEntries m) {f : Word → List Change}
    (hf : ∀ e c, c ∈ f e → Writes mem e ∧ c.address = (relaAt mem e).offset) (hne : f e ≠ []) :
    ((relaEntries m).flatMap f).filter (·.address = (relaAt mem e).offset) ≠ [] := by
  obtain ⟨c, hc⟩ := List.exists_mem_of_ne_nil _ hne
  exact List.ne_nil_of_mem (List.mem_filter.2
    ⟨List.mem_flatMap.2 ⟨e, he, hc⟩, decide_eq_true (hf e c hc).2⟩)

/-- The table of relative relocations does not touch a word that a relocation names. -/
theorem filter_grow (hsep : Separate m mem) {e : Word} (he : e ∈ relaEntries m)
    (hw : Writes mem e) :
    ((relrWords m mem).map (grow m)).filter (·.address = (relaAt mem e).offset) = [] := by
  refine List.filter_eq_nil_iff.2 fun c hc haddress => ?_
  obtain ⟨a, ha, rfl⟩ := List.mem_map.1 hc
  have hapart := hsep.targets_relr e he hw a ha
  rw [← of_decide_eq_true haddress] at hapart
  exact not_apart_self _ hapart

/-- A word that the second pass sets. -/
theorem load64_resolved (hsep : Separate m mem) {e v : Word} (he : e ∈ relaEntries m)
    (hw : Writes mem e) (h : resolveChanges R m mem e = [setTo (relaAt mem e).offset v]) :
    load64 (applyAll (allChanges R m mem) mem) (relaAt mem e).offset = v := by
  rw [load64_applyAll fun c hc =>
    hsep.written (written_of_mem_allChanges hc) (.inl ⟨e, he, hw, rfl⟩)]
  unfold allChanges
  rw [List.filter_append, List.foldl_append]
  refine foldl_setTo (a := (relaAt mem e).offset)
    (filter_flatMap_ne_nil he (fun _ _ => resolveChanges_address) ?_)
    (fun c hc => ?_) _
  · rw [h]
    exact List.cons_ne_nil _ _
  · have hce := filter_flatMap hsep he hw (fun _ _ => resolveChanges_address) hc
    rw [h] at hce
    exact List.mem_singleton.1 hce

/-- A word that only the first pass sets. -/
theorem load64_relocated (hsep : Separate m mem) {e v : Word} (he : e ∈ relaEntries m)
    (hw : Writes mem e) (h : relocateChanges m mem e = [setTo (relaAt mem e).offset v])
    (hresolved : resolveChanges R m mem e = []) :
    load64 (applyAll (allChanges R m mem) mem) (relaAt mem e).offset = v := by
  rw [load64_applyAll fun c hc =>
    hsep.written (written_of_mem_allChanges hc) (.inl ⟨e, he, hw, rfl⟩)]
  have hnone : ((relaEntries m).flatMap (resolveChanges R m mem)).filter
      (·.address = (relaAt mem e).offset) = [] := by
    refine List.eq_nil_iff_forall_not_mem.2 fun c hc => ?_
    have hce := filter_flatMap hsep he hw (fun _ _ => resolveChanges_address) hc
    rw [hresolved] at hce
    cases hce
  unfold allChanges
  rw [List.filter_append, List.filter_append, hnone, filter_grow hsep he hw, List.append_nil,
    List.append_nil]
  refine foldl_setTo (a := (relaAt mem e).offset)
    (filter_flatMap_ne_nil he (fun _ _ => relocateChanges_address) ?_)
    (fun c hc => ?_) _
  · rw [h]
    exact List.cons_ne_nil _ _
  · have hce := filter_flatMap hsep he hw (fun _ _ => relocateChanges_address) hc
    rw [h] at hce
    exact List.mem_singleton.1 hce

theorem foldl_grow (changes : List Change) (h : ∀ c ∈ changes, ∃ a, c = grow m a) (w : Word) :
    changes.foldl (fun w c => c.effect w) w =
      w + BitVec.ofNat 64 changes.length * m.loadVirtbase := by
  induction changes generalizing w with
  | nil =>
      show w = w + 0#64 * m.loadVirtbase
      rw [BitVec.zero_mul, BitVec.add_zero]
  | cons c changes ih =>
      obtain ⟨a, rfl⟩ := h c (List.mem_cons_self ..)
      rw [List.foldl_cons, ih fun x hx => h x (List.mem_cons_of_mem _ hx), List.length_cons,
        Nat.add_comm, BitVec.ofNat_add, BitVec.add_mul]
      show w + m.loadVirtbase + _ = w + (1#64 * m.loadVirtbase + _)
      rw [BitVec.one_mul, BitVec.add_assoc]

/-- What a word holds that the table of relative relocations denotes. -/
theorem load64_relr (hsep : Separate m mem) {a : Word} (ha : a ∈ relrWords m mem) :
    load64 (applyAll (allChanges R m mem) mem) a =
      load64 mem a + BitVec.ofNat 64 ((relrWords m mem).count a) * m.loadVirtbase := by
  have hnone : ∀ f : Word → List Change,
      (∀ e c, c ∈ f e → Writes mem e ∧ c.address = (relaAt mem e).offset) →
      ((relaEntries m).flatMap f).filter (·.address = a) = [] := by
    intro f hf
    refine List.filter_eq_nil_iff.2 fun c hc haddress => ?_
    obtain ⟨e, he, hce⟩ := List.mem_flatMap.1 hc
    obtain ⟨hw, hoffset⟩ := hf e c hce
    have hapart := hsep.targets_relr e he hw a ha
    rw [← hoffset, of_decide_eq_true haddress] at hapart
    exact not_apart_self a hapart
  have hfilter : (allChanges R m mem).filter (·.address = a) =
      ((relrWords m mem).filter (· = a)).map (grow m) := by
    unfold allChanges
    rw [List.filter_append, List.filter_append, hnone _ fun _ _ => relocateChanges_address,
      hnone _ fun _ _ => resolveChanges_address, List.nil_append, List.append_nil, List.filter_map]
    rfl
  rw [load64_applyAll fun c hc => hsep.written (written_of_mem_allChanges hc) (.inr ha), hfilter,
    foldl_grow (m := m) _ fun c hc => by
      obtain ⟨a, -, rfl⟩ := List.mem_map.1 hc
      exact ⟨a, rfl⟩,
    List.length_map, List.count_eq_length_filter]
  rfl

end BothPasses

/-- Relocation is complete and exact for every module whose tables name words that do not overlap
one another or the tables. -/
theorem relocation_exact (R : Resolver) (m : SoModule) (mem mem₁ mem₂ : Memory)
    (hsep : Separate m mem) (hrelocate : soRelocate m mem = some (0, mem₁))
    (hresolve : soResolve R m mem₁ = (0, mem₂)) : Relocated R m mem mem₂ := by
  obtain ⟨hmem₁, hknown⟩ := soRelocate_eq hsep hrelocate
  -- the first pass leaves the tables alone, so the second one reads the same entries
  have hsame : SameTables m mem mem₁ := by
    rw [hmem₁]
    refine SameTables.applyAll (fun _ _ => rfl) hsep fun c hc => ?_
    exact written_of_mem_allChanges (R := R) (List.mem_append_left _ hc)
  obtain ⟨hmem₂, hweak⟩ := resolveEntries_eq (R := R) hsep (List.Subset.refl _) hsame
    (congrArg Prod.fst hresolve)
  -- both passes together: one list of changes to the first memory
  have hall : mem₂ = applyAll (allChanges R m mem) mem := by
    have hresult : (resolveEntries R m (relaEntries m) 0 mem₁).2 = mem₂ :=
      congrArg Prod.snd hresolve
    unfold allChanges
    rw [applyAll_append, ← hmem₁, ← hmem₂, hresult]
  have hsymbolic : ∀ e, Symbolic mem e → Writes mem e ∧ (relaAt mem e).type ≠ rAarch64Relative := by
    unfold Writes
    rintro e (htype | htype | htype) <;> rw [htype] <;> decide
  rw [hall]
  -- relative words, symbols of the module, symbols from outside, RELR words, and everything else
  refine ⟨hknown, fun e he htype => ?_, fun e he hsym hdefined => ?_,
    fun e he hsym hundefined => ?_, fun a ha => load64_relr hsep ha, fun x hx => ?_⟩
  · refine load64_relocated hsep he ?_ ?_ ?_
    · unfold Writes
      rw [htype]
      decide
    · unfold relocateChanges
      dsimp only
      rw [if_pos htype]
    · unfold resolveChanges
      dsimp only
      rw [if_pos (by rw [htype]; decide)]
  · obtain ⟨hw, hrelative⟩ := hsymbolic e hsym
    refine load64_relocated hsep he hw ?_ ?_
    · unfold relocateChanges
      dsimp only
      rw [if_neg hrelative]
      by_cases habs : (relaAt mem e).type = rAarch64Abs64
      · rw [if_pos habs, if_pos hdefined]
      · rw [if_neg habs, if_pos (hsym.resolve_left habs), if_pos hdefined]
    · unfold resolveChanges
      dsimp only
      rw [if_pos hdefined, ite_self]
  · obtain ⟨hw, -⟩ := hsymbolic e hsym
    have hchanges : resolveChanges R m mem e = [setTo (relaAt mem e).offset
        (resolveOne R (m.symName mem (relaSym m mem e)) + (relaAt mem e).addend)] := by
      have htype : ¬ ((relaAt mem e).type ≠ rAarch64Abs64 ∧ (relaAt mem e).type ≠ rAarch64GlobDat ∧
          (relaAt mem e).type ≠ rAarch64JumpSlot) := by
        rintro ⟨habs, hglob, hjump⟩
        rcases hsym with hsym | hsym | hsym
        · exact habs hsym
        · exact hglob hsym
        · exact hjump hsym
      unfold resolveChanges
      dsimp only
      rw [if_neg htype, if_neg (not_not.2 hundefined)]
    have hword := load64_resolved hsep he hw hchanges
    -- an address of 0 is that of a weak symbol that nobody defines
    by_cases hzero : resolveOne R (m.symName mem (relaSym m mem e)) = 0
    · rw [hzero] at hword
      exact .inr ⟨unresolved_of_resolveOne hzero, hweak e he hsym hundefined hzero,
        hword.trans (BitVec.zero_add _)⟩
    · exact .inl ⟨_, hzero, addressFrom_resolveOne hzero, hword⟩
  · refine applyAll_of_notMem ?_
    rintro ⟨c, hc, hxc⟩
    exact hx _ (written_of_mem_allChanges hc) hxc

/-! ## A small module -/

/-- The memory that begins with the bytes of a number. -/
def memoryOf (code : Nat) : Memory := fun x =>
  if x.toNat < 256 then UInt8.ofNat (code / 256 ^ x.toNat) else 0

/-- A module with one section, `.rela.dyn`, that holds two relocations. -/
def smallModule : SoModule :=
  { loadVirtbase := 0x1000, loadSize := 0x1000, phdr := [], soSize := 256, secHdr := 64,
    syms := 144, numSyms := 2, shstrtab := 160, dynstrtab := 192
    image := memoryOf (256 ^ 60 + 96 * 256 ^ 80 + 48 * 256 ^ 96 + 0x6e79642e616c65722e * 256 ^ 160) }

/-- Its memory: a relative relocation, one for a jump slot of the global symbol `f`, which is not
defined, and the symbol. -/
def smallMem (offset offset' : Nat) : Memory :=
  memoryOf ((offset + 1027 * 256 ^ 8 + 5 * 256 ^ 16) * 256 ^ 96 +
    (offset' + (2 ^ 32 + 1026) * 256 ^ 8 + 7 * 256 ^ 16) * 256 ^ 120 +
    (1 + 16 * 256 ^ 4) * 256 ^ 168 + 0x66 * 256 ^ 193)

/-- An import table with `f`. -/
def smallResolver : Resolver := ⟨[], 0, [⟨bytes "f", 0x5000⟩], 0, none⟩

theorem relaEntries_smallModule : relaEntries smallModule = [96, 120] := by decide

/-- The tables of the small module lie behind its first words. -/
theorem tables_smallModule {x : Word} (h : x ∈ tables smallModule (smallMem 16 32)) :
    96 ≤ x.toNat := by
  rcases h with ⟨e, he, hx⟩ | ⟨off, size, htable, hx⟩
  · rw [relaEntries_smallModule] at he
    simp only [List.mem_cons, List.not_mem_nil, or_false] at he
    have hentry : 96 ≤ e.toNat ∧ e.toNat + 24 ≤ 2 ^ 64 ∧
        96 ≤ (entry smallModule.syms 24 (relaAt (smallMem 16 32) e).sym).toNat ∧
        (entry smallModule.syms 24 (relaAt (smallMem 16 32) e).sym).toNat + 24 ≤ 2 ^ 64 := by
      rcases he with rfl | rfl <;> decide
    have hname : (smallModule.symName (smallMem 16 32)
      (relaSym smallModule (smallMem 16 32) e)).length ≤ 1 ∧
        96 ≤ (smallModule.dynstrtab + BitVec.ofNat 64
          (relaSym smallModule (smallMem 16 32) e).name).toNat ∧
        (smallModule.dynstrtab + BitVec.ofNat 64
          (relaSym smallModule (smallMem 16 32) e).name).toNat + 1 <
          2 ^ 64 := by
      rcases he with rfl | rfl <;> decide
    rcases hx with hx | hx | ⟨k, hk, rfl⟩
    · exact Nat.le_trans hentry.1 ((mem_span_iff hentry.2.1).1 hx).1
    · exact Nat.le_trans hentry.2.2.1 ((mem_span_iff hentry.2.2.2).1 hx).1
    · rw [BitVec.toNat_add, BitVec.toNat_ofNat]
      omega
  · have hnone : relrTable smallModule = some (0, 0) := by decide
    obtain ⟨rfl, rfl⟩ := Prod.mk.inj (Option.some.inj (hnone.symm.trans htable))
    exact absurd hx (Nat.not_lt_zero _)

/-- The two words that the relocations name are apart from each other and from the tables. -/
theorem separate_smallModule : Separate smallModule (smallMem 16 32) := by
  have hrelr : relrWords smallModule (smallMem 16 32) = [] := by decide
  have hwritten : ∀ a, Written smallModule (smallMem 16 32) a → a.toNat + 8 ≤ 96 := by
    rintro a (⟨e, he, -, rfl⟩ | ha)
    · rw [relaEntries_smallModule] at he
      simp only [List.mem_cons, List.not_mem_nil, or_false] at he
      rcases he with rfl | rfl <;> decide
    · rw [hrelr] at ha
      cases ha
  refine ⟨?_, by simp [hrelr], by simp [hrelr], fun a ha => Set.disjoint_left.2 fun x hx hxt => ?_⟩
  · refine List.Pairwise.filter _ ?_
    rw [relaEntries_smallModule]
    refine List.pairwise_pair.2 (apart_of_le ?_ ?_ ?_) <;> decide
  · have ha := hwritten a ha
    have hx := (mem_span_iff (by omega)).1 hx
    have hxt := tables_smallModule hxt
    omega

/-- Relocation of the small module. -/
theorem relocation_exact_example :
    ∃ mem₁ mem₂, soRelocate smallModule (smallMem 16 32) = some (0, mem₁) ∧
      soResolve smallResolver smallModule mem₁ = (0, mem₂) ∧
      Relocated smallResolver smallModule (smallMem 16 32) mem₂ := by
  refine ⟨_, _, rfl, rfl, ?_⟩
  exact relocation_exact _ _ _ _ _ separate_smallModule rfl rfl

/-- A relocation that names a word of the table it is in: the first relocation changes the addend of
the second one, and the word that this one names does not hold what the table said. -/
theorem relocating_the_table :
    (∀ e ∈ relaEntries smallModule, Known (smallMem 136 32) e ∧
      (relaAt (smallMem 136 32) e).offset.toNat + 8 ≤ smallModule.loadSize.toNat) ∧
    ((relaEntries smallModule).Pairwise fun e e' =>
      Apart (relaAt (smallMem 136 32) e).offset (relaAt (smallMem 136 32) e').offset) ∧
    relrWords smallModule (smallMem 136 32) = [] ∧
    ∃ mem₁ mem₂, soRelocate smallModule (smallMem 136 32) = some (0, mem₁) ∧
      soResolve smallResolver smallModule mem₁ = (0, mem₂) ∧
      ¬ Relocated smallResolver smallModule (smallMem 136 32) mem₂ := by
  rw [relaEntries_smallModule]
  refine ⟨?_, ?_, by decide, ?_⟩
  · refine List.forall_mem_cons.2 ⟨⟨.inl (by decide), by decide⟩,
      List.forall_mem_singleton.2 ⟨.inr (.inl (.inr (.inr (by decide)))), by decide⟩⟩
  · refine List.pairwise_pair.2 (apart_of_le ?_ ?_ ?_) <;> decide
  · refine ⟨_, _, rfl, rfl, fun h => ?_⟩
    have hmem : (120 : Word) ∈ relaEntries smallModule := by
      rw [relaEntries_smallModule]
      decide
    rcases h.symbolUndefined 120 hmem (.inr (.inr (by decide))) (by decide) with
      ⟨a, -, ha, hword⟩ | ⟨-, hweak, -⟩
    · rw [← ha.eq] at hword
      revert hword
      decide
    · revert hweak
      decide

end Asnx.Loader
