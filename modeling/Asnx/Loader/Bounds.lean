import Asnx.Loader.Load

/-!
# When the loader stays in bounds

`so_load` trusts most of what the file says. `load_inside` says exactly which files it and
`so_check_build_id` stay inside the image and the module's memory for: where the file passes the
checks of `so_load` (`Accepted`), it must be one whose headers, names and segments lie where they
should (`Inside`, `NotesInside`).
-/

namespace Asnx.Loader

open ByteMemory Files Tracing

/-! ## Conditions on an image -/

/-- The `n` bytes at an address are among the first `size` ones. -/
def Within (size : Nat) (a : Word) (n : Nat) : Prop := ∀ x ∈ span a n, x.toNat < size

/-- An access stays in the image, or in the first `limit` bytes at `load_base`. -/
def InBounds (size limit : Nat) : Access → Prop
  | .read a n => Within size a n
  | .write a n => Within limit a n

/-- `e_phnum` -/
def phnumOf (image : Memory) : Nat := load image 56 2
/-- `e_phoff` -/
def headersOf (image : Memory) : Word := load64 image 32
/-- `e_shoff` -/
def sectionsOf (image : Memory) : Word := load64 image 40
/-- The program header with the given index. -/
def segmentOf (image : Memory) (i : Nat) : Phdr := phdrAt image (entry (headersOf image) 56 i)
/-- The address of the section header with the given index. -/
def sectionAt (image : Memory) (i : Nat) : Word := entry (sectionsOf image) 64 i
/-- The address of the names of the sections. -/
def namesOf (image : Memory) : Word := load64 image (sectionAt image (load image 62 2) + 24)
/-- The address of the name of a section. -/
def nameAt (image : Memory) (i : Nat) : Word :=
  namesOf image + BitVec.ofNat 64 (load image (sectionAt image i) 4)

/-- The largest end of a segment, starting from `hi`. -/
def endOf (image : Memory) : List Nat → Word → Word
  | [], hi => hi
  | i :: is, hi =>
      let p := segmentOf image i
      if p.type = ptLoad then
        endOf image is (if p.vaddr + p.memsz > hi then p.vaddr + p.memsz else hi)
      else endOf image is hi

/-- The size of the module. -/
def loadSizeOf (image : Memory) : Word := alignMem (endOf image (List.range (phnumOf image)) 0) 12

/-- What there is among the sections, starting from `found`. -/
def foundIn (image : Memory) : List Nat → Found → Found
  | [], found => found
  | i :: is, found =>
      let s := shdrAt image (sectionAt image i)
      if stringIs image (nameAt image i) (bytes ".dynsym") then
        foundIn image is { found with syms := some s.addr, numSyms := toInt (s.size.toNat / 24) }
      else if stringIs image (nameAt image i) (bytes ".dynstr") then
        foundIn image is { found with dynstrtab := some s.addr }
      else foundIn image is found

/-- All that is found among the sections. -/
def sectionsFound (image : Memory) : Found :=
  foundIn image (List.range (load image 60 2)) ⟨none, 0, none⟩

/-- A segment that is copied. -/
def Copied (image : Memory) (i : Nat) : Prop :=
  (segmentOf image i).type = ptLoad ∧ (segmentOf image i).filesz ≠ 0

/-- The image passes the checks of `so_load`. -/
structure Accepted (C : LoadCall) (image : Memory) (size : Nat) : Prop where
  magic : load image 0 4 = elfMag
  machine : load image 18 2 = emAarch64
  segments : phnumOf image ≤ soMaxSegments
  base : C.base ≠ 0
  room : loadSizeOf image ≤ C.maxSize
  virtbase : C.virtbase ≠ 0
  reserved : C.reserved = true
  copied : ∀ i < phnumOf image, Copied image i →
    ((segmentOf image i).offset + (segmentOf image i).filesz).toNat ≤ size
  syms : pointer C.base (sectionsFound image).syms ≠ 0
  dynstrtab : pointer C.base (sectionsFound image).dynstrtab ≠ 0

/-- The bytes that a comparison with a constant looks at lie in the file. -/
def ComparedInside (image : Memory) (size : Nat) (a : Word) : Bytes → Prop
  | [] => Within size a 1
  | c :: cs => Within size a 1 ∧ (image a = c → ComparedInside image size (a + 1) cs)

/-- A section header lies in the file as far as it is looked at, and so does its name. -/
structure SectionInside (image : Memory) (size i : Nat) : Prop where
  name : Within size (sectionAt image i) 4
  dynsym : ComparedInside image size (nameAt image i) (bytes ".dynsym")
  dynsymFields : stringIs image (nameAt image i) (bytes ".dynsym") = true →
    Within size (sectionAt image i + 16) 8 ∧ Within size (sectionAt image i + 32) 8
  dynstr : stringIs image (nameAt image i) (bytes ".dynsym") = false →
    ComparedInside image size (nameAt image i) (bytes ".dynstr")
  dynstrField : stringIs image (nameAt image i) (bytes ".dynsym") = false →
    stringIs image (nameAt image i) (bytes ".dynstr") = true →
      Within size (sectionAt image i + 16) 8

/-- What the image must be like beyond the checks of `so_load`: the ELF header, the program headers
and the section headers with their names lie in the file, and the bytes of a segment lie in the file
and in the memory of the module, where no sum of an address and a length wraps around. -/
structure Inside (image : Memory) (size : Nat) : Prop where
  header : 64 ≤ size
  headers : Within size (headersOf image) (56 * phnumOf image)
  names : Within size (sectionAt image (load image 62 2) + 24) 8
  copied : ∀ i < phnumOf image, Copied image i →
    (segmentOf image i).offset.toNat + (segmentOf image i).filesz.toNat < 2 ^ 64 ∧
      (segmentOf image i).vaddr.toNat + (segmentOf image i).filesz.toNat ≤
        (loadSizeOf image).toNat
  sections : ∀ i < load image 60 2, SectionInside image size i

section Within

variable {size n k : Nat} {a : Word}

theorem within_iff (hn : 0 < n) (hlong : n ≤ 2 ^ 64) (hsize : size < 2 ^ 64) :
    Within size a n ↔ a.toNat + n ≤ size := by
  have ha := a.isLt
  constructor
  · intro h
    by_contra hout
    have hoffset : ∃ k < n, size ≤ a.toNat + k ∧ a.toNat + k < 2 ^ 64 := by
      by_cases hstart : size ≤ a.toNat
      · exact ⟨0, hn, hstart, ha⟩
      · exact ⟨size - a.toNat, by omega, by omega, by omega⟩
    obtain ⟨k, hk, hpast, hwrap⟩ := hoffset
    have hlt := h _ (mem_span_offset hk hlong)
    rw [BitVec.toNat_add, BitVec.toNat_ofNat] at hlt
    omega
  · intro h x hx
    have hx := (mem_span_iff (by omega)).1 hx
    omega

/-- A part of what lies inside. -/
theorem Within.part (h : Within size a n) (off : Nat) (hk : off + k ≤ n) :
    Within size (a + BitVec.ofNat 64 off) k := by
  intro x hx
  refine h x ?_
  have hx : (x - (a + BitVec.ofNat 64 off)).toNat < k := hx
  have hsub : x - a = x - (a + BitVec.ofNat 64 off) + BitVec.ofNat 64 off := by
    generalize BitVec.ofNat 64 off = b
    bv_omega
  show (x - a).toNat < n
  rw [hsub, BitVec.toNat_add, BitVec.toNat_ofNat]
  exact lt_of_le_of_lt (Nat.mod_le _ _) (lt_of_le_of_lt
    (Nat.add_le_add_left (Nat.mod_le _ _) _) (by omega))

end Within

/-! ## The functions -/

section Functions

variable {image : Memory} {size limit : Nat}

theorem runs_readNum (a : Word) (n : Nat) :
    Runs (InBounds size limit) (readNum image a n) True (load image a n) (Within size a n) :=
  Runs.congr (runs_step (runs_access _) runs_pure) Iff.rfl fun _ => (and_true _).to_iff

theorem runs_readWord (a : Word) :
    Runs (InBounds size limit) (readWord image a) True (load64 image a) (Within size a 8) :=
  Runs.congr (runs_step (runs_access _) runs_pure) Iff.rfl fun _ => (and_true _).to_iff

/-! The fields of a program header. -/

theorem runs_type (i : Nat) : Runs (InBounds size limit)
    (readNum image (entry (headersOf image) 56 i) 4) True (segmentOf image i).type
    (Within size (entry (headersOf image) 56 i) 4) := runs_readNum _ _

theorem runs_offset (i : Nat) : Runs (InBounds size limit)
    (readWord image (entry (headersOf image) 56 i + 8)) True (segmentOf image i).offset
    (Within size (entry (headersOf image) 56 i + 8) 8) := runs_readWord _

theorem runs_vaddr (i : Nat) : Runs (InBounds size limit)
    (readWord image (entry (headersOf image) 56 i + 16)) True (segmentOf image i).vaddr
    (Within size (entry (headersOf image) 56 i + 16) 8) := runs_readWord _

theorem runs_filesz (i : Nat) : Runs (InBounds size limit)
    (readWord image (entry (headersOf image) 56 i + 32)) True (segmentOf image i).filesz
    (Within size (entry (headersOf image) 56 i + 32) 8) := runs_readWord _

theorem runs_memsz (i : Nat) : Runs (InBounds size limit)
    (readWord image (entry (headersOf image) 56 i + 40)) True (segmentOf image i).memsz
    (Within size (entry (headersOf image) 56 i + 40) 8) := runs_readWord _

/-- By induction on the constant. -/
theorem runs_compare (a : Word) (s : Bytes) :
    Runs (InBounds size limit) (compare image a s) True (stringIs image a s)
      (ComparedInside image size a s) := by
  induction s generalizing a with
  | nil =>
      exact Runs.congr (runs_step (runs_access _) runs_pure) Iff.rfl fun _ => (and_true _).to_iff
  | cons c cs ih =>
      by_cases hc : image a = c
      · refine Runs.of_eq (runs_step (runs_access _) (runs_if_pos hc (ih (a + 1)))) ?_ Iff.rfl
          fun _ => ?_
        · simp [stringIs, hc]
        · simp [ComparedInside, InBounds, hc]
      · refine Runs.of_eq (runs_step (runs_access _) (runs_if_neg hc runs_pure)) ?_ Iff.rfl
          fun _ => ?_
        · simp [stringIs, hc]
        · simp [ComparedInside, InBounds, hc]

/-- What the loop for the end of the segments looks at lies in the file. -/
def EndInside (image : Memory) (size i : Nat) : Prop :=
  Within size (entry (headersOf image) 56 i) 4 ∧ ((segmentOf image i).type = ptLoad →
    Within size (entry (headersOf image) 56 i + 16) 8 ∧
      Within size (entry (headersOf image) 56 i + 40) 8)

theorem runs_findEnd (is : List Nat) (hi : Word) :
    Runs (InBounds size limit) (findEnd image (headersOf image) is hi) True (endOf image is hi)
      (∀ i ∈ is, EndInside image size i) := by
  induction is generalizing hi with
  | nil => exact Runs.congr runs_pure Iff.rfl fun _ => by simp
  | cons i is ih =>
      rw [List.forall_mem_cons, EndInside]
      by_cases hload : (segmentOf image i).type = ptLoad
      · refine Runs.of_eq (runs_step (runs_type i) (runs_if_pos hload (runs_step (runs_vaddr i)
          (runs_step (runs_memsz i) (ih _))))) ?_ Iff.rfl fun _ => ?_
        · exact (if_pos hload).symm
        · rw [forall_prop_of_true hload, and_assoc, and_assoc]
      · refine Runs.of_eq (runs_step (runs_type i) (runs_if_neg hload (ih hi))) ?_ Iff.rfl
          fun _ => ?_
        · exact (if_neg hload).symm
        · rw [forall_prop_of_false hload, and_true]

/-- What the loop that copies the segments looks at lies in the file, and what it copies lies in the
file and in the memory of the module. -/
def CopyInside (image : Memory) (size limit i : Nat) : Prop :=
  Within size (entry (headersOf image) 56 i) 4 ∧ ((segmentOf image i).type = ptLoad →
    Within size (entry (headersOf image) 56 i + 32) 8 ∧ ((segmentOf image i).filesz ≠ 0 →
      Within size (entry (headersOf image) 56 i + 8) 8 ∧
        Within size (entry (headersOf image) 56 i + 16) 8 ∧
        Within size (segmentOf image i).offset (segmentOf image i).filesz.toNat ∧
        Within limit (segmentOf image i).vaddr (segmentOf image i).filesz.toNat))

theorem runs_copyFrom (dst src : Word) (n : Nat) :
    Runs (InBounds size limit) (copyFrom image dst src n) True ()
      (Within size src n ∧ Within limit dst n ∧ True) :=
  runs_step (runs_access _) (runs_step (runs_access _) (runs_modify _))

theorem runs_copySegments (is : List Nat) :
    Runs (InBounds size limit) (copySegments image size (headersOf image) is)
      (∀ i ∈ is, Copied image i →
        ((segmentOf image i).offset + (segmentOf image i).filesz).toNat ≤ size) ()
      (∀ i ∈ is, CopyInside image size limit i) := by
  induction is with
  | nil => exact Runs.congr runs_pure (by simp) fun _ => by simp
  | cons i is ih =>
      rw [List.forall_mem_cons, List.forall_mem_cons, CopyInside]
      have hcopied : Copied image i ↔
          (segmentOf image i).type = ptLoad ∧ (segmentOf image i).filesz ≠ 0 := Iff.rfl
      by_cases hload : (segmentOf image i).type = ptLoad
      · by_cases hfilesz : (segmentOf image i).filesz ≠ 0
        · refine Runs.congr (runs_step (runs_type i) (runs_if_pos hload (runs_step (runs_filesz i)
            (runs_if_pos hfilesz (runs_step (runs_offset i) (runs_check fun _ =>
              runs_step (runs_vaddr i) (runs_step (runs_copyFrom _ _ _) ih))))))) ?_ fun _ => ?_
          · rw [not_lt, forall_prop_of_true (hcopied.2 ⟨hload, hfilesz⟩)]
          · rw [forall_prop_of_true hload, forall_prop_of_true hfilesz]
            simp only [and_assoc, true_and]
        · refine Runs.congr (runs_step (runs_type i) (runs_if_pos hload (runs_step (runs_filesz i)
            (runs_if_neg hfilesz ih)))) ?_ fun _ => ?_
          · rw [forall_prop_of_false fun h => hfilesz (hcopied.1 h).2, true_and]
          · rw [forall_prop_of_true hload, forall_prop_of_false hfilesz, and_true, and_assoc]
      · refine Runs.congr (runs_step (runs_type i) (runs_if_neg hload ih)) ?_ fun _ => ?_
        · rw [forall_prop_of_false fun h => hload (hcopied.1 h).1, true_and]
        · rw [forall_prop_of_false hload, and_true]

theorem sectionInside_iff (i : Nat) : SectionInside image size i ↔
    Within size (sectionAt image i) 4 ∧ ComparedInside image size (nameAt image i)
      (bytes ".dynsym") ∧
      (stringIs image (nameAt image i) (bytes ".dynsym") = true →
        Within size (sectionAt image i + 16) 8 ∧ Within size (sectionAt image i + 32) 8) ∧
      (stringIs image (nameAt image i) (bytes ".dynsym") = false →
        ComparedInside image size (nameAt image i) (bytes ".dynstr")) ∧
      (stringIs image (nameAt image i) (bytes ".dynsym") = false →
        stringIs image (nameAt image i) (bytes ".dynstr") = true →
        Within size (sectionAt image i + 16) 8) :=
  ⟨fun h => ⟨h.name, h.dynsym, h.dynsymFields, h.dynstr, h.dynstrField⟩,
    fun h => ⟨h.1, h.2.1, h.2.2.1, h.2.2.2.1, h.2.2.2.2⟩⟩

theorem runs_findSections (is : List Nat) (found : Found) :
    Runs (InBounds size limit) (findSections image (sectionsOf image) (namesOf image) is found) True
      (foundIn image is found) (Within size 60 2 ∧ ∀ i ∈ is, SectionInside image size i) := by
  induction is generalizing found with
  | nil =>
      refine Runs.congr (runs_step (runs_readNum _ _) runs_pure) Iff.rfl fun _ => ?_
      simp
  | cons i is ih =>
      rw [List.forall_mem_cons, sectionInside_iff]
      have hname : Runs (InBounds size limit) (readNum image (entry (sectionsOf image) 64 i) 4) True
          (load image (sectionAt image i) 4) (Within size (sectionAt image i) 4) := runs_readNum _ _
      -- which reads there are depends on the name of the section
      by_cases hdynsym : stringIs image (nameAt image i) (bytes ".dynsym") = true
      · refine Runs.of_eq (runs_step (runs_readNum _ _)
          (runs_step hname (runs_step (runs_compare _ _)
          (runs_if_pos hdynsym (runs_step (runs_readWord _)
            (runs_step (runs_readWord _) (ih _)))))))
          ?_ Iff.rfl fun _ => ?_
        · exact (if_pos hdynsym).symm
        · have hnot : ¬ stringIs image (nameAt image i) (bytes ".dynsym") = false := by
            rw [hdynsym]
            simp
          rw [forall_prop_of_true hdynsym, forall_prop_of_false hnot, forall_prop_of_false hnot]
          generalize Within size 60 2 = shnum
          generalize (∀ i ∈ is, SectionInside image size i) = others
          show _ ∧ _ ∧ _ ∧ Within size (sectionAt image i + 16) 8 ∧
            Within size (sectionAt image i + 32) 8 ∧ _ ↔ _
          constructor
          · rintro ⟨hshnum, hfield, hcompared, haddr, hsize, -, hothers⟩
            exact ⟨hshnum, ⟨hfield, hcompared, ⟨haddr, hsize⟩, trivial, trivial⟩, hothers⟩
          · rintro ⟨hshnum, ⟨hfield, hcompared, ⟨haddr, hsize⟩, -, -⟩, hothers⟩
            exact ⟨hshnum, hfield, hcompared, haddr, hsize, hshnum, hothers⟩
      have hnot : stringIs image (nameAt image i) (bytes ".dynsym") = false :=
        Bool.eq_false_iff.2 hdynsym
      rw [forall_prop_of_false hdynsym, forall_prop_of_true hnot, forall_prop_of_true hnot]
      by_cases hdynstr : stringIs image (nameAt image i) (bytes ".dynstr") = true
      · refine Runs.of_eq (runs_step (runs_readNum _ _)
          (runs_step hname (runs_step (runs_compare _ _)
          (runs_if_neg hdynsym (runs_step (runs_compare _ _) (runs_if_pos hdynstr
            (runs_step (runs_readWord _) (ih _))))))))
          ?_ Iff.rfl fun _ => ?_
        · exact ((if_neg hdynsym).trans (if_pos hdynstr)).symm
        · rw [forall_prop_of_true hdynstr]
          generalize Within size 60 2 = shnum
          generalize (∀ i ∈ is, SectionInside image size i) = others
          show _ ∧ _ ∧ _ ∧ _ ∧ Within size (sectionAt image i + 16) 8 ∧ _ ↔ _
          constructor
          · rintro ⟨hshnum, hfield, hcompared, hcompared', haddr, -, hothers⟩
            exact ⟨hshnum, ⟨hfield, hcompared, trivial, hcompared', haddr⟩, hothers⟩
          · rintro ⟨hshnum, ⟨hfield, hcompared, -, hcompared', haddr⟩, hothers⟩
            exact ⟨hshnum, hfield, hcompared, hcompared', haddr, hshnum, hothers⟩
      · refine Runs.of_eq (runs_step (runs_readNum _ _)
          (runs_step hname (runs_step (runs_compare _ _)
          (runs_if_neg hdynsym (runs_step (runs_compare _ _) (runs_if_neg hdynstr (ih _)))))))
          ?_ Iff.rfl fun _ => ?_
        · exact ((if_neg hdynsym).trans (if_neg hdynstr)).symm
        · rw [forall_prop_of_false hdynstr]
          generalize Within size 60 2 = shnum
          generalize (∀ i ∈ is, SectionInside image size i) = others
          constructor
          · rintro ⟨hshnum, hfield, hcompared, hcompared', -, hothers⟩
            exact ⟨hshnum, ⟨hfield, hcompared, trivial, hcompared', trivial⟩, hothers⟩
          · rintro ⟨hshnum, ⟨hfield, hcompared, -, hcompared', -⟩, hothers⟩
            exact ⟨hshnum, hfield, hcompared, hcompared', hshnum, hothers⟩

/-- The module that `so_load` makes. -/
def moduleOf (C : LoadCall) (image : Memory) (size : Nat) : SoModule :=
  { loadVirtbase := C.virtbase
    loadSize := loadSizeOf image
    phdr := (List.range (phnumOf image)).map (segmentOf image)
    image := image
    soSize := size
    secHdr := sectionsOf image
    syms := (sectionsFound image).syms.getD 0
    numSyms := (sectionsFound image).numSyms
    shstrtab := namesOf image
    dynstrtab := (sectionsFound image).dynstrtab.getD 0 }

/-- What `so_load` looks at and writes to, as it comes. -/
def LoadInside (image : Memory) (size limit : Nat) : Prop :=
  Within size 0 4 ∧ Within size 18 2 ∧ Within size 56 2 ∧ Within size 32 8 ∧ Within size 40 8 ∧
    Within size 62 2 ∧ Within size (sectionAt image (load image 62 2) + 24) 8 ∧
    Within size (headersOf image) (56 * phnumOf image) ∧
    (∀ i ∈ List.range (phnumOf image), EndInside image size i) ∧
    Within limit 0 (loadSizeOf image).toNat ∧ True ∧
    (∀ i ∈ List.range (phnumOf image), CopyInside image size limit i) ∧
    (Within size 60 2 ∧ ∀ i ∈ List.range (load image 60 2), SectionInside image size i) ∧ True

theorem runs_loadImage (C : LoadCall) :
    Runs (InBounds size limit) (loadImage C image size) (Accepted C image size)
      (moduleOf C image size) (LoadInside image size limit) := by
  have hheaders : Runs (InBounds size limit) (readWord image 32) True (headersOf image)
      (Within size 32 8) := runs_readWord _
  have hsections : Runs (InBounds size limit) (readWord image 40) True (sectionsOf image)
      (Within size 40 8) := runs_readWord _
  have hphnum : Runs (InBounds size limit) (readNum image 56 2) True (phnumOf image)
      (Within size 56 2) := runs_readNum _ _
  have hnames : Runs (InBounds size limit)
      (readWord image (entry (sectionsOf image) 64 (load image 62 2) + 24)) True (namesOf image)
      (Within size (sectionAt image (load image 62 2) + 24) 8) := runs_readWord _
  refine Runs.congr (runs_step (runs_readNum _ _) (runs_check fun _ =>
    runs_step (runs_readNum _ _) (runs_check fun _ =>
    runs_step hphnum (runs_check fun _ =>
    runs_step hheaders (runs_step hsections (runs_step (runs_readNum _ _) (runs_step hnames
    (runs_step (runs_access _) (runs_step (runs_findEnd _ _) (runs_check fun _ =>
    runs_step (runs_access _) (runs_step (runs_modify _) (runs_check fun _ =>
    runs_bind (runs_copySegments _) (runs_step (runs_findSections _ _) (runs_check fun _ =>
    runs_pure)))))))))))))) ?_ fun _ => Iff.rfl
  constructor
  · rintro ⟨hmagic, hmachine, hsegments, hroom, hmap, hcopied, hfound, -⟩
    obtain ⟨hbase, hroom⟩ := not_or.1 hroom
    obtain ⟨hvirtbase, hreserved⟩ := not_or.1 hmap
    obtain ⟨hsyms, hdynstrtab⟩ := not_or.1 hfound
    exact ⟨not_not.1 hmagic, not_not.1 hmachine, not_lt.1 hsegments, hbase,
      BitVec.not_lt.1 hroom, hvirtbase,
      Bool.eq_true_of_not_eq_false hreserved, fun i hi => hcopied i (List.mem_range.2 hi), hsyms,
      hdynstrtab⟩
  · intro h
    refine ⟨not_not.2 h.magic, not_not.2 h.machine, not_lt.2 h.segments,
      not_or.2 ⟨h.base, BitVec.not_lt.2 h.room⟩, not_or.2 ⟨h.virtbase, ?_⟩,
      fun i hi => h.copied i (List.mem_range.1 hi), not_or.2 ⟨h.syms, h.dynstrtab⟩, trivial⟩
    rw [h.reserved]
    simp

end Functions

/-! ## What `so_load` looks at -/

section LoadInside

variable {image : Memory} {size : Nat} {C : LoadCall}

/-- A part of a program header lies in the file if all of them do. -/
theorem within_header (h : Within size (headersOf image) (56 * phnumOf image)) {i : Nat}
    (hi : i < phnumOf image) (off k : Nat) (hk : off + k ≤ 56) :
    Within size (entry (headersOf image) 56 i + BitVec.ofNat 64 off) k := by
  unfold entry
  rw [BitVec.add_assoc, ← BitVec.ofNat_add]
  exact h.part _ (by omega)

theorem within_low {off k : Nat} (h : 64 ≤ size) (hoff : off + k ≤ 64) (hk : 0 < k)
    (hsize : size < 2 ^ 64) : Within size (BitVec.ofNat 64 off) k := by
  refine (within_iff hk (by omega) hsize).2 ?_
  rw [BitVec.toNat_ofNat]
  omega

theorem inside_of_loadInside (hsize : size < 2 ^ 64)
    (h : LoadInside image size (loadSizeOf image).toNat) : Inside image size := by
  obtain ⟨-, -, -, -, -, hlast, hnames, hheaders, -, -, -, hcopy, ⟨-, hsections⟩, -⟩ := h
  refine ⟨(within_iff (by omega) (by omega) hsize).1 hlast, hheaders, hnames,
    fun i hi hcopied => ?_,
    fun i hi => hsections i (List.mem_range.2 hi)⟩
  obtain ⟨-, -, hread, hwrite⟩ :=
    ((hcopy i (List.mem_range.2 hi)).2 hcopied.1).2 hcopied.2
  have hpos : 0 < (segmentOf image i).filesz.toNat := by
    refine Nat.pos_of_ne_zero fun hzero => hcopied.2 ?_
    exact BitVec.eq_of_toNat_eq hzero
  have hfilesz := (segmentOf image i).filesz.isLt
  have hread := (within_iff hpos (by omega) hsize).1 hread
  have hwrite := (within_iff hpos (by omega) (loadSizeOf image).isLt).1 hwrite
  exact ⟨by omega, hwrite⟩

theorem loadInside_of_inside (hsize : size < 2 ^ 64) (haccepted : Accepted C image size)
    (h : Inside image size) : LoadInside image size (loadSizeOf image).toNat := by
  have hlow : ∀ off k, off + k ≤ 64 → 0 < k → Within size (BitVec.ofNat 64 off) k :=
    fun off k hoff hk => within_low h.header hoff hk hsize
  have hfield : ∀ i ∈ List.range (phnumOf image), ∀ off k, off + k ≤ 56 →
      Within size (entry (headersOf image) 56 i + BitVec.ofNat 64 off) k := fun i hi off k hk =>
    within_header h.headers (List.mem_range.1 hi) off k hk
  have htype : ∀ i ∈ List.range (phnumOf image), Within size (entry (headersOf image) 56 i) 4 := by
    intro i hi
    have hzero := hfield i hi 0 4 (by omega)
    rwa [BitVec.add_zero] at hzero
  refine ⟨hlow 0 4 (by omega) (by omega), hlow 18 2 (by omega) (by omega),
    hlow 56 2 (by omega) (by omega), hlow 32 8 (by omega) (by omega),
      hlow 40 8 (by omega) (by omega),
    hlow 62 2 (by omega) (by omega), h.names, h.headers, fun i hi => ?_, fun x hx => ?_, trivial,
    fun i hi => ?_, ⟨hlow 60 2 (by omega) (by omega), fun i hi =>
      h.sections i (List.mem_range.1 hi)⟩,
    trivial⟩
  · exact ⟨htype i hi, fun _ => ⟨hfield i hi 16 8 (by omega), hfield i hi 40 8 (by omega)⟩⟩
  · have hx : (x - 0#64).toNat < (loadSizeOf image).toNat := hx
    rwa [BitVec.sub_zero] at hx
  · refine ⟨htype i hi, fun hload => ⟨hfield i hi 32 8 (by omega), fun hfilesz =>
      ⟨hfield i hi 8 8 (by omega), hfield i hi 16 8 (by omega), ?_, ?_⟩⟩⟩
    · have hi := List.mem_range.1 hi
      have hsum := haccepted.copied i hi ⟨hload, hfilesz⟩
      have hwrap := (h.copied i hi ⟨hload, hfilesz⟩).1
      rw [BitVec.toNat_add, Nat.mod_eq_of_lt hwrap] at hsum
      intro x hx
      have hx := (mem_span_iff (by omega)).1 hx
      omega
    · have hroom := (h.copied i (List.mem_range.1 hi) ⟨hload, hfilesz⟩).2
      have hlimit := (loadSizeOf image).isLt
      intro x hx
      have hx := (mem_span_iff (by omega)).1 hx
      omega

end LoadInside

/-! ## Notes -/

/-- A note with the build id begins at an address. -/
def IsBuildId (image : Memory) (p : Word) : Prop :=
  load image (p + 8) 4 = 3 ∧ 3 ≤ load image p 4 ∧ load image (p + 12) 3 = 0x554e47

instance (image : Memory) (p : Word) : Decidable (IsBuildId image p) :=
  inferInstanceAs (Decidable (_ ∧ _))

/-- Where the text of a note begins. -/
def descAt (image : Memory) (p : Word) : Word := p + 12 + BitVec.ofNat 64 (align4 (load image p 4))

/-- How much of the text is looked at. -/
def descRead (image : Memory) (p : Word) : Nat := min (load image (p + 4) 4) 64

/-- The length of a note. -/
def noteLength (image : Memory) (p : Word) : Nat :=
  12 + (align4 (load image p 4) + align4 (load image (p + 4) 4))

/-- The build id in the `rest` bytes at an address, which hold at most as many notes as the number
before says. -/
def buildIdIn (image : Memory) : Nat → Word → Nat → Option Word
  | 0, _, _ => none
  | fuel + 1, p, rest =>
      if rest < noteLength image p then none
      else if IsBuildId image p then some p
      else buildIdIn image fuel (p + BitVec.ofNat 64 (noteLength image p))
        (rest - noteLength image p)

/-- The notes from an address on lead to a build id, all inside the file. -/
inductive LeadsToBuildId (image : Memory) (size : Nat) : Word → Prop where
  | here (p : Word) : Within size p 12 → Within size (p + 12) 3 → IsBuildId image p →
      Within size (descAt image p) (descRead image p) → LeadsToBuildId image size p
  | next (p : Word) : Within size p 12 →
      (load image (p + 8) 4 = 3 ∧ 3 ≤ load image p 4 → Within size (p + 12) 3) →
      ¬ IsBuildId image p → LeadsToBuildId image size (p + BitVec.ofNat 64 (noteLength image p)) →
      LeadsToBuildId image size p

/-- What the loop over the notes looks at lies in the file. -/
def NotesRead (image : Memory) (size : Nat) : Nat → Word → Nat → Prop
  | 0, _, _ => True
  | fuel + 1, p, rest =>
      if rest < 12 then True
      else Within size p 4 ∧ Within size (p + 4) 4 ∧
        if rest < noteLength image p then True
        else Within size (p + 8) 4 ∧
          (load image (p + 8) 4 = 3 ∧ 3 ≤ load image p 4 → Within size (p + 12) 3) ∧
          if IsBuildId image p then Within size (descAt image p) (descRead image p)
          else NotesRead image size fuel (p + BitVec.ofNat 64 (noteLength image p))
            (rest - noteLength image p)

section Notes

variable {image : Memory} {size limit : Nat}

/-- The name of a note is looked at if its type and length are those of a build id's. -/
theorem runs_noteName (p : Word) :
    Runs (InBounds size limit)
      (if load image (p + 8) 4 = 3 ∧ load image p 4 ≥ 3 then do
        access (.read (p + 12) 3)
        pure (some (load image (p + 12) 3))
      else pure none : Load (Option Nat)) True
      (if load image (p + 8) 4 = 3 ∧ load image p 4 ≥ 3 then some (load image (p + 12) 3) else none)
      (load image (p + 8) 4 = 3 ∧ 3 ≤ load image p 4 → Within size (p + 12) 3) := by
  by_cases h : load image (p + 8) 4 = 3 ∧ load image p 4 ≥ 3
  · rw [if_pos h, if_pos h]
    refine Runs.congr (runs_step (runs_access _) runs_pure) Iff.rfl fun _ => ?_
    rw [forall_prop_of_true h, and_true]
    rfl
  · rw [if_neg h, if_neg h]
    refine Runs.congr runs_pure Iff.rfl fun _ => ?_
    rw [forall_prop_of_false h]

theorem noteName_eq_iff (p : Word) :
    (if load image (p + 8) 4 = 3 ∧ load image p 4 ≥ 3 then some (load image (p + 12) 3) else none) =
      some 0x554e47 ↔ IsBuildId image p := by
  unfold IsBuildId
  split
  · rename_i h
    rw [Option.some.injEq]
    exact ⟨fun hname => ⟨h.1, h.2, hname⟩, fun h => h.2.2⟩
  · rename_i h
    exact ⟨fun hname => (nomatch hname), fun hid => absurd ⟨hid.1, hid.2.1⟩ h⟩

theorem next_note (p : Word) :
    p + 12 + BitVec.ofNat 64 (align4 (load image p 4) + align4 (load image (p + 4) 4)) =
      p + BitVec.ofNat 64 (noteLength image p) := by
  unfold noteLength
  rw [BitVec.ofNat_add 12, BitVec.add_assoc]
  rfl

/-- The loop over the notes, by induction on its rounds. -/
theorem runs_checkNotes (expected : Bytes) (fuel : Nat) (p : Word) (rest : Nat) :
    Runs (InBounds size limit) (checkNotes image expected fuel p rest) True
      ((buildIdIn image fuel p rest).map fun p =>
        decide (hexOf image (descAt image p) (descRead image p) = expected))
      (NotesRead image size fuel p rest) := by
  induction fuel generalizing p rest with
  | zero => exact runs_pure
  | succ fuel ih =>
      have hshort : rest < 12 → rest < noteLength image p := by
        unfold noteLength
        omega
      by_cases hheader : rest < 12
      · refine Runs.of_eq (runs_if_pos hheader runs_pure) ?_ Iff.rfl fun _ => ?_
        · unfold buildIdIn
          rw [if_pos (hshort hheader)]
          rfl
        · unfold NotesRead
          rw [if_pos hheader]
      have hfits : (align4 (load image p 4) > rest - 12 ∨
          align4 (load image (p + 4) 4) > rest - 12 - align4 (load image p 4)) ↔
          rest < noteLength image p := by
        unfold noteLength
        omega
      have hrest : rest - 12 - (align4 (load image p 4) + align4 (load image (p + 4) 4)) =
          rest - noteLength image p := Nat.sub_sub ..
      unfold buildIdIn NotesRead
      rw [if_neg hheader]
      -- name and descriptor must lie within what is left
      by_cases hlong : rest < noteLength image p
      · refine Runs.of_eq (runs_if_neg hheader (runs_step (runs_readNum _ _) (runs_step
          (runs_readNum _ _) (runs_if_pos (hfits.2 hlong) runs_pure)))) ?_ Iff.rfl fun _ => ?_
        · rw [if_pos hlong]
          rfl
        · rw [if_pos hlong]
      rw [if_neg hlong, if_neg hlong]
      -- the note that is looked for, or the next one
      by_cases hid : IsBuildId image p
      · refine Runs.of_eq (runs_if_neg hheader (runs_step (runs_readNum _ _) (runs_step
          (runs_readNum _ _) (runs_if_neg (mt hfits.1 hlong)
            (runs_step (runs_readNum _ _) (runs_step
          (runs_noteName p) (runs_if_pos ((noteName_eq_iff p).2 hid) (runs_step (runs_access _)
          runs_pure))))))))
          ?_ Iff.rfl fun _ => ?_
        · rw [if_pos hid]
          rfl
        · rw [if_pos hid, and_true]
          rfl
      · refine Runs.of_eq (runs_if_neg hheader (runs_step (runs_readNum _ _) (runs_step
          (runs_readNum _ _) (runs_if_neg (mt hfits.1 hlong)
            (runs_step (runs_readNum _ _) (runs_step
          (runs_noteName p) (runs_if_neg (mt (noteName_eq_iff p).1 hid) (ih _ _))))))))
          ?_ Iff.rfl fun _ => ?_
        · rw [if_neg hid, next_note, hrest]
        · rw [if_neg hid, next_note, hrest]

theorem align4_lt {n k : Nat} (h : n < 2 ^ k) (hk : 2 ≤ k) : align4 n ≤ 2 ^ k := by
  unfold align4
  obtain ⟨j, rfl⟩ := Nat.exists_eq_add_of_le hk
  rw [Nat.pow_add] at h ⊢
  omega

theorem load_lt (m : Memory) (a : Word) (n : Nat) : load m a n < 256 ^ n := by
  induction n generalizing a with
  | zero => simp [load]
  | succ n ih =>
      have hbyte := (m a).toNat_lt
      have hrest := ih (a + 1)
      rw [load, pow_succ']
      omega

theorem noteLength_le (p : Word) : noteLength image p ≤ 12 + (2 ^ 32 + 2 ^ 32) := by
  have hname := align4_lt (k := 32) (load_lt image p 4) (by omega)
  have hdesc := align4_lt (k := 32) (load_lt image (p + 4) 4) (by omega)
  unfold noteLength
  omega

/-- The text of a note that is looked at belongs to the note. -/
theorem descRead_le (p : Word) : descRead image p ≤ align4 (load image (p + 4) 4) := by
  unfold descRead align4
  omega

/-- A note that lies in the file. -/
theorem toNat_note {p : Word} {n off : Nat} (hp : p.toNat + n < 2 ^ 64) (hoff : off ≤ n) :
    (p + BitVec.ofNat 64 off).toNat = p.toNat + off := by
  rw [BitVec.toNat_add, BitVec.toNat_ofNat]
  omega

theorem within_note {p : Word} {n off k : Nat} (hp : p.toNat + n ≤ size) (hsize : size < 2 ^ 63)
    (hoff : off + k ≤ n) : Within size (p + BitVec.ofNat 64 off) k := by
  intro x hx
  have htoNat : (p + BitVec.ofNat 64 off).toNat = p.toNat + off :=
    toNat_note (n := n) (by omega) (by omega)
  have hx := (mem_span_iff (by omega)).1 hx
  omega

/-- A segment that does not wrap around has its notes in the file. -/
theorem notesRead_of_le (hsize : size < 2 ^ 63) {fuel : Nat} {p : Word} {rest : Nat}
    (h : p.toNat + rest ≤ size) : NotesRead image size fuel p rest := by
  induction fuel generalizing p rest with
  | zero => trivial
  | succ fuel ih =>
      have hpart : ∀ off k, off + k ≤ rest → Within size (p + BitVec.ofNat 64 off) k :=
        fun off k hoff => within_note h hsize hoff
      unfold NotesRead
      split
      · trivial
      rename_i hheader
      have hfirst := hpart 0 4 (by omega)
      rw [BitVec.add_zero] at hfirst
      refine ⟨hfirst, hpart 4 4 (by omega), ?_⟩
      split
      · trivial
      rename_i hlong
      have hlength : noteLength image p =
        12 + (align4 (load image p 4) + align4 (load image (p + 4) 4)) := rfl
      refine ⟨hpart 8 4 (by omega), fun hname => hpart 12 3 ?_, ?_⟩
      · have hthree : 3 ≤ align4 (load image p 4) := by
          unfold align4
          omega
        omega
      split
      · have hdesc := hpart (12 + align4 (load image p 4)) (descRead image p) (by
          have hread : descRead image p ≤ _ := descRead_le p
          omega)
        rw [BitVec.ofNat_add, ← BitVec.add_assoc] at hdesc
        exact hdesc
      · refine ih ?_
        rw [toNat_note (n := noteLength image p) (by omega) (Nat.le_refl _)]
        omega

/-- A segment that wraps around has no end in the file: the notes must lead to a build id. -/
theorem notesRead_iff (hsize : size < 2 ^ 63) {fuel : Nat} {p : Word} {rest : Nat}
    (hrest : 12 ≤ rest) (hwrap : 2 ^ 64 ≤ p.toNat + rest) (hfuel : rest < fuel) :
    NotesRead image size fuel p rest ↔ LeadsToBuildId image size p := by
  induction fuel generalizing p rest with
  | zero => omega
  | succ fuel ih =>
      have hlength : noteLength image p ≤ _ := noteLength_le p
      -- what begins in the file is far from the end of the segment
      have hfar : Within size p 4 → p.toNat + 4 ≤ size ∧ noteLength image p + 12 ≤ rest := by
        intro h
        have hp := (within_iff (by omega) (by omega) (by omega)).1 h
        exact ⟨hp, by omega⟩
      -- the next note begins as far from the end
      have hstep : p.toNat + 12 ≤ size → (p + BitVec.ofNat 64 (noteLength image p)).toNat =
          p.toNat + noteLength image p := fun hp => toNat_note (by omega) (Nat.le_refl _)
      have hlower : 12 ≤ noteLength image p := by
        unfold noteLength
        omega
      unfold NotesRead
      rw [if_neg (by omega)]
      constructor
      · rintro ⟨hfirst, -, hnote⟩
        obtain ⟨hp, hroom⟩ := hfar hfirst
        rw [if_neg (by omega)] at hnote
        obtain ⟨hthird, hname, hnext⟩ := hnote
        have htoNat : (p + 8).toNat = p.toNat + 8 :=
          @toNat_note p 8 8 (by omega) (Nat.le_refl _)
        have hp := (within_iff (by omega) (by omega) (by omega)).1 hthird
        have hheader : Within size (p + BitVec.ofNat 64 0) 12 :=
          within_note (n := 12) (by omega) hsize (by omega)
        rw [BitVec.add_zero] at hheader
        split at hnext
        · rename_i hid
          exact .here p hheader (hname ⟨hid.1, hid.2.1⟩) hid hnext
        · rename_i hid
          refine .next p hheader hname hid ((ih (by omega) ?_ (by omega)).1 hnext)
          rw [hstep (by omega)]
          omega
      · intro h
        have hheader : Within size p 12 := by
          cases h <;> assumption
        have hp := (within_iff (by omega) (by omega) (by omega)).1 hheader
        have hpart : ∀ off k, off + k ≤ 12 → Within size (p + BitVec.ofNat 64 off) k :=
          fun off k hoff => within_note hp hsize hoff
        have hfirst := hpart 0 4 (by omega)
        rw [BitVec.add_zero] at hfirst
        obtain ⟨-, hroom⟩ := hfar hfirst
        refine ⟨hfirst, hpart 4 4 (by omega), ?_⟩
        rw [if_neg (by omega)]
        cases h with
        | here _ _ hname hid hdesc =>
            refine ⟨hpart 8 4 (by omega), fun _ => hname, ?_⟩
            rw [if_pos hid]
            exact hdesc
        | next _ _ hname hid hnext =>
            refine ⟨hpart 8 4 (by omega), hname, ?_⟩
            rw [if_neg hid]
            refine (ih (by omega) ?_ (by omega)).2 hnext
            rw [hstep (by omega)]
            omega

end Notes

/-- The notes that `so_check_build_id` looks at lie in the file: where the sum of the offset and the
length of a segment wraps around, its notes must lead to a build id. The segments after the first
build id are not looked at. -/
def NotesInside (image : Memory) (size : Nat) : List Phdr → Prop
  | [] => True
  | p :: ps =>
      if p.type ≠ ptNote ∨ (p.offset + p.filesz).toNat > size then NotesInside image size ps
      else
        (2 ^ 64 ≤ p.offset.toNat + p.filesz.toNat → 12 ≤ p.filesz.toNat →
          LeadsToBuildId image size p.offset) ∧
        (buildIdIn image (p.filesz.toNat + 1) p.offset p.filesz.toNat = none →
          NotesInside image size ps)

/-- Whether the first build id is the expected one. -/
def sameBuildId (image : Memory) (size : Nat) (expected : Bytes) : List Phdr → Bool
  | [] => false
  | p :: ps =>
      if p.type ≠ ptNote ∨ (p.offset + p.filesz).toNat > size then
        sameBuildId image size expected ps
      else
        match buildIdIn image (p.filesz.toNat + 1) p.offset p.filesz.toNat with
        | some p => decide (hexOf image (descAt image p) (descRead image p) = expected)
        | none => sameBuildId image size expected ps

section Segments

variable {image : Memory} {size limit : Nat}

theorem notesRead_segment (hsize : size < 2 ^ 63) {p : Phdr}
    (hsum : (p.offset + p.filesz).toNat ≤ size) :
    NotesRead image size (p.filesz.toNat + 1) p.offset p.filesz.toNat ↔
      (2 ^ 64 ≤ p.offset.toNat + p.filesz.toNat → 12 ≤ p.filesz.toNat →
        LeadsToBuildId image size p.offset) := by
  by_cases hwrap : 2 ^ 64 ≤ p.offset.toNat + p.filesz.toNat
  · by_cases hheader : 12 ≤ p.filesz.toNat
    · rw [forall_prop_of_true hwrap, forall_prop_of_true hheader]
      exact notesRead_iff hsize hheader hwrap (Nat.lt_succ_self _)
    · refine iff_of_true ?_ fun _ h => absurd h hheader
      unfold NotesRead
      rw [if_pos (by omega)]
      trivial
  · refine iff_of_true (notesRead_of_le hsize ?_) fun h => absurd h hwrap
    rwa [BitVec.toNat_add, Nat.mod_eq_of_lt (by omega)] at hsum

theorem runs_checkSegments (hsize : size < 2 ^ 63) (expected : Bytes) (ps : List Phdr) :
    Runs (InBounds size limit) (checkSegments image size expected ps) True
      (sameBuildId image size expected ps) (NotesInside image size ps) := by
  induction ps with
  | nil => exact runs_pure
  | cons p ps ih =>
      unfold sameBuildId NotesInside
      by_cases hskip : p.type ≠ ptNote ∨ (p.offset + p.filesz).toNat > size
      · rw [if_pos hskip, if_pos hskip]
        exact runs_if_pos hskip ih
      rw [if_neg hskip, if_neg hskip]
      have hsum : (p.offset + p.filesz).toNat ≤ size := not_lt.1 (not_or.1 hskip).2
      rw [← notesRead_segment hsize hsum]
      have hnotes : Runs (InBounds size limit)
        (checkNotes image expected (p.filesz.toNat + 1) p.offset
          p.filesz.toNat) _ _ _ := runs_checkNotes expected (p.filesz.toNat + 1) p.offset
            p.filesz.toNat
      cases hfound : buildIdIn image (p.filesz.toNat + 1) p.offset p.filesz.toNat with
      | some p =>
          rw [hfound] at hnotes
          refine Runs.of_eq (runs_if_neg hskip (runs_step hnotes runs_pure)) rfl Iff.rfl fun _ => ?_
          simp
      | none =>
          rw [hfound] at hnotes
          refine Runs.of_eq (runs_if_neg hskip (runs_step hnotes ih)) rfl Iff.rfl fun _ => ?_
          simp

end Segments

/-! ## The loader -/

/-- `so_load` reads the file in full. -/
structure ReadInFull (C : LoadCall) (file : Bytes) : Prop where
  found : C.file = some file
  told : C.told = true
  short : file.length < 2 ^ 63
  nonempty : file.length ≠ 0
  allocated : C.allocated = true
  readWhole : C.readWhole = true

theorem soLoad_of_readInFull {C : LoadCall} {file : Bytes} (h : ReadInFull C file) :
    soLoad C = loadImage C (imageOf file C.outside) file.length := by
  have htold : ¬ (C.told = false ∨ 2 ^ 63 ≤ file.length ∨ file.length = 0) := by
    rw [h.told]
    exact not_or.2 ⟨by simp, not_or.2 ⟨not_le.2 h.short, h.nonempty⟩⟩
  unfold soLoad
  rw [h.found]
  dsimp only
  rw [if_neg htold, h.allocated, h.readWhole]
  rfl

/-- What `so_load` does with a file that it reads in full. -/
theorem runs_soLoad {C : LoadCall} {file : Bytes} (h : ReadInFull C file) (limit : Nat) :
    Runs (InBounds file.length limit) (soLoad C) (Accepted C (imageOf file C.outside) file.length)
      (moduleOf C (imageOf file C.outside) file.length)
      (LoadInside (imageOf file C.outside) file.length limit) := by
  rw [soLoad_of_readInFull h]
  exact runs_loadImage C

theorem readInFull_of_soLoad {C : LoadCall} {mem mem' : Memory} {m : SoModule} {log : List Access}
    (h : soLoad C mem = (.ok m, mem', log)) : ∃ file, ReadInFull C file := by
  unfold soLoad at h
  cases hfile : C.file with
  | none =>
      rw [hfile] at h
      cases h
  | some file =>
      rw [hfile] at h
      dsimp only at h
      by_cases htold : C.told = false ∨ 2 ^ 63 ≤ file.length ∨ file.length = 0
      · rw [if_pos htold] at h
        cases h
      by_cases hallocated : C.allocated = false
      · rw [if_neg htold, if_pos hallocated] at h
        cases h
      by_cases hwhole : C.readWhole = false
      · rw [if_neg htold, if_neg hallocated, if_pos hwhole] at h
        cases h
      obtain ⟨htold, hsize⟩ := not_or.1 htold
      obtain ⟨hshort, hnonempty⟩ := not_or.1 hsize
      exact ⟨file, hfile, Bool.eq_true_of_not_eq_false htold, not_le.1 hshort, hnonempty,
        Bool.eq_true_of_not_eq_false hallocated, Bool.eq_true_of_not_eq_false hwhole⟩

/-- The condition on a call: an image that passes the checks of `so_load` is one whose parts lie
where they should, and so are its notes if a build id is expected. -/
def StaysInside (C : LoadCall) (expected : Bytes) : Prop :=
  ∀ file, ReadInFull C file → Accepted C (imageOf file C.outside) file.length →
    Inside (imageOf file C.outside) file.length ∧
      (expected ≠ [] → NotesInside (imageOf file C.outside) file.length
        ((List.range (phnumOf (imageOf file C.outside))).map
          (segmentOf (imageOf file C.outside))))

/-- What `so_load` and a following `so_check_build_id` access, if `so_load` returns 0, lies in the
image and in the memory of the module, which is no larger than allowed. -/
def LoadsInBounds (C : LoadCall) (expected : Bytes) : Prop :=
  ∀ mem m mem' log, soLoad C mem = (.ok m, mem', log) → m.loadSize ≤ C.maxSize ∧
    (∀ a ∈ log, InBounds m.soSize m.loadSize.toNat a) ∧
    ∀ a ∈ (soCheckBuildId m expected mem').2.2, InBounds m.soSize m.loadSize.toNat a

/-- What `so_check_build_id` looks at. -/
theorem checkBuildId_inBounds {C : LoadCall} {image : Memory} {size : Nat} (hsize : size < 2 ^ 63)
    (expected : Bytes) (mem : Memory) (limit : Nat) :
    (∀ a ∈ (soCheckBuildId (moduleOf C image size) expected mem).2.2, InBounds size limit a) ↔
      (expected ≠ [] → NotesInside image size
        ((List.range (phnumOf image)).map (segmentOf image))) := by
  unfold soCheckBuildId
  by_cases hempty : expected = []
  · rw [if_pos hempty, forall_prop_of_false (not_not.2 hempty), iff_true]
    exact fun a ha => nomatch ha
  · rw [if_neg hempty, forall_prop_of_true hempty]
    exact ((runs_checkSegments hsize expected _ mem).1 trivial).2

/-- A call that stays in bounds has a file whose parts lie where they should. -/
theorem inside_of_loadsInBounds {C : LoadCall} {expected : Bytes} (h : LoadsInBounds C expected)
    {file : Bytes} (hfile : ReadInFull C file)
    (haccepted : Accepted C (imageOf file C.outside) file.length) :
    Inside (imageOf file C.outside) file.length ∧
      (expected ≠ [] → NotesInside (imageOf file C.outside) file.length
        ((List.range (phnumOf (imageOf file C.outside))).map
          (segmentOf (imageOf file C.outside)))) := by
  have hsize := hfile.short
  obtain ⟨hvalue, hlog⟩ := (runs_soLoad hfile (loadSizeOf (imageOf file C.outside)).toNat
    fun _ => 0).1 haccepted
  obtain ⟨-, hin, hbuild⟩ := h (fun _ => 0) (moduleOf C (imageOf file C.outside) file.length) _ _
    (Prod.ext hvalue rfl)
  exact ⟨inside_of_loadInside (by omega) (hlog.1 hin), (checkBuildId_inBounds hsize _ _ _).1 hbuild⟩

/-- The loader stays in bounds for exactly the calls that meet the condition. -/
theorem load_inside (C : LoadCall) (expected : Bytes) :
    LoadsInBounds C expected ↔ StaysInside C expected := by
  constructor
  · exact fun h file hfile haccepted => inside_of_loadsInBounds h hfile haccepted
  · intro h mem m mem' log hrun
    obtain ⟨file, hfile⟩ := readInFull_of_soLoad hrun
    have hsize := hfile.short
    obtain ⟨hok, herror⟩ := runs_soLoad hfile (loadSizeOf (imageOf file C.outside)).toNat mem
    rw [hrun] at hok herror
    have haccepted : Accepted C (imageOf file C.outside) file.length := by
      by_contra hnot
      obtain ⟨e, he⟩ := herror hnot
      cases he
    obtain ⟨hvalue, hlog⟩ := hok haccepted
    obtain rfl : m = moduleOf C (imageOf file C.outside) file.length := Except.ok.inj hvalue
    obtain ⟨hinside, hnotes⟩ := h file hfile haccepted
    exact ⟨haccepted.room, hlog.2 (loadInside_of_inside (by omega) haccepted hinside),
      (checkBuildId_inBounds hsize _ _ _).2 hnotes⟩

/-- A file of 264 bytes with one segment, 16 bytes in the file and none in memory, and the sections
`.dynsym` and `.dynstr`. Its bytes are those of a number. -/
def overlongFile : Bytes :=
  (List.range 264).map fun k =>
    UInt8.ofNat ((elfMag + 183 * 256 ^ 18 + 64 * 256 ^ 32 + 120 * 256 ^ 40 +
    256 ^ 56 + 2 * 256 ^ 60 + 256 ^ 64 + 16 * 256 ^ 96 + 248 * 256 ^ 144 + 8 * 256 ^ 184 +
    0x7274736e79642e006d79736e79642e * 256 ^ 248) / 256 ^ k)

/-- A call for this file. -/
def overlongCall : LoadCall :=
  { file := some overlongFile, told := true, allocated := true, readWhole := true,
    outside := fun _ => 0, base := 0x10000, maxSize := 0x10000, virtbase := 0x20000, reserved := true }

theorem accepted_overlongFile :
    Accepted overlongCall (imageOf overlongFile fun _ => 0) overlongFile.length := by
  refine ⟨?_, ?_, ?_, ?_, ?_, ?_, ?_, fun i hi _ => ?_, ?_, ?_⟩
  · decide +kernel
  · decide +kernel
  · decide +kernel
  · decide +kernel
  · decide +kernel
  · decide +kernel
  · decide +kernel
  · have hone : phnumOf (imageOf overlongFile fun _ => 0) = 1 := by decide +kernel
    obtain rfl : i = 0 := by omega
    decide +kernel
  · decide +kernel
  · decide +kernel

/-- The segment is written behind the memory of the module, which has no bytes. -/
theorem overlong_out_of_bounds : ¬ LoadsInBounds overlongCall [] := by
  intro h
  have hfile : ReadInFull overlongCall overlongFile :=
    ⟨rfl, rfl, by decide +kernel, by decide +kernel, rfl, rfl⟩
  have hinside := (inside_of_loadsInBounds h hfile accepted_overlongFile).1
  have hcopied : Copied (imageOf overlongFile fun _ => 0) 0 := by
    unfold Copied
    decide +kernel
  have hroom := (hinside.copied 0 (by decide +kernel) hcopied).2
  revert hroom
  decide +kernel

end Asnx.Loader
