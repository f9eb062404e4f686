import Mathlib.Algebra.Group.Nat.Defs
import Asnx.Library.Sweeping
import Asnx.Loader.Load

/-!
# The page permissions of a module

`so_finalize` of `source/so_util.c`: it maps the module as code, marks the pages of the executable
segments and gives every page its permission in two sweeps over the marks.

Each page gets one permission in any case. It is the right one for all pages exactly if two kinds
of headers do no harm (`finalize_iff`): an empty segment that does not begin at a page boundary
marks the page that it is in, and a segment whose end overflows when it is rounded up to a page
loses its pages.
-/

namespace Asnx.Loader

open ByteMemory Sweeping

/-! ## The code -/

/-- `Elf64_Phdr` with `p_flags` -/
structure CodePhdr extends Phdr where
  flags : BitVec 32

/-- `PF_X` -/
def pfX : BitVec 32 := 1

/-- `Perm_Rx` and `Perm_Rw` -/
inductive Perm where
  | rx
  | rw
  deriving DecidableEq, Repr

/-- The arguments of `svcSetProcessMemoryPermission`. -/
structure PermissionCall where
  addr : Word
  size : Word
  perm : Perm
  deriving DecidableEq, Repr

/-- What `so_finalize` asks of the system. -/
inductive SystemCall where
  | svcMapProcessCodeMemory (dst src size : Word)
  | svcSetProcessMemoryPermission (c : PermissionCall)
  | armICacheInvalidate (addr size : Word)
  deriving DecidableEq, Repr

/-- Which system calls succeed, and whether `calloc` returns a block of some size. -/
structure System where
  succeeds : SystemCall → Bool
  calloc : Nat → Bool

/-- The fields of a module that `so_finalize` reads; `syms` and `dynstrtab` are pointers. -/
structure FinalModule where
  loadBase : Word
  loadVirtbase : Word
  loadSize : Word
  phdr : List CodePhdr
  syms : Word
  dynstrtab : Word

/-- The number of pages of a module. -/
def FinalModule.pages (m : FinalModule) : Nat := m.loadSize.toNat / 0x1000

/-- A segment that is loaded and executed. -/
abbrev CodePhdr.Executable (h : CodePhdr) : Prop := h.type = ptLoad ∧ h.flags &&& pfX ≠ 0

/-- The first page of a segment. -/
def CodePhdr.firstPage (h : CodePhdr) : Nat := h.vaddr.toNat / 0x1000

/-- The page behind the last one of a segment. -/
def CodePhdr.endPage (h : CodePhdr) : Nat := (alignMem (h.vaddr + h.memsz) 12).toNat / 0x1000

/-- The body of the loop over the headers: `x[p]=1` for the pages of an executable segment. -/
def markSegment (pages : Nat) (x : List Bool) (h : CodePhdr) : List Bool :=
  if h.Executable then
    (List.range' h.firstPage (min h.endPage pages - h.firstPage)).foldl (fun x p => x.set p true) x
  else x

/-- The marks of the pages. -/
def FinalModule.codePages (m : FinalModule) : List Bool :=
  m.phdr.foldl (markSegment m.pages) (List.replicate m.pages false)

/-- The permission of a stretch of pages with the mark `want`. -/
def FinalModule.permission (m : FinalModule) (want : Bool) (s : Stretch) : PermissionCall :=
  ⟨m.loadVirtbase + BitVec.ofNat 64 (s.first * 0x1000),
    BitVec.ofNat 64 ((s.last - s.first) * 0x1000), if want then .rx else .rw⟩

/-- The two sweeps. -/
def FinalModule.permissions (m : FinalModule) : List PermissionCall :=
  [true, false].flatMap fun want => (sweep m.codePages want 0).map (m.permission want)

/-- The calls up to the first one that fails, and whether none does. -/
def setPermissions (sys : System) : List PermissionCall → List SystemCall × Bool
  | [] => ([], true)
  | c :: cs =>
      if sys.succeeds (.svcSetProcessMemoryPermission c) then
        (.svcSetProcessMemoryPermission c :: (setPermissions sys cs).1, (setPermissions sys cs).2)
      else ([.svcSetProcessMemoryPermission c], false)

/-- `so_finalize`: the system calls, and the module afterwards or `none` after a `fatal_error`. -/
def soFinalize (sys : System) (m : FinalModule) : List SystemCall × Option FinalModule :=
  let map := SystemCall.svcMapProcessCodeMemory m.loadVirtbase m.loadBase m.loadSize
  if sys.succeeds map = false ∨ sys.calloc m.pages = false then ([map], none)
  else
    let (calls, completed) := setPermissions sys m.permissions
    if completed then
      let d := m.loadVirtbase - m.loadBase
      (map :: calls ++ [.armICacheInvalidate m.loadVirtbase m.loadSize],
        some { m with syms := m.syms + d, dynstrtab := m.dynstrtab + d })
    else (map :: calls, none)

/-! ## What the permissions should be -/

/-- The permission calls of a list of system calls. -/
def permissionCalls (calls : List SystemCall) : List PermissionCall :=
  calls.filterMap fun
    | .svcSetProcessMemoryPermission c => some c
    | _ => none

/-- The address that page `q` of a module is mapped to. -/
def FinalModule.pageAt (m : FinalModule) (q : Nat) : Word :=
  m.loadVirtbase + BitVec.ofNat 64 (q * 0x1000)

/-- A call sets the permission of the page at an address. -/
def PermissionCall.covers (c : PermissionCall) (page : Word) : Bool :=
  (page - c.addr).toNat < c.size.toNat

/-- Some byte of a segment lies in page `q`. -/
def CodePhdr.Intersects (h : CodePhdr) (q : Nat) : Prop :=
  ∃ x, h.vaddr.toNat ≤ x ∧ x < h.vaddr.toNat + h.memsz.toNat ∧ q * 0x1000 ≤ x ∧ x < (q + 1) * 0x1000

/-- Some executable segment intersects page `q`. -/
def FinalModule.HasCode (m : FinalModule) (q : Nat) : Prop :=
  ∃ h ∈ m.phdr, h.Executable ∧ h.Intersects q

/-- The calls partition the pages of a module: each of them sets the permission of whole pages of
the module, each page gets one permission, and it is `rx` where there is code. -/
structure Partition (m : FinalModule) (calls : List PermissionCall) : Prop where
  whole : ∀ c ∈ calls, ∃ first last, first < last ∧ last ≤ m.pages ∧ c.addr = m.pageAt first ∧
    c.size = BitVec.ofNat 64 ((last - first) * 0x1000)
  once : ∀ q < m.pages, calls.countP (fun c => c.covers (m.pageAt q)) = 1
  right : ∀ q < m.pages, ∀ c ∈ calls, c.covers (m.pageAt q) = true →
    (c.perm = .rx ↔ m.HasCode q)

/-- The headers do no harm to the marks: the page with the start of an empty segment between two
page boundaries has code, and no page with code is lost to an overflow, as the end of some segment
that starts in the page or before it lies behind the page even after it has been rounded up in 64
bits. -/
structure Harmless (m : FinalModule) : Prop where
  empty : ∀ q < m.pages, ∀ h ∈ m.phdr, h.Executable → h.memsz = 0 → h.vaddr.toNat % 0x1000 ≠ 0 →
    h.vaddr.toNat / 0x1000 = q → m.HasCode q
  overflow : ∀ q < m.pages, m.HasCode q → ∃ h ∈ m.phdr, h.Executable ∧
    h.vaddr.toNat < (q + 1) * 0x1000 ∧
    (q + 1) * 0x1000 ≤ (h.vaddr.toNat + h.memsz.toNat + 0xfff) % 2 ^ 64

variable {m : FinalModule} {sys : System} {h : CodePhdr} {q : Nat}

/-! ## The marks -/

/-- Setting a range of positions. -/
theorem getElem?_foldl_set (x : List Bool) (a n q : Nat) :
    ((List.range' a n).foldl (fun x p => x.set p true) x)[q]? =
      if a ≤ q ∧ q < a + n ∧ q < x.length then some true else x[q]? := by
  induction n generalizing a x with
  | zero => rw [if_neg (by omega)]; rfl
  | succ n ih =>
      rw [List.range'_succ, List.foldl_cons, ih, List.length_set]
      by_cases heq : a = q
      case pos =>
        subst heq
        rw [if_neg (by omega), List.getElem?_set_self']
        by_cases hlt : a < x.length
        · rw [if_pos ⟨le_rfl, by omega, hlt⟩, List.getElem?_eq_getElem hlt]
          rfl
        · rw [if_neg fun h => hlt h.2.2, List.getElem?_eq_none (Nat.le_of_not_lt hlt)]
          rfl
      case neg =>
        rw [List.getElem?_set_ne heq]
        refine if_congr ?_ rfl rfl
        omega

theorem length_markSegment (pages : Nat) (x : List Bool) (h : CodePhdr) :
    (markSegment pages x h).length = x.length := by
  unfold markSegment
  split
  · induction List.range' h.firstPage (min h.endPage pages - h.firstPage) generalizing x with
    | nil => rfl
    | cons p ps ih => rw [List.foldl_cons, ih, List.length_set]
  · rfl

/-- What one header marks. -/
theorem getElem?_markSegment {x : List Bool} {pages : Nat} (hlen : x.length = pages)
    (hq : q < pages) :
    (markSegment pages x h)[q]? = some true ↔
      x[q]? = some true ∨ h.Executable ∧ h.firstPage ≤ q ∧ q < h.endPage := by
  unfold markSegment
  split
  case isTrue hexec =>
    rw [getElem?_foldl_set]
    by_cases hin : h.firstPage ≤ q ∧ q < h.endPage
    · rw [if_pos (by omega)]
      exact iff_of_true rfl (.inr ⟨hexec, hin⟩)
    · rw [if_neg (by omega)]
      exact (or_iff_left fun h => hin h.2).symm
  case isFalse hexec => exact (or_iff_left fun h => hexec h.1).symm

/-- The marks after some headers, by induction on the headers. -/
theorem getElem?_foldl_markSegment (hs : List CodePhdr) {x : List Bool} {pages : Nat}
    (hlen : x.length = pages) (hq : q < pages) :
    (hs.foldl (markSegment pages) x)[q]? = some true ↔
      x[q]? = some true ∨ ∃ h ∈ hs, h.Executable ∧ h.firstPage ≤ q ∧ q < h.endPage := by
  induction hs generalizing x with
  | nil => simp
  | cons h hs ih =>
      rw [List.foldl_cons, ih (by rw [length_markSegment, hlen]), getElem?_markSegment hlen hq,
        List.exists_mem_cons_iff, or_assoc]

theorem length_codePages (m : FinalModule) : m.codePages.length = m.pages := by
  have hfold : ∀ (hs : List CodePhdr) (x : List Bool),
      (hs.foldl (markSegment m.pages) x).length = x.length := by
    intro hs
    induction hs with
    | nil => exact fun x => rfl
    | cons h hs ih => exact fun x => (ih _).trans (length_markSegment _ _ _)
  rw [FinalModule.codePages, hfold, List.length_replicate]

/-- The pages that are marked in the end. -/
theorem codePages_iff (hq : q < m.pages) : m.codePages[q]? = some true ↔
    ∃ h ∈ m.phdr, h.Executable ∧ h.firstPage ≤ q ∧ q < h.endPage := by
  rw [FinalModule.codePages, getElem?_foldl_markSegment _ (List.length_replicate ..) hq,
    List.getElem?_replicate, if_pos hq]
  exact or_iff_right (by simp)

/-! ## The calls -/

/-- A page number stays below `2 ^ 52`. -/
theorem page_lt (hq : q < m.pages) : (q + 1) * 0x1000 < 2 ^ 64 := by
  have hsize := m.loadSize.isLt
  unfold FinalModule.pages at hq
  omega

/-- An offset lies in a range of offsets from the same base. -/
theorem offset_lt_iff {base : Word} {a b n : Nat} (ha : a + n < 2 ^ 64) (hb : b < 2 ^ 64) :
    (base + BitVec.ofNat 64 b - (base + BitVec.ofNat 64 a)).toNat < n ↔ a ≤ b ∧ b < a + n := by
  have hsub : base + BitVec.ofNat 64 b - (base + BitVec.ofNat 64 a) =
      BitVec.ofNat 64 b - BitVec.ofNat 64 a := by
    bv_omega
  have htoNat : (BitVec.ofNat 64 a).toNat = a := Nat.mod_eq_of_lt (by omega)
  have htoNat' : (BitVec.ofNat 64 b).toNat = b := Nat.mod_eq_of_lt hb
  rw [hsub, BitVec.toNat_sub, htoNat, htoNat']
  omega

/-- A permission covers the pages of its stretch. -/
theorem covers_permission (want : Bool) {s : Stretch} (hlt : s.first < s.last)
    (hle : s.last ≤ m.pages) (hq : q < m.pages) :
    (m.permission want s).covers (m.pageAt q) = s.has q := by
  have hpage : q * 0x1000 < 2 ^ 64 :=
    lt_of_le_of_lt (Nat.mul_le_mul_right _ (Nat.le_succ q)) (page_lt hq)
  have hlast : s.last * 0x1000 < 2 ^ 64 := by
    have hpage := page_lt (m := m) (q := s.last - 1) (by omega)
    rwa [Nat.sub_add_cancel (by omega)] at hpage
  have hsum : s.first * 0x1000 + (s.last - s.first) * 0x1000 = s.last * 0x1000 := by
    rw [← Nat.add_mul, Nat.add_sub_cancel' hlt.le]
  rw [← hsum] at hlast
  have hsize : (m.permission want s).size.toNat = (s.last - s.first) * 0x1000 :=
    Nat.mod_eq_of_lt (lt_of_le_of_lt (Nat.le_add_left _ _) hlast)
  have hoffset := @offset_lt_iff m.loadVirtbase _ _ _ hlast hpage
  have hhas : s.has q = decide (s.first ≤ q ∧ q < s.last) := (Bool.decide_and ..).symm
  rw [PermissionCall.covers, hsize, hhas]
  refine decide_eq_decide.2 (hoffset.trans ?_)
  omega

/-- A call of the sweeps. -/
theorem mem_permissions {c : PermissionCall} (h : c ∈ m.permissions) :
    ∃ want, ∃ s ∈ sweep m.codePages want 0, c = m.permission want s ∧ s.first < s.last ∧
      s.last ≤ m.pages := by
  obtain ⟨want, -, hc⟩ := List.mem_flatMap.1 h
  obtain ⟨s, hs, rfl⟩ := List.mem_map.1 hc
  have hbounds := bounds_of_mem_sweep hs
  rw [length_codePages] at hbounds
  exact ⟨want, s, hs, rfl, hbounds⟩

/-- How many calls of one sweep cover a page. -/
theorem countP_permission (want : Bool) (hq : q < m.pages) :
    ((sweep m.codePages want 0).map (m.permission want)).countP (fun c => c.covers (m.pageAt q)) =
      if m.codePages[q]? = some want then 1 else 0 := by
  rw [List.countP_map]
  have hcongr : (sweep m.codePages want 0).countP
        ((fun c => c.covers (m.pageAt q)) ∘ m.permission want) =
      (sweep m.codePages want 0).countP (fun s => s.has q) := by
    refine List.countP_congr fun s hs => ?_
    have hbounds := bounds_of_mem_sweep hs
    rw [length_codePages] at hbounds
    rw [Function.comp_apply, covers_permission want hbounds.1 hbounds.2 hq]
  rw [hcongr, countP_sweep]
  exact if_congr (and_iff_right (Nat.zero_le q)) rfl rfl

/-- Every page is covered once. -/
theorem countP_permissions (hq : q < m.pages) :
    m.permissions.countP (fun c => c.covers (m.pageAt q)) = 1 := by
  have hlt : q < m.codePages.length := by rwa [length_codePages]
  rw [FinalModule.permissions, List.flatMap_cons, List.flatMap_cons, List.flatMap_nil,
    List.append_nil, List.countP_append, countP_permission true hq, countP_permission false hq,
    List.getElem?_eq_getElem hlt]
  cases m.codePages[q] <;> rfl

/-- The permission that a page gets. -/
theorem perm_of_covers {c : PermissionCall} (hq : q < m.pages) (hc : c ∈ m.permissions)
    (hcovers : c.covers (m.pageAt q) = true) :
    c.perm = .rx ↔ m.codePages[q]? = some true := by
  obtain ⟨want, s, hs, rfl, hlt, hle⟩ := mem_permissions hc
  rw [covers_permission want hlt hle hq] at hcovers
  have hpos : 0 < (sweep m.codePages want 0).countP (fun s => s.has q) :=
    List.countP_pos_iff.2 ⟨s, hs, hcovers⟩
  rw [countP_sweep] at hpos
  split at hpos
  case isTrue hmark =>
    rw [hmark.2]
    cases want with
    | true => exact iff_of_true rfl rfl
    | false => exact iff_of_false (by intro h; cases h) (by simp)
  case isFalse => exact absurd hpos (Nat.lt_irrefl 0)

/-! ## The marks and the segments -/

/-- A segment marks page `q` if it starts in the page or before it and its rounded end lies
behind. -/
theorem marks_iff : h.firstPage ≤ q ∧ q < h.endPage ↔
    h.vaddr.toNat < (q + 1) * 0x1000 ∧
      (q + 1) * 0x1000 ≤ (h.vaddr.toNat + h.memsz.toNat + 0xfff) % 2 ^ 64 := by
  have hround : (h.vaddr + h.memsz + BitVec.ofNat 64 (2 ^ 12 - 1)).toNat =
      (h.vaddr.toNat + h.memsz.toNat + 0xfff) % 2 ^ 64 := by
    rw [BitVec.toNat_add, BitVec.toNat_add, Nat.mod_add_mod]
    rfl
  have hend : h.endPage = (h.vaddr.toNat + h.memsz.toNat + 0xfff) % 2 ^ 64 / 0x1000 := by
    have hlt : (h.vaddr.toNat + h.memsz.toNat + 0xfff) % 2 ^ 64 < 2 ^ 64 := Nat.mod_lt _ (by decide)
    rw [CodePhdr.endPage, alignMem, hround, BitVec.toNat_ofNat]
    generalize (h.vaddr.toNat + h.memsz.toNat + 0xfff) % 2 ^ 64 = rounded at hlt ⊢
    rw [Nat.mod_eq_of_lt (lt_of_le_of_lt (Nat.div_mul_le_self _ _) hlt)]
    exact Nat.mul_div_cancel _ (by decide)
  rw [hend, CodePhdr.firstPage]
  generalize (h.vaddr.toNat + h.memsz.toNat + 0xfff) % 2 ^ 64 = rounded
  omega

/-- A segment that marks a page intersects it, or is empty and lies between its boundaries. -/
theorem intersects_or_empty (hstart : h.vaddr.toNat < (q + 1) * 0x1000)
    (hend : (q + 1) * 0x1000 ≤ (h.vaddr.toNat + h.memsz.toNat + 0xfff) % 2 ^ 64) :
    h.Intersects q ∨
      h.memsz = 0 ∧ h.vaddr.toNat % 0x1000 ≠ 0 ∧ h.vaddr.toNat / 0x1000 = q := by
  have hle := hend.trans (Nat.mod_le _ _)
  by_cases hempty : h.memsz.toNat = 0
  case pos =>
    refine .inr ⟨BitVec.eq_of_toNat_eq hempty, ?_, ?_⟩
    all_goals omega
  case neg =>
    refine .inl ⟨max h.vaddr.toNat (q * 0x1000), Nat.le_max_left _ _, ?_, Nat.le_max_right _ _, ?_⟩
    all_goals omega

/-- An empty segment between the boundaries of a page of the module marks the page. -/
theorem marks_of_empty (hq : q < m.pages) (hempty : h.memsz = 0)
    (hunaligned : h.vaddr.toNat % 0x1000 ≠ 0) (hpage : h.vaddr.toNat / 0x1000 = q) :
    h.vaddr.toNat < (q + 1) * 0x1000 ∧
      (q + 1) * 0x1000 ≤ (h.vaddr.toNat + h.memsz.toNat + 0xfff) % 2 ^ 64 := by
  have hsize := m.loadSize.isLt
  have hzero : h.memsz.toNat = 0 := congrArg BitVec.toNat hempty
  unfold FinalModule.pages at hq
  rw [hzero, Nat.mod_eq_of_lt (by omega)]
  omega

/-- The headers are harmless exactly if the marked pages are the pages with code. -/
theorem harmless_iff : Harmless m ↔
    ∀ q < m.pages, (m.codePages[q]? = some true ↔ m.HasCode q) := by
  constructor
  · intro hharmless q hq
    rw [codePages_iff hq]
    constructor
    · rintro ⟨h, hmem, hexec, hmarks⟩
      obtain ⟨hstart, hend⟩ := marks_iff.1 hmarks
      rcases intersects_or_empty hstart hend with hin | ⟨hempty, hunaligned, hpage⟩
      · exact ⟨h, hmem, hexec, hin⟩
      · exact hharmless.empty q hq h hmem hexec hempty hunaligned hpage
    · intro hcode
      obtain ⟨h, hmem, hexec, hmarks⟩ := hharmless.overflow q hq hcode
      exact ⟨h, hmem, hexec, marks_iff.2 hmarks⟩
  · intro hmarked
    refine ⟨fun q hq h hmem hexec hempty hunaligned hpage => ?_, fun q hq hcode => ?_⟩
    · rw [← hmarked q hq, codePages_iff hq]
      exact ⟨h, hmem, hexec, marks_iff.2 (marks_of_empty hq hempty hunaligned hpage)⟩
    · rw [← hmarked q hq, codePages_iff hq] at hcode
      obtain ⟨h, hmem, hexec, hmarks⟩ := hcode
      exact ⟨h, hmem, hexec, marks_iff.1 hmarks⟩

/-- The permissions partition the pages exactly if the marked pages are the pages with code. -/
theorem partition_iff : Partition m m.permissions ↔
    ∀ q < m.pages, (m.codePages[q]? = some true ↔ m.HasCode q) := by
  constructor
  · intro hpartition q hq
    have hpos : 0 < m.permissions.countP (fun c => c.covers (m.pageAt q)) := by
      rw [countP_permissions hq]
      decide
    obtain ⟨c, hc, hcovers⟩ := List.countP_pos_iff.1 hpos
    rw [← perm_of_covers hq hc hcovers]
    exact hpartition.right q hq c hc hcovers
  · intro hmarked
    refine ⟨fun c hc => ?_, fun q hq => countP_permissions hq, fun q hq c hc hcovers => ?_⟩
    · obtain ⟨want, s, -, rfl, hlt, hle⟩ := mem_permissions hc
      exact ⟨s.first, s.last, hlt, hle, rfl, rfl⟩
    · rw [perm_of_covers hq hc hcovers]
      exact hmarked q hq

/-- Headers without an empty segment off the page boundaries and without an overflow are
harmless. -/
theorem harmless_of_regular (hregular : ∀ h ∈ m.phdr, h.Executable →
    (h.memsz = 0 → h.vaddr.toNat % 0x1000 = 0) ∧
      h.vaddr.toNat + h.memsz.toNat + 0xfff < 2 ^ 64) : Harmless m where
  empty := fun _ _ h hmem hexec hempty hunaligned _ =>
    absurd ((hregular h hmem hexec).1 hempty) hunaligned
  overflow := by
    rintro q - ⟨h, hmem, hexec, x, hstart, hend, hle, hlt⟩
    refine ⟨h, hmem, hexec, lt_of_le_of_lt hstart hlt, ?_⟩
    have hpage : (q + 1) * 0x1000 ≤ x + 1 + 0xfff := by
      rw [Nat.add_one_mul, Nat.add_assoc x]
      exact Nat.add_le_add_right hle _
    rw [Nat.mod_eq_of_lt (hregular h hmem hexec).2]
    exact hpage.trans (Nat.add_le_add_right (Nat.succ_le_of_lt hend) _)

/-! ## The calls of `so_finalize` -/

/-- Where all calls succeed, `so_finalize` makes all of the sweeps' calls. -/
theorem setPermissions_of_succeeds (hsys : ∀ c, sys.succeeds c = true) (cs : List PermissionCall) :
    setPermissions sys cs = (cs.map .svcSetProcessMemoryPermission, true) := by
  induction cs with
  | nil => rfl
  | cons c cs ih => rw [setPermissions, if_pos (hsys _), ih, List.map_cons]

theorem permissionCalls_soFinalize (hsys : ∀ c, sys.succeeds c = true)
    (halloc : sys.calloc m.pages = true) :
    permissionCalls (soFinalize sys m).1 = m.permissions := by
  have hmap : permissionCalls (m.permissions.map .svcSetProcessMemoryPermission) =
      m.permissions := by
    rw [permissionCalls, List.filterMap_map]
    exact List.filterMap_some
  have hgo : ¬ (sys.succeeds (.svcMapProcessCodeMemory m.loadVirtbase m.loadBase m.loadSize) =
    false ∨
      sys.calloc m.pages = false) := by
    rw [hsys, halloc]
    simp
  simp only [soFinalize, setPermissions_of_succeeds hsys]
  rw [if_neg hgo, if_pos trivial]
  show permissionCalls (_ ++ _) = _
  rw [permissionCalls, List.filterMap_append]
  exact (List.append_nil _).trans hmap

/-- Where the system calls succeed, `so_finalize` partitions the pages of a module exactly if its
headers are harmless. -/
theorem finalize_iff (hsys : ∀ c, sys.succeeds c = true) (halloc : sys.calloc m.pages = true) :
    Partition m (permissionCalls (soFinalize sys m).1) ↔ Harmless m := by
  rw [permissionCalls_soFinalize hsys halloc, partition_iff, harmless_iff]

/-- A system that grants everything. -/
def willing : System := ⟨fun _ => true, fun _ => true⟩

/-- A module of three pages at 0x80000000 with one executable segment. -/
def segmentModule (vaddr memsz : Word) : FinalModule :=
  ⟨0x10000000, 0x80000000, 0x3000, [⟨⟨ptLoad, 0, vaddr, 0, memsz⟩, pfX⟩], 0, 0⟩

theorem finalize_iff_segment :
    Partition (segmentModule 0x800 0x1000)
      (permissionCalls (soFinalize willing (segmentModule 0x800 0x1000)).1) := by
  refine (finalize_iff (fun _ => rfl) rfl).2 (harmless_of_regular ?_)
  refine List.forall_mem_singleton.2 fun _ => ⟨fun hempty => absurd hempty ?_, ?_⟩
  all_goals decide

/-- An empty segment in the middle of the first page makes the page executable. -/
theorem not_partition_empty :
    ¬ Partition (segmentModule 0x800 0)
      (permissionCalls (soFinalize willing (segmentModule 0x800 0)).1) := by
  rw [permissionCalls_soFinalize (fun _ => rfl) rfl, partition_iff]
  intro hmarked
  have hmark : (segmentModule 0x800 0).codePages[0]? = some true := by decide
  obtain ⟨h, hmem, -, x, hstart, hend, -, -⟩ := (hmarked 0 (by decide)).1 hmark
  obtain rfl := List.mem_singleton.1 hmem
  exact absurd (lt_of_le_of_lt hstart hend) (Nat.lt_irrefl _)

end Asnx.Loader
