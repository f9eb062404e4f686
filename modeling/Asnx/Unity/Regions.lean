import Asnx.Library.Bits
import Asnx.Unity.Replaced

/-!
# The regions of Unity's heap

Code at 17 places depends on the size of a region: it computes the region of an address, its place
in a table of two levels, and steps between regions. The old words do it for regions of 256 MiB,
the new ones for regions of 64 MiB (`heap_regions`): with all of them in place, addresses below
`2 ^ 54` have the same entry exactly if they are in the same region of 64 MiB.
-/

namespace Asnx.Unity

open A64 ByteMemory Loader Overwriting

variable {m : SoModule} {mem : Memory} {s : State} {v : Word} {k n lo : Nat}

/-! ## Fields -/

theorem toNat_ones (hn : n ≤ 64) : (ones n).toNat = 2 ^ n - 1 := by
  have hpow : 2 ^ n ≤ 2 ^ 64 := Nat.pow_le_pow_right (by decide) hn
  have hpos : 0 < 2 ^ n := Nat.two_pow_pos n
  rw [ones, BitVec.toNat_ofNat]
  exact Nat.mod_eq_of_lt (by omega)

/-- A bit field. -/
theorem ubfmOf_field (hn : 0 < n) (h : lo + n ≤ 64) :
    ubfmOf v lo (lo + n - 1) = BitVec.ofNat 64 (v.toNat / 2 ^ lo % 2 ^ n) := by
  have hwidth : lo + n - 1 + 1 - lo = n := by omega
  apply BitVec.eq_of_toNat_eq
  rw [ubfmOf, if_pos (by omega), hwidth, BitVec.toNat_and, toNat_ones (by omega),
    BitVec.toNat_ushiftRight,
    Nat.shiftRight_eq_div_pow, Nat.and_two_pow_sub_one_eq_mod, BitVec.toNat_ofNat]
  exact (Nat.mod_eq_of_lt ((Nat.mod_lt _ (Nat.two_pow_pos n)).trans_le
    (Nat.pow_le_pow_right (by decide) (by omega)))).symm

theorem exec_ubfm {rd rn : Reg} (hrn : rn ≠ 31) (hn : 0 < n) (h : lo + n ≤ 64) :
    exec (.ubfm rd rn lo (lo + n - 1)) s =
      (s.set rd (BitVec.ofNat 64 ((s.x rn).toNat / 2 ^ lo % 2 ^ n))).next := by
  rw [exec, State.get, if_neg hrn, ubfmOf_field hn h]

/-- The bits from a place on. -/
theorem exec_lsr {rd rn : Reg} (hrn : rn ≠ 31) (h : lo < 64) :
    exec (.ubfm rd rn lo 63) s = (s.set rd (BitVec.ofNat 64 ((s.x rn).toNat / 2 ^ lo))).next := by
  have hall : (s.x rn).toNat / 2 ^ lo < 2 ^ (64 - lo) := by
    rw [Nat.div_lt_iff_lt_mul (Nat.two_pow_pos lo), ← Nat.pow_add, Nat.sub_add_cancel h.le]
    exact (s.x rn).isLt
  have hwidth : 63 = lo + (64 - lo) - 1 := by omega
  rw [hwidth, exec_ubfm hrn (by omega) (by omega), Nat.mod_eq_of_lt hall]

/-- A field in its place. -/
theorem exec_andImm {rd rn : Reg} {mask : Word} (n lo : Nat) (hrd : rd ≠ 31) (hrn : rn ≠ 31)
    (hmask : mask.toNat = (2 ^ n - 1) * 2 ^ lo) : exec (.andImm rd rn mask) s =
      (s.set rd (BitVec.ofNat 64 ((s.x rn).toNat / 2 ^ lo % 2 ^ n * 2 ^ lo))).next := by
  have hand : s.x rn &&& mask = BitVec.ofNat 64 ((s.x rn).toNat / 2 ^ lo % 2 ^ n * 2 ^ lo) := by
    rw [← Bits.and_mask, ← hmask, ← BitVec.toNat_and, BitVec.ofNat_toNat, BitVec.setWidth_eq]
  rw [exec, State.get, State.setSp, State.set, if_neg hrn, if_neg hrd, if_neg hrd, hand]

/-- A difference of shifted registers. -/
theorem exec_subReg {rd rn rm : Reg} (hrn : rn ≠ 31) (hrm : rm ≠ 31) :
    exec (.subReg .full rd rn rm k) s =
    (s.set rd (BitVec.ofNat 64 (s.x rn).toNat - BitVec.ofNat 64
      ((s.x rm).toNat * 2 ^ k))).next := by
  have hshift : s.x rm <<< k = BitVec.ofNat 64 ((s.x rm).toNat * 2 ^ k) := by
    apply BitVec.eq_of_toNat_eq
    rw [BitVec.toNat_shiftLeft, Nat.shiftLeft_eq, BitVec.toNat_ofNat]
  rw [exec, State.get, State.get, if_neg hrn, if_neg hrm, hshift, BitVec.ofNat_toNat,
    BitVec.setWidth_eq,
    Width.fit_full]

/-! ## Regions -/

/-- The number of the region of an address, for regions of `2 ^ k` bytes. -/
def region (k a : Nat) : Nat := a / 2 ^ k

/-- The index of an address into the upper table. -/
def topIndex (k a : Nat) : Nat := a / 2 ^ (k + 12)

/-- The index into a lower one. -/
def leafIndex (k a : Nat) : Nat := region k a % 2 ^ 12

/-- The start of a region, for an address of so many bits as the tables have room for. -/
def regionStart (k a : Nat) : Nat := region k a % 2 ^ 28 * 2 ^ k

/-- The tables have an entry for each region, and one only. -/
theorem entry_iff {a b : Nat} :
    topIndex k a = topIndex k b ∧ leafIndex k a = leafIndex k b ↔ region k a = region k b := by
  have htop : ∀ a, topIndex k a = region k a / 2 ^ 12 := fun a => by
    rw [topIndex, region, Nat.pow_add, Nat.div_div_eq_div_mul]
  rw [htop, htop, leafIndex, leafIndex]
  omega

theorem entry_lt {a : Nat} (ha : a < 2 ^ (k + 28)) : topIndex k a < 2 ^ 16 ∧
    leafIndex k a < 2 ^ 12 := by
  refine ⟨?_, Nat.mod_lt _ (by decide)⟩
  rw [topIndex, Nat.div_lt_iff_lt_mul (Nat.two_pow_pos _), ← Nat.pow_add, Nat.add_comm 16,
    Nat.add_assoc]
  exact ha

theorem region_lt {a : Nat} (ha : a < 2 ^ (k + 28)) : region k a < 2 ^ 28 := by
  rw [region, Nat.div_lt_iff_lt_mul (Nat.two_pow_pos _), ← Nat.pow_add, Nat.add_comm 28]
  exact ha

theorem regionStart_eq {a : Nat} (ha : a < 2 ^ (k + 28)) :
    regionStart k a = region k a * 2 ^ k ∧ regionStart k a ≤ a ∧ a < regionStart k a + 2 ^ k := by
  have hdiv := Nat.div_add_mod a (2 ^ k)
  have hmod := Nat.mod_lt a (Nat.two_pow_pos k)
  rw [regionStart, Nat.mod_eq_of_lt (region_lt ha)]
  refine ⟨rfl, ?_, ?_⟩ <;> rw [region, Nat.mul_comm] <;> omega

/-- The indices are the digits of the number of a region. -/
theorem digits_eq (k a : Nat) : topIndex k a * 2 ^ 12 + leafIndex k a = region k a := by
  rw [topIndex, leafIndex, Nat.pow_add, ← Nat.div_div_eq_div_mul]
  exact Nat.div_add_mod' ..

/-! ## Places -/

/-- The two sizes. -/
inductive RegionSize where
  | m256
  | m64

namespace RegionSize

/-- A region has `2 ^ bits` bytes. -/
def bits : RegionSize → Nat
  | m256 => 28
  | m64 => 26

/-- The words for a size. -/
def word : RegionSize → HeapPatch → BitVec 32
  | m256 => HeapPatch.orig
  | m64 => HeapPatch.repl

end RegionSize

/-- A place with its code, the register that is written and its value, for regions of `2 ^ k`
bytes. -/
structure RegionSite where
  off : Word
  code : Nat → List Instr
  rd : Reg
  value : Nat → (Reg → Nat) → Word

def regionSites : List RegionSite :=
  [⟨0x01007878, fun k => [.movz .half 9 (BitVec.ofNat 64 (2 ^ k))], 9, fun k _ =>
    BitVec.ofNat 64 (2 ^ k)⟩,
   ⟨0x01007D44, fun k => [.movn .half 13 (BitVec.ofNat 64 (2 ^ 32 - 2 ^ k))], 13,
    fun k _ => BitVec.ofNat 64 (2 ^ k - 1)⟩,
   ⟨0x01007D70, fun k => [.andImm 22 9 (BitVec.ofNat 64 (2 ^ 64 - 2 ^ k))], 22,
    fun k x => BitVec.ofNat 64 (region k (x 9) * 2 ^ k)⟩,
   ⟨0x010094F4, fun k => [.andImm 8 1 (ones (k + 28))], 8, fun k x =>
     BitVec.ofNat 64 (x 1 % 2 ^ (k + 28))⟩,
   ⟨0x010094F8, fun k => [.ubfm 19 1 k (k + 28 - 1)], 19, fun k x =>
     BitVec.ofNat 64 (region k (x 1) % 2 ^ 28)⟩,
   ⟨0x01009500, fun k => [.ubfm 21 8 k 63], 21, fun k x => BitVec.ofNat 64 (region k (x 8))⟩,
   ⟨0x010097D4, fun k => [.ubfm 8 1 k 63], 8, fun k x => BitVec.ofNat 64 (region k (x 1))⟩,
   ⟨0x010097E4, fun k => [.andImm 8 1 (BitVec.ofNat 64 ((2 ^ 28 - 1) * 2 ^ k))], 8,
    fun k x => BitVec.ofNat 64 (regionStart k (x 1))⟩,
   ⟨0x010097EC, fun k => [.ubfm 10 1 k (k + 12 - 1)], 10, fun k x =>
     BitVec.ofNat 64 (leafIndex k (x 1))⟩,
   ⟨0x01009800, fun k => [.ubfm 9 1 k (k + 28 - 1)], 9, fun k x =>
     BitVec.ofNat 64 (region k (x 1) % 2 ^ 28)⟩,
   ⟨0x01009804, fun k => [.orrImm 11 31 (BitVec.ofNat 64 (2 ^ 64 - 2 ^ (k + 8))),
    .movk 11 (BitVec.ofNat 16 (2 ^ (k - 16))) 16],
    11, fun k _ => -BitVec.ofNat 64 (255 * 2 ^ k)⟩,
   ⟨0x0100984C, fun k => [.subReg .full 8 8 10 k], 8,
    fun k x => BitVec.ofNat 64 (x 8) - BitVec.ofNat 64 (x 10 * 2 ^ k)⟩,
   ⟨0x01009860, fun k => [.ubfm 8 1 (k + 12) 63], 8, fun k x => BitVec.ofNat 64 (topIndex k (x 1))⟩,
   ⟨0x01009870, fun k => [.ubfm 9 1 k (k + 12 - 1)], 9, fun k x =>
     BitVec.ofNat 64 (leafIndex k (x 1))⟩,
   ⟨0x0100B2A4, fun k => [.ubfm 8 1 (k + 12) 63], 8, fun k x => BitVec.ofNat 64 (topIndex k (x 1))⟩,
   ⟨0x0100B2BC, fun k => [.ubfm 9 20 k (k + 12 - 1)], 9, fun k x =>
     BitVec.ofNat 64 (leafIndex k (x 20))⟩]

/-- Each instruction of a place has its patch. -/
theorem exists_heapPatch (size : RegionSize) : ∀ site ∈ regionSites,
    ∀ i ∈ (site.code size.bits).zipIdx,
    ∃ p ∈ heapPatches, p.off = site.off + 4 * BitVec.ofNat 64 i.2 ∧
      decode (size.word p) = some i.1 := by
  cases size <;> decide

theorem site_placed {size : RegionSize} (h : ∀ p ∈ heapPatches, wordOf m mem p.off = size.word p) :
    ∀ site ∈ regionSites, Placed (codeIn mem) (m.loadVirtbase + site.off)
      (site.code size.bits) := by
  intro site hsite
  refine placed_iff.2 fun k hk => ?_
  obtain ⟨p, hp, hoff, hdecode⟩ := exists_heapPatch size site hsite ((site.code size.bits)[k], k)
    (List.mk_mem_zipIdx_iff_getElem?.2 (List.getElem?_eq_getElem hk))
  rw [BitVec.add_assoc, ← hoff]
  exact (congrArg decode (h p hp)).trans hdecode

/-- What the code of a place does to a register. -/
def RegionSite.Computes (site : RegionSite) (k : Nat) : Prop :=
  ∀ s : State, execAll (site.code k) s = { s.set site.rd (site.value k fun r => (s.x r).toNat) with
    pc := s.pc + 4 * BitVec.ofNat 64 (site.code k).length }

/-- A place with one instruction. -/
theorem RegionSite.Computes.single {site : RegionSite} {i : Instr} (hcode : site.code k = [i])
    (h : ∀ s : State, exec i s = (s.set site.rd (site.value k fun r => (s.x r).toNat)).next) :
    site.Computes k := by
  intro s
  rw [hcode]
  show exec i s = _
  rw [h, State.next, State.set_pc]
  rfl

theorem bits_bounds (size : RegionSize) : 0 < size.bits ∧ size.bits + 28 ≤ 64 := by
  cases size <;> decide

theorem Computes.field {off : Word} {rd rn : Reg} (hrn : rn ≠ 31) (hn : 0 < n) (h : k + n ≤ 64) :
    RegionSite.Computes ⟨off, fun k => [.ubfm rd rn k (k + n - 1)], rd,
      fun k x => BitVec.ofNat 64 (region k (x rn) % 2 ^ n)⟩ k :=
  .single rfl fun _ => exec_ubfm hrn hn h

theorem Computes.from {off : Word} {rd rn : Reg} (n : Nat) (hrn : rn ≠ 31) (h : k + n < 64) :
    RegionSite.Computes ⟨off, fun k => [.ubfm rd rn (k + n) 63], rd,
      fun k x => BitVec.ofNat 64 (x rn / 2 ^ (k + n))⟩ k :=
  .single rfl fun _ => exec_lsr hrn h

theorem sites_compute (size : RegionSize) : ∀ site ∈ regionSites, site.Computes size.bits := by
  obtain ⟨hpos, hle⟩ := bits_bounds size
  have hle' : size.bits + 12 ≤ 64 := by omega
  simp only [regionSites, List.forall_mem_cons]
  refine ⟨?_, ?_, ?_, ?_, ?_, ?_, ?_, ?_, ?_, ?_, ?_, ?_, ?_, ?_, ?_, ?_, List.forall_mem_nil _⟩
  · exact .single rfl fun s => by cases size <;> rfl
  · exact .single rfl fun s => by cases size <;> rfl
  · refine .single rfl fun s => ?_
    have hall : (s.x 9).toNat / 2 ^ size.bits % 2 ^ (64 - size.bits) =
        (s.x 9).toNat / 2 ^ size.bits := by
      refine Nat.mod_eq_of_lt ?_
      rw [Nat.div_lt_iff_lt_mul (Nat.two_pow_pos _), ← Nat.pow_add, Nat.sub_add_cancel (by omega)]
      exact (s.x 9).isLt
    rw [exec_andImm (64 - size.bits) size.bits (by decide) (by decide)
      (by cases size <;> rfl), hall]
    rfl
  · refine .single rfl fun s => ?_
    rw [exec_andImm (size.bits + 28) 0 (by decide) (by decide) (by cases size <;> rfl)]
    simp
  · exact Computes.field (by decide) (by decide) hle
  · exact Computes.from 0 (by decide) (by omega)
  · exact Computes.from 0 (by decide) (by omega)
  · refine .single rfl fun s => ?_
    rw [exec_andImm 28 size.bits (by decide) (by decide) (by cases size <;> rfl)]
    rfl
  · exact Computes.field (by decide) (by decide) hle'
  · exact Computes.field (by decide) (by decide) hle
  · intro s
    cases size <;> simp [execAll, exec, State.set, State.setSp, State.get, State.next,
      RegionSize.bits,
      BitVec.add_assoc]
  · exact .single rfl fun s => exec_subReg (by decide) (by decide)
  · exact Computes.from 12 (by decide) (by omega)
  · exact Computes.field (by decide) (by decide) hle'
  · exact Computes.from 12 (by decide) (by omega)
  · exact Computes.field (by decide) (by decide) hle'

theorem sites_straight (size : RegionSize) : ∀ site ∈ regionSites, ∀ i ∈ site.code size.bits,
    i.Straight = true := by
  cases size <;> decide

/-- With the words of one size at all places, each of them computes what it is there for from the
number of bits of a region, in any state; and for addresses for which the tables have room, an
entry stands for one region, and what is taken for the start of the region of an address is
that. -/
theorem heap_regions {size : RegionSize} (h : ∀ p ∈ heapPatches, wordOf m mem p.off = size.word p) :
    (∀ site ∈ regionSites, ∀ s : State, s.pc = m.loadVirtbase + site.off →
      run (codeIn mem) (site.code size.bits).length s = some
        { s.set site.rd (site.value size.bits fun r => (s.x r).toNat) with
          pc := s.pc + 4 * BitVec.ofNat 64 (site.code size.bits).length }) ∧
    ∀ a b, a < 2 ^ (size.bits + 28) → b < 2 ^ (size.bits + 28) →
      topIndex size.bits a < 2 ^ 16 ∧ leafIndex size.bits a < 2 ^ 12 ∧
      (topIndex size.bits a = topIndex size.bits b ∧ leafIndex size.bits a = leafIndex size.bits b ↔
        region size.bits a = region size.bits b) ∧
      topIndex size.bits a * 2 ^ 12 + leafIndex size.bits a = region size.bits a % 2 ^ 28 ∧
      regionStart size.bits a ≤ a ∧ a < regionStart size.bits a + 2 ^ size.bits := by
  constructor
  · intro site hsite s hpc
    have hplaced : Placed (codeIn mem) s.pc (site.code size.bits) := hpc ▸ site_placed h site hsite
    rw [run_block hplaced (sites_straight size site hsite), sites_compute size site hsite]
  · intro a b ha hb
    have hlt : region size.bits a < 2 ^ 28 := region_lt ha
    obtain ⟨htop, hleaf⟩ := entry_lt ha
    obtain ⟨-, hstart, hend⟩ := regionStart_eq ha
    exact ⟨htop, hleaf, entry_iff, (digits_eq ..).trans (Nat.mod_eq_of_lt hlt).symm, hstart, hend⟩

theorem heap_regions_small : topIndex 26 0x12345678 < 2 ^ 16 ∧
    run (codeIn (writeAll (patchRows smallModule heapPatches)
    fun _ => 0)) 1 (idle 0x01007878 fun _ => 0) =
    some { (idle 0x01007878 fun _ => 0).set 9 0x4000000 with pc := 0x1100787C } := by
  have hwords : ∀ p ∈ heapPatches,
    wordOf smallModule (writeAll (patchRows smallModule heapPatches) fun _ => 0) p.off =
      RegionSize.m64.word p := by decide +kernel
  obtain ⟨hsites, hentries⟩ := @heap_regions smallModule _ .m64 hwords
  exact ⟨(hentries 0x12345678 0 (by decide) (by decide)).1, hsites _ (List.mem_cons_self ..) _ rfl⟩

end Asnx.Unity
