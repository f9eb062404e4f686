import Mathlib.Data.List.Nodup
import Asnx.Loader.Relocation

/-!
# Tables of relative relocations

What a table of relative relocations denotes, and that `process_relr` of `source/so_util.c` decodes
it. A table consists of groups, an even address entry with odd bitmap entries behind it; the address
entry denotes one word and each bitmap up to 63 words behind it.

`process_relr` reads the table from the memory that it relocates. It decodes the table exactly
(`process_relr_exact`) unless it changes an entry before it reads it, as it does where a table names
one of its own words (`not_relocated_self`).
-/

namespace Asnx.Loader

open ByteMemory Files

/-! ## What a table denotes -/

/-- An address entry with the bitmap entries behind it. -/
structure RelrGroup where
  address : Word
  bitmaps : List Word
  even : address.getLsbD 0 = false
  odd : ∀ bitmap ∈ bitmaps, bitmap.getLsbD 0 = true

/-- The offsets that the bits of a bitmap denote, the `j`-th one behind the address entry `base`. -/
def bitmapOffsets (base j : Nat) (bitmap : Word) : List Nat :=
  ((List.range' 1 63).filter fun i => bitmap.getLsbD i).map fun i =>
    base + 8 + 63 * 8 * j + 8 * (i - 1)

/-- The offsets that a group denotes. -/
def RelrGroup.offsets (g : RelrGroup) : List Nat :=
  g.address.toNat ::
    g.bitmaps.zipIdx.flatMap fun bitmap => bitmapOffsets g.address.toNat bitmap.2 bitmap.1

/-- The entries of a table. -/
def relrEntries (groups : List RelrGroup) : List Word :=
  groups.flatMap fun g => g.address :: g.bitmaps

/-- The offsets that a table denotes. -/
def relrOffsets (groups : List RelrGroup) : List Nat := groups.flatMap RelrGroup.offsets

/-- The table is an encoding of the listed offsets: it denotes each of them once, and no others. -/
def Encodes (groups : List RelrGroup) (offsets : List Nat) : Prop :=
  (relrOffsets groups).Perm offsets

/-- The memory holds the entries at `r`, and `size` is their size. -/
structure HoldsTable (mem : Memory) (r size : Word) (entries : List Word) : Prop where
  size : size.toNat / 8 = entries.length
  entries : ∀ k (h : k < entries.length), load64 mem (entry r 8 k) = entries[k]

/-- The virtual base has been added to the word at each listed offset, and nothing else has
changed. -/
structure RelocatedAt (m : SoModule) (offsets : List Nat) (mem mem' : Memory) : Prop where
  listed : ∀ o ∈ offsets,
    load64 mem' (BitVec.ofNat 64 o) = load64 mem (BitVec.ofNat 64 o) + m.loadVirtbase
  others : ∀ x, (∀ o ∈ offsets, x ∉ wordAt (BitVec.ofNat 64 o)) → mem' x = mem x

/-! ## Entry by entry -/

/-- The words that an entry denotes where the table has come to `place`. -/
def entryWords (place e : Word) : List Word :=
  if e.getLsbD 0 = false then [e] else bitmapWords e place

/-- Where the table goes on behind an entry. -/
def nextPlace (place e : Word) : Word :=
  if e.getLsbD 0 = false then e + 8 else place + 63 * 8

/-- The words that the entries denote from `place` on. -/
def tableWords (place : Word) : List Word → List Word
  | [] => []
  | e :: es => entryWords place e ++ tableWords (nextPlace place e) es

/-- No entry of a table at `r` overlaps a word that the entries before it denote. -/
def ReadFirst (r place : Word) (entries : List Word) : Prop :=
  ∀ k < entries.length, ∀ w ∈ tableWords place (entries.take k), Apart w (entry r 8 k)

variable {m : SoModule} {mem mem' : Memory} {r place size e : Word} {es : List Word}
  {groups : List RelrGroup} {offsets : List Nat}

/-- One entry of the loop. -/
theorem processRelrFrom_succ (n : Nat) :
    processRelrFrom m mem r place (n + 1) =
      processRelrFrom m (applyAll ((entryWords place (load64 mem r)).map (grow m)) mem) (r + 8)
        (nextPlace place (load64 mem r)) n := by
  rw [processRelrFrom, entryWords, nextPlace]
  split
  case isTrue heven => rfl
  case isFalse hodd => rw [foldl_growWord]

theorem entry_succ (r : Word) (k : Nat) : entry (r + 8) 8 k = entry r 8 (k + 1) := by
  rw [entry, entry, Nat.mul_succ, Nat.add_comm, BitVec.ofNat_add, ← BitVec.add_assoc]
  rfl

/-- The words of the first entry are apart from the entries behind it. -/
theorem ReadFirst.head (h : ReadFirst r place (e :: es)) {k : Nat} (hk : k < es.length) :
    ∀ w ∈ entryWords place e, Apart w (entry (r + 8) 8 k) := by
  intro w hw
  rw [entry_succ]
  exact h (k + 1) (Nat.succ_lt_succ hk) w (List.mem_append_left _ hw)

theorem ReadFirst.tail (h : ReadFirst r place (e :: es)) :
    ReadFirst (r + 8) (nextPlace place e) es := by
  intro k hk w hw
  rw [entry_succ]
  exact h (k + 1) (Nat.succ_lt_succ hk) w (List.mem_append_right _ hw)

/-- The loop decodes the entries that are in the memory at its start, by induction on the entries:
what one entry changes leaves the entries behind it alone. -/
theorem processRelrFrom_table
    (htable : ∀ k (h : k < es.length), load64 mem (entry r 8 k) = es[k])
    (hread : ReadFirst r place es) :
    processRelrFrom m mem r place es.length =
      applyAll ((tableWords place es).map (grow m)) mem := by
  induction es generalizing mem r place with
  | nil => rfl
  | cons e es ih =>
      have hentry : load64 mem r = e := by
        have hzero : entry r 8 0 = r := BitVec.add_zero r
        rw [← hzero]
        exact htable 0 (Nat.zero_lt_succ _)
      rw [List.length_cons, processRelrFrom_succ, hentry, ih ?_ hread.tail, tableWords,
        List.map_append, applyAll_append]
      intro k hk
      rw [load64_applyAll_of_apart, entry_succ]
      · exact htable (k + 1) (Nat.succ_lt_succ hk)
      · intro c hc
        obtain ⟨w, hw, rfl⟩ := List.mem_map.1 hc
        exact hread.head hk w hw

/-! ## Group by group -/

/-- The place of the `j`-th bitmap behind an address entry. -/
def bitmapPlace (address : Word) (j : Nat) : Word := address + 8 + BitVec.ofNat 64 (63 * 8 * j)

theorem bitmapPlace_succ (address : Word) (j : Nat) :
    bitmapPlace address j + 63 * 8 = bitmapPlace address (j + 1) := by
  rw [bitmapPlace, bitmapPlace, Nat.mul_add_one (63 * 8) j, BitVec.ofNat_add,
    BitVec.add_assoc (address + 8)]
  rfl

/-- The loop over the bits of a bitmap comes to the words that the bitmap denotes. -/
theorem bitmapWords_eq (address : Word) (j : Nat) (bitmap : Word) :
    bitmapWords bitmap (bitmapPlace address j) =
      (bitmapOffsets address.toNat j bitmap).map (BitVec.ofNat 64) := by
  rw [bitmapWords, bitmapOffsets, List.map_map]
  refine List.map_congr_left fun i _ => ?_
  show bitmapPlace address j + BitVec.ofNat 64 (8 * (i - 1)) = BitVec.ofNat 64 (_ + _)
  rw [bitmapPlace, BitVec.ofNat_add, BitVec.ofNat_add, BitVec.ofNat_add, BitVec.ofNat_toNat,
    BitVec.setWidth_eq]
  rfl

/-- The bitmaps of a group from the `j`-th on, by induction on the bitmaps. -/
theorem tableWords_bitmaps (address : Word) (rest : List Word) {bitmaps : List Word} {j : Nat}
    (hodd : ∀ bitmap ∈ bitmaps, bitmap.getLsbD 0 = true) :
    tableWords (bitmapPlace address j) (bitmaps ++ rest) =
      ((bitmaps.zipIdx j).flatMap fun bitmap => bitmapOffsets address.toNat bitmap.2 bitmap.1).map
          (BitVec.ofNat 64) ++
        tableWords (bitmapPlace address (j + bitmaps.length)) rest := by
  induction bitmaps generalizing j with
  | nil => rfl
  | cons bitmap bitmaps ih =>
      have hbit : bitmap.getLsbD 0 ≠ false :=
        ne_of_eq_of_ne (hodd bitmap (List.mem_cons_self ..)) Bool.noConfusion
      rw [List.cons_append, tableWords, entryWords, nextPlace, if_neg hbit, if_neg hbit,
        bitmapPlace_succ, ih fun b hb => hodd b (List.mem_cons_of_mem _ hb), bitmapWords_eq,
        List.zipIdx_cons, List.flatMap_cons, List.map_append, List.append_assoc, List.length_cons,
        Nat.add_right_comm, Nat.add_assoc j]

/-- The code's decoding is what the groups denote. -/
theorem tableWords_relrEntries (place : Word) (groups : List RelrGroup) :
    tableWords place (relrEntries groups) = (relrOffsets groups).map (BitVec.ofNat 64) := by
  induction groups generalizing place with
  | nil => rfl
  | cons g groups ih =>
      have hplace : g.address + 8 = bitmapPlace g.address 0 := (BitVec.add_zero _).symm
      have hword : BitVec.ofNat 64 g.address.toNat = g.address := by
        rw [BitVec.ofNat_toNat, BitVec.setWidth_eq]
      show tableWords place (g.address :: (g.bitmaps ++ relrEntries groups)) =
        (g.offsets ++ relrOffsets groups).map _
      rw [tableWords, entryWords, nextPlace, if_pos g.even, if_pos g.even, hplace,
        tableWords_bitmaps g.address _ g.odd, ih, List.map_append, RelrGroup.offsets, List.map_cons,
        hword]
      rfl

/-! ## The table -/

/-- Listed offsets are words that do not overlap. -/
theorem listed_apart {a b : Nat} (ha : 8 ∣ a ∧ a + 8 ≤ 2 ^ 64) (hb : 8 ∣ b ∧ b + 8 ≤ 2 ^ 64)
    (hne : a ≠ b) : Apart (BitVec.ofNat 64 a) (BitVec.ofNat 64 b) := by
  obtain ⟨⟨i, rfl⟩, ha⟩ := ha
  obtain ⟨⟨j, rfl⟩, hb⟩ := hb
  have hi : (BitVec.ofNat 64 (8 * i)).toNat = 8 * i := Nat.mod_eq_of_lt (by omega)
  have hj : (BitVec.ofNat 64 (8 * j)).toNat = 8 * j := Nat.mod_eq_of_lt (by omega)
  refine apart_of_le (by rwa [hi]) (by rwa [hj]) ?_
  rw [hi, hj]
  omega

/-- Words that grow once each, one after the other. -/
theorem relocatedAt_applyAll {denoted : List Nat} (hperm : denoted.Perm offsets)
    (hnodup : offsets.Nodup) (hrange : ∀ o ∈ offsets, 8 ∣ o ∧ o + 8 ≤ 2 ^ 64) :
    RelocatedAt m offsets mem
      (applyAll ((denoted.map (BitVec.ofNat 64)).map (grow m)) mem) where
  listed := by
    intro o ho
    have hapart : ∀ c ∈ (denoted.map (BitVec.ofNat 64)).map (grow m),
        c.address = BitVec.ofNat 64 o ∨ Apart c.address (BitVec.ofNat 64 o) := by
      intro c hc
      obtain ⟨w, hw, rfl⟩ := List.mem_map.1 hc
      obtain ⟨a, ha, rfl⟩ := List.mem_map.1 hw
      by_cases heq : a = o
      case pos => exact .inl (congrArg (BitVec.ofNat 64) heq)
      case neg => exact .inr (listed_apart (hrange a (hperm.mem_iff.1 ha)) (hrange o ho) heq)
    have hinj : ∀ a ∈ denoted, ∀ b ∈ denoted, BitVec.ofNat 64 a = BitVec.ofNat 64 b → a = b := by
      intro a ha b hb heq
      by_contra hne
      have hself := listed_apart (hrange a (hperm.mem_iff.1 ha)) (hrange b (hperm.mem_iff.1 hb)) hne
      rw [heq] at hself
      exact not_apart_self _ hself
    have hwords : (denoted.map (BitVec.ofNat 64)).Nodup :=
      (hperm.nodup_iff.2 hnodup).map_on hinj
    have hmem : BitVec.ofNat 64 o ∈ denoted.map (BitVec.ofNat 64) :=
      List.mem_map_of_mem (hperm.mem_iff.2 ho)
    have hfilter : ((denoted.map (BitVec.ofNat 64)).map (grow m)).filter
        (·.address = BitVec.ofNat 64 o) =
          ((denoted.map (BitVec.ofNat 64)).filter (· = BitVec.ofNat 64 o)).map (grow m) := by
      rw [List.filter_map]
      rfl
    rw [load64_applyAll hapart, hfilter, foldl_grow (m := m) _ fun c hc => by
        obtain ⟨a, -, rfl⟩ := List.mem_map.1 hc
        exact ⟨a, rfl⟩,
      List.length_map]
    have hcount := List.count_eq_one_of_mem hwords hmem
    rw [List.count_eq_length_filter] at hcount
    have hone : ((denoted.map (BitVec.ofNat 64)).filter (· = BitVec.ofNat 64 o)).length = 1 :=
      hcount
    rw [hone, BitVec.one_mul]
  others := by
    intro x hx
    refine applyAll_of_notMem ?_
    rintro ⟨c, hc, hxc⟩
    obtain ⟨w, hw, rfl⟩ := List.mem_map.1 hc
    obtain ⟨a, ha, rfl⟩ := List.mem_map.1 hw
    exact hx a (hperm.mem_iff.1 ha) hxc

/-- `process_relr` adds the virtual base once to the word at each listed offset and changes nothing
else, for every encoding of the list with no entry behind an entry that changes it. -/
theorem process_relr_exact (hsorted : offsets.Pairwise (· < ·))
    (hrange : ∀ o ∈ offsets, 8 ∣ o ∧ o + 8 ≤ m.loadSize.toNat) (hencodes : Encodes groups offsets)
    (htable : HoldsTable mem r size (relrEntries groups))
    (hread : ReadFirst r 0 (relrEntries groups)) :
    RelocatedAt m offsets mem (processRelr m mem r size) := by
  rw [processRelr, htable.size, processRelrFrom_table htable.entries hread, tableWords_relrEntries]
  refine relocatedAt_applyAll hencodes (hsorted.imp fun h => Nat.ne_of_lt h) fun o ho => ?_
  have hlt := m.loadSize.isLt
  obtain ⟨hdvd, hle⟩ := hrange o ho
  exact ⟨hdvd, by omega⟩

/-- A module of 256 bytes that runs at 8. -/
def byteModule : SoModule :=
  { smallModule with loadVirtbase := 8, loadSize := 256 }

/-- A memory with two table entries from 64 on. -/
def twoEntries (first second : Nat) : Memory := memoryOf ((first + second * 256 ^ 8) * 256 ^ 64)

/-- The word 16 with the first and the third word behind it. -/
def bitmapGroup : RelrGroup := ⟨16, [0xb], rfl, List.forall_mem_singleton.2 rfl⟩

theorem process_relr_exact_bitmap :
    RelocatedAt byteModule [16, 24, 40] (twoEntries 16 0xb)
      (processRelr byteModule (twoEntries 16 0xb) 64 16) := by
  have hencodes : Encodes [bitmapGroup] [16, 24, 40] := by
    have hoffsets : relrOffsets [bitmapGroup] = [16, 24, 40] := by decide
    rw [Encodes, hoffsets]
  refine process_relr_exact (by decide) (by decide) hencodes ⟨rfl, ?_⟩ ?_
  · decide
  · have hwords : ∀ k < 2, (tableWords 0 ((relrEntries [bitmapGroup]).take k)).all fun w =>
        w.toNat + 8 ≤ (entry 64 8 k).toNat ∧ (entry 64 8 k).toNat + 8 ≤ 2 ^ 64 := by decide
    intro k hk w hw
    obtain ⟨hle, hend⟩ := of_decide_eq_true (List.all_eq_true.1 (hwords k hk) w hw)
    exact apart_of_le (by omega) hend (.inl hle)

/-- The words 72 and 128. -/
def selfGroups : List RelrGroup :=
  [⟨72, [], rfl, List.forall_mem_nil _⟩, ⟨128, [], rfl, List.forall_mem_nil _⟩]

/-- A table at 64 that names its own second entry: the entry becomes 136 before it is read. -/
theorem not_relocated_self :
    [72, 128].Pairwise (· < ·) ∧
      (∀ o ∈ [72, 128], 8 ∣ o ∧ o + 8 ≤ byteModule.loadSize.toNat) ∧
      Encodes selfGroups [72, 128] ∧ HoldsTable (twoEntries 72 128) 64 16 (relrEntries selfGroups) ∧
      ¬ RelocatedAt byteModule [72, 128] (twoEntries 72 128)
        (processRelr byteModule (twoEntries 72 128) 64 16) := by
  refine ⟨by decide, by decide, ?_, ⟨rfl, by decide⟩, fun h => ?_⟩
  · have hoffsets : relrOffsets selfGroups = [72, 128] := by decide
    rw [Encodes, hoffsets]
  · have hlisted := h.listed 128 (by decide)
    have hbefore : load64 (twoEntries 72 128) (BitVec.ofNat 64 128) = 0 := by decide
    have hword : load64 (processRelr byteModule (twoEntries 72 128) 64 16)
        (BitVec.ofNat 64 128) = 0 := by
      decide
    rw [hword, hbefore] at hlisted
    exact absurd hlisted (by decide)

end Asnx.Loader
