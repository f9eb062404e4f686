import Asnx.Library.Scattered

/-!
# Copies between lists of buffers

`process_vm_readv` and `process_vm_writev` in `bionic_syscall` of `source/bionic.c`, with the
memory that also holds the two arrays of `struct nx_iovec`. The loop copies the front of the
concatenated source to the front of the concatenated destination, up to the end of the shorter one
or to the first piece of the source that cannot be read (`process_vm_copies`).
-/

namespace Asnx.Bionic

open ByteMemory Scattered

/-! ## Readability -/

/-- What `svcQueryMemory` tells of the block an address is in: where it begins, its size, whether it
is `MemType_Unmapped` and whether `Perm_R` is set. -/
structure MemoryInfo where
  addr : Word
  size : Word
  unmapped : Bool
  permR : Bool
  deriving DecidableEq, Repr

/-- The loop of `guest_memory_is_readable` from `a` to `e`. A query that fails gives `none`. -/
def readableTo (svcQueryMemory : Word → Option MemoryInfo) (e a : Word) : Bool :=
  if _hlt : a < e then
    match svcQueryMemory a with
    | none => false
    | some mi =>
        if mi.unmapped = true ∨ mi.permR = false then false
        else
          let ne := mi.addr + mi.size
          if _hne : ne ≤ a then false else readableTo svcQueryMemory e ne
  else true
termination_by e.toNat - a.toNat
decreasing_by
  have hlt : a.toNat < e.toNat := _hlt
  have hne : a.toNat < (mi.addr + mi.size).toNat := BitVec.not_le.1 _hne
  omega

/-- `guest_memory_is_readable` -/
def guestMemoryIsReadable (svcQueryMemory : Word → Option MemoryInfo) (a n : Word) : Bool :=
  readableTo svcQueryMemory (a + n) a

/-- A predicate on ranges of memory that finds nothing to object to in an empty range. -/
structure Readability where
  readable : Word → Word → Bool
  empty : ∀ a, readable a 0 = true

/-- The predicate that `bionic_syscall` uses. -/
def guestReadability (svcQueryMemory : Word → Option MemoryInfo) : Readability where
  readable := guestMemoryIsReadable svcQueryMemory
  empty a := by
    have hend : a + 0 = a := BitVec.add_zero a
    unfold guestMemoryIsReadable readableTo
    rw [hend, dif_neg (BitVec.lt_irrefl a)]

/-! ## The call -/

/-- `EFAULT` -/
def efault : Int := 14

/-- `struct nx_iovec` -/
structure NxIovec where
  iovBase : Word
  iovLen : Word
  deriving DecidableEq, Repr

/-- Element `i` of the array at `l`. -/
def iovecAt (m : Memory) (l : Word) (i : Nat) : NxIovec :=
  ⟨load64 m (l + BitVec.ofNat 64 (16 * i)), load64 m (l + BitVec.ofNat 64 (16 * i + 8))⟩

/-- The arguments of the call but for the process and the flags, which it ignores; `wr` is set for
`ARM64_SYS_PROCESS_VM_WRITEV`. -/
structure VmArgs where
  wr : Bool
  l : Word
  lc : Nat
  rr : Word
  rc : Nat

/-- The local variables of the loop with the memory. -/
structure VmState where
  mem : Memory
  li : Nat
  ri : Nat
  lo : Word
  ro : Word
  total : Word

/-- What the call returns, the `errno` it sets and the memory it leaves. -/
structure VmEnd where
  ret : Int
  errno : Option Int
  mem : Memory

/-- `z`: how far both elements go. -/
def VmState.z (a : VmArgs) (s : VmState) : Word :=
  let ln := (iovecAt s.mem a.l s.li).iovLen - s.lo
  let rn := (iovecAt s.mem a.rr s.ri).iovLen - s.ro
  if ln < rn then ln else rn

/-- `lp` -/
def VmState.lp (a : VmArgs) (s : VmState) : Word := (iovecAt s.mem a.l s.li).iovBase + s.lo

/-- `rp` -/
def VmState.rp (a : VmArgs) (s : VmState) : Word := (iovecAt s.mem a.rr s.ri).iovBase + s.ro

/-- `wr?lp:rp` -/
def VmState.src (a : VmArgs) (s : VmState) : Word := if a.wr then s.lp a else s.rp a

/-- The memory with the bytes of the piece copied. -/
def VmState.copied (a : VmArgs) (s : VmState) : Memory :=
  if a.wr then memcpy s.mem (s.rp a) (s.lp a) (s.z a).toNat
  else memcpy s.mem (s.lp a) (s.rp a) (s.z a).toNat

/-- `lo==l[li].iov_len` -/
def VmState.lend (a : VmArgs) (s : VmState) : Prop :=
  s.lo + s.z a = (iovecAt (s.copied a) a.l s.li).iovLen

/-- `ro==rr[ri].iov_len` -/
def VmState.rend (a : VmArgs) (s : VmState) : Prop :=
  s.ro + s.z a = (iovecAt (s.copied a) a.rr s.ri).iovLen

-- Irreducible, so that the elaborator does not compute with the words of an unknown memory.
@[irreducible]
instance (a : VmArgs) (s : VmState) : Decidable (s.lend a) := inferInstanceAs (Decidable (_ = _))

@[irreducible]
instance (a : VmArgs) (s : VmState) : Decidable (s.rend a) := inferInstanceAs (Decidable (_ = _))

/-- The copy and the steps of the two cursors. -/
def VmState.next (a : VmArgs) (s : VmState) : VmState where
  mem := s.copied a
  li := if s.lend a then s.li + 1 else s.li
  ri := if s.rend a then s.ri + 1 else s.ri
  lo := if s.lend a then 0 else s.lo + s.z a
  ro := if s.rend a then 0 else s.ro + s.z a
  total := s.total + s.z a

section Turns

variable {a : VmArgs} {s : VmState}

theorem VmState.next_li (a : VmArgs) (s : VmState) :
    (s.next a).li = if s.lend a then s.li + 1 else s.li := rfl

theorem VmState.next_ri (a : VmArgs) (s : VmState) :
    (s.next a).ri = if s.rend a then s.ri + 1 else s.ri := rfl

theorem VmState.next_lo (h : s.lend a) : (s.next a).lo = 0 := if_pos h

theorem VmState.next_ro (h : s.rend a) : (s.next a).ro = 0 := if_pos h

theorem VmState.next_total (a : VmArgs) (s : VmState) : (s.next a).total = s.total + s.z a := rfl

end Turns

/-- The loop of the call; a call that has no result after `turns` is still copying. -/
def processVmLoop (r : Readability) (a : VmArgs) : Nat → VmState → Option VmEnd
  | 0, _ => none
  | turns + 1, s =>
      if s.li < a.lc ∧ s.ri < a.rc then
        if r.readable (s.src a) (s.z a) = false then
          some (if s.total = 0 then ⟨-1, some efault, s.mem⟩ else ⟨s.total.toInt, none, s.mem⟩)
        else processVmLoop r a turns (s.next a)
      else some ⟨s.total.toInt, none, s.mem⟩

/-- The call: every turn of the loop ends one of the buffers. -/
def processVm (r : Readability) (a : VmArgs) (m : Memory) : Option VmEnd :=
  processVmLoop r a (a.lc + a.rc + 1) ⟨m, 0, 0, 0, 0, 0⟩

/-! ## What the call should do -/

/-- The buffer of an element. -/
def NxIovec.range (v : NxIovec) : Range := ⟨v.iovBase, v.iovLen.toNat⟩

theorem NxIovec.range_base (v : NxIovec) : v.range.base = v.iovBase := rfl

theorem NxIovec.range_len (v : NxIovec) : v.range.len = v.iovLen.toNat := rfl

/-- The buffers of the array of `n` elements at `l`. -/
def buffers (m : Memory) (l : Word) (n : Nat) : List Range :=
  (List.range n).map fun i => (iovecAt m l i).range

/-- The local buffers. -/
def VmArgs.locals (a : VmArgs) (m : Memory) : List Range := buffers m a.l a.lc

/-- The remote buffers. -/
def VmArgs.remotes (a : VmArgs) (m : Memory) : List Range := buffers m a.rr a.rc

/-- The addresses of the concatenated source. -/
def VmArgs.source (a : VmArgs) (m : Memory) : List Word :=
  addresses (if a.wr then a.locals m else a.remotes m)

/-- The addresses of the concatenated destination. -/
def VmArgs.dest (a : VmArgs) (m : Memory) : List Word :=
  addresses (if a.wr then a.remotes m else a.locals m)

/-- The memory of the two arrays. -/
def VmArgs.arrays (a : VmArgs) : List Range := [⟨a.l, 16 * a.lc⟩, ⟨a.rr, 16 * a.rc⟩]

/-- No byte is in two of the buffers and arrays, nor twice in one of them. -/
def VmArgs.Separate (a : VmArgs) (m : Memory) : Prop :=
  (addresses (a.arrays ++ (a.locals m ++ a.remotes m))).Nodup

/-- `m'` has the first `t` bytes of the source at the front of the destination, and is `m`
otherwise. -/
structure Copies (source dest : List Word) (t : Nat) (m m' : Memory) : Prop where
  copied : ∀ i < t, ∀ x y, dest[i]? = some x → source[i]? = some y → m' x = m y
  frame : ∀ x ∉ dest.take t, m' x = m x

/-- The part of the source from `p` to `q` cannot be read. -/
def Unreadable (r : Readability) (source : List Word) (p q : Nat) : Prop :=
  ∃ x, source[p]? = some x ∧ r.readable x (BitVec.ofNat 64 (q - p)) = false

/-- How the call ends after `t` bytes: with the shorter of the two lists, or at a piece that cannot
be read. -/
inductive Stops (r : Readability) (a : VmArgs) (m : Memory) (t : Nat) (e : VmEnd) : Prop where
  | whole : t = min (total (a.locals m)) (total (a.remotes m)) → e.ret = t → e.errno = none →
      Stops r a m t e
  | unreadable (q : Nat) : Piece (a.locals m) (a.remotes m) t q → Unreadable r (a.source m) t q →
      e.ret = (if t = 0 then -1 else (t : Int)) → e.errno = (if t = 0 then some efault else none) →
      Stops r a m t e

/-- Every piece before `t` can be read. -/
def ReadableBefore (r : Readability) (a : VmArgs) (m : Memory) (t : Nat) : Prop :=
  ∀ p q, Piece (a.locals m) (a.remotes m) p q → p < t → ¬ Unreadable r (a.source m) p q

/-- The call copies `t` bytes. -/
structure CopiesFirst (r : Readability) (a : VmArgs) (m : Memory) (t : Nat) (e : VmEnd) : Prop where
  copies : Copies (a.source m) (a.dest m) t m e.mem
  before : ReadableBefore r a m t
  stops : Stops r a m t e

/-! ## The invariant -/

section Loop

variable {r : Readability} {a : VmArgs} {m : Memory} {s : VmState} {p z : Nat}

/-- The state of the loop after `p` bytes. -/
structure Copying (r : Readability) (a : VmArgs) (m : Memory) (s : VmState) (p : Nat) : Prop where
  left : Along (a.locals m) s.li s.lo.toNat p
  right : Along (a.remotes m) s.ri s.ro.toNat p
  cut : s.lo.toNat = 0 ∨ s.ro.toNat = 0
  total : s.total = BitVec.ofNat 64 p
  copies : Copies (a.source m) (a.dest m) p m s.mem
  before : ReadableBefore r a m p

theorem length_buffers (m : Memory) (l : Word) (n : Nat) : (buffers m l n).length = n := by
  simp [buffers]

theorem getElem?_buffers {l : Word} {n i : Nat} (hi : i < n) :
    (buffers m l n)[i]? = some (iovecAt m l i).range := by
  simp [buffers, hi]

/-- The bytes of an array, by its elements. -/
theorem wordAt_mem_array {l x : Word} {n i k : Nat} (hi : i < n) (hk : k ≤ 8)
    (hx : x ∈ wordAt (l + BitVec.ofNat 64 (16 * i + k))) :
    x ∈ (Range.mk l (16 * n)).addresses := by
  have hlt : (x - (l + BitVec.ofNat 64 (16 * i + k))).toNat < 8 := hx
  refine List.mem_map.2 ⟨16 * i + k + (x - (l + BitVec.ofNat 64 (16 * i + k))).toNat,
    List.mem_range.2 (by show _ < 16 * n; omega), ?_⟩
  rw [BitVec.ofNat_add, BitVec.ofNat_toNat, BitVec.setWidth_eq, ← BitVec.add_assoc,
    BitVec.add_comm _ (x - _), BitVec.sub_add_cancel]

/-- Memories that agree on an array have the same elements there. -/
theorem iovecAt_congr {m' : Memory} {l : Word} {n i : Nat} (hi : i < n)
    (h : ∀ x ∈ (Range.mk l (16 * n)).addresses, m' x = m x) : iovecAt m' l i = iovecAt m l i := by
  have hbase : load64 m' (l + BitVec.ofNat 64 (16 * i)) = load64 m (l + BitVec.ofNat 64 (16 * i)) :=
    load64_eq_of_eqOn fun x hx => h x (wordAt_mem_array (k := 0) hi (by omega) hx)
  have hlen : load64 m' (l + BitVec.ofNat 64 (16 * i + 8)) =
      load64 m (l + BitVec.ofNat 64 (16 * i + 8)) :=
    load64_eq_of_eqOn fun x hx => h x (wordAt_mem_array hi (by omega) hx)
  rw [iovecAt, iovecAt, hbase, hlen]

/-- The two arrays, the source and the destination have no byte in common. -/
theorem separate_parts (h : a.Separate m) :
    (a.dest m).Nodup ∧ (∀ x ∈ a.source m, x ∉ a.dest m) ∧ ∀ x ∈ addresses a.arrays,
      x ∉ a.dest m := by
  unfold VmArgs.Separate at h
  rw [addresses_append, addresses_append, List.nodup_append'] at h
  obtain ⟨-, hbuffers, harrays⟩ := h
  rw [List.nodup_append'] at hbuffers
  obtain ⟨hlocals, hremotes, hdisjoint⟩ := hbuffers
  have hdest : ∀ x ∈ a.dest m, x ∈ addresses (a.locals m) ++ addresses (a.remotes m) := by
    intro x hx
    unfold VmArgs.dest at hx
    split at hx
    · exact List.mem_append_right _ hx
    · exact List.mem_append_left _ hx
  refine ⟨?_, fun x hx hx' => ?_, fun x hx hx' => harrays hx (hdest x hx')⟩
  · unfold VmArgs.dest
    split
    · exact hremotes
    · exact hlocals
  · unfold VmArgs.source at hx
    unfold VmArgs.dest at hx'
    cases hwr : a.wr with
    | true =>
        simp only [hwr, if_true] at hx hx'
        exact hdisjoint hx hx'
    | false =>
        simp only [hwr, Bool.false_eq_true, if_false] at hx hx'
        exact hdisjoint hx' hx

/-- The number of bytes to copy is not negative as an `ssize_t`. -/
theorem min_total_lt (h : a.Separate m) :
    min (total (a.locals m)) (total (a.remotes m)) < 2 ^ 63 := by
  have hle := total_le_of_nodup h
  rw [total_append, total_append] at hle
  by_cases hlc : a.lc = 0
  case pos =>
    have hzero : total (a.locals m) = 0 := by
      unfold VmArgs.locals buffers
      rw [hlc]
      rfl
    omega
  case neg =>
    have harrays : 16 ≤ total a.arrays := by
      show 16 ≤ 16 * a.lc + (16 * a.rc + 0)
      omega
    omega

/-- What has been copied leaves the arrays as they are. -/
theorem Copies.iovecAt_eq {m' : Memory} (h : Copies (a.source m) (a.dest m) p m m')
    (hsep : a.Separate m) :
    (∀ i < a.lc, iovecAt m' a.l i = iovecAt m a.l i) ∧
      ∀ i < a.rc, iovecAt m' a.rr i = iovecAt m a.rr i := by
  have hsame : ∀ x ∈ addresses a.arrays, m' x = m x := by
    intro x hx
    refine h.frame x fun hmem => ?_
    exact (separate_parts hsep).2.2 x hx (List.mem_of_mem_take hmem)
  refine ⟨fun i hi => iovecAt_congr hi fun x hx => hsame x ?_,
    fun i hi => iovecAt_congr hi fun x hx => hsame x ?_⟩
  · exact List.mem_flatMap.2 ⟨_, List.mem_cons_self .., hx⟩
  · exact List.mem_flatMap.2 ⟨_, List.mem_cons_of_mem _ (List.mem_cons_self ..), hx⟩

/-- One more piece. -/
theorem Copies.memcpy {source dest : List Word} {m' : Memory} {dp sp : Word}
    (h : Copies source dest p m m') (hdest : dest.Nodup) (hsource : ∀ x ∈ source, x ∉ dest)
    (hd : ∀ k < z, dest[p + k]? = some (dp + BitVec.ofNat 64 k))
    (hs : ∀ k < z, source[p + k]? = some (sp + BitVec.ofNat 64 k)) (hz : z ≤ 2 ^ 64) :
    Copies source dest (p + z) m (memcpy m' dp sp z) := by
  refine ⟨fun i hi x y hx hy => ?_, fun x hx => ?_⟩
  · by_cases hip : i < p
    case pos =>
      have hne : ∀ k < z, x ≠ dp + BitVec.ofNat 64 k := by
        rintro k hk rfl
        have hlt : i < dest.length := (List.getElem?_eq_some_iff.1 hx).1
        have hsame : i = p + k := (List.getElem?_inj hlt hdest).1 (hx.trans (hd k hk).symm)
        omega
      rw [memcpy_of_ne hne]
      exact h.copied i hip x y hx hy
    case neg =>
      obtain ⟨k, rfl⟩ : ∃ k, i = p + k := ⟨i - p, by omega⟩
      have hk : k < z := by omega
      obtain rfl := Option.some.inj ((hd k hk).symm.trans hx)
      obtain rfl := Option.some.inj ((hs k hk).symm.trans hy)
      rw [memcpy_at hk hz]
      refine h.frame _ fun hmem => ?_
      exact hsource _ (List.mem_of_getElem? hy) (List.mem_of_mem_take hmem)
  · have hne : ∀ k < z, x ≠ dp + BitVec.ofNat 64 k := by
      rintro k hk rfl
      have htake : (dest.take (p + z))[p + k]? = some (dp + BitVec.ofNat 64 k) := by
        rw [List.getElem?_take_of_lt (by omega), hd k hk]
      exact hx (List.mem_of_getElem? htake)
    rw [memcpy_of_ne hne]
    refine h.frame x fun hmem => hx ?_
    exact (List.take_subset_take_left dest (Nat.le_add_right p z)) hmem

theorem toNat_shorter (x y : Word) : (if x < y then x else y).toNat = min x.toNat y.toNat := by
  by_cases h : x < y
  case pos =>
    have hlt : x.toNat < y.toNat := h
    rw [if_pos h]
    omega
  case neg =>
    have hle : y.toNat ≤ x.toNat := BitVec.not_lt.1 h
    rw [if_neg h]
    omega

/-- The elements that the cursors are in. -/
theorem Copying.getElem?_buffers (h : Copying r a m s p) (hsep : a.Separate m) (hli : s.li < a.lc)
    (hri : s.ri < a.rc) :
    (a.locals m)[s.li]? = some (iovecAt s.mem a.l s.li).range ∧
      (a.remotes m)[s.ri]? = some (iovecAt s.mem a.rr s.ri).range := by
  rw [(h.copies.iovecAt_eq hsep).1 s.li hli, (h.copies.iovecAt_eq hsep).2 s.ri hri]
  exact ⟨Bionic.getElem?_buffers hli, Bionic.getElem?_buffers hri⟩

/-- A turn copies up to the end of one of the two elements. -/
theorem Copying.toNat_z (h : Copying r a m s p) (hsep : a.Separate m) (hli : s.li < a.lc)
    (hri : s.ri < a.rc) :
    (s.z a).toNat = min ((iovecAt s.mem a.l s.li).iovLen.toNat - s.lo.toNat)
      ((iovecAt s.mem a.rr s.ri).iovLen.toNat - s.ro.toNat) := by
  obtain ⟨hl, hr⟩ := h.getElem?_buffers hsep hli hri
  have hlo := h.left.offset_le hl
  have hro := h.right.offset_le hr
  rw [NxIovec.range_len] at hlo hro
  rw [VmState.z, toNat_shorter, BitVec.toNat_sub_of_le (BitVec.le_def.2 hlo),
    BitVec.toNat_sub_of_le (BitVec.le_def.2 hro)]

/-- The bytes of the piece in the lists of buffers. -/
theorem Copying.getElem?_piece (h : Copying r a m s p) (hsep : a.Separate m) (hli : s.li < a.lc)
    (hri : s.ri < a.rc) {k : Nat} (hk : k < (s.z a).toNat) :
    (addresses (a.locals m))[p + k]? = some (s.lp a + BitVec.ofNat 64 k) ∧
      (addresses (a.remotes m))[p + k]? = some (s.rp a + BitVec.ofNat 64 k) := by
  obtain ⟨hl, hr⟩ := h.getElem?_buffers hsep hli hri
  rw [h.toNat_z hsep hli hri] at hk
  have hleft := h.left.getElem?_addresses hl (k := k) (by rw [NxIovec.range_len]; omega)
  have hright := h.right.getElem?_addresses hr (k := k) (by rw [NxIovec.range_len]; omega)
  rw [BitVec.ofNat_toNat, BitVec.setWidth_eq, NxIovec.range_base] at hleft hright
  exact ⟨hleft, hright⟩

/-- The piece that a turn is about. -/
theorem Copying.piece (h : Copying r a m s p) (hsep : a.Separate m) (hli : s.li < a.lc)
    (hri : s.ri < a.rc) (hz : 0 < (s.z a).toNat) :
    Piece (a.locals m) (a.remotes m) p (p + (s.z a).toNat) := by
  obtain ⟨hl, hr⟩ := h.getElem?_buffers hsep hli hri
  exact h.left.piece h.right hl hr h.cut (h.toNat_z hsep hli hri) hz

/-- Whether the piece can be read. -/
theorem Copying.unreadable_iff (h : Copying r a m s p) (hsep : a.Separate m) (hli : s.li < a.lc)
    (hri : s.ri < a.rc) (hz : 0 < (s.z a).toNat) :
    Unreadable r (a.source m) p (p + (s.z a).toNat) ↔ r.readable (s.src a) (s.z a) = false := by
  have hsource : (a.source m)[p]? = some (s.src a) := by
    obtain ⟨hl, hr⟩ := h.getElem?_piece hsep hli hri hz
    rw [Nat.add_zero, BitVec.add_zero] at hl hr
    unfold VmArgs.source VmState.src
    split
    · exact hl
    · exact hr
  unfold Unreadable
  simp [hsource]

/-- The copy of a turn. -/
theorem Copying.copies_next (h : Copying r a m s p) (hsep : a.Separate m) (hli : s.li < a.lc)
    (hri : s.ri < a.rc) :
    Copies (a.source m) (a.dest m) (p + (s.z a).toNat) m (s.copied a) := by
  obtain ⟨hnodup, hdisjoint, -⟩ := separate_parts hsep
  have hz : (s.z a).toNat ≤ 2 ^ 64 := (s.z a).isLt.le
  have hl : ∀ k < (s.z a).toNat, (addresses (a.locals m))[p + k]? =
    some (s.lp a + BitVec.ofNat 64 k) :=
    fun k hk => (h.getElem?_piece hsep hli hri hk).1
  have hr : ∀ k < (s.z a).toNat, (addresses (a.remotes m))[p + k]? =
    some (s.rp a + BitVec.ofNat 64 k) :=
    fun k hk => (h.getElem?_piece hsep hli hri hk).2
  have hcopies := h.copies
  unfold VmArgs.source VmArgs.dest at *
  unfold VmState.copied
  cases hwr : a.wr with
  | true =>
      simp only [hwr, if_true] at hnodup hdisjoint hcopies ⊢
      exact hcopies.memcpy hnodup hdisjoint hr hl hz
  | false =>
      simp only [hwr, Bool.false_eq_true, if_false] at hnodup hdisjoint hcopies ⊢
      exact hcopies.memcpy hnodup hdisjoint hl hr hz

/-- What the cursor of one of the arrays becomes. -/
theorem along_next {rs : List Range} {i : Nat} {o len zw : Word} {v : Range} {e : Prop}
    [Decidable e]
    (h : Along rs i o.toNat p) (hv : rs[i]? = some v) (hlen : v.len = len.toNat)
    (he : e ↔ o + zw = len) (hz : o.toNat + zw.toNat ≤ len.toNat) :
    Along rs (if e then i + 1 else i) (if e then (0 : Word) else o + zw).toNat (p + zw.toNat) ∧
      (o.toNat + zw.toNat = len.toNat → e) := by
  have hadd : (o + zw).toNat = o.toNat + zw.toNat :=
    BitVec.toNat_add_of_lt (Nat.lt_of_le_of_lt hz len.isLt)
  have hends : o.toNat + zw.toNat = len.toNat → e := fun heq =>
    he.2 (BitVec.eq_of_toNat_eq (hadd.trans heq))
  refine ⟨?_, hends⟩
  by_cases hend : e
  case pos =>
    rw [if_pos hend, if_pos hend]
    refine h.next hv ?_
    rw [hlen, ← he.1 hend, hadd]
  case neg =>
    have hne : o.toNat + zw.toNat ≠ len.toNat := fun heq => hend (hends heq)
    rw [if_neg hend, if_neg hend, hadd]
    exact h.stay hv (by omega)

/-- The cursors after a turn, and that one of them is in a new element. -/
theorem Copying.cursors_next (h : Copying r a m s p) (hsep : a.Separate m) (hli : s.li < a.lc)
    (hri : s.ri < a.rc) :
    Along (a.locals m) (s.next a).li (s.next a).lo.toNat (p + (s.z a).toNat) ∧
      Along (a.remotes m) (s.next a).ri (s.next a).ro.toNat (p + (s.z a).toNat) ∧
      (s.lend a ∨ s.rend a) := by
  obtain ⟨hl, hr⟩ := h.getElem?_buffers hsep hli hri
  have hz := h.toNat_z hsep hli hri
  have hlo := h.left.offset_le hl
  have hro := h.right.offset_le hr
  rw [NxIovec.range_len] at hlo hro
  obtain ⟨hlocal, hremote⟩ := h.copies.iovecAt_eq hsep
  obtain ⟨hlocal', hremote'⟩ := (h.copies_next hsep hli hri).iovecAt_eq hsep
  have hlend : s.lend a ↔ s.lo + s.z a = (iovecAt s.mem a.l s.li).iovLen := by
    rw [VmState.lend, hlocal' s.li hli, hlocal s.li hli]
  have hrend : s.rend a ↔ s.ro + s.z a = (iovecAt s.mem a.rr s.ri).iovLen := by
    rw [VmState.rend, hremote' s.ri hri, hremote s.ri hri]
  obtain ⟨hleft, hends⟩ := along_next h.left hl (NxIovec.range_len _) hlend (by omega)
  obtain ⟨hright, hends'⟩ := along_next h.right hr (NxIovec.range_len _) hrend (by omega)
  simp only [VmState.next]
  refine ⟨hleft, hright, ?_⟩
  by_cases hmin : (iovecAt s.mem a.l s.li).iovLen.toNat - s.lo.toNat ≤
      (iovecAt s.mem a.rr s.ri).iovLen.toNat - s.ro.toNat
  case pos => exact .inl (hends (by omega))
  case neg => exact .inr (hends' (by omega))

/-- A turn whose piece can be read. -/
theorem Copying.next (h : Copying r a m s p) (hsep : a.Separate m) (hli : s.li < a.lc)
    (hri : s.ri < a.rc) (hread : r.readable (s.src a) (s.z a) = true) :
    Copying r a m (s.next a) (p + (s.z a).toNat) := by
  obtain ⟨hleft, hright, hcut⟩ := h.cursors_next hsep hli hri
  refine ⟨hleft, hright, ?_, ?_, h.copies_next hsep hli hri, fun p' q' hpiece hlt => ?_⟩
  · rcases hcut with hend | hend
    · exact .inl (by rw [VmState.next_lo hend]; rfl)
    · exact .inr (by rw [VmState.next_ro hend]; rfl)
  · rw [VmState.next_total, h.total, BitVec.ofNat_add, BitVec.ofNat_toNat, BitVec.setWidth_eq]
  · by_cases hp : p' < p
    case pos => exact h.before p' q' hpiece hp
    case neg =>
      have hp : p ≤ p' := Nat.not_lt.1 hp
      have hz : 0 < (s.z a).toNat := by omega
      obtain ⟨hp', hq'⟩ := (h.piece hsep hli hri hz).eq_of_overlap hpiece hp hlt
      rw [hp', hq', h.unreadable_iff hsep hli hri hz, hread]
      exact Bool.noConfusion

/-- Every turn leaves fewer elements. -/
theorem Copying.fewer (h : Copying r a m s p) (hsep : a.Separate m) (hli : s.li < a.lc)
    (hri : s.ri < a.rc) :
    (a.lc - (s.next a).li) + (a.rc - (s.next a).ri) < (a.lc - s.li) + (a.rc - s.ri) := by
  obtain ⟨-, -, hend⟩ := h.cursors_next hsep hli hri
  have hl : s.li ≤ (s.next a).li := by
    rw [VmState.next_li]
    split <;> omega
  have hr : s.ri ≤ (s.next a).ri := by
    rw [VmState.next_ri]
    split <;> omega
  rcases hend with hend | hend
  · have hnext : (s.next a).li = s.li + 1 := if_pos hend
    omega
  · have hnext : (s.next a).ri = s.ri + 1 := if_pos hend
    omega

/-- The sum so far, as the call returns it. -/
theorem Copying.total_eq (h : Copying r a m s p) (hsep : a.Separate m) :
    s.total.toInt = p ∧ (s.total = 0 ↔ p = 0) := by
  have hle := h.left.le_total
  have hle' := h.right.le_total
  have hlt := min_total_lt hsep
  have hp : p < 2 ^ 63 := by omega
  have htoNat : s.total.toNat = p := by
    rw [h.total, BitVec.toNat_ofNat, Nat.mod_eq_of_lt (by omega)]
  refine ⟨?_, fun h0 => ?_, fun h0 => BitVec.eq_of_toNat_eq (htoNat.trans h0)⟩
  · rw [BitVec.toInt_eq_toNat_of_lt (by omega), htoNat]
  · rw [← htoNat, h0]
    rfl

/-- A loop that is at the end of one of the lists has copied all that there is. -/
theorem Copying.whole (h : Copying r a m s p) (hend : ¬ (s.li < a.lc ∧ s.ri < a.rc)) :
    p = min (Scattered.total (a.locals m)) (Scattered.total (a.remotes m)) := by
  have hle := h.left.le_total
  have hle' := h.right.le_total
  have hli := h.left.le
  have hri := h.right.le
  have hlocals : (a.locals m).length = a.lc := length_buffers ..
  have hremotes : (a.remotes m).length = a.rc := length_buffers ..
  by_cases hl : s.li < a.lc
  case pos =>
    have hlast : s.ri = (a.remotes m).length := by omega
    have hright := h.right
    rw [hlast] at hright
    have heq := hright.eq_total
    omega
  case neg =>
    have hlast : s.li = (a.locals m).length := by omega
    have hleft := h.left
    rw [hlast] at hleft
    have heq := hleft.eq_total
    omega

/-- The loop, by induction on the turns: every turn is one piece, or steps over an empty buffer. -/
theorem Copying.run (hsep : a.Separate m) {turns : Nat} (h : Copying r a m s p)
    (hturns : (a.lc - s.li) + (a.rc - s.ri) < turns) :
    ∃ e t, processVmLoop r a turns s = some e ∧ CopiesFirst r a m t e := by
  induction turns generalizing s p with
  | zero => exact absurd hturns (Nat.not_lt_zero _)
  | succ turns ih =>
      obtain ⟨hret, hzero⟩ := h.total_eq hsep
      unfold processVmLoop
      by_cases hin : s.li < a.lc ∧ s.ri < a.rc
      case neg =>
        rw [if_neg hin]
        exact ⟨_, p, rfl, h.copies, h.before, .whole (h.whole hin) hret rfl⟩
      case pos =>
        obtain ⟨hli, hri⟩ := hin
        rw [if_pos ⟨hli, hri⟩]
        cases hread : r.readable (s.src a) (s.z a) with
        | true =>
            rw [if_neg Bool.noConfusion]
            have hfewer := h.fewer hsep hli hri
            exact ih (h.next hsep hli hri hread) (by omega)
        | false =>
            have hz : 0 < (s.z a).toNat := by
              by_contra hz
              have hempty : s.z a = 0 := BitVec.eq_of_toNat_eq (by simpa using hz)
              rw [hempty, r.empty] at hread
              exact Bool.noConfusion hread
            rw [if_pos rfl]
            refine ⟨_, p, rfl, ?_, h.before, .unreadable _ (h.piece hsep hli hri hz)
              ((h.unreadable_iff hsep hli hri hz).2 hread) ?_ ?_⟩
            · by_cases hp : s.total = 0
              case pos => rw [if_pos hp]; exact h.copies
              case neg => rw [if_neg hp]; exact h.copies
            · simp only [hzero]
              split <;> simp [hret]
            · simp only [hzero]
              split <;> rfl

end Loop

/-- The call ends, with the bytes in place that come before the end of the shorter list and before
the first piece that cannot be read. -/
theorem process_vm_copies (r : Readability) (a : VmArgs) (m : Memory) (h : a.Separate m) :
    ∃ e t, processVm r a m = some e ∧ CopiesFirst r a m t e := by
  refine Copying.run h (p := 0) ?_ ?_
  · refine ⟨.zero _, .zero _, .inl rfl, rfl,
      ⟨fun i hi => absurd hi (Nat.not_lt_zero i), fun _ _ => rfl⟩,
      fun p q _ hp => absurd hp (Nat.not_lt_zero p)⟩
  · show (a.lc - 0) + (a.rc - 0) < a.lc + a.rc + 1
    omega

/-- A memory with two arrays of one and two elements, and bytes to copy from address 80 on. -/
def iovecMemory : Memory := fun x =>
  ([64, 0, 0, 0, 0, 0, 0, 0, 6, 0, 0, 0, 0, 0, 0, 0, 80, 0, 0, 0, 0, 0, 0, 0, 2, 0, 0,
    0, 0, 0, 0, 0,
    90, 0, 0, 0, 0, 0, 0, 0, 3, 0, 0, 0, 0, 0, 0, 0].getD x.toNat x.toNat).toUInt8

/-- A read from the two remote buffers into the local one. -/
def iovecRead : VmArgs := ⟨false, 0, 1, 16, 2⟩

theorem process_vm_copies_read :
    ∃ e t, processVm (guestReadability fun _ => some ⟨0, 85, false, true⟩) iovecRead iovecMemory =
      some e ∧ CopiesFirst (guestReadability fun _ => some ⟨0, 85, false, true⟩)
        iovecRead iovecMemory
        t e :=
  process_vm_copies _ iovecRead iovecMemory (by unfold VmArgs.Separate; decide +kernel)

/-- The second remote buffer cannot be read: two bytes are copied. -/
example : (processVm ⟨fun x z => x < 85 || z == 0, by simp⟩ iovecRead iovecMemory).map
    (fun e => (e.ret, e.errno, e.mem 64, e.mem 65, e.mem 66)) = some (2, none, 80, 81, 66) := by
  decide +kernel

end Asnx.Bionic
