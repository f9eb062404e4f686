import Asnx.Library.ByteMemory
import Mathlib.Algebra.BigOperators.Group.List.Basic
import Mathlib.Data.List.Nodup
import Mathlib.Data.List.Perm.Subperm

/-!
# Buffers in pieces

Ranges of memory that stand for one long buffer, byte after byte. Two lists of ranges cut the buffer
into pieces: a piece lies in one range of either list, and no longer one does (`Piece`).
-/

namespace Asnx.Scattered

open ByteMemory

/-- A range of memory. -/
structure Range where
  base : Word
  len : Nat
  deriving DecidableEq, Repr

/-- The addresses of a range, in order. -/
def Range.addresses (r : Range) : List Word :=
  (List.range r.len).map fun k => r.base + BitVec.ofNat 64 k

/-- The addresses of the bytes of the ranges, in order. -/
def addresses (rs : List Range) : List Word := rs.flatMap Range.addresses

/-- The number of bytes in the ranges. -/
def total (rs : List Range) : Nat := (rs.map Range.len).sum

/-- Where the range with a number begins. -/
def start (rs : List Range) (i : Nat) : Nat := total (rs.take i)

/-- A position between two ranges, or at either end. -/
def Cut (rs : List Range) (p : Nat) : Prop := ∃ i ≤ rs.length, start rs i = p

/-- A piece of a buffer that two lists of ranges describe: from one cut to the next. -/
structure Piece (rs rs' : List Range) (p q : Nat) : Prop where
  lt : p < q
  le : q ≤ total rs
  le' : q ≤ total rs'
  first : Cut rs p ∨ Cut rs' p
  last : Cut rs q ∨ Cut rs' q
  inside : ∀ x, p < x → x < q → ¬ Cut rs x ∧ ¬ Cut rs' x

/-- `memcpy` of ranges that do not overlap. -/
def memcpy (m : Memory) (dest src : Word) (n : Nat) : Memory := fun x =>
  if (x - dest).toNat < n then m (src + (x - dest)) else m x

section Ranges

variable {rs rs' : List Range} {i : Nat} {r : Range}

@[simp] theorem Range.length_addresses (r : Range) : r.addresses.length = r.len := by
  simp [Range.addresses]

@[simp] theorem length_addresses (rs : List Range) : (addresses rs).length = total rs := by
  induction rs with
  | nil => rfl
  | cons r rs ih => simp_all [addresses, total]

theorem addresses_append (rs rs' : List Range) :
    addresses (rs ++ rs') = addresses rs ++ addresses rs' := by
  simp [addresses]

theorem total_append (rs rs' : List Range) : total (rs ++ rs') = total rs + total rs' := by
  simp [total]

theorem start_length (rs : List Range) : start rs rs.length = total rs := by
  rw [start, List.take_length]

/-- The next range begins behind this one. -/
theorem start_succ (h : rs[i]? = some r) : start rs (i + 1) = start rs i + r.len := by
  have htake : rs.take (i + 1) = rs.take i ++ [r] := by
    rw [List.take_add_one, h]
    rfl
  rw [start, htake, total_append]
  simp [start, total]

theorem start_le_total (rs : List Range) (i : Nat) : start rs i ≤ total rs := by
  have hsplit := total_append (rs.take i) (rs.drop i)
  rw [List.take_append_drop] at hsplit
  show total (rs.take i) ≤ total rs
  omega

theorem start_le_start {j : Nat} (h : i ≤ j) : start rs i ≤ start rs j := by
  have htake : start rs i = start (rs.take j) i := by
    rw [start, start, List.take_take, min_eq_left h]
  rw [htake]
  exact start_le_total ..

/-- There is no cut inside a range. -/
theorem not_cut_inside (h : rs[i]? = some r) {x : Nat} (hx : start rs i < x)
    (hx' : x < start rs i + r.len) : ¬ Cut rs x := by
  rintro ⟨j, -, rfl⟩
  rcases Nat.lt_or_ge i j with hij | hij
  · have hle : start rs (i + 1) ≤ start rs j := start_le_start hij
    rw [start_succ h] at hle
    omega
  · have hle : start rs j ≤ start rs i := start_le_start hij
    omega

/-- The byte at a position of a range. -/
theorem getElem?_addresses (h : rs[i]? = some r) {k : Nat} (hk : k < r.len) :
    (addresses rs)[start rs i + k]? = some (r.base + BitVec.ofNat 64 k) := by
  have hi : i < rs.length := (List.getElem?_eq_some_iff.1 h).1
  have hsplit : rs = rs.take i ++ r :: rs.drop (i + 1) := by
    have hr : rs[i] = r := (List.getElem?_eq_some_iff.1 h).2
    rw [← hr, List.getElem_cons_drop, List.take_append_drop]
  have haddresses : addresses rs =
      addresses (rs.take i) ++ (r.addresses ++ addresses (rs.drop (i + 1))) := by
    conv => lhs; rw [hsplit]
    rw [addresses_append]
    simp [addresses]
  have hlen : (addresses (rs.take i)).length = start rs i := length_addresses _
  rw [haddresses, List.getElem?_append_right (by omega), hlen, Nat.add_sub_cancel_left,
    List.getElem?_append_left (by simpa using hk)]
  simp [Range.addresses, hk]

/-- A piece is determined by the cut it begins at. -/
theorem Piece.eq_of_overlap {p q p' q' : Nat} (h : Piece rs rs' p q) (h' : Piece rs rs' p' q')
    (hle : p ≤ p') (hlt : p' < q) : p' = p ∧ q' = q := by
  have hp : p' = p := by
    by_contra hne
    have hinside := h.inside p' (by omega) hlt
    exact h'.first.elim hinside.1 hinside.2
  subst hp
  refine ⟨rfl, ?_⟩
  rcases Nat.lt_trichotomy q' q with hq | hq | hq
  · have hinside := h.inside q' h'.lt hq
    exact absurd h'.last (by simp [hinside])
  · exact hq
  · have hinside := h'.inside q h.lt hq
    exact absurd h.last (by simp [hinside])

/-- Addresses without repetition are no more than there are. -/
theorem total_le_of_nodup (h : (addresses rs).Nodup) : total rs ≤ 2 ^ 64 := by
  have hnodup : ((addresses rs).map BitVec.toNat).Nodup :=
    h.map fun _ _ => BitVec.eq_of_toNat_eq
  have hsubset : (addresses rs).map BitVec.toNat ⊆ List.range (2 ^ 64) := by
    intro n hn
    obtain ⟨a, -, rfl⟩ := List.mem_map.1 hn
    exact List.mem_range.2 a.isLt
  have hle := (hnodup.subperm hsubset).length_le
  rwa [List.length_map, length_addresses, List.length_range] at hle

end Ranges

/-! ## Walking along ranges -/

/-- A cursor `o` bytes into range `i` stands at position `p` of the buffer. -/
structure Along (rs : List Range) (i o p : Nat) : Prop where
  le : i ≤ rs.length
  eq : start rs i + o = p
  inside : o ≠ 0 → ∃ r, rs[i]? = some r ∧ o < r.len

section Cursors

variable {rs rs' : List Range} {i j o o' p z : Nat} {r r' : Range}

theorem Along.zero (rs : List Range) : Along rs 0 0 0 :=
  ⟨Nat.zero_le _, rfl, fun h => absurd rfl h⟩

/-- A cursor never stands behind the end of its range. -/
theorem Along.offset_le (h : Along rs i o p) (hr : rs[i]? = some r) : o ≤ r.len := by
  by_cases ho : o = 0
  case pos => omega
  case neg =>
    obtain ⟨r', hr', hlt⟩ := h.inside ho
    rw [hr] at hr'
    obtain rfl := Option.some.inj hr'
    exact hlt.le

theorem Along.le_total (h : Along rs i o p) : p ≤ total rs := by
  by_cases ho : o = 0
  case pos =>
    have hle := start_le_total rs i
    have heq := h.eq
    omega
  case neg =>
    obtain ⟨r, hr, hlt⟩ := h.inside ho
    have hsucc := start_succ hr
    have hle := start_le_total rs (i + 1)
    have heq := h.eq
    omega

/-- A cursor behind the last range stands at the end. -/
theorem Along.eq_total (h : Along rs rs.length o p) : p = total rs := by
  have ho : o = 0 := by
    by_contra ho
    obtain ⟨r, hr, -⟩ := h.inside ho
    simp at hr
  have heq := h.eq
  rw [start_length] at heq
  omega

/-- A cursor that reaches the end of its range goes on to the next. -/
theorem Along.next (h : Along rs i o p) (hr : rs[i]? = some r) (hz : o + z = r.len) :
    Along rs (i + 1) 0 (p + z) := by
  refine ⟨?_, ?_, fun h => absurd rfl h⟩
  · have hi : i < rs.length := (List.getElem?_eq_some_iff.1 hr).1
    omega
  · rw [start_succ hr, ← h.eq]
    omega

/-- A cursor that does not reach it stays in the range. -/
theorem Along.stay (h : Along rs i o p) (hr : rs[i]? = some r) (hz : o + z < r.len) :
    Along rs i (o + z) (p + z) := by
  refine ⟨h.le, ?_, fun _ => ⟨r, hr, hz⟩⟩
  rw [← h.eq]
  omega

/-- The address of the byte that is `k` behind the cursor. -/
theorem Along.getElem?_addresses (h : Along rs i o p) (hr : rs[i]? = some r) {k : Nat}
    (hk : o + k < r.len) :
    (addresses rs)[p + k]? = some (r.base + BitVec.ofNat 64 o + BitVec.ofNat 64 k) := by
  rw [← h.eq, Nat.add_assoc, Scattered.getElem?_addresses hr hk, BitVec.ofNat_add, BitVec.add_assoc]

/-- Two cursors at one position, one of them at the beginning of its range, stand before a piece: it
ends where the first of the two ranges does. -/
theorem Along.piece (h : Along rs i o p) (h' : Along rs' j o' p) (hr : rs[i]? = some r)
    (hr' : rs'[j]? = some r') (hcut : o = 0 ∨ o' = 0) (hz : z = min (r.len - o) (r'.len - o'))
    (hpos : 0 < z) : Piece rs rs' p (p + z) := by
  have hsucc := start_succ hr
  have hsucc' := start_succ hr'
  have heq := h.eq
  have heq' := h'.eq
  have hle := start_le_total rs (i + 1)
  have hle' := start_le_total rs' (j + 1)
  have hi : i + 1 ≤ rs.length := (List.getElem?_eq_some_iff.1 hr).1
  have hj : j + 1 ≤ rs'.length := (List.getElem?_eq_some_iff.1 hr').1
  refine ⟨by omega, by omega, by omega, ?_, ?_, fun x hx hx' => ⟨?_, ?_⟩⟩
  · rcases hcut with ho | ho
    · exact .inl ⟨i, h.le, by omega⟩
    · exact .inr ⟨j, h'.le, by omega⟩
  · by_cases hmin : r.len - o ≤ r'.len - o'
    case pos => exact .inl ⟨i + 1, hi, by omega⟩
    case neg => exact .inr ⟨j + 1, hj, by omega⟩
  · exact not_cut_inside hr (by omega) (by omega)
  · exact not_cut_inside hr' (by omega) (by omega)

end Cursors

section Copies

variable {m : Memory} {dest src : Word} {n : Nat}

/-- What is copied is read back. -/
theorem memcpy_at {k : Nat} (hk : k < n) (hn : n ≤ 2 ^ 64) :
    memcpy m dest src n (dest + BitVec.ofNat 64 k) = m (src + BitVec.ofNat 64 k) := by
  have hsub : dest + BitVec.ofNat 64 k - dest = BitVec.ofNat 64 k := by
    rw [BitVec.add_comm, BitVec.add_sub_cancel]
  have htoNat : (BitVec.ofNat 64 k).toNat = k := by
    rw [BitVec.toNat_ofNat, Nat.mod_eq_of_lt (by omega)]
  unfold memcpy
  rw [hsub, htoNat, if_pos hk]

/-- What is not written to stays. -/
theorem memcpy_of_ne {x : Word} (h : ∀ k < n, x ≠ dest + BitVec.ofNat 64 k) :
    memcpy m dest src n x = m x := by
  refine if_neg fun hlt => h _ hlt ?_
  rw [BitVec.ofNat_toNat, BitVec.setWidth_eq, BitVec.add_comm, BitVec.sub_add_cancel]

end Copies

end Asnx.Scattered
