import Asnx.Library.ByteMemory
import Mathlib.Data.List.Induction

/-!
# Rows written over a memory

Rows of numbers are written to a memory again and again, in any order. Where they lie apart, each
of them is held as it should be or is as it was, and nothing else has changed.
-/

namespace Asnx.Overwriting

open ByteMemory

/-- Numbers of so many bytes each, from an address on. -/
structure Row where
  place : Word
  width : Nat
  values : List Nat

namespace Row

def size (r : Row) : Nat := r.width * r.values.length

/-- The addresses of its bytes. -/
def bytes (r : Row) : Set Word := span r.place r.size

def write (r : Row) (m : Memory) : Memory := storeRow m r.place r.width r.values

/-- The row is in the memory. -/
def Held (r : Row) (m : Memory) : Prop := HoldsRow m r.place r.width r.values

end Row

/-- Rows written one after the other. -/
def writeAll (rs : List Row) (m : Memory) : Memory := rs.foldl (fun m r => r.write m) m

/-- A memory after some of the rows have been written, any number of times. -/
def Written (rows : List Row) (m m' : Memory) : Prop := ∃ rs, (∀ r ∈ rs, r ∈ rows) ∧
    m' = writeAll rs m

/-- Rows that lie apart and fit into the address space. -/
structure Apart (rows : List Row) : Prop where
  disjoint : ∀ r ∈ rows, ∀ r' ∈ rows, r' ≠ r → Disjoint r'.bytes r.bytes
  fits : ∀ r ∈ rows, r.size ≤ 2 ^ 64

section Rows

variable {rows rows' : List Row} {r r' : Row} {m m' m'' : Memory} {x : Word}

theorem Row.write_of_notMem (hfits : r.size ≤ 2 ^ 64) (h : x ∉ r.bytes) : r.write m x = m x :=
  storeRow_of_notMem hfits h

theorem Row.held_write (hfits : r.size ≤ 2 ^ 64) : r.Held (r.write m) := holdsRow_storeRow hfits

theorem Row.Held.of_eqOn (h : r.Held m) (hfits : r.size ≤ 2 ^ 64)
    (hmem : ∀ x ∈ r.bytes, m' x = m x) : r.Held m' :=
  HoldsRow.of_eqOn h hfits hmem

theorem Apart.mono (h : Apart rows') (hsub : ∀ r ∈ rows, r ∈ rows') : Apart rows :=
  ⟨fun r hr r' hr' => h.disjoint r (hsub r hr) r' (hsub r' hr'), fun r hr => h.fits r (hsub r hr)⟩

@[refl] theorem Written.refl : Written rows m m := ⟨[], fun _ hr => absurd hr List.not_mem_nil, rfl⟩

theorem Written.trans (h : Written rows m m') (h' : Written rows m' m'') : Written rows m m'' := by
  obtain ⟨rs, hrs, rfl⟩ := h
  obtain ⟨rs', hrs', rfl⟩ := h'
  refine ⟨rs ++ rs', fun r hr => ?_, (List.foldl_append ..).symm⟩
  exact (List.mem_append.1 hr).elim (hrs r) (hrs' r)

theorem Written.mono (h : Written rows m m') (hsub : ∀ r ∈ rows, r ∈ rows') :
    Written rows' m m' := by
  obtain ⟨rs, hrs, rfl⟩ := h
  exact ⟨rs, fun r hr => hsub r (hrs r hr), rfl⟩

theorem written_write (h : r ∈ rows) : Written rows m (r.write m) :=
  ⟨[r], List.forall_mem_singleton.2 h, rfl⟩

/-- What the rows leave alone. -/
theorem Written.outside (h : Written rows m m') (hfits : ∀ r ∈ rows, r.size ≤ 2 ^ 64)
    (hx : ∀ r ∈ rows, x ∉ r.bytes) :
    m' x = m x := by
  obtain ⟨rs, hrs, rfl⟩ := h
  induction rs generalizing m with
  | nil => rfl
  | cons r rs ih =>
      have hr := hrs r (List.mem_cons_self ..)
      rw [writeAll, List.foldl_cons]
      exact (ih fun r' hr' => hrs r' (List.mem_cons_of_mem _ hr')).trans
        (Row.write_of_notMem (hfits r hr) (hx r hr))

/-- What the rows do not overlap. -/
theorem Written.same (h : Written rows m m') (hfits : ∀ r ∈ rows, r.size ≤ 2 ^ 64)
    (hdisjoint : ∀ r' ∈ rows, Disjoint r'.bytes r.bytes) : ∀ x ∈ r.bytes, m' x = m x :=
  fun _ hx => h.outside hfits fun r' hr' hx' => Set.disjoint_left.1 (hdisjoint r' hr') hx' hx

/-- A row is held, or it is as it was. -/
theorem Written.held_or_same (h : Written rows m m') (hapart : Apart rows) (hr : r ∈ rows) :
    r.Held m' ∨ ∀ x ∈ r.bytes, m' x = m x := by
  obtain ⟨rs, hrs, rfl⟩ := h
  -- by induction on the rows from the last one on, which decides unless it is another one
  induction rs using List.reverseRecOn with
  | nil => exact .inr fun _ _ => rfl
  | append_singleton rs r' ih =>
      have hr' := hrs r' (by simp)
      rw [writeAll, List.foldl_append, List.foldl_cons, List.foldl_nil]
      by_cases heq : r' = r
      · exact .inl (heq ▸ Row.held_write (hapart.fits r' hr'))
      · have hsame : ∀ x ∈ r.bytes, r'.write (writeAll rs m) x = writeAll rs m x := fun x hx =>
          Row.write_of_notMem (hapart.fits r' hr')
            fun hx' => Set.disjoint_left.1 (hapart.disjoint r hr r' hr' heq) hx' hx
        rcases ih fun r'' hr'' => hrs r'' (List.mem_append_left _ hr'') with hheld | hkept
        · exact .inl (hheld.of_eqOn (hapart.fits r hr) hsame)
        · exact .inr fun x hx => (hsame x hx).trans (hkept x hx)

/-- A row that is held stays, whatever rows are written. -/
theorem Row.Held.written (hheld : r.Held m) (h : Written rows m m') (hapart : Apart rows)
    (hr : r ∈ rows) : r.Held m' :=
  (h.held_or_same hapart hr).elim id fun hsame => hheld.of_eqOn (hapart.fits r hr) hsame

/-- All rows that are held leave one memory only. -/
theorem Written.unique (h : Written rows m m') (h' : Written rows m m'')
    (hfits : ∀ r ∈ rows, r.size ≤ 2 ^ 64)
    (hheld : ∀ r ∈ rows, r.Held m') (hheld' : ∀ r ∈ rows, r.Held m'') : m' = m'' := by
  funext x
  by_cases hx : ∃ r ∈ rows, x ∈ r.bytes
  · obtain ⟨r, hr, hx⟩ := hx
    exact HoldsRow.eqOn (hheld' r hr) (hheld r hr) x hx
  · have hout : ∀ r ∈ rows, x ∉ r.bytes := fun r hr hxr => hx ⟨r, hr, hxr⟩
    rw [h.outside hfits hout, h'.outside hfits hout]

/-- Rows that are held are written over without an effect. -/
theorem Written.eq_of_held (h : Written rows m m') (hapart : Apart rows)
    (hheld : ∀ r ∈ rows, r.Held m) : m' = m :=
  h.unique .refl hapart.fits (fun r hr => (hheld r hr).written h hapart hr) hheld

end Rows

end Asnx.Overwriting
