import Mathlib.Data.Nat.ModEq
import Mathlib.Data.List.Count
import Mathlib.Data.Set.Disjoint
import Mathlib.Order.CompletePartialOrder
import Mathlib.Data.Set.Lattice
import Mathlib.Tactic.Ring

/-!
# A memory of bytes

A memory gives each 64-bit address its byte, and numbers are stored little-endian. `applyAll` makes
a list of changes to words; what a word holds afterwards is what the changes to that word make of
it, as long as the words do not overlap (`load64_applyAll`).
-/

namespace Asnx.ByteMemory

abbrev Word := BitVec 64

abbrev Memory := Word → UInt8

/-- The number in the `n` bytes at an address. -/
def load (m : Memory) (a : Word) : Nat → Nat
  | 0 => 0
  | n + 1 => (m a).toNat + 256 * load m (a + 1) n

/-- The 64-bit word at an address. -/
def load64 (m : Memory) (a : Word) : Word := BitVec.ofNat 64 (load m a 8)

/-- Writes a 64-bit word. -/
def store64 (m : Memory) (a : Word) (v : Word) : Memory := fun x =>
  if (x - a).toNat < 8 then UInt8.ofNat (v.toNat / 256 ^ (x - a).toNat) else m x

/-- The addresses of the `n` bytes at an address. -/
def span (a : Word) (n : Nat) : Set Word := {x | (x - a).toNat < n}

/-- The addresses of the bytes of a word. -/
def wordAt (a : Word) : Set Word := span a 8

/-- Two words that do not overlap. -/
def Apart (a b : Word) : Prop := Disjoint (wordAt a) (wordAt b)

section Loads

variable {m m' : Memory} {a : Word} {n : Nat}

theorem mem_span_offset {k : Nat} (hk : k < n) (hn : n ≤ 2 ^ 64) : a + BitVec.ofNat 64 k ∈
    span a n := by
  show (a + BitVec.ofNat 64 k - a).toNat < n
  have hsub : a + BitVec.ofNat 64 k - a = BitVec.ofNat 64 k := by
    rw [BitVec.add_comm, BitVec.add_sub_cancel]
  rw [hsub, BitVec.toNat_ofNat, Nat.mod_eq_of_lt (by omega)]
  exact hk

/-- Where nothing wraps around, the bytes at an address are an interval. -/
theorem mem_span_iff {x : Word} (h : a.toNat + n ≤ 2 ^ 64) :
    x ∈ span a n ↔ a.toNat ≤ x.toNat ∧ x.toNat < a.toNat + n := by
  have hx := x.isLt
  have ha := a.isLt
  show (x - a).toNat < n ↔ _
  rw [BitVec.toNat_sub]
  omega

/-- Words that are at least 8 bytes apart. -/
theorem apart_of_le {b : Word} (ha : a.toNat + 8 ≤ 2 ^ 64) (hb : b.toNat + 8 ≤ 2 ^ 64)
    (h : a.toNat + 8 ≤ b.toNat ∨ b.toNat + 8 ≤ a.toNat) : Apart a b := by
  refine Set.disjoint_left.2 fun x hxa hxb => ?_
  have hxa := (mem_span_iff ha).1 hxa
  have hxb := (mem_span_iff hb).1 hxb
  omega

theorem add_one_add (a : Word) (k : Nat) :
    a + 1 + BitVec.ofNat 64 k = a + BitVec.ofNat 64 (k + 1) := by
  rw [BitVec.add_assoc, Nat.add_comm k 1, BitVec.ofNat_add]
  rfl

/-- Memories that agree on the bytes at an address hold the same number there. -/
theorem load_congr (h : ∀ k < n, m (a + BitVec.ofNat 64 k) = m' (a + BitVec.ofNat 64 k)) :
    load m a n = load m' a n := by
  induction n generalizing a with
  | zero => rfl
  | succ n ih =>
      have hfirst : m a = m' a := by
        have hzero := h 0 (by omega)
        rwa [BitVec.add_zero] at hzero
      have hrest := ih (a := a + 1) fun k hk => by
        rw [add_one_add]
        exact h (k + 1) (by omega)
      rw [load, load, hfirst, hrest]

theorem load_eq_of_eqOn (h : ∀ x ∈ span a n, m x = m' x) (hn : n ≤ 2 ^ 64) :
    load m a n = load m' a n :=
  load_congr fun _ hk => h _ (mem_span_offset hk hn)

theorem load64_eq_of_eqOn (h : ∀ x ∈ wordAt a, m x = m' x) : load64 m a = load64 m' a :=
  congrArg (BitVec.ofNat 64) (load_eq_of_eqOn h (by omega))

/-- The bytes of a number give the number. -/
theorem load_eq_mod {v : Nat} (h : ∀ k < n, (m (a + BitVec.ofNat 64 k)).toNat = v / 256 ^ k % 256) :
    load m a n = v % 256 ^ n := by
  induction n generalizing a v with
  | zero => simp [load, Nat.mod_one]
  | succ n ih =>
      have hfirst : (m a).toNat = v % 256 := by
        have hzero := h 0 (by omega)
        rwa [BitVec.add_zero, pow_zero, Nat.div_one] at hzero
      have hrest := ih (a := a + 1) (v := v / 256) fun k hk => by
        rw [add_one_add, h (k + 1) (by omega), Nat.div_div_eq_div_mul, pow_succ']
      rw [load, hfirst, hrest, pow_succ', Nat.mod_mul]

/-- A word that has been written is read back. -/
theorem load64_store64 (m : Memory) (a v : Word) : load64 (store64 m a v) a = v := by
  have hload : load (store64 m a v) a 8 = v.toNat % 256 ^ 8 := by
    refine load_eq_mod fun k hk => ?_
    have hsub : (a + BitVec.ofNat 64 k - a).toNat = k := by
      rw [BitVec.add_comm, BitVec.add_sub_cancel, BitVec.toNat_ofNat, Nat.mod_eq_of_lt (by omega)]
    unfold store64
    rw [hsub, if_pos hk]
    exact UInt8.toNat_ofNat' ..
  unfold load64
  rw [hload, show 256 ^ 8 = 2 ^ 64 from rfl, Nat.mod_eq_of_lt v.isLt]
  rw [BitVec.ofNat_toNat, BitVec.setWidth_eq]

/-- Bytes outside a word are unchanged by a write to it. -/
theorem store64_of_notMem {x v : Word} (h : x ∉ wordAt a) : store64 m a v x = m x :=
  if_neg h

theorem load64_store64_of_apart {b : Word} (v : Word) (h : Apart a b) :
    load64 (store64 m a v) b = load64 m b := by
  refine load64_eq_of_eqOn fun x hx => ?_
  exact store64_of_notMem fun hxa => Set.disjoint_left.1 h hxa hx

theorem mem_wordAt_self (a : Word) : a ∈ wordAt a := by
  show (a - a).toNat < 8
  rw [BitVec.sub_self]
  decide

theorem not_apart_self (a : Word) : ¬ Apart a a :=
  fun h => Set.disjoint_left.1 h (mem_wordAt_self a) (mem_wordAt_self a)

theorem Apart.symm {b : Word} (h : Apart a b) : Apart b a := Disjoint.symm h

end Loads

/-! ## Lists of changes -/

/-- A change of a word. -/
structure Change where
  address : Word
  effect : Word → Word

/-- The change made to the word at its address. -/
def Change.apply (c : Change) (m : Memory) : Memory :=
  store64 m c.address (c.effect (load64 m c.address))

/-- The changes one after the other. -/
def applyAll (changes : List Change) (m : Memory) : Memory :=
  changes.foldl (fun m c => c.apply m) m

/-- The addresses that are written to. -/
def touched (changes : List Change) : Set Word := {x | ∃ c ∈ changes, x ∈ wordAt c.address}

section Changes

variable {m : Memory} {changes : List Change}

theorem applyAll_append (changes changes' : List Change) (m : Memory) :
    applyAll (changes ++ changes') m = applyAll changes' (applyAll changes m) :=
  List.foldl_append

theorem applyAll_cons (c : Change) (changes : List Change) (m : Memory) :
    applyAll (c :: changes) m = applyAll changes (c.apply m) :=
  List.foldl_cons ..

/-- What is not written to is unchanged. -/
theorem applyAll_of_notMem {x : Word} (h : x ∉ touched changes) : applyAll changes m x = m x := by
  induction changes generalizing m with
  | nil => rfl
  | cons c changes ih =>
      rw [applyAll_cons, ih fun ⟨c', hc', hx⟩ => h ⟨c', List.mem_cons_of_mem _ hc', hx⟩]
      exact store64_of_notMem fun hx => h ⟨c, List.mem_cons_self .., hx⟩

/-- What the changes to the word at `a` make of it, by induction on the changes. -/
theorem load64_applyAll {a : Word} (h : ∀ c ∈ changes, c.address = a ∨ Apart c.address a) :
    load64 (applyAll changes m) a =
      (changes.filter (·.address = a)).foldl (fun w c => c.effect w) (load64 m a) := by
  induction changes generalizing m with
  | nil => rfl
  | cons c changes ih =>
      rw [applyAll_cons, ih fun c' hc' => h c' (List.mem_cons_of_mem _ hc')]
      rcases h c (List.mem_cons_self ..) with rfl | hapart
      · have hword : load64 (c.apply m) c.address = c.effect (load64 m c.address) :=
          load64_store64 ..
        rw [List.filter_cons_of_pos (by simp), List.foldl_cons, hword]
      · have hne : c.address ≠ a := by
          rintro rfl
          have hmem : c.address ∈ wordAt c.address := by
            show (c.address - c.address).toNat < 8
            rw [BitVec.sub_self]
            decide
          exact Set.disjoint_left.1 hapart hmem hmem
        have hword : load64 (c.apply m) a = load64 m a := load64_store64_of_apart _ hapart
        rw [List.filter_cons_of_neg (by simpa using hne), hword]

/-- A word that nothing is written to. -/
theorem load64_applyAll_of_apart {a : Word} (h : ∀ c ∈ changes, Apart c.address a) :
    load64 (applyAll changes m) a = load64 m a := by
  refine load64_eq_of_eqOn fun x hx => ?_
  exact applyAll_of_notMem fun ⟨c, hc, hxc⟩ => Set.disjoint_left.1 (h c hc) hxc hx

end Changes

/-! ## Stores of any size -/

/-- Writes the `n` low bytes of a number. -/
def store (m : Memory) (a : Word) (n v : Nat) : Memory := fun x =>
  if (x - a).toNat < n then UInt8.ofNat (v / 256 ^ (x - a).toNat) else m x

section Stores

variable {m : Memory} {a v' : Word} {n v : Nat}

theorem store_eight (v : Word) : store m a 8 v.toNat = store64 m a v := rfl

theorem store_of_notMem {x : Word} (h : x ∉ span a n) : store m a n v x = m x := if_neg h

theorem load_lt : load m a n < 256 ^ n := by
  induction n generalizing a with
  | zero => exact Nat.one_pos
  | succ n ih =>
      have hfirst := (m a).toNat_lt
      have hrest := ih (a := a + 1)
      rw [load, pow_succ]
      omega

/-- The low bytes and those after them. -/
theorem load_add {k : Nat} : load m a (n + k) = load m a n + 256 ^ n *
    load m (a + BitVec.ofNat 64 n) k := by
  induction n generalizing a with
  | zero => simp [load]
  | succ n ih =>
      rw [Nat.add_right_comm, load, load, ih, add_one_add, pow_succ]
      ring

theorem load_store (hn : n ≤ 2 ^ 64) : load (store m a n v) a n = v % 256 ^ n := by
  refine load_eq_mod fun k hk => ?_
  have hsub : (a + BitVec.ofNat 64 k - a).toNat = k := by
    rw [BitVec.add_comm, BitVec.add_sub_cancel, BitVec.toNat_ofNat, Nat.mod_eq_of_lt (by omega)]
  unfold store
  rw [hsub, if_pos hk]
  exact UInt8.toNat_ofNat' ..

theorem load_store_of_disjoint {b : Word} {k : Nat} (hk : k ≤ 2 ^ 64)
    (h : Disjoint (span a n) (span b k)) :
    load (store m a n v) b k = load m b k :=
  load_eq_of_eqOn (fun _ hx => store_of_notMem fun hxa => Set.disjoint_left.1 h hxa hx) hk

/-- Only the low bytes matter. -/
theorem store_mod : store m a n (v % 256 ^ n) = store m a n v := by
  funext x
  unfold store
  split_ifs with hx
  · have hpow : 256 ^ n = 256 ^ (x - a).toNat * 256 ^ (n - (x - a).toNat) := by
      rw [← pow_add, Nat.add_sub_cancel' (Nat.le_of_lt hx)]
    have hlow : 256 ∣ 256 ^ (n - (x - a).toNat) := dvd_pow_self _ (Nat.sub_ne_zero_of_lt hx)
    rw [hpow, Nat.mod_mul_right_div_self, ← UInt8.toNat_inj, UInt8.toNat_ofNat', UInt8.toNat_ofNat',
      Nat.mod_mod_of_dvd _ hlow]
  · rfl

/-- Writes numbers of `n` bytes one after the other. -/
def storeRow (m : Memory) (a : Word) (n : Nat) : List Nat → Memory
  | [] => m
  | v :: vs => storeRow (store m a n v) (a + BitVec.ofNat 64 n) n vs

theorem toNat_sub_add (x a : Word) (n : Nat) :
    (x - (a + BitVec.ofNat 64 n)).toNat = ((x - a).toNat + (2 ^ 64 - n % 2 ^ 64)) % 2 ^ 64 := by
  have hsub : x - (a + BitVec.ofNat 64 n) = x - a - BitVec.ofNat 64 n := by grind
  rw [hsub, BitVec.toNat_sub, Nat.add_comm, BitVec.toNat_ofNat]

/-- The bytes at an address are the first of them and those after. -/
theorem mem_span_add {x : Word} {k : Nat} (h : n + k ≤ 2 ^ 64) :
    x ∈ span a (n + k) ↔ x ∈ span a n ∨ x ∈ span (a + BitVec.ofNat 64 n) k := by
  have hlt := (x - a).isLt
  have hrest := toNat_sub_add x a n
  show (x - a).toNat < n + k ↔ (x - a).toNat < n ∨ (x - (a + BitVec.ofNat 64 n)).toNat < k
  omega

theorem disjoint_span_add {k : Nat} (h : n + k ≤ 2 ^ 64) :
    Disjoint (span a n) (span (a + BitVec.ofNat 64 n) k) := by
  refine Set.disjoint_left.2 fun x hx hx' => ?_
  have hrest := toNat_sub_add x a n
  have hx : (x - a).toNat < n := hx
  have hx' : (x - (a + BitVec.ofNat 64 n)).toNat < k := hx'
  omega

theorem storeRow_of_notMem {x : Word} {vs : List Nat} (hlen : n * vs.length ≤ 2 ^ 64)
    (h : x ∉ span a (n * vs.length)) : storeRow m a n vs x = m x := by
  induction vs generalizing m a with
  | nil => rfl
  | cons v vs ih =>
      rw [List.length_cons, Nat.mul_succ, Nat.add_comm] at hlen h
      rw [mem_span_add hlen, not_or] at h
      rw [storeRow, ih (by omega) h.2, store_of_notMem h.1]

theorem load_storeRow {vs : List Nat} {k : Nat} (hlen : n * vs.length ≤ 2 ^ 64)
    (hk : k < vs.length) :
    load (storeRow m a n vs) (a + BitVec.ofNat 64 (n * k)) n = vs[k] % 256 ^ n := by
  induction vs generalizing m a k with
  | nil => exact absurd hk (Nat.not_lt_zero k)
  | cons v vs ih =>
      rw [List.length_cons, Nat.mul_succ, Nat.add_comm] at hlen
      cases k with
      | zero =>
          have hrest : ∀ x ∈ span a n, storeRow (store m a n v) (a + BitVec.ofNat 64 n) n vs x =
            store m a n v x :=
            fun x hx =>
              storeRow_of_notMem (by omega) (Set.disjoint_left.1 (disjoint_span_add hlen) hx)
          rw [Nat.mul_zero, BitVec.add_zero, storeRow, load_eq_of_eqOn hrest (by omega),
            load_store (by omega)]
          rfl
      | succ k =>
          have hplace : a + BitVec.ofNat 64 (n * (k + 1)) =
              a + BitVec.ofNat 64 n + BitVec.ofNat 64 (n * k) := by
            rw [BitVec.add_assoc, Nat.mul_succ, Nat.add_comm, BitVec.ofNat_add]
          rw [hplace, storeRow]
          exact ih (by omega) (Nat.lt_of_succ_lt_succ hk)

/-- A memory holds numbers of `n` bytes one after the other. -/
def HoldsRow (m : Memory) (a : Word) (n : Nat) (vs : List Nat) : Prop :=
  ∀ k, (hk : k < vs.length) → load m (a + BitVec.ofNat 64 (n * k)) n = vs[k] % 256 ^ n

theorem holdsRow_storeRow {vs : List Nat} (hlen : n * vs.length ≤ 2 ^ 64) :
    HoldsRow (storeRow m a n vs) a n vs :=
  fun _ hk => load_storeRow hlen hk

/-- The bytes of a number in a row. -/
theorem span_row_subset {k l : Nat} (hk : k < l) (hlen : n * l ≤ 2 ^ 64) :
    span (a + BitVec.ofNat 64 (n * k)) n ⊆ span a (n * l) := by
  intro x hx
  have hx : (x - (a + BitVec.ofNat 64 (n * k))).toNat < n := hx
  show (x - a).toNat < n * l
  have hend : n * (k + 1) ≤ n * l := Nat.mul_le_mul_left n hk
  have hsub : x - a = x - (a + BitVec.ofNat 64 (n * k)) + BitVec.ofNat 64 (n * k) := by grind
  rw [Nat.mul_succ] at hend
  rw [hsub, BitVec.toNat_add, BitVec.toNat_ofNat]
  omega

theorem holdsRow_cons {vs : List Nat} {v : Nat} :
    HoldsRow m a n (v :: vs) ↔ load m a n = v % 256 ^ n ∧
      HoldsRow m (a + BitVec.ofNat 64 n) n vs := by
  have hplace : ∀ k, a + BitVec.ofNat 64 n + BitVec.ofNat 64 (n * k) =
      a + BitVec.ofNat 64 (n * (k + 1)) := by
    intro k
    rw [BitVec.add_assoc, Nat.mul_succ, Nat.add_comm (n * k), BitVec.ofNat_add]
  constructor
  · intro h
    have hfirst := h 0 (Nat.succ_pos _)
    rw [Nat.mul_zero, BitVec.add_zero] at hfirst
    exact ⟨hfirst, fun k hk => hplace k ▸ h (k + 1) (Nat.succ_lt_succ hk)⟩
  · rintro ⟨hfirst, hrest⟩ k hk
    cases k with
    | zero =>
        rw [Nat.mul_zero, BitVec.add_zero]
        exact hfirst
    | succ k => exact hplace k ▸ hrest k (Nat.lt_of_succ_lt_succ hk)

/-- Places at offsets that are so far apart do not overlap. -/
theorem disjoint_span_offsets {base o o' : Word} {k : Nat} (h : o.toNat + n ≤ o'.toNat)
    (hend : o'.toNat + k ≤ 2 ^ 64) :
    Disjoint (span (base + o) n) (span (base + o') k) := by
  refine Set.disjoint_left.2 fun x hx hx' => ?_
  have hx : (x - (base + o)).toNat < n := hx
  have hx' : (x - (base + o')).toNat < k := hx'
  have hfirst : x - (base + o) = x - base - o := by grind
  have hsecond : x - (base + o') = x - base - o' := by grind
  have hlt := (x - base).isLt
  have hlt' := o.isLt
  rw [hfirst, BitVec.toNat_sub] at hx
  rw [hsecond, BitVec.toNat_sub] at hx'
  omega

/-- A row stays while its bytes do. -/
theorem HoldsRow.of_eqOn {m' : Memory} {vs : List Nat} (h : HoldsRow m a n vs)
    (hlen : n * vs.length ≤ 2 ^ 64)
    (hmem : ∀ x ∈ span a (n * vs.length), m' x = m x) : HoldsRow m' a n vs := by
  intro k hk
  have hend : n * 1 ≤ n * vs.length := Nat.mul_le_mul_left n (by omega)
  rw [← h k hk]
  exact load_eq_of_eqOn (fun x hx => hmem x (span_row_subset hk hlen hx)) (by omega)

/-- A number determines its bytes. -/
theorem eqOn_of_load_eq {m' : Memory} (h : load m' a n = load m a n) : ∀ x ∈ span a n,
    m' x = m x := by
  induction n generalizing a with
  | zero => exact fun x hx => absurd hx (Nat.not_lt_zero _)
  | succ n ih =>
      intro x hx
      have hx : (x - a).toNat < n + 1 := hx
      have hlt := (m a).toNat_lt
      have hlt' := (m' a).toNat_lt
      rw [load, load] at h
      by_cases hfirst : x = a
      · exact hfirst ▸ UInt8.toNat_inj.1 (by omega)
      · have hload : load m' (a + 1) n = load m (a + 1) n := by omega
        refine ih hload x ?_
        have hne : (x - a).toNat ≠ 0 := fun hzero => hfirst (by
          have hsub : x - a = 0 := BitVec.eq_of_toNat_eq hzero
          grind)
        have hrest := toNat_sub_add x a 1
        show (x - (a + BitVec.ofNat 64 1)).toNat < n
        omega

/-- A row determines its bytes. -/
theorem HoldsRow.eqOn {m' : Memory} {vs : List Nat} (h : HoldsRow m a n vs)
    (h' : HoldsRow m' a n vs) :
    ∀ x ∈ span a (n * vs.length), m' x = m x := by
  intro x hx
  have hx : (x - a).toNat < n * vs.length := hx
  have hpos : 0 < n := Nat.pos_of_ne_zero fun hzero => by simp [hzero] at hx
  have hk : (x - a).toNat / n < vs.length := Nat.div_lt_of_lt_mul hx
  refine eqOn_of_load_eq ((h' _ hk).trans (h _ hk).symm) x ?_
  have hdiv := Nat.div_add_mod (x - a).toNat n
  have hmod := Nat.mod_lt (x - a).toNat hpos
  have hrest := toNat_sub_add x a (n * ((x - a).toNat / n))
  have hlt := (x - a).isLt
  show (x - (a + BitVec.ofNat 64 (n * ((x - a).toNat / n)))).toNat < n
  omega

/-- Writes 64-bit words one after the other. -/
def storeWords (m : Memory) (a : Word) (vs : List Word) : Memory :=
    storeRow m a 8 (vs.map BitVec.toNat)

/-- A memory holds 64-bit words one after the other. -/
def HoldsWords (m : Memory) (a : Word) (vs : List Word) : Prop :=
    HoldsRow m a 8 (vs.map BitVec.toNat)

theorem storeWords_of_notMem {x : Word} {vs : List Word} (hlen : 8 * vs.length ≤ 2 ^ 64)
    (h : x ∉ span a (8 * vs.length)) : storeWords m a vs x = m x :=
  storeRow_of_notMem (by rwa [List.length_map]) (by rwa [List.length_map])

/-- Words that have been written, in a memory that has not changed there since. -/
theorem holdsWords_of_stored {m' : Memory} {vs : List Word} (hlen : 8 * vs.length ≤ 2 ^ 64)
    (h : ∀ x ∈ span a (8 * vs.length), m' x = storeWords m a vs x) : HoldsWords m' a vs :=
  HoldsRow.of_eqOn (holdsRow_storeRow (by rwa [List.length_map])) (by rwa [List.length_map])
    (by rwa [List.length_map])

theorem HoldsWords.get {vs : List Word} {k : Nat} (h : HoldsWords m a vs) (hv : vs[k]? = some v') :
    load64 m (a + BitVec.ofNat 64 (8 * k)) = v' := by
  obtain ⟨hk, rfl⟩ := List.getElem?_eq_some_iff.1 hv
  have hword := h k (by rwa [List.length_map])
  rw [List.getElem_map, show 256 ^ 8 = 2 ^ 64 from rfl, Nat.mod_eq_of_lt vs[k].isLt] at hword
  rw [load64, hword, BitVec.ofNat_toNat, BitVec.setWidth_eq]

theorem HoldsWords.head {vs : List Word} (h : HoldsWords m a (v' :: vs)) : load64 m a = v' := by
  have hzero := h.get (k := 0) rfl
  rwa [BitVec.add_zero] at hzero

end Stores

end Asnx.ByteMemory
