import Asnx.Library.ByteMemory

/-!
# Loops over blocks of memory

A loop that reads one block of a source after the other, computes a block from each and writes it
to the block with the same number in a destination. It may keep a state from one block to the next,
such as a local array that it does not clear (`eachBlock`).

What the body makes of a block is a `Reads`: a program that gets at bytes only by reading them, at
an offset that may depend on what it has read. So its accesses are those that it makes, and that
they stay within a block (`Within`) has to be proved along it (`Within.bind`).

Where the state has no influence on what is written, and nothing is written to a block of the source
before it is read (`Ahead`), each block of the destination is a function of the block of the source
with its number (`bytesAt_eachBlock`).
-/

namespace Asnx.Blockwise

open ByteMemory

/-! ## Programs that read bytes -/

/-- A program that reads bytes by their offset. -/
inductive Reads (α : Type) where
  | ret (v : α)
  | byte (i : Nat) (next : UInt8 → Reads α)

namespace Reads

variable {α β : Type} {p : Reads α} {f : α → Reads β} {bytes bytes' : Nat → UInt8} {n k : Nat}

/-- One program after another. -/
def andThen : Reads α → (α → Reads β) → Reads β
  | ret v, f => f v
  | byte i next, f => byte i fun b => (next b).andThen f

instance : Monad Reads where
  pure := ret
  bind := andThen

/-- One byte. -/
def one (i : Nat) : Reads UInt8 := byte i ret

/-- The program, on what lies `n` bytes further on. -/
def shift (n : Nat) : Reads α → Reads α
  | ret v => ret v
  | byte i next => byte (n + i) fun b => (next b).shift n

/-- What the program returns, where it finds these bytes. -/
def value (bytes : Nat → UInt8) : Reads α → α
  | ret v => v
  | byte i next => (next (bytes i)).value bytes

/-- The offsets that it reads, in order. -/
def offsets (bytes : Nat → UInt8) : Reads α → List Nat
  | ret _ => []
  | byte i next => i :: (next (bytes i)).offsets bytes

/-- Whatever the bytes are, the program reads none but the first `n`. -/
def Within (n : Nat) : Reads α → Prop
  | ret _ => True
  | byte i next => i < n ∧ ∀ b, (next b).Within n

@[simp] theorem value_pure (v : α) : (pure v : Reads α).value bytes = v := rfl

@[simp] theorem value_one (i : Nat) : (one i).value bytes = bytes i := rfl

@[simp] theorem value_bind (p : Reads α) (f : α → Reads β) :
    (p >>= f).value bytes = (f (p.value bytes)).value bytes := by
  induction p with
  | ret v => rfl
  | byte i next ih => exact ih (bytes i)

@[simp] theorem value_ite {c : Prop} [Decidable c] (p q : Reads α) :
    (if c then p else q).value bytes = if c then p.value bytes else q.value bytes :=
  apply_ite (value bytes) c p q

@[simp] theorem value_shift (p : Reads α) :
    (p.shift n).value bytes = p.value fun i => bytes (n + i) := by
  induction p with
  | ret v => rfl
  | byte i next ih => exact ih (bytes (n + i))

theorem within_pure (v : α) : (pure v : Reads α).Within n := trivial

theorem within_one {i : Nat} (h : i < n) : (one i).Within n := ⟨h, fun _ => trivial⟩

/-- One program after another, by induction on the first one. -/
theorem Within.bind (hp : p.Within n) (hf : ∀ v, (f v).Within n) : (p >>= f).Within n := by
  induction p with
  | ret v => exact hf v
  | byte i next ih => exact ⟨hp.1, fun b => ih b (hp.2 b)⟩

theorem Within.ite {c : Prop} [Decidable c] {q : Reads α} (hp : p.Within n) (hq : q.Within n) :
    (if c then p else q).Within n := by
  split
  · exact hp
  · exact hq

/-- More bytes may be read. -/
theorem Within.mono (h : p.Within n) (hle : n ≤ k) : p.Within k := by
  induction p with
  | ret v => trivial
  | byte i next ih => exact ⟨Nat.lt_of_lt_of_le h.1 hle, fun b => ih b (h.2 b)⟩

theorem Within.shift (h : p.Within n) : (p.shift k).Within (k + n) := by
  induction p with
  | ret v => trivial
  | byte i next ih => exact ⟨Nat.add_lt_add_left h.1 k, fun b => ih b (h.2 b)⟩

/-- The offsets that the program reads. -/
theorem Within.offsets_lt (h : p.Within n) : ∀ i ∈ p.offsets bytes, i < n := by
  induction p with
  | ret v => exact fun i hi => absurd hi List.not_mem_nil
  | byte i next ih =>
      intro k hk
      rcases List.mem_cons.1 hk with rfl | hk
      · exact h.1
      · exact ih (bytes i) (h.2 _) k hk

/-- What it returns depends on these bytes only. -/
theorem Within.value_congr (h : p.Within n) (hbytes : ∀ i < n, bytes i = bytes' i) :
    p.value bytes = p.value bytes' := by
  induction p with
  | ret v => rfl
  | byte i next ih =>
      show (next (bytes i)).value bytes = (next (bytes' i)).value bytes'
      rw [← hbytes i h.1]
      exact ih _ (h.2 _)

end Reads

/-! ## The loop over blocks -/

/-- The bytes at an address. -/
def bytesAt (mem : Memory) (a : Word) (n : Nat) : List UInt8 :=
  (List.range n).map fun k => mem (a + BitVec.ofNat 64 k)

/-- Writes bytes to an address. -/
def storeBytes (mem : Memory) (a : Word) (bs : List UInt8) : Memory := fun x =>
  bs.getD (x - a).toNat (mem x)

/-- An access to a number of bytes. -/
inductive BlockAccess where
  | read (a : Word) (n : Nat)
  | write (a : Word) (n : Nat)
  deriving DecidableEq, Repr

/-- Bytes to be written, and the offset that they are written to. -/
abbrev Piece := Nat × List UInt8

/-- Writes one piece after the other, at an address. -/
def storePieces (mem : Memory) (a : Word) (ws : List Piece) : Memory :=
  ws.foldl (fun mem w => storeBytes mem (a + BitVec.ofNat 64 w.1) w.2) mem

/-- The body of a loop: the size of a block in bytes, and what it makes of a state and the block
that it reads: the next state, and what it writes to the block of the destination. -/
structure BlockStep (σ : Type) where
  size : Nat
  run : σ → Reads (σ × List Piece)

variable {σ : Type}

/-- The accesses of the body: those that it reads, and then those that it writes. -/
def BlockStep.accesses (b : BlockStep σ) (mem : Memory) (st : σ) (s d : Word) : List BlockAccess :=
  let bytes (i : Nat) : UInt8 := mem (s + BitVec.ofNat 64 i)
  ((b.run st).offsets bytes).map (fun i => .read (s + BitVec.ofNat 64 i) 1) ++
    ((b.run st).value bytes).2.map fun w => .write (d + BitVec.ofNat 64 w.1) w.2.length

/-- The loop over `n` blocks from `s` and `d` on, with its accesses. -/
def eachBlock (b : BlockStep σ) : Nat → Memory → σ → Word → Word → Memory × List BlockAccess
  | 0, mem, _, _, _ => (mem, [])
  | n + 1, mem, st, s, d =>
      let r := (b.run st).value fun i => mem (s + BitVec.ofNat 64 i)
      let rest := eachBlock b n (storePieces mem d r.2) r.1 (s + BitVec.ofNat 64 b.size)
        (d + BitVec.ofNat 64 b.size)
      (rest.1, b.accesses mem st s d ++ rest.2)

/-- The address of block number `i`. -/
def blockAt (a : Word) (size i : Nat) : Word := a + BitVec.ofNat 64 (i * size)

/-- No block of the destination overlaps a later block of the source. -/
def Ahead (d s : Word) (size n : Nat) : Prop :=
  ∀ i j, i < j → j < n → Disjoint (span (blockAt d size i) size) (span (blockAt s size j) size)

/-- The pieces follow each other from the offset `start` on, up to `size`. -/
def Consecutive (size : Nat) : Nat → List Piece → Prop
  | start, [] => start = size
  | start, w :: ws => w.1 = start ∧ Consecutive size (start + w.2.length) ws

/-- The bytes of all pieces. -/
def piecesBytes (ws : List Piece) : List UInt8 := ws.flatMap Prod.snd

/-- What the body writes for a block that consists of the given bytes. -/
def BlockStep.block (b : BlockStep σ) (st : σ) (block : List UInt8) : List UInt8 :=
  piecesBytes ((b.run st).value fun i => block.getD i 0).2

/-- The body reads its block only and writes whole blocks, and the state has no influence on
them. -/
structure BlockStep.Stateless (b : BlockStep σ) : Prop where
  within : ∀ st, (b.run st).Within b.size
  writes : ∀ st bytes, Consecutive b.size 0 ((b.run st).value bytes).2
  forgets : ∀ bytes st st', ((b.run st).value bytes).2 = ((b.run st').value bytes).2

variable {b : BlockStep σ} {mem : Memory} {st : σ} {a d s x : Word} {n : Nat}

/-! ## Single blocks -/

@[simp] theorem length_bytesAt (mem : Memory) (a : Word) (n : Nat) :
    (bytesAt mem a n).length = n := by
  rw [bytesAt, List.length_map, List.length_range]

theorem bytesAt_congr {mem' : Memory} (hn : n ≤ 2 ^ 64) (h : ∀ x ∈ span a n, mem x = mem' x) :
    bytesAt mem a n = bytesAt mem' a n :=
  List.map_congr_left fun _ hk => h _ (mem_span_offset (List.mem_range.1 hk) hn)

/-- A byte outside the written block is untouched. -/
theorem storeBytes_of_notMem {bs : List UInt8} (h : x ∉ span a bs.length) :
    storeBytes mem a bs x = mem x := by
  rw [storeBytes, List.getD_eq_getElem?_getD, List.getElem?_eq_none (Nat.le_of_not_lt h)]
  rfl

/-- A written block reads back. -/
theorem bytesAt_storeBytes (bs : List UInt8) (hlen : bs.length ≤ 2 ^ 64) :
    bytesAt (storeBytes mem a bs) a bs.length = bs := by
  refine List.ext_getElem (length_bytesAt ..) fun k _ hk => ?_
  have hsub : a + BitVec.ofNat 64 k - a = BitVec.ofNat 64 k := by
    rw [BitVec.add_comm, BitVec.add_sub_cancel]
  have hoffset : (a + BitVec.ofNat 64 k - a).toNat = k := by
    rw [hsub, BitVec.toNat_ofNat, Nat.mod_eq_of_lt (by omega)]
  simp only [bytesAt, storeBytes, List.getElem_map, List.getElem_range, hoffset]
  rw [List.getD_eq_getElem?_getD, List.getElem?_eq_getElem hk]
  rfl

/-! ## Pieces -/

theorem storeBytes_nil (mem : Memory) (a : Word) : storeBytes mem a [] = mem := rfl

/-- Bytes behind others. -/
theorem storeBytes_append {bs cs : List UInt8} (h : bs.length + cs.length ≤ 2 ^ 64) :
    storeBytes (storeBytes mem a bs) (a + BitVec.ofNat 64 bs.length) cs =
      storeBytes mem a (bs ++ cs) := by
  funext x
  have hsub : (x - (a + BitVec.ofNat 64 bs.length)).toNat =
      (2 ^ 64 - bs.length % 2 ^ 64 + (x - a).toNat) % 2 ^ 64 := by
    rw [← BitVec.sub_sub, BitVec.toNat_sub (x - a), BitVec.toNat_ofNat]
  have hlt := (x - a).isLt
  simp only [storeBytes, List.getD_eq_getElem?_getD, hsub]
  by_cases hfirst : (x - a).toNat < bs.length
  case pos =>
    have hbehind : cs.length ≤ (2 ^ 64 - bs.length % 2 ^ 64 + (x - a).toNat) % 2 ^ 64 := by
      by_cases hall : bs.length = 2 ^ 64
      · omega
      · rw [Nat.mod_eq_of_lt (a := bs.length) (by omega), Nat.mod_eq_of_lt (by omega)]
        omega
    rw [List.getElem?_eq_none hbehind, List.getElem?_append_left hfirst]
    rfl
  case neg =>
    have hoffset : (2 ^ 64 - bs.length % 2 ^ 64 + (x - a).toNat) % 2 ^ 64 =
        (x - a).toNat - bs.length := by omega
    have hnone : bs[(x - a).toNat]? = none := List.getElem?_eq_none (by omega)
    rw [hoffset, List.getElem?_append_right (by omega), hnone]
    rfl

/-- Consecutive pieces are written as one, by induction on them. -/
theorem storePieces_eq {size : Nat} {ws : List Piece} {bs : List UInt8}
    (h : Consecutive size bs.length ws) (hsize : size ≤ 2 ^ 64) :
    storePieces (storeBytes mem a bs) a ws = storeBytes mem a (bs ++ piecesBytes ws) ∧
      (bs ++ piecesBytes ws).length = size := by
  induction ws generalizing bs with
  | nil =>
      rw [piecesBytes, List.flatMap_nil, List.append_nil]
      exact ⟨rfl, h⟩
  | cons w ws ih =>
      obtain ⟨hstart, hrest⟩ := h
      rw [← List.length_append] at hrest
      obtain ⟨hstored, hlength⟩ := ih hrest
      have hbytes : bs ++ piecesBytes (w :: ws) = bs ++ w.2 ++ piecesBytes ws := by
        rw [piecesBytes, List.flatMap_cons, List.append_assoc]
        rfl
      have hle : bs.length + w.2.length ≤ 2 ^ 64 := by
        rw [List.length_append, List.length_append] at hlength
        omega
      rw [hbytes]
      refine ⟨?_, hlength⟩
      rw [← hstored, ← storeBytes_append hle, storePieces, storePieces, List.foldl_cons, hstart]

/-- A piece lies within the block. -/
theorem Consecutive.piece_le {size start : Nat} {ws : List Piece} (h : Consecutive size start ws) :
    start ≤ size ∧ ∀ w ∈ ws, w.1 + w.2.length ≤ size := by
  induction ws generalizing start with
  | nil => exact ⟨Nat.le_of_eq h, fun w hw => absurd hw List.not_mem_nil⟩
  | cons w ws ih =>
      obtain ⟨rfl, hrest⟩ := h
      obtain ⟨hle, hws⟩ := ih hrest
      exact ⟨(Nat.le_add_right _ _).trans hle, List.forall_mem_cons.2 ⟨hle, hws⟩⟩

/-- What the body finds at an address is the block there. -/
theorem value_eq_block (hb : b.Stateless) (st : σ) :
    piecesBytes ((b.run st).value fun i => mem (s + BitVec.ofNat 64 i)).2 =
      b.block st (bytesAt mem s b.size) := by
  rw [BlockStep.block]
  congr 2
  refine (hb.within st).value_congr fun i hi => ?_
  simp [bytesAt, List.getD_eq_getElem?_getD, hi]

/-- The body writes a block at once. -/
theorem storePieces_run (hb : b.Stateless) (hsize : b.size ≤ 2 ^ 64) (st : σ) :
    storePieces mem d ((b.run st).value fun i => mem (s + BitVec.ofNat 64 i)).2 =
        storeBytes mem d (b.block st (bytesAt mem s b.size)) ∧
      (b.block st (bytesAt mem s b.size)).length = b.size := by
  rw [← value_eq_block hb]
  have hwrites := hb.writes st fun i => mem (s + BitVec.ofNat 64 i)
  have hpieces := @storePieces_eq mem d b.size _ [] hwrites hsize
  rwa [storeBytes_nil, List.nil_append] at hpieces

theorem block_forgets (hb : b.Stateless) (st st' : σ) (block : List UInt8) :
    b.block st block = b.block st' block := congrArg piecesBytes (hb.forgets _ st st')

/-! ## Addresses of blocks -/

theorem blockAt_zero (a : Word) (size : Nat) : blockAt a size 0 = a := by
  rw [blockAt, Nat.zero_mul]
  exact BitVec.add_zero a

theorem blockAt_succ (a : Word) (size i : Nat) :
    blockAt (a + BitVec.ofNat 64 size) size i = blockAt a size (i + 1) := by
  rw [blockAt, blockAt, Nat.succ_mul, Nat.add_comm (i * size), BitVec.ofNat_add, BitVec.add_assoc]

/-- The blocks behind the first one, and the first one itself, lie in the whole range. -/
theorem span_tail_subset {size : Nat} :
    span (a + BitVec.ofNat 64 size) (n * size) ⊆ span a ((n + 1) * size) := by
  intro x hx
  have hlt : (x - (a + BitVec.ofNat 64 size)).toNat < n * size := hx
  have hsub : x - a = x - (a + BitVec.ofNat 64 size) + BitVec.ofNat 64 size := by
    rw [← BitVec.sub_sub, BitVec.sub_add_cancel]
  show (x - a).toNat < (n + 1) * size
  rw [Nat.succ_mul, hsub, BitVec.toNat_add, BitVec.toNat_ofNat]
  refine lt_of_le_of_lt (Nat.mod_le _ _) ?_
  have hmod := Nat.mod_le size (2 ^ 64)
  omega

theorem span_head_subset {size : Nat} : span a size ⊆ span a ((n + 1) * size) := by
  intro x hx
  have hlt : (x - a).toNat < size := hx
  show (x - a).toNat < (n + 1) * size
  rw [Nat.succ_mul]
  omega

/-- The first block does not overlap the blocks behind it. -/
theorem head_disjoint_tail {size : Nat} (hn : (n + 1) * size ≤ 2 ^ 64) :
    Disjoint (span a size) (span (a + BitVec.ofNat 64 size) (n * size)) := by
  refine Set.disjoint_left.2 fun x hx hxt => ?_
  have hlt : (x - a).toNat < size := hx
  have hlt' : (x - (a + BitVec.ofNat 64 size)).toNat < n * size := hxt
  rw [Nat.succ_mul] at hn
  have hsub : x - (a + BitVec.ofNat 64 size) = x - a - BitVec.ofNat 64 size :=
    (BitVec.sub_sub ..).symm
  by_cases hall : size = 2 ^ 64
  · omega
  · rw [hsub, BitVec.toNat_sub, BitVec.toNat_ofNat, Nat.mod_eq_of_lt (a := size) (by omega)] at hlt'
    omega

/-! ## The loop -/

theorem size_le {size : Nat} (hn : (n + 1) * size ≤ 2 ^ 64) : n * size ≤ 2 ^ 64 ∧
    size ≤ 2 ^ 64 := by
  rw [Nat.succ_mul] at hn
  omega

/-- The first block, and then the others. -/
theorem eachBlock_succ (hb : b.Stateless) (hsize : b.size ≤ 2 ^ 64) : ∃ st',
    (eachBlock b (n + 1) mem st s d).1 =
    (eachBlock b n (storeBytes mem d (b.block st (bytesAt mem s b.size))) st'
      (s + BitVec.ofNat 64 b.size) (d + BitVec.ofNat 64 b.size)).1 := by
  rw [← (storePieces_run hb hsize st).1]
  exact ⟨_, rfl⟩

/-- The loop writes the destination only. -/
theorem eachBlock_of_notMem (hb : b.Stateless) (hn : n * b.size ≤ 2 ^ 64)
    (hx : x ∉ span d (n * b.size)) : (eachBlock b n mem st s d).1 x = mem x := by
  induction n generalizing mem st s d with
  | zero => rfl
  | succ n ih =>
      obtain ⟨hn', hsize⟩ := size_le hn
      obtain ⟨st', heq⟩ := @eachBlock_succ _ b mem st d s n hb hsize
      rw [heq]
      refine (ih hn' fun h => hx (span_tail_subset h)).trans (storeBytes_of_notMem ?_)
      rw [(storePieces_run hb hsize st (d := d)).2]
      exact fun h => hx (span_head_subset h)

/-- Every access is to a byte of a block of the source, or to bytes of a block of the
destination. -/
theorem eachBlock_accesses (hb : b.Stateless) :
    ∀ access ∈ (eachBlock b n mem st s d).2,
      (∃ i < n, ∃ k < b.size, access = .read (blockAt s b.size i + BitVec.ofNat 64 k) 1) ∨
        ∃ i < n, ∃ k l, k + l ≤ b.size ∧
          access = .write (blockAt d b.size i + BitVec.ofNat 64 k) l := by
  induction n generalizing mem st s d with
  | zero => exact fun access h => absurd h List.not_mem_nil
  | succ n ih =>
      intro access h
      rcases List.mem_append.1 h with h | h
      · rcases List.mem_append.1 h with h | h
        · obtain ⟨k, hk, rfl⟩ := List.mem_map.1 h
          exact .inl ⟨0, Nat.succ_pos n, k, (hb.within st).offsets_lt k hk, by rw [blockAt_zero]⟩
        · obtain ⟨w, hw, rfl⟩ := List.mem_map.1 h
          exact .inr ⟨0, Nat.succ_pos n, w.1, w.2.length, (hb.writes st _).piece_le.2 w hw,
            by rw [blockAt_zero]⟩
      · rcases ih access h with ⟨i, hi, k, hk, rfl⟩ | ⟨i, hi, k, l, hkl, rfl⟩
        · exact .inl ⟨i + 1, Nat.succ_lt_succ hi, k, hk, by rw [blockAt_succ]⟩
        · exact .inr ⟨i + 1, Nat.succ_lt_succ hi, k, l, hkl, by rw [blockAt_succ]⟩

/-- Each block of the destination is what the body makes of the block of the source with its
number, by induction on the blocks: the first one is not written again, and the blocks behind it
are still what they were when they are read. -/
theorem bytesAt_eachBlock (hb : b.Stateless) (hn : n * b.size ≤ 2 ^ 64)
    (hahead : Ahead d s b.size n) (st₀ : σ) {i : Nat} (hi : i < n) :
    bytesAt (eachBlock b n mem st s d).1 (blockAt d b.size i) b.size =
      b.block st₀ (bytesAt mem (blockAt s b.size i) b.size) := by
  induction n generalizing mem st s d i with
  | zero => exact absurd hi (Nat.not_lt_zero i)
  | succ n ih =>
      obtain ⟨hn', hsize⟩ := size_le hn
      have hlength := (@storePieces_run _ b mem d s hb hsize st).2
      obtain ⟨st', heq⟩ := @eachBlock_succ _ b mem st d s n hb hsize
      rw [heq]
      generalize hfirst : b.block st (bytesAt mem s b.size) = first at hlength
      cases i with
      | zero =>
          rw [blockAt_zero, blockAt_zero]
          have hlater := @bytesAt_congr (eachBlock b n (storeBytes mem d first) st'
            (s + BitVec.ofNat 64 b.size) (d + BitVec.ofNat 64 b.size)).1 d b.size
            (storeBytes mem d first) hsize fun x hx => eachBlock_of_notMem hb hn' fun h =>
              Set.disjoint_left.1 (head_disjoint_tail hn) hx h
          have hstored := @bytesAt_storeBytes mem d first ((Nat.le_of_eq hlength).trans hsize)
          rw [hlength] at hstored
          rw [hlater, hstored, ← hfirst]
          exact block_forgets hb _ _ _
      | succ i =>
          have hahead' : Ahead (d + BitVec.ofNat 64 b.size) (s + BitVec.ofNat 64 b.size)
              b.size n := by
            intro k j hkj hj
            rw [blockAt_succ, blockAt_succ]
            exact hahead (k + 1) (j + 1) (Nat.succ_lt_succ hkj) (Nat.succ_lt_succ hj)
          have hread : bytesAt (storeBytes mem d first) (blockAt s b.size (i + 1)) b.size =
              bytesAt mem (blockAt s b.size (i + 1)) b.size := by
            refine bytesAt_congr hsize fun x hx => storeBytes_of_notMem fun hxd => ?_
            rw [hlength, ← blockAt_zero d b.size] at hxd
            exact Set.disjoint_left.1 (hahead 0 (i + 1) (Nat.succ_pos i) hi) hxd hx
          rw [← blockAt_succ, ← hread, ← blockAt_succ]
          exact ih hn' hahead' (Nat.lt_of_succ_lt_succ hi)

/-- A part of a block lies in it. -/
theorem span_part_subset {size k l : Nat} (h : k + l ≤ size) :
    span (a + BitVec.ofNat 64 k) l ⊆ span a size := by
  intro x hx
  have hlt : (x - (a + BitVec.ofNat 64 k)).toNat < l := hx
  have hsub : x - a = x - (a + BitVec.ofNat 64 k) + BitVec.ofNat 64 k := by
    rw [← BitVec.sub_sub, BitVec.sub_add_cancel]
  show (x - a).toNat < size
  rw [hsub, BitVec.toNat_add, BitVec.toNat_ofNat]
  refine lt_of_le_of_lt (Nat.mod_le _ _) ?_
  have hmod := Nat.mod_le k (2 ^ 64)
  omega

/-- A block lies in the whole range. -/
theorem span_blockAt_subset {size i : Nat} (hi : i < n) :
    span (blockAt a size i) size ⊆ span a (n * size) := by
  intro x hx
  have hlt : (x - blockAt a size i).toNat < size := hx
  have hsub : x - a = x - blockAt a size i + BitVec.ofNat 64 (i * size) := by
    rw [blockAt, ← BitVec.sub_sub, BitVec.sub_add_cancel]
  have hle : (i + 1) * size ≤ n * size := Nat.mul_le_mul_right _ hi
  rw [Nat.succ_mul] at hle
  show (x - a).toNat < n * size
  rw [hsub, BitVec.toNat_add, BitVec.toNat_ofNat]
  refine lt_of_le_of_lt (Nat.mod_le _ _) ?_
  have hmod := Nat.mod_le (i * size) (2 ^ 64)
  omega

/-- Separate ranges are ahead of each other. -/
theorem ahead_of_disjoint {size : Nat}
    (h : Disjoint (span d (n * size)) (span s (n * size))) : Ahead d s size n := by
  intro i j hij hj
  exact h.mono (span_blockAt_subset (hij.trans hj)) (span_blockAt_subset hj)

end Asnx.Blockwise
