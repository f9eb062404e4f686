import Asnx.Library.ByteMemory
import Mathlib.Logic.Function.Basic

/-!
# A machine for A64 code

The general registers, the stack pointer, the low halves of the vector registers, the flags and a
memory of bytes, with the moves, sums, bit fields, loads, stores and branches of A64 that need no
more than that. `decode` reads an instruction word. Code is fetched from a map of its own: what is
executed is not written to meanwhile.

A block of code without branches runs through (`run_block`), and what it does is `execAll`.
-/

namespace Asnx.A64

open ByteMemory

/-- The number of a register. Number 31 is the stack pointer or zero, as the instruction has it. -/
abbrev Reg := BitVec 5

/-- Whether an operation is on a register or on its low half. -/
inductive Width where
  | full
  | half
  deriving DecidableEq

/-- What is written to a register: a result of the low half is extended with zeros. -/
def Width.fit : Width → Word → Word
  | .full, v => v
  | .half, v => (v.setWidth 32).setWidth 64

@[simp] theorem Width.fit_full (v : Word) : Width.full.fit v = v := rfl

structure Flags where
  n : Bool
  z : Bool
  c : Bool
  v : Bool

/-- The flags of a difference. -/
def subFlags {k : Nat} (a b : BitVec k) : Flags :=
  ⟨(a - b).msb, a - b = 0, b.toNat ≤ a.toNat, a.ssubOverflow b⟩

def Width.subFlags : Width → Word → Word → Flags
  | .full, a, b => A64.subFlags a b
  | .half, a, b => A64.subFlags (a.setWidth 32) (b.setWidth 32)

/-- Conditions, by their number. -/
def Flags.holds (f : Flags) (cond : BitVec 4) : Bool :=
  let base := match cond.toNat / 2 with
    | 0 => f.z
    | 1 => f.c
    | 2 => f.n
    | 3 => f.v
    | 4 => f.c && !f.z
    | 5 => f.n == f.v
    | 6 => f.n == f.v && !f.z
    | _ => true
  if cond.toNat % 2 = 1 ∧ cond ≠ 15 then !base else base

structure State where
  x : Reg → Word
  sp : Word
  d : Reg → Word
  pc : Word
  flags : Flags
  mem : Memory

namespace State

/-- A register as an operand, where number 31 is zero. -/
def get (s : State) (r : Reg) : Word := if r = 31 then 0 else s.x r

/-- A register as an operand, where number 31 is the stack pointer. -/
def getSp (s : State) (r : Reg) : Word := if r = 31 then s.sp else s.x r

def set (s : State) (r : Reg) (v : Word) : State :=
  if r = 31 then s else { s with x := Function.update s.x r v }

def setSp (s : State) (r : Reg) (v : Word) : State :=
  if r = 31 then { s with sp := v } else { s with x := Function.update s.x r v }

def setD (s : State) (r : Reg) (v : Word) : State := { s with d := Function.update s.d r v }

def next (s : State) : State := { s with pc := s.pc + 4 }

def jump (s : State) (a : Word) : State := { s with pc := a }

end State

/-- When the base register of a pair of loads or stores moves. -/
inductive Mode where
  | fixed
  | pre
  | post
  deriving DecidableEq

/-- Instructions, with the immediate values as they are used. -/
inductive Instr where
  | movz (w : Width) (rd : Reg) (v : Word)
  | movn (w : Width) (rd : Reg) (v : Word)
  | movk (rd : Reg) (v : BitVec 16) (shift : Nat)
  | addImm (w : Width) (rd rn : Reg) (v : Word)
  | subsImm (w : Width) (rd rn : Reg) (v : Word)
  | andImm (rd rn : Reg) (mask : Word)
  | orrImm (rd rn : Reg) (mask : Word)
  | addReg (w : Width) (rd rn rm : Reg) (shift : Nat)
  | subReg (w : Width) (rd rn rm : Reg) (shift : Nat)
  | orrReg (w : Width) (rd rn rm : Reg) (shift : Nat)
  | ubfm (rd rn : Reg) (immr imms : Nat)
  | sbfm (rd rn : Reg) (immr imms : Nat)
  | csel (w : Width) (rd rn rm : Reg) (cond : BitVec 4)
  | ldr (size : Nat) (rt rn : Reg) (offset : Word)
  | str (size : Nat) (rt rn : Reg) (offset : Word)
  | ldrReg (rt rn rm : Reg) (shift : Nat)
  | ldrLit (rt : Reg) (offset : Word)
  | ldp (rt rt2 rn : Reg) (offset : Word) (mode : Mode)
  | stp (rt rt2 rn : Reg) (offset : Word) (mode : Mode)
  | ldpD (rt rt2 rn : Reg) (offset : Word)
  | stpD (rt rt2 rn : Reg) (offset : Word)
  | cbz (w : Width) (rt : Reg) (offset : Word)
  | bCond (cond : BitVec 4) (offset : Word)
  | b (offset : Word)
  | br (rn : Reg)
  | blr (rn : Reg)
  | ret (rn : Reg)
  deriving DecidableEq

/-- `n` ones. -/
def ones (n : Nat) : Word := BitVec.ofNat 64 (2 ^ n - 1)

/-- The bits from `immr` to `imms` at the low end, or the bits up to `imms` at `64 - immr`. -/
def ubfmOf (v : Word) (immr imms : Nat) : Word :=
  if immr ≤ imms then (v >>> immr) &&& ones
    (imms + 1 - immr) else (v &&& ones (imms + 1)) <<< (64 - immr)

/-- The same with the sign of the field. -/
def sbfmOf (v : Word) (immr imms : Nat) : Word :=
  if immr ≤ imms then ((v >>> immr).setWidth (imms + 1 - immr)).signExtend 64
  else ((v.setWidth (imms + 1)).signExtend 64) <<< (64 - immr)

/-- The address of a pair of loads or stores. -/
def Mode.address : Mode → Word → Word → Word
  | .post, base, _ => base
  | _, base, offset => base + offset

/-- The base register after a pair of loads or stores. -/
def Mode.base : Mode → Word → Word → Word
  | .fixed, base, _ => base
  | _, base, offset => base + offset

def exec : Instr → State → State
  | .movz w rd v, s => (s.set rd (w.fit v)).next
  | .movn w rd v, s => (s.set rd (w.fit (~~~v))).next
  | .movk rd v shift, s =>
      (s.set rd ((s.get rd &&& ~~~(0xffff#64 <<< shift)) ||| (v.setWidth 64 <<< shift))).next
  | .addImm w rd rn v, s => (s.setSp rd (w.fit (s.getSp rn + v))).next
  | .subsImm w rd rn v, s =>
      ({ s with flags := w.subFlags (s.getSp rn) v }.set rd (w.fit (s.getSp rn - v))).next
  | .andImm rd rn mask, s => (s.setSp rd (s.get rn &&& mask)).next
  | .orrImm rd rn mask, s => (s.setSp rd (s.get rn ||| mask)).next
  | .addReg w rd rn rm shift, s => (s.set rd (w.fit (s.get rn + s.get rm <<< shift))).next
  | .subReg w rd rn rm shift, s => (s.set rd (w.fit (s.get rn - s.get rm <<< shift))).next
  | .orrReg w rd rn rm shift, s => (s.set rd (w.fit (s.get rn ||| s.get rm <<< shift))).next
  | .ubfm rd rn immr imms, s => (s.set rd (ubfmOf (s.get rn) immr imms)).next
  | .sbfm rd rn immr imms, s => (s.set rd (sbfmOf (s.get rn) immr imms)).next
  | .csel w rd rn rm cond, s =>
      (s.set rd (w.fit (if s.flags.holds cond then s.get rn else s.get rm))).next
  | .ldr size rt rn offset, s =>
      (s.set rt (BitVec.ofNat 64 (load s.mem (s.getSp rn + offset) size))).next
  | .str size rt rn offset, s =>
      { s with mem := store s.mem (s.getSp rn + offset) size (s.get rt).toNat }.next
  | .ldrReg rt rn rm shift, s => (s.set rt (load64 s.mem (s.getSp rn + s.get rm <<< shift))).next
  | .ldrLit rt offset, s => (s.set rt (load64 s.mem (s.pc + offset))).next
  | .ldp rt rt2 rn offset mode, s =>
      let a := mode.address (s.getSp rn) offset
      (((s.setSp rn (mode.base (s.getSp rn) offset)).set rt (load64 s.mem a)).set rt2
        (load64 s.mem (a + 8))).next
  | .stp rt rt2 rn offset mode, s =>
      let a := mode.address (s.getSp rn) offset
      { s.setSp rn (mode.base (s.getSp rn) offset) with
        mem := store64 (store64 s.mem a (s.get rt)) (a + 8) (s.get rt2) }.next
  | .ldpD rt rt2 rn offset, s =>
      let a := s.getSp rn + offset
      ((s.setD rt (load64 s.mem a)).setD rt2 (load64 s.mem (a + 8))).next
  | .stpD rt rt2 rn offset, s =>
      let a := s.getSp rn + offset
      { s with mem := store64 (store64 s.mem a (s.d rt)) (a + 8) (s.d rt2) }.next
  | .cbz w rt offset, s => if w.fit (s.get rt) = 0 then s.jump (s.pc + offset) else s.next
  | .bCond cond offset, s => if s.flags.holds cond then s.jump (s.pc + offset) else s.next
  | .b offset, s => s.jump (s.pc + offset)
  | .br rn, s => s.jump (s.get rn)
  | .blr rn, s => { s with x := Function.update s.x 30 (s.pc + 4) }.jump (s.get rn)
  | .ret rn, s => s.jump (s.get rn)

/-! ## Instruction words -/

/-- Move wide immediate -/
def decodeMove (i : BitVec 32) (w : Width) (rd : Reg) : Option Instr :=
  let shift := 16 * (i.extractLsb' 21 2).toNat
  let v := i.extractLsb' 5 16
  if w = .half ∧ 32 ≤ shift then none
  else match (i.extractLsb' 29 2).toNat with
    | 0 => some (.movn w rd (v.setWidth 64 <<< shift))
    | 2 => some (.movz w rd (v.setWidth 64 <<< shift))
    | 3 => if w = .full then some (.movk rd v shift) else none
    | _ => none

/-- Logical immediate, where the element is the whole register -/
def decodeLogical (i : BitVec 32) (w : Width) (rd rn : Reg) : Option Instr :=
  let immr := (i.extractLsb' 16 6).toNat
  let imms := (i.extractLsb' 10 6).toNat
  let mask := (ones (imms + 1)).rotateRight immr
  if w = .half ∨ i.getLsbD 22 = false ∨ imms = 63 then none
  else match (i.extractLsb' 29 2).toNat with
    | 0 => some (.andImm rd rn mask)
    | 1 => some (.orrImm rd rn mask)
    | _ => none

/-- Bitfield move -/
def decodeBitfield (i : BitVec 32) (w : Width) (rd rn : Reg) : Option Instr :=
  let immr := (i.extractLsb' 16 6).toNat
  let imms := (i.extractLsb' 10 6).toNat
  if w = .half ∨ i.getLsbD 22 = false then none
  else match (i.extractLsb' 29 2).toNat with
    | 0 => some (.sbfm rd rn immr imms)
    | 2 => some (.ubfm rd rn immr imms)
    | _ => none

/-- Add or subtract immediate -/
def decodeSumImm (i : BitVec 32) (w : Width) (rd rn : Reg) : Option Instr :=
  let v := (i.extractLsb' 10 12).setWidth 64 <<< (if i.getLsbD 22 then 12 else 0)
  match (i.extractLsb' 29 2).toNat with
  | 0 => some (.addImm w rd rn v)
  | 3 => some (.subsImm w rd rn v)
  | _ => none

/-- Add, subtract or combine shifted registers -/
def decodeShifted (i : BitVec 32) (w : Width) (rd rn rm : Reg) : Option Instr :=
  let shift := (i.extractLsb' 10 6).toNat
  if i.extractLsb' 21 3 ≠ 0 ∨ (w = .half ∧ 32 ≤ shift) then none
  else match (i.extractLsb' 24 5).toNat, (i.extractLsb' 29 2).toNat with
    | 0b01011, 0 => some (.addReg w rd rn rm shift)
    | 0b01011, 2 => some (.subReg w rd rn rm shift)
    | 0b01010, 1 => some (.orrReg w rd rn rm shift)
    | _, _ => none

/-- Loads and stores of general registers with an unsigned offset -/
def decodeAccess (i : BitVec 32) (rt rn : Reg) : Option Instr :=
  let size := 2 ^ (i.extractLsb' 30 2).toNat
  let offset := BitVec.ofNat 64 ((i.extractLsb' 10 12).toNat * size)
  match (i.extractLsb' 22 2).toNat with
  | 0 => some (.str size rt rn offset)
  | 1 => some (.ldr size rt rn offset)
  | _ => none

/-- The offset of a branch or of a load from the code. -/
def relative {k : Nat} (v : BitVec k) : Word := v.signExtend 64 <<< 2

/-- Branches to a register -/
def decodeBranchReg (i : BitVec 32) (rn : Reg) : Option Instr :=
  if i.extractLsb' 10 11 ≠ 0b11111000000 ∨ i.extractLsb' 0 5 ≠ 0 then none
  else match (i.extractLsb' 21 4).toNat with
    | 0 => some (.br rn)
    | 1 => some (.blr rn)
    | 2 => some (.ret rn)
    | _ => none

/-- The instruction of a word, where it is one of those above. -/
def decode (i : BitVec 32) : Option Instr :=
  let w := if i.msb then Width.full else Width.half
  let rd : Reg := i.extractLsb' 0 5
  let rn : Reg := i.extractLsb' 5 5
  let rm : Reg := i.extractLsb' 16 5
  if i.extractLsb' 23 6 = 0b100101 then decodeMove i w rd
  else if i.extractLsb' 23 6 = 0b100100 then decodeLogical i w rd rn
  else if i.extractLsb' 23 6 = 0b100110 then decodeBitfield i w rd rn
  else if i.extractLsb' 23 6 = 0b100010 then decodeSumImm i w rd rn
  else if i.extractLsb' 25 4 = 0b0101 then decodeShifted i w rd rn rm
  else if i.extractLsb' 24 6 = 0b111001 then decodeAccess i rd rn
  else if i.extractLsb' 21 11 = 0b11111000011 ∧ i.extractLsb' 10 6 =
    0b011010 then some (.ldrReg rd rn rm 0)
  else if i.extractLsb' 24 8 = 0b01011000 then some (.ldrLit rd (relative (i.extractLsb' 5 19)))
  else if i.extractLsb' 24 7 = 0b0110100 then some (.cbz w rd (relative (i.extractLsb' 5 19)))
  else if i.extractLsb' 24 8 = 0b01010100 ∧ i.getLsbD 4 = false then
    some (.bCond (i.extractLsb' 0 4) (relative (i.extractLsb' 5 19)))
  else if i.extractLsb' 26 6 = 0b000101 then some (.b (relative (i.extractLsb' 0 26)))
  else if i.extractLsb' 25 7 = 0b1101011 then decodeBranchReg i rn
  else none

/-! ## Runs -/

/-- The instruction at each address. -/
abbrev Code := Word → Option Instr

/-- The instruction word at an address. -/
def wordAt32 (m : Memory) (a : Word) : BitVec 32 := BitVec.ofNat 32 (load m a 4)

/-- The code that a memory holds. -/
def codeIn (m : Memory) : Code := fun a => decode (wordAt32 m a)

def step (code : Code) (s : State) : Option State := (code s.pc).map fun i => exec i s

/-- So many steps. -/
def run (code : Code) : Nat → State → Option State
  | 0, s => some s
  | n + 1, s => (step code s).bind (run code n)

/-- Instructions that are in the code one after the other. -/
def Placed (code : Code) : Word → List Instr → Prop
  | _, [] => True
  | a, i :: is => code a = some i ∧ Placed code (a + 4) is

/-- What instructions without branches do. -/
def execAll (is : List Instr) (s : State) : State := is.foldl (fun s i => exec i s) s

/-- Instructions as code, from address 0 on. -/
def listing (is : List Instr) : Code := fun a => is[a.toNat / 4]?

instance decidablePlaced (code : Code) : ∀ a is, Decidable (Placed code a is)
  | _, [] => inferInstanceAs (Decidable True)
  | a, i :: is =>
      have := decidablePlaced code (a + 4) is
      inferInstanceAs (Decidable (code a = some i ∧ Placed code (a + 4) is))

/-- The general registers that a procedure keeps. -/
def calleeSaved : List Reg := [19, 20, 21, 22, 23, 24, 25, 26, 27, 28, 29]

/-- The vector registers whose low halves a procedure keeps. -/
def calleeSavedD : List Reg := [8, 9, 10, 11, 12, 13, 14, 15]

/-- A state has the registers of another that a procedure keeps, and its stack pointer. -/
structure Keeps (s t : State) : Prop where
  x : ∀ r ∈ calleeSaved, t.x r = s.x r
  d : ∀ r ∈ calleeSavedD, t.d r = s.d r
  sp : t.sp = s.sp

/-- An instruction that goes on to the next one. -/
def Instr.Straight : Instr → Bool
  | .cbz .. | .bCond .. | .b .. | .br .. | .blr .. | .ret .. => false
  | _ => true

section Runs

variable {code : Code} {s s' : State} {i : Instr} {is : List Instr} {a : Word} {m n : Nat}

@[simp] theorem State.next_pc : s.next.pc = s.pc + 4 := rfl

@[simp] theorem State.set_pc {r : Reg} {v : Word} : (s.set r v).pc = s.pc := by
  unfold State.set
  split <;> rfl

@[simp] theorem State.setSp_pc {r : Reg} {v : Word} : (s.setSp r v).pc = s.pc := by
  unfold State.setSp
  split <;> rfl

theorem exec_blr_pc {r : Reg} (h : r ≠ 31) : (exec (.blr r) s).pc = s.x r := if_neg h

theorem exec_blr_x {r r' : Reg} (h : r' ≠ 30) : (exec (.blr r) s).x r' = s.x r' :=
    Function.update_of_ne h ..

theorem exec_blr_link {r : Reg} : (exec (.blr r) s).x 30 = s.pc + 4 := by
  simp [exec, State.jump]

theorem exec_blr_d {r : Reg} : (exec (.blr r) s).d = s.d := rfl

theorem exec_blr_mem {r : Reg} : (exec (.blr r) s).mem = s.mem := rfl

theorem exec_ret_x {r : Reg} : (exec (.ret r) s).x = s.x := rfl

theorem exec_ret_d {r : Reg} : (exec (.ret r) s).d = s.d := rfl

theorem exec_ret_sp {r : Reg} : (exec (.ret r) s).sp = s.sp := rfl

theorem exec_ret_mem {r : Reg} : (exec (.ret r) s).mem = s.mem := rfl

theorem exec_ret_pc {r : Reg} (h : r ≠ 31) : (exec (.ret r) s).pc = s.x r := if_neg h

theorem exec_cbz_jump {w : Width} {r : Reg} {offset : Word} (h : w.fit (s.get r) = 0) :
    exec (.cbz w r offset) s = s.jump (s.pc + offset) := if_pos h

theorem exec_cbz_next {w : Width} {r : Reg} {offset : Word} (h : w.fit (s.get r) ≠ 0) :
    exec (.cbz w r offset) s = s.next := if_neg h

theorem exec_bCond_jump {cond : BitVec 4} {offset : Word} (h : s.flags.holds cond = true) :
    exec (.bCond cond offset) s = s.jump (s.pc + offset) := if_pos h

theorem exec_bCond_next {cond : BitVec 4} {offset : Word} (h : s.flags.holds cond = false) :
    exec (.bCond cond offset) s = s.next := if_neg (h ▸ Bool.false_ne_true)

theorem exec_pc (h : i.Straight = true) : (exec i s).pc = s.pc + 4 := by
  cases i <;> simp_all [exec, Instr.Straight, State.setD]

theorem run_add : run code (m + n) s = (run code m s).bind (run code n) := by
  induction m generalizing s with
  | zero => rw [Nat.zero_add, run, Option.bind_some]
  | succ m ih =>
      rw [Nat.succ_add, run, run, Option.bind_assoc]
      exact congrArg (Option.bind (step code s)) (funext fun s' => ih)

theorem step_eq (h : code s.pc = some i) : step code s = some (exec i s) := by
  rw [step, h, Option.map_some]

theorem Placed.append (is is' : List Instr) :
    Placed code a (is ++ is') ↔ Placed code a is ∧
      Placed code (a + 4 * BitVec.ofNat 64 is.length) is' := by
  induction is generalizing a with
  | nil => simp [Placed]
  | cons i is ih =>
      have hnext : a + 4 + 4 * BitVec.ofNat 64 is.length =
          a + 4 * BitVec.ofNat 64 (is.length + 1) := by
        rw [BitVec.ofNat_add, BitVec.mul_add, BitVec.add_assoc, BitVec.add_comm 4]
        rfl
      rw [List.cons_append, Placed, Placed, ih, List.length_cons, hnext, and_assoc]

theorem placed_iff : Placed code a is ↔ ∀ k, (hk : k < is.length) →
    code (a + 4 * BitVec.ofNat 64 k) = some is[k] := by
  induction is generalizing a with
  | nil => exact iff_of_true trivial fun _ hk => absurd hk (Nat.not_lt_zero _)
  | cons i is ih =>
      have hnext : ∀ k, a + 4 + 4 * BitVec.ofNat 64 k = a + 4 * BitVec.ofNat 64 (k + 1) :=
        fun k => by
        rw [BitVec.ofNat_add, BitVec.mul_add, BitVec.add_assoc, BitVec.add_comm 4]
        rfl
      rw [Placed, ih]
      constructor
      · rintro ⟨hfirst, hrest⟩ k hk
        cases k with
        | zero => simpa using hfirst
        | succ k => exact hnext k ▸ hrest k (Nat.lt_of_succ_lt_succ hk)
      · intro h
        exact ⟨by simpa using h 0 (Nat.succ_pos _),
          fun k hk => hnext k ▸ h (k + 1) (Nat.succ_lt_succ hk)⟩

/-- A block without branches runs through. -/
theorem run_block (hplaced : Placed code s.pc is) (hstraight : ∀ i ∈ is, i.Straight = true) :
    run code is.length s = some (execAll is s) := by
  induction is generalizing s with
  | nil => rfl
  | cons i is ih =>
      have hpc : (exec i s).pc = s.pc + 4 := exec_pc (hstraight i (List.mem_cons_self ..))
      rw [List.length_cons, run, step_eq hplaced.1, Option.bind_some]
      exact ih (hpc ▸ hplaced.2) fun j hj => hstraight j (List.mem_cons_of_mem _ hj)

theorem execAll_pc (h : ∀ i ∈ is, i.Straight = true) :
    (execAll is s).pc = s.pc + 4 * BitVec.ofNat 64 is.length := by
  induction is generalizing s with
  | nil => simp [execAll]
  | cons i is ih =>
      have hrest := ih (s := exec i s) fun j hj => h j (List.mem_cons_of_mem _ hj)
      rw [exec_pc (h i (List.mem_cons_self ..))] at hrest
      show (execAll is (exec i s)).pc = _
      rw [hrest, List.length_cons, BitVec.ofNat_add, BitVec.mul_add, BitVec.add_assoc,
        BitVec.add_comm 4]
      rfl

/-- A block without branches and the instruction after it. -/
theorem run_block_then (is : List Instr) (hplaced : Placed code s.pc (is ++ [i]))
    (hstraight : ∀ i ∈ is, i.Straight = true) :
    run code (is.length + 1) s = some (exec i (execAll is s)) := by
  obtain ⟨hblock, hlast⟩ := (Placed.append ..).1 hplaced
  rw [run_add, run_block hblock hstraight, Option.bind_some, run, step_eq, Option.bind_some, run]
  rw [execAll_pc hstraight]
  exact hlast.1

end Runs

end Asnx.A64
