import Asnx.Library.A64

/-!
# `setjmp` and `longjmp`

The code of `bionic_setjmp` and `bionic_longjmp`. What the first puts into the environment is all
that a callee must keep, so that the second takes any later state back to where the first returned
(`longjmp_returns`).
-/

namespace Asnx.Bionic

open A64 ByteMemory

/-- `bionic_setjmp` -/
def bionicSetjmp : List Instr :=
  [.stp 19 20 0 0 .fixed,
   .stp 21 22 0 16 .fixed,
   .stp 23 24 0 32 .fixed,
   .stp 25 26 0 48 .fixed,
   .stp 27 28 0 64 .fixed,
   .stp 29 30 0 80 .fixed,
   -- mov x2, sp
   .addImm .full 2 31 0,
   .str 8 2 0 96,
   .stpD 8 9 0 104,
   .stpD 10 11 0 120,
   .stpD 12 13 0 136,
   .stpD 14 15 0 152,
   .str 8 18 0 168,
   -- mov w0, wzr
   .orrReg .half 0 31 31 0,
   .ret 30]

/-- `bionic_longjmp` -/
def bionicLongjmp : List Instr :=
  [.ldr 8 3 0 96,
   .ldpD 8 9 0 104,
   .ldpD 10 11 0 120,
   .ldpD 12 13 0 136,
   .ldpD 14 15 0 152,
   .ldr 8 18 0 168,
   .ldp 19 20 0 0 .fixed,
   .ldp 21 22 0 16 .fixed,
   .ldp 23 24 0 32 .fixed,
   .ldp 25 26 0 48 .fixed,
   .ldp 27 28 0 64 .fixed,
   .ldp 29 30 0 80 .fixed,
   -- mov sp, x3
   .addImm .full 31 3 0,
   -- cmp w1, #0
   .subsImm .half 31 1 0,
   .movz .half 2 1,
   -- csel w0, w1, w2, ne
   .csel .half 0 1 2 1,
   .ret 30]

/-- The words that `bionic_setjmp` saves, as they lie in the environment. -/
def jmpWords (s : State) : List Word :=
  [s.x 19, s.x 20, s.x 21, s.x 22, s.x 23, s.x 24, s.x 25, s.x 26, s.x 27, s.x 28, s.x 29,
    s.x 30, s.sp,
   s.d 8, s.d 9, s.d 10, s.d 11, s.d 12, s.d 13, s.d 14, s.d 15, s.x 18]

/-- The size of what is saved. -/
def jmpBytes : Nat := 176

/-- The general registers that are saved. -/
def jmpRegs : List Reg := [18, 19, 20, 21, 22, 23, 24, 25, 26, 27, 28, 29, 30]

/-- The vector registers whose low halves are saved. -/
def jmpVectors : List Reg := [8, 9, 10, 11, 12, 13, 14, 15]

/-- A state has the saved registers of another. -/
structure Restored (s t : State) : Prop where
  x : ∀ r ∈ jmpRegs, t.x r = s.x r
  sp : t.sp = s.sp
  d : ∀ r ∈ jmpVectors, t.d r = s.d r

/-- What `setjmp` returns the second time: the value given to `longjmp`, or 1 if that is 0. -/
def longjmpValue (v : Word) : Word := if v.setWidth 32 = 0 then 1 else Width.half.fit v

section Jumps

variable {s t : State} {code : Code} {a b : Word}

theorem setjmp_saves : (execAll bionicSetjmp.dropLast s).mem =
    storeWords s.mem (s.x 0) (jmpWords s) := by
  simp [bionicSetjmp, execAll, exec, storeWords, storeRow, jmpWords, State.get, State.getSp,
    State.set, State.setSp,
    State.next, Mode.address, Mode.base, BitVec.add_assoc, Width.fit, store_eight]

theorem setjmp_keeps : Restored s (execAll bionicSetjmp.dropLast s) := by
  constructor
  · simp [jmpRegs, bionicSetjmp, execAll, exec, State.set, State.setSp, State.next]
  · simp [bionicSetjmp, execAll, exec, State.set, State.setSp, State.next]
  · simp [bionicSetjmp, execAll, exec, State.set, State.setSp, State.next]

theorem setjmp_returns_zero : (execAll bionicSetjmp.dropLast s).x 0 = 0 := by
  simp [bionicSetjmp, execAll, exec, State.get, State.set, State.setSp, State.next, Width.fit]

theorem longjmp_restores (h : HoldsWords t.mem (t.x 0) (jmpWords s)) :
    Restored s (execAll bionicLongjmp.dropLast t) := by
  have hword : ∀ k v, (jmpWords s)[k]? = some v →
    load64 t.mem (t.x 0 + BitVec.ofNat 64 (8 * k)) = v :=
    fun _ _ => h.get
  constructor
  · simp [jmpRegs, bionicLongjmp, execAll, exec, State.get, State.getSp, State.set, State.setSp,
      State.setD, State.next,
      Mode.address, Mode.base, BitVec.add_assoc, Width.fit]
    exact ⟨hword 21 _ rfl, h.head, hword 1 _ rfl, hword 2 _ rfl, hword 3 _ rfl, hword 4 _ rfl,
      hword 5 _ rfl,
      hword 6 _ rfl, hword 7 _ rfl, hword 8 _ rfl, hword 9 _ rfl, hword 10 _ rfl, hword 11 _ rfl⟩
  · simp [bionicLongjmp, execAll, exec, State.get, State.getSp, State.set, State.setSp,
      State.setD, State.next,
      Mode.address, Mode.base, Width.fit]
    exact hword 12 _ rfl
  · simp [jmpVectors, bionicLongjmp, execAll, exec, State.get, State.getSp, State.set,
      State.setSp, State.setD,
      State.next, Mode.address, Mode.base, BitVec.add_assoc, Width.fit]
    exact ⟨hword 13 _ rfl, hword 14 _ rfl, hword 15 _ rfl, hword 16 _ rfl, hword 17 _ rfl,
      hword 18 _ rfl,
      hword 19 _ rfl, hword 20 _ rfl⟩

theorem longjmp_value : (execAll bionicLongjmp.dropLast t).x 0 = longjmpValue (t.x 1) := by
  simp [bionicLongjmp, execAll, exec, State.get, State.getSp, State.set, State.setSp,
    State.setD, State.next,
    Mode.address, Mode.base, Width.fit, Width.subFlags, subFlags, Flags.holds, longjmpValue]
  split <;> rfl

theorem longjmp_mem : (execAll bionicLongjmp.dropLast t).mem = t.mem := by
  simp [bionicLongjmp, execAll, exec, State.set, State.setSp, State.setD, State.next,
    Mode.base, State.getSp]

theorem Restored.ret (h : Restored s t) : Restored s (exec (.ret 30) t) := ⟨h.x, h.sp, h.d⟩

theorem setjmp_runs (h : Placed code s.pc bionicSetjmp) :
    run code 15 s = some (exec (.ret 30) (execAll bionicSetjmp.dropLast s)) :=
  run_block_then bionicSetjmp.dropLast h (by decide)

theorem longjmp_runs (h : Placed code t.pc bionicLongjmp) :
    run code 17 t = some (exec (.ret 30) (execAll bionicLongjmp.dropLast t)) :=
  run_block_then bionicLongjmp.dropLast h (by decide)

/-- A call of `setjmp` returns 0 with everything that a callee keeps, having written to the
environment only; and whatever happens afterwards, as long as the environment is left alone, a call
of `longjmp` on it takes any state back to where `setjmp` returned, with the registers and the
stack pointer as they were and the given value, or 1 for 0. -/
theorem longjmp_returns (hset : Placed code a bionicSetjmp) (hjmp : Placed code b bionicLongjmp)
    (hs : s.pc = a) :
    ∃ s₁, run code 15 s = some s₁ ∧ s₁.pc = s.x 30 ∧ s₁.x 0 = 0 ∧ Restored s s₁ ∧
      (∀ x ∉ span (s.x 0) jmpBytes, s₁.mem x = s.mem x) ∧
      ∀ t, t.pc = b → t.x 0 = s.x 0 → (∀ x ∈ span (s.x 0) jmpBytes, t.mem x = s₁.mem x) →
        ∃ t₁, run code 17 t = some t₁ ∧ t₁.pc = s₁.pc ∧ t₁.x 0 = longjmpValue (t.x 1) ∧
          Restored s t₁ ∧
          t₁.mem = t.mem := by
  subst hs
  have hpc : (exec (.ret 30) (execAll bionicSetjmp.dropLast s)).pc = s.x 30 :=
    (exec_ret_pc (by decide)).trans (setjmp_keeps.x 30 (by decide))
  refine ⟨_, setjmp_runs hset, hpc, ?_, setjmp_keeps.ret, ?_, ?_⟩
  · rw [exec_ret_x, setjmp_returns_zero]
  · intro x hx
    rw [exec_ret_mem, setjmp_saves]
    exact storeWords_of_notMem (by simp [jmpWords]) hx
  · rintro t rfl henv hmem
    have hsaved : ∀ x ∈ span (s.x 0) jmpBytes, t.mem x =
        storeWords s.mem (s.x 0) (jmpWords s) x := by
      intro x hx
      rw [hmem x hx, exec_ret_mem, setjmp_saves]
    have hkept : Restored s (execAll bionicLongjmp.dropLast t) :=
      longjmp_restores (henv ▸ holdsWords_of_stored (by simp [jmpWords]) hsaved)
    refine ⟨_, longjmp_runs hjmp, ?_, ?_, hkept.ret, ?_⟩
    · rw [hpc, exec_ret_pc (by decide), hkept.x 30 (by decide)]
    · rw [exec_ret_x, longjmp_value]
    · rw [exec_ret_mem, longjmp_mem]

/-- Both procedures, `bionic_longjmp` at address 60. -/
def jumpCode : Code := listing (bionicSetjmp ++ bionicLongjmp)

/-- A call of `bionic_setjmp` from address 0x1000. -/
def jumpCall : State :=
  ⟨fun r => if r = 30 then 0x1004 else if r = 0 then 0x8000 else 7, 0x9000, fun _ =>
    3, 0, ⟨false, false, false, false⟩,
    fun _ => 0⟩

/-- The environment is used once more, with the value 5 and other registers. -/
theorem longjmp_returns_small : ∃ s₁ t t₁, run jumpCode 15 jumpCall = some s₁ ∧ s₁.pc = 0x1004 ∧
    run jumpCode 17 t = some t₁ ∧ t.sp = 0 ∧ t₁.pc = 0x1004 ∧ t₁.sp = 0x9000 ∧ t₁.x 0 = 5 := by
  obtain ⟨s₁, hrun, hpc, -, -, -, hjmp⟩ :=
    @longjmp_returns jumpCall jumpCode 0 60 (by decide) (by decide) rfl
  obtain ⟨t₁, hrun₁, hpc₁, hvalue, hkept, -⟩ :=
    hjmp ⟨fun r => if r = 0 then 0x8000 else 5, 0, fun _ =>
      0, 60, ⟨true, true, true, true⟩, s₁.mem⟩ rfl rfl
      fun _ _ => rfl
  exact ⟨s₁, _, t₁, hrun, hpc, hrun₁, rfl, hpc₁.trans hpc, hkept.sp, hvalue⟩

end Jumps

end Asnx.Bionic
