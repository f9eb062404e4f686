import Asnx.Library.A64
import Asnx.Library.Bits

/-!
# The guest's own stack

`guest_stack_call` runs a procedure on a stack of its own, by way of the assembly in
`guest_stack_switch.s`. The procedure starts at the end of that stack, which is what
`pthread_getattr_np` reports for it, and its return is the return of the call, with all that a
procedure keeps (`guest_stack_call_returns`).
-/

namespace Asnx.Runtime

open A64 ByteMemory

/-- `guest_stack_call_asm` -/
def guestStackCallAsm : List Instr :=
  [.stp 19 30 31 (-16) .pre,
   -- mov x19, sp
   .addImm .full 19 31 0,
   .andImm 9 0 0xfffffffffffffff0,
   -- mov sp, x9
   .addImm .full 31 9 0,
   -- mov x0, x2
   .orrReg .full 0 31 2 0,
   .blr 1,
   -- mov sp, x19
   .addImm .full 31 19 0,
   .ldp 19 30 31 16 .post,
   .ret 30]

/-- `g_stack` and `g_stack_size`, with `g_main_stack_lo` and `g_main_stack_hi` of `bionic.c`. -/
structure GuestStack where
  stack : Word
  stackSize : Word
  mainStackLo : Word
  mainStackHi : Word
  deriving DecidableEq

/-- `bionic_set_main_stack_range` -/
def GuestStack.setMainStackRange (g : GuestStack) (base size : Word) : GuestStack :=
  { g with mainStackLo := base, mainStackHi := if base ≠ 0 then base + size else 0 }

/-- The size of the stack that `guest_stack_init` makes when asked for so many bytes. -/
def stackBytes (bytes : Word) : Word :=
  let bytes := if bytes < 2 * 1024 * 1024 then 2 * 1024 * 1024 else bytes
  (bytes + 0xfff) &&& ~~~0xfff#64

/-- `guest_stack_init`, where `memalign` is given the size only -/
def guestStackInit (memalign : Word → Word) (bytes : Word) (g : GuestStack) : Int × GuestStack :=
  if g.stack ≠ 0 then (0, g)
  else if memalign (stackBytes bytes) = 0 then (-1, { g with stack := 0 })
  else (0, { g with stack := memalign (stackBytes bytes), stackSize := stackBytes bytes }.setMainStackRange
    (memalign (stackBytes bytes)) (stackBytes bytes))

/-- `guest_stack_shutdown` -/
def guestStackShutdown (g : GuestStack) : GuestStack :=
  if g.stack = 0 then g else { g.setMainStackRange 0 0 with stack := 0, stackSize := 0 }

/-- What `guest_stack_call` calls. -/
inductive GuestCall where
  | refused
  | direct (fn arg : Word)
  | onStack (top fn arg : Word)
  deriving DecidableEq

/-- `guest_stack_call` -/
def guestStackCall (g : GuestStack) (fn arg : Word) : GuestCall :=
  if fn = 0 then .refused
  else if g.stack = 0 ∨ g.stackSize < 0x1000 then .direct fn arg
  else .onStack ((g.stack + g.stackSize) &&& ~~~0xf#64) fn arg

/-- `attr_fill_current_stack`, at a stack pointer and with the answer of `svcQueryMemory`: base and
size. -/
def attrFillCurrentStack (g : GuestStack) (queryMemory : Word → Option (Word × Word)) (sp : Word) :
    Option (Word × Word) :=
  if g.mainStackLo ≠ 0 ∧ g.mainStackLo ≤ sp ∧ sp < g.mainStackHi then
    some (g.mainStackLo, g.mainStackHi - g.mainStackLo)
  else (queryMemory sp).filter fun region => region.1 ≠ 0 ∧ region.2 ≠ 0

/-- `memalign` returns blocks that start at a page and end within the address space. -/
def Aligning (memalign : Word → Word) : Prop :=
  ∀ n, memalign n ≠ 0 → (memalign n).toNat % 0x1000 = 0 ∧ (memalign n).toNat + n.toNat < 2 ^ 64

/-- The states after calls of `guest_stack_init` and `guest_stack_shutdown`. -/
inductive GuestStack.Reachable : GuestStack → Prop where
  | start : Reachable ⟨0, 0, 0, 0⟩
  | init {g : GuestStack} {memalign : Word → Word} (bytes : Word) (h : Reachable g)
    (haligning : Aligning memalign) :
      Reachable (guestStackInit memalign bytes g).2
  | shutdown {g : GuestStack} (h : Reachable g) : Reachable (guestStackShutdown g)

/-- There is no stack, or the stack is a block of pages, of which the pointers to the main stack
are the ends. -/
structure GuestStack.Valid (g : GuestStack) : Prop where
  none : g.stack = 0 → g.stackSize = 0 ∧ g.mainStackLo = 0 ∧ g.mainStackHi = 0
  lo : g.mainStackLo = g.stack
  hi : g.stack ≠ 0 → g.mainStackHi = g.stack + g.stackSize
  base_pages : g.stack.toNat % 0x1000 = 0
  size_pages : g.stackSize.toNat % 0x1000 = 0
  fits : g.stack.toNat + g.stackSize.toNat < 2 ^ 64

section Blocks

variable {g : GuestStack} {memalign : Word → Word} {bytes sp fn arg top : Word}

/-- A number of pages is a multiple of the page size. -/
theorem toNat_pages (n : Word) : (n &&& ~~~0xfff#64).toNat % 0x1000 = 0 := by
  rw [Bits.toNat_and_high (k := 12) (by decide) (by decide)]
  exact Nat.mul_mod_left ..

/-- A multiple of 16 is left alone by the mask. -/
theorem toNat_quads {n : Word} (h : n.toNat % 16 = 0) : n &&& ~~~0xf#64 = n := by
  apply BitVec.eq_of_toNat_eq
  rw [Bits.toNat_and_high (k := 4) (by decide) (by decide)]
  exact Nat.div_mul_cancel (Nat.dvd_of_mod_eq_zero h)

/-- Setting the stack up keeps the invariant. -/
theorem GuestStack.Valid.init (h : g.Valid) (haligning : Aligning memalign) :
    (guestStackInit memalign bytes g).2.Valid := by
  unfold guestStackInit
  split_ifs with hstack hp
  · exact h
  · obtain ⟨hsize, hlo, hhi⟩ := h.none (not_not.1 hstack)
    exact ⟨fun _ => ⟨hsize, hlo, hhi⟩, hlo, fun hne =>
      absurd rfl hne, rfl, h.size_pages, by simp [hsize]⟩
  · obtain ⟨hbase, hfits⟩ := haligning _ hp
    exact ⟨fun hzero => absurd hzero hp, rfl, fun _ => if_pos hp, hbase, toNat_pages _, hfits⟩

/-- So does giving it back. -/
theorem GuestStack.Valid.shutdown (h : g.Valid) : (guestStackShutdown g).Valid := by
  unfold guestStackShutdown
  split_ifs with hstack
  · exact h
  · exact ⟨fun _ => ⟨rfl, rfl, rfl⟩, rfl, fun hne => absurd rfl hne, rfl, rfl, Nat.two_pow_pos 64⟩

/-- Every reachable stack satisfies it. -/
theorem GuestStack.Reachable.valid (h : g.Reachable) : g.Valid := by
  induction h with
  | start =>
      exact ⟨fun _ => ⟨rfl, rfl, rfl⟩, rfl, fun hne => absurd rfl hne, rfl, rfl, Nat.two_pow_pos 64⟩
  | init bytes _ haligning ih => exact ih.init haligning
  | shutdown _ ih => exact ih.shutdown

/-- The end of the stack. -/
theorem GuestStack.Valid.toNat_end (h : g.Valid) :
    (g.stack + g.stackSize).toNat = g.stack.toNat + g.stackSize.toNat := by
  have hfits := h.fits
  rw [BitVec.toNat_add, Nat.mod_eq_of_lt hfits]

/-- The end of the stack is aligned. -/
theorem GuestStack.Valid.end_aligned (h : g.Valid) : (g.stack + g.stackSize).toNat % 16 = 0 := by
  have hbase := h.base_pages
  have hsize := h.size_pages
  rw [h.toNat_end]
  omega

/-- A call on the stack begins at its end. -/
theorem GuestStack.Valid.onStack (h : g.Valid)
    (hcall : guestStackCall g fn arg = .onStack top fn arg) :
    g.stack ≠ 0 ∧ top = g.stack + g.stackSize := by
  unfold guestStackCall at hcall
  split_ifs at hcall with hfn hstack
  rw [toNat_quads h.end_aligned] at hcall
  cases hcall
  exact ⟨fun hzero => hstack (.inl hzero), rfl⟩

/-- The stack that is reported where the stack pointer is in it. -/
theorem GuestStack.Valid.reported (h : g.Valid) (hstack : g.stack ≠ 0)
    (queryMemory : Word → Option (Word × Word)) (hsp : sp ∈ span g.stack g.stackSize.toNat) :
    attrFillCurrentStack g queryMemory sp = some (g.stack, g.stackSize) := by
  obtain ⟨hle, hlt⟩ := (mem_span_iff h.fits.le).1 hsp
  have hhi : sp < g.mainStackHi := by
    rw [h.hi hstack, BitVec.lt_def, h.toNat_end]
    exact hlt
  have hsize : g.mainStackHi - g.mainStackLo = g.stackSize := by
    rw [h.hi hstack, h.lo, BitVec.add_comm, BitVec.add_sub_cancel]
  rw [attrFillCurrentStack, if_pos ⟨h.lo ▸ hstack, h.lo ▸ BitVec.le_def.2 hle, hhi⟩, hsize, h.lo]

end Blocks

section Calls

variable {s u v : State} {code : Code} {a : Word}

/-- What comes before the procedure. -/
def guestEntry : List Instr := guestStackCallAsm.take 5

/-- What comes after it. -/
def guestExit : List Instr := (guestStackCallAsm.drop 6).dropLast

/-- The code up to the call. -/
theorem guestEntry_runs (h : Placed code s.pc guestStackCallAsm) :
    run code 6 s = some (exec (.blr 1) (execAll guestEntry s)) :=
  run_block_then guestEntry
    ((Placed.append (guestStackCallAsm.take 6) (guestStackCallAsm.drop 6)).1 h).1 (by decide)

/-- The code behind the call. -/
theorem guestExit_runs (h : Placed code v.pc (guestStackCallAsm.drop 6)) :
    run code 3 v = some (exec (.ret 30) (execAll guestExit v)) :=
  run_block_then guestExit h (by decide)

theorem guestEntry_x {r : Reg} (h0 : r ≠ 0#5) (h9 : r ≠ 9#5) (h19 : r ≠ 19#5) :
    (execAll guestEntry s).x r = s.x r := by
  simp [guestEntry, guestStackCallAsm, execAll, exec, State.set, State.setSp,
    State.next, h0, h9, h19]

theorem add_neg_sixteen (n : Word) : n + 0xfffffffffffffff0#64 = n - 16#64 := by
  rw [BitVec.sub_eq_add_neg]
  rfl

theorem guestEntry_x19 : (execAll guestEntry s).x 19 = s.sp - 16 := by
  simp [guestEntry, guestStackCallAsm, execAll, exec, State.get, State.getSp, State.set,
    State.setSp, State.next,
    Mode.base, Width.fit, add_neg_sixteen]

theorem guestEntry_x0 : (execAll guestEntry s).x 0 = s.x 2 := by
  simp [guestEntry, guestStackCallAsm, execAll, exec, State.get, State.getSp, State.set,
    State.setSp, State.next,
    Width.fit]

theorem guestEntry_sp : (execAll guestEntry s).sp = s.x 0 &&& ~~~0xf#64 := by
  simp [guestEntry, guestStackCallAsm, execAll, exec, State.get, State.getSp, State.set,
    State.setSp, State.next,
    Width.fit]

theorem guestEntry_d : (execAll guestEntry s).d = s.d := by
  simp [guestEntry, guestStackCallAsm, execAll, exec, State.set, State.setSp, State.next]

theorem guestEntry_mem : (execAll guestEntry s).mem =
    storeWords s.mem (s.sp - 16) [s.x 19, s.x 30] := by
  simp [guestEntry, guestStackCallAsm, execAll, exec, State.get, State.getSp, State.set,
    State.setSp, State.next,
    Mode.address, storeWords, storeRow, store_eight, add_neg_sixteen]

theorem guestExit_x {r : Reg} (h19 : r ≠ 19#5) (h30 : r ≠ 30#5) :
    (execAll guestExit v).x r = v.x r := by
  simp [guestExit, guestStackCallAsm, execAll, exec, State.set, State.setSp, State.next, h19, h30]

theorem guestExit_x19 : (execAll guestExit v).x 19 = load64 v.mem (v.x 19) := by
  simp [guestExit, guestStackCallAsm, execAll, exec, State.getSp, State.set, State.setSp,
    State.next, Mode.address,
    Width.fit]

theorem guestExit_x30 : (execAll guestExit v).x 30 = load64 v.mem (v.x 19 + 8) := by
  simp [guestExit, guestStackCallAsm, execAll, exec, State.getSp, State.set, State.setSp,
    State.next, Mode.address,
    Width.fit]

theorem guestExit_sp : (execAll guestExit v).sp = v.x 19 + 16 := by
  simp [guestExit, guestStackCallAsm, execAll, exec, State.getSp, State.set, State.setSp,
    State.next, Mode.base,
    Width.fit]

theorem guestExit_d : (execAll guestExit v).d = v.d := by
  simp [guestExit, guestStackCallAsm, execAll, exec, State.set, State.setSp, State.next]

theorem guestExit_mem : (execAll guestExit v).mem = v.mem := by
  simp [guestExit, guestStackCallAsm, execAll, exec, State.set, State.setSp, State.next]

/-- A call on the guest's stack enters the procedure with its argument at the end of that stack,
which is the stack that is reported for it wherever in it the stack pointer is. However the
procedure goes on, once it returns as procedures do, and without having written to the 16 bytes
below the caller's stack pointer, the call returns what it returns, with everything that a
procedure keeps. -/
theorem guest_stack_call_returns {g : GuestStack} (hg : g.Reachable) {fn arg top : Word}
    (hcall : guestStackCall g fn arg = .onStack top fn arg)
    (hplaced : Placed code a guestStackCallAsm)
    (hpc : s.pc = a) (htop : s.x 0 = top) (hfn : s.x 1 = fn) (harg : s.x 2 = arg) :
    ∃ u, run code 6 s = some u ∧ u.pc = fn ∧ u.x 0 = arg ∧ u.sp = g.stack + g.stackSize ∧
      u.sp.toNat % 16 = 0 ∧
      (∀ queryMemory, ∀ sp ∈ span g.stack g.stackSize.toNat,
        attrFillCurrentStack g queryMemory sp = some (g.stack, g.stackSize)) ∧
      (∀ x ∉ span (s.sp - 16) 16, u.mem x = s.mem x) ∧
      ∀ n v, run code n u = some v → v.pc = u.x 30 → Keeps u v →
        (∀ x ∈ span (s.sp - 16) 16, v.mem x = u.mem x) →
        ∃ t, run code (6 + n + 3) s = some t ∧ t.pc = s.x 30 ∧ t.x 0 = v.x 0 ∧ Keeps s t ∧
          t.mem = v.mem := by
  subst hpc
  obtain ⟨hstack, rfl⟩ := hg.valid.onStack hcall
  have hsp : (execAll guestEntry s).sp = g.stack + g.stackSize := by
    rw [guestEntry_sp, htop, toNat_quads hg.valid.end_aligned]
  refine ⟨_, guestEntry_runs hplaced, ?_, ?_, hsp, ?_, fun q sp =>
    hg.valid.reported hstack q, ?_, ?_⟩
  · rw [exec_blr_pc (by decide), guestEntry_x (by decide) (by decide) (by decide), hfn]
  · rw [exec_blr_x (by decide), guestEntry_x0, harg]
  · exact hsp ▸ hg.valid.end_aligned
  · intro x hx
    rw [exec_blr_mem, guestEntry_mem, storeWords_of_notMem (by simp) hx]
  · intro n v hrun hret hkeeps hmem
    -- the procedure keeps x19, where the old stack pointer is
    have hx19 : v.x 19 = s.sp - 16 := by
      rw [hkeeps.x 19 (by decide), exec_blr_x (by decide), guestEntry_x19]
    have hsaved : ∀ x ∈ span (s.sp - 16) 16, v.mem x =
        storeWords s.mem (s.sp - 16) [s.x 19, s.x 30] x := by
      intro x hx
      rw [hmem x hx, exec_blr_mem, guestEntry_mem]
    -- the two words that were pushed are still there
    have hwords : HoldsWords v.mem (s.sp - 16) [s.x 19, s.x 30] :=
      holdsWords_of_stored (by simp) hsaved
    -- the procedure returns to the instruction behind the call
    have hexit : Placed code v.pc (guestStackCallAsm.drop 6) := by
      have hlater := (Placed.append (guestStackCallAsm.take 6) (guestStackCallAsm.drop 6)).1 hplaced
      rw [hret, exec_blr_link, execAll_pc (by decide), BitVec.add_assoc]
      exact hlater.2
    refine ⟨exec (.ret 30) (execAll guestExit v), ?_, ?_, ?_, ⟨?_, ?_, ?_⟩, ?_⟩
    · rw [run_add, run_add, guestEntry_runs hplaced, Option.bind_some, hrun, Option.bind_some,
        guestExit_runs hexit]
    · rw [exec_ret_pc (by decide), guestExit_x30, hx19]
      exact hwords.get (k := 1) rfl
    · rw [exec_ret_x, guestExit_x (by decide) (by decide)]
    · intro r hr
      by_cases h19 : r = 19
      · rw [h19, exec_ret_x, guestExit_x19, hx19, hwords.head]
      · have hne : r ≠ 30 ∧ r ≠ 0 ∧ r ≠ 9 := by
          revert r
          decide
        rw [exec_ret_x, guestExit_x h19 hne.1, hkeeps.x r hr, exec_blr_x hne.1,
          guestEntry_x hne.2.1 hne.2.2 h19]
    · intro r hr
      rw [exec_ret_d, guestExit_d, hkeeps.d r hr, exec_blr_d, guestEntry_d]
    · rw [exec_ret_sp, guestExit_sp, hx19, BitVec.sub_add_cancel]
    · rw [exec_ret_mem, guestExit_mem]

/-- The call and, at address 0x24, a procedure that returns its argument. -/
def guestCode : Code := listing (guestStackCallAsm ++ [.ret 30])

/-- A stack of 2 MiB at address 0x10000. -/
def guestStackAt : GuestStack := (guestStackInit (fun _ => 0x10000) 4096 ⟨0, 0, 0, 0⟩).2

/-- The call of the procedure with argument 5. -/
def guestCaller : State :=
  ⟨fun r => if r = 0 then 0x210000 else if r = 1 then 0x24 else if r = 2 then 5 else 0x77, 0x9000,
    fun _ => 3, 0,
    ⟨false, false, false, false⟩, fun _ => 0⟩

theorem guestStackAt_reachable : guestStackAt.Reachable := by
  have hinit : guestStackAt =
      (guestStackInit (fun n => if n = 0x200000 then 0x10000 else 0) 4096 ⟨0, 0, 0, 0⟩).2 := by
    decide
  rw [hinit]
  refine .init _ .start fun n hn => ?_
  split_ifs at hn with h
  · rw [if_pos h, h]
    decide
  · exact absurd rfl hn

/-- The procedure runs on the stack, and the call returns 5. -/
theorem guest_stack_call_returns_small : ∃ t, run guestCode 10 guestCaller = some t ∧
    t.pc = 0x77 ∧ t.x 0 = 5 ∧
    Keeps guestCaller t := by
  obtain ⟨u, -, hpc, hx0, -, -, -, -, hrest⟩ :=
    @guest_stack_call_returns guestCaller guestCode 0 guestStackAt guestStackAt_reachable 0x24 5
      0x210000 (by decide)
      (by decide) rfl rfl rfl rfl
  have hstep : run guestCode 1 u = some (exec (.ret 30) u) := by
    rw [run, step_eq (i := .ret 30) (hpc ▸ (by decide)), Option.bind_some, run]
  obtain ⟨t, hrun, hret, hvalue, hkeeps, -⟩ :=
    hrest 1 _ hstep (exec_ret_pc (by decide)) ⟨fun _ _ => rfl, fun _ _ => rfl, rfl⟩ fun _ _ => rfl
  exact ⟨t, hrun, hret, hvalue.trans hx0, hkeeps⟩

end Calls

end Asnx.Runtime
