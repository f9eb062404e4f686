import Asnx.Unity.Attempts

/-!
# Code that has been replaced

What the instructions at three of the places do, before and after. The guard of FMOD's partial
release goes on with the same state unless the pointer that crashed it is null (`fmod_guard`), and
so does the guard of low allocations unless the pointer is below its bound (`low_alloc_guard`). The
entry of the time manager's update goes to a hook, which counts and tests as the code there did
(`time_hook_replaces`).
-/

namespace Asnx.Unity

open A64 ByteMemory Loader Overwriting

variable {m : SoModule} {mem : Memory} {off : Word} {ws : List (BitVec 32)} {is : List Instr}
    {s : State} {code : Code}

/-- Words that are held are the code there. -/
theorem placed_of_held (hheld : (codeRow m off ws).Held mem)
    (hdecode : ws.map decode = is.map some) :
    Placed (codeIn mem) (m.loadVirtbase + off) is := by
  induction ws generalizing off is with
  | nil =>
      obtain rfl : is = [] := List.map_eq_nil_iff.1 hdecode.symm
      trivial
  | cons w ws ih =>
      obtain ⟨i, is, rfl⟩ : ∃ i is', is = i :: is' :=
        List.exists_cons_of_ne_nil fun hnil => by simp [hnil] at hdecode
      obtain ⟨hw, hws⟩ := List.cons_eq_cons.1 hdecode
      obtain ⟨hfirst, hrest⟩ := held_cons.1 hheld
      refine ⟨(congrArg decode hfirst).trans hw, ?_⟩
      rw [BitVec.add_assoc]
      exact ih hrest hws

/-! ## The guard of FMOD's partial release -/

/-- The code at the place. -/
def fmodOriginal : List Instr :=
  [.ldr 8 8 0 0x188, .movz .half 9 0x9d98, .orrReg .full 19 31 0 0, .addImm .full 29 31 0x40,
    .ldrReg 21 8 9 0,
    .orrReg .half 20 31 1 0]

/-- What comes before the test of the pointer in the new code. -/
def fmodSetup : List Instr := [.orrReg .full 19 31 0 0, .orrReg .half 20 31 1 0, .ldr 8 8 19 0x188]

/-- What comes after it. -/
def fmodLoads : List Instr := [.movz .half 9 0x9d98, .ldrReg 21 8 9 0]

def fmodTest : Instr := .cbz .full 8 0x5e4

theorem decode_fmodFrom : fmodFrom.map decode = fmodOriginal.map some := by decide

theorem decode_fmodTo : fmodTo.map decode = (fmodSetup ++ [fmodTest] ++ fmodLoads).map some := by
    decide

/-- The pointer that the code takes from its object. -/
def fmodSystem (s : State) : Word := load64 s.mem (s.x 0 + 0x188)

theorem fmodSetup_get : (execAll fmodSetup s).get 8 = fmodSystem s := by
  simp [fmodSetup, execAll, exec, State.set, State.get, State.getSp, State.next, fmodSystem, load64]

theorem fmodTest_next (h : fmodSystem s ≠ 0) : exec fmodTest (execAll fmodSetup s) =
    (execAll fmodSetup s).next := by
  refine exec_cbz_next ?_
  rw [Width.fit_full, fmodSetup_get]
  exact h

theorem fmodTest_jump (h : fmodSystem s = 0) :
    exec fmodTest (execAll fmodSetup s) = (execAll fmodSetup s).jump (s.pc + 0x5f0) := by
  have hzero : Width.full.fit ((execAll fmodSetup s).get 8) = 0 := by
    rw [Width.fit_full, fmodSetup_get]
    exact h
  have hpc : (execAll fmodSetup s).pc + 0x5e4 = s.pc + 0x5f0 := by
    rw [execAll_pc (by decide), BitVec.add_assoc]
    rfl
  rw [fmodTest, exec_cbz_jump hzero, hpc]

/-- With a pointer the new code does what the old code does, but for the frame pointer. -/
theorem fmodLoads_eq : execAll fmodLoads (execAll fmodSetup s).next =
    { execAll fmodOriginal s with
      x := Function.update (execAll fmodOriginal s).x 29 (s.x 29) } := by
  simp only [fmodLoads, fmodSetup, fmodOriginal, execAll, exec, State.set, State.setSp,
    State.get, State.getSp,
    State.next, List.foldl_cons, List.foldl_nil, Width.fit_full]
  simp [load64]
  funext r
  simp only [Function.update_apply]
  split_ifs <;> simp_all

/-- The state at the end of the null path. -/
theorem fmodSetup_eq : execAll fmodSetup s =
    { s with
      x := Function.update (Function.update (Function.update s.x 19 (s.x 0)) 20
        (Width.half.fit (s.x 1))) 8
        (fmodSystem s)
      pc := s.pc + 12 } := by
  simp [fmodSetup, execAll, exec, State.set, State.get, State.getSp, State.next, fmodSystem, load64,
    BitVec.add_assoc]

/-- Where the pointer is not null, the new code takes a state where the old code takes it, but for
the frame pointer, which it leaves alone. Where it is null, it goes to the cleanup with the two
arguments in the registers in which the old code keeps them. -/
theorem fmod_guard {old new : Memory}
    (hold : (codeRow m offFmodPartialReleasePrologue fmodFrom).Held old)
    (hnew : (codeRow m offFmodPartialReleasePrologue fmodTo).Held new)
    (hpc : s.pc = m.loadVirtbase + offFmodPartialReleasePrologue) :
    (fmodSystem s ≠ 0 → ∃ t, run (codeIn old) 6 s = some t ∧ t.pc = s.pc + 24 ∧
      run (codeIn new) 6 s = some { t with x := Function.update t.x 29 (s.x 29) }) ∧
    (fmodSystem s = 0 → run (codeIn new) 4 s = some { s with
      x := Function.update (Function.update (Function.update s.x 19 (s.x 0)) 20
        (Width.half.fit (s.x 1))) 8 0
      pc := m.loadVirtbase + offFmodPartialReleaseNullCleanup }) := by
  have hplaced : Placed (codeIn old) s.pc fmodOriginal := hpc ▸ placed_of_held hold decode_fmodFrom
  have hplaced' : Placed (codeIn new) s.pc (fmodSetup ++ [fmodTest] ++ fmodLoads) :=
    hpc ▸ placed_of_held hnew decode_fmodTo
  obtain ⟨htest, hloads⟩ := (Placed.append ..).1 hplaced'
  have hrun : run (codeIn new) 4 s = some (exec fmodTest (execAll fmodSetup s)) :=
    run_block_then fmodSetup htest (by decide)
  constructor
  · intro hsystem
    have hstart : (execAll fmodSetup s).next.pc = s.pc + 16 := by
      rw [State.next_pc, execAll_pc (by decide), BitVec.add_assoc]
      rfl
    refine ⟨execAll fmodOriginal s, run_block hplaced (by decide), execAll_pc (by decide), ?_⟩
    have hrest : run (codeIn new) 2 (execAll fmodSetup s).next =
      some (execAll fmodLoads (execAll fmodSetup s).next) :=
      run_block (hstart ▸ hloads) (by decide)
    rw [show 6 = 4 + 2 from rfl, run_add, hrun, Option.bind_some, fmodTest_next hsystem, hrest,
      fmodLoads_eq]
  · intro hsystem
    have htarget : s.pc + 0x5f0 = m.loadVirtbase + offFmodPartialReleaseNullCleanup := by
      rw [hpc, BitVec.add_assoc]
      rfl
    rw [hrun, fmodTest_jump hsystem, htarget, fmodSetup_eq, hsystem]
    rfl

/-- A machine with all registers 0, at a place of the small library. -/
def idle (off : Word) (mem : Memory) : State :=
  ⟨fun _ => 0, 0, fun _ => 0, smallModule.loadVirtbase + off, ⟨false, false, false, false⟩, mem⟩

/-- A memory in which the object at 0 has the pointer 1. -/
def smallObject : Memory := fun a => if a = 0x188 then 1 else 0

/-- The null pointer, and a pointer to an object. -/
theorem fmod_guard_small :
    (let new := (codeRow smallModule offFmodPartialReleasePrologue fmodTo).write fun _ => 0
     let s := idle offFmodPartialReleasePrologue fun _ => 0
     run (codeIn new) 4 s = some { s with
      x := Function.update (Function.update (Function.update (fun _ => 0) 19 0) 20 0) 8 0
      pc := 0x11961D30 }) ∧
    let old := (codeRow smallModule offFmodPartialReleasePrologue fmodFrom).write fun _ => 0
    let new := (codeRow smallModule offFmodPartialReleasePrologue fmodTo).write fun _ => 0
    let s := idle offFmodPartialReleasePrologue smallObject
    ∃ t, run (codeIn old) 6 s = some t ∧ t.pc = s.pc + 24 ∧
      run (codeIn new) 6 s = some { t with x := Function.update t.x 29 0 } := by
  have hold := Row.held_write (m := fun _ => 0)
    (codeRow_fits (m := smallModule) (p := (offFmodPartialReleasePrologue, fmodFrom)) (by decide))
  have hnew := Row.held_write (m := fun _ => 0)
    (codeRow_fits (m := smallModule) (p := (offFmodPartialReleasePrologue, fmodTo)) (by decide))
  exact ⟨(fmod_guard (s := idle offFmodPartialReleasePrologue _) hold hnew rfl).2 (by decide),
    (fmod_guard (s := idle offFmodPartialReleasePrologue smallObject) hold hnew rfl).1 (by decide)⟩

/-! ## The guard of low allocations -/

/-- The halves of the code at the place, before and after the instructions that stay. -/
def lowOriginal : List Instr × List Instr :=
  ([.cbz .full 0 0x4c, .sbfm 8 20 0 31], [.addReg .full 9 0 8 0, .subReg .full 8 31 8 0])

def lowPatched : List Instr × List Instr :=
  ([.subsImm .full 31 0 0x400000, .bCond 3 0x48], [.addReg .full 9 0 20 0, .subReg .full 8 31 20 0])

/-- States of the old and the new code between the two halves: the size is in register 8 of the old
code as well. -/
structure LowAgree (s t : State) : Prop where
  same : ∃ v f, t = { s with x := Function.update s.x 8 v, flags := f }
  size : s.x 8 = s.x 20

/-- A size of 32 bits with its sign. -/
def Signed (v : Word) : Prop := (v.setWidth 32).signExtend 64 = v

theorem holds_lower (a b : Word) : (subFlags a b).holds 3 = decide (a.toNat < b.toNat) := by
  by_cases h : b.toNat ≤ a.toNat
  · simp [subFlags, Flags.holds, h]
  · simp [subFlags, Flags.holds, h, Nat.lt_of_not_le h]

theorem subsImm_eq {v : Word} : exec (.subsImm .full 31 0 v) s =
    { s with flags := subFlags (s.x 0) v, pc := s.pc + 4 } := by
  simp [exec, State.set, State.getSp, State.next, Width.subFlags]

theorem sbfm_size (hsize : Signed (s.x 20)) :
    exec (.sbfm 8 20 0 31) s = { s with x := Function.update s.x 8 (s.x 20), pc := s.pc + 4 } := by
  have hfield : sbfmOf (s.x 20) 0 31 = s.x 20 := hsize
  simp only [exec, State.set, State.get, State.next]
  rw [if_neg (by decide), if_neg (by decide), hfield]

/-- The second halves agree. -/
theorem low_ends_agree {t : State} (h : LowAgree s t) :
    execAll lowPatched.2 t = { execAll lowOriginal.2 s with flags := t.flags } := by
  obtain ⟨⟨v, f, rfl⟩, hsize⟩ := h
  have hsize : s.x 8#5 = s.x 20#5 := hsize
  simp only [lowPatched, lowOriginal, execAll, exec, List.foldl_cons, List.foldl_nil, State.set,
    State.get, State.next,
    Width.fit_full]
  simp [hsize]
  funext r
  simp only [Function.update_apply]
  split_ifs <;> rfl

/-- The address of the place, and of the code after it that stays. -/
def lowCheck (m : SoModule) : Word := m.loadVirtbase + offUnityLowAllocCheck

/-- The code at the four places. -/
theorem low_placed {old new : Memory} (hold : ∀ p ∈ lowAllocPatches, wordOf m old p.off = p.orig)
    (hnew : ∀ p ∈ lowAllocPatches, wordOf m new p.off = p.repl) :
    (Placed (codeIn old) (lowCheck m) lowOriginal.1 ∧
      Placed (codeIn old) (lowCheck m + 16) lowOriginal.2) ∧
    Placed (codeIn new) (lowCheck m) lowPatched.1 ∧
      Placed (codeIn new) (lowCheck m + 16) lowPatched.2 := by
  have hrows : ∀ {mem : Memory} {a b c d : BitVec 32}, wordOf m mem offUnityLowAllocCheck = a →
      wordOf m mem (offUnityLowAllocCheck + 4) = b →
        wordOf m mem (offUnityLowAllocCheck + 0x10) = c →
      wordOf m mem (offUnityLowAllocCheck + 0x14) = d →
        (codeRow m offUnityLowAllocCheck [a, b]).Held mem ∧
      (codeRow m (offUnityLowAllocCheck + 0x10) [c, d]).Held mem := fun ha hb hc hd =>
    ⟨held_cons.2 ⟨ha, held_singleton.2 hb⟩, held_cons.2 ⟨hc, held_singleton.2 hd⟩⟩
  simp only [lowAllocPatches, List.forall_mem_cons] at hold hnew
  obtain ⟨hfirst, hsecond⟩ := hrows hold.1 hold.2.1 hold.2.2.1 hold.2.2.2.1
  obtain ⟨hfirst', hsecond'⟩ := hrows hnew.1 hnew.2.1 hnew.2.2.1 hnew.2.2.2.1
  have hplace : lowCheck m + 16 = m.loadVirtbase + (offUnityLowAllocCheck + 0x10) :=
    BitVec.add_assoc ..
  rw [hplace]
  exact ⟨⟨placed_of_held hfirst (by decide), placed_of_held hsecond (by decide)⟩,
    placed_of_held hfirst' (by decide),
    placed_of_held hsecond' (by decide)⟩

/-- The first half of the old code: a null pointer fails. -/
theorem low_start_null (hplaced : Placed code s.pc lowOriginal.1) (hnull : s.x 0 = 0) :
    run code 1 s = some (s.jump (s.pc + 0x4c)) := by
  rw [run, step_eq hplaced.1, Option.bind_some, exec_cbz_jump (w := .full) (r := 0) hnull, run]

/-- With any other pointer the size is taken. -/
theorem low_start_taken (hplaced : Placed code s.pc lowOriginal.1) (hsize : Signed (s.x 20))
    (hnull : s.x 0 ≠ 0) :
    run code 2 s = some { s with x := Function.update s.x 8 (s.x 20), pc := s.pc + 8 } := by
  obtain ⟨hfirst, hsecond, -⟩ := hplaced
  rw [run, step_eq hfirst, Option.bind_some, exec_cbz_next (w := .full) (r := 0) hnull, run,
    step_eq hsecond, Option.bind_some, run]
  have hnext := sbfm_size (s := s.next) hsize
  rw [hnext, State.next_pc, BitVec.add_assoc]
  rfl

/-- The first half of the new code: what is lower than the bound fails. -/
theorem low_start_patched (hplaced : Placed code s.pc lowPatched.1) : ∃ f, run code 2 s = some
    { s with flags := f,
             pc := if (s.x 0).toNat < unityLowAllocMinBytes.toNat then s.pc + 0x4c else s.pc + 8 } := by
  obtain ⟨hfirst, hsecond, -⟩ := hplaced
  have hcond : (subFlags (s.x 0) unityLowAllocMinBytes).holds 3 =
      decide ((s.x 0).toNat < unityLowAllocMinBytes.toNat) :=
    holds_lower ..
  refine ⟨subFlags (s.x 0) unityLowAllocMinBytes, ?_⟩
  rw [run, step_eq hfirst, Option.bind_some, subsImm_eq, run, step_eq hsecond,
    Option.bind_some, run]
  split_ifs with hlow
  · rw [exec_bCond_jump (hcond.trans (decide_eq_true hlow))]
    simp [State.jump, BitVec.add_assoc]
    rfl
  · rw [exec_bCond_next (hcond.trans (decide_eq_false hlow))]
    simp [State.next, BitVec.add_assoc]
    rfl

/-- A pointer below the bound goes to the code that fails, as null did before, with nothing but the
flags changed. With any other pointer the new code takes a state where the old code takes it, but
for the flags, if the size in register 20 has its sign there, and the two instructions that stay
are blind to register 8 and the flags and leave the size in both registers. -/
theorem low_alloc_guard {old new : Memory}
    (hold : ∀ p ∈ lowAllocPatches, wordOf m old p.off = p.orig)
    (hnew : ∀ p ∈ lowAllocPatches, wordOf m new p.off = p.repl) (hpc : s.pc = lowCheck m) :
    (s.x 0 = 0 → run (codeIn old) 1 s =
      some { s with pc := m.loadVirtbase + offUnityLowAllocFail }) ∧
    ((s.x 0).toNat < unityLowAllocMinBytes.toNat → ∃ f,
      run (codeIn new) 2 s = some
        { s with flags := f, pc := m.loadVirtbase + offUnityLowAllocFail }) ∧
    ((∀ u v, LowAgree u v → u.pc = lowCheck m + 8 → ∃ u' v', run (codeIn old) 2 u = some u' ∧
        run (codeIn new) 2 v = some v' ∧ LowAgree u' v' ∧ u'.pc = lowCheck m + 16) →
      Signed (s.x 20) → unityLowAllocMinBytes.toNat ≤ (s.x 0).toNat → ∃ t f,
        run (codeIn old) 6 s = some t ∧ run (codeIn new) 6 s = some { t with flags := f } ∧
        t.pc = lowCheck m + 24) := by
  obtain ⟨⟨hstart, hend⟩, hstart', hend'⟩ := low_placed hold hnew
  have hfail : s.pc + 0x4c = m.loadVirtbase + offUnityLowAllocFail := by
    rw [hpc, lowCheck, BitVec.add_assoc]
    rfl
  have hplaced : Placed (codeIn old) s.pc lowOriginal.1 := hpc ▸ hstart
  obtain ⟨f, hnewRun⟩ := low_start_patched (hpc ▸ hstart' : Placed (codeIn new) s.pc lowPatched.1)
  refine ⟨fun hzero => hfail ▸ low_start_null hplaced hzero, fun hlow => ⟨f, ?_⟩,
    fun hmiddle hsize hhigh => ?_⟩
  · rw [hnewRun, if_pos hlow, hfail]
  · have hne : s.x 0 ≠ 0 := by
      intro hzero
      rw [hzero] at hhigh
      exact absurd hhigh (by decide)
    have htaken := low_start_taken hplaced hsize hne
    rw [if_neg (Nat.not_lt.2 hhigh)] at hnewRun
    have hagree : LowAgree { s with x := Function.update s.x 8 (s.x 20), pc := s.pc + 8 }
        { s with flags := f, pc := s.pc + 8 } := by
      refine ⟨⟨s.x 8, f, ?_⟩, rfl⟩
      simp
    obtain ⟨u, v, hu, hv, huv, hupc⟩ := hmiddle _ _ hagree (congrArg (· + 8) hpc)
    have hvpc : v.pc = u.pc := by
      obtain ⟨⟨_, _, rfl⟩, -⟩ := huv
      rfl
    have hlast : run (codeIn old) 2 u = some (execAll lowOriginal.2 u) :=
      run_block (hupc ▸ hend) (by decide)
    have hlast' : run (codeIn new) 2 v = some (execAll lowPatched.2 v) :=
      run_block ((hvpc.trans hupc) ▸ hend') (by decide)
    refine ⟨execAll lowOriginal.2 u, v.flags, ?_, ?_, ?_⟩
    · rw [show 6 = 2 + (2 + 2) from rfl, run_add, htaken, Option.bind_some, run_add, hu,
        Option.bind_some, hlast]
    · rw [show 6 = 2 + (2 + 2) from rfl, run_add, hnewRun, Option.bind_some, run_add, hv,
        Option.bind_some, hlast', low_ends_agree huv]
    · rw [execAll_pc (by decide), hupc, BitVec.add_assoc]
      rfl

/-- `mov x1, x1` twice -/
def smallMiddle : List (BitVec 32) := [0xAA0103E1, 0xAA0103E1]

/-- The words of the place, with two that do nothing in the middle. -/
def smallLow (word : HeapPatch → BitVec 32) : Memory :=
  writeAll (rowsOf smallModule
    ((offUnityLowAllocCheck + 8, smallMiddle) :: lowAllocPatches.map fun p => (p.off, [word p])))
      fun _ => 0

theorem smallMiddle_run (hplaced :
    Placed code s.pc [.orrReg .full 1 31 1 0, .orrReg .full 1 31 1 0]) :
    run code 2 s = some { s with pc := s.pc + 8 } := by
  refine (run_block hplaced (by decide)).trans ?_
  simp [execAll, exec, State.set, State.get, State.next, BitVec.add_assoc]

/-- A pointer below the bound that is not null, and one above it. -/
theorem low_alloc_guard_small :
    (let s := { idle offUnityLowAllocCheck (fun _ => 0) with
      x := Function.update (fun _ => 0) 0 0x200010 }
     ∃ f, run (codeIn (smallLow HeapPatch.repl)) 2 s =
       some { s with flags := f, pc := 0x1100BC04 }) ∧
    let s := { idle offUnityLowAllocCheck (fun _ => 0) with
      x := Function.update (fun _ => 0) 0 0x800000 }
    ∃ t f, run (codeIn (smallLow HeapPatch.orig)) 6 s = some t ∧
      run (codeIn (smallLow HeapPatch.repl)) 6 s = some { t with flags := f } ∧
      t.pc = lowCheck smallModule + 24 := by
  have hplaced : ∀ {word},
      (codeRow smallModule (offUnityLowAllocCheck + 8) smallMiddle).Held (smallLow word) →
      Placed (codeIn (smallLow word)) (lowCheck smallModule + 8)
        [.orrReg .full 1 31 1 0, .orrReg .full 1 31 1 0] := by
    intro word hheld
    exact placed_of_held hheld (by decide)
  have hold : (codeRow smallModule (offUnityLowAllocCheck + 8) smallMiddle).Held
      (smallLow HeapPatch.orig) := by
    unfold Row.Held HoldsRow
    decide +kernel
  have hnew : (codeRow smallModule (offUnityLowAllocCheck + 8) smallMiddle).Held
      (smallLow HeapPatch.repl) := by
    unfold Row.Held HoldsRow
    decide +kernel
  have hold' : ∀ p ∈ lowAllocPatches, wordOf smallModule (smallLow HeapPatch.orig)
      p.off = p.orig := by
    decide +kernel
  have hnew' : ∀ p ∈ lowAllocPatches, wordOf smallModule (smallLow HeapPatch.repl)
      p.off = p.repl := by
    decide +kernel
  have hsize : Signed 0 := by
    unfold Signed
    decide
  refine ⟨(low_alloc_guard hold' hnew' rfl).2.1 (by decide),
    (low_alloc_guard hold' hnew' rfl).2.2 ?_ hsize (by decide)⟩
  rintro u v ⟨⟨w, f, rfl⟩, hsize⟩ hpc
  refine ⟨_, _, smallMiddle_run (hpc ▸ hplaced hold), smallMiddle_run (hpc ▸ hplaced hnew),
    ⟨⟨w, f, rfl⟩, hsize⟩, ?_⟩
  show u.pc + 8 = _
  rw [hpc, BitVec.add_assoc]
  rfl

/-! ## The hook of the time manager -/

def offTmFramecountU64 : Word := 0x160
def offTmAuxU32 : Word := 0x168
def offTmPauseU8 : Word := 0x1A8

/-- What `time_update_hook` counts in the time manager. -/
def countFrame (tm : Word) (mem : Memory) : Memory :=
  let counted := store64 mem (tm + offTmFramecountU64) (load64 mem (tm + offTmFramecountU64) + 1)
  store counted (tm + offTmAuxU32) 4 (load counted (tm + offTmAuxU32) 4 + 1)

/-- The test in `time_update_hook` after which it returns. -/
def timePaused (tm : Word) (mem : Memory) : Bool := load mem (tm + offTmPauseU8) 1 ≠ 0

def timeOriginal : List Instr :=
  [.ldr 8 8 0 0x160, .ldr 4 9 0 0x168, .ldr 1 10 0 0x1a8, .addImm .full 8 8 1, .addImm .half 9 9 1,
    .str 8 8 0 0x160,
    .str 4 9 0 0x168]

def timeTest : Instr := .cbz .half 10 8

theorem decode_timePrologue : timePrologue.map decode =
    (timeOriginal ++ [timeTest]).map some := by decide

theorem toNat_load64_add_one {a : Word} : (load64 mem a + 1).toNat =
    (load mem a 8 + 1) % 2 ^ 64 := by
  have hlt : load mem a 8 < 256 ^ 8 := load_lt
  have hone : (1 : Word).toNat = 1 := rfl
  rw [load64, BitVec.toNat_add, BitVec.toNat_ofNat, hone]
  omega

/-- The counters of one manager do not overlap. -/
theorem countFrame_eq {tm : Word} : countFrame tm mem =
    store (store mem (tm + offTmFramecountU64) 8
      ((load mem (tm + offTmFramecountU64) 8 + 1) % 2 ^ 64))
      (tm + offTmAuxU32) 4 ((load mem (tm + offTmAuxU32) 4 + 1) % 2 ^ 32) := by
  have hapart : Disjoint (span (tm + offTmFramecountU64) 8) (span (tm + offTmAuxU32) 4) :=
    disjoint_span_offsets (by decide) (by decide)
  have hpow : 2 ^ 32 = 256 ^ 4 := by decide
  simp only [countFrame]
  rw [← store_eight, toNat_load64_add_one, load_store_of_disjoint (by decide) hapart,
    hpow, store_mod]

theorem timePaused_countFrame {tm : Word} : timePaused tm (countFrame tm mem) =
    timePaused tm mem := by
  have hcount : Disjoint (span (tm + offTmFramecountU64) 8) (span (tm + offTmPauseU8) 1) :=
    disjoint_span_offsets (by decide) (by decide)
  have haux : Disjoint (span (tm + offTmAuxU32) 4) (span (tm + offTmPauseU8) 1) :=
    disjoint_span_offsets (by decide) (by decide)
  unfold timePaused
  rw [countFrame_eq, load_store_of_disjoint (by decide) haux,
    load_store_of_disjoint (by decide) hcount]

theorem timeOriginal_mem : (execAll timeOriginal s).mem = countFrame (s.x 0) s.mem := by
  have hsmall : ∀ n, n % 4294967296 % 18446744073709551616 = n % 4294967296 := by omega
  rw [countFrame_eq]
  simp [timeOriginal, execAll, exec, State.set, State.setSp, State.get, State.getSp, State.next,
    Width.fit, hsmall]
  rfl

theorem timeOriginal_x {r : Reg} (h8 : r ≠ 8#5) (h9 : r ≠ 9#5) (h10 : r ≠ 10#5) :
    (execAll timeOriginal s).x r = s.x r := by
  simp [timeOriginal, execAll, exec, State.set, State.setSp, State.get, State.getSp,
    State.next, h8, h9, h10]

theorem timeOriginal_x10 : (execAll timeOriginal s).x 10 =
    BitVec.ofNat 64 (load s.mem (s.x 0 + offTmPauseU8) 1) := by
  simp [timeOriginal, execAll, exec, State.set, State.setSp, State.get, State.getSp, State.next]
  rfl

theorem timeOriginal_rest : (execAll timeOriginal s).sp = s.sp ∧ (execAll timeOriginal s).d = s.d ∧
    (execAll timeOriginal s).flags = s.flags := by
  simp [timeOriginal, execAll, exec, State.set, State.setSp, State.get, State.getSp, State.next]

/-- The address in the stub. -/
theorem timeStub_hook {hook : Word} (h : (codeRow m off (timeStub hook)).Held mem) :
    load64 mem (m.loadVirtbase + off + 8) = hook := by
  obtain ⟨-, h⟩ := held_cons.1 h
  obtain ⟨-, h⟩ := held_cons.1 h
  obtain ⟨hlow, h⟩ := held_cons.1 h
  have hhigh := held_singleton.1 h
  have hplace : m.loadVirtbase + (off + 4 + 4) = m.loadVirtbase + off + 8 := by
    rw [BitVec.add_assoc off, BitVec.add_assoc]
    rfl
  have hplace' : m.loadVirtbase + (off + 4 + 4 + 4) = m.loadVirtbase + off + 8 +
      BitVec.ofNat 64 4 := by
    rw [BitVec.add_assoc (off + 4), BitVec.add_assoc off, BitVec.add_assoc, BitVec.add_assoc]
    rfl
  rw [wordOf, wordAt32_eq_iff, hplace] at hlow
  rw [wordOf, wordAt32_eq_iff, hplace'] at hhigh
  rw [load64, show 8 = 4 + 4 from rfl, load_add, hlow, hhigh]
  apply BitVec.eq_of_toNat_eq
  have hlt := hook.isLt
  simp only [BitVec.toNat_ofNat, BitVec.toNat_setWidth, BitVec.toNat_ushiftRight,
    Nat.shiftRight_eq_div_pow]
  omega

/-- The code of the stub before its address. -/
theorem timeStub_placed {hook : Word} (h : (codeRow m off (timeStub hook)).Held mem) :
    Placed (codeIn mem) (m.loadVirtbase + off) [.ldrLit 16 8, .br 16] := by
  obtain ⟨hload, h⟩ := held_cons.1 h
  have hrow : (codeRow m off [0x58000050, 0xd61f0200]).Held mem :=
    held_cons.2 ⟨hload, held_singleton.2 (held_cons.1 h).1⟩
  exact placed_of_held hrow (by decide)

theorem stub_run {hook : Word} (h : (codeRow m off (timeStub hook)).Held s.mem)
    (hpc : s.pc = m.loadVirtbase + off) :
    run (codeIn s.mem) 2 s = some { s with x := Function.update s.x 16 hook, pc := hook } := by
  have hhook : load64 s.mem (s.pc + 8#64) = hook := hpc ▸ timeStub_hook h
  have hrun := run_block_then [.ldrLit 16 8]
    (hpc ▸ timeStub_placed h : Placed (codeIn s.mem) s.pc [.ldrLit 16 8, .br 16]) (by decide)
  refine hrun.trans ?_
  simp [execAll, exec, State.set, State.get, State.next, State.jump, hhook]

theorem timeTest_get : Width.half.fit ((execAll timeOriginal s).get 10) = 0 ↔
    timePaused (s.x 0) s.mem = false := by
  have hlt : load s.mem (s.x 0 + offTmPauseU8) 1 < 256 ^ 1 := load_lt
  have hfit : Width.half.fit ((execAll timeOriginal s).get 10) =
      BitVec.ofNat 64 (load s.mem (s.x 0 + offTmPauseU8) 1) := by
    show Width.half.fit ((execAll timeOriginal s).x 10) = _
    rw [timeOriginal_x10]
    apply BitVec.eq_of_toNat_eq
    simp only [Width.fit, BitVec.toNat_setWidth, BitVec.toNat_ofNat]
    omega
  rw [hfit, timePaused, decide_eq_false_iff_not, not_not, ← BitVec.toNat_inj, BitVec.toNat_ofNat]
  show _ % _ = 0 ↔ _
  omega

theorem timeOriginal_pc : (execAll timeOriginal s).pc = s.pc + 28 := by
  rw [execAll_pc (by decide)]
  rfl

theorem timeTest_eq : exec timeTest (execAll timeOriginal s) =
    (execAll timeOriginal s).jump (if timePaused (s.x 0) s.mem then s.pc + 32 else s.pc + 36) := by
  have hnext : (execAll timeOriginal s).pc + 4 = s.pc + 32 := by
    rw [timeOriginal_pc, BitVec.add_assoc]
    rfl
  have hbody : (execAll timeOriginal s).pc + 8 = s.pc + 36 := by
    rw [timeOriginal_pc, BitVec.add_assoc]
    rfl
  split_ifs with hpaused
  · rw [timeTest, exec_cbz_next fun hzero =>
      Bool.false_ne_true ((timeTest_get.1 hzero).symm.trans hpaused), ← hnext]
    rfl
  · rw [timeTest, exec_cbz_jump (timeTest_get.2 (Bool.eq_false_iff.2 hpaused)), hbody]

/-- The new code at the entry goes to the hook with nothing changed but register 16. The old code
does to the memory, whatever it holds, what the hook does before its test, and goes on to the body
exactly where the hook does not return, with nothing changed but registers 8 to 10. -/
theorem time_hook_replaces {old : Memory} {hook : Word}
    (hpc : s.pc = m.loadVirtbase + offTimeManagerUpdateEntry) :
    ((codeRow m offTimeManagerUpdateEntry (timeStub hook)).Held s.mem →
      run (codeIn s.mem) 2 s = some { s with x := Function.update s.x 16 hook, pc := hook }) ∧
    ((codeRow m offTimeManagerUpdateEntry timePrologue).Held old →
      ∃ t, run (codeIn old) 8 s = some t ∧ t.mem = countFrame (s.x 0) s.mem ∧
        t.pc = (if timePaused (s.x 0) t.mem then s.pc + 32
          else m.loadVirtbase + offTimeManagerUpdateBody) ∧
        (∀ r, r ≠ 8#5 → r ≠ 9#5 → r ≠ 10#5 → t.x r = s.x r) ∧
        t.sp = s.sp ∧ t.d = s.d ∧ t.flags = s.flags) := by
  refine ⟨fun hnew => stub_run hnew hpc, fun hold => ?_⟩
  have hplaced : Placed (codeIn old) s.pc (timeOriginal ++ [timeTest]) :=
    hpc ▸ placed_of_held hold decode_timePrologue
  have hrun : run (codeIn old) 8 s = some (exec timeTest (execAll timeOriginal s)) :=
    run_block_then timeOriginal hplaced (by decide)
  have hbody : s.pc + 36 = m.loadVirtbase + offTimeManagerUpdateBody := by
    rw [hpc, BitVec.add_assoc]
    rfl
  rw [timeTest_eq, hbody] at hrun
  have hmem : (execAll timeOriginal s).mem = countFrame (s.x 0) s.mem := timeOriginal_mem
  have hx : ∀ r, r ≠ 8#5 → r ≠ 9#5 → r ≠ 10#5 → (execAll timeOriginal s).x r = s.x r :=
    fun _ => timeOriginal_x
  have hrest := timeOriginal_rest (s := s)
  generalize execAll timeOriginal s = u at hrun hmem hx hrest
  refine ⟨_, hrun, hmem, ?_, hx, hrest⟩
  show _ = if timePaused (s.x 0) u.mem then _ else _
  rw [hmem, timePaused_countFrame]
  rfl

/-- The stub, and then the eight instructions in a memory that holds them. -/
theorem time_hook_replaces_small :
    (let s := idle offTimeManagerUpdateEntry
      ((codeRow smallModule offTimeManagerUpdateEntry (timeStub 0x300000)).write fun _ => 0)
     run (codeIn s.mem) 2 s =
      some { s with x := Function.update (fun _ => 0) 16 0x300000, pc := 0x300000 }) ∧
    let s := idle offTimeManagerUpdateEntry
      ((codeRow smallModule offTimeManagerUpdateEntry timePrologue).write fun _ => 0)
    ∃ t, run (codeIn s.mem) 8 s = some t ∧ t.mem = countFrame 0 s.mem ∧ t.flags = s.flags := by
  have hold := Row.held_write (m := fun _ => 0)
    (codeRow_fits (m := smallModule) (p := (offTimeManagerUpdateEntry, timePrologue)) (by decide))
  have hnew := Row.held_write (m := fun _ => 0)
    (codeRow_fits (m := smallModule) (p := (offTimeManagerUpdateEntry, timeStub 0x300000))
      (by decide))
  obtain ⟨t, hrun, hmem, -, -, -, -, hflags⟩ :=
    (@time_hook_replaces smallModule (idle offTimeManagerUpdateEntry _) _ 0 rfl).2 hold
  exact ⟨(@time_hook_replaces smallModule (idle offTimeManagerUpdateEntry _) (fun _ => 0) _ rfl).1
    hnew, t, hrun, hmem, hflags⟩

end Asnx.Unity
