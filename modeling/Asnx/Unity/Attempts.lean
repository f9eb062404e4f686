import Asnx.Unity.Installing

/-!
# Attempts to install the patches

An attempt fails wherever a page cannot be mapped once more to be written to. Of each row of words,
code then holds the old ones or the new ones. The parts that put the guards in place accept their
own words, so the next attempt takes up where the last one was cut short, and what it leaves is
what an attempt without failures would have left. The place of the choreographer's wait is accepted
in its old form only: once it has been changed, no attempt gets past it (`unity_patches_attempts`).
-/

namespace Asnx.Unity

open A64 ByteMemory Loader Overwriting

variable {H : Host} {answers : Nat → Mapping} {m : SoModule} {mem mem' : Memory} {s : Patching}

/-- The rows of an installation. -/
abbrev newRows (H : Host) (m : SoModule) : List Row := rowsOf m (newPlaces H)

/-- What a library looks like that no attempt has changed, or none beyond the guards. -/
structure Accepted (H : Host) (m : SoModule) (mem : Memory) : Prop extends Guarded H m mem where
  wait : wordOf m mem offChoreographerWaitSite = choreographerWaitFrom
  prologue : (codeRow m offTimeManagerUpdateEntry timePrologue).Held mem

/-- What a library looks like once the place of the wait has been changed. -/
structure Passed (H : Host) (m : SoModule) (mem : Memory) : Prop where
  large : Large m
  guards : ∀ row ∈ rowsOf m (guardPlaces H), row.Held mem
  wait : wordOf m mem offChoreographerWaitSite = choreographerWaitTo

theorem mem_rowsOf {ps : List Place} {off : Word} {data : List (BitVec 32)} (h : (off, data) ∈ ps) :
    codeRow m off data ∈ rowsOf m ps :=
  List.mem_map_of_mem h

/-- The rows of the guards are rows of the installation. -/
theorem newRows_of_guard {r : Row} (h : r ∈ rowsOf m (guardPlaces H)) : r ∈ newRows H m := by
  obtain ⟨p, hp, rfl⟩ := List.mem_map.1 h
  exact mem_rowsOf (mem_newPlaces_of_guard hp)

theorem guardRows_apart : Apart (rowsOf m (guardPlaces H)) := newPlaces_apart.mono fun _ hr =>
    newRows_of_guard hr

theorem mem_guardPlaces_cpu (hmask : H.coreMask.getD 0 ≠ 0) :
    (offUnityCpuCountReturn, [cpuCountWord (H.coreMask.getD 0)]) ∈ guardPlaces H := by
  rw [guardPlaces, cpuPlaces, if_neg hmask]
  exact List.mem_cons_self ..

theorem mem_heapPlaces {p : HeapPatch} (h : p ∈ heapPatches) : p.place ∈ heapPlaces :=
  List.mem_append_left _ (List.mem_map_of_mem h)

theorem mem_vmAlign : (offDynamicHeapVmAlignment, [dynamicHeapAlign64m]) ∈ heapPlaces :=
  List.mem_append_right _ (List.mem_singleton.2 rfl)

/-- Rows of guards leave the library as it has to be for the next attempt. -/
theorem Guarded.written (h : Guarded H m mem) (hw : Written (rowsOf m (guardPlaces H)) mem mem') :
    Guarded H m mem' := by
  have hfixed : ∀ {p}, p ∈ fixedPlaces → codeRow m p.1 p.2 ∈ rowsOf m (guardPlaces H) := fun hp =>
    mem_rowsOf (mem_guardPlaces_of_fixed hp)
  refine ⟨h.large, fun hmask => ?_, ?_, fun p hp => ?_, ?_, fun p hp => ?_⟩
  · have hrow : codeRow m offUnityCpuCountReturn [cpuCountWord (H.coreMask.getD 0)] ∈
      rowsOf m (guardPlaces H) :=
      mem_rowsOf (mem_guardPlaces_cpu hmask)
    exact site_of_written hw guardRows_apart hrow (h.cpu hmask)
  · have hrow : codeRow m fmodPlace.1 fmodPlace.2 ∈ rowsOf m (guardPlaces H) :=
      hfixed (List.mem_cons_self ..)
    rcases hw.held_or_same guardRows_apart hrow with hheld | hsame
    · exact .inr hheld
    · exact h.fmod.imp (fun hfrom =>
        hfrom.of_eqOn (codeRow_fits (p := (_, fmodFrom)) (by decide)) hsame)
        fun hto => hto.of_eqOn (codeRow_fits (p := (_, fmodTo)) (by decide)) hsame
  · exact site_of_written hw guardRows_apart (hfixed (mem_fixedPlaces_of_heap (mem_heapPlaces hp)))
      (h.heap p hp)
  · rcases hw.held_or_same guardRows_apart (hfixed (mem_fixedPlaces_of_heap mem_vmAlign)) with
      hheld | hsame
    · exact .inr (.inl (held_singleton.1 hheld))
    · rw [@wordOf_eq_of_eqOn m mem mem' offDynamicHeapVmAlignment dynamicHeapAlign64m hsame]
      exact h.vmAlign
  · exact site_of_written hw guardRows_apart
      (hfixed (mem_fixedPlaces_of_lowAlloc (List.mem_map_of_mem hp)))
      (h.lowAlloc p hp)

/-- The rows of the guards, step by step. -/
theorem guardRows_eq : rowsOf m (guardPlaces H) = rowsOf m (cpuPlaces H) ++
    (rowsOf m [fmodPlace] ++ (rowsOf m heapPlaces ++ rowsOf m
      (lowAllocPatches.map HeapPatch.place))) := by
  rw [← rowsOf_append, ← rowsOf_append, ← rowsOf_append]
  rfl

/-- The parts that put the guards in place. -/
theorem Guarded.ends_guards (answers : Nat → Mapping) (h : Guarded H m s.mem) :
    Ends answers (rowsOf m (guardPlaces H)) [-7, -9, -6, -13] s
      ((installGuards H answers m).run s) := by
  have hguard : ∀ {rows : List Row} {m₁ m₂ : Memory}, (∀ r ∈ rows, r ∈ rowsOf m (guardPlaces H)) →
      Guarded H m m₁ → Written rows m₁ m₂ → Guarded H m m₂ := fun hsub h hw =>
        h.written (hw.mono hsub)
  have hapart := guardRows_apart (H := H) (m := m)
  rw [guardRows_eq] at hguard hapart ⊢
  have hrest := hapart.mono fun r hr => List.mem_append_right _ hr
  refine h.ends_cpu.bind hapart fun s₁ h₁ => ?_
  have hfmod : Guarded H m s₁.mem := hguard (fun r hr => List.mem_append_left _ hr) h h₁
  refine hfmod.ends_fmod.bind hrest fun s₂ h₂ => ?_
  have hheap : Guarded H m s₂.mem :=
    hguard (fun r hr => List.mem_append_right _ (List.mem_append_left _ hr)) hfmod h₂
  refine hheap.ends_heap.bind (hrest.mono fun r hr => List.mem_append_right _ hr) fun s₃ h₃ => ?_
  have hlow : Guarded H m s₃.mem :=
    hguard (fun r hr =>
      List.mem_append_right _ (List.mem_append_right _ (List.mem_append_left _ hr))) hheap h₃
  exact hlow.ends_lowAlloc

/-! ## Before and after the place of the wait has been changed -/

/-- The guards lie apart from the wait and from the hook. -/
theorem guardRows_disjoint (p : Place)
    (hp : rangeOf p ∈ [rangeOf waitPlace, rangeOf (offTimeManagerUpdateEntry, timePrologue)]) :
    ∀ r ∈ rowsOf m (guardPlaces H), Disjoint r.bytes (codeRow m p.1 p.2).bytes := by
  intro r hr
  obtain ⟨q, hq, rfl⟩ := List.mem_map.1 hr
  exact disjoint_codeRow (guardPlaces_before q hq _ hp) (guardPlaces_end q hq)
    (placeRanges_end _ (List.mem_append_right _ hp))

/-- Code that is accepted still is after some rows have been written. -/
theorem Accepted.written (h : Accepted H m mem) (hw : Written (rowsOf m (guardPlaces H)) mem mem') :
    Accepted H m mem' := by
  refine ⟨h.toGuarded.written hw, ?_, ?_⟩
  · have hsame : wordOf m mem' offChoreographerWaitSite = wordOf m mem offChoreographerWaitSite :=
      wordOf_eq_of_eqOn (hw.same guardRows_apart.fits
        (guardRows_disjoint waitPlace (List.mem_cons_self ..)))
    exact hsame.trans h.wait
  · exact h.prologue.of_eqOn (codeRow_fits (p := (_, timePrologue)) (by decide))
      (hw.same guardRows_apart.fits (guardRows_disjoint (_, timePrologue)
        (List.mem_cons_of_mem _ (List.mem_cons_self ..))))

theorem mem_newRows_wait : codeRow m offChoreographerWaitSite [choreographerWaitTo] ∈ newRows H m :=
  mem_rowsOf (List.mem_append_right _ (List.mem_cons_self ..))

theorem mem_newRows_stub : codeRow m offTimeManagerUpdateEntry
    (timeStub H.timeUpdateHook) ∈ newRows H m :=
  mem_rowsOf (List.mem_append_right _ (List.mem_cons_of_mem _ (List.mem_cons_self ..)))

/-- The step for the choreographer wait. -/
theorem Accepted.wait_run (answers : Nat → Mapping) (h : Accepted H m s.mem) :
    (installChoreographerWait answers m).run s =
    if answers s.calls = .mapped then
      (.ok (), ⟨(codeRow m offChoreographerWaitSite [choreographerWaitTo]).write s.mem,
        s.calls + 1⟩)
    else (.error (-1), ⟨s.mem, s.calls + 1⟩) := by
  unfold installChoreographerWait
  rw [run_bind_ok (h.large.readWord_run (by decide)), if_pos h.wait]
  exact h.large.patchCode_run (List.cons_ne_nil _ _) (by decide)

/-- The step for the time hook. -/
theorem Large.timeHook_run (H : Host) (answers : Nat → Mapping) (h : Large m)
    (hprologue : (codeRow m offTimeManagerUpdateEntry timePrologue).Held s.mem) :
    (installTimeHook H answers m).run s =
      if answers s.calls = .mapped then
        (.ok (), ⟨(codeRow m offTimeManagerUpdateEntry
          (timeStub H.timeUpdateHook)).write s.mem, s.calls + 1⟩)
      else (.error (-4), ⟨s.mem, s.calls + 1⟩) := by
  obtain ⟨b, hrun, hb⟩ := h.wordsAre_run (s := s) offTimeManagerUpdateEntry timePrologue (by decide)
  obtain rfl : b = true := hb.2 hprologue
  unfold installTimeHook
  rw [run_bind_ok hrun, run_bind_ok (failIf_run Bool.noConfusion)]
  exact h.patchCode_run (List.cons_ne_nil _ _)
    (show offTimeManagerUpdateEntry.toNat + 4 * 4 ≤ placesEnd by decide)

/-- What an attempt leaves of a library that it accepts. -/
inductive Attempt (H : Host) (answers : Nat → Mapping) (m : SoModule) (mem : Memory) :
    Int × Memory → Prop
  | cut {code : Int} {mem' : Memory} (hcode : code ∈ [-7, -9, -6, -13, -1])
    (hfailed : ∃ k, answers k ≠ .mapped)
      (hw : Written (rowsOf m (guardPlaces H)) mem mem') : Attempt H answers m mem (code, mem')
  | passed {mem' : Memory} (hfailed : ∃ k, answers k ≠ .mapped)
    (hw : Written (newRows H m) mem mem')
      (h : Passed H m mem') : Attempt H answers m mem (-4, mem')
  | installed {mem' : Memory} (hw : Written (newRows H m) mem mem') (h : Passed H m mem')
      (hheld : ∀ row ∈ newRows H m, row.Held mem') : Attempt H answers m mem (0, mem')

/-- The code of the first step that fails is returned. -/
theorem install_of_error {code : Int} (h : (installAll H answers m).run ⟨mem, 0⟩ =
    (.error code, s)) :
    unityPatchesInstall H answers m mem = (code, s.mem) := by
  rw [unityPatchesInstall, h]

theorem install_of_ok (h : (installAll H answers m).run ⟨mem, 0⟩ = (.ok (), s)) :
    unityPatchesInstall H answers m mem = (0, s.mem) := by
  rw [unityPatchesInstall, h]

/-- All rows are held when those of the three steps are. -/
theorem newRows_held (hguards : ∀ row ∈ rowsOf m (guardPlaces H), row.Held mem)
    (hwait : (codeRow m offChoreographerWaitSite [choreographerWaitTo]).Held mem)
    (hstub : (codeRow m offTimeManagerUpdateEntry (timeStub H.timeUpdateHook)).Held mem) :
    ∀ row ∈ newRows H m, row.Held mem := by
  intro row hrow
  rw [newRows, newPlaces, rowsOf_append] at hrow
  rcases List.mem_append.1 hrow with hguard | hlast
  · exact hguards row hguard
  · rcases List.mem_cons.1 hlast with rfl | hlast
    · exact hwait
    · exact List.mem_singleton.1 hlast ▸ hstub

/-- What has passed an attempt passes the next one. -/
theorem Passed.written (h : Passed H m mem) (hw : Written (newRows H m) mem mem') :
    Passed H m mem' := by
  have hwait : (codeRow m offChoreographerWaitSite [choreographerWaitTo]).Held mem :=
    held_singleton.2 h.wait
  exact ⟨h.large, fun row hrow =>
    (h.guards row hrow).written hw newPlaces_apart (newRows_of_guard hrow),
    held_singleton.1 (hwait.written hw newPlaces_apart mem_newRows_wait)⟩

/-- The last part of an attempt. -/
theorem Passed.attempt_end {calls : Nat} (h : Passed H m mem')
    (hprologue : (codeRow m offTimeManagerUpdateEntry timePrologue).Held mem')
    (hw : Written (newRows H m) mem mem')
    (hall : (installAll H answers m).run ⟨mem, 0⟩ =
      (installTimeHook H answers m).run ⟨mem', calls⟩) :
    Attempt H answers m mem (unityPatchesInstall H answers m mem) := by
  have hhook := h.large.timeHook_run H answers (s := ⟨mem', calls⟩) hprologue
  split_ifs at hhook with hmapped
  · have hwrite : Written (newRows H m) mem' _ := written_write mem_newRows_stub
    have hpassed := h.written hwrite
    have hheld := Row.held_write (m := mem')
      (newPlaces_apart.fits _ (mem_newRows_stub (H := H) (m := m)))
    rw [install_of_ok (hall.trans hhook)]
    exact .installed (hw.trans hwrite) hpassed
      (newRows_held hpassed.guards (held_singleton.2 hpassed.wait) hheld)
  · rw [install_of_error (hall.trans hhook)]
    exact .passed ⟨_, hmapped⟩ hw h

theorem prologue_of_wait {mem : Memory}
    (h : (codeRow m offTimeManagerUpdateEntry timePrologue).Held mem) :
    (codeRow m offTimeManagerUpdateEntry timePrologue).Held
      ((codeRow m offChoreographerWaitSite [choreographerWaitTo]).write mem) := by
  have hdisjoint : Disjoint (codeRow m offTimeManagerUpdateEntry timePrologue).bytes
      (codeRow m offChoreographerWaitSite [choreographerWaitTo]).bytes :=
    @disjoint_codeRow m (offTimeManagerUpdateEntry, timePrologue) waitPlace (by decide)
      (by decide) (by decide)
  exact h.of_eqOn (codeRow_fits (p := (_, timePrologue)) (by decide)) fun x hx =>
    Row.write_of_notMem (codeRow_fits (p := waitPlace) (by decide))
      (Set.disjoint_left.1 hdisjoint hx)

/-- An attempt from the place of the wait on. -/
theorem Accepted.attempt_rest (h : Accepted H m s.mem)
    (hguards : ∀ row ∈ rowsOf m (guardPlaces H), row.Held s.mem)
    (hw : Written (newRows H m) mem s.mem) (hall : (installAll H answers m).run ⟨mem, 0⟩ =
      (installTimeHook H answers m).run
        ⟨(codeRow m offChoreographerWaitSite [choreographerWaitTo]).write s.mem, s.calls + 1⟩) :
    Attempt H answers m mem (unityPatchesInstall H answers m mem) := by
  have hwrite := written_write (m := s.mem) (mem_newRows_wait (H := H) (m := m))
  have hheld := Row.held_write (m := s.mem)
    (newPlaces_apart.fits _ (mem_newRows_wait (H := H) (m := m)))
  have hpassed : Passed H m
    ((codeRow m offChoreographerWaitSite [choreographerWaitTo]).write s.mem) :=
    ⟨h.large, fun row hrow => (hguards row hrow).written hwrite newPlaces_apart
      (newRows_of_guard hrow),
      held_singleton.1 hheld⟩
  exact hpassed.attempt_end (prologue_of_wait h.prologue) (hw.trans hwrite) hall

/-- One attempt. -/
theorem Accepted.attempt (answers : Nat → Mapping) (h : Accepted H m mem) :
    Attempt H answers m mem (unityPatchesInstall H answers m mem) := by
  obtain ⟨hw, hresult⟩ := h.toGuarded.ends_guards answers (s := ⟨mem, 0⟩)
  rcases hrun : (installGuards H answers m).run ⟨mem, 0⟩ with ⟨r, s₁⟩
  rw [hrun] at hw hresult
  rcases hresult with ⟨hok, hguards⟩ | ⟨⟨code, hcode, herror⟩, hfailed, -⟩
  · obtain rfl : r = .ok () := hok
    have hall : (installAll H answers m).run ⟨mem, 0⟩ =
        (do installChoreographerWait answers m; installTimeHook H answers m : Install Unit).run
          s₁ := run_bind_ok hrun
    have haccepted : Accepted H m s₁.mem := h.written hw
    have hwait := haccepted.wait_run answers
    split_ifs at hwait with hmapped
    · exact haccepted.attempt_rest hguards (hw.mono fun _ hr => newRows_of_guard hr)
        (hall.trans (run_bind_ok hwait))
    · rw [install_of_error (hall.trans (run_bind_error hwait))]
      exact .cut (by decide) ⟨_, hmapped⟩ hw
  · obtain rfl : r = .error code := herror
    rw [install_of_error (run_bind_error hrun)]
    exact .cut (List.mem_append_left [-1] hcode) hfailed hw

/-- And it is guarded. -/
theorem Passed.guarded (h : Passed H m mem) : Guarded H m mem := by
  have hfixed : ∀ {off data}, (off, data) ∈ fixedPlaces → (codeRow m off data).Held mem := fun hp =>
    h.guards _ (mem_rowsOf (mem_guardPlaces_of_fixed hp))
  refine ⟨h.large, fun hmask => .inr ?_, .inr ?_, fun p hp =>
    .inr ?_, .inr (.inl ?_), fun p hp => .inr ?_⟩
  · exact held_singleton.1 (h.guards _ (mem_rowsOf (mem_guardPlaces_cpu hmask)))
  · exact hfixed (List.mem_cons_self ..)
  · exact held_singleton.1 (hfixed (mem_fixedPlaces_of_heap (mem_heapPlaces hp)))
  · exact held_singleton.1 (hfixed (mem_fixedPlaces_of_heap mem_vmAlign))
  · exact held_singleton.1 (hfixed (mem_fixedPlaces_of_lowAlloc (List.mem_map_of_mem hp)))

/-- Nothing is done, and the attempt ends at the place of the wait. -/
theorem Passed.attempt (h : Passed H m mem) : unityPatchesInstall H answers m mem = (-2, mem) := by
  obtain ⟨hw, hresult⟩ := h.guarded.ends_guards answers (s := ⟨mem, 0⟩)
  rcases hrun : (installGuards H answers m).run ⟨mem, 0⟩ with ⟨r, s₁⟩
  rw [hrun] at hw hresult
  rcases hresult with ⟨hok, -⟩ | ⟨-, -, row, hrow, hopen⟩
  · obtain rfl : r = .ok () := hok
    have hmem : s₁.mem = mem := hw.eq_of_held guardRows_apart h.guards
    have hwait : (installChoreographerWait answers m).run s₁ = (.error (-2), s₁) := by
      have hne : wordOf m s₁.mem offChoreographerWaitSite ≠ choreographerWaitFrom := by
        rw [hmem, h.wait]
        decide
      unfold installChoreographerWait
      rw [run_bind_ok (h.large.readWord_run (by decide)), if_neg hne]
      rfl
    rw [install_of_error ((run_bind_ok hrun).trans (run_bind_error hwait)), hmem]
  · exact absurd (h.guards row hrow) hopen

/-! ## Attempts one after the other -/

/-- What attempts return, and the memory after them. -/
def attempts (H : Host) (m : SoModule) (mem : Memory) (runs : List (Nat → Mapping)) :
    List Int × Memory :=
  runs.foldl (fun st answers => (st.1 ++ [(unityPatchesInstall H answers m st.2).1],
    (unityPatchesInstall H answers m st.2).2)) ([], mem)

/-- What attempts leave of a library that is accepted. -/
inductive Attempted (H : Host) (m : SoModule) (mem : Memory) : List Int × Memory → Prop
  | cut {codes : List Int} {mem' : Memory} (hcodes : 0 ∉ codes ∧ -4 ∉ codes)
      (hw : Written (rowsOf m (guardPlaces H)) mem mem') : Attempted H m mem (codes, mem')
  | passed {codes : List Int} {mem' : Memory} (hcodes : 0 ∈ codes ∨ -4 ∈ codes)
    (hw : Written (newRows H m) mem mem')
      (h : Passed H m mem') (hheld : 0 ∈ codes → ∀ row ∈ newRows H m, row.Held mem') :
        Attempted H m mem (codes, mem')

theorem Attempted.written {st : List Int × Memory} (h : Attempted H m mem st) :
    Written (newRows H m) mem st.2 := by
  cases h with
  | cut _ hw => exact hw.mono fun _ hr => newRows_of_guard hr
  | passed _ hw _ _ => exact hw

/-- One more attempt. -/
theorem Attempted.next {st : List Int × Memory} (h : Attempted H m mem st)
    (haccepted : Accepted H m mem)
    (answers : Nat → Mapping) : Attempted H m mem
      (st.1 ++ [(unityPatchesInstall H answers m st.2).1],
        (unityPatchesInstall H answers m st.2).2) := by
  cases h with
  | @cut codes mem₁ hcodes hw =>
      have hattempt := (haccepted.written hw).attempt answers
      have hw₁ : Written (newRows H m) mem mem₁ := hw.mono fun _ hr => newRows_of_guard hr
      show Attempted H m mem (codes ++ [(unityPatchesInstall H answers m mem₁).1],
        (unityPatchesInstall H answers m mem₁).2)
      generalize unityPatchesInstall H answers m mem₁ = r at hattempt
      cases hattempt with
      | @cut code mem₂ hcode hfailed hw' =>
          have hother : code ≠ 0 ∧ code ≠ -4 := by
            constructor <;> rintro rfl <;> exact absurd hcode (by decide)
          refine .cut ⟨fun hmem => ?_, fun hmem => ?_⟩ (hw.trans hw')
          · exact (List.mem_append.1 hmem).elim hcodes.1 fun hlast =>
              hother.1 (List.mem_singleton.1 hlast).symm
          · exact (List.mem_append.1 hmem).elim hcodes.2 fun hlast =>
              hother.2 (List.mem_singleton.1 hlast).symm
      | @passed mem₂ hfailed hw' hpassed =>
          have hlast : -4 ∈ codes ++ [-4] := List.mem_append_right _ (List.mem_singleton.2 rfl)
          refine .passed (.inr hlast) (hw₁.trans hw') hpassed fun hmem => ?_
          have hother : (0 : Int) ∉ [-4] := by decide
          exact (List.mem_append.1 hmem).elim (fun hzero => absurd hzero hcodes.1) fun hzero =>
            absurd hzero hother
      | @installed mem₂ hw' hpassed hheld =>
          have hlast : 0 ∈ codes ++ [0] := List.mem_append_right _ (List.mem_singleton.2 rfl)
          exact .passed (.inl hlast) (hw₁.trans hw') hpassed fun _ => hheld
  | @passed codes mem₁ hcodes hw hpassed hheld =>
      show Attempted H m mem (codes ++ [(unityPatchesInstall H answers m mem₁).1],
        (unityPatchesInstall H answers m mem₁).2)
      rw [hpassed.attempt]
      refine .passed (hcodes.imp (List.mem_append_left _) (List.mem_append_left _)) hw hpassed
        fun hmem => hheld ?_
      exact (List.mem_append.1 hmem).resolve_right (show (0 : Int) ∉ [-2] by decide)

/-- Attempts one after the other, by induction. -/
theorem attempted (h : Accepted H m mem) (runs : List (Nat → Mapping)) :
    Attempted H m mem (attempts H m mem runs) := by
  -- by induction on the attempts from the last one on
  induction runs using List.reverseRecOn with
  | nil => exact .cut ⟨List.not_mem_nil, List.not_mem_nil⟩ .refl
  | append_singleton runs answers ih =>
      rw [attempts, List.foldl_append]
      exact ih.next h answers

/-- An attempt in which all pages are mapped succeeds. -/
theorem Accepted.attempt_mapped (h : Accepted H m mem) (hmapped : ∀ k, answers k = .mapped) :
    (unityPatchesInstall H answers m mem).1 = 0 ∧
      Written (newRows H m) mem (unityPatchesInstall H answers m mem).2 ∧
      ∀ row ∈ newRows H m, row.Held (unityPatchesInstall H answers m mem).2 := by
  have hattempt := h.attempt answers
  generalize unityPatchesInstall H answers m mem = r at hattempt
  cases hattempt with
  | cut _ hfailed _ => exact absurd (hmapped hfailed.choose) hfailed.choose_spec
  | passed hfailed _ _ => exact absurd (hmapped hfailed.choose) hfailed.choose_spec
  | installed hw _ hheld => exact ⟨rfl, hw, hheld⟩

/-- Whatever pages could not be mapped in earlier attempts: of each row, the words that were there
or the new ones are in place, and nothing else has changed. Unless one of them returned 0 or -4,
the next attempt may succeed, and leaves what it would have left of the untouched library;
otherwise no attempt does anything. -/
theorem unity_patches_attempts (h : Accepted H m mem) (runs : List (Nat → Mapping)) :
    (∀ x, (∀ row ∈ newRows H m, x ∉ row.bytes) → (attempts H m mem runs).2 x = mem x) ∧
    (∀ row ∈ newRows H m, row.Held (attempts H m mem runs).2 ∨ ∀ x ∈ row.bytes,
      (attempts H m mem runs).2 x = mem x) ∧
    (0 ∈ (attempts H m mem runs).1 → ∀ row ∈ newRows H m, row.Held (attempts H m mem runs).2) ∧
    (0 ∈ (attempts H m mem runs).1 ∨ -4 ∈ (attempts H m mem runs).1 → ∀ answers,
      unityPatchesInstall H answers m (attempts H m mem runs).2 = (-2, (attempts H m mem runs).2)) ∧
    (0 ∉ (attempts H m mem runs).1 → -4 ∉ (attempts H m mem runs).1 →
      ∀ answers, (∀ k, answers k = .mapped) →
      unityPatchesInstall H answers m (attempts H m mem runs).2 =
        (0, (unityPatchesInstall H answers m mem).2) ∧
      ∀ row ∈ newRows H m, row.Held (unityPatchesInstall H answers m mem).2) := by
  have hrun := attempted h runs
  have hwritten := hrun.written
  refine ⟨fun x hx => hwritten.outside newPlaces_apart.fits hx,
    fun row hrow => hwritten.held_or_same newPlaces_apart hrow,
    fun hzero => ?_, fun hcodes answers => ?_, fun hzero hfour answers hmapped => ?_⟩
  all_goals generalize attempts H m mem runs = st at *
  · cases hrun with
    | cut hcodes _ => exact absurd hzero hcodes.1
    | passed _ _ _ hheld => exact hheld hzero
  · cases hrun with
    | cut hcodes' _ =>
        exact hcodes.elim (fun hzero => absurd hzero hcodes'.1) fun hfour => absurd hfour hcodes'.2
    | passed _ _ hpassed _ => exact hpassed.attempt
  · cases hrun with
    | passed hcodes _ _ _ =>
        exact hcodes.elim (fun hmem => absurd hmem hzero) fun hmem => absurd hmem hfour
    | @cut codes mem₁ _ hw =>
        obtain ⟨hcode, hw₁, hheld⟩ := (h.written hw).attempt_mapped hmapped
        obtain ⟨-, hw₂, hheld'⟩ := h.attempt_mapped hmapped
        exact ⟨Prod.ext hcode ((hwritten.trans hw₁).unique hw₂ newPlaces_apart.fits hheld hheld'),
          hheld'⟩

/-- A host with the cores 0 to 2. -/
def smallHost : Host := ⟨some 7, 0x300000⟩

/-- A library of 32 MiB at 256 MiB. -/
def smallModule : SoModule :=
  { loadVirtbase := 0x10000000, loadSize := 0x02000000, phdr := [], image := fun _ => 0,
    soSize := 0, secHdr := 0, syms := 0, numSyms := 0, shstrtab := 0, dynstrtab := 0 }

/-- The places of the untouched library, with the words that are there. -/
def oldPlaces : List Place :=
  [(offUnityCpuCountReturn, [unityCpuCountReturnOrig]), (offFmodPartialReleasePrologue, fmodFrom),
    (offDynamicHeapVmAlignment, [dynamicHeapAlign256m]),
      (offChoreographerWaitSite, [choreographerWaitFrom]),
    (offTimeManagerUpdateEntry, timePrologue)] ++ (heapPatches ++ lowAllocPatches).map fun p =>
      (p.off, [p.orig])

/-- A memory with the code of the game in it, and zeros. -/
def smallMemory : Memory := writeAll (rowsOf smallModule oldPlaces) fun _ => 0

theorem accepted_small : Accepted smallHost smallModule smallMemory := by
  have hsites : ∀ p ∈ heapPatches ++ lowAllocPatches, wordOf smallModule smallMemory p.off =
    p.orig := by decide +kernel
  have hfmod : (codeRow smallModule offFmodPartialReleasePrologue fmodFrom).Held smallMemory := by
    unfold Row.Held HoldsRow
    decide +kernel
  have hprologue : (codeRow smallModule offTimeManagerUpdateEntry timePrologue).Held
      smallMemory := by
    unfold Row.Held HoldsRow
    decide +kernel
  exact {
    large := ⟨by decide, by decide⟩
    cpu := fun _ => .inl (by decide +kernel)
    fmod := .inl hfmod
    heap := fun p hp => .inl (hsites p (List.mem_append_left _ hp))
    vmAlign := .inl (by decide +kernel)
    lowAlloc := fun p hp => .inl (hsites p (List.mem_append_right _ hp))
    wait := by decide +kernel
    prologue := hprologue }

/-- The second page that is written cannot be mapped. -/
def smallCut : Nat → Mapping := fun k => if k = 1 then .noAlias else .mapped

theorem attempts_small : (attempts smallHost smallModule smallMemory [smallCut]).1 = [-9] := by
    decide +kernel

/-- After an attempt that was cut behind its first row the next one succeeds. -/
theorem unity_patches_attempts_small : Accepted smallHost smallModule smallMemory ∧
    (attempts smallHost smallModule smallMemory [smallCut]).1 = [-9] ∧
    (unityPatchesInstall smallHost (fun _ => .mapped) smallModule
      (attempts smallHost smallModule smallMemory [smallCut]).2).1 = 0 := by
  have hnot : ∀ {c : Int}, c ≠ -9 →
      c ∉ (attempts smallHost smallModule smallMemory [smallCut]).1 := by
    intro c hc
    rw [attempts_small]
    exact fun hmem => hc (List.mem_singleton.1 hmem)
  have hnext := (unity_patches_attempts accepted_small [smallCut]).2.2.2.2 (hnot (by decide))
    (hnot (by decide)) (fun _ => .mapped) fun _ => rfl
  exact ⟨accepted_small, attempts_small, congrArg Prod.fst hnext.1⟩

end Asnx.Unity
