import Asnx.Bionic.Mmap

/-!
# What one step of the mmap threads can do

`MmapStep` lists every atomic step of a thread inside `bionic_mmap` or `bionic_munmap`, and
`Unmapped` every outcome of the lock-held section of `bionic_munmap`. The invariants are
proved by cases on these two relations.
-/

namespace Asnx.Bionic

/-- The steps of a thread, one constructor for each path through `mmapNext`. -/
inductive MmapStep (s : Shared) : Pc → Event → Shared → Pc → Prop where
  | mmapRejected {a e} : mmapPlan a = .error e →
      MmapStep s .idle (.callMmap a) s (.finished (.mmapFailed e))
  | mmapAccepted {a m} : mmapPlan a = .ok m → MmapStep s .idle (.callMmap a) s (.reserve m)
  | munmapRejected {p n} : munmapRange p n = none →
      MmapStep s .idle (.callMunmap p n) s (.finished .munmapFailed)
  | munmapAccepted {p n start «end»} : munmapRange p n = some (start, «end») →
      MmapStep s .idle (.callMunmap p n) s (.unmap start «end»)
  | reserved {m mm v} : mmapReserve s.mm m = (mm, v) → v.p ≠ 0 →
      MmapStep s (.reserve m) .internal { s with mm } (.prepare m v)
  | notReserved {m mm v} : mmapReserve s.mm m = (mm, v) → v.p = 0 →
      MmapStep s (.reserve m) .internal { s with mm } (.allocate m v)
  | noMemory {m v} : MmapStep s (.allocate m v) .internal s (.finished (.mmapFailed .ENOMEM))
  | allocated {m v p} : s.Fresh ⟨p, m.memalignBytes⟩ →
      MmapStep s (.allocate m v) .internal { s with heap := ⟨p, m.memalignBytes⟩ :: s.heap }
        (if m.unityReserve then .countFallback m { v with p, backingSize := m.memalignBytes }
          else .prepare m { v with p, backingSize := m.memalignBytes })
  | fallbackCounted {m v} :
      MmapStep s (.countFallback m v) .internal
        { s with mm := { s.mm with gUnityFallbackCount := (s.mm.gUnityFallbackCount + 1) % 2 ^ 32 } }
        (.prepare m v)
  | misaligned {m v} : m.unityReserve = true → v.p % unityDynamicRegionBytes ≠ 0 →
      MmapStep s (.prepare m v) .internal s (.giveBack m v .ENOMEM)
  | readFailed {m v code} : m.fileBacked = true →
      MmapStep s (.prepare m v) .internal s (.discard m v (.io code))
  | prepared {m v} : MmapStep s (.prepare m v) .internal s (.record m v)
  | tableFull {m v} : mmapInsert s.mm m v = none →
      MmapStep s (.record m v) .internal s (.giveBack m v .ENOMEM)
  | recorded {m v mm i} : mmapInsert s.mm m v = some (mm, i) →
      MmapStep s (.record m v) (.recorded i v.p) { s with mm } (.finished (.mmapped v.p))
  | runGivenBack {m v e} : v.arenaIndex ≥ 0 →
      MmapStep s (.giveBack m v e) .internal
        { s with mm := unityArenaReleaseRun s.mm v.arenaIndex.toNat m.arenaCount }
        (.finished (.mmapFailed e))
  | blockGivenBack {m v e} : ¬ v.arenaIndex ≥ 0 →
      MmapStep s (.giveBack m v e) .internal (s.free v.p) (.finished (.mmapFailed e))
  | discarded {m v e} :
      MmapStep s (.discard m v e) .internal (s.free v.p) (.finished (.mmapFailed e))
  | unmapped {start «end» mm} : munmapLocked s.mm start «end» = (mm, none) →
      MmapStep s (.unmap start «end») (.unmapped start «end») { s with mm } (.finished .munmapped)
  | unmappedBlock {start «end» mm b} : munmapLocked s.mm start «end» = (mm, some b) →
      MmapStep s (.unmap start «end») (.unmapped start «end») { s with mm } (.freeBlock b)
  | freed {b} : MmapStep s (.freeBlock b) .internal (s.free b.base) (.finished .munmapped)
  | returned {r} : MmapStep s (.finished r) (.returned r) s .idle

/-- Every step of the program is one of the listed ones. -/
theorem mmap_next_step {x : Choice} {s s' : Shared} {l l' : Pc} {e : Event}
    (h : mmapNext x s l = some (e, s', l')) : MmapStep s l e s' l' := by
  unfold mmapNext at h
  split at h
  · split at h <;> cases h
    · exact .mmapRejected ‹_›
    · exact .mmapAccepted ‹_›
  · split at h <;> cases h
    · exact .munmapRejected ‹_›
    · exact .munmapAccepted ‹_›
  · rename_i m
    generalize hr : mmapReserve s.mm m = r at h
    obtain ⟨mm, v⟩ := r
    simp only at h
    by_cases hv : v.p = 0
    · rw [if_pos hv] at h
      cases h
      exact .notReserved hr hv
    · rw [if_neg hv] at h
      cases h
      exact .reserved hr hv
  · cases h
    exact .noMemory
  · simp only at h
    split at h <;> cases h
    exact .allocated ‹_›
  · cases h
    exact .fallbackCounted
  · split at h
    · rename_i hmis
      cases h
      exact .misaligned hmis.1 hmis.2
    · split at h
      · split at h <;> cases h
        · exact .readFailed ‹_›
        · exact .prepared
      · cases h
        exact .prepared
  · split at h <;> cases h
    · exact .tableFull ‹_›
    · exact .recorded ‹_›
  · split at h <;> cases h
    · exact .runGivenBack ‹_›
    · exact .blockGivenBack ‹_›
  · cases h
    exact .discarded
  · rename_i start «end»
    generalize hu : munmapLocked s.mm start «end» = u at h
    obtain ⟨mm, b⟩ := u
    cases b with
    | none =>
        cases h
        exact .unmapped hu
    | some b =>
        cases h
        exact .unmappedBlock hu
  · cases h
    exact .freed
  · cases h
    exact .returned
  · cases h

theorem mmap_reserve_gMmaps (s : MmapState) (m : MmapPlan) :
    (mmapReserve s m).1.gMmaps = s.gMmaps := by
  unfold mmapReserve unityArenaTakeRun
  split
  · split
    · rename_i htake
      split at htake
      · cases htake
      · split at htake <;> cases htake
        rfl
    · rfl
  · rfl

/-- Only the last section of `bionic_mmap` and the section of `bionic_munmap` write records. -/
theorem step_records {s s' : Shared} {l l' : Pc} {e : Event} (h : MmapStep s l e s' l')
    (hrecorded : ∀ i p, e ≠ .recorded i p) (hunmapped : ∀ a b, e ≠ .unmapped a b) :
    s'.mm.gMmaps = s.mm.gMmaps := by
  cases h with
  | mmapRejected | mmapAccepted | munmapRejected | munmapAccepted | noMemory | fallbackCounted
  | misaligned | readFailed | prepared | tableFull | returned | allocated | blockGivenBack
  | discarded | freed => rfl
  | reserved hreserve | notReserved hreserve =>
      exact (congrArg (·.1.gMmaps) hreserve).symm.trans (mmap_reserve_gMmaps ..)
  | runGivenBack => simp
  | recorded => exact absurd rfl (hrecorded _ _)
  | unmapped | unmappedBlock => exact absurd rfl (hunmapped _ _)

/-! ## The outcomes of `bionic_munmap` -/

/-- The end of the window a record was created for. -/
def MmapSlot.limit (r : MmapSlot) : Nat := wrap (r.base + r.logicalSize)

/-- The end of a range after `bionic_munmap` clamped it to the window of the record. -/
def MmapSlot.clamp (r : MmapSlot) («end» : Nat) : Nat := if «end» > r.limit then r.limit else «end»

/-- The range covers the whole live interval of the record. -/
def MmapSlot.Covered (r : MmapSlot) (start «end» : Nat) : Prop :=
  start ≤ r.liveLo ∧ r.clamp «end» ≥ r.liveHi

/-- The outcomes of the lock-held section of `bionic_munmap`, with the block to be freed. -/
inductive Unmapped (s : MmapState) (start «end» : Nat) : MmapState → Option Block → Prop where
  | missed : munmapMatch s start = none → Unmapped s start «end» s none
  | runReleased {i} : munmapMatch s start = some i → (s.gMmaps i).Covered start «end» →
      (s.gMmaps i).arenaIndex ≥ 0 →
      Unmapped s start «end»
        ((unityArenaReleaseRun (s.uncharge (s.gMmaps i).backingSize) (s.gMmaps i).arenaIndex.toNat
          (if (s.gMmaps i).arenaCount ≠ 0 then (s.gMmaps i).arenaCount else 1)).setRecord i
            .cleared) none
  | blockReleased {i} : munmapMatch s start = some i → (s.gMmaps i).Covered start «end» →
      ¬ (s.gMmaps i).arenaIndex ≥ 0 →
      Unmapped s start «end» ((s.uncharge (s.gMmaps i).backingSize).setRecord i .cleared)
        (some ⟨(s.gMmaps i).base, (s.gMmaps i).backingSize⟩)
  | headCut {i} : munmapMatch s start = some i → ¬ (s.gMmaps i).Covered start «end» →
      start = (s.gMmaps i).liveLo → (s.gMmaps i).clamp «end» > (s.gMmaps i).liveLo →
      Unmapped s start «end»
        (s.setRecord i ((s.gMmaps i).withLiveLo ((s.gMmaps i).clamp «end»))) none
  | tailCut {i} : munmapMatch s start = some i → start > (s.gMmaps i).liveLo →
      (s.gMmaps i).clamp «end» ≥ (s.gMmaps i).liveHi →
      ¬ (s.gMmaps i).trims start ((s.gMmaps i).clamp «end») (s.gMmaps i).limit →
      Unmapped s start «end» (s.setRecord i ((s.gMmaps i).withLiveHi start)) none
  | trimmed {i} : munmapMatch s start = some i → start > (s.gMmaps i).liveLo →
      (s.gMmaps i).clamp «end» ≥ (s.gMmaps i).liveHi →
      (s.gMmaps i).trims start ((s.gMmaps i).clamp «end») (s.gMmaps i).limit →
      Unmapped s start «end»
        (((unityArenaReleaseRun s ((s.gMmaps i).arenaIndex.toNat + (s.gMmaps i).arenaKeepCount)
          ((s.gMmaps i).arenaCount - (s.gMmaps i).arenaKeepCount)).setRecord i
            ((s.gMmaps i).withLiveHi start).keepPart).uncharge
          (wrap ((s.gMmaps i).backingSize + 2 ^ 64 -
            ((s.gMmaps i).withLiveHi start).keepPart.backingSize))) none
  | hole {i} : munmapMatch s start = some i → (s.gMmaps i).clamp «end» < (s.gMmaps i).liveHi →
      (start > (s.gMmaps i).liveLo ∨ (s.gMmaps i).clamp «end» ≤ (s.gMmaps i).liveLo) →
      Unmapped s start «end» s none

/-- The lock-held section of `bionic_munmap` has one of the listed outcomes. -/
theorem munmap_locked_unmapped {s mm : MmapState} {start «end» : Nat} {b : Option Block}
    (h : munmapLocked s start «end» = (mm, b)) : Unmapped s start «end» mm b := by
  unfold munmapLocked at h
  split at h
  · cases h
    exact .missed ‹_›
  · rename_i i hmatch
    obtain ⟨-, hlo, hhi⟩ := (munmap_match_some.1 hmatch).1
    change (if start ≤ (s.gMmaps i).liveLo ∧ (s.gMmaps i).clamp «end» ≥ (s.gMmaps i).liveHi then _
      else if start ≤ (s.gMmaps i).liveLo ∧ (s.gMmaps i).clamp «end» > (s.gMmaps i).liveLo then
        (s.setRecord i ((s.gMmaps i).withLiveLo (if (s.gMmaps i).clamp «end» <
          (s.gMmaps i).liveHi then (s.gMmaps i).clamp «end» else (s.gMmaps i).liveHi)), none)
      else if (s.gMmaps i).clamp «end» ≥ (s.gMmaps i).liveHi ∧ start < (s.gMmaps i).liveHi then
        (munmapTail s i start ((s.gMmaps i).clamp «end») (s.gMmaps i).limit, none)
      else (s, none)) = _ at h
    split at h
    · rename_i hcover
      unfold munmapRelease at h
      simp only at h
      split at h <;> cases h
      · exact .runReleased hmatch hcover ‹_›
      · exact .blockReleased hmatch hcover ‹_›
    · rename_i hcover
      split at h
      · rename_i hhead
        have hclamp : (s.gMmaps i).clamp «end» < (s.gMmaps i).liveHi := by
          by_contra hge
          exact hcover ⟨hhead.1, Nat.le_of_not_lt hge⟩
        rw [if_pos hclamp] at h
        cases h
        exact .headCut hmatch hcover (Nat.le_antisymm hhead.1 hlo) hhead.2
      · rename_i hhead
        split at h
        · rename_i htail
          have hstart : start > (s.gMmaps i).liveLo := by
            by_contra hle
            exact hcover ⟨Nat.le_of_not_lt hle, htail.1⟩
          unfold munmapTail at h
          simp only [if_pos hstart] at h
          split at h <;> cases h
          · exact .trimmed hmatch hstart htail.1 ‹_›
          · exact .tailCut hmatch hstart htail.1 ‹_›
        · cases h
          exact .hole hmatch (by omega) (by omega)

/-- The last section of `bionic_mmap` fills in one unused record. -/
theorem recorded_step {s s' : Shared} {l l' : Pc} {i : Fin mmapSlots} {p : Nat}
    (h : MmapStep s l (.recorded i p) s' l') :
    (s.mm.gMmaps i).used = false ∧
      ∃ m v, s'.mm.gMmaps = Function.update s.mm.gMmaps i (mmapRecord m v) := by
  cases h with
  | @recorded m v mm _ hinsert =>
      obtain ⟨hunused, rfl⟩ := mmap_insert_some hinsert
      exact ⟨hunused, m, v, rfl⟩

/-- The section of `bionic_munmap` and what the thread does next. -/
theorem unmapped_step {s s' : Shared} {l l' : Pc} {start «end» : Nat}
    (h : MmapStep s l (.unmapped start «end») s' l') :
    l = .unmap start «end» ∧ ∃ b, Unmapped s.mm start «end» s'.mm b ∧
      l' = b.elim (.finished .munmapped) .freeBlock := by
  cases h with
  | unmapped hunmap => exact ⟨rfl, none, munmap_locked_unmapped hunmap, rfl⟩
  | unmappedBlock hunmap => exact ⟨rfl, some _, munmap_locked_unmapped hunmap, rfl⟩

end Asnx.Bionic
