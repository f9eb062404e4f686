import Asnx.Bionic.Arena

/-!
# Runs of arena slots

`unity_arena_take_run` finds a run of free slots whenever there is one, and takes the first one in
the direction of its scan; `unity_arena_release_run` gives it back (`arena_runs_right`).
-/

namespace Asnx.Bionic

open Bits

/-- The `count` slots from `first` on lie in the arena and are free. -/
def MmapState.FreeRun (s : MmapState) (count first : Nat) : Prop :=
  first + count ≤ s.gUnityArenaSlots ∧
    Disjoint (Set.Ico first (first + count)) (bits s.gUnityArenaUsed)

/-- What taking a run comes to. -/
structure TakesRun (s : MmapState) (count : Nat) (fromHigh : Bool) (s' : MmapState) (i p : Nat) :
    Prop where
  free : s.FreeRun count i
  first : ∀ j, s.FreeRun count j → if fromHigh then j ≤ i else i ≤ j
  bits_set : bits s'.gUnityArenaUsed = bits s.gUnityArenaUsed ∪ Set.Ico i (i + count)
  peak : s'.gUnityArenaUsed.cpop.toNat ≤ s'.gUnityArenaPeakSlots ∧
    s.gUnityArenaPeakSlots ≤ s'.gUnityArenaPeakSlots
  others : s' = { s with
    gUnityArenaUsed := s'.gUnityArenaUsed
    gUnityArenaPeakSlots := s'.gUnityArenaPeakSlots }
  address : p = wrap (s.gUnityArenaBase + i * unityDynamicRegionBytes)
  inside : s.gUnityArenaBase + s.gUnityArenaSlots * unityDynamicRegionBytes ≤ 2 ^ 64 →
    p = s.gUnityArenaBase + i * unityDynamicRegionBytes
  released : (unityArenaReleaseRun s' i count).gUnityArenaUsed = s.gUnityArenaUsed

variable {s s' : MmapState} {count i j p : Nat} {fromHigh : Bool}

/-- The candidates are the first indices that leave room for the run. -/
theorem MmapState.mem_candidates (hcount : count ≤ s.gUnityArenaSlots) :
    i ∈ s.candidates count fromHigh ↔ i + count ≤ s.gUnityArenaSlots := by
  have hmem : i ∈ s.candidates count fromHigh ↔ i < s.gUnityArenaSlots - count + 1 := by
    unfold candidates
    cases fromHigh with
    | false => exact List.mem_range
    | true => exact List.mem_reverse.trans List.mem_range
  rw [hmem]
  omega

/-- The candidates are tried upwards or downwards. -/
theorem MmapState.candidates_ordered (s : MmapState) (count : Nat) (fromHigh : Bool) :
    (s.candidates count fromHigh).Pairwise fun a b => if fromHigh then b ≤ a else a ≤ b := by
  have hrange : (List.range (s.gUnityArenaSlots - count + 1)).Pairwise (· ≤ ·) :=
    List.pairwise_le_range
  unfold candidates
  cases fromHigh with
  | false => exact hrange
  | true => exact List.pairwise_reverse.2 hrange

/-- A candidate that is free, as the code tests it, starts a free run. -/
theorem MmapState.freeRun_iff (hpos : 0 < count) (hslots : s.gUnityArenaSlots ≤ unityArenaMaxSlots)
    (hcount : count ≤ s.gUnityArenaSlots) :
    s.FreeRun count i ↔ i ∈ s.candidates count fromHigh ∧ s.runFree count i = true := by
  have hmax : s.gUnityArenaSlots ≤ 33 := hslots
  rw [mem_candidates hcount]
  refine and_congr_right fun hfits => ?_
  exact (s.runFree_iff hpos (by omega)).symm

/-- What the scan ends with is the first of the free runs in its direction. -/
theorem MmapState.find_candidates
    (h : (s.candidates count fromHigh).find? (s.runFree count) = some i)
    (hj : j ∈ s.candidates count fromHigh) (hfree : s.runFree count j = true) :
    if fromHigh then j ≤ i else i ≤ j := by
  obtain ⟨-, before, after, hsplit, hbefore⟩ := List.find?_eq_some_iff_append.1 h
  have hordered := s.candidates_ordered count fromHigh
  rw [hsplit] at hj hordered
  rcases List.mem_append.1 hj with hj | hj
  · -- what comes before has been tried and is not free
    have hnot := hbefore j hj
    rw [hfree] at hnot
    cases hnot
  · rcases List.mem_cons.1 hj with rfl | hj
    · cases fromHigh <;> exact Nat.le_refl _
    · exact (List.pairwise_cons.1 (List.pairwise_append.1 hordered).2.1).1 j hj

/-- Taking a run fails exactly when there is none. -/
theorem unity_arena_take_run_none_iff (hbase : s.gUnityArenaBase ≠ 0)
    (hslots : s.gUnityArenaSlots ≤ unityArenaMaxSlots) :
    unityArenaTakeRun s count fromHigh = none ↔ ¬ (0 < count ∧ ∃ first, s.FreeRun count first) := by
  have hmax : s.gUnityArenaSlots ≤ 33 := hslots
  unfold unityArenaTakeRun
  split
  · rename_i hguard
    refine iff_of_true rfl ?_
    rintro ⟨hpos, first, hfits, -⟩
    have : count ≤ unityArenaMaxSlots := by
      show count ≤ 33
      omega
    omega
  · rename_i hguard
    push Not at hguard
    obtain ⟨hne, -, -, hcount⟩ := hguard
    have hpos : 0 < count := Nat.pos_of_ne_zero hne
    cases hfind : (s.candidates count fromHigh).find? (s.runFree count) with
    | none =>
        refine iff_of_true rfl ?_
        rintro ⟨-, first, hfirst⟩
        obtain ⟨hmem, hfree⟩ := (MmapState.freeRun_iff hpos hslots hcount).1 hfirst
        exact List.find?_eq_none.1 hfind first hmem hfree
    | some i =>
        refine iff_of_false nofun fun hno => hno ⟨hpos, i, ?_⟩
        exact (MmapState.freeRun_iff hpos hslots hcount).2
          ⟨List.mem_of_find?_eq_some hfind, List.find?_some hfind⟩

/-- The peak is at least the number of slots in use. -/
theorem MmapState.occupy_peak (s : MmapState) (mask : BitVec 64) :
    (s.occupy mask).gUnityArenaUsed.cpop.toNat ≤ (s.occupy mask).gUnityArenaPeakSlots ∧
      s.gUnityArenaPeakSlots ≤ (s.occupy mask).gUnityArenaPeakSlots := by
  unfold occupy
  dsimp only
  split <;> omega

/-- Releasing a run that has been taken brings the bitmap back. -/
theorem release_taken_run (hslots : s.gUnityArenaSlots ≤ unityArenaMaxSlots) (hpos : 0 < count)
    (hfree : s.FreeRun count i)
    (hbits : bits s'.gUnityArenaUsed = bits s.gUnityArenaUsed ∪ Set.Ico i (i + count)) :
    (unityArenaReleaseRun s' i count).gUnityArenaUsed = s.gUnityArenaUsed := by
  refine eq_of_bits_eq ?_
  rw [bits_unity_arena_release_run s' hpos (hfree.1.trans hslots), hbits, Set.union_sdiff_right]
  exact hfree.2.symm.sdiff_eq_left

/-- `unity_arena_take_run` on an arena that has been set up: it succeeds exactly when there are
`count >= 1` free slots in a row, takes the lowest or the highest such run, and
`unity_arena_release_run` undoes it. -/
theorem arena_runs_right (hbase : s.gUnityArenaBase ≠ 0)
    (hslots : s.gUnityArenaSlots ≤ unityArenaMaxSlots) (count : Nat) (fromHigh : Bool) :
    ((∃ s' i p, unityArenaTakeRun s count fromHigh = some (s', i, p)) ↔
      0 < count ∧ ∃ first, s.FreeRun count first) ∧
    ∀ s' i p, unityArenaTakeRun s count fromHigh = some (s', i, p) →
      TakesRun s count fromHigh s' i p := by
  have hmax : s.gUnityArenaSlots ≤ 33 := hslots
  refine ⟨?_, fun s' i p htake => ?_⟩
  · rw [← not_iff_not, ← unity_arena_take_run_none_iff hbase hslots]
    rcases htake : unityArenaTakeRun s count fromHigh with _ | ⟨s', i, p⟩
    · exact iff_of_true nofun rfl
    · exact iff_of_false (fun h => h ⟨s', i, p, rfl⟩) nofun
  obtain ⟨hpos, hfits, hdisjoint, hoccupied, hbits, haddress⟩ :=
    unity_arena_take_run_some (hmax.trans (by decide)) htake
  have hfree : s.FreeRun count i := ⟨hfits, hdisjoint⟩
  refine ⟨hfree, fun j hj => ?_, hbits, ?_, ?_, haddress, fun hinside => ?_,
    release_taken_run hslots hpos hfree hbits⟩
  · -- the branch of the code that returns the index of the scan
    unfold unityArenaTakeRun at htake
    split at htake
    · cases htake
    · rename_i hguard
      push Not at hguard
      obtain ⟨hmem, hrunFree⟩ := (MmapState.freeRun_iff hpos hslots hguard.2.2.2).1 hj
      split at htake
      · cases htake
      · rename_i hfind
        cases htake
        exact MmapState.find_candidates hfind hmem hrunFree
  · rw [hoccupied]
    exact s.occupy_peak _
  · rw [hoccupied]
    rfl
  · rw [haddress]
    refine wrap_of_lt ?_
    have hlater : (i + 1) * unityDynamicRegionBytes ≤ s.gUnityArenaSlots *
      unityDynamicRegionBytes :=
      Nat.mul_le_mul_right _ (by omega)
    unfold unityDynamicRegionBytes at hlater hinside ⊢
    omega

/-- An arena of three slots, the middle one of which is in use. -/
def threeSlots : MmapState :=
  { MmapState.init with gUnityArenaBase := 0x8000000, gUnityArenaSlots := 3, gUnityArenaUsed := 2 }

/-- From above the last slot is taken, and there is no run of two. -/
theorem arena_runs_right_three :
    (∃ s', unityArenaTakeRun threeSlots 1 true = some (s', 2, 0x10000000) ∧
      TakesRun threeSlots 1 true s' 2 0x10000000) ∧
    ¬ (0 < 2 ∧ ∃ first, threeSlots.FreeRun 2 first) := by
  have hbase : threeSlots.gUnityArenaBase ≠ 0 := by decide
  have hslots : threeSlots.gUnityArenaSlots ≤ unityArenaMaxSlots := by decide
  refine ⟨⟨_, rfl, (arena_runs_right hbase hslots 1 true).2 _ _ _ rfl⟩, ?_⟩
  rw [← (arena_runs_right hbase hslots 2 false).1]
  rintro ⟨s', i, p, htake⟩
  cases htake

end Asnx.Bionic
