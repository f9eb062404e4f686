import Asnx.Bionic.MmapBookkeeping

/-!
# What `bionic_munmap` unmaps

A record stores one live interval, and `bionic_munmap` works on the first record that has the
start address live. A range that reaches an end of that interval is taken off it; a hole in the
middle is not recorded (`munmap_hole`). A mapping that is unmapped piece by piece, each piece
reaching an end of what is left of it, is freed with its last address (`munmap_live`).
-/

namespace Asnx.Bionic

open Ownership Bits Threads

/-- The live addresses of a record. -/
def MmapSlot.live (r : MmapSlot) : Set Nat := if r.used then Set.Ico r.liveLo r.liveHi else ∅

/-- The live addresses of all mappings. -/
def MmapState.live (s : MmapState) : Set Nat := ⋃ i, (s.gMmaps i).live

/-- The range reaches an end of the live interval. -/
def MmapSlot.Reached (r : MmapSlot) (start «end» : Nat) : Prop :=
  start = r.liveLo ∨ r.liveHi ≤ «end»

instance (r : MmapSlot) (start «end» : Nat) : Decidable (r.Reached start «end») :=
  inferInstanceAs (Decidable (_ ∨ _))

/-- What the section of `bionic_munmap` does to the records, with the block that is then freed. -/
structure MunmapEffect (s mm : MmapState) (start «end» : Nat) (b : Option Block) : Prop where
  /-- Without a record that has the start address live nothing changes. -/
  missed : munmapMatch s start = none → mm = s ∧ b = none
  /-- Only the first such record changes. -/
  others : ∀ i, munmapMatch s start = some i → ∀ j, j ≠ i → mm.gMmaps j = s.gMmaps j
  /-- A range that reaches an end of the live interval is taken off it. -/
  reached : ∀ i, munmapMatch s start = some i → (s.gMmaps i).Reached start «end» →
    (mm.gMmaps i).live = (s.gMmaps i).live \ Set.Ico start «end»
  /-- A hole changes nothing. -/
  hole : ∀ i, munmapMatch s start = some i → ¬ (s.gMmaps i).Reached start «end» → mm = s ∧ b = none
  /-- The record is freed when none of its live addresses remains. -/
  freed : ∀ i, munmapMatch s start = some i →
    ((mm.gMmaps i).used = false ↔ (s.gMmaps i).live ⊆ Set.Ico start «end»)
  /-- A freed record gives back the memory behind it. -/
  returned : ∀ i, munmapMatch s start = some i → (mm.gMmaps i).used = false →
    bits mm.gUnityArenaUsed = bits s.gUnityArenaUsed \ (s.gMmaps i).run ∧
      mm.gMmapBackingBytes = s.gMmapBackingBytes - (s.gMmaps i).backingSize ∧
      b = if (s.gMmaps i).arenaIndex ≥ 0 then none
        else some ⟨(s.gMmaps i).base, (s.gMmaps i).backingSize⟩
  /-- The range is no longer live when it meets only the first such record, and reaches an end of
  its live interval. -/
  live : (∀ i, ((s.gMmaps i).live ∩ Set.Ico start «end»).Nonempty →
      munmapMatch s start = some i ∧ (s.gMmaps i).Reached start «end») →
    mm.live = s.live \ Set.Ico start «end»

variable {T : Type*} [DecidableEq T] {A : Arena} {c d : Config T Shared Pc}

/-! ## The live intervals -/

omit [DecidableEq T] in
/-- A live interval ends within the window of its record, and a thread unmaps no empty range. -/
structure LiveInv (c : Config T Shared Pc) : Prop where
  window : ∀ i, (c.shared.mm.gMmaps i).used = true →
    (c.shared.mm.gMmaps i).liveHi ≤ (c.shared.mm.gMmaps i).limit
  range : ∀ t start «end», c.locals t = .unmap start «end» → start < «end»

theorem live_of_used {r : MmapSlot} (h : r.used = true) : r.live = Set.Ico r.liveLo r.liveHi :=
  if_pos h

theorem live_of_unused {r : MmapSlot} (h : r.used = false) : r.live = ∅ := by
  simp [MmapSlot.live, h]

theorem live_with_live_lo {r : MmapSlot} (h : r.used = true) (lo : Nat) :
    (r.withLiveLo lo).live = Set.Ico lo r.liveHi := if_pos h

theorem live_with_live_hi {r : MmapSlot} (h : r.used = true) (hi : Nat) :
    (r.withLiveHi hi).live = Set.Ico r.liveLo hi := if_pos h

@[simp] theorem live_keep_part (r : MmapSlot) : r.keepPart.live = r.live := rfl

/-- An accepted range is the one asked for, rounded up to whole pages. -/
theorem munmap_range_some {p n start «end» : Nat} (h : munmapRange p n = some (start, «end»)) :
    start = p ∧ «end» = p + pageUpSize n ∧ start < «end» := by
  unfold munmapRange at h
  split at h
  · cases h
  · split at h
    · cases h
    · split at h
      · cases h
      · rename_i hzero hsize hwrap
        cases h
        have hpages : pageUpSize n < 2 ^ 64 := by
          unfold pageUpSize
          split <;> omega
        have hle := Nat.mod_le (p + pageUpSize n) (2 ^ 64)
        unfold wrap at *
        refine ⟨rfl, ?_, ?_⟩ <;> omega

/-- Within the window, clamping a range to it does not change whether it reaches beyond the live
interval. -/
theorem clamp_of_lt {r : MmapSlot} {«end» : Nat} (hwindow : r.liveHi ≤ r.limit)
    (h : r.clamp «end» < r.liveHi) : r.clamp «end» = «end» := by
  unfold MmapSlot.clamp at *
  split at h <;> split <;> omega

theorem le_of_clamp {r : MmapSlot} {«end» : Nat} (h : r.liveHi ≤ r.clamp «end») :
    r.liveHi ≤ «end» := by
  unfold MmapSlot.clamp at h
  split at h <;> omega

/-! ## One section -/

/-- The effect of the section on the record it matched. -/
theorem unmapped_effect {s mm : MmapState} {start «end» : Nat} {b : Option Block}
    {i : Fin mmapSlots} (h : Unmapped s start «end» mm b) (hrange : start < «end»)
    (hmatch : munmapMatch s start = some i) (hwindow : (s.gMmaps i).liveHi ≤ (s.gMmaps i).limit) :
    ((s.gMmaps i).Reached start «end» ∧ (mm.gMmaps i).live =
      (s.gMmaps i).live \ Set.Ico start «end» ∧
        ((mm.gMmaps i).used = false ↔ (s.gMmaps i).live ⊆ Set.Ico start «end»)) ∨
      (¬ (s.gMmaps i).Reached start «end» ∧ mm = s ∧ b = none ∧
        ¬ (s.gMmaps i).live ⊆ Set.Ico start «end») := by
  obtain ⟨hused, hlo, hhi⟩ := (munmap_match_some.1 hmatch).1
  rw [live_of_used hused]
  cases h with
  | missed hmissed => exact absurd (hmissed.symm.trans hmatch) (by simp)
  -- the range covers all that lives
  | @runReleased k hk hcover | @blockReleased k hk hcover =>
      obtain rfl := Option.some.inj (hk.symm.trans hmatch)
      have hend := le_of_clamp hcover.2
      have hsub : Set.Ico (s.gMmaps k).liveLo (s.gMmaps k).liveHi ⊆ Set.Ico start «end» :=
        Set.Ico_subset_Ico hcover.1 hend
      refine .inl ⟨.inr hend, ?_, ?_⟩
      · rw [set_record_gMmaps, Function.update_self, live_of_unused rfl,
          Set.sdiff_eq_empty.2 hsub]
      · rw [set_record_gMmaps, Function.update_self]
        exact ⟨fun _ => hsub, fun _ => rfl⟩
  -- the range ends within what lives: the last address lives on
  | @headCut k hk hcover hstart =>
      obtain rfl := Option.some.inj (hk.symm.trans hmatch)
      have hlt : (s.gMmaps k).clamp «end» < (s.gMmaps k).liveHi := by
        by_contra hge
        exact hcover ⟨hstart.le, Nat.le_of_not_lt hge⟩
      have hclamp := clamp_of_lt hwindow hlt
      refine .inl ⟨.inl hstart, ?_, ?_⟩
      · rw [set_record_gMmaps, Function.update_self, live_with_live_lo hused]
        ext a
        simp only [Set.mem_Ico, Set.mem_sdiff]
        omega
      · rw [set_record_gMmaps, Function.update_self]
        refine ⟨fun h => absurd (hused.symm.trans h) (by simp), fun h => ?_⟩
        have := h (a := (s.gMmaps k).liveHi - 1) ⟨by omega, by omega⟩
        simp only [Set.mem_Ico] at this
        omega
  -- the range begins within what lives: the first address lives on
  | @tailCut k hk hstart hend | @trimmed k hk hstart hend =>
      obtain rfl := Option.some.inj (hk.symm.trans hmatch)
      have hend := le_of_clamp hend
      refine .inl ⟨.inr hend, ?_, ?_⟩
      · simp only [uncharge_gMmaps, set_record_gMmaps, Function.update_self, live_keep_part]
        rw [live_with_live_hi hused]
        ext a
        simp only [Set.mem_Ico, Set.mem_sdiff]
        omega
      · simp only [uncharge_gMmaps, set_record_gMmaps, Function.update_self]
        refine ⟨fun h => absurd (hused.symm.trans h) (by simp), fun h => ?_⟩
        have := h (a := (s.gMmaps k).liveLo) ⟨by omega, by omega⟩
        simp only [Set.mem_Ico] at this
        omega
  -- the range lies inside, and nothing is done
  | @hole k hk hlt hinside =>
      obtain rfl := Option.some.inj (hk.symm.trans hmatch)
      have hclamp := clamp_of_lt hwindow hlt
      refine .inr ⟨?_, rfl, rfl, fun h => ?_⟩
      · unfold MmapSlot.Reached
        omega
      · have := h (a := (s.gMmaps k).liveLo) ⟨by omega, by omega⟩
        simp only [Set.mem_Ico] at this
        omega

omit [DecidableEq T] in
/-- A record whose live addresses the range does not meet stays as it is. -/
theorem unmapped_other (hinv : MmapInv A c) {start «end» : Nat} {mm : MmapState}
    {b : Option Block} (h : Unmapped c.shared.mm start «end» mm b) (hrange : start < «end»)
    {j : Fin mmapSlots} (hj : Disjoint (c.shared.mm.gMmaps j).live (Set.Ico start «end»)) :
    mm.gMmaps j = c.shared.mm.gMmaps j := by
  cases hmatch : munmapMatch c.shared.mm start with
  | none =>
      cases h with
      | missed => rfl
      | runReleased hk | blockReleased hk | headCut hk | tailCut hk | trimmed hk | hole hk =>
          exact absurd (hk.symm.trans hmatch) (by simp)
  | some i =>
      refine (hinv.unmapped_record h hmatch).1 j ?_
      rintro rfl
      obtain ⟨hused, hlo, hhi⟩ := (munmap_match_some.1 hmatch).1
      rw [live_of_used hused] at hj
      exact Set.disjoint_left.1 hj ⟨hlo, hhi⟩ ⟨Nat.le_refl _, hrange⟩

omit [DecidableEq T] in
/-- A freed record gives back its arena slots, its bytes on the counter and its block. -/
theorem unmapped_returned (hinv : MmapInv A c) {start «end» : Nat} {mm : MmapState}
    {b : Option Block} {i : Fin mmapSlots} (h : Unmapped c.shared.mm start «end» mm b)
    (hmatch : munmapMatch c.shared.mm start = some i) (hfreed : (mm.gMmaps i).used = false) :
    bits mm.gUnityArenaUsed = bits c.shared.mm.gUnityArenaUsed \ (c.shared.mm.gMmaps i).run ∧
      mm.gMmapBackingBytes = c.shared.mm.gMmapBackingBytes - (c.shared.mm.gMmaps i).backingSize ∧
      b = if (c.shared.mm.gMmaps i).arenaIndex ≥ 0 then none
        else some ⟨(c.shared.mm.gMmaps i).base, (c.shared.mm.gMmaps i).backingSize⟩ := by
  have hused := (munmap_match_some.1 hmatch).1.1
  have hbits := (hinv.unmapped_record h hmatch).2
  have hrun : (mm.gMmaps i).run = ∅ := if_neg (by simp [hfreed])
  have hcharge : (c.shared.mm.gMmaps i).backingSize ≤ c.shared.mm.gMmapBackingBytes := by
    rw [hinv.bytes, ← charged_of_used hused]
    exact charged_le_sum c.shared.mm.gMmaps i
  rw [hrun, Set.sdiff_empty] at hbits
  refine ⟨hbits, ?_⟩
  cases h with
  | missed hmissed => exact absurd (hmissed.symm.trans hmatch) (by simp)
  | @runReleased k hk _ hindex =>
      obtain rfl := Option.some.inj (hk.symm.trans hmatch)
      rw [if_pos hindex, set_record_gMmapBackingBytes, unity_arena_release_run_gMmapBackingBytes,
        uncharge_gMmapBackingBytes hcharge]
      exact ⟨rfl, rfl⟩
  | @blockReleased k hk _ hindex =>
      obtain rfl := Option.some.inj (hk.symm.trans hmatch)
      rw [if_neg hindex, set_record_gMmapBackingBytes, uncharge_gMmapBackingBytes hcharge]
      exact ⟨rfl, rfl⟩
  | @headCut k hk | @tailCut k hk | @trimmed k hk =>
      obtain rfl := Option.some.inj (hk.symm.trans hmatch)
      simp only [uncharge_gMmaps, set_record_gMmaps, Function.update_self] at hfreed
      exact absurd (hused.symm.trans hfreed) (by simp)
  | hole => exact absurd (hused.symm.trans hfreed) (by simp)

omit [DecidableEq T] in
/-- All that the section of `bionic_munmap` does. -/
theorem munmap_effect (hinv : MmapInv A c) (hlive : LiveInv c) {start «end» : Nat}
    {mm : MmapState} {b : Option Block} (hrange : start < «end»)
    (h : Unmapped c.shared.mm start «end» mm b) : MunmapEffect c.shared.mm mm start «end» b := by
  have heffect := fun i (hmatch : munmapMatch c.shared.mm start = some i) =>
    unmapped_effect h hrange hmatch (hlive.window i (munmap_match_some.1 hmatch).1.1)
  have hmissed : munmapMatch c.shared.mm start = none → mm = c.shared.mm ∧ b = none := by
    intro hnone
    cases h with
    | missed => exact ⟨rfl, rfl⟩
    | runReleased hk | blockReleased hk | headCut hk | tailCut hk | trimmed hk | hole hk =>
        exact absurd (hk.symm.trans hnone) (by simp)
  refine ⟨hmissed, fun i hmatch => (hinv.unmapped_record h hmatch).1, ?_, ?_, ?_,
    fun i hmatch => unmapped_returned hinv h hmatch, ?_⟩
  · intro i hmatch hreached
    rcases heffect i hmatch with ⟨-, hcut, -⟩ | ⟨hhole, -⟩
    · exact hcut
    · exact absurd hreached hhole
  · intro i hmatch hhole
    rcases heffect i hmatch with ⟨hreached, -⟩ | ⟨-, hsame, hb, -⟩
    · exact absurd hreached hhole
    · exact ⟨hsame, hb⟩
  · intro i hmatch
    rcases heffect i hmatch with ⟨-, -, hfreed⟩ | ⟨-, rfl, -, hnot⟩
    · exact hfreed
    · have hused := (munmap_match_some.1 hmatch).1.1
      exact ⟨fun h => absurd (hused.symm.trans h) (by simp), fun h => absurd h hnot⟩
  · intro hmeets
    unfold MmapState.live
    rw [Set.iUnion_sdiff]
    refine Set.iUnion_congr fun j => ?_
    by_cases hj : ((c.shared.mm.gMmaps j).live ∩ Set.Ico start «end»).Nonempty
    · obtain ⟨hmatch, hreached⟩ := hmeets j hj
      rcases heffect j hmatch with ⟨-, hcut, -⟩ | ⟨hhole, -⟩
      · exact hcut
      · exact absurd hreached hhole
    · rw [Set.not_nonempty_iff_eq_empty, ← Set.disjoint_iff_inter_eq_empty] at hj
      rw [hj.sdiff_eq_left, unmapped_other hinv h hrange hj]

/-! ## Runs -/

/-- The addresses that the sections of `bionic_munmap` in a run were asked to unmap. -/
def pieces (trace : List (T × Event)) : Set Nat :=
  {a | ∃ t start «end», (t, Event.unmapped start «end») ∈ trace ∧ start ≤ a ∧ a < «end»}

/-- A step at which a range that meets the live interval of record `i` finds this record first, and
reaches an end of the interval. -/
def CutStep (i : Fin mmapSlots) (c : Config T Shared Pc) (label : T × Event)
    (d : Config T Shared Pc) : Prop :=
  Step mmapProgram c label d ∧ ∀ start «end», label.2 = .unmapped start «end» →
    ((c.shared.mm.gMmaps i).live ∩ Set.Ico start «end»).Nonempty →
      munmapMatch c.shared.mm start = some i ∧ (c.shared.mm.gMmaps i).Reached start «end»

/-- A step that frees record `i` and returns the memory behind it: the arena slots and the bytes at
once, a block of the allocator in the next step of the thread. -/
structure Frees (i : Fin mmapSlots) (c : Config T Shared Pc) (label : T × Event)
    (d : Config T Shared Pc) : Prop where
  step : Step mmapProgram c label d
  before : (c.shared.mm.gMmaps i).used = true
  after : (d.shared.mm.gMmaps i).used = false
  slots : bits d.shared.mm.gUnityArenaUsed =
    bits c.shared.mm.gUnityArenaUsed \ (c.shared.mm.gMmaps i).run
  bytes : d.shared.mm.gMmapBackingBytes =
    c.shared.mm.gMmapBackingBytes - (c.shared.mm.gMmaps i).backingSize
  block : ¬ (c.shared.mm.gMmaps i).arenaIndex ≥ 0 →
    d.locals label.1 = .freeBlock ⟨(c.shared.mm.gMmaps i).base, (c.shared.mm.gMmaps i).backingSize⟩

/-- The section of `bionic_munmap` keeps the live intervals within their windows. -/
theorem unmapped_window {s mm : MmapState} {start «end» : Nat} {b : Option Block}
    (h : Unmapped s start «end» mm b)
    (hwindow : ∀ i, (s.gMmaps i).used = true → (s.gMmaps i).liveHi ≤ (s.gMmaps i).limit)
    (i : Fin mmapSlots) (hused : (mm.gMmaps i).used = true) :
    (mm.gMmaps i).liveHi ≤ (mm.gMmaps i).limit := by
  cases h with
  | missed | hole => exact hwindow i hused
  | @runReleased k | @blockReleased k =>
      by_cases hi : i = k
      · subst hi
        simp only [set_record_gMmaps, Function.update_self] at hused
        cases hused
      · simp only [set_record_gMmaps, Function.update_of_ne hi,
          unity_arena_release_run_gMmaps, uncharge_gMmaps] at hused ⊢
        exact hwindow i hused
  | @headCut k hk | @tailCut k hk | @trimmed k hk =>
      obtain ⟨hmatched, -, hhi⟩ := (munmap_match_some.1 hk).1
      by_cases hi : i = k
      · subst hi
        simp only [uncharge_gMmaps, set_record_gMmaps, Function.update_self]
        first
          | exact hwindow i hmatched
          | exact hhi.le.trans (hwindow i hmatched)
      · simp only [set_record_gMmaps, Function.update_of_ne hi,
          unity_arena_release_run_gMmaps, uncharge_gMmaps] at hused ⊢
        exact hwindow i hused

omit [DecidableEq T] in
theorem pieces_append (trace last : List (T × Event)) :
    pieces (trace ++ last) = pieces trace ∪ pieces last := by
  ext a
  simp only [pieces, List.mem_append, Set.mem_union, Set.mem_ofPred_eq]
  constructor
  · rintro ⟨t, start, «end», h | h, ha⟩
    · exact .inl ⟨t, start, «end», h, ha⟩
    · exact .inr ⟨t, start, «end», h, ha⟩
  · rintro (⟨t, start, «end», h, ha⟩ | ⟨t, start, «end», h, ha⟩)
    · exact ⟨t, start, «end», .inl h, ha⟩
    · exact ⟨t, start, «end», .inr h, ha⟩

omit [DecidableEq T] in
theorem pieces_unmapped (t : T) (start «end» : Nat) :
    pieces [(t, Event.unmapped start «end»)] = Set.Ico start «end» := by
  ext a
  simp only [pieces, List.mem_singleton, Set.mem_ofPred_eq, Set.mem_Ico]
  constructor
  · rintro ⟨_, _, _, h, ha⟩
    cases h
    exact ha
  · intro ha
    exact ⟨t, start, «end», rfl, ha⟩

omit [DecidableEq T] in
theorem pieces_other {t : T} {e : Event} (h : ∀ start «end», e ≠ .unmapped start «end») :
    pieces [(t, e)] = ∅ := by
  refine Set.eq_empty_of_forall_notMem fun a => ?_
  rintro ⟨_, start, «end», hmem, -⟩
  cases List.mem_singleton.1 hmem
  exact h start «end» rfl

/-- Every step keeps the live intervals within their windows. -/
theorem live_inv_step {label : T × Event} (hlive : LiveInv c) (h : Step mmapProgram c label d) :
    LiveInv d := by
  cases h with
  | @mk t x e s l hnext =>
      have hstep := mmap_next_step hnext
      refine ⟨?_, fun u start «end» hu => ?_⟩
      · cases e with
        | callMmap | callMunmap | internal | returned =>
            rw [Config.set_shared, step_records hstep (by simp) (by simp)]
            exact hlive.window
        | recorded i p =>
            obtain ⟨-, m, v, hrecords⟩ := recorded_step hstep
            intro j
            rw [Config.set_shared, hrecords]
            by_cases hji : j = i
            · subst hji
              rw [Function.update_self]
              exact fun _ => Nat.le_refl _
            · rw [Function.update_of_ne hji]
              exact hlive.window j
        | unmapped start «end» =>
            obtain ⟨-, b, hunmap, -⟩ := unmapped_step hstep
            exact unmapped_window hunmap hlive.window
      · by_cases hut : u = t
        · subst hut
          rw [Config.set_locals_self] at hu
          generalize c.locals u = l₀ at hstep
          cases hstep with
          | munmapAccepted hrange =>
              cases hu
              exact (munmap_range_some hrange).2.2
          | allocated => split at hu <;> cases hu
          | _ => cases hu
        · rw [c.set_locals_other hut] at hu
          exact hlive.range u start «end» hu

theorem live_inv_run {base size : Nat} {trace : List (T × Event)}
    (h : Run (Step mmapProgram) (mmapStart T base size) trace c) : LiveInv c := by
  refine h.invariant ⟨fun i hi => ?_, fun t _ _ ht => ?_⟩ fun _ _ _ => live_inv_step
  · cases hi
  · cases ht

/-- A used record stays in use with the live addresses that were not unmapped, or is freed. -/
theorem cut_step {i : Fin mmapSlots} {label : T × Event} (hinv : MmapInv A c) (hlive : LiveInv c)
    (hused : (c.shared.mm.gMmaps i).used = true) (hne : (c.shared.mm.gMmaps i).live.Nonempty)
    (h : CutStep i c label d) :
    ((d.shared.mm.gMmaps i).used = true ∧
        (d.shared.mm.gMmaps i).live = (c.shared.mm.gMmaps i).live \ pieces [label] ∧
        (d.shared.mm.gMmaps i).live.Nonempty) ∨ Frees i c label d := by
  obtain ⟨hstep, hcut⟩ := h
  -- a step that unmaps nothing leaves the record alone
  have hsame : ∀ e : Event, (∀ start «end», e ≠ .unmapped start «end») → ∀ t, label = (t, e) →
      d.shared.mm.gMmaps i = c.shared.mm.gMmaps i →
      ((d.shared.mm.gMmaps i).used = true ∧
        (d.shared.mm.gMmaps i).live = (c.shared.mm.gMmaps i).live \ pieces [label] ∧
        (d.shared.mm.gMmaps i).live.Nonempty) := by
    rintro e he t rfl hrecord
    rw [hrecord, pieces_other he, Set.sdiff_empty]
    exact ⟨hused, rfl, hne⟩
  cases hstep with
  | @mk t x e s l hnext =>
      have hmove := mmap_next_step hnext
      cases e with
      | callMmap | callMunmap | internal | returned =>
          refine .inl (hsame _ (by simp) t rfl ?_)
          rw [Config.set_shared, step_records hmove (by simp) (by simp)]
      | recorded j p =>
          obtain ⟨hunused, m, v, hrecords⟩ := recorded_step hmove
          refine .inl (hsame _ (by simp) t rfl ?_)
          have hne : i ≠ j := by
            rintro rfl
            exact absurd (hused.symm.trans hunused) (by simp)
          rw [Config.set_shared, hrecords, Function.update_of_ne hne]
      | unmapped start «end» =>
          obtain ⟨hl, b, hunmap, hl'⟩ := unmapped_step hmove
          have hrange := hlive.range t start «end» hl
          have heffect := munmap_effect hinv hlive hrange hunmap
          rw [pieces_unmapped]
          -- a range that meets the record reaches it, by the condition on the step
          by_cases hmeets : ((c.shared.mm.gMmaps i).live ∩ Set.Ico start «end»).Nonempty
          · obtain ⟨hmatch, hreached⟩ := hcut start «end» rfl hmeets
            have hlive' := heffect.reached i hmatch hreached
            by_cases hsub : (c.shared.mm.gMmaps i).live ⊆ Set.Ico start «end»
            · have hfreed := (heffect.freed i hmatch).2 hsub
              obtain ⟨hslots, hbytes, hblock⟩ := heffect.returned i hmatch hfreed
              refine .inr ⟨.mk hnext, hused, hfreed, hslots, hbytes, fun hindex => ?_⟩
              rw [if_neg hindex] at hblock
              rw [Config.set_locals_self, hl', hblock]
              rfl
            · refine .inl ⟨?_, hlive', ?_⟩
              · by_contra hfreed
                exact hsub ((heffect.freed i hmatch).1 (Bool.not_eq_true _ ▸ hfreed))
              · rw [Config.set_shared, hlive']
                exact Set.sdiff_nonempty.2 hsub
          · rw [Set.not_nonempty_iff_eq_empty, ← Set.disjoint_iff_inter_eq_empty] at hmeets
            have hrecord := unmapped_other hinv hunmap hrange hmeets
            refine .inl ?_
            rw [Config.set_shared, hrecord, hmeets.sdiff_eq_left]
            exact ⟨hused, rfl, hne⟩

/-- Record `i` is freed at some point of the run. -/
def FreedIn (i : Fin mmapSlots) (c : Config T Shared Pc) (trace : List (T × Event))
    (d : Config T Shared Pc) : Prop :=
  ∃ before label after c₁ c₂, trace = before ++ label :: after ∧ Run (CutStep i) c before c₁ ∧
    Frees i c₁ label c₂ ∧ Run (CutStep i) c₂ after d

/-- A run keeps a record with the live addresses that were not unmapped, or frees it. -/
theorem cut_run {i : Fin mmapSlots} {trace : List (T × Event)} (hinv : MmapInv A c)
    (hlive : LiveInv c) (hused : (c.shared.mm.gMmaps i).used = true)
    (hne : (c.shared.mm.gMmaps i).live.Nonempty) (h : Run (CutStep i) c trace d) :
    ((d.shared.mm.gMmaps i).used = true ∧
        (d.shared.mm.gMmaps i).live = (c.shared.mm.gMmaps i).live \ pieces trace ∧
        (d.shared.mm.gMmaps i).live.Nonempty) ∨ FreedIn i c trace d := by
  induction h with
  | refl =>
      refine .inl ⟨hused, ?_, hne⟩
      simp [pieces]
  | @snoc d e trace label hrun hlast ih =>
      have hrun' := hrun.mono fun _ _ _ h => h.1
      have hinv' := mmap_inv_run hinv hrun'
      have hlive' := hrun'.invariant hlive fun _ _ _ => live_inv_step
      rcases ih with ⟨hused', hcut, hne'⟩ | ⟨before, first, after, c₁, c₂, rfl, hbefore,
        hfrees, hafter⟩
      · rcases cut_step hinv' hlive' hused' hne' hlast with ⟨hused'', hcut', hne''⟩ | hfrees
        · refine .inl ⟨hused'', ?_, hne''⟩
          rw [hcut', hcut, pieces_append, Set.sdiff_sdiff]
        · exact .inr ⟨trace, label, [], d, e, rfl, hrun, hfrees, .refl _⟩
      · refine .inr ⟨before, first, after ++ [label], c₁, c₂, ?_, hbefore, hfrees,
          hafter.snoc hlast⟩
        rw [List.append_assoc, List.cons_append]

/-- What `bionic_munmap` unmaps. In every reachable state its section takes a range off the first
record that has the start address live, where the range reaches an end of the live interval, and
leaves a hole alone; the record is freed, and the memory behind it returned, exactly when none of
its live addresses remains. So a mapping that is unmapped in pieces which find its record first
and reach an end of what is left of it is freed once they cover it. -/
theorem munmap_live {base size : Nat} (hfits : base + size ≤ 2 ^ 64) {trace : List (T × Event)}
    (h : Run (Step mmapProgram) (mmapStart T base size) trace c) :
    (∀ p n start «end» mm b, munmapRange p n = some (start, «end») →
      munmapLocked c.shared.mm start «end» = (mm, b) →
      start = p ∧ «end» = p + pageUpSize n ∧ MunmapEffect c.shared.mm mm start «end» b) ∧
    ∀ i trace d, (c.shared.mm.gMmaps i).used = true → (c.shared.mm.gMmaps i).live.Nonempty →
      Run (CutStep i) c trace d → (c.shared.mm.gMmaps i).live ⊆ pieces trace →
      FreedIn i c trace d := by
  obtain ⟨A, hinv⟩ := mmap_inv_start (T := T) hfits
  have hinv := mmap_inv_run hinv h
  have hlive := live_inv_run h
  refine ⟨fun p n start «end» mm b hrange hlocked => ?_, fun i trace d hused hne hrun hcover => ?_⟩
  · obtain ⟨hstart, hend, hlt⟩ := munmap_range_some hrange
    exact ⟨hstart, hend, munmap_effect hinv hlive hlt (munmap_locked_unmapped hlocked)⟩
  · rcases cut_run hinv hlive hused hne hrun with ⟨-, hcut, hleft⟩ | hfreed
    · rw [hcut, Set.sdiff_nonempty] at hleft
      exact absurd hcover hleft
    · exact hfreed

/-- A thread maps three pages. -/
def mapThreePages : List (Unit × Choice) :=
  [((), .callMmap ⟨0x3000, 0x20, -1, 0⟩), ((), .go), ((), .memalign (some 0x1000)),
    ((), .fileRead none), ((), .go), ((), .go)]

/-- The thread unmaps the first two pages and then the third. -/
def unmapTwoPieces : List (Unit × Choice) :=
  [((), .callMunmap 0x1000 0x2000), ((), .go), ((), .go),
    ((), .callMunmap 0x3000 0x1000), ((), .go)]

/-- The mapping of three pages is freed with its second piece. -/
theorem munmap_live_example : ∃ (trace pieces : List (Unit × Event)) (c d : Config Unit Shared Pc),
    Run (Step mmapProgram) (mmapStart Unit 0 0) trace c ∧
      (c.shared.mm.gMmaps 0).live = Set.Ico 0x1000 0x4000 ∧ Run (CutStep 0) c pieces d ∧
      FreedIn 0 c pieces d := by
  have htest : (mmapProgram.exec (mmapStart Unit 0 0) mapThreePages).any (fun r =>
      decide ((r.2.shared.mm.gMmaps 0).used = true ∧ (r.2.shared.mm.gMmaps 0).liveLo = 0x1000 ∧
        (r.2.shared.mm.gMmaps 0).liveHi = 0x4000) &&
      (mmapProgram.execIf (fun c label => match label.2 with
        | .unmapped start «end» => decide (munmapMatch c.shared.mm start = some 0 ∧
            (c.shared.mm.gMmaps 0).Reached start «end»)
        | _ => true) r.2 unmapTwoPieces).any fun q =>
          decide (((), .unmapped 0x1000 0x3000) ∈ q.1 ∧ ((), .unmapped 0x3000 0x4000) ∈ q.1)) =
      true := by decide +kernel
  obtain ⟨trace, c, hrun, htest⟩ := Program.exec_test htest
  obtain ⟨hrecord, htest⟩ := Bool.and_eq_true_iff.1 htest
  obtain ⟨hused, hlo, hhi⟩ := of_decide_eq_true hrecord
  obtain ⟨⟨pieces', d⟩, hexec, htest⟩ := (Option.any_eq_true _ _).1 htest
  obtain ⟨hfirst, hsecond⟩ := of_decide_eq_true htest
  have hlive : (c.shared.mm.gMmaps 0).live = Set.Ico 0x1000 0x4000 := by
    rw [live_of_used hused, hlo, hhi]
  have hcut : Run (CutStep 0) c pieces' d := by
    refine (Program.exec_if_run hexec).mono fun c label d h => ⟨h.1, ?_⟩
    intro start «end» hlabel _
    have := h.2
    rw [hlabel] at this
    exact of_decide_eq_true this
  refine ⟨trace, pieces', c, d, hrun, hlive, hcut, ?_⟩
  refine (munmap_live (by decide) hrun).2 0 pieces' d hused ?_ hcut fun a ha => ?_
  · rw [hlive]
    exact ⟨0x1000, by decide⟩
  · rw [hlive] at ha
    by_cases hlt : a < 0x3000
    · exact ⟨(), 0x1000, 0x3000, hfirst, ha.1, hlt⟩
    · exact ⟨(), 0x3000, 0x4000, hsecond, Nat.le_of_not_lt hlt, ha.2⟩

/-- Unmapping the middle one of three pages leaves all three live. -/
theorem munmap_hole : ¬ ∀ (trace : List (Unit × Event)) (c : Config Unit Shared Pc)
    (p n start «end» : Nat) (mm : MmapState) (b : Option Block),
    Run (Step mmapProgram) (mmapStart Unit 0 0) trace c → p % 0x1000 = 0 →
    munmapRange p n = some (start, «end») → munmapLocked c.shared.mm start «end» = (mm, b) →
    mm.live = c.shared.mm.live \ Set.Ico start «end» := by
  intro h
  have htest : (mmapProgram.exec (mmapStart Unit 0 0) mapThreePages).any (fun r =>
      decide (((munmapLocked r.2.shared.mm 0x2000 0x3000).1.gMmaps 0).used = true ∧
        ((munmapLocked r.2.shared.mm 0x2000 0x3000).1.gMmaps 0).liveLo = 0x1000 ∧
        ((munmapLocked r.2.shared.mm 0x2000 0x3000).1.gMmaps 0).liveHi = 0x4000)) = true := by
    decide +kernel
  obtain ⟨trace, c, hrun, htest⟩ := Program.exec_test htest
  obtain ⟨hused, hlo, hhi⟩ := of_decide_eq_true htest
  have hlive := h trace c 0x2000 0x1000 0x2000 0x3000 _ _ hrun (by decide) (by decide)
    (Prod.mk.eta (p := munmapLocked c.shared.mm 0x2000 0x3000)).symm
  have hmem : 0x2000 ∈ (munmapLocked c.shared.mm 0x2000 0x3000).1.live := by
    refine Set.mem_iUnion.2 ⟨0, ?_⟩
    rw [live_of_used hused, hlo, hhi]
    decide
  rw [hlive] at hmem
  exact hmem.2 (by decide)

end Asnx.Bionic
