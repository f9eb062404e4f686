import Asnx.Bionic.Mmap
import Asnx.Library.Ownership

/-!
# Who holds which part of the arena and of the heap

The abstract model of the mmap layer. An owner, which is a record of the table or a thread
inside a call, holds nothing, a block of the allocator or a run of arena slots. `Ledger.Move`
lists what may happen to the holdings; `Ledger.Sound` says that nothing is held twice and
nothing is leaked, and every move preserves it (`Sound.move`).
-/

namespace Asnx.Bionic

open Ownership

/-- An arena that occupies a part of the address space; it may be empty. -/
structure Arena where
  base : Nat
  slots : Nat
  base_pos : 0 < slots → 0 < base
  slots_le : slots ≤ unityArenaMaxSlots
  fits : base + slots * unityDynamicRegionBytes ≤ 2 ^ 64

/-- All of the arena. -/
def Arena.block (A : Arena) : Block := ⟨A.base, A.slots * unityDynamicRegionBytes⟩

/-- The memory of a run of slots. -/
def Arena.runBlock (A : Arena) (first count : Nat) : Block :=
  ⟨A.base + first * unityDynamicRegionBytes, count * unityDynamicRegionBytes⟩

/-- What an owner can hold: a block of the allocator, or a run of arena slots with its memory. -/
inductive Hold where
  | block (b : Block)
  | run (b : Block) (first count : Nat)
  deriving DecidableEq, Repr

namespace Hold

/-- The memory behind a holding. -/
def backing : Hold → Block
  | .block b | .run b _ _ => b

/-- The arena slots of a holding. -/
def slots : Hold → Set Nat
  | .block _ => ∅
  | .run _ first count => Set.Ico first (first + count)

/-- The allocator's blocks of a holding. -/
def blocks : Hold → Set Block
  | .block b => {b}
  | .run .. => ∅

/-- A run lies in the arena and owns the memory of its slots. -/
def InArena (A : Arena) : Hold → Prop
  | .block _ => True
  | .run b first count => 0 < count ∧ first + count ≤ A.slots ∧ b = A.runBlock first count

end Hold

/-- The arena slots behind an optional holding. -/
def slotsOf (h : Option Hold) : Set Nat := h.elim ∅ Hold.slots

/-- The allocator's blocks behind an optional holding. -/
def blocksOf (h : Option Hold) : Set Block := h.elim ∅ Hold.blocks

@[simp] theorem slots_of_none : slotsOf none = ∅ := rfl
@[simp] theorem slots_of_block (b : Block) : slotsOf (some (.block b)) = ∅ := rfl
@[simp] theorem slots_of_run (b : Block) (first count : Nat) :
    slotsOf (some (.run b first count)) = Set.Ico first (first + count) := rfl
@[simp] theorem blocks_of_none : blocksOf none = ∅ := rfl
@[simp] theorem blocks_of_block (b : Block) : blocksOf (some (.block b)) = {b} := rfl
@[simp] theorem blocks_of_run (b : Block) (first count : Nat) :
    blocksOf (some (.run b first count)) = ∅ := rfl

/-- The slots that go when only the first ones of a run are kept. -/
theorem run_sdiff_kept (first keep count : Nat) :
    Set.Ico first (first + count) \ Set.Ico first (first + keep) =
      Set.Ico (first + keep) (first + count) := by
  ext k
  simp only [Set.mem_sdiff, Set.mem_Ico]
  omega

/-- What every owner holds, the slots marked used and the live blocks. -/
structure Ledger (ι : Type*) where
  hold : ι → Option Hold
  slots : Set Nat
  heap : Set Block

namespace Ledger

variable {ι : Type*} [DecidableEq ι]

/-- What may happen to the holdings. -/
inductive Move (A : Arena) : Ledger ι → Ledger ι → Prop where
  | stay (L) : Move A L L
  | takeRun (L o first count) :
      L.hold o = none → 0 < count → first + count ≤ A.slots →
      Disjoint (Set.Ico first (first + count)) L.slots →
      Move A L
        ⟨Function.update L.hold o (some (.run (A.runBlock first count) first count)),
          L.slots ∪ Set.Ico first (first + count), L.heap⟩
  | takeBlock (L o b) :
      L.hold o = none → 0 < b.base → 0 < b.size → b.base + b.size ≤ 2 ^ 64 →
      b.Apart A.block → (∀ c ∈ L.heap, b.Apart c) →
      Move A L ⟨Function.update L.hold o (some (.block b)), L.slots, L.heap ∪ {b}⟩
  | giveRun (L o b first count) :
      L.hold o = some (.run b first count) →
      Move A L
        ⟨Function.update L.hold o none, L.slots \ Set.Ico first (first + count), L.heap⟩
  | giveBlock (L o b) :
      L.hold o = some (.block b) →
      Move A L
        ⟨Function.update L.hold o none, L.slots, {c | c ∈ L.heap ∧ c.base ≠ b.base}⟩
  | handOver (L o o' h) :
      o ≠ o' → L.hold o = some h → L.hold o' = none →
      Move A L
        ⟨Function.update (Function.update L.hold o none) o' (some h), L.slots, L.heap⟩
  | trimRun (L o b first count keep) :
      L.hold o = some (.run b first count) → 0 < keep → keep < count →
      Move A L
        ⟨Function.update L.hold o
            (some (.run ⟨b.base, keep * unityDynamicRegionBytes⟩ first keep)),
          L.slots \ Set.Ico (first + keep) (first + count), L.heap⟩

omit [DecidableEq ι] in
/-- Nothing is held twice and nothing is leaked. -/
structure Sound (A : Arena) (L : Ledger ι) : Prop where
  inArena : ∀ o h, L.hold o = some h → h.InArena A
  slots : Partition (fun o => slotsOf (L.hold o)) L.slots
  blocks : Partition (fun o => blocksOf (L.hold o)) L.heap
  heap : ∀ b ∈ L.heap, 0 < b.base ∧ 0 < b.size ∧ b.base + b.size ≤ 2 ^ 64 ∧ b.Apart A.block
  apart : ∀ b ∈ L.heap, ∀ c ∈ L.heap, b ≠ c → b.Apart c

namespace Sound

variable {A : Arena} {L M : Ledger ι}

omit [DecidableEq ι] in
/-- Different live blocks start at different addresses. -/
theorem base_ne (h : Sound A L) {b c : Block} (hb : b ∈ L.heap) (hc : c ∈ L.heap)
    (hne : b ≠ c) : b.base ≠ c.base := by
  have hbc := h.apart b hb c hc hne
  have hbs := (h.heap b hb).2.1
  have hcs := (h.heap c hc).2.1
  unfold Block.Apart at hbc
  omega

omit [DecidableEq ι] in
/-- Freeing by address frees exactly the block at that address. -/
theorem heap_without (h : Sound A L) {b : Block} (hb : b ∈ L.heap) :
    {c | c ∈ L.heap ∧ c.base ≠ b.base} = L.heap \ {b} := by
  ext c
  simp only [Set.mem_ofPred_eq, Set.mem_sdiff, Set.mem_singleton_iff]
  constructor
  · rintro ⟨hc, hne⟩
    exact ⟨hc, fun heq => hne (heq ▸ rfl)⟩
  · rintro ⟨hc, hne⟩
    exact ⟨hc, h.base_ne hc hb hne⟩

omit [DecidableEq ι] in
/-- A block that an owner holds is live. -/
theorem block_mem (h : Sound A L) {o : ι} {b : Block} (ho : L.hold o = some (.block b)) :
    b ∈ L.heap :=
  h.blocks.subset_used o (by simp [ho])

omit [DecidableEq ι] in
/-- The memory behind a holding is a nonempty part of the address space. -/
theorem backing_bounds (h : Sound A L) {o : ι} {x : Hold} (ho : L.hold o = some x) :
    0 < x.backing.base ∧ 0 < x.backing.size ∧ x.backing.base + x.backing.size ≤ 2 ^ 64 := by
  cases x with
  | block b =>
      obtain ⟨hbase, hsize, hend, -⟩ := h.heap b (h.block_mem ho)
      exact ⟨hbase, hsize, hend⟩
  | run b first count =>
      obtain ⟨hcount, hfits, rfl⟩ := h.inArena o _ ho
      have hbase := A.base_pos (by omega)
      have hend := A.fits
      simp only [Hold.backing, Arena.runBlock, unityDynamicRegionBytes] at *
      omega

omit [DecidableEq ι] in
/-- The memory of a run is inside the arena, so it is apart from every block that is apart from
the arena. -/
theorem run_apart {b : Block} {first count : Nat} (hb : b.Apart A.block)
    (hfits : first + count ≤ A.slots) : b.Apart (A.runBlock first count) := by
  simp only [Block.Apart, Arena.block, Arena.runBlock, unityDynamicRegionBytes] at *
  omega

omit [DecidableEq ι] in
theorem apart_comm {b c : Block} (h : b.Apart c) : c.Apart b := Or.symm h

omit [DecidableEq ι] in
/-- The memory behind the holdings of two owners does not overlap. -/
theorem backing_apart (h : Sound A L) {o o' : ι} {x y : Hold} (hne : o ≠ o')
    (ho : L.hold o = some x) (ho' : L.hold o' = some y) : x.backing.Apart y.backing := by
  cases x with
  | block b =>
      have hb := h.block_mem ho
      cases y with
      | block c =>
          refine h.apart b hb c (h.block_mem ho') fun heq => hne ?_
          exact h.blocks.owner_unique (a := b) (by simp [ho]) (by simp [ho', heq])
      | run c first count =>
          obtain ⟨-, hfits, rfl⟩ := h.inArena o' _ ho'
          exact run_apart (h.heap b hb).2.2.2 hfits
  | run b first count =>
      obtain ⟨hcount, hfits, rfl⟩ := h.inArena o _ ho
      cases y with
      | block c => exact apart_comm (run_apart (h.heap c (h.block_mem ho')).2.2.2 hfits)
      | run c first' count' =>
          obtain ⟨hcount', hfits', rfl⟩ := h.inArena o' _ ho'
          have hslots := h.slots.disjoint o o' hne
          simp only [ho, ho', slots_of_run, Set.disjoint_left, Set.mem_Ico] at hslots
          have hfirst := hslots (a := first)
          have hfirst' := hslots (a := first')
          simp only [Hold.backing, Block.Apart, Arena.runBlock, unityDynamicRegionBytes]
          omega

/-- Owners other than the one that moved hold what they held. -/
theorem update_other {α : Type*} (f : Option Hold → α) (hold : ι → Option Hold) (o : ι)
    (x : Option Hold) (j : ι) (hj : j ≠ o) :
    f (Function.update hold o x j) = f (hold j) := by
  rw [Function.update_of_ne hj]

/-- Nobody's holding of one kind changes when an owner's old and new holding have none of it. -/
theorem update_same {α : Type*} (f : Option Hold → α) (hold : ι → Option Hold) (o : ι)
    (x : Option Hold) (hsame : f x = f (hold o)) (j : ι) :
    f (Function.update hold o x j) = f (hold j) := by
  by_cases hj : j = o
  · subst hj
    rw [Function.update_self, hsame]
  · exact update_other f hold o x j hj

/-- A holding that lies in the arena may be written for one owner. -/
theorem in_arena_update (h : Sound A L) (o : ι) (x : Option Hold)
    (hx : ∀ y, x = some y → y.InArena A) :
    ∀ o' y, Function.update L.hold o x o' = some y → y.InArena A := by
  intro o' y hy
  by_cases heq : o' = o
  · subst heq
    exact hx y (by simpa using hy)
  · exact h.inArena o' y (by simpa [heq] using hy)

/-- Every move keeps the ledger sound. -/
theorem move (h : Sound A L) (hmove : Move A L M) : Sound A M := by
  cases hmove with
  | stay => exact h
  -- each move changes what one or two owners hold, and of blocks or of slots only one kind
  | takeRun o first count hnone hpos hfits hfree =>
      refine ⟨h.in_arena_update o _ ?_, ?_, ?_, h.heap, h.apart⟩
      · rintro y ⟨⟩
        exact ⟨hpos, hfits, rfl⟩
      · exact h.slots.take o _ (by simp [hnone]) (by simp)
          (fun j hj => update_other slotsOf _ _ _ j hj) hfree
      · exact h.blocks.same (update_same blocksOf _ _ _ (by simp [hnone]))
  | takeBlock o b hnone hbase hsize hend harena hapart =>
      have hfresh : b ∉ L.heap := fun hb => by
        have := hapart b hb
        unfold Block.Apart at this
        omega
      refine ⟨h.in_arena_update o _ ?_, ?_, ?_, ?_, ?_⟩
      · rintro y ⟨⟩
        trivial
      · exact h.slots.same (update_same slotsOf _ _ _ (by simp [hnone]))
      · exact h.blocks.take o _ (by simp [hnone]) (by simp)
          (fun j hj => update_other blocksOf _ _ _ j hj) (by simpa using hfresh)
      · rintro c (hc | rfl)
        · exact h.heap c hc
        · exact ⟨hbase, hsize, hend, harena⟩
      · rintro c (hc | rfl) d (hd | rfl) hne
        · exact h.apart c hc d hd hne
        · exact apart_comm (hapart c hc)
        · exact hapart d hd
        · exact absurd rfl hne
  | giveRun o b first count ho =>
      refine ⟨h.in_arena_update o _ (by simp), ?_, ?_, h.heap, h.apart⟩
      · have hrest : Partition (fun j => slotsOf (Function.update L.hold o none j))
            (L.slots \ slotsOf (L.hold o)) :=
          h.slots.release o (by simp) (fun j hj => update_other slotsOf _ _ _ j hj)
        simpa [ho] using hrest
      · exact h.blocks.same (update_same blocksOf _ _ _ (by simp [ho]))
  | giveBlock o b ho =>
      have hb := h.block_mem ho
      rw [h.heap_without hb]
      refine ⟨h.in_arena_update o _ (by simp), ?_, ?_, fun c hc => h.heap c hc.1,
        fun c hc d hd => h.apart c hc.1 d hd.1⟩
      · exact h.slots.same (update_same slotsOf _ _ _ (by simp [ho]))
      · have hrest : Partition (fun j => blocksOf (Function.update L.hold o none j))
            (L.heap \ blocksOf (L.hold o)) :=
          h.blocks.release o (by simp) (fun j hj => update_other blocksOf _ _ _ j hj)
        simpa [ho] using hrest
  -- the two owners change places, so what is held in all stays the same
  | handOver o o' x hne ho ho' =>
      refine ⟨?_, ?_, ?_, h.heap, h.apart⟩
      · intro j y hy
        by_cases hj' : j = o'
        · subst hj'
          exact h.inArena o y (by simpa [ho] using hy)
        · by_cases hj : j = o
          · subst hj
            simp [hj'] at hy
          · exact h.inArena j y (by simpa [hj, hj'] using hy)
      · exact h.slots.move o o' hne (by simp [ho']) (by simp [hne]) (by simp [ho])
          (fun k hk hk' => by simp [hk, hk'])
      · exact h.blocks.move o o' hne (by simp [ho']) (by simp [hne]) (by simp [ho])
          (fun k hk hk' => by simp [hk, hk'])
  | trimRun o b first count keep ho hpos hlt =>
      obtain ⟨-, hfits, rfl⟩ := h.inArena o _ ho
      refine ⟨h.in_arena_update o _ ?_, ?_, ?_, h.heap, h.apart⟩
      · rintro y ⟨⟩
        exact ⟨hpos, by omega, rfl⟩
      · -- the kept part is the beginning of the run
        have hsub : Set.Ico first (first + keep) ⊆ Set.Ico first (first + count) :=
          Set.Ico_subset_Ico_right (by omega)
        have hdiff : Set.Ico first (first + count) \ Set.Ico first (first + keep) =
            Set.Ico (first + keep) (first + count) := run_sdiff_kept ..
        have hheld : slotsOf (L.hold o) = Set.Ico first (first + count) := by
          simp [ho]
        rw [← hheld] at hsub hdiff
        simp only [← hdiff]
        exact h.slots.shrink o _ hsub (by simp) (fun j hj => update_other slotsOf _ _ _ j hj)
      · exact h.blocks.same (update_same blocksOf _ _ _ (by simp [ho]))

end Sound

end Ledger

end Asnx.Bionic
