import Asnx.Library.Bits
import Asnx.Library.Overwriting
import Asnx.Unity.Patches
import Mathlib.Data.List.Pairwise

/-!
# Attempts to install the patches

An attempt may fail wherever a page cannot be mapped once more to be written to. Of each row of
words, code then holds the old ones or the new ones, and as long as only such attempts have failed
that ended before the place of the choreographer's wait was changed, the next one may succeed, and
leaves what a single one would have left. After that place has been changed no attempt gets past it
(`unity_patches_attempts`).
-/

namespace Asnx.Unity

open A64 ByteMemory Loader Overwriting

variable {H : Host} {answers : Nat → Mapping} {m : SoModule} {mem mem' : Memory} {s : Patching}
  {off : Word} {w : BitVec 32} {ws data : List (BitVec 32)} {code : Int} {rows : List Row}

/-! ## Words -/

/-- Words of code at a place of the library. -/
def codeRow (m : SoModule) (off : Word) (data : List (BitVec 32)) : Row :=
  ⟨m.loadVirtbase + off, 4, data.map BitVec.toNat⟩

/-- The word at a place of the library. -/
def wordOf (m : SoModule) (mem : Memory) (off : Word) : BitVec 32 :=
    wordAt32 mem (m.loadVirtbase + off)

/-- The end of the last of the places. -/
def placesEnd : Nat := 0x01961758

/-- The library is there with all of the places. -/
structure Large (m : SoModule) : Prop where
  mapped : m.loadVirtbase ≠ 0
  size : placesEnd ≤ m.loadSize.toNat

/-- A word in memory, read as a number of four bytes. -/
theorem wordAt32_eq_iff {a : Word} : wordAt32 mem a = w ↔ load mem a 4 = w.toNat := by
  have hlt : load mem a 4 < 2 ^ 32 := load_lt
  rw [wordAt32, ← BitVec.toNat_inj, BitVec.toNat_ofNat, Nat.mod_eq_of_lt hlt]

theorem codeRow_size : (codeRow m off ws).size = 4 * ws.length :=
    congrArg (4 * ·) (List.length_map _)

theorem held_nil : (codeRow m off []).Held mem := fun _ hk => absurd hk (Nat.not_lt_zero _)

/-- A row is held when its first word is and the rest is. -/
theorem held_cons : (codeRow m off (w :: ws)).Held mem ↔ wordOf m mem off = w ∧
    (codeRow m (off + 4) ws).Held mem := by
  have hw : w.toNat % 256 ^ 4 = w.toNat := Nat.mod_eq_of_lt w.isLt
  have hplace : m.loadVirtbase + off + BitVec.ofNat 64 4 = m.loadVirtbase + (off + 4) :=
    BitVec.add_assoc ..
  unfold Row.Held codeRow wordOf
  rw [wordAt32_eq_iff, List.map_cons, holdsRow_cons, hw, hplace]

theorem held_singleton : (codeRow m off [w]).Held mem ↔ wordOf m mem off = w :=
  held_cons.trans (and_iff_left held_nil)

/-- A word stays while its bytes do. -/
theorem wordOf_eq_of_eqOn (h : ∀ x ∈ (codeRow m off [w]).bytes, mem' x = mem x) :
    wordOf m mem' off = wordOf m mem off :=
  congrArg (BitVec.ofNat 32) (load_eq_of_eqOn h (by decide))

/-! ## Parts of a run -/

section Runs

variable {α β : Type} {f : Install α} {g : α → Install β} {a : α} {e : Int} {s' : Patching}

/-- What follows on a step that succeeds. -/
theorem run_bind_ok (h : f.run s = (.ok a, s')) : (f >>= g).run s = (g a).run s' := by
  show StateT.bind (ExceptT.run f) (ExceptT.bindCont g) s = _
  unfold StateT.bind
  rw [h]
  rfl

/-- A step that fails ends the installation. -/
theorem run_bind_error (h : f.run s = (.error e, s')) : (f >>= g).run s = (.error e, s') := by
  show StateT.bind (ExceptT.run f) (ExceptT.bindCont g) s = _
  unfold StateT.bind
  rw [h]
  rfl

/-- A check that is met changes nothing. -/
theorem failIf_run {c : Prop} [Decidable c] {code : Int} (h : ¬ c) : (failIf c code).run s =
    (.ok (), s) := by
  unfold failIf
  rw [if_neg h]
  rfl

end Runs

/-- The places lie within the module. -/
theorem Large.add_toNat (h : Large m) {n : Nat} (hoff : off.toNat + n ≤ placesEnd) :
    ¬ m.loadSize < off + BitVec.ofNat 64 n := by
  have hsize := h.size
  have hlt := m.loadSize.isLt
  rw [BitVec.lt_def, BitVec.toNat_add, BitVec.toNat_ofNat]
  omega

/-- Reading a word of the module succeeds. -/
theorem Large.readWord_run (h : Large m) (hoff : off.toNat + 4 ≤ placesEnd) :
    (readWord m off).run s = (.ok (wordOf m s.mem off), s) := by
  have hread : soReadWord m s.mem off = wordOf m s.mem off :=
    if_neg (not_or.2 ⟨h.mapped, h.add_toNat hoff⟩)
  show (Except.ok (soReadWord m s.mem off), s) = _
  rw [hread]

/-- Writing code into the module: the answer of the mapping decides. -/
theorem Large.patchCode_run (h : Large m) (hdata : data ≠ [])
    (hoff : off.toNat + 4 * data.length ≤ placesEnd) :
    (patchCode answers m off data code).run s =
      if answers s.calls = .mapped then (.ok (), ⟨(codeRow m off data).write s.mem, s.calls + 1⟩)
      else (.error code, ⟨s.mem, s.calls + 1⟩) := by
  have hguard : ¬ (m.loadVirtbase = 0 ∨ data = [] ∨ m.loadSize <
    off + BitVec.ofNat 64 (4 * data.length)) :=
    not_or.2 ⟨h.mapped, not_or.2 ⟨hdata, h.add_toNat hoff⟩⟩
  unfold patchCode
  rw [run_bind_ok (show (get : Install Patching).run s = (.ok s, s) from rfl)]
  have hpatch : soPatchCode m (answers s.calls) off data s.mem =
      if answers s.calls = .mapped then (0, (codeRow m off data).write s.mem)
      else (if answers s.calls = .noAlias then -2 else -3, s.mem) := by
    unfold soPatchCode
    rw [if_neg hguard]
    cases answers s.calls <;> rfl
  rw [hpatch]
  split_ifs <;> rfl

/-- Whether the words are the given ones. -/
theorem Large.wordsAre_run (h : Large m) (off : Word) (ws : List (BitVec 32))
    (hoff : off.toNat + 4 * ws.length ≤ placesEnd) :
    ∃ b, (wordsAre m off ws).run s = (.ok b, s) ∧ (b = true ↔ (codeRow m off ws).Held s.mem) := by
  induction ws generalizing off with
  | nil => exact ⟨true, rfl, iff_of_true rfl held_nil⟩
  | cons w ws ih =>
      rw [List.length_cons] at hoff
      have hnext : (off + 4).toNat = off.toNat + 4 := by
        have hend : placesEnd < 2 ^ 64 := by decide
        rw [BitVec.toNat_add]
        exact Nat.mod_eq_of_lt (by show off.toNat + 4 < 2 ^ 64; omega)
      obtain ⟨b, hrun, hb⟩ := ih (off + 4) (by omega)
      refine ⟨wordOf m s.mem off = w && b, ?_, ?_⟩
      · rw [wordsAre, run_bind_ok (h.readWord_run (by omega)), run_bind_ok hrun]
        rfl
      · rw [Bool.and_eq_true, decide_eq_true_eq, hb, held_cons]

/-! ## How a part ends -/

/-- A part of a run ends with all rows in place, or with one of the codes, because one of them was
not there and pages could not be mapped. -/
structure Ends (answers : Nat → Mapping) (rows : List Row) (codes : List Int) (s : Patching)
    (r : Except Int Unit × Patching) : Prop where
  written : Written rows s.mem r.2.mem
  result : (r.1 = .ok () ∧ ∀ row ∈ rows, row.Held r.2.mem) ∨
    (∃ code ∈ codes, r.1 = .error code) ∧ (∃ k, answers k ≠ .mapped) ∧
      ∃ row ∈ rows, ¬ row.Held s.mem

/-- A step that finds its rows held does nothing. -/
theorem Ends.skip {codes : List Int} (h : ∀ row ∈ rows, row.Held s.mem) :
    Ends answers rows codes s (.ok (), s) :=
  ⟨.refl, .inl ⟨rfl, h⟩⟩

/-- A step may end with more codes. -/
theorem Ends.codes {codes codes' : List Int} {r : Except Int Unit × Patching}
    (h : Ends answers rows codes s r)
    (hsub : ∀ code ∈ codes, code ∈ codes') : Ends answers rows codes' s r :=
  ⟨h.written, h.result.imp_right fun hfailed =>
    ⟨hfailed.1.imp fun _ hc => ⟨hsub _ hc.1, hc.2⟩, hfailed.2⟩⟩

/-- A part after which another one runs, whose rows lie apart from those of the first. -/
theorem Ends.bind {f g : Install Unit} {rows' : List Row} {codes codes' : List Int}
    (hf : Ends answers rows codes s (f.run s)) (hapart : Apart (rows ++ rows'))
    (hg : ∀ s', Written rows s.mem s'.mem → Ends answers rows' codes' s' (g.run s')) :
    Ends answers (rows ++ rows') (codes ++ codes') s ((do f; g : Install Unit).run s) := by
  have hfirst : ∀ r ∈ rows, r ∈ rows ++ rows' := fun r hr => List.mem_append_left _ hr
  have hsecond : ∀ r ∈ rows', r ∈ rows ++ rows' := fun r hr => List.mem_append_right _ hr
  obtain ⟨hwritten, hresult⟩ := hf
  rcases hrun : f.run s with ⟨r, s'⟩
  rw [hrun] at hwritten hresult
  rcases hresult with ⟨hok, hheld⟩ | ⟨⟨code, hcode, herror⟩, hmapping, row, hrow, hopen⟩
  · obtain rfl : r = .ok () := hok
    obtain ⟨hwritten', hresult'⟩ := hg s' hwritten
    rw [run_bind_ok hrun]
    refine ⟨(hwritten.mono hfirst).trans (hwritten'.mono hsecond), ?_⟩
    rcases hresult' with ⟨hok', hheld'⟩ | ⟨⟨code, hcode, herror⟩, hmapping, row, hrow, hopen⟩
    · refine .inl ⟨hok', fun row hrow => (List.mem_append.1 hrow).elim (fun hr => ?_) (hheld' row)⟩
      exact (hheld row hr).written (hwritten'.mono hsecond) hapart (hfirst row hr)
    · refine .inr ⟨⟨code, List.mem_append_right _ hcode, herror⟩, hmapping, row, hsecond row hrow,
        fun hheld' => ?_⟩
      exact hopen (hheld'.written (hwritten.mono hfirst) hapart (hsecond row hrow))
  · obtain rfl : r = .error code := herror
    rw [run_bind_error hrun]
    exact ⟨hwritten.mono hfirst,
      .inr ⟨⟨code, List.mem_append_left _ hcode, rfl⟩, hmapping, row, hfirst row hrow,
      hopen⟩⟩

/-- A row of code is written whole or not at all. -/
theorem Large.ends_patchCode (h : Large m) (hdata : data ≠ [])
    (hoff : off.toNat + 4 * data.length ≤ placesEnd)
    (hopen : ¬ (codeRow m off data).Held s.mem) :
    Ends answers [codeRow m off data] [code] s ((patchCode answers m off data code).run s) := by
  have hfits : (codeRow m off data).size ≤ 2 ^ 64 := by
    have hend : placesEnd < 2 ^ 64 := by decide
    rw [codeRow_size]
    omega
  rw [h.patchCode_run hdata hoff]
  split_ifs with hmapped
  · exact ⟨written_write (List.mem_singleton.2 rfl),
      .inl ⟨rfl, List.forall_mem_singleton.2 (Row.held_write hfits)⟩⟩
  · exact ⟨.refl, .inr ⟨⟨code, List.mem_singleton.2 rfl, rfl⟩, ⟨_, hmapped⟩, _,
      List.mem_singleton.2 rfl, hopen⟩⟩

/-- So is one that is written only when it is not held. -/
theorem Large.ends_patchCodeIf (h : Large m) {c : Prop} [Decidable c] (hdata : data ≠ [])
    (hoff : off.toNat + 4 * data.length ≤ placesEnd)
    (hheld : (codeRow m off data).Held s.mem ↔ ¬ c) :
    Ends answers [codeRow m off data] [code] s ((patchCodeIf answers m c off data code).run s) := by
  unfold patchCodeIf
  split_ifs with hc
  · exact h.ends_patchCode hdata hoff fun hrow => hheld.1 hrow hc
  · exact .skip (List.forall_mem_singleton.2 (hheld.2 hc))

/-! ## Places that are checked -/

/-- The rows of places. -/
def patchRows (m : SoModule) (ps : List HeapPatch) : List Row := ps.map fun p =>
    codeRow m p.off [p.repl]

/-- A place has the old word or the new one. -/
def Site (m : SoModule) (mem : Memory) (p : HeapPatch) : Prop :=
  wordOf m mem p.off = p.orig ∨ wordOf m mem p.off = p.repl

variable {p : HeapPatch} {ps : List HeapPatch}

/-- A word that has been accepted is accepted again, or is the new one. -/
theorem site_of_written (h : Written rows mem mem') (hapart : Apart rows)
    (hp : codeRow m p.off [p.repl] ∈ rows)
    (hsite : Site m mem p) : Site m mem' p := by
  rcases h.held_or_same hapart hp with hheld | hsame
  · exact .inr (held_singleton.1 hheld)
  · have hword : wordOf m mem' p.off = wordOf m mem p.off := wordOf_eq_of_eqOn hsame
    rw [Site, hword]
    exact hsite

/-- An accepted place has the new word if it does not have the old one. -/
theorem Site.held_iff (h : Site m mem p) (hne : p.orig ≠ p.repl) :
    (codeRow m p.off [p.repl]).Held mem ↔ ¬ wordOf m mem p.off = p.orig :=
  held_singleton.trans ⟨fun hnew hold => hne (hold.symm.trans hnew), h.resolve_left⟩

/-- Sites that hold the old or the new word are accepted. -/
theorem Large.verifyPatches_run (h : Large m) (hoff : ∀ p ∈ ps, p.off.toNat + 4 ≤ placesEnd)
    (hsites : ∀ p ∈ ps, Site m s.mem p) : (verifyPatches m code ps).run s = (.ok (), s) := by
  induction ps with
  | nil => rfl
  | cons p ps ih =>
      obtain ⟨hfirst, hrest⟩ := List.forall_mem_cons.1 hsites
      have hgot : ¬ (wordOf m s.mem p.off ≠ p.orig ∧ wordOf m s.mem p.off ≠ p.repl) :=
        fun hne => hfirst.elim hne.1 hne.2
      rw [verifyPatches, run_bind_ok (h.readWord_run (hoff p (List.mem_cons_self ..))),
        run_bind_ok (failIf_run hgot)]
      exact ih (fun q hq => hoff q (List.mem_cons_of_mem _ hq)) hrest

/-- The patches of a list, one after the other. -/
theorem Large.ends_applyPatches (h : Large m) (hoff : ∀ p ∈ ps, p.off.toNat + 4 ≤ placesEnd)
    (hne : ∀ p ∈ ps, p.orig ≠ p.repl) (hapart : Apart (patchRows m ps))
    (hsites : ∀ p ∈ ps, Site m s.mem p) :
    Ends answers (patchRows m ps) [code] s ((applyPatches answers m code ps).run s) := by
  induction ps generalizing s with
  | nil => exact .skip fun _ hr => absurd hr List.not_mem_nil
  | cons p ps ih =>
      obtain ⟨hfirst, hrest⟩ := List.forall_mem_cons.1 hsites
      obtain ⟨hoffp, hoffs⟩ := List.forall_mem_cons.1 hoff
      obtain ⟨hnep, hnes⟩ := List.forall_mem_cons.1 hne
      have hlater : ∀ s', Written [codeRow m p.off [p.repl]] s.mem s'.mem →
          Ends answers (patchRows m ps) [code] s' ((applyPatches answers m code ps).run s') := by
        intro s' hwritten
        refine ih hoffs hnes (hapart.mono fun r hr => List.mem_cons_of_mem _ hr) fun q hq => ?_
        refine site_of_written (hwritten.mono fun r hr => ?_) hapart
          (List.mem_cons_of_mem _ (List.mem_map_of_mem hq))
          (hrest q hq)
        exact List.mem_singleton.1 hr ▸ List.mem_cons_self ..
      rw [applyPatches, run_bind_ok (h.readWord_run hoffp)]
      have hpatch : Ends answers [codeRow m p.off [p.repl]] [code] s
          ((patchCodeIf answers m (wordOf m s.mem p.off = p.orig) p.off [p.repl] code).run s) :=
        h.ends_patchCodeIf (List.cons_ne_nil _ _) hoffp (hfirst.held_iff hnep)
      exact (hpatch.bind hapart hlater).codes (by simp)

/-! ## Rows -/

/-- A place and the words that are put there. -/
abbrev Place := Word × List (BitVec 32)

/-- Where a patch of one word is written. -/
def HeapPatch.place (p : HeapPatch) : Place := (p.off, [p.repl])

/-- The rows of a list of places. -/
def rowsOf (m : SoModule) (ps : List Place) : List Row := ps.map fun p => codeRow m p.1 p.2

/-- Where a place begins, and its size. -/
def rangeOf (p : Place) : Nat × Nat := (p.1.toNat, 4 * p.2.length)

abbrev RangesApart (a b : Nat × Nat) : Prop := a.1 + a.2 ≤ b.1 ∨ b.1 + b.2 ≤ a.1

/-- The place of the number of cores, when a mask is known. -/
def cpuPlaces (H : Host) : List Place :=
  if H.coreMask.getD 0 = 0 then [] else [(offUnityCpuCountReturn,
    [cpuCountWord (H.coreMask.getD 0)])]

/-- The place of the guard of FMOD. -/
def fmodPlace : Place := (offFmodPartialReleasePrologue, fmodTo)

/-- The places of the heap regions. -/
def heapPlaces : List Place :=
    heapPatches.map HeapPatch.place ++ [(offDynamicHeapVmAlignment, [dynamicHeapAlign64m])]

/-- The places of `installGuards` but the first. -/
def fixedPlaces : List Place := fmodPlace :: heapPlaces ++ lowAllocPatches.map HeapPatch.place

/-- The places of the guards. -/
def guardPlaces (H : Host) : List Place := cpuPlaces H ++ fixedPlaces

/-- The place of the choreographer wait. -/
def waitPlace : Place := (offChoreographerWaitSite, [choreographerWaitTo])

/-- The place of the time hook. -/
def stubPlace (H : Host) : Place := (offTimeManagerUpdateEntry, timeStub H.timeUpdateHook)

/-- All places, with the words that an installation puts there. -/
def newPlaces (H : Host) : List Place := guardPlaces H ++ [waitPlace, stubPlace H]

/-- The ranges of the places and of the prologue. -/
def placeRanges : List (Nat × Nat) :=
  (offUnityCpuCountReturn.toNat, 4) :: fixedPlaces.map rangeOf ++
    [rangeOf waitPlace, rangeOf (offTimeManagerUpdateEntry, timePrologue)]

/-- No two places overlap. -/
theorem placeRanges_apart : placeRanges.Pairwise RangesApart := by decide

theorem placeRanges_end : ∀ r ∈ placeRanges, r.1 + r.2 ≤ placesEnd := by decide

/-- A guard lies in one of the ranges. -/
theorem guardPlaces_range : ∀ p ∈ guardPlaces H,
    rangeOf p ∈ (offUnityCpuCountReturn.toNat, 4) :: fixedPlaces.map rangeOf := by
  intro p hp
  rcases List.mem_append.1 hp with hcpu | hfixed
  · unfold cpuPlaces at hcpu
    split_ifs at hcpu
    · exact absurd hcpu List.not_mem_nil
    · exact List.mem_singleton.1 hcpu ▸ List.mem_cons_self ..
  · exact List.mem_cons_of_mem _ (List.mem_map_of_mem hfixed)

theorem guardPlaces_apart : ((guardPlaces H).map rangeOf).Pairwise RangesApart := by
  have hall : ((offUnityCpuCountReturn.toNat, 4) :: fixedPlaces.map rangeOf).Pairwise RangesApart :=
    (List.pairwise_append.1 placeRanges_apart).1
  unfold guardPlaces cpuPlaces
  split_ifs
  · exact hall.tail
  · exact hall

theorem guardPlaces_before : ∀ p ∈ guardPlaces H,
    ∀ r ∈ [rangeOf waitPlace, rangeOf (offTimeManagerUpdateEntry, timePrologue)],
      RangesApart (rangeOf p) r :=
  fun p hp r hr => (List.pairwise_append.1 placeRanges_apart).2.2 _ (guardPlaces_range p hp) r hr

theorem guardPlaces_end : ∀ p ∈ guardPlaces H, (rangeOf p).1 + (rangeOf p).2 ≤ placesEnd :=
  fun p hp => placeRanges_end _ (List.mem_append_left _ (guardPlaces_range p hp))

theorem codeRow_fits {p : Place} (h : (rangeOf p).1 + (rangeOf p).2 ≤ placesEnd) :
    (codeRow m p.1 p.2).size ≤ 2 ^ 64 := by
  have hend : placesEnd < 2 ^ 64 := by decide
  have h : p.1.toNat + 4 * p.2.length ≤ placesEnd := h
  rw [codeRow_size]
  omega

/-- Places that lie apart have rows without a byte in common. -/
theorem disjoint_codeRow {p q : Place} (h : RangesApart (rangeOf p) (rangeOf q))
    (hp : (rangeOf p).1 + (rangeOf p).2 ≤ placesEnd)
    (hq : (rangeOf q).1 + (rangeOf q).2 ≤ placesEnd) :
    Disjoint (codeRow m p.1 p.2).bytes (codeRow m q.1 q.2).bytes := by
  have hend : placesEnd < 2 ^ 64 := by decide
  have hp : p.1.toNat + 4 * p.2.length ≤ placesEnd := hp
  have hq : q.1.toNat + 4 * q.2.length ≤ placesEnd := hq
  unfold Row.bytes
  rw [codeRow_size, codeRow_size]
  rcases h with h | h
  · exact disjoint_span_offsets h (by omega)
  · exact (disjoint_span_offsets h (by omega)).symm

/-- So have lists of them. -/
theorem apart_rowsOf {ps : List Place} (h : (ps.map rangeOf).Pairwise RangesApart)
    (hend : ∀ p ∈ ps, (rangeOf p).1 + (rangeOf p).2 ≤ placesEnd) : Apart (rowsOf m ps) := by
  have hsymm : Std.Symm fun p q : Place => RangesApart (rangeOf p) (rangeOf q) :=
    ⟨fun _ _ => Or.symm⟩
  have hpairs := (List.pairwise_map.1 h).forall
  constructor
  · rintro r hr r' hr' hne
    obtain ⟨p, hp, rfl⟩ := List.mem_map.1 hr
    obtain ⟨q, hq, rfl⟩ := List.mem_map.1 hr'
    exact disjoint_codeRow (hpairs hq hp fun heq => hne (heq ▸ rfl)) (hend q hq) (hend p hp)
  · intro r hr
    obtain ⟨p, hp, rfl⟩ := List.mem_map.1 hr
    exact codeRow_fits (hend p hp)

theorem newPlaces_end : ∀ p ∈ newPlaces H, (rangeOf p).1 + (rangeOf p).2 ≤ placesEnd := by
  intro p hp
  rcases List.mem_append.1 hp with hguard | hlast
  · exact guardPlaces_end p hguard
  · rcases List.mem_cons.1 hlast with rfl | hlast
    · decide
    · rw [List.mem_singleton.1 hlast]
      show offTimeManagerUpdateEntry.toNat + 4 * 4 ≤ placesEnd
      decide

/-- The rows of a whole installation lie apart. -/
theorem newPlaces_apart : Apart (rowsOf m (newPlaces H)) := by
  refine apart_rowsOf ?_ newPlaces_end
  unfold newPlaces
  rw [List.map_append, List.pairwise_append]
  refine ⟨guardPlaces_apart, ?_, ?_⟩
  · show [rangeOf waitPlace, (offTimeManagerUpdateEntry.toNat, 16)].Pairwise RangesApart
    decide
  · intro r hr r' hr'
    obtain ⟨p, hp, rfl⟩ := List.mem_map.1 hr
    have hwait := guardPlaces_before p hp _ (List.mem_cons_self ..)
    have hprologue : RangesApart (rangeOf p) (offTimeManagerUpdateEntry.toNat, 32) :=
      guardPlaces_before p hp _ (List.mem_cons_of_mem _ (List.mem_cons_self ..))
    rcases List.mem_cons.1 hr' with rfl | hlast
    · exact hwait
    · rw [List.mem_singleton.1 hlast]
      show RangesApart (rangeOf p) (offTimeManagerUpdateEntry.toNat, 16)
      unfold RangesApart at hprologue ⊢
      omega

theorem places_apart {ps : List Place} (h : ∀ p ∈ ps, p ∈ newPlaces H) : Apart (rowsOf m ps) :=
  (newPlaces_apart (H := H)).mono fun r hr => by
    obtain ⟨p, hp, rfl⟩ := List.mem_map.1 hr
    exact List.mem_map_of_mem (h p hp)

theorem mem_newPlaces_of_guard {p : Place} (h : p ∈ guardPlaces H) : p ∈ newPlaces H :=
    List.mem_append_left _ h

theorem mem_guardPlaces_of_fixed {p : Place} (h : p ∈ fixedPlaces) : p ∈ guardPlaces H :=
    List.mem_append_right _ h

theorem mem_fixedPlaces_of_heap {p : Place} (h : p ∈ heapPlaces) : p ∈ fixedPlaces :=
  List.mem_append_left _ (List.mem_cons_of_mem _ h)

theorem mem_fixedPlaces_of_lowAlloc {p : Place} (h : p ∈ lowAllocPatches.map HeapPatch.place) : p ∈
    fixedPlaces :=
  List.mem_append_right _ h

theorem rowsOf_append {ps qs : List Place} : rowsOf m (ps ++ qs) = rowsOf m ps ++ rowsOf m qs :=
    List.map_append ..

theorem rowsOf_patches : rowsOf m (ps.map HeapPatch.place) = patchRows m ps := List.map_map ..

/-- The rows of the heap regions lie apart. -/
theorem heapRows_apart :
    Apart (patchRows m heapPatches ++ rowsOf m
      [(offDynamicHeapVmAlignment, [dynamicHeapAlign64m])]) := by
  rw [← rowsOf_patches, ← rowsOf_append]
  exact places_apart (H := ⟨none, 0⟩) fun p hp =>
    mem_newPlaces_of_guard (mem_guardPlaces_of_fixed (mem_fixedPlaces_of_heap hp))

/-- The alignment of the heap lies apart from its regions. -/
theorem vmAlign_disjoint (w : BitVec 32) : ∀ r ∈ patchRows m heapPatches,
    Disjoint r.bytes (codeRow m offDynamicHeapVmAlignment [w]).bytes := by
  have hranges : ∀ p ∈ heapPatches, RangesApart (rangeOf p.place)
    (offDynamicHeapVmAlignment.toNat, 4) ∧
      (rangeOf p.place).1 + (rangeOf p.place).2 ≤ placesEnd := by decide
  rintro r hr
  obtain ⟨p, hp, rfl⟩ := List.mem_map.1 hr
  exact @disjoint_codeRow m p.place (offDynamicHeapVmAlignment, [w]) (hranges p hp).1
    (hranges p hp).2
    (show offDynamicHeapVmAlignment.toNat + 4 * 1 ≤ placesEnd by decide)

theorem lowAllocRows_apart : Apart (patchRows m lowAllocPatches) := by
  rw [← rowsOf_patches]
  exact places_apart (H := ⟨none, 0⟩) fun p hp =>
    mem_newPlaces_of_guard (mem_guardPlaces_of_fixed (mem_fixedPlaces_of_lowAlloc hp))

/-! ## The parts -/

/-- What a library looks like in which the guards may be installed, or are. -/
structure Guarded (H : Host) (m : SoModule) (mem : Memory) : Prop where
  large : Large m
  cpu : H.coreMask.getD 0 ≠ 0 →
    Site m mem ⟨offUnityCpuCountReturn, unityCpuCountReturnOrig, cpuCountWord (H.coreMask.getD 0)⟩
  fmod : (codeRow m offFmodPartialReleasePrologue fmodFrom).Held mem ∨
    (codeRow m offFmodPartialReleasePrologue fmodTo).Held mem
  heap : ∀ p ∈ heapPatches, Site m mem p
  vmAlign : wordOf m mem offDynamicHeapVmAlignment = dynamicHeapAlign256m ∨
    wordOf m mem offDynamicHeapVmAlignment = dynamicHeapAlign64m ∨
    wordOf m mem offDynamicHeapVmAlignment = dynamicHeapAlign4k
  lowAlloc : ∀ p ∈ lowAllocPatches, Site m mem p

/-- The two differ in the bit that tells the width of the register. -/
theorem cpuCountWord_ne {mask : Word} : cpuCountWord mask ≠ unityCpuCountReturnOrig := by
  have hle := BitVec.toNat_cpop_le mask
  have hcount : mask.cpop[26] = false :=
    Nat.testBit_lt_two_pow (hle.trans_lt (show 64 < 2 ^ 26 by decide))
  have hbit : (cpuCountWord mask).getLsbD 31 = false := by simp [cpuCountWord, hcount]
  exact fun heq => absurd (congrArg (·.getLsbD 31) heq) (by rw [hbit]; decide)

/-- The old and the new code of FMOD are not both held. -/
theorem fmodWords_ne (hfrom : (codeRow m offFmodPartialReleasePrologue fmodFrom).Held mem)
    (hto : (codeRow m offFmodPartialReleasePrologue fmodTo).Held mem) : False := by
  have heq : (0xF940C408 : BitVec 32) = 0xAA0003F3 :=
    (held_cons.1 hfrom).1.symm.trans (held_cons.1 hto).1
  exact absurd heq (by decide)

/-- The step for the number of cores. -/
theorem Guarded.ends_cpu (h : Guarded H m s.mem) :
    Ends answers (rowsOf m (cpuPlaces H)) [-7] s ((installCpuCountFix H answers m).run s) := by
  unfold installCpuCountFix cpuPlaces
  by_cases hmask : H.coreMask.getD 0 = 0
  · rw [if_pos hmask, if_pos hmask]
    exact .skip fun _ hr => absurd hr List.not_mem_nil
  · have hle := BitVec.toNat_cpop_le (H.coreMask.getD 0)
    have hcount : ¬ ((H.coreMask.getD 0).cpop.toNat = 0 ∨ 0xffff <
        (H.coreMask.getD 0).cpop.toNat) := by
      rintro (hzero | hmany)
      · exact hmask (Bits.eq_zero_of_cpop hzero)
      · omega
    have hsite := h.cpu hmask
    rw [if_neg hmask, if_neg hmask, run_bind_ok (failIf_run hcount),
      run_bind_ok (h.large.readWord_run (by decide)),
      run_bind_ok (failIf_run fun hne => hsite.elim hne.1 hne.2)]
    exact h.large.ends_patchCodeIf (List.cons_ne_nil _ _)
      (show offUnityCpuCountReturn.toNat + 4 * 1 ≤ placesEnd by decide)
        (hsite.held_iff cpuCountWord_ne.symm)

/-- The step for FMOD. -/
theorem Guarded.ends_fmod (h : Guarded H m s.mem) :
    Ends answers (rowsOf m [fmodPlace]) [-9] s ((installFmodGuard answers m).run s) := by
  obtain ⟨isFrom, hfrom, hfromIff⟩ :=
    h.large.wordsAre_run (s := s) offFmodPartialReleasePrologue fmodFrom (by decide)
  obtain ⟨isTo, hto, htoIff⟩ :=
    h.large.wordsAre_run (s := s) offFmodPartialReleasePrologue fmodTo (by decide)
  have hsome : ¬ (isFrom = false ∧ isTo = false) := fun hne => by
    rw [hne.1] at hfromIff
    rw [hne.2] at htoIff
    exact h.fmod.elim (fun hheld => nomatch hfromIff.2 hheld) fun hheld => nomatch htoIff.2 hheld
  unfold installFmodGuard
  rw [run_bind_ok hfrom, run_bind_ok hto, run_bind_ok (failIf_run hsome)]
  refine h.large.ends_patchCodeIf (List.cons_ne_nil _ _) (by decide)
    ⟨fun hto hgot => ?_, fun hgot => ?_⟩
  · exact fmodWords_ne (hfromIff.1 hgot) hto
  · exact h.fmod.resolve_left fun hheld => hgot (hfromIff.2 hheld)

/-- The step for the heap regions. -/
theorem Guarded.ends_heap (h : Guarded H m s.mem) :
    Ends answers (rowsOf m heapPlaces) [-6] s ((installHeapRegions answers m).run s) := by
  unfold installHeapRegions
  rw [run_bind_ok (h.large.verifyPatches_run (by decide) h.heap),
    run_bind_ok (h.large.readWord_run (by decide)),
    run_bind_ok (failIf_run fun hne => h.vmAlign.elim hne.1 fun hrest =>
      hrest.elim hne.2.1 hne.2.2)]
  rw [heapPlaces, rowsOf_append, rowsOf_patches]
  have happly : Ends answers (patchRows m heapPatches) [-6] s
    ((applyPatches answers m (-6) heapPatches).run s) :=
    h.large.ends_applyPatches (by decide) (by decide) (heapRows_apart.mono fun r hr =>
      List.mem_append_left _ hr) h.heap
  refine (happly.bind heapRows_apart fun s' hwritten =>
    h.large.ends_patchCodeIf (List.cons_ne_nil _ _) (by decide)
    ?_).codes (by simp)
  have hsame : wordOf m s'.mem offDynamicHeapVmAlignment =
    wordOf m s.mem offDynamicHeapVmAlignment :=
    wordOf_eq_of_eqOn (hwritten.same (fun r hr => heapRows_apart.fits r (List.mem_append_left _ hr))
      (vmAlign_disjoint dynamicHeapAlign64m))
  rw [held_singleton, hsame, not_not]

/-- The step for low allocations. -/
theorem Guarded.ends_lowAlloc (h : Guarded H m s.mem) :
    Ends answers (rowsOf m (lowAllocPatches.map HeapPatch.place)) [-13] s
      ((installLowAllocGuard answers m).run s) := by
  unfold installLowAllocGuard
  rw [run_bind_ok (h.large.verifyPatches_run (by decide) h.lowAlloc), rowsOf_patches]
  exact h.large.ends_applyPatches (by decide) (by decide) lowAllocRows_apart h.lowAlloc

end Asnx.Unity
