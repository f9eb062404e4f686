import Asnx.Bionic.ProcessVm

/-!
# The check before the copies

`guest_memory_is_readable` of `source/bionic.c` goes from region to region of the memory map. If the
end of the range wraps around it looks at nothing, and otherwise it returns 1 exactly when every
address of the range passes (`guestMemoryIsReadable_iff`). So a range is checked when its end does
not wrap around (`checked_iff`).
-/

namespace Asnx.Bionic

open ByteMemory

/-! ## Memory maps -/

/-- The region contains an address. -/
def MemoryInfo.Has (mi : MemoryInfo) (x : Nat) : Prop :=
  mi.addr.toNat ≤ x ∧ x < mi.addr.toNat + mi.size.toNat

/-- A query that does not fail yields the region of the address, which is the same for all the
addresses in it. -/
structure MemoryMap where
  svcQueryMemory : Word → Option MemoryInfo
  contains : ∀ a mi, svcQueryMemory a = some mi → mi.Has a.toNat
  shared : ∀ a b mi, svcQueryMemory a = some mi → mi.Has b.toNat → svcQueryMemory b = some mi

/-- The address lies in a mapped region with read permission. -/
def MemoryMap.Readable (M : MemoryMap) (x : Nat) : Prop :=
  ∃ (a : Word) (mi : MemoryInfo), a.toNat = x ∧ M.svcQueryMemory a = some mi ∧
    mi.unmapped = false ∧ mi.permR = true

/-- The address is readable, and its region does not reach up to the end of the address space. -/
def MemoryMap.Passes (M : MemoryMap) (a : Word) : Prop :=
  ∃ mi, M.svcQueryMemory a = some mi ∧ mi.unmapped = false ∧ mi.permR = true ∧
    mi.addr.toNat + mi.size.toNat < 2 ^ 64

theorem MemoryMap.Passes.readable {M : MemoryMap} {a : Word} (h : M.Passes a) :
    M.Readable a.toNat := by
  obtain ⟨mi, hquery, hmapped, hperm, -⟩ := h
  exact ⟨a, mi, rfl, hquery, hmapped, hperm⟩

/-! ## The walk -/

section Walk

variable {M : MemoryMap} {mi : MemoryInfo} {a e n : Word}

/-- The end of a region that does not wrap around. -/
theorem toNat_end (h : mi.addr.toNat + mi.size.toNat < 2 ^ 64) :
    (mi.addr + mi.size).toNat = mi.addr.toNat + mi.size.toNat := by
  rw [BitVec.toNat_add, Nat.mod_eq_of_lt h]

/-- The walk gets on exactly when the end of the region does not wrap around. -/
theorem lt_end_iff (h : mi.Has a.toNat) :
    ¬ mi.addr + mi.size ≤ a ↔ mi.addr.toNat + mi.size.toNat < 2 ^ 64 := by
  obtain ⟨hlow, hhigh⟩ := h
  have hsize := mi.size.isLt
  have haddr := mi.addr.isLt
  rw [BitVec.not_le, BitVec.lt_def, BitVec.toNat_add]
  omega

/-- The walk from `a` to `e` returns 1 exactly when every address passes, by induction on its
rounds. -/
theorem readableTo_iff (M : MemoryMap) (e a : Word) :
    readableTo M.svcQueryMemory e a = true ↔
      ∀ x : Word, a.toNat ≤ x.toNat → x.toNat < e.toNat → M.Passes x := by
  fun_induction readableTo M.svcQueryMemory e a with
  | case1 a hlt hquery =>
      refine iff_of_false Bool.false_ne_true fun h => ?_
      obtain ⟨mi, hquery', -⟩ := h a (Nat.le_refl _) hlt
      rw [hquery] at hquery'
      cases hquery'
  | case2 a hlt mi hquery hrefused =>
      refine iff_of_false Bool.false_ne_true fun h => ?_
      obtain ⟨mi', hquery', hmapped, hperm, -⟩ := h a (Nat.le_refl _) hlt
      rw [hquery] at hquery'
      cases hquery'
      rw [hmapped, hperm] at hrefused
      rcases hrefused with hrefused | hrefused
      · cases hrefused
      · cases hrefused
  | case3 a hlt mi hquery hok ne hend =>
      refine iff_of_false Bool.false_ne_true fun h => ?_
      obtain ⟨mi', hquery', -, -, hwrap⟩ := h a (Nat.le_refl _) hlt
      rw [hquery] at hquery'
      cases hquery'
      exact (lt_end_iff (M.contains a mi hquery)).2 hwrap hend
  | case4 a hlt mi hquery hok ne hend ih =>
      have hin := M.contains a mi hquery
      have hwrap := (lt_end_iff hin).1 hend
      have hne : ne.toNat = mi.addr.toNat + mi.size.toNat := toNat_end hwrap
      obtain ⟨hmapped, hperm⟩ := not_or.1 hok
      rw [ih, hne]
      refine ⟨fun h x hlow hhigh => ?_, fun h x hlow hhigh => h x (by have := hin.2; omega) hhigh⟩
      -- either the address is in the region of `a`, or the rest of the walk gets to it
      by_cases hx : x.toNat < mi.addr.toNat + mi.size.toNat
      · have hquery' := M.shared a x mi hquery ⟨Nat.le_trans hin.1 hlow, hx⟩
        exact ⟨mi, hquery', by simpa using hmapped, by simpa using hperm, hwrap⟩
      · exact h x (Nat.not_lt.1 hx) hhigh
  | case5 a hge =>
      refine iff_of_true rfl fun x hlow hhigh => absurd ?_ hge
      exact Nat.lt_of_le_of_lt hlow hhigh

/-- A range whose end wraps around is not looked at, and any other one passes as a whole. -/
theorem guestMemoryIsReadable_iff (M : MemoryMap) (a n : Word) :
    guestMemoryIsReadable M.svcQueryMemory a n = true ↔ 2 ^ 64 ≤ a.toNat + n.toNat ∨
      ∀ x : Word, a.toNat ≤ x.toNat → x.toNat < a.toNat + n.toNat → M.Passes x := by
  unfold guestMemoryIsReadable
  have hn := n.isLt
  rw [readableTo_iff, BitVec.toNat_add]
  by_cases hwrap : 2 ^ 64 ≤ a.toNat + n.toNat
  · refine iff_of_true (fun x hlow hhigh => ?_) (.inl hwrap)
    omega
  · rw [Nat.mod_eq_of_lt (Nat.not_le.1 hwrap), or_iff_right hwrap]

/-! ## Coming to an end -/

/-- What the loop of `guest_memory_is_readable` has returned after at most `k` tests of `a<e`. -/
def readableWithin (svcQueryMemory : Word → Option MemoryInfo) (e : Word) : Nat → Word → Option Bool
  | 0, _ => none
  | k + 1, a =>
      if a < e then
        match svcQueryMemory a with
        | none => some false
        | some mi =>
            if mi.unmapped = true ∨ mi.permR = false then some false
            else
              let ne := mi.addr + mi.size
              if ne ≤ a then some false else readableWithin svcQueryMemory e k ne
      else some true

/-- Every round leaves fewer addresses up to `e`, whatever the queries yield. -/
theorem readableWithin_eq {svcQueryMemory : Word → Option MemoryInfo} {k : Nat}
    (h : e.toNat - a.toNat < k) :
    readableWithin svcQueryMemory e k a = some (readableTo svcQueryMemory e a) := by
  obtain ⟨k, rfl⟩ := Nat.exists_eq_add_one_of_ne_zero (Nat.ne_of_gt (Nat.zero_lt_of_lt h))
  fun_induction readableTo svcQueryMemory e a generalizing k with
  | case1 a hlt hquery => rw [readableWithin, if_pos hlt, hquery]
  | case2 a hlt mi hquery hrefused =>
      rw [readableWithin, if_pos hlt, hquery]
      exact if_pos hrefused
  | case3 a hlt mi hquery hok ne hend =>
      rw [readableWithin, if_pos hlt, hquery]
      exact (if_neg hok).trans (if_pos hend)
  | case4 a hlt mi hquery hok ne hend ih =>
      have hlt' : a.toNat < e.toNat := hlt
      have hend' : a.toNat < ne.toNat := BitVec.not_le.1 hend
      obtain ⟨j, rfl⟩ := Nat.exists_eq_add_one_of_ne_zero (show k ≠ 0 by omega)
      rw [readableWithin, if_pos hlt, hquery]
      exact ((if_neg hok).trans (if_neg hend)).trans (ih j (by omega))
  | case5 a hge => rw [readableWithin, if_neg hge]

end Walk

/-! ## The check -/

/-- The call comes to an end, and returns 1 only if the addresses from `a` to `a + n - 1`, without
wrap-around, are readable. -/
structure Checked (M : MemoryMap) (a n : Word) : Prop where
  ends : ∃ rounds, ∀ k, rounds ≤ k → readableWithin M.svcQueryMemory (a + n) k a =
    some (guestMemoryIsReadable M.svcQueryMemory a n)
  sound : guestMemoryIsReadable M.svcQueryMemory a n = true →
    ∀ x, a.toNat ≤ x → x < a.toNat + n.toNat → M.Readable x

/-- A range is checked exactly when its end does not wrap around, or is the end of the address space
up to which everything is readable. -/
theorem checked_iff (M : MemoryMap) (a n : Word) :
    Checked M a n ↔ a.toNat + n.toNat < 2 ^ 64 ∨
      (a.toNat + n.toNat = 2 ^ 64 ∧ ∀ x : Word, a.toNat ≤ x.toNat → M.Readable x.toNat) := by
  have hends : ∃ rounds, ∀ k, rounds ≤ k → readableWithin M.svcQueryMemory (a + n) k a =
      some (guestMemoryIsReadable M.svcQueryMemory a n) :=
    ⟨_, fun k hk => readableWithin_eq (Nat.lt_of_succ_le hk)⟩
  have htrue := guestMemoryIsReadable_iff M a n
  constructor
  · rintro ⟨-, hsound⟩
    rcases Nat.lt_or_ge (a.toNat + n.toNat) (2 ^ 64) with hlt | hge
    · exact .inl hlt
    have hreadable := hsound (htrue.2 (.inl hge))
    have ha := a.isLt
    refine .inr ⟨?_, fun x hx => hreadable _ hx (Nat.lt_of_lt_of_le x.isLt hge)⟩
    -- there is no address `2 ^ 64`
    by_contra hne
    obtain ⟨y, -, hy, -⟩ := hreadable (2 ^ 64) (Nat.le_of_lt ha) (by omega)
    have hbound := y.isLt
    omega
  · intro h
    refine ⟨hends, fun hresult x hlow hhigh => ?_⟩
    have hx : x < 2 ^ 64 := by omega
    have hword : (BitVec.ofNat 64 x).toNat = x := by
      rw [BitVec.toNat_ofNat, Nat.mod_eq_of_lt hx]
    rw [← hword] at hlow hhigh ⊢
    rcases h with hlt | ⟨-, hreadable⟩
    · have hpasses := (htrue.1 hresult).resolve_left (Nat.not_le.2 hlt)
      exact (hpasses _ hlow hhigh).readable
    · exact hreadable _ hlow

/-- The two halves of the address space. -/
def halfOf (a : Word) : MemoryInfo :=
  if a.toNat < 2 ^ 63 then ⟨0, BitVec.ofNat 64 (2 ^ 63), true, false⟩
  else ⟨BitVec.ofNat 64 (2 ^ 63), BitVec.ofNat 64 (2 ^ 63), true, false⟩

theorem halfOf_has (a b : Word) : (halfOf a).Has b.toNat ↔
    (a.toNat < 2 ^ 63 ↔ b.toNat < 2 ^ 63) := by
  have hb := b.isLt
  unfold halfOf MemoryInfo.Has
  split
  · simp
    omega
  · simp
    omega

/-- Both halves are unmapped. -/
def nothingMapped : MemoryMap where
  svcQueryMemory a := some (halfOf a)
  contains a mi h := by
    rw [← Option.some.inj h]
    exact (halfOf_has a a).2 Iff.rfl
  shared a b mi h hb := by
    rw [← Option.some.inj h] at hb ⊢
    have hsame := (halfOf_has a b).1 hb
    unfold halfOf
    simp only [hsame]

/-- Nothing is mapped, and a range whose end wraps around is found readable. -/
theorem wrapped_unchecked : ¬ Checked nothingMapped 0xfffffffffffff000 0x2000 := by
  intro h
  have hreturns : guestMemoryIsReadable nothingMapped.svcQueryMemory 0xfffffffffffff000
    0x2000 = true :=
    (guestMemoryIsReadable_iff _ _ _).2 (.inl (by decide))
  obtain ⟨a, mi, -, hquery, hmapped, -⟩ :=
    h.sound hreturns 0xfffffffffffff000 (by decide) (by decide)
  have hhalf : (halfOf a).unmapped = true := by
    unfold halfOf
    split
    · rfl
    · rfl
  rw [Option.some.inj hquery, hmapped] at hhalf
  cases hhalf

end Asnx.Bionic
