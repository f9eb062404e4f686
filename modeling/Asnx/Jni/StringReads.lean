import Asnx.Jni.Strings
import Asnx.Library.Accesses

/-!
# What is read of a string

`utf16_length_utf8` once more, with every byte that it reads. A test goes on to the next byte only
when the one before is not the terminator, so that nothing is read behind it (`ensures_utf16Round`),
whatever the bytes are, and the loop comes to an end there (`utf16_length_exact`).
-/

namespace Asnx.Jni

open Files Tracing Unicode

/-! ## The function -/

/-- The loop has gone round more often than it was given. -/
inductive Endless where
  | endless

/-- A function that reads a buffer and reports the index of each byte that it reads. -/
abbrev Reading := Traced Unit Nat Endless

section Reads

variable (buf : Bytes)

/-- `buf[i]` -/
def readByte (i : Nat) : Reading Nat := do
  access i
  pure (buf.getD i 0).toNat

/-- `buf[i]` as a condition -/
def readsNonzero (i : Nat) : Reading Bool := do
  let b ← readByte buf i
  pure (decide (b ≠ 0))

/-- `(buf[i]&0xc0)==0x80` -/
def readsTail (i : Nat) : Reading Bool := do
  let b ← readByte buf i
  pure (decide (b &&& 0xc0 = 0x80))

/-- Tests with `&&` between them. -/
def allOf : List (Reading Bool) → Reading Bool
  | [] => pure true
  | t :: ts => do
      if ← t then allOf ts else pure false

/-- One round of `utf16_length_utf8` at `buf + i`, where the byte is `c`: how far `p` moves, and how
many units are counted. -/
def utf16Round (i c : Nat) : Reading (Nat × Nat) := do
  if c < 0x80 then pure (1, 1)
  else if ← allOf [pure (decide (c &&& 0xe0 = 0xc0)), readsNonzero buf (i + 1),
    readsTail buf (i + 1)] then
    pure (2, 1)
  else if ← allOf [pure (decide (c &&& 0xf0 = 0xe0)), readsNonzero buf (i + 1),
    readsNonzero buf (i + 2),
      readsTail buf (i + 1), readsTail buf (i + 2)] then
    pure (3, 1)
  else if ← allOf [pure (decide (c &&& 0xf8 = 0xf0)), readsNonzero buf (i + 1),
    readsNonzero buf (i + 2),
      readsNonzero buf (i + 3), readsTail buf (i + 1), readsTail buf (i + 2),
        readsTail buf (i + 3)] then
    pure (4, 2)
  else pure (1, 1)

/-- The loop of `utf16_length_utf8`. -/
def utf16ReadLoop : Nat → Nat → Nat → Reading Nat
  | 0, _, _ => fail .endless
  | rounds + 1, i, units => do
      let b ← readByte buf i
      if b = 0 then pure units
      else
        let c ← readByte buf i
        let (used, counted) ← utf16Round buf i c
        let units := units + counted
        if units > 0x7fffffff then pure 0x7fffffff else utf16ReadLoop rounds (i + used) units

end Reads

/-- `utf16_length_utf8`, where `s` is the buffer that `s` points to, or `NULL`. -/
def utf16LengthReads (rounds : Nat) (s : Option Bytes) : Reading Nat :=
  utf16ReadLoop (s.getD [0]) rounds 0 0

/-! ## Where the string ends -/

/-- A round stays in the string. -/
theorem utf16Step_le {p : Bytes} (hp : p ≠ []) : (utf16Step p).1 ≤ p.length := by
  have hlength : ∀ k, (p.getD k 0).toNat ≠ 0 → k < p.length := by
    intro k hk
    by_contra hge
    rw [List.getD_eq_getElem?_getD, List.getElem?_eq_none (Nat.not_lt.1 hge)] at hk
    exact hk rfl
  have hone : 1 ≤ p.length := List.length_pos_iff.2 hp
  unfold utf16Step
  dsimp only
  split_ifs with _ htwo hthree hfour
  · exact hone
  · exact hlength 1 htwo.2.1
  · exact hlength 2 hthree.2.2.1
  · exact hlength 3 hfour.2.2.2.1
  · exact hone

section Terminated

variable {s rest : Bytes} {i k : Nat}

/-- The bytes of the buffer up to the terminator are those of the string. -/
theorem getD_terminated (h : i + k ≤ s.length) :
    (s ++ 0 :: rest).getD (i + k) 0 = (s.drop i).getD k 0 := by
  rw [List.getD_eq_getElem?_getD, List.getD_eq_getElem?_getD, List.getElem?_drop]
  rcases Nat.eq_or_lt_of_le h with heq | hlt
  · rw [heq, List.getElem?_append_right (Nat.le_refl _), Nat.sub_self,
      List.getElem?_eq_none (Nat.le_refl _)]
    rfl
  · rw [List.getElem?_append_left hlt]

/-! ## Reading it -/

/-- From everywhere the test reads good indices only, and tells whether `φ`. -/
def Tells (good : Nat → Prop) (t : Reading Bool) (φ : Prop) : Prop :=
  Ensures good (fun _ => True) t fun b _ => b = true ↔ φ

theorem tells_pure {good : Nat → Prop} {φ : Prop} [Decidable φ] : Tells good (pure (decide φ)) φ :=
  ensures_pure fun _ _ => decide_eq_true_iff

/-- What is known of a value that has been read. -/
theorem ensures_known {good : Nat → Prop} {φ : Prop} {α : Type} {p : Reading α}
    {Q : α → Unit → Prop}
    (h : φ → Ensures good (fun _ => True) p Q) : Ensures good (fun _ => φ) p Q :=
  fun u hφ => h hφ u trivial

/-- What comes after a test. -/
theorem ensures_test {good : Nat → Prop} {t : Reading Bool} {φ : Prop} {α : Type} {p q : Reading α}
    {Q : α → Unit → Prop} (ht : Tells good t φ) (hp : φ → Ensures good (fun _ => True) p Q)
    (hq : ¬ φ → Ensures good (fun _ => True) q Q) :
    Ensures good (fun _ => True) (do if ← t then p else q) Q := by
  refine ensures_bind ht fun b u hb => ?_
  cases b with
  | true => exact hp (hb.1 rfl) u trivial
  | false => exact hq (fun h => Bool.false_ne_true (hb.2 h)) u trivial

/-- A test is made only if the ones before it have succeeded. -/
theorem tells_allOf_cons {good : Nat → Prop} {t : Reading Bool}
    {ts : List (Reading Bool)} {φ ψ : Prop}
    (ht : Tells good t φ) (hts : φ → Tells good (allOf ts) ψ) :
    Tells good (allOf (t :: ts)) (φ ∧ ψ) := by
  refine ensures_test ht (fun h => ?_) fun h => ?_
  · refine (hts h).weaken (fun _ hu => hu) fun b _ hb => ?_
    rw [hb, and_iff_right h]
  · exact ensures_pure fun _ _ => iff_of_false Bool.false_ne_true fun hboth => h hboth.1

theorem tells_allOf_one {good : Nat → Prop} {t : Reading Bool} {φ : Prop} (ht : Tells good t φ) :
    Tells good (allOf [t]) φ :=
  ensures_test ht (fun h => ensures_pure fun _ _ => iff_of_true rfl h) fun h =>
    ensures_pure fun _ _ => iff_of_false Bool.false_ne_true h

theorem ensures_readByte (h : i + k ≤ s.length) :
    Ensures (· ≤ s.length) (fun _ => True) (readByte (s ++ 0 :: rest) (i + k)) fun b _ =>
      b = ((s.drop i).getD k 0).toNat :=
  ensures_bind (ensures_access h) fun _ => ensures_pure fun _ _ => by rw [getD_terminated h]

theorem tells_readsNonzero (h : i + k ≤ s.length) :
    Tells (· ≤ s.length) (readsNonzero (s ++ 0 :: rest) (i + k))
      (((s.drop i).getD k 0).toNat ≠ 0) :=
  ensures_bind (ensures_readByte h) fun b => ensures_pure fun _ hb => by rw [decide_eq_true_iff, hb]

theorem tells_readsTail (h : i + k ≤ s.length) :
    Tells (· ≤ s.length) (readsTail (s ++ 0 :: rest) (i + k))
      (((s.drop i).getD k 0).toNat &&& 0xc0 = 0x80) :=
  ensures_bind (ensures_readByte h) fun b => ensures_pure fun _ hb => by rw [decide_eq_true_iff, hb]

/-- A byte that is not the terminator is in the string. -/
theorem lt_of_nonzero (h : ((s.drop i).getD k 0).toNat ≠ 0) : i + k < s.length := by
  by_contra hge
  rw [List.getD_eq_getElem?_getD, List.getElem?_drop, List.getElem?_eq_none (Nat.not_lt.1 hge)] at h
  exact h rfl

/-- The test of the next byte, and the tests after it. -/
theorem tells_nonzero_cons {ts : List (Reading Bool)} {ψ : Prop} (h : i + k ≤ s.length)
    (hts : i + k < s.length → Tells (· ≤ s.length) (allOf ts) ψ) :
    Tells (· ≤ s.length) (allOf (readsNonzero (s ++ 0 :: rest) (i + k) :: ts))
      (((s.drop i).getD k 0).toNat ≠ 0 ∧ ψ) :=
  tells_allOf_cons (tells_readsNonzero h) fun hb => hts (lt_of_nonzero hb)

theorem tells_tail_cons {ts : List (Reading Bool)} {ψ : Prop} (h : i + k ≤ s.length)
    (hts : Tells (· ≤ s.length) (allOf ts) ψ) :
    Tells (· ≤ s.length) (allOf (readsTail (s ++ 0 :: rest) (i + k) :: ts))
      (((s.drop i).getD k 0).toNat &&& 0xc0 = 0x80 ∧ ψ) :=
  tells_allOf_cons (tells_readsTail h) fun _ => hts

/-- A round reads nothing behind the terminator. -/
theorem ensures_utf16Round (h : i < s.length) :
    Ensures (· ≤ s.length) (fun _ => True)
      (utf16Round (s ++ 0 :: rest) i ((s.drop i).getD 0 0).toNat) fun r _ =>
        r = utf16Step (s.drop i) := by
  have hone : i + 1 ≤ s.length := h
  unfold utf16Round utf16Step
  dsimp only
  refine ensures_ite (fun hascii => ensures_pure fun _ _ => (if_pos hascii).symm) fun hascii => ?_
  rw [if_neg hascii]
  refine ensures_test (tells_allOf_cons tells_pure fun _ => tells_nonzero_cons hone fun _ =>
    tells_allOf_one (tells_readsTail hone)) (fun htwo => ?_) fun htwo => ?_
  · exact ensures_pure fun _ _ => (if_pos htwo).symm
  rw [if_neg htwo]
  refine ensures_test (tells_allOf_cons tells_pure fun _ => tells_nonzero_cons hone fun htwo =>
    tells_nonzero_cons htwo fun _ => tells_tail_cons hone (tells_allOf_one (tells_readsTail htwo)))
    (fun hthree => ?_) fun hthree => ?_
  · exact ensures_pure fun _ _ => (if_pos hthree).symm
  rw [if_neg hthree]
  refine ensures_test (tells_allOf_cons tells_pure fun _ => tells_nonzero_cons hone fun htwo =>
    tells_nonzero_cons htwo fun hthree => tells_nonzero_cons hthree fun _ => tells_tail_cons hone
      (tells_tail_cons htwo (tells_allOf_one (tells_readsTail hthree)))) (fun hfour => ?_)
        fun hfour => ?_
  · exact ensures_pure fun _ _ => (if_pos hfour).symm
  · exact ensures_pure fun _ _ => (if_neg hfour).symm

/-- The byte at `i` is 0 exactly at the end of the string. -/
theorem drop_eq_nil_iff (hzero : 0 ∉ s) : s.drop i = [] ↔ ((s.drop i).getD 0 0).toNat = 0 := by
  cases hdrop : s.drop i with
  | nil => exact iff_of_true rfl rfl
  | cons b bs =>
      refine iff_of_false (List.cons_ne_nil b bs) fun hb => hzero ?_
      have hmem : b ∈ s := List.mem_of_mem_drop (hdrop ▸ List.mem_cons_self ..)
      rwa [show b = 0 from UInt8.toNat_inj.1 hb] at hmem

/-- From `i` on the loop counts the rest of the string, by induction on what is left of it. -/
theorem ensures_utf16ReadLoop (hzero : 0 ∉ s) {rounds units : Nat} (hi : i ≤ s.length)
    (hrounds : s.length - i < rounds) :
    Ensures (· ≤ s.length) (fun _ => True)
      (utf16ReadLoop (s ++ 0 :: rest) rounds i units) fun r _ =>
      r = utf16LengthUtf8Loop (s.drop i) units := by
  induction rounds generalizing i units with
  | zero => exact absurd hrounds (Nat.not_lt_zero _)
  | succ rounds ih =>
      have hread : Ensures (· ≤ s.length) (fun _ => True) (readByte (s ++ 0 :: rest) i) fun b _ =>
          b = ((s.drop i).getD 0 0).toNat := @ensures_readByte s rest i 0 hi
      refine ensures_bind hread fun b => ensures_known fun hb => ?_
      subst hb
      refine ensures_ite (fun hend => ensures_pure fun _ _ => ?_) fun hmore => ?_
      · rw [utf16LengthUtf8Loop, dif_pos ((drop_eq_nil_iff hzero).2 hend)]
      have hne : s.drop i ≠ [] := fun hnil => hmore ((drop_eq_nil_iff hzero).1 hnil)
      have hlt : i < s.length := lt_of_nonzero hmore
      refine ensures_bind hread fun c => ensures_known fun hc => ?_
      subst hc
      refine ensures_bind (ensures_utf16Round hlt) fun step => ensures_known fun hstep => ?_
      obtain ⟨used, counted⟩ := step
      have hused : used ≤ s.length - i := by
        have hle := utf16Step_le hne
        rwa [← hstep, List.length_drop] at hle
      have hpos : 0 < used := by
        have hpos := utf16Step_pos (s.drop i)
        rwa [← hstep] at hpos
      rw [utf16LengthUtf8Loop, dif_neg hne, ← hstep]
      dsimp only
      refine ensures_ite (fun hcap => ensures_pure fun _ _ => (if_pos hcap).symm) fun hcap => ?_
      rw [if_neg hcap, List.drop_drop]
      exact ih (by omega) (by omega)

end Terminated

/-! ## The length -/

/-- Whatever follows the terminator of a string, `utf16_length_utf8` comes to an end and reads
nothing behind the terminator, and if the string is a text of fewer than `2 ^ 31` units it returns
their number. -/
theorem utf16_length_exact (s : CString) (rest : Bytes) : ∃ rounds, ∀ k, rounds ≤ k →
    let run := utf16LengthReads k (some (s.bytes ++ 0 :: rest)) ()
    (run.1 = .ok (utf16LengthUtf8 s) ∧ ∀ i ∈ run.2.2, i ≤ s.bytes.length) ∧
      ∀ cs, s.bytes = utf8 cs → (utf16 cs).length < 2 ^ 31 → run.1 = .ok (utf16 cs).length := by
  refine ⟨s.bytes.length + 1, fun k hk => ?_⟩
  have hloop : Ensures (· ≤ s.bytes.length) (fun _ => True)
      (utf16ReadLoop (s.bytes ++ 0 :: rest) k 0 0) fun r _ =>
        r = utf16LengthUtf8Loop (s.bytes.drop 0) 0 :=
    ensures_utf16ReadLoop s.nonzero (Nat.zero_le _) (Nat.lt_of_succ_le hk)
  obtain ⟨hreads, r, hreturns, hr⟩ := hloop () trivial
  rw [List.drop_zero] at hr
  have hresult : (utf16LengthReads k (some (s.bytes ++ 0 :: rest)) ()).1 =
    .ok (utf16LengthUtf8 s) :=
    hreturns.trans (congrArg Except.ok hr)
  refine ⟨⟨hresult, hreads⟩, fun cs hcs hlength => ?_⟩
  rw [hresult, utf16LengthUtf8_utf8 hcs, Nat.min_eq_left (Nat.le_of_lt_succ hlength)]

end Asnx.Jni
