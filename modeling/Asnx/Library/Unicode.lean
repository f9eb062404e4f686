import Mathlib.Algebra.Group.Nat.Defs
import Mathlib.Data.List.Basic

/-!
# Encodings of Unicode text

A scalar value is a `Char`. `utf8` and `utf16` are the two encodings of a text, `ValidUtf8` says
that bytes are one. The encoding of a character is given by what each of its units is as a number,
so that a coder written with masks and shifts is compared with it by arithmetic.
-/

namespace Asnx.Unicode

/-! ## Masks and shifts as arithmetic -/

/-- A mask of `j` ones above the low `k` bits keeps the multiple of `2 ^ k`. -/
theorem and_high {c : Nat} (k j : Nat) (hc : c < 2 ^ (k + j)) :
    c &&& 2 ^ k * (2 ^ j - 1) = 2 ^ k * (c / 2 ^ k) := by
  apply Nat.eq_of_testBit_eq
  intro i
  rw [Nat.testBit_and, Nat.testBit_two_pow_mul, Nat.testBit_two_pow_mul,
    Nat.testBit_two_pow_sub_one,
    Nat.testBit_div_two_pow]
  by_cases hki : k ≤ i
  · by_cases hij : i - k < j
    · simp [hki, hij]
    · have hi : c < 2 ^ i := Nat.lt_of_lt_of_le hc (Nat.pow_le_pow_right (by omega) (by omega))
      simp [hki, hij, Nat.testBit_lt_two_pow hi]
  · simp [hki]

/-- An or below a shifted number is a sum. -/
theorem or_low {b : Nat} (k a : Nat) (hb : b < 2 ^ k) : a <<< k ||| b = a * 2 ^ k + b := by
  rw [← Nat.shiftLeft_add_eq_or_of_lt hb, Nat.shiftLeft_eq]

/-- An or below a multiple is a sum. -/
theorem or_multiple {b : Nat} (k a : Nat) (hb : b < 2 ^ k) : 2 ^ k * a ||| b = 2 ^ k * a + b :=
  (Nat.two_pow_add_eq_or_of_lt hb a).symm

/-! ### The lead bits of a byte -/

theorem and_c0 (b : UInt8) : (b.toNat &&& 0xc0 = 0x80) = (b.toNat / 64 = 2) := by
  have h : b.toNat &&& 0xc0 = 64 * (b.toNat / 64) := and_high 6 2 b.toNat_lt
  rw [h, eq_iff_iff]
  omega

theorem and_e0 (b : UInt8) : (b.toNat &&& 0xe0 = 0xc0) = (b.toNat / 32 = 6) := by
  have h : b.toNat &&& 0xe0 = 32 * (b.toNat / 32) := and_high 5 3 b.toNat_lt
  rw [h, eq_iff_iff]
  omega

theorem and_f0 (b : UInt8) : (b.toNat &&& 0xf0 = 0xe0) = (b.toNat / 16 = 14) := by
  have h : b.toNat &&& 0xf0 = 16 * (b.toNat / 16) := and_high 4 4 b.toNat_lt
  rw [h, eq_iff_iff]
  omega

theorem and_f8 (b : UInt8) : (b.toNat &&& 0xf8 = 0xf0) = (b.toNat / 8 = 30) := by
  have h : b.toNat &&& 0xf8 = 8 * (b.toNat / 8) := and_high 3 5 b.toNat_lt
  rw [h, eq_iff_iff]
  omega

/-! ## UTF-8 -/

/-- The UTF-8 encoding of a text. -/
def utf8 (cs : List Char) : List UInt8 := cs.flatMap String.utf8EncodeChar

/-- Bytes that are the UTF-8 encoding of a text. -/
def ValidUtf8 (bytes : List UInt8) : Prop := ∃ cs, bytes = utf8 cs

@[simp] theorem utf8_nil : utf8 [] = [] := rfl

@[simp] theorem utf8_cons (c : Char) (cs : List Char) :
    utf8 (c :: cs) = String.utf8EncodeChar c ++ utf8 cs := List.flatMap_cons

@[simp] theorem utf8_append (cs ds : List Char) : utf8 (cs ++ ds) = utf8 cs ++ utf8 ds :=
  List.flatMap_append

/-- A scalar value is below 0xd800 or in 0xe000..0x10ffff. -/
theorem scalar (c : Char) : c.toNat < 0xd800 ∨ 0xdfff < c.toNat ∧ c.toNat < 0x110000 := c.valid

/-- A number that is a scalar value. -/
theorem exists_char {n : Nat} (h : n < 0xd800 ∨ 0xdfff < n ∧ n < 0x110000) :
    ∃ c : Char, c.toNat = n := by
  have hlt : n < 2 ^ 32 := by omega
  exact ⟨⟨UInt32.ofNatLT n hlt, h⟩, rfl⟩

/-- A character of one byte. -/
theorem encode_one {c : Char} (h : c.toNat < 0x80) :
    String.utf8EncodeChar c = [UInt8.ofNat c.toNat] := by
  unfold String.utf8EncodeChar
  exact if_pos (show c.val.toNat ≤ 0x7f from Nat.lt_succ_iff.1 h)

/-- A character of two bytes. -/
theorem encode_two {c : Char} (hlow : 0x80 ≤ c.toNat) (h : c.toNat < 0x800) :
    String.utf8EncodeChar c =
      [UInt8.ofNat (c.toNat / 64 % 32 + 0xc0), UInt8.ofNat (c.toNat % 64 + 0x80)] := by
  unfold String.utf8EncodeChar
  change 0x80 ≤ c.val.toNat at hlow
  change c.val.toNat < 0x800 at h
  dsimp only
  rw [if_neg (by omega), if_pos (by omega)]
  rfl

/-- A character of three bytes. -/
theorem encode_three {c : Char} (hlow : 0x800 ≤ c.toNat) (h : c.toNat < 0x10000) :
    String.utf8EncodeChar c =
      [UInt8.ofNat (c.toNat / 4096 % 16 + 0xe0), UInt8.ofNat (c.toNat / 64 % 64 + 0x80),
        UInt8.ofNat (c.toNat % 64 + 0x80)] := by
  unfold String.utf8EncodeChar
  change 0x800 ≤ c.val.toNat at hlow
  change c.val.toNat < 0x10000 at h
  dsimp only
  rw [if_neg (by omega), if_neg (by omega), if_pos (by omega)]
  rfl

/-- A character of four bytes. -/
theorem encode_four {c : Char} (hlow : 0x10000 ≤ c.toNat) :
    String.utf8EncodeChar c =
      [UInt8.ofNat (c.toNat / 262144 % 8 + 0xf0), UInt8.ofNat (c.toNat / 4096 % 64 + 0x80),
        UInt8.ofNat (c.toNat / 64 % 64 + 0x80), UInt8.ofNat (c.toNat % 64 + 0x80)] := by
  unfold String.utf8EncodeChar
  change 0x10000 ≤ c.val.toNat at hlow
  dsimp only
  rw [if_neg (by omega), if_neg (by omega), if_neg (by omega)]
  rfl

/-! ### Encoded with masks and shifts -/

/-- The low six bits of a number. -/
theorem and_3f (n : Nat) : n &&& 0x3f = n % 64 := Nat.and_two_pow_sub_one_eq_mod n 6

/-- A byte behind the first one. -/
theorem or_80 (n : Nat) : 0x80 ||| (n &&& 0x3f) = n % 64 + 0x80 := by
  rw [and_3f, show (0x80 : Nat) = 2 ^ 6 * 2 by rfl, or_multiple 6 2 (by omega)]
  omega

theorem masks_two {c : Char} (hlow : 0x80 ≤ c.toNat) (h : c.toNat < 0x800) :
    [0xc0 ||| c.toNat >>> 6, 0x80 ||| (c.toNat &&& 0x3f)].map UInt8.ofNat =
      String.utf8EncodeChar c := by
  have hlead := or_multiple 6 3 (show c.toNat / 2 ^ 6 < 2 ^ 6 by omega)
  rw [encode_two hlow h, or_80, Nat.shiftRight_eq_div_pow, show (0xc0 : Nat) =
    2 ^ 6 * 3 by rfl, hlead]
  show [UInt8.ofNat _, UInt8.ofNat _] = _
  congr 2
  omega

theorem masks_three {c : Char} (hlow : 0x800 ≤ c.toNat) (h : c.toNat < 0x10000) :
    [0xe0 ||| c.toNat >>> 12, 0x80 ||| (c.toNat >>> 6 &&& 0x3f), 0x80 ||| (c.toNat &&& 0x3f)].map
      UInt8.ofNat = String.utf8EncodeChar c := by
  have hlead := or_multiple 5 7 (show c.toNat / 2 ^ 12 < 2 ^ 5 by omega)
  rw [encode_three hlow h, or_80, or_80, Nat.shiftRight_eq_div_pow, Nat.shiftRight_eq_div_pow,
    show (0xe0 : Nat) = 2 ^ 5 * 7 by rfl, hlead]
  show [UInt8.ofNat _, UInt8.ofNat _, UInt8.ofNat _] = _
  congr 2
  omega

theorem masks_four {c : Char} (hlow : 0x10000 ≤ c.toNat) :
    [0xf0 ||| c.toNat >>> 18, 0x80 ||| (c.toNat >>> 12 &&& 0x3f), 0x80 ||| (c.toNat >>> 6 &&& 0x3f),
      0x80 ||| (c.toNat &&& 0x3f)].map UInt8.ofNat = String.utf8EncodeChar c := by
  have hscalar := scalar c
  have hlead := or_multiple 4 15 (show c.toNat / 2 ^ 18 < 2 ^ 4 by omega)
  rw [encode_four hlow, or_80, or_80, or_80, Nat.shiftRight_eq_div_pow, Nat.shiftRight_eq_div_pow,
    Nat.shiftRight_eq_div_pow, show (0xf0 : Nat) = 2 ^ 4 * 15 by rfl, hlead]
  show [UInt8.ofNat _, UInt8.ofNat _, UInt8.ofNat _, UInt8.ofNat _] = _
  congr 2
  omega

/-- The four lengths of an encoded character. -/
theorem length_cases (c : Char) :
    c.toNat < 0x80 ∨ (0x80 ≤ c.toNat ∧ c.toNat < 0x800) ∨ (0x800 ≤ c.toNat ∧ c.toNat < 0x10000) ∨
      0x10000 ≤ c.toNat := by
  omega

/-- An encoded character has a byte. -/
theorem length_encode_pos (c : Char) : 0 < (String.utf8EncodeChar c).length :=
  List.length_pos_iff.2 String.utf8EncodeChar_ne_nil

/-- A text has at most as many characters as its encoding has bytes. -/
theorem length_le_utf8 (cs : List Char) : cs.length ≤ (utf8 cs).length := by
  induction cs with
  | nil => exact Nat.le_refl 0
  | cons c cs ih =>
      have := length_encode_pos c
      rw [utf8_cons, List.length_append, List.length_cons]
      omega

/-- Only the character 0 has a zero byte in its encoding. -/
theorem zero_mem_encode {c : Char} : 0 ∈ String.utf8EncodeChar c ↔ c.toNat = 0 := by
  have hbyte : ∀ n, n < 256 → ((0 : UInt8) = UInt8.ofNat n ↔ n = 0) := by
    intro n hn
    rw [← UInt8.toNat_inj, UInt8.toNat_ofNat_of_lt' hn]
    exact eq_comm
  rcases length_cases c with h | ⟨hlow, h⟩ | ⟨hlow, h⟩ | hlow
  · rw [encode_one h, List.mem_singleton, hbyte _ (by omega)]
  · rw [encode_two hlow h]
    simp only [List.mem_cons, List.not_mem_nil, or_false]
    rw [hbyte _ (by omega), hbyte _ (by omega)]
    omega
  · rw [encode_three hlow h]
    simp only [List.mem_cons, List.not_mem_nil, or_false]
    rw [hbyte _ (by omega), hbyte _ (by omega), hbyte _ (by omega)]
    omega
  · rw [encode_four hlow]
    simp only [List.mem_cons, List.not_mem_nil, or_false]
    rw [hbyte _ (by omega), hbyte _ (by omega), hbyte _ (by omega), hbyte _ (by omega)]
    omega

/-- The encoding of a text has a zero byte exactly when the text has the character 0. -/
theorem zero_mem_utf8 {cs : List Char} : 0 ∈ utf8 cs ↔ ∃ c ∈ cs, c.toNat = 0 := by
  unfold utf8
  rw [List.mem_flatMap]
  simp only [zero_mem_encode]

/-! ## UTF-16 -/

/-- The UTF-16 units of a character. -/
def utf16EncodeChar (c : Char) : List UInt16 :=
  if c.toNat < 0x10000 then [UInt16.ofNat c.toNat]
  else
    [UInt16.ofNat (0xd800 + (c.toNat - 0x10000) / 0x400),
      UInt16.ofNat (0xdc00 + (c.toNat - 0x10000) % 0x400)]

/-- The UTF-16 encoding of a text. -/
def utf16 (cs : List Char) : List UInt16 := cs.flatMap utf16EncodeChar

@[simp] theorem utf16_nil : utf16 [] = [] := rfl

@[simp] theorem utf16_cons (c : Char) (cs : List Char) :
    utf16 (c :: cs) = utf16EncodeChar c ++ utf16 cs := List.flatMap_cons

/-- A character below 0x10000 has one unit, another has two. -/
theorem length_utf16EncodeChar (c : Char) :
    (utf16EncodeChar c).length = if c.toNat < 0x10000 then 1 else 2 := by
  unfold utf16EncodeChar
  split
  · rfl
  · rfl

/-- A character below 128 is its own byte and its own unit. -/
theorem encode_ascii {c : Char} (h : c.toNat < 0x80) :
    utf16EncodeChar c = (String.utf8EncodeChar c).map fun b => UInt16.ofNat b.toNat := by
  have hbyte : (UInt8.ofNat c.toNat).toNat = c.toNat :=
    UInt8.toNat_ofNat_of_lt' (show c.toNat < 256 by omega)
  rw [encode_one h, List.map_singleton, hbyte]
  exact if_pos (by omega)

/-- A character with all bytes below 128 is one of them. -/
theorem lt_of_encode {c : Char} (h : ∀ b ∈ String.utf8EncodeChar c, b.toNat < 128) :
    c.toNat < 0x80 := by
  have hscalar := scalar c
  have hbyte : ∀ n, n < 256 → (UInt8.ofNat n).toNat = n := fun n hn => UInt8.toNat_ofNat_of_lt' hn
  rcases length_cases c with hc | ⟨hlow, hc⟩ | ⟨hlow, hc⟩ | hlow
  · exact hc
  · rw [encode_two hlow hc] at h
    have := h _ List.mem_cons_self
    rw [hbyte _ (by omega)] at this
    omega
  · rw [encode_three hlow hc] at h
    have := h _ List.mem_cons_self
    rw [hbyte _ (by omega)] at this
    omega
  · rw [encode_four hlow] at h
    have := h _ List.mem_cons_self
    rw [hbyte _ (by omega)] at this
    omega

/-- On text below 128 the units of UTF-16 are the bytes of UTF-8. -/
theorem utf16_eq_utf8 {cs : List Char} (h : ∀ b ∈ utf8 cs, b.toNat < 128) :
    utf16 cs = (utf8 cs).map fun b => UInt16.ofNat b.toNat := by
  induction cs with
  | nil => rfl
  | cons c cs ih =>
      rw [utf8_cons] at h
      have hc := lt_of_encode fun b hb => h b (List.mem_append_left _ hb)
      rw [utf16_cons, utf8_cons, List.map_append, encode_ascii hc,
        ih fun b hb => h b (List.mem_append_right _ hb)]

/-- Bytes below 128 are a text. -/
theorem eq_utf8_of_ascii {bytes : List UInt8} (h : ∀ b ∈ bytes, b.toNat < 128) :
    bytes = utf8 (bytes.map fun b => Char.ofNat b.toNat) := by
  induction bytes with
  | nil => rfl
  | cons b bytes ih =>
      have hb := h b List.mem_cons_self
      have hchar : (Char.ofNat b.toNat).toNat = b.toNat := by
        have hvalid : b.toNat.isValidChar := Or.inl (by omega)
        unfold Char.ofNat
        rw [dif_pos hvalid]
        rfl
      rw [List.map_cons, utf8_cons, encode_one (by omega), hchar, UInt8.ofNat_toNat,
        ← ih fun d hd => h d (List.mem_cons_of_mem b hd)]
      rfl

/-! ## Units that are not a text -/

/-- A unit that is the first of two. -/
def IsHigh (u : UInt16) : Prop := 0xd800 ≤ u.toNat ∧ u.toNat ≤ 0xdbff

/-- A unit that is the second of two. -/
def IsLow (u : UInt16) : Prop := 0xdc00 ≤ u.toNat ∧ u.toNat ≤ 0xdfff

instance (u : UInt16) : Decidable (IsHigh u) := inferInstanceAs (Decidable (_ ∧ _))

instance (u : UInt16) : Decidable (IsLow u) := inferInstanceAs (Decidable (_ ∧ _))

/-- A unit of two, without the other one, in front of these units. -/
def Unpaired (u : UInt16) (rest : List UInt16) : Prop :=
  IsLow u ∨ IsHigh u ∧ ∀ v ∈ rest.head?, ¬ IsLow v

/-- No character is at the start of these units. -/
def Ends : List UInt16 → Prop
  | [] => True
  | u :: rest => Unpaired u rest

/-- The character of two units. -/
def pairChar (u v : UInt16) : Char :=
  Char.ofNat (0x10000 + (u.toNat - 0xd800) * 0x400 + (v.toNat - 0xdc00))

/-- The text at the start of some units, and the units behind it. -/
def textOf : List UInt16 → List Char × List UInt16
  | [] => ([], [])
  | [u] => if IsHigh u ∨ IsLow u then ([], [u]) else ([Char.ofNat u.toNat], [])
  | u :: v :: rest =>
      if IsHigh u ∧ IsLow v then (pairChar u v :: (textOf rest).1, (textOf rest).2)
      else if IsHigh u ∨ IsLow u then ([], u :: v :: rest)
      else (Char.ofNat u.toNat :: (textOf (v :: rest)).1, (textOf (v :: rest)).2)

/-- The character of a scalar value. -/
theorem charOfNat_toNat {n : Nat} (h : n < 0xd800 ∨ 0xdfff < n ∧ n < 0x110000) :
    (Char.ofNat n).toNat = n := by
  obtain ⟨c, rfl⟩ := exists_char h
  rw [Char.ofNat_toNat]

/-- A unit that stands alone is its character. -/
theorem encode_alone {u : UInt16} (h : ¬ (IsHigh u ∨ IsLow u)) :
    utf16EncodeChar (Char.ofNat u.toNat) = [u] := by
  have hlt := u.toNat_lt
  unfold IsHigh IsLow at h
  unfold utf16EncodeChar
  rw [charOfNat_toNat (by omega), if_pos (by omega), UInt16.ofNat_toNat]

theorem toNat_pairChar {u v : UInt16} (hu : IsHigh u) (hv : IsLow v) :
    (pairChar u v).toNat = 0x10000 + (u.toNat - 0xd800) * 0x400 + (v.toNat - 0xdc00) := by
  obtain ⟨hu, hu'⟩ := hu
  obtain ⟨hv, hv'⟩ := hv
  exact charOfNat_toNat (by omega)

/-- Two units are their character. -/
theorem encode_pairChar {u v : UInt16} (hu : IsHigh u) (hv : IsLow v) :
    utf16EncodeChar (pairChar u v) = [u, v] := by
  unfold utf16EncodeChar
  rw [toNat_pairChar hu hv]
  obtain ⟨hu, hu'⟩ := hu
  obtain ⟨hv, hv'⟩ := hv
  have hfirst : 0xd800 + (0x10000 + (u.toNat - 0xd800) * 0x400 + (v.toNat - 0xdc00) - 0x10000) /
      0x400 = u.toNat := by omega
  have hsecond : 0xdc00 + (0x10000 + (u.toNat - 0xd800) * 0x400 + (v.toNat - 0xdc00) - 0x10000) %
      0x400 = v.toNat := by omega
  rw [if_neg (by omega), hfirst, hsecond, UInt16.ofNat_toNat, UInt16.ofNat_toNat]

/-- The two shapes of an encoded character. -/
theorem encode_cases (c : Char) :
    (c.toNat < 0x10000 ∧ ∃ u, utf16EncodeChar c = [u] ∧ u.toNat = c.toNat ∧
      ¬ (IsHigh u ∨ IsLow u)) ∨
      (0x10000 ≤ c.toNat ∧ ∃ u v, utf16EncodeChar c = [u, v] ∧ IsHigh u ∧ IsLow v ∧
        c.toNat = 0x10000 + (u.toNat - 0xd800) * 0x400 + (v.toNat - 0xdc00)) := by
  have hscalar := scalar c
  have hunit : ∀ n, n < 2 ^ 16 → (UInt16.ofNat n).toNat = n := fun n hn =>
    UInt16.toNat_ofNat_of_lt' hn
  by_cases hc : c.toNat < 0x10000
  case pos =>
    refine Or.inl ⟨hc, _, if_pos hc, hunit _ hc, ?_⟩
    unfold IsHigh IsLow
    rw [hunit _ hc]
    omega
  case neg =>
    refine Or.inr ⟨Nat.le_of_not_lt hc, _, _, if_neg hc, ?_⟩
    unfold IsHigh IsLow
    rw [hunit _ (by omega), hunit _ (by omega)]
    omega

/-- The text of an encoded character and more. -/
theorem textOf_encode (c : Char) (rest : List UInt16) :
    textOf (utf16EncodeChar c ++ rest) = (c :: (textOf rest).1, (textOf rest).2) := by
  rcases encode_cases c with ⟨-, u, hu, hvalue, halone⟩ | ⟨-, u, v, huv, hhigh, hlow, hvalue⟩
  · have hchar : Char.ofNat u.toNat = c := by rw [hvalue, Char.ofNat_toNat]
    rw [hu, List.singleton_append]
    cases rest with
    | nil =>
        show (if IsHigh u ∨ IsLow u then ([], [u]) else ([Char.ofNat u.toNat], [])) = _
        rw [if_neg halone, hchar]
        rfl
    | cons v rest =>
        rw [textOf, if_neg fun h => halone (Or.inl h.1), if_neg halone, hchar]
  · have hchar : pairChar u v = c := by rw [← Char.toNat_inj, toNat_pairChar hhigh hlow, hvalue]
    rw [huv]
    show textOf (u :: v :: rest) = _
    rw [textOf, if_pos ⟨hhigh, hlow⟩, hchar]

/-- Units with no character at their start have no text. -/
theorem textOf_ends {tail : List UInt16} (h : Ends tail) : textOf tail = ([], tail) := by
  rcases tail with _ | ⟨u, _ | ⟨v, rest⟩⟩
  · rfl
  · have hu : IsHigh u ∨ IsLow u := h.elim Or.inr fun h => Or.inl h.1
    exact if_pos hu
  · have hu : IsHigh u ∨ IsLow u := h.elim Or.inr fun h => Or.inl h.1
    have hpair : ¬ (IsHigh u ∧ IsLow v) := by
      rintro ⟨hhigh, hlow⟩
      rcases h with h | h
      · exact absurd (Nat.le_trans h.1 hhigh.2) (by decide)
      · exact h.2 v rfl hlow
    rw [textOf, if_neg hpair, if_pos hu]

/-- The text of encoded text and units without one behind it. -/
theorem textOf_utf16 (cs : List Char) {tail : List UInt16} (h : Ends tail) :
    textOf (utf16 cs ++ tail) = (cs, tail) := by
  induction cs with
  | nil => exact textOf_ends h
  | cons c cs ih => rw [utf16_cons, List.append_assoc, textOf_encode, ih]

/-- Units are their text and the rest. -/
theorem utf16_textOf (us : List UInt16) :
    utf16 (textOf us).1 ++ (textOf us).2 = us ∧ Ends (textOf us).2 := by
  induction us using textOf.induct with
  | case1 => exact ⟨rfl, trivial⟩
  | case2 u h =>
      rw [textOf, if_pos h]
      exact ⟨rfl, h.symm.imp_right fun h => ⟨h, nofun⟩⟩
  | case3 u h =>
      rw [textOf, if_neg h]
      refine ⟨?_, trivial⟩
      rw [utf16_cons, encode_alone h]
      rfl
  | case4 u v rest h ih =>
      rw [textOf, if_pos h]
      refine ⟨?_, ih.2⟩
      rw [utf16_cons, encode_pairChar h.1 h.2, List.append_assoc, ih.1]
      rfl
  | case5 u v rest hpair h =>
      rw [textOf, if_neg hpair, if_pos h]
      refine ⟨rfl, h.symm.imp_right fun h => ⟨h, ?_⟩⟩
      rintro v ⟨⟩ hv
      exact hpair ⟨h, hv⟩
  | case6 u v rest hpair h ih =>
      rw [textOf, if_neg hpair, if_neg h]
      refine ⟨?_, ih.2⟩
      rw [utf16_cons, encode_alone h, List.append_assoc, ih.1]
      rfl

@[simp] theorem utf16_append (cs ds : List Char) : utf16 (cs ++ ds) = utf16 cs ++ utf16 ds :=
  List.flatMap_append

end Asnx.Unicode
