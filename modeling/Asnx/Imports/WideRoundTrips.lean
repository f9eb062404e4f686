import Asnx.Imports.WideStrings
import Asnx.Library.Unicode

/-!
# Multibyte and wide strings convert into each other

`nxUtf8Encode` and `nxUtf8Decode` are the encoding of a character and its inverse. Each loop
converts the text in front of it and goes on behind the text (`mbsnrtowcsLoop_text`,
`wcsnrtombsLoop_text`), and what is left then is the end, the terminator or something malformed.
-/

namespace Asnx.Imports

open Unicode

/-! ## Values of bytes -/

/-- The value of two bytes. -/
theorem value_two (b0 b1 : Nat) :
    (b0 &&& 0x1f) <<< 6 ||| (b1 &&& 0x3f) = b0 % 32 * 64 + b1 % 64 := by
  have h0 : b0 &&& 0x1f = b0 % 32 := Nat.and_two_pow_sub_one_eq_mod b0 5
  rw [h0, and_3f, or_low 6 _ (by omega)]
  omega

/-- The value of three bytes. -/
theorem value_three (b0 b1 b2 : Nat) :
    (b0 &&& 0x0f) <<< 12 ||| (b1 &&& 0x3f) <<< 6 ||| (b2 &&& 0x3f) =
      b0 % 16 * 4096 + b1 % 64 * 64 + b2 % 64 := by
  have h0 : b0 &&& 0x0f = b0 % 16 := Nat.and_two_pow_sub_one_eq_mod b0 4
  rw [h0, and_3f, and_3f, Nat.or_assoc, or_low 6 _ (by omega), or_low 12 _ (by omega)]
  omega

/-- The value of four bytes. -/
theorem value_four (b0 b1 b2 b3 : Nat) :
    (b0 &&& 7) <<< 18 ||| (b1 &&& 0x3f) <<< 12 ||| (b2 &&& 0x3f) <<< 6 ||| (b3 &&& 0x3f) =
      b0 % 8 * 262144 + b1 % 64 * 4096 + b2 % 64 * 64 + b3 % 64 := by
  have h0 : b0 &&& 7 = b0 % 8 := Nat.and_two_pow_sub_one_eq_mod b0 3
  rw [h0, and_3f, and_3f, and_3f, Nat.or_assoc, Nat.or_assoc, or_low 6 _ (by omega),
    or_low 12 _ (by omega), or_low 18 _ (by omega)]
  omega

/-! ## One character -/

/-- The encoder's bytes are those of the character. -/
theorem nxUtf8Encode_char (c : Char) : nxUtf8Encode c.toNat = String.utf8EncodeChar c := by
  have hscalar := scalar c
  unfold nxUtf8Encode
  rcases length_cases c with h | ⟨hlow, h⟩ | ⟨hlow, h⟩ | hlow
  · rw [if_pos h, encode_one h]
  · rw [if_neg (by omega), if_pos h]
    exact masks_two hlow h
  · rw [if_neg (by omega), if_neg (by omega), if_neg (by omega), if_pos h]
    exact masks_three hlow h
  · rw [if_neg (by omega), if_neg (by omega), if_neg (by omega), if_neg (by omega),
      if_pos (by omega)]
    exact masks_four hlow

/-- Any other number has no encoding. -/
theorem nxUtf8Encode_eq_nil {cp : Nat} : nxUtf8Encode cp = [] ↔ ∀ c : Char, c.toNat ≠ cp := by
  constructor
  · intro h c hc
    rw [← hc, nxUtf8Encode_char] at h
    exact String.utf8EncodeChar_ne_nil h
  · intro h
    have hrange : ¬ (cp < 0xd800 ∨ 0xdfff < cp ∧ cp < 0x110000) := by
      intro hcp
      obtain ⟨c, hc⟩ := exists_char hcp
      exact h c hc
    unfold nxUtf8Encode
    rw [if_neg (by omega), if_neg (by omega)]
    split_ifs with h1 h2 h3
    · rfl
    · omega
    · omega
    · rfl

/-- The decoder, with its masks and shifts as arithmetic. -/
theorem nxUtf8Decode_eq (p : List UInt8) :
    nxUtf8Decode p =
      let n := p.length
      let byte (i : Nat) : Nat := (p.getD i 0).toNat
      if n = 0 then .nothing
      else if byte 0 < 0x80 then .character (byte 0) 1
      else if byte 0 / 32 = 6 ∧ 2 ≤ n ∧ byte 1 / 64 = 2 then
        let v := byte 0 % 32 * 64 + byte 1 % 64
        if v < 0x80 then .malformed else .character v 2
      else if byte 0 / 16 = 14 ∧ 3 ≤ n ∧ byte 1 / 64 = 2 ∧ byte 2 / 64 = 2 then
        let v := byte 0 % 16 * 4096 + byte 1 % 64 * 64 + byte 2 % 64
        if v < 0x800 ∨ (0xd800 ≤ v ∧ v ≤ 0xdfff) then .malformed else .character v 3
      else if byte 0 / 8 = 30 ∧ 4 ≤ n ∧ byte 1 / 64 = 2 ∧ byte 2 / 64 = 2 ∧ byte 3 / 64 = 2 then
        let v := byte 0 % 8 * 262144 + byte 1 % 64 * 4096 + byte 2 % 64 * 64 + byte 3 % 64
        if v < 0x10000 ∨ v > 0x10ffff then .malformed else .character v 4
      else .malformed := by
  unfold nxUtf8Decode
  simp only [and_c0, and_e0, and_f0, and_f8, value_two, value_three, value_four]

/-- The decoder reads an encoded character back, whatever follows it. -/
theorem nxUtf8Decode_encode (c : Char) (rest : List UInt8) :
    nxUtf8Decode (String.utf8EncodeChar c ++ rest) =
      .character c.toNat (String.utf8EncodeChar c).length := by
  have hscalar := scalar c
  rw [nxUtf8Decode_eq]
  rcases length_cases c with h | ⟨hlow, h⟩ | ⟨hlow, h⟩ | hlow
  · rw [encode_one h]
    simp only [List.cons_append, List.nil_append, List.length_cons, List.length_nil,
      List.getD_cons_zero, UInt8.toNat_ofNat']
    rw [if_neg (by omega), if_pos (by omega)]
    congr 1
    omega
  · rw [encode_two hlow h]
    simp only [List.cons_append, List.nil_append, List.length_cons, List.length_nil,
      List.getD_cons_zero, List.getD_cons_succ, UInt8.toNat_ofNat']
    rw [if_neg (by omega), if_neg (by omega), if_pos (by omega), if_neg (by omega)]
    congr 1
    omega
  · rw [encode_three hlow h]
    simp only [List.cons_append, List.nil_append, List.length_cons, List.length_nil,
      List.getD_cons_zero, List.getD_cons_succ, UInt8.toNat_ofNat']
    rw [if_neg (by omega), if_neg (by omega), if_neg (by omega), if_pos (by omega),
      if_neg (by omega)]
    congr 1
    omega
  · rw [encode_four hlow]
    simp only [List.cons_append, List.nil_append, List.length_cons, List.length_nil,
      List.getD_cons_zero, List.getD_cons_succ, UInt8.toNat_ofNat']
    rw [if_neg (by omega), if_neg (by omega), if_neg (by omega), if_neg (by omega),
      if_pos (by omega), if_neg (by omega)]
    congr 1
    omega

/-- The byte at a place and those behind it. -/
theorem drop_eq_getD {p : List UInt8} (i : Nat) (h : i < p.length) :
    p.drop i = p.getD i 0 :: p.drop (i + 1) := by
  rw [List.drop_eq_getElem_cons h, List.getD_eq_getElem?_getD, List.getElem?_eq_getElem h,
    Option.getD_some]

/-- Whatever the decoder accepts is an encoded character. -/
theorem nxUtf8Decode_character {p : List UInt8} {cp used : Nat}
    (h : nxUtf8Decode p = .character cp used) :
    ∃ c : Char, c.toNat = cp ∧ (String.utf8EncodeChar c).length = used ∧
      p = String.utf8EncodeChar c ++ p.drop used := by
  rw [nxUtf8Decode_eq] at h
  dsimp only at h
  have hbyte (n : Nat) (b : UInt8) (hn : n = b.toNat) : UInt8.ofNat n = b := by
    rw [hn, UInt8.ofNat_toNat]
  have h0 := (p.getD 0 0).toNat_lt
  -- one case for each length; the bytes are the encoding of the character they spell
  split_ifs at h with hn h1 h2 hv h3 hv h4 hv <;> cases h
  · have hp : p = p.getD 0 0 :: p.drop 1 :=
      drop_eq_getD 0 (by omega)
    obtain ⟨c, hc⟩ := exists_char (n := (p.getD 0 0).toNat) (by omega)
    refine ⟨c, hc, by rw [encode_one (by omega)]; rfl, ?_⟩
    rw [encode_one (by omega), hbyte _ _ hc]
    exact hp
  · obtain ⟨hlead, hlength, hcont⟩ := h2
    have hp : p = p.getD 0 0 :: p.getD 1 0 :: p.drop 2 := by
      rw [← drop_eq_getD 1 (by omega)]
      exact drop_eq_getD 0 (by omega)
    obtain ⟨c, hc⟩ :=
      exists_char (n := (p.getD 0 0).toNat % 32 * 64 + (p.getD 1 0).toNat % 64) (by omega)
    have henc := encode_two (c := c) (by omega) (by omega)
    rw [hbyte _ (p.getD 0 0) (by omega), hbyte _ (p.getD 1 0) (by omega)] at henc
    refine ⟨c, hc, by rw [henc]; rfl, ?_⟩
    rw [henc]
    exact hp
  · obtain ⟨hlead, hlength, hcont1, hcont2⟩ := h3
    have hp : p = p.getD 0 0 :: p.getD 1 0 :: p.getD 2 0 :: p.drop 3 := by
      rw [← drop_eq_getD 2 (by omega), ← drop_eq_getD 1 (by omega)]
      exact drop_eq_getD 0 (by omega)
    obtain ⟨c, hc⟩ := exists_char (n := (p.getD 0 0).toNat % 16 * 4096 +
      (p.getD 1 0).toNat % 64 * 64 + (p.getD 2 0).toNat % 64) (by omega)
    have henc := encode_three (c := c) (by omega) (by omega)
    rw [hbyte _ (p.getD 0 0) (by omega), hbyte _ (p.getD 1 0) (by omega),
      hbyte _ (p.getD 2 0) (by omega)] at henc
    refine ⟨c, hc, by rw [henc]; rfl, ?_⟩
    rw [henc]
    exact hp
  · obtain ⟨hlead, hlength, hcont1, hcont2, hcont3⟩ := h4
    have hp : p = p.getD 0 0 :: p.getD 1 0 :: p.getD 2 0 :: p.getD 3 0 :: p.drop 4 := by
      rw [← drop_eq_getD 3 (by omega), ← drop_eq_getD 2 (by omega), ← drop_eq_getD 1 (by omega)]
      exact drop_eq_getD 0 (by omega)
    obtain ⟨c, hc⟩ := exists_char (n := (p.getD 0 0).toNat % 8 * 262144 +
      (p.getD 1 0).toNat % 64 * 4096 + (p.getD 2 0).toNat % 64 * 64 +
      (p.getD 3 0).toNat % 64) (by omega)
    have henc := encode_four (c := c) (by omega)
    rw [hbyte _ (p.getD 0 0) (by omega), hbyte _ (p.getD 1 0) (by omega),
      hbyte _ (p.getD 2 0) (by omega), hbyte _ (p.getD 3 0) (by omega)] at henc
    refine ⟨c, hc, by rw [henc]; rfl, ?_⟩
    rw [henc]
    exact hp

/-! ## Buffers -/

variable {α : Type}

/-- A copy within the buffer keeps its length. -/
theorem length_memcpy {dst xs : List α} {out : Nat} (h : out + xs.length ≤ dst.length) :
    (memcpy dst out xs).length = dst.length := by
  unfold memcpy
  rw [List.length_append, List.length_append, List.length_take, List.length_drop]
  omega

/-- Copying nothing. -/
theorem memcpy_nil (dst : List α) (out : Nat) : memcpy dst out [] = dst := by
  unfold memcpy
  rw [List.append_nil, List.length_nil, Nat.add_zero, List.take_append_drop]

/-- Two copies side by side are one. -/
theorem memcpy_memcpy {dst xs : List α} {out : Nat} (ys : List α)
    (h : out + xs.length ≤ dst.length) :
    memcpy (memcpy dst out xs) (out + xs.length) ys = memcpy dst out (xs ++ ys) := by
  have hfront : (dst.take out ++ xs).length = out + xs.length := by
    rw [List.length_append, List.length_take]
    omega
  unfold memcpy
  rw [List.take_left' hfront, ← List.drop_drop, List.drop_left' hfront, List.drop_drop,
    List.append_assoc (dst.take out) xs ys, List.length_append, Nat.add_assoc]

/-- What a copy to the front leaves there. -/
theorem take_memcpy (dst xs : List α) : (memcpy dst 0 xs).take xs.length = xs := by
  unfold memcpy
  rw [List.take_zero, List.nil_append, List.take_left]

/-- A copy leaves alone what is in front of it. -/
theorem take_memcpy_of_le {dst : List α} {n out : Nat} (xs : List α) (hn : n ≤ out)
    (hout : out ≤ dst.length) : (memcpy dst out xs).take n = dst.take n := by
  unfold memcpy
  rw [List.append_assoc, List.take_append_of_le_length (by rw [List.length_take]; omega),
    List.take_take, Nat.min_eq_left hn]

/-! ## The loops over a text -/

/-- `nx_mbsnrtowcs` converts one character. -/
theorem mbsnrtowcsLoop_char {len : Nat} {dst : Option (List UInt32)} {c : Char} {read out : Nat}
    (rest : List UInt8) (hc : c.toNat ≠ 0) (hroom : ∀ buffer ∈ dst, out < len) :
    mbsnrtowcsLoop len dst (String.utf8EncodeChar c ++ rest) read out =
      mbsnrtowcsLoop len (dst.map (memcpy · out [c.val])) rest
        (read + (String.utf8EncodeChar c).length) (out + 1) := by
  have hne : String.utf8EncodeChar c ++ rest ≠ [] :=
    fun h => String.utf8EncodeChar_ne_nil (List.append_eq_nil_iff.1 h).1
  have hval : UInt32.ofNat c.toNat = c.val := UInt32.ofNat_toNat
  rw [mbsnrtowcsLoop, dif_neg hne]
  split
  · case h_1 hdecode =>
      rw [nxUtf8Decode_encode] at hdecode
      cases hdecode
  · case h_2 hdecode =>
      rw [nxUtf8Decode_encode] at hdecode
      cases hdecode
  · case h_3 cp used hdecode =>
      rw [nxUtf8Decode_encode] at hdecode
      obtain ⟨rfl, rfl⟩ := Decoded.character.inj hdecode
      rw [if_neg hc, List.drop_left]
      cases dst with
      | none => rfl
      | some buffer =>
          have := hroom buffer rfl
          dsimp only
          rw [if_neg (by omega), hval]
          rfl

/-- `nx_mbsnrtowcs` converts a text and goes on behind it. -/
theorem mbsnrtowcsLoop_text {len : Nat} {cs : List Char} (hzero : ∀ c ∈ cs, c.toNat ≠ 0)
    (rest : List UInt8) {dst : Option (List UInt32)} {read out : Nat}
    (hroom : ∀ buffer ∈ dst, out + cs.length ≤ len ∧ len ≤ buffer.length) :
    mbsnrtowcsLoop len dst (utf8 cs ++ rest) read out =
      mbsnrtowcsLoop len (dst.map (memcpy · out (cs.map Char.val))) rest
        (read + (utf8 cs).length) (out + cs.length) := by
  induction cs generalizing dst read out with
  | nil =>
      have hdst : dst.map (memcpy · out []) = dst := by
        cases dst with
        | none => rfl
        | some buffer => exact congrArg some (memcpy_nil buffer out)
      simp only [utf8_nil, List.nil_append, List.map_nil, List.length_nil, Nat.add_zero, hdst]
  | cons c cs ih =>
      have hc := hzero c List.mem_cons_self
      have hlast : ∀ buffer ∈ dst, out < len := fun buffer hb => by
        have := (hroom buffer hb).1
        rw [List.length_cons] at this
        omega
      rw [utf8_cons, List.append_assoc, mbsnrtowcsLoop_char _ hc hlast]
      have hnext : ∀ buffer ∈ dst.map (memcpy · out [c.val]),
          out + 1 + cs.length ≤ len ∧ len ≤ buffer.length := by
        intro buffer hb
        obtain ⟨old, hold, rfl⟩ := Option.map_eq_some_iff.1 hb
        obtain ⟨hcount, hlen⟩ := hroom old hold
        rw [List.length_cons] at hcount
        rw [length_memcpy (by rw [List.length_singleton]; omega)]
        omega
      rw [ih (fun d hd => hzero d (List.mem_cons_of_mem c hd)) hnext, List.length_append,
        List.length_cons, Nat.add_assoc, Nat.add_assoc out 1, Nat.add_comm 1]
      congr 1
      cases dst with
      | none => rfl
      | some buffer =>
          have hone : out + [c.val].length ≤ buffer.length := by
            have := hroom buffer rfl
            have := hlast buffer rfl
            rw [List.length_singleton]
            omega
          exact congrArg some (memcpy_memcpy (cs.map Char.val) hone)

/-- `nx_mbsnrtowcs` at the end of its source. -/
theorem mbsnrtowcsLoop_nil (len : Nat) (dst : Option (List UInt32)) (read out : Nat) :
    mbsnrtowcsLoop len dst [] read out = finish dst read out := by
  rw [mbsnrtowcsLoop, dif_pos rfl]

/-- `nx_mbsnrtowcs` at the terminator. -/
theorem mbsnrtowcsLoop_zero (len : Nat) (dst : Option (List UInt32)) (rest : List UInt8)
    (read out : Nat) : mbsnrtowcsLoop len dst (0 :: rest) read out = terminate dst 0 len out := by
  have hzero : nxUtf8Decode (0 :: rest) = .character 0 1 := nxUtf8Decode_encode (Char.ofNat 0) rest
  rw [mbsnrtowcsLoop, dif_neg (List.cons_ne_nil 0 rest)]
  split
  · case h_1 hdecode => cases hzero.symm.trans hdecode
  · case h_2 hdecode => cases hzero.symm.trans hdecode
  · case h_3 cp used hdecode =>
      obtain ⟨rfl, rfl⟩ := Decoded.character.inj (hzero.symm.trans hdecode)
      exact if_pos rfl

/-- `nx_mbsnrtowcs` at malformed bytes. -/
theorem mbsnrtowcsLoop_malformed {p : List UInt8} (len : Nat) (dst : Option (List UInt32))
    (read out : Nat) (h : nxUtf8Decode p = .malformed) :
    mbsnrtowcsLoop len dst p read out = fail .eilseq dst := by
  have hne : p ≠ [] := by
    rintro rfl
    cases h
  rw [mbsnrtowcsLoop, dif_neg hne]
  split
  · rfl
  · rfl
  · case h_3 cp used hdecode => cases h.symm.trans hdecode

/-- A source of bytes is a text, and then its end, the terminator or something malformed. -/
theorem exists_text (p : List UInt8) :
    ∃ cs rest, p = utf8 cs ++ rest ∧ (∀ c ∈ cs, c.toNat ≠ 0) ∧
      (rest = [] ∨ rest.head? = some 0 ∨ nxUtf8Decode rest = .malformed) := by
  match hdecode : nxUtf8Decode p with
  | .nothing =>
      refine ⟨[], p, rfl, by simp, Or.inl ?_⟩
      rw [nxUtf8Decode_eq] at hdecode
      dsimp only at hdecode
      split_ifs at hdecode with hn
      exact List.length_eq_zero_iff.1 hn
  | .malformed => exact ⟨[], p, rfl, by simp, Or.inr (Or.inr hdecode)⟩
  | .character cp used =>
      obtain ⟨c, rfl, hused, hp⟩ := nxUtf8Decode_character hdecode
      by_cases hc : c.toNat = 0
      · refine ⟨[], p, rfl, by simp, Or.inr (Or.inl ?_)⟩
        rw [hp, encode_one (by omega), hc]
        rfl
      · have hshorter : (p.drop used).length < p.length := by
          have := congrArg List.length hp
          have := length_encode_pos c
          rw [List.length_append] at *
          omega
        obtain ⟨cs, rest, hrest, hzero, hend⟩ := exists_text (p.drop used)
        refine ⟨c :: cs, rest, ?_, List.forall_mem_cons.2 ⟨hc, hzero⟩, hend⟩
        rw [utf8_cons, List.append_assoc, ← hrest]
        exact hp
termination_by p.length
decreasing_by exact hshorter

/-- `nx_wcsnrtombs` converts one character. -/
theorem wcsnrtombsLoop_char {len : Nat} {dst : Option (List UInt8)} {c : Char} {read out : Nat}
    (rest : List UInt32) (hc : c.toNat ≠ 0)
    (hroom : ∀ buffer ∈ dst, out + (String.utf8EncodeChar c).length ≤ len) :
    wcsnrtombsLoop len dst (c.val :: rest) read out =
      wcsnrtombsLoop len (dst.map (memcpy · out (String.utf8EncodeChar c))) rest (read + 1)
        (out + (String.utf8EncodeChar c).length) := by
  have henc : nxUtf8Encode c.val.toNat = String.utf8EncodeChar c := nxUtf8Encode_char c
  have hval : c.val.toNat ≠ 0 := hc
  have hlength := length_encode_pos c
  rw [wcsnrtombsLoop.eq_def]
  dsimp only
  rw [henc, if_neg hval, if_neg (by omega)]
  cases dst with
  | none => rfl
  | some buffer =>
      have := hroom buffer rfl
      dsimp only
      rw [if_neg (by omega)]
      rfl

/-- `nx_wcsnrtombs` converts a text and goes on behind it. -/
theorem wcsnrtombsLoop_text {len : Nat} {cs : List Char} (hzero : ∀ c ∈ cs, c.toNat ≠ 0)
    (rest : List UInt32) {dst : Option (List UInt8)} {read out : Nat}
    (hroom : ∀ buffer ∈ dst, out + (utf8 cs).length ≤ len ∧ len ≤ buffer.length) :
    wcsnrtombsLoop len dst (cs.map Char.val ++ rest) read out =
      wcsnrtombsLoop len (dst.map (memcpy · out (utf8 cs))) rest (read + cs.length)
        (out + (utf8 cs).length) := by
  induction cs generalizing dst read out with
  | nil =>
      have hdst : dst.map (memcpy · out []) = dst := by
        cases dst with
        | none => rfl
        | some buffer => exact congrArg some (memcpy_nil buffer out)
      simp only [utf8_nil, List.nil_append, List.map_nil, List.length_nil, Nat.add_zero, hdst]
  | cons c cs ih =>
      have hc := hzero c List.mem_cons_self
      have hfirst : ∀ buffer ∈ dst, out + (String.utf8EncodeChar c).length ≤ len :=
        fun buffer hb => by
          have := (hroom buffer hb).1
          rw [utf8_cons, List.length_append] at this
          omega
      rw [List.map_cons, List.cons_append, wcsnrtombsLoop_char _ hc hfirst]
      have hnext : ∀ buffer ∈ dst.map (memcpy · out (String.utf8EncodeChar c)),
          out + (String.utf8EncodeChar c).length + (utf8 cs).length ≤ len ∧
            len ≤ buffer.length := by
        intro buffer hb
        obtain ⟨old, hold, rfl⟩ := Option.map_eq_some_iff.1 hb
        obtain ⟨hcount, hlen⟩ := hroom old hold
        rw [utf8_cons, List.length_append] at hcount
        rw [length_memcpy (by omega)]
        omega
      rw [ih (fun d hd => hzero d (List.mem_cons_of_mem c hd)) hnext, utf8_cons,
        List.length_append, List.length_cons, Nat.add_assoc read, Nat.add_comm 1, Nat.add_assoc out]
      congr 1
      cases dst with
      | none => rfl
      | some buffer =>
          have hone : out + (String.utf8EncodeChar c).length ≤ buffer.length := by
            have := hroom buffer rfl
            have := hfirst buffer rfl
            omega
          exact congrArg some (memcpy_memcpy (utf8 cs) hone)

/-- A wide source is a text, and then its end, the terminator or a number that is no character. -/
theorem exists_wide_text (p : List UInt32) :
    ∃ cs : List Char, ∃ rest, p = cs.map Char.val ++ rest ∧ (∀ c ∈ cs, c.toNat ≠ 0) ∧
      (rest = [] ∨ rest.head? = some 0 ∨
        ∃ w tail, rest = w :: tail ∧ w.toNat ≠ 0 ∧ nxUtf8Encode w.toNat = []) := by
  induction p with
  | nil => exact ⟨[], [], rfl, by simp, Or.inl rfl⟩
  | cons w p ih =>
      by_cases hw : w.toNat = 0
      · have hw0 : w = 0 := UInt32.toNat_inj.1 hw
        exact ⟨[], w :: p, rfl, by simp, Or.inr (Or.inl (congrArg some hw0))⟩
      · by_cases henc : nxUtf8Encode w.toNat = []
        · exact ⟨[], w :: p, rfl, by simp, Or.inr (Or.inr ⟨w, p, rfl, hw, henc⟩)⟩
        · obtain ⟨c, hc⟩ : ∃ c : Char, c.toNat = w.toNat := by
            by_contra hno
            exact henc (nxUtf8Encode_eq_nil.2 fun c hc => hno ⟨c, hc⟩)
          obtain ⟨cs, rest, rfl, hzero, hend⟩ := ih
          have hcw : c.val = w := UInt32.toNat_inj.1 hc
          exact ⟨c :: cs, rest, by rw [List.map_cons, hcw, List.cons_append],
            List.forall_mem_cons.2 ⟨hc ▸ hw, hzero⟩, hend⟩

/-- `nx_wcsnrtombs` at the terminator. -/
theorem wcsnrtombsLoop_zero (len : Nat) (dst : Option (List UInt8)) (rest : List UInt32)
    (read out : Nat) : wcsnrtombsLoop len dst (0 :: rest) read out = terminate dst 0 len out := by
  rw [wcsnrtombsLoop.eq_def]
  exact if_pos rfl

/-- `nx_wcsnrtombs` at a number that is no character. -/
theorem wcsnrtombsLoop_malformed {w : UInt32} (len : Nat) (dst : Option (List UInt8))
    (rest : List UInt32) (read out : Nat) (hw : w.toNat ≠ 0) (h : nxUtf8Encode w.toNat = []) :
    wcsnrtombsLoop len dst (w :: rest) read out = fail .eilseq dst := by
  rw [wcsnrtombsLoop.eq_def]
  dsimp only
  rw [h, if_neg hw, if_pos List.length_nil]

/-! ## Whole calls -/

/-- `count` units from `source` on are `text`, or `text` with its terminator and whatever
follows. -/
def Covers (zero : α) (text source : List α) (count : Nat) : Prop :=
  ∃ rest, source = text ++ rest ∧
    (count = text.length ∨ rest.head? = some zero ∧ text.length < count)

/-- What a call looks at is the text, and then the end or the terminator. -/
theorem Covers.take {zero : α} {text source : List α} {count : Nat}
    (h : Covers zero text source count) :
    ∃ rest, source.take count = text ++ rest ∧ (rest = [] ∨ rest.head? = some zero) := by
  obtain ⟨rest, rfl, rfl | ⟨hhead, hcount⟩⟩ := h
  · exact ⟨[], by rw [List.take_left, List.append_nil], Or.inl rfl⟩
  · refine ⟨rest.take (count - text.length), ?_, Or.inr ?_⟩
    · rw [List.take_append, List.take_of_length_le (by omega)]
    · rw [List.head?_take, if_neg (by omega), hhead]

/-- How a call ends behind a text. -/
def Ended (r : Conversion α) (dst : Option (List α)) (zero : α) (len out : Nat) : Prop :=
  (∃ read, r = finish dst read out) ∨ r = terminate dst zero len out

/-- A call that ends behind a text returns its length. -/
theorem Ended.returns {r : Conversion α} {dst : Option (List α)} {zero : α} {len out : Nat}
    (h : Ended r dst zero len out) : r.ret = some out ∧ r.errno = none := by
  rcases h with ⟨read, rfl⟩ | rfl
  · exact ⟨rfl, rfl⟩
  · exact ⟨rfl, rfl⟩

/-- A call that ends behind a text leaves it in the buffer. -/
theorem Ended.stores {r : Conversion α} {buffer xs : List α} {zero : α} {len : Nat}
    (h : Ended r (some (memcpy buffer 0 xs)) zero len xs.length)
    (hlen : xs.length ≤ buffer.length) :
    ∃ stored, r.dst = some stored ∧ stored.take xs.length = xs := by
  rcases h with ⟨read, rfl⟩ | rfl
  · exact ⟨_, rfl, take_memcpy buffer xs⟩
  · refine ⟨_, rfl, ?_⟩
    dsimp only
    split
    · have hlength := length_memcpy (show 0 + xs.length ≤ buffer.length by omega)
      rw [take_memcpy_of_le [zero] (Nat.le_refl _) (by omega), take_memcpy]
    · exact take_memcpy buffer xs

/-- `nx_mbsnrtowcs` on a text that is looked at as a whole. -/
theorem nxMbsnrtowcs_ended {cs : List Char} {source : List UInt8} {nms len : Nat}
    {dst : Option (List UInt32)} (hzero : ∀ c ∈ cs, c.toNat ≠ 0)
    (hcovers : Covers 0 (utf8 cs) source nms)
    (hroom : ∀ buffer ∈ dst, cs.length ≤ len ∧ len ≤ buffer.length) :
    Ended (nxMbsnrtowcs dst (some source) nms len) (dst.map (memcpy · 0 (cs.map Char.val))) 0 len
      cs.length := by
  obtain ⟨rest, hrest, hend⟩ := hcovers.take
  have hroom0 : ∀ buffer ∈ dst, 0 + cs.length ≤ len ∧ len ≤ buffer.length := by
    rwa [Nat.zero_add]
  unfold nxMbsnrtowcs
  dsimp only
  rw [hrest, mbsnrtowcsLoop_text hzero rest hroom0, Nat.zero_add cs.length]
  rcases hend with rfl | hhead
  · exact Or.inl ⟨_, mbsnrtowcsLoop_nil _ _ _ _⟩
  · obtain ⟨tail, rfl⟩ := List.head?_eq_some_iff.1 hhead
    exact Or.inr (mbsnrtowcsLoop_zero _ _ _ _ _)

/-- `nx_wcsnrtombs` on a text that is looked at as a whole. -/
theorem nxWcsnrtombs_ended {cs : List Char} {source : List UInt32} {nwc len : Nat}
    {dst : Option (List UInt8)} (hzero : ∀ c ∈ cs, c.toNat ≠ 0)
    (hcovers : Covers 0 (cs.map Char.val) source nwc)
    (hroom : ∀ buffer ∈ dst, (utf8 cs).length ≤ len ∧ len ≤ buffer.length) :
    Ended (nxWcsnrtombs dst (some source) nwc len) (dst.map (memcpy · 0 (utf8 cs))) 0 len
      (utf8 cs).length := by
  obtain ⟨rest, hrest, hend⟩ := hcovers.take
  have hroom0 : ∀ buffer ∈ dst, 0 + (utf8 cs).length ≤ len ∧ len ≤ buffer.length := by
    rwa [Nat.zero_add]
  unfold nxWcsnrtombs
  dsimp only
  rw [hrest, wcsnrtombsLoop_text hzero rest hroom0, Nat.zero_add (utf8 cs).length]
  rcases hend with rfl | hhead
  · exact Or.inl ⟨_, rfl⟩
  · obtain ⟨tail, rfl⟩ := List.head?_eq_some_iff.1 hhead
    exact Or.inr (wcsnrtombsLoop_zero _ _ _ _ _)

/-- Zero-free units in front of a source end before the terminator. -/
theorem length_le_of_notMem {s t rest tail : List UInt8} (ht : 0 ∉ t)
    (hrest : rest = [] ∨ rest.head? = some 0) (h : s ++ rest = t ++ tail) :
    t.length ≤ s.length := by
  rcases List.append_eq_append_iff.1 h with ⟨more, rfl, hmore⟩ | ⟨more, rfl, -⟩
  · cases more with
    | nil => exact Nat.le_of_eq (congrArg List.length (List.append_nil s))
    | cons b more =>
        rcases hrest with rfl | hhead
        · cases hmore
        · rw [hmore] at hhead
          obtain rfl : b = 0 := Option.some.inj hhead
          exact absurd (List.mem_append_right s List.mem_cons_self) ht
  · rw [List.length_append]
    omega

/-- Two zero-free texts in front of the same source, up to its end or a terminator. -/
theorem text_unique {s t rest tail : List UInt8} (hs : 0 ∉ s) (ht : 0 ∉ t)
    (hrest : rest = [] ∨ rest.head? = some 0) (htail : tail = [] ∨ tail.head? = some 0)
    (h : s ++ rest = t ++ tail) : s = t :=
  List.append_inj_left h (Nat.le_antisymm (length_le_of_notMem hs htail h.symm)
    (length_le_of_notMem ht hrest h))

/-- A text that does not contain the character 0 has no zero byte. -/
theorem zero_notMem_utf8 {cs : List Char} (h : ∀ c ∈ cs, c.toNat ≠ 0) : 0 ∉ utf8 cs := by
  rw [zero_mem_utf8]
  rintro ⟨c, hc, hc0⟩
  exact h c hc hc0

/-- The characters of zero-free bytes are not the character 0. -/
theorem nonzero_of_notMem {cs : List Char} (h : 0 ∉ utf8 cs) : ∀ c ∈ cs, c.toNat ≠ 0 :=
  fun c hc hc0 => h (zero_mem_utf8.2 ⟨c, hc, hc0⟩)

/-- `nx_mbsnrtowcs` fails exactly on bytes that are not valid. -/
theorem nxMbsnrtowcs_fails_iff {s source : List UInt8} {nms len : Nat} {dst : Option (List UInt32)}
    (hs : 0 ∉ s) (hcovers : Covers 0 s source nms)
    (hroom : ∀ buffer ∈ dst, s.length ≤ len ∧ len ≤ buffer.length) :
    ((nxMbsnrtowcs dst (some source) nms len).ret = none ↔ ¬ ValidUtf8 s) ∧
      ((nxMbsnrtowcs dst (some source) nms len).ret = none →
        (nxMbsnrtowcs dst (some source) nms len).errno = some .eilseq) := by
  by_cases hvalid : ValidUtf8 s
  · obtain ⟨cs, rfl⟩ := hvalid
    have hended := nxMbsnrtowcs_ended (nonzero_of_notMem hs) hcovers fun buffer hb =>
      ⟨Nat.le_trans (length_le_utf8 cs) (hroom buffer hb).1, (hroom buffer hb).2⟩
    rw [hended.returns.1]
    refine ⟨iff_of_false (Option.some_ne_none _) (not_not_intro ⟨cs, rfl⟩), fun h => ?_⟩
    cases h
  · obtain ⟨tail, htake, htail⟩ := hcovers.take
    obtain ⟨cs, rest, hp, hzero, hrest⟩ := exists_text (source.take nms)
    have hends : ¬ (rest = [] ∨ rest.head? = some 0) := by
      intro hend
      have heq := text_unique hs (zero_notMem_utf8 hzero) htail hend (htake.symm.trans hp)
      exact hvalid ⟨cs, heq⟩
    have hmalformed : nxUtf8Decode rest = .malformed := by tauto
    have hshort : cs.length ≤ s.length := by
      have hle := length_le_utf8 cs
      have hwithin := length_le_of_notMem (zero_notMem_utf8 hzero) htail (htake.symm.trans hp)
      omega
    have hroom0 : ∀ buffer ∈ dst, 0 + cs.length ≤ len ∧ len ≤ buffer.length := by
      intro buffer hb
      have := hroom buffer hb
      omega
    have hfails : nxMbsnrtowcs dst (some source) nms len =
        fail .eilseq (dst.map (memcpy · 0 (cs.map Char.val))) := by
      unfold nxMbsnrtowcs
      dsimp only
      rw [hp, mbsnrtowcsLoop_text hzero rest hroom0, mbsnrtowcsLoop_malformed _ _ _ _ hmalformed]
    rw [hfails]
    exact ⟨iff_of_true rfl hvalid, fun _ => rfl⟩

/-! ## Counting calls -/

/-- `nx_mbsnrtowcs` counts what it stores. -/
theorem nxMbsnrtowcs_counts {src : Option (List UInt8)} {nms unused len : Nat}
    {buffer : List UInt32} (hlen : ((nxMbsnrtowcs none src nms unused).ret).getD nms ≤ len)
    (hbuffer : len ≤ buffer.length) :
    (nxMbsnrtowcs (some buffer) src nms len).ret = (nxMbsnrtowcs none src nms unused).ret ∧
      (nxMbsnrtowcs (some buffer) src nms len).errno =
        (nxMbsnrtowcs none src nms unused).errno := by
  cases src with
  | none => exact ⟨rfl, rfl⟩
  | some source =>
      obtain ⟨cs, rest, hp, hzero, hrest⟩ := exists_text (source.take nms)
      have hnone : ∀ b ∈ (none : Option (List UInt32)), 0 + cs.length ≤ unused ∧
          unused ≤ b.length := by
        intro b hb
        cases hb
      have hwithin : cs.length ≤ nms := by
        have hle := length_le_utf8 cs
        have hall := congrArg List.length hp
        rw [List.length_take, List.length_append] at hall
        omega
      unfold nxMbsnrtowcs at hlen ⊢
      dsimp only at hlen ⊢
      rw [hp, mbsnrtowcsLoop_text hzero rest hnone] at hlen ⊢
      have hroom : 0 + cs.length ≤ len := by
        rcases hrest with rfl | hhead | hmalformed
        · rw [mbsnrtowcsLoop_nil] at hlen
          exact hlen
        · obtain ⟨tail, rfl⟩ := List.head?_eq_some_iff.1 hhead
          rw [mbsnrtowcsLoop_zero] at hlen
          exact hlen
        · rw [mbsnrtowcsLoop_malformed _ _ _ _ hmalformed] at hlen
          have hall : nms ≤ len := hlen
          omega
      rw [mbsnrtowcsLoop_text hzero rest fun b hb => by cases hb; exact ⟨hroom, hbuffer⟩]
      rcases hrest with rfl | hhead | hmalformed
      · rw [mbsnrtowcsLoop_nil, mbsnrtowcsLoop_nil]
        exact ⟨rfl, rfl⟩
      · obtain ⟨tail, rfl⟩ := List.head?_eq_some_iff.1 hhead
        rw [mbsnrtowcsLoop_zero, mbsnrtowcsLoop_zero]
        exact ⟨rfl, rfl⟩
      · rw [mbsnrtowcsLoop_malformed _ _ _ _ hmalformed,
          mbsnrtowcsLoop_malformed _ _ _ _ hmalformed]
        exact ⟨rfl, rfl⟩

/-- A text has at most four bytes for each character. -/
theorem length_utf8_le (cs : List Char) : (utf8 cs).length ≤ 4 * cs.length := by
  induction cs with
  | nil => exact Nat.le_refl 0
  | cons c cs ih =>
      have hc : (String.utf8EncodeChar c).length ≤ 4 := by
        rw [String.length_utf8EncodeChar]
        exact c.utf8Size_le_four
      rw [utf8_cons, List.length_append, List.length_cons]
      omega

/-- `nx_wcsnrtombs` counts what it stores. -/
theorem nxWcsnrtombs_counts {src : Option (List UInt32)} {nwc unused len : Nat}
    {buffer : List UInt8} (hlen : ((nxWcsnrtombs none src nwc unused).ret).getD (4 * nwc) ≤ len)
    (hbuffer : len ≤ buffer.length) :
    (nxWcsnrtombs (some buffer) src nwc len).ret = (nxWcsnrtombs none src nwc unused).ret ∧
      (nxWcsnrtombs (some buffer) src nwc len).errno =
        (nxWcsnrtombs none src nwc unused).errno := by
  cases src with
  | none => exact ⟨rfl, rfl⟩
  | some source =>
      obtain ⟨cs, rest, hp, hzero, hrest⟩ := exists_wide_text (source.take nwc)
      have hnone : ∀ b ∈ (none : Option (List UInt8)),
          0 + (utf8 cs).length ≤ unused ∧ unused ≤ b.length := by
        intro b hb
        cases hb
      have hwithin : (utf8 cs).length ≤ 4 * nwc := by
        have hle := length_utf8_le cs
        have hall := congrArg List.length hp
        rw [List.length_take, List.length_append, List.length_map] at hall
        omega
      unfold nxWcsnrtombs at hlen ⊢
      dsimp only at hlen ⊢
      rw [hp, wcsnrtombsLoop_text hzero rest hnone] at hlen ⊢
      have hroom : 0 + (utf8 cs).length ≤ len := by
        rcases hrest with rfl | hhead | ⟨w, tail, rfl, hw, hmalformed⟩
        · exact hlen
        · obtain ⟨tail, rfl⟩ := List.head?_eq_some_iff.1 hhead
          rw [wcsnrtombsLoop_zero] at hlen
          exact hlen
        · rw [wcsnrtombsLoop_malformed _ _ _ _ _ hw hmalformed] at hlen
          have hall : 4 * nwc ≤ len := hlen
          omega
      rw [wcsnrtombsLoop_text hzero rest fun b hb => by cases hb; exact ⟨hroom, hbuffer⟩]
      rcases hrest with rfl | hhead | ⟨w, tail, rfl, hw, hmalformed⟩
      · exact ⟨rfl, rfl⟩
      · obtain ⟨tail, rfl⟩ := List.head?_eq_some_iff.1 hhead
        rw [wcsnrtombsLoop_zero, wcsnrtombsLoop_zero]
        exact ⟨rfl, rfl⟩
      · rw [wcsnrtombsLoop_malformed _ _ _ _ _ hw hmalformed,
          wcsnrtombsLoop_malformed _ _ _ _ _ hw hmalformed]
        exact ⟨rfl, rfl⟩

/-! ## The round trips -/

/-- A call with a buffer puts `xs` into it. -/
def Stores (r : Conversion α) (xs : List α) : Prop :=
  r.ret = some xs.length ∧ ∃ stored, r.dst = some stored ∧ stored.take xs.length = xs

/-- `nx_mbsnrtowcs` stores the characters of the bytes. -/
theorem nxMbsnrtowcs_stores {cs : List Char} {source : List UInt8} {nms len : Nat}
    {buffer : List UInt32} (hzero : ∀ c ∈ cs, c.toNat ≠ 0) (hcovers : Covers 0 (utf8 cs) source nms)
    (hlen : cs.length ≤ len) (hbuffer : len ≤ buffer.length) :
    Stores (nxMbsnrtowcs (some buffer) (some source) nms len) (cs.map Char.val) := by
  have hroom : ∀ b ∈ some buffer, cs.length ≤ len ∧ len ≤ b.length := by
    intro b hb
    cases hb
    exact ⟨hlen, hbuffer⟩
  have hended := nxMbsnrtowcs_ended hzero hcovers hroom
  have hmap : (cs.map Char.val).length = cs.length := List.length_map _
  rw [← hmap] at hended
  exact ⟨hended.returns.1, hended.stores (by omega)⟩

/-- `nx_wcsnrtombs` stores the bytes of the characters. -/
theorem nxWcsnrtombs_stores {cs : List Char} {source : List UInt32} {nwc len : Nat}
    {buffer : List UInt8} (hzero : ∀ c ∈ cs, c.toNat ≠ 0)
    (hcovers : Covers 0 (cs.map Char.val) source nwc) (hlen : (utf8 cs).length ≤ len)
    (hbuffer : len ≤ buffer.length) :
    Stores (nxWcsnrtombs (some buffer) (some source) nwc len) (utf8 cs) := by
  have hroom : ∀ b ∈ some buffer, (utf8 cs).length ≤ len ∧ len ≤ b.length := by
    intro b hb
    cases hb
    exact ⟨hlen, hbuffer⟩
  have hended := nxWcsnrtombs_ended hzero hcovers hroom
  exact ⟨hended.returns.1, hended.stores (by omega)⟩

/-- The calls convert a text forth and back, fail exactly on bytes that are not valid, and count
what they store. -/
theorem wide_strings_lossless :
    (∀ (cs : List Char) (wide : List UInt32) (nwc len : Nat) (buffer : List UInt8),
      (∀ c ∈ cs, c.toNat ≠ 0) → Covers 0 (cs.map Char.val) wide nwc →
      (utf8 cs).length ≤ len → len ≤ buffer.length →
      ∃ n bytes, (nxWcsnrtombs (some buffer) (some wide) nwc len).ret = some n ∧
        (nxWcsnrtombs (some buffer) (some wide) nwc len).dst = some bytes ∧
        ∀ (nms wlen : Nat) (wbuffer : List UInt32), Covers 0 (bytes.take n) bytes nms →
          cs.length ≤ wlen → wlen ≤ wbuffer.length →
          Stores (nxMbsnrtowcs (some wbuffer) (some bytes) nms wlen) (cs.map Char.val)) ∧
    (∀ (s source : List UInt8) (nms wlen : Nat) (wbuffer : List UInt32),
      0 ∉ s → ValidUtf8 s → Covers 0 s source nms →
      ((nxMbsnrtowcs none (some source) nms 0).ret).getD nms ≤ wlen → wlen ≤ wbuffer.length →
      ∃ n wide, (nxMbsnrtowcs (some wbuffer) (some source) nms wlen).ret = some n ∧
        (nxMbsnrtowcs (some wbuffer) (some source) nms wlen).dst = some wide ∧
        ∀ (nwc len : Nat) (buffer : List UInt8), Covers 0 (wide.take n) wide nwc →
          s.length ≤ len → len ≤ buffer.length →
          Stores (nxWcsnrtombs (some buffer) (some wide) nwc len) s) ∧
    (∀ (s source : List UInt8) (nms len : Nat) (dst : Option (List UInt32)),
      0 ∉ s → Covers 0 s source nms → (∀ buffer ∈ dst, s.length ≤ len ∧ len ≤ buffer.length) →
      ((nxMbsnrtowcs dst (some source) nms len).ret = none ↔ ¬ ValidUtf8 s) ∧
        ((nxMbsnrtowcs dst (some source) nms len).ret = none →
          (nxMbsnrtowcs dst (some source) nms len).errno = some .eilseq)) ∧
    (∀ (src : Option (List UInt8)) (nms unused len : Nat) (buffer : List UInt32),
      ((nxMbsnrtowcs none src nms unused).ret).getD nms ≤ len → len ≤ buffer.length →
      (nxMbsnrtowcs (some buffer) src nms len).ret = (nxMbsnrtowcs none src nms unused).ret) ∧
    ∀ (src : Option (List UInt32)) (nwc unused len : Nat) (buffer : List UInt8),
      ((nxWcsnrtombs none src nwc unused).ret).getD (4 * nwc) ≤ len → len ≤ buffer.length →
      (nxWcsnrtombs (some buffer) src nwc len).ret = (nxWcsnrtombs none src nwc unused).ret := by
  refine ⟨?_, ?_, ?_, ?_, ?_⟩
  · intro cs wide nwc len buffer hzero hcovers hlen hbuffer
    obtain ⟨hret, bytes, hbytes, htake⟩ := nxWcsnrtombs_stores hzero hcovers hlen hbuffer
    refine ⟨_, bytes, hret, hbytes, fun nms wlen wbuffer hback hwlen hwbuffer => ?_⟩
    rw [htake] at hback
    exact nxMbsnrtowcs_stores hzero hback hwlen hwbuffer
  · intro s source nms wlen wbuffer hs hvalid hcovers hwlen hwbuffer
    obtain ⟨cs, rfl⟩ := hvalid
    have hzero := nonzero_of_notMem hs
    have hnone : ∀ b ∈ (none : Option (List UInt32)), cs.length ≤ 0 ∧ 0 ≤ b.length := by
      intro b hb
      cases hb
    -- the counting call tells how much room the characters need
    rw [(nxMbsnrtowcs_ended hzero hcovers hnone).returns.1] at hwlen
    obtain ⟨hret, wide, hwide, htake⟩ := nxMbsnrtowcs_stores hzero hcovers hwlen hwbuffer
    refine ⟨_, wide, hret, hwide, fun nwc len buffer hback hlen hbuffer => ?_⟩
    rw [htake] at hback
    exact nxWcsnrtombs_stores hzero hback hlen hbuffer
  · intro s source nms len dst hs hcovers hroom
    exact nxMbsnrtowcs_fails_iff hs hcovers hroom
  · intro src nms unused len buffer hlen hbuffer
    exact (nxMbsnrtowcs_counts hlen hbuffer).1
  · intro src nwc unused len buffer hlen hbuffer
    exact (nxWcsnrtombs_counts hlen hbuffer).1

end Asnx.Imports
