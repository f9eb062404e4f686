import Asnx.Imports.WideRoundTrips

/-!
# Conversions in several calls

What a caller of `nx_mbsnrtowcs` and `nx_wcsnrtombs` learns from `*src` when the destination is too
small for the text. A converter is one of the two functions with the units of a character on either
side; what it does at the end of its source, at the terminator, at something malformed and where the
destination is full are its laws (`Converter.Lawful`), and everything else follows from them.

Both functions look for the terminator before they ask whether there is room for it. A call is
right exactly if the text in front of a terminator does not fill the destination
(`conversions_resume_iff`).
-/

namespace Asnx.Imports

open Unicode

variable {α β : Type}

/-! ## Converters -/

/-- One of the two functions: the units of a character in the source and in the destination, the
terminator of either, what is malformed, and the call. -/
structure Converter (α β : Type) where
  source : Char → List α
  target : Char → List β
  nul : α
  nul' : β
  Malformed : List α → Prop
  call : Option (List β) → Option (List α) → Nat → Nat → Conversion β

variable (K : Converter α β)

/-- A text without zeros. -/
def Nonzero (cs : List Char) : Prop := ∀ c ∈ cs, c.toNat ≠ 0

/-- What one call with room for any text stores, `none` if it returns an error. -/
def Converter.unlimited (p : List α) (limit : Nat) : Option (List β) :=
  let room := 4 * p.length + 1
  let c := K.call (some (List.replicate room K.nul')) (some p) limit room
  c.ret.map fun r => (c.dst.getD []).take r

/-- The whole text has been stored, and the terminator behind it. -/
structure Converter.Terminated (p : List α) (limit len r : Nat) (stored : List β) : Prop where
  room : r < len
  terminator : stored[r]? = some K.nul'
  whole : K.unlimited p limit = some (stored.take r)

/-- The characters `cs` in front of position `k` have been stored, and going on from there with the
rest of the limit gives the rest of the text. -/
structure Converter.Interrupted (p : List α) (limit r : Nat) (stored : List β) (k : Nat)
    (cs : List Char) : Prop where
  within : k ≤ limit
  behind : k = (cs.flatMap K.source).length
  read : p = cs.flatMap K.source ++ p.drop k
  filled : stored.take r = cs.flatMap K.target
  count : r = (cs.flatMap K.target).length
  whole : K.unlimited p limit = (K.unlimited (p.drop k) (limit - k)).map (stored.take r ++ ·)

/-- A call that returns `r` without an error is right: `*src` is `NULL` only where the terminator
has been stored, and otherwise points just behind the characters that have been stored. -/
def Converter.Resumes (buffer : List β) (p : List α) (limit len : Nat) : Prop :=
  ∀ r, (K.call (some buffer) (some p) limit len).ret = some r →
    ∃ stored, (K.call (some buffer) (some p) limit len).dst = some stored ∧
      ((K.call (some buffer) (some p) limit len).src = .null ∧ K.Terminated p limit len r stored ∨
        ∃ k cs, (K.call (some buffer) (some p) limit len).src = .advanced k ∧
          K.Interrupted p limit r stored k cs)

/-- The source has a terminator within the limit, and the text in front of it fills the
destination. -/
def Converter.FillsExactly (p : List α) (limit len : Nat) : Prop :=
  ∃ (cs : List Char) (rest : List α), Nonzero cs ∧ p.take limit =
    cs.flatMap K.source ++ K.nul :: rest ∧
    (cs.flatMap K.target).length = len

/-- What a converter does with a buffer of at least `len` units. -/
structure Converter.Lawful : Prop where
  source_pos : ∀ c, 0 < (K.source c).length
  target_le : ∀ c, (K.target c).length ≤ 4
  exists_text : ∀ p : List α, ∃ (cs : List Char) (rest : List α), p =
    cs.flatMap K.source ++ rest ∧ Nonzero cs ∧
    (rest = [] ∨ rest.head? = some K.nul ∨ K.Malformed rest)
  ends : ∀ {buffer : List β} {p limit len cs}, Nonzero cs → len ≤ buffer.length →
    (cs.flatMap K.target).length ≤ len → p.take limit = cs.flatMap K.source →
    K.call (some buffer) (some p) limit len =
      finish (some (memcpy buffer 0 (cs.flatMap K.target))) (cs.flatMap K.source).length
        (cs.flatMap K.target).length
  terminates : ∀ {buffer : List β} {p limit len cs rest}, Nonzero cs → len ≤ buffer.length →
    (cs.flatMap K.target).length ≤ len → p.take limit = cs.flatMap K.source ++ K.nul :: rest →
    K.call (some buffer) (some p) limit len =
      terminate (some (memcpy buffer 0 (cs.flatMap K.target))) K.nul' len
        (cs.flatMap K.target).length
  fails : ∀ {buffer : List β} {p limit len cs rest}, Nonzero cs → len ≤ buffer.length →
    (cs.flatMap K.target).length ≤ len → p.take limit = cs.flatMap K.source ++ rest →
    K.Malformed rest → (K.call (some buffer) (some p) limit len).ret = none
  stops : ∀ {buffer : List β} {p limit len cs c rest}, Nonzero cs → len ≤ buffer.length →
    (cs.flatMap K.target).length ≤ len → c.toNat ≠ 0 →
    len < (cs.flatMap K.target).length + (K.target c).length →
    p.take limit = cs.flatMap K.source ++ (K.source c ++ rest) →
    K.call (some buffer) (some p) limit len =
      ⟨some (cs.flatMap K.target).length, none, some (memcpy buffer 0 (cs.flatMap K.target)),
        .advanced (cs.flatMap K.source).length⟩

variable {K} {buffer : List β} {p rest : List α} {cs : List Char} {limit len : Nat}

/-! ## Room for any text -/

theorem Converter.Lawful.length_target_le (hK : K.Lawful) (cs : List Char) :
    (cs.flatMap K.target).length ≤ 4 * (cs.flatMap K.source).length := by
  induction cs with
  | nil => exact Nat.le_refl 0
  | cons c cs ih =>
      have hsource := hK.source_pos c
      have htarget := hK.target_le c
      rw [List.flatMap_cons, List.flatMap_cons, List.length_append, List.length_append]
      omega

/-- Room for any text is room for the text of the source. -/
theorem Converter.Lawful.room (hK : K.Lawful) (h : p.take limit = cs.flatMap K.source ++ rest) :
    (cs.flatMap K.target).length ≤ 4 * p.length + 1 := by
  have hle := hK.length_target_le cs
  have hlength := congrArg List.length h
  rw [List.length_append, List.length_take] at hlength
  omega

/-- A copied unit. -/
theorem getElem?_memcpy {stored : List β} {a : β} {out : Nat} (h : out ≤ stored.length) :
    (memcpy stored out [a])[out]? = some a := by
  have hfront : (stored.take out).length = out := by
    rw [List.length_take, Nat.min_eq_left h]
  rw [memcpy, List.append_assoc, List.getElem?_append_right (Nat.le_of_eq hfront), hfront,
    Nat.sub_self]
  rfl

/-- The terminator is stored where there is room for it. -/
theorem terminate_of_lt {stored : List β} {zero : β} {out : Nat} (h : out < len) :
    terminate (some stored) zero len out =
      ⟨some out, none, some (memcpy stored out [zero]), .null⟩ := by
  rw [terminate]
  simp only [if_pos h]
  rfl

/-- With room for any text, a source that ends with its text or with the terminator is converted. -/
theorem Converter.Lawful.unlimited_text (hK : K.Lawful) (hzero : Nonzero cs)
    (h : p.take limit = cs.flatMap K.source ++ rest)
    (hrest : rest = [] ∨ rest.head? = some K.nul) :
    K.unlimited p limit = some (cs.flatMap K.target) := by
  have hroom := hK.room h
  have hbuffer : 4 * p.length + 1 ≤ (List.replicate (4 * p.length + 1) K.nul').length :=
    Nat.le_of_eq (List.length_replicate ..).symm
  rcases hrest with rfl | hhead
  · rw [List.append_nil] at h
    rw [Converter.unlimited]
    simp only [hK.ends hzero hbuffer hroom h, finish, Option.map_some, Option.getD_some,
      take_memcpy]
  · obtain ⟨tail, rfl⟩ := List.head?_eq_some_iff.1 hhead
    have hlt : (cs.flatMap K.target).length < 4 * p.length + 1 := by
      have hle := hK.length_target_le cs
      have hlength := congrArg List.length h
      rw [List.length_append, List.length_take, List.length_cons] at hlength
      omega
    rw [Converter.unlimited]
    simp only [hK.terminates hzero hbuffer hroom h, terminate_of_lt hlt, Option.map_some,
      Option.getD_some]
    rw [take_memcpy_of_le _ (Nat.le_refl _), take_memcpy]
    rw [length_memcpy] <;> simp only [List.length_replicate] <;> omega

/-- With room for any text, something malformed behind the text is an error. -/
theorem Converter.Lawful.unlimited_malformed (hK : K.Lawful) (hzero : Nonzero cs)
    (h : p.take limit = cs.flatMap K.source ++ rest) (hrest : K.Malformed rest) :
    K.unlimited p limit = none := by
  have hbuffer : 4 * p.length + 1 ≤ (List.replicate (4 * p.length + 1) K.nul').length :=
    Nat.le_of_eq (List.length_replicate ..).symm
  rw [Converter.unlimited]
  simp only [hK.fails hzero hbuffer (hK.room h) h hrest, Option.map_none]

/-! ## Full destinations -/

/-- A text fits, or it has a first character that does not. -/
theorem fits_or_split (target : Char → List β) (cs : List Char) (len : Nat) :
    (cs.flatMap target).length ≤ len ∨
      ∃ fit c more, cs = fit ++ c :: more ∧ (fit.flatMap target).length ≤ len ∧
        len < (fit.flatMap target).length + (target c).length := by
  induction cs generalizing len with
  | nil => exact .inl (Nat.zero_le _)
  | cons c cs ih =>
      by_cases hfirst : len < (target c).length
      case pos => exact .inr ⟨[], c, cs, rfl, Nat.zero_le _, by simpa using hfirst⟩
      case neg =>
        rcases ih (len - (target c).length) with hfits | ⟨fit, d, more, rfl, hle, hlt⟩
        · left
          rw [List.flatMap_cons, List.length_append]
          omega
        · refine .inr ⟨c :: fit, d, more, rfl, ?_, ?_⟩
          all_goals
            rw [List.flatMap_cons, List.length_append]
            omega

/-- Where a call stops behind a text, the source splits there. -/
theorem source_split (h : p.take limit = cs.flatMap K.source ++ rest) :
    (cs.flatMap K.source).length ≤ limit ∧
      p = cs.flatMap K.source ++ p.drop (cs.flatMap K.source).length ∧
      (p.drop (cs.flatMap K.source).length).take (limit - (cs.flatMap K.source).length) = rest := by
  have hlength := congrArg List.length h
  rw [List.length_append, List.length_take] at hlength
  refine ⟨by omega, ?_, ?_⟩
  · have hp : p = cs.flatMap K.source ++ (rest ++ p.drop limit) := by
      rw [← List.append_assoc, ← h, List.take_append_drop]
    conv_rhs => rw [hp, List.drop_left]
    exact hp
  · rw [← List.drop_take, h, List.drop_left]

/-! ## Right calls -/

/-- A call that stops behind a text, at a place where the source goes on with a text, is right. -/
theorem Converter.Lawful.resumes_at (hK : K.Lawful) {more : List Char} {stored : List β}
    (hzero : Nonzero cs) (hmore : Nonzero more)
    (h : p.take limit = cs.flatMap K.source ++ (more.flatMap K.source ++ rest))
    (hrest : rest = [] ∨ rest.head? = some K.nul ∨ K.Malformed rest)
    (hstored : stored.take (cs.flatMap K.target).length = cs.flatMap K.target)
    (hcall : K.call (some buffer) (some p) limit len =
      ⟨some (cs.flatMap K.target).length, none, some stored,
        .advanced (cs.flatMap K.source).length⟩) :
    K.Resumes buffer p limit len := by
  obtain ⟨hlimit, hsplit, hrestTake⟩ := source_split h
  have hall : p.take limit = (cs ++ more).flatMap K.source ++ rest := by
    rw [h, List.flatMap_append, List.append_assoc]
  have hboth : Nonzero (cs ++ more) := fun c hc =>
    (List.mem_append.1 hc).elim (hzero c) (hmore c)
  unfold Converter.Resumes
  rw [hcall]
  intro r hr
  obtain rfl := Option.some.inj hr
  refine ⟨stored, rfl, .inr ⟨_, cs, rfl, hlimit, rfl, hsplit, hstored, rfl, ?_⟩⟩
  rw [hstored]
  rcases hrest with hnil | hhead | hmalformed
  · rw [hK.unlimited_text hboth hall (.inl hnil), hK.unlimited_text hmore hrestTake (.inl hnil),
      Option.map_some, List.flatMap_append]
  · rw [hK.unlimited_text hboth hall (.inr hhead), hK.unlimited_text hmore hrestTake (.inr hhead),
      Option.map_some, List.flatMap_append]
  · rw [hK.unlimited_malformed hboth hall hmalformed,
      hK.unlimited_malformed hmore hrestTake hmalformed, Option.map_none]

/-- A terminator behind a text that fills the destination is not stored, and `*src` is `NULL`. -/
theorem Converter.Lawful.not_resumes (hK : K.Lawful) (hbuffer : len ≤ buffer.length)
    (h : K.FillsExactly p limit len) : ¬ K.Resumes buffer p limit len := by
  obtain ⟨cs, rest, hzero, htake, hlen⟩ := h
  have hcall := hK.terminates hzero hbuffer (Nat.le_of_eq hlen) htake
  intro hresumes
  obtain ⟨stored, -, ⟨-, hterminated⟩ | ⟨k, cs, hsrc, -⟩⟩ :=
    hresumes (cs.flatMap K.target).length (by rw [hcall]; rfl)
  · exact absurd hterminated.room (Nat.not_lt.2 (Nat.le_of_eq hlen.symm))
  · rw [hcall] at hsrc
    cases hsrc

/-- A call is right exactly if the text in front of a terminator does not fill the destination. -/
theorem Converter.Lawful.resumes_iff (hK : K.Lawful) (hbuffer : len ≤ buffer.length) :
    K.Resumes buffer p limit len ↔ ¬ K.FillsExactly p limit len := by
  refine ⟨fun h hfills => hK.not_resumes hbuffer hfills h, fun hfills => ?_⟩
  obtain ⟨cs, rest, htake, hzero, hrest⟩ := hK.exists_text (p.take limit)
  rcases fits_or_split K.target cs len with hfits | ⟨fit, c, more, rfl, hle, hlt⟩
  · have hstored := take_memcpy buffer (cs.flatMap K.target)
    rcases hrest with rfl | hhead | hmalformed
    · have htake' : p.take limit = cs.flatMap K.source ++
        (([] : List Char).flatMap K.source ++ []) := by
        rw [htake]
        rfl
      rw [List.append_nil] at htake
      exact hK.resumes_at hzero (fun _ hc => absurd hc List.not_mem_nil) htake' (.inl rfl) hstored
        (hK.ends hzero hbuffer hfits htake)
    · obtain ⟨tail, rfl⟩ := List.head?_eq_some_iff.1 hhead
      have hlt : (cs.flatMap K.target).length < len :=
        Nat.lt_of_le_of_ne hfits fun heq => hfills ⟨cs, tail, hzero, htake, heq⟩
      have hcopied : (memcpy buffer 0 (cs.flatMap K.target)).length = buffer.length :=
        length_memcpy (by omega)
      unfold Converter.Resumes
      rw [hK.terminates hzero hbuffer hfits htake, terminate_of_lt hlt]
      intro r hr
      obtain rfl := Option.some.inj hr
      refine ⟨_, rfl, .inl ⟨rfl, hlt, ?_, ?_⟩⟩
      · exact getElem?_memcpy (by omega)
      · rw [hK.unlimited_text hzero htake (.inr rfl),
          take_memcpy_of_le _ (Nat.le_refl _) (by omega), hstored]
    · intro r hr
      rw [hK.fails hzero hbuffer hfits htake hmalformed] at hr
      cases hr
  · have hfit : Nonzero fit := fun d hd => hzero d (List.mem_append_left _ hd)
    have hmore : Nonzero (c :: more) := fun d hd => hzero d (List.mem_append_right _ hd)
    rw [List.flatMap_append, List.append_assoc] at htake
    have hstop : p.take limit =
        fit.flatMap K.source ++ (K.source c ++ (more.flatMap K.source ++ rest)) := by
      rw [htake, List.flatMap_cons, List.append_assoc]
    exact hK.resumes_at hfit hmore htake hrest (take_memcpy _ _)
      (hK.stops hfit hbuffer hle (hmore c List.mem_cons_self) hlt hstop)

/-! ## The two functions -/

/-- `nx_mbsnrtowcs`, from bytes to wide characters -/
def multibyte : Converter UInt8 UInt32 where
  source := String.utf8EncodeChar
  target := fun c => [c.val]
  nul := 0
  nul' := 0
  Malformed := fun p => nxUtf8Decode p = .malformed
  call := nxMbsnrtowcs

/-- `nx_wcsnrtombs`, from wide characters to bytes -/
def widechar : Converter UInt32 UInt8 where
  source := fun c => [c.val]
  target := String.utf8EncodeChar
  nul := 0
  nul' := 0
  Malformed := fun p => ∃ w tail, p = w :: tail ∧ w.toNat ≠ 0 ∧ nxUtf8Encode w.toNat = []
  call := nxWcsnrtombs

theorem flatMap_val (cs : List Char) : cs.flatMap (fun c => [c.val]) = cs.map Char.val :=
  List.map_eq_flatMap.symm

/-- `nx_mbsnrtowcs` at a character that the destination has no room for. -/
theorem mbsnrtowcsLoop_full {len read out : Nat} {buffer : List UInt32} {c : Char}
    (rest : List UInt8) (hc : c.toNat ≠ 0) (hfull : len ≤ out) :
    mbsnrtowcsLoop len (some buffer) (String.utf8EncodeChar c ++ rest) read out =
      ⟨some out, none, some buffer, .advanced read⟩ := by
  have hne : String.utf8EncodeChar c ++ rest ≠ [] :=
    fun h => String.utf8EncodeChar_ne_nil (List.append_eq_nil_iff.1 h).1
  rw [mbsnrtowcsLoop, dif_neg hne]
  split
  · case h_1 hdecode =>
      rw [nxUtf8Decode_encode] at hdecode
      cases hdecode
  · case h_2 hdecode =>
      rw [nxUtf8Decode_encode] at hdecode
      cases hdecode
  · case h_3 cp used hdecode =>
      rw [nxUtf8Decode_encode] at hdecode
      obtain ⟨rfl, rfl⟩ := Decoded.character.inj hdecode
      rw [if_neg hc]
      exact if_pos hfull

/-- `nx_wcsnrtombs` at a character that the destination has no room for. -/
theorem wcsnrtombsLoop_full {len read out : Nat} {buffer : List UInt8} {c : Char}
    (rest : List UInt32) (hc : c.toNat ≠ 0)
    (hfull : len < out + (String.utf8EncodeChar c).length) :
    wcsnrtombsLoop len (some buffer) (c.val :: rest) read out =
      ⟨some out, none, some buffer, .advanced read⟩ := by
  have henc : nxUtf8Encode c.val.toNat = String.utf8EncodeChar c := nxUtf8Encode_char c
  have hval : c.val.toNat ≠ 0 := hc
  have hlength := length_encode_pos c
  rw [wcsnrtombsLoop.eq_def]
  dsimp only
  rw [henc, if_neg hval, if_neg (by omega)]
  exact if_pos hfull

/-- A call of `nx_mbsnrtowcs` goes on behind a text that fits. -/
theorem nxMbsnrtowcs_text {buffer : List UInt32} {p rest : List UInt8} {limit len : Nat}
    {cs : List Char} (hzero : Nonzero cs) (hbuffer : len ≤ buffer.length)
    (hfits : (cs.flatMap multibyte.target).length ≤ len)
    (h : p.take limit = cs.flatMap multibyte.source ++ rest) :
    nxMbsnrtowcs (some buffer) (some p) limit len =
      mbsnrtowcsLoop len (some (memcpy buffer 0 (cs.flatMap multibyte.target))) rest
        (cs.flatMap multibyte.source).length (cs.flatMap multibyte.target).length := by
  have htarget : cs.flatMap multibyte.target = cs.map Char.val := flatMap_val cs
  have hlength : (cs.map Char.val).length = cs.length := List.length_map ..
  rw [htarget, hlength] at hfits
  have hroom : ∀ b ∈ some buffer, 0 + cs.length ≤ len ∧ len ≤ b.length := by
    rintro b ⟨⟩
    exact ⟨by omega, hbuffer⟩
  show mbsnrtowcsLoop len (some buffer) (p.take limit) 0 0 = _
  rw [h, show cs.flatMap multibyte.source = utf8 cs from rfl, mbsnrtowcsLoop_text hzero rest hroom,
    htarget, hlength, Nat.zero_add, Nat.zero_add]
  rfl

/-- A call of `nx_wcsnrtombs` goes on behind a text that fits. -/
theorem nxWcsnrtombs_text {buffer : List UInt8} {p rest : List UInt32} {limit len : Nat}
    {cs : List Char} (hzero : Nonzero cs) (hbuffer : len ≤ buffer.length)
    (hfits : (cs.flatMap widechar.target).length ≤ len)
    (h : p.take limit = cs.flatMap widechar.source ++ rest) :
    nxWcsnrtombs (some buffer) (some p) limit len =
      wcsnrtombsLoop len (some (memcpy buffer 0 (cs.flatMap widechar.target))) rest
        (cs.flatMap widechar.source).length (cs.flatMap widechar.target).length := by
  have hsource : cs.flatMap widechar.source = cs.map Char.val := flatMap_val cs
  have hroom : ∀ b ∈ some buffer, 0 + (utf8 cs).length ≤ len ∧ len ≤ b.length := by
    rintro b ⟨⟩
    rw [Nat.zero_add]
    exact ⟨hfits, hbuffer⟩
  show wcsnrtombsLoop len (some buffer) (p.take limit) 0 0 = _
  rw [h, hsource, wcsnrtombsLoop_text hzero rest hroom, List.length_map, Nat.zero_add, Nat.zero_add]
  rfl

theorem multibyte_lawful : multibyte.Lawful where
  source_pos := length_encode_pos
  target_le := fun _ => Nat.le_of_ble_eq_true rfl
  exists_text := exists_text
  ends := by
    intro buffer p limit len cs hzero hbuffer hfits h
    have htext : p.take limit = cs.flatMap multibyte.source ++ [] :=
      h.trans (List.append_nil _).symm
    exact (nxMbsnrtowcs_text hzero hbuffer hfits htext).trans (mbsnrtowcsLoop_nil ..)
  terminates := fun hzero hbuffer hfits h =>
    (nxMbsnrtowcs_text hzero hbuffer hfits h).trans (mbsnrtowcsLoop_zero ..)
  fails := by
    intro buffer p limit len cs rest hzero hbuffer hfits h hmalformed
    show (nxMbsnrtowcs (some buffer) (some p) limit len).ret = none
    rw [nxMbsnrtowcs_text hzero hbuffer hfits h, mbsnrtowcsLoop_malformed _ _ _ _ hmalformed]
    rfl
  stops := by
    intro buffer p limit len cs c rest hzero hbuffer hfits hc hfull h
    exact (nxMbsnrtowcs_text hzero hbuffer hfits h).trans
      (mbsnrtowcsLoop_full rest hc (Nat.le_of_lt_succ hfull))

theorem widechar_lawful : widechar.Lawful where
  source_pos := fun _ => Nat.one_pos
  target_le := fun c => by
    show (String.utf8EncodeChar c).length ≤ 4
    rw [String.length_utf8EncodeChar]
    exact c.utf8Size_le_four
  exists_text := by
    intro p
    obtain ⟨cs, rest, hp, hzero, hrest⟩ := exists_wide_text p
    exact ⟨cs, rest, hp.trans (congrArg (· ++ rest) (flatMap_val cs).symm), hzero, hrest⟩
  ends := by
    intro buffer p limit len cs hzero hbuffer hfits h
    have htext : p.take limit = cs.flatMap widechar.source ++ [] := h.trans (List.append_nil _).symm
    exact (nxWcsnrtombs_text hzero hbuffer hfits htext).trans rfl
  terminates := fun hzero hbuffer hfits h =>
    (nxWcsnrtombs_text hzero hbuffer hfits h).trans (wcsnrtombsLoop_zero ..)
  fails := by
    intro buffer p limit len cs rest hzero hbuffer hfits h hmalformed
    obtain ⟨w, tail, rfl, hw, henc⟩ := hmalformed
    show (nxWcsnrtombs (some buffer) (some p) limit len).ret = none
    rw [nxWcsnrtombs_text hzero hbuffer hfits h, wcsnrtombsLoop_malformed _ _ _ _ _ hw henc]
    rfl
  stops := by
    intro buffer p limit len cs c rest hzero hbuffer hfits hc hfull h
    exact (nxWcsnrtombs_text hzero hbuffer hfits h).trans (wcsnrtombsLoop_full rest hc hfull)

/-- Calls of `nx_mbsnrtowcs` and of `nx_wcsnrtombs` are right exactly if the text in front of a
terminator does not fill the destination. -/
theorem conversions_resume_iff {buffer : List UInt32} {p : List UInt8} {nms len : Nat}
    (hbuffer : len ≤ buffer.length) {buffer' : List UInt8} {p' : List UInt32} {nwc len' : Nat}
    (hbuffer' : len' ≤ buffer'.length) :
    (multibyte.Resumes buffer p nms len ↔ ¬ multibyte.FillsExactly p nms len) ∧
      (widechar.Resumes buffer' p' nwc len' ↔ ¬ widechar.FillsExactly p' nwc len') :=
  ⟨multibyte_lawful.resumes_iff hbuffer, widechar_lawful.resumes_iff hbuffer'⟩

/-- A source without a terminator within the limit does not fill a destination in this sense. -/
theorem not_fillsExactly (h : K.nul ∉ p.take limit) : ¬ K.FillsExactly p limit len := by
  rintro ⟨cs, rest, -, htake, -⟩
  rw [htake] at h
  exact h (List.mem_append_right _ List.mem_cons_self)

/-- Two characters, and destinations for one of them. -/
theorem conversions_resume_iff_two :
    multibyte.Resumes [7] [65, 66] 2 1 ∧ widechar.Resumes [7] [65, 66] 2 1 := by
  have hroom : 1 ≤ [(7 : UInt32)].length := Nat.le_refl 1
  have hroom' : 1 ≤ [(7 : UInt8)].length := Nat.le_refl 1
  have hboth : (multibyte.Resumes [7] [65, 66] 2 1 ↔ ¬ multibyte.FillsExactly [65, 66] 2 1) ∧
      (widechar.Resumes [7] [65, 66] 2 1 ↔ ¬ widechar.FillsExactly [65, 66] 2 1) :=
    conversions_resume_iff hroom hroom'
  exact ⟨hboth.1.2 (not_fillsExactly (by decide)), hboth.2.2 (not_fillsExactly (by decide))⟩

/-- The character `A` in front of a terminator, and a destination for one character. -/
theorem not_resumes_full : ¬ multibyte.Resumes [7] [65, 0] 2 1 :=
  multibyte_lawful.not_resumes (Nat.le_refl 1) ⟨['A'], [], by
    rintro c hc
    obtain rfl := List.mem_singleton.1 hc
    decide, rfl, rfl⟩

end Asnx.Imports
