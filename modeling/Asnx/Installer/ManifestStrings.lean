import Asnx.Installer.ManifestBounds
import Asnx.Library.Unicode
import Mathlib.Data.List.GetD

/-!
# The strings of the manifest

What `axml_string` makes of a string that is stored in UTF-16. The units in front are a text
(`Unicode.textOf`), which is written character by character until it ends, the array is full or the
string is refused (`decodeText`). A first unit of two at the very end is written as if it were a
character: but for that the decoded strings are valid (`decoded_iff`).
-/

namespace Asnx.Installer

open Files Tracing Unicode

/-! ## The strings of a pool -/

/-- A string of a pool, in one of the two encodings. -/
inductive Stored where
  | utf8 (content : Bytes)
  | utf16 (units : List UInt16)
  deriving DecidableEq

/-- A length in front of a string in UTF-8 and the number of bytes it takes. -/
def u8Length (buf : Bytes) (p e : Nat) : Option (Nat × Nat) :=
  let a := (buf.getD p 0).toNat
  if p ≥ e then none
  else if a &&& 0x80 ≠ 0 then
    if p + 1 ≥ e then none else some ((a &&& 0x7f) <<< 8 ||| (buf.getD (p + 1) 0).toNat, 2)
  else some (a, 1)

/-- A length in front of a string in UTF-16 and the number of bytes it takes. -/
def u16Length (buf : Bytes) (p e : Nat) : Option (Nat × Nat) :=
  if sizeSub e p < 2 then none
  else if rd16 buf p &&& 0x8000 ≠ 0 then
    if sizeSub e p < 4 then none
    else some ((rd16 buf p &&& 0x7fff) <<< 16 ||| rd16 buf (p + 2), 4)
  else some (rd16 buf p, 2)

/-- The bytes of a string in UTF-8, behind its two lengths. -/
def storedUtf8 (buf : Bytes) (q e : Nat) : Option Bytes :=
  match u8Length buf q e with
  | none => none
  | some (_, used1) =>
      match u8Length buf (q + used1) e with
      | none => none
      | some (n8, used2) =>
          if n8 > sizeSub e (q + used1 + used2) then none
          else some ((List.range n8).map fun i => buf.getD (q + used1 + used2 + i) 0)

/-- The units of a string in UTF-16, behind its length. -/
def storedUtf16 (buf : Bytes) (q e : Nat) : Option (List UInt16) :=
  match u16Length buf q e with
  | none => none
  | some (units, used) =>
      if units > sizeSub e (q + used) / 2 then none
      else some ((List.range units).map fun i => UInt16.ofNat (rd16 buf (q + used + i * 2)))

/-- The string at an index of a pool, if the pool has one there. -/
def AxmlStrings.stored (sp : AxmlStrings) (buf : Bytes) (idx : Nat) : Option Stored :=
  let off := rd32 buf (sp.base + sp.headerSize + idx * 4)
  if idx ≥ sp.count then none
  else if sizeSub (sp.base + sp.size) (sp.base + sp.headerSize) < sp.count * 4 then none
  else if sp.stringsStart > sp.size ∨ off > sizeSub sp.size sp.stringsStart then none
  else if sp.flags &&& 0x100 ≠ 0 then
    (storedUtf8 buf (sp.base + sp.stringsStart + off) (sp.base + sp.size)).map .utf8
  else (storedUtf16 buf (sp.base + sp.stringsStart + off) (sp.base + sp.size)).map .utf16

/-! ## What is made of them -/

/-- What is written of units with no character at their start, with `room` bytes left, and whether
they are accepted. -/
def decodeTail (room : Nat) : List UInt16 → Bytes × Bool
  | [] => ([], true)
  | u :: rest =>
      if room ≤ 1 then ([], true)
      else if IsLow u ∨ rest ≠ [] then ([], false)
      else if 3 < room then
        -- the first unit of two as a character of its own
        ([0xe0 ||| u.toNat >>> 12, 0x80 ||| (u.toNat >>> 6 &&& 0x3f),
          0x80 ||| (u.toNat &&& 0x3f)].map
          UInt8.ofNat, true)
      else ([], true)

/-- What is written of a text and the units behind it. A character of two units that does not fit is
refused, another one ends the string. -/
def decodeText (room : Nat) (tail : List UInt16) : List Char → Bytes × Bool
  | [] => decodeTail room tail
  | c :: cs =>
      let bytes := String.utf8EncodeChar c
      if room ≤ 1 then ([], true)
      else if bytes.length < room then
        let rest := decodeText (room - bytes.length) tail cs
        (bytes ++ rest.1, rest.2)
      else ([], decide (c.toNat < 0x10000))

/-- What is written of a string into an array of `cap` bytes, but for the byte behind it, and
whether it is accepted. -/
def Stored.decode (cap : Nat) : Stored → Bytes × Bool
  | .utf8 content => (content.take (cap - 1), true)
  | .utf16 units => decodeText cap (textOf units).2 (textOf units).1

/-- What a string, if there is one, comes to. -/
def decodeOption (cap : Nat) : Option Stored → Bytes × Bool
  | none => ([], false)
  | some string => string.decode cap

/-- What `axml_string` writes, but for the byte behind it, and whether it returns 0. -/
def AxmlStrings.decode (sp : AxmlStrings) (buf : Bytes) (idx cap : Nat) : Bytes × Bool :=
  if cap = 0 then ([], false) else decodeOption cap (sp.stored buf idx)

/-- The content of an array with some bytes in it. -/
def written (content : Nat → UInt8) (i : Nat) (text : Bytes) : Nat → UInt8 :=
  fun j => if i ≤ j ∧ j < i + text.length then text.getD (j - i) 0 else content j

/-- The content of an array after a string: one that is accepted has an end. -/
def laid (content : Nat → UInt8) (d : Bytes × Bool) : Nat → UInt8 :=
  written content 0 (if d.2 then d.1 ++ [0] else d.1)

theorem written_nil (content : Nat → UInt8) (i : Nat) : written content i [] = content := by
  funext j
  exact if_neg fun h => absurd h.2 (not_lt.2 h.1)

theorem written_cons (content : Nat → UInt8) (i : Nat) (b : UInt8) (text : Bytes) :
    written (Function.update content i b) (i + 1) text = written content i (b :: text) := by
  funext j
  unfold written
  rw [List.length_cons]
  by_cases hj : j = i
  · subst hj
    rw [if_neg (by omega), if_pos (by omega), Function.update_self, Nat.sub_self,
      List.getD_cons_zero]
  · rw [Function.update_of_ne hj]
    by_cases hin : i + 1 ≤ j ∧ j < i + 1 + text.length
    · rw [if_pos hin, if_pos (by omega), show j - i = j - (i + 1) + 1 by omega, List.getD_cons_succ]
    · rw [if_neg hin, if_neg (by omega)]

theorem written_append (content : Nat → UInt8) (i : Nat) (first second : Bytes) :
    written (written content i first) (i + first.length) second =
      written content i (first ++ second) := by
  funext j
  unfold written
  rw [List.length_append]
  by_cases hsecond : i + first.length ≤ j ∧ j < i + first.length + second.length
  · rw [if_pos hsecond, if_pos (by omega), List.getD_append_right _ _ _ _ (by omega), Nat.sub_sub]
  · rw [if_neg hsecond]
    by_cases hfirst : i ≤ j ∧ j < i + first.length
    · rw [if_pos hfirst, if_pos (by omega), List.getD_append _ _ _ _ (by omega)]
    · rw [if_neg hfirst, if_neg (by omega)]

/-! ## What the functions do -/

section Reads

variable (buf : Bytes) (s : ManifestState)

theorem gives_readU8 (p : Nat) : Gives (readU8 buf p) s (buf.getD p 0).toNat s :=
  gives_bind (gives_access _ _) (gives_pure _ _)

theorem gives_readU16 (p : Nat) : Gives (readU16 buf p) s (rd16 buf p) s :=
  gives_bind (gives_access _ _) (gives_pure _ _)

theorem gives_readU32 (p : Nat) : Gives (readU32 buf p) s (rd32 buf p) s :=
  gives_bind (gives_access _ _) (gives_pure _ _)

theorem gives_axmlU8len (p e : Nat) : Gives (axmlU8len buf p e) s (u8Length buf p e) s := by
  unfold axmlU8len u8Length
  dsimp only
  by_cases hp : p ≥ e
  case pos =>
    rw [if_pos hp, if_pos hp]
    exact gives_pure _ _
  rw [if_neg hp, if_neg hp]
  refine gives_bind (gives_readU8 buf s p) ?_
  split
  · split
    · exact gives_pure _ _
    · exact gives_bind (gives_readU8 buf s (p + 1)) (gives_pure _ _)
  · exact gives_pure _ _

theorem gives_axmlU16len (p e : Nat) : Gives (axmlU16len buf p e) s (u16Length buf p e) s := by
  unfold axmlU16len u16Length
  by_cases htwo : sizeSub e p < 2
  case pos =>
    rw [if_pos htwo, if_pos htwo]
    exact gives_pure _ _
  rw [if_neg htwo, if_neg htwo]
  refine gives_bind (gives_readU16 buf s p) ?_
  split
  · split
    · exact gives_pure _ _
    · exact gives_bind (gives_readU16 buf s (p + 2)) (gives_pure _ _)
  · exact gives_pure _ _

end Reads

/-- The state with some bytes written into an array. -/
def ManifestState.put (s : ManifestState) (out : Chars) (i : Nat) (text : Bytes) : ManifestState :=
  s.fill out (written (s.chars out) i text)

theorem put_put (s : ManifestState) (out : Chars) (i : Nat) (first second : Bytes) :
    (s.put out i first).put out (i + first.length) second = s.put out i (first ++ second) := by
  show { s with chars := Function.update (Function.update s.chars out _) out _ } =
    { s with chars := Function.update s.chars out _ }
  rw [Function.update_idem]
  show { s with
    chars := Function.update s.chars out (written (Function.update s.chars out _ out) _ _) } = _
  rw [Function.update_self, written_append]

theorem put_nil (s : ManifestState) (out : Chars) (i : Nat) : s.put out i [] = s := by
  show { s with chars := Function.update s.chars out (written (s.chars out) i []) } = s
  rw [written_nil, Function.update_eq_self]

/-- By induction on the bytes. -/
theorem gives_putChars (out : Chars) (s : ManifestState) (i : Nat) (cs : List Nat) :
    Gives (putChars out i cs) s () (s.put out i (cs.map UInt8.ofNat)) := by
  induction cs generalizing s i with
  | nil =>
      rw [List.map_nil, put_nil]
      exact gives_pure _ _
  | cons c cs ih =>
      have hfirst : s.fill out (Function.update (s.chars out) i (UInt8.ofNat c)) =
          s.put out i [UInt8.ofNat c] := by
        unfold ManifestState.put
        rw [← written_cons, written_nil]
      have hrest : s.put out i (UInt8.ofNat c :: cs.map UInt8.ofNat) =
          (s.put out i [UInt8.ofNat c]).put out (i + 1) (cs.map UInt8.ofNat) :=
        (put_put s out i [UInt8.ofNat c] _).symm
      rw [List.map_cons, hrest, ← hfirst]
      exact gives_bind (gives_access _ _) (gives_bind (gives_modify _ _) (ih _ _))

/-! ## The loop over the units -/

theorem decodeText_full {room : Nat} (h : room ≤ 1) (tail : List UInt16) (cs : List Char) :
    decodeText room tail cs = ([], true) := by
  cases cs with
  | nil =>
      cases tail with
      | nil => rfl
      | cons u rest => exact if_pos h
  | cons c cs => exact if_pos h

theorem decodeText_fits {room : Nat} {c : Char} (h : (String.utf8EncodeChar c).length < room)
    (tail : List UInt16) (cs : List Char) :
    decodeText room tail (c :: cs) =
      (String.utf8EncodeChar c ++ (decodeText (room - (String.utf8EncodeChar c).length) tail cs).1,
        (decodeText (room - (String.utf8EncodeChar c).length) tail cs).2) := by
  have hpositive := length_encode_pos c
  rw [decodeText, if_neg (by omega), if_pos h]

theorem decodeText_short {room : Nat} {c : Char} (hroom : 1 < room)
    (h : room ≤ (String.utf8EncodeChar c).length) (tail : List UInt16) (cs : List Char) :
    decodeText room tail (c :: cs) = ([], decide (c.toNat < 0x10000)) := by
  rw [decodeText, if_neg (by omega), if_neg (by omega)]

/-- What the loop returns. -/
def writtenTo (w : Nat) (d : Bytes × Bool) : Option Nat :=
    if d.2 then some (w + d.1.length) else none

section Loop

variable {buf : Bytes} {q cap w fuel i : Nat} {out : Chars} {s : ManifestState} {us : List UInt16}

/-- The loop stops. -/
theorem gives_stop (h : ¬ (i < us.length ∧ w + 1 < cap)) (hfuel : 0 < fuel) :
    Gives (utf16Loop buf q us.length out cap fuel i w) s (writtenTo w ([], true))
      (s.put out w []) := by
  obtain ⟨fuel, rfl⟩ := Nat.exists_eq_succ_of_ne_zero hfuel.ne'
  rw [put_nil]
  exact gives_if_neg h (gives_pure _ _)

/-- A character is written, and the loop goes on. -/
theorem gives_character {ns : List Nat} {bytes : Bytes} {d : Bytes × Bool}
    {loop : Axml (Option Nat)} (hns : ns.map UInt8.ofNat = bytes)
    (hloop : Gives loop (s.put out w bytes) (writtenTo (w + bytes.length) d)
      ((s.put out w bytes).put out (w + bytes.length) d.1)) :
    Gives (do
      putChars out w ns
      loop) s (writtenTo w (bytes ++ d.1, d.2)) (s.put out w (bytes ++ d.1)) := by
  have hreturn : writtenTo w (bytes ++ d.1, d.2) = writtenTo (w + bytes.length) d := by
    unfold writtenTo
    rw [List.length_append, Nat.add_assoc]
  have hput := gives_putChars out s w ns
  rw [hns] at hput
  rw [hreturn, ← put_put]
  exact gives_bind hput hloop

/-- The units of the string are in the buffer. -/
def HoldsUnits (buf : Bytes) (q : Nat) (us : List UInt16) : Prop :=
  ∀ i u rest, us.drop i = u :: rest → rd16 buf (q + i * 2) = u.toNat

theorem lt_of_drop {u : UInt16} {rest : List UInt16} (h : us.drop i = u :: rest) :
    i + 1 + rest.length = us.length := by
  have hlength := congrArg List.length h
  rw [List.length_drop, List.length_cons] at hlength
  omega

theorem drop_succ {u : UInt16} {rest : List UInt16} (h : us.drop i = u :: rest) :
    us.drop (i + 1) = rest := by
  rw [← List.drop_drop, h]
  rfl

/-- The loop where no character is left. -/
theorem gives_tail (hread : HoldsUnits buf q us) {tail : List UInt16} (htail : Ends tail)
    (hdrop : us.drop i = tail) (hfuel : us.length < fuel + i) (hpositive : 0 < fuel) :
    Gives (utf16Loop buf q us.length out cap fuel i w) s (writtenTo w (decodeTail (cap - w) tail))
      (s.put out w (decodeTail (cap - w) tail).1) := by
  cases tail with
  | nil =>
      have hlength := List.drop_eq_nil_iff.1 hdrop
      exact gives_stop (fun h => absurd h.1 (not_lt.2 hlength)) hpositive
  | cons u rest =>
      have hlength := lt_of_drop hdrop
      have hvalue := hread i u rest hdrop
      rw [decodeTail]
      by_cases hroom : cap - w ≤ 1
      case pos =>
        rw [if_pos hroom]
        exact gives_stop (fun h => by omega) hpositive
      rw [if_neg hroom]
      obtain ⟨fuel, rfl⟩ := Nat.exists_eq_succ_of_ne_zero hpositive.ne'
      -- the next unit is a surrogate, and no pair begins with it
      have hrange : 0xd800 ≤ u.toNat ∧ u.toNat ≤ 0xdfff := by
        rcases htail with h | h
        · exact ⟨Nat.le_trans (by decide) h.1, h.2⟩
        · exact ⟨h.1.1, Nat.le_trans h.1.2 (by decide)⟩
      refine gives_if_pos ⟨by omega, by omega⟩ (gives_bind (gives_readU16 _ _ _) ?_)
      rw [hvalue]
      refine gives_if_neg (by omega) (gives_if_neg (by omega) ?_)
      by_cases hlow : IsLow u
      case pos =>
        have hsecond : 0xdc00 ≤ u.toNat ∧ u.toNat ≤ 0xdfff := hlow
        rw [if_pos (Or.inl hlow), put_nil]
        exact gives_if_neg (by omega) (gives_if_pos hsecond (gives_pure _ _))
      have hsecond : ¬ (0xdc00 ≤ u.toNat ∧ u.toNat ≤ 0xdfff) := hlow
      cases rest with
      | cons lo rest =>
          have hnext := hread (i + 1) lo rest (drop_succ hdrop)
          have hlo : ¬ IsLow lo := (htail.resolve_left hlow).2 lo rfl
          rw [List.length_cons] at hlength
          rw [if_pos (Or.inr (List.cons_ne_nil _ _)), put_nil]
          refine gives_if_pos (by omega) (gives_bind (gives_readU16 _ _ _) ?_)
          rw [hnext]
          exact gives_if_neg (fun h => hlo ⟨h.1, h.2.1⟩) (gives_pure _ _)
      | nil =>
          rw [List.length_nil] at hlength
          have hlast : ¬ (IsLow u ∨ ([] : List UInt16) ≠ []) := fun h => h.elim hlow fun h => h rfl
          rw [if_neg hlast]
          refine gives_if_neg (by omega) (gives_if_neg hsecond ?_)
          -- the last unit of all: three bytes that no text has, where they fit
          by_cases hthree : 3 < cap - w
          case pos =>
            rw [if_pos hthree]
            refine gives_if_pos (by omega) ?_
            refine gives_character (d := ([], true)) rfl ?_
            exact gives_stop (fun h => by omega) (by omega)
          case neg =>
            rw [if_neg hthree, put_nil]
            exact gives_if_neg (by omega) (gives_pure _ _)

/-- The loop in front of a text: by induction on the text, with a turn for each character. -/
theorem gives_utf16Loop (hread : HoldsUnits buf q us) {tail : List UInt16} (htail : Ends tail)
    (cs : List Char) (hdrop : us.drop i = utf16 cs ++ tail) (hfuel : us.length < fuel + i)
    (hpositive : 0 < fuel) :
    Gives (utf16Loop buf q us.length out cap fuel i w) s
      (writtenTo w (decodeText (cap - w) tail cs))
      (s.put out w (decodeText (cap - w) tail cs).1) := by
  induction cs generalizing i w fuel s with
  | nil => exact gives_tail hread htail hdrop hfuel hpositive
  | cons c cs ih =>
      have hscalar := scalar c
      by_cases hroom : cap - w ≤ 1
      case pos =>
        rw [decodeText_full hroom]
        exact gives_stop (fun h => by omega) hpositive
      obtain ⟨fuel, rfl⟩ := Nat.exists_eq_succ_of_ne_zero hpositive.ne'
      rw [utf16_cons, List.append_assoc] at hdrop
      -- behind the character the loop goes on with the rest of the text
      have hrec : ∀ {i'} k, k = (String.utf8EncodeChar c).length → us.drop i' = utf16 cs ++ tail →
          i < i' → 0 < fuel → Gives (utf16Loop buf q us.length out cap fuel i' (w + k))
            (s.put out w (String.utf8EncodeChar c))
            (writtenTo (w + (String.utf8EncodeChar c).length)
              (decodeText (cap - w - (String.utf8EncodeChar c).length) tail cs))
            ((s.put out w (String.utf8EncodeChar c)).put out (w + (String.utf8EncodeChar c).length)
              (decodeText (cap - w - (String.utf8EncodeChar c).length) tail cs).1) := by
        rintro i' k rfl hdrop hi hfuel
        rw [Nat.sub_sub]
        exact ih hdrop (by omega) hfuel
      rcases encode_cases c with
        ⟨hsmall, u, hu, hvalue, halone⟩ | ⟨hlarge, u, v, huv, hhigh, hlow, hvalue⟩
      · -- one unit: the branches for one, two and three bytes, each with or without room
        rw [hu] at hdrop
        have hlength := lt_of_drop hdrop
        have hunit := hread i u _ hdrop
        have hnext := drop_succ hdrop
        rw [hvalue] at hunit
        refine gives_if_pos ⟨by omega, by omega⟩ (gives_bind (gives_readU16 _ _ _) ?_)
        rw [hunit]
        rcases length_cases c with h | ⟨hlow, h⟩ | ⟨hlow, h⟩ | hlow
        · have hk : 1 = (String.utf8EncodeChar c).length := by rw [encode_one h]; rfl
          rw [decodeText_fits (by omega)]
          refine gives_if_pos h (gives_character ?_ (hrec 1 hk hnext (by omega) (by omega)))
          rw [encode_one h]
          rfl
        · have hk : 2 = (String.utf8EncodeChar c).length := by rw [encode_two hlow h]; rfl
          by_cases hfits : w + 2 < cap
          case pos =>
            rw [decodeText_fits (by omega)]
            refine gives_if_neg (by omega) (gives_if_pos ⟨h, hfits⟩ ?_)
            exact gives_character (masks_two hlow h) (hrec 2 hk hnext (by omega) (by omega))
          case neg =>
            rw [decodeText_short (by omega) (by omega), decide_eq_true hsmall, put_nil]
            refine gives_if_neg (by omega) (gives_if_neg (by omega) ?_)
            refine gives_if_neg (by omega) (gives_if_neg (by omega) ?_)
            exact gives_if_neg (by omega) (gives_pure _ _)
        · have hk : 3 = (String.utf8EncodeChar c).length := by rw [encode_three hlow h]; rfl
          refine gives_if_neg (by omega) (gives_if_neg (by omega) ?_)
          refine gives_if_neg (by omega) (gives_if_neg (by omega) ?_)
          by_cases hfits : w + 3 < cap
          case pos =>
            rw [decodeText_fits (by omega)]
            refine gives_if_pos hfits ?_
            exact gives_character (masks_three hlow h) (hrec 3 hk hnext (by omega) (by omega))
          case neg =>
            rw [decodeText_short (by omega) (by omega), decide_eq_true hsmall, put_nil]
            exact gives_if_neg hfits (gives_pure _ _)
        · exact absurd hsmall (not_lt.2 hlow)
      · -- a pair of surrogates, and four bytes
        have hk : 4 = (String.utf8EncodeChar c).length := by rw [encode_four hlarge]; rfl
        obtain ⟨hhigh, hhigh'⟩ := hhigh
        obtain ⟨hlow, hlow'⟩ := hlow
        rw [huv] at hdrop
        have hlength := lt_of_drop hdrop
        have hunit := hread i u _ hdrop
        have hunit' := hread (i + 1) v _ (drop_succ hdrop)
        have hnext := drop_succ (drop_succ hdrop)
        have hsecond : i + 1 + ((utf16 cs ++ tail).length + 1) = us.length := hlength
        refine gives_if_pos ⟨by omega, by omega⟩ (gives_bind (gives_readU16 _ _ _) ?_)
        rw [hunit]
        refine gives_if_neg (by omega) (gives_if_neg (by omega) (gives_if_pos (by omega) ?_))
        refine gives_bind (gives_readU16 _ _ _) ?_
        rw [hunit']
        by_cases hfits : w + 4 < cap
        case pos =>
          -- what the code computes from the two units is the character
          have hcp : 0x10000 + (u.toNat - 0xd800) <<< 10 + (v.toNat - 0xdc00) = c.toNat := by
            rw [hvalue, Nat.shiftLeft_eq]
          rw [decodeText_fits (by omega)]
          refine gives_if_pos ⟨hlow, hlow', hfits⟩ ?_
          dsimp only
          rw [hcp]
          exact gives_character (masks_four hlarge) (hrec 4 hk hnext (by omega) (by omega))
        case neg =>
          rw [decodeText_short (by omega) (by omega), decide_eq_false (not_lt.2 hlarge), put_nil]
          exact gives_if_neg (fun h => hfits h.2.2) (gives_pure _ _)

end Loop

/-! ## The functions -/

/-- The state with a string in an array. -/
def ManifestState.lay (s : ManifestState) (out : Chars) (d : Bytes × Bool) : ManifestState :=
  s.fill out (laid (s.chars out) d)

theorem lay_nothing (s : ManifestState) (out : Chars) : s.lay out ([], false) = s := put_nil s out 0

theorem lay_accepted (s : ManifestState) (out : Chars) (text : Bytes) :
    s.lay out (text, true) = (s.put out 0 text).put out text.length [0] := by
  have hput := put_put s out 0 text [0]
  rw [Nat.zero_add] at hput
  exact hput.symm

/-- The end of a string that is accepted. -/
theorem gives_finish (s : ManifestState) (out : Chars) (text : Bytes) :
    Gives (do
      putChars out text.length [0]
      pure true : Axml Bool) (s.put out 0 text) true (s.lay out (text, true)) := by
  rw [lay_accepted]
  exact gives_bind (gives_putChars out _ _ [0]) (gives_pure _ _)

section Strings

variable (buf : Bytes) (s : ManifestState) (out : Chars)

theorem gives_copyChars (q n : Nat) :
    Gives (copyChars buf out q n) s ()
      (s.put out 0 ((List.range n).map fun i => buf.getD (q + i) 0)) := by
  have hcontent : (fun i => if i < n then buf.getD (q + i) 0 else s.chars out i) =
      written (s.chars out) 0 ((List.range n).map fun i => buf.getD (q + i) 0) := by
    funext i
    unfold written
    rw [List.length_map, List.length_range, Nat.zero_add, Nat.sub_zero]
    by_cases hi : i < n
    · have hget : ((List.range n).map fun i => buf.getD (q + i) 0).getD i 0 =
        buf.getD (q + i) 0 := by
        simp [hi]
      rw [if_pos hi, if_pos ⟨Nat.zero_le _, hi⟩, hget]
    · rw [if_neg hi, if_neg fun h => hi h.2]
  unfold copyChars ManifestState.put
  rw [← hcontent]
  exact gives_bind (gives_access _ _) (gives_bind (gives_access _ _) (gives_modify _ _))

theorem gives_refuse : Gives (pure false : Axml Bool) s false (s.lay out ([], false)) := by
  rw [lay_nothing]
  exact gives_pure _ _

theorem gives_utf8String (q e cap : Nat) :
    Gives (utf8String buf q e out cap) s (decodeOption cap ((storedUtf8 buf q e).map .utf8)).2
      (s.lay out (decodeOption cap ((storedUtf8 buf q e).map .utf8))) := by
  unfold utf8String storedUtf8
  refine gives_bind (gives_axmlU8len buf s q e) ?_
  rcases u8Length buf q e with _ | ⟨_, used1⟩
  · exact gives_refuse s out
  refine gives_bind (gives_axmlU8len buf s (q + used1) e) ?_
  dsimp only
  rcases u8Length buf (q + used1) e with _ | ⟨n8, used2⟩
  · exact gives_refuse s out
  dsimp only
  by_cases hlong : n8 > sizeSub e (q + used1 + used2)
  case pos =>
    rw [if_pos hlong, if_pos hlong]
    exact gives_refuse s out
  rw [if_neg hlong, if_neg hlong]
  have hmin : (if n8 < cap - 1 then n8 else cap - 1) = min n8 (cap - 1) := by
    split <;> omega
  have htake : ((List.range n8).map fun i => buf.getD (q + used1 + used2 + i) 0).take (cap - 1) =
      (List.range (min n8 (cap - 1))).map fun i => buf.getD (q + used1 + used2 + i) 0 := by
    rw [← List.map_take, List.take_range, Nat.min_comm]
  show Gives _ s true (s.lay out (((List.range n8).map _).take (cap - 1), true))
  rw [hmin, htake]
  refine gives_bind (gives_copyChars buf s out _ _) ?_
  have hfinish := gives_finish s out
    ((List.range (min n8 (cap - 1))).map fun i => buf.getD (q + used1 + used2 + i) 0)
  rwa [List.length_map, List.length_range] at hfinish

/-- The units that are read are in the buffer. -/
theorem holdsUnits_range (q units : Nat) :
    HoldsUnits buf q ((List.range units).map fun i => UInt16.ofNat (rd16 buf (q + i * 2))) := by
  intro i u rest hdrop
  have hget := congrArg List.head? hdrop
  rw [List.head?_drop, List.getElem?_map, List.head?_cons] at hget
  obtain ⟨j, hj, rfl⟩ := Option.map_eq_some_iff.1 hget
  obtain ⟨-, rfl⟩ := List.getElem?_eq_some_iff.1 hj
  rw [List.getElem_range]
  exact (UInt16.toNat_ofNat_of_lt' (rd16_lt _ _)).symm

theorem gives_utf16String (q e cap : Nat) :
    Gives (utf16String buf q e out cap) s (decodeOption cap ((storedUtf16 buf q e).map .utf16)).2
      (s.lay out (decodeOption cap ((storedUtf16 buf q e).map .utf16))) := by
  unfold utf16String storedUtf16
  refine gives_bind (gives_axmlU16len buf s q e) ?_
  rcases u16Length buf q e with _ | ⟨units, used⟩
  · exact gives_refuse s out
  dsimp only
  by_cases hlong : units > sizeSub e (q + used) / 2
  case pos =>
    rw [if_pos hlong, if_pos hlong]
    exact gives_refuse s out
  rw [if_neg hlong, if_neg hlong]
  have hholds := holdsUnits_range buf (q + used) units
  have hlength : ((List.range units).map fun i =>
      UInt16.ofNat (rd16 buf (q + used + i * 2))).length = units := by
    rw [List.length_map, List.length_range]
  generalize (List.range units).map (fun i => UInt16.ofNat (rd16 buf (q + used + i * 2))) = us
    at hholds hlength
  subst hlength
  obtain ⟨hunits, htail⟩ := utf16_textOf us
  have hloop : Gives (utf16Loop buf (q + used) us.length out cap (us.length + 1) 0 0) s
      (writtenTo 0 (decodeText (cap - 0) (textOf us).2 (textOf us).1)) _ :=
    gives_utf16Loop hholds htail _ hunits.symm (by omega) (by omega)
  refine gives_bind hloop ?_
  show Gives _ _ (decodeText cap (textOf us).2 (textOf us).1).2
    (s.lay out (decodeText cap (textOf us).2 (textOf us).1))
  rw [Nat.sub_zero]
  rcases decodeText cap (textOf us).2 (textOf us).1 with ⟨text, _ | _⟩
  · exact gives_pure _ _
  · have hreturn : writtenTo 0 (text, true) = some text.length := congrArg some (Nat.zero_add _)
    rw [hreturn]
    exact gives_finish s out text

/-- `axml_string` writes what the string at the index comes to, and returns 0 for one that is
accepted. -/
theorem gives_axmlString (sp : AxmlStrings) (idx cap : Nat) :
    Gives (axmlString buf sp idx out cap) s (sp.decode buf idx cap).2
      (s.lay out (sp.decode buf idx cap)) := by
  unfold axmlString AxmlStrings.decode AxmlStrings.stored
  dsimp only
  by_cases hcap : cap = 0
  case pos =>
    rw [if_pos hcap, if_pos (Or.inl hcap)]
    exact gives_refuse s out
  rw [if_neg hcap]
  by_cases hidx : idx ≥ sp.count
  case pos =>
    rw [if_pos hidx, if_pos (Or.inr hidx)]
    exact gives_refuse s out
  rw [if_neg hidx, if_neg fun h => h.elim hcap hidx]
  split
  · exact gives_refuse s out
  refine gives_bind (gives_readU32 buf s _) ?_
  split
  · exact gives_refuse s out
  split
  · exact gives_utf8String buf s out _ _ _
  · exact gives_utf16String buf s out _ _ _

end Strings

/-! ## Valid strings -/

/-- A text that fits is written in front of what follows it. -/
theorem decodeText_append {room : Nat} {ds : List Char} (h : (utf8 ds).length < room)
    (tail : List UInt16) (cs : List Char) :
    decodeText room tail (ds ++ cs) =
      (utf8 ds ++ (decodeText (room - (utf8 ds).length) tail cs).1,
        (decodeText (room - (utf8 ds).length) tail cs).2) := by
  induction ds generalizing room with
  | nil => rfl
  | cons d ds ih =>
      rw [utf8_cons, List.length_append] at h
      rw [List.cons_append, decodeText_fits (by omega), ih (by omega), utf8_cons,
        List.length_append,
        List.append_assoc, Nat.sub_sub]

/-- The string ends with the first unit of two, which is reached. -/
def EndsHigh (cap : Nat) (string : Option Stored) : Prop :=
  ∃ cs u, string = some (.utf16 (utf16 cs ++ [u])) ∧ IsHigh u ∧ (utf8 cs).length + 1 < cap

/-- What is accepted is a text, but for a first unit of two at the end. -/
theorem decodeText_valid {room : Nat} {tail : List UInt16} {cs : List Char} {text : Bytes}
    (hroom : 0 < room) (htail : Ends tail)
    (hhigh : ∀ u, tail = [u] → IsHigh u → room ≤ (utf8 cs).length + 1)
    (h : decodeText room tail cs = (text, true)) :
    ∃ ds, ds <+: cs ∧ text = utf8 ds ∧ (utf8 ds).length < room := by
  induction cs generalizing room text with
  | nil =>
      suffices htext : text = [] by exact ⟨[], List.prefix_rfl, htext, hroom⟩
      cases tail with
      | nil => exact (congrArg Prod.fst h).symm
      | cons u rest =>
          rw [decodeText, decodeTail] at h
          split_ifs at h with hfull hrefused hthree
          · exact (congrArg Prod.fst h).symm
          · cases congrArg Prod.snd h
          · obtain ⟨hlow, hrest⟩ := not_or.1 hrefused
            have hfew := hhigh u (by rw [not_not.1 hrest]) (htail.resolve_left hlow).1
            rw [utf8_nil, List.length_nil] at hfew
            omega
          · exact (congrArg Prod.fst h).symm
  | cons c cs ih =>
      by_cases hfull : room ≤ 1
      case pos =>
        rw [decodeText_full hfull] at h
        exact ⟨[], List.nil_prefix, (congrArg Prod.fst h).symm, hroom⟩
      by_cases hfits : (String.utf8EncodeChar c).length < room
      case pos =>
        rw [decodeText_fits hfits] at h
        obtain ⟨htext, hok⟩ := Prod.mk.inj h
        have hhigh' : ∀ u, tail = [u] → IsHigh u →
            room - (String.utf8EncodeChar c).length ≤ (utf8 cs).length + 1 := by
          intro u hu hu'
          have hfew := hhigh u hu hu'
          rw [utf8_cons, List.length_append] at hfew
          omega
        obtain ⟨ds, hds, hrest, hlength⟩ := ih (by omega) hhigh' (Prod.ext rfl hok)
        refine ⟨c :: ds, List.cons_prefix_cons.2 ⟨rfl, hds⟩, ?_, ?_⟩
        · rw [utf8_cons, ← hrest, htext]
        · rw [utf8_cons, List.length_append]
          omega
      case neg =>
        rw [decodeText_short (by omega) (by omega)] at h
        exact ⟨[], List.nil_prefix, (congrArg Prod.fst h).symm, hroom⟩

/-- An array holds a text and its end. -/
def Spells (content : Nat → UInt8) (text : Bytes) : Prop :=
  (∀ i < text.length, content i = text.getD i 0) ∧ content text.length = 0

theorem spells_laid (content : Nat → UInt8) (text : Bytes) :
    Spells (laid content (text, true)) text := by
  have hlaid : ∀ i ≤ text.length, laid content (text, true) i = (text ++ [0]).getD i 0 := by
    intro i hi
    have hin : i < 0 + (text ++ [0]).length := by
      rw [List.length_append, List.length_singleton]
      omega
    exact if_pos ⟨Nat.zero_le _, hin⟩
  refine ⟨fun i hi => ?_, ?_⟩
  · rw [hlaid i hi.le, List.getD_append _ _ _ _ hi]
  · rw [hlaid _ le_rfl, List.getD_append_right _ _ _ _ le_rfl, Nat.sub_self]
    rfl

/-- What `axml_string` should do with the string at an index, for an array of `cap` bytes. -/
structure Decoded (string : Option Stored) (cap : Nat) (ok : Bool)
    (content : Nat → UInt8) : Prop where
  valid : ok = true → ∃ units cs, string = some (.utf16 units) ∧ utf16 cs <+: units ∧
    (utf8 cs).length < cap ∧ Spells content (utf8 cs)
  complete : ∀ cs, string = some (.utf16 (utf16 cs)) → (utf8 cs).length < cap →
    ok = true ∧ Spells content (utf8 cs)
  refused : ∀ cs u rest, string = some (.utf16 (utf16 cs ++ u :: rest)) → Unpaired u rest →
    (utf8 cs).length + 1 < cap → ok = false

/-- A pool without the flag has strings in UTF-16 only. -/
theorem stored_utf16 {buf : Bytes} {sp : AxmlStrings} {idx : Nat} {string : Stored}
    (hflags : sp.flags &&& 0x100 = 0) (h : sp.stored buf idx = some string) :
    ∃ units, string = .utf16 units := by
  unfold AxmlStrings.stored at h
  dsimp only at h
  rw [if_neg (not_not.2 hflags)] at h
  split_ifs at h
  obtain ⟨units, -, rfl⟩ := Option.map_eq_some_iff.1 h
  exact ⟨units, rfl⟩

/-- In UTF-16 the decoded strings are valid exactly where no string ends with the first unit of
two. -/
theorem decoded_iff {buf : Bytes} {sp : AxmlStrings} {cap : Nat} (hflags : sp.flags &&& 0x100 = 0)
    (hcap : 1 ≤ cap) (idx : Nat) (out : Chars) (s : ManifestState) :
    ∃ ok, (axmlString buf sp idx out cap s).1 = .ok ok ∧
      (Decoded (sp.stored buf idx) cap ok ((axmlString buf sp idx out cap s).2.1.chars out) ↔
        ¬ EndsHigh cap (sp.stored buf idx)) := by
  obtain ⟨hok, hstate⟩ := gives_axmlString buf s out sp idx cap
  refine ⟨_, hok, ?_⟩
  have hcontent : (s.lay out (sp.decode buf idx cap)).chars out =
      laid (s.chars out) (sp.decode buf idx cap) := Function.update_self ..
  rw [hstate, hcontent]
  have hdecode : ∀ cs tail, sp.stored buf idx = some (.utf16 (utf16 cs ++ tail)) → Ends tail →
      sp.decode buf idx cap = decodeText cap tail cs := by
    intro cs tail hstored htail
    unfold AxmlStrings.decode
    rw [if_neg (by omega), hstored]
    show decodeText cap (textOf _).2 (textOf _).1 = _
    rw [textOf_utf16 cs htail]
  -- a text in front of a unit without the other one
  have htail : ∀ cs u rest, sp.stored buf idx = some (.utf16 (utf16 cs ++ u :: rest)) →
      Unpaired u rest → (utf8 cs).length + 1 < cap →
      (sp.decode buf idx cap).2 = (decodeTail (cap - (utf8 cs).length) (u :: rest)).2 := by
    intro cs u rest hstored hu hroom
    rw [hdecode cs _ hstored hu]
    have happend := decodeText_append (show (utf8 cs).length < cap by omega) (u :: rest) []
    rw [List.append_nil] at happend
    rw [happend, decodeText]
  constructor
  · rintro ⟨-, -, hrefused⟩ ⟨cs, u, hstored, hhigh, hroom⟩
    have hu : Unpaired u [] := Or.inr ⟨hhigh, nofun⟩
    have hfalse := hrefused cs u [] hstored hu hroom
    have hlow : ¬ IsLow u := fun h => absurd (Nat.le_trans h.1 hhigh.2) (by decide)
    have hlast : ¬ (IsLow u ∨ ([] : List UInt16) ≠ []) := fun h => h.elim hlow fun h => h rfl
    rw [htail cs u [] hstored hu hroom, decodeTail, if_neg (by omega), if_neg hlast] at hfalse
    split at hfalse <;> cases hfalse
  · intro hhigh
    refine ⟨fun hok => ?_, fun cs hstored hfits => ?_, fun cs u rest hstored hu hroom => ?_⟩
    · cases hstring : sp.stored buf idx with
      | none =>
          unfold AxmlStrings.decode at hok
          rw [if_neg (by omega), hstring] at hok
          cases hok
      | some string =>
          obtain ⟨units, rfl⟩ := stored_utf16 hflags hstring
          obtain ⟨hunits, hends⟩ := utf16_textOf units
          have hstored : sp.stored buf idx =
              some (.utf16 (utf16 (textOf units).1 ++ (textOf units).2)) := by rw [hunits, hstring]
          have htext := hdecode _ _ hstored hends
          rw [htext] at hok
          obtain ⟨ds, hds, htext', hlength⟩ := decodeText_valid hcap hends
            (fun u hu hu' => not_lt.1 fun hroom => hhigh ⟨_, u, hu ▸ hstored, hu', hroom⟩)
            (Prod.ext rfl hok)
          refine ⟨units, ds, rfl, ?_, hlength, ?_⟩
          · obtain ⟨more, hmore⟩ := hds
            rw [← hunits, ← hmore, utf16_append, List.append_assoc]
            exact List.prefix_append _ _
          · have hall : decodeText cap (textOf units).2 (textOf units).1 = (utf8 ds, true) :=
              Prod.ext htext' hok
            rw [htext, hall]
            exact spells_laid _ _
    · have hall : sp.decode buf idx cap = (utf8 cs, true) := by
        have happend := decodeText_append hfits [] []
        rw [List.append_nil] at happend
        rw [hdecode cs [] (by rw [List.append_nil, hstored]) trivial, happend,
          decodeText, decodeTail,
          List.append_nil]
      rw [hall]
      exact ⟨rfl, spells_laid _ _⟩
    · rw [htail cs u rest hstored hu hroom, decodeTail, if_neg (by omega)]
      by_cases hlow : IsLow u
      case pos => rw [if_pos (Or.inl hlow)]
      cases rest with
      | nil => exact absurd ⟨cs, u, hstored, (hu.resolve_left hlow).1, hroom⟩ hhigh
      | cons v rest => rw [if_pos (Or.inr (List.cons_ne_nil _ _))]

/-- A pool of one string, with the unit 0xd800 alone. -/
def loneString : Bytes :=
  [0x01, 0, 0x1c, 0, 0x28, 0, 0, 0, 1, 0, 0, 0, 0, 0, 0, 0, 0, 0, 0, 0, 0x20, 0, 0, 0,
    0, 0, 0, 0] ++
    [0, 0, 0, 0] ++ [1, 0, 0x00, 0xd8, 0, 0, 0, 0]

def lonePool : AxmlStrings :=
  { base := 0, size := 40, count := 1, flags := 0, stringsStart := 32, headerSize := 28 }

/-- The arrays and numbers before anything is read. -/
def blank : ManifestState :=
  { chars := fun _ _ => 0, versionCode := -1, minSdk := -1, targetSdk := -1 }

theorem loneString_stored : lonePool.stored loneString 0 = some (.utf16 [0xd800]) := by decide

/-- The unit of `loneString` is accepted. -/
theorem lone_accepted : ¬ ∀ (buf : Bytes) (sp : AxmlStrings) (idx cap : Nat) (out : Chars)
    (s : ManifestState), sp.flags &&& 0x100 = 0 → 1 ≤ cap →
    ∃ ok, (axmlString buf sp idx out cap s).1 = .ok ok ∧
      Decoded (sp.stored buf idx) cap ok ((axmlString buf sp idx out cap s).2.1.chars out) := by
  intro h
  obtain ⟨ok, hok, hdecoded⟩ := h loneString lonePool 0 128 .package blank rfl (by decide)
  have haccepted : (axmlString loneString lonePool 0 .package 128 blank).1 = .ok true := rfl
  have hrefused := hdecoded.refused [] 0xd800 [] loneString_stored
    (Or.inr ⟨by decide, nofun⟩) (by decide)
  rw [haccepted, hrefused] at hok
  cases hok

/-- With room for the end only, nothing of `loneString` is decoded. -/
theorem decoded_iff_lone : ∃ ok, (axmlString loneString lonePool 0 .package 1 blank).1 = .ok ok ∧
    (Decoded (lonePool.stored loneString 0) 1 ok
        ((axmlString loneString lonePool 0 .package 1 blank).2.1.chars .package) ↔
      ¬ EndsHigh 1 (lonePool.stored loneString 0)) :=
  decoded_iff rfl le_rfl 0 .package blank

end Asnx.Installer
