import Asnx.Installer.ManifestStrings

/-!
# What a refused string leaves behind

`axml_string` writes as it goes, so a string that is refused has left the text in front of the place
where it is refused (`RefusedAfter`). `parse_android_manifest` does not look at what the functions
return: it trusts what it finds in `g_manifest_package`. An array that already begins with that text
stays as it is, and where that is so for every package attribute the package that is trusted is one
that was accepted (`traces_iff`).
-/

namespace Asnx.Installer

open Files Tracing Unicode

/-! ## Refused strings -/

/-- Units that are refused behind a text, by an array of `room` bytes: one of two units without the
other, unless it is the very last, or two units that do not fit. -/
def RefusedIn (room : Nat) (units : List UInt16) (cs : List Char) : Prop :=
  ∃ u rest, units = utf16 cs ++ u :: rest ∧ (utf8 cs).length + 1 < room ∧
    (IsLow u ∨ IsHigh u ∧ rest ≠ [] ∧
      ((∀ v ∈ rest.head?, ¬ IsLow v) ∨ room ≤ (utf8 cs).length + 4))

/-- A string in UTF-16 that is refused behind a text. -/
def RefusedAfter (cap : Nat) (string : Option Stored) (cs : List Char) : Prop :=
  ∃ units, string = some (.utf16 units) ∧ RefusedIn cap units cs

/-- An array begins with some bytes. -/
def Begins (content : Nat → UInt8) (text : Bytes) : Prop :=
  ∀ i < text.length, content i = text.getD i 0

/-- What has been written in front of the place where a string is refused. By induction on its
text. -/
theorem refusedIn_of_decodeText {room : Nat} {tail : List UInt16} {cs : List Char} {text : Bytes}
    (htail : Ends tail) (h : decodeText room tail cs = (text, false)) :
    ∃ ds, text = utf8 ds ∧ RefusedIn room (utf16 cs ++ tail) ds := by
  induction cs generalizing room text with
  | nil =>
      cases tail with
      | nil => cases congrArg Prod.snd h
      | cons u rest =>
          rw [decodeText, decodeTail] at h
          -- only a unit that is refused gives up
          split_ifs at h with hfull hrefused hthree
          · cases congrArg Prod.snd h
          · refine ⟨[], (congrArg Prod.fst h).symm, u, rest, rfl, ?_, ?_⟩
            · show 0 + 1 < room
              omega
            · by_cases hlow : IsLow u
              case pos => exact Or.inl hlow
              case neg =>
                obtain ⟨hhigh, hnext⟩ := htail.resolve_left hlow
                exact Or.inr ⟨hhigh, hrefused.resolve_left hlow, Or.inl hnext⟩
          · cases congrArg Prod.snd h
          · cases congrArg Prod.snd h
  | cons c cs ih =>
      by_cases hfull : room ≤ 1
      case pos =>
        rw [decodeText_full hfull] at h
        cases congrArg Prod.snd h
      -- a character that fits is kept; of those that do not only a pair of surrogates is refused
      by_cases hfits : (String.utf8EncodeChar c).length < room
      case pos =>
        rw [decodeText_fits hfits] at h
        obtain ⟨htext, hok⟩ := Prod.mk.inj h
        obtain ⟨ds, hds, u, rest, hunits, hroom, hcases⟩ := ih (Prod.ext rfl hok)
        refine ⟨c :: ds, ?_, u, rest, ?_, ?_, ?_⟩
        · rw [utf8_cons, ← hds, htext]
        · rw [utf16_cons, utf16_cons, List.append_assoc, List.append_assoc, hunits]
        · rw [utf8_cons, List.length_append]
          omega
        · refine hcases.imp_right fun h => ⟨h.1, h.2.1, h.2.2.imp_right fun h => ?_⟩
          rw [utf8_cons, List.length_append]
          omega
      case neg =>
        rw [decodeText_short (by omega) (by omega)] at h
        obtain ⟨rfl, hsmall⟩ := Prod.mk.inj h
        have hlarge := of_decide_eq_false hsmall
        have hlength : (String.utf8EncodeChar c).length = 4 := by
          rw [encode_four (not_lt.1 hlarge)]
          rfl
        rcases encode_cases c with ⟨hc, -⟩ | ⟨-, u, v, huv, hhigh, -, -⟩
        · exact absurd hc hlarge
        · refine ⟨[], rfl, u, v :: (utf16 cs ++ tail), ?_, ?_, ?_⟩
          · rw [utf16_cons, huv]
            rfl
          · show 0 + 1 < room
            omega
          · refine Or.inr ⟨hhigh, List.cons_ne_nil _ _, Or.inr ?_⟩
            show room ≤ 0 + 4
            omega

/-- The other way round: units that are refused behind a text leave that text. -/
theorem decodeText_of_refusedIn {room : Nat} {units : List UInt16} {cs : List Char}
    (h : RefusedIn room units cs) :
    decodeText room (textOf units).2 (textOf units).1 = (utf8 cs, false) := by
  obtain ⟨u, rest, rfl, hroom, hcases⟩ := h
  have happend := decodeText_append (show (utf8 cs).length < room by omega)
  by_cases hends : Unpaired u rest
  case pos =>
    have hbehind := happend (u :: rest) []
    have hrefused : IsLow u ∨ rest ≠ [] := hcases.imp_right fun h => h.2.1
    rw [textOf_utf16 cs (show Ends (u :: rest) from hends)]
    rw [List.append_nil, decodeText, decodeTail, if_neg (by omega), if_pos hrefused,
      List.append_nil] at hbehind
    exact hbehind
  case neg =>
    -- two units that are a character
    obtain ⟨hhigh, -, hcases⟩ := hcases.resolve_left fun hlow => hends (Or.inl hlow)
    have hpaired : ¬ ∀ v ∈ rest.head?, ¬ IsLow v := fun h => hends (Or.inr ⟨hhigh, h⟩)
    have hfull := hcases.resolve_left hpaired
    cases rest with
    | nil => exact absurd (fun v hv => absurd hv (Option.not_mem_none v)) hpaired
    | cons v rest =>
        have hlow : IsLow v := by
          by_contra hlow
          refine hpaired ?_
          rintro v ⟨⟩
          exact hlow
        obtain ⟨hunits, htail⟩ := utf16_textOf rest
        have hall : utf16 cs ++ u :: v :: rest =
            utf16 (cs ++ pairChar u v :: (textOf rest).1) ++ (textOf rest).2 := by
          rw [utf16_append, utf16_cons, encode_pairChar hhigh hlow, List.append_assoc,
            List.append_assoc, hunits]
          rfl
        have hlarge : 0x10000 ≤ (pairChar u v).toNat := by
          rw [toNat_pairChar hhigh hlow]
          omega
        have hlength : (String.utf8EncodeChar (pairChar u v)).length = 4 := by
          rw [encode_four hlarge]
          rfl
        rw [hall, textOf_utf16 _ htail, happend, decodeText_short (by omega) (by omega),
          decide_eq_false (not_lt.2 hlarge), List.append_nil]

/-- A string is refused with something written exactly if it is refused behind a text. -/
theorem decode_refused {cap : Nat} {string : Option Stored} {text : Bytes} :
    decodeOption cap string = (text, false) ↔
      (string = none ∧ text = []) ∨ ∃ cs, text = utf8 cs ∧ RefusedAfter cap string cs := by
  constructor
  · intro h
    rcases string with _ | content | units
    · exact Or.inl ⟨rfl, (congrArg Prod.fst h).symm⟩
    · cases congrArg Prod.snd h
    · obtain ⟨hunits, htail⟩ := utf16_textOf units
      obtain ⟨ds, htext, hrefused⟩ := refusedIn_of_decodeText htail h
      rw [hunits] at hrefused
      exact Or.inr ⟨ds, htext, units, rfl, hrefused⟩
  · rintro (⟨rfl, rfl⟩ | ⟨cs, rfl, units, rfl, hrefused⟩)
    · rfl
    · exact decodeText_of_refusedIn hrefused

/-- Bytes that an array begins with change nothing. -/
theorem laid_refused {content : Nat → UInt8} {text : Bytes} :
    laid content (text, false) = content ↔ Begins content text := by
  have hlaid : ∀ j, laid content (text, false) j = if j <
      text.length then text.getD j 0 else content j := by
    intro j
    show written content 0 text j = _
    unfold written
    rw [Nat.zero_add, Nat.sub_zero]
    exact if_congr ⟨And.right, fun h => ⟨Nat.zero_le _, h⟩⟩ rfl rfl
  constructor
  · intro h i hi
    have hbyte := congrFun h i
    rwa [hlaid, if_pos hi, eq_comm] at hbyte
  · intro h
    funext j
    rw [hlaid]
    split
    · exact (h j ‹_›).symm
    · rfl

/-- A string leaves no trace where it is refused, as the array begins with what is written. -/
def Traceless (cap : Nat) (content : Nat → UInt8) (string : Option Stored) : Prop :=
  ∀ cs, RefusedAfter cap string cs → Begins content (utf8 cs)

/-- A refused string leaves the array unchanged exactly if it leaves no trace. -/
theorem unchanged_iff {cap : Nat} {content : Nat → UInt8} {string : Option Stored} :
    ((decodeOption cap string).2 = false → laid content (decodeOption cap string) = content) ↔
      Traceless cap content string := by
  constructor
  · intro h cs hrefused
    have hdecode := decode_refused.2 (Or.inr ⟨cs, rfl, hrefused⟩)
    rw [hdecode] at h
    exact laid_refused.1 (h rfl)
  · intro h hok
    have hdecode : decodeOption cap string = ((decodeOption cap string).1, false) :=
      Prod.ext rfl hok
    rw [hdecode, laid_refused]
    rcases decode_refused.1 hdecode with ⟨-, htext⟩ | ⟨cs, htext, hrefused⟩
    · rw [htext]
      exact fun i hi => absurd hi (Nat.not_lt_zero i)
    · rw [htext]
      exact h cs hrefused

/-! ## Attributes -/

/-- The index of the string of an attribute, in `axml_attr_string`. -/
def attrIndex (buf : Bytes) (a e : Nat) : Option Nat :=
  if sizeSub e a < 20 then none
  else if rd32 buf (a + 8) ≠ 0xffffffff then some (rd32 buf (a + 8))
  else if (buf.getD (a + 15) 0).toNat = 0x03 then some (rd32 buf (a + 16))
  else none

/-- The string of an attribute, if there is one. -/
def AxmlStrings.attrStored (sp : AxmlStrings) (buf : Bytes) (a e : Nat) : Option Stored :=
  (attrIndex buf a e).bind (sp.stored buf)

section Attributes

variable (buf : Bytes) (s : ManifestState) (out : Chars) (sp : AxmlStrings)

theorem decode_pos {sp : AxmlStrings} {buf : Bytes} {idx cap : Nat} (hcap : 0 < cap) :
    sp.decode buf idx cap = decodeOption cap (sp.stored buf idx) := if_neg hcap.ne'

/-- `axml_attr_string` does what `axml_string` does with the string of the attribute. -/
theorem gives_axmlAttrString (a e : Nat) {cap : Nat} (hcap : 0 < cap) :
    Gives (axmlAttrString buf sp a e out cap) s (decodeOption cap (sp.attrStored buf a e)).2
      (s.lay out (decodeOption cap (sp.attrStored buf a e))) := by
  unfold axmlAttrString AxmlStrings.attrStored attrIndex
  split
  · exact gives_refuse s out
  refine gives_bind (gives_readU32 buf s _) ?_
  refine gives_bind (gives_readU8 buf s _) ?_
  refine gives_bind (gives_readU32 buf s _) ?_
  split
  · have hstring := gives_axmlString buf s out sp (rd32 buf (a + 8)) cap
    rwa [decode_pos hcap] at hstring
  split
  · have hstring := gives_axmlString buf s out sp (rd32 buf (a + 16)) cap
    rwa [decode_pos hcap] at hstring
  · exact gives_refuse s out

/-- With no room at all everything is refused. -/
theorem gives_axmlAttrString_zero (a e : Nat) :
    Gives (axmlAttrString buf sp a e out 0) s false s := by
  have hstring : ∀ idx, Gives (axmlString buf sp idx out 0) s false s := fun idx =>
    gives_if_pos (Or.inl rfl) (gives_pure _ _)
  unfold axmlAttrString
  split
  · exact gives_pure _ _
  refine gives_bind (gives_readU32 buf s _) (gives_bind (gives_readU8 buf s _) ?_)
  refine gives_bind (gives_readU32 buf s _) ?_
  split
  · exact hstring _
  split
  · exact hstring _
  · exact gives_pure _ _

/-- An attempt to fill an array leaves it unchanged exactly if it leaves no trace. -/
theorem unchanged_of_gives {p : Axml Bool} {cap : Nat} {string : Option Stored}
    (hzero : cap = 0 → Gives p s false s)
    (hgives : 0 < cap → Gives p s (decodeOption cap string).2
      (s.lay out (decodeOption cap string))) :
    ∃ ok, (p s).1 = .ok ok ∧
      ((ok = false → (p s).2.1.chars out = s.chars out) ↔ Traceless cap (s.chars out) string) := by
  rcases Nat.eq_zero_or_pos cap with rfl | hcap
  · obtain ⟨hok, hstate⟩ := hzero rfl
    refine ⟨false, hok, fun _ cs hrefused => ?_, fun _ _ => by rw [hstate]⟩
    obtain ⟨-, -, -, -, -, hroom, -⟩ := hrefused
    exact absurd hroom (Nat.not_lt_zero _)
  · obtain ⟨hok, hstate⟩ := hgives hcap
    have hcontent : (s.lay out (decodeOption cap string)).chars out =
        laid (s.chars out) (decodeOption cap string) := Function.update_self ..
    rw [hstate, hcontent]
    exact ⟨_, hok, unchanged_iff⟩

end Attributes

/-! ## The package attributes of a manifest -/

/-- The string of some bytes, which ends at the first zero. -/
def cString (text : Bytes) : Bytes := text.takeWhile (· ≠ 0)

/-- A string is accepted, and it is this one. -/
def DecodesTo (cap : Nat) (string : Option Stored) (text : Bytes) : Prop :=
  (decodeOption cap string).2 = true ∧ cString (decodeOption cap string).1 = text

instance (cap : Nat) (string : Option Stored) (text : Bytes) :
    Decidable (DecodesTo cap string text) :=
  inferInstanceAs (Decidable (_ ∧ _))

theorem decodesTo_iff {cap : Nat} {string : Option Stored} {name text : Bytes} {ok : Bool}
    (h : decodeOption cap string = (text, ok)) :
    DecodesTo cap string name ↔ ok = true ∧ cString text = name := by
  unfold DecodesTo
  rw [h]

/-- The strings of the attributes of an element with the name `package`; the list holds their
indices. -/
def packageAttributes (buf : Bytes) (sp : AxmlStrings) (attrs attrSize e : Nat) (is : List Nat) :
    List (Option Stored) :=
  (is.filter fun i => DecodesTo Chars.key.size (sp.stored buf (rd32 buf (attrs + i * attrSize + 4)))
    (bytes "package")).map fun i => sp.attrStored buf (attrs + i * attrSize) e

/-- The strings of the package attributes of an element, none but for an element with the name
`manifest`. -/
def elementPackages (buf : Bytes) (sp : AxmlStrings) (chunk cs : Nat) : List (Option Stored) :=
  let attrStart := rd16 buf (chunk + 16 + 8)
  let attrSize := rd16 buf (chunk + 16 + 10)
  let attrCount := rd16 buf (chunk + 16 + 12)
  if DecodesTo Chars.elem.size (sp.stored buf (rd32 buf (chunk + 16 + 4))) (bytes "manifest") ∧
      attrSize ≥ 20 ∧ chunk + 16 + attrStart ≤ chunk + cs ∧
      sizeSub (chunk + cs) (chunk + 16 + attrStart) ≥ attrSize * attrCount then
    packageAttributes buf sp (chunk + 16 + attrStart) attrSize (chunk + cs) (List.range attrCount)
  else []

/-- The strings of the package attributes of the chunks from a position on, with the pool of strings
read last. -/
def chunkPackages (buf : Bytes) : Nat → Option AxmlStrings → Nat → List (Option Stored)
  | 0, _, _ => []
  | fuel + 1, sp, pos =>
      let type := rd16 buf pos
      let hs := rd16 buf (pos + 2)
      let cs := rd32 buf (pos + 4)
      if pos + 8 > buf.length then []
      else if cs < 8 ∨ hs < 8 ∨ hs > cs ∨ cs > sizeSub buf.length pos then []
      else if type = 0x0001 ∧ hs ≥ 28 then
        chunkPackages buf fuel (some
          { base := pos, size := cs, count := rd32 buf (pos + 8), flags := rd32 buf (pos + 16),
            stringsStart := rd32 buf (pos + 20), headerSize := hs }) (pos + cs)
      else
        match sp with
        | some pool =>
            if type = 0x0102 ∧ hs ≥ 16 ∧ cs ≥ 36 then
              elementPackages buf pool pos cs ++ chunkPackages buf fuel sp (pos + cs)
            else chunkPackages buf fuel sp (pos + cs)
        | none => chunkPackages buf fuel sp (pos + cs)

/-- The strings of all package attributes of manifest elements, in the order of the file. -/
def manifestPackages (buf : Bytes) : List (Option Stored) :=
  chunkPackages buf (buf.length + 1) none (rd16 buf 2)

/-! ## What the parser does to the array of the package -/

section Parser

variable {s : ManifestState} {out : Chars}

/-- `strcmp` with a constant -/
def spells (content : Nat → UInt8) : Nat → Bytes → Bool
  | i, [] => decide (content i = 0)
  | i, c :: cs => if content i = c then spells content (i + 1) cs else false

/-- By induction on the constant. -/
theorem gives_charsAre (i : Nat) (cs : Bytes) :
    Gives (charsAre out i cs) s (spells (s.chars out) i cs) s := by
  have hchar : ∀ i, Gives (getChar out i) s (s.chars out i) s := fun i =>
    gives_bind (gives_access _ _) (gives_look _ _)
  induction cs generalizing i with
  | nil => exact gives_bind (hchar i) (gives_pure _ _)
  | cons c cs ih =>
      refine gives_bind (hchar i) ?_
      rw [spells]
      split
      · exact ih (i + 1)
      · exact gives_pure _ _

/-- The string that an array holds, by induction on what it is compared with. -/
theorem spells_iff {content : Nat → UInt8} {text name : Bytes} {i : Nat} (hname : 0 ∉ name)
    (hzero : 0 ∈ text) (h : ∀ k < text.length, content (i + k) = text.getD k 0) :
    spells content i name = decide (cString text = name) := by
  induction name generalizing text i with
  | nil =>
      cases text with
      | nil => exact absurd hzero List.not_mem_nil
      | cons b text =>
          have hb : content i = b := h 0 (Nat.succ_pos _)
          rw [spells, hb, decide_eq_decide]
          unfold cString
          rw [List.takeWhile_cons]
          by_cases hzero : b = 0
          case pos => simp [hzero]
          case neg => simp [hzero]
  | cons c name ih =>
      obtain ⟨hc, hname'⟩ := not_or.1 fun h => hname (List.mem_cons.2 h)
      cases text with
      | nil => exact absurd hzero List.not_mem_nil
      | cons b text =>
          have hb : content i = b := h 0 (Nat.succ_pos _)
          rw [spells, hb]
          have hnext : ∀ k < text.length, content (i + 1 + k) = text.getD k 0 := by
            intro k hk
            have hbyte := h (k + 1) (Nat.succ_lt_succ hk)
            rwa [List.getD_cons_succ, Nat.add_comm k, ← Nat.add_assoc] at hbyte
          have hstring : cString (b :: text) = if b ≠ 0 then b :: cString text else [] := by
            unfold cString
            rw [List.takeWhile_cons]
            by_cases hb : b = 0 <;> simp [hb]
          by_cases hbc : b = c
          case pos =>
            subst hbc
            have hb' : b ≠ 0 := fun h => hc h.symm
            have hrest : 0 ∈ text := (List.mem_cons.1 hzero).resolve_left hc
            rw [if_pos rfl, ih hname' hrest hnext, hstring, if_pos hb', decide_eq_decide]
            exact ⟨fun h => by rw [h], fun h => (List.cons.inj h).2⟩
          case neg =>
            rw [if_neg hbc, hstring, eq_comm, decide_eq_false_iff_not]
            split
            · exact fun h => hbc (List.cons.inj h).1
            · exact (List.cons_ne_nil c name).symm

/-- The string of an array after a string that is accepted. -/
theorem spells_laid_accepted {content : Nat → UInt8} {text name : Bytes} (hname : 0 ∉ name) :
    spells (laid content (text, true)) 0 name = decide (cString text = name) := by
  have hstring : cString (text ++ [0]) = cString text := by
    unfold cString
    induction text with
    | nil => rfl
    | cons b text ih => rw [List.cons_append, List.takeWhile_cons, List.takeWhile_cons, ih]
  rw [← hstring]
  refine spells_iff hname (List.mem_append_right _ List.mem_cons_self) fun k hk => ?_
  rw [Nat.zero_add]
  show written content 0 (text ++ [0]) k = _
  exact if_pos ⟨Nat.zero_le _, by omega⟩

theorem gives_getText : Gives (getText out) s (s.text out) s :=
  gives_bind (gives_look _ _) (gives_bind (gives_access _ _) (gives_pure _ _))

/-- Arrays that nothing is written to. -/
theorem put_other {other : Chars} (h : other ≠ out) (s : ManifestState) (i : Nat) (text : Bytes) :
    (s.put out i text).chars other = s.chars other := Function.update_of_ne h _ _

theorem put_same (s : ManifestState) (out : Chars) (i : Nat) (text : Bytes) :
    (s.put out i text).chars out = written (s.chars out) i text := Function.update_self ..

theorem lay_other {other : Chars} (h : other ≠ out) (s : ManifestState) (d : Bytes × Bool) :
    (s.lay out d).chars other = s.chars other := Function.update_of_ne h _ _

theorem lay_same (s : ManifestState) (out : Chars) (d : Bytes × Bool) :
    (s.lay out d).chars out = laid (s.chars out) d := Function.update_self ..

/-- `axml_attr_int` has its own array. -/
theorem gives_axmlAttrInt (buf : Bytes) (sp : AxmlStrings) (s : ManifestState) (a e : Nat)
    {set : Int → ManifestState → ManifestState} (hset : ∀ v s, (set v s).chars = s.chars) :
    ∃ ok s', Gives (axmlAttrInt buf sp a e set) s ok s' ∧ ∀ out ≠ .tmp, s'.chars out =
      s.chars out := by
  unfold axmlAttrInt
  split
  · exact ⟨false, s, gives_pure _ _, fun _ _ => rfl⟩
  have hbefore : ∀ {p : Nat → Nat → Axml Bool} {ok : Bool} {s' : ManifestState},
      Gives (p (buf.getD (a + 15) 0).toNat (rd32 buf (a + 16))) s ok s' →
      Gives (readU8 buf (a + 15) >>= fun type => readU32 buf (a + 16) >>= fun data => p type data)
        s ok s' := fun h =>
    gives_bind (gives_readU8 buf s _) (gives_bind (gives_readU32 buf s _) h)
  by_cases htype : (buf.getD (a + 15) 0).toNat = 0x10 ∨ (buf.getD (a + 15) 0).toNat = 0x11
  case pos =>
    refine ⟨true, _, hbefore (gives_if_pos htype (gives_bind (gives_modify _ _) (gives_pure _ _))),
      ?_⟩
    exact fun out _ => congrFun (hset _ s) out
  have hstring := gives_axmlAttrString buf s .tmp sp a e (show 0 < Chars.tmp.size by decide)
  generalize decodeOption Chars.tmp.size (sp.attrStored buf a e) = d at hstring
  rcases hd : d.2 with _ | _
  · rw [hd] at hstring
    exact ⟨false, _, hbefore (gives_if_neg htype (gives_bind hstring (gives_pure _ _))),
      fun out hout => lay_other hout s d⟩
  · rw [hd] at hstring
    have hnumber : ∃ ok s', Gives (do
        let text ← getText .tmp
        let stop ← getChar .tmp (strtol text).2
        if stop = 0 ∧ -2 ^ 31 ≤ (strtol text).1 ∧ (strtol text).1 ≤ 2 ^ 31 - 1 then do
          modify (set (strtol text).1)
          pure true
        else pure false) (s.lay .tmp d) ok s' ∧ s'.chars = (s.lay .tmp d).chars := by
      have hread : ∀ i, Gives (getChar .tmp i) (s.lay .tmp d) ((s.lay .tmp d).chars .tmp i)
          (s.lay .tmp d) := fun i => gives_bind (gives_access _ _) (gives_look _ _)
      by_cases hvalue : (s.lay .tmp d).chars .tmp (strtol ((s.lay .tmp d).text .tmp)).2 = 0 ∧
          -2 ^ 31 ≤ (strtol ((s.lay .tmp d).text .tmp)).1 ∧
          (strtol ((s.lay .tmp d).text .tmp)).1 ≤ 2 ^ 31 - 1
      case pos =>
        exact ⟨true, _, gives_bind gives_getText (gives_bind (hread _) (gives_if_pos hvalue
          (gives_bind (gives_modify _ _) (gives_pure _ _)))), hset _ _⟩
      case neg =>
        exact ⟨false, _, gives_bind gives_getText (gives_bind (hread _) (gives_if_neg hvalue
          (gives_pure _ _))), rfl⟩
    obtain ⟨ok, s', hgives, hchars⟩ := hnumber
    refine ⟨ok, s', hbefore (gives_if_neg htype (gives_bind hstring hgives)), fun out hout => ?_⟩
    rw [hchars, lay_other hout]

/-- What an attribute does: the array of the package changes for a package attribute of a manifest
element only. -/
theorem gives_parseAttribute (buf : Bytes) (sp : AxmlStrings) (s : ManifestState) (a e : Nat) :
    ∃ ok s', Gives (parseAttribute buf sp a e) s ok s' ∧ s'.chars .elem = s.chars .elem ∧
      s'.chars .package =
        if spells (s.chars .elem) 0 (bytes "manifest") = true ∧
            spells (s.chars .key) 0 (bytes "package") = true then
          laid (s.chars .package) (decodeOption Chars.package.size (sp.attrStored buf a e))
        else s.chars .package := by
  -- a number, or nothing
  have hint : ∀ {set : Int → ManifestState → ManifestState}, (∀ v s, (set v s).chars = s.chars) →
      ∃ ok s', Gives (axmlAttrInt buf sp a e set) s ok s' ∧ s'.chars .elem = s.chars .elem ∧
        s'.chars .package = s.chars .package := by
    intro set hset
    obtain ⟨ok, s', hgives, hother⟩ := gives_axmlAttrInt buf sp s a e hset
    exact ⟨ok, s', hgives, hother _ (by decide), hother _ (by decide)⟩
  have hnothing : ∃ ok s', Gives (pure false : Axml Bool) s ok s' ∧ s'.chars .elem = s.chars .elem ∧
      s'.chars .package = s.chars .package := ⟨false, s, gives_pure _ _, rfl, rfl⟩
  have hname : ∀ {p q : Axml Bool} {out : Chars} {cs : Bytes} {R : ManifestState → Prop},
      (spells (s.chars out) 0 cs = true → ∃ ok s', Gives p s ok s' ∧ R s') →
      (¬ spells (s.chars out) 0 cs = true → ∃ ok s', Gives q s ok s' ∧ R s') →
      ∃ ok s', Gives (do if ← charsAre out 0 cs then p else q) s ok s' ∧ R s' := by
    intro p q out cs R hp hq
    by_cases hcs : spells (s.chars out) 0 cs = true
    case pos =>
      obtain ⟨ok, s', hgives, hR⟩ := hp hcs
      exact ⟨ok, s', gives_bind (gives_charsAre 0 cs) (gives_if_pos hcs hgives), hR⟩
    case neg =>
      obtain ⟨ok, s', hgives, hR⟩ := hq hcs
      exact ⟨ok, s', gives_bind (gives_charsAre 0 cs) (gives_if_neg hcs hgives), hR⟩
  refine hname (fun helem => ?_) fun helem => ?_
  · refine hname (fun hkey => ?_) fun hkey => ?_
    · rw [if_pos ⟨helem, hkey⟩]
      exact ⟨_, _, gives_axmlAttrString buf s .package sp a e (by decide),
        lay_other (by decide) s _, lay_same s .package _⟩
    rw [if_neg fun h => hkey h.2]
    refine hname (fun _ => ?_) fun _ => hname (fun _ => hint fun _ _ => rfl) fun _ => hnothing
    exact ⟨_, _, gives_axmlAttrString buf s .versionName sp a e (by decide),
      lay_other (by decide) s _, lay_other (by decide) s _⟩
  · rw [if_neg fun h => helem h.1]
    exact hname (fun _ => hname (fun _ => hint fun _ _ => rfl) fun _ =>
      hname (fun _ => hint fun _ _ => rfl) fun _ => hnothing) fun _ => hnothing

/-- The content of the array of the package after some strings. -/
def packageAfter (content : Nat → UInt8) (strings : List (Option Stored)) : Nat → UInt8 :=
  strings.foldl (fun content string => laid content (decodeOption Chars.package.size string))
    content

/-- The attributes of an element that has been read, by induction on those that are left. -/
theorem gives_attributes (buf : Bytes) (sp : AxmlStrings) (attrs attrSize e : Nat) (is : List Nat)
    (s : ManifestState) :
    ∃ s', Gives (attributes buf sp attrs attrSize e is) s () s' ∧
      s'.chars .elem = s.chars .elem ∧ s'.chars .package = packageAfter (s.chars .package)
        (if spells (s.chars .elem) 0 (bytes "manifest") = true then
          packageAttributes buf sp attrs attrSize e is else []) := by
  induction is generalizing s with
  | nil =>
      refine ⟨s, gives_pure _ _, rfl, ?_⟩
      split <;> rfl
  | cons i is ih =>
      have hread := gives_readU32 buf s (attrs + i * attrSize + 4)
      have hkey := gives_axmlString buf s .key sp (rd32 buf (attrs + i * attrSize + 4))
        Chars.key.size
      rw [decode_pos (by decide)] at hkey
      generalize hstring : sp.stored buf (rd32 buf (attrs + i * attrSize + 4)) = string at hkey
      have helem := lay_other (show Chars.elem ≠ .key by decide) s
        (decodeOption Chars.key.size string)
      have hpackage := lay_other (show Chars.package ≠ .key by decide) s
        (decodeOption Chars.key.size string)
      rcases hd : decodeOption Chars.key.size string with ⟨text, _ | _⟩
      · -- the name of the attribute is refused
        obtain ⟨s', hgives, helem', hpackage'⟩ :=
          ih (s.lay .key (decodeOption Chars.key.size string))
        have hskip : packageAttributes buf sp attrs attrSize e (i :: is) =
            packageAttributes buf sp attrs attrSize e is := by
          unfold packageAttributes
          rw [List.filter_cons_of_neg]
          rw [hstring, decide_eq_true_iff, decodesTo_iff hd]
          exact fun h => Bool.false_ne_true h.1
        rw [hd] at hkey
        rw [helem] at helem' hpackage'
        rw [hpackage] at hpackage'
        rw [hd] at hgives
        refine ⟨s', gives_bind hread (gives_bind hkey (gives_if_neg Bool.false_ne_true hgives)),
          helem', ?_⟩
        rw [hskip, hpackage']
      · -- the name is accepted, so the attribute is parsed and then the others
        obtain ⟨ok, s', hgives, helem', hpackage'⟩ := gives_parseAttribute buf sp
          (s.lay .key (decodeOption Chars.key.size string)) (attrs + i * attrSize) e
        obtain ⟨s'', hgives', helem'', hpackage''⟩ := ih s'
        rw [helem] at helem' hpackage'
        rw [hpackage, lay_same, hd, spells_laid_accepted (by decide)] at hpackage'
        rw [helem'] at helem'' hpackage''
        rw [hd] at hkey hgives
        refine ⟨s'', gives_bind hread
          (gives_bind hkey (gives_if_pos rfl (gives_bind hgives hgives'))),
          helem'', ?_⟩
        rw [hpackage'', hpackage']
        by_cases hmanifest : spells (s.chars .elem) 0 (bytes "manifest") = true
        case pos =>
          rw [if_pos hmanifest, if_pos hmanifest]
          unfold packageAttributes
          by_cases hpackage : cString text = bytes "package"
          case pos =>
            rw [if_pos ⟨hmanifest, decide_eq_true hpackage⟩, List.filter_cons_of_pos, List.map_cons]
            · rfl
            · rw [hstring]
              exact decide_eq_true ((decodesTo_iff hd).2 ⟨rfl, hpackage⟩)
          case neg =>
            rw [if_neg fun h => hpackage (of_decide_eq_true h.2), List.filter_cons_of_neg]
            rw [hstring, decide_eq_true_iff, decodesTo_iff hd]
            exact fun h => hpackage h.2
        case neg => rw [if_neg hmanifest, if_neg hmanifest, if_neg fun h => hmanifest h.1]

theorem gives_startElement (buf : Bytes) (sp : AxmlStrings) (chunk cs : Nat) (s : ManifestState) :
    ∃ s', Gives (startElement buf sp chunk cs) s () s' ∧
      s'.chars .package = packageAfter (s.chars .package) (elementPackages buf sp chunk cs) := by
  have hname := gives_axmlString buf s .elem sp (rd32 buf (chunk + 16 + 4)) Chars.elem.size
  rw [decode_pos (by decide)] at hname
  unfold startElement elementPackages
  dsimp only
  generalize sp.stored buf (rd32 buf (chunk + 16 + 4)) = string at hname
  have hpackage := lay_other (show Chars.package ≠ .elem by decide) s
    (decodeOption Chars.elem.size string)
  rcases hd : decodeOption Chars.elem.size string with ⟨text, _ | _⟩
  · rw [hd] at hname hpackage
    rw [if_neg fun h => Bool.false_ne_true ((decodesTo_iff hd).1 h.1).1]
    exact ⟨_, gives_bind (gives_readU32 buf s _) (gives_bind hname
      (gives_if_neg Bool.false_ne_true (gives_pure _ _))), hpackage⟩
  · rw [hd] at hname hpackage
    by_cases hplace : rd16 buf (chunk + 16 + 10) ≥ 20 ∧
        chunk + 16 + rd16 buf (chunk + 16 + 8) ≤ chunk + cs ∧
        sizeSub (chunk + cs) (chunk + 16 + rd16 buf (chunk + 16 + 8)) ≥
          rd16 buf (chunk + 16 + 10) * rd16 buf (chunk + 16 + 12)
    case pos =>
      obtain ⟨s', hgives, -, hpackage'⟩ := gives_attributes buf sp
        (chunk + 16 + rd16 buf (chunk + 16 + 8)) (rd16 buf (chunk + 16 + 10)) (chunk + cs)
        (List.range (rd16 buf (chunk + 16 + 12))) (s.lay .elem (text, true))
      rw [hpackage, lay_same, spells_laid_accepted (by decide)] at hpackage'
      refine ⟨s', gives_bind (gives_readU32 buf s _) (gives_bind hname (gives_if_pos rfl
        (gives_bind (gives_readU16 buf _ _) (gives_bind (gives_readU16 buf _ _)
          (gives_bind (gives_readU16 buf _ _) (gives_if_pos hplace hgives)))))), ?_⟩
      rw [hpackage']
      congr 1
      exact if_congr ⟨fun h => ⟨(decodesTo_iff hd).2 ⟨rfl, of_decide_eq_true h⟩, hplace⟩,
        fun h => decide_eq_true ((decodesTo_iff hd).1 h.1).2⟩ rfl rfl
    case neg =>
      rw [if_neg fun h => hplace h.2]
      exact ⟨_, gives_bind (gives_readU32 buf s _) (gives_bind hname (gives_if_pos rfl
        (gives_bind (gives_readU16 buf _ _) (gives_bind (gives_readU16 buf _ _)
          (gives_bind (gives_readU16 buf _ _) (gives_if_neg hplace (gives_pure _ _))))))), hpackage⟩

/-- The chunks from a position on. Every chunk brings the loop 8 bytes or more towards the end. -/
theorem gives_parseChunks {buf : Bytes} {fuel pos : Nat} (pool : Option AxmlStrings)
    (s : ManifestState) (hfuel : buf.length < fuel + pos) (hpositive : 0 < fuel) :
    ∃ s', Gives (parseChunks buf fuel pool pos) s () s' ∧
      s'.chars .package = packageAfter (s.chars .package) (chunkPackages buf fuel pool pos) := by
  induction fuel generalizing s pool pos with
  | zero => omega
  | succ fuel ih =>
      unfold chunkPackages
      dsimp only
      -- the loop ends where no chunk header fits, or at a header that contradicts itself
      by_cases hpos : pos + 8 ≤ buf.length
      case neg =>
        rw [if_pos (by omega)]
        exact ⟨s, gives_if_neg hpos (gives_pure _ _), rfl⟩
      rw [if_neg (by omega)]
      have hread : ∀ {p : Nat → Nat → Nat → Axml Unit} {s' : ManifestState},
          Gives (p (rd16 buf pos) (rd16 buf (pos + 2)) (rd32 buf (pos + 4))) s () s' →
          Gives (if pos + 8 ≤ buf.length then
            readU16 buf pos >>= fun type => readU16 buf (pos + 2) >>= fun hs =>
              readU32 buf (pos + 4) >>= fun cs => p type hs cs
            else pure ()) s () s' := fun h =>
        gives_if_pos hpos (gives_bind (gives_readU16 buf s _) (gives_bind (gives_readU16 buf s _)
          (gives_bind (gives_readU32 buf s _) h)))
      by_cases hbad : rd32 buf (pos + 4) < 8 ∨ rd16 buf (pos + 2) < 8 ∨
          rd16 buf (pos + 2) > rd32 buf (pos + 4) ∨ rd32 buf (pos + 4) > sizeSub buf.length pos
      case pos =>
        rw [if_pos hbad]
        exact ⟨s, hread (gives_if_pos hbad (gives_pure _ _)), rfl⟩
      rw [if_neg hbad]
      have hcs : 8 ≤ rd32 buf (pos + 4) := not_lt.1 fun h => hbad (Or.inl h)
      have hnext : buf.length < fuel + (pos + rd32 buf (pos + 4)) := by omega
      -- a string pool replaces the one before; elements count only with a pool
      by_cases hpool : rd16 buf pos = 0x0001 ∧ rd16 buf (pos + 2) ≥ 28
      case pos =>
        rw [if_pos hpool]
        obtain ⟨s', hgives, hpackage⟩ := ih _ s hnext (by omega)
        exact ⟨s', hread (gives_if_neg hbad (gives_if_pos hpool (gives_bind (gives_readU32 buf s _)
          (gives_bind (gives_readU32 buf s _) (gives_bind (gives_readU32 buf s _) hgives))))),
            hpackage⟩
      rw [if_neg hpool]
      cases pool with
      | none =>
          obtain ⟨s', hgives, hpackage⟩ := ih none s hnext (by omega)
          exact ⟨s', hread (gives_if_neg hbad (gives_if_neg hpool hgives)), hpackage⟩
      | some pool =>
          by_cases helement : rd16 buf pos = 0x0102 ∧ rd16 buf (pos + 2) ≥ 16 ∧
            rd32 buf (pos + 4) ≥ 36
          case pos =>
            obtain ⟨s', hgives, hpackage⟩ := gives_startElement buf pool pos (rd32 buf (pos + 4)) s
            obtain ⟨s'', hgives', hpackage'⟩ := ih (some pool) s' hnext (by omega)
            refine ⟨s'', hread (gives_if_neg hbad (gives_if_neg hpool (gives_if_pos helement
              (gives_bind hgives hgives')))), ?_⟩
            dsimp only
            rw [hpackage', hpackage, if_pos helement]
            exact (List.foldl_append ..).symm
          case neg =>
            obtain ⟨s', hgives, hpackage⟩ := ih (some pool) s hnext (by omega)
            dsimp only
            rw [if_neg helement]
            exact ⟨s', hread (gives_if_neg hbad
              (gives_if_neg hpool (gives_if_neg helement hgives))),
              hpackage⟩

/-- The parser looks at what the array holds in the end. -/
theorem gives_parseBuffer (buf : Bytes) (s : ManifestState) :
    ∃ ok s', Gives (parseBuffer buf) s ok s' ∧ (ok = true →
      spells (packageAfter (s.chars .package) (manifestPackages buf)) 0 gamePackage = true) := by
  obtain ⟨s', hgives, hpackage⟩ :
      ∃ s', Gives (parseChunks buf (buf.length + 1) none (rd16 buf 2)) s () s' ∧
        s'.chars .package = packageAfter (s.chars .package) (manifestPackages buf) :=
    gives_parseChunks none s (by omega) (by omega)
  rw [← hpackage]
  by_cases hmagic : rd16 buf 0 ≠ 0x0003
  case pos =>
    exact ⟨false, s, gives_bind (gives_readU16 buf s 0) (gives_if_pos hmagic (gives_pure _ _)),
      nofun⟩
  by_cases htotal : rd32 buf 4 > buf.length
  case pos =>
    exact ⟨false, s, gives_bind (gives_readU16 buf s 0) (gives_if_neg hmagic
      (gives_bind (gives_readU32 buf s 4) (gives_if_pos htotal (gives_pure _ _)))), nofun⟩
  -- the loop, and the first character after it
  have hbefore : ∀ {p : UInt8 → Axml Bool} {ok : Bool}, Gives (p (s'.chars .package 0)) s' ok s' →
      Gives (readU16 buf 0 >>= fun magic => if magic ≠ 0x0003 then pure false else
        readU32 buf 4 >>= fun total => if total > buf.length then pure false else
          readU16 buf 2 >>= fun pos => parseChunks buf (buf.length + 1) none pos >>= fun _ =>
            getChar .package 0 >>= p) s ok s' := fun h =>
    gives_bind (gives_readU16 buf s 0) (gives_if_neg hmagic (gives_bind (gives_readU32 buf s 4)
      (gives_if_neg htotal (gives_bind (gives_readU16 buf s 2) (gives_bind hgives (gives_bind
        (gives_bind (gives_access _ _) (gives_look _ _)) h))))))
  by_cases hempty : s'.chars .package 0 ≠ 0
  case pos =>
    exact ⟨_, s', hbefore (gives_if_pos hempty (gives_charsAre 0 gamePackage)), id⟩
  case neg => exact ⟨false, s', hbefore (gives_if_neg hempty (gives_pure _ _)), nofun⟩

/-- What the array of the package holds when the parser begins. -/
def emptied (s : ManifestState) : Nat → UInt8 := written (s.chars .package) 0 [0]

/-- A manifest is trusted for what the array of the package holds in the end. -/
theorem parse_trusts {C : ManifestCall} {s : ManifestState}
    (h : (parseAndroidManifest C s).1 = .ok true) :
    ∃ content, C.file = some content ∧
      spells (packageAfter (emptied s) (manifestPackages content)) 0 gamePackage = true := by
  suffices hwhole : ∃ ok s', Gives (parseAndroidManifest C) s ok s' ∧ (ok = true →
      ∃ content, C.file = some content ∧
        spells (packageAfter (emptied s) (manifestPackages content)) 0 gamePackage = true) by
    obtain ⟨ok, s', ⟨hvalue, -⟩, hspells⟩ := hwhole
    exact hspells (Except.ok.inj (hvalue.symm.trans h))
  have hfirst := gives_putChars .package s 0 [0]
  have hsecond := gives_putChars .versionName (s.put .package 0 [0]) 0 [0]
  have hother : ((s.put .package 0 [0]).put .versionName 0 [0]).chars .package =
      (s.put .package 0 [0]).chars .package := put_other (by decide) _ 0 [0]
  have hpackage : (s.put .package 0 [0]).chars .package = emptied s := put_same s .package 0 [0]
  rw [hpackage] at hother
  have hbefore : ∀ {p : Axml Bool} {s' s'' : ManifestState} {ok : Bool},
      s' = { (s.put .package 0 [0]).put .versionName 0 [0] with
        versionCode := -1, minSdk := -1, targetSdk := -1 } → Gives p s' ok s'' →
      Gives (putChars .package 0 [0] >>= fun _ => putChars .versionName 0 [0] >>= fun _ =>
        modify (fun s => { s with versionCode := -1, minSdk := -1, targetSdk := -1 }) >>= fun _ =>
          p)
        s ok s'' := by
    rintro p s' s'' ok rfl h
    exact gives_bind hfirst (gives_bind hsecond (gives_bind (gives_modify _ _) h))
  unfold parseAndroidManifest
  cases hfile : C.file with
  | none => exact ⟨false, _, hbefore rfl (gives_pure _ _), nofun⟩
  | some content =>
      by_cases hsize : C.told = false ∨ content.length < 8 ∨ content.length > 8 * 1024 * 1024
      case pos => exact ⟨false, _, hbefore rfl (gives_if_pos hsize (gives_pure _ _)), nofun⟩
      by_cases hread : C.rewound = false ∨ C.allocated = false ∨ C.readWhole = false
      case pos =>
        exact ⟨false, _, hbefore rfl (gives_if_neg hsize (gives_if_pos hread (gives_pure _ _))),
          nofun⟩
      obtain ⟨ok, s', hgives, hspells⟩ := gives_parseBuffer content
        { (s.put .package 0 [0]).put .versionName 0 [0] with
          versionCode := -1, minSdk := -1, targetSdk := -1 }
      refine ⟨ok, s', hbefore rfl (gives_if_neg hsize (gives_if_neg hread hgives)), fun hok => ?_⟩
      refine ⟨content, rfl, ?_⟩
      rw [← hother]
      exact hspells hok

end Parser

/-! ## Trust -/

/-- No string leaves a trace in the array of the package when its turn comes. -/
def AllTraceless : (Nat → UInt8) → List (Option Stored) → Prop
  | _, [] => True
  | content, string :: strings =>
      Traceless Chars.package.size content string ∧
        AllTraceless (laid content (decodeOption Chars.package.size string)) strings

/-- Without traces the array holds what it held before, or a string that was accepted. By induction
on the strings. -/
theorem spells_packageAfter {content : Nat → UInt8} {strings : List (Option Stored)} {name : Bytes}
    (hname : 0 ∉ name) (htraces : AllTraceless content strings)
    (h : spells (packageAfter content strings) 0 name = true) :
    spells content 0 name = true ∨ ∃ string ∈ strings,
      DecodesTo Chars.package.size string name := by
  induction strings generalizing content with
  | nil => exact Or.inl h
  | cons string strings ih =>
      obtain ⟨htraceless, hrest⟩ := htraces
      rcases ih hrest h with hspells | ⟨string', hmem, hdecodes⟩
      · rcases hd : decodeOption Chars.package.size string with ⟨text, _ | _⟩
        · have hsame := unchanged_iff.2 htraceless (by rw [hd])
          rw [hsame] at hspells
          exact Or.inl hspells
        · rw [hd, spells_laid_accepted hname] at hspells
          exact Or.inr ⟨string, List.mem_cons_self,
            (decodesTo_iff hd).2 ⟨rfl, of_decide_eq_true hspells⟩⟩
      · exact Or.inr ⟨string', List.mem_cons_of_mem _ hmem, hdecodes⟩

/-- A failed decode leaves the array unchanged exactly if the string leaves no trace, and where no
package attribute of a manifest does, the manifest is trusted only for one that was accepted. -/
theorem traces_iff (buf : Bytes) (sp : AxmlStrings) (idx a e cap : Nat) (out : Chars)
    (s : ManifestState) (C : ManifestCall) :
    (∃ ok, (axmlString buf sp idx out cap s).1 = .ok ok ∧
      ((ok = false → (axmlString buf sp idx out cap s).2.1.chars out = s.chars out) ↔
        Traceless cap (s.chars out) (sp.stored buf idx))) ∧
    (∃ ok, (axmlAttrString buf sp a e out cap s).1 = .ok ok ∧
      ((ok = false → (axmlAttrString buf sp a e out cap s).2.1.chars out = s.chars out) ↔
        Traceless cap (s.chars out) (sp.attrStored buf a e))) ∧
    ((parseAndroidManifest C s).1 = .ok true → ∃ content, C.file = some content ∧
      (AllTraceless (emptied s) (manifestPackages content) →
        ∃ string ∈ manifestPackages content, DecodesTo Chars.package.size string gamePackage)) := by
  refine ⟨?_, ?_, fun h => ?_⟩
  · refine unchanged_of_gives s out (fun hzero => ?_) fun hcap => ?_
    · subst hzero
      exact gives_if_pos (Or.inl rfl) (gives_pure _ _)
    · have hstring := gives_axmlString buf s out sp idx cap
      rwa [decode_pos hcap] at hstring
  · refine unchanged_of_gives s out (fun hzero => ?_) fun hcap =>
      gives_axmlAttrString buf s out sp a e hcap
    subst hzero
    exact gives_axmlAttrString_zero buf s out sp a e
  · obtain ⟨content, hfile, hspells⟩ := parse_trusts h
    refine ⟨content, hfile, fun htraces => ?_⟩
    have hzero : emptied s 0 = 0 := rfl
    have hfirst : spells (emptied s) 0 gamePackage = false := by
      unfold gamePackage
      show (if emptied s 0 = 99 then _ else false) = false
      rw [hzero, if_neg (by decide)]
    refine (spells_packageAfter (by decide) htraces hspells).resolve_left ?_
    rw [hfirst]
    exact Bool.false_ne_true

/-- A text below 128 in units of two bytes. -/
def wide (text : Bytes) : Bytes := text.flatMap fun b => [b, 0]

/-- A manifest whose only package attribute is `GAME_PACKAGE` and then the unit 0xdc00. -/
def forgedManifest : Bytes :=
  -- the file, and the pool with its three strings
  [0x03, 0, 0x08, 0, 200, 0, 0, 0] ++
    [0x01, 0, 0x1c, 0, 136, 0, 0, 0, 3, 0, 0, 0, 0, 0, 0, 0, 0, 0, 0, 0, 40, 0, 0, 0, 0, 0, 0, 0] ++
    [0, 0, 0, 0, 20, 0, 0, 0, 38, 0, 0, 0] ++
    [8, 0] ++ wide (bytes "manifest") ++ [0, 0] ++
    [7, 0] ++ wide (bytes "package") ++ [0, 0] ++
    [27, 0] ++ wide gamePackage ++ [0x00, 0xdc, 0, 0] ++
    -- the element with its attribute
    [0x02, 0x01, 0x10, 0, 56, 0, 0, 0, 0, 0, 0, 0, 0, 0, 0, 0] ++
    [0xff, 0xff, 0xff, 0xff, 0, 0, 0, 0, 20, 0, 20, 0, 1, 0, 0, 0, 0, 0, 0, 0] ++
    [0xff, 0xff, 0xff, 0xff, 1, 0, 0, 0, 2, 0, 0, 0, 8, 0, 0, 3, 2, 0, 0, 0]

def forgedCall : ManifestCall :=
  { file := some forgedManifest, told := true, rewound := true, allocated := true, readWhole := true }

/-- The pool of `forgedManifest`. -/
def forgedPool : AxmlStrings :=
  { base := 8, size := 136, count := 3, flags := 0, stringsStart := 40, headerSize := 28 }

instance : DecidableEq Endless := fun .endless .endless => isTrue rfl

/-- The package of `forgedManifest` is refused, is left in the array, and is trusted. -/
theorem forged_trusted :
    (¬ ∀ (buf : Bytes) (sp : AxmlStrings) (idx cap : Nat) (out : Chars) (s : ManifestState),
      (axmlString buf sp idx out cap s).1 = .ok false →
        (axmlString buf sp idx out cap s).2.1.chars out = s.chars out) ∧
    ¬ ∀ (C : ManifestCall) (s : ManifestState), (parseAndroidManifest C s).1 = .ok true →
      ∃ content, C.file = some content ∧
        ∃ string ∈ manifestPackages content, DecodesTo Chars.package.size string gamePackage := by
  constructor
  · intro h
    have hrefused : (axmlString forgedManifest forgedPool 2 .package 128 blank).1 = .ok false := by
      decide +kernel
    have hwritten : (axmlString forgedManifest forgedPool 2 .package 128 blank).2.1.chars .package
      0 =
        99 := by decide +kernel
    rw [h _ _ _ _ _ _ hrefused] at hwritten
    cases hwritten
  · intro h
    have htrusted : (parseAndroidManifest forgedCall blank).1 = .ok true := by decide +kernel
    have hnone : ∀ string ∈ manifestPackages forgedManifest,
        ¬ DecodesTo Chars.package.size string gamePackage := by decide +kernel
    obtain ⟨content, hfile, string, hmem, hdecodes⟩ := h forgedCall blank htrusted
    obtain rfl : forgedManifest = content := Option.some.inj hfile
    exact hnone string hmem hdecodes

end Asnx.Installer
