import Asnx.Installer.Manifest
import Mathlib.Data.List.TakeWhile
import Mathlib.Tactic.SplitIfs

/-!
# The reader of the manifest stays in bounds

Whatever the file holds, `parse_android_manifest` reads inside the buffer, writes inside its arrays
and returns (`manifest_inside`). A pool of strings keeps that it lies in the buffer (`Pool`); each
function is proved for such a pool.
-/

namespace Asnx.Installer

open Files Tracing

/-- An access stays in the buffer, or in its array. -/
def AxmlAccess.Inside (size : Nat) : AxmlAccess → Prop
  | read off n => off + n ≤ size
  | chars out i n => i + n ≤ out.size

/-! ## Accesses -/

/-- A difference of sizes that does not wrap. -/
theorem sizeSub_of_le {a b : Nat} (h : b ≤ a) (ha : a < 2 ^ 64) : sizeSub a b = a - b := by
  unfold sizeSub
  omega

section Accesses

variable {buf : Bytes} {P : ManifestState → Prop} {p : Nat}

/-- A byte is read inside the buffer, when it lies there. -/
theorem ensures_readU8 (hp : p + 1 ≤ buf.length) :
    Ensures (AxmlAccess.Inside buf.length) P (readU8 buf p) fun _ => P :=
  ensures_bind (ensures_access hp) fun _ => ensures_pure fun _ hs => hs

theorem ensures_readU16 (hp : p + 2 ≤ buf.length) :
    Ensures (AxmlAccess.Inside buf.length) P (readU16 buf p) fun v s => v < 2 ^ 16 ∧ P s :=
  ensures_bind (ensures_access hp) fun _ => ensures_pure fun _ hs => ⟨rd16_lt _ _, hs⟩

theorem ensures_readU32 (hp : p + 4 ≤ buf.length) :
    Ensures (AxmlAccess.Inside buf.length) P (readU32 buf p) fun v s => v < 2 ^ 32 ∧ P s :=
  ensures_bind (ensures_access hp) fun _ => ensures_pure fun _ hs => ⟨rd32_lt _ _, hs⟩

variable {size : Nat} {out : Chars}

theorem ensures_getChar {i : Nat} (hi : i < out.size) :
    Ensures (AxmlAccess.Inside size) P (getChar out i) fun _ => P :=
  ensures_bind (ensures_access hi) fun _ => ensures_look fun _ hs => hs

/-- By induction on the bytes that are left. -/
theorem ensures_putChars {i : Nat} {cs : List Nat} (h : i + cs.length ≤ out.size) :
    Ensures (AxmlAccess.Inside size) (fun _ => True) (putChars out i cs) fun _ _ => True := by
  induction cs generalizing i with
  | nil => exact ensures_pure fun _ _ => trivial
  | cons c cs ih =>
      rw [List.length_cons] at h
      have hi : i + 1 ≤ out.size := by omega
      refine ensures_bind (ensures_access hi) fun _ => ?_
      refine ensures_bind (Q := fun _ _ => True) (ensures_modify fun _ _ => trivial) fun _ => ?_
      exact ih (by omega)

/-- The end of a string. -/
theorem ensures_putEnd {w cap : Nat} (hw : w < cap) (hcap : cap ≤ out.size) :
    Ensures (AxmlAccess.Inside size) P (putChars out w [0]) fun _ s =>
      ∃ i < cap, s.chars out i = 0 := by
  have hi : w + 1 ≤ out.size := by omega
  refine ensures_bind (ensures_access hi) fun _ => ?_
  refine ensures_bind (Q := fun _ s => ∃ i < cap, s.chars out i = 0) (ensures_modify fun s _ => ?_)
    fun _ => ensures_pure fun _ hs => hs
  refine ⟨w, hw, ?_⟩
  show Function.update s.chars out (Function.update (s.chars out) w (UInt8.ofNat 0)) out w = 0
  rw [Function.update_self, Function.update_self]
  rfl

/-- Copying characters out of the buffer. -/
theorem ensures_copyChars {q n : Nat} (hq : q + n ≤ buf.length) (hn : n ≤ out.size) :
    Ensures (AxmlAccess.Inside buf.length) P (copyChars buf out q n) fun _ _ => True := by
  have hout : 0 + n ≤ out.size := by omega
  refine ensures_bind (ensures_access hq) fun _ => ?_
  refine ensures_bind (ensures_access hout) fun _ => ?_
  exact ensures_modify fun _ _ => trivial

/-- By induction on the constant, which is shorter than the array. -/
theorem ensures_charsAre {i : Nat} {cs : Bytes} (h : i + cs.length < out.size) :
    Ensures (AxmlAccess.Inside size) P (charsAre out i cs) fun _ => P := by
  induction cs generalizing i with
  | nil =>
      exact ensures_bind (ensures_getChar h) fun _ => ensures_pure fun _ hs => hs
  | cons c cs ih =>
      rw [List.length_cons] at h
      refine ensures_bind (ensures_getChar (by omega)) fun _ => ?_
      exact ensures_ite (fun _ => ih (by omega)) fun _ => ensures_pure fun _ hs => hs

/-- A string with an end is shorter than its array. -/
theorem length_text_lt {s : ManifestState} (h : ∃ i < out.size, s.chars out i = 0) :
    (s.text out).length < out.size := by
  obtain ⟨i, hi, hzero⟩ := h
  by_contra hlong
  have hlength : ((List.range out.size).map (s.chars out)).length = out.size := by simp
  have hwhole : s.text out = (List.range out.size).map (s.chars out) :=
    (List.takeWhile_prefix _).eq_of_length_le (by rw [hlength]; exact not_lt.1 hlong)
  have hmem : s.chars out i ∈ s.text out := by
    rw [hwhole]
    exact List.mem_map.2 ⟨i, List.mem_range.2 hi, rfl⟩
  have hnonzero := List.mem_takeWhile_imp hmem
  exact of_decide_eq_true hnonzero hzero

/-- A text with its terminator is read inside its array. -/
theorem ensures_getText :
    Ensures (AxmlAccess.Inside size) (fun s => ∃ i < out.size, s.chars out i = 0) (getText out)
      fun text _ => text.length < out.size := by
  intro s hs
  have hlength := length_text_lt hs
  refine ⟨fun a ha => ?_, s.text out, rfl, hlength⟩
  obtain rfl : a = .chars out 0 ((s.text out).length + 1) := List.mem_singleton.1 ha
  show 0 + ((s.text out).length + 1) ≤ out.size
  omega

end Accesses

/-! ## Strings -/

section Strings

variable {buf : Bytes} {P : ManifestState → Prop} {p q e units cap : Nat} {out : Chars}

/-- A length of one or two bytes, and where it ends. -/
theorem ensures_axmlU8len (he : e ≤ buf.length) :
    Ensures (AxmlAccess.Inside buf.length) P (axmlU8len buf p e)
      fun r s => (∀ v ∈ r, p + v.2 ≤ e) ∧ P s := by
  refine ensures_ite (fun _ => ensures_pure fun _ hs => ⟨nofun, hs⟩) fun hp => ?_
  refine ensures_bind (ensures_readU8 (by omega)) fun a => ?_
  refine ensures_ite (fun _ => ?_) fun _ => ensures_pure fun _ hs => ⟨?_, hs⟩
  · refine ensures_ite (fun _ => ensures_pure fun _ hs => ⟨nofun, hs⟩) fun hp' => ?_
    refine ensures_bind (ensures_readU8 (by omega)) fun b => ensures_pure fun _ hs => ⟨?_, hs⟩
    rintro v ⟨⟩
    show p + 2 ≤ e
    omega
  · rintro v ⟨⟩
    show p + 1 ≤ e
    omega

/-- A length of one or two units, and where it ends. -/
theorem ensures_axmlU16len (hp : p ≤ e) (he : e ≤ buf.length) (hbuf : buf.length < 2 ^ 64) :
    Ensures (AxmlAccess.Inside buf.length) P (axmlU16len buf p e)
      fun r s => (∀ v ∈ r, p + v.2 ≤ e) ∧ P s := by
  unfold axmlU16len
  rw [sizeSub_of_le hp (by omega)]
  refine ensures_ite (fun _ => ensures_pure fun _ hs => ⟨nofun, hs⟩) fun htwo => ?_
  refine ensures_bind (ensures_readU16 (by omega)) fun a => ensures_assume fun _ => ?_
  refine ensures_ite (fun _ => ?_) fun _ => ensures_pure fun _ hs => ⟨?_, hs⟩
  · refine ensures_ite (fun _ => ensures_pure fun _ hs => ⟨nofun, hs⟩) fun hfour => ?_
    refine ensures_bind (ensures_readU16 (by omega)) fun b => ?_
    refine ensures_assume fun _ => ensures_pure fun _ hs => ⟨?_, hs⟩
    rintro v ⟨⟩
    show p + 4 ≤ e
    omega
  · rintro v ⟨⟩
    show p + 2 ≤ e
    omega

/-- Every turn takes a unit or two, and leaves room for the end of the string. -/
theorem ensures_utf16Loop (hunits : q + units * 2 ≤ buf.length) (hcap : cap ≤ out.size)
    {fuel i w : Nat} (hi : i ≤ units) (hfuel : units < fuel + i) (hw : w < cap) :
    Ensures (AxmlAccess.Inside buf.length) (fun _ => True) (utf16Loop buf q units out cap fuel i w)
      fun r _ => ∀ w ∈ r, w < cap := by
  induction fuel generalizing i w with
  | zero => omega
  | succ fuel ih =>
      have hstop : Ensures (AxmlAccess.Inside buf.length) (fun _ => True)
          (pure (some w) : Axml (Option Nat)) fun r _ => ∀ w ∈ r, w < cap :=
        ensures_pure fun _ _ => by
          rintro w ⟨⟩
          exact hw
      have hrefuse : Ensures (AxmlAccess.Inside buf.length) (fun _ => True)
          (pure none : Axml (Option Nat)) fun r _ => ∀ w ∈ r, w < cap :=
        ensures_pure fun _ _ => nofun
      refine ensures_ite (fun hroom => ?_) fun _ => hstop
      refine ensures_bind (ensures_readU16 (by omega)) fun c => ensures_assume fun _ => ?_
      refine ensures_ite (fun _ => ?_) fun _ => ?_
      · refine ensures_bind (ensures_putChars ?_) fun _ => ih (by omega) (by omega) (by omega)
        show w + 1 ≤ out.size
        omega
      refine ensures_ite (fun hroom' => ?_) fun _ => ?_
      · refine ensures_bind (ensures_putChars ?_) fun _ => ih (by omega) (by omega) (by omega)
        show w + 2 ≤ out.size
        omega
      refine ensures_ite (fun hpair => ?_) fun _ => ?_
      · refine ensures_bind (ensures_readU16 (by omega)) fun lo => ensures_assume fun _ => ?_
        refine ensures_ite (fun hroom' => ?_) fun _ => hrefuse
        refine ensures_bind (ensures_putChars ?_) fun _ => ih (by omega) (by omega) (by omega)
        show w + 4 ≤ out.size
        omega
      refine ensures_ite (fun _ => hrefuse) fun _ => ?_
      refine ensures_ite (fun hroom' => ?_) fun _ => hstop
      refine ensures_bind (ensures_putChars ?_) fun _ => ih (by omega) (by omega) (by omega)
      show w + 3 ≤ out.size
      omega

/-- A string that has been read has its end in the array. -/
def Ended (out : Chars) (cap : Nat) (ok : Bool) (s : ManifestState) : Prop :=
  ok = true → ∃ i < cap, s.chars out i = 0

theorem ensures_refuse : Ensures (AxmlAccess.Inside buf.length) P (pure false : Axml Bool)
    (Ended out cap) := ensures_pure fun _ _ => nofun

/-- The last steps for a string that is accepted. -/
theorem ensures_finish {w : Nat} (hw : w < cap) (hcap : cap ≤ out.size) :
    Ensures (AxmlAccess.Inside buf.length) P
      (do
        putChars out w [0]
        pure true : Axml Bool) (Ended out cap) :=
  ensures_bind (ensures_putEnd hw hcap) fun _ => ensures_pure fun _ hs _ => hs

/-- A string of bytes ends with its terminator inside the array. -/
theorem ensures_utf8String (he : e ≤ buf.length) (hbuf : buf.length < 2 ^ 64) (hcap : 0 < cap)
    (hout : cap ≤ out.size) :
    Ensures (AxmlAccess.Inside buf.length) P (utf8String buf q e out cap) (Ended out cap) := by
  refine ensures_bind (ensures_axmlU8len he) fun r => ensures_assume fun _ => ?_
  rcases r with _ | ⟨_, used1⟩
  · exact ensures_refuse
  refine ensures_bind (ensures_axmlU8len he) fun r => ensures_assume fun hused => ?_
  rcases r with _ | ⟨n8, used2⟩
  · exact ensures_refuse
  have hq : q + used1 + used2 ≤ e := hused _ rfl
  show Ensures _ _ (if n8 > sizeSub e (q + used1 + used2) then _ else _) _
  rw [sizeSub_of_le hq (by omega)]
  refine ensures_ite (fun _ => ensures_refuse) fun hn => ?_
  have hmin : (if n8 < cap - 1 then n8 else cap - 1) ≤ n8 ∧
      (if n8 < cap - 1 then n8 else cap - 1) < cap := by
    split <;> omega
  refine ensures_bind (ensures_copyChars (by omega) (by omega)) fun _ => ?_
  exact ensures_finish hmin.2 hout

/-- So does a string of units. -/
theorem ensures_utf16String (hq : q ≤ e) (he : e ≤ buf.length) (hbuf : buf.length < 2 ^ 64)
    (hcap : 0 < cap) (hout : cap ≤ out.size) :
    Ensures (AxmlAccess.Inside buf.length) P (utf16String buf q e out cap) (Ended out cap) := by
  refine ensures_bind (ensures_axmlU16len hq he hbuf) fun r => ensures_assume fun hused => ?_
  rcases r with _ | ⟨units, used⟩
  · exact ensures_refuse
  have hq : q + used ≤ e := hused _ rfl
  show Ensures _ _ (if units > sizeSub e (q + used) / 2 then _ else _) _
  rw [sizeSub_of_le hq (by omega)]
  refine ensures_ite (fun _ => ensures_refuse) fun hunits => ?_
  have hloop : Ensures (AxmlAccess.Inside buf.length) (fun _ => True)
      (utf16Loop buf (q + used) units out cap (units + 1) 0 0) fun r _ => ∀ w ∈ r, w < cap :=
    ensures_utf16Loop (by omega) hout (Nat.zero_le _) (by omega) hcap
  refine ensures_bind (hloop.weaken (fun _ _ => trivial) fun _ _ h => h) fun r => ?_
  cases r with
  | none => exact ensures_refuse
  | some w =>
      intro s hw
      exact ensures_finish (P := fun _ => True) (hw w rfl) hout s trivial

/-- A pool of strings lies in the buffer, and its header in the pool. -/
structure Pool (buf : Bytes) (sp : AxmlStrings) : Prop where
  inside : sp.base + sp.size ≤ buf.length
  header : sp.headerSize ≤ sp.size

/-- A string of the pool. -/
theorem ensures_axmlString {sp : AxmlStrings} {idx : Nat} (hsp : Pool buf sp)
    (hbuf : buf.length < 2 ^ 64) (hout : cap ≤ out.size) :
    Ensures (AxmlAccess.Inside buf.length) P (axmlString buf sp idx out cap) (Ended out cap) := by
  have hinside := hsp.inside
  have hheader := hsp.header
  refine ensures_ite (fun _ => ensures_refuse) fun hstart => ?_
  obtain ⟨hcap, hidx⟩ := not_or.1 hstart
  rw [sizeSub_of_le (by omega) (by omega)]
  refine ensures_ite (fun _ => ensures_refuse) fun hcount => ?_
  refine ensures_bind (ensures_readU32 (by omega)) fun off => ensures_assume fun _ => ?_
  refine ensures_ite (fun _ => ensures_refuse) fun hoff => ?_
  obtain ⟨hstrings, hoff⟩ := not_or.1 hoff
  rw [sizeSub_of_le (by omega) (by omega)] at hoff
  refine ensures_ite (fun _ => ?_) fun _ => ?_
  · exact ensures_utf8String hinside hbuf (by omega) hout
  · exact ensures_utf16String (by omega) hinside hbuf (by omega) hout

end Strings

/-! ## Attributes -/

section Attributes

variable {buf : Bytes} {P : ManifestState → Prop} {sp : AxmlStrings} {a e : Nat}

/-- The digits that are read are no more than there are. -/
theorem readDigits_le (s : Bytes) (start base : Nat) (negative : Bool) :
    (readDigits s start base negative).2 ≤ s.length := by
  unfold readDigits
  dsimp only
  have hlength := (List.takeWhile_prefix (l := s.drop start) fun b =>
    decide (digitOf b < base)).length_le
  rw [List.length_drop] at hlength
  split
  · exact Nat.zero_le _
  · rename_i hdigits
    have hpositive := List.length_pos_of_ne_nil hdigits
    show start + _ ≤ s.length
    omega

/-- `strtol` reads a number from a part of the string. -/
theorem strtol_le (s : Bytes) : (strtol s).2 ≤ s.length := by
  unfold strtol
  dsimp only
  split_ifs <;> exact readDigits_le ..

/-- The string of an attribute. -/
theorem ensures_axmlAttrString {out : Chars} {cap : Nat} (hsp : Pool buf sp) (ha : a ≤ e)
    (he : e ≤ buf.length) (hbuf : buf.length < 2 ^ 64) (hout : cap ≤ out.size) :
    Ensures (AxmlAccess.Inside buf.length) P (axmlAttrString buf sp a e out cap)
      (Ended out cap) := by
  unfold axmlAttrString
  rw [sizeSub_of_le ha (by omega)]
  refine ensures_ite (fun _ => ensures_refuse) fun hsize => ?_
  refine ensures_bind (ensures_readU32 (by omega)) fun raw => ensures_assume fun _ => ?_
  refine ensures_bind (ensures_readU8 (by omega)) fun type => ?_
  refine ensures_bind (ensures_readU32 (by omega)) fun data => ensures_assume fun _ => ?_
  refine ensures_ite (fun _ => ensures_axmlString hsp hbuf hout) fun _ => ?_
  exact ensures_ite (fun _ => ensures_axmlString hsp hbuf hout) fun _ => ensures_refuse

theorem ensures_axmlAttrInt {out : Int → ManifestState → ManifestState} (hsp : Pool buf sp)
    (ha : a ≤ e) (he : e ≤ buf.length) (hbuf : buf.length < 2 ^ 64) :
    Ensures (AxmlAccess.Inside buf.length) P (axmlAttrInt buf sp a e out) fun _ _ => True := by
  have hreturn : ∀ {P : ManifestState → Prop} (b : Bool), Ensures (AxmlAccess.Inside buf.length) P
      (pure b : Axml Bool) fun _ _ => True := fun b => ensures_pure fun _ _ => trivial
  have hset : ∀ {P : ManifestState → Prop} (v : Int), Ensures (AxmlAccess.Inside buf.length) P
      (modify (out v) : Axml Unit) fun _ _ => True := fun v => ensures_modify fun _ _ => trivial
  unfold axmlAttrInt
  rw [sizeSub_of_le ha (by omega)]
  refine ensures_ite (fun _ => hreturn _) fun hsize => ?_
  refine ensures_bind (ensures_readU8 (by omega)) fun type => ?_
  refine ensures_bind (ensures_readU32 (by omega)) fun data => ensures_assume fun _ => ?_
  refine ensures_ite (fun _ => ensures_bind (hset _) fun _ => hreturn _) fun _ => ?_
  refine ensures_bind (ensures_axmlAttrString hsp ha he hbuf le_rfl) fun found => ?_
  cases found with
  | false => exact hreturn _
  | true =>
      refine ensures_bind (ensures_getText.weaken (fun _ hs => hs rfl) fun _ _ h =>
        And.intro h trivial)
        fun text => ensures_assume fun htext => ?_
      have hstop := strtol_le text
      refine ensures_bind (ensures_getChar (by omega)) fun stop => ?_
      exact ensures_ite (fun _ => ensures_bind (hset _) fun _ => hreturn _) fun _ => hreturn _

/-- An attribute of the manifest. -/
theorem ensures_parseAttribute (hsp : Pool buf sp) (ha : a ≤ e) (he : e ≤ buf.length)
    (hbuf : buf.length < 2 ^ 64) :
    Ensures (AxmlAccess.Inside buf.length) P (parseAttribute buf sp a e) fun _ _ => True := by
  have hreturn : Ensures (AxmlAccess.Inside buf.length) P (pure false : Axml Bool) fun _ _ =>
    True :=
    ensures_pure fun _ _ => trivial
  have hint : ∀ out, Ensures (AxmlAccess.Inside buf.length) P (axmlAttrInt buf sp a e out)
      fun _ _ => True := fun out => ensures_axmlAttrInt hsp ha he hbuf
  have hstring : ∀ out : Chars, Ensures (AxmlAccess.Inside buf.length) P
      (axmlAttrString buf sp a e out out.size) fun _ _ => True := fun out =>
    (ensures_axmlAttrString hsp ha he hbuf le_rfl).weaken (fun _ hs => hs) fun _ _ _ => trivial
  -- a constant that fits into the array
  have hname : ∀ {p q : Axml Bool} {out : Chars} {cs : Bytes}, 0 + cs.length < out.size →
      Ensures (AxmlAccess.Inside buf.length) P p (fun _ _ => True) →
      Ensures (AxmlAccess.Inside buf.length) P q (fun _ _ => True) →
      Ensures (AxmlAccess.Inside buf.length) P (do if ← charsAre out 0 cs then p else q)
        fun _ _ => True := fun hcs hp hq =>
    ensures_bind (ensures_charsAre hcs) fun b => ensures_ite (fun _ => hp) fun _ => hq
  refine hname (by decide) ?_ (hname (by decide) ?_ hreturn)
  · exact hname (by decide) (hstring _) (hname (by decide) (hstring _)
      (hname (by decide) (hint _) hreturn))
  · exact hname (by decide) (hint _) (hname (by decide) (hint _) hreturn)

/-- By induction on the attributes that are left, all of which lie in the chunk. -/
theorem ensures_attributes {attrs attrSize : Nat} {is : List Nat} (hsp : Pool buf sp)
    (hsize : 20 ≤ attrSize) (his : ∀ i ∈ is, attrs + i * attrSize + attrSize ≤ e)
    (he : e ≤ buf.length) (hbuf : buf.length < 2 ^ 64) :
    Ensures (AxmlAccess.Inside buf.length) P (attributes buf sp attrs attrSize e is)
      fun _ _ => True := by
  induction is generalizing P with
  | nil => exact ensures_pure fun _ _ => trivial
  | cons i is ih =>
      obtain ⟨hi, his⟩ := List.forall_mem_cons.1 his
      refine ensures_bind (ensures_readU32 (by omega)) fun nameIdx => ensures_assume fun _ => ?_
      refine ensures_bind (ensures_axmlString hsp hbuf le_rfl) fun named => ?_
      refine ensures_ite (fun _ => ?_) fun _ => ih his
      exact ensures_bind (ensures_parseAttribute hsp (by omega) he hbuf) fun _ => ih his

/-- The start of an element, with all of its attributes. -/
theorem ensures_startElement {chunk cs : Nat} (hsp : Pool buf sp) (hcs : 36 ≤ cs)
    (hchunk : chunk + cs ≤ buf.length) (hbuf : buf.length < 2 ^ 64) :
    Ensures (AxmlAccess.Inside buf.length) P (startElement buf sp chunk cs) fun _ _ => True := by
  refine ensures_bind (ensures_readU32 (by omega)) fun nameIdx => ensures_assume fun _ => ?_
  refine ensures_bind (ensures_axmlString hsp hbuf le_rfl) fun named => ?_
  refine ensures_ite (fun _ => ?_) fun _ => ensures_pure fun _ _ => trivial
  refine ensures_bind (ensures_readU16 (by omega)) fun attrStart => ensures_assume fun _ => ?_
  refine ensures_bind (ensures_readU16 (by omega)) fun attrSize => ensures_assume fun _ => ?_
  refine ensures_bind (ensures_readU16 (by omega)) fun attrCount => ensures_assume fun _ => ?_
  refine ensures_ite (fun hattrs => ?_) fun _ => ensures_pure fun _ _ => trivial
  obtain ⟨hsize, hstart, hroom⟩ := hattrs
  rw [sizeSub_of_le hstart (by omega)] at hroom
  refine ensures_attributes hsp hsize (fun i hi => ?_) hchunk hbuf
  have hlast : (i + 1) * attrSize ≤ attrSize * attrCount := by
    rw [Nat.mul_comm attrSize]
    exact Nat.mul_le_mul_right _ (List.mem_range.1 hi)
  rw [Nat.add_mul, Nat.one_mul] at hlast
  omega

end Attributes

/-! ## The loop over the chunks -/

/-- Every chunk brings the loop 8 bytes or more towards the end of the buffer. -/
theorem ensures_parseChunks {buf : Bytes} {P : ManifestState → Prop} {fuel pos : Nat}
    {sp : Option AxmlStrings} (hsp : ∀ pool ∈ sp, Pool buf pool) (hfuel : buf.length < fuel + pos)
    (hpositive : 0 < fuel) (hbuf : buf.length < 2 ^ 64) :
    Ensures (AxmlAccess.Inside buf.length) P (parseChunks buf fuel sp pos) fun _ _ => True := by
  induction fuel generalizing P sp pos with
  | zero => omega
  | succ fuel ih =>
      have hreturn : ∀ {P : ManifestState → Prop}, Ensures (AxmlAccess.Inside buf.length) P
          (pure () : Axml Unit) fun _ _ => True := fun {_} => ensures_pure fun _ _ => trivial
      refine ensures_ite (fun hpos => ?_) fun _ => hreturn
      refine ensures_bind (ensures_readU16 (by omega)) fun type => ensures_assume fun _ => ?_
      refine ensures_bind (ensures_readU16 (by omega)) fun hs => ensures_assume fun _ => ?_
      refine ensures_bind (ensures_readU32 (by omega)) fun cs => ensures_assume fun _ => ?_
      rw [sizeSub_of_le (by omega) (by omega)]
      refine ensures_ite (fun _ => hreturn) fun hchunk => ?_
      simp only [not_or, not_lt] at hchunk
      obtain ⟨hcs, hhs, hheader, hroom⟩ := hchunk
      refine ensures_ite (fun hpool => ?_) fun _ => ?_
      · refine ensures_bind (ensures_readU32 (by omega)) fun count => ensures_assume fun _ => ?_
        refine ensures_bind (ensures_readU32 (by omega)) fun flags => ensures_assume fun _ => ?_
        refine ensures_bind (ensures_readU32 (by omega)) fun strings => ensures_assume fun _ => ?_
        refine ih ?_ (by omega) (by omega)
        rintro pool ⟨⟩
        exact ⟨by show pos + cs ≤ _; omega, hheader⟩
      cases sp with
      | none => exact ih nofun (by omega) (by omega)
      | some pool =>
          refine ensures_ite (fun helement => ?_) fun _ => ih hsp (by omega) (by omega)
          refine ensures_bind (ensures_startElement (hsp pool rfl) (by omega) (by omega) hbuf)
            fun _ => ih hsp (by omega) (by omega)

/-- The parser on a whole buffer. -/
theorem ensures_parseBuffer {buf : Bytes} {P : ManifestState → Prop} (h : 8 ≤ buf.length)
    (hbuf : buf.length < 2 ^ 64) :
    Ensures (AxmlAccess.Inside buf.length) P (parseBuffer buf) fun _ _ => True := by
  have hreturn : ∀ {P : ManifestState → Prop}, Ensures (AxmlAccess.Inside buf.length) P
      (pure false : Axml Bool) fun _ _ => True := fun {_} => ensures_pure fun _ _ => trivial
  refine ensures_bind (ensures_readU16 (by omega)) fun magic => ensures_assume fun _ => ?_
  refine ensures_ite (fun _ => hreturn) fun _ => ?_
  refine ensures_bind (ensures_readU32 (by omega)) fun total => ensures_assume fun _ => ?_
  refine ensures_ite (fun _ => hreturn) fun _ => ?_
  refine ensures_bind (ensures_readU16 (by omega)) fun pos => ensures_assume fun _ => ?_
  refine ensures_bind (ensures_parseChunks nofun (by omega) (by omega) hbuf) fun _ => ?_
  refine ensures_bind (ensures_getChar (by decide)) fun first => ?_
  refine ensures_ite (fun _ => ?_) fun _ => hreturn
  exact ensures_charsAre (by decide)

/-- For every file, `parse_android_manifest` accesses its buffer and its arrays inside their bounds,
and it returns. -/
theorem manifest_inside (C : ManifestCall) (s : ManifestState) :
    (∀ a ∈ (parseAndroidManifest C s).2.2, a.Inside (C.file.getD []).length) ∧
      ∃ ok, (parseAndroidManifest C s).1 = .ok ok := by
  have hreturn : ∀ {size : Nat} {P : ManifestState → Prop}, Ensures (AxmlAccess.Inside size) P
      (pure false : Axml Bool) fun _ _ => True := fun {_ _} => ensures_pure fun _ _ => trivial
  have hparse : Ensures (AxmlAccess.Inside (C.file.getD []).length) (fun _ => True)
      (parseAndroidManifest C) fun _ _ => True := by
    refine ensures_bind (ensures_putChars (by decide)) fun _ => ?_
    refine ensures_bind (ensures_putChars (by decide)) fun _ => ?_
    refine ensures_bind (Q := fun _ _ => True) (ensures_modify fun _ _ => trivial) fun _ => ?_
    cases C.file with
    | none => exact hreturn
    | some buf =>
        refine ensures_ite (fun _ => hreturn) fun hsize => ?_
        refine ensures_ite (fun _ => hreturn) fun _ => ?_
        simp only [not_or, not_lt] at hsize
        have hshort : buf.length < 2 ^ 64 := by omega
        exact ensures_parseBuffer hsize.2.1 hshort
  obtain ⟨hlog, ok, hok, -⟩ := hparse s trivial
  exact ⟨hlog, ok, hok⟩

end Asnx.Installer
