import Asnx.Jni.Objects
import Asnx.Library.Unicode

/-!
# String views

`utf16_length_utf8` and the string functions of the `JNIEnv` in `source/jni_fake.c`. A string object
holds bytes, and each function has its own view of them. `j_GetStringLength` counts the units of
UTF-16, the views agree on what is below 128, and `j_NewString` keeps what is below 128
(`string_views_agree`).
-/

namespace Asnx.Jni

open Files Unicode

/-! ## The functions -/

/-- One round of `utf16_length_utf8`: how far `p` moves, and how many units are counted. The bytes
have no zero, so a byte is not 0 where there is one. -/
def utf16Step (p : Bytes) : Nat × Nat :=
  let byte (i : Nat) : Nat := (p.getD i 0).toNat
  let c := byte 0
  if c < 0x80 then (1, 1)
  else if c &&& 0xe0 = 0xc0 ∧ byte 1 ≠ 0 ∧ byte 1 &&& 0xc0 = 0x80 then (2, 1)
  else if c &&& 0xf0 = 0xe0 ∧ byte 1 ≠ 0 ∧ byte 2 ≠ 0 ∧ byte 1 &&& 0xc0 = 0x80 ∧
      byte 2 &&& 0xc0 = 0x80 then (3, 1)
  else if c &&& 0xf8 = 0xf0 ∧ byte 1 ≠ 0 ∧ byte 2 ≠ 0 ∧ byte 3 ≠ 0 ∧ byte 1 &&& 0xc0 = 0x80 ∧
      byte 2 &&& 0xc0 = 0x80 ∧ byte 3 &&& 0xc0 = 0x80 then (4, 2)
  else (1, 1)

/-- Each round moves on. -/
theorem utf16Step_pos (p : Bytes) : 0 < (utf16Step p).1 := by
  unfold utf16Step
  dsimp only
  split_ifs <;> decide

/-- The loop of `utf16_length_utf8`. -/
def utf16LengthUtf8Loop (p : Bytes) (units : Nat) : Nat :=
  if _ : p = [] then units
  else
    let step := utf16Step p
    let units := units + step.2
    if units > 0x7fffffff then 0x7fffffff else utf16LengthUtf8Loop (p.drop step.1) units
termination_by p.length
decreasing_by
  have hused := utf16Step_pos p
  have hlength := List.length_pos_iff.2 ‹p ≠ []›
  rw [List.length_drop]
  omega

/-- `utf16_length_utf8` -/
def utf16LengthUtf8 (s : CString) : Nat := utf16LengthUtf8Loop s.bytes 0

/-- `(u[i]<128)?(char)u[i]:'?'` -/
def newStringByte (u : UInt16) : UInt8 := if u < 128 then UInt8.ofNat u.toNat else 63

/-- `j_NewString`. The units are the first `n` from `u` on, none when `u` is `NULL` or `n<=0`. -/
def jNewString (units : List UInt16) (env : Env) : Word × Env :=
  if units = [] then jniNewString (text "") env
  else
    let (s, env) := malloc env
    if s = 0 then (0, env)
    else jniNewString (cString (units.map newStringByte)) env

/-- `j_GetStringLength` -/
def jGetStringLength (env : Env) (s : Word) : Nat := utf16LengthUtf8 (jniStringUtf8 env s)

/-- What a function for the characters of a string returns, with `*copy`. -/
structure Chars (α : Type) where
  chars : α
  copy : Bool
  deriving DecidableEq, Repr

/-- `j_GetStringChars`: the units with their terminator, `NULL` when the allocation fails. -/
def jGetStringChars (env : Env) (s : Word) : Option (Chars (List UInt16)) × Env :=
  let p := (jniStringUtf8 env s).bytes
  let (w, env) := malloc env
  (if w = 0 then none else some ⟨p.map (fun b => UInt16.ofNat b.toNat) ++ [0], true⟩, env)

/-- `j_GetStringUTFLength` -/
def jGetStringUTFLength (env : Env) (s : Word) : Nat := jGetStringLength env s

/-- `j_GetStringUTFChars` -/
def jGetStringUTFChars (env : Env) (s : Word) : Chars CString := ⟨jniStringUtf8 env s, false⟩

/-! ## The length in units -/

/-- A round counts the units of the character in front. -/
theorem utf16Step_encode (c : Char) (rest : Bytes) :
    utf16Step (String.utf8EncodeChar c ++ rest) =
      ((String.utf8EncodeChar c).length, (utf16EncodeChar c).length) := by
  have hscalar := scalar c
  rw [length_utf16EncodeChar]
  unfold utf16Step
  simp only [and_c0, and_e0, and_f0, and_f8]
  rcases length_cases c with h | ⟨hlow, h⟩ | ⟨hlow, h⟩ | hlow
  · rw [encode_one h]
    simp only [List.cons_append, List.nil_append, List.length_cons, List.length_nil,
      List.getD_cons_zero, UInt8.toNat_ofNat']
    rw [if_pos (by omega), if_pos (by omega)]
  · rw [encode_two hlow h]
    simp only [List.cons_append, List.nil_append, List.length_cons, List.length_nil,
      List.getD_cons_zero, List.getD_cons_succ, UInt8.toNat_ofNat']
    rw [if_neg (by omega), if_pos (by omega), if_pos (by omega)]
  · rw [encode_three hlow h]
    simp only [List.cons_append, List.nil_append, List.length_cons, List.length_nil,
      List.getD_cons_zero, List.getD_cons_succ, UInt8.toNat_ofNat']
    rw [if_neg (by omega), if_neg (by omega), if_pos (by omega), if_pos (by omega)]
  · rw [encode_four hlow]
    simp only [List.cons_append, List.nil_append, List.length_cons, List.length_nil,
      List.getD_cons_zero, List.getD_cons_succ, UInt8.toNat_ofNat']
    rw [if_neg (by omega), if_neg (by omega), if_neg (by omega), if_pos (by omega),
      if_neg (by omega)]

/-- The loop counts the units of a text, up to `INT_MAX`. -/
theorem utf16LengthUtf8Loop_utf8 (cs : List Char) {units : Nat} (h : units ≤ 0x7fffffff) :
    utf16LengthUtf8Loop (utf8 cs) units = min (units + (utf16 cs).length) 0x7fffffff := by
  induction cs generalizing units with
  | nil =>
      rw [utf16LengthUtf8Loop, dif_pos utf8_nil, utf16_nil, List.length_nil]
      omega
  | cons c cs ih =>
      have hne : utf8 (c :: cs) ≠ [] := fun h => by
        rw [utf8_cons] at h
        exact String.utf8EncodeChar_ne_nil (List.append_eq_nil_iff.1 h).1
      rw [utf16LengthUtf8Loop, dif_neg hne, utf8_cons, utf16Step_encode, utf16_cons,
        List.length_append]
      dsimp only
      rw [List.drop_left]
      split
      · omega
      · rw [ih (by omega), Nat.add_assoc]

/-- The length of a string object that holds a text. -/
theorem utf16LengthUtf8_utf8 {s : CString} {cs : List Char} (h : s.bytes = utf8 cs) :
    utf16LengthUtf8 s = min (utf16 cs).length 0x7fffffff := by
  unfold utf16LengthUtf8
  rw [h, utf16LengthUtf8Loop_utf8 cs (Nat.zero_le _), Nat.zero_add]

/-- The units that `j_GetStringChars` returns are the bytes, one by one. -/
theorem jGetStringChars_eq {env : Env} {p : Word} {s : CString} (hs : jniStringUtf8 env p = s)
    (hmalloc : (malloc env).1 ≠ 0) : ∃ w, (jGetStringChars env p).1 = some w ∧
      w.chars.take s.bytes.length = s.bytes.map fun b => UInt16.ofNat b.toNat := by
  have hlength : (s.bytes.map fun b => UInt16.ofNat b.toNat).length = s.bytes.length :=
    List.length_map _
  refine ⟨⟨s.bytes.map (fun b => UInt16.ofNat b.toNat) ++ [0], true⟩, ?_, List.take_left' hlength⟩
  unfold jGetStringChars
  dsimp only
  rw [if_neg hmalloc, hs]

/-! ## Strings made of units -/

/-- A byte of `j_NewString` is below 128, and is 0 only for the unit 0. -/
theorem newStringByte_bounds {u : UInt16} (h : u ≠ 0) :
    (newStringByte u).toNat < 128 ∧ newStringByte u ≠ 0 := by
  have hne : u.toNat ≠ 0 := fun h0 => h (UInt16.toNat_inj.1 h0)
  unfold newStringByte
  split
  · case isTrue hu =>
      have hlt : u.toNat < 128 := UInt16.lt_iff_toNat_lt.1 hu
      have hbyte : (UInt8.ofNat u.toNat).toNat = u.toNat :=
        UInt8.toNat_ofNat_of_lt' (show u.toNat < 256 by omega)
      refine ⟨by omega, fun h0 => hne ?_⟩
      rw [← hbyte, h0]
      rfl
  · exact ⟨by decide, by decide⟩

/-- The unit that a byte of `j_NewString` is read back as. -/
def keptUnit (u : UInt16) : UInt16 := UInt16.ofNat (newStringByte u).toNat

/-- Units below 128 are kept, others are not. -/
theorem keptUnit_eq_iff (u : UInt16) : keptUnit u = u ↔ u < 128 := by
  unfold keptUnit newStringByte
  split
  · case isTrue hu =>
      have hlt : u.toNat < 128 := UInt16.lt_iff_toNat_lt.1 hu
      rw [UInt8.toNat_ofNat_of_lt' (show u.toNat < 256 by omega), UInt16.ofNat_toNat]
      exact iff_of_true rfl hu
  · case isFalse hu =>
      refine iff_of_false (fun heq => hu ?_) hu
      rw [← heq]
      decide

/-- All units are kept exactly when all are below 128. -/
theorem map_keptUnit_eq_iff (units : List UInt16) :
    units.map keptUnit = units ↔ ∀ u ∈ units, u < 128 := by
  induction units with
  | nil => simp
  | cons u units ih =>
      rw [List.map_cons, List.cons.injEq, keptUnit_eq_iff, ih, List.forall_mem_cons]

/-- What `j_NewString` makes: a string object of the bytes of its units. -/
theorem jNewString_object {env : Env} (henv : env.Plenty) {units : List UInt16}
    (hzero : ∀ u ∈ units, u ≠ 0) :
    (jNewString units env).2.Plenty ∧
      ∃ o s, asObj (jNewString units env).2 (jNewString units env).1 = some o ∧ o.kind = .string ∧
        o.name = some s ∧ s.bytes = units.map newStringByte := by
  have hbytes : (0 : UInt8) ∉ units.map newStringByte := by
    intro h
    obtain ⟨u, hu, h0⟩ := List.mem_map.1 h
    exact (newStringByte_bounds (hzero u hu)).2 h0
  unfold jNewString
  split
  · case isTrue hnil =>
      refine ⟨henv.objNew .string _ _ _, _, _, asObj_objNew henv _ _ _ _, rfl, rfl, ?_⟩
      rw [hnil]
      rfl
  · obtain ⟨hp, hrest⟩ := henv.malloc
    dsimp only
    rw [if_neg hp]
    exact ⟨hrest.objNew .string _ _ _, _, _, asObj_objNew hrest _ _ _ _, rfl, rfl,
      cString_bytes hbytes⟩

/-! ## The views -/

/-- The views of a string object agree on its bytes, on its length in units and, below 128, on
everything, where the allocation of the units succeeds; a string made of units has as many, and
gives exactly those below 128 back. -/
theorem string_views_agree :
    (∀ (env : Env) (p : Word) (o : FakeObj) (s : CString) (cs : List Char),
      asObj env p = some o → o.kind = .string → o.name = some s → s.bytes = utf8 cs →
      (jGetStringUTFChars env p).chars = s ∧
        jGetStringLength env p = min (utf16 cs).length 0x7fffffff ∧
        ((∀ b ∈ s.bytes, b.toNat < 128) → s.bytes.length ≤ 0x7fffffff →
          jGetStringUTFLength env p = s.bytes.length ∧
            ((malloc env).1 = 0 → (jGetStringChars env p).1 = none) ∧
            ((malloc env).1 ≠ 0 → ∃ w, (jGetStringChars env p).1 = some w ∧
              w.chars.take (jGetStringLength env p) = utf16 cs))) ∧
    ∀ (env : Env) (units : List UInt16), env.Plenty → (∀ u ∈ units, u ≠ 0) →
      units.length ≤ 0x7fffffff →
      (∃ o, asObj (jNewString units env).2 (jNewString units env).1 = some o ∧ o.kind = .string) ∧
        jGetStringLength (jNewString units env).2 (jNewString units env).1 = units.length ∧
        ∃ w, (jGetStringChars (jNewString units env).2 (jNewString units env).1).1 = some w ∧
          w.chars.take units.length = units.map keptUnit ∧
            (w.chars.take units.length = units ↔ ∀ u ∈ units, u < 128) := by
  constructor
  · intro env p o s cs ho hkind hname hcs
    have hs := jniStringUtf8_of_string ho hkind hname
    have hlength : jGetStringLength env p = min (utf16 cs).length 0x7fffffff := by
      unfold jGetStringLength
      rw [hs, utf16LengthUtf8_utf8 hcs]
    refine ⟨hs, hlength, fun hascii hshort => ?_⟩
    -- below 128 there is one unit for each byte
    have hunits : utf16 cs = s.bytes.map fun b => UInt16.ofNat b.toNat := by
      rw [hcs] at hascii ⊢
      exact utf16_eq_utf8 hascii
    have hbytes : jGetStringLength env p = s.bytes.length := by
      rw [hlength, hunits, List.length_map]
      omega
    refine ⟨hbytes, fun hfailed => if_pos hfailed, fun hmalloc => ?_⟩
    rw [hbytes, hunits]
    exact jGetStringChars_eq hs hmalloc
  · intro env units henv hzero hshort
    obtain ⟨hplenty, o, s, ho, hkind, hname, hbytes⟩ := jNewString_object henv hzero
    have hs := jniStringUtf8_of_string ho hkind hname
    have hascii : ∀ b ∈ units.map newStringByte, b.toNat < 128 := by
      intro b hb
      obtain ⟨u, hu, rfl⟩ := List.mem_map.1 hb
      exact (newStringByte_bounds (hzero u hu)).1
    -- every unit has become a byte below 128, so the bytes are a text again
    have htext := eq_utf8_of_ascii hascii
    have hcount : (units.map newStringByte).length = units.length := List.length_map _
    refine ⟨⟨o, ho, hkind⟩, ?_, ?_⟩
    · unfold jGetStringLength
      rw [hs, utf16LengthUtf8_utf8 (hbytes.trans htext), utf16_eq_utf8 (htext ▸ hascii),
        List.length_map, ← htext, hcount]
      omega
    · obtain ⟨w, hw, htake⟩ := jGetStringChars_eq hs hplenty.malloc.1
      rw [hbytes, hcount, List.map_map] at htake
      have hkept : w.chars.take units.length = units.map keptUnit := htake
      exact ⟨w, hw, hkept, by rw [hkept, map_keptUnit_eq_iff]⟩

/-- An environment without objects, whose allocations succeed. -/
def startEnv : Env where
  heap := fun _ => none
  allocated := fun k => 16 * (BitVec.ofNat 64 k) + 16
  allocations := 0
  gObjs := []
  quitRequested := false
  pool := fun _ => 0
  nextSlot := 0
  trace := []
  fakeContextObj := 0
  packageName := none
  androidWidth := 1280
  androidHeight := 720

/-- The views of a character of two bytes differ, and the string made of its unit is another one. -/
theorem string_views_differ :
    let accent := jniNewString (cString [0xc3, 0xa9]) startEnv
    let units := jGetStringLength accent.2 accent.1
    let made := jNewString [0xe9] startEnv
    ValidUtf8 (jGetStringUTFChars accent.2 accent.1).chars.bytes ∧
      utf8 [Char.ofNat 0xe9] = (jGetStringUTFChars accent.2 accent.1).chars.bytes ∧
      jGetStringUTFLength accent.2 accent.1 ≠
        (jGetStringUTFChars accent.2 accent.1).chars.bytes.length ∧
      (jGetStringChars accent.2 accent.1).1.map (fun w => w.chars.take units) ≠
        some (utf16 [Char.ofNat 0xe9]) ∧
      (jGetStringChars made.2 made.1).1.map (fun w => w.chars.take 1) ≠ some [0xe9] := by
  have htext : (cString [0xc3, 0xa9]).bytes = utf8 [Char.ofNat 0xe9] := by decide
  have hone : jGetStringLength (jniNewString (cString [0xc3, 0xa9]) startEnv).2
      (jniNewString (cString [0xc3, 0xa9]) startEnv).1 = 1 := utf16LengthUtf8_utf8 htext
  intro accent units made
  refine ⟨⟨_, htext⟩, by decide, ?_, ?_, by decide⟩
  · show jGetStringLength _ _ ≠ _
    rw [hone]
    decide
  · show _ ≠ _
    rw [show units = 1 from hone]
    decide

end Asnx.Jni
