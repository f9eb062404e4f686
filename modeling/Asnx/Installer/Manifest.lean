import Asnx.Installer.Zip
import Asnx.Library.Accesses
import Mathlib.Algebra.Group.Int.Defs

/-!
# Reading the manifest

The reader of `AndroidManifest.xml` in `source/installer.c`: a binary file of chunks, some of which
are pools of strings and some the starts of elements with their attributes. The functions report
every read of the buffer with the file and every access to the arrays of characters they fill.
Positions and pointers into the buffer are offsets from its start.
-/

namespace Asnx.Installer

open Files Tracing

/-- The arrays of characters. -/
inductive Chars where
  | elem
  | key
  | tmp
  /-- `g_manifest_package` -/
  | package
  /-- `g_manifest_version_name` -/
  | versionName
  deriving DecidableEq

/-- `sizeof` of an array -/
def Chars.size : Chars → Nat
  | elem => 64
  | key => 64
  | tmp => 48
  | package => 128
  | versionName => 128

/-- An access to a number of bytes, in the buffer or in an array. -/
inductive AxmlAccess where
  | read (off n : Nat)
  | chars (out : Chars) (i n : Nat)

/-- What the arrays hold, and the three `g_manifest_*` numbers. -/
structure ManifestState where
  chars : Chars → Nat → UInt8
  versionCode : Int
  minSdk : Int
  targetSdk : Int

/-- The state with other bytes in an array. -/
def ManifestState.fill (s : ManifestState) (out : Chars) (content : Nat → UInt8) : ManifestState :=
  { s with chars := Function.update s.chars out content }

/-- A loop has gone round more often than it was given. -/
inductive Endless where
  | endless

/-- The functions of the reader. -/
abbrev Axml := Traced ManifestState AxmlAccess Endless

/-! ## Accesses -/

section Reads

variable (buf : Bytes)

def readU8 (p : Nat) : Axml Nat := do
  access (.read p 1)
  pure (buf.getD p 0).toNat

/-- `rd16` of the buffer -/
def readU16 (p : Nat) : Axml Nat := do
  access (.read p 2)
  pure (rd16 buf p)

/-- `rd32` of the buffer -/
def readU32 (p : Nat) : Axml Nat := do
  access (.read p 4)
  pure (rd32 buf p)

end Reads

def getChar (out : Chars) (i : Nat) : Axml UInt8 := do
  access (.chars out i 1)
  look fun s => s.chars out i

/-- Writes bytes from an index on, one after the other. -/
def putChars (out : Chars) : Nat → List Nat → Axml Unit
  | _, [] => pure ()
  | i, c :: cs => do
      access (.chars out i 1)
      modify fun s => s.fill out (Function.update (s.chars out) i (UInt8.ofNat c))
      putChars out (i + 1) cs

/-- `memcpy` of a part of the buffer to the start of an array -/
def copyChars (buf : Bytes) (out : Chars) (q n : Nat) : Axml Unit := do
  access (.read q n)
  access (.chars out 0 n)
  modify fun s => s.fill out fun i => if i < n then buf.getD (q + i) 0 else s.chars out i

/-- `strcmp` of an array from an index on with a constant, and whether there is no difference -/
def charsAre (out : Chars) : Nat → Bytes → Axml Bool
  | i, [] => do
      let b ← getChar out i
      pure (decide (b = 0))
  | i, c :: cs => do
      let b ← getChar out i
      if b = c then charsAre out (i + 1) cs else pure false

/-- The string that an array holds, which has no end if no byte is 0. -/
def ManifestState.text (s : ManifestState) (out : Chars) : Bytes :=
  ((List.range out.size).map (s.chars out)).takeWhile (· ≠ 0)

/-- Looks at a string up to its end. -/
def getText (out : Chars) : Axml Bytes := do
  let text ← look fun s => s.text out
  access (.chars out 0 (text.length + 1))
  pure text

/-- The `size_t` of a difference of two pointers, or of two numbers. -/
def sizeSub (a b : Nat) : Nat := (((a : Int) - b) % 2 ^ 64).toNat

/-! ## Strings -/

/-- A pool of strings: the position and the size of its chunk, and the fields of its header. -/
structure AxmlStrings where
  base : Nat
  size : Nat
  count : Nat
  flags : Nat
  stringsStart : Nat
  headerSize : Nat

/-- `axml_u8len`: a length and the number of bytes it takes -/
def axmlU8len (buf : Bytes) (p e : Nat) : Axml (Option (Nat × Nat)) :=
  if p ≥ e then pure none
  else do
    let a ← readU8 buf p
    if a &&& 0x80 ≠ 0 then
      if p + 1 ≥ e then pure none
      else do
        let b ← readU8 buf (p + 1)
        pure (some ((a &&& 0x7f) <<< 8 ||| b, 2))
    else pure (some (a, 1))

/-- `axml_u16len` -/
def axmlU16len (buf : Bytes) (p e : Nat) : Axml (Option (Nat × Nat)) :=
  if sizeSub e p < 2 then pure none
  else do
    let a ← readU16 buf p
    if a &&& 0x8000 ≠ 0 then
      if sizeSub e p < 4 then pure none
      else do
        let b ← readU16 buf (p + 2)
        pure (some ((a &&& 0x7fff) <<< 16 ||| b, 4))
    else pure (some (a, 2))

/-- The loop of `axml_string` over the units of a UTF-16 string, from unit `i` on with `w` bytes
written: how many bytes are written in the end, or `none` for a string that is refused. -/
def utf16Loop (buf : Bytes) (q units : Nat) (out : Chars) (cap : Nat) :
    Nat → Nat → Nat → Axml (Option Nat)
  | 0, _, _ => fail .endless
  | fuel + 1, i, w =>
      if i < units ∧ w + 1 < cap then do
        let c ← readU16 buf (q + i * 2)
        if c < 0x80 then do
          putChars out w [c]
          utf16Loop buf q units out cap fuel (i + 1) (w + 1)
        else if c < 0x800 ∧ w + 2 < cap then do
          putChars out w [0xc0 ||| c >>> 6, 0x80 ||| (c &&& 0x3f)]
          utf16Loop buf q units out cap fuel (i + 1) (w + 2)
        else if c ≥ 0xd800 ∧ c ≤ 0xdbff ∧ i + 1 < units then do
          let lo ← readU16 buf (q + (i + 1) * 2)
          if lo ≥ 0xdc00 ∧ lo ≤ 0xdfff ∧ w + 4 < cap then do
            let cp := 0x10000 + (c - 0xd800) <<< 10 + (lo - 0xdc00)
            putChars out w [0xf0 ||| cp >>> 18, 0x80 ||| (cp >>> 12 &&& 0x3f),
              0x80 ||| (cp >>> 6 &&& 0x3f), 0x80 ||| (cp &&& 0x3f)]
            utf16Loop buf q units out cap fuel (i + 2) (w + 4)
          else pure none
        else if c ≥ 0xdc00 ∧ c ≤ 0xdfff then pure none
        else if w + 3 < cap then do
          putChars out w [0xe0 ||| c >>> 12, 0x80 ||| (c >>> 6 &&& 0x3f), 0x80 ||| (c &&& 0x3f)]
          utf16Loop buf q units out cap fuel (i + 1) (w + 3)
        else pure (some w)
      else pure (some w)

/-- `axml_string` for a string in UTF-8 -/
def utf8String (buf : Bytes) (q e : Nat) (out : Chars) (cap : Nat) : Axml Bool := do
  match ← axmlU8len buf q e with
  | none => pure false
  | some (_, used1) =>
      match ← axmlU8len buf (q + used1) e with
      | none => pure false
      | some (n8, used2) =>
          if n8 > sizeSub e (q + used1 + used2) then pure false
          else do
            let n := if n8 < cap - 1 then n8 else cap - 1
            copyChars buf out (q + used1 + used2) n
            putChars out n [0]
            pure true

/-- `axml_string` for a string in UTF-16 -/
def utf16String (buf : Bytes) (q e : Nat) (out : Chars) (cap : Nat) : Axml Bool := do
  match ← axmlU16len buf q e with
  | none => pure false
  | some (units, used) =>
      if units > sizeSub e (q + used) / 2 then pure false
      else do
        match ← utf16Loop buf (q + used) units out cap (units + 1) 0 0 with
        | none => pure false
        | some w => do
            putChars out w [0]
            pure true

/-- `axml_string`, and whether it returns 0 -/
def axmlString (buf : Bytes) (sp : AxmlStrings) (idx : Nat) (out : Chars) (cap : Nat) : Axml Bool :=
  if cap = 0 ∨ idx ≥ sp.count then pure false
  else if sizeSub (sp.base + sp.size) (sp.base + sp.headerSize) < sp.count * 4 then pure false
  else do
    let off ← readU32 buf (sp.base + sp.headerSize + idx * 4)
    if sp.stringsStart > sp.size ∨ off > sizeSub sp.size sp.stringsStart then pure false
    else if sp.flags &&& 0x100 ≠ 0 then
      utf8String buf (sp.base + sp.stringsStart + off) (sp.base + sp.size) out cap
    else utf16String buf (sp.base + sp.stringsStart + off) (sp.base + sp.size) out cap

/-! ## Numbers -/

/-- `isspace` -/
def isSpace (b : UInt8) : Bool := b = 32 ∨ 9 ≤ b ∧ b ≤ 13

/-- The value of a digit or letter, 36 for anything else. -/
def digitOf (b : UInt8) : Nat :=
  if 48 ≤ b ∧ b ≤ 57 then b.toNat - 48
  else if 97 ≤ b ∧ b ≤ 122 then b.toNat - 87
  else if 65 ≤ b ∧ b ≤ 90 then b.toNat - 55
  else 36

/-- A number in hexadecimal: `0x` with a digit after it. -/
def isHex : Bytes → Bool
  | 48 :: x :: d :: _ => (x = 120 ∨ x = 88) ∧ digitOf d < 16
  | _ => false

/-- The number whose digits begin at an index, and the index after them; 0 for no digits. -/
def readDigits (s : Bytes) (start base : Nat) (negative : Bool) : Int × Nat :=
  let digits := (s.drop start).takeWhile fun b => decide (digitOf b < base)
  if digits = [] then (0, 0)
  else
    let value : Int := digits.foldl (fun n d => n * base + digitOf d) 0
    (max (-2 ^ 63) (min (2 ^ 63 - 1) (if negative then -value else value)), start + digits.length)

/-- `strtol` with base 0: the value and the number of bytes it is read from -/
def strtol (s : Bytes) : Int × Nat :=
  let spaces := (s.takeWhile isSpace).length
  let sign := (s.drop spaces).head?
  let signed := spaces + if sign = some 43 ∨ sign = some 45 then 1 else 0
  if isHex (s.drop signed) then readDigits s (signed + 2) 16 (sign = some 45)
  else if (s.drop signed).head? = some 48 then readDigits s signed 8 (sign = some 45)
  else readDigits s signed 10 (sign = some 45)

/-! ## Attributes -/

/-- `axml_attr_string`, and whether it returns 0 -/
def axmlAttrString (buf : Bytes) (sp : AxmlStrings) (a e : Nat) (out : Chars)
    (cap : Nat) : Axml Bool :=
  if sizeSub e a < 20 then pure false
  else do
    let raw ← readU32 buf (a + 8)
    let type ← readU8 buf (a + 15)
    let data ← readU32 buf (a + 16)
    if raw ≠ 0xffffffff then axmlString buf sp raw out cap
    else if type = 0x03 then axmlString buf sp data out cap
    else pure false

/-- `axml_attr_int`; `out` is the number it sets. -/
def axmlAttrInt (buf : Bytes) (sp : AxmlStrings) (a e : Nat)
    (out : Int → ManifestState → ManifestState) : Axml Bool :=
  if sizeSub e a < 20 then pure false
  else do
    let type ← readU8 buf (a + 15)
    let data ← readU32 buf (a + 16)
    if type = 0x10 ∨ type = 0x11 then do
      modify (out (BitVec.ofNat 32 data).toInt)
      pure true
    else do
      let found ← axmlAttrString buf sp a e .tmp Chars.tmp.size
      if found then do
        let text ← getText .tmp
        let stop ← getChar .tmp (strtol text).2
        if stop = 0 ∧ -2 ^ 31 ≤ (strtol text).1 ∧ (strtol text).1 ≤ 2 ^ 31 - 1 then do
          modify (out (strtol text).1)
          pure true
        else pure false
      else pure false

def setVersionCode (v : Int) (s : ManifestState) : ManifestState := { s with versionCode := v }
def setMinSdk (v : Int) (s : ManifestState) : ManifestState := { s with minSdk := v }
def setTargetSdk (v : Int) (s : ManifestState) : ManifestState := { s with targetSdk := v }

/-! ## The loops -/

/-- What `parse_android_manifest` does with an attribute whose name has been read. -/
def parseAttribute (buf : Bytes) (sp : AxmlStrings) (a e : Nat) : Axml Bool := do
  if ← charsAre .elem 0 (bytes "manifest") then
    if ← charsAre .key 0 (bytes "package") then
      axmlAttrString buf sp a e .package Chars.package.size
    else if ← charsAre .key 0 (bytes "versionName") then
      axmlAttrString buf sp a e .versionName Chars.versionName.size
    else if ← charsAre .key 0 (bytes "versionCode") then axmlAttrInt buf sp a e setVersionCode
    else pure false
  else if ← charsAre .elem 0 (bytes "uses-sdk") then
    if ← charsAre .key 0 (bytes "minSdkVersion") then axmlAttrInt buf sp a e setMinSdk
    else if ← charsAre .key 0 (bytes "targetSdkVersion") then axmlAttrInt buf sp a e setTargetSdk
    else pure false
  else pure false

/-- The loop over the attributes of an element; the list holds the indices that are left. -/
def attributes (buf : Bytes) (sp : AxmlStrings) (attrs attrSize e : Nat) : List Nat → Axml Unit
  | [] => pure ()
  | i :: is => do
      let attrNameIdx ← readU32 buf (attrs + i * attrSize + 4)
      let named ← axmlString buf sp attrNameIdx .key Chars.key.size
      if named then do
        let _ ← parseAttribute buf sp (attrs + i * attrSize) e
        attributes buf sp attrs attrSize e is
      else attributes buf sp attrs attrSize e is

/-- The start of an element: a chunk with its name and its attributes. -/
def startElement (buf : Bytes) (sp : AxmlStrings) (chunk cs : Nat) : Axml Unit := do
  let nameIdx ← readU32 buf (chunk + 16 + 4)
  let named ← axmlString buf sp nameIdx .elem Chars.elem.size
  if named then do
    let attrStart ← readU16 buf (chunk + 16 + 8)
    let attrSize ← readU16 buf (chunk + 16 + 10)
    let attrCount ← readU16 buf (chunk + 16 + 12)
    if attrSize ≥ 20 ∧ chunk + 16 + attrStart ≤ chunk + cs ∧
        sizeSub (chunk + cs) (chunk + 16 + attrStart) ≥ attrSize * attrCount then
      attributes buf sp (chunk + 16 + attrStart) attrSize (chunk + cs) (List.range attrCount)
    else pure ()
  else pure ()

/-- The loop over the chunks, from position `pos` on with the pool of strings read last. -/
def parseChunks (buf : Bytes) : Nat → Option AxmlStrings → Nat → Axml Unit
  | 0, _, _ => fail .endless
  | fuel + 1, sp, pos =>
      if pos + 8 ≤ buf.length then do
        let type ← readU16 buf pos
        let hs ← readU16 buf (pos + 2)
        let cs ← readU32 buf (pos + 4)
        if cs < 8 ∨ hs < 8 ∨ hs > cs ∨ cs > sizeSub buf.length pos then pure ()
        else if type = 0x0001 ∧ hs ≥ 28 then do
          let count ← readU32 buf (pos + 8)
          let flags ← readU32 buf (pos + 16)
          let stringsStart ← readU32 buf (pos + 20)
          parseChunks buf fuel (some
            { base := pos, size := cs, count := count, flags := flags,
              stringsStart := stringsStart, headerSize := hs }) (pos + cs)
        else
          match sp with
          | none => parseChunks buf fuel sp (pos + cs)
          | some pool =>
              if type = 0x0102 ∧ hs ≥ 16 ∧ cs ≥ 36 then do
                startElement buf pool pos cs
                parseChunks buf fuel sp (pos + cs)
              else parseChunks buf fuel sp (pos + cs)
      else pure ()

/-- What the calls that `parse_android_manifest` makes come to: the content of the file (`none` if
it cannot be opened), whether its size is told, whether the file is rewound, whether the buffer is
allocated and whether the file is read in full. -/
structure ManifestCall where
  file : Option Bytes
  told : Bool
  rewound : Bool
  allocated : Bool
  readWhole : Bool

/-- `parse_android_manifest` from the first look at the buffer on -/
def parseBuffer (buf : Bytes) : Axml Bool := do
  let magic ← readU16 buf 0
  if magic ≠ 0x0003 then pure false
  else do
    let total ← readU32 buf 4
    if total > buf.length then pure false
    else do
      let pos ← readU16 buf 2
      -- each chunk has 8 bytes or more
      parseChunks buf (buf.length + 1) none pos
      let first ← getChar .package 0
      if first ≠ 0 then charsAre .package 0 gamePackage else pure false

/-- `parse_android_manifest`, and whether it returns 0 -/
def parseAndroidManifest (C : ManifestCall) : Axml Bool := do
  putChars .package 0 [0]
  putChars .versionName 0 [0]
  modify fun s => { s with versionCode := -1, minSdk := -1, targetSdk := -1 }
  match C.file with
  | none => pure false
  | some buf =>
      if C.told = false ∨ buf.length < 8 ∨ buf.length > 8 * 1024 * 1024 then pure false
      else if C.rewound = false ∨ C.allocated = false ∨ C.readWhole = false then pure false
      else parseBuffer buf

end Asnx.Installer
