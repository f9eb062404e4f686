import Mathlib.Data.List.Basic
import Mathlib.Data.List.TakeDrop

/-!
# Multibyte and wide strings

`nx_utf8_decode`, `nx_utf8_encode`, `nx_mbsnrtowcs` and `nx_wcsnrtombs` of `source/imports.c`. A
source pointer is the list of what lies behind it, `none` when it is `NULL`; a call looks at the
first `nms` (or `nwc`) units of it and not beyond a zero. A destination is the buffer it points to.
A `wchar_t` has 32 bits.
-/

namespace Asnx.Imports

/-! ## One character -/

/-- What `nx_utf8_decode` returns: 0, 1 with `*cp` and `*used`, or -1. -/
inductive Decoded where
  | nothing
  | character (cp used : Nat)
  | malformed
  deriving DecidableEq, Repr

/-- `nx_utf8_decode` -/
def nxUtf8Decode (p : List UInt8) : Decoded :=
  let n := p.length
  let byte (i : Nat) : Nat := (p.getD i 0).toNat
  let c := byte 0
  if n = 0 then .nothing
  else if c < 0x80 then .character c 1
  else if c &&& 0xe0 = 0xc0 ∧ 2 ≤ n ∧ byte 1 &&& 0xc0 = 0x80 then
    let v := (c &&& 0x1f) <<< 6 ||| (byte 1 &&& 0x3f)
    if v < 0x80 then .malformed else .character v 2
  else if c &&& 0xf0 = 0xe0 ∧ 3 ≤ n ∧ byte 1 &&& 0xc0 = 0x80 ∧ byte 2 &&& 0xc0 = 0x80 then
    let v := (c &&& 0x0f) <<< 12 ||| (byte 1 &&& 0x3f) <<< 6 ||| (byte 2 &&& 0x3f)
    if v < 0x800 ∨ (0xd800 ≤ v ∧ v ≤ 0xdfff) then .malformed else .character v 3
  else if c &&& 0xf8 = 0xf0 ∧ 4 ≤ n ∧ byte 1 &&& 0xc0 = 0x80 ∧ byte 2 &&& 0xc0 = 0x80 ∧
      byte 3 &&& 0xc0 = 0x80 then
    let v := (c &&& 7) <<< 18 ||| (byte 1 &&& 0x3f) <<< 12 ||| (byte 2 &&& 0x3f) <<< 6 |||
      (byte 3 &&& 0x3f)
    if v < 0x10000 ∨ v > 0x10ffff then .malformed else .character v 4
  else .malformed

/-- `nx_utf8_encode`: the bytes it puts into `out`, none when it returns 0. -/
def nxUtf8Encode (cp : Nat) : List UInt8 :=
  if cp < 0x80 then [UInt8.ofNat cp]
  else if cp < 0x800 then [UInt8.ofNat (0xc0 ||| cp >>> 6), UInt8.ofNat (0x80 ||| (cp &&& 0x3f))]
  else if cp ≥ 0xd800 ∧ cp ≤ 0xdfff then []
  else if cp < 0x10000 then
    [UInt8.ofNat (0xe0 ||| cp >>> 12), UInt8.ofNat (0x80 ||| (cp >>> 6 &&& 0x3f)),
      UInt8.ofNat (0x80 ||| (cp &&& 0x3f))]
  else if cp ≤ 0x10ffff then
    [UInt8.ofNat (0xf0 ||| cp >>> 18), UInt8.ofNat (0x80 ||| (cp >>> 12 &&& 0x3f)),
      UInt8.ofNat (0x80 ||| (cp >>> 6 &&& 0x3f)), UInt8.ofNat (0x80 ||| (cp &&& 0x3f))]
  else []

/-! ## The calls -/

/-- The values the two calls give `errno`. -/
inductive Errno where
  | einval
  | eilseq
  deriving DecidableEq, Repr

/-- What a call leaves in `*src`. -/
inductive Source where
  | unchanged
  | null
  | advanced (count : Nat)
  deriving DecidableEq, Repr

/-- The outcome of a call. `ret` is `none` when it returns `(size_t)-1`. -/
structure Conversion (α : Type) where
  ret : Option Nat
  errno : Option Errno
  dst : Option (List α)
  src : Source
  deriving DecidableEq, Repr

variable {α : Type}

/-- `memcpy(dst+out,xs,n)` -/
def memcpy (dst : List α) (out : Nat) (xs : List α) : List α :=
  dst.take out ++ xs ++ dst.drop (out + xs.length)

/-- `errno=EINVAL` or `EILSEQ` and `return(size_t)-1` -/
def fail (e : Errno) (dst : Option (List α)) : Conversion α := ⟨none, some e, dst, .unchanged⟩

/-- The source is used up: `if(dst)*src=p; return out;` -/
def finish (dst : Option (List α)) (read out : Nat) : Conversion α :=
  ⟨some out, none, dst, if dst.isSome then .advanced read else .unchanged⟩

/-- The terminator is reached: `if(dst&&out<len)dst[out]=0;if(dst)*src=NULL;return out;` -/
def terminate (dst : Option (List α)) (zero : α) (len out : Nat) : Conversion α :=
  ⟨some out, none, dst.map fun buffer => if out < len then memcpy buffer out [zero] else buffer,
    if dst.isSome then .null else .unchanged⟩

/-- A character uses a byte. -/
theorem used_pos {p : List UInt8} {cp used : Nat} (h : nxUtf8Decode p = .character cp used) :
    0 < used := by
  unfold nxUtf8Decode at h
  dsimp only at h
  split_ifs at h <;> cases h <;> decide

/-- The loop of `nx_mbsnrtowcs`. `p` is what is left of the source, of which `read` bytes are
converted. -/
def mbsnrtowcsLoop (len : Nat) (dst : Option (List UInt32)) (p : List UInt8) (read out : Nat) :
    Conversion UInt32 :=
  if _ : p = [] then finish dst read out
  else
    match _ : nxUtf8Decode p with
    | .nothing | .malformed => fail .eilseq dst
    | .character cp used =>
      if cp = 0 then terminate dst 0 len out
      else
        match dst with
        | some buffer =>
          if out ≥ len then ⟨some out, none, some buffer, .advanced read⟩
          else mbsnrtowcsLoop len (some (memcpy buffer out [UInt32.ofNat cp])) (p.drop used)
            (read + used) (out + 1)
        | none => mbsnrtowcsLoop len none (p.drop used) (read + used) (out + 1)
termination_by p.length
decreasing_by
  all_goals
    have hused := used_pos ‹_›
    have hlength := List.length_pos_iff.2 ‹p ≠ []›
    rw [List.length_drop]
    omega

/-- `nx_mbsnrtowcs` -/
def nxMbsnrtowcs (dst : Option (List UInt32)) (src : Option (List UInt8)) (nms len : Nat) :
    Conversion UInt32 :=
  match src with
  | none => fail .einval dst
  | some p => mbsnrtowcsLoop len dst (p.take nms) 0 0

/-- The loop of `nx_wcsnrtombs`. -/
def wcsnrtombsLoop (len : Nat) (dst : Option (List UInt8)) : List UInt32 → (read out : Nat) →
    Conversion UInt8
  | [], read, out => finish dst read out
  | c :: p, read, out =>
    let cp := c.toNat
    let enc := nxUtf8Encode cp
    let n := enc.length
    if cp = 0 then terminate dst 0 len out
    else if n = 0 then fail .eilseq dst
    else
      match dst with
      | some buffer =>
        if out + n > len then ⟨some out, none, some buffer, .advanced read⟩
        else wcsnrtombsLoop len (some (memcpy buffer out enc)) p (read + 1) (out + n)
      | none => wcsnrtombsLoop len none p (read + 1) (out + n)

/-- `nx_wcsnrtombs` -/
def nxWcsnrtombs (dst : Option (List UInt8)) (src : Option (List UInt32)) (nwc len : Nat) :
    Conversion UInt8 :=
  match src with
  | none => fail .einval dst
  | some p => wcsnrtombsLoop len dst (p.take nwc) 0 0

end Asnx.Imports
