import Asnx.Installer.Extract

/-!
# The patch of the credits

`credits_patch_apply` of `source/credits_patch.c`: it writes `data.unity3d` anew with another block
info and another block 325, to a sibling that then takes the place of the file. The two arrays of
`source/credits_patch_data.h` are a parameter (`CreditsData`), with the lengths that the static
assertions give them.
-/

namespace Asnx.Installer.Credits

open Interrupted Files

/-! ## The data -/

/-- `CREDITS_OLD_TOTAL` -/
def creditsOldTotal : Nat := 122966182
/-- `CREDITS_NEW_TOTAL` -/
def creditsNewTotal : Nat := 122962293
/-- `CREDITS_OLD_DATA_POS` -/
def creditsOldDataPos : Nat := 19536
/-- `CREDITS_NEW_DATA_POS` -/
def creditsNewDataPos : Nat := 19584
/-- `CREDITS_OLD_BLOCK_POS` -/
def creditsOldBlockPos : Nat := 16958255
/-- `CREDITS_OLD_AFTER_BLOCK` -/
def creditsOldAfterBlock : Nat := 16984150
/-- `CREDITS_HEADER_TOTAL_OFF` -/
def creditsHeaderTotalOff : Nat := 29
/-- `CREDITS_HEADER_CBI_OFF` -/
def creditsHeaderCbiOff : Nat := 37
/-- `CREDITS_NEW_CBI_SIZE` -/
def creditsNewCbiSize : Nat := 19515
/-- `CREDITS_NEW_BLOCK_SIZE` -/
def creditsNewBlockSize : Nat := 21958

/-- The arrays of the header file. -/
structure CreditsData where
  gCreditsBlockinfo : Bytes
  gCreditsBlock325 : Bytes
  blockinfo_size : gCreditsBlockinfo.length = creditsNewCbiSize
  block_size : gCreditsBlock325.length = creditsNewBlockSize

/-- `path`, `tmp` and `bak` of `credits_patch_apply` -/
def bundlePath : Bytes := inDataRoot dataName
def bundleTmp : Bytes := bundlePath ++ bytes ".porttmp"
def bundleBak : Bytes := bundlePath ++ bytes ".portbak"

/-! ## Big-endian numbers -/

/-- `be32_load` of `p + off` -/
def be32Load (p : Bytes) (off : Nat) : UInt32 :=
  (p.getD off 0).toUInt32 <<< 24 ||| (p.getD (off + 1) 0).toUInt32 <<< 16 |||
    (p.getD (off + 2) 0).toUInt32 <<< 8 ||| (p.getD (off + 3) 0).toUInt32

/-- `be64_load` of `p + off` -/
def be64Load (p : Bytes) (off : Nat) : UInt64 :=
  (p.getD off 0).toUInt64 <<< 56 ||| (p.getD (off + 1) 0).toUInt64 <<< 48 |||
    (p.getD (off + 2) 0).toUInt64 <<< 40 ||| (p.getD (off + 3) 0).toUInt64 <<< 32 |||
    (p.getD (off + 4) 0).toUInt64 <<< 24 ||| (p.getD (off + 5) 0).toUInt64 <<< 16 |||
    (p.getD (off + 6) 0).toUInt64 <<< 8 ||| (p.getD (off + 7) 0).toUInt64

/-- Assigns the elements from `off` on. -/
def assign (p : Bytes) (off : Nat) : Bytes → Bytes
  | [] => p
  | b :: bs => assign (p.set off b) (off + 1) bs

/-- `be32_store` to `p + off` -/
def be32Store (p : Bytes) (off : Nat) (v : UInt32) : Bytes :=
  assign p off [(v >>> 24).toUInt8, (v >>> 16).toUInt8, (v >>> 8).toUInt8, v.toUInt8]

/-- `be64_store` to `p + off` -/
def be64Store (p : Bytes) (off : Nat) (v : UInt64) : Bytes :=
  assign p off [(v >>> 56).toUInt8, (v >>> 48).toUInt8, (v >>> 40).toUInt8, (v >>> 32).toUInt8,
    (v >>> 24).toUInt8, (v >>> 16).toUInt8, (v >>> 8).toUInt8, v.toUInt8]

/-! ## Copying -/

section Copying

variable {γ : Type}

/-- The loop of `copy_exact`, with the stream that it has read from. -/
def copyExactLoop (dst : OutFile) (bytes : Nat) (src : InFile) : Prog (World γ) (Bool × InFile) :=
  if bytes = 0 then pure (true, src)
  else do
    let n := if bytes > 256 * 1024 then 256 * 1024 else bytes
    let (buf, src) ← fread src n
    if buf.length ≠ n then pure (false, src)
    else if !(← fwrite dst buf) then pure (false, src)
    else copyExactLoop dst (bytes - n) src
termination_by bytes
decreasing_by
  split <;> omega

/-- `copy_exact` -/
def copyExact (src : InFile) (dst : OutFile) (bytes : Nat) : Prog (World γ) (Bool × InFile) := do
  if !(← chance) then pure (false, src)
  else copyExactLoop dst bytes src

/-- `fseeko` followed by `copy_exact` -/
def copyFrom (src : InFile) (pos : Nat) (dst : OutFile) (bytes : Nat) :
    Prog (World γ) (Bool × InFile) := do
  match ← fseek src (some pos) with
  | none => pure (false, src)
  | some src => copyExact src dst bytes

/-- The loop that writes zeros. -/
def padLoop (dst : OutFile) (here : Nat) : Prog (World γ) Bool :=
  if here < creditsNewDataPos then do
    let n := creditsNewDataPos - here
    let n := if n > 16 then 16 else n
    if !(← fwrite dst (List.replicate n 0)) then pure false
    else padLoop dst (here + n)
  else pure true
termination_by creditsNewDataPos - here
decreasing_by
  split <;> omega

/-- The position of the new file, and the zeros up to `CREDITS_NEW_DATA_POS`. -/
def padToData (dst : OutFile) : Prog (World γ) Bool := do
  match ← ftellWrite dst with
  | none => pure false
  | some here => padLoop dst here

/-! ## The patch -/

/-- The header is not that of the bundle that is to be patched. -/
def headerRefused (header : Bytes) : Bool :=
  header.length ≠ 64 ∨ header.take 8 ≠ bytes "UnityFS" ++ [0] ∨
    be64Load header creditsHeaderTotalOff ≠ UInt64.ofNat creditsOldTotal ∨
    be32Load header creditsHeaderCbiOff ≠ 19462

/-- The header with the new sizes. -/
def newHeader (header : Bytes) : Bytes :=
  be32Store (be64Store header creditsHeaderTotalOff (UInt64.ofNat creditsNewTotal))
    creditsHeaderCbiOff
    (UInt32.ofNat creditsNewCbiSize)

/-- What `credits_patch_apply` writes, up to `fsync`; the variable `ok`. -/
def writeBundle (data : CreditsData) (header : Bytes) (src : InFile) (dst : OutFile) :
    Prog (World γ) Bool := do
  if !(← fwrite dst header) then pure false
  else if !(← fwrite dst data.gCreditsBlockinfo) then pure false
  else if !(← padToData dst) then pure false
  else
    let (ok, src) ← copyFrom src creditsOldDataPos dst (creditsOldBlockPos - creditsOldDataPos)
    if !ok then pure false
    else if !(← fwrite dst data.gCreditsBlock325) then pure false
    else
      let (ok, _) ← copyFrom src creditsOldAfterBlock dst (creditsOldTotal - creditsOldAfterBlock)
      if !ok then pure false
      else if !(← flush dst) then pure false
      else flush dst

/-- What `credits_patch_apply` does once it has accepted the header, up to the renames. -/
def patchBundle (data : CreditsData) (header : Bytes) (src : InFile) : Prog (World γ) Bool := do
  let header := newHeader header
  let _ ← remove bundleTmp
  let _ ← remove bundleBak
  match ← fopenWrite bundleTmp with
  | .error _ =>
      fcloseRead src
      pure false
  | .ok dst =>
      let ok ← writeBundle data header src dst
      let closed ← flush dst
      fcloseRead src
      if !(ok && closed) then
        let _ ← remove bundleTmp
        pure false
      else
        match ← stat bundleTmp with
        | .error _ =>
            let _ ← remove bundleTmp
            pure false
        | .ok st =>
            if st.size ≠ creditsNewTotal then
              let _ ← remove bundleTmp
              pure false
            else pure true

/-- `credits_patch_apply` up to the renames. -/
def buildBundle (data : CreditsData) : Prog (World γ) Bool := do
  match ← stat bundlePath with
  | .error _ => pure false
  | .ok st =>
      if st.size = creditsNewTotal then pure false
      else if st.size ≠ creditsOldTotal then pure false
      else
        match ← fopenRead bundlePath with
        | .error _ => pure false
        | .ok src =>
            let (header, src) ← fread src 64
            if headerRefused header then
              fcloseRead src
              pure false
            else patchBundle data header src

/-- The second rename of `credits_patch_apply`, and what comes after it. -/
def finishSwap : Prog (World γ) Int := do
  match ← rename bundleTmp bundlePath with
  | .error _ =>
      let _ ← rename bundleBak bundlePath
      let _ ← remove bundleTmp
      pure 0
  | .ok _ =>
      let _ ← remove bundleBak
      pure 0

/-- The renames of `credits_patch_apply` -/
def swapBundles : Prog (World γ) Int := do
  match ← rename bundlePath bundleBak with
  | .error _ =>
      let _ ← remove bundleTmp
      pure 0
  | .ok _ => finishSwap

/-- `credits_patch_apply`, which returns 0 in any case. -/
def creditsPatchApply (data : CreditsData) : Prog (World γ) Int := do
  if !(← buildBundle data) then pure 0
  else swapBundles

end Copying

end Asnx.Installer.Credits
