import Mathlib.Data.List.Infix

/-!
# Positioned reads

`file_pread` of `source/file_bridge.c` on an open descriptor of a file. `PositionedReads` says what
a caller may rely on: a read gives an error or bytes of the file from the offset on, and nothing
only at its end. `file_pread` is such a read on every host whose calls are (`Host.reads`).
-/

namespace Asnx.FileBridge

/-- What a read of at most `want` bytes gives: an error, or bytes of the file from `off` on. -/
def GivesFrom {ε : Type*} (file : List UInt8) (off want : Nat) : Except ε (List UInt8) → Prop
  | .error _ => True
  | .ok bytes =>
      bytes <+: file.drop off ∧ bytes.length ≤ want ∧
        (bytes = [] → 0 < want → file.length ≤ off)

/-- Positioned reads of a file; an error is an `errno`. -/
structure PositionedReads (σ : Type*) (file : List UInt8) where
  pread : Nat → Int → σ → Except Int (List UInt8) × σ
  gives : ∀ want off s, 0 ≤ off → GivesFrom file off.toNat want (pread want off s).1

/-- The calls of the host that `file_pread` makes on its descriptor. `snapshot` says whether the
descriptor is tracked and not open for writing alone, `pos` is its file offset. -/
structure Host (σ : Type*) (file : List UInt8) where
  snapshot : σ → Bool × σ
  fsFileRead : Nat → Int → σ → Except Nat (List UInt8) × σ
  tell : σ → Except Int Int × σ
  seek : Int → σ → Except Int Unit × σ
  read : Nat → σ → Except Int (List UInt8) × σ
  pos : σ → Int
  fsFileRead_gives : ∀ want off s, 0 ≤ off → GivesFrom file off.toNat want (fsFileRead want off s).1
  seek_pos : ∀ off s, (seek off s).1 = .ok () → pos (seek off s).2 = off
  read_gives : ∀ want s, 0 ≤ pos s → GivesFrom file (pos s).toNat want (read want s).1

/-- `EIO` and `EINVAL` -/
def eio : Int := 5
def einval : Int := 22

variable {σ : Type*} {file : List UInt8}

/-- The loop of `positioned_native_read` that reads through `bounce`. -/
def bounceLoop (host : Host σ file) (count : Nat) (offset : Int) :
    Nat → List UInt8 → σ → Except Int (List UInt8) × σ
  | 0, done, s => (.ok done, s)
  | turns + 1, done, s =>
      if done.length < count then
        let want := min (count - done.length) 0x1000
        match host.fsFileRead want (offset + done.length) s with
        | (.error _, s) => if done ≠ [] then (.ok done, s) else (.error eio, s)
        | (.ok got, s) =>
            if got.length < want then (.ok (done ++ got), s)
            else bounceLoop host count offset turns (done ++ got) s
      else (.ok done, s)

/-- `positioned_native_read`. Every turn of the loop reads something, or is the last one. -/
def positionedNativeRead (host : Host σ file) (count : Nat) (offset : Int) (s : σ) :
    Except Int (List UInt8) × σ :=
  if count = 0 then (.ok [], s)
  else
    match host.fsFileRead count offset s with
    | (.ok got, s) => (.ok got, s)
    | (.error rc, s) =>
        if rc ≠ 0xD401 then (.error eio, s) else bounceLoop host count offset count [] s

/-- The end of a read between two calls of `lseek`: a read whose offset cannot be put back fails. -/
def seekBack (host : Host σ file) (old : Int) (r : Except Int (List UInt8) × σ) :
    Except Int (List UInt8) × σ :=
  match host.seek old r.2 with
  | (.ok _, s) => (r.1, s)
  | (.error e, s) => (r.1.bind fun _ => .error e, s)

/-- `file_pread` into a buffer. -/
def filePread (host : Host σ file) (count : Nat) (offset : Int) (s : σ) :
    Except Int (List UInt8) × σ :=
  if offset < 0 then (.error einval, s)
  else
    match host.snapshot s with
    | (true, s) => positionedNativeRead host count offset s
    | (false, s) =>
        match host.tell s with
        | (.error e, s) => (.error e, s)
        | (.ok old, s) =>
            match host.seek offset s with
            | (.error e, s) => (.error e, s)
            | (.ok _, s) =>
                seekBack host old (host.read count s)

/-- Two pieces of a file in a row. -/
theorem prefix_drop_append {off : Nat} {a b : List UInt8} (ha : a <+: file.drop off)
    (hb : b <+: file.drop (off + a.length)) : a ++ b <+: file.drop off := by
  obtain ⟨rest, hrest⟩ := ha
  have hdrop : file.drop (off + a.length) = rest := by
    rw [← List.drop_drop, ← hrest, List.drop_left]
  rw [hdrop] at hb
  rw [← hrest]
  exact (List.prefix_append_right_inj a).2 hb

/-- The loop goes on with the file where its bytes end. -/
theorem bounceLoop_gives (host : Host σ file) {count : Nat} {offset : Int} (hoffset : 0 ≤ offset)
    (turns : Nat) {done : List UInt8} (s : σ) (hdone : done <+: file.drop offset.toNat)
    (hlength : done.length ≤ count) (hturns : count ≤ done.length + turns) :
    GivesFrom file offset.toNat count (bounceLoop host count offset turns done s).1 := by
  have hends : count ≤ done.length → GivesFrom file offset.toNat count
      (Except.ok done : Except Int (List UInt8)) := by
    intro hall
    refine ⟨hdone, hlength, ?_⟩
    rintro rfl hpos
    exact absurd hall (by simp; omega)
  induction turns generalizing done s with
  | zero => exact hends (by omega)
  | succ turns ih =>
      rw [bounceLoop]
      by_cases hlt : done.length < count
      case neg =>
        rw [if_neg hlt]
        exact hends (by omega)
      case pos =>
        rw [if_pos hlt]
        have hgives := host.fsFileRead_gives (min (count - done.length) 0x1000)
          (offset + done.length) s (by omega)
        dsimp only
        generalize hwant : min (count - done.length) 0x1000 = want at *
        rcases hread : host.fsFileRead want (offset + done.length) s with ⟨got, s'⟩
        rw [hread] at hgives
        cases got with
        | error rc =>
            dsimp only
            split
            case isFalse => exact trivial
            -- an error after some bytes: they are returned
            case isTrue hsome => exact ⟨hdone, hlength, fun hnil => absurd hnil hsome⟩
        | ok got =>
            obtain ⟨hprefix', hle, heof⟩ := hgives
            have hposition : (offset + (done.length : Int)).toNat = offset.toNat + done.length := by
              omega
            rw [hposition] at hprefix' heof
            have happend := prefix_drop_append hdone hprefix'
            have hbound : (done ++ got).length ≤ count := by
              rw [List.length_append]
              omega
            dsimp only
            split
            -- a short read ends the loop; an empty one means the end of the file
            case isTrue hshort =>
              refine ⟨happend, hbound, ?_⟩
              intro hnil hpos
              obtain ⟨rfl, rfl⟩ := List.append_eq_nil_iff.1 hnil
              exact heof rfl (by omega)
            case isFalse hfull =>
              have hmore : count ≤ (done ++ got).length + turns := by
                rw [List.length_append]
                omega
              refine ih s' happend hbound hmore ?_
              intro hall
              refine ⟨happend, hbound, ?_⟩
              intro hnil hpos
              rw [hnil] at hall
              exact absurd hall (by simp; omega)

/-- A native read gives bytes of the file. -/
theorem positionedNativeRead_gives (host : Host σ file) (count : Nat) {offset : Int}
    (hoffset : 0 ≤ offset) (s : σ) :
    GivesFrom file offset.toNat count (positionedNativeRead host count offset s).1 := by
  unfold positionedNativeRead
  by_cases hcount : count = 0
  case pos =>
    rw [if_pos hcount]
    exact ⟨List.nil_prefix, Nat.zero_le _, fun _ hpos => absurd hpos (by omega)⟩
  case neg =>
    have hgives := host.fsFileRead_gives count offset s hoffset
    rw [if_neg hcount]
    rcases hread : host.fsFileRead count offset s with ⟨got, s'⟩
    rw [hread] at hgives
    cases got with
    | ok got => exact hgives
    | error rc =>
        dsimp only
        split
        case isTrue => exact trivial
        case isFalse =>
          exact bounceLoop_gives host hoffset count s' List.nil_prefix (Nat.zero_le _) (by simp)

/-- Putting the offset back may lose what was read, and changes nothing else. -/
theorem seekBack_gives (host : Host σ file) (old : Int) {off want : Nat}
    {r : Except Int (List UInt8) × σ} (h : GivesFrom file off want r.1) :
    GivesFrom file off want (seekBack host old r).1 := by
  obtain ⟨result, s⟩ := r
  unfold seekBack
  rcases host.seek old s with ⟨back, s'⟩
  cases back with
  | ok _ => exact h
  | error e => cases result <;> exact trivial

/-- `file_pread` gives bytes of the file, by either way. -/
theorem filePread_gives (host : Host σ file) (count : Nat) {offset : Int} (hoffset : 0 ≤ offset)
    (s : σ) : GivesFrom file offset.toNat count (filePread host count offset s).1 := by
  unfold filePread
  rw [if_neg (by omega)]
  rcases host.snapshot s with ⟨tracked, s₁⟩
  cases tracked with
  | true => exact positionedNativeRead_gives host count hoffset s₁
  | false =>
      dsimp only
      rcases host.tell s₁ with ⟨old, s₂⟩
      cases old with
      | error e => exact trivial
      | ok old =>
          dsimp only
          have hpos := host.seek_pos offset s₂
          rcases hseek : host.seek offset s₂ with ⟨moved, s₃⟩
          rw [hseek] at hpos
          cases moved with
          | error e => exact trivial
          | ok _ =>
              have hpos := hpos rfl
              have hgives := host.read_gives count s₃ (by
                rw [hpos]
                exact hoffset)
              rw [hpos] at hgives
              exact seekBack_gives host old hgives

/-- The reads of `file_pread` on a host. -/
def Host.reads (host : Host σ file) : PositionedReads σ file where
  pread := filePread host
  gives want _ s hoff := filePread_gives host want hoff s

end Asnx.FileBridge
