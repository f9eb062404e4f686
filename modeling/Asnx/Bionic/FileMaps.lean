import Asnx.Bionic.Mmap
import Asnx.FileBridge.PositionedReads

/-!
# What a file mapping contains

`read_mapped_file_range` of `source/bionic.c` and the part of `bionic_mmap` that uses it. The
mapping begins as zeros, and the positioned reads fill it from the front. An error after a part was
read is taken for the end of the file: the call succeeds, and the rest of the mapping stays zero
(`file_map_iff`).
-/

namespace Asnx.Bionic

open FileBridge (PositionedReads GivesFrom einval)

/-- The contents of a mapping. -/
abbrev Contents := Nat → UInt8

/-- `EINTR` -/
def eintr : Int := 4

/-- The contents after bytes were read to a position. -/
def Contents.write (mem : Contents) (at_ : Nat) (bytes : List UInt8) : Contents := fun i =>
  if at_ ≤ i ∧ i < at_ + bytes.length then bytes.getD (i - at_) 0 else mem i

/-- What a read gave: an `errno`, or how many bytes. -/
abbrev ReadResult := Except Int Nat

/-- The local variables of `read_mapped_file_range` with the buffer, the host and the results of the
reads. -/
structure RangeRead (σ : Type*) where
  done : Nat
  mem : Contents
  results : List ReadResult
  host : σ

/-- What `read_mapped_file_range` returns: a count, or -1 with an `errno`. -/
structure RangeEnd (σ : Type*) where
  got : Int
  errno : Int
  state : RangeRead σ

variable {σ : Type*} {file : List UInt8}

/-- The loop of `read_mapped_file_range`; a call that has no result after `turns` is still
reading. -/
def readRange (reads : PositionedReads σ file) (len : Nat) (off : Int) :
    Nat → RangeRead σ → Option (RangeEnd σ)
  | 0, _ => none
  | turns + 1, r =>
      if r.done < len then
        match reads.pread (len - r.done) (off + r.done) r.host with
        | (.ok bytes, host) =>
            if bytes.length > 0 then
              readRange reads len off turns ⟨r.done + bytes.length, r.mem.write r.done bytes,
                r.results ++ [.ok bytes.length], host⟩
            else some ⟨r.done, 0, { r with results := r.results ++ [.ok 0], host }⟩
        | (.error e, host) =>
            let r := { r with results := r.results ++ [.error e], host }
            if e = eintr then readRange reads len off turns r
            else some ⟨if r.done ≠ 0 then r.done else -1, e, r⟩
      else some ⟨r.done, 0, r⟩

/-- `read_mapped_file_range` into a mapping of zeros. -/
def readMappedFileRange (reads : PositionedReads σ file) (fd : Int) (len : Nat) (off : Int)
    (turns : Nat) (host : σ) : Option (RangeEnd σ) :=
  let r : RangeRead σ := ⟨0, fun _ => 0, [], host⟩
  if fd < 0 ∨ off < 0 then some ⟨-1, einval, r⟩ else readRange reads len off turns r

/-- A call of `bionic_mmap` without a reservation. `allocated` says whether `memalign` gives a
block, `recorded` whether there is an unused record. The result comes with those of the reads. -/
def mmapFile (reads : PositionedReads σ file) (a : MmapArgs) (allocated recorded : Bool)
    (turns : Nat) (host : σ) : Option (Except Errno Contents × List ReadResult) :=
  match mmapPlan a with
  | .error e => some (.error e, [])
  | .ok m =>
      if allocated = false then some (.error .ENOMEM, [])
      else if m.fileBacked = false then
        some (if recorded = false then .error .ENOMEM else .ok fun _ => 0, [])
      else
        match readMappedFileRange reads a.fd m.n a.off turns host with
        | none => none
        | some r =>
            if r.got < 0 then some (.error (.io r.errno), r.state.results)
            else if recorded = false then some (.error .ENOMEM, r.state.results)
            else some (.ok r.state.mem, r.state.results)

/-- The call is on a file. -/
def MmapArgs.FileBacked (a : MmapArgs) : Prop := 0 ≤ a.fd ∧ a.flags &&& 0x20 = 0

/-- The mapping of a successful call has the bytes of the file and zeros behind its end, and no
error of a read but `EINTR` is passed over. -/
def MapsFile (file : List UInt8) (a : MmapArgs) (result : Except Errno Contents)
    (results : List ReadResult) : Prop :=
  (∀ mem, result = .ok mem → ∀ i < a.n, mem i = file.getD (a.off.toNat + i) 0) ∧
    ∀ e, .error e ∈ results → e ≠ eintr → ∃ e', result = .error e'

/-- A read failed, not with `EINTR`, after another one had read something. -/
def FailsLate (results : List ReadResult) : Prop :=
  (∃ e, .error e ∈ results ∧ e ≠ eintr) ∧ ∃ n, .ok n ∈ results ∧ 0 < n

/-! ## The loop -/

/-- What holds before every read: the front of the mapping has the bytes of the file, the rest is
zero, and no read has failed for good. -/
structure Filling (file : List UInt8) (len : Nat) (off : Int) (r : RangeRead σ) : Prop where
  le : r.done ≤ len
  front : ∀ i < r.done, file[off.toNat + i]? = some (r.mem i)
  rest : ∀ i, r.done ≤ i → r.mem i = 0
  moved : r.done ≠ 0 ↔ ∃ n, .ok n ∈ r.results ∧ 0 < n
  errors : ∀ e, .error e ∈ r.results → e = eintr

/-- How the loop ends: with all that there is, or with an error. -/
inductive Filled (file : List UInt8) (len : Nat) (off : Int) (r : RangeEnd σ) : Prop where
  | whole : Filling file len off r.state → r.got = r.state.done →
      (r.state.done = len ∨ file.length ≤ off.toNat + r.state.done) → Filled file len off r
  | failed (before : RangeRead σ) (e : Int) : Filling file len off before → e ≠ eintr →
      r.state.results = before.results ++ [.error e] → r.state.mem = before.mem →
      r.got = (if before.done ≠ 0 then (before.done : Int) else -1) → Filled file len off r

/-- Before the first read. -/
theorem Filling.start (len : Nat) (off : Int) (host : σ) :
    Filling file len off ⟨0, fun _ => 0, [], host⟩ := by
  refine ⟨Nat.zero_le len, nofun, fun _ _ => rfl, ?_, nofun⟩
  simp

/-- A read that gave something fills more of the mapping. -/
theorem Filling.read {len : Nat} {off : Int} {r : RangeRead σ} {bytes : List UInt8} (host : σ)
    (h : Filling file len off r) (hoff : 0 ≤ off) (hpos : 0 < bytes.length)
    (hle : bytes.length ≤ len - r.done)
    (hbytes : bytes <+: file.drop (off + (r.done : Int)).toNat) (hlt : r.done < len) :
    Filling file len off ⟨r.done + bytes.length, r.mem.write r.done bytes,
      r.results ++ [.ok bytes.length], host⟩ := by
  have hposition : (off + (r.done : Int)).toNat = off.toNat + r.done := by omega
  rw [hposition] at hbytes
  refine ⟨?_, ?_, ?_, ?_, ?_⟩
  · show r.done + bytes.length ≤ len
    omega
  · intro i hi
    show file[off.toNat + i]? = some (r.mem.write r.done bytes i)
    have hi : i < r.done + bytes.length := hi
    unfold Contents.write
    by_cases hold : r.done ≤ i
    case pos =>
      obtain ⟨more, hmore⟩ := hbytes
      have hindex : off.toNat + i = off.toNat + r.done + (i - r.done) := by omega
      rw [if_pos ⟨hold, hi⟩, hindex, ← List.getElem?_drop, ← hmore,
        List.getElem?_append_left (by omega), List.getElem?_eq_getElem (by omega),
        List.getD_eq_getElem?_getD, List.getElem?_eq_getElem (by omega)]
      rfl
    case neg =>
      rw [if_neg (by omega)]
      exact h.front i (by omega)
  · intro i hi
    show r.mem.write r.done bytes i = 0
    have hi : r.done + bytes.length ≤ i := hi
    unfold Contents.write
    rw [if_neg (by omega)]
    exact h.rest i (by omega)
  · refine iff_of_true ?_ ⟨bytes.length, by simp, hpos⟩
    show r.done + bytes.length ≠ 0
    omega
  · intro e he
    rcases List.mem_append.1 he with hold | hnew
    · exact h.errors e hold
    · cases List.mem_singleton.1 hnew

/-- A result that moves nothing changes nothing. -/
theorem Filling.noted {len : Nat} {off : Int} {r : RangeRead σ} {result : ReadResult} (host : σ)
    (h : Filling file len off r) (hresult : result = .ok 0 ∨ result = .error eintr) :
    Filling file len off { r with results := r.results ++ [result], host } := by
  refine ⟨h.le, h.front, h.rest, ?_, ?_⟩
  · show r.done ≠ 0 ↔ ∃ n, .ok n ∈ r.results ++ [result] ∧ 0 < n
    rw [h.moved]
    constructor
    · rintro ⟨n, hn, hpos⟩
      exact ⟨n, List.mem_append_left _ hn, hpos⟩
    · rintro ⟨n, hn, hpos⟩
      rcases List.mem_append.1 hn with hold | hnew
      · exact ⟨n, hold, hpos⟩
      · rw [← List.mem_singleton.1 hnew] at hresult
        rcases hresult with hzero | herror
        · cases hzero
          omega
        · cases herror
  · intro e he
    rcases List.mem_append.1 he with hold | hnew
    · exact h.errors e hold
    · rw [← List.mem_singleton.1 hnew] at hresult
      rcases hresult with hzero | herror
      · cases hzero
      · cases herror
        rfl

/-- The loop, by the results of the reads. -/
theorem readRange_filled (reads : PositionedReads σ file) {len : Nat} {off : Int} (hoff : 0 ≤ off)
    (turns : Nat) {r : RangeRead σ} {out : RangeEnd σ} (h : Filling file len off r)
    (hrun : readRange reads len off turns r = some out) : Filled file len off out := by
  induction turns generalizing r with
  | zero => cases hrun
  | succ turns ih =>
      rw [readRange] at hrun
      split at hrun
      case isFalse hall =>
        cases hrun
        exact .whole h rfl (.inl (Nat.le_antisymm h.le (Nat.le_of_not_lt hall)))
      case isTrue hlt =>
        have hgives := reads.gives (len - r.done) (off + r.done) r.host (by omega)
        rcases hread : reads.pread (len - r.done) (off + r.done) r.host with ⟨result, host⟩
        rw [hread] at hgives hrun
        cases result with
        | error e =>
            dsimp only at hrun
            split at hrun
            case isTrue heintr =>
              subst heintr
              exact ih (h.noted host (.inr rfl)) hrun
            case isFalse herror =>
              cases hrun
              exact .failed r e h herror rfl rfl rfl
        | ok bytes =>
            obtain ⟨hbytes, hle, heof⟩ := hgives
            dsimp only at hrun
            split at hrun
            case isTrue hpos => exact ih (h.read host hoff hpos hle hbytes hlt) hrun
            case isFalse hnone =>
              cases hrun
              have hnil : bytes = [] := List.length_eq_zero_iff.1 (by omega)
              have hposition : (off + (r.done : Int)).toNat = off.toNat + r.done := by omega
              have hend := heof hnil (by omega)
              rw [hposition] at hend
              exact .whole (h.noted host (.inl rfl)) rfl (.inr hend)

/-! ## The call -/

/-- A range that was read to its end, or to the end of the file, is the file with zeros behind
it. -/
theorem Filling.contents {len : Nat} {off : Int} {r : RangeRead σ} (h : Filling file len off r)
    (hend : r.done = len ∨ file.length ≤ off.toNat + r.done) {i : Nat} (hi : i < len) :
    r.mem i = file.getD (off.toNat + i) 0 := by
  rw [List.getD_eq_getElem?_getD]
  by_cases hfront : i < r.done
  case pos =>
    rw [h.front i hfront]
    rfl
  case neg =>
    have hnone : file[off.toNat + i]? = none := by
      rw [List.getElem?_eq_none_iff]
      omega
    rw [h.rest i (by omega), hnone]
    rfl

/-- The plan of a call on a file. -/
theorem MmapArgs.FileBacked.plan {a : MmapArgs} {m : MmapPlan} (h : a.FileBacked)
    (hplan : mmapPlan a = .ok m) : m.n = a.n ∧ m.fileBacked = true ∧ 0 ≤ a.off := by
  have hbacked : (decide (0 ≤ a.fd) && decide (a.flags &&& 0x20 = 0)) = true := by
    rw [Bool.and_eq_true]
    exact ⟨decide_eq_true h.1, decide_eq_true h.2⟩
  unfold mmapPlan at hplan
  split at hplan
  case isTrue => cases hplan
  case isFalse =>
    split at hplan
    case isTrue => cases hplan
    case isFalse =>
      dsimp only at hplan
      split at hplan
      case isTrue => cases hplan
      case isFalse hoff =>
        cases hplan
        rw [hbacked, Bool.true_and, decide_eq_true_iff] at hoff
        exact ⟨rfl, hbacked, by omega⟩

/-- An error ends the reads late exactly when something was read before it. -/
theorem Filling.failsLate {len : Nat} {off e : Int} {r : RangeRead σ} {results : List ReadResult}
    (h : Filling file len off r) (herror : e ≠ eintr)
    (hresults : results = r.results ++ [.error e]) : FailsLate results ↔ r.done ≠ 0 := by
  rw [h.moved, hresults]
  constructor
  · rintro ⟨-, n, hn, hpos⟩
    rcases List.mem_append.1 hn with hold | hnew
    · exact ⟨n, hold, hpos⟩
    · cases List.mem_singleton.1 hnew
  · rintro ⟨n, hn, hpos⟩
    exact ⟨⟨e, by simp, herror⟩, n, List.mem_append_left _ hn, hpos⟩

/-- For every file, arguments, host and sequence of results of the positioned reads: a call of
`bionic_mmap` on the file maps it and passes over no error, exactly when no read fails after another
one had read something, unless there is no record for the mapping anyway. -/
theorem file_map_iff (reads : PositionedReads σ file) (a : MmapArgs) (allocated recorded : Bool)
    (turns : Nat) (host : σ) (result : Except Errno Contents) (results : List ReadResult)
    (hfile : a.FileBacked)
    (hcall : mmapFile reads a allocated recorded turns host = some (result, results)) :
    MapsFile file a result results ↔ ¬ (recorded = true ∧ FailsLate results) := by
  have hfails : ∀ {results : List ReadResult} (e : Errno),
      MapsFile file a (.error e) results := by
    intro results e
    exact ⟨nofun, fun _ _ _ => ⟨e, rfl⟩⟩
  unfold mmapFile at hcall
  cases hplan : mmapPlan a with
  | error e =>
      rw [hplan] at hcall
      cases hcall
      exact iff_of_true (hfails e) (by simp [FailsLate])
  | ok m =>
      rw [hplan] at hcall
      dsimp only at hcall
      obtain ⟨hn, hbacked, hoff⟩ := hfile.plan hplan
      split at hcall
      case isTrue =>
        cases hcall
        exact iff_of_true (hfails _) (by simp [FailsLate])
      case isFalse =>
        rw [if_neg (by simp [hbacked])] at hcall
        unfold readMappedFileRange at hcall
        have hfd : ¬ (a.fd < 0 ∨ a.off < 0) := by
          have hfd := hfile.1
          omega
        dsimp only at hcall
        rw [if_neg hfd, hn] at hcall
        cases hrun : readRange reads a.n a.off turns ⟨0, fun _ => 0, [], host⟩ with
        | none =>
            rw [hrun] at hcall
            cases hcall
        | some out =>
            rw [hrun] at hcall
            dsimp only at hcall
            -- the loop has read all there is, or some read has failed
            cases readRange_filled reads hoff turns (Filling.start a.n a.off host) hrun with
            | whole hfilling hgot hend =>
                -- no read failed, so the call returns the file's bytes or fails for want of a
                -- record
                have hlate : ¬ FailsLate out.state.results := by
                  rintro ⟨⟨e, he, herror⟩, -⟩
                  exact herror (hfilling.errors e he)
                rw [if_neg (by omega)] at hcall
                split at hcall
                case isTrue =>
                  cases hcall
                  exact iff_of_true (hfails _) fun hnot => hlate hnot.2
                case isFalse =>
                  cases hcall
                  refine iff_of_true ⟨?_, ?_⟩ fun hnot => hlate hnot.2
                  · intro mem hmem i hi
                    cases hmem
                    exact hfilling.contents hend hi
                  · intro e he herror
                    exact absurd (hfilling.errors e he) herror
            | failed before e hfilling herror hresults hmem hgot =>
                have hlate := hfilling.failsLate herror hresults
                -- a failure counts only if nothing had been read before it
                by_cases hdone : before.done ≠ 0
                case neg =>
                  rw [if_neg hdone] at hgot
                  rw [if_pos (by omega)] at hcall
                  cases hcall
                  exact iff_of_true (hfails _) fun hnot => hdone (hlate.1 hnot.2)
                case pos =>
                  rw [if_pos hdone] at hgot
                  rw [if_neg (by omega)] at hcall
                  split at hcall
                  case isTrue hrecorded =>
                    cases hcall
                    exact iff_of_true (hfails _) fun hnot => by
                      rw [hrecorded] at hnot
                      exact absurd hnot.1 Bool.false_ne_true
                  case isFalse hrecorded =>
                    cases hcall
                    refine iff_of_false ?_
                      -- the defect: the mapping is handed out although a read has failed
                      (not_not_intro ⟨Bool.not_eq_false _ ▸ hrecorded, hlate.2 hdone⟩)
                    rintro ⟨-, herrors⟩
                    obtain ⟨e', he'⟩ := herrors e (by simp [hresults]) herror
                    cases he'

/-- Reads of a file of four bytes, two at a time; the host counts the calls, and the call `fails`
fails with `EIO`. -/
def pairs (fails : Nat) : PositionedReads Nat [1, 2, 3, 4] where
  pread want off s :=
    (if s = fails then .error 5 else .ok (([1, 2, 3, 4].drop off.toNat).take (min want 2)), s + 1)
  gives := by
    intro want off s hoff
    dsimp only
    split
    case isTrue => exact trivial
    case isFalse =>
      refine ⟨List.take_prefix _ _, ?_, ?_⟩
      · rw [List.length_take]
        omega
      · intro hnil hpos
        rw [List.take_eq_nil_iff] at hnil
        rcases hnil with hzero | hnil
        · omega
        · exact List.drop_eq_nil_iff.1 hnil

/-- Six bytes of the file, which has four. -/
def sixBytes : MmapArgs := ⟨6, 2, 3, 0⟩

/-- Without an error the mapping has the four bytes and two zeros. -/
theorem file_map_iff_example : ∃ mem, mmapFile (pairs 9) sixBytes true true 4 0 =
    some (.ok mem, [.ok 2, .ok 2, .ok 0]) ∧ mem 3 = 4 ∧ mem 5 = 0 := by
  have hcall : mmapFile (pairs 9) sixBytes true true 4 0 = some (.ok _, [.ok 2, .ok 2, .ok 0]) :=
    rfl
  have hmaps := (file_map_iff (pairs 9) sixBytes true true 4 0 _ _ ⟨by decide, by decide⟩ hcall).2
    (by simp [FailsLate])
  exact ⟨_, hcall, hmaps.1 _ rfl 3 (by decide), hmaps.1 _ rfl 5 (by decide)⟩

/-- The second read fails: the call succeeds, and maps zeros where the file has its last two
bytes. -/
theorem file_map_zeroed : ∃ mem, mmapFile (pairs 1) sixBytes true true 4 0 =
    some (.ok mem, [.ok 2, .error 5]) ∧ mem 2 = 0 ∧ mem 3 = 0 ∧
    ¬ MapsFile [1, 2, 3, 4] sixBytes (.ok mem) [.ok 2, .error 5] := by
  have hcall : mmapFile (pairs 1) sixBytes true true 4 0 = some (.ok _, [.ok 2, .error 5]) := rfl
  refine ⟨_, hcall, by decide, by decide, ?_⟩
  rintro ⟨-, herrors⟩
  obtain ⟨e', he'⟩ := herrors 5 (by simp) (by decide)
  cases he'

end Asnx.Bionic
