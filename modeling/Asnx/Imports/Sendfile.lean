import Asnx.FakeFd.Polling

/-!
# Sending a file

`nx_sendfile` of `source/imports.c` over the reads and writes of the system. `Calls` says what these
give, step by step, and a `Transfer` keeps what was written to the descriptor and which results the
calls had. Sizes do not wrap: no transfer moves 2^63 bytes.

A chunk is counted when all of it was written, so the count falls behind when a write that fails, or
writes nothing, follows a write of a part of the same chunk (`sendfile_accounts_iff`).
-/

namespace Asnx.Imports

open FakeFd (fakefdIsRange)

/-- Bytes in the memory of the guest. -/
abbrev Chunk := List UInt8

/-- The calls that the transfer makes: each gives an error, or at most what was asked for. -/
structure Calls (σ : Type*) where
  filePread : Int → Nat → Int → σ → Option Chunk × σ
  read : Int → Nat → σ → Option Chunk × σ
  write : Int → Chunk → σ → Option Nat × σ
  filePread_le : ∀ fd want off s, ∀ got ∈ (filePread fd want off s).1, got.length ≤ want
  read_le : ∀ fd want s, ∀ got ∈ (read fd want s).1, got.length ≤ want
  write_le : ∀ fd bytes s, ∀ n ∈ (write fd bytes s).1, n ≤ bytes.length

/-- What a call gave: -1 is `none`. -/
inductive CallResult where
  | read (got : Option Nat)
  | wrote (n : Option Nat)
  deriving DecidableEq

/-- The system, with the bytes that the transfer wrote and the results it saw. -/
structure Transfer (σ : Type*) where
  host : σ
  sent : Chunk
  results : List CallResult

/-- How the loop over a chunk ends. -/
inductive ChunkEnd where
  | written
  | failed
  | zero
  deriving DecidableEq

variable {σ : Type*}

/-- `nx_pread` -/
def nxPread (calls : Calls σ) (fd : Int) (count : Nat) (offset : Int) (s : σ) : Option Chunk × σ :=
  if fakefdIsRange fd then (none, s) else calls.filePread fd count offset s

/-- The read of the next chunk. -/
def readChunk (calls : Calls σ) (infd : Int) (want : Nat) (off : Option Int) (t : Transfer σ) :
    Option Chunk × Transfer σ :=
  let (got, host) := match off with
    | some off => nxPread calls infd want off t.host
    | none => calls.read infd want t.host
  (got, { t with host, results := t.results ++ [.read (got.map List.length)] })

/-- The loop that writes a chunk; every turn shortens what is left of it. -/
def writeChunk (calls : Calls σ) (outfd : Int) : Nat → Chunk → Transfer σ → ChunkEnd × Transfer σ
  | 0, _, t => (.written, t)
  | turns + 1, left, t =>
      if left = [] then (.written, t)
      else
        let (w, host) := calls.write outfd left t.host
        match w with
        | none => (.failed, { t with host, results := t.results ++ [.wrote none] })
        | some 0 => (.zero, { t with host, results := t.results ++ [.wrote (some 0)] })
        | some (n + 1) =>
            writeChunk calls outfd turns (left.drop (n + 1))
              ⟨host, t.sent ++ left.take (n + 1), t.results ++ [.wrote (some (n + 1))]⟩

/-- `done?(ssize_t)done:-1` -/
def failure (done : Nat) : Int := if done ≠ 0 then done else -1

/-- The loop of `nx_sendfile`: what it returns, and the offset behind it. -/
def sendLoop (calls : Calls σ) (outfd infd : Int) (count : Nat) :
    Nat → Nat → Option Int → Transfer σ → Int × Option Int × Transfer σ
  | 0, done, off, t => (done, off, t)
  | turns + 1, done, off, t =>
      if done < count then
        let want := min (count - done) 8192
        match readChunk calls infd want off t with
        | (none, t) => (failure done, off, t)
        | (some [], t) => (done, off, t)
        | (some (b :: chunk), t) =>
            let n := (b :: chunk).length
            match writeChunk calls outfd n (b :: chunk) t with
            | (.failed, t) => (failure done, off, t)
            | (.zero, t) => (done, off, t)
            | (.written, t) =>
                let off := off.map (· + (n : Int))
                if n < want then ((done + n : Nat), off, t)
                else sendLoop calls outfd infd count turns (done + n) off t
      else (done, off, t)

/-- `nx_sendfile`. Every turn of the loop sends something, so `count` of them are enough. -/
def nxSendfile (calls : Calls σ) (outfd infd : Int) (off : Option Int) (count : Nat) (s : σ) :
    Int × Option Int × Transfer σ :=
  sendLoop calls outfd infd count count 0 off ⟨s, [], []⟩

/-- The transfer accounts for every byte: it returns how many were written, or -1 if there were
none, and the offset has advanced by as many. -/
def Accounts (off : Option Int) (r : Int × Option Int × Transfer σ) : Prop :=
  (r.1 = r.2.2.sent.length ∨ (r.1 = -1 ∧ r.2.2.sent = [])) ∧
    r.2.1 = off.map (· + (r.2.2.sent.length : Int))

/-- The last two results are a write of some bytes, and one that failed or wrote nothing. No read
came between them: they belong to one chunk. -/
def EndsCut (results : List CallResult) : Prop :=
  ∃ before n last, results = before ++ [.wrote (some (n + 1)), .wrote last] ∧ last.getD 0 = 0

/-! ## One chunk -/

/-- What the writes of a chunk did: all of it was written, or the first write failed, or a write
failed after a part. -/
inductive Wrote (left : Chunk) (t : Transfer σ) : ChunkEnd → Transfer σ → Prop where
  | all (t' : Transfer σ) (before : List CallResult) (n : Nat) :
      t'.sent = t.sent ++ left → t'.results = t.results ++ before ++ [.wrote (some (n + 1))] →
      Wrote left t .written t'
  | none (t' : Transfer σ) (e : ChunkEnd) (last : Option Nat) :
      e ≠ .written → last.getD 0 = 0 → t'.sent = t.sent →
      t'.results = t.results ++ [.wrote last] → Wrote left t e t'
  | part (t' : Transfer σ) (e : ChunkEnd) (more : Chunk) (before : List CallResult) (n : Nat)
      (last : Option Nat) :
      e ≠ .written → last.getD 0 = 0 → more ≠ [] → t'.sent = t.sent ++ more →
      t'.results = t.results ++ before ++ [.wrote (some (n + 1)), .wrote last] → Wrote left t e t'

/-- A write of a part, before the writes of what it leaves. -/
theorem Wrote.after {left : Chunk} {t t' : Transfer σ} {host : σ} {n : Nat} {e : ChunkEnd}
    (hleft : left ≠ [])
    (h : Wrote (left.drop (n + 1))
      ⟨host, t.sent ++ left.take (n + 1), t.results ++ [.wrote (some (n + 1))]⟩ e t') :
    Wrote left t e t' := by
  cases h with
  | all _ before m hsent hresults =>
      refine .all t' (.wrote (some (n + 1)) :: before) m ?_ ?_
      · rw [hsent, List.append_assoc, List.take_append_drop]
      · rw [hresults, List.append_assoc t.results, List.singleton_append]
  | none _ _ last hend hlast hsent hresults =>
      refine .part t' e (left.take (n + 1)) [] n last hend hlast ?_ hsent ?_
      · cases left with
        | nil => exact absurd rfl hleft
        | cons b left => exact List.cons_ne_nil _ _
      · rw [hresults, List.append_assoc, List.append_nil]
        rfl
  | part _ _ more before m last hend hlast hmore hsent hresults =>
      refine .part t' e (left.take (n + 1) ++ more) (.wrote (some (n + 1)) :: before) m last hend
        hlast ?_ ?_ ?_
      · exact List.append_ne_nil_of_right_ne_nil _ hmore
      · rw [hsent, List.append_assoc]
      · rw [hresults, List.append_assoc t.results, List.singleton_append]

/-- The writes of a chunk, by what each of them gives. -/
theorem writeChunk_wrote (calls : Calls σ) (outfd : Int) (turns : Nat) {left : Chunk}
    (t : Transfer σ) (hleft : left ≠ []) (hturns : left.length ≤ turns) :
    Wrote left t (writeChunk calls outfd turns left t).1
      (writeChunk calls outfd turns left t).2 := by
  induction turns generalizing left t with
  | zero => exact absurd (List.length_eq_zero_iff.1 (by omega)) hleft
  | succ turns ih =>
      rw [writeChunk, if_neg hleft]
      have hle := calls.write_le outfd left t.host
      rcases hwrite : calls.write outfd left t.host with ⟨w, host⟩
      rw [hwrite] at hle
      cases w with
      | none => exact .none _ _ none nofun rfl rfl rfl
      | some w =>
          cases w with
          | zero => exact .none _ _ (some 0) nofun rfl rfl rfl
          | succ n =>
              have hn : n + 1 ≤ left.length := hle (n + 1) rfl
              by_cases hrest : left.drop (n + 1) = []
              case pos =>
                -- the chunk ends here
                have htake : left.take (n + 1) = left :=
                  List.take_of_length_le (List.drop_eq_nil_iff.1 hrest)
                have hdone : writeChunk calls outfd turns (left.drop (n + 1))
                    ⟨host, t.sent ++ left.take (n + 1), t.results ++ [.wrote (some (n + 1))]⟩ =
                    (.written, ⟨host, t.sent ++ left.take (n + 1),
                      t.results ++ [.wrote (some (n + 1))]⟩) := by
                  cases turns <;> simp [writeChunk, hrest]
                show Wrote left t (writeChunk calls outfd turns _ _).1
                  (writeChunk calls outfd turns _ _).2
                rw [hdone]
                refine .all _ [] n ?_ ?_
                · show t.sent ++ left.take (n + 1) = t.sent ++ left
                  rw [htake]
                · rw [List.append_nil]
              case neg =>
                refine Wrote.after hleft (ih _ hrest ?_)
                rw [List.length_drop]
                omega

/-! ## The whole file -/

/-- A transfer whose last result is no failing write does not end cut. -/
theorem not_endsCut_of_last {results : List CallResult}
    (h : ∀ last, results.getLast? = some (.wrote last) → last.getD 0 ≠ 0) : ¬ EndsCut results := by
  rintro ⟨before, n, last, rfl, hlast⟩
  exact h last (by simp) hlast

/-- A failing write directly behind a read cuts no chunk. -/
theorem not_endsCut_of_read (results : List CallResult) (got last : Option Nat) :
    ¬ EndsCut (results ++ [.read got] ++ [.wrote last]) := by
  rintro ⟨before, n, last', h, -⟩
  rw [List.append_assoc] at h
  have hpair : [CallResult.read got] ++ [.wrote last] = [.wrote (some (n + 1)), .wrote last'] :=
    List.append_inj_right' h rfl
  cases hpair

/-- What holds between two chunks: everything that was written is counted. -/
structure Counted (off : Option Int) (done : Nat) (off' : Option Int) (t : Transfer σ) : Prop where
  sent : t.sent.length = done
  off : off' = off.map (· + (done : Int))
  last : ∀ last, t.results.getLast? = some (.wrote last) → last.getD 0 ≠ 0

variable {off off' : Option Int} {done : Nat} {t : Transfer σ}

/-- A transfer that ends between two chunks accounts for every byte. -/
theorem Counted.accounts (h : Counted off done off' t) :
    Accounts off ((done : Int), off', t) ↔ ¬ EndsCut t.results := by
  refine iff_of_true ⟨.inl ?_, ?_⟩ (not_endsCut_of_last h.last)
  · show (done : Int) = t.sent.length
    rw [h.sent]
  · show off' = off.map (· + (t.sent.length : Int))
    rw [h.off, h.sent]

/-- A read that ends the transfer changes nothing of this. -/
theorem Counted.read (h : Counted off done off' t) (host : σ) (got : Option Nat) :
    Counted off done off' { t with host, results := t.results ++ [.read got] } := by
  refine ⟨h.sent, h.off, ?_⟩
  intro last hlast
  rw [List.getLast?_concat] at hlast
  cases hlast

/-- The value that a failure returns accounts for what was counted. -/
theorem failure_accounts {sent : Chunk} (h : sent.length = done) :
    failure done = sent.length ∨ (failure done = -1 ∧ sent = []) := by
  unfold failure
  by_cases hdone : done ≠ 0
  case pos => exact .inl (by rw [if_pos hdone, h])
  case neg =>
    have hsent : sent = [] := List.length_eq_zero_iff.1 (by omega)
    exact .inr ⟨if_neg hdone, hsent⟩

/-- Writing a chunk in full counts it. -/
theorem Counted.chunk {left : Chunk} {t' : Transfer σ} {before : List CallResult} {n : Nat}
    (h : Counted off done off' t) (hsent : t'.sent = t.sent ++ left)
    (hresults : t'.results = t.results ++ before ++ [.wrote (some (n + 1))]) :
    Counted off (done + left.length) (off'.map (· + (left.length : Int))) t' := by
  refine ⟨?_, ?_, ?_⟩
  · rw [hsent, List.length_append, h.sent]
  · rw [h.off, Option.map_map]
    refine congrArg (fun f => off.map f) (funext fun o => ?_)
    show o + (done : Int) + left.length = o + ((done + left.length : Nat) : Int)
    omega
  · intro last hlast
    rw [hresults, List.getLast?_concat] at hlast
    cases hlast
    exact Nat.succ_ne_zero n

/-- A write that fails after a part of a chunk leaves the part uncounted. -/
theorem Counted.cut {r : Int} {sent : Chunk} (h : t.sent.length = done) (hsent : sent ≠ [])
    (hr : r = done ∨ r = failure done) :
    ¬ (r = (t.sent ++ sent).length ∨ (r = -1 ∧ t.sent ++ sent = [])) := by
  have hpos : 0 < sent.length := List.length_pos_iff.2 hsent
  have hlength : (t.sent ++ sent).length = done + sent.length := by
    rw [List.length_append, h]
  have hnil : t.sent ++ sent ≠ [] := List.append_ne_nil_of_right_ne_nil _ hsent
  rintro (hcount | ⟨-, hempty⟩)
  · rw [hlength] at hcount
    unfold failure at hr
    split at hr <;> omega
  · exact hnil hempty

/-- A read gives at most what was asked for, and is noted. -/
theorem readChunk_eq (calls : Calls σ) (infd : Int) (want : Nat) (off : Option Int)
    (t : Transfer σ) : ∃ got host, readChunk calls infd want off t =
      (got, { t with host, results := t.results ++ [.read (got.map List.length)] }) ∧
      ∀ chunk ∈ got, chunk.length ≤ want := by
  cases off with
  | none =>
      exact ⟨_, _, rfl, calls.read_le infd want t.host⟩
  | some off =>
      refine ⟨_, _, rfl, ?_⟩
      show ∀ chunk ∈ (nxPread calls infd want off t.host).1, chunk.length ≤ want
      unfold nxPread
      split
      case isTrue => nofun
      case isFalse => exact calls.filePread_le infd want off t.host

/-- A chunk whose writes stopped accounts for every byte unless they stopped after a part. -/
theorem Wrote.accounts {left : Chunk} {e : ChunkEnd} {t' : Transfer σ} {r : Int} {got : Option Nat}
    {host : σ} (h : Counted off done off' t)
    (hwrote : Wrote left { t with host, results := t.results ++ [.read got] } e t')
    (hend : e ≠ .written) (hr : r = done ∨ r = failure done) :
    Accounts off (r, off', t') ↔ ¬ EndsCut t'.results := by
  cases hwrote with
  | all _ before n => exact absurd rfl hend
  | none _ _ last _ hlast hsent hresults =>
      have hcut : ¬ EndsCut t'.results := by
        rw [hresults]
        exact not_endsCut_of_read t.results got last
      refine iff_of_true ⟨?_, ?_⟩ hcut
      · show r = t'.sent.length ∨ (r = -1 ∧ t'.sent = [])
        rw [hsent]
        rcases hr with rfl | rfl
        · exact .inl (by rw [h.sent])
        · exact failure_accounts h.sent
      · show off' = off.map (· + (t'.sent.length : Int))
        rw [hsent, h.off, h.sent]
  | part _ _ more before n last _ hlast hmore hsent hresults =>
      have hcut : EndsCut t'.results := ⟨_, n, last, hresults, hlast⟩
      refine iff_of_false ?_ (not_not_intro hcut)
      rintro ⟨hcount, -⟩
      rw [hsent] at hcount
      exact Counted.cut h.sent hmore hr hcount

/-- The loop, from between two chunks on. -/
theorem sendLoop_accounts (calls : Calls σ) (outfd infd : Int) (count turns : Nat)
    (h : Counted off done off' t) :
    Accounts off (sendLoop calls outfd infd count turns done off' t) ↔
      ¬ EndsCut (sendLoop calls outfd infd count turns done off' t).2.2.results := by
  induction turns generalizing done off' t with
  | zero => exact h.accounts
  | succ turns ih =>
      rw [sendLoop]
      split
      case isFalse => exact h.accounts
      case isTrue hlt =>
        obtain ⟨got, host, hread, hle⟩ :=
          readChunk_eq calls infd (min (count - done) 8192) off' t
        simp only [hread]
        have hcounted := h.read host (got.map List.length)
        match got with
        | none =>
            refine iff_of_true ⟨failure_accounts h.sent, ?_⟩ (not_endsCut_of_last hcounted.last)
            show off' = off.map (· + (t.sent.length : Int))
            rw [h.off, h.sent]
        | some [] => exact hcounted.accounts
        | some (b :: chunk) =>
            have hwrote := writeChunk_wrote calls outfd (b :: chunk).length
              { t with host, results := t.results ++ [.read (some (b :: chunk).length)] }
              (List.cons_ne_nil b chunk) le_rfl
            simp only [Option.map_some]
            rcases hchunk : writeChunk calls outfd (b :: chunk).length (b :: chunk)
              { t with host, results := t.results ++ [.read (some (b :: chunk).length)] }
              with ⟨e, t'⟩
            rw [hchunk] at hwrote
            cases e with
            | failed => exact Wrote.accounts h hwrote nofun (.inr rfl)
            | zero => exact Wrote.accounts h hwrote nofun (.inl rfl)
            | written =>
                cases hwrote with
                | none _ _ last hend => exact absurd rfl hend
                | part _ _ more before n last hend => exact absurd rfl hend
                | all _ before n hsent hresults =>
                    have hnext := hcounted.chunk hsent hresults
                    dsimp only
                    split
                    case isTrue => exact hnext.accounts
                    case isFalse => exact ih hnext

/-- For every count, offset and behaviour of the reads and writes, the transfer accounts for every
byte exactly when its results do not end with a write of a part of a chunk and one that fails. -/
theorem sendfile_accounts_iff (calls : Calls σ) (outfd infd : Int) (off : Option Int) (count : Nat)
    (s : σ) :
    Accounts off (nxSendfile calls outfd infd off count s) ↔
      ¬ EndsCut (nxSendfile calls outfd infd off count s).2.2.results := by
  refine sendLoop_accounts calls outfd infd count count ⟨rfl, ?_, nofun⟩
  cases off with
  | none => rfl
  | some o => simp

/-- Reads that give four bytes, and writes that take what the list says, then fail. -/
def scripted : Calls (List Nat) where
  filePread _ want _ s := (some ([1, 2, 3, 4].take want), s)
  read _ want s := (some ([1, 2, 3, 4].take want), s)
  write _ bytes s :=
    match s with
    | [] => (none, [])
    | n :: s => (some (min n bytes.length), s)
  filePread_le := by
    rintro fd want off s got ⟨⟩
    exact List.length_take_le _ _
  read_le := by
    rintro fd want s got ⟨⟩
    exact List.length_take_le _ _
  write_le := by
    intro fd bytes s n hn
    cases s with
    | nil => cases hn
    | cons m s =>
        cases hn
        exact min_le_right _ _

/-- A write fails after three of four bytes: the transfer returns -1, as if nothing was written, and
the offset stays. -/
theorem sendfile_loses_part :
    (nxSendfile scripted 4 3 (some 0) 4 [3]).1 = -1 ∧
    (nxSendfile scripted 4 3 (some 0) 4 [3]).2.1 = some 0 ∧
    (nxSendfile scripted 4 3 (some 0) 4 [3]).2.2.sent = [1, 2, 3] ∧
    ¬ Accounts (some 0) (nxSendfile scripted 4 3 (some 0) 4 [3]) := by
  refine ⟨by decide, by decide, by decide, ?_⟩
  rintro ⟨-, hoff⟩
  exact absurd hoff (by decide)

end Asnx.Imports
