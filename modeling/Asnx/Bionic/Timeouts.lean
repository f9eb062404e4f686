import Asnx.Bionic.Futexes
import Mathlib.Algebra.Group.Nat.Defs

/-!
# Timeout conversions

`bionic_sem_abs_timeout_ns` and `bionic_cond_abs_timeout_ns` turn an absolute deadline into the
nanoseconds that a wait may take, and `futex_operation` does so with a relative timeout. The three
are compared with the exact difference, cut off at both ends: `exactWait lower upper d`.

The semaphores' conversion wraps on one stretch of deadlines, those between 2^64 nanoseconds and
18446744074 seconds ahead: its guard looks at the seconds alone. Condition variables stop one short
of the top, since the largest `uint64_t` is the wait without an end.
-/

namespace Asnx.Bionic.Futex

/-! ## The conversions -/

/-- The nanoseconds that `t` stands for. -/
def Timespec.ns (t : Timespec) : Int := t.sec * 1000000000 + t.nsec

/-- Seconds that a `time_t` holds, and nanoseconds below one second. -/
structure Timespec.Normal (t : Timespec) : Prop where
  sec_ge : -9223372036854775808 ≤ t.sec
  sec_lt : t.sec < 9223372036854775808
  nsec_ge : 0 ≤ t.nsec
  nsec_lt : t.nsec < 1000000000

/-- What a conversion of an absolute deadline reports. -/
inductive Conversion where
  /-- The deadline is missing or out of range, or the clock fails. -/
  | fails
  | expired
  | wait (ns : Nat)
  deriving DecidableEq

/-- The value of a difference in an `int64_t`. -/
def int64 (n : Int) : Int := n.bmod (2 ^ 64)

/-- `UINT64_MAX`. -/
def uint64Max : Nat := 18446744073709551615

/-- `bionic_sem_abs_timeout_ns`, where `now` is what `bionic_clock_gettime` gives. -/
def semAbsTimeoutNs (now abs : Option Timespec) : Conversion :=
  match abs, now with
  | none, _ => .fails
  | some abs, now =>
      if abs.sec < 0 ∨ abs.nsec < 0 ∨ abs.nsec ≥ 1000000000 then .fails
      else
        match now with
        | none => .fails
        | some now =>
            let sec := int64 (abs.sec - now.sec)
            let nsec := int64 (abs.nsec - now.nsec)
            let (sec, nsec) := if nsec <
              0 then (int64 (sec - 1), nsec + 1000000000) else (sec, nsec)
            if sec < 0 ∨ (sec = 0 ∧ nsec ≤ 0) then .expired
            else if sec.toNat > uint64Max / 1000000000 then .wait uint64Max
            else
              let ns := (sec.toNat * 1000000000 + nsec.toNat) % 2 ^ 64
              .wait (if ns < 16000 then 16000 else ns)

/-- `bionic_cond_abs_timeout_ns`: its differences are 128 bits wide. -/
def condAbsTimeoutNs (now abs : Option Timespec) : Conversion :=
  match abs, now with
  | none, _ => .fails
  | some abs, now =>
      if abs.nsec < 0 ∨ abs.nsec ≥ 1000000000 then .fails
      else
        match now with
        | none => .fails
        | some now =>
            let sec := abs.sec - now.sec
            let nsec := abs.nsec - now.nsec
            let (sec, nsec) := if nsec < 0 then (sec - 1, nsec + 1000000000) else (sec, nsec)
            if sec < 0 ∨ (sec = 0 ∧ nsec ≤ 0) then .expired
            else
              let maxWait : Int := uint64Max - 1
              let total := sec * 1000000000 + nsec
              let total := if total > maxWait then maxWait else total
              let total := if total < 1 then 1 else total
              .wait total.toNat

/-- The nanoseconds that `futex_operation` sleeps for, or `none` if it refuses the timeout. -/
def futexTimeoutNs (timeout : Timespec) : Option Nat :=
  if timeout.Invalid then none
  else
    let sec := timeout.sec.toNat
    if sec > (uint64Max - timeout.nsec.toNat) / 1000000000 then some uint64Max
    else some ((sec * 1000000000 + timeout.nsec.toNat) % 2 ^ 64)

/-! ## What they should give -/

/-- The wait for a deadline that is `d` nanoseconds ahead, between two clamps. -/
def exactWait (lower upper : Nat) (d : Int) : Conversion :=
  if d ≤ 0 then .expired else .wait (max lower (min d.toNat upper))

/-- The deadlines that the semaphores' conversion gets right: the difference of the seconds is an
`int64_t`, and the nanoseconds ahead are not in the stretch where the sum wraps. -/
structure SemRange (now abs : Timespec) : Prop where
  sec_lt : abs.sec - now.sec < 9223372036854775808
  apart : abs.ns - now.ns < 18446744073709551616 ∨ 18446744074000000000 ≤ abs.ns - now.ns

/-- The first conversion yields no longer wait than the second one. -/
inductive Conversion.NotLonger : Conversion → Conversion → Prop where
  | expired (c : Conversion) : NotLonger .expired c
  | wait {n m : Nat} (h : n ≤ m) : NotLonger (.wait n) (.wait m)

/-- A later deadline has no shorter exact wait. -/
theorem exactWait_mono (lower upper : Nat) {d e : Int} (h : d ≤ e) :
    (exactWait lower upper d).NotLonger (exactWait lower upper e) := by
  unfold exactWait
  by_cases hd : d ≤ 0
  case pos => rw [if_pos hd]; exact .expired _
  case neg =>
    rw [if_neg hd, if_neg (by omega)]
    exact .wait (by omega)

/-- A difference that an `int64_t` holds is itself. -/
theorem int64_eq {n : Int} (h : -9223372036854775808 ≤ n) (h' : n < 9223372036854775808) :
    int64 n = n := by
  unfold int64
  exact Int.bmod_eq_of_le (by omega) (by omega)

/-- A borrow leaves the sum, and brings the nanoseconds into one second. -/
theorem borrow_eq {sec nsec : Int} (h : -1000000000 < nsec) (h' : nsec < 1000000000)
    {p : Int × Int} (hp : p = if nsec < 0 then (sec - 1, nsec + 1000000000) else (sec, nsec)) :
    p.1 * 1000000000 + p.2 = sec * 1000000000 + nsec ∧ 0 ≤ p.2 ∧ p.2 < 1000000000 := by
  subst hp
  by_cases hneg : nsec < 0
  case pos => rw [if_pos hneg]; refine ⟨?_, ?_, ?_⟩ <;> dsimp only <;> omega
  case neg => rw [if_neg hneg]; refine ⟨?_, ?_, ?_⟩ <;> dsimp only <;> omega

/-- The test for an expired deadline, once the nanoseconds are below one second. -/
theorem expired_iff {sec nsec : Int} (h : 0 ≤ nsec) (h' : nsec < 1000000000) :
    (sec < 0 ∨ (sec = 0 ∧ nsec ≤ 0)) ↔ sec * 1000000000 + nsec ≤ 0 := by
  omega

/-- The sum of the semaphores' conversion, outside the stretch where it wraps. -/
theorem sem_sum {s n : Nat} (hn : n < 1000000000)
    (h : s * 1000000000 + n < 18446744073709551616 ∨
      18446744074000000000 ≤ s * 1000000000 + n) :
    (if s > uint64Max / 1000000000 then Conversion.wait uint64Max
      else .wait (if (s * 1000000000 + n) % 2 ^ 64 < 16000 then 16000
        else (s * 1000000000 + n) % 2 ^ 64)) =
      .wait (max 16000 (min (s * 1000000000 + n) uint64Max)) := by
  unfold uint64Max
  by_cases hbig : s > 18446744073709551615 / 1000000000
  case pos =>
    rw [if_pos hbig]
    exact congrArg Conversion.wait (by omega)
  case neg =>
    have hmod : (s * 1000000000 + n) % 2 ^ 64 = s * 1000000000 + n :=
      Nat.mod_eq_of_lt (by omega)
    rw [if_neg hbig, hmod]
    exact congrArg Conversion.wait (by split <;> omega)

/-- The sum of the condition variables' conversion. -/
theorem cond_sum {total : Int} (h : 0 < total) :
    (let total := if total > (uint64Max : Int) - 1 then (uint64Max : Int) - 1 else total
     let total := if total < 1 then 1 else total
     total.toNat) = max 1 (min total.toNat (uint64Max - 1)) := by
  unfold uint64Max
  dsimp only
  split <;> split <;> omega

/-- The sum of the relative conversion. -/
theorem futex_sum {s n : Nat} (hn : n < 1000000000) :
    (if s > (uint64Max - n) / 1000000000 then some uint64Max
      else some ((s * 1000000000 + n) % 2 ^ 64)) = some (min (s * 1000000000 + n) uint64Max) := by
  unfold uint64Max
  by_cases hbig : s > (18446744073709551615 - n) / 1000000000
  case pos =>
    rw [if_pos hbig]
    exact congrArg some (by omega)
  case neg =>
    have hmod : (s * 1000000000 + n) % 2 ^ 64 = s * 1000000000 + n :=
      Nat.mod_eq_of_lt (by omega)
    rw [if_neg hbig, hmod]
    exact congrArg some (by omega)

variable {now abs : Timespec}

/-- The nanoseconds ahead are the differences together. -/
theorem ns_sub (now abs : Timespec) :
    abs.ns - now.ns = (abs.sec - now.sec) * 1000000000 + (abs.nsec - now.nsec) := by
  unfold Timespec.ns
  omega

/-- The conversion of the semaphores is exact on its range. -/
theorem semAbsTimeoutNs_eq (hnow : now.Normal) (habs : abs.Normal) (hsec : 0 ≤ abs.sec)
    (h : SemRange now abs) :
    semAbsTimeoutNs (some now) (some abs) = exactWait 16000 uint64Max (abs.ns - now.ns) := by
  obtain ⟨hlt, hapart⟩ := h
  obtain ⟨hn₁, hn₂, hn₃, hn₄⟩ := hnow
  obtain ⟨ha₁, ha₂, ha₃, ha₄⟩ := habs
  have hsecs : int64 (abs.sec - now.sec) = abs.sec - now.sec := int64_eq (by omega) hlt
  have hnsecs : int64 (abs.nsec - now.nsec) = abs.nsec - now.nsec :=
    int64_eq (by omega) (by omega)
  have hborrow : int64 (abs.sec - now.sec - 1) = abs.sec - now.sec - 1 :=
    int64_eq (by omega) (by omega)
  simp only [semAbsTimeoutNs, hsecs, hnsecs, hborrow]
  rw [if_neg (by omega)]
  obtain ⟨p, hp⟩ : ∃ p, p = if abs.nsec - now.nsec < 0
      then (abs.sec - now.sec - 1, abs.nsec - now.nsec + 1000000000)
      else (abs.sec - now.sec, abs.nsec - now.nsec) := ⟨_, rfl⟩
  obtain ⟨hsum, hp₀, hp₁⟩ := borrow_eq (by omega) (by omega) hp
  rw [ns_sub, ← hsum] at hapart
  rw [ns_sub, ← hp, ← hsum]
  clear hsum hp hborrow hnsecs hsecs hlt
  simp only [expired_iff hp₀ hp₁]
  unfold exactWait
  by_cases hexp : p.1 * 1000000000 + p.2 ≤ 0
  case pos => rw [if_pos hexp, if_pos hexp]
  case neg =>
    have hone : (p.1 * 1000000000 + p.2).toNat = p.1.toNat * 1000000000 + p.2.toNat := by omega
    rw [if_neg hexp, if_neg hexp, hone]
    exact sem_sum (by omega) (by omega)

/-- The conversion of the condition variables is exact up to the number below the top. -/
theorem condAbsTimeoutNs_eq (hnow : now.Normal) (habs : abs.Normal) :
    condAbsTimeoutNs (some now) (some abs) = exactWait 1 (uint64Max - 1) (abs.ns - now.ns) := by
  obtain ⟨hn₁, hn₂, hn₃, hn₄⟩ := hnow
  obtain ⟨ha₁, ha₂, ha₃, ha₄⟩ := habs
  simp only [condAbsTimeoutNs]
  rw [if_neg (by omega)]
  obtain ⟨p, hp⟩ : ∃ p, p = if abs.nsec - now.nsec < 0
      then (abs.sec - now.sec - 1, abs.nsec - now.nsec + 1000000000)
      else (abs.sec - now.sec, abs.nsec - now.nsec) := ⟨_, rfl⟩
  obtain ⟨hsum, hp₀, hp₁⟩ := borrow_eq (by omega) (by omega) hp
  rw [ns_sub, ← hp, ← hsum]
  clear hsum hp
  simp only [expired_iff hp₀ hp₁]
  unfold exactWait
  by_cases hexp : p.1 * 1000000000 + p.2 ≤ 0
  case pos => rw [if_pos hexp, if_pos hexp]
  case neg =>
    rw [if_neg hexp, if_neg hexp]
    exact congrArg Conversion.wait (cond_sum (by omega))

/-- The relative conversion is exact up to the top. -/
theorem futexTimeoutNs_eq {timeout : Timespec} (h : timeout.Normal) (hsec : 0 ≤ timeout.sec) :
    futexTimeoutNs timeout = some (min timeout.ns.toNat uint64Max) := by
  obtain ⟨h₁, h₂, h₃, h₄⟩ := h
  have hvalid : ¬ timeout.Invalid := by
    unfold Timespec.Invalid
    omega
  have hns : timeout.ns.toNat = timeout.sec.toNat * 1000000000 + timeout.nsec.toNat := by
    unfold Timespec.ns
    omega
  simp only [futexTimeoutNs, if_neg hvalid, hns]
  exact futex_sum (by omega)

/-! ## All three -/

/-- For every current time and deadline, the two absolute conversions report expiry exactly when
the deadline is not after now and give the difference between their clamps otherwise, the one of
the semaphores outside the stretch where it wraps; the relative one gives the timeout up to the top;
and none yields a shorter wait for a later deadline. -/
theorem timeouts_exact (now abs : Timespec) (hnow : now.Normal) (habs : abs.Normal)
    (hsec : 0 ≤ abs.sec) :
    (SemRange now abs →
      semAbsTimeoutNs (some now) (some abs) = exactWait 16000 uint64Max (abs.ns - now.ns)) ∧
    condAbsTimeoutNs (some now) (some abs) = exactWait 1 (uint64Max - 1) (abs.ns - now.ns) ∧
    futexTimeoutNs abs = some (min abs.ns.toNat uint64Max) ∧
    ∀ later : Timespec, later.Normal → abs.ns ≤ later.ns →
      (SemRange now abs → SemRange now later →
        (semAbsTimeoutNs (some now) (some abs)).NotLonger
          (semAbsTimeoutNs (some now) (some later))) ∧
      (condAbsTimeoutNs (some now) (some abs)).NotLonger
        (condAbsTimeoutNs (some now) (some later)) ∧
      ∃ n m, futexTimeoutNs abs = some n ∧ futexTimeoutNs later = some m ∧ n ≤ m := by
  refine ⟨semAbsTimeoutNs_eq hnow habs hsec, condAbsTimeoutNs_eq hnow habs,
    futexTimeoutNs_eq habs hsec, ?_⟩
  intro later hlater hle
  have hsec' : 0 ≤ later.sec := by
    have h₁ := habs.nsec_ge
    have h₂ := hlater.nsec_lt
    unfold Timespec.ns at hle
    omega
  refine ⟨?_, ?_, ?_⟩
  · intro h h'
    rw [semAbsTimeoutNs_eq hnow habs hsec h, semAbsTimeoutNs_eq hnow hlater hsec' h']
    exact exactWait_mono _ _ (by omega)
  · rw [condAbsTimeoutNs_eq hnow habs, condAbsTimeoutNs_eq hnow hlater]
    exact exactWait_mono _ _ (by omega)
  · exact ⟨_, _, futexTimeoutNs_eq habs hsec, futexTimeoutNs_eq hlater hsec', by omega⟩

/-- The three conversions at a deadline two seconds and a half ahead. -/
theorem timeouts_exact_example :
    semAbsTimeoutNs (some ⟨10, 700000000⟩) (some ⟨13, 200000000⟩) = .wait 2500000000 ∧
    condAbsTimeoutNs (some ⟨10, 700000000⟩) (some ⟨13, 200000000⟩) = .wait 2500000000 ∧
    futexTimeoutNs ⟨13, 200000000⟩ = some 13200000000 := by
  obtain ⟨hsem, hcond, hfutex, -⟩ := timeouts_exact ⟨10, 700000000⟩ ⟨13, 200000000⟩
    ⟨by decide, by decide, by decide, by decide⟩ ⟨by decide, by decide, by decide, by decide⟩
    (by decide)
  exact ⟨hsem ⟨by decide, by decide⟩, hcond, hfutex⟩

/-- A deadline 2^64 nanoseconds ahead: the semaphores wait for 16 microseconds, less than for a
deadline one second ahead, and the condition variables for one nanosecond less than the top. -/
theorem timeouts_wrap :
    semAbsTimeoutNs (some ⟨0, 0⟩) (some ⟨18446744073, 709551616⟩) = .wait 16000 ∧
    semAbsTimeoutNs (some ⟨0, 0⟩) (some ⟨1, 0⟩) = .wait 1000000000 ∧
    exactWait 16000 uint64Max (Timespec.ns ⟨18446744073, 709551616⟩ - Timespec.ns ⟨0, 0⟩)
      = .wait uint64Max ∧
    condAbsTimeoutNs (some ⟨0, 0⟩) (some ⟨18446744073, 709551616⟩) = .wait (uint64Max - 1) ∧
    exactWait 1 uint64Max (Timespec.ns ⟨18446744073, 709551616⟩ - Timespec.ns ⟨0, 0⟩)
      = .wait uint64Max := by
  decide

end Asnx.Bionic.Futex
