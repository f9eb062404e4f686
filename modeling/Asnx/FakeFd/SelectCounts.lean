import Asnx.FakeFd.Readiness

/-!
# What `nx_select` counts

The sets that `nx_select` leaves are parts of the sets it was given (`Reports`), but its value is
the number of descriptors that are ready, where `select` counts the bits of the three sets. The two
are the same number exactly when no descriptor is ready in two sets (`select_counts_iff`).
-/

namespace Asnx.FakeFd

variable {s : FdState} {a : SelectArgs} {n : Nat}

/-! ## Counting with and without repetition -/

/-- At most one of three. -/
def Once (told : Bool × Bool × Bool) : Prop :=
  ¬ (told.1 = true ∧ told.2.1 = true) ∧ ¬ (told.1 = true ∧ told.2.2 = true) ∧
    ¬ (told.2.1 = true ∧ told.2.2 = true)

instance (told : Bool × Bool × Bool) : Decidable (Once told) :=
  inferInstanceAs (Decidable (_ ∧ _))

/-- One of three, at least. -/
def anyOf (told : Bool × Bool × Bool) : Bool := told.1 || (told.2.1 || told.2.2)

/-- The elements for which one of three holds, and those for which each of them does: the first are
fewer, unless at most one holds for every element. -/
theorem countP_anyOf {α : Type*} (told : α → Bool × Bool × Bool) (l : List α) :
    l.countP (fun x => anyOf (told x)) ≤
        l.countP (fun x => (told x).1) + l.countP (fun x => (told x).2.1) +
          l.countP (fun x => (told x).2.2) ∧
      (l.countP (fun x => anyOf (told x)) =
        l.countP (fun x => (told x).1) + l.countP (fun x => (told x).2.1) +
          l.countP (fun x => (told x).2.2) ↔ ∀ x ∈ l, Once (told x)) := by
  induction l with
  | nil => simp
  | cons x l ih =>
      obtain ⟨hle, hiff⟩ := ih
      simp only [List.countP_cons, List.forall_mem_cons, ← hiff]
      generalize l.countP (fun x => anyOf (told x)) = total at *
      generalize l.countP (fun x => (told x).1) = r at *
      generalize l.countP (fun x => (told x).2.1) = w at *
      generalize l.countP (fun x => (told x).2.2) = e at *
      -- the element itself, by the three answers
      obtain ⟨p, q, o⟩ := told x
      cases p <;> cases q <;> cases o <;> simp [anyOf, Once] <;> omega

/-! ## The bits of a set -/

/-- How many bits a set has; one that was not passed has none. -/
def bits (set : Option FdSet) : Nat :=
  match set with
  | none => 0
  | some set => (List.range androidFdSetsize).countP (wordsTest set)

/-- A set has as many bits as descriptors were told. -/
theorem bits_collected (told : Nat → Bool) (hn : n ≤ androidFdSetsize) :
    bits (some (collected told n)) = (List.range n).countP told := by
  obtain ⟨more, hmore⟩ := Nat.exists_eq_add_of_le hn
  have hrange : List.range androidFdSetsize =
      List.range n ++ (List.range more).map (n + ·) := by
    rw [hmore, List.range_add]
  have hbelow : (List.range n).countP (wordsTest (collected told n)) =
      (List.range n).countP told := by
    refine List.countP_congr fun fd hfd => ?_
    have hlt := List.mem_range.1 hfd
    rw [wordsTest_collected (by omega), decide_eq_true hlt, Bool.true_and]
  have habove : ((List.range more).map (n + ·)).countP (wordsTest (collected told n)) = 0 := by
    rw [List.countP_eq_zero]
    intro fd hfd
    obtain ⟨k, hk, rfl⟩ := List.mem_map.1 hfd
    have hlt := List.mem_range.1 hk
    rw [wordsTest_collected (by omega), decide_eq_false (by omega)]
    exact Bool.false_ne_true
  show (List.range androidFdSetsize).countP (wordsTest (collected told n)) = _
  rw [hrange, List.countP_append, hbelow, habove, Nat.add_zero]

/-- The set for exceptions that a pass collects. -/
theorem selectPass_out_e (a : SelectArgs) (host : FdSets) (n : Nat) :
    (selectPass s a host n).out.e = collected (fun fd => (selectTold s a host fd).2.2) n := by
  induction n with
  | zero => rfl
  | succ n ih =>
      rw [selectPass_succ]
      unfold SelectPass.add collected at *
      rw [List.range_succ, List.foldl_append, ← ih]
      rfl

/-- A pass counts the descriptors that are ready. -/
theorem selectPass_count (a : SelectArgs) (host : FdSets) (n : Nat) :
    (selectPass s a host n).ready =
      (List.range n).countP fun fd => anyOf (selectTold s a host fd) := by
  induction n with
  | zero => rfl
  | succ n ih =>
      rw [selectPass_succ, List.range_succ, List.countP_append, ← ih, List.countP_singleton]
      show _ + _ = _ + _
      simp [anyOf]

/-! ## What the call reports -/

/-- The descriptors that the call looks at are below this one. -/
def SelectArgs.below (a : SelectArgs) : Nat := min a.n.toNat androidFdSetsize

/-- A set that comes back is a part of the one that was passed, below `n`; none comes back for a
null pointer. -/
def PartOf (n : Nat) (given left : Option FdSet) : Prop :=
  (given = none ↔ left = none) ∧
    ∀ set ∈ left, ∀ fd, wordsTest set fd = true →
      fd < n ∧ ∃ from_ ∈ given, wordsTest from_ fd = true

/-- The value of the call is the number of bits of the three sets it leaves, and these are parts of
the ones it was given. -/
structure Reports (a : SelectArgs) (ret : Int) (left : Selected) : Prop where
  count : ret = (bits left.r + bits left.w + bits left.e : Nat)
  r : PartOf a.below a.readset left.r
  w : PartOf a.below a.writeset left.w
  e : PartOf a.below a.exceptset left.e

/-- The value of a call that reports sets with `total` bits. -/
theorem Reports.count_of {ret : Int} {r w e : Option FdSet} {timeout : Option (Int × Int)}
    {total : Nat} (h : Reports a ret ⟨r, w, e, timeout⟩)
    (hbits : bits r + bits w + bits e = total) : ret = total := by
  rw [← hbits]
  exact h.count

/-- `select` of the system leaves parts of the sets that it was given. -/
structure HostWithin (a : SelectArgs) (sets : FdSets) : Prop where
  r : ∀ fd, wordsTest sets.r fd = true → wordsTest a.given.r fd = true
  w : ∀ fd, wordsTest sets.w fd = true → wordsTest a.given.w fd = true
  e : ∀ fd, wordsTest sets.e fd = true → wordsTest a.given.e fd = true

/-- The time that a call waits, in microseconds; without a limit it is negative. -/
def SelectArgs.limit (a : SelectArgs) : Int :=
  match a.timeout with
  | none => -1
  | some (sec, usec) => sec * 1000000 + usec

/-- The time left after `k` passes: each of them sleeps for a millisecond at most. -/
def timeLeft (limit : Int) (k : Nat) : Int := if limit < 0 then limit else max (limit - 1000 * k) 0

/-- The pass that ends the call: a descriptor is ready or the time is over, and no descriptor was
ready in the passes before. -/
structure LastPass (s : FdState) (host : Nat → Option FdSets) (a : SelectArgs) (k : Nat)
    (sets : FdSets) : Prop where
  told : host k = some sets
  idle : ∀ j < k, ∃ sets', host j = some sets' ∧
    ∀ fd < a.below, anyOf (selectTold s a sets' fd) = false
  ended : (∃ fd < a.below, anyOf (selectTold s a sets fd) = true) ∨
    a.timeout.isSome ∧ a.limit ≤ 1000 * k

/-- What a pass leaves of the time. -/
theorem timeLeft_succ (limit : Int) (k : Nat) : timeLeft limit (k + 1) =
    if timeLeft limit k > 0 then
      timeLeft limit k -
        (if timeLeft limit k < 0 ∨ timeLeft limit k > 1000 then 1000 else timeLeft limit k)
    else timeLeft limit k := by
  unfold timeLeft
  split_ifs <;> omega

/-- The value and the sets of a call come from one pass; the passes before it found nothing. -/
theorem selectLoop_last {host : Nat → Option FdSets} {rounds pass : Nat} {limit ret : Int}
    {left : Selected}
    (h : selectLoop s host a n rounds pass (timeLeft limit pass) = some (.returns ret left))
    (hret : 0 ≤ ret) : ∃ k sets, pass ≤ k ∧ host k = some sets ∧
      (∀ j, pass ≤ j → j < k → ∃ sets', host j = some sets' ∧ (selectPass s a sets' n).ready = 0) ∧
      ((selectPass s a sets n).ready ≠ 0 ∨ timeLeft limit k = 0) ∧
      ret = (selectPass s a sets n).ready ∧
      left = a.stored (selectPass s a sets n).out (timeLeft limit k) := by
  induction rounds generalizing pass with
  | zero => cases h
  | succ rounds ih =>
      unfold selectLoop at h
      cases hhost : host pass with
      | none =>
          rw [hhost] at h
          cases h
          omega
      | some sets =>
          rw [hhost] at h
          dsimp only at h
          rw [← timeLeft_succ] at h
          split at h
          case isTrue hends =>
            cases h
            refine ⟨pass, sets, le_rfl, hhost, ?_, hends, rfl, rfl⟩
            intro j hj hlt
            omega
          case isFalse hidle =>
            obtain ⟨k, sets', hk, htold, hbefore, hrest⟩ := ih h
            refine ⟨k, sets', by omega, htold, ?_, hrest⟩
            intro j hj hlt
            rcases Nat.lt_or_eq_of_le hj with hj | rfl
            · exact hbefore j hj hlt
            · exact ⟨sets, hhost, by tauto⟩

/-- Where the call runs its own loop, it has the time it was given. -/
theorem nxSelect_returns {host : Nat → Option FdSets} {rounds : Nat} {ret : Int} {left : Selected}
    (h : nxSelect s host rounds a = some (.returns ret left)) :
    (0 ≤ a.limit → a.timeout.isSome) ∧
      selectLoop s host a a.below rounds 0 (timeLeft a.limit 0) = some (.returns ret left) := by
  unfold nxSelect at h
  dsimp only at h
  split at h
  case isTrue => cases h
  case isFalse =>
    split at h
    case isFalse => cases h
    case isTrue =>
      cases htime : a.timeout with
      | none =>
          rw [htime] at h
          have hlimit : a.limit = -1 := by rw [SelectArgs.limit, htime]
          exact ⟨fun hle => by omega, hlimit ▸ h⟩
      | some t =>
          rw [htime] at h
          obtain ⟨sec, usec⟩ := t
          dsimp only at h
          have hlimit : a.limit = sec * 1000000 + usec := by rw [SelectArgs.limit, htime]
          split at h
          case isTrue => cases h
          case isFalse htime =>
            have hleft : timeLeft a.limit 0 = sec * 1000000 + usec := by
              rw [hlimit, timeLeft, if_neg (by omega)]
              omega
            exact ⟨fun _ => rfl, hleft ▸ h⟩

/-- A collected set is a part of the set that was passed when only its members are told. -/
theorem partOf_collected {given : Option FdSet} {told : Nat → Bool}
    (h : ∀ fd, told fd = true → wordsTest (given.getD 0) fd = true) :
    PartOf n given (given.map fun _ => collected told n) := by
  cases given with
  | none => exact ⟨by simp, fun set hset => absurd hset (Option.not_mem_none set)⟩
  | some set =>
      refine ⟨by simp, ?_⟩
      rintro _ ⟨⟩ fd hfd
      have hsize : fd < androidFdSetsize := by
        by_contra hnot
        rw [wordsTest, if_pos (by omega)] at hfd
        cases hfd
      rw [wordsTest_collected hsize, Bool.and_eq_true, decide_eq_true_iff] at hfd
      exact ⟨hfd.1, set, rfl, h fd hfd.2⟩

/-- What is told for a set is in the set. -/
theorem selectTold_given {sets : FdSets} (h : HostWithin a sets) (fd : Nat) :
    ((selectTold s a sets fd).1 = true → wordsTest a.given.r fd = true) ∧
      ((selectTold s a sets fd).2.1 = true → wordsTest a.given.w fd = true) ∧
      ((selectTold s a sets fd).2.2 = true → wordsTest a.given.e fd = true) := by
  unfold selectTold
  split
  case isTrue =>
    simp only [decide_eq_true_eq]
    exact ⟨And.left, And.left, And.left⟩
  case isFalse =>
    simp only [decide_eq_true_eq]
    exact ⟨fun htold => h.r fd htold.2, fun htold => h.w fd htold.2, fun htold => h.e fd htold.2⟩

/-- The bits that come back for a set are those that were told. -/
theorem bits_stored {given : Option FdSet} {told : Nat → Bool} (hn : n ≤ androidFdSetsize)
    (h : ∀ fd, told fd = true → wordsTest (given.getD 0) fd = true) :
    bits (given.map fun _ => collected told n) = (List.range n).countP told := by
  cases given with
  | some set => exact bits_collected told hn
  | none =>
      symm
      show (List.range n).countP told = 0
      rw [List.countP_eq_zero]
      intro fd _ htold
      have hzero : wordsTest 0 fd = true := h fd htold
      simp [wordsTest] at hzero

/-- For every state of the table, every behaviour of the system's `select` and all arguments: a call
of `nx_select` that returns a number reports what it leaves exactly when no descriptor is ready in
two of its sets in the pass that ends the call. -/
theorem select_counts_iff (s : FdState) (host : Nat → Option FdSets) (rounds : Nat) (a : SelectArgs)
    (ret : Int) (left : Selected)
    (hhost : ∀ pass sets, host pass = some sets → HostWithin a sets)
    (h : nxSelect s host rounds a = some (.returns ret left)) (hret : 0 ≤ ret) :
    ∃ k sets, LastPass s host a k sets ∧
      (Reports a ret left ↔ ∀ fd < a.below, Once (selectTold s a sets fd)) := by
  obtain ⟨hlimit, hloop⟩ := nxSelect_returns h
  obtain ⟨k, sets, -, htold, hidle, hends, hvalue, hleft⟩ := selectLoop_last hloop hret
  have hn : a.below ≤ androidFdSetsize := min_le_right _ _
  have hgiven := selectTold_given (s := s) (hhost k sets htold)
  have hr := fun fd => (hgiven fd).1
  have hw := fun fd => (hgiven fd).2.1
  have he := fun fd => (hgiven fd).2.2
  refine ⟨k, sets, ⟨htold, ?_, ?_⟩, ?_⟩
  · intro j hj
    obtain ⟨sets', hsets', hready⟩ := hidle j (Nat.zero_le j) hj
    rw [selectPass_count, List.countP_eq_zero] at hready
    refine ⟨sets', hsets', ?_⟩
    intro fd hfd
    exact Bool.eq_false_iff.2 (hready fd (List.mem_range.2 hfd))
  · refine hends.imp (fun hready => ?_) fun hover => ?_
    · rw [selectPass_count, ← Nat.pos_iff_ne_zero, List.countP_pos_iff] at hready
      obtain ⟨fd, hfd, htold⟩ := hready
      exact ⟨fd, List.mem_range.1 hfd, htold⟩
    · unfold timeLeft at hover
      split at hover
      case isTrue => omega
      case isFalse => exact ⟨hlimit (by omega), by omega⟩
  · have hcount := (countP_anyOf (selectTold s a sets) (List.range a.below)).2
    simp only [List.mem_range] at hcount
    rw [← hcount, ← selectPass_count, ← bits_stored hn hr, ← bits_stored hn hw,
      ← bits_stored hn he, hvalue, hleft]
    unfold SelectArgs.stored
    rw [(selectPass_out a sets a.below).1, (selectPass_out a sets a.below).2, selectPass_out_e]
    constructor
    · rintro ⟨hbits, -, -, -⟩
      exact Int.ofNat.inj hbits
    · intro hbits
      exact ⟨congrArg Int.ofNat hbits, partOf_collected hr, partOf_collected hw,
        partOf_collected he⟩

/-- The table with a pipe whose read end was closed: descriptor 901 is its write end. -/
def broken : FdState where
  gFds i := if i.val = 1 then ⟨.pipeWrite, some 0, 0, 0⟩ else .zero
  heap p := if p = 0 then some ⟨fun _ => 0, 0, 0, 0, 1⟩ else none

/-- The set of descriptor 901. -/
def only901 : FdSet := wordsSet 0 901

/-- Descriptor 901 for writing, and for exceptions or not. -/
def asks901 (exceptset : Option FdSet) : SelectArgs := ⟨902, none, some only901, exceptset, none⟩

/-- No other descriptor is ready. -/
def hostIdle : Nat → Option FdSets := fun _ => some ⟨0, 0, 0⟩

/-- A call that asks for descriptor 901 ends with its first pass. -/
theorem nxSelect_broken (exceptset : Option FdSet) {ready : Nat} {out : FdSets}
    (hpass : (selectPass broken (asks901 exceptset) ⟨0, 0, 0⟩ 902).ready = ready ∧
      (selectPass broken (asks901 exceptset) ⟨0, 0, 0⟩ 902).out = out) (hready : ready ≠ 0) :
    nxSelect broken hostIdle 1 (asks901 exceptset) =
      some (.returns ready ((asks901 exceptset).stored out (-1))) := by
  have hbelow : (901 : Int) < 902 := by decide
  have hasks : Asks (asks901 exceptset) 901 := ⟨hbelow, by decide, by decide, nofun⟩
  have hasked : wordsTest only901 901 = true := by decide +kernel
  rw [nxSelect_own hasks (.inr hasked)]
  obtain ⟨rfl, rfl⟩ := hpass
  show selectLoop broken hostIdle (asks901 exceptset) 902 1 0 (-1) = _
  unfold selectLoop hostIdle
  dsimp only
  rw [if_pos (.inl hready)]

/-- The system's `select` says nothing of other descriptors. -/
theorem hostIdle_within (a : SelectArgs) (pass : Nat) (sets : FdSets)
    (h : hostIdle pass = some sets) : HostWithin a sets := by
  cases h
  have hzero : ∀ fd, wordsTest 0 fd = false := by
    intro fd
    unfold wordsTest
    split <;> simp
  have hnone : ∀ set fd, wordsTest 0 fd = true → wordsTest set fd = true := by
    intro set fd hfd
    rw [hzero] at hfd
    cases hfd
  exact ⟨hnone _, hnone _, hnone _⟩

/-- Asked for writing alone, the descriptor is reported as it is. -/
theorem select_counts_iff_example :
    Reports (asks901 none) 1 ((asks901 none).stored ⟨0, only901, 0⟩ (-1)) := by
  obtain ⟨k, sets, hlast, hiff⟩ := select_counts_iff broken hostIdle 1 (asks901 none) 1
    ((asks901 none).stored ⟨0, only901, 0⟩ (-1)) (hostIdle_within _)
    (nxSelect_broken none (by decide +kernel) (by decide)) (by decide)
  obtain rfl : (⟨0, 0, 0⟩ : FdSets) = sets := Option.some.inj hlast.told
  exact hiff.2 (by decide +kernel)

/-- Asked for writing and for exceptions, the descriptor has a bit in both sets, and is counted
once. -/
theorem select_counts_once :
    nxSelect broken hostIdle 1 (asks901 (some only901)) =
      some (.returns 1 ⟨none, some only901, some only901, none⟩) ∧
    bits none + bits (some only901) + bits (some only901) = 2 ∧
    ¬ Reports (asks901 (some only901)) 1 ⟨none, some only901, some only901, none⟩ := by
  have hbits : bits none + bits (some only901) + bits (some only901) = 2 := by decide +kernel
  refine ⟨?_, hbits, ?_⟩
  · have hpass : (selectPass broken (asks901 (some only901)) ⟨0, 0, 0⟩ 902).ready = 1 ∧
        (selectPass broken (asks901 (some only901)) ⟨0, 0, 0⟩ 902).out = ⟨0, only901, only901⟩ := by
      decide +kernel
    exact nxSelect_broken (some only901) hpass (by decide)
  · intro hreports
    exact absurd (hreports.count_of hbits) (by decide)

end Asnx.FakeFd
