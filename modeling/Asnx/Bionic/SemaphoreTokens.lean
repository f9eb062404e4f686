import Asnx.Bionic.Semaphores

/-!
# The tokens of a semaphore

While the `Mutex` of a semaphore is free, its count is what it was initialised with, plus the posts
that have returned, minus the waits that have returned with a token. A thread that holds the
`Mutex` may be ahead by one token (`Pc.pending`). All of this fails when the count leaves the range
of `int`, which neither `bionic_sem_init` nor `bionic_sem_post` checks.
-/

namespace Asnx.Bionic.Semaphore

open Threads

/-! ## Tokens in a trace -/

def Event.isPost : Event → Bool
  | .returns .posted => true
  | _ => false

def Event.isWait : Event → Bool
  | .returns (.waited _) => true
  | _ => false

/-- The tokens that a step is seen to add. -/
def Event.tokens (e : Event) : Int :=
  if e.isPost then 1 else if e.isWait then -1 else 0

section Trace

variable {T : Type*}

/-- The initial value, plus the completed posts, minus the successful waits. -/
def balance (value : BitVec 32) (trace : List (T × Event)) : Int :=
  value.toNat + trace.countP (fun e => e.2.isPost) - trace.countP (fun e => e.2.isWait)

theorem balance_snoc (value : BitVec 32) (trace : List (T × Event)) (e : T × Event) :
    balance value (trace ++ [e]) = balance value trace + e.2.tokens := by
  have hboth : ¬ (e.2.isPost = true ∧ e.2.isWait = true) := by
    obtain ⟨t, e⟩ := e
    rintro ⟨hpost, hwait⟩
    cases e with
    | inner => cases hpost
    | returns r => cases r with
        | posted => cases hwait
        | waited w => cases hpost
        | value n => cases hpost
        | fails op e => cases hpost
  unfold balance Event.tokens
  rw [List.countP_append, List.countP_append, List.countP_singleton, List.countP_singleton]
  by_cases hpost : e.2.isPost = true
  · have hwait : e.2.isWait = false := by
      by_contra h
      exact hboth ⟨hpost, by simpa using h⟩
    simp only [hpost, hwait]
    push_cast
    omega
  · by_cases hwait : e.2.isWait = true
    · simp only [hpost, hwait]
      push_cast
      omega
    · simp only [hpost, hwait]
      push_cast
      omega

end Trace

/-! ## What a thread has at its place -/

/-- The places where a thread holds the `Mutex`. -/
def Pc.holds : Pc → Bool
  | .idle | .lock _ | .wake _ | .expired => false
  | _ => true

/-- The tokens that a thread has added and that no step has shown yet. -/
def Pc.pending : Pc → Int
  | .wakeOne | .unlock .posted => 1
  | .unlock (.waited _) => -1
  | _ => 0

/-- What a thread that holds the `Mutex` knows of the count. -/
def Pc.Ok (count : Count) : Pc → Prop
  | .load (.wait _) => 0 < count.toInt
  | .store .post n => n = count ∧ count ≠ intMax
  | .store (.wait _) n => n = count ∧ 0 < count.toInt
  | .store .getvalue _ => False
  | .unlock (.value n) => n = count
  | _ => True

theorem Pc.pending_of_free {pc : Pc} (h : pc.holds = false) : pc.pending = 0 := by
  cases pc <;> first | rfl | cases h

theorem Pc.ok_of_free {pc : Pc} (h : pc.holds = false) (count : Count) : pc.Ok count := by
  cases pc <;> trivial

/-- Below `INT_MAX` one may be added. -/
theorem toInt_add_one {n : Count} (h : n ≠ intMax) : (n + 1).toInt = n.toInt + 1 := by
  have hne : n.toNat ≠ 2 ^ 31 - 1 := fun heq => h (BitVec.eq_of_toNat_eq heq)
  have hlt := n.isLt
  have hone : (1 : Count).toNat = 1 := rfl
  simp only [BitVec.toInt_eq_toNat_cond, BitVec.toNat_add, hone]
  split <;> split <;> omega

/-- Above 0 one may be taken off. -/
theorem toInt_sub_one {n : Count} (h : 0 < n.toInt) : (n - 1).toInt = n.toInt - 1 := by
  have hlt := n.isLt
  have hone : (1 : Count).toNat = 1 := rfl
  simp only [BitVec.toInt_eq_toNat_cond, BitVec.toNat_sub, hone] at h ⊢
  split at h <;> split <;> omega

/-- Up to `INT_MAX` a value is itself. -/
theorem toInt_of_le {n : Count} (h : n.toNat ≤ intMax.toNat) : n.toInt = n.toNat := by
  have hmax : intMax.toNat = 2 ^ 31 - 1 := rfl
  rw [BitVec.toInt_eq_toNat_cond, if_pos (by omega)]

theorem sle_zero_iff {n : Count} : n.sle 0 = true ↔ n.toInt ≤ 0 := by
  rw [BitVec.sle_iff_toInt_le]
  rfl

/-! ## What one step does -/

variable {T : Type*}

/-- What a step of the thread `t` from the place `pc` to the place `pc'` does to the semaphore. -/
structure Moved (t : T) (s : SyncSlot T) (pc : Pc) (e : Event) (s' : SyncSlot T) (pc' : Pc) :
    Prop where
  taken : pc'.holds = true → s'.m = some t
  freed : pc'.holds = false → s'.m = if pc.holds then none else s.m
  alone : pc'.holds = true → pc.holds = false → s.m = none
  count : s'.count.toInt + pc.pending = s.count.toInt + pc'.pending + e.tokens
  same : pc.holds = false → s'.count = s.count
  nonneg : 0 ≤ s'.count.toInt
  ok : pc'.Ok s'.count

variable {s s' : SyncSlot T} {l l' : Thread T} {e : Event} {x : Choice} {pc : Pc}

/-- A thread takes the `Mutex`. -/
theorem take_moved (h : take s l pc = some (e, s', l')) (hfree : l.pc.holds = false)
    (hholds : pc.holds = true) (hpending : pc.pending = 0) (hnonneg : 0 ≤ s.count.toInt)
    (hok : pc.Ok s.count) : Moved l.self s l.pc e s' l'.pc ∧ l'.self = l.self := by
  unfold take at h
  split at h
  · rename_i hm
    cases h
    refine ⟨⟨fun _ => rfl, fun hnot => ?_, fun _ _ => hm, ?_, fun _ => rfl, hnonneg, hok⟩, rfl⟩
    · exact absurd hholds (by simpa [Thread.goto] using hnot)
    · simp [Thread.goto, hpending, Pc.pending_of_free hfree, Event.tokens, Event.isPost,
        Event.isWait]
  · cases h

/-- A thread that holds the `Mutex` goes on with it and leaves the count. -/
theorem inner_moved (hm : s.m = some l.self) (hholds : l.pc.holds = true)
    (hpending : l.pc.pending = 0) (hholds' : pc.holds = true) (hpending' : pc.pending = 0)
    (hnonneg : 0 ≤ s.count.toInt) (hok : pc.Ok s.count) : Moved l.self s l.pc .inner s pc where
  taken _ := hm
  freed hnot := absurd hholds' (by simp [hnot])
  alone _ hnot := absurd hholds (by simp [hnot])
  count := by simp [hpending, hpending', Event.tokens, Event.isPost, Event.isWait]
  same hnot := absurd hholds (by simp [hnot])
  nonneg := hnonneg
  ok := hok

/-- A thread without the `Mutex` leaves it and the count. -/
theorem free_moved {t : T} (hfree : l.pc.holds = false) (hfree' : pc.holds = false)
    (hm : s'.m = s.m) (hcount : s'.count = s.count) (hnonneg : 0 ≤ s.count.toInt)
    (htokens : e.tokens = 0) : Moved t s l.pc e s' pc where
  taken hholds := by simp [hfree'] at hholds
  freed _ := by simp [hfree, hm]
  alone hholds := by simp [hfree'] at hholds
  count := by simp [hcount, Pc.pending_of_free hfree, Pc.pending_of_free hfree', htokens]
  same _ := hcount
  nonneg := by rwa [hcount]
  ok := Pc.ok_of_free hfree' _

/-- A thread lets go of the `Mutex`, and what it has added is seen. -/
theorem freed_moved {t : T} (hholds : l.pc.holds = true) (hfree : pc.holds = false)
    (hm : s'.m = none) (hcount : s'.count = s.count) (hnonneg : 0 ≤ s.count.toInt)
    (htokens : e.tokens = l.pc.pending) : Moved t s l.pc e s' pc where
  taken hnot := by simp [hfree] at hnot
  freed _ := by simp [hholds, hm]
  alone hnot := by simp [hfree] at hnot
  count := by simp [hcount, Pc.pending_of_free hfree, htokens]
  same hnot := by simp [hholds] at hnot
  nonneg := by rwa [hcount]
  ok := Pc.ok_of_free hfree _

/-- A thread with the `Mutex` changes the count by what it then has added. -/
theorem counted_moved (hm : s.m = some l.self) (hholds : l.pc.holds = true)
    (hpending : l.pc.pending = 0) (hholds' : pc.holds = true) (hm' : s'.m = s.m)
    (hcount : s'.count.toInt = s.count.toInt + pc.pending) (hnonneg : 0 ≤ s'.count.toInt)
    (hok : pc.Ok s'.count) : Moved l.self s l.pc .inner s' pc where
  taken _ := hm'.trans hm
  freed hnot := by simp [hholds'] at hnot
  alone _ hnot := by simp [hholds] at hnot
  count := by simp [hpending, hcount, Event.tokens, Event.isPost, Event.isWait]
  same hnot := by simp [hholds] at hnot
  nonneg := hnonneg
  ok := hok

/-- The other threads hold the `Mutex` as before. -/
theorem Moved.other_holds {t u : T} {pc' : Pc} (h : Moved t s pc e s' pc')
    (hself : pc.holds = true → s.m = some t) (hu : u ≠ t) : s'.m = some u ↔ s.m = some u := by
  have hne : t ≠ u := Ne.symm hu
  cases hpc' : pc'.holds with
  | true =>
      have hbefore : s.m ≠ some u := by
        cases hpc : pc.holds with
        | true => simp [hself hpc, hne]
        | false => simp [h.alone hpc' hpc]
      simp [h.taken hpc', hne, hbefore]
  | false =>
      cases hpc : pc.holds with
      | true => simp [h.freed hpc', hpc, hself hpc, hne]
      | false => simp [h.freed hpc', hpc]

/-- The thread that moves holds the `Mutex` where its place says so. -/
theorem Moved.self_holds {t : T} {pc' : Pc} (h : Moved t s pc e s' pc')
    (hself : pc.holds = true ↔ s.m = some t) : pc'.holds = true ↔ s'.m = some t := by
  cases hpc' : pc'.holds with
  | true => simp [h.taken hpc']
  | false =>
      cases hpc : pc.holds with
      | true => simp [h.freed hpc', hpc]
      | false =>
          have hnot : s.m ≠ some t := fun hm => by simp [hself.2 hm] at hpc
          simp [h.freed hpc', hpc, hnot]

/-- What is seen of a call that returns is what the thread had added. -/
theorem returns_tokens (r : Result) : (Event.returns r).tokens = (Pc.unlock r).pending := by
  cases r <;> rfl

variable [DecidableEq T]

/-- A call that returns was about to. -/
theorem next_returns {r : Result} (h : semaphoreNext x s l = some (.returns r, s', l')) :
    l.pc = .unlock r ∨ r = .fails .getvalue .einval := by
  have htake : ∀ pc, take s l pc ≠ some (.returns r, s', l') := by
    intro pc htake
    unfold take at htake
    split at htake <;> cases htake
  unfold semaphoreNext at h
  split at h
  · split at h
    · cases h
    · cases h
      exact .inr rfl
  · exact absurd h (htake _)
  · unfold testStep at h
    split at h
    · split at h <;> cases h
    · cases h
  · unfold loadStep at h
    split at h <;> cases h
  · unfold storeStep at h
    split at h <;> cases h
  · cases h
  · split at h <;> cases h
  · cases h
  · unfold wakeStep at h
    split at h
    · exact absurd h (htake _)
    · split at h <;> cases h
  · exact absurd h (htake _)
  · rename_i hpc
    cases h
    exact .inl hpc

/-- What a step does, when a post finds the count below `INT_MAX`. -/
theorem next_moved (h : semaphoreNext x s l = some (e, s', l'))
    (hself : l.pc.holds = true → s.m = some l.self) (hnonneg : 0 ≤ s.count.toInt)
    (hok : l.pc.Ok s.count) (hroom : l.pc = .load .post → s.count ≠ intMax) :
    Moved l.self s l.pc e s' l'.pc ∧ l'.self = l.self := by
  obtain ⟨t, pc⟩ := l
  cases pc with
  | idle =>
      cases hrequest : x.request with
      | call op =>
          simp only [semaphoreNext, hrequest] at h
          cases h
          exact ⟨free_moved rfl rfl rfl rfl hnonneg rfl, rfl⟩
      | getvalueNull =>
          simp only [semaphoreNext, hrequest] at h
          cases h
          exact ⟨free_moved rfl rfl rfl rfl hnonneg rfl, rfl⟩
  | lock op =>
      -- each operation starts with the lock and owes nothing yet
      have hstart : op.start.holds = true ∧ op.start.pending = 0 ∧ op.start.Ok s.count := by
        cases op <;> exact ⟨rfl, rfl, trivial⟩
      exact take_moved h rfl hstart.1 hstart.2.1 hnonneg hstart.2.2
  | test w =>
      have hm := hself rfl
      simp only [semaphoreNext, testStep] at h
      split at h
      · cases w with
        | wait =>
            cases h
            exact ⟨inner_moved hm rfl rfl rfl rfl hnonneg trivial, rfl⟩
        | trywait =>
            cases h
            exact ⟨inner_moved hm rfl rfl rfl rfl hnonneg trivial, rfl⟩
        | timedwait =>
            cases h
            exact ⟨inner_moved hm rfl rfl rfl rfl hnonneg trivial, rfl⟩
      · rename_i hpositive
        cases h
        -- the test was made under the lock, so the count is still positive at the store
        have hpositive : 0 < s.count.toInt := by
          rwa [sle_zero_iff, Int.not_le] at hpositive
        exact ⟨inner_moved hm rfl rfl rfl rfl hnonneg hpositive, rfl⟩
  | load op =>
      have hm := hself rfl
      cases op with
      | post =>
          cases h
          exact ⟨inner_moved hm rfl rfl rfl rfl hnonneg ⟨rfl, hroom rfl⟩, rfl⟩
      | wait w =>
          cases h
          exact ⟨inner_moved hm rfl rfl rfl rfl hnonneg ⟨rfl, hok⟩, rfl⟩
      | getvalue =>
          cases h
          exact ⟨inner_moved hm rfl rfl rfl rfl hnonneg rfl, rfl⟩
  | store op n =>
      have hm := hself rfl
      cases op with
      | post =>
          -- below `INT_MAX`, so adding one does not overflow
          obtain ⟨rfl, hbelow⟩ := hok
          cases h
          have hadd := toInt_add_one hbelow
          exact ⟨counted_moved hm rfl rfl rfl rfl hadd (by rw [hadd]; omega) trivial, rfl⟩
      | wait w =>
          -- a token is taken; the count was positive and stays at least 0
          obtain ⟨rfl, hpositive⟩ := hok
          cases h
          have hsub := toInt_sub_one hpositive
          exact ⟨counted_moved hm rfl rfl rfl rfl hsub (by rw [hsub]; omega) trivial, rfl⟩
      | getvalue => exact hok.elim
  | wakeOne =>
      cases h
      refine ⟨⟨fun _ => hself rfl, nofun, nofun, ?_, fun _ => rfl, hnonneg, trivial⟩, rfl⟩
      simp [condvarWakeOne, Thread.goto, Pc.pending, Event.tokens, Event.isPost, Event.isWait]
  -- whether the time is over is asked under the lock as well
  | timeout =>
      have hm := hself rfl
      cases htimeout : x.timeout with
      | some e =>
          simp only [semaphoreNext, htimeout] at h
          cases h
          exact ⟨inner_moved hm rfl rfl rfl rfl hnonneg trivial, rfl⟩
      | none =>
          simp only [semaphoreNext, htimeout] at h
          cases h
          exact ⟨inner_moved hm rfl rfl rfl rfl hnonneg trivial, rfl⟩
  | sleep w =>
      cases h
      exact ⟨freed_moved rfl rfl rfl rfl hnonneg rfl, rfl⟩
  | wake w =>
      simp only [semaphoreNext, wakeStep] at h
      split at h
      · exact take_moved h rfl rfl rfl hnonneg trivial
      · split at h
        · cases h
          exact ⟨free_moved rfl rfl rfl rfl hnonneg rfl, rfl⟩
        · cases h
  | expired => exact take_moved h rfl rfl rfl hnonneg trivial
  | unlock r =>
      cases h
      exact ⟨freed_moved rfl rfl rfl rfl hnonneg (returns_tokens r), rfl⟩

/-! ## Every run -/

/-- A post finds the count below `INT_MAX`. -/
def Room (c : Config T (SyncSlot T) (Thread T)) (label : T × Event) : Prop :=
  (c.locals label.1).pc = .load .post → c.shared.count ≠ intMax

instance (c : Config T (SyncSlot T) (Thread T)) (label : T × Event) : Decidable (Room c label) :=
  inferInstanceAs (Decidable (_ → _))

/-- The tokens that the thread with the `Mutex` has added and that have not been seen. -/
def ahead (c : Config T (SyncSlot T) (Thread T)) : Int :=
  match c.shared.m with
  | none => 0
  | some t => (c.locals t).pc.pending

/-- Who holds the `Mutex`, what the count is, and what every thread knows. -/
structure Inv (value : BitVec 32) (trace : List (T × Event))
    (c : Config T (SyncSlot T) (Thread T)) : Prop where
  self : ∀ t, (c.locals t).self = t
  holds : ∀ t, (c.locals t).pc.holds = true ↔ c.shared.m = some t
  count : c.shared.count.toInt = balance value trace + ahead c
  nonneg : 0 ≤ c.shared.count.toInt
  ok : ∀ t, (c.locals t).pc.Ok c.shared.count

variable {value : BitVec 32} {trace : List (T × Event)} {c d : Config T (SyncSlot T) (Thread T)}
  {label : T × Event}

omit [DecidableEq T] in
/-- While a thread holds the `Mutex`, or nobody does, the thread alone may be ahead. -/
theorem ahead_of_mine {t : T} (hm : c.shared.m = some t ∨ c.shared.m = none ∧
    (c.locals t).pc.holds = false) : ahead c = (c.locals t).pc.pending := by
  unfold ahead
  rcases hm with hm | ⟨hm, hfree⟩
  · rw [hm]
  · rw [hm]
    exact (Pc.pending_of_free hfree).symm

/-- The count is kept. -/
theorem Inv.count_step (h : Inv value trace c) {t : T} {l' : Thread T}
    (hmoved : Moved t c.shared (c.locals t).pc e s' l'.pc) :
    s'.count.toInt = balance value trace + e.tokens + ahead (c.set t s' l') := by
  have hcount := hmoved.count
  have hbefore := h.count
  by_cases hfree : (c.locals t).pc.holds = false ∧ l'.pc.holds = false
  · -- somebody else may be ahead, and stays so
    have hm : s'.m = c.shared.m := by simp [hmoved.freed hfree.2, hfree.1]
    have hahead : ahead (c.set t s' l') = ahead c := by
      unfold ahead
      rw [Config.set_shared, hm]
      cases hholder : c.shared.m with
      | none => rfl
      | some u =>
          have hu : u ≠ t := by
            rintro rfl
            have hholds := (h.holds u).2 hholder
            simp [hfree.1] at hholds
          simp only [Config.set_locals_other c hu]
    rw [Pc.pending_of_free hfree.1, Pc.pending_of_free hfree.2] at hcount
    omega
  · have hafter : ahead (c.set t s' l') = l'.pc.pending := by
      have hmine : ahead (c.set t s' l') = ((c.set t s' l').locals t).pc.pending := by
        refine ahead_of_mine ?_
        rw [Config.set_shared, Config.set_locals_self]
        cases hpc' : l'.pc.holds with
        | true => exact .inl (hmoved.taken hpc')
        | false =>
            have hpc : (c.locals t).pc.holds = true := by simpa [hpc'] using hfree
            exact .inr ⟨by simp [hmoved.freed hpc', hpc], rfl⟩
      rwa [Config.set_locals_self] at hmine
    have hahead : ahead c = (c.locals t).pc.pending := by
      refine ahead_of_mine ?_
      cases hpc : (c.locals t).pc.holds with
      | true => exact .inl ((h.holds t).1 hpc)
      | false =>
          have hpc' : l'.pc.holds = true := by simpa [hpc] using hfree
          exact .inr ⟨hmoved.alone hpc' hpc, rfl⟩
    omega

/-- Every step keeps the invariant. -/
theorem Inv.step (h : Inv value trace c) (hstep : Step semaphore c label d) (hroom : Room c label) :
    Inv value (trace ++ [label]) d := by
  obtain @⟨t, x, e, s', l', hnext⟩ := hstep
  have hself := h.self t
  obtain ⟨hmoved, hself'⟩ := next_moved hnext
    (fun hpc => by rw [hself]; exact (h.holds t).1 hpc) h.nonneg (h.ok t) hroom
  rw [hself] at hmoved hself'
  refine ⟨fun u => ?_, fun u => ?_, ?_, hmoved.nonneg, fun u => ?_⟩
  · by_cases hu : u = t
    · subst hu
      rwa [Config.set_locals_self]
    · rw [Config.set_locals_other c hu]
      exact h.self u
  · by_cases hu : u = t
    · subst hu
      rw [Config.set_locals_self]
      exact hmoved.self_holds (h.holds u)
    · rw [Config.set_locals_other c hu, h.holds u]
      exact (hmoved.other_holds (h.holds t).1 hu).symm
  · rw [balance_snoc]
    exact h.count_step hmoved
  · by_cases hu : u = t
    · subst hu
      rw [Config.set_locals_self]
      exact hmoved.ok
    · rw [Config.set_locals_other c hu]
      cases hpc : (c.locals t).pc.holds with
      | false =>
          rw [Config.set_shared, hmoved.same hpc]
          exact h.ok u
      | true =>
          have hfree : (c.locals u).pc.holds = false := by
            cases hpcu : (c.locals u).pc.holds with
            | false => rfl
            | true =>
                have hmt := (h.holds t).1 hpc
                have hmu := (h.holds u).1 hpcu
                exact absurd (Option.some.inj (hmu.symm.trans hmt)) hu
          exact Pc.ok_of_free hfree _

/-- What a semaphore keeps: while its `Mutex` is free its count is the balance, it is never
negative, neither in itself nor as it is reported, and a wait that succeeds finds a token. -/
structure Conserved (value : BitVec 32) (trace : List (T × Event)) (s : SyncSlot T) : Prop where
  count : s.m = none → s.count.toInt = balance value trace
  nonneg : 0 ≤ s.count.toInt
  reported : Always (fun before e => ∀ n, e.2 = .returns (.value n) →
    n.toInt = balance value before ∧ 0 ≤ n.toInt) trace
  tokens : Always (fun before e => ∀ w, e.2 = .returns (.waited w) → 0 < balance value before) trace

/-- What a call that returns has seen of the count. -/
theorem Inv.returned (h : Inv value trace c) (hstep : Step semaphore c label d) :
    (∀ n, label.2 = .returns (.value n) → n.toInt = balance value trace ∧ 0 ≤ n.toInt) ∧
      ∀ w, label.2 = .returns (.waited w) → 0 < balance value trace := by
  obtain @⟨t, x, e, s', l', hnext⟩ := hstep
  have hcount := h.count
  have hnonneg := h.nonneg
  -- the thread that returns holds the `Mutex`, so nobody else is ahead
  have hahead : ∀ r, (c.locals t).pc = .unlock r → ahead c = (Pc.unlock r).pending := by
    intro r hpc
    rw [← hpc]
    exact ahead_of_mine (.inl ((h.holds t).1 (by rw [hpc]; rfl)))
  refine ⟨fun n hn => ?_, fun w hw => ?_⟩
  · obtain rfl : e = .returns (.value n) := hn
    have hpc := (next_returns hnext).resolve_right nofun
    have hok := h.ok t
    rw [hpc] at hok
    obtain rfl : n = c.shared.count := hok
    rw [hahead _ hpc] at hcount
    exact ⟨by simpa [Pc.pending] using hcount, hnonneg⟩
  · obtain rfl : e = .returns (.waited w) := hw
    have hpc := (next_returns hnext).resolve_right nofun
    have hpending : (Pc.unlock (.waited w)).pending = -1 := rfl
    rw [hahead _ hpc, hpending] at hcount
    omega

omit [DecidableEq T] in
/-- The invariant before the first call. -/
theorem Initial.inv (hinit : Initial value c) (hvalue : value.toNat ≤ intMax.toNat) :
    Inv value [] c where
  self := hinit.self
  holds t := by simp [hinit.idle, hinit.shared, semInit, Pc.holds]
  count := by
    simp [ahead, hinit.shared, semInit, balance, toInt_of_le hvalue]
  nonneg := by
    rw [hinit.shared]
    show 0 ≤ value.toInt
    rw [toInt_of_le hvalue]
    exact Int.natCast_nonneg _
  ok t := by
    rw [hinit.idle]
    trivial

/-- Over every run in which no post finds the count at `INT_MAX`, a semaphore with an initial value
of at most `INT_MAX` is conserved. -/
theorem semaphore_conserved (hinit : Initial value c) (hvalue : value.toNat ≤ intMax.toNat)
    (h : Run (fun c label d => Step semaphore c label d ∧ Room c label) c trace d) :
    Conserved value trace d.shared := by
  have hrun := h.invariant_trace (I := fun trace c => Inv value trace c ∧
    Always (fun before e => ∀ n, e.2 = .returns (.value n) →
      n.toInt = balance value before ∧ 0 ≤ n.toInt) trace ∧
    Always (fun before e => ∀ w, e.2 = .returns (.waited w) → 0 < balance value before) trace)
    ⟨hinit.inv hvalue, always_nil, always_nil⟩ fun trace c label d hbefore hstep => by
      obtain ⟨hinv, hreported, htokens⟩ := hbefore
      obtain ⟨hstep, hroom⟩ := hstep
      obtain ⟨hvalue, hwait⟩ := hinv.returned hstep
      exact ⟨hinv.step hstep hroom, always_snoc hreported hvalue, always_snoc htokens hwait⟩
  obtain ⟨hinv, hreported, htokens⟩ := hrun
  refine ⟨fun hfree => ?_, hinv.nonneg, hreported, htokens⟩
  have hcount := hinv.count
  simpa [ahead, hfree] using hcount

/-- Two threads, after the semaphore has been initialised. -/
def twoThreads (value : BitVec 32) : Config Bool (SyncSlot Bool) (Thread Bool) :=
  ⟨semInit value, fun t => ⟨t, .idle⟩⟩

theorem initial_twoThreads (value : BitVec 32) : Initial value (twoThreads value) :=
  ⟨fun _ => rfl, fun _ => rfl, rfl⟩

/-- `n` steps of a thread in a call. -/
def steps (t : Bool) (op : Op) (n : Nat) : List (Bool × Choice) :=
  List.replicate n (t, ⟨.call op, none, false, 0⟩)

/-- A thread waits for a token, sleeps, and has the one that the other thread posts. -/
theorem semaphore_conserved_example : ∃ trace d,
    Run (fun c label d => Step semaphore c label d ∧ Room c label) (twoThreads 0) trace d ∧
    (true, .returns (.waited .wait)) ∈ trace ∧ Conserved 0 trace d.shared := by
  have hexec : (semaphore.execIf (fun c label => decide (Room c label)) (twoThreads 0)
      (steps true (.wait .wait) 4 ++ steps false .post 6 ++ steps true (.wait .wait) 5)).any
      (fun r => decide ((true, .returns (.waited .wait)) ∈ r.1)) = true := by
    decide
  obtain ⟨⟨trace, d⟩, hexec, hmem⟩ := (Option.any_eq_true _ _).1 hexec
  have hrun := (Program.exec_if_run hexec).mono (S := fun c label d =>
    Step semaphore c label d ∧ Room c label) fun _ _ _ h => ⟨h.1, of_decide_eq_true h.2⟩
  exact ⟨trace, d, hrun, of_decide_eq_true hmem,
    semaphore_conserved (initial_twoThreads 0) (by decide) hrun⟩

/-- A value above `INT_MAX` gives a negative count, and so does a post at `INT_MAX`. -/
theorem semaphore_not_conserved :
    (∃ trace d, Run (Step semaphore) (twoThreads 0x80000000) trace d ∧
      ¬ Conserved 0x80000000 trace d.shared) ∧
    (∃ trace d, Run (Step semaphore) (twoThreads intMax) trace d ∧
      (false, .returns .posted) ∈ trace ∧ ¬ Conserved intMax trace d.shared) := by
  have hinit : (semaphore.exec (twoThreads 0x80000000) (steps true .getvalue 4)).any
      (fun r => decide (r.2.shared.count.toInt < 0)) = true := by
    decide
  have hpost : (semaphore.exec (twoThreads intMax) (steps false .post 6)).any
      (fun r => decide ((false, .returns .posted) ∈ r.1 ∧ r.2.shared.count.toInt < 0)) = true := by
    decide
  obtain ⟨trace, d, hrun, hnegative⟩ := Program.exec_test hinit
  obtain ⟨trace', d', hrun', hseen⟩ := Program.exec_test hpost
  have hseen := of_decide_eq_true hseen
  refine ⟨⟨trace, d, hrun, fun h => ?_⟩, trace', d', hrun', hseen.1, fun h => ?_⟩
  · exact absurd h.nonneg (Int.not_le.2 (of_decide_eq_true hnegative))
  · exact absurd h.nonneg (Int.not_le.2 hseen.2)

end Asnx.Bionic.Semaphore
