import Asnx.Bionic.FutexTable
import Mathlib.Data.Set.Card
import Mathlib.Order.Interval.Finset.Nat

/-!
# Running out of futex slots

A slot that `futex_slot_get` has made for a `FUTEX_WAIT` stays for good, whether or not a thread
still waits there. So a wait fails with `ENOMEM` once `FUTEX_SLOTS` other addresses have been
waited on, and only then (`enomem_by_history`); one thread can bring this about alone
(`enomem_alone`).
-/

namespace Asnx.Bionic.Futex

open Threads Probing

variable {T : Type*}

/-! ## Waits that end by themselves -/

/-- What a step is seen to do, with the address of a `FUTEX_WAIT` that is at `futex_slot_get`. -/
inductive WaitEvent where
  | step (e : Event) (looked : Option Word)
  /-- A wait whose time is over returns. One without a timeout does so after 16 ms. -/
  | timesOut (u : Word) (val : Int)
  deriving DecidableEq

/-- The address for which a `FUTEX_WAIT` is at `futex_slot_get`. -/
def Pc.looked : Pc → Option Word
  | .waitSlot u _ _ => some u
  | _ => none

/-- The address of the call in which a thread is. -/
def Pc.word : Pc → Option Word
  | .idle => none
  | .waitSlot u _ _ | .waitLock u _ _ _ | .waitSleep u _ _ _ | .asleep u _ _ | .wakeSlot u _
  | .wakeLock u _ _ => some u

/-- What the environment decides, and whether the time of a wait is over. -/
structure WaitChoice (T : Type*) where
  choice : Choice T
  expires : Bool

section Program

variable [DecidableEq T]

/-- A thread that sleeps has the `Mutex` of its slot again when its time is over, and returns. -/
def expireStep (s : Futexes T) (t : Thread T) (slot : FutexSlot T) (u : Word)
    (val : Int) (i : Nat) :
    Option (WaitEvent × Futexes T × Thread T) :=
  if slot.m ≠ none then none
  else
    some (.timesOut u val,
      s.put i { slot with cv := slot.cv.erase t.self, waiters := slot.waiters - 1 }, t.goto .idle)

/-- The next step of a thread, which may be the end of its sleep. -/
def waitNext (x : WaitChoice T) (s : Futexes T) (t : Thread T) :
    Option (WaitEvent × Futexes T × Thread T) :=
  match x.expires, t.pc with
  | true, .asleep u val i =>
      match s.slots i with
      | none => none
      | some slot => expireStep s t slot u val i
  | _, pc => (futexNext x.choice s t).map fun r => (.step r.1 pc.looked, r.2)

/-- The threads that use futexes, with timeouts. -/
def waits : Program (Futexes T) (Thread T) (WaitChoice T) WaitEvent := ⟨waitNext⟩

end Program

/-! ## The addresses that have been waited on -/

/-- The address that a step has looked up for a wait. -/
def WaitEvent.looked : WaitEvent → Option Word
  | .step _ looked => looked
  | .timesOut _ _ => none

/-- The addresses that waits have looked up. -/
def looked (trace : List (T × WaitEvent)) : List Word := trace.filterMap fun e => e.2.looked

theorem looked_snoc (trace : List (T × WaitEvent)) (e : T × WaitEvent) :
    looked (trace ++ [e]) = looked trace ++ e.2.looked.toList := by
  unfold looked
  rw [List.filterMap_append]
  cases h : e.2.looked with
  | none => simp [h]
  | some u => simp [h]

/-- A wait fails with `ENOMEM`. -/
def WaitEvent.Fails (e : WaitEvent) (u : Word) : Prop :=
  ∃ val, e = .step (.waitReturns u val .enomem) (some u)

/-- The table after waits have looked addresses up: it has these addresses and no others, until it
is full. -/
structure LookedUp (addresses : List Word) (keys : Nat → Option Word) : Prop where
  findable : Findable keys futexPlace futexSlots
  known : ∀ i u, keys i = some u → i < futexSlots ∧ u ∈ addresses
  kept : ∀ u ∈ addresses, (∃ i, keys i = some u) ∨ ∀ i < futexSlots, keys i ≠ none

section Steps

variable {addresses : List Word} {s : Futexes T} {u : Word} {i : Nat}

theorem futexPlace_lt (key : Word) (k : Nat) : futexPlace key k < futexSlots := by
  rw [futexPlace_eq]
  exact Nat.mod_lt _ (by decide)

/-- A free place that a search finds is one of the slots. -/
theorem probe_free_lt {table : Nat → Option Word} {left p : Nat}
    (h : probe table u (futexPlace u) left p = .free i) : i < futexSlots := by
  induction left generalizing p with
  | zero => cases h
  | succ left ih =>
      rw [probe] at h
      split at h
      · split at h
        · cases h
        · exact ih h
      · cases h
        exact futexPlace_lt u p

/-- A wait looks its address up. -/
theorem LookedUp.lookup (h : LookedUp addresses s.keys) (u : Word) :
    LookedUp (addresses ++ [u]) (futexSlotGet s u true).2.keys := by
  unfold futexSlotGet
  cases hprobe : probe s.keys u (futexPlace u) futexSlots 0 with
  | hit i =>
      refine ⟨h.findable, fun j w hw => ?_, fun w hw => ?_⟩
      · obtain ⟨hj, hmem⟩ := h.known j w hw
        exact ⟨hj, List.mem_append_left _ hmem⟩
      · rcases List.mem_append.1 hw with hw | hw
        · exact h.kept w hw
        · rw [List.mem_singleton] at hw
          subst hw
          exact .inl ⟨i, probe_hit hprobe⟩
  | full =>
      refine ⟨h.findable, fun j w hw => ?_, fun w hw => .inr fun i hi => ?_⟩
      · obtain ⟨hj, hmem⟩ := h.known j w hw
        exact ⟨hj, List.mem_append_left _ hmem⟩
      · obtain ⟨k, hk, rfl⟩ := exists_place u hi
        obtain ⟨other, -, hother⟩ := probe_full hprobe hk
        rw [Nat.zero_add] at hother
        show s.keys (futexPlace u k) ≠ none
        rw [hother]
        exact Option.some_ne_none _
  | free i =>
      have hkeys : (s.put i (.fresh u)).keys = Function.update s.keys i (some u) := keys_put_eq
      show LookedUp _ (s.put i (.fresh u)).keys
      rw [hkeys]
      refine ⟨h.findable.enter hprobe, fun j w hw => ?_, fun w hw => ?_⟩
      · by_cases hj : j = i
        · subst hj
          rw [Function.update_self] at hw
          cases hw
          exact ⟨probe_free_lt hprobe, List.mem_append_right _ List.mem_cons_self⟩
        · rw [Function.update_of_ne hj] at hw
          obtain ⟨hj, hmem⟩ := h.known j w hw
          exact ⟨hj, List.mem_append_left _ hmem⟩
      · rcases List.mem_append.1 hw with hw | hw
        · rcases h.kept w hw with ⟨j, hj⟩ | hfull
          · have hji : j ≠ i := by
              rintro rfl
              rw [probe_free hprobe] at hj
              cases hj
            exact .inl ⟨j, by rw [Function.update_of_ne hji]; exact hj⟩
          · exact absurd (probe_free hprobe) (hfull i (probe_free_lt hprobe))
        · rw [List.mem_singleton] at hw
          subst hw
          exact .inl ⟨i, Function.update_self ..⟩

/-- A wait that finds no slot has found other addresses in all of them. -/
theorem LookedUp.full_of_none (h : LookedUp addresses s.keys)
    (hnone : (futexSlotGet s u true).1 = none) :
    futexSlots ≤ {w | w ∈ addresses ∧ w ≠ u}.ncard := by
  have hothers : ∀ i : Fin futexSlots, ∃ other, other ≠ u ∧ s.keys i = some other :=
    fun i => full_of_create hnone i.isLt
  choose other hne hother using hothers
  have hinjective : Function.Injective other := by
    intro i j hij
    have hi := hother i
    rw [hij] at hi
    exact Fin.ext (h.findable.unique hi (hother j))
  have hfinite : {w | w ∈ addresses ∧ w ≠ u}.Finite :=
    (List.finite_toSet addresses).subset fun w hw => hw.1
  have hsubset : Set.range other ⊆ {w | w ∈ addresses ∧ w ≠ u} := by
    rintro w ⟨i, rfl⟩
    exact ⟨(h.known i _ (hother i)).2, hne i⟩
  have hcard : (Set.range other).ncard = futexSlots := by
    rw [← Set.image_univ, Set.ncard_image_of_injective _ hinjective, Set.ncard_univ, Nat.card_fin]
  rw [← hcard]
  exact Set.ncard_le_ncard hsubset hfinite

/-- A wait on an address that is new finds no slot when as many addresses as there are slots have
been waited on. -/
theorem LookedUp.none_of_full (h : LookedUp addresses s.keys) (hnew : u ∉ addresses)
    (hmany : futexSlots ≤ {w | w ∈ addresses}.ncard) : futexSlotGet s u true = (none, s) := by
  have hfull : ∀ i < futexSlots, s.keys i ≠ none := by
    by_contra hnot
    push Not at hnot
    obtain ⟨free, hfree, hnone⟩ := hnot
    -- every address has a slot, and one slot is free, so there are fewer addresses than slots
    have hslots : ∀ w ∈ {w | w ∈ addresses}, ∃ i, s.keys i = some w := fun w hw =>
      (h.kept w hw).resolve_right fun hall => hall free hfree hnone
    choose! slot hslot using hslots
    have hmaps : ∀ w ∈ {w | w ∈ addresses}, slot w ∈
        ((Finset.range futexSlots).erase free : Set Nat) := by
      intro w hw
      have hi := hslot w hw
      rw [Finset.mem_coe, Finset.mem_erase, Finset.mem_range]
      refine ⟨?_, (h.known _ _ hi).1⟩
      intro heq
      rw [heq, hnone] at hi
      cases hi
    have hinjective : Set.InjOn slot {w | w ∈ addresses} := by
      intro w hw w' hw' heq
      have hi := hslot w hw
      rw [heq, hslot w' hw'] at hi
      exact (Option.some.inj hi).symm
    have hle := Set.ncard_le_ncard_of_injOn slot hmaps hinjective
    rw [Set.ncard_coe_finset, Finset.card_erase_of_mem (Finset.mem_range.2 hfree),
      Finset.card_range] at hle
    unfold futexSlots at *
    omega
  unfold futexSlotGet
  cases hprobe : probe s.keys u (futexPlace u) futexSlots 0 with
  | hit i => exact absurd (h.known i u (probe_hit hprobe)).2 hnew
  | full => rfl
  | free i => exact absurd (probe_free hprobe) (hfull i (probe_free_lt hprobe))

end Steps

/-! ## Runs -/

section Runs

variable [DecidableEq T] {c d : Config T (Futexes T) (Thread T)} {s s' : Futexes T}
  {l l' : Thread T} {x : WaitChoice T} {e : WaitEvent} {u : Word} {trace : List (T × WaitEvent)}

omit [DecidableEq T] in
/-- A step of a thread that is not at `futex_slot_get` of a wait keeps the keys. -/
theorem keys_of_turn {t : T} {pc pc' : Pc} {e : Event} (h : Turn s t pc e s' pc')
    (hpc : pc.looked = none) : s'.keys = s.keys := by
  cases h with
  | waitFound | waitEntered | waitFull => cases hpc
  | checks _ _ _ _ _ hslot | refuses _ _ _ _ _ hslot | sleeps _ _ _ _ _ hslot
  | leaves _ _ _ _ hslot | wakes _ _ _ _ _ hslot => exact keys_put hslot rfl
  | store | fails | callWait | callWake | differs | wakeFound | wakeNone => rfl

/-- A step of a thread that is at `futex_slot_get` of a wait. -/
theorem waitNext_slot {val : Int} {timeout : Option Timespec}
    (hpc : l.pc = .waitSlot u val timeout) (hnext : waitNext x s l = some (e, s', l')) :
    s' = (futexSlotGet s u true).2 ∧ e.looked = some u ∧
      (e.Fails u ↔ (futexSlotGet s u true).1 = none) := by
  have hstep : waitNext x s l = (futexNext x.choice s l).map fun r =>
    (.step r.1 l.pc.looked, r.2) := by
    unfold waitNext
    rw [hpc]
    cases x.expires <;> rfl
  rw [hstep, hpc] at hnext
  unfold futexNext at hnext
  rw [hpc] at hnext
  dsimp only at hnext
  rcases hget : futexSlotGet s u true with ⟨found, s₁⟩
  rw [hget] at hnext
  cases found with
  | none =>
      cases hnext
      exact ⟨rfl, rfl, iff_of_true ⟨val, rfl⟩ rfl⟩
  | some i =>
      cases hnext
      refine ⟨rfl, rfl, iff_of_false ?_ nofun⟩
      rintro ⟨val, hfails⟩
      cases hfails

/-- A step looks an address up for a wait, or leaves the keys as they are. -/
theorem waitNext_cases (hnext : waitNext x s l = some (e, s', l')) :
    (∃ u val timeout, l.pc = .waitSlot u val timeout) ∨ s'.keys = s.keys ∧ e.looked = none := by
  unfold waitNext at hnext
  split at hnext
  · split at hnext
    · cases hnext
    · rename_i slot hslot
      unfold expireStep at hnext
      split at hnext
      · cases hnext
      · cases hnext
        exact .inr ⟨keys_put hslot rfl, rfl⟩
  · obtain ⟨⟨event, s₁, l₁⟩, hfutex, hr⟩ := Option.map_eq_some_iff.1 hnext
    cases hr
    cases hlooked : l.pc.looked with
    | some u =>
        cases hpc : l.pc with
        | waitSlot u val timeout => exact .inl ⟨u, val, timeout, rfl⟩
        | idle | waitLock | waitSleep | asleep | wakeSlot | wakeLock =>
            rw [hpc] at hlooked
            cases hlooked
    | none => exact .inr ⟨keys_of_turn (futexNext_turn hfutex).1 hlooked, rfl⟩

/-- The table has the addresses that waits have looked up. -/
theorem LookedUp.step (h : LookedUp (looked trace) c.shared.keys) {label : T × WaitEvent}
    (hstep : Step waits c label d) : LookedUp (looked (trace ++ [label])) d.shared.keys := by
  rw [looked_snoc]
  cases hstep with
  | @mk t _ e s l hnext =>
      rcases waitNext_cases hnext with ⟨u, val, timeout, hpc⟩ | ⟨hkeys, hnone⟩
      · obtain ⟨rfl, hlooked, -⟩ := waitNext_slot hpc hnext
        rw [hlooked]
        exact h.lookup u
      · rw [hnone]
        show LookedUp (looked trace ++ []) s.keys
        rw [hkeys, List.append_nil]
        exact h

theorem known_of_run (hinit : Initial c) (hrun : Run (Step waits) c trace d) :
    LookedUp (looked trace) d.shared.keys := by
  refine hrun.invariant_trace (I := fun trace d => LookedUp (looked trace) d.shared.keys) ?_ ?_
  · have hempty : c.shared.keys = fun _ => none := by
      funext i
      unfold Futexes.keys
      rw [hinit.slots]
      rfl
    rw [hempty]
    exact ⟨nofun, nofun, nofun⟩
  · intro trace c label d h hstep
    exact h.step hstep

/-- Whether a wait finds a slot depends on the addresses that have been waited on before. -/
structure ByHistory (trace : List (T × WaitEvent)) : Prop where
  only : Always (fun before e => ∀ u, e.2.Fails u →
    futexSlots ≤ {w | w ∈ looked before ∧ w ≠ u}.ncard) trace
  whenever : Always (fun before e => ∀ u, e.2.looked = some u → u ∉ looked before →
    futexSlots ≤ {w | w ∈ looked before}.ncard → e.2.Fails u) trace

/-- A wait that fails has found no slot for its address. -/
theorem slot_of_fails (hnext : waitNext x s l = some (e, s', l')) (hlooked : e.looked = some u) :
    e.Fails u ↔ (futexSlotGet s u true).1 = none := by
  rcases waitNext_cases hnext with ⟨w, val, timeout, hpc⟩ | ⟨-, hnone⟩
  · obtain ⟨-, hw, hiff⟩ := waitNext_slot hpc hnext
    rw [hw] at hlooked
    cases hlooked
    exact hiff
  · rw [hnone] at hlooked
    cases hlooked

/-- A `FUTEX_WAIT` fails with `ENOMEM` only when `FUTEX_SLOTS` other addresses have been waited on
before, and on a new address it does whenever `FUTEX_SLOTS` addresses have been: who is still inside
makes no difference. -/
theorem enomem_by_history (hinit : Initial c) (hrun : Run (Step waits) c trace d) :
    ByHistory trace := by
  induction hrun with
  | refl => exact ⟨always_nil, always_nil⟩
  | @snoc d e trace label hrun hlast ih =>
      have hknown := known_of_run hinit hrun
      cases hlast with
      | @mk t _ e s l hnext =>
          refine ⟨always_snoc ih.only fun u hfails => ?_,
            always_snoc ih.whenever fun u hlooked hnew hmany => ?_⟩
          · have hlooked : e.looked = some u := by
              obtain ⟨val, rfl⟩ := hfails
              rfl
            exact hknown.full_of_none ((slot_of_fails hnext hlooked).1 hfails)
          · refine (slot_of_fails hnext hlooked).2 ?_
            rw [hknown.none_of_full hnew hmany]

end Runs

/-! ## One thread alone -/

/-- The addresses inside `futex_operation`. -/
def inside (c : Config T (Futexes T) (Thread T)) : Set Word :=
    {u | ∃ t, (c.locals t).pc.word = some u}

/-- One thread that has not called anything, where all words are 0. -/
def aloneStart : Config Unit (Futexes Unit) (Thread Unit) :=
  ⟨⟨fun _ => 0, fun _ => none⟩, fun _ => ⟨(), .idle⟩⟩

theorem initial_aloneStart : Initial aloneStart := ⟨fun _ => rfl, fun _ => rfl, fun _ => rfl⟩

/-- The thread is between two calls, and nobody has a `Mutex`. -/
structure Between (c : Config Unit (Futexes Unit) (Thread Unit)) : Prop where
  idle : (c.locals ()).pc = .idle
  zero : ∀ u, c.shared.memory u = 0
  free : ∀ i slot, c.shared.slots i = some slot → slot.m = none

/-- A call of `FUTEX_WAIT` for a value that the word does not have. -/
def waitsFor (u : Word) : WaitChoice Unit := ⟨⟨.futex u 0 1 none, fun _ => 0⟩, false⟩

/-- The call comes to `futex_slot_get`. -/
theorem Between.call {c : Config Unit (Futexes Unit) (Thread Unit)} (h : Between c) {u : Word}
    (hu : u ≠ 0) : Step waits c ((), .step .inner none)
      (c.set () c.shared ((c.locals ()).goto (.waitSlot u 1 none))) := by
  refine .mk (x := waitsFor u) ?_
  show waitNext (waitsFor u) c.shared (c.locals ()) = _
  unfold waitNext futexNext
  rw [h.idle]
  show (futexOperation c.shared (c.locals ()) u 0 1 none).map _ = _
  unfold futexOperation
  rw [if_neg hu]
  rfl

/-- A wait looks its address up and returns. -/
theorem Between.wait {c : Config Unit (Futexes Unit) (Thread Unit)} (h : Between c) {u : Word}
    (hu : u ≠ 0) : ∃ trace d, Run (Step waits) c trace d ∧ looked trace = [u] ∧ Between d := by
  set called := c.set () c.shared ((c.locals ()).goto (.waitSlot u 1 none)) with hcalled
  have hcall : Run (Step waits) c [((), .step .inner none)] called := .snoc (.refl c) (h.call hu)
  have hlocal : called.locals () = (c.locals ()).goto (.waitSlot u 1 none) :=
    Config.set_locals_self ..
  have hpc : (called.locals ()).pc = .waitSlot u 1 none := by
    rw [hlocal]
    rfl
  rcases hget : futexSlotGet c.shared u true with ⟨found, s⟩
  -- the second step looks the address up, and is seen to
  have hlookup : ∀ r, futexNext (waitsFor u).choice c.shared (called.locals ()) = some r →
      Step waits called ((), .step r.1 (some u)) (called.set () r.2.1 r.2.2) := by
    intro r hr
    refine .mk (x := waitsFor u) ?_
    show waitNext (waitsFor u) c.shared (called.locals ()) = _
    unfold waitNext
    rw [hr, hpc]
    rfl
  -- the lookup leaves the memory and the locks of the slots alone
  have hkept : (∀ w, s.memory w = 0) ∧ ∀ i slot, s.slots i = some slot → slot.m = none := by
    rcases futexSlotGet_cases c.shared u true with ⟨i, heq, -⟩ | ⟨i, heq, -⟩ | ⟨heq, -⟩ <;>
      rw [hget] at heq <;> cases heq
    · exact ⟨h.zero, h.free⟩
    · refine ⟨h.zero, fun j slot hslot => ?_⟩
      by_cases hj : j = i
      · subst hj
        rw [put_slots_self] at hslot
        cases hslot
        rfl
      · rw [put_slots_other hj] at hslot
        exact h.free j slot hslot
    · exact ⟨h.zero, h.free⟩
  cases found with
  | none =>
      have hfutex : futexNext (waitsFor u).choice c.shared (called.locals ()) =
          some (.waitReturns u 1 .enomem, s, (called.locals ()).goto .idle) := by
        unfold futexNext
        rw [hpc]
        dsimp only
        rw [hget]
      refine ⟨_, _, hcall.snoc (hlookup _ hfutex), rfl, ?_, hkept.1, hkept.2⟩
      rw [Config.set_locals_self]
      rfl
  | some i =>
      have hfutex : futexNext (waitsFor u).choice c.shared (called.locals ()) =
          some (.inner, s, (called.locals ()).goto (.waitLock u 1 none i)) := by
        unfold futexNext
        rw [hpc]
        dsimp only
        rw [hget]
      have hfound := hcall.snoc (hlookup _ hfutex)
      set at' := called.set () s ((called.locals ()).goto (.waitLock u 1 none i)) with hat
      have hpc' : (at'.locals ()).pc = .waitLock u 1 none i := by
        rw [hat, Config.set_locals_self]
        rfl
      -- found or entered, the slot is there
      obtain ⟨slot, hslot⟩ : ∃ slot, s.slots i = some slot := by
        rcases futexSlotGet_cases c.shared u true with ⟨j, heq, hkey⟩ | ⟨j, heq, -⟩ | ⟨heq, -⟩ <;>
          rw [hget] at heq <;> cases heq
        · obtain ⟨slot, hslot, -⟩ := Option.map_eq_some_iff.1 hkey
          exact ⟨slot, hslot⟩
        · exact ⟨_, put_slots_self⟩
      -- the word holds 0 and not 1, so the wait returns at once
      have hlast : Step waits at' ((), .step (.waitReturns u 1 .eagain) none)
          (at'.set () s ((at'.locals ()).goto .idle)) := by
        refine .mk (x := waitsFor u) ?_
        show waitNext (waitsFor u) s (at'.locals ()) = _
        unfold waitNext futexNext
        rw [hpc']
        dsimp only
        rw [hslot]
        dsimp only
        unfold waitLockStep
        rw [if_neg (not_not.2 (hkept.2 i slot hslot)), if_pos]
        · rfl
        · rw [hkept.1]
          exact zero_ne_one
      refine ⟨_, _, hfound.snoc hlast, rfl, ?_, hkept.1, hkept.2⟩
      rw [Config.set_locals_self]
      rfl

/-- Some addresses, all different. -/
def address (k : Nat) : Word := BitVec.ofNat 64 (4 * k + 4)

theorem address_toNat {k : Nat} (hk : k ≤ futexSlots) : (address k).toNat = 4 * k + 4 := by
  unfold futexSlots at hk
  exact Nat.mod_eq_of_lt (by omega)

theorem address_ne_zero {k : Nat} (hk : k ≤ futexSlots) : address k ≠ 0 := by
  intro h
  have htoNat := address_toNat hk
  rw [h] at htoNat
  exact absurd htoNat (Nat.succ_ne_zero _).symm

/-- One thread waits on so many addresses, one after the other. -/
theorem alone_waits {n : Nat} (hn : n ≤ futexSlots) : ∃ trace d,
    Run (Step waits) aloneStart trace d ∧
    looked trace = (List.range n).map address ∧ Between d := by
  induction n with
  | zero => exact ⟨[], aloneStart, .refl _, rfl, rfl, fun _ => rfl, nofun⟩
  | succ n ih =>
      obtain ⟨trace, d, hrun, hlooked, hbetween⟩ := ih (by omega)
      obtain ⟨trace', d', hrun', hlooked', hbetween'⟩ := 
        hbetween.wait (address_ne_zero (Nat.le_of_succ_le hn))
      refine ⟨_, d', hrun.append hrun', ?_, hbetween'⟩
      unfold looked at hlooked hlooked' ⊢
      rw [List.filterMap_append, hlooked, hlooked', List.range_succ, List.map_append]
      rfl

/-- A thread that waits on three addresses finds slots for all of them. -/
theorem enomem_by_history_three : ∃ trace d, Run (Step waits) aloneStart trace d ∧
    looked trace = [address 0, address 1, address 2] ∧ ByHistory trace := by
  obtain ⟨trace, d, hrun, hlooked, -⟩ := alone_waits (n := 3) (by decide)
  exact ⟨trace, d, hrun, hlooked, enomem_by_history initial_aloneStart hrun⟩

/-- One thread has waited on `FUTEX_SLOTS` addresses, one after the other, and its next wait fails
with `ENOMEM`, with no other thread inside. -/
theorem enomem_alone : ∃ trace d e d' u, Initial aloneStart ∧ Run (Step waits) aloneStart trace d ∧
    Step waits d ((), e) d' ∧ e.Fails u ∧ (inside d).ncard < futexSlots := by
  obtain ⟨trace, d, hrun, hlooked, hbetween⟩ := alone_waits (Nat.le_refl futexSlots)
  have hcall := hbetween.call (address_ne_zero (Nat.le_refl futexSlots))
  set called := d.set () d.shared ((d.locals ()).goto (.waitSlot (address futexSlots) 1 none)) with
    hcalled
  have hpc : (called.locals ()).pc = .waitSlot (address futexSlots) 1 none := by
    rw [hcalled, Config.set_locals_self]
    rfl
  have hinjective : Set.InjOn address (Finset.range (futexSlots + 1)) := by
    intro j hj k hk heq
    have htoNat := congrArg BitVec.toNat heq
    rw [Finset.mem_coe, Finset.mem_range] at hj hk
    rw [address_toNat (by omega), address_toNat (by omega)] at htoNat
    omega
  have hnew : address futexSlots ∉ looked trace := by
    rw [hlooked, List.mem_map]
    rintro ⟨k, hk, heq⟩
    rw [List.mem_range] at hk
    have hsame := hinjective (Finset.mem_coe.2 (Finset.mem_range.2 (by omega)))
      (Finset.mem_coe.2 (Finset.mem_range.2 (by omega))) heq
    omega
  have hmany : futexSlots ≤ {w | w ∈ looked trace}.ncard := by
    have himage : {w | w ∈ looked trace} = address '' (Finset.range futexSlots : Set Nat) := by
      ext w
      rw [hlooked]
      simp
    rw [himage, (hinjective.mono (by simp)).ncard_image, Set.ncard_coe_finset, Finset.card_range]
  have hnone := (known_of_run initial_aloneStart hrun).none_of_full hnew hmany
  have hlast : Step waits called ((), .step (.waitReturns (address futexSlots) 1 .enomem)
      (some (address futexSlots))) (called.set () d.shared ((called.locals ()).goto .idle)) := by
    refine .mk (x := waitsFor (address futexSlots)) ?_
    show waitNext (waitsFor (address futexSlots)) d.shared (called.locals ()) = _
    unfold waitNext futexNext
    rw [hpc]
    dsimp only
    rw [hnone]
    rfl
  refine ⟨_, called, _, _, address futexSlots, initial_aloneStart, hrun.snoc hcall, hlast,
    ⟨1, rfl⟩, ?_⟩
  have hinside : inside called ⊆ {address futexSlots} := by
    rintro w ⟨⟨⟩, hw⟩
    rw [hpc] at hw
    cases hw
    exact Set.mem_singleton _
  refine (Set.ncard_le_ncard hinside).trans_lt ?_
  rw [Set.ncard_singleton]
  decide

end Asnx.Bionic.Futex
