import Asnx.Bionic.FutexQueues

/-!
# The table of futex slots

`futex_slot_get` works under the lock of the registry, so the calls of all threads come one after
the other, in some order. Whatever the order, an address has one slot and a slot one address
(`futex_table_right`).
-/

namespace Asnx.Bionic.Futex

open Probing

variable {T : Type*}

/-- A call of `futex_slot_get`, with the slot that it has returned. -/
structure Lookup where
  key : Word
  create : Bool
  result : Option Nat

/-- The table before the first call. -/
def noSlots (memory : Word → Int) : Futexes T := ⟨memory, fun _ => none⟩

/-- One more call. -/
def lookup (s : List Lookup × Futexes T) (call : Word × Bool) : List Lookup × Futexes T :=
  let (result, table) := futexSlotGet s.2 call.1 call.2
  (s.1 ++ [⟨call.1, call.2, result⟩], table)

/-- The calls one after the other. -/
def lookups (memory : Word → Int) (calls : List (Word × Bool)) : List Lookup × Futexes T :=
  calls.foldl lookup ([], noSlots memory)

theorem lookups_concat (memory : Word → Int) (calls : List (Word × Bool)) (call : Word × Bool) :
    lookups (T := T) memory (calls ++ [call]) = lookup (lookups memory calls) call := by
  unfold lookups
  rw [List.foldl_append]
  rfl

/-! ## Places -/

/-- The places of a key, as arithmetic. -/
theorem futexPlace_eq (key : Word) (k : Nat) :
    futexPlace key k = (futexSlotHash key + k) % futexSlots :=
  Nat.and_two_pow_sub_one_eq_mod (futexSlotHash key + k) 12

/-- Every slot is a place of every key. -/
theorem exists_place (key : Word) {i : Nat} (hi : i < futexSlots) :
    ∃ k < futexSlots, futexPlace key k = i := by
  refine ⟨(i + (futexSlots - futexSlotHash key % futexSlots)) % futexSlots,
    Nat.mod_lt _ (by decide), ?_⟩
  rw [futexPlace_eq]
  unfold futexSlots at hi ⊢
  omega

/-! ## One call -/

/-- The table after some calls: every key is found, each is where a call has got its slot, and a
call that created it was one of them. -/
structure Entered (log : List Lookup) (s : Futexes T) : Prop where
  findable : Findable s.keys futexPlace futexSlots
  entered : ∀ i key, s.keys i = some key ↔ ∃ c ∈ log, c.key = key ∧ c.result = some i
  created : ∀ c ∈ log, ∀ i, c.result = some i →
    ∃ c' ∈ log, c'.create = true ∧ c'.key = c.key ∧ c'.result = some i

variable {log : List Lookup} {s : Futexes T} {key : Word} {create : Bool} {i : Nat}

theorem entered_nil (memory : Word → Int) : Entered [] (noSlots memory : Futexes T) where
  findable := fun i key hkey => by cases hkey
  entered i key := by
    refine iff_of_false nofun ?_
    rintro ⟨c, hc, -⟩
    cases hc
  created c hc := by cases hc

/-- A call that returns a slot with its key adds nothing to the table. -/
theorem Entered.hit (h : Entered log s) (hkey : s.keys i = some key) :
    Entered (log ++ [⟨key, create, some i⟩]) s where
  findable := h.findable
  entered j k := by
    rw [h.entered]
    constructor
    · rintro ⟨c, hc, hck, hcj⟩
      exact ⟨c, List.mem_append_left _ hc, hck, hcj⟩
    · rintro ⟨c, hc, hck, hcj⟩
      rcases List.mem_append.1 hc with hc | hc
      · exact ⟨c, hc, hck, hcj⟩
      · rw [List.mem_singleton] at hc
        subst hc
        cases hck
        cases hcj
        exact (h.entered i key).1 hkey
  created c hc j hcj := by
    have hold : ∀ c ∈ log, c.result = some j → ∃ c' ∈ log ++ [⟨key, create, some i⟩],
        c'.create = true ∧ c'.key = c.key ∧ c'.result = some j := by
      intro c hc hcj
      obtain ⟨c', hc', hcreate, hsame, hj⟩ := h.created c hc j hcj
      exact ⟨c', List.mem_append_left _ hc', hcreate, hsame, hj⟩
    rcases List.mem_append.1 hc with hc | hc
    · exact hold c hc hcj
    · rw [List.mem_singleton] at hc
      subst hc
      cases hcj
      obtain ⟨c', hc', hsame, hj⟩ := (h.entered i key).1 hkey
      obtain ⟨c'', hc'', hcreate, hsame', hj'⟩ := hold c' hc' hj
      exact ⟨c'', hc'', hcreate, hsame'.trans hsame, hj'⟩

/-- A call that returns no slot changes nothing. -/
theorem Entered.miss (h : Entered log s) : Entered (log ++ [⟨key, create, none⟩]) s where
  findable := h.findable
  entered j k := by
    rw [h.entered]
    constructor
    · rintro ⟨c, hc, hcj⟩
      exact ⟨c, List.mem_append_left _ hc, hcj⟩
    · rintro ⟨c, hc, hck, hcj⟩
      rcases List.mem_append.1 hc with hc | hc
      · exact ⟨c, hc, hck, hcj⟩
      · rw [List.mem_singleton] at hc
        subst hc
        cases hcj
  created c hc j hcj := by
    rcases List.mem_append.1 hc with hc | hc
    · obtain ⟨c', hc', hcreated⟩ := h.created c hc j hcj
      exact ⟨c', List.mem_append_left _ hc', hcreated⟩
    · rw [List.mem_singleton] at hc
      subst hc
      cases hcj

/-- A call that enters a slot. -/
theorem Entered.enter (h : Entered log s)
    (hfree : probe s.keys key (futexPlace key) futexSlots 0 = .free i) :
    Entered (log ++ [⟨key, true, some i⟩]) (s.put i (.fresh key)) where
  findable := by
    rw [keys_put_eq]
    exact h.findable.enter hfree
  entered j k := by
    rw [keys_put_eq]
    by_cases hj : j = i
    · subst hj
      rw [Function.update_self]
      constructor
      · rintro ⟨⟩
        exact ⟨_, List.mem_append_right _ List.mem_cons_self, rfl, rfl⟩
      · rintro ⟨c, hc, rfl, hcj⟩
        rcases List.mem_append.1 hc with hc | hc
        · -- the place was free
          have hkey := (h.entered j c.key).2 ⟨c, hc, rfl, hcj⟩
          rw [probe_free hfree] at hkey
          cases hkey
        · rw [List.mem_singleton] at hc
          subst hc
          rfl
    · rw [Function.update_of_ne hj, h.entered]
      constructor
      · rintro ⟨c, hc, hcj⟩
        exact ⟨c, List.mem_append_left _ hc, hcj⟩
      · rintro ⟨c, hc, hck, hcj⟩
        rcases List.mem_append.1 hc with hc | hc
        · exact ⟨c, hc, hck, hcj⟩
        · rw [List.mem_singleton] at hc
          subst hc
          cases hcj
          exact absurd rfl hj
  created c hc j hcj := by
    rcases List.mem_append.1 hc with hc | hc
    · obtain ⟨c', hc', hcreated⟩ := h.created c hc j hcj
      exact ⟨c', List.mem_append_left _ hc', hcreated⟩
    · rw [List.mem_singleton] at hc
      subst hc
      exact ⟨_, List.mem_append_right _ List.mem_cons_self, rfl, rfl, hcj⟩

/-- Every call keeps the table in order. -/
theorem Entered.lookup (h : Entered log s) (call : Word × Bool) :
    Entered (lookup (log, s) call).1 (lookup (log, s) call).2 := by
  obtain ⟨key, create⟩ := call
  unfold Futex.lookup futexSlotGet
  dsimp only
  cases hprobe : probe s.keys key (futexPlace key) futexSlots 0 with
  | hit i => exact h.hit (probe_hit hprobe)
  | full => exact h.miss
  | free i =>
      cases create with
      | true => exact h.enter hprobe
      | false => exact h.miss

/-- The table is in order after any calls, by induction on the calls. -/
theorem entered_lookups (memory : Word → Int) (calls : List (Word × Bool)) :
    Entered (lookups (T := T) memory calls).1 (lookups (T := T) memory calls).2 := by
  induction calls using List.reverseRecOn with
  | nil => exact entered_nil memory
  | append_singleton calls call ih =>
      rw [lookups_concat]
      exact ih.lookup call

/-! ## All calls -/

/-- What the calls of `futex_slot_get` come to: the slots that they have returned, and what the next
call returns. -/
structure RightTable (log : List Lookup) (s : Futexes T) : Prop where
  one_slot : ∀ c ∈ log, ∀ c' ∈ log, ∀ i i', c.result = some i → c'.result = some i' →
    (c.key = c'.key ↔ i = i')
  finds : ∀ key, (∃ i, (futexSlotGet s key false).1 = some i) ↔
    ∃ c ∈ log, c.create = true ∧ c.key = key ∧ ∃ i, c.result = some i
  full : ∀ key, (futexSlotGet s key true).1 = none →
    ∀ i < futexSlots, ∃ other, other ≠ key ∧ s.keys i = some other

/-- A call without `create` returns a slot exactly when the table has the key. -/
theorem Findable.slot_iff (h : Findable s.keys futexPlace futexSlots) (key : Word) :
    (∃ i, (futexSlotGet s key false).1 = some i) ↔ ∃ i, s.keys i = some key := by
  unfold futexSlotGet
  constructor
  · rintro ⟨i, hi⟩
    cases hprobe : probe s.keys key (futexPlace key) futexSlots 0 with
    | hit j => exact ⟨j, probe_hit hprobe⟩
    | free j => rw [hprobe] at hi; cases hi
    | full => rw [hprobe] at hi; cases hi
  · rintro ⟨i, hi⟩
    rw [h i key hi]
    exact ⟨i, rfl⟩

/-- A call with `create` that returns no slot has found other keys everywhere. -/
theorem full_of_create (hnone : (futexSlotGet s key true).1 = none) (hi : i < futexSlots) :
    ∃ other, other ≠ key ∧ s.keys i = some other := by
  unfold futexSlotGet at hnone
  cases hprobe : probe s.keys key (futexPlace key) futexSlots 0 with
  | hit j => rw [hprobe] at hnone; cases hnone
  | free j => rw [hprobe] at hnone; cases hnone
  | full =>
      obtain ⟨k, hk, rfl⟩ := exists_place key hi
      obtain ⟨other, hne, hother⟩ := probe_full hprobe hk
      rw [Nat.zero_add] at hother
      exact ⟨other, hne, hother⟩

/-- After any calls of `futex_slot_get`, with any addresses and flags, in any order: an address has
one slot and a slot one address, a call without `create` returns a slot exactly when one with
`create` has done so before, and a call with `create` fails only when all slots hold other
addresses. -/
theorem futex_table_right (memory : Word → Int) (calls : List (Word × Bool)) :
    RightTable (lookups (T := T) memory calls).1 (lookups (T := T) memory calls).2 := by
  have h := entered_lookups (T := T) memory calls
  refine ⟨fun c hc c' hc' i i' hi hi' => ?_, fun key => ?_, fun key hnone i hi =>
    full_of_create hnone hi⟩
  · have hkey := (h.entered i c.key).2 ⟨c, hc, rfl, hi⟩
    have hkey' := (h.entered i' c'.key).2 ⟨c', hc', rfl, hi'⟩
    constructor
    · intro heq
      rw [← heq] at hkey'
      exact h.findable.unique hkey hkey'
    · rintro rfl
      exact Option.some.inj (hkey.symm.trans hkey')
  · rw [Findable.slot_iff h.findable]
    constructor
    · rintro ⟨i, hi⟩
      obtain ⟨c, hc, rfl, hci⟩ := (h.entered i key).1 hi
      obtain ⟨c', hc', hcreate, hsame, hi'⟩ := h.created c hc i hci
      exact ⟨c', hc', hcreate, hsame, i, hi'⟩
    · rintro ⟨c, hc, -, rfl, i, hi⟩
      exact ⟨i, (h.entered i c.key).2 ⟨c, hc, rfl, hi⟩⟩

end Asnx.Bionic.Futex
