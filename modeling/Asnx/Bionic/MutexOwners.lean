import Asnx.Bionic.Mutexes

/-!
# Who owns a mutex

`Pc.Ok` says what a thread has of a mutex at each place of the code, where `h` is the number of
times that it has locked the mutex and not unlocked it. `Moved` says what one step of a thread may
do, place by place, and `Inv.run` that every thread has what its place says after every run.
-/

namespace Asnx.Bionic.Sync

open Threads

variable {T K C : Type*} [DecidableEq K]

/-! ## What a thread has of a mutex -/

/-- The thread holds the `Mutex` of the slot, with the given owner and depth. -/
def Slots.Has (s : Slots T K C) (t : T) (k : K) (owner depth : Nat) : Prop :=
  ∃ slot, s.mutex k = some slot ∧ slot.m = some t ∧ slot.owner = owner ∧ slot.depth = depth

/-- The thread does not hold the `Mutex`, and is not the owner. -/
def Slots.Lacks (tid : T → Nat) (s : Slots T K C) (t : T) (k : K) : Prop :=
  ∀ slot ∈ s.mutex k, slot.m ≠ some t ∧ slot.owner ≠ tid t

/-- The type of the mutex has been detected. -/
def Slots.Typed (kind : K → MutexKind) (s : Slots T K C) (k : K) : Prop :=
  ∃ slot, s.mutex k = some slot ∧ slot.type = some (kind k)

/-- The thread owns the mutex with depth `h`, if `h` is not 0. -/
def Steady (tid : T → Nat) (s : Slots T K C) (t : T) (k : K) (h : Nat) : Prop :=
  h = 0 ∧ s.Lacks tid t k ∨ 0 < h ∧ s.Has t k (tid t) h

/-- A wait knows how deep the thread owns the mutex. -/
def Op.Entered (h : Nat) : Op C → Prop
  | .wait _ _ n => n = h
  | _ => True

/-- What a thread has of the mutex that it is busy with. -/
def Pc.Ok (tid : T → Nat) (kind : K → MutexKind) (s : Slots T K C) (t : T) (k : K) (h : Nat) :
    Pc K C → Prop
  | .idle => Steady tid s t k h
  | .slot op _ | .known op _ | .setType op _ | .owner op _ => Steady tid s t k h ∧ op.Entered h
  | .setKnown op _ | .type op _ => Steady tid s t k h ∧ op.Entered h ∧ s.Typed kind k
  | .again _ => 0 < h ∧ s.Has t k (tid t) h
  | .bump _ d => d = h ∧ 0 < h ∧ h < uint32Max ∧ s.Has t k (tid t) h
  | .try op _ => h = 0 ∧ s.Lacks tid t k ∧ op.Entered 0
  | .block _ => h = 0 ∧ s.Lacks tid t k
  | .setDepth _ => h = 0 ∧ ∃ d, s.Has t k 0 d
  | .setOwner _ => h = 0 ∧ s.Has t k 0 1
  | .normalTry _ _ | .normalBlock _ | .unlockNormal _ | .normalSleep _ _ | .normalWake _ _ => False
  | .unlockSlot _ => Steady tid s t k h
  | .unlockType _ | .unlockOwner _ => Steady tid s t k h ∧ ∃ slot, s.mutex k = some slot
  | .unlockDepth _ => 0 < h ∧ s.Has t k (tid t) h
  | .unlockLower _ d => d = h ∧ 1 < h ∧ s.Has t k (tid t) h
  | .unlockZero _ => h = 1 ∧ s.Has t k (tid t) 1
  | .unlockClear _ => h = 1 ∧ s.Has t k (tid t) 0
  | .unlockRelease _ => h = 1 ∧ s.Has t k 0 0
  | .waitDepth _ _ n => n = h ∧ 0 < h ∧ s.Has t k (tid t) h
  | .waitZero _ n => n = h ∧ h = 1 ∧ s.Has t k (tid t) 1
  | .waitClear _ n => n = h ∧ h = 1 ∧ s.Has t k (tid t) 0
  | .waitSleep _ n => n = h ∧ h = 1 ∧ s.Has t k 0 0
  | .waitWake _ n => n = h ∧ h = 1 ∧ s.Lacks tid t k
  | .waitSetDepth _ n => n = h ∧ h = 1 ∧ ∃ d, s.Has t k 0 d
  | .waitSetOwner _ n => n = h ∧ h = 1 ∧ s.Has t k 0 1
  | .waitLower _ _ n d => n = h ∧ d = h ∧ 1 < h ∧ s.Has t k (tid t) h
  | .condLock _ _ n | .condSleep _ _ n | .condWake _ _ n | .condUnlock _ _ n | .waitRead _ n =>
      n = h ∧ 1 < h ∧ s.Has t k (tid t) (h - 1)
  | .waitRaise _ n d => n = h ∧ d + 1 = h ∧ 1 < h ∧ s.Has t k (tid t) (h - 1)

/-- The type in a slot is the one in the memory of the mutex, if there is one, and a mutex that
nobody holds has no owner. -/
structure MutexSlot.Ok (kind : MutexKind) (slot : MutexSlot T) : Prop where
  known : slot.known = true → slot.type = some kind
  type : ∀ type ∈ slot.type, type = kind
  owner : slot.m = none → slot.owner = 0

/-! ## What a step does to a slot -/

/-- What a step of thread `t` may do to the slot of the mutex `k`: make it, set its type, or, while
nobody else holds the `Mutex`, set who holds it, the owner and the depth. -/
inductive Change (tid : T → Nat) (kind : K → MutexKind) (t : T) (k : K) (s : Slots T K C) :
    Slots T K C → Prop where
  | stay (s') : s'.mutex = s.mutex → Change tid kind t k s s'
  | create : s.mutex k = none → Change tid kind t k s (s.put k .fresh)
  | detect (slot type known) : s.mutex k = some slot →
      type = slot.type ∨ type = some (kind k) →
      Change tid kind t k s (s.put k { slot with type := type, known := known })
  | mine (slot m owner depth) : s.mutex k = some slot → slot.m = none ∨ slot.m = some t →
      m = none ∨ m = some t → owner = slot.owner ∨ owner = 0 ∨ owner = tid t →
      Change tid kind t k s (s.put k { slot with m := m, owner := owner, depth := depth })

section Change

variable {tid : T → Nat} {kind : K → MutexKind} {s s' : Slots T K C} {t u : T} {k k' : K}

@[simp] theorem Slots.put_mutex_self (slot : MutexSlot T) : (s.put k slot).mutex k = some slot :=
  Function.update_self ..

theorem Slots.put_mutex_other (h : k' ≠ k) (slot : MutexSlot T) :
    (s.put k slot).mutex k' = s.mutex k' := Function.update_of_ne h ..

/-- The other mutexes stay as they are. -/
theorem Change.other (h : Change tid kind t k s s') (hk : k' ≠ k) : s'.mutex k' = s.mutex k' := by
  cases h with
  | stay s' hs => rw [hs]
  | create => exact s.put_mutex_other hk _
  | detect => exact s.put_mutex_other hk _
  | mine => exact s.put_mutex_other hk _

/-- Another thread keeps what it has. -/
theorem Change.has (h : Change tid kind t k s s') (hu : u ≠ t) {owner depth : Nat}
    (hhas : s.Has u k owner depth) : s'.Has u k owner depth := by
  obtain ⟨slot, hslot, hm, howner, hdepth⟩ := hhas
  cases h with
  | stay s' hs => exact ⟨slot, by rw [hs, hslot], hm, howner, hdepth⟩
  | create hnone =>
      rw [hnone] at hslot
      cases hslot
  | detect slot' type known hslot' _ =>
      obtain rfl : slot' = slot := Option.some.inj (hslot'.symm.trans hslot)
      exact ⟨_, s.put_mutex_self _, hm, howner, hdepth⟩
  | mine slot' m owner' depth' hslot' hfree =>
      obtain rfl : slot' = slot := Option.some.inj (hslot'.symm.trans hslot)
      rw [hm] at hfree
      rcases hfree with hfree | hfree
      · cases hfree
      · exact absurd (Option.some.inj hfree) hu

/-- Another thread does not become an owner. -/
theorem Change.lacks (h : Change tid kind t k s s') (hu : u ≠ t) (hinj : Function.Injective tid)
    (hzero : tid u ≠ 0) (hlacks : s.Lacks tid u k) : s'.Lacks tid u k := by
  intro slot hslot
  cases h with
  | stay s' hs =>
      rw [hs] at hslot
      exact hlacks slot hslot
  | create =>
      rw [Slots.put_mutex_self] at hslot
      cases hslot
      exact ⟨nofun, hzero.symm⟩
  | detect slot' type known hslot' _ =>
      rw [Slots.put_mutex_self] at hslot
      cases hslot
      exact hlacks slot' hslot'
  | mine slot' m owner depth hslot' hfree hm howner =>
      rw [Slots.put_mutex_self] at hslot
      cases hslot
      refine ⟨?_, ?_⟩
      · show m ≠ some u
        rcases hm with rfl | rfl
        · exact nofun
        · exact fun h => hu (Option.some.inj h).symm
      · show owner ≠ tid u
        rcases howner with rfl | rfl | rfl
        · exact (hlacks slot' hslot').2
        · exact hzero.symm
        · exact fun h => hu (hinj h).symm

theorem Change.steady (h : Change tid kind t k s s') (hu : u ≠ t) (hinj : Function.Injective tid)
    (hzero : tid u ≠ 0) {n : Nat} (hsteady : Steady tid s u k n) : Steady tid s' u k n :=
  hsteady.imp (fun hn => ⟨hn.1, h.lacks hu hinj hzero hn.2⟩) fun hn => ⟨hn.1, h.has hu hn.2⟩

/-- A type that has been detected stays. -/
theorem Change.typed (h : Change tid kind t k s s') (htyped : s.Typed kind k) :
    s'.Typed kind k := by
  obtain ⟨slot, hslot, htype⟩ := htyped
  cases h with
  | stay s' hs => exact ⟨slot, by rw [hs, hslot], htype⟩
  | create hnone =>
      rw [hnone] at hslot
      cases hslot
  | detect slot' type known hslot' hnew =>
      obtain rfl : slot' = slot := Option.some.inj (hslot'.symm.trans hslot)
      exact ⟨_, s.put_mutex_self _, hnew.elim (fun h => h.trans htype) id⟩
  | mine slot' m owner depth hslot' =>
      obtain rfl : slot' = slot := Option.some.inj (hslot'.symm.trans hslot)
      exact ⟨_, s.put_mutex_self _, htype⟩

/-- A slot stays. -/
theorem Change.found (h : Change tid kind t k s s') (hslot : ∃ slot, s.mutex k = some slot) :
    ∃ slot, s'.mutex k = some slot := by
  cases h with
  | stay s' hs => rwa [hs]
  | create => exact ⟨_, s.put_mutex_self _⟩
  | detect => exact ⟨_, s.put_mutex_self _⟩
  | mine => exact ⟨_, s.put_mutex_self _⟩

/-- A thread keeps what it has while another one takes a step. -/
theorem Change.ok (h : Change tid kind t k s s') (hu : u ≠ t) (hinj : Function.Injective tid)
    (hzero : tid u ≠ 0) {n : Nat} {pc : Pc K C} (hok : pc.Ok tid kind s u k n) :
    pc.Ok tid kind s' u k n := by
  have hhas {owner depth : Nat} : s.Has u k owner depth → s'.Has u k owner depth := h.has hu
  have hlacks := h.lacks hu hinj hzero
  have hsteady := h.steady hu hinj hzero (n := n)
  have htyped := h.typed
  cases pc with
  | idle => exact hsteady hok
  | slot | known | setType | owner => exact ⟨hsteady hok.1, hok.2⟩
  | setKnown | type => exact ⟨hsteady hok.1, hok.2.1, htyped hok.2.2⟩
  | again | unlockDepth => exact ⟨hok.1, hhas hok.2⟩
  | bump => exact ⟨hok.1, hok.2.1, hok.2.2.1, hhas hok.2.2.2⟩
  | «try» => exact ⟨hok.1, hlacks hok.2.1, hok.2.2⟩
  | block => exact ⟨hok.1, hlacks hok.2⟩
  | setDepth => exact ⟨hok.1, hok.2.imp fun _ => hhas⟩
  | setOwner | unlockZero | unlockClear | unlockRelease => exact ⟨hok.1, hhas hok.2⟩
  | normalTry | normalBlock | unlockNormal | normalSleep | normalWake => exact hok
  | unlockSlot => exact hsteady hok
  | unlockType | unlockOwner => exact ⟨hsteady hok.1, h.found hok.2⟩
  | unlockLower | waitDepth | waitZero | waitClear | waitSleep | waitSetOwner | condLock | condSleep
  | condWake | condUnlock | waitRead => exact ⟨hok.1, hok.2.1, hhas hok.2.2⟩
  | waitWake => exact ⟨hok.1, hok.2.1, hlacks hok.2.2⟩
  | waitSetDepth => exact ⟨hok.1, hok.2.1, hok.2.2.imp fun _ => hhas⟩
  | waitLower | waitRaise => exact ⟨hok.1, hok.2.1, hok.2.2.1, hhas hok.2.2.2⟩

end Change

/-! ## What one thread does -/

/-- How often a thread has the mutex before and after a step. -/
def Event.Counts (k : K) (h h' : Nat) : Event K → Prop
  | .inner => h' = h
  | .lockReturns k' r => k' = k ∧ h' = if r = .ok then h + 1 else h
  | .unlockReturns k' r => k' = k ∧ h = if r = .ok then h' + 1 else h'
  | .waitReturns k' n _ => k' = k ∧ n = h ∧ h' = h
  | .untyped _ => False

/-- A step of a thread that is busy with the mutex `k` and has it `h` times. -/
structure Moved (tid : T → Nat) (kind : K → MutexKind) (t : T) (k : K) (h : Nat) (s : Slots T K C)
    (e : Event K) (s' : Slots T K C) (pc' : Pc K C) : Prop where
  change : Change tid kind t k s s'
  slot : ∀ slot ∈ s'.mutex k, slot.Ok (kind k)
  place : pc' = .idle ∨ e = .inner ∧ pc'.key = some k
  after : ∃ h' ≤ uint32Max, pc'.Ok tid kind s' t k h' ∧ e.Counts k h h'

section Moved

variable {tid : T → Nat} {kind : K → MutexKind} {s s' : Slots T K C} {t : T} {k : K} {h h' : Nat}
  {slot : MutexSlot T} {pc pc' : Pc K C} {e : Event K}

omit [DecidableEq K] in
theorem Slots.has_iff (hslot : s.mutex k = some slot) {owner depth : Nat} :
    s.Has t k owner depth ↔ slot.m = some t ∧ slot.owner = owner ∧ slot.depth = depth := by
  simp [Has, hslot]

omit [DecidableEq K] in
theorem Slots.lacks_iff (hslot : s.mutex k = some slot) :
    s.Lacks tid t k ↔ slot.m ≠ some t ∧ slot.owner ≠ tid t := by
  simp [Lacks, hslot]

omit [DecidableEq K] in
theorem Slots.typed_iff (hslot : s.mutex k = some slot) :
    s.Typed kind k ↔ slot.type = some (kind k) := by
  simp [Typed, hslot]

omit [DecidableEq K] in
/-- The owner of a mutex has it. -/
theorem Steady.of_owner (hsteady : Steady tid s t k h) (hslot : s.mutex k = some slot)
    (howner : slot.owner = tid t) : 0 < h ∧ s.Has t k (tid t) h :=
  hsteady.resolve_left fun hlacks => ((Slots.lacks_iff hslot).1 hlacks.2).2 howner

omit [DecidableEq K] in
/-- Who is not the owner of a mutex does not have it. -/
theorem Steady.of_not_owner (hsteady : Steady tid s t k h) (hslot : s.mutex k = some slot)
    (howner : slot.owner ≠ tid t) : h = 0 ∧ s.Lacks tid t k :=
  hsteady.resolve_right fun hhas => howner ((Slots.has_iff hslot).1 hhas.2).2.1

omit [DecidableEq K] in
/-- What a thread has in a steady state is the depth. -/
theorem Steady.owned (hsteady : Steady tid s t k h) : s.owned (tid t) k = h := by
  unfold Slots.owned
  rcases hsteady with ⟨rfl, hlacks⟩ | ⟨-, slot, hslot, -, howner, hdepth⟩
  · cases hslot : s.mutex k with
    | none => rfl
    | some slot => exact if_neg (hlacks slot hslot).2
  · rw [hslot]
    exact (if_pos howner).trans hdepth

/-- A step that leaves the slots alone. -/
theorem Moved.keep (hs : s'.mutex = s.mutex) (hslot : ∀ slot ∈ s.mutex k, slot.Ok (kind k))
    (hplace : pc' = .idle ∨ e = .inner ∧ pc'.key = some k) (hle : h ≤ uint32Max)
    (hok : pc'.Ok tid kind s' t k h)
    (hcounts : e.Counts k h h) : Moved tid kind t k h s e s' pc' :=
  ⟨.stay s' hs, by rwa [hs], hplace, h, hle, hok, hcounts⟩

/-- A step of the thread that holds the `Mutex`, or finds it free. -/
theorem Moved.set (hslot : s.mutex k = some slot) (hok : slot.Ok (kind k))
    (hfree : slot.m = none ∨ slot.m = some t) {m : Option T} {owner depth : Nat}
    (hm : m = none ∧ owner = 0 ∨ m = some t)
    (howner : owner = slot.owner ∨ owner = 0 ∨ owner = tid t)
    (hplace : pc' = .idle ∨ e = .inner ∧ pc'.key = some k) (hle : h' ≤ uint32Max)
    (hafter : pc'.Ok tid kind (s.put k { slot with m := m, owner := owner, depth := depth }) t k h')
    (hcounts : e.Counts k h h') :
    Moved tid kind t k h s e (s.put k { slot with m := m, owner := owner, depth := depth })
      pc' := by
  refine ⟨.mine slot m owner depth hslot hfree (hm.imp_left And.left) howner, ?_, hplace,
    h', hle, hafter, hcounts⟩
  intro slot' hslot'
  rw [Slots.put_mutex_self] at hslot'
  cases hslot'
  refine ⟨hok.known, hok.type, fun hnone => ?_⟩
  rcases hm with ⟨-, howner⟩ | hm
  · exact howner
  · exact absurd (hm.symm.trans hnone) nofun

/-- What a thread has does not depend on the type in the slot. -/
theorem Steady.detect (hsteady : Steady tid s t k h) (hslot : s.mutex k = some slot)
    {type : Option MutexKind} {known : Bool} :
    Steady tid (s.put k { slot with type := type, known := known }) t k h := by
  rcases hsteady with ⟨hzero, hlacks⟩ | ⟨hpos, hhas⟩
  · exact .inl ⟨hzero, (Slots.lacks_iff (Slots.put_mutex_self _)).2
      ((Slots.lacks_iff hslot).1 hlacks)⟩
  · exact .inr ⟨hpos, (Slots.has_iff (Slots.put_mutex_self _)).2 ((Slots.has_iff hslot).1 hhas)⟩

/-- A step that writes the type of a mutex. -/
theorem Moved.detect (hslot : s.mutex k = some slot) (hok : slot.Ok (kind k))
    {type : Option MutexKind} {known : Bool} (htype : type = slot.type ∨ type = some (kind k))
    (hknown : known = true → type = some (kind k)) (hplace : pc'.key = some k)
    (hle : h ≤ uint32Max)
    (hafter : pc'.Ok tid kind (s.put k { slot with type := type, known := known }) t k h) :
    Moved tid kind t k h s .inner (s.put k { slot with type := type, known := known }) pc' := by
  refine ⟨.detect slot type known hslot htype, ?_, .inr ⟨rfl, hplace⟩, h, hle, hafter, rfl⟩
  intro slot' hslot'
  rw [Slots.put_mutex_self] at hslot'
  cases hslot'
  refine ⟨hknown, fun type' htype' => ?_, hok.owner⟩
  have htype' : type = some type' := htype'
  rcases htype with rfl | rfl
  · exact hok.type type' htype'
  · exact (Option.some.inj htype').symm

/-- What may be relied on when a thread looks at the slot of its mutex. -/
structure Looking (tid : T → Nat) (kind : K → MutexKind) (s : Slots T K C)
    (l : Thread T K C) (k : K)
    (h : Nat) (slot : MutexSlot T) (pc : Pc K C) : Prop where
  found : s.mutex k = some slot
  slot : slot.Ok (kind k)
  le : h ≤ uint32Max
  ok : pc.Ok tid kind s l.self k h

omit [DecidableEq K] in
theorem Looking.slots {l : Thread T K C} (look : Looking tid kind s l k h slot pc) :
    ∀ slot ∈ s.mutex k, slot.Ok (kind k) := by
  intro slot' hslot'
  rw [look.found] at hslot'
  cases hslot'
  exact look.slot

variable {x : Choice K C} {l l' : Thread T K C} {op : Op C}

/-- The type is detected. -/
theorem known_moved (look : Looking tid kind s l k h slot (.known op k))
    (hnext : slotNext tid kind x s l slot (.known op k) = some (e, s', l')) :
    l'.self = l.self ∧ Moved tid kind l.self k h s e s' l'.pc := by
  cases hnext
  refine ⟨rfl, .keep rfl look.slots (.inr ⟨rfl, ?_⟩) look.le ?_ rfl⟩
  · show Pc.key (if slot.known then _ else _) = _
    split <;> rfl
  · show Pc.Ok tid kind s l.self k h (if slot.known then _ else _)
    split
    · rename_i hknown
      exact ⟨look.ok.1, look.ok.2, slot, look.found, look.slot.known hknown⟩
    · exact look.ok

theorem set_type_moved (look : Looking tid kind s l k h slot (.setType op k))
    (hnext : slotNext tid kind x s l slot (.setType op k) = some (e, s', l')) :
    l'.self = l.self ∧ Moved tid kind l.self k h s e s' l'.pc := by
  cases hnext
  exact ⟨rfl, .detect look.found look.slot (.inr rfl) (fun _ => rfl) rfl look.le
    ⟨look.ok.1.detect look.found, look.ok.2, _, Slots.put_mutex_self _, rfl⟩⟩

theorem set_known_moved (look : Looking tid kind s l k h slot (.setKnown op k))
    (hnext : slotNext tid kind x s l slot (.setKnown op k) = some (e, s', l')) :
    l'.self = l.self ∧ Moved tid kind l.self k h s e s' l'.pc := by
  cases hnext
  have htype := (Slots.typed_iff look.found).1 look.ok.2.2
  exact ⟨rfl, .detect look.found look.slot (.inl rfl) (fun _ => htype) rfl look.le
    ⟨look.ok.1.detect look.found, look.ok.2.1, _, Slots.put_mutex_self _, htype⟩⟩

/-- The type of the mutex is read; it has been detected. -/
theorem type_moved (look : Looking tid kind s l k h slot (.type op k))
    (hnext : slotNext tid kind x s l slot (.type op k) = some (e, s', l')) :
    l'.self = l.self ∧ Moved tid kind l.self k h s e s' l'.pc := by
  have htype := (Slots.typed_iff look.found).1 look.ok.2.2
  unfold slotNext typeStep at hnext
  simp only [htype] at hnext
  split at hnext
  · cases hnext
    exact ⟨rfl, .keep rfl look.slots (.inl rfl) look.le look.ok.1 ⟨rfl, look.ok.2.1, rfl⟩⟩
  · cases hnext
    exact ⟨rfl, .keep rfl look.slots (.inr ⟨rfl, rfl⟩) look.le ⟨look.ok.1, look.ok.2.1⟩ rfl⟩

/-- The owner is read. -/
theorem owner_moved (look : Looking tid kind s l k h slot (.owner op k))
    (hnext : slotNext tid kind x s l slot (.owner op k) = some (e, s', l')) :
    l'.self = l.self ∧ Moved tid kind l.self k h s e s' l'.pc := by
  obtain ⟨hsteady, hentered⟩ := look.ok
  cases op with
  | wait c timed n =>
      unfold slotNext ownerStep at hnext
      dsimp only at hnext
      split at hnext
      · rename_i howner
        cases hnext
        exact ⟨rfl, .keep rfl look.slots (.inr ⟨rfl, rfl⟩) look.le
          ⟨hentered, hsteady.of_owner look.found howner⟩ rfl⟩
      · cases hnext
        exact ⟨rfl, .keep rfl look.slots (.inl rfl) look.le hsteady ⟨rfl, hentered, rfl⟩⟩
  | lock | trylock =>
      unfold slotNext ownerStep at hnext
      dsimp only at hnext
      split at hnext
      · rename_i howner
        cases hnext
        exact ⟨rfl, .keep rfl look.slots (.inr ⟨rfl, rfl⟩) look.le
          (hsteady.of_owner look.found howner) rfl⟩
      · rename_i howner
        cases hnext
        obtain ⟨hzero, hlacks⟩ := hsteady.of_not_owner look.found howner
        exact ⟨rfl, .keep rfl look.slots (.inr ⟨rfl, rfl⟩) look.le ⟨hzero, hlacks, trivial⟩ rfl⟩

/-- The owner locks a mutex again. -/
theorem again_moved (look : Looking tid kind s l k h slot (.again k))
    (hnext : slotNext tid kind x s l slot (.again k) = some (e, s', l')) :
    l'.self = l.self ∧ Moved tid kind l.self k h s e s' l'.pc := by
  obtain ⟨hpos, hhas⟩ := look.ok
  obtain ⟨hm, howner, hdepth⟩ := (Slots.has_iff look.found).1 hhas
  unfold slotNext at hnext
  dsimp only at hnext
  split at hnext
  · cases hnext
    exact ⟨rfl, .keep rfl look.slots (.inl rfl) look.le (.inr ⟨hpos, hhas⟩) ⟨rfl, rfl⟩⟩
  · split at hnext
    · cases hnext
      exact ⟨rfl, .keep rfl look.slots (.inl rfl) look.le (.inr ⟨hpos, hhas⟩) ⟨rfl, rfl⟩⟩
    · rename_i hmax
      cases hnext
      have hlt : h < uint32Max := Nat.lt_of_le_of_ne look.le (hdepth ▸ hmax)
      exact ⟨rfl, .keep rfl look.slots (.inr ⟨rfl, rfl⟩) look.le ⟨hdepth, hpos, hlt, hhas⟩ rfl⟩

theorem bump_moved {d : Nat} (look : Looking tid kind s l k h slot (.bump k d))
    (hnext : slotNext tid kind x s l slot (.bump k d) = some (e, s', l')) :
    l'.self = l.self ∧ Moved tid kind l.self k h s e s' l'.pc := by
  obtain ⟨rfl, hpos, hlt, hhas⟩ := look.ok
  obtain ⟨hm, howner, hdepth⟩ := (Slots.has_iff look.found).1 hhas
  cases hnext
  exact ⟨rfl, .set look.found look.slot (.inr hm) (.inr hm) (.inl rfl) (.inl rfl) hlt
    (.inr ⟨by omega, _, Slots.put_mutex_self _, hm, howner, rfl⟩) ⟨rfl, rfl⟩⟩

/-- A thread that takes the `Mutex` finds no owner. -/
theorem Looking.taken {pc : Pc K C} (look : Looking tid kind s l k h slot pc)
    (hfree : slot.m = none) :
    ∃ d, (s.put k { slot with m := some l.self }).Has l.self k 0 d :=
  ⟨slot.depth, _, Slots.put_mutex_self _, rfl, look.slot.owner hfree, rfl⟩

theorem try_moved (look : Looking tid kind s l k h slot (.try op k))
    (hnext : slotNext tid kind x s l slot (.try op k) = some (e, s', l')) :
    l'.self = l.self ∧ Moved tid kind l.self k h s e s' l'.pc := by
  obtain ⟨hzero, hlacks, -⟩ := look.ok
  unfold slotNext tryStep at hnext
  dsimp only at hnext
  split at hnext
  · rename_i hfree
    cases hnext
    exact ⟨rfl, .set look.found look.slot (.inl hfree) (.inr rfl) (.inl rfl)
      (.inr ⟨rfl, rfl⟩) look.le
      ⟨hzero, look.taken hfree⟩ rfl⟩
  · split at hnext
    · cases hnext
      exact ⟨rfl, .keep rfl look.slots (.inl rfl) look.le (.inl ⟨hzero, hlacks⟩) ⟨rfl, rfl⟩⟩
    · cases hnext
      exact ⟨rfl, .keep rfl look.slots (.inr ⟨rfl, rfl⟩) look.le ⟨hzero, hlacks⟩ rfl⟩

theorem block_moved (look : Looking tid kind s l k h slot (.block k))
    (hnext : slotNext tid kind x s l slot (.block k) = some (e, s', l')) :
    l'.self = l.self ∧ Moved tid kind l.self k h s e s' l'.pc := by
  unfold slotNext at hnext
  dsimp only at hnext
  split at hnext
  · rename_i hfree
    cases hnext
    exact ⟨rfl, .set look.found look.slot (.inl hfree) (.inr rfl) (.inl rfl)
      (.inr ⟨rfl, rfl⟩) look.le
      ⟨look.ok.1, look.taken hfree⟩ rfl⟩
  · cases hnext

theorem set_depth_moved (look : Looking tid kind s l k h slot (.setDepth k))
    (hnext : slotNext tid kind x s l slot (.setDepth k) = some (e, s', l')) :
    l'.self = l.self ∧ Moved tid kind l.self k h s e s' l'.pc := by
  obtain ⟨hzero, d, hhas⟩ := look.ok
  obtain ⟨hm, howner, -⟩ := (Slots.has_iff look.found).1 hhas
  cases hnext
  exact ⟨rfl, .set look.found look.slot (.inr hm) (.inr hm) (.inl rfl) (.inr ⟨rfl, rfl⟩) look.le
    ⟨hzero, _, Slots.put_mutex_self _, hm, howner, rfl⟩ rfl⟩

theorem set_owner_moved (look : Looking tid kind s l k h slot (.setOwner k))
    (hnext : slotNext tid kind x s l slot (.setOwner k) = some (e, s', l')) :
    l'.self = l.self ∧ Moved tid kind l.self k h s e s' l'.pc := by
  obtain ⟨rfl, hhas⟩ := look.ok
  obtain ⟨hm, -, hdepth⟩ := (Slots.has_iff look.found).1 hhas
  cases hnext
  exact ⟨rfl, .set look.found look.slot (.inr hm) (.inr hm) (.inr (.inr rfl)) (.inl rfl)
    (Nat.succ_le_of_lt (by decide)) (.inr ⟨Nat.one_pos, _, Slots.put_mutex_self _, hm, rfl, hdepth⟩)
    ⟨rfl, rfl⟩⟩

/-! ### Unlocking -/

theorem unlock_type_moved (look : Looking tid kind s l k h slot (.unlockType k))
    (hnext : slotNext tid kind x s l slot (.unlockType k) = some (e, s', l'))
    (htyped : e ≠ .untyped k) :
    l'.self = l.self ∧ Moved tid kind l.self k h s e s' l'.pc := by
  unfold slotNext at hnext
  dsimp only at hnext
  split at hnext
  · cases hnext
    exact ⟨rfl, .keep rfl look.slots (.inr ⟨rfl, rfl⟩) look.le look.ok rfl⟩
  · cases hnext
    exact absurd rfl htyped

theorem unlock_owner_moved (look : Looking tid kind s l k h slot (.unlockOwner k))
    (hnext : slotNext tid kind x s l slot (.unlockOwner k) = some (e, s', l')) :
    l'.self = l.self ∧ Moved tid kind l.self k h s e s' l'.pc := by
  unfold slotNext at hnext
  dsimp only at hnext
  split at hnext
  · rename_i howner
    cases hnext
    exact ⟨rfl, .keep rfl look.slots (.inr ⟨rfl, rfl⟩) look.le
      (look.ok.1.of_owner look.found howner) rfl⟩
  · cases hnext
    exact ⟨rfl, .keep rfl look.slots (.inl rfl) look.le look.ok.1 ⟨rfl, rfl⟩⟩

theorem unlock_depth_moved (look : Looking tid kind s l k h slot (.unlockDepth k))
    (hnext : slotNext tid kind x s l slot (.unlockDepth k) = some (e, s', l')) :
    l'.self = l.self ∧ Moved tid kind l.self k h s e s' l'.pc := by
  obtain ⟨hpos, hhas⟩ := look.ok
  obtain ⟨-, -, hdepth⟩ := (Slots.has_iff look.found).1 hhas
  unfold slotNext at hnext
  simp only [hdepth] at hnext
  split at hnext
  · omega
  · split at hnext
    · rename_i hdeep
      cases hnext
      exact ⟨rfl, .keep rfl look.slots (.inr ⟨rfl, rfl⟩) look.le ⟨rfl, hdeep, hhas⟩ rfl⟩
    · cases hnext
      obtain rfl : h = 1 := by omega
      exact ⟨rfl, .keep rfl look.slots (.inr ⟨rfl, rfl⟩) look.le ⟨rfl, hhas⟩ rfl⟩

theorem unlock_lower_moved {d : Nat} (look : Looking tid kind s l k h slot (.unlockLower k d))
    (hnext : slotNext tid kind x s l slot (.unlockLower k d) = some (e, s', l')) :
    l'.self = l.self ∧ Moved tid kind l.self k h s e s' l'.pc := by
  obtain ⟨rfl, hdeep, hhas⟩ := look.ok
  obtain ⟨hm, howner, -⟩ := (Slots.has_iff look.found).1 hhas
  cases hnext
  have hle := look.le
  have hlower : d - 1 ≤ uint32Max := by omega
  have hone : d = d - 1 + 1 := by omega
  exact ⟨rfl, .set look.found look.slot (.inr hm) (.inr hm) (.inl rfl) (.inl rfl) hlower
    (.inr ⟨by omega, _, Slots.put_mutex_self _, hm, howner, rfl⟩)
    ⟨rfl, hone⟩⟩

theorem unlock_zero_moved (look : Looking tid kind s l k h slot (.unlockZero k))
    (hnext : slotNext tid kind x s l slot (.unlockZero k) = some (e, s', l')) :
    l'.self = l.self ∧ Moved tid kind l.self k h s e s' l'.pc := by
  obtain ⟨hone, hhas⟩ := look.ok
  obtain ⟨hm, howner, -⟩ := (Slots.has_iff look.found).1 hhas
  cases hnext
  exact ⟨rfl, .set look.found look.slot (.inr hm) (.inr hm) (.inl rfl) (.inr ⟨rfl, rfl⟩) look.le
    ⟨hone, _, Slots.put_mutex_self _, hm, howner, rfl⟩ rfl⟩

theorem unlock_clear_moved (look : Looking tid kind s l k h slot (.unlockClear k))
    (hnext : slotNext tid kind x s l slot (.unlockClear k) = some (e, s', l')) :
    l'.self = l.self ∧ Moved tid kind l.self k h s e s' l'.pc := by
  obtain ⟨hone, hhas⟩ := look.ok
  obtain ⟨hm, -, hdepth⟩ := (Slots.has_iff look.found).1 hhas
  cases hnext
  exact ⟨rfl, .set look.found look.slot (.inr hm) (.inr hm) (.inr (.inl rfl))
    (.inr ⟨rfl, rfl⟩) look.le
    ⟨hone, _, Slots.put_mutex_self _, hm, rfl, hdepth⟩ rfl⟩

/-- A thread that gives the `Mutex` back, with no owner set. -/
theorem Slots.released_lacks (hzero : tid t ≠ 0) (howner : slot.owner = 0) :
    (s.put k { slot with m := none }).Lacks tid t k :=
  (Slots.lacks_iff (Slots.put_mutex_self _)).2 ⟨nofun, fun hself => hzero (hself.symm.trans howner)⟩

theorem unlock_release_moved (hzero : tid l.self ≠ 0)
    (look : Looking tid kind s l k h slot (.unlockRelease k))
    (hnext : slotNext tid kind x s l slot (.unlockRelease k) = some (e, s', l')) :
    l'.self = l.self ∧ Moved tid kind l.self k h s e s' l'.pc := by
  obtain ⟨rfl, hhas⟩ := look.ok
  obtain ⟨hm, howner, -⟩ := (Slots.has_iff look.found).1 hhas
  cases hnext
  exact ⟨rfl, .set look.found look.slot (.inr hm) (.inl ⟨rfl, howner⟩) (.inl rfl) (.inl rfl)
    (Nat.zero_le _) (.inl ⟨rfl, Slots.released_lacks hzero howner⟩) ⟨rfl, rfl⟩⟩

/-! ### Waiting -/

theorem wait_depth_moved {c : C} {n : Nat} (look : Looking tid kind s l k h slot (.waitDepth c k n))
    (hnext : slotNext tid kind x s l slot (.waitDepth c k n) = some (e, s', l')) :
    l'.self = l.self ∧ Moved tid kind l.self k h s e s' l'.pc := by
  obtain ⟨hn, hpos, hhas⟩ := look.ok
  obtain ⟨-, -, hdepth⟩ := (Slots.has_iff look.found).1 hhas
  unfold slotNext at hnext
  simp only [hdepth] at hnext
  split at hnext
  · omega
  · split at hnext
    · rename_i hdeep
      cases hnext
      exact ⟨rfl, .keep rfl look.slots (.inr ⟨rfl, rfl⟩) look.le ⟨hn, rfl, hdeep, hhas⟩ rfl⟩
    · cases hnext
      obtain rfl : h = 1 := by omega
      exact ⟨rfl, .keep rfl look.slots (.inr ⟨rfl, rfl⟩) look.le ⟨hn, rfl, hhas⟩ rfl⟩

theorem wait_zero_moved {n : Nat} (look : Looking tid kind s l k h slot (.waitZero k n))
    (hnext : slotNext tid kind x s l slot (.waitZero k n) = some (e, s', l')) :
    l'.self = l.self ∧ Moved tid kind l.self k h s e s' l'.pc := by
  obtain ⟨hn, hone, hhas⟩ := look.ok
  obtain ⟨hm, howner, -⟩ := (Slots.has_iff look.found).1 hhas
  cases hnext
  exact ⟨rfl, .set look.found look.slot (.inr hm) (.inr hm) (.inl rfl) (.inr ⟨rfl, rfl⟩) look.le
    ⟨hn, hone, _, Slots.put_mutex_self _, hm, howner, rfl⟩ rfl⟩

theorem wait_clear_moved {n : Nat} (look : Looking tid kind s l k h slot (.waitClear k n))
    (hnext : slotNext tid kind x s l slot (.waitClear k n) = some (e, s', l')) :
    l'.self = l.self ∧ Moved tid kind l.self k h s e s' l'.pc := by
  obtain ⟨hn, hone, hhas⟩ := look.ok
  obtain ⟨hm, -, hdepth⟩ := (Slots.has_iff look.found).1 hhas
  cases hnext
  exact ⟨rfl, .set look.found look.slot (.inr hm) (.inr hm) (.inr (.inl rfl))
    (.inr ⟨rfl, rfl⟩) look.le
    ⟨hn, hone, _, Slots.put_mutex_self _, hm, rfl, hdepth⟩ rfl⟩

theorem wait_sleep_moved {n : Nat} (hzero : tid l.self ≠ 0)
    (look : Looking tid kind s l k h slot (.waitSleep k n))
    (hnext : slotNext tid kind x s l slot (.waitSleep k n) = some (e, s', l')) :
    l'.self = l.self ∧ Moved tid kind l.self k h s e s' l'.pc := by
  obtain ⟨hn, hone, hhas⟩ := look.ok
  obtain ⟨hm, howner, -⟩ := (Slots.has_iff look.found).1 hhas
  cases hnext
  exact ⟨rfl, .set look.found look.slot (.inr hm) (.inl ⟨rfl, howner⟩) (.inl rfl)
    (.inr ⟨rfl, rfl⟩) look.le
    ⟨hn, hone, Slots.released_lacks hzero howner⟩ rfl⟩

theorem wait_wake_moved {n : Nat} (look : Looking tid kind s l k h slot (.waitWake k n))
    (hnext : slotNext tid kind x s l slot (.waitWake k n) = some (e, s', l')) :
    l'.self = l.self ∧ Moved tid kind l.self k h s e s' l'.pc := by
  unfold slotNext at hnext
  dsimp only at hnext
  split at hnext
  · rename_i hfree
    cases hnext
    exact ⟨rfl, .set look.found look.slot (.inl hfree) (.inr rfl) (.inl rfl)
      (.inr ⟨rfl, rfl⟩) look.le
      ⟨look.ok.1, look.ok.2.1, look.taken hfree⟩ rfl⟩
  · cases hnext

theorem wait_set_depth_moved {n : Nat} (look : Looking tid kind s l k h slot (.waitSetDepth k n))
    (hnext : slotNext tid kind x s l slot (.waitSetDepth k n) = some (e, s', l')) :
    l'.self = l.self ∧ Moved tid kind l.self k h s e s' l'.pc := by
  obtain ⟨hn, hone, d, hhas⟩ := look.ok
  obtain ⟨hm, howner, -⟩ := (Slots.has_iff look.found).1 hhas
  cases hnext
  exact ⟨rfl, .set look.found look.slot (.inr hm) (.inr hm) (.inl rfl) (.inr ⟨rfl, rfl⟩) look.le
    ⟨hn, hone, _, Slots.put_mutex_self _, hm, howner, rfl⟩ rfl⟩

theorem wait_set_owner_moved {n : Nat} (look : Looking tid kind s l k h slot (.waitSetOwner k n))
    (hnext : slotNext tid kind x s l slot (.waitSetOwner k n) = some (e, s', l')) :
    l'.self = l.self ∧ Moved tid kind l.self k h s e s' l'.pc := by
  obtain ⟨hn, rfl, hhas⟩ := look.ok
  obtain ⟨hm, -, hdepth⟩ := (Slots.has_iff look.found).1 hhas
  cases hnext
  exact ⟨rfl, .set look.found look.slot (.inr hm) (.inr hm) (.inr (.inr rfl)) (.inl rfl) look.le
    (.inr ⟨Nat.one_pos, _, Slots.put_mutex_self _, hm, rfl, hdepth⟩) ⟨rfl, hn, rfl⟩⟩

theorem wait_lower_moved {c : C} {n d : Nat}
    (look : Looking tid kind s l k h slot (.waitLower c k n d))
    (hnext : slotNext tid kind x s l slot (.waitLower c k n d) = some (e, s', l')) :
    l'.self = l.self ∧ Moved tid kind l.self k h s e s' l'.pc := by
  obtain ⟨hn, rfl, hdeep, hhas⟩ := look.ok
  obtain ⟨hm, howner, -⟩ := (Slots.has_iff look.found).1 hhas
  cases hnext
  exact ⟨rfl, .set look.found look.slot (.inr hm) (.inr hm) (.inl rfl) (.inr ⟨rfl, rfl⟩) look.le
    ⟨hn, hdeep, _, Slots.put_mutex_self _, hm, howner, rfl⟩ rfl⟩

theorem wait_read_moved {n : Nat} (look : Looking tid kind s l k h slot (.waitRead k n))
    (hnext : slotNext tid kind x s l slot (.waitRead k n) = some (e, s', l')) :
    l'.self = l.self ∧ Moved tid kind l.self k h s e s' l'.pc := by
  obtain ⟨hn, hdeep, hhas⟩ := look.ok
  obtain ⟨-, -, hdepth⟩ := (Slots.has_iff look.found).1 hhas
  cases hnext
  exact ⟨rfl, .keep rfl look.slots (.inr ⟨rfl, rfl⟩) look.le ⟨hn, by omega, hdeep, hhas⟩ rfl⟩

theorem wait_raise_moved {n d : Nat} (look : Looking tid kind s l k h slot (.waitRaise k n d))
    (hnext : slotNext tid kind x s l slot (.waitRaise k n d) = some (e, s', l')) :
    l'.self = l.self ∧ Moved tid kind l.self k h s e s' l'.pc := by
  obtain ⟨hn, rfl, hdeep, hhas⟩ := look.ok
  obtain ⟨hm, howner, -⟩ := (Slots.has_iff look.found).1 hhas
  cases hnext
  exact ⟨rfl, .set look.found look.slot (.inr hm) (.inr hm) (.inl rfl) (.inl rfl) look.le
    (.inr ⟨Nat.succ_pos d, _, Slots.put_mutex_self _, hm, howner, rfl⟩) ⟨rfl, hn, rfl⟩⟩

/-! ### All places -/

/-- Every place that looks at the slot of its mutex. -/
theorem slot_next_moved (hzero : tid l.self ≠ 0) (hkey : pc.key = some k)
    (look : Looking tid kind s l k h slot pc)
    (hnext : slotNext tid kind x s l slot pc = some (e, s', l')) (htyped : e ≠ .untyped k) :
    l'.self = l.self ∧ Moved tid kind l.self k h s e s' l'.pc := by
  cases pc with
  | idle | slot | unlockSlot | condLock | condSleep | condWake | condUnlock => cases hnext
  | normalTry | normalBlock | unlockNormal | normalSleep | normalWake => exact look.ok.elim
  | known op k' => cases hkey; exact known_moved look hnext
  | setType op k' => cases hkey; exact set_type_moved look hnext
  | setKnown op k' => cases hkey; exact set_known_moved look hnext
  | type op k' => cases hkey; exact type_moved look hnext
  | owner op k' => cases hkey; exact owner_moved look hnext
  | again k' => cases hkey; exact again_moved look hnext
  | bump k' d => cases hkey; exact bump_moved look hnext
  | «try» op k' => cases hkey; exact try_moved look hnext
  | block k' => cases hkey; exact block_moved look hnext
  | setDepth k' => cases hkey; exact set_depth_moved look hnext
  | setOwner k' => cases hkey; exact set_owner_moved look hnext
  | unlockType k' => cases hkey; exact unlock_type_moved look hnext htyped
  | unlockOwner k' => cases hkey; exact unlock_owner_moved look hnext
  | unlockDepth k' => cases hkey; exact unlock_depth_moved look hnext
  | unlockLower k' d => cases hkey; exact unlock_lower_moved look hnext
  | unlockZero k' => cases hkey; exact unlock_zero_moved look hnext
  | unlockClear k' => cases hkey; exact unlock_clear_moved look hnext
  | unlockRelease k' => cases hkey; exact unlock_release_moved hzero look hnext
  | waitDepth c k' n => cases hkey; exact wait_depth_moved look hnext
  | waitZero k' n => cases hkey; exact wait_zero_moved look hnext
  | waitClear k' n => cases hkey; exact wait_clear_moved look hnext
  | waitSleep k' n => cases hkey; exact wait_sleep_moved hzero look hnext
  | waitWake k' n => cases hkey; exact wait_wake_moved look hnext
  | waitSetDepth k' n => cases hkey; exact wait_set_depth_moved look hnext
  | waitSetOwner k' n => cases hkey; exact wait_set_owner_moved look hnext
  | waitLower c k' n d => cases hkey; exact wait_lower_moved look hnext
  | waitRead k' n => cases hkey; exact wait_read_moved look hnext
  | waitRaise k' n d => cases hkey; exact wait_raise_moved look hnext

/-- A call goes on after `slot_get`. -/
theorem enter_moved (hslots : ∀ slot ∈ s.mutex k, slot.Ok (kind k)) (hle : h ≤ uint32Max)
    (hok : Pc.Ok tid kind s l.self k h (.slot op k)) (hnext : enter x s l op k = some (e, s', l')) :
    l'.self = l.self ∧ s' = s ∧ Moved tid kind l.self k h s e s' l'.pc := by
  obtain ⟨hsteady, hentered⟩ := hok
  cases op with
  | lock | trylock =>
      cases hnext
      exact ⟨rfl, rfl, .keep rfl hslots (.inr ⟨rfl, rfl⟩) hle ⟨hsteady, hentered⟩ rfl⟩
  | wait c timed n =>
      simp only [enter] at hnext
      split at hnext
      · cases hnext
        exact ⟨rfl, rfl, .keep rfl hslots (.inr ⟨rfl, rfl⟩) hle ⟨hsteady, hentered⟩ rfl⟩
      · cases hnext
        exact ⟨rfl, rfl, .keep rfl hslots (.inl rfl) hle hsteady ⟨rfl, hentered, rfl⟩⟩

/-- A new slot has no owner. -/
theorem Steady.create (hzero : tid t ≠ 0) (hsteady : Steady tid s t k h)
    (hnone : s.mutex k = none) :
    Steady tid (s.put k .fresh) t k h := by
  rcases hsteady with ⟨hh, -⟩ | ⟨-, slot, hslot, -⟩
  · exact .inl ⟨hh, (Slots.lacks_iff (Slots.put_mutex_self _)).2 ⟨nofun, hzero.symm⟩⟩
  · rw [hnone] at hslot
    cases hslot

theorem fresh_ok {kind : MutexKind} : (MutexSlot.fresh : MutexSlot T).Ok kind :=
  ⟨nofun, nofun, fun _ => rfl⟩

/-- `slot_get` -/
theorem slot_step_moved (hzero : tid l.self ≠ 0) (hslots : ∀ slot ∈ s.mutex k, slot.Ok (kind k))
    (hle : h ≤ uint32Max) (hok : Pc.Ok tid kind s l.self k h (.slot op k))
    (hnext : slotStep x s l op k = some (e, s', l')) :
    l'.self = l.self ∧ Moved tid kind l.self k h s e s' l'.pc := by
  simp only [slotStep] at hnext
  split at hnext
  · obtain ⟨hself, -, hmoved⟩ := enter_moved hslots hle hok hnext
    exact ⟨hself, hmoved⟩
  · rename_i hnone
    split at hnext
    · have hfresh : ∀ slot ∈ (s.put k .fresh).mutex k, slot.Ok (kind k) := by
        intro slot hslot
        rw [Slots.put_mutex_self] at hslot
        cases hslot
        exact fresh_ok
      obtain ⟨hself, rfl, hmoved⟩ :=
        enter_moved hfresh hle ⟨hok.1.create hzero hnone, hok.2⟩ hnext
      exact ⟨hself, .create hnone, hmoved.slot, hmoved.place, hmoved.after⟩
    · cases op with
      | lock | trylock =>
          cases hnext
          exact ⟨rfl, .keep rfl hslots (.inl rfl) hle hok.1 ⟨rfl, rfl⟩⟩
      | wait c timed n =>
          cases hnext
          exact ⟨rfl, .keep rfl hslots (.inl rfl) hle hok.1 ⟨rfl, hok.2, rfl⟩⟩

/-- A step on the lock of a condition variable. -/
theorem cond_moved [DecidableEq C] (hslots : ∀ slot ∈ s.mutex k, slot.Ok (kind k))
    (hle : h ≤ uint32Max) (hkey : pc.key = some k) (hok : pc.Ok tid kind s l.self k h)
    (hnext : condNext s l pc = some (e, s', l')) :
    l'.self = l.self ∧ Moved tid kind l.self k h s e s' l'.pc := by
  cases pc with
  | condLock c k' n | condWake c k' n =>
      cases hkey
      simp only [condNext] at hnext
      split at hnext
      · cases hnext
        exact ⟨rfl, .keep rfl hslots (.inr ⟨rfl, rfl⟩) hle ⟨hok.1, hok.2.1, hok.2.2⟩ rfl⟩
      · cases hnext
  | condSleep c k' n | condUnlock c k' n =>
      cases hkey
      cases hnext
      exact ⟨rfl, .keep rfl hslots (.inr ⟨rfl, rfl⟩) hle ⟨hok.1, hok.2.1, hok.2.2⟩ rfl⟩
  | _ => cases hnext

/-- Every step of a thread that is busy with a mutex. -/
theorem sync_next_moved [DecidableEq C] (hzero : tid l.self ≠ 0) (hkey : l.pc.key = some k)
    (hslots : ∀ slot ∈ s.mutex k, slot.Ok (kind k)) (hle : h ≤ uint32Max)
    (hok : l.pc.Ok tid kind s l.self k h) (hnext : syncNext tid kind x s l = some (e, s', l'))
    (htyped : e ≠ .untyped k) :
    l'.self = l.self ∧ Moved tid kind l.self k h s e s' l'.pc := by
  unfold syncNext at hnext
  split at hnext
  · rename_i hpc
    rw [hpc] at hkey
    cases hkey
  · rename_i hpc
    rw [hpc] at hkey hok
    cases hkey
    exact slot_step_moved hzero hslots hle hok hnext
  · rename_i hpc
    rw [hpc] at hkey hok
    cases hkey
    split at hnext
    · cases hnext
      exact ⟨rfl, .keep rfl hslots (.inl rfl) hle hok ⟨rfl, rfl⟩⟩
    · rename_i slot hslot
      cases hnext
      exact ⟨rfl, .keep rfl hslots (.inr ⟨rfl, rfl⟩) hle ⟨hok, slot, hslot⟩ rfl⟩
  iterate 4
    · rename_i hpc
      rw [hpc] at hkey hok
      exact cond_moved hslots hle hkey hok hnext
  · rw [hkey] at hnext
    split at hnext
    · cases hnext
    · rename_i hslot
      exact slot_next_moved hzero hkey ⟨hslot, hslots _ hslot, hle, hok⟩ hnext htyped

end Moved

/-! ## The invariant -/

section Counting

variable [DecidableEq T]

/-- How often a thread has locked a mutex. -/
def acquired (trace : List (T × Event K)) (t : T) (k : K) : Nat :=
  trace.count (t, .lockReturns k .ok)

/-- How often a thread has unlocked a mutex. -/
def unlocked (trace : List (T × Event K)) (t : T) (k : K) : Nat :=
  trace.count (t, .unlockReturns k .ok)

variable {trace : List (T × Event K)} {t u : T} {k k' : K} {e : Event K} {h h' : Nat}

theorem acquired_snoc : acquired (trace ++ [(t, e)]) u k =
    acquired trace u k + if t = u ∧ e = .lockReturns k .ok then 1 else 0 := by
  simp [acquired, List.count_append, List.count_singleton]

theorem unlocked_snoc : unlocked (trace ++ [(t, e)]) u k =
    unlocked trace u k + if t = u ∧ e = .unlockReturns k .ok then 1 else 0 := by
  simp [unlocked, List.count_append, List.count_singleton]

/-- What a step counts for the thread and its mutex. -/
theorem Event.Counts.self (hcounts : e.Counts k h h')
    (hh : acquired trace t k = unlocked trace t k + h) :
    acquired (trace ++ [(t, e)]) t k = unlocked (trace ++ [(t, e)]) t k + h' := by
  rw [acquired_snoc, unlocked_snoc, hh]
  cases e with
  | inner =>
      obtain rfl : h' = h := hcounts
      simp
  | lockReturns k' r =>
      obtain ⟨rfl, rfl⟩ := hcounts
      by_cases hr : r = .ok
      · simp [hr]
        omega
      · simp [hr]
  | unlockReturns k' r =>
      obtain ⟨rfl, rfl⟩ := hcounts
      by_cases hr : r = .ok
      · simp [hr]
        omega
      · simp [hr]
  | waitReturns k' n r =>
      obtain ⟨-, -, rfl⟩ := hcounts
      simp
  | untyped k' => exact hcounts.elim

/-- A step counts for nothing else. -/
theorem Event.Counts.other (hcounts : e.Counts k h h') (trace : List (T × Event K))
    (hne : u ≠ t ∨ k' ≠ k) :
    acquired (trace ++ [(t, e)]) u k' = acquired trace u k' ∧
      unlocked (trace ++ [(t, e)]) u k' = unlocked trace u k' := by
  rw [acquired_snoc, unlocked_snoc]
  have hlock : ¬ (t = u ∧ e = .lockReturns k' .ok) := by
    rintro ⟨rfl, rfl⟩
    exact hne.elim (fun h => h rfl) fun h => h hcounts.1
  have hunlock : ¬ (t = u ∧ e = .unlockReturns k' .ok) := by
    rintro ⟨rfl, rfl⟩
    exact hne.elim (fun h => h rfl) fun h => h hcounts.1
  exact ⟨by rw [if_neg hlock]; rfl, by rw [if_neg hunlock]; rfl⟩

end Counting

section Invariant

variable [DecidableEq T] [DecidableEq C]

/-- What a thread has of a mutex: by its place if it is busy with the mutex. -/
def Position (tid : T → Nat) (kind : K → MutexKind) (s : Slots T K C) (l : Thread T K C) (k : K)
    (h : Nat) : Prop :=
  if l.pc.key = some k then l.pc.Ok tid kind s l.self k h else Steady tid s l.self k h

/-- The invariant after a run. -/
structure Inv (tid : T → Nat) (kind : K → MutexKind) (trace : List (T × Event K))
    (c : Config T (Slots T K C) (Thread T K C)) : Prop where
  self : ∀ t, (c.locals t).self = t
  slots : ∀ k, ∀ slot ∈ c.shared.mutex k, slot.Ok (kind k)
  position : ∀ t k, ∃ h ≤ uint32Max, acquired trace t k = unlocked trace t k + h ∧
    Position tid kind c.shared (c.locals t) k h

variable {tid : T → Nat} {kind : K → MutexKind} {c d : Config T (Slots T K C) (Thread T K C)}
  {s s' : Slots T K C} {l l' : Thread T K C} {k k' : K} {h : Nat} {e : Event K} {t : T}
  {x : Choice K C} {trace : List (T × Event K)}

omit [DecidableEq T] [DecidableEq C] in
theorem position_busy (hkey : l.pc.key = some k) :
    Position tid kind s l k h ↔ l.pc.Ok tid kind s l.self k h := by
  simp [Position, hkey]

omit [DecidableEq T] [DecidableEq C] in
theorem position_other (hkey : l.pc.key ≠ some k) :
    Position tid kind s l k h ↔ Steady tid s l.self k h := by
  simp [Position, hkey]

omit [DecidableEq T] [DecidableEq C] in
/-- What a thread has of a mutex depends on the slot of that mutex alone. -/
theorem Position.congr (hs : s'.mutex k = s.mutex k) {n : Nat}
    (hposition : Position tid kind s l k n) : Position tid kind s' l k n := by
  have hsteady : Steady tid s' l.self k n ↔ Steady tid s l.self k n := by
    simp only [Steady, Slots.Has, Slots.Lacks, hs]
  have hok (pc : Pc K C) : pc.Ok tid kind s' l.self k n ↔ pc.Ok tid kind s l.self k n := by
    cases pc <;> simp only [Pc.Ok, hsteady, Slots.Has, Slots.Lacks, Slots.Typed, hs]
  rwa [Position, hsteady, hok]

omit [DecidableEq T] [DecidableEq C] in
/-- At the place where a step has led, the thread has what the place says. -/
theorem Moved.position (hmoved : Moved tid kind t k h s e s' l'.pc) (hself : l'.self = t) :
    ∃ h' ≤ uint32Max, Position tid kind s' l' k h' ∧ e.Counts k h h' := by
  obtain ⟨h', hle, hok, hcounts⟩ := hmoved.after
  refine ⟨h', hle, ?_, hcounts⟩
  rcases hmoved.place with hidle | ⟨-, hkey⟩
  · rw [position_other (by rw [hidle]; exact nofun), hself]
    rw [hidle] at hok
    exact hok
  · rwa [position_busy hkey, hself]

omit [DecidableEq T] [DecidableEq C] in
/-- The other mutexes of the thread. -/
theorem Moved.position_other (hmoved : Moved tid kind t k h s e s' l'.pc) (hself : l'.self = t)
    (hk : k' ≠ k) {n : Nat} (hsteady : Steady tid s t k' n) : Position tid kind s' l' k' n := by
  have hkey : l'.pc.key ≠ some k' := by
    rcases hmoved.place with hidle | ⟨-, hkey⟩
    · rw [hidle]
      exact nofun
    · rw [hkey]
      exact fun h => hk (Option.some.inj h).symm
  refine Position.congr (hmoved.change.other hk) ?_
  rwa [Sync.position_other hkey, hself]

omit [DecidableEq T] [DecidableEq C] in
/-- The other threads. -/
theorem Change.position (hchange : Change tid kind t k s s') (hinj : Function.Injective tid)
    (hzero : tid l.self ≠ 0) (hself : l.self ≠ t) {n : Nat}
    (hposition : Position tid kind s l k' n) :
    Position tid kind s' l k' n := by
  by_cases hk : k' = k
  · subst hk
    unfold Position at hposition ⊢
    split
    · rename_i hkey
      rw [if_pos hkey] at hposition
      exact hchange.ok hself hinj hzero hposition
    · rename_i hkey
      rw [if_neg hkey] at hposition
      exact hchange.steady hself hinj hzero hposition
  · exact Position.congr (hchange.other hk) hposition

omit [DecidableEq T] [DecidableEq C] in
/-- A call begins: the thread has what it had. -/
theorem request_position (kind : K → MutexKind) (hnext : requestStep tid x s l = some (e, s', l')) :
    l'.self = l.self ∧ s' = s ∧ e = .inner ∧
      ∀ k h, Steady tid s l.self k h → Position tid kind s l' k h := by
  unfold requestStep at hnext
  cases hrequest : x.request with
  | lock k | trylock k | unlock k =>
      rw [hrequest] at hnext
      cases hnext
      refine ⟨rfl, rfl, rfl, fun k' h hsteady => ?_⟩
      by_cases hk : k = k'
      · subst hk
        exact (position_busy rfl).2 (by first | exact ⟨hsteady, trivial⟩ | exact hsteady)
      · exact (position_other (by simpa [Thread.goto, Pc.key] using hk)).2 hsteady
  | wait condvar k timed =>
      rw [hrequest] at hnext
      cases hnext
      refine ⟨rfl, rfl, rfl, fun k' h hsteady => ?_⟩
      by_cases hk : k = k'
      · subst hk
        exact (position_busy rfl).2 ⟨hsteady, hsteady.owned⟩
      · exact (position_other (by simpa [Thread.goto, Pc.key] using hk)).2 hsteady

omit [DecidableEq C] in
/-- After a step every thread knows itself. -/
theorem Inv.self_step (hinv : Inv tid kind trace c) (hl : l.self = t) (u : T) :
    ((c.set t s l).locals u).self = u := by
  by_cases hu : u = t
  · subst hu
    rwa [Config.set_locals_self]
  · rw [Config.set_locals_other _ hu]
    exact hinv.self u

omit [DecidableEq C] in
/-- The beginning of a call keeps the invariant. -/
theorem Inv.request (hinv : Inv tid kind trace c) (hkey : (c.locals t).pc.key = none)
    (hnext : requestStep tid x c.shared (c.locals t) = some (e, s, l)) :
    Inv tid kind (trace ++ [(t, e)]) (c.set t s l) := by
  obtain ⟨hl, rfl, rfl, hbegins⟩ := request_position kind hnext
  refine ⟨hinv.self_step (hl.trans (hinv.self t)), hinv.slots, fun u k => ?_⟩
  obtain ⟨h, hle, hcount, hu⟩ := hinv.position u k
  have hcounts : Event.Counts k h h (.inner : Event K) := rfl
  by_cases hut : u = t
  · subst hut
    have hsteady := (position_other (by rw [hkey]; exact nofun)).1 hu
    rw [Config.set_locals_self]
    exact ⟨h, hle, hcounts.self hcount, hbegins k h hsteady⟩
  · have hother := hcounts.other trace (Or.inl hut : u ≠ t ∨ k ≠ k)
    rw [Config.set_locals_other _ hut]
    exact ⟨h, hle, by rw [hother.1, hother.2, hcount], hu⟩

/-- A step in a call keeps the invariant. -/
theorem Inv.call (hinj : Function.Injective tid) (hzero : ∀ t, tid t ≠ 0)
    (hinv : Inv tid kind trace c) (hkey : (c.locals t).pc.key = some k)
    (hnext : syncNext tid kind x c.shared (c.locals t) = some (e, s, l)) (htyped : e ≠ .untyped k) :
    Inv tid kind (trace ++ [(t, e)]) (c.set t s l) := by
  have hself := hinv.self t
  obtain ⟨h, hle, hcount, ht⟩ := hinv.position t k
  obtain ⟨hl, hmoved⟩ := sync_next_moved (by rw [hself]; exact hzero t) hkey (hinv.slots k)
    hle ((position_busy hkey).1 ht) hnext htyped
  rw [hself] at hl hmoved
  obtain ⟨h', hle', hposition, hcounts⟩ := hmoved.position hl
  refine ⟨hinv.self_step hl, fun k' => ?_, fun u k' => ?_⟩
  · by_cases hk : k' = k
    · subst hk
      exact hmoved.slot
    · rw [Config.set_shared, hmoved.change.other hk]
      exact hinv.slots k'
  · obtain ⟨n, hn, hcount', hu⟩ := hinv.position u k'
    by_cases hut : u = t
    · subst hut
      rw [Config.set_locals_self]
      by_cases hk : k' = k
      · subst hk
        exact ⟨h', hle', hcounts.self hcount, hposition⟩
      · have hother := hcounts.other trace (Or.inr hk : u ≠ u ∨ k' ≠ k)
        have hkey' : (c.locals u).pc.key ≠ some k' := by
          rw [hkey]
          exact fun hsome => hk (Option.some.inj hsome).symm
        have hsteady := (position_other hkey').1 hu
        rw [hself] at hsteady
        exact ⟨n, hn, by rw [hother.1, hother.2, hcount'], hmoved.position_other hl hk hsteady⟩
    · have hother := hcounts.other trace (Or.inl hut : u ≠ t ∨ k' ≠ k)
      rw [Config.set_locals_other _ hut]
      exact ⟨n, hn, by rw [hother.1, hother.2, hcount'],
        hmoved.change.position hinj (hzero _) (by rwa [hinv.self u]) hu⟩

omit [DecidableEq K] [DecidableEq C] [DecidableEq T] in
theorem Pc.key_eq_none {pc : Pc K C} : pc.key = none ↔ pc = .idle := by
  cases pc <;> simp [Pc.key]

/-- Every step keeps the invariant. -/
theorem Inv.step (hinj : Function.Injective tid) (hzero : ∀ t, tid t ≠ 0)
    (hinv : Inv tid kind trace c)
    (hstep : Step (mutexes tid kind) c (t, e) d) (htyped : ∀ k, e ≠ .untyped k) :
    Inv tid kind (trace ++ [(t, e)]) d := by
  cases hstep with
  | mk hnext =>
      cases hkey : (c.locals t).pc.key with
      | none =>
          simp only [mutexes, syncNext, Pc.key_eq_none.1 hkey] at hnext
          exact hinv.request hkey hnext
      | some k => exact hinv.call hinj hzero hkey hnext (htyped k)

/-- A step in which no unlock finds a mutex whose type has not been written yet. -/
def Orderly (tid : T → Nat) (kind : K → MutexKind) (c : Config T (Slots T K C) (Thread T K C))
    (label : T × Event K) (d : Config T (Slots T K C) (Thread T K C)) : Prop :=
  Step (mutexes tid kind) c label d ∧ ∀ k, label.2 ≠ .untyped k

omit [DecidableEq C] in
/-- The invariant holds before the first call. -/
theorem Initial.inv (hzero : ∀ t, tid t ≠ 0) (hinit : Initial kind c) : Inv tid kind [] c := by
  refine ⟨hinit.self, fun k slot hslot => ?_, fun t k => ⟨0, Nat.zero_le _, rfl, ?_⟩⟩
  · cases hinit.slots k slot hslot
    exact ⟨fun _ => rfl, fun type htype => (Option.some.inj htype).symm, fun _ => rfl⟩
  · rw [position_other (by rw [hinit.idle t]; exact nofun)]
    refine .inl ⟨rfl, fun slot hslot => ?_⟩
    cases hinit.slots k slot hslot
    exact ⟨nofun, (hzero _).symm⟩

/-- The invariant holds after every run. -/
theorem Inv.run (hinj : Function.Injective tid) (hzero : ∀ t, tid t ≠ 0) (hinit : Initial kind c)
    (hrun : Run (Orderly tid kind) c trace d) : Inv tid kind trace d :=
  hrun.invariant_trace (hinit.inv hzero) fun _ _ _ _ hinv hstep =>
    hinv.step hinj hzero hstep.1 hstep.2

end Invariant

end Asnx.Bionic.Sync
