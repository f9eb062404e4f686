import Asnx.Bionic.GuestThreadInvariant

/-!
# The life of a guest thread

`Kept` says of an event and what comes before it what the life of a guest thread should be like:
its record is taken out of the list and freed once, and why it may be. `lifecycle` shows that every
event of every run is so, except that nothing is said of runs in which a join waits for a thread
that could not be started.
-/

namespace Asnx.Bionic.Pthread

open Threads

variable {T : Type*} [DecidableEq T]

/-! ## What should hold -/

/-- The event takes the record out of the list. -/
def Event.Unlinks (g : T) (e : Event T) : Prop := ∃ remover, e = .unlinked g remover

/-- The event frees the record. -/
def Event.Frees (g : T) (e : Event T) : Prop := (∃ remover, e = .freed g remover) ∨
    ∃ v, e = .joined g v

/-- The record has been put into the list and has not been taken out. -/
def Registered (before : List (T × Event T)) (g : T) : Prop :=
  Seen (fun x => x.2 = .added g) before ∧ ¬ Seen (fun x => x.2.Unlinks g) before

/-- The thread was created detached, or has been detached. -/
def Detached (before : List (T × Event T)) (g : T) : Prop :=
  Seen (fun x => x.2 = .made g true ∨ x.2 = .detaches g) before

/-- The start routine of the thread has returned the value, or the thread has passed it to
`bionic_pthread_exit`. -/
def Yielded (before : List (T × Event T)) (g : T) (v : Nat) : Prop :=
  Seen (fun x => x = (g, .returned v) ∨ x = (g, .exited v)) before

/-- Why a record may be taken out of the list. -/
def HasCause (before : List (T × Event T)) (g : T) : Remover → Prop
  | .creator => ¬ Seen (fun x => x.2 = .started g) before
  | .joiner => Seen (· = (g, .ended)) before
  | .reaper => Seen (· = (g, .ended)) before ∧ Detached before g

/-- What an event may rely on. A record is taken out of the list once and freed once. It is taken
out after its thread has ended, by a join that returns 0 or by the reaper if it is detached, or by
`bionic_pthread_create` if the thread is never started; a thread is started while its record is in
the list. A join that returns 0 yields the value of the thread, which has not been detached. A join
or a detach that fails on a record leaves it in the list. -/
def Kept (before : List (T × Event T)) : T × Event T → Prop
  | (_, .started g) => Registered before g ∧ ¬ Seen (fun x => x.2.Frees g) before
  | (_, .unlinked g remover) => ¬ Seen (fun x => x.2.Unlinks g) before ∧ HasCause before g remover
  | (t, .freed g remover) => ¬ Seen (fun x => x.2.Frees g) before ∧
      (remover = .creator ∧ HasCause before g .creator ∨ Seen (· = (t, .unlinked g remover)) before)
  | (t, .joined g v) => ¬ Seen (fun x => x.2.Frees g) before ∧
      Seen (· = (t, .unlinked g .joiner)) before ∧ (∀ w ∈ v, Yielded before g w) ∧
      ¬ Seen (fun x => x.2 = .detached g) before
  | (_, .joinFailed (some g)) => Registered before g
  | (_, .detachFailed (some g)) => Registered before g
  | _ => True

/-! ## What a trace tells of a record -/

/-- What the trace tells of the record `g`. -/
structure KnownAt (trace : List (T × Event T)) (s : Shared T) (g : T) : Prop where
  ended : s.thread g = .ended → Seen (· = (g, .ended)) trace
  unstarted : s.thread g = .none ∨ s.thread g = .created → ¬ Seen (fun x => x.2 = .started g) trace
  listed : s.place g = .none ∨ s.place g = .allocated ∨ s.place g = .registered →
    ¬ Seen (fun x => x.2.Unlinks g) trace
  added : s.place g = .registered → Seen (fun x => x.2 = .added g) trace
  held : s.place g ≠ .freed → ¬ Seen (fun x => x.2.Frees g) trace
  detached : s.place g ≠ .none → (s.record g).detached = true → Detached trace g
  detaches : Seen (fun x => x.2 = .detaches g ∨ x.2 = .detached g) trace →
    s.place g ≠ .none ∧ (s.record g).detached = true

/-- An event says something of the record `g`. -/
def Event.About (g : T) (e : Event T) : Prop :=
  e = .started g ∨ e.Unlinks g ∨ e.Frees g ∨ e = .detaches g ∨ e = .detached g

omit [DecidableEq T] in
/-- What is told of a record stays so in a step that is not about it. -/
theorem KnownAt.of_agree {trace : List (T × Event T)} {s s' : Shared T} {g : T} {x : T × Event T}
    (h : KnownAt trace s g) (hagree : s.Agree s' g) (hx : ¬ x.2.About g) :
    KnownAt (trace ++ [x]) s' g := by
  simp only [Event.About, not_or] at hx
  obtain ⟨hstarted, hunlinks, hfrees, hdetaches, hdetached⟩ := hx
  constructor <;> simp only [hagree.place, hagree.thread, hagree.record, Detached,
    seen_snoc, hstarted,
    hunlinks, hfrees, hdetaches, hdetached, or_false, or_self]
  · exact fun hg => .inl (h.ended hg)
  · exact h.unstarted
  · exact h.listed
  · exact fun hg => .inl (h.added hg)
  · exact h.held
  · exact fun hg hg' => .inl (h.detached hg hg')
  · exact h.detaches

section

variable {trace : List (T × Event T)} {s s' : Shared T} {g t : T} {r r' : Option Role} {e : Event T}

/-! What a turn does to the thread and the place of its record, and what it is seen to do. -/

theorem Turn.thread_ended (h : Turn s g r e s' r') (hr : ∀ q ∈ r, q.Ok s g)
    (hended : s'.thread g = .ended) : s.thread g = .ended := by
  rcases h.thread_cases hr with hsame | ⟨-, hcreated⟩ | ⟨-, hstarted⟩
  · rw [← hsame]
    exact hended
  · exact nomatch hcreated.symm.trans hended
  · exact nomatch hstarted.symm.trans hended

theorem Turn.thread_unstarted (h : Turn s g r e s' r') (hr : ∀ q ∈ r, q.Ok s g)
    (hthread : s'.thread g = .none ∨ s'.thread g = .created) :
    (s.thread g = .none ∨ s.thread g = .created) ∧ e ≠ .started g := by
  have hold : s.thread g = .none ∨ s.thread g = .created := by
    rcases h.thread_cases hr with hsame | ⟨hnone, -⟩ | ⟨hcreated, -⟩
    · rw [← hsame]
      exact hthread
    · exact .inl hnone
    · exact .inr hcreated
  refine ⟨hold, fun he => ?_⟩
  cases h with
  | start =>
      have hstarted : (s.setThread g .started).thread g = .started := Function.update_self ..
      rw [hstarted] at hthread
      exact hthread.elim nofun nofun
  | _ => cases he

/-- What a turn does to the place of its record. -/
theorem Turn.place_cases (h : Turn s g r e s' r') (hs : s.Ok) (hr : ∀ q ∈ r, q.Ok s g) :
    (s'.place g = s.place g ∧ ¬ e.Unlinks g ∧ ¬ e.Frees g) ∨
      (s.place g = .none ∧ s'.place g = .allocated ∧ ¬ e.Unlinks g ∧ ¬ e.Frees g) ∨
      (s.place g = .allocated ∧ s'.place g = .registered ∧ e = .added g) ∨
      (s.place g = .registered ∧ s'.place g = .unlinked ∧ ¬ e.Frees g) ∨
      (s.place g ≠ .freed ∧ s'.place g = .freed) := by
  have hlisted := (hs.records g).listed
  cases h with
  | alloc _ hplace =>
      exact .inr (.inl ⟨hplace, Function.update_self .., nofun, by rintro (⟨_, ⟨⟩⟩ | ⟨_, ⟨⟩⟩)⟩)
  | add => exact .inr (.inr (.inl ⟨(hr _ rfl).1, Function.update_self .., rfl⟩))
  | withdraw | take =>
      exact .inr (.inr (.inr (.inl ⟨(hr _ rfl).1, Function.update_self ..,
        by rintro (⟨_, ⟨⟩⟩ | ⟨_, ⟨⟩⟩)⟩)))
  | reap hmem =>
      exact .inr (.inr (.inr (.inl ⟨hlisted.1 hmem, Function.update_self ..,
        by rintro (⟨_, ⟨⟩⟩ | ⟨_, ⟨⟩⟩)⟩)))
  | discard =>
      refine .inr (.inr (.inr (.inr ⟨?_, Function.update_self ..⟩)))
      rcases (hr _ rfl).1 with hplace | hplace <;> rw [hplace] <;> exact nofun
  | reaped | yield =>
      refine .inr (.inr (.inr (.inr ⟨?_, Function.update_self ..⟩)))
      rw [(hr _ rfl).1]
      exact nofun
  | _ => exact .inl ⟨rfl, nofun, by rintro (⟨_, ⟨⟩⟩ | ⟨_, ⟨⟩⟩)⟩

theorem Turn.place_listed (h : Turn s g r e s' r') (hs : s.Ok) (hr : ∀ q ∈ r, q.Ok s g)
    (hplace : s'.place g = .none ∨ s'.place g = .allocated ∨ s'.place g = .registered) :
    (s.place g = .none ∨ s.place g = .allocated ∨ s.place g = .registered) ∧ ¬ e.Unlinks g := by
  rcases h.place_cases hs hr with
    ⟨hsame, he, -⟩ | ⟨hnone, -, he, -⟩ | ⟨hold, -, rfl⟩ | ⟨-, hnew, -⟩ |
    ⟨-, hnew⟩
  · rw [← hsame]
    exact ⟨hplace, he⟩
  · exact ⟨.inl hnone, he⟩
  · exact ⟨.inr (.inl hold), nofun⟩
  · rw [hnew] at hplace
    rcases hplace with hplace | hplace | hplace <;> cases hplace
  · rw [hnew] at hplace
    rcases hplace with hplace | hplace | hplace <;> cases hplace

theorem Turn.place_registered (h : Turn s g r e s' r') (hs : s.Ok) (hr : ∀ q ∈ r, q.Ok s g)
    (hplace : s'.place g = .registered) : s.place g = .registered ∨ e = .added g := by
  rcases h.place_cases hs hr with ⟨hsame, -⟩ | ⟨-, hnew, -⟩ | ⟨-, -, he⟩ | ⟨-, hnew, -⟩ | ⟨-, hnew⟩
  · exact .inl (hsame.symm.trans hplace)
  · exact nomatch hnew.symm.trans hplace
  · exact .inr he
  · exact nomatch hnew.symm.trans hplace
  · exact nomatch hnew.symm.trans hplace

theorem Turn.place_held (h : Turn s g r e s' r') (hs : s.Ok) (hr : ∀ q ∈ r, q.Ok s g)
    (hplace : s'.place g ≠ .freed) : s.place g ≠ .freed ∧ ¬ e.Frees g := by
  rcases h.place_cases hs hr with
    ⟨hsame, -, he⟩ | ⟨hnone, -, -, he⟩ | ⟨hold, -, rfl⟩ | ⟨hold, -, he⟩ |
    ⟨-, hnew⟩
  · rw [← hsame]
    exact ⟨hplace, he⟩
  · exact ⟨by rw [hnone]; exact nofun, he⟩
  · exact ⟨by rw [hold]; exact nofun, by rintro (⟨_, ⟨⟩⟩ | ⟨_, ⟨⟩⟩)⟩
  · exact ⟨by rw [hold]; exact nofun, he⟩
  · exact absurd hnew hplace

/-- What a turn does to what is stored in its record. -/
theorem Turn.record_cases (h : Turn s g r e s' r') (hs : s.Ok) (hr : ∀ q ∈ r, q.Ok s g) :
    (s.place g = .none ∧ s.thread g = .none ∧ ∃ d, e = .made g d ∧ (s'.record g).detached = d) ∨
      ((s'.place g = .none ↔ s.place g = .none) ∧ (s'.record g).ret = (s.record g).ret ∧
        ((s'.record g).detached = (s.record g).detached ∧ e ≠ .detaches g ∨
          s.place g ≠ .none ∧ (s'.record g).detached = true ∧ e = .detaches g)) := by
  have hlisted := (hs.records g).listed
  cases h with
  | alloc detached hplace hthread => exact .inl ⟨hplace, hthread, detached, rfl, by simp⟩
  | add | withdraw | take | discard | reaped | yield =>
      exact .inr ⟨iff_of_false (by simp) (hr _ rfl).place_ne, rfl, .inl ⟨rfl, nofun⟩⟩
  | reap hmem =>
      exact .inr ⟨iff_of_false (by simp) (by rw [hlisted.1 hmem]; exact nofun), rfl,
        .inl ⟨rfl, nofun⟩⟩
  | detach hmem =>
      exact .inr ⟨.rfl, by simp, .inr ⟨by rw [hlisted.1 hmem]; exact nofun, by simp, rfl⟩⟩
  | spawn | spawnNull | hold | release => exact .inr ⟨.rfl, by simp, .inl ⟨by simp, nofun⟩⟩
  | _ => exact .inr ⟨.rfl, rfl, .inl ⟨rfl, nofun⟩⟩

theorem Turn.detached_new (h : Turn s g r e s' r') (hs : s.Ok) (hr : ∀ q ∈ r, q.Ok s g)
    (hplace : s'.place g ≠ .none) (hdetached : (s'.record g).detached = true) :
    s.place g ≠ .none ∧ (s.record g).detached = true ∨ e = .made g true ∨ e = .detaches g := by
  rcases h.record_cases hs hr with ⟨-, -, d, rfl, hd⟩ | ⟨hsame, -, ⟨hflag, -⟩ | ⟨-, -, he⟩⟩
  · rw [← hd, hdetached]
    exact .inr (.inl rfl)
  · exact .inl ⟨fun hnone => hplace (hsame.2 hnone), hflag.symm.trans hdetached⟩
  · exact .inr (.inr he)

theorem Turn.detached_kept (h : Turn s g r e s' r') (hs : s.Ok) (hr : ∀ q ∈ r, q.Ok s g)
    (hdetached : s.place g ≠ .none ∧ (s.record g).detached = true ∨ e = .detaches g) :
    s'.place g ≠ .none ∧ (s'.record g).detached = true := by
  rcases h.record_cases hs hr with
    ⟨hnone, -, d, rfl, -⟩ | ⟨hsame, -, ⟨hflag, he⟩ | ⟨hold, hflag, -⟩⟩
  · rcases hdetached with ⟨hplace, -⟩ | he
    · exact absurd hnone hplace
    · cases he
  · obtain ⟨hplace, htrue⟩ := hdetached.resolve_right he
    exact ⟨fun hnone => hplace (hsame.1 hnone), hflag.trans htrue⟩
  · exact ⟨fun hnone => hold (hsame.1 hnone), hflag⟩

/-- What is told of the record of a turn. -/
theorem Turn.knownAt (h : Turn s g r e s' r') (hs : s.Ok) (hr : ∀ q ∈ r, q.Ok s g)
    (hdetached : e = .detached g → s.place g ≠ .none ∧ (s.record g).detached = true)
    (hknown : KnownAt trace s g) : KnownAt (trace ++ [(t, e)]) s' g where
  ended hended := seen_snoc.2 (.inl (hknown.ended (h.thread_ended hr hended)))
  unstarted hthread := by
    obtain ⟨hold, he⟩ := h.thread_unstarted hr hthread
    rw [seen_snoc]
    exact not_or.2 ⟨hknown.unstarted hold, he⟩
  listed hplace := by
    obtain ⟨hold, he⟩ := h.place_listed hs hr hplace
    rw [seen_snoc]
    exact not_or.2 ⟨hknown.listed hold, he⟩
  added hplace := seen_snoc.2 ((h.place_registered hs hr hplace).imp hknown.added id)
  held hplace := by
    obtain ⟨hold, he⟩ := h.place_held hs hr hplace
    rw [seen_snoc]
    exact not_or.2 ⟨hknown.held hold, he⟩
  detached hplace hflag := seen_snoc.2 ((h.detached_new hs hr hplace hflag).imp
    (fun hold => hknown.detached hold.1 hold.2) id)
  detaches hseen := by
    rcases seen_snoc.1 hseen with hold | he | he
    · exact h.detached_kept hs hr (.inl (hknown.detaches hold))
    · exact h.detached_kept hs hr (.inr he)
    · exact h.detached_kept hs hr (.inl (hdetached he))

/-- An event of a turn is about its record only. -/
theorem Turn.about {k : T} (h : Turn s g r e s' r') (hk : k ≠ g) : ¬ e.About k := by
  cases h <;> simp [Event.About, Event.Unlinks, Event.Frees, Ne.symm hk]

/-- What the thread of a record has stored stays. -/
theorem Turn.ret (h : Turn s g r e s' r') (hs : s.Ok) (hr : ∀ q ∈ r, q.Ok s g)
    (hthread : s.thread g ≠ .none) (hplace : s'.place g ≠ .none) :
    s.place g ≠ .none ∧ (s'.record g).ret = (s.record g).ret := by
  rcases h.record_cases hs hr with ⟨-, hnone, -⟩ | ⟨hsame, hret, -⟩
  · exact absurd hnone hthread
  · exact ⟨fun hnone => hplace (hsame.2 hnone), hret⟩

end

/-! ## What a trace tells of the threads -/

/-- What the trace tells of a thread at a stage. -/
def StageKnown (trace : List (T × Event T)) (s : Shared T) (t : T) : Stage T → Prop
  | .returned v => Seen (· = (t, .returned v)) trace
  | .exiting v _ => Seen (· = (t, .exited v)) trace
  | .stored => s.place t ≠ .none → Yielded trace t (s.record t).ret
  | .ended => s.place t ≠ .none → Yielded trace t (s.record t).ret
  | _ => True

/-- What the trace tells of the configuration. -/
structure Known (trace : List (T × Event T)) (c : Config T (Shared T) (Local T)) : Prop where
  records : ∀ g, KnownAt trace c.shared g
  stages : ∀ t, StageKnown trace c.shared t (c.locals t).stage
  detaching : ∀ t g, (c.locals t).call.detaching = some g → Seen (fun x => x.2 = .detaches g) trace
  reaped : ∀ t g, (c.locals t).call.role = some (g, .reaped) →
    Seen (· = (t, .unlinked g .reaper)) trace
  taken : ∀ t g v, (c.locals t).call.role = some (g, .taken v) →
    Seen (· = (t, .unlinked g .joiner)) trace

omit [DecidableEq T] in
theorem seen_grows {p : T × Event T → Prop} {trace : List (T × Event T)} {x : T × Event T}
    (h : Seen p trace) : Seen p (trace ++ [x]) := seen_snoc.2 (.inl h)

omit [DecidableEq T] in
theorem StageKnown.grows {trace : List (T × Event T)} {s s' : Shared T} {t : T} {stage : Stage T}
    {x : T × Event T} (h : StageKnown trace s t stage)
    (hret : stage.Ok s t → s.thread t ≠ .none → s'.place t ≠ .none →
      s.place t ≠ .none ∧ (s'.record t).ret = (s.record t).ret) (hstage : stage.Ok s t) :
    StageKnown (trace ++ [x]) s' t stage := by
  have hyield : s.thread t ≠ .none → (s.place t ≠ .none → Yielded trace t (s.record t).ret) →
      s'.place t ≠ .none → Yielded (trace ++ [x]) t (s'.record t).ret :=
        fun hthread hold hplace => by
    obtain ⟨hplace', hret'⟩ := hret hstage hthread hplace
    rw [hret']
    exact seen_grows (hold hplace')
  cases stage with
  | unborn => trivial
  | running => trivial
  | returned v => exact seen_grows h
  | exiting v g => exact seen_grows h
  | stored => exact hyield (by rw [show s.thread t = .started from hstage]; exact nofun) h
  | ended => exact hyield (by rw [show s.thread t = .ended from hstage]; exact nofun) h

section

variable {trace : List (T × Event T)} {s s' : Shared T} {t k : T} {e : Event T}
  {stage stage' : Stage T}

/-- A step of its own leaves the place of the record and its flags, and is about no record. -/
theorem StageTurn.leaves_record (h : StageTurn s t stage e s' stage') (hstage : stage.Ok s t) :
    s'.place t = s.place t ∧ (s'.record t).detached = (s.record t).detached ∧
      (s'.thread t = s.thread t ∨ s'.thread t = .ended ∧ e = .ended) ∧ ∀ k, ¬ e.About k := by
  cases h with
  | storesExited v g =>
      obtain rfl := hstage.2.1 g rfl
      simp [Event.About, Event.Unlinks, Event.Frees]
  | _ => simp [Event.About, Event.Unlinks, Event.Frees]

/-- What is told of a record in a step of its own of some thread. -/
theorem StageTurn.knownAt (h : StageTurn s t stage e s' stage') (hstage : stage.Ok s t)
    (hknown : KnownAt trace s k) : KnownAt (trace ++ [(t, e)]) s' k := by
  obtain ⟨hplace, hdetached, hthread, habout⟩ := h.leaves_record hstage
  by_cases hk : k = t
  · subst hk
    have hnot := habout k
    simp only [Event.About, not_or] at hnot
    obtain ⟨hstarted, hunlinks, hfrees, hdetaches, hdetached'⟩ := hnot
    constructor <;> simp only [hplace, hdetached, Detached, seen_snoc, hstarted, hunlinks, hfrees,
      hdetaches, hdetached', or_false, or_self]
    · rcases hthread with hthread | ⟨-, rfl⟩
      · rw [hthread]
        exact fun hended => .inl (hknown.ended hended)
      · exact fun _ => .inr rfl
    · rcases hthread with hthread | ⟨hthread, -⟩
      · rw [hthread]
        exact hknown.unstarted
      · rw [hthread]
        intro hold
        rcases hold with hold | hold <;> cases hold
    · exact hknown.listed
    · exact fun hg => .inl (hknown.added hg)
    · exact hknown.held
    · exact fun hg hg' => .inl (hknown.detached hg hg')
    · exact hknown.detaches
  · exact hknown.of_agree (h.agree hstage hk) (habout k)

/-- What is told of the thread that takes a step of its own. -/
theorem StageTurn.stageKnown (h : StageTurn s t stage e s' stage') (hstage : stage.Ok s t)
    (hknown : StageKnown trace s t stage) : StageKnown (trace ++ [(t, e)]) s' t stage' := by
  cases h with
  | born => trivial
  | returns v => exact seen_snoc.2 (.inr rfl)
  | exits v => exact seen_snoc.2 (.inr rfl)
  | storesReturned v =>
      intro _
      have hret : ((s.store t v).record t).ret = v := by simp
      rw [hret]
      exact seen_snoc.2 (.inl (hknown.imp fun x hx => ⟨hx.1, .inl hx.2⟩))
  | storesExited v g =>
      obtain rfl := hstage.2.1 g rfl
      intro _
      have hret : ((s.store g v).record g).ret = v := by simp
      rw [hret]
      exact seen_snoc.2 (.inl (hknown.imp fun x hx => ⟨hx.1, .inr hx.2⟩))
  | leaves v => exact fun hplace => absurd (hstage.2.2 hplace) nofun
  | ends => exact fun hplace => seen_grows (hknown hplace)

end

/-- What the trace tells stays true in every step. -/
theorem Known.step {trace : List (T × Event T)} {c d : Config T (Shared T) (Local T)} {t : T}
    {e : Event T} (hinv : Inv c) (hknown : Known trace c) (h : Step guestThreads c (t, e) d) :
    Known (trace ++ [(t, e)]) d := by
  obtain ⟨s', l', rfl, hself, hcases, hdetaching, hdetached⟩ := step_cases hinv h
  have hdetaching' : ∀ u g, ((c.set t s' l').locals u).call.detaching = some g →
      Seen (fun x => x.2 = .detaches g) (trace ++ [(t, e)]) := fun u g hg => by
    by_cases hu : u = t
    · subst hu
      rw [Config.set_locals_self] at hg
      exact seen_snoc.2 ((hdetaching g hg).imp (hknown.detaching u g) id)
    · rw [Config.set_locals_other c hu] at hg
      exact seen_grows (hknown.detaching u g hg)
  rcases hcases with ⟨g, r, r', hturn, hrole, hrole', hstage⟩ | ⟨hturn, hidle, hidle'⟩
  · have hr : ∀ q ∈ r, q.Ok c.shared g := fun q hq => hinv.roles t g q (by rw [hrole, hq]; rfl)
    -- a call that has detached a record set its flag before, and no step takes it back
    have hflag : e = .detached g → c.shared.place g ≠ .none ∧ (c.shared.record g).detached = true :=
      fun he => (hknown.records g).detaches
        ((hknown.detaching t g (hdetached g he)).imp fun x hx => ⟨hx.1, .inl hx.2⟩)
    refine ⟨fun k => ?_, fun u => ?_, hdetaching', fun u k hu => ?_, fun u k v hu => ?_⟩
    · by_cases hk : k = g
      · rw [hk]
        exact hturn.knownAt hinv.shared hr hflag (hknown.records g)
      · exact (hknown.records k).of_agree (hturn.agree hk) (hturn.about hk)
    · -- a turn of a call moves no thread through its stages
      have hold : ((c.set t s' l').locals u).stage = (c.locals u).stage := by
        by_cases hu : u = t
        · rw [hu, Config.set_locals_self, hstage]
        · rw [Config.set_locals_other c hu]
      rw [hold]
      refine (hknown.stages u).grows (fun _ hthread hplace => ?_) (hinv.stages u)
      by_cases hu : u = g
      · subst hu
        exact hturn.ret hinv.shared hr hthread hplace
      · have hagree := hturn.agree hu
        exact ⟨hagree.place ▸ hplace, by
          rw [show (c.set t s' l').shared = s' from rfl, hagree.record]⟩
    · by_cases hut : u = t
      · subst hut
        rw [Config.set_locals_self, hrole'] at hu
        obtain ⟨q, hq, heq⟩ := Option.map_eq_some_iff.1 hu
        cases heq
        cases hturn <;> cases hq
        · exact seen_grows (hknown.reaped u g hrole)
        · exact seen_snoc.2 (.inr rfl)
        · exact seen_grows (hknown.reaped u g hrole)
      · rw [Config.set_locals_other c hut] at hu
        exact seen_grows (hknown.reaped u k hu)
    · by_cases hut : u = t
      · subst hut
        rw [Config.set_locals_self, hrole'] at hu
        obtain ⟨q, hq, heq⟩ := Option.map_eq_some_iff.1 hu
        cases heq
        cases hturn <;> cases hq
        · exact seen_grows (hknown.taken u g v hrole)
        · exact seen_snoc.2 (.inr rfl)
        · exact seen_grows (hknown.taken u g v hrole)
      · rw [Config.set_locals_other c hut] at hu
        exact seen_grows (hknown.taken u k v hu)
  · -- a step of the thread's own life is in no call
    have hold : ∀ u, ((c.set t s' l').locals u).call.role = (c.locals u).call.role := fun u => by
      by_cases hu : u = t
      · rw [hu, Config.set_locals_self, hidle, hidle']
      · rw [Config.set_locals_other c hu]
    refine ⟨fun k => hturn.knownAt (hinv.stages t) (hknown.records k), fun u => ?_, hdetaching',
      fun u k hu => ?_, fun u k v hu => ?_⟩
    · by_cases hu : u = t
      · subst hu
        rw [Config.set_locals_self]
        exact hturn.stageKnown (hinv.stages u) (hknown.stages u)
      · rw [Config.set_locals_other c hu]
        refine (hknown.stages u).grows (fun _ _ hplace => ?_) (hinv.stages u)
        have hagree := hturn.agree (hinv.stages t) hu
        exact ⟨hagree.place ▸ hplace, by
          rw [show (c.set t s' l').shared = s' from rfl, hagree.record]⟩
    · rw [hold] at hu
      exact seen_grows (hknown.reaped u k hu)
    · rw [hold] at hu
      exact seen_grows (hknown.taken u k v hu)

/-! ## Runs -/

/-- A step in which `bionic_pthread_create` does not take away a record that a join waits for. -/
def Orderly (c : Config T (Shared T) (Local T)) (label : T × Event T)
    (d : Config T (Shared T) (Local T)) : Prop :=
  Step guestThreads c label d ∧
    ∀ g, label.2 = .unlinked g .creator → (c.shared.record g).joining = false

/-- What a join waits for is in the list. -/
def Waiting (c : Config T (Shared T) (Local T)) : Prop :=
  ∀ t g, (c.locals t).call.role = some (g, .waits) → c.shared.place g = .registered

/-- It stays there. -/
theorem Waiting.step {c d : Config T (Shared T) (Local T)} {t : T} {e : Event T} (hinv : Inv c)
    (hwaiting : Waiting c) (h : Orderly c (t, e) d) : Waiting d := by
  obtain ⟨hstep, horderly⟩ := h
  obtain ⟨s', l', rfl, hself, hcases, -⟩ := step_cases hinv hstep
  intro u k hu
  rcases hcases with ⟨g, r, r', hturn, hrole, hrole', -⟩ | ⟨hturn, hidle, hidle'⟩
  · by_cases hut : u = t
    · subst hut
      rw [Config.set_locals_self, hrole'] at hu
      obtain ⟨q, hq, heq⟩ := Option.map_eq_some_iff.1 hu
      cases heq
      cases hturn <;> cases hq
      · rename_i hmem _ _
        exact (hinv.shared.records k).listed.1 hmem
      · exact hwaiting u k hrole
    · rw [Config.set_locals_other c hut] at hu
      have hplace := hwaiting u k hu
      by_cases hk : k = g
      · subst hk
        -- a record that is waited for is being joined, and not detached
        have hjoining : (c.shared.record k).joining = true := by
          rcases hinv.roles u k _ hu with h | h
          · exact h.2.1
          · rw [hplace] at h
            exact absurd h.1 (not_or.2 ⟨nofun, nofun⟩)
        have hother : ∀ q ∈ r, q.side ≠ some .taker := fun q hq hside =>
          hut (hinv.unique u t k .waits q hu (by rw [hrole, hq]; rfl) hside.symm nofun)
        have hr : ∀ q ∈ r, q.Ok c.shared k := fun q hq => hinv.roles t k q (by rw [hrole, hq]; rfl)
        show s'.place k = .registered
        cases hturn with
        | alloc _ hnone => exact nomatch hnone.symm.trans hplace
        | add => exact Function.update_self ..
        | withdraw => exact nomatch (horderly k rfl).symm.trans hjoining
        | discard => exact absurd hplace (hr _ rfl).abandoned.1
        | reap _ _ hfree => exact nomatch hfree.symm.trans hjoining
        | take | reaped | yield => exact absurd rfl (hother _ rfl)
        | _ => exact hplace
      · show s'.place k = .registered
        rw [(hturn.agree hk).place]
        exact hplace
  · have hold : ((c.set t s' l').locals u).call.role = (c.locals u).call.role := by
      by_cases hut : u = t
      · rw [hut, Config.set_locals_self, hidle, hidle']
      · rw [Config.set_locals_other c hut]
    rw [hold] at hu
    have hplace := hwaiting u k hu
    show s'.place k = .registered
    by_cases hk : k = t
    · subst hk
      rw [(hturn.leaves_record (hinv.stages k)).1]
      exact hplace
    · rw [(hturn.agree (hinv.stages t) hk).place]
      exact hplace

/-- Every event is as it should be. -/
theorem Known.kept {trace : List (T × Event T)} {c d : Config T (Shared T) (Local T)} {t : T}
    {e : Event T} (hinv : Inv c) (hknown : Known trace c) (hwaiting : Waiting c)
    (h : Step guestThreads c (t, e) d) : Kept trace (t, e) := by
  obtain ⟨s', l', rfl, hself, ⟨g, r, r', hturn, hrole, hrole', -⟩ | ⟨hturn, -⟩, -⟩ :=
    step_cases hinv h
  · have hr : ∀ q ∈ r, q.Ok c.shared g := fun q hq => hinv.roles t g q (by rw [hrole, hq]; rfl)
    have hrecord := hknown.records g
    have hregistered : c.shared.place g = .registered → Registered trace g := fun hplace =>
      ⟨hrecord.added hplace, hrecord.listed (.inr (.inr hplace))⟩
    have hlisted := (hinv.shared.records g).listed
    cases hturn with
    | start =>
        have hplace := (hr _ rfl).1
        exact ⟨hregistered hplace, hrecord.held (by rw [hplace]; exact nofun)⟩
    | withdraw =>
        obtain ⟨hplace, hthread⟩ := hr _ rfl
        exact ⟨(hregistered hplace).2, hrecord.unstarted (.inr hthread)⟩
    | reap hmem hdetached _ hended =>
        have hplace := hlisted.1 hmem
        exact ⟨(hregistered hplace).2, hrecord.ended hended,
          hrecord.detached (by rw [hplace]; exact nofun) hdetached⟩
    | take v =>
        obtain ⟨hplace, -, -, hended, -⟩ := hr _ rfl
        exact ⟨(hregistered hplace).2, hrecord.ended hended⟩
    | discard =>
        obtain ⟨hplace, hthread⟩ := hr _ rfl
        refine ⟨hrecord.held ?_, .inl ⟨rfl, hrecord.unstarted hthread⟩⟩
        rcases hplace with hplace | hplace <;> rw [hplace] <;> exact nofun
    | reaped =>
        obtain ⟨hplace, -⟩ := hr _ rfl
        exact ⟨hrecord.held (by rw [hplace]; exact nofun), .inr (hknown.reaped t g hrole)⟩
    | yield v =>
        obtain ⟨hplace, -, hdetached, hended, hv⟩ := hr _ rfl
        refine ⟨hrecord.held (by rw [hplace]; exact nofun), hknown.taken t g v hrole,
          fun w hw => ?_,
          fun hseen => ?_⟩
        · rw [hv w hw]
          -- a thread that has ended is at its last stage
          have hstage := hinv.stages g
          have hstory := hknown.stages g
          cases hlast : (c.locals g).stage with
          | ended =>
              rw [hlast] at hstory
              exact hstory (by rw [hplace]; exact nofun)
          | _ => simp_all [Stage.Ok]
        · have hflag := (hrecord.detaches (hseen.imp fun x hx => ⟨hx.1, .inr hx.2⟩)).2
          rw [hdetached] at hflag
          cases hflag
    | release => exact hregistered (hwaiting t g hrole)
    | refuseJoin hmem => exact hregistered (hlisted.1 hmem)
    | refuseDetach hmem => exact hregistered (hlisted.1 hmem)
    | _ => trivial
  · generalize (c.locals t).stage = stage at hturn
    generalize l'.stage = stage' at hturn
    cases hturn <;> trivial

/-- At the start the trace has nothing to tell. -/
theorem Initial.known {c : Config T (Shared T) (Local T)} (h : Initial c) : Known [] c where
  records g := {
    ended := fun hended => by
      by_cases hg : g ∈ c.shared.opened
      · rw [(h.foreign g hg).1] at hended
        cases hended
      · rw [(h.others g hg).1] at hended
        cases hended
    unstarted := fun _ => not_seen_nil
    listed := fun _ => not_seen_nil
    added := fun hplace => by
      rw [h.places] at hplace
      cases hplace
    held := fun _ => not_seen_nil
    detached := fun hplace => absurd (h.places g) hplace
    detaches := fun hseen => absurd hseen not_seen_nil }
  stages t := by
    by_cases ht : t ∈ c.shared.opened
    · rw [(h.foreign t ht).2]
      trivial
    · rw [(h.others t ht).2]
      trivial
  detaching t g hg := by
    rw [h.idle] at hg
    cases hg
  reaped t g hg := by
    rw [h.idle] at hg
    cases hg
  taken t g v hg := by
    rw [h.idle] at hg
    cases hg

/-- In every run in which no create takes away a record that a join waits for, every event is as it
should be. -/
theorem lifecycle {c d : Config T (Shared T) (Local T)} {trace : List (T × Event T)}
    (hinit : Initial c)
    (h : Run Orderly c trace d) : Always Kept trace := by
  have hall : Always Kept trace ∧ Inv d ∧ Known trace d ∧ Waiting d := by
    refine h.invariant_trace
      (I := fun trace d => Always Kept trace ∧ Inv d ∧ Known trace d ∧ Waiting d)
      ⟨always_nil, hinit.inv, hinit.known, fun t g ht => ?_⟩ ?_
    · rw [hinit.idle] at ht
      cases ht
    · rintro trace c ⟨t, e⟩ d ⟨hkept, hinv, hknown, hwaiting⟩ hstep
      exact ⟨always_snoc hkept (hknown.kept hinv hwaiting hstep.1), hinv.step hstep.1,
        hknown.step hinv hstep.1, hwaiting.step hinv hstep⟩
  exact hall.1

/-! ## Two runs -/

/-- One thread, which these functions have not made. -/
def mainOnly : Config Bool (Shared Bool) (Local Bool) where
  shared := {
    guestThreads := []
    record := fun _ => GuestThread.zero
    place := fun _ => .none
    thread := fun t => if t then .none else .started
    handle := fun _ => 1
    opened := [false] }
  locals t := ⟨t, if t then .unborn else .running, .idle⟩

theorem initial_mainOnly : Initial mainOnly where
  self _ := rfl
  idle _ := rfl
  empty := rfl
  places _ := rfl
  foreign t ht := by
    obtain rfl := List.mem_singleton.1 ht
    exact ⟨rfl, rfl⟩
  others t ht := by
    cases t
    · exact absurd (List.mem_singleton.2 rfl) ht
    · exact ⟨rfl, rfl⟩
  handles := List.nodup_singleton _

/-- A choice in which everything succeeds. -/
def choose (request : Request) : Choice Bool := ⟨request, fun _ => true, true, true, 2⟩

/-- The create of another thread up to `threadStart`. -/
def creation : List (Bool × Choice Bool) :=
  (false, choose (.create true false)) :: List.replicate 4 (false, choose (.detach 0))

/-- The other thread is created, returns 7 and ends, and is joined. -/
def joining : List (Bool × Choice Bool) :=
  creation ++ [(false, choose (.detach 0)), (false, choose (.detach 0)), (true, choose (.detach 0)),
    (true, choose (.finish 7)), (true, choose (.finish 0)), (true, choose (.detach 0)),
    (false, choose (.join 2 true))] ++ List.replicate 7 (false, choose (.detach 0))

theorem lifecycle_example : ∃ trace d, Run Orderly mainOnly trace d ∧
    (false, .joined true (some 7)) ∈ trace ∧ Always Kept trace := by
  have hrun : (guestThreads.execIf (fun c label =>
      decide (∀ g, label.2 = .unlinked g .creator → (c.shared.record g).joining = false))
      mainOnly joining).any (fun r => decide ((false, .joined true (some 7)) ∈ r.1)) = true := by
    decide
  obtain ⟨⟨trace, d⟩, hexec, hmem⟩ := (Option.any_eq_true _ _).1 hrun
  have horderly : Run Orderly mainOnly trace d := (Program.exec_if_run hexec).mono
    fun _ _ _ h => ⟨h.1, of_decide_eq_true h.2⟩
  exact ⟨trace, d, horderly, of_decide_eq_true hmem, lifecycle initial_mainOnly horderly⟩

/-- A record is taken away after its thread has ended only. -/
def AfterEnd (before : List (T × Event T)) : T × Event T → Prop
  | (_, .unlinked g _) => Seen (· = (g, .ended)) before
  | (_, .freed g _) => Seen (· = (g, .ended)) before
  | _ => True

/-- Where `threadStart` fails the record is taken away, and its thread does not end. -/
theorem unstarted_record_removed : ¬ ∀ c : Config Bool (Shared Bool) (Local Bool), Initial c →
    ∀ trace d, Run (Step guestThreads) c trace d → Always AfterEnd trace := by
  intro h
  have hrun : (guestThreads.exec mainOnly (creation ++ [(false, { choose (.detach 0) with
      succeeds := false }), (false, choose (.detach 0))])).any (fun r => decide (r.1 =
        [(false, .inner), (false, .inner), (false, .made true false), (false, .inner),
          (false, .added true), (false, .inner)] ++ [(false, .unlinked true .creator)])) =
            true := by
    decide
  obtain ⟨trace, d, hrun, htrace⟩ := Program.exec_test hrun
  obtain ⟨x, hx, rfl⟩ := h _ initial_mainOnly trace d hrun _ (false, .unlinked true .creator) []
    (of_decide_eq_true htrace)
  simp at hx

end Asnx.Bionic.Pthread
