import Asnx.Library.Holding
import Asnx.Unity.Clock

/-!
# The time that Unity sees

The update body runs on the threads of the game and on the clock thread, one at a time, and the
times that it is given do not go back (`unity_time_goes_on`). Frames of one clock thread are 16 ms
apart, and a clock thread that has been stopped does nothing.
-/

namespace Asnx.Unity.Clock

open Threads Holding

variable {G : Type*}

/-! ## What a step can do -/

/-- The steps of a thread. -/
inductive Move (r : Role G) (s : Shared G) : Place → Event → Shared G → Place → Prop where
  | call (tm : Pointer) : Move r s .outside .inner s (.manager tm)
  | manager (tm : Pointer) : Move r s (.manager tm) .inner { s with gTimeManager := tm }
    (.lastTick tm)
  | lastTick (tm : Pointer) (now : Time) (hnow : s.monotonic ≤ now) :
      Move r s (.lastTick tm) .inner { s with monotonic := now } (.setLastTick tm now)
  | setLastTick (tm : Pointer) (now : Time) :
      Move r s (.setLastTick tm now) .inner { s with gLastMainTickNs := now } (.counts tm)
  | counts (tm : Pointer) : Move r s (.counts tm) .inner s (.pause tm)
  | paused (tm : Pointer) : Move r s (.pause tm) .inner s .outside
  | unpaused (tm : Pointer) : Move r s (.pause tm) .inner s (.lock tm)
  | lock (tm : Pointer) (hfree : s.gClockLock = none) :
      Move r s (.lock tm) .inner { s with gClockLock := some r } (.tick tm none .now)
  | tickNow (tm : Pointer) (lc : Option Time) (now : Time) (hnow : s.monotonic ≤ now) :
      Move r s (.tick tm lc .now) .inner { s with monotonic := now } (.tick tm lc (.base now))
  | noBase (tm : Pointer) (lc : Option Time) (now : Time) (hbase : s.gClockBaseNs = 0) :
      Move r s (.tick tm lc (.base now)) .inner s (.tick tm lc (.setBase now))
  | hasBase (tm : Pointer) (lc : Option Time) (now : Time) (hbase : s.gClockBaseNs ≠ 0) :
      Move r s (.tick tm lc (.base now)) .inner s (.tick tm lc (.wall now))
  | setBase (tm : Pointer) (lc : Option Time) (now : Time) :
      Move r s (.tick tm lc (.setBase now)) .inner { s with gClockBaseNs := now }
        (.tick tm lc (.wall now))
  | wall (tm : Pointer) (lc : Option Time) (now : Time) :
      Move r s (.tick tm lc (.wall now)) (.updateBody tm (now - s.gClockBaseNs)) s
        (.tick tm lc .body)
  | noBody (tm : Pointer) (lc : Option Time) (now : Time) :
    Move r s (.tick tm lc (.wall now)) .inner s (.tick tm lc .unlock)
  | body (tm : Pointer) (lc : Option Time) : Move r s (.tick tm lc .body) .inner s
    (.tick tm lc .unlock)
  | unlock (tm : Pointer) (lc : Option Time) :
      Move r s (.tick tm lc .unlock) .inner { s with gClockLock := none } (afterTick lc)
  | begins (hthread : s.gClockThread = .started) :
      Move r s .asleep .begins { s with gClockThread := .running } (.loop 0)
  | exits (lc : Time) : Move r s (.loop lc) .inner { s with gClockThread := .exited } .asleep
  | goesOn (lc : Time) : Move r s (.loop lc) .inner s (.sleep lc)
  | sleep (lc : Time) : Move r s (.sleep lc) .inner s (.vsync lc)
  | vsync (lc : Time) : Move r s (.vsync lc) .inner { s with gVsyncCounter := s.gVsyncCounter + 1 }
    (.readTime lc)
  | readTime (lc now : Time) (hnow : s.monotonic ≤ now) :
      Move r s (.readTime lc) .inner { s with monotonic := now } (.choreo lc now)
  | choreographer (lc now : Time) (hlast : 16000000 ≤ now - lc) :
      Move r s (.choreo lc now) (.choreographer now) s (.getManager now now)
  | noChoreographer (lc now : Time) : Move r s (.choreo lc now) .inner s (.getManager lc now)
  | getManager (lc now : Time) (tm : Pointer) : Move r s (.getManager lc now) .inner s
    (.hasTicked lc now tm)
  | noManager (lc now : Time) : Move r s (.getManager lc now) .inner s (.loop lc)
  | hasTicked (lc now : Time) (tm : Pointer) : Move r s (.hasTicked lc now tm) .inner s
    (.stale lc now tm)
  | notTicked (lc now : Time) (tm : Pointer) : Move r s (.hasTicked lc now tm) .inner s (.loop lc)
  | stale (lc now : Time) (tm : Pointer) : Move r s (.stale lc now tm) .inner s (.tryLock lc tm)
  | notStale (lc now : Time) (tm : Pointer) : Move r s (.stale lc now tm) .inner s (.loop lc)
  | tryLock (lc : Time) (tm : Pointer) (hfree : s.gClockLock = none) :
      Move r s (.tryLock lc tm) .inner { s with gClockLock := some r } (.tick tm (some lc) .now)
  | locked (lc : Time) (tm : Pointer) : Move r s (.tryLock lc tm) .inner s (.loop lc)
  | starts (hstarted : s.gStarted = false) : Move r s .control .inner s .startStop
  | stops (hstarted : s.gStarted = true) : Move r s .control .inner s .stopSet
  | stays : Move r s .control .inner s .control
  | startStop : Move r s .startStop .inner { s with gStop := false } .startCreate
  | created : Move r s .startCreate .inner { s with gClockThread := .created } .startRun
  | notCreated : Move r s .startCreate .inner s .control
  | run : Move r s .startRun .inner { s with gClockThread := .started } .startMark
  | notRun : Move r s .startRun .inner { s with gClockThread := .closed } .control
  | startMark : Move r s .startMark .inner { s with gStarted := true } .control
  | stopSet : Move r s .stopSet .inner { s with gStop := true } .stopWait
  | stopWait (hthread : s.gClockThread = .exited) : Move r s .stopWait .inner s .stopClose
  | stopClose : Move r s .stopClose .inner { s with gClockThread := .closed } .stopMark
  | stopMark : Move r s .stopMark .inner { s with gStarted := false } .control

variable {s s' : Shared G} {t t' : Thread G} {e : Event} {x : Choice} {installed updateBody : Bool}

/-- An answer of `clock_gettime`. -/
theorem nowNs_eq {p : Time → Place} (h : nowNs x s t p = some (e, s', t')) : s.monotonic ≤
    x.time ∧ e = .inner ∧
    s' = { s with monotonic := x.time } ∧ t' = { t with place := p x.time } := by
  unfold nowNs move at h
  split at h
  · rename_i hnow
    cases h
    exact ⟨hnow, rfl, rfl, rfl⟩
  · cases h

theorem lockStep_eq {p : Place} (h : lockStep s t p = some (e, s', t')) : s.gClockLock =
    none ∧ e = .inner ∧
    s' = { s with gClockLock := some t.self } ∧ t' = { t with place := p } := by
  unfold lockStep move at h
  split at h
  · rename_i hfree
    cases h
    exact ⟨hfree, rfl, rfl, rfl⟩
  · cases h

theorem tickStep_move {tm : Pointer} {lc : Option Time} {p : Tick}
    (h : tickStep updateBody x s t tm lc p = some (e, s', t')) :
    Move t.self s (.tick tm lc p) e s' t'.place ∧ t'.self = t.self := by
  unfold tickStep move at h
  cases p with
  | now =>
      obtain ⟨hnow, rfl, rfl, rfl⟩ := nowNs_eq h
      exact ⟨.tickNow tm lc _ hnow, rfl⟩
  | base now =>
      dsimp only at h
      split at h
      · rename_i hbase
        cases h
        exact ⟨.noBase tm lc now hbase, rfl⟩
      · rename_i hbase
        cases h
        exact ⟨.hasBase tm lc now hbase, rfl⟩
  | setBase now =>
      cases h
      exact ⟨.setBase tm lc now, rfl⟩
  | wall now =>
      dsimp only at h
      split at h
      · cases h
        exact ⟨.wall tm lc now, rfl⟩
      · cases h
        exact ⟨.noBody tm lc now, rfl⟩
  | body =>
      cases h
      exact ⟨.body tm lc, rfl⟩
  | unlock =>
      cases h
      exact ⟨.unlock tm lc, rfl⟩

theorem requestStep_move {q : Request} (h : requestStep installed s t q = some (e, s', t')) :
    Move t.self s .control e s' t'.place ∧ t'.self = t.self := by
  unfold requestStep move at h
  cases q with
  | hook tm => cases h
  | start =>
      dsimp only at h
      split at h
      · rename_i hstarted
        cases h
        exact ⟨.starts hstarted.1, rfl⟩
      · cases h
        exact ⟨.stays, rfl⟩
  | stop =>
      dsimp only at h
      split at h
      · rename_i hstarted
        cases h
        exact ⟨.stops hstarted, rfl⟩
      · cases h
        exact ⟨.stays, rfl⟩

/-- A step of the program is one of these. -/
theorem next_move (h : clockNext installed updateBody x s t = some (e, s', t')) :
    Move t.self s t.place e s' t'.place ∧ t'.self = t.self := by
  obtain ⟨self, place⟩ := t
  unfold clockNext move at h
  dsimp only at h ⊢
  cases place with
  | outside =>
      dsimp only at h
      split at h <;> cases h
      exact ⟨.call _, rfl⟩
  | manager tm =>
      cases h
      exact ⟨.manager tm, rfl⟩
  -- a frame: the game calls, the tick of the frame, and the lock around it
  | lastTick tm =>
      obtain ⟨hnow, rfl, rfl, rfl⟩ := nowNs_eq h
      exact ⟨.lastTick tm _ hnow, rfl⟩
  | setLastTick tm now =>
      cases h
      exact ⟨.setLastTick tm now, rfl⟩
  | counts tm =>
      cases h
      exact ⟨.counts tm, rfl⟩
  | pause tm =>
      dsimp only at h
      split at h <;> cases h
      exacts [⟨.paused tm, rfl⟩, ⟨.unpaused tm, rfl⟩]
  | lock tm =>
      obtain ⟨hfree, rfl, rfl, rfl⟩ := lockStep_eq h
      exact ⟨.lock tm hfree, rfl⟩
  | tick tm lc p => exact tickStep_move h
  -- the loop of the clock thread
  | asleep =>
      dsimp only at h
      split at h
      · rename_i hthread
        cases h
        exact ⟨.begins hthread, rfl⟩
      · cases h
  | loop lc =>
      dsimp only at h
      split at h <;> cases h
      exacts [⟨.exits lc, rfl⟩, ⟨.goesOn lc, rfl⟩]
  | sleep lc =>
      cases h
      exact ⟨.sleep lc, rfl⟩
  | vsync lc =>
      cases h
      exact ⟨.vsync lc, rfl⟩
  | readTime lc =>
      obtain ⟨hnow, rfl, rfl, rfl⟩ := nowNs_eq h
      exact ⟨.readTime lc _ hnow, rfl⟩
  | choreo lc now =>
      dsimp only at h
      split at h
      · rename_i hlast
        cases h
        exact ⟨.choreographer lc now hlast, rfl⟩
      · cases h
        exact ⟨.noChoreographer lc now, rfl⟩
  | getManager lc now =>
      dsimp only at h
      split at h <;> cases h
      exacts [⟨.getManager lc now _, rfl⟩, ⟨.noManager lc now, rfl⟩]
  | hasTicked lc now tm =>
      dsimp only at h
      split at h <;> cases h
      exacts [⟨.hasTicked lc now tm, rfl⟩, ⟨.notTicked lc now tm, rfl⟩]
  | stale lc now tm =>
      dsimp only at h
      split at h <;> cases h
      exacts [⟨.stale lc now tm, rfl⟩, ⟨.notStale lc now tm, rfl⟩]
  | tryLock lc tm =>
      dsimp only at h
      split at h
      · obtain ⟨hfree, rfl, rfl, rfl⟩ := lockStep_eq h
        exact ⟨.tryLock lc tm hfree, rfl⟩
      · cases h
        exact ⟨.locked lc tm, rfl⟩
  -- the thread that starts and stops the clock
  | control => exact requestStep_move h
  | startStop =>
      cases h
      exact ⟨.startStop, rfl⟩
  | startCreate =>
      dsimp only at h
      split at h <;> cases h
      exacts [⟨.created, rfl⟩, ⟨.notCreated, rfl⟩]
  | startRun =>
      dsimp only at h
      split at h <;> cases h
      exacts [⟨.run, rfl⟩, ⟨.notRun, rfl⟩]
  | startMark =>
      cases h
      exact ⟨.startMark, rfl⟩
  | stopSet =>
      cases h
      exact ⟨.stopSet, rfl⟩
  | stopWait =>
      dsimp only at h
      split at h
      · rename_i hthread
        cases h
        exact ⟨.stopWait hthread, rfl⟩
      · cases h
  | stopClose =>
      cases h
      exact ⟨.stopClose, rfl⟩
  | stopMark =>
      cases h
      exact ⟨.stopMark, rfl⟩

/-! ## Places -/

/-- Where the threads are. -/
def places (c : Config (Role G) (Shared G) (Thread G)) : Role G → Place := fun r =>
    (c.locals r).place

/-- Each thread knows which one it is. -/
def Selves (c : Config (Role G) (Shared G) (Thread G)) : Prop := ∀ r, (c.locals r).self = r

/-- The clock thread. -/
def Place.onClock : Place → Bool
  | .tick _ lastChoreo _ => lastChoreo.isSome
  | .asleep | .loop _ | .sleep _ | .vsync _ | .readTime _ | .choreo _ _ | .getManager _
    _ | .hasTicked _ _ _
  | .stale _ _ _ | .tryLock _ _ => true
  | _ => false

/-- The thread that starts and stops it. -/
def Place.onControl : Place → Bool
  | .control | .startStop | .startCreate | .startRun | .startMark | .stopSet | .stopWait |
    .stopClose | .stopMark =>
    true
  | _ => false

/-- The thread has the lock of the clock. -/
def Place.holds : Place → Bool
  | .tick _ _ _ => true
  | _ => false

/-- The `last_choreo` of the clock thread. -/
def Place.lastChoreo : Place → Option Time
  | .tick _ lastChoreo _ => lastChoreo
  | .loop lc | .sleep lc | .vsync lc | .readTime lc | .choreo lc _ | .getManager lc
    _ | .hasTicked lc _ _
  | .stale lc _ _ | .tryLock lc _ => some lc
  | _ => none

variable {p p' : Place} {r u : Role G} {c d : Config (Role G) (Shared G) (Thread G)}
    {trace : List (Role G × Event)}

/-- A thread goes on as what it is. -/
theorem Move.kind (h : Move r s p e s' p') : p'.onClock = p.onClock ∧
    p'.onControl = p.onControl := by
  cases h with
  | unlock tm lc => cases lc <;> exact ⟨rfl, rfl⟩
  | _ => exact ⟨rfl, rfl⟩

theorem Place.onClock_of_lastChoreo {lc : Time} (h : p.lastChoreo = some lc) :
    p.onClock = true := by
  cases p <;> simp_all [Place.lastChoreo, Place.onClock]

variable [DecidableEq G]

/-- A step of the program moves one thread. -/
theorem step_move (hself : Selves c) (h : Step (clockProgram installed updateBody) c (r, e) d) :
    ∃ p', Move r c.shared (places c r) e d.shared p' ∧ places d = Function.update (places c) r p' ∧
      Selves d := by
  cases h with
  | @mk _ x _ s l hnext =>
      obtain ⟨hmove, hkept⟩ := next_move hnext
      rw [hself r] at hmove hkept
      refine ⟨l.place, hmove, ?_, fun u => ?_⟩
      · funext u
        by_cases hu : u = r
        · subst hu
          simp [places]
        · simp [places, hu, Config.set_locals_other]
      · by_cases hu : u = r
        · subst hu
          rw [Config.set_locals_self]
          exact hkept
        · rw [Config.set_locals_other _ hu]
          exact hself u

/-- Who is where, and who has the lock. -/
structure Placed (c : Config (Role G) (Shared G) (Thread G)) : Prop where
  selves : Selves c
  clock : ∀ r, (places c r).onClock = r.place.onClock
  control : ∀ r, (places c r).onControl = r.place.onControl
  lock : Held c.shared.gClockLock fun r => (places c r).holds

omit [DecidableEq G] in
theorem placed_start {monotonic : Time} : Placed (start monotonic : Config (Role G) _ _) := by
  refine ⟨fun _ => rfl, fun _ => rfl, fun _ => rfl, fun r => ?_⟩
  cases r <;> exact ⟨nofun, nofun⟩

/-- What a move does to the lock. -/
theorem Move.held (h : Move r s p e s' p') {at' : Role G → Place} (hp : at' r = p)
    (hheld : Held s.gClockLock fun u => (at' u).holds) :
    Held s'.gClockLock fun u => (Function.update at' r p' u).holds := by
  subst hp
  generalize hp : at' r = p at h
  cases h with
  | lock tm hfree => exact (hfree ▸ hheld).take (f := Place.holds) rfl
  | tryLock lc tm hfree => exact (hfree ▸ hheld).take (f := Place.holds) rfl
  | unlock tm lc =>
      refine hheld.free (f := Place.holds) (congrArg Place.holds hp) ?_
      cases lc <;> rfl
  | _ => exact hheld.keep (f := Place.holds) (congrArg Place.holds hp).symm

theorem Placed.step (h : Placed c) (hstep : Step (clockProgram installed updateBody) c (r, e) d) :
    Placed d := by
  obtain ⟨p', hmove, hplaces, hselves⟩ := step_move h.selves hstep
  refine ⟨hselves, fun u => ?_, fun u => ?_, ?_⟩
  · by_cases hu : u = r
    · subst hu
      rw [hplaces, Function.update_self, hmove.kind.1, h.clock]
    · rw [hplaces, Function.update_of_ne hu, h.clock]
  · by_cases hu : u = r
    · subst hu
      rw [hplaces, Function.update_self, hmove.kind.2, h.control]
    · rw [hplaces, Function.update_of_ne hu, h.control]
  · rw [hplaces]
    exact hmove.held rfl h.lock

/-! ## The times that the update body is given -/

/-- What an event gives the update body. -/
def Event.elapsed : Event → Option Nat
  | .updateBody _ elapsed => some elapsed.toNat
  | _ => none

/-- The times that the update body has been given, in order. -/
def elapsedOf (trace : List (Role G × Event)) : List Nat := trace.filterMap fun e => e.2.elapsed

omit [DecidableEq G] in
theorem elapsedOf_snoc : elapsedOf (trace ++ [(r, e)]) = elapsedOf trace ++ e.elapsed.toList := by
  rw [elapsedOf, List.filterMap_append]
  cases h : e.elapsed <;> simp [h, elapsedOf]

/-- The time that a thread has read in `clock_tick`. -/
def Tick.read : Tick → Option Time
  | .base t | .setBase t | .wall t => some t
  | _ => none

/-- What is known in `clock_tick` about the time that has been read. -/
structure TickFact (s : Shared G) (times : List Nat) (q : Tick) : Prop where
  read : ∀ now, q.read = some now → now.toNat ≤ s.monotonic.toNat ∧
    s.gClockBaseNs.toNat ≤ now.toNat ∧
    ∀ n ∈ times, s.gClockBaseNs.toNat + n ≤ now.toNat
  setBase : ∀ now, q = .setBase now → s.gClockBaseNs = 0
  wall : ∀ now, q = .wall now → s.gClockBaseNs = 0 → now = 0

/-- The times do not go back, and lie between the base and now. -/
structure Timely (trace : List (Role G × Event)) (s : Shared G) (at' : Role G → Place) : Prop where
  sorted : (elapsedOf trace).Pairwise (· ≤ ·)
  zero : s.gClockBaseNs = 0 → ∀ n ∈ elapsedOf trace, n = 0
  base : s.gClockBaseNs.toNat ≤ s.monotonic.toNat
  past : ∀ n ∈ elapsedOf trace, s.gClockBaseNs.toNat + n ≤ s.monotonic.toNat
  ticks : ∀ r tm lc q, at' r = .tick tm lc q → TickFact s (elapsedOf trace) q

variable {at' : Role G → Place} {times : List Nat} {q : Tick}

omit [DecidableEq G] in
theorem TickFact.of_read (h : q.read = none) : TickFact s times q := by
  refine ⟨fun t hread => ?_, fun t hq => ?_, fun t hq => ?_⟩
  · rw [h] at hread
    cases hread
  · rw [hq] at h
    cases h
  · rw [hq] at h
    cases h

omit [DecidableEq G] in
theorem TickFact.mono (h : TickFact s times q) (hbase : s'.gClockBaseNs = s.gClockBaseNs)
    (hmono : s.monotonic.toNat ≤ s'.monotonic.toNat) : TickFact s' times q :=
  ⟨fun now hread => hbase ▸ ⟨(h.read now hread).1.trans hmono, (h.read now hread).2⟩,
    hbase ▸ h.setBase,
    hbase ▸ h.wall⟩

/-- A step that leaves the base alone and does not call the update body. -/
theorem Timely.quiet (h : Timely trace s at') (hbase : s'.gClockBaseNs = s.gClockBaseNs)
    (hmono : s.monotonic.toNat ≤ s'.monotonic.toNat) (he : e.elapsed = none)
    (hfact : ∀ tm lc q, p' = .tick tm lc q → TickFact s' (elapsedOf trace) q) :
    Timely (trace ++ [(r, e)]) s' (Function.update at' r p') := by
  have hsame : elapsedOf (trace ++ [(r, e)]) = elapsedOf trace := by
    rw [elapsedOf_snoc, he]
    exact List.append_nil _
  refine ⟨hsame ▸ h.sorted, hsame ▸ hbase ▸ h.zero, hbase ▸ h.base.trans hmono, fun n hn =>
    ?_, fun u tm lc q hu => ?_⟩
  · rw [hsame] at hn
    exact hbase ▸ (h.past n hn).trans hmono
  · rw [hsame]
    by_cases hur : u = r
    · rw [hur, Function.update_self] at hu
      exact hfact tm lc q hu
    · rw [Function.update_of_ne hur] at hu
      exact (h.ticks u tm lc q hu).mono hbase hmono

theorem Move.timely (h : Move r s p e s' p') (hp : at' r = p) (hlock : Held s.gClockLock fun u =>
    (at' u).holds)
    (ht : Timely trace s at') : Timely (trace ++ [(r, e)]) s' (Function.update at' r p') := by
  -- nobody else is in clock_tick while the thread is
  have hother : p.holds = true → ∀ u, u ≠ r → ∀ tm lc q, at' u ≠ .tick tm lc q := by
    intro hholds u hu tm lc q heq
    exact hu (hlock.unique (congrArg Place.holds heq) ((congrArg Place.holds hp).trans hholds))
  cases h with
  | lastTick tm now hnow | readTime lc now hnow => exact ht.quiet rfl hnow rfl nofun
  | tickNow tm lc now hnow =>
      refine ht.quiet rfl hnow rfl fun tm' lc' q hq => ?_
      cases hq
      refine ⟨fun t hread => ?_, nofun, nofun⟩
      cases hread
      exact ⟨le_rfl, ht.base.trans hnow, fun n hn => (ht.past n hn).trans hnow⟩
  | noBase tm lc now hbase =>
      refine ht.quiet rfl (Nat.le_refl _) rfl fun tm' lc' q hq => ?_
      cases hq
      exact ⟨(ht.ticks r tm lc _ hp).read, fun _ _ => hbase, nofun⟩
  | hasBase tm lc now hbase =>
      refine ht.quiet rfl (Nat.le_refl _) rfl fun tm' lc' q hq => ?_
      cases hq
      exact ⟨(ht.ticks r tm lc _ hp).read, nofun, fun _ _ hzero => absurd hzero hbase⟩
  | setBase tm lc now =>
      obtain ⟨hread, hzero, -⟩ := ht.ticks r tm lc _ hp
      have htimes := ht.zero (hzero now rfl)
      have hnow := (hread now rfl).1
      have hsame : elapsedOf (trace ++ [(r, .inner)]) = elapsedOf trace :=
        elapsedOf_snoc.trans (List.append_nil _)
      refine ⟨hsame ▸ ht.sorted, fun _ => hsame ▸ htimes, hnow, fun n hn =>
        ?_, fun u tm' lc' q hu => ?_⟩
      · rw [htimes n (hsame ▸ hn)]
        exact hnow
      · by_cases hur : u = r
        · rw [hur, Function.update_self] at hu
          cases hu
          refine ⟨fun t ht' => ?_, nofun, fun t ht' hbase => ?_⟩
          · cases ht'
            exact ⟨hnow, Nat.le_refl _, fun n hn => (htimes n (hsame ▸ hn)) ▸ Nat.le_refl _⟩
          · cases ht'
            exact hbase
        · rw [Function.update_of_ne hur] at hu
          exact absurd hu (hother rfl u hur tm' lc' q)
  | wall tm lc now =>
      obtain ⟨hread, -, hzero⟩ := ht.ticks r tm lc _ hp
      obtain ⟨hnow, hbase, hpast⟩ := hread now rfl
      have helapsed : (now - s.gClockBaseNs).toNat = now.toNat - s.gClockBaseNs.toNat :=
        BitVec.toNat_sub_of_le hbase
      have hmore : elapsedOf (trace ++ [(r, .updateBody tm (now - s.gClockBaseNs))]) =
          elapsedOf trace ++ [now.toNat - s.gClockBaseNs.toNat] := helapsed ▸ elapsedOf_snoc
      refine ⟨?_, fun hbase' n hn => ?_, ht.base, fun n hn => ?_, fun u tm' lc' q hu => ?_⟩
      · rw [hmore, List.pairwise_append]
        refine ⟨ht.sorted, List.pairwise_singleton _ _, fun n hn k hk => ?_⟩
        have hn := hpast n hn
        rw [List.mem_singleton.1 hk]
        omega
      · rw [hmore] at hn
        rcases List.mem_append.1 hn with hold | hlast
        · exact ht.zero hbase' n hold
        · rw [List.mem_singleton.1 hlast, hzero now rfl hbase', hbase']
          rfl
      · rw [hmore] at hn
        rcases List.mem_append.1 hn with hold | hlast
        · exact ht.past n hold
        · rw [List.mem_singleton.1 hlast]
          omega
      · by_cases hur : u = r
        · rw [hur, Function.update_self] at hu
          cases hu
          exact .of_read rfl
        · rw [Function.update_of_ne hur] at hu
          exact absurd hu (hother rfl u hur tm' lc' q)
  | unlock tm lc =>
      refine ht.quiet rfl (Nat.le_refl _) rfl fun tm' lc' q hq => ?_
      cases lc <;> cases hq
  | lock tm hfree | tryLock lc tm hfree | noBody tm lc now | body tm lc =>
      refine ht.quiet rfl (Nat.le_refl _) rfl fun tm' lc' q hq => ?_
      cases hq
      exact .of_read rfl
  | _ => exact ht.quiet rfl (Nat.le_refl _) rfl nofun

/-! ## Frames -/

/-- What an event adds to the frames of the clock thread. -/
def Event.frames (fs : List Time) : Event → List Time
  | .begins => []
  | .choreographer now => fs ++ [now]
  | _ => fs

/-- The frames since the clock thread began. -/
def framesOf (trace : List (Role G × Event)) : List Time :=
    trace.foldl (fun fs e => e.2.frames fs) []

omit [DecidableEq G] in
theorem framesOf_snoc : framesOf (trace ++ [(r, e)]) = e.frames (framesOf trace) :=
    List.foldl_append ..

/-- Frames are 16 ms apart, and the clock thread knows the last of them. -/
structure Spaced (trace : List (Role G × Event)) (s : Shared G) (at' : Role G → Place) : Prop where
  chain : (framesOf trace).IsChain fun a b => a.toNat + 16000000 ≤ b.toNat
  past : ∀ f ∈ framesOf trace, f.toNat ≤ s.monotonic.toNat
  last : ∀ r lc, (at' r).lastChoreo = some lc → lc = (framesOf trace).getLast?.getD 0
  now : ∀ r lc now, at' r = .choreo lc now → now.toNat ≤ s.monotonic.toNat ∧ lc.toNat ≤ now.toNat

omit [DecidableEq G] in
theorem Role.eq_clock (h : r.place.onClock = true) : r = .clock := by
  cases r <;> first | rfl | cases h

omit [DecidableEq G] in
theorem Spaced.last_le {lc : Time} (h : Spaced trace s at') (hr : (at' r).lastChoreo = some lc) :
    lc.toNat ≤ s.monotonic.toNat := by
  rw [h.last r lc hr]
  cases hlast : (framesOf trace).getLast? with
  | none => exact Nat.zero_le _
  | some f => exact h.past f (List.mem_of_getLast? hlast)

/-- A step without a frame. -/
theorem Spaced.quiet (h : Spaced trace s at') (hmono : s.monotonic.toNat ≤ s'.monotonic.toNat)
    (he : ∀ fs, e.frames fs = fs) (hlast : ∀ lc, p'.lastChoreo = some lc →
      (at' r).lastChoreo = some lc)
    (hnow : ∀ lc now, p' = .choreo lc now → now.toNat ≤ s'.monotonic.toNat ∧ lc.toNat ≤ now.toNat) :
    Spaced (trace ++ [(r, e)]) s' (Function.update at' r p') := by
  have hsame : framesOf (trace ++ [(r, e)]) = framesOf trace := framesOf_snoc.trans (he _)
  refine ⟨hsame ▸ h.chain, fun f hf => (h.past f (hsame ▸ hf)).trans hmono, fun u lc hu =>
    ?_, fun u lc now hu => ?_⟩
  · rw [hsame]
    by_cases hur : u = r
    · rw [hur, Function.update_self] at hu
      exact h.last r lc (hlast lc hu)
    · rw [Function.update_of_ne hur] at hu
      exact h.last u lc hu
  · by_cases hur : u = r
    · rw [hur, Function.update_self] at hu
      exact hnow lc now hu
    · rw [Function.update_of_ne hur] at hu
      exact ⟨(h.now u lc now hu).1.trans hmono, (h.now u lc now hu).2⟩

theorem Move.spaced (h : Move r s p e s' p') (hp : at' r = p)
    (hclock : ∀ r, (at' r).onClock = r.place.onClock)
    (ht : Spaced trace s at') : Spaced (trace ++ [(r, e)]) s' (Function.update at' r p') := by
  have hkeep : ∀ lc, p.lastChoreo = some lc → (at' r).lastChoreo = some lc := fun lc hlc => hp ▸ hlc
  -- only the clock thread keeps the time of its last frame
  have hother : p.onClock = true → ∀ u, u ≠ r → ∀ lc, (at' u).lastChoreo ≠ some lc := by
    intro hon u hu lc hlc
    have hr : r = .clock := Role.eq_clock ((hclock r).symm.trans (hp ▸ hon))
    exact hu ((Role.eq_clock ((hclock u).symm.trans (Place.onClock_of_lastChoreo hlc))).trans
      hr.symm)
  cases h with
  | lastTick tm now hnow => exact ht.quiet hnow (fun _ => rfl) (fun _ hlc => nomatch hlc) nofun
  | tickNow tm lc now hnow => exact ht.quiet hnow (fun _ => rfl) hkeep nofun
  | readTime lc now hnow =>
      refine ht.quiet hnow (fun _ => rfl) hkeep fun lc' t hq => ?_
      cases hq
      exact ⟨Nat.le_refl _, (ht.last_le (hkeep lc rfl)).trans hnow⟩
  | exits lc => exact ht.quiet (Nat.le_refl _) (fun _ => rfl) (fun _ hlc => nomatch hlc) nofun
  | unlock tm lc => cases lc <;> exact ht.quiet (Nat.le_refl _) (fun _ => rfl) hkeep nofun
  -- a clock thread that begins has made no frames yet
  | begins hthread =>
      have hnone : framesOf (trace ++ [(r, .begins)]) = [] := framesOf_snoc
      refine ⟨hnone ▸ .nil, hnone ▸ nofun, fun u lc hu => ?_, fun u lc now hu => ?_⟩
      · rw [hnone]
        by_cases hur : u = r
        · rw [hur, Function.update_self] at hu
          exact (Option.some.inj hu).symm
        · rw [Function.update_of_ne hur] at hu
          exact absurd hu (hother rfl u hur lc)
      · by_cases hur : u = r
        · rw [hur, Function.update_self] at hu
          cases hu
        · rw [Function.update_of_ne hur] at hu
          exact absurd (congrArg Place.lastChoreo hu) (hother rfl u hur lc)
  | choreographer lc now hlast =>
      obtain ⟨hnow, hle⟩ := ht.now r lc now hp
      have hlc := ht.last r lc (hkeep lc rfl)
      have hmore : framesOf (trace ++ [(r, .choreographer now)]) = framesOf trace ++ [now] :=
        framesOf_snoc
      -- the code has compared the difference, and the clock does not run back
      have hapart : lc.toNat + 16000000 ≤ now.toNat := by
        have hlast : 16000000 ≤ (now - lc).toNat := hlast
        rw [BitVec.toNat_sub_of_le hle] at hlast
        omega
      refine ⟨?_, fun f hf => ?_, fun u lc' hu => ?_, fun u lc' t hu => ?_⟩
      · rw [hmore, List.isChain_append]
        refine ⟨ht.chain, .singleton _, fun f hf t ht' => ?_⟩
        rw [Option.mem_def.1 hf, Option.getD_some] at hlc
        cases ht'
        exact hlc ▸ hapart
      · rw [hmore] at hf
        exact (List.mem_append.1 hf).elim (ht.past f) fun hf => List.mem_singleton.1 hf ▸ hnow
      · rw [hmore, List.getLast?_concat, Option.getD_some]
        by_cases hur : u = r
        · rw [hur, Function.update_self] at hu
          exact (Option.some.inj hu).symm
        · rw [Function.update_of_ne hur] at hu
          exact absurd hu (hother rfl u hur lc')
      · by_cases hur : u = r
        · rw [hur, Function.update_self] at hu
          cases hu
        · rw [Function.update_of_ne hur] at hu
          exact absurd (congrArg Place.lastChoreo hu) (hother rfl u hur lc')
  | _ => exact ht.quiet (Nat.le_refl _) (fun _ => rfl) hkeep nofun

/-! ## The life of the clock thread -/

/-- The thread has been started and is not closed. -/
def ClockThread.live : ClockThread → Bool
  | .started | .running | .exited => true
  | _ => false

/-- What the thread that starts and stops the clock knows, where it is. -/
def Place.Fits (started : Bool) (thread : ClockThread) : Place → Prop
  | .control => thread.live = started ∧ (started = false → thread = .closed)
  | .startStop | .startCreate => started = false ∧ thread = .closed
  | .startRun => started = false ∧ thread = .created
  | .startMark => started = false ∧ thread.live = true
  | .stopSet | .stopWait => started = true ∧ thread.live = true
  | .stopClose => started = true ∧ thread = .exited
  | .stopMark => started = true ∧ thread = .closed
  | _ => True

/-- The clock thread runs exactly while it is not asleep, and its life is what has been made of
it. -/
structure Lives (s : Shared G) (at' : Role G → Place) : Prop where
  running : s.gClockThread = .running ↔ at' .clock ≠ .asleep
  control : (at' .control).Fits s.gStarted s.gClockThread

theorem Place.Fits.running {started : Bool} (h : p.Fits started .started) :
    p.Fits started .running := by
  cases p <;> simp_all [Place.Fits, ClockThread.live]

theorem Place.Fits.exited {started : Bool} (h : p.Fits started .running) :
    p.Fits started .exited := by
  cases p <;> simp_all [Place.Fits, ClockThread.live]

/-- A step that leaves the life of the clock thread alone. -/
theorem Lives.quiet (h : Lives s at') (hp : at' r = p) (hstarted : s'.gStarted = s.gStarted)
    (hthread : s'.gClockThread = s.gClockThread)
    (hasleep : p' = .asleep ↔ p = .asleep)
    (hfits : p.Fits s.gStarted s.gClockThread → p'.Fits s.gStarted s.gClockThread) :
    Lives s' (Function.update at' r p') := by
  constructor
  · rw [hthread, h.running]
    by_cases hr : .clock = r
    · subst hr
      rw [Function.update_self, hp, not_iff_not, hasleep]
    · rw [Function.update_of_ne hr]
  · rw [hstarted, hthread]
    by_cases hr : .control = r
    · subst hr
      rw [Function.update_self]
      exact hfits (hp ▸ h.control)
    · rw [Function.update_of_ne hr]
      exact h.control

/-- A step of the thread that starts and stops the clock. -/
theorem Lives.command (h : Lives s at') (hrunning : s.gClockThread ≠ .running)
    (hrunning' : s'.gClockThread ≠ .running)
    (hfits : p'.Fits s'.gStarted s'.gClockThread) : Lives s' (Function.update at' .control p') := by
  refine ⟨?_, by rwa [Function.update_self]⟩
  rw [Function.update_of_ne (by nofun), iff_false_left hrunning', ← h.running]
  exact hrunning

omit [DecidableEq G] in
theorem Role.eq_control (h : r.place.onControl = true) : r = .control := by
  cases r <;> first | rfl | cases h

theorem Move.lives (h : Move r s p e s' p') (hp : at' r = p)
    (hclock : ∀ r, (at' r).onClock = r.place.onClock)
    (hcontrol : ∀ r, (at' r).onControl = r.place.onControl) (ht : Lives s at') :
    Lives s' (Function.update at' r p') := by
  -- the places of the clock thread and of the commands tell who is there
  have hr : p.onClock = true → r = .clock := fun hon =>
    Role.eq_clock ((hclock r).symm.trans (hp ▸ hon))
  have hr' : p.onControl = true → r = .control := fun hon =>
    Role.eq_control ((hcontrol r).symm.trans (hp ▸ hon))
  have hfits : p.onControl = true → p.Fits s.gStarted s.gClockThread := fun hon =>
    hp ▸ (hr' hon) ▸ ht.control
  cases h with
  | begins hthread =>
      obtain rfl := hr rfl
      refine ⟨iff_of_true rfl (by rw [Function.update_self]; nofun), ?_⟩
      have hcontrol := ht.control
      rw [Function.update_of_ne (by nofun)]
      rw [hthread] at hcontrol
      exact hcontrol.running
  | exits lc =>
      obtain rfl := hr rfl
      refine ⟨iff_of_false nofun fun hne => hne (Function.update_self ..), ?_⟩
      have hcontrol := ht.control
      rw [Function.update_of_ne (by nofun)]
      rw [ht.running.2 (by rw [hp]; nofun)] at hcontrol
      exact hcontrol.exited
  | created =>
      obtain rfl := hr' rfl
      obtain ⟨hstarted, hthread⟩ := hfits rfl
      exact ht.command (by rw [hthread]; nofun) nofun ⟨hstarted, rfl⟩
  | run =>
      obtain rfl := hr' rfl
      obtain ⟨hstarted, hthread⟩ := hfits rfl
      exact ht.command (by rw [hthread]; nofun) nofun ⟨hstarted, rfl⟩
  | notRun =>
      obtain rfl := hr' rfl
      obtain ⟨hstarted, hthread⟩ := hfits rfl
      exact ht.command (by rw [hthread]; nofun) nofun ⟨hstarted.symm, fun _ => rfl⟩
  | stopClose =>
      obtain rfl := hr' rfl
      obtain ⟨hstarted, hthread⟩ := hfits rfl
      exact ht.command (by rw [hthread]; nofun) nofun ⟨hstarted, rfl⟩
  | stopMark =>
      obtain rfl := hr' rfl
      obtain ⟨hstarted, hthread⟩ := hfits rfl
      have hidle : s.gClockThread ≠ .running := by rw [hthread]; nofun
      exact ht.command hidle hidle ⟨by rw [hthread]; rfl, fun _ => hthread⟩
  | startMark =>
      obtain rfl := hr' rfl
      obtain ⟨hstarted, hlive⟩ := hfits rfl
      refine ⟨?_, ?_⟩
      · rw [Function.update_of_ne (by nofun)]
        exact ht.running
      · rw [Function.update_self]
        exact ⟨hlive, nofun⟩
  -- the other steps change neither the flag nor the thread
  | starts hstarted =>
      exact ht.quiet hp rfl rfl (iff_of_false nofun nofun) fun hfit => ⟨hstarted, hfit.2 hstarted⟩
  | stops hstarted =>
      exact ht.quiet hp rfl rfl (iff_of_false nofun nofun) fun hfit =>
        ⟨hstarted, hfit.1.trans hstarted⟩
  | stopWait hthread =>
      exact ht.quiet hp rfl rfl (iff_of_false nofun nofun) fun hfit => ⟨hfit.1, hthread⟩
  | notCreated =>
      refine ht.quiet hp rfl rfl (iff_of_false nofun nofun) fun hfit => ⟨?_, fun _ => hfit.2⟩
      rw [hfit.2, hfit.1]
      rfl
  | unlock tm lc =>
      cases lc <;> exact ht.quiet hp rfl rfl (iff_of_false nofun nofun) fun _ => trivial
  | _ => exact ht.quiet hp rfl rfl (iff_of_false nofun nofun) id

/-! ## Runs -/

/-- What holds in every state of a run. -/
structure Inv (trace : List (Role G × Event)) (c : Config (Role G) (Shared G) (Thread G)) :
    Prop where
  placed : Placed c
  timely : Timely trace c.shared (places c)
  spaced : Spaced trace c.shared (places c)
  lives : Lives c.shared (places c)

omit [DecidableEq G] in
theorem inv_start {monotonic : Time} : Inv [] (start monotonic : Config (Role G) _ _) := by
  have hplace : ∀ r : Role G, places (start monotonic) r = r.place := fun _ => rfl
  refine ⟨placed_start, ⟨.nil, nofun, Nat.zero_le _, nofun, fun r tm lc q hq => ?_⟩,
    ⟨.nil, nofun, fun r lc hr => ?_, fun r lc now hr => ?_⟩,
      ⟨iff_of_false nofun fun hne => hne rfl, ⟨rfl, fun _ => rfl⟩⟩⟩
  · cases r <;> cases hq
  · cases r <;> cases hr
  · cases r <;> cases hr

theorem Inv.step (h : Inv trace c) (hstep : Step (clockProgram installed updateBody) c (r, e) d) :
    Inv (trace ++ [(r, e)]) d := by
  obtain ⟨p', hmove, hplaces, -⟩ := step_move h.placed.selves hstep
  refine ⟨h.placed.step hstep, ?_, ?_, ?_⟩
  · rw [hplaces]
    exact hmove.timely rfl h.placed.lock h.timely
  · rw [hplaces]
    exact hmove.spaced rfl h.placed.clock h.spaced
  · rw [hplaces]
    exact hmove.lives rfl h.placed.clock h.placed.control h.lives

/-- In every order of the steps of the threads: one thread at a time is in the update body, the
times that it is given do not go back, the frames of a clock thread are 16 ms apart, and there is
no clock thread unless one has been started and not been stopped. -/
theorem unity_time_goes_on {monotonic : Time}
    (h : Run (Step (clockProgram installed updateBody)) (start monotonic) trace c) :
    (elapsedOf trace).Pairwise (· ≤ ·) ∧
    (∀ r u tm tm' lc lc', places c r = .tick tm lc .body → places c u =
      .tick tm' lc' .body → r = u) ∧
    (framesOf trace).IsChain (fun a b => a.toNat + 16000000 ≤ b.toNat) ∧
    (c.shared.gStarted = false → places c .control = .control → places c .clock = .asleep) := by
  have hinv : Inv trace c := h.invariant_trace inv_start fun _ _ ⟨_, _⟩ _ hinv hstep =>
    hinv.step hstep
  refine ⟨hinv.timely.sorted, fun r u tm tm' lc lc' hr hu =>
    ?_, hinv.spaced.chain, fun hstarted hcontrol => ?_⟩
  · exact hinv.placed.lock.unique (congrArg Place.holds hr) (congrArg Place.holds hu)
  · have hclosed : c.shared.gClockThread = .closed :=
      (hcontrol ▸ hinv.lives.control : Place.control.Fits _ _).2 hstarted
    by_contra hne
    have hrunning := hinv.lives.running.2 hne
    rw [hclosed] at hrunning
    cases hrunning

/-- The hook is called twice. -/
def smallSchedule : List (Role Unit × Choice) :=
  [10, 10, 10, 10, 10, 10, 10, 20, 20, 20, 20, 20, 20, 30, 30, 30, 30, 30, 30, 30, 50, 50,
    50].map fun time =>
    (.game (), ⟨.hook 5, time, false⟩)

theorem unity_time_goes_on_small :
    ∃ (trace : List (Role Unit × Event)) (c : Config (Role Unit) _ _),
    Run (Step (clockProgram true true)) (start 0) trace c ∧ elapsedOf trace = [0, 30] ∧
      (elapsedOf trace).Pairwise (· ≤ ·) := by
  have htest :
      ((clockProgram true true).exec (start 0) smallSchedule).any
        (fun r => elapsedOf r.1 = [0, 30]) = true := by
    decide +kernel
  obtain ⟨trace, c, hrun, htimes⟩ := Program.exec_test htest
  exact ⟨trace, c, hrun, of_decide_eq_true htimes, (unity_time_goes_on hrun).1⟩

end Asnx.Unity.Clock
