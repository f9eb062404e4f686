import Asnx.Bionic.GuestThreadLife
import Mathlib.Algebra.GroupWithZero.Nat

/-!
# The last read of the creator

`bionic_pthread_create` reads the record once more after `threadStart`. By then the new thread may
have ended, and a join or the reaper may have freed its record (`creator_reads_freed`). The read is
safe in the runs in which nobody overtakes the creator of a thread that has ended: no join gets past
its wait for it, and the reaper does not go over the list while the thread is detached
(`creator_reads_registered`).
-/

namespace Asnx.Bionic.Pthread

open Threads

variable {T : Type*} [DecidableEq T]

/-- The creator reads a record that is in the list. -/
def ReadsRegistered (before : List (T × Event T)) : T × Event T → Prop
  | (_, .creatorReads g) => Registered before g
  | _ => True

/-- A step of `t` that overtakes the creator of `g`, a thread which has ended: the wait of a join
for it succeeds, or the reaper is at the lock, and the thread is detached and not joined. -/
def Overtakes (c : Config T (Shared T) (Local T)) (t : T)
    (d : Config T (Shared T) (Local T)) (g : T) :
    Prop :=
  c.shared.thread g = .ended ∧
    ((∃ ret, (c.locals t).call = .joinWait g ret ∧ (d.locals t).call = .joinRead g ret) ∨
      (∃ after, (c.locals t).call = .reap after) ∧ (c.shared.record g).detached = true ∧
        (c.shared.record g).joining = false)

/-- A step that overtakes nobody who has still to read a record. -/
def Patient (c : Config T (Shared T) (Local T)) (label : T × Event T)
    (d : Config T (Shared T) (Local T)) : Prop :=
  Step guestThreads c label d ∧ ∀ u g, (c.locals u).call = .createTrace g →
    ¬ Overtakes c label.1 d g

/-- What a creator has still to read is in the list, and no join is about to take it. -/
def Reading (c : Config T (Shared T) (Local T)) : Prop :=
  ∀ u g, (c.locals u).call.role = some (g, .traced) → c.shared.place g = .registered ∧
    ∀ t v, (c.locals t).call.role ≠ some (g, .takes v)

omit [DecidableEq T] in
theorem Call.eq_createTrace {call : Call T} {g : T} (h : call.role = some (g, .traced)) :
    call = .createTrace g := by
  cases call <;> simp_all [Call.role]

/-- Only a thread at the lock of the reaper unlinks as the reaper. -/
theorem Step.at_reap {c d : Config T (Shared T) (Local T)} {t g : T}
    (h : Step guestThreads c (t, .unlinked g .reaper) d) : ∃ after, (c.locals t).call =
      .reap after := by
  cases h with
  | @mk _ x _ s' l' hnext =>
      cases hcall : (c.locals t).call with
      | reap after => exact ⟨after, rfl⟩
      | idle =>
          obtain ⟨-, ⟨he | he | he, -⟩ | ⟨hturn, -⟩⟩ :=
            idleStep_cases hcall (by simpa only [guestThreads, guestNext, hcall] using hnext)
          all_goals first | cases he | skip
          generalize (c.locals t).stage = stage at hturn
          generalize l'.stage = stage' at hturn
          cases hturn
      | _ =>
          simp only [guestThreads, guestNext, hcall, allocStep, threadStep, startStep, joinFindStep,
            waitStep, detachFindStep] at hnext
          repeat' split at hnext
          all_goals cases hnext

/-- A join takes the record because it did so before, or its wait for an ended thread succeeds. -/
theorem Step.takes {c d : Config T (Shared T) (Local T)} {t g : T} {e : Event T} {v : Option Nat}
    (h : Step guestThreads c (t, e) d) (htakes : (d.locals t).call.role = some (g, .takes v)) :
    (c.shared.thread g = .ended ∧
      ∃ ret, (c.locals t).call = .joinWait g ret ∧ (d.locals t).call = .joinRead g ret) ∨
      ∃ w, (c.locals t).call.role = some (g, .takes w) := by
  cases h with
  | @mk _ x _ s' l' hnext =>
      rw [Config.set_locals_self] at htakes ⊢
      cases hcall : (c.locals t).call with
      | joinWait k ret =>
          simp only [guestThreads, guestNext, hcall, waitStep] at hnext
          split at hnext
          · split at hnext
            · rename_i hended
              cases hnext
              cases htakes
              exact .inl ⟨hended, ret, rfl, rfl⟩
            · cases hnext
          · cases hnext
            cases htakes
      | joinRead k ret =>
          simp only [guestThreads, guestNext, hcall] at hnext
          cases hnext
          cases htakes
          exact .inr ⟨none, rfl⟩
      | idle =>
          obtain ⟨-, ⟨-, -, hrole, -⟩ | ⟨-, hidle⟩⟩ :=
            idleStep_cases hcall (by simpa only [guestThreads, guestNext, hcall] using hnext)
          · rw [hrole] at htakes
            cases htakes
          · rw [hidle] at htakes
            cases htakes
      | reap after =>
          simp only [guestThreads, guestNext, hcall, reapStep] at hnext
          split at hnext
          · cases hnext
            cases htakes
          · cases after <;> cases hnext <;> cases htakes
      | _ =>
          simp only [guestThreads, guestNext, hcall, allocStep, threadStep, startStep, joinFindStep,
            detachFindStep] at hnext
          repeat' split at hnext
          all_goals
            cases hnext
            try cases htakes

/-- A turn of another thread leaves a record in the list that a creator has still to read, and no
join is about to take. -/
theorem Reading.place {c d : Config T (Shared T) (Local T)} {s' : Shared T} {t u g k : T}
    {e : Event T}
    {r r' : Option Role} (hinv : Inv c) (hreading : Reading c) (h : Patient c (t, e) d)
    (hturn : Turn c.shared g r e s' r') (hrole : (c.locals t).call.role = r.map (g, ·))
    (hu : (c.locals u).call.role = some (k, .traced)) : s'.place k = .registered := by
  obtain ⟨hplace, htakes⟩ := hreading u k hu
  by_cases hk : k = g
  case neg =>
    rw [(hturn.agree hk).place]
    exact hplace
  subst hk
  have hr : ∀ q ∈ r, q.Ok c.shared k := fun q hq => hinv.roles t k q (by rw [hrole, hq]; rfl)
  have htraced := hinv.roles u k .traced hu
  cases hturn with
  | alloc _ hnone => cases hplace.symm.trans hnone
  | add | discard | reaped | yield =>
      have hok := hr _ rfl
      simp_all [Role.Ok]
  | withdraw =>
      have hcreated := (hr _ rfl).2
      rcases htraced.2 with hstarted | hended
      · rw [hstarted] at hcreated
        cases hcreated
      · rw [hended] at hcreated
        cases hcreated
  | take v => exact absurd hrole (htakes t v)
  | reap _ hdetached hjoining hended =>
      obtain ⟨after, hafter⟩ := Step.at_reap h.1
      exact absurd ⟨hended, .inr ⟨⟨after, hafter⟩, hdetached, hjoining⟩⟩
        (h.2 u k (Call.eq_createTrace hu))
  | _ => exact hplace

/-- No step takes a record away that a creator has still to read. -/
theorem Reading.step {c d : Config T (Shared T) (Local T)} {t : T} {e : Event T} (hinv : Inv c)
    (hreading : Reading c) (h : Patient c (t, e) d) : Reading d := by
  obtain ⟨s', l', rfl, hself, hcases, -⟩ := step_cases hinv h.1
  -- a join is about to take only what it was about to take before
  have hold : ∀ {u k}, (c.locals u).call.role = some (k, .traced) →
      ∀ v w, ((c.set t s' l').locals v).call.role ≠ some (k, .takes w) := by
    intro u k hu v w hv
    by_cases hvt : v = t
    · subst hvt
      rcases Step.takes h.1 hv with ⟨hended, hwait⟩ | ⟨w', hw'⟩
      · exact h.2 u k (Call.eq_createTrace hu) ⟨hended, .inl hwait⟩
      · exact (hreading u k hu).2 v w' hw'
    · rw [Config.set_locals_other c hvt] at hv
      exact (hreading u k hu).2 v w hv
  intro u k hu
  rcases hcases with ⟨g, r, r', hturn, hrole, hrole', -⟩ | ⟨hturn, hidle, hidle'⟩
  · by_cases hut : u = t
    case neg =>
      rw [Config.set_locals_other c hut] at hu
      exact ⟨hreading.place hinv h hturn hrole hu, hold hu⟩
    subst hut
    have hu' := hu
    rw [Config.set_locals_self, hrole'] at hu'
    obtain ⟨q, hq, heq⟩ := Option.map_eq_some_iff.1 hu'
    cases heq
    cases hturn <;> cases hq
    · -- the thread has just been started, so no join has seen it end
      obtain ⟨hplace, hcreated⟩ := hinv.roles u k .listed hrole
      refine ⟨hplace, fun v w hv => ?_⟩
      by_cases hvu : v = u
      · rw [hvu, hu] at hv
        cases hv
      · rw [Config.set_locals_other c hvu] at hv
        have hended := (hinv.roles v k _ hv).2.2.2.1
        cases hcreated.symm.trans hended
    · exact ⟨(hreading u k hrole).1, hold hrole⟩
  · have hsame : ((c.set t s' l').locals u).call.role = (c.locals u).call.role := by
      by_cases hut : u = t
      · rw [hut, Config.set_locals_self, hidle, hidle']
      · rw [Config.set_locals_other c hut]
    rw [hsame] at hu
    refine ⟨?_, hold hu⟩
    have hplace := (hreading u k hu).1
    show s'.place k = .registered
    by_cases hk : k = t
    · subst hk
      rw [(hturn.leaves_record (hinv.stages k)).1]
      exact hplace
    · rw [(hturn.agree (hinv.stages t) hk).place]
      exact hplace

theorem Known.readsRegistered {trace : List (T × Event T)}
    {c d : Config T (Shared T) (Local T)} {t : T}
    {e : Event T} (hinv : Inv c) (hknown : Known trace c) (hreading : Reading c)
    (h : Step guestThreads c (t, e) d) : ReadsRegistered trace (t, e) := by
  obtain ⟨s', l', rfl, hself, ⟨g, r, r', hturn, hrole, -⟩ | ⟨hturn, -⟩, -⟩ := step_cases hinv h
  · cases hturn with
    | trace =>
        obtain ⟨hplace, -⟩ := hreading t g hrole
        exact ⟨(hknown.records g).added hplace, (hknown.records g).listed (.inr (.inr hplace))⟩
    | _ => trivial
  · generalize (c.locals t).stage = stage at hturn
    generalize l'.stage = stage' at hturn
    cases hturn <;> trivial

/-- Where nobody overtakes a creator that has still to read the record of its thread, creators read
records only that are in the list. -/
theorem creator_reads_registered {c d : Config T (Shared T) (Local T)} {trace : List (T × Event T)}
    (hinit : Initial c) (h : Run Patient c trace d) : Always ReadsRegistered trace := by
  have hall : Always ReadsRegistered trace ∧ Inv d ∧ Known trace d ∧ Reading d := by
    refine h.invariant_trace
      (I := fun trace d => Always ReadsRegistered trace ∧ Inv d ∧ Known trace d ∧ Reading d)
      ⟨always_nil, hinit.inv, hinit.known, fun t g ht => ?_⟩ ?_
    · rw [hinit.idle] at ht
      cases ht
    · rintro trace c ⟨t, e⟩ d ⟨hreads, hinv, hknown, hreading⟩ hstep
      exact ⟨always_snoc hreads (hknown.readsRegistered hinv hreading hstep.1), hinv.step hstep.1,
        hknown.step hinv hstep.1, hreading.step hinv hstep⟩
  exact hall.1

/-- The thread has not ended when its creator reads the record; then it is joined. -/
theorem creator_reads_example : ∃ trace d, Run Patient mainOnly trace d ∧
    (false, .creatorReads true) ∈ trace ∧ Seen (fun x => x.2.Unlinks true) trace ∧
    Always ReadsRegistered trace := by
  have hrun : (guestThreads.execIf (fun c _ => decide (∀ u g, (c.locals u).call = .createTrace g →
      c.shared.thread g ≠ .ended)) mainOnly joining).any (fun r =>
        decide ((false, .creatorReads true) ∈ r.1 ∧ (false, .unlinked true .joiner) ∈ r.1)) =
          true := by
    decide
  obtain ⟨⟨trace, d⟩, hexec, htrace⟩ := (Option.any_eq_true _ _).1 hrun
  obtain ⟨hreads, hunlinked⟩ := of_decide_eq_true htrace
  have hpatient : Run Patient mainOnly trace d :=
    (Program.exec_if_run hexec).mono fun c label _ h =>
    ⟨h.1, fun u g hu hovertakes => of_decide_eq_true h.2 u g hu hovertakes.1⟩
  exact ⟨trace, d, hpatient, hreads, ⟨_, hunlinked, .joiner, rfl⟩,
    creator_reads_registered initial_mainOnly hpatient⟩

theorem neZero_three : NeZero 3 := ⟨by decide⟩

attribute [local instance] neZero_three

/-- Two threads, which these functions have not made. -/
def twoThreads : Config (Fin 3) (Shared (Fin 3)) (Local (Fin 3)) where
  shared := {
    guestThreads := []
    record := fun _ => GuestThread.zero
    place := fun _ => .none
    thread := fun t => if t = 2 then .none else .started
    handle := fun t => t + 1
    opened := [0, 1] }
  locals t := ⟨t, if t = 2 then .unborn else .running, .idle⟩

theorem initial_twoThreads : Initial twoThreads where
  self _ := rfl
  idle _ := rfl
  empty := rfl
  places _ := rfl
  foreign := by decide
  others := by decide
  handles := by decide

/-- The first thread creates the third one, which ends and is joined by the second one; then the
first one goes on. -/
def overtaken : List (Fin 3 × Choice (Fin 3)) :=
  let choose := fun request => (⟨request, fun _ => true, true, 2, 3⟩ : Choice (Fin 3))
  (0, choose (.create true false)) :: List.replicate 5 (0, choose (.detach 0)) ++
    [(2, choose (.detach 0)), (2, choose (.finish 7)), (2, choose (.finish 0)),
      (2, choose (.detach 0)),
      (1, choose (.join 3 true))] ++ List.replicate 7 (1, choose (.detach 0)) ++
    [(0, choose (.detach 0))]

/-- The creator may read a record that has been freed. -/
theorem creator_reads_freed : ¬ ∀ c : Config (Fin 3) (Shared (Fin 3)) (Local (Fin 3)), Initial c →
    ∀ trace d, Run (Step guestThreads) c trace d → Always ReadsRegistered trace := by
  intro h
  have hrun : (guestThreads.exec twoThreads overtaken).any (fun r => decide (r.1 =
      r.1.dropLast ++ [(0, .creatorReads 2)] ∧ (1, .unlinked 2 .joiner) ∈ r.1.dropLast)) =
        true := by
    decide
  obtain ⟨trace, d, hrun, htrace⟩ := Program.exec_test hrun
  obtain ⟨hsplit, hmem⟩ := of_decide_eq_true htrace
  exact (h _ initial_twoThreads trace d hrun _ (0, .creatorReads 2) [] hsplit).2
    ⟨_, hmem, .joiner, rfl⟩

end Asnx.Bionic.Pthread
