import Asnx.Bionic.GuestThreads
import Mathlib.Data.List.Nodup

/-!
# What holds of the records

A call of a thread plays a `Role` for a record, and `Role.Ok` is what it may rely on. `Turn` and
`StageTurn` list what a step may do; `Inv.step` shows that each of these keeps the invariant: a
record has at most one thread that makes it and at most one that takes it away.
-/

namespace Asnx.Bionic.Pthread

open Threads

variable {T : Type*} [DecidableEq T]

/-! ## Roles -/

/-- What the current call of a thread does with a record. -/
inductive Role where
  /-- It has allocated the record. -/
  | made
  /-- It has created the thread. -/
  | threaded
  /-- It has put the record into the list, and the thread is not started. -/
  | listed
  /-- It gives the record up. -/
  | abandoned
  /-- It has started the thread, and will read the record. -/
  | traced
  /-- It waits for the thread to end. -/
  | waits
  /-- The thread has ended; what the join yields, if it has been read. -/
  | takes (v : Option Nat)
  /-- It has taken the record out of the list. -/
  | taken (v : Option Nat)
  /-- It reaps the record. -/
  | reaped

/-- The role of a call, and the record. -/
def Call.role : Call T → Option (T × Role)
  | .createThread g => some (g, .made)
  | .createAdd g => some (g, .threaded)
  | .createStart g | .createUnlink g => some (g, .listed)
  | .createClose g | .createFree g => some (g, .abandoned)
  | .createTrace g => some (g, .traced)
  | .joinWait g _ | .joinUndo g => some (g, .waits)
  | .joinRead g _ => some (g, .takes none)
  | .joinUnlink g v => some (g, .takes v)
  | .joinClose g v | .joinFree g v => some (g, .taken v)
  | .reapClose g _ | .reapFree g _ => some (g, .reaped)
  | _ => none

/-- Whether a role makes a record or takes it away; reading it is neither. -/
inductive Side where
  | maker
  | taker
  deriving DecidableEq

def Role.side : Role → Option Side
  | .made | .threaded | .listed | .abandoned => some .maker
  | .traced => none
  | .waits | .takes _ | .taken _ | .reaped => some .taker

/-- What a thread may rely on in its role for the record `g`. A join may wait for a thread that will
never be started, and whose record is gone. -/
def Role.Ok (s : Shared T) (g : T) : Role → Prop
  | .made => s.place g = .allocated ∧ s.thread g = .none
  | .threaded => s.place g = .allocated ∧ s.thread g = .created ∧ g ∈ s.opened ∧
      (s.record g).pthreadId = s.handle g
  | .listed => s.place g = .registered ∧ s.thread g = .created
  | .abandoned => (s.place g = .allocated ∨ s.place g = .unlinked) ∧
      (s.thread g = .none ∨ s.thread g = .created)
  | .traced => s.place g ≠ .none ∧ (s.thread g = .started ∨ s.thread g = .ended)
  | .waits =>
      (s.place g = .registered ∧ (s.record g).joining = true ∧ (s.record g).detached = false) ∨
      ((s.place g = .unlinked ∨ s.place g = .freed) ∧ s.thread g = .created)
  | .takes v => s.place g = .registered ∧ (s.record g).joining = true ∧
      (s.record g).detached = false ∧ s.thread g = .ended ∧ ∀ w ∈ v, w = (s.record g).ret
  | .taken v => s.place g = .unlinked ∧ (s.record g).joining = true ∧
      (s.record g).detached = false ∧ s.thread g = .ended ∧ ∀ w ∈ v, w = (s.record g).ret
  | .reaped => s.place g = .unlinked ∧ (s.record g).detached = true ∧ s.thread g = .ended

/-! ## What a step may do -/

/-- A step that keeps the stage of the thread: what it does to the record `g`, in which role, and
the role after it. -/
inductive Turn (s : Shared T) (g : T) : Option Role → Event T → Shared T → Option Role → Prop where
  | alloc (detached) : s.place g = .none → s.thread g = .none →
      Turn s g none (.made g detached) (s.alloc g detached) (some .made)
  | spawn (handle) : handle ∉ s.opened.map s.handle →
      Turn s g (some .made) .inner (s.spawn g handle) (some .threaded)
  | spawnNull : 0 ∉ s.opened.map s.handle →
      Turn s g (some .made) .inner (s.spawn g 0) (some .abandoned)
  | noThread : Turn s g (some .made) .inner s (some .abandoned)
  | add : Turn s g (some .threaded) (.added g) (s.add g) (some .listed)
  | start : Turn s g (some .listed) (.started g) (s.setThread g .started) (some .traced)
  | trace : Turn s g (some .traced) (.creatorReads g) s none
  | withdraw : Turn s g (some .listed) (.unlinked g .creator) (s.unlink g) (some .abandoned)
  | closeAbandoned : Turn s g (some .abandoned) .inner (s.close g) (some .abandoned)
  | closeReaped : Turn s g (some .reaped) .inner (s.close g) (some .reaped)
  | closeTaken (v) : Turn s g (some (.taken v)) .inner (s.close g) (some (.taken v))
  | discard : Turn s g (some .abandoned) (.freed g .creator) (s.free g) none
  | reap : g ∈ s.guestThreads → (s.record g).detached = true → (s.record g).joining = false →
      s.thread g = .ended → Turn s g none (.unlinked g .reaper) (s.unlink g) (some .reaped)
  | reaped : Turn s g (some .reaped) (.freed g .reaper) (s.free g) none
  | hold : g ∈ s.guestThreads → (s.record g).detached = false → (s.record g).joining = false →
      Turn s g none .inner (s.setJoining g true) (some .waits)
  | ended : s.thread g = .ended → Turn s g (some .waits) .inner s (some (.takes none))
  | release : Turn s g (some .waits) (.joinFailed (some g)) (s.setJoining g false) none
  | read (v) : (∀ w ∈ v, w = (s.record g).ret) →
      Turn s g (some (.takes none)) .inner s (some (.takes v))
  | take (v) : Turn s g (some (.takes v)) (.unlinked g .joiner) (s.unlink g) (some (.taken v))
  | yield (v) : Turn s g (some (.taken v)) (.joined g v) (s.free g) none
  | refuseJoin : g ∈ s.guestThreads → Turn s g none (.joinFailed (some g)) s none
  | refuseDetach : g ∈ s.guestThreads → Turn s g none (.detachFailed (some g)) s none
  | detach : g ∈ s.guestThreads → (s.record g).detached = false → (s.record g).joining = false →
      Turn s g none (.detaches g) (s.setDetached g) none
  | detached : Turn s g none (.detached g) s none
  | stay (r) : Turn s g r .inner s r
  | joinNothing : Turn s g none (.joinFailed none) s none
  | detachNothing : Turn s g none (.detachFailed none) s none

/-- A step of a thread outside its calls on the way to its end. -/
inductive StageTurn (s : Shared T) (t : T) : Stage T → Event T → Shared T → Stage T → Prop where
  | born : s.thread t = .started → StageTurn s t .unborn .inner s .running
  | returns (v) : s.place t ≠ .none → StageTurn s t .running (.returned v) s (.returned v)
  | exits (stage v) : stage ≠ .unborn → stage ≠ .stored → stage ≠ .ended →
      StageTurn s t stage (.exited v) s (.exiting v (s.find (s.handle t)))
  | storesReturned (v) : StageTurn s t (.returned v) .inner (s.store t v) .stored
  | storesExited (v g) : StageTurn s t (.exiting v (some g)) .inner (s.store g v) .stored
  | leaves (v) : StageTurn s t (.exiting v none) .inner s .stored
  | ends : StageTurn s t .stored .ended (s.setThread t .ended) .ended

omit [DecidableEq T] in
theorem Shared.mem_of_find {s : Shared T} {id : Nat} {g : T} (h : s.find id = some g) :
    g ∈ s.guestThreads ∧ (s.record g).pthreadId = id := by
  have hg := List.find?_some h
  exact ⟨List.mem_of_find?_eq_some h, of_decide_eq_true hg⟩

omit [DecidableEq T] in
theorem Shared.mem_of_victim {s : Shared T} {self : Nat} {waits : T → Bool} {g : T}
    (h : s.victim self waits = some g) : g ∈ s.guestThreads ∧ (s.record g).detached = true ∧
      (s.record g).joining = false ∧ s.thread g = .ended := by
  have hg := List.find?_some h
  simp only [decide_eq_true_eq, Bool.not_eq_true] at hg
  exact ⟨List.mem_of_find?_eq_some h, hg.1, hg.2.1, hg.2.2.2.1⟩

/-- The record that is detached in a call. -/
def Call.detaching : Call T → Option T
  | .reap (.detach g) => some g
  | .reapClose _ (.detach g) => some g
  | .reapFree _ (.detach g) => some g
  | _ => none

/-- What a step outside the calls does. -/
theorem idleStep_cases {x : Choice T} {s s' : Shared T} {l l' : Local T} {e : Event T}
    (hidle : l.call = .idle) (h : idleStep x s l = some (e, s', l')) :
    l'.self = l.self ∧
      (((e = .inner ∨ e = .joinFailed none ∨ e = .detachFailed none) ∧ s' = s ∧
          l'.call.role = none ∧ l'.call.detaching = none ∧ l'.stage = l.stage) ∨
        (StageTurn s l.self l.stage e s' l'.stage ∧ l'.call = .idle)) := by
  obtain ⟨self, stage, call⟩ := l
  obtain rfl : call = .idle := hidle
  -- a thread that runs may begin any call; the other stages have one step each
  have hlive : ∀ stage, stage ≠ .unborn → stage ≠ .stored → stage ≠ .ended →
      requestStep x.request s ⟨self, stage, .idle⟩ = some (e, s', l') → l'.self = self ∧
      (((e = .inner ∨ e = .joinFailed none ∨ e = .detachFailed none) ∧ s' = s ∧
          l'.call.role = none ∧ l'.call.detaching = none ∧ l'.stage = stage) ∨
        (StageTurn s self stage e s' l'.stage ∧ l'.call = .idle)) := by
    intro stage hunborn hstored hended h
    cases hrequest : x.request with
    | create given detached =>
        rw [hrequest] at h
        cases h
        refine ⟨rfl, .inl ⟨.inl rfl, rfl, ?_, ?_, rfl⟩⟩ <;> cases given <;> rfl
    | join t ret =>
        rw [hrequest] at h
        simp only [requestStep] at h
        split at h
        · cases h
          exact ⟨rfl, .inl ⟨.inr (.inl rfl), rfl, rfl, rfl, rfl⟩⟩
        · cases h
          exact ⟨rfl, .inl ⟨.inl rfl, rfl, rfl, rfl, rfl⟩⟩
    | detach t =>
        rw [hrequest] at h
        simp only [requestStep] at h
        split at h
        · cases h
          exact ⟨rfl, .inl ⟨.inr (.inr rfl), rfl, rfl, rfl, rfl⟩⟩
        · cases h
          exact ⟨rfl, .inl ⟨.inl rfl, rfl, rfl, rfl, rfl⟩⟩
    | exit v =>
        rw [hrequest] at h
        cases h
        exact ⟨rfl, .inr ⟨.exits _ v hunborn hstored hended, rfl⟩⟩
    -- the way out of a thread: it returns or exits, stores its value, and ends
    | finish v =>
        rw [hrequest] at h
        cases stage with
        | running =>
            simp only [requestStep, finishStep] at h
            split at h
            · cases h
            · rename_i hplace
              cases h
              exact ⟨rfl, .inr ⟨.returns v hplace, rfl⟩⟩
        | returned w =>
            cases h
            exact ⟨rfl, .inr ⟨.storesReturned w, rfl⟩⟩
        | exiting w g =>
            cases g with
            | none =>
                cases h
                exact ⟨rfl, .inr ⟨.leaves w, rfl⟩⟩
            | some g =>
                cases h
                exact ⟨rfl, .inr ⟨.storesExited w g, rfl⟩⟩
        | unborn => exact absurd rfl hunborn
        | stored => exact absurd rfl hstored
        | ended => exact absurd rfl hended
  cases stage with
  | unborn =>
      simp only [idleStep] at h
      split at h
      · rename_i hstarted
        cases h
        exact ⟨rfl, .inr ⟨.born hstarted, rfl⟩⟩
      · cases h
  | stored =>
      cases h
      exact ⟨rfl, .inr ⟨.ends, rfl⟩⟩
  | ended => cases h
  | running => exact hlive _ nofun nofun nofun h
  | returned v => exact hlive _ nofun nofun nofun h
  | exiting v g => exact hlive _ nofun nofun nofun h

/-- What a step does: a turn for some record, or a step of its own. -/
theorem guestNext_cases {x : Choice T} {s s' : Shared T} {l l' : Local T} {e : Event T}
    (h : guestNext x s l = some (e, s', l')) :
    l'.self = l.self ∧
    ((∃ g r r', Turn s g r e s' r' ∧ l.call.role = r.map (g, ·) ∧ l'.call.role = r'.map (g, ·) ∧
        l'.stage = l.stage) ∨
      (StageTurn s l.self l.stage e s' l'.stage ∧ l.call = .idle ∧ l'.call = .idle)) := by
  obtain ⟨self, stage, call⟩ := l
  cases call with
  | idle =>
      obtain ⟨hself, ⟨he, rfl, hrole, -, hstage⟩ | ⟨hturn, hcall⟩⟩ := idleStep_cases rfl h
      · refine ⟨hself, .inl ⟨self, none, none, ?_, rfl, hrole, hstage⟩⟩
        -- a call that only begins, or fails before it finds a record, stays with no record
        rcases he with rfl | rfl | rfl
        · exact .stay none
        · exact .joinNothing
        · exact .detachNothing
      · exact ⟨hself, .inr ⟨hturn, rfl, hcall⟩⟩
  -- each call goes on with what it was made for when there is nothing to reap
  | reap after =>
      simp only [guestNext, reapStep] at h
      split at h
      · rename_i g hvictim
        obtain ⟨hmem, hdetached, hjoining, hended⟩ := s.mem_of_victim hvictim
        cases h
        exact ⟨rfl, .inl ⟨g, none, some .reaped, .reap hmem hdetached hjoining hended,
          rfl, rfl, rfl⟩⟩
      · cases after with
        | create detached =>
            cases h
            exact ⟨rfl, .inl ⟨self, none, none, .stay none, rfl, rfl, rfl⟩⟩
        | join t ret =>
            cases h
            exact ⟨rfl, .inl ⟨self, none, none, .stay none, rfl, rfl, rfl⟩⟩
        | detach g =>
            cases h
            exact ⟨rfl, .inl ⟨g, none, none, .detached, rfl, rfl, rfl⟩⟩
  | reapClose g after =>
      cases h
      exact ⟨rfl, .inl ⟨g, some .reaped, some .reaped, .closeReaped, rfl, rfl, rfl⟩⟩
  | reapFree g after =>
      cases h
      exact ⟨rfl, .inl ⟨g, some .reaped, none, .reaped, rfl, rfl, rfl⟩⟩
  | createAlloc detached =>
      simp only [guestNext, allocStep] at h
      split at h
      · split at h
        · rename_i hfresh
          cases h
          exact ⟨rfl, .inl ⟨_, none, some .made, .alloc detached hfresh.1 hfresh.2, rfl, rfl, rfl⟩⟩
        · cases h
      · cases h
        exact ⟨rfl, .inl ⟨self, none, none, .stay none, rfl, rfl, rfl⟩⟩
  | createThread g =>
      simp only [guestNext, threadStep] at h
      split at h
      · split at h
        · cases h
        · rename_i hhandle
          cases h
          -- a handle of 0 counts as a failure, although a thread has been made
          by_cases hzero : x.handle = 0
          · rw [if_pos hzero]
            rw [hzero] at hhandle ⊢
            exact ⟨rfl, .inl ⟨g, some .made, some .abandoned, .spawnNull hhandle, rfl, rfl, rfl⟩⟩
          · rw [if_neg hzero]
            exact ⟨rfl, .inl ⟨g, some .made, some .threaded, .spawn _ hhandle, rfl, rfl, rfl⟩⟩
      · cases h
        exact ⟨rfl, .inl ⟨g, some .made, some .abandoned, .noThread, rfl, rfl, rfl⟩⟩
  | createAdd g =>
      cases h
      exact ⟨rfl, .inl ⟨g, some .threaded, some .listed, .add, rfl, rfl, rfl⟩⟩
  | createStart g =>
      simp only [guestNext, startStep] at h
      split at h
      · cases h
        exact ⟨rfl, .inl ⟨g, some .listed, some .traced, .start, rfl, rfl, rfl⟩⟩
      · cases h
        exact ⟨rfl, .inl ⟨g, some .listed, some .listed, .stay _, rfl, rfl, rfl⟩⟩
  | createTrace g =>
      cases h
      exact ⟨rfl, .inl ⟨g, some .traced, none, .trace, rfl, rfl, rfl⟩⟩
  | createUnlink g =>
      cases h
      exact ⟨rfl, .inl ⟨g, some .listed, some .abandoned, .withdraw, rfl, rfl, rfl⟩⟩
  | createClose g =>
      cases h
      exact ⟨rfl, .inl ⟨g, some .abandoned, some .abandoned, .closeAbandoned, rfl, rfl, rfl⟩⟩
  | createFree g =>
      cases h
      exact ⟨rfl, .inl ⟨g, some .abandoned, none, .discard, rfl, rfl, rfl⟩⟩
  | joinFind t ret =>
      simp only [guestNext, joinFindStep] at h
      split at h
      · cases h
        exact ⟨rfl, .inl ⟨self, none, none, .joinNothing, rfl, rfl, rfl⟩⟩
      · rename_i g hfind
        -- found in the list, so still registered
        obtain ⟨hmem, -⟩ := s.mem_of_find hfind
        split at h
        · cases h
          exact ⟨rfl, .inl ⟨g, none, none, .refuseJoin hmem, rfl, rfl, rfl⟩⟩
        · rename_i hfree
          obtain ⟨hdetached, hjoining⟩ := not_or.1 hfree
          cases h
          exact ⟨rfl, .inl ⟨g, none, some .waits, .hold hmem (Bool.eq_false_iff.2 hdetached)
            (Bool.eq_false_iff.2 hjoining), rfl, rfl, rfl⟩⟩
  | joinWait g ret =>
      simp only [guestNext, waitStep] at h
      split at h
      · split at h
        · rename_i hended
          cases h
          exact ⟨rfl, .inl ⟨g, some .waits, some (.takes none), .ended hended, rfl, rfl, rfl⟩⟩
        · cases h
      · cases h
        exact ⟨rfl, .inl ⟨g, some .waits, some .waits, .stay _, rfl, rfl, rfl⟩⟩
  | joinUndo g =>
      cases h
      exact ⟨rfl, .inl ⟨g, some .waits, none, .release, rfl, rfl, rfl⟩⟩
  | joinRead g ret =>
      cases h
      -- the value is read before the record leaves the list
      refine ⟨rfl, .inl ⟨g, some (.takes none), some (.takes _), .read _ ?_, rfl, rfl, rfl⟩⟩
      cases ret with
      | false => exact nofun
      | true =>
          rintro w ⟨⟩
          rfl
  | joinUnlink g v =>
      cases h
      exact ⟨rfl, .inl ⟨g, some (.takes v), some (.taken v), .take v, rfl, rfl, rfl⟩⟩
  | joinClose g v =>
      cases h
      exact ⟨rfl, .inl ⟨g, some (.taken v), some (.taken v), .closeTaken v, rfl, rfl,
        rfl⟩⟩
  | joinFree g v =>
      cases h
      exact ⟨rfl, .inl ⟨g, some (.taken v), none, .yield v, rfl, rfl, rfl⟩⟩
  | detachFind t =>
      simp only [guestNext, detachFindStep] at h
      split at h
      · cases h
        exact ⟨rfl, .inl ⟨self, none, none, .detachNothing, rfl, rfl, rfl⟩⟩
      · rename_i g hfind
        obtain ⟨hmem, -⟩ := s.mem_of_find hfind
        split at h
        · cases h
          exact ⟨rfl, .inl ⟨g, none, none, .refuseDetach hmem, rfl, rfl, rfl⟩⟩
        · rename_i hfree
          obtain ⟨hdetached, hjoining⟩ := not_or.1 hfree
          cases h
          exact ⟨rfl, .inl ⟨g, none, none, .detach hmem (Bool.eq_false_iff.2 hdetached)
            (Bool.eq_false_iff.2 hjoining), rfl, rfl, rfl⟩⟩

/-- What a call detaches: it has set `detached` before it returns. -/
theorem guestNext_detaching {x : Choice T} {s s' : Shared T} {l l' : Local T} {e : Event T}
    (h : guestNext x s l = some (e, s', l')) :
    (∀ g, l'.call.detaching = some g → l.call.detaching = some g ∨ e = .detaches g) ∧
      ∀ g, e = .detached g → l.call.detaching = some g := by
  obtain ⟨self, stage, call⟩ := l
  cases call with
  | idle =>
      obtain ⟨-, ⟨he, -, -, hcall, -⟩ | ⟨hturn, hcall⟩⟩ := idleStep_cases rfl h
      · rw [hcall]
        refine ⟨nofun, fun g hg => ?_⟩
        rcases he with rfl | rfl | rfl <;> cases hg
      · rw [hcall]
        refine ⟨nofun, fun g hg => ?_⟩
        rw [hg] at hturn
        cases hturn
  -- a detach reaps first, and the record it detaches goes along
  | reap after =>
      simp only [guestNext, reapStep] at h
      split at h
      · cases h
        cases after <;> exact ⟨fun g hg => .inl hg, nofun⟩
      · cases after with
        | create detached =>
            cases h
            exact ⟨nofun, nofun⟩
        | join t ret =>
            cases h
            exact ⟨nofun, nofun⟩
        | detach g =>
            cases h
            refine ⟨nofun, ?_⟩
            rintro g ⟨⟩
            rfl
  | reapClose g after =>
      cases h
      cases after <;> exact ⟨fun g hg => .inl hg, nofun⟩
  | reapFree g after =>
      cases h
      cases after <;> exact ⟨fun g hg => .inl hg, nofun⟩
  | detachFind t =>
      simp only [guestNext, detachFindStep] at h
      split at h
      · cases h
        exact ⟨nofun, nofun⟩
      · split at h
        · cases h
          exact ⟨nofun, nofun⟩
        · cases h
          refine ⟨?_, nofun⟩
          rintro g ⟨⟩
          exact .inr rfl
  | createThread g =>
      simp only [guestNext, threadStep] at h
      split at h
      · split at h
        · cases h
        · cases h
          by_cases hzero : x.handle = 0
          · rw [if_pos hzero]
            exact ⟨nofun, nofun⟩
          · rw [if_neg hzero]
            exact ⟨nofun, nofun⟩
      · cases h
        exact ⟨nofun, nofun⟩
  -- no other call detaches anything
  | _ =>
      simp only [guestNext, allocStep, startStep, joinFindStep, waitStep] at h
      repeat' split at h
      all_goals
        cases h
        try exact ⟨nofun, nofun⟩

/-! ## What a step keeps -/

/-- The two states are alike for the record `g` and its thread. -/
structure Shared.Agree (s s' : Shared T) (g : T) : Prop where
  place : s'.place g = s.place g
  thread : s'.thread g = s.thread g
  record : s'.record g = s.record g
  handle : s'.handle g = s.handle g
  opened : g ∈ s'.opened ↔ g ∈ s.opened
  listed : g ∈ s'.guestThreads ↔ g ∈ s.guestThreads

omit [DecidableEq T] in
theorem Role.Ok.of_agree {s s' : Shared T} {g : T} {r : Role} (h : r.Ok s g)
    (hagree : s.Agree s' g) :
    r.Ok s' g := by
  cases r <;> simpa only [Role.Ok, hagree.place, hagree.thread, hagree.record, hagree.handle,
    hagree.opened] using h

/-- A turn is about one record. -/
theorem Turn.agree {s s' : Shared T} {g k : T} {r r' : Option Role} {e : Event T}
    (h : Turn s g r e s' r') (hk : k ≠ g) : s.Agree s' k := by
  cases h <;> constructor <;> simp [List.mem_erase_of_ne hk, hk]

/-- What holds of a record, its thread and its handle. -/
structure Shared.OkAt (s : Shared T) (g : T) : Prop where
  listed : g ∈ s.guestThreads ↔ s.place g = .registered
  live : s.place g ≠ .none → s.thread g = .started → s.place g = .registered
  ids : s.place g = .registered → (s.record g).pthreadId = s.handle g
  opened : s.place g = .registered ∨ s.thread g = .started → g ∈ s.opened
  born : g ∈ s.opened → s.thread g ≠ .none

/-- What holds of the list, the threads and the handles. -/
structure Shared.Ok (s : Shared T) : Prop where
  nodup : s.guestThreads.Nodup
  handles : (s.opened.map s.handle).Nodup
  records : ∀ g, s.OkAt g

omit [DecidableEq T] in
theorem Shared.OkAt.of_agree {s s' : Shared T} {g : T} (h : s.OkAt g) (hagree : s.Agree s' g) :
    s'.OkAt g := by
  obtain ⟨hplace, hthread, hrecord, hhandle, hopened, hlisted⟩ := hagree
  constructor <;> simp only [hplace, hthread, hrecord, hhandle, hopened, hlisted]
  · exact h.listed
  · exact h.live
  · exact h.ids
  · exact h.opened
  · exact h.born

section

variable {s s' : Shared T} {g : T} {r r' : Option Role} {e : Event T}

omit [DecidableEq T] in
/-- A record in the list, whose thread has been created, is as it should be. -/
theorem Shared.OkAt.inside (hplace : s.place g = .registered) (hlist : g ∈ s.guestThreads)
    (hid : (s.record g).pthreadId = s.handle g) (hopened : g ∈ s.opened)
    (hthread : s.thread g ≠ .none) :
    s.OkAt g :=
  ⟨iff_of_true hlist hplace, fun _ _ => hplace, fun _ => hid, fun _ => hopened, fun _ => hthread⟩

omit [DecidableEq T] in
/-- A record outside the list, whose thread does not run, is as it should be. -/
theorem Shared.OkAt.outside (hplace : s.place g ≠ .registered) (hlist : g ∉ s.guestThreads)
    (hthread : s.thread g ≠ .started) (hborn : g ∈ s.opened → s.thread g ≠ .none) : s.OkAt g :=
  ⟨iff_of_false hlist hplace, fun _ h => absurd h hthread, fun h => absurd h hplace,
    fun h => (h.elim hplace hthread).elim, hborn⟩

/-- The fields that the other functions look at may change in a record. -/
theorem Shared.OkAt.setRecord (h : s.OkAt g) {q : GuestThread}
    (hid : q.pthreadId = (s.record g).pthreadId) : (s.setRecord g q).OkAt g := by
  refine ⟨h.listed, h.live, fun hplace => ?_, h.opened, h.born⟩
  show (Function.update s.record g q g).pthreadId = s.handle g
  rw [Function.update_self, hid]
  exact h.ids hplace

/-- A record that leaves the list. -/
theorem Shared.OkAt.unlink (h : s.OkAt g) (hnodup : s.guestThreads.Nodup)
    (hthread : s.thread g ≠ .started) : (s.unlink g).OkAt g := by
  have hplace : (s.unlink g).place g = .unlinked := Function.update_self ..
  exact .outside (by rw [hplace]; exact nofun) hnodup.not_mem_erase hthread h.born

/-- A handle that is closed. -/
theorem Shared.OkAt.close (h : s.OkAt g) (hclosed : g ∉ s.opened.erase g)
    (hplace : s.place g ≠ .registered) (hthread : s.thread g ≠ .started) : (s.close g).OkAt g :=
  .outside hplace (fun hg => hplace (h.listed.1 hg)) hthread fun hg => absurd hg hclosed

/-- A record that is freed. -/
theorem Shared.OkAt.free (h : s.OkAt g) (hplace : s.place g ≠ .registered)
    (hthread : s.thread g ≠ .started) : (s.free g).OkAt g := by
  have hfreed : (s.free g).place g = .freed := Function.update_self ..
  exact .outside (by rw [hfreed]; exact nofun) (fun hg => hplace (h.listed.1 hg)) hthread h.born

/-- A new thread whose record is not in the list. -/
theorem Shared.OkAt.spawn (h : s.OkAt g) (hplace : s.place g = .allocated) (handle : Nat) :
    (s.spawn g handle).OkAt g := by
  have hthread : (s.spawn g handle).thread g = .created := Function.update_self ..
  refine .outside (s := s.spawn g handle) (fun hreg => ?_) (fun hg => ?_)
    (by rw [hthread]; exact nofun)
    fun _ => by rw [hthread]; exact nofun
  · rw [show s.place g = .registered from hreg] at hplace
    cases hplace
  · rw [h.listed.1 hg] at hplace
    cases hplace

/-- A thread that ends. -/
theorem Shared.OkAt.ends (h : s.OkAt g) (hthread : s.thread g = .started) :
    (s.setThread g .ended).OkAt g := by
  have hended : (s.setThread g .ended).thread g = .ended := Function.update_self ..
  refine ⟨h.listed, fun _ hstarted => ?_, h.ids, fun _ => h.opened (.inr hthread), fun _ => ?_⟩
  · rw [hended] at hstarted
    cases hstarted
  · rw [hended]
    exact nofun

omit [DecidableEq T] in
/-- What the role of one that gives a record up says of it. -/
theorem Role.Ok.abandoned (h : Role.abandoned.Ok s g) :
    s.place g ≠ .registered ∧ s.thread g ≠ .started ∧ s.thread g ≠ .ended := by
  obtain ⟨hplace, hthread⟩ := h
  refine ⟨?_, ?_, ?_⟩
  · rcases hplace with hplace | hplace <;> rw [hplace] <;> exact nofun
  · rcases hthread with hthread | hthread <;> rw [hthread] <;> exact nofun
  · rcases hthread with hthread | hthread <;> rw [hthread] <;> exact nofun

/-- The record of a turn stays as it should be. -/
theorem Turn.okAt (h : Turn s g r e s' r') (hs : s.Ok) (hr : ∀ q ∈ r, q.Ok s g) : s'.OkAt g := by
  have hat := hs.records g
  have hclosed : g ∉ s.opened.erase g := (List.Nodup.of_map _ hs.handles).not_mem_erase
  cases h with
  -- the record is in memory, but not in the list yet
  | alloc detached hplace hthread =>
      have hplace' : (s.alloc g detached).place g = .allocated := Function.update_self ..
      refine .outside (by rw [hplace']; exact nofun) (fun hg => ?_) (fun h => ?_) hat.born
      · rw [hat.listed.1 hg] at hplace
        cases hplace
      · rw [show s.thread g = .started from h] at hthread
        cases hthread
  | spawn handle => exact hat.spawn (hr _ rfl).1 handle
  | spawnNull => exact hat.spawn (hr _ rfl).1 0
  | add =>
      obtain ⟨-, hthread, hopened, hid⟩ := hr _ rfl
      refine .inside (s := s.add g) (Function.update_self ..) List.mem_cons_self hid hopened ?_
      show s.thread g ≠ .none
      rw [hthread]
      exact nofun
  | start =>
      obtain ⟨hplace, -⟩ := hr _ rfl
      have hthread : (s.setThread g .started).thread g = .started := Function.update_self ..
      exact .inside hplace (hat.listed.2 hplace) (hat.ids hplace) (hat.opened (.inl hplace))
        (by rw [hthread]; exact nofun)
  -- out of the list: it had one place there, and what is left of its thread is known
  | withdraw =>
      obtain ⟨-, hthread⟩ := hr _ rfl
      exact hat.unlink hs.nodup (by rw [hthread]; exact nofun)
  | reap _ _ _ hended => exact hat.unlink hs.nodup (by rw [hended]; exact nofun)
  | take =>
      obtain ⟨-, -, -, hended, -⟩ := hr _ rfl
      exact hat.unlink hs.nodup (by rw [hended]; exact nofun)
  -- the handle is closed once, since no other record has it
  | closeAbandoned =>
      obtain ⟨hplace, hthread, -⟩ := (hr _ rfl).abandoned
      exact hat.close hclosed hplace hthread
  | closeReaped =>
      obtain ⟨hplace, -, hended⟩ := hr _ rfl
      exact hat.close hclosed (by rw [hplace]; exact nofun) (by rw [hended]; exact nofun)
  | closeTaken =>
      obtain ⟨hplace, -, -, hended, -⟩ := hr _ rfl
      exact hat.close hclosed (by rw [hplace]; exact nofun) (by rw [hended]; exact nofun)
  -- the memory goes back, of a record in no list
  | discard =>
      obtain ⟨hplace, hthread, -⟩ := (hr _ rfl).abandoned
      exact hat.free hplace hthread
  | reaped =>
      obtain ⟨hplace, -, hended⟩ := hr _ rfl
      exact hat.free (by rw [hplace]; exact nofun) (by rw [hended]; exact nofun)
  | yield =>
      obtain ⟨hplace, -, -, hended, -⟩ := hr _ rfl
      exact hat.free (by rw [hplace]; exact nofun) (by rw [hended]; exact nofun)
  -- only flags change
  | hold | release | detach => exact hat.setRecord rfl
  | _ => exact hat

theorem Turn.nodup (h : Turn s g r e s' r') (hs : s.Ok) (hr : ∀ q ∈ r, q.Ok s g) :
    s'.guestThreads.Nodup := by
  have hnodup := hs.nodup
  cases h with
  | add =>
      have hplace := (hr _ rfl).1
      refine List.nodup_cons.2 ⟨fun hg => ?_, hnodup⟩
      simp [(hs.records g).listed.1 hg] at hplace
  | withdraw => exact hnodup.erase g
  | reap => exact hnodup.erase g
  | take => exact hnodup.erase g
  | _ => exact hnodup

/-- A new handle is none that is open. -/
theorem Shared.Ok.spawn_handles (hs : s.Ok) (hthread : s.thread g = .none) {handle : Nat}
    (hhandle : handle ∉ s.opened.map s.handle) :
    ((s.spawn g handle).opened.map (s.spawn g handle).handle).Nodup := by
  have hclosed : g ∉ s.opened := fun hg => (hs.records g).born hg hthread
  have hothers : s.opened.map (Function.update s.handle g handle) = s.opened.map s.handle := by
    refine List.map_congr_left fun k hk => Function.update_of_ne ?_ ..
    rintro rfl
    exact hclosed hk
  show ((g :: s.opened).map (Function.update s.handle g handle)).Nodup
  rw [List.map_cons, hothers, Function.update_self]
  exact List.nodup_cons.2 ⟨hhandle, hs.handles⟩

theorem Turn.handles (h : Turn s g r e s' r') (hs : s.Ok) (hr : ∀ q ∈ r, q.Ok s g) :
    (s'.opened.map s'.handle).Nodup := by
  have hclose : ((s.opened.erase g).map s.handle).Nodup :=
    hs.handles.sublist ((List.erase_sublist ..).map _)
  cases h with
  | spawn handle hhandle => exact hs.spawn_handles (hr _ rfl).2 hhandle
  | spawnNull hhandle => exact hs.spawn_handles (hr _ rfl).2 hhandle
  | closeAbandoned => exact hclose
  | closeReaped => exact hclose
  | closeTaken => exact hclose
  | _ => exact hs.handles

/-- A turn keeps what holds of the list, the threads and the handles. -/
theorem Turn.ok (h : Turn s g r e s' r') (hs : s.Ok) (hr : ∀ q ∈ r, q.Ok s g) : s'.Ok where
  nodup := h.nodup hs hr
  handles := h.handles hs hr
  records k := by
    by_cases hk : k = g
    · rw [hk]
      exact h.okAt hs hr
    · exact (hs.records k).of_agree (h.agree hk)

/-- The thread that makes a turn has what its next role needs. -/
theorem Turn.role_ok (h : Turn s g r e s' r') (hs : s.Ok) (hr : ∀ q ∈ r, q.Ok s g) :
    ∀ q ∈ r', q.Ok s' g := by
  have hat := hs.records g
  intro q hq
  cases h with
  | alloc detached hplace hthread =>
      cases hq
      exact ⟨Function.update_self .., hthread⟩
  | spawn handle =>
      cases hq
      refine ⟨(hr _ rfl).1, Function.update_self .., List.mem_cons_self, ?_⟩
      show (Function.update s.record g _ g).pthreadId = Function.update s.handle g handle g
      rw [Function.update_self, Function.update_self]
  | spawnNull =>
      cases hq
      exact ⟨.inl (hr _ rfl).1, .inr (Function.update_self ..)⟩
  | noThread =>
      cases hq
      exact ⟨.inl (hr _ rfl).1, .inl (hr _ rfl).2⟩
  | add =>
      cases hq
      exact ⟨Function.update_self .., (hr _ rfl).2.1⟩
  | start =>
      cases hq
      refine ⟨?_, .inl (Function.update_self ..)⟩
      show s.place g ≠ .none
      rw [(hr _ rfl).1]
      exact nofun
  | withdraw =>
      cases hq
      exact ⟨.inr (Function.update_self ..), .inr (hr _ rfl).2⟩
  | reap _ hdetached _ hended =>
      cases hq
      exact ⟨Function.update_self .., hdetached, hended⟩
  | hold hmem hdetached =>
      cases hq
      refine .inl ⟨hat.listed.1 hmem, ?_, ?_⟩
      · show (Function.update s.record g _ g).joining = true
        rw [Function.update_self]
      · show (Function.update s.record g _ g).detached = false
        rw [Function.update_self]
        exact hdetached
  | ended hended =>
      cases hq
      rcases hr _ rfl with ⟨hplace, hjoining, hdetached⟩ | ⟨-, hcreated⟩
      · exact ⟨hplace, hjoining, hdetached, hended, nofun⟩
      · rw [hended] at hcreated
        cases hcreated
  | read v hv =>
      cases hq
      obtain ⟨hplace, hjoining, hdetached, hended, -⟩ := hr _ rfl
      exact ⟨hplace, hjoining, hdetached, hended, hv⟩
  | take v =>
      cases hq
      obtain ⟨-, hjoining, hdetached, hended, hv⟩ := hr _ rfl
      exact ⟨Function.update_self .., hjoining, hdetached, hended, hv⟩
  | closeAbandoned | closeReaped | closeTaken =>
      cases hq
      exact hr _ rfl
  | stay => exact hr q hq
  | _ => cases hq

omit [DecidableEq T] in
/-- Only a thread that has been created, and has not run, has a maker. -/
theorem Role.Ok.maker {q : Role} (hq : q.Ok s g) (hmaker : q.side = some .maker) :
    s.thread g ≠ .started ∧ s.thread g ≠ .ended := by
  cases q with
  | made =>
      rw [hq.2]
      exact ⟨nofun, nofun⟩
  | threaded =>
      rw [hq.2.1]
      exact ⟨nofun, nofun⟩
  | listed =>
      rw [hq.2]
      exact ⟨nofun, nofun⟩
  | abandoned => exact hq.abandoned.2
  | _ => cases hmaker

omit [DecidableEq T] in
/-- A role that makes a record in the list has put it there. -/
theorem Role.Ok.maker_listed {q : Role} (hq : q.Ok s g) (hmaker : q.side = some .maker)
    (hplace : s.place g = .registered) : q = .listed := by
  cases q with
  | made | threaded => exact nomatch hplace.symm.trans hq.1
  | listed => rfl
  | abandoned => exact absurd hplace hq.abandoned.1
  | _ => cases hmaker

omit [DecidableEq T] in
/-- A role other than a maker's, for a thread that has not run, waits for it. -/
theorem Role.Ok.waits_of_not_run {q : Role} (hq : q.Ok s g) (hmaker : q.side ≠ some .maker)
    (hstarted : s.thread g ≠ .started) (hended : s.thread g ≠ .ended) : q = .waits := by
  cases q with
  | waits => rfl
  | traced => exact (hq.2.elim hstarted hended).elim
  | takes => exact absurd hq.2.2.2.1 hended
  | taken => exact absurd hq.2.2.2.1 hended
  | reaped => exact absurd hq.2.2 hended
  | _ => exact absurd rfl hmaker

omit [DecidableEq T] in
/-- A record in the list that nobody joins has nobody who takes it away. -/
theorem Role.Ok.not_taker {q : Role} (hq : q.Ok s g) (hplace : s.place g = .registered)
    (hjoining : (s.record g).joining = false) : q.side ≠ some .taker := by
  intro htaker
  cases q with
  | waits =>
      rcases hq with ⟨-, hjoins, -⟩ | ⟨hgone | hgone, -⟩
      · rw [hjoining] at hjoins
        cases hjoins
      · rw [hplace] at hgone
        cases hgone
      · rw [hplace] at hgone
        cases hgone
  | takes =>
      have hjoins := hq.2.1
      rw [hjoining] at hjoins
      cases hjoins
  | taken | reaped => exact nomatch hplace.symm.trans hq.1
  | _ => cases htaker

theorem Role.eq_traced {q : Role} (hmaker : q.side ≠ some .maker) (htaker : q.side ≠ some .taker) :
    q = .traced := by
  cases q with
  | traced => rfl
  | made | threaded | listed | abandoned => exact absurd rfl hmaker
  | waits | takes | taken | reaped => exact absurd rfl htaker

omit [DecidableEq T] in
/-- Every role is for a record that has been allocated. -/
theorem Role.Ok.place_ne {q : Role} (hq : q.Ok s g) : s.place g ≠ .none := by
  intro hplace
  cases q with
  | waits =>
      rcases hq with ⟨hreg, -⟩ | ⟨hgone | hgone, -⟩
      · rw [hplace] at hreg
        cases hreg
      · rw [hplace] at hgone
        cases hgone
      · rw [hplace] at hgone
        cases hgone
  | abandoned =>
      rcases hq.1 with hgone | hgone
      · rw [hplace] at hgone
        cases hgone
      · rw [hplace] at hgone
        cases hgone
  | traced => exact hq.1 hplace
  | made | threaded | listed | takes | taken | reaped => exact nomatch hplace.symm.trans hq.1

/-- The others keep what their roles for the record need. -/
theorem Turn.other_ok {q : Role} (h : Turn s g r e s' r') (hs : s.Ok) (hr : ∀ q ∈ r, q.Ok s g)
    (hq : q.Ok s g) (hside : ∀ p ∈ r, p.side = q.side → p.side = none) : q.Ok s' g := by
  have hlisted := (hs.records g).listed
  -- what is not on the side of the one that makes the turn
  have hmaker : ∀ p ∈ r, p.side = some .maker → q.side ≠ some .maker := fun p hp hpside hqside => by
    have hnone := hside p hp (hpside.trans hqside.symm)
    rw [hpside] at hnone
    cases hnone
  have htaker : ∀ p ∈ r, p.side = some .taker → q.side ≠ some .taker := fun p hp hpside hqside => by
    have hnone := hside p hp (hpside.trans hqside.symm)
    rw [hpside] at hnone
    cases hnone
  have hended : s.thread g = .ended → q.side ≠ some .maker := fun hend hqside =>
    (hq.maker hqside).2 hend
  -- a thread that has not run can only be waited for, and then its record is in the list or gone
  have hwaits : s.thread g ≠ .started → s.thread g ≠ .ended → q.side ≠ some .maker →
      q = .waits ∧ s.place g ≠ .allocated := fun hstarted hend hqside => by
    obtain rfl := hq.waits_of_not_run hqside hstarted hend
    refine ⟨rfl, fun hplace => ?_⟩
    rcases hq with ⟨hreg, -⟩ | ⟨hgone | hgone, -⟩
    · rw [hplace] at hreg
      cases hreg
    · rw [hplace] at hgone
      cases hgone
    · rw [hplace] at hgone
      cases hgone
  cases h with
  | alloc detached hplace => exact absurd hplace hq.place_ne
  | spawn | spawnNull =>
      obtain ⟨hplace, hthread⟩ := hr _ rfl
      exact absurd hplace (hwaits (by rw [hthread]; exact nofun) (by rw [hthread]; exact nofun)
        (hmaker _ rfl rfl)).2
  | add =>
      obtain ⟨hplace, hthread, -⟩ := hr _ rfl
      exact absurd hplace (hwaits (by rw [hthread]; exact nofun) (by rw [hthread]; exact nofun)
        (hmaker _ rfl rfl)).2
  | start =>
      obtain ⟨hplace, hthread⟩ := hr _ rfl
      obtain ⟨rfl, -⟩ := hwaits (by rw [hthread]; exact nofun) (by rw [hthread]; exact nofun)
        (hmaker _ rfl rfl)
      rcases hq with hq | ⟨hgone | hgone, -⟩
      · exact .inl hq
      · rw [hplace] at hgone
        cases hgone
      · rw [hplace] at hgone
        cases hgone
  | withdraw =>
      obtain ⟨-, hthread⟩ := hr _ rfl
      obtain ⟨rfl, -⟩ := hwaits (by rw [hthread]; exact nofun) (by rw [hthread]; exact nofun)
        (hmaker _ rfl rfl)
      exact .inr ⟨.inl (Function.update_self ..), hthread⟩
  | discard =>
      obtain ⟨hplace, hstarted, hend⟩ := (hr _ rfl).abandoned
      obtain ⟨rfl, -⟩ := hwaits hstarted hend (hmaker _ rfl rfl)
      rcases hq with ⟨hreg, -⟩ | ⟨-, hcreated⟩
      · exact absurd hreg hplace
      · exact .inr ⟨.inr (Function.update_self ..), hcreated⟩
  | closeAbandoned =>
      cases q with
      | threaded => exact absurd rfl (hmaker _ rfl rfl)
      | _ => exact hq
  | closeReaped =>
      cases q with
      | threaded => exact absurd rfl (hended (hr _ rfl).2.2)
      | _ => exact hq
  | closeTaken =>
      cases q with
      | threaded => exact absurd rfl (hended (hr _ rfl).2.2.2.1)
      | _ => exact hq
  | reap hmem _ hjoining hend =>
      obtain rfl := Role.eq_traced (hended hend) (hq.not_taker (hlisted.1 hmem) hjoining)
      have hplace : (s.unlink g).place g = .unlinked := Function.update_self ..
      exact ⟨by rw [hplace]; exact nofun, hq.2⟩
  | take =>
      obtain rfl := Role.eq_traced (hended (hr _ rfl).2.2.2.1) (htaker _ rfl rfl)
      have hplace : (s.unlink g).place g = .unlinked := Function.update_self ..
      exact ⟨by rw [hplace]; exact nofun, hq.2⟩
  | reaped =>
      obtain rfl := Role.eq_traced (hended (hr _ rfl).2.2) (htaker _ rfl rfl)
      have hplace : (s.free g).place g = .freed := Function.update_self ..
      exact ⟨by rw [hplace]; exact nofun, hq.2⟩
  | yield =>
      obtain rfl := Role.eq_traced (hended (hr _ rfl).2.2.2.1) (htaker _ rfl rfl)
      have hplace : (s.free g).place g = .freed := Function.update_self ..
      exact ⟨by rw [hplace]; exact nofun, hq.2⟩
  | hold hmem _ hjoining | detach hmem _ hjoining =>
      have hqside := hq.not_taker (hlisted.1 hmem) hjoining
      by_cases hqmaker : q.side = some .maker
      · obtain rfl := hq.maker_listed hqmaker (hlisted.1 hmem)
        exact hq
      · obtain rfl := Role.eq_traced hqmaker hqside
        exact hq
  | release =>
      cases q with
      | threaded =>
          obtain ⟨hplace, hthread, hopened, hid⟩ := hq
          refine ⟨hplace, hthread, hopened, ?_⟩
          show (Function.update s.record g _ g).pthreadId = s.handle g
          rw [Function.update_self]
          exact hid
      | made | listed | abandoned | traced => exact hq
      | waits | takes | taken | reaped => exact absurd rfl (htaker _ rfl rfl)
  | _ => exact hq

/-- A thread that takes on a side for a record is the first one there. -/
theorem Turn.first {q p : Role} (h : Turn s g none e s' r') (hs : s.Ok) (hp : p ∈ r')
    (hq : q.Ok s g)
    (hside : p.side = q.side) (hsome : p.side ≠ none) : False := by
  have hlisted := (hs.records g).listed
  cases h with
  | alloc detached hplace => exact hq.place_ne hplace
  | reap hmem _ hjoining =>
      cases hp
      exact hq.not_taker (hlisted.1 hmem) hjoining hside.symm
  | hold hmem _ hjoining =>
      cases hp
      exact hq.not_taker (hlisted.1 hmem) hjoining hside.symm
  | _ => cases hp

end

/-! ## Stages -/

/-- What holds of a thread at a stage. A thread in `bionic_pthread_exit` has found its own record,
if it has one. -/
def Stage.Ok (s : Shared T) (t : T) : Stage T → Prop
  | .unborn => s.thread t ≠ .ended
  | .running => s.thread t = .started
  | .returned _ => s.thread t = .started
  | .exiting _ found => s.thread t = .started ∧ (∀ g ∈ found, g = t) ∧
      (s.place t ≠ .none → found = some t)
  | .stored => s.thread t = .started
  | .ended => s.thread t = .ended

omit [DecidableEq T] in
/-- A thread is known by its handle. -/
theorem Shared.Ok.eq_of_handle {s : Shared T} (hs : s.Ok) {g k : T} (hg : g ∈ s.opened)
    (hk : k ∈ s.opened) (h : s.handle g = s.handle k) : g = k :=
  List.inj_on_of_nodup_map hs.handles hg hk h

omit [DecidableEq T] in
/-- A running thread finds its own record, if it has one, and no other. -/
theorem Shared.Ok.find_self {s : Shared T} (hs : s.Ok) {t : T} (ht : s.thread t = .started) :
    (∀ g ∈ s.find (s.handle t), g = t) ∧ (s.place t ≠ .none → s.find (s.handle t) = some t) := by
  have hopened := (hs.records t).opened (.inr ht)
  have hself : ∀ g ∈ s.find (s.handle t), g = t := fun g hg => by
    obtain ⟨hmem, hid⟩ := s.mem_of_find hg
    have hplace := (hs.records g).listed.1 hmem
    rw [(hs.records g).ids hplace] at hid
    exact hs.eq_of_handle ((hs.records g).opened (.inl hplace)) hopened hid
  refine ⟨hself, fun hplace => ?_⟩
  have hregistered := (hs.records t).live hplace ht
  have hfound : (s.find (s.handle t)).isSome := List.find?_isSome.2
    ⟨t, (hs.records t).listed.2 hregistered, decide_eq_true ((hs.records t).ids hregistered)⟩
  obtain ⟨g, hg⟩ := Option.isSome_iff_exists.1 hfound
  rw [hg, hself g hg]

/-- What a turn does to the thread of its record. -/
theorem Turn.thread_cases {s s' : Shared T} {g : T} {r r' : Option Role} {e : Event T}
    (h : Turn s g r e s' r') (hr : ∀ q ∈ r, q.Ok s g) :
    s'.thread g = s.thread g ∨ (s.thread g = .none ∧ s'.thread g = .created) ∨
      (s.thread g = .created ∧ s'.thread g = .started) := by
  cases h with
  | spawn | spawnNull => exact .inr (.inl ⟨(hr _ rfl).2, Function.update_self ..⟩)
  | start => exact .inr (.inr ⟨(hr _ rfl).2, Function.update_self ..⟩)
  | _ => exact .inl rfl

/-- The place of the record of a thread that runs is given by the turn before. -/
theorem Turn.place_kept {s s' : Shared T} {g : T} {r r' : Option Role} {e : Event T}
    (h : Turn s g r e s' r') (hr : ∀ q ∈ r, q.Ok s g) (hthread : s.thread g = .started) :
    s'.place g = s.place g ∨ s.place g ≠ .none := by
  cases h with
  | alloc _ _ hnone => exact nomatch hnone.symm.trans hthread
  | reap _ _ _ hended => exact nomatch hended.symm.trans hthread
  | add | withdraw | take | discard | reaped | yield => exact .inr (hr _ rfl).place_ne
  | _ => exact .inl rfl

/-- The stages of all threads stay as they should be in a turn. -/
theorem Turn.stage_ok {s s' : Shared T} {g t : T} {r r' : Option Role} {e : Event T}
    {stage : Stage T}
    (h : Turn s g r e s' r') (hr : ∀ q ∈ r, q.Ok s g) (hstage : stage.Ok s t) : stage.Ok s' t := by
  by_cases ht : t = g
  · subst ht
    have hkept : s.thread t ≠ .none → s.thread t ≠ .created → s'.thread t = s.thread t :=
      fun hnone hcreated => by
        rcases h.thread_cases hr with hsame | ⟨hthread, -⟩ | ⟨hthread, -⟩
        · exact hsame
        · exact absurd hthread hnone
        · exact absurd hthread hcreated
    have hstarted : s.thread t = .started → s'.thread t = .started := fun hthread =>
      (hkept (by rw [hthread]; exact nofun) (by rw [hthread]; exact nofun)).trans hthread
    cases stage with
    | unborn =>
        intro hended
        rcases h.thread_cases hr with hsame | ⟨-, hcreated⟩ | ⟨-, hstarted⟩
        · exact hstage (hsame.symm.trans hended)
        · exact nomatch hcreated.symm.trans hended
        · exact nomatch hstarted.symm.trans hended
    | running => exact hstarted hstage
    | returned v => exact hstarted hstage
    | exiting v found =>
        refine ⟨hstarted hstage.1, hstage.2.1, fun hplace => hstage.2.2 ?_⟩
        rcases h.place_kept hr hstage.1 with hsame | hold
        · rw [← hsame]
          exact hplace
        · exact hold
    | stored => exact hstarted hstage
    | ended =>
        have hthread : s.thread t = .ended := hstage
        exact (hkept (by rw [hthread]; exact nofun) (by rw [hthread]; exact nofun)).trans hthread
  · have hagree := h.agree ht
    cases stage <;> simpa only [Stage.Ok, hagree.place, hagree.thread] using hstage

section

variable {s s' : Shared T} {t k : T} {e : Event T} {stage stage' : Stage T}

/-- A step of its own is about the record of the thread. -/
theorem StageTurn.agree (h : StageTurn s t stage e s' stage') (hstage : stage.Ok s t) (hk : k ≠ t) :
    s.Agree s' k := by
  cases h with
  | storesExited v g =>
      obtain rfl := hstage.2.1 g rfl
      constructor <;> simp [hk]
  | _ => constructor <;> simp [hk]

theorem StageTurn.ok (h : StageTurn s t stage e s' stage') (hstage : stage.Ok s t) (hs : s.Ok) :
    s'.Ok := by
  have hrecord := hs.records t
  have hlists : s'.guestThreads = s.guestThreads ∧ s'.opened = s.opened ∧ s'.handle = s.handle := by
    cases h <;> exact ⟨rfl, rfl, rfl⟩
  refine ⟨?_, ?_, fun k => ?_⟩
  · rw [hlists.1]
    exact hs.nodup
  · rw [hlists.2.1, hlists.2.2]
    exact hs.handles
  · by_cases hk : k = t
    · subst hk
      cases h with
      | storesReturned v => exact hrecord.setRecord rfl
      | storesExited v g =>
          obtain rfl := hstage.2.1 g rfl
          exact hrecord.setRecord rfl
      | ends => exact hrecord.ends hstage
      | _ => exact hrecord
    · exact (hs.records k).of_agree (h.agree hstage hk)

/-- What a role for the record of a running thread needs stays when the thread stores its value. -/
theorem Role.Ok.store {q : Role} (hq : q.Ok s t) (hthread : s.thread t = .started) (v : Nat) :
    q.Ok (s.store t v) t := by
  have hrecord : (s.store t v).record t = { s.record t with ret := v, finished := true } :=
    Function.update_self ..
  cases q with
  | threaded => exact nomatch hthread.symm.trans hq.2.1
  | waits =>
      refine hq.imp (fun h => ⟨h.1, ?_⟩) id
      rw [hrecord]
      exact h.2
  | takes | taken => exact nomatch hthread.symm.trans hq.2.2.2.1
  | reaped => exact nomatch hthread.symm.trans hq.2.2
  | _ => exact hq

/-- And when the thread ends. -/
theorem Role.Ok.ends {q : Role} (hq : q.Ok s t) (hthread : s.thread t = .started) :
    q.Ok (s.setThread t .ended) t := by
  have hmaker : q.side ≠ some .maker := fun hside => (hq.maker hside).1 hthread
  cases q with
  | traced => exact ⟨hq.1, .inr (Function.update_self ..)⟩
  | waits =>
      rcases hq with hq | ⟨-, hcreated⟩
      · exact .inl hq
      · exact nomatch hthread.symm.trans hcreated
  | takes | taken => exact nomatch hthread.symm.trans hq.2.2.2.1
  | reaped => exact nomatch hthread.symm.trans hq.2.2
  | _ => exact absurd rfl hmaker

theorem StageTurn.role_ok {q : Role} (h : StageTurn s t stage e s' stage') (hstage : stage.Ok s t)
    (hq : q.Ok s t) : q.Ok s' t := by
  cases h with
  | storesReturned v => exact hq.store hstage v
  | storesExited v g =>
      obtain rfl := hstage.2.1 g rfl
      exact hq.store hstage.1 v
  | ends => exact hq.ends hstage
  | _ => exact hq

theorem StageTurn.self_ok (h : StageTurn s t stage e s' stage') (hstage : stage.Ok s t)
    (hs : s.Ok) :
    stage'.Ok s' t := by
  cases h with
  | exits stage v hunborn hstored hended =>
      have ht : s.thread t = .started := by
        cases stage with
        | unborn => exact absurd rfl hunborn
        | stored => exact absurd rfl hstored
        | ended => exact absurd rfl hended
        | running => exact hstage
        | returned v => exact hstage
        | exiting v g => exact hstage.1
      exact ⟨ht, hs.find_self ht⟩
  | _ => simp_all [Stage.Ok]

end

/-! ## The invariant -/

/-- The invariant of the guest threads. -/
structure Inv (c : Config T (Shared T) (Local T)) : Prop where
  self : ∀ t, (c.locals t).self = t
  shared : c.shared.Ok
  roles : ∀ t g r, (c.locals t).call.role = some (g, r) → r.Ok c.shared g
  unique : ∀ t u g r q, (c.locals t).call.role = some (g, r) → (c.locals u).call.role =
    some (g, q) →
    r.side = q.side → r.side ≠ none → t = u
  stages : ∀ t, (c.locals t).stage.Ok c.shared t

/-- It holds at the start. -/
theorem Initial.inv {c : Config T (Shared T) (Local T)} (h : Initial c) : Inv c where
  self := h.self
  shared := {
    nodup := by
      rw [h.empty]
      exact List.nodup_nil
    handles := h.handles
    records := fun g => {
      listed := by
        rw [h.empty, h.places]
        simp
      live := fun hplace => absurd (h.places g) hplace
      ids := fun hplace => by
        rw [h.places] at hplace
        cases hplace
      opened := fun hg => by
        by_contra hclosed
        rw [h.places, (h.others g hclosed).1] at hg
        exact hg.elim nofun nofun
      born := fun hg => by
        rw [(h.foreign g hg).1]
        exact nofun } }
  roles t g r hrole := by
    rw [h.idle] at hrole
    cases hrole
  unique t u g r q hrole := by
    rw [h.idle] at hrole
    cases hrole
  stages t := by
    by_cases ht : t ∈ c.shared.opened
    · rw [(h.foreign t ht).2]
      exact (h.foreign t ht).1
    · rw [(h.others t ht).2]
      show c.shared.thread t ≠ .ended
      rw [(h.others t ht).1]
      exact nofun

/-- A turn keeps the invariant. -/
theorem Inv.turn {c : Config T (Shared T) (Local T)} {t g : T} {r r' : Option Role} {e : Event T}
    {s' : Shared T} {l' : Local T} (hinv : Inv c) (h : Turn c.shared g r e s' r')
    (hrole : (c.locals t).call.role = r.map (g, ·)) (hrole' : l'.call.role = r'.map (g, ·))
    (hself : l'.self = (c.locals t).self) (hstage : l'.stage = (c.locals t).stage) :
    Inv (c.set t s' l') := by
  have hr : ∀ q ∈ r, q.Ok c.shared g := fun q hq => hinv.roles t g q (by rw [hrole, hq]; rfl)
  -- the others have another side for the record
  have hothers : ∀ u q, u ≠ t → (c.locals u).call.role = some (g, q) →
      ∀ p ∈ r, p.side = q.side → p.side = none := fun u q hu hq p hp hside => by
    by_contra hsome
    exact hu (hinv.unique t u g p q (by rw [hrole, hp]; rfl) hq hside hsome).symm
  -- and so in the turn
  have hothers' : ∀ u q, u ≠ t → (c.locals u).call.role = some (g, q) →
      ∀ p ∈ r', p.side = q.side → p.side ≠ none → False := fun u q hu hq p hp hside hsome => by
    cases r with
    | none => exact h.first hinv.shared hp (hinv.roles u g q hq) hside hsome
    | some p' =>
        have hkept : p.side = p'.side ∨ p.side = none := by
          cases h <;> cases hp <;> simp [Role.side]
        rcases hkept with hkept | hkept
        · exact hsome (hkept.trans (hothers u q hu hq p' rfl (hkept.symm.trans hside)))
        · exact hsome hkept
  have hnew : ∀ k q, l'.call.role = some (k, q) → k = g ∧ q ∈ r' := fun k q hq => by
    rw [hrole'] at hq
    obtain ⟨q', hq', heq⟩ := Option.map_eq_some_iff.1 hq
    cases heq
    exact ⟨rfl, hq'⟩
  refine ⟨fun u => ?_, h.ok hinv.shared hr, fun u k q hq =>
    ?_, fun u v k q p hq hp hside hsome => ?_,
    fun u => ?_⟩
  · by_cases hu : u = t
    · subst hu
      rw [Config.set_locals_self, hself]
      exact hinv.self u
    · rw [Config.set_locals_other c hu]
      exact hinv.self u
  · by_cases hu : u = t
    · subst hu
      rw [Config.set_locals_self] at hq
      obtain ⟨rfl, hq'⟩ := hnew k q hq
      exact h.role_ok hinv.shared hr q hq'
    · rw [Config.set_locals_other c hu] at hq
      by_cases hk : k = g
      · subst hk
        exact h.other_ok hinv.shared hr (hinv.roles u k q hq) (hothers u q hu hq)
      · exact (hinv.roles u k q hq).of_agree (h.agree hk)
  · by_cases hu : u = t <;> by_cases hv : v = t
    · rw [hu, hv]
    · subst hu
      rw [Config.set_locals_self] at hq
      rw [Config.set_locals_other c hv] at hp
      obtain ⟨rfl, hq'⟩ := hnew k q hq
      exact (hothers' v p hv hp q hq' hside hsome).elim
    · subst hv
      rw [Config.set_locals_self] at hp
      rw [Config.set_locals_other c hu] at hq
      obtain ⟨rfl, hp'⟩ := hnew k p hp
      exact (hothers' u q hu hq p hp' hside.symm (hside ▸ hsome)).elim
    · rw [Config.set_locals_other c hu] at hq
      rw [Config.set_locals_other c hv] at hp
      exact hinv.unique u v k q p hq hp hside hsome
  · by_cases hu : u = t
    · subst hu
      rw [Config.set_locals_self, hstage]
      exact h.stage_ok hr (hinv.stages u)
    · rw [Config.set_locals_other c hu]
      exact h.stage_ok hr (hinv.stages u)

/-- A step of its own keeps the invariant. -/
theorem Inv.stageTurn {c : Config T (Shared T) (Local T)} {t : T} {e : Event T} {s' : Shared T}
    {l' : Local T} (hinv : Inv c) (h : StageTurn c.shared t (c.locals t).stage e s' l'.stage)
    (hidle : (c.locals t).call = .idle) (hidle' : l'.call = .idle) (hself : l'.self = t) :
    Inv (c.set t s' l') := by
  have hstage := hinv.stages t
  have hrole : ∀ u, ((c.set t s' l').locals u).call.role = (c.locals u).call.role := fun u => by
    by_cases hu : u = t
    · rw [hu, Config.set_locals_self, hidle, hidle']
    · rw [Config.set_locals_other c hu]
  refine ⟨fun u => ?_, h.ok hstage hinv.shared, fun u k q hq => ?_, fun u v k q p hq hp => ?_,
    fun u => ?_⟩
  · by_cases hu : u = t
    · rw [hu, Config.set_locals_self, hself]
    · rw [Config.set_locals_other c hu]
      exact hinv.self u
  · rw [hrole] at hq
    by_cases hk : k = t
    · subst hk
      exact h.role_ok hstage (hinv.roles u k q hq)
    · exact (hinv.roles u k q hq).of_agree (h.agree hstage hk)
  · rw [hrole] at hq hp
    exact hinv.unique u v k q p hq hp
  · by_cases hu : u = t
    · rw [hu, Config.set_locals_self]
      exact h.self_ok hstage hinv.shared
    · rw [Config.set_locals_other c hu]
      have hagree := h.agree hstage hu
      have hother := hinv.stages u
      show (c.locals u).stage.Ok s' u
      cases hstage' : (c.locals u).stage <;> rw [hstage'] at hother <;>
        simpa only [Stage.Ok, hagree.place, hagree.thread] using hother

/-- What a step of a thread does, said of the configurations. -/
theorem step_cases {c d : Config T (Shared T) (Local T)} {t : T} {e : Event T} (hinv : Inv c)
    (h : Step guestThreads c (t, e) d) :
    ∃ s' l', d = c.set t s' l' ∧ l'.self = t ∧
      ((∃ g r r', Turn c.shared g r e s' r' ∧ (c.locals t).call.role = r.map (g, ·) ∧
          l'.call.role = r'.map (g, ·) ∧ l'.stage = (c.locals t).stage) ∨
        (StageTurn c.shared t (c.locals t).stage e s' l'.stage ∧ (c.locals t).call = .idle ∧
          l'.call = .idle)) ∧
      (∀ g, l'.call.detaching = some g → (c.locals t).call.detaching = some g ∨ e = .detaches g) ∧
      ∀ g, e = .detached g → (c.locals t).call.detaching = some g := by
  cases h with
  | @mk _ x _ s' l' hnext =>
      obtain ⟨hself, hcases⟩ := guestNext_cases hnext
      rw [hinv.self] at hself hcases
      exact ⟨s', l', rfl, hself, hcases, guestNext_detaching hnext⟩

/-- Every step keeps the invariant. -/
theorem Inv.step {c d : Config T (Shared T) (Local T)} {label : T × Event T} (hinv : Inv c)
    (h : Step guestThreads c label d) : Inv d := by
  obtain ⟨t, e⟩ := label
  obtain ⟨s', l', rfl, hself, ⟨g, r, r', hturn, hrole, hrole', hstage⟩ | ⟨hturn, hidle, hidle'⟩,
    -⟩ :=
    step_cases hinv h
  · exact hinv.turn hturn hrole hrole' (hself.trans (hinv.self t).symm) hstage
  · exact hinv.stageTurn hturn hidle hidle' hself

end Asnx.Bionic.Pthread
