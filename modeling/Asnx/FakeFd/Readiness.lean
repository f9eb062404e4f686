import Asnx.FakeFd.Polling
import Asnx.FakeFd.Table

/-!
# Readiness

What `fakefd_ready`, `nx_poll`, `nx_select` and `looper_ready_events` say of the end of a pipe is
what a call in non-blocking mode would do on it, in every state of a run (`readiness_truthful`).
All four are compared with the same two facts about the pipe, `Readable` and `Writable`.
-/

namespace Asnx.FakeFd

open Threads

variable {T : Type*} [DecidableEq T] {s : FdState} {slot : Fin fakeFdCount} {p : Nat}
    {ps : PipeState}

/-! ## Calls in non-blocking mode -/

/-- The slot in non-blocking mode. -/
def FdState.setNonblock (s : FdState) (slot : Fin fakeFdCount) : FdState :=
  s.setFd slot { s.gFds slot with statusFlags := (s.gFds slot).statusFlags ||| androidONonblock }

/-- What a call returns when the slot is in non-blocking mode; `none` when it has to wait. -/
def callNonblock (s : FdState) (slot : Fin fakeFdCount) (c : Call) : Option Ret :=
  match sectionAt (s.setNonblock slot) none (enter c) with
  | some (_, _, .finished r) => some r
  | _ => none

/-- A read of any positive count fails with `EAGAIN` exactly when this is not told. -/
def TellsRead (s : FdState) (slot : Fin fakeFdCount) (told : Prop) : Prop :=
  ∀ count, 0 < count → ∃ r, callNonblock s slot (.read (fdOfSlot slot) false count) = some r ∧
    (told ↔ r ≠ .fail (some .EAGAIN))

/-- A write of any positive count transfers something exactly when this is told. -/
def TellsWrite (s : FdState) (slot : Fin fakeFdCount) (told : Prop) : Prop :=
  ∀ src : Source, 0 < src.count →
    ∃ r, callNonblock s slot (.write (fdOfSlot slot) false src) = some r ∧ (told ↔ 1 ≤ r.toInt)

/-- A write of any positive count fails with `EPIPE` exactly when this is told. -/
def TellsBroken (s : FdState) (slot : Fin fakeFdCount) (told : Prop) : Prop :=
  ∀ src : Source, 0 < src.count →
    ∃ r, callNonblock s slot (.write (fdOfSlot slot) false src) = some r ∧
      (told ↔ r = .fail (some .EPIPE))

/-- There is something to read, or the end of the file. -/
def PipeState.Readable (ps : PipeState) : Prop := ps.length ≠ 0 ∨ ps.writers = 0

/-- There is a reader, and room. -/
def PipeState.Writable (ps : PipeState) : Prop := ps.readers ≠ 0 ∧ ps.length < pipeCapacity

/-- The slot is an end of the pipe. -/
structure IsEnd (s : FdState) (slot : Fin fakeFdCount) (kind : FakeFdKind) (p : Nat)
    (ps : PipeState) :
    Prop where
  kind : (s.gFds slot).kind = kind
  pipe : (s.gFds slot).pipe = some p
  live : s.heap p = some ps
  length : ps.length ≤ pipeCapacity

/-- An open slot is an end of a live pipe. -/
theorem FdInv.isEnd (h : FdInv s) {kind : FakeFdKind} (hkind : (s.gFds slot).kind = kind)
    (hopen : kind ≠ .unused) : ∃ p ps, IsEnd s slot kind p ps := by
  obtain ⟨p, ps, hp, hps⟩ := h.opened slot (hkind ▸ hopen)
  exact ⟨p, ps, hkind, hp, hps, (h.ring p ps hps).2⟩

/-- Non-blocking mode is set. -/
theorem setNonblock_nonblock (s : FdState) (slot : Fin fakeFdCount) :
    (s.setNonblock slot).nonblock slot := by
  have habsorb : ∀ flags : BitVec 32, (flags ||| androidONonblock) &&& androidONonblock =
      androidONonblock := by
    intro flags
    apply BitVec.eq_of_getLsbD_eq
    intro i _
    rw [BitVec.getLsbD_and, BitVec.getLsbD_or]
    cases flags.getLsbD i <;> cases androidONonblock.getLsbD i <;> rfl
  unfold FdState.nonblock FdState.setNonblock
  rw [setFd_gFds, Function.update_self]
  dsimp only
  rw [habsorb]
  decide

/-- An end stays one in non-blocking mode. -/
theorem IsEnd.setNonblock {kind : FakeFdKind} (h : IsEnd s slot kind p ps) :
    IsEnd (s.setNonblock slot) slot kind p ps := by
  have hslot : (s.setNonblock slot).gFds slot =
      { s.gFds slot with statusFlags := (s.gFds slot).statusFlags ||| androidONonblock } :=
    Function.update_self ..
  exact ⟨by rw [hslot]; exact h.kind, by rw [hslot]; exact h.pipe, h.live, h.length⟩

/-- A read in non-blocking mode. -/
theorem read_nonblock (h : IsEnd s slot .pipeRead p ps) {count : Nat} (hcount : 0 < count) :
    ∃ r, callNonblock s slot (.read (fdOfSlot slot) false count) = some r ∧
      (ps.Readable ↔ r ≠ .fail (some .EAGAIN)) := by
  have hend := h.setNonblock
  have henter : enter (.read (fdOfSlot slot) false count) = .readStart slot count := by
    unfold enter
    simp only [slot_of_fd_of_slot]
    rw [if_neg (by simp), if_neg (by omega)]
  unfold callNonblock
  rw [henter]
  unfold sectionAt readLocked
  dsimp only
  rw [hend.pipe]
  dsimp only
  rw [if_neg (not_not_intro hend.kind)]
  unfold readLoop
  rw [hend.live]
  dsimp only
  rw [if_pos (setNonblock_nonblock s slot)]
  unfold PipeState.Readable
  split_ifs with hempty heof
  · refine ⟨_, rfl, iff_of_false ?_ (fun hne => hne rfl)⟩
    omega
  · exact ⟨_, rfl, iff_of_true (Or.inr heof.2) (fun heq => by cases heq)⟩
  · refine ⟨_, rfl, iff_of_true ?_ (fun heq => by cases heq)⟩
    omega
  · refine ⟨_, rfl, iff_of_true ?_ (fun heq => by cases heq)⟩
    omega

/-- A write in non-blocking mode. -/
theorem write_nonblock (h : IsEnd s slot .pipeWrite p ps) {src : Source} (hcount : 0 < src.count) :
    ∃ r, callNonblock s slot (.write (fdOfSlot slot) false src) = some r ∧
      (ps.Writable ↔ 1 ≤ r.toInt) ∧ (ps.readers = 0 ↔ r = .fail (some .EPIPE)) ∧
      (ps.Writable ∨ ps.readers = 0 ∨ r = .fail (some .EAGAIN)) := by
  have hend := h.setNonblock
  have hlength := h.length
  have hnonblock := setNonblock_nonblock s slot
  have henter : enter (.write (fdOfSlot slot) false src) = .writeStart slot src := by
    unfold enter
    simp only [slot_of_fd_of_slot]
    rw [if_neg (by simp), if_neg (by omega)]
  unfold callNonblock
  rw [henter]
  unfold sectionAt writeLocked
  dsimp only
  rw [hend.pipe]
  dsimp only
  rw [if_neg (not_not_intro hend.kind), hend.live]
  dsimp only
  unfold PipeState.Writable
  by_cases hreaders : ps.readers = 0
  · rw [if_pos hreaders]
    refine ⟨_, rfl, iff_of_false (fun hw => hw.1 hreaders) ?_, iff_of_true hreaders rfl,
      Or.inr (Or.inl hreaders)⟩
    show ¬ 1 ≤ (-1 : Int)
    decide
  · rw [if_neg hreaders]
    unfold writeFrom writeLoop
    rw [if_pos hcount, hend.live]
    dsimp only
    by_cases hfull : ps.length = pipeCapacity
    · rw [if_pos ⟨hfull, hreaders⟩, if_pos hnonblock]
      refine ⟨_, rfl, iff_of_false (fun hw => ?_) ?_, iff_of_false hreaders (by rintro ⟨⟩),
        Or.inr (Or.inr rfl)⟩
      · omega
      · show ¬ 1 ≤ (-1 : Int)
        decide
    · have hnonblock' : ∀ q : PipeState, ((s.setNonblock slot).setPipe p q).nonblock slot :=
        fun _ => hnonblock
      rw [if_neg (fun hw => hfull hw.1), if_neg hreaders, if_neg (by omega), if_pos (hnonblock' _)]
      have hwritable : ps.readers ≠ 0 ∧ ps.length < pipeCapacity := ⟨hreaders, by omega⟩
      refine ⟨_, rfl, iff_of_true hwritable ?_, iff_of_false hreaders (by rintro ⟨⟩),
        Or.inl hwritable⟩
      show (1 : Int) ≤ ((0 + if src.count - 0 > pipeCapacity -
        ps.length then pipeCapacity - ps.length
        else src.count - 0 : Nat) : Int)
      split
      · omega
      · omega

/-! ## Flags -/

variable {w : Nat}

/-- Flags of two sets. -/
@[simp] theorem has_or (a b flag : BitVec w) : has (a ||| b) flag = (has a flag || has b flag) := by
  have hzero : (a ||| b) &&& flag = 0 ↔ a &&& flag = 0 ∧ b &&& flag = 0 := by
    have hdistrib : (a ||| b) &&& flag = a &&& flag ||| b &&& flag := by
      apply BitVec.eq_of_getLsbD_eq
      intro i _
      simp only [BitVec.getLsbD_and, BitVec.getLsbD_or, Bool.and_or_distrib_right]
    rw [hdistrib]
    exact BitVec.or_eq_zero_iff
  unfold has
  rw [Bool.eq_iff_iff]
  simp only [decide_eq_true_eq, Bool.or_eq_true, ne_eq, hzero, not_and_or]

/-- Flags of a mask of two. -/
theorem has_or_mask (a f g : BitVec w) : has a (f ||| g) = (has a f || has a g) := by
  have hcomm : ∀ u v : BitVec w, has u v = has v u := by
    intro u v
    unfold has
    rw [BitVec.and_comm]
  rw [hcomm, has_or, hcomm f, hcomm g]

/-- No flag is set in nothing. -/
@[simp] theorem has_zero (flag : BitVec w) : has 0#w flag = false := by
  unfold has
  rw [BitVec.zero_and]
  exact decide_eq_false (not_not_intro rfl)

/-- A set that is given on a condition. -/
@[simp] theorem has_ite (c : Prop) [Decidable c] (a flag : BitVec w) :
    has (if c then a else 0#w) flag = (decide c && has a flag) := by
  by_cases hc : c
  · simp [hc]
  · simp [hc]

/-- Something is set where a flag is. -/
theorem ne_zero_of_has {a flag : BitVec w} (h : has a flag = true) : a ≠ 0 := by
  rintro rfl
  exact Bool.false_ne_true ((has_zero flag).symm.trans h)

/-- A flag that a mask lets through. -/
theorem has_and {mask flag : BitVec w} (h : mask &&& flag = flag) (a : BitVec w) :
    has (a &&& mask) flag = has a flag := by
  unfold has
  rw [BitVec.and_assoc, h]

/-- A flag of a larger mask. -/
theorem has_mask {a mask flag : BitVec w} (h : mask &&& flag = flag) (hflag : has a flag = true) :
    has a mask = true := by
  by_contra hmask
  have hzero : a &&& mask = 0 := by
    unfold has at hmask
    simpa using hmask
  have hnone : has (a &&& mask) flag = true := by rw [has_and h, hflag]
  rw [hzero] at hnone
  exact Bool.false_ne_true ((has_zero flag).symm.trans hnone)

/-! ## What `fakefd_ready` tells -/

/-- `fakefd_ready` at a read end. -/
theorem fakefdReady_read (h : IsEnd s slot .pipeRead p ps) :
    fakefdReady s (fdOfSlot slot) =
      (if ps.length ≠ 0 ∨ ps.writers = 0 then asnxFdReadyRead else 0) |||
        if ps.writers = 0 then asnxFdReadyHup else 0 := by
  unfold fakefdReady readyLocked
  rw [slot_of_fd_of_slot]
  dsimp only
  rw [h.kind, h.pipe]
  dsimp only
  rw [h.live]
  rfl

/-- `fakefd_ready` at a write end. -/
theorem fakefdReady_write (h : IsEnd s slot .pipeWrite p ps) :
    fakefdReady s (fdOfSlot slot) =
      if ps.readers = 0 then asnxFdReadyErr ||| asnxFdReadyHup
      else if ps.length < pipeCapacity then asnxFdReadyWrite else 0 := by
  unfold fakefdReady readyLocked
  rw [slot_of_fd_of_slot]
  dsimp only
  rw [h.kind, h.pipe]
  dsimp only
  rw [h.live]
  rfl

/-- The flags of a read end. -/
theorem ready_read (h : IsEnd s slot .pipeRead p ps) :
    (has (fakefdReady s (fdOfSlot slot)) asnxFdReadyRead = true ↔ ps.Readable) ∧
      (has (fakefdReady s (fdOfSlot slot)) asnxFdReadyHup = true ↔ ps.writers = 0) ∧
      has (fakefdReady s (fdOfSlot slot)) asnxFdReadyWrite = false ∧
      has (fakefdReady s (fdOfSlot slot)) asnxFdReadyErr = false := by
  have hown : has asnxFdReadyRead asnxFdReadyRead = true ∧
    has asnxFdReadyHup asnxFdReadyRead = false ∧
      has asnxFdReadyRead asnxFdReadyHup = false ∧ has asnxFdReadyHup asnxFdReadyHup = true ∧
      has asnxFdReadyRead asnxFdReadyWrite = false ∧ has asnxFdReadyHup asnxFdReadyWrite = false ∧
      has asnxFdReadyRead asnxFdReadyErr = false ∧ has asnxFdReadyHup asnxFdReadyErr = false := by
    decide
  rw [fakefdReady_read h]
  simp [hown, PipeState.Readable]

/-- The flags of a write end. -/
theorem ready_write (h : IsEnd s slot .pipeWrite p ps) :
    (has (fakefdReady s (fdOfSlot slot)) asnxFdReadyWrite = true ↔ ps.Writable) ∧
      (has (fakefdReady s (fdOfSlot slot)) asnxFdReadyErr = true ↔ ps.readers = 0) ∧
      (has (fakefdReady s (fdOfSlot slot)) asnxFdReadyHup = true ↔ ps.readers = 0) ∧
      has (fakefdReady s (fdOfSlot slot)) asnxFdReadyRead = false := by
  have hown : has (asnxFdReadyErr ||| asnxFdReadyHup) asnxFdReadyWrite = false ∧
      has (asnxFdReadyErr ||| asnxFdReadyHup) asnxFdReadyErr = true ∧
      has (asnxFdReadyErr ||| asnxFdReadyHup) asnxFdReadyHup = true ∧
      has (asnxFdReadyErr ||| asnxFdReadyHup) asnxFdReadyRead = false ∧
      has asnxFdReadyWrite asnxFdReadyWrite = true ∧ has asnxFdReadyWrite asnxFdReadyErr = false ∧
      has asnxFdReadyWrite asnxFdReadyHup = false ∧
        has asnxFdReadyWrite asnxFdReadyRead = false := by
    decide
  rw [fakefdReady_write h]
  unfold PipeState.Writable
  split_ifs with hreaders hroom
  · simp [hown, hreaders]
  · simp [hown, hreaders, hroom]
  · simp [hreaders, hroom]

/-- An end is open. -/
theorem isOpen_of_isEnd {kind : FakeFdKind} (h : IsEnd s slot kind p ps) (hkind : kind ≠ .unused) :
    fakefdIsOpen s (fdOfSlot slot) = true := by
  unfold fakefdIsOpen
  rw [slot_of_fd_of_slot]
  exact decide_eq_true (h.kind ▸ hkind)

/-! ## The three translations -/

/-- `nx_fake_poll_revents` at a read end that waits for `POLLIN`. -/
theorem revents_read (h : IsEnd s slot .pipeRead p ps) {events : BitVec 16}
    (hevents : has events pollin = true) :
    (has (nxFakePollRevents s (fdOfSlot slot) events) pollin = true ↔ ps.Readable) ∧
      (nxFakePollRevents s (fdOfSlot slot) events ≠ 0 ↔ ps.Readable) := by
  obtain ⟨hread, hhup, hwrite, herr⟩ := ready_read h
  have hmask : (pollin ||| pollpri) &&& pollin = pollin := by decide
  have hhupin : has pollhup pollin = false := by decide
  have hin : has (nxFakePollRevents s (fdOfSlot slot) events) pollin = true ↔ ps.Readable := by
    unfold nxFakePollRevents
    rw [if_neg (by rw [isOpen_of_isEnd h (by decide)]; decide), ← hread]
    simp [hwrite, herr, has_mask hmask hevents, has_and hmask, hevents, hhupin]
  refine ⟨hin, fun hne => ?_, fun hreadable => ne_zero_of_has (hin.2 hreadable)⟩
  by_contra hreadable
  apply hne
  have hnohup : ¬ ps.writers = 0 := fun hw => hreadable (Or.inr hw)
  have hread' := mt hread.1 hreadable
  have hhup' := mt hhup.1 hnohup
  unfold nxFakePollRevents
  rw [if_neg (by rw [isOpen_of_isEnd h (by decide)]; decide)]
  simp [hwrite, herr, hread', hhup']

/-- `nx_fake_poll_revents` at a write end. -/
theorem revents_write (h : IsEnd s slot .pipeWrite p ps) {events : BitVec 16}
    (hevents : has events pollout = true) :
    (has (nxFakePollRevents s (fdOfSlot slot) events) pollout = true ↔ ps.Writable) ∧
      (has (nxFakePollRevents s (fdOfSlot slot) events) pollerr = true ↔ ps.readers = 0) := by
  obtain ⟨hwrite, herr, hhup, hread⟩ := ready_write h
  have hown : has pollout pollout = true ∧ has pollhup pollout = false ∧
      has pollerr pollout = false ∧ has pollout pollerr = false ∧ has pollhup pollerr = false ∧
      has pollerr pollerr = true := by decide
  unfold nxFakePollRevents
  rw [if_neg (by rw [isOpen_of_isEnd h (by decide)]; decide), ← hwrite, ← herr]
  simp [hread, hevents, hown]

/-- `looper_ready_events` at a read end that is registered for input. -/
theorem looper_read (h : IsEnd s slot .pipeRead p ps) {r : ALooperReg} (hused : r.used = true)
    (hfd : r.fd = fdOfSlot slot) (hevents : has r.events alooperEventInput = true) :
    (has (looperReadyEvents s r) alooperEventInput = true ↔ ps.Readable) ∧
      (looperReadyEvents s r ≠ 0 ↔ ps.Readable) := by
  obtain ⟨hread, hhup, hwrite, herr⟩ := ready_read h
  have hrange : fakefdIsRange (fdOfSlot slot) = true := by
    unfold fakefdIsRange
    rw [slot_of_fd_of_slot]
    rfl
  have hopen := isOpen_of_isEnd h (by decide)
  have hown : has alooperEventInput alooperEventInput = true ∧
      has alooperEventHangup alooperEventInput = false := by decide
  have hin : has (looperReadyEvents s r) alooperEventInput = true ↔ ps.Readable := by
    unfold looperReadyEvents
    rw [hfd, hused, hrange, hopen, ← hread]
    simp [hwrite, herr, hevents, hown]
  refine ⟨hin, fun hne => ?_, fun hreadable => ne_zero_of_has (hin.2 hreadable)⟩
  by_contra hreadable
  apply hne
  have hnohup : ¬ ps.writers = 0 := fun hw => hreadable (Or.inr hw)
  have hread' := mt hread.1 hreadable
  have hhup' := mt hhup.1 hnohup
  unfold looperReadyEvents
  rw [hfd, hused, hrange, hopen]
  simp [hwrite, herr, hread', hhup']

/-- `looper_ready_events` at a write end that is registered for output. -/
theorem looper_write (h : IsEnd s slot .pipeWrite p ps) {r : ALooperReg} (hused : r.used = true)
    (hfd : r.fd = fdOfSlot slot) (hevents : has r.events alooperEventOutput = true) :
    (has (looperReadyEvents s r) alooperEventOutput = true ↔ ps.Writable) ∧
      (has (looperReadyEvents s r) alooperEventError = true ↔ ps.readers = 0) := by
  obtain ⟨hwrite, herr, hhup, hread⟩ := ready_write h
  have hrange : fakefdIsRange (fdOfSlot slot) = true := by
    unfold fakefdIsRange
    rw [slot_of_fd_of_slot]
    rfl
  have hopen := isOpen_of_isEnd h (by decide)
  have hown : has alooperEventOutput alooperEventOutput = true ∧
      has alooperEventError alooperEventOutput = false ∧
      has alooperEventHangup alooperEventOutput = false ∧
      has alooperEventOutput alooperEventError = false ∧
      has alooperEventError alooperEventError = true ∧
      has alooperEventHangup alooperEventError = false := by decide
  unfold looperReadyEvents
  rw [hfd, hused, hrange, hopen, ← hwrite, ← herr]
  simp [hread, hevents, hown]

/-! ## The passes of `nx_poll` -/

/-- An entry that a pass has looked at. -/
def PollFd.polled (s : FdState) (q : PollFd) : PollFd :=
  { q with revents := nxFakePollRevents s q.fd q.events }

/-- A descriptor of the table is not negative. -/
theorem nonneg_of_range {fd : Int} (h : fakefdIsRange fd = true) : ¬ fd < 0 := by
  unfold fakefdIsRange slotFromFd at h
  split at h
  · case isTrue hbounds =>
      have hbase : fakeFdBase = 900 := rfl
      omega
  · cases h

/-- The `revents` of a descriptor of the table. -/
theorem pollRevents_range {host : HostPoll} {i : Nat} {q : PollFd}
    (h : fakefdIsRange q.fd = true) :
    pollRevents s host i q = some (nxFakePollRevents s q.fd q.events) := by
  unfold pollRevents
  rw [if_neg (nonneg_of_range h), if_pos h]

/-- What a pass that does not fail leaves of a descriptor of the table. -/
theorem pollPass_entry {host : HostPoll} {i : Nat} {fds : List PollFd} {k : Nat} {q : PollFd}
    (hok : (pollPass s host i fds).failed = false) (hq : fds[k]? = some q)
    (hrange : fakefdIsRange q.fd = true) :
    (pollPass s host i fds).fds[k]? = some (q.polled s) ∧
      ((q.polled s).revents ≠ 0 → (pollPass s host i fds).ready ≠ 0) := by
  induction fds generalizing i k with
  | nil => cases hq
  | cons first fds ih =>
      unfold pollPass at hok ⊢
      cases hrev : pollRevents s host i first with
      | none =>
          rw [hrev] at hok
          cases hok
      | some rev =>
          rw [hrev] at hok
          dsimp only at hok ⊢
          cases k with
          | zero =>
              obtain rfl : first = q := Option.some.inj hq
              obtain rfl : nxFakePollRevents s first.fd first.events = rev :=
                Option.some.inj ((pollRevents_range hrange).symm.trans hrev)
              refine ⟨rfl, fun hne => ?_⟩
              have hcount : (if nxFakePollRevents s first.fd first.events ≠ 0 then 1 else 0) = 1 :=
                if_pos hne
              omega
          | succ k =>
              obtain ⟨hentry, hready⟩ := ih hok hq
              refine ⟨hentry, fun hne => ?_⟩
              have := hready hne
              omega

/-- A pass in which `poll` of the system does not fail. -/
theorem pollPass_ok {host : HostPoll} (hhost : ∀ j, host j ≠ none) (i : Nat) (fds : List PollFd) :
    (pollPass s host i fds).failed = false := by
  induction fds generalizing i with
  | nil => rfl
  | cons first fds ih =>
      unfold pollPass
      cases hrev : pollRevents s host i first with
      | none =>
          unfold pollRevents at hrev
          split_ifs at hrev
          exact absurd hrev (hhost i)
      | some rev => exact ih (i + 1)

/-- What the loop leaves of a descriptor of the table. -/
theorem pollLoop_entry {host : Nat → HostPoll} {timeout remaining ret : Int} {rounds pass : Nat}
    {fds left : List PollFd} {k : Nat} {q : PollFd}
    (h : pollLoop s host timeout rounds pass remaining fds = some (.returns ret left))
    (hret : 0 ≤ ret) (hq : fds[k]? = some q) (hrange : fakefdIsRange q.fd = true) :
    left[k]? = some (q.polled s) := by
  induction rounds generalizing pass remaining fds q with
  | zero => cases h
  | succ rounds ih =>
      unfold pollLoop at h
      dsimp only at h
      cases hfailed : (pollPass s (host pass) 0 fds).failed with
      | true =>
          rw [hfailed, if_pos rfl] at h
          cases h
          omega
      | false =>
          obtain ⟨hentry, -⟩ := pollPass_entry hfailed hq hrange
          rw [hfailed, if_neg Bool.false_ne_true] at h
          generalize (if timeout < 0 ∨ remaining > 1 then 1 else remaining) = sleepMs at h
          generalize (if timeout > 0 then remaining - sleepMs else remaining) = next at h
          split_ifs at h
          · cases h
            exact hentry
          · cases h
            exact hentry
          · cases h
            exact hentry
          · exact ih (q := q.polled s) h hentry hrange

/-- A pass in which an entry is ready ends the loop. -/
theorem pollLoop_first {host : Nat → HostPoll} {timeout remaining : Int} {rounds pass : Nat}
    {fds : List PollFd} {k : Nat} {q : PollFd} (hhost : ∀ j, host pass j ≠ none)
    (hq : fds[k]? = some q) (hrange : fakefdIsRange q.fd = true) (hrev : (q.polled s).revents ≠ 0) :
    ∃ ret left, pollLoop s host timeout (rounds + 1) pass remaining fds = some (.returns ret left) ∧
      0 ≤ ret := by
  have hok := pollPass_ok (s := s) hhost 0 fds
  obtain ⟨-, hready⟩ := pollPass_entry hok hq hrange
  unfold pollLoop
  dsimp only
  rw [hok, if_neg Bool.false_ne_true, if_pos (Or.inl (hready hrev))]
  exact ⟨_, _, rfl, Int.natCast_nonneg _⟩

/-- An entry of the table makes `nx_poll` run its own loop. -/
theorem nxPoll_own {host : Nat → HostPoll} {timeout : Int} {rounds nfds : Nat}
    {fds : List PollFd} {k : Nat} {q : PollFd} (hq : fds[k]? = some q)
    (hrange : fakefdIsRange q.fd = true) :
    nxPoll s host rounds (some fds) nfds timeout = pollLoop s host timeout rounds 0
      timeout fds := by
  have hany : (fds.any fun q => fakefdIsRange q.fd) = true :=
    List.any_eq_true.2 ⟨q, List.mem_of_getElem? hq, hrange⟩
  unfold nxPoll
  dsimp only
  rw [hany, if_pos rfl]

/-! ## The passes of `nx_select` -/

/-- A set with one descriptor more. -/
theorem wordsTest_wordsSet {set : FdSet} {k fd : Nat} :
    wordsTest (wordsSet set k) fd =
      (wordsTest set fd || decide (fd = k ∧ fd < androidFdSetsize)) := by
  unfold wordsTest wordsSet
  by_cases hfd : fd < androidFdSetsize
  · by_cases hk : k < androidFdSetsize
    · rw [if_neg (by omega), if_pos hk, if_neg (by omega), BitVec.getLsbD_or, BitVec.getLsbD_twoPow]
      congr 1
      rw [Bool.eq_iff_iff]
      simp only [Bool.and_eq_true, decide_eq_true_eq]
      omega
    · rw [if_neg (by omega), if_neg hk, if_neg (by omega)]
      have hne : ¬ (fd = k ∧ fd < androidFdSetsize) := by omega
      simp [hne]
  · rw [if_pos (by omega), if_pos (by omega)]
    simp [hfd]

/-- The descriptors below `n` that are told, as a set. -/
def collected (told : Nat → Bool) (n : Nat) : FdSet :=
  (List.range n).foldl (fun set fd => if told fd then wordsSet set fd else set) 0

/-- A set has the descriptors that are told. -/
theorem wordsTest_collected {told : Nat → Bool} {fd : Nat} (hfd : fd < androidFdSetsize) (n : Nat) :
    wordsTest (collected told n) fd = (decide (fd < n) && told fd) := by
  induction n with
  | zero => simp [collected, wordsTest]
  | succ n ih =>
      have hsucc : collected told (n + 1) =
          if told n then wordsSet (collected told n) n else collected told n := by
        unfold collected
        rw [List.range_succ, List.foldl_append]
        rfl
      rw [hsucc, apply_ite (fun set => wordsTest set fd), wordsTest_wordsSet, ih]
      rcases Nat.lt_trichotomy fd n with hlt | rfl | hgt
      · have hne : ¬ (fd = n ∧ fd < androidFdSetsize) := by omega
        simp [hne, hlt, Nat.lt_succ_of_lt hlt]
      · cases told fd <;> simp [hfd]
      · have hne : ¬ (fd = n ∧ fd < androidFdSetsize) := by omega
        have hbelow : ¬ fd < n := by omega
        have hbelow' : ¬ fd < n + 1 := by omega
        simp [hne, hbelow, hbelow']

/-- A pass over one descriptor more. -/
theorem selectPass_succ (a : SelectArgs) (host : FdSets) (n : Nat) :
    selectPass s a host (n + 1) = (selectPass s a host n).add n (selectTold s a host n) := by
  unfold selectPass
  rw [List.range_succ, List.foldl_append]
  rfl

/-- The sets for reading and for writing that a pass collects. -/
theorem selectPass_out (a : SelectArgs) (host : FdSets) (n : Nat) :
    (selectPass s a host n).out.r = collected (fun fd => (selectTold s a host fd).1) n ∧
      (selectPass s a host n).out.w = collected (fun fd => (selectTold s a host fd).2.1) n := by
  induction n with
  | zero => exact ⟨rfl, rfl⟩
  | succ n ih =>
      rw [selectPass_succ]
      unfold SelectPass.add collected at *
      rw [List.range_succ, List.foldl_append, List.foldl_append, ← ih.1, ← ih.2]
      exact ⟨rfl, rfl⟩

/-- A pass that tells a descriptor counts it. -/
theorem selectPass_ready {a : SelectArgs} {host : FdSets} {n fd : Nat} (hfd : fd < n)
    (htold : (selectTold s a host fd).1 = true ∨ (selectTold s a host fd).2.1 = true) :
    (selectPass s a host n).ready ≠ 0 := by
  induction n with
  | zero => omega
  | succ n ih =>
      rw [selectPass_succ]
      unfold SelectPass.add
      dsimp only
      rcases Nat.lt_or_eq_of_le (Nat.lt_succ_iff.1 hfd) with hlt | rfl
      · have := ih hlt
        omega
      · rw [if_pos (by tauto)]
        omega

/-- The arguments of a call that asks for a descriptor of the table. -/
structure Asks (a : SelectArgs) (fd : Nat) : Prop where
  below : (fd : Int) < a.n
  size : fd < androidFdSetsize
  range : fakefdIsRange fd = true
  timeout : ∀ t, a.timeout = some t → 0 ≤ t.1 ∧ 0 ≤ t.2

/-- The time left when the loop begins. -/
def SelectArgs.remaining (a : SelectArgs) : Int :=
  match a.timeout with
  | none => -1
  | some (sec, usec) => sec * 1000000 + usec

/-- A descriptor of the table makes `nx_select` run its own loop. -/
theorem nxSelect_own {host : Nat → Option FdSets} {rounds : Nat} {a : SelectArgs} {fd : Nat}
    (h : Asks a fd) (hasked : wordsTest a.given.r fd = true ∨ wordsTest a.given.w fd = true) :
    nxSelect s host rounds a =
      selectLoop s host a (min a.n.toNat androidFdSetsize) rounds 0 a.remaining := by
  obtain ⟨hbelow, hsize, hrange, htimeout⟩ := h
  have hn : ¬ a.n < 0 := by omega
  have hown : ((List.range (min a.n.toNat androidFdSetsize)).any fun fd =>
      (decide (wordsTest a.given.r fd = true ∨ wordsTest a.given.w fd = true ∨
        wordsTest a.given.e fd = true)) && fakefdIsRange fd) = true := by
    rw [List.any_eq_true]
    refine ⟨fd, List.mem_range.2 (by omega), ?_⟩
    rw [hrange, Bool.and_true]
    exact decide_eq_true (by tauto)
  unfold nxSelect SelectArgs.remaining
  rw [if_neg hn]
  dsimp only
  rw [hown, if_pos rfl]
  cases htime : a.timeout with
  | none => rfl
  | some t =>
      obtain ⟨hsec, husec⟩ := htimeout t htime
      exact if_neg (by omega)

/-- What the loop leaves in the sets. -/
theorem selectLoop_left {host : Nat → Option FdSets} {a : SelectArgs} {n rounds pass : Nat}
    {remaining ret : Int} {left : Selected}
    (h : selectLoop s host a n rounds pass remaining = some (.returns ret left)) (hret : 0 ≤ ret) :
    ∃ sets us, left = a.stored (selectPass s a sets n).out us := by
  induction rounds generalizing pass remaining with
  | zero => cases h
  | succ rounds ih =>
      unfold selectLoop at h
      cases hhost : host pass with
      | none =>
          rw [hhost] at h
          cases h
          omega
      | some sets =>
          rw [hhost] at h
          dsimp only at h
          generalize (if remaining < 0 ∨ remaining > 1000 then 1000 else remaining) = sleepUs at h
          generalize (if remaining > 0 then remaining - sleepUs else remaining) = next at h
          split_ifs at h
          · cases h
            exact ⟨sets, remaining, rfl⟩
          · exact ih h

/-- A pass that tells a descriptor ends the loop. -/
theorem selectLoop_first {host : Nat → Option FdSets} {a : SelectArgs} {n rounds pass fd : Nat}
    {remaining : Int} {sets : FdSets} (hhost : host pass = some sets) (hfd : fd < n)
    (htold : (selectTold s a sets fd).1 = true ∨ (selectTold s a sets fd).2.1 = true) :
    ∃ ret left, selectLoop s host a n (rounds + 1) pass remaining = some (.returns ret left) ∧
      0 ≤ ret := by
  unfold selectLoop
  rw [hhost]
  dsimp only
  rw [if_pos (Or.inl (selectPass_ready hfd htold))]
  exact ⟨_, _, rfl, Int.natCast_nonneg _⟩

/-! ## The truth about an end -/

/-- The number of the descriptor of a slot. -/
def fdNumber (slot : Fin fakeFdCount) : Nat := 900 + slot

/-- What a read end is said to be is what a read in non-blocking mode finds. The calls that wait end
with it in the first pass, unless a call of the system fails. -/
structure ReadTruth (s : FdState) (slot : Fin fakeFdCount) : Prop where
  ready : TellsRead s slot (has (fakefdReady s (fdOfSlot slot)) asnxFdReadyRead = true)
  poll : ∀ (host : Nat → HostPoll) (rounds nfds k : Nat) (timeout ret : Int)
    (fds left : List PollFd)
    (q : PollFd), fds[k]? = some q → q.fd = fdOfSlot slot → has q.events pollin = true →
    nxPoll s host rounds (some fds) nfds timeout = some (.returns ret left) → 0 ≤ ret →
    ∃ q', left[k]? = some q' ∧ TellsRead s slot (has q'.revents pollin = true) ∧
      TellsRead s slot (q'.revents ≠ 0)
  poll_ends : ∀ (host : Nat → HostPoll) (rounds nfds k count : Nat) (timeout : Int)
    (fds : List PollFd) (q : PollFd), fds[k]? = some q → q.fd = fdOfSlot slot →
    has q.events pollin = true → (∀ j, host 0 j ≠ none) → 0 < count →
    callNonblock s slot (.read (fdOfSlot slot) false count) ≠ some (.fail (some .EAGAIN)) →
    ∃ ret left, nxPoll s host (rounds + 1) (some fds) nfds timeout = some (.returns ret left) ∧
      0 ≤ ret
  select : ∀ (host : Nat → Option FdSets) (rounds : Nat) (a : SelectArgs)
    (given : FdSet) (ret : Int)
    (left : Selected), Asks a (fdNumber slot) → a.readset = some given →
    wordsTest given (fdNumber slot) = true →
    nxSelect s host rounds a = some (.returns ret left) → 0 ≤ ret →
    ∃ out, left.r = some out ∧ TellsRead s slot (wordsTest out (fdNumber slot) = true)
  select_ends : ∀ (host : Nat → Option FdSets) (rounds count : Nat) (a : SelectArgs)
    (given : FdSet),
    Asks a (fdNumber slot) → a.readset = some given → wordsTest given (fdNumber slot) = true →
    host 0 ≠ none → 0 < count →
    callNonblock s slot (.read (fdOfSlot slot) false count) ≠ some (.fail (some .EAGAIN)) →
    ∃ ret left, nxSelect s host (rounds + 1) a = some (.returns ret left) ∧ 0 ≤ ret
  looper : ∀ r : ALooperReg, r.used = true → r.fd = fdOfSlot slot →
    has r.events alooperEventInput = true →
    TellsRead s slot (has (looperReadyEvents s r) alooperEventInput = true) ∧
      TellsRead s slot (looperReadyEvents s r ≠ 0)

/-- What a write end is said to be is what a write in non-blocking mode finds. -/
structure WriteTruth (s : FdState) (slot : Fin fakeFdCount) : Prop where
  ready : TellsWrite s slot (has (fakefdReady s (fdOfSlot slot)) asnxFdReadyWrite = true) ∧
    TellsBroken s slot (has (fakefdReady s (fdOfSlot slot)) asnxFdReadyErr = true)
  poll : ∀ (host : Nat → HostPoll) (rounds nfds k : Nat) (timeout ret : Int)
    (fds left : List PollFd)
    (q : PollFd), fds[k]? = some q → q.fd = fdOfSlot slot → has q.events pollout = true →
    nxPoll s host rounds (some fds) nfds timeout = some (.returns ret left) → 0 ≤ ret →
    ∃ q', left[k]? = some q' ∧ TellsWrite s slot (has q'.revents pollout = true) ∧
      TellsBroken s slot (has q'.revents pollerr = true)
  poll_ends : ∀ (host : Nat → HostPoll) (rounds nfds k : Nat) (src : Source) (timeout : Int)
    (fds : List PollFd) (q : PollFd), fds[k]? = some q → q.fd = fdOfSlot slot →
    has q.events pollout = true → (∀ j, host 0 j ≠ none) → 0 < src.count →
    callNonblock s slot (.write (fdOfSlot slot) false src) ≠ some (.fail (some .EAGAIN)) →
    ∃ ret left, nxPoll s host (rounds + 1) (some fds) nfds timeout = some (.returns ret left) ∧
      0 ≤ ret
  select : ∀ (host : Nat → Option FdSets) (rounds : Nat) (a : SelectArgs)
    (given : FdSet) (ret : Int)
    (left : Selected), Asks a (fdNumber slot) → a.writeset = some given →
    wordsTest given (fdNumber slot) = true →
    nxSelect s host rounds a = some (.returns ret left) → 0 ≤ ret →
    ∃ out, left.w = some out ∧ ∀ src : Source, 0 < src.count →
      ∃ r, callNonblock s slot (.write (fdOfSlot slot) false src) = some r ∧
        (wordsTest out (fdNumber slot) = true ↔ 1 ≤ r.toInt ∨ r = .fail (some .EPIPE))
  select_ends : ∀ (host : Nat → Option FdSets) (rounds : Nat) (src : Source) (a : SelectArgs)
    (given : FdSet), Asks a (fdNumber slot) → a.writeset = some given →
    wordsTest given (fdNumber slot) = true → host 0 ≠ none → 0 < src.count →
    callNonblock s slot (.write (fdOfSlot slot) false src) ≠ some (.fail (some .EAGAIN)) →
    ∃ ret left, nxSelect s host (rounds + 1) a = some (.returns ret left) ∧ 0 ≤ ret
  looper : ∀ r : ALooperReg, r.used = true → r.fd = fdOfSlot slot →
    has r.events alooperEventOutput = true →
    TellsWrite s slot (has (looperReadyEvents s r) alooperEventOutput = true) ∧
      TellsBroken s slot (has (looperReadyEvents s r) alooperEventError = true)

/-- The descriptor of a slot is one of the table. -/
theorem range_fdOfSlot (slot : Fin fakeFdCount) : fakefdIsRange (fdOfSlot slot) = true := by
  unfold fakefdIsRange
  rw [slot_of_fd_of_slot]
  rfl

/-- The number of a descriptor is the descriptor. -/
theorem fdNumber_cast (slot : Fin fakeFdCount) : ((fdNumber slot : Nat) : Int) = fdOfSlot slot := by
  unfold fdNumber fdOfSlot
  have hbase : fakeFdBase = 900 := rfl
  omega

/-- What is told when the pipe is readable. -/
theorem IsEnd.tellsRead (h : IsEnd s slot .pipeRead p ps) {told : Prop}
    (htold : told ↔ ps.Readable) :
    TellsRead s slot told := by
  intro count hcount
  obtain ⟨r, hr, hiff⟩ := read_nonblock h hcount
  exact ⟨r, hr, htold.trans hiff⟩

/-- What is told when the pipe is writable. -/
theorem IsEnd.tellsWrite (h : IsEnd s slot .pipeWrite p ps) {told : Prop}
    (htold : told ↔ ps.Writable) : TellsWrite s slot told := by
  intro src hcount
  obtain ⟨r, hr, hiff, -⟩ := write_nonblock h hcount
  exact ⟨r, hr, htold.trans hiff⟩

/-- What is told when the pipe is broken. -/
theorem IsEnd.tellsBroken (h : IsEnd s slot .pipeWrite p ps) {told : Prop}
    (htold : told ↔ ps.readers = 0) : TellsBroken s slot told := by
  intro src hcount
  obtain ⟨r, hr, -, hiff, -⟩ := write_nonblock h hcount
  exact ⟨r, hr, htold.trans hiff⟩

/-- A read that does not ask to come again finds the pipe readable. -/
theorem IsEnd.readable (h : IsEnd s slot .pipeRead p ps) {count : Nat} (hcount : 0 < count)
    (hread : callNonblock s slot (.read (fdOfSlot slot) false count) ≠
      some (.fail (some .EAGAIN))) :
    ps.Readable := by
  obtain ⟨r, hr, hiff⟩ := read_nonblock h hcount
  exact hiff.2 fun heq => hread (heq ▸ hr)

/-- A write that does not ask to come again finds the pipe writable or broken. -/
theorem IsEnd.writable (h : IsEnd s slot .pipeWrite p ps) {src : Source} (hcount : 0 < src.count)
    (hwrite : callNonblock s slot (.write (fdOfSlot slot) false src) ≠
      some (.fail (some .EAGAIN))) : ps.Writable ∨ ps.readers = 0 := by
  obtain ⟨r, hr, -, -, hwritable | hbroken | heq⟩ := write_nonblock h hcount
  · exact Or.inl hwritable
  · exact Or.inr hbroken
  · exact absurd (heq ▸ hr) hwrite

/-- For which sets a read end is ready. -/
theorem selectTold_read (h : IsEnd s slot .pipeRead p ps) {a : SelectArgs} {given : FdSet}
    (hset : a.readset = some given) (hasked : wordsTest given (fdNumber slot) = true)
    (host : FdSets) : (selectTold s a host (fdNumber slot)).1 = true ↔ ps.Readable := by
  obtain ⟨hread, hhup, -, herr⟩ := ready_read h
  have hgiven : a.given.r = given := by
    unfold SelectArgs.given
    rw [hset, Option.getD_some]
  unfold selectTold
  rw [fdNumber_cast, range_fdOfSlot, if_pos rfl]
  dsimp only
  rw [hgiven, hasked, has_or_mask, has_or_mask, herr, Bool.or_false, decide_eq_true_eq,
    Bool.or_eq_true, hread, hhup]
  unfold PipeState.Readable
  tauto

/-- For which sets a write end is ready. -/
theorem selectTold_write (h : IsEnd s slot .pipeWrite p ps) {a : SelectArgs} {given : FdSet}
    (hset : a.writeset = some given) (hasked : wordsTest given (fdNumber slot) = true)
    (host : FdSets) :
    (selectTold s a host (fdNumber slot)).2.1 = true ↔ ps.Writable ∨ ps.readers = 0 := by
  obtain ⟨hwrite, herr, -, -⟩ := ready_write h
  have hgiven : a.given.w = given := by
    unfold SelectArgs.given
    rw [hset, Option.getD_some]
  unfold selectTold
  rw [fdNumber_cast, range_fdOfSlot, if_pos rfl]
  dsimp only
  rw [hgiven, hasked, has_or_mask, decide_eq_true_eq, Bool.or_eq_true, hwrite, herr]
  tauto

/-- A read end tells the truth. -/
theorem readTruth (h : IsEnd s slot .pipeRead p ps) : ReadTruth s slot where
  ready := h.tellsRead (ready_read h).1
  poll := by
    intro host rounds nfds k timeout ret fds left q hq hfd hevents hpoll hret
    have hrange : fakefdIsRange q.fd = true := hfd ▸ range_fdOfSlot slot
    rw [nxPoll_own hq hrange] at hpoll
    have hrevents := revents_read h hevents
    rw [← hfd] at hrevents
    exact ⟨_, pollLoop_entry hpoll hret hq hrange, h.tellsRead hrevents.1, h.tellsRead hrevents.2⟩
  poll_ends := by
    intro host rounds nfds k count timeout fds q hq hfd hevents hhost hcount hread
    have hrange : fakefdIsRange q.fd = true := hfd ▸ range_fdOfSlot slot
    have hrevents := (revents_read h hevents).2.2 (h.readable hcount hread)
    rw [← hfd] at hrevents
    rw [nxPoll_own hq hrange]
    exact pollLoop_first hhost hq hrange hrevents
  select := by
    intro host rounds a given ret left hasks hset hasked hselect hret
    have hgiven : wordsTest a.given.r (fdNumber slot) = true := by
      unfold SelectArgs.given
      rw [hset, Option.getD_some, hasked]
    rw [nxSelect_own hasks (Or.inl hgiven)] at hselect
    -- what is stored comes from the pass that ended the call
    obtain ⟨sets, us, rfl⟩ := selectLoop_left hselect hret
    refine ⟨(selectPass s a sets (min a.n.toNat androidFdSetsize)).out.r, ?_, h.tellsRead ?_⟩
    · unfold SelectArgs.stored
      rw [hset]
      rfl
    · have hbelow := hasks.below
      have hsize := hasks.size
      have hfd : fdNumber slot < min a.n.toNat androidFdSetsize := by omega
      rw [(selectPass_out a sets _).1, wordsTest_collected hsize, decide_eq_true hfd, Bool.true_and]
      exact selectTold_read h hset hasked sets
  select_ends := by
    intro host rounds count a given hasks hset hasked hhost hcount hread
    have hgiven : wordsTest a.given.r (fdNumber slot) = true := by
      unfold SelectArgs.given
      rw [hset, Option.getD_some, hasked]
    obtain ⟨sets, hsets⟩ := Option.ne_none_iff_exists'.1 hhost
    have hbelow := hasks.below
    have hsize := hasks.size
    have hfd : fdNumber slot < min a.n.toNat androidFdSetsize := by omega
    rw [nxSelect_own hasks (Or.inl hgiven)]
    exact selectLoop_first hsets hfd
      (Or.inl ((selectTold_read h hset hasked sets).2 (h.readable hcount hread)))
  looper := by
    intro r hused hfd hevents
    obtain ⟨hin, hany⟩ := looper_read h hused hfd hevents
    exact ⟨h.tellsRead hin, h.tellsRead hany⟩

/-- A write end tells the truth. -/
theorem writeTruth (h : IsEnd s slot .pipeWrite p ps) : WriteTruth s slot where
  ready := ⟨h.tellsWrite (ready_write h).1, h.tellsBroken (ready_write h).2.1⟩
  poll := by
    intro host rounds nfds k timeout ret fds left q hq hfd hevents hpoll hret
    have hrange : fakefdIsRange q.fd = true := hfd ▸ range_fdOfSlot slot
    rw [nxPoll_own hq hrange] at hpoll
    have hrevents := revents_write h hevents
    rw [← hfd] at hrevents
    exact ⟨_, pollLoop_entry hpoll hret hq hrange, h.tellsWrite hrevents.1,
      h.tellsBroken hrevents.2⟩
  poll_ends := by
    intro host rounds nfds k src timeout fds q hq hfd hevents hhost hcount hwrite
    have hrange : fakefdIsRange q.fd = true := hfd ▸ range_fdOfSlot slot
    obtain ⟨hout, herr⟩ := revents_write h hevents
    have hrevents : nxFakePollRevents s (fdOfSlot slot) q.events ≠ 0 := by
      -- a write that does not wait finds room or a broken pipe, and both are told
      rcases h.writable hcount hwrite with hwritable | hbroken
      · exact ne_zero_of_has (hout.2 hwritable)
      · exact ne_zero_of_has (herr.2 hbroken)
    rw [← hfd] at hrevents
    rw [nxPoll_own hq hrange]
    exact pollLoop_first hhost hq hrange hrevents
  select := by
    intro host rounds a given ret left hasks hset hasked hselect hret
    have hgiven : wordsTest a.given.w (fdNumber slot) = true := by
      unfold SelectArgs.given
      rw [hset, Option.getD_some, hasked]
    rw [nxSelect_own hasks (Or.inr hgiven)] at hselect
    -- as for a read end
    obtain ⟨sets, us, rfl⟩ := selectLoop_left hselect hret
    refine ⟨(selectPass s a sets (min a.n.toNat androidFdSetsize)).out.w, ?_, ?_⟩
    · unfold SelectArgs.stored
      rw [hset]
      rfl
    · intro src hcount
      have hbelow := hasks.below
      have hsize := hasks.size
      have hfd : fdNumber slot < min a.n.toNat androidFdSetsize := by omega
      obtain ⟨r, hr, hwritable, hbroken, -⟩ := write_nonblock h hcount
      refine ⟨r, hr, ?_⟩
      rw [(selectPass_out a sets _).2, wordsTest_collected hsize, decide_eq_true hfd, Bool.true_and,
        selectTold_write h hset hasked sets, hwritable, hbroken]
  select_ends := by
    intro host rounds src a given hasks hset hasked hhost hcount hwrite
    have hgiven : wordsTest a.given.w (fdNumber slot) = true := by
      unfold SelectArgs.given
      rw [hset, Option.getD_some, hasked]
    obtain ⟨sets, hsets⟩ := Option.ne_none_iff_exists'.1 hhost
    have hbelow := hasks.below
    have hsize := hasks.size
    have hfd : fdNumber slot < min a.n.toNat androidFdSetsize := by omega
    rw [nxSelect_own hasks (Or.inr hgiven)]
    exact selectLoop_first hsets hfd
      (Or.inr ((selectTold_write h hset hasked sets).2 (h.writable hcount hwrite)))
  looper := by
    intro r hused hfd hevents
    obtain ⟨hout, herr⟩ := looper_write h hused hfd hevents
    exact ⟨h.tellsWrite hout, h.tellsBroken herr⟩

/-! ## The result -/

/-- In every state of a run, all that is told of an open end is the truth. -/
theorem readiness_truthful {trace : List (T × Event)} {c : Config T FdState Pc}
    (h : Run (Step fdProgram) (fdStart T) trace c) (slot : Fin fakeFdCount) :
    ((c.shared.gFds slot).kind = .pipeRead → ReadTruth c.shared slot) ∧
      ((c.shared.gFds slot).kind = .pipeWrite → WriteTruth c.shared slot) := by
  have hinv := (run_inv_run h).fd
  constructor
  · intro hkind
    obtain ⟨p, ps, hend⟩ := hinv.isEnd hkind (by decide)
    exact readTruth hend
  · intro hkind
    obtain ⟨p, ps, hend⟩ := hinv.isEnd hkind (by decide)
    exact writeTruth hend

theorem readiness_truthful_example : ∃ trace c, Run (Step fdProgram) (fdStart Unit) trace c ∧
    (c.shared.gFds 0).kind = .pipeRead ∧ ReadTruth c.shared 0 := by
  have hexec : (fdProgram.exec (fdStart Unit) pipeThenDup).any
      (fun r => decide ((r.2.shared.gFds 0).kind = .pipeRead)) = true := by
    decide
  obtain ⟨trace, c, hrun, hopen⟩ := Program.exec_test hexec
  have hkind := of_decide_eq_true hopen
  exact ⟨trace, c, hrun, hkind, (readiness_truthful hrun 0).1 hkind⟩

end Asnx.FakeFd
