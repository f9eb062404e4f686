import Asnx.FakeFd.Calls

/-!
# Waiting for descriptors

`nx_fake_poll_revents`, `nx_poll` and `nx_select` of `source/imports.c` and `looper_ready_events`
of `source/android_ndk.c`, over one state of the table: no other thread acts during the call. What
`poll` and `select` of the system say about other descriptors is given for each pass of a loop. A
call that has no result after `rounds` passes is still waiting.
-/

namespace Asnx.FakeFd

/-- `fakefd_is_range` -/
def fakefdIsRange (fd : Int) : Bool := (slotFromFd fd).isSome

/-- `fakefd_is_open` -/
def fakefdIsOpen (s : FdState) (fd : Int) : Bool :=
  match slotFromFd fd with
  | none => false
  | some slot => (s.gFds slot).kind ≠ .unused

/-- `fakefd_ready`. A slot with a pointer to a released pipe is not reached in any run; it would
tell nothing. -/
def fakefdReady (s : FdState) (fd : Int) : BitVec 32 :=
  match slotFromFd fd with
  | none => asnxFdReadyErr
  | some slot => (readyLocked s slot).getD 0

/-- A flag is set. -/
def has {w : Nat} (flags flag : BitVec w) : Bool := flags &&& flag ≠ 0

/-! ## `nx_poll` -/

/-- `POLLIN` and its siblings. -/
def pollin : BitVec 16 := 0x01
def pollpri : BitVec 16 := 0x02
def pollout : BitVec 16 := 0x04
def pollerr : BitVec 16 := 0x08
def pollhup : BitVec 16 := 0x10
def pollnval : BitVec 16 := 0x20

/-- `nx_fake_poll_revents` -/
def nxFakePollRevents (s : FdState) (fd : Int) (events : BitVec 16) : BitVec 16 :=
  if fakefdIsOpen s fd = false then pollnval
  else
    let r := fakefdReady s fd
    (if has r asnxFdReadyRead ∧ has events (pollin ||| pollpri) then events &&& (pollin ||| pollpri)
      else 0) |||
      (if has r asnxFdReadyWrite ∧ has events pollout then pollout else 0) |||
      (if has r asnxFdReadyHup then pollhup else 0) |||
      if has r asnxFdReadyErr then pollerr else 0

/-- `struct pollfd` -/
structure PollFd where
  fd : Int
  events : BitVec 16
  revents : BitVec 16
  deriving DecidableEq

/-- What `poll` of the system says of the entry at an index: its `revents`, or `none` when the call
fails. -/
abbrev HostPoll := Nat → Option (BitVec 16)

/-- The `revents` of the entry at index `i`. -/
def pollRevents (s : FdState) (host : HostPoll) (i : Nat) (p : PollFd) : Option (BitVec 16) :=
  if p.fd < 0 then some 0
  else if fakefdIsRange p.fd then some (nxFakePollRevents s p.fd p.events)
  else host i

/-- A pass over the entries: what they are then, how many are ready, and whether a call failed. -/
structure PollPass where
  fds : List PollFd
  ready : Nat
  failed : Bool

/-- One pass of `nx_poll` from index `i` on. -/
def pollPass (s : FdState) (host : HostPoll) : Nat → List PollFd → PollPass
  | _, [] => ⟨[], 0, false⟩
  | i, p :: fds =>
    match pollRevents s host i p with
    | none => ⟨p :: fds, 0, true⟩
    | some rev =>
      let rest := pollPass s host (i + 1) fds
      ⟨{ p with revents := rev } :: rest.fds, rest.ready + (if rev ≠ 0 then 1 else 0), rest.failed⟩

/-- How a call ends: with a value, with an `errno` that the call sets itself, or as the call of the
system. -/
inductive Waited (α : Type) where
  | returns (ret : Int) (left : α)
  | fails (e : Errno)
  | host

/-- The passes of `nx_poll`. -/
def pollLoop (s : FdState) (host : Nat → HostPoll) (timeout : Int) :
    (rounds pass : Nat) → (remaining : Int) → List PollFd → Option (Waited (List PollFd))
  | 0, _, _, _ => none
  | rounds + 1, pass, remaining, fds =>
    let r := pollPass s (host pass) 0 fds
    if r.failed then some (.returns (-1) r.fds)
    else if r.ready ≠ 0 ∨ timeout = 0 then some (.returns r.ready r.fds)
    else if timeout > 0 ∧ remaining ≤ 0 then some (.returns 0 r.fds)
    else
      let sleepMs := if timeout < 0 ∨ remaining > 1 then 1 else remaining
      if sleepMs ≤ 0 then some (.returns 0 r.fds)
      else
        pollLoop s host timeout rounds (pass + 1)
          (if timeout > 0 then remaining - sleepMs else remaining) r.fds

/-- `nx_poll`; `fds` is `none` for a null pointer with `nfds` entries. -/
def nxPoll (s : FdState) (host : Nat → HostPoll) (rounds : Nat) (fds : Option (List PollFd))
    (nfds : Nat) (timeout : Int) : Option (Waited (List PollFd)) :=
  match fds with
  | none => if nfds ≠ 0 then some (.fails .EFAULT) else some .host
  | some fds =>
    if fds.any fun p => fakefdIsRange p.fd then pollLoop s host timeout rounds 0 timeout fds
    else some .host

/-! ## `nx_select` -/

/-- `ANDROID_FD_SETSIZE` -/
abbrev androidFdSetsize : Nat := 1024

/-- An `fd_set` of the guest: its words one after the other. -/
abbrev FdSet := BitVec androidFdSetsize

/-- `words_test` -/
def wordsTest (w : FdSet) (fd : Nat) : Bool :=
  if fd ≥ androidFdSetsize then false else w.getLsbD fd

/-- `words_set` -/
def wordsSet (w : FdSet) (fd : Nat) : FdSet :=
  if fd < androidFdSetsize then w ||| BitVec.twoPow androidFdSetsize fd else w

/-- Three sets: for reading, for writing and for exceptions. -/
structure FdSets where
  r : FdSet
  w : FdSet
  e : FdSet
  deriving DecidableEq

/-- A pass of `nx_select`: the sets for the result and how many descriptors are ready. -/
structure SelectPass where
  out : FdSets
  ready : Nat

/-- A descriptor of the pass. `told` says for which of the three sets it is ready. -/
def SelectPass.add (pass : SelectPass) (fd : Nat) (told : Bool × Bool × Bool) : SelectPass :=
  ⟨⟨if told.1 then wordsSet pass.out.r fd else pass.out.r,
      if told.2.1 then wordsSet pass.out.w fd else pass.out.w,
      if told.2.2 then wordsSet pass.out.e fd else pass.out.e⟩,
    pass.ready + if told.1 ∨ told.2.1 ∨ told.2.2 then 1 else 0⟩

/-- What a call of `nx_select` leaves: the sets, where the guest passed them, and the time left. -/
structure Selected where
  r : Option FdSet
  w : Option FdSet
  e : Option FdSet
  timeout : Option (Int × Int)

/-- The arguments of `nx_select`. -/
structure SelectArgs where
  n : Int
  readset : Option FdSet
  writeset : Option FdSet
  exceptset : Option FdSet
  timeout : Option (Int × Int)

/-- The sets that the guest passed; a null pointer is an empty set. -/
def SelectArgs.given (a : SelectArgs) : FdSets :=
  ⟨a.readset.getD 0, a.writeset.getD 0, a.exceptset.getD 0⟩

/-- For which sets a descriptor is ready. `host` are the sets that `select` of the system
returned. -/
def selectTold (s : FdState) (a : SelectArgs) (host : FdSets) (fd : Nat) : Bool × Bool × Bool :=
  if fakefdIsRange fd then
    let state := fakefdReady s fd
    (wordsTest a.given.r fd ∧ has state (asnxFdReadyRead ||| asnxFdReadyHup ||| asnxFdReadyErr),
      wordsTest a.given.w fd ∧ has state (asnxFdReadyWrite ||| asnxFdReadyErr),
      wordsTest a.given.e fd ∧ has state asnxFdReadyErr)
  else
    (a.readset.isSome ∧ wordsTest host.r fd, a.writeset.isSome ∧ wordsTest host.w fd,
      a.exceptset.isSome ∧ wordsTest host.e fd)

/-- One pass of `nx_select` over the descriptors below `n`. -/
def selectPass (s : FdState) (a : SelectArgs) (host : FdSets) (n : Nat) : SelectPass :=
  (List.range n).foldl (fun pass fd => pass.add fd (selectTold s a host fd)) ⟨⟨0, 0, 0⟩, 0⟩

/-- What the guest passed, left as it is. -/
def SelectArgs.untouched (a : SelectArgs) : Selected :=
    ⟨a.readset, a.writeset, a.exceptset, a.timeout⟩

/-- What a pass leaves when the call returns. -/
def SelectArgs.stored (a : SelectArgs) (out : FdSets) (remainingUs : Int) : Selected where
  r := a.readset.map fun _ => out.r
  w := a.writeset.map fun _ => out.w
  e := a.exceptset.map fun _ => out.e
  timeout := a.timeout.map fun t =>
    if remainingUs ≥ 0 then (remainingUs / 1000000, remainingUs % 1000000) else t

/-- The passes of `nx_select` over the descriptors below `n`. -/
def selectLoop (s : FdState) (host : Nat → Option FdSets) (a : SelectArgs) (n : Nat) :
    (rounds pass : Nat) → (remainingUs : Int) → Option (Waited Selected)
  | 0, _, _ => none
  | rounds + 1, pass, remainingUs =>
    match host pass with
    | none => some (.returns (-1) a.untouched)
    | some sets =>
      let r := selectPass s a sets n
      if r.ready ≠ 0 ∨ remainingUs = 0 then some (.returns r.ready (a.stored r.out remainingUs))
      else
        let sleepUs := if remainingUs < 0 ∨ remainingUs > 1000 then 1000 else remainingUs
        selectLoop s host a n rounds (pass + 1)
          (if remainingUs > 0 then remainingUs - sleepUs else remainingUs)

/-- `nx_select` -/
def nxSelect (s : FdState) (host : Nat → Option FdSets) (rounds : Nat) (a : SelectArgs) :
    Option (Waited Selected) :=
  if a.n < 0 then some (.fails .EINVAL)
  else
    let n := min a.n.toNat androidFdSetsize
    let asked (fd : Nat) : Bool :=
      wordsTest a.given.r fd ∨ wordsTest a.given.w fd ∨ wordsTest a.given.e fd
    if (List.range n).any fun fd => asked fd && fakefdIsRange fd then
      match a.timeout with
      | none => selectLoop s host a n rounds 0 (-1)
      | some (sec, usec) =>
        if sec < 0 ∨ usec < 0 then some (.fails .EINVAL)
        else selectLoop s host a n rounds 0 (sec * 1000000 + usec)
    else some .host

/-! ## The looper -/

/-- `ALOOPER_EVENT_INPUT` and its siblings. -/
def alooperEventInput : BitVec 32 := 0x01
def alooperEventOutput : BitVec 32 := 0x02
def alooperEventError : BitVec 32 := 0x04
def alooperEventHangup : BitVec 32 := 0x08
def alooperEventInvalid : BitVec 32 := 0x10

/-- The part of `ALooperReg` that `looper_ready_events` reads. -/
structure ALooperReg where
  used : Bool
  fd : Int
  events : BitVec 32

/-- `looper_ready_events` -/
def looperReadyEvents (s : FdState) (r : ALooperReg) : BitVec 32 :=
  if r.used = false then 0
  else if fakefdIsRange r.fd = false then 0
  else if fakefdIsOpen s r.fd = false then alooperEventInvalid
  else
    let st := fakefdReady s r.fd
    (if has st asnxFdReadyRead ∧ has r.events alooperEventInput then alooperEventInput else 0) |||
      (if has st asnxFdReadyWrite ∧
        has r.events alooperEventOutput then alooperEventOutput else 0) |||
      (if has st asnxFdReadyErr then alooperEventError else 0) |||
      if has st asnxFdReadyHup then alooperEventHangup else 0

end Asnx.FakeFd
