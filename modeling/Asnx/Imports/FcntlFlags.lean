import Asnx.FakeFd.Polling

/-!
# The flags of descriptors

`nx_fcntl` of `source/imports.c` keeps the flags of the host's descriptors in two arrays by number.
Beside it stands what the calls should be about: the flags belong to the file that is open under a
number. The arrays follow the files as long as a number that is given out anew has no flags left
from before (`flags_iff`): `nx_close`, `nx_dup`, `nx_dup2` and the opens do not touch the arrays.
-/

namespace Asnx.Imports.FcntlFlags

open FakeFd (fakefdIsRange)

/-- A descriptor. -/
abbrev Fd := Int

/-- `NX_FD_TRACK_MAX` -/
def nxFdTrackMax : Int := 1024

/-- `ANDROID_F_DUPFD` -/
def androidFDupfd : Int := 0
/-- `ANDROID_F_GETFD` -/
def androidFGetfd : Int := 1
/-- `ANDROID_F_SETFD` -/
def androidFSetfd : Int := 2
/-- `ANDROID_F_GETFL` -/
def androidFGetfl : Int := 3
/-- `ANDROID_F_SETFL` -/
def androidFSetfl : Int := 4
/-- `ANDROID_F_GETLK` -/
def androidFGetlk : Int := 5
/-- `ANDROID_F_SETLK` -/
def androidFSetlk : Int := 6
/-- `ANDROID_F_SETLKW` -/
def androidFSetlkw : Int := 7
/-- `ANDROID_F_DUPFD_CLOEXEC` -/
def androidFDupfdCloexec : Int := 1030

/-- The open descriptors of the host and the two arrays. -/
structure FcntlState where
  hostOpen : Fd → Bool
  gFcntlFdflags : Fd → Int
  gFcntlFlflags : Fd → Int

/-- What the host gives out in a call that makes a descriptor or duplicates to one, and what a call
on an emulated descriptor returns. -/
structure Answers where
  fd : Option Fd
  emulated : Int

/-- What a call returns, the `errno` it sets itself, and the state it leaves. -/
structure Outcome where
  ret : Int
  errno : Option FakeFd.Errno
  state : FcntlState

/-- A descriptor of the host below `NX_FD_TRACK_MAX`. -/
def isHostFd (fd : Fd) : Prop := 0 ≤ fd ∧ fd < nxFdTrackMax ∧ fakefdIsRange fd = false

instance (fd : Fd) : Decidable (isHostFd fd) := inferInstanceAs (Decidable (_ ∧ _ ∧ _))

section Calls

variable (x : Answers) (s : FcntlState)

def FcntlState.setOpen (fd : Fd) (isOpen : Bool) : FcntlState :=
  { s with hostOpen := Function.update s.hostOpen fd isOpen }

def FcntlState.setFdflags (fd : Fd) (v : Int) : FcntlState :=
  { s with gFcntlFdflags := Function.update s.gFcntlFdflags fd v }

def FcntlState.setFlflags (fd : Fd) (v : Int) : FcntlState :=
  { s with gFcntlFlflags := Function.update s.gFcntlFlflags fd v }

/-- The host gives out a number that is not in use, or fails; an answer that it cannot give has no
result. -/
def giveOut (after : Fd → FcntlState) : Option Outcome :=
  match x.fd with
  | none => some ⟨-1, none, s⟩
  | some n => if isHostFd n ∧ s.hostOpen n = false then some ⟨n, none, after n⟩ else none

/-- An open of a file of the host. -/
def hostOpens : Option Outcome := giveOut x s fun n => s.setOpen n true

/-- `nx_close` -/
def nxClose (fd : Fd) : Option Outcome :=
  if fakefdIsRange fd then some ⟨x.emulated, none, s⟩
  else if s.hostOpen fd then some ⟨0, none, s.setOpen fd false⟩
  else some ⟨-1, none, s⟩

/-- `nx_dup` -/
def nxDup (fd : Fd) : Option Outcome :=
  if fakefdIsRange fd then some ⟨x.emulated, none, s⟩
  else if s.hostOpen fd then giveOut x s fun n => s.setOpen n true
  else some ⟨-1, none, s⟩

/-- `nx_dup2`; the host leaves a descriptor that is its own duplicate alone. -/
def nxDup2 (oldfd newfd : Fd) : Option Outcome :=
  if fakefdIsRange oldfd ∨ fakefdIsRange newfd then some ⟨x.emulated, none, s⟩
  else if s.hostOpen oldfd ∧ x.fd = some newfd then
    if isHostFd newfd then
      some ⟨newfd, none, if oldfd = newfd then s else s.setOpen newfd true⟩
    else none
  else some ⟨-1, none, s⟩

/-- The duplication in `nx_fcntl`, with the flags of the new descriptor. -/
def fcntlDup (fd : Fd) (cmd : Int) : Option Outcome :=
  let fdflags := if fd < nxFdTrackMax then s.gFcntlFdflags fd else 0
  let flflags := if fd < nxFdTrackMax then s.gFcntlFlflags fd else 0
  if s.hostOpen fd then
    giveOut x s fun n =>
      if n < nxFdTrackMax then
        ((s.setOpen n true).setFdflags n
          (if cmd = androidFDupfdCloexec then 1 else fdflags)).setFlflags
          n flflags
      else s.setOpen n true
  else some ⟨-1, none, s⟩

/-- `nx_fcntl` -/
def nxFcntl (fd : Fd) (cmd arg : Int) : Option Outcome :=
  if fd < 0 then some ⟨-1, some .EBADF, s⟩
  else if fakefdIsRange fd then some ⟨x.emulated, none, s⟩
  else if cmd = androidFGetfd then
    some ⟨if fd < nxFdTrackMax then s.gFcntlFdflags fd else 0, none, s⟩
  else if cmd = androidFGetfl then
    some ⟨if fd < nxFdTrackMax then s.gFcntlFlflags fd else 0, none, s⟩
  else if cmd = androidFGetlk ∨ cmd = androidFSetlk ∨ cmd = androidFSetlkw then some ⟨0, none, s⟩
  else if cmd = androidFSetfd then
    some ⟨0, none, if fd < nxFdTrackMax then s.setFdflags fd arg else s⟩
  else if cmd = androidFSetfl then
    some ⟨0, none, if fd < nxFdTrackMax then s.setFlflags fd arg else s⟩
  else if cmd = androidFDupfd ∨ cmd = androidFDupfdCloexec then fcntlDup x s fd cmd
  else some ⟨-1, some .EINVAL, s⟩

end Calls

/-- A call. -/
inductive FdCall where
  | opens
  | close (fd : Fd)
  | dup (fd : Fd)
  | dup2 (oldfd newfd : Fd)
  | fcntl (fd : Fd) (cmd arg : Int)

def FdCall.outcome (x : Answers) (s : FcntlState) : FdCall → Option Outcome
  | .opens => hostOpens x s
  | .close fd => nxClose x s fd
  | .dup fd => nxDup x s fd
  | .dup2 oldfd newfd => nxDup2 x s oldfd newfd
  | .fcntl fd cmd arg => nxFcntl x s fd cmd arg

/-! ## What the flags should be -/

/-- The flags of an open file. -/
structure Flags where
  fd : Int
  fl : Int
  deriving DecidableEq, Repr

/-- The flags of the files by their descriptors; `none` for a number that no file is open under. -/
abbrev Descriptors := Fd → Option Flags

/-- A new file under a number. -/
def Descriptors.begin (d : Descriptors) (n : Int) (f : Flags) : Descriptors :=
  if n < 0 then d else Function.update d n (some f)

/-- A change of the flags of an open file. -/
def Descriptors.change (d : Descriptors) (fd : Fd) (f : Flags → Flags) : Descriptors :=
  Function.update d fd ((d fd).map f)

/-- What a call of `nx_fcntl` with a result makes of the flags. -/
def Descriptors.afterFcntl (d : Descriptors) (fd : Fd) (cmd arg r : Int) : Descriptors :=
  if cmd = androidFSetfd then d.change fd fun f => { f with fd := arg }
  else if cmd = androidFSetfl then d.change fd fun f => { f with fl := arg }
  else if cmd = androidFDupfd then d.begin r ((d fd).getD ⟨0, 0⟩)
  else if cmd = androidFDupfdCloexec then d.begin r ⟨1, ((d fd).getD ⟨0, 0⟩).fl⟩
  else d

/-- What a call with a result makes of the flags. Emulated descriptors are not the host's. -/
def Descriptors.after (d : Descriptors) (r : Int) : FdCall → Descriptors
  | .opens => d.begin r ⟨0, 0⟩
  | .close fd => if fakefdIsRange fd ∨ r ≠ 0 then d else Function.update d fd none
  | .dup fd => if fakefdIsRange fd then d else d.begin r ⟨0, 0⟩
  | .dup2 oldfd newfd =>
      if fakefdIsRange oldfd ∨ fakefdIsRange newfd ∨ oldfd = newfd then d else d.begin r ⟨0, 0⟩
  | .fcntl fd cmd arg => if fd < 0 ∨ fakefdIsRange fd then d else d.afterFcntl fd cmd arg r

/-- The state of the code beside the flags of the files. -/
structure FlagState where
  code : FcntlState
  files : Descriptors

/-- A call with the answers of the host. -/
structure FdEvent where
  call : FdCall
  answers : Answers

/-- A call; `none` for answers that the host cannot give. -/
def FlagState.step (p : FlagState) (e : FdEvent) : Option FlagState :=
  (e.call.outcome e.answers p.code).map fun o => ⟨o.state, p.files.after o.ret e.call⟩

/-- `F_GETFD` and `F_GETFL` return the flags of every open file. -/
def FlagState.Agrees (p : FlagState) : Prop :=
  ∀ fd f, p.files fd = some f → ∀ x arg,
    nxFcntl x p.code fd androidFGetfd arg = some ⟨f.fd, none, p.code⟩ ∧
      nxFcntl x p.code fd androidFGetfl arg = some ⟨f.fl, none, p.code⟩

/-- They do so now and after each of the calls. -/
def AlwaysAgrees : FlagState → List FdEvent → Prop
  | p, [] => p.Agrees
  | p, e :: es => p.Agrees ∧ ∀ p', p.step e = some p' → AlwaysAgrees p' es

/-- Nothing is left in the arrays for a number. -/
def FcntlState.Unmarked (s : FcntlState) (n : Fd) : Prop :=
  s.gFcntlFdflags n = 0 ∧ s.gFcntlFlflags n = 0

/-- A call that gives out a number without flags of its own finds none left in the arrays. -/
def FcntlState.GivesUnmarked (s : FcntlState) (x : Answers) : FdCall → Prop
  | .opens => ∀ n, x.fd = some n → s.Unmarked n
  | .dup fd => fakefdIsRange fd = false → s.hostOpen fd = true → ∀ n, x.fd = some n → s.Unmarked n
  | .dup2 oldfd newfd =>
      fakefdIsRange oldfd = false → s.hostOpen oldfd = true → x.fd = some newfd → isHostFd newfd →
        oldfd ≠ newfd → s.Unmarked newfd
  | _ => True

/-- Each of the calls does so. -/
def AlwaysUnmarked : FlagState → List FdEvent → Prop
  | _, [] => True
  | p, e :: es => ∀ p', p.step e = some p' →
      p.code.GivesUnmarked e.answers e.call ∧ AlwaysUnmarked p' es

/-- The arrays are zero, and nothing has been noted of the descriptors that are open. -/
structure FlagState.Initial (p : FlagState) : Prop where
  unmarked : ∀ fd, p.code.Unmarked fd
  host : ∀ fd, p.code.hostOpen fd = true → isHostFd fd
  files : ∀ fd, p.files fd = if p.code.hostOpen fd then some ⟨0, 0⟩ else none

/-! ## What a call does -/

section Steps

variable {x : Answers} {s : FcntlState} {d : Descriptors} {o : Outcome} {fd n : Fd}

/-- What the host may give out. -/
theorem giveOut_cases {after : Fd → FcntlState} (h : giveOut x s after = some o) :
    (x.fd = none ∧ o.ret = -1 ∧ o.state = s) ∨
      ∃ n, x.fd = some n ∧ isHostFd n ∧ s.hostOpen n = false ∧ o.ret = n ∧ o.state = after n := by
  unfold giveOut at h
  cases hfd : x.fd with
  | none =>
      rw [hfd] at h
      obtain rfl := Option.some.inj h
      exact .inl ⟨rfl, rfl, rfl⟩
  | some n =>
      simp only [hfd] at h
      split at h
      · rename_i hn
        obtain rfl := Option.some.inj h
        exact .inr ⟨n, rfl, hn.1, hn.2, rfl, rfl⟩
      · exact nomatch h

/-- The files of the host, each with the flags that the arrays have for it. -/
structure Tracks (s : FcntlState) (d : Descriptors) : Prop where
  host : ∀ fd, s.hostOpen fd = true → isHostFd fd
  isSome : ∀ fd, s.hostOpen fd = (d fd).isSome
  flags : ∀ fd f, d fd = some f → s.gFcntlFdflags fd = f.fd ∧ s.gFcntlFlflags fd = f.fl

/-- What the two calls return for an open descriptor. -/
theorem agrees_iff (hhost : ∀ fd, s.hostOpen fd = true → isHostFd fd)
    (hsome : ∀ fd, s.hostOpen fd = (d fd).isSome) :
    FlagState.Agrees ⟨s, d⟩ ↔ Tracks s d := by
  have hread : ∀ fd f, d fd = some f → ∀ x arg,
      nxFcntl x s fd androidFGetfd arg = some ⟨s.gFcntlFdflags fd, none, s⟩ ∧
        nxFcntl x s fd androidFGetfl arg = some ⟨s.gFcntlFlflags fd, none, s⟩ := by
    intro fd f hf x arg
    obtain ⟨hpos, hlt, hrange⟩ := hhost fd ((hsome fd).trans (by rw [hf]; rfl))
    have hneg : ¬ fd < 0 := Int.not_lt.2 hpos
    simp [nxFcntl, hneg, hrange, hlt, androidFGetfd, androidFGetfl]
  refine ⟨fun h => ⟨hhost, hsome, fun fd f hf => ?_⟩, fun h fd f hf x arg => ?_⟩
  · obtain ⟨hfd, hfl⟩ := h fd f hf ⟨none, 0⟩ 0
    rw [(hread fd f hf _ _).1] at hfd
    rw [(hread fd f hf _ _).2] at hfl
    exact ⟨congrArg Outcome.ret (Option.some.inj hfd), congrArg Outcome.ret (Option.some.inj hfl)⟩
  · obtain ⟨hfd, hfl⟩ := h.flags fd f hf
    rw [(hread fd f hf x arg).1, (hread fd f hf x arg).2, hfd, hfl]
    exact ⟨rfl, rfl⟩

/-- A file under a number, with the flags that the arrays get for it or have. -/
theorem Tracks.begin (h : Tracks s d) {s' : FcntlState} {f : Flags} (hn : isHostFd n)
    (hopen : s'.hostOpen = Function.update s.hostOpen n true)
    (hother : ∀ fd, fd ≠ n → s'.gFcntlFdflags fd = s.gFcntlFdflags fd ∧
      s'.gFcntlFlflags fd = s.gFcntlFlflags fd) :
    (∀ fd, s'.hostOpen fd = true → isHostFd fd) ∧
      (∀ fd, s'.hostOpen fd = (d.begin n f fd).isSome) ∧
      (Tracks s' (d.begin n f) ↔ s'.gFcntlFdflags n = f.fd ∧ s'.gFcntlFlflags n = f.fl) := by
  have hbegin : d.begin n f = Function.update d n (some f) := if_neg (Int.not_lt.2 hn.1)
  have hhost : ∀ fd, s'.hostOpen fd = true → isHostFd fd := by
    intro fd hfd
    by_cases heq : fd = n
    case pos => rwa [heq]
    case neg => exact h.host fd (by rwa [hopen, Function.update_of_ne heq] at hfd)
  have hsome : ∀ fd, s'.hostOpen fd = (d.begin n f fd).isSome := by
    intro fd
    rw [hopen, hbegin]
    by_cases heq : fd = n
    case pos => simp [heq]
    case neg => rw [Function.update_of_ne heq, Function.update_of_ne heq, h.isSome]
  refine ⟨hhost, hsome, fun h' => h'.flags n f (by rw [hbegin, Function.update_self]),
    fun hflags => ⟨hhost, hsome, fun fd f' hf' => ?_⟩⟩
  rw [hbegin] at hf'
  by_cases heq : fd = n
  case pos =>
    rw [heq, Function.update_self] at hf'
    obtain rfl := Option.some.inj hf'
    rwa [heq]
  case neg =>
    rw [Function.update_of_ne heq] at hf'
    rw [(hother fd heq).1, (hother fd heq).2]
    exact h.flags fd f' hf'

theorem begin_failed (d : Descriptors) (f : Flags) : d.begin (-1) f = d := rfl

/-- A number that is given out without flags of its own. -/
theorem Tracks.opened (h : Tracks s d) (hn : isHostFd n) :
    (∀ fd, (s.setOpen n true).hostOpen fd = true → isHostFd fd) ∧
      (∀ fd, (s.setOpen n true).hostOpen fd = (d.begin n ⟨0, 0⟩ fd).isSome) ∧
      (Tracks (s.setOpen n true) (d.begin n ⟨0, 0⟩) ↔ s.Unmarked n) :=
  h.begin hn rfl fun _ _ => ⟨rfl, rfl⟩

theorem Tracks.closed (h : Tracks s d) (fd : Fd) :
    Tracks (s.setOpen fd false) (Function.update d fd none) := by
  refine ⟨fun fd' hfd' => ?_, fun fd' => ?_, fun fd' f hf => ?_⟩
  all_goals by_cases heq : fd' = fd
  · simp [FcntlState.setOpen, heq] at hfd'
  · exact h.host fd' (by simpa [FcntlState.setOpen, heq] using hfd')
  · simp [FcntlState.setOpen, heq]
  · simp [FcntlState.setOpen, heq, h.isSome]
  · simp [heq] at hf
  · exact h.flags fd' f (by simpa [heq] using hf)

/-- A change of the flags in one of the arrays and of the open file, if there is one. -/
theorem Tracks.changed (h : Tracks s d) {s' : FcntlState} {g : Flags → Flags}
    (hopen : s'.hostOpen = s.hostOpen)
    (hother : ∀ fd', fd' ≠ fd → s'.gFcntlFdflags fd' = s.gFcntlFdflags fd' ∧
      s'.gFcntlFlflags fd' = s.gFcntlFlflags fd')
    (hself : ∀ f, d fd = some f →
      s'.gFcntlFdflags fd = (g f).fd ∧ s'.gFcntlFlflags fd = (g f).fl) :
    Tracks s' (d.change fd g) := by
  unfold Descriptors.change
  refine ⟨fun fd' hfd' => h.host fd' (by rwa [← hopen]), fun fd' => ?_, fun fd' f hf => ?_⟩
  all_goals by_cases heq : fd' = fd
  · simp [hopen, heq, h.isSome]
  · simp [hopen, heq, h.isSome]
  · rw [heq, Function.update_self] at hf
    obtain ⟨f', hf', rfl⟩ := Option.map_eq_some_iff.1 hf
    rw [heq]
    exact hself f' hf'
  · rw [Function.update_of_ne heq] at hf
    rw [(hother fd' heq).1, (hother fd' heq).2]
    exact h.flags fd' f hf

/-- What a step keeps, and when the flags are still those of the files. -/
structure Keeps (s' : FcntlState) (d' : Descriptors) (clean : Prop) : Prop where
  host : ∀ fd, s'.hostOpen fd = true → isHostFd fd
  isSome : ∀ fd, s'.hostOpen fd = (d' fd).isSome
  tracks : Tracks s' d' ↔ clean

theorem Tracks.keeps (h : Tracks s d) : Keeps s d True := ⟨h.host, h.isSome, iff_true_intro h⟩

theorem Keeps.congr {s' : FcntlState} {d' : Descriptors} {clean clean' : Prop}
    (h : Keeps s' d' clean) (hiff : clean ↔ clean') : Keeps s' d' clean' :=
  ⟨h.host, h.isSome, h.tracks.trans hiff⟩

/-- A number is given out. -/
theorem Tracks.giveOut (h : Tracks s d)
    (ho : giveOut x s (fun n => s.setOpen n true) = some o) :
    Keeps o.state (d.begin o.ret ⟨0, 0⟩) (∀ n, x.fd = some n → s.Unmarked n) := by
  rcases giveOut_cases ho with ⟨hfd, hret, hstate⟩ | ⟨n, hfd, hn, -, hret, hstate⟩
  · rw [hret, hstate, begin_failed]
    exact h.keeps.congr (by simp [hfd])
  · rw [hret, hstate]
    obtain ⟨hhost, hsome, htracks⟩ := h.opened hn
    exact ⟨hhost, hsome, htracks.trans (by simp [hfd])⟩

/-- `F_DUPFD` and `F_DUPFD_CLOEXEC` give the new descriptor its flags. -/
theorem Tracks.fcntlDup (h : Tracks s d) {cmd : Int} (ho : fcntlDup x s fd cmd = some o) :
    Tracks o.state (d.begin o.ret ⟨if cmd = androidFDupfdCloexec then 1
      else ((d fd).getD ⟨0, 0⟩).fd, ((d fd).getD ⟨0, 0⟩).fl⟩) := by
  unfold FcntlFlags.fcntlDup at ho
  cases hopen : s.hostOpen fd with
  | false =>
      rw [hopen, if_neg Bool.noConfusion] at ho
      obtain rfl := Option.some.inj ho
      rwa [begin_failed]
  | true =>
      rw [hopen, if_pos rfl] at ho
      obtain ⟨f, hf⟩ := Option.isSome_iff_exists.1 ((h.isSome fd).symm.trans hopen)
      obtain ⟨hfdflags, hflflags⟩ := h.flags fd f hf
      have hlt : fd < nxFdTrackMax := (h.host fd hopen).2.1
      rcases giveOut_cases ho with ⟨-, hret, hstate⟩ | ⟨n, -, hn, -, hret, hstate⟩
      · rw [hret, hstate, begin_failed]
        exact h
      · rw [hret, hstate, if_pos hn.2.1]
        refine (h.begin hn rfl fun fd' hne => ?_).2.2.2 ?_
        · simp [FcntlState.setFlflags, FcntlState.setFdflags, FcntlState.setOpen, hne]
        · simp [FcntlState.setFlflags, FcntlState.setFdflags, hlt, hf, hfdflags, hflflags]

/-- An open descriptor has an entry in the arrays. -/
theorem Tracks.lt (h : Tracks s d) {f : Flags} (hf : d fd = some f) : fd < nxFdTrackMax :=
  (h.host fd ((h.isSome fd).trans (by rw [hf]; rfl))).2.1

theorem Tracks.setFdflags (h : Tracks s d) (arg : Int) :
    Tracks (if fd < nxFdTrackMax then s.setFdflags fd arg else s)
      (d.change fd fun f => { f with fd := arg }) := by
  by_cases hlt : fd < nxFdTrackMax
  case pos =>
    rw [if_pos hlt]
    refine h.changed rfl (fun fd' hne => ?_) fun f hf => ?_
    · simp [FcntlState.setFdflags, hne]
    · simp [FcntlState.setFdflags, (h.flags fd f hf).2]
  case neg =>
    rw [if_neg hlt]
    exact h.changed rfl (fun _ _ => ⟨rfl, rfl⟩) fun f hf => absurd (h.lt hf) hlt

theorem Tracks.setFlflags (h : Tracks s d) (arg : Int) :
    Tracks (if fd < nxFdTrackMax then s.setFlflags fd arg else s)
      (d.change fd fun f => { f with fl := arg }) := by
  by_cases hlt : fd < nxFdTrackMax
  case pos =>
    rw [if_pos hlt]
    refine h.changed rfl (fun fd' hne => ?_) fun f hf => ?_
    · simp [FcntlState.setFlflags, hne]
    · simp [FcntlState.setFlflags, (h.flags fd f hf).1]
  case neg =>
    rw [if_neg hlt]
    exact h.changed rfl (fun _ _ => ⟨rfl, rfl⟩) fun f hf => absurd (h.lt hf) hlt

/-- What a call of `nx_fcntl` on a descriptor of the host does to the arrays, by its command. -/
inductive FcntlEffect (x : Answers) (s : FcntlState) (fd : Fd) (cmd arg : Int)
    (o : Outcome) : Prop where
  | setfd : cmd = androidFSetfd →
      o.state = (if fd < nxFdTrackMax then s.setFdflags fd arg else s) →
        FcntlEffect x s fd cmd arg o
  | setfl : cmd = androidFSetfl →
      o.state = (if fd < nxFdTrackMax then s.setFlflags fd arg else s) →
        FcntlEffect x s fd cmd arg o
  | dup : cmd = androidFDupfd ∨ cmd = androidFDupfdCloexec → fcntlDup x s fd cmd = some o →
      FcntlEffect x s fd cmd arg o
  | none : cmd ≠ androidFSetfd → cmd ≠ androidFSetfl → cmd ≠ androidFDupfd →
      cmd ≠ androidFDupfdCloexec → o.state = s → FcntlEffect x s fd cmd arg o

theorem nxFcntl_effect {cmd arg : Int} (hpos : ¬ fd < 0) (hrange : fakefdIsRange fd = false)
    (ho : nxFcntl x s fd cmd arg = some o) : FcntlEffect x s fd cmd arg o := by
  unfold nxFcntl at ho
  rw [if_neg hpos, if_neg (by simp [hrange])] at ho
  by_cases hread : cmd = androidFGetfd ∨ cmd = androidFGetfl ∨ cmd = androidFGetlk ∨
      cmd = androidFSetlk ∨ cmd = androidFSetlkw
  case pos =>
    rcases hread with rfl | rfl | rfl | rfl | rfl <;>
      exact .none (by decide) (by decide) (by decide) (by decide) (Option.some.inj ho ▸ rfl)
  case neg =>
    simp only [not_or] at hread
    obtain ⟨hgetfd, hgetfl, hlocks⟩ := hread
    rw [if_neg hgetfd, if_neg hgetfl, if_neg (by simp [hlocks])] at ho
    by_cases hsetfd : cmd = androidFSetfd
    case pos =>
      rw [if_pos hsetfd] at ho
      exact .setfd hsetfd (Option.some.inj ho ▸ rfl)
    rw [if_neg hsetfd] at ho
    by_cases hsetfl : cmd = androidFSetfl
    case pos =>
      rw [if_pos hsetfl] at ho
      exact .setfl hsetfl (Option.some.inj ho ▸ rfl)
    rw [if_neg hsetfl] at ho
    by_cases hdup : cmd = androidFDupfd ∨ cmd = androidFDupfdCloexec
    case pos =>
      rw [if_pos hdup] at ho
      exact .dup hdup ho
    rw [if_neg hdup] at ho
    rw [not_or] at hdup
    exact .none hsetfd hsetfl hdup.1 hdup.2 (Option.some.inj ho ▸ rfl)

/-- `nx_fcntl` keeps the flags with the files, whatever the command. -/
theorem Tracks.nxFcntl (h : Tracks s d) {cmd arg : Int} (hpos : ¬ fd < 0)
    (hrange : fakefdIsRange fd = false) (ho : nxFcntl x s fd cmd arg = some o) :
    Tracks o.state (d.afterFcntl fd cmd arg o.ret) := by
  unfold Descriptors.afterFcntl
  cases nxFcntl_effect hpos hrange ho with
  | setfd hcmd hstate =>
      rw [hcmd, if_pos rfl, hstate]
      exact h.setFdflags arg
  | setfl hcmd hstate =>
      rw [hcmd, if_neg (by decide), if_pos rfl, hstate]
      exact h.setFlflags arg
  | dup hcmd hdup =>
      have hgiven := h.fcntlDup hdup
      rcases hcmd with rfl | rfl
      · exact hgiven
      · exact hgiven
  | none hsetfd hsetfl hdupfd hcloexec hstate =>
      rw [if_neg hsetfd, if_neg hsetfl, if_neg hdupfd, if_neg hcloexec, hstate]
      exact h

theorem Tracks.close (h : Tracks s d) (ho : nxClose x s fd = some o) :
    Keeps o.state (d.after o.ret (.close fd)) True := by
  unfold nxClose at ho
  simp only [Descriptors.after]
  split at ho
  · rename_i hrange
    obtain rfl := Option.some.inj ho
    rw [if_pos (.inl hrange)]
    exact h.keeps
  split at ho
  · rename_i hrange hopen
    obtain rfl := Option.some.inj ho
    rw [if_neg (by simp [hrange])]
    exact (h.closed fd).keeps
  · obtain rfl := Option.some.inj ho
    rw [if_pos (.inr (show (-1 : Int) ≠ 0 by decide))]
    exact h.keeps

theorem Tracks.dup (h : Tracks s d) (ho : nxDup x s fd = some o) :
    Keeps o.state (d.after o.ret (.dup fd)) (s.GivesUnmarked x (.dup fd)) := by
  unfold nxDup at ho
  simp only [Descriptors.after, FcntlState.GivesUnmarked]
  split at ho
  · rename_i hrange
    obtain rfl := Option.some.inj ho
    rw [if_pos hrange]
    exact h.keeps.congr (by simp [hrange])
  split at ho
  · rename_i hrange hopen
    rw [if_neg hrange]
    exact (h.giveOut ho).congr (by simp [hrange, hopen])
  · rename_i hrange hopen
    obtain rfl := Option.some.inj ho
    rw [if_neg hrange, begin_failed]
    exact h.keeps.congr (by simp [hopen])

theorem Tracks.dup2 (h : Tracks s d) {oldfd newfd : Fd} (ho : nxDup2 x s oldfd newfd = some o) :
    Keeps o.state (d.after o.ret (.dup2 oldfd newfd)) (s.GivesUnmarked x (.dup2 oldfd newfd)) := by
  unfold nxDup2 at ho
  simp only [Descriptors.after, FcntlState.GivesUnmarked]
  split at ho
  · rename_i hrange
    obtain rfl := Option.some.inj ho
    rw [if_pos (by tauto)]
    refine h.keeps.congr ?_
    rcases hrange with hrange | hrange
    · simp [hrange]
    · simp [isHostFd, hrange]
  rename_i hrange
  rw [not_or] at hrange
  split at ho
  · rename_i hopen
    split at ho
    · rename_i hnew
      obtain rfl := Option.some.inj ho
      by_cases heq : oldfd = newfd
      case pos =>
        rw [if_pos heq, if_pos (.inr (.inr heq))]
        exact h.keeps.congr (by simp [heq])
      case neg =>
        obtain ⟨hhost, hsome, htracks⟩ := h.opened hnew
        rw [if_neg heq, if_neg (by simp [hrange, heq])]
        exact ⟨hhost, hsome, htracks.trans (by simp [hrange, hopen, hnew, heq])⟩
    · exact nomatch ho
  · rename_i hopen
    obtain rfl := Option.some.inj ho
    rw [begin_failed, ite_self]
    exact h.keeps.congr (by tauto)

theorem Tracks.fcntl (h : Tracks s d) {cmd arg : Int}
    (ho : FcntlFlags.nxFcntl x s fd cmd arg = some o) :
    Keeps o.state (d.after o.ret (.fcntl fd cmd arg)) True := by
  simp only [Descriptors.after]
  by_cases hpos : fd < 0
  case pos =>
    rw [FcntlFlags.nxFcntl, if_pos hpos] at ho
    obtain rfl := Option.some.inj ho
    rw [if_pos (.inl hpos)]
    exact h.keeps
  case neg =>
    by_cases hrange : fakefdIsRange fd = true
    case pos =>
      rw [FcntlFlags.nxFcntl, if_neg hpos, if_pos hrange] at ho
      obtain rfl := Option.some.inj ho
      rw [if_pos (.inr hrange)]
      exact h.keeps
    case neg =>
      rw [if_neg (by simp [hpos, hrange])]
      exact (h.nxFcntl hpos (by simpa using hrange) ho).keeps

/-- What a call does to the flags and the files. -/
theorem Tracks.call (h : Tracks s d) {c : FdCall} (ho : c.outcome x s = some o) :
    Keeps o.state (d.after o.ret c) (s.GivesUnmarked x c) := by
  cases c with
  | opens => exact h.giveOut ho
  | close fd => exact h.close ho
  | dup fd => exact h.dup ho
  | dup2 oldfd newfd => exact h.dup2 ho
  | fcntl fd cmd arg => exact h.fcntl ho

end Steps

/-! ## Runs -/

/-- From a state whose flags are those of the files, by induction on the calls. -/
theorem always_iff {p : FlagState} (h : Tracks p.code p.files) (es : List FdEvent) :
    AlwaysAgrees p es ↔ AlwaysUnmarked p es := by
  induction es generalizing p with
  | nil => exact iff_true_intro ((agrees_iff h.host h.isSome).2 h)
  | cons e es ih =>
      have hstep : ∀ p', p.step e = some p' →
          Keeps p'.code p'.files (p.code.GivesUnmarked e.answers e.call) := by
        intro p' hp'
        obtain ⟨o, ho, rfl⟩ := Option.map_eq_some_iff.1 hp'
        exact h.call ho
      have hagrees : p.Agrees := (agrees_iff h.host h.isSome).2 h
      refine ⟨fun ha p' hp' => ?_, fun hu => ⟨hagrees, fun p' hp' => ?_⟩⟩
      · have hkeeps := hstep p' hp'
        have halways := ha.2 p' hp'
        have hnow : p'.Agrees := by
          cases es with
          | nil => exact halways
          | cons e' es => exact halways.1
        have htracks := (agrees_iff hkeeps.host hkeeps.isSome).1 hnow
        exact ⟨hkeeps.tracks.1 htracks, (ih htracks).1 halways⟩
      · obtain ⟨hclean, halways⟩ := hu p' hp'
        exact (ih ((hstep p' hp').tracks.2 hclean)).2 halways

/-- `F_GETFD` and `F_GETFL` return the flags of the open files throughout exactly the runs in which
every number that is given out without flags has none left in the arrays. -/
theorem flags_iff (p : FlagState) (h : p.Initial) (es : List FdEvent) :
    AlwaysAgrees p es ↔ AlwaysUnmarked p es := by
  refine always_iff ⟨h.host, fun fd => ?_, fun fd f hf => ?_⟩ es
  · rw [h.files]
    split <;> simp_all
  · rw [h.files] at hf
    obtain ⟨hfdflags, hflflags⟩ := h.unmarked fd
    split at hf
    · obtain rfl := Option.some.inj hf
      exact ⟨hfdflags, hflflags⟩
    · exact nomatch hf

theorem fakefdIsRange_of_lt {fd : Int} (h : fd < FakeFd.fakeFdBase) : fakefdIsRange fd = false := by
  unfold fakefdIsRange FakeFd.slotFromFd
  rw [dif_neg (by omega)]
  rfl

/-- Three descriptors are open at the start. -/
def startState : FlagState :=
  ⟨⟨fun fd => decide (0 ≤ fd ∧ fd < 3), fun _ => 0, fun _ => 0⟩,
    fun fd => if 0 ≤ fd ∧ fd < 3 then some ⟨0, 0⟩ else none⟩

theorem startState_initial : startState.Initial := by
  refine ⟨fun _ => ⟨rfl, rfl⟩, fun fd hfd => ?_, fun fd => ?_⟩
  · have hfd : 0 ≤ fd ∧ fd < 3 := of_decide_eq_true hfd
    exact ⟨hfd.1, Int.lt_trans hfd.2 (by decide),
      fakefdIsRange_of_lt (Int.lt_trans hfd.2 (by decide))⟩
  · simp [startState]

/-- A file gets a close-on-exec flag and is closed, and the next one has its number. -/
def reuse : List FdEvent :=
  [⟨.opens, ⟨some 3, 0⟩⟩, ⟨.fcntl 3 androidFSetfd 1, ⟨none, 0⟩⟩, ⟨.close 3, ⟨none, 0⟩⟩,
    ⟨.opens, ⟨some 3, 0⟩⟩]

theorem flags_iff_reuse : AlwaysAgrees startState reuse ↔ AlwaysUnmarked startState reuse :=
  flags_iff startState startState_initial reuse

theorem not_always_agrees_reuse : ¬ AlwaysAgrees startState reuse := by
  intro h
  have hlast := (((h.2 _ rfl).2 _ rfl).2 _ rfl).2 _ rfl
  have hread := (hlast 3 ⟨0, 0⟩ rfl ⟨none, 0⟩ 0).1
  exact absurd (congrArg (Option.map Outcome.ret) hread) (by decide)

end Asnx.Imports.FcntlFlags
