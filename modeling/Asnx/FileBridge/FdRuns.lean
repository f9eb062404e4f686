import Asnx.FileBridge.FdTables

/-!
# The tables follow the host

Over every run in which the host does not close, give out or duplicate a descriptor on which
another call is at work (`Calm`), what is noted of the descriptors agrees with the host whenever no
call is in progress (`tables_follow`). Without that it need not: a descriptor that has been closed
can be open again, and noted, before the call that closed it forgets it.
-/

namespace Asnx.FileBridge.Notes

open Files SlotTables Threads

variable {T : Type*}

/-! ## Calm runs -/

/-- The descriptors that need a slot in the table of `__lock` files. -/
def lockHeld (s : Shared T) : Set Fd :=
  {fd | (s.host fd).lockPath ≠ none ∨
    ∃ i, (s.gUnitycacheLockSlots i).key = fd ∧ (s.gUnitycacheLockSlots i).value ≠ none}

/-- The descriptors that need a slot in the table of `__data` files. -/
def dataHeld (s : Shared T) : Set Fd :=
  {fd | (s.host fd).dataPath ≠ none ∨
    ∃ i, (s.gUnitycacheDataSlots i).key = fd ∧ (s.gUnitycacheDataSlots i).value ≠ none}

/-- The tables have room for a descriptor that the host gives out. -/
def Room (s : Shared T) (fd : Fd) (x : HostFd) : Prop :=
  (x.lockPath ≠ none → (insert fd (lockHeld s)).encard ≤ unitycacheLockSlots) ∧
    (x.dataPath ≠ none → (insert fd (dataHeld s)).encard ≤ unitycacheDataSlots)

/-- No call is at work on a descriptor that the host closes, gives out or duplicates, nor reads
what is noted of one that it closes or gives out; a `__lock` file that is shared may still be in
the making, but not as a duplicate. The tables have room for what the host gives out. -/
def Calm (c : Config T (Shared T) (Thread T)) : Event → Prop
  | .opened fd p => (∀ u, (c.locals u).pc.noting ≠ some fd) ∧ Room c.shared fd (.file p)
  | .closed fd => ∀ u, (c.locals u).pc.noting ≠ some fd ∧ (c.locals u).pc.source ≠ some fd
  | .duplicated oldfd newfd =>
      (∀ u, (c.locals u).pc.noting ≠ some oldfd ∧ (c.locals u).pc.noting ≠ some newfd ∧
        (c.locals u).pc.source ≠ some newfd) ∧ Room c.shared newfd (c.shared.host oldfd)
  | .shared existing fd =>
      (∀ u, (c.locals u).pc.noting ≠ some fd ∧ (c.locals u).pc.target ≠ some existing) ∧
        Room c.shared fd (c.shared.host existing)
  | _ => True

section Steps

variable {c : Config T (Shared T) (Thread T)} {lock data : Fd → Option Bytes} {s' : Shared T}
  {t : T} {a : Answers} {l : Thread T} {e : Event} {f oldfd : Fd} {p : Bytes} {b : Bool}
  {x : HostFd}

theorem lock_held_eq (h : Tables s' lock data) : lockHeld s' =
    held s'.host HostFd.lockPath lock := by
  ext fd
  exact or_congr_right h.locks.ne_none_iff.symm

theorem data_held_eq (h : Tables s' lock data) : dataHeld s' =
    held s'.host HostFd.dataPath data := by
  ext fd
  exact or_congr_right h.datas.ne_none_iff.symm

/-- The tables after the host has given out a descriptor for which they have room. -/
theorem Tables.give (h : Tables s' lock data) (hslots : inSlots f) (hne : ∀ p, x = .file p → p ≠ [])
    (hroom : Room s' f x) : Tables (s'.setHost f x) lock data := by
  refine h.setHost (fun _ => hslots) hne ?_ ?_
  · rw [← lock_held_eq h]
    exact hroom.1
  · rw [← data_held_eq h]
    exact hroom.2

/-- The tables after the host has closed a descriptor. -/
theorem Tables.closeHost (h : Tables s' lock data) (f : Fd) :
    Tables (s'.setHost f .closed) lock data :=
  h.setHost (fun hne => absurd rfl hne) nofun (fun hne => absurd rfl hne) fun hne => absurd rfl hne

theorem Inv.goto_eq (h : Inv c lock data) (t : T) (pc : Pc) : (c.locals t).goto pc = ⟨t, pc⟩ := by
  show (⟨(c.locals t).self, pc⟩ : Thread T) = ⟨t, pc⟩
  rw [h.self]

/-- Where nobody has the mutex nobody shares a file. -/
theorem Inv.not_sharing (h : Inv c lock data)
    (hfree : c.shared.gUnitycacheLockMutex = none) (u : T) :
    ¬ (c.locals u).pc.sharing := by
  intro hu
  have hmutex := h.mutex u hu
  rw [hfree] at hmutex
  cases hmutex

/-- Only one call shares a file. -/
theorem Inv.not_sharing_other (h : Inv c lock data) (ht : (c.locals t).pc.sharing) {u : T}
    (hu : u ≠ t) : ¬ (c.locals u).pc.sharing := by
  intro hsharing
  have hmutex := h.mutex u hsharing
  rw [h.mutex t ht] at hmutex
  exact hu (Option.some.inj hmutex).symm

theorem Pc.sharing_of_existing {pc : Pc} (h : pc.existing = some f) : pc.sharing := by
  cases pc with
  | shareDup => trivial
  | _ => cases h

theorem after_lock_noting : (afterLock f p).noting = some f := by
  unfold afterLock
  split <;> rfl

theorem after_lock_source : (afterLock f p).source = none := by
  unfold afterLock
  split <;> rfl

theorem after_lock_sharing : ¬ (afterLock f p).sharing := by
  unfold afterLock
  split <;> exact id

/-- What a call knows after the section for `__lock` files. -/
theorem at_after_lock (hhost : s'.host f = .file p) (hpositioned : s'.gPositionedFd f = none)
    (hlock : lock f = (s'.host f).lockPath) (hdata : data f = none) :
    At s' lock data (afterLock f p) := by
  unfold afterLock
  split
  · rename_i hp
    exact ⟨hhost, hpositioned, hlock, hdata, hp⟩
  · rename_i hp
    refine ⟨hhost, hlock, ?_⟩
    rw [hdata, hhost, HostFd.dataPath, HostFd.path, Option.filter_some_neg (by simpa using hp)]

theorem lock_path_file (hp : isUnitycacheLockFile p = true) :
    (HostFd.file p).lockPath = some p := by
  rw [HostFd.lockPath, HostFd.path, Option.filter_some_pos hp]

theorem data_path_file (hp : isUnitycacheDataFile p = true) :
    (HostFd.file p).dataPath = some p := by
  rw [HostFd.dataPath, HostFd.path, Option.filter_some_pos hp]

/-! ### Noting an open descriptor -/

variable [DecidableEq T]

/-- Where the invariant leads. -/
def Leads (c : Config T (Shared T) (Thread T)) (t : T) (s' : Shared T) (l : Thread T) : Prop :=
  ∃ lock' data', Inv (c.set t s' l) lock' data'

/-- A `__lock` file is registered, and the mutex is then as `s'` has it. -/
theorem Inv.lock_registered (h : Inv c lock data) (hpc : (c.locals t).pc.noting = some f)
    (hopen : ¬ (c.locals t).pc.closing) (hun : Unnoted c.shared lock data f p)
    (hp : isUnitycacheLockFile p = true) (m : Option T)
    (hmutexOther : ∀ u, u ≠ t → ¬ (c.locals u).pc.sharing) :
    Leads c t { unitycacheLockRegister c.shared f p with gUnitycacheLockMutex := m }
      ⟨t, afterLock f p⟩ := by
  have hlock : (c.shared.host f).lockPath = some p := by rw [hun.host, lock_path_file hp]
  have htables := h.toTables.lockRegister (f := f) (by rw [hlock]; exact nofun) p
  refine ⟨Function.update lock f (some p), data, h.work hpc hopen ⟨htables.locks, htables.datas,
    htables.range, htables.nonempty, htables.roomLock, htables.roomData⟩ ?_ ?_ ?_
    (.inl after_lock_noting) ?_ ?_ ?_⟩
  · refine fun g hg => ⟨?_, ?_, Function.update_of_ne hg .., rfl⟩
    · exact congrFun (lock_register_host ..) g
    · exact congrFun (lock_register_positioned ..) g
  · exact fun hsharing => absurd hsharing after_lock_sharing
  · exact fun u hu hsharing => absurd hsharing (hmutexOther u hu)
  · exact fun u hu hexisting => absurd (Pc.sharing_of_existing hexisting) (hmutexOther u hu)
  · intro g hg
    rw [after_lock_source] at hg
    cases hg
  · refine at_after_lock ?_ ?_ ?_ hun.data
    · exact (congrFun (lock_register_host ..) f).trans hun.host
    · exact (congrFun (lock_register_positioned ..) f).trans hun.positioned
    · show Function.update lock f (some p) f =
        ((unitycacheLockRegister c.shared f p).host f).lockPath
      rw [Function.update_self, lock_register_host, hlock]

/-- A `__data` file is registered. -/
theorem Inv.data_registered (h : Inv c lock data) (hpc : (c.locals t).pc = .openData f p)
    (hfree : c.shared.gUnitycacheLockMutex = none) :
    Leads c t (unitycacheDataRegister c.shared f p) ⟨t, .openPositioned f p⟩ := by
  have hat := h.at' t
  rw [hpc] at hat
  obtain ⟨hhost, -, hlock, -, hp⟩ := hat
  have hdata : (c.shared.host f).dataPath = some p := by rw [hhost, data_path_file hp]
  refine ⟨lock, Function.update data f (some p), h.work (by rw [hpc]; rfl) (by rw [hpc]; exact id)
    (h.toTables.dataRegister (by rw [hdata]; exact nofun) p) ?_ (fun hsharing => hsharing.elim) ?_
    (.inl rfl) (fun _ _ _ => rfl) (fun g hg => nomatch hg) ⟨?_, ?_, ?_⟩⟩
  · refine fun g hg => ⟨?_, ?_, rfl, Function.update_of_ne hg ..⟩
    · rw [data_register_host]
    · rw [data_register_positioned]
  · exact fun u _ hsharing => absurd hsharing (h.not_sharing hfree u)
  · rw [data_register_host, hhost]
  · rw [data_register_host, hlock]
  · rw [Function.update_self, data_register_host, hdata]

/-- The last step of a `file_open` that succeeds. -/
theorem Inv.open_noted (h : Inv c lock data) (hpc : (c.locals t).pc = .openPositioned f p) :
    Leads c t (positionedRegister c.shared f p) ⟨t, .idle⟩ := by
  have hat := h.at' t
  rw [hpc] at hat
  obtain ⟨hhost, hlock, hdata⟩ := hat
  have hslots : inSlots f := by
    by_contra hout
    rw [(h.range f hout).1] at hhost
    cases hhost
  refine ⟨lock, data, h.work (by rw [hpc]; rfl) (by rw [hpc]; exact id)
    (h.toTables.positionedRegister p)
    ?_ (fun hsharing => hsharing.elim) ?_ (.inr ⟨rfl, ?_, ?_, ?_⟩) (fun _ _ _ => rfl)
    (fun g hg => nomatch hg) trivial⟩
  · refine fun g hg => ⟨?_, positioned_register_other hg, rfl, rfl⟩
    rw [positioned_register_host]
  · intro u _ hsharing
    rw [positioned_register_mutex]
    exact h.mutex u hsharing
  · rw [positioned_register_self hslots, positioned_register_host, hhost]
    rfl
  · rw [positioned_register_host, hlock]
  · rw [positioned_register_host, hdata]

/-- A shared descriptor that could not be truncated is closed. -/
theorem Inv.share_closed (h : Inv c lock data) (hpc : (c.locals t).pc = .shareClose f) :
    Leads c t (c.shared.setHost f .closed) ⟨t, .shareLeave⟩ := by
  have hat := h.at' t
  rw [hpc] at hat
  obtain ⟨p, hun⟩ := hat
  have hsharing : (c.locals t).pc.sharing := by
    rw [hpc]
    trivial
  have hhost : (c.shared.setHost f .closed).host f = .closed := Function.update_self ..
  refine ⟨lock, data, h.work (by rw [hpc]; rfl) (by rw [hpc]; exact id) (h.toTables.closeHost f)
    (fun g hg => ⟨Function.update_of_ne hg .., rfl, rfl, rfl⟩) (fun _ => h.mutex t hsharing)
    (fun u _ hu => h.mutex u hu) (.inr ⟨rfl, ?_, ?_, ?_⟩) (fun _ _ _ => rfl)
    (fun g hg => nomatch hg) trivial⟩
  · rw [hhost]
    exact hun.positioned
  · rw [hhost]
    exact hun.lock
  · rw [hhost]
    exact hun.data

/-! ### Noting a duplicate -/

/-- What is noted of the old descriptor is the path of its file. -/
theorem Inv.duplicate_copied (h : Inv c lock data) (hpc : (c.locals t).pc = .dupMetadata oldfd f) :
    Leads c t c.shared
      ⟨t, .dupPositioned oldfd f (positionedCopyMetadata c.shared oldfd)⟩ := by
  have hdup := h.at' t
  rw [hpc] at hdup
  have hold := h.settled oldfd (h.source t oldfd (by rw [hpc]; rfl))
  refine ⟨lock, data, h.goto rfl rfl rfl rfl (fun hsharing => hsharing.elim)
    (fun u _ hu => h.mutex u hu) (by rw [hpc]; rfl) (by rw [hpc]; rfl) (by rw [hpc]; exact id)
    ⟨hdup, ?_⟩⟩
  have hslots : inSlots oldfd := by
    by_contra hout
    exact Duplicate.isOpen hdup (Duplicate.host hdup ▸ (h.range oldfd hout).1)
  rw [positionedCopyMetadata, if_pos hslots, hold.positioned, Duplicate.host hdup]

/-- The positioned slot of a duplicate gets the path that has been copied, or is emptied. -/
theorem Inv.duplicate_positioned (h : Inv c lock data) {path : Bytes}
    (hpc : (c.locals t).pc = .dupPositioned oldfd f path) :
    Leads c t (if path ≠ [] then positionedRegister c.shared f
      path else positionedSlotClear c.shared f)
      ⟨t, .dupTables oldfd f⟩ := by
  have hat := h.at' t
  rw [hpc] at hat
  obtain ⟨hdup, hpath⟩ := hat
  have hslots : inSlots f := by
    by_contra hout
    exact hdup.isOpen (h.range f hout).1
  -- all that the step may change is the positioned slot of `f`
  have hwork : ∀ s', Tables s' lock data → s'.host = c.shared.host →
      s'.gUnitycacheLockMutex = c.shared.gUnitycacheLockMutex →
      (∀ g, g ≠ f → s'.gPositionedFd g = c.shared.gPositionedFd g) →
      s'.gPositionedFd f = (c.shared.host f).path → Leads c t s' ⟨t, .dupTables oldfd f⟩ := by
    intro s' htables hhost hmutex hother hself
    refine ⟨lock, data, h.work (by rw [hpc]; rfl) (by rw [hpc]; exact id) htables
      (fun g hg => ⟨by rw [hhost], hother g hg, rfl, rfl⟩) (fun hsharing => hsharing.elim)
        ?_ (.inl rfl)
      (fun _ _ _ => rfl) ?_ ⟨⟨hdup.ne, ?_, ?_⟩, ?_⟩⟩
    · exact fun u _ hu => hmutex ▸ h.mutex u hu
    · intro g hg
      rw [hpc]
      exact hg
    · rw [hhost, hdup.host]
    · rw [hhost]
      exact hdup.isOpen
    · rw [hhost, hself]
  split
  · rename_i hne
    refine hwork _ (h.toTables.positionedRegister path) (positioned_register_host ..)
      (positioned_register_mutex ..) (fun g hg => positioned_register_other hg) ?_
    rw [positioned_register_self hslots]
    cases hhost : (c.shared.host f).path with
    | none =>
        rw [hhost] at hpath
        exact absurd hpath hne
    | some p =>
        rw [hhost] at hpath
        rw [hpath]
        rfl
  · -- an empty path has been copied, so the new descriptor is of no file
    rename_i hempty
    refine hwork _ h.toTables.positionedSlotClear (positioned_clear_host ..)
      (positioned_clear_mutex ..)
      (fun g hg => positioned_clear_other hg) ?_
    rw [h.toTables.positioned_clear_self]
    cases hhost : c.shared.host f with
    | file p =>
        rw [hhost] at hpath
        exact absurd hpath fun hpath => hempty (hpath ▸ h.nonempty f p hhost)
    | closed | other => rfl

/-- The last step of `file_note_fd_duplicated`. -/
theorem Inv.duplicate_noted (h : Inv c lock data) (hpc : (c.locals t).pc = .dupTables oldfd f)
    (hfree : c.shared.gUnitycacheLockMutex = none) :
    Leads c t (duplicateData (duplicateLock
      (unitycacheDataForgetFd (unitycacheLockForgetFd c.shared f) f) oldfd f) oldfd f)
        ⟨t, .idle⟩ := by
  have hat := h.at' t
  rw [hpc] at hat
  obtain ⟨hdup, hpositioned⟩ := hat
  have hold := h.settled oldfd (h.source t oldfd (by rw [hpc]; rfl))
  have hlock : Function.update lock f none oldfd = (c.shared.host f).lockPath := by
    rw [Function.update_of_ne hdup.ne, hold.lock, hdup.host]
  have hdata : Function.update data f none oldfd = (c.shared.host f).dataPath := by
    rw [Function.update_of_ne hdup.ne, hold.data, hdup.host]
  have hlocks := (h.toTables.forgetBoth f).duplicateLock hlock (Function.update_self ..)
  have hdata' : Function.update data f none oldfd = ((duplicateLock (unitycacheDataForgetFd
      (unitycacheLockForgetFd c.shared f) f) oldfd f).host f).dataPath := by
    rw [duplicate_lock_host]
    exact hdata
  have hdatas := hlocks.duplicateData hdata' (Function.update_self ..)
  refine ⟨_, _, h.work (by rw [hpc]; rfl) (by rw [hpc]; exact id) hdatas ?_
    (fun hsharing => hsharing.elim) ?_ (.inr ⟨rfl, ?_, ?_, ?_⟩) ?_ (fun g hg => nomatch hg) trivial⟩
  · intro g hg
    refine ⟨?_, ?_, ?_, ?_⟩
    · rw [duplicate_data_host, duplicate_lock_host]
      rfl
    · rw [duplicate_data_positioned, duplicate_lock_positioned]
      rfl
    · rw [Function.update_of_ne hg, Function.update_of_ne hg]
    · rw [Function.update_of_ne hg, Function.update_of_ne hg]
  · exact fun u _ hsharing => absurd hsharing (h.not_sharing hfree u)
  · rw [duplicate_data_host, duplicate_lock_host, duplicate_data_positioned,
      duplicate_lock_positioned]
    exact hpositioned
  · rw [duplicate_data_host, duplicate_lock_host, Function.update_self, hlock]
    rfl
  · rw [duplicate_data_host, duplicate_lock_host, Function.update_self, hdata]
    rfl
  · exact fun u _ hexisting => absurd (Pc.sharing_of_existing hexisting) (h.not_sharing hfree u)

/-! ### Noting a closed descriptor -/

omit [DecidableEq T] in
/-- Whoever else is at work on a closed descriptor notes that it is closed. -/
theorem Inv.closing_of_closed (h : Inv c lock data) (hclosed : c.shared.host f = .closed) {u : T}
    (hu : (c.locals u).pc.noting = some f) : (c.locals u).pc.closing := by
  have hat := h.at' u
  cases hpc : (c.locals u).pc with
  | closedPositioned | closedTables => trivial
  | openLock g | shareTruncate _ g | shareRegister _ g =>
      rw [hpc] at hu hat
      cases hu
      rw [hat.1.host] at hclosed
      cases hclosed
  | openData g | openPositioned g =>
      rw [hpc] at hu hat
      cases hu
      rw [hat.1] at hclosed
      cases hclosed
  | shareClose g =>
      rw [hpc] at hu hat
      cases hu
      obtain ⟨p, hun⟩ := hat
      rw [hun.host] at hclosed
      cases hclosed
  | dupMetadata _ g =>
      rw [hpc] at hu hat
      cases hu
      exact absurd hclosed (Duplicate.isOpen hat)
  | dupPositioned _ g | dupTables _ g =>
      rw [hpc] at hu hat
      cases hu
      exact absurd hclosed hat.1.isOpen
  | _ =>
      rw [hpc] at hu
      cases hu

omit [DecidableEq T] in
/-- Nobody reads what is noted of a closed descriptor. -/
theorem Inv.not_source_of_closed (h : Inv c lock data)
    (hclosed : c.shared.host f = .closed) (u : T) :
    (c.locals u).pc.source ≠ some f := by
  intro hu
  have hat := h.at' u
  have hdup : ∀ {g}, Duplicate c.shared f g → False := fun hdup =>
    hdup.isOpen (hdup.host ▸ hclosed)
  cases hpc : (c.locals u).pc with
  | dupMetadata g =>
      rw [hpc] at hu hat
      cases hu
      exact hdup hat
  | dupPositioned g | dupTables g =>
      rw [hpc] at hu hat
      cases hu
      exact hdup hat.1
  | _ =>
      rw [hpc] at hu
      cases hu

/-- What a step keeps that is at work on a closed descriptor: whoever else is at work on it also
notes that it is closed. -/
theorem Inv.at_closed {s : Shared T} {pc : Pc} {lock' data' : Fd → Option Bytes}
    (h : Inv c lock data) (hclosed : c.shared.host f = .closed)
    (hfrom : ∀ g, (c.locals t).pc.noting = some g → g = f) (htables : Tables s lock' data')
    (hhost : s.host = c.shared.host) (hmutex : s.gUnitycacheLockMutex =
      c.shared.gUnitycacheLockMutex)
    (hsame : ∀ g, g ≠ f → SameAt g c.shared lock data s lock' data')
    (hemptied : c.shared.gPositionedFd f = none → s.gPositionedFd f = none)
    (hto : pc.closing ∧ pc.noting = some f ∨ pc.noting = none ∧
      ((∀ u, u ≠ t → (c.locals u).pc.noting ≠ some f) → Agree s lock' data' f))
    (hexisting : ∀ u, u ≠ t → (c.locals u).pc.existing = some f → lock' f = lock f)
    (hsharing : pc.sharing → (c.locals t).pc.sharing) (hsource : pc.source = none)
    (hat : At s lock' data' pc) : Inv (c.set t s ⟨t, pc⟩) lock' data' := by
  refine h.touch htables hsame (fun hpc => hmutex ▸ h.mutex t (hsharing hpc))
    (fun u _ hu => hmutex ▸ h.mutex u hu) hfrom ?_ ?_ ?_ (fun u _ =>
      h.not_source_of_closed hclosed u)
    hexisting ?_ hat
  · intro g hg
    rcases hto with hto | hto
    · rw [hto.2] at hg
      exact (Option.some.inj hg).symm
    · rw [hto.1] at hg
      cases hg
  · intro hnone hfree
    rcases hto with hto | hto
    · rw [hto.2] at hnone
      cases hnone
    · exact hto.2 hfree
  · intro u _ hu
    -- another call at work on a closed descriptor is closing it as well
    have hclosing := h.closing_of_closed hclosed hu
    have hatu := h.at' u
    refine ⟨?_, fun hne => ⟨hclosing, ?_⟩⟩
    · cases hpc : (c.locals u).pc with
      | closedPositioned g r =>
          rw [hpc] at hu
          cases hu
          show s.host f = .closed
          rw [hhost, hclosed]
      | closedTables g r =>
          rw [hpc] at hu hatu
          cases hu
          refine ⟨?_, hemptied hatu.2⟩
          rw [hhost, hclosed]
      | _ =>
          rw [hpc] at hclosing
          exact hclosing.elim
    · rcases hto with hto | hto
      · exact hto.1
      · exact absurd hto.1 hne
  · intro g hg
    rw [hsource] at hg
    cases hg

/-- The positioned slot of a closed descriptor is emptied. -/
theorem Inv.closed_positioned (h : Inv c lock data) {r : Int}
    (hpc : (c.locals t).pc = .closedPositioned f r) :
    Leads c t (positionedSlotClear c.shared f) ⟨t, .closedTables f r⟩ := by
  have hclosed := h.at' t
  rw [hpc] at hclosed
  have hempty := h.toTables.positioned_clear_self (f := f)
  refine ⟨lock, data, h.at_closed hclosed ?_ h.toTables.positionedSlotClear
    (positioned_clear_host ..)
    (positioned_clear_mutex ..) ?_ (fun _ => hempty) (.inl ⟨trivial, rfl⟩) (fun _ _ _ => rfl)
    (fun hsharing => hsharing.elim) rfl ⟨?_, hempty⟩⟩
  · intro g hg
    rw [hpc] at hg
    exact (Option.some.inj hg).symm
  · refine fun g hg => ⟨?_, positioned_clear_other hg, rfl, rfl⟩
    rw [positioned_clear_host]
  · rw [positioned_clear_host]
    exact hclosed

/-- The last step of `file_note_fd_closed`. -/
theorem Inv.closed_noted (h : Inv c lock data) {r : Int} (hpc : (c.locals t).pc = .closedTables f r)
    (hfree : c.shared.gUnitycacheLockMutex = none) :
    Leads c t (unitycacheDataForgetFd (unitycacheLockForgetFd c.shared f) f) ⟨t, .idle⟩ := by
  have hat := h.at' t
  rw [hpc] at hat
  obtain ⟨hclosed, hempty⟩ := hat
  refine ⟨_, _, h.at_closed hclosed ?_ (h.toTables.forgetBoth f) rfl rfl ?_ id
    (.inr ⟨rfl, fun _ => ?_⟩)
    ?_ (fun hsharing => hsharing.elim) rfl trivial⟩
  · intro g hg
    rw [hpc] at hg
    exact (Option.some.inj hg).symm
  · exact fun g hg => ⟨rfl, rfl, Function.update_of_ne hg .., Function.update_of_ne hg ..⟩
  · have hhost : (unitycacheDataForgetFd (unitycacheLockForgetFd c.shared f) f).host f = .closed :=
      hclosed
    refine ⟨?_, ?_, ?_⟩
    · rw [hhost]
      exact hempty
    · rw [hhost, Function.update_self]
      rfl
    · rw [hhost, Function.update_self]
      rfl
  · exact fun u _ hexisting => absurd (Pc.sharing_of_existing hexisting) (h.not_sharing hfree u)

/-! ### What the host does -/

/-- A call of the host gives out a descriptor on which nobody is at work. -/
theorem Inv.given {pc : Pc} (h : Inv c lock data) (hpc : (c.locals t).pc.noting = none)
    (hfresh : c.shared.fresh f) (hfree : ∀ u, (c.locals u).pc.noting ≠ some f)
    (hne : ∀ p, x = .file p → p ≠ []) (hroom : Room c.shared f x) (hto : pc.noting = some f)
    (hmutex : pc.sharing → (c.locals t).pc.sharing)
    (hown : ∀ g, pc.source = some g → g ≠ f ∧ ∀ u, (c.locals u).pc.noting ≠ some g)
    (hat : At (c.shared.setHost f x) lock data pc) : Leads c t (c.shared.setHost f x) ⟨t, pc⟩ :=
  ⟨lock, data, h.begin hpc hfree (h.not_source_of_closed hfresh.2.2)
    (h.toTables.give ⟨hfresh.1, hfresh.2.1⟩ hne hroom) hto (fun hpc =>
      h.mutex t (hmutex hpc)) hown hat⟩

omit [DecidableEq T] in
/-- Nothing is noted of a descriptor that the host has just opened, when nobody is at work on it. -/
theorem Inv.unnoted (h : Inv c lock data) (hfresh : c.shared.fresh f)
    (hfree : ∀ u, (c.locals u).pc.noting ≠ some f) (p : Bytes) :
    Unnoted (c.shared.setHost f (.file p)) lock data f p := by
  have hagree := h.settled f hfree
  have hclosed := hfresh.2.2
  refine ⟨Function.update_self .., ?_, ?_, ?_⟩
  · exact hagree.positioned.trans (by rw [hclosed]; rfl)
  · exact hagree.lock.trans (by rw [hclosed]; rfl)
  · exact hagree.data.trans (by rw [hclosed]; rfl)

/-- `open` succeeds. -/
theorem Inv.opened (h : Inv c lock data) (hpc : (c.locals t).pc = .hostOpen p b)
    (hfresh : c.shared.fresh f) (hne : p ≠ []) (hcalm : Calm c (.opened f p)) :
    Leads c t (c.shared.setHost f (.file p))
      ⟨t, if isUnitycacheLockFile p then .openLock f p else afterLock f p⟩ := by
  obtain ⟨hfree, hroom⟩ := hcalm
  have hun := h.unnoted hfresh hfree p
  have hgiven : ∀ pc : Pc, pc.noting = some f → pc.source = none → ¬ pc.sharing →
      At (c.shared.setHost f (.file p)) lock data pc →
      Leads c t (c.shared.setHost f (.file p)) ⟨t, pc⟩ := by
    intro pc hto hsource hsharing hat
    refine h.given (by rw [hpc]; rfl) hfresh hfree (fun q hq => ?_) hroom hto
      (fun hpc => absurd hpc hsharing) (fun g hg => ?_) hat
    · cases hq
      exact hne
    · rw [hsource] at hg
      cases hg
  split
  · rename_i hp
    exact hgiven _ rfl rfl id ⟨hun, hp⟩
  · rename_i hp
    refine hgiven _ after_lock_noting after_lock_source after_lock_sharing
      (at_after_lock hun.host hun.positioned ?_ hun.data)
    rw [hun.lock, hun.host, HostFd.lockPath, HostFd.path,
      Option.filter_some_neg (by simpa using hp)]

omit [DecidableEq T] in
/-- A descriptor of which the table has a path, and that nobody is making a duplicate, is open on
the file with this path. -/
theorem Inv.host_of_lock (h : Inv c lock data) (hlock : lock f = some p)
    (hopen : c.shared.host f ≠ .closed) (htarget : ∀ u, (c.locals u).pc.target ≠ some f) :
    c.shared.host f = .file p := by
  have hfile : (c.shared.host f).lockPath = some p → c.shared.host f = .file p := by
    intro hpath
    cases hhost : c.shared.host f with
    | file q =>
        rw [hhost, HostFd.lockPath, HostFd.path] at hpath
        rw [(Option.filter_eq_some_iff.1 hpath).1 |> Option.some.inj]
    | closed | other =>
        rw [hhost] at hpath
        cases hpath
  -- either `f` is settled, or some call is at work on it and its point tells what is noted
  by_cases hfree : ∀ u, (c.locals u).pc.noting ≠ some f
  · exact hfile ((h.settled f hfree).lock ▸ hlock)
  · push Not at hfree
    obtain ⟨u, hu⟩ := hfree
    have hat := h.at' u
    have htarget := htarget u
    have hcleared : ∀ {q}, Unnoted c.shared lock data f q → False := fun hun => by
      rw [hun.lock] at hlock
      cases hlock
    cases hpc : (c.locals u).pc with
    | openLock g | shareTruncate _ g | shareRegister _ g =>
        rw [hpc] at hu hat
        cases hu
        exact (hcleared hat.1).elim
    | shareClose g =>
        rw [hpc] at hu hat
        cases hu
        obtain ⟨q, hun⟩ := hat
        exact (hcleared hun).elim
    | openData g =>
        rw [hpc] at hu hat
        cases hu
        obtain ⟨-, -, hnoted, -⟩ := hat
        exact hfile (hnoted ▸ hlock)
    | openPositioned g =>
        rw [hpc] at hu hat
        cases hu
        obtain ⟨-, hnoted, -⟩ := hat
        exact hfile (hnoted ▸ hlock)
    | closedPositioned g =>
        rw [hpc] at hu hat
        cases hu
        exact absurd hat hopen
    | closedTables g =>
        rw [hpc] at hu hat
        cases hu
        exact absurd hat.1 hopen
    | dupMetadata | dupPositioned | dupTables =>
        rw [hpc] at hu htarget
        exact absurd hu htarget
    | _ =>
        rw [hpc] at hu
        cases hu

/-- `dup` of a descriptor that has a `__lock` file open. -/
theorem Inv.shared_given (h : Inv c lock data) {existing : Fd}
    (hpc : (c.locals t).pc = .shareDup p b existing) (hfresh : c.shared.fresh f)
    (hopen : c.shared.host existing ≠ .closed) (hcalm : Calm c (.shared existing f)) :
    Leads c t (c.shared.setHost f (c.shared.host existing))
      ⟨t, if b then .shareTruncate p f else .shareRegister p f⟩ := by
  obtain ⟨hfree, hroom⟩ := hcalm
  have hat := h.at' t
  rw [hpc] at hat
  obtain ⟨hp, hlock⟩ := hat
  have hhost := h.host_of_lock hlock hopen fun u => (hfree u).2
  rw [hhost] at hroom ⊢
  have hun := h.unnoted hfresh (fun u => (hfree u).1) p
  have hgiven : ∀ pc : Pc, pc.noting = some f → pc.source = none →
      At (c.shared.setHost f (.file p)) lock data pc →
      Leads c t (c.shared.setHost f (.file p)) ⟨t, pc⟩ := by
    intro pc hto hsource hat
    refine h.given (by rw [hpc]; rfl) hfresh (fun u => (hfree u).1) (fun q hq => ?_) hroom hto
      (fun _ => by rw [hpc]; trivial) (fun g hg => ?_) hat
    · cases hq
      exact h.nonempty existing p hhost
    · rw [hsource] at hg
      cases hg
  split
  · exact hgiven _ rfl rfl ⟨hun, hp⟩
  · exact hgiven _ rfl rfl ⟨hun, hp⟩

/-- `dup` and `dup2` succeed. -/
theorem Inv.duplicated (h : Inv c lock data) (hpc : (c.locals t).pc.noting = none)
    (hslots : inSlots f) (hne : oldfd ≠ f) (hopen : c.shared.host oldfd ≠ .closed)
    (hcalm : Calm c (.duplicated oldfd f)) :
    Leads c t (c.shared.setHost f (c.shared.host oldfd)) ⟨t, .dupMetadata oldfd f⟩ := by
  obtain ⟨hfree, hroom⟩ := hcalm
  have hself : (c.shared.setHost f (c.shared.host oldfd)).host f = c.shared.host oldfd :=
    Function.update_self ..
  refine ⟨lock, data, h.begin hpc (fun u => (hfree u).2.1) (fun u => (hfree u).2.2)
    (h.toTables.give hslots (fun p hp => h.nonempty oldfd p hp) hroom) rfl
    (fun hsharing => hsharing.elim) ?_ ⟨hne, ?_, ?_⟩⟩
  · intro g hg
    obtain rfl : oldfd = g := Option.some.inj hg
    exact ⟨hne, fun u => (hfree u).1⟩
  · rw [hself]
    exact Function.update_of_ne hne ..
  · rw [hself]
    exact hopen

/-- `close` and `fclose` close an open descriptor. -/
theorem Inv.host_closed (h : Inv c lock data) (hpc : (c.locals t).pc.noting = none)
    (hcalm : Calm c (.closed f)) (r : Int) :
    Leads c t (c.shared.setHost f .closed) ⟨t, .closedPositioned f r⟩ :=
  ⟨lock, data, h.begin hpc (fun u => (hcalm u).1) (fun u => (hcalm u).2)
    (h.toTables.closeHost f) rfl
    (fun hsharing => hsharing.elim) (fun _ hg => nomatch hg) (Function.update_self ..)⟩

/-- `fclose` finds its descriptor closed. -/
theorem Inv.found_closed (h : Inv c lock data) (hpc : (c.locals t).pc.noting = none)
    (hclosed : c.shared.host f = .closed) (r : Int) :
    Leads c t c.shared ⟨t, .closedPositioned f r⟩ := by
  refine ⟨lock, data, h.at_closed hclosed ?_ h.toTables rfl rfl (fun _ _ => ⟨rfl, rfl, rfl, rfl⟩) id
    (.inl ⟨trivial, rfl⟩) (fun _ _ _ => rfl) (fun hsharing => hsharing.elim) rfl hclosed⟩
  intro g hg
  rw [hpc] at hg
  cases hg

/-- A slot is emptied whose descriptor is closed. -/
theorem Inv.lock_cleared (h : Inv c lock data) {i : Nat} (hpc : (c.locals t).pc = .shareFind p b i)
    {k : Fin unitycacheLockSlots} {q : Bytes}
    (hslot : c.shared.gUnitycacheLockSlots k = ⟨f, some q⟩)
    (hclosed : c.shared.host f = .closed) :
    Leads c t (unitycacheLockClear c.shared k) ⟨t, .shareFind p b (i + 1)⟩ := by
  have hsharing : (c.locals t).pc.sharing := by
    rw [hpc]
    trivial
  have hat := h.at' t
  rw [hpc] at hat
  refine ⟨_, data, h.at_closed hclosed ?_ (h.toTables.lockClear hslot) rfl rfl ?_ id
    (.inr ⟨rfl, fun hfree => ?_⟩) ?_ (fun _ => hsharing) rfl hat⟩
  · intro g hg
    rw [hpc] at hg
    cases hg
  · exact fun _ hg => ⟨rfl, rfl, Function.update_of_ne hg .., rfl⟩
  · have hagree := h.settled f fun u => by
      by_cases hut : u = t
      · rw [hut, hpc]
        exact nofun
      · exact hfree u hut
    refine ⟨hagree.positioned, ?_, hagree.data⟩
    rw [Function.update_self]
    show none = (c.shared.host f).lockPath
    rw [hclosed]
    rfl
  · exact fun u hu hexisting =>
      absurd (Pc.sharing_of_existing hexisting) (h.not_sharing_other hsharing hu)

/-! ### Steps that change none of the tables -/

/-- A step that changes nothing but where the thread is, in a call that is not at work on a
descriptor. -/
theorem Inv.moved (h : Inv c lock data) {pc : Pc} (hfrom : (c.locals t).pc.noting = none)
    (hsource : (c.locals t).pc.source = none) (hto : pc.noting = none) (hsource' : pc.source = none)
    (hsharing : pc.sharing → (c.locals t).pc.sharing) (hat : At c.shared lock data pc) :
    Leads c t c.shared ⟨t, pc⟩ := by
  refine ⟨lock, data, h.goto rfl rfl rfl rfl (fun hpc => h.mutex t (hsharing hpc))
    (fun u _ hu => h.mutex u hu) (hto.trans hfrom.symm) (hsource'.trans hsource.symm)
    (fun hclosing => ?_)
    hat⟩
  cases hpc : (c.locals t).pc with
  | closedPositioned | closedTables =>
      rw [hpc] at hfrom
      cases hfrom
  | _ =>
      rw [hpc] at hclosing
      exact hclosing.elim

/-- A call that ends without having been at work on a descriptor. -/
theorem Inv.ended (h : Inv c lock data) (hfrom : (c.locals t).pc.noting = none)
    (hsource : (c.locals t).pc.source = none) : Leads c t c.shared ⟨t, .idle⟩ :=
  h.moved hfrom hsource rfl rfl (fun hsharing => hsharing.elim) trivial

/-! ### Every step -/

variable {y : Choice}

/-- A call begins. -/
theorem Inv.request (h : Inv c lock data) {r : Request} (hpc : (c.locals t).pc = .idle)
    (hnext : requestStep c.shared (c.locals t) r = some (e, s', l)) : Leads c t s' l := by
  have hnoting : (c.locals t).pc.noting = none := by rw [hpc]; rfl
  have hsource : (c.locals t).pc.source = none := by rw [hpc]; rfl
  have hbegins : ∀ pc : Pc, pc.noting = none → pc.source = none → ¬ pc.sharing →
      At c.shared lock data pc → Leads c t c.shared ((c.locals t).goto pc) := by
    intro pc hto hsource' hsharing hat
    rw [h.goto_eq]
    exact h.moved hnoting hsource hto hsource' (fun hpc => absurd hpc hsharing) hat
  have hstays : Leads c t c.shared (c.locals t) := by
    have hidle := hbegins .idle rfl rfl id trivial
    have hsame : (c.locals t).goto .idle = c.locals t := by rw [← hpc]; rfl
    rwa [hsame] at hidle
  cases r with
  | fileOpen | fileOpenRefused | fileFclose | fileFcloseNull =>
      cases hnext
      exact hbegins _ rfl rfl id trivial
  | nxClose | nxDup | nxDup2 =>
      simp only [requestStep] at hnext
      split at hnext
      · cases hnext
        exact hstays
      · cases hnext
        exact hbegins _ rfl rfl id trivial

omit [DecidableEq T] in
/-- A section of one step is entered while nobody has the mutex. -/
theorem locked_some {s : Shared T} {o : Outcome T} {r : Event × Shared T × Thread T}
    (hnext : locked s o = some r) : s.gUnitycacheLockMutex = none ∧ o = some r := by
  unfold locked at hnext
  split at hnext
  · rename_i hfree
    exact ⟨hfree, hnext⟩
  · cases hnext

/-- A step of `file_open` on its way to a descriptor. -/
theorem Inv.open_next (h : Inv c lock data) (hpc : (c.locals t).pc = .hostOpen p b)
    (hnext : hostOpenStep a c.shared (c.locals t) p b = some (e, s', l)) (hcalm : Calm c e) :
    Leads c t s' l := by
  have hnoting : (c.locals t).pc.noting = none := by rw [hpc]; rfl
  have hsource : (c.locals t).pc.source = none := by rw [hpc]; rfl
  simp only [hostOpenStep, ret] at hnext
  split at hnext
  · split at hnext
    · rename_i hfresh
      cases hnext
      rw [h.goto_eq]
      exact h.opened hpc hfresh.1 hfresh.2 hcalm
    · cases hnext
  · split at hnext
    · rename_i hbusy
      cases hnext
      rw [h.goto_eq]
      exact h.moved hnoting hsource rfl rfl (fun hsharing => hsharing.elim) hbusy.1
    · cases hnext
      rw [h.goto_eq]
      exact h.ended hnoting hsource

/-- A step of the loop in which `file_open` looks for a descriptor to share. -/
theorem Inv.find_next (h : Inv c lock data) {i : Nat} (hpc : (c.locals t).pc = .shareFind p b i)
    (hnext : shareFindStep c.shared (c.locals t) p b i = some (e, s', l)) : Leads c t s' l := by
  have hnoting : (c.locals t).pc.noting = none := by rw [hpc]; rfl
  have hsource : (c.locals t).pc.source = none := by rw [hpc]; rfl
  have hsharing : (c.locals t).pc.sharing := by rw [hpc]; trivial
  have hat := h.at' t
  rw [hpc] at hat
  simp only [shareFindStep] at hnext
  split at hnext
  · rename_i hi
    split at hnext
    · rename_i hvalue
      have hslot : c.shared.gUnitycacheLockSlots ⟨i, hi⟩ =
          ⟨(c.shared.gUnitycacheLockSlots ⟨i, hi⟩).key, some p⟩ := by rw [← hvalue]
      split at hnext
      · cases hnext
        rw [h.goto_eq]
        exact h.moved hnoting hsource rfl rfl (fun _ => hsharing) ⟨hat, h.locks.get hvalue⟩
      · rename_i hclosed
        cases hnext
        rw [h.goto_eq]
        exact h.lock_cleared hpc hslot (not_not.1 hclosed)
    · cases hnext
      rw [h.goto_eq]
      exact h.moved hnoting hsource rfl rfl (fun _ => hsharing) hat
  · cases hnext
    rw [h.goto_eq]
    exact h.moved hnoting hsource rfl rfl (fun _ => hsharing) trivial

/-- Every step of a calm run keeps the invariant. -/
theorem Inv.next (h : Inv c lock data) (hnext : notesNext y c.shared (c.locals t) = some (e, s', l))
    (hcalm : Calm c e) : Leads c t s' l := by
  cases hpc : (c.locals t).pc with
  | idle =>
      simp only [notesNext, hpc] at hnext
      exact h.request hpc hnext
  -- opening a name: the host's table first, then ours, each under its own lock
  | hostOpen p b =>
      simp only [notesNext, hpc] at hnext
      exact h.open_next hpc hnext hcalm
  | openLock f p =>
      simp only [notesNext, hpc] at hnext
      obtain ⟨hfree, hnext⟩ := locked_some hnext
      cases hnext
      rw [h.goto_eq]
      have hat := h.at' t
      rw [hpc] at hat
      -- nobody is sharing, so the new entry of the table meets no search
      exact h.lock_registered (by rw [hpc]; rfl) (by rw [hpc]; exact id) hat.1 hat.2
        (unitycacheLockRegister c.shared f p).gUnitycacheLockMutex fun u _ => h.not_sharing hfree u
  | openData f p =>
      simp only [notesNext, hpc] at hnext
      obtain ⟨hfree, hnext⟩ := locked_some hnext
      cases hnext
      rw [h.goto_eq]
      exact h.data_registered hpc hfree
  | openPositioned f p =>
      simp only [notesNext, hpc] at hnext
      cases hnext
      rw [h.goto_eq]
      exact h.open_noted hpc
  -- the search for a lock to share holds the table from here to `shareLeave`
  | shareEnter p b =>
      simp only [notesNext, hpc] at hnext
      obtain ⟨hfree, hnext⟩ := locked_some hnext
      cases hnext
      rw [h.goto_eq, h.self]
      have hat := h.at' t
      rw [hpc] at hat
      exact ⟨lock, data, h.goto rfl rfl rfl rfl (fun _ => rfl)
        (fun u _ hu => absurd hu (h.not_sharing hfree u)) (by rw [hpc]; rfl) (by rw [hpc]; rfl)
        (by rw [hpc]; exact id) hat⟩
  | shareFind p b i =>
      simp only [notesNext, hpc] at hnext
      -- one slot of the table for each step
      exact h.find_next hpc hnext
  | shareDup p b existing =>
      simp only [notesNext, hpc, shareDupStep] at hnext
      split at hnext
      · split at hnext
        · rename_i hfresh
          cases hnext
          rw [h.goto_eq]
          -- the run is calm: no call is at work on the number that the host gives
          exact h.shared_given hpc hfresh.1 hfresh.2 hcalm
        · cases hnext
      · cases hnext
        rw [h.goto_eq]
        exact h.moved (by rw [hpc]; rfl) (by rw [hpc]; rfl) rfl rfl (fun _ => by rw [hpc]; trivial)
          trivial
  | shareTruncate p f =>
      simp only [notesNext, hpc] at hnext
      cases hnext
      rw [h.goto_eq]
      have hat := h.at' t
      rw [hpc] at hat
      have hsharing : (c.locals t).pc.sharing := by rw [hpc]; trivial
      split
      · exact ⟨lock, data, h.goto rfl rfl rfl rfl (fun _ => h.mutex t hsharing)
          (fun u _ hu => h.mutex u hu) (by rw [hpc]; rfl) (by rw [hpc]; rfl)
            (by rw [hpc]; exact id) hat⟩
      · exact ⟨lock, data, h.goto rfl rfl rfl rfl (fun _ => h.mutex t hsharing)
          (fun u _ hu => h.mutex u hu) (by rw [hpc]; rfl) (by rw [hpc]; rfl) (by rw [hpc]; exact id)
          ⟨p, hat.1⟩⟩
  | shareClose f =>
      simp only [notesNext, hpc] at hnext
      cases hnext
      rw [h.goto_eq]
      exact h.share_closed hpc
  | shareRegister p f =>
      simp only [notesNext, hpc] at hnext
      cases hnext
      rw [h.goto_eq]
      have hat := h.at' t
      rw [hpc] at hat
      exact h.lock_registered (by rw [hpc]; rfl) (by rw [hpc]; exact id) hat.1 hat.2 none
        -- this thread still holds the table, so no other thread is searching
        fun u hu => h.not_sharing_other (by rw [hpc]; trivial) hu
  | shareLeave =>
      simp only [notesNext, hpc, ret] at hnext
      cases hnext
      rw [h.goto_eq]
      exact ⟨lock, data, h.goto rfl rfl rfl rfl (fun hsharing => hsharing.elim)
        (fun u hu hsharing =>
          absurd hsharing (h.not_sharing_other (t := t) (by rw [hpc]; trivial) hu))
        (by rw [hpc]; rfl) (by rw [hpc]; rfl) (by rw [hpc]; exact id) trivial⟩
  -- closing: the host forgets the descriptor before our tables do
  | hostClose f =>
      simp only [notesNext, hpc, hostCloseStep, ret] at hnext
      split at hnext
      · cases hnext
        rw [h.goto_eq]
        exact h.host_closed (by rw [hpc]; rfl) hcalm 0
      · cases hnext
        rw [h.goto_eq]
        exact h.ended (by rw [hpc]; rfl) (by rw [hpc]; rfl)
  | hostFclose f =>
      simp only [notesNext, hpc, hostFcloseStep, ret] at hnext
      split at hnext
      · cases hnext
        rw [h.goto_eq]
        exact h.ended (by rw [hpc]; rfl) (by rw [hpc]; rfl)
      · split at hnext
        · cases hnext
          rw [h.goto_eq]
          exact h.host_closed (by rw [hpc]; rfl) hcalm _
        · rename_i hclosed
          cases hnext
          rw [h.goto_eq]
          exact h.found_closed (by rw [hpc]; rfl) (not_not.1 hclosed) _
  | closedPositioned f r =>
      simp only [notesNext, hpc] at hnext
      cases hnext
      rw [h.goto_eq]
      exact h.closed_positioned hpc
  | closedTables f r =>
      simp only [notesNext, hpc] at hnext
      obtain ⟨hfree, hnext⟩ := locked_some hnext
      cases hnext
      rw [h.goto_eq]
      exact h.closed_noted hpc hfree
  -- duplicates: the host's answer, then the name and the tables of the old descriptor
  | hostDup oldfd =>
      simp only [notesNext, hpc, hostDupStep, ret] at hnext
      split at hnext
      · split at hnext
        · rename_i hfresh
          cases hnext
          rw [h.goto_eq]
          refine h.duplicated (by rw [hpc]; rfl) ⟨hfresh.1.1, hfresh.1.2.1⟩ (fun heq => ?_)
            hfresh.2 hcalm
          -- the host never answers with the old descriptor, which is open
          rw [heq] at hfresh
          exact hfresh.2 hfresh.1.2.2
        · cases hnext
      · cases hnext
        rw [h.goto_eq]
        exact h.ended (by rw [hpc]; rfl) (by rw [hpc]; rfl)
  | hostDup2 oldfd newfd =>
      simp only [notesNext, hpc, hostDup2Step, ret] at hnext
      split at hnext
      · rename_i hopen
        split at hnext
        · cases hnext
          rw [h.goto_eq]
          exact h.ended (by rw [hpc]; rfl) (by rw [hpc]; rfl)
        · rename_i hne
          cases hnext
          rw [h.goto_eq]
          exact h.duplicated (by rw [hpc]; rfl) hopen.2.1 hne hopen.1 hcalm
      · cases hnext
        rw [h.goto_eq]
        exact h.ended (by rw [hpc]; rfl) (by rw [hpc]; rfl)
  | dupMetadata oldfd newfd =>
      simp only [notesNext, hpc] at hnext
      cases hnext
      rw [h.goto_eq]
      exact h.duplicate_copied hpc
  | dupPositioned oldfd newfd path =>
      simp only [notesNext, hpc] at hnext
      cases hnext
      rw [h.goto_eq]
      exact h.duplicate_positioned hpc
  | dupTables oldfd newfd =>
      simp only [notesNext, hpc] at hnext
      obtain ⟨hfree, hnext⟩ := locked_some hnext
      cases hnext
      rw [h.goto_eq]
      exact h.duplicate_noted hpc hfree

end Steps

/-! ## Runs -/

section Runs

variable [DecidableEq T] {c d : Config T (Shared T) (Thread T)} {lock data : Fd → Option Bytes}
  {trace : List (T × Event)}

/-- What is noted of the descriptors agrees with the host. -/
structure Follows (s : Shared T) : Prop where
  positioned : ∀ fd p, s.host fd = .file p → s.gPositionedFd fd = some p
  emptied : ∀ fd, s.host fd = .closed → s.gPositionedFd fd = none
  locks : ∀ fd p, (∃ i, s.gUnitycacheLockSlots i = ⟨fd, some p⟩) ↔
    s.host fd = .file p ∧ isUnitycacheLockFile p = true
  lockOnce : ∀ i j, (s.gUnitycacheLockSlots i).value ≠ none →
    (s.gUnitycacheLockSlots j).value ≠ none →
    (s.gUnitycacheLockSlots i).key = (s.gUnitycacheLockSlots j).key → i = j
  datas : ∀ fd p, (∃ i, s.gUnitycacheDataSlots i = ⟨fd, some p⟩) ↔
    s.host fd = .file p ∧ isUnitycacheDataFile p = true
  dataOnce : ∀ i j, (s.gUnitycacheDataSlots i).value ≠ none →
    (s.gUnitycacheDataSlots j).value ≠ none →
    (s.gUnitycacheDataSlots i).key = (s.gUnitycacheDataSlots j).key → i = j

theorem filter_path_iff {x : HostFd} {test : Bytes → Bool} {p : Bytes} :
    x.path.filter test = some p ↔ x = .file p ∧ test p = true := by
  rw [Option.filter_eq_some_iff]
  refine and_congr_left' ?_
  cases x <;> simp [HostFd.path]

omit [DecidableEq T] in
theorem Initial.inv (h : Initial c) : Inv c (fun _ => none) fun _ => none := by
  have hempty : ∀ (path : HostFd → Option Bytes), path .closed = none → path .other = none →
      held c.shared.host path (fun _ => none) = ∅ := by
    intro path hclosed hother
    refine Set.eq_empty_iff_forall_notMem.2 fun fd hfd => ?_
    rcases hfd with hfd | hfd
    · rcases h.host fd with hhost | ⟨-, hhost⟩
      · exact hfd (hhost ▸ hclosed)
      · exact hfd (hhost ▸ hother)
    · exact hfd rfl
  refine ⟨⟨represents_empty
    fun i => by rw [h.lockSlots i], represents_empty fun i => by rw [h.dataSlots i],
    fun fd hfd => ?_, fun fd p hp => ?_, ?_, ?_⟩, h.self, fun t ht => ?_, fun fd _ => ?_,
    fun t _ fd _ ht => ?_, fun t fd ht => ?_, fun t => ?_⟩
  · exact ⟨(h.host fd).resolve_right fun hother => hfd hother.1, h.positioned fd⟩
  · rcases h.host fd with hhost | ⟨-, hhost⟩ <;> rw [hhost] at hp <;> cases hp
  · rw [hempty _ rfl rfl, Set.encard_empty]
    exact bot_le
  · rw [hempty _ rfl rfl, Set.encard_empty]
    exact bot_le
  · rw [h.idle t] at ht
    exact ht.elim
  · rcases h.host fd with hhost | ⟨-, hhost⟩
    · exact ⟨by rw [h.positioned, hhost]; rfl, by rw [hhost]; rfl, by rw [hhost]; rfl⟩
    · exact ⟨by rw [h.positioned, hhost]; rfl, by rw [hhost]; rfl, by rw [hhost]; rfl⟩
  · rw [h.idle t] at ht
    cases ht
  · rw [h.idle t] at ht
    cases ht
  · rw [h.idle t]
    trivial

omit [DecidableEq T] in
/-- While no call is in progress what is noted agrees with the host. -/
theorem Inv.follows (h : Inv c lock data) (hidle : ∀ t, (c.locals t).pc = .idle) :
    Follows c.shared := by
  have hagree : ∀ fd, Agree c.shared lock data fd := fun fd => h.settled fd fun t => by
    rw [hidle t]
    exact nofun
  refine ⟨fun fd p hp => ?_, fun fd hfd => ?_, fun fd p => ?_, h.locks.once, fun fd p =>
    ?_, h.datas.once⟩
  · rw [(hagree fd).positioned, hp]
    rfl
  · rw [(hagree fd).positioned, hfd]
    rfl
  · rw [h.locks.holds, (hagree fd).lock]
    exact filter_path_iff
  · rw [h.datas.holds, (hagree fd).data]
    exact filter_path_iff

/-- Over every calm run, what is noted of the descriptors agrees with the host in every state in
which no call is in progress. -/
theorem tables_follow (h0 : Initial c)
    (h : Run (fun c label d => Step notes c label d ∧ Calm c label.2) c trace d)
    (hidle : ∀ t, (d.locals t).pc = .idle) : Follows d.shared := by
  have hrun := h.invariant (I := fun d => ∃ lock data, Inv d lock data) ⟨_, _, h0.inv⟩
    fun c label d hbefore hstep => by
      obtain ⟨lock, data, hinv⟩ := hbefore
      obtain ⟨⟨hnext⟩, hcalm⟩ := hstep
      exact hinv.next hnext hcalm
  obtain ⟨lock, data, hinv⟩ := hrun
  exact hinv.follows hidle

end Runs

/-! ## Two threads -/

/-- Two threads, before the first call; no descriptor is open. -/
def twoThreads : Config Bool (Shared Bool) (Thread Bool) :=
  ⟨⟨fun _ => .closed, fun _ => none, fun _ => ⟨0, none⟩, fun _ => ⟨0, none⟩, none⟩,
    fun t => ⟨t, .idle⟩⟩

theorem initial_twoThreads : Initial twoThreads :=
  ⟨fun _ => rfl, fun _ => rfl, fun _ => .inl rfl, fun _ => rfl, fun _ => rfl, fun _ => rfl, rfl⟩

/-- `n` steps of a thread in a call for which the host gives out the descriptor `fd`. -/
def steps (t : Bool) (r : Request) (fd : Option Fd) (n : Nat) : List (Bool × Choice) :=
  List.replicate n (t, ⟨r, fd, false, true, 0⟩)

/-- A file of the game. -/
def savedGame : Bytes := bytes "sdmc:/switch/angrybirdas_nx/runtime/files/save"

/-- No table needs a slot for this file. -/
def unlisted (x : HostFd) : Bool := decide (x.lockPath = none ∧ x.dataPath = none)

theorem room_of_unlisted {s : Shared T} {fd : Fd} {x : HostFd} (h : unlisted x = true) :
    Room s fd x := by
  obtain ⟨hlock, hdata⟩ := of_decide_eq_true h
  exact ⟨fun hne => absurd hlock hne, fun hne => absurd hdata hne⟩

/-- A test for steps that are calm. -/
def isCalm (c : Config Bool (Shared Bool) (Thread Bool)) : Event → Bool
  | .opened fd p =>
      decide (∀ u, (c.locals u).pc.noting ≠ some fd) && unlisted (.file p)
  | .closed fd => decide (∀ u, (c.locals u).pc.noting ≠ some fd ∧ (c.locals u).pc.source ≠ some fd)
  | .duplicated oldfd newfd =>
      decide (∀ u, (c.locals u).pc.noting ≠ some oldfd ∧ (c.locals u).pc.noting ≠ some newfd ∧
        (c.locals u).pc.source ≠ some newfd) && unlisted (c.shared.host oldfd)
  | .shared _ _ => false
  | _ => true

theorem calm_of_isCalm {c : Config Bool (Shared Bool) (Thread Bool)} {e : Event}
    (h : isCalm c e = true) : Calm c e := by
  cases e with
  | opened fd p =>
      obtain ⟨hfree, hroom⟩ := Bool.and_eq_true_iff.1 h
      exact ⟨of_decide_eq_true hfree, room_of_unlisted hroom⟩
  | closed fd =>
      show ∀ u, (c.locals u).pc.noting ≠ some fd ∧ (c.locals u).pc.source ≠ some fd
      exact of_decide_eq_true h
  | duplicated oldfd newfd =>
      obtain ⟨hfree, hroom⟩ := Bool.and_eq_true_iff.1 h
      exact ⟨of_decide_eq_true hfree, room_of_unlisted hroom⟩
  | shared => cases h
  | inner | returned => trivial

/-- One thread opens a file, the other duplicates its descriptor, and the first one closes it. -/
theorem tables_follow_example : ∃ trace d,
    Run (fun c label d => Step notes c label d ∧ Calm c label.2) twoThreads trace d ∧
    d.shared.host 6 = .file savedGame ∧ d.shared.host 5 = .closed ∧ Follows d.shared := by
  have hexec : (notes.execIf (fun c label => isCalm c label.2) twoThreads
      (steps true (.fileOpen savedGame false) (some 5) 3 ++ steps false (.nxDup 5) (some 6) 5 ++
        steps true (.nxClose 5) none 4)).any
      (fun r => decide (r.2.shared.host 6 = .file savedGame ∧ r.2.shared.host 5 = .closed ∧
        ∀ t, (r.2.locals t).pc = .idle)) = true := by
    decide
  obtain ⟨⟨trace, d⟩, hexec, hseen⟩ := (Option.any_eq_true _ _).1 hexec
  obtain ⟨hopen, hclosed, hidle⟩ := of_decide_eq_true hseen
  have hrun := (Program.exec_if_run hexec).mono (S := fun c label d =>
    Step notes c label d ∧ Calm c label.2) fun _ _ _ h => ⟨h.1, calm_of_isCalm h.2⟩
  exact ⟨trace, d, hrun, hopen, hclosed, tables_follow initial_twoThreads hrun hidle⟩

/-- A descriptor that one thread closes is opened and noted by the other before the first forgets
it. -/
theorem tables_not_follow : ∃ trace d, Run (Step notes) twoThreads trace d ∧
    (∀ t, (d.locals t).pc = .idle) ∧ d.shared.host 5 = .file savedGame ∧ ¬ Follows d.shared := by
  have hexec : (notes.exec twoThreads
      (steps true (.fileOpen savedGame false) (some 5) 3 ++ steps true (.nxClose 5) none 2 ++
        steps false (.fileOpen savedGame false) (some 5) 3 ++ steps true (.nxClose 5) none 2)).any
      (fun r => decide ((∀ t, (r.2.locals t).pc = .idle) ∧ r.2.shared.host 5 = .file savedGame ∧
        r.2.shared.gPositionedFd 5 = none)) = true := by
    decide
  obtain ⟨trace, d, hrun, hseen⟩ := Program.exec_test hexec
  obtain ⟨hidle, hopen, hempty⟩ := of_decide_eq_true hseen
  refine ⟨trace, d, hrun, hidle, hopen, fun hfollows => ?_⟩
  rw [hfollows.positioned 5 savedGame hopen] at hempty
  cases hempty

end Asnx.FileBridge.Notes
