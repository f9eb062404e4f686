import Asnx.FileBridge.FdNotes

/-!
# The tables of descriptors

What is noted of a descriptor agrees with the host while no call is at work on it (`Agree`). A call
that has opened, closed or duplicated a descriptor is at work on it until its last section, and one
that has duplicated a descriptor also reads what is noted of the old one. `Inv` says what holds
meanwhile; a step that is at work on one descriptor leaves the others alone (`Inv.touch`).

The two tables of the cache are the partial maps `lock` and `data`.
-/

namespace Asnx.FileBridge.Notes

open Files SlotTables Threads

/-! ## What should be noted -/

/-- The path that the positioned slot of a descriptor should hold. -/
def HostFd.path : HostFd → Option Bytes
  | .file p => some p
  | _ => none

/-- The path that the table of `__lock` files should hold. -/
def HostFd.lockPath (h : HostFd) : Option Bytes := h.path.filter isUnitycacheLockFile

/-- The path that the table of `__data` files should hold. -/
def HostFd.dataPath (h : HostFd) : Option Bytes := h.path.filter isUnitycacheDataFile

/-- The descriptors of which a table needs a slot: those that are open, and those that it still
holds. -/
def held (host : Fd → HostFd) (path : HostFd → Option Bytes) (m : Fd → Option Bytes) : Set Fd :=
  {fd | path (host fd) ≠ none ∨ m fd ≠ none}

variable {T : Type*}

/-- What is noted of a descriptor agrees with the host. -/
structure Agree (s : Shared T) (lock data : Fd → Option Bytes) (fd : Fd) : Prop where
  positioned : s.gPositionedFd fd = (s.host fd).path
  lock : lock fd = (s.host fd).lockPath
  data : data fd = (s.host fd).dataPath

/-! ## Where a call is at work -/

/-- The descriptor on which a call is at work. -/
def Pc.noting : Pc → Option Fd
  | .openLock fd _ | .openData fd _ | .openPositioned fd _ => some fd
  | .shareTruncate _ fd | .shareClose fd | .shareRegister _ fd => some fd
  | .closedPositioned fd _ | .closedTables fd _ => some fd
  | .dupMetadata _ fd | .dupPositioned _ fd _ | .dupTables _ fd => some fd
  | _ => none

/-- The descriptor of which a call reads what is noted. -/
def Pc.source : Pc → Option Fd
  | .dupMetadata fd _ | .dupPositioned fd _ _ | .dupTables fd _ => some fd
  | _ => none

/-- The descriptor that a call has made a duplicate. -/
def Pc.target : Pc → Option Fd
  | .dupMetadata _ fd | .dupPositioned _ fd _ | .dupTables _ fd => some fd
  | _ => none

/-- The call notes that a descriptor is closed. -/
def Pc.closing : Pc → Prop
  | .closedPositioned _ _ | .closedTables _ _ => True
  | _ => False

/-- The descriptor that a call is about to share. -/
def Pc.existing : Pc → Option Fd
  | .shareDup _ _ fd => some fd
  | _ => none

/-- The call has `g_unitycache_lock_mutex` from step to step. -/
def Pc.sharing : Pc → Prop
  | .shareFind _ _ _ | .shareDup _ _ _ | .shareTruncate _ _ | .shareClose _ => True
  | .shareRegister _ _ | .shareLeave => True
  | _ => False

/-- Nothing is noted yet of a descriptor that has been opened on `resolved`. -/
structure Unnoted (s : Shared T) (lock data : Fd → Option Bytes) (fd : Fd) (resolved : Bytes) :
    Prop where
  host : s.host fd = .file resolved
  positioned : s.gPositionedFd fd = none
  lock : lock fd = none
  data : data fd = none

/-- The descriptor `newfd` is a duplicate of another one. -/
structure Duplicate (s : Shared T) (oldfd newfd : Fd) : Prop where
  ne : oldfd ≠ newfd
  host : s.host oldfd = s.host newfd
  isOpen : s.host newfd ≠ .closed

/-- What a call knows at a place. -/
def At (s : Shared T) (lock data : Fd → Option Bytes) : Pc → Prop
  | .openLock fd p => Unnoted s lock data fd p ∧ isUnitycacheLockFile p = true
  | .openData fd p =>
      s.host fd = .file p ∧ s.gPositionedFd fd = none ∧ lock fd = (s.host fd).lockPath ∧
        data fd = none ∧ isUnitycacheDataFile p = true
  | .openPositioned fd p =>
      s.host fd = .file p ∧ lock fd = (s.host fd).lockPath ∧ data fd = (s.host fd).dataPath
  | .shareEnter p _ | .shareFind p _ _ => isUnitycacheLockFile p = true
  | .shareDup p _ fd => isUnitycacheLockFile p = true ∧ lock fd = some p
  | .shareTruncate p fd | .shareRegister p fd =>
      Unnoted s lock data fd p ∧ isUnitycacheLockFile p = true
  | .shareClose fd => ∃ p, Unnoted s lock data fd p
  | .closedPositioned fd _ => s.host fd = .closed
  | .closedTables fd _ => s.host fd = .closed ∧ s.gPositionedFd fd = none
  | .dupMetadata oldfd newfd => Duplicate s oldfd newfd
  | .dupPositioned oldfd newfd path =>
      Duplicate s oldfd newfd ∧ path = (s.host newfd).path.getD []
  | .dupTables oldfd newfd =>
      Duplicate s oldfd newfd ∧ s.gPositionedFd newfd = (s.host newfd).path
  | _ => True

/-! ## The invariant -/

/-- What holds of the descriptors and the tables wherever the threads are. -/
structure Tables (s : Shared T) (lock data : Fd → Option Bytes) : Prop where
  locks : Represents s.gUnitycacheLockSlots lock
  datas : Represents s.gUnitycacheDataSlots data
  range : ∀ fd, ¬ inSlots fd → s.host fd = .closed ∧ s.gPositionedFd fd = none
  nonempty : ∀ fd p, s.host fd = .file p → p ≠ []
  roomLock : (held s.host HostFd.lockPath lock).encard ≤ unitycacheLockSlots
  roomData : (held s.host HostFd.dataPath data).encard ≤ unitycacheDataSlots

/-- The invariant. -/
structure Inv (c : Config T (Shared T) (Thread T)) (lock data : Fd → Option Bytes) : Prop
    extends Tables c.shared lock data where
  self : ∀ t, (c.locals t).self = t
  mutex : ∀ t, (c.locals t).pc.sharing → c.shared.gUnitycacheLockMutex = some t
  settled : ∀ fd, (∀ t, (c.locals t).pc.noting ≠ some fd) → Agree c.shared lock data fd
  /-- Two calls are at work on a descriptor only when both note that it is closed. -/
  alone : ∀ t u fd, t ≠ u → (c.locals t).pc.noting = some fd → (c.locals u).pc.noting = some fd →
    (c.locals t).pc.closing
  source : ∀ t fd, (c.locals t).pc.source = some fd → ∀ u, (c.locals u).pc.noting ≠ some fd
  at' : ∀ t, At c.shared lock data (c.locals t).pc

/-! ## A step that is at work on one descriptor -/

section Touch

variable {c : Config T (Shared T) (Thread T)} {lock data lock' data' : Fd → Option Bytes}
  {s s' : Shared T} {t : T} {pc pc' : Pc} {f : Fd}

/-- Nothing has changed that concerns `g`. -/
structure SameAt (g : Fd) (s : Shared T) (lock data : Fd → Option Bytes) (s' : Shared T)
    (lock' data' : Fd → Option Bytes) : Prop where
  host : s'.host g = s.host g
  positioned : s'.gPositionedFd g = s.gPositionedFd g
  lock : lock' g = lock g
  data : data' g = data g

/-- An agreement at a descriptor that stays the same. -/
theorem SameAt.agree {g : Fd} (h : SameAt g s lock data s' lock' data')
    (hagree : Agree s lock data g) : Agree s' lock' data' g := by
  refine ⟨?_, ?_, ?_⟩
  · rw [h.positioned, h.host, hagree.positioned]
  · rw [h.lock, h.host, hagree.lock]
  · rw [h.data, h.host, hagree.data]

/-- What is not noted there stays so. -/
theorem SameAt.unnoted {g : Fd} {p : Bytes} (h : SameAt g s lock data s' lock' data')
    (hun : Unnoted s lock data g p) : Unnoted s' lock' data' g p :=
  ⟨h.host.trans hun.host, h.positioned.trans hun.positioned, h.lock.trans hun.lock,
    h.data.trans hun.data⟩

/-- Two descriptors of one file that stay the same. -/
theorem SameAt.duplicate {g k : Fd} (hg : SameAt g s lock data s' lock' data')
    (hk : SameAt k s lock data s' lock' data') (hdup : Duplicate s g k) : Duplicate s' g k := by
  refine ⟨hdup.ne, ?_, ?_⟩
  · rw [hg.host, hk.host, hdup.host]
  · rw [hk.host]
    exact hdup.isOpen

/-- A call keeps what it knows when that has not changed. -/
theorem At.same (h : At s lock data pc)
    (hnoting : ∀ g, pc.noting = some g → SameAt g s lock data s' lock' data')
    (hsource : ∀ g, pc.source = some g → SameAt g s lock data s' lock' data')
    (hexisting : ∀ g, pc.existing = some g → lock' g = lock g) : At s' lock' data' pc := by
  cases pc with
  | openLock g p => exact ⟨(hnoting g rfl).unnoted h.1, h.2⟩
  | openData g p =>
      obtain ⟨hhost, hpos, hlock, hdata, hp⟩ := h
      have hg := hnoting g rfl
      rw [At, hg.host, hg.positioned, hg.lock, hg.data]
      exact ⟨hhost, hpos, hlock, hdata, hp⟩
  | openPositioned g p =>
      have hg := hnoting g rfl
      rw [At, hg.host, hg.lock, hg.data]
      exact h
  | shareDup p _ g => exact ⟨h.1, (hexisting g rfl).trans h.2⟩
  | shareTruncate p g | shareRegister p g => exact ⟨(hnoting g rfl).unnoted h.1, h.2⟩
  | shareClose g =>
      obtain ⟨p, hun⟩ := h
      exact ⟨p, (hnoting g rfl).unnoted hun⟩
  | closedPositioned g => exact (hnoting g rfl).host.trans h
  | closedTables g => exact ⟨(hnoting g rfl).host.trans h.1, (hnoting g rfl).positioned.trans h.2⟩
  | dupMetadata g k => exact (hsource g rfl).duplicate (hnoting k rfl) h
  | dupPositioned g k path =>
      refine ⟨(hsource g rfl).duplicate (hnoting k rfl) h.1, ?_⟩
      rw [(hnoting k rfl).host]
      exact h.2
  | dupTables g k =>
      refine ⟨(hsource g rfl).duplicate (hnoting k rfl) h.1, ?_⟩
      rw [(hnoting k rfl).host, (hnoting k rfl).positioned]
      exact h.2
  | _ => exact h

variable [DecidableEq T]

/-- A step of the thread `t` that is at work on the descriptor `f` keeps the invariant. -/
theorem Inv.touch (h : Inv c lock data) (htables : Tables s' lock' data')
    (hsame : ∀ g, g ≠ f → SameAt g c.shared lock data s' lock' data')
    (hmutex : pc'.sharing → s'.gUnitycacheLockMutex = some t)
    (hmutexOther : ∀ u, u ≠ t → (c.locals u).pc.sharing → s'.gUnitycacheLockMutex = some u)
    (hfrom : ∀ g, (c.locals t).pc.noting = some g → g = f) (hto : ∀ g, pc'.noting = some g → g = f)
    (hagree : pc'.noting = none → (∀ u, u ≠ t → (c.locals u).pc.noting ≠ some f) →
      Agree s' lock' data' f)
    (hnoting : ∀ u, u ≠ t → (c.locals u).pc.noting = some f →
      At s' lock' data' (c.locals u).pc ∧
        (pc'.noting ≠ none → (c.locals u).pc.closing ∧ pc'.closing))
    (hsource : ∀ u, u ≠ t → (c.locals u).pc.source ≠ some f)
    (hexisting : ∀ u, u ≠ t → (c.locals u).pc.existing = some f → lock' f = lock f)
    (hown : ∀ g, pc'.source = some g → g ≠ f ∧ ∀ u, u ≠ t → (c.locals u).pc.noting ≠ some g)
    (hat : At s' lock' data' pc') :
    Inv (c.set t s' ⟨t, pc'⟩) lock' data' := by
  have hself : ((c.set t s' ⟨t, pc'⟩).locals t).pc = pc' := by rw [c.set_locals_self]
  have hother : ∀ u, u ≠ t → ((c.set t s' ⟨t, pc'⟩).locals u).pc = (c.locals u).pc := fun u hu => by
    rw [c.set_locals_other hu]
  -- everything but `f` is as it was, and only `t` has moved; so each part splits on `f` and on `t`
  have hto' : ∀ g, g ≠ f → pc'.noting ≠ some g := fun g hg hpc => hg (hto g hpc)
  refine ⟨htables, fun u => ?_, fun u hu => ?_, fun g hg => ?_, fun u v g huv hu hv => ?_,
    fun u g hu v => ?_, fun u => ?_⟩
  · by_cases hut : u = t
    · subst hut
      rw [c.set_locals_self]
    · rw [c.set_locals_other hut]
      exact h.self u
  · by_cases hut : u = t
    · subst hut
      rw [hself] at hu
      exact hmutex hu
    · rw [hother u hut] at hu
      exact hmutexOther u hut hu
  · have hnone : ∀ u, u ≠ t → (c.locals u).pc.noting ≠ some g := fun u hu => hother u hu ▸ hg u
    by_cases hgf : g = f
    · subst hgf
      -- nobody is at work on `f` after the step, `t` included
      refine hagree ?_ hnone
      cases hpc : pc'.noting with
      | none => rfl
      | some k =>
          obtain rfl := hto k hpc
          exact absurd (by rw [hself, hpc]) (hg t)
    · refine (hsame g hgf).agree (h.settled g fun u => ?_)
      by_cases hut : u = t
      · subst hut
        exact fun hpc => hgf (hfrom g hpc)
      · exact hnone u hut
  · by_cases hut : u = t
    · subst hut
      rw [hself] at hu ⊢
      rw [hother v (Ne.symm huv)] at hv
      -- two calls at work on one descriptor are both closing it
      obtain rfl := hto g hu
      exact ((hnoting v (Ne.symm huv) hv).2 (by rw [hu]; exact nofun)).2
    · rw [hother u hut] at hu ⊢
      by_cases hvt : v = t
      · subst hvt
        rw [hself] at hv
        obtain rfl := hto g hv
        exact ((hnoting u hut hu).2 (by rw [hv]; exact nofun)).1
      · rw [hother v hvt] at hv
        exact h.alone u v g huv hu hv
  · by_cases hut : u = t
    · subst hut
      rw [hself] at hu
      obtain ⟨hgf, hnone⟩ := hown g hu
      by_cases hvt : v = u
      · subst hvt
        rw [hself]
        exact hto' g hgf
      · rw [hother v hvt]
        exact hnone v hvt
    · rw [hother u hut] at hu
      by_cases hvt : v = t
      · subst hvt
        rw [hself]
        refine hto' g fun hgf => ?_
        subst hgf
        exact hsource u hut hu
      · rw [hother v hvt]
        exact h.source u g hu v
  · by_cases hut : u = t
    · subst hut
      rw [hself]
      exact hat
    · rw [hother u hut]
      -- another call at work on `f` is answered for by the caller
      by_cases hu : (c.locals u).pc.noting = some f
      · exact (hnoting u hut hu).1
      · refine (h.at' u).same (fun g hg => hsame g ?_) (fun g hg => hsame g ?_) fun g hg => ?_
        · exact fun hgf => hu (hgf ▸ hg)
        · exact fun hgf => hsource u hut (hgf ▸ hg)
        · by_cases hgf : g = f
          · subst hgf
            exact hexisting u hut hg
          · exact (hsame g hgf).lock

/-- A step of the thread `t` that changes at most who has the mutex keeps the invariant. -/
theorem Inv.goto (h : Inv c lock data) (hhost : s'.host = c.shared.host)
    (hpositioned : s'.gPositionedFd = c.shared.gPositionedFd)
    (hlocks : s'.gUnitycacheLockSlots = c.shared.gUnitycacheLockSlots)
    (hdatas : s'.gUnitycacheDataSlots = c.shared.gUnitycacheDataSlots)
    (hmutex : pc'.sharing → s'.gUnitycacheLockMutex = some t)
    (hmutexOther : ∀ u, u ≠ t → (c.locals u).pc.sharing → s'.gUnitycacheLockMutex = some u)
    (hnoting : pc'.noting = (c.locals t).pc.noting) (hsource : pc'.source = (c.locals t).pc.source)
    (hclosing : (c.locals t).pc.closing → pc'.closing) (hat : At c.shared lock data pc') :
    Inv (c.set t s' ⟨t, pc'⟩) lock data := by
  -- host and tables are the same for every descriptor
  have hsame : ∀ g, SameAt g c.shared lock data s' lock data := fun g =>
    ⟨by rw [hhost], by rw [hpositioned], rfl, rfl⟩
  have hself : ((c.set t s' ⟨t, pc'⟩).locals t).pc = pc' := by rw [c.set_locals_self]
  have hother : ∀ u, u ≠ t → ((c.set t s' ⟨t, pc'⟩).locals u).pc = (c.locals u).pc := fun u hu => by
    rw [c.set_locals_other hu]
  have hnotings : ∀ u, ((c.set t s' ⟨t, pc'⟩).locals u).pc.noting = (c.locals u).pc.noting := by
    intro u
    by_cases hut : u = t
    · rw [hut, hself, hnoting]
    · rw [hother u hut]
  have hsources : ∀ u, ((c.set t s' ⟨t, pc'⟩).locals u).pc.source = (c.locals u).pc.source := by
    intro u
    by_cases hut : u = t
    · rw [hut, hself, hsource]
    · rw [hother u hut]
  refine ⟨⟨?_, ?_, ?_, ?_, ?_, ?_⟩, fun u => ?_, fun u hu => ?_, fun g hg => ?_,
    fun u v g huv hu hv => ?_, fun u g hu v => ?_, fun u => ?_⟩
  · show Represents s'.gUnitycacheLockSlots lock
    exact hlocks ▸ h.locks
  · show Represents s'.gUnitycacheDataSlots data
    exact hdatas ▸ h.datas
  · show ∀ fd, ¬ inSlots fd → s'.host fd = .closed ∧ s'.gPositionedFd fd = none
    rw [hhost, hpositioned]
    exact h.range
  · show ∀ fd p, s'.host fd = .file p → p ≠ []
    rw [hhost]
    exact h.nonempty
  · show (held s'.host HostFd.lockPath lock).encard ≤ unitycacheLockSlots
    rw [hhost]
    exact h.roomLock
  · show (held s'.host HostFd.dataPath data).encard ≤ unitycacheDataSlots
    rw [hhost]
    exact h.roomData
  · by_cases hut : u = t
    · subst hut
      rw [c.set_locals_self]
    · rw [c.set_locals_other hut]
      exact h.self u
  · by_cases hut : u = t
    · subst hut
      rw [hself] at hu
      exact hmutex hu
    · rw [hother u hut] at hu
      exact hmutexOther u hut hu
  · exact (hsame g).agree (h.settled g fun u => hnotings u ▸ hg u)
  · rw [hnotings] at hu hv
    have hclosed := h.alone u v g huv hu hv
    by_cases hut : u = t
    · subst hut
      rw [hself]
      exact hclosing hclosed
    · rwa [hother u hut]
  · rw [hsources] at hu
    rw [hnotings]
    exact h.source u g hu v
  · have hat' : At c.shared lock data ((c.set t s' ⟨t, pc'⟩).locals u).pc := by
      by_cases hut : u = t
      · rw [hut, hself]
        exact hat
      · rw [hother u hut]
        exact h.at' u
    exact hat'.same (fun g _ => hsame g) (fun g _ => hsame g) fun _ _ => rfl

/-- What a call that is at work on `f` to note that it is open keeps. -/
theorem Inv.work (h : Inv c lock data) (hpc : (c.locals t).pc.noting = some f)
    (hopen : ¬ (c.locals t).pc.closing) (htables : Tables s' lock' data')
    (hsame : ∀ g, g ≠ f → SameAt g c.shared lock data s' lock' data')
    (hmutex : pc'.sharing → s'.gUnitycacheLockMutex = some t)
    (hmutexOther : ∀ u, u ≠ t → (c.locals u).pc.sharing → s'.gUnitycacheLockMutex = some u)
    (hto : pc'.noting = some f ∨ pc'.noting = none ∧ Agree s' lock' data' f)
    (hexisting : ∀ u, u ≠ t → (c.locals u).pc.existing = some f → lock' f = lock f)
    (hown : ∀ g, pc'.source = some g → (c.locals t).pc.source = some g)
    (hat : At s' lock' data' pc') : Inv (c.set t s' ⟨t, pc'⟩) lock' data' := by
  have hfree : ∀ u, u ≠ t → (c.locals u).pc.noting ≠ some f := fun u hu hnoting =>
    hopen (h.alone t u f (Ne.symm hu) hpc hnoting)
  refine h.touch htables hsame hmutex hmutexOther ?_ ?_ ?_ ?_ ?_ hexisting ?_ hat
  · intro g hg
    rw [hpc] at hg
    exact (Option.some.inj hg).symm
  · intro g hg
    rcases hto with hto | ⟨hto, -⟩
    · rw [hto] at hg
      exact (Option.some.inj hg).symm
    · rw [hto] at hg
      cases hg
  · intro hnone _
    rcases hto with hto | ⟨-, hagree⟩
    · rw [hto] at hnone
      cases hnone
    · exact hagree
  · exact fun u hu hnoting => absurd hnoting (hfree u hu)
  · exact fun u _ hsource => h.source u f hsource t hpc
  · intro g hg
    have hsource := h.source t g (hown g hg)
    exact ⟨fun hgf => hsource t (hgf ▸ hpc), fun u _ => hsource u⟩

/-- What a call keeps that begins to be at work on `f`, when nobody else is and nobody reads what is
noted of it. -/
theorem Inv.begin {x : HostFd} (h : Inv c lock data) (hpc : (c.locals t).pc.noting = none)
    (hfree : ∀ u, (c.locals u).pc.noting ≠ some f) (hunread : ∀ u, (c.locals u).pc.source ≠ some f)
    (htables : Tables (c.shared.setHost f x) lock data) (hto : pc'.noting = some f)
    (hmutex : pc'.sharing → c.shared.gUnitycacheLockMutex = some t)
    (hown : ∀ g, pc'.source = some g → g ≠ f ∧ ∀ u, (c.locals u).pc.noting ≠ some g)
    (hat : At (c.shared.setHost f x) lock data pc') :
    Inv (c.set t (c.shared.setHost f x) ⟨t, pc'⟩) lock data := by
  refine h.touch htables ?_ hmutex (fun u _ hu => h.mutex u hu) ?_ ?_ ?_ ?_ (fun u _ => hunread u)
    (fun _ _ _ => rfl) (fun g hg => ⟨(hown g hg).1, fun u _ => (hown g hg).2 u⟩) hat
  · exact fun g hg => ⟨Function.update_of_ne hg .., rfl, rfl, rfl⟩
  · intro g hg
    rw [hpc] at hg
    cases hg
  · intro g hg
    rw [hto] at hg
    exact (Option.some.inj hg).symm
  · intro hnone
    rw [hto] at hnone
    cases hnone
  · exact fun u _ hnoting => absurd hnoting (hfree u)

end Touch

/-! ## The operations on the tables -/

section Operations

variable {s : Shared T} {lock data : Fd → Option Bytes} {f oldfd : Fd} {x : HostFd} {p : Bytes}
  {host : Fd → HostFd} {path : HostFd → Option Bytes} {m : Fd → Option Bytes} {n : ℕ∞}

/-- The descriptors of noted files, when one is opened or closed. -/
theorem held_set_host (h : (held host path m).encard ≤ n)
    (hroom : path x ≠ none → (insert f (held host path m)).encard ≤ n) :
    (held (Function.update host f x) path m).encard ≤ n := by
  have hsub : ∀ g, g ∈ held (Function.update host f x) path m → g = f ∧ path x ≠ none ∨
      g ∈ held host path m := by
    intro g hg
    by_cases hgf : g = f
    · subst hgf
      rcases hg with hg | hg
      · rw [Function.update_self] at hg
        exact .inl ⟨rfl, hg⟩
      · exact .inr (.inr hg)
    · rcases hg with hg | hg
      · rw [Function.update_of_ne hgf] at hg
        exact .inr (.inl hg)
      · exact .inr (.inr hg)
  by_cases hx : path x = none
  · refine (Set.encard_le_encard fun g hg => ?_).trans h
    exact (hsub g hg).resolve_left fun hf => hf.2 hx
  · refine (Set.encard_le_encard fun g hg => ?_).trans (hroom hx)
    exact (hsub g hg).imp And.left id

/-- Forgetting a descriptor makes room. -/
theorem held_forget (h : (held host path m).encard ≤ n) :
    (held host path (Function.update m f none)).encard ≤ n := by
  refine (Set.encard_le_encard fun g hg => ?_).trans h
  rcases hg with hg | hg
  · exact .inl hg
  · by_cases hgf : g = f
    · subst hgf
      exact absurd (Function.update_self ..) hg
    · rw [Function.update_of_ne hgf] at hg
      exact .inr hg

/-- A descriptor that has its file is counted already. -/
theorem held_register (h : (held host path m).encard ≤ n) (hf : path (host f) ≠ none) :
    (held host path (Function.update m f (some p))).encard ≤ n := by
  refine (Set.encard_le_encard fun g hg => ?_).trans h
  by_cases hgf : g = f
  · subst hgf
    exact .inl hf
  · rcases hg with hg | hg
    · exact .inl hg
    · rw [Function.update_of_ne hgf] at hg
      exact .inr hg

/-- There is room for a descriptor that a table should hold. -/
theorem held_room (h : (held host path m).encard ≤ n) (hf : path (host f) ≠ none) :
    (insert f {k | m k ≠ none}).encard ≤ n := by
  refine (Set.encard_le_encard ?_).trans h
  intro g hg
  rcases hg with rfl | hg
  · exact .inl hf
  · exact .inr hg

/-- The tables still describe the notes when a descriptor is opened or closed. -/
theorem Tables.setHost (h : Tables s lock data) (hslots : x ≠ .closed → inSlots f)
    (hne : ∀ p, x = .file p → p ≠ [])
    (hlock : x.lockPath ≠ none →
      (insert f (held s.host HostFd.lockPath lock)).encard ≤ unitycacheLockSlots)
    (hdata : x.dataPath ≠ none →
      (insert f (held s.host HostFd.dataPath data)).encard ≤ unitycacheDataSlots) :
    Tables (s.setHost f x) lock data := by
  refine ⟨h.locks, h.datas, fun g hg => ?_, fun g p hg => ?_, held_set_host h.roomLock hlock,
    held_set_host h.roomData hdata⟩
  · refine ⟨?_, (h.range g hg).2⟩
    show Function.update s.host f x g = .closed
    by_cases hgf : g = f
    · subst hgf
      rw [Function.update_self]
      by_contra hx
      exact hg (hslots hx)
    · rw [Function.update_of_ne hgf]
      exact (h.range g hg).1
  · have hg : Function.update s.host f x g = .file p := hg
    by_cases hgf : g = f
    · subst hgf
      rw [Function.update_self] at hg
      exact hne p hg
    · rw [Function.update_of_ne hgf] at hg
      exact h.nonempty g p hg

/-- A positioned slot is set, or emptied. -/
theorem Tables.setPositioned (h : Tables s lock data) (hf : inSlots f) (p : Option Bytes) :
    Tables { s with gPositionedFd := Function.update s.gPositionedFd f p } lock data := by
  refine ⟨h.locks, h.datas, fun g hg => ⟨(h.range g hg).1, ?_⟩, h.nonempty, h.roomLock, h.roomData⟩
  have hgf : g ≠ f := fun hgf => hg (hgf ▸ hf)
  show Function.update s.gPositionedFd f p g = none
  rw [Function.update_of_ne hgf]
  exact (h.range g hg).2

/-- So they do when a file is noted for positioned reads. -/
theorem Tables.positionedRegister (h : Tables s lock data) (p : Bytes) :
    Tables (positionedRegister s f p) lock data := by
  unfold Notes.positionedRegister
  split
  · rename_i hf
    exact h.setPositioned hf _
  · exact h

theorem Tables.positionedSlotClear (h : Tables s lock data) :
    Tables (positionedSlotClear s f) lock data := by
  unfold Notes.positionedSlotClear
  split
  · rename_i hf
    exact h.setPositioned hf _
  · exact h

/-- Forgetting a descriptor in both tables. -/
theorem Tables.forgetBoth (h : Tables s lock data) (f : Fd) :
    Tables (unitycacheDataForgetFd (unitycacheLockForgetFd s f) f) (Function.update lock f none)
      (Function.update data f none) :=
  ⟨h.locks.forget (-1) f, h.datas.forget (-1) f, h.range, h.nonempty, held_forget h.roomLock,
    held_forget h.roomData⟩

/-- Clearing one slot of the lock table. -/
theorem Tables.lockClear (h : Tables s lock data) {i : Fin unitycacheLockSlots}
    (hi : s.gUnitycacheLockSlots i = ⟨f, some p⟩) :
    Tables (unitycacheLockClear s i) (Function.update lock f none) data :=
  ⟨h.locks.clear hi (-1), h.datas, h.range, h.nonempty, held_forget h.roomLock, h.roomData⟩

theorem Tables.nonneg (h : Tables s lock data) (hf : s.host f ≠ .closed) : 0 ≤ f := by
  by_contra hneg
  exact hf (h.range f fun hslots => hneg hslots.1).1

/-- Noting a lock file. -/
theorem Tables.lockRegister (h : Tables s lock data) (hf : (s.host f).lockPath ≠ none) (p : Bytes) :
    Tables (unitycacheLockRegister s f p) (Function.update lock f (some p)) data := by
  have hopen : s.host f ≠ .closed := fun hclosed => hf (by rw [hclosed]; rfl)
  rw [unitycacheLockRegister, if_neg (Int.not_lt.2 (h.nonneg hopen))]
  exact ⟨h.locks.register (-1) p (held_room h.roomLock hf), h.datas, h.range, h.nonempty,
    held_register h.roomLock hf, h.roomData⟩

/-- Noting a data file. -/
theorem Tables.dataRegister (h : Tables s lock data) (hf : (s.host f).dataPath ≠ none) (p : Bytes) :
    Tables (unitycacheDataRegister s f p) lock (Function.update data f (some p)) := by
  have hopen : s.host f ≠ .closed := fun hclosed => hf (by rw [hclosed]; rfl)
  rw [unitycacheDataRegister, if_neg (Int.not_lt.2 (h.nonneg hopen))]
  exact ⟨h.locks, h.datas.register (-1) p (held_room h.roomData hf), h.range,
    h.nonempty, h.roomLock,
    held_register h.roomData hf⟩

/-- A copy of a descriptor takes its note over, when it is a lock file. -/
theorem Tables.duplicateLock (h : Tables s lock data) (hold : lock oldfd = (s.host f).lockPath)
    (hnew : lock f = none) :
    Tables (duplicateLock s oldfd f) (Function.update lock f (lock oldfd)) data := by
  rw [Notes.duplicateLock, h.locks.valueOf_eq]
  cases hlock : lock oldfd with
  | none =>
      have hsame : Function.update lock f none = lock := by rw [← hnew, Function.update_eq_self]
      rw [hsame]
      exact h
  | some p =>
      exact h.lockRegister (by rw [← hold, hlock]; exact nofun) p

/-- And when it is a data file. -/
theorem Tables.duplicateData (h : Tables s lock data) (hold : data oldfd = (s.host f).dataPath)
    (hnew : data f = none) :
    Tables (duplicateData s oldfd f) lock (Function.update data f (data oldfd)) := by
  rw [Notes.duplicateData, h.datas.valueOf_eq]
  cases hdata : data oldfd with
  | none =>
      have hsame : Function.update data f none = data := by rw [← hnew, Function.update_eq_self]
      rw [hsame]
      exact h
  | some p =>
      exact h.dataRegister (by rw [← hold, hdata]; exact nofun) p

/-! ### What an operation leaves alone -/

/-- What a note of a lock file leaves alone. -/
@[simp] theorem lock_register_host (s : Shared T) (f : Fd) (p : Bytes) :
    (unitycacheLockRegister s f p).host = s.host := by
  unfold unitycacheLockRegister
  split <;> rfl

@[simp] theorem lock_register_positioned (s : Shared T) (f : Fd) (p : Bytes) :
    (unitycacheLockRegister s f p).gPositionedFd = s.gPositionedFd := by
  unfold unitycacheLockRegister
  split <;> rfl

@[simp] theorem lock_register_mutex (s : Shared T) (f : Fd) (p : Bytes) :
    (unitycacheLockRegister s f p).gUnitycacheLockMutex = s.gUnitycacheLockMutex := by
  unfold unitycacheLockRegister
  split <;> rfl

/-- What a note of a data file leaves alone. -/
@[simp] theorem data_register_host (s : Shared T) (f : Fd) (p : Bytes) :
    (unitycacheDataRegister s f p).host = s.host := by
  unfold unitycacheDataRegister
  split <;> rfl

@[simp] theorem data_register_positioned (s : Shared T) (f : Fd) (p : Bytes) :
    (unitycacheDataRegister s f p).gPositionedFd = s.gPositionedFd := by
  unfold unitycacheDataRegister
  split <;> rfl

@[simp] theorem data_register_mutex (s : Shared T) (f : Fd) (p : Bytes) :
    (unitycacheDataRegister s f p).gUnitycacheLockMutex = s.gUnitycacheLockMutex := by
  unfold unitycacheDataRegister
  split <;> rfl

/-- What the note of a copy leaves alone. -/
@[simp] theorem duplicate_lock_host (s : Shared T) (f g : Fd) :
    (duplicateLock s f g).host = s.host := by
  unfold duplicateLock
  split
  · rfl
  · exact lock_register_host ..

@[simp] theorem duplicate_lock_positioned (s : Shared T) (f g : Fd) :
    (duplicateLock s f g).gPositionedFd = s.gPositionedFd := by
  unfold duplicateLock
  split
  · rfl
  · exact lock_register_positioned ..

@[simp] theorem duplicate_lock_mutex (s : Shared T) (f g : Fd) :
    (duplicateLock s f g).gUnitycacheLockMutex = s.gUnitycacheLockMutex := by
  unfold duplicateLock
  split
  · rfl
  · exact lock_register_mutex ..

@[simp] theorem duplicate_data_host (s : Shared T) (f g : Fd) :
    (duplicateData s f g).host = s.host := by
  unfold duplicateData
  split
  · rfl
  · exact data_register_host ..

@[simp] theorem duplicate_data_positioned (s : Shared T) (f g : Fd) :
    (duplicateData s f g).gPositionedFd = s.gPositionedFd := by
  unfold duplicateData
  split
  · rfl
  · exact data_register_positioned ..

@[simp] theorem duplicate_data_mutex (s : Shared T) (f g : Fd) :
    (duplicateData s f g).gUnitycacheLockMutex = s.gUnitycacheLockMutex := by
  unfold duplicateData
  split
  · rfl
  · exact data_register_mutex ..

/-- What such a note leaves alone. -/
@[simp] theorem positioned_register_host (s : Shared T) (f : Fd) (p : Bytes) :
    (positionedRegister s f p).host = s.host := by
  unfold positionedRegister
  split <;> rfl

@[simp] theorem positioned_register_mutex (s : Shared T) (f : Fd) (p : Bytes) :
    (positionedRegister s f p).gUnitycacheLockMutex = s.gUnitycacheLockMutex := by
  unfold positionedRegister
  split <;> rfl

theorem positioned_register_self (hf : inSlots f) :
    (positionedRegister s f p).gPositionedFd f = some p := by
  rw [positionedRegister, if_pos hf]
  exact Function.update_self ..

theorem positioned_register_other {g : Fd} (hg : g ≠ f) :
    (positionedRegister s f p).gPositionedFd g = s.gPositionedFd g := by
  unfold positionedRegister
  split
  · exact Function.update_of_ne hg ..
  · rfl

@[simp] theorem positioned_clear_host (s : Shared T) (f : Fd) :
    (positionedSlotClear s f).host = s.host := by
  unfold positionedSlotClear
  split <;> rfl

@[simp] theorem positioned_clear_mutex (s : Shared T) (f : Fd) :
    (positionedSlotClear s f).gUnitycacheLockMutex = s.gUnitycacheLockMutex := by
  unfold positionedSlotClear
  split <;> rfl

/-- A note that has been cleared. -/
theorem Tables.positioned_clear_self (h : Tables s lock data) :
    (Notes.positionedSlotClear s f).gPositionedFd f = none := by
  unfold Notes.positionedSlotClear
  split
  · exact Function.update_self ..
  · rename_i hf
    exact (h.range f hf).2

theorem positioned_clear_other {g : Fd} (hg : g ≠ f) :
    (positionedSlotClear s f).gPositionedFd g = s.gPositionedFd g := by
  unfold positionedSlotClear
  split
  · exact Function.update_of_ne hg ..
  · rfl

end Operations

end Asnx.FileBridge.Notes
