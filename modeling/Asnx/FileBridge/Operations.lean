import Asnx.FileBridge.Fallback
import Asnx.FileBridge.FdNotes
import Asnx.FileBridge.PositionedReads
import Asnx.Library.Calling

/-!
# Operations on paths

`file_open`, `file_stat`, `file_truncate`, `file_mkdir`, `file_unlink`, `file_remove` and
`file_rename` of `source/file_bridge.c` as programs that call the host, which may answer anything.
What they note of the descriptors is in `FdNotes`; here the tables are only looked at.

Where the complete translation of a path fits into `PATH_MAX`, that translation is what the host is
given, but for a file that is read and is packaged, and for the parents of a file of the cache. An
operation that does not stop before gives it (`operations_complete`).
-/

namespace Asnx.FileBridge

open Files Searching Calling SlotTables
open Installer (dataRoot pathMax)
open Notes (Fd unitycacheLockSlots unitycacheDataSlots isUnitycacheLockFile isUnitycacheDataFile)

/-! ## Calls of the host -/

def enomem : Int := 12
def efault : Int := 14
def eexist : Int := 17

/-- The flags that are given to `open`: the access mode, and the others by name. -/
structure OpenFlags where
  acc : Nat
  creat : Bool
  excl : Bool
  trunc : Bool
  append : Bool
  nonblock : Bool
  deriving DecidableEq

/-- `O_RDWR` -/
def oRdwr : Nat := 2

/-- A call of the host. -/
inductive HostCall where
  /-- `malloc` and `strdup` -/
  | malloc
  | stat (path : Bytes)
  | openFile (path : Bytes) (flags : OpenFlags) (mode : Nat)
  /-- `fsdevGetLastResult` -/
  | lastResult
  | truncate (path : Bytes) (length : Int)
  | mkdir (path : Bytes) (mode : Nat)
  | unlink (path : Bytes)
  | remove (path : Bytes)
  | rename (a b : Bytes)
  | fstat (fd : Fd)
  | ftruncate (fd : Fd) (length : Int)
  | dup (fd : Fd)
  | close (fd : Fd)
  deriving DecidableEq

/-- The paths that a call is given. -/
def HostCall.paths : HostCall → List Bytes
  | stat path | openFile path _ _ | truncate path _ | mkdir path _ | unlink path | remove path =>
      [path]
  | rename a b => [a, b]
  | malloc | lastResult | fstat _ | ftruncate _ _ | dup _ | close _ => []

/-- The answer to a call: what it returns (`st_mode` for `stat`), or `errno`. -/
abbrev Answer := Except Int Int

/-- The functions of the bridge. -/
abbrev Bridge := Program HostCall Answer

/-- `S_ISREG` -/
def sIsReg (mode : Int) : Bool := mode / 0x1000 % 16 = 8

/-- The tables of the cache. -/
structure Tables where
  gUnitycacheLockSlots : SlotTable unitycacheLockSlots Fd Bytes
  gUnitycacheDataSlots : SlotTable unitycacheDataSlots Fd Bytes

/-! ## Paths -/

/-- `translate_path_alloc` -/
def translatePathAlloc (p : Option Bytes) : Bridge (Except Int Bytes) :=
  match p with
  | none => pure (.error efault)
  | some p => do
      match ← Program.ask .malloc with
      | .error _ => pure (.error enomem)
      | .ok _ => pure (.ok ((fileTranslate p pathMax).1.getD []))

/-- What `translate_read_path_alloc` does with what `find_packaged_local_fallback` comes to. -/
def lookLocal (primary : Bytes) : Option Bytes × Bool → Bridge (Except Int Bytes)
  | (some packaged, true) => do
      match ← Program.ask (.stat packaged) with
      | .ok mode => if sIsReg mode then pure (.ok packaged) else pure (.ok primary)
      | .error _ => pure (.ok primary)
  | _ => pure (.ok primary)

/-- The second part of `translate_read_path_alloc`, for a file that is not at its primary path. -/
def readLocal (p primary : Bytes) : Bridge (Except Int Bytes) := do
  match ← Program.ask .malloc with
  | .error _ => pure (.ok primary)
  | .ok _ => lookLocal primary (findPackagedLocalFallback p pathMax)

/-- `translate_read_path_alloc` -/
def translateReadPathAlloc (p : Option Bytes) : Bridge (Except Int Bytes) := do
  match ← translatePathAlloc p with
  | .error e => pure (.error e)
  | .ok primary => do
      match ← Program.ask (.stat primary) with
      | .ok _ => pure (.ok primary)
      | .error _ => readLocal (p.getD []) primary

/-- `DATA_ROOT "/files/UnityCache/"` -/
def unityCacheDir : Bytes := dataRoot ++ bytes "/files/UnityCache/"

/-- The loop of `ensure_unity_cache_parents`, from `scan` on with `front` before it; every turn
shortens what is left of the path. -/
def makeParents : Nat → Bytes → Bytes → Bridge (Except Int Unit)
  | 0, _, _ => pure (.ok ())
  | turns + 1, front, scan =>
      match strchr 47 scan with
      | none => pure (.ok ())
      | some slash => do
          let parent := front ++ scan.take (scan.length - slash.length)
          match ← Program.ask (.mkdir parent 0o777) with
          | .ok _ => makeParents turns (parent ++ [47]) slash.tail
          | .error e =>
              if e ≠ eexist then pure (.error e) else makeParents turns (parent ++ [47]) slash.tail

/-- `ensure_unity_cache_parents` -/
def ensureUnityCacheParents (translated : Bytes) : Bridge (Except Int Unit) :=
  if ¬ unityCacheDir <+: translated then pure (.ok ())
  else do
    match ← Program.ask .malloc with
    | .error _ => pure (.error enomem)
    | .ok _ =>
        makeParents translated.length (translated.take (dataRoot.length + 1))
          (translated.drop (dataRoot.length + 1))

/-! ## The operations -/

/-- `unitycache_lock_find_nolock` and `unitycache_data_find_nolock`, from a slot on; -1 where none
is found. -/
def unitycacheFind (path : Bytes) : List (Entry Fd Bytes) → Bridge Fd
  | [] => pure (-1)
  | slot :: slots =>
      if slot.value ≠ some path then unitycacheFind path slots
      else do
        match ← Program.ask (.fstat slot.key) with
        | .ok _ => pure slot.key
        | .error _ => unitycacheFind path slots

/-- `unitycache_data_lookup_fd_nolock` -/
def unitycacheDataLookupFd (t : Tables) (path : Bytes) : Fd :=
  (((List.ofFn t.gUnitycacheDataSlots).find? fun slot => slot.value = some path).map Entry.key).getD
    (-1)

/-- The part of `file_open` in which a `__lock` file that is in use is shared. -/
def shareLock (t : Tables) (resolved : Bytes) (truncates : Bool) (e : Int) :
    Bridge (Except Int Fd) := do
  let existing ← unitycacheFind resolved (List.ofFn t.gUnitycacheLockSlots)
  if existing < 0 then pure (.error e)
  else do
    match ← Program.ask (.dup existing) with
    | .error e => pure (.error e)
    | .ok shared =>
        if truncates then do
          match ← Program.ask (.ftruncate shared 0) with
          | .ok _ => pure (.ok shared)
          | .error compatE => do
              let _ ← Program.ask (.close shared)
              pure (.error compatE)
        else pure (.ok shared)

/-- The flags for the host, from those of the guest. -/
def hostFlags (flags : UInt32) (resolved : Bytes) : OpenFlags :=
  { acc := if isUnitycacheLockFile resolved then oRdwr else (flags &&& 3).toNat
    creat := flags &&& 0o100 ≠ 0
    excl := flags &&& 0o200 ≠ 0
    trunc := flags &&& 0o1000 ≠ 0
    append := flags &&& 0o2000 ≠ 0
    nonblock := flags &&& 0o4000 ≠ 0 }

/-- The mode of a new file. -/
def hostMode (flags : UInt32) (mode : Nat) : Nat := if flags &&& 0o100 ≠ 0 then mode else 0o666

/-- A file is opened to read it, and is not created. -/
def readsOnly (flags : UInt32) : Bool := flags &&& 3 = 0 ∧ flags &&& 0o100 = 0

/-- `file_open` from the call of `open` on. -/
def openResolved (t : Tables) (flags : UInt32) (mode : Nat) (resolved : Bytes) :
    Bridge (Except Int Fd) := do
  match ← Program.ask (.openFile resolved (hostFlags flags resolved) (hostMode flags mode)) with
  | .ok fd => pure (.ok fd)
  | .error e => do
      match ← Program.ask .lastResult with
      | .ok nxrc =>
          if isUnitycacheLockFile resolved ∧ nxrc = 0xe02 then
            shareLock t resolved (flags &&& 0o1000 ≠ 0) e
          else pure (.error e)
      | .error _ => pure (.error e)

/-- `file_open` -/
def fileOpen (t : Tables) (p : Option Bytes) (flags : UInt32) (mode : Nat) :
    Bridge (Except Int Fd) := do
  match ← if readsOnly flags then translateReadPathAlloc p else translatePathAlloc p with
  | .error e => pure (.error e)
  | .ok resolved =>
      if flags &&& 0o100 ≠ 0 then do
        match ← ensureUnityCacheParents resolved with
        | .error e => pure (.error e)
        | .ok _ => openResolved t flags mode resolved
      else openResolved t flags mode resolved

/-- `file_stat` -/
def fileStat (t : Tables) (p : Option Bytes) : Bridge Answer := do
  match ← translateReadPathAlloc p with
  | .error e => pure (.error e)
  | .ok resolved => do
      match ← Program.ask (.stat resolved) with
      | .ok mode => pure (.ok mode)
      | .error e =>
          let source := unitycacheDataLookupFd t resolved
          if e = eio ∧ isUnitycacheDataFile resolved ∧ source ≥ 0 then do
            match ← Program.ask (.dup source) with
            | .error _ => pure (.error e)
            | .ok probe => do
                let r ← Program.ask (.fstat probe)
                let _ ← Program.ask (.close probe)
                pure r
          else pure (.error e)

/-- `file_truncate` -/
def fileTruncate (t : Tables) (p : Option Bytes) (length : Int) : Bridge Answer :=
  if p = none ∨ length < 0 then pure (.error einval)
  else do
    match ← translatePathAlloc p with
    | .error e => pure (.error e)
    | .ok resolved =>
        if isUnitycacheDataFile resolved then do
          let existing ← unitycacheFind resolved (List.ofFn t.gUnitycacheDataSlots)
          if existing ≥ 0 then Program.ask (.ftruncate existing length)
          else Program.ask (.truncate resolved length)
        else Program.ask (.truncate resolved length)

/-- `file_mkdir` -/
def fileMkdir (p : Option Bytes) (mode : Nat) : Bridge Answer := do
  match ← translatePathAlloc p with
  | .error e => pure (.error e)
  | .ok r => do
      match ← ensureUnityCacheParents r with
      | .error e => pure (.error e)
      | .ok _ => Program.ask (.mkdir r mode)

/-- `file_unlink` -/
def fileUnlink (p : Option Bytes) : Bridge Answer := do
  match ← translatePathAlloc p with
  | .error e => pure (.error e)
  | .ok r => Program.ask (.unlink r)

/-- `file_remove` -/
def fileRemove (p : Option Bytes) : Bridge Answer := do
  match ← translatePathAlloc p with
  | .error e => pure (.error e)
  | .ok r => Program.ask (.remove r)

/-- `file_rename` -/
def fileRename (a b0 : Option Bytes) : Bridge Answer := do
  match ← translatePathAlloc a with
  | .error e => pure (.error e)
  | .ok a1 => do
      match ← translatePathAlloc b0 with
      | .error e => pure (.error e)
      | .ok b1 => Program.ask (.rename a1 b1)

/-- A call of one of the functions, by its paths and its other arguments. -/
inductive FileOp where
  | fileOpen (p : Option Bytes) (flags : UInt32) (mode : Nat)
  | fileStat (p : Option Bytes)
  | fileTruncate (p : Option Bytes) (length : Int)
  | fileMkdir (p : Option Bytes) (mode : Nat)
  | fileUnlink (p : Option Bytes)
  | fileRemove (p : Option Bytes)
  | fileRename (a b0 : Option Bytes)

/-- The function that is called. -/
def FileOp.run (t : Tables) : FileOp → Bridge Answer
  | fileOpen p flags mode => FileBridge.fileOpen t p flags mode
  | fileStat p => FileBridge.fileStat t p
  | fileTruncate p length => FileBridge.fileTruncate t p length
  | fileMkdir p mode => FileBridge.fileMkdir p mode
  | fileUnlink p => FileBridge.fileUnlink p
  | fileRemove p => FileBridge.fileRemove p
  | fileRename a b0 => FileBridge.fileRename a b0

/-! ## What the host is given -/

/-- The calls that have been made, with their answers. -/
abbrev Log := List (HostCall × Answer)

/-- The complete translation of a path. -/
def complete (p : Bytes) : Bytes := (translation p).1

/-- The path is that of a packaged file which stands for `p`, as there is nothing at the
translation. -/
def Packaged (log : Log) (p path : Bytes) : Prop :=
  findPackagedLocalFallback p pathMax = (some path, true) ∧
    ∃ e, (HostCall.stat (complete p), Except.error e) ∈ log

/-- The path from which `p` is read: its translation, or a packaged file that has been found. -/
def ReadFrom (log : Log) (p path : Bytes) : Prop :=
  path = complete p ∨
    Packaged log p path ∧ ∃ mode, (HostCall.stat path, Except.ok mode) ∈ log ∧ sIsReg mode = true

/-- A call that looks where `p` is to be read from. -/
def Looks (log : Log) (p : Bytes) (c : HostCall) : Prop :=
  c = .stat (complete p) ∨ ∃ path, Packaged log p path ∧ c = .stat path

/-- A directory below `DATA_ROOT` in which a path of the cache lies. -/
def ParentOf (parent path : Bytes) : Prop :=
  unityCacheDir <+: path ∧ dataRoot.length < parent.length ∧ parent ++ [47] <+: path

/-- A call that makes a parent of a translation. -/
def MakesParent (p : Bytes) (c : HostCall) : Prop :=
  ∃ parent, ParentOf parent (complete p) ∧ c = .mkdir parent 0o777

/-- The calls with a path that an operation may make. -/
def FileOp.hands (log : Log) (c : HostCall) : FileOp → Prop
  | fileOpen p flags mode =>
      ∃ q, p = some q ∧
        if readsOnly flags then
          Looks log q c ∨
            ∃ path, ReadFrom log q path ∧ c = .openFile path (hostFlags flags path)
              (hostMode flags mode)
        else
          (flags &&& 0o100 ≠ 0 ∧ MakesParent q c) ∨
            c = .openFile (complete q) (hostFlags flags (complete q)) (hostMode flags mode)
  | fileStat p => ∃ q, p = some q ∧ (Looks log q c ∨ ∃ path, ReadFrom log q path ∧ c = .stat path)
  | fileTruncate p length => ∃ q, p = some q ∧ c = .truncate (complete q) length
  | fileMkdir p mode => ∃ q, p = some q ∧ (MakesParent q c ∨ c = .mkdir (complete q) mode)
  | fileUnlink p => ∃ q, p = some q ∧ c = .unlink (complete q)
  | fileRemove p => ∃ q, p = some q ∧ c = .remove (complete q)
  | fileRename a b0 => ∃ q r, a = some q ∧ b0 = some r ∧ c = .rename (complete q) (complete r)

/-- The calls that an operation may make after those of `log`. -/
def FileOp.allows (op : FileOp) (log : Log) (c : HostCall) : Prop := c.paths = [] ∨ op.hands log c

/-- The paths of an operation. -/
def FileOp.paths : FileOp → List Bytes
  | fileOpen p _ _ | fileStat p | fileTruncate p _ | fileMkdir p _ | fileUnlink p | fileRemove p =>
      p.toList
  | fileRename a b0 => a.toList ++ b0.toList

/-- The complete translation of a path fits into a buffer of `PATH_MAX` bytes. -/
def Fits (p : Bytes) : Prop := (complete p).length < pathMax

instance (p : Bytes) : Decidable (Fits p) := inferInstanceAs (Decidable (_ < _))

/-! ## What an operation has done -/

/-- A packaged file which stands for `p` has been found, and is a regular one. -/
def FoundPackaged (log : Log) (p path : Bytes) : Prop :=
  Packaged log p path ∧ ∃ mode, (HostCall.stat path, Except.ok mode) ∈ log ∧ sIsReg mode = true

/-- The choice of the path from which `p` is read: the translation has been looked at, and where it
was not there the packaged file, if there is memory for its name. That file is chosen where it is a
regular one, and the translation where it is not. -/
structure ReadChoice (log : Log) (p path : Bytes) : Prop where
  looked : ∃ a, (HostCall.stat (complete p), a) ∈ log
  tried : ∀ packaged, Packaged log p packaged →
    (∃ e, (HostCall.malloc, Except.error e) ∈ log) ∨ ∃ a, (HostCall.stat packaged, a) ∈ log
  choice : (path = complete p ∧ ∀ packaged, ¬ FoundPackaged log p packaged) ∨
    FoundPackaged log p path

/-- Every parent of a path of the cache has been made, or was there. -/
def ParentsMade (log : Log) (path : Bytes) : Prop :=
  ∀ parent, ParentOf parent path →
    ∃ a, (HostCall.mkdir parent 0o777, a) ∈ log ∧ (a = .error eexist ∨ ∃ v, a = .ok v)

/-- A descriptor that is noted for the data of the cache at a path, and is open. -/
def NotedOpen (t : Tables) (log : Log) (path : Bytes) (fd : Fd) : Prop :=
  isUnitycacheDataFile path = true ∧ 0 ≤ fd ∧ (∃ i, t.gUnitycacheDataSlots i = ⟨fd, some path⟩) ∧
    ∃ v, (HostCall.fstat fd, Except.ok v) ∈ log

/-- The call that an operation is for, after those of `log`. -/
def FileOp.made (t : Tables) (log : Log) (c : HostCall) : FileOp → Prop
  | fileOpen p flags mode =>
      ∃ q path, p = some q ∧ (if readsOnly flags then ReadChoice log q path else path =
        complete q) ∧
        (flags &&& 0o100 ≠ 0 → ParentsMade log path) ∧
        c = .openFile path (hostFlags flags path) (hostMode flags mode)
  | fileStat p => ∃ q path, p = some q ∧ ReadChoice log q path ∧ c = .stat path
  | fileTruncate p length =>
      ∃ q, p = some q ∧ 0 ≤ length ∧
        ((c = .truncate (complete q) length ∧ ∀ fd, ¬ NotedOpen t log (complete q) fd) ∨
          ∃ fd, NotedOpen t log (complete q) fd ∧ c = .ftruncate fd length)
  | fileMkdir p mode =>
      ∃ q, p = some q ∧ ParentsMade log (complete q) ∧ c = .mkdir (complete q) mode
  | fileUnlink p => ∃ q, p = some q ∧ c = .unlink (complete q)
  | fileRemove p => ∃ q, p = some q ∧ c = .remove (complete q)
  | fileRename a b0 => ∃ q r, a = some q ∧ b0 = some r ∧ c = .rename (complete q) (complete r)

/-- A path of the operation is missing; `file_truncate` has a test of its own for that. -/
def FileOp.missing : FileOp → Prop
  | fileOpen p _ _ | fileStat p | fileMkdir p _ | fileUnlink p | fileRemove p => p = none
  | fileTruncate _ _ => False
  | fileRename a b0 => a = none ∨ b0 = none

/-- The operation looks at its tables where the call that it is for fails. -/
def FileOp.recovers : FileOp → Bool
  | fileOpen _ _ _ | fileStat _ => true
  | _ => false

/-- Only memory has been asked for. -/
def OnlyMallocs (log : Log) : Prop := ∀ x ∈ log, x.1 = HostCall.malloc

/-- No path has been handed over. -/
def Pathless (log : Log) : Prop := ∀ x ∈ log, x.1.paths = []

/-- An operation ends without the call that it is for: a path is missing, the length is below 0,
there is no memory, or a parent cannot be made. -/
inductive FileOp.Stops (op : FileOp) : Log → Answer → Prop
  | missing {log : Log} (h : op.missing) (hlog : OnlyMallocs log) : op.Stops log (.error efault)
  | invalid {p : Option Bytes} {length : Int} (hop : op = .fileTruncate p length)
      (h : p = none ∨ length < 0) : op.Stops [] (.error einval)
  | memory {log : Log} {e : Int} (hlog : OnlyMallocs log) :
      op.Stops (log ++ [(.malloc, .error e)]) (.error enomem)
  | parent {log : Log} {parent q : Bytes} {e : Int} (hq : q ∈ op.paths)
      (hparent : ParentOf parent (complete q)) (he : e ≠ eexist) :
      op.Stops (log ++ [(.mkdir parent 0o777, .error e)]) (.error e)

/-- An operation stops, or makes the call that it is for. What that call returns is the result,
unless it fails and the operation looks at its tables then; no path is handed over any more. -/
inductive FileOp.Ends (t : Tables) (op : FileOp) : Log → Answer → Prop
  | stopped {log : Log} {r : Answer} (h : op.Stops log r) : op.Ends t log r
  | called {before after : Log} {c : HostCall} {a r : Answer} (h : op.made t before c)
      (hafter : Pathless after)
      (hresult : op.recovers = false ∨ (∃ v, a = .ok v) → after = [] ∧ r = a) :
      op.Ends t (before ++ (c, a) :: after) r

section Paths

variable {op : FileOp} {t : Tables} {log : Log} {q path : Bytes}

/-- A call without a path is always allowed. -/
theorem allows_free {c : HostCall} (h : c.paths = []) : op.allows log c := Or.inl h

theorem onlyMallocs_nil : OnlyMallocs [] := fun _ h => absurd h List.not_mem_nil

theorem OnlyMallocs.snoc (h : OnlyMallocs log) (a : Answer) :
    OnlyMallocs (log ++ [(.malloc, a)]) := by
  intro x hx
  rcases List.mem_append.1 hx with hx | hx
  · exact h x hx
  · rw [List.mem_singleton.1 hx]

theorem pathless_cons {c : HostCall} {a : Answer} {after : Log} (hc : c.paths = [])
    (h : Pathless after) : Pathless ((c, a) :: after) :=
  List.forall_mem_cons.2 ⟨hc, h⟩

/-- Where only memory has been asked for, no other call has been made. -/
theorem OnlyMallocs.not_mem (h : OnlyMallocs log) {c : HostCall} {a : Answer} (hc : c ≠ .malloc) :
    (c, a) ∉ log := fun hmem => hc (h _ hmem)

/-- A translation that fits is what the buffer holds. -/
theorem getD_fileTranslate {p : Bytes} (h : Fits p) :
    (fileTranslate p pathMax).1.getD [] = complete p := by
  rw [fileTranslate_fits (Prod.eta (translation p)).symm h]
  rfl

/-- What `translate_path_alloc` returns: the complete translation, or the operation stops. -/
theorem sound_translatePathAlloc {p : Option Bytes} (hfits : ∀ q ∈ p, Fits q)
    (hmissing : p = none → op.missing) (hlog : OnlyMallocs log) :
    Sound op.allows (fun log r => (∀ e, r = .error e → op.Stops log (.error e)) ∧
      ∀ path, r = .ok path → OnlyMallocs log ∧ ∃ q, p = some q ∧ path = complete q) log
      (translatePathAlloc p) := by
  cases p with
  | none =>
      refine sound_pure ⟨?_, nofun⟩
      rintro e ⟨⟩
      exact .missing (hmissing rfl) hlog
  | some q =>
      refine sound_call (allows_free rfl) fun a => ?_
      cases a with
      | error e =>
          refine sound_pure ⟨?_, nofun⟩
          rintro e ⟨⟩
          exact .memory hlog
      | ok v =>
          refine sound_pure ⟨nofun, fun path hpath => ⟨hlog.snoc _, q, rfl, ?_⟩⟩
          rw [← Except.ok.inj hpath, getD_fileTranslate (hfits q rfl)]

/-- Where the translation is there, it is chosen. -/
theorem readChoice_found (hlog : OnlyMallocs log) {v : Int} :
    ReadChoice (log ++ [(.stat (complete q), .ok v)]) q (complete q) := by
  have hnot : ∀ packaged, ¬ Packaged (log ++ [(.stat (complete q), .ok v)]) q packaged := by
    rintro packaged ⟨-, e, he⟩
    rcases List.mem_append.1 he with he | he
    · exact hlog.not_mem (by simp) he
    · cases List.mem_singleton.1 he
  exact {
    looked := ⟨_, List.mem_append_right _ List.mem_cons_self⟩
    tried := fun packaged hpackaged => absurd hpackaged (hnot packaged)
    choice := Or.inl ⟨rfl, fun packaged hfound => hnot packaged hfound.1⟩ }

/-- The translation is chosen where the packaged file is not: it has not been looked at, or was not
there, or is not a regular file. -/
theorem readChoice_primary {before more : Log}
    (hlooked : ∃ a, (HostCall.stat (complete q), a) ∈ before)
    (htried : ∀ packaged, Packaged (before ++ more) q packaged →
      (∃ e, (HostCall.malloc, Except.error e) ∈ before ++ more) ∨
        ∃ a, (HostCall.stat packaged, a) ∈ before ++ more)
    (hnot : ∀ packaged mode, findPackagedLocalFallback q pathMax = (some packaged, true) →
      (HostCall.stat packaged, Except.ok mode) ∈ before ++ more → sIsReg mode = false) :
    ReadChoice (before ++ more) q (complete q) where
  looked := hlooked.imp fun _ h => List.mem_append_left _ h
  tried := htried
  choice := by
    refine Or.inl ⟨rfl, ?_⟩
    rintro packaged ⟨⟨hfound, -⟩, mode, hmem, hregular⟩
    rw [hnot packaged mode hfound hmem] at hregular
    cases hregular

/-- The log in which the translation was not there, with what came after. -/
def missedLog (log : Log) (q : Bytes) (e : Int) (more : Log) : Log :=
  log ++ [(.stat (complete q), .error e)] ++ more

/-- A file that is there was not looked at before. -/
theorem mem_more_of_stat_ok {e mode : Int} {more : Log} (hlog : OnlyMallocs log)
    (h : (HostCall.stat path, Except.ok mode) ∈ missedLog log q e more) :
    (HostCall.stat path, Except.ok mode) ∈ more := by
  rcases List.mem_append.1 h with h | h
  · rcases List.mem_append.1 h with h | h
    · exact absurd h (hlog.not_mem (by simp))
    · cases List.mem_singleton.1 h
  · exact h

/-- What the second part of `translate_read_path_alloc` returns. -/
theorem sound_readLocal {e : Int} (hlog : OnlyMallocs log)
    (hlooks : ∀ log c, Looks log q c → op.allows log c) :
    Sound op.allows (fun log r => ∃ path, r = .ok path ∧ ReadChoice log q path)
      (missedLog log q e []) (readLocal q (complete q)) := by
  have hlooked : ∃ a, (HostCall.stat (complete q), a) ∈ log ++ [(.stat (complete q), .error e)] :=
    ⟨_, List.mem_append_right _ List.mem_cons_self⟩
  rw [missedLog, List.append_nil]
  refine sound_call (allows_free rfl) fun a => ?_
  cases a with
  | error e' =>
      -- no memory for the fallback: the writable path stays the choice
      refine sound_pure ⟨_, rfl, readChoice_primary hlooked (fun _ _ => .inl ⟨e', ?_⟩) ?_⟩
      · exact List.mem_append_right _ List.mem_cons_self
      · intro packaged mode _ hmem
        cases List.mem_singleton.1 (mem_more_of_stat_ok hlog hmem)
  | ok v =>
      show Sound op.allows _ _ (lookLocal (complete q) (findPackagedLocalFallback q pathMax))
      have hnone : (∀ packaged, findPackagedLocalFallback q pathMax ≠ (some packaged, true)) →
          ReadChoice (log ++ [(.stat (complete q), .error e)] ++ [(.malloc, .ok v)]) q
            (complete q) :=
        fun hnot => readChoice_primary hlooked (fun packaged h => absurd h.1 (hnot packaged))
          fun packaged _ h _ => absurd h (hnot packaged)
      rcases hfound : findPackagedLocalFallback q pathMax with ⟨_ | packaged, _ | _⟩
      · exact sound_pure ⟨_, rfl, hnone fun _ h => by cases hfound.symm.trans h⟩
      · exact sound_pure ⟨_, rfl, hnone fun _ h => by cases hfound.symm.trans h⟩
      · exact sound_pure ⟨_, rfl, hnone fun _ h => by cases hfound.symm.trans h⟩
      · have hpackaged : ∀ more, Packaged (missedLog log q e more) q packaged := fun more =>
          ⟨hfound, e, List.mem_append_left _ (List.mem_append_right _ List.mem_cons_self)⟩
        -- the packaged path is looked at, and it is the only one there is
        have honly : ∀ {other : Bytes}, findPackagedLocalFallback q pathMax = (some other, true) →
            other = packaged := by
          intro other h
          cases hfound.symm.trans h
          rfl
        refine sound_call (hlooks _ _ (Or.inr ⟨packaged, hpackaged _, rfl⟩)) fun a => ?_
        rw [List.append_assoc]
        have hstat : (HostCall.stat packaged, a) ∈ log ++ [(.stat (complete q), .error e)] ++
            ([(.malloc, .ok v)] ++ [(.stat packaged, a)]) :=
          List.mem_append_right _ (List.mem_append_right _ List.mem_cons_self)
        have hprimary : (∀ mode, a = .ok mode → sIsReg mode = false) →
            ReadChoice (log ++ [(.stat (complete q), .error e)] ++
              ([(.malloc, .ok v)] ++ [(.stat packaged, a)])) q (complete q) := by
          intro hnot
          refine readChoice_primary hlooked (fun other h => .inr ⟨a, ?_⟩)
            fun other mode h hmem => ?_
          · rw [honly h.1]
            exact hstat
          · have hmore := mem_more_of_stat_ok hlog hmem
            rw [List.singleton_append, List.mem_cons, List.mem_singleton] at hmore
            rcases hmore with hmore | hmore
            · cases hmore
            · exact hnot mode (Prod.mk.inj hmore).2.symm
        cases a with
        | error e' => exact sound_pure ⟨_, rfl, hprimary nofun⟩
        | ok mode =>
            show Sound op.allows _ _ (if sIsReg mode = true then _ else _)
            split
            · -- a regular file in the package is chosen, anything else is not
              rename_i hregular
              refine sound_pure ⟨_, rfl, ?_, fun other h => .inr ⟨.ok mode, ?_⟩,
                Or.inr ⟨hpackaged _, mode, hstat, hregular⟩⟩
              · exact hlooked.imp fun _ h => List.mem_append_left _ h
              · rw [honly h.1]
                exact hstat
            · rename_i hregular
              refine sound_pure ⟨_, rfl, hprimary ?_⟩
              rintro _ ⟨⟩
              exact Bool.eq_false_iff.2 hregular

/-- A choice is one of the paths that may be read. -/
theorem ReadChoice.readFrom (h : ReadChoice log q path) : ReadFrom log q path :=
  h.choice.imp And.left id

/-- What `translate_read_path_alloc` returns. -/
theorem sound_translateReadPathAlloc {p : Option Bytes} (hfits : ∀ q ∈ p, Fits q)
    (hmissing : p = none → op.missing)
    (hlooks : ∀ log c q, p = some q → Looks log q c → op.allows log c) :
    Sound op.allows (fun log r => (∀ e, r = .error e → op.Stops log (.error e)) ∧
      ∀ path, r = .ok path → ∃ q, p = some q ∧ ReadChoice log q path) []
      (translateReadPathAlloc p) := by
  refine sound_bind ((sound_translatePathAlloc hfits hmissing onlyMallocs_nil).weaken
    fun log r hr => ?_)
  cases r with
  | error e => exact sound_pure ⟨hr.1, nofun⟩
  | ok primary =>
      obtain ⟨hlog, q, rfl, rfl⟩ := hr.2 primary rfl
      refine sound_call (hlooks _ _ q rfl (Or.inl rfl)) fun a => ?_
      cases a with
      | ok v =>
          refine sound_pure ⟨nofun, ?_⟩
          rintro _ ⟨⟩
          exact ⟨q, rfl, readChoice_found hlog⟩
      | error e =>
          have hlocal := sound_readLocal (e := e) hlog fun log c => hlooks log c q rfl
          rw [missedLog, List.append_nil] at hlocal
          refine hlocal.weaken ?_
          rintro log _ ⟨path, rfl, hchoice⟩
          refine ⟨nofun, ?_⟩
          rintro _ ⟨⟩
          exact ⟨q, rfl, hchoice⟩

/-- No parent is left where there is no slash any more. -/
theorem not_parentOf {front scan parent : Bytes} (hscan : 47 ∉ scan)
    (hlonger : front.length ≤ parent.length) : ¬ ParentOf parent (front ++ scan) := by
  rintro ⟨-, -, hparent⟩
  obtain ⟨more, rfl⟩ := List.prefix_of_prefix_length_le (List.prefix_append front scan)
    ((List.prefix_append parent [47]).trans hparent) hlonger
  rw [List.append_assoc] at hparent
  exact hscan (((List.prefix_append_right_inj front).1 hparent).subset
    (List.mem_append_right _ List.mem_cons_self))

/-- A parent from the next slash on is the one before that slash, or a longer one. -/
theorem parentOf_cases {front s rest parent : Bytes} (hs : 47 ∉ s)
    (hlonger : front.length ≤ parent.length) (h : ParentOf parent (front ++ (s ++ 47 :: rest))) :
    parent = front ++ s ∨ (front ++ s ++ [47]).length ≤ parent.length := by
  obtain ⟨-, -, hparent⟩ := h
  obtain ⟨more, rfl⟩ := List.prefix_of_prefix_length_le (List.prefix_append front _)
    ((List.prefix_append parent [47]).trans hparent) hlonger
  rw [List.append_assoc] at hparent
  have hmore := (List.prefix_append_right_inj front).1 hparent
  rcases Nat.lt_or_ge s.length more.length with hlt | hle
  · refine Or.inr ?_
    simp only [List.length_append, List.length_singleton]
    omega
  · refine Or.inl ?_
    obtain ⟨tail, rfl⟩ := List.prefix_of_prefix_length_le
      ((List.prefix_append more [47]).trans hmore) (List.prefix_append s _) hle
    rw [List.append_assoc, List.prefix_append_right_inj] at hmore
    cases tail with
    | nil => rw [List.append_nil]
    | cons b tail =>
        obtain ⟨rfl, -⟩ := List.cons_prefix_cons.1 hmore
        exact absurd (List.mem_append_right _ List.mem_cons_self) hs

/-- The loop makes the parents of the path from the one at `front` on, by induction on the turns. -/
theorem sound_makeParents (hq : q ∈ op.paths) (hcache : unityCacheDir <+: complete q) (turns : Nat)
    {front scan : Bytes} (hpath : complete q = front ++ scan)
    (hfront : dataRoot.length < front.length)
    (hturns : scan.length ≤ turns)
    (hparents : ∀ log parent, ParentOf parent (complete q) → op.allows log (.mkdir parent 0o777))
    (hmade : ∀ parent, ParentOf parent (complete q) → parent.length < front.length →
      ∃ a, (HostCall.mkdir parent 0o777, a) ∈ log ∧ (a = .error eexist ∨ ∃ v, a = .ok v)) :
    Sound op.allows (fun log r => (∀ e, r = .error e → op.Stops log (.error e)) ∧
      ∀ u, r = .ok u → ParentsMade log (complete q)) log (makeParents turns front scan) := by
  have hlast : 47 ∉ scan → ParentsMade log (complete q) := by
    intro hscan parent hparent
    refine hmade parent hparent (Nat.lt_of_not_le fun hlonger => ?_)
    exact not_parentOf hscan hlonger (hpath ▸ hparent)
  induction turns generalizing front scan log with
  | zero =>
      obtain rfl : scan = [] := List.length_eq_zero_iff.1 (Nat.le_zero.1 hturns)
      exact sound_pure ⟨nofun, fun _ _ => hlast List.not_mem_nil⟩
  | succ turns ih =>
      rw [makeParents]
      by_cases hslash : 47 ∈ scan
      case neg =>
        rw [strchr_none.2 hslash]
        exact sound_pure ⟨nofun, fun _ _ => hlast hslash⟩
      case pos =>
        clear hlast
        obtain ⟨s, rest, rfl, hs⟩ := List.eq_append_cons_of_mem hslash
        have htake : (s ++ 47 :: rest).take ((s ++ 47 :: rest).length - (47 :: rest).length) =
            s := by
          rw [List.length_append, Nat.add_sub_cancel, List.take_left]
        have hnext : complete q = front ++ s ++ [47] ++ rest := by
          rw [hpath, List.append_assoc, List.append_assoc]
          rfl
        have hlonger : dataRoot.length < (front ++ s ++ [47]).length := by
          rw [List.length_append, List.length_append]
          omega
        have hparent : ParentOf (front ++ s) (complete q) := by
          refine ⟨hcache, ?_, ?_⟩
          · rw [List.length_append]
            omega
          · rw [hnext]
            exact List.prefix_append _ _
        have hless : rest.length ≤ turns := by
          rw [List.length_append, List.length_cons] at hturns
          omega
        -- what has been made once the parent before this slash has
        have hmade' : ∀ a : Answer, (a = .error eexist ∨ ∃ v, a = .ok v) → ∀ parent,
            ParentOf parent (complete q) → parent.length < (front ++ s ++ [47]).length →
            ∃ a', (HostCall.mkdir parent 0o777, a') ∈ log ++ [(.mkdir (front ++ s) 0o777, a)] ∧
              (a' = .error eexist ∨ ∃ v, a' = .ok v) := by
          intro a ha parent h hlt
          by_cases hbefore : parent.length < front.length
          case pos =>
            obtain ⟨a', hmem, ha'⟩ := hmade parent h hbefore
            exact ⟨a', List.mem_append_left _ hmem, ha'⟩
          case neg =>
            obtain rfl : parent = front ++ s :=
              (parentOf_cases hs (Nat.le_of_not_lt hbefore) (hpath ▸ h)).resolve_right
                (Nat.not_le.2 hlt)
            exact ⟨a, List.mem_append_right _ List.mem_cons_self, ha⟩
        have hend : ∀ a : Answer, (a = .error eexist ∨ ∃ v, a = .ok v) → 47 ∉ rest →
            ParentsMade (log ++ [(.mkdir (front ++ s) 0o777, a)]) (complete q) := by
          intro a ha hrest parent h
          refine hmade' a ha parent h (Nat.lt_of_not_le fun hlonger => ?_)
          exact not_parentOf hrest hlonger (hnext ▸ h)
        rw [strchr_append hs]
        dsimp only
        rw [htake, List.tail_cons]
        refine sound_call (hparents _ _ hparent) fun a => ?_
        cases a with
        | ok v => exact ih hnext hlonger hless (hmade' _ (.inr ⟨v, rfl⟩)) (hend _ (.inr ⟨v, rfl⟩))
        | error e =>
            show Sound op.allows _ _ (if e ≠ eexist then _ else _)
            split
            · rename_i he
              refine sound_pure ⟨?_, nofun⟩
              rintro _ ⟨⟩
              exact .parent hq hparent he
            · rename_i he
              obtain rfl := not_not.1 he
              exact ih hnext hlonger hless (hmade' _ (.inl rfl)) (hend _ (.inl rfl))

/-- `ensure_unity_cache_parents` makes all parents, or the operation stops. -/
theorem sound_ensureUnityCacheParents (hq : q ∈ op.paths) (hlog : OnlyMallocs log)
    (hparents : ∀ log parent, ParentOf parent (complete q) → op.allows log (.mkdir parent 0o777)) :
    Sound op.allows (fun log r => (∀ e, r = .error e → op.Stops log (.error e)) ∧
      ∀ u, r = .ok u → ParentsMade log (complete q)) log
        (ensureUnityCacheParents (complete q)) := by
  unfold ensureUnityCacheParents
  split
  · rename_i hcache
    exact sound_pure ⟨nofun, fun _ _ parent hparent => absurd hparent.1 hcache⟩
  · rename_i hcache
    have hcache := not_not.1 hcache
    refine sound_call (allows_free rfl) fun a => ?_
    cases a with
    | error e =>
        refine sound_pure ⟨?_, nofun⟩
        rintro _ ⟨⟩
        exact .memory hlog
    | ok v =>
        have hlength := hcache.length_le
        have hdir : dataRoot.length < unityCacheDir.length := by decide
        have hfront : ((complete q).take (dataRoot.length + 1)).length = dataRoot.length + 1 := by
          rw [List.length_take]
          omega
        refine sound_makeParents hq hcache _ (List.take_append_drop _ _).symm (by omega)
          (by rw [List.length_drop]; omega) hparents fun parent hparent hlt => ?_
        have hlonger := hparent.2.1
        omega

/-- Looking for a slot takes no path, and finds one that is open. -/
theorem sound_unitycacheFind (slots : List (Entry Fd Bytes)) :
    Sound op.allows (fun log' fd => ∃ looked, log' = log ++ looked ∧ Pathless looked ∧
      (0 ≤ fd → ∃ slot ∈ slots, slot = ⟨fd, some path⟩ ∧
        ∃ v, (HostCall.fstat fd, Except.ok v) ∈ looked) ∧
      (fd < 0 → ∀ fd' v, (HostCall.fstat fd', Except.ok v) ∈ looked → fd' < 0)) log
      (unitycacheFind path slots) := by
  induction slots generalizing log with
  | nil =>
      refine sound_pure ⟨[], (List.append_nil _).symm, fun _ h => absurd h List.not_mem_nil, ?_, ?_⟩
      · intro hpos
        cases hpos
      · intro _ _ _ hmem
        cases hmem
  | cons slot slots ih =>
      rw [unitycacheFind]
      split
      · refine ih.weaken ?_
        rintro log' fd ⟨looked, hlog', hpathless, hfound, hnone⟩
        refine ⟨looked, hlog', hpathless, fun hpos => ?_, hnone⟩
        obtain ⟨slot', hmem, hrest⟩ := hfound hpos
        exact ⟨slot', List.mem_cons_of_mem _ hmem, hrest⟩
      · rename_i hvalue
        refine sound_call (allows_free rfl) fun a => ?_
        cases a with
        | ok v =>
            refine sound_pure ⟨[(.fstat slot.key, .ok v)], rfl,
              pathless_cons rfl fun _ h => absurd h List.not_mem_nil, fun hpos => ?_, ?_⟩
            · refine ⟨slot, List.mem_cons_self, ?_, v, List.mem_cons_self⟩
              rw [← not_not.1 hvalue]
            · intro hneg fd' v' hmem
              cases List.mem_singleton.1 hmem
              exact hneg
        | error e =>
            refine ih.weaken ?_
            rintro log' fd ⟨looked, rfl, hpathless, hfound, hnone⟩
            refine ⟨(.fstat slot.key, .error e) :: looked, by rw [List.append_assoc]; rfl,
              pathless_cons rfl hpathless, fun hpos => ?_, fun hneg fd' v' hmem => ?_⟩
            · obtain ⟨slot', hmem, heq, v, hv⟩ := hfound hpos
              exact ⟨slot', List.mem_cons_of_mem _ hmem, heq, v, List.mem_cons_of_mem _ hv⟩
            · rcases List.mem_cons.1 hmem with heq | hmem
              · cases heq
              · exact hnone hneg fd' v' hmem

end Paths

/-! ## The operations -/

section Operations

variable {t : Tables} {op : FileOp} {log : Log} {q path : Bytes}

/-- An operation that stops. -/
theorem sound_stops {e : Int} (h : op.Stops log (.error e)) :
    Sound op.allows (op.Ends t) log (pure (.error e)) := sound_pure (.stopped h)

/-- The last call of an operation. -/
theorem sound_last {c : HostCall} (hallowed : op.allows log c) (h : op.made t log c) :
    Sound op.allows (op.Ends t) log (Program.ask c) :=
  sound_ask hallowed fun _ => .called h (fun _ h => absurd h List.not_mem_nil) fun _ => ⟨rfl, rfl⟩

/-- What an operation does with the translation of its path. -/
theorem sound_translated {p : Option Bytes} {f : Bytes → Bridge Answer} (hfits : ∀ q ∈ p, Fits q)
    (hmissing : p = none → op.missing) (hlog : OnlyMallocs log)
    (h : ∀ q log, p = some q → OnlyMallocs log →
      Sound op.allows (op.Ends t) log (f (complete q))) :
    Sound op.allows (op.Ends t) log (do
      match ← translatePathAlloc p with
      | .error e => pure (.error e)
      | .ok r => f r) := by
  refine sound_bind ((sound_translatePathAlloc hfits hmissing hlog).weaken fun log r hr => ?_)
  cases r with
  | error e => exact sound_stops (hr.1 e rfl)
  | ok path =>
      obtain ⟨hlog, q, hq, rfl⟩ := hr.2 path rfl
      exact h q log hq hlog

/-- What an operation that makes parents does. -/
theorem sound_withParents {f : Bridge Answer} (hq : q ∈ op.paths) (hlog : OnlyMallocs log)
    (hparents : ∀ log parent, ParentOf parent (complete q) → op.allows log (.mkdir parent 0o777))
    (h : ∀ log, ParentsMade log (complete q) → Sound op.allows (op.Ends t) log f) :
    Sound op.allows (op.Ends t) log (do
      match ← ensureUnityCacheParents (complete q) with
      | .error e => pure (.error e)
      | .ok _ => f) := by
  refine sound_bind ((sound_ensureUnityCacheParents hq hlog hparents).weaken fun log r hr => ?_)
  cases r with
  | error e => exact sound_stops (hr.1 e rfl)
  | ok u => exact h log (hr.2 u rfl)

/-- What comes after a call that has failed makes no call with a path. -/
theorem sound_after {p : Bridge Answer} {c : HostCall} {e : Int} (h : op.made t log c)
    (hrecovers : op.recovers = true)
    (hp : Sound op.allows (fun log' _ => ∃ after, log' = log ++ [(c, .error e)] ++ after ∧
      Pathless after)
      (log ++ [(c, .error e)] ++ []) p) :
    Sound op.allows (op.Ends t) (log ++ [(c, .error e)]) p := by
  rw [List.append_nil] at hp
  refine hp.weaken ?_
  rintro _ r ⟨after, rfl, hafter⟩
  rw [List.append_assoc]
  refine .called h hafter ?_
  rintro (hnot | ⟨v, hv⟩)
  · rw [hrecovers] at hnot
    cases hnot
  · cases hv

/-- Calls without a path, and what they return. -/
theorem sound_pathless {start : Log} {α : Type} (v : α) {after : Log} (hlog : log = start ++ after)
    (h : Pathless after) : Sound op.allows (fun log' _ => ∃ after, log' = start ++ after ∧
      Pathless after)
      log (pure v : Bridge α) := sound_pure ⟨after, hlog, h⟩

theorem pathless_append {first second : Log} (h : Pathless first) (h' : Pathless second) :
    Pathless (first ++ second) := fun x hx => (List.mem_append.1 hx).elim (h x) (h' x)

theorem pathless_snoc {after : Log} {c : HostCall} {a : Answer} (h : Pathless after)
    (hc : c.paths = []) : Pathless (after ++ [(c, a)]) :=
  pathless_append h (pathless_cons hc fun _ h => absurd h List.not_mem_nil)

/-- One more call without a path. -/
theorem sound_call_pathless {start after : Log} {α : Type} {c : HostCall} {f : Answer → Bridge α}
    (hc : c.paths = []) (hafter : Pathless after)
    (h : ∀ a after, Pathless after →
      Sound op.allows (fun log' _ => ∃ after, log' = start ++ after ∧ Pathless after)
        (start ++ after) (f a)) :
    Sound op.allows (fun log' _ => ∃ after, log' = start ++ after ∧ Pathless after) (start ++ after)
      (Program.ask c >>= f) := by
  refine sound_call (allows_free hc) fun a => ?_
  rw [List.append_assoc]
  exact h a _ (pathless_snoc hafter hc)

theorem sound_shareLock {start after : Log} (hafter : Pathless after) (truncates : Bool) (e : Int) :
    Sound op.allows (fun log' _ => ∃ after, log' = start ++ after ∧ Pathless after) (start ++ after)
      (shareLock t path truncates e) := by
  refine sound_bind ((sound_unitycacheFind _).weaken ?_)
  rintro _ existing ⟨looked, rfl, hlooked, -, -⟩
  have hafter := pathless_append hafter hlooked
  rw [List.append_assoc]
  split
  · exact sound_pathless _ rfl hafter
  refine sound_call_pathless rfl hafter fun a after hafter => ?_
  cases a with
  | error e => exact sound_pathless _ rfl hafter
  | ok shared =>
      show Sound op.allows _ _ (if truncates = true then _ else _)
      split
      · refine sound_call_pathless rfl hafter fun a after hafter => ?_
        cases a with
        | ok v => exact sound_pathless _ rfl hafter
        | error compatE =>
            exact sound_call_pathless rfl hafter fun _ _ hafter => sound_pathless _ rfl hafter
      · exact sound_pathless _ rfl hafter

/-- `file_open` from the call of `open` on. -/
theorem sound_openResolved {flags : UInt32} {mode : Nat} (hrecovers : op.recovers = true)
    (hallowed : op.allows log (.openFile path (hostFlags flags path) (hostMode flags mode)))
    (h : op.made t log (.openFile path (hostFlags flags path) (hostMode flags mode))) :
    Sound op.allows (op.Ends t) log (openResolved t flags mode path) := by
  refine sound_call hallowed fun a => ?_
  cases a with
  | ok fd => exact sound_pure (.called h (fun _ h => absurd h List.not_mem_nil) fun _ => ⟨rfl, rfl⟩)
  | error e =>
      refine sound_after h hrecovers ?_
      refine sound_call_pathless rfl (fun _ h => absurd h List.not_mem_nil) fun a after hafter => ?_
      cases a with
      | error e => exact sound_pathless _ rfl hafter
      | ok nxrc =>
          show Sound op.allows _ _ (if _ then _ else _)
          split
          · exact sound_shareLock hafter _ _
          · exact sound_pathless _ rfl hafter

/-- `file_open` on a file that is read. -/
theorem sound_fileOpen_read {p : Option Bytes} {flags : UInt32} (mode : Nat)
    (hreads : readsOnly flags = true) (hfits : ∀ q ∈ p, Fits q) :
    Sound (FileOp.fileOpen p flags mode).allows ((FileOp.fileOpen p flags mode).Ends t) []
      (fileOpen t p flags mode) := by
  have hcreat : ¬ flags &&& 0o100 ≠ 0 := not_not.2 (of_decide_eq_true hreads).2
  have hallows : ∀ {log q path}, p = some q → ReadFrom log q path →
      (FileOp.fileOpen p flags mode).allows log
        (.openFile path (hostFlags flags path) (hostMode flags mode)) := by
    intro log q path hq hread
    refine Or.inr ⟨q, hq, ?_⟩
    rw [if_pos hreads]
    exact Or.inr ⟨path, hread, rfl⟩
  unfold fileOpen
  rw [if_pos hreads]
  refine sound_bind ((sound_translateReadPathAlloc hfits id ?_).weaken fun log r hr => ?_)
  · intro log c q hq hlooks
    refine Or.inr ⟨q, hq, ?_⟩
    rw [if_pos hreads]
    exact Or.inl hlooks
  · cases r with
    | error e => exact sound_stops (hr.1 e rfl)
    | ok path =>
        obtain ⟨q, hq, hchoice⟩ := hr.2 path rfl
        show Sound _ _ _ (if flags &&& 0o100 ≠ 0 then _ else _)
        rw [if_neg hcreat]
        refine sound_openResolved rfl (hallows hq hchoice.readFrom) ⟨q, path, hq, ?_, ?_, rfl⟩
        · rwa [if_pos hreads]
        · exact fun h => absurd h hcreat

/-- `file_open` on a file that is written or created. -/
theorem sound_fileOpen_write {p : Option Bytes} {flags : UInt32} (mode : Nat)
    (hreads : ¬ readsOnly flags = true) (hfits : ∀ q ∈ p, Fits q) :
    Sound (FileOp.fileOpen p flags mode).allows ((FileOp.fileOpen p flags mode).Ends t) []
      (fileOpen t p flags mode) := by
  unfold fileOpen
  rw [if_neg hreads]
  refine sound_translated hfits id onlyMallocs_nil fun q log hq hlog => ?_
  have hopen : ∀ log, (flags &&& 0o100 ≠ 0 → ParentsMade log (complete q)) →
      Sound (FileOp.fileOpen p flags mode).allows ((FileOp.fileOpen p flags mode).Ends t) log
        (openResolved t flags mode (complete q)) := by
    intro log hmade
    refine sound_openResolved rfl (Or.inr ⟨q, hq, ?_⟩) ⟨q, _, hq, ?_, hmade, rfl⟩
    · rw [if_neg hreads]
      exact Or.inr rfl
    · rw [if_neg hreads]
  by_cases hcreat : flags &&& 0o100 ≠ 0
  case neg =>
    rw [if_neg hcreat]
    exact hopen log fun h => absurd h hcreat
  case pos =>
    rw [if_pos hcreat]
    refine sound_withParents (Option.mem_toList.2 hq) hlog ?_ fun log hmade =>
      hopen log fun _ => hmade
    intro log parent hparent
    refine Or.inr ⟨q, hq, ?_⟩
    rw [if_neg hreads]
    exact Or.inl ⟨hcreat, parent, hparent, rfl⟩

theorem sound_fileStat {p : Option Bytes} (hfits : ∀ q ∈ p, Fits q) :
    Sound (FileOp.fileStat p).allows ((FileOp.fileStat p).Ends t) [] (fileStat t p) := by
  have hlooks : ∀ log c q, p = some q → Looks log q c → (FileOp.fileStat p).allows log c :=
    fun log c q hq hlooks => Or.inr ⟨q, hq, Or.inl hlooks⟩
  have hnil : Pathless [] := fun _ h => absurd h List.not_mem_nil
  refine sound_bind ((sound_translateReadPathAlloc hfits id hlooks).weaken fun log r hr => ?_)
  cases r with
  | error e => exact sound_stops (hr.1 e rfl)
  | ok path =>
      obtain ⟨q, hq, hchoice⟩ := hr.2 path rfl
      have hmade : (FileOp.fileStat p).made t log (.stat path) := ⟨q, path, hq, hchoice, rfl⟩
      refine sound_call (Or.inr ⟨q, hq, Or.inr ⟨path, hchoice.readFrom, rfl⟩⟩) fun a => ?_
      cases a with
      | ok mode => exact sound_pure (.called hmade hnil fun _ => ⟨rfl, rfl⟩)
      | error e =>
          refine sound_after hmade rfl ?_
          show Sound _ _ _ (if _ then _ else _)
          split
          · refine sound_call_pathless rfl hnil fun a after hafter => ?_
            cases a with
            | error e => exact sound_pathless _ rfl hafter
            | ok probe =>
                refine sound_call_pathless rfl hafter fun r after hafter => ?_
                exact sound_call_pathless rfl hafter fun _ _ hafter => sound_pathless _ rfl hafter
          · exact sound_pathless _ rfl hnil

theorem sound_fileTruncate {p : Option Bytes} {length : Int} (hfits : ∀ q ∈ p, Fits q) :
    Sound (FileOp.fileTruncate p length).allows ((FileOp.fileTruncate p length).Ends t) []
      (fileTruncate t p length) := by
  unfold fileTruncate
  split
  · rename_i hinvalid
    exact sound_stops (.invalid rfl hinvalid)
  rename_i hvalid
  have hlength : 0 ≤ length := Int.not_lt.1 fun hneg => hvalid (Or.inr hneg)
  refine sound_translated hfits (fun hnone => hvalid (Or.inl hnone)) onlyMallocs_nil
    fun q log hq hlog => ?_
  have hallows : ∀ log, (FileOp.fileTruncate p length).allows log (.truncate (complete q) length) :=
    fun log => Or.inr ⟨q, hq, rfl⟩
  split
  · rename_i hdata
    refine sound_bind ((sound_unitycacheFind _).weaken ?_)
    rintro _ existing ⟨looked, rfl, -, hfound, hnone⟩
    split
    · rename_i hpos
      obtain ⟨slot, hslot, rfl, v, hv⟩ := hfound hpos
      refine sound_last (Or.inl rfl)
        ⟨q, hq, hlength, Or.inr ⟨existing, ⟨hdata, hpos, ?_, v, ?_⟩, rfl⟩⟩
      · exact List.mem_ofFn.1 hslot
      · exact List.mem_append_right _ hv
    · rename_i hneg
      refine sound_last (hallows _) ⟨q, hq, hlength, Or.inl ⟨rfl, ?_⟩⟩
      rintro fd ⟨-, hpos, -, v, hv⟩
      rcases List.mem_append.1 hv with hv | hv
      · exact hlog.not_mem (by simp) hv
      · exact Int.not_lt.2 hpos (hnone (Int.not_le.1 hneg) fd v hv)
  · rename_i hdata
    exact sound_last (hallows _) ⟨q, hq, hlength, Or.inl ⟨rfl, fun fd h => hdata h.1⟩⟩

theorem sound_fileMkdir {p : Option Bytes} {mode : Nat} (hfits : ∀ q ∈ p, Fits q) :
    Sound (FileOp.fileMkdir p mode).allows ((FileOp.fileMkdir p mode).Ends t) []
      (fileMkdir p mode) := by
  refine sound_translated hfits id onlyMallocs_nil fun q log hq hlog => ?_
  refine sound_withParents (Option.mem_toList.2 hq) hlog ?_ fun log hmade => ?_
  · exact fun log parent hparent => Or.inr ⟨q, hq, Or.inl ⟨parent, hparent, rfl⟩⟩
  · exact sound_last (Or.inr ⟨q, hq, Or.inr rfl⟩) ⟨q, hq, hmade, rfl⟩

theorem sound_fileRename {a b0 : Option Bytes} (ha : ∀ q ∈ a, Fits q) (hb : ∀ q ∈ b0, Fits q) :
    Sound (FileOp.fileRename a b0).allows ((FileOp.fileRename a b0).Ends t) []
      (fileRename a b0) := by
  refine sound_translated ha Or.inl onlyMallocs_nil fun q log hq hlog => ?_
  refine sound_translated hb Or.inr hlog fun r log hr hlog => ?_
  exact sound_last (Or.inr ⟨q, r, hq, hr, rfl⟩) ⟨q, r, hq, hr, rfl⟩

/-- An operation on paths whose translations fit, one case for each function. -/
theorem sound_run (op : FileOp) (hfits : ∀ p ∈ op.paths, Fits p) :
    Sound op.allows (op.Ends t) [] (op.run t) := by
  cases op with
  | fileOpen p flags mode =>
      have hp : ∀ q ∈ p, Fits q := fun q hq => hfits q (Option.mem_toList.2 hq)
      by_cases hreads : readsOnly flags = true
      case pos => exact sound_fileOpen_read mode hreads hp
      case neg => exact sound_fileOpen_write mode hreads hp
  | fileStat p => exact sound_fileStat fun q hq => hfits q (Option.mem_toList.2 hq)
  | fileTruncate p length => exact sound_fileTruncate fun q hq => hfits q (Option.mem_toList.2 hq)
  | fileMkdir p mode => exact sound_fileMkdir fun q hq => hfits q (Option.mem_toList.2 hq)
  | fileUnlink p | fileRemove p =>
      exact sound_translated (fun q hq => hfits q (Option.mem_toList.2 hq)) id onlyMallocs_nil
        fun q log hq _ => sound_last (Or.inr ⟨q, hq, rfl⟩) ⟨q, hq, rfl⟩
  | fileRename a b0 =>
      exact sound_fileRename
        (fun q hq => hfits q (List.mem_append_left _ (Option.mem_toList.2 hq)))
        fun q hq => hfits q (List.mem_append_right _ (Option.mem_toList.2 hq))

end Operations

/-- Where the translations of its paths fit, an operation gives the host no other paths: in every
run each call is one that it may make after those before it. And it gives the host those: it makes
the call that it is for, unless it stops for a reason that the host has given, and returns what
that call does. -/
theorem operations_complete {t : Tables} {op : FileOp} (hfits : ∀ p ∈ op.paths, Fits p) {log : Log}
    {r : Answer} (h : Runs (op.run t) log r) :
    (∀ before c a after, log = before ++ (c, a) :: after → op.allows before c) ∧ op.Ends t log r :=
  (sound_run op hfits).run h

/-- Tables in which nothing is noted. -/
def emptyTables : Tables :=
  { gUnitycacheLockSlots := fun _ => ⟨-1, none⟩, gUnitycacheDataSlots := fun _ => ⟨-1, none⟩ }

/-- An asset is unlinked. -/
theorem operations_complete_unlink :
    (FileOp.fileUnlink (some (bytes "/assets/x"))).allows [(HostCall.malloc, .ok 0)]
      (.unlink (dataRoot ++ bytes "/assets/x")) ∧
    (FileOp.fileUnlink (some (bytes "/assets/x"))).Ends emptyTables
      [(.malloc, .ok 0), (.unlink (dataRoot ++ bytes "/assets/x"), .ok 0)] (.ok 0) :=
  have hruns : Runs (FileOp.run emptyTables (.fileUnlink (some (bytes "/assets/x"))))
      [(.malloc, .ok 0), (.unlink (dataRoot ++ bytes "/assets/x"), .ok 0)] (.ok 0) :=
    Runs.call _ _ (Runs.call _ _ (Runs.ret _))
  have hcomplete := operations_complete (by decide) hruns
  ⟨hcomplete.1 [(.malloc, .ok 0)] _ _ [] rfl, hcomplete.2⟩

/-- A file among the downloads. -/
def download : Bytes := downloadedDir ++ bytes "x"

/-- A path that is too long. -/
def longName : Bytes := List.replicate 1100 97

theorem download_found :
    findPackagedLocalFallback download pathMax = (some (localPath (bytes "x")), true) := by
  decide +kernel

/-- A packaged file is read. -/
theorem download_runs : Runs (FileOp.run emptyTables (.fileStat (some download)))
    [(.malloc, .ok 0), (.stat ((fileTranslate download pathMax).1.getD []), .error 2),
      (.malloc, .ok 0), (.stat (localPath (bytes "x")), .ok 0x81a4),
      (.stat (localPath (bytes "x")), .ok 0x81a4)] (.ok 0x81a4) := by
  have hlocal : Runs (readLocal download ((fileTranslate download pathMax).1.getD []))
      [(.malloc, .ok 0), (.stat (localPath (bytes "x")), .ok 0x81a4)]
      (.ok (localPath (bytes "x"))) := by
    refine Runs.call _ _ ?_
    show Runs (lookLocal _ (findPackagedLocalFallback download pathMax)) _ _
    rw [download_found]
    exact Runs.call _ _ (Runs.ret _)
  have hresolved : Runs (translateReadPathAlloc (some download))
      [(.malloc, .ok 0), (.stat ((fileTranslate download pathMax).1.getD []), .error 2),
        (.malloc, .ok 0), (.stat (localPath (bytes "x")), .ok 0x81a4)]
      (.ok (localPath (bytes "x"))) := Runs.call _ _ (Runs.call _ _ hlocal)
  exact hresolved.andThen (Runs.call _ _ (Runs.ret _))

/-- A packaged file is not at the translation, and a translation that is too long is cut. -/
theorem operations_elsewhere :
    (¬ ∀ (t : Tables) (op : FileOp) (log : Log) (r : Answer), (∀ p ∈ op.paths, Fits p) →
      Runs (op.run t) log r → ∀ c a, (c, a) ∈ log → ∀ path ∈ c.paths, ∃ p ∈ op.paths,
        path = complete p) ∧
    ¬ ∀ (t : Tables) (op : FileOp) (log : Log) (r : Answer), (∃ p ∈ op.paths, ¬ Fits p) →
      Runs (op.run t) log r → ∀ c a, (c, a) ∈ log → c.paths = [] := by
  constructor
  · intro h
    obtain ⟨p, hp, hpath⟩ := h emptyTables (.fileStat (some download)) _ _ (by decide +kernel)
      download_runs (.stat (localPath (bytes "x"))) (.ok 0x81a4) (by simp) _ List.mem_cons_self
    obtain rfl : p = download := List.mem_singleton.1 hp
    have hother : localPath (bytes "x") ≠ complete download := by decide +kernel
    exact hother hpath
  · intro h
    have hlong : ∃ p ∈ (FileOp.fileUnlink (some longName)).paths, ¬ Fits p :=
      ⟨longName, List.mem_cons_self, by decide +kernel⟩
    have hruns : Runs (FileOp.run emptyTables (.fileUnlink (some longName)))
        [(.malloc, .ok 0), (.unlink ((fileTranslate longName pathMax).1.getD []), .ok 0)] (.ok 0) :=
      Runs.call _ _ (Runs.call _ _ (Runs.ret _))
    have hpaths := h emptyTables _ _ _ hlong hruns _ _ (List.mem_cons_of_mem _ List.mem_cons_self)
    exact List.cons_ne_nil _ _ hpaths

end Asnx.FileBridge
