import Asnx.FakeFd.Readiness
import Asnx.FakeFd.Waiting

/-!
# Reads and writes with their waits

What a `fakefd_read` or `fakefd_write` does from its beginning to its end, and what its caller does
then. Other threads act only while it waits, and may leave any table for it then: a call goes
through the tables in which it is woken (`callThen`). Between two waits a call has one section
(`callThen_read`, `callThen_write`).
-/

namespace Asnx.FakeFd

open RingBuffer

/-! ## Courses -/

/-- How far a call gets. -/
inductive Ending where
  | fails (e : Option Errno)
  | value (v : Int)
  | waits
  deriving DecidableEq

/-- The bytes that a call has moved, the table behind it, and how it ends. -/
structure Effect where
  bytes : List UInt8
  state : FdState
  ending : Ending

/-- The course of a call: for each wait that it has left, the bytes that it had moved since the one
before and the table that it left for the wait, and then what it has done since. -/
structure Course where
  waits : List (List UInt8 × FdState)
  last : Effect

/-- A value with the `errno` of a failure. -/
def Ret.ending : Ret → Ending
  | .fail e => .fails e
  | r => .value r.toInt

/-- A call that is not at its end waits. -/
def Pc.ending : Pc → Ending
  | .finished r => r.ending
  | _ => .waits

/-- The end of a call. -/
def ended (s : FdState) (e : Ending) : Option Course := some ⟨[], [], s, e⟩

/-- Bytes that are moved before the rest of a course, without a wait between. -/
def Course.behind (bytes : List UInt8) : Course → Course
  | ⟨[], e⟩ => ⟨[], { e with bytes := bytes ++ e.bytes }⟩
  | ⟨(first, s) :: waits, e⟩ => ⟨(bytes ++ first, s) :: waits, e⟩

/-- A wait before the rest of a course. -/
def Course.wait (bytes : List UInt8) (s : FdState) (c : Course) : Course :=
  ⟨(bytes, s) :: c.waits, c.last⟩

/-- A course with a wait. -/
def Course.Waited (c : Course) : Prop := c.waits ≠ [] ∨ c.last.ending = .waits

/-- What the caller of a call does, from how the call has ended. -/
abbrev Caller := Ending → FdState → List FdState → Option Course

/-- A call on its own. -/
def finish : Caller := fun e s _ => ended s e

/-- A call from some point on, over the tables in which it is woken, and then its caller. When
there are none left, it still waits. -/
def callThen (k : Caller) : Pc → FdState → List FdState → Option Course
  | .finished r, s, ws => k r.ending s ws
  | l, s, ws =>
      match sectionAt s none l with
      | none => none
      | some (io, s, l) =>
          match l.ending, ws with
          | .waits, [] => some ⟨[], io.moved, s, .waits⟩
          | .waits, w :: ws => (callThen k l w ws).map (.wait io.moved s)
          | e, ws => (k e s ws).map (.behind io.moved)

/-- Bytes as the source of a write. -/
def Source.ofBytes (bytes : List UInt8) : Source := ⟨fun k => bytes.getD k 0, bytes.length⟩

/-- `fakefd_read` into a buffer of `count` bytes. -/
def readThen (k : Caller) (fd : Int) (count : Nat) : FdState → List FdState → Option Course :=
  callThen k (enter (.read fd false count))

/-- `fakefd_write` -/
def writeThen (k : Caller) (fd : Int) (bytes : List UInt8) : FdState → List FdState →
    Option Course :=
  callThen k (enter (.write fd false (.ofBytes bytes)))

/-- `total?total:-1` -/
def failed (total : Int) (e : Option Errno) : Ending := if total ≠ 0 then .value total else .fails e

/-- What follows on a section that has this effect, where `wake` says how the call goes on in a
table in which it is woken. -/
def goOn (k : Caller) (wake : FdState → List FdState → Option Course) (e : Effect)
    (ws : List FdState) : Option Course :=
  match e.ending, ws with
  | .waits, [] => some ⟨[], e⟩
  | .waits, w :: ws => (wake w ws).map (.wait e.bytes e.state)
  | ending, ws => (k ending e.state ws).map (.behind e.bytes)

/-- The slot points at the pipe only while the pipe is live, with its ring within the buffer. -/
def Backed (slot : Fin fakeFdCount) (p : Nat) (s : FdState) : Prop :=
  (s.gFds slot).pipe = some p → ∃ ps, s.heap p = some ps ∧ ps.Ok

variable {s s' : FdState} {slot : Fin fakeFdCount} {kind : FakeFdKind} {p n : Nat} {ps : PipeState}
  {l l' : Pc} {io : Io} {k : Caller} {wake wake' : FdState → List FdState → Option Course}
  {e : Effect} {w : FdState} {ws : List FdState} {bytes : List UInt8}

/-! ## Small facts -/

@[simp] theorem behind_nil (c : Course) : c.behind [] = c := by
  obtain ⟨waits, e⟩ := c
  cases waits <;> rfl

theorem behind_behind (a b : List UInt8) (c : Course) : (c.behind b).behind a =
    c.behind (a ++ b) := by
  obtain ⟨waits, e⟩ := c
  cases waits with
  | nil => simp [Course.behind]
  | cons first waits => simp [Course.behind]

theorem map_behind (a b : List UInt8) (o : Option Course) :
    (o.map (Course.behind b)).map (Course.behind a) = o.map (Course.behind (a ++ b)) := by
  cases o with
  | none => rfl
  | some c => exact congrArg some (behind_behind a b c)

theorem map_behind_nil (o : Option Course) : o.map (Course.behind []) = o := by
  cases o with
  | none => rfl
  | some c => exact congrArg some (behind_nil c)

theorem map_behind_inj {o o' : Option Course} :
    o.map (Course.behind bytes) = o'.map (Course.behind bytes) ↔ o = o' := by
  refine (Option.map_injective ?_).eq_iff
  rintro ⟨waits, e⟩ ⟨waits', e'⟩ heq
  cases waits with
  | nil =>
      cases waits' with
      | nil =>
          obtain ⟨a, s, ending⟩ := e
          obtain ⟨a', s', ending'⟩ := e'
          simpa [Course.behind] using heq
      | cons => simp [Course.behind] at heq
  | cons first waits =>
      cases waits' with
      | nil => simp [Course.behind] at heq
      | cons first' waits' =>
          obtain ⟨a, s⟩ := first
          obtain ⟨a', s'⟩ := first'
          simpa [Course.behind] using heq

theorem map_wait_inj {o o' : Option Course} :
    o.map (Course.wait bytes s) = o'.map (Course.wait bytes s) ↔ o = o' := by
  refine (Option.map_injective ?_).eq_iff
  rintro ⟨waits, e⟩ ⟨waits', e'⟩ heq
  simpa [Course.wait] using heq

theorem Course.Waited.behind {c : Course} (h : c.Waited) : (c.behind bytes).Waited := by
  obtain ⟨waits, e⟩ := c
  cases waits with
  | nil => exact .inr (h.resolve_left (not_not_intro rfl))
  | cons first waits => exact .inl (List.cons_ne_nil _ _)

theorem value_ne_waits (v : Int) : Ending.value v ≠ .waits := by
  intro h
  cases h

theorem fails_ne_waits (err : Option Errno) : Ending.fails err ≠ .waits := by
  intro h
  cases h

theorem goOn_congr (h : e.ending = .waits → wake = wake') : goOn k wake e ws =
    goOn k wake' e ws := by
  obtain ⟨bytes, s, ending⟩ := e
  cases ending with
  | waits => rw [h rfl]
  | fails e => rfl
  | value v => rfl

/-- Bytes that were moved before. -/
theorem goOn_behind (e : Effect) (ws : List FdState) :
    goOn k wake { e with bytes := bytes ++ e.bytes } ws =
      (goOn k wake e ws).map (.behind bytes) := by
  obtain ⟨moved, s, ending⟩ := e
  cases ending with
  | fails e => exact (map_behind bytes moved _).symm
  | value v => exact (map_behind bytes moved _).symm
  | waits =>
      cases ws with
      | nil => rfl
      | cons w ws =>
          show Option.map _ _ = Option.map _ (Option.map _ _)
          rw [Option.map_map]
          rfl

/-- A section that waits. -/
theorem goOn_waited (h : e.ending = .waits) : ∀ c ∈ goOn k wake e ws, c.Waited := by
  obtain ⟨moved, s, ending⟩ := e
  cases h
  intro c hc
  cases ws with
  | nil =>
      cases hc
      exact .inr rfl
  | cons w ws =>
      obtain ⟨c', -, rfl⟩ := Option.map_eq_some_iff.1 hc
      exact .inl (List.cons_ne_nil _ _)

/-- A section, and then what follows on it. -/
theorem callThen_section (h : sectionAt s none l = some (io, s', l')) :
    callThen k l s ws = goOn k (callThen k l') ⟨io.moved, s', l'.ending⟩ ws := by
  unfold callThen goOn
  split
  case h_1 => cases h
  case h_2 =>
    rw [h]
    dsimp only
    cases l'.ending with
    | fails e => rfl
    | value v => rfl
    | waits => cases ws <;> rfl

/-- A section that fails. -/
theorem callThen_fails {err : Errno} (h : sectionAt s none l = fails s err) :
    callThen k l s ws = k (.fails (some err)) s ws :=
  (callThen_section h).trans (map_behind_nil _)

theorem IsEnd.holds (h : IsEnd s slot kind p ps) : s.Holds slot kind p := ⟨h.kind, h.pipe⟩

/-- A slot that points at its pipe is an end of it. -/
theorem Backed.isEnd (h : Backed slot p s) (hholds : s.Holds slot kind p) :
    ∃ ps, IsEnd s slot kind p ps ∧ ps.Ok := by
  obtain ⟨ps, hlive, hok⟩ := h hholds.2
  exact ⟨ps, ⟨hholds.1, hholds.2, hlive, hok.2⟩, hok⟩

/-- In a table that fits together every slot is backed. -/
theorem FdInv.backed (h : FdInv s) (slot : Fin fakeFdCount) (p : Nat) : Backed slot p s := by
  intro hpipe
  have hopen : (s.gFds slot).kind ≠ .unused := by
    intro hunused
    rw [h.unused slot hunused] at hpipe
    cases hpipe
  obtain ⟨q, ps, hq, hlive⟩ := h.opened slot hopen
  obtain rfl := Option.some.inj (hq.symm.trans hpipe)
  exact ⟨ps, hlive, h.ring q ps hlive⟩

/-- The end stays one when its pipe changes. -/
theorem IsEnd.setPipe {ps' : PipeState} (h : IsEnd s slot kind p ps) (hok : ps'.Ok) :
    IsEnd (s.setPipe p ps') slot kind p ps' :=
  ⟨h.kind, h.pipe, Function.update_self .., hok.2⟩

theorem setPipe_setPipe (ps' : PipeState) : (s.setPipe p ps).setPipe p ps' = s.setPipe p ps' := by
  unfold FdState.setPipe
  rw [Function.update_idem]

/-! ## A section of a read -/

/-- What a section of a read of `count` bytes does. -/
def readEffect (s : FdState) (slot : Fin fakeFdCount) (p : Nat) (ps : PipeState) (count : Nat) :
    Effect :=
  if ps.length = 0 then
    ⟨[], s, if ps.writers = 0 then .value 0
      else if s.nonblock slot then .fails (some .EAGAIN) else .waits⟩
  else
    ⟨ps.queue.take count, s.setPipe p (ps.dequeue (min count ps.length)),
      .value (min count ps.length : Nat)⟩

/-- The loop of a read on its pipe. -/
theorem readLoop_effect (h : IsEnd s slot kind p ps) (hok : ps.Ok) (count : Nat) :
    ∃ io l', readLoop s slot p count = some (io, (readEffect s slot p ps count).state, l') ∧
      io.moved = (readEffect s slot p ps count).bytes ∧
      l'.ending = (readEffect s slot p ps count).ending ∧
      (l'.ending = .waits → l' = .readWait slot p count) := by
  unfold readLoop readEffect
  rw [h.live]
  dsimp only
  by_cases hempty : ps.length = 0
  case pos =>
    rw [if_pos hempty]
    by_cases hwriters : ps.writers = 0
    case pos =>
      rw [if_neg (by tauto), if_pos ⟨hempty, hwriters⟩, if_pos hwriters]
      exact ⟨_, _, rfl, rfl, rfl, fun hwaits => absurd hwaits (value_ne_waits _)⟩
    case neg =>
      rw [if_pos ⟨hempty, hwriters⟩, if_neg hwriters]
      by_cases hnonblock : s.nonblock slot
      case pos =>
        rw [if_pos hnonblock, if_pos hnonblock]
        exact ⟨_, _, rfl, rfl, rfl, fun hwaits => absurd hwaits (fails_ne_waits _)⟩
      case neg =>
        rw [if_neg hnonblock, if_neg hnonblock]
        exact ⟨_, _, rfl, rfl, rfl, fun _ => rfl⟩
  case neg =>
    have hamount : (if count < ps.length then count else ps.length) = min count ps.length := by
      split <;> omega
    have hqueue : ps.queue.length = ps.length := length_contents ..
    have htake : ps.queue.take (min count ps.length) = ps.queue.take count := by
      rw [← hqueue, ← List.take_eq_take_min]
    rw [if_neg (by tauto), if_neg (by tauto), if_neg hempty, hamount]
    obtain ⟨-, -, hcopy⟩ := hok.dequeue (min_le_right count ps.length)
    rw [hcopy, htake]
    have hread : (ps.queue.take count).length = min count ps.length := by
      rw [List.length_take, hqueue]
    refine ⟨_, _, rfl, rfl, ?_, fun hwaits => absurd hwaits (value_ne_waits _)⟩
    show Ending.value ((ps.queue.take count).length : Nat) = _
    rw [hread]

/-- A read on its pipe, at its start or after a wait. -/
theorem callThen_read (h : IsEnd s slot kind p ps) (hok : ps.Ok)
    (hsection : sectionAt s none l = readLoop s slot p n) :
    callThen k l s ws =
      goOn k (callThen k (.readWait slot p n)) (readEffect s slot p ps n) ws := by
  obtain ⟨io, l', hloop, hmoved, hending, hwaits⟩ := readLoop_effect h hok n
  rw [callThen_section (hsection.trans hloop), hmoved, hending]
  -- after a wait the call goes on at the point where it waits
  refine goOn_congr fun hwait => ?_
  rw [hwaits (hending.trans hwait)]

theorem section_readWait (h : s.Holds slot .pipeRead p) :
    sectionAt s none (.readWait slot p n) = readLoop s slot p n := by
  obtain ⟨hkind, hpipe⟩ := h
  exact if_neg (by tauto)

/-- A read begins like it goes on after a wait. -/
theorem callThen_readStart (h : IsEnd s slot .pipeRead p ps) (hok : ps.Ok) :
    callThen k (.readStart slot n) s ws = callThen k (.readWait slot p n) s ws := by
  have hsection : sectionAt s none (.readStart slot n) = readLoop s slot p n := by
    show readLocked s slot n = _
    unfold readLocked
    rw [h.pipe]
    exact if_neg (not_not_intro h.kind)
  rw [callThen_read h hok hsection, callThen_read h hok (section_readWait h.holds)]

/-- `fakefd_read` on its pipe. -/
theorem readThen_eq (h : IsEnd s slot .pipeRead p ps) (hok : ps.Ok) (hn : 0 < n) :
    readThen k (fdOfSlot slot) n s ws = callThen k (.readWait slot p n) s ws := by
  have henter : enter (.read (fdOfSlot slot) false n) = .readStart slot n := by
    unfold enter
    simp only [slot_of_fd_of_slot]
    rw [if_neg (by simp), if_neg (by omega)]
  unfold readThen
  rw [henter, callThen_readStart h hok]

theorem section_read_lost (h : ¬ s.Holds slot .pipeRead p) :
    sectionAt s none (.readWait slot p n) = fails s .EBADF := by
  have hlost : (s.gFds slot).kind ≠ .pipeRead ∨ (s.gFds slot).pipe ≠ some p := by
    unfold FdState.Holds at h
    tauto
  exact if_pos hlost

/-- A read that has lost its slot. -/
theorem callThen_read_lost (h : ¬ s.Holds slot .pipeRead p) :
    callThen k (.readWait slot p n) s ws = k (.fails (some .EBADF)) s ws :=
  callThen_fails (section_read_lost h)

/-! ## A section of a write -/

/-- The pipe with bytes at its back. -/
def PipeState.push (ps : PipeState) (bytes : List UInt8) : PipeState :=
  ps.enqueue (.ofBytes bytes) 0 bytes.length

variable {total : Nat}

/-- Enqueuing a part of the bytes. -/
theorem enqueue_part (hok : ps.Ok) (hn : total + n ≤ bytes.length)
    (hfits : ps.length + n ≤ pipeCapacity) :
    ps.enqueue (.ofBytes bytes) total n = ps.push ((bytes.drop total).take n) := by
  have hlength : ((bytes.drop total).take n).length = n := by
    rw [List.length_take, List.length_drop]
    omega
  unfold PipeState.push PipeState.enqueue
  rw [hlength]
  congr 1
  refine copyIn_congr _ (position_lt hok.1 _) (by omega) ?_
  intro i hi
  show bytes.getD (total + i) 0 = ((bytes.drop total).take n).getD (0 + i) 0
  rw [Nat.zero_add, List.getD_eq_getElem?_getD, List.getD_eq_getElem?_getD,
    List.getElem?_take_of_lt hi, List.getElem?_drop]

/-- Enqueuing twice is enqueuing once. -/
theorem push_push (hok : ps.Ok) {a b : List UInt8}
    (hfits : ps.length + (a.length + b.length) ≤ pipeCapacity) :
    (ps.push a).push b = ps.push (a ++ b) := by
  have htail : (ps.head + (ps.length + a.length)) % pipeCapacity =
      ((ps.head + ps.length) % pipeCapacity + a.length) % pipeCapacity := by
    rw [Nat.mod_add_mod, Nat.add_assoc]
  unfold PipeState.push PipeState.enqueue
  dsimp only
  rw [htail, copyIn_copyIn _ _ _ (position_lt hok.1 _) (by omega), List.length_append,
    Nat.add_assoc]
  congr 1
  refine copyIn_congr _ (position_lt hok.1 _) (by omega) ?_
  intro i hi
  simp only [Nat.zero_add, Source.ofBytes, List.getD_eq_getElem?_getD]
  split
  case isTrue hlt => rw [List.getElem?_append_left hlt]
  case isFalse hlt => rw [List.getElem?_append_right (by omega)]

theorem push_nil (ps : PipeState) : ps.push [] = ps := by
  unfold PipeState.push PipeState.enqueue
  have hdata : copyIn pipeCapacity ps.data ((ps.head + ps.length) % pipeCapacity) 0
      (fun k => (Source.ofBytes []).byte (0 + k)) = ps.data := by
    funext j
    unfold copyIn copyTo
    simp
  rw [List.length_nil, hdata]
  rfl

theorem PipeState.Ok.push (hok : ps.Ok) (hfits : ps.length + bytes.length ≤ pipeCapacity) :
    (ps.push bytes).Ok :=
  (hok.enqueue _ 0 hfits).1

/-- A part of a source. -/
theorem slice_ofBytes (hn : total + n ≤ bytes.length) :
    slice (Source.ofBytes bytes).byte total n = (bytes.drop total).take n := by
  refine List.ext_getElem ?_ ?_
  · rw [length_slice, List.length_take, List.length_drop]
    omega
  · intro i hi hi'
    rw [length_slice] at hi
    have hbound : total + i < bytes.length := by omega
    simp [slice, Source.ofBytes, List.getElem?_eq_getElem hbound]

/-- What a section of a write from position `total` of the bytes on does. -/
def writeEffect (s : FdState) (slot : Fin fakeFdCount) (p : Nat) (ps : PipeState)
    (bytes : List UInt8) (total : Nat) : Effect :=
  if bytes.length ≤ total then ⟨[], s, .value total⟩
  else if ps.readers = 0 then ⟨[], s, failed total (some .EPIPE)⟩
  else if ps.length = pipeCapacity then
    ⟨[], s, if s.nonblock slot then failed total (some .EAGAIN) else .waits⟩
  else
    let n := min (bytes.length - total) (pipeCapacity - ps.length)
    let moved := (bytes.drop total).take n
    ⟨moved, s.setPipe p (ps.push moved),
      if total + n = bytes.length ∨ s.nonblock slot then .value (total + n : Nat) else .waits⟩

theorem failed_ne_waits (total : Int) (err : Option Errno) : failed total err ≠ .waits := by
  unfold failed
  split
  · exact value_ne_waits _
  · exact fails_ne_waits _

theorem ending_shortWrite (total : Nat) (err : Errno) :
    (Pc.finished (shortWrite total err)).ending = failed total (some err) := by
  show (shortWrite total err).ending = _
  unfold shortWrite failed
  by_cases htotal : total = 0
  case pos =>
    subst htotal
    rfl
  case neg =>
    rw [if_pos htotal, if_pos (by omega)]
    rfl

/-- The loop of a write when there is a reader and room: one round, and a second one that finds all
of the bytes written or the ring full. -/
theorem writeLoop_room (h : IsEnd s slot kind p ps) (hok : ps.Ok) (hleft : total < bytes.length)
    (hreaders : ps.readers ≠ 0) (hroom : ps.length ≠ pipeCapacity)
    (hn : n = min (bytes.length - total) (pipeCapacity - ps.length)) {fuel : Nat} :
    ∃ l, writeLoop slot p (.ofBytes bytes) (fuel + 2) s total =
        some ((bytes.drop total).take n, s.setPipe p (ps.push ((bytes.drop total).take n)), l) ∧
      l.ending = (if total + n = bytes.length ∨ s.nonblock slot then .value (total + n : Nat)
        else .waits) ∧
      (l.ending = .waits → l = .writeWait slot p (.ofBytes bytes) (total + n)) := by
  have hcapacity := h.length
  have hamount : (if (Source.ofBytes bytes).count - total > pipeCapacity - ps.length then
      pipeCapacity - ps.length else (Source.ofBytes bytes).count - total) = n := by
    show (if bytes.length - total > _ then _ else bytes.length - total) = _
    split <;> omega
  rw [writeLoop, if_pos (show total < (Source.ofBytes bytes).count from hleft), h.live]
  dsimp only
  rw [if_neg (by tauto), if_neg hreaders, if_neg (by omega), hamount]
  have hle : total + n ≤ bytes.length := by omega
  rw [enqueue_part hok hle (by omega), slice_ofBytes hle]
  generalize hmoved : (bytes.drop total).take n = moved
  have hlength : moved.length = n := by
    rw [← hmoved, List.length_take, List.length_drop]
    omega
  by_cases hnonblock : s.nonblock slot
  case pos =>
    have hnonblock' : (s.setPipe p (ps.push moved)).nonblock slot := hnonblock
    rw [if_pos hnonblock', if_pos (.inr hnonblock)]
    exact ⟨_, rfl, rfl, fun hwaits => absurd hwaits (value_ne_waits _)⟩
  case neg =>
    have hblock' : ¬ (s.setPipe p (ps.push moved)).nonblock slot := hnonblock
    rw [if_neg hblock', writeLoop]
    by_cases hall : total + n = bytes.length
    case pos =>
      -- all of the bytes are written
      rw [if_neg (show ¬ total + n < (Source.ofBytes bytes).count from hall.not_lt),
        if_pos (.inl hall)]
      dsimp only
      rw [List.append_nil]
      exact ⟨_, rfl, rfl, fun hwaits => absurd hwaits (value_ne_waits _)⟩
    case neg =>
      -- the ring is full, and the call waits for room
      have hfull : (ps.push moved).length = pipeCapacity := by
        show ps.length + moved.length = pipeCapacity
        omega
      have hlive : (s.setPipe p (ps.push moved)).heap p = some (ps.push moved) :=
        Function.update_self ..
      rw [if_pos (show total + n < (Source.ofBytes bytes).count from by
        show total + n < bytes.length
        omega), hlive, if_neg (show ¬ (total + n = bytes.length ∨ s.nonblock slot) by tauto)]
      dsimp only
      rw [if_pos ⟨hfull, hreaders⟩, if_neg hblock']
      dsimp only
      rw [List.append_nil]
      exact ⟨_, rfl, rfl, fun _ => rfl⟩

/-- The section of a write on its pipe. -/
theorem writeFrom_effect (h : IsEnd s slot kind p ps) (hok : ps.Ok) (hbytes : bytes ≠ [])
    (total : Nat) :
    ∃ io l', writeFrom s slot p (.ofBytes bytes) total =
        some (io, (writeEffect s slot p ps bytes total).state, l') ∧
      io.moved = (writeEffect s slot p ps bytes total).bytes ∧
      l'.ending = (writeEffect s slot p ps bytes total).ending ∧
      (l'.ending = .waits → l' = .writeWait slot p (.ofBytes bytes)
        (total + (writeEffect s slot p ps bytes total).bytes.length)) := by
  obtain ⟨fuel, hfuel⟩ : ∃ fuel, (Source.ofBytes bytes).count + 1 = fuel + 2 :=
    Nat.exists_eq_add_of_le' (Nat.succ_le_succ (List.length_pos_iff.2 hbytes))
  unfold writeFrom writeEffect
  rw [hfuel]
  -- the cases of the loop in its order: done, broken, full, and room
  by_cases hdone : bytes.length ≤ total
  case pos =>
    rw [if_pos hdone, writeLoop, if_neg (show ¬ total < (Source.ofBytes bytes).count from
      hdone.not_gt)]
    exact ⟨_, _, rfl, rfl, rfl, fun hwaits => absurd hwaits (value_ne_waits _)⟩
  case neg =>
    have hleft : total < (Source.ofBytes bytes).count := not_le.1 hdone
    rw [if_neg hdone]
    by_cases hreaders : ps.readers = 0
    case pos =>
      rw [if_pos hreaders, writeLoop, if_pos hleft, h.live]
      dsimp only
      rw [if_neg (by tauto), if_pos hreaders]
      exact ⟨_, _, rfl, rfl, ending_shortWrite total .EPIPE, fun hwaits =>
        absurd ((ending_shortWrite total .EPIPE).symm.trans hwaits) (failed_ne_waits _ _)⟩
    case neg =>
      rw [if_neg hreaders]
      by_cases hfull : ps.length = pipeCapacity
      case pos =>
        rw [if_pos hfull, writeLoop, if_pos hleft, h.live]
        dsimp only
        rw [if_pos ⟨hfull, hreaders⟩]
        by_cases hnonblock : s.nonblock slot
        case pos =>
          rw [if_pos hnonblock, if_pos hnonblock]
          exact ⟨_, _, rfl, rfl, ending_shortWrite total .EAGAIN, fun hwaits =>
            absurd ((ending_shortWrite total .EAGAIN).symm.trans hwaits) (failed_ne_waits _ _)⟩
        case neg =>
          rw [if_neg hnonblock, if_neg hnonblock]
          exact ⟨_, _, rfl, rfl, rfl, fun _ => rfl⟩
      case neg =>
        obtain ⟨l, hloop, hending, hwaits⟩ := writeLoop_room h hok hleft hreaders hfull rfl
        rw [if_neg hfull, hloop]
        refine ⟨_, _, rfl, rfl, hending, fun hwait => ?_⟩
        rw [hwaits hwait]
        congr 1
        rw [List.length_take, List.length_drop]
        omega

theorem section_writeWait {src : Source} (h : s.Holds slot .pipeWrite p) :
    sectionAt s none (.writeWait slot p src total) = writeFrom s slot p src total := by
  obtain ⟨hkind, hpipe⟩ := h
  exact if_neg (by tauto)

/-- A write on its pipe, at its start or after a wait. -/
theorem callThen_write (h : IsEnd s slot .pipeWrite p ps) (hok : ps.Ok) (hbytes : bytes ≠ []) :
    callThen k (.writeWait slot p (.ofBytes bytes) total) s ws =
      goOn k (callThen k (.writeWait slot p (.ofBytes bytes)
          (total + (writeEffect s slot p ps bytes total).bytes.length)))
        (writeEffect s slot p ps bytes total) ws := by
  obtain ⟨io, l', hfrom, hmoved, hending, hwaits⟩ := writeFrom_effect h hok hbytes total
  rw [callThen_section ((section_writeWait h.holds).trans hfrom), hmoved, hending]
  refine goOn_congr fun hwait => ?_
  rw [hwaits (hending.trans hwait)]

/-- `fakefd_write` on its pipe. It begins like it goes on after a wait. -/
theorem writeThen_eq (h : IsEnd s slot .pipeWrite p ps) (hok : ps.Ok) (hbytes : bytes ≠ []) :
    writeThen k (fdOfSlot slot) bytes s ws =
      callThen k (.writeWait slot p (.ofBytes bytes) 0) s ws := by
  have hcount : (Source.ofBytes bytes).count ≠ 0 := fun hzero =>
    hbytes (List.length_eq_zero_iff.1 hzero)
  have henter : enter (.write (fdOfSlot slot) false (.ofBytes bytes)) =
      .writeStart slot (.ofBytes bytes) := by
    unfold enter
    simp only [slot_of_fd_of_slot]
    rw [if_neg (by simp), if_neg hcount]
  have hsection : sectionAt s none (.writeStart slot (.ofBytes bytes)) =
      if ps.readers = 0 then fails s .EPIPE else writeFrom s slot p (.ofBytes bytes) 0 := by
    show writeLocked s slot (.ofBytes bytes) = _
    unfold writeLocked
    rw [h.pipe]
    dsimp only
    rw [if_neg (not_not_intro h.kind), h.live]
  unfold writeThen
  rw [henter, callThen_write h hok hbytes]
  by_cases hreaders : ps.readers = 0
  case pos =>
    rw [if_pos hreaders] at hsection
    unfold writeEffect
    rw [callThen_fails hsection, if_neg (show ¬ bytes.length ≤ 0 from fun hle =>
      hcount (Nat.le_zero.1 hle)), if_pos hreaders]
    exact (map_behind_nil _).symm
  case neg =>
    rw [if_neg hreaders] at hsection
    obtain ⟨io, l', hfrom, hmoved, hending, hwaits⟩ := writeFrom_effect h hok hbytes 0
    rw [callThen_section (hsection.trans hfrom), hmoved, hending]
    refine goOn_congr fun hwait => ?_
    rw [hwaits (hending.trans hwait)]

theorem section_write_lost {src : Source} (h : ¬ s.Holds slot .pipeWrite p) :
    sectionAt s none (.writeWait slot p src total) = fails s .EBADF := by
  have hlost : (s.gFds slot).kind ≠ .pipeWrite ∨ (s.gFds slot).pipe ≠ some p := by
    unfold FdState.Holds at h
    tauto
  exact if_pos hlost

/-- A write that has lost its slot. -/
theorem callThen_write_lost {src : Source} (h : ¬ s.Holds slot .pipeWrite p) :
    callThen k (.writeWait slot p src total) s ws = k (.fails (some .EBADF)) s ws :=
  callThen_fails (section_write_lost h)

/-- A section of a write, from where it has written the next bytes. -/
theorem writeEffect_part (h : IsEnd s slot .pipeWrite p ps) (hok : ps.Ok) {moved rest : List UInt8}
    (hbytes : bytes.drop total = moved ++ rest) (hreaders : ps.readers ≠ 0)
    (hfits : ps.length + moved.length ≤ pipeCapacity) :
    writeEffect s slot p ps bytes total =
      { writeEffect (s.setPipe p (ps.push moved)) slot p (ps.push moved) bytes
          (total + moved.length) with
        bytes := moved ++ (writeEffect (s.setPipe p (ps.push moved)) slot p (ps.push moved) bytes
          (total + moved.length)).bytes } := by
  by_cases hmoved : moved = []
  case pos =>
    subst hmoved
    rw [push_nil, setPipe_self h.live]
    rfl
  case neg =>
    have hpos : 0 < moved.length := List.length_pos_iff.2 hmoved
    have hlength : bytes.length - total = moved.length + rest.length := by
      rw [← List.length_drop, hbytes, List.length_append]
    have hreaders' : (ps.push moved).readers ≠ 0 := hreaders
    have hlength' : (ps.push moved).length = ps.length + moved.length := rfl
    have hnonblock : (s.setPipe p (ps.push moved)).nonblock slot ↔ s.nonblock slot := Iff.rfl
    have hfailed : ∀ err, failed ((total + moved.length : Nat) : Int) err =
        .value (total + moved.length : Nat) := fun err => if_pos (by omega)
    have hdrop : bytes.drop (total + moved.length) = rest := by
      rw [← List.drop_drop, hbytes, List.drop_left]
    unfold writeEffect
    rw [if_neg (show ¬ bytes.length ≤ total by omega), if_neg hreaders,
      if_neg (show ¬ ps.length = pipeCapacity by omega), if_neg hreaders', hlength',
        hfailed, hlength,
      hbytes, hdrop]
    simp only [hnonblock, setPipe_setPipe]
    by_cases hrest : rest = []
    case pos =>
      -- nothing is left, and both have written all of the bytes
      subst hrest
      have hn : min (moved.length + 0) (pipeCapacity - ps.length) = moved.length := by omega
      rw [List.length_nil] at hlength
      rw [if_pos (show bytes.length ≤ total + moved.length by omega), List.length_nil, hn,
        List.append_nil, List.take_length, if_pos (.inl (by omega))]
    case neg =>
      have hpos' : 0 < rest.length := List.length_pos_iff.2 hrest
      rw [if_neg (show ¬ bytes.length ≤ total + moved.length by omega)]
      by_cases hfull : ps.length + moved.length = pipeCapacity
      case pos =>
        -- the next bytes fill the ring up
        have hn : min (moved.length + rest.length) (pipeCapacity - ps.length) = moved.length := by
          omega
        have hmore : ¬ total + moved.length = bytes.length := by omega
        rw [if_pos hfull, hn, List.take_left, List.append_nil]
        simp only [hmore, false_or]
      case neg =>
        have hmin : min (bytes.length - (total + moved.length))
            (pipeCapacity - (ps.length + moved.length)) =
            min rest.length (pipeCapacity - (ps.length + moved.length)) := by
          omega
        have hn : min (moved.length + rest.length) (pipeCapacity - ps.length) =
            moved.length + min rest.length (pipeCapacity - (ps.length + moved.length)) := by
          omega
        rw [if_neg hfull, hmin, hn, List.take_length_add_append, push_push hok (by
          rw [List.length_take]
          omega), Nat.add_assoc]

/-- A write, from where it has written the next bytes. -/
theorem callThen_write_part (h : IsEnd s slot .pipeWrite p ps) (hok : ps.Ok) (hne : bytes ≠ [])
    {moved rest : List UInt8} (hbytes : bytes.drop total = moved ++ rest)
    (hreaders : ps.readers ≠ 0) (hfits : ps.length + moved.length ≤ pipeCapacity) :
    callThen k (.writeWait slot p (.ofBytes bytes) total) s ws =
      (callThen k (.writeWait slot p (.ofBytes bytes) (total + moved.length))
        (s.setPipe p (ps.push moved)) ws).map (.behind moved) := by
  have hok' : (ps.push moved).Ok := hok.push hfits
  rw [callThen_write h hok hne, callThen_write (h.setPipe hok') hok' hne, ← goOn_behind,
    writeEffect_part h hok hbytes hreaders hfits]
  dsimp only
  rw [List.length_append, ← Nat.add_assoc]

/-! ## Whole calls -/

/-- A call whose sections go through in the tables in which it is woken has a course. By induction
on these. -/
theorem callThen_finish {P : Pc → Prop}
    (hP : ∀ l s, P l → Backed slot p s → ∃ io s' l', sectionAt s none l = some (io, s', l') ∧
      (l'.ending = .waits → P l')) (hl : P l) (hbacked : ∀ w ∈ s :: ws, Backed slot p w) :
    ∃ c, callThen finish l s ws = some c := by
  induction ws generalizing l s with
  | nil =>
      obtain ⟨io, s', l', hsection, -⟩ := hP l s hl (hbacked s List.mem_cons_self)
      rw [callThen_section hsection]
      unfold goOn
      cases l'.ending with
      | fails e => exact ⟨_, rfl⟩
      | value v => exact ⟨_, rfl⟩
      | waits => exact ⟨_, rfl⟩
  | cons w ws ih =>
      obtain ⟨io, s', l', hsection, hwaits⟩ := hP l s hl (hbacked s List.mem_cons_self)
      rw [callThen_section hsection]
      unfold goOn
      cases hending : l'.ending with
      | fails e => exact ⟨_, rfl⟩
      | value v => exact ⟨_, rfl⟩
      | waits =>
          obtain ⟨c, hc⟩ := ih (hwaits hending) fun u hu => hbacked u (List.mem_cons_of_mem s hu)
          exact ⟨_, congrArg (Option.map _) hc⟩

/-- A read has a course. -/
theorem read_course (hbacked : ∀ w ∈ s :: ws, Backed slot p w) (n : Nat) :
    ∃ c, callThen finish (.readWait slot p n) s ws = some c := by
  refine callThen_finish (P := fun l => l = .readWait slot p n) ?_ rfl hbacked
  rintro _ s rfl hs
  by_cases hholds : s.Holds slot .pipeRead p
  case pos =>
    obtain ⟨ps, h, hok⟩ := hs.isEnd hholds
    obtain ⟨io, l', hloop, -, -, hwaits⟩ := readLoop_effect h hok n
    exact ⟨io, _, l', (section_readWait hholds).trans hloop, hwaits⟩
  case neg =>
    exact ⟨_, _, _, section_read_lost hholds, fun hwaits => absurd hwaits (fails_ne_waits _)⟩

/-- A write has a course. -/
theorem write_course (hbacked : ∀ w ∈ s :: ws, Backed slot p w) (hbytes : bytes ≠ [])
    (total : Nat) :
    ∃ c, callThen finish (.writeWait slot p (.ofBytes bytes) total) s ws = some c := by
  refine callThen_finish (P := fun l => ∃ total, l = .writeWait slot p (.ofBytes bytes) total) ?_
    ⟨total, rfl⟩ hbacked
  rintro _ s ⟨total, rfl⟩ hs
  by_cases hholds : s.Holds slot .pipeWrite p
  case pos =>
    obtain ⟨ps, h, hok⟩ := hs.isEnd hholds
    obtain ⟨io, l', hfrom, -, -, hwaits⟩ := writeFrom_effect h hok hbytes total
    exact ⟨io, _, l', (section_writeWait hholds).trans hfrom, fun hwait => ⟨_, hwaits hwait⟩⟩
  case neg =>
    exact ⟨_, _, _, section_write_lost hholds, fun hwaits => absurd hwaits (fails_ne_waits _)⟩

end Asnx.FakeFd
