import Asnx.FakeFd.Courses

/-!
# Vectored reads and writes

`nx_readv` and `nx_writev` of `source/imports.c` on an emulated descriptor, buffer by buffer,
beside one `fakefd_read` or `fakefd_write` with all of the buffers in a row, over the same tables
in which they are woken. A read in pieces waits where one read returns, when what the pipe holds
ends with one of the buffers; a write in pieces returns its total where one write fails, when its
slot is lost after a whole buffer (`vectored_iff`).
-/

namespace Asnx.FakeFd

open RingBuffer

/-- What a loop does with how a call of it has ended: it goes on from the bytes that were moved, if
there were any. -/
def goesOn (total : Int) (more : Nat → FdState → List FdState → Option Course) : Caller
  | .fails e, s, _ => ended s (failed total e)
  | .waits, s, _ => ended s .waits
  | .value n, s, ws => if n = 0 then ended s (.value total) else more n.toNat s ws

/-- The loop of `nx_readv` over buffers of the given lengths, after `total`. A short read returns,
so the loop over one buffer has one turn. -/
def readvLoop (fd : Int) : List Nat → Int → FdState → List FdState → Option Course
  | [], total, s, _ => ended s (.value total)
  | left :: v, total, s, ws =>
      if left = 0 then readvLoop fd v total s ws
      else
        readThen (goesOn total fun n s ws =>
          if n < left then ended s (.value (total + n)) else readvLoop fd v (total + n) s ws)
          fd left s ws

/-- `nx_readv` -/
def nxReadv (fd : Int) (v : List Nat) : FdState → List FdState → Option Course := readvLoop fd v 0

/-- The loop over one buffer of `nx_writev`, and then what is behind the buffer; every turn
shortens what is left of it. -/
def writevBuffer (fd : Int) (behind : Int → FdState → List FdState → Option Course) :
    Nat → List UInt8 → Int → FdState → List FdState → Option Course
  | 0, _, total, s, ws => behind total s ws
  | turns + 1, left, total, s, ws =>
      if left = [] then behind total s ws
      else
        writeThen (goesOn total fun n => writevBuffer fd behind turns (left.drop n) (total + n))
          fd left s ws

/-- The loop of `nx_writev` over the buffers. -/
def writevLoop (fd : Int) : List (List UInt8) → Int → FdState → List FdState → Option Course
  | [], total, s, _ => ended s (.value total)
  | left :: v, total, s, ws => writevBuffer fd (writevLoop fd v) left.length left total s ws

/-- `nx_writev` -/
def nxWritev (fd : Int) (v : List (List UInt8)) : FdState → List FdState → Option Course :=
  writevLoop fd v 0

variable {s w : FdState} {slot : Fin fakeFdCount} {p n : Nat} {ps : PipeState} {ws : List FdState}

/-! ## Reading -/

/-- The buffers before one of them hold as much as the pipe does, and there is more room behind. -/
def FillsExactly (v : List Nat) (length : Nat) : Prop :=
  ∃ before after, v = before ++ after ∧ before.sum = length ∧ 0 < after.sum

/-- The pipe ends with one of the buffers, and a read of the next one would wait. -/
def EndsWithBuffer (s : FdState) (slot : Fin fakeFdCount) (ps : PipeState) (v : List Nat) : Prop :=
  FillsExactly v ps.length ∧ ps.writers ≠ 0 ∧ ¬ s.nonblock slot

/-- The first table in which a read finds something ends with one of the buffers. -/
inductive WaitsLate (slot : Fin fakeFdCount) (p : Nat) (v : List Nat) : FdState →
    List FdState → Prop
  | here {s : FdState} {ps : PipeState} {ws : List FdState} : IsEnd s slot .pipeRead p ps →
      ps.length ≠ 0 → EndsWithBuffer s slot ps v → WaitsLate slot p v s ws
  | woken {s w : FdState} {ps : PipeState} {ws : List FdState} : IsEnd s slot .pipeRead p ps →
      ps.length = 0 → ps.writers ≠ 0 → ¬ s.nonblock slot → WaitsLate slot p v w ws →
      WaitsLate slot p v s (w :: ws)

/-- An empty pipe fills no buffer, exactly when there is one. -/
theorem fillsExactly_zero {v : List Nat} : FillsExactly v 0 ↔ 0 < v.sum := by
  constructor
  · rintro ⟨before, after, rfl, -, hafter⟩
    rw [List.sum_append]
    omega
  · intro h
    exact ⟨[], v, rfl, rfl, h⟩

/-- The first buffer, when the pipe is not empty. -/
theorem fillsExactly_cons {left length : Nat} {v : List Nat} (hlength : 0 < length) :
    FillsExactly (left :: v) length ↔ left ≤ length ∧ FillsExactly v (length - left) := by
  constructor
  · rintro ⟨before, after, hv, hbefore, hafter⟩
    cases before with
    | nil =>
        rw [List.sum_nil] at hbefore
        omega
    | cons first before =>
        obtain ⟨rfl, rfl⟩ := List.cons.inj hv
        rw [List.sum_cons] at hbefore
        exact ⟨by omega, before, after, rfl, by omega, hafter⟩
  · rintro ⟨hle, before, after, rfl, hbefore, hafter⟩
    refine ⟨left :: before, after, rfl, ?_, hafter⟩
    rw [List.sum_cons]
    omega

/-- A buffer without room fills nothing. -/
theorem fillsExactly_skip {length : Nat} {v : List Nat} :
    FillsExactly (0 :: v) length ↔ FillsExactly v length := by
  constructor
  · rintro ⟨before, after, hv, hbefore, hafter⟩
    cases before with
    | nil =>
        subst hv
        rw [List.sum_cons, Nat.zero_add] at hafter
        exact ⟨[], v, rfl, hbefore, hafter⟩
    | cons first before =>
        obtain ⟨rfl, rfl⟩ := List.cons.inj hv
        rw [List.sum_cons, Nat.zero_add] at hbefore
        exact ⟨before, after, rfl, hbefore, hafter⟩
  · rintro ⟨before, after, rfl, hbefore, hafter⟩
    exact ⟨0 :: before, after, rfl, by rw [List.sum_cons, Nat.zero_add, hbefore], hafter⟩

/-- Taking bytes out of a pipe twice. -/
theorem dequeue_dequeue (ps : PipeState) (m n : Nat) :
    (ps.dequeue m).dequeue n = ps.dequeue (m + n) := by
  unfold PipeState.dequeue
  dsimp only
  rw [Nat.mod_add_mod, Nat.add_assoc, Nat.sub_sub]

/-- Taking nothing. -/
theorem dequeue_zero (hok : ps.Ok) : ps.dequeue 0 = ps := by
  unfold PipeState.dequeue
  rw [Nat.add_zero, Nat.mod_eq_of_lt hok.1, Nat.sub_zero]

variable {v : List Nat} {total : Int}

/-- From an empty pipe nothing more is read. -/
theorem readvLoop_empty (h : IsEnd s slot .pipeRead p ps) (hok : ps.Ok) (hempty : ps.length = 0)
    {left : Nat} (hleft : left ≠ 0) (v : List Nat) (total : Int) (ws : List FdState) :
    (ps.writers = 0 →
      readvLoop (fdOfSlot slot) (left :: v) total s ws = ended s (.value total)) ∧
    (ps.writers ≠ 0 → s.nonblock slot →
      readvLoop (fdOfSlot slot) (left :: v) total s ws =
        ended s (failed total (some .EAGAIN))) ∧
    (ps.writers ≠ 0 → ¬ s.nonblock slot →
      ∀ c ∈ readvLoop (fdOfSlot slot) (left :: v) total s ws, c.Waited) := by
  rw [readvLoop, if_neg hleft, readThen_eq h hok (by omega),
    callThen_read h hok (section_readWait h.holds)]
  unfold readEffect
  rw [if_pos hempty]
  refine ⟨?_, ?_, ?_⟩
  · intro hwriters
    rw [if_pos hwriters]
    rfl
  · intro hwriters hnonblock
    rw [if_neg hwriters, if_pos hnonblock]
    rfl
  · intro hwriters hblock
    rw [if_neg hwriters, if_neg hblock]
    exact goOn_waited rfl

/-- What is left of a pipe after a whole buffer ends with a buffer when the pipe does. -/
theorem endsWithBuffer_cons (hlength : ps.length ≠ 0) {left : Nat} (hle : left ≤ ps.length) :
    EndsWithBuffer s slot ps (left :: v) ↔
      EndsWithBuffer (s.setPipe p (ps.dequeue left)) slot (ps.dequeue left) v := by
  show FillsExactly (left :: v) ps.length ∧ ps.writers ≠ 0 ∧ ¬ s.nonblock slot ↔
    FillsExactly v (ps.length - left) ∧ ps.writers ≠ 0 ∧ ¬ s.nonblock slot
  rw [fillsExactly_cons (by omega)]
  tauto

/-- The buffers are filled in order, and the loop waits when the pipe ends with one of them. By
induction on the buffers; something has been read before, or is there. -/
theorem readvLoop_some (h : IsEnd s slot .pipeRead p ps) (hok : ps.Ok) (htotal : 0 ≤ total)
    (hsome : total ≠ 0 ∨ ps.length ≠ 0) :
    (EndsWithBuffer s slot ps v → ∀ c ∈ readvLoop (fdOfSlot slot) v total s ws, c.Waited) ∧
    (¬ EndsWithBuffer s slot ps v → readvLoop (fdOfSlot slot) v total s ws =
      some ⟨[], ps.queue.take v.sum, s.setPipe p (ps.dequeue (min v.sum ps.length)),
        .value (total + (min v.sum ps.length : Nat))⟩) := by
  have hqueue : ps.queue.length = ps.length := length_contents ..
  induction v generalizing s ps total with
  | nil =>
      constructor
      · rintro ⟨⟨before, after, hv, -, hafter⟩, -⟩
        rw [(List.append_eq_nil_iff.1 hv.symm).2] at hafter
        exact absurd hafter (Nat.lt_irrefl 0)
      · intro _
        rw [List.sum_nil, Nat.zero_min, dequeue_zero hok, setPipe_self h.live, Nat.cast_zero,
          Int.add_zero]
        rfl
  | cons left v ih =>
      by_cases hleft : left = 0
      case pos =>
        subst hleft
        have hskip : EndsWithBuffer s slot ps (0 :: v) ↔ EndsWithBuffer s slot ps v :=
          and_congr_left' fillsExactly_skip
        rw [readvLoop, if_pos rfl, hskip, List.sum_cons, Nat.zero_add]
        exact ih h hok htotal hsome hqueue
      case neg =>
        have hpos : 0 < (left :: v).sum := by
          rw [List.sum_cons]
          omega
        by_cases hempty : ps.length = 0
        case pos =>
          -- the bytes before have been read, and the pipe ended with them
          obtain ⟨hclosed, hagain, hwaits⟩ := readvLoop_empty h hok hempty hleft v total ws
          have hmoved : failed total (some .EAGAIN) = .value total :=
            if_pos (hsome.resolve_right (not_not_intro hempty))
          constructor
          · rintro ⟨-, hwriters, hblock⟩
            exact hwaits hwriters hblock
          · intro hnot
            have hends : readvLoop (fdOfSlot slot) (left :: v) total s ws =
                ended s (.value total) := by
              by_cases hwriters : ps.writers = 0
              case pos => exact hclosed hwriters
              case neg =>
                have hnonblock : s.nonblock slot := by
                  by_contra hblock
                  exact hnot ⟨by rwa [hempty, fillsExactly_zero], hwriters, hblock⟩
                rw [hagain hwriters hnonblock, hmoved]
            rw [hends, hempty, Nat.min_zero, dequeue_zero hok, setPipe_self h.live, Nat.cast_zero,
              Int.add_zero, List.eq_nil_of_length_eq_zero (hqueue.trans hempty), List.take_nil]
            rfl
        case neg =>
          have hread : ((min left ps.length : Nat) : Int) ≠ 0 := by omega
          rw [readvLoop, if_neg hleft, readThen_eq h hok (by omega),
            callThen_read h hok (section_readWait h.holds)]
          unfold readEffect
          rw [if_neg hempty]
          unfold goOn
          dsimp only [goesOn]
          rw [if_neg hread, Int.toNat_natCast, List.sum_cons]
          by_cases hshort : ps.length < left
          case pos =>
            -- the pipe ends within this buffer
            refine ⟨?_, fun _ => ?_⟩
            · rintro ⟨hfills, -⟩
              rw [fillsExactly_cons (by omega)] at hfills
              omega
            · rw [if_pos (by omega), min_eq_right hshort.le, min_eq_right (by omega),
                List.take_of_length_le (by omega), List.take_of_length_le (by omega)]
              exact congrArg (fun bytes => some (⟨[], bytes, _, _⟩ : Course)) (List.append_nil _)
          case neg =>
            -- the buffer is filled, and the loop goes on behind it
            have hfull : min left ps.length = left := by omega
            obtain ⟨hok', hqueue', -⟩ := hok.dequeue (n := left) (by omega)
            have hleft' : (ps.dequeue left).length = ps.length - left := rfl
            have htotal' : 0 ≤ total + (left : Int) := by omega
            obtain ⟨hwaits, hreturns⟩ :=
              ih (h.setPipe hok') hok' htotal' (.inl (by omega)) (length_contents ..)
            rw [if_neg (by omega), hfull, endsWithBuffer_cons (p := p) hempty (by omega)]
            constructor
            · intro hends c hc
              obtain ⟨c', hc', rfl⟩ := Option.map_eq_some_iff.1 hc
              exact (hwaits hends c' hc').behind
            · intro hnot
              have hmin : left + min v.sum (ps.length - left) = min (left + v.sum) ps.length := by
                omega
              have hsplit : ps.queue.take left ++ (ps.dequeue left).queue.take v.sum =
                  ps.queue.take (left + v.sum) := by
                rw [hqueue', List.take_add]
              rw [hreturns hnot, setPipe_setPipe, dequeue_dequeue, hleft', hmin, ← hsplit, ← hmin,
                Nat.cast_add, ← Int.add_assoc]
              rfl

/-- What `nx_readv` does behind a call for a buffer. -/
def readvTurn (fd : Int) (left : Nat) (v : List Nat) (total : Int) : Caller :=
  goesOn total fun n s ws =>
    if n < left then ended s (.value (total + n)) else readvLoop fd v (total + n) s ws

theorem readvLoop_cons (h : IsEnd s slot .pipeRead p ps) (hok : ps.Ok) {left : Nat}
    (hleft : left ≠ 0)
    (v : List Nat) (total : Int) (ws : List FdState) :
    readvLoop (fdOfSlot slot) (left :: v) total s ws =
      callThen (readvTurn (fdOfSlot slot) left v total) (.readWait slot p left) s ws := by
  rw [readvLoop, if_neg hleft, readThen_eq h hok (by omega)]
  rfl

/-- A late wait, from the table at hand. -/
theorem waitsLate_iff (h : IsEnd s slot .pipeRead p ps) :
    WaitsLate slot p v s ws ↔ (ps.length ≠ 0 ∧ EndsWithBuffer s slot ps v) ∨
      (ps.length = 0 ∧ ps.writers ≠ 0 ∧ ¬ s.nonblock slot ∧
        ∃ w ws', ws = w :: ws' ∧ WaitsLate slot p v w ws') := by
  constructor
  · intro hlate
    cases hlate with
    | here h' hlength hends =>
        obtain rfl := Option.some.inj (h'.live.symm.trans h.live)
        exact .inl ⟨hlength, hends⟩
    | woken h' hempty hwriters hblock hlate =>
        obtain rfl := Option.some.inj (h'.live.symm.trans h.live)
        exact .inr ⟨hempty, hwriters, hblock, _, _, rfl, hlate⟩
  · rintro (⟨hlength, hends⟩ | ⟨hempty, hwriters, hblock, w, ws', rfl, hlate⟩)
    · exact .here h hlength hends
    · exact .woken h hempty hwriters hblock hlate

/-- A slot that is lost is not waited on. -/
theorem not_waitsLate (h : ¬ s.Holds slot .pipeRead p) : ¬ WaitsLate slot p v s ws := by
  intro hlate
  cases hlate with
  | here h' => exact h h'.holds
  | woken h' => exact h h'.holds

/-- A read in pieces and one read of all of it do the same unless there is a late wait. -/
def ReadSame (slot : Fin fakeFdCount) (p left : Nat) (v : List Nat) (s : FdState)
    (ws : List FdState) : Prop :=
  callThen (readvTurn (fdOfSlot slot) left v 0) (.readWait slot p left) s ws =
      callThen finish (.readWait slot p (left + v.sum)) s ws ↔
    ¬ WaitsLate slot p (left :: v) s ws

/-- One section of both. -/
theorem readSame_section (h : IsEnd s slot .pipeRead p ps) (hok : ps.Ok) {left : Nat}
    (hleft : left ≠ 0) (hwake : ∀ w ws', ws = w :: ws' → ReadSame slot p left v w ws') :
    ReadSame slot p left v s ws := by
  have hfailed : failed 0 (some .EAGAIN) = .fails (some .EAGAIN) := if_neg (not_not_intro rfl)
  unfold ReadSame
  rw [waitsLate_iff h]
  by_cases hempty : ps.length = 0
  case neg =>
    obtain ⟨hlate, hreturns⟩ : _ ∧ (_ → readvLoop (fdOfSlot slot) (left :: v) 0 s ws = _) :=
      readvLoop_some h hok le_rfl (.inr hempty)
    rw [← readvLoop_cons h hok hleft, callThen_read h hok (section_readWait h.holds)]
    unfold readEffect
    rw [if_neg hempty]
    by_cases hends : EndsWithBuffer s slot ps (left :: v)
    case pos =>
      -- one read returns here without a wait
      refine iff_of_false ?_ (not_not_intro (.inl ⟨hempty, hends⟩))
      intro hsame
      rcases hlate hends _ hsame with hwaits | hwaits
      · exact hwaits rfl
      · cases hwaits
    case neg =>
      refine iff_of_true ?_ (by tauto)
      rw [hreturns hends, List.sum_cons, Int.zero_add]
      exact congrArg (fun bytes => some (⟨[], bytes, _, _⟩ : Course)) (List.append_nil _).symm
  case pos =>
    by_cases hwaits : ps.writers ≠ 0 ∧ ¬ s.nonblock slot
    case neg =>
      refine iff_of_true ?_ (by tauto)
      obtain ⟨hclosed, hagain, -⟩ := readvLoop_empty h hok hempty hleft v 0 ws
      rw [← readvLoop_cons h hok hleft, callThen_read h hok (section_readWait h.holds)]
      unfold readEffect
      rw [if_pos hempty]
      by_cases hwriters : ps.writers = 0
      case pos =>
        rw [hclosed hwriters, if_pos hwriters]
        rfl
      case neg =>
        have hnonblock : s.nonblock slot := by tauto
        rw [hagain hwriters hnonblock, if_neg hwriters, if_pos hnonblock, hfailed]
        rfl
    case pos =>
      -- both wait, in the same table
      obtain ⟨hwriters, hblock⟩ := hwaits
      rw [callThen_read h hok (section_readWait h.holds),
        callThen_read h hok (section_readWait h.holds)]
      unfold readEffect
      rw [if_pos hempty, if_pos hempty, if_neg hwriters, if_neg hblock]
      cases ws with
      | nil =>
          refine iff_of_true rfl ?_
          rintro (⟨hlength, -⟩ | ⟨-, -, -, w, ws', hws, -⟩)
          · exact hlength hempty
          · cases hws
      | cons w ws =>
          refine map_wait_inj.trans ((hwake w ws rfl).trans (not_congr ⟨?_, ?_⟩))
          · intro hlate
            exact .inr ⟨hempty, hwriters, hblock, w, ws, rfl, hlate⟩
          · rintro (⟨hlength, -⟩ | ⟨-, -, -, w', ws', hws, hlate⟩)
            · exact absurd hempty hlength
            · cases hws
              exact hlate

/-- Whole reads, by induction on the tables in which they are woken. -/
theorem readSame {left : Nat} (hleft : left ≠ 0) (v : List Nat)
    (hbacked : ∀ w ∈ s :: ws, Backed slot p w) : ReadSame slot p left v s ws := by
  have hstep : ∀ {s : FdState} {ws : List FdState}, Backed slot p s →
      (∀ w ws', ws = w :: ws' → ReadSame slot p left v w ws') → ReadSame slot p left v s ws := by
    intro s ws hs hwake
    by_cases hholds : s.Holds slot .pipeRead p
    case pos =>
      obtain ⟨ps, h, hok⟩ := hs.isEnd hholds
      exact readSame_section h hok hleft hwake
    case neg =>
      unfold ReadSame
      rw [callThen_read_lost hholds, callThen_read_lost hholds]
      exact iff_of_true rfl (not_waitsLate hholds)
  induction ws generalizing s with
  | nil =>
      exact hstep (hbacked s (List.mem_singleton_self s)) fun _ _ hws =>
        absurd hws (List.cons_ne_nil _ _).symm
  | cons w ws ih =>
      refine hstep (hbacked s List.mem_cons_self) ?_
      intro w' ws' hws
      obtain ⟨rfl, rfl⟩ := List.cons.inj hws
      exact ih fun u hu => hbacked u (List.mem_cons_of_mem s hu)

/-! ## Writing -/

/-- A blocking write of `count` bytes fills the pipe up from position `total` to `total'`, and
waits. -/
def FillsUp (slot : Fin fakeFdCount) (p count total : Nat) (s : FdState) (total' : Nat) : Prop :=
  ∃ ps, IsEnd s slot .pipeWrite p ps ∧ ps.readers ≠ 0 ∧ ¬ s.nonblock slot ∧
    total' = total + (pipeCapacity - ps.length) ∧ total' < count

/-- Some whole buffers with something in them lie before a position. -/
def WholeBefore (v : List (List UInt8)) (total : Nat) : Prop :=
  ∃ before after, v = before ++ after ∧ 0 < before.flatten.length ∧ before.flatten.length ≤ total

/-- A write from position `total` on waits behind a whole buffer, and loses its slot then. -/
inductive LosesLate (slot : Fin fakeFdCount) (p : Nat) (v : List (List UInt8)) :
    Nat → FdState → List FdState → Prop
  | lost {total total' : Nat} {s w : FdState} {ws : List FdState} :
      FillsUp slot p v.flatten.length total s total' → ¬ w.Holds slot .pipeWrite p →
      WholeBefore v total' → LosesLate slot p v total s (w :: ws)
  | woken {total total' : Nat} {s w : FdState} {ws : List FdState} :
      FillsUp slot p v.flatten.length total s total' → w.Holds slot .pipeWrite p →
      LosesLate slot p v total' w ws → LosesLate slot p v total s (w :: ws)

variable {V v : List (List UInt8)} {before : List (List UInt8)} {left bytes : List UInt8}
  {t turns : Nat} {total : Int} {err : Errno} {k : Caller}

/-- While a buffer is being written, there are whole ones before it when they hold something. -/
theorem wholeBefore_iff (hV : V = before ++ left :: v) (ht : t < left.length) :
    WholeBefore V (before.flatten.length + t) ↔ before.flatten.length ≠ 0 := by
  constructor
  · rintro ⟨whole, after, hwhole, hpos, hle⟩ hzero
    rcases List.append_eq_append_iff.1 (hV.symm.trans hwhole) with
      ⟨more, rfl, hmore⟩ | ⟨more, rfl, hmore⟩
    · cases more with
      | nil =>
          rw [List.append_nil] at hpos
          omega
      | cons first more =>
          obtain ⟨rfl, -⟩ := List.cons.inj hmore
          rw [List.flatten_append, List.flatten_cons, List.length_append, List.length_append] at hle
          omega
    · rw [List.flatten_append, List.length_append] at hzero
      omega
  · intro hne
    exact ⟨before, left :: v, hV, by omega, Nat.le_add_right _ _⟩

theorem not_losesLate_nil : ¬ LosesLate slot p V t s [] := by
  intro hlate
  cases hlate

/-- A table in which the next bytes have been written is as good. -/
theorem losesLate_part (h : IsEnd s slot .pipeWrite p ps) (hok : ps.Ok) {moved : List UInt8}
    (hfits : ps.length + moved.length ≤ pipeCapacity) :
    LosesLate slot p V t s ws ↔
      LosesLate slot p V (t + moved.length) (s.setPipe p (ps.push moved)) ws := by
  have hok' : (ps.push moved).Ok := hok.push hfits
  have hlength : (ps.push moved).length = ps.length + moved.length := rfl
  have hfills : ∀ count total', FillsUp slot p count t s total' ↔
      FillsUp slot p count (t + moved.length) (s.setPipe p (ps.push moved)) total' := by
    intro count total'
    constructor
    · rintro ⟨ps', h', hreaders, hblock, htotal, hlt⟩
      obtain rfl := Option.some.inj (h'.live.symm.trans h.live)
      exact ⟨_, h.setPipe hok', hreaders, hblock, by omega, hlt⟩
    · rintro ⟨ps', h', hreaders, hblock, htotal, hlt⟩
      obtain rfl := Option.some.inj ((h.setPipe hok').live.symm.trans h'.live)
      exact ⟨_, h, hreaders, hblock, by omega, hlt⟩
  constructor
  · intro hlate
    cases hlate with
    | lost hup hlost hwhole => exact .lost ((hfills _ _).1 hup) hlost hwhole
    | woken hup hholds hlate => exact .woken ((hfills _ _).1 hup) hholds hlate
  · intro hlate
    cases hlate with
    | lost hup hlost hwhole => exact .lost ((hfills _ _).2 hup) hlost hwhole
    | woken hup hholds hlate => exact .woken ((hfills _ _).2 hup) hholds hlate

/-- From a full pipe. -/
theorem losesLate_full (h : IsEnd s slot .pipeWrite p ps) (hfull : ps.length = pipeCapacity)
    (hreaders : ps.readers ≠ 0) (hblock : ¬ s.nonblock slot) (ht : t < V.flatten.length) :
    LosesLate slot p V t s (w :: ws) ↔
      (¬ w.Holds slot .pipeWrite p ∧ WholeBefore V t) ∨
        (w.Holds slot .pipeWrite p ∧ LosesLate slot p V t w ws) := by
  have hup : FillsUp slot p V.flatten.length t s t := ⟨ps, h, hreaders, hblock, by omega, ht⟩
  have hsame : ∀ {total'}, FillsUp slot p V.flatten.length t s total' → total' = t := by
    rintro total' ⟨ps', h', -, -, htotal, -⟩
    obtain rfl := Option.some.inj (h'.live.symm.trans h.live)
    omega
  constructor
  · intro hlate
    cases hlate with
    | lost hup' hlost hwhole => exact .inl ⟨hlost, hsame hup' ▸ hwhole⟩
    | woken hup' hholds hlate => exact .inr ⟨hholds, hsame hup' ▸ hlate⟩
  · rintro (⟨hlost, hwhole⟩ | ⟨hholds, hlate⟩)
    · exact .lost hup hlost hwhole
    · exact .woken hup hholds hlate

/-- A write does not wait on this pipe, and takes nothing. -/
def Refuses (s : FdState) (slot : Fin fakeFdCount) (ps : PipeState) (err : Errno) : Prop :=
  (ps.readers = 0 ∧ err = .EPIPE) ∨
    (ps.readers ≠ 0 ∧ ps.length = pipeCapacity ∧ s.nonblock slot ∧ err = .EAGAIN)

theorem Refuses.not_losesLate (h : IsEnd s slot .pipeWrite p ps)
    (hrefuses : Refuses s slot ps err) :
    ¬ LosesLate slot p V t s ws := by
  have hfills : ∀ {count total'}, ¬ FillsUp slot p count t s total' := by
    rintro count total' ⟨ps', h', hreaders, hblock, -⟩
    obtain rfl := Option.some.inj (h'.live.symm.trans h.live)
    unfold Refuses at hrefuses
    tauto
  intro hlate
  cases hlate with
  | lost hup => exact hfills hup
  | woken hup => exact hfills hup

/-- A write that is refused. -/
theorem callThen_write_refused (h : IsEnd s slot .pipeWrite p ps) (hok : ps.Ok)
    (ht : t < bytes.length) (hrefuses : Refuses s slot ps err) :
    callThen k (.writeWait slot p (.ofBytes bytes) t) s ws = k (failed t (some err)) s ws := by
  have hbytes : bytes ≠ [] := List.length_pos_iff.1 (by omega)
  have heffect : writeEffect s slot p ps bytes t = ⟨[], s, failed t (some err)⟩ := by
    unfold writeEffect
    rw [if_neg (by omega)]
    rcases hrefuses with ⟨hreaders, rfl⟩ | ⟨hreaders, hfull, hnonblock, rfl⟩
    · rw [if_pos hreaders]
    · rw [if_neg hreaders, if_pos hfull, if_pos hnonblock]
  rw [callThen_write h hok hbytes, heffect]
  unfold failed
  split <;> exact map_behind_nil _

/-- A write that is done. -/
theorem callThen_write_done (h : IsEnd s slot .pipeWrite p ps) (hok : ps.Ok) (hbytes : bytes ≠ []) :
    callThen k (.writeWait slot p (.ofBytes bytes) bytes.length) s ws =
      k (.value bytes.length) s ws := by
  have heffect : writeEffect s slot p ps bytes bytes.length = ⟨[], s, .value bytes.length⟩ :=
    if_pos le_rfl
  rw [callThen_write h hok hbytes, heffect]
  exact map_behind_nil _

/-- What `nx_writev` does behind a call for a buffer. -/
def writevTurn (fd : Int) (v : List (List UInt8)) (turns : Nat) (left : List UInt8) (total : Int) :
    Caller :=
  goesOn total fun n => writevBuffer fd (writevLoop fd v) turns (left.drop n) (total + n)

theorem writevBuffer_succ (h : IsEnd s slot .pipeWrite p ps) (hok : ps.Ok) (hleft : left ≠ []) :
    writevBuffer (fdOfSlot slot) (writevLoop (fdOfSlot slot) v) (turns + 1) left total s ws =
      callThen (writevTurn (fdOfSlot slot) v turns left total)
        (.writeWait slot p (.ofBytes left) 0) s ws := by
  rw [writevBuffer, if_neg hleft, writeThen_eq h hok hleft]
  rfl

theorem writevBuffer_nil (fd : Int) (turns : Nat) :
    writevBuffer fd (writevLoop fd v) turns [] total s ws = writevLoop fd v total s ws := by
  cases turns with
  | zero => rfl
  | succ turns => exact if_pos rfl

/-- A call that is refused ends the loop: when it has written something, the next one is refused
too. -/
theorem writevTurn_refused (h : IsEnd s slot .pipeWrite p ps) (hok : ps.Ok) (ht : t < left.length)
    (hturns : left.length ≤ turns + 1) (hrefuses : Refuses s slot ps err) :
    writevTurn (fdOfSlot slot) v turns left total (failed t (some err)) s ws =
      ended s (failed (total + t) (some err)) := by
  have hzero : ∀ total, writevTurn (fdOfSlot slot) v turns left total (failed 0 (some err)) s ws =
      ended s (failed total (some err)) := fun _ => rfl
  by_cases hstart : t = 0
  case pos =>
    subst hstart
    show writevTurn _ v turns left total (failed 0 (some err)) s ws = _
    rw [hzero, Nat.cast_zero, Int.add_zero]
  case neg =>
    obtain ⟨turns, rfl⟩ : ∃ fewer, turns = fewer + 1 := ⟨turns - 1, by omega⟩
    have hdrop : 0 < (left.drop t).length := by
      rw [List.length_drop]
      omega
    have hvalue : failed t (some err) = .value t := if_pos (by omega)
    rw [hvalue]
    show (if (t : Int) = 0 then _ else _) = _
    rw [if_neg (by omega), Int.toNat_natCast,
      writevBuffer_succ h hok (List.length_pos_iff.1 hdrop),
      callThen_write_refused h hok hdrop hrefuses]
    rfl

/-- Within a buffer, the loop and one write of all of the bytes do the same unless the slot is lost
late. -/
def BufferSame (slot : Fin fakeFdCount) (p : Nat) (before : List (List UInt8)) (left : List UInt8)
    (v : List (List UInt8)) (s : FdState) (ws : List FdState) : Prop :=
  ∀ V turns t, V = before ++ left :: v → t < left.length → left.length ≤ turns + 1 →
    (callThen (writevTurn (fdOfSlot slot) v turns left before.flatten.length)
        (.writeWait slot p (.ofBytes left) t) s ws =
      callThen finish (.writeWait slot p (.ofBytes V.flatten) (before.flatten.length + t)) s ws ↔
    ¬ LosesLate slot p V (before.flatten.length + t) s ws)

/-- Between two buffers. -/
def LoopSame (slot : Fin fakeFdCount) (p : Nat) (before v : List (List UInt8)) (s : FdState)
    (ws : List FdState) : Prop :=
  ∀ V, V = before ++ v →
    (writevLoop (fdOfSlot slot) v before.flatten.length s ws =
      callThen finish (.writeWait slot p (.ofBytes V.flatten) before.flatten.length) s ws ↔
    ¬ LosesLate slot p V before.flatten.length s ws)

/-- Where there is no room, both are refused or wait. -/
theorem bufferSame_full (h : IsEnd s slot .pipeWrite p ps) (hok : ps.Ok)
    (hnone : ps.readers = 0 ∨ ps.length = pipeCapacity)
    (hwake : ∀ w ws', ws = w :: ws' → w.Holds slot .pipeWrite p →
      BufferSame slot p before left v w ws') :
    BufferSame slot p before left v s ws := by
  intro V turns t hV ht hturns
  have hlength : before.flatten.length + t < V.flatten.length := by
    rw [hV, List.flatten_append, List.flatten_cons, List.length_append, List.length_append]
    omega
  by_cases hwaits : ps.readers ≠ 0 ∧ ¬ s.nonblock slot
  case neg =>
    -- both are refused, and return what has been written
    obtain ⟨err, hrefuses⟩ : ∃ err, Refuses s slot ps err := by
      unfold Refuses
      by_cases hreaders : ps.readers = 0
      case pos => exact ⟨_, .inl ⟨hreaders, rfl⟩⟩
      case neg => exact ⟨_, .inr ⟨hreaders, hnone.resolve_left hreaders, by tauto, rfl⟩⟩
    refine iff_of_true ?_ (hrefuses.not_losesLate h)
    rw [callThen_write_refused h hok ht hrefuses,
      writevTurn_refused h hok ht hturns hrefuses,
      callThen_write_refused h hok hlength hrefuses, Nat.cast_add]
    rfl
  case pos =>
    obtain ⟨hreaders, hblock⟩ := hwaits
    have hfull := hnone.resolve_left hreaders
    have heffect : ∀ {bytes : List UInt8} {t : Nat}, t < bytes.length →
        writeEffect s slot p ps bytes t = ⟨[], s, .waits⟩ := by
      intro bytes t ht
      unfold writeEffect
      rw [if_neg (by omega), if_neg hreaders, if_pos hfull, if_neg hblock]
    have hleft : left ≠ [] := List.length_pos_iff.1 (by omega)
    have hflat : V.flatten ≠ [] := List.length_pos_iff.1 (by omega)
    rw [callThen_write h hok hleft, callThen_write h hok hflat, heffect ht, heffect hlength]
    cases ws with
    | nil => exact iff_of_true rfl not_losesLate_nil
    | cons w ws =>
        refine map_wait_inj.trans ?_
        rw [losesLate_full h hfull hreaders hblock hlength]
        -- both wait, and are woken in the same table
        by_cases hholds : w.Holds slot .pipeWrite p
        case pos =>
          have hsame := hwake w ws rfl hholds V turns t hV ht hturns
          refine hsame.trans (not_congr ⟨fun hlate => .inr ⟨hholds, hlate⟩, ?_⟩)
          rintro (⟨hlost, -⟩ | ⟨-, hlate⟩)
          · exact absurd hholds hlost
          · exact hlate
        case neg =>
          rw [callThen_write_lost hholds, callThen_write_lost hholds, wholeBefore_iff hV ht]
          by_cases hdone : before.flatten.length = 0
          case pos =>
            -- both are in their first buffer, and fail
            refine iff_of_true ?_ (by tauto)
            rw [hdone]
            rfl
          case neg =>
            refine iff_of_false ?_ (not_not_intro (.inl ⟨hholds, hdone⟩))
            have hvalue : failed before.flatten.length (some .EBADF) =
                .value before.flatten.length := if_pos (by omega)
            intro hsame
            have hending := congrArg (Option.map fun c : Course => c.last.ending) hsame
            change some (failed before.flatten.length (some .EBADF)) = some (.fails _) at hending
            rw [hvalue] at hending
            cases hending

/-- One section: what fits into the pipe is written first, by both. -/
theorem bufferSame_section (h : IsEnd s slot .pipeWrite p ps) (hok : ps.Ok)
    (hbehind : ∀ s' ps', IsEnd s' slot .pipeWrite p ps' → ps'.Ok →
      LoopSame slot p (before ++ [left]) v s' ws)
    (hwake : ∀ w ws', ws = w :: ws' → w.Holds slot .pipeWrite p →
      BufferSame slot p before left v w ws') :
    BufferSame slot p before left v s ws := by
  by_cases hreaders : ps.readers = 0
  case pos => exact bufferSame_full h hok (.inl hreaders) hwake
  case neg =>
    intro V turns t hV ht hturns
    have hcapacity := h.length
    have hleft : left ≠ [] := List.length_pos_iff.1 (by omega)
    obtain ⟨n, hn⟩ : ∃ n, n = min (left.length - t) (pipeCapacity - ps.length) := ⟨_, rfl⟩
    obtain ⟨moved, hmoved⟩ : ∃ moved, moved = (left.drop t).take n := ⟨_, rfl⟩
    have hlength : moved.length = n := by
      rw [hmoved, List.length_take, List.length_drop]
      omega
    have hfits : ps.length + moved.length ≤ pipeCapacity := by omega
    have hsplit : left.drop t = moved ++ (left.drop t).drop n := by
      rw [hmoved, List.take_append_drop]
    have hsplit' : V.flatten.drop (before.flatten.length + t) =
        moved ++ ((left.drop t).drop n ++ v.flatten) := by
      rw [hV, List.flatten_append, List.flatten_cons, List.drop_append,
        List.drop_of_length_le (by omega),
        Nat.add_sub_cancel_left, List.drop_append_of_le_length ht.le, List.nil_append,
        ← List.append_assoc, ← hsplit]
    have hflat : V.flatten ≠ [] := by
      rw [hV, List.flatten_append, List.flatten_cons]
      exact List.append_ne_nil_of_right_ne_nil _ (List.append_ne_nil_of_left_ne_nil hleft _)
    have hok' : (ps.push moved).Ok := hok.push hfits
    have hend := h.setPipe hok'
    rw [callThen_write_part h hok hleft hsplit hreaders hfits,
      callThen_write_part h hok hflat hsplit' hreaders hfits, map_behind_inj,
      losesLate_part h hok hfits, Nat.add_assoc, hlength]
    by_cases hall : t + n = left.length
    case pos =>
      -- the buffer is done, and the loop comes to the next one
      have hvalue : (left.length : Int) ≠ 0 := by omega
      have hnext : before.flatten.length + (t + n) = (before ++ [left]).flatten.length := by
        rw [List.flatten_append, List.flatten_singleton, List.length_append, hall]
      have hturn : writevTurn (fdOfSlot slot) v turns left before.flatten.length
        (.value left.length)
          (s.setPipe p (ps.push moved)) ws = writevLoop (fdOfSlot slot) v
            (before ++ [left]).flatten.length (s.setPipe p (ps.push moved)) ws := by
        show (if (left.length : Int) = 0 then _ else _) = _
        rw [if_neg hvalue, Int.toNat_natCast, List.drop_length, writevBuffer_nil, ← hnext, hall,
          Nat.cast_add]
      rw [hnext, hall, callThen_write_done hend hok' hleft, hturn]
      exact hbehind _ _ hend hok' V (by rw [hV, List.append_assoc]; rfl)
    case neg =>
      have hfull : (ps.push moved).length = pipeCapacity := by
        show ps.length + moved.length = pipeCapacity
        omega
      exact bufferSame_full hend hok' (.inr hfull) hwake V turns (t + n) hV (by omega) hturns

theorem flatten_ne_nil (hleft : left ≠ []) (before v : List (List UInt8)) :
    ((before ++ [left]) ++ v).flatten ≠ [] := by
  rw [List.flatten_append, List.flatten_append, List.flatten_singleton]
  exact List.append_ne_nil_of_left_ne_nil (List.append_ne_nil_of_right_ne_nil _ hleft) _

/-- The loop over the buffers, by induction on those that are left. -/
theorem loopSame (hwake : ∀ w ws', ws = w :: ws' → w.Holds slot .pipeWrite p →
      ∀ before left v, BufferSame slot p before left v w ws')
    (h : IsEnd s slot .pipeWrite p ps) (hok : ps.Ok) (hflat : (before ++ v).flatten ≠ []) :
    LoopSame slot p before v s ws := by
  induction v generalizing before s ps with
  | nil =>
      rintro V rfl
      rw [List.append_nil] at hflat ⊢
      have hlate : ¬ LosesLate slot p before before.flatten.length s ws := by
        have hfills : ∀ {total'},
            ¬ FillsUp slot p before.flatten.length before.flatten.length s total' := by
          rintro total' ⟨ps', -, -, -, htotal, hlt⟩
          omega
        intro hlate
        cases hlate with
        | lost hup => exact hfills hup
        | woken hup => exact hfills hup
      rw [callThen_write_done h hok hflat]
      exact iff_of_true rfl hlate
  | cons left v ih =>
      have hassoc : before ++ left :: v = (before ++ [left]) ++ v := by
        rw [List.append_assoc]
        rfl
      rw [hassoc] at hflat
      intro V hV
      rw [writevLoop]
      by_cases hleft : left = []
      case pos =>
        subst hleft
        have hskip := ih h hok hflat V (hV.trans hassoc)
        rw [List.flatten_append, List.flatten_singleton, List.append_nil] at hskip
        rwa [writevBuffer_nil]
      case neg =>
        obtain ⟨turns, hturns⟩ : ∃ turns, left.length = turns + 1 :=
          Nat.exists_eq_add_one.2 (List.length_pos_iff.2 hleft)
        rw [hturns, writevBuffer_succ h hok hleft]
        exact bufferSame_section h hok (fun s' ps' h' hok' => ih h' hok' hflat)
          (fun w ws' hws hholds => hwake w ws' hws hholds before left v) V turns 0 hV
            (by omega) hturns.le

/-- Whole writes, by induction on the tables in which they are woken. -/
theorem bufferSame (hbacked : ∀ w ∈ ws, Backed slot p w) (h : IsEnd s slot .pipeWrite p ps)
    (hok : ps.Ok) (before : List (List UInt8)) (left : List UInt8) (v : List (List UInt8)) :
    BufferSame slot p before left v s ws := by
  induction ws generalizing s ps before left v with
  | nil =>
      intro V turns t hV ht hturns
      have hlast : ∀ (w : FdState) ws', [] ≠ w :: ws' := fun _ _ => (List.cons_ne_nil _ _).symm
      refine bufferSame_section h hok ?_ (fun w ws' hws => absurd hws (hlast w ws')) V turns t hV ht
        hturns
      intro s' ps' h' hok'
      exact loopSame (fun w ws' hws => absurd hws (hlast w ws')) h' hok'
        (flatten_ne_nil (List.length_pos_iff.1 (by omega)) before v)
  | cons w ws ih =>
      have hwake : ∀ w' ws', w :: ws = w' :: ws' → w'.Holds slot .pipeWrite p →
          ∀ before left v, BufferSame slot p before left v w' ws' := by
        rintro w' ws' hws hholds
        obtain ⟨rfl, rfl⟩ := List.cons.inj hws
        obtain ⟨ps', h', hok'⟩ := (hbacked w List.mem_cons_self).isEnd hholds
        exact ih (fun u hu => hbacked u (List.mem_cons_of_mem w hu)) h' hok'
      intro V turns t hV ht hturns
      refine bufferSame_section h hok ?_ (fun w' ws' hws hholds =>
        hwake w' ws' hws hholds before left v) V turns t hV ht hturns
      intro s' ps' h' hok'
      exact loopSame hwake h' hok' (flatten_ne_nil (List.length_pos_iff.1 (by omega)) before v)

/-! ## Both -/

/-- A buffer without room in front changes nothing. -/
theorem waitsLate_zero {v : List Nat} :
    WaitsLate slot p (0 :: v) s ws ↔ WaitsLate slot p v s ws := by
  have hends : ∀ {s : FdState} {ps : PipeState},
      EndsWithBuffer s slot ps (0 :: v) ↔ EndsWithBuffer s slot ps v :=
    and_congr_left' fillsExactly_skip
  constructor
  · intro hlate
    induction hlate with
    | here h hlength hlate => exact .here h hlength (hends.1 hlate)
    | woken h hempty hwriters hblock _ ih => exact .woken h hempty hwriters hblock ih
  · intro hlate
    induction hlate with
    | here h hlength hlate => exact .here h hlength (hends.2 hlate)
    | woken h hempty hwriters hblock _ ih => exact .woken h hempty hwriters hblock ih

/-- `nx_readv` and one `fakefd_read`, from the first buffer with room. -/
theorem nxReadv_same (hholds : s.Holds slot .pipeRead p) (hbacked : ∀ w ∈ s :: ws, Backed slot p w)
    {v : List Nat} (hv : 0 < v.sum) :
    nxReadv (fdOfSlot slot) v s ws = readThen finish (fdOfSlot slot) v.sum s ws ↔
      ¬ WaitsLate slot p v s ws := by
  obtain ⟨ps, h, hok⟩ := (hbacked s List.mem_cons_self).isEnd hholds
  unfold nxReadv
  induction v with
  | nil => exact absurd hv (Nat.lt_irrefl 0)
  | cons left v ih =>
      by_cases hleft : left = 0
      case pos =>
        subst hleft
        rw [List.sum_cons, Nat.zero_add] at hv ⊢
        rw [waitsLate_zero]
        exact ih hv
      case neg =>
        rw [readvLoop_cons h hok hleft, readThen_eq h hok hv, List.sum_cons]
        exact readSame hleft v hbacked

/-- `nx_writev` and one `fakefd_write`. -/
theorem nxWritev_same (hholds : s.Holds slot .pipeWrite p)
    (hbacked : ∀ w ∈ s :: ws, Backed slot p w)
    {v : List (List UInt8)} (hv : v.flatten ≠ []) :
    nxWritev (fdOfSlot slot) v s ws = writeThen finish (fdOfSlot slot) v.flatten s ws ↔
      ¬ LosesLate slot p v 0 s ws := by
  obtain ⟨ps, h, hok⟩ := (hbacked s List.mem_cons_self).isEnd hholds
  rw [writeThen_eq h hok hv]
  have hloop : LoopSame slot p [] v s ws := by
    refine loopSame ?_ h hok hv
    intro w ws' hws hholds'
    subst hws
    obtain ⟨ps', h', hok'⟩ := (hbacked w (by simp)).isEnd hholds'
    exact bufferSame (fun u hu => hbacked u (by simp [hu])) h' hok'
  exact hloop v rfl

/-- For every state of a pipe and its ends, every list of buffers with room, and all tables in
which a waiting call is woken: `nx_readv` moves the same bytes, waits in the same tables and ends
like one `fakefd_read`, exactly when the first table in which the pipe is found with something in
it does not end with one of the buffers, with more room behind, a writer left and a blocking end;
and `nx_writev` like one `fakefd_write`, exactly when no wait behind a whole buffer is woken
without the slot. -/
theorem vectored_iff (s : FdState) (ws : List FdState) (slot : Fin fakeFdCount) (p : Nat)
    (hbacked : ∀ w ∈ s :: ws, Backed slot p w) :
    (s.Holds slot .pipeRead p → ∀ v : List Nat, 0 < v.sum →
      ∃ c, readThen finish (fdOfSlot slot) v.sum s ws = some c ∧
        (nxReadv (fdOfSlot slot) v s ws = some c ↔ ¬ WaitsLate slot p v s ws)) ∧
    (s.Holds slot .pipeWrite p → ∀ v : List (List UInt8), 0 < v.flatten.length →
      ∃ c, writeThen finish (fdOfSlot slot) v.flatten s ws = some c ∧
        (nxWritev (fdOfSlot slot) v s ws = some c ↔ ¬ LosesLate slot p v 0 s ws)) := by
  constructor
  · intro hholds v hv
    obtain ⟨ps, h, hok⟩ := (hbacked s List.mem_cons_self).isEnd hholds
    obtain ⟨c, hc⟩ := read_course hbacked v.sum
    rw [← readThen_eq h hok hv] at hc
    refine ⟨c, hc, ?_⟩
    rw [← hc]
    exact nxReadv_same hholds hbacked hv
  · intro hholds v hv
    have hbytes : v.flatten ≠ [] := List.length_pos_iff.1 hv
    obtain ⟨ps, h, hok⟩ := (hbacked s List.mem_cons_self).isEnd hholds
    obtain ⟨c, hc⟩ := write_course hbacked hbytes 0
    rw [← writeThen_eq h hok hbytes] at hc
    refine ⟨c, hc, ?_⟩
    rw [← hc]
    exact nxWritev_same hholds hbacked hbytes

/-- A table with one pipe that holds some bytes. -/
def onePipe (length : Nat) : FdState where
  gFds i := if i.val = 0 then ⟨.pipeRead, some 0, 0, 0⟩
    else if i.val = 1 then ⟨.pipeWrite, some 0, 0, 0⟩ else .zero
  heap p := if p = 0 then some ⟨fun k => if k = 0 then 7 else 8, 0, length, 1, 1⟩ else none

theorem backed_onePipe {length : Nat} (h : length ≤ pipeCapacity) (slot : Fin fakeFdCount) :
    Backed slot 0 (onePipe length) :=
  fun _ => ⟨_, rfl, Nat.succ_pos _, h⟩

/-- A read finds the pipe empty, and then two bytes, which go into buffers of one and of three
bytes like into one of four; and bytes are written from two buffers like from one. -/
theorem vectored_iff_example :
    (∃ c, readThen finish 900 4 (onePipe 0) [onePipe 2] = some c ∧
      nxReadv 900 [1, 3] (onePipe 0) [onePipe 2] = some c) ∧
    ∃ c, writeThen finish 901 [1, 2, 3] (onePipe 0) [] = some c ∧
      nxWritev 901 [[1], [2, 3]] (onePipe 0) [] = some c := by
  constructor
  · have hbacked : ∀ w ∈ [onePipe 0, onePipe 2], Backed 0 0 w := by
      intro w hw
      rcases List.mem_pair.1 hw with rfl | rfl
      · exact backed_onePipe (by decide) 0
      · exact backed_onePipe (by decide) 0
    obtain ⟨c, hread, hiff⟩ := (vectored_iff (onePipe 0) [onePipe 2] 0 0 hbacked).1
      ⟨rfl, rfl⟩ [1, 3]
      (by decide)
    refine ⟨c, hread, hiff.2 ?_⟩
    intro hlate
    cases hlate with
    | here h hlength =>
        cases h.live
        exact hlength rfl
    | woken _ _ _ _ hlate =>
        cases hlate with
        | here h _ hends =>
            cases h.live
            have hfills := hends.1
            rw [fillsExactly_cons (by decide), fillsExactly_cons (by decide)] at hfills
            exact absurd hfills.2.1 (by decide)
  · obtain ⟨c, hwrite, hiff⟩ := (vectored_iff (onePipe 0) [] 1 0 (by
      intro w hw
      obtain rfl := List.mem_singleton.1 hw
      exact backed_onePipe (by decide) 1)).2 ⟨rfl, rfl⟩ [[1], [2, 3]] (by decide)
    exact ⟨c, hwrite, hiff.2 not_losesLate_nil⟩

/-- Two bytes fill a buffer of two bytes, and the read waits at the next buffer, where one read of
five bytes returns the two. A byte fills the pipe up, both writes of two bytes wait, and the slot
is closed: the one in pieces returns 1, where one write fails. -/
theorem readv_waits :
    nxReadv 900 [2, 3] (onePipe 2) [] ≠ readThen finish 900 5 (onePipe 2) [] ∧
    ((readThen finish 900 5 (onePipe 2) []).map fun c => (c.last.bytes, c.last.ending)) =
      some ([7, 8], .value 2) ∧
    ((nxReadv 900 [2, 3] (onePipe 2) []).map fun c => (c.last.bytes, c.last.ending)) =
      some ([7, 8], .waits) ∧
    ((writeThen finish 901 [1, 2] (onePipe 16383) [.init]).map fun c => c.last.ending) =
      some (.fails (some .EBADF)) ∧
    ((nxWritev 901 [[1], [2]] (onePipe 16383) [.init]).map fun c => c.last.ending) =
      some (.value 1) := by
  have hread : ((readThen finish 900 5 (onePipe 2) []).map fun c => (c.last.bytes, c.last.ending)) =
      some ([7, 8], .value 2) := by decide
  have hreadv : ((nxReadv 900 [2, 3] (onePipe 2) []).map fun c => (c.last.bytes, c.last.ending)) =
      some ([7, 8], .waits) := by decide
  refine ⟨?_, hread, hreadv, by decide, by decide⟩
  intro hsame
  rw [hsame, hread] at hreadv
  exact absurd hreadv (by decide)

end Asnx.FakeFd
