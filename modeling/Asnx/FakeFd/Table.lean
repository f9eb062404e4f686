import Asnx.FakeFd.Sections

/-!
# The descriptor table

Every section keeps the counts of a pipe equal to the numbers of slots that point at it, and a
pipe is live exactly as long as one does (`section_inv`). So no section follows a pointer to a
released pipe (`section_runs`), and a descriptor handed out as new was unused
(`table_invariant`).
-/

namespace Asnx.FakeFd

open Counting Threads

variable {s s' : FdState} {l l' : Pc} {io : Io}

/-! ## Counts -/

@[simp] theorem ends_setPipe (s : FdState) (kind : FakeFdKind) (p q : Nat) (ps : PipeState) :
    (s.setPipe q ps).ends kind p = s.ends kind p := rfl

@[simp] theorem ends_freePipe (s : FdState) (kind : FakeFdKind) (p q : Nat) :
    (s.freePipe q).ends kind p = s.ends kind p := rfl

/-- Writing a slot changes the numbers of ends by what the slot was and is. -/
theorem ends_setFd (s : FdState) (i : Fin fakeFdCount) (e : FakeFdEntry) (kind : FakeFdKind)
    (p : Nat) :
    (s.setFd i e).ends kind p + (if (s.gFds i).kind = kind ∧ (s.gFds i).pipe =
      some p then 1 else 0) =
      s.ends kind p + if e.kind = kind ∧ e.pipe = some p then 1 else 0 :=
  count_update s.gFds (fun e => e.kind = kind ∧ e.pipe = some p) i e

/-- A pipe that is not live has no ends. -/
theorem FdInv.no_ends (h : FdInv s) {p : Nat} (hp : s.heap p = none) (kind : FakeFdKind) :
    s.ends kind p = 0 := by
  refine count_eq_zero _ _ fun i hi => ?_
  by_cases hopen : (s.gFds i).kind = .unused
  · rw [h.unused i hopen] at hi
    cases hi.2
  · obtain ⟨q, ps, hq, hps⟩ := h.opened i hopen
    rw [hi.2] at hq
    cases hq
    cases hp.symm.trans hps

/-- An open slot is an end of its pipe. -/
theorem ends_pos {i : Fin fakeFdCount} {kind : FakeFdKind} {p : Nat}
    (hkind : (s.gFds i).kind = kind) (hpipe : (s.gFds i).pipe = some p) : 0 < s.ends kind p :=
  count_pos (f := s.gFds) (i := i) ⟨hkind, hpipe⟩

theorem refs_retain (ps : PipeState) {kind kind' : FakeFdKind} (hkind : kind ≠ .unused) :
    (ps.retain kind).refs kind' = ps.refs kind' + if kind = kind' then 1 else 0 := by
  cases kind <;> cases kind' <;> simp_all [PipeState.retain, PipeState.refs]

theorem refs_drop (ps : PipeState) {kind kind' : FakeFdKind} (hpos : 0 < ps.refs kind) :
    (ps.drop kind).refs kind' + (if kind = kind' then 1 else 0) = ps.refs kind' := by
  cases kind with
  | unused => exact absurd hpos (Nat.lt_irrefl 0)
  | pipeRead =>
      have hne : ps.readers ≠ 0 := Nat.pos_iff_ne_zero.1 hpos
      cases kind' <;> simp [PipeState.drop, PipeState.refs, hne]
      omega
  | pipeWrite =>
      have hne : ps.writers ≠ 0 := Nat.pos_iff_ne_zero.1 hpos
      cases kind' <;> simp [PipeState.drop, PipeState.refs, hne]
      omega

/-- Both counts of a pipe are zero exactly when none of its kinds of ends is counted. -/
theorem refs_eq_zero {ps : PipeState} (h : ps.readers = 0 ∧ ps.writers = 0) (kind : FakeFdKind) :
    ps.refs kind = 0 := by
  cases kind
  · rfl
  · exact h.1
  · exact h.2

/-! ## Every section keeps the invariant -/

/-- The live pipes after one of them has been written. -/
theorem setPipe_heap_some {p q : Nat} {ps qs : PipeState} (h : (s.setPipe p ps).heap q = some qs) :
    (q = p ∧ qs = ps) ∨ (q ≠ p ∧ s.heap q = some qs) := by
  rw [setPipe_heap] at h
  by_cases hq : q = p
  · subst hq
    rw [Function.update_self] at h
    exact .inl ⟨rfl, (Option.some.inj h).symm⟩
  · rw [Function.update_of_ne hq] at h
    exact .inr ⟨hq, h⟩

/-- A pipe that was live is live after one of them has been written. -/
theorem setPipe_live {p q : Nat} {ps qs : PipeState} (h : s.heap q = some qs) :
    ∃ rs, (s.setPipe p ps).heap q = some rs := by
  by_cases hq : q = p
  · subst hq
    exact ⟨ps, Function.update_self ..⟩
  · exact ⟨qs, (Function.update_of_ne hq ..).trans h⟩

/-- The bytes of one pipe change. -/
theorem FdInv.setBytes (h : FdInv s) {p : Nat} {ps ps' : PipeState} (hps : s.heap p = some ps)
    (hok : ps'.Ok) (hreaders : ps'.readers = ps.readers) (hwriters : ps'.writers = ps.writers) :
    FdInv (s.setPipe p ps') := by
  have hrefs : ∀ kind, ps'.refs kind = ps.refs kind := by
    intro kind
    cases kind
    · rfl
    · exact hreaders
    · exact hwriters
  refine ⟨h.unused, fun i hi => ?_, fun q qs kind hq hkind => ?_, fun q qs hq => ?_,
    fun q qs hq => ?_⟩
  · obtain ⟨q, qs, hpipe, hq⟩ := h.opened i hi
    obtain ⟨rs, hlive⟩ := setPipe_live hq
    exact ⟨q, rs, hpipe, hlive⟩
  · rcases setPipe_heap_some hq with ⟨rfl, rfl⟩ | ⟨-, hq⟩
    · rw [hrefs, ends_setPipe]
      exact h.refs _ _ kind hps hkind
    · exact h.refs q qs kind hq hkind
  · rcases setPipe_heap_some hq with ⟨rfl, rfl⟩ | ⟨-, hq⟩
    · rw [hreaders, hwriters]
      exact h.held _ _ hps
    · exact h.held q qs hq
  · rcases setPipe_heap_some hq with ⟨rfl, rfl⟩ | ⟨-, hq⟩
    · exact hok
    · exact h.ring q qs hq

/-- The flags of one open slot change. -/
theorem FdInv.setFlags (h : FdInv s) {slot : Fin fakeFdCount} {e : FakeFdEntry}
    (hopen : (s.gFds slot).kind ≠ .unused) (hkind : e.kind = (s.gFds slot).kind)
    (hpipe : e.pipe = (s.gFds slot).pipe) : FdInv (s.setFd slot e) := by
  have hends : ∀ kind p, (s.setFd slot e).ends kind p = s.ends kind p := by
    intro kind p
    have := ends_setFd s slot e kind p
    rw [hkind, hpipe] at this
    omega
  refine ⟨fun i hi => ?_, fun i hi => ?_, fun p ps kind hp hk => ?_, h.held, h.ring⟩
  · rw [setFd_gFds] at hi ⊢
    by_cases hslot : i = slot
    · subst hslot
      rw [Function.update_self, hkind] at hi
      exact absurd hi hopen
    · rw [Function.update_of_ne hslot] at hi ⊢
      exact h.unused i hi
  · rw [setFd_gFds] at hi ⊢
    by_cases hslot : i = slot
    · subst hslot
      rw [Function.update_self, hpipe]
      exact h.opened i hopen
    · rw [Function.update_of_ne hslot] at hi ⊢
      exact h.opened i hi
  · rw [hends]
    exact h.refs p ps kind hp hk

/-- An unused slot becomes an end of a live pipe. -/
theorem FdInv.addEnd (h : FdInv s) {d : Fin fakeFdCount} {e : FakeFdEntry} {p : Nat}
    {ps : PipeState} (hd : (s.gFds d).kind = .unused) (hkind : e.kind ≠ .unused)
    (hpipe : e.pipe = some p) (hps : s.heap p = some ps) :
    FdInv ((s.setFd d e).setPipe p (ps.retain e.kind)) := by
  have hends : ∀ kind q, (s.setFd d e).ends kind q =
      s.ends kind q + if e.kind = kind ∧ p = q then 1 else 0 := by
    intro kind q
    have := ends_setFd s d e kind q
    rw [h.unused d hd, hpipe] at this
    simpa [FakeFdEntry.zero] using this
  refine ⟨fun i hi => ?_, fun i hi => ?_, fun q qs kind hq hk => ?_, fun q qs hq => ?_,
    fun q qs hq => ?_⟩
  · rw [setPipe_gFds, setFd_gFds] at hi ⊢
    by_cases hid : i = d
    · subst hid
      rw [Function.update_self] at hi
      exact absurd hi hkind
    · rw [Function.update_of_ne hid] at hi ⊢
      exact h.unused i hi
  · rw [setPipe_gFds, setFd_gFds] at hi ⊢
    by_cases hid : i = d
    · subst hid
      rw [Function.update_self]
      exact ⟨p, _, hpipe, Function.update_self ..⟩
    · rw [Function.update_of_ne hid] at hi ⊢
      obtain ⟨q, qs, hq, hqs⟩ := h.opened i hi
      obtain ⟨rs, hlive⟩ := setPipe_live (s := s.setFd d e) hqs
      exact ⟨q, rs, hq, hlive⟩
  · rw [ends_setPipe, hends]
    rcases setPipe_heap_some hq with ⟨rfl, rfl⟩ | ⟨hne, hq⟩
    · rw [refs_retain ps hkind, h.refs _ _ kind hps hk]
      simp
    · rw [h.refs q qs kind hq hk, if_neg fun hcond => hne hcond.2.symm, Nat.add_zero]
  · rcases setPipe_heap_some hq with ⟨rfl, rfl⟩ | ⟨-, hq⟩
    · have hheld := h.held _ _ hps
      cases hk : e.kind <;> simp only [PipeState.retain] <;> omega
    · exact h.held q qs hq
  · rcases setPipe_heap_some hq with ⟨rfl, rfl⟩ | ⟨-, hq⟩
    · have hring := h.ring _ _ hps
      cases hk : e.kind <;> exact hring
    · exact h.ring q qs hq

/-- What is left when an open slot is cleared: every invariant but that a live pipe has an end. -/
theorem FdInv.removeEnd (h : FdInv s) {slot : Fin fakeFdCount} {p : Nat} {ps : PipeState}
    (hopen : (s.gFds slot).kind ≠ .unused) (hpipe : (s.gFds slot).pipe = some p)
    (hps : s.heap p = some ps) :
    (∀ kind q, ((s.setPipe p (ps.drop (s.gFds slot).kind)).setFd slot .zero).ends kind q +
        (if (s.gFds slot).kind = kind ∧ p = q then 1 else 0) = s.ends kind q) ∧
      (∀ kind, kind ≠ .unused → (ps.drop (s.gFds slot).kind).refs kind +
        (if (s.gFds slot).kind = kind then 1 else 0) = s.ends kind p) := by
  refine ⟨fun kind q => ?_, fun kind hk => ?_⟩
  · have := ends_setFd (s.setPipe p (ps.drop (s.gFds slot).kind)) slot .zero kind q
    rw [setPipe_gFds, hpipe, ends_setPipe] at this
    simpa [FakeFdEntry.zero] using this
  · have hpos : 0 < ps.refs (s.gFds slot).kind := by
      rw [h.refs p ps _ hps hopen]
      exact ends_pos rfl hpipe
    rw [refs_drop ps hpos]
    exact h.refs p ps kind hps hk

theorem ring_drop {ps : PipeState} (h : ps.Ok) (kind : FakeFdKind) : (ps.drop kind).Ok := by
  cases kind <;> simp only [PipeState.drop]
  · exact h
  · split <;> exact h
  · split <;> exact h

/-- An open slot is cleared, and its pipe has other ends. -/
theorem FdInv.dropEnd (h : FdInv s) {slot : Fin fakeFdCount} {p : Nat} {ps : PipeState}
    (hopen : (s.gFds slot).kind ≠ .unused) (hpipe : (s.gFds slot).pipe = some p)
    (hps : s.heap p = some ps)
    (hmore : ¬ ((ps.drop (s.gFds slot).kind).readers = 0 ∧
      (ps.drop (s.gFds slot).kind).writers = 0)) :
    FdInv ((s.setPipe p (ps.drop (s.gFds slot).kind)).setFd slot .zero) := by
  obtain ⟨hends, hrefs⟩ := h.removeEnd hopen hpipe hps
  refine ⟨fun i hi => ?_, fun i hi => ?_, fun q qs kind hq hk => ?_, fun q qs hq => ?_,
    fun q qs hq => ?_⟩
  · rw [setFd_gFds, setPipe_gFds] at hi ⊢
    by_cases hslot : i = slot
    · subst hslot
      rw [Function.update_self]
    · rw [Function.update_of_ne hslot] at hi ⊢
      exact h.unused i hi
  · rw [setFd_gFds, setPipe_gFds] at hi ⊢
    by_cases hslot : i = slot
    · subst hslot
      rw [Function.update_self] at hi
      exact absurd rfl hi
    · rw [Function.update_of_ne hslot] at hi ⊢
      obtain ⟨q, qs, hq, hqs⟩ := h.opened i hi
      obtain ⟨rs, hlive⟩ := setPipe_live (s := s) hqs
      exact ⟨q, rs, hq, hlive⟩
  · have hends := hends kind q
    rcases setPipe_heap_some hq with ⟨rfl, rfl⟩ | ⟨hne, hq⟩
    · have hrefs := hrefs kind hk
      simp only [and_true] at hends
      omega
    · rw [if_neg fun hcond => hne hcond.2.symm, Nat.add_zero] at hends
      rw [h.refs q qs kind hq hk, hends]
  · rcases setPipe_heap_some hq with ⟨rfl, rfl⟩ | ⟨-, hq⟩
    · omega
    · exact h.held q qs hq
  · rcases setPipe_heap_some hq with ⟨rfl, rfl⟩ | ⟨-, hq⟩
    · exact ring_drop (h.ring _ _ hps) _
    · exact h.ring q qs hq

/-- The last end of a pipe is cleared, and the pipe is released. -/
theorem FdInv.releaseEnd (h : FdInv s) {slot : Fin fakeFdCount} {p : Nat} {ps : PipeState}
    (hopen : (s.gFds slot).kind ≠ .unused) (hpipe : (s.gFds slot).pipe = some p)
    (hps : s.heap p = some ps)
    (hlast : (ps.drop (s.gFds slot).kind).readers = 0 ∧ (ps.drop (s.gFds slot).kind).writers = 0) :
    FdInv (((s.setPipe p (ps.drop (s.gFds slot).kind)).setFd slot .zero).freePipe p) := by
  obtain ⟨hends, hrefs⟩ := h.removeEnd hopen hpipe hps
  have hheap : ∀ q qs, (((s.setPipe p (ps.drop (s.gFds slot).kind)).setFd slot .zero).freePipe
    p).heap
      q = some qs → q ≠ p ∧ s.heap q = some qs := by
    intro q qs hq
    rw [freePipe_heap, setFd_heap, setPipe_heap] at hq
    by_cases hqp : q = p
    · subst hqp
      rw [Function.update_self] at hq
      cases hq
    · rw [Function.update_of_ne hqp, Function.update_of_ne hqp] at hq
      exact ⟨hqp, hq⟩
  -- no slot points at the pipe any more
  have hgone : ∀ i, i ≠ slot → (s.gFds i).kind ≠ .unused → (s.gFds i).pipe ≠ some p := by
    intro i hi hkind hip
    have hnone := refs_eq_zero hlast (s.gFds i).kind
    have hrefs := hrefs _ hkind
    have hends := hends (s.gFds i).kind p
    have hpos : 0 < ((s.setPipe p (ps.drop (s.gFds slot).kind)).setFd slot .zero).ends
        (s.gFds i).kind p := by
      refine ends_pos (i := i) ?_ ?_ <;> rw [setFd_gFds, setPipe_gFds, Function.update_of_ne hi]
      exact hip
    simp only [and_true] at hends
    omega
  refine ⟨fun i hi => ?_, fun i hi => ?_, fun q qs kind hq hk => ?_, fun q qs hq => ?_,
    fun q qs hq => ?_⟩
  · rw [freePipe_gFds, setFd_gFds, setPipe_gFds] at hi ⊢
    by_cases hslot : i = slot
    · subst hslot
      rw [Function.update_self]
    · rw [Function.update_of_ne hslot] at hi ⊢
      exact h.unused i hi
  · rw [freePipe_gFds, setFd_gFds, setPipe_gFds] at hi ⊢
    by_cases hslot : i = slot
    · subst hslot
      rw [Function.update_self] at hi
      exact absurd rfl hi
    · rw [Function.update_of_ne hslot] at hi ⊢
      obtain ⟨q, qs, hq, hqs⟩ := h.opened i hi
      have hne : q ≠ p := by
        rintro rfl
        exact hgone i hslot hi hq
      refine ⟨q, qs, hq, ?_⟩
      rw [freePipe_heap, setFd_heap, setPipe_heap, Function.update_of_ne hne,
        Function.update_of_ne hne]
      exact hqs
  · obtain ⟨hne, hq⟩ := hheap q qs hq
    have hends := hends kind q
    rw [if_neg fun hcond => hne hcond.2.symm, Nat.add_zero] at hends
    rw [h.refs q qs kind hq hk, ends_freePipe, hends]
  · exact h.held q qs (hheap q qs hq).2
  · exact h.ring q qs (hheap q qs hq).2

/-- Two unused slots become the ends of a new pipe. -/
theorem FdInv.newPipe (h : FdInv s) {r w : Fin fakeFdCount} {p : Nat} (hne : r ≠ w)
    (hr : (s.gFds r).kind = .unused) (hw : (s.gFds w).kind = .unused) (hp : s.heap p = none) :
    FdInv (((s.setPipe p ⟨fun _ => 0, 0, 0, 1, 1⟩).setFd r ⟨.pipeRead, some p, 0, 0⟩).setFd w
      ⟨.pipeWrite, some p, 0, 0⟩) := by
  -- one end more of each kind, of the new pipe only
  have hends : ∀ kind q, (((s.setPipe p ⟨fun _ => 0, 0, 0, 1, 1⟩).setFd r
      ⟨.pipeRead, some p, 0, 0⟩).setFd w ⟨.pipeWrite, some p, 0, 0⟩).ends kind q =
      s.ends kind q + (if .pipeRead = kind ∧ p = q then 1 else 0) +
        if .pipeWrite = kind ∧ p = q then 1 else 0 := by
    intro kind q
    have hfirst := ends_setFd (s.setPipe p ⟨fun _ => 0, 0, 0, 1, 1⟩) r ⟨.pipeRead, some p, 0, 0⟩
      kind q
    have hsecond := ends_setFd ((s.setPipe p ⟨fun _ => 0, 0, 0, 1, 1⟩).setFd r
      ⟨.pipeRead, some p, 0, 0⟩) w ⟨.pipeWrite, some p, 0, 0⟩ kind q
    rw [setPipe_gFds, h.unused r hr, ends_setPipe] at hfirst
    rw [setFd_gFds, setPipe_gFds, Function.update_of_ne hne.symm, h.unused w hw] at hsecond
    simp only [FakeFdEntry.zero, Option.some.injEq, reduceCtorEq, and_false, if_false,
      Nat.add_zero] at hfirst hsecond
    rw [hsecond, hfirst]
  have hentry : ∀ i, i ≠ r → i ≠ w → (((s.setPipe p ⟨fun _ => 0, 0, 0, 1, 1⟩).setFd r
      ⟨.pipeRead, some p, 0, 0⟩).setFd w ⟨.pipeWrite, some p, 0, 0⟩).gFds i = s.gFds i := by
    intro i hi hi'
    rw [setFd_gFds, Function.update_of_ne hi', setFd_gFds, Function.update_of_ne hi]
    rfl
  refine ⟨fun i hi => ?_, fun i hi => ?_, fun q qs kind hq hk => ?_, fun q qs hq => ?_,
    fun q qs hq => ?_⟩
  · by_cases hiw : i = w
    · subst hiw
      rw [setFd_gFds, Function.update_self] at hi
      cases hi
    · by_cases hir : i = r
      · subst hir
        rw [setFd_gFds, Function.update_of_ne hiw, setFd_gFds, Function.update_self] at hi
        cases hi
      · rw [hentry i hir hiw] at hi ⊢
        exact h.unused i hi
  · by_cases hiw : i = w
    · subst hiw
      rw [setFd_gFds, Function.update_self]
      exact ⟨p, _, rfl, Function.update_self ..⟩
    · by_cases hir : i = r
      · subst hir
        rw [setFd_gFds, Function.update_of_ne hiw, setFd_gFds, Function.update_self]
        exact ⟨p, _, rfl, Function.update_self ..⟩
      · rw [hentry i hir hiw] at hi ⊢
        obtain ⟨q, qs, hq, hqs⟩ := h.opened i hi
        obtain ⟨rs, hlive⟩ := setPipe_live (s := s) hqs
        exact ⟨q, rs, hq, hlive⟩
  · rw [hends]
    rcases setPipe_heap_some hq with ⟨rfl, rfl⟩ | ⟨hne, hq⟩
    · -- nothing pointed at the new pipe while its address was free
      rw [h.no_ends hp]
      cases kind
      · exact absurd rfl hk
      · simp [PipeState.refs]
      · simp [PipeState.refs]
    · rw [if_neg fun hcond => hne hcond.2.symm, if_neg fun hcond => hne hcond.2.symm]
      simp only [Nat.add_zero]
      exact h.refs q qs kind hq hk
  · rcases setPipe_heap_some hq with ⟨rfl, rfl⟩ | ⟨-, hq⟩
    · exact .inl Nat.one_ne_zero
    · exact h.held q qs hq
  · rcases setPipe_heap_some hq with ⟨rfl, rfl⟩ | ⟨-, hq⟩
    · exact ⟨by decide, by decide⟩
    · exact h.ring q qs hq

/-- Every section keeps the table and the pipes fitting together. -/
theorem section_inv (h : FdInv s) (hstep : SectionStep s l io s' l') : FdInv s' := by
  cases hstep with
  | stays => exact h
  | flagged hopen hkind hpipe => exact h.setFlags hopen hkind hpipe
  | piped hne hr hw hp => exact h.newPipe hne hr hw hp
  | dequeued _ _ hps hn => exact h.setBytes hps ((h.ring _ _ hps).dequeue hn).1 rfl rfl
  | enqueued _ _ hps hwritten => exact h.setBytes hps hwritten.ok hwritten.readers hwritten.writers
  | dropped _ hopen hpipe hps hmore => exact h.dropEnd hopen hpipe hps hmore
  | released _ hopen hpipe hps hlast => exact h.releaseEnd hopen hpipe hps hlast
  | cloned _ hopen _ hps hd hkind hpipe =>
      rw [← hkind] at hopen ⊢
      exact h.addEnd hd hopen hpipe hps

/-- A thread that comes to wait in `fakefd_write` has not written more than its source. -/
theorem section_ok (hstep : SectionStep s l io s' l') : l'.Ok := by
  cases hstep with
  | stays hok => exact hok
  | flagged | piped | dequeued | cloned => trivial
  | dropped hcloses | released hcloses =>
      rcases hcloses with ⟨-, rfl⟩ | ⟨_, -, rfl⟩ <;> trivial
  | enqueued _ _ _ hwritten =>
      rcases hwritten.next with rfl | rfl | ⟨-, _, rfl⟩
      · exact hwritten.bound
      · trivial
      · trivial

/-- A call never begins with a wait. -/
theorem enter_ok (c : Call) : (enter c).Ok := by
  cases c with
  | pipe null => cases null <;> trivial
  | read fd null count | write fd null src =>
      simp only [enter]
      split
      · trivial
      · split
        · trivial
        · split <;> trivial
  | close fd | dup fd | isOpen fd | ready fd =>
      simp only [enter]
      split <;> trivial
  | dup2 oldfd newfd =>
      simp only [enter]
      split
      · split <;> trivial
      · trivial
  | fcntl fd cmd arg =>
      simp only [enter]
      split
      · trivial
      · split <;> trivial

/-! ## Runs -/

variable {T : Type*} [DecidableEq T] {c d : Config T FdState Pc} {t : T} {e : Event}

/-- One step of a thread: it calls, returns, or executes a section. -/
theorem fd_next_cases {x : Choice} (h : fdNext x s l = some (e, s', l')) :
    (∃ call, l = .idle ∧ e = .called call ∧ s' = s ∧ l' = enter call) ∨
      (∃ r, l = .finished r ∧ e = .returned r ∧ s' = s ∧ l' = .idle) ∨
      ∃ io allocated, e = .section io ∧ (∀ p, allocated = some p → s.heap p = none) ∧
        sectionAt s allocated l = some (io, s', l') := by
  unfold fdNext at h
  split at h
  · cases h
    exact .inl ⟨_, rfl, rfl, rfl, rfl⟩
  · cases h
    exact .inr (.inl ⟨_, rfl, rfl, rfl, rfl⟩)
  · rename_i allocated _
    split at h
    · rename_i hfresh
      split at h
      · cases h
      · rename_i hsection
        cases h
        refine .inr (.inr ⟨_, allocated, rfl, ?_, hsection⟩)
        rintro p rfl
        simpa using hfresh
    · cases h
  · cases h

omit [DecidableEq T] in
/-- The invariant of a run. -/
structure RunInv (c : Config T FdState Pc) : Prop where
  fd : FdInv c.shared
  ok : ∀ t, (c.locals t).Ok

/-- What a step of a thread does in a state that satisfies the invariant. -/
theorem fd_step_cases (hinv : RunInv c) (h : Step fdProgram c (t, e) d) :
    (d.shared = c.shared ∧ (c.locals t = .idle ∨ ∃ r, c.locals t = .finished r) ∧
        (∀ io, e ≠ .section io) ∧ (d.locals t).Ok) ∨
      ∃ io, e = .section io ∧ SectionStep c.shared (c.locals t) io d.shared (d.locals t) := by
  cases h with
  | @mk _ x _ s l hnext =>
      rw [Config.set_locals_self, Config.set_shared]
      rcases fd_next_cases hnext with ⟨call, hl, rfl, rfl, rfl⟩ | ⟨r, hl, rfl, rfl, rfl⟩ |
        ⟨io, allocated, rfl, hfresh, hsection⟩
      · exact .inl ⟨rfl, .inl hl, by simp, enter_ok call⟩
      · exact .inl ⟨rfl, .inr ⟨r, hl⟩, by simp, trivial⟩
      · exact .inr ⟨io, rfl, section_step hinv.fd (hinv.ok t) hfresh hsection⟩

/-- Every step keeps the invariant. -/
theorem run_inv_step (hinv : RunInv c) (h : Step fdProgram c (t, e) d) : RunInv d := by
  have hother : ∀ u, u ≠ t → d.locals u = c.locals u := by
    intro u hu
    cases h with
    | mk => exact c.set_locals_other hu _ _
  have hlocals : (d.locals t).Ok → ∀ u, (d.locals u).Ok := by
    intro hok u
    by_cases hu : u = t
    · rw [hu]
      exact hok
    · rw [hother u hu]
      exact hinv.ok u
  rcases fd_step_cases hinv h with ⟨hsame, -, -, hok⟩ | ⟨io, -, hstep⟩
  · refine ⟨?_, hlocals hok⟩
    rw [hsame]
    exact hinv.fd
  · exact ⟨section_inv hinv.fd hstep, hlocals (section_ok hstep)⟩

omit [DecidableEq T] in
/-- At the start nothing is open and nothing is live. -/
theorem run_inv_start : RunInv (fdStart T) := by
  refine ⟨⟨fun _ _ => rfl, fun i hi => absurd rfl hi, ?_, ?_, ?_⟩, fun _ => trivial⟩
  · intro p ps kind hp
    cases hp
  · intro p ps hp
    cases hp
  · intro p ps hp
    cases hp

/-- Every run keeps the invariant. -/
theorem run_inv_run {trace : List (T × Event)} (h : Run (Step fdProgram) (fdStart T) trace c) :
    RunInv c :=
  h.invariant run_inv_start fun _ _ _ hinv hstep => run_inv_step hinv hstep

/-! ## No section follows a dangling pointer -/

/-- The loop of `fakefd_write` ends within as many rounds as there are bytes left. -/
theorem write_loop_runs {slot : Fin fakeFdCount} {p : Nat} {src : Source} {fuel : Nat} {s : FdState}
    {total : Nat} {ps : PipeState} (hps : s.heap p = some ps) (hok : ps.Ok)
    (hfuel : src.count - total < fuel) : ∃ o, writeLoop slot p src fuel s total = some o := by
  induction fuel generalizing s total ps with
  | zero => exact absurd hfuel (Nat.not_lt_zero _)
  | succ fuel ih =>
      obtain ⟨hhead, hlength⟩ := hok
      simp only [writeLoop]
      split
      · rename_i hlt
        rw [hps]
        simp only
        split
        · split <;> exact ⟨_, rfl⟩
        · split
          · exact ⟨_, rfl⟩
          · rename_i hwait hreaders
            -- a full pipe would have been waited for
            have hfree : pipeCapacity - ps.length ≠ 0 := by
              intro hzero
              exact hwait ⟨by omega, hreaders⟩
            rw [if_neg hfree]
            generalize hamount : (if src.count - total > pipeCapacity - ps.length then
              pipeCapacity - ps.length else src.count - total) = amount
            have hpos : 0 < amount := by
              split at hamount <;> omega
            have hfits : ps.length + amount ≤ pipeCapacity := by
              split at hamount <;> omega
            split
            · exact ⟨_, rfl⟩
            · have hrest : ∃ o, writeLoop slot p src fuel
                  (s.setPipe p (ps.enqueue src total amount)) (total + amount) = some o :=
                ih (Function.update_self ..)
                  (PipeState.Ok.enqueue ⟨hhead, hlength⟩ src total hfits).1 (by omega)
              obtain ⟨o, ho⟩ := hrest
              rw [ho]
              exact ⟨_, rfl⟩
      · exact ⟨_, rfl⟩

theorem read_loop_runs {slot : Fin fakeFdCount} {p count : Nat} {ps : PipeState}
    (hps : s.heap p = some ps) : ∃ o, readLoop s slot p count = some o := by
  unfold readLoop
  rw [hps]
  simp only
  split
  · split <;> exact ⟨_, rfl⟩
  · split <;> exact ⟨_, rfl⟩

theorem write_from_runs (hinv : FdInv s) {slot : Fin fakeFdCount} {p total : Nat} {src : Source}
    {ps : PipeState} (hps : s.heap p = some ps) : ∃ o, writeFrom s slot p src total = some o := by
  have hfuel : src.count - total < src.count + 1 := by omega
  have hloop : ∃ o, writeLoop slot p src (src.count + 1) s total = some o :=
    write_loop_runs hps (hinv.ring _ _ hps) hfuel
  obtain ⟨⟨bytes, s', l'⟩, ho⟩ := hloop
  unfold writeFrom
  rw [ho]
  exact ⟨_, rfl⟩

/-- The pipe of an open slot is live. -/
theorem FdInv.live (h : FdInv s) {slot : Fin fakeFdCount} {p : Nat}
    (hopen : (s.gFds slot).kind ≠ .unused) (hp : (s.gFds slot).pipe = some p) :
    ∃ ps, s.heap p = some ps := by
  obtain ⟨q, ps, hq, hps⟩ := h.opened slot hopen
  obtain rfl := Option.some.inj (hq.symm.trans hp)
  exact ⟨ps, hps⟩

theorem close_locked_runs (hinv : FdInv s) (slot : Fin fakeFdCount) :
    ∃ o, closeLocked s slot = some o := by
  unfold closeLocked
  split
  · exact ⟨_, rfl⟩
  · rename_i p hp
    split
    · exact ⟨_, rfl⟩
    · rename_i hopen
      obtain ⟨ps, hps⟩ := hinv.live hopen hp
      rw [hps]
      simp only
      split <;> exact ⟨_, rfl⟩

theorem clone_locked_runs (hinv : FdInv s) (slot : Fin fakeFdCount)
    (target : Option (Fin fakeFdCount)) (cloexec : Bool) (e : Errno) :
    ∃ o, cloneLocked s slot target cloexec e = some o := by
  unfold cloneLocked
  simp only
  split
  · exact ⟨_, rfl⟩
  · rename_i hcheck
    push Not at hcheck
    obtain ⟨p, hp⟩ := Option.ne_none_iff_exists'.1 hcheck.2
    obtain ⟨ps, hps⟩ := hinv.live hcheck.1 hp
    cases target with
    | none => exact ⟨_, rfl⟩
    | some d =>
        unfold cloneIntoSlotLocked
        simp only [hp, hps]
        split
        · rename_i hnone
          split at hnone <;> cases hnone
        · exact ⟨_, rfl⟩
        · exact ⟨_, rfl⟩

theorem fcntl_locked_runs (s : FdState) (slot : Fin fakeFdCount) (cmd arg : Int) :
    ∃ o, fcntlLocked s slot cmd arg = some o := by
  unfold fcntlLocked
  simp only
  repeat' split
  all_goals exact ⟨_, rfl⟩

theorem ready_locked_runs (hinv : FdInv s) (slot : Fin fakeFdCount) :
    ∃ o, readyLocked s slot = some o := by
  unfold readyLocked
  simp only
  split
  · exact ⟨_, rfl⟩
  · exact ⟨_, rfl⟩
  · rename_i p hkind hp
    obtain ⟨ps, hps⟩ := hinv.live (by rw [hkind]; decide) hp
    rw [hps]
    exact ⟨_, rfl⟩
  · rename_i p hkind hp
    obtain ⟨ps, hps⟩ := hinv.live (by rw [hkind]; decide) hp
    rw [hps]
    exact ⟨_, rfl⟩

theorem pipe_locked_runs (s : FdState) (allocated : Option Nat) :
    ∃ o, pipeLocked s allocated = some o := by
  unfold pipeLocked
  split
  · exact ⟨_, rfl⟩
  · simp only
    split
    · exact ⟨_, rfl⟩
    · split <;> exact ⟨_, rfl⟩

theorem read_locked_runs (hinv : FdInv s) (slot : Fin fakeFdCount) (count : Nat) :
    ∃ o, readLocked s slot count = some o := by
  unfold readLocked
  split
  · exact ⟨_, rfl⟩
  · rename_i p hp
    split
    · exact ⟨_, rfl⟩
    · rename_i hkind
      obtain ⟨ps, hps⟩ := hinv.live (by rw [not_not.1 hkind]; decide) hp
      exact read_loop_runs hps

theorem read_woken_runs (hinv : FdInv s) (slot : Fin fakeFdCount) (p count : Nat) :
    ∃ o, readWoken s slot p count = some o := by
  unfold readWoken
  split
  · exact ⟨_, rfl⟩
  · rename_i hcheck
    push Not at hcheck
    obtain ⟨ps, hps⟩ := hinv.live (by rw [hcheck.1]; decide) hcheck.2
    exact read_loop_runs hps

theorem write_locked_runs (hinv : FdInv s) (slot : Fin fakeFdCount) (src : Source) :
    ∃ o, writeLocked s slot src = some o := by
  unfold writeLocked
  split
  · exact ⟨_, rfl⟩
  · rename_i p hp
    split
    · exact ⟨_, rfl⟩
    · rename_i hkind
      obtain ⟨ps, hps⟩ := hinv.live (by rw [not_not.1 hkind]; decide) hp
      rw [hps]
      simp only
      split
      · exact ⟨_, rfl⟩
      · exact write_from_runs hinv hps

theorem write_woken_runs (hinv : FdInv s) (slot : Fin fakeFdCount) (p : Nat) (src : Source)
    (total : Nat) : ∃ o, writeWoken s slot p src total = some o := by
  unfold writeWoken
  split
  · exact ⟨_, rfl⟩
  · rename_i hcheck
    push Not at hcheck
    obtain ⟨ps, hps⟩ := hinv.live (by rw [hcheck.1]; decide) hcheck.2
    exact write_from_runs hinv hps

/-- Every section of a thread inside a call has a result: no pointer leads to a released pipe, and
the loop of `fakefd_write` ends. -/
theorem section_runs (hinv : FdInv s) (allocated : Option Nat) (hidle : l ≠ .idle)
    (hfinished : ∀ r, l ≠ .finished r) : ∃ o, sectionAt s allocated l = some o := by
  cases l with
  | idle => exact absurd rfl hidle
  | finished r => exact absurd rfl (hfinished r)
  | pipe => exact pipe_locked_runs s allocated
  | readStart slot count => exact read_locked_runs hinv slot count
  | readWait slot p count => exact read_woken_runs hinv slot p count
  | writeStart slot src => exact write_locked_runs hinv slot src
  | writeWait slot p src total => exact write_woken_runs hinv slot p src total
  | dup slot minFd cloexec => exact clone_locked_runs hinv slot _ cloexec .EMFILE
  | dup2Clone oldslot newslot => exact clone_locked_runs hinv oldslot _ false .EBUSY
  | fcntl slot cmd arg => exact fcntl_locked_runs s slot cmd arg
  | dup2Same | dup2Check | isOpen => exact ⟨_, rfl⟩
  | ready slot =>
      obtain ⟨o, ho⟩ := ready_locked_runs hinv slot
      simp only [sectionAt, ho]
      exact ⟨_, rfl⟩
  | close slot | dup2Close _ slot =>
      obtain ⟨⟨io, s', r⟩, ho⟩ := close_locked_runs hinv slot
      simp only [sectionAt, ho]
      exact ⟨_, rfl⟩

/-! ## Descriptors -/

/-- The descriptors that a section hands out as new are those of unused slots: two different ones
for a pipe, one not below the least one asked for, or the target of `fakefd_dup2`. -/
def NewUnused (s : FdState) : Pc → Pc → Prop
  | .pipe, .finished (.pipe r w) => ∃ i j, i ≠ j ∧ r = fdOfSlot i ∧ w = fdOfSlot j ∧
      (s.gFds i).kind = .unused ∧ (s.gFds j).kind = .unused
  | .dup _ minFd _, .finished (.value v) => ∃ i, v = fdOfSlot i ∧ minFd ≤ v ∧
      (s.gFds i).kind = .unused
  | .dup2Clone _ newslot, .finished (.value v) => v = fdOfSlot newslot ∧
      (s.gFds newslot).kind = .unused
  | _, _ => True

/-- The section at `l` ends its call with `l'` by handing out the descriptor of slot `d` as a new
one. -/
def Gives : Pc → Pc → Fin fakeFdCount → Prop
  | .pipe, .finished (.pipe r w), d => fdOfSlot d = r ∨ fdOfSlot d = w
  | .dup _ _ _, .finished (.value v), d => fdOfSlot d = v
  | .dup2Clone _ _, .finished (.value v), d => fdOfSlot d = v
  | _, _, _ => False

/-- The slots that a section names: the one it closes or whose flags it sets, and those whose
descriptors it hands out as new. -/
def Names : Pc → Pc → Fin fakeFdCount → Prop
  | .close slot, _, i | .dup2Close _ slot, _, i | .fcntl slot _ _, _, i => i = slot
  | l, l', i => Gives l l' i

/-- A section hands out only unused descriptors as new ones. -/
theorem section_new_unused (hstep : SectionStep s l io s' l') : NewUnused s l l' := by
  cases hstep with
  | stays _ hnew =>
      unfold NewUnused
      split
      · exact absurd trivial hnew
      · exact absurd trivial hnew
      · exact absurd trivial hnew
      · trivial
  | flagged => trivial
  | piped hne hr hw => exact ⟨_, _, hne, rfl, rfl, hr, hw⟩
  | dequeued hreads =>
      cases l with
      | readStart | readWait => trivial
      | _ => cases hreads
  | enqueued hwrites =>
      cases l with
      | writeStart | writeWait => trivial
      | _ => cases hwrites
  | dropped hcloses | released hcloses =>
      rcases hcloses with ⟨rfl, rfl⟩ | ⟨_, rfl, rfl⟩ <;> trivial
  | cloned hclones _ _ _ hd =>
      rcases hclones with ⟨minFd, cloexec, rfl, hmin⟩ | rfl
      · exact ⟨_, rfl, hmin, hd⟩
      · exact ⟨rfl, hd⟩

/-- A section leaves the slots alone that it does not name. -/
theorem section_names (hstep : SectionStep s l io s' l') {i : Fin fakeFdCount}
    (hi : ¬ Names l l' i) : s'.gFds i = s.gFds i := by
  cases hstep with
  | stays => rfl
  | flagged => exact Function.update_of_ne hi ..
  | @piped r w p =>
      have hr : i ≠ r := fun h => hi (.inl (congrArg fdOfSlot h))
      have hw : i ≠ w := fun h => hi (.inr (congrArg fdOfSlot h))
      rw [setFd_gFds, Function.update_of_ne hw, setFd_gFds, Function.update_of_ne hr, setPipe_gFds]
  | dequeued | enqueued => rfl
  | @dropped slot _ _ p ps hcloses =>
      have hslot : i ≠ slot := by
        rintro rfl
        rcases hcloses with ⟨rfl, -⟩ | ⟨_, rfl, -⟩ <;> exact hi rfl
      rw [setFd_gFds, Function.update_of_ne hslot, setPipe_gFds]
  | @released slot _ _ p ps hcloses =>
      have hslot : i ≠ slot := by
        rintro rfl
        rcases hcloses with ⟨rfl, -⟩ | ⟨_, rfl, -⟩ <;> exact hi rfl
      rw [freePipe_gFds, setFd_gFds, Function.update_of_ne hslot, setPipe_gFds]
  | @cloned slot d _ p ps e hclones =>
      have hd : i ≠ d := by
        rintro rfl
        rcases hclones with ⟨_, _, rfl, -⟩ | rfl <;> exact hi rfl
      rw [setPipe_gFds, setFd_gFds, Function.update_of_ne hd]

/-- The number of slots of a kind that point at a pipe. -/
def FdState.slots (s : FdState) (kind : FakeFdKind) (p : Nat) : Finset (Fin fakeFdCount) :=
  Finset.univ.filter fun i => (s.gFds i).kind = kind ∧ (s.gFds i).pipe = some p

/-- The state of the table between sections. -/
structure TableOk (s : FdState) : Prop where
  readers : ∀ p ps, s.heap p = some ps → ps.readers = (s.slots .pipeRead p).card
  writers : ∀ p ps, s.heap p = some ps → ps.writers = (s.slots .pipeWrite p).card
  opened : ∀ i, (s.gFds i).kind ≠ .unused → ∃ p ps, (s.gFds i).pipe = some p ∧ s.heap p = some ps
  unused : ∀ i, (s.gFds i).kind = .unused → (s.gFds i).pipe = none

/-- What a step does to the table: a live pipe is released exactly when its last end has gone, new
descriptors are those of unused slots, and slots that are not named keep what they hold. -/
structure StepOk (s : FdState) (l : Pc) (s' : FdState) (l' : Pc) : Prop where
  released : ∀ p, (∃ ps, s.heap p = some ps) →
    (s'.heap p = none ↔ (s'.slots .pipeRead p).card = 0 ∧ (s'.slots .pipeWrite p).card = 0)
  fresh : NewUnused s l l'
  named : ∀ i, ¬ Names l l' i → s'.gFds i = s.gFds i

theorem ends_eq_card (s : FdState) (kind : FakeFdKind) (p : Nat) :
    s.ends kind p = (s.slots kind p).card :=
  count_eq_card ..

theorem FdInv.tableOk (h : FdInv s) : TableOk s where
  readers p ps hp := (h.refs p ps .pipeRead hp (by decide)).trans (ends_eq_card ..)
  writers p ps hp := (h.refs p ps .pipeWrite hp (by decide)).trans (ends_eq_card ..)
  opened := h.opened
  unused i hi := by rw [h.unused i hi]; rfl

/-- A pipe is not live exactly when it has no ends. -/
theorem FdInv.released_iff (h : FdInv s) (p : Nat) :
    s.heap p = none ↔ (s.slots .pipeRead p).card = 0 ∧ (s.slots .pipeWrite p).card = 0 := by
  constructor
  · intro hnone
    rw [← ends_eq_card, ← ends_eq_card]
    exact ⟨h.no_ends hnone _, h.no_ends hnone _⟩
  · rintro ⟨hreaders, hwriters⟩
    cases hps : s.heap p with
    | none => rfl
    | some ps =>
        have hheld := h.held p ps hps
        rw [h.tableOk.readers p ps hps, h.tableOk.writers p ps hps] at hheld
        omega

/-- The table after any run of whole sections, and what one more step does to it. -/
theorem table_run {trace : List (T × Event)} (h : Run (Step fdProgram) (fdStart T) trace c) :
    TableOk c.shared ∧ ∀ t e d, Step fdProgram c (t, e) d →
      StepOk c.shared (c.locals t) d.shared (d.locals t) := by
  have hinv := run_inv_run h
  refine ⟨hinv.fd.tableOk, fun t e d hstep => ?_⟩
  have hreleased := fun p (_ : ∃ ps, c.shared.heap p = some ps) =>
    (run_inv_step hinv hstep).fd.released_iff p
  rcases fd_step_cases hinv hstep with ⟨hsame, hl, -, -⟩ | ⟨io, -, hsection⟩
  · refine ⟨hreleased, ?_, fun i _ => by rw [hsame]⟩
    rcases hl with hl | ⟨r, hl⟩ <;> rw [hl] <;> trivial
  · exact ⟨hreleased, section_new_unused hsection, fun i hi => section_names hsection hi⟩

/-- A step within a section changes nothing between sections. -/
theorem stepOk_same (h : FdInv s) (l : Pc) : StepOk s l s l where
  released p _ := h.released_iff p
  fresh := by
    cases l <;> trivial
  named _ _ := rfl

/-- One thread opens a pipe and then duplicates its read end. -/
def pipeThenDup : List (Unit × Choice) :=
  [((), .call (.pipe false)), ((), .step (some 7)), ((), .step none),
    ((), .call (.dup 900 0 false))]

/-- One thread opens a pipe and then duplicates its read end to itself. -/
def pipeThenDup2 : List (Unit × Choice) :=
  [((), .call (.pipe false)), ((), .step (some 7)), ((), .step none), ((), .call (.dup2 900 900))]

/-- The thread is about to duplicate an open slot to itself. -/
def atDup2Same (c : Threads.Config Unit FdState Pc) : Bool :=
  match c.locals () with
  | .dup2Same slot => (c.shared.gFds slot).kind ≠ .unused
  | _ => false

/-- `fakefd_dup2` of an open descriptor to itself returns it although it has not been closed. -/
theorem dup2_same_open : ¬ ∀ (trace : List (Unit × Event)) (c d : Threads.Config Unit FdState Pc)
    (e : Event) (i : Fin fakeFdCount),
    Run (Step fdProgram) (fdStart Unit) trace c → Step fdProgram c ((), e) d →
    ((∃ slot, c.locals () = .dup2Same slot) ∨
      ∃ oldslot newslot, c.locals () = .dup2Clone oldslot newslot) →
    d.locals () = .finished (.value (fdOfSlot i)) → (c.shared.gFds i).kind = .unused := by
  intro hunused
  have hexec : (fdProgram.exec (fdStart Unit) pipeThenDup2).any
      (fun r => atDup2Same r.2) = true := by
    decide
  obtain ⟨trace, c, hrun, hat⟩ := Program.exec_test hexec
  simp only [atDup2Same] at hat
  split at hat
  · rename_i slot hl
    have hopen := of_decide_eq_true hat
    have hnext : fdNext (.step none) c.shared (c.locals ()) =
        some (.section .none, c.shared, .finished (.value (fdOfSlot slot))) := by
      rw [hl]
      simp [fdNext, sectionAt, hopen]
    exact hopen (hunused trace c _ _ slot hrun (.mk hnext) (.inl ⟨slot, hl⟩)
      (Threads.Config.set_locals_self ..))
  · cases hat

end Asnx.FakeFd
