import Asnx.Runtime.TraceLedger

/-!
# No line is lost silently

Every line that comes to the lock is in the file once, or in the active bank, or counted as dropped
(`lines_accounted`), as long as no line is appended to a bank that a pump is still to clear. The
switch of `trace_pump_force` lets that happen when the bank it leaves is empty: a second pump may
switch back to it before the first has cleared it (`line_lost`).
-/

namespace Asnx.Runtime.Trace

open Threads Holding

variable {T : Type*}

/-- The file is made of fillings of a bank, each with its lines in their order. -/
structure Filled (trace : List (T × Event)) (s : TraceState)
    (written : List (List Entry)) : Prop where
  file : fileBytes s.file = written.map bytesOf
  ordered : ∀ filling ∈ written, filling.Sublist (entries trace)

/-- Every line that has been appended is in the file or in the active bank, once, and every dropped
line is in a number that is reported, or to be reported. -/
structure Accounted (trace : List (T × Event)) (s : TraceState) (written : List (List Entry))
    (waiting : List Entry) : Prop extends Filled trace s written where
  active : (s.gTraceBuf s.gTraceActive).take (s.gTraceLen s.gTraceActive) = bytesOf waiting
  other : s.gTraceLen (!s.gTraceActive) = 0
  once : (written.flatten ++ waiting).Perm (entries trace)
  waiting : waiting.Sublist (entries trace)
  dropped : drops trace = reported s.file + s.gTraceDropped

/-! ## Runs -/

section Runs

variable {c d : Config T TraceState Pc} {trace : List (T × Event)}

/-- The banks, the lines and the dropped lines. -/
def Inv (trace : List (T × Event)) (c : Config T TraceState Pc) : Prop :=
  BankInv c.shared c.locals ∧
    (∃ written unwritten, FillInv c.shared c.locals (entries trace) written unwritten) ∧
    Counted c.shared c.locals trace

theorem Initial.inv (h : Initial c) : Inv ([] : List (T × Event)) c := by
  refine ⟨⟨fun b => ?_, fun t b ht => ?_, fun b hb =>
    absurd (h.len b) hb, fun t b len dropped ht => ?_⟩,
    ⟨[], fun _ => [], ?_⟩, 0, summed_zero fun t => ?_, ?_⟩
  · rw [h.len]
    exact Nat.zero_le _
  · rw [h.idle] at ht
    cases ht
  · rw [h.idle] at ht
    cases ht
  · refine ⟨?_, .refl _, nofun, fun _ => .refl _, fun b _ => ?_, fun _ _ _ => rfl, nofun,
      fun t line ht => ?_⟩
    · rw [h.file]
      rfl
    · rw [h.len, List.take_zero]
      rfl
    · rw [h.idle] at ht
      cases ht
  · rw [h.idle]
    rfl
  · rw [h.file, h.dropped]
    rfl

theorem Inv.step [DecidableEq T] {label : T × Event} (h : Inv trace c)
    (hstep : Step logger c label d)
    (hsound : Sound c label) : Inv (trace ++ [label]) d := by
  obtain ⟨hbanks, ⟨written, unwritten, hfill⟩, hcounted⟩ := h
  cases hstep with
  | @mk t x e s pc hnext =>
      have hmove := traceNext_move hnext
      have hkept : ∀ line, e = .kept line → ∀ u, (c.locals u).pending ≠
          some c.shared.gTraceActive := by
        rintro line rfl
        exact hsound
      have hdrops : ∀ line, e = .drops line → c.shared.gTraceDropped + 1 < 2 ^ 32 := by
        rintro line rfl
        exact hsound
      exact ⟨hbanks.step hmove hkept, hfill.step hbanks hmove hkept, hcounted.step hmove hdrops⟩

/-- When no call is in progress, a bank that is not active is empty, and there are no dropped lines
other than those that have been counted. -/
theorem Inv.accounted (h : Inv trace d) (hidle : ∀ t, d.locals t = .idle)
    {written : List (List Entry)} {unwritten : Bool → List Entry}
    (hfill : FillInv d.shared d.locals (entries trace) written unwritten) :
    Accounted trace d.shared written (unwritten d.shared.gTraceActive) := by
  obtain ⟨hbanks, -, n, hsum, hdrops⟩ := h
  have hother : d.shared.gTraceLen (!d.shared.gTraceActive) = 0 := by
    by_contra hpos
    rcases hbanks.taken _ hpos with hactive | ⟨t, ht⟩
    · exact Bool.not_ne_self _ hactive.symm
    · rw [hidle] at ht
      cases ht
  have hnone := hfill.unwritten_eq_nil hother
  have hn : n = 0 := hsum.eq_zero fun t => by
    rw [hidle]
    rfl
  refine ⟨⟨hfill.file, hfill.filled⟩, hfill.bank _ fun t ht => ?_, hother, ?_, hfill.filling _, ?_⟩
  · rw [hidle] at ht
    cases ht
  · have honce := hfill.once
    cases hactive : d.shared.gTraceActive with
    | true =>
        rw [hactive] at hnone
        rw [show unwritten false = [] from hnone] at honce
        exact honce
    | false =>
        rw [hactive] at hnone
        rw [show unwritten true = [] from hnone, List.append_nil] at honce
        exact honce
  · rw [hdrops, hn, Nat.add_zero]

/-- In every interleaving in which no line is appended to a bank that a pump has left and not
cleared, the file is made of fillings in their order, and when no call is in progress no line has
been lost. -/
theorem lines_accounted [DecidableEq T] (hinit : Initial c)
    (hrun : Run (fun c label d => Step logger c label d ∧ Sound c label) c trace d) :
    ∃ written, Filled trace d.shared written ∧
      ((∀ t, d.locals t = .idle) → ∃ waiting, Accounted trace d.shared written waiting) := by
  have hinv : Inv trace d :=
    hrun.invariant_trace hinit.inv fun trace c label d hinv hstep => hinv.step hstep.1 hstep.2
  obtain ⟨written, unwritten, hfill⟩ := hinv.2.1
  exact ⟨written, ⟨hfill.file, hfill.filled⟩, fun hidle => ⟨_, hinv.accounted hidle hfill⟩⟩

end Runs

/-! ## Two threads -/

/-- Two threads before their first call. -/
def twoThreads : Config Bool TraceState Pc :=
  ⟨⟨false, fun _ => 0, fun _ => [], 0, []⟩, fun _ => .idle⟩

theorem initial_twoThreads : Initial twoThreads :=
  ⟨fun _ => rfl, rfl, fun _ => rfl, fun _ => rfl, rfl, rfl⟩

instance (c : Config Bool TraceState Pc) (label : Bool × Event) : Decidable (Sound c label) := by
  unfold Sound
  cases label.2 <;> infer_instance

/-- The thread `t` logs the line, or flushes; a step within a call leaves the choice alone. -/
def logs (t : Bool) (line : Line) : Bool × Choice := (t, ⟨.printf line, false⟩)

def flushes (t : Bool) : Bool × Choice := (t, ⟨.pump true, false⟩)

/-- One thread logs a line, both flush, and the other logs a line. -/
def sharing : List (Bool × Choice) :=
  List.replicate 2 (logs false [97]) ++ List.replicate 3 (flushes true) ++
    List.replicate 2 (flushes false) ++ List.replicate 2 (flushes true) ++
    List.replicate 2 (logs true [98])

theorem lines_accounted_sharing : ∃ trace d,
    Run (fun c label d => Step logger c label d ∧ Sound c label) twoThreads trace d ∧
      kept trace = [[97], [98]] ∧ fileBytes d.shared.file = [[97]] ∧
      ∃ written waiting, Accounted trace d.shared written waiting := by
  have htest : (logger.execIf (fun c label => decide (Sound c label)) twoThreads sharing).any
    (fun r =>
      decide (kept r.1 = [[97], [98]] ∧ fileBytes r.2.shared.file = [[97]] ∧
        ∀ t, r.2.locals t = .idle)) = true := by decide +kernel
  obtain ⟨⟨trace, d⟩, hexec, hp⟩ := (Option.any_eq_true _ _).1 htest
  obtain ⟨hkept, hfile, hidle⟩ := of_decide_eq_true hp
  have hrun : Run (fun c label d => Step logger c label d ∧ Sound c label) twoThreads trace d :=
    (Program.exec_if_run hexec).mono fun _ _ _ h => ⟨h.1, of_decide_eq_true h.2⟩
  obtain ⟨written, -, haccounted⟩ := lines_accounted initial_twoThreads hrun
  exact ⟨trace, d, hrun, hkept, hfile, written, haccounted hidle⟩

/-- One thread flushes the empty bank 0 and is held up; the other flushes the empty bank 1 and logs
a line, which comes to bank 0. -/
def crossing : List (Bool × Choice) :=
  List.replicate 2 (flushes false) ++ List.replicate 5 (flushes true) ++
    List.replicate 2 (logs true [97]) ++ List.replicate 3 (flushes false)

/-- The line is cleared with the bank: it is neither in the file nor in a bank, and nothing has been
dropped. -/
theorem line_lost : ∃ trace d, Run (Step logger) twoThreads trace d ∧ (∀ t, d.locals t = .idle) ∧
    kept trace = [[97]] ∧ d.shared.file = [] ∧ (∀ b, d.shared.gTraceLen b = 0) ∧
    d.shared.gTraceDropped = 0 ∧ ¬ ∃ written waiting, Accounted trace d.shared written waiting := by
  have htest : (logger.exec twoThreads crossing).any (fun r =>
      decide ((∀ t, r.2.locals t = .idle) ∧ kept r.1 = [[97]] ∧ r.2.shared.file = [] ∧
        (∀ b, r.2.shared.gTraceLen b = 0) ∧ r.2.shared.gTraceDropped = 0)) =
          true := by decide +kernel
  obtain ⟨trace, d, hrun, hp⟩ := Program.exec_test htest
  obtain ⟨hidle, hkept, hfile, hlen, hdropped⟩ := of_decide_eq_true hp
  refine ⟨trace, d, hrun, hidle, hkept, hfile, hlen, hdropped, ?_⟩
  rintro ⟨written, waiting, h⟩
  have hentries : entries trace = [([97], 0)] := by
    unfold entries
    rw [hkept]
    rfl
  have hwritten : written = [] := by
    have hpieces := h.file
    rw [hfile] at hpieces
    exact List.map_eq_nil_iff.1 hpieces.symm
  have hwaiting : waiting = [([97], 0)] := by
    have honce := h.once
    rw [hwritten, hentries] at honce
    exact List.perm_singleton.1 honce
  have hbytes := h.active
  rw [hlen, List.take_zero, hwaiting] at hbytes
  cases hbytes

end Asnx.Runtime.Trace
