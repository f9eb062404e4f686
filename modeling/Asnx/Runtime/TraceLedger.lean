import Asnx.Library.Holding
import Asnx.Runtime.TraceLog
import Mathlib.Algebra.GroupWithZero.Nat
import Mathlib.Data.List.Perm.Basic

/-!
# What becomes of a line

What the steps of the threads do to the banks (`BankInv`), to the lines in them and in the file
(`FillInv`), and to the number of dropped lines (`Counted`), as long as no line is appended to a
bank that a pump has left and not cleared (`Sound`).
-/

namespace Asnx.Runtime.Trace

open Threads Holding

variable {T : Type*}

/-! ## Lines and pieces -/

/-- A line, with its number among the lines that have been kept. -/
abbrev Entry := Line × Nat

/-- The lines that have been appended to a bank, in their order. -/
def kept (trace : List (T × Event)) : List Line :=
  trace.filterMap fun e => match e.2 with
    | .kept line => some line
    | _ => none

/-- The lines that have been appended, each with its number. -/
def entries (trace : List (T × Event)) : List Entry := (kept trace).zipIdx

/-- The lines that have been dropped. -/
def Event.drop : Event → Nat
  | .drops _ => 1
  | _ => 0

def drops (trace : List (T × Event)) : Nat := (trace.map fun e => e.2.drop).sum

/-- The bytes of some lines. -/
def bytesOf (filling : List Entry) : List UInt8 := (filling.map Prod.fst).flatten

/-- The bytes that have been written to the file, write by write. -/
def fileBytes (file : List Piece) : List (List UInt8) :=
  file.filterMap fun piece => match piece with
    | .bytes content => some content
    | .dropped _ => none

/-- The number of dropped lines that the file reports. -/
def Piece.reports : Piece → Nat
  | .bytes _ => 0
  | .dropped n => n

def reported (file : List Piece) : Nat := (file.map Piece.reports).sum

section Snoc

variable {trace : List (T × Event)} {t : T} {file : List Piece}

theorem entries_kept (line : Line) :
    entries (trace ++ [(t, .kept line)]) = entries trace ++ [(line, (kept trace).length)] := by
  unfold entries kept
  rw [List.filterMap_append, List.zipIdx_append]
  simp

theorem entries_other {e : Event} (he : ∀ line, e ≠ .kept line) :
    entries (trace ++ [(t, e)]) = entries trace := by
  unfold entries kept
  rw [List.filterMap_append]
  cases e with
  | kept line => exact absurd rfl (he line)
  | inner | drops => simp

theorem drops_snoc {e : Event} : drops (trace ++ [(t, e)]) = drops trace + e.drop := by
  simp [drops]

theorem bytesOf_append (filling filling' : List Entry) :
    bytesOf (filling ++ filling') = bytesOf filling ++ bytesOf filling' := by
  simp [bytesOf]

theorem fileBytes_bytes (content : List UInt8) :
    fileBytes (file ++ [.bytes content]) = fileBytes file ++ [content] := by
  simp [fileBytes]

theorem fileBytes_dropped (n : Nat) : fileBytes (file ++ [.dropped n]) = fileBytes file := by
  simp [fileBytes]

theorem reported_snoc (piece : Piece) : reported (file ++ [piece]) =
    reported file + piece.reports := by
  simp [reported]

/-- Lines are not empty, so no bytes are no lines. -/
theorem bytesOf_eq_nil {filling : List Entry} (hlines : ∀ e ∈ filling, e.1 ≠ []) :
    bytesOf filling = [] ↔ filling = [] := by
  constructor
  · intro hnil
    cases filling with
    | nil => rfl
    | cons e rest =>
        have hline := hlines e List.mem_cons_self
        have hfirst : e.1 = [] := by
          unfold bytesOf at hnil
          exact List.flatten_eq_nil_iff.1 hnil e.1 (List.mem_map_of_mem List.mem_cons_self)
        exact absurd hfirst hline
  · rintro rfl
    rfl

end Snoc

/-! ## What a step can do -/

/-- The bank that a pump has left and not cleared. -/
def Pc.pending : Pc → Option Bool
  | .write old _ _ | .report old _ | .clear old => some old
  | _ => none

/-- The bank that a pump has written and not cleared. -/
def Pc.wrote : Pc → Option Bool
  | .report old _ | .clear old => some old
  | _ => none

/-- The dropped lines that a pump is to report. -/
def Pc.owes : Pc → Nat
  | .write _ _ dropped | .report _ dropped => dropped
  | _ => 0

/-- The state after a line has been appended. -/
def TraceState.keep (s : TraceState) (line : Line) : TraceState :=
  { s with
    gTraceBuf := Function.update s.gTraceBuf s.gTraceActive
      (memcpy (s.gTraceBuf s.gTraceActive) (s.gTraceLen s.gTraceActive) line)
    gTraceLen := Function.update s.gTraceLen s.gTraceActive
      (s.gTraceLen s.gTraceActive + line.length) }

/-- The steps of a thread. -/
inductive Move (s : TraceState) : Pc → Event → TraceState → Pc → Prop where
  | stay : Move s .idle .inner s .idle
  | call {line : Line} (hline : line ≠ []) : Move s .idle .inner s (.append line)
  | pump : Move s .idle .inner s .switch
  | keep (line : Line) : Move s (.append line) (.kept line) (s.keep line) .idle
  | drop (line : Line) :
      Move s (.append line) (.drops line)
        { s with gTraceDropped := (s.gTraceDropped + 1) % 2 ^ 32 } .idle
  | blocked : Move s .switch .inner s .idle
  | switch (hfree : s.gTraceLen (!s.gTraceActive) = 0) :
      Move s .switch .inner { s with gTraceDropped := 0, gTraceActive := !s.gTraceActive }
        (.write s.gTraceActive (s.gTraceLen s.gTraceActive) s.gTraceDropped)
  | write (old : Bool) {len : Nat} (dropped : Nat) (hlen : len ≠ 0) :
      Move s (.write old len dropped) .inner
        { s with file := s.file ++ [.bytes ((s.gTraceBuf old).take len)] } (.report old dropped)
  | skip (old : Bool) (dropped : Nat) : Move s (.write old 0 dropped) .inner s (.report old dropped)
  | report (old : Bool) (dropped : Nat) :
      Move s (.report old dropped) .inner
        { s with file := s.file ++ [.dropped dropped] } (.clear old)
  | silent (old : Bool) : Move s (.report old 0) .inner s (.clear old)
  | clear (old : Bool) :
      Move s (.clear old) .inner { s with gTraceLen := Function.update s.gTraceLen old 0 } .idle

theorem traceNext_move {x : Choice} {s s' : TraceState} {pc pc' : Pc} {e : Event}
    (h : traceNext x s pc = some (e, s', pc')) : Move s pc e s' pc' := by
  unfold traceNext at h
  cases pc with
  | idle =>
      dsimp only at h
      split at h
      · split at h
        · cases h
          exact .stay
        · rename_i hline
          cases h
          exact .call hline
      · split at h
        · cases h
          exact .stay
        · cases h
          exact .pump
  | append line =>
      unfold appendStep at h
      dsimp only at h
      split at h
      · cases h
        exact .keep line
      · cases h
        exact .drop line
  -- a pump: the banks change places, and the old one is written, reported and cleared
  | switch =>
      unfold switchStep at h
      dsimp only at h
      split at h
      · cases h
        exact .blocked
      · rename_i hfree
        cases h
        exact .switch (not_not.1 hfree)
  | write old len dropped =>
      dsimp only at h
      split at h
      · rename_i hlen
        cases h
        exact .write old dropped hlen
      · rename_i hlen
        cases h
        rw [not_not.1 hlen]
        exact .skip old dropped
  | report old dropped =>
      dsimp only at h
      split at h
      · cases h
        exact .report old dropped
      · rename_i hdropped
        cases h
        rw [not_not.1 hdropped]
        exact .silent old
  | clear old =>
      cases h
      exact .clear old

/-- No line is appended to a bank that a pump has left and not cleared, and the number of dropped
lines does not wrap. -/
def Sound (c : Config T TraceState Pc) (label : T × Event) : Prop :=
  match label.2 with
  | .kept _ => ∀ t, (c.locals t).pending ≠ some c.shared.gTraceActive
  | .drops _ => c.shared.gTraceDropped + 1 < 2 ^ 32
  | .inner => True

/-! ## The banks -/

section Banks

variable [DecidableEq T] {s s' : TraceState} {at' : T → Pc} {t : T} {pc : Pc} {b : Bool}

/-- A bank that is not empty is active, or one pump is to write and clear it. -/
structure BankInv (s : TraceState) (at' : T → Pc) : Prop where
  room : ∀ b, s.gTraceLen b ≤ (s.gTraceBuf b).length
  alone : ∀ t b, (at' t).pending = some b → s.gTraceLen b ≠ 0 →
    s.gTraceActive ≠ b ∧ ∀ u, (at' u).pending = some b → u = t
  taken : ∀ b, s.gTraceLen b ≠ 0 → s.gTraceActive = b ∨ ∃ t, (at' t).pending = some b
  amount : ∀ t b len dropped, at' t = .write b len dropped → len = s.gTraceLen b

/-- A step that leaves the banks alone, by a thread that does not leave one. -/
theorem BankInv.keep (h : BankInv s at') (hactive : s'.gTraceActive = s.gTraceActive)
    (hlen : s'.gTraceLen = s.gTraceLen) (hbuf : s'.gTraceBuf = s.gTraceBuf)
    (hpending : pc.pending = (at' t).pending)
    (hwrite : ∀ b len dropped, pc ≠ .write b len dropped) :
    BankInv s' (Function.update at' t pc) := by
  have hsame : ∀ u, (Function.update at' t pc u).pending = (at' u).pending := by
    intro u
    by_cases hu : u = t
    · subst hu
      rw [Function.update_self, hpending]
    · rw [Function.update_of_ne hu]
  refine ⟨fun b => ?_, fun u b => ?_, fun b => ?_, fun u b len dropped hu => ?_⟩
  · rw [hlen, hbuf]
    exact h.room b
  · simp only [hsame, hlen, hactive]
    exact h.alone u b
  · simp only [hsame, hlen, hactive]
    exact h.taken b
  · by_cases hut : u = t
    · subst hut
      rw [Function.update_self] at hu
      exact absurd hu (hwrite b len dropped)
    · rw [Function.update_of_ne hut] at hu
      rw [hlen]
      exact h.amount u b len dropped hu

/-- A line is appended to the active bank, which no pump is to clear. -/
theorem BankInv.append (h : BankInv s at') (line : Line)
    (hsound : ∀ u, (at' u).pending ≠ some s.gTraceActive) (hpc : (at' t).pending = none) :
    BankInv (s.keep line) (Function.update at' t .idle) := by
  -- whoever is to clear a bank is another thread, and the bank another one
  have hother : ∀ u b, (Function.update at' t .idle u).pending = some b →
      (at' u).pending = some b ∧ b ≠ s.gTraceActive := by
    intro u b hu
    by_cases hut : u = t
    · subst hut
      rw [Function.update_self] at hu
      cases hu
    · rw [Function.update_of_ne hut] at hu
      refine ⟨hu, ?_⟩
      rintro rfl
      exact hsound u hu
  have hlen : ∀ b, b ≠ s.gTraceActive → (s.keep line).gTraceLen b = s.gTraceLen b :=
    fun b hb => Function.update_of_ne hb ..
  refine ⟨fun b => ?_, fun u b hu hpos => ?_, fun b hpos => ?_, fun u b len dropped hu => ?_⟩
  · have hroom := h.room b
    by_cases hb : b = s.gTraceActive
    · subst hb
      show Function.update s.gTraceLen _ _ _ ≤ (Function.update s.gTraceBuf _ _ _).length
      rw [Function.update_self, Function.update_self]
      unfold memcpy
      rw [List.length_append, List.length_append, List.length_take]
      omega
    · show Function.update s.gTraceLen _ _ _ ≤ (Function.update s.gTraceBuf _ _ _).length
      rw [Function.update_of_ne hb, Function.update_of_ne hb]
      exact hroom
  · obtain ⟨hub, hb⟩ := hother u b hu
    rw [hlen b hb] at hpos
    obtain ⟨hactive, hunique⟩ := h.alone u b hub hpos
    exact ⟨hactive, fun v hv => hunique v (hother v b hv).1⟩
  · by_cases hb : b = s.gTraceActive
    · exact .inl hb.symm
    · rw [hlen b hb] at hpos
      rcases h.taken b hpos with hactive | ⟨u, hu⟩
      · exact .inl hactive
      · have hut : u ≠ t := by
          rintro rfl
          rw [hpc] at hu
          cases hu
        exact .inr ⟨u, by rw [Function.update_of_ne hut]; exact hu⟩
  · have hub := hother u b (congrArg Pc.pending hu)
    rw [hlen b hub.2]
    refine h.amount u b len dropped ?_
    by_cases hut : u = t
    · subst hut
      rw [Function.update_self] at hu
      cases hu
    · rw [Function.update_of_ne hut] at hu
      exact hu

/-- A pump leaves the active bank, when the other one is empty. -/
theorem BankInv.switch (h : BankInv s at') (hfree : s.gTraceLen (!s.gTraceActive) = 0) :
    BankInv { s with gTraceDropped := 0, gTraceActive := !s.gTraceActive }
      (Function.update at' t (.write s.gTraceActive (s.gTraceLen s.gTraceActive)
        s.gTraceDropped)) := by
  have hold : ∀ b, s.gTraceLen b ≠ 0 → b = s.gTraceActive := by
    intro b hpos
    by_contra hb
    rw [Bool.eq_not.2 hb] at hpos
    exact hpos hfree
  refine ⟨h.room, fun u b hu hpos => ?_, fun b hpos => ?_, fun u b len dropped hu => ?_⟩
  · have hb := hold b hpos
    subst hb
    -- nobody else has left the bank, since it was active
    have hnobody : ∀ v, v ≠ t → (Function.update at' t (.write s.gTraceActive
        (s.gTraceLen s.gTraceActive) s.gTraceDropped) v).pending ≠ some s.gTraceActive := by
      intro v hv hpending
      rw [Function.update_of_ne hv] at hpending
      exact (h.alone v _ hpending hpos).1 rfl
    have hut : u = t := by
      by_contra hut
      exact hnobody u hut hu
    refine ⟨Bool.not_ne_self _, fun v hv => ?_⟩
    rw [hut]
    by_contra hvt
    exact hnobody v hvt hv
  · refine .inr ⟨t, ?_⟩
    rw [Function.update_self, hold b hpos]
    rfl
  · by_cases hut : u = t
    · subst hut
      rw [Function.update_self] at hu
      cases hu
      rfl
    · rw [Function.update_of_ne hut] at hu
      exact h.amount u b len dropped hu

/-- A pump clears the bank that it has left. -/
theorem BankInv.clear (h : BankInv s at') (hpc : at' t = .clear b) :
    BankInv { s with gTraceLen := Function.update s.gTraceLen b 0 }
      (Function.update at' t .idle) := by
  have hpending : (at' t).pending = some b := congrArg Pc.pending hpc
  have hother : ∀ u b', (Function.update at' t .idle u).pending = some b' →
      u ≠ t ∧ (at' u).pending = some b' := by
    intro u b' hu
    by_cases hut : u = t
    · subst hut
      rw [Function.update_self] at hu
      cases hu
    · rw [Function.update_of_ne hut] at hu
      exact ⟨hut, hu⟩
  -- a bank that is not empty after the step was not before, and is not the cleared one
  have hlen : ∀ b', Function.update s.gTraceLen b 0 b' ≠ 0 → b' ≠ b ∧ s.gTraceLen b' ≠ 0 := by
    intro b' hpos
    by_cases hb : b' = b
    · subst hb
      rw [Function.update_self] at hpos
      exact absurd rfl hpos
    · rw [Function.update_of_ne hb] at hpos
      exact ⟨hb, hpos⟩
  refine ⟨fun b' => ?_, fun u b' hu hpos => ?_, fun b' hpos => ?_, fun u b' len dropped hu => ?_⟩
  · show Function.update s.gTraceLen b 0 b' ≤ _
    by_cases hb : b' = b
    · subst hb
      rw [Function.update_self]
      exact Nat.zero_le _
    · rw [Function.update_of_ne hb]
      exact h.room b'
  · obtain ⟨hactive, hunique⟩ := h.alone u b' (hother u b' hu).2 (hlen b' hpos).2
    exact ⟨hactive, fun v hv => hunique v (hother v b' hv).2⟩
  · obtain ⟨hb, hpos⟩ := hlen b' hpos
    rcases h.taken b' hpos with hactive | ⟨u, hu⟩
    · exact .inl hactive
    · have hut : u ≠ t := by
        rintro rfl
        rw [hpending] at hu
        exact hb (Option.some.inj hu).symm
      exact .inr ⟨u, by rw [Function.update_of_ne hut]; exact hu⟩
  · obtain ⟨hut, hub⟩ := hother u b' (congrArg Pc.pending hu)
    rw [Function.update_of_ne hut] at hu
    have hamount := h.amount u b' len dropped hu
    show len = Function.update s.gTraceLen b 0 b'
    by_cases hb : b' = b
    · subst hb
      rw [Function.update_self, hamount]
      by_contra hpos
      -- two threads would be at the same bank
      exact hut ((h.alone t b' hpending hpos).2 u hub)
    · rw [Function.update_of_ne hb]
      exact hamount

theorem BankInv.step (h : BankInv s at') {e : Event} (hmove : Move s (at' t) e s' pc)
    (hsound : ∀ line, e = .kept line → ∀ u, (at' u).pending ≠ some s.gTraceActive) :
    BankInv s' (Function.update at' t pc) := by
  generalize hpc : at' t = old at hmove
  cases hmove with
  | keep line => exact h.append line (hsound line rfl) (congrArg Pc.pending hpc)
  | switch hfree => exact h.switch hfree
  | clear b => exact h.clear hpc
  | stay | call | pump | drop | blocked | write | skip | report | silent =>
      exact h.keep rfl rfl rfl (congrArg Pc.pending hpc).symm nofun

end Banks

/-! ## The lines in the banks -/

section Fillings

variable [DecidableEq T] {s s' : TraceState} {at' : T → Pc} {t : T} {pc : Pc} {b : Bool}
variable {all : List Entry} {written : List (List Entry)} {unwritten : Bool → List Entry}

/-- All the lines are in one of the fillings that have been written, or in a bank that is still to
be written. -/
structure FillInv (s : TraceState) (at' : T → Pc) (all : List Entry) (written : List (List Entry))
    (unwritten : Bool → List Entry) : Prop where
  file : fileBytes s.file = written.map bytesOf
  once : (written.flatten ++ (unwritten false ++ unwritten true)).Perm all
  filled : ∀ filling ∈ written, filling.Sublist all
  filling : ∀ b, (unwritten b).Sublist all
  bank : ∀ b, (∀ t, (at' t).wrote ≠ some b) →
    (s.gTraceBuf b).take (s.gTraceLen b) = bytesOf (unwritten b)
  wrote : ∀ t b, (at' t).wrote = some b → unwritten b = []
  lines : ∀ e ∈ all, e.1 ≠ []
  calls : ∀ t line, at' t = .append line → line ≠ []

theorem Pc.pending_of_wrote (h : pc.wrote = some b) : pc.pending = some b := by
  cases pc with
  | report | clear => exact h
  | idle | append | switch | write => cases h

/-- What nobody has written after a step of `t` nobody had written before, if `t` had not. -/
theorem wrote_of_update (h : ∀ u, (Function.update at' t pc u).wrote ≠ some b)
    (ht : (at' t).wrote ≠ some b) : ∀ u, (at' u).wrote ≠ some b := by
  intro u
  by_cases hu : u = t
  · rw [hu]
    exact ht
  · have hwrote := h u
    rw [Function.update_of_ne hu] at hwrote
    exact hwrote

/-- A line that a thread brings is not empty after a step of `t`, if `t` brings none or a call has
just begun. -/
theorem FillInv.calls_update (h : FillInv s at' all written unwritten)
    (hpc : ∀ line, pc = .append line → line ≠ []) :
    ∀ u line, Function.update at' t pc u = .append line → line ≠ [] := by
  intro u line hu
  by_cases hut : u = t
  · rw [hut, Function.update_self] at hu
    exact hpc line hu
  · rw [Function.update_of_ne hut] at hu
    exact h.calls u line hu

omit [DecidableEq T] in
/-- A bank that is empty holds no lines. -/
theorem FillInv.unwritten_eq_nil (h : FillInv s at' all written unwritten)
    (hlen : s.gTraceLen b = 0) :
    unwritten b = [] := by
  by_cases hwrote : ∃ t, (at' t).wrote = some b
  · obtain ⟨t, ht⟩ := hwrote
    exact h.wrote t b ht
  · have hbank := h.bank b fun t ht => hwrote ⟨t, ht⟩
    rw [hlen, List.take_zero] at hbank
    exact (bytesOf_eq_nil fun e he => h.lines e ((h.filling b).subset he)).1 hbank.symm

/-- A step that leaves the banks and their bytes alone, by a thread that has written what it had
written before. -/
theorem FillInv.keep (h : FillInv s at' all written unwritten) (hlen : s'.gTraceLen = s.gTraceLen)
    (hbuf : s'.gTraceBuf = s.gTraceBuf) (hfile : fileBytes s'.file = fileBytes s.file)
    (hwrote : pc.wrote = (at' t).wrote) (hpc : ∀ line, pc = .append line → line ≠ []) :
    FillInv s' (Function.update at' t pc) all written unwritten := by
  have hsame : ∀ u, (Function.update at' t pc u).wrote = (at' u).wrote := by
    intro u
    by_cases hu : u = t
    · rw [hu, Function.update_self, hwrote]
    · rw [Function.update_of_ne hu]
  refine ⟨hfile.trans h.file, h.once, h.filled, h.filling, ?_, ?_, h.lines, h.calls_update hpc⟩
  · intro b hb
    simp only [hsame] at hb
    rw [hlen, hbuf]
    exact h.bank b hb
  · intro u b hu
    rw [hsame] at hu
    exact h.wrote u b hu

/-- The bytes of a bank with a line appended. -/
theorem take_memcpy {buf : List UInt8} {len : Nat} (line : Line) (hlen : len ≤ buf.length) :
    (memcpy buf len line).take (len + line.length) = buf.take len ++ line := by
  have hlength : (buf.take len ++ line).length = len + line.length := by
    rw [List.length_append, List.length_take, Nat.min_eq_left hlen]
  unfold memcpy
  rw [← hlength]
  exact List.take_left

/-- A line is appended to the active bank, which nobody has written. -/
theorem FillInv.append (h : FillInv s at' all written unwritten) (hbanks : BankInv s at')
    {line : Line}
    (n : Nat) (hpc : at' t = .append line) (hsound : ∀ u, (at' u).pending ≠ some s.gTraceActive) :
    FillInv (s.keep line) (Function.update at' t .idle) (all ++ [(line, n)]) written
      (Function.update unwritten s.gTraceActive (unwritten s.gTraceActive ++ [(line, n)])) := by
  have hline := h.calls t line hpc
  have hsub : ∀ filling : List Entry, filling.Sublist all → filling.Sublist (all ++ [(line, n)]) :=
    fun filling hfilling => hfilling.trans (List.sublist_append_left ..)
  -- who has written a bank is to clear it, and nobody is to clear the active one
  have hnobody : ∀ u, (at' u).wrote ≠ some s.gTraceActive :=
    fun u hu => hsound u (Pc.pending_of_wrote hu)
  have hbefore : (at' t).wrote = none := congrArg Pc.wrote hpc
  refine ⟨h.file, ?_, fun filling hf => hsub _ (h.filled filling hf), fun b => ?_, fun b hb => ?_,
    fun u b hu => ?_, ?_, h.calls_update nofun⟩
  · -- the new line stands behind those of its own bank
    have hgrown : (written.flatten ++ (unwritten false ++ unwritten true) ++ [(line, n)]).Perm
        (all ++ [(line, n)]) := h.once.append_right _
    refine .trans ?_ hgrown
    cases s.gTraceActive with
    | true => simp
    | false =>
        simp only [Function.update_self, Function.update_of_ne Bool.false_ne_true.symm,
          List.append_assoc]
        exact (List.perm_append_comm.append_left _).append_left _
  · by_cases hb : b = s.gTraceActive
    · subst hb
      rw [Function.update_self]
      exact (h.filling _).append (.refl _)
    · rw [Function.update_of_ne hb]
      exact hsub _ (h.filling b)
  · show (Function.update s.gTraceBuf _ _ b).take (Function.update s.gTraceLen _ _ b) = _
    by_cases hactive : b = s.gTraceActive
    · subst hactive
      rw [Function.update_self, Function.update_self, Function.update_self,
        take_memcpy line (hbanks.room _), h.bank _ hnobody, bytesOf_append]
      simp [bytesOf]
    · rw [Function.update_of_ne hactive, Function.update_of_ne hactive,
        Function.update_of_ne hactive]
      refine h.bank b (wrote_of_update hb ?_)
      rw [hbefore]
      nofun
  · by_cases hut : u = t
    · rw [hut, Function.update_self] at hu
      cases hu
    · rw [Function.update_of_ne hut] at hu
      have hb : b ≠ s.gTraceActive := by
        rintro rfl
        exact hnobody u hu
      rw [Function.update_of_ne hb]
      exact h.wrote u b hu
  · intro e he
    rcases List.mem_append.1 he with he | he
    · exact h.lines e he
    · rw [List.mem_singleton.1 he]
      exact hline

/-- A pump writes the bank that it has left. -/
theorem FillInv.write (h : FillInv s at' all written unwritten) (hbanks : BankInv s at')
    {len dropped : Nat} (hpc : at' t = .write b len dropped) (hlen : len ≠ 0) :
    FillInv { s with file := s.file ++ [.bytes ((s.gTraceBuf b).take len)] }
      (Function.update at' t (.report b dropped)) all (written ++ [unwritten b])
      (Function.update unwritten b []) := by
  have hamount := hbanks.amount t b len dropped hpc
  rw [hamount] at hlen
  -- no other pump is at this bank, so it is as it was left
  have hnobody : ∀ u, (at' u).wrote ≠ some b := by
    intro u hu
    have hsame := (hbanks.alone t b (congrArg Pc.pending hpc) hlen).2 u (Pc.pending_of_wrote hu)
    rw [hsame, hpc] at hu
    cases hu
  have hbytes := h.bank b hnobody
  refine ⟨?_, ?_, fun filling hf => ?_, fun b' => ?_, fun b' hb' => ?_, fun u b' hu => ?_, h.lines,
    h.calls_update nofun⟩
  · rw [fileBytes_bytes, h.file, hamount, hbytes, List.map_append]
    rfl
  · refine .trans ?_ h.once
    cases b with
    | false => simp
    | true =>
        simp only [Function.update_self, Function.update_of_ne Bool.false_ne_true,
          List.flatten_append, List.append_nil, List.append_assoc, List.flatten_cons,
            List.flatten_nil]
        exact List.perm_append_comm.append_left _
  · rcases List.mem_append.1 hf with hf | hf
    · exact h.filled filling hf
    · rw [List.mem_singleton.1 hf]
      exact h.filling b
  · by_cases hb : b' = b
    · rw [hb, Function.update_self]
      exact List.nil_sublist _
    · rw [Function.update_of_ne hb]
      exact h.filling b'
  · have hb : b' ≠ b := by
      rintro rfl
      have hself := hb' t
      rw [Function.update_self] at hself
      exact hself rfl
    rw [Function.update_of_ne hb]
    refine h.bank b' (wrote_of_update hb' ?_)
    rw [hpc]
    nofun
  · by_cases hb : b' = b
    · rw [hb, Function.update_self]
    · rw [Function.update_of_ne hb]
      by_cases hut : u = t
      · rw [hut, Function.update_self] at hu
        exact absurd (Option.some.inj hu).symm hb
      · rw [Function.update_of_ne hut] at hu
        exact h.wrote u b' hu

/-- A pump writes nothing of a bank that it has left empty. -/
theorem FillInv.skip (h : FillInv s at' all written unwritten) (hbanks : BankInv s at')
    {dropped : Nat} (hpc : at' t = .write b 0 dropped) :
    FillInv s (Function.update at' t (.report b dropped)) all written unwritten := by
  have hnone := h.unwritten_eq_nil (hbanks.amount t b 0 dropped hpc).symm
  refine ⟨h.file, h.once, h.filled, h.filling, fun b' hb' => ?_, fun u b' hu => ?_, h.lines,
    h.calls_update nofun⟩
  · refine h.bank b' (wrote_of_update hb' ?_)
    rw [hpc]
    nofun
  · by_cases hut : u = t
    · rw [hut, Function.update_self] at hu
      rw [← Option.some.inj hu]
      exact hnone
    · rw [Function.update_of_ne hut] at hu
      exact h.wrote u b' hu

/-- A pump clears the bank that it has written. -/
theorem FillInv.clear (h : FillInv s at' all written unwritten) (hpc : at' t = .clear b) :
    FillInv { s with gTraceLen := Function.update s.gTraceLen b 0 }
      (Function.update at' t .idle) all
      written unwritten := by
  have hwrote : (at' t).wrote = some b := congrArg Pc.wrote hpc
  refine ⟨h.file, h.once, h.filled, h.filling, fun b' hb' => ?_, fun u b' hu => ?_, h.lines,
    h.calls_update nofun⟩
  · show (s.gTraceBuf b').take (Function.update s.gTraceLen b 0 b') = _
    by_cases hb : b' = b
    · rw [hb, Function.update_self, List.take_zero, h.wrote t b hwrote]
      rfl
    · rw [Function.update_of_ne hb]
      refine h.bank b' (wrote_of_update hb' ?_)
      rw [hwrote]
      exact fun hsome => hb (Option.some.inj hsome).symm
  · by_cases hut : u = t
    · rw [hut, Function.update_self] at hu
      cases hu
    · rw [Function.update_of_ne hut] at hu
      exact h.wrote u b' hu

theorem FillInv.step {trace : List (T × Event)} {e : Event}
    (h : FillInv s at' (entries trace) written unwritten) (hbanks : BankInv s at')
    (hmove : Move s (at' t) e s' pc)
    (hsound : ∀ line, e = .kept line → ∀ u, (at' u).pending ≠ some s.gTraceActive) :
    ∃ written' unwritten', FillInv s' (Function.update at' t pc)
      (entries (trace ++ [(t, e)])) written'
      unwritten' := by
  generalize hpc : at' t = old at hmove
  have hother : (∀ line, e ≠ .kept line) → entries (trace ++ [(t, e)]) = entries trace :=
    entries_other
  cases hmove with
  | keep line =>
      rw [entries_kept]
      exact ⟨_, _, h.append hbanks _ hpc (hsound line rfl)⟩
  | write b dropped hlen =>
      rw [hother nofun]
      exact ⟨_, _, h.write hbanks hpc hlen⟩
  | skip b dropped =>
      rw [hother nofun]
      exact ⟨_, _, h.skip hbanks hpc⟩
  | clear b =>
      rw [hother nofun]
      exact ⟨_, _, h.clear hpc⟩
  | report b dropped =>
      rw [hother nofun]
      exact ⟨_, _, h.keep rfl rfl (fileBytes_dropped dropped) (congrArg Pc.wrote hpc).symm nofun⟩
  | call hline =>
      rw [hother nofun]
      refine ⟨_, _, h.keep rfl rfl rfl (congrArg Pc.wrote hpc).symm fun line hcall => ?_⟩
      cases hcall
      exact hline
  | stay | pump | drop | blocked | switch | silent =>
      rw [hother nofun]
      exact ⟨_, _, h.keep rfl rfl rfl (congrArg Pc.wrote hpc).symm nofun⟩

end Fillings

/-! ## The dropped lines -/

/-- The lines that have been dropped are reported in the file, or counted, or a pump is to report
them. -/
def Counted (s : TraceState) (at' : T → Pc) (trace : List (T × Event)) : Prop :=
  ∃ n, Summed (fun t => (at' t).owes) n ∧ drops trace = reported s.file + s.gTraceDropped + n

theorem Counted.step [DecidableEq T] {s s' : TraceState} {at' : T → Pc} {t : T}
    {pc : Pc} {e : Event}
    {trace : List (T × Event)} (h : Counted s at' trace) (hmove : Move s (at' t) e s' pc)
    (hsound : ∀ line, e = .drops line → s.gTraceDropped + 1 < 2 ^ 32) :
    Counted s' (Function.update at' t pc) (trace ++ [(t, e)]) := by
  obtain ⟨n, hsum, htotal⟩ := h
  obtain ⟨m, hsum', hm⟩ := hsum.update t pc
  refine ⟨m, hsum', ?_⟩
  rw [drops_snoc, htotal]
  generalize at' t = old at hmove hm
  cases hmove with
  | drop line =>
      have hwrap : (s.gTraceDropped + 1) % 2 ^ 32 = s.gTraceDropped + 1 :=
        Nat.mod_eq_of_lt (hsound line rfl)
      simp only [Pc.owes, Event.drop] at hm ⊢
      omega
  | write | report =>
      simp only [Pc.owes, Event.drop, reported_snoc, Piece.reports] at hm ⊢
      omega
  | stay | call | pump | keep | blocked | switch | skip | silent | clear =>
      simp only [Pc.owes, Event.drop, TraceState.keep] at hm ⊢
      omega

end Asnx.Runtime.Trace
