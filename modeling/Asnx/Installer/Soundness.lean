import Asnx.Installer.EndRecords
import Asnx.Installer.Extraction

/-!
# Extraction is sound and comes to an end

With a decoder that makes progress and whose output is bounded by its input, `extract_entry` comes
to an end on every archive, whatever fails on the way; when it returns 0 the target holds the
decoded bytes of the entry (`extraction_sound`). What it writes to the `.tmp` file on the way is
bounded by what the data of the entry yields, not by the declared size (`extraction_bounded`).
-/

namespace Asnx.Installer

open Interrupted Files Zlib

/-! ## Coming to an end -/

theorem ends_fails {format : String} {args : List Arg} : Ends (fails format args) :=
  ends_bind ends_update fun _ => ends_pure _

theorem ends_discard {target : Bytes} {format : String} {args : List Arg} :
    Ends (discard target format args) :=
  ends_bind (ends_operation _) fun _ => ends_fails

theorem ends_createDirectories (done rest : Bytes) : Ends (createDirectories done rest) := by
  induction rest generalizing done with
  | nil => exact ends_pure _
  | cons c rest ih =>
      unfold createDirectories
      refine ends_ite (fun _ => ih _) fun _ => ends_bind (ends_operation _) fun r => ?_
      split
      · exact ih _
      · exact ih _
      · exact ends_fails

theorem ends_createParentDirectories (filename : Bytes) : Ends (createParentDirectories filename) :=
  ends_ite (fun _ => ends_fails) fun _ => ends_createDirectories _ _

theorem ends_copyStored (out : OutFile) (fuel left : Nat) (c : Copied) :
    Ends (copyStored out fuel left c) := by
  induction fuel generalizing left c with
  | zero => exact ends_pure _
  | succ fuel ih =>
      unfold copyStored
      refine ends_ite (fun _ => ends_pure _) fun _ => ends_bind ends_step fun r => ?_
      refine ends_ite (fun _ => ends_pure _) fun _ => ends_bind ends_step fun wrote => ?_
      exact ends_ite (fun _ => ends_pure _) fun _ => ih _ _

theorem ends_afterInflate {State : Type} {out : OutFile} {c : Copied} {avail : Bytes} {left : Nat}
    {more : State → Bytes → Copied → Install Copied} {status : Status} {s : State} {consumed : Nat}
    {made : Bytes} (hmore : status = .ok ∨
      (status = .bufError ∧ ¬ (left = 0 ∧ avail.drop consumed = [])) →
        ∀ c, Ends (more s (avail.drop consumed) c)) :
    Ends (afterInflate out c avail left more (status, s, consumed, made)) := by
  refine ends_bind (ends_ite (fun _ => ends_step) fun _ => ends_pure _) fun wrote =>
    ends_ite (fun _ => ends_pure _) fun _ => ?_
  cases status with
  | ok => exact hmore (.inl rfl) _
  | streamEnd => exact ends_pure _
  | failed => exact ends_pure _
  | bufError => exact ends_ite (fun _ => ends_pure _) fun hgoes => hmore (.inr ⟨rfl, hgoes⟩) _

theorem refill_pos {left : Nat} (h : left ≠ 0) : 0 < refill [] left := by
  unfold refill zipIoBytes
  rw [if_pos ⟨rfl, h⟩]
  split <;> omega

/-- The loop for a deflated entry comes to an end: what is left of the data and of the room for
output gets less in each round. -/
theorem ends_copyInflated {Z : Inflater} (hprogress : Z.Progresses) {csize bound : Nat}
    (hbound : ∀ s fed out, Z.Session s fed out → fed.length ≤ csize → out.length ≤ bound)
    (o : OutFile) (fuel : Nat) (s : Z.State) (fed out avail : Bytes) (left : Nat) (c : Copied)
    (hsession : Z.Session s fed out) (hsize : fed.length + avail.length + left ≤ csize)
    (hfuel : avail.length + left + (bound - out.length) < fuel) :
    Ends (copyInflated Z o fuel s avail left c) := by
  induction fuel generalizing s fed out avail left c with
  | zero => exact absurd hfuel (Nat.not_lt_zero _)
  | succ fuel ih =>
      unfold copyInflated
      have hle := refill_le avail left
      refine ends_bind (ends_ite (fun _ => ends_step) fun _ => ends_pure _) ?_
      rintro ⟨got, fp⟩
      refine ends_ite (fun _ => ends_pure _) fun hlength => ?_
      have hlength : got.length = refill avail left := not_not.1 hlength
      rcases hinflate : Z.inflate s (avail ++ got) zipIoBytes (left - refill avail left = 0) with
        ⟨status, s', consumed, made⟩
      refine ends_afterInflate fun hstatus c' => ?_
      have hmore : Z.Session s' (fed ++ (avail ++ got).take consumed) (out ++ made) :=
        hsession.more hinflate (hstatus.imp_right And.left)
      -- a round that goes on has consumed input or made output
      have hprogressed : (avail ++ got).take consumed ≠ [] ∨ made ≠ [] := by
        refine hprogress _ _ _ _ _ _ _ _ _ _ hsession hinflate (hstatus.imp_right ?_)
        rintro ⟨hbuf, hgoes⟩
        refine ⟨hbuf, fun hempty => hgoes ?_, by decide⟩
        obtain ⟨rfl, rfl⟩ := List.append_eq_nil_iff.1 hempty
        have hzero : left = 0 := by
          by_contra hleft
          have hpos := refill_pos hleft
          rw [← hlength] at hpos
          exact absurd hpos (Nat.lt_irrefl 0)
        subst hzero
        exact ⟨rfl, List.drop_nil⟩
      have hsplit := congrArg List.length (List.take_append_drop consumed (avail ++ got))
      rw [List.length_append, List.length_append, hlength] at hsplit
      have hfed : (fed ++ (avail ++ got).take consumed).length ≤ csize := by
        rw [List.length_append]
        omega
      have hout := hbound _ _ _ hmore hfed
      refine ih s' _ _ _ _ c' hmore ?_ ?_
      · rw [List.length_append]
        omega
      · rw [List.length_append] at hout ⊢
        -- so the measure gets less
        have hless : 0 < ((avail ++ got).take consumed).length + made.length := by
          rcases hprogressed with htook | hmade
          · have := List.length_pos_of_ne_nil htook
            omega
          · have := List.length_pos_of_ne_nil hmade
            omega
        omega

theorem ends_replaceFile {target : Bytes} {format : String} {args : List Arg} :
    Ends (replaceFile target format args) := by
  refine ends_bind (ends_operation _) fun _ => ends_bind (ends_operation _) fun r => ?_
  cases r with
  | error => exact ends_discard
  | ok => exact ends_pure _

/-- With enough rounds `extract_entry` comes to an end. -/
theorem ends_extractEntry {Z : Inflater} (hprogress : Z.Progresses) (rounds : Nat) {e : ZipEntry}
    {bound : Nat} (hbound : ∀ s fed out, Z.Session s fed out → fed.length ≤ e.csize →
      out.length ≤ bound)
    (hrounds : e.csize + bound < rounds) (fp : InFile) (target : Bytes) :
    Ends (extractEntry Z rounds fp e target) := by
  have hfails : ∀ format args (fp : InFile),
      Ends (do let r ← fails format args; pure (r, fp) : Install (Bool × InFile)) :=
    fun _ _ _ => ends_bind ends_fails fun _ => ends_pure _
  -- only the two loops need rounds; the rest is one step after another
  have hcopy : ∀ fp out, Ends (copyEntry Z rounds fp e out) := by
    intro fp out
    refine ends_ite (fun _ => ends_copyStored _ _ _ _) fun _ => ends_bind ends_step fun r => ?_
    refine ends_ite (fun _ => ends_pure _) fun _ => ?_
    refine ends_copyInflated hprogress hbound out rounds Z.start [] [] [] e.csize _ .start ?_ ?_
    · exact Nat.le_of_eq (Nat.zero_add _)
    · show 0 + e.csize + (bound - 0) < rounds
      omega
  have hcheck : ∀ out c, Ends (checkEntry e target out c) := fun out c =>
    ends_bind ends_step fun _ => ends_ite (fun _ => ends_discard) fun _ =>
      ends_ite (fun _ => ends_discard) fun _ => ends_pure _
  have hsibling : ∀ fp, Ends (fillSibling Z rounds fp e target) := by
    intro fp
    refine ends_bind (ends_operation _) fun r => ?_
    cases r with
    | error => exact hfails _ _ _
    | ok out =>
        refine ends_bind ends_step fun _ => ends_bind ends_step fun _ =>
          ends_ite (fun _ => ?_) fun _ => ?_
        · exact ends_bind ends_step fun _ => ends_bind ends_discard fun _ => ends_pure _
        · exact ends_bind (hcopy _ _) fun c => ends_bind (hcheck _ _) fun _ => ends_pure _
  have hfill : Ends (fillEntry Z rounds fp e target) := by
    refine ends_ite (fun _ => hfails _ _ _) fun _ => ends_ite (fun _ => hfails _ _ _) fun _ => ?_
    refine ends_bind ends_step fun r => ?_
    cases r with
    | none => exact hfails _ _ _
    | some fp₁ =>
        refine ends_bind ends_step fun r => ends_ite (fun _ => hfails _ _ _) fun _ => ?_
        refine ends_bind ends_step fun r => ?_
        cases r with
        | none => exact ends_pure _
        | some fp₃ =>
            refine ends_bind (ends_createParentDirectories _) fun _ =>
              ends_ite (fun _ => ends_pure _)
              fun _ => ends_ite (fun _ => hfails _ _ _) fun _ => hsibling _
  refine ends_bind ends_update fun _ => ends_bind hfill fun r =>
    ends_ite (fun _ => ends_pure _) fun _ => ?_
  exact ends_bind ends_replaceFile fun _ => ends_ite (fun _ => ends_pure _) fun _ =>
    ends_bind ends_update fun _ => ends_pure _

/-! ## What it comes to -/

section Results

variable {Z : Inflater} {apk : Bytes} {files₀ : Contents} {notes₀ : List Note} {path : Path}
  {target : Bytes} {allowed good : Bytes → Prop} {e : ZipEntry}

/-- Files other than a target and its sibling are as before, and what the sibling holds is allowed
or was there before. -/
def Disturbed (files₀ : Contents) (target : Bytes) (allowed : Bytes → Prop) : Assertion :=
  fun files _ => (∀ q, q ≠ resolve (tmpOf target) → q ≠ resolve target → files q = files₀ q) ∧
    ∀ c, files (resolve (tmpOf target)) = some c → allowed c ∨
      files₀ (resolve (tmpOf target)) = some c

/-- The target holds `content`, and the sibling is gone. -/
def Replaced (files₀ : Contents) (target content : Bytes) : Assertion :=
  fun files _ => files = Function.update (Function.update files₀ (resolve (tmpOf target)) none)
    (resolve target) (some content)

theorem tmpOf_ne (target : Bytes) : resolve (tmpOf target) ≠ resolve target :=
  resolve_suffix_ne target (by decide) (by decide)

/-- The replacement of a target is underway: the sibling is as it was, or gone, or holds something
allowed, and the target is as it was or gone; or the target holds something allowed, and the sibling
is gone. -/
def Underway (files₀ : Contents) (target : Bytes) (allowed : Bytes → Prop) : Assertion :=
  fun files notes =>
    (∃ content old, files = Function.update
      (Function.update files₀ (resolve (tmpOf target)) content)
        (resolve target) old ∧
      (∀ c, content = some c → allowed c ∨ files₀ (resolve (tmpOf target)) = some c) ∧
      (old = none ∨ old = files₀ (resolve target))) ∨
    ∃ content, allowed content ∧ Replaced files₀ target content files notes

theorem Attempted.underway {files : Contents} {notes : List Note}
    (h : Attempted files₀ notes₀ (resolve (tmpOf target)) allowed files notes) :
    Underway files₀ target allowed files notes := by
  obtain ⟨⟨content, rfl, hcontent⟩, -⟩ := h
  refine .inl ⟨content, files₀ (resolve target), ?_, hcontent, .inr rfl⟩
  rw [Function.update_comm (tmpOf_ne target), Function.update_eq_self]

theorem Underway.disturbed {files : Contents} {notes : List Note}
    (h : Underway files₀ target allowed files notes) :
    Disturbed files₀ target allowed files notes := by
  rcases h with ⟨content, old, rfl, hcontent, -⟩ | ⟨content, -, hreplaced⟩
  · refine ⟨fun q hq hq' => ?_, fun c hc => hcontent c ?_⟩
    · rw [Function.update_of_ne hq', Function.update_of_ne hq]
    · rwa [Function.update_of_ne (tmpOf_ne target), Function.update_self] at hc
  · obtain rfl : files = _ := hreplaced
    refine ⟨fun q hq hq' => ?_, fun c hc => ?_⟩
    · rw [Function.update_of_ne hq', Function.update_of_ne hq]
    · rw [Function.update_of_ne (tmpOf_ne target), Function.update_self] at hc
      cases hc

theorem Underway.mono {allowed' : Bytes → Prop} (h : ∀ content, allowed content → allowed' content)
    {files : Contents} {notes : List Note}
    (hunderway : Underway files₀ target allowed files notes) :
    Underway files₀ target allowed' files notes := by
  rcases hunderway with ⟨content, old, hfiles, hcontent, hold⟩ | ⟨content, hallowed, hreplaced⟩
  · exact .inl ⟨content, old, hfiles, fun c hc => (hcontent c hc).imp_left (h c), hold⟩
  · exact .inr ⟨content, h _ hallowed, hreplaced⟩

/-- The target is as it was, or gone, or holds something whole. -/
def TargetWhole (files₀ : Contents) (target : Bytes) (whole : Bytes → Prop) : Assertion :=
  fun files _ => files (resolve target) = files₀ (resolve target) ∨ files (resolve target) = none ∨
    ∃ content, whole content ∧ files (resolve target) = some content

theorem Attempted.targetWhole {whole : Bytes → Prop} {files : Contents} {notes : List Note}
    (h : Attempted files₀ notes₀ (resolve (tmpOf target)) allowed files notes) :
    TargetWhole files₀ target whole files notes := by
  obtain ⟨⟨content, rfl, -⟩, -⟩ := h
  exact .inl (Function.update_of_ne (tmpOf_ne target).symm ..)

theorem Underway.targetWhole {files : Contents} {notes : List Note}
    (h : Underway files₀ target allowed files notes) :
    TargetWhole files₀ target allowed files notes := by
  rcases h with ⟨content, old, rfl, -, hold⟩ | ⟨content, hallowed, hreplaced⟩
  · unfold TargetWhole
    rw [Function.update_self]
    exact hold.elim (fun hnone => .inr (.inl hnone)) .inl
  · obtain rfl : files = _ := hreplaced
    exact .inr (.inr ⟨content, hallowed, Function.update_self ..⟩)

/-- The sibling holds `content`, and the target is as it was or gone. -/
def Displacing (files₀ : Contents) (target content : Bytes) : Assertion :=
  fun files _ => ∃ old, files = Function.update (Function.update files₀ (resolve (tmpOf target))
    (some content)) (resolve target) old ∧ (old = none ∨ old = files₀ (resolve target))

theorem Displacing.underway {files : Contents} {notes : List Note} {content : Bytes}
    (h : Displacing files₀ target content files notes) (hallowed : allowed content) :
    Underway files₀ target allowed files notes := by
  obtain ⟨old, hfiles, hold⟩ := h
  refine .inl ⟨some content, old, hfiles, ?_, hold⟩
  rintro _ ⟨⟩
  exact .inl hallowed

/-- The replacement of a target by its sibling. -/
theorem triple_replaceFile {content : Bytes} (hallowed : allowed content) {format : String}
    {args : List Arg} :
    Triple (At (Filling files₀ notes₀ (resolve (tmpOf target)) content))
      (replaceFile target format args)
      (fun r v => if r then At (Replaced files₀ target content) v
        else At (Underway files₀ target allowed) v)
      (At (Underway files₀ target allowed)) := by
  have hstart : ∀ v : View Memory, At (Filling files₀ notes₀ (resolve (tmpOf target)) content) v →
      At (Displacing files₀ target content) v := fun v hv =>
    ⟨files₀ (resolve target), by
      rw [hv.1, Function.update_comm (tmpOf_ne target), Function.update_eq_self], .inr rfl⟩
  -- a rename that fails: the sibling goes, and the target may be gone already
  have hdiscard : Triple (At (Displacing files₀ target content)) (discard target format args)
      (fun r v => if r then At (Replaced files₀ target content) v
        else At (Underway files₀ target allowed) v) (At (Underway files₀ target allowed)) := by
    refine triple_bind (R := fun _ => At (Underway files₀ target allowed))
      (triple_remove (fun v _ hv => ?_) fun v gone hv _ => ?_) fun _ =>
        triple_fails.post fun r v hv => ?_
    · exact ⟨Displacing.underway hv hallowed, Displacing.underway hv hallowed⟩
    · obtain ⟨old, hfiles, hold⟩ := hv
      have hgone : At (Underway files₀ target allowed) (v.set (resolve (tmpOf target)) none) := by
        refine .inl ⟨none, old, ?_, by simp, hold⟩
        rw [set_files, hfiles, Function.update_comm (tmpOf_ne target).symm, Function.update_idem]
      exact ⟨hgone, hgone⟩
    · rw [hv.1]
      exact hv.2
  refine triple_bind (R := fun _ => At (Displacing files₀ target content))
    (triple_remove (fun v _ hv => ?_) fun v gone hv _ => ?_) fun _ => ?_
  · exact ⟨hstart v hv, Displacing.underway (hstart v hv) hallowed⟩
  · have hremoved : At (Displacing files₀ target content) (v.set (resolve target) none) := by
      refine ⟨none, ?_, .inl rfl⟩
      rw [set_files, hv.1]
    exact ⟨hremoved, hremoved.underway hallowed⟩
  refine triple_bind (R := OrFailed (At (Displacing files₀ target content)) fun _ =>
      At (Replaced files₀ target content))
    (triple_rename (fun v _ hv => ⟨hv, Displacing.underway hv hallowed⟩) fun v moved hv hmoved =>
      ?_)
    fun r => ?_
  · obtain ⟨old, hfiles, -⟩ := hv
    rw [hfiles, Function.update_of_ne (tmpOf_ne target), Function.update_self] at hmoved
    obtain rfl := Option.some.inj hmoved
    -- the rename takes the sibling away and puts its content at the target
    have hreplaced : At (Replaced files₀ target content) (v.move (resolve (tmpOf target))
        (resolve target) content) := by
      show (v.move (resolve (tmpOf target)) (resolve target) content).files = _
      rw [move_files, hfiles, Function.update_comm (tmpOf_ne target).symm, Function.update_idem,
        Function.update_idem]
    exact ⟨hreplaced, .inr ⟨content, hallowed, hreplaced⟩⟩
  · cases r with
    | error => exact hdiscard
    | ok => exact triple_pure fun v hv => hv

/-- `extract_entry` is underway, and has not left a part of the entry at the target. -/
def Stopped (files₀ : Contents) (target : Bytes) (allowed whole : Bytes → Prop) : Assertion :=
  fun files notes => Underway files₀ target allowed files notes ∧
    TargetWhole files₀ target whole files notes

/-- `extract_entry` replaces the target by the content of the entry or is underway with it. -/
theorem triple_extractEntry (rounds : Nat) (target : Bytes) (hZ : EntryYields Z apk e good)
    {fp : InFile} (hsibling : fp.path ≠ resolve (tmpOf target)) (hapk : files₀ fp.path = some apk) :
    Triple (At (Exactly files₀ notes₀)) (extractEntry Z rounds fp e target)
      (fun r v => r.2.path = fp.path ∧ if r.1 then ∃ content, Passed good e content ∧
          Extractable Z apk e content ∧ At (Replaced files₀ target content) v
        else At (Stopped files₀ target (Extractable Z apk e) (Passed good e)) v)
      (At (Stopped files₀ target (Extractable Z apk e) (Passed good e))) := by
  refine triple_bind (R := fun _ => At (Exactly files₀ (notes₀ ++ [.extracting files₀ e])))
    (triple_note fun v hv => ?_) fun _ => ?_
  · refine ⟨hv.1, ?_⟩
    show v.rest.notes ++ _ = _
    rw [hv.2, hv.1]
  refine triple_bind (Triple.mono (triple_fillEntry hZ rfl hsibling hapk) (fun v hv => hv)
    (fun r v hv => hv) fun v hv => ⟨Attempted.underway hv, Attempted.targetWhole hv⟩) ?_
  rintro ⟨filled, fp'⟩
  refine .assume fun hpath => ?_
  refine triple_ite (fun hfilled => triple_pure fun v hv => ⟨hpath, ?_⟩) fun hfilled => ?_
  · obtain rfl : filled = false := by simpa using hfilled
    exact ⟨Attempted.underway hv, Attempted.targetWhole hv⟩
  obtain rfl : filled = true := by simpa using hfilled
  refine (Triple.exists fun content => Triple.assume fun hpassed => Triple.assume fun hallowed =>
    ?_ : Triple (fun v => ∃ content, Passed good e content ∧ Extractable Z apk e content ∧
      At (Filling files₀ (notes₀ ++ [.extracting files₀ e]) (resolve (tmpOf target)) content) v)
      _ _ _).pre fun v hv => hv
  have hstopped : ∀ v : View Memory, At (Underway files₀ target fun c =>
    Extractable Z apk e c ∧ Passed good e c) v →
      At (Stopped files₀ target (Extractable Z apk e) (Passed good e)) v := fun v hv =>
    ⟨hv.mono fun _ hc => hc.1, (hv.mono fun _ hc => hc.2).targetWhole⟩
  refine triple_bind ((triple_replaceFile ⟨hallowed, hpassed⟩).mono (fun _ hv => hv)
    (fun _ _ hv => hv) hstopped)
    fun r => ?_
  cases r with
  | false => exact triple_pure fun v hv => ⟨hpath, hstopped v hv⟩
  | true =>
      refine triple_bind (R := fun _ => At (Replaced files₀ target content))
        (triple_update fun w hw => hw) fun _ => triple_pure fun v hv => ⟨hpath, ?_⟩
      exact ⟨content, hpassed, hallowed, hv⟩

/-- What is known of a run of `extract_entry` that comes to an end. -/
theorem extractEntry_ends_well (hZ : EntryYields Z apk e good) {fp fp' : InFile} {rounds : Nat}
    {m m' : Machine (World Memory)} (hsibling : fp.path ≠ resolve (tmpOf target))
    (hapk : Holding fp.path apk m.world)
    (hrun : extractEntry Z rounds fp e target m = (some (true, fp'), m')) :
    ∃ content, Passed good e content ∧ Extractable Z apk e content ∧
      Holding (resolve target) content m'.world := by
  have htriple := triple_extractEntry rounds target hZ hsibling hapk m ⟨rfl, rfl⟩
  rw [hrun] at htriple
  obtain ⟨-, content, hpassed, hallowed, hfiles⟩ := htriple
  refine ⟨content, hpassed, hallowed, ?_⟩
  show m'.world.fs.file (resolve target) = some content
  rw [show m'.world.fs.file = _ from hfiles, Function.update_self]

end Results

/-! ## Soundness -/

/-- With a decoder of zlib, the data of an entry yields its bytes. -/
theorem entryYields_of_decodes {Z : Inflater} {decode : Bytes → Option Bytes}
    (hdecodes : Z.Decodes decode) (apk : Bytes) (e : ZipEntry) :
    EntryYields Z apk e fun content => entryBytes decode apk e = some content := by
  refine ⟨fun hmethod hlength => ?_, fun hmethod => ?_⟩
  · unfold entryBytes
    rw [if_pos hmethod, if_pos hlength]
  · unfold entryBytes
    rw [if_neg hmethod]
    exact hdecodes.endsIn _

/-- `extract_entry` comes to an end on every archive, and if it returns 0 the target holds exactly
the decoded bytes of the entry, as many as it declares and with the checksum that it declares. -/
theorem extraction_sound {Z : Inflater} {decode : Bytes → Option Bytes}
    (hdecodes : Z.Decodes decode)
    (hprogress : Z.Progresses) (hbounded : Z.Bounded) (e : ZipEntry) (target : Bytes) :
    ∃ enough, ∀ rounds, enough ≤ rounds → ∀ apk fp m, Powered Anyhow m.decisions →
      Holding fp.path apk m.world → fp.path ≠ resolve (tmpOf target) →
      ∃ r fp' m', extractEntry Z rounds fp e target m = (some (r, fp'), m') ∧
        (r = true → ∃ content, Holding (resolve target) content m'.world ∧
          entryBytes decode apk e = some content ∧ content.length = e.usize ∧
          Zlib.crc32 0 content = e.crc32) := by
  obtain ⟨bound, hbound⟩ := hbounded e.csize
  refine ⟨e.csize + bound + 1, fun rounds hrounds apk fp m hm hapk hsibling => ?_⟩
  obtain ⟨⟨r, fp'⟩, m', hrun, -⟩ :=
    (ends_extractEntry hprogress rounds hbound (by omega) fp target).run hm
  refine ⟨r, fp', m', hrun, ?_⟩
  rintro rfl
  obtain ⟨content, hpassed, -, hcontent⟩ :=
    extractEntry_ends_well (entryYields_of_decodes hdecodes apk e) hsibling hapk hrun
  exact ⟨content, hcontent, hpassed.good, hpassed.size, hpassed.crc⟩

/-- A raw deflate stream of three bytes, which decodes to the one byte `a`. -/
def deflatedA : Bytes := [0x4b, 0x04, 0x00]

/-- An archive that begins with a local header, and the entry that it belongs to. -/
def smallArchive (data : Bytes) : Bytes := [0x50, 0x4b, 0x03, 0x04] ++ List.replicate 26 0 ++ data

def smallEntry (method csize usize : Nat) (crc : UInt32) : ZipEntry :=
  ⟨manifestName, 0, method, crc, csize, usize, 0⟩

/-- The extraction of an entry of three bytes that decode to one. -/
theorem extraction_sound_small :
    (Inflater.ofStream deflatedA [97]).Decodes (decodeStream deflatedA [97]) ∧
    (Inflater.ofStream deflatedA [97]).Progresses ∧ (Inflater.ofStream deflatedA [97]).Bounded ∧
    ∃ enough, ∀ rounds, enough ≤ rounds → ∀ apk fp m, Powered Anyhow m.decisions →
      Holding fp.path apk m.world → fp.path ≠ resolve (tmpOf (inDataRoot manifestName)) →
      ∃ r fp' m', extractEntry (Inflater.ofStream deflatedA [97]) rounds fp
          (smallEntry 8 3 1 0xE8B7BE43) (inDataRoot manifestName) m = (some (r, fp'), m') ∧
        (r = true → ∃ content, Holding (resolve (inDataRoot manifestName)) content m'.world ∧
          entryBytes (decodeStream deflatedA [97]) apk (smallEntry 8 3 1 0xE8B7BE43) =
            some content ∧
          content.length = 1 ∧ Zlib.crc32 0 content = 0xE8B7BE43) :=
  ⟨Inflater.ofStream_decodes, Inflater.ofStream_progresses, Inflater.ofStream_bounded,
    extraction_sound Inflater.ofStream_decodes Inflater.ofStream_progresses
      Inflater.ofStream_bounded _ _⟩

/-! ## The space that is used -/

/-- At every moment the `.tmp` file holds what it held before, or no more than the data of the entry
yields; and `extract_entry` returns 0 only when that is exactly as much as the entry declares. -/
theorem extraction_bounded (Z : Inflater) (rounds : Nat) (e : ZipEntry) (target : Bytes)
    {apk : Bytes} {fp : InFile} {m : Machine (World Memory)} (hapk : Holding fp.path apk m.world)
    (hsibling : fp.path ≠ resolve (tmpOf target)) :
    (∀ content, Holding (resolve (tmpOf target)) content
      (extractEntry Z rounds fp e target m).2.world →
      Holding (resolve (tmpOf target)) content m.world ∨
        (Extractable Z apk e content ∧ (e.method = 0 → content.length ≤ e.csize))) ∧
    (∀ fp', (extractEntry Z rounds fp e target m).1 = some (true, fp') →
      ∃ content, Holding (resolve target) content (extractEntry Z rounds fp e target m).2.world ∧
        Extractable Z apk e content ∧ content.length = e.usize) := by
  have hyields : EntryYields Z apk e fun _ => True :=
    ⟨fun _ _ => trivial, fun _ _ _ _ _ _ _ _ _ _ _ _ _ => trivial⟩
  have htriple := triple_extractEntry rounds target hyields hsibling hapk m ⟨rfl, rfl⟩
  have hunderway : At (Underway m.world.fs.file target (Extractable Z apk e))
      (extractEntry Z rounds fp e target m).2.world.view := by
    rcases hrun : extractEntry Z rounds fp e target m with ⟨_ | ⟨_ | _, fp'⟩, m'⟩
    · rw [hrun] at htriple
      exact htriple.1
    · rw [hrun] at htriple
      exact htriple.2.1
    · rw [hrun] at htriple
      obtain ⟨-, content, -, hextractable, hreplaced⟩ := htriple
      exact .inr ⟨content, hextractable, hreplaced⟩
  refine ⟨fun content hcontent => ?_, fun fp' hreturned => ?_⟩
  · refine (hunderway.disturbed.2 content hcontent).symm.imp_right fun hextractable =>
      ⟨hextractable, fun hstored => ?_⟩
    unfold Extractable at hextractable
    rw [if_pos hstored] at hextractable
    exact hextractable.length_le.trans (List.length_take_le _ _)
  · obtain ⟨content, hpassed, hextractable, hcontent⟩ :=
      extractEntry_ends_well hyields hsibling hapk (Prod.ext hreturned rfl)
    exact ⟨content, hcontent, hextractable, hpassed.size⟩

/-- The world with the runtime directory and one file. -/
def runtimeWorld (path : Path) (content : Bytes) : World Memory :=
  ⟨Fs.put (AList.insert (resolve dataRoot) .dir ∅) path content, [], .init⟩

theorem holding_runtimeWorld (path : Path) (content : Bytes) :
    Holding path content (runtimeWorld path content) := by
  show Fs.file (Fs.put _ path content) path = some content
  rw [file_put, Function.update_self]

/-- An archive with a stored entry of three bytes that declares one. -/
def overlongArchive : Bytes := smallArchive [1, 2, 3]

def overlongEntry : ZipEntry := smallEntry 0 3 1 0

/-- The extraction of that entry, with the decisions given. -/
def extractOverlong (decisions : Nat → Decision) :
    Option (Bool × InFile) × Machine (World Memory) :=
  extractEntry (.ofStream [] []) 0 ⟨[[97]], 0, false⟩ overlongEntry (inDataRoot manifestName)
    ⟨runtimeWorld [[97]] overlongArchive, decisions, 0⟩

theorem extraction_bounded_overlong :
    (∀ content, Holding (resolve (tmpOf (inDataRoot manifestName))) content
        (extractOverlong fun _ => .good).2.world →
      Holding (resolve (tmpOf (inDataRoot manifestName))) content
          (runtimeWorld [[97]] overlongArchive) ∨
        (Extractable (.ofStream [] []) overlongArchive overlongEntry content ∧
          (overlongEntry.method = 0 → content.length ≤ overlongEntry.csize))) ∧
    (∀ fp', (extractOverlong fun _ => .good).1 = some (true, fp') →
      ∃ content, Holding (resolve (inDataRoot manifestName)) content
          (extractOverlong fun _ => .good).2.world ∧
        Extractable (.ofStream [] []) overlongArchive overlongEntry content ∧
        content.length = overlongEntry.usize) := by
  have hsibling : [[97]] ≠ resolve (tmpOf (inDataRoot manifestName)) := by decide +kernel
  unfold extractOverlong
  exact extraction_bounded (.ofStream [] []) 0 overlongEntry (inDataRoot manifestName)
    (holding_runtimeWorld _ _) hsibling

/-- The `.tmp` file comes to hold three bytes although the entry declares one: the power is lost
when it is closed. -/
theorem extraction_exceeds_usize :
    (extractOverlong fun i => ⟨i = 8, false, 0⟩).2.world.fs.file
      (resolve (tmpOf (inDataRoot manifestName))) = some [1, 2, 3] ∧
    overlongEntry.usize < [1, 2, 3].length := by
  refine ⟨?_, by decide⟩
  decide +kernel

end Asnx.Installer
