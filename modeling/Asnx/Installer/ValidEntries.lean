import Asnx.Installer.Soundness
import Asnx.Installer.Targets

/-!
# Valid entries

While every operation succeeds, `extract_entry` extracts a well formed entry, unless the decoder
takes the last of the data in a call that does not end the stream: the loop takes the full output
buffer for a stream that is cut short (`valid_entries_extract_iff`).
-/

namespace Asnx.Installer

open Interrupted Files Zlib

/-! ## Separators -/

/-- Where the last separator stands is determined. -/
theorem append_separator_inj {a b c d : Bytes} (hb : 47 ∉ b) (hd : 47 ∉ d)
    (h : a ++ 47 :: b = c ++ 47 :: d) : a = c ∧ b = d := by
  rcases List.append_eq_append_iff.1 h with ⟨x, rfl, hx⟩ | ⟨x, rfl, hx⟩
  · cases x with
    | nil => exact ⟨(List.append_nil a).symm, (List.cons.inj hx).2⟩
    | cons y x =>
        obtain ⟨-, rfl⟩ := List.cons.inj hx
        exact absurd (List.mem_append_right x List.mem_cons_self) hb
  · cases x with
    | nil => exact ⟨List.append_nil c, (List.cons.inj hx).2.symm⟩
    | cons y x =>
        obtain ⟨-, rfl⟩ := List.cons.inj hx
        exact absurd (List.mem_append_right x List.mem_cons_self) hd

/-- What stands before a separator leads to the directory before the last one, or above it. -/
theorem resolve_prefix {a b dir name : Bytes} (hname : 47 ∉ name)
    (h : a ++ 47 :: b = dir ++ 47 :: name) : resolve a <+: resolve dir := by
  rcases List.append_eq_append_iff.1 h with ⟨x, rfl, hx⟩ | ⟨x, rfl, hx⟩
  · cases x with
    | nil =>
        rw [List.append_nil]
    | cons y x =>
        obtain ⟨rfl, -⟩ := List.cons.inj hx
        rw [resolve_append]
        exact List.prefix_append _ _
  · cases x with
    | nil =>
        rw [List.append_nil]
    | cons y x =>
        obtain ⟨-, rfl⟩ := List.cons.inj hx
        exact absurd (List.mem_append_right x List.mem_cons_self) hname

/-! ## Directories -/

/-- The names of the files that the extraction to a target works on. -/
structure Workplace where
  /-- The archive. -/
  path : Path
  /-- The directory of the target, and its name there. -/
  parent : Path
  last : Bytes
  apk : Bytes

def Workplace.target (p : Workplace) : Path := p.parent ++ [p.last]

def Workplace.sibling (p : Workplace) : Path := p.parent ++ [tmpOf p.last]

/-- The archive is there, no file is in the way of the directories, and neither the target nor its
sibling is a directory. -/
structure Workplace.Free (p : Workplace) (w : World Memory) : Prop where
  archive : Holding p.path p.apk w
  parents : ∀ q, q <+: p.parent → w.fs.file q = none
  target : w.fs.isDir p.target = false
  sibling : w.fs.isDir p.sibling = false

/-- The directory of the target is there, too. -/
structure Workplace.Prepared (p : Workplace) (w : World Memory) : Prop where
  archive : Holding p.path p.apk w
  parent : w.fs.isDir p.parent = true
  target : w.fs.isDir p.target = false

/-- The sibling holds `content`. -/
structure Workplace.Holds (p : Workplace) (content : Bytes) (w : World Memory) : Prop
    extends p.Prepared w where
  holds : Holding p.sibling content w

section Directories

variable {p : Workplace} {w : World Memory} {content : Bytes}

theorem Workplace.sibling_ne_target (p : Workplace) : p.sibling ≠ p.target := by
  intro h
  have hlast := congrArg List.length (List.head_eq_of_cons_eq (List.append_cancel_left h))
  rw [tmpOf, List.length_append] at hlast
  have hlong : 0 < (bytes ".tmp").length := by decide
  omega

theorem Workplace.parent_ne (p : Workplace) (name : Bytes) : p.parent ≠ p.parent ++ [name] := by
  intro h
  have hlength := congrArg List.length h
  rw [List.length_append, List.length_singleton] at hlength
  omega

/-- A directory that is made on the way to the target takes nothing away. -/
theorem Workplace.Free.insert (h : p.Free w) {q : Path} (hq : q <+: p.parent)
    (hnone : w.fs.lookup q = none) : p.Free { w with fs := w.fs.insert q .dir } := by
  have hne : ∀ name, p.parent ++ [name] ≠ q := by
    rintro name rfl
    have hlength := hq.length_le
    rw [List.length_append, List.length_singleton] at hlength
    omega
  refine ⟨?_, fun r hr => ?_, ?_, ?_⟩
  · show Fs.file (w.fs.insert q .dir) p.path = some p.apk
    rw [file_insert_dir hnone]
    exact h.archive
  · show Fs.file (w.fs.insert q .dir) r = none
    rw [file_insert_dir hnone]
    exact h.parents r hr
  · exact (isDir_insert_dir (hne _)).trans h.target
  · exact (isDir_insert_dir (hne _)).trans h.sibling

/-- The rounds of the loop that makes the directories: `done ++ rest` is the target, `dir` what
stands before the last separator of it, and `d` what stands before the last one of `done`. -/
theorem total_createDirectories {dir name : Bytes} (hname : 47 ∉ name)
    (hdir : resolve dir = p.parent)
    (rest d c : Bytes) (hc : 47 ∉ c) (htarget : d ++ 47 :: c ++ rest = dir ++ 47 :: name) :
    Total Calm (fun w => p.Free w ∧ w.fs.isDir (resolve d) = true)
      (createDirectories (d ++ 47 :: c) rest)
      fun r w => r = true ∧ p.Free w ∧ w.fs.isDir p.parent = true := by
  induction rest generalizing d c with
  | nil =>
      refine total_pure fun w hw => ⟨rfl, hw.1, ?_⟩
      rw [List.append_nil] at htarget
      obtain ⟨rfl, -⟩ := append_separator_inj hc hname htarget
      rw [← hdir]
      exact hw.2
  | cons b rest ih =>
      unfold createDirectories
      refine total_ite (fun hb => ?_) fun hb => ?_
      · rw [List.append_assoc, List.cons_append]
        refine ih d (c ++ [b]) ?_ ?_
        · rw [List.mem_append, List.mem_singleton]
          rintro (h | rfl)
          · exact hc h
          · exact hb rfl
        · rw [← htarget]
          simp
      -- a separator: what stands before it is a directory on the way to the target
      obtain rfl : b = 47 := not_not.1 hb
      have hprefix : resolve (d ++ 47 :: c) <+: p.parent := by
        rw [← hdir]
        exact resolve_prefix hname htarget
      refine total_bind (R := fun r w => (r = .ok () ∨ r = .error .eexist) ∧ p.Free w ∧
        w.fs.isDir (resolve (d ++ 47 :: c)) = true) (total_mkdir (fun w hw hsome => ?_)
          fun w hw hnone => ?_) ?_
      · -- something is there already, and it is no file
        refine ⟨.inr rfl, hw.1, ?_⟩
        have hfile := hw.1.parents _ hprefix
        unfold Fs.isDir
        refine decide_eq_true (.inr ?_)
        unfold Fs.file at hfile
        split at hfile
        · cases hfile
        · rename_i hnot
          obtain ⟨node, hnode⟩ := Option.isSome_iff_exists.1 hsome
          cases node with
          | file content => exact absurd hnode (hnot content)
          | dir => exact hnode
      · -- it is made, in a directory that is there
        refine ⟨?_, .inl rfl, hw.1.insert hprefix hnone, isDir_insert_self _ _⟩
        have hhere := hw.2
        rw [resolve_append, resolve_name hc] at hnone ⊢
        split
        · rw [List.dropLast_concat]
          exact hhere
        · rename_i hempty
          rw [if_neg hempty, List.append_nil] at hnone
          rw [List.append_nil]
          rcases of_decide_eq_true hhere with hroot | hlookup
          · rw [hroot]
            rfl
          · rw [hnone] at hlookup
            cases hlookup
      rintro (e | u)
      · refine .assume fun he => ?_
        obtain rfl : e = .eexist := by
          rcases he with he | he
          · cases he
          · exact Except.error.inj he
        have hround := ih (d ++ 47 :: c) [] (by simp) (by rw [← htarget]; simp)
        exact hround
      · have hround := ih (d ++ 47 :: c) [] (by simp) (by rw [← htarget]; simp)
        exact hround.pre fun w hw => hw.2

end Directories

/-! ## Copying -/

section Copying

variable {p : Workplace} {content : Bytes}

/-- The archive is neither the target nor its sibling. -/
structure Workplace.Apart (p : Workplace) : Prop where
  sibling : p.path ≠ p.sibling
  target : p.path ≠ p.target

/-- The sibling gets another content. -/
theorem Workplace.Prepared.put (hapart : p.Apart) {w : World Memory} (h : p.Prepared w)
    (content : Bytes) : p.Holds content { w with fs := w.fs.put p.sibling content } := by
  refine ⟨⟨?_, ?_, ?_⟩, ?_⟩
  · show Fs.file (w.fs.put p.sibling content) p.path = some p.apk
    rw [file_put, Function.update_of_ne hapart.sibling]
    exact h.archive
  · exact (isDir_put (p.parent_ne _) _).trans h.parent
  · exact (isDir_put p.sibling_ne_target.symm _).trans h.target
  · show Fs.file (w.fs.put p.sibling content) p.sibling = some content
    rw [file_put, Function.update_self]

theorem total_fwrite_sibling (hapart : p.Apart) {more : Bytes} :
    Total Calm (p.Holds content) (fwrite ⟨p.sibling⟩ more) fun r w =>
      r = true ∧ p.Holds (content ++ more) w :=
  total_fwrite fun _ hw => ⟨content, hw.holds, rfl, hw.toPrepared.put hapart _⟩

theorem total_fread_archive {fp : InFile} {n : Nat} (hpath : fp.path = p.path) :
    Total Calm (p.Holds content) (fread fp n : Install (Bytes × InFile)) fun r w =>
      r = (slice p.apk fp.pos n, ⟨p.path, fp.pos + (slice p.apk fp.pos n).length, fp.err⟩) ∧
        p.Holds content w := by
  rw [← hpath]
  exact total_fread fun w hw => by
    rw [hpath]
    exact hw.archive

/-- The loop for a stored entry copies the next `left` bytes, by induction on the rounds. -/
theorem total_copyStored (hapart : p.Apart) (fuel left : Nat) (c : Copied) (content : Bytes)
    (hpath : c.fp.path = p.path) (hok : c.ok = true) (hfuel : left ≤ fuel)
    (hcounted : Counted c content) (hthere : (slice p.apk c.fp.pos left).length = left) :
    Total Calm (p.Holds content) (copyStored ⟨p.sibling⟩ fuel left c) fun c' w =>
      (c'.ok = true ∧ Counted c' (content ++ slice p.apk c.fp.pos left)) ∧
        p.Holds (content ++ slice p.apk c.fp.pos left) w := by
  have hdone : ∀ (c : Copied) (content : Bytes), c.ok = true → Counted c content →
      Total Calm (p.Holds content) (pure c) fun c' w =>
        (c'.ok = true ∧ Counted c' (content ++ slice p.apk c.fp.pos 0)) ∧
          p.Holds (content ++ slice p.apk c.fp.pos 0) w := by
    intro c content hok hcounted
    have hnil : content ++ slice p.apk c.fp.pos 0 = content := List.append_nil content
    rw [hnil]
    exact total_pure fun w hw => ⟨⟨hok, hcounted⟩, hw⟩
  induction fuel generalizing left c content with
  | zero =>
      obtain rfl := Nat.le_zero.1 hfuel
      exact hdone c content hok hcounted
  | succ fuel ih =>
      unfold copyStored
      refine total_ite (fun hleft => ?_) fun hleft => ?_
      · subst hleft
        exact hdone c content hok hcounted
      generalize hn : (if left < zipIoBytes then left else zipIoBytes) = n
      have hle : n ≤ left := by
        split at hn <;> omega
      have hpos : 0 < n := by
        unfold zipIoBytes at hn
        split at hn <;> omega
      have hpiece : (slice p.apk c.fp.pos n).length = n := by
        refine length_slice_of_add (n := left - n) ?_
        rw [Nat.add_sub_cancel' hle, hthere]
      have hrest : slice p.apk c.fp.pos n ++ slice p.apk (c.fp.pos + n) (left - n) =
          slice p.apk c.fp.pos left := by
        rw [slice_add, Nat.add_sub_cancel' hle]
      have hlength := congrArg List.length hrest
      rw [List.length_append, hpiece, hthere] at hlength
      refine total_bind_eq (total_fread_archive hpath) ?_
      dsimp only
      rw [hpiece]
      refine total_ite (fun h => absurd rfl h) fun _ => ?_
      refine total_bind_eq (total_fwrite_sibling hapart) ?_
      refine (ih (left - n) ⟨c.ok, c.written + n, Zlib.crc32 c.crc (slice p.apk c.fp.pos n),
        ⟨p.path, c.fp.pos + n, c.fp.err⟩⟩ (content ++ slice p.apk c.fp.pos n) rfl hok (by omega)
        (hcounted.append (by rw [hpiece]) rfl) (by dsimp only; omega)).post fun c' w hw => ?_
      dsimp only at hw
      rwa [List.append_assoc, hrest] at hw

/-- A part of a slice. -/
theorem take_of_slice {rest : Bytes} {pos n : Nat} (h : rest = slice p.apk pos rest.length)
    (hn : n ≤ rest.length) : slice p.apk pos n = rest.take n := by
  rw [h, slice, slice, List.take_take, Nat.min_eq_left hn]

theorem drop_of_slice {rest : Bytes} {pos n : Nat} (h : rest = slice p.apk pos rest.length)
    (hn : n ≤ rest.length) : rest.drop n = slice p.apk (pos + n) (rest.drop n).length := by
  have hsum := slice_add p.apk pos n (rest.length - n)
  rw [Nat.add_sub_cancel' hn, ← h, take_of_slice h hn] at hsum
  have hsplit : rest.take n ++ rest.drop n = rest := List.take_append_drop n rest
  rw [List.length_drop]
  exact List.append_cancel_left (hsplit.trans hsum.symm)

/-- What the loop offers next. -/
theorem nextPiece_eq (avail rest : Bytes) : nextPiece zipIoBytes avail rest =
    (avail ++ rest.take (refill avail rest.length), rest.drop (refill avail rest.length)) := by
  unfold nextPiece refill
  by_cases havail : avail = []
  · subst havail
    rw [if_pos rfl, List.nil_append]
    by_cases hrest : rest.length = 0
    · obtain rfl := List.length_eq_zero_iff.1 hrest
      rfl
    · rw [if_pos ⟨rfl, hrest⟩]
      split
      · rename_i hshort
        rw [List.take_length, List.drop_length, List.take_of_length_le (Nat.le_of_lt hshort),
          List.drop_of_length_le (Nat.le_of_lt hshort)]
      · rfl
  · rw [if_neg havail, if_neg fun h => havail h.1, List.take_zero, List.append_nil, List.drop_zero]

/-- What the loop for a deflated entry comes to after a call of `inflate` that has not failed. -/
theorem total_afterInflate {State : Type} (hapart : p.Apart) {Q : Copied → World Memory → Prop}
    {c : Copied} {avail : Bytes} {left : Nat} {more : State → Bytes → Copied → Install Copied}
    {status : Status} {s : State} {consumed : Nat} {made : Bytes} (hcounted : Counted c content)
    (hfailed : status ≠ .failed)
    (hend : status = .streamEnd → ∀ c' w, c'.ok = c.ok → Counted c' (content ++ made) →
      p.Holds (content ++ made) w → Q c' w)
    (hstop : status = .bufError → left = 0 ∧ avail.drop consumed = [] →
      ∀ c' w, c'.ok = false → Q c' w)
    (hmore : status ≠ .streamEnd → (status = .bufError → ¬ (left = 0 ∧ avail.drop consumed = [])) →
      ∀ c', c'.ok = c.ok → c'.fp = c.fp → Counted c' (content ++ made) →
        Total Calm (p.Holds (content ++ made)) (more s (avail.drop consumed) c') Q) :
    Total Calm (p.Holds content)
      (afterInflate ⟨p.sibling⟩ c avail left more (status, s, consumed, made)) Q := by
  refine total_bind_eq (b := true) (R := p.Holds (content ++ made)) ?_ ?_
  · refine total_ite (fun _ => total_fwrite_sibling hapart) fun hmade =>
      total_pure fun w hw => ⟨rfl, ?_⟩
    rwa [not_not.1 hmade, List.append_nil]
  have hcrc : (if made ≠ [] then Zlib.crc32 c.crc made else c.crc) = Zlib.crc32 c.crc made := by
    split
    · rfl
    · rename_i hmade
      rw [not_not.1 hmade, Zlib.crc32_nil]
  have hcounted' : ∀ ok fp, Counted ⟨ok, c.written + made.length, Zlib.crc32 c.crc made, fp⟩
      (content ++ made) := fun ok fp => hcounted.append rfl rfl
  rw [hcrc]
  refine total_ite (fun h => absurd h (by decide)) fun _ => ?_
  cases status with
  | ok => exact hmore (by decide) (by rintro ⟨⟩) _ rfl rfl (hcounted' _ _)
  | streamEnd => exact total_pure fun w hw => hend rfl _ _ rfl (hcounted' _ _) hw
  | failed => exact absurd rfl hfailed
  | bufError =>
      show Total Calm (p.Holds (content ++ made))
        (if left = 0 ∧ avail.drop consumed = [] then _ else _) _
      refine total_ite (fun h => total_pure fun w hw => hstop rfl h _ _ rfl) fun h => ?_
      exact hmore (by decide) (fun _ => h) _ rfl rfl (hcounted' _ _)

/-- The loop for a deflated entry, by induction on the rounds: the decoder has consumed `fed` and
given `content`, `avail` has been read and `rest` has not. -/
theorem total_copyInflated (hapart : p.Apart) {Z : Inflater} {data out : Bytes}
    (hZ : Z.Conforms data out) (fuel : Nat) {s : Z.State} {fed content avail rest : Bytes}
    {c : Copied} (hpath : c.fp.path = p.path) (hok : c.ok = true) (hcounted : Counted c content)
    (hsession : Z.Session s fed content) (hdata : fed ++ avail ++ rest = data)
    (hrest : rest = slice p.apk c.fp.pos rest.length)
    (hfuel : avail.length + rest.length + (out.length - content.length) < fuel) :
    Total Calm (p.Holds content) (copyInflated Z ⟨p.sibling⟩ fuel s avail rest.length c) fun c' w =>
      (c'.ok = true ↔ ¬ Z.Exhausts zipIoBytes s (nextPiece zipIoBytes avail rest).1
        (nextPiece zipIoBytes avail rest).2) ∧
      (c'.ok = true → Counted c' out ∧ p.Holds out w) := by
  induction fuel generalizing s fed content avail rest c with
  | zero => exact absurd hfuel (Nat.not_lt_zero _)
  | succ fuel ih =>
      unfold copyInflated
      rw [nextPiece_eq]
      have hle := refill_le avail rest.length
      have hpositive : avail = [] → rest ≠ [] → 0 < refill avail rest.length := by
        rintro rfl hne
        exact refill_pos (List.length_pos_of_ne_nil hne).ne'
      generalize refill avail rest.length = n at hle hpositive ⊢
      have htake := take_of_slice hrest hle
      have hlength : (rest.take n).length = n := List.length_take_of_le hle
      -- the next piece of the archive, which comes whole in a calm world
      refine total_bind_eq (b := (rest.take n, ⟨p.path, c.fp.pos + n, c.fp.err⟩))
        (R := p.Holds content) ?_ ?_
      · refine total_ite (fun _ => (total_fread_archive hpath).post fun r w hw => ?_)
          fun hzero => ?_
        · rwa [htake, hlength] at hw
        · obtain rfl : n = 0 := not_not.1 hzero
          refine total_pure fun w hw => ⟨?_, hw⟩
          rw [← hpath]
          rfl
      dsimp only
      rw [hlength]
      refine total_ite (fun h => absurd rfl h) fun _ => ?_
      have hleft : rest.length - n = (rest.drop n).length := List.length_drop.symm
      rw [hleft]
      rcases hinflate : Z.inflate s (avail ++ rest.take n) zipIoBytes
        ((rest.drop n).length = 0) with
        ⟨status, s', consumed, made⟩
      have hall : fed ++ (avail ++ rest.take n) ++ rest.drop n = data := by
        rw [← hdata, List.append_assoc, List.append_assoc, List.append_assoc, List.take_append_drop]
      -- the call meets the decoder's contract: its input is a part of `data`, and all of it at the
      -- end
      have hcall : Z.Call data s fed content (avail ++ rest.take n) zipIoBytes
          ((rest.drop n).length = 0) status s' consumed made := by
        refine ⟨hsession, ?_, by decide, fun hfinish => ?_, hinflate⟩
        · rw [← hall]
          exact List.prefix_append _ _
        · have hnone := List.length_eq_zero_iff.1 (of_decide_eq_true hfinish)
          rw [hnone, List.append_nil] at hall
          exact hall
      have hgiven := (hZ.gives hcall).length_le
      have hconsumed := hZ.consumes hcall
      -- the stream has ended, the loop stops with all read, or there is more
      refine total_afterInflate hapart hcounted (hZ.succeeds hcall)
        (fun hend c' w hok' hcount hw => ?_)
        (fun hbuf hstop c' w hfalse => ?_) fun hstatus hgoes c' hok' hfp hcount => ?_
      · subst hend
        have hout := hZ.ends hcall
        rw [hout] at hcount hw
        exact ⟨⟨fun _ => Inflater.not_exhausts_of_end hinflate, fun _ => hok'.trans hok⟩,
          fun _ => ⟨hcount, hw⟩⟩
      · have hnone := List.length_eq_zero_iff.1 hstop.1
        have hexhausts : Z.Exhausts zipIoBytes s (avail ++ rest.take n) (rest.drop n) :=
          .now hinflate (by rw [hbuf]; decide) hnone hstop.2
        rw [hfalse]
        exact ⟨⟨by rintro ⟨⟩, fun h => absurd hexhausts h⟩, by rintro ⟨⟩⟩
      -- with everything consumed the decoder has ended, or the loop has stopped
      have hmore : ¬ (rest.drop n = [] ∧ (avail ++ rest.take n).drop consumed = []) := by
        rintro ⟨hnone, hdrop⟩
        have hzero : (rest.drop n).length = 0 := by rw [hnone]; rfl
        have hfinish : decide ((rest.drop n).length = 0) = true := decide_eq_true hzero
        rw [hfinish] at hcall
        cases status with
        | ok => exact hZ.finishes hcall rfl
        | streamEnd => exact hstatus rfl
        | failed => exact hZ.succeeds hcall rfl
        | bufError => exact hgoes rfl ⟨hzero, hdrop⟩
      have hsession' : Z.Session s' (fed ++ (avail ++ rest.take n).take consumed)
          (content ++ made) := by
        refine hsession.more hinflate ?_
        cases status with
        | ok => exact .inl rfl
        | streamEnd => exact absurd rfl hstatus
        | failed => exact absurd rfl (hZ.succeeds hcall)
        | bufError => exact .inr rfl
      rw [Inflater.exhausts_iff_next hinflate hstatus hmore]
      -- the measure: a round that goes on has consumed input or filled its output
      refine ih (by rw [hfp]) (hok'.trans hok) hcount hsession' ?_ ?_ ?_
      · rw [List.append_assoc fed, List.take_append_drop, hall]
      · rw [hfp]
        exact drop_of_slice hrest hle
      · have hinput : (avail ++ rest.take n).length + (rest.drop n).length =
            avail.length + rest.length := by
          rw [List.length_append, hlength, List.length_drop]
          omega
        rw [List.length_append] at hgiven
        have hgrown : (content ++ made).length = content.length + made.length := List.length_append
        rw [List.length_drop, hgrown]
        rcases hZ.goes_on hcall hstatus with htook | hfull
        · have hsome : 0 < (avail ++ rest.take n).length := by
            refine List.length_pos_of_ne_nil fun hnil => hmore ?_
            obtain ⟨havail, hgot⟩ := List.append_eq_nil_iff.1 hnil
            have hrestnil : rest = [] := by
              by_contra hne
              have hpos := hpositive havail hne
              rw [hgot] at hlength
              exact absurd hlength (Nat.ne_of_lt hpos)
            rw [hnil, hrestnil, List.drop_nil, List.drop_nil]
            exact ⟨rfl, rfl⟩
          omega
        · have hsome : 0 < made.length := by
            rw [hfull]
            decide
          omega

end Copying

/-! ## The whole of `extract_entry` -/

/-- An entry is well formed: it is not encrypted, it has a local header, its data is there, and it
decodes to `out`, with the declared length and checksum. -/
structure ValidEntry (apk : Bytes) (e : ZipEntry) (data out : Bytes) : Prop where
  plain : e.flags &&& 1 = 0
  method : e.method = 0 ∨ e.method = 8
  header : e.localOffset + 30 ≤ apk.length
  signature : rd32 (slice apk e.localOffset 30) 0 = 0x04034b50
  data_eq : slice apk (dataPos apk e) e.csize = data
  there : data.length = e.csize
  stored : e.method = 0 → out = data
  size : out.length = e.usize
  crc : Zlib.crc32 0 out = e.crc32

/-- Nothing in the file system hinders the extraction to a target: the target names a file, the
runtime directory is there, no file is in the way of the directories, and neither the target nor its
sibling is a directory. -/
structure Unhindered (target : Bytes) (w : World Memory) : Prop where
  named : ∃ dir name, target = dir ++ 47 :: name ∧ 47 ∉ name ∧ name ≠ [] ∧ name ≠ [46]
  root : w.fs.isDir (resolve dataRoot) = true
  parents : ∀ q, q <+: (resolve target).dropLast → w.fs.file q = none
  not_dir : w.fs.isDir (resolve target) = false
  sibling_not_dir : w.fs.isDir (resolve (tmpOf target)) = false

/-- The decoder never takes the last of the data in a call that does not end the stream. -/
def EndsInTime (Z : Inflater) (e : ZipEntry) (data : Bytes) : Prop :=
  e.method = 0 ∨ ¬ Z.Exhausts zipIoBytes Z.start (data.take zipIoBytes) (data.drop zipIoBytes)

section Entries

variable {p : Workplace} {Z : Inflater} {e : ZipEntry} {data out target : Bytes} {rounds : Nat}

/-- The loops of `extract_entry` on a well formed entry. -/
theorem total_copyEntry (hapart : p.Apart) (hvalid : ValidEntry p.apk e data out)
    (hZ : e.method = 8 → Z.Conforms data out) (hrounds : data.length + out.length < rounds)
    {fp : InFile} (hpath : fp.path = p.path) (hpos : fp.pos = dataPos p.apk e) :
    Total Calm (p.Holds []) (copyEntry Z rounds fp e ⟨p.sibling⟩) fun c w =>
      (c.ok = true ↔ EndsInTime Z e data) ∧ (c.ok = true → Counted c out ∧ p.Holds out w) := by
  have hcounted : ∀ fp, Counted ⟨true, 0, 0, fp⟩ [] := fun fp => ⟨rfl, (Zlib.crc32_nil 0).symm⟩
  have hslice : slice p.apk fp.pos e.csize = data := by rw [hpos, hvalid.data_eq]
  refine total_ite (fun hmethod => ?_) fun hmethod => ?_
  · refine (total_copyStored hapart e.csize e.csize ⟨true, 0, 0, fp⟩ [] hpath rfl (Nat.le_refl _)
      (hcounted fp) ?_).post fun c w hw => ?_
    · dsimp only
      rw [hslice, hvalid.there]
    · dsimp only at hw
      rw [hslice, List.nil_append, ← hvalid.stored hmethod] at hw
      exact ⟨⟨fun _ => .inl hmethod, fun _ => hw.1.1⟩, fun _ => ⟨hw.1.2, hw.2⟩⟩
  refine total_bind_eq total_chance (total_ite (fun h => absurd h (by decide)) fun _ => ?_)
  have hconforms := hZ (hvalid.method.resolve_left hmethod)
  rw [← hvalid.there]
  refine (total_copyInflated hapart hconforms rounds (c := ⟨true, 0, 0, fp⟩) hpath rfl (hcounted fp)
    .start rfl ?_ ?_).post fun c w hw => ?_
  · dsimp only
    rw [hvalid.there, hslice]
  · show 0 + data.length + (out.length - 0) < rounds
    omega
  · refine ⟨hw.1.trans ?_, hw.2⟩
    unfold EndsInTime
    exact ⟨.inr, fun h => h.resolve_left hmethod⟩

/-- What has been copied well passes the checks. -/
theorem total_checkEntry (hvalid : ValidEntry p.apk e data out) {c : Copied} :
    Total Calm (fun w => (c.ok = true ↔ EndsInTime Z e data) ∧
        (c.ok = true → Counted c out ∧ p.Holds out w))
          (checkEntry e target ⟨p.sibling⟩ c) fun r w =>
      (r = true ↔ EndsInTime Z e data) ∧ (r = true → p.Holds out w) := by
  refine total_bind_eq total_flush ?_
  have hdiscard : ∀ format args, (c.ok = true → Counted c out → False) → Total Calm
      (fun w => (c.ok = true ↔ EndsInTime Z e data) ∧ (c.ok = true → Counted c out ∧ p.Holds out w))
      (discard target format args)
      fun r w => (r = true ↔ EndsInTime Z e data) ∧ (r = true → p.Holds out w) := by
    intro format args hbad
    have hnot : ∀ w, ((c.ok = true ↔ EndsInTime Z e data) ∧
        (c.ok = true → Counted c out ∧ p.Holds out w)) → ¬ EndsInTime Z e data := by
      intro w hw htime
      have hok := hw.1.2 htime
      exact hbad hok (hw.2 hok).1
    refine total_bind (R := fun _ _ => ¬ EndsInTime Z e data)
      (total_remove (fun w _ hw => hnot w hw) fun w hw => hnot w hw) fun _ => ?_
    refine total_bind (R := fun _ _ => ¬ EndsInTime Z e data) (total_update fun _ hw => hw)
      fun _ => ?_
    exact total_pure fun w hw => ⟨⟨by rintro ⟨⟩, fun h => absurd h hw⟩, by rintro ⟨⟩⟩
  refine total_ite (fun hbad => hdiscard _ _ fun hok hcount => ?_) fun hchecked => ?_
  · rcases hbad with hbad | hbad
    · rw [hok] at hbad
      cases hbad
    · exact hbad (hcount.1.trans hvalid.size)
  refine total_ite (fun hbad => hdiscard _ _ fun hok hcount => ?_) fun _ => ?_
  · exact hbad (hcount.2.trans hvalid.crc)
  have hok : c.ok = true := by simpa using (not_or.1 hchecked).1
  exact total_pure fun w hw => ⟨⟨fun _ => hw.1.1 hok, fun _ => rfl⟩, fun _ => (hw.2 hok).2⟩

/-- The part of `extract_entry` that works on the sibling, on a well formed entry. -/
theorem total_fillSibling (hapart : p.Apart) (hvalid : ValidEntry p.apk e data out)
    (hZ : e.method = 8 → Z.Conforms data out) (hrounds : data.length + out.length < rounds)
    (hsibling : resolve (tmpOf target) = p.sibling) {fp : InFile} (hpath : fp.path = p.path)
    (hpos : fp.pos = dataPos p.apk e) :
    Total Calm (fun w => p.Prepared w ∧ w.fs.isDir p.sibling = false)
      (fillSibling Z rounds fp e target)
      fun r w => (r.1 = true ↔ EndsInTime Z e data) ∧ (r.1 = true → p.Holds out w) := by
  refine total_bind_eq (b := .ok ⟨p.sibling⟩) (R := p.Holds []) (total_fopenWrite fun w hw => ?_) ?_
  · rw [hsibling]
    refine ⟨hw.2, ?_, rfl, hw.1.put hapart []⟩
    rw [Workplace.sibling, List.dropLast_concat]
    exact hw.1.parent
  refine total_bind_eq total_chance (total_bind_eq total_chance ?_)
  refine total_ite (fun h => absurd h (by decide)) fun _ => ?_
  refine total_bind (total_copyEntry hapart hvalid hZ hrounds hpath hpos) fun c => ?_
  refine total_bind (total_checkEntry hvalid) fun r => total_pure fun w hw => hw

/-- The replacement of the target succeeds. -/
theorem total_replaceFile (htarget : resolve target = p.target)
    (hsibling : resolve (tmpOf target) = p.sibling) {content : Bytes} {format : String}
    {args : List Arg} :
    Total Calm (p.Holds content) (replaceFile target format args) fun r _ => r = true := by
  refine total_bind (R := fun _ w => w.fs.isDir p.parent = true ∧ w.fs.isDir p.target = false ∧
    Holding p.sibling content w) (total_remove (fun w _ hw => ⟨hw.parent, hw.target, hw.holds⟩)
      fun w hw => ?_) fun _ => ?_
  · rw [htarget]
    refine ⟨(isDir_delete (p.parent_ne _)).trans hw.parent, ?_, ?_⟩
    · show Fs.isDir (w.fs.erase p.target) p.target = false
      unfold Fs.isDir
      rw [AList.lookup_erase]
      exact decide_eq_false (by simp [Workplace.target])
    · show (w.fs.delete p.target).file p.sibling = some content
      rw [file_delete, Function.update_of_ne p.sibling_ne_target]
      exact hw.holds
  refine total_bind_eq (b := .ok ()) (R := fun _ => True) (total_rename fun w hw => ?_) ?_
  · rw [htarget, hsibling]
    refine ⟨content, hw.2.2, hw.2.1, ?_, rfl, trivial⟩
    rw [Workplace.target, List.dropLast_concat]
    exact hw.1
  · exact total_pure fun _ _ => rfl

/-- The directories are made. -/
theorem total_createParentDirectories {rel dir name : Bytes} (hname : 47 ∉ name)
    (hdir : resolve dir = p.parent) (htarget : inDataRoot rel = dir ++ 47 :: name)
    (hshort : (inDataRoot rel).length < pathMax) :
    Total Calm (fun w => p.Free w ∧ w.fs.isDir (resolve dataRoot) = true)
      (createParentDirectories (inDataRoot rel))
      fun r w => r = true ∧ p.Prepared w ∧ w.fs.isDir p.sibling = false := by
  have htake : (inDataRoot rel).take (pathMax - 1) = inDataRoot rel :=
    List.take_of_length_le (by omega)
  have hprefix : dataRoot.isPrefixOf (inDataRoot rel) = true :=
    List.isPrefixOf_iff_prefix.2 (List.prefix_append _ _)
  have hslash : (inDataRoot rel)[dataRoot.length]?.getD 0 = 47 := by
    unfold inDataRoot
    rw [List.getElem?_append_right (Nat.le_refl _), Nat.sub_self]
    rfl
  have hbegin : (inDataRoot rel).take (dataRoot.length + 1) = dataRoot ++ 47 :: [] := by
    unfold inDataRoot
    rw [List.take_append, Nat.add_sub_cancel_left, List.take_of_length_le (Nat.le_succ _)]
    rfl
  have hrest : (inDataRoot rel).drop (dataRoot.length + 1) = rel := by
    unfold inDataRoot
    rw [List.drop_append, Nat.add_sub_cancel_left, List.drop_of_length_le (Nat.le_succ _)]
    rfl
  unfold createParentDirectories
  dsimp only
  rw [htake, hprefix, hslash, if_pos rfl, hbegin, hrest]
  refine total_ite (fun h => absurd h (by decide)) fun _ => ?_
  refine (total_createDirectories hname hdir rel dataRoot [] (by simp) ?_).post fun r w hw => ?_
  · rw [← htarget]
    unfold inDataRoot
    simp
  · obtain ⟨hr, hfree, hparent⟩ := hw
    exact ⟨hr, ⟨hfree.archive, hparent, hfree.target⟩, hfree.sibling⟩

/-- `extract_entry` up to the replacement, on a well formed entry. -/
theorem total_fillEntry (hapart : p.Apart) (hvalid : ValidEntry p.apk e data out)
    (hZ : e.method = 8 → Z.Conforms data out) (hrounds : data.length + out.length < rounds)
    {rel dir name : Bytes} (hname : 47 ∉ name) (hdir : resolve dir = p.parent)
    (htarget : inDataRoot rel = dir ++ 47 :: name) (hshort : (inDataRoot rel).length < pathMax)
    (hsibling : resolve (tmpOf (inDataRoot rel)) = p.sibling) {fp : InFile}
    (hpath : fp.path = p.path) :
    Total Calm (fun w => p.Free w ∧ w.fs.isDir (resolve dataRoot) = true)
      (fillEntry Z rounds fp e (inDataRoot rel))
      fun r w => (r.1 = true ↔ EndsInTime Z e data) ∧ (r.1 = true → p.Holds out w) := by
  refine total_ite (fun h => absurd hvalid.plain h) fun _ => ?_
  refine total_ite (fun h => absurd hvalid.method (not_or.2 h)) fun _ => ?_
  have hheader : (slice p.apk e.localOffset 30).length = 30 := by
    have hthere := hvalid.header
    unfold slice
    rw [List.length_take, List.length_drop]
    omega
  have hfile : ∀ w, p.Free w ∧ w.fs.isDir (resolve dataRoot) = true →
      w.fs.file fp.path = some p.apk := by
    intro w hw
    rw [hpath]
    exact hw.1.archive
  refine total_bind_eq total_fseek ?_
  refine total_bind_eq (R := fun w => p.Free w ∧ w.fs.isDir (resolve dataRoot) = true)
    (b := (slice p.apk e.localOffset 30, ⟨p.path, e.localOffset + 30, fp.err⟩)) ?_ ?_
  · have hread := total_fread (f := ⟨fp.path, e.localOffset, fp.err⟩) (n := 30) hfile
    refine hread.post fun r w hw => ⟨?_, hw.2⟩
    rw [hw.1]
    dsimp only
    rw [← slice, hheader, hpath]
  dsimp only
  refine total_ite (fun h => ?_) fun _ => ?_
  · rcases h with h | h
    · exact absurd hheader h
    · exact absurd hvalid.signature h
  refine total_bind_eq total_fseek ?_
  refine total_bind (total_createParentDirectories hname hdir htarget hshort) fun made =>
    .assume fun hmade => ?_
  subst hmade
  refine total_ite (fun h => absurd h (by decide)) fun _ => ?_
  have hlong : ¬ (tmpOf (inDataRoot rel)).length ≥ pathMax + 5 := by
    have htmp : (bytes ".tmp").length = 4 := by decide
    rw [tmpOf, List.length_append, htmp]
    omega
  refine total_ite (fun h => absurd h hlong) fun _ => ?_
  exact total_fillSibling hapart hvalid hZ hrounds hsibling rfl rfl

/-- A target that is selected fits in its array. -/
theorem selected_short {required : Option Required}
    (h : installEntryTarget e = .select target required) : target.length < pathMax := by
  have hfits : ∀ {name : Bytes} {r : Option Required} {m : Message},
      selectTarget name r m = .select target required → target.length < pathMax := by
    intro name r m hname
    unfold selectTarget at hname
    split at hname
    · cases hname
    · rename_i hshort
      cases hname
      exact Nat.lt_of_not_le hshort
  unfold installEntryTarget at h
  split at h
  · exact hfits h
  split at h
  · split at h
    · cases h
    split at h
    · cases h
    · exact hfits h
  split at h
  · dsimp only at h
    split at h
    · cases h
    · exact hfits h
  · cases h

/-- The archive lies beside the runtime directory. -/
theorem installApk_ne (rel : Bytes) : resolve installApk ≠ resolve (inDataRoot rel) := by
  intro h
  rw [resolve_inDataRoot] at h
  have hfour := congrArg (List.take 4) h
  rw [List.take_left' (show (resolve dataRoot).length = 4 by decide)] at hfour
  revert hfour
  decide

/-- The workplace of an extraction that nothing hinders. -/
theorem Unhindered.workplace {rel apk : Bytes} {w : World Memory}
    (h : Unhindered (inDataRoot rel) w)
    (hapk : Holding (resolve installApk) apk w) :
    ∃ (p : Workplace) (dir name : Bytes), p.path = resolve installApk ∧ p.apk = apk ∧ p.Apart ∧
      47 ∉ name ∧ resolve dir = p.parent ∧ inDataRoot rel = dir ++ 47 :: name ∧
      resolve (inDataRoot rel) = p.target ∧ resolve (tmpOf (inDataRoot rel)) = p.sibling ∧
      p.Free w ∧ w.fs.isDir (resolve dataRoot) = true := by
  obtain ⟨dir, name, htarget, hname, hne, hdot⟩ := h.named
  have hresolve : resolve (inDataRoot rel) = resolve dir ++ [name] := by
    rw [htarget, resolve_append, resolve_name hname, if_pos ⟨hne, hdot⟩]
  have htmp : resolve (tmpOf (inDataRoot rel)) = resolve dir ++ [tmpOf name] := by
    have hsep : 47 ∉ tmpOf name := by
      unfold tmpOf
      rw [List.mem_append, not_or]
      exact ⟨hname, by decide⟩
    have hlong : 4 ≤ (tmpOf name).length := by
      have hfour : (bytes ".tmp").length = 4 := by decide
      rw [tmpOf, List.length_append, hfour]
      exact Nat.le_add_left _ _
    have hgood : tmpOf name ≠ [] ∧ tmpOf name ≠ [46] := by
      constructor
      · intro hnil
        rw [hnil] at hlong
        exact absurd hlong (by decide)
      · intro hnil
        rw [hnil] at hlong
        exact absurd hlong (by decide)
    have hsplit : tmpOf (inDataRoot rel) = dir ++ 47 :: tmpOf name := by
      unfold tmpOf
      rw [htarget, List.append_assoc, List.cons_append]
    rw [hsplit, resolve_append, resolve_name hsep, if_pos hgood]
  have hparents := h.parents
  have hnotdir := h.not_dir
  have hsibling := h.sibling_not_dir
  have hapart := installApk_ne rel
  have hapart' := installApk_ne (tmpOf rel)
  rw [← tmpOf_inDataRoot, htmp] at hapart'
  rw [hresolve] at hparents hnotdir hapart
  rw [List.dropLast_concat] at hparents
  rw [htmp] at hsibling
  exact ⟨⟨resolve installApk, resolve dir, name, apk⟩, dir, name, rfl, rfl,
    ⟨hapart', hapart⟩, hname,
    rfl, htarget, hresolve, htmp, ⟨hapk, hparents, hnotdir, hsibling⟩, h.root⟩

/-- A well formed entry is extracted, while no operation fails, exactly when the decoder ends in
time. -/
theorem extractEntry_calm {apk : Bytes} (hvalid : ValidEntry apk e data out)
    (hZ : e.method = 8 → Z.Conforms data out) {required : Option Required}
    (hselect : installEntryTarget e = .select target required)
    (hrounds : data.length + out.length < rounds) {fp : InFile}
    (hpath : fp.path = resolve installApk)
    {m : Machine (World Memory)} (hm : Powered Calm m.decisions)
    (hapk : Holding (resolve installApk) apk m.world) (hready : Unhindered target m.world) :
    ∃ r fp' m', extractEntry Z rounds fp e target m = (some (r, fp'), m') ∧
      (r = true ↔ EndsInTime Z e data) := by
  have hshort := selected_short hselect
  obtain ⟨rel, rfl, -⟩ := selected_cases hselect
  obtain ⟨p, dir, name, hp, rfl, hapart, hname, hdir, htarget, hresolve, htmp, hfree, hroot⟩ :=
    hready.workplace hapk
  have htotal : Total Calm (fun w => p.Free w ∧ w.fs.isDir (resolve dataRoot) = true)
      (extractEntry Z rounds fp e (inDataRoot rel))
      fun r _ => r.1 = true ↔ EndsInTime Z e data := by
    refine total_bind (R := fun _ w => p.Free w ∧ w.fs.isDir (resolve dataRoot) = true)
      (total_update fun w hw => ⟨⟨hw.1.archive, hw.1.parents, hw.1.target, hw.1.sibling⟩, hw.2⟩)
      fun _ => ?_
    refine total_bind (total_fillEntry hapart hvalid hZ hrounds hname hdir htarget hshort htmp
      (hpath.trans hp.symm)) ?_
    rintro ⟨filled, fp'⟩
    refine .assume fun hfilled => ?_
    cases filled with
    | false => exact total_pure fun _ _ => hfilled
    | true =>
        refine total_bind ((total_replaceFile hresolve htmp).pre fun w hw => hw rfl) fun r => ?_
        cases r with
        | false => exact total_pure fun _ hw => absurd hw (by decide)
        | true =>
            exact total_bind (R := fun _ _ => True) (total_update fun _ _ => trivial) fun _ =>
              total_pure fun _ _ => hfilled
  obtain ⟨⟨r, fp'⟩, m', hrun, -, hr⟩ := htotal m hm ⟨hfree, hroot⟩
  exact ⟨r, fp', m', hrun, hr⟩

/-- While no operation fails, `extract_entry` comes to an end on every well formed entry that is
selected, and returns 0 exactly when the entry is stored or the decoder never takes the last of the
data in a call that does not end the stream. -/
theorem valid_entries_extract_iff {apk : Bytes} (hvalid : ValidEntry apk e data out)
    (hZ : e.method = 8 → Z.Conforms data out) {required : Option Required}
    (hselect : installEntryTarget e = .select target required) :
    ∃ enough, ∀ rounds, enough ≤ rounds → ∀ fp m, fp.path = resolve installApk →
      Powered Calm m.decisions → Holding (resolve installApk) apk m.world →
      Unhindered target m.world →
      ∃ r fp' m', extractEntry Z rounds fp e target m = (some (r, fp'), m') ∧
        (r = true ↔ EndsInTime Z e data) :=
  ⟨data.length + out.length + 1, fun _ hrounds _ _ hpath hm hapk hready =>
    extractEntry_calm hvalid hZ hselect hrounds hpath hm hapk hready⟩

end Entries

/-! ## A valid entry that is not extracted -/

/-- A raw deflate stream of 2417 bytes: 1600 zeros as literals, 502 times the match of 258 bytes at
distance 1, and the end. The last byte holds the end of the last match and the mark of the end. -/
def deflatedZeros : Bytes :=
  0x63 :: List.replicate 1599 0x60 ++ 0x18 ::
    ((List.replicate 62 [0x05, 0xa3, 0x60, 0x14, 0x8c, 0x82, 0x51, 0x30, 0x0a, 0x46, 0xc1, 0x28,
      0x18]).flatten ++ [0x05, 0xa3, 0x60, 0x14, 0x8c, 0x82, 0x51, 0x30, 0x0a, 0x00])

/-- What it decodes to: 44 bytes more than the output buffer holds. -/
def zeros : Bytes := List.replicate 131116 0

/-- The entry of a small archive with a deflated stream. -/
def deflatedEntry (data out : Bytes) : ZipEntry :=
  smallEntry 8 data.length out.length (Zlib.crc32 0 out)

theorem validEntry_small (data out : Bytes) :
    ValidEntry (smallArchive data) (deflatedEntry data out) data out := by
  have hheader : (smallArchive data).take 30 = smallArchive [] := by
    unfold smallArchive
    rw [List.take_left' (by rfl), List.append_nil]
  have hslice : slice (smallArchive data) 0 30 = smallArchive [] := hheader
  have hpos : dataPos (smallArchive data) (deflatedEntry data out) = 30 := by
    unfold dataPos deflatedEntry smallEntry
    dsimp only
    rw [hslice]
    decide
  refine ⟨Nat.zero_and 1, .inr rfl, ?_, ?_, ?_, rfl, ?_, rfl, rfl⟩
  · show 0 + 30 ≤ (smallArchive data).length
    unfold smallArchive
    rw [List.length_append]
    exact Nat.le_add_right 30 _
  · show rd32 (slice (smallArchive data) 0 30) 0 = _
    rw [hslice]
    decide
  · rw [hpos]
    unfold slice smallArchive
    rw [List.drop_left' (by rfl)]
    exact List.take_length
  · rintro ⟨⟩

theorem selected_deflatedEntry (data out : Bytes) : installEntryTarget (deflatedEntry data out) =
    .select (inDataRoot manifestName) (some .manifest) := by
  have hname : (deflatedEntry data out).name = manifestName := rfl
  unfold installEntryTarget
  rw [if_pos hname]
  exact if_neg (by decide)

theorem unhindered_runtimeWorld (apk : Bytes) :
    Unhindered (inDataRoot manifestName) (runtimeWorld (resolve installApk) apk) := by
  have hne : resolve dataRoot ≠ resolve installApk := by decide
  have htarget : (resolve (inDataRoot manifestName)).dropLast = resolve dataRoot := by decide
  have hnodir : ∀ q, q ≠ [] → q ≠ resolve dataRoot → q ≠ resolve installApk →
      (runtimeWorld (resolve installApk) apk).fs.isDir q = false := by
    intro q hq hroot hapk
    refine (isDir_put hapk _).trans ((isDir_insert_dir hroot).trans ?_)
    exact decide_eq_false (by simp [hq])
  refine ⟨⟨dataRoot, manifestName, rfl, by decide, by decide, by decide⟩, ?_,
    fun q hq => ?_, ?_, ?_⟩
  · exact (isDir_put hne _).trans (isDir_insert_self _ _)
  · rw [htarget] at hq
    have hapk : q ≠ resolve installApk := by
      rintro rfl
      exact hne (hq.eq_of_length (by decide)).symm
    show (Fs.put _ (resolve installApk) apk).file q = none
    rw [file_put, Function.update_of_ne hapk, file_insert_dir (AList.lookup_empty _)]
    rfl
  · exact hnodir _ (by decide) (by decide) (by decide)
  · exact hnodir _ (by decide) (by decide) (by decide)

/-- The extraction of a deflated entry in a small archive. -/
theorem valid_entries_extract_small :
    ∃ enough, ∀ rounds, enough ≤ rounds → ∀ fp m, fp.path = resolve installApk →
      Powered Calm m.decisions → Holding (resolve installApk) (smallArchive deflatedA) m.world →
      Unhindered (inDataRoot manifestName) m.world →
      ∃ r fp' m', extractEntry (.ofStream deflatedA [97]) rounds fp (deflatedEntry deflatedA [97])
          (inDataRoot manifestName) m = (some (r, fp'), m') ∧
        (r = true ↔ EndsInTime (.ofStream deflatedA [97]) (deflatedEntry deflatedA [97])
          deflatedA) :=
  valid_entries_extract_iff (validEntry_small _ _) (fun _ => Inflater.ofStream_conforms)
    (selected_deflatedEntry _ _)

theorem length_deflatedZeros : deflatedZeros.length = 2417 := by
  simp only [deflatedZeros, List.length_append, List.length_cons, List.length_nil,
    List.length_replicate, List.length_flatten, List.map_replicate, List.sum_replicate_nat]

theorem length_zeros : zeros.length = 131116 := List.length_replicate

/-- The last byte of the stream is taken in the first call, which does not end it. -/
theorem exhausts_deflatedZeros : ¬ EndsInTime (.ofStream deflatedZeros zeros)
    (deflatedEntry deflatedZeros zeros) deflatedZeros := by
  have hshort : deflatedZeros.length ≤ zipIoBytes := by
    rw [length_deflatedZeros]
    decide
  have hlong : ¬ zeros.length ≤ zipIoBytes := by
    rw [length_zeros]
    decide
  unfold EndsInTime
  rw [not_or, not_not, List.take_of_length_le hshort, List.drop_of_length_le hshort]
  exact ⟨by rintro ⟨⟩, Inflater.ofStream_exhausts hlong⟩

/-- The extraction of a deflated entry in a small archive, while nothing fails. -/
theorem small_entry_calm (data out : Bytes) :
    ∃ enough, ∀ rounds, enough ≤ rounds → ∃ r fp' m',
      extractEntry (.ofStream data out) rounds ⟨resolve installApk, 0, false⟩
        (deflatedEntry data out) (inDataRoot manifestName)
        ⟨runtimeWorld (resolve installApk) (smallArchive data), fun _ => .good, 0⟩ =
          (some (r, fp'), m') ∧
      (r = true ↔ EndsInTime (.ofStream data out) (deflatedEntry data out) data) :=
  ⟨data.length + out.length + 1, fun _ hrounds =>
    extractEntry_calm (validEntry_small data out) (fun _ => Inflater.ofStream_conforms)
      (selected_deflatedEntry _ _) hrounds rfl (fun _ => ⟨rfl, rfl⟩) (holding_runtimeWorld _ _)
      (unhindered_runtimeWorld _)⟩

/-- With every operation succeeding, `extract_entry` returns -1 for a well formed entry: zlib takes
all of its 2417 bytes in the first call and has 44 bytes of output left when the buffer is full. -/
theorem valid_entry_not_extracted :
    ValidEntry (smallArchive deflatedZeros) (deflatedEntry deflatedZeros zeros) deflatedZeros zeros ∧
    (Inflater.ofStream deflatedZeros zeros).Conforms deflatedZeros zeros ∧
    Unhindered (inDataRoot manifestName)
      (runtimeWorld (resolve installApk) (smallArchive deflatedZeros)) ∧
    ∃ enough, ∀ rounds, enough ≤ rounds → ∃ fp' m',
      extractEntry (.ofStream deflatedZeros zeros) rounds ⟨resolve installApk, 0, false⟩
        (deflatedEntry deflatedZeros zeros) (inDataRoot manifestName)
        ⟨runtimeWorld (resolve installApk) (smallArchive deflatedZeros), fun _ => .good, 0⟩ =
          (some (false, fp'), m') := by
  refine ⟨validEntry_small _ _, Inflater.ofStream_conforms, unhindered_runtimeWorld _, ?_⟩
  obtain ⟨enough, hcalm⟩ := small_entry_calm deflatedZeros zeros
  refine ⟨enough, fun rounds hrounds => ?_⟩
  obtain ⟨r, fp', m', hrun, hr⟩ := hcalm rounds hrounds
  have hfalse : r = false := Bool.eq_false_iff.2 fun h => exhausts_deflatedZeros (hr.1 h)
  subst hfalse
  exact ⟨fp', m', hrun⟩

end Asnx.Installer
