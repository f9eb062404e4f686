import Asnx.Installer.Extract
import Asnx.Installer.Footprints

/-!
# What extracting an entry does

`extract_entry` fills the `.tmp` sibling of its target, checks it and puts it in the place of the
target. Whatever fails on the way, nothing but the sibling changes before the replacement, and it
holds a beginning of what the entry yields (`triple_fillEntry`). What has passed the checks is the
uncompressed content of the entry.
-/

namespace Asnx.Installer

open Interrupted Files Zlib

/-- Adjacent slices make up one slice. -/
theorem slice_add (content : Bytes) (pos m n : Nat) :
    slice content pos m ++ slice content (pos + m) n = slice content pos (m + n) := by
  unfold slice
  rw [List.take_add, List.drop_drop]

/-- A part of what is not cut short is not cut short. -/
theorem length_slice_of_add {content : Bytes} {pos m n : Nat}
    (h : (slice content pos (m + n)).length = m + n) : (slice content pos m).length = m := by
  rw [← slice_add, List.length_append] at h
  have hm : (slice content pos m).length ≤ m := List.length_take_le _ _
  have hn : (slice content (pos + m) n).length ≤ n := List.length_take_le _ _
  omega

/-! ## Filling the sibling -/

section Filling

variable {Z : Inflater} {apk : Bytes} {files₀ : Contents}
  {notes₀ : List Note} {sibling path : Path} {allowed good : Bytes → Prop}

/-- The files are as before but for the sibling, which holds `content`. -/
def Filling (files₀ : Contents) (notes₀ : List Note) (sibling : Path) (content : Bytes) :
    Assertion :=
  fun files notes => files = Function.update files₀ sibling (some content) ∧ notes = notes₀

/-- The files are as before but for the sibling, which holds something allowed. -/
def SomeFilling (files₀ : Contents) (notes₀ : List Note) (sibling : Path) (allowed : Bytes → Prop) :
    Assertion :=
  fun files notes => ∃ content, allowed content ∧ Filling files₀ notes₀ sibling content files notes

/-- The files are as before but for the sibling, which has not been touched, or is gone, or holds
something allowed. -/
def Attempted (files₀ : Contents) (notes₀ : List Note) (sibling : Path) (allowed : Bytes → Prop) :
    Assertion :=
  fun files notes => (∃ content, files = Function.update files₀ sibling content ∧
    ∀ c, content = some c → allowed c ∨ files₀ sibling = some c) ∧ notes = notes₀

/-- What is allowed stays so when its end is lost. -/
def PrefixClosed (allowed : Bytes → Prop) : Prop := ∀ a b, b <+: a → allowed a → allowed b

theorem Filling.toSome {content : Bytes} {files : Contents} {notes : List Note}
    (h : Filling files₀ notes₀ sibling content files notes) (hallowed : allowed content) :
    SomeFilling files₀ notes₀ sibling allowed files notes :=
  ⟨content, hallowed, h⟩

theorem attempted_start {files : Contents} {notes : List Note} (hfiles : files = files₀)
    (hnotes : notes = notes₀) : Attempted files₀ notes₀ sibling allowed files notes := by
  refine ⟨⟨files₀ sibling, ?_, fun c hc => .inr hc⟩, hnotes⟩
  rw [Function.update_eq_self, hfiles]

theorem SomeFilling.attempted {files : Contents} {notes : List Note}
    (h : SomeFilling files₀ notes₀ sibling allowed files notes) :
    Attempted files₀ notes₀ sibling allowed files notes := by
  obtain ⟨content, hallowed, hfiles, hnotes⟩ := h
  refine ⟨⟨some content, hfiles, ?_⟩, hnotes⟩
  rintro _ ⟨⟩
  exact .inl hallowed

theorem Attempted.mono {allowed' : Bytes → Prop} {files : Contents} {notes : List Note}
    (h : Attempted files₀ notes₀ sibling allowed files notes)
    (hall : ∀ content, allowed content → allowed' content) :
    Attempted files₀ notes₀ sibling allowed' files notes := by
  obtain ⟨⟨content, hfiles, hcontent⟩, hnotes⟩ := h
  exact ⟨⟨content, hfiles, fun c hc => (hcontent c hc).imp_left (hall c)⟩, hnotes⟩

/-- The sibling gets another content. -/
theorem Filling.set {content new : Bytes} {v : View Memory}
    (h : At (Filling files₀ notes₀ sibling content) v) :
    At (Filling files₀ notes₀ sibling new) (v.set sibling (some new)) := by
  refine ⟨?_, h.2⟩
  rw [set_files, h.1, Function.update_idem]

theorem Filling.content_eq {content old : Bytes} {v : View Memory}
    (h : At (Filling files₀ notes₀ sibling content) v) (hold : v.files sibling = some old) :
    old = content := by
  rw [h.1, Function.update_self] at hold
  exact (Option.some.inj hold).symm

/-- Writing to the sibling. -/
theorem triple_fwrite_filling (hclosed : PrefixClosed allowed) {content more : Bytes}
    (hallowed : allowed (content ++ more)) :
    Triple (At (Filling files₀ notes₀ sibling content)) (fwrite ⟨sibling⟩ more)
      (fun r v => if r then At (Filling files₀ notes₀ sibling (content ++ more)) v
        else At (SomeFilling files₀ notes₀ sibling allowed) v)
      (At (SomeFilling files₀ notes₀ sibling allowed)) := by
  refine triple_fwrite (fun v hv => ?_) (fun v old n hv hold => ?_) fun v old hv hold => ?_
  · have hsame := hv.toSome (hclosed _ _ (List.prefix_append content more) hallowed)
    exact ⟨hsame, hsame⟩
  · obtain rfl := Filling.content_eq hv hold
    have hpart : old ++ more.take n <+: old ++ more := (List.prefix_append_right_inj old).2
      (List.take_prefix n more)
    have hnew := (Filling.set hv).toSome (hclosed _ _ hpart hallowed)
    exact ⟨hnew, hnew⟩
  · obtain rfl := Filling.content_eq hv hold
    exact ⟨Filling.set hv, (Filling.set hv).toSome hallowed⟩

/-- Reading from the archive while the sibling is being filled. -/
theorem triple_fread_filling {content : Bytes} {fp : InFile} {n : Nat} (hpath : fp.path ≠ sibling)
    (hapk : files₀ fp.path = some apk) (hallowed : allowed content) :
    Triple (At (Filling files₀ notes₀ sibling content)) (fread fp n)
      (fun r v => (r.2.path = fp.path ∧ r.2.pos = fp.pos + r.1.length ∧
        (r.1.length = n → r.1 = slice apk fp.pos n)) ∧ At (Filling files₀ notes₀ sibling content) v)
      (At (SomeFilling files₀ notes₀ sibling allowed)) := by
  refine triple_fread_slice ?_ (fun _ _ h => h.toSome hallowed) fun v got err hv hgot =>
    ⟨⟨rfl, rfl, hgot⟩, hv⟩
  rintro files notes ⟨hfiles, -⟩
  rw [hfiles, Function.update_of_ne hpath, hapk]

/-- The counters of a loop of `extract_entry` are right. -/
def Counted (c : Copied) (content : Bytes) : Prop :=
  c.written = content.length ∧ c.crc = Zlib.crc32 0 content

/-- More has been written. -/
theorem Counted.append {c c' : Copied} {content more : Bytes} (h : Counted c content)
    (hwritten : c'.written = c.written + more.length) (hcrc : c'.crc = Zlib.crc32 c.crc more) :
    Counted c' (content ++ more) := by
  refine ⟨?_, ?_⟩
  · rw [hwritten, h.1, List.length_append]
  · rw [hcrc, h.2, Zlib.crc32_append]

/-- What a loop of `extract_entry` ends with: if nothing has gone wrong, the sibling holds something
good and it has been counted. -/
def Filled (files₀ : Contents) (notes₀ : List Note) (sibling path : Path)
    (allowed good : Bytes → Prop) (c : Copied) (v : View Memory) : Prop :=
  c.fp.path = path ∧ ((c.ok = true ∧ ∃ content, allowed content ∧ good content ∧
      Counted c content ∧ At (Filling files₀ notes₀ sibling content) v) ∨
    (c.ok = false ∧ At (SomeFilling files₀ notes₀ sibling allowed) v))

theorem Filled.toSome {c : Copied} {v : View Memory}
    (h : Filled files₀ notes₀ sibling path allowed good c v) :
    At (SomeFilling files₀ notes₀ sibling allowed) v := by
  rcases h.2 with ⟨-, content, hallowed, -, -, hv⟩ | ⟨-, hv⟩
  · exact hv.toSome hallowed
  · exact hv

theorem filled_of_failed {c : Copied} {v : View Memory}
    (h : At (SomeFilling files₀ notes₀ sibling allowed) v) (hpath : c.fp.path = path)
    (hok : c.ok = false) : Filled files₀ notes₀ sibling path allowed good c v :=
  ⟨hpath, .inr ⟨hok, h⟩⟩

/-- The bytes that the loop for a stored entry appends when `left` are left. -/
def StoredRest (apk : Bytes) (pos left : Nat) (content content' : Bytes) : Prop :=
  content' = content ++ slice apk pos left ∧ (slice apk pos left).length = left

theorem StoredRest.done (apk : Bytes) (pos : Nat) (content : Bytes) :
    StoredRest apk pos 0 content content :=
  ⟨(List.append_nil content).symm, rfl⟩

/-- A piece of `n` bytes, and what the loop appends behind it. -/
theorem StoredRest.more {pos left n : Nat} {content content' got : Bytes} (hle : n ≤ left)
    (hlength : got.length = n) (hgot : got = slice apk pos n)
    (h : StoredRest apk (pos + n) (left - n) (content ++ got) content') :
    StoredRest apk pos left content content' := by
  have hslice := slice_add apk pos n (left - n)
  rw [Nat.add_sub_cancel' hle, ← hgot] at hslice
  refine ⟨?_, ?_⟩
  · rw [← hslice, h.1, List.append_assoc]
  · rw [← hslice, List.length_append, hlength, h.2, Nat.add_sub_cancel' hle]

/-- The loop for a stored entry appends the next `left` bytes of the archive, by induction on the
rounds. -/
theorem triple_copyStored (hclosed : PrefixClosed allowed) (hsibling : path ≠ sibling)
    (hapk : files₀ path = some apk) (fuel left : Nat) (c : Copied) (content : Bytes)
    (hpath : c.fp.path = path) (hok : c.ok = true) (hfuel : left ≤ fuel)
    (hcounted : Counted c content) (hallowed : allowed (content ++ slice apk c.fp.pos left)) :
    Triple (At (Filling files₀ notes₀ sibling content)) (copyStored ⟨sibling⟩ fuel left c)
      (Filled files₀ notes₀ sibling path allowed (StoredRest apk c.fp.pos left content))
      (At (SomeFilling files₀ notes₀ sibling allowed)) := by
  -- the loop ends with all of the content in the sibling
  have hdone : ∀ (c : Copied) (content : Bytes), c.fp.path = path → c.ok = true →
      Counted c content → allowed content →
      Triple (At (Filling files₀ notes₀ sibling content)) (pure c)
        (Filled files₀ notes₀ sibling path allowed (StoredRest apk c.fp.pos 0 content))
        (At (SomeFilling files₀ notes₀ sibling allowed)) := fun c content hpath hok hcounted hnow =>
    triple_pure fun v hv => ⟨hpath, .inl ⟨hok, content, hnow, .done _ _ _, hcounted, hv⟩⟩
  induction fuel generalizing left c content with
  | zero =>
      obtain rfl := Nat.le_zero.1 hfuel
      exact hdone c content hpath hok hcounted (hclosed _ _ (List.prefix_append _ _) hallowed)
  | succ fuel ih =>
      have hnow : allowed content := hclosed _ _ (List.prefix_append _ _) hallowed
      unfold copyStored
      refine triple_ite (fun hleft => ?_) fun hleft => ?_
      · subst hleft
        exact hdone c content hpath hok hcounted hnow
      generalize hn : (if left < zipIoBytes then left else zipIoBytes) = n
      have hle : n ≤ left := by
        split at hn <;> omega
      have hpos : 0 < n := by
        unfold zipIoBytes at hn
        split at hn <;> omega
      subst hpath
      refine triple_bind (triple_fread_filling hsibling hapk hnow) ?_
      rintro ⟨got, fp⟩
      refine .assume ?_
      rintro ⟨hfp, hfpos, hgot⟩
      dsimp only at hfp hfpos hgot
      refine triple_ite (fun _ => triple_pure fun v hv =>
        filled_of_failed (hv.toSome hnow) hfp rfl) fun hlength => ?_
      have hlength : got.length = n := not_not.1 hlength
      have hgot := hgot hlength
      rw [hlength] at hfpos
      -- a whole piece is the next part of what the entry holds
      have hslice : slice apk c.fp.pos left = got ++ slice apk fp.pos (left - n) := by
        rw [hgot, hfpos, slice_add, Nat.add_sub_cancel' hle]
      rw [hslice, ← List.append_assoc] at hallowed
      refine triple_bind (triple_fwrite_filling hclosed
        (hclosed _ _ (List.prefix_append _ _) hallowed)) fun wrote => ?_
      cases wrote with
      | false => exact triple_pure fun v hv => filled_of_failed hv hfp rfl
      | true =>
          refine (ih (left - n) ⟨c.ok, c.written + n, Zlib.crc32 c.crc got, fp⟩ (content ++ got) hfp
            hok (by omega) (hcounted.append (by rw [hlength]) rfl) hallowed).post ?_
          rintro c' v ⟨hpath', ⟨hok', content', hallowed', hrest, hcounted', hv⟩ | hfailed⟩
          · dsimp only at hrest
            rw [hfpos] at hrest
            exact ⟨hpath', .inl ⟨hok', content', hallowed', hrest.more hle hlength hgot,
              hcounted', hv⟩⟩
          · exact ⟨hpath', .inr hfailed⟩

/-- What the loop for a deflated entry comes to after a call of `inflate`. -/
theorem triple_afterInflate {State : Type} (hclosed : PrefixClosed allowed) {c : Copied}
    {avail content : Bytes} {left : Nat} {more : State → Bytes → Copied → Install Copied}
    {status : Status} {s : State} {consumed : Nat} {made : Bytes} (hpath : c.fp.path = path)
    (hok : c.ok = true) (hcounted : Counted c content) (hallowed : allowed (content ++ made))
    (hend : status = .streamEnd → good (content ++ made))
    (hmore : status = .ok ∨ status = .bufError → ∀ c', c'.fp = c.fp → c'.ok = true →
      Counted c' (content ++ made) → Triple (At (Filling files₀ notes₀ sibling (content ++ made)))
        (more s (avail.drop consumed) c') (Filled files₀ notes₀ sibling path allowed good)
        (At (SomeFilling files₀ notes₀ sibling allowed))) :
    Triple (At (Filling files₀ notes₀ sibling content))
      (afterInflate ⟨sibling⟩ c avail left more (status, s, consumed, made))
      (Filled files₀ notes₀ sibling path allowed good)
      (At (SomeFilling files₀ notes₀ sibling allowed)) := by
  refine triple_bind (R := fun wrote v => if wrote then
    At (Filling files₀ notes₀ sibling (content ++ made)) v
    else At (SomeFilling files₀ notes₀ sibling allowed) v) ?_ ?_
  · refine triple_ite (fun _ => triple_fwrite_filling hclosed hallowed) fun hmade =>
      triple_pure fun v hv => ?_
    rw [not_not.1 hmade, List.append_nil]
    exact hv
  rintro (_ | _)
  · exact triple_pure fun v hv => filled_of_failed hv hpath rfl
  have hcrc : (if made ≠ [] then Zlib.crc32 c.crc made else c.crc) = Zlib.crc32 c.crc made := by
    split
    · rfl
    · rename_i hmade
      rw [not_not.1 hmade, Zlib.crc32_nil]
  rw [hcrc]
  have hcounted' : ∀ ok fp, Counted ⟨ok, c.written + made.length, Zlib.crc32 c.crc made, fp⟩
      (content ++ made) := fun ok fp => hcounted.append rfl rfl
  cases status with
  | streamEnd =>
      exact triple_pure fun v hv =>
        ⟨hpath, .inl ⟨hok, content ++ made, hallowed, hend rfl, hcounted' _ _, hv⟩⟩
  | failed => exact triple_pure fun v hv => filled_of_failed (Filling.toSome hv hallowed) hpath rfl
  | ok => exact hmore (.inl rfl) _ rfl hok (hcounted' _ _)
  | bufError =>
      show Triple (At (Filling files₀ notes₀ sibling (content ++ made)))
        (if left = 0 ∧ avail.drop consumed = [] then _ else _) _ _
      exact triple_ite
        (fun _ => triple_pure fun v hv => filled_of_failed (hv.toSome hallowed) hpath rfl)
        fun _ => hmore (.inr rfl) _ rfl hok (hcounted' _ _)

theorem refill_le (avail : Bytes) (left : Nat) : refill avail left ≤ left := by
  unfold refill
  split
  · split <;> omega
  · omega

/-- The loop for a deflated entry appends what the decoder gives, by induction on the rounds. The
decoder has consumed `fed` of the `csize` bytes at `start`, `avail` has been read, and `left` bytes
have not. -/
theorem triple_copyInflated {start csize : Nat} (hZ : Z.EndsIn (slice apk start csize) good)
    (hclosed : PrefixClosed allowed) (hsibling : path ≠ sibling) (hapk : files₀ path = some apk)
    (hallowed : ∀ out, out = [] ∨ Z.Yields (slice apk start csize) out → allowed out) (fuel : Nat)
    {s : Z.State} {fed avail content : Bytes} {left : Nat} {c : Copied} (hpath : c.fp.path = path)
    (hok : c.ok = true) (hcounted : Counted c content) (hnow : allowed content)
    (hsession : Z.Session s fed content) (hleft : left ≤ csize)
    (hpos : c.fp.pos = start + (csize - left))
    (hread : fed ++ avail = slice apk start (csize - left)) :
    Triple (At (Filling files₀ notes₀ sibling content))
      (copyInflated Z ⟨sibling⟩ fuel s avail left c)
      (Filled files₀ notes₀ sibling path allowed good)
      (At (SomeFilling files₀ notes₀ sibling allowed)) := by
  induction fuel generalizing s fed avail content left c with
  | zero => exact triple_hang fun v hv => hv.toSome hnow
  | succ fuel ih =>
      unfold copyInflated
      have hle := refill_le avail left
      generalize refill avail left = n at hle ⊢
      subst hpath
      refine triple_bind (R := fun r v => (r.2.path = c.fp.path ∧ r.2.pos = c.fp.pos + r.1.length ∧
        (r.1.length = n → r.1 = slice apk c.fp.pos n)) ∧
        At (Filling files₀ notes₀ sibling content) v) ?_ ?_
      · refine triple_ite (fun _ => triple_fread_filling hsibling hapk hnow) fun hzero => ?_
        refine triple_pure fun v hv => ⟨⟨rfl, rfl, fun _ => ?_⟩, hv⟩
        rw [not_not.1 hzero]
        rfl
      rintro ⟨got, fp⟩
      refine .assume ?_
      rintro ⟨hfp, hfpos, hgot⟩
      dsimp only at hfp hfpos hgot
      refine triple_ite (fun _ => triple_pure fun v hv =>
        filled_of_failed (hv.toSome hnow) hfp rfl) fun hlength => ?_
      have hlength : got.length = n := not_not.1 hlength
      have hgot := hgot hlength
      have hpos' : fp.pos = start + (csize - (left - n)) := by omega
      -- what has been read is longer by what has been got
      have hread' : fed ++ (avail ++ got) = slice apk start (csize - (left - n)) := by
        rw [← List.append_assoc, hread, hgot, hpos, slice_add]
        congr 1
        omega
      have hall : slice apk start (csize - (left - n)) ++
          slice apk (start + (csize - (left - n))) (left - n) = slice apk start csize := by
        rw [slice_add]
        congr 1
        omega
      generalize avail ++ got = avail' at hread' ⊢
      rcases hinflate : Z.inflate s avail' zipIoBytes (left - n = 0) with
        ⟨status, s', consumed, made⟩
      have hoffered : fed ++ avail' <+: slice apk start csize := by
        rw [hread', ← hall]
        exact List.prefix_append _ _
      have hmade : allowed (content ++ made) :=
        hallowed _ (.inr ⟨s, fed, content, avail', _, _, status, s', consumed, made, hsession,
          hoffered, hinflate, List.prefix_refl _⟩)
      refine triple_afterInflate hclosed hfp hok hcounted hmade (fun hend => ?_)
        fun hstatus c' hc' hok' hcounted' => ?_
      · subst hend
        exact hZ _ _ _ _ _ _ _ _ _ hsession hoffered hinflate
      · have hpath' : c'.fp.path = c.fp.path := (congrArg InFile.path hc').trans hfp
        refine ih hpath' hok' hcounted' hmade (hsession.more hinflate hstatus) (by omega) ?_ ?_
        · exact (congrArg InFile.pos hc').trans hpos'
        · rw [List.append_assoc, List.take_append_drop, hread']

/-- What the sibling may hold while an entry is extracted: a beginning of the stored bytes, or of
what the decoder gives when it is offered the data. -/
def Extractable (Z : Inflater) (apk : Bytes) (e : ZipEntry) (content : Bytes) : Prop :=
  if e.method = 0 then content <+: slice apk (dataPos apk e) e.csize
  else content = [] ∨ Z.Yields (slice apk (dataPos apk e) e.csize) content

/-- The content has passed the checks of an entry. -/
structure Passed (good : Bytes → Prop) (e : ZipEntry) (content : Bytes) : Prop where
  good : good content
  size : content.length = e.usize
  crc : Zlib.crc32 0 content = e.crc32

/-- What the data of an entry yields to the end is good. -/
structure EntryYields (Z : Inflater) (apk : Bytes) (e : ZipEntry) (good : Bytes → Prop) : Prop where
  stored : e.method = 0 → (slice apk (dataPos apk e) e.csize).length = e.csize →
    good (slice apk (dataPos apk e) e.csize)
  deflated : e.method ≠ 0 → Z.EndsIn (slice apk (dataPos apk e) e.csize) good

theorem prefixClosed_extractable {e : ZipEntry} : PrefixClosed (Extractable Z apk e) := by
  intro a b hprefix ha
  unfold Extractable at ha ⊢
  split at ha
  · rename_i hmethod
    rw [if_pos hmethod]
    exact hprefix.trans ha
  · rename_i hmethod
    rw [if_neg hmethod]
    rcases ha with rfl | ha
    · exact .inl (List.prefix_nil.1 hprefix)
    · exact .inr (ha.of_prefix hprefix)

theorem extractable_nil {e : ZipEntry} : Extractable Z apk e [] := by
  unfold Extractable
  split
  · exact List.nil_prefix
  · exact .inl rfl

/-- The loops of `extract_entry`. -/
theorem triple_copyEntry {e : ZipEntry} (hZ : EntryYields Z apk e good) {fp : InFile} {rounds : Nat}
    (hpath : fp.path = path) (hpos : fp.pos = dataPos apk e) (hsibling : path ≠ sibling)
    (hapk : files₀ path = some apk) :
    Triple (At (Filling files₀ notes₀ sibling [])) (copyEntry Z rounds fp e ⟨sibling⟩)
      (Filled files₀ notes₀ sibling path (Extractable Z apk e) good)
      (At (SomeFilling files₀ notes₀ sibling (Extractable Z apk e))) := by
  have hclosed : PrefixClosed (Extractable Z apk e) := prefixClosed_extractable
  have hcounted : ∀ fp, Counted ⟨true, 0, 0, fp⟩ [] := fun fp => ⟨rfl, (Zlib.crc32_nil 0).symm⟩
  refine triple_ite (fun hmethod => ?_) fun hmethod => ?_
  · have hallowed : Extractable Z apk e ([] ++ slice apk fp.pos e.csize) := by
      unfold Extractable
      rw [if_pos hmethod, hpos, List.nil_append]
    refine (triple_copyStored hclosed hsibling hapk e.csize e.csize ⟨true, 0, 0, fp⟩ [] hpath rfl
      (Nat.le_refl _) (hcounted fp) hallowed).post ?_
    rintro c v ⟨hpath', ⟨hok, content, hc, ⟨hcontent, hlength⟩, hcount, hv⟩ | hfailed⟩
    · refine ⟨hpath', .inl ⟨hok, content, hc, ?_, hcount, hv⟩⟩
      dsimp only at hcontent hlength
      rw [hpos] at hcontent hlength
      rw [hcontent]
      exact hZ.stored hmethod hlength
    · exact ⟨hpath', .inr hfailed⟩
  refine triple_bind (R := fun _ v => At (Filling files₀ notes₀ sibling []) v)
    (triple_chance fun v b hv => ⟨hv, hv.toSome extractable_nil⟩) fun r => triple_ite (fun _ =>
      triple_pure fun v hv => filled_of_failed (hv.toSome extractable_nil) hpath rfl) fun _ => ?_
  have hallowed : ∀ out, out = [] ∨ Z.Yields (slice apk (dataPos apk e) e.csize) out →
      Extractable Z apk e out := fun out hout => by
    unfold Extractable
    rwa [if_neg hmethod]
  refine triple_copyInflated (hZ.deflated hmethod) hclosed hsibling hapk hallowed rounds
    hpath rfl (hcounted fp) extractable_nil .start (Nat.le_refl _) ?_ ?_
  · dsimp only
    rw [hpos, Nat.sub_self, Nat.add_zero]
  · rw [Nat.sub_self]
    rfl

end Filling

/-! ## Checking and replacing -/

section Replacing

variable {Z : Inflater} {apk : Bytes} {files₀ : Contents}
  {notes₀ : List Note} {path : Path} {target : Bytes} {allowed good : Bytes → Prop}

/-- The sibling is removed, if that does not fail. -/
theorem triple_discard {format : String} {args : List Arg} :
    Triple (At (Attempted files₀ notes₀ (resolve (tmpOf target)) allowed))
      (discard target format args)
      (fun r v => r = false ∧ At (Attempted files₀ notes₀ (resolve (tmpOf target)) allowed) v)
      (At (Attempted files₀ notes₀ (resolve (tmpOf target)) allowed)) := by
  refine triple_bind (R := fun _ => At (Attempted files₀ notes₀ (resolve (tmpOf target)) allowed))
    (triple_remove (fun v e hv => ⟨hv, hv⟩) fun v old hv _ => ?_) fun _ => triple_fails
  obtain ⟨⟨content, hfiles, -⟩, hnotes⟩ := hv
  have hgone : At (Attempted files₀ notes₀ (resolve (tmpOf target)) allowed)
      (v.set (resolve (tmpOf target)) none) := by
    refine ⟨⟨none, ?_, by simp⟩, hnotes⟩
    rw [set_files, hfiles, Function.update_idem]
  exact ⟨hgone, hgone⟩

/-- What has passed the checks is good, and as long and with the checksum that the entry says. -/
theorem triple_checkEntry (hclosed : PrefixClosed allowed) {e : ZipEntry} {c : Copied} :
    Triple (Filled files₀ notes₀ (resolve (tmpOf target)) path allowed good c)
      (checkEntry e target ⟨resolve (tmpOf target)⟩ c)
      (fun r v => if r then ∃ content, Passed good e content ∧ allowed content ∧
          At (Filling files₀ notes₀ (resolve (tmpOf target)) content) v
        else At (Attempted files₀ notes₀ (resolve (tmpOf target)) allowed) v)
      (At (Attempted files₀ notes₀ (resolve (tmpOf target)) allowed)) := by
  have hdiscard : ∀ format args,
      Triple (At (SomeFilling files₀ notes₀ (resolve (tmpOf target)) allowed))
        (discard target format args)
        (fun r v => if r then ∃ content, Passed good e content ∧ allowed content ∧
            At (Filling files₀ notes₀ (resolve (tmpOf target)) content) v
          else At (Attempted files₀ notes₀ (resolve (tmpOf target)) allowed) v)
        (At (Attempted files₀ notes₀ (resolve (tmpOf target)) allowed)) := fun format args =>
    (triple_discard.pre fun v hv => hv.attempted).post fun r v hv => by
      rw [hv.1]
      exact hv.2
  refine triple_bind (R := fun closed v => if closed then
    Filled files₀ notes₀ (resolve (tmpOf target)) path allowed good c v
    else At (SomeFilling files₀ notes₀ (resolve (tmpOf target)) allowed) v) ?_ fun closed => ?_
  · refine triple_flush (fun v old n hv hold => ?_) fun v b hv => ⟨?_, hv.toSome.attempted⟩
    · obtain ⟨content, hcontent, hfilling⟩ := hv.toSome
      obtain rfl := Filling.content_eq hfilling hold
      have hpart := (Filling.set hfilling).toSome (hclosed _ _ (List.take_prefix n old) hcontent)
      exact ⟨hpart, hpart.attempted⟩
    · cases b with
      | false => exact hv.toSome
      | true => exact hv
  refine triple_ite (fun _ => (hdiscard _ _).pre fun v hv => ?_) fun hchecked => ?_
  · cases closed with
    | false => exact hv
    | true => exact hv.toSome
  obtain ⟨hboth, hwritten⟩ := not_or.1 hchecked
  have hboth : c.ok = true ∧ closed = true := by simpa using hboth
  obtain ⟨hok, rfl⟩ := hboth
  refine triple_ite (fun _ => (hdiscard _ _).pre fun v hv => hv.toSome) fun hcrc => ?_
  refine triple_pure fun v hv => ?_
  rcases hv.2 with ⟨-, content, hallowed, hgood, ⟨hcount, hsum⟩, hfilling⟩ | ⟨hfailed, -⟩
  · refine ⟨content, ⟨hgood, ?_, ?_⟩, hallowed, hfilling⟩
    · rw [← hcount]
      exact not_not.1 hwritten
    · rw [← hsum]
      exact not_not.1 hcrc
  · rw [hok] at hfailed
    cases hfailed

/-- What filling the sibling ends with. -/
def Ready (files₀ : Contents) (notes₀ : List Note) (sibling path : Path)
    (allowed good : Bytes → Prop) (e : ZipEntry) (r : Bool × InFile) (v : View Memory) : Prop :=
  r.2.path = path ∧ if r.1 then ∃ content, Passed good e content ∧ allowed content ∧
      At (Filling files₀ notes₀ sibling content) v
    else At (Attempted files₀ notes₀ sibling allowed) v

/-- The files and the notes are those given. -/
def Exactly (files₀ : Contents) (notes₀ : List Note) : Assertion :=
  fun files notes => files = files₀ ∧ notes = notes₀

theorem Exactly.attempted {files : Contents} {notes : List Note} {sibling : Path}
    (h : Exactly files₀ notes₀ files notes) : Attempted files₀ notes₀ sibling allowed files notes :=
  attempted_start h.1 h.2

/-- The part of `extract_entry` that works on the sibling. -/
theorem triple_fillSibling {e : ZipEntry} (hZ : EntryYields Z apk e good) {fp : InFile}
    {rounds : Nat} (hpath : fp.path = path) (hpos : fp.pos = dataPos apk e)
    (hsibling : path ≠ resolve (tmpOf target))
    (hapk : files₀ path = some apk) :
    Triple (At (Exactly files₀ notes₀)) (fillSibling Z rounds fp e target)
      (Ready files₀ notes₀ (resolve (tmpOf target)) path (Extractable Z apk e) good e)
      (At (Attempted files₀ notes₀ (resolve (tmpOf target)) (Extractable Z apk e))) := by
  refine triple_bind (R := OrFailed (At (Exactly files₀ notes₀)) fun out v =>
    out = ⟨resolve (tmpOf target)⟩ ∧ At (Filling files₀ notes₀ (resolve (tmpOf target)) []) v) ?_ ?_
  · refine triple_fopenWrite (fun v _ hv => ⟨hv, hv.attempted⟩) fun v hv => ?_
    have hopened : At (Filling files₀ notes₀ (resolve (tmpOf target)) [])
        (v.set (resolve (tmpOf target)) (some [])) := by
      refine ⟨?_, hv.2⟩
      rw [set_files, hv.1]
    exact ⟨⟨rfl, hopened⟩, (hopened.toSome extractable_nil).attempted⟩
  rintro (_ | out)
  · refine triple_bind (R := fun r v => r = false ∧ At (Exactly files₀ notes₀) v) ?_ fun r => ?_
    · exact triple_bind (R := fun _ => At (Exactly files₀ notes₀)) (triple_update fun _ hw => hw)
        fun _ => triple_pure fun _ hv => ⟨rfl, hv⟩
    · refine triple_pure fun v hv => ⟨hpath, ?_⟩
      rw [hv.1]
      exact Exactly.attempted hv.2
  refine .assume ?_
  rintro rfl
  -- an allocation succeeds or fails and changes nothing
  have hchance : ∀ r : Bool, Triple (At (Filling files₀ notes₀ (resolve (tmpOf target)) [])) chance
      (fun _ => At (Filling files₀ notes₀ (resolve (tmpOf target)) []))
      (At (Attempted files₀ notes₀ (resolve (tmpOf target)) (Extractable Z apk e))) := fun _ =>
    triple_chance fun v b hv => ⟨hv, (hv.toSome extractable_nil).attempted⟩
  refine triple_bind (hchance true) fun input => triple_bind (hchance true) fun output => ?_
  refine triple_ite (fun _ => ?_) fun _ => ?_
  · refine triple_bind (R := fun _ =>
      At (SomeFilling files₀ notes₀ (resolve (tmpOf target)) (Extractable Z apk e))) ?_ fun _ => ?_
    · refine triple_flush (fun v old n hv hold => ?_) fun v b hv =>
        ⟨hv.toSome extractable_nil, (hv.toSome extractable_nil).attempted⟩
      obtain rfl := Filling.content_eq hv hold
      -- nothing has been written, so a flush that is cut leaves the sibling empty
      have hpart : At (SomeFilling files₀ notes₀ (resolve (tmpOf target)) (Extractable Z apk e))
          (v.set (resolve (tmpOf target)) (some (List.take n []))) :=
        (Filling.set hv).toSome (by rw [List.take_nil]; exact extractable_nil)
      exact ⟨hpart, hpart.attempted⟩
    · refine triple_bind (triple_discard.pre fun v hv => hv.attempted) fun r =>
        triple_pure fun v hv => ⟨hpath, ?_⟩
      rw [hv.1]
      exact hv.2
  refine triple_bind (Triple.mono (triple_copyEntry hZ hpath hpos hsibling hapk)
    (fun v hv => hv) (fun c v hv => (⟨hv.1, hv⟩ : c.fp.path = path ∧ _))
    fun v hv => hv.attempted) fun c => .assume fun hcpath => ?_
  refine triple_bind (triple_checkEntry prefixClosed_extractable) fun r =>
    triple_pure fun v hv => ⟨hcpath, ?_⟩
  cases r with
  | false => exact hv
  | true => exact hv

/-- `extract_entry` up to the replacement: it is ready when the sibling holds the content of the
entry. -/
theorem triple_fillEntry {e : ZipEntry} (hZ : EntryYields Z apk e good) {fp : InFile} {rounds : Nat}
    (hpath : fp.path = path) (hsibling : path ≠ resolve (tmpOf target))
    (hapk : files₀ path = some apk) :
    Triple (At (Exactly files₀ notes₀)) (fillEntry Z rounds fp e target)
      (Ready files₀ notes₀ (resolve (tmpOf target)) path (Extractable Z apk e) good e)
      (At (Attempted files₀ notes₀ (resolve (tmpOf target)) (Extractable Z apk e))) := by
  -- everything before the sibling leaves the files as they were
  have hstop : ∀ v, At (Exactly files₀ notes₀) v →
      At (Attempted files₀ notes₀ (resolve (tmpOf target)) (Extractable Z apk e)) v := fun v hv =>
    hv.attempted
  have hfails : ∀ format args (fp : InFile), fp.path = path → Triple (At (Exactly files₀ notes₀))
      (do let r ← fails format args; pure (r, fp) : Install (Bool × InFile))
      (Ready files₀ notes₀ (resolve (tmpOf target)) path (Extractable Z apk e) good e)
      (At (Attempted files₀ notes₀ (resolve (tmpOf target)) (Extractable Z apk e))) :=
    fun format args fp hfp => triple_bind triple_fails fun r => triple_pure fun v hv =>
      ⟨hfp, by rw [hv.1]; exact hstop v hv.2⟩
  refine triple_ite (fun _ => hfails _ _ _ hpath) fun _ => ?_
  refine triple_ite (fun _ => hfails _ _ _ hpath) fun _ => ?_
  have hseek : ∀ (fp : InFile) (n : Nat), fp.path = path → Triple (At (Exactly files₀ notes₀))
      (fseek fp (some n)) (fun r v => (∀ fp', r = some fp' → fp'.path = path ∧ fp'.pos = n) ∧
        At (Exactly files₀ notes₀) v)
      (At (Attempted files₀ notes₀ (resolve (tmpOf target)) (Extractable Z apk e))) := by
    intro fp n hfp
    refine triple_fseek (fun v hv => ⟨⟨by simp, hv⟩, hstop v hv⟩) fun v k hv hk =>
      ⟨⟨?_, hv⟩, hstop v hv⟩
    rintro _ ⟨⟩
    exact ⟨hfp, (Option.some.inj hk).symm⟩
  refine triple_bind (hseek fp e.localOffset hpath) ?_
  rintro (_ | fp₁)
  · exact (hfails _ _ _ hpath).pre fun v hv => hv.2
  refine .assume fun hfirst => ?_
  obtain ⟨hpath₁, hpos₁⟩ := hfirst fp₁ rfl
  have hfile : ∀ files notes, Exactly files₀ notes₀ files notes → files fp₁.path = some apk := by
    rintro files notes ⟨rfl, -⟩
    rw [hpath₁, hapk]
  refine triple_bind (triple_fread_slice (Q := fun r v => (r.2.path = path ∧
    r.2.pos = fp₁.pos + r.1.length ∧ (r.1.length = 30 → r.1 = slice apk fp₁.pos 30)) ∧
      At (Exactly files₀ notes₀) v) hfile (fun files notes h => h.attempted)
    fun v got err hv hgot => ⟨⟨hpath₁, rfl, hgot⟩, hv⟩) ?_
  rintro ⟨lh, fp₂⟩
  refine .assume ?_
  rintro ⟨hpath₂, hpos₂, hlh⟩
  dsimp only at hpath₂ hpos₂ hlh
  refine triple_ite (fun _ => hfails _ _ _ hpath₂) fun hheader => ?_
  -- a local header that was accepted is a whole one, and gives the place of the data
  have hlength : lh.length = 30 := by
    by_contra hshort
    exact hheader (.inl hshort)
  have hlh := hlh hlength
  refine triple_bind (hseek fp₂ _ hpath₂) ?_
  rintro (_ | fp₃)
  · exact triple_pure fun v hv => ⟨hpath₂, hstop v hv.2⟩
  refine .assume fun hsecond => ?_
  obtain ⟨hpath₃, hpos₃⟩ := hsecond fp₃ rfl
  refine triple_bind (Triple.mono (triple_of_stays_empty (P := Exactly files₀ notes₀)
    stays_createParentDirectories) (fun _ hv => hv) (fun _ _ hv => hv) hstop) fun made => ?_
  refine triple_ite (fun _ => triple_pure fun v hv => ⟨hpath₃, hstop v hv⟩) fun _ => ?_
  refine triple_ite (fun _ => hfails _ _ _ hpath₃) fun _ => ?_
  refine triple_fillSibling hZ hpath₃ ?_ hsibling hapk
  rw [hpos₃, hpos₂, hlength, hlh, hpos₁]
  rfl

end Replacing

end Asnx.Installer
