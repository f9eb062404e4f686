import Asnx.Installer.Zip
import Asnx.Library.Completion

/-!
# The directory is enumerated

While no operation on the archive fails, `zip_visit` calls its visitor once for each of the central
records that follow each other from `cd_offset` on, in order and with their own fields, up to the
first record that is not one or that the visitor refuses (`visit_enumerates`). A record counts as
one when it is there up to the end of its name: what follows the name is skipped without being
read.
-/

namespace Asnx.Installer

open Interrupted Files

/-! ## Central records -/

section Records

variable {apk : Bytes} {pos next : Nat} {e : ZipEntry}

/-- The position behind the record at a position, with its name, extra field and comment. -/
def recordEnd (apk : Bytes) (pos : Nat) : Nat :=
  pos + 46 + rd16 (slice apk pos 46) 28 + (rd16 (slice apk pos 46) 30 + rd16 (slice apk pos 46) 32)

/-- At a position stands a central record, there up to the end of its name, that describes `e`. -/
structure CentralRecord (apk : Bytes) (pos : Nat) (e : ZipEntry) : Prop where
  there : pos + 46 + rd16 (slice apk pos 46) 28 ≤ apk.length
  signature : rd32 (slice apk pos 46) 0 = 0x02014b50
  named : 1 ≤ rd16 (slice apk pos 46) 28
  short : rd16 (slice apk pos 46) 28 ≤ 767
  csize : rd32 (slice apk pos 46) 20 ≠ 0xFFFFFFFF
  usize : rd32 (slice apk pos 46) 24 ≠ 0xFFFFFFFF
  localOffset : rd32 (slice apk pos 46) 42 ≠ 0xFFFFFFFF
  entry : e = entryOf (slice apk pos 46) (slice apk (pos + 46) (rd16 (slice apk pos 46) 28))

/-- Central records follow each other from one position to another, and describe `es`. -/
inductive CentralRecords (apk : Bytes) : Nat → List ZipEntry → Nat → Prop
  | nil (pos : Nat) : CentralRecords apk pos [] pos
  | cons {pos next : Nat} {e : ZipEntry} {es : List ZipEntry} : CentralRecord apk pos e →
      CentralRecords apk (recordEnd apk pos) es next → CentralRecords apk pos (e :: es) next

/-- The name of a record is there when the record is there up to its end. -/
theorem length_slice_eq_iff (apk : Bytes) (pos : Nat) {n : Nat} (hn : 1 ≤ n) :
    (slice apk pos n).length = n ↔ pos + n ≤ apk.length := by
  unfold slice
  rw [List.length_take, List.length_drop]
  omega

theorem acceptable_iff {h : Bytes} : acceptable h = true ↔
    h.length = 46 ∧ rd32 h 0 = 0x02014b50 ∧ rd16 h 28 ≠ 0 ∧ rd16 h 28 < zipNameMax :=
  decide_eq_true_iff

theorem isZip64_iff {h : Bytes} : isZip64 h = true ↔
    rd32 h 20 = uint32Max ∨ rd32 h 24 = uint32Max ∨ rd32 h 42 = uint32Max :=
  decide_eq_true_iff

/-- The code accepts the central records. -/
theorem centralEntry_eq_some_iff :
    centralEntry apk pos = some (e, next) ↔ CentralRecord apk pos e ∧ next = recordEnd apk pos := by
  have hheader : (slice apk pos 46).length = 46 ↔ pos + 46 ≤ apk.length :=
    length_slice_eq_iff apk pos (by decide)
  have hname : 1 ≤ rd16 (slice apk pos 46) 28 → ((slice apk (pos + 46)
      (rd16 (slice apk pos 46) 28)).length = rd16 (slice apk pos 46) 28 ↔ _) :=
    length_slice_eq_iff apk (pos + 46)
  have hmax : uint32Max = 0xFFFFFFFF := rfl
  unfold centralEntry recordEnd
  dsimp only
  simp only [acceptable_iff, isZip64_iff, hmax, not_or, zipNameMax]
  constructor
  · intro h
    split at h
    · rename_i hok
      obtain ⟨⟨-, hsignature, hnamed, hshort⟩, ⟨hcsize, husize, hoffset⟩, hlength⟩ := hok
      cases h
      have hnamed : 1 ≤ rd16 (slice apk pos 46) 28 := by omega
      have hshort : rd16 (slice apk pos 46) 28 ≤ 767 := Nat.le_of_lt_succ hshort
      exact ⟨⟨(hname hnamed).1 hlength, hsignature, hnamed, hshort, hcsize, husize, hoffset, rfl⟩,
        rfl⟩
    · cases h
  · rintro ⟨⟨hthere, hsignature, hnamed, hshort, hcsize, husize, hoffset, rfl⟩, rfl⟩
    refine if_pos ⟨⟨hheader.2 (by omega), hsignature, by omega, Nat.lt_succ_of_le hshort⟩, ?_, ?_⟩
    · exact ⟨hcsize, husize, hoffset⟩
    · exact (hname hnamed).2 hthere

theorem CentralRecord.centralEntry (h : CentralRecord apk pos e) :
    centralEntry apk pos = some (e, recordEnd apk pos) :=
  centralEntry_eq_some_iff.2 ⟨h, rfl⟩

theorem centralEntry_eq_none (h : ¬ ∃ e, CentralRecord apk pos e) :
    Installer.centralEntry apk pos = none := by
  cases hentry : Installer.centralEntry apk pos with
  | none => rfl
  | some r => exact absurd ⟨r.1, (centralEntry_eq_some_iff.1 hentry).1⟩ h

end Records

/-! ## Visits -/

section Visits

variable {α : Type} {apk : Bytes} {path : Path}

/-- Reading from an archive gives the slice. -/
theorem total_fread_slice {P : Fs → Prop} (hfile : ∀ fs, P fs → fs.file path = some apk)
    {fp : InFile} {n : Nat}
    (hpath : fp.path = path) :
    Total Calm (fun w => P w.fs) (fread fp n : Install (Bytes × InFile)) fun r w =>
      r = (slice apk fp.pos n, ⟨path, fp.pos + (slice apk fp.pos n).length, fp.err⟩) ∧ P w.fs := by
  subst hpath
  exact total_fread fun w hw => hfile w.fs hw

/-- What `zip_visit` makes of the record at a position. -/
theorem total_readRecord {P : Fs → Prop} (hfile : ∀ fs, P fs → fs.file path = some apk)
    {fp : InFile} (hpath : fp.path = path) :
    Total Calm (fun w => P w.fs) (readRecord fp) fun r w =>
      r = (centralEntry apk fp.pos).map (fun (e, next) => (e, ⟨path, next, fp.err⟩)) ∧ P w.fs := by
  subst hpath
  have hfails : ∀ format args, Total Calm (fun w => P w.fs) (fails format args)
      fun _ w => P w.fs := fun format args =>
    total_bind (R := fun _ w => P w.fs) (total_update fun _ hw => hw) fun _ =>
      total_pure fun _ hw => hw
  refine total_bind_eq (total_fread_slice hfile rfl) ?_
  refine total_ite (fun hok => total_pure fun w hw => ⟨?_, hw⟩) fun hok => ?_
  · have hnone : centralEntry apk fp.pos = none := if_neg fun h => by simp [h.1] at hok
    rw [hnone]
    rfl
  refine total_ite (fun h64 => total_bind (hfails _ _) fun _ => total_pure fun w hw => ⟨?_, hw⟩)
    fun h64 => ?_
  · have hnone : centralEntry apk fp.pos = none := if_neg fun h => h.2.1 h64
    rw [hnone]
    rfl
  have hok : acceptable (slice apk fp.pos 46) = true := by simpa using hok
  have hlength : (slice apk fp.pos 46).length = 46 := (of_decide_eq_true hok).1
  refine total_bind_eq (total_fread_slice hfile rfl) ?_
  dsimp only
  rw [hlength]
  refine total_ite (fun hname => total_pure fun w hw => ⟨?_, hw⟩) fun hname => ?_
  · have hnone : centralEntry apk fp.pos = none := if_neg fun h => hname h.2.2
    rw [hnone]
    rfl
  have hname := not_not.1 hname
  refine total_bind_eq total_fseek (total_pure fun w hw => ⟨?_, hw⟩)
  have hsome : centralEntry apk fp.pos = some _ := if_pos ⟨hok, h64, hname⟩
  rw [hsome, Option.map_some, hname]

/-- A visitor that comes to an end and leaves the archive as it is; it may move the position. -/
def Browses (path : Path) (apk : Bytes) (visitor : ZipVisitor α) : Prop :=
  ∀ fp e user, fp.path = path → Total Calm (Holding path apk) (visitor fp e user) fun r w =>
    r.2.1.path = path ∧ Holding path apk w

/-- The visitor with a record of its calls: the entries, each with whether it was accepted. -/
def logging (visitor : ZipVisitor α) : ZipVisitor (α × List (ZipEntry × Bool)) :=
  fun fp e (user, calls) => do
    let (ok, fp, user) ← visitor fp e user
    pure (ok, fp, user, calls ++ [(e, ok)])

/-- The calls of a visitor that accepts the entries. -/
def accepted (es : List ZipEntry) : List (ZipEntry × Bool) := es.map fun e => (e, true)

/-- What a visit of `n` records from a position on comes to: the visitor has been called for records
that follow each other, and either these are all, or the next one is none, or it is refused. -/
inductive Enumerated (apk : Bytes) (pos n : Nat) : Bool → List (ZipEntry × Bool) → Prop
  | all {es : List ZipEntry} {next : Nat} : CentralRecords apk pos es next → es.length = n →
      Enumerated apk pos n true (accepted es)
  | noRecord {es : List ZipEntry} {next : Nat} : CentralRecords apk pos es next → es.length < n →
      (¬ ∃ e, CentralRecord apk next e) → Enumerated apk pos n false (accepted es)
  | refused {es : List ZipEntry} {next : Nat} {e : ZipEntry} : CentralRecords apk pos es next →
      es.length < n → CentralRecord apk next e →
      Enumerated apk pos n false (accepted es ++ [(e, false)])

/-- A record that is accepted, before what comes after it. -/
theorem Enumerated.cons {pos n : Nat} {ok : Bool} {calls : List (ZipEntry × Bool)} {e : ZipEntry}
    (hrecord : CentralRecord apk pos e) (h : Enumerated apk (recordEnd apk pos) n ok calls) :
    Enumerated apk pos (n + 1) ok ((e, true) :: calls) := by
  cases h with
  | all hes hlength => exact .all (.cons hrecord hes) (congrArg (· + 1) hlength)
  | noRecord hes hlength hnone =>
      exact .noRecord (.cons hrecord hes) (Nat.succ_lt_succ hlength) hnone
  | refused hes hlength hnext => exact .refused (.cons hrecord hes) (Nat.succ_lt_succ hlength) hnext

/-- The loop over the records, by induction on their number. -/
theorem total_visitRecords {visitor : ZipVisitor α} (hvisitor : Browses path apk visitor) (n : Nat)
    (fp : InFile) (user : α) (calls : List (ZipEntry × Bool)) (hpath : fp.path = path) :
    Total Calm (Holding path apk) (visitRecords (logging visitor) n fp (user, calls)) fun r w =>
      (∃ more, r.2.2 = calls ++ more ∧ Enumerated apk fp.pos n r.1 more) ∧ Holding path apk w := by
  induction n generalizing fp user calls with
  | zero =>
      refine total_pure fun w hw => ⟨⟨[], (List.append_nil _).symm, ?_⟩, hw⟩
      exact .all (.nil _) rfl
  | succ n ih =>
      refine total_bind_eq (total_readRecord (P := fun fs => fs.file path = some apk)
        (fun _ hfs => hfs) hpath) ?_
      by_cases hrecord : ∃ e, CentralRecord apk fp.pos e
      · obtain ⟨e, he⟩ := hrecord
        rw [he.centralEntry]
        refine total_bind_eq total_ftell ?_
        have hcall := total_bind (E := Calm)
          (hvisitor ⟨path, recordEnd apk fp.pos, fp.err⟩ e user rfl)
          (f := fun r => pure (r.1, r.2.1, r.2.2, calls ++ [(e, r.1)]))
          (Q := fun r w => (r.2.1.path = path ∧ r.2.2.2 = calls ++ [(e, r.1)]) ∧ Holding path apk w)
          fun r => total_pure fun w hw => ⟨⟨hw.1, rfl⟩, hw.2⟩
        refine total_bind hcall ?_
        rintro ⟨ok, fp', user', calls'⟩
        refine .assume ?_
        rintro ⟨hpath', hcalls⟩
        dsimp only at hpath' hcalls
        subst hcalls
        cases ok with
        | false =>
            refine total_pure fun w hw => ⟨⟨[(e, false)], rfl, ?_⟩, hw⟩
            exact .refused (.nil _) (Nat.succ_pos n) he
        | true =>
            refine total_bind_eq total_fseek ?_
            refine (ih ⟨fp'.path, recordEnd apk fp.pos, fp'.err⟩ user' _ hpath').post ?_
            rintro r w ⟨⟨more, hmore, henumerated⟩, hw⟩
            refine ⟨⟨(e, true) :: more, ?_, .cons he henumerated⟩, hw⟩
            rw [hmore, List.append_assoc, List.singleton_append]
      · rw [centralEntry_eq_none hrecord]
        refine total_pure fun w hw => ⟨⟨[], (List.append_nil _).symm, ?_⟩, hw⟩
        exact .noRecord (.nil _) (Nat.succ_pos n) hrecord

/-- The record of the calls changes nothing else, by induction on the number of records. -/
theorem visitRecords_logging (visitor : ZipVisitor α) (n : Nat) (fp : InFile) (user : α)
    (calls : List (ZipEntry × Bool)) (m : Machine (World Memory)) :
    visitRecords visitor n fp user m =
      ((visitRecords (logging visitor) n fp (user, calls) m).1.map fun (ok, user, _) => (ok, user),
        (visitRecords (logging visitor) n fp (user, calls) m).2) := by
  induction n generalizing fp user calls m with
  | zero => rfl
  | succ n ih =>
      unfold visitRecords
      rcases hread : readRecord fp m with ⟨_ | _ | ⟨e, fp₁⟩, m₁⟩
      · rw [bind_of_none hread, bind_of_none hread]
        rfl
      · rw [bind_of_some hread, bind_of_some hread]
        rfl
      rw [bind_of_some hread, bind_of_some hread]
      dsimp only
      rcases htell : ftell fp₁ m₁ with ⟨_ | next, m₂⟩
      · rw [bind_of_none htell, bind_of_none htell]
        rfl
      rw [bind_of_some htell, bind_of_some htell]
      rcases hvisit : visitor fp₁ e user m₂ with ⟨_ | ⟨ok, fp₂, user₂⟩, m₃⟩
      · have hlogged : logging visitor fp₁ e (user, calls) m₂ = (none, m₃) := bind_of_none hvisit
        rw [bind_of_none hvisit, bind_of_none hlogged]
        rfl
      have hlogged : logging visitor fp₁ e (user, calls) m₂ =
          (some (ok, fp₂, user₂, calls ++ [(e, ok)]), m₃) := bind_of_some hvisit
      rw [bind_of_some hvisit, bind_of_some hlogged]
      cases ok with
      | false => rfl
      | true =>
          dsimp only
          rcases hseek : fseek fp₂ next m₃ with ⟨_ | _ | fp₃, m₄⟩
          · rw [if_neg (by decide), if_neg (by decide), bind_of_none hseek, bind_of_none hseek]
            rfl
          · rw [if_neg (by decide), if_neg (by decide), bind_of_some hseek, bind_of_some hseek]
            rfl
          · rw [if_neg (by decide), if_neg (by decide), bind_of_some hseek, bind_of_some hseek]
            exact ih fp₃ user₂ (calls ++ [(e, true)]) m₄

/-- All records have been accepted exactly when the visit has succeeded. -/
theorem Enumerated.ok_iff {pos n : Nat} {ok : Bool} {calls : List (ZipEntry × Bool)}
    (h : Enumerated apk pos n ok calls) : ok = true ↔
      ∃ es next, CentralRecords apk pos es next ∧ es.length = n ∧ calls = accepted es := by
  cases h with
  | all hes hlength => exact ⟨fun _ => ⟨_, _, hes, hlength, rfl⟩, fun _ => rfl⟩
  | noRecord hes hlength hnone =>
      refine ⟨by rintro ⟨⟩, ?_⟩
      rintro ⟨es', next', -, hn, hcalls⟩
      have hlengths := congrArg List.length hcalls
      rw [accepted, accepted, List.length_map, List.length_map] at hlengths
      omega
  | refused hes hlength hnext =>
      refine ⟨by rintro ⟨⟩, ?_⟩
      rintro ⟨es', next', -, -, hcalls⟩
      have hlast := congrArg List.getLast? hcalls
      rw [List.getLast?_concat, accepted, List.getLast?_map] at hlast
      obtain ⟨e', -, he'⟩ := Option.map_eq_some_iff.1 hlast.symm
      cases he'

/-- `zip_visit` returns 0 exactly when from `cd_offset` on there are as many central records as
expected and the visitor accepts them all; it is called once for each record, in order, until the
first that is none or is refused. -/
theorem visit_enumerates {z : ZipArchive} {visitor : ZipVisitor α}
    (hvisitor : Browses z.fp.path apk visitor) (user : α) (m : Machine (World Memory))
    (hm : Powered Calm m.decisions) (hfile : Holding z.fp.path apk m.world) :
    ∃ ok user' calls m', zipVisit z visitor user m = (some (ok, user'), m') ∧
      zipVisit z (logging visitor) (user, []) m = (some (ok, user', calls), m') ∧
      Enumerated apk z.cdOffset z.entries ok calls ∧
      (ok = true ↔ ∃ es next, CentralRecords apk z.cdOffset es next ∧ es.length = z.entries ∧
        calls = accepted es) := by
  obtain ⟨fp, m₁, hseek, hdecisions, rfl, hfile₁⟩ :=
    total_fseek (γ := Memory) (f := z.fp) (n := z.cdOffset) m hm hfile
  obtain ⟨⟨ok, user', calls⟩, m', hrun, -, ⟨more, hmore, henumerated⟩, -⟩ :=
    total_visitRecords hvisitor z.entries ⟨z.fp.path, z.cdOffset, z.fp.err⟩ user [] rfl m₁
      (hdecisions ▸ hm) hfile₁
  obtain rfl : calls = more := hmore
  refine ⟨ok, user', calls, m', ?_, (bind_of_some hseek).trans hrun, henumerated,
    henumerated.ok_iff⟩
  refine (bind_of_some hseek).trans ?_
  show visitRecords visitor z.entries _ user m₁ = _
  rw [visitRecords_logging visitor z.entries _ user [], hrun]
  rfl

end Visits

/-! ## Visits at work -/

/-- A record whose extra field of 5 bytes is missing, at the end of a file. -/
def cutRecord : Bytes :=
  [0x50, 0x4b, 0x01, 0x02] ++ List.replicate 24 0 ++ [1, 0, 5, 0] ++ List.replicate 14 0 ++ [97]

/-- The world with one file. -/
def worldOf (path : Path) (content : Bytes) : World Memory := ⟨Fs.put ∅ path content, [], .init⟩

theorem holding_worldOf (path : Path) (content : Bytes) :
    Holding path content (worldOf path content) := by
  show Fs.file (Fs.put ∅ path content) path = some content
  rw [file_put, Function.update_self]

/-- A visitor that moves the archive to its beginning and accepts everything. -/
def rewinding : ZipVisitor Unit := fun fp _ _ => pure (true, { fp with pos := 0 }, ())

theorem browses_rewinding {path : Path} {apk : Bytes} : Browses path apk rewinding :=
  fun _ _ _ hpath => total_pure fun _ hw => ⟨hpath, hw⟩

/-- A visit of the record, whose visitor moves the archive back to the beginning. -/
theorem rewinding_enumerates :
    Powered Calm (fun _ => .good) ∧ Holding [[97]] cutRecord (worldOf [[97]] cutRecord) ∧
      ∃ ok user' calls m', zipVisit ⟨⟨[[97]], 0, false⟩, 1, 0⟩ rewinding ()
          ⟨worldOf [[97]] cutRecord, fun _ => .good, 0⟩ = (some (ok, user'), m') ∧
        zipVisit ⟨⟨[[97]], 0, false⟩, 1, 0⟩ (logging rewinding) ((), [])
          ⟨worldOf [[97]] cutRecord, fun _ => .good, 0⟩ = (some (ok, user', calls), m') ∧
        Enumerated cutRecord 0 1 ok calls ∧
        (ok = true ↔ ∃ es next, CentralRecords cutRecord 0 es next ∧ es.length = 1 ∧
          calls = accepted es) :=
  ⟨fun _ => ⟨rfl, rfl⟩, holding_worldOf _ _,
    visit_enumerates browses_rewinding () _ (fun _ => ⟨rfl, rfl⟩) (holding_worldOf _ _)⟩

/-- One record ends where it ends. -/
theorem CentralRecords.one {apk : Bytes} {pos next : Nat} {es : List ZipEntry}
    (h : CentralRecords apk pos es next) (hlength : es.length = 1) : next = recordEnd apk pos := by
  cases h with
  | nil => cases hlength
  | cons hrecord hrest =>
      cases hrest with
      | nil => rfl
      | cons => cases hlength

/-- `zip_visit` returns 0 although the one record at `cd_offset` is not complete. -/
theorem visit_accepts_cut_record :
    ((zipVisit ⟨⟨[[97]], 0, false⟩, 1, 0⟩ rewinding ()).run (fun _ => .good)
      (worldOf [[97]] cutRecord)).1 = some (true, ()) ∧
    ¬ ∃ es next, CentralRecords cutRecord 0 es next ∧ es.length = 1 ∧ next ≤ cutRecord.length := by
  refine ⟨rfl, ?_⟩
  rintro ⟨es, next, hes, hlength, hthere⟩
  rw [hes.one hlength] at hthere
  revert hthere
  decide

end Asnx.Installer
