import Asnx.Installer.Zip

/-!
# Visiting an archive

`zip_visit` calls its visitor for the entries that `centralEntries` reads off the archive, in order,
as long as nothing goes wrong (`triple_zipVisit`).
-/

namespace Asnx.Installer

open Interrupted Files

/-! ## Assertions about the installer -/

/-- An assertion about the files and the notes. -/
abbrev Assertion := Contents → List Note → Prop

/-- The assertion holds of a view, whatever the variables are. -/
def At (P : Assertion) (v : View Memory) : Prop := P v.files v.rest.notes

section Rules

variable {α : Type} {P C : Assertion}

theorem triple_fails {format : String} {args : List Arg} :
    Triple (At P) (fails format args) (fun r v => r = false ∧ At P v) (At C) :=
  triple_bind (R := fun _ => At P) (triple_update fun _ hw => hw) fun _ =>
    triple_pure fun _ hv => ⟨rfl, hv⟩

/-- A note is added to the notes. -/
theorem triple_note {f : Contents → Note} {Q : Unit → View Memory → Prop}
    (h : ∀ v, At P v →
      Q () { v with rest := { v.rest with notes := v.rest.notes ++ [f v.files] } }) :
    Triple (At P) (note f) Q (At C) :=
  triple_update fun w hw => h w.view hw

end Rules

/-! ## Reading the directory -/

section Visit

variable {α : Type} {apk : Bytes} {path : Path} {P C F : Assertion}

/-- Reading all of what was asked for gives the slice. -/
theorem slice_of_prefix {content got : Bytes} {pos n : Nat}
    (h : got <+: (content.drop pos).take n) (hlength : got.length = n) :
    got = slice content pos n := by
  refine h.eq_of_length ?_
  have := h.length_le
  rw [List.length_take] at this ⊢
  omega

/-- `fread` from a file that holds `content`. -/
theorem triple_fread_slice {content : Bytes} {fp : InFile} {n : Nat}
    {Q : Bytes × InFile → View Memory → Prop} (hfile : ∀ files notes, P files notes →
      files fp.path = some content) (hcut : ∀ files notes, P files notes → C files notes)
    (h : ∀ v got err, At P v → (got.length = n → got = slice content fp.pos n) →
      Q (got, ⟨fp.path, fp.pos + got.length, err⟩) v) : Triple (At P) (fread fp n) Q (At C) := by
  refine triple_fread fun v got err hv hprefix _ => ⟨h v got err hv fun hlength => ?_, hcut _ _ hv⟩
  have hcontent : v.files fp.path = some content := hfile _ _ hv
  rw [hcontent] at hprefix
  exact slice_of_prefix hprefix hlength

/-- The record that has been read is the one in the archive. -/
theorem triple_readRecord {fp : InFile} (hpath : fp.path = path)
    (hfile : ∀ files notes, P files notes → files path = some apk)
    (hcut : ∀ files notes, P files notes → C files notes) :
    Triple (At P) (readRecord fp)
      (fun r v => (∀ e fp', r = some (e, fp') →
        fp'.path = path ∧ centralEntry apk fp.pos = some (e, fp'.pos)) ∧ At P v) (At C) := by
  subst hpath
  refine triple_bind (R := fun r v => (r.2.path = fp.path ∧ r.2.pos = fp.pos + r.1.length ∧
    (r.1.length = 46 → r.1 = slice apk fp.pos 46)) ∧ At P v) ?_ ?_
  · exact triple_fread_slice hfile hcut fun v got err hv hgot => ⟨⟨rfl, rfl, hgot⟩, hv⟩
  rintro ⟨h, fp₁⟩
  refine .assume ?_
  rintro ⟨hpath, hpos, hh⟩
  dsimp only at hpath hpos hh
  refine triple_ite (fun _ => triple_pure fun v hv => ⟨by simp, hv⟩) fun hok => ?_
  refine triple_ite (fun _ => ?_) fun h64 => ?_
  · exact triple_bind triple_fails fun _ => triple_pure fun v hv => ⟨by simp, hv.2⟩
  have hok : acceptable h = true := by simpa using hok
  -- an acceptable header is a whole one, so it is the one in the archive
  have hlength : h.length = 46 := by
    unfold acceptable at hok
    exact (of_decide_eq_true hok).1
  have hh := hh hlength
  refine triple_bind (R := fun r v => (r.2.path = fp.path ∧ r.2.pos = fp₁.pos + r.1.length ∧
    (r.1.length = rd16 h 28 → r.1 = slice apk fp₁.pos (rd16 h 28))) ∧ At P v) ?_ ?_
  · rw [← hpath] at hfile
    exact triple_fread_slice hfile hcut fun v got err hv hgot => ⟨⟨hpath, rfl, hgot⟩, hv⟩
  rintro ⟨name, fp₂⟩
  refine .assume ?_
  rintro ⟨hpath', hpos', hname⟩
  dsimp only at hpath' hpos' hname
  refine triple_ite (fun _ => triple_pure fun v hv => ⟨by simp, hv⟩) fun hnamed => ?_
  have hnamed := not_not.1 hnamed
  have hname := hname hnamed
  refine triple_bind (R := fun r v => (∀ fp', r = some fp' → fp'.path = fp.path ∧
    fp'.pos = fp₂.pos + (rd16 h 30 + rd16 h 32)) ∧ At P v) ?_ ?_
  · refine triple_fseek (fun v hv => ⟨⟨by simp, hv⟩, hcut _ _ hv⟩) fun v n hv hn => ?_
    refine ⟨⟨?_, hv⟩, hcut _ _ hv⟩
    rintro _ ⟨⟩
    exact ⟨hpath', (Option.some.inj hn).symm⟩
  -- a seek that fails ends the reading without a record
  rintro (_ | fp₃)
  · exact triple_pure fun v hv => ⟨by simp, hv.2⟩
  refine triple_pure fun v hv => ⟨?_, hv.2⟩
  rintro _ _ ⟨⟩
  obtain ⟨hpath'', hpos''⟩ := hv.1 fp₃ rfl
  refine ⟨hpath'', ?_⟩
  have hfirst : fp₁.pos = fp.pos + 46 := by omega
  rw [hfirst] at hname hpos'
  -- header and name are the archive's, and the position is behind the extra field and the comment
  unfold centralEntry
  dsimp only
  rw [← hh, ← hname, if_pos ⟨hok, h64, hnamed⟩, hpos'', hpos', hnamed]

/-- Where all records can be read, all entries are readable. -/
theorem readableEntries_of_centralEntries {pos n : Nat} {es : List ZipEntry}
    (h : centralEntries apk pos n = some es) : readableEntries apk pos n = es := by
  induction n generalizing pos es with
  | zero => exact Option.some.inj h
  | succ n ih =>
      cases hentry : centralEntry apk pos with
      | none => simp [centralEntries, hentry] at h
      | some r =>
          obtain ⟨e, next⟩ := r
          cases hrest : centralEntries apk next n with
          | none => simp [centralEntries, hentry, hrest] at h
          | some rest =>
              simp only [centralEntries, hentry, hrest, Option.some.injEq] at h
              simp only [readableEntries, hentry, ih hrest, h]

/-- The rule for the loop of `zip_visit`: `I es` says what holds after the visits of the entries
`es`, and `F` what holds when the loop fails. The entries visited are the first ones of `all`. -/
theorem triple_visitRecords {visitor : ZipVisitor α} {I : List ZipEntry → α → Assertion}
    {all : List ZipEntry}
    (hfile : ∀ es user files notes, I es user files notes → files path = some apk)
    (hfail : ∀ es user files notes, I es user files notes → F files notes)
    (hcut : ∀ files notes, F files notes → C files notes)
    (hvisit : ∀ es user e fp, es ++ [e] <+: all → fp.path = path →
      Triple (At (I es user)) (visitor fp e user)
      (fun r v => r.2.1.path = path ∧ if r.1 then At (I (es ++ [e]) r.2.2) v else At F v) (At C))
    (n : Nat) (fp : InFile) (user : α) (es : List ZipEntry)
    (hall : es ++ readableEntries apk fp.pos n = all) (hpath : fp.path = path) :
    Triple (At (I es user)) (visitRecords visitor n fp user)
      (fun r v => if r.1 then
        ∃ rest, centralEntries apk fp.pos n = some rest ∧ At (I (es ++ rest) r.2) v
      else At F v) (At C) := by
  -- whatever fails, what holds between two visits is enough
  have hfailing : ∀ es user v, At (I es user) v → At F v ∧ At C v := fun es user v hv =>
    ⟨hfail _ _ _ _ hv, hcut _ _ (hfail _ _ _ _ hv)⟩
  induction n generalizing fp user es with
  | zero =>
      refine triple_pure fun v hv => ?_
      rw [if_pos rfl]
      exact ⟨[], rfl, by rwa [List.append_nil]⟩
  | succ n ih =>
      refine triple_bind (triple_readRecord hpath (hfile es user)
        fun _ _ hI => hcut _ _ (hfail _ _ _ _ hI)) ?_
      rintro (_ | ⟨e, fp₁⟩)
      · exact triple_pure fun v hv => (hfailing _ _ _ hv.2).1
      refine .assume fun hrecord => ?_
      obtain ⟨hpath₁, hentry⟩ := hrecord e fp₁ rfl
      -- the entry that has been read is the next one of `all`
      have hrest : es ++ [e] ++ readableEntries apk fp₁.pos n = all := by
        rw [readableEntries, hentry] at hall
        rw [← hall, List.append_assoc, List.singleton_append]
      refine triple_bind (R := fun next v => (∀ pos, next = some pos → pos = fp₁.pos) ∧
        At (I es user) v) ?_ ?_
      · exact triple_ftell fun v pos hv hpos => ⟨⟨hpos, hv⟩, (hfailing _ _ _ hv).2⟩
      intro next
      refine .assume fun hnext => ?_
      refine triple_bind (hvisit es user e fp₁ ⟨_, hrest⟩ hpath₁) ?_
      rintro ⟨ok, fp₂, user₂⟩
      refine .assume fun hpath₂ => ?_
      cases ok with
      -- a visitor that refuses the entry ends the loop
      | false => exact triple_pure fun v hv => hv
      | true =>
          refine triple_bind (R := fun r v => (∀ fp', r = some fp' →
            fp'.path = path ∧ fp'.pos = fp₁.pos) ∧ At (I (es ++ [e]) user₂) v) ?_ ?_
          · refine triple_fseek (fun v hv => ⟨⟨by simp, hv⟩, (hfailing _ _ _ hv).2⟩)
              fun v pos hv hpos => ⟨⟨?_, hv⟩, (hfailing _ _ _ hv).2⟩
            rintro _ ⟨⟩
            exact ⟨hpath₂, hnext pos hpos⟩
          rintro (_ | fp₃)
          · exact triple_pure fun v hv => (hfailing _ _ _ hv.2).1
          refine .assume fun hseek => ?_
          obtain ⟨hpath₃, hpos₃⟩ := hseek fp₃ rfl
          -- the seek takes the file back to behind the record, wherever the visitor has left it
          refine (ih fp₃ user₂ (es ++ [e]) (hpos₃ ▸ hrest) hpath₃).post ?_
          rintro ⟨ok, user₃⟩ v hv
          cases ok with
          | false => exact hv
          | true =>
              obtain ⟨rest, hrest, hI⟩ := hv
              refine ⟨e :: rest, ?_, ?_⟩
              · rw [hpos₃] at hrest
                simp only [centralEntries, hentry, hrest]
              · rwa [List.append_assoc] at hI

/-- The rule for `zip_visit`. -/
theorem triple_zipVisit {visitor : ZipVisitor α} {I : List ZipEntry → α → Assertion}
    (hfile : ∀ es user files notes, I es user files notes → files path = some apk)
    (hfail : ∀ es user files notes, I es user files notes → F files notes)
    (hcut : ∀ files notes, F files notes → C files notes)
    {z : ZipArchive} {user : α}
    (hvisit : ∀ es user e fp, es ++ [e] <+: readableEntries apk z.cdOffset z.entries →
      fp.path = path →
      Triple (At (I es user)) (visitor fp e user)
      (fun r v => r.2.1.path = path ∧ if r.1 then At (I (es ++ [e]) r.2.2) v else At F v) (At C))
    (hpath : z.fp.path = path) :
    Triple (At (I [] user)) (zipVisit z visitor user)
      (fun r v => if r.1 then
        ∃ es, centralEntries apk z.cdOffset z.entries = some es ∧ At (I es r.2) v
      else At F v) (At C) := by
  refine triple_bind (R := fun r v => (∀ fp', r = some fp' →
    fp'.path = path ∧ fp'.pos = z.cdOffset) ∧ At (I [] user) v) ?_ ?_
  · refine triple_fseek
      (fun v hv => ⟨⟨by simp, hv⟩, hcut _ _ (hfail _ _ _ _ hv)⟩)
      fun v pos hv hpos => ⟨⟨?_, hv⟩, hcut _ _ (hfail _ _ _ _ hv)⟩
    rintro _ ⟨⟩
    exact ⟨hpath, (Option.some.inj hpos).symm⟩
  rintro (_ | fp)
  · exact triple_pure fun v hv => hfail _ _ _ _ hv.2
  refine .assume fun hseek => ?_
  obtain ⟨hpath', hpos⟩ := hseek fp rfl
  rw [← hpos] at hvisit
  refine (triple_visitRecords hfile hfail hcut hvisit z.entries fp user [] (List.nil_append _)
    hpath').post ?_
  rintro ⟨ok, user'⟩ v hv
  rwa [hpos] at hv

end Visit

end Asnx.Installer
