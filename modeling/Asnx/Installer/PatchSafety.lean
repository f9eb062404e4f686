import Asnx.Installer.Preparing
import Asnx.Installer.SplicedBundle

/-!
# Power losses during the patch of the credits

Until the renames `credits_patch_apply` leaves the bundle alone, and what it has built then is the
new bundle (`triple_buildBundle`). Between the two renames there is no bundle: if the power is lost
there, or if the second rename and its rollback fail, nothing brings one of the two back
(`patch_safe_iff`).
-/

namespace Asnx.Installer.Credits

open Interrupted Files

section Building

variable {γ : Type} {α β : Type} {old new : Bytes} {before : Option Bytes} {data : CreditsData}

/-- The bundle is as it was. -/
def Kept (before : Option Bytes) (v : View γ) : Prop := v.files (resolve bundlePath) = before

/-- The bundle is as it was, and the file at `tmp` holds `new`. -/
def Built (old new : Bytes) (v : View γ) : Prop :=
  Kept (some old) v ∧ v.files (resolve bundleTmp) = some new

theorem Kept.set {v : View γ} (h : Kept before v) {q : Path} (hq : resolve bundlePath ≠ q)
    (content : Option Bytes) : Kept before (v.set q content) :=
  (Function.update_of_ne hq ..).trans h

theorem Built.set {v : View γ} (h : Built old new v) (content : Bytes) :
    Built old content (v.set (resolve bundleTmp) (some content)) :=
  ⟨h.1.set bundle_apart.1.symm _, by rw [set_files, Function.update_self]⟩

/-- What comes after a test. -/
theorem triple_unless {P R F C : View γ → Prop} {Q : α → View γ → Prop} {q : Prog (World γ) Bool}
    {p p' : Prog (World γ) α} (hq : Triple P q (fun r v => if r then R v else F v) C)
    (hfail : Triple F p Q C) (hok : Triple R p' Q C) :
    Triple P (do if !(← q) then p else p') Q C := by
  refine triple_bind hq fun r => ?_
  cases r with
  | false => exact hfail
  | true => exact hok

theorem triple_remove_kept {name : Bytes} (hname : resolve bundlePath ≠ resolve name) :
    Triple (Kept (γ := γ) before) (remove name) (fun _ => Kept before) (Kept before) :=
  triple_remove (fun _ _ hv => ⟨hv, hv⟩) fun _ _ hv _ => ⟨hv.set hname _, hv.set hname _⟩

theorem triple_fwrite_tmp (more : Bytes) :
    Triple (Built (γ := γ) old new) (fwrite ⟨resolve bundleTmp⟩ more)
      (fun r v => if r then Built old (new ++ more) v else Kept (some old) v)
        (Kept (some old)) := by
  refine triple_fwrite (fun v hv => ⟨hv.1, hv.1⟩) (fun v content n hv hold => ?_)
    fun v content hv hold => ?_
  · exact ⟨(hv.set _).1, (hv.set _).1⟩
  · rw [hv.2] at hold
    rw [← Option.some.inj hold]
    exact ⟨hv.set _, (hv.set _).1⟩

theorem triple_flush_tmp :
    Triple (Built (γ := γ) old new) (flush ⟨resolve bundleTmp⟩)
      (fun r v => if r then Built old new v else Kept (some old) v) (Kept (some old)) := by
  refine triple_flush (fun v content n hv _ => ⟨(hv.set _).1, (hv.set _).1⟩) fun v r hv =>
    ⟨?_, hv.1⟩
  cases r with
  | false => exact hv.1
  | true => exact hv

/-! ## The new bundle -/

/-- A stream that reads the bundle from `pos` on. -/
def Reads (pos : Nat) (src : InFile) : Prop := src.path = resolve bundlePath ∧ src.pos = pos

/-- The loop copies what it is told to, unless it fails. -/
theorem triple_copyExactLoop (n pos : Nat) {src : InFile} (hsrc : Reads pos src) :
    Triple (Built (γ := γ) old new) (copyExactLoop ⟨resolve bundleTmp⟩ n src)
      (fun r v => if r.1 then r.2.path = resolve bundlePath ∧ Built old (new ++ slice old pos n) v
        else Kept (some old) v) (Kept (some old)) := by
  induction n using Nat.strong_induction_on generalizing pos new src with
  | _ n ih =>
      unfold copyExactLoop
      refine triple_ite (fun hn => ?_) fun hn => ?_
      · subst hn
        refine triple_pure fun v hv => ?_
        show _ ∧ Built old (new ++ slice old pos 0) v
        rw [show slice old pos 0 = [] from List.take_zero .., List.append_nil]
        exact ⟨hsrc.1, hv⟩
      -- one round copies `k` bytes
      dsimp only
      generalize hk : (if n > 256 * 1024 then 256 * 1024 else n) = k
      have hk : 0 < k ∧ k ≤ n := by
        split at hk <;> omega
      refine triple_bind (R := fun r v => (r.2.path = src.path ∧ r.2.pos = src.pos + r.1.length ∧
        (r.1.length = k → r.1 = slice old pos k)) ∧ Built old new v) ?_ fun r =>
          .assume fun hr => ?_
      · refine triple_fread fun v got err hv hprefix _ =>
          ⟨⟨⟨rfl, rfl, fun hlength => ?_⟩, hv⟩, hv.1⟩
        have hcontent : v.files src.path = some old := by
          rw [hsrc.1]
          exact hv.1
        rw [hcontent, hsrc.2] at hprefix
        exact slice_of_prefix hprefix hlength
      obtain ⟨buf, src'⟩ := r
      obtain ⟨hpath, hpos, hslice⟩ := hr
      dsimp only at hpath hpos hslice ⊢
      refine triple_ite (fun _ => triple_pure fun v hv => hv.1) fun hlength => ?_
      have hlength := not_not.1 hlength
      obtain rfl := hslice hlength
      refine triple_unless (triple_fwrite_tmp _) (triple_pure fun v hv => hv) ?_
      have hsrc' : Reads (pos + k) src' := ⟨hpath.trans hsrc.1, by rw [hpos, hsrc.2, hlength]⟩
      have hrest := @ih (n - k) (by omega) (new ++ slice old pos k) (pos + k) _ hsrc'
      rw [List.append_assoc, slice_add, Nat.add_sub_cancel' hk.2] at hrest
      exact hrest

theorem triple_copyFrom {src : InFile} (hsrc : src.path = resolve bundlePath) (pos n : Nat) :
    Triple (Built (γ := γ) old new) (copyFrom src pos ⟨resolve bundleTmp⟩ n)
      (fun r v => if r.1 then r.2.path = resolve bundlePath ∧ Built old (new ++ slice old pos n) v
        else Kept (some old) v) (Kept (some old)) := by
  refine triple_bind (R := fun r v => (∀ src', r = some src' → Reads pos src') ∧ Built old new v) ?_
    fun r => .assume fun hr => ?_
  · refine triple_fseek (fun v hv => ⟨⟨nofun, hv⟩, hv.1⟩) fun v k hv hk => ⟨⟨?_, hv⟩, hv.1⟩
    intro src' hsome
    rw [← Option.some.inj hsome]
    exact ⟨hsrc, (Option.some.inj hk).symm⟩
  cases r with
  | none => exact triple_pure fun v hv => hv.1
  | some src' =>
      refine triple_unless (R := Built old new) (F := Kept (some old))
        (triple_chance fun v r hv => ?_)
        (triple_pure fun v hv => hv) (triple_copyExactLoop n pos (hr src' rfl))
      cases r with
      | false => exact ⟨hv.1, hv.1⟩
      | true => exact ⟨hv, hv.1⟩

/-- The loop writes zeros up to the data, unless it fails. -/
theorem triple_padLoop (here : Nat) :
    Triple (Built (γ := γ) old new) (padLoop ⟨resolve bundleTmp⟩ here)
      (fun r v => if r then Built old (new ++ List.replicate (creditsNewDataPos - here) 0) v
        else Kept (some old) v) (Kept (some old)) := by
  induction hleft : creditsNewDataPos - here using Nat.strong_induction_on generalizing
    here new with
  | _ left ih =>
      unfold padLoop
      refine triple_ite (fun hlt => ?_) fun hge => ?_
      · dsimp only
        generalize hn : (if creditsNewDataPos - here > 16 then 16 else creditsNewDataPos - here) = n
        have hn : 0 < n ∧ n ≤ left := by
          split at hn <;> omega
        refine triple_unless (triple_fwrite_tmp _) (triple_pure fun v hv => hv) ?_
        have hrest := @ih (left - n) (by omega) (new ++ List.replicate n 0) (here + n) (by omega)
        rw [List.append_assoc, List.replicate_append_replicate, Nat.add_sub_cancel' hn.2] at hrest
        exact hrest
      · refine triple_pure fun v hv => ?_
        have hnone : left = 0 := by omega
        rw [hnone, List.replicate_zero, List.append_nil]
        exact hv

theorem triple_padToData :
    Triple (Built (γ := γ) old new) (padToData ⟨resolve bundleTmp⟩)
      (fun r v => if r then Built old (new ++ List.replicate (creditsNewDataPos - new.length) 0) v
        else Kept (some old) v) (Kept (some old)) := by
  refine triple_bind (R := fun r v => (∀ here, r = some here → here = new.length) ∧
    Built old new v) ?_
    fun r => .assume fun hr => ?_
  · refine triple_quiet fun d w hw => ⟨rfl, ⟨fun here hhere => ?_, hw⟩, hw.1⟩
    rw [show w.fs.file (resolve bundleTmp) = some new from hw.2] at hhere
    split at hhere
    · cases hhere
    · exact (Option.some.inj hhere).symm
  cases r with
  | none => exact triple_pure fun v hv => hv.1
  | some here =>
      rw [← hr here rfl]
      exact triple_padLoop here

/-- What is written is the new bundle, unless something fails. -/
theorem triple_writeBundle (h : AcceptedBundle old) {src : InFile}
    (hsrc : src.path = resolve bundlePath) :
    Triple (Built (γ := γ) old []) (writeBundle data (splicedHeader old) src ⟨resolve bundleTmp⟩)
      (fun r v => if r then Built old (spliced data old) v else Kept (some old) v)
      (Kept (some old)) := by
  have hheader : (splicedHeader old ++ data.gCreditsBlockinfo).length = 64 + creditsNewCbiSize := by
    rw [List.length_append, length_splicedHeader h.length_ge, data.blockinfo_size]
  have hbefore : slice old creditsOldDataPos (creditsOldBlockPos - creditsOldDataPos) =
      (old.take creditsOldBlockPos).drop creditsOldDataPos := List.drop_take.symm
  have hafter : slice old creditsOldAfterBlock (creditsOldTotal - creditsOldAfterBlock) =
      old.drop creditsOldAfterBlock :=
    List.take_of_length_le (by rw [List.length_drop, h.1])
  have hfail : ∀ {C : View γ → Prop}, Triple (Kept (some old)) (pure false : Prog (World γ) Bool)
      (fun r v => if r then Built old (spliced data old) v else Kept (some old) v) C :=
    triple_pure fun v hv => hv
  unfold writeBundle
  refine triple_unless (triple_fwrite_tmp _) hfail ?_
  refine triple_unless (triple_fwrite_tmp _) hfail ?_
  refine triple_unless triple_padToData hfail ?_
  rw [List.nil_append, hheader]
  refine triple_bind (triple_copyFrom hsrc _ _) fun r => ?_
  obtain ⟨ok, src'⟩ := r
  cases ok with
  | false => exact hfail
  | true =>
      refine Triple.assume fun hsrc' => ?_
      refine triple_unless (triple_fwrite_tmp _) hfail ?_
      refine triple_bind (triple_copyFrom hsrc' _ _) fun r => ?_
      obtain ⟨ok, src''⟩ := r
      cases ok with
      | false => exact hfail
      | true =>
          refine Triple.assume fun _ => triple_unless triple_flush_tmp hfail ?_
          rw [hbefore, hafter]
          exact triple_flush_tmp

/-- What has been built when the renames begin. -/
def Finished (data : CreditsData) (before : Option Bytes) (v : View γ) : Prop :=
  ∃ old, before = some old ∧ AcceptedBundle old ∧ Built old (spliced data old) v

theorem triple_patchBundle (h : AcceptedBundle old) {src : InFile}
    (hsrc : src.path = resolve bundlePath) :
    Triple (Kept (γ := γ) (some old)) (patchBundle data (old.take 64) src)
      (fun r v => if r then Finished data (some old) v else Kept (some old) v)
        (Kept (some old)) := by
  have hfail : ∀ {C : View γ → Prop}, Triple (Kept (some old)) (pure false : Prog (World γ) Bool)
      (fun r v => if r then Finished data (some old) v else Kept (some old) v) C :=
    triple_pure fun v hv => hv
  -- every failure removes the new file and leaves the bundle
  have hdiscard : Triple (Kept (γ := γ) (some old))
      (do let _ ← remove bundleTmp; pure false : Prog (World γ) Bool)
      (fun r v => if r then Finished data (some old) v else Kept (some old) v) (Kept (some old)) :=
    triple_bind (triple_remove_kept bundle_apart.1.symm) fun _ => hfail
  unfold patchBundle
  dsimp only
  rw [newHeader_take h.length_ge]
  refine triple_bind (triple_remove_kept bundle_apart.1.symm) fun _ => ?_
  refine triple_bind (triple_remove_kept bundle_apart.2.1.symm) fun _ => ?_
  refine triple_bind (R := fun r v =>
    (∀ dst, r = .ok dst → dst = ⟨resolve bundleTmp⟩ ∧ Built old [] v) ∧
    Kept (some old) v) (triple_fopenWrite (fun v e hv => ⟨⟨nofun, hv⟩, hv⟩) fun v hv => ?_)
      fun r => ?_
  · have hset := hv.set bundle_apart.1.symm (some [])
    refine ⟨⟨fun dst hdst => ⟨(Except.ok.inj hdst).symm, hset, ?_⟩, hset⟩, hset⟩
    rw [set_files, Function.update_self]
  cases r with
  | error =>
      refine (triple_bind (triple_fcloseRead fun v hv => ⟨hv, hv⟩) fun _ => hfail).pre
        fun v hv => ?_
      exact hv.2
  | ok dst =>
      refine Triple.pre ?_ fun v hv => hv.1 dst rfl
      refine Triple.assume fun hdst => ?_
      subst hdst
      refine triple_bind (triple_writeBundle h hsrc) fun ok => ?_
      refine triple_bind (R := fun closed v => if ok && closed then Built old (spliced data old) v
        else Kept (some old) v) ?_ fun closed => ?_
      · cases ok with
        | true => exact triple_flush_tmp
        | false =>
            refine triple_flush (fun v content n hv _ => ?_) fun v r hv => ⟨hv, hv⟩
            -- a flush that is cut touches only the new file
            have hset := hv.set bundle_apart.1.symm (some (content.take n))
            exact ⟨hset, hset⟩
      refine triple_bind (R := fun _ v => if ok && closed then Built old (spliced data old) v
        else Kept (some old) v) (triple_fcloseRead fun v hv => ⟨hv, ?_⟩) fun _ => ?_
      · split at hv
        · exact hv.1
        · exact hv
      cases hdone : ok && closed with
      | false => exact hdiscard
      | true =>
          refine triple_bind (R := fun _ => Built old (spliced data old))
            (triple_operation (fun v e hv => ⟨hv, hv.1⟩) fun w hw => ⟨hw, hw.1⟩) fun r => ?_
          cases r with
          | error => exact hdiscard.pre fun v hv => hv.1
          -- the size of what has been built is checked before it counts as finished
          | ok st =>
              refine triple_ite (fun _ => hdiscard.pre fun v hv => hv.1) fun _ => ?_
              exact triple_pure fun v hv => ⟨old, rfl, h, hv⟩

/-- The bundle is left alone until the renames, and what has been built then is the new bundle. -/
theorem triple_buildBundle :
    Triple (Kept (γ := γ) before) (buildBundle data)
      (fun r v => if r then Finished data before v else Kept before v) (Kept before) := by
  have hfail : ∀ {C : View γ → Prop}, Triple (Kept before) (pure false : Prog (World γ) Bool)
      (fun r v => if r then Finished data before v else Kept before v) C :=
    triple_pure fun v hv => hv
  unfold buildBundle
  refine triple_bind (R := fun r v => (∀ st, r = .ok st → ∀ old, before = some old →
    st.size = old.length) ∧ Kept before v) ?_ fun r => .assume fun hstat => ?_
  · refine triple_operation (fun v e hv => ⟨⟨nofun, hv⟩, hv⟩) fun w hw => ⟨⟨?_, hw⟩, hw⟩
    rintro st hst old rfl
    -- the size that is told is that of the bundle
    have hold : w.fs.file (resolve bundlePath) = some old := hw
    unfold Fs.file at hold
    split at hold
    · rename_i content hlookup
      rw [hlookup] at hst
      rw [← Except.ok.inj hst, Option.some.inj hold]
    · cases hold
  cases r with
  | error => exact hfail
  | ok st =>
      refine triple_ite (fun _ => hfail) fun _ => triple_ite (fun _ => hfail) fun hsize => ?_
      refine triple_bind (R := fun r v =>
        (∀ src, r = .ok src → src = ⟨resolve bundlePath, 0, false⟩ ∧
        ∃ old, before = some old) ∧ Kept before v) ?_ fun r => .assume fun hopened => ?_
      · refine triple_fopenRead (fun v e hv => ⟨⟨nofun, hv⟩, hv⟩) fun v content hv hcontent =>
          ⟨⟨fun src hsrc => ⟨(Except.ok.inj hsrc).symm, content, ?_⟩, hv⟩, hv⟩
        rw [← hcontent]
        exact hv.symm
      cases r with
      | error => exact hfail
      | ok src =>
          obtain ⟨rfl, old, rfl⟩ := hopened src rfl
          have hlength : old.length = creditsOldTotal :=
            (hstat st rfl old rfl).symm.trans (not_not.1 hsize)
          refine triple_bind (R := fun r v => (r.2.path = resolve bundlePath ∧
            (r.1.length = 64 → r.1 = old.take 64)) ∧ Kept (some old) v) ?_
            fun r => .assume fun hread => ?_
          · refine triple_fread fun v got err hv hprefix _ => ⟨⟨⟨rfl, fun hgot => ?_⟩, hv⟩, hv⟩
            rw [show v.files (resolve bundlePath) = some old from hv] at hprefix
            exact slice_of_prefix hprefix hgot
          obtain ⟨header, src⟩ := r
          obtain ⟨hpath, hheader⟩ := hread
          dsimp only at hpath hheader ⊢
          refine triple_ite (fun _ => triple_bind (triple_fcloseRead fun v hv => ⟨hv, hv⟩)
            fun _ => hfail) fun hrefused => ?_
          have hrefused : headerRefused header = false := by simpa using hrefused
          -- a header that is not refused has been read whole, so it is the bundle's own
          have hwhole : header.length = 64 := by
            by_contra hshort
            unfold headerRefused at hrefused
            exact of_decide_eq_false hrefused (.inl hshort)
          obtain rfl := hheader hwhole
          exact triple_patchBundle ⟨hlength, hrefused⟩ hpath

end Building

/-! ## The renames -/

section Renames

variable {γ : Type} {α β : Type} {old new : Bytes} {m : Machine (World γ)}

/-- After a step that may be the last one. -/
theorem bind_of_step {q : Prog (World γ) β} {f : β → Prog (World γ) α} {b : β}
    {m₁ : Machine (World γ)} {cut : Bool} (h : q m = (if cut then none else some b, m₁)) :
    (q >>= f) m = if cut then (none, m₁) else f b m₁ := by
  cases cut with
  | true => exact bind_of_none h
  | false => exact bind_of_some h

variable {src dst content : Bytes}

theorem rename_eq_ok (hsrc : m.world.fs.file (resolve src) = some content)
    (hdst : m.world.fs.isDir (resolve dst) = false)
    (hdir : m.world.fs.isDir (resolve dst).dropLast = true)
    (hd : (m.decisions m.now).fails = false) :
    rename src dst m = (if (m.decisions m.now).powerLoss then none else some (.ok ()),
      ⟨⟨(m.world.fs.delete (resolve src)).put (resolve dst) content,
        m.world.renames ++ [(resolve src, resolve dst)], m.world.rest⟩, m.decisions,
          m.now + 1⟩) := by
  unfold rename operation step
  simp only [hd, hsrc, hdst, hdir, Bool.false_eq_true, if_false, if_true]

theorem rename_eq_error (dst : Bytes) (hsrc : m.world.fs.file (resolve src) = some content)
    (h : (m.decisions m.now).fails = true ∨ m.world.fs.isDir (resolve dst) = true ∨
      m.world.fs.isDir (resolve dst).dropLast = false) :
    ∃ e, rename src dst m = (if (m.decisions m.now).powerLoss then none else some (.error e),
      ⟨m.world, m.decisions, m.now + 1⟩) := by
  unfold rename operation step
  cases hd : (m.decisions m.now).fails with
  | true => exact ⟨.eio, by simp only [hd, if_true]⟩
  | false =>
      rw [hd] at h
      cases hdst : m.world.fs.isDir (resolve dst) with
      | true =>
          exact ⟨.eisdir, by simp only [hd, hsrc, hdst, Bool.false_eq_true, if_true, if_false]⟩
      | false =>
          rw [hdst] at h
          have hdir : m.world.fs.isDir (resolve dst).dropLast = false := by simpa using h
          exact ⟨.enoent, by simp only [hd, hsrc, hdst, hdir, Bool.false_eq_true, if_false]⟩

/-- The second rename, whose decision is the `i`-th, leaves no bundle: it fails and so does the
rollback, unless the power is lost before it. -/
def TornLater (decisions : Nat → Decision) (i : Nat) : Prop :=
  (decisions i).fails = true ∧ ((decisions i).powerLoss = true ∨ (decisions (i + 1)).fails = true)

/-- The renames, which are next, leave no bundle: the first one succeeds, and then the power is
lost or the second one leaves no bundle. -/
def Torn (m : Machine (World γ)) : Prop :=
  ((m.decisions m.now).fails = false ∧ m.world.fs.isDir (resolve bundleBak) = false ∧
    m.world.fs.isDir bundleDir = true) ∧
    ((m.decisions m.now).powerLoss = true ∨ TornLater m.decisions (m.now + 1))

/-- The bundle has been moved to `bak`. -/
structure Between (old new : Bytes) (w : World γ) : Prop where
  gone : w.fs.file (resolve bundlePath) = none
  new : w.fs.file (resolve bundleTmp) = some new
  old : w.fs.file (resolve bundleBak) = some old
  free : w.fs.isDir (resolve bundlePath) = false
  dir : w.fs.isDir (resolve bundlePath).dropLast = true

/-- Removing a sibling changes nothing else. -/
theorem removeSibling_file {before : Option Bytes} {name : Bytes}
    (hname : resolve bundlePath ≠ resolve name)
    (h : Kept before m.world.view) :
    Kept before ((do let _ ← remove name; pure 0 : Prog (World γ) Int) m).2.world.view := by
  have hkeep : Triple (Kept (γ := γ) before) (do let _ ← remove name; pure 0 : Prog (World γ) Int)
      (fun _ => Kept before) (Kept before) :=
    triple_bind (triple_remove_kept hname) fun _ => triple_pure fun _ hv => hv
  exact spec_always.1 hkeep m h

/-- The rollback brings the old bundle back, unless it fails. -/
theorem rollback_file (h : Between old new m.world) :
    Kept (if (m.decisions m.now).fails then none else some old)
      ((do let _ ← rename bundleBak bundlePath; let _ ← remove bundleTmp; pure 0 :
        Prog (World γ) Int)
        m).2.world.view := by
  cases hd : (m.decisions m.now).fails with
  | true =>
      obtain ⟨e, hrename⟩ := rename_eq_error bundlePath h.old (.inl hd)
      rw [bind_of_step hrename, if_pos rfl]
      split
      · exact h.gone
      · exact removeSibling_file bundle_apart.1.symm (m := ⟨m.world, m.decisions, m.now + 1⟩) h.gone
  | false =>
      rw [bind_of_step (rename_eq_ok h.old h.free h.dir hd), if_neg Bool.false_ne_true]
      have hthere : Fs.file ((m.world.fs.delete (resolve bundleBak)).put (resolve bundlePath) old)
          (resolve bundlePath) = some old := by
        rw [file_put, Function.update_self]
      split
      · exact hthere
      · exact removeSibling_file bundle_apart.1.symm hthere

/-- The second rename and its rollback leave no bundle exactly when they are torn. -/
theorem finishSwap_file (h : Between old new m.world) :
    (TornLater m.decisions m.now → Kept none (finishSwap m).2.world.view) ∧
      (¬ TornLater m.decisions m.now → Kept (some old) (finishSwap m).2.world.view ∨
        Kept (some new) (finishSwap m).2.world.view) := by
  unfold finishSwap TornLater
  cases hd : (m.decisions m.now).fails with
  | false =>
      rw [bind_of_step (rename_eq_ok h.new h.free h.dir hd)]
      refine ⟨fun htorn => absurd htorn.1 Bool.false_ne_true, fun _ => .inr ?_⟩
      have hthere : Fs.file ((m.world.fs.delete (resolve bundleTmp)).put (resolve bundlePath) new)
          (resolve bundlePath) = some new := by
        rw [file_put, Function.update_self]
      split
      · exact hthere
      · exact removeSibling_file bundle_apart.2.1.symm hthere
  | true =>
      obtain ⟨e, hrename⟩ := rename_eq_error bundlePath h.new (.inl hd)
      rw [bind_of_step hrename]
      cases hcut : (m.decisions m.now).powerLoss with
      | true => exact ⟨fun _ => h.gone, fun hnot => absurd ⟨rfl, .inl rfl⟩ hnot⟩
      | false =>
          have hrollback := rollback_file (m := ⟨m.world, m.decisions, m.now + 1⟩) h
          rw [if_neg Bool.false_ne_true]
          dsimp only at hrollback ⊢
          cases hd' : (m.decisions (m.now + 1)).fails with
          | true =>
              rw [hd', if_pos rfl] at hrollback
              exact ⟨fun _ => hrollback, fun hnot => absurd ⟨rfl, .inr rfl⟩ hnot⟩
          | false =>
              rw [hd', if_neg Bool.false_ne_true] at hrollback
              refine ⟨fun htorn => ?_, fun _ => .inl hrollback⟩
              rcases htorn.2 with hlost | hfails
              · cases hlost
              · cases hfails

/-- The first rename moves the bundle. -/
theorem Built.moved {w : World γ} (h : Built old new w.view) (hdir : w.fs.isDir bundleDir = true) :
    Between old new ⟨(w.fs.delete (resolve bundlePath)).put (resolve bundleBak) old,
      w.renames ++ [(resolve bundlePath, resolve bundleBak)], w.rest⟩ := by
  have hold : w.fs.file (resolve bundlePath) = some old := h.1
  refine ⟨?_, ?_, ?_, isDir_put_false (isDir_delete_false (isDir_of_file hold bundlePath_ne_root) _)
    _ _,
    ?_⟩
  · rw [file_put, file_delete, Function.update_of_ne bundle_apart.2.1.symm, Function.update_self]
  · rw [file_put, file_delete, Function.update_of_ne bundle_apart.2.2.symm,
      Function.update_of_ne bundle_apart.1]
    exact h.2
  · rw [file_put, Function.update_self]
  · show Fs.isDir (Fs.put _ _ _) bundleDir = true
    rw [isDir_put bundleDir_apart.2.2, isDir_delete bundleDir_apart.1]
    exact hdir

/-- The renames leave no bundle exactly when they are torn. -/
theorem swapBundles_file (h : Built old new m.world.view) :
    (Torn m → Kept none (swapBundles m).2.world.view) ∧
      (¬ Torn m → Kept (some old) (swapBundles m).2.world.view ∨
        Kept (some new) (swapBundles m).2.world.view) := by
  have hold : m.world.fs.file (resolve bundlePath) = some old := h.1
  unfold swapBundles
  by_cases hfirst : (m.decisions m.now).fails = false ∧
    m.world.fs.isDir (resolve bundleBak) = false ∧
      m.world.fs.isDir bundleDir = true
  · have hbetween := h.moved hfirst.2.2
    have hdir : m.world.fs.isDir (resolve bundleBak).dropLast = true := by
      rw [bundle_siblings.2]
      exact hfirst.2.2
    rw [bind_of_step (rename_eq_ok hold hfirst.2.1 hdir hfirst.1)]
    cases hcut : (m.decisions m.now).powerLoss with
    | true => exact ⟨fun _ => hbetween.gone, fun hnot => absurd ⟨hfirst, .inl hcut⟩ hnot⟩
    | false =>
        rw [if_neg Bool.false_ne_true]
        obtain ⟨htorn, hwhole⟩ := finishSwap_file (m := ⟨_, m.decisions, m.now + 1⟩) hbetween
        refine ⟨fun h => htorn (h.2.resolve_left ?_), fun h => hwhole fun hlater =>
          h ⟨hfirst, .inr hlater⟩⟩
        rw [hcut]
        exact Bool.false_ne_true
  · have herror : (m.decisions m.now).fails = true ∨ m.world.fs.isDir (resolve bundleBak) = true ∨
        m.world.fs.isDir (resolve bundleBak).dropLast = false := by
      rw [bundle_siblings.2]
      by_contra hnone
      simp only [not_or, Bool.not_eq_true, Bool.not_eq_false] at hnone
      exact hfirst hnone
    obtain ⟨e, hrename⟩ := rename_eq_error bundleBak hold herror
    rw [bind_of_step hrename]
    refine ⟨fun htorn => absurd htorn.1 hfirst, fun _ => .inl ?_⟩
    split
    · exact hold
    · exact removeSibling_file bundle_apart.1.symm hold

end Renames

/-! ## A later run -/

section Later

variable {P : View Memory → Prop}

/-- There is neither a bundle nor a `game.apk`. -/
def Bare (v : View Memory) : Prop :=
  v.files (resolve bundlePath) = none ∧ v.files (resolve installApk) = none

theorem triple_fails_any {format : String} {args : List Arg}
    (hP : ∀ v m, P v → P { v with rest := m }) :
    Triple P (fails format args) (fun r v => r = false ∧ P v) P :=
  triple_bind (R := fun _ => P) (triple_update fun _ hw => hP _ _ hw) fun _ =>
    triple_pure fun _ hv => ⟨rfl, hv⟩

theorem triple_verifyGameApkBasic :
    Triple Bare verifyGameApkBasic (fun r v => r = false ∧ Bare v) Bare := by
  have hfails : ∀ format args, Triple Bare (fails format args) (fun r v =>
    r = false ∧ Bare v) Bare :=
    fun _ _ => triple_fails_any fun _ _ hv => hv
  refine triple_bind triple_stat fun r => ?_
  cases r with
  | error => exact (hfails _ _).pre fun v hv => hv.2
  | ok st =>
      refine triple_ite (fun _ => (hfails _ _).pre fun v hv => hv.2) fun hfile => ?_
      refine triple_ite (fun _ => (hfails _ _).pre fun v hv => hv.2) fun _ => ?_
      -- what is there is a directory
      refine triple_pure fun v hv => ?_
      rcases hv.1 with ⟨content, hcontent, -⟩ | ⟨-, rfl⟩
      · rw [hv.2.2] at hcontent
        cases hcontent
      · exact absurd rfl hfile

/-- Without `game.apk` the installer does not bring the bundle back. -/
theorem triple_prepare_bare (Z : Zlib.Inflater) (data : CreditsData) (rounds : Nat) :
    Triple Bare (installerPrepareGameFiles Z data rounds) (fun r v => r = false ∧ Bare v) Bare := by
  have hinstall : Triple Bare (installGame Z data rounds) (fun r v => r = false ∧ Bare v) Bare := by
    refine triple_bind triple_verifyGameApkBasic fun r => .assume fun hr => ?_
    subst hr
    exact triple_pure fun v hv => ⟨rfl, hv⟩
  refine triple_bind (R := fun _ => Bare) (triple_update fun w hw => hw) fun _ => ?_
  refine triple_bind (R := fun _ => Bare) (triple_update fun w hw => hw) fun _ => ?_
  refine triple_bind (triple_fileExistsNonempty.post fun r v hv => hv.2) fun marked => ?_
  refine triple_bind (R := fun r v => r = false ∧ Bare v) ?_ fun present =>
    .assume fun hpresent => ?_
  · refine triple_ite (fun _ => ?_) fun _ => triple_pure fun v hv => ⟨rfl, hv⟩
    refine (triple_allPresent runtimeFiles).post fun r v hv => ⟨?_, hv.2⟩
    cases r with
    | false => rfl
    | true =>
        have hmem : bundlePath ∈ runtimeFiles := by
          unfold runtimeFiles
          simp [bundlePath]
        obtain ⟨content, hcontent, -⟩ := hv.1 rfl bundlePath hmem
        rw [hv.2.1] at hcontent
        cases hcontent
  · subst hpresent
    exact hinstall

end Later

/-! ## Crash safety -/

/-- The bundle is the one that was there, or the new one made of it. -/
def Whole (data : CreditsData) (before : Option Bytes) (w : World Memory) : Prop :=
  w.fs.file (resolve bundlePath) = before ∨
    ∃ old, before = some old ∧ w.fs.file (resolve bundlePath) = some (spliced data old)

/-- After `credits_patch_apply`, cut off or not, the bundle is whole, or some later run of the
installer without `game.apk` leaves it whole. -/
def PatchSafe (Z : Zlib.Inflater) (data : CreditsData) (rounds : Nat) (m : Machine (World Memory)) :
    Prop :=
  let before := m.world.fs.file (resolve bundlePath)
  let after := (creditsPatchApply data m).2.world
  Whole data before after ∨
    ∃ m' : Machine (World Memory), m'.world.fs = after.fs.delete (resolve installApk) ∧
      Whole data before (installerPrepareGameFiles Z data rounds m').2.world

/-- Nothing is whole where there is no bundle, if there was one. -/
theorem not_whole {data : CreditsData} {old : Bytes} {w : World Memory} (h : Kept none w.view) :
    ¬ Whole data (some old) w := by
  have hnone : w.fs.file (resolve bundlePath) = none := h
  rintro (hold | ⟨old', -, hnew⟩)
  · rw [hnone] at hold
    cases hold
  · rw [hnone] at hnew
    cases hnew

/-- A bundle that is lost stays lost. -/
theorem not_patchSafe {Z : Zlib.Inflater} {data : CreditsData} {rounds : Nat}
    {m : Machine (World Memory)} {old : Bytes}
    (hold : m.world.fs.file (resolve bundlePath) = some old)
    (hlost : Kept none (creditsPatchApply data m).2.world.view) : ¬ PatchSafe Z data rounds m := by
  unfold PatchSafe
  rw [hold]
  rintro (hwhole | ⟨m', hfs, hwhole⟩)
  · exact not_whole hlost hwhole
  have hbare : Bare m'.world.view := by
    unfold Bare
    rw [view_files, hfs, file_delete, Function.update_self]
    refine ⟨?_, rfl⟩
    by_cases hsame : resolve bundlePath = resolve installApk
    · rw [hsame, Function.update_self]
    · rw [Function.update_of_ne hsame]
      exact hlost
  have hrun := triple_prepare_bare Z data rounds m' hbare
  split at hrun
  · rename_i hresult
    rw [hresult] at hwhole
    exact not_whole hrun.2.1 hwhole
  · rename_i hresult
    rw [hresult] at hwhole
    exact not_whole hrun.1 hwhole

/-- What `credits_patch_apply` does is crash safe exactly when it does not come to renames that are
torn. -/
theorem patch_safe_iff (Z : Zlib.Inflater) (data : CreditsData) (rounds : Nat)
    (m : Machine (World Memory)) :
    PatchSafe Z data rounds m ↔ ∀ m', buildBundle data m = (some true, m') → ¬ Torn m' := by
  have hbuild := @triple_buildBundle Memory _ data m rfl
  rcases hresult : buildBundle data m with ⟨_ | ok, m'⟩
  · -- cut off before the renames
    rw [hresult] at hbuild
    refine ⟨?_, fun _ => .inl (.inl ?_)⟩
    · rintro - m'' ⟨⟩
    rw [show creditsPatchApply data m = (none, m') from bind_of_none hresult]
    exact hbuild
  rw [hresult] at hbuild
  have happly : creditsPatchApply data m = (if !ok then pure 0 else swapBundles) m' :=
    bind_of_some hresult
  cases ok with
  | false =>
      refine ⟨?_, fun _ => .inl (.inl ?_)⟩
      · rintro - m'' ⟨⟩
      rw [happly]
      exact hbuild
  | true =>
      obtain ⟨old, hold, -, hbuilt⟩ := hbuild
      have hold : m.world.fs.file (resolve bundlePath) = some old := hold
      obtain ⟨hlost, hwhole⟩ := swapBundles_file hbuilt
      constructor
      · rintro hsafe _ ⟨⟩ htorn
        refine not_patchSafe hold ?_ hsafe
        rw [happly]
        exact hlost htorn
      · intro hnot
        refine .inl ?_
        rw [hold, happly]
        rcases hwhole (hnot m' rfl) with hkept | hkept
        · exact .inl hkept
        · exact .inr ⟨old, rfl, hkept⟩

/-! ## A power loss between the renames -/

section Locality

variable {γ : Type} {dst : OutFile}

theorem local_copyExactLoop (n : Nat) (src : InFile) :
    Local (copyExactLoop dst n src : Prog (World γ) (Bool × InFile)) := by
  induction n using Nat.strong_induction_on generalizing src with
  | _ n ih =>
      unfold copyExactLoop
      refine local_ite (fun _ => local_pure _) fun hn => ?_
      refine local_bind local_step fun r => local_ite (fun _ => local_pure _) fun _ => ?_
      refine local_bind local_step fun written => local_ite (fun _ => local_pure _) fun _ => ?_
      exact ih _ (by split <;> omega) _

theorem local_copyFrom (src : InFile) (pos n : Nat) :
    Local (copyFrom src pos dst n : Prog (World γ) (Bool × InFile)) := by
  refine local_bind local_step fun r => ?_
  cases r with
  | none => exact local_pure _
  | some src' =>
      exact local_bind local_step fun _ => local_ite (fun _ => local_pure _) fun _ =>
        local_copyExactLoop n src'

theorem local_padLoop (here : Nat) : Local (padLoop dst here : Prog (World γ) Bool) := by
  induction hleft : creditsNewDataPos - here using Nat.strong_induction_on generalizing here with
  | _ left ih =>
      unfold padLoop
      refine local_ite (fun hlt => ?_) fun _ => local_pure _
      refine local_bind local_step fun written => local_ite (fun _ => local_pure _) fun _ => ?_
      exact ih _ (by split <;> omega) _ rfl

theorem local_padToData : Local (padToData dst : Prog (World γ) Bool) := by
  refine local_bind local_step fun r => ?_
  cases r with
  | none => exact local_pure _
  | some here => exact local_padLoop here

theorem local_writeBundle {data : CreditsData} {header : Bytes} {src : InFile} :
    Local (writeBundle data header src dst : Prog (World γ) Bool) := by
  unfold writeBundle
  refine local_bind local_step fun _ => local_ite (fun _ => local_pure _) fun _ => ?_
  refine local_bind local_step fun _ => local_ite (fun _ => local_pure _) fun _ => ?_
  refine local_bind local_padToData fun _ => local_ite (fun _ => local_pure _) fun _ => ?_
  refine local_bind (local_copyFrom src _ _) fun r => local_ite (fun _ => local_pure _) fun _ => ?_
  refine local_bind local_step fun _ => local_ite (fun _ => local_pure _) fun _ => ?_
  refine local_bind (local_copyFrom _ _ _) fun _ => local_ite (fun _ => local_pure _) fun _ => ?_
  exact local_bind local_step fun _ => local_ite (fun _ => local_pure _) fun _ => local_step

theorem local_patchBundle {data : CreditsData} {header : Bytes} {src : InFile} :
    Local (patchBundle data header src : Prog (World γ) Bool) := by
  have hdiscard : Local (do let _ ← remove bundleTmp; pure false : Prog (World γ) Bool) :=
    local_bind local_step fun _ => local_pure _
  unfold patchBundle
  refine local_bind local_step fun _ => local_bind local_step fun _ =>
    local_bind local_step fun r => ?_
  cases r with
  | error => exact local_bind local_step fun _ => local_pure _
  | ok dst =>
      refine local_bind local_writeBundle fun ok => local_bind local_step fun closed => ?_
      refine local_bind local_step fun _ => local_ite (fun _ => hdiscard) fun _ => ?_
      refine local_bind local_step fun st => ?_
      cases st with
      | error => exact hdiscard
      | ok st => exact local_ite (fun _ => hdiscard) fun _ => local_pure _

/-- What is built depends on the decisions until the renames. -/
theorem local_buildBundle {data : CreditsData} :
    Local (buildBundle data : Prog (World γ) Bool) := by
  unfold buildBundle
  refine local_bind local_step fun r => ?_
  cases r with
  | error => exact local_pure _
  | ok st =>
      refine local_ite (fun _ => local_pure _) fun _ =>
        local_ite (fun _ => local_pure _) fun _ => ?_
      refine local_bind local_step fun r => ?_
      cases r with
      | error => exact local_pure _
      | ok src =>
          refine local_bind local_step fun r => local_ite (fun _ => ?_) fun _ => local_patchBundle
          exact local_bind local_step fun _ => local_pure _

end Locality

/-- Nothing fails, and the power is lost after the `k`-th step. -/
def lostAfter (k i : Nat) : Decision := ⟨i = k, false, 0⟩

/-- If the power is lost right after the first rename, the bundle does not come back. -/
theorem bundle_lost : ∃ k, ∀ (Z : Zlib.Inflater) (rounds : Nat), ¬ PatchSafe Z plainData rounds
    ⟨⟨plainFs plainBundle, [], Memory.init⟩, lostAfter k, 0⟩ := by
  have hready := ready_plainFs plainBundle Memory.init
  have hbuild := @total_buildBundle Memory plainBundle plainData accepted_plainBundle
    ⟨⟨plainFs plainBundle, [], Memory.init⟩, fun _ => .good, 0⟩ (fun _ => ⟨rfl, rfl⟩) hready
  obtain ⟨ok, m', hrun, -, rfl, hbuilding⟩ := hbuild
  have hlocal := (@local_buildBundle Memory plainData
    ⟨⟨plainFs plainBundle, [], Memory.init⟩, fun _ => .good, 0⟩).2 (lostAfter m'.now)
  rw [hrun] at hlocal
  -- until the first rename the run is the one in which nothing happens
  have hrun := hlocal fun i _ hlt => by
    unfold lostAfter
    rw [decide_eq_false (Nat.ne_of_lt hlt)]
    rfl
  have htorn : Torn ⟨m'.world, lostAfter m'.now, m'.now⟩ :=
    ⟨⟨rfl, hbuilding.bak, hbuilding.dir⟩, .inl (decide_eq_true rfl)⟩
  refine ⟨m'.now, fun Z rounds => not_patchSafe hready.old ?_⟩
  rw [show creditsPatchApply plainData _ = _ from bind_of_some hrun]
  exact (swapBundles_file (m := ⟨_, lostAfter m'.now, _⟩) ⟨hbuilding.old, hbuilding.new⟩).1 htorn

end Asnx.Installer.Credits
