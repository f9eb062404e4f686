import Asnx.Installer.CreditsPatch
import Asnx.Installer.Extraction
import Asnx.Library.Completion

/-!
# The bundle with the new credits

When nothing fails, `credits_patch_apply` replaces the bundle that it accepts by one with the new
sizes in its header, the new block info, padding, and the new block in the place of the old one
(`credits_patch_splices`). A bundle that it does not accept stays as it is, and so does the rest of
the world, whatever fails.
-/

namespace Asnx.Installer.Credits

open Interrupted Files

/-! ## The new bundle -/

/-- The `n` bytes of a number, the most significant one first. -/
def bigEndian (n v : Nat) : Bytes := (List.range n).reverse.map fun i => UInt8.ofNat (v / 256 ^ i)

/-- The bundle has the old size and an accepted header. -/
def AcceptedBundle (old : Bytes) : Prop :=
  old.length = creditsOldTotal ∧ headerRefused (old.take 64) = false

/-- The first 64 bytes of the new bundle. -/
def splicedHeader (old : Bytes) : Bytes :=
  old.take 29 ++ bigEndian 8 creditsNewTotal ++ bigEndian 4 creditsNewCbiSize ++
    (old.take 64).drop 41

/-- The new bundle. -/
def spliced (data : CreditsData) (old : Bytes) : Bytes :=
  splicedHeader old ++ data.gCreditsBlockinfo ++
    List.replicate (creditsNewDataPos - (64 + creditsNewCbiSize)) 0 ++
    (old.take creditsOldBlockPos).drop creditsOldDataPos ++ data.gCreditsBlock325 ++
    old.drop creditsOldAfterBlock

/-! ## The header -/

section Header

variable {p header old : Bytes} {off : Nat}

theorem assign_append (bs bs' : Bytes) :
    assign p off (bs ++ bs') = assign (assign p off bs) (off + bs.length) bs' := by
  induction bs generalizing p off with
  | nil => rfl
  | cons b bs ih =>
      show assign (p.set off b) (off + 1) (bs ++ bs') =
        assign (assign (p.set off b) (off + 1) bs) (off + (bs.length + 1)) bs'
      rw [ih, Nat.add_assoc, Nat.add_comm 1]

/-- What has been assigned takes the place of as many bytes. -/
theorem assign_eq {bs : Bytes} (h : off + bs.length ≤ p.length) :
    assign p off bs = p.take off ++ bs ++ p.drop (off + bs.length) := by
  induction bs generalizing p off with
  | nil =>
      show p = _
      rw [List.append_nil, List.length_nil, Nat.add_zero, List.take_append_drop]
  | cons b bs ih =>
      rw [List.length_cons] at h
      have hset : p.set off b = p.take off ++ b :: p.drop (off + 1) :=
        List.set_eq_take_append_cons_drop.trans (if_pos (by omega))
      have hlength : (p.take off).length = off := by
        rw [List.length_take]
        omega
      have htake : (p.set off b).take (off + 1) = p.take off ++ [b] := by
        rw [hset]
        have hfirst : (p.take off ++ [b]).length = off + 1 := by
          rw [List.length_append, hlength, List.length_singleton]
        have hsplit : p.take off ++ b :: p.drop (off + 1) =
            (p.take off ++ [b]) ++ p.drop (off + 1) := by
          rw [List.append_assoc, List.singleton_append]
        rw [hsplit, ← hfirst]
        exact List.take_left
      have hdrop : (p.set off b).drop (off + 1 + bs.length) = p.drop (off + (bs.length + 1)) := by
        rw [List.drop_set_of_lt (by omega), Nat.add_assoc, Nat.add_comm 1]
      show assign (p.set off b) (off + 1) bs = _
      rw [ih (by rw [List.length_set]; omega), htake, hdrop, List.length_cons]
      simp

/-- The two sizes stand side by side. -/
theorem newHeader_eq (h : header.length = 64) :
    newHeader header = header.take 29 ++ bigEndian 8 creditsNewTotal ++
      bigEndian 4 creditsNewCbiSize ++
      header.drop 41 := by
  have hsizes : newHeader header =
      assign header 29 (bigEndian 8 creditsNewTotal ++ bigEndian 4 creditsNewCbiSize) :=
    (assign_append (bigEndian 8 creditsNewTotal) _).symm
  rw [hsizes, assign_eq (by rw [h]; decide), ← List.append_assoc]
  rfl

theorem newHeader_take (h : 64 ≤ old.length) : newHeader (old.take 64) = splicedHeader old := by
  rw [newHeader_eq (List.length_take_of_le h), List.take_take]
  rfl

theorem length_splicedHeader (h : 64 ≤ old.length) : (splicedHeader old).length = 64 := by
  have hsizes : (bigEndian 8 creditsNewTotal ++ bigEndian 4 creditsNewCbiSize).length = 12 := rfl
  unfold splicedHeader
  rw [List.append_assoc, List.append_assoc, ← List.append_assoc (bigEndian 8 _), List.length_append,
    List.length_append, hsizes, List.length_drop, List.length_take, List.length_take]
  omega

end Header

/-! ## The files -/

/-- The directory of the bundle and of its siblings. -/
def bundleDir : Path := (resolve bundlePath).dropLast

theorem bundle_siblings : (resolve bundleTmp).dropLast = bundleDir ∧
    (resolve bundleBak).dropLast = bundleDir := by decide +kernel

theorem bundle_apart : resolve bundleTmp ≠ resolve bundlePath ∧
    resolve bundleBak ≠ resolve bundlePath ∧
    resolve bundleBak ≠ resolve bundleTmp := by decide +kernel

theorem bundleDir_apart : bundleDir ≠ resolve bundlePath ∧ bundleDir ≠ resolve bundleTmp ∧
    bundleDir ≠ resolve bundleBak := by decide +kernel

theorem bundlePath_ne_root : resolve bundlePath ≠ [] := by decide +kernel

/-- The old bundle is there, and there is room for a file at `bak`. -/
structure Standing {γ : Type} (old : Bytes) (w : World γ) : Prop where
  dir : w.fs.isDir bundleDir = true
  bak : w.fs.isDir (resolve bundleBak) = false
  old : Holding (resolve bundlePath) old w

/-- There is room for a file at `tmp`, too. -/
structure Ready {γ : Type} (old : Bytes) (w : World γ) : Prop extends Standing old w where
  tmp : w.fs.isDir (resolve bundleTmp) = false

/-- The file at `tmp` holds `new`. -/
structure Building {γ : Type} (old new : Bytes) (w : World γ) : Prop extends Standing old w where
  new : Holding (resolve bundleTmp) new w

section Files

variable {γ : Type} {old new : Bytes} {w : World γ}

/-- A file at `tmp` changes nothing else. -/
theorem Standing.put (h : Standing old w) (new : Bytes) :
    Building old new { w with fs := w.fs.put (resolve bundleTmp) new } := by
  refine ⟨⟨(isDir_put bundleDir_apart.2.1 _).trans h.dir, isDir_put_false h.bak _ _, ?_⟩, ?_⟩
  · show Fs.file (w.fs.put _ _) _ = _
    rw [file_put, Function.update_of_ne bundle_apart.1.symm]
    exact h.old
  · show Fs.file (w.fs.put _ _) _ = _
    rw [file_put, Function.update_self]

/-- Without one of the siblings. -/
theorem Ready.delete (h : Ready old w) {q : Path} (hdir : bundleDir ≠ q)
    (hold : resolve bundlePath ≠ q) :
    Ready old { w with fs := w.fs.delete q } := by
  refine ⟨⟨(isDir_delete hdir).trans h.dir, isDir_delete_false h.bak _, ?_⟩,
    isDir_delete_false h.tmp _⟩
  show Fs.file (w.fs.delete _) _ = _
  rw [file_delete, Function.update_of_ne hold]
  exact h.old

theorem total_remove_ready {name : Bytes} (hdir : bundleDir ≠ resolve name)
    (hold : resolve bundlePath ≠ resolve name) :
    Total Calm (Ready (γ := γ) old) (remove name) fun _ => Ready old :=
  total_remove (fun _ _ hw => hw) fun _ hw => hw.delete hdir hold

/-! ## Writing the new bundle -/

theorem total_fwrite_tmp (more : Bytes) :
    Total Calm (Building (γ := γ) old new) (fwrite ⟨resolve bundleTmp⟩ more) fun r w =>
      r = true ∧ Building old (new ++ more) w :=
  total_fwrite fun _ hw => ⟨new, hw.new, rfl, hw.toStanding.put _⟩

theorem total_fread_bundle {pos n : Nat} {err : Bool} :
    Total Calm (Building (γ := γ) old new) (fread ⟨resolve bundlePath, pos, err⟩ n) fun r w =>
      r = (slice old pos n, ⟨resolve bundlePath, pos + (slice old pos n).length, err⟩) ∧
        Building old new w :=
  total_fread fun _ hw => hw.old

theorem length_slice_of_le {pos n : Nat} (h : pos + n ≤ old.length) :
    (slice old pos n).length = n := by
  unfold slice
  rw [List.length_take, List.length_drop]
  omega

/-- The loop copies what it is told to, by induction on the number of bytes. -/
theorem total_copyExactLoop (n pos : Nat) (err : Bool) (h : pos + n ≤ old.length) :
    Total Calm (Building (γ := γ) old new)
      (copyExactLoop ⟨resolve bundleTmp⟩ n ⟨resolve bundlePath, pos, err⟩) fun r w =>
        r = (true, ⟨resolve bundlePath, pos + n, err⟩) ∧
          Building old (new ++ slice old pos n) w := by
  induction n using Nat.strong_induction_on generalizing pos new with
  | _ n ih =>
      unfold copyExactLoop
      refine total_ite (fun hn => ?_) fun hn => ?_
      · subst hn
        refine total_pure fun w hw => ⟨rfl, ?_⟩
        rw [show slice old pos 0 = [] from List.take_zero .., List.append_nil]
        exact hw
      -- one round copies `k` bytes
      dsimp only
      generalize hk : (if n > 256 * 1024 then 256 * 1024 else n) = k
      have hk : 0 < k ∧ k ≤ n := by
        split at hk <;> omega
      have hlength : (slice old pos k).length = k := length_slice_of_le (by omega)
      refine total_bind_eq total_fread_bundle ?_
      dsimp only
      rw [hlength]
      refine total_ite (fun hshort => absurd rfl hshort) fun _ => ?_
      refine total_bind_eq (total_fwrite_tmp _)
        (total_ite (fun h => absurd h (by decide)) fun _ => ?_)
      have hrest := @ih (n - k) (by omega) (new ++ slice old pos k) (pos + k) (by omega)
      rw [List.append_assoc, slice_add, Nat.add_sub_cancel' hk.2, Nat.add_assoc,
        Nat.add_sub_cancel' hk.2] at hrest
      exact hrest

theorem total_copyFrom (src : InFile) (hsrc : src.path = resolve bundlePath) {pos n : Nat}
    (h : pos + n ≤ old.length) :
    Total Calm (Building (γ := γ) old new) (copyFrom src pos ⟨resolve bundleTmp⟩ n) fun r w =>
      r = (true, ⟨resolve bundlePath, pos + n, src.err⟩) ∧
        Building old (new ++ slice old pos n) w := by
  refine total_bind_eq total_fseek (total_bind_eq total_chance ?_)
  refine total_ite (fun h => absurd h (by decide)) fun _ => ?_
  rw [hsrc]
  exact total_copyExactLoop n pos src.err h

/-- The loop writes zeros up to the data, by induction on how many are left. -/
theorem total_padLoop (here : Nat) :
    Total Calm (Building (γ := γ) old new) (padLoop ⟨resolve bundleTmp⟩ here) fun r w =>
      r = true ∧ Building old (new ++ List.replicate (creditsNewDataPos - here) 0) w := by
  induction hleft : creditsNewDataPos - here using Nat.strong_induction_on generalizing
    here new with
  | _ left ih =>
      unfold padLoop
      refine total_ite (fun hlt => ?_) fun hge => ?_
      · dsimp only
        generalize hn : (if creditsNewDataPos - here > 16 then 16 else creditsNewDataPos - here) = n
        have hn : 0 < n ∧ n ≤ left := by
          split at hn <;> omega
        refine total_bind_eq (total_fwrite_tmp _)
          (total_ite (fun h => absurd h (by decide)) fun _ => ?_)
        have hrest := @ih (left - n) (by omega) (new ++ List.replicate n 0) (here + n) (by omega)
        rw [List.append_assoc, List.replicate_append_replicate, Nat.add_sub_cancel' hn.2] at hrest
        exact hrest
      · refine total_pure fun w hw => ⟨rfl, ?_⟩
        have hnone : left = 0 := by omega
        rw [hnone, List.replicate_zero, List.append_nil]
        exact hw

theorem total_padToData :
    Total Calm (Building (γ := γ) old new) (padToData ⟨resolve bundleTmp⟩) fun r w =>
      r = true ∧ Building old (new ++ List.replicate (creditsNewDataPos - new.length) 0) w := by
  refine total_bind_eq (b := some new.length) (R := Building old new) ?_ (total_padLoop _)
  refine total_step fun d w hd hw => ?_
  rw [show d.fails = false from hd, show w.fs.file (resolve bundleTmp) = some new from hw.new]
  exact ⟨rfl, hw⟩

variable {data : CreditsData}

theorem AcceptedBundle.length_ge (h : AcceptedBundle old) : 64 ≤ old.length := by
  rw [h.1]
  decide

/-- The pieces of the new bundle make up its new size. -/
theorem length_spliced (h : old.length = creditsOldTotal) :
    (spliced data old).length = creditsNewTotal := by
  have hheader : (splicedHeader old).length = 64 := length_splicedHeader (by rw [h]; decide)
  unfold spliced
  simp only [List.length_append, List.length_replicate, List.length_drop, List.length_take, hheader,
    data.blockinfo_size, data.block_size, h]
  decide

/-- What is written is the new bundle, piece by piece. -/
theorem total_writeBundle (h : AcceptedBundle old) (src : InFile)
    (hsrc : src.path = resolve bundlePath) :
    Total Calm (Building (γ := γ) old [])
      (writeBundle data (splicedHeader old) src ⟨resolve bundleTmp⟩)
      fun r w => r = true ∧ Building old (spliced data old) w := by
  have hheader : (splicedHeader old ++ data.gCreditsBlockinfo).length = 64 + creditsNewCbiSize := by
    rw [List.length_append, length_splicedHeader h.length_ge, data.blockinfo_size]
  have hbefore : slice old creditsOldDataPos (creditsOldBlockPos - creditsOldDataPos) =
      (old.take creditsOldBlockPos).drop creditsOldDataPos := List.drop_take.symm
  have hafter : slice old creditsOldAfterBlock (creditsOldTotal - creditsOldAfterBlock) =
      old.drop creditsOldAfterBlock :=
    List.take_of_length_le (by rw [List.length_drop, h.1])
  unfold writeBundle
  refine total_bind_eq (total_fwrite_tmp _) (total_ite (fun h => absurd h (by decide)) fun _ => ?_)
  refine total_bind_eq (total_fwrite_tmp _) (total_ite (fun h => absurd h (by decide)) fun _ => ?_)
  refine total_bind_eq total_padToData (total_ite (fun h => absurd h (by decide)) fun _ => ?_)
  rw [List.nil_append, hheader]
  refine total_bind_eq (total_copyFrom src hsrc ?_) ?_
  · rw [h.1]
    decide
  refine total_ite (fun h => absurd h (by decide)) fun _ => ?_
  refine total_bind_eq (total_fwrite_tmp _) (total_ite (fun h => absurd h (by decide)) fun _ => ?_)
  refine total_bind_eq (total_copyFrom _ rfl ?_) ?_
  · rw [h.1]
    decide
  refine total_ite (fun h => absurd h (by decide)) fun _ => ?_
  refine total_bind_eq total_flush (total_ite (fun h => absurd h (by decide)) fun _ => ?_)
  rw [hbefore, hafter]
  exact total_flush

/-- The header has been accepted. -/
theorem total_patchBundle (h : AcceptedBundle old) (src : InFile)
    (hsrc : src.path = resolve bundlePath) :
    Total Calm (Ready (γ := γ) old) (patchBundle data (old.take 64) src) fun r w =>
      r = true ∧ Building old (spliced data old) w := by
  unfold patchBundle
  dsimp only
  rw [newHeader_take h.length_ge]
  refine total_bind (total_remove_ready bundleDir_apart.2.1 bundle_apart.1.symm) fun _ => ?_
  refine total_bind (total_remove_ready bundleDir_apart.2.2 bundle_apart.2.1.symm) fun _ => ?_
  refine total_bind_eq (b := .ok ⟨resolve bundleTmp⟩) (R := Building old []) ?_ ?_
  · refine total_fopenWrite fun w hw => ⟨hw.tmp, ?_, rfl, hw.toStanding.put []⟩
    rw [bundle_siblings.1]
    exact hw.dir
  refine total_bind_eq (total_writeBundle h src hsrc) (total_bind_eq total_flush ?_)
  refine total_bind total_fcloseRead fun _ => ?_
  refine total_ite (fun h => absurd h (by decide)) fun _ => ?_
  refine total_bind_eq (b := .ok ⟨false, creditsNewTotal⟩)
    (R := Building old (spliced data old)) ?_ ?_
  · refine total_operation fun w hw => ⟨?_, hw⟩
    have hnew := hw.new
    unfold Holding Fs.file at hnew
    split at hnew
    · rename_i content hlookup
      rw [hlookup, Option.some.inj hnew, ← length_spliced h.1]
    · cases hnew
  dsimp only
  exact total_ite (fun h => absurd rfl h) fun _ => total_pure fun _ hw => ⟨rfl, hw⟩

theorem total_buildBundle (h : AcceptedBundle old) :
    Total Calm (Ready (γ := γ) old) (buildBundle data) fun r w =>
      r = true ∧ Building old (spliced data old) w := by
  unfold buildBundle
  refine total_bind_eq (b := .ok ⟨false, creditsOldTotal⟩) (R := Ready old) ?_ ?_
  · refine total_operation fun w hw => ⟨?_, hw⟩
    have hold := hw.old
    unfold Holding Fs.file at hold
    split at hold
    · rename_i content hlookup
      rw [hlookup, Option.some.inj hold, ← h.1]
    · cases hold
  dsimp only
  refine total_ite (fun hnew => absurd hnew (by decide)) fun _ => ?_
  refine total_ite (fun h => absurd rfl h) fun _ => ?_
  refine total_bind_eq (total_fopenRead fun w hw => ⟨old, hw.old⟩) ?_
  refine total_bind_eq (total_fread fun w hw => hw.old) ?_
  dsimp only
  rw [List.drop_zero]
  refine total_ite (fun hrefused => ?_) fun _ => total_patchBundle h _ rfl
  rw [h.2] at hrefused
  cases hrefused

/-- The new bundle takes the place of the old one. -/
theorem total_swapBundles :
    Total Calm (Building (γ := γ) old new) swapBundles fun _ w =>
      Holding (resolve bundlePath) new w := by
  unfold swapBundles
  -- the old bundle has gone to `bak`
  refine total_bind_eq (b := .ok ()) (R := fun w : World γ => w.fs.isDir bundleDir = true ∧
    w.fs.isDir (resolve bundlePath) = false ∧ Holding (resolve bundleTmp) new w) ?_ ?_
  · refine total_rename fun w hw => ⟨old, hw.old, hw.bak, ?_, rfl, ?_, ?_, ?_⟩
    · rw [bundle_siblings.2]
      exact hw.dir
    · rw [isDir_put bundleDir_apart.2.2, isDir_delete bundleDir_apart.1]
      exact hw.dir
    · exact isDir_put_false (isDir_delete_false (isDir_of_file hw.old bundlePath_ne_root) _) _ _
    · show Fs.file (Fs.put _ _ _) _ = _
      rw [file_put, file_delete, Function.update_of_ne bundle_apart.2.2.symm,
        Function.update_of_ne bundle_apart.1]
      exact hw.new
  unfold finishSwap
  refine total_bind_eq (b := .ok ()) (R := Holding (resolve bundlePath) new) ?_ ?_
  · refine total_rename fun w hw => ⟨new, hw.2.2, hw.2.1, hw.1, rfl, ?_⟩
    show Fs.file (Fs.put _ _ _) _ = _
    rw [file_put, Function.update_self]
  refine total_bind (R := fun _ => Holding (resolve bundlePath) new) ?_ fun _ =>
    total_pure fun _ hw => hw
  refine total_remove (fun _ _ hw => hw) fun w hw => ?_
  show Fs.file (w.fs.delete _) _ = _
  rw [file_delete, Function.update_of_ne bundle_apart.2.1.symm]
  exact hw

/-- If nothing fails, an accepted bundle is replaced by the new one. -/
theorem total_creditsPatchApply (h : AcceptedBundle old) :
    Total Calm (Ready (γ := γ) old) (creditsPatchApply data) fun _ w =>
      Holding (resolve bundlePath) (spliced data old) w :=
  total_bind_eq (total_buildBundle h) (total_ite (fun h => absurd h (by decide)) fun _ =>
    total_swapBundles)

/-! ## Other bundles -/

/-- An operation that changes nothing. -/
theorem spec_operation_same {β : Type} {f : World γ → Except Errno β × World γ} {φ : β → Prop}
    (hworld : (f w).2 = w) (hresult : ∀ b, (f w).1 = .ok b → φ b) :
    Spec (fun w' => w' = w) (operation f) (fun r w' => (∀ b, r = .ok b → φ b) ∧ w' = w)
      fun w' => w' = w := by
  refine spec_step fun d w' hw => ?_
  subst hw
  split
  · exact ⟨⟨nofun, rfl⟩, rfl⟩
  · exact ⟨⟨hresult, hworld⟩, hworld⟩

/-- A bundle that is not accepted is not built anew. -/
theorem spec_refused (hold : Holding (resolve bundlePath) old w) (h : ¬ AcceptedBundle old) :
    Spec (fun w' => w' = w) (buildBundle data) (fun r w' => r = false ∧ w' = w) fun w' =>
      w' = w := by
  unfold buildBundle
  refine spec_bind (spec_operation_same (φ := fun st => st.size = old.length) rfl fun st hst => ?_)
    ?_
  · unfold Holding Fs.file at hold
    split at hold
    · rename_i content hlookup
      rw [hlookup] at hst
      rw [← Except.ok.inj hst, Option.some.inj hold]
    · cases hold
  intro r
  refine .assume fun hsize => ?_
  cases r with
  | error => exact spec_pure fun _ hw => ⟨rfl, hw⟩
  | ok st =>
      refine spec_ite (fun _ => spec_pure fun _ hw => ⟨rfl, hw⟩) fun _ => ?_
      refine spec_ite (fun _ => spec_pure fun _ hw => ⟨rfl, hw⟩) fun hst => ?_
      have hlength : old.length = creditsOldTotal := (hsize st rfl).symm.trans (not_not.1 hst)
      refine spec_bind (spec_operation_same (φ := fun src => src = ⟨resolve bundlePath, 0, false⟩)
        ?_ fun src hsrc => ?_) fun r => .assume fun hopened => ?_
      · rw [show w.fs.file (resolve bundlePath) = some old from hold]
      · rw [show w.fs.file (resolve bundlePath) = some old from hold] at hsrc
        exact (Except.ok.inj hsrc).symm
      cases r with
      | error => exact spec_pure fun _ hw => ⟨rfl, hw⟩
      | ok src =>
          obtain rfl := hopened src rfl
          -- what has been read is the header, or too short
          refine spec_bind (R := fun r w' => headerRefused r.1 = true ∧ w' = w) ?_ fun r =>
            .assume fun hrefused => ?_
          · refine spec_step fun d w' hw => ⟨⟨?_, hw⟩, hw⟩
            subst hw
            rw [show w'.fs.file (resolve bundlePath) = some old from hold]
            have hwhole : headerRefused (old.take 64) = true := by
              cases hheader : headerRefused (old.take 64)
              · exact absurd ⟨hlength, hheader⟩ h
              · rfl
            dsimp only [Option.getD_some]
            rw [List.drop_zero]
            split
            · refine decide_eq_true (.inl ?_)
              rw [List.length_take]
              omega
            · exact hwhole
          · dsimp only
            rw [if_pos hrefused]
            refine spec_bind (R := fun _ w' => w' = w) (spec_step fun _ _ hw => ⟨hw, hw⟩)
              fun _ => ?_
            exact spec_pure fun _ hw => ⟨rfl, hw⟩

/-- Whatever fails, a bundle that is not accepted is left alone. -/
theorem keeps_refused (hold : Holding (resolve bundlePath) old w) (h : ¬ AcceptedBundle old) :
    Keeps (fun w' => w' = w) (creditsPatchApply data) := by
  refine spec_bind (spec_refused hold h) fun built => .assume ?_
  rintro rfl
  exact spec_pure fun _ hw => hw

/-- A bundle with the old size and an accepted header becomes the spliced one, which has the new
size, if nothing fails and there is room for the siblings. Every other bundle stays as it is, with
all the rest, whatever fails. -/
theorem credits_patch_splices (data : CreditsData) (old : Bytes) :
    (AcceptedBundle old →
      (spliced data old).length = creditsNewTotal ∧
      Total Calm (Ready (γ := γ) old) (creditsPatchApply data) fun _ w =>
        w.fs.file (resolve bundlePath) = some (spliced data old)) ∧
    (¬ AcceptedBundle old → ∀ m : Machine (World γ),
      m.world.fs.file (resolve bundlePath) = some old →
      (creditsPatchApply data m).2.world = m.world) := by
  refine ⟨fun h => ⟨length_spliced h.1, total_creditsPatchApply h⟩, fun h m hold => ?_⟩
  exact spec_always.1 (keeps_refused hold h) m rfl

end Files

/-! ## A bundle of zeros -/

/-- An accepted header. -/
def plainHeader : Bytes :=
  bytes "UnityFS" ++ List.replicate 22 0 ++ bigEndian 8 creditsOldTotal ++ bigEndian 4 19462 ++
    List.replicate 23 0

/-- Arrays of the right sizes. -/
def plainData : CreditsData :=
  ⟨List.replicate creditsNewCbiSize 1, List.replicate creditsNewBlockSize 2, List.length_replicate,
    List.length_replicate⟩

/-- An accepted bundle. -/
def plainBundle : Bytes := plainHeader ++ List.replicate (creditsOldTotal - 64) 0

theorem accepted_plainBundle : AcceptedBundle plainBundle := by
  have hlength : plainHeader.length = 64 := by decide +kernel
  have hheader : headerRefused plainHeader = false := by decide +kernel
  refine ⟨?_, ?_⟩
  · unfold plainBundle
    rw [List.length_append, List.length_replicate, hlength]
    decide
  · unfold plainBundle
    rw [← hlength, List.take_left]
    exact hheader

/-- The bundle and its directory. -/
def plainFs (old : Bytes) : Fs := Fs.put (AList.insert bundleDir .dir ∅) (resolve bundlePath) old

theorem ready_plainFs {γ : Type} (old : Bytes) (rest : γ) : Ready old ⟨plainFs old, [], rest⟩ := by
  have hnone : ∀ q, q ≠ [] → q ≠ bundleDir →
      Fs.isDir (AList.insert bundleDir .dir (∅ : AList fun _ : Path => Node)) q = false := by
    intro q hroot hq
    refine decide_eq_false (not_or.2 ⟨hroot, ?_⟩)
    rw [AList.lookup_insert_ne hq, AList.lookup_empty]
    nofun
  refine ⟨⟨?_, isDir_put_false (hnone _ (by decide +kernel) bundleDir_apart.2.2.symm) _ _, ?_⟩,
    isDir_put_false (hnone _ (by decide +kernel) bundleDir_apart.2.1.symm) _ _⟩
  · exact (isDir_put bundleDir_apart.1 _).trans (isDir_insert_self _ _)
  · show Fs.file (Fs.put _ _ _) _ = _
    rw [file_put, Function.update_self]

theorem credits_patch_splices_plain : ∃ m m' : Machine (World Unit), ∃ r,
    creditsPatchApply plainData m = (some r, m') ∧
      m.world.fs.file (resolve bundlePath) = some plainBundle ∧
      m'.world.fs.file (resolve bundlePath) = some (spliced plainData plainBundle) := by
  have hready := ready_plainFs plainBundle ()
  obtain ⟨r, m', hrun, -, hnew⟩ := ((credits_patch_splices plainData plainBundle).1
    accepted_plainBundle).2 ⟨⟨plainFs plainBundle, [], ()⟩, fun _ => .good, 0⟩
      (fun _ => ⟨rfl, rfl⟩) hready
  exact ⟨_, m', r, hrun, hready.old, hnew⟩

end Asnx.Installer.Credits
