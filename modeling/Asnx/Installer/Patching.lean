import Asnx.Installer.PatchSafety
import Asnx.Installer.Working

/-!
# What the patch of the credits makes of the files

`credits_patch_apply` changes the bundle and its siblings only. An accepted bundle is patched, left
alone or missing afterwards, and where the bundle is refused or missing nothing is changed
(`moves_creditsPatchApply`).
-/

namespace Asnx.Installer

open Interrupted Files Tracing Credits

/-! ## The renames -/

section Renames

variable {γ : Type} {data : CreditsData} {old new : Bytes} {before : Option Bytes}

/-- What the patch of the credits can make of a bundle: it is left alone, or an accepted one is
gone or has been patched. -/
def PatchedTo (data : CreditsData) (before after : Option Bytes) : Prop :=
  after = before ∨ ∃ old, before = some old ∧ AcceptedBundle old ∧
    (after = none ∨ after = some (spliced data old))

/-- The bundle has been moved, and its siblings hold the new one and the old one. -/
def Apart (old new : Bytes) (v : View γ) : Prop :=
  Credits.Kept none v ∧ v.files (resolve bundleTmp) = some new ∧
    v.files (resolve bundleBak) = some old

/-- There is the old bundle, the new one or none. -/
def Swapped (old new : Bytes) (v : View γ) : Prop :=
  ∃ after, Credits.Kept after v ∧ (after = some old ∨ after = none ∨ after = some new)

theorem triple_swapBundles :
    Triple (Built (γ := γ) old new) swapBundles (fun _ => Swapped old new) (Swapped old new) := by
  have hremove : ∀ {after : Option Bytes} {name : Bytes}, resolve bundlePath ≠ resolve name →
      (after = some old ∨ after = none ∨ after = some new) →
      Triple (Credits.Kept (γ := γ) after) (do let _ ← remove name; pure 0 : Prog (World γ) Int)
        (fun _ => Swapped old new) (Swapped old new) :=
    fun hname hafter =>
      triple_bind ((triple_remove_kept hname).mono (fun _ hv => hv) (fun _ _ hv => hv)
      fun _ hv => ⟨_, hv, hafter⟩) fun _ => triple_pure fun v hv => ⟨_, hv, hafter⟩
  have hmoved : ∀ {v : View γ}, Built old new v →
      Apart old new (v.move (resolve bundlePath) (resolve bundleBak) old) := by
    rintro v ⟨-, hnew⟩
    refine ⟨?_, ?_, ?_⟩
    · show (v.move _ _ old).files _ = none
      rw [move_files, Function.update_of_ne bundle_apart.2.1.symm, Function.update_self]
    · rw [move_files, Function.update_of_ne bundle_apart.2.2.symm,
        Function.update_of_ne bundle_apart.1, hnew]
    · rw [move_files, Function.update_self]
  refine triple_bind (R := OrFailed (Built old new) fun _ => Apart old new)
    (triple_rename (fun v e hv => ⟨hv, _, hv.1, .inl rfl⟩) fun v content hv hcontent => ?_)
      fun r => ?_
  · obtain rfl : old = content := Option.some.inj (hv.1.symm.trans hcontent)
    exact ⟨hmoved hv, _, (hmoved hv).1, .inr (.inl rfl)⟩
  cases r with
  -- the old bundle could not be moved
  | error => exact (hremove bundle_apart.1.symm (.inl rfl)).pre fun v hv => hv.1
  | ok =>
      refine triple_bind (R := OrFailed (Apart old new) fun _ => Credits.Kept (some new))
        (triple_rename (fun v e hv => ⟨hv, _, hv.1, .inr (.inl rfl)⟩) fun v content hv hcontent =>
          ?_) fun r => ?_
      · obtain rfl : new = content := Option.some.inj (hv.2.1.symm.trans hcontent)
        have hnew : Credits.Kept (some new)
            (v.move (resolve bundleTmp) (resolve bundlePath) new) := by
          show (v.move _ _ new).files _ = some new
          rw [move_files, Function.update_self]
        exact ⟨hnew, _, hnew, .inr (.inr rfl)⟩
      cases r with
      | ok => exact hremove bundle_apart.2.1.symm (.inr (.inr rfl))
      -- the rollback, after which there may be no bundle
      | error =>
          refine triple_bind (R := OrFailed (Credits.Kept none) fun _ => Credits.Kept (some old))
            (triple_rename (fun v e hv => ⟨hv.1, _, hv.1, .inr (.inl rfl)⟩)
              fun v content hv hcontent => ?_) fun r => ?_
          · obtain rfl : old = content := Option.some.inj (hv.2.2.symm.trans hcontent)
            have hold : Credits.Kept (some old)
                (v.move (resolve bundleBak) (resolve bundlePath) old) := by
              show (v.move _ _ old).files _ = some old
              rw [move_files, Function.update_self]
            exact ⟨hold, _, hold, .inl rfl⟩
          cases r with
          | error => exact hremove bundle_apart.1.symm (.inr (.inl rfl))
          | ok => exact hremove bundle_apart.1.symm (.inl rfl)

theorem triple_creditsPatchApply :
    Triple (Credits.Kept (γ := γ) before) (creditsPatchApply data)
      (fun _ v => PatchedTo data before (v.files (resolve bundlePath)))
      fun v => PatchedTo data before (v.files (resolve bundlePath)) := by
  refine triple_bind (triple_buildBundle.mono (fun _ hv => hv) (fun _ _ hv => hv) fun v hv =>
    .inl hv) fun r => ?_
  cases r with
  | false => exact triple_pure fun v hv => .inl hv
  | true =>
      have hpatched : ∀ {old : Bytes} {v : View γ}, before = some old → AcceptedBundle old →
          Swapped old (spliced data old) v →
            PatchedTo data before (v.files (resolve bundlePath)) := by
        rintro old v rfl haccepted ⟨after, hafter, hcases⟩
        rw [show v.files (resolve bundlePath) = after from hafter]
        rcases hcases with rfl | hcases
        · exact .inl rfl
        · exact .inr ⟨old, rfl, haccepted, hcases⟩
      refine Triple.pre (P := fun v => ∃ old, (before = some old ∧ AcceptedBundle old) ∧
        Built old (spliced data old) v)
        (.exists fun old => .assume fun h => ?_) fun v hv => by
          obtain ⟨old, hbefore, haccepted, hbuilt⟩ := hv
          exact ⟨old, ⟨hbefore, haccepted⟩, hbuilt⟩
      exact triple_swapBundles.mono (fun _ hv => hv) (fun _ v hv => hpatched h.1 h.2 hv) fun v hv =>
        hpatched h.1 h.2 hv

end Renames

/-! ## The patch -/

section Patch

variable {data : CreditsData}

/-- The bundle and its siblings. -/
def bundleFiles : Set Path := fun p => p = resolve bundlePath ∨ p = resolve bundleTmp ∨
    p = resolve bundleBak

/-- A patch of the credits, cut off or not. -/
structure Patching (data : CreditsData) (v v' : View Memory) : Prop where
  within : Within bundleFiles SameNotes v v'
  bundle : PatchedTo data (v.files (resolve bundlePath)) (v'.files (resolve bundlePath))
  refused : (∀ old, v.files (resolve bundlePath) = some old → ¬ AcceptedBundle old) →
    v'.files = v.files

/-- Where there is no bundle, none is built. -/
theorem spec_missing {w : World Memory} (hnone : w.fs.file (resolve bundlePath) = none) :
    Keeps (fun w' => w' = w) (creditsPatchApply data) := by
  refine spec_bind (R := fun r w' => r = false ∧ w' = w) ?_ fun built => .assume ?_
  · refine spec_bind (spec_operation_same (φ := fun st => st.size = 0) rfl fun st hst => ?_)
      fun r =>
      .assume fun hsize => ?_
    · unfold Fs.file at hnone
      split at hst
      · cases hst
      · rename_i hlookup
        rw [hlookup] at hnone
        cases hnone
      · rw [← Except.ok.inj hst]
    cases r with
    | error => exact spec_pure fun _ hw => ⟨rfl, hw⟩
    | ok st =>
        refine spec_ite (fun _ => spec_pure fun _ hw => ⟨rfl, hw⟩) fun _ => ?_
        refine spec_ite (fun _ => spec_pure fun _ hw => ⟨rfl, hw⟩) fun hold =>
          absurd (hsize st rfl) ?_
        rw [not_not.1 hold]
        decide
  · rintro rfl
    exact spec_pure fun _ hw => hw

theorem moves_creditsPatchApply :
    Moves (fun w w' => Patching data w.view w'.view) (creditsPatchApply data : Install Int) := by
  intro m
  refine ⟨stays_creditsPatchApply (.inl rfl) (.inr (.inl rfl)) (.inr (.inr rfl)) m, ?_,
    fun hrefused => ?_⟩
  · have hpatched : Triple (Credits.Kept (γ := Memory) (m.world.fs.file (resolve bundlePath)))
      (creditsPatchApply data)
        (fun _ v => PatchedTo data (m.world.fs.file (resolve bundlePath))
          (v.files (resolve bundlePath)))
        fun v => PatchedTo data (m.world.fs.file (resolve bundlePath))
          (v.files (resolve bundlePath)) :=
      triple_creditsPatchApply
    exact spec_always.1 hpatched m rfl
  · have hsame : Keeps (fun w => w = m.world) (creditsPatchApply data) := by
      cases hbundle : m.world.fs.file (resolve bundlePath) with
      | none => exact spec_missing hbundle
      | some old => exact keeps_refused hbundle (hrefused old hbundle)
    rw [spec_always.1 hsame m rfl]

end Patch

end Asnx.Installer
