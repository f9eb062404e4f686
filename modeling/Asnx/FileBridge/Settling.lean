import Asnx.FileBridge.Aliases

/-!
# Translating a path twice

A path that `file_translate` has given is translated to itself if and only if the path that it comes
from `Settles`. What is left to decide is the same in every case: whether a path below `DATA_ROOT`
leads to itself (`translation_root`).
-/

namespace Asnx.FileBridge

open Files Searching
open Installer (dataRoot installApk)

variable {a b p r s x y dir rest : Bytes}

/-! ## Nested roots -/

/-- Another `DATA_ROOT` is below `DATA_ROOT`. -/
def isNestedRoot (s : Bytes) : Bool :=
  match after [47] s with
  | none => false
  | some nested => (below dataRoot nested).isSome

/-- One turn of the loop, from the path below the first root. -/
theorem collapse_root (turns : Nat) (s : Bytes) :
    collapse (turns + 1) (dataRoot ++ s) =
      match after [47] s with
      | none => dataRoot ++ s
      | some nested =>
          if (below dataRoot nested).isSome then collapse turns nested else dataRoot ++ s := by
  rw [collapse]
  cases hafter : after [47] s with
  | none =>
      have hnot : after (dataRoot ++ [47]) (dataRoot ++ s) = none := by
        rw [after_eq_none] at hafter ⊢
        rwa [List.prefix_append_right_inj]
      rw [hnot]
  | some nested =>
      have hsome : after (dataRoot ++ [47]) (dataRoot ++ s) = some nested := by
        rw [after_eq_some] at hafter ⊢
        rw [hafter, List.append_assoc]
      rw [hsome]

theorem collapse_suffix (turns : Nat) (p : Bytes) : collapse turns p <:+ p := by
  induction turns generalizing p with
  | zero => exact List.suffix_refl p
  | succ turns ih =>
      rw [collapse]
      split
      · exact List.suffix_refl p
      · rename_i nested hnested
        split
        · rw [after_eq_some] at hnested
          exact (ih nested).trans ⟨_, hnested.symm⟩
        · exact List.suffix_refl p

/-- A path that is not changed stays, one that is ends up below `DATA_ROOT`. -/
theorem collapse_below (turns : Nat) (p : Bytes) :
    collapse turns p = p ∨ (below dataRoot (collapse turns p)).isSome := by
  induction turns generalizing p with
  | zero => exact .inl rfl
  | succ turns ih =>
      rw [collapse]
      split
      · exact .inl rfl
      · rename_i nested hnested
        split
        · rename_i hroot
          rcases ih nested with hsame | hbelow
          · rw [hsame]
            exact .inr hroot
          · exact .inr hbelow
        · exact .inl rfl

/-- What is below `DATA_ROOT` is below it once. -/
theorem below_root_append (hs : below dataRoot (dataRoot ++ s) = some rest) : rest = s := by
  rw [below_eq_some] at hs
  exact ((List.append_right_inj _).1 hs.1).symm

/-- Enough turns leave no nested root. -/
theorem collapse_flat (turns : Nat) (hturns : p.length ≤ turns)
    (h : below dataRoot (collapse turns p) = some rest) : isNestedRoot rest = false := by
  have hlength : dataRoot.length = 35 := by decide
  induction turns generalizing p with
  | zero =>
      obtain rfl : p = [] := List.eq_nil_of_length_eq_zero (by omega)
      rw [collapse, below_eq_some] at h
      have hcontra := congrArg List.length h.1
      rw [List.length_append, List.length_nil] at hcontra
      omega
  | succ turns ih =>
      by_cases hroot : dataRoot <+: p
      · obtain ⟨s, rfl⟩ := hroot
        rw [collapse_root] at h
        unfold isNestedRoot
        cases hafter : after [47] s with
        | none =>
            rw [hafter] at h
            obtain rfl := below_root_append h
            rw [hafter]
        | some nested =>
            rw [hafter] at h
            by_cases hnested : (below dataRoot nested).isSome = true
            · simp only [hnested, if_true] at h
              refine ih ?_ h
              rw [after_eq_some] at hafter
              rw [hafter, List.length_append, List.length_append] at hturns
              simp only [List.length_singleton] at hturns
              omega
            · simp only [hnested] at h
              obtain rfl := below_root_append h
              rw [hafter]
              simpa using hnested
      · have hnone : after (dataRoot ++ [47]) p = none :=
          after_eq_none.2 fun hbegins => hroot ((List.prefix_append _ _).trans hbegins)
        rw [collapse, hnone] at h
        obtain ⟨rfl, -⟩ := below_eq_some.1 h
        exact absurd (List.prefix_append dataRoot rest) hroot

/-- A path below `DATA_ROOT` is its own host path if no other root is below it. -/
theorem hostPath_root : hostPath (dataRoot ++ s) = dataRoot ++ s ↔ isNestedRoot s = false := by
  have hlength : dataRoot.length = 35 := by decide
  obtain ⟨turns, hturns⟩ : ∃ turns, (dataRoot ++ s).length = turns + 1 :=
    ⟨(dataRoot ++ s).length - 1, by rw [List.length_append]; omega⟩
  unfold hostPath isNestedRoot
  rw [hturns, collapse_root]
  cases hafter : after [47] s with
  | none => simp
  | some nested =>
      by_cases hnested : (below dataRoot nested).isSome = true
      · simp only [hnested, if_true, Bool.true_eq_false, iff_false]
        intro hsame
        have hle := (collapse_suffix turns nested).length_le
        rw [after_eq_some] at hafter
        rw [hsame, hafter] at hle
        simp only [List.length_append, List.length_singleton] at hle
        omega
      · simp [hnested]

/-- A path that is not below `DATA_ROOT` is its own host path. -/
theorem hostPath_outside (h : ¬ dataRoot <+: p) : hostPath p = p := by
  unfold hostPath
  cases p.length with
  | zero => rfl
  | succ turns =>
      rw [collapse, after_eq_none.2 fun hbegins => h ((List.prefix_append _ _).trans hbegins)]

/-! ## Paths below the root -/

/-- A path of the guest is below one of its directories. -/
theorem isAndroid_cases (h : isAndroid s = true) :
    (∃ rest, s = androidDataDir ++ rest ∧ endsHere rest = true) ∨
      ∃ rest, s = androidExternalFilesDir ++ rest ∧ endsHere rest = true := by
  unfold isAndroid at h
  simp only [Option.isSome_iff_exists, below_eq_some, decide_eq_true_eq] at h
  exact h

/-- A path of the guest below the root is made shorter. -/
theorem translation_shortens (hs : endsHere s = true) (hmarked : Unmarked s)
    (handroid : isAndroid s = true) : (translation (dataRoot ++ s)).1.length <
      (dataRoot ++ s).length := by
  rcases isAndroid_cases handroid with ⟨rest, rfl, hrest⟩ | ⟨rest, rfl, hrest⟩
  · rw [(translation_data hrest (plain_data.markerless.unmarked.1 hmarked)).2]
    simp only [List.length_append, show androidDataDir.length = 37 from by decide]
    omega
  · rw [(translation_external hrest (plain_external.markerless.unmarked.1 hmarked)).2]
    simp only [List.length_append, show (bytes "/files").length = 6 from by decide,
      show androidExternalFilesDir.length = 65 from by decide]
    omega

/-- A path that is none of the guest's is not stripped. -/
theorem androidPath_root (hs : endsHere s = true) (handroid : isAndroid s = false) :
    androidPath (dataRoot ++ s) = none := by
  unfold androidPath
  rw [strip_root hs, handroid]
  simp only [Bool.false_eq_true, if_false]
  rw [below_differ differ_data_root, below_differ differ_external_root]

/-- A path below `DATA_ROOT` leads to itself if it has no marker, is not a path of the guest below
the root, and has no other root below it. -/
theorem translation_root (hs : endsHere s = true) :
    (translation (dataRoot ++ s)).1 = dataRoot ++ s ↔
      Unmarked s ∧ isAndroid s = false ∧ isNestedRoot s = false := by
  by_cases hmarked : Unmarked s
  · cases handroid : isAndroid s with
    | true =>
        have hlt := translation_shortens hs hmarked handroid
        simp only [Bool.true_eq_false, false_and, and_false, iff_false]
        intro hsame
        rw [hsame] at hlt
        exact Nat.lt_irrefl _ hlt
    | false =>
        rw [plain_root.translation hmarked, androidPath_root hs handroid]
        simp only [hmarked, true_and]
        exact hostPath_root
  · simp only [hmarked, false_and, iff_false]
    -- the rest after the marker is too short to be the path again
    cases hassets : apkAssets s with
    | none => exact absurd (apkAssets_eq_none.1 hassets) hmarked
    | some rest =>
        have hpath : assetPath (dataRoot ++ s) = some (dataRoot ++ bytes "/assets/" ++ rest) := by
          unfold assetPath
          rw [plain_root.markerless.apkAssets, hassets]
        rw [translation_asset (plain_root.toOffSystem.systemPath s) hpath]
        intro hsame
        have hlength := congrArg List.length hsame
        have hrest := apkAssets_length hassets
        simp only [List.length_append,
          show (bytes "/assets/").length = 8 from by decide] at hlength
        omega

/-! ## Paths that settle -/

/-- A path of the processors has no marker. What follows the first marker of an archive has no
other one. What is below the directory of the data is not a path of the guest again, and has no
root at its beginning. What is left below `DATA_ROOT` without nested roots is not a path of the
guest. -/
structure Settles (p : Bytes) : Prop where
  capacity : isCpuCapacity p = true → Unmarked p
  archive : isCpuCapacity p = false → ∀ rest, apkAssets p = some rest → Unmarked rest
  data : Unmarked p → ∀ rest, below androidDataDir (stripRuntimePrefixedAndroidPath p) = some rest →
    isAndroid rest = false ∧ isNestedRoot rest = false
  nested : Unmarked p → isAndroid (stripRuntimePrefixedAndroidPath p) = false →
    ∀ rest, below dataRoot (hostPath p) = some rest → isAndroid rest = false

/-- A path that begins unlike all the directories settles if it is not one of the processors' and
has no second marker. -/
theorem settles_apart (hroot : ¬ dataRoot <+: p) (hdata : ¬ androidDataDir <+: p) :
    Settles p ↔ (isCpuCapacity p = true → Unmarked p) ∧
      (isCpuCapacity p = false → ∀ rest, apkAssets p = some rest → Unmarked rest) := by
  have hroot' : below dataRoot p = none := by
    simp [below, after_eq_none.2 hroot]
  have hdata' : below androidDataDir p = none := by
    simp [below, after_eq_none.2 hdata]
  refine ⟨fun h => ⟨h.capacity, h.archive⟩, fun h => ⟨h.1, h.2, fun _ rest hrest => ?_,
    fun _ _ rest hrest => ?_⟩⟩
  · rw [strip_outside hroot', hdata'] at hrest
    cases hrest
  · rw [hostPath_outside hroot, hroot'] at hrest
    cases hrest

/-- What holds of the paths that have a file of their own name, and of the APK. -/
theorem system_paths : ∀ k ∈ installApk :: virtualPaths,
    Unmarked k ∧ ¬ dataRoot <+: k ∧ ¬ androidDataDir <+: k := by
  decide

theorem virtual_paths : ∀ k ∈ virtualPaths,
    endsHere k = true ∧ isAndroid k = false ∧ isNestedRoot k = false := by
  decide

/-- A path without a marker that begins unlike all the directories settles. -/
theorem Unmarked.settles (h : Unmarked p) (hroot : ¬ dataRoot <+: p)
    (hdata : ¬ androidDataDir <+: p) : Settles p := by
  refine (settles_apart hroot hdata).2 ⟨fun _ => h, fun _ rest hrest => ?_⟩
  rw [apkAssets_eq_none.2 h] at hrest
  cases hrest

/-- A path of a processor begins unlike the directories. -/
theorem isCpuCapacity_cases (h : isCpuCapacity p = true) : ∃ t, p = cpuDir ++ t := by
  unfold isCpuCapacity at h
  simp only [decide_eq_true_eq] at h
  obtain ⟨t, ht⟩ := h.1
  exact ⟨t, ht.symm⟩

/-- A path of the system settles with its translation. -/
theorem settles_system {out : Bytes} (h : systemPath p = some out) :
    (translation out).1 = out ↔ Settles p := by
  unfold systemPath at h
  split at h
  · rename_i hvirtual
    cases h
    obtain ⟨hmarked, hroot, hdata⟩ := system_paths p (List.mem_cons_of_mem _ hvirtual)
    obtain ⟨hends, handroid, hnested⟩ := virtual_paths p hvirtual
    rw [translation_root hends]
    exact ⟨fun _ => hmarked.settles hroot hdata, fun _ => ⟨hmarked, handroid, hnested⟩⟩
  · split at h
    · rename_i hcapacity
      cases h
      obtain ⟨t, rfl⟩ := isCpuCapacity_cases hcapacity
      have hnested : isNestedRoot (cpuDir ++ t) = false := by
        have hafter : after [47] (cpuDir ++ t) = some (bytes "sys/devices/system/cpu/cpu" ++ t) :=
          after_eq_some.2 rfl
        unfold isNestedRoot
        rw [hafter]
        simp only [below_differ (by decide : Differ dataRoot (bytes
          "sys/devices/system/cpu/cpu")) t, Option.isSome_none]
      have hends : endsHere (cpuDir ++ t) = true := endsHere_slash _
      rw [translation_root hends,
        settles_apart ((by decide : Differ dataRoot cpuDir).not_begins t)
          ((by decide : Differ androidDataDir cpuDir).not_begins t)]
      simp [hcapacity, hnested, isAndroid_differ (by decide : Differ androidDataDir cpuDir)
        (by decide : Differ androidExternalFilesDir cpuDir) t]
    · split at h
      · rename_i hapk
        cases h
        obtain ⟨hmarked, hroot, hdata⟩ := system_paths installApk List.mem_cons_self
        have hempty := translation_root (s := []) (by decide)
        rw [List.append_nil] at hempty
        rw [hapk, hempty]
        exact ⟨fun _ => hmarked.settles hroot hdata, fun _ => by decide⟩
      · cases h

/-- A path that is none of the system's is not one of a processor's. -/
theorem systemPath_capacity (h : systemPath p = none) : isCpuCapacity p = false := by
  unfold systemPath at h
  split at h
  · cases h
  · split at h
    · cases h
    · rename_i hnot
      simpa using hnot

/-- A path below the directory of the assets leads to itself if it has no marker. -/
theorem translation_assetDir (rest : Bytes) :
    (translation (dataRoot ++ (bytes "/assets/" ++ rest))).1 =
        dataRoot ++ (bytes "/assets/" ++ rest) ↔ Unmarked rest := by
  have hmarkerless : Markerless (bytes "/assets/") := by decide
  have hnested : isNestedRoot (bytes "/assets/" ++ rest) = false := by
    have hafter : after [47] (bytes "/assets/" ++ rest) = some (bytes "assets/" ++ rest) :=
      after_eq_some.2 rfl
    unfold isNestedRoot
    rw [hafter]
    simp only [below_differ (by decide : Differ dataRoot (bytes "assets/")) rest,
      Option.isSome_none]
  have handroid : isAndroid (bytes "/assets/" ++ rest) = false :=
    isAndroid_differ (by decide) (by decide) rest
  have hends : endsHere (bytes "/assets/" ++ rest) = true := endsHere_slash _
  rw [translation_root hends, hmarkerless.unmarked]
  simp [hnested, handroid]

/-- A path of an asset settles with its translation. -/
theorem settles_asset {out : Bytes} (hsystem : systemPath p = none) (h : assetPath p = some out) :
    (translation out).1 = out ↔ Settles p := by
  have hcapacity := systemPath_capacity hsystem
  unfold assetPath at h
  cases hassets : apkAssets p with
  | some rest =>
      rw [hassets] at h
      cases h
      have hmarked : ¬ Unmarked p := fun hnot => by
        rw [apkAssets_eq_none.2 hnot] at hassets
        cases hassets
      rw [List.append_assoc, translation_assetDir]
      refine ⟨fun hrest => ⟨fun h => ?_, fun _ rest' hrest' => ?_, fun h => absurd h hmarked,
        fun h => absurd h hmarked⟩, fun h => h.archive hcapacity rest hassets⟩
      · rw [hcapacity] at h
        cases h
      · obtain rfl := Option.some.inj (hassets.symm.trans hrest')
        exact hrest
  | none =>
      have hmarked : Unmarked p := apkAssets_eq_none.1 hassets
      rw [hassets] at h
      cases hafter : after (bytes "/assets/") p with
      | some rest =>
          rw [hafter] at h
          cases h
          rw [after_eq_some] at hafter
          rw [List.append_assoc, translation_assetDir]
          refine ⟨fun _ => hmarked.settles ?_ ?_, fun _ => hmarked.of_suffix ⟨_, hafter.symm⟩⟩
          · rw [hafter]
            exact (by decide : Differ dataRoot (bytes "/assets/")).not_begins rest
          · rw [hafter]
            exact (by decide : Differ androidDataDir (bytes "/assets/")).not_begins rest
      | none =>
          rw [hafter] at h
          simp only [Option.ite_none_right_eq_some, Option.some.injEq] at h
          obtain ⟨⟨rest, rfl⟩, rfl⟩ := h
          have hsame : dataRoot ++ bytes "/" ++ (bytes "assets/" ++ rest) =
              dataRoot ++ (bytes "/assets/" ++ rest) := by
            rw [List.append_assoc]
            rfl
          rw [hsame, translation_assetDir]
          refine ⟨fun _ => hmarked.settles ?_ ?_, fun _ => hmarked.of_suffix ⟨_, rfl⟩⟩
          · exact (by decide : Differ dataRoot (bytes "assets/")).not_begins rest
          · exact (by decide : Differ androidDataDir (bytes "assets/")).not_begins rest

/-- A path that is not one of an asset has no marker. -/
theorem assetPath_unmarked (h : assetPath p = none) : Unmarked p := by
  rw [← apkAssets_eq_none]
  unfold assetPath at h
  cases hassets : apkAssets p with
  | none => rfl
  | some rest =>
      rw [hassets] at h
      cases h

theorem strip_suffix (p : Bytes) : stripRuntimePrefixedAndroidPath p <:+ p := by
  unfold stripRuntimePrefixedAndroidPath
  split
  · exact List.suffix_refl p
  · rename_i nested hnested
    split
    · exact ⟨_, (below_eq_some.1 hnested).1.symm⟩
    · exact List.suffix_refl p

/-- A path below one of the directories of the guest settles with its translation. -/
theorem settles_android {out : Bytes} (hsystem : systemPath p = none) (hasset : assetPath p = none)
    (h : androidPath p = some out) : (translation out).1 = out ↔ Settles p := by
  have hcapacity := systemPath_capacity hsystem
  have hmarked := assetPath_unmarked hasset
  have hstrip := hmarked.of_suffix (strip_suffix p)
  have hassets := apkAssets_eq_none.2 hmarked
  -- nothing but the clause about the directory of the data is left
  have hsettles : isAndroid (stripRuntimePrefixedAndroidPath p) = true →
      (Settles p ↔ ∀ rest, below androidDataDir (stripRuntimePrefixedAndroidPath p) = some rest →
        isAndroid rest = false ∧ isNestedRoot rest = false) := by
    intro handroid
    refine ⟨fun h => h.data hmarked, fun h => ⟨fun _ => hmarked, fun _ rest hrest => ?_,
      fun _ => h, fun _ hnot => ?_⟩⟩
    · rw [hassets] at hrest
      cases hrest
    · rw [handroid] at hnot
      cases hnot
  unfold androidPath at h
  cases hdata : below androidDataDir (stripRuntimePrefixedAndroidPath p) with
  | some rest =>
      rw [hdata] at h
      cases h
      obtain ⟨hpath, hends⟩ := below_eq_some.1 hdata
      have hrest : Unmarked rest := hstrip.of_suffix ⟨_, hpath.symm⟩
      rw [translation_root hends, hsettles (by rw [hpath]; exact isAndroid_data hends), hdata]
      refine ⟨fun h rest' hrest' => ?_, fun h => ⟨hrest, h rest rfl⟩⟩
      obtain rfl := Option.some.inj hrest'
      exact h.2
  | none =>
      rw [hdata] at h
      cases hexternal : below androidExternalFilesDir (stripRuntimePrefixedAndroidPath p) with
      | none =>
          rw [hexternal] at h
          cases h
      | some rest =>
          rw [hexternal] at h
          cases h
          obtain ⟨hpath, hends⟩ := below_eq_some.1 hexternal
          have hrest : Unmarked rest := hstrip.of_suffix ⟨_, hpath.symm⟩
          have hmarkerless : Markerless (bytes "/files") := by decide
          have handroid : isAndroid (bytes "/files" ++ rest) = false :=
            isAndroid_differ (by decide) (by decide) rest
          have hnested : isNestedRoot (bytes "/files" ++ rest) = false := by
            have hafter : after [47] (bytes "/files" ++ rest) = some (bytes "files" ++ rest) :=
              after_eq_some.2 rfl
            unfold isNestedRoot
            rw [hafter]
            simp only [below_differ (by decide : Differ dataRoot (bytes "files")) rest,
              Option.isSome_none]
          have hfiles : endsHere (bytes "/files" ++ rest) = true := endsHere_slash _
          rw [List.append_assoc, translation_root hfiles,
            hsettles (by rw [hpath]; exact isAndroid_external hends), hdata]
          exact ⟨fun _ _ hnone => (nomatch hnone),
            fun _ => ⟨hmarkerless.unmarked.2 hrest, handroid, hnested⟩⟩

/-- A path that is not translated by its directory is none of the guest's when it is stripped. -/
theorem androidPath_none (h : androidPath p = none) :
    isAndroid (stripRuntimePrefixedAndroidPath p) = false := by
  unfold androidPath at h
  unfold isAndroid
  split at h
  · cases h
  · rename_i hdata
    split at h
    · cases h
    · rename_i hexternal
      simp [hdata, hexternal]

/-- Any other path settles with its translation. -/
theorem settles_host (hsystem : systemPath p = none) (hasset : assetPath p = none)
    (h : androidPath p = none) : (translation (hostPath p)).1 = hostPath p ↔ Settles p := by
  have hcapacity := systemPath_capacity hsystem
  have hmarked := assetPath_unmarked hasset
  have handroid := androidPath_none h
  -- nothing but the clause about nested roots is left
  have hsettles : Settles p ↔
      ∀ rest, below dataRoot (hostPath p) = some rest → isAndroid rest = false := by
    refine ⟨fun h => h.nested hmarked handroid, fun h => ⟨fun _ => hmarked, fun _ rest hrest => ?_,
      fun _ rest hrest => ?_, fun _ _ => h⟩⟩
    · rw [apkAssets_eq_none.2 hmarked] at hrest
      cases hrest
    · have hsome : isAndroid (stripRuntimePrefixedAndroidPath p) = true := by
        simp [isAndroid, hrest]
      rw [handroid] at hsome
      cases hsome
  rw [hsettles]
  rcases collapse_below p.length p with hsame | hbelow
  · -- a path that is not collapsed is translated as before
    have hsame : hostPath p = p := hsame
    rw [hsame]
    refine ⟨fun _ rest hrest => ?_, fun _ => ?_⟩
    · obtain ⟨rfl, hends⟩ := below_eq_some.1 hrest
      rw [strip_root hends] at handroid
      split at handroid
      · rename_i hrest
        rw [handroid] at hrest
        cases hrest
      · rename_i hrest
        simpa using hrest
    · simp [translation, hsystem, hasset, h, hsame]
  · obtain ⟨rest, hrest⟩ := Option.isSome_iff_exists.1 hbelow
    have hflat := collapse_flat p.length (Nat.le_refl _) hrest
    obtain ⟨hpath, hends⟩ := below_eq_some.1 hrest
    have hpath : hostPath p = dataRoot ++ rest := hpath
    have hsuffix : hostPath p <:+ p := collapse_suffix p.length p
    rw [hpath] at hsuffix ⊢
    have hrest : Unmarked rest :=
      (hmarked.of_suffix hsuffix).of_suffix (List.suffix_append dataRoot rest)
    rw [translation_root hends]
    refine ⟨fun h rest' hrest' => ?_, fun h => ⟨hrest, h rest (below_append hends), hflat⟩⟩
    obtain rfl := below_root_append hrest'
    exact h.2.1

/-- Translating twice is translating once, just for the paths that settle. -/
theorem translation_idempotent_iff (p : Bytes) :
    (translation (translation p).1).1 = (translation p).1 ↔ Settles p := by
  cases hsystem : systemPath p with
  | some out =>
      have hout : (translation p).1 = out := by simp [translation, hsystem]
      rw [hout]
      exact settles_system hsystem
  | none =>
      cases hasset : assetPath p with
      | some out =>
          rw [translation_asset hsystem hasset]
          exact settles_asset hsystem hasset
      | none =>
          cases handroid : androidPath p with
          | some out =>
              have hout : (translation p).1 = out := by
                simp [translation, hsystem, hasset, handroid]
              rw [hout]
              exact settles_android hsystem hasset handroid
          | none =>
              have hout : (translation p).1 = hostPath p := by
                simp [translation, hsystem, hasset, handroid]
              rw [hout]
              exact settles_host hsystem hasset handroid

/-- `file_translate` gives a path that it has given again, just when the first path settles. -/
theorem translate_idempotent_iff {p out : Bytes} {cap : Nat}
    (hfits : (translation p).1.length < cap)
    (hagain : (translation out).1.length < cap) (hout : (fileTranslate p cap).1 = some out) :
    (fileTranslate out cap).1 = some out ↔ Settles p := by
  rw [fileTranslate_fits (rfl : translation p = ((translation p).1, (translation p).2))
    hfits] at hout
  cases hout
  rw [fileTranslate_fits (rfl : translation _ = ((translation _).1, (translation _).2)) hagain,
    Option.some.injEq]
  exact translation_idempotent_iff p

theorem translate_idempotent_iff_example : ∃ out,
    (fileTranslate (androidFilesDir ++ bytes "/save") 1024).1 = some out ∧
    ((fileTranslate out 1024).1 = some out ↔ Settles (androidFilesDir ++ bytes "/save")) :=
  ⟨dataRoot ++ bytes "/files/save", by decide,
    translate_idempotent_iff (by decide) (by decide) (by decide)⟩

/-- A second translation of the path leads elsewhere. -/
def Moves (p : Bytes) : Prop :=
  ∃ out, (fileTranslate p 1024).1 = some out ∧ (fileTranslate out 1024).1 ≠ some out

/-- A path moves if the translation of its translation is another. -/
theorem moves_of_translation {p : Bytes} (h : (fileTranslate p 1024).1 = some (translation p).1 ∧
    (fileTranslate (translation p).1 1024).1 ≠ some (translation p).1) : Moves p := ⟨_, h⟩

/-- A path with two markers, a path below the directory of the data that is nested in itself, and a
path of the guest below two roots are translated to paths that lead elsewhere. -/
theorem translate_not_idempotent : Moves (bytes "x.apk/assets/y.apk/assets/z") ∧
    Moves (androidDataDir ++ (androidDataDir ++ bytes "/x")) ∧
    Moves (dataRoot ++ (bytes "/" ++ (dataRoot ++ (androidDataDir ++ bytes "/x")))) := by
  refine ⟨moves_of_translation ?_, moves_of_translation ?_, moves_of_translation ?_⟩
  · decide
  · decide
  · decide

end Asnx.FileBridge
