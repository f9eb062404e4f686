import Asnx.FileBridge.Translate

/-!
# Aliases of one file

The spellings that the guest uses for one file lead to one path (`aliases_agree`). A path that
begins with one of the directories is translated by its directory, unless it has a marker of an APK
(`Plain`).
-/

namespace Asnx.FileBridge

open Files Searching
open Installer (dataRoot installApk)

variable {a b p r s x y dir rest : Bytes}

/-! ## Below a directory -/

/-- What is below a directory. -/
theorem below_eq_some : below dir p = some rest ↔ p = dir ++ rest ∧ endsHere rest = true := by
  unfold below
  rw [Option.filter_eq_some_iff, after_eq_some]

theorem below_append (hrest : endsHere rest = true) : below dir (dir ++ rest) = some rest :=
  below_eq_some.2 ⟨rfl, hrest⟩

/-- A path that differs from the directory is not below it. -/
theorem below_differ (h : Differ dir a) (b : Bytes) : below dir (a ++ b) = none := by
  unfold below
  rw [after_eq_none.2 (h.not_begins b)]
  rfl

theorem isAndroid_differ (hdata : Differ androidDataDir a)
    (hexternal : Differ androidExternalFilesDir a) (b : Bytes) : isAndroid (a ++ b) = false := by
  simp [isAndroid, below_differ hdata, below_differ hexternal]

/-! ## Paths without a marker -/

/-- Neither of the two markers of an APK is in the path. -/
def Unmarked (p : Bytes) : Prop := ¬ apkMarker <:+: p ∧ ¬ apkMarkerBang <:+: p

instance (p : Bytes) : Decidable (Unmarked p) := inferInstanceAs (Decidable (_ ∧ _))

theorem apkAssets_eq_none : apkAssets p = none ↔ Unmarked p := by
  unfold apkAssets Unmarked
  cases hmarker : strstr apkMarker p with
  | some found =>
      have hinside : apkMarker <:+: p := by
        by_contra hnot
        rw [strstr_none.2 hnot] at hmarker
        cases hmarker
      simp [hinside]
  | none => simp [strstr_none.1 hmarker, strstr_none]

/-- A path in which neither marker begins. -/
def Markerless (a : Bytes) : Prop := Apart apkMarker a ∧ Apart apkMarkerBang a

instance (a : Bytes) : Decidable (Markerless a) := inferInstanceAs (Decidable (_ ∧ _))

theorem Markerless.apkAssets (h : Markerless a) (b : Bytes) :
    apkAssets (a ++ b) = FileBridge.apkAssets b := by
  unfold FileBridge.apkAssets
  rw [h.1.strstr_append, h.2.strstr_append]

theorem Markerless.unmarked (h : Markerless a) : Unmarked (a ++ b) ↔ Unmarked b := by
  rw [← apkAssets_eq_none, h.apkAssets, apkAssets_eq_none]

/-- A rest of a path has no marker that the path does not have. -/
theorem Unmarked.of_suffix (h : Unmarked p) (hs : s <:+ p) : Unmarked s :=
  ⟨fun hmarker => h.1 (hmarker.trans hs.isInfix), fun hmarker => h.2 (hmarker.trans hs.isInfix)⟩

/-- The rest after a marker is shorter by more than the directory of the assets. -/
theorem apkAssets_length (h : apkAssets p = some rest) : rest.length + 12 ≤ p.length := by
  unfold apkAssets at h
  have hbound : ∀ marker found, 12 ≤ marker.length → strstr marker p = some found →
      (found.drop marker.length).length + 12 ≤ p.length := by
    intro marker found hmarker hfound
    obtain ⟨hsuffix, hbegins⟩ := strstr_some hfound
    have hle := hsuffix.length_le
    have hle' := hbegins.length_le
    rw [List.length_drop]
    omega
  split at h
  · rename_i found hfound
    cases h
    exact hbound apkMarker found (by decide) hfound
  · rw [Option.map_eq_some_iff] at h
    obtain ⟨found, hfound, rfl⟩ := h
    exact hbound apkMarkerBang found (by decide) hfound

/-! ## Paths that only the directories are about -/

/-- The directory of the processors. -/
def cpuDir : Bytes := bytes "/sys/devices/system/cpu/cpu"

/-- No path that begins with `a` is one of the system or the APK. -/
structure OffSystem (a : Bytes) : Prop where
  virtual : ∀ k ∈ virtualPaths, ¬ a <+: k
  capacity : Differ cpuDir a
  apk : ¬ a <+: installApk

/-- Nor is it one of an asset, but for a marker. -/
structure Plain (a : Bytes) : Prop extends OffSystem a where
  markerless : Markerless a
  rooted : Differ (bytes "/assets/") a
  relative : Differ (bytes "assets/") a

/-- A path that is none of the system's. -/
theorem systemPath_none (hvirtual : p ∉ virtualPaths) (hcapacity : ¬ cpuDir <+: p)
    (hapk : p ≠ installApk) : systemPath p = none := by
  unfold systemPath
  rw [if_neg hvirtual, if_neg, if_neg hapk]
  unfold isCpuCapacity
  simp only [decide_eq_true_eq]
  exact fun h => hcapacity h.1

theorem OffSystem.systemPath (h : OffSystem a) (b : Bytes) : systemPath (a ++ b) = none :=
  systemPath_none (fun hmem => h.virtual _ hmem (List.prefix_append a b))
    (h.capacity.not_begins b) fun hapk => h.apk (hapk ▸ List.prefix_append a b)

theorem Plain.assetPath (h : Plain a) (hb : Unmarked b) : assetPath (a ++ b) = none := by
  unfold FileBridge.assetPath
  rw [h.markerless.apkAssets, apkAssets_eq_none.2 hb, after_eq_none.2 (h.rooted.not_begins b)]
  exact if_neg (h.relative.not_begins b)

theorem plain_data : Plain androidDataDir :=
  ⟨⟨by decide, by decide, by decide⟩, by decide, by decide,
    by decide⟩

theorem plain_external : Plain androidExternalFilesDir :=
  ⟨⟨by decide, by decide, by decide⟩, by decide, by decide,
    by decide⟩

theorem plain_root : Plain dataRoot :=
  ⟨⟨by decide, by decide, by decide⟩, by decide, by decide,
    by decide⟩

theorem offSystem_rooted : OffSystem (bytes "/assets/") :=
  ⟨by decide, by decide, by decide⟩

theorem offSystem_relative : OffSystem (bytes "assets/") :=
  ⟨by decide, by decide, by decide⟩

/-- A path with a marker that is not one of the kernel's is none of the system's. -/
theorem systemPath_marked {marker : Bytes} (hmarker : marker.head? = some 46)
    (hnot : ∀ k ∈ installApk :: virtualPaths, ¬ marker <:+: k) (hy : ¬ bytes "/sys/" <+: y)
    (x : Bytes) : systemPath (y ++ (marker ++ x)) = none := by
  have hinside : marker <:+: y ++ (marker ++ x) := ⟨y, x, by simp⟩
  refine systemPath_none (fun hmem => hnot _ (List.mem_cons_of_mem _ hmem) hinside) ?_ ?_
  · intro hcpu
    have hsys : bytes "/sys/" <+: y ++ (marker ++ x) :=
      List.IsPrefix.trans (by decide : bytes "/sys/" <+: cpuDir) hcpu
    refine not_prefix_append hy (fun c hc => ?_) hsys
    rw [List.head?_append, hmarker] at hc
    obtain rfl : c = 46 := by simpa using hc.symm
    decide
  · rintro hapk
    exact hnot installApk List.mem_cons_self (hapk ▸ hinside)

/-- What the translation of such a path is. -/
theorem Plain.translation (h : Plain a) (hb : Unmarked b) :
    translation (a ++ b) = match androidPath (a ++ b) with
      | some out => (out, true)
      | none => (hostPath (a ++ b), decide (hostPath (a ++ b) ≠ a ++ b)) := by
  unfold FileBridge.translation
  rw [h.toOffSystem.systemPath, h.assetPath hb]
  cases androidPath (a ++ b) <;> rfl

/-! ## The directories of the guest -/

theorem differ_data_external : Differ androidDataDir androidExternalFilesDir := by decide

theorem differ_root_data : Differ dataRoot androidDataDir := by decide

theorem differ_root_external : Differ dataRoot androidExternalFilesDir := by decide

theorem differ_data_root : Differ androidDataDir dataRoot := by decide

theorem differ_external_root : Differ androidExternalFilesDir dataRoot := by decide

theorem isAndroid_data (hr : endsHere r = true) : isAndroid (androidDataDir ++ r) = true := by
  simp [isAndroid, below_append hr]

theorem isAndroid_external (hr : endsHere r = true) :
    isAndroid (androidExternalFilesDir ++ r) = true := by
  simp [isAndroid, below_append hr]

/-- A path that is not below `DATA_ROOT` is not stripped. -/
theorem strip_outside (h : below dataRoot p = none) : stripRuntimePrefixedAndroidPath p = p := by
  unfold stripRuntimePrefixedAndroidPath
  rw [h]

/-- What is below `DATA_ROOT` is stripped of it if it is a path of the guest. -/
theorem strip_root (hs : endsHere s = true) :
    stripRuntimePrefixedAndroidPath (dataRoot ++ s) =
      if isAndroid s then s else dataRoot ++ s := by
  unfold stripRuntimePrefixedAndroidPath
  rw [below_append hs]

/-- The directory of the data leads to `DATA_ROOT`. -/
theorem androidPath_data (hr : endsHere r = true)
    (hp : stripRuntimePrefixedAndroidPath p = androidDataDir ++ r) :
    androidPath p = some (dataRoot ++ r) := by
  unfold androidPath
  rw [hp, below_append hr]

/-- The external directory leads to the files below `DATA_ROOT`. -/
theorem androidPath_external (hr : endsHere r = true)
    (hp : stripRuntimePrefixedAndroidPath p = androidExternalFilesDir ++ r) :
    androidPath p = some (dataRoot ++ bytes "/files" ++ r) := by
  unfold androidPath
  rw [hp, below_differ differ_data_external, below_append hr]

/-- A path that begins with a slash goes on. -/
theorem endsHere_slash (p : Bytes) : endsHere (47 :: p) = true := by
  simp [endsHere]

/-! ## Aliases -/

/-- A buffer with room for the translation receives it. -/
theorem fileTranslate_fits {cap : Nat} {out : Bytes} {flag : Bool}
    (h : translation p = (out, flag)) (hfits : out.length < cap) :
    fileTranslate p cap = (some out, flag) := by
  have hcap : cap ≠ 0 := by omega
  rw [fileTranslate, if_neg hcap, h, List.take_of_length_le (by simp only; omega)]

/-- The two spellings of a file in the directory of the data. -/
theorem translation_data (hr : endsHere r = true) (hmarked : Unmarked r) :
    translation (androidDataDir ++ r) = (dataRoot ++ r, true) ∧
      translation (dataRoot ++ (androidDataDir ++ r)) = (dataRoot ++ r, true) := by
  have hends : endsHere (androidDataDir ++ r) = true := endsHere_slash _
  have hmarked' : Unmarked (androidDataDir ++ r) := plain_data.markerless.unmarked.2 hmarked
  rw [plain_data.translation hmarked, plain_root.translation hmarked',
    androidPath_data hr (strip_outside (below_differ differ_root_data r)), androidPath_data hr]
  · exact ⟨rfl, rfl⟩
  · rw [strip_root hends, if_pos (isAndroid_data hr)]

/-- The spellings of a file in the external directory. -/
theorem translation_external (hr : endsHere r = true) (hmarked : Unmarked r) :
    translation (androidExternalFilesDir ++ r) = (dataRoot ++ bytes "/files" ++ r, true) ∧
      translation (dataRoot ++ (androidExternalFilesDir ++ r)) =
        (dataRoot ++ bytes "/files" ++ r, true) := by
  have hends : endsHere (androidExternalFilesDir ++ r) = true := endsHere_slash _
  have hmarked' : Unmarked (androidExternalFilesDir ++ r) :=
    plain_external.markerless.unmarked.2 hmarked
  rw [plain_external.translation hmarked, plain_root.translation hmarked',
    androidPath_external hr (strip_outside (below_differ differ_root_external r)),
    androidPath_external hr]
  · exact ⟨rfl, rfl⟩
  · rw [strip_root hends, if_pos (isAndroid_external hr)]

/-- A path of an asset is translated as one. -/
theorem translation_asset {out : Bytes} (hsystem : systemPath p = none)
    (hasset : assetPath p = some out) : translation p = (out, true) := by
  unfold translation
  rw [hsystem, hasset]

/-- The spellings of an asset. -/
theorem translation_assets (hx : Unmarked x) (hy : Unmarked y) (hsys : ¬ bytes "/sys/" <+: y) :
    ∀ p ∈ [bytes "assets/" ++ x, bytes "/assets/" ++ x, y ++ (apkMarker ++ x),
      y ++ (apkMarkerBang ++ x)], translation p = (dataRoot ++ bytes "/assets/" ++ x, true) := by
  have hrelative : apkAssets (bytes "assets/" ++ x) = none := by
    have hmarkerless : Markerless (bytes "assets/") := by decide
    rw [hmarkerless.apkAssets, apkAssets_eq_none.2 hx]
  have hrooted : apkAssets (bytes "/assets/" ++ x) = none := by
    have hmarkerless : Markerless (bytes "/assets/") := by decide
    rw [hmarkerless.apkAssets, apkAssets_eq_none.2 hx]
  have hmarker : apkAssets (y ++ (apkMarker ++ x)) = some x := by
    have hhead : ∀ c ∈ (apkMarker ++ x).head?, c ∉ apkMarker.tail := by
      rintro c ⟨⟩
      decide
    unfold apkAssets
    rw [strstr_append_head hy.1 hhead, strstr_self (by decide)]
    simp
  have hbang : apkAssets (y ++ (apkMarkerBang ++ x)) = some x := by
    have hhead : ∀ c ∈ (apkMarkerBang ++ x).head?, c ∉ apkMarker.tail ∧ c ∉ apkMarkerBang.tail := by
      rintro c ⟨⟩
      decide
    have hapart : Apart apkMarker apkMarkerBang := by decide
    unfold apkAssets
    rw [strstr_append_head hy.1 fun c hc => (hhead c hc).1, hapart.strstr_append,
      strstr_none.2 hx.1, strstr_append_head hy.2 fun c hc => (hhead c hc).2,
      strstr_self (by decide)]
    simp
  intro p hp
  simp only [List.mem_cons, List.not_mem_nil, or_false] at hp
  rcases hp with rfl | rfl | rfl | rfl
  · refine translation_asset (offSystem_relative.systemPath x) ?_
    have hdiffer : Differ (bytes "/assets/") (bytes "assets/") := by decide
    unfold assetPath
    rw [hrelative, after_eq_none.2 (hdiffer.not_begins x)]
    simp only [List.prefix_append, if_true, Option.some.injEq]
    rfl
  · refine translation_asset (offSystem_rooted.systemPath x) ?_
    unfold assetPath
    rw [hrooted, after_eq_some.2 rfl]
  · refine translation_asset (systemPath_marked (by decide) (by decide) hsys x) ?_
    unfold assetPath
    rw [hmarker]
  · refine translation_asset (systemPath_marked (by decide) (by decide) hsys x) ?_
    unfold assetPath
    rw [hbang]

/-- The spellings of one file agree. -/
theorem aliases_agree (r x y : Bytes) (hr : r = [] ∨ r.head? = some 47) (hrmarked : Unmarked r)
    (hx : Unmarked x) (hy : Unmarked y) (hsys : ¬ bytes "/sys/" <+: y) (cap : Nat) :
    ((dataRoot ++ r).length < cap → ∀ p ∈ [androidDataDir ++ r, dataRoot ++ (androidDataDir ++ r)],
      fileTranslate p cap = (some (dataRoot ++ r), true)) ∧
    ((dataRoot ++ bytes "/files" ++ r).length < cap →
      ∀ p ∈ [androidExternalFilesDir ++ r, dataRoot ++ (androidExternalFilesDir ++ r),
        androidFilesDir ++ r],
      fileTranslate p cap = (some (dataRoot ++ bytes "/files" ++ r), true)) ∧
    ((dataRoot ++ bytes "/assets/" ++ x).length < cap →
      ∀ p ∈ [bytes "assets/" ++ x, bytes "/assets/" ++ x, y ++ (apkMarker ++ x),
        y ++ (apkMarkerBang ++ x)],
      fileTranslate p cap = (some (dataRoot ++ bytes "/assets/" ++ x), true)) := by
  have hends : endsHere r = true := by simpa [endsHere] using hr
  have hdata := translation_data hends hrmarked
  have hexternal := translation_external hends hrmarked
  have hfiles : translation (androidFilesDir ++ r) = (dataRoot ++ bytes "/files" ++ r, true) := by
    have hmarkerless : Markerless (bytes "/files") := by decide
    have hslash : endsHere (bytes "/files" ++ r) = true := endsHere_slash _
    have hinside := (translation_data hslash (hmarkerless.unmarked.2 hrmarked)).1
    simpa [androidFilesDir] using hinside
  refine ⟨fun hfits p hp => ?_, fun hfits p hp => ?_, fun hfits p hp => ?_⟩
  · simp only [List.mem_cons, List.not_mem_nil, or_false] at hp
    rcases hp with rfl | rfl
    · exact fileTranslate_fits hdata.1 hfits
    · exact fileTranslate_fits hdata.2 hfits
  · simp only [List.mem_cons, List.not_mem_nil, or_false] at hp
    rcases hp with rfl | rfl | rfl
    · exact fileTranslate_fits hexternal.1 hfits
    · exact fileTranslate_fits hexternal.2 hfits
    · exact fileTranslate_fits hfiles hfits
  · exact fileTranslate_fits (translation_assets hx hy hsys p hp) hfits

theorem aliases_agree_example :
    (∀ p ∈ [androidDataDir ++ bytes "/save", dataRoot ++ (androidDataDir ++ bytes "/save")],
      fileTranslate p 1024 = (some (dataRoot ++ bytes "/save"), true)) ∧
    ∀ p ∈ [bytes "assets/a", bytes "/assets/a", bytes "base.apk/assets/a",
      bytes "base.apk!/assets/a"],
      fileTranslate p 1024 = (some (dataRoot ++ bytes "/assets/a"), true) := by
  have hagree := aliases_agree (bytes "/save") (bytes "a") (bytes "base") (.inr (by decide))
    (by decide) (by decide) (by decide) (by decide) 1024
  exact ⟨hagree.1 (by decide), hagree.2.2 (by decide)⟩

end Asnx.FileBridge
