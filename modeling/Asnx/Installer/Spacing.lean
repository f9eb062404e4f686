import Asnx.Installer.Copying
import Asnx.Installer.Marking
import Asnx.Installer.Planning

/-!
# The space plan bounds the peak

While the selected entries are extracted and the caches are copied, the files together never hold
more over what they held before than `build_install_space_plan` asks for without its reserve,
whatever fails and whenever the power is lost (`space_plan_bounds`). This is so where the entries
that are extracted to the file of a cached resource are those that `cache_target_for_apk_entry`
knows by name.
-/

namespace Asnx.Installer

open Interrupted Files Room Zlib

/-! ## Extracting and copying -/

/-- The resource that `seed_english_localization_cache` copies, and its cache. -/
def englishCacheFile : Bytes × Bytes :=
  (inDataRoot englishName, inDataRoot (bytes "files/downloaded/live_English.bytes"))

/-- The copies, each of a resource to its cache. -/
def cachePairs : List (Bytes × Bytes) := il2cppCacheFiles ++ [englishCacheFile]

/-- What the plan is for: the selected entries are extracted, and the caches are copied. -/
def extractAndCopy (Z : Inflater) (rounds : Nat) (z : ZipArchive) : Install Bool := do
  let (ok, _) ← zipVisit z (installVisitor Z rounds) ⟨0, []⟩
  if !ok then pure false
  else if !(← copyCaches rounds il2cppCacheFiles) then pure false
  else seedEnglishLocalizationCache rounds

/-- The entries that are extracted to the file of a cached resource are known by their names. -/
def CachedByName (es : List ZipEntry) : Prop :=
  ∀ e ∈ es, ∀ target, (installEntryTarget e).target = some target → ∀ pair ∈ cachePairs,
    resolve target = resolve pair.1 → cacheTargetForApkEntry e.name = some pair.2

/-- Each selected entry decompresses to as many bytes as it declares. -/
def Honest (decode : Bytes → Option Bytes) (apk : Bytes) (es : List ZipEntry) : Prop :=
  ∀ e ∈ es, ∀ target, (installEntryTarget e).target = some target →
    ∃ content, entryBytes decode apk e = some content ∧ content.length = e.usize

/-- The files hold at most `room` more than at the start. -/
def Fits (start : Path → Nat) (room : Nat) : Assertion :=
  fun files _ => ∀ S : Finset Path, held S (sizes files) ≤ held S start + room

section Replacements

variable {start : Path → Nat} {files files₀ : Contents} {notes : List Note} {target content : Bytes}
  {allowed : Bytes → Prop} {done ws : List (Path × Nat)} {n room room' peak : Nat}

theorem sizes_update (files : Contents) (p q : Path) (content : Option Bytes) :
    sizes (Function.update files p content) q = if q =
      p then (content.getD []).length else sizes files q := by
  unfold sizes
  rw [Function.update_apply]
  split <;> rfl

theorem Fits.mono (h : Fits start room files notes) (hle : room ≤ room') :
    Fits start room' files notes :=
  fun S => Nat.le_trans (h S) (Nat.add_le_add_left hle _)

theorem fits_of_grown (h : Grown start done (sizes files)) (hws : done <+: ws) :
    Fits start (totalGrowth start ws + peak) files notes := fun S =>
  Nat.le_trans (held_le_of_grown h hws S) (Nat.add_le_add_left (Nat.le_add_right _ _) _)

/-- A replacement that has been made. -/
theorem Replaced.grown (h : Replaced files₀ target content files notes)
    (hlength : content.length ≤ n)
    (hgrown : Grown start done (sizes files₀)) : Grown start (done ++ [(resolve target, n)])
    (sizes files) := by
  obtain rfl : files = _ := h
  refine hgrown.replace ?_ fun p hp => ?_
  · rw [sizes_update, if_pos rfl]
    exact hlength
  · rw [sizes_update, if_neg hp, sizes_update]
    split
    · exact Nat.zero_le _
    · exact Nat.le_refl _

/-- A replacement that is being made. -/
theorem Underway.fits (h : Underway files₀ target allowed files notes)
    (hallowed : ∀ c, allowed c → c.length ≤ n)
    (hgrown : Grown start done (sizes files₀)) (hws : done ++ [(resolve target, n)] <+: ws)
    (hcovers : Covers start ws peak) : Fits start (totalGrowth start ws + peak) files notes := by
  rcases h with ⟨sibling, old, rfl, hsibling, hold⟩ | ⟨content, hcontent, hreplaced⟩
  · have hgrowing : Growing start done (resolve target, n) (resolve (tmpOf target))
        (sizes (Function.update (Function.update files₀ (resolve (tmpOf target)) sibling)
          (resolve target) old)) := by
      intro p
      by_cases htarget : p = resolve target
      · refine .inl ((hgrown p).of_le ?_)
        rw [sizes_update, if_pos htarget, htarget]
        rcases hold with rfl | rfl
        · exact Nat.zero_le _
        · exact Nat.le_refl _
      by_cases htmp : p = resolve (tmpOf target)
      · cases sibling with
        | none =>
            refine .inl ((hgrown p).of_le ?_)
            rw [sizes_update, if_neg htarget, sizes_update, if_pos htmp]
            exact Nat.zero_le _
        | some c =>
            rcases hsibling c rfl with hc | hc
            · refine .inr ⟨htmp, ?_⟩
              rw [sizes_update, if_neg htarget, sizes_update, if_pos htmp]
              exact hallowed c hc
            · refine .inl ((hgrown p).of_le ?_)
              rw [sizes_update, if_neg htarget, sizes_update, if_pos htmp, htmp]
              unfold sizes
              rw [hc]
      · refine .inl ((hgrown p).of_le ?_)
        rw [sizes_update, if_neg htarget, sizes_update, if_neg htmp]
    have hlast : (resolve target, n) ∈ ws := hws.subset (by simp)
    exact held_le_of_growing hgrowing hws (hcovers _ hlast)
  · exact fits_of_grown (hreplaced.grown (hallowed content hcontent) hgrown) hws

end Replacements

/-! ## The extraction -/

section Extractions

variable {Z : Inflater} {decode : Bytes → Option Bytes} {apk : Bytes} {start : Path → Nat}
  {all es : List ZipEntry} {e : ZipEntry} {target : Bytes} {peak rounds : Nat}

/-- The entries `es` of `game.apk` have been extracted. -/
def Unpacking (start : Path → Nat) (apk : Bytes) (all es : List ZipEntry) : Assertion :=
    fun files _ =>
  files (resolve installApk) = some apk ∧ es <+: all ∧ Grown start (payloadWrites es) (sizes files)

theorem payloadWrites_le (h : es <+: all) : payloadWrites es <+: payloadWrites all := by
  obtain ⟨rest, rfl⟩ := h
  unfold payloadWrites
  rw [List.filterMap_append]
  exact List.prefix_append _ _

theorem Unpacking.fits {files : Contents} {notes : List Note}
    (h : Unpacking start apk all es files notes) :
    Fits start (totalGrowth start (payloadWrites all) + peak) files notes :=
  fits_of_grown h.2.2 (payloadWrites_le h.2.1)

theorem payloadWrite_of_target (h : (installEntryTarget e).target = some target) :
    payloadWrite e = some (resolve target, e.usize) := by
  unfold payloadWrite
  rw [h]
  rfl

theorem payloadWrites_snoc_of_target (h : (installEntryTarget e).target = some target) :
    payloadWrites (es ++ [e]) = payloadWrites es ++ [(resolve target, e.usize)] := by
  rw [payloadWrites_snoc, payloadWrite_of_target h]
  rfl

/-- On the way the sibling does not hold more than the entry declares. -/
theorem extractable_length (hgradual : Z.Gradual decode) {content part : Bytes}
    (hbytes : entryBytes decode apk e = some content) (h : Extractable Z apk e part) :
    part.length ≤ content.length := by
  unfold entryBytes at hbytes
  dsimp only at hbytes
  unfold Extractable at h
  split at h
  · rename_i hstored
    rw [if_pos hstored] at hbytes
    split at hbytes
    · rw [← Option.some.inj hbytes]
      exact h.length_le
    · cases hbytes
  · rename_i hdeflated
    rw [if_neg hdeflated] at hbytes
    rcases h with rfl | h
    · exact Nat.zero_le _
    · exact (hgradual _ _ _ hbytes h).length_le

/-- `extract_entry` has room. -/
theorem triple_extractEntry_fits (hcovers : Covers start (payloadWrites all) peak)
    (hall : es ++ [e] <+: all)
    (htarget : (installEntryTarget e).target = some target)
    (hsize : ∀ c, Extractable Z apk e c → c.length ≤ e.usize) {fp : InFile}
    (hpath : fp.path = resolve installApk) :
    Triple (At (Unpacking start apk all es)) (extractEntry Z rounds fp e target)
      (fun r v => r.2.path = resolve installApk ∧
        if r.1 then At (Unpacking start apk all (es ++ [e])) v
        else At (Fits start (totalGrowth start (payloadWrites all) + peak)) v)
      (At (Fits start (totalGrowth start (payloadWrites all) + peak))) := by
  have hapart : resolve installApk ≠ resolve target := fun hp =>
    not_takes_installApk ⟨target, htarget, .inl hp⟩
  have hsibling : resolve installApk ≠ resolve (tmpOf target) := fun hp =>
    not_takes_installApk ⟨target, htarget, .inr hp⟩
  have hyields : EntryYields Z apk e fun _ => True :=
    ⟨fun _ _ => trivial, fun _ _ _ _ _ _ _ _ _ _ _ _ _ => trivial⟩
  refine Triple.pre (P := fun v => ∃ files₀ notes₀, Unpacking start apk all es files₀ notes₀ ∧
    At (Exactly files₀ notes₀) v) (.exists fun files₀ => .exists fun notes₀ =>
      .assume fun hunpacking => ?_)
    fun v hv => ⟨v.files, v.rest.notes, hv, rfl, rfl⟩
  obtain ⟨hapk, hes, hgrown⟩ := hunpacking
  have hws : payloadWrites es ++ [(resolve target, e.usize)] <+: payloadWrites all := by
    rw [← payloadWrites_snoc_of_target htarget]
    exact payloadWrites_le hall
  have hfits : ∀ v : View Memory, At (Underway files₀ target (Extractable Z apk e)) v →
      At (Fits start (totalGrowth start (payloadWrites all) + peak)) v := fun v hv =>
    Underway.fits hv hsize hgrown hws hcovers
  refine (triple_extractEntry rounds target hyields (hpath ▸ hsibling) (hpath ▸ hapk)).mono
    (fun _ hv => hv) ?_
    fun v hv => hfits v hv.1
  rintro ⟨ok, fp'⟩ v ⟨hpath', hv⟩
  refine ⟨hpath'.trans hpath, ?_⟩
  cases ok with
  | false => exact hfits v hv.1
  | true =>
      obtain ⟨content, hpassed, -, hreplaced⟩ := hv
      refine ⟨?_, hall, ?_⟩
      · rw [show v.files = _ from hreplaced, Function.update_of_ne hapart,
          Function.update_of_ne hsibling, hapk]
      · rw [payloadWrites_snoc_of_target htarget]
        exact Replaced.grown hreplaced (Nat.le_of_eq hpassed.size) hgrown

/-- `install_visitor` has room. -/
theorem triple_installVisitor_fits (hgradual : Z.Gradual decode) (hhonest : Honest decode apk all)
    (hcovers : Covers start (payloadWrites all) peak) (hall : es ++ [e] <+: all) {fp : InFile}
    (hpath : fp.path = resolve installApk) (state : InstallState) :
    Triple (At (Unpacking start apk all es)) (installVisitor Z rounds fp e state)
      (fun r v => r.2.1.path = resolve installApk ∧
        if r.1 then At (Unpacking start apk all (es ++ [e])) v
        else At (Fits start (totalGrowth start (payloadWrites all) + peak)) v)
      (At (Fits start (totalGrowth start (payloadWrites all) + peak))) := by
  unfold installVisitor
  cases hselection : installEntryTarget e with
  | error m =>
      refine triple_bind (triple_fails (P := Unpacking start apk all es)) fun r =>
        triple_pure fun v hv => ⟨hpath, ?_⟩
      rw [hv.1]
      exact Unpacking.fits hv.2
  | skip =>
      refine triple_pure fun v hv => ⟨hpath, hv.1, hall, ?_⟩
      have hnone : payloadWrites (es ++ [e]) = payloadWrites es := by
        rw [payloadWrites_snoc, payloadWrite, hselection]
        exact List.append_nil _
      rw [hnone]
      exact hv.2.2
  | select target required =>
      have htarget : (installEntryTarget e).target = some target := by
        rw [hselection]
        rfl
      obtain ⟨content, hbytes, hlength⟩ := hhonest e (hall.subset (by simp)) target htarget
      refine triple_bind (triple_extractEntry_fits hcovers hall htarget
        (fun c hc => hlength ▸ extractable_length hgradual hbytes hc) hpath) ?_
      rintro ⟨ok, fp'⟩
      cases ok with
      | false => exact triple_pure fun v hv => hv
      | true => exact triple_pure fun v hv => hv

/-- Extracting the selected entries has room. -/
theorem triple_install_fits (hgradual : Z.Gradual decode) (rounds : Nat) {z : ZipArchive}
    (hpath : z.fp.path = resolve installApk)
    (hes : centralEntries apk z.cdOffset z.entries = some all)
    (hhonest : Honest decode apk all) (hcovers : Covers start (payloadWrites all) peak)
    (state : InstallState) :
    Triple (At (Unpacking start apk all [])) (zipVisit z (installVisitor Z rounds) state)
      (fun r v => if r.1 then At (Unpacking start apk all all) v
        else At (Fits start (totalGrowth start (payloadWrites all) + peak)) v)
      (At (Fits start (totalGrowth start (payloadWrites all) + peak))) := by
  refine (triple_zipVisit (I := fun es _ => Unpacking start apk all es) (fun _ _ _ _ h => h.1)
    (fun _ _ _ _ h => h.fits) (fun _ _ h => h) (fun es state e fp hall hfp =>
      triple_installVisitor_fits hgradual
      hhonest hcovers (readableEntries_of_centralEntries hes ▸ hall) hfp state) hpath).post ?_
  rintro ⟨ok, state'⟩ v hv
  cases ok with
  | false => exact hv
  | true =>
      obtain ⟨es, hes', hunpacking⟩ := hv
      obtain rfl : all = es := Option.some.inj (hes.symm.trans hes')
      exact hunpacking

end Extractions

/-! ## The copies -/

section Copies

variable {start : Path → Nat} {files₁ : Contents} {done ws : List (Path × Nat)}
  {n : Bytes × Bytes → Nat} {pair : Bytes × Bytes} {peak rounds : Nat}

/-- The replacements of caches, given what is room for each. -/
def cacheCopies (n : Bytes × Bytes → Nat) (pairs : List (Bytes × Bytes)) : List (Path × Nat) :=
  pairs.map fun pair => (resolve pair.2, n pair)

/-- The replacements `done` have been made, and the resources are as they have been extracted. -/
def Caching (start : Path → Nat) (files₁ : Contents) (done : List (Path × Nat)) : Assertion :=
  fun files _ => (∀ pair ∈ cachePairs, files (resolve pair.1) = files₁ (resolve pair.1)) ∧
    Grown start done (sizes files)

/-- The resources and the caches are in directories of their own. -/
theorem cachePairs_dirs : ∀ pair ∈ cachePairs, (resolve pair.1)[4]? = some (bytes "assets") ∧
    (resolve pair.2)[4]? = some (bytes "files") ∧ (resolve (tmpOf pair.2))[4]? =
      some (bytes "files") := by
  decide +kernel

/-- The resources are neither caches nor their siblings. -/
theorem cachePairs_apart : ∀ pair ∈ cachePairs, ∀ other ∈ cachePairs,
    resolve other.1 ≠ resolve pair.2 ∧ resolve other.1 ≠ resolve (tmpOf pair.2) := by
  intro pair hpair other hother
  have hassets := (cachePairs_dirs other hother).1
  have hne : some (bytes "assets") ≠ some (bytes "files") := by decide
  exact ⟨fun heq => hne (hassets.symm.trans (heq ▸ (cachePairs_dirs pair hpair).2.1)),
    fun heq => hne (hassets.symm.trans (heq ▸ (cachePairs_dirs pair hpair).2.2))⟩

/-- `copy_file_atomic` of a resource has room. -/
theorem triple_copyFileAtomic_fits (hpair : pair ∈ cachePairs)
    (hn : sizes files₁ (resolve pair.1) ≤ n pair)
    (hws : done ++ cacheCopies n [pair] <+: ws) (hcovers : Covers start ws peak) :
    Triple (At (Caching start files₁ done)) (copyFileAtomic rounds pair.1 pair.2)
      (fun r v => if r then At (Caching start files₁ (done ++ cacheCopies n [pair])) v
        else At (Fits start (totalGrowth start ws + peak)) v)
      (At (Fits start (totalGrowth start ws + peak))) := by
  refine Triple.pre (P := fun v => ∃ files₀ notes₀, Caching start files₁ done files₀ notes₀ ∧
    At (Exactly files₀ notes₀) v) (.exists fun files₀ => .exists fun notes₀ =>
      .assume fun hcaching => ?_)
    fun v hv => ⟨v.files, v.rest.notes, hv, rfl, rfl⟩
  obtain ⟨hsources, hgrown⟩ := hcaching
  have hbeginning : ∀ c, BeginningOf files₀ (resolve pair.1) c → c.length ≤ n pair := by
    rintro c ⟨source, hsource, hc⟩
    rw [hsources pair hpair] at hsource
    unfold sizes at hn
    rw [hsource] at hn
    exact Nat.le_trans hc.length_le hn
  have hfits : ∀ v : View Memory,
    At (Underway files₀ pair.2 (BeginningOf files₀ (resolve pair.1))) v →
      At (Fits start (totalGrowth start ws + peak)) v := fun v hv =>
    Underway.fits hv hbeginning hgrown hws hcovers
  refine (triple_copyFileAtomic rounds (cachePairs_apart pair hpair pair hpair).2).mono
    (fun _ hv => hv)
    (fun r v hv => ?_) hfits
  cases r with
  | false => exact hfits v hv
  | true =>
      obtain ⟨content, hcontent, hreplaced⟩ := hv
      have hlength := hbeginning content ⟨content, hcontent, List.prefix_refl _⟩
      refine ⟨fun other hother => ?_, Replaced.grown hreplaced hlength hgrown⟩
      obtain ⟨hdst, htmp⟩ := cachePairs_apart pair hpair other hother
      rw [show v.files = _ from hreplaced, Function.update_of_ne hdst, Function.update_of_ne htmp]
      exact hsources other hother

theorem Caching.fits {files : Contents} {notes : List Note}
    (h : Caching start files₁ done files notes)
    (hws : done <+: ws) : Fits start (totalGrowth start ws + peak) files notes :=
  fits_of_grown h.2 hws

/-- The loop that copies caches has room, by induction on the caches. -/
theorem triple_copyCaches_fits (rounds : Nat)
    (hn : ∀ pair ∈ cachePairs, sizes files₁ (resolve pair.1) ≤ n pair)
    (hcovers : Covers start ws peak) (pairs : List (Bytes × Bytes)) (hpairs : pairs ⊆ cachePairs)
    (hws : done ++ cacheCopies n pairs <+: ws) :
    Triple (At (Caching start files₁ done)) (copyCaches rounds pairs)
      (fun r v => if r then At (Caching start files₁ (done ++ cacheCopies n pairs)) v
        else At (Fits start (totalGrowth start ws + peak)) v)
      (At (Fits start (totalGrowth start ws + peak))) := by
  induction pairs generalizing done with
  | nil =>
      refine triple_pure fun v hv => ?_
      rw [if_pos rfl, cacheCopies, List.map_nil, List.append_nil]
      exact hv
  | cons pair pairs ih =>
      obtain ⟨hpair, hpairs⟩ := List.cons_subset.1 hpairs
      have hsplit : done ++ cacheCopies n (pair :: pairs) =
          done ++ cacheCopies n [pair] ++ cacheCopies n pairs := by
        unfold cacheCopies
        rw [List.append_assoc]
        rfl
      rw [hsplit] at hws ⊢
      have hfirst : done ++ cacheCopies n [pair] <+: ws := (List.prefix_append _ _).trans hws
      have hfits : ∀ v : View Memory, At (Caching start files₁ done) v →
          At (Fits start (totalGrowth start ws + peak)) v := fun v hv =>
        Caching.fits hv ((List.prefix_append _ _).trans hfirst)
      refine triple_bind (R := fun _ => At (Caching start files₁ done))
        (Triple.mono triple_fileExistsNonempty
        (fun _ hv => hv) (fun _ _ hv => hv.2) hfits) fun there =>
          triple_ite (fun _ => ?_) fun _ => ?_
      · exact triple_fails.post fun r v hv => by
          rw [hv.1]
          exact hfits v hv.2
      refine triple_bind (triple_copyFileAtomic_fits hpair (hn pair hpair) hfirst hcovers)
        fun copied => ?_
      cases copied with
      | false => exact triple_pure fun v hv => hv
      | true => exact triple_ite (fun h => absurd h Bool.false_ne_true) fun _ => ih hpairs hws

/-- `seed_english_localization_cache` has room. -/
theorem triple_seedEnglish_fits (hn : sizes files₁ (resolve englishCacheFile.1) ≤
    n englishCacheFile)
    (hws : done ++ cacheCopies n [englishCacheFile] <+: ws) (hcovers : Covers start ws peak) :
    Triple (At (Caching start files₁ done)) (seedEnglishLocalizationCache rounds)
      (fun _ => At (Fits start (totalGrowth start ws + peak)))
        (At (Fits start (totalGrowth start ws + peak))) := by
  have hfits : ∀ v : View Memory, At (Caching start files₁ done) v →
    At (Fits start (totalGrowth start ws + peak)) v :=
    fun v hv => Caching.fits hv ((List.prefix_append _ _).trans hws)
  have hfails : ∀ {format args}, Triple (At (Fits start (totalGrowth start ws + peak)))
    (fails format args)
      (fun _ => At (Fits start (totalGrowth start ws + peak)))
        (At (Fits start (totalGrowth start ws + peak))) :=
    triple_fails.post fun _ _ hv => hv.2
  refine triple_bind (R := fun _ => At (Caching start files₁ done))
    (Triple.mono triple_stat (fun _ hv => hv)
    (fun _ _ hv => hv.2) hfits) fun r => ?_
  cases r with
  | error => exact hfails.pre hfits
  | ok srcSt =>
      refine triple_ite (fun _ => hfails.pre hfits) fun _ => ?_
      refine triple_bind (R := fun _ => At (Caching start files₁ done))
        (Triple.mono triple_stat (fun _ hv => hv)
        (fun _ _ hv => hv.2) hfits) fun dstSt => triple_ite (fun _ => triple_pure hfits) fun _ => ?_
      refine triple_bind (triple_copyFileAtomic_fits (List.mem_append_right _ List.mem_cons_self) hn
        hws hcovers) fun copied => ?_
      cases copied with
      | false => exact triple_pure fun v hv => hv
      | true =>
          refine triple_ite (fun h => absurd h Bool.false_ne_true) fun _ => ?_
          refine Triple.pre (P := At (Fits start (totalGrowth start ws + peak))) ?_ fun v hv =>
            Caching.fits hv hws
          refine triple_bind (R := fun _ => At (Fits start (totalGrowth start ws + peak)))
            (triple_stat.post fun _ _ hv => hv.2) fun r => ?_
          cases r with
          | error => exact hfails
          | ok dstSt => exact triple_ite (fun _ => hfails) fun _ => triple_pure fun v hv => hv

end Copies

/-! ## The resources -/

/-- The file that a required entry is extracted to. -/
def Required.file : Required → Bytes
  | .manifest => manifestName
  | .main => libMain
  | .unity => libUnity
  | .il2cpp => libIl2cpp
  | .metadata => metadataName
  | .data => dataName
  | .resources => resourcesName
  | .guid => guidName
  | .mscorlib => mscorlibName
  | .systemData => systemDataName
  | .systemDrawing => systemDrawingName
  | .english => englishName

section Resources

variable {e : ZipEntry} {es : List ZipEntry} {name target : Bytes} {r : Required}
  {required : Option Required} {m : Message} {start : Path → Nat} {files₁ : Contents}
  {pair : Bytes × Bytes}

theorem selectTarget_required (h : selectTarget name required m = .select target (some r)) :
    target = inDataRoot name ∧ required = some r := by
  unfold selectTarget at h
  split at h
  · cases h
  · cases h
    exact ⟨rfl, rfl⟩

theorem requiredAsset_file (h : requiredAsset name = some r) : name = r.file := by
  unfold requiredAsset at h
  split_ifs at h <;> cases h <;> assumption

theorem requiredLibrary_file (h : requiredLibrary name = some r) : name = r.file := by
  unfold requiredLibrary at h
  split_ifs at h <;> cases h <;> assumption

/-- A required entry is extracted to its file. -/
theorem target_of_required (h : installEntryTarget e = .select target (some r)) : target =
    inDataRoot r.file := by
  unfold installEntryTarget at h
  split at h
  · obtain ⟨rfl, hr⟩ := selectTarget_required h
    cases hr
    rfl
  split at h
  · split at h
    · cases h
    split at h
    · cases h
    obtain ⟨rfl, hr⟩ := selectTarget_required h
    rw [requiredAsset_file hr]
  split at h
  · dsimp only at h
    split at h
    · cases h
    obtain ⟨rfl, hr⟩ := selectTarget_required h
    rw [requiredLibrary_file hr]
  · cases h

theorem cachePairs_required : ∀ pair ∈ cachePairs, ∃ r ∈ allRequired, pair.1 =
    inDataRoot r.file := by
  intro pair hpair
  have hmem : pair.1 ∈ [Required.metadata, .mscorlib, .systemData, .systemDrawing,
    .english].map fun r =>
      inDataRoot r.file :=
    List.mem_map_of_mem hpair
  obtain ⟨r, hr, hfile⟩ := List.mem_map.1 hmem
  exact ⟨r, (by decide : _ ⊆ allRequired) hr, hfile.symm⟩

/-- The plan has room for the cache of each resource that has been extracted. -/
theorem room_for_cache (hnames : CachedByName es) (hpair : pair ∈ cachePairs)
    (hrequired : ∀ r ∈ allRequired, ∃ e ∈ es, ∃ target, installEntryTarget e =
      .select target (some r))
    (hgrown : Grown start (payloadWrites es) (sizes files₁)) :
    ∃ n, (resolve pair.2, n) ∈ cacheWrites es ∧ sizes files₁ (resolve pair.1) ≤ n := by
  obtain ⟨r, hr, hfile⟩ := cachePairs_required pair hpair
  obtain ⟨e, he, target, hselect⟩ := hrequired r hr
  have htarget : (installEntryTarget e).target = some target := by
    rw [hselect]
    rfl
  obtain rfl : target = pair.1 := (target_of_required hselect).trans hfile.symm
  have hwrite : (resolve pair.1, e.usize) ∈ payloadWrites es :=
    List.mem_filterMap.2 ⟨e, he, payloadWrite_of_target htarget⟩
  rcases hgrown (resolve pair.1) with ⟨-, hnone⟩ | ⟨w, hw, hp, hsize⟩
  · exact absurd rfl (hnone _ hwrite)
  · obtain ⟨e', he', hw'⟩ := List.mem_filterMap.1 hw
    unfold payloadWrite at hw'
    obtain ⟨target', htarget', rfl⟩ := Option.map_eq_some_iff.1 hw'
    refine ⟨e'.usize, List.mem_filterMap.2 ⟨e', he', ?_⟩, hsize⟩
    unfold cacheWrite
    rw [htarget', Option.bind_some, hnames e' he' target' htarget' pair hpair hp]
    rfl

theorem caches_nodup : (cachePairs.map fun pair => resolve pair.2).Nodup := by
  decide +kernel

/-- The copies grow by no more than the plan has room for. -/
theorem growth_cacheCopies_le (start : Path → Nat) {n : Bytes × Bytes → Nat}
    (hn : ∀ pair ∈ cachePairs, (resolve pair.2, n pair) ∈ cacheWrites es) :
    totalGrowth start (cacheCopies n cachePairs) ≤ totalGrowth start (cacheWrites es) := by
  refine totalGrowth_le_of_subset (List.Nodup.of_map Prod.fst ?_) fun w hw => ?_
  · unfold cacheCopies
    rw [List.map_map]
    exact caches_nodup
  · obtain ⟨pair, hpair, rfl⟩ := List.mem_map.1 hw
    exact hn pair hpair

end Resources

/-! ## The bound -/

section Bound

variable {Z : Inflater} {decode : Bytes → Option Bytes} {apk : Bytes} {es : List ZipEntry}
  {z : ZipArchive} {start : Path → Nat} {peak rounds : Nat}

/-- Extracting the entries and copying the caches has room. -/
theorem triple_extractAndCopy (hgradual : Z.Gradual decode) (rounds : Nat)
    (hpath : z.fp.path = resolve installApk)
    (hes : centralEntries apk z.cdOffset z.entries = some es) (hhonest : Honest decode apk es)
    (hnames : CachedByName es)
    (hrequired : ∀ r ∈ allRequired, ∃ e ∈ es, ∃ target, installEntryTarget e =
      .select target (some r))
    (hpayload : Covers start (payloadWrites es) peak)
    (hcache : Covers start (cacheWrites es) peak) :
    Triple (At fun files _ => files (resolve installApk) = some apk ∧ sizes files = start)
      (extractAndCopy Z rounds z)
      (fun _ =>
        At (Fits start (totalGrowth start (payloadWrites es) + totalGrowth start
          (cacheWrites es) + peak)))
      (At (Fits start (totalGrowth start (payloadWrites es) + totalGrowth start (cacheWrites es) +
        peak))) := by
  have hfirst : ∀ v : View Memory, At (Fits start (totalGrowth start (payloadWrites es) + peak)) v →
      At (Fits start (totalGrowth start (payloadWrites es) + totalGrowth start
        (cacheWrites es) + peak)) v :=
    fun v hv => Fits.mono hv (by omega)
  refine triple_bind (Triple.mono
    (triple_install_fits hgradual rounds hpath hes hhonest hpayload ⟨0, []⟩)
    (fun v hv => ⟨hv.1, List.nil_prefix, ?_⟩) (fun _ _ hv => hv) hfirst) ?_
  · rw [show sizes v.files = start from hv.2]
    exact grown_start
  rintro ⟨ok, state⟩
  cases ok with
  | false => exact triple_pure fun v hv => hfirst v hv
  | true =>
      refine triple_ite (fun h => absurd h Bool.false_ne_true) fun _ => ?_
      refine Triple.pre (P := fun v => ∃ files₁, Grown start (payloadWrites es) (sizes files₁) ∧
        At (Caching start files₁ (payloadWrites es)) v) (.exists fun files₁ =>
          .assume fun hgrown => ?_) ?_
      · choose! n hn using fun pair hpair =>
          @room_for_cache es start files₁ pair hnames hpair hrequired hgrown
        have hcopies := growth_cacheCopies_le start fun pair hpair => (hn pair hpair).1
        -- the replacements of all stages
        have hcovers : Covers start (payloadWrites es ++ cacheCopies n cachePairs) peak := by
          intro w hw
          rcases List.mem_append.1 hw with hw | hw
          · exact hpayload w hw
          · obtain ⟨pair, hpair, rfl⟩ := List.mem_map.1 hw
            exact hcache _ (hn pair hpair).1
        have hroom : ∀ v : View Memory,
            At (Fits start (totalGrowth start
              (payloadWrites es ++ cacheCopies n cachePairs) + peak)) v →
            At (Fits start (totalGrowth start (payloadWrites es) + totalGrowth start
              (cacheWrites es) + peak)) v := by
          refine fun v hv => Fits.mono hv ?_
          rw [totalGrowth_append]
          omega
        have hsplit : payloadWrites es ++ cacheCopies n cachePairs =
            payloadWrites es ++ cacheCopies n il2cppCacheFiles ++ cacheCopies n
              [englishCacheFile] := by
          unfold cacheCopies cachePairs
          rw [List.map_append, List.append_assoc]
        have henglish : englishCacheFile ∈ cachePairs :=
          List.mem_append_right _ (List.mem_singleton_self _)
        have hcaches : payloadWrites es ++ cacheCopies n il2cppCacheFiles <+:
            payloadWrites es ++ cacheCopies n cachePairs := by
          rw [hsplit]
          exact List.prefix_append _ _
        have hcopied := triple_copyCaches_fits rounds (fun pair hpair => (hn pair hpair).2) hcovers
          il2cppCacheFiles
          (List.subset_append_left _ _) hcaches
        refine triple_bind (hcopied.mono (fun _ hv => hv) (fun _ _ hv => hv) hroom) fun copied => ?_
        cases copied with
        | false => exact triple_pure hroom
        | true =>
            refine triple_ite (fun h => absurd h Bool.false_ne_true) fun _ => ?_
            exact (triple_seedEnglish_fits (hn _ henglish).2 (hsplit ▸ List.prefix_refl _)
              hcovers).mono
              (fun _ hv => hv) (fun _ => hroom) hroom
      · intro v hv
        obtain ⟨-, -, hgrown⟩ : At (Unpacking start apk es es) v := hv
        exact ⟨v.files, hgrown, fun _ _ => rfl, hgrown⟩

end Bound

/-- At every moment of extracting the selected entries and copying the caches, whatever fails and
wherever it is cut off, the files of any set hold together at most what they held before and what
the plan asks for without its reserve, if each selected entry decompresses to as many bytes as it
declares and all entries that are extracted to the file of a cached resource are known by their
names. -/
theorem space_plan_bounds {Z : Inflater} {decode : Bytes → Option Bytes}
    (hgradual : Z.Gradual decode)
    {apk : Bytes} {es : List ZipEntry} {z : ZipArchive} (hpath : z.fp.path = resolve installApk)
    (hes : centralEntries apk z.cdOffset z.entries = some es) (hhonest : Honest decode apk es)
    (hnames : CachedByName es) {w w₁ : World Memory} (hapk : Holding (resolve installApk) apk w)
    {calm : Nat → Decision} (hcalm : Powered Calm calm) {plan : InstallSpacePlan} {need : Nat}
    (hplan : (buildInstallSpacePlan z).run calm w = (some (some (plan, need)), w₁)) (rounds : Nat)
    (decisions : Nat → Decision) (S : Finset Path) :
    held S (sizes ((extractAndCopy Z rounds z).run decisions w₁).2.fs.file) +
      installSpaceReserveBytes ≤
      held S (sizes w.fs.file) + need := by
  obtain ⟨r, m, hrun, -, hresult⟩ :=
    @total_buildInstallSpacePlan w.fs apk z (hpath ▸ hapk) ⟨w, calm, 0⟩ hcalm rfl
  unfold Prog.run at hplan
  rw [hrun] at hplan
  obtain ⟨hr, rfl⟩ := Prod.mk.inj hplan
  obtain ⟨hfs, es', hes', hplanned, rfl, hall⟩ := hresult plan need (Option.some.inj hr)
  obtain rfl : es = es' := Option.some.inj (hes.symm.trans hes')
  have hfits := (triple_extractAndCopy hgradual rounds hpath hes hhonest hnames
    (fun r hr => hplanned.required r (hall r hr)) hplanned.peak_payload hplanned.peak_cache).world
      decisions
    (w := m.world) ⟨?_, ?_⟩
  · have hroom := hfits S
    rw [hplanned.requiredExtra]
    exact Nat.le_trans (Nat.add_le_add_right hroom _) (Nat.le_of_eq (Nat.add_assoc _ _ _))
  · show m.world.fs.file _ = _
    rw [hfs]
    exact hapk
  · show sizes m.world.fs.file = _
    rw [hfs]

/-! ## Small archives -/

/-- Files of one byte under the required names. -/
def smallFiles : List (Bytes × Bytes) :=
  [manifestName, bytes "lib/arm64-v8a/" ++ libMain, bytes "lib/arm64-v8a/" ++ libUnity,
    bytes "lib/arm64-v8a/" ++ libIl2cpp, metadataName, dataName, resourcesName, guidName,
      mscorlibName, systemDataName,
    systemDrawingName, englishName].map (·, [97])

/-- The archive of such files is in place and has been opened. -/
def smallWorld (files : List (Bytes × Bytes)) : World Memory :=
    runtimeWorld (resolve installApk) (archiveOf files)

def smallZip (files : List (Bytes × Bytes)) : ZipArchive :=
  let directory := (zipDirectory (archiveOf files)).getD (0, 0)
  ⟨⟨resolve installApk, 0, false⟩, directory.1, directory.2⟩

/-- The plan for such an archive. -/
def smallPlan (files : List (Bytes × Bytes)) : Option (Option (InstallSpacePlan × Nat)) ×
    World Memory :=
  (buildInstallSpacePlan (smallZip files)).run (fun _ => .good) (smallWorld files)

/-- The extraction of such an archive. -/
def smallInstall (files : List (Bytes × Bytes)) (rounds : Nat) (decisions : Nat → Decision)
    (w : World Memory) :
    Contents :=
  ((extractAndCopy (.ofStream [] []) rounds (smallZip files)).run decisions w).2.fs.file

set_option maxRecDepth 4000 in
theorem smallFiles_evaluated :
    (centralEntries (archiveOf smallFiles) (smallZip smallFiles).cdOffset
      (smallZip smallFiles).entries).isSome ∧
    (∀ es ∈ centralEntries (archiveOf smallFiles) (smallZip smallFiles).cdOffset
      (smallZip smallFiles).entries,
      (∀ e ∈ es, ∀ target ∈ (installEntryTarget e).target,
        (entryBytes (decodeStream [] []) (archiveOf smallFiles) e).map List.length = some e.usize) ∧
      ∀ e ∈ es, ∀ target ∈ (installEntryTarget e).target, ∀ pair ∈ cachePairs, resolve target =
        resolve pair.1 →
        cacheTargetForApkEntry e.name = some pair.2) ∧
    (smallPlan smallFiles).1.map (Option.map Prod.snd) =
      some (some (17 + installSpaceReserveBytes)) := by
  decide +kernel

theorem space_plan_bounds_small : ∃ plan w,
    smallPlan smallFiles = (some (some (plan, 17 + installSpaceReserveBytes)), w) ∧
    ∀ rounds decisions S, held S (sizes (smallInstall smallFiles rounds decisions w)) +
      installSpaceReserveBytes ≤
      held S (sizes (smallWorld smallFiles).fs.file) + (17 + installSpaceReserveBytes) := by
  obtain ⟨hsome, hentries, hneed⟩ := smallFiles_evaluated
  obtain ⟨es, hes⟩ := Option.isSome_iff_exists.1 hsome
  obtain ⟨hhonest, hnames⟩ := hentries es hes
  rcases hplan : smallPlan smallFiles with ⟨result, w⟩
  rw [hplan] at hneed
  obtain ⟨r, hr, hneed⟩ := Option.map_eq_some_iff.1 hneed
  obtain ⟨⟨plan, need⟩, rfl, rfl⟩ := Option.map_eq_some_iff.1 hneed
  obtain rfl : result = _ := hr
  have hread : Honest (decodeStream [] []) (archiveOf smallFiles) es := fun e he target htarget =>
    Option.map_eq_some_iff.1 (hhonest e he target htarget)
  have hcalm : Powered Calm fun _ => .good := fun _ => ⟨rfl, rfl⟩
  exact ⟨plan, w, rfl, space_plan_bounds Inflater.ofStream_gradual rfl hes hread hnames
    (holding_runtimeWorld (resolve installApk) (archiveOf smallFiles)) hcalm hplan⟩

end Asnx.Installer
